/-
The containers that have a history (`logstore/query.go`, `ListContainers`).

One entry for every (host, name): its generations collapsed, with the bytes and the time range of their lines and the
metadata of the newest of them. The rows come from the database in no particular order and are collected in a Go map,
which is ranged over in no particular order either. The zero time, which is before every timestamp of a line, is `none`.

Results:
- `collapse_spec`: what the accumulator of a container holds after its rows, in whatever order;
- `listContainers_index`: the listing is the index of the database, which depends on no order;
- `step_dated`: clocks that do not run before 1970 leave no row that does;
- `listContainers_exact`: after every run of the store the listing says what is stored, to the byte.
-/
import Mathlib.Data.Prod.Lex
import Mathlib.Data.String.Basic
import LogDeck.Lib.GroupFold
import LogDeck.LogStore.Retention

namespace LogDeck.LogStore

open GroupFold
open LogDeck.Retention (Exact containerBytes containerBytes_eq exact_of_accounts rowsOf InGroup)

structure StoredContainer where
  host : String
  name : String
  composeProject : String
  image : String
  storedBytes : ℤ
  oldestTs : Option ℤ
  newestTs : Option ℤ
  removed : Bool
  excluded : Bool
  excludedReason : String
deriving DecidableEq, Repr

structure LineSpan where
  oldest : ℤ
  newest : ℤ
deriving DecidableEq, Repr

/-- SELECT container_ref, MIN(ts_ns), MAX(ts_ns) FROM log_lines GROUP BY container_ref -/
def lineSpans (db : DB) (ref : ℕ) : Option LineSpan :=
  let ts := (db.linesOf ref).map fun l => l.line.tsNS
  match ts.min?, ts.max? with
  | some oldest, some newest => some ⟨oldest, newest⟩
  | _, _ => none

structure Accum where
  container : StoredContainer
  /-- first_seen_ms of the generation whose metadata is shown -/
  currentSeen : ℤ
  /-- the later row is the later generation -/
  currentRef : ℕ
deriving DecidableEq, Repr

/-- an entry without rows -/
def newAccum (key : GenKey) : Accum :=
  { container := { host := key.host, name := key.id, composeProject := "", image := "", storedBytes := 0
                   oldestTs := none, newestTs := none, removed := false, excluded := false, excludedReason := "" }
    currentSeen := -1
    currentRef := 0 }

def StoredContainer.widen (s : StoredContainer) : Option LineSpan → StoredContainer
  | none => s
  | some span =>
    { s with
      oldestTs :=
        match s.oldestTs with
        | none => some span.oldest
        | some oldest => if span.oldest < oldest then some span.oldest else some oldest
      newestTs :=
        match s.newestTs with
        | none => some span.newest
        | some newest => if newest < span.newest then some span.newest else some newest }

/-- the metadata of a generation -/
def StoredContainer.describe (s : StoredContainer) (c : ContainerRow) : StoredContainer :=
  { s with
    composeProject := c.composeProject
    image := c.image
    removed := c.removedMS.isSome
    excluded := c.excludedReason ≠ ""
    excludedReason := c.excludedReason }

/-- one row of `containers` -/
def Accum.add (spans : ℕ → Option LineSpan) (entry : Accum) (c : ContainerRow) : Accum :=
  let container := { entry.container with storedBytes := entry.container.storedBytes + c.storedBytes }.widen (spans c.id)
  if c.firstSeenMS > entry.currentSeen ∨ c.firstSeenMS = entry.currentSeen ∧ c.id > entry.currentRef then
    { container := container.describe c, currentSeen := c.firstSeenMS, currentRef := c.id }
  else { entry with container := container }

/-- the logical container of a row -/
def logicalKey (c : ContainerRow) : GenKey := ⟨c.key.host, c.name⟩

def byName (spans : ℕ → Option LineSpan) (rows : List ContainerRow) : List (GenKey × Accum) :=
  collect logicalKey newAccum (Accum.add spans) rows

def less (a b : StoredContainer) : Bool := if a.host ≠ b.host then a.host < b.host else a.name < b.name

/-- a reading of the database: the order in which the rows come, and that in which the map is ranged over -/
structure RowOrder (db : DB) where
  rows : List ContainerRow
  rows_perm : rows.Perm db.containers
  ranged : List (GenKey × Accum)
  ranged_perm : ranged.Perm (byName (lineSpans db) rows)

def ListContainers {db : DB} (r : RowOrder db) : List StoredContainer :=
  (r.ranged.map fun e => e.2.container).insertionSort fun a b => less b a = false

/-! ## The accumulator -/

section
variable {db : DB} {cs : List ContainerRow} {key : GenKey}

/-- the timestamps of the lines of some rows -/
def times (db : DB) (cs : List ContainerRow) : List ℤ := cs.flatMap fun c => (db.linesOf c.id).map fun l => l.line.tsNS

/-- c is the newest of cs, by the time it was first seen and then by its row -/
def IsNewest (cs : List ContainerRow) (c : ContainerRow) : Prop :=
  c ∈ cs ∧ ∀ c' ∈ cs, c'.firstSeenMS < c.firstSeenMS ∨ c'.firstSeenMS = c.firstSeenMS ∧ c'.id ≤ c.id

theorem min?_append (xs ys : List ℤ) :
    (xs ++ ys).min? =
      match xs.min?, ys.min? with
      | none, b => b
      | a, none => a
      | some a, some b => if b < a then some b else some a := by
  cases hx : xs.min? with
  | none =>
    rw [List.min?_eq_none_iff] at hx
    rw [hx, List.nil_append]
  | some a =>
    cases hy : ys.min? with
    | none =>
      rw [List.min?_eq_none_iff] at hy
      rw [hy, List.append_nil, hx]
    | some b =>
      obtain ⟨ha, hale⟩ := List.min?_eq_some_iff.1 hx
      obtain ⟨hb, hble⟩ := List.min?_eq_some_iff.1 hy
      dsimp only
      split_ifs with hlt
      · refine List.min?_eq_some_iff.2 ⟨List.mem_append_right _ hb, fun x hmem => ?_⟩
        rcases List.mem_append.1 hmem with hmem | hmem
        · exact hlt.le.trans (hale x hmem)
        · exact hble x hmem
      · refine List.min?_eq_some_iff.2 ⟨List.mem_append_left _ ha, fun x hmem => ?_⟩
        rcases List.mem_append.1 hmem with hmem | hmem
        · exact hale x hmem
        · exact (not_lt.1 hlt).trans (hble x hmem)

theorem max?_append (xs ys : List ℤ) :
    (xs ++ ys).max? =
      match xs.max?, ys.max? with
      | none, b => b
      | a, none => a
      | some a, some b => if a < b then some b else some a := by
  cases hx : xs.max? with
  | none =>
    rw [List.max?_eq_none_iff] at hx
    rw [hx, List.nil_append]
  | some a =>
    cases hy : ys.max? with
    | none =>
      rw [List.max?_eq_none_iff] at hy
      rw [hy, List.append_nil, hx]
    | some b =>
      obtain ⟨ha, hale⟩ := List.max?_eq_some_iff.1 hx
      obtain ⟨hb, hble⟩ := List.max?_eq_some_iff.1 hy
      dsimp only
      split_ifs with hlt
      · refine List.max?_eq_some_iff.2 ⟨List.mem_append_right _ hb, fun x hmem => ?_⟩
        rcases List.mem_append.1 hmem with hmem | hmem
        · exact (hale x hmem).trans hlt.le
        · exact hble x hmem
      · refine List.max?_eq_some_iff.2 ⟨List.mem_append_left _ ha, fun x hmem => ?_⟩
        rcases List.mem_append.1 hmem with hmem | hmem
        · exact hale x hmem
        · exact (hble x hmem).trans (not_lt.1 hlt)

/-- the least and the greatest of a list depend on its elements only -/
theorem min?_congr {xs ys : List ℤ} (h : ∀ x, x ∈ xs ↔ x ∈ ys) : xs.min? = ys.min? := by
  refine Option.ext fun a => ?_
  rw [List.min?_eq_some_iff, List.min?_eq_some_iff]
  simp only [h]

theorem max?_congr {xs ys : List ℤ} (h : ∀ x, x ∈ xs ↔ x ∈ ys) : xs.max? = ys.max? := by
  refine Option.ext fun a => ?_
  rw [List.max?_eq_some_iff, List.max?_eq_some_iff]
  simp only [h]

theorem widen_times {s : StoredContainer} {ts : List ℤ} (holdest : s.oldestTs = ts.min?) (hnewest : s.newestTs = ts.max?)
    (ref : ℕ) :
    (s.widen (lineSpans db ref)).oldestTs = (ts ++ (db.linesOf ref).map fun l => l.line.tsNS).min? ∧
      (s.widen (lineSpans db ref)).newestTs = (ts ++ (db.linesOf ref).map fun l => l.line.tsNS).max? := by
  rw [min?_append, max?_append, ← holdest, ← hnewest]
  unfold lineSpans
  generalize (db.linesOf ref).map (fun l => l.line.tsNS) = xs
  cases xs with
  | nil =>
    simp only [StoredContainer.widen, List.min?_nil, List.max?_nil]
    constructor
    · cases s.oldestTs with
      | none => rfl
      | some _ => rfl
    · cases s.newestTs with
      | none => rfl
      | some _ => rfl
  | cons x xs =>
    simp only [StoredContainer.widen, List.min?_cons', List.max?_cons']
    constructor
    · cases s.oldestTs with
      | none => rfl
      | some _ => rfl
    · cases s.newestTs with
      | none => rfl
      | some _ => rfl

/-- an entry has the metadata of a generation -/
structure Shows (s : StoredContainer) (c : ContainerRow) : Prop where
  composeProject : s.composeProject = c.composeProject
  image : s.image = c.image
  removed : s.removed = c.removedMS.isSome
  excluded : s.excluded = (c.excludedReason ≠ "" : Bool)
  excludedReason : s.excludedReason = c.excludedReason

/-- what the accumulator of a container says about its rows -/
structure Collapsed (db : DB) (key : GenKey) (cs : List ContainerRow) (entry : Accum) : Prop where
  host : entry.container.host = key.host
  name : entry.container.name = key.id
  bytes : entry.container.storedBytes = (cs.map fun c => c.storedBytes).sum
  oldest : entry.container.oldestTs = (times db cs).min?
  newest : entry.container.newestTs = (times db cs).max?
  described : (cs = [] ∧ entry.currentSeen = -1) ∨
    ∃ c, IsNewest cs c ∧ entry.currentSeen = c.firstSeenMS ∧ entry.currentRef = c.id ∧
      Shows entry.container c

theorem collapsed_add {entry : Accum} (h : Collapsed db key cs entry) {c : ContainerRow} (hc : 0 ≤ c.firstSeenMS) :
    Collapsed db key (cs ++ [c]) (entry.add (lineSpans db) c) := by
  have htimes : times db (cs ++ [c]) = times db cs ++ (db.linesOf c.id).map fun l => l.line.tsNS := by
    simp [times]
  have hwide := @widen_times db { entry.container with storedBytes := entry.container.storedBytes + c.storedBytes }
    (times db cs) h.oldest h.newest c.id
  have hwiden : ∀ (s : StoredContainer) (span : Option LineSpan),
      (s.widen span).host = s.host ∧ (s.widen span).name = s.name ∧ (s.widen span).storedBytes = s.storedBytes ∧
        ∀ c', Shows s c' → Shows (s.widen span) c' := by
    intro s span
    cases span with
    | none => exact ⟨rfl, rfl, rfl, fun c' hc' => hc'⟩
    | some span => exact ⟨rfl, rfl, rfl, fun c' hc' => ⟨hc'.1, hc'.2, hc'.3, hc'.4, hc'.5⟩⟩
  obtain ⟨hhost, hname, hbytes, hkeep⟩ :=
    hwiden { entry.container with storedBytes := entry.container.storedBytes + c.storedBytes } (lineSpans db c.id)
  have hsum : entry.container.storedBytes + c.storedBytes = ((cs ++ [c]).map fun c => c.storedBytes).sum := by
    rw [List.map_append, List.sum_append, h.bytes]
    simp
  unfold Accum.add
  dsimp only
  split_ifs with hlater
  · -- the row is the newest so far
    refine ⟨hhost.trans h.host, hname.trans h.name, hbytes.trans hsum, ?_, ?_,
      .inr ⟨c, ⟨?_, fun c' hc' => ?_⟩, rfl, rfl, ⟨rfl, rfl, rfl, rfl, rfl⟩⟩⟩
    · rw [htimes]
      exact hwide.1
    · rw [htimes]
      exact hwide.2
    · exact List.mem_append_right _ (List.mem_singleton_self c)
    · rcases List.mem_append.1 hc' with hc' | hc'
      · rcases h.described with ⟨rfl, -⟩ | ⟨d, hd, hseen, href, -⟩
        · cases hc'
        · rw [hseen, href] at hlater
          have hd' := hd.2 c' hc'
          omega
      · obtain rfl := List.mem_singleton.1 hc'
        exact .inr ⟨rfl, le_rfl⟩
  · refine ⟨hhost.trans h.host, hname.trans h.name, hbytes.trans hsum, ?_, ?_, .inr ?_⟩
    · rw [htimes]
      exact hwide.1
    · rw [htimes]
      exact hwide.2
    · rcases h.described with ⟨rfl, hnone⟩ | ⟨d, hd, hseen, href, hshown⟩
      · rw [hnone] at hlater
        omega
      · refine ⟨d, ⟨List.mem_append_left _ hd.1, fun c' hc' => ?_⟩, hseen, href,
          hkeep d ⟨hshown.1, hshown.2, hshown.3, hshown.4, hshown.5⟩⟩
        rcases List.mem_append.1 hc' with hc' | hc'
        · exact hd.2 c' hc'
        · obtain rfl := List.mem_singleton.1 hc'
          rw [hseen, href] at hlater
          omega

/-- **Collapsing.** Whatever the order of the rows. -/
theorem collapse_spec (hseen : ∀ c ∈ cs, 0 ≤ c.firstSeenMS) :
    Collapsed db key cs (cs.foldl (Accum.add (lineSpans db)) (newAccum key)) := by
  induction cs using List.reverseRecOn with
  | nil => exact ⟨rfl, rfl, rfl, rfl, rfl, .inl ⟨rfl, rfl⟩⟩
  | append_singleton cs c ih =>
    rw [List.foldl_append, List.foldl_cons, List.foldl_nil]
    exact collapsed_add (ih fun c' hc' => hseen c' (List.mem_append_left _ hc')) (hseen c (by simp))

end

/-! ## The listing -/

/-- the timestamps of the lines of a container -/
def timesOf (db : DB) (host name : String) : List ℤ := times db (generationsOf db host name)

/-- what a list of entries says about a database -/
structure IsIndex (db : DB) (l : List StoredContainer) : Prop where
  sorted : l.Pairwise fun a b => less a b = true
  listed : ∀ host name, (∃ e ∈ l, e.host = host ∧ e.name = name) ↔ ∃ c ∈ db.containers, c.key.host = host ∧ c.name = name
  bytes : ∀ e ∈ l, e.storedBytes = containerBytes db e.host e.name
  oldest : ∀ e ∈ l, e.oldestTs = (timesOf db e.host e.name).min?
  newest : ∀ e ∈ l, e.newestTs = (timesOf db e.host e.name).max?
  described : ∀ e ∈ l, ∃ c, IsNewest (generationsOf db e.host e.name) c ∧ Shows e c

/-- host and name, in the order of the listing -/
def place (s : StoredContainer) : Lex (String × String) := toLex (s.host, s.name)

theorem less_iff (a b : StoredContainer) : less a b = true ↔ place a < place b := by
  unfold less place
  rw [Prod.Lex.toLex_lt_toLex]
  by_cases hhost : a.host = b.host
  · simp [hhost]
  · simp [hhost]

/-- sorting entries of distinct places puts each strictly before the next -/
theorem sorted_strictly {l : List StoredContainer} (h : (l.map place).Nodup) :
    (l.insertionSort fun a b => less b a = false).Pairwise fun a b => less a b = true := by
  have hle : ∀ a b : StoredContainer, less b a = false ↔ place a ≤ place b := by
    intro a b
    rw [← Bool.not_eq_true, less_iff, not_lt]
  have htotal : Std.Total fun a b : StoredContainer => less b a = false := by
    refine ⟨fun a b => ?_⟩
    rw [hle, hle]
    exact le_total (place a) (place b)
  have htrans : IsTrans StoredContainer fun a b => less b a = false := by
    refine ⟨fun a b c hab hbc => ?_⟩
    rw [hle] at hab hbc ⊢
    exact hab.trans hbc
  have hsorted := List.pairwise_insertionSort (fun a b : StoredContainer => less b a = false) l
  have hdistinct : ((l.insertionSort fun a b => less b a = false).map place).Nodup :=
    ((List.perm_insertionSort _ l).map place).nodup_iff.2 h
  rw [List.Nodup, List.pairwise_map] at hdistinct
  refine (hsorted.and hdistinct).imp fun hab => ?_
  rw [less_iff]
  exact lt_of_le_of_ne ((hle _ _).1 hab.1) hab.2

section
variable {db : DB}

theorem mem_times {cs : List ContainerRow} {x : ℤ} :
    x ∈ times db cs ↔ ∃ c ∈ cs, ∃ l ∈ db.lines, l.ref = c.id ∧ l.line.tsNS = x := by
  simp [times, DB.linesOf, and_assoc]

theorem times_perm {cs cs' : List ContainerRow} (h : cs.Perm cs') (x : ℤ) : x ∈ times db cs ↔ x ∈ times db cs' := by
  rw [mem_times, mem_times]
  simp only [h.mem_iff]

/-- **The listing is the index of the database.** -/
theorem listContainers_index (hexact : Exact db) (hseen : ∀ c ∈ db.containers, 0 ≤ c.firstSeenMS) (r : RowOrder db) :
    IsIndex db (ListContainers r) := by
  have hgroup : ∀ key : GenKey, (group logicalKey key r.rows).Perm (generationsOf db key.host key.id) := by
    intro key
    have hsame : group logicalKey key db.containers = generationsOf db key.host key.id := by
      refine List.filter_congr fun c _ => ?_
      obtain ⟨host, name⟩ := key
      simp [logicalKey]
    rw [← hsame]
    exact r.rows_perm.filter _
  -- an entry of the listing is that of a key of the map
  have hentry : ∀ e, e ∈ ListContainers r ↔ ∃ key entry, (key, entry) ∈ byName (lineSpans db) r.rows ∧
      entry.container = e := by
    intro e
    unfold ListContainers
    rw [(List.perm_insertionSort _ _).mem_iff, List.mem_map]
    constructor
    · rintro ⟨⟨key, entry⟩, hmem, rfl⟩
      exact ⟨key, entry, r.ranged_perm.mem_iff.1 hmem, rfl⟩
    · rintro ⟨key, entry, hmem, rfl⟩
      exact ⟨(key, entry), r.ranged_perm.mem_iff.2 hmem, rfl⟩
  have hspec : ∀ key entry, (key, entry) ∈ byName (lineSpans db) r.rows →
      Collapsed db key (group logicalKey key r.rows) entry ∧ group logicalKey key r.rows ≠ [] := by
    intro key entry hmem
    obtain ⟨⟨c, hc, hkey⟩, rfl⟩ := mem_collect.1 hmem
    refine ⟨collapse_spec fun c hc => hseen c ?_, ?_⟩
    · exact r.rows_perm.mem_iff.1 (List.mem_of_mem_filter hc)
    · exact List.ne_nil_of_mem (List.mem_filter.2 ⟨hc, decide_eq_true hkey⟩)
  have hplaces : ((r.ranged.map fun e => e.2.container).map place).Nodup := by
    have hkeys : (r.ranged.map Prod.fst).Nodup := (r.ranged_perm.map Prod.fst).nodup_iff.2 (nodup_collect r.rows)
    have hplace : (r.ranged.map fun e => e.2.container).map place =
        (r.ranged.map Prod.fst).map fun k => toLex (k.host, k.id) := by
      rw [List.map_map, List.map_map]
      refine List.map_congr_left fun e he => ?_
      obtain ⟨hcollapsed, -⟩ := hspec e.1 e.2 (r.ranged_perm.mem_iff.1 he)
      simp only [Function.comp, place, hcollapsed.host, hcollapsed.name]
    rw [hplace]
    refine hkeys.map fun k k' heq => ?_
    obtain ⟨hhost, hid⟩ := Prod.mk.inj (toLex.injective heq)
    cases k
    cases k'
    exact GenKey.mk.injEq .. ▸ ⟨hhost, hid⟩
  refine ⟨sorted_strictly hplaces, fun host name => ?_, fun e he => ?_, fun e he => ?_, fun e he => ?_, fun e he => ?_⟩
  · constructor
    · rintro ⟨e, he, rfl, rfl⟩
      obtain ⟨key, entry, hmem, rfl⟩ := (hentry e).1 he
      obtain ⟨hcollapsed, hne⟩ := hspec key entry hmem
      obtain ⟨c, hc⟩ := List.exists_mem_of_ne_nil _ hne
      obtain ⟨hrow, hkey⟩ := List.mem_filter.1 hc
      obtain rfl := of_decide_eq_true hkey
      exact ⟨c, r.rows_perm.mem_iff.1 hrow, hcollapsed.host.symm, hcollapsed.name.symm⟩
    · rintro ⟨c, hc, rfl, rfl⟩
      have hmem := (@mem_collect _ _ _ _ logicalKey newAccum (Accum.add (lineSpans db)) r.rows (logicalKey c) _).2
        ⟨⟨c, r.rows_perm.mem_iff.2 hc, rfl⟩, rfl⟩
      obtain ⟨hcollapsed, -⟩ := hspec _ _ hmem
      exact ⟨_, (hentry _).2 ⟨_, _, hmem, rfl⟩, hcollapsed.host, hcollapsed.name⟩
  all_goals
    obtain ⟨key, entry, hmem, rfl⟩ := (hentry e).1 he
    obtain ⟨hcollapsed, hne⟩ := hspec key entry hmem
  · rw [hcollapsed.bytes, hcollapsed.host, hcollapsed.name, containerBytes_eq hexact]
    exact ((hgroup key).map _).sum_eq
  · rw [hcollapsed.oldest, hcollapsed.host, hcollapsed.name]
    exact min?_congr (times_perm (hgroup key))
  · rw [hcollapsed.newest, hcollapsed.host, hcollapsed.name]
    exact max?_congr (times_perm (hgroup key))
  · rcases hcollapsed.described with ⟨hnil, -⟩ | ⟨c, hc, -, -, hshown⟩
    · exact absurd hnil hne
    · rw [hcollapsed.host, hcollapsed.name]
      exact ⟨c, ⟨(hgroup key).mem_iff.1 hc.1, fun c' hc' => hc.2 c' ((hgroup key).mem_iff.2 hc')⟩, hshown⟩

/-- there is one index -/
theorem index_unique (hexact : Exact db) {l l' : List StoredContainer} (h : IsIndex db l) (h' : IsIndex db l') : l = l' := by
  have hsub : ∀ {l l' : List StoredContainer}, IsIndex db l → IsIndex db l' → l ⊆ l' := by
    intro l l' h h' e he
    obtain ⟨e', he', hhost, hname⟩ := (h'.listed e.host e.name).2 ((h.listed e.host e.name).1 ⟨e, he, rfl, rfl⟩)
    obtain ⟨c, hc, hshows⟩ := h.described e he
    obtain ⟨c', hc', hshows'⟩ := h'.described e' he'
    rw [hhost, hname] at hc'
    have hids : c.id = c'.id := by
      have h₁ := hc.2 c' hc'.1
      have h₂ := hc'.2 c hc.1
      omega
    obtain rfl := hexact.row_eq_of_id (List.mem_of_mem_filter hc.1) (List.mem_of_mem_filter hc'.1) hids
    have hbytes := (h.bytes e he).trans (hhost ▸ hname ▸ (h'.bytes e' he').symm)
    have holdest := (h.oldest e he).trans (hhost ▸ hname ▸ (h'.oldest e' he').symm)
    have hnewest := (h.newest e he).trans (hhost ▸ hname ▸ (h'.newest e' he').symm)
    have hsame : e = e' := by
      obtain ⟨host, name, project, image, bytes, oldest, newest, removed, excluded, reason⟩ := e
      obtain ⟨host', name', project', image', bytes', oldest', newest', removed', excluded', reason'⟩ := e'
      obtain ⟨p1, p2, p3, p4, p5⟩ := hshows
      obtain ⟨q1, q2, q3, q4, q5⟩ := hshows'
      dsimp only at *
      simp only [hhost, hname, p1, p2, p3, p4, p5, q1, q2, q3, q4, q5, hbytes, holdest, hnewest]
    exact hsame ▸ he'
  have hirr : ∀ a b : StoredContainer, less a b = true → less b a = true → a = b := by
    intro a b hab hba
    rw [less_iff] at hab hba
    exact absurd (hab.trans hba) (lt_irrefl _)
  have hnodup : ∀ {l : List StoredContainer}, IsIndex db l → l.Nodup := by
    intro l h
    refine h.sorted.imp fun hab heq => ?_
    rw [less_iff, heq] at hab
    exact lt_irrefl _ hab
  have hperm : l.Perm l' := (List.perm_ext_iff_of_nodup (hnodup h) (hnodup h')).2 fun e =>
    ⟨fun he => hsub h h' he, fun he => hsub h' h he⟩
  exact hperm.eq_of_pairwise (fun a b _ _ => hirr a b) h.sorted h'.sorted

end

/-! ## Clocks -/

/-- no row was first seen before 1970 -/
def Dated (db : DB) : Prop := ∀ t ∈ db.containers.map fun c => c.firstSeenMS, 0 ≤ t

/-- the clock of an operation reads 1970 or later -/
def Op.Dated : Op → Prop
  | .commit _ nowMS => 0 ≤ nowMS
  | .upsertMeta _ _ nowMS => 0 ≤ nowMS
  | .commitFails | .deleteContainer .. | .evictOldest .. | .pruneEmptyGenerations | .stampRemoved .. => True

section
variable {db db' : DB}

theorem Dated.congr (h : Dated db)
    (heq : db'.containers.map (fun c => c.firstSeenMS) = db.containers.map fun c => c.firstSeenMS) : Dated db' := by
  unfold Dated
  rw [heq]
  exact h

theorem Dated.subset (h : Dated db) (hsub : db'.containers ⊆ db.containers) : Dated db' :=
  fun t ht => h t (List.map_subset _ hsub ht)

theorem Dated.snoc (h : Dated db) {c : ContainerRow} (hc : 0 ≤ c.firstSeenMS) :
    Dated { db with containers := db.containers ++ [c] } := by
  intro t ht
  rw [List.map_append, List.mem_append] at ht
  rcases ht with ht | ht
  · exact h t ht
  · obtain rfl := List.mem_singleton.1 ht
    exact hc

theorem upsertGeneration_dated (h : Dated db) (key : GenKey) (name project : String) {nowMS : ℤ} (hnow : 0 ≤ nowMS) :
    Dated (upsertGeneration db key name project nowMS).1 := by
  unfold upsertGeneration
  cases db.find key with
  | some c => exact h.congr (map_updateWhere _ fun _ _ => rfl)
  | none => exact h.snoc hnow

theorem ingestMsg_dated {refs : Refs} {nowMS : ℤ} (hnow : 0 ≤ nowMS) {p q : DB × Refs} {m : IngestMsg} (h : Dated p.1)
    (hm : ingestMsg refs nowMS p m = .ok q) : Dated q.1 := by
  have hresolved : Dated (resolve refs nowMS p.1 p.2 m).1 := by
    rcases resolve_cases refs nowMS p.1 p.2 m with ⟨ref, -, hr⟩ | ⟨-, -, hr⟩
    · rw [hr]
      exact h
    · rw [hr]
      exact upsertGeneration_dated h _ _ _ hnow
  unfold ingestMsg at hm
  generalize resolve refs nowMS p.1 p.2 m = r at hresolved hm
  obtain ⟨db, fresh, ref⟩ := r
  cases hbody : m.body with
  | done reason =>
    simp only [hbody, Except.ok.injEq] at hm
    subst hm
    dsimp only
    split_ifs
    · exact hresolved.congr (map_updateWhere _ fun _ _ => rfl)
    · exact hresolved
  | line l =>
    simp only [hbody] at hm
    split_ifs at hm
    · cases hm
      exact hresolved
    · cases hm
      exact hresolved.congr (storeLine_map _ (fun _ _ _ => rfl) _ _ _ _ _)

theorem batch_dated {refs : Refs} {nowMS : ℤ} (hnow : 0 ≤ nowMS) {batch : List IngestMsg} {p q : DB × Refs} (h : Dated p.1)
    (hb : batch.foldlM (ingestMsg refs nowMS) p = .ok q) : Dated q.1 := by
  induction batch generalizing p with
  | nil =>
    cases hb
    exact h
  | cons m batch ih =>
    rw [List.foldlM_cons] at hb
    cases hm : ingestMsg refs nowMS p m with
    | error e =>
      rw [hm] at hb
      cases hb
    | ok p' =>
      rw [hm] at hb
      exact ih (ingestMsg_dated hnow h hm) hb

theorem upsertMeta_dated (h : Dated db) (key : GenKey) (info : ContainerInfo) {nowMS : ℤ} (hnow : 0 ≤ nowMS) :
    Dated (upsertMeta db key info nowMS) := by
  have hfirst : 0 ≤ (if info.created > 0 then info.created * 1000 else nowMS) := by
    split_ifs
    · omega
    · exact hnow
  unfold upsertMeta
  cases db.find key with
  | none => exact h.snoc hfirst
  | some c =>
    intro t ht
    obtain ⟨r, hr, rfl⟩ := List.mem_map.1 ht
    obtain ⟨r₀, hr₀, rfl⟩ := mem_updateWhere.1 hr
    have hr₀' : 0 ≤ r₀.firstSeenMS := h _ (List.mem_map_of_mem hr₀)
    by_cases hkey : r₀.key = key
    · rw [if_pos hkey]
      exact le_min hr₀' hfirst
    · rw [if_neg hkey]
      exact hr₀'

theorem step_dated {s : Store} (h : Dated s.db) {o : Op} (ho : o.Dated) : Dated (step s o).db := by
  cases o with
  | commit batch nowMS =>
    simp only [step, Store.commitStep, Store.tryCommit]
    cases hcommit : commit s.dropInvalidated.db s.dropInvalidated.refs batch nowMS with
    | error e => exact h
    | ok q =>
      rw [commit_eq_ingest] at hcommit
      cases hf : batch.foldlM (ingestMsg s.dropInvalidated.refs nowMS) (s.dropInvalidated.db, fun _ => none) with
      | error e =>
        rw [hf] at hcommit
        cases hcommit
      | ok q' =>
        rw [hf] at hcommit
        cases hcommit
        exact batch_dated ho h hf
  | commitFails => exact h
  | deleteContainer host name committed =>
    simp only [step, Store.deleteContainerStep]
    cases hd : deleteContainer s.db host name with
    | none => exact h
    | some q =>
      cases committed with
      | false => exact h
      | true =>
        unfold deleteContainer at hd
        split at hd
        · cases hd
        · cases hd
          exact h.subset List.filter_sublist.subset
  | evictOldest refs excess => exact h.congr (evictRows_map _ (fun _ _ => rfl) _ _)
  | pruneEmptyGenerations => exact h.subset List.filter_sublist.subset
  | upsertMeta key info nowMS => exact upsertMeta_dated h key info ho
  | stampRemoved key nowMS => exact h.congr (map_updateWhere _ fun _ _ => rfl)

end

theorem run_dated {s : Store} (h : Dated s.db) {ops : List Op} (hops : ∀ o ∈ ops, o.Dated) :
    Dated (Machine.run step s ops).db := by
  induction ops generalizing s with
  | nil => exact h
  | cons o ops ih =>
    exact ih (step_dated h (hops o List.mem_cons_self)) fun o' ho' => hops o' (List.mem_cons_of_mem o ho')

/-- **The listing is exact.** After every run of the store, in whatever order the rows come and the map is ranged over,
there is one and the same listing: a container for every (host, name) that has a generation, in order, each with the bytes
that are stored of it, the first and the last timestamp of its lines and the metadata of its newest generation. -/
theorem listContainers_exact (ops : List Op) (hops : ∀ o ∈ ops, o.Dated) :
    let db := (Machine.run step .init ops).db
    (∀ r : RowOrder db, IsIndex db (ListContainers r)) ∧ ∀ r r' : RowOrder db, ListContainers r = ListContainers r' := by
  intro db
  have haccounts : Accounts (Machine.run Ledger.step .init ops).store.db (Machine.run Ledger.step .init ops).hist :=
    run_accounts (accounts_empty _) ops
  have hexact : Exact db := by
    have h := exact_of_accounts haccounts
    rw [Ledger.run_store] at h
    exact h
  have hdated : Dated db := by
    refine run_dated (fun t ht => ?_) hops
    cases ht
  have hindex : ∀ r : RowOrder db, IsIndex db (ListContainers r) :=
    fun r => listContainers_index hexact (fun c hc => hdated _ (List.mem_map_of_mem hc)) r
  exact ⟨hindex, fun r r' => index_unique hexact (hindex r) (hindex r')⟩

/-- rows and map in the order of the table -/
def tableOrder (db : DB) : RowOrder db where
  rows := db.containers
  rows_perm := .refl _
  ranged := byName (lineSpans db) db.containers
  ranged_perm := .refl _

/-- a container that was rebuilt, and a line of each generation -/
def rebuilt : List Op :=
  [.commit [⟨⟨"local", "aaa"⟩, "web", "", .line ⟨5, .stdout, 0, [104, 105]⟩⟩,
            ⟨⟨"local", "bbb"⟩, "web", "shop", .line ⟨9, .stderr, 0, [104]⟩⟩] 1]

theorem listContainers_exact_rebuilt :
    let db := (Machine.run step .init rebuilt).db
    IsIndex db (ListContainers (tableOrder db)) ∧
      ListContainers (tableOrder db) =
        [{ host := "local", name := "web", composeProject := "shop", image := "", storedBytes := 3, oldestTs := some 5
           newestTs := some 9, removed := false, excluded := false, excludedReason := "" }] := by
  have hops : ∀ o ∈ rebuilt, o.Dated := by
    intro o ho
    obtain rfl := List.mem_singleton.1 ho
    exact zero_le_one
  exact ⟨(listContainers_exact rebuilt hops).1 _, by decide⟩

end LogDeck.LogStore
