/-
The retention sweep (`janitor.go`: `retain`, `loadGroups`, `oldestGroup`) as a machine whose steps are its
transactions.

The sweep loads the logical containers with their byte totals once (`loadGroups`). It first trims every container to
the per-container cap, then picks the container with the oldest line and evicts from it while its own running total is
over the total cap, and prunes at the end. Its totals are local copies: nothing reads the store's bytes again. Sums and
differences of bytes are taken to fit into 64 bits.
Between two of its transactions `DeleteContainer` may commit (`purge`), and any of its transactions may fail, which
ends the sweep (`dbError`). `purged` is a ghost: the bytes such purges took since the totals were loaded.

`loadGroups_groups` says what the sweep loads: one group for each (host, name), with the ids and the summed bytes of
its rows.
-/
import LogDeck.LogStore.Accounting

namespace LogDeck.Retention

open LogDeck.LogStore

/-- every generation of a (host, name) pair -/
structure LogicalGroup where
  host : String
  name : String
  refs : List ℕ
  bytes : ℤ
deriving DecidableEq, Repr

/-- files a generation row under the group of its (host, name), a new one at the end if there is none -/
def fileRow (c : ContainerRow) : List LogicalGroup → List LogicalGroup
  | [] => [⟨c.key.host, c.name, [c.id], c.storedBytes⟩]
  | g :: groups =>
    if g.host = c.key.host ∧ g.name = c.name then
      { g with refs := g.refs ++ [c.id], bytes := g.bytes + c.storedBytes } :: groups
    else g :: fileRow c groups

/-- collapses the generation rows into logical containers -/
def loadGroups (db : DB) : List LogicalGroup := db.containers.foldl (fun groups c => fileRow c groups) []

/-- SELECT MIN(ts_ns) FROM log_lines WHERE container_ref IN (refs) -/
def oldestLine (db : DB) (refs : List ℕ) : Option ℤ :=
  ((db.lines.filter fun l => l.ref ∈ refs).map fun l => l.line.tsNS).min?

def maxTrimRounds : ℕ := 1000

/-- where the sweep is in `retain` -/
inductive Phase where
  | load
  /-- the per-container loop, at group i -/
  | trim (i : ℕ)
  /-- the head of the total-cap loop -/
  | round (r : ℕ)
  /-- `oldestGroup` at group i, with the best (index, timestamp) so far -/
  | scan (r i : ℕ) (best : Option (ℕ × ℤ))
  /-- the total-cap eviction from the group found -/
  | evict (r oldest : ℕ)
  | prune
  | done
deriving DecidableEq, Repr

structure Limits where
  perContainerMB : ℤ
  totalMB : ℤ
deriving DecidableEq, Repr

-- the products have 64 bits: 8796093022208 MB and more give a cap that may be negative
def Limits.perCap (limits : Limits) : ℤ := (limits.perContainerMB * bytesPerMB).bmod (2 ^ 64)
def Limits.totalCap (limits : Limits) : ℤ := (limits.totalMB * bytesPerMB).bmod (2 ^ 64)

structure Sweep where
  limits : Limits
  db : DB
  groups : List LogicalGroup
  total : ℤ
  phase : Phase
  /-- ghost: the bytes purges took since `loadGroups` -/
  purged : ℤ

def Sweep.start (limits : Limits) (db : DB) : Sweep := ⟨limits, db, [], 0, .load, 0⟩

/-- the timestamp `ts` of group i against the best so far -/
def better (best : Option (ℕ × ℤ)) (i : ℕ) (ts : ℤ) : Option (ℕ × ℤ) :=
  match best with
  | none => some (i, ts)
  | some (k, bestTS) => if ts < bestTS then some (i, ts) else some (k, bestTS)

namespace Sweep

/-- one turn of the per-container loop -/
def trimStep (s : Sweep) (i : ℕ) : Sweep :=
  match s.groups[i]? with
  | none => { s with phase := .round 0 }
  | some g =>
    if g.bytes > s.limits.perCap then
      let (db, evicted) := evictOldest s.db g.refs (g.bytes - s.limits.perCap)
      if evicted = 0 then { s with db := db, total := s.total + g.bytes, phase := .trim (i + 1) }
      else { s with db := db, groups := s.groups.set i { g with bytes := g.bytes - evicted } }
    else { s with total := s.total + g.bytes, phase := .trim (i + 1) }

/-- one turn of oldestGroup's loop -/
def scanStep (s : Sweep) (r i : ℕ) (best : Option (ℕ × ℤ)) : Sweep :=
  match s.groups[i]? with
  | none =>
    match best with
    | none => { s with phase := .prune }
    | some (k, _) => { s with phase := .evict r k }
  | some g =>
    if g.bytes ≤ 0 then { s with phase := .scan r (i + 1) best }
    else
      match oldestLine s.db g.refs with
      | none => { s with phase := .scan r (i + 1) best }
      | some ts => { s with phase := .scan r (i + 1) (better best i ts) }

/-- the eviction of the total-cap loop -/
def evictStep (s : Sweep) (r k : ℕ) : Sweep :=
  match s.groups[k]? with
  | none => { s with phase := .round (r + 1) }
  | some g =>
    let (db, evicted) := evictOldest s.db g.refs (s.total - s.limits.totalCap)
    -- exhausted: stop reconsidering it
    if evicted = 0 then { s with db := db, groups := s.groups.set k { g with bytes := 0 }, phase := .round (r + 1) }
    else
      { s with db := db, groups := s.groups.set k { g with bytes := g.bytes - evicted },
               total := s.total - evicted, phase := .round (r + 1) }

/-- the next transaction of the sweep -/
def next (s : Sweep) : Sweep :=
  match s.phase with
  | .load => { s with groups := loadGroups s.db, total := 0, phase := .trim 0, purged := 0 }
  | .trim i => s.trimStep i
  | .round r => { s with phase := if s.total > s.limits.totalCap ∧ r < maxTrimRounds then .scan r 0 none else .prune }
  | .scan r i best => s.scanStep r i best
  | .evict r k => s.evictStep r k
  | .prune => { s with db := pruneEmptyGenerations s.db, phase := .done }
  | .done => s

end Sweep

/-- the bytes actually stored -/
def bytesStored (db : DB) : ℤ := db.bytesWhere fun _ => True

/-- the bytes of the rows of a logical container -/
def purgedBytes (db : DB) (host name : String) : ℤ :=
  db.bytesWhere fun l => l.ref ∈ (generationsOf db host name).map fun c => c.id

inductive SweepOp where
  | next
  | dbError
  /-- DeleteContainer; `committed = false` when its COMMIT fails -/
  | purge (host name : String) (committed : Bool)
deriving DecidableEq, Repr

def step (s : Sweep) : SweepOp → Sweep
  | .next => s.next
  | .dbError => { s with phase := .done }
  | .purge host name committed =>
    match deleteContainer s.db host name with
    | none => s
    | some (db, _) => if committed then { s with db := db, purged := s.purged + purgedBytes s.db host name } else s

/-- row `ref` is a generation of (host, name) -/
def InGroup (db : DB) (host name : String) (ref : ℕ) : Prop :=
  ∃ c ∈ db.containers, c.id = ref ∧ c.key.host = host ∧ c.name = name

instance (db : DB) (host name : String) (ref : ℕ) : Decidable (InGroup db host name ref) := by
  unfold InGroup; infer_instance

/-- the bytes actually stored for a logical container -/
def containerBytes (db : DB) (host name : String) : ℤ := db.bytesWhere fun l => InGroup db host name l.ref

/-! ## Byte counts -/

theorem bytesWhere_congr {db : DB} {p q : LineRow → Prop} [DecidablePred p] [DecidablePred q]
    (h : ∀ l ∈ db.lines, p l ↔ q l) : db.bytesWhere p = db.bytesWhere q := by
  have : (db.lines.filter fun l => decide (p l)) = db.lines.filter fun l => decide (q l) :=
    List.filter_congr fun l hl => by simp only [h l hl]
  rw [DB.bytesWhere, this, DB.bytesWhere]

theorem bytesWhere_split {db : DB} {p q r : LineRow → Prop} [DecidablePred p] [DecidablePred q] [DecidablePred r]
    (hor : ∀ l ∈ db.lines, p l ↔ q l ∨ r l) (hdis : ∀ l ∈ db.lines, q l → ¬ r l) :
    db.bytesWhere p = db.bytesWhere q + db.bytesWhere r := by
  obtain ⟨cs, ls⟩ := db
  simp only [DB.bytesWhere]
  induction ls with
  | nil => rfl
  | cons l ls ih =>
    have ih' := ih (fun l' hl' => hor l' (List.mem_cons_of_mem l hl')) fun l' hl' => hdis l' (List.mem_cons_of_mem l hl')
    have hl := hor l List.mem_cons_self
    have hd := hdis l List.mem_cons_self
    by_cases hq : q l
    · simp only [List.filter_cons, hl.2 (Or.inl hq), hq, hd hq, decide_true, decide_false, if_true, Bool.false_eq_true,
        if_false, List.map_cons, List.sum_cons, ih']
      omega
    · by_cases hr : r l
      · simp only [List.filter_cons, hl.2 (Or.inr hr), hq, hr, decide_true, decide_false, if_true, Bool.false_eq_true,
          if_false, List.map_cons, List.sum_cons, ih']
        omega
      · have hp : ¬ p l := fun hp => (hl.1 hp).elim hq hr
        simp only [List.filter_cons, hp, hq, hr, decide_false, Bool.false_eq_true, if_false, ih']

theorem bytesWhere_eq_zero {db : DB} {p : LineRow → Prop} [DecidablePred p] (h : ∀ l ∈ db.lines, ¬ p l) :
    db.bytesWhere p = 0 := by
  have : db.lines.filter (fun l => decide (p l)) = [] := by
    simp only [List.filter_eq_nil_iff, decide_eq_true_eq]
    exact h
  rw [DB.bytesWhere, this]
  rfl

/-- the bytes under a set of rows, row by row -/
theorem sum_bytesOf {db : DB} {cs : List ContainerRow} (h : (cs.map fun c => c.id).Nodup) :
    (cs.map fun c => db.bytesOf c.id).sum = db.bytesWhere fun l => l.ref ∈ cs.map fun c => c.id := by
  induction cs with
  | nil => exact (bytesWhere_eq_zero (by simp)).symm
  | cons c cs ih =>
    rw [List.map_cons, List.nodup_cons] at h
    have hsplit : db.bytesWhere (fun l => l.ref ∈ (c :: cs).map fun c => c.id) =
        db.bytesWhere (fun l => l.ref = c.id) + db.bytesWhere fun l => l.ref ∈ cs.map fun c => c.id :=
      bytesWhere_split (fun l _ => by rw [List.map_cons, List.mem_cons]) fun l _ e => e ▸ h.1
    rw [List.map_cons, List.sum_cons, ih h.2, hsplit]
    rfl

/-! ## What `loadGroups` loads -/

/-- the rows of a group -/
def rowsOf (cs : List ContainerRow) (host name : String) : List ContainerRow :=
  cs.filter fun c => c.key.host = host ∧ c.name = name

/-- the groups of a list of generation rows -/
structure Groups (cs : List ContainerRow) (groups : List LogicalGroup) : Prop where
  names : (groups.map fun g => (g.host, g.name)).Nodup
  covered : ∀ c ∈ cs, (c.key.host, c.name) ∈ groups.map fun g => (g.host, g.name)
  refs : ∀ g ∈ groups, g.refs = (rowsOf cs g.host g.name).map fun c => c.id
  bytes : ∀ g ∈ groups, g.bytes = ((rowsOf cs g.host g.name).map fun c => c.storedBytes).sum
  total : (groups.map fun g => g.bytes).sum = (cs.map fun c => c.storedBytes).sum

theorem fileRow_cases (c : ContainerRow) (groups : List LogicalGroup) :
    (∃ pre g post, groups = pre ++ g :: post ∧ g.host = c.key.host ∧ g.name = c.name ∧
      fileRow c groups = pre ++ { g with refs := g.refs ++ [c.id], bytes := g.bytes + c.storedBytes } :: post) ∨
    ((c.key.host, c.name) ∉ groups.map (fun g => (g.host, g.name)) ∧
      fileRow c groups = groups ++ [⟨c.key.host, c.name, [c.id], c.storedBytes⟩]) := by
  induction groups with
  | nil => exact Or.inr ⟨by simp, rfl⟩
  | cons g groups ih =>
    by_cases h : g.host = c.key.host ∧ g.name = c.name
    · exact Or.inl ⟨[], g, groups, rfl, h.1, h.2, by simp [fileRow, h]⟩
    · rcases ih with ⟨pre, g', post, e, h1, h2, e'⟩ | ⟨hn, e'⟩
      · exact Or.inl ⟨g :: pre, g', post, by rw [e]; rfl, h1, h2, by simp [fileRow, h, e']⟩
      · refine Or.inr ⟨?_, by simp [fileRow, h, e']⟩
        rw [List.map_cons, List.mem_cons, not_or]
        exact ⟨fun e => h (by simp only [Prod.mk.injEq] at e; exact ⟨e.1.symm, e.2.symm⟩), hn⟩

theorem rowsOf_snoc (cs : List ContainerRow) (c : ContainerRow) (host name : String) :
    rowsOf (cs ++ [c]) host name =
      if (c.key.host, c.name) = (host, name) then rowsOf cs host name ++ [c] else rowsOf cs host name := by
  simp only [rowsOf, List.filter_append, Prod.mk.injEq]
  split_ifs with h
  · simp [h]
  · simp [h]

theorem groups_snoc {cs : List ContainerRow} {groups : List LogicalGroup} (h : Groups cs groups) (c : ContainerRow) :
    Groups (cs ++ [c]) (fileRow c groups) := by
  rcases fileRow_cases c groups with ⟨pre, g, post, rfl, h1, h2, e⟩ | ⟨hn, e⟩
  · have hnames : (fileRow c (pre ++ g :: post)).map (fun g => (g.host, g.name)) =
        (pre ++ g :: post).map fun g => (g.host, g.name) := by
      rw [e]; simp
    have hother : ∀ g' ∈ pre ++ post, (c.key.host, c.name) ≠ (g'.host, g'.name) := by
      intro g' hg' e'
      have hnd := h.names
      rw [List.map_append, List.map_cons, List.nodup_middle, List.nodup_cons, ← List.map_append] at hnd
      exact hnd.1 (h1 ▸ h2 ▸ e' ▸ List.mem_map_of_mem hg')
    have hmem : ∀ g', g' ∈ fileRow c (pre ++ g :: post) →
        g' = { g with refs := g.refs ++ [c.id], bytes := g.bytes + c.storedBytes } ∨ g' ∈ pre ++ post := by
      intro g' hg'
      rw [e] at hg'
      simp only [List.mem_append, List.mem_cons] at hg' ⊢
      tauto
    have hg : g ∈ pre ++ g :: post := List.mem_append_right _ List.mem_cons_self
    have hsub : ∀ g' ∈ pre ++ post, g' ∈ pre ++ g :: post := by
      intro g' hg'
      simp only [List.mem_append, List.mem_cons] at hg' ⊢
      tauto
    refine ⟨hnames ▸ h.names, fun c' hc' => ?_, fun g' hg' => ?_, fun g' hg' => ?_, ?_⟩
    · rw [hnames]
      rcases List.mem_append.1 hc' with hc' | hc'
      · exact h.covered c' hc'
      · obtain rfl := List.mem_singleton.1 hc'
        exact h1 ▸ h2 ▸ List.mem_map_of_mem hg
    · rcases hmem g' hg' with rfl | hg'
      · simp only [rowsOf_snoc, h1, h2, if_true, List.map_append, List.map_cons, List.map_nil]
        rw [h.refs g hg, h1, h2]
      · rw [rowsOf_snoc, if_neg (hother g' hg')]
        exact h.refs g' (hsub g' hg')
    · rcases hmem g' hg' with rfl | hg'
      · simp only [rowsOf_snoc, h1, h2, if_true, List.map_append, List.map_cons, List.map_nil, List.sum_append,
          List.sum_cons, List.sum_nil, add_zero]
        rw [h.bytes g hg, h1, h2]
      · rw [rowsOf_snoc, if_neg (hother g' hg')]
        exact h.bytes g' (hsub g' hg')
    · have ht := h.total
      rw [e]
      simp only [List.map_append, List.map_cons, List.sum_append, List.sum_cons, List.map_nil, List.sum_nil] at ht ⊢
      omega
  · have hrows : rowsOf cs c.key.host c.name = [] := by
      simp only [rowsOf, List.filter_eq_nil_iff, decide_eq_true_eq]
      rintro c' hc' ⟨e1, e2⟩
      exact hn (e1 ▸ e2 ▸ h.covered c' hc')
    have hother : ∀ g' ∈ groups, (c.key.host, c.name) ≠ (g'.host, g'.name) :=
      fun g' hg' e' => hn (e' ▸ List.mem_map_of_mem hg')
    rw [e]
    refine ⟨?_, fun c' hc' => ?_, fun g' hg' => ?_, fun g' hg' => ?_, ?_⟩
    · rw [List.map_append]
      exact nodup_snoc hn h.names
    · rw [List.map_append, List.mem_append]
      rcases List.mem_append.1 hc' with hc' | hc'
      · exact Or.inl (h.covered c' hc')
      · obtain rfl := List.mem_singleton.1 hc'
        exact Or.inr (by simp)
    · rcases List.mem_append.1 hg' with hg' | hg'
      · rw [rowsOf_snoc, if_neg (hother g' hg')]
        exact h.refs g' hg'
      · obtain rfl := List.mem_singleton.1 hg'
        simp [rowsOf_snoc, hrows]
    · rcases List.mem_append.1 hg' with hg' | hg'
      · rw [rowsOf_snoc, if_neg (hother g' hg')]
        exact h.bytes g' hg'
      · obtain rfl := List.mem_singleton.1 hg'
        simp [rowsOf_snoc, hrows]
    · simp [h.total]

theorem loadGroups_groups (db : DB) : Groups db.containers (loadGroups db) := by
  have hfold : ∀ cs done groups, Groups done groups →
      Groups (done ++ cs) (cs.foldl (fun groups c => fileRow c groups) groups) := by
    intro cs
    induction cs with
    | nil => intro done groups h; simpa using h
    | cons c cs ih =>
      intro done groups h
      have := ih (done ++ [c]) _ (groups_snoc h c)
      rwa [List.append_assoc] at this
  have hnil : Groups [] [] := ⟨List.nodup_nil, by simp, by simp, by simp, rfl⟩
  exact hfold db.containers [] [] hnil

end LogDeck.Retention
