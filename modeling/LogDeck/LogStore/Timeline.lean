/-
The timeline of a name: what the history query for (host, name) returns of the lines stored under that name.

The name of a generation is a column of its row. A query finds the rows by it, and every upsert (a listed container, the
first line after the writer lost its cache entry) overwrites it with whatever name the container has at that moment.
So a line stays in its timeline exactly as long as no upsert brings another name to the row it is filed under.

Model: the engines, with their containers created, renamed and removed by anyone and by environment edits under way
(`Recreate`, one daemon call at a time); the sync loop's listing, recorded one container at a time; the store, with all
its transactions; and the ghost `filed`, the host and name of the row each line was filed under when it was committed.

Results:
- `returned_iff`: what the query returns of a stored row, for every parser and all page limits;
- `step_names`: what every operation does to the names of the rows;
- `timeline_iff`: over every run, every line stays in its timeline and in no other exactly when no upsert renames a row
  that holds lines;
- `edit_moves_timeline`, `rename_moves_timeline`: an environment edit observed by a sync pass, and a rename.
-/
import LogDeck.Docker.Recreate
import LogDeck.LogStore.Attribution
import LogDeck.LogStore.Pagination

namespace LogDeck.Timeline

open LogDeck.LogStore LogDeck.Docker Machine
open Relation (ReflTransGen)

/-! ## What the query returns -/

/-- the row is on one of the pages that following the cursors of the query for (host, name) gives -/
def Returned (db : DB) (host name : String) (l : LineRow) : Prop :=
  ∀ (t : Text) (limits : List ℤ), ∃ fuel n pages last,
    follow t (fun _ => db) { host := host, container := name } fuel limits n 0 "" = some (pages, last) ∧
      l ∈ pagesRows pages

/-- the integer columns of `log_lines` hold 64-bit integers -/
def Int64Columns (db : DB) : Prop := ∀ l ∈ db.lines, Decimal.InInt64 l.line.tsNS ∧ Decimal.InInt64 l.rowid

instance (db : DB) : Decidable (Int64Columns db) := by unfold Int64Columns; infer_instance

theorem mem_generations {db : DB} {host name : String} {ref : ℕ} :
    ref ∈ (generations db host name).map (fun g => g.ref) ↔
      name ≠ "" ∧ ∃ c ∈ db.containers, c.id = ref ∧ c.name = name ∧ (host = "" ∨ c.key.host = host) := by
  unfold generations
  split_ifs with h
  · simp [h]
  · simp only [List.map_map, List.mem_map, List.mem_filter, decide_eq_true_eq, Function.comp, h, ne_eq,
      not_false_eq_true, true_and]
    constructor
    · intro ⟨c, ⟨hc, hn, hh⟩, e⟩
      exact ⟨c, hc, e, hn, hh⟩
    · intro ⟨c, hc, e, hn, hh⟩
      exact ⟨c, ⟨hc, hn, hh⟩, e⟩

/-- **What the query returns.** -/
theorem returned_iff {db : DB} (hw : WellFormed db) (h64 : Int64Columns db) {host name : String} {l : LineRow}
    (hl : l ∈ db.lines) :
    Returned db host name l ↔
      name ≠ "" ∧ ∃ c ∈ db.containers, c.id = l.ref ∧ c.name = name ∧ (host = "" ∨ c.key.host = host) := by
  have hsnap : ∀ _ : ℕ, Snapshot db := fun _ => ⟨hw.rowids, h64⟩
  rw [← mem_generations]
  constructor
  · intro h
    obtain ⟨fuel, n, pages, last, hf, hmem⟩ := h plainText []
    obtain ⟨-, hC⟩ := follow_conserves hsnap (q := { host := host, container := name }) ⟨rfl, rfl⟩
      (fun _ => resumeAt_empty) hf
    obtain ⟨i, -, hseen⟩ := hC.genuine l hmem
    exact hseen.selected.1
  · intro hmem t limits
    -- every row lies below the end of the 64-bit range
    have hstart : StartsBelow (fun _ => db) ⟨2 ^ 63, 0⟩ 1 none := fun r hr => Or.inl (h64 r hr).1.2
    have hgrow : NoGrowth (fun _ => db) ⟨2 ^ 63, 0⟩ 0 := fun _ _ r hr _ => hr
    have hq : Unfiltered t { host := host, container := name } := ⟨rfl, rfl⟩
    obtain ⟨bound, hbound⟩ : ∃ bound, todo (fun _ => db) ⟨2 ^ 63, 0⟩ 0 0 none < bound := ⟨_, Nat.lt_succ_self _⟩
    have hsome : (follow t (fun _ => db) { host := host, container := name } bound limits bound 0 "").isSome = true :=
      follow_isSome hsnap hq hgrow (fun _ => resumeAt_empty) hstart hbound hbound
    obtain ⟨res, hres⟩ := Option.isSome_iff_exists.1 hsome
    obtain ⟨-, hC⟩ := follow_conserves hsnap hq (fun _ => resumeAt_empty) hres
    refine ⟨_, _, res.1, res.2, hres, hC.complete l ⟨?_, ?_, ?_, ?_⟩ (by simp)⟩
    · exact fun _ _ _ => hl
    · exact fun _ _ _ => hmem
    · simp
    · simp

/-! ## What an operation does to the names -/

/-- the name that the upsert of an operation brings to a generation; blank when it upserts nothing or fails -/
def incomingName (s : Store) (key : GenKey) : Op → String
  | .commit batch nowMS =>
    match s.tryCommit batch nowMS with
    | .error _ => ""
    | .ok _ =>
      -- only a key that is not cached is upserted, once, with the name of its first message
      if s.dropInvalidated.refs key = none then ((batch.find? fun m => m.key = key).map fun m => m.name).getD "" else ""
  | .upsertMeta k info _ => if k = key then containerName info else ""
  | _ => ""

@[simp] theorem keepNonEmpty_blank (stored : String) : keepNonEmpty stored "" = stored := rfl

/-- the row `c` goes on as a row of `db` with the given name -/
def GoesOn (db : DB) (c : ContainerRow) (name : String) : Prop :=
  ∃ c' ∈ db.containers, c'.id = c.id ∧ c'.key = c.key ∧ c'.name = name

/-- an update of other columns -/
theorem goesOn_of_map {db db' : DB} {c : ContainerRow} (hc : c ∈ db.containers)
    (h : db'.containers.map (fun c => (c.id, c.key, c.name)) = db.containers.map fun c => (c.id, c.key, c.name)) :
    GoesOn db' c c.name := by
  have hmem : (c.id, c.key, c.name) ∈ db'.containers.map fun c => (c.id, c.key, c.name) := h ▸ List.mem_map_of_mem hc
  obtain ⟨c', hc', e⟩ := List.mem_map.1 hmem
  simp only [Prod.mk.injEq] at e
  exact ⟨c', hc', e.1, e.2.1, e.2.2⟩

theorem upsertGeneration_names (db : DB) (key : GenKey) (name project : String) (nowMS : ℤ) {c : ContainerRow}
    (hc : c ∈ db.containers) :
    GoesOn (upsertGeneration db key name project nowMS).1 c
      (if c.key = key then keepNonEmpty c.name name else c.name) := by
  unfold upsertGeneration
  cases hf : db.find key with
  | some r =>
    refine ⟨_, mem_updateWhere.2 ⟨c, hc, rfl⟩, ?_⟩
    split_ifs <;> exact ⟨rfl, rfl, rfl⟩
  | none => exact ⟨c, List.mem_append_left _ hc, rfl, rfl, by rw [if_neg (find_none hf c hc)]⟩

theorem upsertMeta_names (db : DB) (key : GenKey) (info : ContainerInfo) (nowMS : ℤ) {c : ContainerRow}
    (hc : c ∈ db.containers) :
    GoesOn (upsertMeta db key info nowMS) c
      (if c.key = key then keepNonEmpty c.name (containerName info) else c.name) := by
  unfold upsertMeta
  cases hf : db.find key with
  | some r =>
    refine ⟨_, mem_updateWhere.2 ⟨c, hc, rfl⟩, ?_⟩
    split_ifs <;> exact ⟨rfl, rfl, rfl⟩
  | none => exact ⟨c, List.mem_append_left _ hc, rfl, rfl, by rw [if_neg (find_none hf c hc)]⟩

/-- the name a row has after the messages of a batch -/
def nameAfter (refs fresh : Refs) (batch : List IngestMsg) (c : ContainerRow) : String :=
  if refs c.key = none ∧ fresh c.key = none then
    keepNonEmpty c.name (((batch.find? fun m => m.key = c.key).map fun m => m.name).getD "")
  else c.name

theorem ingestMsg_names {refs : Refs} {nowMS : ℤ} {db db' : DB} {fresh fresh' : Refs} {m : IngestMsg}
    (h : ingestMsg refs nowMS (db, fresh) m = .ok (db', fresh')) {c : ContainerRow} (hc : c ∈ db.containers) :
    GoesOn db' c (nameAfter refs fresh [m] c) ∧
      ∀ k, refs k = none ∧ fresh' k = none ↔ (refs k = none ∧ fresh k = none) ∧ m.key ≠ k := by
  -- the message after its row is resolved changes no name
  have hrest : ∀ {db₁ : DB} {fresh₁ : Refs} {ref : ℕ} {name : String},
      resolve refs nowMS db fresh m = (db₁, fresh₁, ref) → GoesOn db₁ c name → GoesOn db' c name ∧ fresh' = fresh₁ := by
    intro db₁ fresh₁ ref name hr hgo
    obtain ⟨c₁, hc₁, e1, e2, e3⟩ := hgo
    have hmap : ∀ db₂ : DB,
        db₂.containers.map (fun c => (c.id, c.key, c.name)) = db₁.containers.map (fun c => (c.id, c.key, c.name)) →
        GoesOn db₂ c name := by
      intro db₂ hm
      obtain ⟨c₂, hc₂, e1', e2', e3'⟩ := goesOn_of_map hc₁ hm
      exact ⟨c₂, hc₂, e1'.trans e1, e2'.trans e2, e3'.trans e3⟩
    simp only [ingestMsg, hr] at h
    cases hb : m.body with
    | done reason =>
      simp only [hb, Except.ok.injEq, Prod.mk.injEq] at h
      obtain ⟨rfl, rfl⟩ := h
      refine ⟨?_, rfl⟩
      split_ifs
      · exact hmap _ (map_updateWhere _ fun c _ => rfl)
      · exact ⟨c₁, hc₁, e1, e2, e3⟩
    | line l =>
      simp only [hb] at h
      split_ifs at h
      · cases h
        exact ⟨⟨c₁, hc₁, e1, e2, e3⟩, rfl⟩
      · cases h
        exact ⟨hmap _ (storeLine_map _ (fun _ _ _ => rfl) _ _ _ _ _), rfl⟩
  rcases resolve_cases refs nowMS db fresh m with ⟨ref, href, hr⟩ | ⟨h1, h2, hr⟩
  · have hkey : ¬ (refs m.key = none ∧ fresh m.key = none) := by
      rcases href with e | ⟨-, e⟩
      · simp [e]
      · simp [e]
    obtain ⟨hgo, rfl⟩ := hrest hr ⟨c, hc, rfl, rfl, rfl⟩
    have hname : nameAfter refs fresh' [m] c = c.name := by
      unfold nameAfter
      split_ifs with hun
      · have hne : m.key ≠ c.key := fun e => hkey (e ▸ hun)
        simp [hne]
      · rfl
    refine ⟨hname ▸ hgo, fun k => ⟨fun hk => ⟨hk, fun e => hkey (e ▸ hk)⟩, fun hk => hk.1⟩⟩
  · obtain ⟨hgo, rfl⟩ := hrest hr (upsertGeneration_names db m.key m.name m.project nowMS hc)
    have hname : nameAfter refs fresh [m] c = if c.key = m.key then keepNonEmpty c.name m.name else c.name := by
      unfold nameAfter
      by_cases e : c.key = m.key
      · simp [e, h1, h2]
      · have hne : m.key ≠ c.key := fun e' => e e'.symm
        simp [e, hne]
    refine ⟨hname ▸ hgo, fun k => ?_⟩
    rw [Function.update_apply]
    by_cases e : k = m.key
    · simp [e]
    · have hne : m.key ≠ k := fun e' => e e'.symm
      simp [e, hne]

theorem batch_names {refs : Refs} {nowMS : ℤ} {batch : List IngestMsg} {p q : DB × Refs}
    (h : batch.foldlM (ingestMsg refs nowMS) p = .ok q) {c : ContainerRow} (hc : c ∈ p.1.containers) :
    GoesOn q.1 c (nameAfter refs p.2 batch c) := by
  induction batch generalizing p c with
  | nil =>
    cases h
    refine ⟨c, hc, rfl, rfl, ?_⟩
    simp [nameAfter]
  | cons m batch ih =>
    rw [List.foldlM_cons] at h
    cases hm : ingestMsg refs nowMS p m with
    | error e =>
      rw [hm] at h
      cases h
    | ok p' =>
      rw [hm] at h
      obtain ⟨⟨c₁, hc₁, e1, e2, e3⟩, hfresh⟩ := ingestMsg_names hm hc
      obtain ⟨c₂, hc₂, e1', e2', e3'⟩ := ih h hc₁
      refine ⟨c₂, hc₂, e1'.trans e1, e2'.trans e2, e3'.trans ?_⟩
      simp only [nameAfter, hfresh, e2, e3, List.find?_cons, List.find?_nil]
      by_cases hun : refs c.key = none ∧ p.2 c.key = none
      · by_cases hk : m.key = c.key
        · simp [hun, hk]
        · simp [hun, hk]
      · simp [hun]

/-- a row that survives a deletion is unchanged -/
theorem goesOn_of_subset {db db' : DB} (hw : WellFormed db) (hsub : db'.containers ⊆ db.containers) {c : ContainerRow}
    (hc : c ∈ db.containers) (href : db'.HasRef c.id) : GoesOn db' c c.name := by
  obtain ⟨c', hc', e⟩ := href
  obtain rfl := hw.row_eq_of_id (hsub hc') hc e
  exact ⟨c', hc', rfl, rfl, rfl⟩

theorem commit_names {s : Store} (batch : List IngestMsg) (nowMS : ℤ) {c : ContainerRow} (hc : c ∈ s.db.containers) :
    GoesOn (s.commitStep batch nowMS).db c (keepNonEmpty c.name (incomingName s c.key (.commit batch nowMS))) := by
  simp only [Store.commitStep, incomingName, Store.tryCommit]
  cases hcommit : commit s.dropInvalidated.db s.dropInvalidated.refs batch nowMS with
  | error e => exact ⟨c, hc, rfl, rfl, rfl⟩
  | ok q =>
    rw [commit_eq_ingest] at hcommit
    cases hf : batch.foldlM (ingestMsg s.dropInvalidated.refs nowMS) (s.dropInvalidated.db, fun _ => none) with
    | error e =>
      rw [hf] at hcommit
      cases hcommit
    | ok q' =>
      rw [hf] at hcommit
      cases hcommit
      have hname : nameAfter s.dropInvalidated.refs (fun _ => none) batch c = keepNonEmpty c.name
          (if s.dropInvalidated.refs c.key = none then
            ((batch.find? fun m => m.key = c.key).map fun m => m.name).getD "" else "") := by
        unfold nameAfter
        split_ifs with h1 h2 h2
        · rfl
        · exact absurd h1.1 h2
        · exact absurd ⟨h2, rfl⟩ h1
        · rfl
      exact hname ▸ batch_names hf hc

/-- **What an operation does to the names.** A row that is still there has the name it had, or the non-blank name that
the operation's upsert brought. -/
theorem step_names {s : Store} (hw : WellFormed s.db) (o : Op) {c c' : ContainerRow} (hc : c ∈ s.db.containers)
    (hc' : c' ∈ (step s o).db.containers) (hid : c'.id = c.id) :
    c'.key = c.key ∧ c'.name = keepNonEmpty c.name (incomingName s c.key o) := by
  have href : (step s o).db.HasRef c.id := ⟨c', hc', hid⟩
  have hgo : GoesOn (step s o).db c (keepNonEmpty c.name (incomingName s c.key o)) := by
    cases o with
    | commit batch nowMS => exact commit_names batch nowMS hc
    | commitFails => exact ⟨c, hc, rfl, rfl, rfl⟩
    | deleteContainer host name committed =>
      apply goesOn_of_subset hw _ hc href
      simp only [step, Store.deleteContainerStep, deleteContainer]
      split
      · exact List.Subset.refl _
      · rename_i db keys hd
        split at hd
        · cases hd
        · cases hd
          cases committed
          · exact List.Subset.refl _
          · exact List.filter_subset_self _
    | evictOldest refs excess => exact goesOn_of_map hc (evictRows_map _ (fun _ _ => rfl) _ _)
    | pruneEmptyGenerations => exact goesOn_of_subset hw (List.filter_subset_self _) hc href
    | upsertMeta key info nowMS =>
      have h := upsertMeta_names s.db key info nowMS hc
      have hname : (if c.key = key then keepNonEmpty c.name (containerName info) else c.name) =
          keepNonEmpty c.name (incomingName s c.key (.upsertMeta key info nowMS)) := by
        by_cases e : c.key = key
        · simp [incomingName, e]
        · have hne : key ≠ c.key := fun e' => e e'.symm
          simp [incomingName, e, hne]
      exact hname ▸ h
    | stampRemoved key nowMS => exact goesOn_of_map hc (map_updateWhere _ fun c _ => rfl)
  obtain ⟨c₁, hc₁, e1, e2, e3⟩ := hgo
  obtain rfl := (step_wellFormed hw o).row_eq_of_id hc₁ hc' (e1.trans hid.symm)
  exact ⟨e2, e3⟩

/-- an operation that brings a name keeps the lines -/
theorem step_lines {s : Store} {key : GenKey} {o : Op} (h : incomingName s key o ≠ "") :
    s.db.lines ⊆ (step s o).db.lines := by
  cases o with
  | commit batch nowMS =>
    simp only [step, Store.commitStep, Store.tryCommit]
    cases hc : commit s.dropInvalidated.db s.dropInvalidated.refs batch nowMS with
    | error e => exact List.Subset.refl _
    | ok q => exact growChain_lines (commit_grows hc)
  | upsertMeta key info nowMS => exact growChain_lines (.single (upsertMeta_grow _ _ _ _))
  | _ => exact absurd rfl h

/-! ## The world -/

/-- the engines, the edits under way on them, the sync loop's listing, and the store -/
structure World where
  engines : String → Daemon
  edits : GenKey → Option Recreate
  /-- the listed containers the sync pass has not recorded yet -/
  listing : List ContainerInfo
  store : Store
  /-- ghost: by rowid, the host and name of the row a line was filed under when its transaction committed -/
  filed : ℕ → String × String

inductive Act where
  /-- someone creates, starts, stops, renames or removes a container -/
  | call (host fresh : String) (c : Call)
  /-- an environment edit inspects its container -/
  | beginEdit (key : GenKey) (envs : List String)
  /-- the next daemon call of an edit; the engine serves it or fails it -/
  | edit (key : GenKey) (newID : String) (up : Bool)
  /-- a sync pass lists the containers of some hosts -/
  | list (hosts : List String)
  /-- the sync pass records the next listed container -/
  | record (nowMS : ℤ)
  /-- any transaction of the store -/
  | store (o : Op)

def infoOf (host : String) (c : Container) : ContainerInfo := ⟨c.id, ["/" ++ c.name], "", 0, [], host⟩

/-- the host and name of a row -/
def timelineOf (db : DB) (ref : ℕ) : String × String :=
  match db.containers.find? fun c => c.id = ref with
  | some c => (c.key.host, c.name)
  | none => ("", "")

/-- the ghost: a line inserted by a transaction is filed under what its row is when the transaction ends -/
def file (old new : DB) (filed : ℕ → String × String) (rowid : ℕ) : String × String :=
  if rowid ∈ old.lines.map fun l => l.rowid then filed rowid
  else
    match new.lines.find? fun l => l.rowid = rowid with
    | some l => timelineOf new l.ref
    | none => filed rowid

namespace World

def init : World := ⟨fun _ => [], fun _ => none, [], .init, fun _ => ("", "")⟩

/-- a transaction of the store; one that would store what an integer column cannot hold does not exist -/
def transact (w : World) (o : Op) : World :=
  if Int64Columns (LogStore.step w.store o).db then
    { w with store := LogStore.step w.store o, filed := file w.store.db (LogStore.step w.store o).db w.filed }
  else w

/-- the transaction of the store that an action performs -/
def opOf (w : World) : Act → Option Op
  | .store o => some o
  | .record nowMS => w.listing.head?.map fun info => .upsertMeta ⟨info.host, info.id⟩ info nowMS
  | _ => none

/-- what an action does outside the store -/
def around (exec : Engine) (w : World) : Act → World
  | .call host fresh c =>
    -- a refused call changes nothing
    { w with engines := Function.update w.engines host ((exec (w.engines host) fresh c).getD (w.engines host)) }
  | .beginEdit key envs =>
    -- one edit of a container at a time
    match w.edits key, (w.engines key.host).find key.id with
    | none, some c => { w with edits := Function.update w.edits key (some { inspect := c, envs := envs }) }
    | _, _ => w
  | .edit key newID up =>
    match w.edits key with
    | none => w
    | some r =>
      let next := r.step exec (w.engines key.host) newID up
      { w with engines := Function.update w.engines key.host next.2
               edits := Function.update w.edits key (if next.1.call = none then none else some next.1) }
  | .list hosts => { w with listing := hosts.flatMap fun host => (w.engines host).map (infoOf host) }
  | .record _ => { w with listing := w.listing.tail }
  | .store _ => w

def step (exec : Engine) (w : World) (a : Act) : World :=
  match w.opOf a with
  | some o => (w.around exec a).transact o
  | none => w.around exec a

end World

/-! ## Lines stay in their timeline -/

/-- every line is returned for the host and name it was filed under, and for no other name of the host -/
def Stays (w : World) : Prop :=
  ∀ l ∈ w.store.db.lines, ∀ host name, w.filed l.rowid = (host, name) → name ≠ "" →
    Returned w.store.db host name l ∧ ∀ name', Returned w.store.db host name' l → name' = name

/-- no upsert of the operation brings another name to a row with a line that is filed under a name -/
def KeepsNames (s : Store) (filed : ℕ → String × String) (o : Op) : Prop :=
  ∀ l ∈ s.db.lines, (filed l.rowid).2 ≠ "" → ∀ c ∈ s.db.containers, c.id = l.ref →
    incomingName s c.key o = "" ∨ incomingName s c.key o = c.name

/-- the condition on one action: its transaction, if it is one, keeps the names -/
def Keeps (w : World) (a : Act) : Prop :=
  ∀ o, w.opOf a = some o → Int64Columns (step w.store o).db → KeepsNames w.store w.filed o

structure Inv (w : World) : Prop extends WellFormed w.store.db where
  int64 : Int64Columns w.store.db
  named : ∀ l ∈ w.store.db.lines, (w.filed l.rowid).2 ≠ "" →
    ∃ c ∈ w.store.db.containers, c.id = l.ref ∧ (c.key.host, c.name) = w.filed l.rowid

theorem inv_init : Inv .init :=
  { wellFormed_empty with int64 := by simp [Int64Columns, World.init, Store.init, DB.empty],
                          named := by simp [World.init, Store.init, DB.empty] }

theorem Inv.stays {w : World} (h : Inv w) : Stays w := by
  intro l hl host name hf hne
  obtain ⟨c, hc, hid, e⟩ := h.named l hl (by rw [hf]; exact hne)
  rw [hf, Prod.mk.injEq] at e
  refine ⟨(returned_iff h.toWellFormed h.int64 hl).2 ⟨hne, c, hc, hid, e.2, Or.inr e.1⟩, fun name' hr => ?_⟩
  obtain ⟨-, c', hc', hid', hn, -⟩ := (returned_iff h.toWellFormed h.int64 hl).1 hr
  obtain rfl := h.row_eq_of_id hc' hc (hid'.trans hid.symm)
  rw [← hn, e.2]

theorem around_store (exec : Engine) (w : World) (a : Act) :
    (w.around exec a).store = w.store ∧ (w.around exec a).filed = w.filed := by
  cases a with
  | beginEdit key envs =>
    simp only [World.around]
    split <;> exact ⟨rfl, rfl⟩
  | edit key newID up =>
    simp only [World.around]
    split <;> exact ⟨rfl, rfl⟩
  | _ => exact ⟨rfl, rfl⟩

/-- a line that was stored before a transaction is the same line after it -/
theorem line_before {s : Store} (hw : WellFormed s.db) (o : Op) {l : LineRow} (hl : l ∈ (step s o).db.lines)
    (h : l.rowid ∈ s.db.lines.map fun l => l.rowid) : l ∈ s.db.lines := by
  obtain ⟨l₀, hl₀, e⟩ := List.mem_map.1 h
  rcases step_db s o hw.nodup with hg | hs
  · obtain rfl := (step_wellFormed hw o).line_eq_of_rowid (growChain_lines hg hl₀) hl e
    exact hl₀
  · exact hs.lines_subset hl

theorem transact_inv {w : World} (h : Inv w) {o : Op}
    (hk : Int64Columns (step w.store o).db → KeepsNames w.store w.filed o) : Inv (w.transact o) := by
  unfold World.transact
  split_ifs with h64
  · have hw := step_wellFormed h.toWellFormed o
    refine { hw with int64 := h64, named := fun l hl hne => ?_ }
    obtain ⟨c', hc', hid'⟩ := hw.fk l hl
    by_cases hold : l.rowid ∈ w.store.db.lines.map fun l => l.rowid
    · -- an old line: its row goes on under its name
      simp only [file, if_pos hold] at hne ⊢
      have hl₀ := line_before h.toWellFormed o hl hold
      obtain ⟨c, hc, hid, e⟩ := h.named l hl₀ hne
      obtain ⟨hkey, hname⟩ := step_names h.toWellFormed o hc hc' (hid'.trans hid.symm)
      refine ⟨c', hc', hid', ?_⟩
      rw [hkey, hname, ← e]
      rcases hk h64 l hl₀ hne c hc hid with hin | hin
      · rw [hin, keepNonEmpty_blank]
      · simp [hin, keepNonEmpty]
    · -- a new line: it is filed under what its row is now
      have hfind : ((step w.store o).db.lines.find? fun r => decide (r.rowid = l.rowid)) = some l := by
        cases hf : (step w.store o).db.lines.find? fun r => decide (r.rowid = l.rowid) with
        | none => simpa using List.find?_eq_none.1 hf l hl
        | some r =>
          have hr : r.rowid = l.rowid := by simpa using List.find?_some hf
          rw [hw.line_eq_of_rowid (List.mem_of_find?_eq_some hf) hl hr]
      have hrow : ((step w.store o).db.containers.find? fun c => decide (c.id = l.ref)) = some c' := by
        cases hf : (step w.store o).db.containers.find? fun c => decide (c.id = l.ref) with
        | none => simpa [hid'] using List.find?_eq_none.1 hf c' hc'
        | some c =>
          have hc : c.id = l.ref := by simpa using List.find?_some hf
          rw [hw.row_eq_of_id (List.mem_of_find?_eq_some hf) hc' (hc.trans hid'.symm)]
      refine ⟨c', hc', hid', ?_⟩
      simp only [file, if_neg hold, hfind, timelineOf, hrow]
  · exact h

theorem step_inv (exec : Engine) (w : World) (a : Act) (h : Inv w) (hk : Keeps w a) : Inv (w.step exec a) := by
  obtain ⟨hs, hf⟩ := around_store exec w a
  have haround : Inv (w.around exec a) :=
    { hs ▸ h.toWellFormed with int64 := hs ▸ h.int64, named := by rw [hs, hf]; exact h.named }
  unfold World.step
  cases ho : w.opOf a with
  | none => exact haround
  | some o =>
    apply transact_inv haround
    rw [hs, hf]
    exact hk o ho

/-- **A rename is visible at once.** The line that was filed under the old name of the row is no longer returned for
it. -/
theorem bad_step (exec : Engine) {w : World} {a : Act} (h : Inv w) (hk : ¬ Keeps w a) : ¬ Stays (w.step exec a) := by
  simp only [Keeps, KeepsNames, not_forall, not_or] at hk
  obtain ⟨o, ho, h64, l, hl, hne, c, hc, hid, hin, hother⟩ := hk
  obtain ⟨hs, hf⟩ := around_store exec w a
  intro hstays
  have hstep : (w.step exec a).store = step w.store o ∧
      (w.step exec a).filed = file w.store.db (step w.store o).db w.filed := by
    simp only [World.step, ho, World.transact, hs, hf, if_pos h64, and_self]
  have hw := step_wellFormed h.toWellFormed o
  have hl' : l ∈ (step w.store o).db.lines := step_lines hin hl
  have hfiled : file w.store.db (step w.store o).db w.filed l.rowid = w.filed l.rowid := by
    simp only [file, if_pos (List.mem_map_of_mem (f := fun l : LineRow => l.rowid) hl)]
  obtain ⟨c₀, hc₀, hid₀, e⟩ := h.named l hl hne
  obtain rfl := h.row_eq_of_id hc hc₀ (hid.trans hid₀.symm)
  obtain ⟨hret, -⟩ := hstays l (by rw [hstep.1]; exact hl') c.key.host c.name (by rw [hstep.2, hfiled, e])
    (by rw [← e] at hne; exact hne)
  rw [hstep.1, returned_iff hw h64 hl'] at hret
  obtain ⟨-, c', hc', hid', hname, -⟩ := hret
  obtain ⟨-, hname'⟩ := step_names h.toWellFormed o hc hc' (hid'.trans hid.symm)
  rw [keepNonEmpty, if_pos hin, hname] at hname'
  exact hother hname'.symm

/-- **Timelines, exactly.** Whatever the engines make of a call, over every run of transactions of the store, sync
passes, container renames and environment edits: in every state every stored line is returned by the query for the host
and name it was filed under, and by the query for no other name of that host, if and only if no upsert of the run
brings a different non-blank name to a row that holds such a line. -/
theorem timeline_iff (exec : Engine) (acts : List Act) :
    Always (World.step exec) Stays .init acts ↔ Each (World.step exec) Keeps .init acts :=
  always_iff_each (fun _ h => h.stays) (step_inv exec) (fun _ _ h hk => bad_step exec h hk) inv_init

/-! ## Witnesses -/

theorem run_wellFormed (exec : Engine) {w : World} (h : WellFormed w.store.db) (acts : List Act) :
    WellFormed (run (World.step exec) w acts).store.db := by
  induction acts generalizing w with
  | nil => exact h
  | cons a acts ih =>
    apply ih
    obtain ⟨hs, -⟩ := around_store exec w a
    unfold World.step
    cases w.opOf a with
    | none => exact hs ▸ h
    | some o =>
      simp only [World.transact]
      split_ifs
      · exact step_wellFormed (hs ▸ h) o
      · exact hs ▸ h

/-- a stored line whose row has another name now than the one it was filed under -/
theorem not_stays_of_row {w : World} (hw : WellFormed w.store.db) (h64 : Int64Columns w.store.db) {l : LineRow}
    (hl : l ∈ w.store.db.lines) {host name : String} (hf : w.filed l.rowid = (host, name)) (hne : name ≠ "")
    (hrow : ∀ c ∈ w.store.db.containers, c.id = l.ref → c.name ≠ name) : ¬ Stays w := by
  intro h
  obtain ⟨hret, -⟩ := h l hl host name hf hne
  obtain ⟨-, c, hc, hid, hname, -⟩ := (returned_iff hw h64 hl).1 hret
  exact hrow c hc hid hname

def web : GenKey := ⟨"local", "aaa"⟩

def webLine : IngestMsg := ⟨web, "web", "", .line ⟨5, .stdout, 0, [104, 105]⟩⟩

/-- web is created and started, listed, and logs a line -/
def webRun : List Act :=
  [.call "local" "aaa" (.create "web" [] {}), .call "local" "" (.start "aaa"), .list ["local"], .record 1,
    .store (.commit [webLine] 2)]

/-- a run on an engine that serves what it can -/
def ran (acts : List Act) : World := run (World.step plainEngine) .init acts

theorem ran_wellFormed (acts : List Act) : WellFormed (ran acts).store.db :=
  run_wellFormed plainEngine wellFormed_empty acts

/-- the environment of web is edited; a sync pass runs while the original is renamed aside, and one after the edit -/
def editRun : List Act :=
  webRun ++ [.beginEdit web ["A=1"], .edit web "" true, .edit web "" true, .list ["local"], .record 3,
    .edit web "bbb" true, .edit web "" true, .edit web "" true, .list ["local"], .record 4,
    .store (.stampRemoved web 4)]

/-- web is renamed, and a sync pass runs -/
def renameRun : List Act := webRun ++ [.call "local" "" (.rename "aaa" "api"), .list ["local"], .record 3]

/-- **An edit moves the timeline.** The edit has succeeded and its replacement is the only container, under the name web;
the line from before the edit is no longer in the timeline of web: its row has kept the temporary name. -/
theorem edit_moves_timeline :
    let w := ran editRun
    w.edits web = none ∧ (w.engines "local").map (fun c => (c.id, c.name, c.running)) = [("bbb", "web", true)] ∧
      w.store.db.containers.map (fun c => (c.key.id, c.name)) = [("aaa", "web-logdeck-old-aaa"), ("bbb", "web")] ∧
      w.store.db.lines.map (fun l => (l.origin, w.filed l.rowid)) = [(web, ("local", "web"))] ∧
      ¬ Always (World.step plainEngine) Stays .init editRun := by
  refine ⟨by decide, by decide, by decide, by decide, ?_⟩
  intro h
  have hl : ⟨1, 1, ⟨5, .stdout, 0, [104, 105]⟩, web⟩ ∈ (ran editRun).store.db.lines := by decide
  have hf : (ran editRun).filed 1 = ("local", "web") := by decide
  exact not_stays_of_row (ran_wellFormed editRun) (by decide) hl hf (by decide) (by decide) h.last

/-- **A rename moves the timeline.** The line from before the rename is in the timeline of the new name. -/
theorem rename_moves_timeline :
    ¬ Always (World.step plainEngine) Stays .init renameRun ∧
      ∃ l ∈ (ran renameRun).store.db.lines,
        (ran renameRun).filed l.rowid = ("local", "web") ∧
        Returned (ran renameRun).store.db "local" "api" l := by
  have hw : WellFormed (ran renameRun).store.db := ran_wellFormed renameRun
  have h64 : Int64Columns (ran renameRun).store.db := by decide
  have hl : ⟨1, 1, ⟨5, .stdout, 0, [104, 105]⟩, web⟩ ∈ (ran renameRun).store.db.lines := by decide
  have hf : (ran renameRun).filed 1 = ("local", "web") := by decide
  constructor
  · intro h
    exact not_stays_of_row hw h64 hl hf (by decide) (by decide) h.last
  · exact ⟨_, hl, hf, (returned_iff hw h64 hl).2 (by decide)⟩

end LogDeck.Timeline
