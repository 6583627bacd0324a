/-
The log store as a transition system. Every operation is one transaction (or one failed transaction) of one of its
actors: the writer, a purge, the retention sweep, the sync loop. Actors interleave arbitrarily, SQLite runs their
transactions one after another.

What a step can do to the database is said once. It either grows (`Grow`: a metadata update, a new generation row, a
stored line; a commit is a chain of these) or shrinks (`Shrink`: an eviction, a purge, a prune). `step_db` reduces every
invariant of the two tables to these six writes.
-/
import LogDeck.Lib.Machine
import LogDeck.LogStore.Ledger

namespace LogDeck.LogStore

open Relation (ReflTransGen)

inductive Op where
  /-- the writer commits a batch -/
  | commit (batch : List IngestMsg) (nowMS : ℤ)
  /-- the writer's transaction fails for a reason of the environment and rolls back -/
  | commitFails
  /-- the purge of a logical container; `committed = false` when its COMMIT fails -/
  | deleteContainer (host name : String) (committed : Bool)
  /-- an eviction transaction of the sweep -/
  | evictOldest (refs : List ℕ) (excess : ℤ)
  | pruneEmptyGenerations
  | upsertMeta (key : GenKey) (info : ContainerInfo) (nowMS : ℤ)
  /-- one UPDATE of markRemoved -/
  | stampRemoved (key : GenKey) (nowMS : ℤ)
deriving DecidableEq, Repr

def step (s : Store) : Op → Store
  | .commit batch nowMS => s.commitStep batch nowMS
  | .commitFails => s.dropInvalidated
  | .deleteContainer host name committed => s.deleteContainerStep host name committed
  | .evictOldest refs excess => { s with db := (evictOldest s.db refs excess).1 }
  | .pruneEmptyGenerations => { s with db := pruneEmptyGenerations s.db }
  | .upsertMeta key info nowMS => { s with db := upsertMeta s.db key info nowMS }
  | .stampRemoved key nowMS => { s with db := stampRemoved s.db key nowMS }

/-! ## The six writes -/

/-- the columns that the accounts of a row depend on -/
def ContainerRow.account (c : ContainerRow) : ℕ × GenKey × ℤ × ℤ × ℤ :=
  (c.id, c.key, c.storedBytes, c.stdoutWM, c.stderrWM)

inductive Grow : DB → DB → Prop where
  /-- an update of other columns -/
  | touch (db : DB) (p : ContainerRow → Prop) [DecidablePred p] (f : ContainerRow → ContainerRow)
      (hf : ∀ c, (f c).account = c.account) : Grow db (db.updateWhere p f)
  /-- a new generation row -/
  | insert (db : DB) (c : ContainerRow) (hid : c.id = nextRowid (db.containers.map fun c => c.id))
      (hkey : ∀ c' ∈ db.containers, c'.key ≠ c.key) (hbytes : c.storedBytes = 0) (hwm : ∀ st, c.wm st = 0) :
      Grow db { db with containers := db.containers ++ [c] }
  /-- a line that is not stored yet, under a row that exists -/
  | store (db : DB) (ref : ℕ) (l : Line) (origin : GenKey) (nowMS : ℤ) (hnew : ¬ db.HasLine ref l)
      (href : db.HasRef ref) : Grow db (storeLine db ref l origin nowMS)

inductive Shrink : DB → DB → Prop where
  /-- some stored lines go, and their bytes with them -/
  | evict (db : DB) (vs : List LineRow) (hsub : vs ⊆ db.lines) (hnd : vs.Nodup) : Shrink db (db.evictRows vs)
  /-- rows go, and their lines with them -/
  | purge (db : DB) (refs : List ℕ) : Shrink db (db.deleteRefs refs)
  /-- rows without lines go -/
  | prune (db : DB) : Shrink db (pruneEmptyGenerations db)

theorem upsertGeneration_grow (db : DB) (key : GenKey) (name project : String) (nowMS : ℤ) :
    Grow db (upsertGeneration db key name project nowMS).1 := by
  unfold upsertGeneration
  cases hf : db.find key with
  | some c => exact .touch db _ _ fun _ => rfl
  | none => exact .insert db _ rfl (find_none hf) rfl fun st => by cases st <;> rfl

theorem upsertMeta_grow (db : DB) (key : GenKey) (info : ContainerInfo) (nowMS : ℤ) :
    Grow db (upsertMeta db key info nowMS) := by
  unfold upsertMeta
  cases hf : db.find key with
  | some c => exact .touch db _ _ fun _ => rfl
  | none => exact .insert db _ rfl (find_none hf) rfl fun st => by cases st <;> rfl

/-- a successful commit is a chain of growing writes -/
theorem commit_grows {db db' : DB} {refs refs' : Refs} {batch : List IngestMsg} {nowMS : ℤ}
    (h : commit db refs batch nowMS = .ok (db', refs')) : ReflTransGen Grow db db' := by
  obtain ⟨_, hI, -⟩ := commit_induction (I := fun d _ => ReflTransGen Grow db d)
    (fun d _ m _ hd _ _ => hd.tail (upsertGeneration_grow d _ _ _ _))
    (fun d _ ref reason _ hd => hd.tail (.touch d _ _ fun _ => rfl))
    (fun d _ ref l m _ hd _ _ hnew href => hd.tail (.store d ref l m.key nowMS hnew href)) .refl h
  exact hI

theorem scanVictims_sublist (excess freed : ℤ) (ls : List LineRow) : (scanVictims excess freed ls).Sublist ls := by
  induction ls generalizing freed with
  | nil => exact .slnil
  | cons l ls ih =>
    simp only [scanVictims]
    split_ifs
    · exact (List.nil_sublist _).cons_cons l
    · exact (ih _).cons_cons l

theorem mem_oldestFirst {db : DB} {refs : List ℕ} {l : LineRow} :
    l ∈ oldestFirst db refs ↔ l ∈ db.lines ∧ l.ref ∈ refs := by
  simp [oldestFirst]

theorem victims_sublist (db : DB) (refs : List ℕ) (excess : ℤ) :
    (victims db refs excess).Sublist (oldestFirst db refs) :=
  (scanVictims_sublist _ _ _).trans (List.take_sublist _ _)

theorem mem_victims {db : DB} {refs : List ℕ} {excess : ℤ} {l : LineRow} (h : l ∈ victims db refs excess) :
    l ∈ db.lines ∧ l.ref ∈ refs :=
  mem_oldestFirst.1 ((victims_sublist db refs excess).subset h)

theorem victims_nodup {db : DB} (h : db.lines.Nodup) (refs : List ℕ) (excess : ℤ) :
    (victims db refs excess).Nodup :=
  (((List.perm_insertionSort _ _).nodup_iff).2 (h.filter _)).sublist (victims_sublist db refs excess)

/-- **What a step can do to the database.** -/
theorem step_db (s : Store) (o : Op) (h : s.db.lines.Nodup) :
    ReflTransGen Grow s.db (step s o).db ∨ Shrink s.db (step s o).db := by
  cases o with
  | commit batch nowMS =>
    left
    simp only [step, Store.commitStep, Store.tryCommit]
    cases hc : commit s.dropInvalidated.db s.dropInvalidated.refs batch nowMS with
    | ok q => exact commit_grows hc
    | error e => exact .refl
  | commitFails => exact Or.inl .refl
  | deleteContainer host name committed =>
    simp only [step, Store.deleteContainerStep, deleteContainer]
    split
    · exact Or.inl .refl
    · rename_i db keys hd
      split at hd
      · cases hd
      · cases hd
        cases committed
        · exact Or.inl .refl
        · exact Or.inr (.purge _ _)
  | evictOldest refs excess =>
    exact Or.inr (.evict _ _ (fun l hl => (mem_victims hl).1) (victims_nodup h refs excess))
  | pruneEmptyGenerations => exact Or.inr (.prune _)
  | upsertMeta key info nowMS => exact Or.inl (.single (upsertMeta_grow _ _ _ _))
  | stampRemoved key nowMS => exact Or.inl (.single (.touch _ _ _ fun _ => rfl))

end LogDeck.LogStore
