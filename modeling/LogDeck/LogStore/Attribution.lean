/-
Log attribution: a line committed under a generation key is stored under the row of that key.

The writer caches row ids across transactions while purges and prunes delete rows, and SQLite hands the largest id out
again. `Inv` is what keeps the cache honest: a cached id that no purge has invalidated names the row of its key.
- `DeleteContainer` publishes the keys it removes before it commits, and the writer drops them inside its own
  transaction: the invariant survives every interleaving of the two (`deleteContainer_inv`, `dropInvalidated_inv`).
- `pruneEmptyGenerations` deletes rows and publishes nothing. It keeps the invariant only when no row it deletes is
  still cached (`PruneSafe`).

Results:
- `attribution_iff`: over every run, attribution holds throughout exactly when every prune is safe;
- `prune_misattributes`: a run with an unsafe prune after which a line of one container is stored under another's row,
  and in which, before the id is handed out again, the writer's commit fails.
-/
import LogDeck.LogStore.Accounting

namespace LogDeck.Attribution

open LogDeck.LogStore Machine

/-- row `id` belongs to the generation `key` -/
def HasRow (db : DB) (id : ℕ) (key : GenKey) : Prop := ∃ c ∈ db.containers, c.id = id ∧ c.key = key

instance (db : DB) (id : ℕ) (key : GenKey) : Decidable (HasRow db id key) := by unfold HasRow; infer_instance

/-- every line is stored under the row of the key it was committed under, and no commit fails on a stale id -/
def Attributed (s : Store) : Prop :=
  (∀ l ∈ s.db.lines, HasRow s.db l.ref l.origin) ∧ ∀ batch nowMS, s.tryCommit batch nowMS ≠ .error .foreignKey

/-- none of the rows a prune would delete now is one the writer still caches -/
def PruneSafe (s : Store) : Prop :=
  ∀ c ∈ s.db.containers, IsEmptyGeneration s.db c → s.refs c.key = some c.id → c.key ∈ s.invalidated

/-- the condition on one operation: a prune is safe where it runs -/
def Safe (s : Store) : Op → Prop
  | .pruneEmptyGenerations => PruneSafe s
  | _ => True

/-! ## The invariant -/

structure Inv (s : Store) : Prop extends WellFormed s.db where
  cache : ∀ k r, s.refs k = some r → k ∉ s.invalidated → HasRow s.db r k
  filed : ∀ l ∈ s.db.lines, HasRow s.db l.ref l.origin

theorem inv_init : Inv .init :=
  { wellFormed_empty with cache := by simp [Store.init], filed := by simp [Store.init, DB.empty] }

theorem HasRow.hasRef {db : DB} {id : ℕ} {key : GenKey} (h : HasRow db id key) : db.HasRef id := by
  obtain ⟨c, hc, e, -⟩ := h
  exact ⟨c, hc, e⟩

/-- a write that keeps every id and key keeps the rows -/
theorem hasRow_of_map {db db' : DB} {id : ℕ} {key : GenKey} (h : HasRow db id key)
    (e : db'.containers.map (fun c => (c.id, c.key)) = db.containers.map fun c => (c.id, c.key)) :
    HasRow db' id key := by
  obtain ⟨c, hc, rfl, rfl⟩ := h
  have : (c.id, c.key) ∈ db'.containers.map fun c => (c.id, c.key) := e ▸ List.mem_map_of_mem hc
  obtain ⟨c', hc', e'⟩ := List.mem_map.1 this
  simp only [Prod.mk.injEq] at e'
  exact ⟨c', hc', e'.1, e'.2⟩

theorem Grow.hasRow {db db' : DB} (hg : Grow db db') {id : ℕ} {key : GenKey} (h : HasRow db id key) :
    HasRow db' id key := by
  cases hg with
  | touch p f hf =>
    exact hasRow_of_map h (map_account _ (fun c c' e => Prod.ext (account_id e) (account_key e)) hf)
  | insert c _ _ _ _ =>
    obtain ⟨c', hc', e⟩ := h
    exact ⟨c', List.mem_append_left _ hc', e⟩
  | store ref l origin nowMS _ _ => exact hasRow_of_map h (storeLine_map _ (fun _ _ _ => rfl) _ _ _ _ _)

theorem upsertGeneration_hasRow (db : DB) (key : GenKey) (name project : String) (nowMS : ℤ) :
    HasRow (upsertGeneration db key name project nowMS).1 (upsertGeneration db key name project nowMS).2 key := by
  have hg := upsertGeneration_grow db key name project nowMS
  unfold upsertGeneration at hg ⊢
  cases hf : db.find key with
  | some c =>
    simp only [hf] at hg
    obtain ⟨hc, hk⟩ := find_mem hf
    exact Grow.hasRow hg ⟨c, hc, rfl, hk⟩
  | none => exact ⟨_, List.mem_append_right _ (List.mem_singleton_self _), rfl, rfl⟩

/-! ### The writer -/

theorem dropInvalidated_inv {s : Store} (h : Inv s) : Inv s.dropInvalidated :=
  { h with
    cache := fun k r hr _ => by
      simp only [Store.dropInvalidated] at hr
      split_ifs at hr with hk
      exact h.cache k r hr hk }

/-- what holds inside the writer's transaction: cached and discovered ids name the rows of their keys -/
structure TxInv (refs : Refs) (db : DB) (fresh : Refs) : Prop extends WellFormed db where
  cache : ∀ k r, refs k = some r → HasRow db r k
  fresh : ∀ k r, fresh k = some r → HasRow db r k
  filed : ∀ l ∈ db.lines, HasRow db l.ref l.origin

section Tx

variable {refs : Refs} {nowMS : ℤ} {batch : List IngestMsg}

/-- a growing write that adds no line -/
theorem TxInv.grow {db db' : DB} {fr : Refs} (h : TxInv refs db fr) (hg : Grow db db') (hl : db'.lines = db.lines) :
    TxInv refs db' fr :=
  { hg.wellFormed h.toWellFormed with
    cache := fun k r hr => Grow.hasRow hg (h.cache k r hr)
    fresh := fun k r hr => Grow.hasRow hg (h.fresh k r hr)
    filed := fun l hl' => Grow.hasRow hg (h.filed l (hl ▸ hl')) }

theorem upsertGeneration_lines (db : DB) (key : GenKey) (name project : String) (nowMS : ℤ) :
    (upsertGeneration db key name project nowMS).1.lines = db.lines := by
  unfold upsertGeneration
  cases db.find key <;> rfl

theorem tx_upsert (db : DB) (fr : Refs) (m : IngestMsg) (_ : m ∈ batch) (h : TxInv refs db fr)
    (_ : refs m.key = none) (_ : fr m.key = none) :
    TxInv refs (upsertGeneration db m.key m.name m.project nowMS).1
      (Function.update fr m.key (some (upsertGeneration db m.key m.name m.project nowMS).2)) := by
  have h' := h.grow (upsertGeneration_grow db m.key m.name m.project nowMS) (upsertGeneration_lines _ _ _ _ _)
  refine { h' with fresh := fun k r hr => ?_ }
  simp only [Function.update_apply] at hr
  split_ifs at hr with hk
  · cases hr
    rw [hk]
    exact upsertGeneration_hasRow _ _ _ _ _
  · exact h'.fresh k r hr

theorem tx_excluded (db : DB) (fr : Refs) (ref : ℕ) (reason : String) (_ : reason ≠ "") (h : TxInv refs db fr) :
    TxInv refs (setExcluded db ref reason) fr :=
  h.grow (.touch _ _ _ fun _ => rfl) rfl

theorem TxInv.hasRow {db : DB} {fr : Refs} (h : TxInv refs db fr) {key : GenKey} {ref : ℕ}
    (hf : Filed refs fr key ref) : HasRow db ref key := by
  rcases hf with hf | ⟨-, hf⟩
  · exact h.cache key ref hf
  · exact h.fresh key ref hf

theorem tx_store (db : DB) (fr : Refs) (ref : ℕ) (l : Line) (m : IngestMsg) (_ : m ∈ batch) (h : TxInv refs db fr)
    (_ : m.body = .line l) (hf : Filed refs fr m.key ref) (hnew : ¬ db.HasLine ref l) (href : db.HasRef ref) :
    TxInv refs (storeLine db ref l m.key nowMS) fr := by
  have hg : Grow db (storeLine db ref l m.key nowMS) := .store db ref l m.key nowMS hnew href
  refine { hg.wellFormed h.toWellFormed with cache := ?_, fresh := ?_, filed := ?_ }
  · exact fun k r hr => Grow.hasRow hg (h.cache k r hr)
  · exact fun k r hr => Grow.hasRow hg (h.fresh k r hr)
  · intro r hr
    rw [storeLine_lines, List.mem_append, List.mem_singleton] at hr
    rcases hr with hr | rfl
    · exact Grow.hasRow hg (h.filed r hr)
    · exact Grow.hasRow hg (h.hasRow hf)

end Tx

theorem Inv.tx {s : Store} (h : Inv s) : TxInv s.dropInvalidated.refs s.dropInvalidated.db fun _ => none :=
  { h.toWellFormed with
    cache := fun k r hr => (dropInvalidated_inv h).cache k r hr (by simp [Store.dropInvalidated])
    fresh := by simp
    filed := h.filed }

/-- the commit from an invariant state never fails by itself -/
theorem tryCommit_ok {s : Store} (h : Inv s) (batch : List IngestMsg) (nowMS : ℤ) :
    ∃ s', s.tryCommit batch nowMS = .ok s' := by
  obtain ⟨q, hq⟩ : ∃ q, commit s.dropInvalidated.db s.dropInvalidated.refs batch nowMS = .ok q :=
    commit_succeeds tx_upsert tx_excluded tx_store (fun _ _ _ _ hI hf => (hI.hasRow hf).hasRef) h.tx
  exact ⟨{ s.dropInvalidated with db := q.1, refs := q.2 }, by simp [Store.tryCommit, hq]⟩

theorem tryCommit_inv {s s' : Store} (h : Inv s) {batch : List IngestMsg} {nowMS : ℤ}
    (hc : s.tryCommit batch nowMS = .ok s') : Inv s' := by
  cases hq : commit s.dropInvalidated.db s.dropInvalidated.refs batch nowMS with
  | error e => simp [Store.tryCommit, hq] at hc
  | ok q =>
    simp only [Store.tryCommit, hq, Except.ok.injEq] at hc
    subst hc
    obtain ⟨fr, hI, he⟩ := commit_induction tx_upsert tx_excluded tx_store h.tx hq
    refine { hI.toWellFormed with cache := fun k r hr _ => ?_, filed := hI.filed }
    simp only [he, publish] at hr
    cases hk : fr k with
    | some r' =>
      simp only [hk, Option.some_or, Option.some.injEq] at hr
      exact hr ▸ hI.fresh k r' hk
    | none =>
      simp only [hk, Option.none_or] at hr
      exact hI.cache k r hr

/-! ### Purge, eviction, prune -/

theorem deleteContainer_inv {s : Store} (h : Inv s) (host name : String) (committed : Bool) :
    Inv (s.deleteContainerStep host name committed) := by
  have hw := step_wellFormed h.toWellFormed (.deleteContainer host name committed)
  simp only [step, Store.deleteContainerStep, deleteContainer] at hw ⊢
  cases hg : generationsOf s.db host name with
  | nil => exact h
  | cons c₀ cs =>
    simp only [hg] at hw ⊢
    rw [← hg] at hw ⊢
    cases committed with
    | false =>
      exact { h with cache := fun k r hr hk => h.cache k r hr fun hi => hk (List.mem_append_left _ hi) }
    | true =>
      refine { hw with cache := fun k r hr hk => ?_, filed := fun l hl => ?_ }
      · -- a row that goes takes its key to `invalidated`
        obtain ⟨c, hc, e, ek⟩ := h.cache k r hr fun hi => hk (List.mem_append_left _ hi)
        refine ⟨c, List.mem_filter.2 ⟨hc, ?_⟩, e, ek⟩
        simp only [decide_eq_true_eq]
        intro hm
        obtain ⟨c', hc', e'⟩ := List.mem_map.1 hm
        have := h.row_eq_of_id (List.mem_filter.1 hc').1 hc e'
        exact hk (List.mem_append_right _ (List.mem_map.2 ⟨c', hc', by rw [this, ek]⟩))
      · obtain ⟨hl, hr⟩ := List.mem_filter.1 hl
        obtain ⟨c, hc, e, ek⟩ := h.filed l hl
        exact ⟨c, List.mem_filter.2 ⟨hc, by rw [e]; exact hr⟩, e, ek⟩

theorem evictOldest_inv {s : Store} (h : Inv s) (refs : List ℕ) (excess : ℤ) :
    Inv { s with db := (evictOldest s.db refs excess).1 } := by
  have hrow : ∀ {id key}, HasRow s.db id key → HasRow (evictOldest s.db refs excess).1 id key :=
    fun hr => hasRow_of_map hr (evictRows_map _ (fun _ _ => rfl) _ _)
  exact
    { step_wellFormed h.toWellFormed (.evictOldest refs excess) with
      cache := fun k r hr hk => hrow (h.cache k r hr hk)
      filed := fun l hl => hrow (h.filed l (List.mem_filter.1 hl).1) }

theorem prune_inv {s : Store} (h : Inv s) (hs : PruneSafe s) : Inv { s with db := pruneEmptyGenerations s.db } := by
  refine { step_wellFormed h.toWellFormed .pruneEmptyGenerations with cache := fun k r hr hk => ?_,
                                                                        filed := fun l hl => ?_ }
  · obtain ⟨c, hc, rfl, rfl⟩ := h.cache k r hr hk
    refine ⟨c, List.mem_filter.2 ⟨hc, ?_⟩, rfl, rfl⟩
    simp only [decide_eq_true_eq]
    exact fun hE => hk (hs c hc hE hr)
  · obtain ⟨c, hc, e, ek⟩ := h.filed l hl
    refine ⟨c, List.mem_filter.2 ⟨hc, ?_⟩, e, ek⟩
    simp only [decide_eq_true_eq]
    exact fun hE => hE.2 l hl e.symm

/-- a growing write of the sync loop -/
theorem grow_inv {s : Store} (h : Inv s) {db : DB} (hg : Grow s.db db) (hl : db.lines = s.db.lines) :
    Inv { s with db := db } :=
  { hg.wellFormed h.toWellFormed with
    cache := fun k r hr hk => Grow.hasRow hg (h.cache k r hr hk)
    filed := fun l hl' => Grow.hasRow hg (h.filed l (hl ▸ hl')) }

theorem upsertMeta_lines (db : DB) (key : GenKey) (info : ContainerInfo) (nowMS : ℤ) :
    (upsertMeta db key info nowMS).lines = db.lines := by
  unfold upsertMeta
  cases db.find key <;> rfl

theorem step_inv (s : Store) (o : Op) (h : Inv s) (hs : Safe s o) : Inv (step s o) := by
  cases o with
  | commit batch nowMS =>
    obtain ⟨s', hc⟩ := tryCommit_ok h batch nowMS
    simp only [step, Store.commitStep, hc]
    exact tryCommit_inv h hc
  | commitFails => exact dropInvalidated_inv h
  | deleteContainer host name committed => exact deleteContainer_inv h host name committed
  | evictOldest refs excess => exact evictOldest_inv h refs excess
  | pruneEmptyGenerations => exact prune_inv h hs
  | upsertMeta key info nowMS => exact grow_inv h (upsertMeta_grow _ _ _ _) (upsertMeta_lines _ _ _ _)
  | stampRemoved key nowMS => exact grow_inv h (.touch _ _ _ fun _ => rfl) rfl

/-! ## Exactness -/

theorem Inv.attributed {s : Store} (h : Inv s) : Attributed s :=
  ⟨h.filed, fun batch nowMS => by
    obtain ⟨s', hc⟩ := tryCommit_ok h batch nowMS
    rw [hc]
    nofun⟩

/-- after an unsafe prune the next line of the pruned generation fails its batch -/
theorem unsafe_prune_fails {s : Store} (h : Inv s) (hs : ¬ PruneSafe s) :
    ¬ Attributed (step s .pruneEmptyGenerations) := by
  simp only [PruneSafe, not_forall] at hs
  obtain ⟨c, hc, hE, hr, hk⟩ := hs
  rintro ⟨-, hA⟩
  refine hA [⟨c.key, "", "", .line ⟨0, .stdout, 0, []⟩⟩] 0 ?_
  have hnoline : ¬ (pruneEmptyGenerations s.db).HasLine c.id ⟨0, .stdout, 0, []⟩ := by
    rintro ⟨l, hl, e, -⟩
    exact hE.2 l hl e
  have hnoref : ¬ (pruneEmptyGenerations s.db).HasRef c.id := by
    rintro ⟨c', hc', e⟩
    obtain ⟨hc', hE'⟩ := List.mem_filter.1 hc'
    rw [h.row_eq_of_id hc' hc e] at hE'
    simp [hE] at hE'
  have hing : ingestMsg (s.dropInvalidated.refs) 0 (pruneEmptyGenerations s.db, fun _ => none)
      ⟨c.key, "", "", .line ⟨0, .stdout, 0, []⟩⟩ = .error .foreignKey := by
    simp [ingestMsg, resolve, Store.dropInvalidated, hk, hr, hnoline, hnoref]
  have hcommit : commit (pruneEmptyGenerations s.db) s.dropInvalidated.refs
      [⟨c.key, "", "", .line ⟨0, .stdout, 0, []⟩⟩] 0 = .error .foreignKey := by
    rw [commit_eq_ingest, List.foldlM_cons, hing]
    rfl
  show Store.tryCommit { s with db := pruneEmptyGenerations s.db } _ 0 = _
  simp only [Store.tryCommit]
  exact hcommit ▸ rfl

/-- **Attribution, exactly.** Over every run of commits, failed commits, purges, evictions, prunes, metadata upserts and
removal stamps from the empty store: in every state every line is stored under the row of the key it was committed
under and no commit fails on a stale cached id, if and only if no prune of the run deletes a row that the writer still
caches. -/
theorem attribution_iff (ops : List Op) : Always step Attributed .init ops ↔ Each step Safe .init ops := by
  refine always_iff_each (fun s h => h.attributed) step_inv (fun s o h hg => ?_) inv_init
  cases o with
  | pruneEmptyGenerations => exact unsafe_prune_fails h hg
  | _ => exact absurd trivial hg

/-! ## An unsafe prune -/

def web : GenKey := ⟨"local", "aaa"⟩
def other : GenKey := ⟨"local", "zzz"⟩
def webLine (ts : ℤ) : IngestMsg := ⟨web, "web", "", .line ⟨ts, .stdout, 0, [104, 105]⟩⟩
def otherInfo : ContainerInfo := ⟨"zzz", ["/db"], "postgres", 0, [], "local"⟩

/-- web logs a line and is cached under row 1; its host leaves the configuration, its line is evicted, its row pruned -/
def prunedRun : List Op :=
  [.commit [webLine 1] 0, .stampRemoved web 5, .evictOldest [1] 2, .pruneEmptyGenerations]

/-- another container takes row 1, then the host is back and web logs again -/
def misfiledRun : List Op := prunedRun ++ [.upsertMeta other otherInfo 6, .commit [webLine 9] 7]

/-- **A prune that is not published.** After `prunedRun` the commit of web's next line fails on the stale id; after
`misfiledRun` web's line is stored under the row of the other container, and web has no row at all. -/
theorem prune_misattributes :
    ((run step .init prunedRun).tryCommit [webLine 9] 7).toOption.isNone = true ∧
    (let db := (run step .init misfiledRun).db
     db.lines.map (fun l => (l.ref, l.origin)) = [(1, web)] ∧ HasRow db 1 other ∧ ¬ HasRow db 1 web) := by
  decide

end LogDeck.Attribution
