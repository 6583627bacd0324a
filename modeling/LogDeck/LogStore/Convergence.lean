/-
Ingest does not depend on the order, the multiplicity or the batching of the lines.

A store is seen as the set of its (generation key, ts, stream, raw) tuples and, per generation and stream, a watermark.
One message adds its tuple and raises the watermark over the tuples that were not there before (`Effect`). Effects
compose, so a sequence of batches has an effect that depends only on the set of its tuples.

Results:
- `ingestAll_effect`: from a consistent store every sequence of batches commits, and its effect is that of its tuples;
- `ingest_order_insensitive`: two sequences of batches with the same set of tuples leave the same stored tuples, the
  same `stored_bytes` and the same watermarks.
-/
import LogDeck.LogStore.Attribution

namespace LogDeck.Convergence

open LogDeck.LogStore LogDeck.Attribution

/-- (generation key, ts, stream, raw) -/
abbrev Tuple := GenKey × ℤ × Stream × List UInt8

/-- the tuples a database stores -/
def Stored (db : DB) : Set Tuple := {t | ∃ l ∈ db.lines, HasRow db l.ref t.1 ∧ l.line.ident = t.2}

/-- the watermark of a generation's stream; 0 when the generation has no row -/
def wmAt (db : DB) (key : GenKey) (st : Stream) : ℤ := ((db.find key).map fun c => c.wm st).getD 0

/-- the stored bytes of a generation; 0 when it has no row -/
def bytesAt (db : DB) (key : GenKey) : ℤ := ((db.find key).map fun c => c.storedBytes).getD 0

/-- the tuples of the lines in a batch -/
def tuples (batch : List IngestMsg) : Set Tuple := {t | ∃ m ∈ batch, ∃ l, m.body = .line l ∧ (m.key, l.ident) = t}

/-- the timestamps of a generation's stream that are stored in `new` and not in `old` -/
def newStamps (old new : Set Tuple) (key : GenKey) (st : Stream) : Set ℤ :=
  {ts | ∃ raw, (key, ts, st, raw) ∈ new ∧ (key, ts, st, raw) ∉ old}

/-- the tuples T are added, and every watermark is raised over the new ones -/
structure Effect (db db' : DB) (T : Set Tuple) : Prop where
  stored : Stored db' = Stored db ∪ T
  wm : ∀ key st, IsGreatest (insert (wmAt db key st) (newStamps (Stored db) (Stored db') key st)) (wmAt db' key st)

/-! ## Effects compose -/

theorem newStamps_self (S : Set Tuple) (key : GenKey) (st : Stream) : newStamps S S key st = ∅ := by
  ext ts
  simp [newStamps]

theorem Effect.refl (db : DB) : Effect db db ∅ :=
  ⟨(Set.union_empty _).symm, fun key st => by rw [newStamps_self]; simp [IsGreatest]⟩

theorem Effect.trans {db₀ db₁ db₂ : DB} {T₁ T₂ : Set Tuple} (h₁ : Effect db₀ db₁ T₁) (h₂ : Effect db₁ db₂ T₂) :
    Effect db₀ db₂ (T₁ ∪ T₂) := by
  refine ⟨by rw [h₂.stored, h₁.stored, Set.union_assoc], fun key st => ?_⟩
  have hsub₁ : Stored db₀ ⊆ Stored db₁ := h₁.stored ▸ Set.subset_union_left
  have hsub₂ : Stored db₁ ⊆ Stored db₂ := h₂.stored ▸ Set.subset_union_left
  obtain ⟨m₁, u₁⟩ := h₁.wm key st
  obtain ⟨m₂, u₂⟩ := h₂.wm key st
  have hle : wmAt db₁ key st ≤ wmAt db₂ key st := u₂ (Set.mem_insert _ _)
  constructor
  · rcases m₂ with e | ⟨raw, hn, ho⟩
    · rw [e]
      rcases m₁ with e | ⟨raw, hn, ho⟩
      · exact Or.inl e
      · exact Or.inr ⟨raw, hsub₂ hn, ho⟩
    · exact Or.inr ⟨raw, hn, fun h => ho (hsub₁ h)⟩
  · rintro x (rfl | ⟨raw, hn, ho⟩)
    · exact (u₁ (Set.mem_insert _ _)).trans hle
    · by_cases h : (key, x, st, raw) ∈ Stored db₁
      · exact (u₁ (Or.inr ⟨raw, h, ho⟩)).trans hle
      · exact u₂ (Or.inr ⟨raw, hn, h⟩)

/-- two effects of one set of tuples on one store agree -/
theorem Effect.wm_unique {db db₁ db₂ : DB} {T : Set Tuple} (h₁ : Effect db db₁ T) (h₂ : Effect db db₂ T) (key : GenKey)
    (st : Stream) : wmAt db₁ key st = wmAt db₂ key st := by
  have e : Stored db₁ = Stored db₂ := by rw [h₁.stored, h₂.stored]
  exact IsGreatest.unique (h₁.wm key st) (e ▸ h₂.wm key st)

/-! ## Consistent stores -/

/-- a store whose cache names live rows and whose accounts are exact -/
structure Consistent (s : Store) : Prop extends Inv s where
  accounts : ∃ hist, Accounts s.db hist

theorem consistent_init : Consistent .init := { inv_init with accounts := ⟨fun _ _ => [], accounts_empty _⟩ }

/-- every state of a run with safe prunes is consistent -/
theorem run_consistent {ops : List Op} (h : Machine.Each step Safe .init ops) :
    Consistent (Machine.run step .init ops) := by
  have ha := run_accounts (g := Ledger.init) (accounts_empty _) ops
  rw [Ledger.run_store] at ha
  exact { Machine.run_inv step_inv inv_init h with accounts := ⟨_, ha⟩ }

theorem wmAt_eq {db : DB} (h : WellFormed db) {c : ContainerRow} (hc : c ∈ db.containers) (st : Stream) :
    wmAt db c.key st = c.wm st := by
  simp [wmAt, h.find_eq hc]

theorem wmAt_none {db : DB} {key : GenKey} (h : ∀ c ∈ db.containers, c.key ≠ key) (st : Stream) :
    wmAt db key st = 0 := by
  cases hf : db.find key with
  | none => simp [wmAt, hf]
  | some c => exact absurd (find_mem hf).2 (h c (find_mem hf).1)

theorem HasRow.unique {db : DB} (h : WellFormed db) {id id' : ℕ} {key : GenKey} (h₁ : HasRow db id key)
    (h₂ : HasRow db id' key) : id = id' := by
  obtain ⟨c, hc, rfl, rfl⟩ := h₁
  obtain ⟨c', hc', rfl, e⟩ := h₂
  rw [h.row_eq_of_key hc hc' e.symm]

/-! ## The effect of each write -/

/-- a write that keeps lines, ids and keys and every watermark has no effect -/
theorem effect_of_touch {db : DB} (h : WellFormed db) {p : ContainerRow → Prop} [DecidablePred p]
    {f : ContainerRow → ContainerRow} (hf : ∀ c, (f c).account = c.account) : Effect db (db.updateWhere p f) ∅ := by
  have hg : Grow db (db.updateWhere p f) := .touch db p f hf
  have hmap : (db.updateWhere p f).containers.map (fun c => (c.id, c.key)) = db.containers.map fun c => (c.id, c.key) :=
    map_account _ (fun c c' e => Prod.ext (account_id e) (account_key e)) hf
  have hS : Stored (db.updateWhere p f) = Stored db := by
    ext t
    exact exists_congr fun l => and_congr_right fun _ => and_congr_left fun _ =>
      ⟨fun hr => hasRow_of_map hr hmap.symm, fun hr => hasRow_of_map hr hmap⟩
  refine ⟨by rw [hS, Set.union_empty], fun key st => ?_⟩
  have hwm : wmAt (db.updateWhere p f) key st = wmAt db key st := by
    by_cases hk : ∃ c ∈ db.containers, c.key = key
    · obtain ⟨c₀, h₀, rfl⟩ := hk
      have hc : (if p c₀ then f c₀ else c₀) ∈ (db.updateWhere p f).containers := mem_updateWhere.2 ⟨c₀, h₀, rfl⟩
      have ha : (if p c₀ then f c₀ else c₀).account = c₀.account := by
        split_ifs
        · exact hf c₀
        · rfl
      rw [← account_key ha, wmAt_eq (hg.wellFormed h) hc, account_wm ha, account_key ha, wmAt_eq h h₀]
    · rw [wmAt_none (fun c hc e => hk ⟨c, hc, e⟩), wmAt_none fun c hc e => ?_]
      obtain ⟨c₀, h₀, ha⟩ := account_updateWhere hf hc
      exact hk ⟨c₀, h₀, (account_key ha).symm.trans e⟩
  rw [hS, newStamps_self, hwm]
  simp [IsGreatest]

/-- a new generation row has no effect -/
theorem effect_of_insert {db : DB} (h : WellFormed db) {c : ContainerRow}
    (hid : c.id = nextRowid (db.containers.map fun c => c.id)) (hkey : ∀ c' ∈ db.containers, c'.key ≠ c.key)
    (hbytes : c.storedBytes = 0) (hwm : ∀ st, c.wm st = 0) :
    Effect db { db with containers := db.containers ++ [c] } ∅ := by
  have hg : Grow db { db with containers := db.containers ++ [c] } := .insert db c hid hkey hbytes hwm
  have hw := hg.wellFormed h
  have hS : Stored { db with containers := db.containers ++ [c] } = Stored db := by
    ext t
    refine exists_congr fun l => and_congr_right fun hl => and_congr_left fun _ => ⟨?_, fun hr => Grow.hasRow hg hr⟩
    rintro ⟨c', hc', e, ek⟩
    rcases List.mem_append.1 hc' with hc' | hc'
    · exact ⟨c', hc', e, ek⟩
    · -- no line refers to the new id
      obtain rfl := List.mem_singleton.1 hc'
      have := hasRef_iff_mem.1 (h.fk l hl)
      rw [← e, hid] at this
      exact absurd this (nextRowid_notMem _)
  refine ⟨by rw [hS, Set.union_empty], fun key st => ?_⟩
  have hwm' : wmAt { db with containers := db.containers ++ [c] } key st = wmAt db key st := by
    by_cases hk : ∃ c ∈ db.containers, c.key = key
    · obtain ⟨c₀, h₀, rfl⟩ := hk
      rw [wmAt_eq hw (List.mem_append_left _ h₀), wmAt_eq h h₀]
    · have h0 : wmAt db key st = 0 := wmAt_none (fun c hc e => hk ⟨c, hc, e⟩) st
      rw [h0]
      by_cases hck : c.key = key
      · rw [← hck, wmAt_eq hw (List.mem_append_right _ (List.mem_singleton_self c)), hwm]
      · refine wmAt_none (fun c' hc' e => ?_) st
        rcases List.mem_append.1 hc' with hc' | hc'
        · exact hk ⟨c', hc', e⟩
        · exact hck (List.mem_singleton.1 hc' ▸ e)
  rw [hS, newStamps_self, hwm']
  simp [IsGreatest]

/-! ### A stored line -/

section StoreLine

variable {db : DB} {ref : ℕ} {key : GenKey} {l : Line} {nowMS : ℤ} (h : WellFormed db) (hrow : HasRow db ref key)
  (hnew : ¬ db.HasLine ref l)

theorem storeLine_hasRow {id : ℕ} {k : GenKey} : HasRow (storeLine db ref l key nowMS) id k ↔ HasRow db id k := by
  have e := storeLine_map (fun c => (c.id, c.key)) (fun _ _ _ => rfl) db ref l key nowMS
  exact ⟨fun hr => hasRow_of_map hr e.symm, fun hr => hasRow_of_map hr e⟩

include h hrow

theorem stored_storeLine : Stored (storeLine db ref l key nowMS) = Stored db ∪ {(key, l.ident)} := by
  ext t
  simp only [Stored, Set.mem_ofPred_eq, Set.mem_union, Set.mem_singleton_iff, storeLine_lines, List.mem_append,
    List.mem_singleton, storeLine_hasRow]
  constructor
  · rintro ⟨r, hr | rfl, hrow', e⟩
    · exact Or.inl ⟨r, hr, hrow', e⟩
    · obtain ⟨c, hc, e₁, e₂⟩ := hrow
      obtain ⟨c', hc', e₁', e₂'⟩ := hrow'
      have := h.row_eq_of_id hc hc' (e₁.trans e₁'.symm)
      exact Or.inr (Prod.ext (by rw [← e₂', ← this, e₂]) e.symm)
  · rintro (⟨r, hr, hrow', e⟩ | rfl)
    · exact ⟨r, Or.inl hr, hrow', e⟩
    · exact ⟨_, Or.inr rfl, hrow, rfl⟩

include hnew in
theorem newStamps_storeLine (k : GenKey) (st : Stream) :
    newStamps (Stored db) (Stored (storeLine db ref l key nowMS)) k st =
      if k = key ∧ l.stream = st then {l.tsNS} else ∅ := by
  have hfresh : (key, l.ident) ∉ Stored db := by
    rintro ⟨r, hr, hrow', e⟩
    exact hnew ⟨r, hr, HasRow.unique h hrow' hrow, e⟩
  ext ts
  rw [stored_storeLine h hrow]
  simp only [newStamps, Set.mem_ofPred_eq, Set.mem_union, Set.mem_singleton_iff]
  split_ifs with hc
  · obtain ⟨rfl, rfl⟩ := hc
    constructor
    · rintro ⟨raw, h1 | h1, h2⟩
      · exact absurd h1 h2
      · exact congrArg (·.2.1) h1
    · rintro rfl
      exact ⟨l.raw, Or.inr rfl, hfresh⟩
  · simp only [Set.mem_empty_iff_false, iff_false, not_exists, not_and, not_not]
    rintro raw (h1 | h1)
    · exact h1
    · exact absurd ⟨congrArg (·.1) h1, (congrArg (·.2.2.1) h1).symm⟩ hc

include hnew in
theorem wmAt_storeLine (hwm0 : ∀ c ∈ db.containers, ∀ st, 0 ≤ c.wm st) (st : Stream) :
    wmAt (storeLine db ref l key nowMS) key st = max (wmAt db key st) (if l.stream = st then max 0 l.tsNS else 0) := by
  have hw := (Grow.store db ref l key nowMS hnew hrow.hasRef).wellFormed h
  obtain ⟨c₀, h₀, rfl, rfl⟩ := hrow
  have hc : c₀.credit (({} : Agg).add l) nowMS ∈ (storeLine db c₀.id l c₀.key nowMS).containers :=
    mem_storeLine.2 ⟨c₀, h₀, by rw [if_pos rfl]⟩
  rw [wmAt_eq h h₀, ← credit_wm c₀ l nowMS st (hwm0 c₀ h₀ st)]
  exact wmAt_eq hw hc st

include hnew in
theorem wmAt_storeLine_ne {k : GenKey} (hk : k ≠ key) (st : Stream) :
    wmAt (storeLine db ref l key nowMS) k st = wmAt db k st := by
  have hw := (Grow.store db ref l key nowMS hnew hrow.hasRef).wellFormed h
  obtain ⟨c₀, h₀, rfl, rfl⟩ := hrow
  by_cases hk' : ∃ c ∈ db.containers, c.key = k
  · obtain ⟨c, hc, rfl⟩ := hk'
    have hne : c.id ≠ c₀.id := fun e => hk (by rw [h.row_eq_of_id hc h₀ e])
    have hc' : c ∈ (storeLine db c₀.id l c₀.key nowMS).containers := mem_storeLine.2 ⟨c, hc, by rw [if_neg hne]⟩
    rw [wmAt_eq hw hc', wmAt_eq h hc]
  · rw [wmAt_none (fun c hc e => hk' ⟨c, hc, e⟩), wmAt_none fun c hc e => ?_]
    obtain ⟨c₁, h₁, rfl⟩ := mem_storeLine.1 hc
    refine hk' ⟨c₁, h₁, ?_⟩
    split_ifs at e <;> exact e

include hnew in
/-- a line stored under the row of its key adds its tuple -/
theorem effect_of_store (hwm0 : ∀ c ∈ db.containers, ∀ st, 0 ≤ c.wm st) :
    Effect db (storeLine db ref l key nowMS) {(key, l.ident)} := by
  refine ⟨stored_storeLine h hrow, fun k st => ?_⟩
  rw [newStamps_storeLine h hrow hnew]
  by_cases hk : k = key
  · subst hk
    have h0 : 0 ≤ wmAt db k st := by
      obtain ⟨c₀, h₀, -, rfl⟩ := hrow
      rw [wmAt_eq h h₀]; exact hwm0 c₀ h₀ st
    rw [wmAt_storeLine h hrow hnew hwm0]
    by_cases hs : l.stream = st
    · simp only [hs, if_true, and_self, ← max_assoc, max_eq_left h0]
      constructor
      · rcases le_total (wmAt db k st) l.tsNS with hle | hle
        · rw [max_eq_right hle]; exact Or.inr rfl
        · rw [max_eq_left hle]; exact Or.inl rfl
      · rintro x (rfl | rfl)
        · exact le_max_left _ _
        · exact le_max_right _ _
    · simp [hs, h0, IsGreatest]
  · rw [wmAt_storeLine_ne h hrow hnew hk]
    simp [hk, IsGreatest]

end StoreLine

/-! ## Messages, batches, sequences of batches -/

/-- what a message needs and keeps inside the writer's transaction -/
structure TxOk (refs : Refs) (db : DB) (fresh : Refs) : Prop extends TxInv refs db fresh where
  accounts : ∃ hist, Accounts db hist

theorem Accounts.wm_nonneg {db : DB} {hist : History} (h : Accounts db hist) {c : ContainerRow}
    (hc : c ∈ db.containers) (st : Stream) : 0 ≤ c.wm st := by
  rw [h.wm c hc st]
  exact top_nonneg _

theorem grow_accounts {db db' : DB} (hg : Grow db db') (h : ∃ hist, Accounts db hist) : ∃ hist, Accounts db' hist := by
  obtain ⟨hist, h⟩ := h
  exact ⟨_, hg.accounts h⟩

theorem effect_of_upsert {db : DB} (h : WellFormed db) (key : GenKey) (name project : String) (nowMS : ℤ) :
    Effect db (upsertGeneration db key name project nowMS).1 ∅ := by
  unfold upsertGeneration
  cases hf : db.find key with
  | some c => exact effect_of_touch h fun _ => rfl
  | none => exact effect_of_insert h rfl (find_none hf) rfl fun st => by cases st <;> rfl

variable {refs : Refs} {nowMS : ℤ}

theorem resolve_effect (nowMS : ℤ) {db : DB} {fr : Refs} (h : TxOk refs db fr) (m : IngestMsg) :
    let r := resolve refs nowMS db fr m
    TxOk refs r.1 r.2.1 ∧ HasRow r.1 r.2.2 m.key ∧ Effect db r.1 ∅ := by
  rcases resolve_cases refs nowMS db fr m with ⟨ref, hf, e⟩ | ⟨h1, h2, e⟩
  · rw [e]
    exact ⟨h, h.hasRow hf, .refl db⟩
  · rw [e]
    exact ⟨{ tx_upsert db fr m (List.mem_singleton_self m) h.toTxInv h1 h2 with
        accounts := grow_accounts (upsertGeneration_grow _ _ _ _ _) h.accounts },
      upsertGeneration_hasRow _ _ _ _ _, effect_of_upsert h.toWellFormed _ _ _ _⟩

/-- a line that is stored already adds nothing -/
theorem effect_of_stored {db : DB} {t : Tuple} (h : t ∈ Stored db) : Effect db db {t} :=
  ⟨(Set.union_eq_self_of_subset_right (Set.singleton_subset_iff.2 h)).symm, (Effect.refl db).wm⟩

theorem tuples_nil : tuples [] = ∅ := by
  ext t
  simp [tuples]

theorem tuples_append (a b : List IngestMsg) : tuples (a ++ b) = tuples a ∪ tuples b := by
  ext t
  simp [tuples, or_and_right, exists_or]

theorem tuples_done {m : IngestMsg} {reason : String} (h : m.body = .done reason) : tuples [m] = ∅ := by
  ext t
  simp [tuples, h]

theorem tuples_line {m : IngestMsg} {l : Line} (h : m.body = .line l) : tuples [m] = {(m.key, l.ident)} := by
  ext t
  simp [tuples, h, eq_comm]

theorem ingestMsg_effect {db db' : DB} {fr fr' : Refs} {m : IngestMsg} (h : TxOk refs db fr)
    (he : ingestMsg refs nowMS (db, fr) m = .ok (db', fr')) : TxOk refs db' fr' ∧ Effect db db' (tuples [m]) := by
  obtain ⟨h₁, hrow, e₁⟩ := resolve_effect nowMS h m
  unfold ingestMsg at he
  rcases hr : resolve refs nowMS db fr m with ⟨db₁, fr₁, ref⟩
  simp only [hr] at he h₁ hrow e₁
  cases hb : m.body with
  | done reason =>
    simp only [hb, Except.ok.injEq, Prod.mk.injEq] at he
    obtain ⟨rfl, rfl⟩ := he
    rw [tuples_done hb]
    have hg : Grow db₁ (setExcluded db₁ ref reason) := .touch _ _ _ fun _ => rfl
    have e₂ : Effect db₁ (setExcluded db₁ ref reason) ∅ := effect_of_touch h₁.toWellFormed fun _ => rfl
    split_ifs with hreason
    · refine ⟨{ tx_excluded db₁ fr₁ ref reason hreason h₁.toTxInv with
        accounts := grow_accounts hg h₁.accounts }, ?_⟩
      simpa using e₁.trans e₂
    · exact ⟨h₁, e₁⟩
  | line l =>
    simp only [hb] at he
    rw [tuples_line hb, ← Set.empty_union {(m.key, l.ident)}]
    split_ifs at he with h1 h2
    · cases he
      obtain ⟨r, hr, e, ei⟩ := h1
      exact ⟨h₁, e₁.trans (effect_of_stored ⟨r, hr, e ▸ hrow, ei⟩)⟩
    · cases he
      have hg : Grow db₁ (storeLine db₁ ref l m.key nowMS) := .store _ _ _ _ _ h1 h2
      obtain ⟨hist, ha⟩ := h₁.accounts
      refine ⟨{ hg.wellFormed h₁.toWellFormed with cache := ?_, fresh := ?_, filed := ?_, accounts := ?_ }, ?_⟩
      · exact fun k r hr => Grow.hasRow hg (h₁.cache k r hr)
      · exact fun k r hr => Grow.hasRow hg (h₁.fresh k r hr)
      · intro r hr
        rw [storeLine_lines, List.mem_append, List.mem_singleton] at hr
        rcases hr with hr | rfl
        · exact Grow.hasRow hg (h₁.filed r hr)
        · exact Grow.hasRow hg hrow
      · exact ⟨_, hg.accounts ha⟩
      · exact e₁.trans (effect_of_store h₁.toWellFormed hrow h1 fun c hc st => Accounts.wm_nonneg ha hc st)

theorem foldlM_effect (batch : List IngestMsg) {p q : DB × Refs} (h : TxOk refs p.1 p.2)
    (he : batch.foldlM (ingestMsg refs nowMS) p = .ok q) : TxOk refs q.1 q.2 ∧ Effect p.1 q.1 (tuples batch) := by
  induction batch generalizing p with
  | nil =>
    cases he
    rw [tuples_nil]
    exact ⟨h, .refl _⟩
  | cons m batch ih =>
    rw [List.foldlM_cons] at he
    cases hm : ingestMsg refs nowMS p m with
    | error e => rw [hm] at he; cases he
    | ok p' =>
      rw [hm] at he
      obtain ⟨h₁, e₁⟩ := ingestMsg_effect h hm
      obtain ⟨h₂, e₂⟩ := ih h₁ he
      have := e₁.trans e₂
      rw [← tuples_append] at this
      exact ⟨h₂, this⟩

/-- **The effect of a commit**: from a consistent store a batch commits, adds the tuples of its lines, and leaves the
store consistent. -/
theorem tryCommit_effect {s : Store} (h : Consistent s) (batch : List IngestMsg) (nowMS : ℤ) :
    ∃ s', s.tryCommit batch nowMS = .ok s' ∧ Consistent s' ∧ Effect s.db s'.db (tuples batch) := by
  obtain ⟨s', hs'⟩ := tryCommit_ok h.toInv batch nowMS
  have htx : TxOk s.dropInvalidated.refs s.dropInvalidated.db fun _ => none :=
    { h.toInv.tx with accounts := h.accounts }
  cases hf : batch.foldlM (ingestMsg s.dropInvalidated.refs nowMS) (s.dropInvalidated.db, fun _ => none) with
  | error e => simp [Store.tryCommit, commit_eq_ingest, hf, Except.map] at hs'
  | ok q =>
    obtain ⟨h₁, e₁⟩ := foldlM_effect batch htx hf
    have hdb : s'.db = q.1 := by
      simp only [Store.tryCommit, commit_eq_ingest, hf, Except.map, Except.ok.injEq] at hs'
      rw [← hs']
    refine ⟨s', hs', { tryCommit_inv h.toInv hs' with accounts := ?_ }, ?_⟩
    · rw [hdb]; exact h₁.accounts
    · rw [hdb]; exact e₁

/-- a sequence of batches, each with the time of its commit -/
def ingestAll (s : Store) (batches : List (List IngestMsg × ℤ)) : Except Fault Store :=
  batches.foldlM (fun s b => s.tryCommit b.1 b.2) s

theorem ingestAll_effect {s : Store} (h : Consistent s) (batches : List (List IngestMsg × ℤ)) :
    ∃ s', ingestAll s batches = .ok s' ∧ Consistent s' ∧
      Effect s.db s'.db (tuples (batches.map Prod.fst).flatten) := by
  induction batches generalizing s with
  | nil => exact ⟨s, rfl, h, by simpa [tuples_nil] using Effect.refl s.db⟩
  | cons b batches ih =>
    obtain ⟨s₁, hs₁, h₁, e₁⟩ := tryCommit_effect h b.1 b.2
    obtain ⟨s₂, hs₂, h₂, e₂⟩ := ih h₁
    refine ⟨s₂, ?_, h₂, ?_⟩
    · rw [ingestAll, List.foldlM_cons, hs₁]
      exact hs₂
    · rw [List.map_cons, List.flatten_cons, tuples_append]
      exact e₁.trans e₂

/-! ## Bytes follow from the tuples -/

theorem mem_idents {s : Store} (h : Consistent s) {c : ContainerRow} (hc : c ∈ s.db.containers)
    (i : ℤ × Stream × List UInt8) :
    i ∈ (s.db.linesOf c.id).map (fun l => l.line.ident) ↔ (c.key, i) ∈ Stored s.db := by
  simp only [DB.linesOf, List.mem_map, List.mem_filter, decide_eq_true_eq, Stored, Set.mem_ofPred_eq]
  constructor
  · rintro ⟨l, ⟨hl, e⟩, ei⟩
    exact ⟨l, hl, ⟨c, hc, e.symm, rfl⟩, ei⟩
  · rintro ⟨l, hl, ⟨c', hc', e, ek⟩, ei⟩
    exact ⟨l, ⟨hl, by rw [← e, h.row_eq_of_key hc' hc ek]⟩, ei⟩

theorem idents_nodup {db : DB} (h : WellFormed db) (id : ℕ) : ((db.linesOf id).map fun l => l.line.ident).Nodup := by
  have := h.distinct.sublist ((List.filter_sublist (p := fun l : LineRow => decide (l.ref = id))).map _)
  refine List.Nodup.of_map (fun i => (id, i)) ?_
  rw [List.map_map]
  refine (List.map_congr_left fun l hl => ?_) ▸ this
  have hr : l.ref = id := by simpa using (List.mem_filter.1 hl).2
  simp [hr]

/-- `stored_bytes` of a generation is determined by the stored tuples -/
theorem bytesAt_eq {s₁ s₂ : Store} (h₁ : Consistent s₁) (h₂ : Consistent s₂) (e : Stored s₁.db = Stored s₂.db)
    (key : GenKey) : bytesAt s₁.db key = bytesAt s₂.db key := by
  have hsum : ∀ db : DB, ∀ id, db.bytesOf id =
      (((db.linesOf id).map fun l => l.line.ident).map fun i => (i.2.2.length : ℤ)).sum := by
    intro db id
    rw [List.map_map]
    rfl
  have hzero : ∀ {a b : Store}, Consistent a → Consistent b → Stored a.db = Stored b.db →
      a.db.find key = none → bytesAt b.db key = 0 := by
    intro a b ha hb e hn
    cases hf : b.db.find key with
    | none => simp [bytesAt, hf]
    | some c =>
      obtain ⟨hc, rfl⟩ := find_mem hf
      obtain ⟨hist, hacc⟩ := hb.accounts
      have hnil : (b.db.linesOf c.id).map (fun l => l.line.ident) = [] := by
        refine List.eq_nil_iff_forall_not_mem.2 fun i hi => ?_
        obtain ⟨l, -, ⟨c', hc', -, ek⟩, -⟩ := e ▸ (mem_idents hb hc i).1 hi
        exact find_none hn c' hc' ek
      simp only [bytesAt, hf, Option.map_some, Option.getD_some]
      rw [hacc.bytes c hc, hsum, hnil]
      rfl
  cases hf₁ : s₁.db.find key with
  | none => rw [hzero h₁ h₂ e hf₁]; simp [bytesAt, hf₁]
  | some c₁ =>
    cases hf₂ : s₂.db.find key with
    | none => rw [hzero h₂ h₁ e.symm hf₂]; simp [bytesAt, hf₂]
    | some c₂ =>
      obtain ⟨hc₁, ek₁⟩ := find_mem hf₁
      obtain ⟨hc₂, ek₂⟩ := find_mem hf₂
      obtain ⟨_, ha₁⟩ := h₁.accounts
      obtain ⟨_, ha₂⟩ := h₂.accounts
      have hperm := (List.perm_ext_iff_of_nodup (idents_nodup h₁.toWellFormed c₁.id)
        (idents_nodup h₂.toWellFormed c₂.id)).2 fun i => by
          rw [mem_idents h₁ hc₁, mem_idents h₂ hc₂, e, ek₁, ek₂]
      simp only [bytesAt, hf₁, hf₂, Option.map_some, Option.getD_some]
      rw [ha₁.bytes c₁ hc₁, ha₂.bytes c₂ hc₂, hsum, hsum]
      exact (hperm.map _).sum_eq

/-! ## Order-insensitivity and idempotence -/

/-- **Ingest is order-insensitive and idempotent.** From a consistent store, two sequences of batches that carry the
same lines (in any order, any number of times, split into batches in any way, committed at any times) both commit, and
leave the same stored (host, container id, timestamp, stream, raw) tuples, the same `stored_bytes` of every generation
and the same watermark of each of its streams. -/
theorem ingest_order_insensitive {s : Store} (h : Consistent s) (bs₁ bs₂ : List (List IngestMsg × ℤ))
    (hsame : ∀ t, t ∈ tuples (bs₁.map Prod.fst).flatten ↔ t ∈ tuples (bs₂.map Prod.fst).flatten) :
    ∃ s₁ s₂, ingestAll s bs₁ = .ok s₁ ∧ ingestAll s bs₂ = .ok s₂ ∧ Stored s₁.db = Stored s₂.db ∧
      (∀ key, bytesAt s₁.db key = bytesAt s₂.db key) ∧ ∀ key st, wmAt s₁.db key st = wmAt s₂.db key st := by
  obtain ⟨s₁, hs₁, h₁, e₁⟩ := ingestAll_effect h bs₁
  obtain ⟨s₂, hs₂, h₂, e₂⟩ := ingestAll_effect h bs₂
  rw [Set.ext hsame] at e₁
  have hS : Stored s₁.db = Stored s₂.db := by rw [e₁.stored, e₂.stored]
  exact ⟨s₁, s₂, hs₁, hs₂, hS, bytesAt_eq h₁ h₂ hS, fun key st => e₁.wm_unique e₂ key st⟩

def tail : IngestMsg := ⟨web, "web", "", .line ⟨5, .stdout, 0, [104, 105]⟩⟩
def reread : IngestMsg := ⟨web, "web", "shop", .line ⟨5, .stdout, 0, [104, 105]⟩⟩
def older : IngestMsg := ⟨web, "web", "shop", .line ⟨3, .stderr, 0, [33]⟩⟩

/-- a live line, and a backfill that reads it again with an older line before it -/
theorem ingest_order_insensitive_reread :
    ∃ s₁ s₂, ingestAll .init [([tail], 1), ([older, reread], 2)] = .ok s₁ ∧
      ingestAll .init [([older, tail], 1)] = .ok s₂ ∧ Stored s₁.db = Stored s₂.db ∧
      (∀ key, bytesAt s₁.db key = bytesAt s₂.db key) ∧ ∀ key st, wmAt s₁.db key st = wmAt s₂.db key st :=
  ingest_order_insensitive consistent_init _ _ fun t => by
    simp [tuples, tail, reread, older, Line.ident, eq_comm]
    tauto

end LogDeck.Convergence
