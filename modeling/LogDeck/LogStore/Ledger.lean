/-
The transaction seen one message at a time.

`commit` gathers bytes and watermarks per row and applies them at the end. `ingestMsg` is the same loop with every line
charged to its row at once; `commit_eq_ingest` shows that the two give the same database, the same cache and the same
failures. Properties of a commit are therefore properties of single messages: `commit_induction` reduces an invariant
of the store to its three kinds of write (an upsert of a generation, an exclusion, a stored line).
-/
import LogDeck.LogStore.Janitor

namespace LogDeck.LogStore

/-- a line charged to its row at once -/
def chargeLine (db : DB) (ref : ℕ) (l : Line) (nowMS : ℤ) : DB :=
  db.updateWhere (fun c => c.id = ref) fun c => c.credit (({} : Agg).add l) nowMS

/-- a line stored under a row and charged to it -/
def storeLine (db : DB) (ref : ℕ) (l : Line) (origin : GenKey) (nowMS : ℤ) : DB :=
  chargeLine (db.addLine ref l origin) ref l nowMS

/-- the body of commit's loop without the aggregates -/
def ingestMsg (refs : Refs) (nowMS : ℤ) (p : DB × Refs) (m : IngestMsg) : Except Fault (DB × Refs) :=
  let (db, fresh, ref) := resolve refs nowMS p.1 p.2 m
  match m.body with
  | .done reason => .ok (if reason ≠ "" then setExcluded db ref reason else db, fresh)
  | .line l =>
    if db.HasLine ref l then .ok (db, fresh)
    else if db.HasRef ref then .ok (storeLine db ref l m.key nowMS, fresh)
    else .error .foreignKey

/-! ## Rows through an update -/

section Update

variable {db : DB} {p : ContainerRow → Prop} [DecidablePred p] {f : ContainerRow → ContainerRow}

theorem map_updateWhere {α : Type} (g : ContainerRow → α) (hg : ∀ c, p c → g (f c) = g c) :
    (db.updateWhere p f).containers.map g = db.containers.map g := by
  simp only [DB.updateWhere, List.map_map]
  refine List.map_congr_left fun c _ => ?_
  simp only [Function.comp]
  split_ifs with h
  · exact hg c h
  · rfl

theorem mem_updateWhere {c : ContainerRow} :
    c ∈ (db.updateWhere p f).containers ↔ ∃ c₀ ∈ db.containers, c = if p c₀ then f c₀ else c₀ := by
  simp only [DB.updateWhere, List.mem_map, eq_comm]

end Update

theorem hasRef_iff_mem {db : DB} {ref : ℕ} : db.HasRef ref ↔ ref ∈ db.containers.map fun c => c.id := by
  simp [DB.HasRef]

/-- a statement that keeps the ids keeps the references that resolve -/
theorem hasRef_congr {db db' : DB} (h : db'.containers.map (fun c => c.id) = db.containers.map fun c => c.id) (ref : ℕ) :
    db'.HasRef ref ↔ db.HasRef ref := by
  rw [hasRef_iff_mem, hasRef_iff_mem, h]

theorem hasRef_updateWhere {db : DB} {p : ContainerRow → Prop} [DecidablePred p] {f : ContainerRow → ContainerRow}
    (hf : ∀ c, (f c).id = c.id) (ref : ℕ) : (db.updateWhere p f).HasRef ref ↔ db.HasRef ref :=
  hasRef_congr (map_updateWhere _ fun c _ => hf c) ref

theorem find_mem {db : DB} {key : GenKey} {c : ContainerRow} (h : db.find key = some c) :
    c ∈ db.containers ∧ c.key = key := by
  refine ⟨List.mem_of_find?_eq_some h, ?_⟩
  simpa using List.find?_some h

theorem find_none {db : DB} {key : GenKey} (h : db.find key = none) : ∀ c ∈ db.containers, c.key ≠ key := by
  intro c hc
  simpa using List.find?_eq_none.1 h c hc

/-! ## Settling the aggregates -/

@[simp] theorem settleRow_id (aggs : ℕ → Option Agg) (nowMS : ℤ) (c : ContainerRow) :
    (settleRow aggs nowMS c).id = c.id := by
  unfold settleRow; split <;> rfl

@[simp] theorem settleRow_key (aggs : ℕ → Option Agg) (nowMS : ℤ) (c : ContainerRow) :
    (settleRow aggs nowMS c).key = c.key := by
  unfold settleRow; split <;> rfl

theorem applyAggs_ids (db : DB) (aggs : ℕ → Option Agg) (nowMS : ℤ) :
    (applyAggs db aggs nowMS).containers.map (fun c => c.id) = db.containers.map fun c => c.id := by
  simp [applyAggs, Function.comp_def]

theorem applyAggs_find (db : DB) (aggs : ℕ → Option Agg) (nowMS : ℤ) (key : GenKey) :
    (applyAggs db aggs nowMS).find key = (db.find key).map (settleRow aggs nowMS) := by
  simp [DB.find, applyAggs, List.find?_map]

/-- an update of other columns and the aggregates can be done in either order -/
theorem applyAggs_updateWhere (db : DB) (aggs : ℕ → Option Agg) (nowMS : ℤ) (p : ContainerRow → Prop)
    [DecidablePred p] (f : ContainerRow → ContainerRow) (hp : ∀ c, p (settleRow aggs nowMS c) ↔ p c)
    (hf : ∀ c, f (settleRow aggs nowMS c) = settleRow aggs nowMS (f c)) :
    (applyAggs db aggs nowMS).updateWhere p f = applyAggs (db.updateWhere p f) aggs nowMS := by
  simp only [DB.updateWhere, applyAggs, DB.mk.injEq, and_true, List.map_map]
  refine List.map_congr_left fun c _ => ?_
  simp only [Function.comp]
  by_cases hc : p c
  · rw [if_pos ((hp c).2 hc), if_pos hc, hf]
  · rw [if_neg (mt (hp c).1 hc), if_neg hc]

/-- the aggregates are about rows that exist, and never lower a watermark below zero -/
structure AggsOk (db : DB) (aggs : ℕ → Option Agg) : Prop where
  exist : ∀ r a, aggs r = some a → db.HasRef r
  out0 : ∀ r a, aggs r = some a → 0 ≤ a.stdoutWM
  err0 : ∀ r a, aggs r = some a → 0 ≤ a.stderrWM

theorem AggsOk.none_of_next {db : DB} {aggs : ℕ → Option Agg} (h : AggsOk db aggs) :
    aggs (nextRowid (db.containers.map fun c => c.id)) = none := by
  cases ha : aggs (nextRowid (db.containers.map fun c => c.id)) with
  | none => rfl
  | some a => exact absurd (hasRef_iff_mem.1 (h.exist _ a ha)) (nextRowid_notMem _)

theorem upsertGeneration_settle {db : DB} {aggs : ℕ → Option Agg} (h : AggsOk db aggs) (nowMS : ℤ) (key : GenKey)
    (name project : String) :
    upsertGeneration (applyAggs db aggs nowMS) key name project nowMS =
      (applyAggs (upsertGeneration db key name project nowMS).1 aggs nowMS,
        (upsertGeneration db key name project nowMS).2) := by
  unfold upsertGeneration
  rw [applyAggs_find]
  cases hf : db.find key with
  | some c =>
    simp only [Option.map_some, settleRow_id, Prod.mk.injEq, and_true]
    refine applyAggs_updateWhere db aggs nowMS _ _ (fun c => by rw [settleRow_key]) fun c => ?_
    simp only [settleRow]
    cases aggs c.id <;> rfl
  | none =>
    simp only [Option.map_none, applyAggs_ids, Prod.mk.injEq, and_true]
    simp [applyAggs, settleRow, h.none_of_next]

theorem setExcluded_settle (db : DB) (aggs : ℕ → Option Agg) (nowMS : ℤ) (ref : ℕ) (reason : String) :
    setExcluded (applyAggs db aggs nowMS) ref reason = applyAggs (setExcluded db ref reason) aggs nowMS := by
  refine applyAggs_updateWhere db aggs nowMS _ _ (fun c => by rw [settleRow_id]) fun c => ?_
  simp only [settleRow]
  cases aggs c.id <;> rfl

theorem credit_add {a : Agg} (h1 : 0 ≤ a.stdoutWM) (h2 : 0 ≤ a.stderrWM) (c : ContainerRow) (l : Line) (nowMS : ℤ) :
    (c.credit a nowMS).credit (({} : Agg).add l) nowMS = c.credit (a.add l) nowMS := by
  cases hs : l.stream <;>
    simp only [ContainerRow.credit, Agg.add, hs, ContainerRow.mk.injEq, true_and, and_true] <;>
    refine ⟨by ring, ?_, ?_⟩ <;> omega

/-- charging a line to the settled rows is settling the aggregates with the line added -/
theorem storeLine_settle {db : DB} {aggs : ℕ → Option Agg} (h : AggsOk db aggs) (nowMS : ℤ) (ref : ℕ) (l : Line)
    (origin : GenKey) :
    storeLine (applyAggs db aggs nowMS) ref l origin nowMS =
      applyAggs (db.addLine ref l origin)
        (Function.update aggs ref (some (((aggs ref).getD {}).add l))) nowMS := by
  simp only [storeLine, chargeLine, DB.updateWhere, DB.addLine, applyAggs, DB.mk.injEq, and_true, List.map_map]
  refine List.map_congr_left fun c _ => ?_
  simp only [Function.comp, settleRow_id]
  by_cases hc : c.id = ref
  · subst hc
    cases ha : aggs c.id with
    | none => simp [settleRow, ha]
    | some a => simpa [settleRow, ha] using credit_add (h.out0 _ a ha) (h.err0 _ a ha) c l nowMS
  · simp [settleRow, hc]

theorem applyAggs_none (db : DB) (nowMS : ℤ) : applyAggs db (fun _ => none) nowMS = db := by
  have h : settleRow (fun _ => none) nowMS = id := rfl
  simp [applyAggs, h]

/-! ## The two loops agree -/

theorem upsertGeneration_hasRef {db : DB} {r : ℕ} (h : db.HasRef r) (key : GenKey) (name project : String)
    (nowMS : ℤ) : (upsertGeneration db key name project nowMS).1.HasRef r := by
  unfold upsertGeneration
  cases db.find key with
  | some c => exact (hasRef_updateWhere (by intros; rfl) r).2 h
  | none =>
    obtain ⟨c, hc, e⟩ := h
    exact ⟨c, List.mem_append_left _ hc, e⟩

theorem resolve_hasRef {db : DB} {r : ℕ} (h : db.HasRef r) (refs : Refs) (nowMS : ℤ) (fresh : Refs) (m : IngestMsg) :
    (resolve refs nowMS db fresh m).1.HasRef r := by
  unfold resolve
  cases refs m.key with
  | some ref => exact h
  | none =>
    cases fresh m.key with
    | some ref => exact h
    | none => exact upsertGeneration_hasRef h _ _ _ _

theorem AggsOk.resolve {db : DB} {aggs : ℕ → Option Agg} (h : AggsOk db aggs) (refs : Refs) (nowMS : ℤ) (fresh : Refs)
    (m : IngestMsg) : AggsOk (resolve refs nowMS db fresh m).1 aggs :=
  { h with exist := fun r a ha => resolve_hasRef (h.exist r a ha) refs nowMS fresh m }

theorem resolve_settle {db : DB} {aggs : ℕ → Option Agg} (h : AggsOk db aggs) (refs : Refs) (nowMS : ℤ) (fresh : Refs)
    (m : IngestMsg) :
    resolve refs nowMS (applyAggs db aggs nowMS) fresh m =
      (applyAggs (resolve refs nowMS db fresh m).1 aggs nowMS, (resolve refs nowMS db fresh m).2) := by
  unfold resolve
  cases refs m.key with
  | some ref => rfl
  | none =>
    cases fresh m.key with
    | some ref => rfl
    | none => simp only [upsertGeneration_settle h]

/-- a transaction with its aggregates applied -/
def Tx.settled (t : Tx) (nowMS : ℤ) : DB × Refs := (applyAggs t.db t.aggs nowMS, t.fresh)

theorem setExcluded_hasRef (db : DB) (ref : ℕ) (reason : String) (r : ℕ) :
    (setExcluded db ref reason).HasRef r ↔ db.HasRef r :=
  hasRef_updateWhere (by intros; rfl) r

/-- one message: the loop body of `commit` with the aggregates applied is `ingestMsg` -/
theorem commitMsg_settled (refs : Refs) (nowMS : ℤ) (t : Tx) (m : IngestMsg) (h : AggsOk t.db t.aggs) :
    (commitMsg refs nowMS t m).map (fun t' => t'.settled nowMS) = ingestMsg refs nowMS (t.settled nowMS) m := by
  unfold commitMsg ingestMsg
  simp only [Tx.settled, resolve_settle h]
  rcases hr : resolve refs nowMS t.db t.fresh m with ⟨db, fresh, ref⟩
  have h' : AggsOk db t.aggs := by
    have := h.resolve refs nowMS t.fresh m
    rwa [hr] at this
  cases m.body with
  | done reason =>
    simp only [Except.map]
    split_ifs <;> simp [setExcluded_settle]
  | line l =>
    have hline : (applyAggs db t.aggs nowMS).HasLine ref l ↔ db.HasLine ref l := Iff.rfl
    have href : (applyAggs db t.aggs nowMS).HasRef ref ↔ db.HasRef ref := hasRef_congr (applyAggs_ids _ _ _) ref
    simp only [insertLine, hline, href]
    by_cases h1 : db.HasLine ref l
    · simp [h1, Except.map]
    · by_cases h2 : db.HasRef ref
      · simp [h1, h2, Except.map, storeLine_settle h']
      · simp [h1, h2, Except.map]

theorem agg_add_nonneg {a : Agg} (h1 : 0 ≤ a.stdoutWM) (h2 : 0 ≤ a.stderrWM) (l : Line) :
    0 ≤ (a.add l).stdoutWM ∧ 0 ≤ (a.add l).stderrWM := by
  cases hs : l.stream <;> simp only [Agg.add, hs] <;> omega

/-- what one message does to the transaction, when it does not fail -/
theorem commitMsg_ok {refs : Refs} {nowMS : ℤ} {t t' : Tx} {m : IngestMsg} (h : AggsOk t.db t.aggs)
    (hm : commitMsg refs nowMS t m = .ok t') : AggsOk t'.db t'.aggs := by
  unfold commitMsg at hm
  rcases hr : resolve refs nowMS t.db t.fresh m with ⟨db, fresh, ref⟩
  have h' : AggsOk db t.aggs := by
    have := h.resolve refs nowMS t.fresh m
    rwa [hr] at this
  simp only [hr] at hm
  cases hb : m.body with
  | done reason =>
    simp only [hb, Except.ok.injEq] at hm
    subst hm
    refine { h' with exist := fun r a ha => ?_ }
    dsimp only
    split_ifs
    · exact (setExcluded_hasRef db ref reason r).2 (h'.exist r a ha)
    · exact h'.exist r a ha
  | line l =>
    simp only [hb, insertLine] at hm
    by_cases h1 : db.HasLine ref l
    · simp only [h1, if_true, Except.ok.injEq] at hm
      subst hm
      exact h'
    · by_cases h2 : db.HasRef ref
      · simp only [h1, h2, if_true, if_false, Except.ok.injEq] at hm
        subst hm
        have hn : 0 ≤ ((t.aggs ref).getD {}).stdoutWM ∧ 0 ≤ ((t.aggs ref).getD {}).stderrWM := by
          cases ha : t.aggs ref with
          | none => exact ⟨le_rfl, le_rfl⟩
          | some a => exact ⟨h'.out0 _ a ha, h'.err0 _ a ha⟩
        refine ⟨fun r a ha => ?_, fun r a ha => ?_, fun r a ha => ?_⟩ <;>
          simp only [Function.update_apply] at ha <;> split_ifs at ha with hc
        · subst hc; exact h2
        · exact h'.exist r a ha
        · cases ha; exact (agg_add_nonneg hn.1 hn.2 l).1
        · exact h'.out0 r a ha
        · cases ha; exact (agg_add_nonneg hn.1 hn.2 l).2
        · exact h'.err0 r a ha
      · simp [h1, h2] at hm

theorem foldlM_settled (refs : Refs) (nowMS : ℤ) (batch : List IngestMsg) (t : Tx) (h : AggsOk t.db t.aggs) :
    (batch.foldlM (commitMsg refs nowMS) t).map (fun t' => t'.settled nowMS) =
      batch.foldlM (ingestMsg refs nowMS) (t.settled nowMS) := by
  induction batch generalizing t with
  | nil => rfl
  | cons m batch ih =>
    have hstep := commitMsg_settled refs nowMS t m h
    simp only [List.foldlM_cons, ← hstep]
    cases hm : commitMsg refs nowMS t m with
    | error e => rfl
    | ok t' => exact ih t' (commitMsg_ok h hm)

/-- **The aggregates are exact**: a batch written with its bytes and watermarks gathered per row leaves what charging
every line at once leaves, and fails when that fails. -/
theorem commit_eq_ingest (db : DB) (refs : Refs) (batch : List IngestMsg) (nowMS : ℤ) :
    commit db refs batch nowMS =
      (batch.foldlM (ingestMsg refs nowMS) (db, fun _ => none)).map fun p => (p.1, publish refs p.2) := by
  have h := foldlM_settled refs nowMS batch ⟨db, fun _ => none, fun _ => none⟩ ⟨by simp, by simp, by simp⟩
  simp only [Tx.settled, applyAggs_none] at h
  rw [← h]
  unfold commit
  cases batch.foldlM (commitMsg refs nowMS) ⟨db, fun _ => none, fun _ => none⟩ <;> rfl

/-! ## Invariants of a commit, one kind of write at a time -/

theorem resolve_cases (refs : Refs) (nowMS : ℤ) (db : DB) (fresh : Refs) (m : IngestMsg) :
    (∃ ref, (refs m.key = some ref ∨ (refs m.key = none ∧ fresh m.key = some ref)) ∧
      resolve refs nowMS db fresh m = (db, fresh, ref)) ∨
    (refs m.key = none ∧ fresh m.key = none ∧
      resolve refs nowMS db fresh m =
        ((upsertGeneration db m.key m.name m.project nowMS).1,
          Function.update fresh m.key (some (upsertGeneration db m.key m.name m.project nowMS).2),
          (upsertGeneration db m.key m.name m.project nowMS).2)) := by
  unfold resolve
  cases hr : refs m.key with
  | some ref => exact Or.inl ⟨ref, Or.inl rfl, rfl⟩
  | none =>
    cases hf : fresh m.key with
    | some ref => exact Or.inl ⟨ref, Or.inr ⟨rfl, rfl⟩, rfl⟩
    | none => exact Or.inr ⟨rfl, rfl, rfl⟩

/-- the id a message is filed under is what the cache, then this transaction, has for its key -/
def Filed (refs fresh : Refs) (key : GenKey) (ref : ℕ) : Prop :=
  refs key = some ref ∨ (refs key = none ∧ fresh key = some ref)

section Rule

variable {refs : Refs} {nowMS : ℤ} {I : DB → Refs → Prop} {batch : List IngestMsg}
  (hup : ∀ db fresh, ∀ m ∈ batch, I db fresh → refs m.key = none → fresh m.key = none →
    I (upsertGeneration db m.key m.name m.project nowMS).1
      (Function.update fresh m.key (some (upsertGeneration db m.key m.name m.project nowMS).2)))
  (hex : ∀ db fresh ref reason, reason ≠ "" → I db fresh → I (setExcluded db ref reason) fresh)
  (hst : ∀ db fresh ref l, ∀ m ∈ batch, I db fresh → m.body = .line l → Filed refs fresh m.key ref →
    ¬ db.HasLine ref l → db.HasRef ref → I (storeLine db ref l m.key nowMS) fresh)

include hup in
theorem resolve_rule {db : DB} {fresh : Refs} {m : IngestMsg} (hm : m ∈ batch) (h : I db fresh) :
    let r := resolve refs nowMS db fresh m
    I r.1 r.2.1 ∧ Filed refs r.2.1 m.key r.2.2 := by
  rcases resolve_cases refs nowMS db fresh m with ⟨ref, href, e⟩ | ⟨h1, h2, e⟩
  · rw [e]; exact ⟨h, href⟩
  · rw [e]; exact ⟨hup db fresh m hm h h1 h2, Or.inr ⟨h1, by simp⟩⟩

include hup hex hst in
theorem ingestMsg_rule {db db' : DB} {fresh fresh' : Refs} {m : IngestMsg} (hm : m ∈ batch) (h : I db fresh)
    (he : ingestMsg refs nowMS (db, fresh) m = .ok (db', fresh')) : I db' fresh' := by
  have hr := resolve_rule hup hm h
  unfold ingestMsg at he
  rcases resolve refs nowMS db fresh m with ⟨db₁, fresh₁, ref⟩
  obtain ⟨h₁, href⟩ := hr
  cases hb : m.body with
  | done reason =>
    simp only [hb, Except.ok.injEq, Prod.mk.injEq] at he
    obtain ⟨rfl, rfl⟩ := he
    split_ifs with hr
    · exact hex _ _ _ _ hr h₁
    · exact h₁
  | line l =>
    simp only [hb] at he
    split_ifs at he with h1 h2
    · cases he; exact h₁
    · cases he; exact hst _ _ _ _ m hm h₁ hb href h1 h2

include hup hex hst in
/-- **Invariants of a commit.** What an upsert, an exclusion and a stored line preserve, a successful commit preserves;
the cache it leaves is the old one with the ids it discovered. -/
theorem commit_induction {db db' : DB} {refs' : Refs} (h : I db fun _ => none)
    (hc : commit db refs batch nowMS = .ok (db', refs')) :
    ∃ fresh, I db' fresh ∧ refs' = publish refs fresh := by
  have hfold : ∀ (ms : List IngestMsg) (p q : DB × Refs), (∀ m ∈ ms, m ∈ batch) → I p.1 p.2 →
      ms.foldlM (ingestMsg refs nowMS) p = .ok q → I q.1 q.2 := by
    intro ms
    induction ms with
    | nil => intro p q _ hp he; cases he; exact hp
    | cons m ms ih =>
      intro p q hms hp he
      rw [List.foldlM_cons] at he
      cases hm : ingestMsg refs nowMS p m with
      | error e => rw [hm] at he; cases he
      | ok p' =>
        rw [hm] at he
        have hp' := ingestMsg_rule hup hex hst (hms m List.mem_cons_self) hp hm
        exact ih p' q (fun m' hm' => hms m' (List.mem_cons_of_mem _ hm')) hp' he
  rw [commit_eq_ingest] at hc
  cases hf : batch.foldlM (ingestMsg refs nowMS) (db, fun _ => none) with
  | error e => rw [hf] at hc; cases hc
  | ok q =>
    rw [hf] at hc
    cases hc
    exact ⟨q.2, hfold batch _ q (fun m hm => hm) h hf, rfl⟩

include hup in
/-- a message whose reference resolves does not fail -/
theorem ingestMsg_ok (href : ∀ db fresh key ref, I db fresh → Filed refs fresh key ref → db.HasRef ref) {db : DB}
    {fresh : Refs} {m : IngestMsg} (hm : m ∈ batch) (h : I db fresh) :
    ∃ q, ingestMsg refs nowMS (db, fresh) m = .ok q := by
  obtain ⟨h₁, hf⟩ := resolve_rule hup hm h
  unfold ingestMsg
  rcases hr : resolve refs nowMS db fresh m with ⟨db₁, fresh₁, ref⟩
  rw [hr] at h₁ hf
  cases hb : m.body with
  | done reason => exact ⟨_, rfl⟩
  | line l =>
    by_cases h1 : db₁.HasLine ref l
    · exact ⟨(db₁, fresh₁), by simp [h1]⟩
    · exact ⟨(storeLine db₁ ref l m.key nowMS, fresh₁), by simp [h1, href _ _ _ _ h₁ hf]⟩

include hup hex hst in
/-- **A commit whose references resolve succeeds.** -/
theorem commit_succeeds (href : ∀ db fresh key ref, I db fresh → Filed refs fresh key ref → db.HasRef ref) {db : DB}
    (h : I db fun _ => none) : ∃ q, commit db refs batch nowMS = .ok q := by
  have hfold : ∀ (ms : List IngestMsg) (p : DB × Refs), (∀ m ∈ ms, m ∈ batch) → I p.1 p.2 →
      ∃ q, ms.foldlM (ingestMsg refs nowMS) p = .ok q := by
    intro ms
    induction ms with
    | nil => exact fun p _ _ => ⟨p, rfl⟩
    | cons m ms ih =>
      intro p hms hp
      obtain ⟨p', hm⟩ := ingestMsg_ok hup href (hms m List.mem_cons_self) hp
      obtain ⟨q, hq⟩ := ih p' (fun m' hm' => hms m' (List.mem_cons_of_mem _ hm'))
        (ingestMsg_rule hup hex hst (hms m List.mem_cons_self) hp hm)
      exact ⟨q, by rw [List.foldlM_cons, hm]; exact hq⟩
  obtain ⟨q, hq⟩ := hfold batch (db, fun _ => none) (fun m hm => hm) h
  exact ⟨_, by rw [commit_eq_ingest, hq]; rfl⟩

end Rule

end LogDeck.LogStore
