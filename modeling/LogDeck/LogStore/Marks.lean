/-
What the bookkeeping of a generation says of its history: the watermarks of its row, of the lines stored under it
(`ingest.go`: `commit`), and its gap, of the lines lost (`store.go`: `markGap`).

Results:
- `wmAt_step`: a write that does not delete the row of a generation raises its marks to the lines it stores;
- `wmAt_act`: so does every action of the pipeline but a purge;
- `Earliest`: a gap is the timestamp of the oldest line lost, and marking keeps it so.
-/
import LogDeck.LogStore.Pipeline

namespace LogDeck.Marks

open LogDeck.LogStore LogDeck.Attribution LogDeck.Convergence LogDeck.Pipeline LogDeck.Pipeline.Sys
open Relation (ReflTransGen)

/-! ## Rows -/

/-- the row stays under its id -/
def KeepsRows (old new : DB) : Prop := ∀ id key, HasRow old id key → HasRow new id key

theorem growChain_keepsRows {db db' : DB} (h : ReflTransGen Grow db db') : KeepsRows db db' := by
  induction h with
  | refl => exact fun _ _ hr => hr
  | tail _ hg ih => exact fun id key hr => Grow.hasRow hg (ih id key hr)

/-- a write that shrinks the database makes no row -/
theorem shrink_keepsRows {db db' : DB} (hs : Shrink db db') : KeepsRows db' db := by
  intro id key ⟨c, hc, hid, hkey⟩
  cases hs with
  | evict vs _ _ => exact hasRow_of_map ⟨c, hc, hid, hkey⟩ (evictRows_map _ (fun _ _ => rfl) _ _).symm
  | purge refs => exact ⟨c, (List.mem_filter.1 hc).1, hid, hkey⟩
  | prune => exact ⟨c, (List.mem_filter.1 hc).1, hid, hkey⟩

/-- a row of the one database that has the id or the key of a row of the other has both -/
theorem same_row {st : Store} (hw : WellFormed st.db) (o : Op) {c c' : ContainerRow} (hc : c ∈ st.db.containers)
    (hc' : c' ∈ (LogStore.step st o).db.containers) : c'.id = c.id ↔ c'.key = c.key := by
  have hw' := step_wellFormed hw o
  rcases step_db st o hw.nodup with hg | hs
  · obtain ⟨c₁, hc₁, hid, hkey⟩ := growChain_keepsRows hg c.id c.key ⟨c, hc, rfl, rfl⟩
    rw [← hid, ← hkey]
    constructor
    · intro e
      rw [hw'.row_eq_of_id hc' hc₁ e]
    · intro e
      rw [hw'.row_eq_of_key hc' hc₁ e]
  · obtain ⟨c₁, hc₁, hid, hkey⟩ := shrink_keepsRows hs c'.id c'.key ⟨c', hc', rfl, rfl⟩
    rw [← hid, ← hkey]
    constructor
    · intro e
      rw [hw.row_eq_of_id hc₁ hc e]
    · intro e
      rw [hw.row_eq_of_key hc₁ hc e]

/-! ## Marks -/

/-- the timestamps of the lines that a write stored under the row of the generation -/
def storedNow (old new : DB) (key : GenKey) (st : Stream) : List ℤ :=
  match new.find key with
  | some c => inserted old new c.id st
  | none => []

/-- the accounts hold, of some history -/
def Accounted (db : DB) : Prop := ∃ hist, Accounts db hist

theorem accounted_step {st : Store} (h : Accounted st.db) (o : Op) : Accounted (LogStore.step st o).db := by
  obtain ⟨hist, ha⟩ := h
  exact ⟨_, step_accounts (g := ⟨st, hist⟩) ha o⟩

theorem wmAt_of_find_none {db : DB} {key : GenKey} (h : db.find key = none) (st : Stream) : wmAt db key st = 0 := by
  simp [wmAt, h]

theorem wmAt_some {db : DB} {key : GenKey} {c : ContainerRow} (h : db.find key = some c) (st : Stream) :
    wmAt db key st = c.wm st := by
  simp [wmAt, h]

/-- **A write raises the marks to the lines it stores**, unless it deletes the row. -/
theorem wmAt_step {st : Store} (h : Accounted st.db) (o : Op) {key : GenKey}
    (hrow : (LogStore.step st o).db.find key = none → st.db.find key = none) (strm : Stream) :
    wmAt (LogStore.step st o).db key strm =
      max (wmAt st.db key strm) (top (storedNow st.db (LogStore.step st o).db key strm)) := by
  obtain ⟨hist, ha⟩ := h
  have ha' : Accounts (LogStore.step st o).db (record st.db (LogStore.step st o).db hist) :=
    step_accounts (g := ⟨st, hist⟩) ha o
  cases hnew : (LogStore.step st o).db.find key with
  | none => simp [wmAt, storedNow, hnew, hrow hnew, top]
  | some c' =>
    obtain ⟨hc', hkey'⟩ := find_mem hnew
    rw [wmAt_some hnew, ha'.wm c' hc' strm, record, top_append]
    congr 1
    · cases hold : st.db.find key with
      | none =>
        rw [wmAt_of_find_none hold, if_neg]
        · rfl
        · rintro ⟨c, hc, hid⟩
          exact find_none hold c hc (((same_row ha.toWellFormed o hc hc').1 hid.symm).symm.trans hkey')
      | some c =>
        obtain ⟨hc, hkey⟩ := find_mem hold
        have hid : c'.id = c.id := (same_row ha.toWellFormed o hc hc').2 (hkey'.trans hkey.symm)
        rw [wmAt_some hold, hid, if_pos ⟨c, hc, rfl⟩, ha.wm c hc strm]
    · simp [storedNow, hnew]

/-- only a purge deletes rows -/
theorem act_keepsRows {s : Sys} {a : Pipeline.Act} (ha : ∀ host name, a ≠ .purge host name) :
    KeepsRows s.store.db (s.act a).store.db := by
  by_cases hwr : Writes a
  swap
  · rw [store_act s hwr]
    exact fun _ _ hr => hr
  cases a with
  | flush nowMS ok =>
    rcases flush_cases s nowMS ok with e | e | ⟨store, hc, e⟩
    · rw [act, e]
      exact fun _ _ hr => hr
    · rw [act, e]
      exact fun _ _ hr => hr
    · rw [act, e]
      cases hq : commit s.store.dropInvalidated.db s.store.dropInvalidated.refs s.batch nowMS with
      | error err => simp [Store.tryCommit, hq] at hc
      | ok q =>
        simp only [Store.tryCommit, hq, Except.ok.injEq] at hc
        subst hc
        exact growChain_keepsRows (commit_grows hq)
  | sync info nowMS => exact growChain_keepsRows (.single (upsertMeta_grow _ _ _ _))
  | purge host name => exact absurd rfl (ha host name)
  | purgeFails host name =>
    show KeepsRows s.store.db (s.store.deleteContainerStep host name false).db
    rw [purgeFails_db]
    exact fun _ _ hr => hr
  | evict refs excess => exact fun id key hr => hasRow_of_map hr (evictRows_map _ (fun _ _ => rfl) _ _)
  | stampRemoved key nowMS => exact growChain_keepsRows (.single (.touch _ _ _ fun _ => rfl))
  | _ => exact hwr.elim

/-- an action writes to the store in one transaction, if at all -/
theorem act_store (s : Sys) (a : Pipeline.Act) :
    (s.act a).store = s.store ∨ ∃ o, (s.act a).store = LogStore.step s.store o := by
  by_cases hwr : Writes a
  swap
  · exact Or.inl (store_act s hwr)
  cases a with
  | flush nowMS ok =>
    rcases flush_cases s nowMS ok with e | e | ⟨store, hc, e⟩
    · exact Or.inl (by rw [act, e])
    · exact Or.inr ⟨.commitFails, by rw [act, e]; rfl⟩
    · refine Or.inr ⟨.commit s.batch nowMS, ?_⟩
      rw [act, e]
      simp [LogStore.step, Store.commitStep, hc]
  | sync info nowMS => exact Or.inr ⟨.upsertMeta (keyOf info) info nowMS, rfl⟩
  | purge host name => exact Or.inr ⟨.deleteContainer host name true, rfl⟩
  | purgeFails host name => exact Or.inr ⟨.deleteContainer host name false, rfl⟩
  | evict refs excess => exact Or.inr ⟨.evictOldest refs excess, rfl⟩
  | stampRemoved key nowMS => exact Or.inr ⟨.stampRemoved key nowMS, rfl⟩
  | _ => exact hwr.elim

theorem accounted_act {s : Sys} (h : Accounted s.store.db) (a : Pipeline.Act) : Accounted (s.act a).store.db := by
  rcases act_store s a with e | ⟨o, e⟩
  · rwa [e]
  · rw [e]
    exact accounted_step h o

theorem find_none_of_keepsRows {old new : DB} (h : KeepsRows old new) {key : GenKey} (hnone : new.find key = none) :
    old.find key = none := by
  cases hold : old.find key with
  | none => rfl
  | some c =>
    obtain ⟨hc, hkey⟩ := find_mem hold
    obtain ⟨c', hc', -, hkey'⟩ := h c.id c.key ⟨c, hc, rfl, rfl⟩
    exact absurd (hkey'.trans hkey) (find_none hnone c' hc')

theorem inserted_refl (db : DB) (id : ℕ) (st : Stream) : inserted db db id st = [] :=
  inserted_of_subset (List.Subset.refl _) id st

theorem wmAt_nonneg {db : DB} (h : Accounted db) (key : GenKey) (st : Stream) : 0 ≤ wmAt db key st := by
  obtain ⟨hist, ha⟩ := h
  cases hf : db.find key with
  | none => rw [wmAt_of_find_none hf]
  | some c =>
    rw [wmAt_some hf, ha.wm c (find_mem hf).1 st]
    exact top_nonneg _

/-- **An action raises the marks to the lines it stores**, unless it is a purge. -/
theorem wmAt_act {s : Sys} (h : Accounted s.store.db) {a : Pipeline.Act} (ha : ∀ host name, a ≠ .purge host name)
    (key : GenKey) (strm : Stream) :
    wmAt (s.act a).store.db key strm =
      max (wmAt s.store.db key strm) (top (storedNow s.store.db (s.act a).store.db key strm)) := by
  have hrow : (s.act a).store.db.find key = none → s.store.db.find key = none :=
    find_none_of_keepsRows (act_keepsRows ha)
  rcases act_store s a with e | ⟨o, e⟩
  · have hnil : top (storedNow s.store.db s.store.db key strm) = 0 := by
      unfold storedNow
      split
      · rw [inserted_refl]
        rfl
      · rfl
    rw [e, hnil, max_eq_left (wmAt_nonneg h key strm)]
  · rw [e] at hrow ⊢
    exact wmAt_step h o hrow strm

/-! ## Gaps -/

/-- the gap is the timestamp of the oldest of these lines -/
def Earliest (gap : Option ℤ) (ts : List ℤ) : Prop :=
  match gap with
  | none => ts = []
  | some t => t ∈ ts ∧ ∀ t' ∈ ts, t ≤ t'

theorem earliest_markGap {gaps : Gaps} {key : GenKey} {ts : List ℤ} (h : Earliest (gaps key) ts) (key' : GenKey)
    (t : ℤ) : Earliest (markGap gaps key' t key) (ts ++ if key' = key then [t] else []) := by
  by_cases hk : key' = key
  · subst hk
    rw [if_pos rfl]
    unfold markGap
    cases hg : gaps key' with
    | none =>
      rw [hg] at h
      obtain rfl : ts = [] := h
      simp [Earliest]
    | some earliest =>
      rw [hg] at h
      obtain ⟨hmem, hmin⟩ := h
      dsimp only
      split_ifs with hlt
      · rw [Function.update_self]
        refine ⟨List.mem_append_right _ (List.mem_singleton_self t), fun t' ht' => ?_⟩
        rcases List.mem_append.1 ht' with ht' | ht'
        · exact hlt.le.trans (hmin t' ht')
        · exact (List.mem_singleton.1 ht').ge
      · rw [hg]
        refine ⟨List.mem_append_left _ hmem, fun t' ht' => ?_⟩
        rcases List.mem_append.1 ht' with ht' | ht'
        · exact hmin t' ht'
        · exact (List.mem_singleton.1 ht') ▸ not_lt.1 hlt
  · rw [if_neg hk, List.append_nil]
    have hsame : markGap gaps key' t key = gaps key := by
      unfold markGap
      cases hg : gaps key' with
      | none => exact Function.update_of_ne (Ne.symm hk) _ _
      | some earliest =>
        dsimp only
        split_ifs
        · exact Function.update_of_ne (Ne.symm hk) _ _
        · rfl
    rwa [hsame]

/-- the timestamps of the lines of a generation among the losses -/
def timesOf (lost : List Loss) (key : GenKey) : List ℤ := (lost.filter fun x => x.key = key).map fun x => x.line.tsNS

theorem earliest_markBatchGaps {gaps : Gaps} {key : GenKey} {ts : List ℤ} (h : Earliest (gaps key) ts)
    (batch : List IngestMsg) (clock : ℕ) :
    Earliest (markBatchGaps gaps batch key) (ts ++ timesOf (lossesOf batch clock) key) := by
  induction batch generalizing gaps ts with
  | nil => simpa [timesOf, lossesOf, markBatchGaps] using h
  | cons m batch ih =>
    rw [markBatchGaps, List.foldl_cons]
    cases hb : m.body with
    | done reason =>
      have hl : lossesOf (m :: batch) clock = lossesOf batch clock := by simp [lossesOf, hb]
      rw [hl]
      exact ih h
    | line l =>
      have hl : lossesOf (m :: batch) clock = ⟨m.key, l, clock⟩ :: lossesOf batch clock := by simp [lossesOf, hb]
      have hts : timesOf (lossesOf (m :: batch) clock) key =
          (if m.key = key then [l.tsNS] else []) ++ timesOf (lossesOf batch clock) key := by
        rw [hl, timesOf, List.filter_cons]
        by_cases hk : m.key = key
        · simp [hk, timesOf]
        · simp [hk, timesOf]
      rw [hts, ← List.append_assoc]
      exact ih (earliest_markGap h m.key l.tsNS)

/-- the lines an action loses -/
def lostNow (s : Sys) (a : Pipeline.Act) : List Loss :=
  match a with
  | .deliver | .flush _ _ => (s.act a).lost.drop s.lost.length
  | _ => []

/-- dropping a line, or a batch, marks the gap; no other action does but a report and a purge -/
theorem earliest_act {s : Sys} {a : Pipeline.Act} {key : GenKey} {ts : List ℤ} (h : Earliest (s.gaps key) ts)
    (hhandle : ∀ k, a ≠ .handle k) (hpurge : ∀ host name, a ≠ .purge host name ∧ a ≠ .purgeFails host name) :
    Earliest ((s.act a).gaps key) (ts ++ timesOf (lostNow s a) key) := by
  have hsame : ∀ {s' : Sys}, s'.gaps = s.gaps → s'.lost = s.lost →
      Earliest (s'.gaps key) (ts ++ timesOf (s'.lost.drop s.lost.length) key) := by
    intro s' hg hl
    rw [hg, hl, List.drop_length]
    simpa [timesOf] using h
  cases a with
  | deliver =>
    simp only [lostNow, act]
    rcases deliver_cases s with e | ⟨r, rest, -, e⟩
    · rw [e]
      exact hsame rfl rfl
    · rw [e]
      rcases sink_cases { s with hub := rest } r with e | e
      · rw [e]
        exact hsame rfl rfl
      · rw [e]
        simp only [List.drop_left]
        have hts : timesOf [⟨r.key, r.line, s.clock⟩] key = if r.key = key then [r.line.tsNS] else [] := by
          by_cases hk : r.key = key
          · simp [timesOf, hk]
          · simp [timesOf, hk]
        rw [hts]
        exact earliest_markGap h r.key r.line.tsNS
  | flush nowMS ok =>
    simp only [lostNow, act]
    rcases flush_cases s nowMS ok with e | e | ⟨store, -, e⟩
    · rw [e]
      exact hsame rfl rfl
    · rw [e]
      simp only [rollback, List.drop_left]
      exact earliest_markBatchGaps h s.batch s.clock
    · rw [e]
      exact hsame rfl rfl
  | handle k => exact absurd rfl (hhandle k)
  | purge host name => exact absurd rfl (hpurge host name).1
  | purgeFails host name => exact absurd rfl (hpurge host name).2
  | _ =>
    rw [(act_untouched s _).gaps rfl]
    simpa [lostNow, timesOf] using h

end LogDeck.Marks
