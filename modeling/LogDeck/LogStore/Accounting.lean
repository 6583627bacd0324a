/-
The accounts of the store: what `stored_bytes` and the watermarks say about the lines.

- `WellFormed`: the keys of both tables are unique, every line's reference resolves, and no two lines of a row have the
  same (ts, stream, raw).
- `Accounts`: besides, `stored_bytes` is the sum of the bytes stored under the row, and each stream's watermark is the
  largest timestamp ever inserted under it (0 when there is none or when all are negative).

The history of inserted timestamps is a ghost: `record` reads it off the two databases around a step. It starts afresh
when a row id is handed out again.

Results:
- `Grow.accounts`, `Shrink.accounts`: each of the six writes keeps the accounts;
- `accounts_invariant`: they hold in every reachable state, and no watermark ever decreases.
-/
import LogDeck.LogStore.Runs

namespace LogDeck.LogStore

open Relation (ReflTransGen)

theorem nodup_snoc {α : Type} {a : α} {l : List α} (ha : a ∉ l) (h : l.Nodup) : (l ++ [a]).Nodup := by
  rw [← List.concat_eq_append]
  exact h.concat ha

/-! ## Well-formed databases -/

structure WellFormed (db : DB) : Prop where
  ids : (db.containers.map fun c => c.id).Nodup
  keys : (db.containers.map fun c => c.key).Nodup
  rowids : (db.lines.map fun l => l.rowid).Nodup
  fk : ∀ l ∈ db.lines, db.HasRef l.ref
  distinct : (db.lines.map fun l => (l.ref, l.line.ident)).Nodup

theorem wellFormed_empty : WellFormed .empty := by
  constructor <;> simp [DB.empty]

namespace WellFormed

variable {db : DB} (h : WellFormed db)

include h

theorem nodup : db.lines.Nodup := h.rowids.of_map

theorem row_eq_of_id {c c' : ContainerRow} (hc : c ∈ db.containers) (hc' : c' ∈ db.containers) (e : c.id = c'.id) :
    c = c' := List.inj_on_of_nodup_map h.ids hc hc' e

theorem row_eq_of_key {c c' : ContainerRow} (hc : c ∈ db.containers) (hc' : c' ∈ db.containers) (e : c.key = c'.key) :
    c = c' := List.inj_on_of_nodup_map h.keys hc hc' e

theorem find_eq {c : ContainerRow} (hc : c ∈ db.containers) : db.find c.key = some c := by
  cases hf : db.find c.key with
  | none => exact absurd rfl (find_none hf c hc)
  | some c' =>
    obtain ⟨hm, hk⟩ := find_mem hf
    rw [h.row_eq_of_key hm hc hk]

theorem line_eq_of_rowid {l l' : LineRow} (hl : l ∈ db.lines) (hl' : l' ∈ db.lines) (e : l.rowid = l'.rowid) :
    l = l' := List.inj_on_of_nodup_map h.rowids hl hl' e

end WellFormed

/-- a row after an update has the account of a row before it -/
theorem account_updateWhere {db : DB} {p : ContainerRow → Prop} [DecidablePred p] {f : ContainerRow → ContainerRow}
    (hf : ∀ c, (f c).account = c.account) {c : ContainerRow} (hc : c ∈ (db.updateWhere p f).containers) :
    ∃ c₀ ∈ db.containers, c.account = c₀.account := by
  obtain ⟨c₀, h₀, rfl⟩ := mem_updateWhere.1 hc
  refine ⟨c₀, h₀, ?_⟩
  split_ifs
  · exact hf c₀
  · rfl

theorem map_account {α : Type} (g : ContainerRow → α) (hg : ∀ c c', c.account = c'.account → g c = g c') {db : DB}
    {p : ContainerRow → Prop} [DecidablePred p] {f : ContainerRow → ContainerRow}
    (hf : ∀ c, (f c).account = c.account) :
    (db.updateWhere p f).containers.map g = db.containers.map g :=
  map_updateWhere g fun c _ => hg _ _ (hf c)

theorem account_id {c c' : ContainerRow} (h : c.account = c'.account) : c.id = c'.id := congrArg (·.1) h

theorem account_key {c c' : ContainerRow} (h : c.account = c'.account) : c.key = c'.key := congrArg (·.2.1) h

theorem account_bytes {c c' : ContainerRow} (h : c.account = c'.account) : c.storedBytes = c'.storedBytes :=
  congrArg (·.2.2.1) h

theorem account_wm {c c' : ContainerRow} (h : c.account = c'.account) (st : Stream) : c.wm st = c'.wm st := by
  cases st
  · exact congrArg (·.2.2.2.1) h
  · exact congrArg (·.2.2.2.2) h

/-! ### A stored line -/

@[simp] theorem storeLine_lines (db : DB) (ref : ℕ) (l : Line) (origin : GenKey) (nowMS : ℤ) :
    (storeLine db ref l origin nowMS).lines =
      db.lines ++ [⟨nextRowid (db.lines.map fun r => r.rowid), ref, l, origin⟩] := rfl

theorem storeLine_map {α : Type} (g : ContainerRow → α) (hg : ∀ c a nowMS, g (c.credit a nowMS) = g c) (db : DB)
    (ref : ℕ) (l : Line) (origin : GenKey) (nowMS : ℤ) :
    (storeLine db ref l origin nowMS).containers.map g = db.containers.map g :=
  map_updateWhere g fun c _ => hg c _ _

theorem storeLine_hasRef (db : DB) (ref : ℕ) (l : Line) (origin : GenKey) (nowMS : ℤ) (r : ℕ) :
    (storeLine db ref l origin nowMS).HasRef r ↔ db.HasRef r :=
  hasRef_congr (storeLine_map _ (fun _ _ _ => rfl) db ref l origin nowMS) r

theorem mem_storeLine {db : DB} {ref : ℕ} {l : Line} {origin : GenKey} {nowMS : ℤ} {c : ContainerRow} :
    c ∈ (storeLine db ref l origin nowMS).containers ↔
      ∃ c₀ ∈ db.containers, c = if c₀.id = ref then c₀.credit (({} : Agg).add l) nowMS else c₀ :=
  mem_updateWhere

/-! ### The writes keep the database well formed -/

theorem Grow.hasRef {db db' : DB} (hg : Grow db db') {r : ℕ} (h : db.HasRef r) : db'.HasRef r := by
  cases hg with
  | touch p f hf => exact (hasRef_updateWhere (fun c => account_id (hf c)) r).2 h
  | insert c _ _ _ _ =>
    obtain ⟨c', hc', e⟩ := h
    exact ⟨c', List.mem_append_left _ hc', e⟩
  | store ref l origin nowMS _ _ => exact (storeLine_hasRef db ref l origin nowMS r).2 h

theorem Grow.wellFormed {db db' : DB} (hg : Grow db db') (h : WellFormed db) : WellFormed db' := by
  cases hg with
  | touch p f hf =>
    refine { ids := ?_, keys := ?_, rowids := h.rowids, fk := ?_, distinct := h.distinct }
    · rw [map_account _ (fun _ _ => account_id) hf]; exact h.ids
    · rw [map_account _ (fun _ _ => account_key) hf]; exact h.keys
    · intro l hl; exact (hasRef_updateWhere (fun c => account_id (hf c)) _).2 (h.fk l hl)
  | insert c hid hkey _ _ =>
    refine { ids := ?_, keys := ?_, rowids := h.rowids, fk := ?_, distinct := h.distinct }
    · simp only [List.map_append, List.map_cons, List.map_nil]
      exact nodup_snoc (hid ▸ nextRowid_notMem _) h.ids
    · simp only [List.map_append, List.map_cons, List.map_nil]
      refine nodup_snoc (fun hm => ?_) h.keys
      obtain ⟨c', hc', e⟩ := List.mem_map.1 hm
      exact hkey c' hc' e
    · intro l hl
      obtain ⟨c', hc', e⟩ := h.fk l hl
      exact ⟨c', List.mem_append_left _ hc', e⟩
  | store ref l origin nowMS hnew href =>
    refine { ids := ?_, keys := ?_, rowids := ?_, fk := ?_, distinct := ?_ }
    · rw [storeLine_map _ fun _ _ _ => rfl]; exact h.ids
    · rw [storeLine_map _ fun _ _ _ => rfl]; exact h.keys
    · simp only [storeLine_lines, List.map_append, List.map_cons, List.map_nil]
      exact nodup_snoc (nextRowid_notMem _) h.rowids
    · intro r hr
      rw [storeLine_lines, List.mem_append, List.mem_singleton] at hr
      rw [storeLine_hasRef]
      rcases hr with hr | rfl
      · exact h.fk r hr
      · exact href
    · simp only [storeLine_lines, List.map_append, List.map_cons, List.map_nil]
      refine nodup_snoc (fun hm => hnew ?_) h.distinct
      obtain ⟨r, hr, e⟩ := List.mem_map.1 hm
      simp only [Prod.mk.injEq] at e
      exact ⟨r, hr, e.1, e.2⟩

/-- a database with a part of the rows and a part of the lines, whose references still resolve -/
theorem WellFormed.of_sublist {db db' : DB} (h : WellFormed db)
    (hid : (db'.containers.map fun c => c.id).Sublist (db.containers.map fun c => c.id))
    (hkey : (db'.containers.map fun c => c.key).Sublist (db.containers.map fun c => c.key))
    (hl : db'.lines.Sublist db.lines) (hr : ∀ l ∈ db'.lines, db'.HasRef l.ref) : WellFormed db' where
  ids := h.ids.sublist hid
  keys := h.keys.sublist hkey
  rowids := h.rowids.sublist (hl.map _)
  fk := hr
  distinct := h.distinct.sublist (hl.map _)

theorem evictRows_map {α : Type} (g : ContainerRow → α) (hg : ∀ c b, g { c with storedBytes := b } = g c) (db : DB)
    (vs : List LineRow) : (db.evictRows vs).containers.map g = db.containers.map g := by
  simp only [DB.evictRows, List.map_map]
  refine List.map_congr_left fun c _ => ?_
  simp only [Function.comp]
  split_ifs
  · exact hg _ _
  · rfl

theorem evictRows_hasRef (db : DB) (vs : List LineRow) (r : ℕ) : (db.evictRows vs).HasRef r ↔ db.HasRef r :=
  hasRef_congr (evictRows_map _ (fun _ _ => rfl) db vs) r

theorem Shrink.wellFormed {db db' : DB} (hs : Shrink db db') (h : WellFormed db) : WellFormed db' := by
  cases hs with
  | evict vs _ _ =>
    refine h.of_sublist ?_ ?_ List.filter_sublist fun l hl => ?_
    · rw [evictRows_map _ fun _ _ => rfl]
    · rw [evictRows_map _ fun _ _ => rfl]
    · exact (evictRows_hasRef db vs _).2 (h.fk l (List.mem_filter.1 hl).1)
  | purge refs =>
    refine h.of_sublist (List.filter_sublist.map _) (List.filter_sublist.map _) List.filter_sublist fun l hl => ?_
    obtain ⟨hl, hr⟩ := List.mem_filter.1 hl
    obtain ⟨c, hc, e⟩ := h.fk l hl
    exact ⟨c, List.mem_filter.2 ⟨hc, e ▸ hr⟩, e⟩
  | prune =>
    refine h.of_sublist (List.filter_sublist.map _) (List.filter_sublist.map _) (.refl _) fun l hl => ?_
    obtain ⟨c, hc, e⟩ := h.fk l hl
    refine ⟨c, List.mem_filter.2 ⟨hc, ?_⟩, e⟩
    simp only [decide_eq_true_eq]
    exact fun hE => hE.2 l hl e.symm

theorem growChain_wellFormed {db db' : DB} (h : ReflTransGen Grow db db') (hw : WellFormed db) : WellFormed db' := by
  induction h with
  | refl => exact hw
  | tail _ hg ih => exact hg.wellFormed ih

/-! ## Histories -/

/-- the timestamps ever inserted, per row and stream -/
abbrev History := ℕ → Stream → List ℤ

/-- the largest timestamp, and 0 at least -/
def top (ts : List ℤ) : ℤ := ts.foldr max 0

theorem top_nonneg (ts : List ℤ) : 0 ≤ top ts := by
  induction ts with
  | nil => exact le_rfl
  | cons x ts ih => exact le_max_of_le_right ih

theorem top_append (a b : List ℤ) : top (a ++ b) = max (top a) (top b) := by
  induction a with
  | nil => exact (max_eq_right (top_nonneg b)).symm
  | cons x a ih =>
    simp only [List.cons_append, top, List.foldr_cons] at ih ⊢
    rw [ih, max_assoc]

theorem le_top {ts : List ℤ} {t : ℤ} (h : t ∈ ts) : t ≤ top ts := by
  induction ts with
  | nil => cases h
  | cons x ts ih =>
    rcases List.mem_cons.1 h with rfl | h
    · exact le_max_left _ _
    · exact (ih h).trans (le_max_right _ _)

/-- the timestamps that a step inserted under a row -/
def inserted (old new : DB) (id : ℕ) (st : Stream) : List ℤ :=
  (new.lines.filter fun l => l.rowid ∉ old.lines.map (fun l => l.rowid) ∧ l.ref = id ∧ l.line.stream = st).map
    fun l => l.line.tsNS

/-- a row's history goes on while the row exists and starts afresh with a new row -/
def record (old new : DB) (h : History) : History := fun id st =>
  (if old.HasRef id then h id st else []) ++ inserted old new id st

/-- a step that adds no line adds nothing to the histories -/
theorem inserted_of_subset {old new : DB} (h : new.lines ⊆ old.lines) (id : ℕ) (st : Stream) :
    inserted old new id st = [] := by
  simp only [inserted, List.map_eq_nil_iff, List.filter_eq_nil_iff, decide_eq_true_eq]
  intro l hl hc
  exact hc.1 (List.mem_map_of_mem (h hl))

theorem record_of_subset {old new : DB} (h : new.lines ⊆ old.lines) (hist : History) (id : ℕ) (st : Stream) :
    record old new hist id st = if old.HasRef id then hist id st else [] := by
  simp [record, inserted_of_subset h]

theorem inserted_storeLine (db : DB) (ref : ℕ) (l : Line) (origin : GenKey) (nowMS : ℤ) (id : ℕ) (st : Stream) :
    inserted db (storeLine db ref l origin nowMS) id st = if ref = id ∧ l.stream = st then [l.tsNS] else [] := by
  have hold : db.lines.filter (fun r => decide (r.rowid ∉ db.lines.map (fun l => l.rowid) ∧ r.ref = id ∧
      r.line.stream = st)) = [] := by
    simp only [List.filter_eq_nil_iff, decide_eq_true_eq]
    intro r hr hc
    exact hc.1 (List.mem_map_of_mem hr)
  have hnew := nextRowid_notMem (db.lines.map fun r => r.rowid)
  simp only [inserted, storeLine_lines, List.filter_append, hold, List.nil_append, List.filter_cons, List.filter_nil,
    hnew, not_false_eq_true, true_and, decide_eq_true_eq]
  split_ifs <;> rfl

/-! ## The accounts -/

structure Accounts (db : DB) (hist : History) : Prop extends WellFormed db where
  bytes : ∀ c ∈ db.containers, c.storedBytes = db.bytesOf c.id
  wm : ∀ c ∈ db.containers, ∀ st, c.wm st = top (hist c.id st)
  seen : ∀ l ∈ db.lines, l.line.tsNS ∈ hist l.ref l.line.stream

theorem accounts_empty (hist : History) : Accounts .empty hist :=
  { wellFormed_empty with bytes := by simp [DB.empty], wm := by simp [DB.empty], seen := by simp [DB.empty] }

theorem credit_wm (c : ContainerRow) (l : Line) (nowMS : ℤ) (st : Stream) (h0 : 0 ≤ c.wm st) :
    (c.credit (({} : Agg).add l) nowMS).wm st = max (c.wm st) (if l.stream = st then max 0 l.tsNS else 0) := by
  cases st <;> cases hs : l.stream <;> simp [ContainerRow.credit, ContainerRow.wm, Agg.add, hs]

theorem bytesOf_storeLine (db : DB) (ref : ℕ) (l : Line) (origin : GenKey) (nowMS : ℤ) (id : ℕ) :
    (storeLine db ref l origin nowMS).bytesOf id = db.bytesOf id + if ref = id then l.size else 0 := by
  simp only [DB.bytesOf, DB.linesOf, storeLine_lines, List.filter_append, List.map_append, List.sum_append,
    List.filter_cons, List.filter_nil, decide_eq_true_eq]
  split_ifs <;> simp

theorem bytesOf_of_no_ref {db : DB} {id : ℕ} (h : ∀ l ∈ db.lines, l.ref ≠ id) : db.bytesOf id = 0 := by
  have : db.linesOf id = [] := by
    simp only [DB.linesOf, List.filter_eq_nil_iff, decide_eq_true_eq]
    exact h
  simp [DB.bytesOf, this]

theorem Grow.accounts {db db' : DB} {hist : History} (hg : Grow db db') (h : Accounts db hist) :
    Accounts db' (record db db' hist) := by
  have hw := hg.wellFormed h.toWellFormed
  cases hg with
  | touch p f hf =>
    have hsub : (db.updateWhere p f).lines ⊆ db.lines := List.Subset.refl _
    have hrec := record_of_subset hsub hist
    refine { hw with bytes := fun c hc => ?_, wm := fun c hc st => ?_, seen := fun l hl => ?_ }
    · obtain ⟨c₀, h₀, e⟩ := account_updateWhere hf hc
      rw [account_bytes e, account_id e]; exact h.bytes c₀ h₀
    · obtain ⟨c₀, h₀, e⟩ := account_updateWhere hf hc
      rw [account_wm e, account_id e, hrec, if_pos ⟨c₀, h₀, rfl⟩]; exact h.wm c₀ h₀ st
    · rw [hrec, if_pos (h.fk l hl)]; exact h.seen l hl
  | insert c hid hkey hbytes hwm =>
    have hsub : { db with containers := db.containers ++ [c] }.lines ⊆ db.lines := List.Subset.refl _
    have hrec := record_of_subset hsub hist
    have hno : ¬ db.HasRef c.id := by rw [hid, hasRef_iff_mem]; exact nextRowid_notMem _
    refine { hw with bytes := fun c' hc' => ?_, wm := fun c' hc' st => ?_, seen := fun l hl => ?_ }
    · rcases List.mem_append.1 hc' with hc' | hc'
      · exact h.bytes c' hc'
      · obtain rfl := List.mem_singleton.1 hc'
        rw [hbytes]
        refine (bytesOf_of_no_ref fun l hl e => hno ?_).symm
        rw [← e]; exact h.fk l hl
    · rw [hrec]
      rcases List.mem_append.1 hc' with hc' | hc'
      · rw [if_pos ⟨c', hc', rfl⟩]; exact h.wm c' hc' st
      · obtain rfl := List.mem_singleton.1 hc'
        rw [if_neg hno, hwm]; rfl
    · rw [hrec, if_pos (h.fk l hl)]; exact h.seen l hl
  | store ref l origin nowMS hnew href =>
    refine { hw with bytes := fun c hc => ?_, wm := fun c hc st => ?_, seen := fun r hr => ?_ }
    · obtain ⟨c₀, h₀, rfl⟩ := mem_storeLine.1 hc
      rw [bytesOf_storeLine]
      by_cases hc₀ : c₀.id = ref
      · subst hc₀
        have hs : ((({} : Agg).add l)).bytes = l.size := by cases hs : l.stream <;> simp [Agg.add, hs]
        simp [ContainerRow.credit, h.bytes c₀ h₀, hs]
      · rw [if_neg hc₀, if_neg (Ne.symm hc₀), add_zero]; exact h.bytes c₀ h₀
    · obtain ⟨c₀, h₀, rfl⟩ := mem_storeLine.1 hc
      have hid : (if c₀.id = ref then c₀.credit (({} : Agg).add l) nowMS else c₀).id = c₀.id := by split_ifs <;> rfl
      have htop : 0 ≤ c₀.wm st := by rw [h.wm c₀ h₀ st]; exact top_nonneg _
      have hr : db.HasRef c₀.id := ⟨c₀, h₀, rfl⟩
      simp only [hid, record, hr, if_true, inserted_storeLine, top_append, ← h.wm c₀ h₀ st]
      by_cases hc₀ : c₀.id = ref
      · rw [if_pos hc₀, credit_wm _ _ _ _ htop]
        by_cases hs : l.stream = st
        · simp [hc₀, hs, top, max_comm]
        · simp [hs, top]
      · simp [hc₀, Ne.symm hc₀, top, htop]
    · rw [storeLine_lines, List.mem_append, List.mem_singleton] at hr
      rw [record, inserted_storeLine, List.mem_append]
      rcases hr with hr | rfl
      · left; rw [if_pos (h.fk r hr)]; exact h.seen r hr
      · right; simp

/-! ### Evictions -/

/-- the lines with p that an eviction takes are the victims with p -/
theorem taken_perm {db : DB} (h : WellFormed db) {vs : List LineRow} (hsub : vs ⊆ db.lines) (hnd : vs.Nodup)
    (p : LineRow → Prop) [DecidablePred p] :
    ((db.lines.filter fun l => p l).filter fun l => l.rowid ∈ vs.map fun v => v.rowid).Perm
      (vs.filter fun l => p l) := by
  refine (List.perm_ext_iff_of_nodup ((h.nodup.filter _).filter _) (hnd.filter _)).2 fun l => ?_
  simp only [List.mem_filter, decide_eq_true_eq, List.mem_map]
  constructor
  · rintro ⟨⟨hl, hr⟩, v, hv, e⟩
    rw [← h.line_eq_of_rowid (hsub hv) hl e] at hr ⊢
    exact ⟨hv, hr⟩
  · rintro ⟨hv, hr⟩
    exact ⟨⟨hsub hv, hr⟩, l, hv, rfl⟩

theorem bytesWhere_evictRows {db : DB} (h : WellFormed db) {vs : List LineRow} (hsub : vs ⊆ db.lines) (hnd : vs.Nodup)
    (p : LineRow → Prop) [DecidablePred p] :
    (db.evictRows vs).bytesWhere p = db.bytesWhere p - freedBytes (vs.filter fun l => p l) := by
  have hsplit := ((List.filter_append_perm (fun l : LineRow => decide (l.rowid ∈ vs.map fun v => v.rowid))
    (db.lines.filter fun l => p l)).map fun l => l.line.size).sum_eq
  have htaken := ((taken_perm h hsub hnd p).map fun l => l.line.size).sum_eq
  have hleft : (db.evictRows vs).lines.filter (fun l => decide (p l)) =
      (db.lines.filter fun l => p l).filter fun l => !decide (l.rowid ∈ vs.map fun v => v.rowid) := by
    simp only [DB.evictRows, List.filter_filter]
    refine List.filter_congr fun l _ => ?_
    rw [Bool.and_comm, decide_not]
  rw [List.map_append, List.sum_append, htaken] at hsplit
  rw [DB.bytesWhere, hleft, DB.bytesWhere, freedBytes]
  omega

theorem bytesOf_evictRows {db : DB} (h : WellFormed db) {vs : List LineRow} (hsub : vs ⊆ db.lines) (hnd : vs.Nodup)
    (id : ℕ) : (db.evictRows vs).bytesOf id = db.bytesOf id - freedBytes (vs.filter fun l => l.ref = id) :=
  bytesWhere_evictRows h hsub hnd fun l => l.ref = id

theorem size_nonneg (l : Line) : 0 ≤ l.size := Int.natCast_nonneg _

theorem sum_size_nonneg (ls : List LineRow) : 0 ≤ (ls.map fun l => l.line.size).sum :=
  List.sum_nonneg fun x hx => by
    obtain ⟨l, -, rfl⟩ := List.mem_map.1 hx
    exact size_nonneg l.line

theorem bytesOf_nonneg (db : DB) (id : ℕ) : 0 ≤ db.bytesOf id := sum_size_nonneg _

theorem bytesOf_deleteRefs {db : DB} {refs : List ℕ} {id : ℕ} (h : id ∉ refs) :
    (db.deleteRefs refs).bytesOf id = db.bytesOf id := by
  have : (db.deleteRefs refs).linesOf id = db.linesOf id := by
    simp only [DB.linesOf, DB.deleteRefs, List.filter_filter]
    refine List.filter_congr fun l _ => ?_
    by_cases hl : l.ref = id
    · simp [hl, h]
    · simp [hl]
  rw [DB.bytesOf, this, DB.bytesOf]

theorem evictRows_account {db : DB} {vs : List LineRow} {c : ContainerRow} (hc : c ∈ (db.evictRows vs).containers) :
    ∃ c₀ ∈ db.containers, c.id = c₀.id ∧ (∀ st, c.wm st = c₀.wm st) ∧
      c.storedBytes = if c₀.id ∈ vs.map (fun l => l.ref) then
        max 0 (c₀.storedBytes - freedBytes (vs.filter fun l => l.ref = c₀.id)) else c₀.storedBytes := by
  simp only [DB.evictRows, List.mem_map] at hc
  obtain ⟨c₀, h₀, rfl⟩ := hc
  refine ⟨c₀, h₀, ?_⟩
  by_cases hv : c₀.id ∈ vs.map fun l => l.ref
  · rw [if_pos (by simpa using hv), if_pos hv]
    exact ⟨rfl, fun st => by cases st <;> rfl, rfl⟩
  · rw [if_neg (by simpa using hv), if_neg hv]
    exact ⟨rfl, fun _ => rfl, rfl⟩

theorem Shrink.lines_subset {db db' : DB} (hs : Shrink db db') : db'.lines ⊆ db.lines := by
  cases hs with
  | evict vs _ _ => exact List.filter_subset_self _
  | purge refs => exact List.filter_subset_self _
  | prune => exact List.Subset.refl _

theorem Shrink.accounts {db db' : DB} {hist : History} (hs : Shrink db db') (h : Accounts db hist) :
    Accounts db' (record db db' hist) := by
  have hw := hs.wellFormed h.toWellFormed
  have hrec := record_of_subset hs.lines_subset hist
  have hseen : ∀ l ∈ db'.lines, l.line.tsNS ∈ record db db' hist l.ref l.line.stream := fun l hl => by
    rw [hrec, if_pos (h.fk l (hs.lines_subset hl))]
    exact h.seen l (hs.lines_subset hl)
  cases hs with
  | evict vs hsub hnd =>
    refine { hw with bytes := fun c hc => ?_, wm := fun c hc st => ?_, seen := hseen }
    · obtain ⟨c₀, h₀, e, -, hb⟩ := evictRows_account hc
      have hb₀ := h.bytes c₀ h₀
      have hbytes := bytesOf_evictRows h.toWellFormed hsub hnd c₀.id
      rw [e, hb]
      split_ifs with hv
      · -- the clamp at 0 never bites: what is left of the row is a sum of sizes
        have := bytesOf_nonneg (db.evictRows vs) c₀.id
        omega
      · have hnone : vs.filter (fun l => decide (l.ref = c₀.id)) = [] := by
          simp only [List.filter_eq_nil_iff, decide_eq_true_eq]
          exact fun l hl e => hv (e ▸ List.mem_map_of_mem hl)
        rw [hbytes, hnone, hb₀]
        simp [freedBytes]
    · obtain ⟨c₀, h₀, e, hwm, -⟩ := evictRows_account hc
      rw [hrec, e, if_pos ⟨c₀, h₀, rfl⟩, hwm]
      exact h.wm c₀ h₀ st
  | purge refs =>
    refine { hw with bytes := fun c hc => ?_, wm := fun c hc st => ?_, seen := hseen }
    · obtain ⟨hc, hr⟩ := List.mem_filter.1 hc
      rw [bytesOf_deleteRefs (by simpa using hr)]
      exact h.bytes c hc
    · obtain ⟨hc, -⟩ := List.mem_filter.1 hc
      rw [hrec, if_pos ⟨c, hc, rfl⟩]
      exact h.wm c hc st
  | prune =>
    refine { hw with bytes := fun c hc => ?_, wm := fun c hc st => ?_, seen := hseen }
    · exact h.bytes c (List.mem_filter.1 hc).1
    · have hc := (List.mem_filter.1 hc).1
      rw [hrec, if_pos ⟨c, hc, rfl⟩]
      exact h.wm c hc st

/-! ## Runs -/

/-- the accounts are about the histories of the rows that exist -/
theorem Accounts.congr {db : DB} {hist hist' : History} (h : Accounts db hist)
    (e : ∀ id, db.HasRef id → ∀ st, hist' id st = hist id st) : Accounts db hist' :=
  { h with
    wm := fun c hc st => by rw [e c.id ⟨c, hc, rfl⟩]; exact h.wm c hc st
    seen := fun l hl => by rw [e l.ref (h.fk l hl)]; exact h.seen l hl }

theorem Grow.extends {db db' : DB} (hg : Grow db db') :
    ∃ added, db'.lines = db.lines ++ added ∧ ∀ l ∈ added, l.rowid ∉ db.lines.map fun l => l.rowid := by
  cases hg with
  | touch p f hf => exact ⟨[], (List.append_nil _).symm, by simp⟩
  | insert c _ _ _ _ => exact ⟨[], (List.append_nil _).symm, by simp⟩
  | store ref l origin nowMS _ _ =>
    refine ⟨_, storeLine_lines _ _ _ _ _, fun r hr => ?_⟩
    obtain rfl := List.mem_singleton.1 hr
    exact nextRowid_notMem _

theorem growChain_hasRef {db db' : DB} (h : ReflTransGen Grow db db') {r : ℕ} (hr : db.HasRef r) : db'.HasRef r := by
  induction h with
  | refl => exact hr
  | tail _ hg ih => exact hg.hasRef ih

theorem growChain_lines {db db' : DB} (h : ReflTransGen Grow db db') : db.lines ⊆ db'.lines := by
  induction h with
  | refl => exact List.Subset.refl _
  | tail _ hg ih =>
    obtain ⟨added, e, -⟩ := hg.extends
    rw [e]
    exact fun l hl => List.mem_append_left _ (ih hl)

theorem inserted_trans {db₀ db₁ db₂ : DB} (h : ReflTransGen Grow db₀ db₁) (hg : Grow db₁ db₂) (id : ℕ) (st : Stream) :
    inserted db₀ db₂ id st = inserted db₀ db₁ id st ++ inserted db₁ db₂ id st := by
  obtain ⟨added, e, hnew⟩ := hg.extends
  have hold : db₁.lines.filter (fun l => decide (l.rowid ∉ db₁.lines.map (fun l => l.rowid) ∧ l.ref = id ∧
      l.line.stream = st)) = [] := by
    simp only [List.filter_eq_nil_iff, decide_eq_true_eq]
    exact fun l hl hc => hc.1 (List.mem_map_of_mem hl)
  have hadd : added.filter (fun l => decide (l.rowid ∉ db₀.lines.map (fun l => l.rowid) ∧ l.ref = id ∧
      l.line.stream = st)) = added.filter fun l => decide (l.rowid ∉ db₁.lines.map (fun l => l.rowid) ∧ l.ref = id ∧
      l.line.stream = st) := by
    refine List.filter_congr fun l hl => ?_
    have h₀ : l.rowid ∉ db₀.lines.map fun l => l.rowid := fun hm => by
      obtain ⟨r, hr, e⟩ := List.mem_map.1 hm
      exact hnew l hl (List.mem_map.2 ⟨r, growChain_lines h hr, e⟩)
    simp only [h₀, hnew l hl]
  simp only [inserted, e, List.filter_append, List.map_append, hold, hadd, List.nil_append]

theorem growChain_accounts {db db' : DB} {hist : History} (hc : ReflTransGen Grow db db') (h : Accounts db hist) :
    Accounts db' (record db db' hist) := by
  induction hc with
  | refl =>
    refine h.congr fun id hid st => ?_
    rw [record_of_subset (List.Subset.refl _), if_pos hid]
  | @tail db₁ db₂ hc hg ih =>
    refine (hg.accounts ih).congr fun id _ st => ?_
    rw [record, record, record, inserted_trans hc hg]
    by_cases h₁ : db₁.HasRef id
    · rw [if_pos h₁, List.append_assoc]
    · have h₀ : ¬ db.HasRef id := fun h₀ => h₁ (growChain_hasRef hc h₀)
      have hnil : inserted db db₁ id st = [] := by
        simp only [inserted, List.map_eq_nil_iff, List.filter_eq_nil_iff, decide_eq_true_eq]
        rintro l hl ⟨-, rfl, -⟩
        exact h₁ (ih.fk l hl)
      rw [if_neg h₁, if_neg h₀, hnil, List.nil_append]

/-- the store with the histories of its rows -/
structure Ledger where
  store : Store
  hist : History

def Ledger.init : Ledger := ⟨.init, fun _ _ => []⟩

def Ledger.step (g : Ledger) (o : Op) : Ledger :=
  ⟨LogStore.step g.store o, record g.store.db (LogStore.step g.store o).db g.hist⟩

/-- the ghost histories do not influence the store -/
theorem Ledger.run_store (g : Ledger) (ops : List Op) :
    (Machine.run Ledger.step g ops).store = Machine.run LogStore.step g.store ops := by
  induction ops generalizing g with
  | nil => rfl
  | cons o ops ih => exact ih (g.step o)

theorem step_accounts {g : Ledger} (h : Accounts g.store.db g.hist) (o : Op) :
    Accounts (g.step o).store.db (g.step o).hist := by
  rcases step_db g.store o h.nodup with hc | hs
  · exact growChain_accounts hc h
  · exact hs.accounts h

theorem run_accounts {g : Ledger} (h : Accounts g.store.db g.hist) (ops : List Op) :
    Accounts (Machine.run Ledger.step g ops).store.db (Machine.run Ledger.step g ops).hist := by
  induction ops generalizing g with
  | nil => exact h
  | cons o ops ih => exact ih (step_accounts h o)

/-- well-formedness, for the runs in which the histories play no role -/
theorem step_wellFormed {s : Store} (h : WellFormed s.db) (o : Op) : WellFormed (step s o).db := by
  rcases step_db s o h.nodup with hc | hs
  · exact growChain_wellFormed hc h
  · exact hs.wellFormed h

theorem wm_le_of_step {g : Ledger} (h : Accounts g.store.db g.hist) (o : Op) {c c' : ContainerRow}
    (hc : c ∈ g.store.db.containers) (hc' : c' ∈ (step g.store o).db.containers) (e : c'.id = c.id) (st : Stream) :
    c.wm st ≤ c'.wm st := by
  rw [h.wm c hc st, (step_accounts h o).wm c' hc' st, e]
  simp only [Ledger.step, record]
  rw [if_pos ⟨c, hc, rfl⟩, top_append]
  exact le_max_left _ _

/-- **The accounts of the store.** In every reachable state, `stored_bytes` of every row is the bytes of exactly the
lines stored under it; no two lines of a row have the same timestamp, stream and raw text; each stream's watermark is
the largest timestamp ever inserted under the row (0 at least), so it is at least every stored timestamp, and no step
from there lowers it; and every line's reference names a row. -/
theorem accounts_invariant (ops : List Op) :
    let g := Machine.run Ledger.step Ledger.init ops
    let db := g.store.db
    (∀ c ∈ db.containers, c.storedBytes = ((db.lines.filter fun l => l.ref = c.id).map fun l => l.line.size).sum) ∧
    (db.lines.map fun l => (l.ref, l.line.tsNS, l.line.stream, l.line.raw)).Nodup ∧
    (∀ c ∈ db.containers, ∀ st, c.wm st = top (g.hist c.id st)) ∧
    (∀ c ∈ db.containers, ∀ l ∈ db.lines, l.ref = c.id → l.line.tsNS ≤ c.wm l.line.stream) ∧
    (∀ o, ∀ c ∈ db.containers, ∀ c' ∈ (step g.store o).db.containers, c'.id = c.id → ∀ st, c.wm st ≤ c'.wm st) ∧
    ∀ l ∈ db.lines, ∃ c ∈ db.containers, c.id = l.ref := by
  intro g db
  have h : Accounts db g.hist := run_accounts (accounts_empty _) ops
  refine ⟨h.bytes, h.distinct, h.wm, fun c hc l hl e => ?_, fun o c hc c' hc' e st => wm_le_of_step h o hc hc' e st,
    h.fk⟩
  rw [h.wm c hc, ← e]
  exact le_top (h.seen l hl)

end LogDeck.LogStore
