/-
The history query against the grouping of the whole window.

The query groups round by round and holds the oldest group of a round on. A round that ends inside an entry breaks it
when a stack-trace line without `key: value` form has already been read: such a line needs the level of the entry's first
line, which the round does not hold.

Results:
- `scanLoop_pieces`: a page is cut from the pieces that its rounds make of the rows before its start;
- `query_refines_reference`: the pages put together are the reference exactly when every page shows what it should;
- `chunk_splits_trace`: a stack trace of four lines, read with page limit 1, comes back as two entries.
-/
import Mathlib.Logic.Relation
import LogDeck.LogStore.Reference

namespace LogDeck.LogStore

open LogDeck.Models HeadGroup

/-! ## One page -/

/-- what a filter keeps of the groups -/
def hit (t : Text) (m : Matcher) (g : List StoredRow) : Bool := m.matches t (mergeRows g)

theorem matches_inactive {t : Text} {m : Matcher} (h : m.active = false) (e : LogEntry) : m.matches t e = true := by
  simp only [Matcher.active, Bool.or_eq_false_iff, decide_eq_false_iff_not, ne_eq, not_not, Option.isSome_eq_false_iff,
    Option.isNone_iff_eq_none] at h
  simp [Matcher.«matches», h.1.1, h.1.2, h.2]

theorem keep_groups (t : Text) (m : Matcher) (gs : List (List StoredRow)) :
    keep t m (gs.map mergeRows) (gs.map firstPos) =
      ((gs.filter (hit t m)).map mergeRows, (gs.filter (hit t m)).map firstPos) := by
  unfold keep
  cases ha : m.active with
  | false =>
    have hall : gs.filter (hit t m) = gs := List.filter_eq_self.2 fun g _ => matches_inactive ha _
    rw [hall]
    rfl
  | true =>
    rw [if_pos rfl, List.zip_map', List.filter_map, List.unzip_eq_map]
    simp only [List.map_map]
    rfl

section Static

variable {t : Text} {db : DB} {q : LogQuery} {gens : List Generation}

theorem windowRows_sorted (hdb : Snapshot db) : (windowRows db q).Pairwise fun a b => a.pos.Before b.pos :=
  List.pairwise_reverse.2 (newestFirst_sorted hdb.rowids)

theorem eq_of_mem_iff {as bs : List LineRow} (ha : as.Pairwise fun a b => a.pos.Before b.pos)
    (hb : bs.Pairwise fun a b => a.pos.Before b.pos) (h : ∀ r, r ∈ as ↔ r ∈ bs) : as = bs := by
  have hnodup : ∀ {ls : List LineRow}, ls.Pairwise (fun a b => a.pos.Before b.pos) → ls.Nodup := by
    intro ls hls
    refine hls.imp ?_
    rintro a _ hab rfl
    exact CursorPos.Before.irrefl a.pos hab
  have hperm := (List.perm_ext_iff_of_nodup (hnodup ha) (hnodup hb)).2 h
  exact hperm.eq_of_pairwise (fun a b _ _ h₁ h₂ => absurd h₂ h₁.asymm) ha hb

/-- the rows older than the position of a row of the window -/
theorem newestFirst_before (hdb : Snapshot db) {older newer : List LineRow} (h : windowRows db q = older ++ newer) :
    newestFirst db (Selected (generations db q.host q.container) q (newer.head?.map fun r => r.pos)) =
      older.reverse := by
  have hsorted := h ▸ windowRows_sorted (q := q) hdb
  obtain ⟨hold, -, hlt⟩ := List.pairwise_append.1 hsorted
  rw [← List.reverse_inj, List.reverse_reverse]
  refine eq_of_mem_iff (List.pairwise_reverse.2 (newestFirst_sorted hdb.rowids)) hold fun r => ?_
  have hwin : r ∈ windowRows db q ↔
      r ∈ db.lines ∧ Selected (generations db q.host q.container) q none r := by
    rw [windowRows, List.mem_reverse, mem_newestFirst]
  rw [List.mem_reverse, mem_newestFirst]
  constructor
  · rintro ⟨hr, h1, h2, h3, hb⟩
    have hmem := hwin.2 ⟨hr, h1, h2, h3, by simp⟩
    rw [h, List.mem_append] at hmem
    refine hmem.resolve_right fun hn => ?_
    obtain ⟨r₀, hr₀, -, hle⟩ := head_oldest (List.pairwise_append.1 hsorted).2.1 hn
    have hlt' := hb r₀.pos (by rw [hr₀]; rfl)
    rcases hle with rfl | hle
    · exact CursorPos.Before.irrefl _ hlt'
    · exact hle.asymm hlt'
  · intro hr
    obtain ⟨hdbr, h1, h2, h3, -⟩ := hwin.1 (h ▸ List.mem_append_left _ hr)
    refine ⟨hdbr, h1, h2, h3, fun p hp => ?_⟩
    obtain ⟨r₀, hr₀, rfl⟩ := Option.map_eq_some_iff.1 hp
    exact hlt r hr r₀ (List.mem_of_head? hr₀)

theorem scanRows_before (hdb : Snapshot db) {older newer : List LineRow} (h : windowRows db q = older ++ newer) (n : ℕ) :
    scanRows t db (generations db q.host q.container) q (newer.head?.map fun r => r.pos) n =
      (older.reverse.take n).map (storedRow t (generations db q.host q.container)) := by
  rw [scanRows, newestFirst_before hdb h]

end Static

/-- the round that reads no further -/
theorem round_exhausted (t : Text) (m : Matcher) (s : Scan) (rows : List StoredRow) :
    (s.round t m rows true).entries =
        ((group Continues (s.carry ++ rows).reverse).filter (hit t m)).map mergeRows ++ s.entries ∧
      (s.round t m rows true).anchors =
        ((group Continues (s.carry ++ rows).reverse).filter (hit t m)).map firstPos ++ s.anchors := by
  obtain ⟨h1, h2, -⟩ := groupRows_eq (s.carry ++ rows)
  simp [Scan.round, h1, h2, keep_groups]

/-- a round that holds its oldest group back -/
theorem round_held (t : Text) (m : Matcher) (s : Scan) (rows : List StoredRow) {g : List StoredRow}
    {gs : List (List StoredRow)} (hg : group Continues (s.carry ++ rows).reverse = g :: gs) :
    (s.round t m rows false).carry.reverse = g ∧
      (s.round t m rows false).entries = (gs.filter (hit t m)).map mergeRows ++ s.entries ∧
      (s.round t m rows false).anchors = (gs.filter (hit t m)).map firstPos ++ s.anchors := by
  obtain ⟨h1, h2, h3⟩ := groupRows_eq (s.carry ++ rows)
  have hopen := h3 g gs hg
  rw [hg] at h1 h2
  simp [Scan.round, h1, h2, hopen, keep_groups]

/-! ## One page as pieces -/

/-- older entries change nothing of a page that is full without them -/
theorem newPage_append {limit : ℕ} (gs : List (List StoredRow)) {gs' : List (List StoredRow)} (h : limit < gs'.length) :
    newPage ((gs ++ gs').map mergeRows) ((gs ++ gs').map firstPos) limit =
      newPage (gs'.map mergeRows) (gs'.map firstPos) limit := by
  have hcut : (gs ++ gs').length - limit = gs.length + (gs'.length - limit) := by
    rw [List.length_append]
    omega
  have hlt : ¬ (gs ++ gs').length ≤ limit := by
    rw [List.length_append]
    omega
  have hdrop : ((gs ++ gs').map mergeRows).drop (gs.length + (gs'.length - limit)) =
      (gs'.map mergeRows).drop (gs'.length - limit) := by
    rw [List.map_append, ← List.drop_drop, List.drop_left' (List.length_map ..)]
  have hget : ((gs ++ gs').map firstPos)[gs.length + (gs'.length - limit)]? =
      (gs'.map firstPos)[gs'.length - limit]? := by
    rw [List.map_append, List.getElem?_append_right (by simp), List.length_map, Nat.add_sub_cancel_left]
  unfold newPage
  simp only [List.length_map, if_neg hlt, if_neg (not_le.2 h), hcut, hdrop, hget]

/-- what a page has read of the rows `older`, all that precede its start: the rows but `rest`. The pieces `gs` are
done. -/
structure Reading (t : Text) (m : Matcher) (gens : List Generation) (c : ℕ) (older newer rest : List LineRow)
    (gs : List (List StoredRow)) (s : Scan) : Prop where
  rows : ∃ read, older = rest ++ read ∧ s.before = ((read ++ newer).head?.map fun r => r.pos)
  made : pieces Continues c 0 (older.map (storedRow t gens)) =
    readBack Continues c (rest.map (storedRow t gens)).reverse c s.carry.reverse ++ gs
  entries : s.entries = (gs.filter (hit t m)).map mergeRows
  anchors : s.anchors = (gs.filter (hit t m)).map firstPos

section Page

variable {t : Text} {m : Matcher} {gens : List Generation} {c : ℕ} {older newer rest : List LineRow}
  {gs : List (List StoredRow)} {s : Scan}

theorem reading_start : Reading t m gens c older newer older [] ⟨newer.head?.map fun r => r.pos, [], [], []⟩ :=
  ⟨⟨[], by simp, rfl⟩, (List.append_nil _).symm, rfl, rfl⟩

theorem reverse_rows (chunk : List LineRow) (carry : List StoredRow) :
    (carry ++ (chunk.reverse).map (storedRow t gens)).reverse = chunk.map (storedRow t gens) ++ carry.reverse := by
  rw [List.reverse_append, ← List.map_reverse, List.reverse_reverse]

/-- the last round: everything older than the start of the page is read -/
theorem Reading.exhausted (h : Reading t m gens c older newer rest gs s) (hrest : rest.length ≤ c) :
    (s.round t m ((rest.reverse).map (storedRow t gens)) true).entries =
        ((pieces Continues c 0 (older.map (storedRow t gens))).filter (hit t m)).map mergeRows ∧
      (s.round t m ((rest.reverse).map (storedRow t gens)) true).anchors =
        ((pieces Continues c 0 (older.map (storedRow t gens))).filter (hit t m)).map firstPos := by
  obtain ⟨h1, h2⟩ := round_exhausted t m s ((rest.reverse).map (storedRow t gens))
  have hread := @readBack_within _ Continues _ c (rest.map (storedRow t gens)).reverse [] c s.carry.reverse
    (by rw [List.length_reverse, List.length_map]; exact hrest)
  have hall : pieces Continues c 0 (older.map (storedRow t gens)) =
      group Continues (rest.map (storedRow t gens) ++ s.carry.reverse) ++ gs := by
    rw [h.made, ← List.append_nil (rest.map (storedRow t gens)).reverse, hread, List.reverse_reverse]
    rfl
  rw [reverse_rows, h.entries] at h1
  rw [reverse_rows, h.anchors] at h2
  rw [hall, List.filter_append, List.map_append, List.map_append]
  exact ⟨h1, h2⟩

/-- a round that does not reach the end: the rows `rest'` are left -/
theorem Reading.held (h : Reading t m gens c older newer rest gs s) (hc : 0 < c) {rest' chunk : List LineRow}
    (hr : rest = rest' ++ chunk) (hlen : chunk.length = c) :
    ∃ D, Reading t m gens c older newer rest' (D ++ gs)
      (s.round t m ((chunk.reverse).map (storedRow t gens)) false) := by
  have hne : chunk ≠ [] := List.ne_nil_of_length_pos (hlen ▸ hc)
  obtain ⟨g, D, hgroup⟩ : ∃ g D, group Continues (chunk.map (storedRow t gens) ++ s.carry.reverse) = g :: D := by
    obtain ⟨r, chunk, rfl⟩ := List.exists_cons_of_ne_nil hne
    obtain ⟨b, D, hclose⟩ := @close_head _ Continues _ (storedRow t gens r) []
      (chunk.map (storedRow t gens) ++ s.carry.reverse)
    exact ⟨_, D, hclose⟩
  obtain ⟨h1, h2, h3⟩ := round_held t m s ((chunk.reverse).map (storedRow t gens)) ((reverse_rows ..).symm ▸ hgroup)
  refine ⟨D, ⟨?_, ?_, ?_, ?_⟩⟩
  · obtain ⟨read, ho, -⟩ := h.rows
    refine ⟨chunk ++ read, by rw [ho, hr, List.append_assoc], ?_⟩
    obtain ⟨r, chunk', rfl⟩ := List.exists_cons_of_ne_nil hne
    simp [Scan.round, storedRow]
  · have hread := @readBack_within _ Continues _ c (chunk.map (storedRow t gens)).reverse
      (rest'.map (storedRow t gens)).reverse c s.carry.reverse (by rw [List.length_reverse, List.length_map, hlen])
    rw [List.length_reverse, List.length_map, hlen, Nat.sub_self, readBack_zero hc, List.reverse_reverse, hgroup,
      List.headD_cons, List.tail_cons] at hread
    rw [h.made, hr, List.map_append, List.reverse_append, hread, h1, List.append_assoc]
  · rw [h2, h.entries, List.filter_append, List.map_append]
  · rw [h3, h.anchors, List.filter_append, List.map_append]

end Page

/-- **One page.** The page is cut from the matching pieces that its rounds make of the rows before its start. -/
theorem scanLoop_pieces {t : Text} {m : Matcher} {db : DB} {q : LogQuery} (hdb : Snapshot db) {limit : ℕ}
    {older newer : List LineRow} (hw : windowRows db q = older ++ newer) {fuel : ℕ} (now : ℕ) {rest : List LineRow}
    {gs : List (List StoredRow)} {s : Scan}
    (h : Reading t m (generations db q.host q.container) (chunkSize m limit) older newer rest gs s)
    (hfuel : rest.length < fuel) :
    let shown := (pieces Continues (chunkSize m limit) 0
      (older.map (storedRow t (generations db q.host q.container)))).filter (hit t m)
    ∃ next, scanLoop t (fun _ => db) (generations db q.host q.container) q m limit (chunkSize m limit) fuel now s =
      some (newPage (shown.map mergeRows) (shown.map firstPos) limit, next) := by
  intro shown
  induction fuel generalizing now rest gs s with
  | zero => exact absurd hfuel (Nat.not_lt_zero _)
  | succ fuel ih =>
    obtain ⟨read, ho, hbefore⟩ := h.rows
    have hscan : scanRows t db (generations db q.host q.container) q s.before (chunkSize m limit) =
        (rest.reverse.take (chunkSize m limit)).map (storedRow t (generations db q.host q.container)) := by
      rw [hbefore]
      refine scanRows_before hdb ?_ _
      rw [hw, ho, List.append_assoc]
    have hlen : (rest.reverse.take (chunkSize m limit)).length = min (chunkSize m limit) rest.length := by
      rw [List.length_take, List.length_reverse]
    simp only [scanLoop, hscan, List.length_map, hlen]
    by_cases hex : rest.length < chunkSize m limit
    · -- the last round
      have htake : rest.reverse.take (chunkSize m limit) = rest.reverse :=
        List.take_of_length_le (by rw [List.length_reverse]; omega)
      have hmin : min (chunkSize m limit) rest.length < chunkSize m limit := by omega
      obtain ⟨h1, h2⟩ := h.exhausted hex.le
      refine ⟨now + 1, ?_⟩
      simp only [hmin, decide_true, or_true, if_true, htake, h1, h2, shown]
    · have hmin : ¬ min (chunkSize m limit) rest.length < chunkSize m limit := by omega
      obtain ⟨rest', chunk, hr, hchunk⟩ : ∃ rest' chunk, rest = rest' ++ chunk ∧ chunk.length = chunkSize m limit :=
        ⟨rest.take (rest.length - chunkSize m limit), rest.drop (rest.length - chunkSize m limit), by simp, by
          rw [List.length_drop]; omega⟩
      have htake : rest.reverse.take (chunkSize m limit) = chunk.reverse := by
        rw [hr, List.reverse_append]
        exact List.take_left' (by rw [List.length_reverse, hchunk])
      have hpos : 0 < chunkSize m limit := chunkSize_pos m limit
      have hrest : rest'.length + chunkSize m limit = rest.length := by rw [hr, List.length_append, hchunk]
      obtain ⟨D, hread⟩ := h.held hpos hr hchunk
      simp only [hmin, decide_false, Bool.false_eq_true, or_false, htake]
      split_ifs with hstop
      · rw [hread.entries, List.length_map] at hstop
        obtain ⟨older', hshown⟩ : ∃ older', shown = older' ++ (D ++ gs).filter (hit t m) :=
          ⟨_, by rw [← List.filter_append, ← hread.made]⟩
        refine ⟨now + 1, ?_⟩
        rw [hread.entries, hread.anchors, hshown, newPage_append _ hstop]
      · exact ih (now + 1) hread (by omega)

/-! ## Whole entries -/

/-- a row of an entry folds into a later row of the same entry exactly when it is in `key: value` form: the level of the
later row is unknown -/
theorem continues_rest {h s r : StoredRow} (hs : Continues h s) (hr : Continues h r) :
    Continues s r ↔ (structuredField (trimSpace r.entry.message)).isSome = true := by
  obtain ⟨hs1, hs2⟩ := hs
  obtain ⟨hr1, hr2⟩ := hr
  simp only [Continues, hs1.symm.trans hr1, true_and]
  unfold IsContinuationLogEntry at hs2 hr2 ⊢
  by_cases h1 : s.entry.level = .unknown
  · by_cases h2 : r.entry.level = .unknown
    · by_cases h3 : trimSpace s.entry.message = ""
      · simp [h1, h3] at hs2
      · by_cases h4 : trimSpace r.entry.message = ""
        · simp [h2, h4] at hr2
        · simp [h1, h2, h3, h4, isProblemLevel]
    · simp [h2] at hr2
  · simp [h1] at hs2

/-- wherever a round of c rows ends inside the entry e, k rows after it, what has been read of e is in `key: value` form,
the first row read apart -/
def Whole (c k : ℕ) (e : List StoredRow) : Prop :=
  ∀ p s b, e = p ++ s :: b → p ≠ [] → c ∣ k + (s :: b).length →
    ∀ r ∈ b, (structuredField (trimSpace r.entry.message)).isSome = true

theorem whole_iff {c : ℕ} (hc : 0 < c) {k : ℕ} {e : List StoredRow} (he : IsGrouping Continues [e]) :
    pieces Continues c k e = [e] ↔ Whole c k e := by
  rw [pieces_eq_singleton_iff hc he]
  refine forall_congr' fun p => forall_congr' fun s => forall_congr' fun b => forall_congr' fun hsplit =>
    forall_congr' fun hp => forall_congr' fun _ => forall₂_congr fun r hr => ?_
  obtain ⟨h, p, rfl⟩ := List.exists_cons_of_ne_nil hp
  have hbody := he.body e (List.mem_singleton_self e) h (by rw [hsplit]; rfl)
  apply continues_rest
  · exact hbody s (by rw [hsplit]; simp)
  · exact hbody r (by rw [hsplit]; simp [hr])

/-! ## What the pages show -/

section Paging

variable (t : Text) (m : Matcher) (limit : ℕ)

/-- the page over the rows X is full with the entries D, and leaves the entries E -/
structure Cut (X : List StoredRow) (E D : List (List StoredRow)) : Prop where
  split : group Continues X = E ++ D
  full : (D.filter (hit t m)).length = limit
  first : ∃ g ∈ D.head?, hit t m g = true

/-- the rounds of the page that takes the entries D make a piece of older rows that matches -/
def FindsMore (E D : List (List StoredRow)) : Prop :=
  ∃ g ∈ pieces Continues (chunkSize m limit) D.flatten.length E.flatten, hit t m g = true

/-- the page over the rows X shows what it should -/
structure ShowsPage (X : List StoredRow) : Prop where
  /-- an entry with fewer than `limit` matching ones after it comes out whole, or neither it nor a piece of it matches -/
  entries : ∀ E e D, group Continues X = E ++ e :: D → (D.filter (hit t m)).length < limit →
    Whole (chunkSize m limit) D.flatten.length e ∨
      ∀ g ∈ e :: pieces Continues (chunkSize m limit) D.flatten.length e, hit t m g = false
  /-- and matching entries that a full page leaves are noticed -/
  more : ∀ E D, Cut t m limit X E D → (∃ e ∈ E, hit t m e = true) → FindsMore t m limit E D

/-- X' are the rows of the page that follows the page over X -/
def Next (X X' : List StoredRow) : Prop := ∃ E D, Cut t m limit X E D ∧ FindsMore t m limit E D ∧ X' = E.flatten

/-- every page shows what it should, the first and those that follow it -/
def ShowsAll (X : List StoredRow) : Prop := ∀ X', Relation.ReflTransGen (Next t m limit) X X' → ShowsPage t m limit X'

end Paging

section Paging

variable {t : Text} {m : Matcher} {limit : ℕ} {X : List StoredRow}

/-- an entry that is one of its pieces is the only one -/
theorem pieces_of_mem {c k : ℕ} {e : List StoredRow} (h : e ∈ pieces Continues c k e) :
    pieces Continues c k e = [e] := by
  obtain ⟨A, B, hsplit⟩ := List.append_of_mem h
  have hflat : (A ++ e :: B).flatten = e := hsplit ▸ pieces_flatten k e
  have hlen := congrArg List.length hflat
  rw [List.flatten_append, List.flatten_cons, List.length_append, List.length_append] at hlen
  have hempty : ∀ C : List (List StoredRow), (∀ g ∈ C, g ∈ pieces Continues c k e) → C.flatten.length = 0 → C = [] := by
    intro C hC hzero
    rw [List.length_eq_zero_iff, List.flatten_eq_nil_iff] at hzero
    exact List.eq_nil_iff_forall_not_mem.2 fun g hg => pieces_nonempty (hC g hg) (hzero g hg)
  have hA := hempty A (fun g hg => hsplit ▸ List.mem_append_left _ hg) (by omega)
  have hB := hempty B (fun g hg => hsplit ▸ List.mem_append_right _ (List.mem_cons_of_mem e hg)) (by omega)
  rw [hsplit, hA, hB]
  rfl

theorem entry_pieces_iff {k : ℕ} {e : List StoredRow} (he : IsGrouping Continues [e]) :
    (pieces Continues (chunkSize m limit) k e).filter (hit t m) = [e].filter (hit t m) ↔
      Whole (chunkSize m limit) k e ∨ ∀ g ∈ e :: pieces Continues (chunkSize m limit) k e, hit t m g = false := by
  rw [← whole_iff (chunkSize_pos m limit) he]
  constructor
  · intro hsame
    cases hhit : hit t m e with
    | true =>
      rw [List.filter_cons_of_pos hhit, List.filter_nil] at hsame
      exact .inl (pieces_of_mem (List.mem_of_mem_filter (hsame ▸ List.mem_singleton_self e)))
    | false =>
      right
      rw [List.filter_cons_of_neg (by simp [hhit]), List.filter_nil] at hsame
      intro g hg
      rcases List.mem_cons.1 hg with rfl | hg
      · exact hhit
      · simpa using List.filter_eq_nil_iff.1 hsame g hg
  · rintro (hwhole | hnone)
    · rw [hwhole]
    · rw [List.filter_eq_nil_iff.2 fun g hg => by simp [hnone g (List.mem_cons_of_mem e hg)],
        List.filter_eq_nil_iff.2 fun g hg => by rw [List.mem_singleton.1 hg]; simp [hnone e List.mem_cons_self]]

theorem pieces_split {E D : List (List StoredRow)} (h : group Continues X = E ++ D) :
    pieces Continues (chunkSize m limit) 0 X =
      pieces Continues (chunkSize m limit) D.flatten.length E.flatten ++
        pieces Continues (chunkSize m limit) 0 D.flatten := by
  have hX : X = (E ++ D).flatten := by rw [← h, group_flatten]
  have hg : IsGrouping Continues (E ++ D) := h ▸ group_isGrouping X
  have hsplit := @pieces_groups _ Continues _ (chunkSize m limit) continues_trans E D hg 0
  rw [Nat.zero_add] at hsplit
  rw [hX, hsplit]

/-- entries that come out as they should, one by one -/
theorem filter_pieces {E D : List (List StoredRow)} (hX : group Continues X = E ++ D)
    (h : ∀ E' e D', D = E' ++ e :: D' → (pieces Continues (chunkSize m limit) D'.flatten.length e).filter (hit t m) =
      [e].filter (hit t m)) :
    (pieces Continues (chunkSize m limit) 0 D.flatten).filter (hit t m) = D.filter (hit t m) := by
  induction D generalizing E with
  | nil => rfl
  | cons e D ih =>
    have hg : IsGrouping Continues (E ++ ([e] ++ D)) := hX ▸ group_isGrouping X
    have hsplit := @pieces_groups _ Continues _ (chunkSize m limit) continues_trans [e] D hg.right 0
    have hrest : (pieces Continues (chunkSize m limit) 0 D.flatten).filter (hit t m) = D.filter (hit t m) := by
      refine ih (E := E ++ [e]) (by rw [hX]; simp) fun E' e' D' hD => ?_
      exact h (e :: E') e' D' (by rw [hD]; rfl)
    rw [Nat.zero_add, List.flatten_singleton, List.singleton_append] at hsplit
    rw [hsplit, List.filter_append, h [] e D rfl, hrest, ← List.filter_append]
    rfl

/-- the entries that a page can hold -/
theorem exists_cut (hlimit : 0 < limit) (X : List StoredRow) :
    ((group Continues X).filter (hit t m)).length < limit ∨ ∃ E D, Cut t m limit X E D := by
  have hall : ∀ G : List (List StoredRow), (G.filter (hit t m)).length < limit ∨
      ∃ E D, G = E ++ D ∧ (D.filter (hit t m)).length = limit ∧ ∃ g ∈ D.head?, hit t m g = true := by
    intro G
    induction G with
    | nil => exact .inl hlimit
    | cons g G ih =>
      rcases ih with hfew | ⟨E, D, rfl, hfull, hfirst⟩
      · cases hhit : hit t m g with
        | false => exact .inl (by simpa [hhit] using hfew)
        | true =>
          by_cases hlen : ((g :: G).filter (hit t m)).length < limit
          · exact .inl hlen
          · refine .inr ⟨[], g :: G, rfl, ?_, g, rfl, hhit⟩
            rw [List.filter_cons_of_pos hhit, List.length_cons] at hlen ⊢
            omega
      · exact .inr ⟨g :: E, D, rfl, hfull, hfirst⟩
  exact (hall _).imp_right fun ⟨E, D, hsplit, hfull, hfirst⟩ => ⟨E, D, hsplit, hfull, hfirst⟩

theorem Cut.unique {E E' D D' : List (List StoredRow)} (h : Cut t m limit X E D) (h' : Cut t m limit X E' D') :
    E = E' ∧ D = D' := by
  have hside : ∀ {E E' D D' Y : List (List StoredRow)}, Cut t m limit X E D → Cut t m limit X E' D' →
      D = Y ++ D' → Y = [] := by
    intro E E' D D' Y h h' hY
    have hfull := h.full
    rw [hY, List.filter_append, List.length_append, h'.full] at hfull
    have hnone : Y.filter (hit t m) = [] := List.length_eq_zero_iff.1 (by omega)
    obtain ⟨g, hg, hhit⟩ := h.first
    cases Y with
    | nil => rfl
    | cons y Y =>
      rw [hY] at hg
      obtain rfl := Option.some.inj hg
      rw [List.filter_cons_of_pos hhit] at hnone
      cases hnone
  rcases List.append_eq_append_iff.1 (h.split.symm.trans h'.split) with ⟨Y, hE, hD⟩ | ⟨Y, hE, hD⟩
  · obtain rfl := hside h h' hD
    exact ⟨by simpa using hE.symm, by simpa using hD⟩
  · obtain rfl := hside h' h hD
    exact ⟨by simpa using hE, by simpa using hD.symm⟩

/-- of the entries that fill a page, each has fewer matching ones after it -/
theorem Cut.few {E D E' D' : List (List StoredRow)} {e : List StoredRow} (h : Cut t m limit X E D)
    (hD : D = E' ++ e :: D') : (D'.filter (hit t m)).length < limit := by
  obtain ⟨g, hg, hhit⟩ := h.first
  have hfull := h.full
  cases E' with
  | nil =>
    rw [hD] at hg hfull
    obtain rfl := Option.some.inj hg
    rw [List.nil_append, List.filter_cons_of_pos hhit, List.length_cons] at hfull
    omega
  | cons g' E' =>
    rw [hD] at hg hfull
    obtain rfl := Option.some.inj hg
    rw [List.cons_append, List.filter_cons_of_pos hhit, List.length_cons, List.filter_append, List.length_append,
      List.filter_cons] at hfull
    split_ifs at hfull
    · rw [List.length_cons] at hfull
      omega
    · omega

/-- each entry with fewer than `limit` matching ones after it comes to what it shows by itself -/
def Kept (t : Text) (m : Matcher) (limit : ℕ) (X : List StoredRow) : Prop :=
  ∀ E e D, group Continues X = E ++ e :: D → (D.filter (hit t m)).length < limit →
    (pieces Continues (chunkSize m limit) D.flatten.length e).filter (hit t m) = [e].filter (hit t m)

/-- two lists that end with the same, after more than what both end with anyway -/
theorem getLast?_eq_of_append {α : Type} {U V S A B M : List α} (hU : U ++ S = A ++ M) (hV : V ++ S = B ++ M)
    (h : S.length < M.length ∨ A = [] ∧ B = []) : U.getLast? = V.getLast? := by
  rcases h with hlt | ⟨rfl, rfl⟩
  · -- what ends with M ends with a last element of M
    have hlast : ∀ {U A : List α}, U ++ S = A ++ M → ∃ N, N ≠ [] ∧ M = N ++ S ∧ U = A ++ N := by
      intro U A h
      rcases List.append_eq_append_iff.1 h with ⟨N, -, hS⟩ | ⟨N, hU, hM⟩
      · rw [hS, List.length_append] at hlt
        omega
      · refine ⟨N, ?_, hM, hU⟩
        rintro rfl
        rw [hM, List.nil_append] at hlt
        exact absurd hlt (lt_irrefl _)
    obtain ⟨N, hN, hM, rfl⟩ := hlast hU
    obtain ⟨N', -, hM', rfl⟩ := hlast hV
    obtain rfl := List.append_cancel_right (hM.symm.trans hM')
    rw [List.getLast?_append_of_ne_nil _ hN, List.getLast?_append_of_ne_nil _ hN]
  · rw [List.append_cancel_right (hU.trans hV.symm)]

/-- a page that ends with the matching entries shows each of them as it is -/
theorem entries_of_suffix (hnodup : X.Nodup) {A B M : List (List StoredRow)}
    (hshown : (pieces Continues (chunkSize m limit) 0 X).filter (hit t m) = A ++ M)
    (href : (group Continues X).filter (hit t m) = B ++ M) (hM : limit ≤ M.length ∨ A = [] ∧ B = []) :
    Kept t m limit X := by
  intro E e D hX hfew
  induction hn : D.length using Nat.strong_induction_on generalizing E e D with
  | _ n ih =>
    subst hn
    have hD : (pieces Continues (chunkSize m limit) 0 D.flatten).filter (hit t m) = D.filter (hit t m) := by
      refine filter_pieces (E := E ++ [e]) (by rw [hX]; simp) fun E' e' D' hD => ?_
      refine ih D'.length (by rw [hD]; simp; omega) (E ++ e :: E') e' D' (by rw [hX, hD]; simp) ?_ rfl
      refine lt_of_le_of_lt (List.Sublist.length_le (List.Sublist.filter _ ?_)) hfew
      rw [hD]
      exact (List.sublist_cons_self e' D').trans (List.sublist_append_right E' _)
    have hg : IsGrouping Continues (E ++ e :: D) := hX ▸ group_isGrouping X
    have he := @pieces_groups _ Continues _ (chunkSize m limit) continues_trans [e] D hg.right 0
    have hP := @pieces_split m limit X E (e :: D) hX
    have hflat : (E ++ e :: D).flatten = X := hX ▸ group_flatten X
    rw [Nat.zero_add, List.flatten_singleton, List.singleton_append] at he
    rw [he] at hP
    rw [hP, List.filter_append, List.filter_append, hD, ← List.append_assoc] at hshown
    rw [hX, ← List.singleton_append, ← List.append_assoc, List.filter_append, List.filter_append] at href
    have hlast := getLast?_eq_of_append hshown href (hM.imp_left hfew.trans_le)
    -- no row is in the entry and in those before it
    have hapart : ∀ g : List StoredRow, g ≠ [] → (∀ r ∈ g, r ∈ e) → ∀ gs : List (List StoredRow), g ∈ gs →
        ¬ ∀ r ∈ gs.flatten, r ∈ E.flatten := by
      intro g hne hsub gs hgs hall
      obtain ⟨r, g', rfl⟩ := List.exists_cons_of_ne_nil hne
      have hdisj : E.flatten.Disjoint (e ++ D.flatten) := by
        rw [← hflat, List.flatten_append, List.flatten_cons] at hnodup
        exact (List.nodup_append'.1 hnodup).2.2
      exact hdisj (hall r (List.mem_flatten.2 ⟨_, hgs, List.mem_cons_self⟩))
        (List.mem_append_left _ (hsub r List.mem_cons_self))
    have hpart : ∀ g ∈ pieces Continues (chunkSize m limit) D.flatten.length e, g ≠ [] ∧ ∀ r ∈ g, r ∈ e := by
      intro g hg
      refine ⟨pieces_nonempty hg, fun r hr => ?_⟩
      have hmem := List.mem_flatten.2 ⟨g, hg, hr⟩
      rwa [pieces_flatten] at hmem
    cases hhit : hit t m e with
    | true =>
      have hone : [e].filter (hit t m) = [e] := by rw [List.filter_cons_of_pos hhit, List.filter_nil]
      rw [hone, List.getLast?_append, List.getLast?_append, List.getLast?_singleton, Option.some_or] at hlast
      cases hparts : ((pieces Continues (chunkSize m limit) D.flatten.length e).filter (hit t m)).getLast? with
      | none =>
        rw [hparts, Option.none_or] at hlast
        refine absurd (fun r hr => ?_) (hapart e (hg.right.ne_nil e List.mem_cons_self) (fun r hr => hr) _
          (List.mem_of_mem_filter (List.mem_of_mem_getLast? hlast)))
        rwa [pieces_flatten] at hr
      | some g =>
        rw [hparts, Option.some_or] at hlast
        obtain rfl := Option.some.inj hlast
        rw [pieces_of_mem (List.mem_of_mem_filter (List.mem_of_mem_getLast? hparts))]
    | false =>
      have hone : [e].filter (hit t m) = [] := by rw [List.filter_cons_of_neg (by simp [hhit]), List.filter_nil]
      rw [hone, List.append_nil, List.getLast?_append] at hlast
      rw [hone]
      cases hparts : ((pieces Continues (chunkSize m limit) D.flatten.length e).filter (hit t m)).getLast? with
      | none => exact List.getLast?_eq_none_iff.1 hparts
      | some g =>
        rw [hparts, Option.some_or] at hlast
        obtain ⟨hne, hsub⟩ := hpart g (List.mem_of_mem_filter (List.mem_of_mem_getLast? hparts))
        exact absurd (fun r hr => hr) (hapart g hne hsub E (List.mem_of_mem_filter (List.mem_of_mem_getLast? hlast.symm)))

/-- the entries of the page, and the pieces of the rows that it leaves -/
theorem Cut.pieces {E D : List (List StoredRow)} (hcut : Cut t m limit X E D)
    (h : Kept t m limit X) :
    (HeadGroup.pieces Continues (chunkSize m limit) 0 X).filter (hit t m) =
      (HeadGroup.pieces Continues (chunkSize m limit) D.flatten.length E.flatten).filter (hit t m) ++
        D.filter (hit t m) := by
  rw [pieces_split hcut.split, List.filter_append]
  congr 1
  refine filter_pieces hcut.split fun E' e D' hD => h (E ++ E') e D' ?_ (hcut.few hD)
  rw [hcut.split, hD, List.append_assoc]

/-- too few entries for a page -/
theorem pieces_few (hfew : ((group Continues X).filter (hit t m)).length < limit)
    (h : Kept t m limit X) :
    (pieces Continues (chunkSize m limit) 0 X).filter (hit t m) = (group Continues X).filter (hit t m) := by
  have hflat : (group Continues X).flatten = X := group_flatten X
  have hpieces := @filter_pieces t m limit X [] (group Continues X) rfl fun E' e D' hD => h E' e D' hD ?_
  · rwa [hflat] at hpieces
  · refine lt_of_le_of_lt (List.Sublist.length_le (List.Sublist.filter _ ?_)) hfew
    rw [hD]
    exact (List.sublist_cons_self e D').trans (List.sublist_append_right E' _)

theorem findsMore_iff {E D : List (List StoredRow)} : FindsMore t m limit E D ↔
    (pieces Continues (chunkSize m limit) D.flatten.length E.flatten).filter (hit t m) ≠ [] := by
  rw [Ne, List.filter_eq_nil_iff]
  unfold FindsMore
  push Not
  rfl

/-- the entries of a page, in the words of the condition -/
theorem kept_iff : Kept t m limit X ↔ ∀ E e D, group Continues X = E ++ e :: D → (D.filter (hit t m)).length < limit →
      Whole (chunkSize m limit) D.flatten.length e ∨
        ∀ g ∈ e :: pieces Continues (chunkSize m limit) D.flatten.length e, hit t m g = false := by
  refine forall_congr' fun E => forall_congr' fun e => forall_congr' fun D => forall_congr' fun hX =>
    forall_congr' fun _ => entry_pieces_iff ?_
  have hg : IsGrouping Continues (E ++ ([e] ++ D)) := hX ▸ group_isGrouping X
  exact hg.right.left

/-- **The last page.** -/
theorem showsAll_last (hlimit : 0 < limit) (hnodup : X.Nodup)
    (hle : ((pieces Continues (chunkSize m limit) 0 X).filter (hit t m)).length ≤ limit) :
    (pieces Continues (chunkSize m limit) 0 X).filter (hit t m) = (group Continues X).filter (hit t m) ↔
      ShowsAll t m limit X := by
  constructor
  · intro hsame
    have hentries := entries_of_suffix hnodup (A := []) (B := []) rfl hsame.symm (.inr ⟨rfl, rfl⟩)
    -- with a page that is full, nothing is left to be found or missed
    have hleft : ∀ E D, Cut t m limit X E D →
        (pieces Continues (chunkSize m limit) D.flatten.length E.flatten).filter (hit t m) = [] ∧
          E.filter (hit t m) = [] := by
      intro E D hcut
      have hP := hcut.pieces hentries
      have hlen := congrArg List.length hP
      rw [List.length_append, hcut.full] at hlen
      have hnone : (pieces Continues (chunkSize m limit) D.flatten.length E.flatten).filter (hit t m) = [] :=
        List.length_eq_zero_iff.1 (by omega)
      refine ⟨hnone, ?_⟩
      rw [hP, hnone, hcut.split, List.filter_append, List.nil_append] at hsame
      exact List.append_left_eq_self.1 hsame.symm
    intro X' hreach
    rcases Relation.ReflTransGen.cases_head hreach with rfl | ⟨X₁, ⟨E, D, hcut, hmore, -⟩, -⟩
    · refine ⟨kept_iff.1 hentries, fun E D hcut hex => ?_⟩
      obtain ⟨e, he, hhit⟩ := hex
      exact absurd hhit (List.filter_eq_nil_iff.1 (hleft E D hcut).2 e he)
    · exact absurd (hleft E D hcut).1 (findsMore_iff.1 hmore)
  · intro hall
    obtain ⟨hentries, hmore⟩ := hall X .refl
    rw [← kept_iff] at hentries
    rcases exists_cut hlimit X with hfew | ⟨E, D, hcut⟩
    · exact pieces_few hfew hentries
    · have hP := hcut.pieces hentries
      have hlen := congrArg List.length hP
      rw [List.length_append, hcut.full] at hlen
      have hnone : (pieces Continues (chunkSize m limit) D.flatten.length E.flatten).filter (hit t m) = [] :=
        List.length_eq_zero_iff.1 (by omega)
      have hE : E.filter (hit t m) = [] := by
        refine List.filter_eq_nil_iff.2 fun e he hhit => ?_
        exact findsMore_iff.1 (hmore E D hcut ⟨e, he, hhit⟩) hnone
      rw [hP, hnone, hcut.split, List.filter_append, hE]

/-- a page that is not the last, and shows its entries as they are -/
theorem cut_of_more (hlimit : 0 < limit)
    (hentries : Kept t m limit X)
    {K K' : List (List StoredRow)} {g : List StoredRow} (hK : K ≠ []) (hfull : (g :: K').length = limit)
    (hshown : (pieces Continues (chunkSize m limit) 0 X).filter (hit t m) = K ++ g :: K') :
    ∃ E D, Cut t m limit X E (g :: D) ∧ (g :: D).filter (hit t m) = g :: K' ∧ FindsMore t m limit E (g :: D) := by
  rcases exists_cut hlimit X with hfew | ⟨E, D, hcut⟩
  · rw [← pieces_few hfew hentries, hshown, List.length_append, hfull] at hfew
    omega
  · have hP := hcut.pieces hentries
    obtain ⟨hKE, hD⟩ := List.append_inj' (hshown.symm.trans hP) (by rw [hfull, hcut.full])
    obtain ⟨g', hg', hhit⟩ := hcut.first
    cases D with
    | nil => cases hg'
    | cons d D =>
      obtain rfl := Option.some.inj hg'
      rw [List.filter_cons_of_pos hhit] at hD
      obtain ⟨rfl, hrest⟩ := List.cons.inj hD
      refine ⟨E, D, hcut, by rw [List.filter_cons_of_pos hhit, ← hrest], findsMore_iff.2 ?_⟩
      rwa [← hKE]

/-- the pages that follow a page -/
theorem showsAll_next {E D : List (List StoredRow)} (hcut : Cut t m limit X E D) (hmore : FindsMore t m limit E D)
    (hentries : Kept t m limit X) :
    ShowsAll t m limit E.flatten ↔ ShowsAll t m limit X := by
  constructor
  · intro hall X' hreach
    rcases Relation.ReflTransGen.cases_head hreach with rfl | ⟨X₁, ⟨E', D', hcut', -, rfl⟩, hrest⟩
    · refine ⟨kept_iff.1 hentries, fun E' D' hcut' _ => ?_⟩
      obtain ⟨rfl, rfl⟩ := hcut.unique hcut'
      exact hmore
    · obtain ⟨rfl, rfl⟩ := hcut.unique hcut'
      exact hall X' hrest
  · intro hall X' hreach
    exact hall X' (.head ⟨E, D, hcut, hmore, rfl⟩ hreach)

end Paging

/-! ## All pages -/

/-- the page, and where the next one starts -/
theorem newPage_groups {limit : ℕ} (hlimit : 0 < limit) (gs : List (List StoredRow)) :
    (gs.length ≤ limit ∧ newPage (gs.map mergeRows) (gs.map firstPos) limit = { entries := gs.map mergeRows }) ∨
      ∃ K g K', K ≠ [] ∧ gs = K ++ g :: K' ∧ (g :: K').length = limit ∧
        newPage (gs.map mergeRows) (gs.map firstPos) limit =
          { entries := (g :: K').map mergeRows, nextCursor := encodeCursor (firstPos g).tsNS (firstPos g).rowid } := by
  unfold newPage
  by_cases hle : gs.length ≤ limit
  · exact Or.inl ⟨hle, by simp [hle]⟩
  · obtain ⟨cut, hcut⟩ : ∃ cut, cut = gs.length - limit := ⟨_, rfl⟩
    have hlt : cut < gs.length := by omega
    have hdrop : gs.drop cut = gs[cut] :: gs.drop (cut + 1) := List.drop_eq_getElem_cons hlt
    refine Or.inr ⟨gs.take cut, gs[cut], gs.drop (cut + 1), ?_, ?_, ?_, ?_⟩
    · apply List.ne_nil_of_length_pos
      rw [List.length_take]
      omega
    · rw [← hdrop, List.take_append_drop]
    · rw [← hdrop, List.length_drop]
      omega
    · have hanchor : (gs.map firstPos)[cut]? = some (firstPos gs[cut]) := by
        rw [List.getElem?_map, List.getElem?_eq_getElem hlt]
        rfl
      simp only [List.length_map, if_neg hle, ← hcut, hanchor, ← List.map_drop, hdrop]

section Follow

variable {t : Text} {m : Matcher} {db : DB} {q : LogQuery}

/-- the query of the first page that precedes `newer` -/
theorem query_pieces (hdb : Snapshot db) (hm : newMatcher t q = .ok m) (hg : generations db q.host q.container ≠ [])
    {older newer : List LineRow} (hw : windowRows db q = older ++ newer)
    (hstart : resumeAt q = .ok (newer.head?.map fun r => r.pos)) {fuel : ℕ} (now : ℕ) (hfuel : older.length < fuel) :
    let shown := (pieces Continues (chunkSize m (clampLimit q.limit)) 0
      (older.map (storedRow t (generations db q.host q.container)))).filter (hit t m)
    ∃ next, query t (fun _ => db) fuel now q =
      .ok (some (newPage (shown.map mergeRows) (shown.map firstPos) (clampLimit q.limit), next)) := by
  intro shown
  obtain ⟨next, hscan⟩ := @scanLoop_pieces t m db q hdb (clampLimit q.limit) older newer hw fuel (now + 1) _ _ _
    reading_start hfuel
  refine ⟨next, ?_⟩
  unfold query
  rw [hm, hstart]
  simp only [bind, Except.bind, pure, Except.pure, if_neg hg, hscan, shown]

theorem firstPos_cons (r : LineRow) (rows : List StoredRow) (gens : List Generation) :
    firstPos (storedRow t gens r :: rows) = r.pos := rfl

theorem stored_nodup (hdb : Snapshot db) {older newer : List LineRow} (hw : windowRows db q = older ++ newer)
    (gens : List Generation) : (older.map (storedRow t gens)).Nodup := by
  have hsorted := hw ▸ windowRows_sorted (q := q) hdb
  refine List.pairwise_map.2 ((List.pairwise_append.1 hsorted).1.imp ?_)
  intro a b hab heq
  rw [storedRow_injective heq] at hab
  exact CursorPos.Before.irrefl _ hab

theorem eq_of_nodup_middle {α : Type} {l₁ l₂ l₃ l₄ : List α} {x : α} (h : (l₁ ++ x :: l₂).Nodup)
    (heq : l₁ ++ x :: l₂ = l₃ ++ x :: l₄) : l₁ = l₃ := by
  have hnot : x ∉ l₁ ++ l₂ := (List.nodup_cons.1 (List.nodup_middle.1 h)).1
  rw [List.mem_append, not_or] at hnot
  exact ((List.append_cons_inj_of_notMem hnot.1 hnot.2).1 heq).1

/-- **All pages.** The pages end, and put together they are the matching entries of the window exactly when every page
shows what it should. -/
theorem follow_iff (hdb : Snapshot db) (hm : newMatcher t q = .ok m) (hg : generations db q.host q.container ≠ [])
    {lim : ℤ} {fuel n : ℕ} (now : ℕ) {cursor : String} {older newer : List LineRow}
    (hw : windowRows db q = older ++ newer)
    (hstart : resumeAt { q with limit := lim, cursor := cursor } = .ok (newer.head?.map fun r => r.pos))
    (hfuel : older.length < fuel) (hn : older.length < n) :
    ∃ pages next, follow t (fun _ => db) q fuel (List.replicate n lim) n now cursor = some (pages, next) ∧
      ((pages.reverse.flatMap fun page => page.entries) =
          ((group Continues (older.map (storedRow t (generations db q.host q.container)))).filter (hit t m)).map
            mergeRows ↔
        ShowsAll t m (clampLimit lim) (older.map (storedRow t (generations db q.host q.container)))) := by
  induction n generalizing now cursor older newer with
  | zero => exact absurd hn (Nat.not_lt_zero _)
  | succ n ih =>
    obtain ⟨X, hX⟩ : ∃ X, X = older.map (storedRow t (generations db q.host q.container)) := ⟨_, rfl⟩
    have hnodup : X.Nodup := hX ▸ stored_nodup hdb hw _
    have hscanned : ∀ gs : List (List StoredRow), (∀ g ∈ gs, g ≠ []) → gs.flatten = X →
        ∀ g ∈ gs.filter (hit t m), Scanned t (generations db q.host q.container) g :=
      fun gs hne hflat g hgmem => scanned_of_flatten hne (hflat.trans hX) g (List.mem_of_mem_filter hgmem)
    have hscanP := hscanned (pieces Continues (chunkSize m (clampLimit lim)) 0 X) (fun g => pieces_nonempty)
      (pieces_flatten 0 X)
    have hscanG := hscanned (group Continues X) (group_isGrouping X).ne_nil (group_flatten X)
    obtain ⟨next, hpage⟩ := query_pieces hdb
      (show newMatcher t { q with limit := lim, cursor := cursor } = .ok m from hm) hg hw hstart now hfuel
    rw [List.replicate_succ, follow, List.headD_cons, hpage, List.tail_cons]
    dsimp only
    rw [← hX]
    obtain ⟨shown, hshown⟩ : ∃ shown, shown = (pieces Continues (chunkSize m (clampLimit lim)) 0 X).filter (hit t m) :=
      ⟨_, rfl⟩
    rw [← hshown] at hscanP ⊢
    rcases newPage_groups (clampLimit_pos lim) shown with ⟨hle, hnew⟩ | ⟨K, g, K', hK, hsplit, hlen, hnew⟩
    · -- the last page
      refine ⟨[{ entries := shown.map mergeRows }], next, ?_, ?_⟩
      · simp only [hnew, if_true]
      · rw [List.reverse_singleton, List.flatMap_singleton, map_mergeRows_inj hscanP hscanG, hshown]
        exact showsAll_last (clampLimit_pos lim) hnodup (hshown ▸ hle)
    · -- the next page starts before the piece g
      have hgmem : g ∈ shown := hsplit ▸ List.mem_append_right _ List.mem_cons_self
      obtain ⟨Q, Q', hpieces⟩ := List.append_of_mem (List.mem_of_mem_filter (hshown ▸ hgmem))
      have hflat : X = Q.flatten ++ (g :: Q').flatten := by
        rw [← List.flatten_append, ← hpieces, pieces_flatten]
      have hgne : g ≠ [] := pieces_nonempty (hpieces ▸ List.mem_append_right _ List.mem_cons_self)
      obtain ⟨older', page, rfl, hold, hpagerows⟩ := List.map_eq_append_iff.1 (hX.symm.trans hflat)
      obtain ⟨a, b, rfl⟩ := List.exists_cons_of_ne_nil hgne
      rw [List.flatten_cons, List.cons_append] at hpagerows
      obtain ⟨r, rs, rfl, rfl, -⟩ := List.map_eq_cons_iff.1 hpagerows
      have hr : r ∈ db.lines := by
        have hmem : r ∈ windowRows db q := by
          rw [hw]
          simp
        exact (mem_newestFirst.1 (List.mem_reverse.1 hmem)).1
      obtain ⟨hts, hrow⟩ := hdb.int64 r hr
      have hdec : decodeCursor (encodeCursor r.pos.tsNS r.pos.rowid) = .ok r.pos := decodeCursor_encodeCursor hts hrow
      have hne : encodeCursor r.pos.tsNS r.pos.rowid ≠ "" := encodeCursor_ne_empty hts hrow
      rw [List.length_append, List.length_cons] at hfuel hn
      have hw' : windowRows db q = older' ++ (r :: rs ++ newer) := by rw [hw, List.append_assoc]
      obtain ⟨pages, next', hfollow, hiff⟩ := ih next hw' (resumeAt_cursor hne hdec) (by omega) (by omega)
      refine ⟨⟨((storedRow t (generations db q.host q.container) r :: b) :: K').map mergeRows,
        encodeCursor r.pos.tsNS r.pos.rowid⟩ :: pages, next', ?_, ?_⟩
      · simp only [hnew, firstPos_cons, hne, if_false, hfollow, Option.map_some]
      · rw [List.reverse_cons, List.flatMap_append, List.flatMap_singleton]
        dsimp only
        rw [hold] at hiff
        -- a page that shows its entries as they are begins with an entry
        have hpage : Kept t m (clampLimit lim) X →
            (((pages.reverse.flatMap fun page => page.entries) ++
                ((storedRow t (generations db q.host q.container) r :: b) :: K').map mergeRows =
              ((group Continues X).filter (hit t m)).map mergeRows) ↔ ShowsAll t m (clampLimit lim) X) := by
          intro hentries
          obtain ⟨E, D, hcut, hD, hmore⟩ := cut_of_more (clampLimit_pos lim) hentries hK hlen (hshown ▸ hsplit)
          have hE : Q.flatten = E.flatten := by
            have hXE : X = E.flatten ++ ((storedRow t (generations db q.host q.container) r :: b) :: D).flatten := by
              rw [← List.flatten_append, ← hcut.split, group_flatten]
            exact eq_of_nodup_middle (hflat ▸ hnodup) (hflat.symm.trans hXE)
          have hgE : IsGrouping Continues (E ++ (storedRow t (generations db q.host q.container) r :: b) :: D) :=
            hcut.split ▸ group_isGrouping X
          rw [hE, hgE.left.group_flatten] at hiff
          rw [← showsAll_next hcut hmore hentries, ← hiff, hcut.split, List.filter_append, hD, List.map_append,
            List.append_left_inj]
        constructor
        · intro heq
          refine (hpage ?_).1 heq
          obtain ⟨B, M, hB, -, hM⟩ := List.map_eq_append_iff.1 heq.symm
          obtain rfl := (map_mergeRows_inj (fun g hg => hscanG g (hB ▸ List.mem_append_right B hg))
            fun g hg => hscanP g (hsplit ▸ List.mem_append_right K hg)).1 hM
          exact entries_of_suffix hnodup (hshown.symm.trans hsplit) hB (.inl hlen.ge)
        · intro hall
          exact (hpage (kept_iff.2 (hall X .refl).entries)).2 hall

end Follow

/-- rows that one round can read are shown as they are -/
theorem showsAll_of_length {t : Text} {m : Matcher} {limit : ℕ} {X : List StoredRow} (h : X.length ≤ chunkSize m limit) :
    ShowsAll t m limit X := by
  intro X' hreach
  have hlen : ∀ {X : List StoredRow} {E D : List (List StoredRow)}, group Continues X = E ++ D →
      E.flatten.length + D.flatten.length = X.length := by
    intro X E D hsplit
    rw [← List.length_append, ← List.flatten_append, ← hsplit, group_flatten]
  have h' : X'.length ≤ chunkSize m limit := by
    induction hreach with
    | refl => exact h
    | tail _ hnext ih =>
      obtain ⟨E, D, hcut, -, rfl⟩ := hnext
      have := hlen hcut.split
      omega
  refine ⟨fun E e D hX _ => .inl ?_, fun E D hcut hex => ?_⟩
  · have hg : IsGrouping Continues (E ++ ([e] ++ D)) := hX ▸ group_isGrouping X'
    have hle := hlen hX
    rw [List.flatten_cons, List.length_append] at hle
    rw [← whole_iff (chunkSize_pos m limit) hg.right.left, pieces_of_le (by omega)]
    have hone := hg.right.left.group_flatten
    rwa [List.flatten_singleton] at hone
  · have hg : IsGrouping Continues (E ++ D) := hcut.split ▸ group_isGrouping X'
    obtain ⟨e, he, hhit⟩ := hex
    refine ⟨e, ?_, hhit⟩
    rwa [pieces_of_le (by rw [Nat.add_comm, hlen hcut.split]; exact h'), hg.left.group_flatten]

/-- **The history query against the reference.** Where no row folds into an entry of another generation: the pages end,
and put together, older pages in front, they are the matching entries of the reference grouping exactly when every page
shows what it should. -/
theorem query_refines_reference (t : Text) {db : DB} (hdb : Snapshot db) {q : LogQuery} {m : Matcher}
    (hm : newMatcher t q = .ok m) (hone : Unmixed t db q) {lim : ℤ} {fuel n : ℕ}
    (hfuel : (windowRows db q).length < fuel) (hn : (windowRows db q).length < n) (now : ℕ) :
    ∃ pages next, follow t (fun _ => db) q fuel (List.replicate n lim) n now "" = some (pages, next) ∧
      ((pages.reverse.flatMap fun page => page.entries) = reference t db q m ↔
        ShowsAll t m (clampLimit lim) (window t db q)) := by
  have href : reference t db q m = ((group Continues (window t db q)).filter (hit t m)).map mergeRows := by
    rw [reference, groupRows_reference_iff.2 hone, List.filter_map]
    rfl
  rw [href]
  by_cases hg : generations db q.host q.container = []
  · -- an unknown name: one empty page
    have hwin : windowRows db q = [] := by
      apply List.eq_nil_iff_forall_not_mem.2
      intro r hr
      have hsel := (mem_newestFirst.1 (List.mem_reverse.1 hr)).2.1
      rw [hg] at hsel
      cases hsel
    obtain ⟨n, rfl⟩ : ∃ k, n = k + 1 := Nat.exists_eq_succ_of_ne_zero (by omega)
    have hpage : query t (fun _ => db) fuel now { q with limit := lim, cursor := "" } =
        .ok (some ({ entries := [] }, now + 1)) := by
      unfold query
      rw [show newMatcher t { q with limit := lim, cursor := "" } = .ok m from hm]
      simp only [bind, Except.bind, pure, Except.pure, if_pos hg]
    refine ⟨[{ entries := [] }], now + 1, ?_, ?_⟩
    · rw [follow, List.replicate_succ, List.headD_cons, hpage]
      rfl
    · rw [window, hwin]
      exact iff_of_true rfl (showsAll_of_length (Nat.zero_le _))
  · have hw : windowRows db q = windowRows db q ++ [] := (List.append_nil _).symm
    have hstart : resumeAt { q with limit := lim, cursor := "" } =
        .ok (([] : List LineRow).head?.map fun r => r.pos) := resumeAt_empty
    exact follow_iff hdb hm hg now hw hstart hfuel hn

/-! ## Witnesses -/

/-- a parser that takes the bytes as they are; a line that begins with E is an error -/
def traceText : Text :=
  { plainText with
    parse := fun raw _ =>
      (if raw.head? = some 69 then .error else .unknown, String.ofList (raw.map fun b => Char.ofNat b.toNat)) }

def traceRow (rowid : ℕ) (tsNS : ℤ) (text : String) : LineRow :=
  ⟨rowid, 1, ⟨tsNS, .stderr, 0, text.toList.map fun c => UInt8.ofNat c.toNat⟩, ⟨"local", "aaa"⟩⟩

/-- an error and two lines of its stack trace -/
def traceStore : DB :=
  webStore [traceRow 1 1 "ERROR boom", traceRow 2 2 "at f()", traceRow 3 3 "at g()"]

/-- the same with one more line: one line more than a round of limit 1 reads -/
def deepTraceStore : DB :=
  webStore [traceRow 1 1 "ERROR boom", traceRow 2 2 "at f()", traceRow 3 3 "at g()", traceRow 4 4 "at h()"]

def webQuery : LogQuery := { host := "local", container := "web" }

/-- the rows of the entries of all pages, older pages in front -/
def entryRows (entries : List LogEntry) : List (List ℕ) := entries.map fun e => e.rows.map fun l => l.rowid

theorem query_refines_reference_trace :
    ∃ pages next, follow traceText (fun _ => traceStore) webQuery 4 (List.replicate 4 1) 4 0 "" = some (pages, next) ∧
      (pages.reverse.flatMap fun page => page.entries) = reference traceText traceStore webQuery ⟨[], "", none⟩ := by
  have hdb : Snapshot traceStore := ⟨by decide, by decide⟩
  have hone : Unmixed traceText traceStore webQuery := by
    unfold Unmixed
    decide
  have hshows : ShowsAll traceText ⟨[], "", none⟩ (clampLimit 1) (window traceText traceStore webQuery) :=
    showsAll_of_length (by decide)
  have hm : newMatcher traceText webQuery = .ok ⟨[], "", none⟩ := rfl
  obtain ⟨pages, next, hfollow, hiff⟩ :=
    @query_refines_reference traceText traceStore hdb webQuery _ hm hone 1 4 4 (by decide) (by decide) 0
  exact ⟨pages, next, hfollow, hiff.2 hshows⟩

/-- **A stack trace split by a chunk.** With page limit 1 a round reads three rows, and the three newest rows are lines of
one stack trace without their error. -/
theorem chunk_splits_trace :
    entryRows (reference traceText deepTraceStore webQuery ⟨[], "", none⟩) = [[1, 2, 3, 4]] ∧
      (follow traceText (fun _ => deepTraceStore) webQuery 5 (List.replicate 5 1) 5 0 "").map
        (fun r => entryRows (r.1.reverse.flatMap fun page => page.entries)) = some [[1, 2, 3], [4]] ∧
      ∀ pages next,
        follow traceText (fun _ => deepTraceStore) webQuery 5 (List.replicate 5 1) 5 0 "" = some (pages, next) →
        (pages.reverse.flatMap fun page => page.entries) ≠ reference traceText deepTraceStore webQuery ⟨[], "", none⟩ := by
  have href : entryRows (reference traceText deepTraceStore webQuery ⟨[], "", none⟩) = [[1, 2, 3, 4]] := by decide
  have hpages : (follow traceText (fun _ => deepTraceStore) webQuery 5 (List.replicate 5 1) 5 0 "").map
      (fun r => entryRows (r.1.reverse.flatMap fun page => page.entries)) = some [[1, 2, 3], [4]] := by decide
  refine ⟨href, hpages, ?_⟩
  intro pages next h heq
  rw [h, Option.map_some, heq, href] at hpages
  cases hpages

end LogDeck.LogStore
