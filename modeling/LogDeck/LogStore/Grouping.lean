/-
What `groupRows` computes: the head grouping of the rows, oldest first, each group folded into one entry.

The grouper is asked only about pairs of an entry and a row of the same container, and what it asks of the entry is
settled by the entry's first line (`isContinuation_append`). So its left-to-right folding is `HeadGroup.group` for the
relation `Continues` between stored rows.
-/
import LogDeck.Lib.HeadGroup
import LogDeck.LogStore.Query

namespace LogDeck.LogStore

open LogDeck.Models HeadGroup

/-- row `e` folds into an entry that starts with row `h` -/
def Continues (h e : StoredRow) : Prop :=
  h.entry.containerID = e.entry.containerID ∧ IsContinuationLogEntry e.entry h.entry = true

instance : DecidableRel Continues := fun h e => by unfold Continues; infer_instance

theorem continues_trans (a b c : StoredRow) (hab : Continues a b) (hbc : Continues b c) : Continues a c :=
  ⟨hab.1.trans hbc.1, isContinuation_trans hab.2 hbc.2⟩

/-- the rows of a group folded into its first -/
def mergeRows : List StoredRow → LogEntry
  | [] => ⟨0, .unknown, "", .stdout, [], [], 0, "", "", []⟩
  | h :: rows => rows.foldl (fun entry r => appendContinuationLine entry r.entry) h.entry

/-- the position of a group's first row -/
def firstPos : List StoredRow → CursorPos
  | [] => ⟨0, 0⟩
  | h :: _ => h.pos

theorem mergeRows_snoc (h : StoredRow) (rows : List StoredRow) (e : StoredRow) :
    mergeRows (h :: rows ++ [e]) = appendContinuationLine (mergeRows (h :: rows)) e.entry := by
  simp [mergeRows]

theorem groupRelated_pair (a b : LogEntry) :
    GroupRelatedLogEntries [a, b] =
      if IsContinuationLogEntry b a then [appendContinuationLine a b] else [a, b] := by
  simp only [GroupRelatedLogEntries, List.foldl_cons, List.foldl_nil, groupNext, List.getLast?_nil,
    List.getLast?_singleton]
  split_ifs <;> rfl

/-- a folded group takes further rows as its first row does -/
theorem mergeRows_continues {h : StoredRow} {rows : List StoredRow} (hb : ∀ r ∈ rows, Continues h r) (e : StoredRow) :
    ((mergeRows (h :: rows)).containerID = e.entry.containerID ∧
      IsContinuationLogEntry e.entry (mergeRows (h :: rows)) = true) ↔ Continues h e := by
  have habsorb : ∀ a c : LogEntry, a.containerID = c.containerID ∧ IsContinuationLogEntry c a = true → ∀ e : LogEntry,
      (appendContinuationLine a c).containerID = e.containerID ∧
        IsContinuationLogEntry e (appendContinuationLine a c) = true ↔
      a.containerID = e.containerID ∧ IsContinuationLogEntry e a = true := fun a c hac e => by
    rw [append_containerID, isContinuation_append hac.2]
  have hes : ∀ r ∈ rows.map StoredRow.entry,
      h.entry.containerID = r.containerID ∧ IsContinuationLogEntry r h.entry = true := List.forall_mem_map.mpr hb
  have hfold := cont_foldl habsorb hes e.entry
  rw [List.foldl_map] at hfold
  exact hfold

theorem group_snoc_rows (older : List StoredRow) (row : StoredRow) :
    (∃ gs a b, group Continues older = gs ++ [a :: b] ∧ Continues a row ∧
      group Continues (older ++ [row]) = gs ++ [a :: b ++ [row]]) ∨
    ((∀ g ∈ (group Continues older).getLast?, ∀ a ∈ g.head?, ¬ Continues a row) ∧
      group Continues (older ++ [row]) = group Continues older ++ [[row]]) := group_snoc older row

/-- one row more: the fold of the newest row into the groups of the older ones -/
theorem groupRow_group (older : List StoredRow) (row : StoredRow) (i start : ℕ) :
    let gs := group Continues older
    let gs' := group Continues (older ++ [row])
    groupRow ⟨gs.map mergeRows, gs.map firstPos, start⟩ i row =
      ⟨gs'.map mergeRows, gs'.map firstPos, if gs.length = 1 ∧ gs'.length = 1 then i else start⟩ := by
  intro gs gs'
  have hg : IsGrouping Continues gs := group_isGrouping older
  rcases group_snoc_rows older row with ⟨gs₀, a, b, e, hc, e'⟩ | ⟨hn, e'⟩
  · have hgs : gs = gs₀ ++ [a :: b] := e
    have hgs' : gs' = gs₀ ++ [a :: b ++ [row]] := e'
    have hb : ∀ r ∈ b, Continues a r := (hgs ▸ hg).right.body _ (List.mem_singleton_self _) a rfl
    obtain ⟨h1, h2⟩ := (mergeRows_continues hb row).2 hc
    have hm : mergeRows (a :: (b ++ [row])) = appendContinuationLine (mergeRows (a :: b)) row.entry :=
      mergeRows_snoc a b row
    simp only [groupRow, hgs, hgs', List.map_append, List.map_cons, List.map_nil, List.getLast?_append,
      List.getLast?_singleton, Option.some_or, h1, if_true, groupRelated_pair, h2, List.dropLast_concat, hm,
      List.length_append, List.length_cons, List.length_nil, List.length_map, List.cons_append, firstPos, and_self]
  · have hgs' : gs' = gs ++ [[row]] := e'
    have hlen : ¬ (gs.length = 1 ∧ gs'.length = 1) := by
      rw [hgs', List.length_append, List.length_singleton]
      omega
    rw [if_neg hlen, hgs']
    simp only [List.map_append, List.map_cons, List.map_nil, mergeRows, List.foldl_nil, firstPos, groupRow]
    cases hl : (gs.map mergeRows).getLast? with
    | none => rfl
    | some last =>
      obtain ⟨gs₀, g, hgs⟩ : ∃ gs₀ g, gs = gs₀ ++ [g] := by
        rcases List.eq_nil_or_concat gs with h0 | ⟨gs₀, g, h0⟩
        · rw [h0] at hl
          cases hl
        · exact ⟨gs₀, g, by rw [h0, List.concat_eq_append]⟩
      have hlast : mergeRows g = last := by
        rw [hgs] at hl
        simpa using hl
      have hgne : g ≠ [] := hg.ne_nil g (hgs ▸ List.mem_append_right _ (List.mem_singleton_self g))
      obtain ⟨a, b, rfl⟩ := List.exists_cons_of_ne_nil hgne
      have hb : ∀ r ∈ b, Continues a r := (hgs ▸ hg).right.body _ (List.mem_singleton_self _) a rfl
      have hnc : ¬ Continues a row := by
        refine hn (a :: b) ?_ a rfl
        show a :: b ∈ gs.getLast?
        rw [hgs]
        simp
      have hno := mt (mergeRows_continues hb row).1 hnc
      rw [hlast, not_and] at hno
      by_cases hid : last.containerID = row.entry.containerID
      · simp only [hid, if_true, groupRelated_pair, hno hid, Bool.false_eq_true, if_false]
      · simp only [hid, if_false]

/-- the first group of one row more, and where it begins -/
theorem length_head_snoc (older : List StoredRow) (row : StoredRow) :
    let gs := group Continues older
    let gs' := group Continues (older ++ [row])
    gs' ≠ [] ∧ if gs.length = 1 ∧ gs'.length = 1 then (gs'.headD []).length = older.length + 1
      else (gs'.headD []).length = max 1 (gs.headD []).length := by
  intro gs gs'
  have hf : gs.flatten = older := group_flatten older
  have hg : IsGrouping Continues gs := group_isGrouping older
  rcases group_snoc_rows older row with ⟨gs₀, a, b, e, -, e'⟩ | ⟨-, e'⟩
  · have hgs : gs = gs₀ ++ [a :: b] := e
    have hgs' : gs' = gs₀ ++ [a :: b ++ [row]] := e'
    rw [hgs, hgs']
    rw [hgs] at hf
    cases gs₀ with
    | nil =>
      simp only [List.nil_append, List.flatten_cons, List.flatten_nil, List.append_nil] at hf
      simp [← hf]
    | cons g gs₀ =>
      have hne : g ≠ [] := hg.ne_nil g (hgs ▸ List.mem_append_left _ List.mem_cons_self)
      have hpos : 1 ≤ g.length := List.length_pos_of_ne_nil hne
      simp [hpos]
  · have hgs' : gs' = gs ++ [[row]] := e'
    rw [hgs']
    cases hgs : gs with
    | nil => simp
    | cons g gs₀ =>
      have hne : g ≠ [] := hg.ne_nil g (hgs ▸ List.mem_cons_self)
      have hpos : 1 ≤ g.length := List.length_pos_of_ne_nil hne
      simp [hpos]

/-- **What groupRows computes**: the groups, the positions of their first rows, and where the oldest one begins. -/
theorem groupRows_eq (rows : List StoredRow) :
    let gs := group Continues rows.reverse
    (groupRows rows).entries = gs.map mergeRows ∧ (groupRows rows).anchors = gs.map firstPos ∧
      ∀ g gs', gs = g :: gs' → rows.drop (groupRows rows).openAt = g.reverse := by
  have hfold : ∀ (rows : List StoredRow) (k : ℕ),
      let gs := group Continues rows.reverse
      (rows.zipIdx k).foldr (fun ri g => groupRow g ri.2 ri.1) ⟨[], [], k + rows.length - 1⟩ =
        ⟨gs.map mergeRows, gs.map firstPos, k + rows.length - max 1 (gs.headD []).length⟩ := by
    intro rows
    induction rows with
    | nil => intro k; rfl
    | cons r rows ih =>
      intro k gs
      have hk : k + (r :: rows).length - 1 = k + 1 + rows.length - 1 := by
        rw [List.length_cons]
        omega
      have hgs : gs = group Continues (rows.reverse ++ [r]) := by rw [← List.reverse_cons]
      obtain ⟨-, hlen⟩ := length_head_snoc rows.reverse r
      rw [List.length_reverse] at hlen
      rw [List.zipIdx_cons, List.foldr_cons, hk, ih (k + 1), groupRow_group, ← hgs]
      rw [← hgs] at hlen
      simp only [Grouped.mk.injEq, true_and, List.length_cons]
      split_ifs at hlen ⊢ with h
      · omega
      · omega
  intro gs
  have h0 := hfold rows 0
  simp only [Nat.zero_add] at h0
  have hopen : (groupRows rows).openAt = rows.length - max 1 (gs.headD []).length := by rw [groupRows, h0]
  refine ⟨by rw [groupRows, h0], by rw [groupRows, h0], fun g gs' e => ?_⟩
  have hg : IsGrouping Continues gs := group_isGrouping rows.reverse
  have hne : g ≠ [] := hg.ne_nil g (e ▸ List.mem_cons_self)
  have hpos : 1 ≤ g.length := List.length_pos_of_ne_nil hne
  have hrows : rows = gs'.flatten.reverse ++ g.reverse := by
    have hf : gs.flatten = rows.reverse := group_flatten rows.reverse
    rw [e, List.flatten_cons] at hf
    rw [← List.reverse_append, hf, List.reverse_reverse]
  rw [hopen, e, List.headD_cons, max_eq_right hpos]
  conv_lhs => rw [hrows]
  rw [List.length_append, List.length_reverse, List.length_reverse, Nat.add_sub_cancel]
  exact List.drop_left' (List.length_reverse ..)

/-! ## What an entry keeps of its rows -/

/-- the raw lines of an entry -/
def joinRaw (raws : List (List UInt8)) : List UInt8 := List.intercalate [10] (raws.filter fun raw => raw ≠ [])

theorem intercalate_snoc {sep : List UInt8} {ls : List (List UInt8)} (h : ls ≠ []) (x : List UInt8) :
    List.intercalate sep (ls ++ [x]) = List.intercalate sep ls ++ sep ++ x := by
  induction ls with
  | nil => exact absurd rfl h
  | cons a ls ih =>
    cases ls with
    | nil => simp [List.intercalate]
    | cons b ls =>
      have := ih (List.cons_ne_nil b ls)
      simp only [List.intercalate, List.cons_append, List.intersperse_cons_cons, List.flatten_cons] at this ⊢
      rw [this]
      simp

theorem joinRaw_eq_nil {raws : List (List UInt8)} : joinRaw raws = [] ↔ raws.filter (fun raw => raw ≠ []) = [] := by
  unfold joinRaw
  have hne : ∀ raw ∈ raws.filter fun raw => raw ≠ [], raw ≠ [] := by simp
  constructor
  · intro h
    cases hr : raws.filter fun raw => raw ≠ [] with
    | nil => rfl
    | cons a ls =>
      rw [hr] at h hne
      have ha := hne a List.mem_cons_self
      cases ls with
      | nil => simp [List.intercalate, ha] at h
      | cons b ls => simp [List.intercalate, ha] at h
  · intro h
    rw [h]
    rfl

theorem joinRaw_snoc (raws : List (List UInt8)) (raw : List UInt8) :
    joinRaw (raws ++ [raw]) =
      if raw ≠ [] then (if joinRaw raws = [] then raw else joinRaw raws ++ [10] ++ raw) else joinRaw raws := by
  by_cases hr : raw = []
  · simp [joinRaw, hr]
  · rw [if_pos hr]
    by_cases h : raws.filter (fun raw => raw ≠ []) = []
    · rw [if_pos (joinRaw_eq_nil.2 h), joinRaw, List.filter_append, h]
      simp [hr, List.intercalate]
    · rw [if_neg (mt joinRaw_eq_nil.1 h), joinRaw, List.filter_append]
      have hone : [raw].filter (fun raw => raw ≠ []) = [raw] := by simp [hr]
      rw [hone, intercalate_snoc h]
      rfl

/-- an entry folded from scanned rows keeps the rows and their raw lines, in order -/
theorem mergeRows_rows {g : List StoredRow} (hg : g ≠ []) (hrow : ∀ r ∈ g, ∃ l : LineRow, r.entry.rows = [l] ∧
    r.entry.raw = l.line.raw) :
    (mergeRows g).rows = g.flatMap (fun r => r.entry.rows) ∧
      (mergeRows g).raw = joinRaw ((mergeRows g).rows.map fun l => l.line.raw) := by
  obtain ⟨h, rows, rfl⟩ := List.exists_cons_of_ne_nil hg
  induction rows using List.reverseRecOn with
  | nil =>
    obtain ⟨l, e1, e2⟩ := hrow h List.mem_cons_self
    refine ⟨by simp [mergeRows], ?_⟩
    have hnil : joinRaw [] = [] := rfl
    have hone := joinRaw_snoc [] l.line.raw
    rw [List.nil_append, hnil, if_pos rfl] at hone
    simp only [mergeRows, List.foldl_nil, e1, e2, List.map_cons, List.map_nil, hone]
    split_ifs with hr
    · rfl
    · simpa using hr
  | append_singleton rows e ih =>
    rw [← List.cons_append] at hrow ⊢
    obtain ⟨ih1, ih2⟩ := ih (List.cons_ne_nil _ _) fun r hr => hrow r (List.mem_append_left _ hr)
    obtain ⟨l, e1, e2⟩ := hrow e (List.mem_append_right _ (List.mem_singleton_self e))
    rw [mergeRows_snoc]
    have hrows : (appendContinuationLine (mergeRows (h :: rows)) e.entry).rows =
        (mergeRows (h :: rows)).rows ++ [l] := by
      rw [← e1]
      rfl
    refine ⟨?_, ?_⟩
    · rw [hrows, ih1, List.flatMap_append]
      simp [e1]
    · rw [hrows, List.map_append, List.map_cons, List.map_nil, joinRaw_snoc, ← ih2]
      simp only [appendContinuationLine, e2]

end LogDeck.LogStore
