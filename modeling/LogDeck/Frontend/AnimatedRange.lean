/-
The rows of a live stream (`animated-range.ts`: `mapRawRangeToGroupedRange`), over the grouper of the frontend.

The stream hook counts raw entries, and the viewer renders rows. A row tells how many entries it holds, so adding up the
rows before it gives the raw index of its first entry. A stream of several containers interleaves their lines; a line
carries the id and the name of its container, and the grouper compares the names.

Results:
- `blocks_eq`: the entries that the rows count off are the groups;
- `mapRawRange_eq`: the rows of a raw range;
- `partitions_iff`: no row mixes containers if and only if no line of a container goes on with a row that ends with a
  line of another one;
- `namesakes_share_row`: two containers of one name, on two hosts.
-/
import Mathlib.Data.List.SplitLengths
import LogDeck.Docker.Aggregate
import LogDeck.Frontend.Grouper

namespace LogDeck.Frontend

open HeadGroup
open LogDeck.Aggregate (LogTarget tagLogEntry)

/-! ## The range of rows -/

structure IndexRange where
  start : ℤ
  «end» : ℤ
deriving DecidableEq, Repr

/-- the raw entries of a row -/
def span (row : LogEntry) : ℕ := 1 + row.continuationCount.getD 0

/-- the variables of the loop; `start` and `stop` are -1 until a row is found -/
structure RangeScan where
  i : ℤ := 0
  rawIndex : ℤ := 0
  start : ℤ := -1
  stop : ℤ := -1
deriving DecidableEq, Repr

/-- one row of the loop -/
def RangeScan.row (rawRange : IndexRange) (s : RangeScan) (entry : LogEntry) : RangeScan :=
  let rowStart := s.rawIndex
  let rowEnd := s.rawIndex + span entry - 1
  let s :=
    if rowEnd ≥ rawRange.start ∧ rowStart ≤ rawRange.end then
      { s with start := if s.start = -1 then s.i else s.start, stop := s.i }
    else s
  { s with rawIndex := s.rawIndex + span entry, i := s.i + 1 }

def mapRawRangeToGroupedRange (groupedEntries : List LogEntry) (rawRange : Option IndexRange) : Option IndexRange :=
  match rawRange with
  | none => none
  | some rawRange =>
    let s := groupedEntries.foldl (RangeScan.row rawRange) {}
    if s.start = -1 then none else some ⟨s.start, s.stop⟩

/-- the raw index of the first entry of row `i` -/
def offset (rows : List LogEntry) (i : ℕ) : ℕ := ((rows.take i).map span).sum

/-- a raw index of the range is one of row `i` -/
def Meets (rows : List LogEntry) (start stop i : ℕ) : Prop :=
  ∃ k, start ≤ k ∧ k ≤ stop ∧ offset rows i ≤ k ∧ k < offset rows (i + 1)

section
variable {rows : List LogEntry} {start stop : ℕ}

theorem offset_succ {i : ℕ} (hi : i < rows.length) : offset rows (i + 1) = offset rows i + span rows[i] := by
  unfold offset
  rw [List.take_succ_eq_append_getElem hi, List.map_append, List.sum_append]
  rfl

theorem offset_mono {i j : ℕ} (h : i ≤ j) : offset rows i ≤ offset rows j := by
  unfold offset
  exact (List.Sublist.map span (List.take_sublist_take_left h)).sum_le_sum fun _ _ => Nat.zero_le _

theorem span_pos (row : LogEntry) : 0 < span row := by
  unfold span
  omega

theorem meets_iff {i : ℕ} (hle : start ≤ stop) (hi : i < rows.length) :
    Meets rows start stop i ↔ offset rows i ≤ stop ∧ start < offset rows (i + 1) := by
  have hsucc := offset_succ hi
  have hspan := span_pos rows[i]
  constructor
  · rintro ⟨k, h1, h2, h3, h4⟩
    exact ⟨h3.trans h2, h1.trans_lt h4⟩
  · rintro ⟨h1, h2⟩
    exact ⟨max start (offset rows i), le_max_left _ _, max_le hle h1, le_max_right _ _, max_lt h2 (by omega)⟩

/-- the rows between two that meet a range meet it -/
theorem meets_between {i j k : ℕ} (hle : start ≤ stop) (hk : k < rows.length) (hij : i ≤ j) (hjk : j ≤ k)
    (hi : Meets rows start stop i) (hmeets : Meets rows start stop k) : Meets rows start stop j := by
  rw [meets_iff hle (by omega)] at hi hmeets ⊢
  exact ⟨(offset_mono hjk).trans hmeets.1, hi.2.trans_le (offset_mono (by omega))⟩

/-- what the loop knows after `n` rows: where it is, and the rows found so far -/
structure Found (rows : List LogEntry) (start stop n : ℕ) (s : RangeScan) : Prop where
  i : s.i = n
  rawIndex : s.rawIndex = offset rows n
  found : (s.start = -1 ∧ ∀ j < n, ¬ Meets rows start stop j) ∨
    ∃ a b : ℕ, s.start = a ∧ s.stop = b ∧ a ≤ b ∧ b < n ∧ ∀ j < n, Meets rows start stop j ↔ a ≤ j ∧ j ≤ b

theorem found_row {n : ℕ} {s : RangeScan} (hle : start ≤ stop) (hn : n < rows.length)
    (h : Found rows start stop n s) : Found rows start stop (n + 1) (s.row ⟨start, stop⟩ rows[n]) := by
  have hsucc := offset_succ hn
  have htest : (s.rawIndex + span rows[n] - 1 ≥ (start : ℤ) ∧ s.rawIndex ≤ (stop : ℤ)) ↔ Meets rows start stop n := by
    rw [meets_iff hle hn, h.rawIndex]
    omega
  by_cases hmeets : Meets rows start stop n
  · have hrow : s.row ⟨start, stop⟩ rows[n] =
        ⟨s.i + 1, s.rawIndex + span rows[n], if s.start = -1 then s.i else s.start, s.i⟩ := by
      unfold RangeScan.row
      dsimp only
      rw [if_pos (htest.2 hmeets)]
    rw [hrow]
    refine ⟨by rw [h.i]; rfl, by rw [h.rawIndex, hsucc]; rfl, Or.inr ?_⟩
    rcases h.found with ⟨hnone, hbefore⟩ | ⟨a, b, ha, hb, hab, hbn, hbefore⟩
    · refine ⟨n, n, by rw [if_pos hnone, h.i], h.i, le_rfl, Nat.lt_succ_self n, fun j hj => ?_⟩
      constructor
      · intro hj'
        have hnot : ¬ j < n := fun hlt => hbefore j hlt hj'
        omega
      · rintro ⟨h1, h2⟩
        rwa [le_antisymm h2 h1]
    · have hset : s.start ≠ -1 := by omega
      refine ⟨a, n, by rw [if_neg hset, ha], h.i, by omega, Nat.lt_succ_self n, fun j hj => ?_⟩
      constructor
      · intro hj'
        rcases Nat.lt_succ_iff_lt_or_eq.1 hj with hlt | rfl
        · exact ⟨((hbefore j hlt).1 hj').1, hlt.le⟩
        · exact ⟨by omega, le_rfl⟩
      · rintro ⟨h1, h2⟩
        exact meets_between hle hn h1 h2 ((hbefore a (by omega)).2 ⟨le_rfl, hab⟩) hmeets
  · have hrow : s.row ⟨start, stop⟩ rows[n] = ⟨s.i + 1, s.rawIndex + span rows[n], s.start, s.stop⟩ := by
      unfold RangeScan.row
      dsimp only
      rw [if_neg (mt htest.1 hmeets)]
    rw [hrow]
    refine ⟨by rw [h.i]; rfl, by rw [h.rawIndex, hsucc]; rfl, ?_⟩
    rcases h.found with ⟨hnone, hbefore⟩ | ⟨a, b, ha, hb, hab, hbn, hbefore⟩
    · refine Or.inl ⟨hnone, fun j hj => ?_⟩
      rcases Nat.lt_succ_iff_lt_or_eq.1 hj with hlt | rfl
      · exact hbefore j hlt
      · exact hmeets
    · refine Or.inr ⟨a, b, ha, hb, hab, by omega, fun j hj => ?_⟩
      rcases Nat.lt_succ_iff_lt_or_eq.1 hj with hlt | rfl
      · exact hbefore j hlt
      · exact iff_of_false hmeets fun hj' => by omega

theorem found_scan (hle : start ≤ stop) {n : ℕ} (hn : n ≤ rows.length) :
    Found rows start stop n ((rows.take n).foldl (RangeScan.row ⟨start, stop⟩) {}) := by
  induction n with
  | zero => exact ⟨rfl, rfl, Or.inl ⟨rfl, fun j hj => absurd hj (Nat.not_lt_zero j)⟩⟩
  | succ n ih =>
    rw [List.take_succ_eq_append_getElem hn, List.foldl_append]
    exact found_row hle hn (ih (Nat.le_of_succ_le hn))

/-- **The rows of a raw range.** For a range inside the entries, exactly the rows that hold one of it. -/
theorem mapRawRange_eq (hle : start ≤ stop) (hstop : stop < offset rows rows.length) :
    ∃ a b : ℕ, mapRawRangeToGroupedRange rows (some ⟨start, stop⟩) = some ⟨a, b⟩ ∧ a ≤ b ∧ b < rows.length ∧
      ∀ i < rows.length, Meets rows start stop i ↔ a ≤ i ∧ i ≤ b := by
  have hscan := found_scan hle (le_refl rows.length)
  rw [List.take_length] at hscan
  rcases hscan.found with ⟨-, hnone⟩ | ⟨a, b, ha, hb, hab, hbn, hall⟩
  · -- the row that holds the last entry of the range
    exfalso
    have hrow : ∀ n ≤ rows.length, stop < offset rows n → ∃ j < n, Meets rows start stop j := by
      intro n
      induction n with
      | zero => exact fun _ h => absurd h (Nat.not_lt_zero _)
      | succ n ih =>
        intro hn hlt
        by_cases hbefore : stop < offset rows n
        · obtain ⟨j, hj, hmeets⟩ := ih (by omega) hbefore
          exact ⟨j, by omega, hmeets⟩
        · exact ⟨n, Nat.lt_succ_self n, stop, hle, le_rfl, by omega, hlt⟩
    obtain ⟨j, hj, hmeets⟩ := hrow _ le_rfl hstop
    exact hnone j hj hmeets
  · refine ⟨a, b, ?_, hab, hbn, hall⟩
    have hset : ((rows.foldl (RangeScan.row ⟨start, stop⟩) {}).start) ≠ -1 := by omega
    unfold mapRawRangeToGroupedRange
    dsimp only
    rw [if_neg hset, ha, hb]

end

/-! ## Live entries -/

/-- a line of a container as the stream sends it, before any grouping -/
structure LiveEntry where
  target : LogTarget
  line : Models.LogEntry
  ungrouped : line.continuationCount = 0
deriving DecidableEq

namespace LiveEntry

/-- the entry that the frontend receives -/
def entry (l : LiveEntry) : LogEntry := toClient (tagLogEntry l.target l.line)

/-- the container, by host and id -/
def container (l : LiveEntry) : LogStore.GenKey := l.target.key

/-- the second line would be folded into a row that starts with the first one -/
def Continues (h e : LiveEntry) : Prop := ContinuesEntry h.entry e.entry

instance : DecidableRel Continues := fun h e => inferInstanceAs (Decidable (ContinuesEntry h.entry e.entry))

end LiveEntry

/-- the rows of a stream -/
def rowsOf (live : List LiveEntry) : List LogEntry := groupRelatedLogEntries (live.map LiveEntry.entry)

/-- the entries, as the rows count them off -/
def blocks (live : List LiveEntry) : List (List LiveEntry) := ((rowsOf live).map span).splitLengths live

theorem count_foldl (h : LogEntry) (es : List LogEntry) :
    (es.foldl appendContinuationLogEntry h).continuationCount.getD 0 = h.continuationCount.getD 0 + es.length := by
  induction es generalizing h with
  | nil => rfl
  | cons e es ih =>
    rw [List.foldl_cons, ih, List.length_cons]
    have hone : (appendContinuationLogEntry h e).continuationCount.getD 0 = h.continuationCount.getD 0 + 1 := rfl
    omega

theorem entry_count (l : LiveEntry) : l.entry.continuationCount = none := by
  have hzero : (tagLogEntry l.target l.line).continuationCount = 0 := l.ungrouped
  exact if_pos hzero

theorem rowsOf_eq (live : List LiveEntry) : rowsOf live =
    (group LiveEntry.Continues live).filterMap fun g => merge appendContinuationLogEntry (g.map LiveEntry.entry) := by
  unfold rowsOf
  rw [groupRelatedLogEntries_eq, group_map LiveEntry.entry live, List.filterMap_map]
  rfl

/-- a row counts the lines of its group -/
theorem span_merge {g : List LiveEntry} {row : LogEntry}
    (h : merge appendContinuationLogEntry (g.map LiveEntry.entry) = some row) : span row = g.length := by
  cases g with
  | nil => cases h
  | cons l ls =>
    obtain rfl := Option.some.inj h
    unfold span
    rw [count_foldl, entry_count, List.length_map, List.length_cons, Option.getD_none]
    omega

theorem spans_eq (live : List LiveEntry) :
    (rowsOf live).map span = (group LiveEntry.Continues live).map List.length := by
  have hne := (@group_isGrouping _ LiveEntry.Continues _ live).ne_nil
  rw [rowsOf_eq]
  generalize group LiveEntry.Continues live = gs at hne
  induction gs with
  | nil => rfl
  | cons g gs ih =>
    obtain ⟨l, ls, rfl⟩ := List.exists_cons_of_ne_nil (hne g List.mem_cons_self)
    have hmerge : merge appendContinuationLogEntry ((l :: ls).map LiveEntry.entry) =
        some ((ls.map LiveEntry.entry).foldl appendContinuationLogEntry l.entry) := rfl
    rw [List.filterMap_cons_some (by exact hmerge), List.map_cons, List.map_cons, span_merge hmerge,
      ih fun g' hg' => hne g' (List.mem_cons_of_mem _ hg')]

/-- **The blocks are the groups.** -/
theorem blocks_eq (live : List LiveEntry) : blocks live = group LiveEntry.Continues live := by
  unfold blocks
  rw [spans_eq]
  have hflat := @group_flatten _ LiveEntry.Continues _ live
  generalize group LiveEntry.Continues live = gs at hflat
  subst hflat
  induction gs with
  | nil => rfl
  | cons g gs ih =>
    rw [List.map_cons, List.splitLengths_cons, List.flatten_cons, List.take_left, List.drop_left, ih]

/-! ## Partitions -/

/-- the rows partition the live entries -/
structure Partitions (live : List LiveEntry) : Prop where
  /-- the blocks cover the entries, each with as many as its row counts -/
  cover : ((rowsOf live).map span).sum = live.length
  /-- a row is made of its block -/
  rows : rowsOf live = (blocks live).filterMap fun b => merge appendContinuationLogEntry (b.map LiveEntry.entry)
  /-- a block is of one container -/
  single : ∀ b ∈ blocks live, ∀ x ∈ b, ∀ y ∈ b, x.container = y.container
  /-- a raw range inside the entries is shown as the rows whose blocks meet it -/
  ranges : ∀ start stop : ℕ, start ≤ stop → stop < live.length →
    ∃ a b : ℕ, mapRawRangeToGroupedRange (rowsOf live) (some ⟨start, stop⟩) = some ⟨a, b⟩ ∧ a ≤ b ∧
      b < (rowsOf live).length ∧ ∀ i < (rowsOf live).length, Meets (rowsOf live) start stop i ↔ a ≤ i ∧ i ≤ b

/-- no line continues a row whose last line, the one just before it, is of another container -/
def KeptApart : List LiveEntry → Prop
  | [] => True
  | l :: ls => Separate LiveEntry.Continues LiveEntry.container l l ls

theorem cover (live : List LiveEntry) : ((rowsOf live).map span).sum = live.length := by
  rw [spans_eq, ← List.length_flatten, group_flatten]

/-- **Rows, exactly.** The rows of a live stream always cover it in blocks, and a raw range is always mapped to the rows
that hold it. They partition it by container if and only if, wherever a line of one container follows a line of another,
it does not continue the row that is open there. -/
theorem partitions_iff (live : List LiveEntry) : Partitions live ↔ KeptApart live := by
  have hsingle : (∀ b ∈ blocks live, ∀ x ∈ b, ∀ y ∈ b, x.container = y.container) ↔ KeptApart live := by
    rw [blocks_eq]
    cases live with
    | nil => exact iff_of_true (fun b hb => absurd hb List.not_mem_nil) trivial
    | cons l ls => exact close_kind_iff (fun x hx => by rw [List.mem_singleton.1 hx]) ls
  rw [← hsingle]
  refine ⟨fun h => h.single, fun h => ⟨cover live, by rw [blocks_eq, rowsOf_eq], h, fun start stop hle hstop => ?_⟩⟩
  apply mapRawRange_eq hle
  unfold offset
  rwa [List.take_length, cover]

/-! ## Namesakes -/

/-- an error of a container, and a line of a container of the same name on another host -/
def namesakes : List LiveEntry :=
  [{ target := ⟨"one", "c1", "web"⟩
     line := { timestamp := 0, level := .error, message := "request failed", stream := .stdout, raw := [] }
     ungrouped := rfl },
   { target := ⟨"two", "c2", "web"⟩
     line := { timestamp := 1, level := .unknown, message := "at startup", stream := .stdout, raw := [] }
     ungrouped := rfl }]

/-- **Two containers in a row.** The second line becomes a continuation of the error of the first container. -/
theorem namesakes_share_row : ¬ Partitions namesakes := by
  intro h
  have hblocks : blocks namesakes = [namesakes] := by decide
  have hsame := h.single namesakes (by rw [hblocks]; exact List.mem_singleton_self _)
  exact absurd (hsame (namesakes.get ⟨0, by decide⟩) (List.get_mem _ _) (namesakes.get ⟨1, by decide⟩)
    (List.get_mem _ _)) (by decide)

end LogDeck.Frontend
