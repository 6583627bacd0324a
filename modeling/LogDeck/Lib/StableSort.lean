/-
General: insertion sort is stable. Equivalent elements keep their order, so sorting the parts of a list first and then
the sorted parts together is sorting the list.

Results:
- `orderedInsert_comm`: elements that are not equivalent may be inserted in either order;
- `insertionSort_flatten_map`: sorting parts first changes nothing.
-/
import Mathlib.Data.List.Sort

namespace LogDeck.StableSort

variable {α : Type*} (r : α → α → Prop) [DecidableRel r]

/-- two elements that are not equivalent may be inserted in either order -/
theorem orderedInsert_comm [IsTrans α r] {a b : α} (hba : r b a) (hab : ¬ r a b) (l : List α) :
    (l.orderedInsert r a).orderedInsert r b = (l.orderedInsert r b).orderedInsert r a := by
  induction l with
  | nil => simp [hba, hab]
  | cons c l ih =>
    by_cases hac : r a c
    · have hbc : r b c := IsTrans.trans b a c hba hac
      simp [hac, hbc, hba, hab]
    · by_cases hbc : r b c
      · simp [hac, hbc, hab]
      · simp [hac, hbc, ih]

/-- inserting the elements of a list into another, from the last to the first -/
def insertAll (l into : List α) : List α := l.foldr (List.orderedInsert r) into

theorem insertionSort_append (l₁ l₂ : List α) :
    (l₁ ++ l₂).insertionSort r = insertAll r l₁ (l₂.insertionSort r) := by
  rw [List.insertionSort, List.foldr_append]
  rfl

theorem insertAll_orderedInsert [IsTrans α r] [Std.Total r] (a : α) (l into : List α) :
    insertAll r (l.orderedInsert r a) into = (insertAll r l into).orderedInsert r a := by
  induction l with
  | nil => rfl
  | cons b l ih =>
    by_cases hab : r a b
    · rw [List.orderedInsert_cons_of_le r l hab]
      rfl
    · have hba : r b a := (Std.Total.total a b : r a b ∨ r b a).resolve_left hab
      rw [List.orderedInsert_of_not_le r l hab]
      calc insertAll r (b :: l.orderedInsert r a) into
          = ((insertAll r l into).orderedInsert r a).orderedInsert r b := congrArg (List.orderedInsert r b) ih
        _ = ((insertAll r l into).orderedInsert r b).orderedInsert r a := orderedInsert_comm r hba hab _

theorem insertAll_insertionSort [IsTrans α r] [Std.Total r] (l into : List α) :
    insertAll r (l.insertionSort r) into = insertAll r l into := by
  induction l with
  | nil => rfl
  | cons a l ih =>
    rw [List.insertionSort_cons, insertAll_orderedInsert, ih]
    rfl

/-- sorting parts first changes nothing -/
theorem insertionSort_flatten_map [IsTrans α r] [Std.Total r] (parts : List (List α)) :
    (parts.map (List.insertionSort r)).flatten.insertionSort r = parts.flatten.insertionSort r := by
  induction parts with
  | nil => rfl
  | cons l parts ih =>
    rw [List.map_cons, List.flatten_cons, List.flatten_cons, insertionSort_append, insertionSort_append, ih,
      insertAll_insertionSort]

end LogDeck.StableSort
