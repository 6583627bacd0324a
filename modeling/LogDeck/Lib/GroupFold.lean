/-
Grouping in one pass: a map with an accumulator for every key that the rows of a list have.

The order of the groups is that in which their keys are first met; a program that ranges over a hash map sees some
permutation of them.

Results:
- `nodup_collect`: there is one group for a key;
- `mem_collect`: the accumulator of a key is the fold over its own rows, in their order.
-/
import Mathlib.Data.List.Induction
import Mathlib.Data.List.Nodup

namespace GroupFold

variable {R K A : Type*} [DecidableEq K] (key : R → K) (start : K → A) (step : A → R → A)

/-- the groups after one more row; a new group at the end if there is none with its key -/
def file (groups : List (K × A)) (r : R) : List (K × A) :=
  match groups with
  | [] => [(key r, step (start (key r)) r)]
  | (k, a) :: groups => if k = key r then (k, step a r) :: groups else (k, a) :: file groups r

def collect (rows : List R) : List (K × A) := rows.foldl (file key start step) []

/-- the rows of one key -/
def group (k : K) (rows : List R) : List R := rows.filter fun r => key r = k

variable {key start step}

theorem keys_file (groups : List (K × A)) (r : R) :
    (file key start step groups r).map Prod.fst =
      if key r ∈ groups.map Prod.fst then groups.map Prod.fst else groups.map Prod.fst ++ [key r] := by
  induction groups with
  | nil => rfl
  | cons g groups ih =>
    obtain ⟨k, a⟩ := g
    unfold file
    by_cases hk : k = key r
    · simp only [List.map_cons, hk, List.mem_cons_self, if_true]
    · simp only [if_neg hk, List.map_cons, ih, List.mem_cons, Ne.symm hk, false_or]
      split_ifs
      · rfl
      · rfl

theorem lookup_file (groups : List (K × A)) (r : R) (k : K) :
    (file key start step groups r).lookup k =
      if k = key r then some (step ((groups.lookup k).getD (start k)) r) else groups.lookup k := by
  induction groups with
  | nil =>
    by_cases hk : k = key r
    · simp [file, hk]
    · simp [file, hk, List.lookup_cons, beq_eq_false_iff_ne.2 hk]
  | cons g groups ih =>
    obtain ⟨k', a⟩ := g
    unfold file
    by_cases hk' : k' = key r
    · rw [if_pos hk']
      by_cases hk : k = key r
      · simp [hk, hk']
      · have hne : k ≠ k' := fun heq => hk (heq.trans hk')
        simp [hk, List.lookup_cons, beq_eq_false_iff_ne.2 hne]
    · rw [if_neg hk', List.lookup_cons, List.lookup_cons, ih]
      by_cases heq : k = k'
      · subst heq
        simp [hk']
      · rw [beq_eq_false_iff_ne.2 heq]

theorem nodup_collect (rows : List R) : ((collect key start step rows).map Prod.fst).Nodup := by
  induction rows using List.reverseRecOn with
  | nil => exact List.nodup_nil
  | append_singleton rows r ih =>
    unfold collect at ih ⊢
    rw [List.foldl_append, List.foldl_cons, List.foldl_nil, keys_file]
    split_ifs with hmem
    · exact ih
    · rw [← List.concat_eq_append]
      exact ih.concat hmem

theorem lookup_collect (rows : List R) (k : K) :
    (collect key start step rows).lookup k =
      if group key k rows = [] then none else some ((group key k rows).foldl step (start k)) := by
  induction rows using List.reverseRecOn with
  | nil => rfl
  | append_singleton rows r ih =>
    have hgroup : group key k (rows ++ [r]) = group key k rows ++ if key r = k then [r] else [] := by
      unfold group
      rw [List.filter_append, List.filter_singleton]
      by_cases hk : key r = k
      · simp [hk]
      · simp [hk]
    have hcollect : collect key start step (rows ++ [r]) = file key start step (collect key start step rows) r := by
      unfold collect
      rw [List.foldl_append, List.foldl_cons, List.foldl_nil]
    rw [hcollect, lookup_file, hgroup]
    by_cases hk : key r = k
    · have hbefore : ((collect key start step rows).lookup k).getD (start k) = (group key k rows).foldl step (start k) := by
        rw [ih]
        split_ifs with hempty
        · rw [hempty]
          rfl
        · rfl
      have hne : group key k rows ++ [r] ≠ [] := List.append_ne_nil_of_right_ne_nil _ (List.cons_ne_nil r [])
      rw [if_pos hk.symm, if_pos hk, if_neg hne, hbefore, List.foldl_append]
      rfl
    · rw [if_neg (Ne.symm hk), if_neg hk, List.append_nil, ih]

theorem lookup_eq_some_iff {groups : List (K × A)} (h : (groups.map Prod.fst).Nodup) {k : K} {a : A} :
    groups.lookup k = some a ↔ (k, a) ∈ groups := by
  induction groups with
  | nil => simp
  | cons g groups ih =>
    obtain ⟨k', a'⟩ := g
    rw [List.map_cons, List.nodup_cons] at h
    obtain ⟨hnew, hrest⟩ := h
    rw [List.lookup_cons, List.mem_cons, Prod.mk.injEq]
    by_cases hk : k = k'
    · subst hk
      have habsent : (k, a) ∉ groups := fun hmem => hnew (List.mem_map.2 ⟨(k, a), hmem, rfl⟩)
      simp only [BEq.rfl, Option.some.injEq, true_and, habsent, or_false]
      exact eq_comm
    · rw [beq_eq_false_iff_ne.2 hk]
      simp only [hk, false_and, false_or]
      exact ih hrest

/-- **The groups.** One for every key of the rows, with the fold over the rows of that key. -/
theorem mem_collect {rows : List R} {k : K} {a : A} :
    (k, a) ∈ collect key start step rows ↔ (∃ r ∈ rows, key r = k) ∧ a = (group key k rows).foldl step (start k) := by
  have hsome : group key k rows ≠ [] ↔ ∃ r ∈ rows, key r = k := by
    unfold group
    rw [ne_eq, List.filter_eq_nil_iff]
    simp
  rw [← lookup_eq_some_iff (nodup_collect rows), lookup_collect, ← hsome]
  by_cases hempty : group key k rows = []
  · simp [hempty]
  · rw [if_neg hempty, Option.some.injEq, and_iff_right hempty]
    exact eq_comm

end GroupFold
