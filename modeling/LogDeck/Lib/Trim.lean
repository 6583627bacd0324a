/-
Trimming a weighted list from the front to a cap: the shortest prefix goes after which the rest weighs at most the cap.

`trim` looks at the whole rest before it drops an element. A program that drops a few elements at a time, and adds up
what it has dropped, computes the same (`trim_drop`): every prefix it drops leads to the same result, as long as the
rest was over the cap before each element of the prefix went.

Results:
- `trim_eq_drop`, `weight_trim_le`: what `trim` drops, and what is left;
- `shortest_trim`: the prefix is the shortest one;
- `trim_of_le`: a list within the cap is left alone;
- `trim_drop`: trimming in steps.
-/
import Mathlib.Algebra.Order.BigOperators.Group.List
import Mathlib.Algebra.Order.Ring.Int

namespace Trim

variable {α : Type*} (w : α → ℤ)

def weight (ls : List α) : ℤ := (ls.map w).sum

/-- drops elements from the front while the list is over the cap -/
def trim (cap : ℤ) : List α → List α
  | [] => []
  | a :: rest => if cap < weight w (a :: rest) then trim cap rest else a :: rest

/-- `n` elements have to go from the front: before each of them the list is over the cap, and after them it is not -/
structure Shortest (cap : ℤ) (ls : List α) (n : ℕ) : Prop where
  above : ∀ k < n, cap < weight w (ls.drop k)
  within : weight w (ls.drop n) ≤ cap

variable {w} {cap : ℤ} {ls : List α}

@[simp] theorem weight_nil : weight w [] = 0 := rfl

@[simp] theorem weight_cons (a : α) (ls : List α) : weight w (a :: ls) = w a + weight w ls := by simp [weight]

theorem weight_append (ls ls' : List α) : weight w (ls ++ ls') = weight w ls + weight w ls' := by simp [weight]

theorem weight_take_drop (k : ℕ) (ls : List α) : weight w (ls.take k) + weight w (ls.drop k) = weight w ls := by
  rw [← weight_append, List.take_append_drop]

theorem weight_nonneg (h : ∀ a ∈ ls, 0 ≤ w a) : 0 ≤ weight w ls := by
  apply List.sum_nonneg
  intro b hb
  obtain ⟨a, ha, rfl⟩ := List.mem_map.1 hb
  exact h a ha

/-- a shortest prefix is shorter than every other one that suffices -/
theorem Shortest.le {n m : ℕ} (h : Shortest w cap ls n) (hm : weight w (ls.drop m) ≤ cap) : n ≤ m := by
  by_contra hlt
  have hover := h.above m (not_le.1 hlt)
  omega

theorem trim_of_le (h : weight w ls ≤ cap) : trim w cap ls = ls := by
  cases ls with
  | nil => rfl
  | cons a ls => rw [trim, if_neg (not_lt.2 h)]

/-- trimming in steps -/
theorem trim_drop {n : ℕ} (h : ∀ k < n, cap < weight w (ls.drop k)) : trim w cap (ls.drop n) = trim w cap ls := by
  induction n generalizing ls with
  | zero => rfl
  | succ n ih =>
    cases ls with
    | nil => rfl
    | cons a ls =>
      have hhead : cap < weight w (a :: ls) := h 0 n.succ_pos
      rw [List.drop_succ_cons, trim, if_pos hhead]
      exact ih fun k hk => h (k + 1) (Nat.succ_lt_succ hk)

theorem trim_eq_drop (w : α → ℤ) (cap : ℤ) (ls : List α) :
    ∃ n, trim w cap ls = ls.drop n ∧ ∀ k < n, cap < weight w (ls.drop k) := by
  induction ls with
  | nil => exact ⟨0, rfl, fun k hk => absurd hk k.not_lt_zero⟩
  | cons a ls ih =>
    by_cases hover : cap < weight w (a :: ls)
    · obtain ⟨n, e, hn⟩ := ih
      refine ⟨n + 1, by rw [trim, if_pos hover, e, List.drop_succ_cons], fun k hk => ?_⟩
      cases k with
      | zero => exact hover
      | succ k => exact hn k (Nat.lt_of_succ_lt_succ hk)
    · exact ⟨0, trim_of_le (not_lt.1 hover), fun k hk => absurd hk k.not_lt_zero⟩

/-- what is left weighs at most the cap, or nothing is left -/
theorem weight_trim_le (w : α → ℤ) (cap : ℤ) (ls : List α) : weight w (trim w cap ls) ≤ cap ∨ trim w cap ls = [] := by
  induction ls with
  | nil => exact Or.inr rfl
  | cons a ls ih =>
    rw [trim]
    split_ifs with hover
    · exact ih
    · exact Or.inl (not_lt.1 hover)

/-- a cap under zero is met by an empty list only, as a cap of zero is -/
theorem trim_max (cap : ℤ) (h : ∀ a ∈ ls, 0 < w a) : trim w (max cap 0) ls = trim w cap ls := by
  induction ls with
  | nil => rfl
  | cons a ls ih =>
    have hrest : 0 ≤ weight w ls := weight_nonneg fun a' ha' => (h a' (List.mem_cons_of_mem a ha')).le
    have hhead : 0 < w a := h a List.mem_cons_self
    have hiff : max cap 0 < weight w (a :: ls) ↔ cap < weight w (a :: ls) := by
      rw [weight_cons]
      omega
    rw [trim, trim, ih fun a' ha' => h a' (List.mem_cons_of_mem a ha')]
    simp only [hiff]

/-- under a cap that an empty list keeps, the prefix that goes is the shortest one that suffices -/
theorem shortest_trim (hcap : 0 ≤ cap) (ls : List α) : ∃ n, trim w cap ls = ls.drop n ∧ Shortest w cap ls n := by
  obtain ⟨n, e, hover⟩ := trim_eq_drop w cap ls
  refine ⟨n, e, hover, ?_⟩
  rw [← e]
  rcases weight_trim_le w cap ls with hle | hnil
  · exact hle
  · rw [hnil]
    exact hcap

end Trim
