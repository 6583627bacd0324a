/-
Chains of guards.

A guard looks at a context and either refuses it with an answer or passes it on, perhaps with something added. A chain
passes a context when each of its guards does, in order; the first refusal is the answer.

Results:
- `chain_cons_ok`: what a chain passes, its first guard passes on to the rest;
- `chain_filters`: a chain of guards that add nothing passes what each of them passes.
-/
import Mathlib.Data.List.Basic

namespace Guards

variable {C R : Type*}

/-- refuses with an answer, or passes a context on -/
abbrev Guard (C R : Type*) := C → Except R C

def chain : List (Guard C R) → Guard C R
  | [], c => .ok c
  | g :: gs, c => (g c).bind (chain gs)

theorem chain_cons_ok {g : Guard C R} {gs : List (Guard C R)} {c c'' : C} :
    chain (g :: gs) c = .ok c'' ↔ ∃ c', g c = .ok c' ∧ chain gs c' = .ok c'' := by
  simp only [chain]
  cases hg : g c with
  | error r => simp [Except.bind]
  | ok c' => simp [Except.bind]

/-- **Filters.** A chain of guards that add nothing passes a context exactly when each of them does. -/
theorem chain_filters {ι : Type*} {guard : ι → Guard C R} {Q : ι → C → Prop} {stack : List ι}
    (h : ∀ i ∈ stack, ∀ c c', guard i c = .ok c' ↔ c' = c ∧ Q i c) {c c' : C} :
    chain (stack.map guard) c = .ok c' ↔ c' = c ∧ ∀ i ∈ stack, Q i c := by
  induction stack generalizing c with
  | nil => simp [chain, @eq_comm _ c c']
  | cons i stack ih =>
    have hfirst := h i (by simp)
    have hrest : ∀ c, chain (stack.map guard) c = .ok c' ↔ c' = c ∧ ∀ j ∈ stack, Q j c :=
      fun c => ih fun j hj => h j (by simp [hj])
    rw [List.map_cons, chain_cons_ok]
    simp only [hfirst, and_assoc, exists_eq_left, hrest, List.forall_mem_cons]
    tauto

end Guards
