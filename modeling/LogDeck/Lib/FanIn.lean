/-
Fan-in: several producers hand values to one consumer over an unbuffered channel.

A producer that has made a value offers it until the consumer takes it, or gives it up. What the consumer has taken is
tagged with the producer. In any interleaving,
- `Conserved`: while nobody gives up, what a producer has made is what was taken of it and what it offers, in order;
- `Covered`: otherwise the values that were given up are missing, and nothing else.

Results: `conserved_offer`, `conserved_take` and `covered_offer`, `covered_take`, `covered_drop`, one for each operation.
-/
import Mathlib.Data.List.Basic
import Mathlib.Logic.Function.Basic

namespace FanIn

variable {H E : Type*} [DecidableEq H]

/-- what was taken of one producer -/
def takenOf (h : H) (taken : List (H × E)) : List E := (taken.filter fun x => x.1 = h).map Prod.snd

theorem takenOf_snoc (h h' : H) (e : E) (taken : List (H × E)) :
    takenOf h (taken ++ [(h', e)]) = takenOf h taken ++ if h' = h then [e] else [] := by
  unfold takenOf
  rw [List.filter_append, List.map_append, List.filter_singleton]
  by_cases heq : h' = h
  · simp [heq]
  · simp [heq]

/-- what each producer has made is what was taken of it, and then what it offers -/
def Conserved (made : H → List E) (taken : List (H × E)) (offer : H → Option E) : Prop :=
  ∀ h, made h = takenOf h taken ++ (offer h).toList

/-- what was taken of each producer, and then what it offers, is part of what it has made -/
def Covered (made : H → List E) (taken : List (H × E)) (offer : H → Option E) : Prop :=
  ∀ h, (takenOf h taken ++ (offer h).toList).Sublist (made h)

variable {made : H → List E} {taken : List (H × E)} {offer : H → Option E} {h : H} {e : E}

theorem Conserved.covered (hc : Conserved made taken offer) : Covered made taken offer := fun h => by
  rw [hc h]

theorem conserved_offer (hc : Conserved made taken offer) (hnone : offer h = none) (e : E) :
    Conserved (Function.update made h (made h ++ [e])) taken (Function.update offer h (some e)) := by
  intro h'
  by_cases heq : h' = h
  · subst heq
    rw [Function.update_self, Function.update_self, hc h', hnone]
    simp
  · rw [Function.update_of_ne heq, Function.update_of_ne heq]
    exact hc h'

theorem conserved_take (hc : Conserved made taken offer) (hsome : offer h = some e) :
    Conserved made (taken ++ [(h, e)]) (Function.update offer h none) := by
  intro h'
  rw [takenOf_snoc]
  by_cases heq : h' = h
  · subst heq
    rw [Function.update_self, hc h', hsome]
    simp
  · rw [Function.update_of_ne heq, if_neg (Ne.symm heq), List.append_nil]
    exact hc h'

theorem covered_offer (hc : Covered made taken offer) (hnone : offer h = none) (e : E) :
    Covered (Function.update made h (made h ++ [e])) taken (Function.update offer h (some e)) := by
  intro h'
  by_cases heq : h' = h
  · subst heq
    have hmade := hc h'
    rw [hnone, Option.toList_none, List.append_nil] at hmade
    rw [Function.update_self, Function.update_self]
    exact hmade.append (List.Sublist.refl [e])
  · rw [Function.update_of_ne heq, Function.update_of_ne heq]
    exact hc h'

theorem covered_take (hc : Covered made taken offer) (hsome : offer h = some e) :
    Covered made (taken ++ [(h, e)]) (Function.update offer h none) := by
  intro h'
  rw [takenOf_snoc]
  by_cases heq : h' = h
  · subst heq
    have hmade := hc h'
    rw [hsome] at hmade
    simpa using hmade
  · rw [Function.update_of_ne heq, if_neg (Ne.symm heq), List.append_nil]
    exact hc h'

/-- a value that is given up -/
theorem covered_drop (hc : Covered made taken offer) (h : H) : Covered made taken (Function.update offer h none) := by
  intro h'
  by_cases heq : h' = h
  · subst heq
    rw [Function.update_self, Option.toList_none, List.append_nil]
    exact (List.sublist_append_left ..).trans (hc h')
  · rw [Function.update_of_ne heq]
    exact hc h'

end FanIn
