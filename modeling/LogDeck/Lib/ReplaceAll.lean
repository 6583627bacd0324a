/-
Replacing every occurrence of a word.

The text is read from the left; where the word starts, the replacement is written and the word is skipped, so that
occurrences that overlap a replaced one are not replaced again.

Results:
- `prefix_of_replaceFrom`: a text without letters of the replacement that the result starts with is one the original
  starts with;
- `not_infix_replaceAll`: no occurrence is left, nor does one arise, when the replacement shares no letter with the word.
-/
import Mathlib.Data.List.Infix

namespace ReplaceAll

variable {α : Type*} [DecidableEq α] (old new : List α)

/-- the text from a position on, when `skip` letters of the word before it are still to be skipped -/
def replaceFrom : ℕ → List α → List α
  | _, [] => []
  | 0, c :: cs => if old <+: c :: cs then new ++ replaceFrom (old.length - 1) cs else c :: replaceFrom 0 cs
  | skip + 1, _ :: cs => replaceFrom skip cs

/-- `strings.ReplaceAll` for a word that is not empty -/
def replaceAll (s : List α) : List α := replaceFrom old new 0 s

variable {old new}

theorem prefix_of_replaceFrom (hnew : new ≠ []) {p : List α} (hp : ∀ a ∈ p, a ∉ new) {s : List α}
    (h : p <+: replaceFrom old new 0 s) : p <+: s := by
  induction s generalizing p with
  | nil => exact h
  | cons c cs ih =>
    cases p with
    | nil => exact List.nil_prefix
    | cons a p =>
      simp only [replaceFrom] at h
      split_ifs at h with hold
      · -- the result starts with a letter of the replacement
        obtain ⟨b, bs, rfl⟩ := List.exists_cons_of_ne_nil hnew
        obtain ⟨rfl, -⟩ := List.cons_prefix_cons.1 h
        exact absurd List.mem_cons_self (hp a List.mem_cons_self)
      · obtain ⟨hhead, htail⟩ := List.cons_prefix_cons.1 h
        have hrest : p <+: cs := ih (fun b hb => hp b (List.mem_cons_of_mem a hb)) htail
        exact List.cons_prefix_cons.2 ⟨hhead, hrest⟩

/-- no end of the result starts with the word -/
theorem not_prefix_of_suffix (hnew : new ≠ []) (hold : old ≠ []) (hdisjoint : ∀ a ∈ old, a ∉ new) {skip : ℕ}
    {s t : List α} (ht : t <:+ replaceFrom old new skip s) : ¬ old <+: t := by
  induction s generalizing skip t with
  | nil =>
    have hempty : t = [] := List.suffix_nil.1 (by cases skip <;> exact ht)
    rw [hempty, List.prefix_nil]
    exact hold
  | cons c cs ih =>
    cases skip with
    | succ skip => exact ih ht
    | zero =>
      simp only [replaceFrom] at ht
      split_ifs at ht with hhere
      · obtain ⟨before, hbefore⟩ := ht
        rcases List.append_eq_append_iff.1 hbefore with ⟨ends, hends, rfl⟩ | ⟨middle, -, hrest⟩
        · cases ends with
          | nil => exact ih (List.suffix_refl _)
          | cons b bs =>
            intro hstarts
            obtain ⟨a, as, rfl⟩ := List.exists_cons_of_ne_nil hold
            obtain ⟨hhead, -⟩ := List.cons_prefix_cons.1 hstarts
            have hmem : b ∈ new := by simp [hends]
            exact hdisjoint a List.mem_cons_self (hhead ▸ hmem)
        · exact ih ⟨middle, hrest.symm⟩
      · rcases List.suffix_cons_iff.1 ht with rfl | hrest
        · intro hstarts
          apply hhere
          obtain ⟨a, as, rfl⟩ := List.exists_cons_of_ne_nil hold
          obtain ⟨hhead, htail⟩ := List.cons_prefix_cons.1 hstarts
          have has : ∀ b ∈ as, b ∉ new := fun b hb => hdisjoint b (List.mem_cons_of_mem a hb)
          have hrest : as <+: cs := prefix_of_replaceFrom hnew has htail
          exact List.cons_prefix_cons.2 ⟨hhead, hrest⟩
        · exact ih hrest

/-- **Replacement.** Nothing is left of a word that is replaced by other letters. -/
theorem not_infix_replaceAll (hnew : new ≠ []) (hold : old ≠ []) (hdisjoint : ∀ a ∈ old, a ∉ new) (s : List α) :
    ¬ old <:+: replaceAll old new s := by
  rintro ⟨before, after, h⟩
  have hsuffix : old ++ after <:+ replaceFrom old new 0 s := ⟨before, by rw [← List.append_assoc]; exact h⟩
  exact not_prefix_of_suffix hnew hold hdisjoint hsuffix (List.prefix_append old after)

end ReplaceAll
