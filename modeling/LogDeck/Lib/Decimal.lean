/-
Decimal rendering of integers, and the parser of signed 64-bit decimals.

The parser takes an optional sign and at least one digit, and rejects values outside the 64-bit range.

Result: `parseInt64_render`.
-/
import Mathlib.Tactic

namespace Decimal

def digitChar (d : ℕ) : Char := Char.ofNat (48 + d)

def digitValue (c : Char) : Option ℕ := if '0' ≤ c ∧ c ≤ '9' then some (c.toNat - 48) else none

def renderNat (n : ℕ) : List Char := if n = 0 then ['0'] else (Nat.digits 10 n).reverse.map digitChar

def render : ℤ → List Char
  | .ofNat n => renderNat n
  | .negSucc n => '-' :: renderNat (n + 1)

def parseNat (cs : List Char) : Option ℕ :=
  if cs = [] then none else (cs.mapM digitValue).map fun ds => Nat.ofDigits 10 ds.reverse

/-- the 64-bit range -/
def InInt64 (n : ℤ) : Prop := -2 ^ 63 ≤ n ∧ n < 2 ^ 63

instance (n : ℤ) : Decidable (InInt64 n) := by unfold InInt64; infer_instance

def parseInt64 (cs : List Char) : Option ℤ :=
  let value : Option ℤ :=
    match cs with
    | '-' :: cs => (parseNat cs).map fun n => -Int.ofNat n
    | '+' :: cs => (parseNat cs).map fun n => Int.ofNat n
    | cs => (parseNat cs).map fun n => Int.ofNat n
  value.filter fun n => InInt64 n

theorem digitValue_digitChar {d : ℕ} (h : d < 10) : digitValue (digitChar d) = some d := by
  revert d
  decide

theorem mapM_digitValue {ds : List ℕ} (h : ∀ d ∈ ds, d < 10) : (ds.map digitChar).mapM digitValue = some ds := by
  induction ds with
  | nil => rfl
  | cons d ds ih =>
    have := ih fun d' hd' => h d' (List.mem_cons_of_mem d hd')
    simp [digitValue_digitChar (h d List.mem_cons_self), this]

theorem renderNat_ne_nil (n : ℕ) : renderNat n ≠ [] := by
  unfold renderNat
  split_ifs with h
  · simp
  · simpa using Nat.digits_ne_nil_iff_ne_zero.2 h

theorem parseNat_renderNat (n : ℕ) : parseNat (renderNat n) = some n := by
  rw [parseNat, if_neg (renderNat_ne_nil n), renderNat]
  split_ifs with h
  · subst h
    rfl
  · have hlt : ∀ d ∈ (Nat.digits 10 n).reverse, d < 10 := by
      intro d hd
      exact Nat.digits_lt_base (by norm_num) (List.mem_reverse.1 hd)
    rw [mapM_digitValue hlt, Option.map_some, List.reverse_reverse, Nat.ofDigits_digits]

/-- a rendered number starts with a digit -/
theorem digit_of_mem_renderNat {n : ℕ} {c : Char} (hc : c ∈ renderNat n) : ∃ d < 10, c = digitChar d := by
  unfold renderNat at hc
  split_ifs at hc with h
  · exact ⟨0, by norm_num, List.mem_singleton.1 hc⟩
  · obtain ⟨d, hd, rfl⟩ := List.mem_map.1 hc
    exact ⟨d, Nat.digits_lt_base (by norm_num) (List.mem_reverse.1 hd), rfl⟩

theorem digitChar_ne {d : ℕ} (h : d < 10) : digitChar d ≠ '-' ∧ digitChar d ≠ '+' ∧ digitChar d ≠ ':' := by
  revert d
  decide

/-- **Round trip**, in the 64-bit range. -/
theorem parseInt64_render {n : ℤ} (h : InInt64 n) : parseInt64 (render n) = some n := by
  cases n with
  | ofNat n =>
    have hval : parseInt64 (renderNat n) = ((parseNat (renderNat n)).map Int.ofNat).filter fun n => InInt64 n := by
      cases hr : renderNat n with
      | nil => exact absurd hr (renderNat_ne_nil n)
      | cons c cs =>
        obtain ⟨d, hd, rfl⟩ := digit_of_mem_renderNat (hr ▸ List.mem_cons_self : c ∈ renderNat n)
        obtain ⟨h1, h2, -⟩ := digitChar_ne hd
        unfold parseInt64
        split
        · rename_i e
          exact absurd (List.cons.inj e).1 h1
        · rename_i e
          exact absurd (List.cons.inj e).1 h2
        · rfl
    rw [render, hval, parseNat_renderNat, Option.map_some, Option.filter_some, if_pos (decide_eq_true h)]
  | negSucc n =>
    have e : -Int.ofNat (n + 1) = Int.negSucc n := rfl
    simp only [parseInt64, render, parseNat_renderNat, Option.map_some, e, Option.filter_some,
      if_pos (decide_eq_true h)]

/-- no rendered number has a colon -/
theorem colon_notMem_render (n : ℤ) : ':' ∉ render n := by
  have hnat : ∀ n, ':' ∉ renderNat n := by
    intro n hc
    obtain ⟨d, hd, e⟩ := digit_of_mem_renderNat hc
    exact (digitChar_ne hd).2.2 e.symm
  cases n with
  | ofNat n => exact hnat n
  | negSucc n =>
    rw [render, List.mem_cons, not_or]
    exact ⟨by decide, hnat _⟩

/-- every character of a rendered number is ASCII -/
theorem render_ascii {n : ℤ} {c : Char} (hc : c ∈ render n) : c.toNat < 128 := by
  have hd : ∀ d, d < 10 → (digitChar d).toNat < 128 := by decide
  have hnat : ∀ n, c ∈ renderNat n → c.toNat < 128 := by
    intro n hc
    obtain ⟨d, hlt, rfl⟩ := digit_of_mem_renderNat hc
    exact hd d hlt
  cases n with
  | ofNat n => exact hnat n hc
  | negSucc n =>
    rcases List.mem_cons.1 hc with rfl | hc
    · decide
    · exact hnat _ hc

end Decimal
