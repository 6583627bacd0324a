/-
Text from bytes that are meant to be UTF-8: a byte that begins no character is read as U+FFFD, and reading goes on after
it.

Result: `decode_line`: a text is read line by line, whatever bytes its lines are made of.
-/
import Mathlib.Data.List.Basic

namespace Utf8

/-- what the first byte of a character asks for: how many more bytes, the range of the next, and its own bits -/
def header (b : UInt8) : Option (ℕ × UInt8 × UInt8 × ℕ) :=
  if 0xC2 ≤ b ∧ b ≤ 0xDF then some (1, 0x80, 0xBF, b.toNat - 0xC0)
  else if b = 0xE0 then some (2, 0xA0, 0xBF, 0)
  else if b = 0xED then some (2, 0x80, 0x9F, 0xD)
  else if 0xE1 ≤ b ∧ b ≤ 0xEF then some (2, 0x80, 0xBF, b.toNat - 0xE0)
  else if b = 0xF0 then some (3, 0x90, 0xBF, 0)
  else if b = 0xF4 then some (3, 0x80, 0x8F, 4)
  else if 0xF1 ≤ b ∧ b ≤ 0xF3 then some (3, 0x80, 0xBF, b.toNat - 0xF0)
  else none

/-- the next bytes of a character, the first of them in a range -/
def tails : ℕ → UInt8 → UInt8 → List UInt8 → Option (List UInt8)
  | 0, _, _, _ => some []
  | _ + 1, _, _, [] => none
  | n + 1, lo, hi, b :: bs => if lo ≤ b ∧ b ≤ hi then (tails n 0x80 0xBF bs).map (b :: ·) else none

/-- the character that a byte begins, and the number of further bytes it takes -/
def rune (b : UInt8) (bs : List UInt8) : Char × ℕ :=
  if b < 0x80 then (Char.ofNat b.toNat, 0)
  else
    match header b with
    | none => ('\uFFFD', 0)
    | some (n, lo, hi, bits) =>
      match tails n lo hi bs with
      | none => ('\uFFFD', 0)
      | some ts => (Char.ofNat (ts.foldl (fun acc t => acc * 64 + (t.toNat - 0x80)) bits), n)

/-- the characters from here on, some bytes of the last one being left -/
def decodeFrom : ℕ → List UInt8 → List Char
  | _, [] => []
  | k + 1, _ :: bs => decodeFrom k bs
  | 0, b :: bs => (rune b bs).1 :: decodeFrom (rune b bs).2 bs

def decode (bs : List UInt8) : String := String.ofList (decodeFrom 0 bs)

theorem header_low {b : UInt8} {n bits : ℕ} {lo hi : UInt8} (h : header b = some (n, lo, hi, bits)) : 0x80 ≤ lo := by
  unfold header at h
  split_ifs at h <;> cases h <;> decide

theorem tails_length {n : ℕ} {lo hi : UInt8} {bs ts : List UInt8} (h : tails n lo hi bs = some ts) :
    n ≤ bs.length := by
  induction n generalizing lo hi bs ts with
  | zero => exact Nat.zero_le _
  | succ n ih =>
    cases bs with
    | nil => cases h
    | cons b bs =>
      rw [tails] at h
      split_ifs at h
      obtain ⟨ts', hts, -⟩ := Option.map_eq_some_iff.mp h
      exact Nat.succ_le_succ (ih hts)

/-- a newline is no byte of a longer character -/
theorem tails_newline {n : ℕ} {lo hi : UInt8} (hlo : 0x80 ≤ lo) (a b : List UInt8) :
    tails n lo hi (a ++ 10 :: b) = tails n lo hi a := by
  induction n generalizing lo hi a with
  | zero => rfl
  | succ n ih =>
    cases a with
    | nil =>
      have hnot : ¬ (lo ≤ 10 ∧ 10 ≤ hi) := fun h => absurd (UInt8.le_trans hlo h.1) (by decide)
      simp only [List.nil_append, tails, if_neg hnot]
    | cons t a => simp only [List.cons_append, tails, ih (by decide : (0x80 : UInt8) ≤ 0x80)]

theorem rune_newline (t : UInt8) (a b : List UInt8) :
    rune t (a ++ 10 :: b) = rune t a ∧ (rune t a).2 ≤ a.length := by
  unfold rune
  split_ifs
  · exact ⟨rfl, Nat.zero_le _⟩
  cases hheader : header t with
  | none => exact ⟨rfl, Nat.zero_le _⟩
  | some r =>
    obtain ⟨n, lo, hi, bits⟩ := r
    simp only [tails_newline (header_low hheader)]
    cases htails : tails n lo hi a with
    | none => exact ⟨trivial, Nat.zero_le _⟩
    | some ts => exact ⟨trivial, tails_length htails⟩

theorem decodeFrom_newline {k : ℕ} (a b : List UInt8) (hk : k ≤ a.length) :
    decodeFrom k (a ++ 10 :: b) = decodeFrom k a ++ '\n' :: decodeFrom 0 b := by
  induction a generalizing k with
  | nil =>
    obtain rfl := Nat.le_zero.mp hk
    rfl
  | cons t a ih =>
    cases k with
    | succ k => exact ih (Nat.le_of_succ_le_succ hk)
    | zero =>
      obtain ⟨hsame, hlen⟩ := rune_newline t a b
      simp only [List.cons_append, decodeFrom, hsame, ih hlen]

/-- **Line by line.** -/
theorem decode_line (a b : List UInt8) : decode (a ++ [10] ++ b) = decode a ++ "\n" ++ decode b := by
  apply String.toList_injective
  simp only [decode, List.append_assoc, List.singleton_append, decodeFrom_newline a b (Nat.zero_le _),
    String.toList_append, String.toList_ofList]
  rfl

theorem decode_eq_empty {bs : List UInt8} : decode bs = "" ↔ bs = [] := by
  cases bs with
  | nil => exact ⟨fun _ => rfl, fun _ => rfl⟩
  | cons b bs =>
    refine ⟨fun h => ?_, nofun⟩
    have hlist := congrArg String.toList h
    simp [decode, decodeFrom] at hlist

end Utf8
