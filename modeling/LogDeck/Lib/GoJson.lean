/-
General: the strings that Go's `encoding/json` writes, markup escaped, and the objects whose values are strings.

A byte of ASCII takes one byte, or two for the escapes that have a letter, or six. Of the others, a byte that begins no
character takes six, and so do the two separators U+2028 and U+2029. `excess` counts what a text grows by.

Results:
- `length_escape`, `length_object`: how long a string and an object are;
- `excess_le`: at most six times as long as the text;
- `newline_notMem_object`: an object is written on one line;
- `object_delimited`: between its braces.
-/
import Mathlib.Algebra.Ring.Nat
import LogDeck.Lib.Utf8

namespace GoJson

open Utf8 (rune)

abbrev Bytes := List UInt8

/-! ## Strings -/

def hexDigits : Bytes :=
  [0x30, 0x31, 0x32, 0x33, 0x34, 0x35, 0x36, 0x37, 0x38, 0x39, 0x61, 0x62, 0x63, 0x64, 0x65, 0x66]

def hex (n : ℕ) : UInt8 := hexDigits.getD (n % 16) 0x30

/-- the letter after the backslash, for the bytes that have one: quote, backslash, and `\b \f \n \r \t` -/
def letter (b : UInt8) : Option UInt8 :=
  if b = 0x22 ∨ b = 0x5c then some b
  else if b = 0x08 then some 0x62
  else if b = 0x0c then some 0x66
  else if b = 0x0a then some 0x6e
  else if b = 0x0d then some 0x72
  else if b = 0x09 then some 0x74
  else none

/-- the other bytes of ASCII that are not written as they are: control characters and `< > &` -/
def Unsafe (b : UInt8) : Prop := b < 0x20 ∨ b = 0x3c ∨ b = 0x3e ∨ b = 0x26

instance : DecidablePred Unsafe := fun b => inferInstanceAs (Decidable (b < 0x20 ∨ b = 0x3c ∨ b = 0x3e ∨ b = 0x26))

def escapeByte (b : UInt8) : Bytes :=
  match letter b with
  | some c => [0x5c, c]
  | none => if Unsafe b then [0x5c, 0x75, 0x30, 0x30, hex (b.toNat / 16), hex b.toNat] else [b]

/-- the character ends a line in JavaScript -/
def Separator (c : Char) : Prop := c = '\u2028' ∨ c = '\u2029'

instance : DecidablePred Separator := fun c => inferInstanceAs (Decidable (c = '\u2028' ∨ c = '\u2029'))

/-- what the character that a byte begins is written as; a byte that begins none as `\ufffd` -/
def escapeRune (b : UInt8) (bs : Bytes) : Bytes :=
  if b < 0x80 then escapeByte b
  else if (rune b bs).2 = 0 then [0x5c, 0x75, 0x66, 0x66, 0x66, 0x64]
  else if Separator (rune b bs).1 then [0x5c, 0x75, 0x32, 0x30, 0x32, hex (rune b bs).1.toNat]
  else b :: bs.take (rune b bs).2

/-- the text from here on, some bytes of the last character being left -/
def escapeFrom : ℕ → Bytes → Bytes
  | _, [] => []
  | k + 1, _ :: bs => escapeFrom k bs
  | 0, b :: bs => escapeRune b bs ++ escapeFrom (rune b bs).2 bs

def escape (bs : Bytes) : Bytes := escapeFrom 0 bs

def quote (bs : Bytes) : Bytes := [0x22] ++ escape bs ++ [0x22]

/-! ## Lengths -/

def byteExcess (b : UInt8) : ℕ := if (letter b).isSome then 1 else if Unsafe b then 5 else 0

/-- how many bytes more than its own a character takes -/
def runeExcess (b : UInt8) (bs : Bytes) : ℕ :=
  if b < 0x80 then byteExcess b
  else if (rune b bs).2 = 0 then 5
  else if Separator (rune b bs).1 then 5 - (rune b bs).2 -- that is 3: either has three bytes
  else 0

def excessFrom : ℕ → Bytes → ℕ
  | _, [] => 0
  | k + 1, _ :: bs => excessFrom k bs
  | 0, b :: bs => runeExcess b bs + excessFrom (rune b bs).2 bs

def excess (bs : Bytes) : ℕ := excessFrom 0 bs

theorem length_escapeByte (b : UInt8) : (escapeByte b).length = 1 + byteExcess b := by
  unfold escapeByte byteExcess
  cases letter b with
  | some c => rfl
  | none =>
    dsimp only [Option.isSome_none]
    rw [if_neg Bool.false_ne_true]
    split_ifs <;> rfl

theorem header_le {b : UInt8} {n bits : ℕ} {lo hi : UInt8} (h : Utf8.header b = some (n, lo, hi, bits)) : n ≤ 3 := by
  unfold Utf8.header at h
  split_ifs at h <;> cases h <;> decide

theorem rune_le (b : UInt8) (bs : Bytes) : (rune b bs).2 ≤ 3 := by
  unfold rune
  split_ifs
  · exact Nat.zero_le _
  cases hheader : Utf8.header b with
  | none => exact Nat.zero_le _
  | some r =>
    obtain ⟨n, lo, hi, bits⟩ := r
    dsimp only
    cases Utf8.tails n lo hi bs with
    | none => exact Nat.zero_le _
    | some ts => exact header_le hheader

theorem rune_fits (b : UInt8) (bs : Bytes) : (rune b bs).2 ≤ bs.length := (Utf8.rune_newline b bs []).2

theorem rune_ascii {b : UInt8} (h : b < 0x80) (bs : Bytes) : (rune b bs).2 = 0 := by rw [rune, if_pos h]

theorem length_escapeRune (b : UInt8) (bs : Bytes) :
    (escapeRune b bs).length = 1 + (rune b bs).2 + runeExcess b bs := by
  unfold escapeRune runeExcess
  by_cases hascii : b < 0x80
  · rw [if_pos hascii, if_pos hascii, rune_ascii hascii, length_escapeByte]
  rw [if_neg hascii, if_neg hascii]
  by_cases hinvalid : (rune b bs).2 = 0
  · rw [if_pos hinvalid, if_pos hinvalid, hinvalid]
    rfl
  rw [if_neg hinvalid, if_neg hinvalid]
  by_cases hsep : Separator (rune b bs).1
  · have hle := rune_le b bs
    rw [if_pos hsep, if_pos hsep]
    simp only [List.length_cons, List.length_nil]
    omega
  · rw [if_neg hsep, if_neg hsep, List.length_cons, List.length_take_of_le (rune_fits b bs)]
    omega

theorem length_escapeFrom {k : ℕ} {bs : Bytes} (hk : k ≤ bs.length) :
    (escapeFrom k bs).length + k = bs.length + excessFrom k bs := by
  induction bs generalizing k with
  | nil =>
    obtain rfl := Nat.le_zero.1 hk
    rfl
  | cons b bs ih =>
    cases k with
    | succ k =>
      have hrest := ih (Nat.le_of_succ_le_succ hk)
      rw [escapeFrom, excessFrom, List.length_cons]
      omega
    | zero =>
      have hrest := ih (rune_fits b bs)
      rw [escapeFrom, excessFrom, List.length_append, List.length_cons, length_escapeRune]
      omega

/-- **The length of a string.** Its own bytes, and what they grow by. -/
theorem length_escape (bs : Bytes) : (escape bs).length = bs.length + excess bs := length_escapeFrom (Nat.zero_le _)

theorem length_quote (bs : Bytes) : (quote bs).length = bs.length + excess bs + 2 := by
  rw [quote, List.length_append, List.length_append, length_escape, List.length_singleton]
  omega

theorem byteExcess_le (b : UInt8) : byteExcess b ≤ 5 := by
  unfold byteExcess
  split_ifs <;> omega

theorem runeExcess_le (b : UInt8) (bs : Bytes) : runeExcess b bs ≤ 5 := by
  have hbyte := byteExcess_le b
  unfold runeExcess
  split_ifs <;> omega

theorem excessFrom_le (k : ℕ) (bs : Bytes) : excessFrom k bs ≤ 5 * bs.length := by
  induction bs generalizing k with
  | nil => exact Nat.zero_le _
  | cons b bs ih =>
    rw [List.length_cons]
    cases k with
    | succ k =>
      have hrest := ih k
      rw [excessFrom]
      omega
    | zero =>
      have hrest := ih (rune b bs).2
      have hrune := runeExcess_le b bs
      rw [excessFrom]
      omega

/-- a text grows at most to six times its length -/
theorem excess_le (bs : Bytes) : excess bs ≤ 5 * bs.length := excessFrom_le 0 bs

theorem excess_replicate {b : UInt8} (hascii : b < 0x80) (n : ℕ) :
    excess (List.replicate n b) = n * byteExcess b := by
  unfold excess
  induction n with
  | zero => exact (Nat.zero_mul _).symm
  | succ n ih =>
    rw [List.replicate_succ, excessFrom, rune_ascii hascii, ih, runeExcess, if_pos hascii, Nat.succ_mul, Nat.add_comm]

/-! ## Lines -/

theorem newline_notMem_hex (n : ℕ) : (10 : UInt8) ≠ hex n := by
  have hdigits : ∀ m : Fin 16, (10 : UInt8) ≠ hexDigits.getD m 0x30 := by decide
  exact hdigits ⟨n % 16, Nat.mod_lt n (by omega)⟩

theorem newline_notMem_escapeByte (b : UInt8) : (10 : UInt8) ∉ escapeByte b := by
  unfold escapeByte
  cases hletter : letter b with
  | some c =>
    have hc : (10 : UInt8) ≠ c := by
      rintro rfl
      unfold letter at hletter
      split_ifs at hletter with hself
      · cases hletter
        exact absurd hself (by decide)
      all_goals exact absurd hletter (by decide)
    simp only [List.mem_cons, List.not_mem_nil, or_false, not_or]
    exact ⟨by decide, hc⟩
  | none =>
    dsimp only
    split_ifs with hunsafe
    · simp only [List.mem_cons, List.not_mem_nil, or_false, not_or]
      exact ⟨by decide, by decide, by decide, by decide, newline_notMem_hex _, newline_notMem_hex _⟩
    · rw [List.mem_singleton]
      rintro rfl
      exact hunsafe (by decide)

/-- the bytes of a character are not newlines -/
theorem newline_notMem_rune (b : UInt8) (bs : Bytes) : (10 : UInt8) ∉ bs.take (rune b bs).2 := by
  by_cases hmem : (10 : UInt8) ∈ bs
  · obtain ⟨front, back, rfl, hfront⟩ := List.eq_append_cons_of_mem hmem
    obtain ⟨hsame, hfits⟩ := Utf8.rune_newline b front back
    rw [hsame, List.take_append_of_le_length hfits]
    exact fun h => hfront (List.mem_of_mem_take h)
  · exact fun h => hmem (List.mem_of_mem_take h)

theorem newline_notMem_escapeRune (b : UInt8) (bs : Bytes) : (10 : UInt8) ∉ escapeRune b bs := by
  unfold escapeRune
  split_ifs with hascii hinvalid hsep
  · exact newline_notMem_escapeByte b
  · decide
  · simp only [List.mem_cons, List.not_mem_nil, or_false, not_or]
    exact ⟨by decide, by decide, by decide, by decide, by decide, newline_notMem_hex _⟩
  · rw [List.mem_cons, not_or]
    refine ⟨?_, newline_notMem_rune b bs⟩
    rintro rfl
    exact hascii (by decide)

theorem newline_notMem_escapeFrom (k : ℕ) (bs : Bytes) : (10 : UInt8) ∉ escapeFrom k bs := by
  induction bs generalizing k with
  | nil => cases k <;> exact List.not_mem_nil
  | cons b bs ih =>
    cases k with
    | succ k => exact ih k
    | zero =>
      rw [escapeFrom, List.mem_append, not_or]
      exact ⟨newline_notMem_escapeRune b bs, ih _⟩

theorem newline_notMem_quote (bs : Bytes) : (10 : UInt8) ∉ quote bs := by
  simp only [quote, List.mem_append, List.mem_singleton, not_or]
  exact ⟨⟨by decide, newline_notMem_escapeFrom 0 bs⟩, by decide⟩

/-! ## Objects -/

/-- a name, which needs no escapes, and a string -/
def field (f : Bytes × Bytes) : Bytes := [0x22] ++ f.1 ++ [0x22, 0x3a] ++ quote f.2

/-- the fields after the first one -/
def furtherFields : List (Bytes × Bytes) → Bytes
  | [] => []
  | f :: fields => [0x2c] ++ field f ++ furtherFields fields

def object : List (Bytes × Bytes) → Bytes
  | [] => [0x7b, 0x7d]
  | f :: fields => [0x7b] ++ field f ++ furtherFields fields ++ [0x7d]

/-- what a field takes: five bytes besides its name and its value, and a comma before it -/
def fieldLength (f : Bytes × Bytes) : ℕ := f.1.length + f.2.length + excess f.2 + 6

theorem length_field (f : Bytes × Bytes) : (field f).length + 1 = fieldLength f := by
  simp only [field, fieldLength, List.length_append, List.length_cons, List.length_nil, length_quote]
  omega

theorem length_furtherFields (fields : List (Bytes × Bytes)) :
    (furtherFields fields).length = (fields.map fieldLength).sum := by
  induction fields with
  | nil => rfl
  | cons f fields ih =>
    have hfield := length_field f
    rw [furtherFields, List.length_append, List.length_append, ih, List.map_cons, List.sum_cons, List.length_singleton]
    omega

/-- **The length of an object.** -/
theorem length_object (f : Bytes × Bytes) (fields : List (Bytes × Bytes)) :
    (object (f :: fields)).length = ((f :: fields).map fieldLength).sum + 1 := by
  have hfield := length_field f
  simp only [object, List.length_append, length_furtherFields, List.length_singleton, List.map_cons, List.sum_cons]
  omega

theorem newline_notMem_field {f : Bytes × Bytes} (hname : (10 : UInt8) ∉ f.1) : (10 : UInt8) ∉ field f := by
  simp only [field, List.mem_append, not_or]
  exact ⟨⟨⟨by decide, hname⟩, by decide⟩, newline_notMem_quote f.2⟩

theorem newline_notMem_furtherFields {fields : List (Bytes × Bytes)} (hnames : ∀ f ∈ fields, (10 : UInt8) ∉ f.1) :
    (10 : UInt8) ∉ furtherFields fields := by
  induction fields with
  | nil => exact List.not_mem_nil
  | cons f fields ih =>
    rw [List.forall_mem_cons] at hnames
    simp only [furtherFields, List.mem_append, not_or]
    exact ⟨⟨by decide, newline_notMem_field hnames.1⟩, ih hnames.2⟩

/-- **One line.** Whatever the strings are made of. -/
theorem newline_notMem_object {fields : List (Bytes × Bytes)} (hnames : ∀ f ∈ fields, (10 : UInt8) ∉ f.1) :
    (10 : UInt8) ∉ object fields := by
  cases fields with
  | nil => decide
  | cons f fields =>
    rw [List.forall_mem_cons] at hnames
    simp only [object, List.mem_append, not_or]
    exact ⟨⟨⟨by decide, newline_notMem_field hnames.1⟩, newline_notMem_furtherFields hnames.2⟩, by decide⟩

theorem object_delimited (fields : List (Bytes × Bytes)) : ∃ inner, object fields = [0x7b] ++ inner ++ [0x7d] := by
  cases fields with
  | nil => exact ⟨[], rfl⟩
  | cons f fields =>
    refine ⟨field f ++ furtherFields fields, ?_⟩
    rw [object, List.append_assoc [0x7b]]

theorem takeWhile_name {name : Bytes} (hname : (0x22 : UInt8) ∉ name) (rest : Bytes) :
    (name ++ 0x22 :: rest).takeWhile (· ≠ 0x22) = name := by
  have hall : ∀ b ∈ name, decide (b ≠ 0x22) = true := by
    intro b hb
    exact decide_eq_true fun heq => hname (heq ▸ hb)
  rw [List.takeWhile_append_of_pos hall, List.takeWhile_cons_of_neg (by decide), List.append_nil]

/-- an object shows the name of its first field -/
theorem object_name {f g : Bytes × Bytes} {fs gs : List (Bytes × Bytes)} (hf : (0x22 : UInt8) ∉ f.1)
    (hg : (0x22 : UInt8) ∉ g.1) (h : object (f :: fs) = object (g :: gs)) : f.1 = g.1 := by
  simp only [object, field, List.append_assoc, List.cons_append, List.nil_append, List.cons.injEq, true_and] at h
  have hnames := congrArg (List.takeWhile (· ≠ 0x22)) h
  rwa [takeWhile_name hf, takeWhile_name hg] at hnames

end GoJson
