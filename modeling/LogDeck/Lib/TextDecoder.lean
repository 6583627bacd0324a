/-
A decoder of UTF-8 that is fed in pieces, as a browser's `TextDecoder` with `stream: true` is.

Between two pieces it keeps the part of a character that it has read. A byte that does not fit is read as U+FFFD, and
then as the first byte of a character if it ended one early. A byte order mark at the start of the stream is left out.

Results:
- `decode_append`: the pieces do not matter;
- `decode_encode`: a text that does not start with a byte order mark is decoded to itself, with nothing left over.
-/
import LogDeck.Lib.Utf8

namespace TextDecoder

/-- a character that is not complete: the bytes still needed, the range of the next one, and the bits read -/
structure Partial where
  needed : ℕ
  lower : UInt8
  upper : UInt8
  codePoint : ℕ
deriving DecidableEq, Repr

structure Decoder where
  pending : Option Partial := none
  bomSeen : Bool := false
deriving DecidableEq, Repr

def replacement : Char := '\uFFFD'

def byteOrderMark : Char := '\uFEFF'

/-- a byte between two characters -/
def first (b : UInt8) : List Char × Option Partial :=
  if b < 0x80 then ([Char.ofNat b.toNat], none)
  else
    match Utf8.header b with
    | none => ([replacement], none)
    | some (needed, lower, upper, bits) => ([], some ⟨needed, lower, upper, bits⟩)

/-- a byte, and the characters that it completes -/
def byte (pending : Option Partial) (b : UInt8) : List Char × Option Partial :=
  match pending with
  | none => first b
  | some p =>
    if p.lower ≤ b ∧ b ≤ p.upper then
      let codePoint := p.codePoint * 64 + (b.toNat - 0x80)
      if p.needed = 1 then ([Char.ofNat codePoint], none) else ([], some ⟨p.needed - 1, 0x80, 0xBF, codePoint⟩)
    else (replacement :: (first b).1, (first b).2)

def bytes : Option Partial → List UInt8 → List Char × Option Partial
  | pending, [] => ([], pending)
  | pending, b :: bs => ((byte pending b).1 ++ (bytes (byte pending b).2 bs).1, (bytes (byte pending b).2 bs).2)

/-- the first character of the stream is left out when it is a byte order mark -/
def strip (bomSeen : Bool) (text : List Char) : List Char × Bool :=
  match text with
  | [] => ([], bomSeen)
  | c :: cs => (if bomSeen = false ∧ c = byteOrderMark then cs else c :: cs, true)

/-- a piece of the stream -/
def Decoder.decode (d : Decoder) (piece : List UInt8) : List Char × Decoder :=
  let read := bytes d.pending piece
  let text := strip d.bomSeen read.1
  (text.1, { pending := read.2, bomSeen := text.2 })

/-- the bytes of a text -/
def encode (text : List Char) : List UInt8 := text.flatMap String.utf8EncodeChar

/-! ## Pieces -/

theorem bytes_append (pending : Option Partial) (a b : List UInt8) :
    bytes pending (a ++ b) =
      ((bytes pending a).1 ++ (bytes (bytes pending a).2 b).1, (bytes (bytes pending a).2 b).2) := by
  induction a generalizing pending with
  | nil => rfl
  | cons x a ih =>
    rw [List.cons_append, bytes, bytes, ih]
    dsimp only
    rw [List.append_assoc]

theorem strip_append (bomSeen : Bool) (a b : List Char) :
    strip bomSeen (a ++ b) =
      ((strip bomSeen a).1 ++ (strip (strip bomSeen a).2 b).1, (strip (strip bomSeen a).2 b).2) := by
  have hseen : ∀ text : List Char, strip true text = (text, true) := by
    intro text
    cases text with
    | nil => rfl
    | cons c cs => rfl
  cases a with
  | nil => rfl
  | cons c cs =>
    have hcons : ∀ text, (strip bomSeen (c :: text)).2 = true := fun text => rfl
    rw [hcons, hseen, List.cons_append]
    unfold strip
    dsimp only
    split_ifs <;> rfl

/-- **Pieces do not matter.** -/
theorem decode_append (d : Decoder) (a b : List UInt8) :
    d.decode (a ++ b) = ((d.decode a).1 ++ ((d.decode a).2.decode b).1, ((d.decode a).2.decode b).2) := by
  unfold Decoder.decode
  dsimp only
  rw [bytes_append, strip_append]

/-! ## Texts -/

section
variable {b : UInt8}

theorem first_low (h : b.toNat < 0x80) : first b = ([Char.ofNat b.toNat], none) := if_pos (UInt8.lt_iff_toNat_lt.2 h)

theorem first_high (h : 0x80 ≤ b.toNat) {needed bits : ℕ} {lower upper : UInt8}
    (hheader : Utf8.header b = some (needed, lower, upper, bits)) : first b = ([], some ⟨needed, lower, upper, bits⟩) := by
  have hnot : ¬ b < 0x80 := fun hlt => absurd (UInt8.lt_iff_toNat_lt.1 hlt) (Nat.not_lt.2 h)
  unfold first
  rw [if_neg hnot, hheader]

theorem header_two (h : 0xC2 ≤ b.toNat) (h' : b.toNat ≤ 0xDF) :
    Utf8.header b = some (1, 0x80, 0xBF, b.toNat - 0xC0) := by
  unfold Utf8.header
  rw [if_pos ⟨UInt8.le_iff_toNat_le.2 h, UInt8.le_iff_toNat_le.2 h'⟩]

theorem header_three (h : 0xE0 ≤ b.toNat) (h' : b.toNat ≤ 0xEF) :
    Utf8.header b = some (2, if b.toNat = 0xE0 then 0xA0 else 0x80, if b.toNat = 0xED then 0x9F else 0xBF,
      b.toNat - 0xE0) := by
  unfold Utf8.header
  simp only [UInt8.le_iff_toNat_le, ← UInt8.toNat_inj, UInt8.toNat_ofNat]
  split_ifs <;> first | omega | simp_all

theorem header_four (h : 0xF0 ≤ b.toNat) (h' : b.toNat ≤ 0xF4) :
    Utf8.header b = some (3, if b.toNat = 0xF0 then 0x90 else 0x80, if b.toNat = 0xF4 then 0x8F else 0xBF,
      b.toNat - 0xF0) := by
  unfold Utf8.header
  simp only [UInt8.le_iff_toNat_le, ← UInt8.toNat_inj, UInt8.toNat_ofNat]
  split_ifs <;> first | omega | simp_all

/-- a byte in the range that is asked for -/
theorem byte_next {p : Partial} (hlower : p.lower.toNat ≤ b.toNat) (hupper : b.toNat ≤ p.upper.toNat) :
    byte (some p) b =
      if p.needed = 1 then ([Char.ofNat (p.codePoint * 64 + (b.toNat - 0x80))], none)
      else ([], some ⟨p.needed - 1, 0x80, 0xBF, p.codePoint * 64 + (b.toNat - 0x80)⟩) :=
  if_pos ⟨UInt8.le_iff_toNat_le.2 hlower, UInt8.le_iff_toNat_le.2 hupper⟩

theorem toNat_byte {n : ℕ} (h : n < 256) : (UInt8.ofNat n).toNat = n := Nat.mod_eq_of_lt h

/-- the bytes of a character, one after the other -/
theorem bytes_cons {pending next : Option Partial} {text : List Char} (h : byte pending b = (text, next))
    (bs : List UInt8) : bytes pending (b :: bs) = (text ++ (bytes next bs).1, (bytes next bs).2) := by
  rw [bytes, h]

theorem bytes_last {needed codePoint : ℕ} {lower upper : UInt8} (hone : needed = 1) (hlower : lower.toNat ≤ b.toNat)
    (hupper : b.toNat ≤ upper.toNat) :
    bytes (some ⟨needed, lower, upper, codePoint⟩) [b] = ([Char.ofNat (codePoint * 64 + (b.toNat - 0x80))], none) := by
  have hbyte := byte_next (p := ⟨needed, lower, upper, codePoint⟩) hlower hupper
  rw [if_pos hone] at hbyte
  rw [bytes_cons hbyte]
  rfl

theorem bytes_more {needed codePoint : ℕ} {lower upper : UInt8} (hmore : needed ≠ 1) (hlower : lower.toNat ≤ b.toNat)
    (hupper : b.toNat ≤ upper.toNat) (bs : List UInt8) :
    bytes (some ⟨needed, lower, upper, codePoint⟩) (b :: bs) =
      bytes (some ⟨needed - 1, 0x80, 0xBF, codePoint * 64 + (b.toNat - 0x80)⟩) bs := by
  have hbyte := byte_next (p := ⟨needed, lower, upper, codePoint⟩) hlower hupper
  rw [if_neg hmore] at hbyte
  rw [bytes_cons hbyte]
  rfl

theorem bytes_first {needed bits : ℕ} {lower upper : UInt8} (h : 0x80 ≤ b.toNat)
    (hheader : Utf8.header b = some (needed, lower, upper, bits)) (bs : List UInt8) :
    bytes none (b :: bs) = bytes (some ⟨needed, lower, upper, bits⟩) bs := by
  have hbyte : byte none b = ([], some ⟨needed, lower, upper, bits⟩) := first_high h hheader
  rw [bytes_cons hbyte]
  rfl

/-- a tail byte is one of 64 -/
theorem toNat_tail (n : ℕ) : (UInt8.ofNat (n % 64 + 0x80)).toNat = n % 64 + 0x80 := toNat_byte (by omega)

end

/-- a character is read back from its bytes -/
theorem bytes_char (c : Char) : bytes none (String.utf8EncodeChar c) = ([c], none) := by
  have hvalid : c.val.toNat < 0xD800 ∨ (0xDFFF < c.val.toNat ∧ c.val.toNat < 0x110000) := c.valid
  have hback : Char.ofNat c.val.toNat = c := Char.ofNat_toNat c
  have h80 : (0x80 : UInt8).toNat = 0x80 := rfl
  have hBF : (0xBF : UInt8).toNat = 0xBF := rfl
  unfold String.utf8EncodeChar
  generalize c.val.toNat = v at hvalid hback ⊢
  dsimp only
  split_ifs with h1 h2 h3
  · have hb : (UInt8.ofNat v).toNat = v := toNat_byte (by omega)
    simp only [bytes, byte, first_low (b := UInt8.ofNat v) (by omega), hb, hback, List.append_nil]
  · have hlead : (UInt8.ofNat (v / 64 % 0x20 + 0xc0)).toNat = v / 64 % 0x20 + 0xc0 := toNat_byte (by omega)
    have htail := toNat_tail v
    rw [bytes_first (by omega) (header_two (by omega) (by omega)), bytes_last rfl (by omega) (by omega), hlead, htail]
    have hsum : (v / 64 % 0x20 + 0xc0 - 0xC0) * 64 + (v % 0x40 + 0x80 - 0x80) = v := by omega
    rw [hsum, hback]
  · have hlead : (UInt8.ofNat (v / 4096 % 0x10 + 0xe0)).toNat = v / 4096 % 0x10 + 0xe0 := toNat_byte (by omega)
    have hmiddle := toNat_tail (v / 64)
    have htail := toNat_tail v
    -- the second byte is in the range that the first one asks for
    have hlower : (if (UInt8.ofNat (v / 4096 % 0x10 + 0xe0)).toNat = 0xE0 then (0xA0 : UInt8) else 0x80).toNat ≤
        (UInt8.ofNat (v / 64 % 0x40 + 0x80)).toNat := by
      have hA0 : (0xA0 : UInt8).toNat = 0xA0 := rfl
      split_ifs <;> omega
    have hupper : (UInt8.ofNat (v / 64 % 0x40 + 0x80)).toNat ≤
        (if (UInt8.ofNat (v / 4096 % 0x10 + 0xe0)).toNat = 0xED then (0x9F : UInt8) else 0xBF).toNat := by
      have h9F : (0x9F : UInt8).toNat = 0x9F := rfl
      split_ifs <;> omega
    rw [bytes_first (by omega) (header_three (by omega) (by omega)), bytes_more (by decide) hlower hupper,
      bytes_last rfl (by omega) (by omega), hlead, hmiddle, htail]
    have hsum : ((v / 4096 % 0x10 + 0xe0 - 0xE0) * 64 + (v / 64 % 0x40 + 0x80 - 0x80)) * 64 +
        (v % 0x40 + 0x80 - 0x80) = v := by omega
    rw [hsum, hback]
  · have hlead : (UInt8.ofNat (v / 262144 % 0x08 + 0xf0)).toNat = v / 262144 % 0x08 + 0xf0 := toNat_byte (by omega)
    have hsecond := toNat_tail (v / 4096)
    have hthird := toNat_tail (v / 64)
    have htail := toNat_tail v
    have hlower : (if (UInt8.ofNat (v / 262144 % 0x08 + 0xf0)).toNat = 0xF0 then (0x90 : UInt8) else 0x80).toNat ≤
        (UInt8.ofNat (v / 4096 % 0x40 + 0x80)).toNat := by
      have h90 : (0x90 : UInt8).toNat = 0x90 := rfl
      split_ifs <;> omega
    have hupper : (UInt8.ofNat (v / 4096 % 0x40 + 0x80)).toNat ≤
        (if (UInt8.ofNat (v / 262144 % 0x08 + 0xf0)).toNat = 0xF4 then (0x8F : UInt8) else 0xBF).toNat := by
      have h8F : (0x8F : UInt8).toNat = 0x8F := rfl
      split_ifs <;> omega
    rw [bytes_first (by omega) (header_four (by omega) (by omega)), bytes_more (by decide) hlower hupper,
      bytes_more (by decide) (by omega) (by omega), bytes_last rfl (by omega) (by omega), hlead, hsecond, hthird, htail]
    have hsum : (((v / 262144 % 0x08 + 0xf0 - 0xF0) * 64 + (v / 4096 % 0x40 + 0x80 - 0x80)) * 64 +
        (v / 64 % 0x40 + 0x80 - 0x80)) * 64 + (v % 0x40 + 0x80 - 0x80) = v := by omega
    rw [hsum, hback]

theorem bytes_encode (text : List Char) : bytes none (encode text) = (text, none) := by
  induction text with
  | nil => rfl
  | cons c cs ih =>
    have hcons : encode (c :: cs) = String.utf8EncodeChar c ++ encode cs := rfl
    rw [hcons, bytes_append, bytes_char, ih]
    rfl

/-- **A text is read back.** -/
theorem decode_encode {text : List Char} (h : text.head? ≠ some byteOrderMark) :
    (({} : Decoder).decode (encode text)).1 = text := by
  unfold Decoder.decode
  dsimp only
  rw [bytes_encode]
  cases text with
  | nil => rfl
  | cons c cs =>
    have hc : ¬ (false = false ∧ c = byteOrderMark) := fun hboth => h (congrArg some hboth.2)
    exact if_neg hc

end TextDecoder
