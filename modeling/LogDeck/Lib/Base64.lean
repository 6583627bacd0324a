/-
Unpadded URL-safe base64.

Three bytes make four sextets, a rest of one or two bytes makes two or three. The decoder is the lenient one: it ignores
line breaks and the unused bits of the last sextet, and rejects other characters and a rest of one sextet.

Result: `decode_encode`.
-/
import Mathlib.Tactic

namespace Base64

/-- the sextets of a list of bytes -/
def sextets : List UInt8 → List ℕ
  | [] => []
  | [a] => [a.toNat / 4, a.toNat % 4 * 16]
  | [a, b] => [a.toNat / 4, a.toNat % 4 * 16 + b.toNat / 16, b.toNat % 16 * 4]
  | a :: b :: c :: rest =>
    a.toNat / 4 :: (a.toNat % 4 * 16 + b.toNat / 16) :: (b.toNat % 16 * 4 + c.toNat / 64) :: c.toNat % 64 ::
      sextets rest

/-- the bytes of a list of sextets -/
def bytes : List ℕ → Option (List UInt8)
  | [] => some []
  | [_] => none
  | [x, y] => some [UInt8.ofNat (x * 4 + y / 16)]
  | [x, y, z] => some [UInt8.ofNat (x * 4 + y / 16), UInt8.ofNat (y % 16 * 16 + z / 4)]
  | x :: y :: z :: w :: rest =>
    (bytes rest).map fun bs =>
      UInt8.ofNat (x * 4 + y / 16) :: UInt8.ofNat (y % 16 * 16 + z / 4) :: UInt8.ofNat (z % 4 * 64 + w) :: bs

def alphabet : List Char := "ABCDEFGHIJKLMNOPQRSTUVWXYZabcdefghijklmnopqrstuvwxyz0123456789-_".toList

def encodeSextet (n : ℕ) : Char := alphabet.getD n 'A'

def decodeSextet (c : Char) : Option ℕ := if c ∈ alphabet then some (alphabet.idxOf c) else none

def encode (bs : List UInt8) : List Char := (sextets bs).map encodeSextet

def decode (cs : List Char) : Option (List UInt8) :=
  match (cs.filter fun c => c ≠ '\n' ∧ c ≠ '\r').mapM decodeSextet with
  | none => none
  | some ns => bytes ns

theorem decodeSextet_encodeSextet {n : ℕ} (h : n < 64) :
    decodeSextet (encodeSextet n) = some n ∧ encodeSextet n ≠ '\n' ∧ encodeSextet n ≠ '\r' := by
  revert n
  decide

theorem sextets_lt (bs : List UInt8) : ∀ n ∈ sextets bs, n < 64 := by
  fun_induction sextets bs with
  | case1 => simp
  | case2 a =>
    have := a.toNat_lt
    simp
    omega
  | case3 a b =>
    have := a.toNat_lt
    have := b.toNat_lt
    simp
    omega
  | case4 a b c rest ih =>
    have := a.toNat_lt
    have := b.toNat_lt
    simp only [List.mem_cons]
    rintro n (rfl | rfl | rfl | rfl | hn)
    · omega
    · omega
    · have := c.toNat_lt
      omega
    · omega
    · exact ih n hn

theorem bytes_sextets (bs : List UInt8) : bytes (sextets bs) = some bs := by
  fun_induction sextets bs with
  | case1 => rfl
  | case2 a =>
    have ha : a.toNat / 4 * 4 + a.toNat % 4 * 16 / 16 = a.toNat := by omega
    simp only [bytes, ha, UInt8.ofNat_toNat]
  | case3 a b =>
    have := b.toNat_lt
    have ha : a.toNat / 4 * 4 + (a.toNat % 4 * 16 + b.toNat / 16) / 16 = a.toNat := by omega
    have hb : (a.toNat % 4 * 16 + b.toNat / 16) % 16 * 16 + b.toNat % 16 * 4 / 4 = b.toNat := by omega
    simp only [bytes, ha, hb, UInt8.ofNat_toNat]
  | case4 a b c rest ih =>
    have := b.toNat_lt
    have := c.toNat_lt
    have ha : a.toNat / 4 * 4 + (a.toNat % 4 * 16 + b.toNat / 16) / 16 = a.toNat := by omega
    have hb : (a.toNat % 4 * 16 + b.toNat / 16) % 16 * 16 + (b.toNat % 16 * 4 + c.toNat / 64) / 4 = b.toNat := by omega
    have hc : (b.toNat % 16 * 4 + c.toNat / 64) % 4 * 64 + c.toNat % 64 = c.toNat := by omega
    simp only [bytes, ih, ha, hb, hc, UInt8.ofNat_toNat, Option.map_some]

/-- **Round trip.** -/
theorem decode_encode (bs : List UInt8) : decode (encode bs) = some bs := by
  have hmap : ∀ ns : List ℕ, (∀ n ∈ ns, n < 64) →
      ((ns.map encodeSextet).filter fun c => c ≠ '\n' ∧ c ≠ '\r').mapM decodeSextet = some ns := by
    intro ns
    induction ns with
    | nil => intro _; rfl
    | cons n ns ih =>
      intro h
      obtain ⟨h1, h2, h3⟩ := decodeSextet_encodeSextet (h n List.mem_cons_self)
      have := ih fun m hm => h m (List.mem_cons_of_mem n hm)
      simp [h1, h2, h3] at this ⊢
      simp [this]
  rw [decode, encode, hmap _ (sextets_lt bs)]
  exact bytes_sextets bs

end Base64
