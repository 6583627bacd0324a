/-
General: `strconv.Quote` of Go, as `%q` of the package fmt writes a string.

Which characters are printed is a table of Unicode. Of those beyond Latin-1, spaces, separators, format characters and
private use are escaped here; a code point without a character is taken as printed.
-/
import Mathlib.Data.Nat.Notation

namespace GoQuote

/-- the ranges beyond Latin-1 that are not printed -/
def hidden : List (ℕ × ℕ) :=
  [(0x600, 0x605), (0x61c, 0x61c), (0x6dd, 0x6dd), (0x70f, 0x70f), (0x890, 0x891), (0x8e2, 0x8e2), (0x1680, 0x1680),
    (0x180e, 0x180e), (0x2000, 0x200f), (0x2028, 0x202f), (0x205f, 0x206f), (0x3000, 0x3000), (0xe000, 0xf8ff),
    (0xfeff, 0xfeff), (0xfff9, 0xfffb), (0xfffe, 0xffff), (0x110bd, 0x110bd), (0x110cd, 0x110cd), (0x13430, 0x1343f),
    (0x1bca0, 0x1bca3), (0x1d173, 0x1d17a), (0xe0001, 0xe007f), (0xf0000, 0x10ffff)]

def isPrint (c : Char) : Bool :=
  let n := c.toNat
  if n ≤ 0xff then (0x20 ≤ n && n < 0x7f) || (0xa1 ≤ n && n ≠ 0xad)
  else ! hidden.any fun range => range.1 ≤ n && n ≤ range.2

/-- the last `digits` hexadecimal digits -/
def hex : ℕ → ℕ → List Char
  | 0, _ => []
  | digits + 1, n => hex digits (n / 16) ++ [Nat.digitChar (n % 16)]

/-- the letters of the escapes that have one: `\a \b \t \n \v \f \r` -/
def letter (c : Char) : Option Char := if 7 ≤ c.toNat then ['a', 'b', 't', 'n', 'v', 'f', 'r'][c.toNat - 7]? else none

def escape (c : Char) : List Char :=
  if c.toNat = 0x22 ∨ c.toNat = 0x5c then [Char.ofNat 0x5c, c]
  else if isPrint c then [c]
  else
    Char.ofNat 0x5c ::
      match letter c with
      | some l => [l]
      | none =>
        if c.toNat < 0x20 ∨ c.toNat = 0x7f then 'x' :: hex 2 c.toNat
        else if c.toNat < 0x10000 then 'u' :: hex 4 c.toNat
        else 'U' :: hex 8 c.toNat

def quote (s : String) : String := String.ofList (Char.ofNat 0x22 :: s.toList.flatMap escape ++ [Char.ofNat 0x22])

example : quote (String.ofList ['a', '\t', Char.ofNat 0x1b, Char.ofNat 0xa0, 'é', Char.ofNat 0x5c]) =
    "\"a\\t\\x1b\\u00a0é\\\\\"" := by decide

end GoQuote
