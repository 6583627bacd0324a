/-
The timestamp and the message of a raw log line (`models/logs.go`: `ParseTimestamp`, `tryParseTimestampCandidate`,
`CleanMessage`, `ParseLogLine`), byte by byte.

The engine writes each line as a timestamp, a space, and what the application wrote. The parser looks for the longest
prefix of the line that is a timestamp, in any of its layouts and within any brackets. What follows is trimmed of spaces,
and then of the closing brackets that an opening one before the timestamp would leave.

`time.Parse` and `DetectLogLevel` are parameters. White space is that of Unicode, by the bytes of its encoding.

Results:
- `ParseTimestamp_engine`: what follows the timestamp is the application's line, trimmed on both sides, and then on the
  left of closing brackets;
- `message_iff`: the message is the application's line, cleaned, if and only if that line does not begin with a closing
  bracket;
- `brace_is_lost`: "} else".
-/
import Mathlib.Data.Bool.AllAny
import Mathlib.Data.List.DropRight
import LogDeck.Lib.Tokens
import LogDeck.Models.Logs

namespace LogDeck.Timestamp

open LogDeck.LogStore (Stream)
open LogDeck.Models (LogLevel)
open Tokens (Word Solid)

abbrev Bytes := List UInt8

/-! ## Trimming -/

/-- the encodings of white space: tab to carriage return, space, U+0085, U+00A0, U+1680, U+2000 to U+200A, U+2028,
U+2029, U+202F, U+205F, U+3000 -/
def spaces : List Bytes :=
  [[0x09], [0x0a], [0x0b], [0x0c], [0x0d], [0x20], [0xc2, 0x85], [0xc2, 0xa0], [0xe1, 0x9a, 0x80], [0xe2, 0x80, 0x80],
    [0xe2, 0x80, 0x81], [0xe2, 0x80, 0x82], [0xe2, 0x80, 0x83], [0xe2, 0x80, 0x84], [0xe2, 0x80, 0x85],
    [0xe2, 0x80, 0x86], [0xe2, 0x80, 0x87], [0xe2, 0x80, 0x88], [0xe2, 0x80, 0x89], [0xe2, 0x80, 0x8a],
    [0xe2, 0x80, 0xa8], [0xe2, 0x80, 0xa9], [0xe2, 0x80, 0xaf], [0xe2, 0x81, 0x9f], [0xe3, 0x80, 0x80]]

/-- `strings.TrimSpace` -/
def TrimSpace (b : Bytes) : Bytes := Tokens.trim spaces b

/-- `strings.Trim(s, cutset)` -/
def Trim (b cutset : Bytes) : Bytes := (b.dropWhile (· ∈ cutset)).rdropWhile (· ∈ cutset)

/-- `strings.TrimLeft(s, cutset)` -/
def TrimLeft (b cutset : Bytes) : Bytes := b.dropWhile (· ∈ cutset)

/-! ## Timestamps -/

def RFC3339Nano : String := "2006-01-02T15:04:05.999999999Z07:00"

def RFC3339 : String := "2006-01-02T15:04:05Z07:00"

def timestampFormats : List String :=
  [RFC3339Nano, RFC3339, "2006-01-02T15:04:05.999999999", "2006-01-02T15:04:05", "2006-01-02 15:04:05.999999999",
    "2006-01-02 15:04:05.999", "2006-01-02 15:04:05", "2006/01/02 15:04:05", "02/Jan/2006:15:04:05 -0700",
    "Mon Jan _2 15:04:05 2006", "Mon Jan _2 15:04:05 MST 2006", "Mon Jan 02 15:04:05 -0700 2006"]

def minTimestampLen : ℕ := 17

def maxTimestampLen : ℕ := 40

def isDigit (b : UInt8) : Bool := 0x30 ≤ b && b ≤ 0x39

def isNumericSuffix (value : Bytes) : Bool := value ≠ [] && value.all isDigit

/-- a comma before nothing but digits becomes a point -/
def normalizeFractionSeparator (value : Bytes) : Bytes :=
  let whole := value.takeWhile (· ≠ 0x2c)
  let fraction := value.drop (whole.length + 1)
  if 0x2c ∈ value ∧ isNumericSuffix fraction then whole ++ [0x2e] ++ fraction else value

/-- what `([+-]\d{2})(\d{2})$` captures -/
def tzOffsetNoColon (value : Bytes) : Option (Bytes × Bytes) :=
  match value.drop (value.length - 5) with
  | [sign, h₁, h₂, m₁, m₂] =>
    if (sign = 0x2b ∨ sign = 0x2d) ∧ [h₁, h₂, m₁, m₂].all isDigit then some ([sign, h₁, h₂], [m₁, m₂]) else none
  | _ => none

/-- `[](){}<>` -/
def brackets : Bytes := [0x5b, 0x5d, 0x28, 0x29, 0x7b, 0x7d, 0x3c, 0x3e]

/-- a candidate without white space around it, and without brackets -/
def sanitize (candidate : Bytes) : Bytes := Trim (TrimSpace candidate) brackets

/-- `time.Time{}`, in nanoseconds -/
def zeroTime : ℤ := -62135596800000000000

section Parser

variable (timeParse : String → Bytes → Option ℤ)

def parseSanitized (sanitized : Bytes) : Option ℤ :=
  match timestampFormats.findSome? fun format => timeParse format sanitized with
  | some ts => some ts
  | none =>
    match tzOffsetNoColon sanitized with
    | some (hours, minutes) =>
      let withColon := sanitized.take (sanitized.length - 5) ++ hours ++ [0x3a] ++ minutes
      [RFC3339Nano, RFC3339].findSome? fun format => timeParse format withColon
    | none => none

def tryParseTimestampCandidate (candidate : Bytes) : Option ℤ :=
  let sanitized := sanitize candidate
  if sanitized = [] then none
  else if sanitized.length < minTimestampLen ∨ sanitized.length > maxTimestampLen then none
  else parseSanitized timeParse (normalizeFractionSeparator sanitized)

def maxPrefix : ℕ := 96

/-- the longest prefix of at most so many bytes that is a timestamp -/
def scan (line : Bytes) : ℕ → Option (ℤ × ℕ)
  | 0 => none
  | i + 1 =>
    match tryParseTimestampCandidate timeParse (line.take (i + 1)) with
    | some ts => some (ts, i + 1)
    | none => scan line i

/-- `)]}>`, space and tab -/
def leftovers : Bytes := [0x29, 0x5d, 0x7d, 0x3e, 0x20, 0x09]

def ParseTimestamp (logLine : Bytes) : ℤ × Bytes :=
  let line := TrimSpace logLine
  if line = [] then (zeroTime, [])
  else
    match scan timeParse line (min line.length maxPrefix) with
    | some (ts, i) => (ts, TrimLeft (TrimSpace (line.drop i)) leftovers)
    | none => (zeroTime, line)

end Parser

/-! ## Messages -/

def isAnsiParam (b : UInt8) : Bool := isDigit b || b == 0x3b

/-- the length of what `\x1b\[[0-9;]*m` matches at the front, or 0 -/
def ansiLength : Bytes → ℕ
  | 0x1b :: 0x5b :: rest =>
    if (rest.dropWhile isAnsiParam).head? = some 0x6d then (rest.takeWhile isAnsiParam).length + 3 else 0
  | _ => 0

/-- skips so many bytes, and takes out every match in the others -/
def stripAnsiFrom : ℕ → Bytes → Bytes
  | _, [] => []
  | k + 1, _ :: rest => stripAnsiFrom k rest
  | 0, b :: rest =>
    match ansiLength (b :: rest) with
    | 0 => b :: stripAnsiFrom 0 rest
    | n + 1 => stripAnsiFrom n rest

/-- `ansiRegex.ReplaceAllString(message, "")` -/
def stripAnsi (b : Bytes) : Bytes := stripAnsiFrom 0 b

def CleanMessage (message : Bytes) : Bytes := TrimSpace (stripAnsi message)

structure ParsedLine where
  timestamp : ℤ
  level : LogLevel
  message : Bytes
  stream : Stream
  raw : Bytes
deriving DecidableEq, Repr

def ParseLogLine (timeParse : String → Bytes → Option ℤ) (DetectLogLevel : Bytes → LogLevel) (logLine : Bytes)
    (stream : Stream) : ParsedLine :=
  let parsed := ParseTimestamp timeParse logLine
  let cleanedMessage := CleanMessage parsed.2
  { timestamp := parsed.1, level := DetectLogLevel cleanedMessage, message := cleanedMessage, stream := stream,
    raw := logLine }

/-! ## The engine's timestamps -/

def digit (n : ℕ) : UInt8 := UInt8.ofNat (0x30 + n % 10)

def two (n : ℕ) : Bytes := [digit (n / 10), digit n]

/-- an instant as RFC3339Nano writes it; months and days are counted from 0 here -/
structure EngineTime where
  year : Fin 10000
  month : Fin 12
  day : Fin 31
  hour : Fin 24
  minute : Fin 60
  second : Fin 60
  /-- the digits after the point -/
  fraction : List (Fin 10)
  fraction_le : fraction.length ≤ 9
  /-- west or east of UTC, hours and minutes; none is UTC -/
  offset : Option (Bool × Fin 24 × Fin 60)

namespace EngineTime

def formatFraction (t : EngineTime) : Bytes :=
  if t.fraction = [] then [] else 0x2e :: t.fraction.map fun d : Fin 10 => digit d

def formatOffset (t : EngineTime) : Bytes :=
  match t.offset with
  | none => [0x5a]
  | some (west, hours, minutes) => (if west then 0x2d else 0x2b) :: (two hours ++ [0x3a] ++ two minutes)

def format (t : EngineTime) : Bytes :=
  two (t.year / 100) ++ two t.year ++ [0x2d] ++ two (t.month + 1) ++ [0x2d] ++ two (t.day + 1) ++ [0x54] ++
    two t.hour ++ [0x3a] ++ two t.minute ++ [0x3a] ++ two t.second ++ t.formatFraction ++ t.formatOffset

end EngineTime

/-- the bytes of such timestamps: `0123456789+-.:TZ` -/
def timeBytes : Bytes :=
  [0x30, 0x31, 0x32, 0x33, 0x34, 0x35, 0x36, 0x37, 0x38, 0x39, 0x2b, 0x2d, 0x2e, 0x3a, 0x54, 0x5a]

/-- `time.Parse` accepts the engine's timestamp, and the parser finds no longer one at the front of the line -/
structure ReadsTimestamp (timeParse : String → Bytes → Option ℤ) (t : EngineTime) (line : Bytes) : Prop where
  accepted : (timeParse RFC3339Nano t.format).isSome
  noLonger : ∀ p, p <+: TrimSpace (t.format ++ [0x20] ++ line) → t.format.length < (sanitize p).length →
    tryParseTimestampCandidate timeParse p = none

/-- `)]}>`: the brackets that the parser takes off the front of a message -/
def closers : Bytes := [0x29, 0x5d, 0x7d, 0x3e]

/-! ## Bytes of timestamps -/

theorem spaces_lawful : Tokens.Lawful spaces where
  front := ⟨by decide +kernel, by decide +kernel⟩
  back := ⟨by decide +kernel, by decide +kernel⟩
  sync := by decide +kernel

theorem solid_timeBytes : ∀ b ∈ timeBytes, Solid spaces b := by
  unfold Solid
  exact List.all_iff_forall_prop.1 (by decide)

theorem solid_closers : ∀ b ∈ closers, Solid spaces b := by
  unfold Solid
  exact List.all_iff_forall_prop.1 (by decide)

theorem digit_mem (n : ℕ) : digit n ∈ timeBytes := by
  have hten : ∀ d : Fin 10, UInt8.ofNat (0x30 + d) ∈ timeBytes := by decide
  exact hten ⟨n % 10, Nat.mod_lt n (by omega)⟩

theorem two_mem (n : ℕ) : ∀ b ∈ two n, b ∈ timeBytes := by
  intro b hb
  rcases List.mem_cons.1 hb with rfl | hb
  · exact digit_mem _
  · rw [List.mem_singleton.1 hb]
    exact digit_mem _

namespace EngineTime

variable (t : EngineTime)

theorem formatFraction_mem : ∀ b ∈ t.formatFraction, b ∈ timeBytes := by
  intro b hb
  unfold formatFraction at hb
  split_ifs at hb
  · cases hb
  · rcases List.mem_cons.1 hb with rfl | hb
    · decide
    · obtain ⟨d, _, rfl⟩ := List.mem_map.1 hb
      exact digit_mem d

theorem formatOffset_mem : ∀ b ∈ t.formatOffset, b ∈ timeBytes := by
  intro b hb
  unfold formatOffset at hb
  split at hb
  · rw [List.mem_singleton.1 hb]
    decide
  · simp only [List.mem_cons, List.mem_append, List.not_mem_nil, or_false] at hb
    rcases hb with rfl | (hb | rfl) | hb
    · split_ifs <;> decide
    · exact two_mem _ b hb
    · decide
    · exact two_mem _ b hb

theorem format_mem : ∀ b ∈ t.format, b ∈ timeBytes := by
  simp only [format, List.forall_mem_append, List.forall_mem_singleton, and_assoc]
  have h2d : 0x2d ∈ timeBytes := by decide
  have h54 : 0x54 ∈ timeBytes := by decide
  have h3a : 0x3a ∈ timeBytes := by decide
  exact ⟨two_mem _, two_mem _, h2d, two_mem _, h2d, two_mem _, h54, two_mem _, h3a, two_mem _, h3a, two_mem _,
    t.formatFraction_mem, t.formatOffset_mem⟩

theorem length_format : 20 ≤ t.format.length ∧ t.format.length ≤ 35 := by
  have hfraction : t.formatFraction.length ≤ 10 := by
    have hle := t.fraction_le
    unfold formatFraction
    split_ifs
    · exact Nat.zero_le _
    · rw [List.length_cons, List.length_map]
      omega
  have hoffset : 1 ≤ t.formatOffset.length ∧ t.formatOffset.length ≤ 6 := by
    unfold formatOffset
    split <;> simp [two]
  simp only [format, List.length_append, two, List.length_cons, List.length_nil]
  omega

end EngineTime

/-! ## Lengths -/

theorem length_TrimSpace_le (b : Bytes) : (TrimSpace b).length ≤ b.length := by
  obtain ⟨v, w, -, -, hb⟩ := Tokens.trim_spec spaces_lawful b
  have hlen := congrArg List.length hb
  rw [List.length_append, List.length_append] at hlen
  unfold TrimSpace
  omega

theorem length_stripAnsiFrom_le (k : ℕ) (b : Bytes) : (stripAnsiFrom k b).length ≤ b.length := by
  induction b generalizing k with
  | nil => cases k <;> exact Nat.le_refl _
  | cons c b ih =>
    cases k with
    | succ k => exact (ih k).trans (Nat.le_succ _)
    | zero =>
      unfold stripAnsiFrom
      cases ansiLength (c :: b) with
      | zero => exact Nat.succ_le_succ (ih 0)
      | succ n => exact (ih n).trans (Nat.le_succ _)

theorem length_ParseTimestamp_le (timeParse : String → Bytes → Option ℤ) (line : Bytes) :
    (ParseTimestamp timeParse line).2.length ≤ line.length := by
  have htrim := length_TrimSpace_le line
  unfold ParseTimestamp
  dsimp only
  split_ifs
  · exact Nat.zero_le _
  · split
    · next i _ =>
      have hleft := (List.dropWhile_suffix (· ∈ leftovers) (l := TrimSpace ((TrimSpace line).drop i))).length_le
      have hrest := length_TrimSpace_le ((TrimSpace line).drop i)
      rw [List.length_drop] at hrest
      unfold TrimLeft
      dsimp only
      omega
    · exact htrim

/-- a message is no longer than its line -/
theorem length_message_le (timeParse : String → Bytes → Option ℤ) (DetectLogLevel : Bytes → LogLevel) (line : Bytes)
    (stream : Stream) : (ParseLogLine timeParse DetectLogLevel line stream).message.length ≤ line.length := by
  have hparse := length_ParseTimestamp_le timeParse line
  have hansi := length_stripAnsiFrom_le 0 (ParseTimestamp timeParse line).2
  have htrim := length_TrimSpace_le (stripAnsi (ParseTimestamp timeParse line).2)
  exact htrim.trans (hansi.trans hparse)

/-! ## Candidates -/

variable {x q line : Bytes}

/-- a text that begins with the bytes of a timestamp is trimmed on the right only -/
theorem TrimSpace_append (hx : ∀ b ∈ x, b ∈ timeBytes) (hne : x ≠ []) (q : Bytes) :
    TrimSpace (x ++ q) = x ++ Tokens.stripEnd spaces q := by
  have hhead : ∀ b ∈ (x ++ q).head?, Solid spaces b := by
    intro b hb
    rw [List.head?_append_of_ne_nil x hne] at hb
    exact solid_timeBytes b (hx b (List.mem_of_mem_head? hb))
  have hlast : ∀ b ∈ x.getLast?, Solid spaces b := fun b hb =>
    solid_timeBytes b (hx b (List.mem_of_mem_getLast? hb))
  have hfront : Tokens.strip spaces (x ++ q) = x ++ q := Tokens.strip_append spaces_lawful.front hhead []
  rw [TrimSpace, Tokens.trim, hfront, Tokens.stripEnd_append spaces_lawful hlast]

theorem Trim_append {cutset : Bytes} (hx : ∀ b ∈ x, b ∉ cutset) (hne : x ≠ []) (q : Bytes) :
    Trim (x ++ q) cutset = x ++ q.rdropWhile (· ∈ cutset) := by
  obtain ⟨c, cs, rfl⟩ := List.exists_cons_of_ne_nil hne
  have hfront : (c :: cs ++ q).dropWhile (· ∈ cutset) = c :: cs ++ q :=
    List.dropWhile_cons_of_neg (by simpa using hx c List.mem_cons_self)
  rw [Trim, hfront]
  clear hfront
  induction q using List.reverseRecOn with
  | nil =>
    rw [List.append_nil, List.rdropWhile_nil, List.append_nil, List.rdropWhile_eq_self_iff]
    intro _
    simpa using hx _ (List.getLast_mem _)
  | append_singleton q b ih =>
    rw [← List.append_assoc]
    by_cases hb : b ∈ cutset
    · rw [List.rdropWhile_concat_pos _ _ _ (by simpa using hb), List.rdropWhile_concat_pos _ _ _ (by simpa using hb), ih]
    · rw [List.rdropWhile_concat_neg _ _ _ (by simpa using hb), List.rdropWhile_concat_neg _ _ _ (by simpa using hb),
        List.append_assoc]

theorem sanitize_append (hx : ∀ b ∈ x, b ∈ timeBytes) (hne : x ≠ []) (q : Bytes) :
    sanitize (x ++ q) = x ++ (Tokens.stripEnd spaces q).rdropWhile (· ∈ brackets) := by
  have hplain : ∀ b ∈ timeBytes, b ∉ brackets := List.all_iff_forall_prop.1 (by decide)
  rw [sanitize, TrimSpace_append hx hne, Trim_append (fun b hb => hplain b (hx b hb)) hne]

theorem sanitize_self (hx : ∀ b ∈ x, b ∈ timeBytes) (hne : x ≠ []) : sanitize x = x := by
  have happ := sanitize_append hx hne []
  have hnil : Tokens.stripEnd spaces [] = [] := rfl
  rwa [hnil, List.rdropWhile_nil, List.append_nil] at happ

theorem normalizeFractionSeparator_plain (hx : ∀ b ∈ x, b ∈ timeBytes) : normalizeFractionSeparator x = x := by
  have hcomma : (0x2c : UInt8) ∉ timeBytes := by decide
  rw [normalizeFractionSeparator, if_neg fun h => hcomma (hx _ h.1)]

variable {timeParse : String → Bytes → Option ℤ} {t : EngineTime}

theorem format_ne_nil (t : EngineTime) : t.format ≠ [] := by
  have hlen := t.length_format.1
  intro hnil
  rw [hnil] at hlen
  cases hlen

/-- the engine's timestamp is a timestamp to the parser -/
theorem tryParse_format (h : (timeParse RFC3339Nano t.format).isSome) :
    (tryParseTimestampCandidate timeParse t.format).isSome := by
  have hself : sanitize t.format = t.format := sanitize_self t.format_mem (format_ne_nil t)
  obtain ⟨hmin, hmax⟩ := t.length_format
  obtain ⟨ts, hts⟩ := Option.isSome_iff_exists.1 h
  unfold tryParseTimestampCandidate
  rw [hself, if_neg (format_ne_nil t), if_neg (by unfold minTimestampLen maxTimestampLen; omega),
    normalizeFractionSeparator_plain t.format_mem, parseSanitized, timestampFormats, List.findSome?_cons, hts]
  rfl

/-- a longer prefix of the line is a timestamp only with white space after the engine's -/
theorem word_of_accepted (h : ReadsTimestamp timeParse t line) {q : Bytes}
    (hpre : t.format ++ q <+: TrimSpace (t.format ++ [0x20] ++ line)) (hq : q <+: [0x20] ++ line)
    (hsome : (tryParseTimestampCandidate timeParse (t.format ++ q)).isSome) : Word spaces q := by
  have hle : ¬ t.format.length < (sanitize (t.format ++ q)).length := by
    intro hlt
    rw [h.noLonger _ hpre hlt] at hsome
    cases hsome
  rw [sanitize_append t.format_mem (format_ne_nil t), List.length_append] at hle
  have hnil : (Tokens.stripEnd spaces q).rdropWhile (· ∈ brackets) = [] := List.length_eq_zero_iff.1 (by omega)
  obtain ⟨w, hw, hqw⟩ := Tokens.stripEnd_spec spaces_lawful q
  cases hrest : Tokens.stripEnd spaces q with
  | nil =>
    rw [hrest, List.nil_append] at hqw
    rwa [hqw]
  | cons b rest =>
    -- it would have to be a bracket, but the byte after the timestamp is a space
    rw [hrest, List.rdropWhile_eq_nil_iff] at hnil
    have hb : b ∈ brackets := by simpa using hnil b List.mem_cons_self
    rw [hrest] at hqw
    obtain ⟨z, hz⟩ := hq
    rw [hqw] at hz
    have hspace : b = 0x20 := by simpa using congrArg List.head? hz
    rw [hspace] at hb
    exact absurd hb (by decide)

/-- the scan finds the longest prefix that is a timestamp -/
theorem scan_of {line : Bytes} {n i : ℕ} (hpos : 1 ≤ i) (hi : i ≤ n)
    (h : (tryParseTimestampCandidate timeParse (line.take i)).isSome) :
    ∃ ts j, scan timeParse line n = some (ts, j) ∧ i ≤ j ∧ tryParseTimestampCandidate timeParse (line.take j) = some ts := by
  induction n with
  | zero => omega
  | succ n ih =>
    unfold scan
    cases htry : tryParseTimestampCandidate timeParse (line.take (n + 1)) with
    | some ts => exact ⟨ts, n + 1, rfl, hi, htry⟩
    | none =>
      have hne : i ≠ n + 1 := by
        rintro rfl
        rw [htry] at h
        cases h
      exact ih (by omega)

/-- **The timestamp.** What follows it is the application's line, trimmed, and then on the left of closing brackets. -/
theorem ParseTimestamp_engine (h : ReadsTimestamp timeParse t line) :
    (ParseTimestamp timeParse (t.format ++ [0x20] ++ line)).2 = TrimLeft (TrimSpace line) leftovers := by
  obtain ⟨w, hw, hsplit⟩ := Tokens.stripEnd_spec spaces_lawful ([0x20] ++ line)
  have htrim := TrimSpace_append t.format_mem (format_ne_nil t) ([0x20] ++ line)
  rw [← List.append_assoc] at htrim
  generalize Tokens.stripEnd spaces ([0x20] ++ line) = v at hsplit htrim
  have hne : TrimSpace (t.format ++ [0x20] ++ line) ≠ [] := by
    rw [htrim]
    exact List.append_ne_nil_of_left_ne_nil (format_ne_nil t) v
  obtain ⟨hmin, hmax⟩ := t.length_format
  have hlen : t.format.length ≤ min (TrimSpace (t.format ++ [0x20] ++ line)).length maxPrefix := by
    rw [htrim, List.length_append]
    unfold maxPrefix
    omega
  have hfirst : (tryParseTimestampCandidate timeParse
      ((TrimSpace (t.format ++ [0x20] ++ line)).take t.format.length)).isSome := by
    rw [htrim, List.take_left]
    exact tryParse_format h.accepted
  obtain ⟨ts, j, hscan, hj, htry⟩ := scan_of (by omega) hlen hfirst
  have htake : (TrimSpace (t.format ++ [0x20] ++ line)).take j = t.format ++ v.take (j - t.format.length) := by
    rw [htrim, List.take_append, List.take_of_length_le hj]
  have hword : Word spaces (v.take (j - t.format.length)) := by
    apply word_of_accepted h
    · rw [← htake]
      exact List.take_prefix _ _
    · rw [hsplit]
      exact (List.take_prefix _ _).trans (List.prefix_append v w)
    · rw [← htake, htry]
      rfl
  have hspace : Word spaces [0x20] := Word.single (by decide)
  have hdrop : (TrimSpace (t.format ++ [0x20] ++ line)).drop j = v.drop (j - t.format.length) := by
    rw [htrim, List.drop_append, List.drop_of_length_le hj, List.nil_append]
  have hrest : TrimSpace (v.drop (j - t.format.length)) = TrimSpace line := by
    have hfront := Tokens.trim_words spaces_lawful hspace Word.nil line
    have hboth := Tokens.trim_words spaces_lawful hword hw (v.drop (j - t.format.length))
    rw [List.take_append_drop, ← hsplit] at hboth
    rw [List.append_nil] at hfront
    exact hboth.symm.trans hfront
  unfold ParseTimestamp
  rw [if_neg hne, hscan]
  change TrimLeft (TrimSpace ((TrimSpace (t.format ++ [0x20] ++ line)).drop j)) _ = _
  rw [hdrop, hrest]

/-! ## Messages -/

/-- the bytes of escape sequences -/
def isAnsi (b : UInt8) : Bool := b == 0x1b || b == 0x5b || b == 0x6d || isAnsiParam b

theorem word_plain {w : Bytes} (hw : Word spaces w) : ∀ b ∈ w, isAnsi b = false := by
  have htokens : ∀ b ∈ spaces.flatten, isAnsi b = false := List.all_iff_forall_prop.1 (by decide)
  intro b hb
  obtain ⟨t, ht, hbt⟩ := hw.mem hb
  exact htokens b (List.mem_flatten.2 ⟨t, ht, hbt⟩)

theorem ansiLength_of_ne {b : UInt8} (h : b ≠ 0x1b) (rest : Bytes) : ansiLength (b :: rest) = 0 := by
  unfold ansiLength
  split
  · next heq =>
    cases heq
    exact absurd rfl h
  · rfl

/-- text before the escape sequences stays -/
theorem stripAnsi_append {p : Bytes} (hp : ∀ b ∈ p, b ≠ 0x1b) (y : Bytes) : stripAnsi (p ++ y) = p ++ stripAnsi y := by
  induction p with
  | nil => rfl
  | cons b p ih =>
    rw [stripAnsi, List.cons_append, stripAnsiFrom, ansiLength_of_ne (hp b List.mem_cons_self)]
    exact congrArg (List.cons b) (ih fun c hc => hp c (List.mem_cons_of_mem b hc))

theorem head_plain {w : Bytes} (hw : ∀ b ∈ w, isAnsi b = false) {b : UInt8} (hb : isAnsi b = true) (rest : Bytes) :
    w ≠ b :: rest := by
  rintro rfl
  rw [hw b List.mem_cons_self] at hb
  cases hb

theorem ansiLength_bracket {c : UInt8} (h : c ≠ 0x5b) (rest : Bytes) : ansiLength (0x1b :: c :: rest) = 0 := by
  unfold ansiLength
  split
  · next heq =>
    cases heq
    exact absurd rfl h
  · rfl

/-- the parameters end before plain text -/
theorem params_append {w : Bytes} (hw : ∀ b ∈ w, isAnsi b = false) (rest : Bytes) :
    (rest ++ w).takeWhile isAnsiParam = rest.takeWhile isAnsiParam ∧
      (((rest ++ w).dropWhile isAnsiParam).head? = some 0x6d ↔ (rest.dropWhile isAnsiParam).head? = some 0x6d) := by
  have hplain : ∀ b ∈ w, isAnsiParam b = false ∧ b ≠ 0x6d := by
    intro b hb
    have hfalse := hw b hb
    unfold isAnsi at hfalse
    simp only [Bool.or_eq_false_iff, beq_eq_false_iff_ne] at hfalse
    exact ⟨hfalse.2, hfalse.1.2⟩
  induction rest with
  | nil =>
    cases w with
    | nil => exact ⟨rfl, Iff.rfl⟩
    | cons b w =>
      obtain ⟨hparam, hm⟩ := hplain b List.mem_cons_self
      simp [hparam, hm]
  | cons b rest ih =>
    by_cases hb : isAnsiParam b = true
    · simp only [List.cons_append, List.takeWhile_cons, List.dropWhile_cons, hb, if_true]
      exact ⟨congrArg (List.cons b) ih.1, ih.2⟩
    · simp [hb]

/-- an escape sequence does not go on into plain text -/
theorem ansiLength_append {w : Bytes} (hw : ∀ b ∈ w, isAnsi b = false) {y : Bytes} (hy : y ≠ []) :
    ansiLength (y ++ w) = ansiLength y ∧ ansiLength y ≤ y.length := by
  obtain ⟨b, rest, rfl⟩ := List.exists_cons_of_ne_nil hy
  by_cases hb : b = 0x1b
  · subst hb
    cases rest with
    | nil =>
      cases w with
      | nil => exact ⟨rfl, Nat.zero_le _⟩
      | cons c w =>
        have hc : c ≠ 0x5b := by
          rintro rfl
          exact head_plain hw rfl w rfl
        exact ⟨ansiLength_bracket hc w, Nat.zero_le _⟩
    | cons c rest =>
      by_cases hc : c = 0x5b
      · subst hc
        obtain ⟨hparams, hend⟩ := params_append hw rest
        rw [List.cons_append, List.cons_append, ansiLength, ansiLength, hparams]
        refine ⟨by simp only [hend], ?_⟩
        split_ifs with hm
        · -- the parameters and the m are in the text
          have hsplit := congrArg List.length (List.takeWhile_append_dropWhile (p := isAnsiParam) (l := rest))
          obtain ⟨rest', hrest'⟩ := List.head?_eq_some_iff.1 hm
          rw [hrest', List.length_append, List.length_cons] at hsplit
          simp only [List.length_cons]
          omega
        · exact Nat.zero_le _
      · exact ⟨(ansiLength_bracket hc _).trans (ansiLength_bracket hc _).symm,
          (ansiLength_bracket hc _).le.trans (Nat.zero_le _)⟩
  · exact ⟨(ansiLength_of_ne hb _).trans (ansiLength_of_ne hb _).symm,
      (ansiLength_of_ne hb _).le.trans (Nat.zero_le _)⟩

/-- plain text after the escape sequences stays -/
theorem stripAnsiFrom_append {w : Bytes} (hw : ∀ b ∈ w, isAnsi b = false) (y : Bytes) {k : ℕ} (hk : k ≤ y.length) :
    stripAnsiFrom k (y ++ w) = stripAnsiFrom k y ++ w := by
  induction y generalizing k with
  | nil =>
    obtain rfl := Nat.le_zero.1 hk
    have hplain : ∀ b ∈ w, b ≠ 0x1b := by
      rintro b hb rfl
      exact absurd (hw _ hb) (by decide)
    have hself := stripAnsi_append hplain []
    rw [List.append_nil] at hself
    exact hself.trans (List.append_nil w)
  | cons b y ih =>
    cases k with
    | succ k => exact ih (Nat.le_of_succ_le_succ hk)
    | zero =>
      obtain ⟨hsame, hle⟩ := ansiLength_append hw (List.cons_ne_nil b y)
      rw [List.cons_append] at hsame
      rw [List.cons_append, stripAnsiFrom, stripAnsiFrom, hsame]
      cases hlen : ansiLength (b :: y) with
      | zero => exact congrArg (List.cons b) (ih (Nat.zero_le _))
      | succ n =>
        rw [hlen] at hle
        exact ih (Nat.le_of_succ_le_succ hle)

/-- white space around a line does not matter to the message -/
theorem CleanMessage_TrimSpace (line : Bytes) : CleanMessage (TrimSpace line) = CleanMessage line := by
  obtain ⟨v, w, hv, hw, hline⟩ := Tokens.trim_spec spaces_lawful line
  have hfront : ∀ b ∈ v, b ≠ 0x1b := by
    rintro b hb rfl
    exact absurd (word_plain hv _ hb) (by decide)
  have hstrip : stripAnsi line = v ++ stripAnsi (TrimSpace line) ++ w := by
    calc stripAnsi line = stripAnsi (v ++ (TrimSpace line ++ w)) := by
          rw [← List.append_assoc]
          exact congrArg stripAnsi hline
      _ = v ++ stripAnsi (TrimSpace line ++ w) := stripAnsi_append hfront _
      _ = v ++ (stripAnsi (TrimSpace line) ++ w) :=
          congrArg (v ++ ·) (stripAnsiFrom_append (word_plain hw) _ (Nat.zero_le _))
      _ = v ++ stripAnsi (TrimSpace line) ++ w := (List.append_assoc _ _ _).symm
  unfold CleanMessage
  rw [hstrip]
  exact (Tokens.trim_words spaces_lawful hv hw _).symm

/-! ## What is preserved -/

/-- a message that begins with a closing bracket loses it -/
theorem CleanMessage_closer {c : UInt8} (hc : c ∈ closers) (m : Bytes) :
    CleanMessage (TrimLeft (c :: m) leftovers) ≠ CleanMessage (c :: m) := by
  have hcut : ∀ b ∈ closers, b ∈ leftovers := List.all_iff_forall_prop.1 (by decide)
  have hesc : (0x1b : UInt8) ∉ leftovers := by decide
  intro heq
  have hcount := congrArg (List.count c) heq
  have hsolid := solid_closers c hc
  have hp : ∀ b ∈ (c :: m).takeWhile (· ∈ leftovers), b ≠ 0x1b := by
    rintro b hb rfl
    exact hesc (by simpa using List.mem_takeWhile_imp hb)
  have hsplit := stripAnsi_append hp ((c :: m).dropWhile (· ∈ leftovers))
  rw [List.takeWhile_append_dropWhile] at hsplit
  -- trimming keeps every bracket, so what is cut off is missing
  have hpos : 0 < ((c :: m).takeWhile (· ∈ leftovers)).count c := by
    rw [List.count_pos_iff, List.takeWhile_cons_of_pos (by simpa using hcut c hc)]
    exact List.mem_cons_self
  unfold CleanMessage TrimSpace at hcount
  rw [Tokens.count_trim spaces_lawful hsolid, Tokens.count_trim spaces_lawful hsolid, hsplit, List.count_append,
    TrimLeft] at hcount
  omega

/-- a trimmed line that does not begin with a closing bracket is kept -/
theorem TrimLeft_TrimSpace (h : ∀ b ∈ (TrimSpace line).head?, b ∉ closers) :
    TrimLeft (TrimSpace line) leftovers = TrimSpace line := by
  have hcut : ∀ b ∈ leftovers, b ∈ closers ∨ [b] ∈ spaces := List.all_iff_forall_prop.1 (by decide)
  cases hm : TrimSpace line with
  | nil => rfl
  | cons b m =>
    refine List.dropWhile_cons_of_neg ?_
    rw [decide_eq_true_eq]
    intro hb
    rw [hm] at h
    rcases hcut b hb with hcloser | hspace
    · exact h b rfl hcloser
    · have hhead := Tokens.trim_head spaces_lawful line [b] hspace
      change ¬ [b] <+: TrimSpace line at hhead
      rw [hm] at hhead
      exact hhead ⟨m, rfl⟩

/-- **The message.** The message of a line of the engine is what the application wrote, cleaned, if and only if that
does not begin with a closing bracket, after its white space. -/
theorem message_iff (timeParse : String → Bytes → Option ℤ) (DetectLogLevel : Bytes → LogLevel) (t : EngineTime)
    (line : Bytes) (stream : Stream) (h : ReadsTimestamp timeParse t line) :
    (ParseLogLine timeParse DetectLogLevel (t.format ++ [0x20] ++ line) stream).message = CleanMessage line ↔
      ∀ b ∈ (TrimSpace line).head?, b ∉ closers := by
  have hmessage : (ParseLogLine timeParse DetectLogLevel (t.format ++ [0x20] ++ line) stream).message =
      CleanMessage (TrimLeft (TrimSpace line) leftovers) := by
    simp only [ParseLogLine, ParseTimestamp_engine h]
  rw [hmessage, ← CleanMessage_TrimSpace line]
  constructor
  · intro heq b hb hcloser
    obtain ⟨m, hm⟩ := List.head?_eq_some_iff.1 hb
    rw [hm] at heq
    exact CleanMessage_closer hcloser m heq
  · intro hhead
    rw [TrimLeft_TrimSpace hhead]

/-! ## Two lines -/

theorem length_normalizeFractionSeparator (value : Bytes) : (normalizeFractionSeparator value).length = value.length := by
  unfold normalizeFractionSeparator
  dsimp only
  split_ifs with h
  · have hlt : (value.takeWhile (· ≠ 0x2c)).length < value.length := by
      refine lt_of_le_of_ne (List.takeWhile_prefix _).length_le fun heq => ?_
      have hself := (List.takeWhile_prefix fun b : UInt8 => decide (b ≠ 0x2c)).eq_of_length heq
      have hall := List.takeWhile_eq_self_iff.1 hself _ h.1
      simp at hall
    rw [List.length_append, List.length_append, List.length_drop, List.length_singleton]
    omega
  · rfl

/-- the offset without a colon is five bytes, which become six -/
theorem length_tzOffsetNoColon {value hours minutes : Bytes} (h : tzOffsetNoColon value = some (hours, minutes)) :
    5 ≤ value.length ∧ hours.length = 3 ∧ minutes.length = 2 := by
  unfold tzOffsetNoColon at h
  split at h
  · next heq =>
    have hlen := congrArg List.length heq
    rw [List.length_drop] at hlen
    simp only [List.length_cons, List.length_nil] at hlen
    split_ifs at h
    cases h
    exact ⟨by omega, rfl, rfl⟩
  · cases h

/-- where `time.Parse` accepts no text of more than n bytes, nor does the parser -/
theorem tryParse_of_long {n : ℕ} (h : ∀ format value, n < value.length → timeParse format value = none) {p : Bytes}
    (hp : n < (sanitize p).length) : tryParseTimestampCandidate timeParse p = none := by
  have hlong : n < (normalizeFractionSeparator (sanitize p)).length := by rwa [length_normalizeFractionSeparator]
  have hnone : parseSanitized timeParse (normalizeFractionSeparator (sanitize p)) = none := by
    have hfirst : (timestampFormats.findSome? fun format =>
        timeParse format (normalizeFractionSeparator (sanitize p))) = none :=
      List.findSome?_eq_none_iff.2 fun format _ => h format _ hlong
    unfold parseSanitized
    rw [hfirst]
    dsimp only
    cases htz : tzOffsetNoColon (normalizeFractionSeparator (sanitize p)) with
    | none => rfl
    | some offset =>
      obtain ⟨hfive, hhours, hminutes⟩ := length_tzOffsetNoColon htz
      refine List.findSome?_eq_none_iff.2 fun format _ => h format _ ?_
      simp only [List.length_append, List.length_take, List.length_singleton]
      omega
  unfold tryParseTimestampCandidate
  dsimp only
  split_ifs
  · rfl
  · rfl
  · exact hnone

/-- 2026-05-28T05:00:38.367Z -/
def stamp : EngineTime := ⟨2026, 4, 27, 5, 0, 38, [3, 6, 7], by decide, none⟩

def stampParse (format : String) (value : Bytes) : Option ℤ :=
  if format ∈ [RFC3339Nano, RFC3339] ∧ value = stamp.format then some 1779944438367000000 else none

theorem stamp_reads (line : Bytes) : ReadsTimestamp stampParse stamp line where
  accepted := by simp [stampParse]
  noLonger p _ hlong := by
    refine tryParse_of_long (fun format value hvalue => ?_) hlong
    refine if_neg fun h => ?_
    rw [h.2] at hvalue
    exact lt_irrefl _ hvalue

/-- "ready" -/
theorem message_iff_ready : (ParseLogLine stampParse (fun _ => .unknown)
    (stamp.format ++ [0x20] ++ [0x72, 0x65, 0x61, 0x64, 0x79]) .stdout).message =
      CleanMessage [0x72, 0x65, 0x61, 0x64, 0x79] := by
  have hhead : (TrimSpace [0x72, 0x65, 0x61, 0x64, 0x79]).head? = some 0x72 := by decide
  refine (message_iff stampParse (fun _ => .unknown) stamp _ .stdout (stamp_reads _)).2 fun b hb => ?_
  rw [hhead] at hb
  obtain rfl := Option.some.inj hb
  decide

/-- **The brace.** "} else" becomes "else". -/
theorem brace_is_lost : ¬ ∀ (timeParse : String → Bytes → Option ℤ) (DetectLogLevel : Bytes → LogLevel)
    (t : EngineTime) (line : Bytes) (stream : Stream), ReadsTimestamp timeParse t line →
    (ParseLogLine timeParse DetectLogLevel (t.format ++ [0x20] ++ line) stream).message = CleanMessage line := by
  intro h
  have hbrace := h stampParse (fun _ => .unknown) stamp [0x7d, 0x20, 0x65, 0x6c, 0x73, 0x65] .stdout (stamp_reads _)
  have htrim : TrimSpace [0x7d, 0x20, 0x65, 0x6c, 0x73, 0x65] = [0x7d, 0x20, 0x65, 0x6c, 0x73, 0x65] := by decide
  simp only [ParseLogLine, ParseTimestamp_engine (stamp_reads _), htrim] at hbrace
  exact CleanMessage_closer (by decide) _ hbrace

end LogDeck.Timestamp
