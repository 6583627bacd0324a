/-
Log entries and the grouper of continuation lines (`models/logs.go`, `models/alerts.go`: `LevelSeverity`).

`ParseLogLine` is a parameter of everything above this file (`Text.parse`): the level and the cleaned message of a raw
line are whatever it says. The grouper, its structured-field pattern and its stack-trace prefixes are modelled as they
are.

Result: what the grouper asks of the entry it folds into does not change while it folds (`isContinuation_append`), so a
run of folds is decided by the first line of the entry.
-/
import Mathlib.Data.List.TakeWhile
import LogDeck.LogStore.Schema

namespace LogDeck.Models

open LogDeck.LogStore (Stream LineRow)

inductive LogLevel where
  | trace
  | debug
  | info
  | warn
  | error
  | fatal
  | panic
  | unknown
deriving DecidableEq, Repr

/-- a parsed log line, with the lines folded into it -/
structure LogEntry where
  timestamp : ℤ
  level : LogLevel
  message : String
  stream : Stream
  raw : List UInt8
  fields : List (String × String) := []
  continuationCount : ℕ := 0
  containerID : String := ""
  containerName : String := ""
  /-- ghost: the stored rows of the entry, in the order they were folded. No operation reads it. -/
  rows : List LineRow := []
deriving DecidableEq, Repr

/-- the level of a name, as `LogLevel(name)` compares; an unrecognized name ranks with UNKNOWN -/
def LogLevel.ofName (name : String) : LogLevel :=
  match name with
  | "TRACE" => .trace
  | "DEBUG" => .debug
  | "INFO" => .info
  | "WARN" => .warn
  | "ERROR" => .error
  | "FATAL" => .fatal
  | "PANIC" => .panic
  | _ => .unknown

def LevelSeverity : LogLevel → ℕ
  | .trace => 1
  | .debug => 2
  | .info => 3
  | .warn => 4
  | .error => 5
  | .fatal => 6
  | .panic => 7
  | .unknown => 0

/-- `unicode.IsSpace` -/
def isSpace (c : Char) : Bool :=
  c ∈ ['\t', '\n', '\x0b', '\x0c', '\r', ' ', '\u0085', '\u00a0', '\u1680', '\u2028', '\u2029', '\u202f', '\u205f',
    '\u3000'] || ('\u2000' ≤ c && c ≤ '\u200a')

/-- `strings.TrimSpace` -/
def trimSpace (s : String) : String :=
  String.ofList (((s.toList.dropWhile isSpace).reverse.dropWhile isSpace).reverse)

def isProblemLevel : LogLevel → Bool
  | .warn | .error | .fatal | .panic => true
  | _ => false

def stackPrefixes : List String := ["at ", "File ", "Traceback ", "Caused by:", "... ", "goroutine "]

def isStackTraceContinuation (message : String) : Bool :=
  stackPrefixes.any (fun p => p.toList.isPrefixOf message.toList) ||
    ("/".toList.isPrefixOf message.toList && message.toList.contains ':')

/-- the class `\s` of a pattern -/
def isBlankChar (c : Char) : Bool := c ∈ ['\t', '\n', '\x0c', '\r', ' ']

def isKeyStart (c : Char) : Bool := c.isAlpha || c == '_'
def isKeyChar (c : Char) : Bool := c.isAlphanum || c ∈ ['_', '.', '-']

/-- the key and the value that `^([A-Za-z_][A-Za-z0-9_.-]*)\s*[:=]\s*(.+)$` captures; the separator is no key character
and the text is trimmed, so the greedy reading is the only one -/
def structuredField (message : String) : Option (String × String) :=
  match message.toList with
  | [] => none
  | c :: cs =>
    if isKeyStart c then
      match (cs.dropWhile isKeyChar).dropWhile isBlankChar with
      | [] => none
      | sep :: rest =>
        let value := rest.dropWhile isBlankChar
        if (sep = ':' ∨ sep = '=') ∧ value ≠ [] ∧ '\n' ∉ value then
          some (String.ofList (c :: cs.takeWhile isKeyChar), String.ofList value)
        else none
    else none

def parseStructuredField (message : String) : Option (String × String) :=
  (structuredField (trimSpace message)).map fun kv => (kv.1, trimSpace kv.2)

/-- `entry.Fields[key] = value` -/
def setField (fields : List (String × String)) (key value : String) : List (String × String) :=
  (key, value) :: fields.filter fun kv => kv.1 ≠ key

def IsContinuationLogEntry (entry previous : LogEntry) : Bool :=
  if entry.level ≠ .unknown then false
  else
    let message := trimSpace entry.message
    if message = "" ∨ trimSpace previous.message = "" then false
    else if (structuredField message).isSome then true
    else isStackTraceContinuation message && isProblemLevel previous.level

def appendContinuationLine (entry continuation : LogEntry) : LogEntry :=
  let message := trimSpace continuation.message
  { entry with
    message :=
      if message ≠ "" then (if entry.message = "" then message else entry.message ++ "\n" ++ message)
      else entry.message
    raw :=
      if continuation.raw ≠ [] then
        (if entry.raw = [] then continuation.raw else entry.raw ++ [10] ++ continuation.raw)
      else entry.raw
    fields :=
      match parseStructuredField message with
      | some (key, value) => setField entry.fields key value
      | none => entry.fields
    continuationCount := entry.continuationCount + 1
    rows := entry.rows ++ continuation.rows }

/-- folds an entry into the last of the groups, or starts a new one -/
def groupNext (grouped : List LogEntry) (entry : LogEntry) : List LogEntry :=
  match grouped.getLast? with
  | none => [entry]
  | some last =>
    if IsContinuationLogEntry entry last then grouped.dropLast ++ [appendContinuationLine last entry]
    else grouped ++ [entry]

def GroupRelatedLogEntries (entries : List LogEntry) : List LogEntry := entries.foldl groupNext []

/-! ## Folding does not change what the grouper asks -/

theorem trimSpace_eq_empty {s : String} : trimSpace s = "" ↔ ∀ c ∈ s.toList, isSpace c = true := by
  have hdrop : ∀ l : List Char, l.dropWhile isSpace = [] ↔ ∀ c ∈ l, isSpace c = true := by
    intro l
    exact List.dropWhile_eq_nil_iff
  rw [trimSpace]
  have : ∀ l : List Char, String.ofList l = "" ↔ l = [] := by
    intro l
    constructor
    · intro e
      simpa using congrArg String.toList e
    · rintro rfl
      rfl
  rw [this, List.reverse_eq_nil_iff, hdrop]
  constructor
  · intro h c hc
    by_contra hne
    have hmem : c ∈ s.toList.dropWhile isSpace := by
      rw [← List.takeWhile_append_dropWhile (p := isSpace) (l := s.toList), List.mem_append] at hc
      rcases hc with hc | hc
      · exact absurd (List.mem_takeWhile_imp hc) hne
      · exact hc
    exact hne (h c (List.mem_reverse.2 hmem))
  · intro h c hc
    exact h c ((List.dropWhile_sublist isSpace).subset (List.mem_reverse.1 hc))

/-- folding a line into an entry keeps its level and whether its message is blank -/
theorem append_level (entry c : LogEntry) : (appendContinuationLine entry c).level = entry.level := rfl

theorem append_containerID (entry c : LogEntry) : (appendContinuationLine entry c).containerID = entry.containerID := rfl

theorem append_blank {entry c : LogEntry} (h : trimSpace entry.message ≠ "") :
    trimSpace (appendContinuationLine entry c).message ≠ "" := by
  intro hb
  apply h
  rw [trimSpace_eq_empty] at hb ⊢
  intro ch hch
  apply hb
  have hne : entry.message ≠ "" := by
    rintro e
    rw [e] at hch
    simp at hch
  simp only [appendContinuationLine, hne, if_false]
  split_ifs
  · simp only [String.toList_append, List.mem_append]
    exact Or.inl (Or.inl hch)
  · exact hch

/-- **The head decides**: once a line has been folded into an entry, the entry takes further lines as it did before. -/
theorem isContinuation_append {entry c e : LogEntry} (hc : IsContinuationLogEntry c entry = true) :
    IsContinuationLogEntry e (appendContinuationLine entry c) = IsContinuationLogEntry e entry := by
  have hne : trimSpace entry.message ≠ "" := by
    intro hb
    simp [IsContinuationLogEntry, hb] at hc
  simp only [IsContinuationLogEntry, append_level, append_blank hne, hne, or_false]

/-- a line folded into a folded line can be folded into the entry itself -/
theorem isContinuation_trans {a b c : LogEntry} (hab : IsContinuationLogEntry b a = true)
    (hbc : IsContinuationLogEntry c b = true) : IsContinuationLogEntry c a = true := by
  unfold IsContinuationLogEntry at hab hbc ⊢
  by_cases hb : b.level = .unknown
  · by_cases hc : c.level = .unknown
    · by_cases ha : trimSpace a.message = ""
      · simp [ha] at hab
      · by_cases hm : trimSpace c.message = "" ∨ trimSpace b.message = ""
        · simp [hc, hm] at hbc
        · have hm' : ¬ (trimSpace c.message = "" ∨ trimSpace a.message = "") :=
            fun h => hm (h.imp_right fun h => absurd h ha)
          simp only [hc, ne_eq, not_true, if_false, if_neg hm, if_neg hm', hb, isProblemLevel, Bool.and_false] at hbc ⊢
          split_ifs at hbc ⊢
          rfl
    · simp [hc] at hbc
  · simp [hb] at hab

end LogDeck.Models
