/-
The grouper of the frontend (`get-container-logs-parsed.ts`: `groupRelatedLogEntries`), beside the one of the server.

The two are written alike. What is white space, and what the dot of a pattern leaves out, is not the same in both
languages; the frontend trims the raw text of a line it folds, and a field called `__proto__` does not become a property
of the fields.

An entry reaches the frontend as JSON (`toClient`): the raw bytes as text, and nothing for what is empty and may be left
out.

Results:
- `groupRelatedLogEntries_eq`: the rows are the groups of the entries under the frontend's rule;
- `groupers_agree_iff`: on lines, the groupers give the same entries exactly when they `Agree`: about each line and the
  first line of the entry before it, about the texts of each folded line, and about the fields of each entry;
- `agree_of_plain`: as they do on lines of plain characters;
- `regroup_client_iff`: when either grouper leaves the entries of the server as they are.
-/
import Mathlib.Data.Finmap
import LogDeck.Lib.Utf8
import LogDeck.Models.Grouper

namespace LogDeck.Frontend

open HeadGroup LineText
open LogDeck.Models (GroupRelatedLogEntries IsContinuationLogEntry appendContinuationLine parseStructuredField setField
  trimSpace Folds PerLine fieldPattern folded textOfLines Reopens)

inductive LogLevel where
  | trace
  | debug
  | info
  | warn
  | warning
  | error
  | fatal
  | panic
  | unknown
deriving DecidableEq, Repr

/-- own properties, `Record<string, string>` -/
abbrev Fields := Finmap fun _ : String => String

/-- none is undefined -/
structure LogEntry where
  timestamp : Option ℤ
  level : LogLevel
  message : Option String
  stream : Option LogStore.Stream
  raw : Option String
  fields : Option Fields
  continuationCount : Option ℕ
  containerId : Option String
  containerName : Option String
deriving DecidableEq

/-- white space and line terminators, for `trim` and for `\s` -/
def isWhiteSpace (c : Char) : Bool :=
  c ∈ ['\t', '\n', '\x0b', '\x0c', '\r', ' ', '\u00a0', '\u1680', '\u2028', '\u2029', '\u202f', '\u205f', '\u3000',
    '\ufeff'] || ('\u2000' ≤ c && c ≤ '\u200a')

/-- `String.prototype.trim` -/
def trim (s : String) : String := String.ofList (LineText.trim isWhiteSpace s.toList)

/-- `STRUCTURED_FIELD_REGEX`; the dot stops at a line terminator -/
def STRUCTURED_FIELD_REGEX : Pattern where
  start := LogDeck.Models.isKeyStart
  key := LogDeck.Models.isKeyChar
  blank := isWhiteSpace
  sep c := c = ':' || c = '='
  stop c := c ∈ ['\n', '\r', '\u2028', '\u2029']

def STACK_TRACE_PREFIXES : List String := ["at ", "File ", "Traceback ", "Caused by:", "... ", "goroutine "]

def isProblemLevel : LogLevel → Bool
  | .warn | .warning | .error | .fatal | .panic => true
  | _ => false

def isStackTraceContinuation (message : String) : Bool :=
  STACK_TRACE_PREFIXES.any (fun p => p.toList.isPrefixOf message.toList) ||
    ("/".toList.isPrefixOf message.toList && message.toList.contains ':')

/-- `(entry.message ?? entry.raw ?? "").trim()` -/
def textOf (entry : LogEntry) : String := trim ((entry.message <|> entry.raw).getD "")

def isContinuationLogEntry (entry previous : LogEntry) : Bool :=
  if entry.level ≠ .unknown then false
  else if entry.containerName ≠ previous.containerName then false
  else
    let message := textOf entry
    if message = "" ∨ textOf previous = "" then false
    else if (STRUCTURED_FIELD_REGEX.read message.toList).isSome then true
    else isProblemLevel previous.level && isStackTraceContinuation message

/-- `fields[key] = value`; the property `__proto__` takes no string where it is not an own one -/
def setProperty (fields : Fields) (key value : String) : Fields :=
  if key = "__proto__" ∧ fields.lookup key = none then fields else fields.insert key value

/-- `[a, b].filter(Boolean).join("\n")` -/
def joinLines (a b : Option String) : String :=
  "\n".intercalate (([a, b].filterMap id).filter fun s => s ≠ "")

/-- the fields with those of a message set -/
def setFields (fields : Fields) (message : String) : Fields :=
  match STRUCTURED_FIELD_REGEX.read message.toList with
  | some (key, value) => setProperty fields (String.ofList key) (trim (String.ofList value))
  | none => fields

def appendContinuationLogEntry (entry continuation : LogEntry) : LogEntry :=
  let message := textOf continuation
  let raw := continuation.raw.map trim
  let fields := setFields (entry.fields.getD ∅) message
  { entry with
    message := some (joinLines entry.message (some message))
    raw := some (joinLines entry.raw raw)
    fields := if fields = ∅ then entry.fields else some fields
    continuationCount := some (entry.continuationCount.getD 0 + 1) }

/-- one entry of the loop -/
def pushEntry (grouped : List LogEntry) (entry : LogEntry) : List LogEntry :=
  match grouped.getLast? with
  | none => [entry]
  | some previous =>
    if isContinuationLogEntry entry previous then grouped.dropLast ++ [appendContinuationLogEntry previous entry]
    else grouped ++ [entry]

def groupRelatedLogEntries (entries : List LogEntry) : List LogEntry := entries.foldl pushEntry []

/-! ## Entries of the server -/

def levelName : Models.LogLevel → LogLevel
  | .trace => .trace
  | .debug => .debug
  | .info => .info
  | .warn => .warn
  | .error => .error
  | .fatal => .fatal
  | .panic => .panic
  | .unknown => .unknown

def toFields (fields : List (String × String)) : Fields := (fields.map fun kv => (⟨kv.1, kv.2⟩ : Σ _ : String, String)).toFinmap

/-- a value that is left out when it is empty -/
def omitEmpty (s : String) : Option String := if s = "" then none else some s

/-- an entry as the frontend reads it from the JSON of the server -/
def toClient (e : Models.LogEntry) : LogEntry :=
  { timestamp := some e.timestamp
    level := levelName e.level
    message := some e.message
    stream := some e.stream
    raw := some (Utf8.decode e.raw)
    fields := if e.fields = [] then none else some (toFields e.fields)
    continuationCount := if e.continuationCount = 0 then none else some e.continuationCount
    containerId := omitEmpty e.containerID
    containerName := omitEmpty e.containerName }

/-! ## The rows are groups -/

/-- the second entry is a continuation of the first -/
def ContinuesEntry (h e : LogEntry) : Prop := isContinuationLogEntry e h = true

instance : DecidableRel ContinuesEntry := fun h e => inferInstanceAs (Decidable (isContinuationLogEntry e h = true))

/-- a text and a further line of it -/
def joinText (a b : String) : String := if a = "" then b else if b = "" then a else a ++ "\n" ++ b

section
variable {a c : LogEntry}

theorem joinText_empty (a : String) : joinText a "" = a := by
  by_cases ha : a = ""
  · rw [joinText, if_pos ha, ha]
  · rw [joinText, if_neg ha, if_pos rfl]

theorem trim_toList (s : String) : (trim s).toList = LineText.trim isWhiteSpace s.toList := String.toList_ofList

theorem trim_eq_empty {s : String} : trim s = "" ↔ ∀ c ∈ s.toList, isWhiteSpace c = true := by
  rw [← String.toList_eq_nil_iff, trim_toList, trim_eq_nil_iff]

/-- lines are joined with a newline, and empty ones left out -/
theorem joinLines_eq (a : Option String) (b : String) : joinLines a (some b) = joinText (a.getD "") b := by
  have hpair : ∀ a b : String, "\n".intercalate [a, b] = a ++ "\n" ++ b := fun a b => by
    apply String.toList_injective
    rw [String.toList_intercalate]
    simp [List.intercalate, String.toList_append]
  have hone : ∀ a : String, "\n".intercalate [a] = a := fun a => rfl
  unfold joinLines joinText
  cases a with
  | none =>
    by_cases hb : b = ""
    · simp [hb]
    · simp [hb, hone]
  | some a =>
    by_cases ha : a = ""
    · by_cases hb : b = ""
      · simp [ha, hb]
      · simp [ha, hb, hone]
    · by_cases hb : b = ""
      · simp [ha, hb, hone]
      · simp [ha, hb, hpair]

/-- what a continuation needs -/
theorem continuesEntry_iff : ContinuesEntry a c ↔ c.level = .unknown ∧ c.containerName = a.containerName ∧
    textOf c ≠ "" ∧ textOf a ≠ "" ∧ ((STRUCTURED_FIELD_REGEX.read (textOf c).toList).isSome = true ∨
      isProblemLevel a.level = true ∧ isStackTraceContinuation (textOf c) = true) := by
  unfold ContinuesEntry isContinuationLogEntry
  by_cases hlevel : c.level = .unknown
  swap
  · rw [if_pos hlevel]
    exact ⟨nofun, fun h => absurd h.1 hlevel⟩
  rw [if_neg (not_not.mpr hlevel)]
  by_cases hname : c.containerName = a.containerName
  swap
  · rw [if_pos hname]
    exact ⟨nofun, fun h => absurd h.2.1 hname⟩
  rw [if_neg (not_not.mpr hname)]
  dsimp only
  by_cases hblank : textOf c = "" ∨ textOf a = ""
  · rw [if_pos hblank]
    exact ⟨nofun, fun ⟨_, _, hc, ha, _⟩ => absurd hblank (not_or.mpr ⟨hc, ha⟩)⟩
  · obtain ⟨hc, ha⟩ := not_or.mp hblank
    rw [if_neg hblank]
    simp only [hlevel, hname, ne_eq, hc, ha, not_false_eq_true, true_and]
    split_ifs with hfield
    · simp [hfield]
    · simp [hfield, Bool.and_eq_true]

/-- a text goes on after a newline: it is as little blank as before -/
theorem textOf_append (ha : textOf a ≠ "") (hc : textOf c ≠ "") : textOf (appendContinuationLogEntry a c) ≠ "" := by
  have hnot : ∀ {s t : String}, trim s ≠ "" → (∀ ch ∈ s.toList, ch ∈ t.toList) → trim t ≠ "" := by
    intro s t hs hsub ht
    rw [trim_eq_empty] at ht
    exact hs (trim_eq_empty.mpr fun ch hch => ht ch (hsub ch hch))
  have htext : textOf (appendContinuationLogEntry a c) = trim (joinLines a.message (some (textOf c))) := rfl
  rw [htext, joinLines_eq, joinText, if_neg hc]
  by_cases hmsg : a.message.getD "" = ""
  · rw [if_pos hmsg]
    have htrimmed : trim (textOf c) = textOf c := by
      have hidem := trim_eq_self (@trimmed_trim isWhiteSpace ((c.message <|> c.raw).getD "").toList)
      rw [← String.toList_inj, trim_toList, textOf, trim_toList, hidem]
    rwa [htrimmed]
  · rw [if_neg hmsg]
    have hfrom : textOf a = trim (a.message.getD "") := by
      unfold textOf
      cases hm : a.message with
      | none =>
        rw [hm] at hmsg
        exact absurd rfl hmsg
      | some m => rfl
    rw [hfrom] at ha
    refine hnot ha fun ch hch => ?_
    simp only [String.toList_append, List.mem_append]
    exact .inl (.inl hch)

theorem continuesEntry_absorb (a c : LogEntry) (h : ContinuesEntry a c) (e : LogEntry) :
    ContinuesEntry (appendContinuationLogEntry a c) e ↔ ContinuesEntry a e := by
  obtain ⟨-, -, hc, ha, -⟩ := continuesEntry_iff.mp h
  have hnew := textOf_append ha hc
  have hlevel : (appendContinuationLogEntry a c).level = a.level := rfl
  have hname : (appendContinuationLogEntry a c).containerName = a.containerName := rfl
  rw [continuesEntry_iff, continuesEntry_iff, hlevel, hname]
  simp only [ne_eq, hnew, ha, not_false_eq_true, true_and]

theorem pushEntry_eq : pushEntry = foldNext ContinuesEntry appendContinuationLogEntry := by
  funext grouped entry
  unfold pushEntry foldNext
  cases grouped.getLast? <;> rfl

/-- **The rows are the groups.** -/
theorem groupRelatedLogEntries_eq (entries : List LogEntry) : groupRelatedLogEntries entries =
    (group ContinuesEntry entries).filterMap (merge appendContinuationLogEntry) := by
  rw [groupRelatedLogEntries, pushEntry_eq]
  exact foldl_foldNext continuesEntry_absorb entries

end

/-! ## What an entry is made of -/

/-- an entry with the texts, the fields and the count of its lines -/
def record (base : LogEntry) (message raw : String) (fields : Fields) (count : ℕ) : LogEntry :=
  { base with
    message := some message
    raw := some raw
    fields := if fields = ∅ then none else some fields
    continuationCount := if count = 0 then none else some count }

/-- a field that a line sets -/
def insertField (fields : Fields) : Option (String × String) → Fields
  | some (key, value) => fields.insert key value
  | none => fields

/-- the value that the last line with a key gives it -/
def lastValue (key : String) : List (Option (String × String)) → Option String
  | [] => none
  | f :: fs => (lastValue key fs).or ((f.filter fun kv => kv.1 = key).map Prod.snd)

/-- the field of a line, as the server reads it -/
def serverField (e : Models.LogEntry) : Option (String × String) := parseStructuredField (trimSpace e.message)

/-- the field of a line, as the frontend reads it -/
def clientField (e : Models.LogEntry) : Option (String × String) :=
  ((STRUCTURED_FIELD_REGEX.read (trim e.message).toList).map fun kv =>
    (String.ofList kv.1, trim (String.ofList kv.2))).filter fun kv => kv.1 ≠ "__proto__"

section
variable {base : LogEntry} {h e : Models.LogEntry} {es : List Models.LogEntry}

theorem record_inj {m m' r r' : String} {f f' : Fields} {n n' : ℕ} :
    record base m r f n = record base m' r' f' n' ↔ m = m' ∧ r = r' ∧ f = f' ∧ n = n' := by
  refine ⟨fun heq => ?_, fun ⟨hm, hr, hf, hn⟩ => by rw [hm, hr, hf, hn]⟩
  have hm : some m = some m' := congrArg LogEntry.message heq
  have hr : some r = some r' := congrArg LogEntry.raw heq
  have hf : (if f = ∅ then none else some f) = if f' = ∅ then none else some f' := congrArg LogEntry.fields heq
  have hn : (if n = 0 then none else some n) = if n' = 0 then none else some n' :=
    congrArg LogEntry.continuationCount heq
  refine ⟨Option.some.inj hm, Option.some.inj hr, ?_, ?_⟩
  · split_ifs at hf with h1 h2 h2
    · rw [h1, h2]
    · exact Option.some.inj hf
  · split_ifs at hn with h1 h2 h2
    · rw [h1, h2]
    · exact Option.some.inj hn

theorem record_count (m r : String) (f : Fields) (n : ℕ) : (record base m r f n).continuationCount.getD 0 = n := by
  unfold record
  dsimp only
  split_ifs with hn
  · exact hn.symm
  · rfl

theorem lookup_insertField (fields : Fields) (f : Option (String × String)) (key : String) :
    (insertField fields f).lookup key = ((f.filter fun kv => kv.1 = key).map Prod.snd).or (fields.lookup key) := by
  cases f with
  | none => rfl
  | some kv =>
    unfold insertField
    by_cases hkey : kv.1 = key
    · subst hkey
      simp [Finmap.lookup_insert, Option.filter]
    · have hother : (fields.insert kv.1 kv.2).lookup key = fields.lookup key :=
        Finmap.lookup_insert_of_ne fields (Ne.symm hkey)
      simp [hother, hkey, Option.filter]

/-- of the lines that set a key, the last one tells its value -/
theorem lookup_foldl_insertField (fs : List (Option (String × String))) (fields : Fields) (key : String) :
    (fs.foldl insertField fields).lookup key = (lastValue key fs).or (fields.lookup key) := by
  induction fs generalizing fields with
  | nil => rfl
  | cons f fs ih =>
    calc ((f :: fs).foldl insertField fields).lookup key
      _ = (lastValue key fs).or ((insertField fields f).lookup key) := ih (insertField fields f)
      _ = (lastValue key (f :: fs)).or (fields.lookup key) := by rw [lookup_insertField, lastValue, Option.or_assoc]

theorem foldl_insertField_eq_iff {fs fs' : List (Option (String × String))} :
    fs.foldl insertField ∅ = fs'.foldl insertField ∅ ↔ ∀ key, lastValue key fs = lastValue key fs' := by
  constructor
  · intro heq key
    have hlookup := congrArg (Finmap.lookup key) heq
    simpa only [lookup_foldl_insertField, Finmap.lookup_empty, Option.or_none] using hlookup
  · intro hall
    refine Finmap.ext_lookup fun key => ?_
    rw [lookup_foldl_insertField, lookup_foldl_insertField, hall key]

/-! ### The server's entries -/

theorem toFields_eq_empty {fields : List (String × String)} : toFields fields = ∅ ↔ fields = [] := by
  cases fields with
  | nil => exact ⟨fun _ => rfl, fun _ => rfl⟩
  | cons kv fields =>
    refine ⟨fun heq => ?_, nofun⟩
    have hlookup := congrArg (Finmap.lookup kv.1) heq
    simp [toFields] at hlookup

theorem toFields_cons (kv : String × String) (fields : List (String × String)) :
    toFields (kv :: fields) = (toFields fields).insert kv.1 kv.2 :=
  @Finmap.toFinmap_cons String (fun _ => String) _ kv.1 kv.2 _

theorem toFields_setField (fields : List (String × String)) (key value : String) :
    toFields (setField fields key value) = (toFields fields).insert key value := by
  refine Finmap.ext_lookup fun x => ?_
  rw [setField, toFields_cons]
  by_cases hx : x = key
  · rw [hx, Finmap.lookup_insert, Finmap.lookup_insert]
  rw [Finmap.lookup_insert_of_ne _ hx, Finmap.lookup_insert_of_ne _ hx]
  induction fields with
  | nil => rfl
  | cons kv fields ih =>
    by_cases hkey : kv.1 = key
    · rw [List.filter_cons_of_neg (by simp [hkey]), ih, toFields_cons,
        Finmap.lookup_insert_of_ne _ fun heq => hx (heq.trans hkey)]
    · rw [List.filter_cons_of_pos (by simp [hkey]), toFields_cons, toFields_cons]
      by_cases hsame : x = kv.1
      · rw [hsame, Finmap.lookup_insert, Finmap.lookup_insert]
      · rw [Finmap.lookup_insert_of_ne _ hsame, Finmap.lookup_insert_of_ne _ hsame, ih]

theorem append_message (h e : Models.LogEntry) :
    (appendContinuationLine h e).message = joinText h.message (trimSpace e.message) := by
  by_cases hempty : trimSpace e.message = ""
  · simp only [appendContinuationLine, hempty, ne_eq, not_true_eq_false, if_false, joinText_empty]
  · simp only [appendContinuationLine, hempty, ne_eq, not_false_eq_true, if_true, if_false, joinText]

theorem append_raw (h e : Models.LogEntry) :
    Utf8.decode (appendContinuationLine h e).raw = joinText (Utf8.decode h.raw) (Utf8.decode e.raw) := by
  by_cases hempty : e.raw = []
  · simp only [appendContinuationLine, hempty, ne_eq, not_true_eq_false, if_false]
    exact (joinText_empty _).symm
  · have hne : Utf8.decode e.raw ≠ "" := mt Utf8.decode_eq_empty.mp hempty
    simp only [appendContinuationLine, hempty, ne_eq, not_false_eq_true, if_true, joinText, hne, if_false,
      Utf8.decode_eq_empty]
    split_ifs
    · rfl
    · exact Utf8.decode_line h.raw e.raw

theorem append_fields (h e : Models.LogEntry) :
    toFields (appendContinuationLine h e).fields = insertField (toFields h.fields) (serverField e) := by
  simp only [appendContinuationLine, serverField]
  cases parseStructuredField (trimSpace e.message) with
  | none => rfl
  | some kv => exact toFields_setField h.fields kv.1 kv.2

theorem record_append (h e : Models.LogEntry) (m r : String) (fields : Fields) (n : ℕ) :
    record (toClient (appendContinuationLine h e)) m r fields n = record (toClient h) m r fields n := by
  simp only [record, toClient, appendContinuationLine]

theorem toClient_eq (h : Models.LogEntry) : toClient h =
    record (toClient h) h.message (Utf8.decode h.raw) (toFields h.fields) h.continuationCount := by
  have hfields : (if h.fields = [] then none else some (toFields h.fields)) =
      if toFields h.fields = ∅ then none else some (toFields h.fields) := if_congr toFields_eq_empty.symm rfl rfl
  unfold record toClient
  rw [hfields]

/-- an entry of the server, from its lines -/
theorem toClient_foldl (h : Models.LogEntry) (es : List Models.LogEntry) :
    toClient (es.foldl appendContinuationLine h) =
      record (toClient h) ((es.map fun e => trimSpace e.message).foldl joinText h.message)
        ((es.map fun e => Utf8.decode e.raw).foldl joinText (Utf8.decode h.raw))
        ((es.map serverField).foldl insertField (toFields h.fields)) (h.continuationCount + es.length) := by
  induction es generalizing h with
  | nil => exact toClient_eq h
  | cons e es ih =>
    have hcount : (appendContinuationLine h e).continuationCount + es.length =
      h.continuationCount + (es.length + 1) := Nat.add_right_comm h.continuationCount 1 es.length
    rw [List.foldl_cons, ih, append_message, append_raw, append_fields, hcount, record_append]
    simp only [List.map_cons, List.foldl_cons, List.length_cons]

/-! ### The frontend's entries -/

/-- a line folded in by the frontend -/
theorem append_record (base : LogEntry) (m r : String) (fields : Fields) (n : ℕ)
    (hproto : fields.lookup "__proto__" = none) (e : Models.LogEntry) :
    appendContinuationLogEntry (record base m r fields n) (toClient e) =
      record base (joinText m (trim e.message)) (joinText r (trim (Utf8.decode e.raw)))
        (insertField fields (clientField e)) (n + 1) := by
  have hset : setFields fields (trim e.message) = insertField fields (clientField e) := by
    unfold setFields clientField
    cases STRUCTURED_FIELD_REGEX.read (trim e.message).toList with
    | none => rfl
    | some kv =>
      by_cases hkey : String.ofList kv.1 = "__proto__"
      · have hignored : setProperty fields "__proto__" (trim (String.ofList kv.2)) = fields := if_pos ⟨rfl, hproto⟩
        simp [hignored, insertField, hkey, Option.filter]
      · simp [setProperty, insertField, hkey, Option.filter]
  have hgetD : (record base m r fields n).fields.getD ∅ = fields := by
    unfold record
    dsimp only
    split_ifs with hempty
    · exact hempty.symm
    · rfl
  have hempty : ∀ f : Option (String × String), insertField fields f = ∅ → fields = ∅ := by
    intro f hf
    cases f with
    | none => exact hf
    | some kv =>
      have hlookup := congrArg (Finmap.lookup kv.1) hf
      simp [insertField, Finmap.lookup_insert] at hlookup
  have hrow : (if insertField fields (clientField e) = ∅ then (record base m r fields n).fields
      else some (insertField fields (clientField e))) =
      if insertField fields (clientField e) = ∅ then none else some (insertField fields (clientField e)) := by
    by_cases hf : insertField fields (clientField e) = ∅
    · rw [if_pos hf, if_pos hf]
      exact if_pos (hempty _ hf)
    · rw [if_neg hf, if_neg hf]
  have htext : textOf (toClient e) = trim e.message := rfl
  have hraw : (toClient e).raw.map trim = some (trim (Utf8.decode e.raw)) := rfl
  have hmessages : joinLines (record base m r fields n).message (some (trim e.message)) = joinText m (trim e.message) :=
    joinLines_eq _ _
  have hraws : joinLines (record base m r fields n).raw (some (trim (Utf8.decode e.raw))) =
      joinText r (trim (Utf8.decode e.raw)) := joinLines_eq _ _
  unfold appendContinuationLogEntry
  dsimp only
  rw [htext, hraw, hgetD, hset, hrow, record_count, hmessages, hraws]
  rfl

/-- an entry of the frontend, from its lines -/
theorem foldl_append_record (base : LogEntry) (m r : String) (fields : Fields) (n : ℕ)
    (hproto : fields.lookup "__proto__" = none) (es : List Models.LogEntry) :
    (es.map toClient).foldl appendContinuationLogEntry (record base m r fields n) =
      record base ((es.map fun e => trim e.message).foldl joinText m)
        ((es.map fun e => trim (Utf8.decode e.raw)).foldl joinText r)
        ((es.map clientField).foldl insertField fields) (n + es.length) := by
  induction es generalizing m r fields n with
  | nil => rfl
  | cons e es ih =>
    have hproto' : (insertField fields (clientField e)).lookup "__proto__" = none := by
      rw [lookup_insertField, hproto, Option.or_none]
      simp [clientField, Option.filter_filter]
    have hcount : n + 1 + es.length = n + (es.length + 1) := Nat.add_right_comm n 1 es.length
    simp only [List.map_cons, List.foldl_cons, List.length_cons]
    rw [append_record base m r fields n hproto e, ih _ _ _ _ hproto', hcount]

end

/-! ## The two groupers -/

/-- the server's rule, asked of the frontend -/
def ClientFolds (h e : Models.LogEntry) : Prop := ContinuesEntry (toClient h) (toClient e)

instance : DecidableRel fun h e => ContinuesEntry (toClient h) (toClient e) := fun _ _ => inferInstance

instance : DecidableRel ClientFolds := fun h e => inferInstanceAs (Decidable (ContinuesEntry (toClient h) (toClient e)))

/-- what the groupers have to agree about, for the lines of an entry below its first one -/
structure AgreeOn (es : List Models.LogEntry) : Prop where
  message : ∀ e ∈ es, trim e.message = e.message
  raw : ∀ e ∈ es, trim (Utf8.decode e.raw) = Utf8.decode e.raw
  fields : ∀ key, lastValue key (es.map serverField) = lastValue key (es.map clientField)

/-- the frontend folds the lines that the server folds, no first line of an entry, and agrees on those it folds -/
structure Agree (xs : List Models.LogEntry) : Prop where
  folded : ∀ g ∈ group Folds xs, ∀ h ∈ g.head?, ∀ e ∈ g.tail, ClientFolds h e
  apart : (group Folds xs).IsChain (Apart ClientFolds)
  lines : ∀ g ∈ group Folds xs, AgreeOn g.tail

section
variable {h : Models.LogEntry} {es xs : List Models.LogEntry}

theorem length_joinText (a b : String) : (joinText a b).length =
    if a.length = 0 then b.length else if b.length = 0 then a.length else a.length + 1 + b.length := by
  simp only [joinText, String.length_eq_zero_iff]
  split_ifs
  · rfl
  · rfl
  · rw [String.length_append, String.length_append]
    rfl

theorem length_trim_le (s : String) : (trim s).length ≤ s.length := by
  rw [← String.length_toList, ← String.length_toList, trim_toList]
  exact LineText.length_trim_le s.toList

theorem trim_eq_self_of_length {s : String} (h : (trim s).length = s.length) : trim s = s := by
  rw [← String.length_toList, ← String.length_toList, trim_toList] at h
  rw [← String.toList_inj, trim_toList]
  exact LineText.trim_eq_self_of_length h.ge

/-- what trimming takes away from a line is missing in the text -/
theorem length_foldl_joinText {ss : List String} {a a' : String} (h : a'.length ≤ a.length) :
    ((ss.map trim).foldl joinText a').length ≤ (ss.foldl joinText a).length ∧
      (((ss.map trim).foldl joinText a').length = (ss.foldl joinText a).length →
        a'.length = a.length ∧ ∀ s ∈ ss, trim s = s) := by
  induction ss generalizing a a' with
  | nil => exact ⟨h, fun heq => ⟨heq, nofun⟩⟩
  | cons s ss ih =>
    have hs := length_trim_le s
    have hstep : (joinText a' (trim s)).length ≤ (joinText a s).length := by
      rw [length_joinText, length_joinText]
      split_ifs <;> omega
    obtain ⟨hle, heq⟩ := ih hstep
    refine ⟨hle, fun hlen => ?_⟩
    obtain ⟨hboth, hrest⟩ := heq hlen
    have hparts : a'.length = a.length ∧ (trim s).length = s.length := by
      rw [length_joinText, length_joinText] at hboth
      split_ifs at hboth <;> omega
    refine ⟨hparts.1, fun t ht => ?_⟩
    rcases List.mem_cons.mp ht with rfl | ht
    · exact trim_eq_self_of_length hparts.2
    · exact hrest t ht

theorem foldl_joinText_eq_iff {ss : List String} {a : String} :
    (ss.map trim).foldl joinText a = ss.foldl joinText a ↔ ∀ s ∈ ss, trim s = s := by
  constructor
  · intro heq
    exact ((length_foldl_joinText le_rfl).2 (congrArg String.length heq)).2
  · intro hall
    rw [List.map_congr_left hall, List.map_id']

/-- the lines that the frontend folds into a line -/
theorem foldl_toClient (hh : PerLine h) (es : List Models.LogEntry) :
    (es.map toClient).foldl appendContinuationLogEntry (toClient h) =
      record (toClient h) ((es.map fun e => trim e.message).foldl joinText h.message)
        ((es.map fun e => trim (Utf8.decode e.raw)).foldl joinText (Utf8.decode h.raw))
        ((es.map clientField).foldl insertField (toFields [])) (h.continuationCount + es.length) := by
  have hstart := toClient_eq h
  rw [hh.fields] at hstart
  have hempty : (toFields []).lookup "__proto__" = none := Finmap.lookup_empty _
  calc (es.map toClient).foldl appendContinuationLogEntry (toClient h)
    _ = (es.map toClient).foldl appendContinuationLogEntry
          (record (toClient h) h.message (Utf8.decode h.raw) (toFields []) h.continuationCount) := by rw [← hstart]
    _ = _ := foldl_append_record (toClient h) h.message (Utf8.decode h.raw) (toFields []) h.continuationCount hempty es

/-- an entry is the same in both when they agree on its lines -/
theorem folded_eq_iff (hh : PerLine h) (hes : ∀ e ∈ es, PerLine e) :
    (es.map toClient).foldl appendContinuationLogEntry (toClient h) = toClient (es.foldl appendContinuationLine h) ↔
      AgreeOn es := by
  have hserver : (es.map fun e => trimSpace e.message) = es.map Models.LogEntry.message :=
    List.map_congr_left fun e he => (hes e he).trimmed
  have hmessages : (es.map fun e => trim e.message) = (es.map Models.LogEntry.message).map trim := by
    rw [List.map_map]
    rfl
  have hraws : (es.map fun e => trim (Utf8.decode e.raw)) = (es.map fun e => Utf8.decode e.raw).map trim := by
    rw [List.map_map]
    rfl
  rw [foldl_toClient hh es, toClient_foldl, hh.fields, hserver, record_inj, hmessages, hraws, foldl_joinText_eq_iff,
    foldl_joinText_eq_iff]
  constructor
  · intro hsame
    obtain ⟨hm, hr, hf, -⟩ := hsame
    refine ⟨?_, ?_, fun key => (foldl_insertField_eq_iff.mp hf key).symm⟩
    · exact fun e he => hm e.message (List.mem_map_of_mem he)
    · exact fun e he => hr (Utf8.decode e.raw) (List.mem_map_of_mem he)
  · intro hagree
    refine ⟨?_, ?_, foldl_insertField_eq_iff.mpr fun key => (hagree.fields key).symm, rfl⟩
    · exact List.forall_mem_map.mpr hagree.message
    · exact List.forall_mem_map.mpr hagree.raw

/-- the groups of the frontend, as groups of lines -/
theorem groupRelatedLogEntries_toClient (xs : List Models.LogEntry) :
    groupRelatedLogEntries (xs.map toClient) =
      (group ClientFolds xs).filterMap fun g => merge appendContinuationLogEntry (g.map toClient) := by
  rw [groupRelatedLogEntries_eq, group_map toClient xs, List.filterMap_map]
  rfl

/-- the entries of the server, as the frontend reads them -/
theorem GroupRelatedLogEntries_toClient (xs : List Models.LogEntry) :
    (GroupRelatedLogEntries xs).map toClient =
      (group Folds xs).filterMap fun g => (merge appendContinuationLine g).map toClient := by
  rw [Models.GroupRelatedLogEntries_eq, List.map_filterMap]

/-- an entry counts its lines below the first one -/
theorem count_server {g : List Models.LogEntry} (hne : g ≠ []) (hg : ∀ e ∈ g, PerLine e) :
    ((merge appendContinuationLine g).map toClient).map (fun r => r.continuationCount.getD 0 + 1) = some g.length := by
  obtain ⟨h, es, rfl⟩ := List.exists_cons_of_ne_nil hne
  have hh := hg h List.mem_cons_self
  have hmerge : merge appendContinuationLine (h :: es) = some (es.foldl appendContinuationLine h) := rfl
  rw [hmerge, Option.map_some, Option.map_some, toClient_foldl, record_count, hh.continuationCount, Nat.zero_add]
  rfl

theorem merge_toClient (h : Models.LogEntry) (es : List Models.LogEntry) :
    merge appendContinuationLogEntry ((h :: es).map toClient) =
      some ((es.map toClient).foldl appendContinuationLogEntry (toClient h)) := rfl

theorem count_client {g : List Models.LogEntry} (hne : g ≠ []) (hg : ∀ e ∈ g, PerLine e) :
    (merge appendContinuationLogEntry (g.map toClient)).map (fun r => r.continuationCount.getD 0 + 1) =
      some g.length := by
  obtain ⟨h, es, rfl⟩ := List.exists_cons_of_ne_nil hne
  have hh := hg h List.mem_cons_self
  rw [merge_toClient, Option.map_some, foldl_toClient hh es, record_count, hh.continuationCount, Nat.zero_add]
  rfl

/-- **The groupers agree** on lines exactly when they do on each line that is folded in and each that is not. -/
theorem groupers_agree_iff (hxs : ∀ x ∈ xs, PerLine x) :
    groupRelatedLogEntries (xs.map toClient) = (GroupRelatedLogEntries xs).map toClient ↔ Agree xs := by
  have hserver : IsGrouping Folds (group Folds xs) := group_isGrouping xs
  have hlines : ∀ g ∈ group Folds xs, ∀ e ∈ g, PerLine e := fun g hg e he => hxs e (mem_of_mem_group hg he)
  -- with the same groups, the entries are compared one by one
  have hsame : group ClientFolds xs = group Folds xs →
      (groupRelatedLogEntries (xs.map toClient) = (GroupRelatedLogEntries xs).map toClient ↔
        ∀ g ∈ group Folds xs, AgreeOn g.tail) := by
    intro hgroup
    rw [groupRelatedLogEntries_toClient, GroupRelatedLogEntries_toClient, hgroup, filterMap_eq_iff]
    · refine forall₂_congr fun g hg => ?_
      obtain ⟨h, es, rfl⟩ := List.exists_cons_of_ne_nil (hserver.ne_nil g hg)
      have hes : ∀ e ∈ es, PerLine e := fun e he => hlines _ hg e (List.mem_cons_of_mem h he)
      rw [merge_toClient]
      exact Option.some_inj.trans (folded_eq_iff (hlines _ hg h List.mem_cons_self) hes)
    · intro g hg
      obtain ⟨h, es, rfl⟩ := List.exists_cons_of_ne_nil (hserver.ne_nil g hg)
      rfl
    · intro g hg
      obtain ⟨h, es, rfl⟩ := List.exists_cons_of_ne_nil (hserver.ne_nil g hg)
      rfl
  constructor
  · intro heq
    have hgroup : group ClientFolds xs = group Folds xs := by
      have hclient : IsGrouping ClientFolds (group ClientFolds xs) := group_isGrouping xs
      have hclientLines : ∀ g ∈ group ClientFolds xs, ∀ e ∈ g, PerLine e := fun g hg e he =>
        hxs e (mem_of_mem_group hg he)
      have hcounts := congrArg (List.map fun r => r.continuationCount.getD 0 + 1) heq
      rw [groupRelatedLogEntries_toClient, GroupRelatedLogEntries_toClient, List.map_filterMap, List.map_filterMap,
        List.filterMap_congr fun g hg => count_client (hclient.ne_nil g hg) (hclientLines g hg),
        List.filterMap_congr fun g hg => count_server (hserver.ne_nil g hg) (hlines g hg)] at hcounts
      refine List.eq_iff_flatten_eq.mpr ⟨(group_flatten xs).trans (group_flatten xs).symm, ?_⟩
      simpa using hcounts
    have hg : IsGrouping ClientFolds (group Folds xs) := hgroup ▸ group_isGrouping xs
    exact ⟨hg.body, hg.chain, (hsame hgroup).mp heq⟩
  · intro hagree
    have hg : IsGrouping ClientFolds (group Folds xs) := ⟨hserver.ne_nil, hagree.folded, hagree.apart⟩
    exact (hsame (group_eq_iff.mpr ⟨group_flatten xs, hg⟩)).mpr hagree.lines

end

/-- a line of a log -/
def line (timestamp : ℤ) (level : Models.LogLevel) (message raw : String) : Models.LogEntry :=
  { timestamp := timestamp, level := level, message := message, stream := .stdout, raw := raw.toUTF8.data.toList }

/-- an event of a program that ends its lines with a space -/
def spacedLines : List Models.LogEntry :=
  [line 1 .info "INFO Started" "INFO Started ", line 2 .unknown "user: bob" "user: bob "]

theorem spacedLines_perLine : ∀ x ∈ spacedLines, PerLine x := by
  intro x hx
  simp only [spacedLines, List.mem_cons, List.not_mem_nil, or_false] at hx
  rcases hx with rfl | rfl
  · exact ⟨by decide, by decide, rfl, rfl⟩
  · exact ⟨by decide, by decide, rfl, rfl⟩

theorem spacedLines_raw : (groupRelatedLogEntries (spacedLines.map toClient)).map LogEntry.raw =
      [some "INFO Started \nuser: bob"] ∧
    ((GroupRelatedLogEntries spacedLines).map toClient).map LogEntry.raw = [some "INFO Started \nuser: bob "] := by
  decide

/-- the condition fails on it -/
theorem spacedLines_not_agree : ¬ Agree spacedLines := by
  intro hagree
  have heq := (groupers_agree_iff spacedLines_perLine).mpr hagree
  have hraw := spacedLines_raw
  rw [heq, hraw.2] at hraw
  exact absurd hraw.1 (by decide)

/-- **The space is lost.** The server keeps it in the raw text of the entry, the frontend does not. -/
theorem groupers_disagree : (∀ x ∈ spacedLines, PerLine x) ∧
    groupRelatedLogEntries (spacedLines.map toClient) ≠ (GroupRelatedLogEntries spacedLines).map toClient := by
  refine ⟨spacedLines_perLine, fun heq => ?_⟩
  have hraw := spacedLines_raw
  rw [heq, hraw.2] at hraw
  exact absurd hraw.1 (by decide)

/-! ## Plain lines -/

/-- the characters that the two languages do not class alike -/
def exotic (c : Char) : Bool :=
  c ∈ ['\x0b', '\r', '\u0085', '\u00a0', '\u1680', '\u2028', '\u2029', '\u202f', '\u205f', '\u3000', '\ufeff'] ||
    ('\u2000' ≤ c && c ≤ '\u200a')

def PlainText (s : String) : Prop := ∀ c ∈ s.toList, exotic c = false

structure Plain (e : Models.LogEntry) : Prop where
  message : PlainText e.message
  raw : trim (Utf8.decode e.raw) = Utf8.decode e.raw
  key : ∀ field ∈ serverField e, field.1 ≠ "__proto__"

section
variable {a b e : Models.LogEntry} {xs : List Models.LogEntry} {s : String}

/-- on all others they do -/
theorem exotic_classes {c : Char} (h : exotic c = false) :
    isWhiteSpace c = Models.isSpace c ∧ isWhiteSpace c = fieldPattern.blank c ∧
      STRUCTURED_FIELD_REGEX.stop c = fieldPattern.stop c := by
  unfold exotic at h
  obtain ⟨hlist, hrange⟩ := Bool.or_eq_false_iff.mp h
  simp only [decide_eq_false_iff_not, List.mem_cons, List.not_mem_nil, or_false, not_or] at hlist
  refine ⟨?_, ?_, ?_⟩
  · simp only [isWhiteSpace, Models.isSpace, hrange, List.mem_cons, List.not_mem_nil, or_false, hlist, false_or]
  · simp only [isWhiteSpace, fieldPattern, Models.isBlankChar, hrange, List.mem_cons, List.not_mem_nil, or_false, hlist,
      false_or, Bool.or_false]
  · simp only [STRUCTURED_FIELD_REGEX, fieldPattern, List.mem_cons, List.not_mem_nil, or_false, hlist]

theorem trim_plain (hs : PlainText s) : trim s = trimSpace s := by
  rw [← String.toList_inj, trim_toList, Models.trimSpace_toList]
  exact trim_congr fun c hc => (exotic_classes (hs c hc)).1

theorem plain_trimSpace (hs : PlainText s) : PlainText (trimSpace s) := by
  intro c hc
  rw [Models.trimSpace_toList, LineText.trim, List.mem_reverse] at hc
  exact hs c ((List.dropWhile_sublist _).subset (List.mem_reverse.mp ((List.dropWhile_sublist _).subset hc)))

theorem read_plain (hs : PlainText s) : STRUCTURED_FIELD_REGEX.read s.toList = fieldPattern.read s.toList :=
  Pattern.read_congr rfl rfl rfl (fun c hc => (exotic_classes (hs c hc)).2.1) fun c hc => (exotic_classes (hs c hc)).2.2

/-- what a continuation needs in the frontend, of entries of the server -/
theorem clientFolds_iff : ClientFolds a b ↔ b.level = .unknown ∧ b.containerName = a.containerName ∧
    trim b.message ≠ "" ∧ trim a.message ≠ "" ∧ ((STRUCTURED_FIELD_REGEX.read (trim b.message).toList).isSome = true ∨
      Models.isProblemLevel a.level = true ∧ Models.isStackTraceContinuation (trim b.message) = true) := by
  have hlevel : (toClient b).level = .unknown ↔ b.level = .unknown := by
    unfold toClient
    cases b.level <;> simp [levelName]
  have hproblem : isProblemLevel (toClient a).level = Models.isProblemLevel a.level := by
    unfold toClient
    cases a.level <;> rfl
  have hname : (toClient b).containerName = (toClient a).containerName ↔ b.containerName = a.containerName := by
    simp only [toClient, omitEmpty]
    split_ifs <;> simp_all
  have htext : ∀ e : Models.LogEntry, textOf (toClient e) = trim e.message := fun _ => rfl
  unfold ClientFolds
  rw [continuesEntry_iff, hlevel, hname, hproblem, htext, htext]
  rfl

/-- on plain text the rules are one, within a container -/
theorem clientFolds_plain (ha : PlainText a.message) (hb : PlainText b.message)
    (hname : b.containerName = a.containerName) : ClientFolds a b ↔ Folds a b := by
  rw [clientFolds_iff, Models.folds_iff_text, trim_plain ha, trim_plain hb, Models.structuredField_isSome,
    read_plain (plain_trimSpace hb)]
  simp only [hname, true_and, And.comm (a := Models.isProblemLevel a.level = true)]

/-- on plain text the fields are the same -/
theorem clientField_plain (he : Plain e) : clientField e = serverField e := by
  have hkey := he.key
  unfold serverField parseStructuredField at hkey ⊢
  unfold clientField
  rw [Models.trimSpace_trimSpace, Models.structuredField_eq] at hkey ⊢
  rw [trim_plain he.message, read_plain (plain_trimSpace he.message)]
  cases hread : fieldPattern.read (trimSpace e.message).toList with
  | none => rfl
  | some kv =>
    have hvalue : PlainText (String.ofList kv.2) := by
      intro c hc
      rw [String.toList_ofList] at hc
      exact plain_trimSpace he.message c (Pattern.value_subset hread hc)
    have hkv := hkey (String.ofList kv.1, trimSpace (String.ofList kv.2)) (by rw [hread]; rfl)
    simp [Option.filter, trim_plain hvalue, hkv]

/-- **Plain lines.** The groupers agree on the lines of a container whose texts are plain. -/
theorem agree_of_plain (hplain : ∀ x ∈ xs, PerLine x ∧ Plain x)
    (hname : ∀ x ∈ xs, ∀ y ∈ xs, x.containerName = y.containerName) : Agree xs := by
  have hg : IsGrouping Folds (group Folds xs) := group_isGrouping xs
  have hmem : ∀ g ∈ group Folds xs, ∀ e ∈ g, e ∈ xs := fun g hgm e he => mem_of_mem_group hgm he
  have hrule : ∀ a ∈ xs, ∀ b ∈ xs, (ClientFolds a b ↔ Folds a b) := fun a ha b hb =>
    clientFolds_plain (hplain a ha).2.message (hplain b hb).2.message (hname b hb a ha)
  constructor
  · intro g hgm h hh e he
    have hhx := hmem g hgm h (List.mem_of_mem_head? hh)
    have hex := hmem g hgm e (List.mem_of_mem_tail he)
    exact (hrule h hhx e hex).mpr (hg.body g hgm h hh e he)
  · refine (hg.isChain_iff fun g hgm g' hgm' hapart => iff_of_true ?_ hapart).mpr hg.chain
    intro h hh e he
    have hhx := hmem g hgm h (List.mem_of_mem_head? hh)
    have hex := hmem g' hgm' e (List.mem_of_mem_head? he)
    exact mt (hrule h hhx e hex).mp (hapart h hh e he)
  · intro g hgm
    have htail : ∀ e ∈ g.tail, PerLine e ∧ Plain e := fun e he => hplain e (hmem g hgm e (List.mem_of_mem_tail he))
    refine ⟨fun e he => ?_, fun e he => (htail e he).2.raw, fun key => ?_⟩
    · rw [trim_plain (htail e he).2.message, (htail e he).1.trimmed]
    · rw [List.map_congr_left fun e he => clientField_plain (htail e he).2]

end

/-! ## Grouping again -/

/-- the frontend folds the second group into the first -/
def ClientReopens : List Models.LogEntry → List Models.LogEntry → Prop
  | h :: es, h' :: es' =>
    h'.level = .unknown ∧ h'.containerName = h.containerName ∧
      trim (textOfLines h' es') ≠ "" ∧ trim (textOfLines h es) ≠ "" ∧
      ((STRUCTURED_FIELD_REGEX.read (trim (textOfLines h' es')).toList).isSome = true ∨
        Models.isProblemLevel h.level = true ∧ Models.isStackTraceContinuation (trim (textOfLines h' es')) = true)
  | _, _ => False

section
variable {h h' : Models.LogEntry} {es es' xs : List Models.LogEntry}

theorem clientFolds_merged_iff (hh : PerLine h) (hh' : PerLine h') (hes : ∀ e ∈ es, PerLine e ∧ Folds h e)
    (hes' : ∀ e ∈ es', PerLine e ∧ Folds h' e) :
    ClientFolds (es.foldl appendContinuationLine h) (es'.foldl appendContinuationLine h') ↔
      ClientReopens (h :: es) (h' :: es') := by
  have htext := Models.merged_text hh.trimmed fun e he => ⟨(hes e he).1.trimmed, (hes e he).2⟩
  have htext' := Models.merged_text hh'.trimmed fun e he => ⟨(hes' e he).1.trimmed, (hes' e he).2⟩
  rw [clientFolds_iff, htext, htext', Models.merged_level, Models.merged_level,
    Models.merged_containerName, Models.merged_containerName]
  rfl

theorem plain_textOfLines (hh : PlainText h.message) (hes : ∀ e ∈ es, PlainText e.message) :
    PlainText (textOfLines h es) := by
  intro c hc
  rw [textOfLines, String.toList_ofList] at hc
  rcases List.mem_append.mp hc with hc | hc
  · exact hh c hc
  · by_cases hnewline : c = '\n'
    · rw [hnewline]
      decide
    · obtain ⟨e, he, hce⟩ := (Models.mem_folded hnewline).mp hc
      exact hes e he c hce

/-- the frontend leaves the entries of the server as they are when it folds none of them -/
theorem regroup_client_chain : groupRelatedLogEntries ((GroupRelatedLogEntries xs).map toClient) =
    (GroupRelatedLogEntries xs).map toClient ↔ (GroupRelatedLogEntries xs).IsChain fun a e => ¬ ClientFolds a e := by
  have hagain : groupRelatedLogEntries ((GroupRelatedLogEntries xs).map toClient) =
      (GroupRelatedLogEntries xs).map toClient ↔
      ((GroupRelatedLogEntries xs).map toClient).IsChain fun a e => ¬ ContinuesEntry a e := by
    rw [groupRelatedLogEntries, pushEntry_eq]
    exact foldl_foldNext_eq_self_iff continuesEntry_absorb
  rw [hagain, List.isChain_map]
  rfl

/-- a plain log: what the frontend folds is what the server would fold -/
theorem regroup_client_plain (hxs : ∀ x ∈ xs, PerLine x) (hplain : ∀ x ∈ xs, PlainText x.message)
    (hname : ∀ x ∈ xs, ∀ y ∈ xs, x.containerName = y.containerName) :
    (GroupRelatedLogEntries xs).IsChain (fun a e => ¬ ClientFolds a e) ↔
      (group Folds xs).IsChain fun g g' => ¬ Reopens g g' := by
  refine Models.isChain_entries_iff fun h es h' es' hmem hmem' hes hes' hapart => not_congr ?_
  have hh := hxs h (hmem h List.mem_cons_self)
  have hh' := hxs h' (hmem' h' List.mem_cons_self)
  have hfolds : ∀ e ∈ es, PerLine e ∧ Folds h e := fun e he => ⟨hxs e (hmem e (List.mem_cons_of_mem h he)), hes e he⟩
  have hfolds' : ∀ e ∈ es', PerLine e ∧ Folds h' e := fun e he =>
    ⟨hxs e (hmem' e (List.mem_cons_of_mem h' he)), hes' e he⟩
  have htext : PlainText (es.foldl appendContinuationLine h).message := by
    rw [Models.merged_text hh.trimmed fun e he => ⟨(hfolds e he).1.trimmed, (hfolds e he).2⟩]
    exact plain_textOfLines (hplain h (hmem h List.mem_cons_self)) fun e he =>
      hplain e (hmem e (List.mem_cons_of_mem h he))
  have htext' : PlainText (es'.foldl appendContinuationLine h').message := by
    rw [Models.merged_text hh'.trimmed fun e he => ⟨(hfolds' e he).1.trimmed, (hfolds' e he).2⟩]
    exact plain_textOfLines (hplain h' (hmem' h' List.mem_cons_self)) fun e he =>
      hplain e (hmem' e (List.mem_cons_of_mem h' he))
  have hcontainer : (es'.foldl appendContinuationLine h').containerName =
      (es.foldl appendContinuationLine h).containerName := by
    rw [Models.merged_containerName, Models.merged_containerName]
    exact hname h' (hmem' h' List.mem_cons_self) h (hmem h List.mem_cons_self)
  rw [clientFolds_plain htext htext' hcontainer]
  exact Models.folds_merged_iff hh hh' hes hfolds' hapart

/-- **Grouping again.** The server, and the frontend, leave the entries of the server as they are exactly when none
reopens the one before it. Where the texts are plain, an entry reopens the one before it in both or in neither. -/
theorem regroup_client_iff (hxs : ∀ x ∈ xs, PerLine x) :
    (GroupRelatedLogEntries (GroupRelatedLogEntries xs) = GroupRelatedLogEntries xs ↔
      (group Folds xs).IsChain fun g g' => ¬ Reopens g g') ∧
    (groupRelatedLogEntries ((GroupRelatedLogEntries xs).map toClient) = (GroupRelatedLogEntries xs).map toClient ↔
      (group Folds xs).IsChain fun g g' => ¬ ClientReopens g g') ∧
    ((∀ x ∈ xs, PlainText x.message) → (∀ x ∈ xs, ∀ y ∈ xs, x.containerName = y.containerName) →
      ((group Folds xs).IsChain (fun g g' => ¬ ClientReopens g g') ↔
        (group Folds xs).IsChain fun g g' => ¬ Reopens g g')) := by
  have hclient : (GroupRelatedLogEntries xs).IsChain (fun a e => ¬ ClientFolds a e) ↔
      (group Folds xs).IsChain fun g g' => ¬ ClientReopens g g' := by
    refine Models.isChain_entries_iff fun h es h' es' hmem hmem' hes hes' _ => not_congr ?_
    exact clientFolds_merged_iff (hxs h (hmem h List.mem_cons_self)) (hxs h' (hmem' h' List.mem_cons_self))
      (fun e he => ⟨hxs e (hmem e (List.mem_cons_of_mem h he)), hes e he⟩)
      fun e he => ⟨hxs e (hmem' e (List.mem_cons_of_mem h' he)), hes' e he⟩
  refine ⟨Models.regroup_iff hxs, regroup_client_chain.trans hclient, fun hplain hname => ?_⟩
  exact hclient.symm.trans (regroup_client_plain hxs hplain hname)

/-- a request with one header, and an error with a path and a field below it -/
def reopenedLines : List Models.LogEntry :=
  [line 1 .info "INFO GET /" "INFO GET /", line 2 .unknown "Headers:" "Headers:",
    line 3 .unknown "Host: example.org" "Host: example.org", line 4 .error "ERROR disk full" "ERROR disk full",
    line 5 .unknown "/var/lib/data" "/var/lib/data", line 6 .unknown "free: 0" "free: 0"]

theorem reopenedLines_perLine : ∀ x ∈ reopenedLines, PerLine x := by
  intro x hx
  simp only [reopenedLines, List.mem_cons, List.not_mem_nil, or_false] at hx
  rcases hx with rfl | rfl | rfl | rfl | rfl | rfl <;> exact ⟨by decide, by decide, rfl, rfl⟩

theorem reopenedLines_regrouped :
    (GroupRelatedLogEntries reopenedLines).length = 4 ∧
      (GroupRelatedLogEntries (GroupRelatedLogEntries reopenedLines)).length = 2 ∧
      (groupRelatedLogEntries ((GroupRelatedLogEntries reopenedLines).map toClient)).length = 2 := by
  decide

/-- the condition fails on it -/
theorem reopenedLines_reopen : ¬ (group Folds reopenedLines).IsChain fun g g' => ¬ Reopens g g' := by
  intro hchain
  have hsame := (regroup_client_iff reopenedLines_perLine).1.mpr hchain
  have hlength := reopenedLines_regrouped
  rw [hsame] at hlength
  omega

/-- **Two entries where there were four.** -/
theorem reopenedLines_folded : (∀ x ∈ reopenedLines, PerLine x) ∧
    GroupRelatedLogEntries (GroupRelatedLogEntries reopenedLines) ≠ GroupRelatedLogEntries reopenedLines ∧
    groupRelatedLogEntries ((GroupRelatedLogEntries reopenedLines).map toClient) ≠
      (GroupRelatedLogEntries reopenedLines).map toClient := by
  obtain ⟨hfour, hserver, hclient⟩ := reopenedLines_regrouped
  refine ⟨reopenedLines_perLine, fun heq => ?_, fun heq => ?_⟩
  · rw [heq] at hserver
    omega
  · rw [heq, List.length_map] at hclient
    omega

end

end LogDeck.Frontend
