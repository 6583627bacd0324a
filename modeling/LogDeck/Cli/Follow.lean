/-
Following a log from the CLI (`docker/logs.go`: `streamingLogWriter.emit`, the monitor of `newParsedLogStream`;
`cli/logs.go`: `followLogs`, `scanNDJSON`, `isHeartbeat`).

The server writes each entry as an object on a line of its own, with the text of the log line in it twice: cleaned as the
message, and raw. Where a tick finds that nothing was written since the last one, it writes a heartbeat. The CLI reads the
lines through a `bufio.Scanner` with a buffer of 4 MiB, in which a line must fit together with its newline: it stops with an
error at the first line that does not.

`time.Parse`, `time.Time.MarshalJSON`, `DetectLogLevel` and what `json.Unmarshal` leaves in the probe of `isHeartbeat` are
parameters; the encoder and the connection do not fail.

Results:
- `length_entryText`: the length of an entry, from the bytes of its line and of its message;
- `follows_iff`: a follow hands on every entry if and only if each of them is short enough by that count;
- `long_line_ends`: the first entry that is not ends the follow;
- `entrySize_le`: an entry takes at most twelve bytes for each byte of its line;
- `control_line_ends_follow`: a line of control characters, as long as a line may be.
-/
import LogDeck.Docker.Filter
import LogDeck.Docker.Lines
import LogDeck.Lib.GoJson
import LogDeck.Models.Timestamp

namespace LogDeck.Cli

open GoJson (object excess)
open LogDeck.Docker (Bytes newline splitLines trimCR levelText)
open LogDeck.LogStore (Stream)
open LogDeck.Models (LogLevel)
open LogDeck.Timestamp (ParsedLine TrimSpace)

/-! ## The server -/

/-- what the server calls and is not modelled -/
structure Library where
  timeParse : String → Bytes → Option ℤ
  DetectLogLevel : Bytes → LogLevel
  /-- `MarshalJSON` of the timestamp read from a line, without its quotes -/
  timeText : Bytes → Bytes

/-- the bytes of a text in ASCII -/
def ascii (s : String) : Bytes := s.toList.map fun c => UInt8.ofNat c.toNat

def streamText : Stream → String
  | .stdout => "stdout"
  | .stderr => "stderr"

/-- what the monitor and the writers do: a line is emitted, or the ticker ticks -/
inductive Event where
  | line (stream : Stream) (line : Bytes)
  | tick
deriving DecidableEq, Repr

def heartbeat : Bytes := object [(ascii "type", ascii "heartbeat")]

section Server

variable (lib : Library) (f : Docker.Filter)

def entryOf (stream : Stream) (line : Bytes) : ParsedLine :=
  Timestamp.ParseLogLine lib.timeParse lib.DetectLogLevel line stream

/-- the fields of an entry that are not left out when empty -/
def entryFields (stream : Stream) (line : Bytes) : List (Bytes × Bytes) :=
  let entry := entryOf lib stream line
  [(ascii "timestamp", lib.timeText line), (ascii "level", ascii (levelText entry.level)),
    (ascii "message", entry.message), (ascii "stream", ascii (streamText entry.stream)), (ascii "raw", entry.raw)]

/-- what `encoder.Encode(entry)` writes before the newline -/
def entryText (stream : Stream) (line : Bytes) : Bytes := object (entryFields lib stream line)

/-- `emit` encodes the line's entry -/
def keepsLine (stream : Stream) (line : Bytes) : Bool :=
  let entry := entryOf lib stream line
  f.passesLevel entry.level && f.passesSearch (Utf8.decode entry.message) entry.raw

/-- the texts that are encoded, `wrote` being `wroteEntry` -/
def texts : Bool → List Event → List Bytes
  | _, [] => []
  | wrote, .line stream line :: events =>
    if keepsLine lib f stream line then entryText lib stream line :: texts true events else texts wrote events
  | wrote, .tick :: events => if wrote then texts false events else heartbeat :: texts false events

/-- what comes out of the pipe -/
def newParsedLogStream (events : List Event) : Bytes := (texts lib f false events).flatMap (· ++ [newline])

/-- the line whose entry an event encodes, if it does -/
def sentLine : Event → Option (Stream × Bytes)
  | .line stream line => if keepsLine lib f stream line then some (stream, line) else none
  | .tick => none

def sentLines (events : List Event) : List (Stream × Bytes) := events.filterMap (sentLine lib f)

def entryTexts (events : List Event) : List Bytes := (sentLines lib f events).map fun l => entryText lib l.1 l.2

end Server

/-! ## The CLI -/

/-- `4*1024*1024` -/
def maxTokenSize : ℕ := 4 * 1024 * 1024

/-- the lines of `bufio.ScanLines`, the last one perhaps without a newline -/
def scanLines (body : Bytes) : List Bytes :=
  (splitLines body).1 ++ if (splitLines body).2 = [] then [] else [(splitLines body).2]

/-- the tokens before the first one that the buffer does not hold, and whether there is such a one: `ErrTooLong` -/
def scanTokens (body : Bytes) : List Bytes × Bool :=
  (((scanLines body).takeWhile fun line => line.length < maxTokenSize).map trimCR,
    (scanLines body).any fun line => maxTokenSize ≤ line.length)

section Cli

variable (unmarshalType : Bytes → Option Bytes)

/-- `unmarshalType` is `probe.Type` after `json.Unmarshal`, if there is no error -/
def isHeartbeat (line : Bytes) : Bool := unmarshalType line = some (ascii "heartbeat")

/-- what the body of the loop hands on -/
def scanLine (token : Bytes) : Option Bytes :=
  let line := TrimSpace token
  if line = [] ∨ isHeartbeat unmarshalType line then none else some line

/-- the lines handed on, none of which `followLogs` fails on, and whether the scanner stopped with an error -/
def scanNDJSON (body : Bytes) : List Bytes × Bool :=
  ((scanTokens body).1.filterMap (scanLine unmarshalType), (scanTokens body).2)

end Cli

def lower (b : UInt8) : UInt8 := if 0x41 ≤ b ∧ b ≤ 0x5a then b + 0x20 else b

def isLetter (b : UInt8) : Bool := 0x61 ≤ lower b && lower b ≤ 0x7a

/-- `json.Unmarshal` takes the field from the heartbeat, and leaves it empty where no name is "type" in any case; names are
words here, which have no escapes -/
structure ProbesType (unmarshalType : Bytes → Option Bytes) : Prop where
  heartbeat : unmarshalType heartbeat = some (ascii "heartbeat")
  other : ∀ fields : List (Bytes × Bytes), (∀ f ∈ fields, f.1.all isLetter ∧ f.1.map lower ≠ ascii "type") →
    unmarshalType (object fields) = some []

/-! ## Lengths -/

/-- the bytes of an entry: of its braces, commas and names, of its time, level and stream, and of the message and the raw
text with what they grow by -/
def entrySize (lib : Library) (stream : Stream) (line : Bytes) : ℕ :=
  let entry := entryOf lib stream line
  61 + ((lib.timeText line).length + excess (lib.timeText line)) + (levelText entry.level).length +
    (streamText stream).length + (entry.message.length + excess entry.message) + (line.length + excess line)

theorem length_ascii (s : String) : (ascii s).length = s.length := by rw [ascii, List.length_map, String.length_toList]

theorem excess_level (level : LogLevel) : excess (ascii (levelText level)) = 0 := by cases level <;> decide

theorem excess_stream (stream : Stream) : excess (ascii (streamText stream)) = 0 := by cases stream <;> decide

/-- **The length of an entry.** -/
theorem length_entryText (lib : Library) (stream : Stream) (line : Bytes) :
    (entryText lib stream line).length = entrySize lib stream line := by
  have hstream : (entryOf lib stream line).stream = stream := rfl
  have hraw : (entryOf lib stream line).raw = line := rfl
  unfold entryText entryFields entrySize
  dsimp only
  rw [GoJson.length_object, hstream, hraw]
  simp only [List.map_cons, List.map_nil, List.sum_cons, List.sum_nil, GoJson.fieldLength, excess_level, excess_stream,
    length_ascii]
  have hnames : "timestamp".length + "level".length + "message".length + "stream".length + "raw".length = 30 := by decide
  omega

/-! ## Lines -/

theorem splitLines_line {t : Bytes} (ht : newline ∉ t) (b : Bytes) :
    splitLines (t ++ newline :: b) = (t :: (splitLines b).1, (splitLines b).2) := by
  induction t with
  | nil => rw [List.nil_append, splitLines, if_pos rfl]
  | cons c t ih =>
    obtain ⟨hc, ht⟩ := not_or.1 (fun h => ht (List.mem_cons.2 h))
    rw [List.cons_append, splitLines, if_neg fun h => hc h.symm, ih ht]

theorem splitLines_lines {ts : List Bytes} (hts : ∀ t ∈ ts, newline ∉ t) :
    splitLines (ts.flatMap (· ++ [newline])) = (ts, []) := by
  induction ts with
  | nil => rfl
  | cons t ts ih =>
    rw [List.forall_mem_cons] at hts
    rw [List.flatMap_cons, List.append_assoc, List.singleton_append, splitLines_line hts.1, ih hts.2]

theorem scanLines_lines {ts : List Bytes} (hts : ∀ t ∈ ts, newline ∉ t) :
    scanLines (ts.flatMap (· ++ [newline])) = ts := by
  rw [scanLines, splitLines_lines hts, if_pos rfl, List.append_nil]

/-! ## Tokens -/

theorem solid_brace : ∀ b ∈ ([0x7b, 0x7d] : Bytes), Tokens.Solid Timestamp.spaces b := by
  unfold Tokens.Solid
  exact List.all_iff_forall_prop.1 (by decide)

/-- an object is its own token -/
theorem TrimSpace_object (fields : List (Bytes × Bytes)) : TrimSpace (object fields) = object fields := by
  obtain ⟨inner, hobject⟩ := GoJson.object_delimited fields
  have hhead : ∀ b ∈ (object fields).head?, Tokens.Solid Timestamp.spaces b := by
    rw [hobject]
    rintro b ⟨⟩
    exact solid_brace _ (by decide)
  have hlast : ∀ b ∈ (object fields).getLast?, Tokens.Solid Timestamp.spaces b := by
    rw [hobject, List.getLast?_concat]
    rintro b ⟨⟩
    exact solid_brace _ (by decide)
  have hfront : Tokens.strip Timestamp.spaces (object fields) = object fields :=
    Tokens.strip_append Timestamp.spaces_lawful.front hhead []
  have hend := Tokens.stripEnd_append Timestamp.spaces_lawful hlast []
  have hnil : Tokens.stripEnd Timestamp.spaces [] = [] := rfl
  rw [hnil, List.append_nil] at hend
  rw [TrimSpace, Tokens.trim, hfront, hend]

theorem trimCR_object (fields : List (Bytes × Bytes)) : trimCR (object fields) = object fields := by
  obtain ⟨inner, hobject⟩ := GoJson.object_delimited fields
  unfold trimCR
  rw [hobject, List.getLast?_concat, if_neg (by decide)]

theorem object_ne_nil (fields : List (Bytes × Bytes)) : object fields ≠ [] := by
  obtain ⟨inner, hobject⟩ := GoJson.object_delimited fields
  rw [hobject]
  exact List.cons_ne_nil _ _

/-! ## The stream -/

section Stream

variable {lib : Library} {f : Docker.Filter} {unmarshalType : Bytes → Option Bytes}

theorem entryFields_names (stream : Stream) (line : Bytes) :
    ∀ field ∈ entryFields lib stream line,
      newline ∉ field.1 ∧ field.1.all isLetter ∧ field.1.map lower ≠ ascii "type" := by
  simp only [entryFields, List.forall_mem_cons, List.not_mem_nil, false_imp_iff, implies_true, and_true]
  decide

theorem newline_notMem_entry (stream : Stream) (line : Bytes) : newline ∉ entryText lib stream line :=
  GoJson.newline_notMem_object fun field hfield => (entryFields_names stream line field hfield).1

theorem newline_notMem_heartbeat : newline ∉ heartbeat := GoJson.newline_notMem_object (by decide)

theorem isHeartbeat_entry (h : ProbesType unmarshalType) (stream : Stream) (line : Bytes) :
    isHeartbeat unmarshalType (entryText lib stream line) = false := by
  have hother : unmarshalType (entryText lib stream line) = some [] :=
    h.other _ fun field hfield => (entryFields_names stream line field hfield).2
  rw [isHeartbeat, hother]
  decide

theorem scanLine_entry (h : ProbesType unmarshalType) (stream : Stream) (line : Bytes) :
    scanLine unmarshalType (entryText lib stream line) = some (entryText lib stream line) := by
  have hobject : TrimSpace (entryText lib stream line) = entryText lib stream line := TrimSpace_object _
  have hne : entryText lib stream line ≠ [] := object_ne_nil _
  simp only [scanLine, hobject, hne, isHeartbeat_entry h, Bool.false_eq_true, or_self, if_false]

theorem scanLine_heartbeat (h : ProbesType unmarshalType) : scanLine unmarshalType heartbeat = none := by
  have hobject : TrimSpace heartbeat = heartbeat := TrimSpace_object _
  have hbeat : isHeartbeat unmarshalType heartbeat = true := decide_eq_true h.heartbeat
  simp only [scanLine, hobject, hbeat, or_true, if_true]

theorem entryTexts_line (stream : Stream) (line : Bytes) (events : List Event) :
    entryTexts lib f (.line stream line :: events) =
      if keepsLine lib f stream line then entryText lib stream line :: entryTexts lib f events
      else entryTexts lib f events := by
  unfold entryTexts sentLines
  split_ifs with hkeep
  · have hsent : sentLine lib f (.line stream line) = some (stream, line) := if_pos hkeep
    rw [List.filterMap_cons_some hsent, List.map_cons]
  · have hsent : sentLine lib f (.line stream line) = none := if_neg hkeep
    rw [List.filterMap_cons_none hsent]

theorem entryTexts_tick (events : List Event) : entryTexts lib f (.tick :: events) = entryTexts lib f events := rfl

/-- what holds of the heartbeat holds of all that is written when it holds of every entry -/
theorem forall_texts {P : Bytes → Prop} (hbeat : P heartbeat) (wrote : Bool) (events : List Event) :
    (∀ t ∈ texts lib f wrote events, P t) ↔ ∀ t ∈ entryTexts lib f events, P t := by
  induction events generalizing wrote with
  | nil => exact Iff.rfl
  | cons event events ih =>
    cases event with
    | line stream line =>
      rw [texts, entryTexts_line]
      split_ifs
      · rw [List.forall_mem_cons, List.forall_mem_cons, ih]
      · exact ih wrote
    | tick =>
      rw [texts, entryTexts_tick]
      split_ifs
      · exact ih false
      · rw [List.forall_mem_cons, ih]
        exact and_iff_right hbeat

/-- the CLI passes over the heartbeats and nothing else -/
theorem filterMap_texts (h : ProbesType unmarshalType) (wrote : Bool) (events : List Event) :
    (texts lib f wrote events).filterMap (scanLine unmarshalType) = entryTexts lib f events := by
  induction events generalizing wrote with
  | nil => rfl
  | cons event events ih =>
    cases event with
    | line stream line =>
      rw [texts, entryTexts_line]
      split_ifs
      · rw [List.filterMap_cons_some (scanLine_entry h stream line), ih]
      · exact ih wrote
    | tick =>
      rw [texts, entryTexts_tick]
      split_ifs
      · exact ih false
      · rw [List.filterMap_cons_none (scanLine_heartbeat h), ih]

theorem scanLines_pipe (events : List Event) :
    scanLines (newParsedLogStream lib f events) = texts lib f false events := by
  refine scanLines_lines ((forall_texts newline_notMem_heartbeat false events).2 fun t ht => ?_)
  obtain ⟨l, -, rfl⟩ := List.mem_map.1 ht
  exact newline_notMem_entry l.1 l.2

theorem trimCR_texts (wrote : Bool) (events : List Event) :
    (texts lib f wrote events).map trimCR = texts lib f wrote events := by
  have hbeat : trimCR heartbeat = heartbeat := trimCR_object _
  have hself : ∀ t ∈ texts lib f wrote events, trimCR t = t := by
    refine (forall_texts (P := fun t => trimCR t = t) hbeat wrote events).2 fun t ht => ?_
    obtain ⟨l, -, rfl⟩ := List.mem_map.1 ht
    exact trimCR_object _
  exact (List.map_congr_left hself).trans (List.map_id _)

/-- every entry fits in a token -/
def Fits (lib : Library) (f : Docker.Filter) (events : List Event) : Prop :=
  ∀ t ∈ entryTexts lib f events, t.length < maxTokenSize

/-- the follow hands on every entry, and no line ends it -/
def HandsOn (lib : Library) (f : Docker.Filter) (unmarshalType : Bytes → Option Bytes) (events : List Event) : Prop :=
  scanNDJSON unmarshalType (newParsedLogStream lib f events) = (entryTexts lib f events, false)

theorem fits_texts (wrote : Bool) (events : List Event) :
    (∀ t ∈ texts lib f wrote events, t.length < maxTokenSize) ↔ Fits lib f events :=
  forall_texts (by decide) wrote events

theorem handsOn_iff (h : ProbesType unmarshalType) (events : List Event) :
    HandsOn lib f unmarshalType events ↔ Fits lib f events := by
  unfold HandsOn scanNDJSON scanTokens
  rw [scanLines_pipe, ← fits_texts false]
  constructor
  · intro hscan t ht
    have hlong := (Prod.ext_iff.1 hscan).2
    rw [List.any_eq_false] at hlong
    simpa using hlong t ht
  · intro hfits
    have hall : (texts lib f false events).takeWhile (fun t => decide (t.length < maxTokenSize)) =
        texts lib f false events := by
      rw [List.takeWhile_eq_self_iff]
      exact fun t ht => decide_eq_true (hfits t ht)
    have hnone : (texts lib f false events).any (fun t => decide (maxTokenSize ≤ t.length)) = false := by
      rw [List.any_eq_false]
      exact fun t ht => by simpa using hfits t ht
    dsimp only
    rw [hall, hnone, trimCR_texts, filterMap_texts h]

/-- **A follow.** Every entry fits in a token and all of them are handed on, if and only if each line that is sent is short
enough with its message, the bytes that they grow by included. -/
theorem follows_iff (h : ProbesType unmarshalType) (events : List Event) :
    Fits lib f events ∧ HandsOn lib f unmarshalType events ↔
      ∀ l ∈ sentLines lib f events, entrySize lib l.1 l.2 < maxTokenSize := by
  have hsizes : Fits lib f events ↔ ∀ l ∈ sentLines lib f events, entrySize lib l.1 l.2 < maxTokenSize := by
    unfold Fits entryTexts
    rw [List.forall_mem_map]
    simp only [length_entryText]
  rw [handsOn_iff h, and_self, hsizes]

theorem texts_append (lib : Library) (f : Docker.Filter) (wrote : Bool) (before after : List Event) :
    ∃ wrote', texts lib f wrote (before ++ after) = texts lib f wrote before ++ texts lib f wrote' after := by
  induction before generalizing wrote with
  | nil => exact ⟨wrote, rfl⟩
  | cons event before ih =>
    cases event with
    | line stream line =>
      rw [List.cons_append, texts, texts]
      split_ifs
      · obtain ⟨wrote', happend⟩ := ih true
        exact ⟨wrote', congrArg _ happend⟩
      · exact ih wrote
    | tick =>
      rw [List.cons_append, texts, texts]
      split_ifs
      · exact ih false
      · obtain ⟨wrote', happend⟩ := ih false
        exact ⟨wrote', congrArg _ happend⟩

/-- **A long line.** The first one that is sent ends the follow: what comes after it is not handed on. -/
theorem long_line_ends (h : ProbesType unmarshalType) {before : List Event} (hbefore : Fits lib f before)
    {stream : Stream} {line : Bytes} (hkeep : keepsLine lib f stream line = true)
    (hlong : maxTokenSize ≤ entrySize lib stream line) (after : List Event) :
    scanNDJSON unmarshalType (newParsedLogStream lib f (before ++ .line stream line :: after)) =
      (entryTexts lib f before, true) := by
  obtain ⟨wrote', happend⟩ := texts_append lib f false before (.line stream line :: after)
  rw [texts, if_pos hkeep] at happend
  have hfits : ∀ t ∈ texts lib f false before, decide (t.length < maxTokenSize) = true := fun t ht =>
    decide_eq_true ((fits_texts false before).2 hbefore t ht)
  have hstop : ¬ decide ((entryText lib stream line).length < maxTokenSize) = true := by
    rw [length_entryText, decide_eq_true_iff]
    exact not_lt.2 hlong
  have herror : decide (maxTokenSize ≤ (entryText lib stream line).length) = true := by
    rw [length_entryText]
    exact decide_eq_true hlong
  have htokens : (texts lib f false before ++ entryText lib stream line :: texts lib f true after).takeWhile
      (fun t => decide (t.length < maxTokenSize)) = texts lib f false before := by
    rw [List.takeWhile_append_of_pos hfits,
      List.takeWhile_cons_of_neg (p := fun t : Bytes => decide (t.length < maxTokenSize)) hstop, List.append_nil]
  unfold scanNDJSON scanTokens
  rw [scanLines_pipe, happend, htokens, List.any_append, List.any_cons, herror, Bool.true_or, Bool.or_true]
  dsimp only
  rw [trimCR_texts, filterMap_texts h]

end Stream

/-! ## Short lines -/

/-- **Short lines.** An entry takes at most twelve bytes for each byte of its line. -/
theorem entrySize_le (lib : Library) (stream : Stream) (line : Bytes) :
    entrySize lib stream line ≤ 12 * line.length + 6 * (lib.timeText line).length + 74 := by
  have hmessage : (entryOf lib stream line).message.length ≤ line.length :=
    Timestamp.length_message_le lib.timeParse lib.DetectLogLevel line stream
  have hlevel : (levelText (entryOf lib stream line).level).length ≤ 7 := by
    cases (entryOf lib stream line).level <;> decide
  have hstream : (streamText stream).length = 6 := by cases stream <;> rfl
  have htime := GoJson.excess_le (lib.timeText line)
  have hraw := GoJson.excess_le line
  have hclean := GoJson.excess_le (entryOf lib stream line).message
  unfold entrySize
  dsimp only
  omega

/-! ## Long lines -/

/-- no timestamp is found, and the zero time is printed -/
def plainLibrary : Library := ⟨fun _ _ => none, fun _ => .unknown, fun _ => ascii "0001-01-01T00:00:00Z"⟩

/-- knows the heartbeat -/
def plainProbe (line : Bytes) : Option Bytes := if line = heartbeat then some (ascii "heartbeat") else some []

theorem plainProbe_probesType : ProbesType plainProbe where
  heartbeat := if_pos rfl
  other fields hnames := by
    refine if_neg fun heq => ?_
    cases fields with
    | nil => exact absurd heq (by decide)
    | cons f fields =>
      obtain ⟨hletters, htype⟩ := hnames f List.mem_cons_self
      have hquote : (0x22 : UInt8) ∉ f.1 := fun hmem => absurd (List.all_eq_true.1 hletters _ hmem) (by decide)
      have hname : f.1 = ascii "type" := GoJson.object_name hquote (by decide) heq
      rw [hname] at htype
      exact htype (by decide)

/-- a quotation with markup, and two ticks: the second one sends a heartbeat -/
theorem follows_iff_markup :
    let events : List Event := [.line .stdout (ascii "<b>\"ready\"</b>"), .tick, .tick, .line .stderr (ascii "ok")]
    Fits plainLibrary {} events ∧ HandsOn plainLibrary {} plainProbe events :=
  (follows_iff plainProbe_probesType _).2 (by decide +kernel)

/-- as long as a line may be -/
def controlLine : Bytes := List.replicate Docker.maxLineBufferSize 1

theorem controlLine_emitted : controlLine ∈ Docker.streamingLogWriter.copyRaw [] [controlLine ++ [newline]] := by
  have hplain : newline ∉ controlLine := fun h => absurd (List.eq_of_mem_replicate h) (by decide)
  have hsplit : splitLines ([] ++ (controlLine ++ [newline])) = ([controlLine], []) := splitLines_line hplain []
  have hne : controlLine ≠ [] := List.ne_nil_of_length_pos (by rw [controlLine, List.length_replicate]; decide)
  have htrim : trimCR controlLine = controlLine := by
    refine if_neg fun hlast => ?_
    exact absurd (List.eq_of_mem_replicate (List.mem_of_getLast? hlast)) (by decide)
  have hwrite := Docker.write_eq (b := []) (p := controlLine ++ [newline]) (by rw [hsplit]; exact Nat.zero_le _)
  rw [hsplit] at hwrite
  rw [Docker.writers_agree.1, Docker.LineWriter.copyRaw, hwrite]
  simp [hne, htrim]

theorem controlLine_size (lib : Library) (stream : Stream) : maxTokenSize ≤ entrySize lib stream controlLine := by
  have hexcess : excess controlLine = Docker.maxLineBufferSize * 5 := GoJson.excess_replicate (by decide) _
  have hlen : controlLine.length = Docker.maxLineBufferSize := List.length_replicate
  unfold entrySize
  dsimp only
  rw [hexcess, hlen]
  unfold Docker.maxLineBufferSize maxTokenSize
  omega

theorem keepsLine_unfiltered (lib : Library) (stream : Stream) (line : Bytes) : keepsLine lib {} stream line = true := by
  simp [keepsLine, Docker.Filter.passesLevel, Docker.Filter.passesSearch]

/-- **Control characters.** The writer emits the line; its entry does not fit, and the entry after it is lost. -/
theorem control_line_ends_follow :
    controlLine ∈ Docker.streamingLogWriter.copyRaw [] [controlLine ++ [newline]] ∧
    controlLine.length ≤ Docker.maxLineBufferSize ∧
    ¬ (entryText plainLibrary .stdout controlLine).length < maxTokenSize ∧
    scanNDJSON plainProbe (newParsedLogStream plainLibrary {}
      [.line .stdout controlLine, .line .stdout (ascii "ok")]) = ([], true) := by
  have hlong := controlLine_size plainLibrary .stdout
  refine ⟨controlLine_emitted, List.length_replicate.le, ?_, ?_⟩
  · rw [length_entryText]
    exact not_lt.2 hlong
  · have hnone : Fits plainLibrary {} [] := fun _ ht => absurd ht List.not_mem_nil
    exact long_line_ends plainProbe_probesType hnone (keepsLine_unfiltered _ _ _) hlong [.line .stdout (ascii "ok")]

end LogDeck.Cli
