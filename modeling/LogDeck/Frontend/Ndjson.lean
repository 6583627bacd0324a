/-
A stream of JSON values, one a line, from the server to the frontend (`aggregate_logs_handlers.go`: `writeNDJSONStream`;
`ndjson.ts`: `iterateNDJSONStream`).

The encoder of the server writes each value, an entry or a heartbeat, as a text followed by a newline. The handler copies
what it reads, and flushes after each read; the network cuts the bytes anew. The generator keeps two leftovers between
chunks: the bytes of a character in its decoder, and the beginning of a line in its buffer.

What the encoder makes of a value and `JSON.parse` of a text are parameters.

Results:
- `iterate_eq`: whatever the chunks, the lines of the whole text are parsed, blank ones and those that do not parse left
  out;
- `ndjson_lossless`: the values that were written are yielded.
-/
import LogDeck.Frontend.Grouper
import LogDeck.Lib.TextDecoder

namespace LogDeck.Frontend.Ndjson

open TextDecoder

variable {V : Type}

/-! ## The two sides -/

/-- what the encoder writes for a list of values -/
def wire (encode : V → String) (values : List V) : List UInt8 :=
  values.flatMap fun v => TextDecoder.encode (encode v).toList ++ [10]

/-- the writes of the handler: one for each read that returns bytes -/
def writeNDJSONStream (reads : List (List UInt8)) : List (List UInt8) := reads.filter fun p => p.length > 0

section
variable (parse : String → Option V)

/-- a line that is not blank is parsed; `none` when it is passed over -/
def parseLine (line : List Char) : Option V :=
  if trim (String.ofList line) = "" then none else parse (String.ofList line)

/-- the variables of the generator -/
structure Reader where
  decoder : Decoder := {}
  buffer : List Char := []

/-- `buffer.split("\n")`, with a chunk added to the buffer -/
def Reader.lines (r : Reader) (value : List UInt8) : List (List Char) :=
  (r.buffer ++ (r.decoder.decode value).1).splitOn '\n'

/-- a chunk: the last line stays in the buffer -/
def Reader.read (r : Reader) (value : List UInt8) : Reader :=
  { decoder := (r.decoder.decode value).2, buffer := (r.lines value).getLast?.getD [] }

/-- the loop from turn `n` on, and what it yields; `aborted n` is what the signal says at that turn -/
def loop (aborted : ℕ → Bool) : ℕ → Reader → List (List UInt8) → List V
  | _, r, [] => (parseLine parse r.buffer).toList
  | n, r, value :: chunks =>
    if aborted n then (parseLine parse r.buffer).toList
    else (r.lines value).dropLast.filterMap (parseLine parse) ++ loop aborted (n + 1) (r.read value) chunks

def iterateNDJSONStream (aborted : ℕ → Bool) (chunks : List (List UInt8)) : List V := loop parse aborted 0 {} chunks

end

/-! ## Chunks -/

/-- what is left of a first piece of text goes in front of the second one -/
theorem splitOn_append (a b : List Char) : (a ++ b).splitOn '\n' =
    (a.splitOn '\n').dropLast ++ ((a.splitOn '\n').getLast?.getD [] ++ b).splitOn '\n' := by
  induction a with
  | nil => rw [List.splitOn_nil]; rfl
  | cons c cs ih =>
    obtain ⟨init, last, hsplit⟩ := List.eq_nil_or_concat' (cs.splitOn '\n') |>.resolve_left (List.splitOn_ne_nil _ _)
    rw [hsplit, List.dropLast_concat, List.getLast?_concat, Option.getD_some] at ih
    rw [List.cons_append, List.splitOn_cons_eq_if_modifyHead, List.splitOn_cons_eq_if_modifyHead c cs, hsplit, ih]
    by_cases hc : c = '\n'
    · rw [if_pos (beq_iff_eq.2 hc), if_pos (beq_iff_eq.2 hc)]
      have hcons : [] :: (init ++ [last]) = ([] :: init) ++ [last] := rfl
      rw [hcons, List.dropLast_concat, List.getLast?_concat]
      rfl
    · have hne : ¬ (c == '\n') = true := fun h => hc (beq_iff_eq.1 h)
      rw [if_neg hne, if_neg hne]
      cases init with
      | nil =>
        have hone : ((last ++ b).splitOn '\n').modifyHead (List.cons c) = (c :: last ++ b).splitOn '\n' := by
          rw [List.cons_append, List.splitOn_cons_eq_if_modifyHead, if_neg hne]
        exact hone
      | cons line init =>
        have hcons : List.modifyHead (List.cons c) (line :: init ++ [last]) = ((c :: line) :: init) ++ [last] := rfl
        rw [hcons, List.dropLast_concat, List.getLast?_concat]
        rfl

theorem newline_notMem_line {text line : List Char} (h : line ∈ text.splitOn '\n') : '\n' ∉ line := by
  induction text generalizing line with
  | nil =>
    rw [List.splitOn_nil, List.mem_singleton] at h
    rw [h]
    exact List.not_mem_nil
  | cons c cs ih =>
    rw [List.splitOn_cons_eq_if_modifyHead] at h
    by_cases hc : c = '\n'
    · rw [if_pos (beq_iff_eq.2 hc)] at h
      rcases List.mem_cons.1 h with rfl | h
      · exact List.not_mem_nil
      · exact ih h
    · rw [if_neg fun heq => hc (beq_iff_eq.1 heq)] at h
      cases hsplit : cs.splitOn '\n' with
      | nil => exact absurd hsplit (List.splitOn_ne_nil _ _)
      | cons first rest =>
        rw [hsplit, List.modifyHead_cons] at h
        rcases List.mem_cons.1 h with rfl | h
        · rw [List.mem_cons, not_or]
          exact ⟨fun heq => hc heq.symm, ih (hsplit ▸ List.mem_cons_self)⟩
        · exact ih (hsplit ▸ List.mem_cons_of_mem first h)

/-- the buffer holds no whole line -/
theorem newline_notMem_buffer (r : Reader) (value : List UInt8) : '\n' ∉ (r.read value).buffer := by
  have hne : r.lines value ≠ [] := List.splitOn_ne_nil _ _
  unfold Reader.read
  dsimp only
  rw [List.getLast?_eq_some_getLast hne, Option.getD_some]
  exact newline_notMem_line (List.getLast_mem hne)

/-- **Chunks do not matter.** The lines of the whole text are parsed. -/
theorem loop_eq (parse : String → Option V) (n : ℕ) {r : Reader} (hr : '\n' ∉ r.buffer) (chunks : List (List UInt8)) :
    loop parse (fun _ => false) n r chunks =
      ((r.buffer ++ (r.decoder.decode chunks.flatten).1).splitOn '\n').filterMap (parseLine parse) := by
  induction chunks generalizing n r with
  | nil =>
    have hdecode : (r.decoder.decode []).1 = [] := rfl
    rw [List.flatten_nil, hdecode, List.append_nil, List.splitOn_eq_singleton hr, loop]
    cases hline : parseLine parse r.buffer with
    | none => rw [List.filterMap_cons_none hline]; rfl
    | some v => rw [List.filterMap_cons_some hline]; rfl
  | cons value chunks ih =>
    have hlines : r.lines value = (r.buffer ++ (r.decoder.decode value).1).splitOn '\n' := rfl
    have hbuffer : (r.read value).buffer = (r.lines value).getLast?.getD [] := rfl
    have hdecoder : (r.read value).decoder = (r.decoder.decode value).2 := rfl
    rw [loop, if_neg Bool.false_ne_true, ih (n + 1) (newline_notMem_buffer r value), List.flatten_cons, decode_append,
      ← List.append_assoc, splitOn_append (r.buffer ++ _), List.filterMap_append, ← hlines, ← hbuffer, ← hdecoder]

theorem iterate_eq (parse : String → Option V) (chunks : List (List UInt8)) :
    iterateNDJSONStream parse (fun _ => false) chunks =
      ((({} : Decoder).decode chunks.flatten).1.splitOn '\n').filterMap (parseLine parse) :=
  loop_eq parse 0 List.not_mem_nil chunks

theorem writeNDJSONStream_flatten (reads : List (List UInt8)) : (writeNDJSONStream reads).flatten = reads.flatten := by
  induction reads with
  | nil => rfl
  | cons p reads ih =>
    unfold writeNDJSONStream at ih ⊢
    cases p with
    | nil => exact ih
    | cons b p => rw [List.filter_cons_of_pos (by simp), List.flatten_cons, List.flatten_cons, ih]

/-! ## Values -/

section
variable {encode : V → String} {parse : String → Option V}

/-- the text that the values are written as -/
def textOfValues (encode : V → String) (values : List V) : List Char :=
  values.flatMap fun v => (encode v).toList ++ ['\n']

theorem wire_eq (encode : V → String) (values : List V) :
    wire encode values = TextDecoder.encode (textOfValues encode values) := by
  induction values with
  | nil => rfl
  | cons v values ih =>
    unfold wire textOfValues at ih ⊢
    rw [List.flatMap_cons, List.flatMap_cons, ih]
    unfold TextDecoder.encode
    rw [List.flatMap_append, List.flatMap_append]
    rfl

theorem parseLine_encode (hparse : ∀ v, parse (encode v) = some v) (hblank : ∀ s, trim s = "" → parse s = none) (v : V) :
    parseLine parse (encode v).toList = some v := by
  unfold parseLine
  rw [String.ofList_toList]
  split_ifs with h
  · have hnone := hblank _ h
    rw [hparse v] at hnone
    cases hnone
  · exact hparse v

theorem lines_parsed (hline : ∀ v, '\n' ∉ (encode v).toList) (hparse : ∀ v, parse (encode v) = some v)
    (hblank : ∀ s, trim s = "" → parse s = none) (values : List V) :
    ((textOfValues encode values).splitOn '\n').filterMap (parseLine parse) = values := by
  induction values with
  | nil =>
    have hempty : parseLine parse [] = none := if_pos rfl
    have htext : textOfValues encode ([] : List V) = [] := rfl
    rw [htext, List.splitOn_nil, List.filterMap_cons_none hempty, List.filterMap_nil]
  | cons v values ih =>
    have htext : textOfValues encode (v :: values) = (encode v).toList ++ '\n' :: textOfValues encode values := by
      unfold textOfValues
      rw [List.flatMap_cons, List.append_assoc]
      rfl
    rw [htext, List.splitOn_append_cons_self_of_not_mem (hline v),
      List.filterMap_cons_some (parseLine_encode hparse hblank v), ih]

/-- the first value does not start with a byte order mark, which no JSON text does -/
theorem head_textOfValues (hparse : ∀ v, parse (encode v) = some v)
    (hmark : ∀ text, parse (String.ofList (byteOrderMark :: text)) = none) (values : List V) :
    (textOfValues encode values).head? ≠ some byteOrderMark := by
  cases values with
  | nil => exact nofun
  | cons v values =>
    intro h
    unfold textOfValues at h
    rw [List.flatMap_cons] at h
    cases htext : (encode v).toList with
    | nil =>
      rw [htext] at h
      exact absurd (Option.some.inj h) (by decide)
    | cons c cs =>
      rw [htext] at h
      obtain rfl : c = byteOrderMark := Option.some.inj h
      have hself : encode v = String.ofList (byteOrderMark :: cs) := by rw [← htext, String.ofList_toList]
      have hnone := hmark cs
      rw [← hself, hparse v] at hnone
      cases hnone

end

/-- **Nothing is lost on the way.** The encoder writes no newline inside a value, and `JSON.parse` reads back what it
writes; it refuses blank texts, and texts that start with a byte order mark. However the handler's reads and the network
cut the bytes, the values that were written are yielded, in order. -/
theorem ndjson_lossless (encode : V → String) (parse : String → Option V) (hline : ∀ v, '\n' ∉ (encode v).toList)
    (hparse : ∀ v, parse (encode v) = some v) (hblank : ∀ s, trim s = "" → parse s = none)
    (hmark : ∀ text, parse (String.ofList (byteOrderMark :: text)) = none) (values : List V)
    (reads : List (List UInt8)) (hreads : reads.flatten = wire encode values) (chunks : List (List UInt8))
    (hchunks : chunks.flatten = (writeNDJSONStream reads).flatten) :
    iterateNDJSONStream parse (fun _ => false) chunks = values := by
  rw [iterate_eq, hchunks, writeNDJSONStream_flatten, hreads, wire_eq,
    decode_encode (head_textOfValues hparse hmark values)]
  exact lines_parsed hline hparse hblank values

/-! ## A heartbeat and an entry -/

inductive Value where
  | heartbeat
  | cafe
deriving DecidableEq, Repr

def Value.text : Value → String
  | .heartbeat => "\x7b\"type\":\"heartbeat\"\x7d"
  | .cafe => "\x7b\"message\":\"café\"\x7d"

/-- reads the two texts -/
def parseValue (s : String) : Option Value :=
  if s = Value.heartbeat.text then some .heartbeat else if s = Value.cafe.text then some .cafe else none

/-- cut inside the last letter, and between a value and its newline -/
theorem ndjson_lossless_cafe :
    iterateNDJSONStream parseValue (fun _ => false)
      [(wire Value.text [.cafe]).take 16, (wire Value.text [.cafe]).drop 16,
        (wire Value.text [.heartbeat]).dropLast, [10]] = [.cafe, .heartbeat] := by
  refine ndjson_lossless Value.text parseValue ?_ ?_ ?_ ?_ [.cafe, .heartbeat]
    [wire Value.text [.cafe, .heartbeat]] ?_ _ ?_
  · rintro (_ | _) <;> decide
  · rintro (_ | _) <;> decide
  · intro s hs
    unfold parseValue
    split_ifs with h1 h2
    · exact absurd (h1 ▸ hs) (by decide)
    · exact absurd (h2 ▸ hs) (by decide)
    · rfl
  · intro text
    have hhead : ∀ v : Value, String.ofList (byteOrderMark :: text) ≠ v.text := by
      intro v heq
      have hchars := congrArg String.toList heq
      rw [String.toList_ofList] at hchars
      have hfirst := congrArg List.head? hchars
      cases v <;> exact absurd (Option.some.inj hfirst) (by decide)
    unfold parseValue
    rw [if_neg (hhead _), if_neg (hhead _)]
  · decide
  · decide

end LogDeck.Frontend.Ndjson
