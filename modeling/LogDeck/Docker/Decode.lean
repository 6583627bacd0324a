/-
The three decoders of a container's log (`docker/logs.go`: `parseDockerLogs`, `newParsedLogStream`, `logWriter`,
`streamingLogWriter`; `docker/logs_tail.go`: `tailLogStream`, `callbackLogWriter`).

The engine serves the log of a container without a TTY as frames and the log of one with a TTY as it is. Only the tail,
which feeds the log store and the alerts, asks which of the two it reads. What is modelled is the sequence of
(stream, line) pairs handed to `ParseLogLine`, before grouping and filtering; the encoder never fails, as it does once
the client is gone.

`stdcopy.StdCopy` is a parameter: the writes it makes, in order, and whether it returns an error. `IsStdCopy` is what it
does with a stream: the 8 leading bytes are a header, whatever they are.

Results:
- `writers_agree`: the three writers turn the same writes into the same lines;
- `copy_frames`: what `StdCopy` makes of a framed stream;
- `views_agree_iff`: the three views decode the same lines from a framed stream unless the engine reports an error after
  a line, and from a raw one only if it has no line at all;
- `tty_line_lost`: a greeting on a terminal.
-/
import LogDeck.LogStore.Schema

namespace LogDeck.Docker

open LogDeck.LogStore (Stream)

abbrev Bytes := List UInt8

/-! ## The writers -/

def newline : UInt8 := 10
def carriageReturn : UInt8 := 13

/-- 1 MiB -/
def maxLineBufferSize : ℕ := 2 ^ 20

/-- `strings.TrimSuffix(line, "\r")` -/
def trimCR (line : Bytes) : Bytes := if line.getLast? = some carriageReturn then line.dropLast else line

/-- the lines that end in a buffer, without their newlines, and what is left of it -/
def splitLines : Bytes → List Bytes × Bytes
  | [] => ([], [])
  | c :: cs =>
    if c = newline then ([] :: (splitLines cs).1, (splitLines cs).2)
    else
      match (splitLines cs).1 with
      | [] => ([], c :: (splitLines cs).2)
      | line :: lines => ((c :: line) :: lines, (splitLines cs).2)

/-- what a call of a writer emits, and the buffer it leaves -/
structure Wrote where
  lines : List Bytes
  buffer : Bytes
deriving DecidableEq, Repr

/-- `Write`; `oversized` is what the writer emits of a buffer that has outgrown `maxLineBufferSize` -/
def writeLines (oversized : Bytes → List Bytes) (buffer p : Bytes) : Wrote :=
  let lines := ((splitLines (buffer ++ p)).1.filter fun line => line ≠ []).map trimCR
  let rest := (splitLines (buffer ++ p)).2
  if maxLineBufferSize < rest.length then ⟨lines ++ oversized rest, []⟩ else ⟨lines, rest⟩

/-- `Flush` -/
def flushLine (buffer : Bytes) : List Bytes := if trimCR buffer ≠ [] then [trimCR buffer] else []

structure LineWriter where
  write : Bytes → Bytes → Wrote
  flush : Bytes → List Bytes

def logWriter : LineWriter := ⟨writeLines flushLine, flushLine⟩
def callbackLogWriter : LineWriter := ⟨writeLines flushLine, flushLine⟩

/-- emits an oversized buffer itself, without asking whether anything is left of it -/
def streamingLogWriter : LineWriter := ⟨writeLines fun buffer => [trimCR buffer], flushLine⟩

namespace LineWriter

/-- two writers that are written to in turns, from the buffers `out` and `err`, and then flushed -/
def copyOut (w : LineWriter) : Bytes → Bytes → List (Stream × Bytes) → List (Stream × Bytes)
  | out, err, [] => (w.flush out).map (Stream.stdout, ·) ++ (w.flush err).map (Stream.stderr, ·)
  | out, err, (.stdout, p) :: writes =>
    (w.write out p).lines.map (Stream.stdout, ·) ++ w.copyOut (w.write out p).buffer err writes
  | out, err, (.stderr, p) :: writes =>
    (w.write err p).lines.map (Stream.stderr, ·) ++ w.copyOut out (w.write err p).buffer writes

/-- one writer that is written to, from a buffer, and then flushed -/
def copyRaw (w : LineWriter) : Bytes → List Bytes → List Bytes
  | buffer, [] => w.flush buffer
  | buffer, p :: chunks => (w.write buffer p).lines ++ w.copyRaw (w.write buffer p).buffer chunks

end LineWriter

/-! ## The three views -/

/-- the writes of `StdCopy` and whether it returns an error -/
abbrev Copy := Bytes → List (Stream × Bytes) × Bool

def parseDockerLogs (stdCopy : Copy) (logs : Bytes) : Except Unit (List (Stream × Bytes)) :=
  if (stdCopy logs).2 then .error () else .ok (logWriter.copyOut [] [] (stdCopy logs).1)

/-- the lines on the pipe, and whether it is closed with an error -/
def newParsedLogStream (stdCopy : Copy) (logs : Bytes) : List (Stream × Bytes) × Bool :=
  (streamingLogWriter.copyOut [] [] (stdCopy logs).1, (stdCopy logs).2)

/-- the lines emitted, and whether an error is returned; `io.Copy` writes a raw stream in the chunks it comes in -/
def tailLogStream (stdCopy : Copy) (tty : Bool) (logs : List Bytes) : List (Stream × Bytes) × Bool :=
  if tty then ((callbackLogWriter.copyRaw [] logs).map (Stream.stdout, ·), false)
  else (callbackLogWriter.copyOut [] [] (stdCopy logs.flatten).1, (stdCopy logs.flatten).2)

/-- the lines a request gets: none when it fails -/
def oneShotLines (stdCopy : Copy) (logs : Bytes) : List (Stream × Bytes) :=
  match parseDockerLogs stdCopy logs with
  | .ok lines => lines
  | .error _ => []

/-! ## The stream of the engine -/

inductive StdType where
  | stdin
  | stdout
  | stderr
  | systemerr
deriving DecidableEq, Repr

def StdType.byte : StdType → UInt8
  | .stdin => 0
  | .stdout => 1
  | .stderr => 2
  | .systemerr => 3

/-- where `StdCopy` writes the frames of a type -/
def StdType.stream : StdType → Stream
  | .stderr => .stderr
  | _ => .stdout

/-- the size in a header, big endian -/
def sizeOf (a b c d : UInt8) : ℕ := ((a.toNat * 256 + b.toNat) * 256 + c.toNat) * 256 + d.toNat

def sizeBytes (n : ℕ) : Bytes :=
  [UInt8.ofNat (n / 256 ^ 3), UInt8.ofNat (n / 256 ^ 2), UInt8.ofNat (n / 256), UInt8.ofNat n]

structure Frame where
  kind : StdType
  payload : Bytes
  fits : payload.length < 2 ^ 32

def Frame.encode (f : Frame) : Bytes := f.kind.byte :: 0 :: 0 :: 0 :: sizeBytes f.payload.length ++ f.payload

/-- a frame that lacks its end: the connection was cut within it -/
structure CutFrame where
  frame : Frame
  kept : ℕ
  lacks : kept < frame.encode.length

def CutFrame.encode (c : CutFrame) : Bytes := c.frame.encode.take c.kept

/-- what the engine serves: frames, or the bytes of the terminal in the chunks they come in -/
inductive Served where
  | framed (frames : List Frame) (cut : Option CutFrame)
  | raw (chunks : List Bytes)

namespace Served

def tty : Served → Bool
  | framed _ _ => false
  | raw _ => true

def chunks : Served → List Bytes
  | framed frames cut => frames.map Frame.encode ++ cut.toList.map CutFrame.encode
  | raw chunks => chunks

end Served

/-- `StdCopy` reads a header of 8 bytes: the type, three bytes it skips and the size. It returns without an error at the
end of the stream, also within a frame. -/
structure IsStdCopy (stdCopy : Copy) : Prop where
  short : ∀ logs, logs.length < 8 → stdCopy logs = ([], false)
  unrecognized : ∀ kind s₁ s₂ s₃ a b c d rest, 3 < kind →
    stdCopy (kind :: s₁ :: s₂ :: s₃ :: a :: b :: c :: d :: rest) = ([], true)
  torn : ∀ kind s₁ s₂ s₃ a b c d rest, kind ≤ 3 → rest.length < sizeOf a b c d →
    stdCopy (kind :: s₁ :: s₂ :: s₃ :: a :: b :: c :: d :: rest) = ([], false)
  systemerr : ∀ s₁ s₂ s₃ a b c d rest, sizeOf a b c d ≤ rest.length →
    stdCopy (StdType.systemerr.byte :: s₁ :: s₂ :: s₃ :: a :: b :: c :: d :: rest) = ([], true)
  frame : ∀ kind : StdType, kind ≠ .systemerr → ∀ s₁ s₂ s₃ a b c d rest, sizeOf a b c d ≤ rest.length →
    stdCopy (kind.byte :: s₁ :: s₂ :: s₃ :: a :: b :: c :: d :: rest) =
      ((kind.stream, rest.take (sizeOf a b c d)) :: (stdCopy (rest.drop (sizeOf a b c d))).1,
        (stdCopy (rest.drop (sizeOf a b c d))).2)

/-! ## Agreement -/

/-- the three views of a log show the same lines -/
def ViewsAgree (stdCopy : Copy) (served : Served) : Prop :=
  oneShotLines stdCopy served.chunks.flatten = (newParsedLogStream stdCopy served.chunks.flatten).1 ∧
    (newParsedLogStream stdCopy served.chunks.flatten).1 = (tailLogStream stdCopy served.tty served.chunks).1

/-- no line at all: only newlines, with at most one carriage return after them -/
def Blank (b : Bytes) : Prop :=
  b.dropWhile (· = newline) = [] ∨ b.dropWhile (· = newline) = [carriageReturn]

/-- the bytes of one of the streams -/
def payloads (stream : Stream) (frames : List Frame) : Bytes :=
  ((frames.filter fun f => f.kind.stream = stream).map Frame.payload).flatten

/-- a framed log has no error of the engine in it, or no line before the first; a raw log has no line -/
def Agreeable : Served → Prop
  | .framed frames _ =>
    (∀ f ∈ frames, f.kind ≠ .systemerr) ∨
      ∀ stream, Blank (payloads stream (frames.takeWhile fun f => f.kind ≠ .systemerr))
  | .raw chunks => Blank chunks.flatten

/-! ## Lines -/

theorem splitLines_nil_left {b : Bytes} (h : (splitLines b).1 = []) : (splitLines b).2 = b := by
  cases b with
  | nil => rfl
  | cons c cs =>
    simp only [splitLines] at h ⊢
    by_cases hc : c = newline
    · simp [hc] at h
    · rw [if_neg hc] at h ⊢
      cases hl : (splitLines cs).1 with
      | nil => simp [splitLines_nil_left hl]
      | cons line lines => simp [hl] at h

theorem blank_newline {b : Bytes} : Blank (newline :: b) ↔ Blank b := by simp [Blank]

theorem blank_cons {c : UInt8} {b : Bytes} (hc : c ≠ newline) : Blank (c :: b) ↔ c = carriageReturn ∧ b = [] := by
  simp [Blank, hc]

/-- bytes are blank when the lines that end in them are empty and what is left, with what follows, is blank -/
theorem blank_splitLines (b q : Bytes) :
    Blank (b ++ q) ↔ (∀ line ∈ (splitLines b).1, line = []) ∧ Blank ((splitLines b).2 ++ q) := by
  induction b with
  | nil => simp [splitLines]
  | cons c cs ih =>
    by_cases hc : c = newline
    · rw [List.cons_append, hc, blank_newline, ih]
      simp [splitLines]
    · cases hl : (splitLines cs).1 with
      | nil => simp [splitLines, hc, hl, splitLines_nil_left hl]
      | cons line lines =>
        have hne : cs ≠ [] := by
          rintro rfl
          simp [splitLines] at hl
        rw [List.cons_append, blank_cons hc]
        simp [splitLines, hc, hl, hne]

/-- a line that is only a carriage return is shown as an empty line; at the end of the log it is not shown -/
theorem flushLine_eq_nil {b : Bytes} : flushLine b = [] ↔ b = [] ∨ b = [carriageReturn] := by
  have htrim : trimCR b = [] ↔ b = [] ∨ b = [carriageReturn] := by
    unfold trimCR
    split_ifs with h
    · obtain ⟨b', rfl⟩ : ∃ b', b = b' ++ [carriageReturn] := by
        rw [List.getLast?_eq_some_iff] at h
        exact h
      simp
    · constructor
      · exact Or.inl
      · rintro (e | e)
        · exact e
        · simp [e] at h
  unfold flushLine
  split_ifs with h
  · simp [← htrim, h]
  · simp only [true_iff]
    exact htrim.1 (not_not.1 h)

theorem newline_notMem_rest (b : Bytes) : newline ∉ (splitLines b).2 := by
  induction b with
  | nil => simp [splitLines]
  | cons c cs ih =>
    by_cases hc : c = newline
    · simpa [splitLines, hc] using ih
    · cases hl : (splitLines cs).1 with
      | nil =>
        simp only [splitLines, if_neg hc, hl, List.mem_cons, not_or]
        exact ⟨fun e => hc e.symm, ih⟩
      | cons line lines => simpa [splitLines, hc, hl] using ih

/-- blank bytes that come after an unfinished line: there is next to nothing on it -/
theorem Blank.of_append {b q : Bytes} (hb : newline ∉ b) (h : Blank (b ++ q)) :
    b = [] ∨ b = [carriageReturn] ∧ q = [] := by
  cases b with
  | nil => exact Or.inl rfl
  | cons c cs =>
    have hc : c ≠ newline := fun e => hb (by simp [e])
    rw [List.cons_append, blank_cons hc] at h
    obtain ⟨rfl, he⟩ := h
    obtain ⟨rfl, rfl⟩ := List.append_eq_nil_iff.1 he
    exact Or.inr ⟨rfl, rfl⟩

theorem blank_iff_flush {b : Bytes} (hb : newline ∉ b) : Blank b ↔ flushLine b = [] := by
  rw [flushLine_eq_nil]
  constructor
  · intro h
    rcases Blank.of_append (q := []) hb (by simpa using h) with e | ⟨e, _⟩
    · exact Or.inl e
    · exact Or.inr e
  · rintro (rfl | rfl)
    · exact Or.inl rfl
    · exact Or.inr rfl

theorem flush_oversized {b : Bytes} (h : maxLineBufferSize < b.length) : flushLine b = [trimCR b] := by
  by_cases e : trimCR b = []
  · have hnil : flushLine b = [] := by simp [flushLine, e]
    rcases flushLine_eq_nil.1 hnil with rfl | rfl <;> simp [maxLineBufferSize] at h
  · simp [flushLine, e]

/-- **The writers agree.** An oversized buffer is never empty once trimmed, so the three writers do the same. -/
theorem writers_agree : streamingLogWriter = logWriter ∧ callbackLogWriter = logWriter := by
  have hwrite : writeLines (fun buffer => [trimCR buffer]) = writeLines flushLine := by
    funext buffer p
    unfold writeLines
    dsimp only
    split_ifs with h
    · rw [flush_oversized h]
    · rfl
  exact ⟨by rw [streamingLogWriter, hwrite, logWriter], rfl⟩

theorem newline_notMem_buffer (b p : Bytes) : newline ∉ (logWriter.write b p).buffer := by
  simp only [logWriter, writeLines]
  split_ifs
  · simp
  · exact newline_notMem_rest _

/-- a call that emits nothing leaves what was blank blank; one that emits a line has not read blank bytes -/
theorem blank_write (b p q : Bytes) :
    Blank (b ++ p ++ q) ↔ (logWriter.write b p).lines = [] ∧ Blank ((logWriter.write b p).buffer ++ q) := by
  have hlines : ((splitLines (b ++ p)).1.filter fun line => line ≠ []).map trimCR = [] ↔
      ∀ line ∈ (splitLines (b ++ p)).1, line = [] := by
    simp [List.filter_eq_nil_iff]
  rw [blank_splitLines]
  simp only [logWriter, writeLines]
  split_ifs with h
  · constructor
    · intro ⟨_, hb⟩
      rcases hb.of_append (newline_notMem_rest _) with e | ⟨e, _⟩ <;> simp [e, maxLineBufferSize] at h
    · intro ⟨hnil, _⟩
      simp [flush_oversized h] at hnil
  · rw [hlines]

namespace LineWriter

/-- the bytes written to one of two writers -/
def written (stream : Stream) (writes : List (Stream × Bytes)) : Bytes :=
  ((writes.filter fun w => w.1 = stream).map Prod.snd).flatten

theorem written_self (stream : Stream) (p : Bytes) (writes : List (Stream × Bytes)) :
    written stream ((stream, p) :: writes) = p ++ written stream writes := by simp [written]

theorem written_other {stream stream' : Stream} (h : stream' ≠ stream) (p : Bytes) (writes : List (Stream × Bytes)) :
    written stream ((stream', p) :: writes) = written stream writes := by simp [written, h]

/-- nothing is decoded from what is blank on both streams, and from nothing else -/
theorem copyOut_eq_nil (writes : List (Stream × Bytes)) {out err : Bytes} (ho : newline ∉ out) (he : newline ∉ err) :
    logWriter.copyOut out err writes = [] ↔
      Blank (out ++ written .stdout writes) ∧ Blank (err ++ written .stderr writes) := by
  induction writes generalizing out err with
  | nil => simp [copyOut, written, blank_iff_flush ho, blank_iff_flush he, logWriter]
  | cons w writes ih =>
    obtain ⟨stream, p⟩ := w
    cases stream with
    | stdout =>
      rw [written_self, written_other (by decide), ← List.append_assoc, blank_write out p, and_assoc,
        ← ih (newline_notMem_buffer out p) he]
      simp [copyOut]
    | stderr =>
      rw [written_self, written_other (by decide), ← List.append_assoc, blank_write err p, and_left_comm,
        ← ih ho (newline_notMem_buffer err p)]
      simp [copyOut]

theorem copyRaw_eq_nil (chunks : List Bytes) {buffer : Bytes} (hb : newline ∉ buffer) :
    logWriter.copyRaw buffer chunks = [] ↔ Blank (buffer ++ chunks.flatten) := by
  induction chunks generalizing buffer with
  | nil => simp [copyRaw, blank_iff_flush hb, logWriter]
  | cons p chunks ih =>
    rw [List.flatten_cons, ← List.append_assoc, blank_write buffer p, ← ih (newline_notMem_buffer buffer p)]
    simp [copyRaw]

end LineWriter

/-! ## Text

The bytes of a log that are neither newlines nor carriage returns: every writer passes all of them on, and `StdCopy`
drops at least the first of every header. -/

def isText (c : UInt8) : Bool := c ≠ newline && c ≠ carriageReturn

def text (b : Bytes) : ℕ := b.countP isText

@[simp] theorem text_nil : text [] = 0 := rfl

@[simp] theorem text_append (b q : Bytes) : text (b ++ q) = text b + text q := List.countP_append

theorem text_splitLines (b : Bytes) : ((splitLines b).1.map text).sum + text (splitLines b).2 = text b := by
  induction b with
  | nil => rfl
  | cons c cs ih =>
    by_cases hc : c = newline
    · simpa [splitLines, hc, text, isText] using ih
    · obtain ⟨n, hcons⟩ : ∃ n, ∀ line, text (c :: line) = n + text line := ⟨text [c], fun line => text_append [c] line⟩
      cases hl : (splitLines cs).1 with
      | nil =>
        simp only [splitLines, if_neg hc, hl, List.map_nil, List.sum_nil, hcons] at ih ⊢
        omega
      | cons line lines =>
        simp only [splitLines, if_neg hc, hl, List.map_cons, List.sum_cons, hcons] at ih ⊢
        omega

theorem text_trimCR (b : Bytes) : text (trimCR b) = text b := by
  unfold trimCR
  split_ifs with h
  · obtain ⟨b', rfl⟩ := List.getLast?_eq_some_iff.1 h
    rw [List.dropLast_concat, text_append]
    rfl
  · rfl

theorem text_flush (b : Bytes) : ((flushLine b).map text).sum = text b := by
  unfold flushLine
  split_ifs with h
  · simp [text_trimCR]
  · rw [← text_trimCR b, not_not.1 h]
    rfl

theorem text_write (b p : Bytes) :
    ((logWriter.write b p).lines.map text).sum + text (logWriter.write b p).buffer = text b + text p := by
  have hlines : ∀ lines : List Bytes,
      (((lines.filter fun line => line ≠ []).map trimCR).map text).sum = (lines.map text).sum := by
    intro lines
    induction lines with
    | nil => rfl
    | cons line lines ih =>
      by_cases he : line = []
      · simpa [he] using ih
      · simpa [he, text_trimCR] using ih
  have hsplit := text_splitLines (b ++ p)
  rw [text_append] at hsplit
  simp only [logWriter, writeLines]
  split_ifs with h
  · rw [List.map_append, List.sum_append, hlines, text_flush, text_nil]
    omega
  · rw [hlines]
    exact hsplit

namespace LineWriter

theorem text_copyOut (writes : List (Stream × Bytes)) (out err : Bytes) :
    ((logWriter.copyOut out err writes).map fun w => text w.2).sum =
      text out + text err + (writes.map fun w => text w.2).sum := by
  have htag : ∀ (stream : Stream) (lines : List Bytes),
      ((lines.map (stream, ·)).map fun w : Stream × Bytes => text w.2).sum = (lines.map text).sum := by
    intro stream lines
    rw [List.map_map]
    rfl
  induction writes generalizing out err with
  | nil =>
    rw [copyOut, List.map_append, List.sum_append, htag, htag]
    change ((flushLine out).map text).sum + ((flushLine err).map text).sum = _
    rw [text_flush, text_flush]
    rfl
  | cons w writes ih =>
    obtain ⟨stream, p⟩ := w
    cases stream with
    | stdout =>
      have hw := text_write out p
      rw [copyOut, List.map_append, List.sum_append, htag, ih]
      simp only [List.map_cons, List.sum_cons]
      omega
    | stderr =>
      have hw := text_write err p
      rw [copyOut, List.map_append, List.sum_append, htag, ih]
      simp only [List.map_cons, List.sum_cons]
      omega

theorem text_copyRaw (chunks : List Bytes) (buffer : Bytes) :
    ((logWriter.copyRaw buffer chunks).map text).sum = text buffer + text chunks.flatten := by
  induction chunks generalizing buffer with
  | nil => exact text_flush buffer
  | cons p chunks ih =>
    rw [copyRaw, List.map_append, List.sum_append, List.flatten_cons]
    calc
      _ = ((logWriter.write buffer p).lines.map text).sum +
            (text (logWriter.write buffer p).buffer + text chunks.flatten) := by rw [ih]
      _ = text buffer + text p + text chunks.flatten := by rw [← add_assoc, text_write]
      _ = text buffer + text (p ++ chunks.flatten) := by rw [text_append, add_assoc]

end LineWriter

/-! ## What `StdCopy` makes of a stream -/

namespace IsStdCopy

variable {stdCopy : Copy}

/-- it writes something only of what starts with a whole frame of one of the two streams -/
theorem writes (h : IsStdCopy stdCopy) (logs : Bytes) :
    (stdCopy logs).1 = [] ∨ ∃ kind : StdType, kind ≠ .systemerr ∧ ∃ s₁ s₂ s₃ a b c d rest,
      sizeOf a b c d ≤ rest.length ∧ logs = kind.byte :: s₁ :: s₂ :: s₃ :: a :: b :: c :: d :: rest := by
  match logs with
  | kind :: s₁ :: s₂ :: s₃ :: a :: b :: c :: d :: rest =>
    by_cases hkind : 3 < kind
    · exact Or.inl (by rw [h.unrecognized _ _ _ _ _ _ _ _ _ hkind])
    · have hle : kind ≤ 3 := UInt8.not_lt.1 hkind
      by_cases hsize : sizeOf a b c d ≤ rest.length
      · have hcases : kind = 0 ∨ kind = 1 ∨ kind = 2 ∨ kind = 3 := by
          have := UInt8.le_iff_toNat_le.1 hle
          simp only [← UInt8.toNat_inj, UInt8.reduceToNat] at this ⊢
          omega
        rcases hcases with rfl | rfl | rfl | rfl
        · exact Or.inr ⟨.stdin, by decide, _, _, _, _, _, _, _, _, hsize, rfl⟩
        · exact Or.inr ⟨.stdout, by decide, _, _, _, _, _, _, _, _, hsize, rfl⟩
        · exact Or.inr ⟨.stderr, by decide, _, _, _, _, _, _, _, _, hsize, rfl⟩
        · have herr := h.systemerr s₁ s₂ s₃ a b c d rest hsize
          exact Or.inl (congrArg Prod.fst herr)
      · exact Or.inl (by rw [h.torn _ _ _ _ _ _ _ _ _ hle (by omega)])
  | [] => exact Or.inl (by rw [h.short _ (by simp)])
  | [_] => exact Or.inl (by rw [h.short _ (by simp)])
  | [_, _] => exact Or.inl (by rw [h.short _ (by simp)])
  | [_, _, _] => exact Or.inl (by rw [h.short _ (by simp)])
  | [_, _, _, _] => exact Or.inl (by rw [h.short _ (by simp)])
  | [_, _, _, _, _] => exact Or.inl (by rw [h.short _ (by simp)])
  | [_, _, _, _, _, _] => exact Or.inl (by rw [h.short _ (by simp)])
  | [_, _, _, _, _, _, _] => exact Or.inl (by rw [h.short _ (by simp)])

/-- every write costs a byte of text: the type in its header -/
theorem text_le (h : IsStdCopy stdCopy) (logs : Bytes) :
    ((stdCopy logs).1.map fun w => text w.2).sum + (stdCopy logs).1.length ≤ text logs := by
  induction hn : logs.length using Nat.strong_induction_on generalizing logs with
  | _ n ih =>
    rcases h.writes logs with hnil | ⟨kind, hkind, s₁, s₂, s₃, a, b, c, d, rest, hsize, rfl⟩
    · simp [hnil]
    · rw [h.frame kind hkind s₁ s₂ s₃ a b c d rest hsize]
      have hrest := ih (rest.drop (sizeOf a b c d)).length (by simp at hn ⊢; omega) _ rfl
      have hbyte : text [kind.byte] = 1 := by cases kind <;> decide
      calc
        _ = text (rest.take (sizeOf a b c d)) + 1 + (((stdCopy (rest.drop (sizeOf a b c d))).1.map
              fun w => text w.2).sum + (stdCopy (rest.drop (sizeOf a b c d))).1.length) := by
          simp only [List.map_cons, List.sum_cons, List.length_cons]
          omega
        _ ≤ text [kind.byte] + text (rest.take (sizeOf a b c d)) + text (rest.drop (sizeOf a b c d)) := by omega
        _ = text [kind.byte] + text rest := by
          rw [add_assoc, ← text_append, List.take_append_drop]
        _ ≤ text ([kind.byte] ++ [s₁, s₂, s₃, a, b, c, d] ++ rest) := by
          rw [text_append, text_append]
          omega

theorem sizeOf_sizeBytes {n : ℕ} (hn : n < 2 ^ 32) :
    sizeOf (UInt8.ofNat (n / 256 ^ 3)) (UInt8.ofNat (n / 256 ^ 2)) (UInt8.ofNat (n / 256)) (UInt8.ofNat n) = n := by
  simp only [sizeOf, UInt8.toNat_ofNat']
  omega

theorem copy_frame (h : IsStdCopy stdCopy) {f : Frame} (hf : f.kind ≠ .systemerr) (logs : Bytes) :
    stdCopy (f.encode ++ logs) = ((f.kind.stream, f.payload) :: (stdCopy logs).1, (stdCopy logs).2) := by
  have hsize := sizeOf_sizeBytes f.fits
  have := h.frame f.kind hf 0 0 0 _ _ _ _ (f.payload ++ logs) (by rw [hsize]; simp)
  rw [hsize, List.take_left, List.drop_left] at this
  exact this

theorem copy_systemerr (h : IsStdCopy stdCopy) {f : Frame} (hf : f.kind = .systemerr) (logs : Bytes) :
    stdCopy (f.encode ++ logs) = ([], true) := by
  have hsize := sizeOf_sizeBytes f.fits
  have := h.systemerr 0 0 0 _ _ _ _ (f.payload ++ logs) (by rw [hsize]; simp)
  rw [← hf] at this
  exact this

theorem copy_cut (h : IsStdCopy stdCopy) (c : CutFrame) : stdCopy c.encode = ([], false) := by
  have hlacks := c.lacks
  rw [CutFrame.encode]
  by_cases hkept : c.kept < 8
  · exact h.short _ (by rw [List.length_take]; omega)
  · obtain ⟨n, hn⟩ : ∃ n, c.kept = n + 8 := ⟨c.kept - 8, by omega⟩
    have hsize := sizeOf_sizeBytes c.frame.fits
    have hkind : c.frame.kind.byte ≤ 3 := by cases c.frame.kind <;> decide
    rw [hn] at hlacks ⊢
    apply h.torn _ _ _ _ _ _ _ _ _ hkind
    rw [hsize, List.length_take]
    simp [Frame.encode, sizeBytes] at hlacks
    omega

/-- **Frames.** `StdCopy` makes one write of every frame, up to the first error of the engine. -/
theorem copy_frames (h : IsStdCopy stdCopy) (frames : List Frame) (cut : Option CutFrame) :
    stdCopy (Served.framed frames cut).chunks.flatten =
      ((frames.takeWhile fun f => f.kind ≠ .systemerr).map fun f => (f.kind.stream, f.payload),
        frames.any fun f => f.kind = .systemerr) := by
  induction frames with
  | nil =>
    cases cut with
    | none => exact h.short _ (by simp [Served.chunks])
    | some c => simpa [Served.chunks] using h.copy_cut c
  | cons f frames ih =>
    have hcons : (Served.framed (f :: frames) cut).chunks.flatten =
        f.encode ++ (Served.framed frames cut).chunks.flatten := rfl
    by_cases hf : f.kind = .systemerr
    · rw [hcons, h.copy_systemerr hf]
      simp [hf]
    · rw [hcons, h.copy_frame hf, ih]
      simp [hf]

end IsStdCopy

/-! ## When the views agree -/

theorem oneShotLines_eq (stdCopy : Copy) (logs : Bytes) :
    oneShotLines stdCopy logs = if (stdCopy logs).2 then [] else logWriter.copyOut [] [] (stdCopy logs).1 := by
  unfold oneShotLines parseDockerLogs
  split_ifs <;> rfl

theorem payloads_eq (stream : Stream) (frames : List Frame) :
    payloads stream frames = LineWriter.written stream (frames.map fun f => (f.kind.stream, f.payload)) := by
  rw [payloads, LineWriter.written, List.filter_map, List.map_map]
  rfl

/-- the views of a framed log agree when the request does not fail or there is nothing to show -/
theorem framed_agree_iff {stdCopy : Copy} (h : IsStdCopy stdCopy) (frames : List Frame) (cut : Option CutFrame) :
    ViewsAgree stdCopy (.framed frames cut) ↔ Agreeable (.framed frames cut) := by
  have hcopy := h.copy_frames frames cut
  have hnil := LineWriter.copyOut_eq_nil ((frames.takeWhile fun f => f.kind ≠ .systemerr).map
    fun f => (f.kind.stream, f.payload)) (List.not_mem_nil (a := newline)) (List.not_mem_nil (a := newline))
  simp only [List.nil_append, ← payloads_eq] at hnil
  simp only [ViewsAgree, oneShotLines_eq, newParsedLogStream, tailLogStream, Served.tty,
    writers_agree.1, writers_agree.2, hcopy, Agreeable]
  by_cases herr : ∃ f ∈ frames, f.kind = .systemerr
  · have hany : (frames.any fun f => f.kind = .systemerr) = true := by simpa using herr
    have hsome : ¬ ∀ f ∈ frames, f.kind ≠ .systemerr := by
      obtain ⟨f, hf, hk⟩ := herr
      exact fun hall => hall f hf hk
    rw [hany]
    constructor
    · intro ⟨hfail, _⟩
      obtain ⟨ho, he⟩ := hnil.1 hfail.symm
      refine Or.inr fun stream => ?_
      cases stream with
      | stdout => exact ho
      | stderr => exact he
    · intro hA
      rcases hA with hall | hblank
      · exact absurd hall hsome
      · exact ⟨(hnil.2 ⟨hblank .stdout, hblank .stderr⟩).symm, rfl⟩
  · have hany : (frames.any fun f => f.kind = .systemerr) = false := by simpa using herr
    rw [hany]
    constructor
    · intro _
      exact Or.inl fun f hf hk => herr ⟨f, hf, hk⟩
    · intro _
      exact ⟨rfl, rfl⟩

/-- the views of a raw log agree when there is nothing to show: what `StdCopy` makes of it has less text in it -/
theorem raw_agree_iff {stdCopy : Copy} (h : IsStdCopy stdCopy) (chunks : List Bytes) :
    ViewsAgree stdCopy (.raw chunks) ↔ Agreeable (.raw chunks) := by
  have hnil := LineWriter.copyRaw_eq_nil chunks (List.not_mem_nil (a := newline))
  have htext := h.text_le chunks.flatten
  simp only [ViewsAgree, oneShotLines_eq, newParsedLogStream, tailLogStream, Served.tty, Served.chunks,
    writers_agree.1, writers_agree.2, Agreeable, if_true]
  rw [List.nil_append] at hnil
  constructor
  · intro ⟨_, hagree⟩
    have hraw : ((logWriter.copyOut [] [] (stdCopy chunks.flatten).1).map fun w => text w.2).sum =
        text chunks.flatten := by
      rw [hagree, List.map_map]
      have := LineWriter.text_copyRaw chunks []
      rw [text_nil, zero_add] at this
      exact this
    rw [LineWriter.text_copyOut] at hraw
    have hwrites : (stdCopy chunks.flatten).1 = [] := List.length_eq_zero_iff.1 (by simp at hraw; omega)
    rw [hwrites] at hagree
    exact hnil.1 (List.map_eq_nil_iff.1 hagree.symm)
  · intro hblank
    have hwrites : (stdCopy chunks.flatten).1 = [] := by
      rcases h.writes chunks.flatten with e | ⟨kind, _, s₁, s₂, s₃, a, b, c, d, rest, _, e⟩
      · exact e
      · -- the first byte of a blank log is no type of a frame
        rw [e] at hblank
        have hne : kind.byte ≠ newline := by cases kind <;> decide
        obtain ⟨he, _⟩ := (blank_cons hne).1 hblank
        cases kind <;> exact absurd he (by decide)
    rw [hwrites, hnil.2 hblank]
    exact ⟨ite_self _, rfl⟩

/-- **The three views.** They show the same lines of a framed log unless the engine reports an error after a line, and
of the log of a terminal only if there is no line. -/
theorem views_agree_iff {stdCopy : Copy} (h : IsStdCopy stdCopy) (served : Served) :
    ViewsAgree stdCopy served ↔ Agreeable served := by
  cases served with
  | framed frames cut => exact framed_agree_iff h frames cut
  | raw chunks => exact raw_agree_iff h chunks

/-- a demultiplexer that reads as `StdCopy` does, of at most `n` frames -/
def demultiplex : ℕ → Bytes → List (Stream × Bytes) × Bool
  | 0, _ => ([], false)
  | n + 1, kind :: _ :: _ :: _ :: a :: b :: c :: d :: rest =>
    if 3 < kind then ([], true)
    else if rest.length < sizeOf a b c d then ([], false)
    else if kind = StdType.systemerr.byte then ([], true)
    else
      ((if kind = StdType.stderr.byte then .stderr else .stdout, rest.take (sizeOf a b c d)) ::
        (demultiplex n (rest.drop (sizeOf a b c d))).1, (demultiplex n (rest.drop (sizeOf a b c d))).2)
  | _, _ => ([], false)

theorem demultiplex_short (n : ℕ) {logs : Bytes} (h : logs.length < 8) : demultiplex n logs = ([], false) := by
  unfold demultiplex
  split
  · rfl
  · simp at h
    omega
  · rfl

theorem demultiplex_fuel {n m : ℕ} {logs : Bytes} (hn : logs.length ≤ n) (hm : logs.length ≤ m) :
    demultiplex n logs = demultiplex m logs := by
  induction n generalizing m logs with
  | zero =>
    have hshort : logs.length < 8 := by omega
    rw [demultiplex_short 0 hshort, demultiplex_short m hshort]
  | succ n ih =>
    match logs with
    | kind :: s₁ :: s₂ :: s₃ :: a :: b :: c :: d :: rest =>
      cases m with
      | zero => simp at hm
      | succ m =>
        simp only [List.length_cons] at hn hm
        have hrest : (rest.drop (sizeOf a b c d)).length ≤ rest.length := by
          rw [List.length_drop]
          exact Nat.sub_le _ _
        simp only [demultiplex]
        rw [ih (m := m) (by omega) (by omega)]
    | [] | [_] | [_, _] | [_, _, _] | [_, _, _, _] | [_, _, _, _, _] | [_, _, _, _, _, _] | [_, _, _, _, _, _, _] =>
      rw [demultiplex_short _ (by simp), demultiplex_short _ (by simp)]

theorem isStdCopy_demultiplex : IsStdCopy fun logs => demultiplex logs.length logs where
  short logs h := demultiplex_short _ h
  unrecognized kind s₁ s₂ s₃ a b c d rest h := by simp [demultiplex, h]
  torn kind s₁ s₂ s₃ a b c d rest hkind h := by
    have hle : ¬ 3 < kind := UInt8.not_lt.2 hkind
    simp [demultiplex, hle, h]
  systemerr s₁ s₂ s₃ a b c d rest h := by
    have hsize : ¬ rest.length < sizeOf a b c d := by omega
    simp [demultiplex, StdType.byte, hsize]
  frame kind hkind s₁ s₂ s₃ a b c d rest h := by
    have hsize : ¬ rest.length < sizeOf a b c d := by omega
    have hfuel : demultiplex (rest.length + 7) (rest.drop (sizeOf a b c d)) =
        demultiplex (rest.drop (sizeOf a b c d)).length (rest.drop (sizeOf a b c d)) := by
      apply demultiplex_fuel _ (le_refl _)
      rw [List.length_drop]
      omega
    cases kind with
    | systemerr => exact absurd rfl hkind
    | _ => simp [demultiplex, StdType.byte, StdType.stream, hsize, hfuel]

/-- a line on each stream -/
theorem views_agree_two_lines : ViewsAgree (fun logs => demultiplex logs.length logs)
    (.framed [⟨.stdout, [104, 105, newline], by decide⟩, ⟨.stderr, [111, newline], by decide⟩] none) := by
  apply (views_agree_iff isStdCopy_demultiplex _).2
  apply Or.inl
  decide

/-- **A terminal.** It says "hi there" and ends the line: the store has the line, and the two views on the screen have
none. -/
theorem tty_line_lost : ¬ ∀ stdCopy, IsStdCopy stdCopy → ∀ served, ViewsAgree stdCopy served := by
  intro h
  obtain ⟨_, hagree⟩ := h _ isStdCopy_demultiplex
    (.raw [[104, 105, 32, 116, 104, 101, 114, 101, carriageReturn, newline]])
  exact absurd hagree (by decide)

end LogDeck.Docker
