/-
The lines of a log do not depend on how it is cut into calls (`docker/logs.go`: `logWriter`, `streamingLogWriter`;
`docker/logs_tail.go`: `callbackLogWriter`).

The reference splits the whole log at its newlines (`referenceLines`). A writer keeps what comes after the last newline
of a call, and passes on a buffer that outgrows `maxLineBufferSize` although it has none; a log whose lines all fit
(`LinesFit`) never makes it do so.

Results:
- `splitLines_append`: splitting what is left of a first piece with the second piece in front of it is splitting both;
- `copyRaw_eq`: over any calls, a writer decodes the reference lines of a log whose lines fit;
- `writers_reference`: the three writers do, they do the same for every log, and none keeps more than the maximum.
-/
import LogDeck.Docker.Decode
import Mathlib.Data.List.Infix

namespace LogDeck.Docker

/-! ## The reference -/

/-- the segments that end in a newline, if they are not empty, and what comes after the last newline, if anything is left
of it; each without one carriage return at its end -/
def referenceLines (b : Bytes) : List Bytes :=
  let segments := b.splitOn newline
  (segments.dropLast.filter fun line => line ≠ []).map trimCR ++
    ([trimCR (segments.getLastD [])].filter fun line => line ≠ [])

/-- no stretch without a newline is longer than a line buffer -/
def LinesFit (b : Bytes) : Prop := ∀ r, r <:+: b → newline ∉ r → r.length ≤ maxLineBufferSize

/-- the buffer of a writer after a list of calls -/
def LineWriter.buffered (w : LineWriter) (chunks : List Bytes) : Bytes :=
  chunks.foldl (fun buffer p => (w.write buffer p).buffer) []

/-! ## Splitting -/

theorem splitOn_newline (b : Bytes) : b.splitOn newline = (splitLines b).1 ++ [(splitLines b).2] := by
  induction b with
  | nil => rfl
  | cons c cs ih =>
    rw [List.splitOn_cons_eq_if_modifyHead, ih]
    by_cases hc : c = newline
    · simp [splitLines, hc]
    · rw [if_neg (by simpa using hc)]
      cases hl : (splitLines cs).1 with
      | nil => simp [splitLines, hc, hl]
      | cons line lines => simp [splitLines, hc, hl]

/-- what is left of a buffer is at the end of it -/
theorem splitLines_suffix (b : Bytes) : (splitLines b).2 <:+ b := by
  induction b with
  | nil => exact List.suffix_rfl
  | cons c cs ih =>
    by_cases hc : c = newline
    · simp only [splitLines, if_pos hc]
      exact ih.trans (List.suffix_cons c cs)
    · cases hl : (splitLines cs).1 with
      | nil =>
        simp only [splitLines, if_neg hc, hl]
        rw [splitLines_nil_left hl]
      | cons line lines =>
        simp only [splitLines, if_neg hc, hl]
        exact ih.trans (List.suffix_cons c cs)

/-- **Pieces.** The lines of two pieces are those of the first, and those of what it leaves with the second. -/
theorem splitLines_append (b q : Bytes) :
    splitLines (b ++ q) =
      ((splitLines b).1 ++ (splitLines ((splitLines b).2 ++ q)).1, (splitLines ((splitLines b).2 ++ q)).2) := by
  induction b with
  | nil => rfl
  | cons c cs ih =>
    rw [List.cons_append]
    by_cases hc : c = newline
    · simp [splitLines, hc, ih]
    · cases hl : (splitLines cs).1 with
      | nil =>
        have hrest := splitLines_nil_left hl
        simp only [splitLines, if_neg hc, hl, hrest, List.nil_append, List.cons_append]
      | cons line lines => simp [splitLines, hc, hl, ih]

theorem splitLines_unfinished {b : Bytes} (hb : newline ∉ b) : splitLines b = ([], b) := by
  have hsplit := splitOn_newline b
  rw [List.splitOn_eq_singleton hb] at hsplit
  cases hl : (splitLines b).1 with
  | nil => exact Prod.ext hl (splitLines_nil_left hl)
  | cons line lines =>
    have hlen := congrArg List.length hsplit
    simp [hl] at hlen

theorem referenceLines_eq (b : Bytes) :
    referenceLines b = ((splitLines b).1.filter fun line => line ≠ []).map trimCR ++ flushLine (splitLines b).2 := by
  have hflush : [trimCR (splitLines b).2].filter (fun line => decide (line ≠ [])) = flushLine (splitLines b).2 := by
    unfold flushLine
    split_ifs with h
    · rw [List.filter_cons_of_pos (by simpa using h), List.filter_nil]
    · rw [List.filter_cons_of_neg (by simpa using h), List.filter_nil]
  unfold referenceLines
  dsimp only
  rw [splitOn_newline, List.dropLast_concat, List.getLastD_concat, hflush]

/-! ## Writing -/

/-- a call whose buffer stays within the maximum -/
theorem write_eq {b p : Bytes} (h : (splitLines (b ++ p)).2.length ≤ maxLineBufferSize) :
    logWriter.write b p =
      ⟨((splitLines (b ++ p)).1.filter fun line => line ≠ []).map trimCR, (splitLines (b ++ p)).2⟩ := by
  simp only [logWriter, writeLines]
  rw [if_neg (not_lt.2 h)]

theorem LinesFit.rest {b q : Bytes} (h : LinesFit (b ++ q)) : (splitLines b).2.length ≤ maxLineBufferSize :=
  h _ ((splitLines_suffix b).isInfix.trans (List.prefix_append b q).isInfix) (newline_notMem_rest b)

/-- **Calls.** Whatever the calls, the lines are those of the buffer and all that is written. -/
theorem copyRaw_eq (chunks : List Bytes) {b : Bytes} (hb : newline ∉ b) (h : LinesFit (b ++ chunks.flatten)) :
    logWriter.copyRaw b chunks = referenceLines (b ++ chunks.flatten) := by
  induction chunks generalizing b with
  | nil =>
    rw [List.flatten_nil, List.append_nil, referenceLines_eq, splitLines_unfinished hb]
    rfl
  | cons p chunks ih =>
    rw [List.flatten_cons, ← List.append_assoc] at h ⊢
    have hwrite := write_eq h.rest
    have hlater : LinesFit ((splitLines (b ++ p)).2 ++ chunks.flatten) := by
      intro r hr
      obtain ⟨read, hread⟩ := splitLines_suffix (b ++ p)
      have hsuffix : (splitLines (b ++ p)).2 ++ chunks.flatten <:+ b ++ p ++ chunks.flatten :=
        ⟨read, by rw [← List.append_assoc, hread]⟩
      exact h r (hr.trans hsuffix.isInfix)
    rw [LineWriter.copyRaw, hwrite]
    dsimp only
    rw [ih (newline_notMem_rest _) hlater, referenceLines_eq, referenceLines_eq, splitLines_append (b ++ p)]
    simp only [List.filter_append, List.map_append, List.append_assoc]

theorem length_buffer_le (b p : Bytes) : (logWriter.write b p).buffer.length ≤ maxLineBufferSize := by
  simp only [logWriter, writeLines]
  split_ifs with h
  · exact Nat.zero_le _
  · exact not_lt.1 h

theorem length_buffered_le (chunks : List Bytes) : (logWriter.buffered chunks).length ≤ maxLineBufferSize := by
  cases chunks using List.reverseRecOn with
  | nil => exact Nat.zero_le _
  | append_singleton chunks p =>
    unfold LineWriter.buffered
    rw [List.foldl_append]
    exact length_buffer_le _ p

/-- **The writers and the reference.** From a log whose lines fit, each of the three decodes the reference lines, however
the log is cut into calls. From every log, they decode the same over the same calls, and keep no more than the maximum
after each. -/
theorem writers_reference (chunks : List Bytes) :
    ∀ w ∈ [logWriter, streamingLogWriter, callbackLogWriter],
      (LinesFit chunks.flatten → w.copyRaw [] chunks = referenceLines chunks.flatten) ∧
      w = logWriter ∧ ∀ n, (w.buffered (chunks.take n)).length ≤ maxLineBufferSize := by
  have hsame : ∀ w ∈ [logWriter, streamingLogWriter, callbackLogWriter], w = logWriter := by
    simp [writers_agree]
  intro w hw
  obtain rfl := hsame w hw
  refine ⟨fun h => ?_, rfl, fun n => length_buffered_le _⟩
  exact copyRaw_eq chunks (by simp) (by simpa using h)

/-- a log that is no longer than a line buffer -/
theorem linesFit_of_length {b : Bytes} (h : b.length ≤ maxLineBufferSize) : LinesFit b :=
  fun _ hr _ => (List.IsInfix.length_le hr).trans h

/-- "hi", and its carriage return and newline in two calls -/
theorem writers_reference_split : streamingLogWriter.copyRaw [] [[104, 105, 13], [10, 111]] = [[104, 105], [111]] := by
  have hfit : LinesFit [[104, 105, 13], [10, 111]].flatten := linesFit_of_length (by decide)
  exact ((writers_reference [[104, 105, 13], [10, 111]] streamingLogWriter (by simp)).1 hfit).trans (by decide)

end LogDeck.Docker
