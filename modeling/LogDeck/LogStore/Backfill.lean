/-
Gaps, resume points and the backfill schedule (`store.go`: `markGap`, `gapAt`, `clearGap`, `snapshotResume`; `sync.go`:
`backfillTracker`; `backfill.go`: `backfillSince`, `watermark`; `ingest.go`: `markBatchGaps`).

A dropped line is remembered as a timestamp per generation, the smallest one dropped. The sync loop re-reads a
generation that has a gap it is not healing yet, and retires the gap when the read has succeeded. All of this is memory
of the process: only the watermarks of the rows survive it.

Times are nanoseconds. A Go map of timestamps reads a missing key as 0.
-/
import LogDeck.LogStore.Lifecycle

namespace LogDeck.LogStore

def backfillOverlap : ℤ := 2 * 1000000000
def maxBackfillAttempts : ℕ := 3

/-! ## Gaps -/

/-- generation -> its earliest dropped timestamp -/
abbrev Gaps := GenKey → Option ℤ

/-- the gap of a generation, or 0 when it has none -/
def gapAt (gaps : Gaps) (key : GenKey) : ℤ := (gaps key).getD 0

def markGap (gaps : Gaps) (key : GenKey) (tsNS : ℤ) : Gaps :=
  match gaps key with
  | some earliest => if tsNS < earliest then Function.update gaps key (some tsNS) else gaps
  | none => Function.update gaps key (some tsNS)

/-- retires a healed gap, unless an even older line was dropped while the backfill was running -/
def clearGap (gaps : Gaps) (key : GenKey) (healed : ℤ) : Gaps :=
  if gapAt gaps key = healed then Function.update gaps key none else gaps

/-- a gap for every line of a batch that could not be committed -/
def markBatchGaps (gaps : Gaps) (batch : List IngestMsg) : Gaps :=
  batch.foldl (fun gaps m =>
    match m.body with
    | .line l => markGap gaps m.key l.tsNS
    | .done _ => gaps) gaps

/-- a gap at or below the timestamp is outstanding -/
def Outstanding (gaps : Gaps) (key : GenKey) (tsNS : ℤ) : Prop := ∃ gap, gaps key = some gap ∧ gap ≤ tsNS

theorem markGap_outstanding (gaps : Gaps) (key : GenKey) (tsNS : ℤ) :
    Outstanding (markGap gaps key tsNS) key tsNS := by
  unfold Outstanding markGap
  cases h : gaps key with
  | none => exact ⟨tsNS, by simp, le_rfl⟩
  | some earliest =>
    by_cases hlt : tsNS < earliest
    · exact ⟨tsNS, by simp [hlt], le_rfl⟩
    · exact ⟨earliest, by simp [hlt, h], not_lt.1 hlt⟩

/-- marking keeps what is outstanding -/
theorem Outstanding.mark {gaps : Gaps} {key : GenKey} {tsNS : ℤ} (h : Outstanding gaps key tsNS) (key' : GenKey)
    (tsNS' : ℤ) : Outstanding (markGap gaps key' tsNS') key tsNS := by
  obtain ⟨gap, hgap, hle⟩ := h
  unfold Outstanding markGap
  cases h' : gaps key' with
  | none =>
    have hne : key ≠ key' := by
      intro e
      rw [e, h'] at hgap
      cases hgap
    exact ⟨gap, by simp [hne, hgap], hle⟩
  | some earliest =>
    by_cases hlt : tsNS' < earliest
    · by_cases e : key = key'
      · subst e
        rw [h'] at hgap
        obtain rfl := Option.some.inj hgap
        exact ⟨tsNS', by simp [hlt], by omega⟩
      · exact ⟨gap, by simp [hlt, e, hgap], hle⟩
    · exact ⟨gap, by simp [hlt, hgap], hle⟩

theorem Outstanding.markBatch {gaps : Gaps} {key : GenKey} {tsNS : ℤ} (h : Outstanding gaps key tsNS)
    (batch : List IngestMsg) : Outstanding (markBatchGaps gaps batch) key tsNS := by
  induction batch generalizing gaps with
  | nil => exact h
  | cons m batch ih =>
    rw [markBatchGaps, List.foldl_cons]
    apply ih
    cases m.body with
    | line l => exact h.mark m.key l.tsNS
    | done reason => exact h

/-- every line of the batch has its gap -/
theorem markBatchGaps_outstanding (gaps : Gaps) {batch : List IngestMsg} {m : IngestMsg} (hm : m ∈ batch) {l : Line}
    (hl : m.body = .line l) : Outstanding (markBatchGaps gaps batch) m.key l.tsNS := by
  induction batch generalizing gaps with
  | nil => cases hm
  | cons m' batch ih =>
    rw [markBatchGaps, List.foldl_cons]
    rcases List.mem_cons.1 hm with rfl | hm
    · rw [hl]
      exact (markGap_outstanding gaps m.key l.tsNS).markBatch batch
    · exact ih _ hm

theorem clearGap_other (gaps : Gaps) {key key' : GenKey} (h : key' ≠ key) (healed : ℤ) :
    clearGap gaps key healed key' = gaps key' := by
  unfold clearGap
  split_ifs
  · rw [Function.update_apply, if_neg h]
  · rfl

/-! ## Resume points -/

/-- the watermarks of a generation -/
structure ResumePoint where
  stdoutWM : ℤ := 0
  stderrWM : ℤ := 0
deriving DecidableEq, Repr

abbrev Resume := GenKey → Option ResumePoint

/-- what every row has at process start -/
def snapshotResume (db : DB) : Resume := fun key => (db.find key).map fun c => ⟨c.stdoutWM, c.stderrWM⟩

/-- the minimum of the per-stream marks that have advanced; 0 when none has -/
def watermark (stdoutWM stderrWM : ℤ) : ℤ :=
  if stdoutWM = 0 then stderrWM else if stderrWM = 0 then stdoutWM else min stdoutWM stderrWM

/-- the snapshot of the generation, or its row as it is now -/
def resumePoint (resume : Resume) (db : DB) (key : GenKey) : ResumePoint :=
  match resume key with
  | some point => point
  | none => ((db.find key).map fun c => ⟨c.stdoutWM, c.stderrWM⟩).getD {}

/-- where a backfill resumes: the watermark less the overlap, or the creation of the container; a gap that is older -/
def backfillSince (resume : Resume) (gaps : Gaps) (db : DB) (key : GenKey) (createdUnix : ℤ) : ℤ :=
  let point := resumePoint resume db key
  let wm := watermark point.stdoutWM point.stderrWM
  let since := if wm ≠ 0 then wm - backfillOverlap else createdUnix * 1000000000
  if gapAt gaps key ≠ 0 then
    (if gapAt gaps key - backfillOverlap < since then gapAt gaps key - backfillOverlap else since)
  else since

/-! ## The tracker -/

/-- the sync loop's bookkeeping: failed attempts, generations that have been read, that are being read, and the gap
(0 for none) the current read is healing -/
structure Tracker where
  attempts : GenKey → ℕ
  done : GenKey → Bool
  inFlight : GenKey → Bool
  healing : GenKey → ℤ

namespace Tracker

def empty : Tracker := ⟨fun _ => 0, fun _ => false, fun _ => false, fun _ => 0⟩

/-- a fresh gap makes a generation eligible again with a fresh retry budget -/
def refresh (t : Tracker) (gap : ℤ) (key : GenKey) : Tracker :=
  if gap ≠ 0 ∧ gap ≠ t.healing key then
    { t with healing := Function.update t.healing key gap, done := Function.update t.done key false,
             attempts := Function.update t.attempts key 0 }
  else t

/-- whether a backfill of the generation starts now -/
def eligible (t : Tracker) (key : GenKey) (excluded : Bool) : Bool :=
  !(excluded || t.inFlight key || t.done key || decide (maxBackfillAttempts ≤ t.attempts key))

def schedule (t : Tracker) (gap : ℤ) (key : GenKey) (excluded : Bool) : Tracker × Bool :=
  let t := t.refresh gap key
  if t.eligible key excluded then ({ t with inFlight := Function.update t.inFlight key true }, true) else (t, false)

/-- `delete(track.inFlight, key)` -/
def land (t : Tracker) (key : GenKey) : Tracker := { t with inFlight := Function.update t.inFlight key false }

/-- a generation whose driver cannot be read -/
def exclude (t : Tracker) (key : GenKey) : Tracker := { t with done := Function.update t.done key true }

def fail (t : Tracker) (key : GenKey) : Tracker :=
  { t with attempts := Function.update t.attempts key (t.attempts key + 1) }

/-- a generation that was read successfully; with it its resume snapshot and the gap the read healed are retired -/
def complete (t : Tracker) (key : GenKey) (resume : Resume) (gaps : Gaps) : Tracker × Resume × Gaps :=
  let t := { t with done := Function.update t.done key true, attempts := Function.update t.attempts key 0 }
  let resume := Function.update resume key none
  if t.healing key ≠ 0 then
    ({ t with healing := Function.update t.healing key 0 }, resume, clearGap gaps key (t.healing key))
  else (t, resume, gaps)

theorem eligible_iff (t : Tracker) (key : GenKey) (excluded : Bool) :
    t.eligible key excluded = true ↔
      excluded = false ∧ t.inFlight key = false ∧ t.done key = false ∧ t.attempts key < maxBackfillAttempts := by
  simp [eligible, and_assoc]

theorem refresh_inFlight (t : Tracker) (gap : ℤ) (key : GenKey) : (t.refresh gap key).inFlight = t.inFlight := by
  unfold refresh
  split <;> rfl

theorem schedule_inFlight (t : Tracker) (gap : ℤ) (key : GenKey) (excluded : Bool) :
    (t.schedule gap key excluded).1.inFlight =
      if (t.schedule gap key excluded).2 then Function.update t.inFlight key true else t.inFlight := by
  unfold schedule
  dsimp only
  split
  · simp [refresh_inFlight]
  · simp [refresh_inFlight]

theorem schedule_snd (t : Tracker) (gap : ℤ) (key : GenKey) (excluded : Bool) :
    (t.schedule gap key excluded).2 = (t.refresh gap key).eligible key excluded := by
  unfold schedule
  cases h : (t.refresh gap key).eligible key excluded <;> simp [h]

section Complete

variable (t : Tracker) (key : GenKey) (resume : Resume) (gaps : Gaps)

@[simp] theorem complete_done : (t.complete key resume gaps).1.done = Function.update t.done key true := by
  unfold complete
  dsimp only
  split_ifs <;> rfl

@[simp] theorem complete_attempts : (t.complete key resume gaps).1.attempts = Function.update t.attempts key 0 := by
  unfold complete
  dsimp only
  split_ifs <;> rfl

@[simp] theorem complete_inFlight : (t.complete key resume gaps).1.inFlight = t.inFlight := by
  unfold complete
  dsimp only
  split_ifs <;> rfl

end Complete

end Tracker

end LogDeck.LogStore
