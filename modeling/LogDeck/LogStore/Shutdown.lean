/-
The shutdown of the log store (`store.go`: `start`, `sink`, `Wait`; `sync.go`: `syncLoop`, `sync`; `backfill.go`:
`backfill`, `send`, `report`; `ingest.go`: `writeLoop`; `janitor.go`: `janitorLoop`).

Producers of the ingest queue are the hub's sink, counted once, and the backfills, each counted from before its
goroutine starts until it has returned. When the context is cancelled the closer drops the subscription, waits for the
sync loop, gives up the sink's count, waits for the producers and closes the queue. The writer runs until the queue is
closed and empty. Cancellation is seen by each goroutine where it looks for it; every step below is one of theirs, and
they interleave in any order.

The hub's `unsubscribe` returns only after the last sink call. What the messages say, the schedule of the backfills, how
many may hold a slot at once and the outcome of a commit play no part here (`Backfill`, `Pipeline`). A goroutine that
panics takes the process with it; `panicked` records it, and covers a send on the closed queue and a negative producer
count.

Ghosts: `accepted` has the messages the queue has taken, in order, `attempts` the batches of the commit attempts.

Results:
- `step_inv`: the producer count is the number of producers, and it is final once the sync loop has stopped;
- `shutdown_safe`: over every run, nothing panics, and when `Wait` returns every accepted message has been part of exactly
  one commit attempt, in order.
-/
import LogDeck.Lib.Machine
import LogDeck.LogStore.Pipeline

namespace LogDeck.Shutdown

open LogDeck.LogStore Machine
open LogDeck.Pipeline (ingestBuffer batchLines)

/-! ## Model -/

/-- the results channel has room for this many -/
def maxConcurrentBackfills : ℕ := 4

/-- the sync loop: before its first pass; in a pass, at the head of its loop, after the check of the context, after
`producers.Add(1)`; at its select; returned -/
inductive SyncPC where
  | starting
  | passing
  | checked
  | added
  | idle
  | stopped
deriving DecidableEq, Repr

/-- a backfill: waiting for a slot, computing its since, reading the engine, about to send msgDone, about to report, about
to return, returned -/
inductive BackfillPC where
  | waiting
  | resolving
  | reading
  | finishing
  | reporting
  | returning
  | exited
deriving DecidableEq, Repr

/-- the closer: waiting for the context, for unsubscribe, for the sync loop; about to give up the sink's count; waiting
for the producers; about to close the queue; returned -/
inductive CloserPC where
  | waiting
  | unsubscribing
  | syncing
  | releasing
  | draining
  | closing
  | finished
deriving DecidableEq, Repr

structure Proc where
  cancelled : Bool
  queue : List IngestMsg
  closed : Bool
  producers : ℕ
  panicked : Bool
  /-- the sink call under way -/
  sinkCall : Option IngestMsg
  sync : SyncPC
  backfills : List BackfillPC
  results : ℕ
  closer : CloserPC
  batch : List IngestMsg
  writerDone : Bool
  janitorDone : Bool
  accepted : List IngestMsg
  attempts : List (List IngestMsg)
deriving DecidableEq, Repr

inductive Act where
  | cancel
  /-- the hub calls the sink -/
  | sinkCall (m : IngestMsg)
  /-- the sink's select: it never blocks -/
  | sinkSend
  /-- the sync loop begins a pass: its first one, or at a tick -/
  | beginPass
  /-- the pass comes to a container whose backfill is due, and checks the context -/
  | due
  | add
  /-- `go s.backfill(..)` -/
  | spawn
  | endPass
  /-- the sync loop handles a result -/
  | result
  /-- the sync loop sees that the context is done -/
  | syncStop
  /-- a backfill gets its slot -/
  | acquire (i : ℕ)
  /-- a backfill has its since; `ok = false` when the database fails -/
  | resolve (i : ℕ) (ok : Bool)
  /-- a backfill sends a line: it waits for room in the queue -/
  | send (i : ℕ) (m : IngestMsg)
  | endRead (i : ℕ)
  | sendDone (i : ℕ) (m : IngestMsg)
  | report (i : ℕ)
  /-- a backfill that waits for a slot, for room or to report sees that the context is done -/
  | giveUp (i : ℕ)
  | backfillReturn (i : ℕ)
  /-- the closer takes its next step, if it can -/
  | close
  /-- the writer receives a message -/
  | receive
  /-- a tick or a retention signal: the writer flushes -/
  | tick
  /-- the writer finds the queue closed and empty -/
  | drain
  | janitorStop
deriving DecidableEq, Repr

namespace Proc

def init : Proc :=
  ⟨false, [], false, 1, false, none, .starting, [], 0, .waiting, [], false, false, [], []⟩

/-- a send whose channel operation goes ahead -/
def push (s : Proc) (m : IngestMsg) : Proc :=
  if s.closed then { s with panicked := true } else { s with queue := s.queue ++ [m], accepted := s.accepted ++ [m] }

/-- a send goes ahead when there is room; on a closed queue it goes ahead too, and panics -/
def ready (s : Proc) : Prop := s.closed = true ∨ s.queue.length < ingestBuffer

instance (s : Proc) : Decidable s.ready := by unfold ready; infer_instance

/-- `producers.Done()` -/
def done (s : Proc) : Proc :=
  if s.producers = 0 then { s with panicked := true } else { s with producers := s.producers - 1 }

def flush (s : Proc) : Proc := if s.batch = [] then s else { s with attempts := s.attempts ++ [s.batch], batch := [] }

def setBackfill (s : Proc) (i : ℕ) (pc : BackfillPC) : Proc := { s with backfills := s.backfills.set i pc }

/-- the hub may call the sink until unsubscribe has returned -/
def subscribed (s : Proc) : Prop := s.closer = .waiting ∨ s.closer = .unsubscribing

instance (s : Proc) : Decidable s.subscribed := by unfold subscribed; infer_instance

def giveUp (s : Proc) (i : ℕ) : Proc :=
  match s.backfills[i]? with
  | some .waiting | some .finishing => s.setBackfill i .reporting
  | some .reporting => s.setBackfill i .returning
  | _ => s

def close (s : Proc) : Proc :=
  match s.closer with
  | .waiting => if s.cancelled then { s with closer := .unsubscribing } else s
  | .unsubscribing => if s.sinkCall = none then { s with closer := .syncing } else s
  | .syncing => if s.sync = .stopped then { s with closer := .releasing } else s
  | .releasing => { s.done with closer := .draining }
  | .draining => if s.producers = 0 then { s with closer := .closing } else s
  | .closing => { s with closed := true, closer := .finished }
  | .finished => s

def receive (s : Proc) : Proc :=
  match s.queue with
  | [] => s
  | m :: rest =>
    let s := { s with queue := rest, batch := s.batch ++ [m] }
    if batchLines ≤ s.batch.length then s.flush else s

def step (s : Proc) : Act → Proc
  | .cancel => { s with cancelled := true }
  | .sinkCall m => if s.subscribed ∧ s.sinkCall = none then { s with sinkCall := some m } else s
  | .sinkSend =>
    match s.sinkCall with
    | some m => if s.ready then { s with sinkCall := none }.push m else { s with sinkCall := none }
    | none => s
  | .beginPass =>
    match s.sync with
    | .starting | .idle => { s with sync := if s.cancelled then .stopped else .passing }
    | _ => s
  | .due => if s.sync = .passing then { s with sync := if s.cancelled then .idle else .checked } else s
  | .add => if s.sync = .checked then { s with sync := .added, producers := s.producers + 1 } else s
  | .spawn => if s.sync = .added then { s with sync := .passing, backfills := s.backfills ++ [.waiting] } else s
  | .endPass => if s.sync = .passing then { s with sync := .idle } else s
  | .result => if s.sync = .idle ∧ 0 < s.results then { s with results := s.results - 1 } else s
  | .syncStop => if s.sync = .idle ∧ s.cancelled then { s with sync := .stopped } else s
  | .acquire i => if s.backfills[i]? = some .waiting then s.setBackfill i .resolving else s
  | .resolve i ok =>
    if s.backfills[i]? = some .resolving then s.setBackfill i (if ok then .reading else .reporting) else s
  | .send i m => if s.backfills[i]? = some .reading ∧ s.ready then s.push m else s
  | .endRead i => if s.backfills[i]? = some .reading then s.setBackfill i .finishing else s
  | .sendDone i m =>
    if s.backfills[i]? = some .finishing ∧ s.ready then (s.push m).setBackfill i .reporting else s
  | .report i =>
    if s.backfills[i]? = some .reporting ∧ s.results < maxConcurrentBackfills then
      { s with results := s.results + 1 }.setBackfill i .returning
    else s
  | .giveUp i => if s.cancelled then s.giveUp i else s
  | .backfillReturn i => if s.backfills[i]? = some .returning then s.done.setBackfill i .exited else s
  | .close => s.close
  | .receive => if s.writerDone then s else s.receive
  | .tick => if s.writerDone then s else s.flush
  | .drain =>
    if s.writerDone = false ∧ s.closed ∧ s.queue = [] then { s.flush with writerDone := true } else s
  | .janitorStop => if s.cancelled then { s with janitorDone := true } else s

/-- all four workers have returned, and with them `Wait` -/
def waited (s : Proc) : Prop :=
  s.writerDone = true ∧ s.sync = .stopped ∧ s.janitorDone = true ∧ s.closer = .finished

end Proc

/-! ## The invariant -/

/-- the backfills that have not returned -/
def active (backfills : List BackfillPC) : ℕ := backfills.countP fun pc => pc ≠ .exited

/-- the sink's share of the producer count, until the closer gives it up -/
def sinkCount : CloserPC → ℕ
  | .draining | .closing | .finished => 0
  | _ => 1

/-- the share of a backfill that is about to start -/
def addedCount : SyncPC → ℕ
  | .added => 1
  | _ => 0

/-- the closer has seen the sync loop stop -/
def Synced : CloserPC → Prop
  | .waiting | .unsubscribing | .syncing => False
  | _ => True

structure Inv (s : Proc) : Prop where
  sane : s.panicked = false
  count : s.producers = sinkCount s.closer + active s.backfills + addedCount s.sync
  synced : Synced s.closer → s.sync = .stopped
  silent : ¬ s.subscribed → s.sinkCall = none
  none : s.closer = .closing ∨ s.closer = .finished → s.producers = 0
  closed : s.closed = true → s.closer = .finished
  fifo : s.accepted = s.attempts.flatten ++ s.batch ++ s.queue
  drained : s.writerDone = true → s.closed = true ∧ s.queue = [] ∧ s.batch = []

theorem inv_init : Inv .init where
  sane := rfl
  count := rfl
  synced := fun h => h.elim
  silent := fun _ => rfl
  none := by simp [Proc.init]
  closed := fun h => (by cases h)
  fifo := rfl
  drained := fun h => (by cases h)

variable {s : Proc}

/-- a producer is counted, so the queue is open -/
theorem Inv.open_of_count (h : Inv s) (hp : 0 < s.producers) : s.closed = false := by
  cases hc : s.closed with
  | false => rfl
  | true =>
    have hzero := h.none (Or.inr (h.closed hc))
    omega

theorem active_pos {backfills : List BackfillPC} {i : ℕ} {pc : BackfillPC} (hi : backfills[i]? = some pc)
    (hpc : pc ≠ .exited) : 0 < active backfills := by
  apply List.countP_pos_iff.2
  exact ⟨pc, List.mem_of_getElem? hi, by simpa using hpc⟩

theorem Inv.open_of_backfill (h : Inv s) {i : ℕ} {pc : BackfillPC} (hi : s.backfills[i]? = some pc)
    (hpc : pc ≠ .exited) : s.closed = false := by
  apply h.open_of_count
  have hpos := active_pos hi hpc
  have hcount := h.count
  omega

theorem Inv.open_of_sinkCall (h : Inv s) {m : IngestMsg} (hm : s.sinkCall = some m) : s.closed = false := by
  cases hc : s.closed with
  | false => rfl
  | true =>
    have hfin := h.closed hc
    have hsilent := h.silent (by simp [Proc.subscribed, hfin])
    rw [hsilent] at hm
    cases hm

/-! ## What the goroutines share -/

/-- a message is accepted by the open queue -/
theorem push_inv (h : Inv s) (hopen : s.closed = false) (m : IngestMsg) : Inv (s.push m) := by
  rw [Proc.push, if_neg (by simp [hopen])]
  refine { h with fifo := ?_, drained := fun hw => ?_ }
  · calc s.accepted ++ [m] = (s.attempts.flatten ++ s.batch ++ s.queue) ++ [m] := by rw [h.fifo]
      _ = s.attempts.flatten ++ s.batch ++ (s.queue ++ [m]) := List.append_assoc _ _ _
  · have hclosed := (h.drained hw).1
    rw [hopen] at hclosed
    cases hclosed

theorem flush_inv (h : Inv s) : Inv s.flush := by
  unfold Proc.flush
  split_ifs
  · exact h
  · refine { h with fifo := ?_, drained := fun hw => ?_ }
    · calc s.accepted = s.attempts.flatten ++ s.batch ++ s.queue := h.fifo
        _ = (s.attempts ++ [s.batch]).flatten ++ [] ++ s.queue := by simp
    · obtain ⟨hc, hq, -⟩ := h.drained hw
      exact ⟨hc, hq, rfl⟩

theorem receive_inv (h : Inv s) (hw : s.writerDone = false) : Inv s.receive := by
  unfold Proc.receive
  cases hq : s.queue with
  | nil => exact h
  | cons m rest =>
    have htake : Inv { s with queue := rest, batch := s.batch ++ [m] } := by
      refine { h with fifo := ?_, drained := fun hd => ?_ }
      · calc s.accepted = s.attempts.flatten ++ s.batch ++ (m :: rest) := by rw [h.fifo, hq]
          _ = s.attempts.flatten ++ (s.batch ++ [m]) ++ rest := by simp
      · rw [show s.writerDone = true from hd] at hw
        cases hw
    dsimp only
    split_ifs
    · exact flush_inv htake
    · exact htake

theorem active_set {backfills : List BackfillPC} {i : ℕ} {pc pc' : BackfillPC} (hi : backfills[i]? = some pc)
    (hpc : pc ≠ .exited) :
    active (backfills.set i pc') = active backfills - 1 + if pc' = .exited then 0 else 1 := by
  obtain ⟨hlt, rfl⟩ := List.getElem?_eq_some_iff.1 hi
  unfold active
  rw [List.countP_set hlt]
  by_cases hpc' : pc' = .exited
  · simp [hpc, hpc']
  · simp [hpc, hpc']

/-- a backfill moves on without returning -/
theorem setBackfill_inv (h : Inv s) {i : ℕ} {pc pc' : BackfillPC} (hi : s.backfills[i]? = some pc) (hpc : pc ≠ .exited)
    (hpc' : pc' ≠ .exited) : Inv (s.setBackfill i pc') := by
  have hpos := active_pos hi hpc
  have hact : active (s.backfills.set i pc') = active s.backfills := by
    rw [active_set hi hpc, if_neg hpc']
    omega
  refine { h with count := ?_ }
  show s.producers = sinkCount s.closer + active (s.backfills.set i pc') + addedCount s.sync
  rw [hact]
  exact h.count

/-- a backfill returns and gives up its count -/
theorem return_inv (h : Inv s) {i : ℕ} (hi : s.backfills[i]? = some .returning) :
    Inv (s.done.setBackfill i .exited) := by
  have hne : BackfillPC.returning ≠ .exited := BackfillPC.noConfusion
  have hpos := active_pos hi hne
  have hcount := h.count
  have hact : active (s.backfills.set i .exited) = active s.backfills - 1 := by
    rw [active_set hi hne, if_pos rfl, add_zero]
  rw [Proc.done, if_neg (by omega)]
  refine { h with count := ?_, none := fun hc => ?_ }
  · show s.producers - 1 = sinkCount s.closer + active (s.backfills.set i .exited) + addedCount s.sync
    omega
  · have hzero := h.none hc
    show s.producers - 1 = 0
    omega

/-! ## Every step keeps the invariant -/

theorem close_inv (h : Inv s) : Inv s.close := by
  have hcount := h.count
  have hsynced := h.synced
  unfold Proc.close
  cases hp : s.closer with
  | waiting =>
    rw [hp] at hcount
    dsimp only
    split_ifs
    · exact { h with
        count := hcount, synced := fun hs => hs.elim, silent := fun hs => absurd (Or.inr rfl) hs
        none := fun hc => (by rcases hc with hc | hc <;> cases hc)
        closed := fun hc => (by have := h.closed hc; rw [hp] at this; cases this) }
    · exact h
  | unsubscribing =>
    rw [hp] at hcount
    dsimp only
    split_ifs with hnone
    · exact { h with
        count := hcount, synced := fun hs => hs.elim, silent := fun _ => hnone
        none := fun hc => (by rcases hc with hc | hc <;> cases hc)
        closed := fun hc => (by have := h.closed hc; rw [hp] at this; cases this) }
    · exact h
  | syncing =>
    rw [hp] at hcount
    have hsilent := h.silent (by simp [Proc.subscribed, hp])
    dsimp only
    split_ifs with hstop
    · exact { h with
        count := hcount, synced := fun _ => hstop, silent := fun _ => hsilent
        none := fun hc => (by rcases hc with hc | hc <;> cases hc)
        closed := fun hc => (by have := h.closed hc; rw [hp] at this; cases this) }
    · exact h
  | releasing =>
    -- the sink has been counted until now
    rw [hp] at hcount hsynced
    have hsilent := h.silent (by simp [Proc.subscribed, hp])
    simp only [sinkCount] at hcount
    dsimp only
    rw [Proc.done, if_neg (by omega)]
    refine { h with
      count := ?_, synced := fun _ => hsynced trivial, silent := fun _ => hsilent
      none := fun hc => (by rcases hc with hc | hc <;> cases hc)
      closed := fun hc => (by have := h.closed hc; rw [hp] at this; cases this) }
    show s.producers - 1 = 0 + active s.backfills + addedCount s.sync
    omega
  | draining =>
    rw [hp] at hcount hsynced
    have hsilent := h.silent (by simp [Proc.subscribed, hp])
    dsimp only
    split_ifs with hzero
    · exact { h with
        count := hcount, synced := fun _ => hsynced trivial, silent := fun _ => hsilent
        none := fun _ => hzero
        closed := fun hc => (by have := h.closed hc; rw [hp] at this; cases this) }
    · exact h
  | closing =>
    rw [hp] at hcount hsynced
    have hsilent := h.silent (by simp [Proc.subscribed, hp])
    have hzero := h.none (Or.inl hp)
    exact { h with
      count := hcount, synced := fun _ => hsynced trivial, silent := fun _ => hsilent, none := fun _ => hzero
      closed := fun _ => rfl, drained := fun hw => ⟨rfl, (h.drained hw).2⟩ }
  | finished => exact h

/-- the sync loop moves on; it has not stopped, so the closer still waits for it -/
theorem sync_inv (h : Inv s) {old pc : SyncPC} (hpc : s.sync = old) (hrun : old ≠ .stopped) {producers : ℕ}
    {backfills : List BackfillPC}
    (hcount : s.producers = sinkCount s.closer + active s.backfills + addedCount old →
      producers = sinkCount s.closer + active backfills + addedCount pc) :
    Inv { s with sync := pc, producers := producers, backfills := backfills } := by
  have hclosing : ¬ Synced s.closer := fun hs => hrun (hpc.symm.trans (h.synced hs))
  refine { h with
    count := hcount (hpc ▸ h.count), synced := fun hs => absurd hs hclosing, none := fun hc => ?_ }
  exfalso
  apply hclosing
  rcases hc with hc | hc
  · rw [show s.closer = _ from hc]
    trivial
  · rw [show s.closer = _ from hc]
    trivial

/-- a step that a goroutine takes when it can -/
theorem Inv.guarded (h : Inv s) {c : Prop} [Decidable c] {s' : Proc} (hstep : c → Inv s') :
    Inv (if c then s' else s) := by
  split_ifs with hc
  · exact hstep hc
  · exact h

theorem sinkSend_inv (h : Inv s) : Inv (s.step .sinkSend) := by
  simp only [Proc.step]
  cases hm : s.sinkCall with
  | none => exact h
  | some m =>
    have hquiet : Inv { s with sinkCall := none } := { h with silent := fun _ => rfl }
    dsimp only
    split_ifs
    · exact push_inv hquiet (h.open_of_sinkCall hm) m
    · exact hquiet

theorem beginPass_inv (h : Inv s) : Inv (s.step .beginPass) := by
  simp only [Proc.step]
  split
  · rename_i hpc
    apply sync_inv h hpc SyncPC.noConfusion
    intro hcount
    split_ifs <;> exact hcount
  · rename_i hpc
    apply sync_inv h hpc SyncPC.noConfusion
    intro hcount
    split_ifs <;> exact hcount
  · exact h

/-- a backfill is counted before it starts -/
theorem spawn_inv (h : Inv s) (hpc : s.sync = .added) :
    Inv { s with sync := .passing, backfills := s.backfills ++ [.waiting] } := by
  apply sync_inv h hpc SyncPC.noConfusion
  intro hcount
  have hone : active (s.backfills ++ [.waiting]) = active s.backfills + 1 := by simp [active]
  simp only [addedCount] at hcount ⊢
  omega

/-- the message that ends a backfill -/
theorem sendDone_inv (h : Inv s) {i : ℕ} (hi : s.backfills[i]? = some .finishing) (m : IngestMsg) :
    Inv ((s.push m).setBackfill i .reporting) := by
  have hopen := h.open_of_backfill hi BackfillPC.noConfusion
  have hsame : (s.push m).backfills[i]? = some .finishing := by
    rw [Proc.push, if_neg (by simp [hopen])]
    exact hi
  exact setBackfill_inv (push_inv h hopen m) hsame BackfillPC.noConfusion BackfillPC.noConfusion

theorem giveUp_inv (h : Inv s) (i : ℕ) : Inv (s.giveUp i) := by
  unfold Proc.giveUp
  split
  · rename_i hi
    exact setBackfill_inv h hi BackfillPC.noConfusion BackfillPC.noConfusion
  · rename_i hi
    exact setBackfill_inv h hi BackfillPC.noConfusion BackfillPC.noConfusion
  · rename_i hi
    exact setBackfill_inv h hi BackfillPC.noConfusion BackfillPC.noConfusion
  · exact h

/-- the writer commits what it has, and returns -/
theorem drain_inv (h : Inv s) (hclosed : s.closed = true) (hqueue : s.queue = []) :
    Inv { s.flush with writerDone := true } := by
  have hempty : s.flush.closed = s.closed ∧ s.flush.queue = s.queue ∧ s.flush.batch = [] := by
    unfold Proc.flush
    split_ifs with hb
    · exact ⟨rfl, rfl, hb⟩
    · exact ⟨rfl, rfl, rfl⟩
  refine { flush_inv h with drained := fun _ => ⟨?_, ?_, hempty.2.2⟩ }
  · exact hempty.1.trans hclosed
  · exact hempty.2.1.trans hqueue

theorem step_inv (s : Proc) (a : Act) (h : Inv s) : Inv (s.step a) := by
  cases a with
  | cancel => exact { h with }
  | sinkCall m => exact h.guarded fun hc => { h with silent := fun hs => absurd hc.1 hs }
  | sinkSend => exact sinkSend_inv h
  | beginPass => exact beginPass_inv h
  | due =>
    refine h.guarded fun hpc => sync_inv h hpc SyncPC.noConfusion fun hcount => ?_
    split_ifs <;> exact hcount
  | add =>
    refine h.guarded fun hpc => sync_inv h hpc SyncPC.noConfusion fun hcount => ?_
    simp only [addedCount] at hcount ⊢
    omega
  | spawn => exact h.guarded fun hpc => spawn_inv h hpc
  | endPass => exact h.guarded fun hpc => sync_inv h hpc SyncPC.noConfusion fun hcount => hcount
  | result => exact h.guarded fun _ => { h with }
  | syncStop => exact h.guarded fun hc => sync_inv h hc.1 SyncPC.noConfusion fun hcount => hcount
  | acquire i => exact h.guarded fun hi => setBackfill_inv h hi BackfillPC.noConfusion BackfillPC.noConfusion
  | resolve i ok =>
    refine h.guarded fun hi => setBackfill_inv h hi BackfillPC.noConfusion ?_
    split_ifs <;> exact BackfillPC.noConfusion
  | send i m => exact h.guarded fun hc => push_inv h (h.open_of_backfill hc.1 BackfillPC.noConfusion) m
  | endRead i => exact h.guarded fun hi => setBackfill_inv h hi BackfillPC.noConfusion BackfillPC.noConfusion
  | sendDone i m => exact h.guarded fun hc => sendDone_inv h hc.1 m
  | report i =>
    refine h.guarded fun hc => ?_
    have hres : Inv { s with results := s.results + 1 } := { h with }
    exact setBackfill_inv hres hc.1 BackfillPC.noConfusion BackfillPC.noConfusion
  | giveUp i => exact h.guarded fun _ => giveUp_inv h i
  | backfillReturn i => exact h.guarded fun hi => return_inv h hi
  | close => exact close_inv h
  | receive =>
    simp only [Proc.step]
    split_ifs with hw
    · exact h
    · exact receive_inv h (by simpa using hw)
  | tick =>
    simp only [Proc.step]
    split_ifs
    · exact h
    · exact flush_inv h
  | drain => exact h.guarded fun hc => drain_inv h hc.2.1 hc.2.2
  | janitorStop => exact h.guarded fun _ => { h with }

/-- **Shutdown.** In every interleaving of the store's goroutines with the hub and the cancellation of the context: no
goroutine sends on the queue after it has been closed, and the producer count never goes below zero. Every message the
queue has accepted is in exactly one commit attempt, in the writer's batch or still queued, in the order of acceptance;
when `Wait` returns it has been part of a commit attempt. -/
theorem shutdown_safe (acts : List Act) :
    let s := run Proc.step .init acts
    s.panicked = false ∧ s.accepted = s.attempts.flatten ++ s.batch ++ s.queue ∧
      (s.waited → s.attempts.flatten = s.accepted ∧ ∀ m ∈ s.accepted, ∃ batch ∈ s.attempts, m ∈ batch) := by
  intro s
  have h : Inv s := run_preserves step_inv inv_init acts
  refine ⟨h.sane, h.fifo, fun hwait => ?_⟩
  obtain ⟨-, hq, hb⟩ := h.drained hwait.1
  have hall : s.attempts.flatten = s.accepted := by
    calc s.attempts.flatten = s.attempts.flatten ++ [] ++ [] := by simp
      _ = s.attempts.flatten ++ s.batch ++ s.queue := by rw [hb, hq]
      _ = s.accepted := h.fifo.symm
  refine ⟨hall, fun m hm => ?_⟩
  rw [← hall] at hm
  exact List.mem_flatten.1 hm

/-- a sink call and a backfill under way when the context is cancelled: both messages are committed before `Wait` returns -/
example :
    let line : IngestMsg := ⟨⟨"local", "aaa"⟩, "web", "", .line ⟨1, .stdout, 0, [104, 105]⟩⟩
    let done : IngestMsg := ⟨⟨"local", "aaa"⟩, "web", "", .done ""⟩
    let s := run Proc.step .init [.beginPass, .due, .add, .spawn, .sinkCall line, .cancel, .close, .close, .sinkSend,
      .close, .acquire 0, .resolve 0 true, .endRead 0, .endPass, .syncStop, .close, .close, .close, .sendDone 0 done, .giveUp 0,
      .backfillReturn 0, .close, .close, .receive, .receive, .drain, .janitorStop]
    s.waited ∧ s.attempts = [[line, done]] := by
  refine ⟨⟨rfl, rfl, rfl, rfl⟩, rfl⟩

end LogDeck.Shutdown
