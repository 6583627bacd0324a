/-
The live log stream of a container, and the watchdog that aborts it (`use-container-log-stream.ts`), together with the
monitor of the server that keeps a quiet stream alive (`docker/logs.go`). Times are in milliseconds.

An attempt begins with a new controller and a new activity time; from the second on the request waits for a capped
exponential backoff first. Any item of the stream sets the activity time, and the attempt counter back. A flush tick
aborts the controller when the activity is further back than the timeout. A tick that does not leaves everything as it
is, so a run lists the ticks that matter.

On the server an entry is written at any time; a monitor tick, every 15 s from the opening of the stream, writes a
heartbeat if no entry was written since the tick before. Items arrive in order, each less than 5 s after it was written.

The activity time of an attempt is taken before the backoff and not when the request is issued, so what a connection has
for its first item is the timeout less the backoff.

Results:
- `live_heard`: on a live connection something is heard every 35 s, and within 25 s of the request;
- `watchdog_iff`: an abort comes too early exactly at a tick that falls within the backoff after the timeout, on a
  connection that has had no item;
- `spared_of_attempts`: which no live connection sees before the sixth attempt in a row;
- `watchdog_aborts_live`: a quiet one that is aborted at the sixth, 15.1 s after its request.
-/
import LogDeck.Lib.Machine
import Mathlib.Tactic.Linarith
import Mathlib.Data.Int.Notation

namespace LogDeck.Frontend

def STREAM_IDLE_TIMEOUT_MS : ℤ := 45000

def RECONNECT_MIN_DELAY_MS : ℕ := 1000

def RECONNECT_MAX_DELAY_MS : ℕ := 30000

/-- `monitorInterval` of the server -/
def monitorInterval : ℤ := 15000

/-- the bound on the delivery of a request or an item -/
def latency : ℤ := 5000

/-- the wait before an attempt -/
def backoff (attempt : ℕ) : ℤ :=
  if attempt > 0 then (min (RECONNECT_MIN_DELAY_MS * 2 ^ (attempt - 1)) RECONNECT_MAX_DELAY_MS : ℕ) else 0

/-- where `startStreaming` is -/
inductive Phase where
  | waiting
  | connected
  | stopped
deriving DecidableEq, Repr

/-- the other end of a connection -/
structure Server where
  /-- it answers, and what it writes arrives -/
  live : Bool
  opened : Option ℤ
  /-- monitor ticks since the opening -/
  ticks : ℕ
  wroteEntry : Bool
  /-- when the items that are on their way were written -/
  inFlight : List ℤ
deriving DecidableEq, Repr

def Server.new (live : Bool) : Server :=
  { live := live
    opened := none
    ticks := 0
    wroteEntry := false
    inFlight := [] }

structure Stream where
  /-- the time of the last act -/
  now : ℤ
  phase : Phase
  attempt : ℕ
  lastActivity : ℤ
  /-- the signal of the controller -/
  aborted : Bool
  server : Server
  /-- ghost: when the request of the connection was issued -/
  requested : ℤ
  /-- ghost: when the last item of the connection was received -/
  received : Option ℤ
deriving DecidableEq, Repr

inductive Act where
  /-- `handleFlushTick` -/
  | flush (now : ℤ)
  /-- the wait is over -/
  | wake (now : ℤ) (live : Bool)
  /-- the server opens the stream -/
  | opens (now : ℤ)
  /-- the server writes an entry -/
  | writes (now : ℤ)
  /-- the monitor of the server ticks -/
  | monitor (now : ℤ)
  /-- the oldest item on its way is received -/
  | deliver (now : ℤ)
  /-- the connection ends or fails, an abort included -/
  | close (now : ℤ)
  /-- `stopStreaming` -/
  | stop (now : ℤ)
deriving DecidableEq, Repr

def Act.time : Act → ℤ
  | .flush now | .wake now _ | .opens now | .writes now | .monitor now | .deliver now | .close now | .stop now => now

def Act.isWake : Act → Bool
  | .wake _ _ => true
  | _ => false

def Act.isMonitor : Act → Bool
  | .monitor _ => true
  | _ => false

namespace Stream

/-- the request of an attempt is issued -/
def request (s : Stream) (now : ℤ) (live : Bool) : Stream :=
  { s with
    phase := .connected
    server := .new live
    requested := now
    received := none }

/-- the first attempt, whose request is issued at once -/
def start (now : ℤ) (live : Bool) : Stream :=
  { now := now
    phase := .connected
    attempt := 0
    lastActivity := now
    aborted := false
    server := .new live
    requested := now
    received := none }

/-- the next attempt: a new controller, a new activity time, and the wait -/
def retry (s : Stream) (now : ℤ) : Stream :=
  { s with
    phase := .waiting
    attempt := s.attempt + 1
    lastActivity := now
    aborted := false
    received := none }

/-- the watchdog finds the stream idle -/
def idle (s : Stream) (now : ℤ) : Bool := s.phase ≠ .stopped && decide (now - s.lastActivity > STREAM_IDLE_TIMEOUT_MS)

/-- an item comes out of the stream -/
def receive (s : Stream) (now : ℤ) : Stream :=
  match s.server.inFlight with
  | [] => s
  | _ :: later =>
    if s.aborted then s.retry now
    else
      { s with
        lastActivity := now
        attempt := 0
        server := { s.server with inFlight := later }
        received := some now }

/-- a tick of the monitor: `wroteEntry.Swap(false)` -/
def tick (sv : Server) (now : ℤ) : Server :=
  { sv with
    ticks := sv.ticks + 1
    wroteEntry := false
    inFlight := if sv.wroteEntry then sv.inFlight else sv.inFlight ++ [now] }

/-- one act; the acts of a phase do nothing in another -/
def perform (s : Stream) : Act → Stream
  | .flush now => if s.idle now then { s with aborted := true } else s
  | .wake now live =>
    if s.phase ≠ .waiting then s else if s.aborted then { s with phase := .stopped } else s.request now live
  | .opens now =>
    if s.phase = .connected ∧ s.server.opened = none then { s with server := { s.server with opened := some now } }
    else s
  | .writes now =>
    if s.phase = .connected ∧ s.server.opened ≠ none then
      { s with server := { s.server with wroteEntry := true, inFlight := s.server.inFlight ++ [now] } }
    else s
  | .monitor now =>
    if s.phase = .connected ∧ s.server.opened ≠ none then { s with server := tick s.server now } else s
  | .deliver now => if s.phase = .connected then s.receive now else s
  | .close now => if s.phase = .connected then s.retry now else s
  | .stop _ => { s with phase := .stopped }

def step (s : Stream) (a : Act) : Stream := { s with now := a.time }.perform a

/-! ## What the watchdog may do, and when -/

/-- the watchdog aborts the connection -/
def Aborts (s : Stream) (a : Act) : Prop := s.phase = .connected ∧ s.aborted = false ∧ (s.step a).aborted = true

/-- when the connection was last heard of: its last item, or its request -/
def heard (s : Stream) : ℤ := s.received.getD s.requested

/-- an abort is justified by a silence longer than the timeout -/
def Justified (s : Stream) (a : Act) : Prop := s.Aborts a → a.time - s.heard > STREAM_IDLE_TIMEOUT_MS

/-- a live connection is not aborted -/
def SparesLive (s : Stream) (a : Act) : Prop := s.Aborts a → s.server.live = false

/-- a connection that has had no item sees no flush tick within the backoff after the timeout -/
def Clear (s : Stream) : Act → Prop
  | .flush now => s.phase = .connected → s.aborted = false → s.received = none →
      now ≤ s.lastActivity + STREAM_IDLE_TIMEOUT_MS ∨
        s.lastActivity + STREAM_IDLE_TIMEOUT_MS + backoff s.attempt < now
  | _ => True

/-- the next tick of the monitor of a stream opened at a time -/
def nextTick (s : Stream) (opened : ℤ) : ℤ := opened + monitorInterval * ((s.server.ticks : ℤ) + 1)

/-- a live server: it opens the stream in time, ticks when a tick is due, and what it writes arrives in time -/
structure Prompt (s : Stream) (a : Act) : Prop where
  opens : s.server.opened = none → a.time < s.requested + latency
  ticks : ∀ opened ∈ s.server.opened, a.time ≤ s.nextTick opened
  monitor : a.isMonitor = true → ∀ opened ∈ s.server.opened, a.time = s.nextTick opened
  arrives : ∀ written ∈ s.server.inFlight, a.time < written + latency

/-- the clock does not go back, the wait takes the backoff, and live servers are prompt -/
structure OnTime (s : Stream) (a : Act) : Prop where
  clock : s.now ≤ a.time
  wait : s.phase = .waiting → s.aborted = false → a.time ≤ s.lastActivity + backoff s.attempt
  wake : s.phase = .waiting → s.aborted = false → a.isWake = true → a.time = s.lastActivity + backoff s.attempt
  prompt : s.phase = .connected → s.aborted = false → s.server.live = true → s.Prompt a

instance (s : Stream) (a : Act) : Decidable (s.Prompt a) :=
  decidable_of_iff ((s.server.opened = none → a.time < s.requested + latency) ∧
      (∀ opened ∈ s.server.opened, a.time ≤ s.nextTick opened) ∧
      (a.isMonitor = true → ∀ opened ∈ s.server.opened, a.time = s.nextTick opened) ∧
      ∀ written ∈ s.server.inFlight, a.time < written + latency)
    ⟨fun ⟨h1, h2, h3, h4⟩ => ⟨h1, h2, h3, h4⟩, fun h => ⟨h.opens, h.ticks, h.monitor, h.arrives⟩⟩

instance (s : Stream) (a : Act) : Decidable (s.OnTime a) :=
  decidable_of_iff (s.now ≤ a.time ∧
      (s.phase = .waiting → s.aborted = false → a.time ≤ s.lastActivity + backoff s.attempt) ∧
      (s.phase = .waiting → s.aborted = false → a.isWake = true → a.time = s.lastActivity + backoff s.attempt) ∧
      (s.phase = .connected → s.aborted = false → s.server.live = true → s.Prompt a))
    ⟨fun ⟨h1, h2, h3, h4⟩ => ⟨h1, h2, h3, h4⟩, fun h => ⟨h.clock, h.wait, h.wake, h.prompt⟩⟩

end Stream

/-! ## What a live server writes -/

/-- items come no more than two ticks apart: the first is written by a time, each later one within 30 s, and what is
still to come may be as late as the end -/
def Spaced (last : ℤ) : ℤ → List ℤ → Prop
  | due, [] => last ≤ due
  | due, written :: later => written ≤ due ∧ Spaced last (written + 2 * monitorInterval) later

theorem Spaced.mono {last last' due : ℤ} {ws : List ℤ} (h : Spaced last due ws) (hle : last' ≤ last) :
    Spaced last' due ws := by
  induction ws generalizing due with
  | nil => exact hle.trans h
  | cons w ws ih => exact ⟨h.1, ih h.2⟩

theorem Spaced.append {last last' due w : ℤ} {ws : List ℤ} (h : Spaced last due ws) (hw : w ≤ last)
    (hlast : last' ≤ w + 2 * monitorInterval) : Spaced last' due (ws ++ [w]) := by
  induction ws generalizing due with
  | nil => exact ⟨hw.trans h, hlast⟩
  | cons w' ws ih => exact ⟨h.1, ih h.2⟩

namespace Stream

/-- when the next item is written at the latest -/
def nextWrite (s : Stream) (opened : ℤ) : ℤ :=
  if s.server.wroteEntry then s.nextTick opened + monitorInterval else s.nextTick opened

/-- an open stream of a live server -/
structure Flows (s : Stream) (opened : ℤ) : Prop where
  prompt : opened < s.requested + latency
  past : opened + monitorInterval * (s.server.ticks : ℤ) ≤ s.now
  written : ∀ w ∈ s.server.inFlight, w ≤ s.now
  items : ∃ due, due ≤ s.heard + 2 * monitorInterval ∧
    (s.received = none → due ≤ opened + monitorInterval) ∧ Spaced (s.nextWrite opened) due s.server.inFlight

/-- nothing has been written before the stream is open -/
structure Unopened (s : Stream) : Prop where
  received : s.received = none
  inFlight : s.server.inFlight = []
  wroteEntry : s.server.wroteEntry = false
  ticks : s.server.ticks = 0

structure Inv (s : Stream) : Prop where
  waiting : s.phase = .waiting → s.received = none
  waits : s.phase = .waiting → s.aborted = false
  lag : s.phase = .connected → s.received = none → s.requested = s.lastActivity + backoff s.attempt
  activity : s.phase = .connected → ∀ t, s.received = some t → s.lastActivity = t
  flows : s.phase = .connected → s.aborted = false → s.server.live = true →
    (s.server.opened = none → s.Unopened) ∧ ∀ opened, s.server.opened = some opened → s.Flows opened

section
variable {s : Stream} {a : Act}

theorem backoff_bounds (n : ℕ) : 0 ≤ backoff n ∧ backoff n ≤ RECONNECT_MAX_DELAY_MS := by
  unfold backoff
  split_ifs
  · exact ⟨Int.natCast_nonneg _, Int.ofNat_le.mpr (Nat.min_le_right _ _)⟩
  · exact ⟨le_rfl, Int.natCast_nonneg _⟩

/-- **Live connections.** Until it is aborted, a live connection is heard of within 35 s, and within 25 s of its
request. -/
theorem live_heard (hi : s.Inv) (hphase : s.phase = .connected) (habort : s.aborted = false)
    (hlive : s.server.live = true) (hprompt : s.Prompt a) :
    a.time < s.heard + 35000 ∧ (s.received = none → a.time < s.requested + 25000) := by
  obtain ⟨hunopened, hopened⟩ := hi.flows hphase habort hlive
  cases ho : s.server.opened with
  | none =>
    have hfresh := (hunopened ho).received
    have htime := hprompt.opens ho
    unfold heard
    rw [hfresh]
    unfold latency at htime
    exact ⟨by dsimp only [Option.getD]; omega, fun _ => by omega⟩
  | some opened =>
    obtain ⟨hreq, -, -, due, hdue, hfirst, hspaced⟩ := hopened opened ho
    -- whatever is written next is written by `due`, and arrives in time
    have htime : a.time < due + latency := by
      cases hitems : s.server.inFlight with
      | nil =>
        rw [hitems] at hspaced
        have htick := hprompt.ticks opened ho
        have hlast : s.nextTick opened ≤ s.nextWrite opened := by
          unfold nextWrite monitorInterval
          split_ifs <;> omega
        have hend : s.nextWrite opened ≤ due := hspaced
        unfold latency
        omega
      | cons w later =>
        rw [hitems] at hspaced
        have harrives := hprompt.arrives w (hitems ▸ List.mem_cons_self)
        have hw := hspaced.1
        omega
    unfold latency at htime hreq
    unfold monitorInterval at hdue hfirst
    refine ⟨by omega, fun hnone => ?_⟩
    have hdue' := hfirst hnone
    omega

theorem flush_aborted (s : Stream) (now : ℤ) : (s.perform (.flush now)).aborted = (s.idle now || s.aborted) := by
  simp only [perform]
  split_ifs with h <;> simp [h]

/-- an abort is a tick that finds the stream idle -/
theorem aborts_iff : s.Aborts a ↔ s.phase = .connected ∧ s.aborted = false ∧
    ∃ now, a = .flush now ∧ now - s.lastActivity > STREAM_IDLE_TIMEOUT_MS := by
  unfold Aborts step
  refine and_congr_right fun hphase => and_congr_right fun habort => ?_
  cases a with
  | flush now =>
    rw [flush_aborted]
    simp [idle, hphase, habort]
  | wake now live => simp [perform, hphase, habort]
  | opens now =>
    simp only [perform, reduceCtorEq, false_and, exists_false, iff_false]
    split_ifs <;> simp [habort]
  | writes now =>
    simp only [perform, reduceCtorEq, false_and, exists_false, iff_false]
    split_ifs <;> simp [habort]
  | monitor now =>
    simp only [perform, reduceCtorEq, false_and, exists_false, iff_false]
    split_ifs <;> simp [habort]
  | deliver now =>
    simp only [perform, receive, reduceCtorEq, false_and, exists_false, iff_false]
    split_ifs <;> split <;> simp [habort, retry]
  | close now => simp [perform, retry, hphase]
  | stop now => simp [perform, habort]

/-- the watchdog does not find a waiting attempt idle: the longest backoff is shorter than the timeout -/
theorem not_idle_waiting {now : ℤ} (hwait : now ≤ s.lastActivity + backoff s.attempt) : s.idle now = false := by
  have hmax := (backoff_bounds s.attempt).2
  have hnot : ¬ now - s.lastActivity > STREAM_IDLE_TIMEOUT_MS := by
    unfold RECONNECT_MAX_DELAY_MS at hmax
    unfold STREAM_IDLE_TIMEOUT_MS
    push_cast at hmax
    omega
  simp [idle, hnot]

theorem Inv.later (hi : s.Inv) {now : ℤ} (hnow : s.now ≤ now) : ({ s with now := now } : Stream).Inv := by
  refine ⟨hi.waiting, hi.waits, hi.lag, hi.activity, fun hphase habort hlive => ?_⟩
  obtain ⟨hunopened, hopened⟩ := hi.flows hphase habort hlive
  refine ⟨fun ho => ⟨(hunopened ho).received, (hunopened ho).inFlight, (hunopened ho).wroteEntry, (hunopened ho).ticks⟩,
    fun opened ho => ?_⟩
  have hflows := hopened opened ho
  exact ⟨hflows.prompt, hflows.past.trans hnow, fun w hw => (hflows.written w hw).trans hnow, hflows.items⟩

/-! ### One lemma for each act -/

theorem flush_inv (hi : s.Inv) {now : ℤ} (hwait : s.phase = .waiting → now ≤ s.lastActivity + backoff s.attempt) :
    (s.perform (.flush now)).Inv := by
  simp only [perform]
  split_ifs with hidle
  · refine ⟨hi.waiting, fun hphase => ?_, hi.lag, hi.activity, nofun⟩
    rw [not_idle_waiting (hwait hphase)] at hidle
    cases hidle
  · exact hi

theorem request_inv {now : ℤ} (hrequest : now = s.lastActivity + backoff s.attempt) (live : Bool) :
    (s.request now live).Inv :=
  ⟨nofun, nofun, fun _ _ => hrequest, nofun, fun _ _ _ => ⟨fun _ => ⟨rfl, rfl, rfl, rfl⟩, nofun⟩⟩

theorem retry_inv (s : Stream) (now : ℤ) : (s.retry now).Inv := ⟨fun _ => rfl, fun _ => rfl, nofun, nofun, nofun⟩

theorem opens_inv (hi : s.Inv) (hphase : s.phase = .connected) (hnone : s.server.opened = none)
    (hprompt : s.aborted = false → s.server.live = true → s.now < s.requested + latency) :
    ({ s with server := { s.server with opened := some s.now } } : Stream).Inv := by
  refine ⟨hi.waiting, hi.waits, hi.lag, hi.activity, fun _ habort hlive => ⟨nofun, fun opened ho => ?_⟩⟩
  cases ho
  have hfresh := (hi.flows hphase habort hlive).1 hnone
  have hreq := hprompt habort hlive
  refine ⟨hreq, ?_, ?_, s.now + monitorInterval, ?_, fun _ => le_rfl, ?_⟩
  · simp [hfresh.ticks]
  · simp [hfresh.inFlight]
  · simp only [heard, hfresh.received, Option.getD_none]
    unfold latency at hreq
    unfold monitorInterval
    omega
  · simp [Spaced, nextWrite, nextTick, hfresh.inFlight, hfresh.wroteEntry, hfresh.ticks]

theorem writes_inv (hi : s.Inv) (hphase : s.phase = .connected)
    (hprompt : ∀ opened, s.aborted = false → s.server.live = true → s.server.opened = some opened →
      s.now ≤ s.nextTick opened) (hopen : s.server.opened ≠ none) :
    ({ s with server := { s.server with wroteEntry := true, inFlight := s.server.inFlight ++ [s.now] } } :
      Stream).Inv := by
  refine ⟨hi.waiting, hi.waits, hi.lag, hi.activity, fun _ habort hlive => ⟨fun hnone => absurd hnone hopen, ?_⟩⟩
  intro opened ho
  have hflows := (hi.flows hphase habort hlive).2 opened ho
  obtain ⟨due, hdue, hfirst, hspaced⟩ := hflows.items
  have htick := hprompt opened habort hlive ho
  have hpast := hflows.past
  refine ⟨hflows.prompt, hpast, ?_, due, hdue, hfirst, hspaced.append ?_ ?_⟩
  · intro w hw
    rcases List.mem_append.mp hw with hw | hw
    · exact hflows.written w hw
    · exact (List.mem_singleton.mp hw).le
  · unfold nextWrite monitorInterval
    split_ifs <;> omega
  · unfold nextWrite nextTick monitorInterval at *
    simp only [if_true]
    omega

theorem tick_inv (hi : s.Inv) (hphase : s.phase = .connected)
    (hprompt : ∀ opened, s.aborted = false → s.server.live = true → s.server.opened = some opened →
      s.now = s.nextTick opened) (hopen : s.server.opened ≠ none) :
    ({ s with server := tick s.server s.now } : Stream).Inv := by
  refine ⟨hi.waiting, hi.waits, hi.lag, hi.activity, fun _ habort hlive => ⟨fun hnone => absurd hnone hopen, ?_⟩⟩
  intro opened ho
  have hflows := (hi.flows hphase habort hlive).2 opened ho
  obtain ⟨due, hdue, hfirst, hspaced⟩ := hflows.items
  have htick := hprompt opened habort hlive ho
  refine ⟨hflows.prompt, ?_, ?_, due, hdue, hfirst, ?_⟩
  · simp only [tick]
    push_cast
    exact htick.ge
  · intro w hw
    simp only [tick] at hw
    split_ifs at hw
    · exact hflows.written w hw
    · rcases List.mem_append.mp hw with hw | hw
      · exact hflows.written w hw
      · exact (List.mem_singleton.mp hw).le
  · unfold nextWrite nextTick monitorInterval at *
    cases hwrote : s.server.wroteEntry with
    | true =>
      simp only [tick, hwrote, if_true] at hspaced ⊢
      refine hspaced.mono ?_
      push_cast
      omega
    | false =>
      simp only [tick, hwrote, Bool.false_eq_true, if_false] at hspaced ⊢
      refine hspaced.append ?_ ?_
      · omega
      · push_cast
        unfold monitorInterval
        omega

theorem receive_inv (hi : s.Inv) (hphase : s.phase = .connected) : (s.receive s.now).Inv := by
  unfold receive
  cases hitems : s.server.inFlight with
  | nil => exact hi
  | cons w later =>
    dsimp only
    split_ifs with haborted
    · exact retry_inv s s.now
    · refine ⟨fun hw => absurd (hphase.symm.trans hw) nofun, fun hw => absurd (hphase.symm.trans hw) nofun, nofun,
        fun _ t ht => Option.some.inj ht, fun _ habort hlive => ⟨fun hnone => ?_, fun opened ho => ?_⟩⟩
      · have hempty := ((hi.flows hphase habort hlive).1 hnone).inFlight
        rw [hitems] at hempty
        cases hempty
      · have hflows := (hi.flows hphase habort hlive).2 opened ho
        obtain ⟨due, -, -, hspaced⟩ := hflows.items
        rw [hitems] at hspaced
        have hw : w ≤ s.now := hflows.written w (hitems ▸ List.mem_cons_self)
        have hlater : ∀ w' ∈ later, w' ≤ s.now := fun w' hw' =>
          hflows.written w' (hitems ▸ List.mem_cons_of_mem _ hw')
        refine ⟨hflows.prompt, hflows.past, hlater, w + 2 * monitorInterval, ?_, nofun, hspaced.2⟩
        simp only [heard, Option.getD_some]
        omega

/-- **One act.** Acts on time keep the invariant. -/
theorem step_inv (hi : s.Inv) (ha : s.OnTime a) : (s.step a).Inv := by
  have hi' : ({ s with now := a.time } : Stream).Inv := hi.later ha.clock
  unfold step
  cases a with
  | flush now => exact flush_inv hi' fun hphase => ha.wait hphase (hi.waits hphase)
  | wake now live =>
    simp only [perform]
    split_ifs with hphase haborted
    · exact hi'
    · exact ⟨nofun, nofun, nofun, nofun, nofun⟩
    · have hwake := ha.wake (not_not.mp hphase) (hi.waits (not_not.mp hphase)) rfl
      exact request_inv (s := { s with now := now }) hwake live
  | opens now =>
    simp only [perform]
    split_ifs with h
    · exact opens_inv hi' h.1 h.2 fun habort hlive => (ha.prompt h.1 habort hlive).opens h.2
    · exact hi'
  | writes now =>
    simp only [perform]
    split_ifs with h
    · exact writes_inv hi' h.1 (fun opened habort hlive ho => (ha.prompt h.1 habort hlive).ticks opened ho) h.2
    · exact hi'
  | monitor now =>
    simp only [perform]
    split_ifs with h
    · exact tick_inv hi' h.1 (fun opened habort hlive ho => (ha.prompt h.1 habort hlive).monitor rfl opened ho) h.2
    · exact hi'
  | deliver now =>
    simp only [perform]
    split_ifs with h
    · exact receive_inv hi' h
    · exact hi'
  | close now =>
    simp only [perform]
    split_ifs
    · exact retry_inv _ now
    · exact hi'
  | stop now => exact ⟨nofun, nofun, nofun, nofun, nofun⟩

theorem start_inv (now : ℤ) (live : Bool) : (start now live).Inv :=
  ⟨nofun, nofun, fun _ _ => (add_zero now).symm, nofun, fun _ _ _ => ⟨fun _ => ⟨rfl, rfl, rfl, rfl⟩, nofun⟩⟩

/-! ## Aborts -/

/-- an abort comes too early when the activity time is from before the backoff -/
theorem justified_iff (hi : s.Inv) : s.Justified a ↔ s.Clear a := by
  unfold Justified
  rw [aborts_iff]
  cases a with
  | flush now =>
    constructor
    · intro h hphase habort hfresh
      have hlag := hi.lag hphase hfresh
      by_contra hnot
      push Not at hnot
      obtain ⟨hlate, hearly⟩ := hnot
      have hsilent := h ⟨hphase, habort, now, rfl, by omega⟩
      simp only [heard, hfresh, Option.getD_none, Act.time] at hsilent
      omega
    · rintro h ⟨hphase, habort, now', hflush, hidle⟩
      cases hflush
      cases hreceived : s.received with
      | none =>
        have hlag := hi.lag hphase hreceived
        have hclear := h hphase habort hreceived
        simp only [heard, hreceived, Option.getD_none, Act.time]
        omega
      | some t =>
        have hactivity := hi.activity hphase t hreceived
        simp only [heard, hreceived, Option.getD_some, Act.time]
        omega
  | _ => exact ⟨fun _ => trivial, fun _ ⟨_, _, _, hflush, _⟩ => absurd hflush nofun⟩

/-- a live connection is never silent for the timeout, so it is spared exactly when no abort comes too early -/
theorem spares_iff (hi : s.Inv) (ha : s.OnTime a) : s.SparesLive a ↔ (s.server.live = true → s.Clear a) := by
  constructor
  · intro h hlive
    refine (justified_iff hi).mp fun habort => ?_
    rw [h habort] at hlive
    cases hlive
  · intro h habort
    by_contra hlive
    rw [Bool.not_eq_false] at hlive
    have hsilent := (justified_iff hi).mpr (h hlive) habort
    obtain ⟨hphase, hfalse, -⟩ := habort
    have hheard := (live_heard hi hphase hfalse hlive (ha.prompt hphase hfalse hlive)).1
    unfold STREAM_IDLE_TIMEOUT_MS at hsilent
    omega

/-- before the sixth attempt in a row the backoff leaves time for the first heartbeat -/
theorem clear_of_attempts (hi : s.Inv) (ha : s.OnTime a) (hlive : s.server.live = true) (hfew : s.attempt ≤ 5) :
    s.Clear a := by
  cases a with
  | flush now =>
    intro hphase habort hfresh
    have hlag := hi.lag hphase hfresh
    have hheard := (live_heard hi hphase habort hlive (ha.prompt hphase habort hlive)).2 hfresh
    have hshort : ∀ n ≤ 5, backoff n ≤ 16000 := by decide
    have hbackoff := hshort s.attempt hfew
    unfold STREAM_IDLE_TIMEOUT_MS
    simp only [Act.time] at hheard
    omega
  | _ => trivial

end

/-- **The watchdog.** In every run on time, the aborts are all justified by a silence longer than the timeout exactly
when no flush tick finds a connection that has had no item within the backoff after the timeout; and no live connection
is aborted exactly when none of those ticks finds a live one. -/
theorem watchdog_iff (time : ℤ) (live : Bool) (acts : List Act) (h : Machine.Each step OnTime (start time live) acts) :
    (Machine.Each step Justified (start time live) acts ↔ Machine.Each step Clear (start time live) acts) ∧
      (Machine.Each step SparesLive (start time live) acts ↔
        Machine.Each step (fun s a => s.server.live = true → s.Clear a) (start time live) acts) := by
  have hstep : ∀ s a, Inv s → OnTime s a → Inv (s.step a) := fun _ _ hi ha => step_inv hi ha
  have hstart := start_inv time live
  exact ⟨Machine.each_iff_contract hstep (fun _ _ hi _ => justified_iff hi) hstart h,
    Machine.each_iff_contract hstep (fun _ _ hi ha => spares_iff hi ha) hstart h⟩

/-- **Few attempts.** In a run in which no live connection is the sixth attempt in a row, or a later one, the watchdog
aborts none of them. -/
theorem spared_of_attempts (time : ℤ) (live : Bool) (acts : List Act)
    (h : Machine.Each step (fun s a => s.OnTime a ∧ (s.server.live = true → s.attempt ≤ 5)) (start time live) acts) :
    Machine.Each step SparesLive (start time live) acts :=
  Machine.each_of_contract (fun _ _ hi ha => step_inv hi ha.1)
    (fun _ _ hi ha => (spares_iff hi ha.1).mpr fun hlive => clear_of_attempts hi ha.1 hlive (ha.2 hlive))
    (start_inv time live) h

/-- a live connection of the first attempt, with two heartbeats -/
theorem watchdog_spares_first : Machine.Each step SparesLive (start 0 true)
    [.opens 100, .monitor 15100, .deliver 15200, .flush 30100, .monitor 30100, .deliver 30200] := by
  refine (watchdog_iff 0 true _ (by decide)).2.mpr ?_
  refine ⟨fun _ => trivial, fun _ => trivial, fun _ => trivial, fun _ _ _ => nofun, fun _ => trivial, fun _ => trivial,
    trivial⟩

/-- five reconnects that fail at once, and a sixth that is answered: its first heartbeat is on its way -/
def quietRun : List Act :=
  [.close 0, .wake 1000 false, .close 1000, .wake 3000 false, .close 3000, .wake 7000 false, .close 7000,
    .wake 15000 false, .close 15000, .wake 31000 false, .close 31000, .wake 61000 true, .opens 61100, .monitor 76100]

/-- the tick at 76.1 s aborts the live connection that was requested at 61 s -/
theorem watchdog_aborts_live :
    Machine.Each step OnTime (start 0 false) (quietRun ++ [.flush 76100]) ∧
      (Machine.run step (start 0 false) quietRun).Aborts (.flush 76100) ∧
      (Machine.run step (start 0 false) quietRun).server.live = true ∧
      (Machine.run step (start 0 false) quietRun).heard = 61000 := by
  unfold Aborts
  decide

end Stream

end LogDeck.Frontend
