/-
The log stream hook (`use-container-log-stream.ts`: `startStreaming`, `stopStreaming`, `flushPendingLogs`,
`handleFlushTick`, `togglePauseStreaming`).

Every call of `startStreaming` is a session: a loop of connections that goes on in the background until it breaks, and
then runs its `finally`. The sessions share the hook's state and refs. An act is what one of them does between two
awaits, or a call of the user, or a tick of the flush interval, in any order; a call without container or host returns
at once and is no act. Times are in milliseconds.

An entry carries the request that fetched it, and `received` what a session has received, as ghosts.

Results:
- `flush_eq`, `finish_eq`: what a flush and the `finally` of a session do to the hook;
- `Kept.flush`, `Kept.sync`: a flush and a trim lose no entry that they do not count;
- `shape_step`: the controllers belong to one session each, and the shared one to the newest.
-/
import LogDeck.Frontend.Watchdog

namespace LogDeck.Frontend.LogStream

variable {α : Type}

/-- an entry, with the request that fetched it -/
structure Entry (α : Type) where
  owner : ℕ
  body : α
deriving DecidableEq, Repr

/-- where a session is -/
inductive Phase where
  /-- the backoff before a reconnect -/
  | waiting
  | reading
  /-- it has left the stream, whose return it awaits -/
  | leaving
  | ended
deriving DecidableEq, Repr

/-- the locals of a session; the abort controllers are numbered -/
structure Session (α : Type) where
  phase : Phase
  attempt : ℕ
  controller : ℕ
  hasReceivedFirstEntry : Bool
  received : List (Entry α)
deriving DecidableEq, Repr

structure Hook (α : Type) where
  logs : List (Entry α)
  isLoadingLogs : Bool
  isStreaming : Bool
  isReconnecting : Bool
  isStreamPaused : Bool
  bufferedCount : ℕ
  droppedCount : ℕ
  bufferedDroppedCount : ℕ
  abortController : Option ℕ
  /-- the controllers whose signal is aborted -/
  aborted : List ℕ
  stopRequested : Bool
  lastActivity : ℤ
  bufferedLogs : List (Entry α)
  pendingLogs : List (Entry α)
  logsLength : ℕ
  maxLogLines : ℕ
  /-- the session whose interval it is -/
  flushInterval : Option ℕ
  sessions : ℕ → Option (Session α)
  /-- the session started last -/
  newest : Option ℕ
  controllers : ℕ
  requests : ℕ

inductive Act (α : Type) where
  /-- `startStreaming` -/
  | start (now : ℤ)
  /-- `stopStreaming` -/
  | stop
  /-- `togglePauseStreaming` -/
  | togglePause
  | setMaxLogLines (n : ℕ)
  /-- a tick of the flush interval -/
  | tick (now : ℤ)
  /-- the backoff of a session is over -/
  | wake (id : ℕ)
  /-- the stream of a session yields an entry, or a heartbeat -/
  | item (id : ℕ) (now : ℤ) (entry : Option α)
  /-- the stream of a session ends, fails or is aborted, or its return is done -/
  | close (id : ℕ) (now : ℤ)
deriving DecidableEq, Repr

namespace Hook

def init (maxLogLines : ℕ) : Hook α :=
  { logs := []
    isLoadingLogs := false
    isStreaming := false
    isReconnecting := false
    isStreamPaused := false
    bufferedCount := 0
    droppedCount := 0
    bufferedDroppedCount := 0
    abortController := none
    aborted := []
    stopRequested := false
    lastActivity := 0
    bufferedLogs := []
    pendingLogs := []
    logsLength := 0
    maxLogLines := maxLogLines
    flushInterval := none
    sessions := fun _ => none
    newest := none
    controllers := 0
    requests := 0 }

def resetPauseAndBuffer (h : Hook α) : Hook α :=
  { h with
    isStreamPaused := false
    bufferedCount := 0
    bufferedLogs := [] }

def resetDroppedCount (h : Hook α) : Hook α :=
  { h with
    droppedCount := 0
    bufferedDroppedCount := 0 }

/-- one update with the cap applied; what falls off the front was displayed, or pending -/
def flushPendingLogs (h : Hook α) : Hook α :=
  if h.pendingLogs.length = 0 then h
  else
    let total := h.logsLength + h.pendingLogs.length
    let dropped := total - h.maxLogLines
    let droppedFromDisplayed := min h.logsLength dropped
    let next := h.logs ++ h.pendingLogs
    { h with
      pendingLogs := []
      logs := if next.length > h.maxLogLines then next.drop (next.length - h.maxLogLines) else next
      logsLength := total - dropped
      droppedCount := h.droppedCount + droppedFromDisplayed
      bufferedDroppedCount := h.bufferedDroppedCount + (dropped - droppedFromDisplayed) }

/-- the backlog of a paused stream, capped -/
def syncBufferedLogs (h : Hook α) : Hook α :=
  let excess := h.bufferedLogs.length - h.maxLogLines
  { h with
    bufferedDroppedCount := h.bufferedDroppedCount + excess
    bufferedLogs := h.bufferedLogs.drop excess
    bufferedCount := (h.bufferedLogs.drop excess).length }

def abort (h : Hook α) (controller : ℕ) : Hook α := { h with aborted := controller :: h.aborted }

/-- the idle watchdog -/
def watchdog (h : Hook α) (now : ℤ) : Hook α :=
  match h.abortController with
  | some controller => if now - h.lastActivity > STREAM_IDLE_TIMEOUT_MS then h.abort controller else h
  | none => h

def handleFlushTick (h : Hook α) (now : ℤ) : Hook α :=
  if h.isStreamPaused then (h.watchdog now).syncBufferedLogs else (h.watchdog now).flushPendingLogs

def tick (h : Hook α) (now : ℤ) : Hook α :=
  match h.flushInterval with
  | some _ => h.handleFlushTick now
  | none => h

def setSession (h : Hook α) (id : ℕ) (s : Session α) : Hook α :=
  { h with sessions := Function.update h.sessions id (some s) }

/-- the head of a session's loop: a new controller, and the backoff from the second connection on -/
def connect (h : Hook α) (id : ℕ) (s : Session α) (attempt : ℕ) (now : ℤ) : Hook α :=
  { h with
    controllers := h.controllers + 1
    abortController := some h.controllers
    lastActivity := now
    isReconnecting := if attempt > 0 then true else h.isReconnecting }.setSession id
      { s with
        phase := if attempt > 0 then .waiting else .reading
        attempt := attempt
        controller := h.controllers }

def startStreaming (h : Hook α) (now : ℤ) : Hook α :=
  { h.resetPauseAndBuffer.resetDroppedCount with
    isStreaming := true
    isLoadingLogs := true
    logs := []
    logsLength := 0
    pendingLogs := []
    stopRequested := false
    flushInterval := some h.requests
    newest := some h.requests
    requests := h.requests + 1 }.connect h.requests ⟨.reading, 0, h.controllers, false, []⟩ 0 now

def stopStreaming (h : Hook α) : Hook α :=
  { h.resetPauseAndBuffer with
    stopRequested := true
    aborted := h.abortController.toList ++ h.aborted
    abortController := none
    isStreaming := false
    isReconnecting := false }

/-- the `finally` of a session -/
def finish (h : Hook α) (id : ℕ) (s : Session α) : Hook α :=
  { { h with flushInterval := none }.flushPendingLogs with
    isLoadingLogs := false
    isStreaming := false
    isReconnecting := false
    abortController := if h.abortController = some s.controller then none else h.abortController }.setSession id
      { s with phase := .ended }

def wake (h : Hook α) (id : ℕ) : Hook α :=
  match h.sessions id with
  | some s =>
    if s.phase = .waiting then
      if h.stopRequested ∨ s.controller ∈ h.aborted then h.finish id s else h.setSession id { s with phase := .reading }
    else h
  | none => h

/-- an entry goes to the backlog of a paused stream, else it is pending -/
def push (h : Hook α) (e : Entry α) : Hook α :=
  if h.isStreamPaused then { h with bufferedLogs := h.bufferedLogs ++ [e] }
  else { h with pendingLogs := h.pendingLogs ++ [e] }

/-- what any item does: the activity, the backoff, and the flags -/
def heard (h : Hook α) (id : ℕ) (s : Session α) (now : ℤ) (entries : List (Entry α)) : Hook α :=
  { h with
    lastActivity := now
    isReconnecting := false
    isLoadingLogs := if s.hasReceivedFirstEntry then h.isLoadingLogs else false }.setSession id
      { s with
        attempt := 0
        hasReceivedFirstEntry := true
        received := s.received ++ entries }

def item (h : Hook α) (id : ℕ) (now : ℤ) (entry : Option α) : Hook α :=
  match h.sessions id with
  | some s =>
    if s.phase = .reading then
      if s.controller ∈ h.aborted then h.setSession id { s with phase := .leaving }
      else
        match entry with
        | none => h.heard id s now []
        | some body => (h.heard id s now [⟨id, body⟩]).push ⟨id, body⟩
    else h
  | none => h

/-- after the stream: the session ends when it was stopped or replaced, and connects again otherwise -/
def close (h : Hook α) (id : ℕ) (now : ℤ) : Hook α :=
  match h.sessions id with
  | some s =>
    if s.phase = .reading ∨ s.phase = .leaving then
      if h.stopRequested ∨ h.abortController ≠ some s.controller then h.finish id s
      else h.connect id s (s.attempt + 1) now
    else h
  | none => h

/-- the backlog of a paused stream joins what is pending, and is flushed -/
def resume (h : Hook α) : Hook α :=
  if h.bufferedLogs.length > 0 then
    { h with
      isStreamPaused := false
      bufferedCount := 0
      pendingLogs := h.pendingLogs ++ h.bufferedLogs
      bufferedLogs := [] }.flushPendingLogs
  else
    { h with
      isStreamPaused := false
      bufferedCount := 0 }

def togglePauseStreaming (h : Hook α) : Hook α :=
  if h.isStreaming then
    if h.isStreamPaused then h.resume else { h.flushPendingLogs with isStreamPaused := true }
  else h

def step (h : Hook α) : Act α → Hook α
  | .start now => h.startStreaming now
  | .stop => h.stopStreaming
  | .togglePause => h.togglePauseStreaming
  | .setMaxLogLines n => { h with maxLogLines := n }
  | .tick now => h.tick now
  | .wake id => h.wake id
  | .item id now entry => h.item id now entry
  | .close id now => h.close id now

end Hook

/-! ## Flushing -/

/-- every entry received is displayed, pending or buffered, in the order it was received, or counted as dropped -/
structure Kept (h : Hook α) (received : List (Entry α)) : Prop where
  order : (h.logs ++ h.pendingLogs ++ h.bufferedLogs).Sublist received
  count : received.length = h.logs.length + h.pendingLogs.length + h.bufferedLogs.length +
    (h.droppedCount + h.bufferedDroppedCount)

variable {h : Hook α} {received : List (Entry α)}

/-- the slice of a list that is over the cap -/
theorem slice_eq {β : Type} (ls : List β) (n : ℕ) :
    (if ls.length > n then ls.drop (ls.length - n) else ls) = ls.drop (ls.length - n) := by
  split_ifs with hmax
  · rfl
  · rw [Nat.sub_eq_zero_of_le (not_lt.1 hmax), List.drop_zero]

/-- a flush moves the pending entries, and counts as many as it drops from the front -/
theorem flush_eq (hlen : h.logsLength = h.logs.length) :
    ∃ k d b, k ≤ h.logs.length + h.pendingLogs.length ∧ d + b = h.droppedCount + h.bufferedDroppedCount + k ∧
      h.flushPendingLogs =
        { h with
          pendingLogs := []
          logs := (h.logs ++ h.pendingLogs).drop k
          logsLength := h.logs.length + h.pendingLogs.length - k
          droppedCount := d
          bufferedDroppedCount := b } := by
  unfold Hook.flushPendingLogs
  split_ifs with h0
  · have hnil : h.pendingLogs = [] := List.length_eq_zero_iff.1 h0
    refine ⟨0, h.droppedCount, h.bufferedDroppedCount, Nat.zero_le _, rfl, ?_⟩
    rw [hnil, List.append_nil, List.drop_zero, List.length_nil, Nat.add_zero, Nat.sub_zero, ← hlen, ← hnil]
  · refine ⟨h.logs.length + h.pendingLogs.length - h.maxLogLines,
      h.droppedCount + min h.logs.length (h.logs.length + h.pendingLogs.length - h.maxLogLines),
      h.bufferedDroppedCount + (h.logs.length + h.pendingLogs.length - h.maxLogLines -
        min h.logs.length (h.logs.length + h.pendingLogs.length - h.maxLogLines)), Nat.sub_le _ _, by omega, ?_⟩
    have hslice := slice_eq (h.logs ++ h.pendingLogs) h.maxLogLines
    rw [List.length_append] at hslice
    simp only [List.length_append, hlen, hslice]

theorem watchdog_eq (h : Hook α) (now : ℤ) : ∃ aborted, h.watchdog now = { h with aborted := aborted } := by
  unfold Hook.watchdog
  split
  · split_ifs
    · exact ⟨_, rfl⟩
    · exact ⟨h.aborted, rfl⟩
  · exact ⟨h.aborted, rfl⟩

/-- **A flush loses no entry** that it does not count. -/
theorem Kept.flush (hlen : h.logsLength = h.logs.length) (hk : Kept h received) : Kept h.flushPendingLogs received := by
  obtain ⟨k, d, b, hle, hcount, e⟩ := flush_eq hlen
  have hsum := hk.count
  rw [e]
  refine ⟨?_, ?_⟩
  · dsimp only
    rw [List.append_nil]
    exact ((List.drop_sublist k _).append_right _).trans hk.order
  · dsimp only
    rw [List.length_drop, List.length_append, List.length_nil]
    omega

/-- **A trim loses no entry** that it does not count. -/
theorem Kept.sync (hk : Kept h received) : Kept h.syncBufferedLogs received := by
  have hsum := hk.count
  refine ⟨((List.drop_sublist _ _).append_left _).trans hk.order, ?_⟩
  dsimp only [Hook.syncBufferedLogs]
  rw [List.length_drop]
  omega

theorem Kept.abort (hk : Kept h received) (aborted : List ℕ) : Kept { h with aborted := aborted } received :=
  ⟨hk.order, hk.count⟩

/-- an entry of the session itself -/
theorem Kept.push (hk : Kept h received) (hpaused : h.isStreamPaused = false → h.bufferedLogs = []) (e : Entry α) :
    Kept (h.push e) (received ++ [e]) := by
  have hsum := hk.count
  have horder := hk.order
  unfold Hook.push
  split_ifs with hp
  · refine ⟨?_, ?_⟩
    · dsimp only
      rw [← List.append_assoc]
      exact horder.append_right [e]
    · simp only [List.length_append, List.length_singleton]
      omega
  · have hnil : h.bufferedLogs = [] := hpaused (Bool.eq_false_iff.2 hp)
    rw [hnil, List.append_nil] at horder
    refine ⟨?_, ?_⟩
    · dsimp only
      rw [hnil, List.append_nil, ← List.append_assoc]
      exact horder.append_right [e]
    · simp only [List.length_append, List.length_singleton]
      omega

/-! ## The shape of the hook -/

/-- what holds whoever acts: the controllers belong to one session each, the shared one to the newest, and a stream that
is paused has nothing pending, one that is not has no backlog -/
structure Shape (h : Hook α) : Prop where
  fresh : ∀ id s, h.sessions id = some s → id < h.requests ∧ s.controller < h.controllers
  distinct : ∀ i j s t, h.sessions i = some s → h.sessions j = some t → s.controller = t.controller → i = j
  owner : ∀ c, h.abortController = some c → ∃ n s, h.newest = some n ∧ h.sessions n = some s ∧ s.controller = c
  length : h.logsLength = h.logs.length
  paused : h.isStreamPaused = true → h.pendingLogs = []
  running : h.isStreamPaused = false → h.bufferedLogs = []

theorem shape_init (n : ℕ) : Shape (Hook.init n : Hook α) :=
  { fresh := by simp [Hook.init]
    distinct := by simp [Hook.init]
    owner := by simp [Hook.init]
    length := rfl
    paused := fun _ => rfl
    running := fun _ => rfl }

theorem Shape.flush (hs : Shape h) : Shape h.flushPendingLogs := by
  obtain ⟨k, d, b, hle, -, e⟩ := flush_eq hs.length
  rw [e]
  refine ⟨hs.fresh, hs.distinct, hs.owner, ?_, fun _ => rfl, hs.running⟩
  dsimp only
  rw [List.length_drop, List.length_append]

@[simp] theorem setSession_self (h : Hook α) (id : ℕ) (s : Session α) : (h.setSession id s).sessions id = some s :=
  Function.update_self _ _ _

theorem setSession_other (h : Hook α) {id j : ℕ} (hj : j ≠ id) (s : Session α) :
    (h.setSession id s).sessions j = h.sessions j := Function.update_of_ne hj _ _

/-- a session that goes on with its controller -/
theorem Shape.setSession (hs : Shape h) {id : ℕ} {s t : Session α} (hid : h.sessions id = some s)
    (hc : t.controller = s.controller) : Shape (h.setSession id t) := by
  have hlook : ∀ j u, (h.setSession id t).sessions j = some u →
      ∃ u', h.sessions j = some u' ∧ u'.controller = u.controller := by
    intro j u hu
    by_cases e : j = id
    · subst e
      rw [setSession_self] at hu
      obtain rfl := Option.some.inj hu
      exact ⟨s, hid, hc.symm⟩
    · rw [setSession_other h e] at hu
      exact ⟨u, hu, rfl⟩
  refine ⟨fun j u hu => ?_, fun i j u v hu hv e => ?_, fun c hcon => ?_, hs.length, hs.paused, hs.running⟩
  · obtain ⟨u', hu', e⟩ := hlook j u hu
    rw [← e]
    exact hs.fresh j u' hu'
  · obtain ⟨u', hu', eu⟩ := hlook i u hu
    obtain ⟨v', hv', ev⟩ := hlook j v hv
    exact hs.distinct i j u' v' hu' hv' (eu.trans (e.trans ev.symm))
  · obtain ⟨n, u, hn, hu, e⟩ := hs.owner c hcon
    by_cases en : n = id
    · subst en
      rw [hid] at hu
      obtain rfl := Option.some.inj hu
      exact ⟨n, t, hn, setSession_self h n t, hc.trans e⟩
    · exact ⟨n, u, hn, (setSession_other h en t).trans hu, e⟩

/-- the newest session takes a new controller -/
theorem Shape.connect (hs : Shape h) {id : ℕ} {s : Session α} (hnew : h.newest = some id) (hid : id < h.requests)
    (attempt : ℕ) (now : ℤ) : Shape (h.connect id s attempt now) := by
  have hlook : ∀ j u, (h.connect id s attempt now).sessions j = some u →
      (j = id ∧ u.controller = h.controllers) ∨ (j ≠ id ∧ h.sessions j = some u) := by
    intro j u hu
    by_cases e : j = id
    · subst e
      rw [Hook.connect, setSession_self] at hu
      obtain rfl := Option.some.inj hu
      exact Or.inl ⟨rfl, rfl⟩
    · rw [Hook.connect, setSession_other _ e] at hu
      exact Or.inr ⟨e, hu⟩
  refine ⟨fun j u hu => ?_, fun i j u v hu hv e => ?_, fun c hcon => ?_, hs.length, hs.paused, hs.running⟩
  · change j < h.requests ∧ u.controller < h.controllers + 1
    rcases hlook j u hu with ⟨rfl, e⟩ | ⟨-, hu⟩
    · exact ⟨hid, by omega⟩
    · have hold := hs.fresh j u hu
      exact ⟨hold.1, by omega⟩
  · rcases hlook i u hu with ⟨ei, eu⟩ | ⟨-, hu'⟩
    · rcases hlook j v hv with ⟨ej, -⟩ | ⟨-, hv'⟩
      · exact ei.trans ej.symm
      · have hold := (hs.fresh j v hv').2
        omega
    · rcases hlook j v hv with ⟨-, ev⟩ | ⟨-, hv'⟩
      · have hold := (hs.fresh i u hu').2
        omega
      · exact hs.distinct i j u v hu' hv' e
  · obtain rfl := Option.some.inj hcon
    exact ⟨id, _, hnew, setSession_self _ _ _, rfl⟩

/-- what the `finally` of a session does to the hook -/
theorem finish_eq (hlen : h.logsLength = h.logs.length) (id : ℕ) (s : Session α) :
    ∃ k d b, k ≤ h.logs.length + h.pendingLogs.length ∧ d + b = h.droppedCount + h.bufferedDroppedCount + k ∧
      h.finish id s =
        { h with
          flushInterval := none
          pendingLogs := []
          logs := (h.logs ++ h.pendingLogs).drop k
          logsLength := h.logs.length + h.pendingLogs.length - k
          droppedCount := d
          bufferedDroppedCount := b
          isLoadingLogs := false
          isStreaming := false
          isReconnecting := false
          abortController := if h.abortController = some s.controller then none else h.abortController }.setSession id
            { s with phase := .ended } := by
  have hlen' : { h with flushInterval := none }.logsLength = { h with flushInterval := none }.logs.length := hlen
  obtain ⟨k, d, b, hle, hcount, e⟩ := flush_eq hlen'
  exact ⟨k, d, b, hle, hcount, by rw [Hook.finish, e]⟩

theorem Shape.finish (hs : Shape h) {id : ℕ} {s : Session α} (hid : h.sessions id = some s) : Shape (h.finish id s) := by
  obtain ⟨k, d, b, -, -, e⟩ := finish_eq hs.length id s
  have hbase : Shape
      { h with
        flushInterval := none
        pendingLogs := []
        logs := (h.logs ++ h.pendingLogs).drop k
        logsLength := h.logs.length + h.pendingLogs.length - k
        droppedCount := d
        bufferedDroppedCount := b
        isLoadingLogs := false
        isStreaming := false
        isReconnecting := false
        abortController := if h.abortController = some s.controller then none else h.abortController } := by
    refine ⟨hs.fresh, hs.distinct, fun c hc => ?_, ?_, fun _ => rfl, hs.running⟩
    · dsimp only at hc
      split_ifs at hc
      exact hs.owner c hc
    · dsimp only
      rw [List.length_drop, List.length_append]
  rw [e]
  exact hbase.setSession hid rfl

theorem Shape.push (hs : Shape h) (e : Entry α) : Shape (h.push e) := by
  unfold Hook.push
  split_ifs with hp
  · exact ⟨hs.fresh, hs.distinct, hs.owner, hs.length, hs.paused, fun hr => Bool.noConfusion (hp.symm.trans hr)⟩
  · exact ⟨hs.fresh, hs.distinct, hs.owner, hs.length, fun hr => absurd hr hp, hs.running⟩

theorem Shape.heard (hs : Shape h) {id : ℕ} {s : Session α} (hid : h.sessions id = some s) (now : ℤ)
    (entries : List (Entry α)) : Shape (h.heard id s now entries) := by
  have hbase : Shape
      { h with
        lastActivity := now
        isReconnecting := false
        isLoadingLogs := if s.hasReceivedFirstEntry then h.isLoadingLogs else false } :=
    ⟨hs.fresh, hs.distinct, hs.owner, hs.length, hs.paused, hs.running⟩
  exact hbase.setSession hid rfl

/-- a start, up to the first connection -/
theorem shape_start (hs : Shape h) (now : ℤ) : Shape (h.startStreaming now) := by
  have hbase : Shape
      { h.resetPauseAndBuffer.resetDroppedCount with
        isStreaming := true
        isLoadingLogs := true
        logs := []
        logsLength := 0
        pendingLogs := []
        stopRequested := false
        flushInterval := some h.requests
        newest := some h.requests
        requests := h.requests + 1
        abortController := none } := by
    refine ⟨fun id s hid => ?_, hs.distinct, fun c hc => (by cases hc), rfl, fun _ => rfl, fun _ => rfl⟩
    obtain ⟨hlt, hc⟩ := hs.fresh id s hid
    exact ⟨Nat.lt_succ_of_lt hlt, hc⟩
  exact hbase.connect rfl (Nat.lt_succ_self _) 0 now

theorem shape_tick (hs : Shape h) (now : ℤ) : Shape (h.tick now) := by
  unfold Hook.tick
  cases h.flushInterval with
  | none => exact hs
  | some owner =>
    obtain ⟨aborted, e⟩ := watchdog_eq h now
    have hw : Shape (h.watchdog now) := by
      rw [e]
      exact ⟨hs.fresh, hs.distinct, hs.owner, hs.length, hs.paused, hs.running⟩
    dsimp only
    unfold Hook.handleFlushTick
    split_ifs
    · refine ⟨hw.fresh, hw.distinct, hw.owner, hw.length, hw.paused, fun hr => ?_⟩
      dsimp only [Hook.syncBufferedLogs]
      rw [hw.running hr, List.drop_nil]
    · exact hw.flush

/-- a paused stream has nothing pending, so that there is nothing to flush without a backlog -/
theorem resume_eq (hs : Shape h) (hp : h.isStreamPaused = true) :
    h.resume =
      { h with
        isStreamPaused := false
        bufferedCount := 0
        pendingLogs := h.pendingLogs ++ h.bufferedLogs
        bufferedLogs := [] }.flushPendingLogs := by
  unfold Hook.resume
  split_ifs with hlen
  · rfl
  · have hnil : h.bufferedLogs = [] := List.length_eq_zero_iff.1 (Nat.eq_zero_of_not_pos hlen)
    have hpending := hs.paused hp
    rw [Hook.flushPendingLogs, if_pos (by simp [hnil, hpending])]
    rw [hnil, List.append_nil]

theorem shape_togglePause (hs : Shape h) : Shape h.togglePauseStreaming := by
  unfold Hook.togglePauseStreaming
  split_ifs with hstreaming hp
  · rw [resume_eq hs hp]
    refine Shape.flush ⟨hs.fresh, hs.distinct, hs.owner, hs.length, fun hr => ?_, fun _ => rfl⟩
    cases hr
  · obtain ⟨k, d, b, -, -, e⟩ := flush_eq hs.length
    have hf := hs.flush
    rw [e] at hf ⊢
    exact ⟨hf.fresh, hf.distinct, hf.owner, hf.length, fun _ => rfl, fun hr => by cases hr⟩
  · exact hs

theorem shape_wake (hs : Shape h) (id : ℕ) : Shape (h.wake id) := by
  unfold Hook.wake
  cases hid : h.sessions id with
  | none => exact hs
  | some s =>
    dsimp only
    split_ifs
    · exact hs.finish hid
    · exact hs.setSession hid rfl
    · exact hs

theorem shape_item (hs : Shape h) (id : ℕ) (now : ℤ) (entry : Option α) : Shape (h.item id now entry) := by
  unfold Hook.item
  cases hid : h.sessions id with
  | none => exact hs
  | some s =>
    dsimp only
    split_ifs
    · exact hs.setSession hid rfl
    · cases entry with
      | none => exact hs.heard hid now []
      | some body => exact (hs.heard hid now _).push _
    · exact hs

theorem shape_close (hs : Shape h) (id : ℕ) (now : ℤ) : Shape (h.close id now) := by
  unfold Hook.close
  cases hid : h.sessions id with
  | none => exact hs
  | some s =>
    dsimp only
    split_ifs with hphase hbreak
    · exact hs.finish hid
    · push Not at hbreak
      -- only the newest session has the shared controller
      obtain ⟨n, t, hn, ht, e⟩ := hs.owner _ hbreak.2
      obtain rfl := hs.distinct n id t s ht hid e
      exact hs.connect hn (hs.fresh n s hid).1 _ now
    · exact hs

theorem shape_step (hs : Shape h) (a : Act α) : Shape (h.step a) := by
  cases a with
  | start now => exact shape_start hs now
  | stop => exact ⟨hs.fresh, hs.distinct, fun c hc => (by cases hc), hs.length, fun hr => (by cases hr), fun _ => rfl⟩
  | togglePause => exact shape_togglePause hs
  | setMaxLogLines n => exact ⟨hs.fresh, hs.distinct, hs.owner, hs.length, hs.paused, hs.running⟩
  | tick now => exact shape_tick hs now
  | wake id => exact shape_wake hs id
  | item id now entry => exact shape_item hs id now entry
  | close id now => exact shape_close hs id now

end LogDeck.Frontend.LogStream
