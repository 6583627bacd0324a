/-
The buffers of one session of the log stream hook, and the pins of the viewer (`use-log-pins.ts`:
`shiftPinsForDroppedLines`, `useLogPins`; `log-viewer.tsx`: `handleTogglePinSelected`).

An entry that is received is pending, or in the backlog of a paused stream, until a flush displays it. Each of the
arrays is trimmed from the front, and two counters tell what the displayed one and the other two have lost. A pin is an
index into the displayed rows; after a render it is shifted by what the first counter has grown.

A render takes the rows and the counter of the hook together, and its effect on the pins runs before anything else
happens to the viewer. A mark, a ghost, says for a place among all entries ever displayed which entry a pin was set on.

Results:
- `step_moves`: what an act does to the buffers, as moves of a window that is trimmed from the front;
- `pinned_step`: a pin stays on its mark;
- `buffers_conserve`: both, for whole sessions.
-/
import LogDeck.Frontend.Grouper
import LogDeck.Frontend.LogStream
import LogDeck.Lib.Backlog

namespace LogDeck.Frontend.LogStream

open Backlog Machine

variable {α : Type}

/-! ## One session -/

/-- an act that neither starts nor stops a session, nor changes the maximum -/
def Act.unstopped : Act α → Bool
  | .start _ | .stop | .setMaxLogLines _ => false
  | .togglePause | .tick _ | .wake _ | .item .. | .close .. => true

/-- what the first session has received -/
def Hook.received (h : Hook α) : List (Entry α) := ((h.sessions 0).map Session.received).getD []

/-- the hook has one session at most, and its buffers and counters are those of the window -/
structure Views (m : ℕ) (h : Hook α) (w : Window (Entry α)) : Prop where
  shown : w.shown = h.logs
  waiting : w.waiting = h.pendingLogs ++ h.bufferedLogs
  expired : w.expired.length = h.droppedCount
  discarded : w.discarded.length = h.bufferedDroppedCount
  length : h.logsLength = h.logs.length
  cap : h.logs.length ≤ h.maxLogLines
  max : h.maxLogLines = m
  alone : ∀ id, id ≠ 0 → h.sessions id = none

variable {m : ℕ} {h : Hook α} {w : Window (Entry α)}

/-- a flush within the cap, by what is over it -/
theorem flush_exact (hlen : h.logsLength = h.logs.length) (hcap : h.logs.length ≤ h.maxLogLines) :
    h.flushPendingLogs =
      { h with
        pendingLogs := []
        logs := (h.logs ++ h.pendingLogs).drop (h.logs.length + h.pendingLogs.length - h.maxLogLines)
        logsLength := h.logs.length + h.pendingLogs.length - (h.logs.length + h.pendingLogs.length - h.maxLogLines)
        droppedCount := h.droppedCount + min h.logs.length (h.logs.length + h.pendingLogs.length - h.maxLogLines)
        bufferedDroppedCount := h.bufferedDroppedCount + (h.logs.length + h.pendingLogs.length - h.maxLogLines -
          min h.logs.length (h.logs.length + h.pendingLogs.length - h.maxLogLines)) } := by
  unfold Hook.flushPendingLogs
  split_ifs with h0
  · have hnil : h.pendingLogs = [] := List.length_eq_zero_iff.1 h0
    have hover : h.logs.length + h.pendingLogs.length - h.maxLogLines = 0 := by omega
    rw [hover, Nat.min_zero, h0, hnil, List.append_nil, List.drop_zero, ← hlen, ← hnil]
    rfl
  · have hslice := slice_eq (h.logs ++ h.pendingLogs) h.maxLogLines
    rw [List.length_append] at hslice
    simp only [List.length_append, hlen, hslice]

theorem flush_moves (hv : Views m h w) :
    ∃ moves, arrivals moves = [] ∧ Views m h.flushPendingLogs (run Window.step w moves) := by
  have hle : h.logs.length + h.pendingLogs.length - h.maxLogLines ≤ w.shown.length + h.pendingLogs.length := by
    rw [hv.shown]
    omega
  refine ⟨_, arrivals_flush w.shown.length h.pendingLogs.length (h.logs.length + h.pendingLogs.length - h.maxLogLines),
    ?_⟩
  rw [run_flush hv.waiting hle, flush_exact hv.length hv.cap]
  refine ⟨?_, rfl, ?_, ?_, ?_, ?_, hv.max, hv.alone⟩
  · dsimp only
    rw [hv.shown]
  · dsimp only
    rw [List.length_append, List.length_take, hv.expired, hv.shown, Nat.min_comm]
  · dsimp only
    rw [List.length_append, List.length_take, hv.discarded, hv.shown]
    omega
  · dsimp only
    rw [List.length_drop, List.length_append]
  · dsimp only
    rw [List.length_drop, List.length_append]
    omega

/-- a trim of the backlog of a paused stream, which has nothing pending -/
theorem sync_moves (hv : Views m h w) (hpending : h.pendingLogs = []) :
    ∃ moves, arrivals moves = [] ∧ Views m h.syncBufferedLogs (run Window.step w moves) := by
  have hwaiting : w.waiting = h.bufferedLogs := by rw [hv.waiting, hpending, List.nil_append]
  refine ⟨List.replicate (h.bufferedLogs.length - h.maxLogLines) .discard, by simp [arrivals], ?_⟩
  rw [run_discards (by rw [hwaiting]; omega), hwaiting]
  refine ⟨hv.shown, ?_, hv.expired, ?_, hv.length, hv.cap, hv.max, hv.alone⟩
  · dsimp only [Hook.syncBufferedLogs]
    rw [hpending, List.nil_append]
  · dsimp only [Hook.syncBufferedLogs]
    rw [List.length_append, List.length_take, hv.discarded]
    omega

theorem received_setSession {id : ℕ} {s t : Session α} (hid : h.sessions id = some s)
    (ht : t.received = s.received) : (h.setSession id t).received = h.received := by
  unfold Hook.received
  by_cases h0 : id = 0
  · subst h0
    rw [setSession_self, hid]
    exact ht
  · rw [setSession_other h (Ne.symm h0)]

theorem Views.setSession (hv : Views m h w) {id : ℕ} {s t : Session α} (hid : h.sessions id = some s) :
    Views m (h.setSession id t) w := by
  refine ⟨hv.shown, hv.waiting, hv.expired, hv.discarded, hv.length, hv.cap, hv.max, fun j hj => ?_⟩
  have h0 : id = 0 := by
    by_contra hne
    rw [hv.alone id hne] at hid
    cases hid
  rw [setSession_other h (h0 ▸ hj)]
  exact hv.alone j hj

/-- an act has been done, in moves with these arrivals -/
def Done (m : ℕ) (h h' : Hook α) (w : Window (Entry α)) : Prop :=
  ∃ moves, h'.received = h.received ++ arrivals moves ∧ Views m h' (run Window.step w moves)

theorem Done.still {h' : Hook α} (hreceived : h'.received = h.received) (hv : Views m h' w) : Done m h h' w :=
  ⟨[], by rw [hreceived]; exact (List.append_nil _).symm, hv⟩

/-- a flush and what goes with it -/
theorem Done.flushed {h' h'' : Hook α} (hreceived : h''.received = h.received)
    (hmoves : ∃ moves, arrivals moves = [] ∧ Views m h' (run Window.step w moves))
    (hviews : ∀ {w'}, Views m h' w' → Views m h'' w') : Done m h h'' w := by
  obtain ⟨moves, hnone, hv⟩ := hmoves
  exact ⟨moves, by rw [hreceived, hnone, List.append_nil], hviews hv⟩

theorem flush_sessions (h : Hook α) : h.flushPendingLogs.sessions = h.sessions := by
  unfold Hook.flushPendingLogs
  split_ifs <;> rfl

theorem flush_received (h : Hook α) : h.flushPendingLogs.received = h.received := by
  unfold Hook.received
  rw [flush_sessions]

theorem done_finish (hv : Views m h w) {id : ℕ} {s : Session α} (hid : h.sessions id = some s) :
    Done m h (h.finish id s) w := by
  have hbase : Views m { h with flushInterval := none } w :=
    ⟨hv.shown, hv.waiting, hv.expired, hv.discarded, hv.length, hv.cap, hv.max, hv.alone⟩
  have hid' : { h with flushInterval := none }.flushPendingLogs.sessions id = some s := by
    rw [flush_sessions]
    exact hid
  refine Done.flushed ?_ (flush_moves hbase) fun {w'} hflushed => ?_
  · unfold Hook.finish
    exact Eq.trans (received_setSession (s := s) hid' rfl) (flush_received { h with flushInterval := none })
  · refine Views.setSession (s := s) ?_ hid'
    exact ⟨hflushed.shown, hflushed.waiting, hflushed.expired, hflushed.discarded, hflushed.length, hflushed.cap,
      hflushed.max, hflushed.alone⟩

theorem done_wake (hv : Views m h w) (id : ℕ) : Done m h (h.wake id) w := by
  unfold Hook.wake
  cases hid : h.sessions id with
  | none => exact .still rfl hv
  | some s =>
    dsimp only
    split_ifs
    · exact done_finish hv hid
    · exact .still (received_setSession hid rfl) (hv.setSession hid)
    · exact .still rfl hv

theorem done_close (hv : Views m h w) (id : ℕ) (now : ℤ) : Done m h (h.close id now) w := by
  unfold Hook.close
  cases hid : h.sessions id with
  | none => exact .still rfl hv
  | some s =>
    dsimp only
    split_ifs
    · exact done_finish hv hid
    · refine .still (received_setSession (s := s) hid rfl) (Views.setSession (s := s) ?_ hid)
      exact ⟨hv.shown, hv.waiting, hv.expired, hv.discarded, hv.length, hv.cap, hv.max, hv.alone⟩
    · exact .still rfl hv

theorem done_tick (hs : Shape h) (hv : Views m h w) (now : ℤ) : Done m h (h.tick now) w := by
  unfold Hook.tick
  cases h.flushInterval with
  | none => exact .still rfl hv
  | some owner =>
    obtain ⟨aborted, e⟩ := watchdog_eq h now
    have hv' : Views m (h.watchdog now) w := by
      rw [e]
      exact ⟨hv.shown, hv.waiting, hv.expired, hv.discarded, hv.length, hv.cap, hv.max, hv.alone⟩
    have hreceived : (h.watchdog now).received = h.received := by
      rw [e]
      rfl
    dsimp only
    unfold Hook.handleFlushTick
    split_ifs with hp
    · have hpending : (h.watchdog now).pendingLogs = [] := by
        rw [e]
        exact hs.paused hp
      exact .flushed hreceived (sync_moves hv' hpending) fun hw => hw
    · exact .flushed ((flush_received _).trans hreceived) (flush_moves hv') fun hw => hw

theorem done_togglePause (hs : Shape h) (hv : Views m h w) : Done m h h.togglePauseStreaming w := by
  unfold Hook.togglePauseStreaming
  split_ifs with hstreaming hp
  · rw [resume_eq hs hp]
    have hbase : Views m
        { h with
          isStreamPaused := false
          bufferedCount := 0
          pendingLogs := h.pendingLogs ++ h.bufferedLogs
          bufferedLogs := [] } w :=
      ⟨hv.shown, hv.waiting.trans (List.append_nil _).symm, hv.expired, hv.discarded, hv.length, hv.cap, hv.max, hv.alone⟩
    exact .flushed (flush_received _) (flush_moves hbase) fun hw => hw
  · refine .flushed (flush_received h) (flush_moves hv) fun hw => ?_
    exact ⟨hw.shown, hw.waiting, hw.expired, hw.discarded, hw.length, hw.cap, hw.max, hw.alone⟩
  · exact .still rfl hv

/-- an entry waits where its session puts it -/
theorem Views.push (hs : Shape h) (hv : Views m h w) (e : Entry α) :
    Views m (h.push e) { w with waiting := w.waiting ++ [e] } := by
  unfold Hook.push
  split_ifs with hp
  · refine ⟨hv.shown, ?_, hv.expired, hv.discarded, hv.length, hv.cap, hv.max, hv.alone⟩
    dsimp only
    rw [hv.waiting, List.append_assoc]
  · refine ⟨hv.shown, ?_, hv.expired, hv.discarded, hv.length, hv.cap, hv.max, hv.alone⟩
    have hnil := hs.running (Bool.eq_false_iff.2 hp)
    dsimp only
    rw [hv.waiting, hnil, List.append_nil, List.append_nil]

theorem push_received (h : Hook α) (e : Entry α) : (h.push e).received = h.received := by
  unfold Hook.push
  split_ifs <;> rfl

theorem done_item (hs : Shape h) (hv : Views m h w) (id : ℕ) (now : ℤ) (entry : Option α) :
    Done m h (h.item id now entry) w := by
  unfold Hook.item
  cases hid : h.sessions id with
  | none => exact .still rfl hv
  | some s =>
    dsimp only
    have hheard : ∀ entries, Views m (h.heard id s now entries) w := by
      intro entries
      unfold Hook.heard
      refine Views.setSession (s := s) ?_ hid
      exact ⟨hv.shown, hv.waiting, hv.expired, hv.discarded, hv.length, hv.cap, hv.max, hv.alone⟩
    have h0 : id = 0 := by
      by_contra hne
      rw [hv.alone id hne] at hid
      cases hid
    have hreceived : ∀ entries, (h.heard id s now entries).received = h.received ++ entries := by
      intro entries
      unfold Hook.received Hook.heard
      rw [h0] at hid ⊢
      rw [setSession_self, hid]
      rfl
    split_ifs
    · exact .still (received_setSession hid rfl) (hv.setSession hid)
    · cases entry with
      | none => exact .still ((hreceived []).trans (List.append_nil _)) (hheard [])
      | some body =>
        refine ⟨[.arrive ⟨id, body⟩], ?_, (hheard _).push (hs.heard hid now _) _⟩
        exact (push_received _ _).trans (hreceived _)
    · exact .still rfl hv

/-- **An act, in moves.** -/
theorem step_moves (hs : Shape h) (hv : Views m h w) (a : Act α) (ha : a.unstopped = true) : Done m h (h.step a) w := by
  cases a with
  | start | stop | setMaxLogLines => cases ha
  | togglePause => exact done_togglePause hs hv
  | tick now => exact done_tick hs hv now
  | wake id => exact done_wake hv id
  | item id now entry => exact done_item hs hv id now entry
  | close id now => exact done_close hv id now

/-- what a tick leaves of the backlog -/
theorem tick_buffered (hs : Shape h) (now : ℤ) (hticks : h.flushInterval.isSome = true) :
    (h.tick now).bufferedLogs.length ≤ h.maxLogLines := by
  obtain ⟨owner, howner⟩ := Option.isSome_iff_exists.1 hticks
  obtain ⟨aborted, e⟩ := watchdog_eq h now
  unfold Hook.tick
  rw [howner]
  dsimp only
  unfold Hook.handleFlushTick
  rw [e]
  split_ifs with hp
  · dsimp only [Hook.syncBufferedLogs]
    rw [List.length_drop]
    omega
  · have hnil := hs.running (Bool.eq_false_iff.2 hp)
    unfold Hook.flushPendingLogs
    split_ifs <;> simp [hnil]

theorem views_start (m : ℕ) (now : ℤ) : Views m ((Hook.init m : Hook α).startStreaming now) {} := by
  refine ⟨rfl, rfl, rfl, rfl, rfl, Nat.zero_le _, rfl, fun id hid => ?_⟩
  exact setSession_other _ hid _

theorem received_start (m : ℕ) (now : ℤ) : ((Hook.init m : Hook α).startStreaming now).received = [] := by
  unfold Hook.received Hook.startStreaming Hook.connect
  exact congrArg (fun s => (Option.map Session.received s).getD []) (setSession_self _ 0 _)

/-! ## Pins -/

/-- `shiftPinsForDroppedLines` -/
def shiftPinsForDroppedLines (pins : Finset ℕ) (delta : ℤ) : Finset ℕ :=
  if delta ≤ 0 ∨ pins.card = 0 then pins
  else (pins.filter fun index : ℕ => (index : ℤ) - delta ≥ 0).image fun index : ℕ => ((index : ℤ) - delta).toNat

structure Viewer where
  hook : Hook LogEntry
  /-- the rows of the last render -/
  rows : List LogEntry
  /-- `prevDroppedCountRef` -/
  prevDroppedCount : ℕ
  pinnedLogIndices : Finset ℕ
  /-- ghost: for a place among the entries ever displayed, the entry that a pin was set on there -/
  marks : ℕ → Option LogEntry

inductive ViewerAct where
  /-- an act of the hook -/
  | stream (a : Act LogEntry)
  | render
  /-- `handleTogglePinSelected`, with the selected rows -/
  | togglePins (selectedOriginalIndices : List ℕ)

def ViewerAct.unstopped : ViewerAct → Bool
  | .stream a => a.unstopped
  | .render | .togglePins _ => true

namespace Viewer

def start (m : ℕ) (now : ℤ) : Viewer :=
  { hook := (Hook.init m).startStreaming now
    rows := []
    prevDroppedCount := 0
    pinnedLogIndices := ∅
    marks := fun _ => none }

/-- what is displayed, before it is grouped -/
def rawLogs (v : Viewer) : List LogEntry := v.hook.logs.map Entry.body

/-- a render, and its effect -/
def render (v : Viewer) : Viewer :=
  { v with
    rows := groupRelatedLogEntries v.rawLogs
    prevDroppedCount := v.hook.droppedCount
    pinnedLogIndices := shiftPinsForDroppedLines v.pinnedLogIndices (v.hook.droppedCount - v.prevDroppedCount : ℤ) }

/-- a selection can only be of rows; when all of them are pinned, their pins go -/
def togglePins (v : Viewer) (selectedOriginalIndices : List ℕ) : Viewer :=
  let selected := (selectedOriginalIndices.filter (· < v.rows.length)).toFinset
  let allSelectedArePinned := selected ⊆ v.pinnedLogIndices
  { v with
    pinnedLogIndices := if allSelectedArePinned then v.pinnedLogIndices \ selected else v.pinnedLogIndices ∪ selected
    marks := fun place =>
      if v.prevDroppedCount ≤ place ∧ place - v.prevDroppedCount ∈ selected then
        if allSelectedArePinned then none else v.rows[place - v.prevDroppedCount]?
      else v.marks place }

def step (v : Viewer) : ViewerAct → Viewer
  | .stream a => { v with hook := v.hook.step a }
  | .render => v.render
  | .togglePins selectedOriginalIndices => v.togglePins selectedOriginalIndices

end Viewer

/-- a render at which no lines are grouped -/
def Ungrouped (v : Viewer) : ViewerAct → Prop
  | .render => groupRelatedLogEntries v.rawLogs = v.rawLogs
  | .stream _ | .togglePins _ => True

instance (v : Viewer) (a : ViewerAct) : Decidable (Ungrouped v a) := by
  cases a <;> unfold Ungrouped <;> infer_instance

theorem mem_shiftPins {pins : Finset ℕ} {delta : ℕ} {i : ℕ} :
    i ∈ shiftPinsForDroppedLines pins delta ↔ i + delta ∈ pins := by
  unfold shiftPinsForDroppedLines
  split_ifs with h
  · rcases h with h | h
    · have hzero : delta = 0 := by omega
      rw [hzero, Nat.add_zero]
    · rw [Finset.card_eq_zero.1 h]
      exact iff_of_false (Finset.notMem_empty _) (Finset.notMem_empty _)
  · simp only [Finset.mem_image, Finset.mem_filter]
    constructor
    · rintro ⟨index, ⟨hmem, hge⟩, rfl⟩
      have hback : ((index : ℤ) - delta).toNat + delta = index := by omega
      rwa [hback]
    · intro hmem
      exact ⟨i + delta, ⟨hmem, by omega⟩, by omega⟩

/-- the entry at a place among those ever displayed -/
def entryAt (w : Window (Entry LogEntry)) (place : ℕ) : Option LogEntry := w.history[place]?.map Entry.body

/-- the pins are where the marks are -/
structure PinsKept (v : Viewer) (w : Window (Entry LogEntry)) : Prop where
  /-- the rows are the entries displayed after those that were dropped, as of the last render -/
  rows : ∀ (i : ℕ) (e : LogEntry), v.rows[i]? = some e → entryAt w (v.prevDroppedCount + i) = some e
  dropped : v.prevDroppedCount ≤ w.expired.length
  /-- a row is pinned if and only if its place is marked: a mark without a pin is of an entry that was dropped -/
  pins : ∀ i, i ∈ v.pinnedLogIndices ↔ (v.marks (v.prevDroppedCount + i)).isSome = true
  /-- a mark is of the entry at its place -/
  marks : ∀ place e, v.marks place = some e → entryAt w place = some e ∧ place < v.prevDroppedCount + v.rows.length

section
variable {v : Viewer} {w w' : Window (Entry LogEntry)}

theorem entryAt_mono (h : w.history <+: w'.history) {place : ℕ} {e : LogEntry} (he : entryAt w place = some e) :
    entryAt w' place = some e := by
  obtain ⟨rest, hrest⟩ := h
  unfold entryAt at he ⊢
  obtain ⟨x, hx, hbody⟩ := Option.map_eq_some_iff.1 he
  rw [← hrest, List.getElem?_append_left (List.getElem?_eq_some_iff.1 hx).1, hx, ← hbody]
  rfl

/-- entries are displayed after those that were -/
theorem PinsKept.later (hk : PinsKept v w) (hhistory : w.history <+: w'.history)
    (hdropped : v.prevDroppedCount ≤ w'.expired.length) : PinsKept v w' :=
  ⟨fun i e he => entryAt_mono hhistory (hk.rows i e he), hdropped, hk.pins,
    fun place e he => ⟨entryAt_mono hhistory (hk.marks place e he).1, (hk.marks place e he).2⟩⟩

/-- a render shifts the pins by what was dropped since the last one -/
theorem PinsKept.render (hk : PinsKept v w) {m : ℕ} (hv : Views m v.hook w)
    (hraw : groupRelatedLogEntries v.rawLogs = v.rawLogs) : PinsKept v.render w := by
  have hrows : v.render.rows = w.shown.map Entry.body := by
    rw [hv.shown]
    exact hraw
  have hplace : ∀ i, entryAt w (w.expired.length + i) = v.render.rows[i]? := by
    intro i
    unfold entryAt Window.history
    rw [hrows, List.getElem?_append_right (Nat.le_add_right _ _), Nat.add_sub_cancel_left, List.getElem?_map]
  have hprev : v.render.prevDroppedCount = w.expired.length := hv.expired.symm
  have hle := hk.dropped
  refine ⟨fun i e he => ?_, hprev.le, fun i => ?_, fun place e he => ?_⟩
  · rw [hprev, hplace, he]
  · have hdelta : (v.hook.droppedCount - v.prevDroppedCount : ℤ) = ((w.expired.length - v.prevDroppedCount : ℕ) : ℤ) := by
      rw [← hv.expired]
      omega
    have hpins : v.render.pinnedLogIndices =
        shiftPinsForDroppedLines v.pinnedLogIndices ((w.expired.length - v.prevDroppedCount : ℕ) : ℤ) := by
      rw [← hdelta]
      rfl
    have hsum : v.prevDroppedCount + (i + (w.expired.length - v.prevDroppedCount)) = v.render.prevDroppedCount + i := by
      rw [hprev]
      omega
    rw [hpins, mem_shiftPins, hk.pins, hsum]
    rfl
  · have hat := (hk.marks place e he).1
    refine ⟨hat, ?_⟩
    unfold entryAt at hat
    obtain ⟨x, hx, -⟩ := Option.map_eq_some_iff.1 hat
    have hlt := (List.getElem?_eq_some_iff.1 hx).1
    unfold Window.history at hlt
    rw [List.length_append] at hlt
    rw [hprev, hrows, List.length_map]
    exact hlt

theorem PinsKept.togglePins (hk : PinsKept v w) (selectedOriginalIndices : List ℕ) :
    PinsKept (v.togglePins selectedOriginalIndices) w := by
  unfold Viewer.togglePins
  dsimp only
  generalize hselected : (selectedOriginalIndices.filter (· < v.rows.length)).toFinset = selected
  have hlt : ∀ i ∈ selected, i < v.rows.length := by
    intro i hi
    rw [← hselected, List.mem_toFinset, List.mem_filter] at hi
    exact of_decide_eq_true hi.2
  refine ⟨hk.rows, hk.dropped, fun i => ?_, fun place e he => ?_⟩
  · dsimp only
    rw [Nat.add_sub_cancel_left]
    by_cases hi : i ∈ selected
    · have hin : v.prevDroppedCount ≤ v.prevDroppedCount + i ∧ i ∈ selected := ⟨Nat.le_add_right _ _, hi⟩
      rw [if_pos hin]
      by_cases hall : selected ⊆ v.pinnedLogIndices
      · rw [if_pos hall, if_pos hall]
        exact iff_of_false (fun hmem => (Finset.mem_sdiff.1 hmem).2 hi) (by simp)
      · rw [if_neg hall, if_neg hall, List.getElem?_eq_getElem (hlt i hi)]
        exact iff_of_true (Finset.mem_union_right _ hi) rfl
    · have hnot : ¬ (v.prevDroppedCount ≤ v.prevDroppedCount + i ∧ i ∈ selected) := fun h => hi h.2
      rw [if_neg hnot, ← hk.pins]
      by_cases hall : selected ⊆ v.pinnedLogIndices
      · rw [if_pos hall]
        exact ⟨fun hmem => (Finset.mem_sdiff.1 hmem).1, fun hmem => Finset.mem_sdiff.2 ⟨hmem, hi⟩⟩
      · rw [if_neg hall]
        exact ⟨fun hmem => (Finset.mem_union.1 hmem).resolve_right hi, Finset.mem_union_left _⟩
  · dsimp only at he ⊢
    split_ifs at he with hplace hall
    · obtain ⟨hle, hi⟩ := hplace
      have hrow := hk.rows _ e he
      have hback : v.prevDroppedCount + (place - v.prevDroppedCount) = place := by omega
      have hbound := hlt _ hi
      rw [hback] at hrow
      exact ⟨hrow, by omega⟩
    · exact hk.marks place e he

end

/-! ## Whole sessions -/

theorem pinned_step {m : ℕ} {v : Viewer} {w : Window (Entry LogEntry)} (hs : Shape v.hook) (hv : Views m v.hook w)
    (a : ViewerAct) (ha : a.unstopped = true) :
    ∃ moves, (v.step a).hook.received = v.hook.received ++ arrivals moves ∧ Shape (v.step a).hook ∧
      Views m (v.step a).hook (run Window.step w moves) ∧
      (PinsKept v w → Ungrouped v a → PinsKept (v.step a) (run Window.step w moves)) := by
  cases a with
  | stream a =>
    obtain ⟨moves, hreceived, hviews⟩ := step_moves hs hv a ha
    refine ⟨moves, hreceived, shape_step hs a, hviews, fun hk _ => ?_⟩
    have hlater := hk.later (history_run w moves) (hk.dropped.trans (expired_run w moves).length_le)
    exact ⟨hlater.rows, hlater.dropped, hlater.pins, hlater.marks⟩
  | render => exact ⟨[], (List.append_nil _).symm, hs, hv, fun hk hraw => hk.render hv hraw⟩
  | togglePins selected => exact ⟨[], (List.append_nil _).symm, hs, hv, fun hk _ => hk.togglePins selected⟩

theorem pinned_run {m : ℕ} {v : Viewer} {w : Window (Entry LogEntry)} (hs : Shape v.hook) (hv : Views m v.hook w)
    (acts : List ViewerAct) (hacts : ∀ a ∈ acts, a.unstopped = true) :
    ∃ moves, (run Viewer.step v acts).hook.received = v.hook.received ++ arrivals moves ∧
      Shape (run Viewer.step v acts).hook ∧ Views m (run Viewer.step v acts).hook (run Window.step w moves) ∧
      (PinsKept v w → Each Viewer.step Ungrouped v acts →
        PinsKept (run Viewer.step v acts) (run Window.step w moves)) := by
  induction acts generalizing v w with
  | nil => exact ⟨[], (List.append_nil _).symm, hs, hv, fun hk _ => hk⟩
  | cons a acts ih =>
    obtain ⟨moves, hreceived, hs', hv', hpins⟩ := pinned_step hs hv a (hacts a List.mem_cons_self)
    obtain ⟨moves', hreceived', hs'', hv'', hpins'⟩ := ih hs' hv' fun b hb => hacts b (List.mem_cons_of_mem a hb)
    refine ⟨moves ++ moves', ?_, hs'', ?_, fun hk heach => ?_⟩
    · rw [arrivals_append, ← List.append_assoc, ← hreceived]
      exact hreceived'
    · rw [run_append]
      exact hv''
    · rw [run_append]
      exact hpins' (hpins hk heach.1) heach.2

/-- the buffers and the counters of a hook, against a window that what the hook received has gone through -/
structure Conserved (m : ℕ) (h : Hook α) (w : Window (Entry α)) : Prop where
  /-- every entry that was removed was the oldest that was displayed, or the oldest that was waiting -/
  moves : ∃ moves, run Window.step {} moves = w ∧ arrivals moves = h.received
  displayed : w.shown = h.logs
  waiting : w.waiting = h.bufferedLogs ++ h.pendingLogs
  order : (h.logs ++ (h.bufferedLogs ++ h.pendingLogs)).Sublist h.received
  cap : h.logs.length ≤ m
  tick : ∀ now, h.flushInterval.isSome = true → (h.step (.tick now)).bufferedLogs.length ≤ m
  removed : h.received.length =
    (h.logs.length + h.bufferedLogs.length + h.pendingLogs.length) + (h.droppedCount + h.bufferedDroppedCount)
  droppedCount : h.droppedCount = w.expired.length

theorem conserved_of_views {moves : List (Move (Entry α))} (hs : Shape h) (hreceived : h.received = arrivals moves)
    (hv : Views m h (run Window.step {} moves)) : Conserved m h (run Window.step {} moves) := by
  have haccounts := accounts_run accounts_empty moves
  rw [List.nil_append, ← hreceived] at haccounts
  have hcomm : h.pendingLogs ++ h.bufferedLogs = h.bufferedLogs ++ h.pendingLogs := by
    cases hp : h.isStreamPaused with
    | true => rw [hs.paused hp, List.nil_append, List.append_nil]
    | false => rw [hs.running hp, List.nil_append, List.append_nil]
  have hwaiting := hv.waiting.trans hcomm
  have horder := haccounts.held
  rw [hv.shown, hwaiting] at horder
  have hcount := haccounts.count
  rw [hv.shown, hwaiting, hv.expired, hv.discarded, List.length_append] at hcount
  exact {
    moves := ⟨moves, rfl, hreceived.symm⟩
    displayed := hv.shown
    waiting := hwaiting
    order := horder
    cap := hv.cap.trans hv.max.le
    tick := fun now hticks => (tick_buffered hs now hticks).trans hv.max.le
    removed := by omega
    droppedCount := hv.expired.symm }

/-- **Nothing is lost from the buffers but from their fronts.** In a session that is not stopped: what is displayed and
what waits is what was received, but for the entries that a trim took from the front; the counters count these, and the
first of them those that had been displayed. As long as no lines are grouped, each pin stays on the entry that it was
set on, and goes when that entry does. -/
theorem buffers_conserve (m : ℕ) (now : ℤ) (acts : List ViewerAct) (hacts : ∀ a ∈ acts, a.unstopped = true) :
    ∃ w, Conserved m (run Viewer.step (Viewer.start m now) acts).hook w ∧
      (Each Viewer.step Ungrouped (Viewer.start m now) acts →
        PinsKept (run Viewer.step (Viewer.start m now) acts) w) := by
  have hk : PinsKept (Viewer.start m now) {} := by
    refine ⟨fun i e he => ?_, le_rfl, fun i => ?_, fun place e he => ?_⟩
    · cases he
    · exact iff_of_false (Finset.notMem_empty i) Bool.false_ne_true
    · cases he
  obtain ⟨moves, hreceived, hs, hv, hpins⟩ :=
    pinned_run (v := Viewer.start m now) (shape_start (shape_init m) now) (views_start m now) acts hacts
  have hstart : (Viewer.start m now).hook.received = [] := received_start m now
  rw [hstart, List.nil_append] at hreceived
  exact ⟨run Window.step {} moves, conserved_of_views hs hreceived hv, hpins hk⟩

/-- two lines of two, the second is pinned, and a third comes -/
def pinnedSession : List ViewerAct :=
  let line (message : String) : LogEntry := ⟨none, .info, some message, none, none, none, none, none, none⟩
  [.stream (.item 0 0 (some (line "one"))), .stream (.item 0 0 (some (line "two"))), .stream (.tick 0), .render,
    .togglePins [1], .stream (.item 0 0 (some (line "three"))), .stream (.tick 0), .render]

theorem buffers_conserve_pinned :
    ∃ w, Conserved 2 (run Viewer.step (Viewer.start 2 0) pinnedSession).hook w ∧
      PinsKept (run Viewer.step (Viewer.start 2 0) pinnedSession) w := by
  obtain ⟨w, hconserved, hpins⟩ := buffers_conserve 2 0 pinnedSession (by decide)
  exact ⟨w, hconserved, hpins (by decide)⟩

/-- the pin has moved with its line -/
example : (run Viewer.step (Viewer.start 2 0) pinnedSession).pinnedLogIndices = {0} := by decide

end LogDeck.Frontend.LogStream
