/-
Isolation of the sessions of the log stream hook (`use-container-log-stream.ts`: `startStreaming`, `stopStreaming`).

The `finally` of a session looks at the shared controller before it clears it, but not before it clears the flush
interval and the flags: when a newer session has started by then, these are the newer one's. A session that was not
stopped before the next start goes on delivering into the buffers of the next.

Results:
- `untouched_iff_quiet`: what of an earlier session touches the newest;
- `inv_step`: while the earlier sessions are silent, the newest is served;
- `isolated_iff`: over every run, the newest session keeps its flag, its interval and its entries, and no act of an earlier
  one touches them, if and only if the earlier ones are silent while the newest is live;
- `late_finally_stops_newer`: a session that ends after the next one has started.
-/
import LogDeck.Frontend.LogStream

namespace LogDeck.Frontend.LogStream

open Machine

variable {α : Type} {h : Hook α}

/-! ## What is claimed of the newest session -/

/-- `n` is the newest session, has not ended and was not stopped -/
def Live (h : Hook α) (n : ℕ) : Prop :=
  h.newest = some n ∧ h.stopRequested = false ∧ ∃ s, h.sessions n = some s ∧ s.phase ≠ .ended

/-- every entry received is displayed, or counted as dropped -/
structure Moved (h : Hook α) (received : List (Entry α)) : Prop where
  order : h.logs.Sublist received
  count : received.length = h.logs.length + (h.droppedCount + h.bufferedDroppedCount)

/-- the newest session is shown as streaming, its interval is installed, it has lost no entry, and a tick moves them all
unless the stream is paused -/
structure Isolated (h : Hook α) (n : ℕ) (s : Session α) : Prop where
  streaming : h.isStreaming = true
  interval : h.flushInterval = some n
  kept : Kept h s.received
  moved : h.isStreamPaused = false → ∀ now, Moved (h.tick now) s.received

/-- a newest session that is live is isolated from the others -/
def NewestIsolated (h : Hook α) : Prop := ∀ n, Live h n → ∀ s, h.sessions n = some s → Isolated h n s

/-- the session whose act it is -/
def Act.session : Act α → Option ℕ
  | .wake id | .item id _ _ | .close id _ => some id
  | _ => none

/-- the hook as session `n` sees it -/
def view (n : ℕ) (h : Hook α) : Hook α := { h with sessions := fun id => if id = n then h.sessions id else none }

/-- an act of an earlier session leaves what a live newest session sees as it is -/
def Untouched (h : Hook α) (a : Act α) : Prop :=
  ∀ n id, Live h n → a.session = some id → id ≠ n → view n (h.step a) = view n h

/-- an act with which a session neither ends nor delivers an entry, and a heartbeat that says nothing new -/
def Silent (h : Hook α) (s : Session α) : Act α → Prop
  | .wake _ => s.phase = .waiting → s.controller ∉ h.aborted
  | .close _ _ => s.phase ≠ .reading ∧ s.phase ≠ .leaving
  | .item _ now entry => s.phase = .reading → s.controller ∉ h.aborted →
      entry = none ∧ h.lastActivity = now ∧ h.isReconnecting = false ∧
        (s.hasReceivedFirstEntry = false → h.isLoadingLogs = false)
  | _ => True

/-- while a newer session is live, the earlier ones are silent -/
def Quiet (h : Hook α) (a : Act α) : Prop :=
  ∀ n id s, Live h n → a.session = some id → id ≠ n → h.sessions id = some s → Silent h s a

/-! ## The newest session -/

/-- what a live newest session relies on -/
structure Served (h : Hook α) (n : ℕ) (s : Session α) : Prop where
  streaming : h.isStreaming = true
  interval : h.flushInterval = some n
  kept : Kept h s.received
  controller : h.abortController = some s.controller

structure Inv (h : Hook α) : Prop where
  shape : Shape h
  served : ∀ n s, Live h n → h.sessions n = some s → Served h n s

theorem inv_init (m : ℕ) : Inv (Hook.init m : Hook α) := ⟨shape_init m, fun _ _ hlive => by cases hlive.1⟩

theorem tick_installed {n : ℕ} (hinterval : h.flushInterval = some n) (now : ℤ) : h.tick now = h.handleFlushTick now := by
  rw [Hook.tick, hinterval]

/-- a tick moves every entry, unless the stream is paused -/
theorem Served.moved {n : ℕ} {s : Session α} (hserved : Served h n s) (hs : Shape h) (hp : h.isStreamPaused = false)
    (now : ℤ) : Moved (h.tick now) s.received := by
  obtain ⟨aborted, e⟩ := watchdog_eq h now
  have htick : h.tick now = { h with aborted := aborted }.flushPendingLogs := by
    rw [tick_installed hserved.interval, Hook.handleFlushTick, if_neg (by rw [hp]; decide), e]
  have hlen : { h with aborted := aborted }.logsLength = { h with aborted := aborted }.logs.length := hs.length
  have hkept : Kept { h with aborted := aborted }.flushPendingLogs s.received := (hserved.kept.abort aborted).flush hlen
  obtain ⟨k, d, b, -, -, ef⟩ := flush_eq hlen
  rw [ef] at hkept
  rw [htick, ef]
  -- nothing is pending after the flush, and there is no backlog
  have hnil := hs.running hp
  obtain ⟨horder, hcount⟩ := hkept
  dsimp only at horder hcount
  rw [hnil] at horder hcount
  exact ⟨by simpa using horder, by simpa using hcount⟩

theorem Inv.isolated (hi : Inv h) : NewestIsolated h := by
  intro n hlive s hs
  have hserved := hi.served n s hlive hs
  exact ⟨hserved.streaming, hserved.interval, hserved.kept, hserved.moved hi.shape⟩

theorem served_view {n : ℕ} {s : Session α} : Served (view n h) n s ↔ Served h n s :=
  ⟨fun hs => ⟨hs.1, hs.2, ⟨hs.3.1, hs.3.2⟩, hs.4⟩, fun hs => ⟨hs.1, hs.2, ⟨hs.3.1, hs.3.2⟩, hs.4⟩⟩

theorem view_setSession (h : Hook α) {n id : ℕ} (hid : id ≠ n) (s : Session α) :
    view n (h.setSession id s) = view n h := by
  have hsessions : (fun j => if j = n then (h.setSession id s).sessions j else none) =
      fun j => if j = n then h.sessions j else none := by
    funext j
    split_ifs with hj
    · exact setSession_other h (hj.trans_ne (Ne.symm hid)) s
    · rfl
  rw [view, hsessions]
  rfl

/-- what the act of another session leaves of a session -/
theorem session_frame (hs : Shape h) {a : Act α} {id n : ℕ} (ha : a.session = some id) (hn : id ≠ n) :
    (h.step a).newest = h.newest ∧ (h.step a).stopRequested = h.stopRequested ∧ (h.step a).sessions n = h.sessions n := by
  have hset (g : Hook α) (t : Session α) : (g.setSession id t).sessions n = g.sessions n := setSession_other g hn.symm t
  have hfinish (t : Session α) : (h.finish id t).newest = h.newest ∧ (h.finish id t).stopRequested = h.stopRequested ∧
      (h.finish id t).sessions n = h.sessions n := by
    obtain ⟨k, d, b, -, -, e⟩ := finish_eq hs.length id t
    rw [e]
    exact ⟨rfl, rfl, hset _ _⟩
  cases a with
  | wake id' =>
    obtain rfl := Option.some.inj ha
    change (h.wake id').newest = _ ∧ (h.wake id').stopRequested = _ ∧ (h.wake id').sessions n = _
    unfold Hook.wake
    cases h.sessions id' with
    | none => exact ⟨rfl, rfl, rfl⟩
    | some s =>
      dsimp only
      split_ifs
      · exact hfinish s
      · exact ⟨rfl, rfl, hset _ _⟩
      · exact ⟨rfl, rfl, rfl⟩
  | item id' now entry =>
    obtain rfl := Option.some.inj ha
    change (h.item id' now entry).newest = _ ∧ (h.item id' now entry).stopRequested = _ ∧
      (h.item id' now entry).sessions n = _
    unfold Hook.item
    cases h.sessions id' with
    | none => exact ⟨rfl, rfl, rfl⟩
    | some s =>
      dsimp only
      split_ifs
      · exact ⟨rfl, rfl, hset _ _⟩
      · cases entry with
        | none => exact ⟨rfl, rfl, hset _ _⟩
        | some body =>
          dsimp only
          unfold Hook.push
          split_ifs
          · exact ⟨rfl, rfl, hset _ _⟩
          · exact ⟨rfl, rfl, hset _ _⟩
      · exact ⟨rfl, rfl, rfl⟩
  | close id' now =>
    obtain rfl := Option.some.inj ha
    change (h.close id' now).newest = _ ∧ (h.close id' now).stopRequested = _ ∧ (h.close id' now).sessions n = _
    unfold Hook.close
    cases h.sessions id' with
    | none => exact ⟨rfl, rfl, rfl⟩
    | some s =>
      dsimp only
      split_ifs
      · exact hfinish s
      · exact ⟨rfl, rfl, hset _ _⟩
      · exact ⟨rfl, rfl, rfl⟩
  | _ => cases ha

section Earlier

variable {n id : ℕ} {s : Session α}

/-- a session that ends takes the flag of the newest -/
theorem view_finish (hstreaming : h.isStreaming = true) (t : Session α) : view n (h.finish id t) ≠ view n h := by
  intro e
  have hflag : (view n (h.finish id t)).isStreaming = (view n h).isStreaming := congrArg Hook.isStreaming e
  exact Bool.noConfusion (hflag.trans hstreaming)

theorem view_wake (hi : Inv h) (hlive : Live h n) (hid : id ≠ n) (hs : h.sessions id = some s) :
    view n (h.wake id) = view n h ↔ (s.phase = .waiting → s.controller ∉ h.aborted) := by
  obtain ⟨t, ht, -⟩ := hlive.2.2
  have hserved := hi.served n t hlive ht
  rw [Hook.wake, hs]
  dsimp only
  rw [hlive.2.1]
  split_ifs with hphase habort
  · have habort' : s.controller ∈ h.aborted := habort.resolve_left (by decide)
    exact ⟨fun e => absurd e (view_finish hserved.streaming s), fun hq => absurd habort' (hq hphase)⟩
  · exact ⟨fun _ _ hmem => habort (Or.inr hmem), fun _ => view_setSession h hid _⟩
  · exact ⟨fun _ hw => absurd hw hphase, fun _ => rfl⟩

theorem view_close (hi : Inv h) (hlive : Live h n) (hid : id ≠ n) (hs : h.sessions id = some s) (now : ℤ) :
    view n (h.close id now) = view n h ↔ s.phase ≠ .reading ∧ s.phase ≠ .leaving := by
  obtain ⟨t, ht, -⟩ := hlive.2.2
  have hserved := hi.served n t hlive ht
  -- the shared controller is the newest session's
  have hother : h.abortController ≠ some s.controller := by
    rw [hserved.controller]
    intro e
    exact hid (hi.shape.distinct id n s t hs ht (Option.some.inj e).symm)
  rw [Hook.close, hs]
  dsimp only
  split_ifs with hphase hbreak
  · exact ⟨fun e => absurd e (view_finish hserved.streaming s), fun hq => (hphase.elim hq.1 hq.2).elim⟩
  · exact absurd (Or.inr hother) hbreak
  · push Not at hphase
    exact ⟨fun _ => hphase, fun _ => rfl⟩

/-- an entry of another session joins those of the newest -/
theorem view_push (g : Hook α) (e : Entry α) (hlists : g.pendingLogs = h.pendingLogs ∧ g.bufferedLogs = h.bufferedLogs) :
    view n (g.push e) ≠ view n h := by
  intro eq
  have hpending : (view n (g.push e)).pendingLogs = (view n h).pendingLogs := congrArg Hook.pendingLogs eq
  have hbuffered : (view n (g.push e)).bufferedLogs = (view n h).bufferedLogs := congrArg Hook.bufferedLogs eq
  change (g.push e).pendingLogs = h.pendingLogs at hpending
  change (g.push e).bufferedLogs = h.bufferedLogs at hbuffered
  unfold Hook.push at hpending hbuffered
  split_ifs at hpending hbuffered
  · have hlen := congrArg List.length hbuffered
    simp [hlists.2] at hlen
  · have hlen := congrArg List.length hpending
    simp [hlists.1] at hlen

theorem view_heard (hid : id ≠ n) (s : Session α) (now : ℤ) :
    view n (h.heard id s now []) = view n h ↔
      h.lastActivity = now ∧ h.isReconnecting = false ∧ (s.hasReceivedFirstEntry = false → h.isLoadingLogs = false) := by
  rw [Hook.heard, view_setSession _ hid]
  constructor
  · intro e
    have hactivity : now = h.lastActivity := congrArg Hook.lastActivity e
    have hreconnecting : false = h.isReconnecting := congrArg Hook.isReconnecting e
    have hloading : (if s.hasReceivedFirstEntry then h.isLoadingLogs else false) = h.isLoadingLogs :=
      congrArg Hook.isLoadingLogs e
    refine ⟨hactivity.symm, hreconnecting.symm, fun hfirst => ?_⟩
    rw [hfirst] at hloading
    exact hloading.symm
  · rintro ⟨hactivity, hreconnecting, hloading⟩
    have hflag : (if s.hasReceivedFirstEntry then h.isLoadingLogs else false) = h.isLoadingLogs := by
      cases hfirst : s.hasReceivedFirstEntry with
      | true => rfl
      | false => exact (hloading hfirst).symm
    rw [hflag, ← hactivity, ← hreconnecting]

theorem view_item (hid : id ≠ n) (hs : h.sessions id = some s) (now : ℤ) (entry : Option α) :
    view n (h.item id now entry) = view n h ↔ (s.phase = .reading → s.controller ∉ h.aborted →
      entry = none ∧ h.lastActivity = now ∧ h.isReconnecting = false ∧
        (s.hasReceivedFirstEntry = false → h.isLoadingLogs = false)) := by
  rw [Hook.item, hs]
  dsimp only
  split_ifs with hphase habort
  · exact ⟨fun _ _ hnot => absurd habort hnot, fun _ => view_setSession h hid _⟩
  · cases entry with
    | none =>
      rw [view_heard hid]
      exact ⟨fun hq _ _ => ⟨rfl, hq⟩, fun hq => (hq hphase habort).2⟩
    | some body =>
      refine ⟨fun e => absurd e (view_push _ _ ⟨rfl, rfl⟩), fun hq => ?_⟩
      cases (hq hphase habort).1
  · exact ⟨fun _ hr => absurd hr hphase, fun _ => rfl⟩

theorem view_step (hi : Inv h) (hlive : Live h n) {a : Act α} (ha : a.session = some id) (hid : id ≠ n)
    (hs : h.sessions id = some s) : view n (h.step a) = view n h ↔ Silent h s a := by
  cases a with
  | wake id' =>
    obtain rfl := Option.some.inj ha
    exact view_wake hi hlive hid hs
  | item id' now entry =>
    obtain rfl := Option.some.inj ha
    exact view_item hid hs now entry
  | close id' now =>
    obtain rfl := Option.some.inj ha
    exact view_close hi hlive hid hs now
  | _ => cases ha

/-- a session that was not started does nothing -/
theorem step_of_none {a : Act α} (ha : a.session = some id) (hs : h.sessions id = none) : h.step a = h := by
  cases a with
  | wake id' =>
    obtain rfl := Option.some.inj ha
    change h.wake id' = h
    rw [Hook.wake, hs]
  | item id' now entry =>
    obtain rfl := Option.some.inj ha
    change h.item id' now entry = h
    rw [Hook.item, hs]
  | close id' now =>
    obtain rfl := Option.some.inj ha
    change h.close id' now = h
    rw [Hook.close, hs]
  | _ => cases ha

end Earlier

/-- **What touches the newest session.** -/
theorem untouched_iff_quiet (hi : Inv h) (a : Act α) : Untouched h a ↔ Quiet h a := by
  constructor
  · intro hu n id s hlive ha hid hs
    exact (view_step hi hlive ha hid hs).1 (hu n id hlive ha hid)
  · intro hq n id hlive ha hid
    cases hs : h.sessions id with
    | none => rw [step_of_none ha hs]
    | some s => exact (view_step hi hlive ha hid hs).2 (hq n id s hlive ha hid hs)

/-! ## One step -/

section Own

variable {n : ℕ} {s t : Session α}

theorem Served.setSession (hserved : Served h n s) (hc : t.controller = s.controller) (hr : t.received = s.received) :
    Served (h.setSession n t) n t :=
  { streaming := hserved.streaming
    interval := hserved.interval
    kept := ⟨hr ▸ hserved.kept.order, hr ▸ hserved.kept.count⟩
    controller := hc ▸ hserved.controller }

/-- a session that has ended is not live -/
theorem not_live_finish (hs : Shape h) (s : Session α) : ¬ Live (h.finish n s) n := by
  rintro ⟨-, -, t, ht, hphase⟩
  obtain ⟨k, d, b, -, -, e⟩ := finish_eq hs.length n s
  rw [e, setSession_self] at ht
  obtain rfl := Option.some.inj ht
  exact hphase rfl

theorem own_wake (hi : Inv h) (hlive : Live (h.wake n) n) (ht : (h.wake n).sessions n = some t) :
    Served (h.wake n) n t := by
  unfold Hook.wake at hlive ht ⊢
  cases hs : h.sessions n with
  | none =>
    rw [hs] at hlive ht
    exact hi.served n t hlive ht
  | some s =>
    rw [hs] at hlive ht
    dsimp only at hlive ht ⊢
    split_ifs at hlive ht ⊢ with hphase habort
    · exact absurd hlive (not_live_finish hi.shape s)
    · rw [setSession_self] at ht
      obtain rfl := Option.some.inj ht
      have hbefore : Live h n := ⟨hlive.1, hlive.2.1, s, hs, by rw [hphase]; decide⟩
      exact (hi.served n s hbefore hs).setSession rfl rfl
    · exact hi.served n t hlive ht

theorem own_close (hi : Inv h) {now : ℤ} (hlive : Live (h.close n now) n) (ht : (h.close n now).sessions n = some t) :
    Served (h.close n now) n t := by
  unfold Hook.close at hlive ht ⊢
  cases hs : h.sessions n with
  | none =>
    rw [hs] at hlive ht
    exact hi.served n t hlive ht
  | some s =>
    rw [hs] at hlive ht
    dsimp only at hlive ht ⊢
    split_ifs at hlive ht ⊢ with hphase hbreak
    · exact absurd hlive (not_live_finish hi.shape s)
    · -- it connects again, with a controller that it shares
      rw [Hook.connect, setSession_self] at ht
      obtain rfl := Option.some.inj ht
      have hbefore : Live h n := ⟨hlive.1, hlive.2.1, s, hs, by rcases hphase with hp | hp <;> rw [hp] <;> decide⟩
      have hserved := hi.served n s hbefore hs
      exact ⟨hserved.streaming, hserved.interval, ⟨hserved.kept.order, hserved.kept.count⟩, rfl⟩
    · exact hi.served n t hlive ht

theorem served_push {g : Hook α} (hp : g.isStreamPaused = false → g.bufferedLogs = []) (hstreaming : g.isStreaming = true)
    (hinterval : g.flushInterval = some n) {received : List (Entry α)} (hkept : Kept g received)
    (hcontroller : g.abortController = some t.controller) (e : Entry α) (hr : t.received = received ++ [e]) :
    Served (g.push e) n t := by
  have hk := hkept.push hp e
  rw [← hr] at hk
  unfold Hook.push at hk ⊢
  split_ifs at hk ⊢ <;> exact ⟨hstreaming, hinterval, hk, hcontroller⟩

theorem own_item (hi : Inv h) {now : ℤ} {entry : Option α} (hlive : Live (h.item n now entry) n)
    (ht : (h.item n now entry).sessions n = some t) : Served (h.item n now entry) n t := by
  unfold Hook.item at hlive ht ⊢
  cases hs : h.sessions n with
  | none =>
    rw [hs] at hlive ht
    exact hi.served n t hlive ht
  | some s =>
    rw [hs] at hlive ht
    dsimp only at hlive ht ⊢
    split_ifs at hlive ht ⊢ with hphase habort
    · rw [setSession_self] at ht
      obtain rfl := Option.some.inj ht
      have hbefore : Live h n := ⟨hlive.1, hlive.2.1, s, hs, by rw [hphase]; decide⟩
      exact (hi.served n s hbefore hs).setSession rfl rfl
    · cases entry with
      | none =>
        have hbefore : Live h n := ⟨hlive.1, hlive.2.1, s, hs, by rw [hphase]; decide⟩
        have hserved := hi.served n s hbefore hs
        dsimp only at ht ⊢
        rw [Hook.heard, setSession_self] at ht
        obtain rfl := Option.some.inj ht
        refine ⟨hserved.streaming, hserved.interval, ?_, hserved.controller⟩
        dsimp only
        rw [List.append_nil]
        exact ⟨hserved.kept.order, hserved.kept.count⟩
      | some body =>
        dsimp only at hlive ht ⊢
        have hsame : ((h.heard n s now [⟨n, body⟩]).push ⟨n, body⟩).newest = h.newest ∧
            ((h.heard n s now [⟨n, body⟩]).push ⟨n, body⟩).stopRequested = h.stopRequested ∧
            ((h.heard n s now [⟨n, body⟩]).push ⟨n, body⟩).sessions n = some
              { s with attempt := 0, hasReceivedFirstEntry := true, received := s.received ++ [⟨n, body⟩] } := by
          unfold Hook.push
          split_ifs <;> exact ⟨rfl, rfl, setSession_self _ _ _⟩
        have hbefore : Live h n :=
          ⟨hsame.1 ▸ hlive.1, hsame.2.1 ▸ hlive.2.1, s, hs, by rw [hphase]; decide⟩
        have hserved := hi.served n s hbefore hs
        rw [hsame.2.2] at ht
        obtain rfl := Option.some.inj ht
        have hkept : Kept (h.heard n s now [⟨n, body⟩]) s.received := ⟨hserved.kept.order, hserved.kept.count⟩
        exact served_push (by exact hi.shape.running) (by exact hserved.streaming) (by exact hserved.interval) hkept
          (by exact hserved.controller) _ rfl
    · exact hi.served n t hlive ht

/-- a flush serves the session as well -/
theorem Served.flush {s : Session α} (hserved : Served h n s) (hlen : h.logsLength = h.logs.length) :
    Served h.flushPendingLogs n s := by
  have hflushed := hserved.kept.flush hlen
  obtain ⟨k, d, b, -, -, e⟩ := flush_eq hlen
  rw [e] at hflushed ⊢
  exact ⟨hserved.streaming, hserved.interval, hflushed, hserved.controller⟩

theorem flush_frame (hlen : h.logsLength = h.logs.length) :
    h.flushPendingLogs.sessions = h.sessions ∧ (Live h.flushPendingLogs n → Live h n) := by
  obtain ⟨k, d, b, -, -, e⟩ := flush_eq hlen
  rw [e]
  exact ⟨rfl, fun hlive => hlive⟩

theorem served_start {now : ℤ} (hlive : Live (h.startStreaming now) n)
    (ht : (h.startStreaming now).sessions n = some t) : Served (h.startStreaming now) n t := by
  obtain rfl : h.requests = n := Option.some.inj hlive.1
  rw [Hook.startStreaming, Hook.connect, setSession_self] at ht
  obtain rfl := Option.some.inj ht
  exact ⟨rfl, rfl, ⟨List.Sublist.refl _, rfl⟩, rfl⟩

theorem served_togglePause (hi : Inv h) (hlive : Live h.togglePauseStreaming n)
    (ht : h.togglePauseStreaming.sessions n = some t) : Served h.togglePauseStreaming n t := by
  unfold Hook.togglePauseStreaming at hlive ht ⊢
  split_ifs at hlive ht ⊢ with hstreaming hp
  · rw [resume_eq hi.shape hp] at hlive ht ⊢
    have hlen : { h with
        isStreamPaused := false
        bufferedCount := 0
        pendingLogs := h.pendingLogs ++ h.bufferedLogs
        bufferedLogs := [] }.logsLength = h.logs.length := hi.shape.length
    obtain ⟨hsessions, hbefore⟩ := flush_frame hlen
    rw [hsessions] at ht
    have hserved := hi.served n t (hbefore hlive) ht
    -- the backlog follows what is pending, so the order is the same
    have hkept : Kept
        { h with
          isStreamPaused := false
          bufferedCount := 0
          pendingLogs := h.pendingLogs ++ h.bufferedLogs
          bufferedLogs := [] } t.received := by
      refine ⟨?_, ?_⟩
      · dsimp only
        rw [List.append_nil, ← List.append_assoc]
        exact hserved.kept.order
      · have hcount := hserved.kept.count
        dsimp only
        rw [List.length_append, List.length_nil]
        omega
    exact Served.flush ⟨hserved.streaming, hserved.interval, hkept, hserved.controller⟩ hlen
  · obtain ⟨hsessions, hbefore⟩ := flush_frame hi.shape.length
    have hserved := (hi.served n t (hbefore hlive) (hsessions ▸ ht)).flush hi.shape.length
    exact ⟨hserved.streaming, hserved.interval, ⟨hserved.kept.order, hserved.kept.count⟩, hserved.controller⟩
  · exact hi.served n t hlive ht

theorem served_tick (hi : Inv h) {now : ℤ} (hlive : Live (h.tick now) n) (ht : (h.tick now).sessions n = some t) :
    Served (h.tick now) n t := by
  cases hinterval : h.flushInterval with
  | none =>
    have hidle : h.tick now = h := by rw [Hook.tick, hinterval]
    rw [hidle] at hlive ht ⊢
    exact hi.served n t hlive ht
  | some owner =>
    obtain ⟨aborted, e⟩ := watchdog_eq h now
    rw [tick_installed hinterval, Hook.handleFlushTick, e] at hlive ht ⊢
    split_ifs at hlive ht ⊢ with hp
    · have hserved := hi.served n t hlive ht
      have hsync := (hserved.kept.abort aborted).sync
      exact ⟨hserved.streaming, hserved.interval, hsync, hserved.controller⟩
    · have hlen : { h with aborted := aborted }.logsLength = h.logs.length := hi.shape.length
      obtain ⟨hsessions, hbefore⟩ := flush_frame hlen
      rw [hsessions] at ht
      have hserved := hi.served n t (hbefore hlive) ht
      exact Served.flush ⟨hserved.streaming, hserved.interval, hserved.kept.abort aborted, hserved.controller⟩ hlen

/-- the acts of no session -/
theorem served_user (hi : Inv h) {a : Act α} (ha : a.session = none) (hlive : Live (h.step a) n)
    (ht : (h.step a).sessions n = some t) : Served (h.step a) n t := by
  cases a with
  | start now => exact served_start hlive ht
  | stop => exact absurd hlive.2.1 (by simp [Hook.step, Hook.stopStreaming])
  | togglePause => exact served_togglePause hi hlive ht
  | setMaxLogLines m =>
    have hserved := hi.served n t hlive ht
    exact ⟨hserved.streaming, hserved.interval, ⟨hserved.kept.order, hserved.kept.count⟩, hserved.controller⟩
  | tick now => exact served_tick hi hlive ht
  | _ => cases ha

end Own

/-- **One step.** While the earlier sessions are silent, the newest is served. -/
theorem inv_step (hi : Inv h) {a : Act α} (hq : Quiet h a) : Inv (h.step a) := by
  refine ⟨shape_step hi.shape a, fun n t hlive ht => ?_⟩
  cases ha : a.session with
  | none => exact served_user hi ha hlive ht
  | some id =>
    by_cases hid : id = n
    · subst hid
      cases a with
      | wake id' =>
        obtain rfl := Option.some.inj ha
        exact own_wake hi hlive ht
      | item id' now entry =>
        obtain rfl := Option.some.inj ha
        exact own_item hi hlive ht
      | close id' now =>
        obtain rfl := Option.some.inj ha
        exact own_close hi hlive ht
      | _ => cases ha
    · obtain ⟨hnew, hstop, hsession⟩ := session_frame hi.shape ha hid
      rw [hsession] at ht
      have hbefore : Live h n := ⟨hnew ▸ hlive.1, hstop ▸ hlive.2.1, t, ht, by
        obtain ⟨u, hu, hphase⟩ := hlive.2.2
        rw [hsession, ht] at hu
        rwa [Option.some.inj hu]⟩
      rw [← served_view, (untouched_iff_quiet hi a).2 hq n id hbefore ha hid, served_view]
      exact hi.served n t hbefore ht

/-- **Session isolation, exactly.** Over every run: the newest session, as long as it is live, is shown as streaming, has
its flush interval and keeps its entries, and no act of an earlier session touches what it sees, if and only if the
earlier sessions are silent while it is live. -/
theorem isolated_iff (m : ℕ) (acts : List (Act α)) :
    (Always Hook.step NewestIsolated (.init m) acts ∧ Each Hook.step Untouched (.init m) acts) ↔
      Each Hook.step Quiet (.init m) acts := by
  constructor
  · rintro ⟨-, huntouched⟩
    exact each_of_contract (fun g a hi hu => inv_step hi ((untouched_iff_quiet hi a).1 hu))
      (fun g a hi hu => (untouched_iff_quiet hi a).1 hu) (inv_init m) huntouched
  · intro hquiet
    refine ⟨always_of_each (fun g => Inv.isolated) (fun g a hi hq => inv_step hi hq) (inv_init m) hquiet, ?_⟩
    exact each_of_contract (fun g a hi hq => inv_step hi hq) (fun g a hi hq => (untouched_iff_quiet hi a).2 hq)
      (inv_init m) hquiet

/-- a session is stopped, the next one starts, and then the first one ends -/
def lateRun : List (Act ℕ) := [.start 0, .stop, .start 1, .close 0 2]

/-- **A late `finally` stops the newer session.** -/
theorem late_finally_stops_newer :
    ¬ ∀ acts : List (Act ℕ),
      Always Hook.step NewestIsolated (.init 10000) acts ∧ Each Hook.step Untouched (.init 10000) acts := by
  intro hall
  have hlast := (hall lateRun).1.last
  have hlive : Live (run Hook.step (Hook.init 10000) lateRun) 1 := ⟨rfl, rfl, _, rfl, by decide⟩
  have hstreaming := (hlast 1 hlive _ rfl).streaming
  revert hstreaming
  decide

end LogDeck.Frontend.LogStream
