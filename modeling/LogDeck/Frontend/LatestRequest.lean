/-
Which request the log viewer shows (`use-container-log-stream.ts`: `fetchLogs`, `startStreaming`; `log-viewer.tsx`: the
fetch effects).

A request is a fetch or the start of a stream; they share one counter. Fetches and starts are issued in any order, as
container, host and options change, and the answers, failures and items of all of them arrive in any order. Nothing
cancels a fetch, and its response goes to the display whatever was issued since.

`writers` are the requests that have written to the display or to the loading flag since the latest one was issued, and
`before` is what was displayed then; both are ghosts.

Results:
- `effect_step`: what an act of the stream writes;
- `latest_iff`: over every run, only the latest request writes, the flag says whether it waits for its answer, and what is
  displayed is its own, if and only if every answer, first item, end and flush is on its behalf;
- `late_response_wins`: a fetch that is answered after a newer one.
-/
import LogDeck.Frontend.LogStream

namespace LogDeck.Frontend.LatestRequest

open Machine LogDeck.Frontend.LogStream

variable {α : Type}

/-! ## Model -/

structure Page (α : Type) where
  hook : Hook α
  /-- the fetches without an answer -/
  pending : List ℕ
  latest : Option ℕ
  before : List (Entry α)
  writers : List ℕ

inductive Event (α : Type) where
  | stream (a : LogStream.Act α)
  /-- `fetchLogs` -/
  | fetch
  | answer (id : ℕ) (entries : List α)
  | fail (id : ℕ)
deriving DecidableEq, Repr

/-- the session that ends with an act, or has its first item -/
def answers (h : Hook α) : LogStream.Act α → Option ℕ
  | .wake id =>
    match h.sessions id with
    | some s => if s.phase = .waiting ∧ (h.stopRequested ∨ s.controller ∈ h.aborted) then some id else none
    | none => none
  | .close id _ =>
    match h.sessions id with
    | some s =>
      if (s.phase = .reading ∨ s.phase = .leaving) ∧ (h.stopRequested ∨ h.abortController ≠ some s.controller) then some id
      else none
    | none => none
  | .item id _ _ =>
    match h.sessions id with
    | some s =>
      if s.phase = .reading ∧ s.controller ∉ h.aborted ∧ s.hasReceivedFirstEntry = false then some id else none
    | none => none
  | _ => none

/-- the session whose `finally` runs with an act -/
def finishes (h : Hook α) : LogStream.Act α → Option ℕ
  | .item _ _ _ => none
  | a => answers h a

/-- the entries that an act moves to the display -/
def moved (h : Hook α) : LogStream.Act α → List (Entry α)
  | .tick _ => if h.flushInterval.isSome ∧ h.isStreamPaused = false then h.pendingLogs else []
  | .togglePause =>
    if h.isStreaming then
      if h.isStreamPaused then
        if h.bufferedLogs.length > 0 then h.pendingLogs ++ h.bufferedLogs else []
      else h.pendingLogs
    else []
  | a => if (finishes h a).isSome then h.pendingLogs else []

namespace Page

def init (maxLogLines : ℕ) : Page α := ⟨.init maxLogLines, [], none, [], []⟩

def fetchLogs (p : Page α) : Page α :=
  { p with
    hook := { p.hook.resetPauseAndBuffer.resetDroppedCount with
      isLoadingLogs := true
      requests := p.hook.requests + 1 }
    pending := p.hook.requests :: p.pending }

/-- the response of a fetch, with the cap applied -/
def answer (p : Page α) (id : ℕ) (entries : List α) : Page α :=
  if id ∈ p.pending then
    let logEntries := entries.map fun body => (⟨id, body⟩ : Entry α)
    let capped := if logEntries.length > p.hook.maxLogLines then logEntries.drop (logEntries.length - p.hook.maxLogLines)
      else logEntries
    { p with
      hook := { p.hook with
        logs := capped
        logsLength := capped.length
        droppedCount := p.hook.droppedCount + (logEntries.length - capped.length)
        isLoadingLogs := false }
      pending := p.pending.filter fun r => r ≠ id }
  else p

def fail (p : Page α) (id : ℕ) : Page α :=
  if id ∈ p.pending then
    { p with
      hook := { p.hook with
        logs := []
        logsLength := 0
        isLoadingLogs := false }
      pending := p.pending.filter fun r => r ≠ id }
  else p

def act (p : Page α) : Event α → Page α
  | .stream a => { p with hook := p.hook.step a }
  | .fetch => p.fetchLogs
  | .answer id entries => p.answer id entries
  | .fail id => p.fail id

/-- the request that an event issues -/
def issues (p : Page α) : Event α → Option ℕ
  | .stream (.start _) | .fetch => some p.hook.requests
  | _ => none

/-- the requests on whose behalf an event writes to the display or the flag -/
def writes (p : Page α) : Event α → List ℕ
  | .stream a => ((moved p.hook a).map fun e => e.owner) ++ (answers p.hook a).toList
  | .answer id _ | .fail id => if id ∈ p.pending then [id] else []
  | .fetch => []

def step (p : Page α) (e : Event α) : Page α :=
  match p.issues e with
  | some id =>
    { p.act e with
      latest := some id
      before := p.hook.logs
      writers := [] }
  | none => { p.act e with writers := p.writers ++ p.writes e }

end Page

/-! ## What is claimed -/

/-- a session without an item, that has not ended -/
def Open (h : Hook α) (r : ℕ) : Prop :=
  ∃ s, h.sessions r = some s ∧ s.hasReceivedFirstEntry = false ∧ s.phase ≠ .ended

/-- a request that has no answer yet -/
def Unanswered (p : Page α) (r : ℕ) : Prop := r ∈ p.pending ∨ Open p.hook r

/-- the flag is the request's, and so is what is displayed, but for a fetch that is not answered: the display stays as it
was when it was issued -/
structure Shows (p : Page α) (r : ℕ) : Prop where
  loading : p.hook.isLoadingLogs = true ↔ Unanswered p r
  entries : (∀ e ∈ p.hook.logs, e.owner = r) ∨ (r ∈ p.pending ∧ p.hook.logs = p.before)

/-- only the latest request has written to the display and to the flag, and they are its own -/
structure LatestWins (p : Page α) : Prop where
  writers : ∀ w ∈ p.writers, p.latest = some w
  shows : ∀ r, p.latest = some r → Shows p r

/-- what an event writes is on behalf of the latest request -/
def Timely (p : Page α) (e : Event α) : Prop := ∀ w ∈ p.writes e, p.latest = some w

/-! ## What an act of the stream writes -/

variable {h : Hook α}

def Act.isStart : LogStream.Act α → Bool
  | .start _ => true
  | _ => false

/-- an act that starts no session, in terms of the display, the flag and the sessions -/
structure Effect (h : Hook α) (a : LogStream.Act α) (h' : Hook α) : Prop where
  requests : h'.requests = h.requests
  unmoved : moved h a = [] → h'.logs = h.logs
  logs : ∀ e ∈ h'.logs, e ∈ h.logs ∨ e ∈ moved h a
  loading : h'.isLoadingLogs = if answers h a = none then h.isLoadingLogs else false
  sessions : ∀ r, h'.sessions r = none ↔ h.sessions r = none
  opened : ∀ r, Open h' r ↔ Open h r ∧ answers h a ≠ some r
  waiting : ∀ e ∈ h'.pendingLogs ++ h'.bufferedLogs,
    e ∈ h.pendingLogs ++ h.bufferedLogs ∨ h.sessions e.owner ≠ none

/-- an act that leaves the display and the flag alone, and the sessions as open as they were -/
theorem effect_silent {a : LogStream.Act α} (hanswers : answers h a = none) {h' : Hook α}
    (hrequests : h'.requests = h.requests) (hlogs : h'.logs = h.logs) (hloading : h'.isLoadingLogs = h.isLoadingLogs)
    (hsessions : ∀ r, h'.sessions r = none ↔ h.sessions r = none) (hopen : ∀ r, Open h' r ↔ Open h r)
    (hwaiting : ∀ e ∈ h'.pendingLogs ++ h'.bufferedLogs, e ∈ h.pendingLogs ++ h.bufferedLogs ∨ h.sessions e.owner ≠ none) :
    Effect h a h' where
  requests := hrequests
  unmoved := fun _ => hlogs
  logs := fun e he => Or.inl (hlogs ▸ he)
  loading := by rw [hanswers, hloading]; rfl
  sessions := hsessions
  opened := fun r => by rw [hopen r, hanswers]; simp
  waiting := hwaiting

theorem sessions_setSession {id : ℕ} {s : Session α} (hs : h.sessions id = some s) (t : Session α) (r : ℕ) :
    (h.setSession id t).sessions r = none ↔ h.sessions r = none := by
  by_cases hr : r = id
  · subst hr
    rw [setSession_self, hs]
    simp
  · rw [setSession_other h hr]

theorem open_setSession (h : Hook α) (id : ℕ) (t : Session α) (r : ℕ) :
    Open (h.setSession id t) r ↔
      (r = id ∧ t.hasReceivedFirstEntry = false ∧ t.phase ≠ .ended) ∨ (r ≠ id ∧ Open h r) := by
  unfold Open
  by_cases hr : r = id
  · subst hr
    simp
  · simp [setSession_other h hr, hr]

/-- a session that goes on as open as it was -/
theorem open_keep {id : ℕ} {s t : Session α} (hs : h.sessions id = some s)
    (ht : (t.hasReceivedFirstEntry = false ∧ t.phase ≠ .ended) ↔ (s.hasReceivedFirstEntry = false ∧ s.phase ≠ .ended))
    (r : ℕ) : Open (h.setSession id t) r ↔ Open h r := by
  rw [open_setSession, ht]
  unfold Open
  by_cases hr : r = id
  · subst hr
    simp [hs]
  · simp [hr]

/-- a session that has answered -/
theorem open_close {id : ℕ} {t : Session α} (ht : ¬ (t.hasReceivedFirstEntry = false ∧ t.phase ≠ .ended)) (r : ℕ) :
    Open (h.setSession id t) r ↔ Open h r ∧ some id ≠ some r := by
  rw [open_setSession]
  by_cases hr : r = id
  · subst hr
    simp [ht]
  · simp [hr, Ne.symm hr]

/-- the display after a flush -/
theorem flush_logs (hs : Shape h) :
    (h.pendingLogs = [] → h.flushPendingLogs.logs = h.logs) ∧
      ∀ e ∈ h.flushPendingLogs.logs, e ∈ h.logs ∨ e ∈ h.pendingLogs := by
  constructor
  · intro hnil
    rw [Hook.flushPendingLogs, if_pos (by rw [hnil]; rfl)]
  · obtain ⟨k, d, b, -, -, e⟩ := flush_eq hs.length
    rw [e]
    intro x hx
    exact List.mem_append.1 (List.mem_of_mem_drop hx)

/-- a session that ends: its `finally` flushes what is pending -/
theorem effect_finish (hs : Shape h) {a : LogStream.Act α} {id : ℕ} {s : Session α} (hid : h.sessions id = some s)
    (hanswers : answers h a = some id) (hmoved : moved h a = h.pendingLogs) : Effect h a (h.finish id s) := by
  obtain ⟨k, d, b, -, -, e⟩ := finish_eq hs.length id s
  have hlogs : (h.finish id s).logs = h.flushPendingLogs.logs := by
    have hsame : { h with flushInterval := none }.flushPendingLogs.logs = h.flushPendingLogs.logs := by
      unfold Hook.flushPendingLogs
      split_ifs <;> rfl
    exact hsame
  have hflush := flush_logs hs
  rw [hmoved.symm] at hflush
  refine ⟨?_, fun hnil => hlogs.trans (hflush.1 hnil), fun x hx => hflush.2 x (hlogs ▸ hx), ?_, fun r => ?_, fun r => ?_, ?_⟩
  · rw [e]
    rfl
  · rw [hanswers, e]
    rfl
  · rw [e]
    exact sessions_setSession (by exact hid) _ r
  · rw [hanswers, e]
    exact open_close (fun hopen => hopen.2 rfl) r
  · rw [e]
    intro x hx
    change x ∈ ([] : List (Entry α)) ++ h.bufferedLogs at hx
    exact Or.inl (List.mem_append_right _ hx)

theorem effect_idle {a : LogStream.Act α} (hanswers : answers h a = none) : Effect h a h :=
  effect_silent hanswers rfl rfl rfl (fun _ => Iff.rfl) (fun _ => Iff.rfl) fun _ he => Or.inl he

theorem effect_wake (hs : Shape h) (id : ℕ) : Effect h (.wake id) (h.wake id) := by
  unfold Hook.wake
  cases hid : h.sessions id with
  | none => exact effect_idle (by simp [answers, hid])
  | some s =>
    dsimp only
    split_ifs with hphase hbreak
    · have hanswers : answers h (.wake id) = some id := by simp [answers, hid, hphase, hbreak]
      exact effect_finish hs hid hanswers (by simp [moved, finishes, hanswers])
    · have hanswers : answers h (.wake id) = none := by simp [answers, hid, hbreak]
      refine effect_silent hanswers rfl rfl rfl (sessions_setSession hid _) (open_keep hid ?_) fun _ he => Or.inl he
      simp [hphase]
    · exact effect_idle (by simp [answers, hid, hphase])

theorem effect_close (hs : Shape h) (id : ℕ) (now : ℤ) : Effect h (.close id now) (h.close id now) := by
  unfold Hook.close
  cases hid : h.sessions id with
  | none => exact effect_idle (by simp [answers, hid])
  | some s =>
    dsimp only
    split_ifs with hphase hbreak
    · have hanswers : answers h (.close id now) = some id := by simp [answers, hid, hphase, hbreak]
      exact effect_finish hs hid hanswers (by simp [moved, finishes, hanswers])
    · have hanswers : answers h (.close id now) = none := by simp [answers, hid, hbreak]
      refine effect_silent hanswers rfl rfl rfl (sessions_setSession (by exact hid) _) (open_keep (by exact hid) ?_)
        fun _ he => Or.inl he
      rcases hphase with hp | hp <;> simp [hp]
    · exact effect_idle (by simp [answers, hid, hphase])

theorem push_eq (h : Hook α) (e : Entry α) :
    ∃ pending buffered, h.push e = { h with pendingLogs := pending, bufferedLogs := buffered } ∧
      ∀ x ∈ pending ++ buffered, x ∈ h.pendingLogs ++ h.bufferedLogs ∨ x = e := by
  unfold Hook.push
  split_ifs
  · refine ⟨h.pendingLogs, h.bufferedLogs ++ [e], rfl, fun x hx => ?_⟩
    simp only [List.mem_append, List.mem_singleton] at hx ⊢
    tauto
  · refine ⟨h.pendingLogs ++ [e], h.bufferedLogs, rfl, fun x hx => ?_⟩
    simp only [List.mem_append, List.mem_singleton] at hx ⊢
    tauto

/-- an item: the first one is the answer of its session -/
theorem effect_heard {id : ℕ} {s : Session α} (hid : h.sessions id = some s) (hphase : s.phase = .reading)
    (habort : s.controller ∉ h.aborted) (now : ℤ) (entry : Option α) (entries : List (Entry α)) :
    Effect h (.item id now entry) (h.heard id s now entries) := by
  cases hfirst : s.hasReceivedFirstEntry with
  | true =>
    have hanswers : answers h (.item id now entry) = none := by simp [answers, hid, hfirst]
    refine effect_silent hanswers rfl rfl ?_ (sessions_setSession (by exact hid) _) (open_keep (by exact hid) ?_)
      fun _ he => Or.inl he
    · simp [Hook.heard, Hook.setSession, hfirst]
    · simp [hfirst]
  | false =>
    have hanswers : answers h (.item id now entry) = some id := by simp [answers, hid, hphase, habort, hfirst]
    refine ⟨rfl, fun _ => rfl, fun _ he => Or.inl he, ?_, sessions_setSession (by exact hid) _, fun r => ?_,
      fun _ he => Or.inl he⟩
    · simp [Hook.heard, Hook.setSession, hanswers, hfirst]
    · rw [hanswers]
      exact open_close (fun hopen => Bool.noConfusion hopen.1) r

theorem effect_item (id : ℕ) (now : ℤ) (entry : Option α) : Effect h (.item id now entry) (h.item id now entry) := by
  unfold Hook.item
  cases hid : h.sessions id with
  | none => exact effect_idle (by simp [answers, hid])
  | some s =>
    dsimp only
    split_ifs with hphase habort
    · have hanswers : answers h (.item id now entry) = none := by simp [answers, hid, habort]
      refine effect_silent hanswers rfl rfl rfl (sessions_setSession hid _) (open_keep hid ?_) fun _ he => Or.inl he
      simp [hphase]
    · cases entry with
      | none => exact effect_heard hid hphase habort now none []
      | some body =>
        have heard := effect_heard hid hphase habort now (some body) [⟨id, body⟩]
        obtain ⟨pending, buffered, e, hnew⟩ := push_eq (h.heard id s now [⟨id, body⟩]) ⟨id, body⟩
        dsimp only
        rw [e]
        refine { heard with waiting := fun x hx => ?_ }
        rcases hnew x hx with hx | rfl
        · exact heard.waiting x hx
        · exact Or.inr (by simp [hid])
    · exact effect_idle (by simp [answers, hid, hphase])

theorem effect_tick (hs : Shape h) (now : ℤ) : Effect h (.tick now) (h.tick now) := by
  unfold Hook.tick
  cases hinterval : h.flushInterval with
  | none => exact effect_idle rfl
  | some owner =>
    obtain ⟨aborted, e⟩ := watchdog_eq h now
    dsimp only
    rw [Hook.handleFlushTick, e]
    split_ifs with hp
    · refine effect_silent rfl rfl rfl rfl (fun _ => Iff.rfl) (fun _ => Iff.rfl) fun x hx => Or.inl ?_
      rcases List.mem_append.1 hx with hx | hx
      · exact List.mem_append_left _ hx
      · exact List.mem_append_right _ (List.mem_of_mem_drop hx)
    · have hmoved : moved h (.tick now) = h.pendingLogs := by simp [moved, hinterval, hp]
      have hs' : Shape { h with aborted := aborted } := ⟨hs.fresh, hs.distinct, hs.owner, hs.length, hs.paused, hs.running⟩
      have hflush := flush_logs hs'
      obtain ⟨k, d, b, -, -, ef⟩ := flush_eq hs'.length
      rw [ef] at hflush ⊢
      refine ⟨rfl, fun hnil => hflush.1 (hmoved ▸ hnil), fun x hx => hmoved ▸ hflush.2 x hx, rfl, fun _ => Iff.rfl,
        fun r => ?_, fun x hx => Or.inl (List.mem_append_right _ hx)⟩
      exact ⟨fun hopen => ⟨hopen, fun h => by cases h⟩, fun hopen => hopen.1⟩

theorem effect_togglePause (hs : Shape h) : Effect h .togglePause h.togglePauseStreaming := by
  -- what a flush of these entries leaves of the hook
  have hflush (g : Hook α) (hg : Shape g) (hsame : g.requests = h.requests ∧ g.logs = h.logs ∧
      g.isLoadingLogs = h.isLoadingLogs ∧ g.sessions = h.sessions ∧ g.bufferedLogs ⊆ h.bufferedLogs)
      (hmoved : moved h .togglePause = g.pendingLogs) (p : Bool) :
      Effect h .togglePause { g.flushPendingLogs with isStreamPaused := p } := by
    obtain ⟨hrequests, hlogs, hloading, hsessions, hbuffered⟩ := hsame
    have hdisplay := flush_logs hg
    obtain ⟨k, d, b, -, -, e⟩ := flush_eq hg.length
    rw [e] at hdisplay ⊢
    rw [hmoved.symm, hlogs] at hdisplay
    refine ⟨hrequests, fun hnil => ?_, fun x hx => ?_, hloading, fun r => by dsimp only; rw [hsessions], fun r => ?_,
      fun x hx => Or.inl (List.mem_append_right _ (hbuffered hx))⟩
    · have hmovedNil := hdisplay.1 hnil
      dsimp only at hmovedNil ⊢
      rw [hlogs]
      rw [hmoved] at hmovedNil
      exact hmovedNil
    · refine hdisplay.2 x ?_
      dsimp only at hx ⊢
      rw [hlogs] at hx
      rwa [hmoved]
    · unfold Open
      dsimp only
      rw [hsessions]
      exact ⟨fun hopen => ⟨hopen, fun h => by cases h⟩, fun hopen => hopen.1⟩
  unfold Hook.togglePauseStreaming
  split_ifs with hstreaming hp
  · unfold Hook.resume
    split_ifs with hlen
    · have hg : Shape
          { h with
            isStreamPaused := false
            bufferedCount := 0
            pendingLogs := h.pendingLogs ++ h.bufferedLogs
            bufferedLogs := [] } :=
        ⟨hs.fresh, hs.distinct, hs.owner, hs.length, fun hr => (by cases hr), fun _ => rfl⟩
      have heffect := hflush _ hg ⟨rfl, rfl, rfl, rfl, List.nil_subset _⟩ (by simp [moved, hstreaming, hp, hlen]) false
      obtain ⟨k, d, b, -, -, e⟩ := flush_eq hg.length
      rw [e] at heffect ⊢
      exact heffect
    · exact effect_silent rfl rfl rfl rfl (fun _ => Iff.rfl) (fun _ => Iff.rfl) fun _ he => Or.inl he
  · exact hflush h hs ⟨rfl, rfl, rfl, rfl, List.Subset.refl _⟩ (by simp [moved, hstreaming, hp]) true
  · exact effect_idle rfl

/-- **What an act of the stream writes**: the entries that it moves, and the flag of the session it answers for. -/
theorem effect_step (hs : Shape h) {a : LogStream.Act α} (ha : Act.isStart a = false) : Effect h a (h.step a) := by
  cases a with
  | start now => cases ha
  | stop =>
    exact effect_silent rfl rfl rfl rfl (fun _ => Iff.rfl) (fun _ => Iff.rfl) fun x hx => Or.inl (List.mem_append_left _ (by
      change x ∈ h.pendingLogs ++ [] at hx
      rwa [List.append_nil] at hx))
  | togglePause => exact effect_togglePause hs
  | setMaxLogLines n => exact effect_silent rfl rfl rfl rfl (fun _ => Iff.rfl) (fun _ => Iff.rfl) fun _ he => Or.inl he
  | tick now => exact effect_tick hs now
  | wake id => exact effect_wake hs id
  | item id now entry => exact effect_item id now entry
  | close id now => exact effect_close hs id now

/-! ## The invariant -/

structure Inv (p : Page α) : Prop where
  shape : Shape p.hook
  /-- a fetch is no session -/
  fetches : ∀ id ∈ p.pending, id < p.hook.requests ∧ p.hook.sessions id = none
  /-- what waits for a flush comes from sessions -/
  waiting : ∀ e ∈ p.hook.pendingLogs ++ p.hook.bufferedLogs, p.hook.sessions e.owner ≠ none
  wins : LatestWins p

theorem inv_init (m : ℕ) : Inv (Page.init m : Page α) where
  shape := shape_init m
  fetches := by simp [Page.init]
  waiting := by simp [Page.init, Hook.init]
  wins := ⟨by simp [Page.init], fun r hr => by cases hr⟩

variable {p : Page α}

/-- a session that an act answers for exists -/
theorem answers_session {a : LogStream.Act α} {r : ℕ} (hr : answers h a = some r) : h.sessions r ≠ none := by
  -- every act that answers looks its session up
  have hlook {id : ℕ} {P : Session α → Prop} [DecidablePred P]
      (hid : (match h.sessions id with
        | some s => if P s then some id else none
        | none => none) = some r) : h.sessions r ≠ none := by
    cases hs : h.sessions id with
    | none => simp [hs] at hid
    | some s =>
      simp only [hs, Option.ite_none_right_eq_some, Option.some.injEq] at hid
      rw [← hid.2, hs]
      exact Option.some_ne_none s
  cases a with
  | wake id => exact hlook hr
  | item id now entry => exact hlook hr
  | close id now => exact hlook hr
  | _ => cases hr

/-- what an act moves waits for a flush -/
theorem moved_waiting {a : LogStream.Act α} {e : Entry α} (he : e ∈ moved h a) : e ∈ h.pendingLogs ++ h.bufferedLogs := by
  cases a with
  | tick now =>
    simp only [moved] at he
    split_ifs at he
    · exact List.mem_append_left _ he
    · cases he
  | togglePause =>
    simp only [moved] at he
    split_ifs at he
    · exact he
    · cases he
    · exact List.mem_append_left _ he
    · cases he
  | _ =>
    simp only [moved] at he
    split_ifs at he
    · exact List.mem_append_left _ he
    · cases he

/-! ## One step -/

theorem inv_fetch (hi : Inv p) : Inv (p.step .fetch) where
  shape := by
    refine ⟨fun id s hid => ?_, hi.shape.distinct, hi.shape.owner, hi.shape.length, fun hr => ?_, fun _ => rfl⟩
    · obtain ⟨hlt, hc⟩ := hi.shape.fresh id s hid
      exact ⟨Nat.lt_succ_of_lt hlt, hc⟩
    · cases hr
  fetches := by
    intro id hid
    rcases List.mem_cons.1 hid with rfl | hid
    · refine ⟨Nat.lt_succ_self _, ?_⟩
      -- the counter is ahead of the sessions
      cases hs : p.hook.sessions p.hook.requests with
      | none => exact hs
      | some s => exact absurd (hi.shape.fresh _ s hs).1 (lt_irrefl _)
    · exact ⟨Nat.lt_succ_of_lt (hi.fetches id hid).1, (hi.fetches id hid).2⟩
  waiting := by
    intro e he
    refine hi.waiting e (List.mem_append_left _ ?_)
    change e ∈ p.hook.pendingLogs ++ [] at he
    rwa [List.append_nil] at he
  wins := by
    refine ⟨fun w hw => (by cases hw), fun r hr => ?_⟩
    obtain rfl := Option.some.inj hr
    exact ⟨⟨fun _ => Or.inl List.mem_cons_self, fun _ => rfl⟩, Or.inr ⟨List.mem_cons_self, rfl⟩⟩

theorem inv_start (hi : Inv p) (now : ℤ) : Inv (p.step (.stream (.start now))) where
  shape := shape_start hi.shape now
  fetches := by
    intro id hid
    obtain ⟨hlt, hnone⟩ := hi.fetches id hid
    refine ⟨Nat.lt_succ_of_lt hlt, ?_⟩
    exact (setSession_other _ (Nat.ne_of_lt hlt) _).trans hnone
  waiting := fun e he => by cases he
  wins := by
    refine ⟨fun w hw => (by cases hw), fun r hr => ?_⟩
    obtain rfl := Option.some.inj hr
    refine ⟨⟨fun _ => Or.inr ⟨_, setSession_self _ _ _, rfl, fun h => by cases h⟩, fun _ => rfl⟩, Or.inl fun e he => ?_⟩
    cases he

/-- a fetch that leaves the display to its own entries, and is answered -/
theorem inv_settle (hi : Inv p) {id : ℕ} (hid : id ∈ p.pending) (hlatest : p.latest = some id) {logs : List (Entry α)}
    (howner : ∀ e ∈ logs, e.owner = id) (dropped : ℕ) :
    Inv { p with
      hook := { p.hook with
        logs := logs
        logsLength := logs.length
        droppedCount := dropped
        isLoadingLogs := false }
      pending := p.pending.filter fun r => r ≠ id
      writers := p.writers ++ [id] } where
  shape := ⟨hi.shape.fresh, hi.shape.distinct, hi.shape.owner, rfl, hi.shape.paused, hi.shape.running⟩
  fetches := fun r hr => hi.fetches r (List.mem_of_mem_filter hr)
  waiting := hi.waiting
  wins := by
    refine ⟨fun w hw => ?_, fun r hr => ?_⟩
    · rcases List.mem_append.1 hw with hw | hw
      · exact hi.wins.writers w hw
      · obtain rfl := List.mem_singleton.1 hw
        exact hlatest
    · obtain rfl := Option.some.inj (hlatest.symm.trans hr)
      refine ⟨⟨fun h => (by cases h), fun hwaits => ?_⟩, Or.inl howner⟩
      rcases hwaits with hpending | ⟨s, hs, -⟩
      · simp at hpending
      · rw [(hi.fetches id hid).2] at hs
        cases hs

theorem inv_answer (hi : Inv p) {id : ℕ} {entries : List α} (ht : Timely p (.answer id entries)) :
    Inv (p.step (.answer id entries)) := by
  change Inv { p.answer id entries with writers := p.writers ++ if id ∈ p.pending then [id] else [] }
  unfold Page.answer
  by_cases hid : id ∈ p.pending
  · have hlatest : p.latest = some id := ht id (by simp [Page.writes, hid])
    rw [if_pos hid, if_pos hid]
    refine inv_settle hi hid hlatest (fun e he => ?_) _
    have hmem : e ∈ entries.map fun body => (⟨id, body⟩ : Entry α) := by
      split_ifs at he
      · exact List.mem_of_mem_drop he
      · exact he
    obtain ⟨body, -, rfl⟩ := List.mem_map.1 hmem
    rfl
  · rw [if_neg hid, if_neg hid, List.append_nil]
    exact hi

theorem inv_fail (hi : Inv p) {id : ℕ} (ht : Timely p (.fail id)) : Inv (p.step (.fail id)) := by
  change Inv { p.fail id with writers := p.writers ++ if id ∈ p.pending then [id] else [] }
  unfold Page.fail
  by_cases hid : id ∈ p.pending
  · have hlatest : p.latest = some id := ht id (by simp [Page.writes, hid])
    rw [if_pos hid, if_pos hid]
    exact inv_settle hi hid hlatest (fun e he => by cases he) p.hook.droppedCount
  · rw [if_neg hid, if_neg hid, List.append_nil]
    exact hi

/-- an act of the stream that starts no session -/
theorem inv_stream (hi : Inv p) {a : LogStream.Act α} (ha : Act.isStart a = false) (ht : Timely p (.stream a)) :
    Inv (p.step (.stream a)) := by
  have heffect := effect_step hi.shape ha
  have hstep : p.step (.stream a) = { p with hook := p.hook.step a, writers := p.writers ++ p.writes (.stream a) } := by
    cases a with
    | start now => cases ha
    | _ => rfl
  rw [hstep]
  -- who writes is the latest request
  have hmoved : ∀ e ∈ moved p.hook a, p.latest = some e.owner := fun e he =>
    ht e.owner (List.mem_append_left _ (List.mem_map_of_mem he))
  have hanswers : ∀ r, answers p.hook a = some r → p.latest = some r := fun r hr =>
    ht r (List.mem_append_right _ (by rw [hr]; exact List.mem_singleton_self r))
  refine ⟨shape_step hi.shape a, fun id hid => ?_, fun e he => ?_, fun w hw => ?_, fun r hr => ⟨?_, ?_⟩⟩
  · obtain ⟨hlt, hnone⟩ := hi.fetches id hid
    exact ⟨heffect.requests ▸ hlt, (heffect.sessions id).2 hnone⟩
  · intro hnone
    rw [heffect.sessions] at hnone
    rcases heffect.waiting e he with hold | hsome
    · exact hi.waiting e hold hnone
    · exact hsome hnone
  · rcases List.mem_append.1 hw with hw | hw
    · exact hi.wins.writers w hw
    · exact ht w hw
  · have hloading := (hi.wins.shows r hr).loading
    change (p.hook.step a).isLoadingLogs = true ↔ r ∈ p.pending ∨ Open (p.hook.step a) r
    rw [heffect.loading, heffect.opened]
    cases hans : answers p.hook a with
    | none => simpa [Unanswered] using hloading
    | some w =>
      -- the latest request is the session that has answered
      obtain rfl : w = r := Option.some.inj ((hanswers w hans).symm.trans hr)
      have hnot : w ∉ p.pending := fun hmem => answers_session hans (hi.fetches w hmem).2
      simp [hnot]
  · cases hmv : moved p.hook a with
    | nil =>
      change (∀ e ∈ (p.hook.step a).logs, e.owner = r) ∨ r ∈ p.pending ∧ (p.hook.step a).logs = p.before
      rw [heffect.unmoved hmv]
      exact (hi.wins.shows r hr).entries
    | cons e rest =>
      -- the latest request is the session whose entries move
      have he : e ∈ moved p.hook a := hmv ▸ List.mem_cons_self
      have howner : e.owner = r := Option.some.inj ((hmoved e he).symm.trans hr)
      have hnot : r ∉ p.pending := fun hmem => hi.waiting e (moved_waiting he) (howner ▸ (hi.fetches r hmem).2)
      have hown := (hi.wins.shows r hr).entries.resolve_right fun hwaits => hnot hwaits.1
      refine Or.inl fun x hx => ?_
      rcases heffect.logs x hx with hx | hx
      · exact hown x hx
      · exact Option.some.inj ((hmoved x hx).symm.trans hr)

/-- **One step.** An event whose writes are on behalf of the latest request leaves the display and the flag to it. -/
theorem inv_step (hi : Inv p) {e : Event α} (ht : Timely p e) : Inv (p.step e) := by
  cases e with
  | fetch => exact inv_fetch hi
  | answer id entries => exact inv_answer hi ht
  | fail id => exact inv_fail hi ht
  | stream a =>
    cases ha : Act.isStart a with
    | false => exact inv_stream hi ha ht
    | true =>
      cases a with
      | start now => exact inv_start hi now
      | _ => cases ha

/-- **Exactness of one step.** A write on behalf of an earlier request stays on record. -/
theorem timely_of_wins {e : Event α} (h : LatestWins (p.step e)) : Timely p e := by
  intro w hw
  unfold Page.step at h
  cases hissues : p.issues e with
  | none =>
    rw [hissues] at h
    have hlatest : (p.act e).latest = p.latest := by
      cases e with
      | stream a => rfl
      | fetch => rfl
      | answer id entries =>
        change (p.answer id entries).latest = p.latest
        unfold Page.answer
        split_ifs <;> rfl
      | fail id =>
        change (p.fail id).latest = p.latest
        unfold Page.fail
        split_ifs <;> rfl
    rw [← hlatest]
    exact h.writers w (List.mem_append_right _ hw)
  | some id =>
    -- a request that is issued writes for itself
    cases e with
    | stream a =>
      cases a with
      | start now => cases hw
      | _ => cases hissues
    | fetch => cases hw
    | _ => cases hissues

/-- **The latest request wins, exactly.** Over every sequence of fetches and starts, and every order of their answers,
failures, items and ends: the display and the loading flag always belong to the request issued last, if and only if every
event that writes to them writes on its behalf. -/
theorem latest_iff (m : ℕ) (events : List (Event α)) :
    Always Page.step LatestWins (.init m) events ↔ Each Page.step Timely (.init m) events :=
  always_iff_each (fun _ hi => Inv.wins hi) (fun _ _ hi ht => inv_step hi ht)
    (fun _ _ _ hbad hwins => hbad (timely_of_wins hwins)) (inv_init m)

/-- two fetches, and the first one is answered last -/
def lateResponse : List (Event ℕ) := [.fetch, .fetch, .answer 1 [7], .answer 0 [3]]

/-- **A late response wins.** The newer fetch has been answered, and the display changes to what the older one found. -/
theorem late_response_wins : ¬ ∀ events : List (Event ℕ), Always Page.step LatestWins (.init 10000) events := by
  intro hall
  have hlast := (hall lateResponse).last
  have hlogs : (run Page.step (Page.init 10000) lateResponse).hook.logs = [⟨0, 3⟩] := rfl
  have hlatest : (run Page.step (Page.init 10000) lateResponse).latest = some 1 := rfl
  have hpending : (run Page.step (Page.init 10000) lateResponse).pending = [] := rfl
  rcases (hlast.shows 1 hlatest).entries with hown | hwaits
  · have howner := hown ⟨0, 3⟩ (by rw [hlogs]; exact List.mem_singleton_self _)
    cases howner
  · rw [hpending] at hwaits
    cases hwaits.1

end LogDeck.Frontend.LatestRequest
