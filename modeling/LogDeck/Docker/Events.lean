/-
The events of the engines (`docker/events.go`, `docker/events_engine.go`; `api/handlers.go`, `GetContainerEvents`).

Every configured host has a watcher, which subscribes, receives, and resubscribes after a wait that doubles with every
failure in a row. The watchers share one unbuffered channel: a watcher that has an event blocks until the consumer takes
it. The consumer is the handler, which writes each event to the response, or the alerting engine. Messages, failures,
timers, the consumer and the cancellation interleave freely; where Go's select has several ready cases it takes any. What
an engine sends while its watcher waits to resubscribe is not received.

Results:
- `next_backoff`: the waits after failures in a row;
- `step_relays`: what one step keeps;
- `step_other`, `hosts_isolated`: a host is served as if there were no other;
- `events_relayed`: no event that was received is lost, repeated, reordered or made up on the way.
-/
import LogDeck.Lib.FanIn
import LogDeck.Lib.Machine
import LogDeck.LogStore.Lifecycle
import Mathlib.Data.Nat.Basic

namespace LogDeck.Docker

open FanIn
open LogDeck.LogStore (Labels)

/-! ## Messages -/

/-- the fields of a message of the engine that are read -/
structure Message where
  type : String
  action : String
  actorID : String
  attributes : Labels
  time : ℤ
  timeNano : ℤ
deriving DecidableEq, Repr

structure ContainerEvent where
  host : String
  containerID : String
  containerName : String
  action : String
  timestamp : ℤ
deriving DecidableEq, Repr

structure EngineEvent where
  host : String
  containerID : String
  containerName : String
  action : String
  exitCode : String
  healthStatus : String
  labels : Labels
  timestamp : ℤ
deriving DecidableEq, Repr

def watchedContainerActions : List String :=
  ["create", "start", "stop", "die", "restart", "pause", "unpause", "destroy", "rename", "health_status"]

def engineEventActions : List String := ["start", "die", "oom", "destroy", "rename", "health_status"]

def ContainerEventType : String := "container"

/-- `strings.Cut(s, ": ")` -/
def cutColonSpace : List Char → List Char × List Char
  | [] => ([], [])
  | ':' :: ' ' :: cs => ([], cs)
  | c :: cs => (c :: (cutColonSpace cs).1, (cutColonSpace cs).2)

def baseAction (action : String) : String := String.ofList (cutColonSpace action.toList).1

def actionDetail (action : String) : String := String.ofList (cutColonSpace action.toList).2

def Message.timestamp (msg : Message) : ℤ :=
  if msg.time = 0 ∧ msg.timeNano > 0 then msg.timeNano / 1000000000 else msg.time

def mapContainerEvent (hostName : String) (msg : Message) : Option ContainerEvent :=
  if msg.type ≠ ContainerEventType then none
  else if baseAction msg.action ∉ watchedContainerActions then none
  else
    some { host := hostName
           containerID := msg.actorID
           containerName := msg.attributes.get "name"
           action := msg.action
           timestamp := msg.timestamp }

def mapEngineEvent (hostName : String) (msg : Message) : Option EngineEvent :=
  if msg.type ≠ ContainerEventType then none
  else if baseAction msg.action ∉ engineEventActions then none
  else
    some { host := hostName
           containerID := msg.actorID
           containerName := msg.attributes.get "name"
           action := msg.action
           exitCode := if baseAction msg.action = "die" then msg.attributes.get "exitCode" else ""
           healthStatus := if baseAction msg.action = "health_status" then actionDetail msg.action else ""
           labels := msg.attributes
           timestamp := msg.timestamp }

/-! ## Watchers -/

/-- in seconds -/
def eventsInitialBackoff : ℕ := 1

def eventsMaxBackoff : ℕ := 30

def nextBackoff (backoff : ℕ) : ℕ := min (backoff * 2) eventsMaxBackoff

inductive WatchPhase (E : Type) where
  | receiving
  /-- blocked in `out <- event` -/
  | offering (event : E)
  /-- in the wait before it subscribes again -/
  | waiting
  | stopped

def WatchPhase.offer {E : Type} : WatchPhase E → Option E
  | .offering event => some event
  | .receiving | .waiting | .stopped => none

structure Watcher (E : Type) where
  phase : WatchPhase E
  backoff : ℕ
  /-- ghost: the waits since the last message -/
  waits : ℕ

/-- the watchers of `StreamContainerEvents` or `StreamEngineEvents`, and their consumer -/
structure Fan (E : Type) where
  watchers : String → Watcher E
  cancelled : Bool
  /-- what the consumer has taken from the channel -/
  taken : List (String × E)
  /-- what it has written -/
  written : List E
  /-- the consumer has returned -/
  ended : Bool
  /-- ghost: the messages that each watcher has received -/
  received : String → List Message

inductive FanAct where
  /-- a message of the subscription of a host -/
  | message (host : String) (msg : Message)
  /-- its error -/
  | fails (host : String)
  /-- the wait of a host is over -/
  | timer (host : String)
  /-- the consumer takes the event of a host, and writes it or fails to -/
  | take (host : String) (ok : Bool)
  | cancel
  /-- a watcher sees that the context is done -/
  | stop (host : String)
  /-- the consumer does -/
  | leave
deriving DecidableEq, Repr

def subscribed (E : Type) : Watcher E := { phase := .receiving, backoff := eventsInitialBackoff, waits := 0 }

def Fan.start (E : Type) (hosts : List String) : Fan E :=
  { watchers := fun host => if host ∈ hosts then subscribed E else { subscribed E with phase := .stopped }
    cancelled := false
    taken := []
    written := []
    ended := false
    received := fun _ => [] }

section
variable {E : Type} (mapEvent : String → Message → Option E)

def Fan.setPhase (s : Fan E) (host : String) (phase : WatchPhase E) : Fan E :=
  { s with watchers := Function.update s.watchers host { s.watchers host with phase := phase } }

/-- what a watcher does with a message: the wait is the first again, and an event is offered -/
def Watcher.receive (host : String) (msg : Message) : Watcher E :=
  match mapEvent host msg with
  | none => subscribed E
  | some event => { subscribed E with phase := .offering event }

/-- the head of the loop after a wait -/
def Watcher.resubscribe (w : Watcher E) : Watcher E :=
  { phase := .receiving, backoff := nextBackoff w.backoff, waits := w.waits + 1 }

def Fan.receive (s : Fan E) (host : String) (msg : Message) : Fan E :=
  { s with
    watchers := Function.update s.watchers host (Watcher.receive mapEvent host msg)
    received := Function.update s.received host (s.received host ++ [msg]) }

/-- a consumer that fails to write returns -/
def Fan.deliver (s : Fan E) (host : String) (event : E) (ok : Bool) : Fan E :=
  { s.setPhase host .receiving with
    taken := s.taken ++ [(host, event)]
    written := if ok then s.written ++ [event] else s.written
    ended := !ok }

def Fan.step (s : Fan E) : FanAct → Fan E
  | .message host msg =>
    match (s.watchers host).phase with
    | .receiving => s.receive mapEvent host msg
    | _ => s
  | .fails host =>
    match (s.watchers host).phase with
    | .receiving => s.setPhase host (if s.cancelled then .stopped else .waiting)
    | _ => s
  | .timer host =>
    match (s.watchers host).phase with
    | .waiting => { s with watchers := Function.update s.watchers host (s.watchers host).resubscribe }
    | _ => s
  | .take host ok =>
    match (s.watchers host).phase with
    | .offering event => if s.ended then s else s.deliver host event ok
    | _ => s
  | .cancel => { s with cancelled := true }
  | .stop host =>
    if s.cancelled then
      match (s.watchers host).phase with
      -- the event is given up, and the watcher goes on to its next select
      | .offering _ => s.setPhase host .receiving
      | .receiving | .waiting | .stopped => s.setPhase host .stopped
    else s
  | .leave => { s with ended := s.ended || s.cancelled }

end

def StreamContainerEvents : Fan ContainerEvent → FanAct → Fan ContainerEvent := Fan.step mapContainerEvent

def StreamEngineEvents : Fan EngineEvent → FanAct → Fan EngineEvent := Fan.step mapEngineEvent

/-! ## What reaches the consumer -/

section
variable {E : Type} (mapEvent : String → Message → Option E)

/-- the events that the engine of a host has sent -/
def Fan.made (s : Fan E) (host : String) : List E := (s.received host).filterMap (mapEvent host)

/-- the event that a host's watcher is blocked on -/
def Fan.offer (s : Fan E) (host : String) : Option E := (s.watchers host).phase.offer

/-- the waits double up to the greatest one -/
def Watcher.Paced (w : Watcher E) : Prop := w.backoff = min (2 ^ w.waits) eventsMaxBackoff

structure Relays (hosts : List String) (s : Fan E) : Prop where
  /-- until it is cancelled, every event of a host is taken, in order, or on offer -/
  conserved : s.cancelled = false → Conserved (s.made mapEvent) s.taken s.offer
  /-- the cancellation gives events up, and does nothing else to them -/
  covered : Covered (s.made mapEvent) s.taken s.offer
  /-- only the configured hosts are heard -/
  configured : ∀ host, host ∉ hosts → (s.watchers host).phase = .stopped ∧ s.received host = []
  /-- what is taken is written, but for the event on which the consumer failed -/
  writes : s.taken.map Prod.snd = s.written ∨
    (s.ended = true ∧ ∃ event, s.taken.map Prod.snd = s.written ++ [event])
  paced : ∀ host, (s.watchers host).Paced

variable {mapEvent} {hosts : List String} {s : Fan E}

theorem next_backoff (n : ℕ) : nextBackoff (min (2 ^ n) eventsMaxBackoff) = min (2 ^ (n + 1)) eventsMaxBackoff := by
  unfold nextBackoff eventsMaxBackoff
  rw [pow_succ]
  omega

@[simp] theorem subscribed_paced : (subscribed E).Paced := by
  show eventsInitialBackoff = min (2 ^ 0) eventsMaxBackoff
  decide

theorem Watcher.resubscribe_paced {w : Watcher E} (h : w.Paced) : w.resubscribe.Paced := by
  unfold Watcher.Paced at h
  show nextBackoff w.backoff = min (2 ^ (w.waits + 1)) eventsMaxBackoff
  rw [h, next_backoff]

variable (mapEvent) in
theorem Watcher.receive_paced (host : String) (msg : Message) : (Watcher.receive mapEvent host msg).Paced := by
  unfold Watcher.receive
  cases mapEvent host msg with
  | none => exact subscribed_paced
  | some event => exact subscribed_paced (E := E)

variable (mapEvent) in
theorem Watcher.receive_offer (host : String) (msg : Message) :
    (Watcher.receive mapEvent host msg).phase.offer = mapEvent host msg := by
  unfold Watcher.receive
  cases mapEvent host msg with
  | none => rfl
  | some event => rfl

/-- a watcher changes -/
theorem offer_update (s : Fan E) (host : String) (w : Watcher E) :
    (fun h => (Function.update s.watchers host w h).phase.offer) = Function.update s.offer host w.phase.offer := by
  funext h
  by_cases heq : h = host
  · rw [heq, Function.update_self, Function.update_self]
  · rw [Function.update_of_ne heq, Function.update_of_ne heq]
    rfl

/-- a watcher that offered nothing still offers nothing -/
theorem offer_unchanged (s : Fan E) (host : String) {w : Watcher E} (hw : w.phase.offer = s.offer host) :
    (fun h => (Function.update s.watchers host w h).phase.offer) = s.offer := by
  rw [offer_update, hw, Function.update_eq_self]

variable (mapEvent) in
theorem made_receive (s : Fan E) (host : String) (msg : Message) :
    (s.receive mapEvent host msg).made mapEvent =
      Function.update (s.made mapEvent) host (s.made mapEvent host ++ (mapEvent host msg).toList) := by
  funext h
  show (Function.update s.received host (s.received host ++ [msg]) h).filterMap (mapEvent h) = _
  by_cases heq : h = host
  · subst heq
    rw [Function.update_self, Function.update_self, List.filterMap_append]
    cases hm : mapEvent h msg with
    | none => simp [Fan.made, hm]
    | some event => simp [Fan.made, hm]
  · rw [Function.update_of_ne heq, Function.update_of_ne heq]
    rfl

theorem updated_paced {s : Fan E} (h : ∀ host, (s.watchers host).Paced) {host : String} {w : Watcher E}
    (hw : w.Paced) (host' : String) : (Function.update s.watchers host w host').Paced := by
  by_cases heq : host' = host
  · rw [heq, Function.update_self]
    exact hw
  · rw [Function.update_of_ne heq]
    exact h host'

/-- a watcher that is up is that of a configured host -/
theorem Relays.updated_configured (hr : Relays mapEvent hosts s) {host : String} (w : Watcher E)
    (hup : (s.watchers host).phase ≠ .stopped) {host' : String} (hnot : host' ∉ hosts) :
    (Function.update s.watchers host w host').phase = .stopped ∧ s.received host' = [] := by
  have hne : host' ≠ host := by
    intro heq
    exact hup (heq ▸ (hr.configured host' hnot).1)
  rw [Function.update_of_ne hne]
  exact hr.configured host' hnot

theorem relays_start (hosts : List String) : Relays mapEvent hosts (Fan.start E hosts) := by
  have hnone : ∀ host, (Fan.start E hosts).offer host = none := by
    intro host
    simp only [Fan.offer, Fan.start]
    split
    · rfl
    · rfl
  have hconserved : Conserved ((Fan.start E hosts).made mapEvent) (Fan.start E hosts).taken (Fan.start E hosts).offer := by
    intro host
    rw [hnone]
    rfl
  refine ⟨fun _ => hconserved, hconserved.covered, ?_, .inl rfl, ?_⟩
  · intro host hnot
    exact ⟨by simp [Fan.start, hnot], rfl⟩
  · intro host
    simp only [Fan.start]
    split
    · exact subscribed_paced
    · exact subscribed_paced (E := E)

/-- a watcher moves on without an event -/
theorem Relays.move (hr : Relays mapEvent hosts s) {host : String} {w : Watcher E} (hw : w.Paced)
    (hoffer : w.phase.offer = s.offer host) (hup : (s.watchers host).phase ≠ .stopped) :
    Relays mapEvent hosts { s with watchers := Function.update s.watchers host w } := by
  have hsame : Fan.offer { s with watchers := Function.update s.watchers host w } = s.offer :=
    offer_unchanged s host hoffer
  refine ⟨?_, ?_, fun host' hnot => hr.updated_configured w hup hnot, hr.writes, updated_paced hr.paced hw⟩
  · intro hc
    rw [hsame]
    exact hr.conserved hc
  · rw [hsame]
    exact hr.covered

theorem Relays.setPhase (hr : Relays mapEvent hosts s) {host : String} {phase : WatchPhase E}
    (hoffer : phase.offer = s.offer host) (hup : (s.watchers host).phase ≠ .stopped) :
    Relays mapEvent hosts (s.setPhase host phase) := by
  have hpaced : Watcher.Paced { s.watchers host with phase := phase } := hr.paced host
  exact hr.move hpaced hoffer hup

theorem Relays.message (hr : Relays mapEvent hosts s) {host : String} (msg : Message)
    (hphase : (s.watchers host).phase = .receiving) :
    Relays mapEvent hosts (s.receive mapEvent host msg) := by
  have hnone : s.offer host = none := by
    unfold Fan.offer
    rw [hphase]
    rfl
  have hup : (s.watchers host).phase ≠ .stopped := by
    rw [hphase]
    exact fun h => nomatch h
  have hoffer : (s.receive mapEvent host msg).offer = Function.update s.offer host (mapEvent host msg) := by
    rw [← Watcher.receive_offer mapEvent host msg]
    exact offer_update s host (Watcher.receive mapEvent host msg)
  have hmade := made_receive mapEvent s host msg
  have hconfigured : ∀ host', host' ∉ hosts →
      (Function.update s.watchers host (Watcher.receive mapEvent host msg) host').phase = .stopped ∧
        Function.update s.received host (s.received host ++ [msg]) host' = [] := by
    intro host' hnot
    have hne : host' ≠ host := by
      intro heq
      exact hup (heq ▸ (hr.configured host' hnot).1)
    rw [Function.update_of_ne hne, Function.update_of_ne hne]
    exact hr.configured host' hnot
  -- the message makes an event, or none
  cases hm : mapEvent host msg with
  | none =>
    rw [hm, ← hnone, Function.update_eq_self] at hoffer
    rw [hm, Option.toList_none, List.append_nil, Function.update_eq_self] at hmade
    refine ⟨?_, ?_, hconfigured, hr.writes, updated_paced hr.paced (Watcher.receive_paced mapEvent host msg)⟩
    · intro hc
      rw [hoffer, hmade]
      exact hr.conserved hc
    · rw [hoffer, hmade]
      exact hr.covered
  | some event =>
    rw [hm] at hoffer
    rw [hm, Option.toList_some] at hmade
    refine ⟨?_, ?_, hconfigured, hr.writes, updated_paced hr.paced (Watcher.receive_paced mapEvent host msg)⟩
    · intro hc
      rw [hoffer, hmade]
      exact conserved_offer (hr.conserved hc) hnone event
    · rw [hoffer, hmade]
      exact covered_offer hr.covered hnone event

theorem Relays.take (hr : Relays mapEvent hosts s) {host : String} {event : E}
    (hphase : (s.watchers host).phase = .offering event) (hended : s.ended = false) (ok : Bool) :
    Relays mapEvent hosts (s.deliver host event ok) := by
  have hsome : s.offer host = some event := by
    unfold Fan.offer
    rw [hphase]
    rfl
  have hup : (s.watchers host).phase ≠ .stopped := by
    rw [hphase]
    exact fun h => nomatch h
  have hoffer : (s.deliver host event ok).offer = Function.update s.offer host none :=
    offer_update s host { s.watchers host with phase := WatchPhase.receiving }
  have hwritten : s.taken.map Prod.snd = s.written := by
    rcases hr.writes with h | ⟨h, -⟩
    · exact h
    · rw [hended] at h
      cases h
  refine ⟨?_, ?_, fun host' hnot => hr.updated_configured _ hup hnot, ?_, updated_paced hr.paced (hr.paced host)⟩
  · intro hc
    rw [hoffer]
    exact conserved_take (hr.conserved hc) hsome
  · rw [hoffer]
    exact covered_take hr.covered hsome
  · have htaken : (s.deliver host event ok).taken.map Prod.snd = s.written ++ [event] := by
      rw [← hwritten]
      exact List.map_append
    cases ok with
    | true => exact .inl htaken
    | false => exact .inr ⟨rfl, event, htaken⟩

/-- once cancelled, a watcher gives its event up -/
theorem Relays.give_up (hr : Relays mapEvent hosts s) {host : String} {event : E}
    (hphase : (s.watchers host).phase = .offering event) (hcancelled : s.cancelled = true) :
    Relays mapEvent hosts (s.setPhase host .receiving) := by
  have hup : (s.watchers host).phase ≠ .stopped := by
    rw [hphase]
    exact fun h => nomatch h
  have hoffer : (s.setPhase host .receiving).offer = Function.update s.offer host none :=
    offer_update s host { s.watchers host with phase := WatchPhase.receiving }
  refine ⟨?_, ?_, fun host' hnot => hr.updated_configured _ hup hnot, hr.writes, updated_paced hr.paced (hr.paced host)⟩
  · intro hc
    rw [show (s.setPhase host .receiving).cancelled = true from hcancelled] at hc
    cases hc
  · rw [hoffer]
    exact covered_drop hr.covered host

theorem step_relays (hr : Relays mapEvent hosts s) (act : FanAct) : Relays mapEvent hosts (s.step mapEvent act) := by
  cases act with
  | message host msg =>
    cases hphase : (s.watchers host).phase with
    | receiving =>
      simp only [Fan.step, hphase]
      exact hr.message msg hphase
    | offering event | waiting | stopped =>
      simp only [Fan.step, hphase]
      exact hr
  | fails host =>
    cases hphase : (s.watchers host).phase with
    | receiving =>
      simp only [Fan.step, hphase]
      apply hr.setPhase
      · unfold Fan.offer
        rw [hphase]
        split <;> rfl
      · rw [hphase]
        exact fun h => nomatch h
    | offering event | waiting | stopped =>
      simp only [Fan.step, hphase]
      exact hr
  | timer host =>
    cases hphase : (s.watchers host).phase with
    | waiting =>
      simp only [Fan.step, hphase]
      apply hr.move (Watcher.resubscribe_paced (hr.paced host))
      · unfold Fan.offer
        rw [hphase]
        rfl
      · rw [hphase]
        exact fun h => nomatch h
    | receiving | offering event | stopped =>
      simp only [Fan.step, hphase]
      exact hr
  | take host ok =>
    cases hphase : (s.watchers host).phase with
    | offering event =>
      simp only [Fan.step, hphase]
      cases hended : s.ended with
      | true =>
        simp only [if_true]
        exact hr
      | false =>
        simp only [Bool.false_eq_true, if_false]
        exact hr.take hphase hended ok
    | receiving | waiting | stopped =>
      simp only [Fan.step, hphase]
      exact hr
  | cancel =>
    exact ⟨fun hc => (nomatch hc), hr.covered, hr.configured, hr.writes, hr.paced⟩
  | stop host =>
    cases hcancelled : s.cancelled with
    | false =>
      simp only [Fan.step, hcancelled, Bool.false_eq_true, if_false]
      exact hr
    | true =>
      cases hphase : (s.watchers host).phase with
      | offering event =>
        simp only [Fan.step, hcancelled, hphase, if_true]
        exact hr.give_up hphase hcancelled
      | receiving | waiting =>
        simp only [Fan.step, hcancelled, hphase, if_true]
        apply hr.setPhase
        · unfold Fan.offer
          rw [hphase]
          rfl
        · rw [hphase]
          exact fun h => nomatch h
      | stopped =>
        simp only [Fan.step, hcancelled, hphase, if_true]
        have hsame : s.setPhase host .stopped = s := by
          unfold Fan.setPhase
          rw [← hphase, Function.update_eq_self]
        rw [hsame]
        exact hr
  | leave =>
    refine ⟨hr.conserved, hr.covered, hr.configured, ?_, hr.paced⟩
    rcases hr.writes with h | ⟨hended, h⟩
    · exact .inl h
    · right
      exact ⟨by simp [Fan.step, hended], h⟩

/-- what is written comes from a message of a configured host -/
theorem Relays.written_source (hr : Relays mapEvent hosts s) {event : E} (hevent : event ∈ s.written) :
    ∃ host ∈ hosts, ∃ msg ∈ s.received host, mapEvent host msg = some event := by
  have htaken : event ∈ s.taken.map Prod.snd := by
    rcases hr.writes with h | ⟨-, last, h⟩
    · exact h ▸ hevent
    · rw [h]
      exact List.mem_append_left _ hevent
  obtain ⟨⟨host, event'⟩, hmem, rfl⟩ := List.mem_map.1 htaken
  have hof : event' ∈ takenOf host s.taken := by
    apply List.mem_map.2
    exact ⟨(host, event'), List.mem_filter.2 ⟨hmem, by simp⟩, rfl⟩
  have hmade : event' ∈ s.made mapEvent host := (hr.covered host).subset (List.mem_append_left _ hof)
  obtain ⟨msg, hmsg, hmap⟩ := List.mem_filterMap.1 hmade
  refine ⟨host, ?_, msg, hmsg, hmap⟩
  by_contra hnot
  rw [(hr.configured host hnot).2] at hmsg
  cases hmsg

/-! ## Hosts do not disturb each other -/

/-- the act is of the host, or of all of them -/
def FanAct.concerns (host : String) : FanAct → Bool
  | .message h _ | .fails h | .timer h | .take h _ | .stop h => h = host
  | .cancel | .leave => true

/-- the host has the same watcher in two states, which has heard and passed on the same -/
structure SameFor (host : String) (s s' : Fan E) : Prop where
  watcher : s.watchers host = s'.watchers host
  received : s.received host = s'.received host
  taken : takenOf host s.taken = takenOf host s'.taken
  cancelled : s.cancelled = s'.cancelled
  ended : s.ended = s'.ended

theorem ended_step (s : Fan E) (act : FanAct) (h : (s.step mapEvent act).ended = false) : s.ended = false := by
  cases hended : s.ended with
  | false => rfl
  | true =>
    rw [← h, ← hended]
    cases act with
    | message host msg | fails host | timer host =>
      cases hphase : (s.watchers host).phase <;> simp only [Fan.step, hphase] <;> rfl
    | take host ok =>
      cases hphase : (s.watchers host).phase <;> simp only [Fan.step, hphase, hended, if_true]
    | stop host =>
      cases hphase : (s.watchers host).phase <;> cases hc : s.cancelled <;>
        simp only [Fan.step, hphase, hc, if_true, Bool.false_eq_true, if_false] <;> rfl
    | cancel => rfl
    | leave => simp [Fan.step, hended]

/-- the watcher of another host moves -/
theorem sameFor_update {host other : String} (hne : other ≠ host) (w : Watcher E) :
    SameFor host { s with watchers := Function.update s.watchers other w } s :=
  ⟨Function.update_of_ne hne.symm .., rfl, rfl, rfl, rfl⟩

theorem step_other {host : String} {act : FanAct} (hother : act.concerns host = false)
    (hended : (s.step mapEvent act).ended = false) : SameFor host (s.step mapEvent act) s := by
  have hrefl : SameFor host s s := ⟨rfl, rfl, rfl, rfl, rfl⟩
  cases act with
  | message other msg =>
    have hne : other ≠ host := of_decide_eq_false hother
    cases hphase : (s.watchers other).phase with
    | receiving =>
      simp only [Fan.step, hphase]
      exact ⟨Function.update_of_ne hne.symm .., Function.update_of_ne hne.symm .., rfl, rfl, rfl⟩
    | offering event | waiting | stopped =>
      simp only [Fan.step, hphase]
      exact hrefl
  | fails other =>
    have hne : other ≠ host := of_decide_eq_false hother
    cases hphase : (s.watchers other).phase with
    | receiving =>
      simp only [Fan.step, hphase]
      exact sameFor_update hne _
    | offering event | waiting | stopped =>
      simp only [Fan.step, hphase]
      exact hrefl
  | timer other =>
    have hne : other ≠ host := of_decide_eq_false hother
    cases hphase : (s.watchers other).phase with
    | waiting =>
      simp only [Fan.step, hphase]
      exact sameFor_update hne _
    | receiving | offering event | stopped =>
      simp only [Fan.step, hphase]
      exact hrefl
  | take other ok =>
    have hne : other ≠ host := of_decide_eq_false hother
    have hbefore := ended_step s (.take other ok) hended
    cases hphase : (s.watchers other).phase with
    | offering event =>
      simp only [Fan.step, hphase, hbefore, Bool.false_eq_true, if_false] at hended ⊢
      refine ⟨Function.update_of_ne hne.symm .., rfl, ?_, rfl, hended.trans hbefore.symm⟩
      show takenOf host (s.taken ++ [(other, event)]) = takenOf host s.taken
      rw [takenOf_snoc, if_neg hne, List.append_nil]
    | receiving | waiting | stopped =>
      simp only [Fan.step, hphase]
      exact hrefl
  | stop other =>
    have hne : other ≠ host := of_decide_eq_false hother
    cases hcancelled : s.cancelled with
    | false =>
      simp only [Fan.step, hcancelled, Bool.false_eq_true, if_false]
      exact hrefl
    | true =>
      cases hphase : (s.watchers other).phase with
      | offering event | receiving | waiting | stopped =>
        simp only [Fan.step, hcancelled, hphase, if_true]
        exact sameFor_update hne _
  | cancel | leave => cases hother

theorem SameFor.update {host : String} {s s' : Fan E} (h : SameFor host s s') (w : Watcher E) :
    SameFor host { s with watchers := Function.update s.watchers host w }
      { s' with watchers := Function.update s'.watchers host w } := by
  refine ⟨?_, h.received, h.taken, h.cancelled, h.ended⟩
  show Function.update s.watchers host w host = Function.update s'.watchers host w host
  rw [Function.update_self, Function.update_self]

theorem SameFor.setPhase {host : String} {s s' : Fan E} (h : SameFor host s s') (phase : WatchPhase E) :
    SameFor host (s.setPhase host phase) (s'.setPhase host phase) := by
  unfold Fan.setPhase
  rw [← h.watcher]
  exact h.update _

theorem SameFor.step {host : String} {s s' : Fan E} (h : SameFor host s s') {act : FanAct}
    (hconcerns : act.concerns host = true) : SameFor host (s.step mapEvent act) (s'.step mapEvent act) := by
  cases act with
  | message other msg =>
    obtain rfl : other = host := of_decide_eq_true hconcerns
    cases hphase : (s.watchers other).phase with
    | receiving =>
      simp only [Fan.step, ← h.watcher, hphase]
      have hwatchers := h.update (Watcher.receive mapEvent other msg)
      refine ⟨hwatchers.watcher, ?_, h.taken, h.cancelled, h.ended⟩
      show Function.update s.received other _ other = Function.update s'.received other _ other
      rw [Function.update_self, Function.update_self, h.received]
    | offering event | waiting | stopped =>
      simp only [Fan.step, ← h.watcher, hphase]
      exact h
  | fails other =>
    obtain rfl : other = host := of_decide_eq_true hconcerns
    cases hphase : (s.watchers other).phase with
    | receiving =>
      simp only [Fan.step, ← h.watcher, hphase, ← h.cancelled]
      exact h.setPhase _
    | offering event | waiting | stopped =>
      simp only [Fan.step, ← h.watcher, hphase]
      exact h
  | timer other =>
    obtain rfl : other = host := of_decide_eq_true hconcerns
    cases hphase : (s.watchers other).phase with
    | waiting =>
      simp only [Fan.step, ← h.watcher, hphase]
      exact h.update _
    | receiving | offering event | stopped =>
      simp only [Fan.step, ← h.watcher, hphase]
      exact h
  | take other ok =>
    obtain rfl : other = host := of_decide_eq_true hconcerns
    cases hphase : (s.watchers other).phase with
    | offering event =>
      cases hended : s.ended with
      | true =>
        simp only [Fan.step, ← h.watcher, hphase, ← h.ended, hended, if_true]
        exact h
      | false =>
        simp only [Fan.step, ← h.watcher, hphase, ← h.ended, hended, Bool.false_eq_true, if_false]
        have hwatchers := h.setPhase WatchPhase.receiving
        refine ⟨hwatchers.watcher, h.received, ?_, h.cancelled, rfl⟩
        show takenOf other (s.taken ++ [(other, event)]) = takenOf other (s'.taken ++ [(other, event)])
        rw [takenOf_snoc, takenOf_snoc, h.taken]
    | receiving | waiting | stopped =>
      simp only [Fan.step, ← h.watcher, hphase]
      exact h
  | stop other =>
    obtain rfl : other = host := of_decide_eq_true hconcerns
    cases hcancelled : s.cancelled with
    | false =>
      simp only [Fan.step, ← h.cancelled, hcancelled, Bool.false_eq_true, if_false]
      exact h
    | true =>
      cases hphase : (s.watchers other).phase with
      | offering event | receiving | waiting | stopped =>
        simp only [Fan.step, ← h.watcher, ← h.cancelled, hcancelled, hphase, if_true]
        exact h.setPhase _
  | cancel => exact ⟨h.watcher, h.received, h.taken, rfl, h.ended⟩
  | leave =>
    refine ⟨h.watcher, h.received, h.taken, h.cancelled, ?_⟩
    show (s.ended || s.cancelled) = (s'.ended || s'.cancelled)
    rw [h.ended, h.cancelled]

open Machine (run)

theorem ended_run (acts : List FanAct) {s : Fan E} (h : (run (Fan.step mapEvent) s acts).ended = false) :
    s.ended = false := by
  induction acts generalizing s with
  | nil => exact h
  | cons act acts ih => exact ended_step s act (ih h)

/-- while the consumer is there, a host is served as if there were no other -/
theorem hosts_isolated (host : String) (acts : List FanAct) {s s' : Fan E} (hsame : SameFor host s s')
    (hended : (run (Fan.step mapEvent) s acts).ended = false) :
    SameFor host (run (Fan.step mapEvent) s acts)
      (run (Fan.step mapEvent) s' (acts.filter fun act => act.concerns host)) := by
  induction acts generalizing s s' with
  | nil => exact hsame
  | cons act acts ih =>
    cases hconcerns : act.concerns host with
    | true =>
      rw [List.filter_cons_of_pos hconcerns]
      exact ih (hsame.step hconcerns) hended
    | false =>
      rw [List.filter_cons_of_neg (by simp [hconcerns])]
      have hmoved := step_other hconcerns (ended_run acts hended)
      apply ih _ hended
      exact ⟨hmoved.watcher.trans hsame.watcher, hmoved.received.trans hsame.received, hmoved.taken.trans hsame.taken,
        hmoved.cancelled.trans hsame.cancelled, hmoved.ended.trans hsame.ended⟩

theorem run_relays (mapEvent : String → Message → Option E) (hosts : List String) (acts : List FanAct) :
    Relays mapEvent hosts (run (Fan.step mapEvent) (Fan.start E hosts) acts) := by
  have hstep : ∀ (s : Fan E) (act : FanAct), Relays mapEvent hosts s → Relays mapEvent hosts (s.step mapEvent act) :=
    fun _ act hr => step_relays hr act
  exact Machine.run_preserves hstep (relays_start hosts) acts

end

theorem mapContainerEvent_some {host : String} {msg : Message} {event : ContainerEvent}
    (h : mapContainerEvent host msg = some event) :
    event.host = host ∧ event.containerID = msg.actorID ∧ event.action = msg.action ∧
      baseAction event.action ∈ watchedContainerActions := by
  unfold mapContainerEvent at h
  split at h
  · cases h
  · split at h
    · cases h
    · rename_i hwatched
      cases h
      exact ⟨rfl, rfl, rfl, not_not.1 hwatched⟩

theorem mapEngineEvent_some {host : String} {msg : Message} {event : EngineEvent}
    (h : mapEngineEvent host msg = some event) :
    event.host = host ∧ event.containerID = msg.actorID ∧ event.action = msg.action ∧
      baseAction event.action ∈ engineEventActions := by
  unfold mapEngineEvent at h
  split at h
  · cases h
  · split at h
    · cases h
    · rename_i hwatched
      cases h
      exact ⟨rfl, rfl, rfl, not_not.1 hwatched⟩

open Machine (run)

/-- **Fan-in of the events.** Whatever the watchers receive, however their subscriptions fail and resume and whenever the
consumer takes an event, fails to write it or is cancelled: until it is cancelled, every event a watcher received is
taken in its order or on offer; later only those that the cancellation met are missing; what is written is what is taken,
but for an event whose write failed, each from a message of a configured host and with a watched action; the wait of a watcher is
the doubling one; and while the consumer is there, each host is served as if there were no other. -/
theorem events_relayed (hosts : List String) (acts : List FanAct) :
    (let s := run StreamContainerEvents (Fan.start ContainerEvent hosts) acts
     Relays mapContainerEvent hosts s ∧
       (∀ event ∈ s.written, event.host ∈ hosts ∧ baseAction event.action ∈ watchedContainerActions ∧
          ∃ msg ∈ s.received event.host, mapContainerEvent event.host msg = some event) ∧
       (s.ended = false → ∀ host, SameFor host s
          (run StreamContainerEvents (Fan.start ContainerEvent hosts) (acts.filter fun act => act.concerns host)))) ∧
    (let s := run StreamEngineEvents (Fan.start EngineEvent hosts) acts
     Relays mapEngineEvent hosts s ∧
       (∀ event ∈ s.written, event.host ∈ hosts ∧ baseAction event.action ∈ engineEventActions ∧
          ∃ msg ∈ s.received event.host, mapEngineEvent event.host msg = some event) ∧
       (s.ended = false → ∀ host, SameFor host s
          (run StreamEngineEvents (Fan.start EngineEvent hosts) (acts.filter fun act => act.concerns host)))) := by
  constructor
  · intro s
    have hr : Relays mapContainerEvent hosts s := run_relays mapContainerEvent hosts acts
    refine ⟨hr, ?_, fun hended host => hosts_isolated host acts ⟨rfl, rfl, rfl, rfl, rfl⟩ hended⟩
    intro event hevent
    obtain ⟨host, hhost, msg, hmsg, hmap⟩ := hr.written_source hevent
    obtain ⟨rfl, -, -, hwatched⟩ := mapContainerEvent_some hmap
    exact ⟨hhost, hwatched, msg, hmsg, hmap⟩
  · intro s
    have hr : Relays mapEngineEvent hosts s := run_relays mapEngineEvent hosts acts
    refine ⟨hr, ?_, fun hended host => hosts_isolated host acts ⟨rfl, rfl, rfl, rfl, rfl⟩ hended⟩
    intro event hevent
    obtain ⟨host, hhost, msg, hmsg, hmap⟩ := hr.written_source hevent
    obtain ⟨rfl, -, -, hwatched⟩ := mapEngineEvent_some hmap
    exact ⟨hhost, hwatched, msg, hmsg, hmap⟩

end LogDeck.Docker
