/-
The delivery buffer of one hub subscription (`logstream/subscription.go`: `push`, `deliverLoop`, `close`;
`logstream/logstream.go`: `subscribe`, `removeSub`, `shutdown`).

Tails push records into a ring under the subscription's lock and overwrite the oldest when it is full; one delivery
goroutine takes them out under the same lock and calls the sink outside of it. Every action is what one goroutine does
between two lock boundaries. A push that has dropped a record counts it after it has released the lock. The run starts
when `subscribe` has registered the subscription and started its delivery goroutine; any goroutine may close it, and
the unsubscribe function and the hub's shutdown race for it.

Ghosts: `pushed` and `accepted` have the records pushed at all and pushed before the close, `delivered` the sink's
calls, `departed` how each record left the buffer.

Results:
- `step_inv`: every action keeps the books;
- `drained`, `discarded`: what the sink gets after a close;
- `ring_is_fifo`: for every ring size and every interleaving, the subscription is a drop-oldest queue.
-/
import LogDeck.Lib.Machine
import LogDeck.Lib.RingBuffer

namespace LogDeck.Logstream

open Machine

/-- the delivery goroutine: waiting for a record, about to call the sink, or returned -/
inductive Loop (α : Type) where
  | waiting
  | delivering (r : α)
  | ended
deriving DecidableEq, Repr

/-- how a record left the buffer; a dropped one with what was buffered then -/
inductive Departure (α : Type) where
  | dropped (r : α) (buffered : List α)
  | taken (r : α)
deriving DecidableEq, Repr

/-- the unsubscribe function: it hands removeSub to the hub's loop, or closes the subscription itself when the hub has
stopped, and waits for the delivery goroutine -/
inductive Unsub where
  | idle
  | asked
  | refused
  | waiting
  | returned
deriving DecidableEq, Repr

structure Subscription (α : Type) where
  ring : RingBuffer α
  closed : Bool
  discard : Bool
  drops : ℕ
  /-- pushes that have dropped a record and not counted it yet -/
  uncounted : ℕ
  loop : Loop α
  /-- is it one of the hub's subscriptions -/
  registered : Bool
  /-- has the hub stopped -/
  stopped : Bool
  unsub : Unsub
  pushed : List α
  accepted : List α
  delivered : List α
  departed : List (Departure α)

inductive SubAct (α : Type) where
  | push (r : α)
  /-- `s.drops.Add(1)` of a push that dropped a record -/
  | countDrop
  /-- the locked part of a turn of the delivery loop -/
  | take
  /-- the sink call of a turn of the delivery loop -/
  | sink
  | close (discard : Bool)
  | unsubscribe
  /-- the hub's loop runs the removeSub it has been handed -/
  | removeSub
  /-- the hub had stopped: unsubscribe closes the subscription itself -/
  | closeRefused
  /-- the delivery goroutine has returned, and so does unsubscribe -/
  | unsubscribed
  | hubStops
  /-- the hub's shutdown lets the delivery goroutine drain the buffer -/
  | shutdownClose
deriving DecidableEq, Repr

def Departure.record {α : Type} : Departure α → α
  | .dropped r _ => r
  | .taken r => r

def Departure.dropped? {α : Type} : Departure α → Option α
  | .dropped r _ => some r
  | .taken _ => none

def Departure.taken? {α : Type} : Departure α → Option α
  | .dropped _ _ => none
  | .taken r => some r

namespace Subscription

variable {α : Type} [Inhabited α]

/-- `newSubscription`, registered -/
def new (n : ℕ) : Subscription α :=
  ⟨.new n, false, false, 0, 0, .waiting, true, false, .idle, [], [], [], []⟩

/-- the record taken out of the buffer and not yet handed to the sink -/
def inFlight (s : Subscription α) : List α :=
  match s.loop with
  | .delivering r => [r]
  | _ => []

/-- has the delivery goroutine returned -/
def hasEnded (s : Subscription α) : Bool :=
  match s.loop with
  | .ended => true
  | _ => false

/-- the records dropped, in order -/
def dropped (s : Subscription α) : List α := s.departed.filterMap Departure.dropped?

/-- a record pushed after the close is discarded; on overflow the oldest one makes room -/
def push (s : Subscription α) (r : α) : Subscription α :=
  if s.closed then { s with pushed := s.pushed ++ [r] }
  else if s.ring.count = s.ring.size then
    { s with ring := s.ring.push r, uncounted := s.uncounted + 1, pushed := s.pushed ++ [r],
             accepted := s.accepted ++ [r], departed := s.departed ++ [.dropped s.ring.front s.ring.contents] }
  else { s with ring := s.ring.push r, pushed := s.pushed ++ [r], accepted := s.accepted ++ [r] }

def take (s : Subscription α) : Subscription α :=
  match s.loop with
  | .waiting =>
    if s.ring.count = 0 ∧ s.closed = false then s
    else if s.closed ∧ (s.discard ∨ s.ring.count = 0) then { s with loop := .ended }
    else
      { s with ring := s.ring.dropFront, loop := .delivering s.ring.front,
               departed := s.departed ++ [.taken s.ring.front] }
  | _ => s

def sink (s : Subscription α) : Subscription α :=
  match s.loop with
  | .delivering r => { s with loop := .waiting, delivered := s.delivered ++ [r] }
  | _ => s

/-- the first call wins -/
def close (s : Subscription α) (discard : Bool) : Subscription α :=
  if s.closed then s else { s with closed := true, discard := discard }

/-- the hub takes the request, or has stopped -/
def unsubscribe (s : Subscription α) : Subscription α :=
  if s.unsub = .idle then { s with unsub := if s.stopped then .refused else .asked } else s

def removeSub (s : Subscription α) : Subscription α :=
  if s.registered then { s with registered := false }.close true else s

def step (s : Subscription α) : SubAct α → Subscription α
  | .push r => s.push r
  | .countDrop => if s.uncounted = 0 then s else { s with drops := s.drops + 1, uncounted := s.uncounted - 1 }
  | .take => s.take
  | .sink => s.sink
  | .close discard => s.close discard
  | .unsubscribe => s.unsubscribe
  | .removeSub => if s.unsub = .asked then { s with unsub := .waiting }.removeSub else s
  | .closeRefused => if s.unsub = .refused then { s with unsub := .waiting }.close true else s
  | .unsubscribed => if s.unsub = .waiting ∧ s.hasEnded then { s with unsub := .returned } else s
  | .hubStops => if s.unsub = .asked then s else { s with stopped := true }
  | .shutdownClose => if s.stopped ∧ s.registered then s.close false else s

/-! ## The books -/

/-- what is accepted has left the buffer, oldest first, or is in it -/
structure Inv (n : ℕ) (s : Subscription α) : Prop where
  valid : s.ring.Valid
  size : s.ring.size = n
  accepted : s.accepted = s.departed.map Departure.record ++ s.ring.contents
  taken : s.departed.filterMap Departure.taken? = s.delivered ++ s.inFlight
  oldest : ∀ d buffered, .dropped d buffered ∈ s.departed → buffered.head? = some d ∧ buffered.length = n
  counted : s.drops + s.uncounted = s.dropped.length
  pushed : s.accepted <+: s.pushed
  opened : s.closed = false → s.accepted = s.pushed
  ended : s.loop = .ended → s.closed = true
  returned : s.unsub = .returned → s.loop = .ended

theorem inv_new {n : ℕ} (h : 1 ≤ n) : Inv n (new n : Subscription α) :=
  { valid := RingBuffer.valid_new h, size := RingBuffer.size_new n, accepted := rfl, taken := rfl,
    oldest := fun _ _ h => (by cases h), counted := rfl, pushed := List.prefix_refl _, opened := fun _ => rfl,
    ended := fun h => (by cases h), returned := fun h => (by cases h) }

variable {n : ℕ} {s : Subscription α}

theorem Inv.close (h : Inv n s) (discard : Bool) : Inv n (s.close discard) := by
  unfold Subscription.close
  split_ifs
  · exact h
  · exact { h with opened := fun e => (Bool.noConfusion e), ended := fun _ => rfl }

omit [Inhabited α] in
theorem hasEnded_iff : s.hasEnded = true ↔ s.loop = .ended := by
  unfold hasEnded
  cases s.loop <;> simp

/-- an action that only moves the unsubscribe function on, and not past its wait -/
theorem Inv.unsub (h : Inv n s) {u : Unsub} (hu : u = .returned → s.loop = .ended) : Inv n { s with unsub := u } :=
  { h with returned := hu }

theorem push_inv (h : Inv n s) (r : α) : Inv n (s.push r) := by
  unfold push
  split_ifs with hc hfull
  · exact { h with pushed := h.pushed.trans (List.prefix_append _ _), opened := fun e => by rw [hc] at e; cases e }
  · have hpos : 0 < s.ring.count := by
      rw [hfull]
      exact Nat.zero_lt_of_lt h.valid.head
    have hcont := RingBuffer.contents_dropFront h.valid hpos
    have hopen := h.opened (Bool.eq_false_iff.2 hc)
    have hpush : (s.ring.push r).contents = s.ring.dropFront.contents ++ [r] := by
      rw [RingBuffer.contents_push h.valid, RingBuffer.dropOldest, RingBuffer.length_contents, if_pos hfull, hcont]
      rfl
    refine { valid := h.valid.push r, size := (RingBuffer.size_push _ _).trans h.size, accepted := ?_, taken := ?_,
             oldest := fun d buffered hd => ?_, counted := ?_, pushed := ?_, opened := ?_, ended := h.ended,
             returned := h.returned }
    · calc s.accepted ++ [r] = s.departed.map Departure.record ++ s.ring.contents ++ [r] := by rw [h.accepted]
        _ = s.departed.map Departure.record ++ (s.ring.front :: s.ring.dropFront.contents) ++ [r] := by rw [hcont]
        _ = (s.departed ++ [Departure.dropped s.ring.front s.ring.contents]).map Departure.record ++
              (s.ring.push r).contents := by
          rw [hpush, List.map_append]
          simp [Departure.record]
    · show (s.departed ++ [Departure.dropped s.ring.front s.ring.contents]).filterMap Departure.taken? =
        s.delivered ++ s.inFlight
      rw [List.filterMap_append, h.taken]
      exact List.append_nil _
    · rcases List.mem_append.1 hd with hd | hd
      · exact h.oldest d buffered hd
      · cases List.mem_singleton.1 hd
        refine ⟨?_, ?_⟩
        · rw [hcont]
          rfl
        · rw [RingBuffer.length_contents, hfull, h.size]
    · calc s.drops + (s.uncounted + 1) = (s.departed.filterMap Departure.dropped?).length + 1 :=
            congrArg Nat.succ h.counted
        _ = ((s.departed ++ [Departure.dropped s.ring.front s.ring.contents]).filterMap Departure.dropped?).length := by
          rw [List.filterMap_append, List.length_append]
          rfl
    · show s.accepted ++ [r] <+: s.pushed ++ [r]
      exact ⟨[], by rw [hopen, List.append_nil]⟩
    · intro _
      show s.accepted ++ [r] = s.pushed ++ [r]
      rw [hopen]
  · have hopen := h.opened (Bool.eq_false_iff.2 hc)
    have hpush : (s.ring.push r).contents = s.ring.contents ++ [r] := by
      rw [RingBuffer.contents_push h.valid, RingBuffer.dropOldest, RingBuffer.length_contents, if_neg hfull]
    refine { h with valid := h.valid.push r, size := (RingBuffer.size_push _ _).trans h.size, accepted := ?_,
                    pushed := ?_, opened := ?_ }
    · show s.accepted ++ [r] = s.departed.map Departure.record ++ (s.ring.push r).contents
      rw [h.accepted, hpush, List.append_assoc]
    · show s.accepted ++ [r] <+: s.pushed ++ [r]
      exact ⟨[], by rw [hopen, List.append_nil]⟩
    · intro _
      show s.accepted ++ [r] = s.pushed ++ [r]
      rw [hopen]

/-- what a turn of the delivery loop does: it waits, it ends a closed subscription, or it takes the oldest record -/
theorem take_cases (s : Subscription α) :
    s.take = s ∨
    (s.loop = .waiting ∧ s.closed = true ∧ (s.discard = true ∨ s.ring.count = 0) ∧ s.take = { s with loop := .ended }) ∨
    (s.loop = .waiting ∧ 0 < s.ring.count ∧ ¬ (s.closed = true ∧ s.discard = true) ∧
      s.take = { s with ring := s.ring.dropFront, loop := .delivering s.ring.front,
                        departed := s.departed ++ [Departure.taken s.ring.front] }) := by
  unfold take
  cases hloop : s.loop with
  | delivering r => exact Or.inl rfl
  | ended => exact Or.inl rfl
  | waiting =>
    dsimp only
    split_ifs with hwait hend
    · exact Or.inl rfl
    · exact Or.inr (Or.inl ⟨rfl, hend.1, hend.2, rfl⟩)
    · refine Or.inr (Or.inr ⟨rfl, ?_, fun h => hend ⟨h.1, Or.inl h.2⟩, rfl⟩)
      rcases Nat.eq_zero_or_pos s.ring.count with h0 | hpos
      · cases hc : s.closed with
        | false => exact absurd ⟨h0, hc⟩ hwait
        | true => exact absurd ⟨hc, Or.inr h0⟩ hend
      · exact hpos

omit [Inhabited α] in
theorem sink_cases (s : Subscription α) :
    s.sink = s ∨ ∃ r, s.loop = .delivering r ∧ s.sink = { s with loop := .waiting, delivered := s.delivered ++ [r] } := by
  unfold sink
  cases hloop : s.loop with
  | delivering r => exact Or.inr ⟨r, rfl, rfl⟩
  | waiting => exact Or.inl rfl
  | ended => exact Or.inl rfl

omit [Inhabited α] in
theorem inFlight_waiting (h : s.loop = .waiting) : s.inFlight = [] := by
  unfold inFlight
  rw [h]

omit [Inhabited α] in
theorem inFlight_delivering {r : α} (h : s.loop = .delivering r) : s.inFlight = [r] := by
  unfold inFlight
  rw [h]

theorem take_inv (h : Inv n s) : Inv n s.take := by
  rcases take_cases s with e | ⟨hloop, hclosed, -, e⟩ | ⟨hloop, hpos, -, e⟩
  · rw [e]
    exact h
  · rw [e]
    refine { h with taken := ?_, ended := fun _ => hclosed, returned := fun _ => rfl }
    have htaken := h.taken
    rw [inFlight_waiting hloop] at htaken
    exact htaken
  · have hcont := RingBuffer.contents_dropFront h.valid hpos
    rw [e]
    refine { h with valid := h.valid.dropFront, size := (RingBuffer.size_dropFront _).trans h.size, accepted := ?_,
                    taken := ?_, oldest := fun d buffered hd => ?_, counted := ?_, ended := fun e => (by cases e),
                    returned := fun hu => ?_ }
    · calc s.accepted = s.departed.map Departure.record ++ (s.ring.front :: s.ring.dropFront.contents) := by
            rw [h.accepted, hcont]
        _ = (s.departed ++ [Departure.taken s.ring.front]).map Departure.record ++ s.ring.dropFront.contents := by
          rw [List.map_append, List.append_assoc]
          rfl
    · calc (s.departed ++ [Departure.taken s.ring.front]).filterMap Departure.taken?
          = s.delivered ++ s.inFlight ++ [s.ring.front] := by
            rw [List.filterMap_append, h.taken]
            rfl
        _ = s.delivered ++ [s.ring.front] := by rw [inFlight_waiting hloop, List.append_nil]
    · rcases List.mem_append.1 hd with hd | hd
      · exact h.oldest d buffered hd
      · cases List.mem_singleton.1 hd
    · show s.drops + s.uncounted = ((s.departed ++ [Departure.taken s.ring.front]).filterMap Departure.dropped?).length
      rw [h.counted, List.filterMap_append]
      exact congrArg List.length (List.append_nil _).symm
    · have hend := h.returned hu
      rw [hloop] at hend
      cases hend

theorem sink_inv (h : Inv n s) : Inv n s.sink := by
  rcases sink_cases s with e | ⟨r, hloop, e⟩
  · rw [e]
    exact h
  · rw [e]
    refine { h with taken := ?_, ended := fun e => (by cases e), returned := fun hu => ?_ }
    · have htaken := h.taken
      rw [inFlight_delivering hloop] at htaken
      rw [htaken]
      exact (List.append_nil _).symm
    · have hend := h.returned hu
      rw [hloop] at hend
      cases hend

theorem step_inv (s : Subscription α) (a : SubAct α) (h : Inv n s) : Inv n (s.step a) := by
  cases a with
  | push r => exact push_inv h r
  | countDrop =>
    simp only [step]
    split_ifs with h0
    · exact h
    · refine { h with counted := ?_ }
      have hcount := h.counted
      show s.drops + 1 + (s.uncounted - 1) = s.dropped.length
      omega
  | take => exact take_inv h
  | sink => exact sink_inv h
  | close discard => exact h.close discard
  | unsubscribe =>
    simp only [step, unsubscribe]
    split_ifs
    · exact h.unsub fun e => by cases e
    · exact h.unsub fun e => by cases e
    · exact h
  | removeSub =>
    simp only [step, removeSub]
    split_ifs
    · have hw : Inv n { s with unsub := .waiting } := h.unsub fun e => by cases e
      have hr : Inv n { s with unsub := .waiting, registered := false } := { hw with }
      exact hr.close true
    · exact h.unsub fun e => by cases e
    · exact h
  | closeRefused =>
    simp only [step]
    split_ifs
    · exact (h.unsub fun e => by cases e).close true
    · exact h
  | unsubscribed =>
    simp only [step]
    split_ifs with hend
    · exact h.unsub fun _ => hasEnded_iff.1 hend.2
    · exact h
  | hubStops =>
    simp only [step]
    split_ifs
    · exact h
    · exact { h with }
  | shutdownClose =>
    simp only [step]
    split_ifs
    · exact h.close false
    · exact h

/-! ## After a close -/

omit [Inhabited α] in
theorem close_closed (hc : s.closed = true) (discard : Bool) : s.close discard = s := if_pos hc

/-- an action on a closed subscription: the delivery loop takes its turns, and nothing else changes what the sink gets -/
theorem step_closed (hc : s.closed = true) (a : SubAct α) :
    (a = .take ∧ s.step a = s.take) ∨ (a = .sink ∧ s.step a = s.sink) ∨
      ((s.step a).ring = s.ring ∧ (s.step a).closed = true ∧ (s.step a).discard = s.discard ∧
        (s.step a).loop = s.loop ∧ (s.step a).delivered = s.delivered) := by
  cases a with
  | take => exact Or.inl ⟨rfl, rfl⟩
  | sink => exact Or.inr (Or.inl ⟨rfl, rfl⟩)
  | push r =>
    have e : s.push r = { s with pushed := s.pushed ++ [r] } := if_pos hc
    right; right
    rw [step, e]
    exact ⟨rfl, hc, rfl, rfl, rfl⟩
  | countDrop =>
    right; right
    simp only [step]
    split_ifs <;> exact ⟨rfl, hc, rfl, rfl, rfl⟩
  | close discard =>
    right; right
    rw [step, close_closed hc]
    exact ⟨rfl, hc, rfl, rfl, rfl⟩
  | unsubscribe =>
    right; right
    simp only [step, unsubscribe]
    split_ifs <;> exact ⟨rfl, hc, rfl, rfl, rfl⟩
  | removeSub =>
    right; right
    simp only [step, removeSub]
    split_ifs
    · rw [close_closed (s := { s with unsub := .waiting, registered := false }) hc]
      exact ⟨rfl, hc, rfl, rfl, rfl⟩
    · exact ⟨rfl, hc, rfl, rfl, rfl⟩
    · exact ⟨rfl, hc, rfl, rfl, rfl⟩
  | closeRefused =>
    right; right
    simp only [step]
    split_ifs
    · rw [close_closed (s := { s with unsub := .waiting }) hc]
      exact ⟨rfl, hc, rfl, rfl, rfl⟩
    · exact ⟨rfl, hc, rfl, rfl, rfl⟩
  | unsubscribed =>
    right; right
    simp only [step]
    split_ifs <;> exact ⟨rfl, hc, rfl, rfl, rfl⟩
  | hubStops =>
    right; right
    simp only [step]
    split_ifs <;> exact ⟨rfl, hc, rfl, rfl, rfl⟩
  | shutdownClose =>
    right; right
    simp only [step]
    split_ifs
    · rw [close_closed hc]
      exact ⟨rfl, hc, rfl, rfl, rfl⟩
    · exact ⟨rfl, hc, rfl, rfl, rfl⟩

omit [Inhabited α] in
theorem inFlight_congr {s' : Subscription α} (h : s'.loop = s.loop) : s'.inFlight = s.inFlight := by
  unfold inFlight
  rw [h]

/-- a drain: what the sink has got, is about to get and will get is `all` -/
structure Draining (all : List α) (s : Subscription α) : Prop where
  valid : s.ring.Valid
  closed : s.closed = true
  drain : s.discard = false
  all : s.delivered ++ s.inFlight ++ s.ring.contents = all
  ended : s.loop = .ended → s.ring.contents = []

theorem draining_step {all : List α} (s : Subscription α) (a : SubAct α) (h : Draining all s) :
    Draining all (s.step a) := by
  rcases step_closed h.closed a with ⟨-, e⟩ | ⟨-, e⟩ | ⟨hring, hclosed, hdiscard, hloop, hdel⟩
  · rw [e]
    rcases take_cases s with e | ⟨hloop, -, hend, e⟩ | ⟨hloop, hpos, -, e⟩
    · rw [e]
      exact h
    · have hempty : s.ring.contents = [] := by
        rw [h.drain] at hend
        have h0 := hend.resolve_left Bool.noConfusion
        rw [← List.length_eq_zero_iff, RingBuffer.length_contents, h0]
      have hall := h.all
      rw [inFlight_waiting hloop] at hall
      rw [e]
      exact { h with all := hall, ended := fun _ => hempty }
    · have hall := h.all
      rw [inFlight_waiting hloop, RingBuffer.contents_dropFront h.valid hpos, List.append_nil] at hall
      rw [e]
      refine { h with valid := h.valid.dropFront, all := ?_, ended := fun e => (by cases e) }
      show s.delivered ++ [s.ring.front] ++ s.ring.dropFront.contents = all
      rw [List.append_assoc]
      exact hall
  · rw [e]
    rcases sink_cases s with e | ⟨r, hloop, e⟩
    · rw [e]
      exact h
    · have hall := h.all
      rw [inFlight_delivering hloop] at hall
      rw [e]
      refine { h with all := ?_, ended := fun e => (by cases e) }
      show s.delivered ++ [r] ++ [] ++ s.ring.contents = all
      rw [List.append_nil]
      exact hall
  · refine ⟨hring ▸ h.valid, hclosed, hdiscard.trans h.drain, ?_, fun hend => ?_⟩
    · rw [hdel, inFlight_congr hloop, hring]
      exact h.all
    · rw [hring]
      exact h.ended (hloop ▸ hend)

/-- **After a drain** the sink gets what was in flight and buffered at the close, each record once and in order. -/
theorem drained (h : Inv n s) (hopen : s.closed = false) (later : List (SubAct α)) :
    (run step (s.close false) later).delivered <+: s.delivered ++ s.inFlight ++ s.ring.contents ∧
      ((run step (s.close false) later).loop = .ended →
        (run step (s.close false) later).delivered = s.delivered ++ s.inFlight ++ s.ring.contents) := by
  have hstart : Draining (s.delivered ++ s.inFlight ++ s.ring.contents) (s.close false) := by
    have e : s.close false = { s with closed := true, discard := false } := if_neg (by rw [hopen]; exact Bool.noConfusion)
    rw [e]
    refine ⟨h.valid, rfl, rfl, rfl, fun hend => ?_⟩
    have hclosed := h.ended hend
    rw [hopen] at hclosed
    cases hclosed
  have hrun := run_preserves draining_step hstart later
  refine ⟨?_, fun hend => ?_⟩
  · rw [← hrun.all, List.append_assoc]
    exact List.prefix_append _ _
  · have hall := hrun.all
    have hnone : (run step (s.close false) later).inFlight = [] := by
      unfold inFlight
      rw [hend]
    rw [hrun.ended hend, hnone, List.append_nil, List.append_nil] at hall
    exact hall

/-- a discard: the sink has got `before`, and at most what was in flight -/
structure Discarding (before flight : List α) (s : Subscription α) : Prop where
  closed : s.closed = true
  discard : s.discard = true
  delivered : (s.delivered = before ∧ s.inFlight = flight) ∨ (s.delivered = before ++ flight ∧ s.inFlight = [])

theorem discarding_step {before flight : List α} (s : Subscription α) (a : SubAct α) (h : Discarding before flight s) :
    Discarding before flight (s.step a) := by
  rcases step_closed h.closed a with ⟨-, e⟩ | ⟨-, e⟩ | ⟨-, hclosed, hdiscard, hloop, hdel⟩
  · rw [e]
    rcases take_cases s with e | ⟨hloop, -, -, e⟩ | ⟨-, -, hopen, -⟩
    · rw [e]
      exact h
    · have hdel := h.delivered
      rw [inFlight_waiting hloop] at hdel
      rw [e]
      exact { h with delivered := hdel }
    · exact absurd ⟨h.closed, h.discard⟩ hopen
  · rw [e]
    rcases sink_cases s with e | ⟨r, hloop, e⟩
    · rw [e]
      exact h
    · rw [e]
      refine { h with delivered := Or.inr ?_ }
      rcases h.delivered with ⟨hbefore, hflight⟩ | ⟨-, hnone⟩
      · rw [inFlight_delivering hloop] at hflight
        refine ⟨?_, rfl⟩
        show s.delivered ++ [r] = before ++ flight
        rw [hbefore, hflight]
      · rw [inFlight_delivering hloop] at hnone
        cases hnone
  · refine ⟨hclosed, hdiscard.trans h.discard, ?_⟩
    rw [hdel, inFlight_congr hloop]
    exact h.delivered

/-- **After a discard** at most the record in flight reaches the sink. -/
theorem discarded (hopen : s.closed = false) (later : List (SubAct α)) :
    (run step (s.close true) later).delivered = s.delivered ∨
      (run step (s.close true) later).delivered = s.delivered ++ s.inFlight := by
  have hstart : Discarding s.delivered s.inFlight (s.close true) := by
    have e : s.close true = { s with closed := true, discard := true } := if_neg (by rw [hopen]; exact Bool.noConfusion)
    rw [e]
    exact ⟨rfl, rfl, Or.inl ⟨rfl, rfl⟩⟩
  rcases (run_preserves discarding_step hstart later).delivered with h | h
  · exact Or.inl h.1
  · exact Or.inr h.1

/-- the first close wins -/
theorem close_wins (hclosed : s.closed = true) (later : List (SubAct α)) :
    (run step s later).closed = true ∧ (run step s later).discard = s.discard := by
  have hstep : ∀ (t : Subscription α) a, t.closed = true ∧ t.discard = s.discard →
      (t.step a).closed = true ∧ (t.step a).discard = s.discard := by
    intro t a ht
    rcases step_closed ht.1 a with ⟨-, e⟩ | ⟨-, e⟩ | ⟨-, hc, hd, -, -⟩
    · rw [e]
      rcases take_cases t with e | ⟨-, -, -, e⟩ | ⟨-, -, -, e⟩ <;> rw [e] <;> exact ht
    · rw [e]
      rcases sink_cases t with e | ⟨r, -, e⟩ <;> rw [e] <;> exact ht
    · exact ⟨hc, hd.trans ht.2⟩
  exact run_preserves hstep ⟨hclosed, rfl⟩ later

/-- once the delivery goroutine has returned, the sink is never called again -/
theorem ended_silent (hclosed : s.closed = true) (hend : s.loop = .ended) (later : List (SubAct α)) :
    (run step s later).delivered = s.delivered := by
  have hstep : ∀ (t : Subscription α) a, (t.closed = true ∧ t.loop = .ended ∧ t.delivered = s.delivered) →
      (t.step a).closed = true ∧ (t.step a).loop = .ended ∧ (t.step a).delivered = s.delivered := by
    intro t a ht
    rcases step_closed ht.1 a with ⟨-, e⟩ | ⟨-, e⟩ | ⟨-, hc, -, hl, hd⟩
    · have hidle : t.take = t := by
        unfold take
        rw [ht.2.1]
      rw [e, hidle]
      exact ht
    · have hidle : t.sink = t := by
        unfold sink
        rw [ht.2.1]
      rw [e, hidle]
      exact ht
    · exact ⟨hc, hl.trans ht.2.1, hd.trans ht.2.2⟩
  exact (run_preserves hstep ⟨hclosed, hend, rfl⟩ later).2.2

/-! ## The queue -/

/-- what holds in every state: the sink gets a subsequence of what was pushed; what was accepted before the close is
delivered, in flight, buffered or dropped; a dropped record was the oldest in a full buffer; the drop counter is their
number, up to the pushes that have not counted theirs yet; the indices are in range -/
structure Fifo (n : ℕ) (s : Subscription α) : Prop where
  order : s.delivered.Sublist s.pushed
  accepted : s.accepted <+: s.pushed ∧ (s.closed = false → s.accepted = s.pushed)
  conserved : (s.dropped ++ (s.delivered ++ s.inFlight ++ s.ring.contents)).Perm s.accepted
  kept : (s.delivered ++ s.inFlight ++ s.ring.contents).Sublist s.accepted
  oldest : ∀ d buffered, .dropped d buffered ∈ s.departed → buffered.head? = some d ∧ buffered.length = n
  counted : s.drops + s.uncounted = s.dropped.length
  head : s.ring.head < n
  count : s.ring.count ≤ n

omit [Inhabited α] in
/-- every departure is a drop or a delivery -/
theorem departed_perm (departed : List (Departure α)) :
    (departed.filterMap Departure.dropped? ++ departed.filterMap Departure.taken?).Perm
      (departed.map Departure.record) := by
  induction departed with
  | nil => exact List.Perm.refl _
  | cons d departed ih =>
    cases d with
    | dropped r buffered => exact ih.cons r
    | taken r => exact (List.perm_middle).trans (ih.cons r)

omit [Inhabited α] in
theorem taken_sublist (departed : List (Departure α)) :
    (departed.filterMap Departure.taken?).Sublist (departed.map Departure.record) := by
  induction departed with
  | nil => exact List.Sublist.refl _
  | cons d departed ih =>
    cases d with
    | dropped r buffered => exact ih.cons r
    | taken r => exact ih.cons_cons r

theorem Inv.fifo (h : Inv n s) : Fifo n s := by
  have hkept : (s.delivered ++ s.inFlight ++ s.ring.contents).Sublist s.accepted := by
    rw [h.accepted, ← h.taken]
    exact (taken_sublist s.departed).append_right _
  refine { order := ?_, accepted := ⟨h.pushed, h.opened⟩, conserved := ?_, kept := hkept, oldest := h.oldest,
           counted := h.counted, head := h.size ▸ h.valid.head, count := h.size ▸ h.valid.count }
  · calc List.Sublist s.delivered (s.delivered ++ s.inFlight) := List.sublist_append_left _ _
      List.Sublist _ (s.delivered ++ s.inFlight ++ s.ring.contents) := List.sublist_append_left _ _
      List.Sublist _ s.accepted := hkept
      List.Sublist _ s.pushed := h.pushed.sublist
  · rw [h.accepted, ← h.taken, ← List.append_assoc]
    exact (departed_perm s.departed).append_right _

/-- **The subscription is a drop-oldest queue**, for every ring size and every interleaving of pushes, turns of the
delivery loop, closes, unsubscribe and shutdown. The first close wins; after a drain every buffered record is delivered
once before the loop ends; after a discard only a record already in flight is; and once unsubscribe has returned the
sink is never called again. -/
theorem ring_is_fifo (n : ℕ) (hn : 1 ≤ n) (acts : List (SubAct α)) :
    let s := run step (new n) acts
    Fifo n s ∧
    (s.closed = true → ∀ later, (run step s later).closed = true ∧ (run step s later).discard = s.discard) ∧
    (s.closed = false → ∀ later,
      (run step (s.close false) later).delivered <+: s.delivered ++ s.inFlight ++ s.ring.contents ∧
      ((run step (s.close false) later).loop = .ended →
        (run step (s.close false) later).delivered = s.delivered ++ s.inFlight ++ s.ring.contents)) ∧
    (s.closed = false → ∀ later,
      (run step (s.close true) later).delivered = s.delivered ∨
        (run step (s.close true) later).delivered = s.delivered ++ s.inFlight) ∧
    (s.unsub = .returned → ∀ later, (run step s later).delivered = s.delivered) := by
  intro s
  have h : Inv n s := run_preserves step_inv (inv_new hn) acts
  refine ⟨h.fifo, close_wins, drained h, discarded, fun hret => ?_⟩
  have hend := h.returned hret
  exact ended_silent (h.ended hend) hend

/-- two slots, three records: the first is dropped, and a drain delivers the other two -/
theorem ring_is_fifo_two :
    Fifo 2 (run step (new 2) [.push 1, .push 2, .push 3, .take, .hubStops, .shutdownClose, .sink, .take, .sink, .take]) ∧
      (run step (new 2 : Subscription ℕ)
        [.push 1, .push 2, .push 3, .take, .hubStops, .shutdownClose, .sink, .take, .sink, .take]).delivered = [2, 3] :=
  ⟨(ring_is_fifo 2 (by decide) _).1, by decide⟩

end Subscription

end LogDeck.Logstream
