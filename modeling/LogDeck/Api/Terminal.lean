/-
A terminal session (`api/terminal.go`: `HandleTerminal`, `streamContainerOutput`, `forwardClientInput`).

Two goroutines copy between the exec stream of the container and the WebSocket of the browser, and the handler waits for
either to end. It then closes the connection and the socket, and writes to them fail from there on. Reads fail too, but
only after what was buffered before. What a text message says is a parameter (`json.Unmarshal`).

Every action is what one goroutine does up to its next call that can block, and they interleave in any order. Ghosts:
`printed` has the chunks read from the container, `typed` the messages read from the browser.

Results:
- `step_relays`: every action keeps the two copies in order;
- `left_decreases`: once the handler has returned, every step of a goroutine brings it nearer to its end;
- `session_relays`: what reaches the other side in every run, and that no goroutine is left behind.
-/
import LogDeck.Docker.Decode
import LogDeck.Lib.Machine

namespace LogDeck.Api.Terminal

open LogDeck.Docker (Bytes)
open Machine (run)

/-! ## Model -/

structure ResizeMessage where
  type : String
  cols : ℕ
  rows : ℕ
deriving DecidableEq, Repr

/-- 32 KiB -/
def terminalBufferSize : ℕ := 32 * 1024

inductive WsMessage where
  | text (data : Bytes)
  | binary (data : Bytes)
deriving DecidableEq, Repr

def WsMessage.data : WsMessage → Bytes
  | text data | binary data => data

/-- where `streamContainerOutput` is -/
inductive Output where
  | reading
  /-- with a chunk in hand, read together with an error or not -/
  | writing (chunk : Bytes) (err : Bool)
  | done
deriving DecidableEq, Repr

/-- where `forwardClientInput` is -/
inductive Input where
  | reading
  | handling (msg : WsMessage)
  /-- the deferred close of the connection -/
  | closing
  | done
deriving DecidableEq, Repr

structure Session where
  output : Output
  input : Input
  /-- the connection to the container is closed -/
  connClosed : Bool
  wsClosed : Bool
  /-- the handler has returned -/
  returned : Bool
  /-- the messages that the socket had received, but nobody had read, when it was closed -/
  buffered : List WsMessage
  toBrowser : List Bytes
  toContainer : List Bytes
  /-- columns and rows of the calls of `ResizeExec` -/
  resizes : List (ℕ × ℕ)
  printed : List Bytes
  typed : List WsMessage
deriving DecidableEq, Repr

def start : Session :=
  { output := .reading, input := .reading, connClosed := false, wsClosed := false, returned := false
    buffered := [], toBrowser := [], toContainer := [], resizes := [], printed := [], typed := [] }

inductive Act where
  /-- a read of the container's output returns -/
  | read (chunk : Bytes) (err : Bool)
  | write (ok : Bool)
  /-- a message of the browser, or an error -/
  | receive (msg : Option WsMessage)
  | handle (ok : Bool)
  | close
  /-- the handler returns, and closes connection and socket -/
  | return_ (buffered : List WsMessage)
deriving DecidableEq, Repr

section
variable (unmarshal : Bytes → Option ResizeMessage)

/-- the new size, when the message is to resize the terminal -/
def resizeOf : WsMessage → Option (ℕ × ℕ)
  | .text data =>
    match unmarshal data with
    | some msg => if msg.type = "resize" then some (msg.cols, msg.rows) else none
    | none => none
  | .binary _ => none

def Session.step (s : Session) : Act → Session
  | .read chunk err =>
    match s.output with
    | .reading =>
      -- a closed connection brings something or fails
      if terminalBufferSize < chunk.length ∨ (s.connClosed = true ∧ chunk = [] ∧ err = false) then s
      else if chunk ≠ [] then { s with output := .writing chunk err, printed := s.printed ++ [chunk] }
      else if err then { s with output := .done }
      else s
    | _ => s
  | .write ok =>
    match s.output with
    | .writing chunk err =>
      if ok ∧ s.wsClosed = false then
        { s with toBrowser := s.toBrowser ++ [chunk], output := if err then .done else .reading }
      else { s with output := .done }
    | _ => s
  | .receive msg =>
    match s.input with
    | .reading =>
      match msg with
      | some msg =>
        if s.wsClosed = false then { s with input := .handling msg, typed := s.typed ++ [msg] }
        else if s.buffered.head? = some msg then
          { s with input := .handling msg, typed := s.typed ++ [msg], buffered := s.buffered.tail }
        else s
      | none => { s with input := .closing }
    | _ => s
  | .handle ok =>
    match s.input with
    | .handling msg =>
      match resizeOf unmarshal msg with
      -- whether it succeeds or not
      | some size => { s with input := .reading, resizes := s.resizes ++ [size] }
      | none =>
        if ok ∧ s.connClosed = false then { s with input := .reading, toContainer := s.toContainer ++ [msg.data] }
        else { s with input := .closing }
    | _ => s
  | .close =>
    match s.input with
    | .closing => { s with input := .done, connClosed := true }
    | _ => s
  | .return_ buffered =>
    if s.returned = false ∧ (s.output = .done ∨ s.input = .done) then
      { s with returned := true, connClosed := true, wsClosed := true, buffered := buffered }
    else s

/-! ## What is copied -/

/-- what the messages write to the container -/
def writesOf (msgs : List WsMessage) : List Bytes :=
  msgs.filterMap fun msg => if resizeOf unmarshal msg = none then some msg.data else none

def sizesOf (msgs : List WsMessage) : List (ℕ × ℕ) := msgs.filterMap (resizeOf unmarshal)

/-- the copy of what was printed -/
def OutputCopied (s : Session) : Prop :=
  match s.output with
  | .reading => s.toBrowser = s.printed
  | .writing chunk _ => s.toBrowser ++ [chunk] = s.printed
  | .done => s.toBrowser = s.printed ∨ ∃ lost, s.toBrowser ++ [lost] = s.printed

/-- the messages were handled in order -/
def Handled (s : Session) (msgs : List WsMessage) : Prop :=
  s.toContainer = writesOf unmarshal msgs ∧ s.resizes = sizesOf unmarshal msgs

/-- the copy of what was typed -/
def InputCopied (s : Session) : Prop :=
  match s.input with
  | .reading => Handled unmarshal s s.typed
  | .handling msg => ∃ msgs, s.typed = msgs ++ [msg] ∧ Handled unmarshal s msgs
  | .closing | .done => Handled unmarshal s s.typed ∨ ∃ msgs lost, s.typed = msgs ++ [lost] ∧ Handled unmarshal s msgs

structure Relays (s : Session) : Prop where
  output : OutputCopied s
  input : InputCopied unmarshal s
  chunks : ∀ chunk ∈ s.printed, chunk ≠ [] ∧ chunk.length ≤ terminalBufferSize
  closed : s.returned = true → s.connClosed = true ∧ s.wsClosed = true
  ended : s.returned = true → s.output = .done ∨ s.input = .done

variable {unmarshal} {s : Session}

theorem writesOf_snoc (msgs : List WsMessage) (msg : WsMessage) :
    writesOf unmarshal (msgs ++ [msg]) =
      writesOf unmarshal msgs ++ if resizeOf unmarshal msg = none then [msg.data] else [] := by
  unfold writesOf
  rw [List.filterMap_append]
  by_cases h : resizeOf unmarshal msg = none
  · simp [h]
  · simp [h]

theorem sizesOf_snoc (msgs : List WsMessage) (msg : WsMessage) :
    sizesOf unmarshal (msgs ++ [msg]) = sizesOf unmarshal msgs ++ (resizeOf unmarshal msg).toList := by
  unfold sizesOf
  rw [List.filterMap_append]
  cases h : resizeOf unmarshal msg with
  | none => simp [h]
  | some size => simp [h]

theorem start_relays : Relays unmarshal start :=
  ⟨rfl, ⟨rfl, rfl⟩, fun _ h => (nomatch h), fun h => (nomatch h), fun h => (nomatch h)⟩

theorem read_relays (hr : Relays unmarshal s) (chunk : Bytes) (err : Bool) :
    Relays unmarshal (s.step unmarshal (.read chunk err)) := by
  cases ho : s.output with
  | reading =>
    simp only [Session.step, ho]
    have hcopied := hr.output
    simp only [OutputCopied, ho] at hcopied
    have hended : s.returned = true → s.input = .done := fun h =>
      (hr.ended h).resolve_left fun hdone => by rw [ho] at hdone; cases hdone
    split
    · exact hr
    · rename_i hfits
      split
      · rename_i hne
        refine ⟨?_, hr.input, ?_, hr.closed, fun h => .inr (hended h)⟩
        · show s.toBrowser ++ [chunk] = s.printed ++ [chunk]
          rw [hcopied]
        · intro c hc
          rcases List.mem_append.1 hc with hc | hc
          · exact hr.chunks c hc
          · rw [List.mem_singleton.1 hc]
            exact ⟨hne, by omega⟩
      · split
        · exact ⟨.inl hcopied, hr.input, hr.chunks, hr.closed, fun _ => .inl rfl⟩
        · exact hr
  | writing c e | done =>
    simp only [Session.step, ho]
    exact hr

theorem write_relays (hr : Relays unmarshal s) (ok : Bool) : Relays unmarshal (s.step unmarshal (.write ok)) := by
  cases ho : s.output with
  | writing chunk err =>
    simp only [Session.step, ho]
    have hcopied := hr.output
    simp only [OutputCopied, ho] at hcopied
    have hended : s.returned = true → s.input = .done := fun h =>
      (hr.ended h).resolve_left fun hdone => by rw [ho] at hdone; cases hdone
    split
    · refine ⟨?_, hr.input, hr.chunks, hr.closed, fun h => .inr (hended h)⟩
      cases err with
      | true => exact .inl hcopied
      | false => exact hcopied
    · exact ⟨.inr ⟨chunk, hcopied⟩, hr.input, hr.chunks, hr.closed, fun _ => .inl rfl⟩
  | reading | done =>
    simp only [Session.step, ho]
    exact hr

theorem receive_relays (hr : Relays unmarshal s) (msg : Option WsMessage) :
    Relays unmarshal (s.step unmarshal (.receive msg)) := by
  cases hi : s.input with
  | reading =>
    simp only [Session.step, hi]
    have hcopied := hr.input
    simp only [InputCopied, hi] at hcopied
    have hended : s.returned = true → s.output = .done := fun h =>
      (hr.ended h).resolve_right fun hdone => by rw [hi] at hdone; cases hdone
    cases msg with
    | none => exact ⟨hr.output, .inl hcopied, hr.chunks, hr.closed, fun h => .inl (hended h)⟩
    | some msg =>
      dsimp only
      split
      · exact ⟨hr.output, ⟨s.typed, rfl, hcopied⟩, hr.chunks, hr.closed, fun h => .inl (hended h)⟩
      · split
        · exact ⟨hr.output, ⟨s.typed, rfl, hcopied⟩, hr.chunks, hr.closed, fun h => .inl (hended h)⟩
        · exact hr
  | handling m | closing | done =>
    simp only [Session.step, hi]
    exact hr

theorem handle_relays (hr : Relays unmarshal s) (ok : Bool) : Relays unmarshal (s.step unmarshal (.handle ok)) := by
  cases hi : s.input with
  | handling msg =>
    simp only [Session.step, hi]
    have hcopied := hr.input
    simp only [InputCopied, hi] at hcopied
    obtain ⟨msgs, htyped, hwrites, hsizes⟩ := hcopied
    have hended : s.returned = true → s.output = .done := fun h =>
      (hr.ended h).resolve_right fun hdone => by rw [hi] at hdone; cases hdone
    cases hresize : resizeOf unmarshal msg with
    | some size =>
      refine ⟨hr.output, ?_, hr.chunks, hr.closed, fun h => .inl (hended h)⟩
      constructor
      · rw [htyped, writesOf_snoc, hresize, if_neg (Option.some_ne_none size), List.append_nil]
        exact hwrites
      · rw [htyped, sizesOf_snoc, hresize, ← hsizes]
        rfl
    | none =>
      dsimp only
      split
      · refine ⟨hr.output, ?_, hr.chunks, hr.closed, fun h => .inl (hended h)⟩
        constructor
        · rw [htyped, writesOf_snoc, hresize, if_pos rfl, ← hwrites]
        · rw [htyped, sizesOf_snoc, hresize, Option.toList_none, List.append_nil]
          exact hsizes
      · exact ⟨hr.output, .inr ⟨msgs, msg, htyped, hwrites, hsizes⟩, hr.chunks, hr.closed, fun h => .inl (hended h)⟩
  | reading | closing | done =>
    simp only [Session.step, hi]
    exact hr

theorem step_relays (hr : Relays unmarshal s) (act : Act) : Relays unmarshal (s.step unmarshal act) := by
  cases act with
  | read chunk err => exact read_relays hr chunk err
  | write ok => exact write_relays hr ok
  | receive msg => exact receive_relays hr msg
  | handle ok => exact handle_relays hr ok
  | close =>
    cases hi : s.input with
    | closing =>
      simp only [Session.step, hi]
      have hcopied := hr.input
      simp only [InputCopied, hi] at hcopied
      exact ⟨hr.output, hcopied, hr.chunks, fun h => ⟨rfl, (hr.closed h).2⟩, fun _ => .inr rfl⟩
    | reading | handling msg | done =>
      simp only [Session.step, hi]
      exact hr
  | return_ buffered =>
    simp only [Session.step]
    split
    · rename_i hends
      exact ⟨hr.output, hr.input, hr.chunks, fun _ => ⟨rfl, rfl⟩, fun _ => hends.2⟩
    · exact hr

/-! ## The end of a session -/

def Output.left : Output → ℕ
  | .reading => 2
  | .writing _ _ => 1
  | .done => 0

/-- after a message that resizes the terminal the browser is read once more -/
def Input.left : Input → ℕ
  | .handling _ => 3
  | .reading => 2
  | .closing => 1
  | .done => 0

/-- the steps that the goroutines have left at most -/
def Session.left (s : Session) : ℕ := s.output.left + s.input.left + 2 * s.buffered.length

theorem left_le (s : Session) : s.left ≤ 5 + 2 * s.buffered.length := by
  have houtput : s.output.left ≤ 2 := by cases s.output <;> simp [Output.left]
  have hinput : s.input.left ≤ 3 := by cases s.input <;> simp [Input.left]
  unfold Session.left
  omega

theorem left_decreases (hr : Relays unmarshal s) (hreturned : s.returned = true) (act : Act) :
    s.step unmarshal act = s ∨ (s.step unmarshal act).left < s.left := by
  obtain ⟨hconn, hws⟩ := hr.closed hreturned
  cases act with
  | read chunk err =>
    cases ho : s.output with
    | reading =>
      simp only [Session.step, ho]
      split
      · exact .inl rfl
      · rename_i hfits
        split
        · exact .inr (by simp [Session.left, ho, Output.left])
        · split
          · exact .inr (by simp [Session.left, ho, Output.left])
          · exact .inl rfl
    | writing c e | done => exact .inl (by simp only [Session.step, ho])
  | write ok =>
    cases ho : s.output with
    | writing chunk err =>
      simp only [Session.step, ho, hws, Bool.true_eq_false, and_false, if_false]
      exact .inr (by simp [Session.left, ho, Output.left])
    | reading | done => exact .inl (by simp only [Session.step, ho])
  | receive msg =>
    cases hi : s.input with
    | reading =>
      cases msg with
      | none =>
        simp only [Session.step, hi]
        exact .inr (by simp [Session.left, hi, Input.left])
      | some msg =>
        simp only [Session.step, hi, hws, Bool.true_eq_false, if_false]
        split
        · rename_i hhead
          obtain ⟨rest, hbuffered⟩ := List.head?_eq_some_iff.1 hhead
          refine .inr ?_
          simp only [Session.left, hi, Input.left, hbuffered, List.tail_cons, List.length_cons]
          omega
        · exact .inl rfl
    | handling m | closing | done => exact .inl (by simp only [Session.step, hi])
  | handle ok =>
    cases hi : s.input with
    | handling msg =>
      cases hresize : resizeOf unmarshal msg with
      | some size =>
        simp only [Session.step, hi, hresize]
        exact .inr (by simp [Session.left, hi, Input.left])
      | none =>
        simp only [Session.step, hi, hresize, hconn, Bool.true_eq_false, and_false, if_false]
        exact .inr (by simp [Session.left, hi, Input.left])
    | reading | closing | done => exact .inl (by simp only [Session.step, hi])
  | close =>
    cases hi : s.input with
    | closing =>
      simp only [Session.step, hi]
      exact .inr (by simp [Session.left, hi, Input.left])
    | reading | handling msg | done => exact .inl (by simp only [Session.step, hi])
  | return_ buffered =>
    left
    simp only [Session.step, hreturned, Bool.true_eq_false, false_and, if_false]

theorem returned_step (hreturned : s.returned = true) (act : Act) : (s.step unmarshal act).returned = true := by
  cases act <;> simp only [Session.step] <;> (repeat' split) <;> first | exact hreturned | rfl

/-- a goroutine that is left behind has a step to take -/
theorem stuck_done (hr : Relays unmarshal s) (hreturned : s.returned = true)
    (hstuck : ∀ act, s.step unmarshal act = s) : s.output = .done ∧ s.input = .done := by
  obtain ⟨hconn, hws⟩ := hr.closed hreturned
  constructor
  · cases ho : s.output with
    | reading =>
      have hread := congrArg Session.output (hstuck (.read [] true))
      simp [Session.step, ho, terminalBufferSize] at hread
    | writing chunk err =>
      have hwrite := congrArg Session.output (hstuck (.write false))
      simp [Session.step, ho] at hwrite
    | done => rfl
  · cases hi : s.input with
    | reading =>
      have hreceive := congrArg Session.input (hstuck (.receive none))
      simp [Session.step, hi] at hreceive
    | handling msg =>
      have hhandle := congrArg Session.input (hstuck (.handle false))
      cases hresize : resizeOf unmarshal msg with
      | some size => simp [Session.step, hi, hresize] at hhandle
      | none => simp [Session.step, hi, hresize] at hhandle
    | closing =>
      have hclose := congrArg Session.input (hstuck .close)
      simp [Session.step, hi] at hclose
    | done => rfl

variable (unmarshal)

/-- **A terminal session relays both ways and ends.** However the two goroutines and the handler interleave, the browser
gets what the container printed, and the container what the browser typed, in order and whole but for what is in hand or
was lost in the write that ended the copy. Once the handler has returned the two goroutines take at most five steps and two
for each message that was left in the socket, and only when both are done is there none to take. -/
theorem session_relays (acts : List Act) :
    let s := run (Session.step unmarshal) start acts
    Relays unmarshal s ∧
      (s.returned = true →
        (∀ more, Machine.Each (Session.step unmarshal) (fun s act => s.step unmarshal act ≠ s) s more →
          more.length ≤ 5 + 2 * s.buffered.length) ∧
        ((∀ act, s.step unmarshal act = s) → s.output = .done ∧ s.input = .done)) := by
  intro s
  have hstep : ∀ s act, Relays unmarshal s → Relays unmarshal (Session.step unmarshal s act) :=
    fun s act hr => step_relays hr act
  have hrelays : Relays unmarshal s := Machine.run_preserves hstep start_relays acts
  refine ⟨hrelays, fun hreturned => ⟨fun more hmore => ?_, stuck_done hrelays hreturned⟩⟩
  have hkept : ∀ s act, Relays unmarshal s ∧ s.returned = true →
      Relays unmarshal (Session.step unmarshal s act) ∧ (Session.step unmarshal s act).returned = true :=
    fun s act h => ⟨step_relays h.1 act, returned_step h.2 act⟩
  have hleft : more.length ≤ s.left :=
    Machine.length_le_of_variant hkept (fun s act h => left_decreases h.1 h.2 act) ⟨hrelays, hreturned⟩ hmore
  exact hleft.trans (left_le s)

end

end LogDeck.Api.Terminal
