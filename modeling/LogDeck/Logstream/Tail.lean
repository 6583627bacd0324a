/-
The tails of one hub subscription (`logstream/tail.go`: `spawnTail`, `runTail`; `logstream/logstream.go`: `handleEvent`,
`handleList`, `handleTailExit`).

The hub's loop holds at most one tail per container. A tail goroutine opens the container's log, and when the stream
ends it opens it again after a delay, `maxTailAttempts` times in all: the count is not reset by a stream that was open
for long. A tail that has given up stays in the loop's map until the loop handles its exit.

The subscription selects every container. Containers are keyed by host and id (`κ`). A swap of the Docker client shows
as a stream that ends.
-/
import Mathlib.Data.Nat.Notation
import Mathlib.Logic.Function.Basic

namespace LogDeck.Logstream

def maxTailAttempts : ℕ := 5

/-- what the goroutine of a tail does: opening the stream, reading it, waiting to open it again, or it has returned -/
inductive Tail where
  | opening (attempt : ℕ)
  | attached (attempt : ℕ)
  | waiting (attempt : ℕ)
  | exited
deriving DecidableEq, Repr

abbrev Tails (κ : Type) := κ → Option Tail

inductive TailAct (κ : Type) where
  /-- `handleEvent` of a start -/
  | startEvent (key : κ)
  /-- `handleEvent` of a die, a destroy or a rename -/
  | dieEvent (key : κ)
  /-- `handleList`, for a container of a host that listed -/
  | listed (key : κ) (running : Bool)
  | opened (key : κ)
  /-- the stream ended, or could not be opened -/
  | ended (key : κ)
  /-- the delay is over -/
  | retry (key : κ)
  | tailExit (key : κ)
deriving DecidableEq, Repr

namespace Tails

variable {κ : Type} [DecidableEq κ]

def spawnTail (tails : Tails κ) (key : κ) : Tails κ := Function.update tails key (some (.opening 1))

def cancelTails (tails : Tails κ) (key : κ) : Tails κ := Function.update tails key none

def handleStart (tails : Tails κ) (key : κ) : Tails κ := if tails key = none then tails.spawnTail key else tails

/-- converges to the listing: a tail of a container that is not running goes, a running container without one gets one -/
def handleListed (tails : Tails κ) (key : κ) (running : Bool) : Tails κ :=
  if running then tails.handleStart key else tails.cancelTails key

def opened (tails : Tails κ) (key : κ) : Tails κ :=
  match tails key with
  | some (.opening attempt) => Function.update tails key (some (.attached attempt))
  | _ => tails

/-- after the last attempt the tail gives up -/
def afterEnd (attempt : ℕ) : Tail := if attempt ≥ maxTailAttempts then .exited else .waiting attempt

def ended (tails : Tails κ) (key : κ) : Tails κ :=
  match tails key with
  | some (.opening attempt) => Function.update tails key (some (afterEnd attempt))
  | some (.attached attempt) => Function.update tails key (some (afterEnd attempt))
  | _ => tails

def retry (tails : Tails κ) (key : κ) : Tails κ :=
  match tails key with
  | some (.waiting attempt) => Function.update tails key (some (.opening (attempt + 1)))
  | _ => tails

def handleTailExit (tails : Tails κ) (key : κ) : Tails κ :=
  if tails key = some .exited then tails.cancelTails key else tails

def act (tails : Tails κ) : TailAct κ → Tails κ
  | .startEvent key => tails.handleStart key
  | .dieEvent key => tails.cancelTails key
  | .listed key running => tails.handleListed key running
  | .opened key => tails.opened key
  | .ended key => tails.ended key
  | .retry key => tails.retry key
  | .tailExit key => tails.handleTailExit key

/-- a line that is logged now is delivered -/
def isAttached (tails : Tails κ) (key : κ) : Bool :=
  match tails key with
  | some (.attached _) => true
  | _ => false

/-- the engine ends the open log of a container that stops -/
def containerStop (tails : Tails κ) (key : κ) : Tails κ := if tails.isAttached key then tails.ended key else tails

end Tails

end LogDeck.Logstream
