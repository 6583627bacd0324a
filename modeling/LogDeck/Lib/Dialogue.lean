/-
Dialogues: programs that ask questions and go on with the answers.

A contract says what may be asked and what the answers are like. `Holds` is the weakest precondition: when the answers
keep to the contract, so do the questions, and the end is as the postcondition says. A dialogue is held with a server
that has a state of its own.

Results:
- `holds_pure`, `holds_ask`, `holds_ofExcept`: the rules;
- `run_sound`: what holds of a dialogue is so whatever the server, as long as its answers keep to the contract;
- `leads_bind`, `leads_ask`, `leads_forM`, `run_leads`: the same about where a dialogue leads a given server.
-/
import Mathlib.Data.List.Basic

/-- a program with questions in `Q` and answers in `R`, which may fail -/
inductive Dialogue (Q R E : Type) (α : Type) where
  | done (a : α)
  | fail (e : E)
  | ask (q : Q) (next : R → Dialogue Q R E α)

namespace Dialogue

variable {Q R E α β S : Type}

def bind : Dialogue Q R E α → (α → Dialogue Q R E β) → Dialogue Q R E β
  | done a, f => f a
  | fail e, _ => fail e
  | ask q next, f => ask q fun r => (next r).bind f

instance : Monad (Dialogue Q R E) where
  pure := done
  bind := bind

/-- an error ends the dialogue -/
def ofExcept : Except E α → Dialogue Q R E α
  | .ok a => done a
  | .error e => fail e

@[simp] theorem done_bind (a : α) (f : α → Dialogue Q R E β) : (done a >>= f) = f a := rfl

@[simp] theorem pure_bind (a : α) (f : α → Dialogue Q R E β) : (pure a >>= f) = f a := rfl

@[simp] theorem fail_bind (e : E) (f : α → Dialogue Q R E β) : (fail e >>= f) = fail e := rfl

@[simp] theorem ask_bind (q : Q) (next : R → Dialogue Q R E α) (f : α → Dialogue Q R E β) :
    (ask q next >>= f) = ask q fun r => next r >>= f := rfl

theorem bind_assoc {γ : Type} (d : Dialogue Q R E α) (f : α → Dialogue Q R E β) (g : β → Dialogue Q R E γ) :
    (d >>= f >>= g) = (d >>= fun a => f a >>= g) := by
  induction d with
  | done a => rfl
  | fail e => rfl
  | ask q next ih =>
    simp only [ask_bind, ask.injEq, true_and]
    funext r
    exact ih r

theorem bind_pure (d : Dialogue Q R E α) : (d >>= pure) = d := by
  induction d with
  | done a => rfl
  | fail e => rfl
  | ask q next ih =>
    simp only [ask_bind, ask.injEq, true_and]
    funext r
    exact ih r

/-! ## Contracts -/

structure Contract (Q R : Type) where
  may : Q → Prop
  answers : Q → R → Prop

/-- the questions keep to the contract and the end to the postcondition, if the answers keep to the contract -/
def Holds (c : Contract Q R) (post : Except E α → Prop) : Dialogue Q R E α → Prop
  | done a => post (.ok a)
  | fail e => post (.error e)
  | ask q next => c.may q ∧ ∀ r, c.answers q r → (next r).Holds c post

variable {c : Contract Q R} {post : Except E β → Prop}

theorem holds_pure {a : β} (h : post (.ok a)) : (pure a : Dialogue Q R E β).Holds c post := h

theorem holds_ask {q : Q} {next : R → Dialogue Q R E β} (hmay : c.may q)
    (hnext : ∀ r, c.answers q r → (next r).Holds c post) : (ask q next).Holds c post := ⟨hmay, hnext⟩

theorem holds_ofExcept {x : Except E α} {f : α → Dialogue Q R E β} (hok : ∀ a, x = .ok a → (f a).Holds c post)
    (herror : ∀ e, post (.error e)) : (ofExcept x >>= f).Holds c post := by
  cases x with
  | ok a => exact hok a rfl
  | error e => exact herror e

/-! ## Runs -/

/-- what a dialogue leaves: the state of the server, what was asked and answered, and the end -/
structure Record (Q R E α S : Type) where
  server : S
  trace : List (Q × R)
  result : Except E α

def run (server : S → Q → S × R) : S → Dialogue Q R E α → Record Q R E α S
  | s, done a => { server := s, trace := [], result := .ok a }
  | s, fail e => { server := s, trace := [], result := .error e }
  | s, ask q next =>
    let rest := run server (server s q).1 (next (server s q).2)
    { rest with trace := (q, (server s q).2) :: rest.trace }

/-- **Soundness.** A dialogue that holds is held as its contract says, with every server that keeps to it. -/
theorem run_sound {server : S → Q → S × R} (hserver : ∀ s q, c.answers q (server s q).2) {d : Dialogue Q R E β}
    (h : d.Holds c post) (s : S) :
    (∀ x ∈ (run server s d).trace, c.may x.1 ∧ c.answers x.1 x.2) ∧ post (run server s d).result := by
  induction d generalizing s with
  | done a => exact ⟨fun x hx => (nomatch hx), h⟩
  | fail e => exact ⟨fun x hx => (nomatch hx), h⟩
  | ask q next ih =>
    have hrest := ih (server s q).2 (h.2 _ (hserver s q)) (server s q).1
    refine ⟨?_, hrest.2⟩
    intro x hx
    rcases List.mem_cons.1 hx with rfl | hx
    · exact ⟨h.1, hserver s q⟩
    · exact hrest.1 x hx

/-! ## Where a dialogue leads -/

/-- a postcondition, for a good end and a bad one -/
def ends (good : S → List (Q × R) → α → Prop) (bad : S → List (Q × R) → E → Prop) :
    S → List (Q × R) → Except E α → Prop
  | s, trace, .ok a => good s trace a
  | s, trace, .error e => bad s trace e

/-- the dialogue leads the server from a state, after a trace, to an end as the postcondition says -/
def Leads (server : S → Q → S × R) (post : S → List (Q × R) → Except E α → Prop) :
    S → List (Q × R) → Dialogue Q R E α → Prop
  | s, trace, done a => post s trace (.ok a)
  | s, trace, fail e => post s trace (.error e)
  | s, trace, ask q next => Leads server post (server s q).1 (trace ++ [(q, (server s q).2)]) (next (server s q).2)

section
variable {server : S → Q → S × R} {goal : S → List (Q × R) → Except E β → Prop} {s : S} {trace : List (Q × R)}

theorem leads_ask {q : Q} {next : R → Dialogue Q R E β}
    (h : (next (server s q).2).Leads server goal (server s q).1 (trace ++ [(q, (server s q).2)])) :
    (ask q next).Leads server goal s trace := h

/-- the second dialogue starts where the first one ends well -/
theorem leads_bind {mid : S → List (Q × R) → α → Prop} {d : Dialogue Q R E α} {f : α → Dialogue Q R E β}
    (hd : d.Leads server (ends mid fun s trace e => goal s trace (.error e)) s trace)
    (hf : ∀ s trace a, mid s trace a → (f a).Leads server goal s trace) : (d >>= f).Leads server goal s trace := by
  induction d generalizing s trace with
  | done a => exact hf _ _ a hd
  | fail e => exact hd
  | ask q next ih => exact ih _ hd

/-- a loop over a list keeps what depends on what is left of it -/
theorem leads_forM {γ : Type} {f : γ → Dialogue Q R E PUnit} (inv : List γ → S → List (Q × R) → Prop)
    {bad : S → List (Q × R) → E → Prop} {xs : List γ}
    (hf : ∀ x left s trace, inv (x :: left) s trace →
      (f x).Leads server (ends (fun s trace _ => inv left s trace) bad) s trace) (h : inv xs s trace) :
    (xs.forM f).Leads server (ends (fun s trace _ => inv [] s trace) bad) s trace := by
  induction xs generalizing s trace with
  | nil => exact h
  | cons x left ih => exact leads_bind (hf x left s trace h) fun s trace _ hinv => ih hinv

/-- where a dialogue leads is where its run ends -/
theorem run_leads {d : Dialogue Q R E β} (h : d.Leads server goal s trace) :
    goal (run server s d).server (trace ++ (run server s d).trace) (run server s d).result := by
  induction d generalizing s trace with
  | done a =>
    rw [show (run server s (done a : Dialogue Q R E β)).trace = [] from rfl, List.append_nil]
    exact h
  | fail e =>
    rw [show (run server s (fail e : Dialogue Q R E β)).trace = [] from rfl, List.append_nil]
    exact h
  | ask q next ih =>
    have hrest := ih _ h
    rw [List.append_assoc] at hrest
    exact hrest

end

end Dialogue
