/-
Deterministic machines driven by a list of operations.

A machine is a step function `S → O → S`; an operation that is not enabled leaves the state as it is. The two
predicates on runs are:
- `Always step P s ops`: P holds in every state the run goes through, the first and the last included;
- `Each step good s ops`: every operation of the run is good in the state in which it is executed.

Results:
- `run_inv`, `run_preserves`: an invariant that good operations (all operations) preserve holds at the end of every run
  of good operations (of every run);
- `always_of_each`: and in every state on the way;
- `always_iff_each`: when an operation that is not good breaks P at once, the runs on which P always holds are exactly
  the runs of good operations;
- `reaches_of_variant`: a machine without operations reaches its goal when a variant goes down until then.
-/
import Mathlib.Data.List.Basic
import Mathlib.Logic.Function.Iterate

namespace Machine

variable {S O : Type*} (step : S → O → S)

/-- the state after a list of operations -/
def run (s : S) (ops : List O) : S := ops.foldl step s

/-- P holds in every state of the run -/
def Always (P : S → Prop) : S → List O → Prop
  | s, [] => P s
  | s, o :: ops => P s ∧ Always P (step s o) ops

/-- every operation of the run is good where it is executed -/
def Each (good : S → O → Prop) : S → List O → Prop
  | _, [] => True
  | s, o :: ops => good s o ∧ Each good (step s o) ops

def Each.decide (good : S → O → Prop) [∀ s o, Decidable (good s o)] :
    ∀ (s : S) (ops : List O), Decidable (Each step good s ops)
  | _, [] => .isTrue trivial
  | s, o :: ops => @instDecidableAnd _ _ _ (Each.decide good (step s o) ops)

instance (good : S → O → Prop) [∀ s o, Decidable (good s o)] (s : S) (ops : List O) :
    Decidable (Each step good s ops) := Each.decide step good s ops

variable {step} {P Inv : S → Prop} {good : S → O → Prop}

theorem Always.head {s : S} {ops : List O} (h : Always step P s ops) : P s := by
  cases ops with
  | nil => exact h
  | cons o ops => exact h.1

theorem Always.last {s : S} {ops : List O} (h : Always step P s ops) : P (run step s ops) := by
  induction ops generalizing s with
  | nil => exact h
  | cons o ops ih => exact ih h.2

theorem Each.and {good' : S → O → Prop} {s : S} {ops : List O} (h : Each step good s ops) (h' : Each step good' s ops) :
    Each step (fun s o => good s o ∧ good' s o) s ops := by
  induction ops generalizing s with
  | nil => trivial
  | cons o ops ih => exact ⟨⟨h.1, h'.1⟩, ih h.2 h'.2⟩

theorem each_of_forall {p : O → Prop} {ops : List O} (h : ∀ o ∈ ops, p o) {s : S} : Each step (fun _ o => p o) s ops := by
  induction ops generalizing s with
  | nil => trivial
  | cons o ops ih => exact ⟨h o List.mem_cons_self, ih fun o' ho' => h o' (List.mem_cons_of_mem o ho')⟩

/-- an invariant preserved by good operations holds after a run of good operations -/
theorem run_inv (hstep : ∀ s o, Inv s → good s o → Inv (step s o)) {s : S} {ops : List O} (h : Inv s)
    (hops : Each step good s ops) : Inv (run step s ops) := by
  induction ops generalizing s with
  | nil => exact h
  | cons o ops ih => exact ih (hstep s o h hops.1) hops.2

/-- an invariant that every operation preserves holds after every run -/
theorem run_preserves (hstep : ∀ s o, Inv s → Inv (step s o)) {s : S} (h : Inv s) (ops : List O) :
    Inv (run step s ops) := by
  induction ops generalizing s with
  | nil => exact h
  | cons o ops ih => exact ih (hstep s o h)

theorem always_of_each (hP : ∀ s, Inv s → P s) (hstep : ∀ s o, Inv s → good s o → Inv (step s o)) {s : S}
    {ops : List O} (h : Inv s) (hops : Each step good s ops) : Always step P s ops := by
  induction ops generalizing s with
  | nil => exact hP s h
  | cons o ops ih => exact ⟨hP s h, ih (hstep s o h hops.1) hops.2⟩

/-- in the runs that keep to a contract, two conditions that agree wherever it is kept hold of the same runs -/
theorem each_iff_contract {pre good' : S → O → Prop} (hstep : ∀ s o, Inv s → pre s o → Inv (step s o))
    (hiff : ∀ s o, Inv s → pre s o → (good s o ↔ good' s o)) {s : S} {ops : List O} (h : Inv s)
    (hpre : Each step pre s ops) : Each step good s ops ↔ Each step good' s ops := by
  induction ops generalizing s with
  | nil => exact Iff.rfl
  | cons o ops ih => exact and_congr (hiff s o h hpre.1) (ih (hstep s o h hpre.1) hpre.2)

/-- what the invariant and a contract imply holds in the runs that keep to the contract -/
theorem each_of_contract {pre : S → O → Prop} (hstep : ∀ s o, Inv s → pre s o → Inv (step s o))
    (hgood : ∀ s o, Inv s → pre s o → good s o) {s : S} {ops : List O} (h : Inv s) (hpre : Each step pre s ops) :
    Each step good s ops := by
  induction ops generalizing s with
  | nil => trivial
  | cons o ops ih => exact ⟨hgood s o h hpre.1, ih (hstep s o h hpre.1) hpre.2⟩

/-- when a variant goes down with every operation that changes the state, only that many can -/
theorem length_le_of_variant {left : S → ℕ} (hstep : ∀ s o, Inv s → Inv (step s o))
    (hleft : ∀ s o, Inv s → step s o = s ∨ left (step s o) < left s) {s : S} {ops : List O} (h : Inv s)
    (hops : Each step (fun s o => step s o ≠ s) s ops) : ops.length ≤ left s := by
  induction ops generalizing s with
  | nil => exact Nat.zero_le _
  | cons o ops ih =>
    have hlt : left (step s o) < left s := (hleft s o h).resolve_left hops.1
    have hle : ops.length ≤ left (step s o) := ih (hstep s o h) hops.2
    rw [List.length_cons]
    omega

/-- `each_iff_contract` with an invariant that every operation preserves -/
theorem each_iff_given {pre good' : S → O → Prop} (hstep : ∀ s o, Inv s → Inv (step s o))
    (hiff : ∀ s o, Inv s → pre s o → (good s o ↔ good' s o)) {s : S} {ops : List O} (h : Inv s)
    (hpre : Each step pre s ops) : Each step good s ops ↔ Each step good' s ops :=
  each_iff_contract (fun s o hi _ => hstep s o hi) hiff h hpre

/-- two conditions that agree under an invariant hold of the same runs -/
theorem each_iff {good' : S → O → Prop} (hstep : ∀ s o, Inv s → Inv (step s o))
    (hiff : ∀ s o, Inv s → (good s o ↔ good' s o)) {s : S} {ops : List O} (h : Inv s) :
    Each step good s ops ↔ Each step good' s ops := by
  have htrivial : Each step (fun _ _ => True) s ops := by
    clear h
    induction ops generalizing s with
    | nil => trivial
    | cons o ops ih => exact ⟨trivial, ih⟩
  exact each_iff_given hstep (fun s o hi _ => hiff s o hi) h htrivial

/-- **Exactness.** If good operations preserve the invariant, the invariant implies P, and an operation that is not
good breaks P, then P holds throughout a run exactly when all of its operations are good. -/
theorem always_iff_each (hP : ∀ s, Inv s → P s) (hstep : ∀ s o, Inv s → good s o → Inv (step s o))
    (hbad : ∀ s o, Inv s → ¬ good s o → ¬ P (step s o)) {s : S} {ops : List O} (h : Inv s) :
    Always step P s ops ↔ Each step good s ops := by
  refine ⟨fun hA => ?_, always_of_each hP hstep h⟩
  induction ops generalizing s with
  | nil => trivial
  | cons o ops ih =>
    have hg : good s o := by
      by_contra hg
      exact hbad s o h hg hA.2.head
    exact ⟨hg, ih (hstep s o h hg) hA.2⟩

/-- **Variant rule.** A loop that keeps an invariant, and whose variant goes down until the goal is reached, reaches it. -/
theorem reaches_of_variant {next : S → S} {Goal : S → Prop} (variant : S → ℕ)
    (hnext : ∀ s, Inv s → ¬ Goal s → Inv (next s) ∧ variant (next s) < variant s) {s : S} (h : Inv s) :
    ∃ n, Inv (next^[n] s) ∧ Goal (next^[n] s) := by
  induction hv : variant s using Nat.strongRecOn generalizing s with
  | ind v ih =>
    by_cases hgoal : Goal s
    · exact ⟨0, h, hgoal⟩
    · obtain ⟨hinv, hlt⟩ := hnext s h hgoal
      obtain ⟨n, hn⟩ := ih (variant (next s)) (hv ▸ hlt) hinv rfl
      exact ⟨n + 1, hn⟩

end Machine
