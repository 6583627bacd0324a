/-
A shared resource that is replaced while it is in use.

A pool has one current resource, which users take and hold for a while without telling anybody. A replacement puts another
resource in its place, and the one replaced may be closed when a grace period has passed since. `taken` is a ghost: who was
given which resource, and when.

Results:
- `Safe.tick`, `Safe.take`, `Safe.replace`, `Safe.close`: the operations keep `Safe`;
- `Safe.held_open`, `Safe.current_open`: a resource is open for its users during the grace period after they took it, and
  as long as it is the current one;
- `close_perm`: closing loses no resource.
-/
import Mathlib.Data.List.Perm.Basic
import Mathlib.Data.List.Nodup

namespace GracePeriod

structure Pool (R : Type*) where
  now : ℕ
  current : R
  /-- replaced resources that are still open, and when they were replaced -/
  retired : List (R × ℕ)
  closed : List R
  taken : List (R × ℕ)
deriving Repr

namespace Pool

variable {R : Type*}

def open_ (r : R) : Pool R := { now := 0, current := r, retired := [], closed := [], taken := [] }

def tick (p : Pool R) : Pool R := { p with now := p.now + 1 }

def take (p : Pool R) : Pool R := { p with taken := (p.current, p.now) :: p.taken }

def replace (p : Pool R) (r : R) : Pool R := { p with current := r, retired := (p.current, p.now) :: p.retired }

/-- closes a replaced resource, if the grace period is over -/
def close [DecidableEq R] (grace : ℕ) (p : Pool R) (e : R × ℕ) : Pool R :=
  if e ∈ p.retired ∧ e.2 + grace ≤ p.now then { p with retired := p.retired.erase e, closed := e.1 :: p.closed } else p

/-- the resources that the pool has had -/
def all (p : Pool R) : List R := p.current :: p.retired.map Prod.fst ++ p.closed

/-- where a user's resource is: in its place, replaced since, or closed a grace period later -/
def Kept (grace : ℕ) (p : Pool R) (e : R × ℕ) : Prop :=
  e.1 = p.current ∨ (∃ t, (e.1, t) ∈ p.retired ∧ e.2 ≤ t) ∨ (e.1 ∈ p.closed ∧ e.2 + grace ≤ p.now)

structure Safe (grace : ℕ) (p : Pool R) : Prop where
  nodup : p.all.Nodup
  retired_le : ∀ e ∈ p.retired, e.2 ≤ p.now
  taken_le : ∀ e ∈ p.taken, e.2 ≤ p.now
  kept : ∀ e ∈ p.taken, p.Kept grace e

variable {grace : ℕ} {p : Pool R}

theorem open_safe (grace : ℕ) (r : R) : (open_ r).Safe grace :=
  ⟨List.nodup_singleton r, fun _ h => (nomatch h), fun _ h => (nomatch h), fun _ h => (nomatch h)⟩

@[simp] theorem open_all (r : R) : (open_ r).all = [r] := rfl

@[simp] theorem tick_all (p : Pool R) : p.tick.all = p.all := rfl

@[simp] theorem take_all (p : Pool R) : p.take.all = p.all := rfl

/-- closing loses no resource -/
theorem close_perm [DecidableEq R] (grace : ℕ) (p : Pool R) (e : R × ℕ) : (p.close grace e).all.Perm p.all := by
  unfold close
  split
  · rename_i hdue
    have hsplit : (p.retired.map Prod.fst).Perm (e.1 :: (p.retired.erase e).map Prod.fst) :=
      (List.perm_cons_erase hdue.1).map Prod.fst
    refine List.Perm.cons p.current ?_
    have hmiddle : ((p.retired.erase e).map Prod.fst ++ e.1 :: p.closed).Perm
        (e.1 :: (p.retired.erase e).map Prod.fst ++ p.closed) := List.perm_middle
    exact hmiddle.trans (hsplit.symm.append_right p.closed)
  · exact List.Perm.refl _

namespace Safe

theorem tick (h : p.Safe grace) : p.tick.Safe grace := by
  refine ⟨h.nodup, fun e he => Nat.le_succ_of_le (h.retired_le e he),
    fun e he => Nat.le_succ_of_le (h.taken_le e he), fun e he => ?_⟩
  rcases h.kept e he with hcurrent | hretired | ⟨hclosed, hdue⟩
  · exact .inl hcurrent
  · exact .inr (.inl hretired)
  · exact .inr (.inr ⟨hclosed, Nat.le_succ_of_le hdue⟩)

theorem take (h : p.Safe grace) : p.take.Safe grace := by
  refine ⟨h.nodup, h.retired_le, fun e he => ?_, fun e he => ?_⟩
  · rcases List.mem_cons.1 he with rfl | he
    · exact Nat.le_refl _
    · exact h.taken_le e he
  · rcases List.mem_cons.1 he with rfl | he
    · exact .inl rfl
    · exact h.kept e he

theorem replace (h : p.Safe grace) {r : R} (hr : r ∉ p.all) : (p.replace r).Safe grace := by
  refine ⟨List.nodup_cons.2 ⟨hr, h.nodup⟩, fun e he => ?_, h.taken_le, fun e he => ?_⟩
  · rcases List.mem_cons.1 he with rfl | he
    · exact Nat.le_refl _
    · exact h.retired_le e he
  · rcases h.kept e he with hcurrent | ⟨t, ht, hle⟩ | hclosed
    · refine .inr (.inl ⟨p.now, ?_, h.taken_le e he⟩)
      rw [hcurrent]
      exact List.mem_cons_self
    · exact .inr (.inl ⟨t, List.mem_cons_of_mem _ ht, hle⟩)
    · exact .inr (.inr hclosed)

theorem close [DecidableEq R] (h : p.Safe grace) (e : R × ℕ) : (p.close grace e).Safe grace := by
  have hnodup : (p.close grace e).all.Nodup := (close_perm grace p e).nodup_iff.2 h.nodup
  unfold Pool.close at hnodup ⊢
  split
  · rename_i hdue
    rw [if_pos hdue] at hnodup
    refine ⟨hnodup, fun x hx => h.retired_le x (List.mem_of_mem_erase hx), h.taken_le, fun x hx => ?_⟩
    rcases h.kept x hx with hcurrent | ⟨t, ht, hle⟩ | ⟨hclosed, hpast⟩
    · exact .inl hcurrent
    · by_cases hxe : (x.1, t) = e
      · subst hxe
        refine .inr (.inr ⟨List.mem_cons_self, ?_⟩)
        have hgrace : t + grace ≤ p.now := hdue.2
        show x.2 + grace ≤ p.now
        omega
      · exact .inr (.inl ⟨t, (List.mem_erase_of_ne hxe).2 ht, hle⟩)
    · exact .inr (.inr ⟨List.mem_cons_of_mem _ hclosed, hpast⟩)
  · exact h

theorem current_open (h : p.Safe grace) : p.current ∉ p.closed := by
  intro hclosed
  exact (List.nodup_cons.1 h.nodup).1 (List.mem_append.2 (.inr hclosed))

/-- **Grace.** Who took a resource less than a grace period ago finds it open. -/
theorem held_open (h : p.Safe grace) {r : R} {t : ℕ} (htaken : (r, t) ∈ p.taken) (hnow : p.now < t + grace) :
    r ∉ p.closed := by
  have hdisjoint : (p.retired.map Prod.fst).Disjoint p.closed :=
    List.disjoint_of_nodup_append (List.nodup_cons.1 h.nodup).2
  rcases h.kept _ htaken with hcurrent | ⟨t', hretired, -⟩ | ⟨-, hdue⟩
  · have hr : r = p.current := hcurrent
    rw [hr]
    exact h.current_open
  · exact hdisjoint (List.mem_map.2 ⟨_, hretired, rfl⟩)
  · have hpast : t + grace ≤ p.now := hdue
    omega

end Safe

end Pool

end GracePeriod
