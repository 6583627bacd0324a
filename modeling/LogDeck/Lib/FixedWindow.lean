/-
Counting events in windows of a fixed width that start lazily: the first event opens a window, and so does every event
that is a width or more after the start of the open one. A tally admits the first events of each window, up to its limit.

Results:
- `count_window_le`: no window has more admitted events than the limit;
- `count_interval_le`: so no interval of one width has more than twice as many, wherever it starts.
-/
import LogDeck.Lib.HeadGroup
import Mathlib.Algebra.Order.Monoid.Defs

namespace FixedWindow

open HeadGroup

variable {α T : Type*} [Add T] [LinearOrder T]

/-- the window that `h` opens holds `e` -/
def Holds (time : α → T) (width : T) (h e : α) : Prop := time e < time h + width

instance (time : α → T) (width : T) : DecidableRel (Holds time width) := fun h e =>
  inferInstanceAs (Decidable (time e < time h + width))

def windows (time : α → T) (width : T) (l : List α) : List (List α) := group (Holds time width) l

/-! ## Intervals -/

section Interval

variable {time : α → T} {width : T} {p : α → Bool} {gs : List (List α)}

/-- the events of an interval of one width that p accepts -/
def inInterval (time : α → T) (width : T) (p : α → Bool) (a : T) (e : α) : Bool :=
  p e && decide (a ≤ time e ∧ time e < a + width)

theorem count_inInterval_le (a : T) (l : List α) : l.countP (inInterval time width p a) ≤ l.countP p := by
  apply List.countP_mono_left
  intro e _ he
  exact (Bool.and_eq_true_iff.1 he).1

theorem count_inInterval_eq_zero {a : T} {l : List α} (h : ∀ e ∈ l, time e < a ∨ a + width ≤ time e) :
    l.countP (inInterval time width p a) = 0 := by
  rw [List.countP_eq_zero]
  intro e he hin
  obtain ⟨hle, hlt⟩ := of_decide_eq_true (Bool.and_eq_true_iff.1 hin).2
  rcases h e he with hbefore | hafter
  · exact absurd hle (not_le.2 hbefore)
  · exact absurd hlt (not_lt.2 hafter)

/-- what follows a window is at least a width after its start -/
theorem width_le_of_later {h : α} {b : List α} (hg : IsGrouping (Holds time width) ((h :: b) :: gs))
    (hsorted : gs.flatten.Pairwise fun e e' => time e ≤ time e') : ∀ e ∈ gs.flatten, time h + width ≤ time e := by
  obtain ⟨-, hnext, hrest⟩ := isGrouping_cons.1 hg
  cases gs with
  | nil => simp
  | cons g gs =>
    cases g with
    | nil => exact absurd rfl (hrest.ne_nil [] List.mem_cons_self)
    | cons e' b' =>
      have hstart : time h + width ≤ time e' := not_lt.1 (hnext _ rfl e' rfl)
      rw [List.flatten_cons, List.cons_append, List.pairwise_cons] at hsorted
      intro e he
      rw [List.flatten_cons, List.cons_append] at he
      rcases List.mem_cons.1 he with rfl | he
      · exact hstart
      · exact hstart.trans (hsorted.1 e he)

/-- **Intervals.** An interval of one width meets at most two windows. -/
theorem count_interval_le [AddRightMono T] {limit : ℕ} (hg : IsGrouping (Holds time width) gs)
    (hsorted : gs.flatten.Pairwise fun e e' => time e ≤ time e') (hlimit : ∀ g ∈ gs, g.countP p ≤ limit) (a : T) :
    gs.flatten.countP (inInterval time width p a) ≤ 2 * limit := by
  -- from the first window that starts in the interval or after it, one window counts
  have hone : ∀ gs : List (List α), IsGrouping (Holds time width) gs →
      gs.flatten.Pairwise (fun e e' => time e ≤ time e') → (∀ g ∈ gs, g.countP p ≤ limit) →
      (∀ e ∈ gs.flatten.head?, a ≤ time e) → gs.flatten.countP (inInterval time width p a) ≤ limit := by
    intro gs hg hsorted hlimit hfirst
    cases gs with
    | nil => exact Nat.zero_le _
    | cons g gs =>
      cases g with
      | nil => exact absurd rfl (hg.ne_nil [] List.mem_cons_self)
      | cons h b =>
        have hstart : a ≤ time h := hfirst h rfl
        rw [List.flatten_cons] at hsorted ⊢
        have hlater := width_le_of_later hg (List.pairwise_append.1 hsorted).2.1
        have hnone : gs.flatten.countP (inInterval time width p a) = 0 :=
          count_inInterval_eq_zero fun e he => Or.inr ((add_le_add_left hstart width).trans (hlater e he))
        rw [List.countP_append, hnone, Nat.add_zero]
        exact (count_inInterval_le a _).trans (hlimit _ List.mem_cons_self)
  induction gs with
  | nil => exact Nat.zero_le _
  | cons g gs ih =>
    cases g with
    | nil => exact absurd rfl (hg.ne_nil [] List.mem_cons_self)
    | cons h b =>
      by_cases hstart : a ≤ time h
      · have hle := hone _ hg hsorted hlimit fun e he => by
          obtain rfl := Option.some.inj he
          exact hstart
        omega
      · have hrest := (isGrouping_cons.1 hg).2.2
        have hlimit' : ∀ g ∈ gs, g.countP p ≤ limit := fun g hmem => hlimit g (List.mem_cons_of_mem _ hmem)
        rw [List.flatten_cons] at hsorted ⊢
        have hsorted' := (List.pairwise_append.1 hsorted).2.1
        rw [List.countP_append]
        by_cases hnext : ∀ e ∈ gs.flatten.head?, a ≤ time e
        · have hle := hone gs hrest hsorted' hlimit' hnext
          have hfirst : (h :: b).countP (inInterval time width p a) ≤ limit :=
            (count_inInterval_le a _).trans (hlimit _ List.mem_cons_self)
          omega
        · -- the next window starts before the interval, so that this one is over by then
          have hover : ∀ e ∈ h :: b, time e < a := by
            intro e he
            push Not at hnext
            obtain ⟨e', he', hlt⟩ := hnext
            have hmem : e' ∈ gs.flatten := List.mem_of_mem_head? he'
            exact ((List.pairwise_append.1 hsorted).2.2 e he e' hmem).trans_lt hlt
          rw [count_inInterval_eq_zero fun e he => Or.inl (hover e he), Nat.zero_add]
          exact ih hrest hsorted' hlimit'

end Interval

/-! ## Tallies -/

/-- the events of the open window so far, and when it started -/
structure Tally (T : Type*) where
  count : ℕ
  start : T

namespace Tally

/-- counts an event, and answers whether it is admitted -/
def next (limit : ℕ) (width : T) (tally : Option (Tally T)) (now : T) : Option (Tally T) × Bool :=
  match tally with
  | none => (some ⟨1, now⟩, true)
  | some t => if now < t.start + width then (some ⟨t.count + 1, t.start⟩, t.count + 1 ≤ limit) else (some ⟨1, now⟩, true)

/-- the events with their answers -/
def answers (time : α → T) (limit : ℕ) (width : T) : Option (Tally T) → List α → List (α × Bool)
  | _, [] => []
  | tally, e :: es =>
    (e, (next limit width tally (time e)).2) :: answers time limit width (next limit width tally (time e)).1 es

variable {time : α → T} {limit : ℕ} {width : T}

@[simp] theorem answers_fst (tally : Option (Tally T)) (l : List α) :
    (answers time limit width tally l).map Prod.fst = l := by
  induction l generalizing tally with
  | nil => rfl
  | cons e es ih => rw [answers, List.map_cons, ih]

/-- the windows from the open one on, whose events have been counted -/
theorem count_close (hlimit : 1 ≤ limit) (es : List α) (h : α × Bool) (body : List (α × Bool)) {n : ℕ}
    (hn : n = (h :: body).length) (hcount : (h :: body).countP Prod.snd = min n limit) :
    ∀ g ∈ close (Holds (fun x : α × Bool => time x.1) width) h body
        (answers time limit width (some ⟨n, time h.1⟩) es), g.countP Prod.snd ≤ limit := by
  induction es generalizing h body n with
  | nil =>
    intro g hg
    obtain rfl := List.mem_singleton.1 hg
    omega
  | cons e es ih =>
    rw [answers, next, close]
    by_cases hin : time e < time h.1 + width
    · rw [if_pos hin, if_pos (by exact hin)]
      refine ih h (body ++ [(e, decide (n + 1 ≤ limit))]) (by simp [hn]) ?_
      rw [← List.cons_append, List.countP_append, hcount, List.countP_singleton]
      by_cases hle : n + 1 ≤ limit
      · have hone : (if decide (n + 1 ≤ limit) = true then 1 else 0) = 1 := if_pos (by simpa using hle)
        dsimp only
        omega
      · have hnone : (if decide (n + 1 ≤ limit) = true then 1 else 0) = 0 := if_neg (by simpa using hle)
        dsimp only
        omega
    · rw [if_neg hin, if_neg (by exact hin)]
      intro g hg
      rcases List.mem_cons.1 hg with rfl | hg
      · omega
      · exact ih (e, true) [] rfl (by simp [hlimit]) g hg

/-- **Windows.** No window has more admitted events than the limit. -/
theorem count_window_le (hlimit : 1 ≤ limit) (l : List α) :
    ∀ g ∈ windows (fun x : α × Bool => time x.1) width (answers time limit width none l), g.countP Prod.snd ≤ limit := by
  cases l with
  | nil => simp [answers, windows, group]
  | cons e es => exact count_close hlimit es (e, true) [] rfl (by simp [hlimit])

end Tally

end FixedWindow
