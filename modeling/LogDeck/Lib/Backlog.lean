/-
A window over a stream. What arrives waits; the oldest that waits is shown after what is shown already; each of the two
parts is trimmed from the front only.

The window remembers what it has trimmed: `expired` from what was shown, `discarded` from what was waiting.

Results:
- `accounts_run`: what is expired, shown and waiting is a part of what arrived, in order, and nothing is lost or doubled;
- `history_run`: what has ever been shown only grows at its end;
- `run_expires`, `run_discards`, `run_presents`: many moves of one kind;
- `run_flush`: the moves of an update with a cap.
-/
import Mathlib.Data.List.Perm.Basic
import LogDeck.Lib.Machine

namespace Backlog

open Machine

variable {α : Type*}

structure Window (α : Type*) where
  expired : List α := []
  shown : List α := []
  waiting : List α := []
  discarded : List α := []
deriving DecidableEq

inductive Move (α : Type*) where
  | arrive (a : α)
  /-- the oldest that is shown goes -/
  | expire
  /-- the oldest that waits goes -/
  | discard
  /-- the oldest that waits is shown -/
  | present
deriving DecidableEq

namespace Window

def step (w : Window α) : Move α → Window α
  | .arrive a => { w with waiting := w.waiting ++ [a] }
  | .expire =>
    match w.shown with
    | [] => w
    | a :: rest => { w with expired := w.expired ++ [a], shown := rest }
  | .discard =>
    match w.waiting with
    | [] => w
    | a :: rest => { w with waiting := rest, discarded := w.discarded ++ [a] }
  | .present =>
    match w.waiting with
    | [] => w
    | a :: rest => { w with shown := w.shown ++ [a], waiting := rest }

/-- what has ever been shown -/
def history (w : Window α) : List α := w.expired ++ w.shown

end Window

/-- what arrives in a run -/
def arrivals (moves : List (Move α)) : List α :=
  moves.filterMap fun
    | .arrive a => some a
    | _ => none

/-- the parts of the window are what arrived, in order but for what was discarded, and each of it once -/
structure Accounts (w : Window α) (arrived : List α) : Prop where
  order : (w.history ++ w.waiting).Sublist arrived
  all : (w.expired ++ w.discarded ++ (w.shown ++ w.waiting)).Perm arrived

variable {w : Window α} {arrived : List α}

theorem Accounts.arrive (h : Accounts w arrived) (a : α) :
    Accounts { w with waiting := w.waiting ++ [a] } (arrived ++ [a]) where
  order := by
    rw [← List.append_assoc]
    exact h.order.append_right [a]
  all := by
    have hassoc : w.expired ++ w.discarded ++ (w.shown ++ (w.waiting ++ [a])) =
        w.expired ++ w.discarded ++ (w.shown ++ w.waiting) ++ [a] := by simp
    rw [hassoc]
    exact h.all.append_right [a]

theorem Accounts.expire (h : Accounts w arrived) {a : α} {rest : List α} (hshown : w.shown = a :: rest) :
    Accounts { w with expired := w.expired ++ [a], shown := rest } arrived where
  order := by
    have horder := h.order
    have hassoc : w.expired ++ [a] ++ rest ++ w.waiting = w.expired ++ a :: rest ++ w.waiting := by simp
    rw [Window.history, hshown] at horder
    rw [Window.history, hassoc]
    exact horder
  all := by
    have hnew : w.expired ++ [a] ++ w.discarded ++ (rest ++ w.waiting) =
        w.expired ++ a :: (w.discarded ++ (rest ++ w.waiting)) := by simp
    have hold : w.expired ++ w.discarded ++ (a :: rest ++ w.waiting) =
        w.expired ++ (w.discarded ++ a :: (rest ++ w.waiting)) := by simp
    have hall := h.all
    rw [hshown, hold] at hall
    rw [hnew]
    exact (List.Perm.append_left _ List.perm_middle.symm).trans hall

theorem Accounts.discard (h : Accounts w arrived) {a : α} {rest : List α} (hwaiting : w.waiting = a :: rest) :
    Accounts { w with waiting := rest, discarded := w.discarded ++ [a] } arrived where
  order := by
    have horder := h.order
    rw [hwaiting] at horder
    exact ((List.sublist_cons_self a rest).append_left _).trans horder
  all := by
    have hnew : w.expired ++ (w.discarded ++ [a]) ++ (w.shown ++ rest) =
        w.expired ++ (w.discarded ++ a :: (w.shown ++ rest)) := by simp
    have hold : w.expired ++ w.discarded ++ (w.shown ++ a :: rest) =
        w.expired ++ (w.discarded ++ (w.shown ++ a :: rest)) := List.append_assoc ..
    have hall := h.all
    rw [hwaiting, hold] at hall
    rw [hnew]
    exact (List.Perm.append_left _ (List.Perm.append_left _ List.perm_middle.symm)).trans hall

theorem Accounts.present (h : Accounts w arrived) {a : α} {rest : List α} (hwaiting : w.waiting = a :: rest) :
    Accounts { w with shown := w.shown ++ [a], waiting := rest } arrived where
  order := by
    have horder := h.order
    have hassoc : w.expired ++ (w.shown ++ [a]) ++ rest = w.expired ++ w.shown ++ a :: rest := by simp
    rw [Window.history, hwaiting] at horder
    rw [Window.history, hassoc]
    exact horder
  all := by
    have hassoc : w.shown ++ [a] ++ rest = w.shown ++ a :: rest := by simp
    have hall := h.all
    rw [hwaiting] at hall
    rw [hassoc]
    exact hall

/-- every move keeps the account -/
theorem accounts_step (h : Accounts w arrived) (m : Move α) : Accounts (w.step m) (arrived ++ arrivals [m]) := by
  cases m with
  | arrive a => exact h.arrive a
  | expire =>
    have hnone : arrived ++ arrivals [Move.expire] = arrived := List.append_nil _
    rw [hnone, Window.step]
    cases hshown : w.shown with
    | nil => exact h
    | cons a rest => exact h.expire hshown
  | discard =>
    have hnone : arrived ++ arrivals [Move.discard] = arrived := List.append_nil _
    rw [hnone, Window.step]
    cases hwaiting : w.waiting with
    | nil => exact h
    | cons a rest => exact h.discard hwaiting
  | present =>
    have hnone : arrived ++ arrivals [Move.present] = arrived := List.append_nil _
    rw [hnone, Window.step]
    cases hwaiting : w.waiting with
    | nil => exact h
    | cons a rest => exact h.present hwaiting

theorem arrivals_append (ms ms' : List (Move α)) : arrivals (ms ++ ms') = arrivals ms ++ arrivals ms' :=
  List.filterMap_append

theorem run_append (ms ms' : List (Move α)) : run Window.step w (ms ++ ms') = run Window.step (run Window.step w ms) ms' :=
  List.foldl_append

/-- **Conservation.** -/
theorem accounts_run (h : Accounts w arrived) (moves : List (Move α)) :
    Accounts (run Window.step w moves) (arrived ++ arrivals moves) := by
  induction moves generalizing w arrived with
  | nil => rwa [show arrivals ([] : List (Move α)) = [] from rfl, List.append_nil]
  | cons m ms ih =>
    have hsplit : arrivals (m :: ms) = arrivals [m] ++ arrivals ms := arrivals_append [m] ms
    rw [hsplit, ← List.append_assoc]
    exact ih (accounts_step h m)

theorem accounts_empty : Accounts ({} : Window α) [] := ⟨List.Sublist.refl _, List.Perm.refl _⟩

theorem Accounts.count (h : Accounts w arrived) :
    w.expired.length + w.discarded.length + (w.shown.length + w.waiting.length) = arrived.length := by
  rw [← h.all.length_eq, List.length_append, List.length_append, List.length_append]

/-- what is shown, and then what waits -/
theorem Accounts.held (h : Accounts w arrived) : (w.shown ++ w.waiting).Sublist arrived := by
  refine List.Sublist.trans ?_ h.order
  unfold Window.history
  rw [List.append_assoc]
  exact List.sublist_append_right _ _

/-! ## What has been shown -/

theorem history_step (w : Window α) (m : Move α) : w.history <+: (w.step m).history := by
  unfold Window.step Window.history
  cases m with
  | arrive a => exact List.prefix_rfl
  | expire =>
    cases hshown : w.shown with
    | nil => simp [hshown]
    | cons a rest => simp
  | discard => cases w.waiting <;> exact List.prefix_rfl
  | present =>
    cases w.waiting with
    | nil => exact List.prefix_rfl
    | cons a rest =>
      dsimp only
      rw [← List.append_assoc]
      exact List.prefix_append _ _

theorem history_run (w : Window α) (moves : List (Move α)) : w.history <+: (run Window.step w moves).history := by
  induction moves generalizing w with
  | nil => exact List.prefix_rfl
  | cons m ms ih => exact (history_step w m).trans (ih _)

theorem expired_step (w : Window α) (m : Move α) : w.expired <+: (w.step m).expired := by
  unfold Window.step
  cases m with
  | arrive a => exact List.prefix_rfl
  | expire =>
    cases w.shown with
    | nil => exact List.prefix_rfl
    | cons a rest => exact List.prefix_append _ _
  | discard => cases w.waiting <;> exact List.prefix_rfl
  | present => cases w.waiting <;> exact List.prefix_rfl

theorem expired_run (w : Window α) (moves : List (Move α)) : w.expired <+: (run Window.step w moves).expired := by
  induction moves generalizing w with
  | nil => exact List.prefix_rfl
  | cons m ms ih => exact (expired_step w m).trans (ih _)

/-! ## Many moves -/

theorem run_expires {n : ℕ} (hn : n ≤ w.shown.length) : run Window.step w (List.replicate n .expire) =
    { w with expired := w.expired ++ w.shown.take n, shown := w.shown.drop n } := by
  induction n generalizing w with
  | zero => simp [run]
  | succ n ih =>
    obtain ⟨a, rest, hshown⟩ := List.exists_cons_of_length_pos (Nat.lt_of_lt_of_le (Nat.succ_pos n) hn)
    have hstep : w.step .expire = { w with expired := w.expired ++ [a], shown := rest } := by
      simp only [Window.step, hshown]
    rw [hshown, List.length_cons] at hn
    have hrest := @ih { w with expired := w.expired ++ [a], shown := rest } (Nat.le_of_succ_le_succ hn)
    rw [List.replicate_succ]
    change run Window.step (w.step .expire) _ = _
    rw [hstep, hrest, hshown]
    simp

theorem run_discards {n : ℕ} (hn : n ≤ w.waiting.length) : run Window.step w (List.replicate n .discard) =
    { w with waiting := w.waiting.drop n, discarded := w.discarded ++ w.waiting.take n } := by
  induction n generalizing w with
  | zero => simp [run]
  | succ n ih =>
    obtain ⟨a, rest, hwaiting⟩ := List.exists_cons_of_length_pos (Nat.lt_of_lt_of_le (Nat.succ_pos n) hn)
    have hstep : w.step .discard = { w with waiting := rest, discarded := w.discarded ++ [a] } := by
      simp only [Window.step, hwaiting]
    rw [hwaiting, List.length_cons] at hn
    have hrest := @ih { w with waiting := rest, discarded := w.discarded ++ [a] } (Nat.le_of_succ_le_succ hn)
    rw [List.replicate_succ]
    change run Window.step (w.step .discard) _ = _
    rw [hstep, hrest, hwaiting]
    simp

theorem run_presents {n : ℕ} (hn : n ≤ w.waiting.length) : run Window.step w (List.replicate n .present) =
    { w with shown := w.shown ++ w.waiting.take n, waiting := w.waiting.drop n } := by
  induction n generalizing w with
  | zero => simp [run]
  | succ n ih =>
    obtain ⟨a, rest, hwaiting⟩ := List.exists_cons_of_length_pos (Nat.lt_of_lt_of_le (Nat.succ_pos n) hn)
    have hstep : w.step .present = { w with shown := w.shown ++ [a], waiting := rest } := by
      simp only [Window.step, hwaiting]
    rw [hwaiting, List.length_cons] at hn
    have hrest := @ih { w with shown := w.shown ++ [a], waiting := rest } (Nat.le_of_succ_le_succ hn)
    rw [List.replicate_succ]
    change run Window.step (w.step .present) _ = _
    rw [hstep, hrest, hwaiting]
    simp

/-- the moves of an update: `k` go from the front of what is shown followed by the first `n` that wait, and the rest of
these are shown -/
def flush (shown n k : ℕ) : List (Move α) :=
  List.replicate (min shown k) .expire ++ List.replicate (k - min shown k) .discard ++
    List.replicate (n - (k - min shown k)) .present

theorem arrivals_flush (shown n k : ℕ) : arrivals (flush shown n k : List (Move α)) = [] := by
  unfold arrivals flush
  simp

/-- **An update with a cap.** -/
theorem run_flush {fresh rest : List α} (hwaiting : w.waiting = fresh ++ rest) {k : ℕ}
    (hk : k ≤ w.shown.length + fresh.length) :
    run Window.step w (flush w.shown.length fresh.length k) =
      { expired := w.expired ++ w.shown.take k
        shown := (w.shown ++ fresh).drop k
        waiting := rest
        discarded := w.discarded ++ fresh.take (k - w.shown.length) } := by
  have hmin : k - min w.shown.length k = k - w.shown.length := by omega
  have htake : w.shown.take (min w.shown.length k) = w.shown.take k := by
    rcases Nat.le_total w.shown.length k with h | h
    · rw [Nat.min_eq_left h, List.take_length, List.take_of_length_le h]
    · rw [Nat.min_eq_right h]
  have hdrop : w.shown.drop (min w.shown.length k) = w.shown.drop k := by
    rcases Nat.le_total w.shown.length k with h | h
    · rw [Nat.min_eq_left h, List.drop_length, List.drop_eq_nil_of_le h]
    · rw [Nat.min_eq_right h]
  have hj : k - w.shown.length ≤ fresh.length := by omega
  unfold flush
  rw [hmin, run_append, run_append, run_expires (Nat.min_le_left _ _), htake, hdrop,
    run_discards (by dsimp only; rw [hwaiting, List.length_append]; omega),
    run_presents (by dsimp only; rw [hwaiting, List.length_drop, List.length_append]; omega)]
  dsimp only
  rw [hwaiting, List.take_append_of_le_length hj, List.drop_append_of_le_length hj,
    List.take_left' (List.length_drop ..), List.drop_left' (List.length_drop ..), List.drop_append]

end Backlog
