/-
What a sliding window with a cooldown is for, and that `ruleWindow.observe` does it (`alerts/window.go`).

The specification keeps no ring and no counter. A match is answered from all the matches before it and their answers,
the newest first (`answer`): since the last alert there have been as many matches as the threshold, this one included,
the last that many of them no further apart than the window, and the last alert is at least the cooldown ago. The alert
reports how many matches since the alert before it would have fired but for the cooldown.

`Represents`: the ring holds the newest matches since the last alert, as many as fit.

Results:
- `observe_represents`: one match, answered as specified;
- `observe_refines`: every list of matches, and the indices of the ring are in range after each of them.
-/
import LogDeck.Alerts.Window

namespace LogDeck.Alerts

/-! ## The specification -/

/-- a match and its answer: the suppressed count of its alert, if it fired -/
abbrev Answered := ℤ × Option ℕ

/-- the times of the matches since the last alert, newest first -/
def sinceFire (past : List Answered) : List ℤ := (past.takeWhile fun m => m.2.isNone).map Prod.fst

def lastFire (past : List Answered) : Option ℤ := (past.find? fun m => m.2.isSome).map Prod.fst

section
variable (threshold : ℕ) (window cooldown : ℤ)

/-- the newest of the matches is at most the window later than the threshold-th newest -/
def Close (times : List ℤ) : Prop :=
  threshold ≤ times.length ∧ times.headD 0 - times.getD (threshold - 1) 0 ≤ window

instance (times : List ℤ) : Decidable (Close threshold window times) := by unfold Close; infer_instance

/-- no alert has fired, or the cooldown has passed since -/
def Cooled (past : List Answered) (now : ℤ) : Prop := ∀ last ∈ lastFire past, cooldown ≤ now - last

instance (past : List Answered) (now : ℤ) : Decidable (Cooled cooldown past now) := by
  unfold Cooled; infer_instance

/-- a match of which nothing but the cooldown has kept an alert; the matches before it come after it in the list -/
def Suppressed (past : List Answered) (times : List ℤ) : Prop :=
  Close threshold window times ∧ ¬ Cooled cooldown past (times.headD 0)

instance (past : List Answered) (times : List ℤ) : Decidable (Suppressed threshold window cooldown past times) := by
  unfold Suppressed; infer_instance

/-- the matches since the last alert that were suppressed -/
def suppressedCount (past : List Answered) : ℕ :=
  (sinceFire past).tails.countP fun times => Suppressed threshold window cooldown past times

/-- the suppressed count of the alert of a match, if it fires -/
def answer (past : List Answered) (now : ℤ) : Option ℕ :=
  if Close threshold window (now :: sinceFire past) ∧ Cooled cooldown past now then
    some (suppressedCount threshold window cooldown past)
  else none

def answers (past : List Answered) : List ℤ → List (Option ℕ)
  | [] => []
  | now :: later =>
    answer threshold window cooldown past now ::
      answers ((now, answer threshold window cooldown past now) :: past) later

end

/-! ## The window -/

/-- a window after a list of matches -/
def observed (w : RuleWindow) (ts : List ℤ) : RuleWindow := ts.foldl (fun w now => (w.observe now).1) w

/-- the window is as the matches before it left it -/
structure Represents (past : List Answered) (w : RuleWindow) : Prop where
  ring : w.ring.contents = ((sinceFire past).take w.threshold).reverse
  fired : lastFire past = if w.fired then some w.lastFired else none
  suppressed : w.suppressed = suppressedCount w.threshold w.window w.cooldown past

section
variable {past : List Answered} {w : RuleWindow} {now : ℤ}

theorem sinceFire_none : sinceFire ((now, none) :: past) = now :: sinceFire past := rfl

theorem sinceFire_some (k : ℕ) : sinceFire ((now, some k) :: past) = [] := rfl

theorem lastFire_none : lastFire ((now, none) :: past) = lastFire past := rfl

theorem lastFire_some (k : ℕ) : lastFire ((now, some k) :: past) = some now := rfl

/-- a match that does not fire is counted if it was suppressed -/
theorem suppressedCount_none (threshold : ℕ) (window cooldown : ℤ) :
    suppressedCount threshold window cooldown ((now, none) :: past) =
      suppressedCount threshold window cooldown past +
        if Close threshold window (now :: sinceFire past) ∧ ¬ Cooled cooldown past now then 1 else 0 := by
  have hsame : ∀ times, Suppressed threshold window cooldown ((now, none) :: past) times ↔
      Suppressed threshold window cooldown past times := fun _ => Iff.rfl
  unfold suppressedCount
  rw [sinceFire_none, List.tails_cons, List.countP_cons]
  simp only [hsame, decide_eq_true_eq]
  rfl

theorem suppressedCount_some {threshold : ℕ} (h : 1 ≤ threshold) (window cooldown : ℤ) (k : ℕ) :
    suppressedCount threshold window cooldown ((now, some k) :: past) = 0 := by
  have hnone : ¬ Suppressed threshold window cooldown ((now, some k) :: past) [] := by
    intro hs
    have hlen := hs.1.1
    rw [List.length_nil] at hlen
    omega
  unfold suppressedCount
  have htails : (sinceFire ((now, some k) :: past)).tails = [[]] := rfl
  rw [htails, List.countP_cons, List.countP_nil, if_neg (by simpa using hnone)]

/-- the newest entries, after one more -/
theorem dropOldest_newest {n : ℕ} (h : 1 ≤ n) (l : List ℤ) (r : ℤ) :
    RingBuffer.dropOldest n (l.take n).reverse r = ((r :: l).take n).reverse := by
  obtain ⟨m, rfl⟩ : ∃ m, n = m + 1 := ⟨n - 1, by omega⟩
  unfold RingBuffer.dropOldest
  rw [List.take_succ_cons, List.reverse_cons, List.length_reverse, List.length_take]
  split_ifs with hfull
  · have hlast : (l.take (m + 1)).dropLast = l.take m := by
      rw [List.dropLast_eq_take, List.length_take, hfull, List.take_take]
      congr 1
      omega
    rw [← hlast, List.tail_reverse]
  · rw [List.take_of_length_le (by omega), List.take_of_length_le (by omega)]

theorem Represents.queue (h : Represents past w) (hpos : 1 ≤ w.threshold) (now : ℤ) :
    w.queue now = ((now :: sinceFire past).take w.threshold).reverse := by
  rw [RuleWindow.queue, h.ring, dropOldest_newest hpos]

/-- a full ring begins with the threshold-th newest match -/
theorem Represents.trips (h : Represents past w) (hpos : 1 ≤ w.threshold) :
    w.Trips now ↔ Close w.threshold w.window (now :: sinceFire past) := by
  unfold RuleWindow.Trips Close
  rw [h.queue hpos, List.length_reverse, List.length_take]
  have hfull : min w.threshold (now :: sinceFire past).length = w.threshold ↔
      w.threshold ≤ (now :: sinceFire past).length := min_eq_left_iff
  rw [hfull]
  refine and_congr_right fun hlen => ?_
  have hhead : ((now :: sinceFire past).take w.threshold).reverse.headD 0 =
      (now :: sinceFire past).getD (w.threshold - 1) 0 := by
    rw [List.headD_eq_head?_getD, List.head?_reverse, List.getLast?_eq_getElem?, List.length_take,
      Nat.min_eq_left hlen, List.getElem?_take_of_lt (by omega), List.getD_eq_getElem?_getD]
  rw [hhead]
  rfl

theorem Represents.cools (h : Represents past w) : w.Cools now ↔ ¬ Cooled w.cooldown past now := by
  unfold RuleWindow.Cools Cooled
  rw [h.fired]
  cases w.fired with
  | false => simp
  | true => simp

/-- **One match.** It is answered as specified, and the window represents the matches with it. -/
theorem observe_represents (h : Represents past w) (hw : w.Sound) (hpos : 1 ≤ w.threshold) (now : ℤ) :
    (w.observe now).2 = answer w.threshold w.window w.cooldown past now ∧
      Represents ((now, answer w.threshold w.window w.cooldown past now) :: past) (w.observe now).1 := by
  have hring : (w.ring.push now).contents = ((now :: sinceFire past).take w.threshold).reverse := by
    rw [contents_push_eq hw, h.queue hpos]
  have htrips : w.Trips now ↔ Close w.threshold w.window (now :: sinceFire past) := h.trips hpos
  have hcools : w.Cools now ↔ ¬ Cooled w.cooldown past now := h.cools
  rw [observe_eq hw]
  unfold answer
  by_cases ht : w.Trips now
  · have hclose := htrips.mp ht
    by_cases hc : w.Cools now
    · have hhot := hcools.mp hc
      rw [if_pos ht, if_pos hc, if_neg fun hf => hhot hf.2]
      refine ⟨rfl, hring, h.fired, ?_⟩
      rw [suppressedCount_none, if_pos ⟨hclose, hhot⟩, ← h.suppressed]
    · have hcold : Cooled w.cooldown past now := by
        by_contra hhot
        exact hc (hcools.mpr hhot)
      rw [if_pos ht, if_neg hc, if_pos ⟨hclose, hcold⟩]
      refine ⟨congrArg some h.suppressed, ?_, rfl, ?_⟩
      · rw [contents_reset, sinceFire_some, List.take_nil]
        rfl
      · rw [suppressedCount_some hpos]
  · have hfar : ¬ Close w.threshold w.window (now :: sinceFire past) := fun hclose => ht (htrips.mpr hclose)
    rw [if_neg ht, if_neg fun hf => hfar hf.1]
    refine ⟨rfl, hring, h.fired, ?_⟩
    rw [suppressedCount_none, if_neg fun hs => hfar hs.1, ← h.suppressed]
    rfl

theorem represents_new (threshold : ℕ) (window cooldown : ℤ) :
    Represents [] (newRuleWindow threshold window cooldown) := by
  have hcooled : ∀ times, ¬ Suppressed threshold window cooldown [] times := fun times hs => hs.2 nofun
  refine ⟨?_, rfl, ?_⟩
  · show [] = (List.take threshold []).reverse
    rw [List.take_nil]
    rfl
  · exact (List.countP_eq_zero.mpr fun times _ hs => hcooled times (of_decide_eq_true hs)).symm

/-- **Refinement.** From a new window on, every match is answered as specified, whatever the times of the matches; and
after each of them the indices of the ring are in range. -/
theorem observe_refines {threshold : ℕ} (h : 1 ≤ threshold) (window cooldown : ℤ) (ts : List ℤ) :
    observeAll (newRuleWindow threshold window cooldown) ts = answers threshold window cooldown [] ts ∧
      ∀ n, (observed (newRuleWindow threshold window cooldown) (ts.take n)).Sound := by
  have hnew := newRuleWindow_sound h window cooldown
  refine ⟨?_, fun n => ?_⟩
  · have hfrom : ∀ (ts : List ℤ) (past : List Answered) (w : RuleWindow), w.threshold = threshold →
        w.window = window → w.cooldown = cooldown → w.Sound → Represents past w →
        observeAll w ts = answers threshold window cooldown past ts := by
      intro ts
      induction ts with
      | nil => exact fun _ _ _ _ _ _ _ => rfl
      | cons now later ih =>
        intro past w ht hwin hcool hw hrep
        obtain ⟨hans, hrep'⟩ := observe_represents hrep hw (ht ▸ h) now
        obtain ⟨ht', hwin', hcool'⟩ := observe_params w now
        rw [ht, hwin, hcool] at hans hrep'
        rw [observeAll, answers, hans, ih _ _ (ht'.trans ht) (hwin'.trans hwin) (hcool'.trans hcool) (hw.observe now)
          hrep']
    exact hfrom ts [] _ rfl rfl rfl hnew (represents_new threshold window cooldown)
  · have hfold : ∀ (ts : List ℤ) (w : RuleWindow), w.Sound → (observed w ts).Sound := by
      intro ts
      induction ts with
      | nil => exact fun _ hw => hw
      | cons now later ih => exact fun w hw => ih _ (hw.observe now)
    exact hfold (ts.take n) _ hnew

/-- two matches within 10 s fire, at most every 20 s: the match at 8 s is suppressed, and the next alert says so -/
theorem observe_refines_burst :
    observeAll (newRuleWindow 2 10 20) [0, 5, 6, 8, 25, 26] = [none, some 0, none, none, none, some 1] := by
  rw [(observe_refines (by decide : 1 ≤ 2) 10 20 [0, 5, 6, 8, 25, 26]).1]
  decide

end

end LogDeck.Alerts
