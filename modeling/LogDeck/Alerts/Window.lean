/-
The sliding match window of one (rule, host, container) key (`alerts/window.go`).

The times of the last matches are kept in a ring. A window trips when the ring is full and its matches are no further
apart than the window; a trip inside the cooldown of the last alert is counted, one outside it fires and gives the count
away.

Two windows are `Alike` from a time on when what is observed from then on tells them apart by the suppressed count at
most: the ring of the one ends in the ring of the other, and what comes before is further back than the window.

Results:
- `observe_alike`: alike windows fire together, and stay alike;
- `alike_forgotten`: a window that was idle for longer than its window and its cooldown is like a new one;
- `forgotten_iff`: when such a window and a new one make the same of the matches that follow.
-/
import LogDeck.Lib.RingBuffer
import Mathlib.Data.List.Infix
import Mathlib.Tactic.Linarith

namespace LogDeck.Alerts

structure RuleWindow where
  threshold : ℕ
  window : ℤ
  cooldown : ℤ
  /-- `times`, `head` and `count` -/
  ring : RingBuffer ℤ
  fired : Bool
  lastFired : ℤ
  suppressed : ℕ
  lastSeen : ℤ
deriving DecidableEq, Repr

def newRuleWindow (threshold : ℕ) (window cooldown : ℤ) : RuleWindow :=
  { threshold := threshold
    window := window
    cooldown := cooldown
    ring := RingBuffer.new threshold
    fired := false
    lastFired := 0
    suppressed := 0
    lastSeen := 0 }

namespace RuleWindow

/-- one match; the result is the suppressed count of the alert, if it fires -/
def observe (w : RuleWindow) (now : ℤ) : RuleWindow × Option ℕ :=
  let ring := w.ring.push now
  let w := { w with lastSeen := now, ring := ring }
  if ring.count < w.threshold ∨ now - ring.front > w.window then (w, none)
  else if w.fired = true ∧ now - w.lastFired < w.cooldown then ({ w with suppressed := w.suppressed + 1 }, none)
  else
    ({ w with
       ring := { ring with head := 0, count := 0 }
       fired := true
       lastFired := now
       suppressed := 0 }, some w.suppressed)

def idleSince (w : RuleWindow) (now : ℤ) : ℤ := now - w.lastSeen

/-- the ring has a slot for each match of the threshold -/
structure Sound (w : RuleWindow) : Prop where
  valid : w.ring.Valid
  size : w.ring.size = w.threshold

/-- nothing in the window is later than a time -/
structure Seen (time : ℤ) (w : RuleWindow) : Prop where
  ring : ∀ t ∈ w.ring.contents, t ≤ time
  fired : w.fired = true → w.lastFired ≤ time

/-- the matches in the ring after a match -/
def queue (w : RuleWindow) (now : ℤ) : List ℤ := RingBuffer.dropOldest w.threshold w.ring.contents now

/-- the matches are as many as the threshold, and no further apart than the window -/
def Trips (w : RuleWindow) (now : ℤ) : Prop :=
  (w.queue now).length = w.threshold ∧ now - (w.queue now).headD 0 ≤ w.window

/-- the last alert is less than the cooldown ago -/
def Cools (w : RuleWindow) (now : ℤ) : Prop := w.fired = true ∧ now - w.lastFired < w.cooldown

instance (w : RuleWindow) (now : ℤ) : Decidable (w.Trips now) := by unfold Trips; infer_instance

instance (w : RuleWindow) (now : ℤ) : Decidable (w.Cools now) := by unfold Cools; infer_instance

end RuleWindow

open RuleWindow

/-! ## Matches as a queue -/

theorem headD_contents {s : RingBuffer ℤ} (h : s.Valid) (hpos : 0 < s.count) : s.contents.headD 0 = s.front := by
  rw [RingBuffer.contents_dropFront h hpos]
  rfl

section
variable {w : RuleWindow}

theorem contents_push_eq (hw : w.Sound) (now : ℤ) : (w.ring.push now).contents = w.queue now := by
  rw [queue, ← hw.size]
  exact RingBuffer.contents_push hw.valid now

theorem length_queue_le (hw : w.Sound) (now : ℤ) : (w.queue now).length ≤ w.threshold := by
  rw [← contents_push_eq hw, RingBuffer.length_contents]
  exact (hw.valid.push now).count.trans (by rw [RingBuffer.size_push, hw.size])

theorem queue_ne_nil (w : RuleWindow) (now : ℤ) : w.queue now ≠ [] := by
  unfold queue RingBuffer.dropOldest
  split_ifs <;> simp

/-- **One match.** A window is as its queue is: it trips or not, and a trip is counted or fires. -/
theorem observe_eq (hw : w.Sound) (now : ℤ) :
    w.observe now =
      if w.Trips now then
        if w.Cools now then
          ({ w with lastSeen := now, ring := w.ring.push now, suppressed := w.suppressed + 1 }, none)
        else
          ({ w with
             lastSeen := now
             ring := { w.ring.push now with head := 0, count := 0 }
             fired := true
             lastFired := now
             suppressed := 0 }, some w.suppressed)
      else ({ w with lastSeen := now, ring := w.ring.push now }, none) := by
  have hlen : (w.ring.push now).count = (w.queue now).length := by
    rw [← contents_push_eq hw, RingBuffer.length_contents]
  have hfront : (w.ring.push now).front = (w.queue now).headD 0 := by
    rw [← contents_push_eq hw]
    refine (headD_contents (hw.valid.push now) ?_).symm
    rw [hlen]
    exact List.length_pos_iff.mpr (queue_ne_nil w now)
  have hle := length_queue_le hw now
  unfold observe
  by_cases htrip : w.Trips now
  · have hnot : ¬ ((w.ring.push now).count < w.threshold ∨ now - (w.ring.push now).front > w.window) := by
      obtain ⟨hfull, hclose⟩ := htrip
      rw [hlen, hfront]
      omega
    simp only [if_pos htrip, if_neg hnot]
    rfl
  · have hyes : (w.ring.push now).count < w.threshold ∨ now - (w.ring.push now).front > w.window := by
      rw [hlen, hfront]
      by_contra hno
      exact htrip ⟨by omega, by omega⟩
    simp only [if_neg htrip, if_pos hyes]

theorem mem_queue {t now : ℤ} (h : t ∈ w.queue now) : t ∈ w.ring.contents ∨ t = now := by
  unfold queue RingBuffer.dropOldest at h
  split_ifs at h
  · rcases List.mem_append.mp h with h | h
    · exact .inl (List.mem_of_mem_tail h)
    · exact .inr (List.mem_singleton.mp h)
  · rcases List.mem_append.mp h with h | h
    · exact .inl h
    · exact .inr (List.mem_singleton.mp h)

theorem contents_reset (s : RingBuffer ℤ) : ({ s with head := 0, count := 0 } : RingBuffer ℤ).contents = [] := rfl

theorem RuleWindow.Sound.observe (hw : w.Sound) (now : ℤ) : (w.observe now).1.Sound := by
  have hvalid := hw.valid.push now
  have hsize : (w.ring.push now).size = w.threshold := by rw [RingBuffer.size_push, hw.size]
  rw [observe_eq hw]
  split_ifs with htrip hcool
  · exact ⟨hvalid, hsize⟩
  · have hpos : 0 < (w.ring.push now).size := Nat.zero_lt_of_lt hvalid.head
    exact ⟨⟨hpos, Nat.zero_le _⟩, hsize⟩
  · exact ⟨hvalid, hsize⟩

theorem RuleWindow.Seen.observe {time now : ℤ} (h : Seen time w) (hw : w.Sound) (hnow : time ≤ now) :
    Seen now (w.observe now).1 := by
  have hring : ∀ t ∈ (w.ring.push now).contents, t ≤ now := by
    intro t ht
    rw [contents_push_eq hw] at ht
    rcases mem_queue ht with ht | rfl
    · exact (h.ring t ht).trans hnow
    · exact le_rfl
  rw [observe_eq hw]
  split_ifs with htrip hcool
  · exact ⟨hring, fun hf => (h.fired hf).trans hnow⟩
  · exact ⟨by rw [contents_reset]; nofun, fun _ => le_rfl⟩
  · exact ⟨hring, fun hf => (h.fired hf).trans hnow⟩

theorem observe_lastSeen (hw : w.Sound) (now : ℤ) : (w.observe now).1.lastSeen = now := by
  rw [observe_eq hw]
  split_ifs <;> rfl

/-- the parameters of a window stay as they are -/
theorem observe_params (w : RuleWindow) (now : ℤ) :
    (w.observe now).1.threshold = w.threshold ∧ (w.observe now).1.window = w.window ∧
      (w.observe now).1.cooldown = w.cooldown := by
  unfold RuleWindow.observe
  dsimp only
  split_ifs <;> exact ⟨rfl, rfl, rfl⟩

theorem newRuleWindow_sound {threshold : ℕ} (h : 1 ≤ threshold) (window cooldown : ℤ) :
    (newRuleWindow threshold window cooldown).Sound :=
  ⟨RingBuffer.valid_new h, RingBuffer.size_new _⟩

theorem newRuleWindow_seen (threshold : ℕ) (window cooldown time : ℤ) :
    Seen time (newRuleWindow threshold window cooldown) :=
  ⟨nofun, nofun⟩

end

/-! ## Windows that go on alike -/

/-- from a time on, v does as w does, with lost more suppressed trips to report -/
structure Alike (since : ℤ) (lost : ℕ) (w v : RuleWindow) : Prop where
  threshold : w.threshold = v.threshold
  window : w.window = v.window
  cooldown : w.cooldown = v.cooldown
  ring : ∃ old, v.ring.contents = old ++ w.ring.contents ∧ ∀ t ∈ old, t + v.window < since
  cools : (w.fired = v.fired ∧ w.lastFired = v.lastFired) ∨
    w.fired = false ∧ (v.fired = true → v.lastFired + v.cooldown ≤ since)
  suppressed : v.suppressed = w.suppressed + lost

section
variable {w v : RuleWindow} {since now : ℤ} {lost : ℕ}

theorem Alike.rfl : Alike since 0 w w where
  threshold := Eq.refl _
  window := Eq.refl _
  cooldown := Eq.refl _
  ring := ⟨[], Eq.refl _, nofun⟩
  cools := .inl ⟨Eq.refl _, Eq.refl _⟩
  suppressed := Eq.refl _

/-- the queues after a match: the one still ends in the other -/
theorem Alike.queue (h : Alike since lost w v) (hv : v.Sound) (hnow : since ≤ now) :
    ∃ old, v.queue now = old ++ w.queue now ∧ ∀ t ∈ old, t + v.window < now := by
  obtain ⟨old, hring, hold⟩ := h.ring
  have hlen : v.ring.contents.length ≤ v.threshold := by
    rw [RingBuffer.length_contents, ← hv.size]
    exact hv.valid.count
  have hsplit : v.ring.contents.length = old.length + w.ring.contents.length := by
    rw [hring, List.length_append]
  have hold' : ∀ t ∈ old, t + v.window < now := fun t ht => lt_of_lt_of_le (hold t ht) hnow
  unfold RuleWindow.queue RingBuffer.dropOldest
  rw [h.threshold]
  cases old with
  | nil =>
    rw [List.nil_append] at hring
    rw [hring]
    exact ⟨[], Eq.refl _, nofun⟩
  | cons t old =>
    have hroom : w.ring.contents.length ≠ v.threshold := by
      rw [List.length_cons] at hsplit
      omega
    rw [if_neg hroom, hring]
    by_cases hfull : (t :: old ++ w.ring.contents).length = v.threshold
    · rw [if_pos hfull]
      exact ⟨old, by simp, fun t' ht' => hold' t' (List.mem_cons_of_mem _ ht')⟩
    · rw [if_neg hfull]
      exact ⟨t :: old, by simp, hold'⟩

theorem Alike.trips (h : Alike since lost w v) (hv : v.Sound) (hnow : since ≤ now) :
    w.Trips now ↔ v.Trips now := by
  obtain ⟨old, hqueue, hold⟩ := h.queue hv hnow
  unfold Trips
  rw [hqueue, h.threshold, h.window]
  cases old with
  | nil => rw [List.nil_append]
  | cons t old =>
    -- an old match in front: the one ring is not full, the other not recent
    have hlong := length_queue_le hv now
    rw [hqueue] at hlong
    have hold := hold t List.mem_cons_self
    constructor
    · rintro ⟨hfull, -⟩
      simp only [List.cons_append, List.length_cons, List.length_append] at hlong
      omega
    · rintro ⟨-, hclose⟩
      simp only [List.cons_append, List.headD_cons] at hclose
      omega

theorem Alike.cools_iff (h : Alike since lost w v) (hnow : since ≤ now) : w.Cools now ↔ v.Cools now := by
  unfold Cools
  rw [h.cooldown]
  rcases h.cools with ⟨hfired, hlast⟩ | ⟨hnot, hover⟩
  · rw [hfired, hlast]
  · rw [hnot]
    constructor
    · rintro ⟨⟨⟩, -⟩
    · rintro ⟨hf, hlt⟩
      have hover := hover hf
      omega

/-- **Alike windows.** They fire together, the counts differ by what was lost, and nothing is lost after that. -/
theorem observe_alike (h : Alike since lost w v) (hw : w.Sound) (hv : v.Sound) (hnow : since ≤ now) :
    (v.observe now).2 = (w.observe now).2.map (· + lost) ∧
      Alike now (if (w.observe now).2.isSome then 0 else lost) (w.observe now).1 (v.observe now).1 := by
  have htrips := h.trips hv hnow
  have hcools := h.cools_iff hnow
  have hqueue := h.queue hv hnow
  rw [← contents_push_eq hw, ← contents_push_eq hv] at hqueue
  have hcools' : (w.fired = v.fired ∧ w.lastFired = v.lastFired) ∨
      w.fired = false ∧ (v.fired = true → v.lastFired + v.cooldown ≤ now) :=
    h.cools.imp_right fun hc => ⟨hc.1, fun hf => (hc.2 hf).trans hnow⟩
  rw [observe_eq hw, observe_eq hv]
  by_cases ht : w.Trips now
  · rw [if_pos ht, if_pos (htrips.mp ht)]
    by_cases hc : w.Cools now
    · rw [if_pos hc, if_pos (hcools.mp hc)]
      refine ⟨Eq.refl _, h.threshold, h.window, h.cooldown, hqueue, hcools', ?_⟩
      have hsup := h.suppressed
      simp only [Option.isSome_none, Bool.false_eq_true, if_false]
      omega
    · rw [if_neg hc, if_neg fun h' => hc (hcools.mpr h')]
      refine ⟨congrArg some h.suppressed, h.threshold, h.window, h.cooldown, ⟨[], Eq.refl _, nofun⟩,
        .inl ⟨Eq.refl _, Eq.refl _⟩, Eq.refl _⟩
  · rw [if_neg ht, if_neg fun h' => ht (htrips.mpr h')]
    exact ⟨Eq.refl _, h.threshold, h.window, h.cooldown, hqueue, hcools', h.suppressed⟩

/-- **Forgetting.** A window that has been idle for longer than its window and its cooldown is like a new one, up to
its suppressed count. -/
theorem alike_forgotten (hv : Seen v.lastSeen v) {ttl : ℤ} (hwindow : v.window ≤ ttl) (hcooldown : v.cooldown ≤ ttl)
    (hidle : ttl < v.idleSince now) :
    Alike now v.suppressed (newRuleWindow v.threshold v.window v.cooldown) v := by
  unfold idleSince at hidle
  refine ⟨Eq.refl _, Eq.refl _, Eq.refl _, ⟨v.ring.contents, ?_, ?_⟩, .inr ⟨Eq.refl _, ?_⟩, ?_⟩
  · have hnil : (newRuleWindow v.threshold v.window v.cooldown).ring.contents = [] := Eq.refl _
    rw [hnil, List.append_nil]
  · intro t ht
    have hseen := hv.ring t ht
    omega
  · intro hf
    have hlast := hv.fired hf
    omega
  · exact (Nat.zero_add _).symm

/-- what a window says to a list of matches -/
def observeAll : RuleWindow → List ℤ → List (Option ℕ)
  | _, [] => []
  | w, now :: later => (w.observe now).2 :: observeAll (w.observe now).1 later

/-- the first alert reports more -/
def addToFirst (lost : ℕ) : List (Option ℕ) → List (Option ℕ)
  | [] => []
  | none :: rs => none :: addToFirst lost rs
  | some k :: rs => some (k + lost) :: rs

theorem addToFirst_zero (rs : List (Option ℕ)) : addToFirst 0 rs = rs := by
  induction rs with
  | nil => exact Eq.refl _
  | cons r rs ih => cases r <;> simp [addToFirst, ih]

theorem addToFirst_eq_iff (rs : List (Option ℕ)) : addToFirst lost rs = rs ↔ lost = 0 ∨ ∀ r ∈ rs, r = none := by
  induction rs with
  | nil => simp [addToFirst]
  | cons r rs ih =>
    cases r with
    | none => simp [addToFirst, ih]
    | some k => simp [addToFirst]

/-- matches in order, none before a time -/
def InOrder : ℤ → List ℤ → Prop
  | _, [] => True
  | since, now :: later => since ≤ now ∧ InOrder now later

theorem observeAll_alike {ts : List ℤ} (h : Alike since lost w v) (hw : w.Sound) (hv : v.Sound)
    (hts : InOrder since ts) : observeAll v ts = addToFirst lost (observeAll w ts) := by
  induction ts generalizing since lost w v with
  | nil => exact Eq.refl _
  | cons now later ih =>
    obtain ⟨hnow, hlater⟩ := hts
    obtain ⟨hres, halike⟩ := observe_alike h hw hv hnow
    have ih := ih halike (hw.observe now) (hv.observe now) hlater
    rw [observeAll, observeAll, hres, ih]
    cases hfire : (w.observe now).2 with
    | none => simp [addToFirst]
    | some k => simp [addToFirst, addToFirst_zero]

/-- **What is forgotten.** After a window has been dropped for being idle, the matches that follow get the same answers
from a new one exactly when it had no suppressed trips or none of them fires. -/
theorem forgotten_iff {ts : List ℤ} (hv : v.Sound) (hseen : Seen v.lastSeen v) (hthreshold : 1 ≤ v.threshold)
    {ttl : ℤ} (hwindow : v.window ≤ ttl) (hcooldown : v.cooldown ≤ ttl) (hidle : ttl < v.idleSince now)
    (hts : InOrder now ts) :
    observeAll v ts = observeAll (newRuleWindow v.threshold v.window v.cooldown) ts ↔
      v.suppressed = 0 ∨ ∀ r ∈ observeAll (newRuleWindow v.threshold v.window v.cooldown) ts, r = none := by
  rw [observeAll_alike (alike_forgotten hseen hwindow hcooldown hidle) (newRuleWindow_sound hthreshold _ _) hv hts]
  exact addToFirst_eq_iff _

end

end LogDeck.Alerts
