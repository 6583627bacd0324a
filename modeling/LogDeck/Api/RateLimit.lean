/-
The login rate limiter (`api/ratelimit.go`: `allow`, `sweep`).

One fixed window for each key, which starts with the first request that no open window of the key holds. The sweep drops
expired entries, at most once in a window. Times are nanoseconds since the zero time, at which the first sweep counts as
made; the clock does not go back.

`serve` is `allow` without the sweep.

Results:
- `trace_allow`: the sweep changes no answer;
- `trace_serve_key`: without it, the answers to one key are those of a tally of its own requests;
- `limiter_sound`: both, and the bounds for a window and for an interval.
-/
import LogDeck.Lib.FixedWindow
import Mathlib.Algebra.Order.Group.Int

namespace LogDeck.RateLimit

open FixedWindow

/-! ## Model -/

structure WindowEntry where
  count : ℕ
  windowStart : ℤ
deriving DecidableEq, Repr

structure RateLimiter where
  limit : ℕ
  window : Int64
  entries : String → Option WindowEntry
  lastSweep : ℤ

def newRateLimiter (limit : ℕ) (window : Int64) : RateLimiter := ⟨limit, window, fun _ => none, 0⟩

/-- `t.Sub(u)`, at the nearest end of the range when 64 bits do not hold it -/
def sub (t u : ℤ) : ℤ := max Int64.minValue.toInt (min Int64.maxValue.toInt (t - u))

namespace RateLimiter

variable (rl : RateLimiter)

/-- a window from `start` on is over -/
def Expired (now start : ℤ) : Prop := rl.window.toInt ≤ sub now start

instance (now start : ℤ) : Decidable (rl.Expired now start) := inferInstanceAs (Decidable (_ ≤ _))

/-- drops expired entries, at most once per window -/
def sweep (now : ℤ) : RateLimiter :=
  if rl.Expired now rl.lastSweep then
    { rl with
      lastSweep := now
      entries := fun key => (rl.entries key).filter fun e => ¬ rl.Expired now e.windowStart }
  else rl

def setEntry (key : String) (e : WindowEntry) : RateLimiter :=
  { rl with entries := Function.update rl.entries key (some e) }

/-- what `allow` does after the sweep -/
def serve (now : ℤ) (key : String) : RateLimiter × Bool :=
  match rl.entries key with
  | none => (rl.setEntry key ⟨1, now⟩, true)
  | some e =>
    if rl.Expired now e.windowStart then (rl.setEntry key ⟨1, now⟩, true)
    else (rl.setEntry key { e with count := e.count + 1 }, e.count + 1 ≤ rl.limit)

/-- whether a key may make another request in its window -/
def allow (now : ℤ) (key : String) : RateLimiter × Bool := (rl.sweep now).serve now key

end RateLimiter

structure Request where
  key : String
  now : ℤ
deriving DecidableEq, Repr

/-- the requests with their answers -/
def trace (f : RateLimiter → ℤ → String → RateLimiter × Bool) : RateLimiter → List Request → List (Request × Bool)
  | _, [] => []
  | rl, r :: rs => (r, (f rl r.now r.key).2) :: trace f (f rl r.now r.key).1 rs

/-- the requests of one key, with their answers -/
def ofKey (key : String) (l : List (Request × Bool)) : List (Request × Bool) := l.filter fun x => x.1.key = key

variable {rl rl' : RateLimiter}

@[simp] theorem setEntry_self (key : String) (e : WindowEntry) : (rl.setEntry key e).entries key = some e :=
  Function.update_self _ _ _

theorem setEntry_other {key k : String} (hk : k ≠ key) (e : WindowEntry) :
    (rl.setEntry key e).entries k = rl.entries k := Function.update_of_ne hk _ _

/-! ## The sweep -/

theorem sub_mono {t t' : ℤ} (h : t ≤ t') (u : ℤ) : sub t u ≤ sub t' u := by
  unfold sub
  omega

/-- what is over stays over -/
theorem RateLimiter.Expired.later {now now' start : ℤ} (h : rl.Expired now start) (hle : now ≤ now') :
    rl.Expired now' start := le_trans h (sub_mono hle start)

/-- an entry that a sweep has kept, or may have dropped -/
def Stale (rl : RateLimiter) (now : ℤ) (kept e : Option WindowEntry) : Prop :=
  kept = e ∨ kept = none ∧ ∃ w, e = some w ∧ rl.Expired now w.windowStart

/-- a limiter that has been swept beside one that has not -/
structure Swept (now : ℤ) (rl rl' : RateLimiter) : Prop where
  limit : rl.limit = rl'.limit
  window : rl.window = rl'.window
  entries : ∀ key, Stale rl' now (rl.entries key) (rl'.entries key)

theorem Swept.later {now now' : ℤ} (h : Swept now rl rl') (hle : now ≤ now') : Swept now' rl rl' where
  limit := h.limit
  window := h.window
  entries key := by
    rcases h.entries key with e | ⟨e, w, he, hover⟩
    · exact Or.inl e
    · exact Or.inr ⟨e, w, he, hover.later hle⟩

theorem Swept.sweep {now : ℤ} (h : Swept now rl rl') : Swept now (rl.sweep now) rl' := by
  have hsame : ∀ start, rl.Expired now start ↔ rl'.Expired now start := fun start => by
    rw [RateLimiter.Expired, RateLimiter.Expired, h.window]
  unfold RateLimiter.sweep
  split_ifs
  · refine ⟨h.limit, h.window, fun key => ?_⟩
    rcases h.entries key with e | ⟨e, w, he, hover⟩
    · dsimp only
      rw [e]
      cases hw : rl'.entries key with
      | none => exact Or.inl rfl
      | some w =>
        rw [Option.filter_some]
        split_ifs with hkept
        · exact Or.inl rfl
        · refine Or.inr ⟨rfl, w, rfl, (hsame _).1 ?_⟩
          simpa using hkept
    · refine Or.inr ⟨?_, w, he, hover⟩
      dsimp only
      rw [e]
      rfl
  · exact h

/-- the entry of one key is set in both -/
theorem Swept.setEntry {now : ℤ} (h : Swept now rl rl') (key : String) (e : WindowEntry) :
    Swept now (rl.setEntry key e) (rl'.setEntry key e) where
  limit := h.limit
  window := h.window
  entries k := by
    by_cases hk : k = key
    · subst hk
      exact Or.inl ((setEntry_self k e).trans (setEntry_self k e).symm)
    · rw [setEntry_other hk, setEntry_other hk]
      exact h.entries k

/-- an entry that was dropped would have been started again -/
theorem Swept.serve {now : ℤ} (h : Swept now rl rl') (key : String) :
    (rl.serve now key).2 = (rl'.serve now key).2 ∧ Swept now (rl.serve now key).1 (rl'.serve now key).1 := by
  unfold RateLimiter.serve
  rcases h.entries key with e | ⟨e, w, he, hover⟩
  · rw [e]
    cases hw : rl'.entries key with
    | none => exact ⟨rfl, h.setEntry key _⟩
    | some w =>
      have hsame : rl.Expired now w.windowStart ↔ rl'.Expired now w.windowStart := by
        rw [RateLimiter.Expired, RateLimiter.Expired, h.window]
      dsimp only
      by_cases hover : rl'.Expired now w.windowStart
      · rw [if_pos hover, if_pos (hsame.2 hover)]
        exact ⟨rfl, h.setEntry key _⟩
      · rw [if_neg hover, if_neg (mt hsame.1 hover), h.limit]
        exact ⟨rfl, h.setEntry key _⟩
  · rw [e, he]
    dsimp only
    rw [if_pos hover]
    exact ⟨rfl, h.setEntry key _⟩

/-- **The sweep changes no answer.** -/
theorem trace_allow {now : ℤ} (h : Swept now rl rl') {requests : List Request}
    (hclock : (now :: requests.map fun r => r.now).Pairwise (· ≤ ·)) :
    trace RateLimiter.allow rl requests = trace RateLimiter.serve rl' requests := by
  induction requests generalizing now rl rl' with
  | nil => rfl
  | cons r rs ih =>
    obtain ⟨hfirst, hrest⟩ := List.pairwise_cons.1 hclock
    have hserved := (h.later (hfirst r.now List.mem_cons_self)).sweep.serve r.key
    rw [trace, trace, RateLimiter.allow, hserved.1, ih hserved.2 hrest]

/-! ## One key -/

/-- the tally of an entry -/
def WindowEntry.tally (e : WindowEntry) : Tally ℤ := ⟨e.count, e.windowStart⟩

/-- the windows of a limiter have started by now -/
def Started (rl : RateLimiter) (now : ℤ) : Prop := ∀ key, ∀ e ∈ rl.entries key, e.windowStart ≤ now

theorem expired_iff {now start : ℤ} (h : start ≤ now) : rl.Expired now start ↔ start + rl.window.toInt ≤ now := by
  have hlow := rl.window.le_toInt
  have hhigh := rl.window.toInt_lt
  have hmin : Int64.minValue.toInt = -2 ^ 63 := rfl
  have hmax : Int64.maxValue.toInt = 2 ^ 63 - 1 := rfl
  unfold RateLimiter.Expired sub
  rw [hmin, hmax]
  omega

theorem started_serve {now : ℤ} (h : Started rl now) (key : String) : Started (rl.serve now key).1 now := by
  have hset : ∀ e : WindowEntry, e.windowStart ≤ now → Started (rl.setEntry key e) now := by
    intro e he k e' he'
    by_cases hk : k = key
    · subst hk
      rw [setEntry_self] at he'
      obtain rfl := Option.some.inj he'
      exact he
    · rw [setEntry_other hk] at he'
      exact h k e' he'
  unfold RateLimiter.serve
  cases he : rl.entries key with
  | none => exact hset _ le_rfl
  | some e =>
    dsimp only
    split_ifs
    · exact hset _ le_rfl
    · exact hset _ (h key e he)

/-- a request of another key leaves the entry of a key -/
theorem serve_other {now : ℤ} {key k : String} (hk : k ≠ key) : (rl.serve now key).1.entries k = rl.entries k := by
  unfold RateLimiter.serve
  cases rl.entries key with
  | none => exact setEntry_other hk _
  | some e =>
    dsimp only
    split_ifs
    · exact setEntry_other hk _
    · exact setEntry_other hk _

theorem serve_config (now : ℤ) (key : String) :
    (rl.serve now key).1.limit = rl.limit ∧ (rl.serve now key).1.window = rl.window := by
  unfold RateLimiter.serve
  cases rl.entries key with
  | none => exact ⟨rfl, rfl⟩
  | some e =>
    dsimp only
    split_ifs
    · exact ⟨rfl, rfl⟩
    · exact ⟨rfl, rfl⟩

/-- a request of a key is counted by its tally -/
theorem serve_self {now : ℤ} (h : Started rl now) (key : String) :
    (((rl.serve now key).1.entries key).map WindowEntry.tally, (rl.serve now key).2) =
      Tally.next rl.limit rl.window.toInt ((rl.entries key).map WindowEntry.tally) now := by
  unfold RateLimiter.serve
  cases he : rl.entries key with
  | none =>
    dsimp only
    rw [setEntry_self]
    rfl
  | some e =>
    have hiff : rl.Expired now e.windowStart ↔ e.windowStart + rl.window.toInt ≤ now := expired_iff (h key e he)
    dsimp only [Tally.next, Option.map_some, WindowEntry.tally]
    by_cases hover : rl.Expired now e.windowStart
    · rw [if_pos hover, if_neg (not_lt.2 (hiff.1 hover)), setEntry_self]
      rfl
    · rw [if_neg hover, if_pos (not_le.1 (mt hiff.2 hover)), setEntry_self]
      rfl

/-- **One key.** Without the sweep, the answers to a key are those of a tally of its own requests. -/
theorem trace_serve_key {now : ℤ} (h : Started rl now) {requests : List Request}
    (hclock : (now :: requests.map fun r => r.now).Pairwise (· ≤ ·)) (key : String) :
    ofKey key (trace RateLimiter.serve rl requests) =
      Tally.answers (fun r : Request => r.now) rl.limit rl.window.toInt ((rl.entries key).map WindowEntry.tally)
        (requests.filter fun r => r.key = key) := by
  induction requests generalizing now rl with
  | nil => rfl
  | cons r rs ih =>
    obtain ⟨hfirst, hrest⟩ := List.pairwise_cons.1 hclock
    have hstarted : Started rl r.now := fun k e he => (h k e he).trans (hfirst r.now List.mem_cons_self)
    have hih := ih (started_serve hstarted r.key) hrest
    obtain ⟨hlimit, hwindow⟩ := serve_config r.now r.key
    rw [hlimit, hwindow] at hih
    unfold ofKey at hih ⊢
    rw [trace]
    by_cases hk : r.key = key
    · subst hk
      have hself := serve_self hstarted r.key
      rw [List.filter_cons_of_pos (by simp), List.filter_cons_of_pos (by simp), hih, Tally.answers, ← hself]
    · rw [List.filter_cons_of_neg (by simpa using hk), List.filter_cons_of_neg (by simpa using hk), hih,
        serve_other (Ne.symm hk)]

/-! ## The limiter -/

theorem swept_refl (rl : RateLimiter) (now : ℤ) : Swept now rl rl := ⟨rfl, rfl, fun _ => Or.inl rfl⟩

/-- the first request sets the clock -/
theorem clock_from {r : Request} {rs : List Request} (hclock : (r :: rs).Pairwise fun r r' => r.now ≤ r'.now) :
    (r.now :: (r :: rs).map fun r => r.now).Pairwise (· ≤ ·) := by
  rw [List.pairwise_cons, List.pairwise_map]
  refine ⟨fun t ht => ?_, hclock⟩
  obtain ⟨r', hr', rfl⟩ := List.mem_map.1 ht
  rcases List.mem_cons.1 hr' with rfl | hr'
  · exact le_rfl
  · exact (List.pairwise_cons.1 hclock).1 r' hr'

/-- the requests of a trace are those it is made for -/
theorem trace_fst (f : RateLimiter → ℤ → String → RateLimiter × Bool) (rl : RateLimiter) (requests : List Request) :
    (trace f rl requests).map Prod.fst = requests := by
  induction requests generalizing rl with
  | nil => rfl
  | cons r rs ih => rw [trace, List.map_cons, ih]

/-- the answers of a new limiter to a key -/
theorem trace_key (limit : ℕ) (window : Int64) {requests : List Request}
    (hclock : requests.Pairwise fun r r' => r.now ≤ r'.now) (key : String) :
    ofKey key (trace RateLimiter.allow (newRateLimiter limit window) requests) =
      Tally.answers (fun r : Request => r.now) limit window.toInt none (requests.filter fun r => r.key = key) := by
  cases requests with
  | nil => rfl
  | cons r rs =>
    have hfrom := clock_from hclock
    rw [trace_allow (swept_refl _ r.now) hfrom, trace_serve_key (fun _ _ he => by cases he) hfrom]
    rfl

/-- the requests of a key that are allowed -/
def allowed (x : Request × Bool) : Bool := x.2

/-- the windows of a key: each starts at its first request -/
def keyWindows (window : Int64) (l : List (Request × Bool)) : List (List (Request × Bool)) :=
  windows (fun x : Request × Bool => x.1.now) window.toInt l

/-- **The limiter.** With a limit of at least one, whatever the window, and a clock that does not go back: the sweep
changes no answer; each window of a key has at most `limit` allowed requests, and each half-open interval of one window
length at most twice as many; and the answers to one key do not depend on the requests of the others. -/
theorem limiter_sound (limit : ℕ) (window : Int64) (requests : List Request) (hlimit : 1 ≤ limit)
    (hclock : requests.Pairwise fun r r' => r.now ≤ r'.now) :
    let answers := trace RateLimiter.allow (newRateLimiter limit window)
    answers requests = trace RateLimiter.serve (newRateLimiter limit window) requests ∧
    ∀ key,
      (∀ g ∈ keyWindows window (ofKey key (answers requests)), g.countP allowed ≤ limit) ∧
      (∀ a, (ofKey key (answers requests)).countP (inInterval (fun x => x.1.now) window.toInt allowed a) ≤ 2 * limit) ∧
      ofKey key (answers requests) = answers (requests.filter fun r => r.key = key) := by
  intro answers
  refine ⟨?_, fun key => ?_⟩
  · cases requests with
    | nil => rfl
    | cons r rs => exact trace_allow (swept_refl _ r.now) (clock_from hclock)
  · have hkey := trace_key limit window hclock key
    have hwindows : ∀ g ∈ keyWindows window (ofKey key (answers requests)), g.countP allowed ≤ limit := by
      rw [hkey]
      exact Tally.count_window_le hlimit _
    refine ⟨hwindows, fun a => ?_, ?_⟩
    · have hflat : (keyWindows window (ofKey key (answers requests))).flatten = ofKey key (answers requests) :=
        HeadGroup.group_flatten _
      have hsorted : (ofKey key (answers requests)).Pairwise fun x x' => x.1.now ≤ x'.1.now := by
        have htimes : (requests.filter fun r => r.key = key).Pairwise fun r r' => r.now ≤ r'.now := hclock.filter _
        have hfst : (ofKey key (answers requests)).map Prod.fst = requests.filter fun r => r.key = key := by
          rw [hkey, Tally.answers_fst]
        rw [← hfst, List.pairwise_map] at htimes
        exact htimes
      have hgrouping : HeadGroup.IsGrouping (Holds (fun x : Request × Bool => x.1.now) window.toInt)
          (keyWindows window (ofKey key (answers requests))) := HeadGroup.group_isGrouping _
      rw [← hflat] at hsorted ⊢
      exact count_interval_le hgrouping hsorted hwindows a
    · have hfilter := trace_key limit window (hclock.filter fun r => r.key = key) key
      rw [List.filter_filter] at hfilter
      simp only [Bool.and_self] at hfilter
      rw [hkey, ← hfilter]
      -- every request left is one of the key
      refine List.filter_eq_self.2 fun x hx => ?_
      have hmem : x.1 ∈ requests.filter fun r => r.key = key := by
        rw [← trace_fst RateLimiter.allow (newRateLimiter limit window) (requests.filter fun r => r.key = key)]
        exact List.mem_map_of_mem hx
      exact (List.mem_filter.1 hmem).2

/-- two requests of one client and one of another, within a minute -/
theorem limiter_sound_two :
    trace RateLimiter.allow (newRateLimiter 1 60) [⟨"a", 1⟩, ⟨"b", 2⟩, ⟨"a", 3⟩] =
      trace RateLimiter.serve (newRateLimiter 1 60) [⟨"a", 1⟩, ⟨"b", 2⟩, ⟨"a", 3⟩] :=
  (limiter_sound 1 60 [⟨"a", 1⟩, ⟨"b", 2⟩, ⟨"a", 3⟩] le_rfl (by decide)).1

end LogDeck.RateLimit
