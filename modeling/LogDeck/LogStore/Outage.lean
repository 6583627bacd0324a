/-
Holes in the stored timeline: the store's pipeline together with the tails of its hub subscription and with containers
that stop and start again under the same id (`store.go`: `start`; `logstream/tail.go`; `logstream/logstream.go`;
`sync.go`).

A tail delivers what is logged after it attached. What is logged while none is attached reaches the store only through
a backfill, and a generation is read once, or again after a drop the store saw itself. Nothing is dropped here, by the
sink or by the ring of the subscription before it, no commit fails and the process does not restart (`Allowed`), so after
its backfill a generation is never read again (`Settled`).

`NoHole`: when the queues have drained, no backfill is in flight and the schedule would start none, a line of the engine
at or below a stored line of its stream is stored. Generations that were purged, evicted or excluded are exempt.
`Good`: a step at which no line is left behind for good:
- a settled generation is handed no line at or above a missing one of its stream, and misses none at or below a received
  one;
- a backfill resumes at or below every missing line of its generation;
- when a backfill completes, what was logged unseen since it resumed is above all that was received of its stream;
- when the last attempt fails, so is every missing line.

Results:
- `step_inv`: in a settled generation every missing line stays above all that was received of its stream;
- `no_hole`: in a run of good steps the stored timelines have no hole;
- `restart_leaves_hole`: a container restarts, logs a line before its tail is attached again and one after.
-/
import LogDeck.LogStore.Pipeline
import LogDeck.Lib.Machine
import LogDeck.Logstream.Tail

namespace LogDeck.Outage

open LogDeck.LogStore LogDeck.Convergence LogDeck.Pipeline LogDeck.Pipeline.Sys LogDeck.Logstream Machine

/-! ## Model -/

/-- `mark`: how many lines the engine held when the last backfill computed its since -/
structure World where
  sys : Sys
  running : GenKey → Bool
  tails : Tails GenKey
  mark : GenKey → ℕ
  exempt : List GenKey

inductive Act where
  | containerStart (key : GenKey)
  | containerStop (key : GenKey)
  | log (r : Record)
  | tail (t : TailAct GenKey)
  | proc (a : Pipeline.Act)
deriving DecidableEq, Repr

/-- nothing is dropped and no commit fails; lines are logged by `Act.log` -/
def Allowed (s : Sys) : Pipeline.Act → Prop
  | .emit _ _ => False
  | .deliver => s.queue.length < ingestBuffer
  | .flush _ ok => ok = true
  | _ => True

instance (s : Sys) (a : Pipeline.Act) : Decidable (Allowed s a) := by
  cases a <;> (unfold Allowed; infer_instance)

/-- the length of the engine's log when a backfill of the generation computes its since -/
def marks (s : Sys) (mark : GenKey → ℕ) : Pipeline.Act → GenKey → ℕ
  | .resolve key' true, key =>
    match s.tasks key with
    | some ⟨_, .waiting⟩ => if key' = key then (s.engine key).length else mark key
    | _ => mark key
  | _, key => mark key

/-- the generation the sync loop excludes -/
def excludes (s : Sys) : Pipeline.Act → List GenKey
  | .handle key =>
    match s.tasks key with
    | some ⟨_, .excluded⟩ => [key]
    | _ => []
  | _ => []

namespace World

def init : World := ⟨.init, fun _ => false, fun _ => none, fun _ => 0, []⟩

def step (w : World) : Act → World
  | .containerStart key => { w with running := Function.update w.running key true }
  | .containerStop key =>
    { w with running := Function.update w.running key false, tails := w.tails.containerStop key }
  | .log r => if w.running r.key then { w with sys := w.sys.step (.emit r (w.tails.isAttached r.key)) } else w
  | .tail t => { w with tails := w.tails.act t }
  | .proc a =>
    if Allowed w.sys a then
      { w with sys := w.sys.step a, mark := marks w.sys w.mark a
               exempt := w.exempt ++ removes w.sys a ++ excludes w.sys a }
    else w

end World

def NoHole (w : World) : Prop :=
  ∀ key, key ∉ w.exempt → isExcluded w.sys.store.db key = false →
    w.sys.hub = [] ∧ w.sys.queue = [] ∧ w.sys.batch = [] → w.sys.tasks key = none →
    (w.sys.track.schedule (gapAt w.sys.gaps key) key false).2 = false →
    ∀ l ∈ w.sys.engine key, (∃ t ∈ Stored w.sys.store.db, t.1 = key ∧ t.2.2.1 = l.stream ∧ l.tsNS ≤ t.2.1) →
      (key, l.ident) ∈ Stored w.sys.store.db

/-! ## Safe steps -/

/-- what the store has or is going to get without reading the engine: stored, in the queues or in the hub -/
def Received (s : Sys) : Set Tuple := s.kept ∪ {t | ∃ r ∈ s.hub, (r.key, r.line.ident) = t}

def Missing (s : Sys) (key : GenKey) (l : Line) : Prop := l ∈ s.engine key ∧ (key, l.ident) ∉ Received s

/-- newer than all that was received of its stream -/
def Above (s : Sys) (key : GenKey) (l : Line) : Prop :=
  ∀ t ∈ Received s, t.1 = key → t.2.2.1 = l.stream → t.2.1 < l.tsNS

/-- the generation has been read, or has spent its attempts -/
def Settled (s : Sys) (key : GenKey) : Prop := s.track.done key = true ∨ maxBackfillAttempts ≤ s.track.attempts key

instance (s : Sys) (key : GenKey) : Decidable (Settled s key) := by unfold Settled; infer_instance

/-- a line logged by a settled generation: a tail that delivers it has missed none at or below it, and without a tail
it is newer than what was received -/
def LogSafe (s : Sys) (r : Record) (attached : Bool) : Prop :=
  if attached then
    ∀ l, Missing s r.key l → l.stream = r.line.stream → l.ident ≠ r.line.ident → r.line.tsNS < l.tsNS
  else (r.key, r.line.ident) ∈ Received s ∨ Above s r.key r.line

/-- a backfill resumes at or below every missing line -/
def SinceSafe (s : Sys) (key : GenKey) : Prop :=
  ∀ info, s.tasks key = some ⟨info, .waiting⟩ →
    ∀ l, Missing s key l → backfillSince s.resume s.gaps s.store.db key info.created ≤ l.tsNS

/-- a backfill that completes, and the last one that fails, leave only lines behind that are newer than all that was
received -/
def SettleSafe (s : Sys) (key : GenKey) (mark : ℕ) : Prop :=
  (∀ info since began, s.tasks key = some ⟨info, .completed since began⟩ →
    ∀ l ∈ (s.engine key).drop mark, Missing s key l → Above s key l) ∧
  (∀ info, s.tasks key = some ⟨info, .failed⟩ → maxBackfillAttempts ≤ s.track.attempts key + 1 →
    ∀ l, Missing s key l → Above s key l)

def Good (w : World) : Act → Prop
  | .log r => Settled w.sys r.key → r.key ∉ w.exempt → LogSafe w.sys r (w.tails.isAttached r.key)
  | .proc (.resolve key true) => key ∉ w.exempt → SinceSafe w.sys key
  | .proc (.handle key) => key ∉ w.exempt → SettleSafe w.sys key (w.mark key)
  | _ => True

/-! ## What an action of the pipeline does -/

variable {s : Sys} {a : Pipeline.Act}

theorem stored_evict_subset (db : DB) (refs : List ℕ) (excess : ℤ) :
    Stored (evictOldest db refs excess).1 ⊆ Stored db := by
  intro t ht
  obtain ⟨r, hr, hrow, he⟩ := ht
  exact ⟨r, (List.mem_filter.1 hr).1, Attribution.hasRow_of_map hrow (evictRows_map _ (fun _ _ => rfl) _ _).symm, he⟩

theorem stored_purge_subset (st : Store) (host name : String) :
    Stored (st.deleteContainerStep host name true).db ⊆ Stored st.db := by
  intro t ht
  rw [deleteContainerStep_db] at ht
  obtain ⟨r, hr, ⟨c, hc, hrow⟩, he⟩ := ht
  exact ⟨r, (List.mem_filter.1 hr).1, ⟨c, (List.mem_filter.1 hc).1, hrow⟩, he⟩

theorem received_kept {s' : Sys} (hh : s'.hub ⊆ s.hub) (hk : s'.kept ⊆ s.kept) : Received s' ⊆ Received s := by
  intro t ht
  rcases ht with ht | ⟨r, hr, e⟩
  · exact Or.inl (hk ht)
  · exact Or.inr ⟨r, hh hr, e⟩

theorem received_deliver : Received s.deliver ⊆ Received s := by
  rcases deliver_cases s with e | ⟨r, rest, hhub, e⟩
  · rw [e]
  · have hr : (r.key, r.line.ident) ∈ Received s := Or.inr ⟨r, by rw [hhub]; exact List.mem_cons_self, rfl⟩
    have hrest : rest ⊆ s.hub := by
      rw [hhub]
      exact List.subset_cons_self r rest
    rw [e]
    rcases sink_cases { s with hub := rest } r with e | e
    · rw [e]
      intro t ht
      rcases ht with ht | ⟨r', hr', hid⟩
      · rcases kept_of_enqueue ht with ht | ⟨l, hl, hid⟩
        · exact Or.inl ht
        · obtain rfl := Payload.line.inj hl
          exact hid ▸ hr
      · exact Or.inr ⟨r', hrest hr', hid⟩
    · rw [e]
      exact received_kept hrest fun _ h => h

theorem received_take : Received s.take ⊆ Received s := by
  rcases take_cases s with e | ⟨m, rest, hq, e⟩
  · rw [e]
  · rw [e]
    refine received_kept (List.Subset.refl s.hub) fun t ht => ?_
    rcases ht with ht | ⟨m', hm', hl⟩
    · exact Or.inl ht
    · refine Or.inr ⟨m', ?_, hl⟩
      rwa [hq, ← List.singleton_append, ← List.append_assoc]

theorem received_flush (h : Consistent s.store) (nowMS : ℤ) (ok : Bool) : Received (s.flush nowMS ok) ⊆ Received s := by
  rcases flush_cases s nowMS ok with e | e | ⟨store, hc, e⟩
  · rw [e]
  · rw [e]
    refine received_kept (List.Subset.refl s.hub) fun t ht => ?_
    rcases ht with ht | ⟨m, hm, hl⟩
    · exact Or.inl ht
    · exact Or.inr ⟨m, List.mem_append_right _ hm, hl⟩
  · rw [e]
    refine received_kept (List.Subset.refl s.hub) fun t ht => ?_
    rcases ht with ht | ⟨m, hm, hl⟩
    · rw [(consistent_commit h hc).2] at ht
      rcases ht with ht | ⟨m, hm, hl⟩
      · exact Or.inl ht
      · exact Or.inr ⟨m, List.mem_append_left _ hm, hl⟩
    · exact Or.inr ⟨m, List.mem_append_right _ hm, hl⟩

/-- the store receives a line from a tail, or from a backfill that reads the generation -/
theorem received_back (h : Consistent s.store) {t : Tuple} (ht : t ∈ Received (s.act a)) :
    t ∈ Received s ∨ (∃ r, a = .emit r true ∧ (r.key, r.line.ident) = t) ∨
      ∃ task, a = .send t.1 ∧ s.tasks t.1 = some task := by
  cases a with
  | emit r attached =>
    rcases ht with ht | ⟨r', hr', e⟩
    · exact Or.inl (Or.inl ht)
    · simp only [act, emit] at hr'
      split_ifs at hr' with hat
      · rcases List.mem_append.1 hr' with hr' | hr'
        · exact Or.inl (Or.inr ⟨r', hr', e⟩)
        · obtain rfl := List.mem_singleton.1 hr'
          exact Or.inr (Or.inl ⟨r', by rw [hat], e⟩)
      · exact Or.inl (Or.inr ⟨r', hr', e⟩)
  | deliver => exact Or.inl (received_deliver ht)
  | take => exact Or.inl (received_take ht)
  | flush nowMS ok => exact Or.inl (received_flush h nowMS ok ht)
  | sync info nowMS =>
    rcases ht with (ht | ht) | ht
    · exact Or.inl (Or.inl (Or.inl (stored_upsertMeta h.toWellFormed (keyOf info) info nowMS ▸ ht)))
    · exact Or.inl (Or.inl (Or.inr ht))
    · exact Or.inl (Or.inr ht)
  | resolve key ok =>
    left
    rcases resolve_cases s key ok with e | ⟨info, -, e⟩
    · rwa [act, e] at ht
    · rwa [act, e] at ht
  | read key =>
    left
    rcases read_cases s key with e | ⟨info, since, -, e⟩
    · rwa [act, e] at ht
    · rwa [act, e] at ht
  | send key =>
    rcases send_cases s key with e | ⟨info, since, began, l, rest, htask, e⟩
    · rw [act, e] at ht
      exact Or.inl ht
    · rw [act, e] at ht
      rcases ht with ht | ht
      · rcases kept_of_enqueue (s := s) ht with ht | ⟨l', -, rfl⟩
        · exact Or.inl (Or.inl ht)
        · exact Or.inr (Or.inr ⟨_, rfl, htask⟩)
      · exact Or.inl (Or.inr ht)
  | endRead key how =>
    left
    rcases endRead_cases s key how with e | ⟨info, since, began, rest, reason, phase, -, -, e, -⟩
    · rwa [act, e] at ht
    · have hk : (s.enqueue (backfillMsg key info (.done reason))).kept ⊆ s.kept := kept_enqueue_done rfl
      rw [act, e] at ht
      rcases ht with ht | ht
      · exact Or.inl (hk ht)
      · exact Or.inr ht
  | handle key =>
    left
    rcases handle_cases s key with e | ⟨track, resume, gaps, e⟩
    · rwa [act, e] at ht
    · rwa [act, e] at ht
  | purge host name =>
    rcases ht with (ht | ht) | ht
    · exact Or.inl (Or.inl (Or.inl (stored_purge_subset s.store host name ht)))
    · exact Or.inl (Or.inl (Or.inr ht))
    · exact Or.inl (Or.inr ht)
  | purgeFails host name =>
    left
    rcases ht with ht | ht
    · exact Or.inl (purgeFails_kept s host name ▸ ht)
    · exact Or.inr ht
  | evict refs excess =>
    rcases ht with (ht | ht) | ht
    · exact Or.inl (Or.inl (Or.inl (stored_evict_subset s.store.db refs excess ht)))
    · exact Or.inl (Or.inl (Or.inr ht))
    · exact Or.inl (Or.inr ht)
  | stampRemoved key nowMS =>
    rcases ht with (ht | ht) | ht
    · exact Or.inl (Or.inl (Or.inl (stored_stampRemoved h.toWellFormed key nowMS ▸ ht)))
    · exact Or.inl (Or.inl (Or.inr ht))
    · exact Or.inl (Or.inr ht)

/-- without drops and failures there are no losses and no gaps -/
theorem lossless_act (h : Consistent s.store) (ha : Allowed s a) (hl : s.lost = []) (hg : s.gaps = fun _ => none) :
    (s.act a).lost = [] ∧ (s.act a).gaps = fun _ => none := by
  cases a with
  | emit r attached => exact absurd ha (fun h => h)
  | deliver =>
    have hroom : s.queue.length < ingestBuffer := ha
    simp only [act, deliver]
    split
    · exact ⟨hl, hg⟩
    · simp only [sink, if_pos hroom]
      exact ⟨hl, hg⟩
  | flush nowMS ok =>
    obtain rfl : ok = true := ha
    simp only [act, flush, if_true]
    split_ifs
    · exact ⟨hl, hg⟩
    · obtain ⟨store, hst, -⟩ := tryCommit_effect h s.batch nowMS
      rw [hst]
      exact ⟨hl, hg⟩
  | handle key =>
    refine ⟨((act_untouched s _).lost rfl).trans hl, ?_⟩
    simp only [act, handle]
    split
    · simp only [Tracker.complete]
      split_ifs
      · funext key'
        simp only [clearGap, hg]
        split_ifs
        · simp [Function.update_apply]
        · rfl
      · exact hg
    · exact hg
    · exact hg
    · exact hg
  | purge host name => exact ⟨by simp [act, purge, hl], by funext key; simp [act, purge, forget, hg]⟩
  | purgeFails host name => exact ⟨hl, by funext key; simp [act, purgeFails, forget, hg]⟩
  | evict refs excess => exact ⟨by simp [act, evict, hl], hg⟩
  | _ => exact ⟨((act_untouched s _).lost rfl).trans hl, ((act_untouched s _).gaps rfl).trans hg⟩

/-- without a gap the schedule only takes note of the backfill it starts -/
theorem schedule_eq (t : Tracker) (key : GenKey) (excluded : Bool) :
    t.schedule 0 key excluded =
      if t.eligible key excluded then ({ t with inFlight := Function.update t.inFlight key true }, true)
      else (t, false) := by
  simp [Tracker.schedule, Tracker.refresh]

/-- how a generation comes to be settled -/
theorem settled_act (hg : s.gaps = fun _ => none) {key : GenKey} (h : Settled (s.act a) key) :
    Settled s key ∨ a = .handle key ∧ ∃ info phase, s.tasks key = some ⟨info, phase⟩ ∧
      ((∃ since began, phase = .completed since began) ∨
        (phase = .failed ∧ maxBackfillAttempts ≤ s.track.attempts key + 1) ∨ phase = .excluded) := by
  cases ht : touches a .track with
  | false =>
    left
    simpa only [Settled, (act_untouched s a).track ht] using h
  | true =>
    cases a with
    | sync info nowMS =>
      left
      simp only [Settled, act, sync, gapAt, hg, Option.getD_none, schedule_eq] at h
      split_ifs at h <;> exact h
    | handle key' =>
      by_cases hk : key = key'
      · subst hk
        simp only [act, handle] at h
        split at h
        · rename_i info since began htask
          exact Or.inr ⟨rfl, info, _, htask, Or.inl ⟨since, began, rfl⟩⟩
        · rename_i info htask
          by_cases hs : Settled s key
          · exact Or.inl hs
          · refine Or.inr ⟨rfl, info, _, htask, Or.inr (Or.inl ⟨rfl, ?_⟩)⟩
            rcases h with h | h
            · exact absurd (Or.inl h) hs
            · simpa [Tracker.fail, Tracker.land] using h
        · rename_i info htask
          exact Or.inr ⟨rfl, info, _, htask, Or.inr (Or.inr rfl)⟩
        · exact Or.inl h
      · left
        simp only [act, handle] at h
        split at h
        · simpa [Settled, Tracker.land, hk] using h
        · simpa [Settled, Tracker.fail, Tracker.land, hk] using h
        · simpa [Settled, Tracker.exclude, Tracker.land, hk] using h
        · exact h
    | _ => cases ht

/-- the schedule knows which backfills are in flight, and a settled generation has none -/
structure Scheduled (s : Sys) : Prop where
  flight : ∀ key, s.track.inFlight key = true → s.tasks key ≠ none
  idle : ∀ key, Settled s key → s.tasks key = none

theorem flight_act (h : Scheduled s) (hg : s.gaps = fun _ => none) (key : GenKey)
    (hf : (s.act a).track.inFlight key = true) : (s.act a).tasks key ≠ none := by
  cases ht : touches a .track with
  | false =>
    rw [(act_untouched s a).track ht] at hf
    have hbefore := h.flight key hf
    have hstep := act_tasks s a key
    generalize (s.act a).tasks key = task at hstep ⊢
    cases hstep with
    | same => exact hbefore
    | handle => cases ht
    | _ => exact Option.some_ne_none _
  | true =>
    cases a with
    | sync info nowMS =>
      simp only [act, sync, gapAt, hg, Option.getD_none, schedule_eq] at hf ⊢
      split_ifs at hf ⊢ with he
      · by_cases hk : key = keyOf info
        · simp [hk]
        · simp only [Function.update_apply, if_neg hk] at hf ⊢
          exact h.flight key hf
      · simp_all
      · simp_all
      · exact h.flight key hf
    | handle key' =>
      by_cases hk : key = key'
      · subst hk
        rcases handle_self s key with ⟨-, hfree⟩ | e
        · exact absurd hf (by simp [act, hfree])
        · simp only [act, e] at hf ⊢
          exact h.flight key hf
      · obtain ⟨e1, e2⟩ := handle_other (s := s) hk
        simp only [act, e1, e2] at hf ⊢
        exact h.flight key hf
    | _ => cases ht

theorem idle_act (h : Scheduled s) (hg : s.gaps = fun _ => none) (key : GenKey) (hs : Settled (s.act a) key) :
    (s.act a).tasks key = none := by
  rcases settled_act hg hs with hold | ⟨rfl, info, phase, htask, hphase⟩
  · have hidle := h.idle key hold
    have hstep := act_tasks s a key
    generalize (s.act a).tasks key = task at hstep ⊢
    cases hstep with
    | same => exact hidle
    | sync info nowMS hk hstart =>
      -- a settled generation is not eligible
      obtain ⟨excluded, hstart⟩ := hstart
      rw [gapAt, hg, Option.getD_none, schedule_eq] at hstart
      split_ifs at hstart with he
      obtain ⟨-, -, hdone, hattempts⟩ := (Tracker.eligible_iff _ _ _).1 he
      rcases hold with hold | hold
      · rw [hdone] at hold
        cases hold
      · omega
    | handle => rfl
    | resolve info htask => rw [hidle] at htask; cases htask
    | read info since htask => rw [hidle] at htask; cases htask
    | send info since began l rest htask _ => rw [hidle] at htask; cases htask
    | completed info since began htask => rw [hidle] at htask; cases htask
    | unresolved info htask => rw [hidle] at htask; cases htask
    | failed how info since began rest _ _ htask => rw [hidle] at htask; cases htask
    | excluded how info since began rest _ _ htask => rw [hidle] at htask; cases htask
  · show (s.handle key).tasks key = none
    rcases hphase with ⟨since, began, rfl⟩ | ⟨rfl, -⟩ | rfl
    · simp [handle, htask]
    · simp [handle, htask]
    · simp [handle, htask]

theorem scheduled_act (h : Scheduled s) (hg : s.gaps = fun _ => none) : Scheduled (s.act a) :=
  ⟨flight_act h hg, idle_act h hg⟩

/-- without losses what was received stays received, or goes by design -/
theorem received_act (h : Consistent s.store) (hl : (s.act a).lost = []) {t : Tuple} (ht : t ∈ Received s)
    (hd : t.1 ∉ removes s a) : t ∈ Received (s.act a) := by
  have hnot : ¬ Dismissed s a t := fun h => hd (dismissed_removes h)
  rcases ht with hk | ⟨r, hr, rfl⟩
  · rcases (act_frame h a).kept t hk with hk | hdis | ⟨y, hy, -⟩
    · exact Or.inl hk
    · exact absurd hdis hnot
    · rw [hl] at hy
      cases hy
  · rcases act_hub a hr with hr | hk | ⟨y, hy, -⟩
    · exact Or.inr ⟨r, hr, rfl⟩
    · exact Or.inl hk
    · rw [hl] at hy
      cases hy

/-! ## The invariant -/

/-- what the pipeline knows of its missing lines: those of a settled generation are above all that was received, and a
backfill under way is going to read the others, unless they were logged since it resumed -/
structure Covered (s : Sys) (mark : GenKey → ℕ) (exempt : List GenKey) : Prop where
  settled : ∀ key, key ∉ exempt → Settled s key → ∀ l, Missing s key l → Above s key l
  resolved : ∀ key info since, key ∉ exempt → s.tasks key = some ⟨info, .resolved since⟩ →
    ∀ l, Missing s key l → since ≤ l.tsNS ∨ l ∈ (s.engine key).drop (mark key)
  reading : ∀ key since began rest, key ∉ exempt → s.Reads key since began rest →
    ∀ l, Missing s key l → l ∈ rest ∨ l ∈ (s.engine key).drop (mark key)

structure Inv (w : World) : Prop extends Scheduled w.sys, Covered w.sys w.mark w.exempt where
  store : Consistent w.sys.store
  lost : w.sys.lost = []
  gaps : w.sys.gaps = fun _ => none
  marks : ∀ key, w.mark key ≤ (w.sys.engine key).length

theorem inv_init : Inv .init where
  flight := fun key h => by cases h
  idle := fun _ _ => rfl
  settled := fun key _ h => by
    rcases h with h | h
    · cases h
    · exact absurd h (Nat.not_succ_le_zero 2)
  resolved := fun key info since _ h => by cases h
  reading := fun key since began rest _ h => by
    rcases h with ⟨info, h⟩ | ⟨-, info, h⟩
    · cases h
    · cases h
  store := consistent_init
  lost := rfl
  gaps := rfl
  marks := fun _ => Nat.zero_le _

theorem Inv.noHole {w : World} (h : Inv w) : NoHole w := by
  intro key hex _ ⟨hhub, hqueue, hbatch⟩ htask hsched l hl ⟨t, ht, ekey, estream, hle⟩
  have hsettled : Settled w.sys key := by
    rw [gapAt, h.gaps, Option.getD_none, schedule_eq] at hsched
    split_ifs at hsched with he
    by_contra hns
    simp only [Settled, not_or, not_le, Bool.not_eq_true] at hns
    have hfree : w.sys.track.inFlight key = false := by
      cases hf : w.sys.track.inFlight key with
      | false => rfl
      | true => exact absurd htask (h.flight key hf)
    exact he ((Tracker.eligible_iff _ _ _).2 ⟨rfl, hfree, hns.1, hns.2⟩)
  by_contra hnot
  have hmissing : Missing w.sys key l := by
    refine ⟨hl, fun hr => ?_⟩
    rcases hr with (hr | ⟨m, hm, -⟩) | ⟨r, hr, -⟩
    · exact hnot hr
    · rw [hqueue, hbatch] at hm
      cases hm
    · rw [hhub] at hr
      cases hr
  have := h.settled key hex hsettled l hmissing t (Or.inl (Or.inl ht)) ekey estream
  omega

/-! ## A line is logged -/

theorem mem_drop_append {α : Type} {l : List α} {n : ℕ} {x y : α} (hn : n ≤ l.length) :
    x ∈ (l ++ [y]).drop n ↔ x ∈ l.drop n ∨ x = y := by
  rw [List.drop_append_of_le_length hn, List.mem_append, List.mem_singleton]

section Log

variable {r : Record} {attached : Bool}

theorem received_emit : Received s ⊆ Received (s.act (.emit r attached)) := by
  intro t ht
  rcases ht with ht | ⟨r', hr', e⟩
  · exact Or.inl ht
  · refine Or.inr ⟨r', ?_, e⟩
    simp only [act, emit]
    split_ifs
    · exact List.mem_append_left _ hr'
    · exact hr'

theorem received_emit_iff {t : Tuple} :
    t ∈ Received (s.act (.emit r attached)) ↔ t ∈ Received s ∨ (attached = true ∧ (r.key, r.line.ident) = t) := by
  constructor
  · intro ht
    rcases ht with ht | ⟨r', hr', e⟩
    · exact Or.inl (Or.inl ht)
    · simp only [act, emit] at hr'
      split_ifs at hr' with hat
      · rcases List.mem_append.1 hr' with hr' | hr'
        · exact Or.inl (Or.inr ⟨r', hr', e⟩)
        · obtain rfl := List.mem_singleton.1 hr'
          exact Or.inr ⟨hat, e⟩
      · exact Or.inl (Or.inr ⟨r', hr', e⟩)
  · intro ht
    rcases ht with ht | ⟨rfl, e⟩
    · exact received_emit ht
    · exact Or.inr ⟨r, List.mem_append_right _ (List.mem_singleton_self r), e⟩

/-- a line that is missing now was missing before, or is the one that is logged -/
theorem missing_emit {key : GenKey} {l : Line} (h : Missing (s.act (.emit r attached)) key l) :
    Missing s key l ∨ (r.key = key ∧ r.line = l) := by
  have hnot : (key, l.ident) ∉ Received s := fun hr => h.2 (received_emit hr)
  rcases mem_engine_emit.1 h.1 with hl | hl
  · exact Or.inl ⟨hl, hnot⟩
  · exact Or.inr hl

theorem settled_emit {exempt : List GenKey} {mark : GenKey → ℕ} (h : Covered s mark exempt)
    (hg : Settled s r.key → r.key ∉ exempt → LogSafe s r attached) (key : GenKey) (hex : key ∉ exempt)
    (hs : Settled s key) (l : Line) (hm : Missing (s.act (.emit r attached)) key l) :
    Above (s.act (.emit r attached)) key l := by
  intro t ht ekey estream
  cases attached with
  | true =>
    -- what is delivered now is not missing
    have hne : (r.key, r.line.ident) ≠ (key, l.ident) := fun e => hm.2 (received_emit_iff.2 (Or.inr ⟨rfl, e⟩))
    rcases missing_emit hm with hm₀ | ⟨rfl, rfl⟩
    · rcases received_emit_iff.1 ht with ht | ⟨-, rfl⟩
      · exact h.settled key hex hs l hm₀ t ht ekey estream
      · subst ekey
        exact hg hs hex l hm₀ estream.symm fun e => hne (by rw [e])
    · exact absurd rfl hne
  | false =>
    rcases received_emit_iff.1 ht with ht | ⟨hf, -⟩
    · rcases missing_emit hm with hm₀ | ⟨rfl, rfl⟩
      · exact h.settled key hex hs l hm₀ t ht ekey estream
      · rcases hg hs hex with hr | ha
        · exact absurd (received_emit hr) hm.2
        · exact ha t ht ekey estream
    · cases hf

/-- a line that is logged while a backfill is under way was logged since it resumed -/
theorem drop_emit (attached : Bool) {mark : GenKey → ℕ} (hmark : ∀ key, mark key ≤ (s.engine key).length)
    {key : GenKey} {l : Line} :
    l ∈ ((s.act (.emit r attached)).engine key).drop (mark key) ↔
      l ∈ (s.engine key).drop (mark key) ∨ (r.key = key ∧ r.line = l) := by
  simp only [act, emit, Function.update_apply]
  split_ifs with hk
  · subst hk
    rw [mem_drop_append (hmark r.key), eq_comm (a := l)]
    simp
  · have hne : r.key ≠ key := fun e => hk e.symm
    simp [hne]

theorem covered_emit {exempt : List GenKey} {mark : GenKey → ℕ} (h : Covered s mark exempt)
    (hmark : ∀ key, mark key ≤ (s.engine key).length)
    (hg : Settled s r.key → r.key ∉ exempt → LogSafe s r attached) :
    Covered (s.step (.emit r attached)) mark exempt := by
  refine ⟨settled_emit h hg, fun key info since hex ht l hm => ?_, fun key since began rest hex hr l hm => ?_⟩
  · rcases missing_emit hm with hm | hnew
    · exact (h.resolved key info since hex ht l hm).imp_right fun hd => (drop_emit attached hmark).2 (Or.inl hd)
    · exact Or.inr ((drop_emit attached hmark).2 (Or.inr hnew))
  · rcases missing_emit hm with hm | hnew
    · exact (h.reading key since began rest hex hr l hm).imp_right fun hd => (drop_emit attached hmark).2 (Or.inl hd)
    · exact Or.inr ((drop_emit attached hmark).2 (Or.inr hnew))

end Log

/-! ## A step of the pipeline -/

theorem allowed_engine (ha : Allowed s a) : (s.act a).engine = s.engine := by
  apply (act_untouched s a).engine
  cases a with
  | emit r attached => exact absurd ha (fun h => h)
  | _ => rfl

theorem marks_eq {mark : GenKey → ℕ} {key : GenKey} (h : ∀ info, s.tasks key ≠ some ⟨info, .waiting⟩) :
    marks s mark a key = mark key := by
  cases a with
  | resolve key' ok =>
    cases ok with
    | false => rfl
    | true => simp only [marks]
  | _ => rfl

theorem reads_not_waiting {key : GenKey} {since : ℤ} {began : ℕ} {rest : List Line} (h : s.Reads key since began rest)
    (info : ContainerInfo) : s.tasks key ≠ some ⟨info, .waiting⟩ := by
  intro hw
  rcases h with ⟨info', h⟩ | ⟨-, info', h⟩
  · rw [hw] at h; cases h
  · rw [hw] at h; cases h

section Proc

variable {w : World} (h : Inv w) (ha : Allowed w.sys a)

include h ha in
theorem missing_act {key : GenKey} {l : Line} (hm : Missing (w.sys.act a) key l) (hd : key ∉ removes w.sys a) :
    Missing w.sys key l := by
  refine ⟨allowed_engine ha ▸ hm.1, fun hr => hm.2 ?_⟩
  exact received_act h.store (lossless_act h.store ha h.lost h.gaps).1 hr hd

include h ha in
theorem settled_step (hg : Good w (.proc a)) (key : GenKey)
    (hex : key ∉ w.exempt ++ removes w.sys a ++ excludes w.sys a) (hs : Settled (w.sys.act a) key) (l : Line)
    (hm : Missing (w.sys.act a) key l) : Above (w.sys.act a) key l := by
  simp only [List.mem_append, not_or] at hex
  obtain ⟨⟨hex, hrem⟩, hexcl⟩ := hex
  have hm₀ := missing_act h ha hm hrem
  intro t ht ekey estream
  rcases settled_act h.gaps hs with hs | ⟨rfl, info, phase, htask, hphase⟩
  · rcases received_back h.store ht with ht | ⟨r, rfl, -⟩ | ⟨task, -, htask⟩
    · exact h.settled key hex hs l hm₀ t ht ekey estream
    · exact absurd ha (fun h => h)
    · -- no backfill reads a settled generation
      rw [ekey, h.idle key hs] at htask
      cases htask
  · have ht₀ : t ∈ Received w.sys := by
      rcases received_back h.store ht with ht | ⟨r, hr, -⟩ | ⟨task, hr, -⟩
      · exact ht
      · cases hr
      · cases hr
    have hgood := hg hex
    rcases hphase with ⟨since, began, rfl⟩ | ⟨rfl, hlast⟩ | rfl
    · rcases h.reading key since began [] hex (Or.inr ⟨rfl, info, htask⟩) l hm₀ with hr | hd
      · cases hr
      · exact hgood.1 info since began htask l hd hm₀ t ht₀ ekey estream
    · exact hgood.2 info htask hlast l hm₀ t ht₀ ekey estream
    · exact absurd (by simp [excludes, htask]) hexcl

include h ha in
theorem resolved_step (hg : Good w (.proc a)) (key : GenKey) (info : ContainerInfo) (since : ℤ)
    (hex : key ∉ w.exempt ++ removes w.sys a ++ excludes w.sys a)
    (htask : (w.sys.act a).tasks key = some ⟨info, .resolved since⟩) (l : Line) (hm : Missing (w.sys.act a) key l) :
    since ≤ l.tsNS ∨ l ∈ ((w.sys.act a).engine key).drop (marks w.sys w.mark a key) := by
  simp only [List.mem_append, not_or] at hex
  have hm₀ := missing_act h ha hm hex.1.2
  have hstep := act_tasks w.sys a key
  rw [htask] at hstep
  generalize ht : some (⟨info, .resolved since⟩ : Task) = task at hstep
  cases hstep with
  | same =>
    have hnot : ∀ info', w.sys.tasks key ≠ some ⟨info', .waiting⟩ := by
      intro info' hw
      rw [hw] at ht
      cases ht
    rw [marks_eq hnot, allowed_engine ha]
    exact h.resolved key info since hex.1.1 ht.symm l hm₀
  | resolve info' hwait =>
    cases ht
    exact Or.inl (hg hex.1.1 info hwait l hm₀)
  | _ => cases ht

include h ha in
theorem reading_step (key : GenKey) (since : ℤ) (began : ℕ) (rest' : List Line)
    (hex : key ∉ w.exempt ++ removes w.sys a ++ excludes w.sys a) (hr : (w.sys.act a).Reads key since began rest')
    (l : Line) (hm : Missing (w.sys.act a) key l) :
    l ∈ rest' ∨ l ∈ ((w.sys.act a).engine key).drop (marks w.sys w.mark a key) := by
  simp only [List.mem_append, not_or] at hex
  have hm₀ := missing_act h ha hm hex.1.2
  rw [allowed_engine ha]
  rcases act_reads a hr with ⟨rest, h₀, -, hsent⟩ | ⟨-, hrest, info, hres⟩
  · rw [marks_eq (reads_not_waiting h₀)]
    rcases h.reading key since began rest hex.1.1 h₀ l hm₀ with hin | hd
    · rcases hsent l hin with hin | hk
      · exact Or.inl hin
      · exact absurd (Or.inl hk) hm.2
    · exact Or.inr hd
  · rw [marks_eq fun info' hw => by rw [hw] at hres; cases hres]
    rcases h.resolved key info since hex.1.1 hres l hm₀ with hle | hd
    · left
      rw [hrest]
      exact List.mem_filter.2 ⟨hm₀.1, by simpa using hle⟩
    · exact Or.inr hd

include h in
theorem marks_step (key : GenKey) : marks w.sys w.mark a key ≤ (w.sys.engine key).length := by
  by_cases hw : ∃ info, w.sys.tasks key = some ⟨info, .waiting⟩
  · obtain ⟨info, hw⟩ := hw
    cases a with
    | resolve key' ok =>
      cases ok with
      | false => exact h.marks key
      | true =>
        simp only [marks, hw]
        split_ifs
        · exact le_rfl
        · exact h.marks key
    | _ => exact h.marks key
  · rw [marks_eq fun info e => hw ⟨info, e⟩]
    exact h.marks key

include h ha in
theorem proc_inv (hg : Good w (.proc a)) : Inv (w.step (.proc a)) := by
  obtain ⟨hlost, hgaps⟩ := lossless_act h.store ha h.lost h.gaps
  rw [World.step, if_pos ha]
  exact { scheduled_act h.toScheduled h.gaps with
    settled := settled_step h ha hg
    resolved := resolved_step h ha hg
    reading := reading_step h ha
    store := step_consistent h.store a
    lost := hlost
    gaps := hgaps
    marks := fun key => by
      show marks w.sys w.mark a key ≤ ((w.sys.act a).engine key).length
      rw [allowed_engine ha]
      exact marks_step h key }

end Proc

/-! ## Runs -/

/-- **A good step leaves no line behind.** -/
theorem step_inv (w : World) (a : Act) (h : Inv w) (hg : Good w a) : Inv (w.step a) := by
  cases a with
  | containerStart key => exact { h with }
  | containerStop key => exact { h with }
  | tail t => exact { h with }
  | log r =>
    simp only [World.step]
    split_ifs
    · have hc := covered_emit h.toCovered h.marks hg
      refine { scheduled_act h.toScheduled h.gaps, hc with
        store := step_consistent h.store _, lost := h.lost, gaps := h.gaps, marks := fun key => ?_ }
      have hsub := engine_step w.sys (.emit r (w.tails.isAttached r.key)) key
      show w.mark key ≤ ((w.sys.act (.emit r (w.tails.isAttached r.key))).engine key).length
      simp only [act, emit, Function.update_apply]
      split_ifs with hk
      · subst hk
        have := h.marks r.key
        simp only [List.length_append, List.length_singleton]
        omega
      · exact h.marks key
    · exact h
  | proc a =>
    by_cases ha : Allowed w.sys a
    · exact proc_inv h ha hg
    · rw [World.step, if_neg ha]
      exact h

/-- **No hole below the newest line.** In a run of good steps the stored timeline of every generation has no hole
whenever the store is at rest. -/
theorem no_hole {acts : List Act} (h : Each World.step Good .init acts) : Always World.step NoHole .init acts :=
  always_of_each (fun _ h => h.noHole) step_inv inv_init h

/-! ## A restarted container -/

def web : GenKey := ⟨"local", "aaa"⟩
def webInfo : ContainerInfo := ⟨"aaa", ["/web"], "nginx", 1, [], "local"⟩
def webRecord (tsNS : ℤ) : Record := ⟨web, "web", "", ⟨tsNS, .stdout, 0, [104, 105]⟩⟩

/-- a container starts and gets its tail -/
def starts : List Act := [.containerStart web, .tail (.startEvent web), .tail (.opened web)]

/-- a line is logged, and what the queue then holds is committed -/
def logs (tsNS : ℤ) (nowMS : ℤ) : List Act :=
  [.log (webRecord tsNS), .proc .deliver, .proc .take, .proc (.flush nowMS true)]

/-- the startup backfill reads one line, to the end -/
def backfills (nowMS : ℤ) : List Act :=
  [.proc (.sync webInfo nowMS), .proc (.resolve web true), .proc (.read web), .proc (.send web),
    .proc (.endRead web .ok), .proc .take, .proc .take, .proc (.flush nowMS true), .proc (.handle web)]

/-- a container that logs under its tail and is backfilled -/
def webRun : List Act := starts ++ logs 5000000000 1 ++ backfills 2

/-- it stops, and logs a line at 60 s when it starts again, before the hub hears of it; at 61 s its tail is back -/
def restartRun : List Act :=
  webRun ++ [.containerStop web, .tail (.dieEvent web), .containerStart web, .log (webRecord 60000000000),
    .tail (.startEvent web), .tail (.opened web)] ++ logs 61000000000 3

theorem no_hole_web : Always World.step NoHole .init webRun := by
  apply no_hole
  refine ⟨trivial, trivial, trivial, ?_, trivial, trivial, trivial, trivial, ?_, trivial, trivial, trivial, trivial,
    trivial, trivial, ?_, trivial⟩
  · intro hs
    exact absurd hs (by decide)
  · intro _ info htask l hm
    obtain rfl : webInfo = info := congrArg (fun t : Task => t.info) (Option.some.inj htask)
    obtain rfl := List.mem_singleton.1 hm.1
    decide
  · intro _
    refine ⟨fun info since began _ l hl => ?_, fun info htask => ?_⟩
    · cases hl
    · cases htask

/-- **A restart leaves a hole.** The line at 60 s is in the engine and not stored, the line at 61 s is, and nothing is
going to read the container again. -/
theorem restart_leaves_hole : ¬ Always World.step NoHole .init restartRun := by
  intro h
  have hl : (webRecord 60000000000).line ∈ (run World.step .init restartRun).sys.engine web := by decide
  have hstored : ((web, (webRecord 61000000000).line.ident) : Tuple) ∈
      Stored (run World.step .init restartRun).sys.store.db := by
    refine ⟨⟨2, 1, (webRecord 61000000000).line, web⟩, by decide, by decide, rfl⟩
  obtain ⟨r, hr, -, e⟩ := h.last web (by decide) (by decide) (by decide) (by decide) (by decide) _ hl
    ⟨_, hstored, rfl, rfl, by decide⟩
  have hnot : ∀ r ∈ (run World.step .init restartRun).sys.store.db.lines,
      r.line.ident ≠ (webRecord 60000000000).line.ident := by decide
  exact hnot r hr e

end LogDeck.Outage
