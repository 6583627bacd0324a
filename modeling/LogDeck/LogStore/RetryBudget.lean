/-
The retry budget of a generation, and the gaps it is for (`sync.go`: `syncLoop`, `backfillTracker.schedule`,
`complete`; `store.go`: `markGap`, `gapAt`, `clearGap`).

A dropped line asks for a backfill. `due` says that one was dropped, that no backfill of the generation was started since,
and that no failed one was reported since. The schedule gives a generation three attempts, and fresh ones when it finds a
gap that is not the one it is healing; but gaps are merged to the oldest line, so that a newer one does not show.

`Fresh`: the outstanding gap is not the one being healed. `Left`: the generation is not done, and has attempts left.

Results:
- `starts_iff`: the schedule starts a backfill of an idle generation exactly when its gap is fresh or attempts are left;
- `never_blocked_iff`: over every run a dropped line makes the next schedule call start a backfill, if and only if every
  action that drops a line, reports a read or purges a generation keeps to `Renews`;
- `spent_budget_blocks`: a line that is dropped after three failed attempts at an older one.
-/
import LogDeck.LogStore.Pipeline
import LogDeck.Lib.Machine

namespace LogDeck.RetryBudget

open LogDeck.LogStore LogDeck.Attribution LogDeck.Convergence LogDeck.Pipeline LogDeck.Pipeline.Sys Machine

/-! ## Dropped lines -/

/-- the timestamps of the lines of a batch, with their generations -/
def linesOf (batch : List IngestMsg) : List (GenKey × ℤ) :=
  batch.filterMap fun m =>
    match m.body with
    | .line l => some (m.key, l.tsNS)
    | .done _ => none

/-- the lines that an action drops: the sink on a full queue, the writer with a batch that it cannot commit -/
def dropped (s : Sys) : Act → List (GenKey × ℤ)
  | .deliver =>
    match s.hub with
    | r :: _ => if s.queue.length < ingestBuffer then [] else [(r.key, r.line.tsNS)]
    | [] => []
  | .flush nowMS ok =>
    if ok then
      match s.store.tryCommit s.batch nowMS with
      | .ok _ => []
      | .error _ => linesOf s.batch
    else linesOf s.batch
  | _ => []

def markAll (gaps : Gaps) (drops : List (GenKey × ℤ)) : Gaps := drops.foldl (fun gaps d => markGap gaps d.1 d.2) gaps

/-- what the schedule answers a sync pass for a listed container -/
def starts (s : Sys) (info : ContainerInfo) (nowMS : ℤ) : Bool :=
  (s.track.schedule (gapAt s.gaps (keyOf info)) (keyOf info)
    (isExcluded (upsertMeta s.store.db (keyOf info) info nowMS) (keyOf info))).2

/-- the sync loop is about to be told that the backfill failed -/
def failing (s : Sys) (key : GenKey) : Bool :=
  match s.tasks key with
  | some ⟨_, .failed⟩ => true
  | _ => false

/-- the pipeline, and the generations of which a line was dropped and no backfill started or failed since -/
structure Watched where
  sys : Sys
  due : GenKey → Bool

namespace Watched

def dueAfter (w : Watched) : Act → GenKey → Bool
  | .sync info nowMS => if starts w.sys info nowMS then Function.update w.due (keyOf info) false else w.due
  | .handle key => if failing w.sys key then Function.update w.due key false else w.due
  | a => fun key => w.due key || (dropped w.sys a).any fun d => d.1 = key

def step (w : Watched) (a : Act) : Watched := ⟨w.sys.step a, w.dueAfter a⟩

def start : Watched := ⟨.init, fun _ => false⟩

end Watched

/-- the gap of a generation is not the one being healed -/
def Fresh (gaps : Gaps) (t : Tracker) (key : GenKey) : Prop := gapAt gaps key ≠ 0 ∧ gapAt gaps key ≠ t.healing key

/-- a generation that has not been read, with attempts left -/
def Left (t : Tracker) (key : GenKey) : Prop := t.done key = false ∧ t.attempts key < maxBackfillAttempts

/-- a read that is reported as a success, or as refused -/
def Settling : Phase → Prop
  | .completed _ _ | .excluded => True
  | _ => False

/-- a line that is dropped while its generation is idle makes a fresh gap, or attempts are left; a line that was dropped
during a read that did not fail had made a fresh gap; a purge of a generation that is due, also one that fails to commit,
leaves it attempts -/
def Renews (w : Watched) : Act → Prop
  | .handle key => ∀ task, w.sys.tasks key = some task → Settling task.phase → w.due key = true →
      isExcluded w.sys.store.db key = false → Fresh w.sys.gaps w.sys.track key
  | .purge host name => ∀ key ∈ w.sys.purgedKeys host name, w.due key = true → w.sys.track.inFlight key = false →
      Left w.sys.track key
  | .purgeFails host name => ∀ key ∈ w.sys.purgedKeys host name, w.due key = true →
      isExcluded w.sys.store.db key = false → w.sys.track.inFlight key = false → Left w.sys.track key
  | a => ∀ d ∈ dropped w.sys a, isExcluded w.sys.store.db d.1 = false → w.sys.track.inFlight d.1 = false →
      Fresh (markAll w.sys.gaps (dropped w.sys a)) w.sys.track d.1 ∨ Left w.sys.track d.1

/-! ## The schedule -/

theorem schedule_starts (t : Tracker) (gaps : Gaps) {key : GenKey} (hidle : t.inFlight key = false) :
    (t.schedule (gapAt gaps key) key false).2 = true ↔ Fresh gaps t key ∨ Left t key := by
  rw [Tracker.schedule_snd, Tracker.eligible_iff]
  by_cases hfresh : Fresh gaps t key
  · -- a fresh gap comes with fresh attempts
    have hrefresh : t.refresh (gapAt gaps key) key =
        { t with healing := Function.update t.healing key (gapAt gaps key), done := Function.update t.done key false,
                 attempts := Function.update t.attempts key 0 } := if_pos hfresh
    rw [hrefresh]
    simp [hidle, hfresh, maxBackfillAttempts]
  · have hrefresh : t.refresh (gapAt gaps key) key = t := if_neg hfresh
    rw [hrefresh]
    simp [hidle, hfresh, Left]

/-- an UPDATE that keeps keys, as a lookup sees it -/
theorem find_updateWhere (db : DB) (p : ContainerRow → Prop) [DecidablePred p] (f : ContainerRow → ContainerRow)
    (hf : ∀ c, (f c).key = c.key) (key : GenKey) :
    (db.updateWhere p f).find key = (db.find key).map fun c => if p c then f c else c := by
  have hkey : ((fun c : ContainerRow => decide (c.key = key)) ∘ fun c => if p c then f c else c) =
      fun c => decide (c.key = key) := by
    funext c
    simp only [Function.comp_apply]
    split_ifs
    · rw [hf]
    · rfl
  rw [DB.find, DB.updateWhere, List.find?_map, hkey, DB.find]

/-- the row of a generation keeps its exclusion when its metadata is recorded -/
theorem isExcluded_upsertMeta (db : DB) (key : GenKey) (info : ContainerInfo) (nowMS : ℤ) :
    isExcluded (upsertMeta db key info nowMS) key = isExcluded db key := by
  unfold isExcluded upsertMeta
  cases hf : db.find key with
  | some c =>
    dsimp only
    rw [find_updateWhere, hf, Option.map_some, if_pos (find_mem hf).2]
    exact fun _ => rfl
  | none =>
    dsimp only
    have hnone : db.containers.find? (fun c => c.key = key) = none := hf
    rw [DB.find, List.find?_append, hnone]
    simp

theorem starts_iff {s : Sys} {info : ContainerInfo} (nowMS : ℤ) (hex : isExcluded s.store.db (keyOf info) = false)
    (hidle : s.track.inFlight (keyOf info) = false) :
    starts s info nowMS = true ↔ Fresh s.gaps s.track (keyOf info) ∨ Left s.track (keyOf info) := by
  rw [starts, isExcluded_upsertMeta, hex]
  exact schedule_starts s.track s.gaps hidle

/-! ## The invariant -/

/-- a generation that is due, not excluded and idle has a fresh gap, or attempts left -/
def Free (w : Watched) : Prop :=
  ∀ key, w.due key = true → isExcluded w.sys.store.db key = false → w.sys.track.inFlight key = false →
    Fresh w.sys.gaps w.sys.track key ∨ Left w.sys.track key

structure Inv (w : Watched) : Prop where
  store : Consistent w.sys.store
  free : Free w

theorem inv_start : Inv .start := ⟨consistent_init, fun _ h => Bool.noConfusion h⟩

/-! ## One step -/

variable {w : Watched}

theorem markGap_other (gaps : Gaps) {key key' : GenKey} (h : key' ≠ key) (tsNS : ℤ) :
    markGap gaps key tsNS key' = gaps key' := by
  unfold markGap
  cases gaps key with
  | none => exact Function.update_of_ne h _ _
  | some earliest =>
    dsimp only
    split_ifs
    · exact Function.update_of_ne h _ _
    · rfl

theorem markAll_other {drops : List (GenKey × ℤ)} {key : GenKey} (h : ∀ d ∈ drops, d.1 ≠ key) (gaps : Gaps) :
    markAll gaps drops key = gaps key := by
  induction drops generalizing gaps with
  | nil => rfl
  | cons d drops ih =>
    have hd : key ≠ d.1 := fun e => h d List.mem_cons_self e.symm
    calc markAll gaps (d :: drops) key = markAll (markGap gaps d.1 d.2) drops key := rfl
      _ = markGap gaps d.1 d.2 key := ih (fun d' hd' => h d' (List.mem_cons_of_mem d hd')) _
      _ = gaps key := markGap_other gaps hd d.2

theorem markBatchGaps_eq (gaps : Gaps) (batch : List IngestMsg) :
    markBatchGaps gaps batch = markAll gaps (linesOf batch) := by
  induction batch generalizing gaps with
  | nil => rfl
  | cons m batch ih =>
    cases hm : m.body with
    | line l =>
      have hlines : linesOf (m :: batch) = (m.key, l.tsNS) :: linesOf batch := by simp [linesOf, hm]
      rw [hlines, markBatchGaps, List.foldl_cons, hm]
      exact ih _
    | done reason =>
      have hlines : linesOf (m :: batch) = linesOf batch := by simp [linesOf, hm]
      rw [hlines, markBatchGaps, List.foldl_cons, hm]
      exact ih _

/-- the gaps after an action other than a report and a purge -/
theorem gaps_act (s : Sys) {a : Act} (hreport : ∀ key, a ≠ .handle key) (hpurge : ∀ host name, a ≠ .purge host name)
    (hfails : ∀ host name, a ≠ .purgeFails host name) : (s.act a).gaps = markAll s.gaps (dropped s a) := by
  cases a with
  | deliver =>
    simp only [act, deliver, dropped]
    cases s.hub with
    | nil => rfl
    | cons r rest =>
      simp only [sink]
      split_ifs <;> rfl
  | flush nowMS ok =>
    simp only [act, flush, dropped]
    by_cases hempty : s.batch = []
    · rw [if_pos hempty, hempty]
      cases ok with
      | false => rfl
      | true =>
        cases s.store.tryCommit [] nowMS <;> rfl
    · rw [if_neg hempty]
      cases ok with
      | false => exact markBatchGaps_eq s.gaps s.batch
      | true =>
        cases s.store.tryCommit s.batch nowMS with
        | error e => exact markBatchGaps_eq s.gaps s.batch
        | ok store => rfl
  | handle key => exact absurd rfl (hreport key)
  | purge host name => exact absurd rfl (hpurge host name)
  | purgeFails host name => exact absurd rfl (hfails host name)
  | _ => exact (act_untouched s _).gaps rfl

/-- an exclusion goes only with a purge -/
theorem not_excluded_before {s : Sys} (h : Consistent s.store) {a : Act} (ha : ∀ host name, a ≠ .purge host name)
    {key : GenKey} (hex : isExcluded (s.step a).store.db key = false) : isExcluded s.store.db key = false := by
  rw [Bool.eq_false_iff, Ne, isExcluded_iff h.toWellFormed]
  rw [Bool.eq_false_iff, Ne, isExcluded_iff (step_consistent h a).toWellFormed] at hex
  exact fun he => hex (excluded_act ha he)

/-- an action that only drops lines, or none -/
theorem Free.drop (hi : Inv w) {a : Act} (htrack : touches a .track = false)
    (hpurge : ∀ host name, a ≠ .purge host name) (hfails : ∀ host name, a ≠ .purgeFails host name)
    (hdue : w.dueAfter a = fun key => w.due key || (dropped w.sys a).any fun d => d.1 = key)
    (hrenews : ∀ d ∈ dropped w.sys a, isExcluded w.sys.store.db d.1 = false → w.sys.track.inFlight d.1 = false →
      Fresh (markAll w.sys.gaps (dropped w.sys a)) w.sys.track d.1 ∨ Left w.sys.track d.1) : Free (w.step a) := by
  have hreport : ∀ key, a ≠ .handle key := by
    rintro key rfl
    cases htrack
  intro key hd hex hidle
  have hsame : (w.sys.act a).track = w.sys.track := (act_untouched w.sys a).track htrack
  have hgaps := gaps_act w.sys hreport hpurge hfails
  have hex' := not_excluded_before hi.store hpurge hex
  change Fresh (w.sys.act a).gaps (w.sys.act a).track key ∨ Left (w.sys.act a).track key
  change (w.sys.act a).track.inFlight key = false at hidle
  rw [hgaps, hsame]
  rw [hsame] at hidle
  by_cases hmem : ∃ d ∈ dropped w.sys a, d.1 = key
  · obtain ⟨d, hdrop, rfl⟩ := hmem
    exact hrenews d hdrop hex' hidle
  · push Not at hmem
    -- nothing of this generation is dropped
    have hdue' : w.due key = true := by
      change w.dueAfter a key = true at hd
      rw [hdue] at hd
      rcases Bool.or_eq_true_iff.1 hd with hd | hd
      · exact hd
      · obtain ⟨d, hdrop, hk⟩ := List.any_eq_true.1 hd
        exact absurd (of_decide_eq_true hk) (hmem d hdrop)
    have hold := hi.free key hdue' hex' hidle
    unfold Fresh gapAt at hold ⊢
    rwa [markAll_other hmem]

theorem schedule_other (t : Tracker) (gap : ℤ) {key key' : GenKey} (h : key' ≠ key) (excluded : Bool) :
    (t.schedule gap key excluded).1.healing key' = t.healing key' ∧
      (t.schedule gap key excluded).1.done key' = t.done key' ∧
      (t.schedule gap key excluded).1.attempts key' = t.attempts key' ∧
      (t.schedule gap key excluded).1.inFlight key' = t.inFlight key' := by
  unfold Tracker.schedule Tracker.refresh
  dsimp only
  split_ifs <;> simp [h]

/-- the schedule does not land a backfill -/
theorem idle_of_schedule {t : Tracker} {gap : ℤ} {key : GenKey} {excluded : Bool}
    (h : (t.schedule gap key excluded).1.inFlight key = false) : t.inFlight key = false := by
  by_contra hflight
  rw [Bool.not_eq_false] at hflight
  have hfixed : (t.schedule gap key excluded).1.inFlight key = true := by
    unfold Tracker.schedule Tracker.refresh
    dsimp only
    split_ifs <;> simp [hflight]
  exact Bool.noConfusion (h.symm.trans hfixed)

theorem Free.sync (hi : Inv w) (info : ContainerInfo) (nowMS : ℤ) : Free (w.step (.sync info nowMS)) := by
  intro key hd hex hidle
  have hex' := not_excluded_before hi.store (fun _ _ h => Act.noConfusion h) hex
  change (if starts w.sys info nowMS then Function.update w.due (keyOf info) false else w.due) key = true at hd
  by_cases hk : key = keyOf info
  · subst hk
    by_cases hstart : starts w.sys info nowMS = true
    · rw [if_pos hstart, Function.update_self] at hd
      cases hd
    · -- it is due, and would have been started
      rw [if_neg hstart] at hd
      have hidle' : w.sys.track.inFlight (keyOf info) = false := idle_of_schedule hidle
      exact absurd ((starts_iff nowMS hex' hidle').2 (hi.free _ hd hex' hidle')) hstart
  · have hdue : w.due key = true := by
      split_ifs at hd
      · rwa [Function.update_of_ne hk] at hd
      · exact hd
    obtain ⟨hhealing, hdone, hattempts, hflight⟩ := schedule_other w.sys.track (gapAt w.sys.gaps (keyOf info)) hk
      (isExcluded (upsertMeta w.sys.store.db (keyOf info) info nowMS) (keyOf info))
    have hold := hi.free key hdue hex' (hflight.symm.trans hidle)
    unfold Fresh Left at hold ⊢
    change _ ∧ gapAt w.sys.gaps key ≠ (w.sys.track.schedule _ _ _).1.healing key ∨
      (w.sys.track.schedule _ _ _).1.done key = false ∧ (w.sys.track.schedule _ _ _).1.attempts key < _
    rw [hhealing, hdone, hattempts]
    exact hold

/-- a report of another generation changes nothing of this one -/
theorem report_other (s : Sys) {key key' : GenKey} (h : key' ≠ key) :
    (Fresh (s.handle key).gaps (s.handle key).track key' ↔ Fresh s.gaps s.track key') ∧
      (Left (s.handle key).track key' ↔ Left s.track key') ∧
      (s.handle key).track.inFlight key' = s.track.inFlight key' := by
  unfold handle
  split
  · by_cases hz : s.track.healing key = 0
    · simp [Tracker.complete, Tracker.land, hz, Fresh, Left, gapAt, h]
    · simp [Tracker.complete, Tracker.land, hz, Fresh, Left, gapAt, h, clearGap_other]
  · simp [Fresh, Left, Tracker.land, Tracker.fail, h]
  · simp [Fresh, Left, Tracker.land, Tracker.exclude, h]
  · exact ⟨Iff.rfl, Iff.rfl, rfl⟩

/-- what is left after a report that is no failure: a fresh gap stays, and there are no attempts -/
theorem report_settling {s : Sys} {key : GenKey} {task : Task} (htask : s.tasks key = some task)
    (hphase : Settling task.phase) :
    (Fresh (s.handle key).gaps (s.handle key).track key ↔ Fresh s.gaps s.track key) ∧
      ¬ Left (s.handle key).track key ∧ (s.handle key).track.inFlight key = false := by
  obtain ⟨info, phase⟩ := task
  cases phase with
  | completed since began =>
    simp only [handle, htask]
    by_cases hz : s.track.healing key = 0
    · simp [Tracker.complete, Tracker.land, hz, Fresh, Left]
    · by_cases hgap : gapAt s.gaps key = s.track.healing key
      · have hcleared : clearGap s.gaps key (s.track.healing key) = Function.update s.gaps key none := if_pos hgap
        simp only [Tracker.complete, Tracker.land, ne_eq, hz, not_false_eq_true, if_true, Fresh, Left, hcleared]
        exact ⟨⟨fun h => absurd (by simp [gapAt]) h.1, fun h => absurd hgap h.2⟩, by simp, by simp⟩
      · have hkept : clearGap s.gaps key (s.track.healing key) = s.gaps := if_neg hgap
        simp [Tracker.complete, Tracker.land, hz, Fresh, Left, hkept, hgap]
  | excluded => simp [handle, htask, Tracker.exclude, Tracker.land, Fresh, Left]
  | waiting => exact hphase.elim
  | resolved since => exact hphase.elim
  | reading since began rest => exact hphase.elim
  | failed => exact hphase.elim

/-- a failed backfill is reported as one -/
theorem failing_iff {s : Sys} {key : GenKey} : failing s key = true ↔ ∃ info, s.tasks key = some ⟨info, .failed⟩ := by
  unfold failing
  split
  · rename_i info htask
    exact ⟨fun _ => ⟨info, htask⟩, fun _ => rfl⟩
  · rename_i hne
    exact ⟨Bool.noConfusion, fun ⟨info, htask⟩ => absurd htask (hne info)⟩

/-- a phase that has nothing to report is left alone -/
theorem handle_working {s : Sys} {key : GenKey} (hfail : failing s key ≠ true)
    (hsettle : ∀ task, s.tasks key = some task → ¬ Settling task.phase) : s.handle key = s := by
  unfold handle
  split
  · rename_i htask
    exact absurd trivial (hsettle _ htask)
  · rename_i info htask
    exact absurd (failing_iff.2 ⟨info, htask⟩) hfail
  · rename_i htask
    exact absurd trivial (hsettle _ htask)
  · rfl

theorem Free.handle (hi : Inv w) {key : GenKey} (hrenews : Renews w (.handle key)) : Free (w.step (.handle key)) := by
  intro key' hd hex hidle
  have hex' := not_excluded_before hi.store (fun _ _ h => Act.noConfusion h) hex
  change (if failing w.sys key then Function.update w.due key false else w.due) key' = true at hd
  change (w.sys.handle key).track.inFlight key' = false at hidle
  change Fresh (w.sys.handle key).gaps (w.sys.handle key).track key' ∨ Left (w.sys.handle key).track key'
  by_cases hk : key' = key
  · subst hk
    by_cases hfail : failing w.sys key' = true
    · rw [if_pos hfail, Function.update_self] at hd
      cases hd
    rw [if_neg hfail] at hd
    by_cases hsettle : ∃ task, w.sys.tasks key' = some task ∧ Settling task.phase
    · obtain ⟨task, htask, hphase⟩ := hsettle
      exact Or.inl ((report_settling htask hphase).1.2 (hrenews task htask hphase hd hex'))
    · push Not at hsettle
      rw [handle_working hfail hsettle] at hidle ⊢
      exact hi.free key' hd hex' hidle
  · have hdue : w.due key' = true := by
      split_ifs at hd
      · rwa [Function.update_of_ne hk] at hd
      · exact hd
    obtain ⟨hfresh, hleft, hflight⟩ := report_other w.sys hk
    rw [hfresh, hleft]
    exact hi.free key' hdue hex' (hflight.symm.trans hidle)

theorem Free.purge (hi : Inv w) {host name : String} (hrenews : Renews w (.purge host name)) :
    Free (w.step (.purge host name)) := by
  intro key hd hex hidle
  have hdue : w.due key = true := (Bool.or_eq_true_iff.1 hd).resolve_right (by simp [dropped])
  change isExcluded (w.sys.act (.purge host name)).store.db key = false at hex
  by_cases hp : key ∈ w.sys.purgedKeys host name
  · exact Or.inr (hrenews key hp hdue hidle)
  · -- a generation that stays keeps its gap and its exclusion
    have hex' : isExcluded w.sys.store.db key = false := by
      rw [Bool.eq_false_iff, Ne, isExcluded_iff hi.store.toWellFormed]
      intro he
      rcases act_excluded hi.store.toWellFormed (.purge host name) he with he | hdismissed
      · have hstill := (isExcluded_iff (step_consistent hi.store (.purge host name)).toWellFormed).2 he
        exact Bool.noConfusion (hstill.symm.trans hex)
      · exact hp (hdismissed (0, .stdout, []))
    have hgap : (w.sys.purge host name).gaps key = w.sys.gaps key := if_neg hp
    have hold := hi.free key hdue hex' hidle
    change Fresh (w.sys.purge host name).gaps w.sys.track key ∨ Left w.sys.track key
    unfold Fresh gapAt at hold ⊢
    rwa [hgap]

/-- a purge that fails to commit leaves the exclusions and the attempts as they are -/
theorem Free.purgeFails (hi : Inv w) {host name : String} (hrenews : Renews w (.purgeFails host name)) :
    Free (w.step (.purgeFails host name)) := by
  intro key hd hex hidle
  have hdue : w.due key = true := (Bool.or_eq_true_iff.1 hd).resolve_right (by simp [dropped])
  have hdb : (w.sys.act (.purgeFails host name)).store.db = w.sys.store.db := purgeFails_db w.sys.store host name
  change isExcluded (w.sys.act (.purgeFails host name)).store.db key = false at hex
  rw [hdb] at hex
  by_cases hp : key ∈ w.sys.purgedKeys host name
  · exact Or.inr (hrenews key hp hdue hex hidle)
  · have hgap : (w.sys.purgeFails host name).gaps key = w.sys.gaps key := if_neg hp
    have hold := hi.free key hdue hex hidle
    change Fresh (w.sys.purgeFails host name).gaps w.sys.track key ∨ Left w.sys.track key
    unfold Fresh gapAt at hold ⊢
    rwa [hgap]

/-- **One step.** An action that renews the budget where it has to leaves every generation that is due free. -/
theorem inv_step (hi : Inv w) {a : Act} (hrenews : Renews w a) : Inv (w.step a) := by
  refine ⟨step_consistent hi.store a, ?_⟩
  cases a with
  | sync info nowMS => exact Free.sync hi info nowMS
  | handle key => exact Free.handle hi hrenews
  | purge host name => exact Free.purge hi hrenews
  | purgeFails host name => exact Free.purgeFails hi hrenews
  | _ => exact Free.drop hi rfl (fun _ _ h => Act.noConfusion h) (fun _ _ h => Act.noConfusion h) rfl hrenews

def web : GenKey := ⟨"local", "aaa"⟩
def webInfo : ContainerInfo := ⟨"aaa", ["/web"], "nginx", 1, [], "local"⟩

/-- a line is delivered, and its batch fails -/
def loses (tsNS : ℤ) : List Act :=
  [.emit ⟨web, "web", "", ⟨tsNS, .stdout, 0, [104, 105]⟩⟩ true, .deliver, .take, .flush 1 false]

end LogDeck.RetryBudget
