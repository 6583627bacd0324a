/-
Does a purge stay undone by nobody (`purge.go`: `DeleteContainer`, `invalidate`; `backfill.go`: `backfillSince`)?

A purge deletes the rows and the lines of a logical container and forgets the gaps and the resume points of its
generations. The engine still holds the lines. A later backfill of such a generation derives its `since` from what there
is then: the marks of its resume point or of its row, the gap of a line dropped since, or the creation of the container.

Each action happens at a wall-clock time. Ghosts: `purges`, the generations purged so far and when, in any process, and
the `Past` of each generation: the lines stored under it since its row was last deleted, those of them that the process
found at its start, and the lines lost since its gap was last retired or forgotten.

Results:
- `purge_forgets`, `since_after_purge`: a purge leaves no row, no gap and no resume point, so a backfill that follows at
  once reads the container from its creation;
- `past_proc`, `step_inv`: the marks, the resume point and the gap of a generation say what its past is, in every run;
- `purge_stands_iff`: over every run, no backfill asks for lines from before a purge of its generation, if and only if
  what has been stored and lost since the purge supersedes it, or the container is younger;
- `restart_undoes_purge`: a purge and a restart, with nothing logged in between.
-/
import LogDeck.LogStore.Marks
import LogDeck.LogStore.Restart

namespace LogDeck.Purge

open LogDeck.LogStore LogDeck.Convergence LogDeck.Pipeline LogDeck.Pipeline.Sys LogDeck.Restart LogDeck.Healing Machine
open LogDeck.Marks

/-! ## Model -/

/-- what has happened to each generation.
`filed`: the timestamps of the lines stored under it since a purge or a prune last deleted its row, per stream.
`atStart`: what was filed when the process started, until a backfill completes or a purge begins.
`dropped`: the timestamps of the lines lost since its gap was last retired, or forgotten by a purge or a restart. -/
structure Past where
  filed : GenKey → Stream → List ℤ
  atStart : GenKey → Option (Stream → List ℤ)
  dropped : GenKey → List ℤ

/-- a history with that of some generations taken out -/
def without {α : Type} (keys : List GenKey) (none : α) (m : GenKey → α) : GenKey → α :=
  fun key => if key ∈ keys then none else m key

namespace Past

def init : Past := ⟨fun _ _ => [], fun _ => none, fun _ => []⟩

def proc (p : Past) (s : Sys) : Pipeline.Act → Past
  | .purge host name =>
    { filed := without (s.purgedKeys host name) (fun _ => []) p.filed
      atStart := without (s.purgedKeys host name) none p.atStart
      dropped := without (s.purgedKeys host name) [] p.dropped }
  | .purgeFails host name =>
    { p with atStart := without (s.purgedKeys host name) none p.atStart
             dropped := without (s.purgedKeys host name) [] p.dropped }
  | .handle key =>
    { p with atStart := without (closes s (.handle key)) none p.atStart
             dropped := if (s.handle key).gaps key = none then Function.update p.dropped key [] else p.dropped }
  | a =>
    { p with filed := fun key st => p.filed key st ++ storedNow s.store.db (s.act a).store.db key st
             dropped := fun key => p.dropped key ++ timesOf (lostNow s a) key }

def step (p : Past) (w : World) : Restart.Act → Past
  | .start snapshot =>
    if w.mode = .down then
      { p with atStart := fun key =>
                 if snapshot ∧ (w.sys.store.db.find key).isSome then some (p.filed key) else none
               dropped := fun _ => [] }
    else p
  | .exit => { p with atStart := fun _ => none, dropped := fun _ => [] }
  | .proc a =>
    match w.pipe a with
    | none => p
    | some a => p.proc w.sys a
  | .prune =>
    if w.mode = .down then p
    else { p with filed := fun key st =>
             if (pruneEmptyGenerations w.sys.store.db).find key = none then [] else p.filed key st }
  | _ => p

/-- the lines a backfill of the generation goes by: those found at the start of the process, or those stored by now -/
def basis (p : Past) (key : GenKey) : Stream → List ℤ := (p.atStart key).getD (p.filed key)

end Past

structure Purged where
  world : World
  past : Past
  purges : List (GenKey × ℤ)

structure Timed where
  act : Restart.Act
  nowNS : ℤ
deriving DecidableEq, Repr

/-- the generations a purge that commits in this step removes -/
def purgedNow (w : World) : Restart.Act → List GenKey
  | .proc (.purge host name) => if w.mode = .down then [] else w.sys.purgedKeys host name
  | _ => []

namespace Purged

def init : Purged := ⟨.init, .init, []⟩

def step (p : Purged) (o : Timed) : Purged :=
  { world := p.world.step o.act
    past := p.past.step p.world o.act
    purges := p.purges ++ (purgedNow p.world o.act).map fun key => (key, o.nowNS) }

end Purged

/-- a backfill that works out its `since` in this step does not ask for lines from before a purge of its generation, the
overlap apart -/
def Stands (p : Purged) (o : Timed) : Prop :=
  ∀ key info since, p.world.sys.tasks key = some ⟨info, .waiting⟩ →
    (p.step o).world.sys.tasks key = some ⟨info, .resolved since⟩ →
    ∀ nowNS, (key, nowNS) ∈ p.purges → nowNS - backfillOverlap ≤ since

/-- what has been stored and lost since a purge at `nowNS` supersedes it.
`stored`: a stream that has been written to has a line from then or later.
`created`: if none has, the container is younger than the purge, the overlap apart.
`dropped`: every line lost is from then or later, unless the oldest has the timestamp 0, which the code takes for no
gap. -/
structure Superseded (p : Past) (key : GenKey) (createdUnix nowNS : ℤ) : Prop where
  stored : ∀ st, (∃ t ∈ p.basis key st, 0 < t) → ∃ t ∈ p.basis key st, nowNS ≤ t
  created : (∀ st, ∀ t ∈ p.basis key st, t ≤ 0) → nowNS - backfillOverlap ≤ createdUnix * 1000000000
  dropped : ∀ t ∈ p.dropped key, nowNS ≤ t ∨ (0 ∈ p.dropped key ∧ ∀ t' ∈ p.dropped key, 0 ≤ t')

/-- a backfill works out its `since` only when each purge of its generation is superseded -/
def Supersedes (p : Purged) (o : Timed) : Prop :=
  ∀ key info, o.act = .proc (.resolve key true) → p.world.mode ≠ .down →
    p.world.sys.tasks key = some ⟨info, .waiting⟩ → ∀ nowNS, (key, nowNS) ∈ p.purges →
      Superseded p.past key info.created nowNS

/-! ## What a purge forgets -/

/-- **A purge forgets.** Nothing it knew of the generation is there for a later backfill. -/
theorem purge_forgets (s : Sys) (host name : String) {key : GenKey} (hk : key ∈ s.purgedKeys host name)
    (hw : WellFormed s.store.db) :
    (s.purge host name).store.db.find key = none ∧ (s.purge host name).gaps key = none ∧
      (s.purge host name).resume key = none := by
  have hne : generationsOf s.store.db host name ≠ [] := by
    intro hnil
    simp [purgedKeys, hnil] at hk
  have hdb : (s.purge host name).store.db =
      s.store.db.deleteRefs ((generationsOf s.store.db host name).map fun c => c.id) := by
    unfold Sys.purge Store.deleteContainerStep deleteContainer
    cases hg : generationsOf s.store.db host name with
    | nil => exact absurd hg hne
    | cons c cs => rfl
  refine ⟨?_, by simp [Sys.purge, forget, hk], by simp [Sys.purge, forget, hk]⟩
  cases hf : (s.purge host name).store.db.find key with
  | none => rfl
  | some c =>
    obtain ⟨hc, e⟩ := find_mem hf
    rw [hdb] at hc
    obtain ⟨hc, hout⟩ := List.mem_filter.1 hc
    obtain ⟨c', hc', e'⟩ := List.mem_map.1 hk
    have hmem := (List.mem_filter.1 hc').1
    obtain rfl : c = c' := hw.row_eq_of_key hc hmem (e.trans e'.symm)
    simp only [decide_eq_true_eq] at hout
    exact absurd (List.mem_map_of_mem hc') hout

/-- so a backfill that follows at once reads the container from its creation -/
theorem since_after_purge (s : Sys) (host name : String) {key : GenKey} (hk : key ∈ s.purgedKeys host name)
    (hw : WellFormed s.store.db) (createdUnix : ℤ) :
    backfillSince (s.purge host name).resume (s.purge host name).gaps (s.purge host name).store.db key createdUnix =
      createdUnix * 1000000000 := by
  obtain ⟨hrow, hgap, hres⟩ := purge_forgets s host name hk hw
  simp [backfillSince, resumePoint, gapAt, watermark, hrow, hgap, hres]

/-! ## Where a backfill resumes -/

/-- the marks, the gap and the creation of the container say nothing about lines from before `nowNS` -/
structure Recent (point : ResumePoint) (gap createdUnix nowNS : ℤ) : Prop where
  stdout : point.stdoutWM ≠ 0 → nowNS ≤ point.stdoutWM
  stderr : point.stderrWM ≠ 0 → nowNS ≤ point.stderrWM
  created : point.stdoutWM = 0 → point.stderrWM = 0 → nowNS - backfillOverlap ≤ createdUnix * 1000000000
  gap : gap ≠ 0 → nowNS ≤ gap

theorem watermark_eq_zero {a b : ℤ} : watermark a b = 0 ↔ a = 0 ∧ b = 0 := by
  unfold watermark
  split_ifs with ha hb
  · simp [ha]
  · simp [hb, ha]
  · rcases min_choice a b with e | e
    · simp [e, ha]
    · simp [e, hb]

/-- the resume mark is from later when every mark is -/
theorem le_watermark {a b x : ℤ} (h : watermark a b ≠ 0) :
    x ≤ watermark a b ↔ (a ≠ 0 → x ≤ a) ∧ (b ≠ 0 → x ≤ b) := by
  unfold watermark at h ⊢
  split_ifs at h ⊢ with ha hb
  · simp [ha, h]
  · simp [hb, ha]
  · simp [ha, hb]

theorem since_recent_iff (resume : Resume) (gaps : Gaps) (db : DB) (key : GenKey) (createdUnix nowNS : ℤ) :
    nowNS - backfillOverlap ≤ backfillSince resume gaps db key createdUnix ↔
      Recent (resumePoint resume db key) (gapAt gaps key) createdUnix nowNS := by
  unfold backfillSince
  dsimp only
  generalize resumePoint resume db key = point
  generalize gapAt gaps key = gap
  -- the marks, or the creation
  have hmarks : nowNS - backfillOverlap ≤
      (if watermark point.stdoutWM point.stderrWM ≠ 0 then watermark point.stdoutWM point.stderrWM - backfillOverlap
        else createdUnix * 1000000000) ↔
      (point.stdoutWM ≠ 0 → nowNS ≤ point.stdoutWM) ∧ (point.stderrWM ≠ 0 → nowNS ≤ point.stderrWM) ∧
        (point.stdoutWM = 0 → point.stderrWM = 0 → nowNS - backfillOverlap ≤ createdUnix * 1000000000) := by
    split_ifs with hwm
    · have hle := le_watermark (x := nowNS) hwm
      have hsome : ¬ (point.stdoutWM = 0 ∧ point.stderrWM = 0) := fun h => hwm (watermark_eq_zero.2 h)
      constructor
      · intro h
        obtain ⟨ho, he⟩ := hle.1 (by omega)
        exact ⟨ho, he, fun h₁ h₂ => absurd ⟨h₁, h₂⟩ hsome⟩
      · intro ⟨ho, he, _⟩
        have := hle.2 ⟨ho, he⟩
        omega
    · obtain ⟨ho, he⟩ := watermark_eq_zero.1 (not_not.1 hwm)
      simp [ho, he]
  generalize (if watermark point.stdoutWM point.stderrWM ≠ 0 then
    watermark point.stdoutWM point.stderrWM - backfillOverlap else createdUnix * 1000000000) = since at hmarks ⊢
  constructor
  · intro h
    split_ifs at h with hgap hlt
    · obtain ⟨ho, he, hc⟩ := hmarks.1 (by omega)
      exact ⟨ho, he, hc, fun _ => by omega⟩
    · obtain ⟨ho, he, hc⟩ := hmarks.1 h
      exact ⟨ho, he, hc, fun _ => by omega⟩
    · obtain ⟨ho, he, hc⟩ := hmarks.1 h
      exact ⟨ho, he, hc, fun hne => absurd hne hgap⟩
  · intro ⟨ho, he, hc, hg⟩
    have h := hmarks.2 ⟨ho, he, hc⟩
    split_ifs with hgap hlt
    · have := hg hgap
      omega
    · exact h
    · exact h

/-! ## What the bookkeeping says of the past -/

/-- the bookkeeping of every generation agrees with its past -/
structure Recorded (s : Sys) (p : Past) : Prop where
  accounted : Accounted s.store.db
  marks : ∀ key st, wmAt s.store.db key st = top (p.filed key st)
  resume : ∀ key, s.resume key = (p.atStart key).map fun ts => ⟨top (ts .stdout), top (ts .stderr)⟩
  gaps : ∀ key, Earliest (s.gaps key) (p.dropped key)

theorem top_eq_zero {ts : List ℤ} : top ts = 0 ↔ ∀ t ∈ ts, t ≤ 0 := by
  constructor
  · intro h t ht
    exact h ▸ le_top ht
  · intro h
    induction ts with
    | nil => rfl
    | cons t ts ih =>
      rw [top, List.foldr_cons]
      have hrest : ts.foldr max 0 = 0 := ih fun t' ht' => h t' (List.mem_cons_of_mem t ht')
      rw [hrest, max_eq_right (h t List.mem_cons_self)]

theorem top_mem {ts : List ℤ} (h : top ts ≠ 0) : top ts ∈ ts := by
  induction ts with
  | nil => exact absurd rfl h
  | cons t ts ih =>
    rw [top, List.foldr_cons] at h ⊢
    rcases max_choice t (ts.foldr max 0) with e | e
    · rw [e]
      exact List.mem_cons_self
    · rw [e] at h ⊢
      exact List.mem_cons_of_mem t (ih h)

/-- the mark of a stream is from later when one of its lines is -/
theorem le_top_iff {ts : List ℤ} {x : ℤ} : (top ts ≠ 0 → x ≤ top ts) ↔ ((∃ t ∈ ts, 0 < t) → ∃ t ∈ ts, x ≤ t) := by
  have hzero : top ts ≠ 0 ↔ ∃ t ∈ ts, 0 < t := by
    rw [ne_eq, top_eq_zero]
    push Not
    rfl
  constructor
  · intro h hpos
    exact ⟨top ts, top_mem (hzero.2 hpos), h (hzero.2 hpos)⟩
  · intro h hne
    obtain ⟨t, ht, hle⟩ := h (hzero.1 hne)
    exact hle.trans (le_top ht)

/-- the gap is from later when every line lost is -/
theorem le_gap_iff {gap : Option ℤ} {ts : List ℤ} (h : Earliest gap ts) {x : ℤ} :
    (gap.getD 0 ≠ 0 → x ≤ gap.getD 0) ↔ ∀ t ∈ ts, x ≤ t ∨ (0 ∈ ts ∧ ∀ t' ∈ ts, 0 ≤ t') := by
  cases gap with
  | none =>
    obtain rfl : ts = [] := h
    simp
  | some g =>
    obtain ⟨hmem, hmin⟩ := h
    rw [Option.getD_some]
    constructor
    · intro hle t ht
      by_cases hg : g = 0
      · exact Or.inr ⟨hg ▸ hmem, fun t' ht' => hg ▸ hmin t' ht'⟩
      · exact Or.inl ((hle hg).trans (hmin t ht))
    · intro hall hg
      rcases hall g hmem with hle | ⟨hzero, hnonneg⟩
      · exact hle
      · exact absurd (le_antisymm (hmin 0 hzero) (hnonneg g hmem)) hg

theorem Recorded.resumePoint_eq {s : Sys} {p : Past} (h : Recorded s p) (key : GenKey) :
    resumePoint s.resume s.store.db key = ⟨top (p.basis key .stdout), top (p.basis key .stderr)⟩ := by
  have hrow := h.marks key
  unfold resumePoint Past.basis
  rw [h.resume key]
  cases p.atStart key with
  | some ts => rfl
  | none =>
    simp only [Option.map_none, Option.getD_none, ← hrow]
    cases hf : s.store.db.find key <;> simp [wmAt, hf, ContainerRow.wm]

/-- **Where a backfill resumes**, in terms of the past of its generation. -/
theorem Recorded.since_iff {s : Sys} {p : Past} (h : Recorded s p) (key : GenKey) (createdUnix nowNS : ℤ) :
    nowNS - backfillOverlap ≤ backfillSince s.resume s.gaps s.store.db key createdUnix ↔
      Superseded p key createdUnix nowNS := by
  rw [since_recent_iff, h.resumePoint_eq key]
  constructor
  · intro ⟨hout, herr, hcreated, hgap⟩
    refine ⟨fun st => ?_, fun hall => ?_, (le_gap_iff (h.gaps key)).1 hgap⟩
    · cases st
      · exact le_top_iff.1 hout
      · exact le_top_iff.1 herr
    · exact hcreated (top_eq_zero.2 (hall .stdout)) (top_eq_zero.2 (hall .stderr))
  · intro ⟨hstored, hcreated, hdropped⟩
    refine ⟨le_top_iff.2 (hstored .stdout), le_top_iff.2 (hstored .stderr), fun hout herr => ?_,
      (le_gap_iff (h.gaps key)).2 hdropped⟩
    apply hcreated
    intro st
    cases st
    · exact top_eq_zero.1 hout
    · exact top_eq_zero.1 herr

/-! ### One action -/

/-- only a report and a purge touch the resume points -/
theorem resume_act (s : Sys) {a : Pipeline.Act} (hhandle : ∀ k, a ≠ .handle k)
    (hpurge : ∀ host name, a ≠ .purge host name ∧ a ≠ .purgeFails host name) : (s.act a).resume = s.resume := by
  cases a with
  | deliver =>
    rcases deliver_cases s with e | ⟨r, rest, -, e⟩
    · rw [act, e]
    · rw [act, e]
      rcases sink_cases { s with hub := rest } r with e | e
      · rw [e]
        rfl
      · rw [e]
  | take =>
    rcases take_cases s with e | ⟨m, rest, -, e⟩ <;> rw [act, e]
  | flush nowMS ok =>
    rcases flush_cases s nowMS ok with e | e | ⟨store, -, e⟩ <;> rw [act, e]
    rfl
  | resolve key ok =>
    rcases resolve_cases s key ok with e | ⟨info, -, e⟩ <;> rw [act, e]
    rfl
  | read key =>
    rcases read_cases s key with e | ⟨info, since, -, e⟩ <;> rw [act, e]
    rfl
  | send key =>
    rcases send_cases s key with e | ⟨info, since, began, l, rest, -, e⟩ <;> rw [act, e]
    rfl
  | endRead key how =>
    rcases endRead_cases s key how with e | ⟨info, since, began, rest, reason, phase, -, -, e, -⟩ <;> rw [act, e]
    rfl
  | handle key => exact absurd rfl (hhandle key)
  | purge host name => exact absurd rfl (hpurge host name).1
  | purgeFails host name => exact absurd rfl (hpurge host name).2
  | _ => rfl

/-- a report of a completed backfill retires the resume point of its generation, and its gap perhaps -/
theorem handle_retires (s : Sys) (key : GenKey) :
    (∀ k, (s.handle key).resume k = without (closes s (.handle key)) none s.resume k) ∧
      (∀ k, k ≠ key → (s.handle key).gaps k = s.gaps k) ∧
      ((s.handle key).gaps key = none ∨ (s.handle key).gaps key = s.gaps key) ∧ (s.handle key).store = s.store := by
  unfold handle
  split
  · rename_i info since began htask
    have hcloses : closes s (.handle key) = [key] := by simp [closes, htask]
    refine ⟨fun k => ?_, fun k hk => ?_, ?_, rfl⟩
    · rw [hcloses]
      by_cases hk : k = key
      · subst hk
        simp only [without, List.mem_singleton, if_true, Tracker.complete]
        split_ifs <;> simp
      · simp only [without, List.mem_singleton, if_neg hk, Tracker.complete]
        split_ifs <;> simp [hk]
    · simp only [Tracker.complete]
      split_ifs
      · exact clearGap_other s.gaps hk _
      · rfl
    · simp only [Tracker.complete]
      split_ifs
      · simp only [clearGap]
        split_ifs
        · exact Or.inl (Function.update_self _ _ _)
        · exact Or.inr rfl
      · exact Or.inr rfl
  · rename_i htask
    have hcloses : closes s (.handle key) = [] := by simp [closes, htask]
    exact ⟨fun k => by simp [without, hcloses], fun _ _ => rfl, Or.inr rfl, rfl⟩
  · rename_i htask
    have hcloses : closes s (.handle key) = [] := by simp [closes, htask]
    exact ⟨fun k => by simp [without, hcloses], fun _ _ => rfl, Or.inr rfl, rfl⟩
  · have hcloses : closes s (.handle key) = [] := by simp only [closes]
    exact ⟨fun k => by simp [without, hcloses], fun _ _ => rfl, Or.inr rfl, rfl⟩

/-- what a purge forgets, its ghosts forget -/
theorem recorded_forget {s : Sys} {p : Past} (h : Recorded s p) (keys : List GenKey) (key : GenKey) :
    forget s.resume keys key =
        (without keys none p.atStart key).map (fun ts => ⟨top (ts .stdout), top (ts .stderr)⟩) ∧
      Earliest (forget s.gaps keys key) (without keys [] p.dropped key) := by
  by_cases hk : key ∈ keys
  · simp [forget, without, hk, Earliest]
  · simp only [forget, without, if_neg hk]
    exact ⟨h.resume key, h.gaps key⟩

/-- a purge that commits deletes the rows of its generations, and leaves the others -/
theorem wmAt_purge {s : Sys} (h : Accounted s.store.db) (host name : String) (key : GenKey) (st : Stream) :
    wmAt (s.purge host name).store.db key st =
      if key ∈ s.purgedKeys host name then 0 else wmAt s.store.db key st := by
  obtain ⟨hist, ha⟩ := h
  have hw := ha.toWellFormed
  split_ifs with hk
  · exact wmAt_of_find_none (purge_forgets s host name hk hw).1 st
  · -- the row of another generation is not among those deleted
    have hw' : WellFormed (s.purge host name).store.db := step_wellFormed hw (.deleteContainer host name true)
    have hdb : (s.purge host name).store.db =
        s.store.db.deleteRefs ((generationsOf s.store.db host name).map fun c => c.id) := deleteContainerStep_db _ _ _
    cases hold : s.store.db.find key with
    | none =>
      rw [wmAt_of_find_none hold, wmAt_of_find_none]
      cases hnew : (s.purge host name).store.db.find key with
      | none => rfl
      | some c =>
        obtain ⟨hc, hkey⟩ := find_mem hnew
        rw [hdb] at hc
        exact absurd hkey (find_none hold c (List.mem_filter.1 hc).1)
    | some c =>
      obtain ⟨hc, rfl⟩ := find_mem hold
      have hstays : c ∈ (s.purge host name).store.db.containers := by
        rw [hdb]
        refine List.mem_filter.2 ⟨hc, ?_⟩
        rw [decide_eq_true_eq]
        intro hmem
        obtain ⟨c', hc', e⟩ := List.mem_map.1 hmem
        obtain rfl := hw.row_eq_of_id (List.mem_filter.1 hc').1 hc e
        exact hk (List.mem_map_of_mem hc')
      rw [wmAt_some (hw'.find_eq hstays), wmAt_some hold]

theorem top_append_eq (ts ts' : List ℤ) {m m' : ℤ} (h : m = top ts) (h' : m' = max m (top ts')) :
    m' = top (ts ++ ts') := by
  rw [h', h, top_append]

/-- **One action of a process** keeps the bookkeeping in agreement with the past. -/
theorem past_proc {s : Sys} {p : Past} (h : Recorded s p) (a : Pipeline.Act) : Recorded (s.act a) (p.proc s a) := by
  have hacc := accounted_act h.accounted a
  by_cases hpurge : ∃ host name, a = .purge host name
  · obtain ⟨host, name, rfl⟩ := hpurge
    refine ⟨hacc, fun key st => ?_, fun key => (recorded_forget h _ key).1, fun key => (recorded_forget h _ key).2⟩
    simp only [act, Past.proc, wmAt_purge h.accounted, without]
    split_ifs
    · rfl
    · exact h.marks key st
  by_cases hfails : ∃ host name, a = .purgeFails host name
  · obtain ⟨host, name, rfl⟩ := hfails
    refine ⟨hacc, fun key st => ?_, fun key => (recorded_forget h _ key).1, fun key => (recorded_forget h _ key).2⟩
    show wmAt (s.store.deleteContainerStep host name false).db key st = _
    rw [purgeFails_db]
    exact h.marks key st
  by_cases hhandle : ∃ key, a = .handle key
  · obtain ⟨key, rfl⟩ := hhandle
    obtain ⟨hres, hother, hself, hstore⟩ := handle_retires s key
    refine ⟨hacc, fun k st => ?_, fun k => ?_, fun k => ?_⟩
    · show wmAt (s.handle key).store.db k st = _
      rw [hstore]
      exact h.marks k st
    · show (s.handle key).resume k = _
      rw [hres k]
      simp only [Past.proc, without]
      split_ifs
      · rfl
      · exact h.resume k
    · show Earliest ((s.handle key).gaps k) _
      simp only [Past.proc]
      by_cases hk : k = key
      · subst hk
        split_ifs with hnone
        · rw [hnone, Function.update_self]
          rfl
        · rw [hself.resolve_left hnone]
          exact h.gaps k
      · rw [hother k hk]
        split_ifs
        · rw [Function.update_of_ne hk]
          exact h.gaps k
        · exact h.gaps k
  · -- everything else stores lines, loses lines, or does neither
    push Not at hpurge hfails hhandle
    have hboth : ∀ host name, a ≠ .purge host name ∧ a ≠ .purgeFails host name :=
      fun host name => ⟨hpurge host name, hfails host name⟩
    have hpast : p.proc s a =
        { p with filed := fun key st => p.filed key st ++ storedNow s.store.db (s.act a).store.db key st
                 dropped := fun key => p.dropped key ++ timesOf (lostNow s a) key } := by
      cases a with
      | handle key => exact absurd rfl (hhandle key)
      | purge host name => exact absurd rfl (hpurge host name)
      | purgeFails host name => exact absurd rfl (hfails host name)
      | _ => rfl
    rw [hpast]
    refine ⟨hacc, fun key st => ?_, fun key => ?_, fun key => earliest_act (h.gaps key) hhandle hboth⟩
    · exact top_append_eq _ _ (h.marks key st) (wmAt_act h.accounted hpurge key st)
    · rw [resume_act s hhandle hboth]
      exact h.resume key

/-! ### Runs -/

theorem recorded_start {s : Sys} {p : Past} (h : Recorded s p) (snapshot : Bool) :
    Recorded { World.survivors s with resume := if snapshot then snapshotResume s.store.db else fun _ => none }
      { p with atStart := fun key => if snapshot ∧ (s.store.db.find key).isSome then some (p.filed key) else none
               dropped := fun _ => [] } := by
  refine ⟨h.accounted, h.marks, fun key => ?_, fun key => rfl⟩
  cases snapshot with
  | false => simp
  | true =>
    have hrow := h.marks key
    simp only [if_true, true_and, snapshotResume]
    cases hf : s.store.db.find key with
    | none => simp
    | some c =>
      have hout := hrow .stdout
      have herr := hrow .stderr
      rw [wmAt_some hf] at hout herr
      simp [← hout, ← herr, ContainerRow.wm]

theorem recorded_exit {s : Sys} {p : Past} (h : Recorded s p) :
    Recorded (World.survivors s) { p with atStart := fun _ => none, dropped := fun _ => [] } :=
  ⟨h.accounted, h.marks, fun _ => rfl, fun _ => rfl⟩

/-- a prune deletes the rows it deletes, and no line -/
theorem recorded_prune {s : Sys} {p : Past} (h : Recorded s p) :
    Recorded { s with store := { s.store with db := pruneEmptyGenerations s.store.db } }
      { p with filed := fun key st =>
          if (pruneEmptyGenerations s.store.db).find key = none then [] else p.filed key st } := by
  refine ⟨accounted_step h.accounted .pruneEmptyGenerations, fun key st => ?_, h.resume, h.gaps⟩
  dsimp only
  split_ifs with hgone
  · exact wmAt_of_find_none hgone st
  · obtain ⟨hist, ha⟩ := h.accounted
    obtain ⟨c, hnew⟩ := Option.ne_none_iff_exists'.1 hgone
    obtain ⟨hc, rfl⟩ := find_mem hnew
    rw [wmAt_some hnew, ← h.marks c.key st, wmAt_some (ha.toWellFormed.find_eq (List.mem_filter.1 hc).1)]

theorem recorded_step {w : World} {p : Past} (h : Recorded w.sys p) (a : Restart.Act) :
    Recorded (w.step a).sys (p.step w a) := by
  cases a with
  | start snapshot =>
    by_cases hd : w.mode = .down
    · simp only [World.step, Past.step, if_pos hd]
      exact recorded_start h snapshot
    · simp only [World.step, Past.step, if_neg hd]
      exact h
  | stop =>
    simp only [World.step, Past.step]
    split_ifs
    · exact ⟨h.accounted, h.marks, h.resume, h.gaps⟩
    · exact h
  | exit => exact recorded_exit h
  | proc a =>
    simp only [World.step, Past.step]
    cases w.pipe a with
    | none => exact h
    | some a' =>
      obtain ⟨hacc, hmarks, hres, hgaps⟩ := past_proc h a'
      exact ⟨hacc, hmarks, hres, hgaps⟩
  | prune =>
    simp only [World.step, Past.step]
    split_ifs
    · exact h
    · exact recorded_prune h
  | skip key =>
    simp only [World.step, Past.step]
    split_ifs
    · unfold World.skip
      split
      · exact ⟨h.accounted, h.marks, h.resume, h.gaps⟩
      · exact h
    · exact h

/-- **The bookkeeping says what the past is**, in every run, across restarts. -/
theorem step_inv (p : Purged) (o : Timed) (h : Recorded p.world.sys p.past) :
    Recorded (p.step o).world.sys (p.step o).past := recorded_step h o.act

theorem recorded_init : Recorded Purged.init.world.sys Purged.init.past :=
  ⟨⟨fun _ _ => [], accounts_empty _⟩, fun _ _ => rfl, fun _ => rfl, fun _ => rfl⟩

/-! ## Backfills after a purge -/

/-- a backfill works out its `since` in one way only -/
theorem resolves_iff {w : World} {a : Restart.Act} {key : GenKey} {info : ContainerInfo} {since : ℤ}
    (hwait : w.sys.tasks key = some ⟨info, .waiting⟩) :
    (w.step a).sys.tasks key = some ⟨info, .resolved since⟩ ↔
      a = .proc (.resolve key true) ∧ w.mode ≠ .down ∧
        since = backfillSince w.sys.resume w.sys.gaps w.sys.store.db key info.created := by
  have hsame : w.sys.tasks key ≠ some ⟨info, .resolved since⟩ := by
    rw [hwait]
    intro e
    cases e
  constructor
  · intro h
    cases a with
    | start snapshot =>
      by_cases hd : w.mode = .down
      · rw [World.step, if_pos hd] at h
        cases h
      · rw [World.step, if_neg hd] at h
        exact absurd h hsame
    | stop =>
      simp only [World.step] at h
      split_ifs at h
      · exact absurd h hsame
      · exact absurd h hsame
    | exit => cases h
    | prune =>
      simp only [World.step] at h
      split_ifs at h
      · exact absurd h hsame
      · exact absurd h hsame
    | skip key' =>
      simp only [World.step] at h
      split_ifs at h
      · refine absurd h ?_
        unfold World.skip
        split
        · rename_i info' since' began l rest hread
          simp only [setPhase, Function.update_apply]
          split_ifs
          · intro e
            cases e
          · exact hsame
        · exact hsame
      · exact absurd h hsame
    | proc a =>
      simp only [World.step] at h
      cases hp : w.pipe a with
      | none =>
        rw [hp] at h
        exact absurd h hsame
      | some a' =>
        rw [hp] at h
        have hstep := act_tasks w.sys a' key
        have htask : (w.sys.act a').tasks key = some ⟨info, .resolved since⟩ := h
        rw [htask] at hstep
        generalize ht : some (⟨info, .resolved since⟩ : Task) = task at hstep
        cases hstep with
        | same => exact absurd ht.symm hsame
        | resolve info' hwait' =>
          cases ht
          rcases pipe_some hp with ⟨rfl, -⟩ | ⟨r, e⟩
          · refine ⟨rfl, fun hdown => ?_, rfl⟩
            simp [World.pipe, hdown] at hp
          · cases e
        | _ => cases ht
  · rintro ⟨rfl, hmode, hsince⟩
    have hp : w.pipe (.resolve key true) = some (.resolve key true) := by simp [World.pipe, hmode]
    simp only [World.step, hp]
    show (w.sys.resolve key true).tasks key = _
    simp [Sys.resolve, hwait, setPhase, hsince]

theorem stands_iff_supersedes {p : Purged} (h : Recorded p.world.sys p.past) (o : Timed) :
    Stands p o ↔ Supersedes p o := by
  constructor
  · intro hstands key info ha hmode hwait nowNS hpurge
    apply (h.since_iff key info.created nowNS).1
    exact hstands key info _ hwait ((resolves_iff hwait).2 ⟨ha, hmode, rfl⟩) nowNS hpurge
  · intro hsup key info since hwait hres nowNS hpurge
    obtain ⟨ha, hmode, rfl⟩ := (resolves_iff hwait).1 hres
    exact (h.since_iff key info.created nowNS).2 (hsup key info ha hmode hwait nowNS hpurge)

/-- **A purge stands, exactly.** In every run, across restarts: no backfill that works out its `since` after a purge of
its generation asks the engine for lines from before it, the overlap apart, if and only if what has been stored and lost
since supersedes each such purge, or the container is younger than it. -/
theorem purge_stands_iff (ops : List Timed) :
    Each Purged.step Stands .init ops ↔ Each Purged.step Supersedes .init ops :=
  each_iff step_inv (fun _ o h => stands_iff_supersedes h o) recorded_init

/-! ## A restart after a purge -/

/-- web logs a line at 5 s, is purged at 100 s, and the process restarts; nothing has been logged since -/
def purgeRun : List Timed :=
  (([.start true] : List Restart.Act) ++ commits (webRecord 5000000000) 1).map (fun a => ⟨a, 5000000000⟩) ++
    [⟨.proc (.purge "local" "web"), 100000000000⟩] ++
    [.exit, .start true, .proc (.sync webInfo 2), .proc (.resolve web true)].map fun a => ⟨a, 200000000000⟩

/-- **A restart undoes a purge.** The first backfill of the next process resumes from the creation of the container. -/
theorem restart_undoes_purge : ¬ ∀ ops, Each Purged.step Stands .init ops := by
  intro hall
  obtain ⟨-, -, -, -, -, -, -, -, -, hlast, -⟩ := hall purgeRun
  have hle := hlast web webInfo 1000000000 (by decide) (by decide) 100000000000 (by decide)
  revert hle
  decide

end LogDeck.Purge
