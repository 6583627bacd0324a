/-
The log store across process stops and crashes (`store.go`: `start`, `snapshotResume`; `backfill.go`: `backfillSince`).

A process is the pipeline of `Pipeline`: its queues, gaps, resume points and schedule are memory and go with it; the
database and the engines survive. While a process is up its tails are attached to everything that is logged. At
start it snapshots the watermarks of the rows; the first backfill of a generation resumes from there.

`Complete`: once a backfill of the generation has completed in the current process, the queues have drained and no gap
is outstanding, every line the engine holds is stored. Generations that were purged, that lost lines to an eviction or
that are excluded are exempt.
`Good`: a step at which nothing that is missing is given up:
- the startup backfill of a generation resumes at or below every line that is missing (`SinceSafe`);
- a completed backfill retires no gap over a line it has not read (`ClearSafe`);
- a prune deletes no row whose id the writer still caches, and no row of an excluded generation that has a loss;
- a purge that fails to commit forgets no gap of a line that is missing.

Results:
- `running_step`: one step of the pipeline keeps every line of a completed generation accounted for;
- `restart_complete`: in a run of good steps every generation is complete throughout;
- `crash_hides_downtime`: a live line is committed, the process crashes, and the next one resumes above the downtime;
- `first_line_hides_past`: one process is enough, when the generation has no row at start.
-/
import LogDeck.LogStore.Healing

namespace LogDeck.Restart

open LogDeck.LogStore LogDeck.Convergence LogDeck.Pipeline LogDeck.Pipeline.Sys LogDeck.Healing Machine
open LogDeck.Attribution (PruneSafe)

/-! ## Model -/

/-- a process that is stopping has dropped its subscription and lets its backfills and its writer finish -/
inductive Mode where
  | up
  | stopping
  | down
deriving DecidableEq, Repr

/-- `completed`: generations a backfill has read to the end in this process. `gone`: generations that were purged, or
lost lines to an eviction, in any process. -/
structure World where
  sys : Sys
  mode : Mode
  completed : List GenKey
  gone : List GenKey

inductive Act where
  /-- the process starts; `snapshot = false` when the resume points could not be read, which is only logged -/
  | start (snapshot : Bool)
  | stop
  /-- the process is gone: it crashed, or its shutdown is over -/
  | exit
  | proc (a : Pipeline.Act)
  | prune
  /-- a backfill's send finds the process stopping and gives the line up -/
  | skip (key : GenKey)
deriving DecidableEq, Repr

/-- the generation whose backfill this action reports as completed -/
def closes (s : Sys) : Pipeline.Act → List GenKey
  | .handle key =>
    match s.tasks key with
    | some ⟨_, .completed _ _⟩ => [key]
    | _ => []
  | _ => []

namespace World

def init : World := ⟨.init, .down, [], []⟩

/-- what survives a process -/
def survivors (s : Sys) : Sys := { Sys.init with engine := s.engine, store := ⟨s.store.db, fun _ => none, []⟩ }

/-- a container logs at any time, attached exactly when the process is up; the rest needs a process -/
def pipe (w : World) : Pipeline.Act → Option Pipeline.Act
  | .emit r _ => some (.emit r (w.mode = .up))
  | a => if w.mode = .down then none else some a

def skip (s : Sys) (key : GenKey) : Sys :=
  match s.tasks key with
  | some ⟨info, .reading since began (_ :: rest)⟩ => s.setPhase key info (.reading since began rest)
  | _ => s

def step (w : World) : Act → World
  | .start snapshot =>
    if w.mode = .down then
      let resume := if snapshot then snapshotResume w.sys.store.db else fun _ => none
      { w with sys := { survivors w.sys with resume := resume }, mode := .up, completed := [] }
    else w
  | .stop => if w.mode = .up then { w with sys := { w.sys with hub := [] }, mode := .stopping } else w
  | .exit => { w with sys := survivors w.sys, mode := .down, completed := [] }
  | .proc a =>
    match w.pipe a with
    | none => w
    | some a =>
      { w with sys := w.sys.step a, completed := w.completed ++ closes w.sys a, gone := w.gone ++ removes w.sys a }
  | .prune =>
    if w.mode = .down then w
    else { w with sys := { w.sys with store := { w.sys.store with db := pruneEmptyGenerations w.sys.store.db } } }
  | .skip key => if w.mode = .stopping then { w with sys := skip w.sys key } else w

end World

def Drained (s : Sys) : Prop := s.hub = [] ∧ s.queue = [] ∧ s.batch = []

/-- every line the engine holds for a generation whose startup backfill has completed is stored -/
def Complete (w : World) : Prop :=
  w.mode = .up → Drained w.sys → ∀ key ∈ w.completed, key ∉ w.gone → isExcluded w.sys.store.db key = false →
    w.sys.gaps key = none → ∀ l ∈ w.sys.engine key, (key, l.ident) ∈ Stored w.sys.store.db

/-! ## Safe steps -/

/-- the line is stored, on its way to the store, or among the losses, which have their gaps -/
def Accounted (s : Sys) (key : GenKey) (l : Line) : Prop :=
  (key, l.ident) ∈ s.kept ∨ (∃ x ∈ s.lost, x.tuple = (key, l.ident)) ∨ ∃ r ∈ s.hub, (r.key, r.line.ident) = (key, l.ident)

/-- a first backfill resumes at or below every line that is missing -/
def SinceSafe (s : Sys) (completed gone : List GenKey) : Pipeline.Act → Prop
  | .resolve key true => key ∉ completed → key ∉ gone → ∀ info, s.tasks key = some ⟨info, .waiting⟩ →
      ∀ l ∈ s.engine key, ¬ Accounted s key l → backfillSince s.resume s.gaps s.store.db key info.created ≤ l.tsNS
  | _ => True

/-- a report retires no gap over a line that the backfill has not read, and a purge that fails to commit forgets no gap of
a line that is missing -/
def GapSafe (s : Sys) : Pipeline.Act → Prop
  | .handle key => ClearSafe s (.handle key)
  | .purgeFails host name => ∀ x ∈ s.lost, x.key ∈ s.purgedKeys host name → x.tuple ∈ s.kept
  | _ => True

def Good (w : World) : Act → Prop
  | .proc a => w.mode = .up → GapSafe w.sys a ∧ SinceSafe w.sys w.completed w.gone a
  | .prune => PruneSafe w.sys.store ∧ ∀ x ∈ w.sys.lost, Excluded w.sys.store.db x.key →
      Excluded (pruneEmptyGenerations w.sys.store.db) x.key
  | _ => True

/-! ## The invariant -/

/-- what holds in a process that is up: a completed generation has every line accounted for, and a backfill under way
is going to read what is not -/
structure Running (s : Sys) (completed gone : List GenKey) : Prop extends Healing.Base s where
  settled : ∀ x ∈ s.lost, ¬ Excluded s.store.db x.key → x.tuple ∈ s.kept ∨ Outstanding s.gaps x.key x.line.tsNS
  complete : ∀ key ∈ completed, key ∉ gone → ∀ l ∈ s.engine key, Accounted s key l
  resolved : ∀ key info since, s.tasks key = some ⟨info, .resolved since⟩ → key ∉ gone →
    ∀ l ∈ s.engine key, Accounted s key l ∨ since ≤ l.tsNS
  reading : ∀ key since began rest, s.Reads key since began rest → key ∉ gone →
    ∀ l ∈ s.engine key, Accounted s key l ∨ l ∈ rest

structure Inv (w : World) : Prop where
  store : Consistent w.sys.store
  running : w.mode = .up → Running w.sys w.completed w.gone

theorem Inv.complete {w : World} (h : Inv w) : Complete w := by
  intro hup ⟨hhub, hqueue, hbatch⟩ key hkey hgone hex hgap l hl
  have hr := h.running hup
  have stored : (key, l.ident) ∈ w.sys.kept → (key, l.ident) ∈ Stored w.sys.store.db := by
    intro hk
    rcases hk with hk | ⟨m, hm, -⟩
    · exact hk
    · rw [hqueue, hbatch] at hm
      cases hm
  rcases hr.complete key hkey hgone l hl with hk | ⟨x, hx, e⟩ | ⟨r, hr, -⟩
  · exact stored hk
  · -- a loss is stored again, or it still has its gap
    have ek : x.key = key := congrArg (·.1) e
    have hx' : ¬ Excluded w.sys.store.db x.key := by
      rw [ek]
      exact hr.excluded_iff.1 hex
    rcases hr.settled x hx hx' with hk | ⟨gap, hg, -⟩
    · exact stored (e ▸ hk)
    · rw [ek, hgap] at hg
      cases hg
  · rw [hhub] at hr
    cases hr

/-! ## One action of the pipeline -/

variable {s : Sys} {a : Pipeline.Act} {completed gone : List GenKey}

theorem accounted_act (h : Consistent s.store) {key : GenKey} {l : Line} (hl : Accounted s key l)
    (hd : key ∉ removes s a) : Accounted (s.act a) key l := by
  have hnot : ¬ Dismissed s a (key, l.ident) := fun h => hd (dismissed_removes h)
  rcases hl with hk | ⟨x, hx, e⟩ | ⟨r, hr, e⟩
  · rcases (act_frame h a).kept _ hk with hk | hdis | ⟨y, hy, e, -⟩
    · exact Or.inl hk
    · exact absurd hdis hnot
    · exact Or.inr (Or.inl ⟨y, hy, e⟩)
  · rcases (act_frame h a).lost x hx with hx | hdis
    · exact Or.inr (Or.inl ⟨x, hx, e⟩)
    · exact absurd (e ▸ hdis) hnot
  · rcases act_hub a hr with hr | hk | ⟨x, hx, ex⟩
    · exact Or.inr (Or.inr ⟨r, hr, e⟩)
    · exact Or.inl (e ▸ hk)
    · exact Or.inr (Or.inl ⟨x, hx, ex.trans e⟩)

/-- a line the engine holds now was there before, or a tail has just handed it to the hub -/
theorem engine_act (hatt : ∀ r attached, a = .emit r attached → attached = true) {key : GenKey} {l : Line}
    (hl : l ∈ (s.act a).engine key) : l ∈ s.engine key ∨ Accounted (s.act a) key l := by
  cases he : touches a .engine with
  | true =>
    obtain ⟨r, attached, rfl⟩ := touches_engine he
    obtain rfl := hatt r attached rfl
    rcases mem_engine_emit.1 hl with hl | ⟨rfl, rfl⟩
    · exact Or.inl hl
    · exact Or.inr (Or.inr (Or.inr ⟨r, List.mem_append_right _ (List.mem_singleton_self _), rfl⟩))
  | false =>
    rw [(act_untouched s a).engine he] at hl
    exact Or.inl hl

theorem complete_step (h : Running s completed gone) (hatt : ∀ r attached, a = .emit r attached → attached = true)
    (key : GenKey) (hkey : key ∈ completed ++ closes s a) (hgone : key ∉ gone ++ removes s a) (l : Line)
    (hl : l ∈ (s.act a).engine key) : Accounted (s.act a) key l := by
  rw [List.mem_append, not_or] at hgone
  rcases engine_act hatt hl with hold | hnew
  · rcases List.mem_append.1 hkey with hkey | hkey
    · exact accounted_act h.store (h.complete key hkey hgone.1 l hold) hgone.2
    · -- the backfill that has just completed has sent all it was going to read
      cases a with
      | handle key' =>
        simp only [closes] at hkey
        split at hkey
        · rename_i info since began htask
          obtain rfl := List.mem_singleton.1 hkey
          rcases h.reading key since began [] (Or.inr ⟨rfl, info, htask⟩) hgone.1 l hold with hacc | hrest
          · exact accounted_act h.store hacc hgone.2
          · cases hrest
        · cases hkey
      | _ => cases hkey
  · exact hnew

theorem resolved_step (h : Running s completed gone) (hs : SinceSafe s completed gone a)
    (hatt : ∀ r attached, a = .emit r attached → attached = true) (key : GenKey) (info : ContainerInfo) (since : ℤ)
    (htask : (s.act a).tasks key = some ⟨info, .resolved since⟩) (hgone : key ∉ gone ++ removes s a) (l : Line)
    (hl : l ∈ (s.act a).engine key) : Accounted (s.act a) key l ∨ since ≤ l.tsNS := by
  rw [List.mem_append, not_or] at hgone
  rcases engine_act hatt hl with hold | hnew
  · have hstep := act_tasks s a key
    rw [htask] at hstep
    generalize ht : some (⟨info, .resolved since⟩ : Task) = task at hstep
    cases hstep with
    | same =>
      rcases h.resolved key info since ht.symm hgone.1 l hold with hacc | hle
      · exact Or.inl (accounted_act h.store hacc hgone.2)
      · exact Or.inr hle
    | resolve info' hwait =>
      cases ht
      by_cases hacc : Accounted s key l
      · exact Or.inl (accounted_act h.store hacc hgone.2)
      · by_cases hc : key ∈ completed
        · exact absurd (h.complete key hc hgone.1 l hold) hacc
        · exact Or.inr (hs hc hgone.1 info hwait l hold hacc)
    | _ => cases ht
  · exact Or.inl hnew

theorem reading_step (h : Running s completed gone) (hatt : ∀ r attached, a = .emit r attached → attached = true)
    (key : GenKey) (since : ℤ) (began : ℕ) (rest' : List Line) (hr : (s.act a).Reads key since began rest')
    (hgone : key ∉ gone ++ removes s a) (l : Line) (hl : l ∈ (s.act a).engine key) :
    Accounted (s.act a) key l ∨ l ∈ rest' := by
  rw [List.mem_append, not_or] at hgone
  rcases engine_act hatt hl with hold | hnew
  · rcases act_reads a hr with ⟨rest, h₀, -, hsent⟩ | ⟨-, hrest, info, hres⟩
    · rcases h.reading key since began rest h₀ hgone.1 l hold with hacc | hin
      · exact Or.inl (accounted_act h.store hacc hgone.2)
      · rcases hsent l hin with hin | hk
        · exact Or.inr hin
        · exact Or.inl (Or.inl hk)
    · rcases h.resolved key info since hres hgone.1 l hold with hacc | hle
      · exact Or.inl (accounted_act h.store hacc hgone.2)
      · right
        rw [hrest]
        exact List.mem_filter.2 ⟨hold, by simpa using hle⟩
  · exact Or.inl hnew

theorem settled_step (h : Running s completed gone) (hs : GapSafe s a) (x : Loss) (hx : x ∈ (s.act a).lost)
    (hex : ¬ Excluded (s.act a).store.db x.key) :
    x.tuple ∈ (s.act a).kept ∨ Outstanding (s.act a).gaps x.key x.line.tsNS := by
  rcases (act_frame h.store a).fresh x hx with ⟨hx₀, hd⟩ | ⟨-, ho⟩
  · have hex₀ := not_excluded_act h.toBase hd hex
    rcases h.settled x hx₀ hex₀ with hk | ho
    · exact settled_of_kept h.toBase hk hd
    · rcases (act_frame h.store a).gaps _ _ ho with ho | hclears | hall
      · exact Or.inr ho
      · refine settled_of_kept h.toBase ?_ hd
        cases a with
        | handle key => exact kept_of_clears h.toBase hs hx₀ hex₀ hclears
        | purgeFails host name => exact hs x hx₀ hclears
        | _ => exact hclears.elim
      · exact absurd (hall _) hd
  · exact Or.inr ho

/-- **One step of a process that is up.** -/
theorem running_step (h : Running s completed gone) (hc : GapSafe s a) (hs : SinceSafe s completed gone a)
    (hatt : ∀ r attached, a = .emit r attached → attached = true) :
    Running (s.step a) (completed ++ closes s a) (gone ++ removes s a) :=
  { base_step s a h.toBase with
    settled := settled_step h hc
    complete := complete_step h hatt
    resolved := resolved_step h hs hatt
    reading := reading_step h hatt }

/-! ## Starting, pruning, purging -/

theorem consistent_restart {st : Store} (h : Consistent st) : Consistent ⟨st.db, fun _ => none, []⟩ :=
  { h.toWellFormed with
    cache := fun k r hr => by cases hr
    filed := h.filed
    accounts := h.accounts }

/-- a process that has just started has nothing to remember -/
theorem running_start {s : Sys} (h : Consistent s.store) (resume : Resume) (gone : List GenKey) :
    Running { World.survivors s with resume := resume } [] gone := by
  have hidle : ∀ {key since began rest}, ¬ Sys.Reads { World.survivors s with resume := resume } key since began rest := by
    intro key since began rest hr
    rcases hr with ⟨info, hr⟩ | ⟨-, info, hr⟩
    · cases hr
    · cases hr
  refine { held := ?_, reads := ?_, store := consistent_restart h, past := ?_, opened := ?_, flying := ?_,
           reread := ?_, settled := ?_, complete := ?_, resolved := ?_, reading := ?_ }
  · intro key l hl
    cases hl with
    | record r hr _ _ => cases hr
    | message m hm _ _ => cases hm
    | loss x hx _ _ => cases hx
  · intro key since began rest hr
    exact absurd hr hidle
  · intro x hx
    cases hx
  · intro key since began rest hr
    exact absurd hr hidle
  · intro key task ht
    cases ht
  · intro key since began rest hr
    exact absurd hr hidle
  · intro x hx
    cases hx
  · intro key hkey
    cases hkey
  · intro key info since ht
    cases ht
  · intro key since began rest hr
    exact absurd hr hidle

/-- a write that keeps the stored lines, and what is known of the losses -/
theorem running_store (h : Running s completed gone) {st : Store} (hc : Consistent st)
    (hst : Stored st.db = Stored s.store.db)
    (hset : ∀ x ∈ s.lost, ¬ Excluded st.db x.key → x.tuple ∈ s.kept ∨ Outstanding s.gaps x.key x.line.tsNS) :
    Running { s with store := st } completed gone := by
  have hk : Sys.kept { s with store := st } = s.kept := by
    unfold kept
    rw [hst]
  have hacc : ∀ {key l}, Accounted s key l → Accounted { s with store := st } key l := by
    intro key l hl
    rcases hl with hl | hl
    · exact Or.inl (hk.symm ▸ hl)
    · exact Or.inr hl
  refine { held := ?_, reads := h.reads, store := hc, past := h.past, opened := h.opened,
           flying := h.flying, reread := ?_, settled := ?_, complete := ?_, resolved := ?_, reading := ?_ }
  · intro key l hl
    exact h.held (hl.same s rfl rfl rfl (List.Subset.refl _))
  · intro key since began rest hr x hx
    rw [hk]
    exact h.reread key since began rest hr x hx
  · intro x hx hex
    rw [hk]
    exact hset x hx hex
  · intro key hkey hgone l hl
    exact hacc (h.complete key hkey hgone l hl)
  · intro key info since ht hgone l hl
    exact (h.resolved key info since ht hgone l hl).imp_left hacc
  · intro key since began rest hr hgone l hl
    exact (h.reading key since began rest hr hgone l hl).imp_left hacc

theorem stored_prune (db : DB) : Stored (pruneEmptyGenerations db) = Stored db := by
  ext t
  refine exists_congr fun r => and_congr_right fun hr => and_congr_left fun _ => ?_
  constructor
  · intro ⟨c, hc, e⟩
    exact ⟨c, (List.mem_filter.1 hc).1, e⟩
  · intro ⟨c, hc, e, hk⟩
    -- the row holds the line, so it is not empty
    refine ⟨c, List.mem_filter.2 ⟨hc, ?_⟩, e, hk⟩
    rw [decide_eq_true_eq]
    intro hempty
    exact hempty.2 r hr e.symm

/-! ## Runs -/

theorem pipe_some {w : World} {a a' : Pipeline.Act} (h : w.pipe a = some a') :
    (a' = a ∧ ∀ r attached, a ≠ .emit r attached) ∨ ∃ r, a' = .emit r (w.mode = .up) := by
  cases a with
  | emit r attached => exact Or.inr ⟨r, (Option.some.inj h).symm⟩
  | _ =>
    simp only [World.pipe] at h
    split_ifs at h
    exact Or.inl ⟨(Option.some.inj h).symm, fun _ _ e => by cases e⟩

theorem skip_store (s : Sys) (key : GenKey) : (World.skip s key).store = s.store := by
  unfold World.skip
  split <;> rfl

theorem proc_inv {w : World} (h : Inv w) {a : Pipeline.Act} (hg : Good w (.proc a)) : Inv (w.step (.proc a)) := by
  simp only [World.step]
  cases hp : w.pipe a with
  | none => exact h
  | some a' =>
    refine ⟨step_consistent h.store a', fun hup => ?_⟩
    obtain ⟨hc, hs⟩ := hg hup
    rcases pipe_some hp with ⟨rfl, hne⟩ | ⟨r, rfl⟩
    · exact running_step (h.running hup) hc hs fun r attached e => absurd e (hne r attached)
    · refine running_step (h.running hup) trivial trivial fun r' attached e => ?_
      cases e
      exact decide_eq_true hup

theorem step_inv (w : World) (a : Act) (h : Inv w) (hg : Good w a) : Inv (w.step a) := by
  cases a with
  | start snapshot =>
    by_cases hd : w.mode = .down
    · rw [World.step, if_pos hd]
      exact ⟨consistent_restart h.store, fun _ => running_start h.store _ _⟩
    · rw [World.step, if_neg hd]
      exact h
  | stop =>
    simp only [World.step]
    split_ifs
    · exact ⟨h.store, fun hup => by cases hup⟩
    · exact h
  | exit => exact ⟨consistent_restart h.store, fun hup => by cases hup⟩
  | proc a => exact proc_inv h hg
  | prune =>
    have hc := consistent_step h.store .pruneEmptyGenerations hg.1
    simp only [World.step]
    split_ifs
    · exact h
    · refine ⟨hc, fun hup => ?_⟩
      have hr := h.running hup
      apply running_store hr hc (stored_prune _)
      intro x hx hex
      exact hr.settled x hx fun he => hex (hg.2 x hx he)
  | skip key =>
    simp only [World.step]
    split_ifs with hstop
    · refine ⟨?_, fun hup => ?_⟩
      · show Consistent (World.skip w.sys key).store
        rw [skip_store]
        exact h.store
      · rw [hstop] at hup
        cases hup
    · exact h

theorem inv_init : Inv .init := ⟨consistent_init, fun hup => by cases hup⟩

/-- **Completeness across restarts.** In a run of good steps, every generation whose startup backfill has completed is
stored in full whenever the queues have drained and it has no gap. -/
theorem restart_complete {acts : List Act} (h : Each World.step Good .init acts) :
    Always World.step Complete .init acts :=
  always_of_each (fun _ h => h.complete) step_inv inv_init h

/-! ## Downtimes -/

/-- a process commits the line that is logged now -/
def commits (r : Record) (nowMS : ℤ) : List Act :=
  [.proc (.emit r true), .proc .deliver, .proc .take, .proc (.flush nowMS true)]

/-- the startup backfill reads one line, to the end, and is handled -/
def backfills (nowMS : ℤ) : List Act :=
  [.proc (.sync webInfo nowMS), .proc (.resolve web true), .proc (.read web), .proc (.send web),
    .proc (.endRead web .ok), .proc .take, .proc .take, .proc (.flush nowMS true), .proc (.handle web)]

/-- a line at 5 s is logged while no process is up -/
def downtimeRun : List Act := [.proc (.emit (webRecord 5000000000) true), .start true] ++ backfills 2

/-- a downtime that is backfilled: the steps are good and the line is stored -/
theorem restart_complete_downtime : Always World.step Complete .init downtimeRun ∧
    (run World.step .init downtimeRun).sys.store.db.lines.map (fun r => r.line.tsNS) = [5000000000] := by
  refine ⟨restart_complete ?_, by decide⟩
  have quiet : ∀ {w : World} {a : Pipeline.Act}, GapSafe w.sys a → SinceSafe w.sys w.completed w.gone a →
      Good w (.proc a) := fun hc hs _ => ⟨hc, hs⟩
  refine ⟨quiet trivial trivial, trivial, quiet trivial trivial, quiet trivial ?_, quiet trivial trivial,
    quiet trivial trivial, quiet trivial trivial, quiet trivial trivial, quiet trivial trivial, quiet trivial trivial,
    quiet ?_ trivial, trivial⟩
  · intro _ _ info htask l hl _
    obtain rfl : webInfo = info := congrArg (fun t : Task => t.info) (Option.some.inj htask)
    obtain rfl := List.mem_singleton.1 hl
    decide
  · intro info since began _ hz
    exact absurd (by decide) hz

/-- a line at 5 s is logged while no process is up, one at 60 s when one is; it crashes before its backfill -/
def crashRun : List Act :=
  [.proc (.emit (webRecord 5000000000) true), .start true] ++ commits (webRecord 60000000000) 1 ++ [.exit, .start true] ++
    backfills 2

/-- the same without the crash: the generation has no row at start, so its first backfill resumes from the line at 60 s -/
def freshRun : List Act :=
  [.proc (.emit (webRecord 5000000000) true), .start true] ++ commits (webRecord 60000000000) 1 ++ backfills 2

/-- the startup backfill has completed, and the line at 5 s is not stored -/
theorem not_complete {w : World} (hup : w.mode = .up) (hd : w.sys.hub = [] ∧ w.sys.queue = [] ∧ w.sys.batch = [])
    (hkey : web ∈ w.completed ∧ web ∉ w.gone) (hex : isExcluded w.sys.store.db web = false) (hgap : w.sys.gaps web = none)
    (hl : (webRecord 5000000000).line ∈ w.sys.engine web)
    (hnot : ∀ r ∈ w.sys.store.db.lines, r.line.ident ≠ (webRecord 5000000000).line.ident) : ¬ Complete w := by
  intro h
  obtain ⟨r, hr, -, e⟩ := h hup hd web hkey.1 hkey.2 hex hgap _ hl
  exact hnot r hr e

/-- **A crash hides the downtime before it.** -/
theorem crash_hides_downtime : ¬ Always World.step Complete .init crashRun := by
  intro h
  exact not_complete (by decide) (by decide) (by decide) (by decide) (by decide) (by decide) (by decide) h.last

/-- **A first line hides the past of its container.** -/
theorem first_line_hides_past : ¬ Always World.step Complete .init freshRun := by
  intro h
  exact not_complete (by decide) (by decide) (by decide) (by decide) (by decide) (by decide) (by decide) h.last

end LogDeck.Restart
