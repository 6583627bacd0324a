/-
The configuration file under failing writes and dying processes (`config/manager.go`).

`persist` replaces the file atomically, and `loadFile` reads it when the process is started; a file that does not parse
ends the process at once. Here the file is bytes, a write can go wrong in every way that `AtomicFile.Fate` names, and
the process can die at any moment, in the middle of an update as well. JSON is a parameter, of which is known that what
it writes it reads back.

The managers of the other modules know only that an update of the file succeeds or fails, and that a restart reads the
file: `RunAct` is their level. `trace` is what a run with crashes looks like from there.

Results:
- `step_simulates`: what the process does with its bytes is what the manager does with its configuration;
- `crash_safe`: in every run with failing writes and crashes, the file can be read and is the configuration, and
  nothing that was acknowledged is lost.
-/
import LogDeck.Lib.AtomicFile
import LogDeck.Config.Transactions

namespace LogDeck.Config

open AtomicFile

variable {B : Type}

/-! ## Processes -/

structure Process (B : Type) where
  files : Files B
  /-- none while no process is running -/
  manager : Option Manager

inductive ProcessAct (B : Type) where
  | update (op : UpdateOp) (localHost : DockerHost) (fate : Fate B)
  | start (localHost : DockerHost) (newChannelID : String) (fate : Fate B)
  /-- the process dies outside of an update -/
  | kill

namespace Process

/-- an update, and the answer to its request; none if the process died over it -/
def update (format : Format B FileConfig) (env : Env) (files : Files B) (m : Manager) (op : UpdateOp)
    (localHost : DockerHost) (fate : Fate B) : Process B × Option (Option UpdateError) :=
  match m.update env { persists := true, localHost := localHost } op with
  -- refused before the file is written
  | (m', some e) => ({ files := files, manager := some m' }, some (some e))
  | (m', none) =>
    match replace files (format.encode m'.disk) fate with
    | (files, .acknowledged) => ({ files := files, manager := some m' }, some none)
    | (files, .failed) =>
      let (m', e) := m.update env { persists := false, localHost := localHost } op
      ({ files := files, manager := some m' }, some e)
    | (files, .died) => ({ files := files, manager := none }, none)

/-- `NewManager`; a file that does not parse is fatal -/
def start (format : Format B FileConfig) (env : Env) (files : Files B) (localHost : DockerHost)
    (newChannelID : String) (fate : Fate B) : Process B :=
  match format.load noFile files with
  | none => { files := files, manager := none }
  | some disk =>
    match migrated newChannelID disk with
    | none =>
      { files := files, manager := some (newManager env { persists := true, localHost := localHost } newChannelID disk) }
    | some fc =>
      match replace files (format.encode fc) fate with
      | (files, .acknowledged) =>
        { files := files
          manager := some (newManager env { persists := true, localHost := localHost } newChannelID disk) }
      | (files, .failed) =>
        { files := files
          manager := some (newManager env { persists := false, localHost := localHost } newChannelID disk) }
      | (files, .died) => { files := files, manager := none }

/-- there is nothing to update without a process, and only one process is started -/
def step (format : Format B FileConfig) (env : Env) (p : Process B) : ProcessAct B → Process B
  | .update op localHost fate =>
    match p.manager with
    | none => p
    | some m => (update format env p.files m op localHost fate).1
  | .start localHost newChannelID fate =>
    match p.manager with
    | none => start format env p.files localHost newChannelID fate
    | some _ => p
  | .kill => { p with manager := none }

end Process

/-! ## The level of the managers -/

inductive RunAct where
  | update (op : UpdateOp) (w : World)
  | restart (w : World) (newChannelID : String)

def RunAct.step (env : Env) (m : Manager) : RunAct → Manager
  | .update op w => (m.update env w op).1
  | .restart w newChannelID => newManager env w newChannelID m.disk

/-- what a step of the process is to the manager: whether the file is renamed decides whether an update succeeds -/
def ProcessAct.explain (p : Process B) : ProcessAct B → List RunAct
  | .update op localHost fate =>
    if p.manager.isSome then [.update op { persists := fate.renames, localHost := localHost }] else []
  | .start localHost newChannelID fate =>
    if p.manager.isSome then [] else [.restart { persists := fate.renames, localHost := localHost } newChannelID]
  | .kill => []

/-- a run of the process as a run of the manager -/
def trace (format : Format B FileConfig) (env : Env) : Process B → List (ProcessAct B) → List RunAct
  | _, [] => []
  | p, a :: acts => a.explain p ++ trace format env (p.step format env a) acts

section
variable {env : Env} {localHost : DockerHost} {m : Manager} {op : UpdateOp}

theorem refused_storeAuth {updated : Option GoSlice.Slice} {e : UpdateError}
    (h : (m.storeAuth env { persists := true, localHost := localHost } updated).2 = some e) : False := by
  simp [Manager.storeAuth] at h

/-- an update that is refused before it writes does not depend on the file -/
theorem update_refused {e : UpdateError}
    (h : (m.update env { persists := true, localHost := localHost } op).2 = some e) (b : Bool) :
    m.update env { persists := b, localHost := localHost } op =
      m.update env { persists := true, localHost := localHost } op := by
  cases op with
  | dockerHosts hosts =>
    simp only [Manager.update, Manager.updateDockerHosts] at h ⊢
    split at h
    · rfl
    · simp at h
  | coolifyHosts hosts =>
    simp only [Manager.update, Manager.updateCoolifyHosts] at h ⊢
    split at h
    · rfl
    · simp at h
  | readOnly readOnly =>
    by_cases hset : env.snapshot.readOnlySet = true
    · simp only [Manager.update, Manager.updateReadOnly, hset, if_true]
    · simp [Manager.update, Manager.updateReadOnly, hset] at h
  | auth mutate =>
    by_cases hset : env.snapshot.authSet = true
    · simp only [Manager.update, Manager.updateAuth, hset, if_true]
    · simp only [Manager.update, Manager.updateAuth, hset, if_false, Bool.false_eq_true] at h ⊢
      cases hreturn : (mutate (m.fileConfig.auth.getD default)).2 with
      | fail => rfl
      | current =>
        simp only [hreturn] at h
        exact (refused_storeAuth h).elim
      | fresh auth =>
        simp only [hreturn] at h
        exact (refused_storeAuth h).elim
      | null =>
        simp only [hreturn] at h
        exact (refused_storeAuth h).elim
  | apiTokens mutate =>
    simp only [Manager.update, Manager.updateAPITokens] at h ⊢
    split_ifs at h with hok
    simp only [hok, Bool.false_eq_true, if_false]
  | alerts mutate =>
    simp only [Manager.update, Manager.updateAlerts] at h ⊢
    split_ifs at h with hok
    simp only [hok, Bool.false_eq_true, if_false]
  | logStore mutate =>
    simp only [Manager.update, Manager.updateLogStore] at h ⊢
    split at h
    · rfl
    · simp at h

end

/-! ## Simulation -/

/-- the process as the manager sees it -/
structure Simulates (format : Format B FileConfig) (p : Process B) (m : Manager) : Prop where
  wellFormed : m.WellFormed
  memory : ∀ m' ∈ p.manager, m' = m
  file : format.load noFile p.files = some m.disk

section
variable {format : Format B FileConfig} {env : Env} {files : Files B} {m : Manager}

/-- an update that fails leaves the file as it is, one that succeeds leaves its configuration there -/
theorem update_disk (env : Env) (hm : m.WellFormed) (op : UpdateOp) (w : World) :
    (m.update env w op).1.disk =
      if (m.update env w op).2 = none then (m.update env w op).1.fileConfig else m.disk := by
  rcases update_cases env hm op w with ⟨e, he, hr⟩ | ⟨hok, fc, -, -, hc⟩
  · rw [he, if_neg (by simp), hr.disk]
  · rw [if_pos hok, hc.disk, hc.fileConfig]

/-- without the file, no update is made -/
theorem update_unwritten (env : Env) (hm : m.WellFormed) (op : UpdateOp) (localHost : DockerHost) :
    (m.update env { persists := false, localHost := localHost } op).2 ≠ none := by
  have hspec : Transacts env { persists := false, localHost := localHost } op.remerges m _ _ := update_spec hm op
  obtain ⟨-, hspec⟩ := hspec
  cases hp : op.pinned env with
  | some e =>
    rw [outcome_pinned hp] at hspec
    simp [hspec.1]
  | none =>
    cases ha : m.fileConfig.apply op with
    | none =>
      rw [outcome_failed hp ha] at hspec
      simp [hspec.1]
    | some fc =>
      rw [outcome_applied hp ha] at hspec
      have he : (m.update env { persists := false, localHost := localHost } op).2 = some .persist := hspec.1
      simp [he]

/-- an update of the process is an update of its manager, with a file that is written if the rename takes place; an
answer is that of the manager -/
theorem update_simulates (hm : m.WellFormed) (hfile : format.load noFile files = some m.disk) (op : UpdateOp)
    (localHost : DockerHost) (fate : Fate B) :
    Simulates format (Process.update format env files m op localHost fate).1
        (m.update env { persists := fate.renames, localHost := localHost } op).1 ∧
      ∀ e ∈ (Process.update format env files m op localHost fate).2,
        e = (m.update env { persists := fate.renames, localHost := localHost } op).2 := by
  have hwf : ∀ w, (m.update env w op).1.WellFormed := fun w => update_wellFormed hm (op, w)
  unfold Process.update
  cases hup : m.update env { persists := true, localHost := localHost } op with
  | mk m₁ e₁ =>
    cases e₁ with
    | some e =>
      have hrefused := update_refused (by rw [hup]) fate.renames
      have hdisk := update_disk env hm op { persists := true, localHost := localHost }
      rw [hup, if_neg (by simp)] at hdisk
      have hwf₁ := hwf { persists := true, localHost := localHost }
      rw [hup] at hwf₁
      rw [hrefused, hup]
      refine ⟨⟨hwf₁, by simp, ?_⟩, by simp⟩
      rw [hdisk]
      exact hfile
    | none =>
      have hload : format.load noFile (replace files (format.encode m₁.disk) fate).1 =
          some (m.update env { persists := fate.renames, localHost := localHost } op).1.disk := by
        rw [load_replace, hfile]
        cases hrenames : fate.renames with
        | true => rw [hup, if_pos rfl]
        | false =>
          rw [update_disk env hm, if_neg (update_unwritten env hm op localHost)]
          rfl
      dsimp only
      cases hrep : replace files (format.encode m₁.disk) fate with
      | mk files' answer =>
        rw [hrep] at hload
        have hanswer : (replace files (format.encode m₁.disk) fate).2 = answer := by rw [hrep]
        cases answer with
        | acknowledged =>
          have hrenames := replace_acknowledged hanswer
          rw [hrenames, hup] at hload ⊢
          have hwf₁ := hwf { persists := true, localHost := localHost }
          rw [hup] at hwf₁
          exact ⟨⟨hwf₁, by simp, hload⟩, by simp⟩
        | failed =>
          have hrenames := replace_failed hanswer
          rw [hrenames] at hload ⊢
          exact ⟨⟨hwf _, by simp, hload⟩, by simp⟩
        | died => exact ⟨⟨hwf _, by simp, hload⟩, by simp⟩

/-- a start of the process is a restart of its manager -/
theorem start_simulates (hfile : format.load noFile files = some m.disk) (localHost : DockerHost)
    (newChannelID : String) (fate : Fate B) :
    Simulates format (Process.start format env files localHost newChannelID fate)
      (newManager env { persists := fate.renames, localHost := localHost } newChannelID m.disk) := by
  have hwf : ∀ w, (newManager env w newChannelID m.disk).WellFormed := fun w => newManager_wellFormed ..
  unfold Process.start
  rw [hfile]
  dsimp only
  cases hmigrated : migrated newChannelID m.disk with
  | none =>
    have hsame : newManager env { persists := fate.renames, localHost := localHost } newChannelID m.disk =
        newManager env { persists := true, localHost := localHost } newChannelID m.disk := by
      simp [newManager, hmigrated]
    rw [hsame]
    refine ⟨hwf _, by simp, ?_⟩
    simp [newManager, hmigrated, hfile]
  | some fc =>
    have hload : format.load noFile (replace files (format.encode fc) fate).1 =
        some (newManager env { persists := fate.renames, localHost := localHost } newChannelID m.disk).disk := by
      rw [load_replace, hfile]
      cases hrenames : fate.renames <;> simp [newManager, hmigrated]
    dsimp only
    cases hrep : replace files (format.encode fc) fate with
    | mk files' answer =>
      rw [hrep] at hload
      have hanswer : (replace files (format.encode fc) fate).2 = answer := by rw [hrep]
      cases answer with
      | acknowledged =>
        have hrenames := replace_acknowledged hanswer
        rw [hrenames] at hload ⊢
        exact ⟨hwf _, by simp, hload⟩
      | failed =>
        have hrenames := replace_failed hanswer
        rw [hrenames] at hload ⊢
        exact ⟨hwf _, by simp, hload⟩
      | died => exact ⟨hwf _, by simp, hload⟩

end

section
variable {format : Format B FileConfig} {env : Env} {p : Process B} {m : Manager}

/-- a process that dies leaves its files behind -/
theorem Simulates.dead (h : Simulates format p m) : Simulates format { p with manager := none } m :=
  ⟨h.wellFormed, by simp, h.file⟩

theorem step_simulates (h : Simulates format p m) (a : ProcessAct B) :
    Simulates format (p.step format env a) (Machine.run (RunAct.step env) m (a.explain p)) := by
  cases a with
  | update op localHost fate =>
    cases hm : p.manager with
    | none =>
      simp only [Process.step, ProcessAct.explain, hm, Option.isSome_none, Bool.false_eq_true, if_false]
      exact h
    | some m' =>
      obtain rfl := h.memory m' hm
      simp only [Process.step, ProcessAct.explain, hm, Option.isSome_some, if_true]
      exact (update_simulates h.wellFormed h.file op localHost fate).1
  | start localHost newChannelID fate =>
    cases hm : p.manager with
    | none =>
      simp only [Process.step, ProcessAct.explain, hm, Option.isSome_none, Bool.false_eq_true, if_false]
      exact start_simulates h.file localHost newChannelID fate
    | some m' =>
      simp only [Process.step, ProcessAct.explain, hm, Option.isSome_some, if_true]
      exact h
  | kill => exact h.dead

theorem run_simulates (h : Simulates format p m) (acts : List (ProcessAct B)) :
    Simulates format (Machine.run (Process.step format env) p acts)
      (Machine.run (RunAct.step env) m (trace format env p acts)) := by
  induction acts generalizing p m with
  | nil => exact h
  | cons a acts ih =>
    have hstep : Simulates format (p.step format env a) (Machine.run (RunAct.step env) m (a.explain p)) :=
      step_simulates h a
    have hrest := ih hstep
    have happend : Machine.run (RunAct.step env) m (trace format env p (a :: acts)) =
        Machine.run (RunAct.step env) (Machine.run (RunAct.step env) m (a.explain p))
          (trace format env (p.step format env a) acts) := List.foldl_append
    rw [happend]
    exact hrest

end

/-- **Crash safety.** Whatever updates are made, however each write of the file goes, and whenever the process dies and
is started again: the file can be read, and what is in it, in the memory of a running process and in every answer is
what the manager would have after the same updates, had those whose rename took place been written without a fault and
had the others failed. An update that was acknowledged is in the file. -/
theorem crash_safe (format : Format B FileConfig) (env : Env) (w₀ : World) (newChannelID : String) (disk : FileConfig)
    (files : Files B) (hfiles : format.load noFile files = some (newManager env w₀ newChannelID disk).disk)
    (acts : List (ProcessAct B)) :
    let p₀ : Process B := { files := files, manager := some (newManager env w₀ newChannelID disk) }
    let p := Machine.run (Process.step format env) p₀ acts
    let m := Machine.run (RunAct.step env) (newManager env w₀ newChannelID disk) (trace format env p₀ acts)
    format.load noFile p.files = some m.disk ∧ (∀ m' ∈ p.manager, m' = m) ∧
      ∀ m' ∈ p.manager, ∀ op localHost fate, ∀ e ∈ (Process.update format env p.files m' op localHost fate).2,
        e = (m.update env { persists := fate.renames, localHost := localHost } op).2 ∧
          (e = none → ∃ fc, m.fileConfig.apply op = some fc ∧
            format.load noFile (Process.update format env p.files m' op localHost fate).1.files = some fc) := by
  intro p₀ p m
  have hstart : Simulates format p₀ (newManager env w₀ newChannelID disk) :=
    ⟨newManager_wellFormed .., by simp [p₀], hfiles⟩
  have hp : Simulates format p m := run_simulates hstart acts
  refine ⟨hp.file, hp.memory, fun m' hm' op localHost fate e he => ?_⟩
  obtain rfl := hp.memory m' hm'
  obtain ⟨hsim, hanswer⟩ := @update_simulates B format env _ _ hp.wellFormed hp.file op localHost fate
  refine ⟨hanswer e he, ?_⟩
  rintro rfl
  rcases update_cases env hp.wellFormed op { persists := fate.renames, localHost := localHost } with
    ⟨e, hrefused, -⟩ | ⟨-, fc, happly, -, hc⟩
  · rw [← hanswer none he] at hrefused
    cases hrefused
  · exact ⟨fc, happly, by rw [hsim.file, hc.disk]⟩

/-- a process without files -/
def firstStart : Process (Option FileConfig) :=
  { files := { target := none, temp := none }, manager := some (newManager noEnv writable "" noFile) }

/-- read-only mode is set; the process dies while it is cleared, with half a temporary file, and is started again -/
theorem crash_safe_readOnly :
    wholeOrTorn.load noFile (Machine.run (Process.step wholeOrTorn noEnv) firstStart
        [.update (.readOnly true) writable.localHost .done,
         .update (.readOnly false) writable.localHost (.diesBefore (some none)),
         .start writable.localHost "" .done]).files =
      some { noFile with readOnly := some true } :=
  (crash_safe wholeOrTorn noEnv writable "" noFile firstStart.files rfl _).1.trans rfl

end LogDeck.Config
