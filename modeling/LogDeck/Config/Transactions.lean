/-
Every Update operation of the configuration manager is a transaction.

`outcome` is what an update is for: it either gives the file configuration that replaces the old one, or refuses.
`update_spec` shows that the manager does that on its arrays: a committed update is in memory, on disk and, where the
merge reads what changed, in the merged configuration; a refused one leaves all three as they were, whatever its mutate
function did to the copy it was handed.

The mutate functions here replace the lists of a rule and what the log store points at; `Config.Sharing` has those that
write into them.

Results:
- `commit_spec`, `update_spec`: one update;
- `update_wellFormed`, `step_mirrors`, `Reached.step`: what every update keeps;
- `mergeHosts_nodup`, `mergeHosts_pinned`: environment and file hosts together;
- `Reached.pinned`, `Reached.names`: what the environment pins stays, and host names stay unique.
-/
import Mathlib.Data.List.Nodup
import LogDeck.Lib.Machine
import LogDeck.Config.Manager

namespace LogDeck.Config

open GoSlice

/-! ## What an update is for -/

namespace UpdateOp

/-- the refusal of what the environment defines -/
def pinned (env : Env) : UpdateOp → Option UpdateError
  | .dockerHosts hosts =>
    (hosts.find? fun h => h.name ∈ env.dockerHosts.map DockerHost.name).map fun h => .dockerHostPinned h.name
  | .coolifyHosts hosts =>
    (hosts.find? fun h => h.hostName ∈ env.coolifyHosts.map CoolifyHostConfig.hostName).map
      fun h => .coolifyHostPinned h.hostName
  | .readOnly _ => if env.snapshot.readOnlySet then some .readOnlyPinned else none
  | .auth _ => if env.snapshot.authSet then some .authPinned else none
  | .apiTokens _ => none
  | .alerts _ => none
  | .logStore _ => none

end UpdateOp

/-- a change to the alerts as a value -/
def AlertsConfig.change (a : AlertsConfig) : AlertsStep → AlertsConfig
  | .webhookURL url => { a with webhookURL := url }
  | .channels o => { a with channels := stepList a.channels o }
  | .rules o => { a with rules := stepList a.rules o }

/-- what `UpdateAuth` stores; none when the mutate function fails -/
def AuthReturn.stored (written : FileAuthConfig) : AuthReturn → Option (Option FileAuthConfig)
  | .fail => none
  | .current => some (some written)
  | .fresh auth => some (some auth)
  | .null => some none

namespace FileConfig

/-- the file configuration with an update made; none when the mutate function fails -/
def apply (fc : FileConfig) : UpdateOp → Option FileConfig
  | .dockerHosts hosts => some { fc with dockerHosts := hosts }
  | .coolifyHosts hosts => some { fc with coolifyHosts := hosts }
  | .readOnly readOnly => some { fc with readOnly := some readOnly }
  | .auth mutate =>
    let current := fc.auth.getD default
    ((mutate current).2.stored ((mutate current).1.foldl (fun _ v => v) current)).map
      fun auth => { fc with auth := auth }
  | .apiTokens mutate =>
    if (mutate fc.apiTokens).2 then
      some { fc with apiTokens := (mutate fc.apiTokens).1.foldl stepList fc.apiTokens }
    else none
  | .alerts mutate =>
    let current := fc.alerts.getD { webhookURL := "", channels := [], rules := [] }
    if (mutate current).2 then
      some { fc with alerts := some ((mutate current).1.foldl AlertsConfig.change current) }
    else none
  | .logStore mutate =>
    (mutate (fc.logStore.getD { enabled := none, perContainerMB := none, totalMB := none })).map
      fun logStore => { fc with logStore := some logStore }

end FileConfig

/-- the file configuration after an update, or why it is refused -/
def outcome (env : Env) (w : World) (fc : FileConfig) (op : UpdateOp) : Except UpdateError FileConfig :=
  match op.pinned env with
  | some e => .error e
  | none =>
    match fc.apply op with
    | none => .error .mutate
    | some fc => if w.persists then .ok fc else .error .persist

section
variable {env : Env} {w : World} {fc : FileConfig} {op : UpdateOp}

theorem outcome_pinned {e : UpdateError} (h : op.pinned env = some e) : outcome env w fc op = .error e := by
  unfold outcome
  rw [h]

theorem outcome_failed (hp : op.pinned env = none) (h : fc.apply op = none) :
    outcome env w fc op = .error .mutate := by
  unfold outcome
  rw [hp]
  simp only [h]

theorem outcome_applied {fc' : FileConfig} (hp : op.pinned env = none) (h : fc.apply op = some fc') :
    outcome env w fc op = if w.persists then .ok fc' else .error .persist := by
  unfold outcome
  rw [hp]
  simp only [h]

end

/-- the merge reads what the update changed -/
def UpdateOp.remerges : UpdateOp → Bool
  | .dockerHosts _ | .coolifyHosts _ | .readOnly _ | .auth _ => true
  | .apiTokens _ | .alerts _ | .logStore _ => false

/-- nothing has changed -/
structure Refused (m m' : Manager) : Prop where
  fileConfig : m'.fileConfig = m.fileConfig
  merged : m'.merged = m.merged
  sources : m'.sources = m.sources
  generation : m'.generation = m.generation
  disk : m'.disk = m.disk

/-- the file configuration is fc, in memory and on disk, and merged where that is due -/
structure Committed (env : Env) (w : World) (remerges : Bool) (fc : FileConfig) (m m' : Manager) : Prop where
  fileConfig : m'.fileConfig = fc
  disk : m'.disk = fc
  merged : m'.merged = if remerges then (merge env w.localHost fc).1 else m.merged
  sources : m'.sources = if remerges then (merge env w.localHost fc).2 else m.sources
  generation : m'.generation = if remerges then m.generation + 1 else m.generation

/-! ## References that stay valid -/

namespace Memory

/-- every reference of the file configuration lies in memory that has been allocated -/
structure Holds (mem : Memory) (file : FileRef) : Prop where
  auth : ∀ p, file.auth = some p → p.InBounds mem.auths
  apiTokens : file.apiTokens.InBounds mem.tokens
  channels : ∀ a, file.alerts = some a → a.channels.InBounds mem.channels
  rules : ∀ a, file.alerts = some a → a.rules.InBounds mem.rules

/-- all that was allocated is as it was -/
structure Keeps (mem mem' : Memory) : Prop where
  auths : Heap.Frame mem.auths.next mem.auths mem'.auths
  tokens : Heap.Frame mem.tokens.next mem.tokens mem'.tokens
  channels : Heap.Frame mem.channels.next mem.channels mem'.channels
  rules : Heap.Frame mem.rules.next mem.rules mem'.rules

theorem Keeps.rfl {mem : Memory} : mem.Keeps mem := ⟨.rfl, .rfl, .rfl, .rfl⟩

theorem Holds.keeps {mem mem' : Memory} {file : FileRef} (hh : mem.Holds file) (hk : mem.Keeps mem') :
    mem'.Holds file where
  auth := fun p hp => (hh.auth p hp).frame hk.auths
  apiTokens := hh.apiTokens.frame hk.tokens
  channels := fun a ha => (hh.channels a ha).frame hk.channels
  rules := fun a ha => (hh.rules a ha).frame hk.rules

theorem Keeps.content {mem mem' : Memory} {file : FileRef} (hk : mem.Keeps mem') (hh : mem.Holds file) :
    mem'.content file = mem.content file := by
  have hauth : (file.auth.bind fun p => (mem'.auths.read p).head?) = file.auth.bind fun p => (mem.auths.read p).head? := by
    cases hp : file.auth with
    | none => rfl
    | some p =>
      rw [Option.bind_some, Option.bind_some, hk.auths.read (hh.auth p hp).allocated]
  have halerts : file.alerts.map mem'.alerts = file.alerts.map mem.alerts := by
    cases ha : file.alerts with
    | none => rfl
    | some a =>
      have hchannels := hk.channels.read (hh.channels a ha).allocated
      have hrules := hk.rules.read (hh.rules a ha).allocated
      simp only [Option.map_some, alerts, hchannels, hrules]
  unfold Memory.content
  rw [hauth, halerts, hk.tokens.read hh.apiTokens.allocated]

end Memory

/-- the references of a manager are valid -/
def Manager.WellFormed (m : Manager) : Prop := m.mem.Holds m.file

/-! ## One update -/

/-- the common end of the updates: the new value is stored, written and merged, or the old one is put back -/
def Manager.commit (env : Env) (w : World) (remerges : Bool) (m : Manager) (file : FileRef) :
    Manager × Option UpdateError :=
  if w.persists then
    (if remerges then (m.setFile file).persist.remerge env w else (m.setFile file).persist, none)
  else (m, some .persist)

/-- the update went through as the transaction says -/
def Transacts (env : Env) (w : World) (remerges : Bool) (m : Manager) (result : Except UpdateError FileConfig)
    (m' : Manager × Option UpdateError) : Prop :=
  m'.1.WellFormed ∧
    match result with
    | .error e => m'.2 = some e ∧ Refused m m'.1
    | .ok fc => m'.2 = none ∧ Committed env w remerges fc m m'.1

section
variable {env : Env} {w : World} {m : Manager}

theorem refused_keeps (hm : m.WellFormed) {mem : Memory} (hk : m.mem.Keeps mem) :
    Refused m { m with mem := mem } where
  fileConfig := hk.content hm
  merged := rfl
  sources := rfl
  generation := rfl
  disk := rfl

/-- refusing after the copy was changed -/
theorem refuse_spec (hm : m.WellFormed) {mem : Memory} (hk : m.mem.Keeps mem) (remerges : Bool) (e : UpdateError) :
    Transacts env w remerges m (.error e) ({ m with mem := mem }, some e) :=
  ⟨hm.keeps hk, rfl, refused_keeps hm hk⟩

/-- **One transaction.** Storing references to the new content, over memory that keeps the old arrays. -/
theorem commit_spec (hm : m.WellFormed) {mem : Memory} (hk : m.mem.Keeps mem) {file : FileRef}
    (hfile : mem.Holds file) {fc : FileConfig} (hfc : mem.content file = fc) (remerges : Bool) :
    Transacts env w remerges m (if w.persists then .ok fc else .error .persist)
      (Manager.commit env w remerges { m with mem := mem } file) := by
  subst hfc
  by_cases hw : w.persists = true
  · rw [if_pos hw, Manager.commit, if_pos hw]
    cases remerges with
    | true => exact ⟨hfile, rfl, rfl, rfl, rfl, rfl, rfl⟩
    | false => exact ⟨hfile, rfl, rfl, rfl, rfl, rfl, rfl⟩
  · rw [if_neg hw, Manager.commit, if_neg hw]
    exact refuse_spec hm hk remerges .persist

theorem updateDockerHosts_spec (hm : m.WellFormed) (hosts : List DockerHost) :
    Transacts env w true m (outcome env w m.fileConfig (.dockerHosts hosts)) (m.updateDockerHosts env w hosts) := by
  unfold Manager.updateDockerHosts
  cases hfind : hosts.find? fun h => h.name ∈ env.dockerHosts.map DockerHost.name with
  | some h =>
    rw [outcome_pinned (e := .dockerHostPinned h.name) (by simp only [UpdateOp.pinned, hfind, Option.map_some])]
    exact refuse_spec hm .rfl true _
  | none =>
    rw [outcome_applied (by simp only [UpdateOp.pinned, hfind, Option.map_none]) rfl]
    have hfile : m.mem.Holds { m.file with dockerHosts := hosts } := ⟨hm.auth, hm.apiTokens, hm.channels, hm.rules⟩
    exact commit_spec hm .rfl hfile rfl true

theorem updateCoolifyHosts_spec (hm : m.WellFormed) (hosts : List CoolifyHostConfig) :
    Transacts env w true m (outcome env w m.fileConfig (.coolifyHosts hosts)) (m.updateCoolifyHosts env w hosts) := by
  unfold Manager.updateCoolifyHosts
  cases hfind : hosts.find? fun h => h.hostName ∈ env.coolifyHosts.map CoolifyHostConfig.hostName with
  | some h =>
    rw [outcome_pinned (e := .coolifyHostPinned h.hostName)
      (by simp only [UpdateOp.pinned, hfind, Option.map_some])]
    exact refuse_spec hm .rfl true _
  | none =>
    rw [outcome_applied (by simp only [UpdateOp.pinned, hfind, Option.map_none]) rfl]
    have hfile : m.mem.Holds { m.file with coolifyHosts := hosts } :=
      ⟨hm.auth, hm.apiTokens, hm.channels, hm.rules⟩
    exact commit_spec hm .rfl hfile rfl true

theorem updateReadOnly_spec (hm : m.WellFormed) (readOnly : Bool) :
    Transacts env w true m (outcome env w m.fileConfig (.readOnly readOnly)) (m.updateReadOnly env w readOnly) := by
  unfold Manager.updateReadOnly
  by_cases hset : env.snapshot.readOnlySet = true
  · rw [outcome_pinned (e := .readOnlyPinned) (by simp only [UpdateOp.pinned, if_pos hset]), if_pos hset]
    exact refuse_spec hm .rfl true _
  · rw [outcome_applied (by simp only [UpdateOp.pinned, if_neg hset]) rfl, if_neg hset]
    have hfile : m.mem.Holds { m.file with readOnly := some readOnly } :=
      ⟨hm.auth, hm.apiTokens, hm.channels, hm.rules⟩
    exact commit_spec hm .rfl hfile rfl true

theorem updateLogStore_spec (hm : m.WellFormed) (mutate : LogStoreConfig → Option LogStoreConfig) :
    Transacts env w false m (outcome env w m.fileConfig (.logStore mutate)) (m.updateLogStore w mutate) := by
  have hpin : UpdateOp.pinned env (.logStore mutate) = none := rfl
  have happly : m.fileConfig.apply (.logStore mutate) =
      (mutate (m.file.logStore.getD { enabled := none, perContainerMB := none, totalMB := none })).map
        fun logStore => { m.fileConfig with logStore := some logStore } := rfl
  unfold Manager.updateLogStore
  dsimp only
  cases hmut : mutate (m.file.logStore.getD { enabled := none, perContainerMB := none, totalMB := none }) with
  | none =>
    rw [hmut] at happly
    rw [outcome_failed hpin happly]
    exact refuse_spec hm .rfl false _
  | some updated =>
    rw [hmut] at happly
    rw [outcome_applied hpin happly]
    have hfile : m.mem.Holds { m.file with logStore := some updated } :=
      ⟨hm.auth, hm.apiTokens, hm.channels, hm.rules⟩
    exact commit_spec hm .rfl hfile rfl false

theorem updateAPITokens_spec (hm : m.WellFormed) (mutate : List APIToken → List (SliceStep APIToken) × Bool) :
    Transacts env w false m (outcome env w m.fileConfig (.apiTokens mutate)) (m.updateAPITokens w mutate) := by
  have hpin : UpdateOp.pinned env (.apiTokens mutate) = none := rfl
  set tokens := m.fileConfig.apiTokens
  have happly : m.fileConfig.apply (.apiTokens mutate) =
      if (mutate tokens).2 then some { m.fileConfig with apiTokens := (mutate tokens).1.foldl stepList tokens }
      else none := rfl
  set current := clone m.mem.tokens m.file.apiTokens with hcurrent
  have hhanded : current.1.read current.2 = tokens := read_clone ..
  obtain ⟨hframe, hfresh⟩ := clone_frame m.mem.tokens m.file.apiTokens
  obtain ⟨hframe', -⟩ := steps_frame current hfresh (mutate tokens).1
  obtain ⟨hbounds, hread⟩ := read_steps current (clone_inBounds m.mem.tokens m.file.apiTokens) (mutate tokens).1
  have hk : m.mem.Keeps { m.mem with tokens := (stepsSlice current (mutate tokens).1).1 } :=
    ⟨.rfl, hframe.trans hframe', .rfl, .rfl⟩
  unfold Manager.updateAPITokens
  simp only [← hcurrent, hhanded]
  by_cases hok : (mutate tokens).2 = true
  · rw [if_pos hok] at happly ⊢
    rw [outcome_applied hpin happly]
    rw [hhanded] at hread
    have hfile : Memory.Holds { m.mem with tokens := (stepsSlice current (mutate tokens).1).1 }
        { m.file with apiTokens := (stepsSlice current (mutate tokens).1).2 } :=
      ⟨hm.auth, hbounds, hm.channels, hm.rules⟩
    exact commit_spec hm hk hfile
      (congrArg (fun tokens => { m.fileConfig with apiTokens := tokens }) hread) false
  · rw [if_neg hok] at happly ⊢
    rw [outcome_failed hpin happly]
    exact refuse_spec hm hk false _

theorem foldl_overwrite (writes : List FileAuthConfig) (auth : FileAuthConfig) :
    (writes.map (SliceStep.overwrite 0)).foldl stepList [auth] = [writes.foldl (fun _ v => v) auth] := by
  induction writes generalizing auth with
  | nil => rfl
  | cons v writes ih => exact ih v

theorem updateAuth_spec (hm : m.WellFormed) (mutate : FileAuthConfig → List FileAuthConfig × AuthReturn) :
    Transacts env w true m (outcome env w m.fileConfig (.auth mutate)) (m.updateAuth env w mutate) := by
  unfold Manager.updateAuth
  by_cases hset : env.snapshot.authSet = true
  · rw [outcome_pinned (e := .authPinned) (by simp only [UpdateOp.pinned, if_pos hset]), if_pos hset]
    exact refuse_spec hm .rfl true _
  have hpin : UpdateOp.pinned env (.auth mutate) = none := by simp only [UpdateOp.pinned, if_neg hset]
  rw [if_neg hset]
  set auth := m.fileConfig.auth.getD default
  have happly : m.fileConfig.apply (.auth mutate) =
      ((mutate auth).2.stored ((mutate auth).1.foldl (fun _ v => v) auth)).map
        fun auth => { m.fileConfig with auth := auth } := rfl
  set current := literal m.mem.auths [auth]
  set writes := (mutate auth).1.map (SliceStep.overwrite 0)
  obtain ⟨hframe, hfresh⟩ := literal_frame m.mem.auths [auth]
  obtain ⟨hframe', -⟩ := steps_frame current hfresh writes
  obtain ⟨hbounds, hread⟩ := read_steps current (literal_inBounds m.mem.auths [auth]) writes
  rw [read_literal, foldl_overwrite] at hread
  set written := stepsSlice current writes
  have hk : m.mem.Keeps { m.mem with auths := written.1 } := ⟨hframe.trans hframe', .rfl, .rfl, .rfl⟩
  dsimp only
  cases hret : (mutate auth).2 with
  | fail =>
    rw [hret] at happly
    rw [outcome_failed hpin happly]
    exact refuse_spec hm hk true _
  | current =>
    rw [hret] at happly
    rw [outcome_applied hpin happly]
    have hfile : Memory.Holds { m.mem with auths := written.1 } { m.file with auth := some written.2 } := by
      refine ⟨?_, hm.apiTokens, hm.channels, hm.rules⟩
      intro p hsame
      cases hsame
      exact hbounds
    exact commit_spec hm hk hfile
      (congrArg (fun xs : List FileAuthConfig => { m.fileConfig with auth := xs.head? }) hread) true
  | fresh fresh =>
    rw [hret] at happly
    rw [outcome_applied hpin happly]
    set updated := literal written.1 [fresh]
    have hk' : m.mem.Keeps { m.mem with auths := updated.1 } :=
      ⟨hk.auths.trans (Heap.alloc_frame hk.auths.next_le [fresh]), .rfl, .rfl, .rfl⟩
    have hfile : Memory.Holds { m.mem with auths := updated.1 } { m.file with auth := some updated.2 } := by
      refine ⟨?_, hm.apiTokens, hm.channels, hm.rules⟩
      intro p hsame
      cases hsame
      exact literal_inBounds written.1 [fresh]
    exact commit_spec hm hk' hfile
      (congrArg (fun xs : List FileAuthConfig => { m.fileConfig with auth := xs.head? })
        (read_literal written.1 [fresh])) true
  | null =>
    rw [hret] at happly
    rw [outcome_applied hpin happly]
    have hfile : Memory.Holds { m.mem with auths := written.1 } { m.file with auth := none } := by
      refine ⟨?_, hm.apiTokens, hm.channels, hm.rules⟩
      intro p hsame
      cases hsame
    exact commit_spec hm hk hfile rfl true

/-- alerts that share nothing with what was allocated in mem, with the content a -/
structure Owned (mem : Memory) (a : AlertsConfig) (s : Memory × AlertsRef) : Prop where
  keeps : mem.Keeps s.1
  content : s.1.alerts s.2 = a
  freshChannels : s.2.channels.Fresh mem.channels.next s.1.channels
  freshRules : s.2.rules.Fresh mem.rules.next s.1.rules
  channels : s.2.channels.InBounds s.1.channels
  rules : s.2.rules.InBounds s.1.rules

theorem cloneAlerts_owned (mem : Memory) (alerts : Option AlertsRef) :
    Owned mem ((alerts.map mem.alerts).getD { webhookURL := "", channels := [], rules := [] })
      (Manager.cloneAlerts mem alerts) := by
  cases alerts with
  | none =>
    obtain ⟨hc, hcf⟩ := literal_frame mem.channels []
    obtain ⟨hr, hrf⟩ := literal_frame mem.rules []
    exact ⟨⟨.rfl, .rfl, hc, hr⟩, rfl, hcf, hrf, literal_inBounds _ _, literal_inBounds _ _⟩
  | some a =>
    obtain ⟨hc, hcf⟩ := clone_frame mem.channels a.channels
    obtain ⟨hr, hrf⟩ := clone_frame mem.rules a.rules
    refine ⟨⟨.rfl, .rfl, hc, hr⟩, ?_, hcf, hrf, clone_inBounds _ _, clone_inBounds _ _⟩
    have hchannels := read_clone mem.channels a.channels
    have hrules := read_clone mem.rules a.rules
    simp only [Manager.cloneAlerts, Memory.alerts, hchannels, hrules, Option.map_some, Option.getD_some]

theorem stepAlerts_owned {mem : Memory} {a : AlertsConfig} {s : Memory × AlertsRef} (h : Owned mem a s)
    (o : AlertsStep) : Owned mem (a.change o) (Manager.stepAlerts s o) := by
  obtain ⟨hk, rfl, hcf, hrf, hcb, hrb⟩ := h
  cases o with
  | webhookURL url => exact ⟨hk, rfl, hcf, hrf, hcb, hrb⟩
  | channels o =>
    obtain ⟨hf, hcf'⟩ := step_frame (s.1.channels, s.2.channels) hcf o
    obtain ⟨hcb', hread⟩ := step_read (s.1.channels, s.2.channels) hcb o
    refine ⟨⟨hk.auths, hk.tokens, hk.channels.trans hf, hk.rules⟩, ?_, hcf', hrf, hcb', hrb⟩
    exact congrArg (fun xs => { s.1.alerts s.2 with channels := xs }) hread
  | rules o =>
    obtain ⟨hf, hrf'⟩ := step_frame (s.1.rules, s.2.rules) hrf o
    obtain ⟨hrb', hread⟩ := step_read (s.1.rules, s.2.rules) hrb o
    refine ⟨⟨hk.auths, hk.tokens, hk.channels, hk.rules.trans hf⟩, ?_, hcf, hrf', hcb, hrb'⟩
    exact congrArg (fun xs => { s.1.alerts s.2 with rules := xs }) hread

theorem stepsAlerts_owned {mem : Memory} {a : AlertsConfig} {s : Memory × AlertsRef} (h : Owned mem a s)
    (steps : List AlertsStep) : Owned mem (steps.foldl AlertsConfig.change a) (steps.foldl Manager.stepAlerts s) := by
  induction steps generalizing a s with
  | nil => exact h
  | cons o steps ih => exact ih (stepAlerts_owned h o)

theorem updateAlerts_spec (hm : m.WellFormed) (mutate : AlertsConfig → List AlertsStep × Bool) :
    Transacts env w false m (outcome env w m.fileConfig (.alerts mutate)) (m.updateAlerts w mutate) := by
  have hpin : UpdateOp.pinned env (.alerts mutate) = none := rfl
  set alerts := m.fileConfig.alerts.getD { webhookURL := "", channels := [], rules := [] } with halerts
  have happly : m.fileConfig.apply (.alerts mutate) =
      if (mutate alerts).2 then
        some { m.fileConfig with alerts := some ((mutate alerts).1.foldl AlertsConfig.change alerts) }
      else none := rfl
  have hcur : Owned m.mem alerts (Manager.cloneAlerts m.mem m.file.alerts) := cloneAlerts_owned ..
  set current := Manager.cloneAlerts m.mem m.file.alerts with hcurrent
  have hupd := stepsAlerts_owned hcur (mutate alerts).1
  unfold Manager.updateAlerts
  simp only [← hcurrent, hcur.content]
  by_cases hok : (mutate alerts).2 = true
  · rw [if_pos hok] at happly ⊢
    rw [outcome_applied hpin happly]
    set updated := (mutate alerts).1.foldl Manager.stepAlerts current
    have hold := hm.keeps hupd.keeps
    have hfile : updated.1.Holds { m.file with alerts := some updated.2 } := by
      refine ⟨hold.auth, hold.apiTokens, ?_, ?_⟩
      · intro a hsame
        cases hsame
        exact hupd.channels
      · intro a hsame
        cases hsame
        exact hupd.rules
    have hcontent : updated.1.content m.file = m.fileConfig := hupd.keeps.content hm
    refine commit_spec hm hupd.keeps hfile ?_ false
    calc updated.1.content { m.file with alerts := some updated.2 }
        = { updated.1.content m.file with alerts := some (updated.1.alerts updated.2) } := rfl
      _ = { m.fileConfig with alerts := some ((mutate alerts).1.foldl AlertsConfig.change alerts) } := by
          rw [hcontent, hupd.content]
  · rw [if_neg hok] at happly ⊢
    rw [outcome_failed hpin happly]
    exact refuse_spec hm hupd.keeps false _

/-- **Refinement.** Every Update operation is the transaction `outcome` on what the references show. -/
theorem update_spec (hm : m.WellFormed) (op : UpdateOp) :
    Transacts env w op.remerges m (outcome env w m.fileConfig op) (m.update env w op) := by
  cases op with
  | dockerHosts hosts => exact updateDockerHosts_spec hm hosts
  | coolifyHosts hosts => exact updateCoolifyHosts_spec hm hosts
  | readOnly readOnly => exact updateReadOnly_spec hm readOnly
  | auth mutate => exact updateAuth_spec hm mutate
  | apiTokens mutate => exact updateAPITokens_spec hm mutate
  | alerts mutate => exact updateAlerts_spec hm mutate
  | logStore mutate => exact updateLogStore_spec hm mutate

end

/-! ## Sequences of updates -/

def Manager.step (env : Env) (m : Manager) (e : UpdateOp × World) : Manager := (m.update env e.2 e.1).1

/-- an update fails and changes nothing, or succeeds and is made -/
theorem update_cases (env : Env) {m : Manager} (hm : m.WellFormed) (op : UpdateOp) (w : World) :
    (∃ e, (m.update env w op).2 = some e ∧ Refused m (m.update env w op).1) ∨
      (m.update env w op).2 = none ∧ ∃ fc, m.fileConfig.apply op = some fc ∧ op.pinned env = none ∧
        Committed env w op.remerges fc m (m.update env w op).1 := by
  have hspec : Transacts env w op.remerges m (outcome env w m.fileConfig op) (m.update env w op) := update_spec hm op
  obtain ⟨-, hspec⟩ := hspec
  cases hp : op.pinned env with
  | some e =>
    rw [outcome_pinned hp] at hspec
    exact .inl ⟨e, hspec⟩
  | none =>
    cases ha : m.fileConfig.apply op with
    | none =>
      rw [outcome_failed hp ha] at hspec
      exact .inl ⟨.mutate, hspec⟩
    | some fc =>
      rw [outcome_applied hp ha] at hspec
      by_cases hw : w.persists = true
      · rw [if_pos hw] at hspec
        exact .inr ⟨hspec.1, fc, rfl, rfl, hspec.2⟩
      · rw [if_neg hw] at hspec
        exact .inl ⟨.persist, hspec⟩

theorem step_cases {env : Env} {m : Manager} (hm : m.WellFormed) (e : UpdateOp × World) :
    Refused m (m.step env e) ∨ ∃ fc, m.fileConfig.apply e.1 = some fc ∧ e.1.pinned env = none ∧
      Committed env e.2 e.1.remerges fc m (m.step env e) := by
  rcases update_cases env hm e.1 e.2 with ⟨_, _, hr⟩ | ⟨_, hc⟩
  · exact .inl hr
  · exact .inr hc

theorem update_wellFormed {env : Env} {m : Manager} (hm : m.WellFormed) (e : UpdateOp × World) :
    (m.step env e).WellFormed := (update_spec hm e.1).1

/-- what an update that is made can change -/
theorem apply_cases {fc fc' : FileConfig} {op : UpdateOp} (h : fc.apply op = some fc') :
    (∃ hosts, op = .dockerHosts hosts ∧ fc' = { fc with dockerHosts := hosts }) ∨
    (∃ hosts, op = .coolifyHosts hosts ∧ fc' = { fc with coolifyHosts := hosts }) ∨
    (∃ readOnly, op = .readOnly readOnly ∧ fc' = { fc with readOnly := some readOnly }) ∨
    (∃ mutate auth, op = .auth mutate ∧ fc' = { fc with auth := auth }) ∨
    op.remerges = false ∧ ∃ apiTokens alerts logStore,
      fc' = { fc with apiTokens := apiTokens, alerts := alerts, logStore := logStore } := by
  cases op with
  | dockerHosts hosts => exact .inl ⟨hosts, rfl, (Option.some.inj h).symm⟩
  | coolifyHosts hosts => exact .inr (.inl ⟨hosts, rfl, (Option.some.inj h).symm⟩)
  | readOnly readOnly => exact .inr (.inr (.inl ⟨readOnly, rfl, (Option.some.inj h).symm⟩))
  | auth mutate =>
    obtain ⟨auth, -, h⟩ := Option.map_eq_some_iff.mp h
    exact .inr (.inr (.inr (.inl ⟨mutate, auth, rfl, h.symm⟩)))
  | apiTokens mutate =>
    obtain ⟨-, h⟩ := Option.ite_none_right_eq_some.mp h
    exact .inr (.inr (.inr (.inr ⟨rfl, _, _, _, (Option.some.inj h).symm⟩)))
  | alerts mutate =>
    obtain ⟨-, h⟩ := Option.ite_none_right_eq_some.mp h
    exact .inr (.inr (.inr (.inr ⟨rfl, _, _, _, (Option.some.inj h).symm⟩)))
  | logStore mutate =>
    obtain ⟨logStore, -, h⟩ := Option.map_eq_some_iff.mp h
    exact .inr (.inr (.inr (.inr ⟨rfl, _, _, _, h.symm⟩)))

/-- an operation that is not merged leaves alone what the merge reads -/
theorem merge_apply {fc fc' : FileConfig} {op : UpdateOp} (hop : op.remerges = false) (h : fc.apply op = some fc')
    (env : Env) (localHost : DockerHost) : merge env localHost fc' = merge env localHost fc := by
  rcases apply_cases h with ⟨_, rfl, -⟩ | ⟨_, rfl, -⟩ | ⟨_, rfl, -⟩ | ⟨_, _, rfl, -⟩ | ⟨-, _, _, _, rfl⟩
  · cases hop
  · cases hop
  · cases hop
  · cases hop
  · rfl

/-- the merged configuration is that of the file configuration -/
def IsMerged (env : Env) (m : Manager) : Prop :=
  ∃ localHost, (m.merged, m.sources) = merge env localHost m.fileConfig

theorem step_isMerged {env : Env} {m : Manager} (hm : m.WellFormed) (h : IsMerged env m) (e : UpdateOp × World) :
    IsMerged env (m.step env e) := by
  obtain ⟨localHost, h⟩ := h
  rcases step_cases hm e with hr | ⟨fc, happly, -, hc⟩
  · refine ⟨localHost, ?_⟩
    rw [hr.merged, hr.sources, hr.fileConfig, h]
  · have hmerged := hc.merged
    have hsources := hc.sources
    cases hop : e.1.remerges with
    | true =>
      rw [hop, if_pos rfl] at hmerged hsources
      refine ⟨e.2.localHost, ?_⟩
      rw [hmerged, hsources, hc.fileConfig]
    | false =>
      rw [hop, if_neg Bool.false_ne_true] at hmerged hsources
      refine ⟨localHost, ?_⟩
      rw [hmerged, hsources, hc.fileConfig, h, merge_apply hop happly]

theorem step_mirrors {env : Env} {m : Manager} (hm : m.WellFormed) (h : m.fileConfig = m.disk)
    (e : UpdateOp × World) : (m.step env e).fileConfig = (m.step env e).disk := by
  rcases step_cases hm e with hr | ⟨fc, -, -, hc⟩
  · rw [hr.fileConfig, hr.disk, h]
  · rw [hc.fileConfig, hc.disk]

/-- what the environment defines is not in the update's hands -/
theorem step_pinned {env : Env} {m : Manager} (hm : m.WellFormed) (e : UpdateOp × World) :
    (env.snapshot.readOnlySet = true → (m.step env e).fileConfig.readOnly = m.fileConfig.readOnly) ∧
      (env.snapshot.authSet = true → (m.step env e).fileConfig.auth = m.fileConfig.auth) := by
  rcases step_cases hm e with hr | ⟨fc, happly, hpin, hc⟩
  · exact ⟨fun _ => by rw [hr.fileConfig], fun _ => by rw [hr.fileConfig]⟩
  · rw [hc.fileConfig]
    rcases apply_cases happly with
      ⟨_, -, rfl⟩ | ⟨_, -, rfl⟩ | ⟨_, hop, rfl⟩ | ⟨_, _, hop, rfl⟩ | ⟨-, _, _, _, rfl⟩
    · exact ⟨fun _ => rfl, fun _ => rfl⟩
    · exact ⟨fun _ => rfl, fun _ => rfl⟩
    · refine ⟨fun hset => ?_, fun _ => rfl⟩
      simp [UpdateOp.pinned, hop, hset] at hpin
    · refine ⟨fun _ => rfl, fun hset => ?_⟩
      simp [UpdateOp.pinned, hop, hset] at hpin
    · exact ⟨fun _ => rfl, fun _ => rfl⟩

/-! ## Host names -/

/-- the hosts an update submits have different names -/
def UpdateOp.Distinct : UpdateOp → Prop
  | .dockerHosts hosts => (hosts.map DockerHost.name).Nodup
  | .coolifyHosts hosts => (hosts.map CoolifyHostConfig.hostName).Nodup
  | _ => True

structure FileConfig.Distinct (fc : FileConfig) : Prop where
  dockerHosts : (fc.dockerHosts.map DockerHost.name).Nodup
  coolifyHosts : (fc.coolifyHosts.map CoolifyHostConfig.hostName).Nodup

theorem apply_distinct {fc fc' : FileConfig} {op : UpdateOp} (h : fc.Distinct) (hop : op.Distinct)
    (happly : fc.apply op = some fc') : fc'.Distinct := by
  rcases apply_cases happly with
    ⟨_, rfl, rfl⟩ | ⟨_, rfl, rfl⟩ | ⟨_, -, rfl⟩ | ⟨_, _, -, rfl⟩ | ⟨-, _, _, _, rfl⟩
  · exact ⟨hop, h.coolifyHosts⟩
  · exact ⟨h.dockerHosts, hop⟩
  · exact ⟨h.dockerHosts, h.coolifyHosts⟩
  · exact ⟨h.dockerHosts, h.coolifyHosts⟩
  · exact ⟨h.dockerHosts, h.coolifyHosts⟩

theorem step_distinct {env : Env} {m : Manager} (hm : m.WellFormed) (h : m.fileConfig.Distinct)
    {e : UpdateOp × World} (he : e.1.Distinct) : (m.step env e).fileConfig.Distinct := by
  rcases step_cases hm e with hr | ⟨fc, happly, -, hc⟩
  · rw [hr.fileConfig]
    exact h
  · rw [hc.fileConfig]
    exact apply_distinct h he happly

/-- merging keeps names different when they are different on either side -/
theorem mergeHosts_nodup {η : Type} {name : η → String} {envHosts fileHosts : List η}
    (henv : (envHosts.map name).Nodup) (hfile : (fileHosts.map name).Nodup) :
    ((mergeHosts name envHosts fileHosts).map name).Nodup := by
  unfold mergeHosts
  rw [List.map_append]
  refine List.nodup_append.mpr ⟨henv, hfile.sublist (List.filter_sublist.map name), ?_⟩
  intro a ha b hb hab
  obtain ⟨h, hmem, rfl⟩ := List.mem_map.mp hb
  have hnot := (List.mem_filter.mp hmem).2
  simp only [decide_eq_true_eq] at hnot
  exact hnot (hab ▸ ha)

/-- a merged host with a name of the environment is the environment's -/
theorem mergeHosts_pinned {η : Type} {name : η → String} {envHosts fileHosts : List η} {h : η}
    (hmem : h ∈ mergeHosts name envHosts fileHosts) (hname : name h ∈ envHosts.map name) : h ∈ envHosts := by
  rcases List.mem_append.mp hmem with h | h
  · exact h
  · have hnot := (List.mem_filter.mp h).2
    simp only [decide_eq_true_eq] at hnot
    exact absurd hname hnot

/-- the environment's hosts come first, and alone under their names -/
structure EnvWins {η : Type} (name : η → String) (envHosts merged : List η) : Prop where
  first : envHosts <+: merged
  alone : ∀ h ∈ merged, name h ∈ envHosts.map name → h ∈ envHosts

theorem mergeHosts_envWins {η : Type} (name : η → String) (envHosts fileHosts : List η) :
    EnvWins name envHosts (mergeHosts name envHosts fileHosts) :=
  ⟨List.prefix_append _ _, fun _ hmem hname => mergeHosts_pinned hmem hname⟩

theorem merge_envWins (env : Env) (localHost : DockerHost) (fc : FileConfig) :
    EnvWins DockerHost.name env.dockerHosts (merge env localHost fc).1.dockerHosts := by
  have hwins := mergeHosts_envWins DockerHost.name env.dockerHosts fc.dockerHosts
  unfold merge
  by_cases hempty : (mergeHosts DockerHost.name env.dockerHosts fc.dockerHosts).length = 0
  · have hnone : env.dockerHosts = [] := by
      have hle := hwins.first.length_le
      exact List.eq_nil_of_length_eq_zero (by omega)
    rw [hnone]
    exact ⟨List.nil_prefix, fun _ _ hname => by simp at hname⟩
  · simp only [if_neg hempty]
    exact hwins

theorem merge_nodup {env : Env} (localHost : DockerHost) {fc : FileConfig}
    (henv : (env.dockerHosts.map DockerHost.name).Nodup) (hfc : fc.Distinct) :
    ((merge env localHost fc).1.dockerHosts.map DockerHost.name).Nodup := by
  unfold merge
  by_cases hempty : (mergeHosts DockerHost.name env.dockerHosts fc.dockerHosts).length = 0
  · simp only [if_pos hempty]
    exact List.nodup_singleton _
  · simp only [if_neg hempty]
    exact mergeHosts_nodup henv hfc.dockerHosts

/-! ## From the start -/

theorem loadFile_holds (fc : FileConfig) : (loadFile fc).1.Holds (loadFile fc).2 := by
  refine ⟨?_, literal_inBounds _ _, ?_, ?_⟩
  · intro p hp
    cases hauth : fc.auth with
    | none =>
      simp only [loadFile, loadAuth, hauth] at hp
      cases hp
    | some auth =>
      simp only [loadFile, loadAuth, hauth, Option.some.injEq] at hp ⊢
      subst hp
      exact literal_inBounds _ _
  · intro a ha
    obtain ⟨b, -, rfl⟩ := Option.map_eq_some_iff.mp ha
    exact literal_inBounds _ _
  · intro a ha
    obtain ⟨b, -, rfl⟩ := Option.map_eq_some_iff.mp ha
    exact literal_inBounds _ _

theorem loadFile_content (fc : FileConfig) : (loadFile fc).1.content (loadFile fc).2 = fc := by
  obtain ⟨dockerHosts, coolifyHosts, readOnly, auth, apiTokens, alerts, logStore⟩ := fc
  have htokens := read_literal Heap.empty apiTokens
  cases auth <;> cases alerts <;> simp [loadFile, loadAuth, Memory.content, Memory.alerts]

theorem newManager_fileConfig (env : Env) (w : World) (newChannelID : String) (disk : FileConfig) :
    (newManager env w newChannelID disk).fileConfig = (migrated newChannelID disk).getD disk := loadFile_content _

theorem newManager_wellFormed (env : Env) (w : World) (newChannelID : String) (disk : FileConfig) :
    (newManager env w newChannelID disk).WellFormed := loadFile_holds _

/-- what every sequence of updates keeps -/
structure Reached (env : Env) (m₀ m : Manager) : Prop where
  wellFormed : m.WellFormed
  isMerged : IsMerged env m
  readOnly : env.snapshot.readOnlySet = true → m.fileConfig.readOnly = m₀.fileConfig.readOnly
  auth : env.snapshot.authSet = true → m.fileConfig.auth = m₀.fileConfig.auth

theorem Reached.step {env : Env} {m₀ m : Manager} (h : Reached env m₀ m) (e : UpdateOp × World) :
    Reached env m₀ (m.step env e) where
  wellFormed := update_wellFormed h.wellFormed e
  isMerged := step_isMerged h.wellFormed h.isMerged e
  readOnly := fun hset => ((step_pinned h.wellFormed e).1 hset).trans (h.readOnly hset)
  auth := fun hset => ((step_pinned h.wellFormed e).2 hset).trans (h.auth hset)

theorem migrated_distinct (newChannelID : String) {disk : FileConfig} (hdisk : disk.Distinct) :
    ((migrated newChannelID disk).getD disk).Distinct := by
  cases hmig : migrated newChannelID disk with
  | none => exact hdisk
  | some fc =>
    obtain ⟨a, -, rfl⟩ := Option.map_eq_some_iff.mp hmig
    exact ⟨hdisk.dockerHosts, hdisk.coolifyHosts⟩

/-- an update leaves the environment's part of the configuration as it is -/
structure Pinned (env : Env) (m₀ m : Manager) : Prop where
  dockerHosts : EnvWins DockerHost.name env.dockerHosts m.merged.dockerHosts
  coolifyHosts : EnvWins CoolifyHostConfig.hostName env.coolifyHosts m.merged.coolifyHosts
  readOnly : env.snapshot.readOnlySet = true →
    m.merged.readOnly = env.config.readOnly ∧ m.fileConfig.readOnly = m₀.fileConfig.readOnly
  auth : env.snapshot.authSet = true → m.sources.auth = .env ∧ m.fileConfig.auth = m₀.fileConfig.auth

theorem Reached.pinned {env : Env} {m₀ m : Manager} (h : Reached env m₀ m) : Pinned env m₀ m := by
  obtain ⟨localHost, hmerged⟩ := h.isMerged
  obtain ⟨hcfg, hsources⟩ := Prod.ext_iff.mp hmerged
  dsimp only at hcfg hsources
  refine ⟨?_, ?_, fun hset => ⟨?_, h.readOnly hset⟩, fun hset => ⟨?_, h.auth hset⟩⟩
  · rw [hcfg]
    exact merge_envWins env localHost m.fileConfig
  · rw [hcfg]
    exact mergeHosts_envWins CoolifyHostConfig.hostName env.coolifyHosts m.fileConfig.coolifyHosts
  · rw [hcfg]
    exact if_pos hset
  · rw [hsources]
    exact if_pos hset

theorem Reached.names {env : Env} {m₀ m : Manager} (h : Reached env m₀ m)
    (hdocker : (env.dockerHosts.map DockerHost.name).Nodup)
    (hcoolify : (env.coolifyHosts.map CoolifyHostConfig.hostName).Nodup) (hm : m.fileConfig.Distinct) :
    (m.merged.dockerHosts.map DockerHost.name).Nodup ∧
      (m.merged.coolifyHosts.map CoolifyHostConfig.hostName).Nodup := by
  obtain ⟨localHost, hmerged⟩ := h.isMerged
  obtain ⟨hcfg, -⟩ := Prod.ext_iff.mp hmerged
  dsimp only at hcfg
  rw [hcfg]
  exact ⟨merge_nodup localHost hdocker hm, mergeHosts_nodup hcoolify hm.coolifyHosts⟩

end LogDeck.Config
