/-
The environment edit (`docker/container.go`: `recreateContainerWithEnv`): a container is replaced by an identical one
with another environment. The original is renamed aside and removed only once the replacement runs.

The function is a sequence of daemon calls with a rollback. `Recreate` is where it stands: `call` is the daemon call it
makes next and `resume` continues with the daemon's reply, so other actors can act between any two calls.

The engine of a host is outside: `Engine` is what it makes of a call that it does not fail for reasons of its own.
`Documented` is what its documentation promises of the calls it serves, a field for each call.
-/
import LogDeck.LogStore.Schema

namespace LogDeck.Docker

/-- the CPU limits of a host configuration, and whether the engine removes the container when it stops; the other fields
are copied -/
structure HostConfig where
  nanoCPUs : ℤ := 0
  cpuQuota : ℤ := 0
  autoRemove : Bool := false
deriving DecidableEq, Repr

structure Container where
  id : String
  name : String
  env : List String := []
  hostConfig : HostConfig := {}
  running : Bool := false
deriving DecidableEq, Repr

/-- the containers of one engine -/
abbrev Daemon := List Container

inductive Call where
  | stop (id : String)
  | rename (id name : String)
  | create (name : String) (env : List String) (hostConfig : HostConfig)
  | start (id : String)
  | remove (id : String) (force : Bool)
deriving DecidableEq, Repr

namespace Daemon

def find (d : Daemon) (id : String) : Option Container := List.find? (fun c => c.id = id) d

def update (d : Daemon) (id : String) (f : Container → Container) : Daemon :=
  List.map (fun c => if c.id = id then f c else c) d

def remove (d : Daemon) (id : String) : Daemon := List.filter (fun c => c.id ≠ id) d

/-- a running container stops; one with `autoRemove` goes -/
def stop (d : Daemon) (id : String) : Daemon :=
  match d.find id with
  | some c =>
    if c.running ∧ c.hostConfig.autoRemove then d.remove id else d.update id fun c => { c with running := false }
  | none => d

end Daemon

/-- the daemon after a call, or `none` when the engine refuses it; `fresh` is the id of a container it creates -/
abbrev Engine := Daemon → String → Call → Option Daemon

/-- what a call does when the engine serves it -/
structure Engine.Documented (exec : Engine) : Prop where
  stop : ∀ {d fresh id d'}, exec d fresh (.stop id) = some d' → d' = d.stop id
  rename : ∀ {d fresh id name d'}, exec d fresh (.rename id name) = some d' →
    (d.find id).isSome = true ∧ d' = d.update id fun c => { c with name := name }
  create : ∀ {d fresh name env hostConfig d'}, exec d fresh (.create name env hostConfig) = some d' →
    fresh ∉ List.map Container.id d ∧
      d' = d ++ [{ id := fresh, name := name, env := env, hostConfig := hostConfig }]
  start : ∀ {d fresh id d'}, exec d fresh (.start id) = some d' →
    (d.find id).isSome = true ∧ d' = d.update id fun c => { c with running := true }
  remove : ∀ {d fresh id force d'}, exec d fresh (.remove id force) = some d' → d' = d.remove id

/-! ## recreateContainerWithEnv -/

inductive Phase where
  | stop
  | rename
  | create
  | start (newID : String)
  /-- the replacement is there: the renamed original goes, best-effort -/
  | cleanup (newID : String)
  | rollbackRemove (newID : String)
  | rollbackRename
  | rollbackStart
  | done (newID : String)
  | failed
deriving DecidableEq, Repr

structure Recreate where
  inspect : Container
  envs : List String
  phase : Phase := .stop
deriving DecidableEq, Repr

namespace Recreate

/-- `inspect.ID[:12]` -/
def shortID (r : Recreate) : String := String.ofList (r.inspect.id.toList.take 12)

def tempName (r : Recreate) : String := r.inspect.name ++ "-logdeck-old-" ++ r.shortID

/-- both limits say the same; Podman rejects a create that carries both -/
def hostConfig (r : Recreate) : HostConfig :=
  if r.inspect.hostConfig.nanoCPUs > 0 ∧ r.inspect.hostConfig.cpuQuota > 0 then
    { r.inspect.hostConfig with nanoCPUs := 0 }
  else r.inspect.hostConfig

def call (r : Recreate) : Option Call :=
  match r.phase with
  | .stop => some (.stop r.inspect.id)
  | .rename => some (.rename r.inspect.id r.tempName)
  | .create => some (.create r.inspect.name r.envs r.hostConfig)
  | .start newID => some (.start newID)
  | .cleanup _ => some (.remove r.inspect.id false)
  | .rollbackRemove newID => some (.remove newID true)
  | .rollbackRename => some (.rename r.inspect.id r.inspect.name)
  | .rollbackStart => some (.start r.inspect.id)
  | .done _ | .failed => none

/-- restart the original if it was running -/
def restart (r : Recreate) : Phase := if r.inspect.running then .rollbackStart else .failed

/-- what follows a call that succeeded or failed; `fresh` is the id of the container a successful create made -/
def resume (r : Recreate) (ok : Bool) (fresh : String) : Recreate :=
  { r with
    phase :=
      match r.phase with
      | .stop => if ok then .rename else .failed
      | .rename => if ok then .create else r.restart
      | .create => if ok then (if r.inspect.running then .start fresh else .cleanup fresh) else .rollbackRename
      | .start newID => if ok then .cleanup newID else .rollbackRemove newID
      | .cleanup newID => .done newID
      | .rollbackRemove _ => .rollbackRename
      | .rollbackRename => r.restart
      | .rollbackStart => .failed
      | .done newID => .done newID
      | .failed => .failed }

/-- the next call against the daemon; `up = false` when the engine fails it for a reason of its own -/
def step (exec : Engine) (r : Recreate) (d : Daemon) (fresh : String) (up : Bool) : Recreate × Daemon :=
  match r.call with
  | none => (r, d)
  | some c =>
    match if up then exec d fresh c else none with
    | some d' => (r.resume true fresh, d')
    | none => (r.resume false fresh, d)

end Recreate

/-! ## An engine -/

/-- an engine that serves what it can: it refuses an unknown id, a name or an id in use, and the removal without force
of a running container -/
def plainEngine : Engine := fun d fresh call =>
  match call with
  | .stop id => if (d.find id).isSome then some (d.stop id) else none
  | .rename id name =>
    if (d.find id).isSome ∧ ∀ c ∈ d, c.name ≠ name then some (d.update id fun c => { c with name := name }) else none
  | .create name env hostConfig =>
    if (∀ c ∈ d, c.name ≠ name) ∧ fresh ∉ List.map Container.id d then
      some (d ++ [{ id := fresh, name := name, env := env, hostConfig := hostConfig }])
    else none
  | .start id => if (d.find id).isSome then some (d.update id fun c => { c with running := true }) else none
  | .remove id force =>
    match d.find id with
    | none => none
    | some c => if c.running ∧ ¬ force then none else some (d.remove id)

theorem plainEngine_documented : Engine.Documented plainEngine where
  stop := fun h => by
    simp only [plainEngine] at h
    split_ifs at h
    exact (Option.some.inj h).symm
  rename := fun h => by
    simp only [plainEngine] at h
    split_ifs at h with hfree
    exact ⟨hfree.1, (Option.some.inj h).symm⟩
  create := fun h => by
    simp only [plainEngine] at h
    split_ifs at h with hfree
    exact ⟨hfree.2, (Option.some.inj h).symm⟩
  start := fun h => by
    simp only [plainEngine] at h
    split_ifs at h with hfound
    exact ⟨hfound, (Option.some.inj h).symm⟩
  remove := fun h => by
    simp only [plainEngine] at h
    split at h
    · cases h
    · split_ifs at h
      exact (Option.some.inj h).symm

end LogDeck.Docker
