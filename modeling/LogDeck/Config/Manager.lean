/-
The configuration manager (`config/manager.go`, `config/alerts.go`, `config/logstore.go`).

The file configuration is edited under the manager's lock by seven Update operations. The operations that take a
mutate function hand it a copy; the model keeps the arrays behind slices and pointers, so that a copy that shared an
array with the live configuration would show. What a rule holds in its own lists, and the log store behind its pointers,
is a value here: a mutate function replaces it and does not write into it (`Config.Sharing` has those that do). The file
on disk is the value that was written to it.
-/
import Mathlib.Data.List.Basic
import LogDeck.Lib.GoQuote
import LogDeck.Lib.GoSlice

namespace LogDeck.Config

open GoSlice

/-! ## Configuration -/

structure DockerHost where
  name : String
  host : String
deriving DecidableEq, Repr, Inhabited

structure CoolifyHostConfig where
  hostName : String
  apiURL : String
  apiToken : String
deriving DecidableEq, Repr, Inhabited

structure APIToken where
  name : String
  hash : String
  tokenPrefix : String
  createdAt : String
  scope : String
deriving DecidableEq, Repr, Inhabited

structure FileAuthConfig where
  enabled : Bool
  jwtSecret : String
  adminUsername : String
  adminPasswordHash : String
  adminPasswordSalt : String
deriving DecidableEq, Repr, Inhabited

structure AlertChannel where
  id : String
  type : String
  name : String
  enabled : Bool
  url : String
  token : String
  target : String
deriving DecidableEq, Repr, Inhabited

structure AlertRule where
  id : String
  name : String
  enabled : Bool
  type : String
  hosts : List String
  containers : List String
  projects : List String
  events : List String
  minLevel : String
  pattern : String
  threshold : ℤ
  windowSeconds : ℤ
  cooldownSeconds : ℤ
  createdAt : String
deriving DecidableEq, Repr, Inhabited

/-- the lists of a rule -/
inductive RuleList where
  | hosts
  | containers
  | projects
  | events
deriving DecidableEq, Repr

namespace RuleList

def all : List RuleList := [.hosts, .containers, .projects, .events]

theorem mem_all (l : RuleList) : l ∈ all := by cases l <;> decide

instance (P : RuleList → Prop) [DecidablePred P] : Decidable (∀ l, P l) :=
  decidable_of_iff (∀ l ∈ all, P l) ⟨fun h l => h l (mem_all l), fun h l _ => h l⟩

end RuleList

def AlertRule.list (rule : AlertRule) : RuleList → List String
  | .hosts => rule.hosts
  | .containers => rule.containers
  | .projects => rule.projects
  | .events => rule.events

structure AlertsConfig where
  webhookURL : String
  channels : List AlertChannel
  rules : List AlertRule
deriving DecidableEq, Repr

structure LogStoreConfig where
  enabled : Option Bool
  perContainerMB : Option ℤ
  totalMB : Option ℤ
deriving DecidableEq, Repr

/-- the content of the config file -/
structure FileConfig where
  dockerHosts : List DockerHost
  coolifyHosts : List CoolifyHostConfig
  readOnly : Option Bool
  auth : Option FileAuthConfig
  apiTokens : List APIToken
  alerts : Option AlertsConfig
  logStore : Option LogStoreConfig
deriving DecidableEq, Repr

set_option linter.dupNamespace false in
structure Config where
  readOnly : Bool
  dockerHosts : List DockerHost
  coolifyHosts : List CoolifyHostConfig
deriving DecidableEq, Repr

inductive Source where
  | env
  | file
  | default
  | mixed
deriving DecidableEq, Repr

structure ConfigSources where
  dockerHosts : Source
  coolifyHosts : Source
  readOnly : Source
  auth : Source
deriving DecidableEq, Repr

structure EnvSnapshot where
  dockerHostsSet : Bool
  coolifySet : Bool
  readOnlySet : Bool
  authSet : Bool
deriving DecidableEq, Repr

/-- what the process reads from its environment when it starts -/
structure Env where
  snapshot : EnvSnapshot
  config : Config
deriving DecidableEq, Repr

namespace Env

def dockerHosts (env : Env) : List DockerHost := if env.snapshot.dockerHostsSet then env.config.dockerHosts else []

def coolifyHosts (env : Env) : List CoolifyHostConfig :=
  if env.snapshot.coolifySet then env.config.coolifyHosts else []

end Env

/-- what an update meets outside the process -/
structure World where
  /-- every step of `persist` succeeds -/
  persists : Bool
  /-- `DefaultLocalHost`, which looks for a socket -/
  localHost : DockerHost
deriving DecidableEq, Repr

/-! ## Merge -/

/-- environment hosts, and the file hosts whose names the environment does not define -/
def mergeHosts {η : Type} (name : η → String) (envHosts fileHosts : List η) : List η :=
  envHosts ++ fileHosts.filter fun h => name h ∉ envHosts.map name

def hostsSource {η : Type} (merged : List η) (envSet : Bool) (fileHosts : List η) : Source :=
  if merged.length = 0 then .default
  else if envSet ∧ fileHosts.length > 0 then .mixed
  else if envSet then .env
  else .file

def merge (env : Env) (localHost : DockerHost) (file : FileConfig) : Config × ConfigSources :=
  let dockerHosts := mergeHosts DockerHost.name env.dockerHosts file.dockerHosts
  let coolifyHosts := mergeHosts CoolifyHostConfig.hostName env.coolifyHosts file.coolifyHosts
  ({ readOnly := if env.snapshot.readOnlySet then env.config.readOnly else file.readOnly.getD false
     dockerHosts := if dockerHosts.length = 0 then [localHost] else dockerHosts
     coolifyHosts := coolifyHosts },
   { dockerHosts := hostsSource dockerHosts env.snapshot.dockerHostsSet file.dockerHosts
     coolifyHosts := hostsSource coolifyHosts env.snapshot.coolifySet file.coolifyHosts
     readOnly := if env.snapshot.readOnlySet then .env else if file.readOnly.isSome then .file else .default
     -- the environment's own values are read by the auth service
     auth := if env.snapshot.authSet then .env else if file.auth.isSome then .file else .default })

/-! ## The manager's memory -/

structure AlertsRef where
  webhookURL : String
  channels : Slice
  rules : Slice
deriving DecidableEq, Repr

/-- `m.fileConfig`: the slices and pointers that are edited in place by reference, the rest by value -/
structure FileRef where
  dockerHosts : List DockerHost
  coolifyHosts : List CoolifyHostConfig
  readOnly : Option Bool
  /-- a pointer is a slice of length one -/
  auth : Option Slice
  apiTokens : Slice
  alerts : Option AlertsRef
  logStore : Option LogStoreConfig
deriving DecidableEq, Repr

structure Memory where
  auths : Heap FileAuthConfig
  tokens : Heap APIToken
  channels : Heap AlertChannel
  rules : Heap AlertRule

namespace Memory

def alerts (mem : Memory) (a : AlertsRef) : AlertsConfig :=
  { webhookURL := a.webhookURL, channels := mem.channels.read a.channels, rules := mem.rules.read a.rules }

/-- what `json.Marshal` finds behind the references -/
def content (mem : Memory) (file : FileRef) : FileConfig :=
  { dockerHosts := file.dockerHosts
    coolifyHosts := file.coolifyHosts
    readOnly := file.readOnly
    auth := file.auth.bind fun p => (mem.auths.read p).head?
    apiTokens := mem.tokens.read file.apiTokens
    alerts := file.alerts.map mem.alerts
    logStore := file.logStore }

end Memory

structure Manager where
  mem : Memory
  file : FileRef
  merged : Config
  sources : ConfigSources
  generation : ℕ
  /-- the content of the target file -/
  disk : FileConfig

namespace Manager

/-- `FileConfigSnapshot` -/
def fileConfig (m : Manager) : FileConfig := m.mem.content m.file

def setFile (m : Manager) (file : FileRef) : Manager := { m with file := file }

def persist (m : Manager) : Manager := { m with disk := m.fileConfig }

/-- the part of `remerge` under the lock -/
def remerge (env : Env) (w : World) (m : Manager) : Manager :=
  { m with
    generation := m.generation + 1
    merged := (merge env w.localHost m.fileConfig).1
    sources := (merge env w.localHost m.fileConfig).2 }

end Manager

/-- `migrateAlertChannels`; none when there is nothing to migrate -/
def migrateAlertChannels (newChannelID : String) (a : AlertsConfig) : Option AlertsConfig :=
  if a.webhookURL = "" then none
  else
    some { webhookURL := ""
           channels := { id := newChannelID, type := "webhook", name := "Webhook", enabled := true,
                         url := a.webhookURL, token := "", target := "" } :: a.channels
           rules := a.rules }

/-- allocates what was read from the file -/
def loadAuth (h : Heap FileAuthConfig) : Option FileAuthConfig → Heap FileAuthConfig × Option Slice
  | none => (h, none)
  | some auth => ((literal h [auth]).1, some (literal h [auth]).2)

def loadFile (fc : FileConfig) : Memory × FileRef :=
  let auths := loadAuth .empty fc.auth
  let tokens := literal .empty fc.apiTokens
  let channels := literal .empty ((fc.alerts.map AlertsConfig.channels).getD [])
  let rules := literal .empty ((fc.alerts.map AlertsConfig.rules).getD [])
  ({ auths := auths.1, tokens := tokens.1, channels := channels.1, rules := rules.1 },
   { dockerHosts := fc.dockerHosts
     coolifyHosts := fc.coolifyHosts
     readOnly := fc.readOnly
     auth := auths.2
     apiTokens := tokens.2
     alerts := fc.alerts.map fun a => { webhookURL := a.webhookURL, channels := channels.2, rules := rules.2 }
     logStore := fc.logStore })

/-- what a file is migrated to when it is loaded; none when it is used as it is -/
def migrated (newChannelID : String) (disk : FileConfig) : Option FileConfig :=
  (disk.alerts.bind (migrateAlertChannels newChannelID)).map fun a => { disk with alerts := some a }

/-- a manager over the file as it stands on disk; a migration that cannot be written is used all the same -/
def newManager (env : Env) (w : World) (newChannelID : String) (disk : FileConfig) : Manager :=
  let fc := (migrated newChannelID disk).getD disk
  { mem := (loadFile fc).1
    file := (loadFile fc).2
    merged := (merge env w.localHost fc).1
    sources := (merge env w.localHost fc).2
    generation := 0
    disk := if w.persists then fc else disk }

/-- a process without settings in its environment -/
def noEnv : Env :=
  { snapshot := { dockerHostsSet := false, coolifySet := false, readOnlySet := false, authSet := false }
    config := { readOnly := false, dockerHosts := [], coolifyHosts := [] } }

/-- no config file yet -/
def noFile : FileConfig :=
  { dockerHosts := [], coolifyHosts := [], readOnly := none, auth := none, apiTokens := [], alerts := none,
    logStore := none }

/-- an update whose file is written -/
def writable : World := { persists := true, localHost := { name := "local", host := "unix:///var/run/docker.sock" } }

/-! ## Updates -/

inductive UpdateError where
  | dockerHostPinned (name : String)
  | coolifyHostPinned (name : String)
  | readOnlyPinned
  | authPinned
  /-- the error of the mutate function -/
  | mutate
  | persist
deriving DecidableEq, Repr

/-- the text of an error that the manager makes itself -/
def UpdateError.text : UpdateError → Option String
  | .dockerHostPinned name =>
    some ("host " ++ GoQuote.quote name ++ " is defined via environment variable and cannot be managed from the UI")
  | .coolifyHostPinned name =>
    some ("coolify host " ++ GoQuote.quote name ++ " is defined via environment variable and cannot be managed from the UI")
  | .readOnlyPinned =>
    some "read-only mode is configured via environment variable and cannot be changed from the UI"
  | .authPinned => some "auth is configured via environment variables and cannot be changed from the UI"
  | .mutate => none
  | .persist => none

/-- how a mutate function of `UpdateAuth` returns -/
inductive AuthReturn where
  | fail
  | current
  | fresh (auth : FileAuthConfig)
  | null

/-- a change a mutate function makes to the alerts it was handed -/
inductive AlertsStep where
  | webhookURL (url : String)
  | channels (o : SliceStep AlertChannel)
  | rules (o : SliceStep AlertRule)

/-- the Update operations; a mutate function reads what it was handed, changes it step by step, and fails or not -/
inductive UpdateOp where
  | dockerHosts (hosts : List DockerHost)
  | coolifyHosts (hosts : List CoolifyHostConfig)
  | readOnly (readOnly : Bool)
  | auth (mutate : FileAuthConfig → List FileAuthConfig × AuthReturn)
  | apiTokens (mutate : List APIToken → List (SliceStep APIToken) × Bool)
  | alerts (mutate : AlertsConfig → List AlertsStep × Bool)
  | logStore (mutate : LogStoreConfig → Option LogStoreConfig)

namespace Manager

def updateDockerHosts (env : Env) (w : World) (m : Manager) (hosts : List DockerHost) :
    Manager × Option UpdateError :=
  match hosts.find? fun h => h.name ∈ env.dockerHosts.map DockerHost.name with
  | some h => (m, some (.dockerHostPinned h.name))
  | none =>
    let oldDockerHosts := m.file.dockerHosts
    let m := m.setFile { m.file with dockerHosts := hosts }
    if w.persists then (m.persist.remerge env w, none)
    else (m.setFile { m.file with dockerHosts := oldDockerHosts }, some .persist)

def updateCoolifyHosts (env : Env) (w : World) (m : Manager) (hosts : List CoolifyHostConfig) :
    Manager × Option UpdateError :=
  match hosts.find? fun h => h.hostName ∈ env.coolifyHosts.map CoolifyHostConfig.hostName with
  | some h => (m, some (.coolifyHostPinned h.hostName))
  | none =>
    let oldCoolifyHosts := m.file.coolifyHosts
    let m := m.setFile { m.file with coolifyHosts := hosts }
    if w.persists then (m.persist.remerge env w, none)
    else (m.setFile { m.file with coolifyHosts := oldCoolifyHosts }, some .persist)

def updateReadOnly (env : Env) (w : World) (m : Manager) (readOnly : Bool) : Manager × Option UpdateError :=
  if env.snapshot.readOnlySet then (m, some .readOnlyPinned)
  else
    let oldReadOnly := m.file.readOnly
    let m := m.setFile { m.file with readOnly := some readOnly }
    if w.persists then (m.persist.remerge env w, none)
    else (m.setFile { m.file with readOnly := oldReadOnly }, some .persist)

/-- `UpdateAuth` once the pointer to store is known -/
def storeAuth (env : Env) (w : World) (m : Manager) (updated : Option Slice) : Manager × Option UpdateError :=
  let oldAuth := m.file.auth
  let m := m.setFile { m.file with auth := updated }
  if w.persists then (m.persist.remerge env w, none)
  else (m.setFile { m.file with auth := oldAuth }, some .persist)

def updateAuth (env : Env) (w : World) (m : Manager)
    (mutate : FileAuthConfig → List FileAuthConfig × AuthReturn) : Manager × Option UpdateError :=
  if env.snapshot.authSet then (m, some .authPinned)
  else
    -- clone to prevent mutate from modifying the live config in place
    let auth := (m.fileConfig.auth).getD default
    let current := literal m.mem.auths [auth]
    let writes := (mutate auth).1.map (SliceStep.overwrite 0)
    let written := stepsSlice current writes
    let m := { m with mem := { m.mem with auths := written.1 } }
    match (mutate auth).2 with
    | .fail => (m, some .mutate)
    | .current => storeAuth env w m (some written.2)
    | .fresh auth =>
      let updated := literal m.mem.auths [auth]
      storeAuth env w { m with mem := { m.mem with auths := updated.1 } } (some updated.2)
    | .null => storeAuth env w m none

def updateAPITokens (w : World) (m : Manager) (mutate : List APIToken → List (SliceStep APIToken) × Bool) :
    Manager × Option UpdateError :=
  let current := clone m.mem.tokens m.file.apiTokens
  let handed := current.1.read current.2
  let updated := stepsSlice current (mutate handed).1
  let m := { m with mem := { m.mem with tokens := updated.1 } }
  if (mutate handed).2 then
    let old := m.file.apiTokens
    let m := m.setFile { m.file with apiTokens := updated.2 }
    if w.persists then (m.persist, none)
    else (m.setFile { m.file with apiTokens := old }, some .persist)
  else (m, some .mutate)

/-- the copy that `UpdateAlerts` hands out -/
def cloneAlerts (mem : Memory) : Option AlertsRef → Memory × AlertsRef
  | none =>
    let channels := literal mem.channels []
    let rules := literal mem.rules []
    ({ mem with channels := channels.1, rules := rules.1 },
      { webhookURL := "", channels := channels.2, rules := rules.2 })
  | some a =>
    let channels := clone mem.channels a.channels
    let rules := clone mem.rules a.rules
    ({ mem with channels := channels.1, rules := rules.1 },
      { webhookURL := a.webhookURL, channels := channels.2, rules := rules.2 })

def stepAlerts : Memory × AlertsRef → AlertsStep → Memory × AlertsRef
  | (mem, a), .webhookURL url => (mem, { a with webhookURL := url })
  | (mem, a), .channels o =>
    let channels := stepSlice (mem.channels, a.channels) o
    ({ mem with channels := channels.1 }, { a with channels := channels.2 })
  | (mem, a), .rules o =>
    let rules := stepSlice (mem.rules, a.rules) o
    ({ mem with rules := rules.1 }, { a with rules := rules.2 })

def updateAlerts (w : World) (m : Manager) (mutate : AlertsConfig → List AlertsStep × Bool) :
    Manager × Option UpdateError :=
  let current := cloneAlerts m.mem m.file.alerts
  let handed := current.1.alerts current.2
  let updated := (mutate handed).1.foldl stepAlerts current
  let m := { m with mem := updated.1 }
  if (mutate handed).2 then
    let old := m.file.alerts
    let m := m.setFile { m.file with alerts := some updated.2 }
    if w.persists then (m.persist, none)
    else (m.setFile { m.file with alerts := old }, some .persist)
  else (m, some .mutate)

def updateLogStore (w : World) (m : Manager) (mutate : LogStoreConfig → Option LogStoreConfig) :
    Manager × Option UpdateError :=
  let current := m.file.logStore.getD { enabled := none, perContainerMB := none, totalMB := none }
  match mutate current with
  | none => (m, some .mutate)
  | some updated =>
    let old := m.file.logStore
    let m := m.setFile { m.file with logStore := some updated }
    if w.persists then (m.persist, none)
    else (m.setFile { m.file with logStore := old }, some .persist)

def update (env : Env) (w : World) (m : Manager) : UpdateOp → Manager × Option UpdateError
  | .dockerHosts hosts => m.updateDockerHosts env w hosts
  | .coolifyHosts hosts => m.updateCoolifyHosts env w hosts
  | .readOnly readOnly => m.updateReadOnly env w readOnly
  | .auth mutate => m.updateAuth env w mutate
  | .apiTokens mutate => m.updateAPITokens w mutate
  | .alerts mutate => m.updateAlerts w mutate
  | .logStore mutate => m.updateLogStore w mutate

end Manager

end LogDeck.Config
