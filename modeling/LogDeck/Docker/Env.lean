/-
The environment of a container (`docker/container.go`: `GetEnvVariables`, `SetEnvVariables`; `coolify/client.go`:
`IsCoolifyDefaultEnvVar`).

A configuration holds `KEY=VALUE` strings. Reading them gives a map; on a container that Coolify manages, the variables
that Coolify sets itself are left out. An edit submits a whole map: keys that it lacks go, and Coolify's variables are
put back at their old values before the container is recreated. Both functions pass over a string without an equals
sign.

Results:
- `editedMap_eq`: the edit is one map copied over another;
- `encode_entries`, `encode_ofEntries`: reading and writing the strings;
- `env_edit`: the unchanged map gives the same strings, and what any map gives;
- `bare_name_lost`: a string without an equals sign does not survive;
- `env_edit_recreated`: the environment of the container that replaces the edited one.
-/
import LogDeck.Docker.Rollback
import LogDeck.Lib.EntryMap

namespace LogDeck.Docker.EnvEdit

open EntryMap Machine Daemon

/-! ## Configurations -/

abbrev EnvMap := Map String String

/-- the part of a container's configuration that an edit reads -/
structure Config where
  Env : List String
  Labels : EnvMap

def LabelManaged : String := "coolify.managed"

/-- the variable is set by Coolify at deploy time -/
def IsCoolifyDefaultEnvVar (key : String) : Bool := "COOLIFY_".toList.isPrefixOf key.toList || key = "SOURCE_COMMIT"

def Config.isCoolifyManaged (config : Config) : Bool := config.Labels.lookup LabelManaged = some "true"

/-- a variable that the user neither sees nor edits -/
def Config.kept (config : Config) (key : String) : Bool := config.isCoolifyManaged && IsCoolifyDefaultEnvVar key

/-- `strings.SplitN(env, "=", 2)` -/
def splitN (env : String) : List String :=
  if '=' ∈ env.toList then
    [String.ofList (env.toList.takeWhile (· ≠ '=')), String.ofList (env.toList.dropWhile (· ≠ '=')).tail]
  else [env]

def GetEnvVariables (config : Config) : EnvMap :=
  config.Env.foldl
    (fun envMap env =>
      match splitN env with
      | [key, value] => if config.kept key then envMap else envMap.insert key value
      | _ => envMap)
    ∅

/-- `envMap` and `coolifyDefaults` -/
def splitEnv (config : Config) : EnvMap × EnvMap :=
  config.Env.foldl
    (fun maps env =>
      match splitN env with
      | [key, value] =>
        if config.kept key then (maps.1, maps.2.insert key value) else (maps.1.insert key value, maps.2)
      | _ => maps)
    (∅, ∅)

/-- `maps.Copy` -/
def Copy (dst src : EnvMap) : EnvMap := src ∪ dst

/-- the map that the new environment is made of -/
def editedMap (config : Config) (envVariables : EnvMap) : EnvMap :=
  Copy (Copy (keep (fun key => (envVariables.lookup key).isSome) (splitEnv config).1) envVariables) (splitEnv config).2

/-- the strings of a map; the order in which a map is met is not determined -/
def encode (envMap : EnvMap) : Multiset String := envMap.entries.map fun e => e.1 ++ "=" ++ e.2

/-- the environment that the container is recreated with -/
def SetEnvVariables (config : Config) (envVariables : EnvMap) : Multiset String :=
  encode (editedMap config envVariables)

/-! ## Strings and entries -/

def parse (env : String) : Option (String × String) :=
  match splitN env with
  | [key, value] => some (key, value)
  | _ => none

/-- the entries of an environment, in order; a string without an equals sign is none -/
def entries (envs : List String) : List (String × String) := envs.filterMap parse

theorem parse_eq (env : String) :
    parse env = if '=' ∈ env.toList then some (String.ofList (env.toList.takeWhile (· ≠ '=')),
      String.ofList (env.toList.dropWhile (· ≠ '=')).tail) else none := by
  unfold parse splitN
  split <;> split <;> simp_all

theorem takeWhile_cons_dropWhile {l : List Char} (h : '=' ∈ l) :
    l.takeWhile (· ≠ '=') ++ '=' :: (l.dropWhile (· ≠ '=')).tail = l := by
  induction l with
  | nil => cases h
  | cons c l ih =>
    by_cases hc : c = '='
    · subst hc
      simp
    · have hmem : '=' ∈ l := (List.mem_cons.1 h).resolve_left fun heq => hc heq.symm
      simpa [hc] using ih hmem

/-- an entry is written the way it was read -/
theorem encode_parse {env : String} {e : String × String} (h : parse env = some e) : e.1 ++ "=" ++ e.2 = env := by
  rw [parse_eq] at h
  by_cases hmem : '=' ∈ env.toList
  · rw [if_pos hmem] at h
    obtain rfl := Option.some.inj h
    apply String.toList_inj.1
    dsimp only
    rw [String.toList_append, String.toList_append, String.toList_ofList, String.toList_ofList, String.toList_ofList,
      List.append_assoc]
    exact takeWhile_cons_dropWhile hmem
  · rw [if_neg hmem] at h
    cases h

theorem parse_isSome (env : String) : (parse env).isSome = decide ('=' ∈ env.toList) := by
  rw [parse_eq]
  split <;> simp_all

/-- what is read and written again: the strings that contain an equals sign -/
theorem encode_entries (envs : List String) :
    (entries envs).map (fun e => e.1 ++ "=" ++ e.2) = envs.filter fun env => '=' ∈ env.toList := by
  induction envs with
  | nil => rfl
  | cons env envs ih =>
    have hsome := parse_isSome env
    unfold entries at ih ⊢
    cases hparse : parse env with
    | none =>
      rw [hparse] at hsome
      rw [List.filterMap_cons_none hparse, ih, List.filter_cons, if_neg (by simpa using hsome.symm)]
    | some e =>
      rw [hparse] at hsome
      rw [List.filterMap_cons_some hparse, List.map_cons, ih, encode_parse hparse, List.filter_cons,
        if_pos (by simpa using hsome.symm)]

/-! ## The two functions, on entries -/

/-- a loop over the strings is a loop over the entries -/
theorem foldl_splitN {γ : Type*} (f : γ → String → String → γ) (envs : List String) (m : γ) :
    envs.foldl (fun m env => match splitN env with | [key, value] => f m key value | _ => m) m =
      (entries envs).foldl (fun m e => f m e.1 e.2) m := by
  induction envs generalizing m with
  | nil => rfl
  | cons env envs ih =>
    have hstep : (match splitN env with | [key, value] => f m key value | _ => m) =
        ((parse env).map fun e => f m e.1 e.2).getD m := by
      unfold parse
      split <;> rfl
    rw [List.foldl_cons, ih, hstep]
    unfold entries
    cases hparse : parse env with
    | none => rw [List.filterMap_cons_none hparse]; rfl
    | some e => rw [List.filterMap_cons_some hparse]; rfl

theorem getEnvVariables_eq (config : Config) :
    GetEnvVariables config = ofEntries ((entries config.Env).filter fun e => ! config.kept e.1) := by
  unfold GetEnvVariables ofEntries
  rw [foldl_splitN fun (m : EnvMap) key value => if config.kept key then m else m.insert key value, List.foldl_filter]
  congr
  funext m e
  cases config.kept e.1 <;> rfl

theorem splitEnv_eq (config : Config) :
    splitEnv config = (ofEntries ((entries config.Env).filter fun e => ! config.kept e.1),
      ofEntries ((entries config.Env).filter fun e => config.kept e.1)) := by
  have hloop : ∀ (l : List (String × String)) (m m' : EnvMap),
      l.foldl (fun (maps : EnvMap × EnvMap) e =>
        if config.kept e.1 then (maps.1, maps.2.insert e.1 e.2) else (maps.1.insert e.1 e.2, maps.2)) (m, m') =
      ((l.filter fun e => ! config.kept e.1).foldl (fun m e => m.insert e.1 e.2) m,
        (l.filter fun e => config.kept e.1).foldl (fun m e => m.insert e.1 e.2) m') := by
    intro l
    induction l with
    | nil => exact fun m m' => rfl
    | cons e l ih =>
      intro m m'
      cases hkept : config.kept e.1 <;> simp [hkept, ih]
  unfold splitEnv
  rw [foldl_splitN fun (maps : EnvMap × EnvMap) key value =>
    if config.kept key then (maps.1, maps.2.insert key value) else (maps.1.insert key value, maps.2)]
  exact hloop _ ∅ ∅

/-- the submitted map, with Coolify's variables copied over it: the old variables that the deletion leaves are all
submitted again -/
theorem editedMap_eq (config : Config) (envVariables : EnvMap) :
    editedMap config envVariables =
      ofEntries ((entries config.Env).filter fun e => config.kept e.1) ∪ envVariables := by
  unfold editedMap Copy
  rw [splitEnv_eq]
  apply Finmap.ext_lookup
  intro key
  rw [lookup_union, lookup_union, lookup_union, lookup_keep]
  cases envVariables.lookup key <;> simp

/-- the old value of a variable that the user does not edit -/
def Config.coolifyDefault (config : Config) (key : String) : Option String :=
  if config.kept key then (entries config.Env).lookup key else none

/-- the keys of the entries are distinct -/
def Config.DistinctKeys (config : Config) : Prop := ((entries config.Env).map Prod.fst).Nodup

instance (config : Config) : Decidable config.DistinctKeys := inferInstanceAs (Decidable (List.Nodup _))

theorem lookup_editedMap {config : Config} (h : config.DistinctKeys) (envVariables : EnvMap) (key : String) :
    (editedMap config envVariables).lookup key = (config.coolifyDefault key).or (envVariables.lookup key) := by
  rw [editedMap_eq, lookup_union, lookup_ofEntries_filter, lookup_ofEntries h]
  rfl

/-- the map that is read and Coolify's variables are all the entries -/
theorem editedMap_getEnvVariables (config : Config) :
    editedMap config (GetEnvVariables config) = ofEntries (entries config.Env) := by
  rw [editedMap_eq, getEnvVariables_eq]
  apply Finmap.ext_lookup
  intro key
  rw [lookup_union, lookup_ofEntries_filter, lookup_ofEntries_filter (fun key => ! config.kept key)]
  cases config.kept key <;> simp

theorem encode_ofEntries {l : List (String × String)} (h : (l.map Prod.fst).Nodup) :
    encode (ofEntries l) = (l.map fun e => e.1 ++ "=" ++ e.2 : List String) := by
  unfold encode
  rw [entries_ofEntries h, Multiset.map_coe, List.map_map]
  rfl

theorem setEnvVariables_getEnvVariables {config : Config} (h : config.DistinctKeys) :
    SetEnvVariables config (GetEnvVariables config) = (config.Env.filter fun env => '=' ∈ env.toList : List String) := by
  unfold SetEnvVariables
  rw [editedMap_getEnvVariables, encode_ofEntries h, encode_entries]

/-! ## Edits -/

/-- **An edit.** The map that was read, submitted unchanged, gives the strings that the container had, those without an
equals sign excepted. Any submitted map gives itself with Coolify's variables at their old values over it, and nothing
else. -/
theorem env_edit (config : Config) (h : config.DistinctKeys) :
    SetEnvVariables config (GetEnvVariables config) =
      (config.Env.filter fun env => '=' ∈ env.toList : List String) ∧
    ∀ envVariables : EnvMap, ∃ m : EnvMap, SetEnvVariables config envVariables = encode m ∧
      ∀ key, m.lookup key = (config.coolifyDefault key).or (envVariables.lookup key) :=
  ⟨setEnvVariables_getEnvVariables h, fun envVariables =>
    ⟨editedMap config envVariables, rfl, lookup_editedMap h envVariables⟩⟩

/-- a container that Coolify manages, with a variable of its own, one of the user's and one without a value -/
def managed : Config :=
  { Env := ["COOLIFY_URL=https://a=b", "PORT=80", "EMPTY=", "HOME"], Labels := Finmap.singleton LabelManaged "true" }

theorem env_edit_managed :
    SetEnvVariables managed (GetEnvVariables managed) =
      (managed.Env.filter fun env => '=' ∈ env.toList : List String) ∧
    ∀ envVariables : EnvMap, ∃ m : EnvMap, SetEnvVariables managed envVariables = encode m ∧
      ∀ key, m.lookup key = (managed.coolifyDefault key).or (envVariables.lookup key) :=
  env_edit managed (by decide)

/-- a string without an equals sign does not survive an edit that changes nothing -/
theorem bare_name_lost :
    let config : Config := { Env := ["FOO"], Labels := ∅ }
    config.DistinctKeys ∧ "FOO" ∈ config.Env ∧ "FOO" ∉ SetEnvVariables config (GetEnvVariables config) := by
  decide

/-! ## The container that replaces the edited one -/

/-- **The recreated container.** In whichever order the strings are listed, and whichever calls of the forward path the
engine fails: an edit that succeeds leaves a container of that name with exactly these strings. -/
theorem env_edit_recreated {exec : Engine} (hexec : exec.Documented) {d : Daemon} {c : Container} (hd : Distinct d)
    (hc : c ∈ d) (labels envVariables : EnvMap) (envs : List String)
    (henvs : (envs : Multiset String) = SetEnvVariables ⟨c.env, labels⟩ envVariables) (replies : List (String × Bool))
    (hreplies : Each (recreateStep exec) (RollsBack exec) (recreateContainerWithEnv c.inspect envs, d) replies)
    (newID : String)
    (hdone : (run (recreateStep exec) (recreateContainerWithEnv c.inspect envs, d) replies).1.phase = .done newID) :
    ∃ x ∈ (run (recreateStep exec) (recreateContainerWithEnv c.inspect envs, d) replies).2,
      x.name = c.name ∧ x.id = newID ∧ (x.env : Multiset String) = SetEnvVariables ⟨c.env, labels⟩ envVariables := by
  obtain ⟨q, e, hend, hexp, -⟩ := recreate_expected hd hc hexec replies hreplies
  rw [hend] at hdone ⊢
  obtain rfl : q = .done newID := hdone
  obtain ⟨x, hx, hname, hid, henv, -⟩ := (replaced_of_done hd hc hexp).replacement
  exact ⟨x, hx, hname, hid, by rw [henv, henvs]⟩

end LogDeck.Docker.EnvEdit
