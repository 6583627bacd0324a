/-
The variables of a container that Coolify manages (`coolify/client.go`: `ExtractResourceInfo`, `SyncEnvVars` and what it
calls; `api/handlers.go`: `UpdateEnvVariables`).

An edit recreates the container here, and then has to reach Coolify, which would deploy the old variables again. Coolify's
own variables are neither deleted nor written, and a deletion that fails is only logged. What the API of Coolify does to its
variables is a parameter: `IsCoolify` has its documentation, with calls that fail after they took effect; nobody else calls
it meanwhile. A variable may exist twice, for deployments and for previews.

Results:
- `sync_leads`: where the calls lead Coolify, whatever fails;
- `update_env_synced`: the answer to the request, and that Coolify has what the new container runs with.
-/
import LogDeck.Docker.Env
import LogDeck.Lib.Dialogue

namespace LogDeck.Coolify

open LogDeck.Docker.EnvEdit (EnvMap LabelManaged IsCoolifyDefaultEnvVar Config editedMap)

/-! ## Model -/

inductive ResourceType where
  | application
  | service
  | database
deriving DecidableEq, Repr

def ResourceType.text : ResourceType → String
  | application => "application"
  | service => "service"
  | database => "database"

structure ResourceInfo where
  type : ResourceType
  uuid : String
deriving DecidableEq, Repr

/-- the resource of a container, if Coolify manages it -/
def ExtractResourceInfo (labels : EnvMap) : Option ResourceInfo :=
  if labels.lookup LabelManaged = some "true" then
    let uuid := (labels.lookup "com.docker.compose.project").getD ""
    if uuid = "" then none
    else
      match (labels.lookup "coolify.type").getD "" with
      | "application" => some ⟨.application, uuid⟩
      | "service" => some ⟨.service, uuid⟩
      | "database" => some ⟨.database, uuid⟩
      | _ => some ⟨.application, uuid⟩
  else none

structure EnvVarEntry where
  key : String
  value : String
  isPreview : Bool
deriving DecidableEq, Repr

structure CoolifyEnvVar where
  uuid : String
  key : String
deriving DecidableEq, Repr

structure Client where
  apiURL : String
  apiToken : String
deriving DecidableEq, Repr

/-- the entries of a bulk update are in the order in which the map is met, which is not determined -/
structure HttpRequest where
  method : String
  url : String
  bearer : String
  body : Option (Multiset EnvVarEntry)
deriving DecidableEq

/-- an error of the transport, or the status and the body -/
abbrev Reply := Except String (ℕ × String)

abbrev Api := Dialogue HttpRequest Reply String

/-- a request that succeeds -/
def succeeded : Reply → Bool
  | .error _ => false
  | .ok (status, _) => 200 ≤ status && status < 300

def answer : Reply → Except String String
  | .error err => .error err
  | .ok (status, respBody) =>
    if status < 200 ∨ 300 ≤ status then .error ("API returned status " ++ toString status) else .ok respBody

namespace Client

def request (c : Client) (method url : String) (body : Option (Multiset EnvVarEntry)) : HttpRequest :=
  { method := method, url := url, bearer := c.apiToken, body := body }

def envsURL (c : Client) (resource : ResourceInfo) : String :=
  c.apiURL ++ "/api/v1/" ++ resource.type.text ++ "s/" ++ resource.uuid ++ "/envs"

def listRequest (c : Client) (resource : ResourceInfo) : HttpRequest := c.request "GET" (c.envsURL resource) none

def deleteRequest (c : Client) (resource : ResourceInfo) (envUUID : String) : HttpRequest :=
  c.request "DELETE" (c.envsURL resource ++ "/" ++ envUUID) none

def bulkRequest (c : Client) (resource : ResourceInfo) (entries : Multiset EnvVarEntry) : HttpRequest :=
  c.request "PATCH" (c.envsURL resource ++ "/bulk") (some entries)

def doRequest (request : HttpRequest) : Api (Except String String) := .ask request fun reply => .done (answer reply)

section
variable (unmarshal : String → Except String (List CoolifyEnvVar))

def listEnvVars (c : Client) (resource : ResourceInfo) : Api (Except String (List CoolifyEnvVar)) := do
  let respBody ← doRequest (c.listRequest resource)
  return respBody.bind unmarshal

/-- an error is logged -/
def deleteEnvVar (c : Client) (resource : ResourceInfo) (envUUID : String) : Api PUnit := do
  let _ ← doRequest (c.deleteRequest resource envUUID)

/-- what is left of the variables when Coolify's own are taken out -/
def entriesOf (envVars : EnvMap) : Multiset EnvVarEntry :=
  (envVars.entries.filter fun e => ¬ IsCoolifyDefaultEnvVar e.1).map fun e => ⟨e.1, e.2, false⟩

def SyncEnvVars (c : Client) (resource : ResourceInfo) (envVars : EnvMap) : Api PUnit :=
  if resource.type = .database then .fail "coolify: syncing env vars for database resources is not supported"
  else do
    match ← c.listEnvVars unmarshal resource with
    | .error err => .fail ("coolify: failed to fetch existing env vars: " ++ err)
    | .ok existing =>
      existing.forM fun ev =>
        if IsCoolifyDefaultEnvVar ev.key then pure ⟨⟩
        else
          match envVars.lookup ev.key with
          | some _ => pure ⟨⟩
          | none => c.deleteEnvVar resource ev.uuid
      match ← doRequest (c.bulkRequest resource (entriesOf envVars)) with
      | .error err => .fail ("coolify: bulk update failed: " ++ err)
      | .ok _ => pure ⟨⟩

end

end Client

/-! ## The API of Coolify -/

structure RemoteVar where
  uuid : String
  key : String
  value : String
  isPreview : Bool
deriving DecidableEq, Repr

def RemoteVar.listed (v : RemoteVar) : CoolifyEnvVar := ⟨v.uuid, v.key⟩

/-- a bulk update has nothing to say about the variable -/
def untouched (entries : Multiset EnvVarEntry) (v : RemoteVar) : Bool :=
  v.isPreview || decide (v.key ∉ entries.map EnvVarEntry.key)

/-- `vars` has the variables of the resource -/
structure IsCoolify {S : Type} (unmarshal : String → Except String (List CoolifyEnvVar)) (c : Client)
    (resource : ResourceInfo) (server : S → HttpRequest → S × Reply) (vars : S → List RemoteVar) : Prop where
  distinct : ∀ s, ((vars s).map RemoteVar.uuid).Nodup
  list : ∀ s, vars (server s (c.listRequest resource)).1 = vars s
  listed : ∀ s existing, (answer (server s (c.listRequest resource)).2).bind unmarshal = .ok existing →
    existing = (vars s).map RemoteVar.listed
  delete : ∀ s uuid, vars (server s (c.deleteRequest resource uuid)).1 = vars s ∨
    vars (server s (c.deleteRequest resource uuid)).1 = (vars s).filter fun v => v.uuid ≠ uuid
  deleted : ∀ s uuid, succeeded (server s (c.deleteRequest resource uuid)).2 = true →
    vars (server s (c.deleteRequest resource uuid)).1 = (vars s).filter fun v => v.uuid ≠ uuid
  spared : ∀ s entries, (vars (server s (c.bulkRequest resource entries)).1).filter (untouched entries) =
    (vars s).filter (untouched entries)
  upserted : ∀ s entries, (∀ e ∈ entries, e.isPreview = false) → (entries.map EnvVarEntry.key).Nodup →
    succeeded (server s (c.bulkRequest resource entries)).2 = true → ∀ e ∈ entries,
      (∃ v ∈ vars (server s (c.bulkRequest resource entries)).1, v.key = e.key ∧ v.isPreview = false) ∧
        ∀ v ∈ vars (server s (c.bulkRequest resource entries)).1, v.key = e.key → v.isPreview = false → v.value = e.value

/-! ## What a sync leaves -/

/-- neither deleted nor written: a variable of Coolify, or one for previews that was submitted for deployments -/
def spared (envVars : EnvMap) (v : RemoteVar) : Bool :=
  IsCoolifyDefaultEnvVar v.key || (v.isPreview && (envVars.lookup v.key).isSome)

/-- not deleted: a variable of Coolify, or one that was submitted -/
def remains (envVars : EnvMap) (v : RemoteVar) : Bool :=
  IsCoolifyDefaultEnvVar v.key || (envVars.lookup v.key).isSome

/-- the next deployment gets the value -/
def Stores (vars : List RemoteVar) (key value : String) : Prop :=
  (∃ v ∈ vars, v.key = key ∧ v.isPreview = false) ∧ ∀ v ∈ vars, v.key = key → v.isPreview = false → v.value = value

section
variable {S : Type} {unmarshal : String → Except String (List CoolifyEnvVar)} {c : Client} {resource : ResourceInfo}
  {server : S → HttpRequest → S × Reply} {vars : S → List RemoteVar} {envVars : EnvMap}

variable (c resource) in
/-- it was asked to delete the variable, in vain -/
def DeletionFailed (trace : List (HttpRequest × Reply)) (uuid : String) : Prop :=
  ∃ reply, (c.deleteRequest resource uuid, reply) ∈ trace ∧ succeeded reply = false

variable (c resource vars envVars) in
/-- while the variables that are left of the listing `existing` of `old` have yet to be looked at -/
structure Deleting (old : List RemoteVar) (left : List CoolifyEnvVar) (s : S) (trace : List (HttpRequest × Reply)) :
    Prop where
  kept : (vars s).filter (remains envVars) = old.filter (remains envVars)
  before : ∀ v ∈ vars s, v ∈ old
  listed : ∀ ev ∈ left, ∃ v ∈ old, v.listed = ev
  gone : ∀ v ∈ vars s, remains envVars v = false → v.listed ∈ left ∨ DeletionFailed c resource trace v.uuid

theorem DeletionFailed.append {trace : List (HttpRequest × Reply)} {uuid : String}
    (h : DeletionFailed c resource trace uuid) (more : List (HttpRequest × Reply)) :
    DeletionFailed c resource (trace ++ more) uuid := by
  obtain ⟨reply, hmem, hfailed⟩ := h
  exact ⟨reply, List.mem_append_left _ hmem, hfailed⟩

theorem remains_of_key {v : RemoteVar} {key : String} (h : v.key = key) :
    remains envVars v = (IsCoolifyDefaultEnvVar key || (envVars.lookup key).isSome) := by
  subst h
  rfl

/-- a variable that is passed over -/
theorem Deleting.pass {old : List RemoteVar} {ev : CoolifyEnvVar} {left : List CoolifyEnvVar} {s : S}
    {trace : List (HttpRequest × Reply)} (h : Deleting c resource vars envVars old (ev :: left) s trace)
    (hev : (IsCoolifyDefaultEnvVar ev.key || (envVars.lookup ev.key).isSome) = true) :
    Deleting c resource vars envVars old left s trace := by
  refine ⟨h.kept, h.before, fun x hx => h.listed x (List.mem_cons_of_mem _ hx), fun v hv hgone => ?_⟩
  rcases h.gone v hv hgone with hleft | hfailed
  · rcases List.mem_cons.1 hleft with heq | hleft
    · have hkey : v.key = ev.key := congrArg CoolifyEnvVar.key heq
      rw [remains_of_key hkey, hev] at hgone
      cases hgone
    · exact .inl hleft
  · exact .inr hfailed

/-- a variable that is deleted, or not -/
theorem Deleting.delete (hc : IsCoolify unmarshal c resource server vars) {start : S} {ev : CoolifyEnvVar}
    {left : List CoolifyEnvVar} {s : S} {trace : List (HttpRequest × Reply)}
    (h : Deleting c resource vars envVars (vars start) (ev :: left) s trace)
    (hdefault : IsCoolifyDefaultEnvVar ev.key = false) (hnone : envVars.lookup ev.key = none) :
    Deleting c resource vars envVars (vars start) left (server s (c.deleteRequest resource ev.uuid)).1
      (trace ++ [(c.deleteRequest resource ev.uuid, (server s (c.deleteRequest resource ev.uuid)).2)]) := by
  obtain ⟨v₀, hv₀, hev⟩ := h.listed ev List.mem_cons_self
  -- the listing names one variable only
  have hkey : ∀ v ∈ vars s, v.uuid = ev.uuid → v.key = ev.key := by
    intro v hv huuid
    have hsame : v = v₀ := List.inj_on_of_nodup_map (hc.distinct start) (h.before v hv) hv₀
      (huuid.trans (congrArg CoolifyEnvVar.uuid hev).symm)
    rw [hsame]
    exact congrArg CoolifyEnvVar.key hev
  have hsub : ∀ v ∈ vars (server s (c.deleteRequest resource ev.uuid)).1, v ∈ vars s := by
    intro v hv
    rcases hc.delete s ev.uuid with hsame | hfilter
    · rwa [hsame] at hv
    · rw [hfilter] at hv
      exact (List.mem_filter.1 hv).1
  refine ⟨?_, fun v hv => h.before v (hsub v hv), fun x hx => h.listed x (List.mem_cons_of_mem _ hx), fun v hv hgone => ?_⟩
  · rcases hc.delete s ev.uuid with hsame | hfilter
    · rw [hsame, h.kept]
    · rw [hfilter, List.filter_filter, ← h.kept]
      refine List.filter_congr fun v hv => ?_
      cases hremains : remains envVars v with
      | false => simp
      | true =>
        have hne : v.uuid ≠ ev.uuid := by
          intro huuid
          rw [remains_of_key (hkey v hv huuid), hdefault, hnone] at hremains
          cases hremains
        simp [hne]
  · rcases h.gone v (hsub v hv) hgone with hleft | hfailed
    · rcases List.mem_cons.1 hleft with heq | hleft
      · have huuid : v.uuid = ev.uuid := congrArg CoolifyEnvVar.uuid heq
        refine .inr ⟨(server s (c.deleteRequest resource ev.uuid)).2, ?_, ?_⟩
        · rw [huuid]
          exact List.mem_append_right _ (List.mem_singleton.2 rfl)
        · by_contra hsucceeded
          have hfilter := hc.deleted s ev.uuid (by simpa using hsucceeded)
          rw [hfilter] at hv
          have hne : v.uuid ≠ ev.uuid := by simpa using (List.mem_filter.1 hv).2
          exact hne huuid
      · exact .inl hleft
    · exact .inr (hfailed.append _)

theorem start_deleting (s : S) (trace : List (HttpRequest × Reply)) :
    Deleting c resource vars envVars (vars s) ((vars s).map RemoteVar.listed) s trace :=
  ⟨rfl, fun _ hv => hv, fun _ hev => List.mem_map.1 hev, fun _ hv _ => .inl (List.mem_map.2 ⟨_, hv, rfl⟩)⟩

theorem entriesOf_nodup (envVars : EnvMap) : ((Client.entriesOf envVars).map EnvVarEntry.key).Nodup := by
  have hkeys : (envVars.entries.map Sigma.fst).Nodup := Multiset.nodup_keys.2 envVars.nodupKeys
  unfold Client.entriesOf
  rw [Multiset.map_map]
  exact Multiset.nodup_of_le (Multiset.map_le_map (Multiset.filter_le _ _)) hkeys

theorem mem_entriesOf {key value : String} (hdefault : IsCoolifyDefaultEnvVar key = false)
    (hlookup : envVars.lookup key = some value) : ⟨key, value, false⟩ ∈ Client.entriesOf envVars := by
  refine Multiset.mem_map.2 ⟨⟨key, value⟩, Multiset.mem_filter.2 ⟨Finmap.mem_lookup_iff.1 hlookup, ?_⟩, rfl⟩
  simp [hdefault]

theorem of_mem_entriesOf {e : EnvVarEntry} (he : e ∈ Client.entriesOf envVars) :
    e.isPreview = false ∧ IsCoolifyDefaultEnvVar e.key = false ∧ (envVars.lookup e.key).isSome = true := by
  obtain ⟨x, hx, rfl⟩ := Multiset.mem_map.1 he
  obtain ⟨hentry, hdefault⟩ := Multiset.mem_filter.1 hx
  exact ⟨rfl, by simpa using hdefault, Option.isSome_iff_exists.2 ⟨x.2, Finmap.mem_lookup_iff.2 hentry⟩⟩

theorem answer_ok {reply : Reply} {body : String} (h : answer reply = .ok body) : succeeded reply = true := by
  cases reply with
  | error err => cases h
  | ok x =>
    obtain ⟨status, respBody⟩ := x
    simp only [answer] at h
    split at h
    · cases h
    · rename_i hstatus
      simp [succeeded]
      omega

/-- what a sync leaves once it has succeeded -/
structure Synced (c : Client) (resource : ResourceInfo) (envVars : EnvMap) (now : List RemoteVar)
    (trace : List (HttpRequest × Reply)) : Prop where
  stores : ∀ key value, IsCoolifyDefaultEnvVar key = false → envVars.lookup key = some value →
    Stores now key value
  gone : ∀ v ∈ now, IsCoolifyDefaultEnvVar v.key = false → envVars.lookup v.key = none →
    DeletionFailed c resource trace v.uuid

theorem Synced.append {now : List RemoteVar} {trace : List (HttpRequest × Reply)}
    (h : Synced c resource envVars now trace) (more : List (HttpRequest × Reply)) :
    Synced c resource envVars now (trace ++ more) :=
  ⟨h.stores, fun v hv hdefault hnone => (h.gone v hv hdefault hnone).append more⟩

/-- what is spared is not deleted, and a bulk update does not touch it -/
theorem filter_spared {now old : List RemoteVar} {p : RemoteVar → Bool} (hp : ∀ v, spared envVars v = true → p v = true)
    (h : now.filter p = old.filter p) : now.filter (spared envVars) = old.filter (spared envVars) := by
  have hpart : ∀ l : List RemoteVar, l.filter (spared envVars) = (l.filter p).filter (spared envVars) := by
    intro l
    rw [List.filter_filter]
    refine List.filter_congr fun v _ => ?_
    cases hv : spared envVars v with
    | false => rfl
    | true => simp [hp v hv]
  calc now.filter (spared envVars) = (now.filter p).filter (spared envVars) := hpart now
    _ = (old.filter p).filter (spared envVars) := by rw [h]
    _ = old.filter (spared envVars) := (hpart old).symm

theorem remains_of_spared {v : RemoteVar} (h : spared envVars v = true) : remains envVars v = true := by
  simp only [spared, remains, Bool.or_eq_true, Bool.and_eq_true] at h ⊢
  exact h.imp_right And.right

theorem untouched_of_spared {v : RemoteVar} (h : spared envVars v = true) :
    untouched (Client.entriesOf envVars) v = true := by
  simp only [spared, untouched, Bool.or_eq_true, Bool.and_eq_true, decide_eq_true_eq] at h ⊢
  rcases h with hdefault | ⟨hpreview, -⟩
  · right
    intro hmem
    obtain ⟨e, he, hkey⟩ := Multiset.mem_map.1 hmem
    have hnot := (of_mem_entriesOf he).2.1
    rw [hkey, hdefault] at hnot
    cases hnot
  · exact .inl hpreview

theorem listEnvVars_leads (hc : IsCoolify unmarshal c resource server vars) {start : S}
    {trace : List (HttpRequest × Reply)} {bad : S → List (HttpRequest × Reply) → String → Prop} :
    (c.listEnvVars unmarshal resource).Leads server
      (Dialogue.ends (fun s _ x => vars s = vars start ∧ ∀ existing, x = .ok existing →
        existing = (vars start).map RemoteVar.listed) bad) start trace :=
  Dialogue.leads_ask ⟨hc.list start, fun existing hx => hc.listed start existing hx⟩

theorem delete_leads (hc : IsCoolify unmarshal c resource server vars) {start : S} {ev : CoolifyEnvVar}
    {left : List CoolifyEnvVar} {s : S} {trace : List (HttpRequest × Reply)}
    {bad : S → List (HttpRequest × Reply) → String → Prop}
    (h : Deleting c resource vars envVars (vars start) (ev :: left) s trace) :
    (if IsCoolifyDefaultEnvVar ev.key then pure ⟨⟩
      else
        match envVars.lookup ev.key with
        | some _ => pure ⟨⟩
        | none => c.deleteEnvVar resource ev.uuid : Api PUnit).Leads server
      (Dialogue.ends (fun s trace _ => Deleting c resource vars envVars (vars start) left s trace) bad) s trace := by
  cases hdefault : IsCoolifyDefaultEnvVar ev.key with
  | true => exact h.pass (by rw [hdefault]; rfl)
  | false =>
    cases hlookup : envVars.lookup ev.key with
    | some value => exact h.pass (by rw [hdefault, hlookup]; rfl)
    | none => exact Dialogue.leads_ask (h.delete hc hdefault hlookup)

/-- a bulk update after the deletions -/
theorem bulk_synced (hc : IsCoolify unmarshal c resource server vars) {start s : S} {trace : List (HttpRequest × Reply)}
    (h : Deleting c resource vars envVars (vars start) [] s trace) :
    let now := (server s (c.bulkRequest resource (Client.entriesOf envVars))).1
    (vars now).filter (spared envVars) = (vars start).filter (spared envVars) ∧
      (succeeded (server s (c.bulkRequest resource (Client.entriesOf envVars))).2 = true →
        Synced c resource envVars (vars now) trace) := by
  intro now
  have huntouched := hc.spared s (Client.entriesOf envVars)
  refine ⟨?_, fun hsucceeded => ⟨fun key value hdefault hlookup => ?_, fun v hv hdefault hnone => ?_⟩⟩
  · calc (vars now).filter (spared envVars) = (vars s).filter (spared envVars) :=
          filter_spared (fun v => untouched_of_spared) huntouched
      _ = (vars start).filter (spared envVars) := filter_spared (fun v => remains_of_spared) h.kept
  · exact hc.upserted s _ (fun e he => (of_mem_entriesOf he).1) (entriesOf_nodup envVars) hsucceeded _
      (mem_entriesOf hdefault hlookup)
  · have hkey : untouched (Client.entriesOf envVars) v = true := by
      simp only [untouched, Bool.or_eq_true, decide_eq_true_eq]
      right
      intro hmem
      obtain ⟨e, he, hkey⟩ := Multiset.mem_map.1 hmem
      have hsome := (of_mem_entriesOf he).2.2
      rw [hkey, hnone] at hsome
      cases hsome
    have hmem : v ∈ (vars s).filter (untouched (Client.entriesOf envVars)) :=
      huntouched ▸ List.mem_filter.2 ⟨hv, hkey⟩
    have hgone := h.gone v (List.mem_filter.1 hmem).1 (by rw [remains, hdefault, hnone]; rfl)
    exact hgone.resolve_left (List.not_mem_nil)

/-- **The calls.** Whichever of them fail, the spared variables stay as they are. -/
theorem sync_leads (hc : IsCoolify unmarshal c resource server vars) (envVars : EnvMap) (start : S) :
    (c.SyncEnvVars unmarshal resource envVars).Leads server
      (Dialogue.ends
        (fun s trace _ => (vars s).filter (spared envVars) = (vars start).filter (spared envVars) ∧
          Synced c resource envVars (vars s) trace)
        fun s _ _ => (vars s).filter (spared envVars) = (vars start).filter (spared envVars)) start [] := by
  unfold Client.SyncEnvVars
  split
  · exact rfl
  · refine Dialogue.leads_bind (listEnvVars_leads hc) ?_
    rintro s trace x ⟨hsame, hexisting⟩
    cases x with
    | error err => exact congrArg (List.filter (spared envVars)) hsame
    | ok existing =>
      obtain rfl := hexisting existing rfl
      rw [← hsame]
      refine Dialogue.leads_bind (Dialogue.leads_forM
        (fun left now trace => Deleting c resource vars envVars (vars s) left now trace)
        (fun ev left now trace h => delete_leads hc h) (start_deleting s trace)) ?_
      intro now trace _ h
      obtain ⟨hspared, hsynced⟩ := bulk_synced hc h
      refine Dialogue.leads_ask ?_
      cases hanswer : answer (server now (c.bulkRequest resource (Client.entriesOf envVars))).2 with
      | error err =>
        simp only [hanswer]
        exact hspared
      | ok body =>
        simp only [hanswer]
        exact ⟨hspared, (hsynced (answer_ok hanswer)).append _⟩

/-! ## The request -/

/-- the fields of the answer that tell of the sync -/
structure SyncFields where
  coolify_synced : Option Bool
  coolify_error : Option String
deriving DecidableEq, Repr

/-- there are none where no sync was tried -/
def syncFields : Option (Except String Unit) → SyncFields
  | none => ⟨none, none⟩
  | some (.ok _) => ⟨some true, none⟩
  | some (.error syncErr) => ⟨some false, some syncErr⟩

variable (unmarshal server) in
/-- the best-effort sync, when the container has been recreated: the state of the server, the calls and the answer -/
def UpdateEnvVariables (coolifyClient : Option Client) (labels envVars : EnvMap) (s : S) :
    S × List (HttpRequest × Reply) × SyncFields :=
  match coolifyClient, ExtractResourceInfo labels with
  | some client, some coolifyResource =>
    let record := Dialogue.run server s (client.SyncEnvVars unmarshal coolifyResource envVars)
    (record.server, record.trace, syncFields (some record.result))
  | _, _ => (s, [], syncFields none)

theorem updateEnvVariables_none {coolifyClient : Option Client} {labels : EnvMap}
    (h : coolifyClient = none ∨ ExtractResourceInfo labels = none) (envVars : EnvMap) (s : S) :
    UpdateEnvVariables unmarshal server coolifyClient labels envVars s = (s, [], syncFields none) := by
  unfold UpdateEnvVariables
  split
  · next hresource =>
    rw [hresource] at h
    rcases h with h | h <;> cases h
  · rfl

theorem updateEnvVariables_some {coolifyClient : Option Client} {labels : EnvMap} (hclient : coolifyClient = some c)
    (hresource : ExtractResourceInfo labels = some resource) (envVars : EnvMap) (s : S) :
    UpdateEnvVariables unmarshal server coolifyClient labels envVars s =
      ((Dialogue.run server s (c.SyncEnvVars unmarshal resource envVars)).server,
        (Dialogue.run server s (c.SyncEnvVars unmarshal resource envVars)).trace,
        syncFields (some (Dialogue.run server s (c.SyncEnvVars unmarshal resource envVars)).result)) := by
  simp only [UpdateEnvVariables, hclient, hresource]

theorem syncFields_ne_none (result : Except String Unit) : (syncFields (some result)).coolify_synced ≠ none := by
  cases result <;> simp [syncFields]

theorem result_of_synced {result : Except String Unit} (h : (syncFields (some result)).coolify_synced = some true) :
    result = .ok () := by
  cases result with
  | ok u => rfl
  | error err => cases h

/-- only Coolify's own variables are other than those that were submitted -/
theorem lookup_editedMap_of_own (config : Config) {key : String} (hdefault : IsCoolifyDefaultEnvVar key = false) :
    (editedMap config envVars).lookup key = envVars.lookup key := by
  have hkept : config.kept key = false := by simp [Config.kept, hdefault]
  rw [Docker.EnvEdit.editedMap_eq, EntryMap.lookup_union, EntryMap.lookup_ofEntries_filter, hkept]
  rfl

theorem Synced.edited {now : List RemoteVar} {trace : List (HttpRequest × Reply)}
    (h : Synced c resource envVars now trace) (config : Config) :
    Synced c resource (editedMap config envVars) now trace := by
  refine ⟨fun key value hdefault hlookup => ?_, fun v hv hdefault hnone => ?_⟩
  · rw [lookup_editedMap_of_own config hdefault] at hlookup
    exact h.stores key value hdefault hlookup
  · rw [lookup_editedMap_of_own config hdefault] at hnone
    exact h.gone v hv hdefault hnone

/-- what a sync has left when it has run -/
theorem run_sync (hc : IsCoolify unmarshal c resource server vars) (envVars : EnvMap) (start : S) :
    let record := Dialogue.run server start (c.SyncEnvVars unmarshal resource envVars)
    (vars record.server).filter (spared envVars) = (vars start).filter (spared envVars) ∧
      (record.result = .ok ⟨⟩ → Synced c resource envVars (vars record.server) record.trace) := by
  intro record
  have hend := Dialogue.run_leads (sync_leads hc envVars start)
  rw [List.nil_append] at hend
  change Dialogue.ends _ _ record.server record.trace record.result at hend
  cases hresult : record.result with
  | ok u =>
    rw [hresult] at hend
    exact ⟨hend.1, fun _ => hend.2⟩
  | error err =>
    rw [hresult] at hend
    exact ⟨hend, fun h => nomatch h⟩

/-- **An edit reaches Coolify.** Whichever calls fail, Coolify's own variables, and those for previews of a submitted
name, stay as they are. An answer that the sync succeeded tells the truth: but for Coolify's own variables, the next
deployment gets every variable that the new container runs with, and no other unless its deletion was tried and failed.
Without a client for the host, or where Coolify does not manage the container, nothing is called and nothing told; for a
database nothing is called. -/
theorem update_env_synced (coolifyClient : Option Client) (config : Config)
    (hc : ∀ client coolifyResource, coolifyClient = some client →
      ExtractResourceInfo config.Labels = some coolifyResource → IsCoolify unmarshal client coolifyResource server vars)
    (start : S) :
    let after := UpdateEnvVariables unmarshal server coolifyClient config.Labels envVars start
    (vars after.1).filter (spared envVars) = (vars start).filter (spared envVars) ∧
      (after.2.2.coolify_synced = some true → ∃ client coolifyResource, coolifyClient = some client ∧
        ExtractResourceInfo config.Labels = some coolifyResource ∧
        Synced client coolifyResource (editedMap config envVars) (vars after.1) after.2.1) ∧
      (after.2.2.coolify_synced = none ↔ coolifyClient = none ∨ ExtractResourceInfo config.Labels = none) ∧
      ((after.2.2.coolify_synced = none ∨
          (ExtractResourceInfo config.Labels).map ResourceInfo.type = some ResourceType.database) →
        after.1 = start ∧ after.2.1 = []) := by
  intro after
  by_cases hnone : coolifyClient = none ∨ ExtractResourceInfo config.Labels = none
  · have hafter : after = (start, [], syncFields none) := updateEnvVariables_none hnone envVars start
    rw [hafter]
    exact ⟨rfl, (fun h => nomatch h), ⟨fun _ => hnone, fun _ => rfl⟩, fun _ => ⟨rfl, rfl⟩⟩
  · obtain ⟨hclient, hresource⟩ := not_or.1 hnone
    obtain ⟨client, hclient⟩ := Option.ne_none_iff_exists'.1 hclient
    obtain ⟨coolifyResource, hresource⟩ := Option.ne_none_iff_exists'.1 hresource
    have hafter : after = _ := updateEnvVariables_some hclient hresource envVars start
    obtain ⟨hspared, hsynced⟩ := run_sync (hc client coolifyResource hclient hresource) envVars start
    rw [hafter]
    refine ⟨hspared, fun h => ⟨client, coolifyResource, hclient, hresource, (hsynced (result_of_synced h)).edited config⟩,
      ⟨fun h => absurd h (syncFields_ne_none _), fun h => absurd h hnone⟩, ?_⟩
    rintro (hfields | hdatabase)
    · exact absurd hfields (syncFields_ne_none _)
    · rw [hresource] at hdatabase
      have htype : coolifyResource.type = .database := Option.some.inj hdatabase
      simp only [Client.SyncEnvVars, htype, if_true]
      exact ⟨rfl, rfl⟩

end

/-! ## An edit of `web` -/

namespace Web

def client : Client := ⟨"https://coolify.example", "secret"⟩

def resource : ResourceInfo := ⟨.application, "web"⟩

/-- the container before the edit -/
def config : Config :=
  { Env := ["PORT=80", "DEBUG=1", "COOLIFY_URL=web"]
    Labels := EntryMap.ofEntries
      [(LabelManaged, "true"), ("com.docker.compose.project", "web"), ("coolify.type", "application")] }

/-- the edit: another port, and no `DEBUG` -/
def submitted : EnvMap := Finmap.singleton "PORT" "8080"

/-- how far Coolify has come -/
inductive Stage where
  | before
  | deleted
  | updated
deriving DecidableEq, Repr

def Stage.text : Stage → String
  | before => "before"
  | deleted => "deleted"
  | updated => "updated"

def vars : Stage → List RemoteVar
  | .before => [⟨"a", "PORT", "80", false⟩, ⟨"b", "DEBUG", "1", false⟩, ⟨"c", "COOLIFY_URL", "web", false⟩]
  | .deleted => [⟨"a", "PORT", "80", false⟩, ⟨"c", "COOLIFY_URL", "web", false⟩]
  | .updated => [⟨"a", "PORT", "8080", false⟩, ⟨"c", "COOLIFY_URL", "web", false⟩]

def unmarshal : String → Except String (List CoolifyEnvVar)
  | "before" => .ok ((vars .before).map RemoteVar.listed)
  | "deleted" => .ok ((vars .deleted).map RemoteVar.listed)
  | "updated" => .ok ((vars .updated).map RemoteVar.listed)
  | _ => .error "unexpected end of JSON input"

/-- it answers the calls of this edit and refuses any other -/
def server (s : Stage) (request : HttpRequest) : Stage × Reply :=
  if request = client.listRequest resource then (s, .ok (200, s.text))
  else if request = client.deleteRequest resource "b" ∧ s = .before then (.deleted, .ok (200, ""))
  else if request = client.bulkRequest resource {⟨"PORT", "8080", false⟩} ∧ s ≠ .before then (.updated, .ok (201, ""))
  else (s, .ok (404, ""))

theorem server_list (s : Stage) : server s (client.listRequest resource) = (s, .ok (200, s.text)) := if_pos rfl

theorem server_delete (s : Stage) (uuid : String) : server s (client.deleteRequest resource uuid) =
    if uuid = "b" ∧ s = .before then (.deleted, .ok (200, "")) else (s, .ok (404, "")) := by
  have hsame : client.deleteRequest resource uuid = client.deleteRequest resource "b" ↔ uuid = "b" := by
    refine ⟨fun h => ?_, fun h => by rw [h]⟩
    have hurl := congrArg HttpRequest.url h
    simpa [Client.deleteRequest, Client.request] using hurl
  simp only [server, hsame]
  simp [Client.deleteRequest, Client.listRequest, Client.bulkRequest, Client.request]

theorem server_bulk (s : Stage) (entries : Multiset EnvVarEntry) : server s (client.bulkRequest resource entries) =
    if entries = {⟨"PORT", "8080", false⟩} ∧ s ≠ .before then (.updated, .ok (201, "")) else (s, .ok (404, "")) := by
  have hsame : client.bulkRequest resource entries = client.bulkRequest resource {⟨"PORT", "8080", false⟩} ↔
      entries = {⟨"PORT", "8080", false⟩} := by
    refine ⟨fun h => ?_, fun h => by rw [h]⟩
    exact Option.some.inj (congrArg HttpRequest.body h)
  simp only [server, hsame]
  simp [Client.deleteRequest, Client.listRequest, Client.bulkRequest, Client.request]

theorem isCoolify : IsCoolify unmarshal client resource server vars := by
  constructor
  case distinct => intro s; cases s <;> decide
  case list => intro s; rw [server_list]
  case listed =>
    intro s existing h
    rw [server_list] at h
    cases s <;> exact (Except.ok.inj h).symm
  case delete =>
    intro s uuid
    rw [server_delete]
    split
    · next h =>
      obtain ⟨rfl, rfl⟩ := h
      right
      decide
    · exact .inl rfl
  case deleted =>
    intro s uuid h
    rw [server_delete] at h ⊢
    split at h
    · next hb =>
      obtain ⟨rfl, rfl⟩ := hb
      decide
    · cases h
  case spared =>
    intro s entries
    rw [server_bulk]
    split
    · next h =>
      obtain ⟨rfl, hs⟩ := h
      cases s
      · exact absurd rfl hs
      · decide
      · decide
    · rfl
  case upserted =>
    intro s entries hpreview hnodup h
    rw [server_bulk] at h ⊢
    split at h
    · next hb =>
      obtain ⟨rfl, hs⟩ := hb
      rw [if_pos ⟨rfl, hs⟩]
      decide
    · cases h

end Web

/-- the port is changed, `DEBUG` is deleted, and Coolify's variable stays -/
theorem update_env_synced_web :
    let after := UpdateEnvVariables Web.unmarshal Web.server (some Web.client) Web.config.Labels Web.submitted .before
    after.1 = .updated ∧ after.2.2 = ⟨some true, none⟩ ∧
      Synced Web.client Web.resource (editedMap Web.config Web.submitted) (Web.vars after.1) after.2.1 := by
  intro after
  have hresource : ExtractResourceInfo Web.config.Labels = some Web.resource := by decide +kernel
  have hafter : after.1 = .updated ∧ after.2.2 = ⟨some true, none⟩ := by decide +kernel
  refine ⟨hafter.1, hafter.2, ?_⟩
  obtain ⟨-, hsynced, -⟩ := update_env_synced (some Web.client) Web.config
    (fun client coolifyResource hclient hextract => by
      obtain rfl := Option.some.inj hclient
      obtain rfl := Option.some.inj (hresource.symm.trans hextract)
      exact Web.isCoolify) Web.Stage.before
  obtain ⟨client, coolifyResource, hclient, hextract, h⟩ := hsynced (congrArg SyncFields.coolify_synced hafter.2)
  obtain rfl := Option.some.inj hclient
  obtain rfl := Option.some.inj (hresource.symm.trans hextract)
  exact h

end LogDeck.Coolify
