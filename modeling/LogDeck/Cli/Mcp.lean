/-
The tools of the MCP server (`cli/mcp.go`), and what a token lets them do (`api/router.go`, `auth/middleware.go`).

An assistant calls a tool, and the tool calls the API with the token of the CLI. Nothing is gated in the tools: the server
refuses what the scope of the token does not grant. `handlers` lists for every tool the handlers its code is meant for.
The descriptions and schemas of the tools are left out, and so is the text of a result; relative times depend on the
clock and are a parameter. The listing, the statistics and the events are read into the fields that are looked at.

Results:
- `routed_container`, `routed_static`: the paths of the tools find the handlers they are meant for;
- `tool_holds`: one lemma a tool;
- `tools_scoped`: the scope of the token decides what works, and the annotations of the tools are truthful.
-/
import LogDeck.Lib.GoQuote
import LogDeck.Cli.Aggregate
import LogDeck.Cli.Client

namespace LogDeck.Cli

open LogDeck.Api LogDeck.Models

/-! ## Tools -/

/-- what the tools use of other libraries, and the times -/
structure ToolLibrary where
  /-- the error of `regexp.Compile` -/
  compile : String → Option String
  toUpper : String → String
  /-- at the time of the call -/
  parseTimeArg : String → Except String String
  /-- when an entry of a log was written -/
  timestamp : Json → ℤ

structure ContainerRef where
  container : String
  host : String
deriving DecidableEq, Repr

/-- a call of a tool -/
inductive Tool where
  | listContainers (state host : String)
  | getLogs (container host : String) (tail : ℤ) (level search since until_ : String)
  | searchLogs (search host level since : String) (tail : ℤ)
  | inspectContainer (ref : ContainerRef)
  | listEvents (wait : ℤ)
  | containerStats (ref : ContainerRef)
  | hostStats
  | listImages (host : String)
  | listVolumes (host : String)
  | listNetworks (host : String)
  | historySearch (container host search : String) (regex : Bool) (levels since until_ : String) (limit : ℤ)
      (cursor : String)
  | historyStatus
  | historyContainers
  | startContainer (ref : ContainerRef)
  | stopContainer (ref : ContainerRef)
  | restartContainer (ref : ContainerRef)
  | removeContainer (ref : ContainerRef)
  | runCommand (container host command : String)
  | getEnv (ref : ContainerRef)
  | setEnv (container host : String) (env : List (String × String))
  | getSettings
  | setReadOnly (value : Bool)
  | setLogStorage (enabled : Option Bool) (perContainerMB totalMB : Option ℤ)
  | setDockerHosts (hosts : List (String × String))
  | setCoolifyHosts (hosts : List (String × String × String))
  | setAuth (enabled : Bool) (adminUsername newPassword : String)
  | listAPITokens
  | createAPIToken (name scope : String)
  | deleteAPIToken (tokenPrefix : String)
deriving DecidableEq, Repr

/-- what a tool tells the assistant about itself -/
inductive Annotations where
  | readOnlyAnnot
  | lifecycleAnnot
  | destructiveAnnot
deriving DecidableEq, Repr

def mcpMaxTail : ℤ := 500

def clampInt (v default_ maximum : ℤ) : ℤ := if v ≤ 0 then default_ else if v > maximum then maximum else v

def clampTail (v : ℤ) : ℤ := clampInt v 100 mcpMaxTail

namespace Query

/-- `url.Values.Set` -/
def set (query : List (String × String)) (key value : String) : List (String × String) :=
  (query.filter fun q => q.1 ≠ key) ++ [(key, value)]

/-- a value that is not empty -/
def setNonempty (query : List (String × String)) (key value : String) : List (String × String) :=
  if value ≠ "" then set query key value else query

/-- levels that are named, in capitals -/
def setLevels (lib : ToolLibrary) (query : List (String × String)) (key value : String) : List (String × String) :=
  if value ≠ "" then set query key (lib.toUpper value) else query

end Query

open Query (set setNonempty setLevels)

/-- `logFlags.query` -/
def logQuery (lib : ToolLibrary) (tail : ℤ) (level search since until_ : String) :
    Except String (List (String × String)) := do
  let since ← lib.parseTimeArg since
  let until_ ← lib.parseTimeArg until_
  let query := setNonempty (setNonempty (set [] "tail" (toString tail)) "since" since) "until" until_
  return setNonempty (setLevels lib query "level" level) "search" search

def buildTargets (containers : List ContainerInfo) : List String :=
  containers.map fun c => c.host ++ "~" ++ c.id ++ "~" ++ containerName c

namespace Client

/-- `do` with an answer that is decoded -/
def call (c : Client) (method path : String) (query : List (String × String)) (body : Payload) : Command Json := do
  let body ← c.send { method := method, path := path, query := query, body := body }
  Dialogue.ofExcept body.decode

/-- one request for each batch of targets -/
def aggregateBatches (c : Client) (query : List (String × String)) : List (List String) → Command (List Json)
  | [] => pure []
  | batch :: batches => do
    let doc ← c.get "/logs/aggregate" (set query "targets" (",".intercalate batch))
    let logs ← Dialogue.ofExcept (doc.field "logs").asList
    let rest ← c.aggregateBatches query batches
    return logs ++ rest

/-- sorted by time -/
def aggregatedLogs (lib : ToolLibrary) (c : Client) (targets : List String) (query : List (String × String)) :
    Command (List Json) := do
  let all ← c.aggregateBatches query (batchStrings targets maxAggregateTargets)
  return all.insertionSort fun a b => lib.timestamp a ≤ lib.timestamp b

/-- `registerAction` -/
def registerAction (c : Client) (ref : ContainerRef) (endpoint past : String) : Command Json := do
  let container ← c.resolve ref.container ref.host
  let _ ← c.send
    { method := "POST", path := "/containers/" ++ container.id ++ "/" ++ endpoint
      query := [("host", container.host)], body := .none }
  return .object
    [("message", .string ("container " ++ past)), ("name", .string (containerName container)),
     ("id", .string container.id), ("host", .string container.host)]

/-- `registerListTool`; an item that is no object has no host -/
def registerListTool (c : Client) (path key host : String) : Command Json := do
  let doc ← c.get path []
  let items := match (doc.field key).asList with | .ok items => items | .error _ => []
  let kept := items.filter fun item => host = "" || (match item.field "host" with | .string s => s = host | _ => false)
  return .object [(key, .array kept), ("hostErrors", doc.field "hostErrors")]

end Client

def asString : Json → String
  | .string s => s
  | _ => ""

/-- an event that can be read -/
def decodeEvent (line : Option Json) : Option Json :=
  match line with
  | none => none
  | some doc =>
    if asString (doc.field "type") = "heartbeat" then none
    else match doc.asObject with | .ok event => some event | .error _ => none

/-- `url.PathEscape` of a byte -/
def escapeByte (b : UInt8) : List Char :=
  let kept := "-_.~$&+=:@".toList
  let hex := fun n => (Nat.digitChar n).toUpper
  let c := Char.ofNat b.toNat
  if b < 128 && (c.isAlphanum || kept.contains c) then [c] else ['%', hex (b.toNat / 16), hex (b.toNat % 16)]

def pathEscape (s : String) : String :=
  String.ofList (s.toList.flatMap fun c => (String.utf8EncodeChar c).flatMap escapeByte)

namespace Tool

def annotations : Tool → Annotations
  | listContainers .. | getLogs .. | searchLogs .. | inspectContainer .. | listEvents .. | containerStats ..
  | hostStats | listImages .. | listVolumes .. | listNetworks .. | historySearch .. | historyStatus
  | historyContainers | getEnv .. | getSettings | listAPITokens => .readOnlyAnnot
  | startContainer .. | stopContainer .. | restartContainer .. => .lifecycleAnnot
  | removeContainer .. | runCommand .. | setEnv .. | setReadOnly .. | setLogStorage .. | setDockerHosts ..
  | setCoolifyHosts .. | setAuth .. | createAPIToken .. | deleteAPIToken .. => .destructiveAnnot

def run (lib : ToolLibrary) (c : Client) : Tool → Command Json
  | listContainers state host => do
    let doc ← c.get "/containers" []
    let rows ← Dialogue.ofExcept (do (← (doc.field "containers").asList).mapM Json.asObject)
    let kept := rows.filter fun row =>
      (state = "" || asString (row.field "state") = state) && (host = "" || asString (row.field "host") = host)
    return .object
      [("containers", .array kept), ("hostErrors", doc.field "hostErrors"), ("readOnly", doc.field "readOnly")]
  | getLogs container host tail level search since until_ => do
    let container ← c.resolve container host
    let query ← Dialogue.ofExcept (logQuery lib (clampTail tail) level search since until_)
    let doc ← c.get ("/containers/" ++ container.id ++ "/logs/parsed") (set query "host" container.host)
    return .object [("logs", doc.field "logs"), ("count", doc.field "count")]
  | searchLogs search host level since tail => do
    if let some err := lib.compile search then
      .fail ("invalid regex " ++ GoQuote.quote search ++ ": " ++ err)
    else
      let since ← Dialogue.ofExcept (lib.parseTimeArg (if since = "" then "15m" else since))
      let containers ← c.fetchContainers
      let running := containers.filter fun c => c.state = "running" && (host = "" || c.host = host)
      if running = [] then
        return .object [("logs", .array []), ("count", .number "0")]
      else
        let query := setNonempty (set (set [] "search" search) "tail" (toString (clampTail tail))) "since" since
        let logs ← c.aggregatedLogs lib (buildTargets running) (setLevels lib query "level" level)
        return .object [("logs", .array logs), ("count", .number (toString logs.length))]
  | inspectContainer ref => do
    let container ← c.resolve ref.container ref.host
    let doc ← c.get ("/containers/" ++ container.id ++ "/") [("host", container.host)]
    return doc.field "container"
  | listEvents _ => do
    let body ← c.send { method := "GET", path := "/events", query := [], body := .none }
    let events := body.lines.filterMap decodeEvent
    return .object [("events", .array events), ("count", .number (toString events.length))]
  | containerStats ref => do
    let doc ← c.get "/containers/stats" []
    let stats ← Dialogue.ofExcept (doc.field "stats").asList
    if ref.container = "" then return .object [("stats", .array stats)]
    else
      let container ← c.resolve ref.container ref.host
      let kept := stats.filter fun st =>
        asString (st.field "id") = container.id && asString (st.field "host") = container.host
      return .object [("stats", .array kept)]
  | hostStats => do
    let doc ← c.get "/hosts/stats" []
    return .object [("hosts", doc.field "hosts")]
  | listImages host => c.registerListTool "/images" "images" host
  | listVolumes host => c.registerListTool "/volumes" "volumes" host
  | listNetworks host => c.registerListTool "/networks" "networks" host
  | historySearch container host search regex levels since until_ limit cursor => do
    let query := setNonempty (setNonempty (set [] "container" container) "host" host) "search" search
    let query := setLevels lib (if regex then set query "regex" "true" else query) "levels" levels
    let since ← Dialogue.ofExcept (lib.parseTimeArg since)
    let until_ ← Dialogue.ofExcept (lib.parseTimeArg until_)
    let query := setNonempty (setNonempty query "since" since) "until" until_
    let query := setNonempty (set query "limit" (toString (clampTail limit))) "cursor" cursor
    c.get "/history/logs" query
  | historyStatus => c.get "/history/status" []
  | historyContainers => c.get "/history/containers" []
  | startContainer ref => c.registerAction ref "start" "started"
  | stopContainer ref => c.registerAction ref "stop" "stopped"
  | restartContainer ref => c.registerAction ref "restart" "restarted"
  | removeContainer ref => c.registerAction ref "remove" "removed"
  | runCommand container host command => do
    if trimSpace command = "" then .fail "command is required"
    else
      let container ← c.resolve container host
      let path := "/containers/" ++ container.id ++ "/exec/run"
      let doc ← c.call "POST" path [("host", container.host)] (.command command)
      return .object
        [("command", .string command), ("exitCode", doc.field "exitCode"), ("stdout", doc.field "stdout"),
         ("stderr", doc.field "stderr")]
  | getEnv ref => do
    let container ← c.resolve ref.container ref.host
    let doc ← c.get ("/containers/" ++ container.id ++ "/env") [("host", container.host)]
    return .object [("env", doc.field "env")]
  | setEnv container host env => do
    if env = [] then .fail "env is required and must be the complete variable map"
    else
      let container ← c.resolve container host
      c.call "PUT" ("/containers/" ++ container.id ++ "/env") [("host", container.host)] (.env env)
  | getSettings => c.get "/settings" []
  | setReadOnly value => c.call "PUT" "/settings/read-only" [] (.value value)
  | setLogStorage enabled perContainerMB totalMB =>
    if enabled = none ∧ perContainerMB = none ∧ totalMB = none then
      .fail "set at least one of enabled, perContainerMB, or totalMB"
    else c.call "PUT" "/settings/log-storage" [] (.logStorage enabled perContainerMB totalMB)
  | setDockerHosts hosts => c.call "PUT" "/settings/docker-hosts" [] (.dockerHosts hosts)
  | setCoolifyHosts hosts => c.call "PUT" "/settings/coolify-hosts" [] (.coolifyHosts hosts)
  | setAuth enabled adminUsername newPassword =>
    c.call "PUT" "/settings/auth" []
      (.auth enabled adminUsername (if newPassword = "" then none else some newPassword))
  | listAPITokens => c.get "/settings/api-tokens" []
  | createAPIToken name scope =>
    if trimSpace name = "" then .fail "name is required"
    else c.call "POST" "/settings/api-tokens" [] (.token name (if scope = "" then none else some scope))
  | deleteAPIToken tokenPrefix => do
    if trimSpace tokenPrefix = "" then .fail "prefix is required"
    else
      let _ ← c.send
        { method := "DELETE", path := "/settings/api-tokens/" ++ pathEscape tokenPrefix, query := [], body := .none }
      return .object [("message", .string "token revoked"), ("prefix", .string tokenPrefix)]

/-- the handlers that the code of a tool is meant for -/
def handlers : Tool → List Handler
  | listContainers .. => [.GetContainers]
  | getLogs .. => [.GetContainers, .GetContainerLogsParsed]
  | searchLogs .. => [.GetContainers, .GetAggregatedLogs]
  | inspectContainer .. => [.GetContainers, .GetContainer]
  | listEvents .. => [.GetContainerEvents]
  | containerStats .. => [.GetContainerStats, .GetContainers]
  | hostStats => [.GetHostsStats]
  | listImages .. => [.GetImages]
  | listVolumes .. => [.GetVolumes]
  | listNetworks .. => [.GetNetworks]
  | historySearch .. => [.GetHistoryLogs]
  | historyStatus => [.GetHistoryStatus]
  | historyContainers => [.GetHistoryContainers]
  | startContainer .. => [.GetContainers, .StartContainer]
  | stopContainer .. => [.GetContainers, .StopContainer]
  | restartContainer .. => [.GetContainers, .RestartContainer]
  | removeContainer .. => [.GetContainers, .RemoveContainer]
  | runCommand .. => [.GetContainers, .RunCommand]
  | getEnv .. => [.GetContainers, .GetEnvVariables]
  | setEnv .. => [.GetContainers, .UpdateEnvVariables]
  | getSettings => [.GetSettings]
  | setReadOnly .. => [.UpdateReadOnly]
  | setLogStorage .. => [.UpdateLogStorage]
  | setDockerHosts .. => [.UpdateDockerHosts]
  | setCoolifyHosts .. => [.UpdateCoolifyHosts]
  | setAuth .. => [.UpdateAuth]
  | listAPITokens => [.ListAPITokens]
  | createAPIToken .. => [.CreateAPIToken]
  | deleteAPIToken .. => [.DeleteAPIToken]

end Tool

/-! ## Paths -/

theorem shape_known (path : List (List Char)) : Shape.Of (path.map some) path := by
  induction path with
  | nil => exact .nil
  | cons s path ih => exact .cons rfl ih

theorem shape_open {front back : List (List Char)} {s : String} (h : IsSegment s) :
    Shape.Of (front.map some ++ none :: back.map some) (front ++ s.toList :: back) := by
  have hne : s.toList ≠ [] := by
    intro hnil
    exact h.1 (String.toList_eq_nil_iff.1 hnil)
  exact List.rel_append (shape_known front) (.cons hne (shape_known back))

section
variable {mux : Mux} {method : String} {query : List (String × String)} {body : Payload} {h : Handler}

theorem routed_static (hmux : mux.Finds) {path : String}
    (honly : onlyFits method ((segments ("/api/v1" ++ path)).map some) h = true) :
    Routed mux { method := method, path := path, query := query, body := body } h :=
  find_shape hmux (shape_known _) honly

/-- the segments in front of the ID of a container -/
def containerFront : List (List Char) := segments "/api/v1/containers"

theorem routed_container (hmux : mux.Finds) {id suffix rest : String} (hid : IsSegment id)
    (hsuffix : suffix = "/" ++ rest)
    (honly : onlyFits method (containerFront.map some ++ none :: (segments rest).map some) h = true) :
    Routed mux { method := method, path := "/containers/" ++ id ++ suffix, query := query, body := body } h := by
  have hpath : "/api/v1" ++ ("/containers/" ++ id ++ suffix) = "/api/v1/containers" ++ "/" ++ (id ++ "/" ++ rest) := by
    rw [hsuffix, ← String.toList_inj]
    simp
  have hsegments : segments ("/api/v1" ++ ("/containers/" ++ id ++ suffix)) =
      containerFront ++ id.toList :: segments rest := by
    rw [hpath, segments_append, segments_append, segments_segment hid]
    rfl
  apply find_shape hmux _ honly
  rw [hsegments]
  exact shape_open hid

theorem routed_token (hmux : mux.Finds) {s : String} (hs : IsSegment s)
    (honly : onlyFits method ((segments ("/api/v1" ++ "/settings/api-tokens")).map some ++ [none]) h = true) :
    Routed mux { method := method, path := "/settings/api-tokens/" ++ s, query := query, body := body } h := by
  have hpath : "/api/v1" ++ ("/settings/api-tokens/" ++ s) = "/api/v1/settings/api-tokens" ++ "/" ++ s := by
    rw [← String.toList_inj]
    simp
  apply find_shape hmux _ honly
  rw [hpath, segments_append, segments_segment hs]
  exact @shape_open (segments ("/api/v1" ++ "/settings/api-tokens")) [] s hs

end

/-- a path that is known -/
def known (path : String) : Shape := (segments ("/api/v1" ++ path)).map some

/-- a path with the ID of a container -/
def ofContainer (rest : String) : Shape := containerFront.map some ++ none :: (segments rest).map some

/-- method and path of what the tools send to a handler -/
def endpoint : Handler → String × Shape
  | .GetContainers => ("GET", known "/containers")
  | .GetContainerLogsParsed => ("GET", ofContainer "logs/parsed")
  | .GetAggregatedLogs => ("GET", known "/logs/aggregate")
  | .GetContainer => ("GET", ofContainer "")
  | .GetContainerEvents => ("GET", known "/events")
  | .GetContainerStats => ("GET", known "/containers/stats")
  | .GetHostsStats => ("GET", known "/hosts/stats")
  | .GetImages => ("GET", known "/images")
  | .GetVolumes => ("GET", known "/volumes")
  | .GetNetworks => ("GET", known "/networks")
  | .GetHistoryLogs => ("GET", known "/history/logs")
  | .GetHistoryStatus => ("GET", known "/history/status")
  | .GetHistoryContainers => ("GET", known "/history/containers")
  | .StartContainer => ("POST", ofContainer "start")
  | .StopContainer => ("POST", ofContainer "stop")
  | .RestartContainer => ("POST", ofContainer "restart")
  | .RemoveContainer => ("POST", ofContainer "remove")
  | .RunCommand => ("POST", ofContainer "exec/run")
  | .GetEnvVariables => ("GET", ofContainer "env")
  | .UpdateEnvVariables => ("PUT", ofContainer "env")
  | .GetSettings => ("GET", known "/settings")
  | .UpdateReadOnly => ("PUT", known "/settings/read-only")
  | .UpdateLogStorage => ("PUT", known "/settings/log-storage")
  | .UpdateDockerHosts => ("PUT", known "/settings/docker-hosts")
  | .UpdateCoolifyHosts => ("PUT", known "/settings/coolify-hosts")
  | .UpdateAuth => ("PUT", known "/settings/auth")
  | .ListAPITokens => ("GET", known "/settings/api-tokens")
  | .CreateAPIToken => ("POST", known "/settings/api-tokens")
  | .DeleteAPIToken => ("DELETE", known "/settings/api-tokens" ++ [none])
  | _ => ("", [])

def toolHandlers : List Handler :=
  [.GetContainers, .GetContainerLogsParsed, .GetAggregatedLogs, .GetContainer, .GetContainerEvents, .GetContainerStats,
   .GetHostsStats, .GetImages, .GetVolumes, .GetNetworks, .GetHistoryLogs, .GetHistoryStatus, .GetHistoryContainers,
   .StartContainer, .StopContainer, .RestartContainer, .RemoveContainer, .RunCommand, .GetEnvVariables,
   .UpdateEnvVariables, .GetSettings, .UpdateReadOnly, .UpdateLogStorage, .UpdateDockerHosts, .UpdateCoolifyHosts,
   .UpdateAuth, .ListAPITokens, .CreateAPIToken, .DeleteAPIToken]

/-- what the tools send fits a route of its handler, and of no other -/
theorem endpoint_only : ∀ h ∈ toolHandlers, onlyFits (endpoint h).1 (endpoint h).2 h = true := by decide +kernel

theorem escapeByte_segment (b : UInt8) : escapeByte b ≠ [] ∧ '/' ∉ escapeByte b := by
  have hall : ∀ n < 256, escapeByte (UInt8.ofNat n) ≠ [] ∧ '/' ∉ escapeByte (UInt8.ofNat n) := by
    decide +kernel
  have hb := hall b.toNat b.toNat_lt
  rwa [UInt8.ofNat_toNat] at hb

theorem isSegment_pathEscape {s : String} (h : s ≠ "") : IsSegment (pathEscape s) := by
  constructor
  · intro hempty
    have hlist : (s.toList.flatMap fun c => (String.utf8EncodeChar c).flatMap escapeByte) = [] :=
      String.ofList_eq_empty_iff.1 hempty
    obtain ⟨c, cs, hcons⟩ := List.exists_cons_of_ne_nil fun hnil => h (String.toList_eq_nil_iff.1 hnil)
    obtain ⟨b, bs, hbytes⟩ := List.exists_cons_of_ne_nil (String.utf8EncodeChar_ne_nil (c := c))
    rw [hcons, List.flatMap_cons, hbytes, List.flatMap_cons] at hlist
    exact (escapeByte_segment b).1 (List.append_eq_nil_iff.1 (List.append_eq_nil_iff.1 hlist).1).1
  · unfold pathEscape
    rw [String.toList_ofList]
    intro hmem
    obtain ⟨c, -, hc⟩ := List.mem_flatMap.1 hmem
    obtain ⟨b, -, hb⟩ := List.mem_flatMap.1 hc
    exact (escapeByte_segment b).2 hb

/-! ## What a tool comes to -/

/-- a tool that works has reached all its handlers, of which a token for reading is granted the readable ones only -/
def Works (scope : String) (handlers : List Handler) (result : Except String Json) : Prop :=
  ∀ doc, result = .ok doc → scope = APITokenScopeRead → ∀ h ∈ handlers, h.Readable

section
variable {mux : Mux} {c : Client} {scope : String} {handlers : List Handler} {h : Handler} {doc : Json}

theorem works_error (e : String) : Works scope handlers (.error e) := by
  intro doc hdoc
  cases hdoc

/-- the last handler is granted, and the others are readable -/
theorem works_last (hgrants : ∃ a, Grants scope a h) (hothers : ∀ h' ∈ handlers, h' = h ∨ h'.Readable) :
    Works scope handlers (.ok doc) := by
  intro _ _ hread h' hmem
  obtain ⟨a, hreadable, -⟩ := hgrants
  rcases hothers h' hmem with rfl | hother
  · exact hreadable hread
  · exact hother

theorem works_readable (hreadable : ∀ h ∈ handlers, h.Readable) : Works scope handlers (.ok doc) :=
  fun _ _ _ => hreadable

/-- what is resolved is a segment of a path -/
theorem resolve_holds (hmux : mux.Finds) (hldk : hasPrefix c.token APITokenPrefix) (hmem : .GetContainers ∈ handlers)
    {query host : String} {next : ContainerInfo → Command Json}
    (hnext : ∀ container, IsSegment container.id →
      (next container).Holds (agreement mux c scope handlers) (Works scope handlers)) :
    (c.resolve query host >>= next).Holds (agreement mux c scope handlers) (Works scope handlers) := by
  unfold Client.resolve Client.fetchContainers
  rw [Dialogue.bind_assoc, Dialogue.bind_assoc]
  apply get_holds hldk hmem rfl (routed_static hmux (endpoint_only .GetContainers (by decide)))
  · intro _ doc hlisted
    apply Dialogue.holds_ofExcept
    · intro containers hcontainers
      apply Dialogue.holds_ofExcept
      · intro container hcontainer
        exact hnext container (hlisted rfl containers hcontainers container (resolveContainer_ok hcontainer).1)
      · exact works_error
    · exact works_error
  · exact works_error

theorem fetch_holds (hmux : mux.Finds) (hldk : hasPrefix c.token APITokenPrefix) (hmem : .GetContainers ∈ handlers)
    {next : List ContainerInfo → Command Json}
    (hnext : ∀ containers, (next containers).Holds (agreement mux c scope handlers) (Works scope handlers)) :
    (c.fetchContainers >>= next).Holds (agreement mux c scope handlers) (Works scope handlers) := by
  unfold Client.fetchContainers
  rw [Dialogue.bind_assoc]
  apply get_holds hldk hmem rfl (routed_static hmux (endpoint_only .GetContainers (by decide)))
  · intro _ doc _
    exact Dialogue.holds_ofExcept (fun containers _ => hnext containers) works_error
  · exact works_error

theorem toolHandlers_protected : ∀ h ∈ toolHandlers, h.isPublic = false := by decide

theorem works_only (hgrants : ∃ a, Grants scope a h) : Works scope [h] (.ok doc) := by
  apply works_last hgrants
  intro h' hmem
  exact .inl (List.mem_singleton.1 hmem)

theorem works_resolved (hgrants : ∃ a, Grants scope a h) : Works scope [.GetContainers, h] (.ok doc) := by
  apply works_last hgrants
  intro h' hmem
  rcases List.mem_cons.1 hmem with rfl | hmem
  · exact .inr (by decide)
  · exact .inl (List.mem_singleton.1 hmem)

/-- one request, and what is made of its answer -/
theorem get_static (hmux : mux.Finds) (hldk : hasPrefix c.token APITokenPrefix) (hused : h ∈ toolHandlers)
    {path : String} (hpath : endpoint h = ("GET", known path)) (query : List (String × String)) (f : Json → Json) :
    (c.get path query >>= fun doc => pure (f doc)).Holds (agreement mux c scope [h]) (Works scope [h]) := by
  have honly := endpoint_only h hused
  rw [hpath] at honly
  apply get_holds hldk (List.mem_singleton_self h) (toolHandlers_protected h hused) (routed_static hmux honly)
  · intro hgrants doc _
    exact Dialogue.holds_pure (works_only hgrants)
  · exact works_error

theorem get_only (hmux : mux.Finds) (hldk : hasPrefix c.token APITokenPrefix) (hused : h ∈ toolHandlers) {path : String}
    (hpath : endpoint h = ("GET", known path)) (query : List (String × String)) :
    (c.get path query).Holds (agreement mux c scope [h]) (Works scope [h]) := by
  rw [← Dialogue.bind_pure (c.get path query)]
  exact get_static hmux hldk hused hpath query id

theorem call_static (hmux : mux.Finds) (hldk : hasPrefix c.token APITokenPrefix) (hused : h ∈ toolHandlers)
    {method path : String} (hpath : endpoint h = (method, known path)) (query : List (String × String))
    (body : Payload) :
    (c.call method path query body).Holds (agreement mux c scope [h]) (Works scope [h]) := by
  have honly := endpoint_only h hused
  rw [hpath] at honly
  unfold Client.call
  apply send_holds hldk (List.mem_singleton_self h) (toolHandlers_protected h hused) (routed_static hmux honly)
  · intro hgrants body _
    rw [← Dialogue.bind_pure (Dialogue.ofExcept body.decode)]
    exact Dialogue.holds_ofExcept (fun doc _ => Dialogue.holds_pure (works_only hgrants)) works_error
  · exact works_error

/-- one request about a container, after it is resolved -/
theorem send_container (hmux : mux.Finds) (hldk : hasPrefix c.token APITokenPrefix) (hused : h ∈ toolHandlers)
    {method rest suffix : String} (hpath : endpoint h = (method, ofContainer rest))
    (hsuffix : suffix = "/" ++ rest)
    {container : ContainerInfo} (hid : IsSegment container.id) {query : List (String × String)} {body : Payload}
    {next : Body → Command Json}
    (hnext : (∃ a, Grants scope a h) → ∀ body,
      (next body).Holds (agreement mux c scope [.GetContainers, h]) (Works scope [.GetContainers, h])) :
    (c.send ⟨method, "/containers/" ++ container.id ++ suffix, query, body⟩ >>= next).Holds
      (agreement mux c scope [.GetContainers, h]) (Works scope [.GetContainers, h]) := by
  have honly := endpoint_only h hused
  rw [hpath] at honly
  apply send_holds hldk (List.mem_cons_of_mem _ (List.mem_singleton_self h)) (toolHandlers_protected h hused)
    (routed_container hmux hid hsuffix honly)
  · intro hgrants body _
    exact hnext hgrants body
  · exact works_error

theorem call_container (hmux : mux.Finds) (hldk : hasPrefix c.token APITokenPrefix) (rest : String)
    (hused : h ∈ toolHandlers) {method suffix : String} (hpath : endpoint h = (method, ofContainer rest))
    (hsuffix : suffix = "/" ++ rest) {container : ContainerInfo} (hid : IsSegment container.id) (query : List (String × String)) (body : Payload)
    (f : Json → Json) :
    (c.call method ("/containers/" ++ container.id ++ suffix) query body >>= fun doc => pure (f doc)).Holds
      (agreement mux c scope [.GetContainers, h]) (Works scope [.GetContainers, h]) := by
  unfold Client.call
  rw [Dialogue.bind_assoc]
  apply send_container hmux hldk hused hpath hsuffix hid
  intro hgrants body
  exact Dialogue.holds_ofExcept (fun doc _ => Dialogue.holds_pure (works_resolved hgrants)) works_error

/-- start, stop, restart and remove -/
theorem action_holds (hmux : mux.Finds) (hldk : hasPrefix c.token APITokenPrefix) (hused : h ∈ toolHandlers)
    {endpoint_ : String} (hpath : endpoint h = ("POST", ofContainer endpoint_)) (ref : ContainerRef) (past : String) :
    (c.registerAction ref endpoint_ past).Holds (agreement mux c scope [.GetContainers, h])
      (Works scope [.GetContainers, h]) := by
  unfold Client.registerAction
  apply resolve_holds hmux hldk (List.mem_cons_self ..)
  intro container hid
  rw [String.append_assoc]
  apply send_container hmux hldk hused hpath rfl hid
  intro hgrants body
  exact Dialogue.holds_pure (works_resolved hgrants)

/-- the requests for the batches, and what comes after them -/
theorem batches_holds (hmux : mux.Finds) (hldk : hasPrefix c.token APITokenPrefix)
    (hmem : .GetAggregatedLogs ∈ handlers) (query : List (String × String)) (batches : List (List String))
    {next : List Json → Command Json}
    (hnext : ∀ logs, (next logs).Holds (agreement mux c scope handlers) (Works scope handlers)) :
    (c.aggregateBatches query batches >>= next).Holds (agreement mux c scope handlers) (Works scope handlers) := by
  induction batches generalizing next with
  | nil => exact hnext []
  | cons batch batches ih =>
    unfold Client.aggregateBatches
    rw [Dialogue.bind_assoc]
    apply get_holds hldk hmem rfl (routed_static hmux (endpoint_only .GetAggregatedLogs (by decide)))
    · intro _ doc _
      rw [Dialogue.bind_assoc]
      apply Dialogue.holds_ofExcept
      · intro logs _
        rw [Dialogue.bind_assoc]
        apply ih
        intro rest
        exact hnext (logs ++ rest)
      · exact works_error
    · exact works_error

theorem isSegment_trimmed {s : String} (h : ¬ trimSpace s = "") : IsSegment (pathEscape s) := by
  apply isSegment_pathEscape
  rintro rfl
  exact h rfl

theorem tool_holds (hmux : mux.Finds) (hldk : hasPrefix c.token APITokenPrefix) (lib : ToolLibrary) (tool : Tool) :
    (tool.run lib c).Holds (agreement mux c scope tool.handlers) (Works scope tool.handlers) := by
  cases tool with
  | listContainers state host =>
    dsimp only [Tool.handlers, Tool.run]
    apply get_holds (h := .GetContainers) hldk (by decide) rfl
      (routed_static hmux (endpoint_only .GetContainers (by decide)))
    · intro _ doc _
      apply Dialogue.holds_ofExcept
      · intro rows _
        exact Dialogue.holds_pure (works_readable (by decide))
      · exact works_error
    · exact works_error
  | getLogs container host tail level search since until_ =>
    dsimp only [Tool.handlers, Tool.run]
    apply resolve_holds hmux hldk (by decide)
    intro container hid
    apply Dialogue.holds_ofExcept
    · intro query _
      exact call_container (h := .GetContainerLogsParsed) hmux hldk "logs/parsed" (by decide) rfl rfl hid _ _ _
    · exact works_error
  | searchLogs search host level since tail =>
    dsimp only [Tool.handlers, Tool.run]
    cases lib.compile search with
    | some err => exact works_error _
    | none =>
      apply Dialogue.holds_ofExcept
      · intro since _
        apply fetch_holds hmux hldk (by decide)
        intro containers
        split
        · exact Dialogue.holds_pure (works_readable (by decide))
        · unfold Client.aggregatedLogs
          rw [Dialogue.bind_assoc]
          apply batches_holds hmux hldk (by decide)
          intro logs
          exact Dialogue.holds_pure (works_readable (by decide))
      · exact works_error
  | inspectContainer ref =>
    dsimp only [Tool.handlers, Tool.run]
    apply resolve_holds hmux hldk (by decide)
    intro container hid
    exact call_container (h := .GetContainer) hmux hldk "" (by decide) rfl rfl hid _ _ _
  | listEvents wait =>
    dsimp only [Tool.handlers, Tool.run]
    apply send_holds (h := .GetContainerEvents) hldk (by decide) rfl
      (routed_static hmux (endpoint_only .GetContainerEvents (by decide)))
    · intro _ body _
      exact Dialogue.holds_pure (works_readable (by decide))
    · exact works_error
  | containerStats ref =>
    dsimp only [Tool.handlers, Tool.run]
    apply get_holds (h := .GetContainerStats) hldk (by decide) rfl
      (routed_static hmux (endpoint_only .GetContainerStats (by decide)))
    · intro _ doc _
      apply Dialogue.holds_ofExcept
      · intro stats _
        split
        · exact Dialogue.holds_pure (works_readable (by decide))
        · apply resolve_holds hmux hldk (by decide)
          intro container _
          exact Dialogue.holds_pure (works_readable (by decide))
      · exact works_error
    · exact works_error
  | hostStats => exact get_static (h := .GetHostsStats) hmux hldk (by decide) rfl _ _
  | listImages host => exact get_static (h := .GetImages) hmux hldk (by decide) rfl _ _
  | listVolumes host => exact get_static (h := .GetVolumes) hmux hldk (by decide) rfl _ _
  | listNetworks host => exact get_static (h := .GetNetworks) hmux hldk (by decide) rfl _ _
  | historySearch container host search regex levels since until_ limit cursor =>
    dsimp only [Tool.handlers, Tool.run]
    apply Dialogue.holds_ofExcept
    · intro since _
      apply Dialogue.holds_ofExcept
      · intro until_ _
        exact get_only (h := .GetHistoryLogs) hmux hldk (by decide) rfl _
      · exact works_error
    · exact works_error
  | historyStatus => exact get_only (h := .GetHistoryStatus) hmux hldk (by decide) rfl _
  | historyContainers => exact get_only (h := .GetHistoryContainers) hmux hldk (by decide) rfl _
  | startContainer ref => exact action_holds (h := .StartContainer) hmux hldk (by decide) rfl ref _
  | stopContainer ref => exact action_holds (h := .StopContainer) hmux hldk (by decide) rfl ref _
  | restartContainer ref => exact action_holds (h := .RestartContainer) hmux hldk (by decide) rfl ref _
  | removeContainer ref => exact action_holds (h := .RemoveContainer) hmux hldk (by decide) rfl ref _
  | runCommand container host command =>
    dsimp only [Tool.handlers, Tool.run]
    split
    · exact works_error _
    · apply resolve_holds hmux hldk (by decide)
      intro container hid
      exact call_container (h := .RunCommand) hmux hldk "exec/run" (by decide) rfl rfl hid _ _ _
  | getEnv ref =>
    dsimp only [Tool.handlers, Tool.run]
    apply resolve_holds hmux hldk (by decide)
    intro container hid
    exact call_container (h := .GetEnvVariables) hmux hldk "env" (by decide) rfl rfl hid _ _ _
  | setEnv container host env =>
    dsimp only [Tool.handlers, Tool.run]
    split
    · exact works_error _
    · apply resolve_holds hmux hldk (by decide)
      intro container hid
      rw [← Dialogue.bind_pure (Client.call ..)]
      exact call_container (h := .UpdateEnvVariables) hmux hldk "env" (by decide) rfl rfl hid _ _ id
  | getSettings => exact get_only (h := .GetSettings) hmux hldk (by decide) rfl _
  | setReadOnly value => exact call_static (h := .UpdateReadOnly) hmux hldk (by decide) rfl _ _
  | setLogStorage enabled perContainerMB totalMB =>
    dsimp only [Tool.handlers, Tool.run]
    split
    · exact works_error _
    · exact call_static (h := .UpdateLogStorage) hmux hldk (by decide) rfl _ _
  | setDockerHosts hosts => exact call_static (h := .UpdateDockerHosts) hmux hldk (by decide) rfl _ _
  | setCoolifyHosts hosts => exact call_static (h := .UpdateCoolifyHosts) hmux hldk (by decide) rfl _ _
  | setAuth enabled adminUsername newPassword => exact call_static (h := .UpdateAuth) hmux hldk (by decide) rfl _ _
  | listAPITokens => exact get_only (h := .ListAPITokens) hmux hldk (by decide) rfl _
  | createAPIToken name newScope =>
    dsimp only [Tool.handlers, Tool.run]
    split
    · exact works_error _
    · exact call_static (h := .CreateAPIToken) hmux hldk (by decide) rfl _ _
  | deleteAPIToken tokenPrefix =>
    dsimp only [Tool.handlers, Tool.run]
    split
    · exact works_error _
    · rename_i hname
      apply send_holds (h := .DeleteAPIToken) hldk (by decide) rfl
        (routed_token hmux (isSegment_trimmed hname) (endpoint_only .DeleteAPIToken (by decide)))
      · intro hgrants body _
        exact Dialogue.holds_pure (works_only hgrants)
      · exact works_error

end

theorem annotations_truthful (tool : Tool) :
    tool.annotations = .readOnlyAnnot ↔ ∀ h ∈ tool.handlers, h.powers ⊆ [.showsConfidential] := by
  cases tool <;> simp only [Tool.annotations, Tool.handlers] <;> decide

/-- a call of a tool that the token is good for, with what became of it -/
def Served (scope : String) (c : Client) (mux : Mux) (handlers : List Handler) (call : ApiCall) (o : Outcome) : Prop :=
  ∃ a, Scoped c.token scope a ∧ dispatch mux a (newRequest c call) = o ∧
    ∃ h ∈ handlers, (Grants scope a h ∧ ∃ u, o = .reached h u) ∨ (¬ Grants scope a h ∧ ∃ e, o = .refused e)

/-- **Scopes.** Whatever else the server does with its state and answers, and whatever an assistant has a tool do: with an API
token of a scope, each of the tool's requests that arrives is passed to the handler it is meant for when the scope grants
the handler, and is refused when it does not; a tool that succeeds with a token for reading has only handlers without any
power and handlers that leak, and such a tool is never refused; and exactly the tools whose handlers neither change nor
run nor connect anything are announced as read-only. What the server is taken to keep is in `Honest`: at every answer auth
is enabled and the token is stored with its scope. -/
theorem tools_scoped {S : Type} {mux : Mux} (hmux : mux.Finds) {c : Client} (hldk : hasPrefix c.token APITokenPrefix)
    {scope : String} {server : S → ApiCall → S × Response}
    (hserver : ∀ s call, Honest mux c scope call (server s call).2) (lib : ToolLibrary) (tool : Tool) (s : S) :
    let record := Dialogue.run server s (tool.run lib c)
    (∀ x ∈ record.trace, ∀ o, x.2.outcome = some o → Served scope c mux tool.handlers x.1 o) ∧
      (scope = APITokenScopeRead →
        ((∃ doc, record.result = .ok doc) → ∀ h ∈ tool.handlers, h.Readable) ∧
        ((∀ h ∈ tool.handlers, h.Readable) → ∀ x ∈ record.trace, ∀ e, x.2.outcome ≠ some (.refused e))) ∧
      (tool.annotations = .readOnlyAnnot ↔ ∀ h ∈ tool.handlers, h.powers ⊆ [.showsConfidential]) := by
  intro record
  obtain ⟨htrace, hresult⟩ :=
    Dialogue.run_sound (c := agreement mux c scope tool.handlers) hserver (tool_holds hmux hldk lib tool) s
  have hserved : ∀ x ∈ record.trace, ∀ o, x.2.outcome = some o → Served scope c mux tool.handlers x.1 o := by
    intro x hx o ho
    obtain ⟨⟨h, hmem, hpublic, hrouted⟩, hhonest⟩ := htrace x hx
    have hhonest : Honest mux c scope x.1 x.2 := hhonest
    obtain ⟨a, ha, hdispatch⟩ := hhonest.dispatched o ho
    obtain ⟨hgrants, hserved⟩ := dispatch_call hldk hrouted hpublic ha
    rw [hdispatch] at hgrants hserved
    refine ⟨a, ha, hdispatch, h, hmem, ?_⟩
    rcases hserved with ⟨u, hreached⟩ | ⟨e, hrefused⟩
    · exact .inl ⟨hgrants.1 ⟨u, hreached⟩, u, hreached⟩
    · right
      refine ⟨?_, e, hrefused⟩
      intro hgranted
      obtain ⟨u, hreached⟩ := hgrants.2 hgranted
      rw [hrefused] at hreached
      cases hreached
  refine ⟨hserved, ?_, annotations_truthful tool⟩
  intro hread
  constructor
  · rintro ⟨doc, hdoc⟩
    exact hresult doc hdoc hread
  · intro hreadable x hx e hrefused
    obtain ⟨a, -, -, h, hmem, ⟨-, u, hreached⟩ | ⟨hnot, -⟩⟩ := hserved x hx _ hrefused
    · cases hreached
    · apply hnot
      refine ⟨fun _ => hreadable h hmem, ?_⟩
      rintro ⟨p, hp, hblocked⟩
      cases List.mem_singleton.1 ((hreadable h hmem).shows hp)
      cases hblocked

/-! ## A token for reading -/

def reader : Client := { baseURL := "http://localhost:8080", token := "ldk_r" }

/-- auth is enabled, and the token of the reader is stored -/
def readerAccess : Access where
  auth := some fun _ => .error .invalidToken
  lookupAPIToken := fun token => if token = "ldk_r" then some ("assistant", APITokenScopeRead) else none
  readOnly := false
  allowsLogin := true

/-- one container -/
def webListing : Json :=
  .object [("containers", .array
    [.object [("id", .string "4f2a"), ("names", .array [.string "/web"]), ("state", .string "running"),
      ("host", .string "local")]])]

/-- a server that lists the container to every handler's caller -/
def readerServer (_ : Unit) (call : ApiCall) : Unit × Response :=
  let o := dispatch Mux.plainFirst readerAccess (newRequest reader call)
  ((), { outcome := some o
         reply := match o with
           | .notFound => .http 404 "404 Not Found" ⟨"404 page not found", none, []⟩
           | .refused e => .http e.status "" ⟨e.body, none, []⟩
           | .reached _ _ => .http 200 "200 OK" ⟨"", some webListing, []⟩ })

theorem readerServer_honest (s : Unit) (call : ApiCall) :
    Honest Mux.plainFirst reader APITokenScopeRead call (readerServer s call).2 := by
  have hscoped : Scoped reader.token APITokenScopeRead readerAccess :=
    ⟨rfl, "assistant", APITokenScopeRead, rfl, by decide⟩
  refine ⟨?_, ?_, ?_, ?_, ?_⟩
  · intro o ho
    exact ⟨readerAccess, hscoped, Option.some.inj ho⟩
  · intro hlost
    cases hlost
  · intro e he
    right
    have ho := Option.some.inj he
    exact ⟨"", ⟨e.body, none, []⟩, by simp only [readerServer, ho]⟩
  · intro hmissing
    right
    have ho := Option.some.inj hmissing
    exact ⟨"404 Not Found", ⟨"404 page not found", none, []⟩, by simp only [readerServer, ho]⟩
  · intro u status text body ho hreply doc hdoc containers hcontainers container hmem
    have ho := Option.some.inj ho
    simp only [readerServer, ho] at hreply
    cases hreply
    cases hdoc
    have hlist : decodeContainers webListing = .ok [⟨"4f2a", ["/web"], "running", "local"⟩] := rfl
    cases hlist.symm.trans hcontainers
    cases List.mem_singleton.1 hmem
    decide

def plainTools : ToolLibrary := ⟨fun _ => none, String.toUpper, .ok, fun _ => 0⟩

/-- the reader reads a log, and cannot change an environment -/
theorem tools_scoped_reader :
    (∀ x ∈ (Dialogue.run readerServer () ((Tool.getLogs "web" "" 10 "" "" "" "").run plainTools reader)).trace,
      ∀ e, x.2.outcome ≠ some (.refused e)) ∧
      ¬ ∃ doc, (Dialogue.run readerServer () ((Tool.setEnv "web" "" [("A", "1")]).run plainTools reader)).result =
        .ok doc := by
  have hread := tools_scoped plainFirst_finds (by decide : hasPrefix reader.token APITokenPrefix = true)
    readerServer_honest plainTools
  constructor
  · exact ((hread (Tool.getLogs "web" "" 10 "" "" "" "") ()).2.1 rfl).2 (by decide)
  · intro hworks
    have hreadable := ((hread (Tool.setEnv "web" "" [("A", "1")]) ()).2.1 rfl).1 hworks
    exact absurd (hreadable .UpdateEnvVariables (by decide)) (by decide)

end LogDeck.Cli
