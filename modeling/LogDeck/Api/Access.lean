/-
Who may call what (`api/router.go`, `auth/middleware.go`, `api/middleware/readonly.go`).

A route is a method, a pattern and the middlewares between the request and its handler. The router of chi is a parameter:
it finds for a method and a path one of the registered routes of that method, or none. The static files and the access
log are left out. What a handler does with a request it is reached by is in the modules of the handlers; here a handler
is its name, and `powers` lists what its code does that not everybody may have it do.

`Caller.May` and `Power.blocked` are the policy that the route table is for; they look at the powers of a handler and
not at its middlewares. Two handlers are open to tokens for reading although they show what is confidential: they are
`Handler.leaks`, and the policy names them.

Results:
- `table_sound`: the middlewares of every route are those that the powers of its handler ask for;
- `chain_behind`: what the middlewares behind the authentication let through;
- `dispatch_policy`: a handler is reached exactly when the policy allows it, by the caller the credentials name.
-/
import LogDeck.Lib.Guards
import Mathlib.Tactic.Cases

namespace LogDeck.Api

open Guards

/-! ## Requests and credentials -/

structure Request where
  method : String
  path : String
  /-- the Authorization header, empty when there is none -/
  authorization : String
  /-- the query parameter token, empty when there is none -/
  token : String
deriving DecidableEq, Repr

structure User where
  username : String
  role : String
deriving DecidableEq, Repr

/-- what the claims of a session name -/
structure Claims where
  username : String
  role : String
deriving DecidableEq, Repr

inductive TokenError where
  | invalidToken
  | tokenExpired
deriving DecidableEq, Repr

/-- what the middlewares read while they look at one request -/
structure Access where
  /-- `VerifyToken` of the auth service; none when auth is disabled -/
  auth : Option (String → Except TokenError Claims)
  /-- name and scope of a stored API token -/
  lookupAPIToken : String → Option (String × String)
  readOnly : Bool
  /-- the answer of the login rate limiter to the client's address -/
  allowsLogin : Bool

structure Context where
  request : Request
  /-- the value under `UserContextKey` -/
  user : Option User
deriving DecidableEq, Repr

structure Refusal where
  status : ℕ
  body : String
deriving DecidableEq, Repr

/-- `http.Error`, which ends the body in a newline -/
def httpError (message : String) (status : ℕ) : Refusal := ⟨status, message ++ "\n"⟩

def APITokenPrefix : String := "ldk_"

def APITokenScopeAdmin : String := "admin"

def APITokenScopeRead : String := "read"

/-- an unknown scope counts as read -/
def NormalizeAPITokenScope (scope : String) : String :=
  if scope = "" ∨ scope = APITokenScopeAdmin then APITokenScopeAdmin else APITokenScopeRead

def hasPrefix (s p : String) : Bool := p.toList.isPrefixOf s.toList

/-- `strings.SplitN(s, " ", 2)` when it has two parts -/
def splitSpace (s : String) : Option (String × String) :=
  if ' ' ∈ s.toList then
    some (String.ofList (s.toList.takeWhile (· ≠ ' ')), String.ofList ((s.toList.dropWhile (· ≠ ' ')).drop 1))
  else none

/-- the token a request presents -/
def tokenString (r : Request) : Except Refusal String :=
  if r.authorization ≠ "" then
    match splitSpace r.authorization with
    | some ("Bearer", token) => .ok token
    | _ => .error (httpError "Invalid authorization header format" 401)
  else if r.token = "" then .error (httpError "Authorization header or token query parameter required" 401)
  else .ok r.token

def isMutatingMethod (method : String) : Bool := method ∉ ["GET", "HEAD", "OPTIONS"]

def isMutatingRequest (r : Request) : Bool := isMutatingMethod r.method

def readScopeRefusal : Refusal := httpError "This API token is read-only and cannot perform this operation" 403

def invalidToken : Refusal := httpError "Invalid token" 401

def validateAndServe (verifyToken : String → Except TokenError Claims)
    (lookupAPIToken : String → Option (String × String)) : Guard Context Refusal := fun c =>
  match tokenString c.request with
  | .error e => .error e
  | .ok token =>
    if hasPrefix token APITokenPrefix then
      match lookupAPIToken token with
      | some (name, scope) =>
        if NormalizeAPITokenScope scope = APITokenScopeRead ∧ isMutatingRequest c.request then .error readScopeRefusal
        else .ok { c with user := some { username := "token:" ++ name, role := NormalizeAPITokenScope scope } }
      | none => .error invalidToken
    else
      match verifyToken token with
      | .error .tokenExpired => .error (httpError "Token has expired" 401)
      | .error .invalidToken => .error invalidToken
      | .ok claims => .ok { c with user := some { username := claims.username, role := claims.role } }

/-! ## Middlewares -/

inductive Middleware where
  | loginRateLimiter
  | dynamicMiddleware
  | denyReadScope
  | readOnly
deriving DecidableEq, Repr

def Middleware.guard (a : Access) : Middleware → Guard Context Refusal
  | .loginRateLimiter, c =>
    if a.allowsLogin then .ok c else .error (httpError "Too many login attempts, please try again later" 429)
  | .dynamicMiddleware, c =>
    match a.auth with
    | none => .ok c
    | some verifyToken => validateAndServe verifyToken a.lookupAPIToken c
  | .denyReadScope, c =>
    if c.user.any fun user => user.role = APITokenScopeRead then .error readScopeRefusal else .ok c
  | .readOnly, c =>
    if a.readOnly then
      .error ⟨403, "\x7b\"error\":\"Operation not allowed in read-only mode\",\"read_only\":true\x7d\n"⟩
    else .ok c

/-! ## Routes -/

inductive Handler where
  | handleHealthz | handleVersion | GetSystemStats | handleAuthConfig | handleLogin
  | handleGetMe | GetContainerEvents | GetImages | GetVolumes | GetNetworks | GetHostsStats
  | GetContainers | GetContainerStats | GetAggregatedLogs | GetContainer | GetContainerLogsParsed | GetEnvVariables
  | GetContainerResources | StartContainer | StopContainer | RestartContainer | RemoveContainer | UpdateEnvVariables
  | UpdateContainerResources | HandleTerminal | RunCommand
  | ComposeAction
  | GetHistoryStatus | GetHistoryContainers | GetHistoryLogs | DeleteHistoryContainer
  | GetSettings | UpdateDockerHosts | UpdateCoolifyHosts | UpdateReadOnly | UpdateAuth | UpdateLogStorage
  | ListAPITokens | CreateAPIToken | DeleteAPIToken | TestDockerHost | TestCoolifyHost
  | ListAlertRules | CreateAlertRule | UpdateAlertRule | DeleteAlertRule | ListAlertChannels | CreateAlertChannel
  | UpdateAlertChannel | DeleteAlertChannel | TestAlertChannel | GetAlertHistory | ClearAlertHistory
deriving DecidableEq, Repr

structure Route where
  method : String
  pattern : String
  stack : List Middleware
  handler : Handler
deriving DecidableEq, Repr

namespace Route

/-- `r.With(stack...)` before a route -/
def within (pattern : String) (stack : List Middleware) (routes : List Route) : List Route :=
  routes.map fun route => { route with pattern := pattern ++ route.pattern, stack := stack ++ route.stack }

end Route

def registerContainerRoutes : List Route :=
  [⟨"GET", "/containers", [], .GetContainers⟩,
   ⟨"GET", "/containers/stats", [], .GetContainerStats⟩,
   ⟨"GET", "/logs/aggregate", [], .GetAggregatedLogs⟩] ++
  Route.within "/containers/\x7bid\x7d" []
    ([⟨"GET", "/", [], .GetContainer⟩,
      ⟨"GET", "/logs/parsed", [], .GetContainerLogsParsed⟩,
      ⟨"GET", "/env", [.denyReadScope], .GetEnvVariables⟩,
      ⟨"GET", "/resources", [], .GetContainerResources⟩] ++
     Route.within "" [.readOnly]
      [⟨"POST", "/start", [], .StartContainer⟩,
       ⟨"POST", "/stop", [], .StopContainer⟩,
       ⟨"POST", "/restart", [], .RestartContainer⟩,
       ⟨"POST", "/remove", [], .RemoveContainer⟩,
       ⟨"PUT", "/env", [], .UpdateEnvVariables⟩,
       ⟨"PUT", "/resources", [], .UpdateContainerResources⟩,
       ⟨"GET", "/exec", [.denyReadScope], .HandleTerminal⟩,
       ⟨"POST", "/exec/run", [.denyReadScope], .RunCommand⟩])

def registerComposeRoutes : List Route :=
  Route.within "" [.readOnly] [⟨"POST", "/compose/\x7bproject\x7d/\x7baction\x7d", [], .ComposeAction⟩]

def registerHistoryRoutes : List Route :=
  [⟨"GET", "/history/status", [], .GetHistoryStatus⟩,
   ⟨"GET", "/history/containers", [], .GetHistoryContainers⟩,
   ⟨"GET", "/history/logs", [], .GetHistoryLogs⟩,
   ⟨"DELETE", "/history/containers/\x7bname\x7d", [.readOnly, .denyReadScope], .DeleteHistoryContainer⟩]

def registerSettingsRoutes : List Route :=
  Route.within "/settings" [.dynamicMiddleware, .denyReadScope]
    [⟨"GET", "/", [], .GetSettings⟩,
     ⟨"PUT", "/docker-hosts", [], .UpdateDockerHosts⟩,
     ⟨"PUT", "/coolify-hosts", [], .UpdateCoolifyHosts⟩,
     ⟨"PUT", "/read-only", [], .UpdateReadOnly⟩,
     ⟨"PUT", "/auth", [], .UpdateAuth⟩,
     ⟨"PUT", "/log-storage", [.readOnly], .UpdateLogStorage⟩,
     ⟨"GET", "/api-tokens", [], .ListAPITokens⟩,
     ⟨"POST", "/api-tokens", [], .CreateAPIToken⟩,
     ⟨"DELETE", "/api-tokens/\x7bprefix\x7d", [], .DeleteAPIToken⟩,
     ⟨"POST", "/test/docker-host", [], .TestDockerHost⟩,
     ⟨"POST", "/test/coolify-host", [], .TestCoolifyHost⟩]

def registerAlertRoutes : List Route :=
  Route.within "/alerts" [.dynamicMiddleware, .denyReadScope]
    [⟨"GET", "/rules", [], .ListAlertRules⟩,
     ⟨"POST", "/rules", [], .CreateAlertRule⟩,
     ⟨"PUT", "/rules/\x7bid\x7d", [], .UpdateAlertRule⟩,
     ⟨"DELETE", "/rules/\x7bid\x7d", [], .DeleteAlertRule⟩,
     ⟨"GET", "/channels", [], .ListAlertChannels⟩,
     ⟨"POST", "/channels", [], .CreateAlertChannel⟩,
     ⟨"PUT", "/channels/\x7bid\x7d", [], .UpdateAlertChannel⟩,
     ⟨"DELETE", "/channels/\x7bid\x7d", [], .DeleteAlertChannel⟩,
     ⟨"POST", "/channels/\x7bid\x7d/test", [], .TestAlertChannel⟩,
     ⟨"GET", "/history", [], .GetAlertHistory⟩,
     ⟨"DELETE", "/history", [], .ClearAlertHistory⟩]

def Routes : List Route :=
  Route.within "/api/v1" []
    ([⟨"GET", "/healthz", [], .handleHealthz⟩,
      ⟨"GET", "/version", [], .handleVersion⟩,
      ⟨"GET", "/system/stats", [], .GetSystemStats⟩,
      ⟨"GET", "/auth/config", [], .handleAuthConfig⟩,
      ⟨"POST", "/auth/login", [.loginRateLimiter], .handleLogin⟩] ++
     registerSettingsRoutes ++
     registerAlertRoutes ++
     Route.within "" [.dynamicMiddleware]
      ([⟨"GET", "/auth/me", [], .handleGetMe⟩,
        ⟨"GET", "/events", [], .GetContainerEvents⟩,
        ⟨"GET", "/images", [], .GetImages⟩,
        ⟨"GET", "/volumes", [], .GetVolumes⟩,
        ⟨"GET", "/networks", [], .GetNetworks⟩,
        ⟨"GET", "/hosts/stats", [], .GetHostsStats⟩] ++
       registerContainerRoutes ++ registerComposeRoutes ++ registerHistoryRoutes))

/-- the router of chi: which route a method and a path find -/
structure Mux where
  find : String → String → Option Route
  registered : ∀ {method path : String} {route : Route}, find method path = some route →
    route ∈ Routes ∧ route.method = method

def segments (path : String) : List (List Char) := path.toList.splitOn '/'

/-- a segment in braces stands for any segment that is not empty -/
def matchesPattern : List (List Char) → List (List Char) → Bool
  | [], [] => true
  | p :: ps, s :: ss => (if p.head? = some '\x7b' then s ≠ [] else p = s) && matchesPattern ps ss
  | _, _ => false

/-- a router that takes the first registered route that fits -/
def Mux.first : Mux where
  find := fun method path =>
    Routes.find? fun route => route.method = method && matchesPattern (segments route.pattern) (segments path)
  registered := by
    intro method path route h
    have hfits := List.find?_some h
    simp only [Bool.and_eq_true, decide_eq_true_eq] at hfits
    exact ⟨List.mem_of_find?_eq_some h, hfits.1⟩

/-- what answers a request -/
inductive Outcome where
  | notFound
  | refused (refusal : Refusal)
  | reached (handler : Handler) (user : Option User)
deriving DecidableEq, Repr

def serve (a : Access) (route : Route) (r : Request) : Outcome :=
  match chain (route.stack.map (Middleware.guard a)) { request := r, user := none } with
  | .error e => .refused e
  | .ok c => .reached route.handler c.user

def dispatch (mux : Mux) (a : Access) (r : Request) : Outcome :=
  match mux.find r.method r.path with
  | none => .notFound
  | some route => serve a route r

/-! ## Policy -/

/-- what the code of a handler does that not everybody may have it do -/
inductive Power where
  /-- asks a Docker host to change containers -/
  | changesContainers
  /-- runs a command in a container -/
  | runsCommands
  /-- removes stored log lines, or lets the janitor remove them -/
  | deletesLogs
  /-- writes the configuration file -/
  | changesConfig
  | clearsAlertHistory
  /-- tries a connection, to an address that the request names or to an alert channel -/
  | connects
  /-- answers with environment values, the addresses of hosts, tokens or alert channels; the text of an error of an engine,
  which can name its address, does not count -/
  | showsConfidential
deriving DecidableEq, Repr

/-- read-only mode is against it -/
def Power.blocked : Power → Bool
  | .changesContainers | .runsCommands | .deletesLogs => true
  | .changesConfig | .clearsAlertHistory | .connects | .showsConfidential => false

namespace Handler

def powers : Handler → List Power
  | .handleHealthz | .handleVersion | .GetSystemStats | .handleAuthConfig | .handleLogin => []
  | .handleGetMe | .GetContainerEvents | .GetImages | .GetVolumes | .GetNetworks | .GetHostsStats => []
  | .GetContainerStats | .GetAggregatedLogs | .GetContainerLogsParsed | .GetContainerResources => []
  | .GetHistoryStatus | .GetHistoryContainers | .GetHistoryLogs => []
  -- the hosts with their addresses; all of the engine's inspect, with the environment
  | .GetContainers | .GetContainer => [.showsConfidential]
  | .GetEnvVariables => [.showsConfidential]
  | .StartContainer | .StopContainer | .RestartContainer | .RemoveContainer => [.changesContainers]
  | .UpdateEnvVariables | .UpdateContainerResources | .ComposeAction => [.changesContainers]
  | .HandleTerminal | .RunCommand => [.runsCommands]
  | .DeleteHistoryContainer => [.deletesLogs]
  | .GetSettings | .ListAPITokens => [.showsConfidential]
  | .UpdateDockerHosts | .UpdateCoolifyHosts | .UpdateReadOnly | .UpdateAuth => [.changesConfig]
  | .UpdateLogStorage => [.changesConfig, .deletesLogs]
  | .CreateAPIToken | .DeleteAPIToken => [.changesConfig]
  | .TestDockerHost | .TestCoolifyHost | .TestAlertChannel => [.connects]
  | .ListAlertRules | .ListAlertChannels | .GetAlertHistory => [.showsConfidential]
  | .CreateAlertRule | .UpdateAlertRule | .DeleteAlertRule => [.changesConfig]
  | .CreateAlertChannel | .UpdateAlertChannel | .DeleteAlertChannel => [.changesConfig]
  | .ClearAlertHistory => [.clearsAlertHistory]

/-- what a client needs before it has credentials -/
def isPublic : Handler → Bool
  | .handleHealthz | .handleVersion | .GetSystemStats | .handleAuthConfig | .handleLogin => true
  | _ => false

/-- shows what is confidential, and no `DenyReadScope` stands before it -/
def leaks : Handler → Bool
  | .GetContainers | .GetContainer => true
  | _ => false

/-- open to a token for reading -/
def Readable (h : Handler) : Prop := h.powers = [] ∨ h.leaks

instance (h : Handler) : Decidable h.Readable := inferInstanceAs (Decidable (_ ∨ _))

theorem powers_of_leaks {h : Handler} (hleaks : h.leaks) : h.powers = [.showsConfidential] := by
  cases h <;> first | rfl | cases hleaks

theorem powers_of_public {h : Handler} (hpublic : h.isPublic) : h.powers = [] := by
  cases h <;> first | rfl | cases hpublic

/-- a token for reading sees at most what is confidential, and does nothing -/
theorem Readable.shows {h : Handler} (hreadable : h.Readable) : h.powers ⊆ [.showsConfidential] := by
  rcases hreadable with hnone | hleaks
  · simp [hnone]
  · simp [powers_of_leaks hleaks]

end Handler

/-- who a request comes from -/
inductive Caller where
  /-- auth is disabled -/
  | anyone
  | apiToken (name scope : String)
  | session (claims : Claims)
deriving DecidableEq, Repr

namespace Caller

def user : Caller → Option User
  | .anyone => none
  | .apiToken name scope => some { username := "token:" ++ name, role := NormalizeAPITokenScope scope }
  | .session claims => some { username := claims.username, role := claims.role }

/-- a token for reading has no powers, but for what leaks; a session with the role read, which the login never issues,
could also change containers -/
def May (h : Handler) : Caller → Prop
  | .anyone => True
  | .apiToken _ scope => NormalizeAPITokenScope scope = APITokenScopeRead → h.Readable
  | .session claims => claims.role = APITokenScopeRead → h.powers ⊆ [.changesContainers] ∨ h.leaks

end Caller

/-- the caller whose credentials a request carries -/
def identify (a : Access) (r : Request) : Except Refusal Caller :=
  match a.auth with
  | none => .ok .anyone
  | some verifyToken =>
    match tokenString r with
    | .error e => .error e
    | .ok token =>
      if hasPrefix token APITokenPrefix then
        match a.lookupAPIToken token with
        | some (name, scope) => .ok (.apiToken name scope)
        | none => .error invalidToken
      else
        match verifyToken token with
        | .error .tokenExpired => .error (httpError "Token has expired" 401)
        | .error .invalidToken => .error invalidToken
        | .ok claims => .ok (.session claims)

/-- the policy of one handler -/
structure Granted (a : Access) (r : Request) (h : Handler) (u : Option User) : Prop where
  /-- nothing that read-only mode is against -/
  writable : (∃ p ∈ h.powers, p.blocked) → a.readOnly = false
  open_ : h.isPublic → u = none ∧ (h = .handleLogin → a.allowsLogin)
  called : h.isPublic = false → ∃ caller, identify a r = .ok caller ∧ caller.May h ∧ u = caller.user

/-! ## The table and the policy -/

/-- the middlewares of a route are those that the powers of its handler ask for, but for the handlers that leak -/
structure Route.Fits (route : Route) : Prop where
  shape : route.handler.isPublic →
    route.stack = if route.handler = .handleLogin then [.loginRateLimiter] else []
  auth : route.handler.isPublic = false → route.stack.head? = some .dynamicMiddleware
  behind : ∀ m ∈ route.stack.tail, m = .denyReadScope ∨ m = .readOnly
  reading : route.handler.isPublic = false →
    ((.denyReadScope ∈ route.stack ∨ isMutatingMethod route.method) ↔ ¬ route.handler.Readable)
  denied : route.handler.isPublic = false →
    (.denyReadScope ∈ route.stack ↔ ¬ (route.handler.powers ⊆ [.changesContainers] ∨ route.handler.leaks))
  blocked : .readOnly ∈ route.stack ↔ ∃ p ∈ route.handler.powers, p.blocked

instance (route : Route) : Decidable route.Fits :=
  decidable_of_iff
    ((route.handler.isPublic →
        route.stack = if route.handler = .handleLogin then [.loginRateLimiter] else []) ∧
      (route.handler.isPublic = false → route.stack.head? = some .dynamicMiddleware) ∧
      (∀ m ∈ route.stack.tail, m = .denyReadScope ∨ m = .readOnly) ∧
      (route.handler.isPublic = false →
        ((.denyReadScope ∈ route.stack ∨ isMutatingMethod route.method) ↔ ¬ route.handler.Readable)) ∧
      (route.handler.isPublic = false →
        (.denyReadScope ∈ route.stack ↔ ¬ (route.handler.powers ⊆ [.changesContainers] ∨ route.handler.leaks))) ∧
      (.readOnly ∈ route.stack ↔ ∃ p ∈ route.handler.powers, p.blocked))
    ⟨fun ⟨h₁, h₂, h₃, h₄, h₅, h₆⟩ => ⟨h₁, h₂, h₃, h₄, h₅, h₆⟩, fun ⟨h₁, h₂, h₃, h₄, h₅, h₆⟩ => ⟨h₁, h₂, h₃, h₄, h₅, h₆⟩⟩

theorem table_sound : ∀ route ∈ Routes, route.Fits := by decide

section
variable {a : Access} {c c' : Context}

/-- a read-scoped user is behind the context -/
def Context.Reads (c : Context) : Prop := ∃ user ∈ c.user, user.role = APITokenScopeRead

theorem denyReadScope_ok : Middleware.denyReadScope.guard a c = .ok c' ↔ c' = c ∧ ¬ c.Reads := by
  have hreads : (c.user.any fun user => user.role = APITokenScopeRead) = true ↔ c.Reads := by
    cases hu : c.user <;> simp [Context.Reads, hu]
  by_cases h : c.Reads
  · simp [Middleware.guard, hreads.2 h, h]
  · rw [← hreads, Bool.not_eq_true] at h
    simp [Middleware.guard, h, ← hreads, @eq_comm _ c c']

theorem readOnly_ok : Middleware.readOnly.guard a c = .ok c' ↔ c' = c ∧ a.readOnly = false := by
  cases h : a.readOnly <;> simp [Middleware.guard, h, @eq_comm _ c c']

/-- the middlewares behind the authentication let the context through as it is, or not at all -/
theorem chain_behind {stack : List Middleware} (hs : ∀ m ∈ stack, m = .denyReadScope ∨ m = .readOnly) :
    chain (stack.map (Middleware.guard a)) c = .ok c' ↔
      c' = c ∧ (.denyReadScope ∈ stack → ¬ c.Reads) ∧ (.readOnly ∈ stack → a.readOnly = false) := by
  have hfilter : ∀ m ∈ stack, ∀ c c', Middleware.guard a m c = .ok c' ↔
      c' = c ∧ (m = .denyReadScope → ¬ c.Reads) ∧ (m = .readOnly → a.readOnly = false) := by
    intro m hm c c'
    rcases hs m hm with rfl | rfl
    · simp [denyReadScope_ok]
    · simp [readOnly_ok]
  rw [chain_filters hfilter]
  constructor
  · rintro ⟨rfl, h⟩
    exact ⟨rfl, fun hdeny => (h _ hdeny).1 rfl, fun hro => (h _ hro).2 rfl⟩
  · rintro ⟨rfl, hdeny, hro⟩
    refine ⟨rfl, fun m hm => ⟨?_, ?_⟩⟩
    · rintro rfl
      exact hdeny hm
    · rintro rfl
      exact hro hm

/-- an API token for reading -/
def Caller.ReadToken : Caller → Prop
  | .apiToken _ scope => NormalizeAPITokenScope scope = APITokenScopeRead
  | _ => False

/-- the middleware lets a request through with its caller, a token for reading only when the method reads -/
theorem dynamicMiddleware_ok (hc : c.user = none) :
    Middleware.dynamicMiddleware.guard a c = .ok c' ↔
      ∃ caller, identify a c.request = .ok caller ∧ (caller.ReadToken → isMutatingRequest c.request = false) ∧
        c' = { c with user := caller.user } := by
  cases hauth : a.auth with
  | none =>
    have hself : { c with user := none } = c := by rw [← hc]
    simp [Middleware.guard, identify, hauth, Caller.ReadToken, Caller.user, hself, @eq_comm _ c c']
  | some verifyToken =>
    cases htoken : tokenString c.request with
    | error e => simp [Middleware.guard, identify, validateAndServe, hauth, htoken]
    | ok token =>
      by_cases hldk : hasPrefix token APITokenPrefix
      · cases hlookup : a.lookupAPIToken token with
        | none => simp [Middleware.guard, identify, validateAndServe, hauth, htoken, hldk, hlookup]
        | some found =>
          obtain ⟨name, scope⟩ := found
          by_cases hread : NormalizeAPITokenScope scope = APITokenScopeRead ∧ isMutatingRequest c.request
          · simp [Middleware.guard, identify, validateAndServe, hauth, htoken, hldk, hlookup, hread,
              Caller.ReadToken]
          · simp only [Middleware.guard, identify, validateAndServe, hauth, htoken, hldk, hlookup, hread, if_true,
              if_false, Except.ok.injEq, exists_eq_left', Caller.ReadToken, Caller.user]
            constructor
            · rintro rfl
              exact ⟨fun h => by simpa [h] using hread, rfl⟩
            · rintro ⟨-, rfl⟩
              rfl
      · cases hverify : verifyToken token with
        | error e =>
          cases e <;> simp [Middleware.guard, identify, validateAndServe, hauth, htoken, hldk, hverify]
        | ok claims =>
          simp [Middleware.guard, identify, validateAndServe, hauth, htoken, hldk, hverify, Caller.ReadToken,
            Caller.user, @eq_comm _ c']

end

section
variable {a : Access} {route : Route} {r : Request} {u : Option User}

theorem serve_reached {h : Handler} :
    serve a route r = .reached h u ↔
      route.handler = h ∧
        ∃ c, chain (route.stack.map (Middleware.guard a)) { request := r, user := none } = .ok c ∧ c.user = u := by
  unfold serve
  cases chain (route.stack.map (Middleware.guard a)) { request := r, user := none } with
  | error e => simp
  | ok c => simp

/-- a public route, which only the login rate limiter may stand before -/
theorem serve_public (hfits : route.Fits) (hpublic : route.handler.isPublic) :
    serve a route r = .reached route.handler u ↔ u = none ∧ (route.handler = .handleLogin → a.allowsLogin) := by
  rw [serve_reached, hfits.shape hpublic]
  by_cases hlogin : route.handler = .handleLogin
  · cases hallows : a.allowsLogin <;> simp [hlogin, chain, Middleware.guard, hallows, Except.bind, @eq_comm _ u]
  · simp [hlogin, chain, @eq_comm _ u]

theorem Caller.reads_iff (caller : Caller) :
    (∃ user ∈ caller.user, user.role = APITokenScopeRead) ↔
      caller.ReadToken ∨ ∃ claims, caller = .session claims ∧ claims.role = APITokenScopeRead := by
  cases caller <;> simp [Caller.user, Caller.ReadToken]

/-- a route behind the authentication -/
theorem serve_protected (hfits : route.Fits) (hpublic : route.handler.isPublic = false) (hmethod : route.method = r.method) :
    serve a route r = .reached route.handler u ↔
      ((∃ p ∈ route.handler.powers, p.blocked) → a.readOnly = false) ∧
        ∃ caller, identify a r = .ok caller ∧ caller.May route.handler ∧ u = caller.user := by
  obtain ⟨rest, hstack⟩ : ∃ rest, route.stack = .dynamicMiddleware :: rest := by
    cases hs : route.stack with
    | nil => simpa [hs] using hfits.auth hpublic
    | cons m rest =>
      have hm : m = .dynamicMiddleware := by simpa [hs] using hfits.auth hpublic
      exact ⟨rest, by rw [hm]⟩
  have hbehind : ∀ m ∈ rest, m = .denyReadScope ∨ m = .readOnly := by simpa [hstack] using hfits.behind
  have hdenied : Middleware.denyReadScope ∈ rest ↔
      ¬ (route.handler.powers ⊆ [.changesContainers] ∨ route.handler.leaks) := by
    simpa [hstack] using hfits.denied hpublic
  have hblocked : Middleware.readOnly ∈ rest ↔ ∃ p ∈ route.handler.powers, p.blocked := by
    simpa [hstack] using hfits.blocked
  have hreading : (Middleware.denyReadScope ∈ rest ∨ isMutatingRequest r) ↔ ¬ route.handler.Readable := by
    simpa [hstack, isMutatingRequest, ← hmethod] using hfits.reading hpublic
  have hreadable : route.handler.Readable ↔ .denyReadScope ∉ rest ∧ isMutatingRequest r = false := by
    rw [← not_iff_not, ← hreading, not_and_or, Classical.not_not, Bool.not_eq_false]
  -- which callers the authentication and the middlewares behind it let through together
  have hmay : ∀ caller : Caller,
      ((caller.ReadToken → isMutatingRequest r = false) ∧
        (Middleware.denyReadScope ∈ rest → ¬ ∃ user ∈ caller.user, user.role = APITokenScopeRead)) ↔
      caller.May route.handler := by
    intro caller
    rw [caller.reads_iff]
    cases caller with
    | anyone => simp [Caller.ReadToken, Caller.May]
    | apiToken name scope =>
      simp only [Caller.ReadToken, Caller.May, reduceCtorEq, false_and, exists_false, or_false, hreadable]
      tauto
    | session claims =>
      simp only [Caller.ReadToken, Caller.May, false_imp_iff, true_and, false_or, Caller.session.injEq,
        exists_eq_left', hdenied]
      tauto
  rw [serve_reached, hstack, List.map_cons]
  simp only [chain_cons_ok, dynamicMiddleware_ok, chain_behind hbehind, hblocked, true_and]
  constructor
  · rintro ⟨c, ⟨_, ⟨caller, hcaller, hread, rfl⟩, rfl, hdeny, hwritable⟩, rfl⟩
    exact ⟨hwritable, caller, hcaller, (hmay caller).1 ⟨hread, hdeny⟩, rfl⟩
  · rintro ⟨hwritable, caller, hcaller, hallowed, rfl⟩
    obtain ⟨hread, hdeny⟩ := (hmay caller).2 hallowed
    exact ⟨_, ⟨_, ⟨caller, hcaller, hread, rfl⟩, rfl, hdeny, hwritable⟩, rfl⟩

end

/-- **Access.** A handler is reached exactly when the router finds its route and the policy grants it to the caller: a
public handler without credentials, any other with a caller whose credentials are good for all the handler's powers or,
for a token for reading, with one of the two handlers that leak; and none of the powers that read-only mode is against
while it is on. -/
theorem dispatch_policy (mux : Mux) (a : Access) (r : Request) (h : Handler) (u : Option User) :
    dispatch mux a r = .reached h u ↔
      (∃ route, mux.find r.method r.path = some route ∧ route.handler = h) ∧ Granted a r h u := by
  unfold dispatch
  cases hfind : mux.find r.method r.path with
  | none => simp
  | some route =>
    obtain ⟨hmem, hmethod⟩ := mux.registered hfind
    have hfits := table_sound route hmem
    by_cases hhandler : route.handler = h
    · subst hhandler
      simp only [Option.some.injEq, exists_eq_left', true_and]
      cases hpublic : route.handler.isPublic with
      | true =>
        rw [serve_public hfits hpublic]
        have hpowerless : route.handler.powers = [] := Handler.powers_of_public hpublic
        constructor
        · intro hopen
          exact ⟨fun hp => by simp [hpowerless] at hp, fun _ => hopen, fun hp => by simp [hpublic] at hp⟩
        · intro hgranted
          exact hgranted.open_ hpublic
      | false =>
        rw [serve_protected hfits hpublic hmethod]
        constructor
        · rintro ⟨hwritable, hcalled⟩
          exact ⟨hwritable, fun hp => by simp [hpublic] at hp, fun _ => hcalled⟩
        · intro hgranted
          exact ⟨hgranted.writable, hgranted.called hpublic⟩
    · have hother : serve a route r ≠ .reached h u := fun hs => hhandler (serve_reached.1 hs).1
      simp [hother, hhandler]

end LogDeck.Api
