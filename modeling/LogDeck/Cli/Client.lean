/-
The client of the API (`cli/client.go`, `cli/resolve.go`, `cli/types.go`) and what it is answered
(`api/router.go`, `auth/middleware.go`).

A command of the CLI is a dialogue with the server. A body of a request is its value before it is encoded; a body of an
answer is what can be read from it: a text, perhaps a JSON document, and its lines. Of a document the fields that are
looked at matter. Go's decoder takes a missing field or a null for the zero value and refuses a value of another type;
that it also matches the names of fields in another case is left out.

A `Response` is what the client sees, and, for the theorems only, what became of the request in the server: `none` when it
did not arrive. `Honest` ties the two together. Nothing is assumed of what a handler answers once it is reached, but that
the IDs of the containers it lists are such as the engine hands out: segments of a path.

Results:
- `resolveContainer_ok`: the container that is resolved is the only one that could be meant;
- `identify_bearer`: the server knows the token that the client sends;
- `send_holds`, `get_holds`: what a request of the client comes to.
-/
import LogDeck.Lib.GoQuote
import LogDeck.Api.Routing
import LogDeck.Lib.Dialogue
import LogDeck.Models.Logs

namespace LogDeck.Cli

open LogDeck.Api LogDeck.Models

/-! ## Documents -/

inductive Json where
  | null
  | bool (b : Bool)
  | number (text : String)
  | string (s : String)
  | array (items : List Json)
  | object (fields : List (String × Json))

namespace Json

/-- of two fields of one name the last one counts -/
def field (name : String) : Json → Json
  | .object fields => ((fields.reverse.find? fun f => f.1 = name).map Prod.snd).getD .null
  | _ => .null

def asText : Json → Except String String
  | .string s => .ok s
  | .null => .ok ""
  | _ => .error "json: cannot unmarshal into Go value of type string"

def asList : Json → Except String (List Json)
  | .array items => .ok items
  | .null => .ok []
  | _ => .error "json: cannot unmarshal into Go value of type slice"

/-- a struct or a map -/
def asObject : Json → Except String Json
  | .object fields => .ok (.object fields)
  | .null => .ok .null
  | _ => .error "json: cannot unmarshal into Go value of type struct"

end Json

structure Body where
  text : String
  json : Option Json
  lines : List (Option Json)

inductive Reply where
  | unreachable (err : String)
  | http (status : ℕ) (statusText : String) (body : Body)

/-- the body of a request -/
inductive Payload where
  | none
  | env (env : List (String × String))
  | command (command : String)
  | value (value : Bool)
  | logStorage (enabled : Option Bool) (perContainerMB totalMB : Option ℤ)
  | dockerHosts (hosts : List (String × String))
  | coolifyHosts (hosts : List (String × String × String))
  | auth (enabled : Bool) (adminUsername : String) (newPassword : Option String)
  | token (name : String) (scope : Option String)
deriving DecidableEq, Repr

structure ApiCall where
  method : String
  path : String
  query : List (String × String)
  body : Payload
deriving DecidableEq, Repr

structure Response where
  outcome : Option Outcome
  reply : Reply

/-! ## The client -/

structure Client where
  baseURL : String
  token : String
deriving DecidableEq, Repr

/-- a command in progress -/
abbrev Command := Dialogue ApiCall Response String

def authHint : String := "authenticate with an API token created in LogDeck Settings, via --token or LOGDECK_TOKEN"

/-- what the server sees of a call -/
def newRequest (c : Client) (call : ApiCall) : Request where
  method := call.method
  path := "/api/v1" ++ call.path
  authorization := if c.token ≠ "" then "Bearer " ++ c.token else ""
  token := ""

/-- the error that a body names, its text, or the status -/
def responseError (status : ℕ) (statusText : String) (body : Body) : String :=
  let named :=
    match body.json with
    | some doc => match (doc.field "error").asText with | .ok s => s | .error _ => ""
    | none => ""
  let message := if named ≠ "" then named else if trimSpace body.text ≠ "" then trimSpace body.text else statusText
  if status = 401 then "HTTP 401: " ++ message ++ " (" ++ authHint ++ ")"
  else "HTTP " ++ toString status ++ ": " ++ message

/-- the body of an answer with a good status -/
def Client.read (c : Client) : Reply → Except String Body
  | .unreachable err => .error ("cannot reach LogDeck server at " ++ c.baseURL ++ ": " ++ err)
  | .http status statusText body =>
    if 200 ≤ status ∧ status < 300 then .ok body else .error (responseError status statusText body)

/-- `do` up to the decoding, and `stream` -/
def Client.send (c : Client) (call : ApiCall) : Command Body :=
  .ask call fun answer => Dialogue.ofExcept (c.read answer.reply)

/-- the document of a body -/
def Body.decode (body : Body) : Except String Json :=
  match body.json with
  | some doc => doc.asObject
  | none => .error "invalid character looking for beginning of value"

def Client.get (c : Client) (path : String) (query : List (String × String)) : Command Json := do
  let body ← c.send { method := "GET", path := path, query := query, body := .none }
  Dialogue.ofExcept body.decode

/-! ## Containers -/

structure ContainerInfo where
  id : String
  names : List String
  state : String
  host : String
deriving DecidableEq, Repr

def decodeContainer (doc : Json) : Except String ContainerInfo := do
  let doc ← doc.asObject
  let id ← (doc.field "id").asText
  let names ← (← (doc.field "names").asList).mapM Json.asText
  let state ← (doc.field "state").asText
  let host ← (doc.field "host").asText
  return { id := id, names := names, state := state, host := host }

/-- the containers of a listing -/
def decodeContainers (doc : Json) : Except String (List ContainerInfo) := do
  (← (doc.field "containers").asList).mapM decodeContainer

def trimPrefix (p s : String) : String := if hasPrefix s p then String.ofList (s.toList.drop p.length) else s

def shortID (id : String) : String := String.ofList ((trimPrefix "sha256:" id).toList.take 12)

def containerName (c : ContainerInfo) : String :=
  match c.names with
  | [] => shortID c.id
  | name :: _ => trimPrefix "/" name

def nameMatches (c : ContainerInfo) (query : String) : Bool := c.names.any fun name => trimPrefix "/" name = query

/-- those with the name, or when there are none those whose ID begins so -/
def candidates (containers : List ContainerInfo) (query host : String) : List ContainerInfo :=
  let onHost := containers.filter fun c => host = "" || c.host = host
  let named := onHost.filter fun c => nameMatches c query
  if named = [] then onHost.filter fun c => hasPrefix c.id query else named

def resolveContainer (containers : List ContainerInfo) (query host : String) : Except String ContainerInfo :=
  match candidates containers query host with
  | [c] => .ok c
  | [] =>
    if host ≠ "" then .error ("no container matches " ++ GoQuote.quote query ++ " on host " ++ GoQuote.quote host)
    else .error ("no container matches " ++ GoQuote.quote query)
  | cs =>
    .error (GoQuote.quote query ++ " is ambiguous, candidates:\n" ++
      "\n".intercalate (cs.map fun c =>
        "  " ++ containerName c ++ " (host " ++ c.host ++ ", id " ++ shortID c.id ++ ")") ++
      "\nuse --host to disambiguate")

def Client.fetchContainers (c : Client) : Command (List ContainerInfo) := do
  let doc ← c.get "/containers" []
  Dialogue.ofExcept (decodeContainers doc)

def Client.resolve (c : Client) (query host : String) : Command ContainerInfo := do
  let containers ← c.fetchContainers
  Dialogue.ofExcept (resolveContainer containers query host)

theorem mem_candidates {containers : List ContainerInfo} {query host : String} {c : ContainerInfo}
    (h : c ∈ candidates containers query host) :
    c ∈ containers ∧ (host = "" ∨ c.host = host) ∧ (nameMatches c query ∨ hasPrefix c.id query) := by
  simp only [candidates] at h
  split at h
  · obtain ⟨hon, hid⟩ := List.mem_filter.1 h
    obtain ⟨hmem, hhost⟩ := List.mem_filter.1 hon
    exact ⟨hmem, by simpa using hhost, .inr hid⟩
  · obtain ⟨hon, hname⟩ := List.mem_filter.1 h
    obtain ⟨hmem, hhost⟩ := List.mem_filter.1 hon
    exact ⟨hmem, by simpa using hhost, .inl hname⟩

/-- a container that is resolved is listed, on the host that was asked for, and the only one of its name there; one that
is meant by its ID is the only one with such an ID, and none has the name -/
theorem resolveContainer_ok {containers : List ContainerInfo} {query host : String} {c : ContainerInfo}
    (h : resolveContainer containers query host = .ok c) :
    c ∈ containers ∧ (host = "" ∨ c.host = host) ∧
      ∀ c' ∈ containers, (host = "" ∨ c'.host = host) → nameMatches c' query ∨ (nameMatches c query = false ∧
        hasPrefix c'.id query) → c' = c := by
  have hone : candidates containers query host = [c] := by
    unfold resolveContainer at h
    split at h
    · rename_i hc
      cases h
      exact hc
    · split at h <;> cases h
    · cases h
  have hc := mem_candidates (hone ▸ List.mem_singleton_self c)
  refine ⟨hc.1, hc.2.1, ?_⟩
  intro c' hmem hhost hmeant
  have hon : c' ∈ containers.filter fun c => host = "" || c.host = host :=
    List.mem_filter.2 ⟨hmem, by simpa using hhost⟩
  have hcandidate : c' ∈ candidates containers query host := by
    simp only [candidates] at hone ⊢
    split
    · rename_i hnone
      rw [if_pos hnone] at hone
      rcases hmeant with hname | ⟨-, hid⟩
      · have hnamed : c' ∈ ([] : List ContainerInfo) := hnone ▸ List.mem_filter.2 ⟨hon, hname⟩
        cases hnamed
      · exact List.mem_filter.2 ⟨hon, hid⟩
    · rename_i hsome
      rw [if_neg hsome] at hone
      rcases hmeant with hname | ⟨hnot, -⟩
      · exact List.mem_filter.2 ⟨hon, hname⟩
      · have hnamed := (List.mem_filter.1 (hone ▸ List.mem_singleton_self c)).2
        rw [hnot] at hnamed
        cases hnamed
  rw [hone] at hcandidate
  exact List.mem_singleton.1 hcandidate

/-! ## The server -/

/-- the token is stored with the scope, and auth is enabled -/
structure Scoped (token scope : String) (a : Access) : Prop where
  auth : a.auth.isSome
  stored : ∃ name stored, a.lookupAPIToken token = some (name, stored) ∧ NormalizeAPITokenScope stored = scope

/-- what became of a request explains its answer -/
structure Honest (mux : Mux) (c : Client) (scope : String) (call : ApiCall) (answer : Response) : Prop where
  dispatched : ∀ o, answer.outcome = some o → ∃ a, Scoped c.token scope a ∧ dispatch mux a (newRequest c call) = o
  lost : answer.outcome = none → ∃ err, answer.reply = .unreachable err
  refused : ∀ e, answer.outcome = some (.refused e) →
    (∃ err, answer.reply = .unreachable err) ∨ ∃ text body, answer.reply = .http e.status text body
  missing : answer.outcome = some .notFound →
    (∃ err, answer.reply = .unreachable err) ∨ ∃ text body, answer.reply = .http 404 text body
  /-- the engine's IDs -/
  listed : ∀ u status text body, answer.outcome = some (.reached .GetContainers u) →
    answer.reply = .http status text body → ∀ doc, body.decode = .ok doc →
      ∀ containers, decodeContainers doc = .ok containers → ∀ c ∈ containers, IsSegment c.id

/-- what a token of the scope may reach -/
def Grants (scope : String) (a : Access) (h : Handler) : Prop :=
  (scope = APITokenScopeRead → h.Readable) ∧ ((∃ p ∈ h.powers, p.blocked) → a.readOnly = false)

theorem read_ok {c : Client} {reply : Reply} {body : Body} (h : c.read reply = .ok body) :
    ∃ status text, reply = .http status text body ∧ status < 300 := by
  cases reply with
  | unreachable err => cases h
  | http status text body' =>
    by_cases hok : 200 ≤ status ∧ status < 300
    · simp only [Client.read, hok, and_self, if_true] at h
      cases h
      exact ⟨status, text, rfl, hok.2⟩
    · simp only [Client.read, hok, if_false] at h
      cases h

theorem splitSpace_bearer (token : String) : splitSpace ("Bearer " ++ token) = some ("Bearer", token) := by
  have hlist : ("Bearer " ++ token).toList = ['B', 'e', 'a', 'r', 'e', 'r', ' '] ++ token.toList := String.toList_append
  unfold splitSpace
  rw [hlist]
  simp

theorem identify_bearer {c : Client} (hldk : hasPrefix c.token APITokenPrefix) {scope : String} {a : Access}
    (ha : Scoped c.token scope a) (call : ApiCall) :
    ∃ name stored, identify a (newRequest c call) = .ok (.apiToken name stored) ∧
      NormalizeAPITokenScope stored = scope := by
  obtain ⟨verifyToken, hverify⟩ := Option.isSome_iff_exists.1 ha.auth
  obtain ⟨name, stored, hlookup, hscope⟩ := ha.stored
  have hne : c.token ≠ "" := by
    intro hempty
    rw [hempty] at hldk
    revert hldk
    decide
  have hauthorization : (newRequest c call).authorization = "Bearer " ++ c.token := if_pos hne
  have hnonempty : "Bearer " ++ c.token ≠ "" := by
    intro h
    have hlist := congrArg String.toList h
    simp at hlist
  have htoken : tokenString (newRequest c call) = .ok c.token := by
    unfold tokenString
    rw [hauthorization, if_pos hnonempty, splitSpace_bearer]
    simp
  refine ⟨name, stored, ?_, hscope⟩
  simp only [identify, hverify, htoken, hldk, if_true, hlookup]

/-- the router finds the handler for a call -/
def Routed (mux : Mux) (call : ApiCall) (h : Handler) : Prop :=
  ∃ route, mux.find call.method ("/api/v1" ++ call.path) = some route ∧ route.handler = h

section
variable {mux : Mux} {c : Client} {scope : String} {call : ApiCall} {h : Handler} {a : Access}

/-- a call is passed to its handler exactly when the scope grants it, and otherwise refused -/
theorem dispatch_call (hldk : hasPrefix c.token APITokenPrefix) (hrouted : Routed mux call h)
    (hpublic : h.isPublic = false) (ha : Scoped c.token scope a) :
    ((∃ u, dispatch mux a (newRequest c call) = .reached h u) ↔ Grants scope a h) ∧
      ((∃ u, dispatch mux a (newRequest c call) = .reached h u) ∨
        ∃ e, dispatch mux a (newRequest c call) = .refused e) := by
  obtain ⟨route, hfind, rfl⟩ := hrouted
  obtain ⟨hmem, hmethod⟩ := mux.registered hfind
  obtain ⟨name, stored, hidentify, hscope⟩ := identify_bearer hldk ha call
  have hdispatch : dispatch mux a (newRequest c call) = serve a route (newRequest c call) := by
    unfold dispatch
    have hfind' : mux.find (newRequest c call).method (newRequest c call).path = some route := hfind
    rw [hfind']
  rw [hdispatch]
  constructor
  · constructor
    · rintro ⟨u, hreached⟩
      obtain ⟨hwritable, caller, hcaller, hmay, -⟩ :=
        (serve_protected (table_sound route hmem) hpublic hmethod).1 hreached
      rw [hidentify] at hcaller
      cases hcaller
      exact ⟨fun hread => hmay (hscope.trans hread), hwritable⟩
    · rintro ⟨hread, hwritable⟩
      refine ⟨_, (serve_protected (table_sound route hmem) hpublic hmethod).2 ⟨hwritable, _, hidentify, ?_, rfl⟩⟩
      intro hstored
      exact hread (hscope.symm.trans hstored)
  · unfold serve
    cases Guards.chain (route.stack.map (Middleware.guard a)) { request := newRequest c call, user := none } with
    | error e => exact .inr ⟨e, rfl⟩
    | ok ctx => exact .inl ⟨ctx.user, rfl⟩

end

/-- a client with a token of the scope, which asks for the handlers only -/
def agreement (mux : Mux) (c : Client) (scope : String) (handlers : List Handler) :
    Dialogue.Contract ApiCall Response where
  may call := ∃ h ∈ handlers, h.isPublic = false ∧ Routed mux call h
  answers := Honest mux c scope

section
variable {mux : Mux} {c : Client} {scope : String} {handlers : List Handler} {α : Type}
  {post : Except String α → Prop}

/-- **A request.** What is sent to a handler fails, or comes back from it, and then the scope grants the handler. -/
theorem send_holds (hldk : hasPrefix c.token APITokenPrefix) {call : ApiCall} {h : Handler} (hmem : h ∈ handlers)
    (hpublic : h.isPublic = false) (hrouted : Routed mux call h) {next : Body → Command α}
    (hnext : (∃ a, Grants scope a h) → ∀ body,
      (h = .GetContainers → ∀ doc, body.decode = .ok doc →
        ∀ containers, decodeContainers doc = .ok containers → ∀ c ∈ containers, IsSegment c.id) →
      (next body).Holds (agreement mux c scope handlers) post)
    (herror : ∀ e, post (.error e)) :
    (c.send call >>= next).Holds (agreement mux c scope handlers) post := by
  apply Dialogue.holds_ask
  · exact ⟨h, hmem, hpublic, hrouted⟩
  · intro answer hanswer
    have hhonest : Honest mux c scope call answer := hanswer
    apply Dialogue.holds_ofExcept
    · intro body hbody
      obtain ⟨status, text, hreply, hstatus⟩ := read_ok hbody
      -- the answer is good, so that the request was not refused
      cases houtcome : answer.outcome with
      | none =>
        obtain ⟨err, hlost⟩ := hhonest.lost houtcome
        rw [hreply] at hlost
        cases hlost
      | some o =>
        obtain ⟨a, ha, rfl⟩ := hhonest.dispatched o houtcome
        obtain ⟨hgrants, ⟨u, hreached⟩ | ⟨e, hrefused⟩⟩ := dispatch_call hldk hrouted hpublic ha
        · apply hnext ⟨a, hgrants.1 ⟨u, hreached⟩⟩ body
          rintro rfl doc hdoc containers hcontainers
          exact hhonest.listed u status text body (hreached ▸ houtcome) hreply doc hdoc containers hcontainers
        · have hbad := refused_status hrefused
          rcases hhonest.refused e (hrefused ▸ houtcome) with ⟨err, hlost⟩ | ⟨text', body', hsame⟩
          · rw [hreply] at hlost
            cases hlost
          · rw [hreply] at hsame
            cases hsame
            omega
    · exact herror

theorem get_holds (hldk : hasPrefix c.token APITokenPrefix) {path : String} {query : List (String × String)}
    {h : Handler} (hmem : h ∈ handlers) (hpublic : h.isPublic = false) (hrouted : Routed mux ⟨"GET", path, query, .none⟩ h)
    {next : Json → Command α}
    (hnext : (∃ a, Grants scope a h) → ∀ doc,
      (h = .GetContainers → ∀ containers, decodeContainers doc = .ok containers → ∀ c ∈ containers, IsSegment c.id) →
      (next doc).Holds (agreement mux c scope handlers) post)
    (herror : ∀ e, post (.error e)) :
    (c.get path query >>= next).Holds (agreement mux c scope handlers) post := by
  unfold Client.get
  rw [Dialogue.bind_assoc]
  apply send_holds hldk hmem hpublic hrouted
  · intro hgrants body hlisted
    apply Dialogue.holds_ofExcept
    · intro doc hdoc
      exact hnext hgrants doc fun hh containers hcontainers => hlisted hh doc hdoc containers hcontainers
    · exact herror
  · exact herror

end

end LogDeck.Cli
