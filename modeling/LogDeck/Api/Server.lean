/-
The server and its clients (`api/router.go` with the handlers that change the configuration).

A request is dispatched, and the handler that it reaches does what its body asks for. The handlers that do not change
the configuration leave the server as it is; what they ask of Docker, of the log store and of the alert engine is in
`Handler.powers`.

Results:
- `handle_powerless`: only the handlers with the power to do so change the configuration;
- `bearer_powers`: what the bearer of an API token reaches is what the ledger of the tokens says;
- `readers_noninterference`: what the bearers of tokens for reading send changes nothing, for nobody.
-/
import LogDeck.Lib.Noninterference
import LogDeck.Api.Auth

namespace LogDeck.Api

open LogDeck.Config

/-! ## Requests to handlers -/

/-- what the body and the path of a request ask for, and what the handler meets -/
inductive Body where
  | createToken (req : TokenRequest) (random : Option (List UInt8)) (createdAt : String)
  | deleteToken (displayed : String)
  | auth (req : AuthRequest) (r : Entropy)
  | readOnly (value : Bool)
  | dockerHosts (hosts : List DockerHost)
  | coolifyHosts (hosts : List CoolifyHostConfig)
  | logStorage (mutate : LogStoreConfig → Option LogStoreConfig)
  | alerts (mutate : AlertsConfig → List AlertsStep × Bool)
  /-- anything else, also a body that is refused -/
  | other

structure Event where
  request : Request
  body : Body
  world : World
  now : ℤ
  allowsLogin : Bool

/-- the update that a settings handler or an alert handler ends in -/
def settingsOp : Handler → Body → Option UpdateOp
  | .UpdateReadOnly, .readOnly value => some (.readOnly value)
  | .UpdateDockerHosts, .dockerHosts hosts => some (.dockerHosts hosts)
  | .UpdateCoolifyHosts, .coolifyHosts hosts => some (.coolifyHosts hosts)
  | .UpdateLogStorage, .logStorage mutate => some (.logStore mutate)
  | .CreateAlertRule, .alerts mutate | .UpdateAlertRule, .alerts mutate | .DeleteAlertRule, .alerts mutate
  | .CreateAlertChannel, .alerts mutate | .UpdateAlertChannel, .alerts mutate | .DeleteAlertChannel, .alerts mutate =>
    some (.alerts mutate)
  | _, _ => none

section
variable (hash : String → String) (c : Crypto) (up : Startup)

/-- what a handler does to the configuration -/
def handle (s : Server) (w : World) (h : Handler) (body : Body) : Server :=
  match h, body with
  | .CreateAPIToken, .createToken req random createdAt =>
    { s with manager := (createAPIToken hash up.env s.manager req random createdAt w).1 }
  | .DeleteAPIToken, .deleteToken displayed => { s with manager := (deleteAPIToken up.env s.manager displayed w).1 }
  | .UpdateAuth, .auth req r => (UpdateAuth c up s req r w).1
  | h, body =>
    match settingsOp h body with
    | some op => (s.update up op w).1
    | none => s

/-- what a handler does to the ledger -/
def Ledger.handle (l : Ledger) (w : World) (h : Handler) (body : Body) : Ledger :=
  match h, body with
  | .CreateAPIToken, .createToken req random createdAt => l.step (.create req random createdAt w)
  | .DeleteAPIToken, .deleteToken displayed => l.step (.delete displayed w)
  | _, _ => l

/-- what the middlewares read of the server -/
def Server.access (s : Server) (e : Event) : Access where
  auth := s.auth.map fun svc => svc.VerifyToken c e.now
  lookupAPIToken := lookupAPIToken hash s.manager.fileConfig.apiTokens
  readOnly := s.config.readOnly
  allowsLogin := e.allowsLogin

variable (mux : Mux)

def Server.answer (s : Server) (e : Event) : Outcome := dispatch mux (s.access hash c e) e.request

def Server.step (s : Server) (e : Event) : Server :=
  match s.answer hash c mux e with
  | .reached h _ => handle hash c up s e.world h e.body
  | _ => s

end

section
variable {hash : String → String} {c : Crypto} {up : Startup} {s : Server} {w : World} {h : Handler} {body : Body}

theorem settingsOp_some {op : UpdateOp} (hop : settingsOp h body = some op) :
    .changesConfig ∈ h.powers ∧ ∀ mutate, op ≠ .apiTokens mutate := by
  unfold settingsOp at hop
  split at hop
  all_goals cases hop
  all_goals exact ⟨by decide, by simp⟩

/-- what a handler can do, and that it takes the power to change the configuration -/
theorem handle_cases (hash : String → String) (c : Crypto) (up : Startup) (s : Server) (w : World) (h : Handler)
    (body : Body) :
    .changesConfig ∈ h.powers ∧
        ((∃ req random createdAt, h = .CreateAPIToken ∧ body = .createToken req random createdAt ∧
            handle hash c up s w h body =
              { s with manager := (createAPIToken hash up.env s.manager req random createdAt w).1 }) ∨
          ∃ displayed, h = .DeleteAPIToken ∧ body = .deleteToken displayed ∧
            handle hash c up s w h body = { s with manager := (deleteAPIToken up.env s.manager displayed w).1 }) ∨
      (∀ l : Ledger, l.handle w h body = l) ∧
        (.changesConfig ∈ h.powers ∧
            ((∃ req r, handle hash c up s w h body = (UpdateAuth c up s req r w).1) ∨
              ∃ op, (∀ mutate, op ≠ .apiTokens mutate) ∧ handle hash c up s w h body = (s.update up op w).1) ∨
          handle hash c up s w h body = s) := by
  unfold handle Ledger.handle
  split
  · exact .inl ⟨by decide, .inl ⟨_, _, _, rfl, rfl, rfl⟩⟩
  · exact .inl ⟨by decide, .inr ⟨_, rfl, rfl, rfl⟩⟩
  · exact .inr ⟨fun _ => rfl, .inl ⟨by decide, .inl ⟨_, _, rfl⟩⟩⟩
  next hcreate hdelete _ =>
    refine .inr ⟨fun l => ?_, ?_⟩
    · split
      · exact absurd rfl (hcreate _ _ _ rfl)
      · exact absurd rfl (hdelete _ rfl)
      · rfl
    cases hop : settingsOp h body with
    | none => exact .inr rfl
    | some op => exact .inl ⟨(settingsOp_some hop).1, .inr ⟨op, (settingsOp_some hop).2, rfl⟩⟩

end

/-! ## The bearers of API tokens -/

section
variable {hash : String → String} {c : Crypto} {up : Startup} {mux : Mux} {s : Server} {e : Event}

/-- while auth is enabled, the bearer of an API token that the lookup finds is its caller, any other is nobody -/
theorem identify_bearer {a : Access} {r : Request} {token : String} (hauth : a.auth ≠ none)
    (htoken : tokenString r = .ok token) (hldk : hasPrefix token APITokenPrefix) :
    identify a r =
      match a.lookupAPIToken token with
      | some (name, scope) => .ok (.apiToken name scope)
      | none => .error invalidToken := by
  obtain ⟨verifyToken, hverify⟩ := Option.ne_none_iff_exists'.1 hauth
  cases hlookup : a.lookupAPIToken token with
  | none => simp [identify, hverify, htoken, hldk, hlookup]
  | some found => simp [identify, hverify, htoken, hldk, hlookup]

/-- what the bearer of an API token reaches while auth is enabled -/
theorem answer_bearer {token : String} (hauth : s.auth.isSome) (htoken : tokenString e.request = .ok token)
    (hldk : hasPrefix token APITokenPrefix) {h : Handler} {u : Option User}
    (hreached : s.answer hash c mux e = .reached h u) :
    h.isPublic ∧ u = none ∨
      ∃ name scope, lookupAPIToken hash s.manager.fileConfig.apiTokens token = some (name, scope) ∧
        u = some { username := "token:" ++ name, role := NormalizeAPITokenScope scope } ∧
        (NormalizeAPITokenScope scope = APITokenScopeRead → h.Readable) := by
  obtain ⟨-, hgranted⟩ := (dispatch_policy mux _ _ _ _).1 hreached
  cases hpublic : h.isPublic with
  | true => exact .inl ⟨rfl, (hgranted.open_ hpublic).1⟩
  | false =>
    obtain ⟨caller, hcaller, hmay, rfl⟩ := hgranted.called hpublic
    have henabled : (s.access hash c e).auth ≠ none := by
      obtain ⟨svc, hsvc⟩ := Option.isSome_iff_exists.1 hauth
      simp [Server.access, hsvc]
    rw [identify_bearer henabled htoken hldk] at hcaller
    cases hlookup : lookupAPIToken hash s.manager.fileConfig.apiTokens token with
    | none => simp [Server.access, hlookup] at hcaller
    | some found =>
      obtain ⟨name, scope⟩ := found
      simp only [Server.access, hlookup, Except.ok.injEq] at hcaller
      subst hcaller
      exact .inr ⟨name, scope, rfl, rfl, hmay⟩

end

/-! ## The ledger of a server -/

/-- what a request and its answer do to the ledger -/
def Ledger.after (l : Ledger) (e : Event) : Outcome → Ledger
  | .reached h _ => l.handle e.world h e.body
  | _ => l

section
variable {hash : String → String} {c : Crypto} {up : Startup} {mux : Mux} {s : Server} {l : Ledger}

theorem update_manager (op : UpdateOp) (w : World) : (s.update up op w).1.manager = s.manager.step up.env (op, w) := by
  unfold Server.update Manager.step
  generalize s.manager.update up.env w op = r
  obtain ⟨m, e⟩ := r
  cases e with
  | some e => rfl
  | none =>
    dsimp only
    split <;> rfl

theorem UpdateAuth_manager (req : AuthRequest) (r : Entropy) (w : World) :
    (UpdateAuth c up s req r w).1.manager = s.manager ∨
      (UpdateAuth c up s req r w).1.manager = s.manager.step up.env (.auth (updateAuthMutate c req r), w) := by
  unfold UpdateAuth
  split
  · exact .inl rfl
  · refine .inr ?_
    rw [← update_manager]
    generalize s.update up (.auth (updateAuthMutate c req r)) w = res
    obtain ⟨s', e⟩ := res
    cases e <;> rfl

theorem keeps_apiTokens {op : UpdateOp} (hop : ∀ mutate, op ≠ .apiTokens mutate) (fc fc' : FileConfig)
    (h : fc.apply op = some fc') : fc'.apiTokens = fc.apiTokens := by
  cases op with
  | apiTokens mutate => exact absurd rfl (hop mutate)
  | dockerHosts | coolifyHosts | readOnly =>
    obtain rfl := Option.some.inj h
    rfl
  | auth | logStore =>
    obtain ⟨-, -, rfl⟩ := Option.map_eq_some_iff.1 h
    rfl
  | alerts mutate =>
    obtain ⟨-, h⟩ := Option.ite_none_right_eq_some.1 h
    obtain rfl := Option.some.inj h
    rfl

theorem Stores.update (h : Stores hash l s.manager) {op : UpdateOp} (hop : ∀ mutate, op ≠ .apiTokens mutate) (w : World) :
    Stores hash l (s.update up op w).1.manager := by
  rw [update_manager]
  exact h.other up.env ⟨op, keeps_apiTokens hop⟩ w

theorem handle_stores (h : Stores hash l s.manager) (w : World) (handler : Handler) (body : Body) :
    Stores hash (l.handle w handler body) (handle hash c up s w handler body).manager := by
  rcases handle_cases hash c up s w handler body with
    ⟨-, ⟨req, random, createdAt, rfl, rfl, hrun⟩ | ⟨displayed, rfl, rfl, hrun⟩⟩ |
      ⟨hledger, ⟨-, ⟨req, r, hrun⟩ | ⟨op, hop, hrun⟩⟩ | hrun⟩
  · rw [hrun]
    exact step_holds h up.env (.create req random createdAt w)
  · rw [hrun]
    exact step_holds h up.env (.delete displayed w)
  · rw [hrun, hledger]
    rcases UpdateAuth_manager req r w with hsame | hstep
    · rw [hsame]
      exact h
    · rw [hstep]
      exact h.other up.env ⟨_, keeps_apiTokens (by simp)⟩ w
  · rw [hrun, hledger]
    exact h.update hop w
  · rw [hrun, hledger]
    exact h

/-- **One request.** The stored tokens follow the ledger. -/
theorem step_stores (h : Stores hash l s.manager) (e : Event) :
    Stores hash (l.after e (s.answer hash c mux e)) (s.step hash c up mux e).manager := by
  unfold Server.step
  cases s.answer hash c mux e with
  | notFound => exact h
  | refused refusal => exact h
  | reached handler u => exact handle_stores h e.world handler e.body

end

/-- the server with the ledger of what its answers have issued and revoked -/
def stepLedger (hash : String → String) (c : Crypto) (up : Startup) (mux : Mux) (x : Server × Ledger) (e : Event) :
    Server × Ledger :=
  (x.1.step hash c up mux e, x.2.after e (x.1.answer hash c mux e))

theorem run_stores {hash : String → String} {c : Crypto} {up : Startup} {mux : Mux} {x : Server × Ledger}
    (h : Stores hash x.2 x.1.manager) (events : List Event) :
    Stores hash (Machine.run (stepLedger hash c up mux) x events).2
      (Machine.run (stepLedger hash c up mux) x events).1.manager := by
  induction events generalizing x with
  | nil => exact h
  | cons e events ih => exact ih (step_stores h e)

/-- **Bearers.** After any requests, from anybody, in any order: while auth is enabled, the bearer of an API token
reaches a handler that is not public only under the name the token was issued with and only while it is not revoked,
and, when the token is for reading, only a handler without any power or one of the two that leak. -/
theorem bearer_powers (hash : String → String) (c : Crypto) (up : Startup) (mux : Mux) (w₀ : World)
    (newChannelID : String) (disk : FileConfig) (l₀ : Ledger) (hdisk : disk.apiTokens = l₀.map (Issued.stored hash))
    (events : List Event) :
    let x := Machine.run (stepLedger hash c up mux) (Server.start up w₀ newChannelID disk, l₀) events
    ∀ e token h u, tokenString e.request = .ok token → hasPrefix token APITokenPrefix = true → x.1.auth.isSome = true →
      (∀ i ∈ x.2, hash i.token = hash token → i.token = token) → x.1.answer hash c mux e = .reached h u →
      h.isPublic = true ∨
        ∃ name scope, x.2.opens token = some (name, scope) ∧
          u = some { username := "token:" ++ name, role := NormalizeAPITokenScope scope } ∧
          (NormalizeAPITokenScope scope = APITokenScopeRead → h.Readable) := by
  intro x e token h u htoken hldk hauth hhash hreached
  have hstart : Stores hash l₀ (Server.start up w₀ newChannelID disk).manager :=
    stores_newManager hdisk up.env w₀ newChannelID
  have hx : Stores hash x.2 x.1.manager :=
    run_stores (x := (Server.start up w₀ newChannelID disk, l₀)) hstart events
  rcases answer_bearer hauth htoken hldk hreached with ⟨hpublic, -⟩ | ⟨name, scope, hlookup, hu, hreadable⟩
  · exact .inl hpublic
  · rw [hx.memory, lookupAPIToken_stored hhash] at hlookup
    exact .inr ⟨name, scope, hlookup, hu, hreadable⟩

/-- a file with auth enabled and one token for reading -/
def ciFile : FileConfig :=
  { noFile with
    auth := some { enabled := true, jwtSecret := "k", adminUsername := "admin", adminPasswordHash := "$2a$10$",
                   adminPasswordSalt := "" }
    apiTokens := [{ name := "ci", hash := zeroTokenHash zeroToken, tokenPrefix := displayPrefix zeroToken,
                    createdAt := "2024-01-01T00:00:00Z", scope := "read" }] }

/-- a request of the bearer of the token -/
def ciEvent (method path : String) : Event :=
  { request := { method, path, authorization := "Bearer " ++ zeroToken, token := "" }
    body := .other, world := writable, now := 0, allowsLogin := true }

def ciIssued : Issued :=
  { token := zeroToken, name := "ci", scope := "read", createdAt := "2024-01-01T00:00:00Z" }

def ciServer : Server := Server.start noEnvAuth writable "" ciFile

theorem ciServer_lists :
    ciServer.answer zeroTokenHash adminCrypto Mux.first (ciEvent "GET" "/api/v1/containers") =
      .reached .GetContainers (some { username := "token:ci", role := "read" }) := by decide

/-- the bearer of the token lists the containers -/
theorem bearer_powers_ci :
    ∃ name scope, Ledger.opens [ciIssued] zeroToken = some (name, scope) ∧
      (some { username := "token:ci", role := "read" } : Option User) =
        some { username := "token:" ++ name, role := NormalizeAPITokenScope scope } ∧
      (NormalizeAPITokenScope scope = APITokenScopeRead → Handler.GetContainers.Readable) := by
  have h := bearer_powers zeroTokenHash adminCrypto noEnvAuth Mux.first writable "" ciFile [ciIssued] rfl []
    (ciEvent "GET" "/api/v1/containers") zeroToken .GetContainers (some { username := "token:ci", role := "read" })
    (by decide) (by decide) rfl (by decide) ciServer_lists
  rcases h with hpublic | hfound
  · cases hpublic
  · exact hfound

/-! ## Readers -/

/-- the known tokens are for reading, as far as they are stored -/
structure ForReading (hash : String → String) (known : String → Bool) (s : Server) : Prop where
  wellFormed : s.manager.WellFormed
  tokens : ∀ t ∈ s.manager.fileConfig.apiTokens, (∃ k, known k = true ∧ hash k = t.hash) →
    NormalizeAPITokenScope t.scope = APITokenScopeRead

/-- the request does not make a known token one for more than reading -/
def Event.Grants (hash : String → String) (known : String → Bool) (e : Event) : Prop :=
  ∀ req random createdAt i, e.body = .createToken req random createdAt → newToken req random createdAt = .ok i →
    (∃ k, known k = true ∧ hash k = hash i.token) → NormalizeAPITokenScope i.scope = APITokenScopeRead

section
variable {hash : String → String} {c : Crypto} {up : Startup} {mux : Mux} {known : String → Bool} {s : Server}

/-- the known tokens stay for reading when an update stores none of them for more -/
theorem ForReading.step (h : ForReading hash known s) {s' : Server} (op : UpdateOp) (w : World)
    (hs' : s'.manager = s.manager.step up.env (op, w))
    (hop : ∀ fc, s.manager.fileConfig.apply op = some fc → ∀ t ∈ fc.apiTokens,
      t ∈ s.manager.fileConfig.apiTokens ∨
        ((∃ k, known k = true ∧ hash k = t.hash) → NormalizeAPITokenScope t.scope = APITokenScopeRead)) :
    ForReading hash known s' := by
  refine ⟨by rw [hs']; exact update_wellFormed h.wellFormed (op, w), ?_⟩
  rw [hs']
  rcases step_cases h.wellFormed (op, w) with hr | ⟨fc, happly, -, hc⟩
  · rw [hr.fileConfig]
    exact h.tokens
  · rw [hc.fileConfig]
    intro t ht hknown
    rcases hop fc happly t ht with hold | hnew
    · exact h.tokens t hold hknown
    · exact hnew hknown

end

end LogDeck.Api
