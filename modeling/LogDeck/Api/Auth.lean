/-
Logging in (`auth/service.go`, `api/settings_handlers.go`: `UpdateAuth`, `api/router.go`: `handleLogin`,
`services/registry.go`, the callback of `cmd/server/main.go`).

The auth service in the registry is made anew from the configuration file whenever the merged configuration changes; an
auth service that comes from the environment stays. `Account` is what this is for: whether a login is asked for, the
user and the password. It follows the requests that were answered with success.

The callback of the manager runs before the next update. The libraries for passwords and sessions are parameters:
`bcryptHash` makes a hash with a salt or fails, `sign` and `parse` make and read the token of a session.

Results:
- `updateAuthMutate_stored`: what a request for other auth settings stores;
- `update_inv`: the service in the registry is the one that the file describes;
- `step_follows`: the account follows the requests that succeed;
- `login_account`: a login succeeds exactly for the user and the password of the account while it is enabled, and the
  settings say so;
- `session_survives`: a session is valid for its seven days, whatever the settings become, while auth is enabled.
-/
import LogDeck.Api.Tokens

namespace LogDeck.Api

open LogDeck.Config GoSlice

/-! ## Service -/

def second : ℤ := 1000000000

/-- `jwt.NewNumericDate`: whole seconds -/
def numericDate (t : ℤ) : ℤ := t - t % second

/-- what a session token says; times in nanoseconds -/
structure SessionClaims where
  claims : Claims
  expiresAt : ℤ
  issuedAt : ℤ
  notBefore : ℤ
  issuer : String
  subject : String
deriving DecidableEq, Repr

/-- the libraries -/
structure Crypto where
  sha256 : String → String
  bcryptHash : (salt : ℕ) → (password : String) → Option String
  bcryptCompare : (hash password : String) → Bool
  sign : (secret : String) → SessionClaims → String
  parse : (secret : String) → (now : ℤ) → (token : String) → Except TokenError Claims

structure Service where
  jwtSecret : String
  adminUsername : String
  adminPasswordHash : String
  sha256Salt : String
deriving DecidableEq, Repr

/-- under the secret k the library reads what it signed: the claims until they expire, and then that they have -/
def Crypto.Reads (c : Crypto) (k : String) (sc : SessionClaims) : Prop :=
  ∀ now, sc.notBefore ≤ now →
    c.parse k now (c.sign k sc) = if now < sc.expiresAt then .ok sc.claims else .error .tokenExpired

/-- seven days -/
def tokenExpiration : ℤ := 7 * 24 * 3600 * second

def isBcryptHash (hash : String) : Bool := hasPrefix hash "$2a$" || hasPrefix hash "$2b$" || hasPrefix hash "$2y$"

def NewServiceFromFileConfig (cfg : FileAuthConfig) : Option Service :=
  if cfg.enabled = false then none
  else if cfg.jwtSecret = "" ∨ cfg.adminUsername = "" ∨ cfg.adminPasswordHash = "" then none
  else
    some { jwtSecret := cfg.jwtSecret, adminUsername := cfg.adminUsername,
           adminPasswordHash := cfg.adminPasswordHash, sha256Salt := cfg.adminPasswordSalt }

/-- what the token of a login says -/
def sessionClaims (now : ℤ) (username : String) : SessionClaims :=
  { claims := { username := username, role := "admin" }
    expiresAt := numericDate (now + tokenExpiration)
    issuedAt := numericDate now
    notBefore := numericDate now
    issuer := "logdeck"
    subject := username }

namespace Service

variable (c : Crypto) (svc : Service)

def ValidateCredentials (username password : String) : Bool :=
  let passwordMatch :=
    if isBcryptHash svc.adminPasswordHash then c.bcryptCompare svc.adminPasswordHash password
    else c.sha256 (password ++ svc.sha256Salt) = svc.adminPasswordHash
  username = svc.adminUsername && passwordMatch

def GenerateToken (now : ℤ) (username : String) : String := c.sign svc.jwtSecret (sessionClaims now username)

def VerifyToken (now : ℤ) (token : String) : Except TokenError Claims := c.parse svc.jwtSecret now token

end Service

/-! ## The registry -/

structure Server where
  manager : Manager
  /-- `registry.Auth()` -/
  auth : Option Service
  /-- `registry.Config()` -/
  config : Config

/-- what the process is started with -/
structure Startup where
  env : Env
  /-- `NewService`, which is not nil exactly when the environment says something about auth -/
  envAuth : Option Service
  fromEnv : envAuth.isSome = env.snapshot.authSet

namespace Server

variable (up : Startup)

def start (w : World) (newChannelID : String) (disk : FileConfig) : Server :=
  let manager := newManager up.env w newChannelID disk
  { manager
    auth :=
      match up.envAuth with
      | some svc => some svc
      | none => manager.fileConfig.auth.bind fun cfg => if cfg.enabled then NewServiceFromFileConfig cfg else none
    config := manager.merged }

/-- the callback of the manager -/
def onChange (s : Server) : Server :=
  { s with
    config := s.manager.merged
    auth :=
      if s.manager.sources.auth = .file then
        match s.manager.fileConfig.auth with
        | some cfg => NewServiceFromFileConfig cfg
        | none => s.auth
      else s.auth }

/-- an Update operation, and the callback when it is one that merges -/
def update (s : Server) (op : UpdateOp) (w : World) : Server × Option UpdateError :=
  match s.manager.update up.env w op with
  | (m, none) => (if op.remerges then onChange { s with manager := m } else { s with manager := m }, none)
  | (m, some e) => ({ s with manager := m }, some e)

/-- `handleAuthConfig` -/
def authEnabled (s : Server) : Bool := s.auth.isSome

/-- whether auth is enabled, as `GetSettings` has it -/
def settingsEnabled (s : Server) : Bool :=
  if s.manager.sources.auth = .env then s.auth.isSome
  else
    match s.manager.fileConfig.auth with
    | some cfg => cfg.enabled
    | none => false

/-- `handleLogin` once the body is read -/
def login (c : Crypto) (s : Server) (now : ℤ) (username password : String) : Except (ℕ × String) String :=
  match s.auth with
  | none => .error (404, "Authentication is not enabled")
  | some svc =>
    if username = "" ∨ password = "" then .error (400, "Username and password are required")
    else if svc.ValidateCredentials c username password = false then .error (401, "Invalid username or password")
    else .ok (svc.GenerateToken c now username)

end Server

/-! ## Auth settings -/

structure AuthRequest where
  enabled : Bool
  adminUsername : String
  newPassword : String
deriving DecidableEq, Repr

/-- what the request meets: 32 random bytes for a secret, unless none can be read, and a salt -/
structure Entropy where
  secret : Option (Vector UInt8 32)
  salt : ℕ
deriving DecidableEq, Repr

def hexDigit (n : ℕ) : Char := "0123456789abcdef".toList.getD n '0'

/-- `hex.EncodeToString` -/
def hexEncode (bs : List UInt8) : String := String.ofList (bs.flatMap fun b => [hexDigit (b.toNat / 16), hexDigit (b.toNat % 16)])

/-- `GenerateRandomHex(32)` -/
def Entropy.GenerateRandomHex (r : Entropy) : Option String := r.secret.map fun bs => hexEncode bs.toList

/-- the mutate function of `UpdateAuth`: the values it writes one after the other, and how it returns -/
def updateAuthMutate (c : Crypto) (req : AuthRequest) (r : Entropy) (authCfg : FileAuthConfig) :
    List FileAuthConfig × AuthReturn :=
  if req.enabled then
    let named := { authCfg with enabled := true, adminUsername := req.adminUsername }
    match if authCfg.jwtSecret = "" then r.GenerateRandomHex else some authCfg.jwtSecret with
    | none => ([named], .fail)
    | some jwtSecret =>
      let signed := { named with jwtSecret := jwtSecret }
      if req.newPassword = "" then
        if authCfg.adminPasswordHash = "" then ([signed], .fail) else ([signed], .current)
      else
        match c.bcryptHash r.salt req.newPassword with
        | none => ([signed], .fail)
        | some hash =>
          let hashed := { signed with adminPasswordHash := hash, adminPasswordSalt := "" }
          if hash = "" then ([hashed], .fail) else ([hashed], .current)
  else ([{ authCfg with enabled := false }], .current)

/-- `UpdateAuth`; true when it is answered with success -/
def UpdateAuth (c : Crypto) (up : Startup) (s : Server) (req : AuthRequest) (r : Entropy) (w : World) : Server × Bool :=
  if req.enabled ∧ req.adminUsername = "" then (s, false)
  else
    match s.update up (.auth (updateAuthMutate c req r)) w with
    | (s', none) => (s', true)
    | (s', some _) => (s', false)

/-! ## The registry follows the file -/

section
variable {c : Crypto} {up : Startup} {s : Server}

/-- the auth service that the environment or the file describes -/
def Startup.service (up : Startup) (auth : Option FileAuthConfig) : Option Service :=
  match up.envAuth with
  | some svc => some svc
  | none => auth.bind NewServiceFromFileConfig

structure Server.Inv (up : Startup) (s : Server) : Prop where
  wellFormed : s.manager.WellFormed
  disk : s.manager.disk.auth = s.manager.fileConfig.auth
  sources : s.manager.sources.auth =
    if up.env.snapshot.authSet then .env else if s.manager.fileConfig.auth.isSome then .file else .default
  config : s.config = s.manager.merged
  auth : s.auth = up.service s.manager.fileConfig.auth

theorem NewServiceFromFileConfig_enabled (cfg : FileAuthConfig) :
    (if cfg.enabled then NewServiceFromFileConfig cfg else none) = NewServiceFromFileConfig cfg := by
  cases h : cfg.enabled <;> simp [NewServiceFromFileConfig, h]

theorem migrated_auth (newChannelID : String) (disk : FileConfig) :
    ((migrated newChannelID disk).getD disk).auth = disk.auth := by
  unfold migrated
  cases disk.alerts.bind (migrateAlertChannels newChannelID) <;> rfl

theorem start_inv (up : Startup) (w : World) (newChannelID : String) (disk : FileConfig) :
    Server.Inv up (Server.start up w newChannelID disk) where
  wellFormed := newManager_wellFormed ..
  disk := by
    show (if w.persists then (migrated newChannelID disk).getD disk else disk).auth = _
    rw [show (Server.start up w newChannelID disk).manager = newManager up.env w newChannelID disk from rfl,
      newManager_fileConfig, migrated_auth]
    split
    · exact migrated_auth newChannelID disk
    · rfl
  sources := by
    rw [show (Server.start up w newChannelID disk).manager = newManager up.env w newChannelID disk from rfl,
      newManager_fileConfig]
    rfl
  config := rfl
  auth := by
    unfold Server.start Startup.service
    cases up.envAuth with
    | some svc => rfl
    | none =>
      simp only [NewServiceFromFileConfig_enabled]

/-- an update that leaves the auth section, or stores one -/
def Storing (fc : FileConfig) (op : UpdateOp) : Prop :=
  ∀ fc', fc.apply op = some fc' → fc'.auth = fc.auth ∨ fc'.auth.isSome

/-- the callback makes of the registry what the file and the environment describe -/
theorem onChange_auth {m : Manager} (hi : Server.Inv up s)
    (hsources : m.sources.auth =
      if up.env.snapshot.authSet then .env else if m.fileConfig.auth.isSome then .file else .default)
    (hstored : m.fileConfig.auth = s.manager.fileConfig.auth ∨ m.fileConfig.auth.isSome) :
    (Server.onChange { s with manager := m }).auth = up.service m.fileConfig.auth := by
  have hauth := hi.auth
  have hset := up.fromEnv
  unfold Server.onChange
  unfold Startup.service at hauth ⊢
  cases henv : up.envAuth with
  | some svc =>
    simp only [henv, Option.isSome_some] at hauth hset
    simp [hsources, ← hset, hauth]
  | none =>
    simp only [henv, Option.isSome_none] at hauth hset
    cases hfile : m.fileConfig.auth with
    | some cfg => simp [hsources, ← hset, hfile]
    | none =>
      have hsame : s.manager.fileConfig.auth = none := by
        rcases hstored with h | h
        · rw [← h, hfile]
        · simp [hfile] at h
      simp [hsources, ← hset, hfile, hauth, hsame]

/-- **Updates.** An update keeps the invariant, and changes the file configuration exactly when it succeeds. -/
theorem update_inv (hi : Server.Inv up s) {op : UpdateOp} (hop : Storing s.manager.fileConfig op) (w : World) :
    Server.Inv up (s.update up op w).1 ∧
      ((s.update up op w).2 = none → op.pinned up.env = none ∧
        s.manager.fileConfig.apply op = some (s.update up op w).1.manager.fileConfig) ∧
      ((s.update up op w).2 ≠ none → (s.update up op w).1.manager.fileConfig = s.manager.fileConfig) := by
  have hwf : (s.manager.update up.env w op).1.WellFormed := update_wellFormed hi.wellFormed (op, w)
  have hcases := update_cases up.env hi.wellFormed op w
  unfold Server.update
  generalize s.manager.update up.env w op = r at hwf hcases ⊢
  obtain ⟨m, e⟩ := r
  rcases hcases with ⟨e', he, hr⟩ | ⟨hok, fc, happly, hpin, hc⟩
  · obtain rfl : e = some e' := he
    refine ⟨⟨hwf, ?_, ?_, ?_, ?_⟩, by simp, fun _ => hr.fileConfig⟩
    · rw [hr.disk, hr.fileConfig, hi.disk]
    · rw [hr.sources, hr.fileConfig, hi.sources]
    · rw [hr.merged, hi.config]
    · rw [hr.fileConfig, hi.auth]
  · obtain rfl : e = none := hok
    have hfile : m.fileConfig = fc := hc.fileConfig
    have hdisk : m.disk.auth = m.fileConfig.auth := by rw [hc.disk, hfile]
    cases hremerges : op.remerges with
    | true =>
      have hsources : m.sources.auth =
          if up.env.snapshot.authSet then .env else if m.fileConfig.auth.isSome then .file else .default := by
        rw [hc.sources, hremerges, if_pos rfl, hfile]
        rfl
      have hstored := hop fc happly
      rw [← hfile] at hstored
      refine ⟨⟨hwf, hdisk, hsources, rfl, onChange_auth hi hsources hstored⟩, fun _ => ⟨hpin, ?_⟩, by simp⟩
      rw [happly, ← hfile]
      rfl
    | false =>
      have hsame : m.fileConfig.auth = s.manager.fileConfig.auth := by
        rw [hfile]
        rcases apply_cases happly with ⟨_, rfl, -⟩ | ⟨_, rfl, -⟩ | ⟨_, rfl, -⟩ | ⟨_, _, rfl, -⟩ | ⟨-, _, _, _, rfl⟩
        · cases hremerges
        · cases hremerges
        · cases hremerges
        · cases hremerges
        · rfl
      have hmsources : m.sources = s.manager.sources := by
        have h := hc.sources
        rw [hremerges] at h
        exact h
      have hmerged : m.merged = s.manager.merged := by
        have h := hc.merged
        rw [hremerges] at h
        exact h
      have hsources : m.sources.auth =
          if up.env.snapshot.authSet then .env else if m.fileConfig.auth.isSome then .file else .default := by
        rw [hmsources, hsame, hi.sources]
      have hauth : s.auth = up.service m.fileConfig.auth := by rw [hsame, hi.auth]
      refine ⟨⟨hwf, hdisk, hsources, hi.config.trans hmerged.symm, hauth⟩, fun _ => ⟨hpin, ?_⟩, by simp⟩
      rw [happly, ← hfile]
      rfl

end

/-! ## The account -/

/-- what the auth settings are for -/
structure Account where
  enabled : Bool
  username : String
  /-- none before one was set -/
  password : Option String
deriving DecidableEq, Repr

/-- a request that was answered with success -/
def Account.update (a : Account) (req : AuthRequest) : Account :=
  if req.enabled then
    { enabled := true
      username := req.adminUsername
      password := if req.newPassword = "" then a.password else some req.newPassword }
  else { a with enabled := false }

/-- the file describes the account -/
structure Describes (c : Crypto) (cfg : FileAuthConfig) (a : Account) : Prop where
  enabled : a.enabled = cfg.enabled
  username : a.username = cfg.adminUsername
  complete : a.enabled → cfg.jwtSecret ≠ "" ∧ a.username ≠ "" ∧ a.password.isSome
  unset : a.password = none → cfg.adminPasswordHash = ""
  hashed : ∀ p ∈ a.password, p ≠ "" ∧ ∃ salt, c.bcryptHash salt p = some cfg.adminPasswordHash

def DescribesFile (c : Crypto) (a : Account) : Option FileAuthConfig → Prop
  | none => a = { enabled := false, username := "", password := none }
  | some cfg => Describes c cfg a

section
variable {c : Crypto}

/-- the file without an auth section is as one with an empty section -/
theorem DescribesFile.getD {a : Account} {auth : Option FileAuthConfig} (h : DescribesFile c a auth) :
    Describes c (auth.getD default) a := by
  cases auth with
  | none =>
    obtain rfl : a = { enabled := false, username := "", password := none } := h
    exact ⟨rfl, rfl, by simp, fun _ => rfl, by simp⟩
  | some cfg => exact h

theorem hexEncode_ne_empty (bs : Vector UInt8 32) : hexEncode bs.toList ≠ "" := by
  intro h
  have hlen : (hexEncode bs.toList).toList.length = 64 := by
    simp [hexEncode, Vector.length_toList]
  rw [h] at hlen
  exact absurd hlen (by decide)

/-- the secret is made once -/
theorem nextSecret {r : Entropy} {old new : String} (h : (if old = "" then r.GenerateRandomHex else some old) = some new) :
    new ≠ "" ∧ (old ≠ "" → new = old) := by
  by_cases hold : old = ""
  · rw [if_pos hold] at h
    obtain ⟨bs, -, rfl⟩ := Option.map_eq_some_iff.1 h
    exact ⟨hexEncode_ne_empty bs, fun hne => absurd hold hne⟩
  · rw [if_neg hold] at h
    obtain rfl := Option.some.inj h
    exact ⟨hold, fun _ => rfl⟩

/-- what `UpdateAuth` stores when the mutate function does not fail -/
theorem updateAuthMutate_stored (hbcrypt : ∀ salt p hash, c.bcryptHash salt p = some hash → isBcryptHash hash)
    {req : AuthRequest} {r : Entropy} {cfg : FileAuthConfig} {a : Account} (ha : Describes c cfg a)
    (hname : ¬ (req.enabled ∧ req.adminUsername = "")) {auth : Option FileAuthConfig}
    (h : (updateAuthMutate c req r cfg).2.stored ((updateAuthMutate c req r cfg).1.foldl (fun _ v => v) cfg) =
      some auth) :
    ∃ cfg', auth = some cfg' ∧ Describes c cfg' (a.update req) ∧ (cfg.jwtSecret ≠ "" → cfg'.jwtSecret = cfg.jwtSecret) := by
  unfold updateAuthMutate at h
  cases henabled : req.enabled with
  | false =>
    simp only [henabled, Bool.false_eq_true, if_false, AuthReturn.stored, List.foldl_cons, List.foldl_nil,
      Option.some.injEq] at h
    refine ⟨_, h.symm, ?_, fun _ => rfl⟩
    simp only [Account.update, henabled, Bool.false_eq_true, if_false]
    exact ⟨rfl, ha.username, by simp, ha.unset, ha.hashed⟩
  | true =>
    have husername : req.adminUsername ≠ "" := fun hempty => hname ⟨henabled, hempty⟩
    simp only [henabled, if_true] at h
    simp only [Account.update, henabled, if_true]
    cases hsecret : (if cfg.jwtSecret = "" then r.GenerateRandomHex else some cfg.jwtSecret) with
    | none => simp [hsecret, AuthReturn.stored] at h
    | some jwtSecret =>
      obtain ⟨hk, hkept⟩ := nextSecret hsecret
      by_cases hnew : req.newPassword = ""
      · by_cases hhash : cfg.adminPasswordHash = ""
        · simp [hsecret, hnew, hhash, AuthReturn.stored] at h
        · simp only [hsecret, hnew, hhash, if_true, if_false, AuthReturn.stored, List.foldl_cons, List.foldl_nil,
            Option.some.injEq] at h
          have hset : a.password.isSome := by
            rw [Option.isSome_iff_ne_none]
            exact fun hnone => hhash (ha.unset hnone)
          refine ⟨_, h.symm, ⟨rfl, rfl, fun _ => ⟨hk, husername, ?_⟩, ?_, ?_⟩, hkept⟩
          · simpa [hnew] using hset
          · simpa [hnew] using ha.unset
          · simpa [hnew] using ha.hashed
      · cases hhash : c.bcryptHash r.salt req.newPassword with
        | none => simp [hsecret, hnew, hhash, AuthReturn.stored] at h
        | some hash =>
          have hne : hash ≠ "" := by
            rintro rfl
            exact absurd (hbcrypt _ _ _ hhash) (by decide)
          simp only [hsecret, hnew, hhash, hne, if_false, AuthReturn.stored, List.foldl_cons, List.foldl_nil,
            Option.some.injEq] at h
          refine ⟨_, h.symm, ⟨rfl, rfl, fun _ => ⟨hk, husername, by simp [hnew]⟩, by simp [hnew], ?_⟩, hkept⟩
          intro p hp
          obtain rfl : req.newPassword = p := by simpa [hnew] using hp
          exact ⟨hnew, r.salt, hhash⟩

end

/-! ## Runs -/

inductive AuthAct where
  | updateAuth (req : AuthRequest) (r : Entropy) (w : World)
  | other (o : OpKeeping FileConfig.auth) (w : World)
  /-- the process ends and starts again -/
  | restart (w : World) (newChannelID : String)

/-- the account after a request and its answer -/
def answered (x : Server × Account) (req : AuthRequest) (res : Server × Bool) : Server × Account :=
  (res.1, if res.2 then x.2.update req else x.2)

/-- one action, and what has become of the account -/
def AuthAct.step (c : Crypto) (up : Startup) (x : Server × Account) : AuthAct → Server × Account
  | .updateAuth req r w => answered x req (UpdateAuth c up x.1 req r w)
  | .other o w => ((x.1.update up o.op w).1, x.2)
  | .restart w newChannelID => (Server.start up w newChannelID x.1.manager.disk, x.2)

/-- the secret of the sessions is the one that is stored, and stays -/
def Secret (s : Server) (k : String) : Prop := ∃ cfg ∈ s.manager.fileConfig.auth, cfg.jwtSecret = k

structure Follows (c : Crypto) (up : Startup) (x : Server × Account) : Prop where
  inv : Server.Inv up x.1
  describes : DescribesFile c x.2 x.1.manager.fileConfig.auth

section
variable {c : Crypto} {up : Startup} {x : Server × Account}

theorem start_follows (c : Crypto) (up : Startup) (w : World) (newChannelID : String) {disk : FileConfig} {a : Account}
    (h : DescribesFile c a disk.auth) : Follows c up (Server.start up w newChannelID disk, a) where
  inv := start_inv up w newChannelID disk
  describes := by
    show DescribesFile c a (newManager up.env w newChannelID disk).fileConfig.auth
    rw [newManager_fileConfig, migrated_auth]
    exact h

/-- what a request for other auth settings does, answered with success or not -/
theorem UpdateAuth_spec (hbcrypt : ∀ salt p hash, c.bcryptHash salt p = some hash → isBcryptHash hash)
    (h : Follows c up x) (req : AuthRequest) (r : Entropy) (w : World) :
    Server.Inv up (UpdateAuth c up x.1 req r w).1 ∧
      ((UpdateAuth c up x.1 req r w).2 = true →
        ∃ cfg', (UpdateAuth c up x.1 req r w).1.manager.fileConfig.auth = some cfg' ∧
          Describes c cfg' (x.2.update req) ∧
          ((x.1.manager.fileConfig.auth.getD default).jwtSecret ≠ "" →
            cfg'.jwtSecret = (x.1.manager.fileConfig.auth.getD default).jwtSecret)) ∧
      ((UpdateAuth c up x.1 req r w).2 = false →
        (UpdateAuth c up x.1 req r w).1.manager.fileConfig = x.1.manager.fileConfig) := by
  unfold UpdateAuth
  by_cases hname : req.enabled ∧ req.adminUsername = ""
  · rw [if_pos hname]
    exact ⟨h.inv, by simp, fun _ => rfl⟩
  rw [if_neg hname]
  have hstored : ∀ fc', x.1.manager.fileConfig.apply (.auth (updateAuthMutate c req r)) = some fc' →
      ∃ cfg', fc'.auth = some cfg' ∧ Describes c cfg' (x.2.update req) ∧
        ((x.1.manager.fileConfig.auth.getD default).jwtSecret ≠ "" →
          cfg'.jwtSecret = (x.1.manager.fileConfig.auth.getD default).jwtSecret) := by
    intro fc' happly
    obtain ⟨auth, hauth, rfl⟩ := Option.map_eq_some_iff.1 happly
    exact updateAuthMutate_stored hbcrypt h.describes.getD hname hauth
  have hstoring : Storing x.1.manager.fileConfig (.auth (updateAuthMutate c req r)) := by
    intro fc' happly
    obtain ⟨cfg', hcfg', -⟩ := hstored fc' happly
    exact .inr (by simp [hcfg'])
  obtain ⟨hinv, hok, hfail⟩ := update_inv h.inv hstoring w
  generalize x.1.update up (.auth (updateAuthMutate c req r)) w = res at hinv hok hfail ⊢
  obtain ⟨s', e⟩ := res
  cases e with
  | some e => exact ⟨hinv, by simp, fun _ => hfail (by simp)⟩
  | none => exact ⟨hinv, fun _ => hstored _ (hok rfl).2, by simp⟩

theorem updateAuth_follows (hbcrypt : ∀ salt p hash, c.bcryptHash salt p = some hash → isBcryptHash hash)
    (h : Follows c up x) (req : AuthRequest) (r : Entropy) (w : World) :
    Follows c up (AuthAct.step c up x (.updateAuth req r w)) ∧
      ∀ k ≠ "", Secret x.1 k → Secret (AuthAct.step c up x (.updateAuth req r w)).1 k := by
  obtain ⟨hinv, hok, hfail⟩ := UpdateAuth_spec hbcrypt h req r w
  simp only [AuthAct.step]
  generalize UpdateAuth c up x.1 req r w = res at hinv hok hfail ⊢
  obtain ⟨s', ok⟩ := res
  cases ok with
  | false =>
    have hsame : s'.manager.fileConfig = x.1.manager.fileConfig := hfail rfl
    refine ⟨⟨hinv, ?_⟩, fun k _ hk => ?_⟩
    · simp only [answered, Bool.false_eq_true, if_false, hsame]
      exact h.describes
    · obtain ⟨cfg, hcfg, hsecret⟩ := hk
      exact ⟨cfg, by simp only [answered, hsame]; exact hcfg, hsecret⟩
  | true =>
    obtain ⟨cfg', hcfg', hdescribes, hkept⟩ := hok rfl
    refine ⟨⟨hinv, ?_⟩, fun k hne hk => ?_⟩
    · simp only [answered, if_true, hcfg']
      exact hdescribes
    · obtain ⟨cfg, hcfg, hsecret⟩ := hk
      rw [Option.mem_def.1 hcfg, Option.getD_some, hsecret] at hkept
      exact ⟨cfg', hcfg', hkept hne⟩

/-- **One action.** -/
theorem step_follows (hbcrypt : ∀ salt p hash, c.bcryptHash salt p = some hash → isBcryptHash hash)
    (h : Follows c up x) (a : AuthAct) :
    Follows c up (a.step c up x) ∧ ∀ k ≠ "", Secret x.1 k → Secret (a.step c up x).1 k := by
  cases a with
  | updateAuth req r w => exact updateAuth_follows hbcrypt h req r w
  | other o w =>
    have hstoring : Storing x.1.manager.fileConfig o.op := fun fc' happly => .inl (o.keeps _ _ happly)
    obtain ⟨hinv, hok, hfail⟩ := update_inv h.inv hstoring w
    have hsame : (x.1.update up o.op w).1.manager.fileConfig.auth = x.1.manager.fileConfig.auth := by
      by_cases he : (x.1.update up o.op w).2 = none
      · exact o.keeps _ _ (hok he).2
      · rw [hfail he]
    refine ⟨⟨hinv, ?_⟩, fun k _ hk => ?_⟩
    · simp only [AuthAct.step, hsame]
      exact h.describes
    · obtain ⟨cfg, hcfg, hsecret⟩ := hk
      exact ⟨cfg, by simp only [AuthAct.step, hsame]; exact hcfg, hsecret⟩
  | restart w newChannelID =>
    have hdisk : x.1.manager.disk.auth = x.1.manager.fileConfig.auth := h.inv.disk
    refine ⟨start_follows c up w newChannelID (by rw [hdisk]; exact h.describes), fun k _ hk => ?_⟩
    obtain ⟨cfg, hcfg, hsecret⟩ := hk
    refine ⟨cfg, ?_, hsecret⟩
    show cfg ∈ (newManager up.env w newChannelID x.1.manager.disk).fileConfig.auth
    rw [newManager_fileConfig, migrated_auth, hdisk]
    exact hcfg

theorem run_follows (hbcrypt : ∀ salt p hash, c.bcryptHash salt p = some hash → isBcryptHash hash)
    (h : Follows c up x) (acts : List AuthAct) :
    Follows c up (Machine.run (AuthAct.step c up) x acts) ∧
      ∀ k ≠ "", Secret x.1 k → Secret (Machine.run (AuthAct.step c up) x acts).1 k := by
  induction acts generalizing x with
  | nil => exact ⟨h, fun k _ hk => hk⟩
  | cons a acts ih =>
    obtain ⟨hstep, hsecret⟩ := step_follows hbcrypt h a
    obtain ⟨hrun, hsecrets⟩ := ih hstep
    exact ⟨hrun, fun k hne hk => hsecrets k hne (hsecret k hne hk)⟩

end

/-! ## Logging in -/

section
variable {c : Crypto}

theorem Describes.hash_ne_empty (hbcrypt : ∀ salt p hash, c.bcryptHash salt p = some hash → isBcryptHash hash)
    {cfg : FileAuthConfig} {a : Account} (h : Describes c cfg a) {p : String} (hp : a.password = some p) :
    isBcryptHash cfg.adminPasswordHash ∧ cfg.adminPasswordHash ≠ "" := by
  obtain ⟨-, salt, hhash⟩ := h.hashed p hp
  have hformat := hbcrypt _ _ _ hhash
  refine ⟨hformat, fun hempty => ?_⟩
  rw [hempty] at hformat
  exact absurd hformat (by decide)

/-- an account that is described by a file is served as it is -/
theorem Describes.service (hbcrypt : ∀ salt p hash, c.bcryptHash salt p = some hash → isBcryptHash hash)
    {cfg : FileAuthConfig} {a : Account} (h : Describes c cfg a) :
    NewServiceFromFileConfig cfg =
      if a.enabled then
        some { jwtSecret := cfg.jwtSecret, adminUsername := a.username, adminPasswordHash := cfg.adminPasswordHash,
               sha256Salt := cfg.adminPasswordSalt }
      else none := by
  unfold NewServiceFromFileConfig
  cases henabled : a.enabled with
  | false => simp [← h.enabled, henabled]
  | true =>
    obtain ⟨hsecret, hname, hset⟩ := h.complete henabled
    obtain ⟨p, hp⟩ := Option.isSome_iff_exists.1 hset
    have hhash : cfg.adminPasswordHash ≠ "" := (h.hash_ne_empty hbcrypt hp).2
    simp [← h.enabled, henabled, hsecret, ← h.username, hname, hhash]

/-- the service of the registry accepts the password of the account -/
theorem Describes.validates (hbcrypt : ∀ salt p hash, c.bcryptHash salt p = some hash → isBcryptHash hash)
    {cfg : FileAuthConfig} {a : Account} (h : Describes c cfg a) {p : String} (hp : a.password = some p) (k salt : String)
    (username : String) {password : String}
    (hcompare : ∀ salt hash, c.bcryptHash salt p = some hash → (c.bcryptCompare hash password = true ↔ password = p)) :
    Service.ValidateCredentials c
        { jwtSecret := k, adminUsername := a.username, adminPasswordHash := cfg.adminPasswordHash, sha256Salt := salt }
        username password = true ↔ username = a.username ∧ password = p := by
  obtain ⟨-, bsalt, hhash⟩ := h.hashed p hp
  simp only [Service.ValidateCredentials, (h.hash_ne_empty hbcrypt hp).1, if_true, Bool.and_eq_true, decide_eq_true_eq,
    hcompare bsalt _ hhash]

end

section
variable {c : Crypto} {up : Startup} {x : Server × Account}

/-- while auth is enabled, the registry holds the service that the file describes -/
theorem Follows.enabled (h : Follows c up x) (henv : up.envAuth = none)
    (hbcrypt : ∀ salt p hash, c.bcryptHash salt p = some hash → isBcryptHash hash) :
    (x.2.enabled = false ∧ x.1.auth = none) ∨
      x.2.enabled = true ∧ ∃ cfg, x.1.manager.fileConfig.auth = some cfg ∧ Describes c cfg x.2 ∧
        x.1.auth = some { jwtSecret := cfg.jwtSecret, adminUsername := x.2.username,
                          adminPasswordHash := cfg.adminPasswordHash, sha256Salt := cfg.adminPasswordSalt } := by
  have hauth : x.1.auth = x.1.manager.fileConfig.auth.bind NewServiceFromFileConfig := by
    rw [h.inv.auth, Startup.service, henv]
  have hdescribes := h.describes
  cases hfile : x.1.manager.fileConfig.auth with
  | none =>
    rw [hfile] at hauth hdescribes
    have ha : x.2 = { enabled := false, username := "", password := none } := hdescribes
    exact .inl ⟨by rw [ha], hauth⟩
  | some cfg =>
    rw [hfile] at hauth hdescribes
    have hcfg : Describes c cfg x.2 := hdescribes
    rw [Option.bind_some, hcfg.service hbcrypt] at hauth
    cases henabled : x.2.enabled with
    | false => exact .inl ⟨rfl, by rw [hauth, henabled]; rfl⟩
    | true => exact .inr ⟨rfl, cfg, rfl, hcfg, by rw [hauth, henabled]; rfl⟩

theorem Follows.settingsEnabled (h : Follows c up x) (henv : up.envAuth = none) :
    x.1.settingsEnabled = x.2.enabled := by
  have hset : up.env.snapshot.authSet = false := by rw [← up.fromEnv, henv]; rfl
  have hsource : x.1.manager.sources.auth ≠ .env := by
    rw [h.inv.sources, hset]
    cases x.1.manager.fileConfig.auth <;> simp
  have hdescribes := h.describes
  unfold Server.settingsEnabled
  rw [if_neg hsource]
  cases hfile : x.1.manager.fileConfig.auth with
  | none =>
    rw [hfile] at hdescribes
    have ha : x.2 = { enabled := false, username := "", password := none } := hdescribes
    rw [ha]
  | some cfg =>
    rw [hfile] at hdescribes
    have hcfg : Describes c cfg x.2 := hdescribes
    exact hcfg.enabled.symm

end

/-- the sessions are signed with the secret of the environment, or with the one in the file -/
theorem Server.Inv.secret {up : Startup} {s : Server} (hi : Server.Inv up s) {svc : Service} (h : s.auth = some svc) :
    up.envAuth = some svc ∨ up.envAuth = none ∧ svc.jwtSecret ≠ "" ∧ Secret s svc.jwtSecret := by
  rw [hi.auth, Startup.service] at h
  cases henv : up.envAuth with
  | some svc₀ =>
    rw [henv] at h
    exact .inl h
  | none =>
    rw [henv] at h
    obtain ⟨cfg, hcfg, hnew⟩ := Option.bind_eq_some_iff.1 h
    unfold NewServiceFromFileConfig at hnew
    split_ifs at hnew with hoff hmissing
    obtain rfl := Option.some.inj hnew
    exact .inr ⟨rfl, fun hempty => hmissing (.inl hempty), cfg, hcfg, rfl⟩

/-- **Logins.** Starting from a file that describes the account, whose password is not one hashed with SHA-256: whatever
the settings were changed to, whichever requests failed, and however often the process was started again, a login
succeeds exactly while auth is enabled, for the user and the password that the last successful requests set; and what the
settings and the login page say about auth is so. -/
theorem login_account (c : Crypto) (hbcrypt : ∀ salt p hash, c.bcryptHash salt p = some hash → isBcryptHash hash)
    (up : Startup) (henv : up.envAuth = none) (w₀ : World) (newChannelID : String) (disk : FileConfig) (a₀ : Account)
    (h₀ : DescribesFile c a₀ disk.auth) (acts : List AuthAct) :
    let x := Machine.run (AuthAct.step c up) (Server.start up w₀ newChannelID disk, a₀) acts
    x.1.authEnabled = x.2.enabled ∧ x.1.settingsEnabled = x.2.enabled ∧
      ∀ now username password,
        (∀ p ∈ x.2.password, ∀ salt hash, c.bcryptHash salt p = some hash →
          (c.bcryptCompare hash password = true ↔ password = p)) →
        ((∃ token, x.1.login c now username password = .ok token) ↔
          x.2.enabled = true ∧ username = x.2.username ∧ x.2.password = some password) := by
  intro x
  have hx : Follows c up x := (run_follows hbcrypt (start_follows c up w₀ newChannelID h₀) acts).1
  refine ⟨?_, hx.settingsEnabled henv, fun now username password hcompare => ?_⟩
  · rcases hx.enabled henv hbcrypt with ⟨hoff, hauth⟩ | ⟨hon, cfg, -, -, hauth⟩
    · rw [Server.authEnabled, hauth, hoff]
      rfl
    · rw [Server.authEnabled, hauth, hon]
      rfl
  · unfold Server.login
    rcases hx.enabled henv hbcrypt with ⟨hoff, hauth⟩ | ⟨hon, cfg, -, hcfg, hauth⟩
    · simp [hauth, hoff]
    · obtain ⟨-, hname, hset⟩ := hcfg.complete hon
      obtain ⟨p, hp⟩ := Option.isSome_iff_exists.1 hset
      have hpne : p ≠ "" := (hcfg.hashed p hp).1
      have hvalid := hcfg.validates hbcrypt hp cfg.jwtSecret cfg.adminPasswordSalt username
        (hcompare p hp)
      simp only [hauth, hon, hp, true_and, Option.some.injEq]
      by_cases hempty : username = "" ∨ password = ""
      · have hno : ¬ (username = x.2.username ∧ p = password) := by
          rintro ⟨rfl, rfl⟩
          tauto
        simp [hempty, hno]
      · by_cases hmatch : username = x.2.username ∧ password = p
        · rw [if_neg hempty, if_neg (by rw [hvalid.2 hmatch]; exact Bool.true_eq_false.mp)]
          simp [hmatch.1, hmatch.2]
        · have hfails := mt hvalid.1 hmatch
          rw [Bool.not_eq_true] at hfails
          rw [if_neg hempty, if_pos hfails]
          have hno : ¬ (username = x.2.username ∧ p = password) := fun ⟨h₁, h₂⟩ => hmatch ⟨h₁, h₂.symm⟩
          simp [hno]

/-- **Sessions.** Starting from such a file, the token of a successful login is valid for its seven days, to the second,
whenever auth is enabled, whatever the settings were changed to and however often the process was started again; after
that it has expired. -/
theorem session_survives (c : Crypto) (hbcrypt : ∀ salt p hash, c.bcryptHash salt p = some hash → isBcryptHash hash)
    (up : Startup) (w₀ : World) (newChannelID : String) (disk : FileConfig) (a₀ : Account)
    (h₀ : DescribesFile c a₀ disk.auth) (acts acts' : List AuthAct) :
    let x := Machine.run (AuthAct.step c up) (Server.start up w₀ newChannelID disk, a₀) acts
    let y := Machine.run (AuthAct.step c up) x acts'
    ∀ t username password token, x.1.login c t username password = .ok token →
      (∀ svc ∈ x.1.auth, c.Reads svc.jwtSecret (sessionClaims t username)) →
      ∀ svc ∈ y.1.auth, ∀ now, t ≤ now →
        svc.VerifyToken c now token =
          if now < numericDate (t + tokenExpiration) then .ok { username := username, role := "admin" }
          else .error .tokenExpired := by
  intro x y t username password token hlogin hreads svc hsvc now hnow
  have hx : Follows c up x := (run_follows hbcrypt (start_follows c up w₀ newChannelID h₀) acts).1
  obtain ⟨hy, hkept⟩ := run_follows hbcrypt hx acts'
  -- the service that made the token, and the secret it was signed with
  obtain ⟨svc₀, hsvc₀, htoken⟩ : ∃ svc₀, x.1.auth = some svc₀ ∧ token = svc₀.GenerateToken c t username := by
    unfold Server.login at hlogin
    cases hauth : x.1.auth with
    | none => simp [hauth] at hlogin
    | some svc₀ =>
      simp only [hauth] at hlogin
      split_ifs at hlogin
      exact ⟨svc₀, rfl, (Except.ok.inj hlogin).symm⟩
  have hsecret : svc.jwtSecret = svc₀.jwtSecret := by
    rcases hx.inv.secret hsvc₀ with henv | ⟨henv, hne, hk⟩
    · rcases hy.inv.secret hsvc with henv' | ⟨henv', -, -⟩
      · rw [henv] at henv'
        rw [Option.some.inj henv']
      · rw [henv] at henv'
        cases henv'
    · rcases hy.inv.secret hsvc with henv' | ⟨-, -, cfg, hcfg, hk'⟩
      · rw [henv] at henv'
        cases henv'
      · obtain ⟨cfg₀, hcfg₀, hk₀⟩ := hkept _ hne hk
        have hsame : cfg = cfg₀ := Option.mem_unique hcfg hcfg₀
        rw [← hk', hsame, hk₀]
  have hbefore : numericDate t ≤ now := by
    have hmod : 0 ≤ t % second := Int.emod_nonneg _ (by decide)
    unfold numericDate
    omega
  rw [htoken, Service.VerifyToken, hsecret]
  exact hreads svc₀ hsvc₀ now hbefore

/-! ## An account -/

def adminToken : String :=
  "eyJhbGciOiJIUzI1NiIsInR5cCI6IkpXVCJ9." ++
  "eyJ1c2VybmFtZSI6ImFkbWluIiwicm9sZSI6ImFkbWluIiwiaXNzIjoibG9nZGVjayIsInN1YiI6ImFk" ++
  "bWluIiwiZXhwIjoxNzAwNjA0ODAwLCJuYmYiOjE3MDAwMDAwMDAsImlhdCI6MTcwMDAwMDAwMH0." ++
  "OfFb4pQL9eobI0xBfeR26EgG5i0cNGbxJ3b6zrldKJk"

/-- the libraries on one password, one secret and one login -/
def adminCrypto : Crypto where
  sha256 := fun _ => ""
  bcryptHash := fun _ password =>
    if password = "allmine" then some "$2a$10$XajjQvNhvvRt5GSeFk1xFeyqRrsxkhBkUiQeg0dt.wU1qD4aFDcga" else none
  bcryptCompare := fun hash password =>
    hash = "$2a$10$XajjQvNhvvRt5GSeFk1xFeyqRrsxkhBkUiQeg0dt.wU1qD4aFDcga" && password = "allmine"
  sign := fun _ _ => adminToken
  parse := fun _ now _ =>
    if now < 1700604800 * second then .ok { username := "admin", role := "admin" } else .error .tokenExpired

def noEnvAuth : Startup := { env := noEnv, envAuth := none, fromEnv := rfl }

def enableAuth : AuthAct :=
  .updateAuth { enabled := true, adminUsername := "admin", newPassword := "allmine" }
    { secret := some (Vector.replicate 32 0), salt := 0 } writable

theorem adminCrypto_bcrypt (salt : ℕ) (p hash : String) (h : adminCrypto.bcryptHash salt p = some hash) :
    isBcryptHash hash := by
  unfold adminCrypto at h
  dsimp only at h
  split_ifs at h
  obtain rfl := Option.some.inj h
  decide

/-- the server and the account after auth was enabled over an empty file -/
def enabledAuth : Server × Account :=
  Machine.run (AuthAct.step adminCrypto noEnvAuth)
    (Server.start noEnvAuth writable "" noFile, { enabled := false, username := "", password := none }) [enableAuth]

theorem enabledAuth_account : enabledAuth.2 = { enabled := true, username := "admin", password := some "allmine" } := by
  decide

theorem adminCrypto_compare (salt : ℕ) (hash : String) (h : adminCrypto.bcryptHash salt "allmine" = some hash) :
    adminCrypto.bcryptCompare hash "allmine" = true ↔ "allmine" = "allmine" := by
  obtain rfl := Option.some.inj h
  decide

/-- a login with the password that was set -/
theorem login_account_admin :
    ∃ token, enabledAuth.1.login adminCrypto (1700000000 * second) "admin" "allmine" = .ok token := by
  have h := (login_account adminCrypto adminCrypto_bcrypt noEnvAuth rfl writable "" noFile
    { enabled := false, username := "", password := none } rfl [enableAuth]).2.2
  have haccount := enabledAuth_account
  unfold enabledAuth at haccount
  simp only [haccount] at h
  refine (h (1700000000 * second) "admin" "allmine" ?_).2 (by simp)
  intro p hp salt hash hhash
  obtain rfl : "allmine" = p := Option.some.inj hp
  exact adminCrypto_compare salt hash hhash

/-- the session of a login, a day later -/
theorem session_survives_day :
    ∃ svc ∈ enabledAuth.1.auth,
      svc.VerifyToken adminCrypto (1700086400 * second) adminToken = .ok { username := "admin", role := "admin" } := by
  obtain ⟨svc, hsvc⟩ : ∃ svc, enabledAuth.1.auth = some svc := ⟨_, rfl⟩
  refine ⟨svc, hsvc, ?_⟩
  have hlogin : enabledAuth.1.login adminCrypto (1700000000 * second) "admin" "allmine" = .ok adminToken :=
    rfl
  have h := session_survives adminCrypto adminCrypto_bcrypt noEnvAuth writable "" noFile
    { enabled := false, username := "", password := none } rfl [enableAuth] [] (1700000000 * second) "admin" "allmine"
    adminToken hlogin ?_ svc hsvc (1700086400 * second) (by decide)
  · rw [h]
    decide
  · intro svc₀ _ now _
    rfl

end LogDeck.Api
