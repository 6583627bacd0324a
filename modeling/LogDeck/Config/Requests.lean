/-
Settings requests that read before they update (`api/settings_handlers.go`: `UpdateLogStorage`, `UpdateCoolifyHosts`;
`config/logstore.go`).

Both handlers look at the configuration without holding the manager's lock, make up their minds, and then call an
Update operation. `Handler` is that shape: what a request is accepted with, given the configuration it read, and the
update it ends in. Between the two any number of other requests may be updated.

Results:
- `Handler.act_inv`: what the read establishes holds of every request under way;
- `caps_valid_iff`: the log storage caps stay valid exactly in the runs in which every update still fits the caps it
  meets, and `caps_race`, two requests that do not;
- `masked_token_iff`: a masked token leaves the stored one alone exactly in the runs in which every update meets the
  token its request read, and `token_race`, a rotation that is undone.
-/
import LogDeck.Lib.GoQuote
import LogDeck.Lib.Decimal
import LogDeck.Config.Transactions

namespace LogDeck.Config

/-! ## Requests under way -/

/-- a handler that reads the configuration and updates it later -/
structure Handler (σ ρ : Type) where
  /-- what the request goes on with after it has read; none when it is refused -/
  accept : Manager → σ → Option ρ
  op : ρ → UpdateOp

structure Requests (ρ : Type) where
  manager : Manager
  pending : ℕ → Option ρ
  /-- the next request -/
  fresh : ℕ

inductive RequestAct (σ : Type) where
  /-- a request reads and validates -/
  | read (submitted : σ)
  /-- a request under way calls its Update operation -/
  | update (id : ℕ) (w : World)

namespace Handler

variable {σ ρ : Type} (handler : Handler σ ρ) (env : Env)

def read (s : Requests ρ) (submitted : σ) : Requests ρ :=
  match handler.accept s.manager submitted with
  | none => s
  | some r => { s with pending := Function.update s.pending s.fresh (some r), fresh := s.fresh + 1 }

def update (s : Requests ρ) (id : ℕ) (w : World) : Requests ρ :=
  match s.pending id with
  | none => s
  | some r =>
    { s with
      manager := s.manager.step env (handler.op r, w)
      pending := Function.update s.pending id none }

def act (s : Requests ρ) : RequestAct σ → Requests ρ
  | .read submitted => handler.read s submitted
  | .update id w => handler.update env s id w

def start (m : Manager) : Requests ρ := { manager := m, pending := fun _ => none, fresh := 0 }

/-- the references are valid, and P holds of every request under way -/
structure Inv (P : ρ → Prop) (s : Requests ρ) : Prop where
  wellFormed : s.manager.WellFormed
  pending : ∀ id r, s.pending id = some r → P r

variable {handler env} {P : ρ → Prop} {s : Requests ρ}

theorem update_pending {id : ℕ} {r : ρ} (h : s.pending id = some r) (w : World) :
    handler.update env s id w =
      { s with
        manager := s.manager.step env (handler.op r, w)
        pending := Function.update s.pending id none } := by
  unfold update
  rw [h]

/-- **Reads.** What a handler makes sure of when it reads holds of every request under way. -/
theorem act_inv (haccept : ∀ m submitted r, handler.accept m submitted = some r → P r) (hi : Inv P s)
    (a : RequestAct σ) : Inv P (handler.act env s a) := by
  cases a with
  | read submitted =>
    change Inv P (handler.read s submitted)
    unfold read
    cases hr : handler.accept s.manager submitted with
    | none => exact hi
    | some r =>
      refine ⟨hi.wellFormed, fun id r' h => ?_⟩
      by_cases hid : id = s.fresh
      · subst hid
        simp only [Function.update_self, Option.some.injEq] at h
        subst h
        exact haccept _ _ _ hr
      · simp only [Function.update_of_ne hid] at h
        exact hi.pending id r' h
  | update id w =>
    change Inv P (handler.update env s id w)
    cases hr : s.pending id with
    | none =>
      unfold update
      rw [hr]
      exact hi
    | some r =>
      rw [update_pending hr]
      refine ⟨update_wellFormed hi.wellFormed _, fun id' r' h => ?_⟩
      by_cases hid : id' = id
      · subst hid
        simp only [Function.update_self] at h
        cases h
      · simp only [Function.update_of_ne hid] at h
        exact hi.pending id' r' h

theorem start_inv {m : Manager} (hm : m.WellFormed) : Inv P (start m) := ⟨hm, nofun⟩

end Handler

/-! ## Log storage -/

def defaultLogStorePerContainerMB : ℤ := 50

def defaultLogStoreTotalMB : ℤ := 1024

def maxLogStoreMB : ℤ := 1024 * 1024

/-- the environment variables of the log store; unset reads as empty -/
structure LogStoreVars where
  enabled : String
  perContainerMB : String
  totalMB : String
deriving DecidableEq, Repr

structure ResolvedLogStoreConfig where
  enabled : Bool
  perContainerMB : ℤ
  totalMB : ℤ
deriving DecidableEq, Repr

/-- `strconv.ParseBool` of a variable that is set -/
def envBool (raw : String) : Option Bool :=
  if raw ∈ ["1", "t", "T", "TRUE", "true", "True"] then some true
  else if raw ∈ ["0", "f", "F", "FALSE", "false", "False"] then some false
  else none

def envPositiveInt (raw : String) : Option ℤ := (Decimal.parseInt64 raw.toList).filter fun value => 0 < value

def positiveMB (value fallback : ℤ) : ℤ := if value ≤ 0 then fallback else value

/-- one cap: the environment wins over the file, which wins over the default -/
def resolveMB (raw : String) (file : Option ℤ) (fallback : ℤ) : ℤ :=
  match envPositiveInt raw with
  | some value => value
  | none =>
    match file with
    | some value => positiveMB value fallback
    | none => fallback

/-- `Manager.LogStore` -/
def resolveLogStore (vars : LogStoreVars) (file : Option LogStoreConfig) : ResolvedLogStoreConfig :=
  { enabled := ((envBool vars.enabled).or (file.bind LogStoreConfig.enabled)).getD true
    perContainerMB :=
      resolveMB vars.perContainerMB (file.bind LogStoreConfig.perContainerMB) defaultLogStorePerContainerMB
    totalMB := resolveMB vars.totalMB (file.bind LogStoreConfig.totalMB) defaultLogStoreTotalMB }

structure LogStorageRequest where
  enabled : Option Bool
  perContainerMB : Option ℤ
  totalMB : Option ℤ
deriving DecidableEq, Repr

/-- the message for a provided field that a variable pins -/
def pinnedMessage (vars : LogStoreVars) (req : LogStorageRequest) : Option String :=
  if req.enabled.isSome ∧ (envBool vars.enabled).isSome then
    some "enabled is set via the LOG_STORE_ENABLED environment variable and cannot be changed from the UI"
  else if req.perContainerMB.isSome ∧ (envPositiveInt vars.perContainerMB).isSome then
    some ("perContainerMB is set via the LOG_STORE_PER_CONTAINER_MB environment variable" ++
      " and cannot be changed from the UI")
  else if req.totalMB.isSome ∧ (envPositiveInt vars.totalMB).isSome then
    some "totalMB is set via the LOG_STORE_TOTAL_MB environment variable and cannot be changed from the UI"
  else none

/-- the message for caps that make no sense -/
def validateLogStoreCaps (cfg : ResolvedLogStoreConfig) : Option String :=
  if cfg.perContainerMB < 1 ∨ cfg.perContainerMB > maxLogStoreMB then
    some ("perContainerMB must be between 1 and " ++ toString maxLogStoreMB)
  else if cfg.totalMB < 1 ∨ cfg.totalMB > maxLogStoreMB then
    some ("totalMB must be between 1 and " ++ toString maxLogStoreMB)
  else if cfg.perContainerMB > cfg.totalMB then
    some ("perContainerMB (" ++ toString cfg.perContainerMB ++ ") cannot exceed totalMB (" ++
      toString cfg.totalMB ++ ")")
  else none

namespace LogStorageRequest

/-- the caps the store would end up with -/
def effective (req : LogStorageRequest) (current : ResolvedLogStoreConfig) : ResolvedLogStoreConfig :=
  { current with
    perContainerMB := req.perContainerMB.getD current.perContainerMB
    totalMB := req.totalMB.getD current.totalMB }

/-- status and message of a refused request -/
def refusal (vars : LogStoreVars) (m : Manager) (req : LogStorageRequest) : Option (ℕ × String) :=
  match pinnedMessage vars req with
  | some message => some (409, message)
  | none =>
    match validateLogStoreCaps (req.effective (resolveLogStore vars m.fileConfig.logStore)) with
    | some message => some (400, message)
    | none => none

/-- the mutate function: only the fields provided change -/
def mutate (req : LogStorageRequest) (current : LogStoreConfig) : LogStoreConfig :=
  { enabled := req.enabled.or current.enabled
    perContainerMB := req.perContainerMB.or current.perContainerMB
    totalMB := req.totalMB.or current.totalMB }

end LogStorageRequest

/-- `UpdateLogStorage` -/
def updateLogStorage (vars : LogStoreVars) : Handler LogStorageRequest LogStorageRequest where
  accept := fun m req => if (req.refusal vars m).isSome then none else some req
  op := fun req => .logStore fun current => some (req.mutate current)

structure ValidCaps (cfg : ResolvedLogStoreConfig) : Prop where
  one_le : 1 ≤ cfg.perContainerMB
  le_total : cfg.perContainerMB ≤ cfg.totalMB
  total_le : cfg.totalMB ≤ maxLogStoreMB

def CapsValid (vars : LogStoreVars) (s : Requests LogStorageRequest) : Prop :=
  ValidCaps (resolveLogStore vars s.manager.fileConfig.logStore)

/-- an update that is written finds the cap it does not provide on the right side of the one it does -/
def FitsCaps (vars : LogStoreVars) (s : Requests LogStorageRequest) : RequestAct LogStorageRequest → Prop
  | .read _ => True
  | .update id w => ∀ req, s.pending id = some req → w.persists = true →
    (∀ cap, req.perContainerMB = some cap → req.totalMB = none →
      cap ≤ (resolveLogStore vars s.manager.fileConfig.logStore).totalMB) ∧
    (∀ cap, req.totalMB = some cap → req.perContainerMB = none →
      (resolveLogStore vars s.manager.fileConfig.logStore).perContainerMB ≤ cap)

/-- what the read makes sure of: nothing pinned is provided, and the caps provided are sound by themselves -/
structure SoundRequest (vars : LogStoreVars) (req : LogStorageRequest) : Prop where
  perContainerMB : ∀ cap, req.perContainerMB = some cap →
    envPositiveInt vars.perContainerMB = none ∧ 1 ≤ cap ∧ cap ≤ maxLogStoreMB
  totalMB : ∀ cap, req.totalMB = some cap → envPositiveInt vars.totalMB = none ∧ 1 ≤ cap ∧ cap ≤ maxLogStoreMB
  both : ∀ perCap cap, req.perContainerMB = some perCap → req.totalMB = some cap → perCap ≤ cap

theorem validateLogStoreCaps_none {cfg : ResolvedLogStoreConfig} (h : validateLogStoreCaps cfg = none) :
    ValidCaps cfg := by
  unfold validateLogStoreCaps at h
  split_ifs at h with h1 h2 h3
  exact ⟨by omega, by omega, by omega⟩

theorem pinnedMessage_none {vars : LogStoreVars} {req : LogStorageRequest} (h : pinnedMessage vars req = none) :
    (∀ cap, req.perContainerMB = some cap → envPositiveInt vars.perContainerMB = none) ∧
      ∀ cap, req.totalMB = some cap → envPositiveInt vars.totalMB = none := by
  unfold pinnedMessage at h
  split_ifs at h with h1 h2 h3
  refine ⟨fun cap hcap => ?_, fun cap hcap => ?_⟩
  · rw [hcap] at h2
    simpa using h2
  · rw [hcap] at h3
    simpa using h3

theorem updateLogStorage_accept {vars : LogStoreVars} {m : Manager} {submitted req : LogStorageRequest}
    (h : (updateLogStorage vars).accept m submitted = some req) : SoundRequest vars req := by
  have hsplit : submitted.refusal vars m = none ∧ submitted = req := by
    simp only [updateLogStorage] at h
    split_ifs at h with href
    exact ⟨Option.not_isSome_iff_eq_none.mp href, Option.some.inj h⟩
  obtain ⟨href, rfl⟩ := hsplit
  unfold LogStorageRequest.refusal at href
  cases hpin : pinnedMessage vars submitted with
  | some message =>
    rw [hpin] at href
    cases href
  | none =>
    cases hval : validateLogStoreCaps (submitted.effective (resolveLogStore vars m.fileConfig.logStore)) with
    | some message => simp only [hpin, hval] at href; cases href
    | none =>
      obtain ⟨hper, htotal⟩ := pinnedMessage_none hpin
      obtain ⟨hone, hle, hmax⟩ := validateLogStoreCaps_none hval
      simp only [LogStorageRequest.effective] at hone hle hmax
      refine ⟨fun cap hcap => ⟨hper cap hcap, ?_⟩, fun cap hcap => ⟨htotal cap hcap, ?_⟩, ?_⟩
      · rw [hcap, Option.getD_some] at hone hle
        omega
      · rw [hcap, Option.getD_some] at hle hmax
        omega
      · intro perCap cap hperCap hcap
        rw [hperCap, hcap, Option.getD_some, Option.getD_some] at hle
        exact hle

/-- a cap that was provided is the effective one from then on -/
theorem resolveMB_or {raw : String} {provided file : Option ℤ} {fallback : ℤ}
    (h : ∀ cap, provided = some cap → envPositiveInt raw = none ∧ 1 ≤ cap) :
    resolveMB raw (provided.or file) fallback = provided.getD (resolveMB raw file fallback) := by
  cases provided with
  | none => rfl
  | some cap =>
    obtain ⟨henv, hpos⟩ := h cap rfl
    unfold resolveMB
    simp only [henv, Option.some_or, Option.getD_some, positiveMB]
    rw [if_neg (by omega)]

/-- the caps after an update that is written are those its request provides over those it meets -/
theorem resolveLogStore_mutate {vars : LogStoreVars} {req : LogStorageRequest} (hreq : SoundRequest vars req)
    (file : Option LogStoreConfig) :
    let current := file.getD { enabled := none, perContainerMB := none, totalMB := none }
    (resolveLogStore vars (some (req.mutate current))).perContainerMB =
        req.perContainerMB.getD (resolveLogStore vars file).perContainerMB ∧
      (resolveLogStore vars (some (req.mutate current))).totalMB =
        req.totalMB.getD (resolveLogStore vars file).totalMB := by
  intro current
  have hper : current.perContainerMB = file.bind LogStoreConfig.perContainerMB := by
    cases file <;> rfl
  have htotal : current.totalMB = file.bind LogStoreConfig.totalMB := by
    cases file <;> rfl
  constructor
  · calc (resolveLogStore vars (some (req.mutate current))).perContainerMB
        = resolveMB vars.perContainerMB (req.perContainerMB.or current.perContainerMB)
            defaultLogStorePerContainerMB := rfl
      _ = req.perContainerMB.getD (resolveMB vars.perContainerMB current.perContainerMB
            defaultLogStorePerContainerMB) :=
          resolveMB_or fun cap hcap => ⟨(hreq.perContainerMB cap hcap).1, (hreq.perContainerMB cap hcap).2.1⟩
      _ = req.perContainerMB.getD (resolveLogStore vars file).perContainerMB := by rw [hper]; rfl
  · calc (resolveLogStore vars (some (req.mutate current))).totalMB
        = resolveMB vars.totalMB (req.totalMB.or current.totalMB) defaultLogStoreTotalMB := rfl
      _ = req.totalMB.getD (resolveMB vars.totalMB current.totalMB defaultLogStoreTotalMB) :=
          resolveMB_or fun cap hcap => ⟨(hreq.totalMB cap hcap).1, (hreq.totalMB cap hcap).2.1⟩
      _ = req.totalMB.getD (resolveLogStore vars file).totalMB := by rw [htotal]; rfl

/-- what is stored after the update of a request -/
theorem step_logStore (env : Env) {m : Manager} (hm : m.WellFormed) (vars : LogStoreVars) (req : LogStorageRequest)
    (w : World) :
    (m.step env ((updateLogStorage vars).op req, w)).fileConfig.logStore =
      if w.persists then
        some (req.mutate (m.fileConfig.logStore.getD { enabled := none, perContainerMB := none, totalMB := none }))
      else m.fileConfig.logStore := by
  have hspec : Transacts env w false m (outcome env w m.fileConfig ((updateLogStorage vars).op req))
      (m.update env w ((updateLogStorage vars).op req)) := updateLogStore_spec hm _
  obtain ⟨-, hspec⟩ := hspec
  rw [outcome_applied rfl rfl] at hspec
  by_cases hw : w.persists = true
  · rw [if_pos hw] at hspec ⊢
    exact congrArg FileConfig.logStore hspec.2.fileConfig
  · rw [if_neg hw] at hspec ⊢
    exact congrArg FileConfig.logStore hspec.2.fileConfig

theorem read_manager {σ ρ : Type} (handler : Handler σ ρ) (s : Requests ρ) (submitted : σ) :
    (handler.read s submitted).manager = s.manager := by
  unfold Handler.read
  cases handler.accept s.manager submitted <;> rfl

section
variable {vars : LogStoreVars} (env : Env) {s : Requests LogStorageRequest}

/-- the caps that the update of a request leaves, if it is written -/
theorem update_caps (hi : Handler.Inv (SoundRequest vars) s) {id : ℕ} {req : LogStorageRequest}
    (hreq : s.pending id = some req) {w : World} (hw : w.persists = true) :
    let before := resolveLogStore vars s.manager.fileConfig.logStore
    let after := resolveLogStore vars ((updateLogStorage vars).act env s (.update id w)).manager.fileConfig.logStore
    after.perContainerMB = req.perContainerMB.getD before.perContainerMB ∧
      after.totalMB = req.totalMB.getD before.totalMB := by
  have hstored := step_logStore env hi.wellFormed vars req w
  rw [if_pos hw] at hstored
  intro before after
  have hafter : after = resolveLogStore vars (some (req.mutate
      (s.manager.fileConfig.logStore.getD { enabled := none, perContainerMB := none, totalMB := none }))) := by
    simp only [after, Handler.act, Handler.update_pending hreq, hstored]
  rw [hafter]
  exact resolveLogStore_mutate (hi.pending id req hreq) s.manager.fileConfig.logStore

/-- an act that is not a written update leaves the caps alone -/
theorem act_caps (hi : Handler.Inv (SoundRequest vars) s) (a : RequestAct LogStorageRequest) :
    resolveLogStore vars ((updateLogStorage vars).act env s a).manager.fileConfig.logStore =
        resolveLogStore vars s.manager.fileConfig.logStore ∨
      ∃ id w req, a = .update id w ∧ s.pending id = some req ∧ w.persists = true := by
  cases a with
  | read submitted =>
    refine .inl ?_
    change resolveLogStore vars ((updateLogStorage vars).read s submitted).manager.fileConfig.logStore = _
    rw [read_manager]
  | update id w =>
    cases hreq : s.pending id with
    | none =>
      refine .inl ?_
      simp only [Handler.act, Handler.update, hreq]
    | some req =>
      by_cases hw : w.persists = true
      · exact .inr ⟨id, w, req, rfl, hreq, hw⟩
      · refine .inl ?_
        have hstored := step_logStore env hi.wellFormed vars req w
        rw [if_neg hw] at hstored
        simp only [Handler.act, Handler.update_pending hreq, hstored]

theorem act_capsValid (hi : Handler.Inv (SoundRequest vars) s) (hv : CapsValid vars s)
    {a : RequestAct LogStorageRequest} (ha : FitsCaps vars s a) :
    CapsValid vars ((updateLogStorage vars).act env s a) := by
  rcases act_caps env hi a with hsame | ⟨id, w, req, rfl, hreq, hw⟩
  · unfold CapsValid
    rw [hsame]
    exact hv
  · obtain ⟨hper, htotal⟩ := update_caps env hi hreq hw
    obtain ⟨hone, hle, hmax⟩ := hv
    obtain ⟨hfitper, hfittotal⟩ := ha req hreq hw
    have hsound := hi.pending id req hreq
    cases hp : req.perContainerMB with
    | none =>
      rw [hp, Option.getD_none] at hper
      cases ht : req.totalMB with
      | none =>
        rw [ht, Option.getD_none] at htotal
        exact ⟨by omega, by omega, by omega⟩
      | some cap =>
        rw [ht, Option.getD_some] at htotal
        have hcap := (hsound.totalMB cap ht).2
        have hfit := hfittotal cap ht hp
        exact ⟨by omega, by omega, by omega⟩
    | some perCap =>
      rw [hp, Option.getD_some] at hper
      have hperCap := (hsound.perContainerMB perCap hp).2
      cases ht : req.totalMB with
      | none =>
        rw [ht, Option.getD_none] at htotal
        have hfit := hfitper perCap hp ht
        exact ⟨by omega, by omega, by omega⟩
      | some cap =>
        rw [ht, Option.getD_some] at htotal
        have hcap := (hsound.totalMB cap ht).2
        have hboth := hsound.both perCap cap hp ht
        exact ⟨by omega, by omega, by omega⟩

theorem act_capsInvalid (hi : Handler.Inv (SoundRequest vars) s) {a : RequestAct LogStorageRequest}
    (ha : ¬ FitsCaps vars s a) : ¬ CapsValid vars ((updateLogStorage vars).act env s a) := by
  cases a with
  | read submitted => exact absurd trivial ha
  | update id w =>
    simp only [FitsCaps] at ha
    push Not at ha
    obtain ⟨req, hreq, hw, ha⟩ := ha
    obtain ⟨hper, htotal⟩ := update_caps env hi hreq hw
    rintro ⟨-, hle, -⟩
    by_cases hfit : ∀ cap, req.perContainerMB = some cap → req.totalMB = none →
        cap ≤ (resolveLogStore vars s.manager.fileConfig.logStore).totalMB
    · obtain ⟨cap, hcap, hnone, hlt⟩ := ha hfit
      rw [hnone, Option.getD_none] at hper
      rw [hcap, Option.getD_some] at htotal
      omega
    · push Not at hfit
      obtain ⟨cap, hcap, hnone, hlt⟩ := hfit
      rw [hcap, Option.getD_some] at hper
      rw [hnone, Option.getD_none] at htotal
      omega

end

/-- **Caps under concurrent requests.** From a valid configuration the effective caps are valid after every step exactly
in the runs in which every update that is written still fits the cap it does not provide. -/
theorem caps_valid_iff (vars : LogStoreVars) (env : Env) (w : World) (newChannelID : String) (disk : FileConfig)
    (hvalid : CapsValid vars (Handler.start (newManager env w newChannelID disk)))
    (acts : List (RequestAct LogStorageRequest)) :
    Machine.Always ((updateLogStorage vars).act env) (CapsValid vars)
        (Handler.start (newManager env w newChannelID disk)) acts ↔
      Machine.Each ((updateLogStorage vars).act env) (FitsCaps vars)
        (Handler.start (newManager env w newChannelID disk)) acts := by
  have hstart : Handler.Inv (SoundRequest vars) (Handler.start (newManager env w newChannelID disk)) :=
    Handler.start_inv (newManager_wellFormed ..)
  have hstep : ∀ s a, Handler.Inv (SoundRequest vars) s ∧ CapsValid vars s → FitsCaps vars s a →
      Handler.Inv (SoundRequest vars) ((updateLogStorage vars).act env s a) ∧
        CapsValid vars ((updateLogStorage vars).act env s a) := by
    intro s a hs ha
    exact ⟨Handler.act_inv (fun _ _ _ => updateLogStorage_accept) hs.1 a, act_capsValid env hs.1 hs.2 ha⟩
  exact Machine.always_iff_each (fun s hs => hs.2) hstep (fun s a hs => act_capsInvalid env hs.1) ⟨hstart, hvalid⟩

/-- no variable of the log store is set -/
def noVars : LogStoreVars := { enabled := "", perContainerMB := "", totalMB := "" }

theorem start_capsValid : CapsValid noVars (Handler.start (newManager noEnv writable "" noFile)) :=
  ⟨by decide, by decide, by decide⟩

/-- one request that lowers the total -/
theorem caps_valid_lowered :
    Machine.Always ((updateLogStorage noVars).act noEnv) (CapsValid noVars)
      (Handler.start (newManager noEnv writable "" noFile))
      [.read { enabled := none, perContainerMB := none, totalMB := some 256 }, .update 0 writable] := by
  refine (caps_valid_iff noVars noEnv writable "" noFile start_capsValid _).2 ⟨trivial, ?_, trivial⟩
  intro req hreq _
  cases hreq
  refine ⟨nofun, ?_⟩
  intro cap hcap _
  cases hcap
  decide

/-- **Two requests that do not fit together.** One raises the cap per container to 1000 MB, the other lowers the total
to 100 MB; each is valid against the defaults, 50 MB and 1024 MB, that both of them read. -/
theorem caps_race :
    ¬ ∀ (vars : LogStoreVars) (env : Env) (w : World) (newChannelID : String) (disk : FileConfig)
      (acts : List (RequestAct LogStorageRequest)),
      CapsValid vars (Handler.start (newManager env w newChannelID disk)) →
      Machine.Always ((updateLogStorage vars).act env) (CapsValid vars)
        (Handler.start (newManager env w newChannelID disk)) acts := by
  intro h
  have halways := h noVars noEnv writable "" noFile
    [.read { enabled := none, perContainerMB := some 1000, totalMB := none },
      .read { enabled := none, perContainerMB := none, totalMB := some 100 },
      .update 0 writable, .update 1 writable] start_capsValid
  have hle := halways.last.le_total
  revert hle
  decide

/-! ## Coolify hosts -/

def secretMask : String := "••••••••"

structure CoolifyEntry where
  hostName : String
  apiURL : String
  apiToken : String
deriving DecidableEq, Repr

/-- `hostNameRegex` -/
def isHostName (name : String) : Bool :=
  match name.toList with
  | [] => false
  | c :: cs => c.isAlphanum && cs.all fun c => c.isAlphanum || c = '_' || c = '-'

def isValidCoolifyURL (raw : String) : Bool :=
  "https://".toList.isPrefixOf raw.toList || "http://".toList.isPrefixOf raw.toList

/-- `strings.TrimRight(url, "/")` -/
def trimSlashes (url : String) : String := String.ofList (url.toList.reverse.dropWhile (· = '/')).reverse

def addToken (tokens : String → Option String) (ch : CoolifyHostConfig) : String → Option String :=
  Function.update tokens ch.hostName (some ch.apiToken)

/-- the stored tokens by host name: `existingMap` -/
def tokenMap (hosts : List CoolifyHostConfig) : String → Option String := hosts.foldl addToken fun _ => none

/-- one entry of the request; the error is the message -/
def resolveEntry (existing : String → Option String) (seen : List String) (h : CoolifyEntry) :
    Except String CoolifyHostConfig :=
  if h.hostName = "" ∨ h.apiURL = "" ∨ h.apiToken = "" then
    .error "hostName, apiURL, and apiToken are required for each entry"
  else if isHostName h.hostName = false then .error ("invalid host name: " ++ GoQuote.quote h.hostName)
  else if isValidCoolifyURL h.apiURL = false then
    .error ("invalid API URL: " ++ GoQuote.quote h.apiURL ++ " (must start with http:// or https://)")
  else if h.hostName ∈ seen then .error ("duplicate host name: " ++ GoQuote.quote h.hostName)
  else if h.apiToken = secretMask then
    match existing h.hostName with
    | some stored => .ok { hostName := h.hostName, apiURL := trimSlashes h.apiURL, apiToken := stored }
    | none => .error ("no existing token for host " ++ GoQuote.quote h.hostName ++ "; provide the actual token")
  else .ok { hostName := h.hostName, apiURL := trimSlashes h.apiURL, apiToken := h.apiToken }

def resolveHosts (existing : String → Option String) :
    List String → List CoolifyEntry → Except String (List CoolifyHostConfig)
  | _, [] => .ok []
  | seen, h :: hs =>
    match resolveEntry existing seen h with
    | .error message => .error message
    | .ok host =>
      match resolveHosts existing (h.hostName :: seen) hs with
      | .error message => .error message
      | .ok hosts => .ok (host :: hosts)

/-- a request that has been read: what was submitted, the stored tokens it found, and the hosts it will store -/
structure CoolifyRequest where
  submitted : List CoolifyEntry
  existing : String → Option String
  hosts : List CoolifyHostConfig

/-- `UpdateCoolifyHosts` -/
def updateCoolifyHosts : Handler (List CoolifyEntry) CoolifyRequest where
  accept := fun m submitted =>
    let existing := tokenMap m.fileConfig.coolifyHosts
    match resolveHosts existing [] submitted with
    | .error _ => none
    | .ok hosts => some { submitted := submitted, existing := existing, hosts := hosts }
  op := fun r => .coolifyHosts r.hosts

/-- the token stored for a host -/
def storedToken (s : Requests CoolifyRequest) (hostName : String) : Option String :=
  tokenMap s.manager.fileConfig.coolifyHosts hostName

/-- an update leaves the stored token of every host whose token was submitted masked as it was just before it -/
def MaskKept (env : Env) (s : Requests CoolifyRequest) : RequestAct (List CoolifyEntry) → Prop
  | .read _ => True
  | .update id w => ∀ r, s.pending id = some r → ∀ h ∈ r.submitted, h.apiToken = secretMask →
    storedToken (updateCoolifyHosts.act env s (.update id w)) h.hostName = storedToken s h.hostName

/-- an update that is made finds the tokens stored that its request found for the masked ones -/
def TokenUnchanged (env : Env) (s : Requests CoolifyRequest) : RequestAct (List CoolifyEntry) → Prop
  | .read _ => True
  | .update id w => ∀ r, s.pending id = some r → w.persists = true → (updateCoolifyHosts.op r).pinned env = none →
    ∀ h ∈ r.submitted, h.apiToken = secretMask → storedToken s h.hostName = r.existing h.hostName

def Resolved (r : CoolifyRequest) : Prop := resolveHosts r.existing [] r.submitted = .ok r.hosts

theorem updateCoolifyHosts_accept {m : Manager} {submitted : List CoolifyEntry} {r : CoolifyRequest}
    (h : updateCoolifyHosts.accept m submitted = some r) : Resolved r := by
  simp only [updateCoolifyHosts] at h
  cases hres : resolveHosts (tokenMap m.fileConfig.coolifyHosts) [] submitted with
  | error message =>
    rw [hres] at h
    cases h
  | ok hosts =>
    rw [hres] at h
    cases h
    exact hres

/-- an entry is stored under its own name, which was not seen before, and with the token found if it was masked -/
theorem resolveEntry_ok {existing : String → Option String} {seen : List String} {h : CoolifyEntry}
    {host : CoolifyHostConfig} (hok : resolveEntry existing seen h = .ok host) :
    host.hostName = h.hostName ∧ h.hostName ∉ seen ∧
      (h.apiToken = secretMask → existing h.hostName = some host.apiToken) := by
  unfold resolveEntry at hok
  split_ifs at hok with h1 h2 h3 h4 h5
  · cases hex : existing h.hostName with
    | none =>
      rw [hex] at hok
      cases hok
    | some stored =>
      rw [hex] at hok
      cases hok
      exact ⟨rfl, h4, fun _ => rfl⟩
  · cases hok
    exact ⟨rfl, h4, fun hmask => absurd hmask h5⟩

theorem resolveHosts_cons {existing : String → Option String} {seen : List String} {h : CoolifyEntry}
    {hs : List CoolifyEntry} {hosts : List CoolifyHostConfig}
    (hok : resolveHosts existing seen (h :: hs) = .ok hosts) :
    ∃ host hosts', hosts = host :: hosts' ∧ resolveEntry existing seen h = .ok host ∧
      resolveHosts existing (h.hostName :: seen) hs = .ok hosts' := by
  rw [resolveHosts] at hok
  cases hentry : resolveEntry existing seen h with
  | error message =>
    rw [hentry] at hok
    cases hok
  | ok host =>
    cases hrest : resolveHosts existing (h.hostName :: seen) hs with
    | error message =>
      rw [hentry] at hok
      simp only [hrest] at hok
      cases hok
    | ok hosts' =>
      rw [hentry] at hok
      simp only [hrest] at hok
      cases hok
      exact ⟨host, hosts', rfl, rfl, rfl⟩

/-- the names stored are new -/
theorem resolveHosts_seen {existing : String → Option String} {seen : List String} {submitted : List CoolifyEntry}
    {hosts : List CoolifyHostConfig} (hok : resolveHosts existing seen submitted = .ok hosts) {name : String}
    (hname : name ∈ seen) : ∀ host ∈ hosts, host.hostName ≠ name := by
  induction submitted generalizing seen hosts with
  | nil =>
    cases hok
    exact nofun
  | cons h hs ih =>
    obtain ⟨host, hosts', rfl, hentry, hrest⟩ := resolveHosts_cons hok
    obtain ⟨hhost, hnew, -⟩ := resolveEntry_ok hentry
    intro host' hmem
    rcases List.mem_cons.mp hmem with rfl | hmem
    · rintro rfl
      exact hnew (hhost ▸ hname)
    · exact ih hrest (List.mem_cons_of_mem _ hname) host' hmem

theorem foldl_tokens_of_ne {hosts : List CoolifyHostConfig} {name : String}
    (h : ∀ host ∈ hosts, host.hostName ≠ name) (tokens : String → Option String) :
    hosts.foldl addToken tokens name = tokens name := by
  induction hosts generalizing tokens with
  | nil => rfl
  | cons host hosts ih =>
    have hne := h host List.mem_cons_self
    calc (host :: hosts).foldl addToken tokens name
        = addToken tokens host name := ih (fun host' hmem => h host' (List.mem_cons_of_mem _ hmem)) _
      _ = tokens name := Function.update_of_ne (Ne.symm hne) _ _

/-- the hosts of a request hold, under a masked name, the token it found -/
theorem resolveHosts_token {existing : String → Option String} {seen : List String} {submitted : List CoolifyEntry}
    {hosts : List CoolifyHostConfig} (hok : resolveHosts existing seen submitted = .ok hosts) {h : CoolifyEntry}
    (hmem : h ∈ submitted) (hmask : h.apiToken = secretMask) (tokens : String → Option String) :
    hosts.foldl addToken tokens h.hostName = existing h.hostName := by
  induction submitted generalizing seen hosts tokens with
  | nil => cases hmem
  | cons h' hs ih =>
    obtain ⟨host, hosts', rfl, hentry, hrest⟩ := resolveHosts_cons hok
    rcases List.mem_cons.mp hmem with rfl | hmem
    · obtain ⟨hhost, -, htoken⟩ := resolveEntry_ok hentry
      have hne := resolveHosts_seen hrest (List.mem_cons_self (a := h.hostName))
      rw [List.foldl_cons, foldl_tokens_of_ne hne, addToken, hhost, Function.update_self, htoken hmask]
    · exact ih hrest hmem _

/-- the Coolify hosts stored after the update of a request -/
theorem step_coolifyHosts (env : Env) {m : Manager} (hm : m.WellFormed) (r : CoolifyRequest) (w : World) :
    (m.step env (updateCoolifyHosts.op r, w)).fileConfig.coolifyHosts =
      if w.persists = true ∧ (updateCoolifyHosts.op r).pinned env = none then r.hosts
      else m.fileConfig.coolifyHosts := by
  have hspec : Transacts env w true m (outcome env w m.fileConfig (updateCoolifyHosts.op r))
      (m.update env w (updateCoolifyHosts.op r)) := updateCoolifyHosts_spec hm r.hosts
  obtain ⟨-, hspec⟩ := hspec
  cases hpin : (updateCoolifyHosts.op r).pinned env with
  | some e =>
    rw [outcome_pinned hpin] at hspec
    rw [if_neg (by rintro ⟨-, ⟨⟩⟩)]
    exact congrArg FileConfig.coolifyHosts hspec.2.fileConfig
  | none =>
    rw [outcome_applied hpin rfl] at hspec
    by_cases hw : w.persists = true
    · rw [if_pos hw] at hspec
      rw [if_pos ⟨hw, rfl⟩]
      exact congrArg FileConfig.coolifyHosts hspec.2.fileConfig
    · rw [if_neg hw] at hspec
      rw [if_neg fun h => hw h.1]
      exact congrArg FileConfig.coolifyHosts hspec.2.fileConfig

theorem maskKept_iff (env : Env) {s : Requests CoolifyRequest} (hi : Handler.Inv Resolved s)
    (a : RequestAct (List CoolifyEntry)) : MaskKept env s a ↔ TokenUnchanged env s a := by
  cases a with
  | read submitted => exact Iff.rfl
  | update id w =>
    have hafter : ∀ r, s.pending id = some r → ∀ name,
        storedToken (updateCoolifyHosts.act env s (.update id w)) name =
          tokenMap (if w.persists = true ∧ (updateCoolifyHosts.op r).pinned env = none then r.hosts
            else s.manager.fileConfig.coolifyHosts) name := by
      intro r hr name
      simp only [storedToken, Handler.act, Handler.update_pending hr, step_coolifyHosts env hi.wellFormed]
    constructor
    · intro h r hr hw hpin e he hmask
      have hkept := h r hr e he hmask
      rw [hafter r hr, if_pos ⟨hw, hpin⟩] at hkept
      exact hkept.symm.trans (resolveHosts_token (hi.pending id r hr) he hmask _)
    · intro h r hr e he hmask
      rw [hafter r hr]
      by_cases hmade : w.persists = true ∧ (updateCoolifyHosts.op r).pinned env = none
      · rw [if_pos hmade, h r hr hmade.1 hmade.2 e he hmask]
        exact resolveHosts_token (hi.pending id r hr) he hmask _
      · rw [if_neg hmade]
        rfl

/-- **Masked tokens.** A request leaves the tokens it submitted masked as they were just before its update, in every
step of a run, exactly when every update that is made still meets the tokens that its request found. -/
theorem masked_token_iff (env : Env) (w : World) (newChannelID : String) (disk : FileConfig)
    (acts : List (RequestAct (List CoolifyEntry))) :
    Machine.Each (updateCoolifyHosts.act env) (MaskKept env) (Handler.start (newManager env w newChannelID disk))
        acts ↔
      Machine.Each (updateCoolifyHosts.act env) (TokenUnchanged env)
        (Handler.start (newManager env w newChannelID disk)) acts :=
  Machine.each_iff (fun _ a hi => Handler.act_inv (fun _ _ _ => updateCoolifyHosts_accept) hi a)
    (fun _ a hi => maskKept_iff env hi a) (Handler.start_inv (newManager_wellFormed ..))

/-- a file with one Coolify host -/
def oneCoolifyHost : FileConfig :=
  { noFile with coolifyHosts := [{ hostName := "a", apiURL := "http://a", apiToken := "old" }] }

/-- **A rotation undone.** A request with the mask reads the old token, another one stores a new token, and the first
one stores the old token again. -/
theorem token_race :
    ¬ ∀ (env : Env) (w : World) (newChannelID : String) (disk : FileConfig)
      (acts : List (RequestAct (List CoolifyEntry))),
      Machine.Each (updateCoolifyHosts.act env) (MaskKept env) (Handler.start (newManager env w newChannelID disk))
        acts := by
  intro h
  obtain ⟨-, -, -, hlast, -⟩ := h noEnv writable "" oneCoolifyHost
    [.read [{ hostName := "a", apiURL := "http://a", apiToken := secretMask }],
      .read [{ hostName := "a", apiURL := "http://a", apiToken := "new" }],
      .update 1 writable, .update 0 writable]
  have hkept := hlast _ rfl _ List.mem_cons_self rfl
  revert hkept
  decide

end LogDeck.Config
