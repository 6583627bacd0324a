/-
The life of an API token (`api/settings_apitokens.go`, `auth/apitoken.go`).

A token is shown once, when it is created; the configuration file holds its hash and the twelve characters it is
displayed by. `Ledger` is what the handlers are for: the tokens that were issued and are not revoked. The handlers work
on copies of slices that the configuration manager hands them, the file can fail to be written, and the process can be
started again from what is on disk.

SHA-256 is a parameter. Where two tokens must not be taken for each other, that their hashes differ is a hypothesis on
the tokens in play.

Results:
- `createAPIToken_spec`, `deleteAPIToken_spec`: the two mutate functions as list operations;
- `step_holds`: what one action does to the stored tokens is what the ledger says;
- `tokens_refine`: after every run a token opens what the ledger says, and nothing when it is not in the ledger;
- `step_bounded`: there are never more tokens than the limit, and no two of one name.
-/
import LogDeck.Lib.Base64
import LogDeck.Lib.Machine
import LogDeck.Models.Logs
import LogDeck.Config.Transactions
import LogDeck.Api.Access

namespace LogDeck.Api

open LogDeck.Config GoSlice
open LogDeck.Models (trimSpace)

def maxAPITokens : ℕ := 20

def maxAPITokenNameLen : ℕ := 64

def APITokenDisplayLen : ℕ := 12

def errTokenLimit : String := "maximum of " ++ toString maxAPITokens ++ " API tokens reached"

def errTokenNameTaken : String := "a token with this name already exists"

def errTokenNotFound : String := "API token not found"

/-! ## Handlers -/

structure TokenRequest where
  name : String
  scope : String
deriving DecidableEq, Repr

/-- the token made of 32 random bytes -/
def generatedToken (random : List UInt8) : String := APITokenPrefix ++ String.ofList (Base64.encode random)

def displayPrefix (token : String) : String := String.ofList (token.toList.take APITokenDisplayLen)

/-- name and scope of a request as they are stored, or the text of the refusal -/
def checkTokenRequest (req : TokenRequest) : Except String (String × String) :=
  let name := trimSpace req.name
  if name = "" then .error "name is required"
  else if name.utf8ByteSize > maxAPITokenNameLen then
    .error ("name must be at most " ++ toString maxAPITokenNameLen ++ " characters")
  else
    let scope := if req.scope = "" then APITokenScopeAdmin else req.scope
    if scope ≠ APITokenScopeAdmin ∧ scope ≠ APITokenScopeRead then .error "scope must be \"admin\" or \"read\""
    else .ok (name, scope)

/-- a token that was made, with what the request asked for -/
structure Issued where
  token : String
  name : String
  scope : String
  createdAt : String
deriving DecidableEq, Repr

/-- what is kept of it -/
def Issued.stored (hash : String → String) (i : Issued) : APIToken :=
  { name := i.name, hash := hash i.token, tokenPrefix := displayPrefix i.token, createdAt := i.createdAt,
    scope := i.scope }

/-- `CreateAPIToken` up to the update; no random bytes when they cannot be read -/
def newToken (req : TokenRequest) (random : Option (List UInt8)) (createdAt : String) : Except (ℕ × String) Issued :=
  match checkTokenRequest req with
  | .error text => .error (400, text)
  | .ok (name, scope) =>
    match random with
    | none => .error (500, "failed to generate token")
    | some random => .ok { token := generatedToken random, name, scope, createdAt }

/-- why a token of this name is not added to the stored ones -/
def createRefusal (name : String) (current : List APIToken) : Option String :=
  if current.length ≥ maxAPITokens then some errTokenLimit
  else if ∃ t ∈ current, t.name = name then some errTokenNameTaken
  else none

def createMutate (stored : APIToken) (current : List APIToken) : List (SliceStep APIToken) × Bool :=
  if (createRefusal stored.name current).isSome then ([], false) else ([.append stored 0], true)

def deleteMutate (displayed : String) (current : List APIToken) : List (SliceStep APIToken) × Bool :=
  let steps := keepInPlace (fun t => t.tokenPrefix ≠ displayed) current
  (steps, (current.filter fun t => t.tokenPrefix ≠ displayed).length ≠ current.length)

/-- `lookupAPIToken` over a snapshot: the last stored token with the hash -/
def lookupAPIToken (hash : String → String) (tokens : List APIToken) (token : String) : Option (String × String) :=
  tokens.foldl (fun found t => if hash token = t.hash then some (t.name, t.scope) else found) none

inductive TokenResponse where
  /-- the token is shown -/
  | created (token name displayed scope : String)
  | revoked
  | refused (status : ℕ) (text : Option String)
deriving DecidableEq, Repr

section
variable (hash : String → String) (env : Env)

/-- the update of `CreateAPIToken` and its answer -/
def storeToken (m : Manager) (i : Issued) (w : World) : Manager × TokenResponse :=
  match m.update env w (.apiTokens (createMutate (i.stored hash))) with
  | (m', none) => (m', .created i.token i.name (displayPrefix i.token) i.scope)
  | (m', some .mutate) => (m', .refused 400 (createRefusal i.name m.fileConfig.apiTokens))
  | (m', some e) => (m', .refused 500 e.text)

def createAPIToken (m : Manager) (req : TokenRequest) (random : Option (List UInt8)) (createdAt : String) (w : World) :
    Manager × TokenResponse :=
  match newToken req random createdAt with
  | .error (status, text) => (m, .refused status (some text))
  | .ok i => storeToken hash env m i w

/-- `DeleteAPIToken` -/
def deleteAPIToken (m : Manager) (displayed : String) (w : World) : Manager × TokenResponse :=
  match m.update env w (.apiTokens (deleteMutate displayed)) with
  | (m', none) => (m', .revoked)
  | (m', some .mutate) => (m', .refused 404 (some errTokenNotFound))
  | (m', some e) => (m', .refused 500 e.text)

end

/-! ## Mutate functions as list operations -/

theorem createAPIToken_spec (fc : FileConfig) (stored : APIToken) :
    fc.apply (.apiTokens (createMutate stored)) =
      if (createRefusal stored.name fc.apiTokens).isSome then none
      else some { fc with apiTokens := fc.apiTokens ++ [stored] } := by
  by_cases h : (createRefusal stored.name fc.apiTokens).isSome
  · simp [FileConfig.apply, createMutate, h]
  · simp [FileConfig.apply, createMutate, h, stepList]

theorem deleteAPIToken_spec (fc : FileConfig) (displayed : String) :
    fc.apply (.apiTokens (deleteMutate displayed)) =
      if ∃ t ∈ fc.apiTokens, t.tokenPrefix = displayed then
        some { fc with apiTokens := fc.apiTokens.filter fun t => t.tokenPrefix ≠ displayed }
      else none := by
  have hfound : (fc.apiTokens.filter fun t => t.tokenPrefix ≠ displayed).length ≠ fc.apiTokens.length ↔
      ∃ t ∈ fc.apiTokens, t.tokenPrefix = displayed := by
    rw [ne_eq, List.length_filter_eq_length_iff]
    simp
  by_cases h : ∃ t ∈ fc.apiTokens, t.tokenPrefix = displayed
  · simp only [FileConfig.apply, deleteMutate, hfound, h, decide_true, if_true, foldl_keepInPlace]
  · simp only [FileConfig.apply, deleteMutate, hfound, h, decide_false, Bool.false_eq_true, if_false]

/-! ## The ledger -/

/-- the tokens that were issued and are not revoked -/
abbrev Ledger := List Issued

namespace Ledger

/-- name and scope a token opens with: those of its last issue -/
def opens (l : Ledger) (token : String) : Option (String × String) :=
  ((l.filter fun i => i.token = token).getLast?).map fun i => (i.name, i.scope)

def issue (l : Ledger) (i : Issued) : Ledger :=
  if l.length < maxAPITokens ∧ ∀ j ∈ l, j.name ≠ i.name then l ++ [i] else l

def revoke (l : Ledger) (displayed : String) : Ledger := l.filter fun i => displayPrefix i.token ≠ displayed

end Ledger

/-- an update that leaves a part of the file configuration alone -/
structure OpKeeping {α : Type} (part : FileConfig → α) where
  op : UpdateOp
  keeps : ∀ fc fc' : FileConfig, fc.apply op = some fc' → part fc' = part fc

inductive TokenAct where
  | create (req : TokenRequest) (random : Option (List UInt8)) (createdAt : String) (w : World)
  | delete (displayed : String) (w : World)
  | other (o : OpKeeping FileConfig.apiTokens) (w : World)
  /-- the process ends and starts again -/
  | restart (w : World) (newChannelID : String)

def TokenAct.step (hash : String → String) (env : Env) (m : Manager) : TokenAct → Manager
  | .create req random createdAt w => (createAPIToken hash env m req random createdAt w).1
  | .delete displayed w => (deleteAPIToken env m displayed w).1
  | .other o w => m.step env (o.op, w)
  | .restart w newChannelID => newManager env w newChannelID m.disk

def Ledger.step (l : Ledger) : TokenAct → Ledger
  | .create req random createdAt w =>
    match newToken req random createdAt with
    | .ok i => if w.persists then l.issue i else l
    | .error _ => l
  | .delete displayed w => if w.persists then l.revoke displayed else l
  | .other _ _ => l
  | .restart _ _ => l

/-- the manager stores the ledger, in memory and on disk -/
structure Stores (hash : String → String) (l : Ledger) (m : Manager) : Prop where
  wellFormed : m.WellFormed
  memory : m.fileConfig.apiTokens = l.map (Issued.stored hash)
  disk : m.disk.apiTokens = l.map (Issued.stored hash)

section
variable {hash : String → String} {env : Env} {l : Ledger} {m : Manager}

theorem createRefusal_stored (name : String) (l : Ledger) :
    (createRefusal name (l.map (Issued.stored hash))).isSome = true ↔
      ¬ (l.length < maxAPITokens ∧ ∀ j ∈ l, j.name ≠ name) := by
  unfold createRefusal
  rw [List.length_map]
  by_cases hfull : l.length ≥ maxAPITokens
  · simp [hfull, Nat.not_lt.2 hfull]
  · by_cases htaken : ∃ j ∈ l, j.name = name
    · simp [hfull, Nat.not_le.1 hfull, Issued.stored, htaken]
    · simp [hfull, Nat.not_le.1 hfull, Issued.stored, htaken]

theorem revoke_stored (displayed : String) (l : Ledger) :
    (l.map (Issued.stored hash)).filter (fun t => t.tokenPrefix ≠ displayed) =
      (l.revoke displayed).map (Issued.stored hash) := by
  rw [List.filter_map]
  rfl

theorem revoke_of_absent {displayed : String} (h : ¬ ∃ t ∈ l.map (Issued.stored hash), t.tokenPrefix = displayed) :
    l.revoke displayed = l := by
  refine List.filter_eq_self.2 fun i hi => ?_
  simp only [decide_eq_true_eq]
  exact fun hd => h ⟨i.stored hash, List.mem_map_of_mem hi, hd⟩

theorem Stores.refused {m' : Manager} (h : Stores hash l m) (hwf : m'.WellFormed) (hr : Refused m m') :
    Stores hash l m' where
  wellFormed := hwf
  memory := by rw [hr.fileConfig, h.memory]
  disk := by rw [hr.disk, h.disk]

theorem Stores.committed {m' : Manager} {l' : Ledger} {w : World} {remerges : Bool} {fc : FileConfig}
    (hfc : fc.apiTokens = l'.map (Issued.stored hash)) (hwf : m'.WellFormed) (hc : Committed env w remerges fc m m') :
    Stores hash l' m' where
  wellFormed := hwf
  memory := by rw [hc.fileConfig, hfc]
  disk := by rw [hc.disk, hfc]

variable {mutate : List APIToken → List (SliceStep APIToken) × Bool}

/-- an update of the tokens whose mutate function fails -/
theorem Stores.failed (h : Stores hash l m) (env : Env) (w : World) (hm : m.fileConfig.apply (.apiTokens mutate) = none) :
    (m.update env w (.apiTokens mutate)).2 = some .mutate ∧ Stores hash l (m.update env w (.apiTokens mutate)).1 := by
  have hspec : Transacts env w false m (outcome env w m.fileConfig (.apiTokens mutate))
      (m.update env w (.apiTokens mutate)) := update_spec h.wellFormed _
  rw [outcome_failed rfl hm] at hspec
  obtain ⟨hwf, he, hr⟩ := hspec
  exact ⟨he, h.refused hwf hr⟩

/-- an update of the tokens that leaves the ledger l', when the file can be written -/
theorem Stores.applied (h : Stores hash l m) (env : Env) (w : World) {fc : FileConfig} (l' : Ledger)
    (hm : m.fileConfig.apply (.apiTokens mutate) = some fc) (hfc : fc.apiTokens = l'.map (Issued.stored hash)) :
    (m.update env w (.apiTokens mutate)).2 = (if w.persists then none else some .persist) ∧
      Stores hash (if w.persists then l' else l) (m.update env w (.apiTokens mutate)).1 := by
  have hspec : Transacts env w false m (outcome env w m.fileConfig (.apiTokens mutate))
      (m.update env w (.apiTokens mutate)) := update_spec h.wellFormed _
  rw [outcome_applied rfl hm] at hspec
  by_cases hw : w.persists = true
  · simp only [hw, if_true] at hspec ⊢
    obtain ⟨hwf, hok, hc⟩ := hspec
    exact ⟨hok, .committed hfc hwf hc⟩
  · simp only [hw, Bool.false_eq_true, if_false] at hspec ⊢
    obtain ⟨hwf, he, hr⟩ := hspec
    exact ⟨he, h.refused hwf hr⟩

/-- storing a token is an issue in the ledger, and the answer shows the token exactly when it is stored -/
theorem Stores.storeToken (h : Stores hash l m) (env : Env) (i : Issued) (w : World) :
    Stores hash (if w.persists then l.issue i else l) (storeToken hash env m i w).1 ∧
      ∀ token name displayed scope, (storeToken hash env m i w).2 = .created token name displayed scope →
        w.persists ∧ l.issue i = l ++ [i] ∧ token = i.token ∧ name = i.name ∧ scope = i.scope := by
  have happly := createAPIToken_spec m.fileConfig (i.stored hash)
  rw [h.memory, show (i.stored hash).name = i.name from rfl] at happly
  unfold LogDeck.Api.storeToken
  by_cases hfree : l.length < maxAPITokens ∧ ∀ j ∈ l, j.name ≠ i.name
  · have hissue : l.issue i = l ++ [i] := if_pos hfree
    rw [if_neg (by rw [createRefusal_stored]; exact not_not.2 hfree)] at happly
    have happlied := h.applied env w (l ++ [i]) happly (by simp)
    rw [hissue]
    generalize m.update env w (.apiTokens (createMutate (i.stored hash))) = r at happlied ⊢
    obtain ⟨m', e⟩ := r
    obtain ⟨he, hs⟩ := happlied
    by_cases hw : w.persists = true
    · simp only [hw, if_true] at he hs ⊢
      subst he
      refine ⟨hs, fun token name displayed scope hshown => ?_⟩
      obtain ⟨rfl, rfl, -, rfl⟩ := TokenResponse.created.inj hshown
      exact ⟨trivial, trivial, rfl, rfl, rfl⟩
    · simp only [hw, Bool.false_eq_true, if_false] at he hs ⊢
      subst he
      exact ⟨hs, by simp⟩
  · have hissue : l.issue i = l := if_neg hfree
    rw [if_pos (by rw [createRefusal_stored]; exact hfree)] at happly
    have hfailed := h.failed env w happly
    rw [hissue, ite_self]
    generalize m.update env w (.apiTokens (createMutate (i.stored hash))) = r at hfailed ⊢
    obtain ⟨m', e⟩ := r
    obtain ⟨he, hs⟩ := hfailed
    dsimp only at he
    subst he
    exact ⟨hs, by simp⟩

/-- revoking by the displayed prefix is a revocation in the ledger -/
theorem Stores.deleteAPIToken (h : Stores hash l m) (env : Env) (displayed : String) (w : World) :
    Stores hash (if w.persists then l.revoke displayed else l) (deleteAPIToken env m displayed w).1 ∧
      ((deleteAPIToken env m displayed w).2 = .revoked → w.persists) := by
  have happly := deleteAPIToken_spec m.fileConfig displayed
  rw [h.memory] at happly
  unfold LogDeck.Api.deleteAPIToken
  by_cases hfound : ∃ t ∈ l.map (Issued.stored hash), t.tokenPrefix = displayed
  · rw [if_pos hfound] at happly
    have happlied := h.applied env w (l.revoke displayed) happly (revoke_stored displayed l)
    generalize m.update env w (.apiTokens (deleteMutate displayed)) = r at happlied ⊢
    obtain ⟨m', e⟩ := r
    obtain ⟨he, hs⟩ := happlied
    by_cases hw : w.persists = true
    · simp only [hw, if_true] at he hs ⊢
      subst he
      exact ⟨hs, fun _ => trivial⟩
    · simp only [hw, Bool.false_eq_true, if_false] at he hs ⊢
      subst he
      exact ⟨hs, by simp⟩
  · rw [if_neg hfound] at happly
    have hfailed := h.failed env w happly
    rw [revoke_of_absent hfound, ite_self]
    generalize m.update env w (.apiTokens (deleteMutate displayed)) = r at hfailed ⊢
    obtain ⟨m', e⟩ := r
    obtain ⟨he, hs⟩ := hfailed
    dsimp only at he
    subst he
    exact ⟨hs, by simp⟩

theorem Stores.other (h : Stores hash l m) (env : Env) (o : OpKeeping FileConfig.apiTokens) (w : World) :
    Stores hash l (m.step env (o.op, w)) := by
  have hwf : (m.step env (o.op, w)).WellFormed := update_wellFormed h.wellFormed (o.op, w)
  rcases step_cases h.wellFormed (o.op, w) with hr | ⟨fc, happly, -, hc⟩
  · exact h.refused hwf hr
  · exact .committed ((o.keeps _ _ happly).trans h.memory) hwf hc

/-- a migration leaves the tokens alone -/
theorem migrated_apiTokens (newChannelID : String) (disk : FileConfig) :
    ((migrated newChannelID disk).getD disk).apiTokens = disk.apiTokens := by
  unfold migrated
  cases disk.alerts.bind (migrateAlertChannels newChannelID) with
  | none => rfl
  | some a => rfl

theorem stores_newManager {disk : FileConfig} (h : disk.apiTokens = l.map (Issued.stored hash)) (env : Env) (w : World)
    (newChannelID : String) : Stores hash l (newManager env w newChannelID disk) where
  wellFormed := newManager_wellFormed ..
  memory := by rw [newManager_fileConfig, migrated_apiTokens, h]
  disk := by
    show (if w.persists then (migrated newChannelID disk).getD disk else disk).apiTokens = _
    split
    · rw [migrated_apiTokens, h]
    · exact h

/-- **One action.** The stored tokens stay those of the ledger. -/
theorem step_holds (h : Stores hash l m) (env : Env) (a : TokenAct) : Stores hash (l.step a) (a.step hash env m) := by
  cases a with
  | create req random createdAt w =>
    simp only [TokenAct.step, Ledger.step, createAPIToken]
    cases newToken req random createdAt with
    | error e => exact h
    | ok i => exact (h.storeToken env i w).1
  | delete displayed w => exact (h.deleteAPIToken env displayed w).1
  | other o w => exact h.other env o w
  | restart w newChannelID => exact stores_newManager h.disk env w newChannelID

theorem run_holds (h : Stores hash l m) (env : Env) (acts : List TokenAct) :
    Stores hash (Machine.run Ledger.step l acts) (Machine.run (TokenAct.step hash env) m acts) := by
  induction acts generalizing l m with
  | nil => exact h
  | cons a acts ih => exact ih (step_holds h env a)

/-! ## What a token opens -/

theorem foldl_last {α β : Type} (p : α → Prop) [DecidablePred p] (f : α → β) (xs : List α) (found : Option β) :
    xs.foldl (fun found x => if p x then some (f x) else found) found =
      (((xs.filter p).getLast?).map f).or found := by
  induction xs using List.reverseRecOn with
  | nil => simp
  | append_singleton xs x ih =>
    rw [List.foldl_append, List.foldl_cons, List.foldl_nil, ih, List.filter_append]
    by_cases hx : p x
    · simp [hx]
    · simp [hx]

/-- a token whose hash is that of no other token of the ledger is found as the ledger has it -/
theorem lookupAPIToken_stored {token : String} (hhash : ∀ i ∈ l, hash i.token = hash token → i.token = token) :
    lookupAPIToken hash (l.map (Issued.stored hash)) token = l.opens token := by
  have hsame : (l.filter fun i => hash token = (i.stored hash).hash) = l.filter fun i => i.token = token := by
    refine List.filter_congr fun i hi => ?_
    have hiff : hash token = hash i.token ↔ i.token = token :=
      ⟨fun heq => hhash i hi heq.symm, fun heq => by rw [heq]⟩
    simp only [Issued.stored, hiff]
  unfold lookupAPIToken
  rw [List.foldl_map, foldl_last (fun i : Issued => hash token = (i.stored hash).hash)
    (fun i => ((i.stored hash).name, (i.stored hash).scope)), hsame, Option.or_none]
  rfl

end

/-- what the management of the tokens promises -/
structure Ledger.Bounded (l : Ledger) : Prop where
  length : l.length ≤ maxAPITokens
  names : (l.map Issued.name).Nodup
  named : ∀ i ∈ l, i.name ≠ "" ∧ i.name.utf8ByteSize ≤ maxAPITokenNameLen
  scopes : ∀ i ∈ l, i.scope = APITokenScopeAdmin ∨ i.scope = APITokenScopeRead

theorem checkTokenRequest_ok {req : TokenRequest} {name scope : String} (h : checkTokenRequest req = .ok (name, scope)) :
    name ≠ "" ∧ name.utf8ByteSize ≤ maxAPITokenNameLen ∧ (scope = APITokenScopeAdmin ∨ scope = APITokenScopeRead) := by
  unfold checkTokenRequest at h
  by_cases hempty : trimSpace req.name = ""
  · simp [hempty] at h
  by_cases hlong : (trimSpace req.name).utf8ByteSize > maxAPITokenNameLen
  · simp [hempty, hlong] at h
  simp only [hempty, hlong, if_false] at h
  generalize hasked : (if req.scope = "" then APITokenScopeAdmin else req.scope) = asked at h
  by_cases hscope : asked ≠ APITokenScopeAdmin ∧ asked ≠ APITokenScopeRead
  · simp [hscope] at h
  · simp only [hscope, if_false, Except.ok.injEq, Prod.mk.injEq] at h
    obtain ⟨hname, rfl⟩ := h
    rw [← hname]
    refine ⟨hempty, Nat.not_lt.1 hlong, ?_⟩
    rw [not_and_or, ne_eq, ne_eq, Classical.not_not, Classical.not_not] at hscope
    exact hscope

theorem newToken_ok {req : TokenRequest} {random : Option (List UInt8)} {createdAt : String} {i : Issued}
    (h : newToken req random createdAt = .ok i) :
    i.name ≠ "" ∧ i.name.utf8ByteSize ≤ maxAPITokenNameLen ∧
      (i.scope = APITokenScopeAdmin ∨ i.scope = APITokenScopeRead) := by
  unfold newToken at h
  cases hcheck : checkTokenRequest req with
  | error text => simp [hcheck] at h
  | ok asked =>
    cases random with
    | none => simp [hcheck] at h
    | some random =>
      simp only [hcheck, Except.ok.injEq] at h
      rw [← h]
      exact checkTokenRequest_ok hcheck

theorem Ledger.Bounded.issue {l : Ledger} {i : Issued} (h : l.Bounded) (hname : i.name ≠ "")
    (hlen : i.name.utf8ByteSize ≤ maxAPITokenNameLen)
    (hscope : i.scope = APITokenScopeAdmin ∨ i.scope = APITokenScopeRead) : (l.issue i).Bounded := by
  unfold Ledger.issue
  split_ifs with hfree
  · refine ⟨?_, ?_, ?_, ?_⟩
    · rw [List.length_append]
      exact hfree.1
    · rw [List.map_append, List.nodup_append]
      refine ⟨h.names, List.nodup_singleton _, fun a ha b hb => ?_⟩
      obtain ⟨j, hj, rfl⟩ := List.mem_map.1 ha
      rw [List.mem_singleton.1 hb]
      exact hfree.2 j hj
    · simpa [or_imp, forall_and] using ⟨⟨fun j hj => (h.named j hj).1, hname⟩, fun j hj => (h.named j hj).2, hlen⟩
    · intro j hj
      rcases List.mem_append.1 hj with hj | hj
      · exact h.scopes j hj
      · rw [List.mem_singleton.1 hj]
        exact hscope
  · exact h

theorem Ledger.Bounded.revoke {l : Ledger} (h : l.Bounded) (displayed : String) : (l.revoke displayed).Bounded where
  length := (List.length_filter_le _ _).trans h.length
  names := h.names.sublist (List.filter_sublist.map _)
  named := fun i hi => h.named i (List.mem_filter.1 hi).1
  scopes := fun i hi => h.scopes i (List.mem_filter.1 hi).1

theorem step_bounded {l : Ledger} (h : l.Bounded) (a : TokenAct) : (l.step a).Bounded := by
  cases a with
  | create req random createdAt w =>
    simp only [Ledger.step]
    cases hnew : newToken req random createdAt with
    | error e => exact h
    | ok i =>
      obtain ⟨hname, hlen, hscope⟩ := newToken_ok hnew
      dsimp only
      split
      · exact h.issue hname hlen hscope
      · exact h
  | delete displayed w =>
    simp only [Ledger.step]
    split
    · exact h.revoke displayed
    · exact h
  | other o w => exact h
  | restart w newChannelID => exact h

/-- **API tokens.** Whatever is created, revoked and updated, whichever writes of the file fail, and however often the
process is started again: a token opens exactly what the ledger of the issued and not revoked tokens says. In
particular a token that the answer to its request shows opens at once, with the name and the scope of the request; one
that is not in the ledger opens nothing. There are at most twenty tokens, of different names, if so in the first file. -/
theorem tokens_refine (hash : String → String) (env : Env) (w₀ : World) (newChannelID : String) (disk : FileConfig)
    (l₀ : Ledger) (hdisk : disk.apiTokens = l₀.map (Issued.stored hash)) (acts : List TokenAct) :
    let m := Machine.run (TokenAct.step hash env) (newManager env w₀ newChannelID disk) acts
    let l := Machine.run Ledger.step l₀ acts
    (∀ token, (∀ i ∈ l, hash i.token = hash token → i.token = token) →
      lookupAPIToken hash m.fileConfig.apiTokens token = l.opens token) ∧
    (∀ req random createdAt w token name displayed scope,
      (createAPIToken hash env m req random createdAt w).2 = .created token name displayed scope →
        lookupAPIToken hash (createAPIToken hash env m req random createdAt w).1.fileConfig.apiTokens token =
          some (name, scope)) ∧
    (l₀.Bounded → l.Bounded) := by
  intro m l
  have hstores : Stores hash l m := run_holds (stores_newManager hdisk env w₀ newChannelID) env acts
  refine ⟨fun token hhash => ?_, fun req random createdAt w token name displayed scope hshown => ?_, fun h₀ => ?_⟩
  · rw [hstores.memory]
    exact lookupAPIToken_stored hhash
  · unfold createAPIToken at hshown ⊢
    cases hnew : newToken req random createdAt with
    | error e => simp [hnew] at hshown
    | ok i =>
      simp only [hnew] at hshown ⊢
      obtain ⟨hs, hanswer⟩ := hstores.storeToken env i w
      obtain ⟨hw, hissue, rfl, rfl, rfl⟩ := hanswer token name displayed scope hshown
      rw [if_pos hw, hissue] at hs
      rw [hs.memory]
      unfold lookupAPIToken
      simp [Issued.stored]
  · have hstep : ∀ (l : Ledger) (a : TokenAct), l.Bounded → (l.step a).Bounded := fun l a h => step_bounded h a
    exact Machine.run_preserves hstep h₀ acts

/-- a token of 32 zero bytes, and its SHA-256 -/
def zeroToken : String := "ldk_AAAAAAAAAAAAAAAAAAAAAAAAAAAAAAAAAAAAAAAAAAA"

def zeroTokenHash (token : String) : String :=
  if token = zeroToken then "f968fce0916b217795f4a03c547460bbe671c516ff5e003ce8ff5abcb1a78d3c" else ""

/-- a token that is created before a restart opens after it -/
theorem tokens_refine_ci :
    lookupAPIToken zeroTokenHash
      (Machine.run (TokenAct.step zeroTokenHash noEnv) (newManager noEnv writable "" noFile)
        [.create { name := " ci ", scope := "read" } (some (List.replicate 32 0)) "2024-01-01T00:00:00Z" writable,
         .restart writable ""]).fileConfig.apiTokens zeroToken = some ("ci", "read") := by
  refine ((tokens_refine zeroTokenHash noEnv writable "" noFile [] rfl _).1 zeroToken ?_).trans ?_
  · decide
  · decide

end LogDeck.Api
