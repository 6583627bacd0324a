/-
The alert rules and channels as the API keeps them (`api/alerts_handlers.go`).

The handlers of rules and of channels differ in what they build of a request, in a limit and in their texts. Ids are made
of random bytes and may coincide; an update and a test take the first item of an id, a deletion all of them. A legacy
webhook of the file becomes a channel when the process starts. `url.Parse` is a parameter, and so is what the libraries
make of a pattern.

Results:
- `create_edits`, `update_edits`, `delete_edits`: the handlers as operations on the stored configuration;
- `step_edits`, `run_holds`: what one request does, and what every sequence of them keeps;
- `alerts_refine`: the stored rules and channels are what the acknowledged requests made of them;
- `alerts_usable`: the engine skips no enabled rule, and every channel has a request for every alert.
-/
import LogDeck.Lib.GoQuote
import LogDeck.Alerts.Notify
import LogDeck.Alerts.Toggle
import LogDeck.Api.Tokens

namespace LogDeck.Alerts

open LogDeck.Config GoSlice
open LogDeck.Models (trimSpace)
open LogDeck.Api (OpKeeping)

def maxAlertChannels : ℕ := 20

def maxAlertChannelNameLen : ℕ := 64

/-! ## Channels -/

structure AlertChannelRequest where
  type : String
  name : String
  enabled : Option Bool
  url : String
  token : String
  target : String
deriving Repr

def validAlertChannelTypes : List String := ["webhook", "ntfy", "gotify", "telegram"]

/-- urlParse gives the scheme and the host of an address that can be read -/
def validateHTTPURL (urlParse : String → Option (String × String)) (raw : String) : Except String Unit :=
  if raw = "" then .error "url is required"
  else
    match urlParse raw with
    | none => .error "url must be a valid http or https URL"
    | some (scheme, host) =>
      if (scheme ≠ "http" ∧ scheme ≠ "https") ∨ host = "" then .error "url must be a valid http or https URL"
      else .ok ()

/-- the channel of a request before it is checked -/
def requestedChannel (req : AlertChannelRequest) : AlertChannel :=
  { id := ""
    type := trimSpace req.type
    name := trimSpace req.name
    enabled := req.enabled.getD true
    url := trimSpace req.url
    token := trimSpace req.token
    target := trimSpace req.target }

/-- what a channel of each type must have; what it has no use for is cleared -/
def checkChannelType (urlParse : String → Option (String × String)) (ch : AlertChannel) :
    Except String AlertChannel :=
  match ch.type with
  | "webhook" | "ntfy" => do
    validateHTTPURL urlParse ch.url
    return { ch with token := "", target := "" }
  | "gotify" => do
    validateHTTPURL urlParse ch.url
    if ch.token = "" then .error "token is required for a gotify channel" else return { ch with target := "" }
  | "telegram" =>
    if ch.token = "" then .error "token is required for a telegram channel"
    else if ch.target = "" then .error "target is required for a telegram channel (the chat id)"
    else return { ch with url := "" }
  | _ => return ch

def buildAlertChannel (urlParse : String → Option (String × String)) (req : AlertChannelRequest) :
    Except String AlertChannel :=
  let ch := requestedChannel req
  if ch.type ∉ validAlertChannelTypes then
    .error ("type " ++ GoQuote.quote ch.type ++ " is invalid (must be \"webhook\", \"ntfy\", \"gotify\", or \"telegram\")")
  else if ch.name.utf8ByteSize > maxAlertChannelNameLen then
    .error ("name must be at most " ++ toString maxAlertChannelNameLen ++ " characters")
  else checkChannelType urlParse ch

/-- what delivery asks of a channel: a type that it knows, and what the requests of that type are made of -/
structure Deliverable (ch : AlertChannel) : Prop where
  type : ch.type ∈ validAlertChannelTypes
  url : ch.type ≠ "telegram" → ch.url ≠ ""
  gotify : ch.type = "gotify" → ch.token ≠ ""
  telegram : ch.type = "telegram" → ch.token ≠ "" ∧ ch.target ≠ ""

theorem validateHTTPURL_ne {urlParse : String → Option (String × String)} {raw : String}
    (h : validateHTTPURL urlParse raw = .ok ()) : raw ≠ "" := by
  unfold validateHTTPURL at h
  intro hempty
  rw [if_pos hempty] at h
  cases h

theorem checkChannelType_ok {urlParse : String → Option (String × String)} {ch ch' : AlertChannel}
    (hknown : ch.type ∈ validAlertChannelTypes) (h : checkChannelType urlParse ch = .ok ch') : Deliverable ch' := by
  unfold checkChannelType at h
  split at h
  · rename_i htype
    obtain ⟨hurl, h⟩ := check_ok h
    cases h
    refine ⟨hknown, fun _ => validateHTTPURL_ne hurl, fun hg => ?_, fun ht => ?_⟩
    · exact absurd (htype.symm.trans hg) (by decide)
    · exact absurd (htype.symm.trans ht) (by decide)
  · rename_i htype
    obtain ⟨hurl, h⟩ := check_ok h
    cases h
    refine ⟨hknown, fun _ => validateHTTPURL_ne hurl, fun hg => ?_, fun ht => ?_⟩
    · exact absurd (htype.symm.trans hg) (by decide)
    · exact absurd (htype.symm.trans ht) (by decide)
  · rename_i htype
    obtain ⟨hurl, h⟩ := check_ok h
    split_ifs at h with htoken
    cases h
    exact ⟨hknown, fun _ => validateHTTPURL_ne hurl, fun _ => htoken, fun ht => absurd (htype.symm.trans ht) (by decide)⟩
  · rename_i htype
    split_ifs at h with htoken htarget
    cases h
    refine ⟨hknown, fun hne => absurd htype hne, fun hg => ?_, fun _ => ⟨htoken, htarget⟩⟩
    exact absurd (htype.symm.trans hg) (by decide)
  · rename_i hwebhook hntfy hgotify htelegram
    exfalso
    simp only [validAlertChannelTypes, List.mem_cons, List.not_mem_nil, or_false] at hknown
    obtain hk | hk | hk | hk := hknown
    · exact hwebhook hk
    · exact hntfy hk
    · exact hgotify hk
    · exact htelegram hk

/-- **Accepted channels can be delivered to.** -/
theorem buildAlertChannel_deliverable {urlParse : String → Option (String × String)} {req : AlertChannelRequest}
    {ch : AlertChannel} (h : buildAlertChannel urlParse req = .ok ch) : Deliverable ch := by
  unfold buildAlertChannel at h
  dsimp only at h
  split_ifs at h with htype hname
  exact checkChannelType_ok htype h

theorem Deliverable.request {ch : AlertChannel} (h : Deliverable ch) (marshal : Payload → String) (alert : HistoryEntry) :
    ∃ spec, buildRequestSpec marshal ch alert = .ok spec ∧ (ch.type = "telegram" → spec.secret ≠ "") := by
  have htype := h.type
  simp only [validAlertChannelTypes, List.mem_cons, List.not_mem_nil, or_false] at htype
  unfold buildRequestSpec
  obtain hk | hk | hk | hk := htype
  · simp [hk]
  · simp [hk]
  · simp [hk]
  · simp [hk, (h.telegram hk).1]

/-! ## Handlers -/

def noAlerts : AlertsConfig := { webhookURL := "", channels := [], rules := [] }

/-- the alerting configuration of a file -/
def alertsOf (fc : FileConfig) : AlertsConfig := fc.alerts.getD noAlerts

/-- a list of the alerting configuration, and what its handlers differ in -/
structure Collection (α : Type) where
  slot : AlertsConfig → List α
  set : AlertsConfig → List α → AlertsConfig
  step : SliceStep α → AlertsStep
  id : α → String
  /-- an item with the id and the time of creation that were made for it -/
  stamp : α → String → String → α
  /-- an item in the place of another -/
  keep : α → α → α
  limit : ℕ
  errLimit : String
  errNotFound : String
  errNoID : String
  deleted : String
  change_step : ∀ a o, a.change (step o) = set a (stepList (slot a) o)
  slot_set : ∀ a xs, slot (set a xs) = xs
  set_slot : ∀ a, set a (slot a) = a
  set_set : ∀ a xs ys, set (set a xs) ys = set a ys
  webhookURL_set : ∀ a xs, (set a xs).webhookURL = a.webhookURL

def rules : Collection AlertRule where
  slot := AlertsConfig.rules
  set := fun a xs => { a with rules := xs }
  step := .rules
  id := AlertRule.id
  stamp := fun rule id createdAt => { rule with id := id, createdAt := createdAt }
  keep := fun existing rule => { rule with id := existing.id, createdAt := existing.createdAt }
  limit := maxAlertRules
  errLimit := errAlertRuleLimit
  errNotFound := errAlertRuleNotFound
  errNoID := "failed to generate rule id"
  deleted := "rule deleted"
  change_step := fun _ _ => rfl
  slot_set := fun _ _ => rfl
  set_slot := fun _ => rfl
  set_set := fun _ _ _ => rfl
  webhookURL_set := fun _ _ => rfl

def channels : Collection AlertChannel where
  slot := AlertsConfig.channels
  set := fun a xs => { a with channels := xs }
  step := .channels
  id := AlertChannel.id
  stamp := fun ch id _ => { ch with id := id }
  keep := fun existing ch => { ch with id := existing.id }
  limit := maxAlertChannels
  errLimit := "maximum of " ++ toString maxAlertChannels ++ " alert channels reached"
  errNotFound := "alert channel not found"
  errNoID := "failed to generate channel id"
  deleted := "channel deleted"
  change_step := fun _ _ => rfl
  slot_set := fun _ _ => rfl
  set_slot := fun _ => rfl
  set_set := fun _ _ _ => rfl
  webhookURL_set := fun _ _ => rfl

inductive AlertAnswer (α : Type) where
  | created (item : α)
  | updated (item : α)
  | message (text : String)
  | refused (status : ℕ) (text : Option String)
deriving DecidableEq, Repr

/-- the item of a request; none when the body cannot be decoded -/
def itemOf {Req α : Type} (build : Req → Except String α) : Option Req → Except String α
  | none => .error "invalid request body"
  | some req => build req

/-- the answer to an update: ok, or status and text when the mutate function fails -/
def answered {α : Type} (ok : AlertAnswer α) (status : ℕ) (text : String) :
    Manager × Option UpdateError → Manager × AlertAnswer α
  | (m, none) => (m, ok)
  | (m, some .mutate) => (m, .refused status (some text))
  | (m, some e) => (m, .refused 500 e.text)

namespace Collection

variable {α : Type} (C : Collection α) (env : Env)

def createMutate (item : α) (current : AlertsConfig) : List AlertsStep × Bool :=
  if (C.slot current).length ≥ C.limit then ([], false) else ([C.step (.append item 0)], true)

/-- the place of the first item of an id, and the item that comes there -/
def replaced (id : String) (item : α) (current : AlertsConfig) : Option (α × ℕ) :=
  ((C.slot current).zipIdx.find? fun x => C.id x.1 = id).map fun x => (C.keep x.1 item, x.2)

def updateMutate (id : String) (item : α) (current : AlertsConfig) : List AlertsStep × Bool :=
  match C.replaced id item current with
  | none => ([], false)
  | some (kept, i) => ([C.step (.overwrite i kept)], true)

def deleteMutate (id : String) (current : AlertsConfig) : List AlertsStep × Bool :=
  ((keepInPlace (fun x => C.id x ≠ id) (C.slot current)).map C.step,
    ((C.slot current).filter fun x => C.id x ≠ id).length ≠ (C.slot current).length)

def create (m : Manager) (built : Except String α) (id : Option String) (createdAt : String) (w : World) :
    Manager × AlertAnswer α :=
  match built with
  | .error text => (m, .refused 400 (some text))
  | .ok item =>
    match id with
    | none => (m, .refused 500 (some C.errNoID))
    | some id =>
      answered (.created (C.stamp item id createdAt)) 400 C.errLimit
        (m.update env w (.alerts (C.createMutate (C.stamp item id createdAt))))

def update (m : Manager) (id : String) (built : Except String α) (w : World) : Manager × AlertAnswer α :=
  match built with
  | .error text => (m, .refused 400 (some text))
  | .ok item =>
    -- the mutate function leaves the item with what it keeps of the one it replaces
    answered (.updated (((C.replaced id item (alertsOf m.fileConfig)).map Prod.fst).getD item)) 404 C.errNotFound
      (m.update env w (.alerts (C.updateMutate id item)))

def delete (m : Manager) (id : String) (w : World) : Manager × AlertAnswer α :=
  answered (.message C.deleted) 404 C.errNotFound (m.update env w (.alerts (C.deleteMutate id)))

end Collection

section
variable (lib : GoLib) (reason : String → String) (urlParse : String → Option (String × String)) (env : Env) (m : Manager)

def ListAlertRules : List AlertRule := rules.slot (alertsOf m.fileConfig)

def CreateAlertRule (req : Option AlertRuleRequest) (id : Option String) (now : String) (w : World) :
    Manager × AlertAnswer AlertRule :=
  rules.create env m (itemOf (buildAlertRule lib reason) req) id now w

def UpdateAlertRule (id : String) (req : Option AlertRuleRequest) (w : World) : Manager × AlertAnswer AlertRule :=
  rules.update env m id (itemOf (buildAlertRule lib reason) req) w

def DeleteAlertRule (id : String) (w : World) : Manager × AlertAnswer AlertRule := rules.delete env m id w

def ListAlertChannels : List AlertChannel := channels.slot (alertsOf m.fileConfig)

def CreateAlertChannel (req : Option AlertChannelRequest) (id : Option String) (w : World) :
    Manager × AlertAnswer AlertChannel :=
  channels.create env m (itemOf (buildAlertChannel urlParse) req) id "" w

def UpdateAlertChannel (id : String) (req : Option AlertChannelRequest) (w : World) :
    Manager × AlertAnswer AlertChannel :=
  channels.update env m id (itemOf (buildAlertChannel urlParse) req) w

def DeleteAlertChannel (id : String) (w : World) : Manager × AlertAnswer AlertChannel := channels.delete env m id w

end

/-! ## Handlers as operations on the configuration -/

/-- f for the first element with p -/
def replaceFirst {α : Type} (p : α → Bool) (f : α → α) : List α → List α
  | [] => []
  | x :: xs => if p x then f x :: xs else x :: replaceFirst p f xs

namespace Collection

variable {α : Type} (C : Collection α)

def add (item : α) (a : AlertsConfig) : AlertsConfig :=
  if (C.slot a).length < C.limit then C.set a (C.slot a ++ [item]) else a

def replace (id : String) (item : α) (a : AlertsConfig) : AlertsConfig :=
  C.set a (replaceFirst (fun x => C.id x = id) (fun x => C.keep x item) (C.slot a))

def remove (id : String) (a : AlertsConfig) : AlertsConfig := C.set a ((C.slot a).filter fun x => C.id x ≠ id)

end Collection

/-- what an update with op does to the stored configuration, in memory and on disk -/
structure Edits (op : AlertsConfig → AlertsConfig) (w : World) (m m' : Manager) : Prop where
  wellFormed : m'.WellFormed
  memory : alertsOf m'.fileConfig = if w.persists then op (alertsOf m.fileConfig) else alertsOf m.fileConfig
  disk : alertsOf m'.fileConfig = alertsOf m.fileConfig ∧ m'.disk = m.disk ∨
    alertsOf m'.disk = alertsOf m'.fileConfig

/-- what an answer says about the stored configuration -/
def AlertAnswer.Tells {α : Type} (C : Collection α) (before after : AlertsConfig) : AlertAnswer α → Prop
  | .created item => C.slot after = C.slot before ++ [item]
  | .updated item => item ∈ C.slot after
  | .message _ => (C.slot after).length < (C.slot before).length
  | .refused _ _ => after = before

section
variable {α : Type} {C : Collection α} {env : Env} {m : Manager} {op : AlertsConfig → AlertsConfig} {w : World}

theorem edits_same (hm : m.WellFormed) (hop : op (alertsOf m.fileConfig) = alertsOf m.fileConfig) :
    Edits op w m m where
  wellFormed := hm
  memory := by rw [hop, ite_self]
  disk := .inl ⟨rfl, rfl⟩

theorem edits_refused {m' : Manager} (hwf : m'.WellFormed) (hr : Refused m m')
    (hop : w.persists = true → op (alertsOf m.fileConfig) = alertsOf m.fileConfig) : Edits op w m m' where
  wellFormed := hwf
  memory := by
    rw [hr.fileConfig]
    by_cases hw : w.persists = true
    · rw [if_pos hw, hop hw]
    · rw [if_neg hw]
  disk := .inl ⟨by rw [hr.fileConfig], hr.disk⟩

/-- an update of the alerts: what its mutate function does, if it does not fail and the file can be written -/
theorem alerts_update (hm : m.WellFormed) (mutate : AlertsConfig → List AlertsStep × Bool) (w : World)
    (hop : op (alertsOf m.fileConfig) =
      if (mutate (alertsOf m.fileConfig)).2 then
        (mutate (alertsOf m.fileConfig)).1.foldl AlertsConfig.change (alertsOf m.fileConfig)
      else alertsOf m.fileConfig) :
    Edits op w m (m.update env w (.alerts mutate)).1 ∧
      (m.update env w (.alerts mutate)).2 =
        (if (mutate (alertsOf m.fileConfig)).2 = false then some .mutate
         else if w.persists then none else some .persist) := by
  have hspec : Transacts env w false m (outcome env w m.fileConfig (.alerts mutate))
      (m.update env w (.alerts mutate)) := update_spec hm _
  have happly : m.fileConfig.apply (.alerts mutate) =
      if (mutate (alertsOf m.fileConfig)).2 then
        some { m.fileConfig with
          alerts := some ((mutate (alertsOf m.fileConfig)).1.foldl AlertsConfig.change (alertsOf m.fileConfig)) }
      else none := rfl
  cases hok : (mutate (alertsOf m.fileConfig)).2 with
  | false =>
    simp only [hok, Bool.false_eq_true, if_false] at happly hop
    rw [outcome_failed rfl happly] at hspec
    obtain ⟨hwf, he, hr⟩ := hspec
    exact ⟨edits_refused hwf hr fun _ => hop, he⟩
  | true =>
    simp only [hok, if_true] at happly hop
    rw [outcome_applied rfl happly] at hspec
    by_cases hw : w.persists = true
    · simp only [hw, if_true] at hspec
      obtain ⟨hwf, he, hc⟩ := hspec
      refine ⟨⟨hwf, ?_, .inr ?_⟩, ?_⟩
      · rw [if_pos hw, hc.fileConfig, hop]
        rfl
      · rw [hc.disk, hc.fileConfig]
      · rw [he, if_neg (by decide), if_pos hw]
    · simp only [hw, Bool.false_eq_true, if_false] at hspec
      obtain ⟨hwf, he, hr⟩ := hspec
      refine ⟨edits_refused hwf hr fun h => absurd h hw, ?_⟩
      rw [he, if_neg (by decide), if_neg hw]

theorem answered_edits (hm : m.WellFormed) (mutate : AlertsConfig → List AlertsStep × Bool) (w : World)
    (ok : AlertAnswer α) (status : ℕ) (text : String)
    (hop : op (alertsOf m.fileConfig) =
      if (mutate (alertsOf m.fileConfig)).2 then
        (mutate (alertsOf m.fileConfig)).1.foldl AlertsConfig.change (alertsOf m.fileConfig)
      else alertsOf m.fileConfig)
    (hok : (mutate (alertsOf m.fileConfig)).2 = true → ok.Tells C (alertsOf m.fileConfig) (op (alertsOf m.fileConfig))) :
    let r := answered ok status text (m.update env w (.alerts mutate))
    Edits op w m r.1 ∧ r.2.Tells C (alertsOf m.fileConfig) (alertsOf r.1.fileConfig) := by
  obtain ⟨hedits, herr⟩ := @alerts_update env m op hm mutate w hop
  have hmemory := hedits.memory
  generalize m.update env w (.alerts mutate) = s at hedits herr hmemory ⊢
  obtain ⟨m', e⟩ := s
  dsimp only at hedits herr hmemory
  cases hmutate : (mutate (alertsOf m.fileConfig)).2 with
  | false =>
    rw [hmutate, if_pos rfl] at herr
    rw [hmutate, if_neg Bool.false_ne_true] at hop
    subst herr
    rw [hop, ite_self] at hmemory
    exact ⟨hedits, hmemory⟩
  | true =>
    rw [hmutate, if_neg Bool.true_eq_false.mp] at herr
    by_cases hw : w.persists = true
    · rw [if_pos hw] at herr hmemory
      subst herr
      refine ⟨hedits, ?_⟩
      rw [← hmemory] at hok
      exact hok hmutate
    · rw [if_neg hw] at herr hmemory
      subst herr
      exact ⟨hedits, hmemory⟩

theorem foldl_change (steps : List (SliceStep α)) (a : AlertsConfig) :
    (steps.map C.step).foldl AlertsConfig.change a = C.set a (steps.foldl stepList (C.slot a)) := by
  induction steps generalizing a with
  | nil => exact (C.set_slot a).symm
  | cons o steps ih =>
    rw [List.map_cons, List.foldl_cons, ih, C.change_step, C.slot_set, C.set_set]
    rfl

theorem replaceFirst_of_absent {p : α → Bool} {f : α → α} {xs : List α} (h : ∀ x ∈ xs, p x = false) :
    replaceFirst p f xs = xs := by
  induction xs with
  | nil => rfl
  | cons x xs ih =>
    simp only [replaceFirst, h x List.mem_cons_self, Bool.false_eq_true, if_false]
    rw [ih fun y hy => h y (List.mem_cons_of_mem x hy)]

/-- the loop that overwrites the first element it finds -/
theorem replaceFirst_set {p : α → Bool} {f : α → α} {xs : List α} {x : α} {n i : ℕ}
    (h : (xs.zipIdx n).find? (fun y => p y.1) = some (x, i)) :
    replaceFirst p f xs = xs.set (i - n) (f x) ∧ n ≤ i ∧ x ∈ xs ∧ p x = true := by
  induction xs generalizing n with
  | nil => simp at h
  | cons y xs ih =>
    rw [List.zipIdx_cons, List.find?_cons] at h
    cases hy : p y with
    | true =>
      simp only [hy] at h
      cases h
      simp only [replaceFirst, hy, if_true, Nat.sub_self, List.set_cons_zero, le_refl, List.mem_cons_self, and_self]
    | false =>
      simp only [hy] at h
      obtain ⟨hset, hle, hmem, hx⟩ := ih h
      have hsub : i - n = (i - (n + 1)) + 1 := by omega
      simp only [replaceFirst, hy, Bool.false_eq_true, if_false]
      rw [hsub, List.set_cons_succ, hset]
      exact ⟨rfl, by omega, List.mem_cons_of_mem y hmem, hx⟩

theorem replaced_none {id : String} {item : α} {a : AlertsConfig} (h : C.replaced id item a = none) :
    C.replace id item a = a := by
  have habsent : ∀ x ∈ C.slot a, decide (C.id x = id) = false := by
    intro x hx
    obtain ⟨i, hi⟩ := List.mem_iff_getElem?.1 hx
    have hzip : (x, i) ∈ (C.slot a).zipIdx := List.mem_zipIdx_iff_getElem?.2 hi
    unfold Collection.replaced at h
    rw [Option.map_eq_none_iff, List.find?_eq_none] at h
    simpa using h (x, i) hzip
  unfold Collection.replace
  rw [replaceFirst_of_absent habsent, C.set_slot]

theorem replaced_some {id : String} {item kept : α} {i : ℕ} {a : AlertsConfig} (h : C.replaced id item a = some (kept, i)) :
    C.replace id item a = a.change (C.step (.overwrite i kept)) ∧ kept ∈ C.slot (C.replace id item a) := by
  unfold Collection.replaced at h
  rw [Option.map_eq_some_iff] at h
  obtain ⟨⟨x, j⟩, hfind, hx⟩ := h
  obtain ⟨rfl, rfl⟩ := Prod.mk.inj hx
  have hset := (@replaceFirst_set α (fun x => C.id x = id) (fun x => C.keep x item) _ _ _ _ hfind).1
  obtain ⟨hj, -⟩ := List.getElem?_eq_some_iff.1 (List.mem_zipIdx_iff_getElem?.1 (List.mem_of_find?_eq_some hfind))
  unfold Collection.replace
  rw [C.change_step, C.slot_set, hset]
  refine ⟨rfl, ?_⟩
  exact List.mem_of_getElem? (List.getElem?_set_self hj)

/-- the item of a create request, if one can be made -/
def stamped (C : Collection α) (built : Except String α) (id : Option String) (createdAt : String) : Option α :=
  match built, id with
  | .ok item, some id => some (C.stamp item id createdAt)
  | _, _ => none

theorem create_edits (hm : m.WellFormed) (built : Except String α) (id : Option String) (createdAt : String) :
    let r := C.create env m built id createdAt w
    Edits ((stamped C built id createdAt).elim (fun a => a) C.add) w m r.1 ∧
      r.2.Tells C (alertsOf m.fileConfig) (alertsOf r.1.fileConfig) := by
  intro r
  cases built with
  | error text => exact ⟨edits_same hm rfl, rfl⟩
  | ok item =>
    cases id with
    | none => exact ⟨edits_same hm rfl, rfl⟩
    | some id =>
      refine answered_edits hm _ w _ 400 C.errLimit ?_ fun hfree => ?_
      · show C.add (C.stamp item id createdAt) (alertsOf m.fileConfig) = _
        unfold Collection.add
        by_cases hfull : (C.slot (alertsOf m.fileConfig)).length ≥ C.limit
        · have hmutate : C.createMutate (C.stamp item id createdAt) (alertsOf m.fileConfig) = ([], false) := if_pos hfull
          rw [hmutate, if_neg (Nat.not_lt.2 hfull), if_neg Bool.false_ne_true]
        · have hmutate : C.createMutate (C.stamp item id createdAt) (alertsOf m.fileConfig) =
              ([C.step (.append (C.stamp item id createdAt) 0)], true) := if_neg hfull
          rw [hmutate, if_pos (Nat.not_le.1 hfull), if_pos rfl, List.foldl_cons, List.foldl_nil, C.change_step]
          rfl
      · have hroom : (C.slot (alertsOf m.fileConfig)).length < C.limit := by
          by_contra hfull
          simp [Collection.createMutate, Nat.not_lt.1 hfull] at hfree
        simp only [stamped, Option.elim_some, Collection.add, AlertAnswer.Tells, if_pos hroom, C.slot_set]

theorem update_edits (hm : m.WellFormed) (id : String) (built : Except String α) :
    let r := C.update env m id built w
    Edits (built.toOption.elim (fun a => a) (C.replace id)) w m r.1 ∧
      r.2.Tells C (alertsOf m.fileConfig) (alertsOf r.1.fileConfig) := by
  intro r
  cases built with
  | error text => exact ⟨edits_same hm rfl, rfl⟩
  | ok item =>
    refine answered_edits hm _ w _ 404 C.errNotFound ?_ fun hfree => ?_
    · show C.replace id item (alertsOf m.fileConfig) = _
      cases hfound : C.replaced id item (alertsOf m.fileConfig) with
      | none =>
        have hmutate : C.updateMutate id item (alertsOf m.fileConfig) = ([], false) := by
          simp only [Collection.updateMutate, hfound]
        rw [hmutate, if_neg Bool.false_ne_true, replaced_none hfound]
      | some x =>
        have hmutate : C.updateMutate id item (alertsOf m.fileConfig) = ([C.step (.overwrite x.2 x.1)], true) := by
          simp only [Collection.updateMutate, hfound]
        rw [hmutate, if_pos rfl, (replaced_some hfound).1]
        rfl
    · simp only [Except.toOption, Option.elim_some]
      cases hfound : C.replaced id item (alertsOf m.fileConfig) with
      | none => simp [Collection.updateMutate, hfound] at hfree
      | some x => exact (replaced_some hfound).2

theorem delete_edits (hm : m.WellFormed) (id : String) :
    let r := C.delete env m id w
    Edits (C.remove id) w m r.1 ∧ r.2.Tells C (alertsOf m.fileConfig) (alertsOf r.1.fileConfig) := by
  intro r
  refine answered_edits hm _ w _ 404 C.errNotFound ?_ fun hfound => ?_
  · have hfold : (C.deleteMutate id (alertsOf m.fileConfig)).1.foldl AlertsConfig.change (alertsOf m.fileConfig) =
        C.remove id (alertsOf m.fileConfig) := by
      unfold Collection.deleteMutate
      rw [foldl_change, foldl_keepInPlace]
      rfl
    rw [hfold]
    split_ifs with hfound
    · rfl
    · have hlen : ((C.slot (alertsOf m.fileConfig)).filter fun x => C.id x ≠ id).length =
          (C.slot (alertsOf m.fileConfig)).length := by simpa [Collection.deleteMutate] using hfound
      unfold Collection.remove
      rw [List.filter_eq_self.2 (List.length_filter_eq_length_iff.1 hlen), C.set_slot]
  · have hlen : ((C.slot (alertsOf m.fileConfig)).filter fun x => C.id x ≠ id).length ≠
        (C.slot (alertsOf m.fileConfig)).length := by simpa [Collection.deleteMutate] using hfound
    unfold Collection.remove AlertAnswer.Tells
    rw [C.slot_set]
    exact lt_of_le_of_ne (List.length_filter_le ..) hlen

end

/-! ## Runs -/

inductive AlertAct where
  | createRule (req : Option AlertRuleRequest) (id : Option String) (now : String) (w : World)
  | updateRule (id : String) (req : Option AlertRuleRequest) (w : World)
  | deleteRule (id : String) (w : World)
  | createChannel (req : Option AlertChannelRequest) (id : Option String) (w : World)
  | updateChannel (id : String) (req : Option AlertChannelRequest) (w : World)
  | deleteChannel (id : String) (w : World)
  /-- any other update of the configuration -/
  | other (o : OpKeeping FileConfig.alerts) (w : World)
  /-- the process ends and starts again -/
  | restart (w : World) (newChannelID : String)

section
variable (lib : GoLib) (reason : String → String) (urlParse : String → Option (String × String)) (env : Env)

def AlertAct.step (m : Manager) : AlertAct → Manager
  | .createRule req id now w => (CreateAlertRule lib reason env m req id now w).1
  | .updateRule id req w => (UpdateAlertRule lib reason env m id req w).1
  | .deleteRule id w => (DeleteAlertRule env m id w).1
  | .createChannel req id w => (CreateAlertChannel urlParse env m req id w).1
  | .updateChannel id req w => (UpdateAlertChannel urlParse env m id req w).1
  | .deleteChannel id w => (DeleteAlertChannel env m id w).1
  | .other o w => m.step env (o.op, w)
  | .restart w newChannelID => newManager env w newChannelID m.disk

/-- what a request asks for -/
def AlertAct.effect : AlertAct → AlertsConfig → AlertsConfig
  | .createRule req id now _ =>
    (stamped rules (itemOf (buildAlertRule lib reason) req) id now).elim (fun a => a) rules.add
  | .updateRule id req _ => (itemOf (buildAlertRule lib reason) req).toOption.elim (fun a => a) (rules.replace id)
  | .deleteRule id _ => rules.remove id
  | .createChannel req id _ =>
    (stamped channels (itemOf (buildAlertChannel urlParse) req) id "").elim (fun a => a) channels.add
  | .updateChannel id req _ =>
    (itemOf (buildAlertChannel urlParse) req).toOption.elim (fun a => a) (channels.replace id)
  | .deleteChannel id _ => channels.remove id
  | .other _ _ => fun a => a
  | .restart _ _ => fun a => a

def AlertAct.world : AlertAct → World
  | .createRule _ _ _ w => w
  | .updateRule _ _ w => w
  | .deleteRule _ w => w
  | .createChannel _ _ w => w
  | .updateChannel _ _ w => w
  | .deleteChannel _ w => w
  | .other _ w => w
  | .restart w _ => w

/-- the configuration that the requests ask for, when their writes succeed -/
def AlertAct.book (a : AlertsConfig) (act : AlertAct) : AlertsConfig :=
  if act.world.persists then act.effect lib reason urlParse a else a

end

section
variable {lib : GoLib} {reason : String → String} {urlParse : String → Option (String × String)} {env : Env} {m : Manager}

theorem other_edits (hm : m.WellFormed) (o : OpKeeping FileConfig.alerts) (w : World) :
    Edits (fun a => a) w m (m.step env (o.op, w)) := by
  have hwf : (m.step env (o.op, w)).WellFormed := update_wellFormed hm (o.op, w)
  rcases step_cases hm (o.op, w) with hr | ⟨fc, happly, -, hc⟩
  · exact edits_refused hwf hr fun _ => rfl
  · refine ⟨hwf, ?_, .inr ?_⟩
    · rw [ite_self, hc.fileConfig, alertsOf, o.keeps _ _ happly]
      rfl
    · rw [hc.disk, hc.fileConfig]

/-- **One request.** It edits the stored configuration as it asks for, if its write succeeds. -/
theorem step_edits (hm : m.WellFormed) (act : AlertAct) (hact : ∀ w newChannelID, act ≠ .restart w newChannelID) :
    Edits (act.effect lib reason urlParse) act.world m (act.step lib reason urlParse env m) := by
  cases act with
  | createRule req id now w => exact (create_edits hm _ id now).1
  | updateRule id req w => exact (update_edits hm id _).1
  | deleteRule id w => exact (delete_edits hm id).1
  | createChannel req id w => exact (create_edits hm _ id "").1
  | updateChannel id req w => exact (update_edits hm id _).1
  | deleteChannel id w => exact (delete_edits hm id).1
  | other o w => exact other_edits hm o w
  | restart w newChannelID => exact absurd rfl (hact w newChannelID)

/-- what is stored by itself: no request touches a legacy webhook -/
theorem effect_webhookURL (act : AlertAct) (a : AlertsConfig) :
    (act.effect lib reason urlParse a).webhookURL = a.webhookURL := by
  have hadd : ∀ {α : Type} (C : Collection α) (item : Option α),
      (item.elim (fun a => a) C.add a).webhookURL = a.webhookURL := by
    intro α C item
    cases item with
    | none => rfl
    | some x =>
      simp only [Option.elim_some, Collection.add]
      split_ifs
      · exact C.webhookURL_set ..
      · rfl
  have hreplace : ∀ {α : Type} (C : Collection α) (id : String) (item : Option α),
      (item.elim (fun a => a) (C.replace id) a).webhookURL = a.webhookURL := by
    intro α C id item
    cases item with
    | none => rfl
    | some x => exact C.webhookURL_set ..
  cases act with
  | createRule req id now w => exact hadd rules _
  | updateRule id req w => exact hreplace rules id _
  | deleteRule id w => exact rules.webhookURL_set ..
  | createChannel req id w => exact hadd channels _
  | updateChannel id req w => exact hreplace channels id _
  | deleteChannel id w => exact channels.webhookURL_set ..
  | other o w => rfl
  | restart w newChannelID => rfl

theorem alertsOf_migrated (newChannelID : String) (disk : FileConfig) :
    alertsOf ((migrated newChannelID disk).getD disk) =
      (migrateAlertChannels newChannelID (alertsOf disk)).getD (alertsOf disk) := by
  unfold migrated alertsOf
  cases hdisk : disk.alerts with
  | none => simp [hdisk, noAlerts, migrateAlertChannels]
  | some a =>
    simp only [Option.bind_some, Option.getD_some]
    cases migrateAlertChannels newChannelID a with
    | none => simp [hdisk]
    | some a' => rfl

theorem migrate_webhookURL (newChannelID : String) (a : AlertsConfig) :
    ((migrateAlertChannels newChannelID a).getD a).webhookURL = "" := by
  unfold migrateAlertChannels
  split_ifs with h
  · exact h
  · rfl

/-- the disk of a process that was started -/
theorem newManager_disk (env : Env) (w : World) (newChannelID : String) (disk : FileConfig) :
    (newManager env w newChannelID disk).disk = if w.persists then (migrated newChannelID disk).getD disk else disk := rfl

/-- a property of the stored configuration, of what is in memory and of what is on disk -/
structure Holds (P : AlertsConfig → Prop) (m : Manager) : Prop where
  wellFormed : m.WellFormed
  memory : P (alertsOf m.fileConfig)
  webhookURL : (alertsOf m.fileConfig).webhookURL = ""
  disk : P (alertsOf m.disk)

variable {P : AlertsConfig → Prop}

theorem start_holds {disk : FileConfig} (hdisk : P (alertsOf disk))
    (hmigrate : ∀ newChannelID a, P a → P ((migrateAlertChannels newChannelID a).getD a)) (env : Env) (w : World)
    (newChannelID : String) : Holds P (newManager env w newChannelID disk) where
  wellFormed := newManager_wellFormed ..
  memory := by
    rw [newManager_fileConfig, alertsOf_migrated]
    exact hmigrate newChannelID _ hdisk
  webhookURL := by
    rw [newManager_fileConfig, alertsOf_migrated]
    exact migrate_webhookURL ..
  disk := by
    rw [newManager_disk]
    split_ifs
    · rw [alertsOf_migrated]
      exact hmigrate newChannelID _ hdisk
    · exact hdisk

theorem Holds.edits {op : AlertsConfig → AlertsConfig} {w : World} {m' : Manager} (h : Holds P m)
    (he : Edits op w m m') (hop : ∀ a, a.webhookURL = "" → P a → P (op a) ∧ (op a).webhookURL = "") : Holds P m' := by
  have hmemory : P (alertsOf m'.fileConfig) ∧ (alertsOf m'.fileConfig).webhookURL = "" := by
    rw [he.memory]
    split_ifs
    · exact hop _ h.webhookURL h.memory
    · exact ⟨h.memory, h.webhookURL⟩
  refine ⟨he.wellFormed, hmemory.1, hmemory.2, ?_⟩
  rcases he.disk with ⟨-, hsame⟩ | hsame
  · rw [hsame]
    exact h.disk
  · rw [hsame]
    exact hmemory.1

/-- **Invariants of the stored configuration.** What every request and the migration keep holds after every run. -/
theorem run_holds (heffect : ∀ act a, a.webhookURL = "" → P a → P (AlertAct.effect lib reason urlParse act a))
    (hmigrate : ∀ newChannelID a, P a → P ((migrateAlertChannels newChannelID a).getD a)) (h : Holds P m)
    (acts : List AlertAct) : Holds P (Machine.run (AlertAct.step lib reason urlParse env) m acts) := by
  refine Machine.run_preserves (fun m act hm => ?_) h acts
  by_cases hact : ∃ w newChannelID, act = .restart w newChannelID
  · obtain ⟨w, newChannelID, rfl⟩ := hact
    exact start_holds hm.disk hmigrate env w newChannelID
  · have hedits : Edits (act.effect lib reason urlParse) act.world m (act.step lib reason urlParse env m) :=
      step_edits hm.wellFormed act fun w newChannelID heq => hact ⟨w, newChannelID, heq⟩
    refine hm.edits hedits fun a hwebhook ha => ⟨heffect act a hwebhook ha, ?_⟩
    rw [effect_webhookURL, hwebhook]

/-- what the answer to a request says about what is stored after it -/
def AlertAct.Answered (lib : GoLib) (reason : String → String) (urlParse : String → Option (String × String)) (env : Env)
    (m : Manager) (before after : AlertsConfig) : AlertAct → Prop
  | .createRule req id now w => (CreateAlertRule lib reason env m req id now w).2.Tells rules before after
  | .updateRule id req w => (UpdateAlertRule lib reason env m id req w).2.Tells rules before after
  | .deleteRule id w => (DeleteAlertRule env m id w).2.Tells rules before after
  | .createChannel req id w => (CreateAlertChannel urlParse env m req id w).2.Tells channels before after
  | .updateChannel id req w => (UpdateAlertChannel urlParse env m id req w).2.Tells channels before after
  | .deleteChannel id w => (DeleteAlertChannel env m id w).2.Tells channels before after
  | .other _ _ => True
  | .restart _ _ => True

theorem step_answered (hm : m.WellFormed) (act : AlertAct) :
    act.Answered lib reason urlParse env m (alertsOf m.fileConfig)
      (alertsOf (act.step lib reason urlParse env m).fileConfig) := by
  cases act with
  | createRule req id now w => exact (create_edits hm _ id now).2
  | updateRule id req w => exact (update_edits hm id _).2
  | deleteRule id w => exact (delete_edits hm id).2
  | createChannel req id w => exact (create_edits hm _ id "").2
  | updateChannel id req w => exact (update_edits hm id _).2
  | deleteChannel id w => exact (delete_edits hm id).2
  | other o w => trivial
  | restart w newChannelID => trivial

/-- the stored configuration is b, in memory and on disk, and there is nothing to migrate -/
theorem step_book {b : AlertsConfig} (h : Holds (fun a => a = b) m) (act : AlertAct) :
    Holds (fun a => a = AlertAct.book lib reason urlParse b act) (act.step lib reason urlParse env m) := by
  have hb : b.webhookURL = "" := h.memory ▸ h.webhookURL
  by_cases hact : ∃ w newChannelID, act = .restart w newChannelID
  · obtain ⟨w, newChannelID, rfl⟩ := hact
    have hsame : AlertAct.book lib reason urlParse b (.restart w newChannelID) = b := ite_self _
    rw [hsame]
    refine start_holds h.disk (fun newChannelID a ha => ?_) env w newChannelID
    rw [ha, migrateAlertChannels, if_pos hb]
    rfl
  · have hedits : Edits (act.effect lib reason urlParse) act.world m (act.step lib reason urlParse env m) :=
      step_edits h.wellFormed act fun w newChannelID heq => hact ⟨w, newChannelID, heq⟩
    have hmemory : alertsOf (act.step lib reason urlParse env m).fileConfig = AlertAct.book lib reason urlParse b act := by
      rw [hedits.memory, h.memory]
      rfl
    refine ⟨hedits.wellFormed, hmemory, ?_, ?_⟩
    · rw [hedits.memory]
      split_ifs
      · rw [effect_webhookURL, h.webhookURL]
      · exact h.webhookURL
    · rcases hedits.disk with ⟨hkept, hdisk⟩ | hdisk
      · rw [hdisk, h.disk, ← hmemory, hkept, h.memory]
      · rw [hdisk, hmemory]

theorem run_book {b : AlertsConfig} (h : Holds (fun a => a = b) m) (acts : List AlertAct) :
    Holds (fun a => a = Machine.run (AlertAct.book lib reason urlParse) b acts)
      (Machine.run (AlertAct.step lib reason urlParse env) m acts) := by
  induction acts generalizing m b with
  | nil => exact h
  | cons act acts ih => exact ih (step_book h act)

/-! ## What is stored can be used -/

/-- the rules and channels of a configuration are such as the handlers accept, and there are not too many of them -/
structure Usable (lib : GoLib) (maxRules maxChannels : ℕ) (a : AlertsConfig) : Prop where
  rules : ∀ r ∈ a.rules, InLimits r ∧ (r.enabled = true → Compiles lib r)
  channels : ∀ ch ∈ a.channels, Deliverable ch
  rules_le : a.rules.length ≤ maxRules
  /-- with the channel that a legacy webhook becomes -/
  channels_le : a.channels.length + (if a.webhookURL = "" then 0 else 1) ≤ maxChannels

variable {maxRules maxChannels : ℕ}

theorem replaceFirst_mem {α : Type} {p : α → Bool} {f : α → α} {xs : List α} {y : α} (h : y ∈ replaceFirst p f xs) :
    y ∈ xs ∨ ∃ x ∈ xs, y = f x := by
  induction xs with
  | nil => exact .inl h
  | cons x xs ih =>
    unfold replaceFirst at h
    split_ifs at h with hx
    · rcases List.mem_cons.1 h with rfl | h
      · exact .inr ⟨x, List.mem_cons_self, rfl⟩
      · exact .inl (List.mem_cons_of_mem x h)
    · rcases List.mem_cons.1 h with rfl | h
      · exact .inl List.mem_cons_self
      · rcases ih h with h | ⟨z, hz, rfl⟩
        · exact .inl (List.mem_cons_of_mem x h)
        · exact .inr ⟨z, List.mem_cons_of_mem x hz, rfl⟩

theorem length_replaceFirst {α : Type} (p : α → Bool) (f : α → α) (xs : List α) :
    (replaceFirst p f xs).length = xs.length := by
  induction xs with
  | nil => rfl
  | cons x xs ih =>
    unfold replaceFirst
    split_ifs
    · rfl
    · rw [List.length_cons, List.length_cons, ih]

/-- neither the id nor the time of creation matters to the engine -/
theorem compiles_stamp {r : AlertRule} (id createdAt : String) (h : Compiles lib r) :
    Compiles lib { r with id := id, createdAt := createdAt } := by
  intro src hsrc
  obtain ⟨c, hc⟩ := h { src with id := r.id, createdAt := r.createdAt } (by simp only [hsrc])
  unfold compileRule at hc ⊢
  dsimp only at hc ⊢
  split_ifs at hc ⊢
  exact ⟨_, rfl⟩

theorem accepted_rule {req : Option AlertRuleRequest} {r : AlertRule}
    (h : itemOf (buildAlertRule lib reason) req = .ok r) (id createdAt : String) :
    InLimits { r with id := id, createdAt := createdAt } ∧
      (r.enabled = true → Compiles lib { r with id := id, createdAt := createdAt }) := by
  cases req with
  | none => cases h
  | some req =>
    obtain ⟨hthreshold, hwindow, hcooldown⟩ := buildAlertRule_limits h
    exact ⟨⟨hthreshold, hwindow, hcooldown⟩, fun hon => compiles_stamp id createdAt (buildAlertRule_compiles h hon)⟩

theorem accepted_channel {req : Option AlertChannelRequest} {ch : AlertChannel}
    (h : itemOf (buildAlertChannel urlParse) req = .ok ch) (id : String) : Deliverable { ch with id := id } := by
  cases req with
  | none => cases h
  | some req =>
    obtain ⟨htype, hurl, hgotify, htelegram⟩ := buildAlertChannel_deliverable h
    exact ⟨htype, hurl, hgotify, htelegram⟩

theorem effect_usable (hr : maxAlertRules ≤ maxRules) (hc : maxAlertChannels ≤ maxChannels) (act : AlertAct)
    (a : AlertsConfig) (hwebhook : a.webhookURL = "") (h : Usable lib maxRules maxChannels a) :
    Usable lib maxRules maxChannels (act.effect lib reason urlParse a) := by
  have hle := h.channels_le
  rw [if_pos hwebhook, add_zero] at hle
  cases act with
  | createRule req id now w =>
    simp only [AlertAct.effect]
    cases hbuilt : itemOf (buildAlertRule lib reason) req with
    | error text => exact h
    | ok r =>
      cases id with
      | none => exact h
      | some id =>
        simp only [stamped, Option.elim_some, Collection.add]
        split_ifs with hroom
        · refine ⟨fun x hx => ?_, h.channels, ?_, h.channels_le⟩
          · rcases List.mem_append.1 hx with hx | hx
            · exact h.rules x hx
            · obtain rfl := List.mem_singleton.1 hx
              exact accepted_rule hbuilt id now
          · have hlen : (a.rules ++ [rules.stamp r id now]).length = a.rules.length + 1 := List.length_append
            exact (hlen.trans_le hroom).trans hr
        · exact h
  | updateRule id req w =>
    simp only [AlertAct.effect]
    cases hbuilt : itemOf (buildAlertRule lib reason) req with
    | error text => exact h
    | ok r =>
      refine ⟨fun x hx => ?_, h.channels, ?_, h.channels_le⟩
      · rcases replaceFirst_mem hx with hx | ⟨y, -, rfl⟩
        · exact h.rules x hx
        · exact accepted_rule hbuilt y.id y.createdAt
      · exact (length_replaceFirst ..).trans_le h.rules_le
  | deleteRule id w =>
    refine ⟨fun x hx => h.rules x (List.mem_filter.1 hx).1, h.channels, ?_, h.channels_le⟩
    exact (List.length_filter_le ..).trans h.rules_le
  | createChannel req id w =>
    simp only [AlertAct.effect]
    cases hbuilt : itemOf (buildAlertChannel urlParse) req with
    | error text => exact h
    | ok ch =>
      cases id with
      | none => exact h
      | some id =>
        simp only [stamped, Option.elim_some, Collection.add]
        split_ifs with hroom
        · refine ⟨h.rules, fun x hx => ?_, h.rules_le, ?_⟩
          · rcases List.mem_append.1 hx with hx | hx
            · exact h.channels x hx
            · obtain rfl := List.mem_singleton.1 hx
              exact accepted_channel hbuilt id
          · have hlen : (a.channels ++ [channels.stamp ch id ""]).length = a.channels.length + 1 := List.length_append
            show (a.channels ++ [channels.stamp ch id ""]).length + (if a.webhookURL = "" then 0 else 1) ≤ maxChannels
            rw [if_pos hwebhook, add_zero]
            exact (hlen.trans_le hroom).trans hc
        · exact h
  | updateChannel id req w =>
    simp only [AlertAct.effect]
    cases hbuilt : itemOf (buildAlertChannel urlParse) req with
    | error text => exact h
    | ok ch =>
      refine ⟨h.rules, fun x hx => ?_, h.rules_le, ?_⟩
      · rcases replaceFirst_mem hx with hx | ⟨y, -, rfl⟩
        · exact h.channels x hx
        · exact accepted_channel hbuilt y.id
      · exact (Nat.add_le_add_right (length_replaceFirst ..).le _).trans h.channels_le
  | deleteChannel id w =>
    refine ⟨h.rules, fun x hx => h.channels x (List.mem_filter.1 hx).1, h.rules_le, ?_⟩
    exact (Nat.add_le_add_right (List.length_filter_le ..) _).trans h.channels_le
  | other o w => exact h
  | restart w newChannelID => exact h

theorem migrate_usable (newChannelID : String) (a : AlertsConfig) (h : Usable lib maxRules maxChannels a) :
    Usable lib maxRules maxChannels ((migrateAlertChannels newChannelID a).getD a) := by
  unfold migrateAlertChannels
  split_ifs with hwebhook
  · exact h
  · have hle := h.channels_le
    rw [if_neg hwebhook] at hle
    refine ⟨h.rules, fun ch hch => ?_, h.rules_le, hle⟩
    rcases List.mem_cons.1 hch with rfl | hch
    · exact ⟨by simp [validAlertChannelTypes], fun _ => hwebhook, by simp, by simp⟩
    · exact h.channels ch hch

/-- the engine skips nothing but disabled rules -/
theorem compileRules_src {rs : List SourceRule} (h : ∀ r ∈ rs, r.enabled = true → ∃ c, compileRule lib r = some c) :
    (compileRules lib rs).map CompiledRule.src = rs.filter fun r => r.enabled := by
  induction rs with
  | nil => rfl
  | cons r rs ih =>
    have hrest := ih fun x hx => h x (List.mem_cons_of_mem r hx)
    unfold compileRules at hrest ⊢
    cases hon : r.enabled with
    | false =>
      have hskip : compileRule lib r = none := if_pos hon
      rw [List.filterMap_cons_none hskip, List.filter_cons_of_neg (by simp [hon]), hrest]
    | true =>
      obtain ⟨c, hc⟩ := h r List.mem_cons_self hon
      rw [List.filterMap_cons_some hc, List.map_cons, hrest, (compileRule_spec hc).src]
      exact (List.filter_cons_of_pos (p := fun r : SourceRule => r.enabled) hon).symm

end

/-- **The stored alerts refine the requests.** Starting from a file without a legacy webhook, after every sequence of
requests, other updates, failing writes and restarts, the rules and channels that are listed and those in the file are
what the requests made of them whose writes succeeded; and an answer tells what is stored after it. -/
theorem alerts_refine (lib : GoLib) (reason : String → String) (urlParse : String → Option (String × String)) (env : Env)
    (w₀ : World) (newChannelID : String) (disk : FileConfig) (hdisk : (alertsOf disk).webhookURL = "")
    (acts : List AlertAct) :
    let m := Machine.run (AlertAct.step lib reason urlParse env) (newManager env w₀ newChannelID disk) acts
    let b := Machine.run (AlertAct.book lib reason urlParse) (alertsOf disk) acts
    ListAlertRules m = b.rules ∧ ListAlertChannels m = b.channels ∧ alertsOf m.disk = b ∧
      ∀ act : AlertAct, act.Answered lib reason urlParse env m b (AlertAct.book lib reason urlParse b act) := by
  intro m b
  have hstart : Holds (fun a => a = alertsOf disk) (newManager env w₀ newChannelID disk) := by
    refine @start_holds (fun a => a = alertsOf disk) disk rfl (fun newChannelID a ha => ?_) env w₀ newChannelID
    rw [ha, migrateAlertChannels, if_pos hdisk]
    rfl
  have hb : Holds (fun a => a = b) m := run_book hstart acts
  refine ⟨congrArg AlertsConfig.rules hb.memory, congrArg AlertsConfig.channels hb.memory, hb.disk, fun act => ?_⟩
  have hanswered : act.Answered lib reason urlParse env m (alertsOf m.fileConfig)
      (alertsOf (act.step lib reason urlParse env m).fileConfig) := step_answered hb.wellFormed act
  have hstep : Holds (fun a => a = AlertAct.book lib reason urlParse b act) (act.step lib reason urlParse env m) :=
    step_book hb act
  rw [hb.memory, hstep.memory] at hanswered
  exact hanswered

/-- a channel that is created while the file cannot be written, and once more -/
theorem alerts_refine_retry :
    ListAlertChannels (Machine.run (AlertAct.step noRegexp (fun _ => "") (fun _ => none) noEnv)
        (newManager noEnv writable "" noFile)
        [.createChannel (some { type := "telegram", name := "ops", enabled := none, url := "", token := "t", target := "1" })
           (some "00000001") { writable with persists := false },
         .createChannel (some { type := "telegram", name := "ops", enabled := none, url := "", token := "t", target := "1" })
           (some "00000002") writable,
         .restart writable ""]) =
      [{ id := "00000002", type := "telegram", name := "ops", enabled := true, url := "", token := "t", target := "1" }] :=
  (alerts_refine noRegexp (fun _ => "") (fun _ => none) noEnv writable "" noFile rfl _).2.1.trans (by decide)

/-- **The stored alerts can be used.** Starting from a file with rules and channels such as the handlers accept, or none,
perhaps with a legacy webhook: whatever requests, updates, failing writes and restarts follow, the engine skips exactly
the disabled rules, none of its windows or cooldowns is longer than what is kept of them, every channel has a request for
every alert, a Telegram channel one whose secret is known, and the limits on their numbers hold. -/
theorem alerts_usable (lib : GoLib) (reason : String → String) (urlParse : String → Option (String × String)) (env : Env)
    (w₀ : World) (newChannelID : String) (disk : FileConfig)
    (hrules : ∀ r ∈ (alertsOf disk).rules, InLimits r ∧ (r.enabled = true → Compiles lib r))
    (hchannels : ∀ ch ∈ (alertsOf disk).channels, Deliverable ch) (acts : List AlertAct) :
    let m := Machine.run (AlertAct.step lib reason urlParse env) (newManager env w₀ newChannelID disk) acts
    (∀ rs : List SourceRule, rs.map SourceRule.toAlertRule = ListAlertRules m →
        (compileRules lib rs).map CompiledRule.src = rs.filter (fun r => r.enabled) ∧
          ∀ c ∈ compileRules lib rs, c.window ≤ windowIdleTTL ∧ c.cooldown ≤ windowIdleTTL) ∧
      (∀ ch ∈ ListAlertChannels m, ∀ marshal alert, ∃ spec,
        buildRequestSpec marshal ch alert = .ok spec ∧ (ch.type = "telegram" → spec.secret ≠ "")) ∧
      (ListAlertRules m).length ≤ max 50 (alertsOf disk).rules.length ∧
      (ListAlertChannels m).length ≤
        max 20 ((alertsOf disk).channels.length + if (alertsOf disk).webhookURL = "" then 0 else 1) := by
  intro m
  have hdisk : Usable lib (max 50 (alertsOf disk).rules.length)
      (max 20 ((alertsOf disk).channels.length + if (alertsOf disk).webhookURL = "" then 0 else 1)) (alertsOf disk) :=
    ⟨hrules, hchannels, le_max_right .., le_max_right ..⟩
  have hm : Holds (Usable lib (max 50 (alertsOf disk).rules.length)
      (max 20 ((alertsOf disk).channels.length + if (alertsOf disk).webhookURL = "" then 0 else 1))) m :=
    run_holds (effect_usable (le_max_left ..) (le_max_left ..)) migrate_usable
      (start_holds hdisk migrate_usable env w₀ newChannelID) acts
  have husable := hm.memory
  refine ⟨fun rs hrs => ?_, fun ch hch marshal alert => (husable.channels ch hch).request marshal alert,
    husable.rules_le, (Nat.le_add_right ..).trans husable.channels_le⟩
  have hlisted : ∀ r ∈ rs, r.toAlertRule ∈ ListAlertRules m := fun r hr => hrs ▸ List.mem_map_of_mem hr
  constructor
  · exact compileRules_src fun r hr hon => (husable.rules _ (hlisted r hr)).2 hon r rfl
  · intro c hc
    obtain ⟨r, hr, hcompiled⟩ := mem_compileRules.1 hc
    exact compileRule_bounded (husable.rules _ (hlisted r hr)).1 hcompiled

/-- a legacy webhook that was migrated, and a channel without a token, which is not accepted -/
theorem alerts_usable_legacy :
    (ListAlertChannels (Machine.run (AlertAct.step noRegexp (fun _ => "") (fun _ => some ("https", "push.lan")) noEnv)
        (newManager noEnv writable "0badcafe"
          { noFile with alerts := some { webhookURL := "http://hook", channels := [], rules := [] } })
        [.createChannel (some { type := "gotify", name := "", enabled := none, url := "https://push.lan", token := " "
                                target := "" }) (some "00000001") writable])).length ≤ 20 :=
  (alerts_usable noRegexp (fun _ => "") (fun _ => some ("https", "push.lan")) noEnv writable "0badcafe"
    { noFile with alerts := some { webhookURL := "http://hook", channels := [], rules := [] } }
    (by simp [alertsOf]) (by simp [alertsOf])
    [.createChannel (some { type := "gotify", name := "", enabled := none, url := "https://push.lan", token := " "
                            target := "" }) (some "00000001") writable]).2.2.2

end LogDeck.Alerts
