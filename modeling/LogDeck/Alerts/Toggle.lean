/-
Switching an alert rule on and off from the CLI (`cli/alerts.go`: `newAlertRuleToggleCmd`; `api/alerts_handlers.go`:
`CreateAlertRule`, `UpdateAlertRule`, `DeleteAlertRule`).

The command fetches the list of rules, flips the flag of the first one with the id, and puts the whole rule back; other
clients may create, update and delete rules in between. The names of the JSON fields of a stored rule are those of a
request, so the rule that was read is what the server decodes, but for its id and its time of creation, which the update
takes from the stored one. `UpdateAlerts` runs under the manager's lock; persist may fail.

Results:
- `buildAlertRule_again`: an accepted rule is refused because of an emptied container name, or accepted as it is but for
  its container names, each of which loses a slash again;
- `toggle_iff`: in every run, each write of a toggle changes nothing but the flag, if and only if the rule that is written
  is the one that is stored and its container names stay as they are;
- `toggle_renames` and `toggle_reverts`: a name with two slashes, and an edit between the read and the write.
-/
import LogDeck.Alerts.RuleRequest
import LogDeck.Models.Grouper

namespace LogDeck.Alerts

open LogDeck.Config (AlertRule)
open LogDeck.LogStore (trimSlash)
open LogDeck.Models (trimSpace trimSpace_trimSpace)
open Machine

/-! ## Model -/

def maxAlertRules : ℕ := 50

def errAlertRuleLimit : String := "maximum of " ++ toString maxAlertRules ++ " alert rules reached"

def errAlertRuleNotFound : String := "alert rule not found"

/-- the first rule with an id is replaced -/
def updateFirst (id : String) (f : AlertRule → AlertRule) : List AlertRule → List AlertRule
  | [] => []
  | existing :: rest => if existing.id = id then f existing :: rest else existing :: updateFirst id f rest

/-- the stored rules after `UpdateAlerts`; persists is false when the file cannot be written -/
def updateAlerts (mutate : List AlertRule → Except String (List AlertRule)) (persists : Bool) (rules : List AlertRule) :
    List AlertRule :=
  match mutate rules with
  | .error _ => rules
  | .ok updated => if persists then updated else rules

/-- the body of a request with a stored rule -/
def ruleRequest (rule : AlertRule) : AlertRuleRequest :=
  { name := rule.name
    enabled := some rule.enabled
    type := rule.type
    hosts := rule.hosts
    containers := rule.containers
    projects := rule.projects
    events := rule.events
    minLevel := rule.minLevel
    pattern := rule.pattern
    threshold := rule.threshold
    windowSeconds := rule.windowSeconds
    cooldownSeconds := rule.cooldownSeconds }

section Handlers

variable (lib : GoLib) (reason : String → String)

def createAlertRule (req : AlertRuleRequest) (id createdAt : String) (persists : Bool) (rules : List AlertRule) :
    List AlertRule :=
  match buildAlertRule lib reason req with
  | .error _ => rules
  | .ok rule =>
    updateAlerts
      (fun current =>
        if current.length ≥ maxAlertRules then .error errAlertRuleLimit
        else .ok (current ++ [{ rule with id := id, createdAt := createdAt }]))
      persists rules

def updateAlertRule (id : String) (req : AlertRuleRequest) (persists : Bool) (rules : List AlertRule) :
    List AlertRule :=
  match buildAlertRule lib reason req with
  | .error _ => rules
  | .ok rule =>
    updateAlerts
      (fun current =>
        if current.any fun existing => existing.id = id then
          .ok (updateFirst id
            (fun existing => { rule with id := existing.id, createdAt := existing.createdAt }) current)
        else .error errAlertRuleNotFound)
      persists rules

end Handlers

def deleteAlertRule (id : String) (persists : Bool) (rules : List AlertRule) : List AlertRule :=
  updateAlerts
    (fun current =>
      let next := current.filter fun rule => rule.id ≠ id
      if next.length = current.length then .error errAlertRuleNotFound else .ok next)
    persists rules

/-- the stored rules, and what each toggle under way has read, its flag flipped -/
structure Toggles where
  rules : List AlertRule
  pending : ℕ → Option AlertRule

inductive RuleOp where
  | create (req : AlertRuleRequest) (id createdAt : String) (persists : Bool)
  | update (id : String) (req : AlertRuleRequest) (persists : Bool)
  | delete (id : String) (persists : Bool)
  /-- a toggle reads the list -/
  | read (toggle : ℕ) (id : String) (enabled : Bool)
  /-- it puts the rule back -/
  | write (toggle : ℕ) (persists : Bool)

namespace Toggles

variable (lib : GoLib) (reason : String → String)

/-- a toggle that finds no rule ends -/
def read (s : Toggles) (toggle : ℕ) (id : String) (enabled : Bool) : Toggles :=
  let found := s.rules.find? fun rule => rule.id = id
  { s with pending := Function.update s.pending toggle (found.map fun rule => { rule with enabled := enabled }) }

def write (s : Toggles) (toggle : ℕ) (persists : Bool) : Toggles :=
  match s.pending toggle with
  | none => s
  | some rule =>
    { rules := updateAlertRule lib reason rule.id (ruleRequest rule) persists s.rules
      pending := Function.update s.pending toggle none }

def step (s : Toggles) : RuleOp → Toggles
  | .create req id createdAt persists =>
    { s with rules := createAlertRule lib reason req id createdAt persists s.rules }
  | .update id req persists => { s with rules := updateAlertRule lib reason id req persists s.rules }
  | .delete id persists => { s with rules := deleteAlertRule id persists s.rules }
  | .read toggle id enabled => s.read toggle id enabled
  | .write toggle persists => s.write lib reason toggle persists

def start (rules : List AlertRule) : Toggles := ⟨rules, fun _ => none⟩

end Toggles

section Promise

variable (lib : GoLib) (reason : String → String)

/-- a stored rule that `buildAlertRule` made -/
def Accepted (rule : AlertRule) : Prop :=
  ∃ req, buildAlertRule lib reason req = .ok { rule with id := "", createdAt := "" }

/-- what a user of the toggle is promised: its write leaves the stored rules as they were, or sets the flag of the first
rule with its id -/
def OnlyEnabled (s : Toggles) : RuleOp → Prop
  | .write toggle persists => ∀ rule, s.pending toggle = some rule →
      (s.write lib reason toggle persists).rules = s.rules ∨
      (s.write lib reason toggle persists).rules =
        updateFirst rule.id (fun existing => { existing with enabled := rule.enabled }) s.rules
  | _ => True

/-- a container name without the spaces around it and one slash before it -/
def normalContainer (c : String) : String := trimSlash (trimSpace c)

/-- some name is only spaces and a slash -/
def Emptied (containers : List String) : Prop := ∃ c ∈ containers, trimSpace (normalContainer c) = ""

/-- a rule that was read is the stored one, its container names made normal, but for the flag -/
def PutsBack (stored rule : AlertRule) : Prop :=
  { rule with containers := rule.containers.map normalContainer, createdAt := stored.createdAt } =
    { stored with enabled := rule.enabled }

instance (stored rule : AlertRule) : Decidable (PutsBack stored rule) := by unfold PutsBack; infer_instance

/-- a toggle that writes, writes a rule that fits the stored one -/
def PutsBackStored (s : Toggles) : RuleOp → Prop
  | .write toggle persists => ∀ rule stored, s.pending toggle = some rule → persists = true →
      s.rules.find? (fun existing => existing.id = rule.id) = some stored → ¬ Emptied rule.containers →
      PutsBack stored rule
  | _ => True

end Promise

/-! ## Normal forms -/

variable {lib : GoLib} {reason : String → String} {rule stored : AlertRule}

/-- the parts of a rule that the checks of its name, targets and type read -/
structure SameText (rule rule' : AlertRule) : Prop where
  name : rule'.name = rule.name
  type : rule'.type = rule.type
  hosts : rule'.hosts = rule.hosts
  projects : rule'.projects = rule.projects
  events : rule'.events = rule.events
  minLevel : rule'.minLevel = rule.minLevel
  pattern : rule'.pattern = rule.pattern

theorem checkName_congr {rule' : AlertRule} (h : SameText rule rule') : checkName rule' = checkName rule := by
  simp only [checkName, h.name]

theorem checkType_congr {rule' : AlertRule} (h : SameText rule rule') :
    checkType lib reason rule' = checkType lib reason rule := by
  simp only [checkType, h.type, h.events, h.minLevel, h.pattern]

theorem checkType_minLevel (h : checkType lib reason rule = .ok ()) :
    rule.minLevel = "" ∨ rule.minLevel ∈ validAlertMinLevels := by
  unfold checkType at h
  split at h
  · by_cases hevents : rule.events = []
    · rw [if_pos hevents] at h
      cases h
    · rw [if_neg hevents] at h
      split at h
      · cases h
      · split_ifs at h with h1 h2
        exact Or.inl (not_not.1 h1)
  · split_ifs at h with h1 h2 h3 h4
    by_cases hempty : rule.minLevel = ""
    · exact Or.inl hempty
    · exact Or.inr (by_contra fun hbad => h3 ⟨hempty, hbad⟩)
  · cases h
  · cases h

theorem checkLimits_text {rule' : AlertRule} (h : checkLimits rule = .ok rule') : SameText rule rule' := by
  obtain ⟨_, rfl⟩ := checkLimits_ok h
  exact ⟨rfl, rfl, rfl, rfl, rfl, rfl, rfl⟩

/-- the limits do not look at the flag -/
theorem checkLimits_enabled {rule' : AlertRule} (h : checkLimits rule = .ok rule') (enabled : Bool) :
    checkLimits { rule with enabled := enabled } = .ok { rule' with enabled := enabled } := by
  unfold checkLimits at h ⊢
  split_ifs at h ⊢
  cases h
  rfl

theorem checkLimits_again (h : InLimits rule) : checkLimits rule = .ok rule := by
  obtain ⟨⟨ht1, ht2⟩, ⟨hw1, hw2⟩, hc1, hc2⟩ := h
  unfold minAlertWindowSecs at hw1
  have hdefaults : withDefaults rule = rule := by
    rw [withDefaults, if_neg (by omega), if_neg (by omega)]
  unfold checkLimits
  rw [if_neg (by omega), if_neg (by omega), if_neg (by omega), if_neg (by unfold minAlertWindowSecs; omega),
    if_neg (by omega), if_neg (by omega), hdefaults]

theorem checkTargets_ok_iff {field : String} {values : List String} :
    checkTargets field values = .ok () ↔ ¬ ∃ v ∈ values, trimSpace v = "" := by
  have hany : (values.any fun v => trimSpace v = "") = true ↔ ∃ v ∈ values, trimSpace v = "" := by simp
  rw [checkTargets, ← hany]
  split_ifs with h <;> simp [h]

/-- what `strings.ToUpper` does with the level names of the API -/
structure Uppercase (lib : GoLib) : Prop where
  empty : lib.toUpper "" = ""
  levels : ∀ level ∈ validAlertMinLevels, lib.toUpper level = level

/-- the rule that is stored for an accepted rule put back -/
def renormalized (rule : AlertRule) : AlertRule :=
  { rule with containers := rule.containers.map normalContainer, id := "", createdAt := "" }

/-- the checks that an accepted rule has passed, and passes again -/
theorem Accepted.passed (h : Accepted lib reason rule) :
    checkName rule = .ok () ∧ checkTargets "hosts" rule.hosts = .ok () ∧
      checkTargets "projects" rule.projects = .ok () ∧ checkType lib reason rule = .ok () ∧ InLimits rule := by
  obtain ⟨req, hreq⟩ := h
  obtain ⟨hname, hhosts, _, hprojects, htype, hlimits⟩ := buildAlertRule_iff.1 hreq
  have hbounds := (checkLimits_ok hlimits).1
  have hsame := checkLimits_text hlimits
  have htext : SameText (requestedRule lib req) rule :=
    ⟨hsame.name, hsame.type, hsame.hosts, hsame.projects, hsame.events, hsame.minLevel, hsame.pattern⟩
  refine ⟨?_, ?_, ?_, ?_, ⟨hbounds.threshold, hbounds.window, hbounds.cooldown⟩⟩
  · rw [checkName_congr htext, hname]
  · rw [htext.hosts, hhosts]
  · rw [htext.projects, hprojects]
  · rw [checkType_congr htext, htype]

/-- reading an accepted rule again changes its container names at most -/
theorem Accepted.requestedRule_again (hlib : Uppercase lib) (h : Accepted lib reason rule) :
    requestedRule lib (ruleRequest rule) = renormalized rule := by
  have hlevel := checkType_minLevel h.passed.2.2.2.1
  obtain ⟨req, hreq⟩ := h
  have hsame := checkLimits_text (buildAlertRule_iff.1 hreq).2.2.2.2.2
  have hname : rule.name = trimSpace req.name := hsame.name
  have hpattern : rule.pattern = trimSpace req.pattern := hsame.pattern
  have hupper : lib.toUpper (trimSpace rule.minLevel) = rule.minLevel := by
    rcases hlevel with hempty | hvalid
    · rw [hempty]
      exact hlib.empty
    · have htrim : ∀ level ∈ validAlertMinLevels, trimSpace level = level := by decide +kernel
      rw [htrim _ hvalid, hlib.levels _ hvalid]
  unfold requestedRule renormalized ruleRequest
  simp only [AlertRule.mk.injEq, hupper, and_true, true_and, Option.getD_some]
  refine ⟨?_, rfl, ?_⟩
  · rw [hname, trimSpace_trimSpace]
  · rw [hpattern, trimSpace_trimSpace]

/-- **Idempotence.** An accepted rule that is put back is refused for a container name that is emptied, or stored as it
is but for its container names. -/
theorem buildAlertRule_again (hlib : Uppercase lib) (h : Accepted lib reason rule) :
    (Emptied rule.containers → ∃ e, buildAlertRule lib reason (ruleRequest rule) = .error e) ∧
      (¬ Emptied rule.containers → buildAlertRule lib reason (ruleRequest rule) = .ok (renormalized rule)) := by
  have hreq := h.requestedRule_again hlib
  obtain ⟨hname, hhosts, hprojects, htype, hlimits⟩ := h.passed
  have htext : SameText rule (renormalized rule) := ⟨rfl, rfl, rfl, rfl, rfl, rfl, rfl⟩
  have hcontainers : checkTargets "containers" (renormalized rule).containers = .ok () ↔ ¬ Emptied rule.containers := by
    rw [checkTargets_ok_iff, Emptied]
    simp [renormalized]
  constructor
  · intro hempty
    cases hbuild : buildAlertRule lib reason (ruleRequest rule) with
    | error e => exact ⟨e, rfl⟩
    | ok rule' =>
      have hok := (buildAlertRule_iff.1 hbuild).2.2.1
      rw [hreq] at hok
      exact absurd hempty (hcontainers.1 hok)
  · intro hempty
    rw [buildAlertRule_iff, hreq]
    refine ⟨?_, hhosts, hcontainers.2 hempty, hprojects, ?_, ?_⟩
    · rw [checkName_congr htext, hname]
    · rw [checkType_congr htext, htype]
    · exact checkLimits_again ⟨hlimits.threshold, hlimits.window, hlimits.cooldown⟩

/-- acceptance does not look at the id, the time of creation and the flag -/
theorem Accepted.congr (h : Accepted lib reason rule) (id createdAt : String) (enabled : Bool) :
    Accepted lib reason { rule with id := id, createdAt := createdAt, enabled := enabled } := by
  obtain ⟨req, hreq⟩ := h
  obtain ⟨hname, hhosts, hcontainers, hprojects, htype, hlimits⟩ := buildAlertRule_iff.1 hreq
  exact ⟨{ req with enabled := some enabled }, buildAlertRule_iff.2
    ⟨hname, hhosts, hcontainers, hprojects, htype, checkLimits_enabled hlimits enabled⟩⟩

/-! ## One step -/

/-- every stored rule is accepted, and so is every rule that a toggle has read -/
structure Toggles.Inv (lib : GoLib) (reason : String → String) (s : Toggles) : Prop where
  stored : ∀ rule ∈ s.rules, Accepted lib reason rule
  pending : ∀ toggle rule, s.pending toggle = some rule → Accepted lib reason rule

theorem updateFirst_eq_iff {id : String} {f g : AlertRule → AlertRule} {rules : List AlertRule}
    (h : rules.find? (fun existing => existing.id = id) = some stored) :
    updateFirst id f rules = updateFirst id g rules ↔ f stored = g stored := by
  induction rules with
  | nil => cases h
  | cons existing rest ih =>
    by_cases hid : existing.id = id
    · rw [List.find?_cons_of_pos (by simpa using hid)] at h
      cases h
      simp [updateFirst, hid]
    · rw [List.find?_cons_of_neg (by simpa using hid)] at h
      simp [updateFirst, hid, ih h]

theorem updateFirst_id (id : String) (rules : List AlertRule) : updateFirst id (fun existing => existing) rules = rules := by
  induction rules with
  | nil => rfl
  | cons existing rest ih =>
    rw [updateFirst, ih]
    split_ifs <;> rfl

theorem mem_updateFirst {id : String} {f : AlertRule → AlertRule} {rules : List AlertRule}
    (h : rule ∈ updateFirst id f rules) : rule ∈ rules ∨ ∃ existing ∈ rules, rule = f existing := by
  induction rules with
  | nil => cases h
  | cons existing rest ih =>
    rw [updateFirst] at h
    split_ifs at h
    · rcases List.mem_cons.1 h with rfl | hrest
      · exact Or.inr ⟨existing, List.mem_cons_self, rfl⟩
      · exact Or.inl (List.mem_cons_of_mem existing hrest)
    · rcases List.mem_cons.1 h with rfl | hrest
      · exact Or.inl List.mem_cons_self
      · rcases ih hrest with hmem | ⟨e, he, rfl⟩
        · exact Or.inl (List.mem_cons_of_mem existing hmem)
        · exact Or.inr ⟨e, List.mem_cons_of_mem existing he, rfl⟩

/-- what holds of the stored rules and of the mutated ones holds after an update -/
theorem updateAlerts_mem {P : AlertRule → Prop} {mutate : List AlertRule → Except String (List AlertRule)}
    {rules : List AlertRule} (h : ∀ r ∈ rules, P r) (hmutate : ∀ updated, mutate rules = .ok updated → ∀ r ∈ updated, P r)
    (persists : Bool) : ∀ r ∈ updateAlerts mutate persists rules, P r := by
  unfold updateAlerts
  cases hm : mutate rules with
  | error e => exact h
  | ok updated =>
    cases persists with
    | false => exact h
    | true => exact hmutate updated hm

theorem accepted_built {req : AlertRuleRequest} (h : buildAlertRule lib reason req = .ok rule) (id createdAt : String) :
    Accepted lib reason { rule with id := id, createdAt := createdAt } := by
  obtain ⟨_, rfl⟩ := checkLimits_ok (buildAlertRule_iff.1 h).2.2.2.2.2
  exact ⟨req, h⟩

theorem accepted_create {rules : List AlertRule} (h : ∀ r ∈ rules, Accepted lib reason r) (req : AlertRuleRequest)
    (id createdAt : String) (persists : Bool) :
    ∀ r ∈ createAlertRule lib reason req id createdAt persists rules, Accepted lib reason r := by
  unfold createAlertRule
  cases hbuild : buildAlertRule lib reason req with
  | error e => exact h
  | ok rule =>
    apply updateAlerts_mem h
    intro updated hupdated r hr
    split_ifs at hupdated
    cases hupdated
    rcases List.mem_append.1 hr with hr | hr
    · exact h r hr
    · rw [List.mem_singleton.1 hr]
      exact accepted_built hbuild id createdAt

theorem accepted_update {rules : List AlertRule} (h : ∀ r ∈ rules, Accepted lib reason r) (id : String)
    (req : AlertRuleRequest) (persists : Bool) :
    ∀ r ∈ updateAlertRule lib reason id req persists rules, Accepted lib reason r := by
  unfold updateAlertRule
  cases hbuild : buildAlertRule lib reason req with
  | error e => exact h
  | ok rule =>
    apply updateAlerts_mem h
    intro updated hupdated r hr
    split_ifs at hupdated
    cases hupdated
    rcases mem_updateFirst hr with hr | ⟨existing, _, rfl⟩
    · exact h r hr
    · exact accepted_built hbuild existing.id existing.createdAt

theorem accepted_delete {rules : List AlertRule} (h : ∀ r ∈ rules, Accepted lib reason r) (id : String)
    (persists : Bool) : ∀ r ∈ deleteAlertRule id persists rules, Accepted lib reason r := by
  apply updateAlerts_mem h
  intro updated hupdated r hr
  dsimp only at hupdated
  split_ifs at hupdated
  cases hupdated
  exact h r (List.mem_of_mem_filter hr)

variable {s : Toggles}

theorem pending_update {toggle k : ℕ} {found : Option AlertRule} {pending : ℕ → Option AlertRule}
    (h : Function.update pending toggle found k = some rule) : found = some rule ∨ pending k = some rule := by
  by_cases hk : k = toggle
  · subst hk
    rw [Function.update_self] at h
    exact Or.inl h
  · rw [Function.update_of_ne hk] at h
    exact Or.inr h

theorem Toggles.Inv.step (hi : s.Inv lib reason) (op : RuleOp) : (s.step lib reason op).Inv lib reason := by
  cases op with
  | create req id createdAt persists => exact ⟨accepted_create hi.stored req id createdAt persists, hi.pending⟩
  | update id req persists => exact ⟨accepted_update hi.stored id req persists, hi.pending⟩
  | delete id persists => exact ⟨accepted_delete hi.stored id persists, hi.pending⟩
  | read toggle id enabled =>
    refine ⟨hi.stored, fun k rule h => ?_⟩
    rcases pending_update h with h | h
    · obtain ⟨found, hfound, rfl⟩ := Option.map_eq_some_iff.1 h
      exact (hi.stored found (List.mem_of_find?_eq_some hfound)).congr found.id found.createdAt enabled
    · exact hi.pending k rule h
  | write toggle persists =>
    change (s.write lib reason toggle persists).Inv lib reason
    unfold Toggles.write
    cases hp : s.pending toggle with
    | none => exact hi
    | some rule =>
      refine ⟨accepted_update hi.stored rule.id _ persists, fun k r h => ?_⟩
      rcases pending_update h with h | h
      · cases h
      · exact hi.pending k r h

theorem updateFirst_of_none {id : String} {f : AlertRule → AlertRule} {rules : List AlertRule}
    (h : ¬ (rules.any fun existing => existing.id = id) = true) : updateFirst id f rules = rules := by
  induction rules with
  | nil => rfl
  | cons existing rest ih =>
    simp only [List.any_cons, decide_eq_true_eq, Bool.or_eq_true, not_or] at h
    rw [updateFirst, if_neg h.1, ih h.2]

/-- the rule that a toggle stores in place of the one it finds -/
def putBack (rule existing : AlertRule) : AlertRule :=
  { renormalized rule with id := existing.id, createdAt := existing.createdAt }

/-- a write that is made -/
theorem write_made (hlib : Uppercase lib) {toggle : ℕ} (hp : s.pending toggle = some rule)
    (hrule : Accepted lib reason rule) (hempty : ¬ Emptied rule.containers) :
    (s.write lib reason toggle true).rules = updateFirst rule.id (putBack rule) s.rules := by
  unfold Toggles.write updateAlertRule updateAlerts
  rw [hp]
  simp only [(buildAlertRule_again hlib hrule).2 hempty]
  by_cases hany : (s.rules.any fun existing => existing.id = rule.id) = true
  · rw [if_pos hany]
    rfl
  · rw [if_neg hany, updateFirst_of_none hany]

/-- a write that is not made: a container name is emptied, or the file cannot be written -/
theorem write_refused (hlib : Uppercase lib) {toggle : ℕ} {persists : Bool} (hp : s.pending toggle = some rule)
    (hrule : Accepted lib reason rule) (h : persists = false ∨ Emptied rule.containers) :
    (s.write lib reason toggle persists).rules = s.rules := by
  unfold Toggles.write updateAlertRule
  rw [hp]
  rcases h with rfl | hempty
  · cases hbuild : buildAlertRule lib reason (ruleRequest rule) with
    | error e => simp only [hbuild]
    | ok built =>
      simp only [hbuild, updateAlerts]
      split <;> rfl
  · obtain ⟨e, he⟩ := (buildAlertRule_again hlib hrule).1 hempty
    simp only [he]

theorem putsBack_iff (hid : stored.id = rule.id) :
    PutsBack stored rule ↔ putBack rule stored = { stored with enabled := rule.enabled } := by
  have hput : putBack rule stored =
      { rule with containers := rule.containers.map normalContainer, createdAt := stored.createdAt } := by
    unfold putBack renormalized
    rw [hid]
  rw [hput, PutsBack]

/-- a stored rule that is put back unchanged has the flag already -/
theorem putBack_eq_self (h : putBack rule stored = stored) :
    putBack rule stored = { stored with enabled := rule.enabled } := by
  have henabled : stored.enabled = rule.enabled := (congrArg AlertRule.enabled h).symm
  rw [h, ← henabled]

theorem onlyEnabled_iff (hlib : Uppercase lib) (hi : s.Inv lib reason) (op : RuleOp) :
    OnlyEnabled lib reason s op ↔ PutsBackStored s op := by
  cases op with
  | write toggle persists =>
    refine forall_congr' fun rule => ?_
    constructor
    · intro h stored hp hpersists hfind hempty
      subst hpersists
      have hid : stored.id = rule.id := by simpa using List.find?_some hfind
      have hmade := write_made hlib hp (hi.pending toggle rule hp) hempty
      rw [putsBack_iff hid]
      rcases h hp with hsame | hset
      · rw [hmade] at hsame
        apply putBack_eq_self
        have heq := hsame.trans (updateFirst_id rule.id s.rules).symm
        exact (updateFirst_eq_iff hfind).1 heq
      · rw [hmade] at hset
        exact (updateFirst_eq_iff hfind).1 hset
    · intro h hp
      have hrule := hi.pending toggle rule hp
      by_cases hmade : persists = true ∧ ¬ Emptied rule.containers
      · obtain ⟨rfl, hempty⟩ := hmade
        rw [write_made hlib hp hrule hempty]
        cases hfind : s.rules.find? fun existing => existing.id = rule.id with
        | none =>
          have hnone : ¬ (s.rules.any fun existing => existing.id = rule.id) = true := by
            simpa using List.find?_eq_none.1 hfind
          exact Or.inl (updateFirst_of_none hnone)
        | some stored =>
          have hid : stored.id = rule.id := by simpa using List.find?_some hfind
          exact Or.inr ((updateFirst_eq_iff hfind).2 ((putsBack_iff hid).1 (h stored hp rfl hfind hempty)))
      · refine Or.inl (write_refused hlib hp hrule ?_)
        by_cases hpersists : persists = true
        · exact Or.inr (by_contra fun hempty => hmade ⟨hpersists, hempty⟩)
        · exact Or.inl (Bool.not_eq_true persists ▸ hpersists)
  | create req id createdAt persists => exact Iff.rfl
  | update id req persists => exact Iff.rfl
  | delete id persists => exact Iff.rfl
  | read toggle id enabled => exact Iff.rfl

/-! ## Runs -/

/-- **Toggles.** From accepted rules, in every run of toggles and other clients, each write of a toggle changes nothing
but the flag of its rule, if and only if each write that is made puts back the rule that is stored, and its container
names are normal. -/
theorem toggle_iff (lib : GoLib) (reason : String → String) (hlib : Uppercase lib) (rules : List AlertRule)
    (h : ∀ rule ∈ rules, Accepted lib reason rule) (ops : List RuleOp) :
    Each (Toggles.step lib reason) (OnlyEnabled lib reason) (Toggles.start rules) ops ↔
      Each (Toggles.step lib reason) PutsBackStored (Toggles.start rules) ops := by
  have hstart : (Toggles.start rules).Inv lib reason := ⟨h, nofun⟩
  exact each_iff (fun _ op hi => hi.step op) (fun _ op hi => onlyEnabled_iff hlib hi op) hstart

/-! ## Two toggles -/

/-- plain patterns, and the upper case of ASCII letters -/
def plainLib : GoLib := ⟨String.toUpper, fun pattern => some fun text => pattern.toList <:+: text.toList⟩

theorem plainLib_upper : Uppercase plainLib := ⟨by decide +kernel, by decide +kernel⟩

def noReason : String → String := fun _ => ""

def watch (container : String) : AlertRule :=
  { id := "0a1b2c3d", name := "web is down", enabled := true, type := "event", hosts := [], containers := [container],
    projects := [], events := ["die"], minLevel := "", pattern := "", threshold := 1, windowSeconds := 60,
    cooldownSeconds := 0, createdAt := "2026-01-02T03:04:05Z" }

theorem accepted_watch : Accepted plainLib noReason (watch "web") ∧ Accepted plainLib noReason (watch "/web") :=
  ⟨⟨ruleRequest (watch "web"), by decide +kernel⟩, ⟨ruleRequest (watch "//web"), by decide +kernel⟩⟩

theorem toggle_iff_watch : Each (Toggles.step plainLib noReason) (OnlyEnabled plainLib noReason)
    (Toggles.start [watch "web"]) [.read 0 "0a1b2c3d" false, .write 0 true] := by
  refine (toggle_iff plainLib noReason plainLib_upper [watch "web"] (by simpa using accepted_watch.1) _).2 ?_
  refine ⟨trivial, ?_, trivial⟩
  intro rule stored hrule _ hstored _
  cases hrule
  cases hstored
  decide +kernel

/-- **An edit is reverted.** Another client sets the cooldown between the read and the write of the toggle. -/
theorem toggle_reverts : ¬ ∀ (lib : GoLib) (reason : String → String), Uppercase lib → ∀ rules : List AlertRule,
    (∀ rule ∈ rules, Accepted lib reason rule) → ∀ ops,
    Each (Toggles.step lib reason) (OnlyEnabled lib reason) (Toggles.start rules) ops := by
  intro h
  have hrun := h plainLib noReason plainLib_upper [watch "web"] (by simpa using accepted_watch.1)
    [.read 0 "0a1b2c3d" false, .update "0a1b2c3d" { ruleRequest (watch "web") with cooldownSeconds := 600 } true,
      .write 0 true]
  rcases hrun.2.2.1 _ rfl with hsame | hset
  · exact absurd hsame (by decide +kernel)
  · exact absurd hset (by decide +kernel)

/-- **A name loses a slash.** A rule created for "//web" is stored for "/web", and the toggle makes that "web". -/
theorem toggle_renames : ¬ Each (Toggles.step plainLib noReason) (OnlyEnabled plainLib noReason)
    (Toggles.start [watch "/web"]) [.read 0 "0a1b2c3d" false, .write 0 true] := by
  intro hrun
  rcases hrun.2.1 _ rfl with hsame | hset
  · exact absurd hsame (by decide +kernel)
  · exact absurd hset (by decide +kernel)

end LogDeck.Alerts
