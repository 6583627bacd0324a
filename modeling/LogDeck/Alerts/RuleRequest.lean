/-
What the API accepts as an alert rule (`api/alerts_handlers.go`, `buildAlertRule`).

The id and the time of creation are filled in by the caller; an id is eight hexadecimal digits.

Results:
- `buildAlertRule_limits`: a rule that is accepted keeps to the limits of the API;
- `buildAlertRule_compiles`: and the engine compiles it, if it is enabled;
- `compileRule_bounded`: such a rule looks back an hour at most, and cools down for a day at most.
-/
import LogDeck.Lib.GoQuote
import LogDeck.Alerts.Engine

namespace LogDeck.Alerts

open LogDeck.Config (AlertRule)
open LogDeck.LogStore (trimSlash)
open LogDeck.Models (trimSpace)

def maxAlertRuleNameLen : ℕ := 64

def maxAlertThreshold : ℤ := 1000

def minAlertWindowSecs : ℤ := 5

def maxAlertWindowSecs : ℤ := 3600

def maxAlertCooldownSecs : ℤ := 86400

structure AlertRuleRequest where
  name : String
  enabled : Option Bool
  type : String
  hosts : List String
  containers : List String
  projects : List String
  events : List String
  minLevel : String
  pattern : String
  threshold : ℤ
  windowSeconds : ℤ
  cooldownSeconds : ℤ
deriving Repr

def validAlertMinLevels : List String := ["TRACE", "DEBUG", "INFO", "WARN", "ERROR", "FATAL", "PANIC"]

def validAlertEvents : List String := ["die", "oom", "unhealthy"]

/-- the rule of a request before it is checked -/
def requestedRule (lib : GoLib) (req : AlertRuleRequest) : AlertRule :=
  { id := ""
    name := trimSpace req.name
    enabled := req.enabled.getD true
    type := req.type
    hosts := req.hosts
    containers := req.containers.map fun c => trimSlash (trimSpace c)
    projects := req.projects
    events := req.events
    minLevel := lib.toUpper (trimSpace req.minLevel)
    pattern := trimSpace req.pattern
    threshold := req.threshold
    windowSeconds := req.windowSeconds
    cooldownSeconds := req.cooldownSeconds
    createdAt := "" }

def checkName (rule : AlertRule) : Except String Unit :=
  if rule.name = "" then .error "name is required"
  else if rule.name.utf8ByteSize > maxAlertRuleNameLen then
    .error ("name must be at most " ++ toString maxAlertRuleNameLen ++ " characters")
  else .ok ()

def checkTargets (field : String) (values : List String) : Except String Unit :=
  if values.any fun v => trimSpace v = "" then .error (field ++ " must not contain empty entries") else .ok ()

/-- what a rule of each type must and must not say; reason is the text of a pattern that does not compile -/
def checkType (lib : GoLib) (reason : String → String) (rule : AlertRule) : Except String Unit :=
  match rule.type with
  | "event" =>
    if rule.events = [] then .error "events is required for an event rule"
    else
      match rule.events.find? fun ev => ev ∉ validAlertEvents with
      | some ev =>
        .error ("events contains invalid value " ++ GoQuote.quote ev ++ " (must be \"die\", \"oom\", or \"unhealthy\")")
      | none =>
        if rule.minLevel ≠ "" then .error "minLevel must be empty for an event rule"
        else if rule.pattern ≠ "" then .error "pattern must be empty for an event rule"
        else .ok ()
  | "log" =>
    if rule.events ≠ [] then .error "events must be empty for a log rule"
    else if rule.minLevel = "" ∧ rule.pattern = "" then
      .error "a log rule requires at least one of minLevel or pattern"
    else if rule.minLevel ≠ "" ∧ rule.minLevel ∉ validAlertMinLevels then
      .error ("minLevel " ++ GoQuote.quote rule.minLevel ++ " is not a valid log level")
    else if rule.pattern ≠ "" ∧ lib.compile rule.pattern = none then
      .error ("pattern is not a valid regular expression: " ++ reason rule.pattern)
    else .ok ()
  | "" => .error "type is required"
  | type => .error ("type " ++ GoQuote.quote type ++ " is invalid (must be \"event\" or \"log\")")

/-- a threshold or a window of 0 is not set -/
def withDefaults (rule : AlertRule) : AlertRule :=
  { rule with
    threshold := if rule.threshold = 0 then 1 else rule.threshold
    windowSeconds := if rule.windowSeconds = 0 then 60 else rule.windowSeconds }

def checkLimits (rule : AlertRule) : Except String AlertRule :=
  if rule.threshold < 0 then .error "threshold must not be negative"
  else if rule.threshold > maxAlertThreshold then
    .error ("threshold must be at most " ++ toString maxAlertThreshold)
  else if rule.windowSeconds < 0 then .error "windowSeconds must not be negative"
  else if rule.windowSeconds ≠ 0 ∧
      (rule.windowSeconds < minAlertWindowSecs ∨ rule.windowSeconds > maxAlertWindowSecs) then
    .error ("windowSeconds must be between " ++ toString minAlertWindowSecs ++ " and " ++
      toString maxAlertWindowSecs)
  else if rule.cooldownSeconds < 0 then .error "cooldownSeconds must not be negative"
  else if rule.cooldownSeconds > maxAlertCooldownSecs then
    .error ("cooldownSeconds must be at most " ++ toString maxAlertCooldownSecs)
  else .ok (withDefaults rule)

def buildAlertRule (lib : GoLib) (reason : String → String) (req : AlertRuleRequest) : Except String AlertRule := do
  let rule := requestedRule lib req
  checkName rule
  checkTargets "hosts" rule.hosts
  checkTargets "containers" rule.containers
  checkTargets "projects" rule.projects
  checkType lib reason rule
  checkLimits rule

/-! ## Accepted rules -/

/-- the engine compiles the rule, whichever of its lists are nil -/
def Compiles (lib : GoLib) (rule : AlertRule) : Prop :=
  ∀ src : SourceRule, src.toAlertRule = rule → ∃ c, compileRule lib src = some c

/-- the limits of the API -/
structure InLimits (rule : AlertRule) : Prop where
  threshold : 1 ≤ rule.threshold ∧ rule.threshold ≤ maxAlertThreshold
  window : minAlertWindowSecs ≤ rule.windowSeconds ∧ rule.windowSeconds ≤ maxAlertWindowSecs
  cooldown : 0 ≤ rule.cooldownSeconds ∧ rule.cooldownSeconds ≤ maxAlertCooldownSecs

section
variable {lib : GoLib} {reason : String → String} {req : AlertRuleRequest} {rule : AlertRule}

theorem checkLimits_ok {rule' : AlertRule} (h : checkLimits rule = .ok rule') :
    InLimits rule' ∧ rule' = withDefaults rule := by
  unfold checkLimits maxAlertThreshold minAlertWindowSecs maxAlertWindowSecs maxAlertCooldownSecs at h
  split_ifs at h with h1 h2 h3 h4 h5 h6
  cases h
  refine ⟨⟨?_, ?_, ?_⟩, rfl⟩
  · dsimp only [withDefaults, maxAlertThreshold]
    split_ifs <;> omega
  · dsimp only [withDefaults, minAlertWindowSecs, maxAlertWindowSecs]
    split_ifs <;> omega
  · dsimp only [withDefaults, maxAlertCooldownSecs]
    omega

/-- a check before others -/
theorem check_ok {α : Type} {check : Except String Unit} {others : Except String α} {a : α}
    (h : (check >>= fun _ => others) = .ok a) : check = .ok () ∧ others = .ok a := by
  cases check with
  | error _ => cases h
  | ok _ => exact ⟨rfl, h⟩

/-- a request is accepted when it passes every check -/
theorem buildAlertRule_iff : buildAlertRule lib reason req = .ok rule ↔
    checkName (requestedRule lib req) = .ok () ∧ checkTargets "hosts" (requestedRule lib req).hosts = .ok () ∧
      checkTargets "containers" (requestedRule lib req).containers = .ok () ∧
      checkTargets "projects" (requestedRule lib req).projects = .ok () ∧
      checkType lib reason (requestedRule lib req) = .ok () ∧ checkLimits (requestedRule lib req) = .ok rule := by
  constructor
  · intro h
    obtain ⟨hname, h⟩ := check_ok h
    obtain ⟨hhosts, h⟩ := check_ok h
    obtain ⟨hcontainers, h⟩ := check_ok h
    obtain ⟨hprojects, h⟩ := check_ok h
    obtain ⟨htype, hlimits⟩ := check_ok h
    exact ⟨hname, hhosts, hcontainers, hprojects, htype, hlimits⟩
  · rintro ⟨hname, hhosts, hcontainers, hprojects, htype, hlimits⟩
    simp only [buildAlertRule, bind, Except.bind, hname, hhosts, hcontainers, hprojects, htype, hlimits]

/-- **Accepted rules keep to the limits.** -/
theorem buildAlertRule_limits (h : buildAlertRule lib reason req = .ok rule) : InLimits rule :=
  (checkLimits_ok (buildAlertRule_iff.1 h).2.2.2.2.2).1

theorem checkType_ok (h : checkType lib reason rule = .ok ()) :
    (rule.type = "event" ∨ rule.type = "log") ∧ (rule.pattern ≠ "" → lib.compile rule.pattern ≠ none) := by
  unfold checkType at h
  split at h
  · by_cases hempty : rule.events = []
    · rw [if_pos hempty] at h
      cases h
    · rw [if_neg hempty] at h
      split at h
      · cases h
      · split_ifs at h with h1 h2
        exact ⟨.inl ‹_›, fun hne => absurd hne h2⟩
  · split_ifs at h with h1 h2 h3 h4
    exact ⟨.inr ‹_›, fun hne hnone => h4 ⟨hne, hnone⟩⟩
  · cases h
  · cases h

/-- **Accepted rules compile.** The engine skips none of the rules that the API accepts, unless it is disabled. -/
theorem buildAlertRule_compiles (h : buildAlertRule lib reason req = .ok rule) (henabled : rule.enabled = true) :
    Compiles lib rule := by
  rintro rule rfl
  obtain ⟨_, _, _, _, htype, hlimits⟩ := buildAlertRule_iff.1 h
  have hsame := (checkLimits_ok hlimits).2
  have htyp : rule.type = (requestedRule lib req).type := hsame ▸ rfl
  have hpat : rule.pattern = (requestedRule lib req).pattern := hsame ▸ rfl
  obtain ⟨hkind, hpattern⟩ := checkType_ok htype
  rw [← htyp] at hkind
  rw [← hpat] at hpattern
  have hknown : ¬ (rule.type ≠ "event" ∧ rule.type ≠ "log") := fun hother => hkind.elim hother.1 hother.2
  have hcompiles : ¬ (rule.pattern ≠ "" ∧ lib.compile rule.pattern = none) := fun hbad => hpattern hbad.1 hbad.2
  unfold compileRule
  rw [if_neg (by simp [henabled]), if_neg hknown, if_neg hcompiles]
  exact ⟨_, rfl⟩

/-- seconds within a day fit into a duration -/
theorem seconds_of_small {n : ℤ} (h0 : 0 ≤ n) (hday : n ≤ maxAlertCooldownSecs) : seconds n = n * second := by
  unfold maxAlertCooldownSecs at hday
  unfold seconds second
  exact Int.bmod_eq_of_le (by norm_num; omega) (by norm_num; omega)

theorem compileRule_times {rule : SourceRule} {c : CompiledRule} (h : compileRule lib rule = some c) :
    c.window = positiveOr (seconds rule.windowSeconds) defaultWindow ∧
      c.cooldown = positiveOr (seconds rule.cooldownSeconds) defaultCooldown := by
  unfold compileRule at h
  split at h
  · cases h
  split at h
  · cases h
  split at h
  · cases h
  · cases h
    exact ⟨rfl, rfl⟩

theorem positiveOr_le {d fallback bound : ℤ} (hd : d ≤ bound) (hf : fallback ≤ bound) :
    positiveOr d fallback ≤ bound := by
  unfold positiveOr
  split_ifs
  · exact hf
  · exact hd

/-- **Bounds.** Nothing that a rule within the limits asks for is older than the time after which windows are dropped. -/
theorem compileRule_bounded {rule : SourceRule} {c : CompiledRule} (hrule : InLimits rule.toAlertRule)
    (h : compileRule lib rule = some c) : c.window ≤ windowIdleTTL ∧ c.cooldown ≤ windowIdleTTL := by
  obtain ⟨hw0, hw1⟩ := hrule.window
  obtain ⟨hc0, hc1⟩ := hrule.cooldown
  unfold minAlertWindowSecs at hw0
  unfold maxAlertWindowSecs at hw1
  have hday : rule.windowSeconds ≤ maxAlertCooldownSecs := by
    unfold maxAlertCooldownSecs
    omega
  have hwindow := seconds_of_small (by omega) hday
  have hcooldown := seconds_of_small hc0 hc1
  obtain ⟨hw, hc⟩ := compileRule_times h
  rw [hw, hc, hwindow, hcooldown]
  unfold maxAlertCooldownSecs at hc1
  unfold second windowIdleTTL second
  exact ⟨positiveOr_le (by omega) (by decide), positiveOr_le (by omega) (by decide)⟩

end

end LogDeck.Alerts
