/-
The run loop of the alert engine (`alerts/engine.go`, `alerts/rules.go`).

One goroutine owns the compiled rules, the subscriptions and the windows; it takes one message at a time. The sinks of
the subscriptions run elsewhere: a sink keeps the rule it was made with, and goes on pushing matches after its
subscription has been replaced. A match carries the generation of its sink, and the loop drops it if that is not the
generation of the subscription the rule has now. Windows are kept under `ruleID|host|containerName`.

A step reads the clock once. The random id of an alert is left out, and an alert that finds the dispatch queue full is
an alert all the same.

Results:
- `compileRule_spec`: what a compiled rule takes over from its source;
- `reconcile_survives`: after a reconcile a window is kept exactly when `reflect.DeepEqual` finds its rule unchanged;
- `step_inv`: windows, subscriptions, matches under way and alerts belong to the rules of the last reconcile;
- `reconcile_keeps_iff`: which rules that say the same are found unchanged;
- `alerts_of_current_rules_iff`: the runs in which all of that is as the rules say.
-/
import LogDeck.Lib.GoQuote
import LogDeck.Lib.Machine
import LogDeck.Config.Manager
import LogDeck.Logstream.Hub
import LogDeck.Models.Logs
import LogDeck.Alerts.Window

namespace LogDeck.Alerts

open LogDeck.Config (AlertRule RuleList)
open LogDeck.HubLoop (ContainerSpec)
open LogDeck.LogStore (Labels trimSlash)
open LogDeck.Models (LogLevel LevelSeverity trimSpace)

/-- the parts of Go's library that rules are compiled with: `strings.ToUpper`, and `regexp.Compile` with
`MatchString`; none for a pattern that does not compile -/
structure GoLib where
  toUpper : String → String
  compile : String → Option (String → Bool)

/-! ## Rules -/

/-- a second, in nanoseconds -/
def second : ℤ := 1000000000

def defaultWindow : ℤ := 60 * second

def defaultCooldown : ℤ := 300 * second

def oomDieWindow : ℤ := 10 * second

def windowIdleTTL : ℤ := 24 * 3600 * second

def firedBuffer : ℕ := 1024

/-- a count of seconds as a `time.Duration`, which has 64 bits -/
def seconds (n : ℤ) : ℤ := (n * second).bmod (2 ^ 64)

def positiveOr (d fallback : ℤ) : ℤ := if d ≤ 0 then fallback else d

/-- a rule as the file configuration has it in memory. A list without elements is nil or it is not: the JSON of a rule shows
no difference, `reflect.DeepEqual` does -/
structure SourceRule extends AlertRule where
  isNil : RuleList → Bool
  nil_empty : ∀ l, isNil l = true → toAlertRule.list l = []

namespace SourceRule

theorem eq_iff {r r' : SourceRule} : r = r' ↔ r.toAlertRule = r'.toAlertRule ∧ ∀ l, r.isNil l = r'.isNil l := by
  constructor
  · rintro rfl
    exact ⟨rfl, fun _ => rfl⟩
  · rintro ⟨hrule, hnil⟩
    obtain ⟨rule, isNil, _⟩ := r
    obtain ⟨rule', isNil', _⟩ := r'
    obtain rfl : rule = rule' := hrule
    obtain rfl : isNil = isNil' := funext hnil
    rfl

/-- `reflect.DeepEqual` -/
instance : DecidableEq SourceRule := fun _ _ => decidable_of_iff _ eq_iff.symm

end SourceRule

/-- an enabled rule with its defaults filled in; an empty level or pattern is none -/
structure CompiledRule where
  id : String
  name : String
  typ : String
  spec : ContainerSpec
  events : List String
  minLevel : String
  minSeverity : ℕ
  pattern : String
  threshold : ℕ
  window : ℤ
  cooldown : ℤ
  src : SourceRule
deriving DecidableEq

/-- an unrecognized level asks for TRACE at least -/
def minSeverityOf (level : String) : ℕ := if level = "" then 0 else max 1 (LevelSeverity (LogLevel.ofName level))

def compileRule (lib : GoLib) (rule : SourceRule) : Option CompiledRule :=
  if rule.enabled = false then none
  else if rule.type ≠ "event" ∧ rule.type ≠ "log" then none
  else if rule.pattern ≠ "" ∧ lib.compile rule.pattern = none then none
  else
    let level := lib.toUpper (trimSpace rule.minLevel)
    some { id := rule.id
           name := rule.name
           typ := rule.type
           spec := { hosts := rule.hosts, containers := rule.containers, projects := rule.projects }
           events := rule.events
           minLevel := level
           minSeverity := minSeverityOf level
           pattern := rule.pattern
           threshold := max 1 rule.threshold.toNat
           window := positiveOr (seconds rule.windowSeconds) defaultWindow
           cooldown := positiveOr (seconds rule.cooldownSeconds) defaultCooldown
           src := rule }

def compileRules (lib : GoLib) (rules : List SourceRule) : List CompiledRule := rules.filterMap (compileRule lib)

/-- the log and the event rules of a rule set -/
def logRules (lib : GoLib) (rules : List SourceRule) : List CompiledRule :=
  (compileRules lib rules).filter fun r => r.typ = "log"

def eventRulesOf (lib : GoLib) (rules : List SourceRule) : List CompiledRule :=
  (compileRules lib rules).filter fun r => r.typ ≠ "log"

/-- a log record, with the fields of its entry that a rule reads -/
structure Record where
  host : String
  containerID : String
  containerName : String
  level : LogLevel
  message : String
  raw : String
deriving DecidableEq, Repr

namespace CompiledRule

def matchesEntry (lib : GoLib) (r : CompiledRule) (rec : Record) : Bool :=
  if r.minSeverity > 0 ∧ LevelSeverity rec.level < r.minSeverity then false
  else
    match lib.compile r.pattern with
    | none => true
    | some found => r.pattern = "" || found rec.message || found rec.raw

def hasEvent (r : CompiledRule) (action : String) : Bool := r.events.contains action

end CompiledRule

/-! ## Alerts -/

structure Alert where
  ruleID : String
  ruleName : String
  type : String
  host : String
  containerID : String
  containerName : String
  reason : String
  sample : String
  count : ℕ
  suppressed : ℕ
  firedAt : ℤ
deriving DecidableEq, Repr

/-- whole seconds, as a reason gives them -/
def inSeconds (d : ℤ) : String := toString (d.tdiv second) ++ "s"

def logReason (r : CompiledRule) : String :=
  let unit := if r.threshold = 1 then "match" else "matches"
  let conds :=
    (if r.minLevel = "" then [] else ["level >= " ++ r.minLevel]) ++
      (if r.pattern = "" then [] else ["pattern " ++ GoQuote.quote r.pattern])
  let cond := if conds = [] then "" else " (" ++ ", ".intercalate conds ++ ")"
  toString r.threshold ++ " " ++ unit ++ cond ++ " within " ++ inSeconds r.window

def eventReason (r : CompiledRule) (action exitCode : String) : String :=
  if r.threshold ≤ 1 then
    if action = "oom" then "container OOM-killed"
    else if action = "unhealthy" then "container became unhealthy"
    else "container died (exit " ++ exitCode ++ ")"
  else if action = "oom" then toString r.threshold ++ " OOM kills within " ++ inSeconds r.window
  else if action = "unhealthy" then toString r.threshold ++ " unhealthy transitions within " ++ inSeconds r.window
  else toString r.threshold ++ " container deaths within " ++ inSeconds r.window ++ " (last exit " ++ exitCode ++ ")"

def eventSample (action exitCode : String) : String :=
  if action = "oom" then "oom" else if action = "unhealthy" then "unhealthy" else "die (exit " ++ exitCode ++ ")"

def entrySample (rec : Record) : String := if rec.message ≠ "" then rec.message else rec.raw

def emit (r : CompiledRule) (host containerID containerName reason sample : String) (suppressed : ℕ) (now : ℤ) :
    Alert :=
  { ruleID := r.id
    ruleName := r.name
    type := r.typ
    host := host
    containerID := containerID
    containerName := containerName
    reason := reason
    sample := sample
    count := r.threshold
    suppressed := suppressed
    firedAt := now }

/-! ## The engine -/

structure ActiveSub where
  rule : CompiledRule
  gen : ℕ
deriving DecidableEq

structure MatchMsg where
  gen : ℕ
  rule : CompiledRule
  host : String
  containerID : String
  containerName : String
  sample : String
deriving DecidableEq

structure EngineEvent where
  host : String
  containerID : String
  containerName : String
  action : String
  exitCode : String
  healthStatus : String
  labels : Labels

/-- the outcome of an inspect, posted back to the loop -/
structure InspectResult where
  ev : EngineEvent
  action : String
  exitCode : String
  fire : Bool

structure Engine where
  gen : ℕ
  subs : String → Option ActiveSub
  eventRules : List CompiledRule
  windows : String → Option RuleWindow
  lastOOM : String → Option ℤ
  /-- every sink that has been made, replaced ones included -/
  sinks : List ActiveSub
  /-- `firedCh` -/
  fired : List MatchMsg
  /-- ghost: the rule set of the last reconcile -/
  rules : List SourceRule

def newEngine : Engine :=
  { gen := 0
    subs := fun _ => none
    eventRules := []
    windows := fun _ => none
    lastOOM := fun _ => none
    sinks := []
    fired := []
    rules := [] }

inductive Act where
  | reconcile (rules : List SourceRule)
  /-- a sink sees a record -/
  | record (sink : ℕ) (rec : Record)
  /-- the loop takes a match from `firedCh` -/
  | takeMatch (now : ℤ)
  | event (ev : EngineEvent) (now : ℤ)
  | inspect (r : InspectResult) (now : ℤ)
  /-- `pruneWindows` -/
  | prune (now : ℤ)

/-- the key of a window -/
def windowKey (ruleID host containerName : String) : String := ruleID ++ "|" ++ host ++ "|" ++ containerName

/-- `strings.Cut` at the first bar: the rule of a key -/
def ruleOf (key : String) : String := String.ofList (key.toList.takeWhile (· ≠ '|'))

/-- `strings.Cut(action, ": ")`, the part before -/
def beforeColonSpace : List Char → List Char
  | [] => []
  | ':' :: ' ' :: _ => []
  | c :: cs => c :: beforeColonSpace cs

namespace Engine

/-- the subscription of a rule stays when the new rule set has the same rule for it -/
def keeps (e : Engine) (newLog : List CompiledRule) (id : String) : Bool :=
  match e.subs id with
  | none => false
  | some sub => newLog.any fun nr => nr.id = id && nr.src = sub.rule.src

def subStale (e : Engine) (newLog : List CompiledRule) (id : String) : Bool :=
  (e.subs id).isSome && ! e.keeps newLog id

/-- an event rule is new or has changed, or is gone -/
def eventStale (e : Engine) (newEvent : List CompiledRule) (id : String) : Bool :=
  (newEvent.any fun r => r.id = id && ! e.eventRules.any fun o => o.id = r.id && o.src = r.src) ||
    e.eventRules.any fun o => o.id = id && ! newEvent.any fun r => r.id = id

/-- the windows of the rule go -/
def stale (lib : GoLib) (e : Engine) (rules : List SourceRule) (id : String) : Bool :=
  e.subStale (logRules lib rules) id || e.eventStale (eventRulesOf lib rules) id

def subscribeRule (e : Engine) (rule : CompiledRule) : Engine :=
  let sub := { rule := rule, gen := e.gen + 1 }
  { e with
    gen := e.gen + 1
    subs := Function.update e.subs rule.id (some sub)
    sinks := e.sinks ++ [sub] }

/-- drops the subscriptions that are stale, and makes those that are new -/
def resubscribe (lib : GoLib) (e : Engine) (rules : List SourceRule) : Engine :=
  let newLog := logRules lib rules
  let kept := { e with subs := fun id => if e.keeps newLog id then e.subs id else none }
  (newLog.filter fun r => ! e.keeps newLog r.id).foldl subscribeRule kept

def reconcile (lib : GoLib) (e : Engine) (rules : List SourceRule) : Engine :=
  { e.resubscribe lib rules with
    eventRules := eventRulesOf lib rules
    windows := fun key => if e.stale lib rules (ruleOf key) then none else e.windows key
    rules := rules }

/-- the sink of a subscription: a match is pushed unless the queue is full -/
def runSink (lib : GoLib) (e : Engine) (sink : ℕ) (rec : Record) : Engine :=
  match e.sinks[sink]? with
  | none => e
  | some s =>
    if s.rule.matchesEntry lib rec = false then e
    else if e.fired.length < firedBuffer then
      { e with
        fired := e.fired ++
          [{ gen := s.gen
             rule := s.rule
             host := rec.host
             containerID := rec.containerID
             containerName := rec.containerName
             sample := entrySample rec }] }
    else e

/-- records a match in the window of a key, which is made from the rule if there is none -/
def observe (e : Engine) (key : String) (rule : CompiledRule) (now : ℤ) : Engine × Option ℕ :=
  let w := (e.windows key).getD (newRuleWindow rule.threshold rule.window rule.cooldown)
  ({ e with windows := Function.update e.windows key (some (w.observe now).1) }, (w.observe now).2)

def handleMatch (e : Engine) (m : MatchMsg) (now : ℤ) : Engine × List Alert :=
  match e.subs m.rule.id with
  | none => (e, [])
  | some sub =>
    if sub.gen ≠ m.gen then (e, [])
    else
      let seen := e.observe (windowKey m.rule.id m.host m.containerName) m.rule now
      match seen.2 with
      | none => (seen.1, [])
      | some suppressed =>
        (seen.1, [emit m.rule m.host m.containerID m.containerName (logReason m.rule) m.sample suppressed now])

/-- a die that follows an oom of the same container counts once for a rule that watches both -/
def pairedDie (e : Engine) (rule : CompiledRule) (ev : EngineEvent) (action : String) (now : ℤ) : Bool :=
  action = "die" && rule.hasEvent "oom" &&
    match e.lastOOM (ev.host ++ "|" ++ ev.containerID) with
    | none => false
    | some t => now - t ≤ oomDieWindow

def recordRule (ev : EngineEvent) (action exitCode : String) (now : ℤ) (s : Engine × List Alert)
    (rule : CompiledRule) : Engine × List Alert :=
  let name := trimSlash ev.containerName
  if rule.hasEvent action = false ∨ rule.spec.matches ev.host name ev.labels = false then s
  else if s.1.pairedDie rule ev action now then s
  else
    let seen := s.1.observe (windowKey rule.id ev.host name) rule now
    match seen.2 with
    | none => (seen.1, s.2)
    | some suppressed =>
      (seen.1, s.2 ++ [emit rule ev.host ev.containerID name (eventReason rule action exitCode)
        (eventSample action exitCode) suppressed now])

def recordEventMatch (e : Engine) (ev : EngineEvent) (action exitCode : String) (now : ℤ) : Engine × List Alert :=
  let oomKey := ev.host ++ "|" ++ ev.containerID
  let e := if action = "oom" then { e with lastOOM := Function.update e.lastOOM oomKey (some now) } else e
  e.eventRules.foldl (recordRule ev action exitCode now) (e, [])

/-- an event without the exit code or the health state starts an inspect, whose result comes back later -/
def handleEvent (e : Engine) (ev : EngineEvent) (now : ℤ) : Engine × List Alert :=
  match String.ofList (beforeColonSpace ev.action.toList) with
  | "die" =>
    if ev.exitCode = "" then (e, [])
    else if ev.exitCode = "0" then (e, [])
    else e.recordEventMatch ev "die" ev.exitCode now
  | "oom" => e.recordEventMatch ev "oom" "" now
  | "health_status" =>
    if ev.healthStatus = "unhealthy" then e.recordEventMatch ev "unhealthy" "" now else (e, [])
  | _ => (e, [])

def handleInspect (e : Engine) (r : InspectResult) (now : ℤ) : Engine × List Alert :=
  if r.fire then e.recordEventMatch r.ev r.action r.exitCode now else (e, [])

def pruneWindows (e : Engine) (now : ℤ) : Engine :=
  { e with
    windows := fun key => (e.windows key).filter fun w => ! decide (w.idleSince now > windowIdleTTL)
    lastOOM := fun key => (e.lastOOM key).filter fun t => ! decide (now - t > oomDieWindow) }

def takeMatch (e : Engine) (now : ℤ) : Engine × List Alert :=
  match e.fired with
  | [] => (e, [])
  | m :: fired => ({ e with fired := fired } : Engine).handleMatch m now

/-- one step, with the alerts it emits -/
def step (lib : GoLib) (e : Engine) : Act → Engine × List Alert
  | .reconcile rules => (e.reconcile lib rules, [])
  | .record sink rec => (e.runSink lib sink rec, [])
  | .takeMatch now => e.takeMatch now
  | .event ev now => e.handleEvent ev now
  | .inspect r now => e.handleInspect r now
  | .prune now => (e.pruneWindows now, [])

/-- the engine after a step -/
def next (lib : GoLib) (e : Engine) (a : Act) : Engine := (e.step lib a).1

end Engine

/-! ## Compiled rules -/

section
variable {lib : GoLib} {rules : List SourceRule}

/-- what a compiled rule takes over -/
structure CompiledFrom (rule : SourceRule) (c : CompiledRule) : Prop where
  enabled : rule.enabled = true
  src : c.src = rule
  id : c.id = rule.id
  typ : c.typ = rule.type
  name : c.name = rule.name

theorem compileRule_spec {rule : SourceRule} {c : CompiledRule} (h : compileRule lib rule = some c) :
    CompiledFrom rule c := by
  unfold compileRule at h
  split_ifs at h with h1 h2 h3
  cases h
  exact ⟨by simpa using h1, rfl, rfl, rfl, rfl⟩

theorem mem_compileRules {c : CompiledRule} :
    c ∈ compileRules lib rules ↔ ∃ rule ∈ rules, compileRule lib rule = some c := List.mem_filterMap

theorem threshold_pos {c : CompiledRule} {rule : SourceRule} (h : compileRule lib rule = some c) :
    1 ≤ c.threshold := by
  unfold compileRule at h
  split_ifs at h with h1 h2 h3
  cases h
  exact le_max_left _ _

/-- ids are distinct and hold no bar -/
structure RulesOK (rules : List SourceRule) : Prop where
  nodup : (rules.map fun r => r.id).Nodup
  bar : ∀ rule ∈ rules, '|' ∉ rule.id.toList

theorem RulesOK.eq (h : RulesOK rules) {r r' : SourceRule} (hr : r ∈ rules) (hr' : r' ∈ rules)
    (hid : r.id = r'.id) : r = r' := List.inj_on_of_nodup_map h.nodup hr hr' hid

/-- compiled rules are told apart by their ids -/
theorem compiled_eq (h : RulesOK rules) {c c' : CompiledRule} (hc : c ∈ compileRules lib rules)
    (hc' : c' ∈ compileRules lib rules) (hid : c.id = c'.id) : c = c' := by
  obtain ⟨r, hr, hcr⟩ := mem_compileRules.mp hc
  obtain ⟨r', hr', hcr'⟩ := mem_compileRules.mp hc'
  have hspec := compileRule_spec hcr
  have hspec' := compileRule_spec hcr'
  have hsame : r = r' := h.eq hr hr' (hspec.id.symm.trans (hid.trans hspec'.id))
  subst hsame
  exact Option.some.inj (hcr.symm.trans hcr')

/-- compiling again gives the same rule -/
theorem compiled_of_src {rules' : List SourceRule} {c c' : CompiledRule} (hc : c ∈ compileRules lib rules)
    (hc' : c' ∈ compileRules lib rules') (hsrc : c.src = c'.src) : c = c' := by
  obtain ⟨r, -, hcr⟩ := mem_compileRules.mp hc
  obtain ⟨r', -, hcr'⟩ := mem_compileRules.mp hc'
  have hsame : r = r' := (compileRule_spec hcr).src.symm.trans (hsrc.trans (compileRule_spec hcr').src)
  subst hsame
  exact Option.some.inj (hcr.symm.trans hcr')

end

/-- the rule of a key is what it was made with -/
theorem ruleOf_windowKey {id : String} (hbar : '|' ∉ id.toList) (host containerName : String) :
    ruleOf (windowKey id host containerName) = id := by
  have hall : ∀ c ∈ id.toList, decide (c ≠ '|') = true := by
    intro c hc
    simp only [decide_eq_true_eq]
    rintro rfl
    exact hbar hc
  have htake : (windowKey id host containerName).toList.takeWhile (· ≠ '|') = id.toList := by
    calc (windowKey id host containerName).toList.takeWhile (· ≠ '|')
        = (id.toList ++ ('|' :: (host.toList ++ "|".toList ++ containerName.toList))).takeWhile (· ≠ '|') := by
          simp [windowKey, String.toList_append]
      _ = id.toList := by
          rw [List.takeWhile_append_of_pos hall, List.takeWhile_cons_of_neg (by simp), List.append_nil]
  unfold ruleOf
  rw [htake]
  exact String.ofList_toList

/-! ## What the engine keeps -/

/-- a window has the parameters of a rule -/
structure Fits (w : RuleWindow) (c : CompiledRule) : Prop where
  threshold : w.threshold = c.threshold
  window : w.window = c.window
  cooldown : w.cooldown = c.cooldown

structure Engine.Inv (lib : GoLib) (e : Engine) : Prop where
  rules : RulesOK e.rules
  eventRules : e.eventRules = (compileRules lib e.rules).filter fun r => r.typ ≠ "log"
  subs : ∀ id sub, e.subs id = some sub →
    sub.rule ∈ compileRules lib e.rules ∧ sub.rule.typ = "log" ∧ sub.rule.id = id ∧ sub ∈ e.sinks
  subscribed : ∀ c ∈ compileRules lib e.rules, c.typ = "log" → e.subs c.id ≠ none
  gens : ∀ s ∈ e.sinks, s.gen ≤ e.gen
  gen_inj : ∀ s ∈ e.sinks, ∀ s' ∈ e.sinks, s.gen = s'.gen → s = s'
  fired : ∀ m ∈ e.fired, ∃ s ∈ e.sinks, s.gen = m.gen ∧ s.rule = m.rule
  windows : ∀ key w, e.windows key = some w →
    ∃ c ∈ compileRules lib e.rules, ruleOf key = c.id ∧ Fits w c

section
variable {lib : GoLib} {e : Engine}

/-- the subscription of a compiled log rule is its own -/
theorem Engine.Inv.sub_of (hi : e.Inv lib) {c : CompiledRule} (hc : c ∈ compileRules lib e.rules)
    (htyp : c.typ = "log") : ∃ sub, e.subs c.id = some sub ∧ sub.rule = c := by
  obtain ⟨sub, hsub⟩ := Option.ne_none_iff_exists'.mp (hi.subscribed c hc htyp)
  obtain ⟨hmem, -, hid, -⟩ := hi.subs _ _ hsub
  exact ⟨sub, hsub, compiled_eq hi.rules hmem hc hid⟩

theorem Engine.Inv.bar (hi : e.Inv lib) {c : CompiledRule} (hc : c ∈ compileRules lib e.rules) :
    '|' ∉ c.id.toList := by
  obtain ⟨rule, hrule, hcr⟩ := mem_compileRules.mp hc
  rw [(compileRule_spec hcr).id]
  exact hi.rules.bar rule hrule

theorem mem_eventRules (hi : e.Inv lib) {c : CompiledRule} :
    c ∈ e.eventRules ↔ c ∈ compileRules lib e.rules ∧ c.typ ≠ "log" := by
  rw [hi.eventRules, List.mem_filter]
  simp

/-! ## Subscribing -/

structure Subscribed (e e' : Engine) (rs : List CompiledRule) : Prop where
  old : ∀ id, (∀ r ∈ rs, r.id ≠ id) → e'.subs id = e.subs id
  new : ∀ r ∈ rs, ∃ sub ∈ e'.sinks, e'.subs r.id = some sub ∧ ∃ r' ∈ rs, sub.rule = r' ∧ r'.id = r.id
  sinks : e.sinks <+: e'.sinks
  gens : ∀ s ∈ e'.sinks, s.gen ≤ e'.gen
  gen_inj : ∀ s ∈ e'.sinks, ∀ s' ∈ e'.sinks, s.gen = s'.gen → s = s'
  fired : e'.fired = e.fired

theorem subscribe_all (rs : List CompiledRule) (hgens : ∀ s ∈ e.sinks, s.gen ≤ e.gen)
    (hinj : ∀ s ∈ e.sinks, ∀ s' ∈ e.sinks, s.gen = s'.gen → s = s') :
    Subscribed e (rs.foldl Engine.subscribeRule e) rs := by
  induction rs generalizing e with
  | nil => exact ⟨fun _ _ => rfl, fun _ h => absurd h List.not_mem_nil, List.prefix_rfl, hgens, hinj, rfl⟩
  | cons r rs ih =>
    have hgens' : ∀ s ∈ (e.subscribeRule r).sinks, s.gen ≤ (e.subscribeRule r).gen := by
      intro s hs
      rcases List.mem_append.mp hs with hs | hs
      · exact (hgens s hs).trans (Nat.le_succ _)
      · rcases List.mem_singleton.mp hs with rfl
        exact le_rfl
    have hinj' : ∀ s ∈ (e.subscribeRule r).sinks, ∀ s' ∈ (e.subscribeRule r).sinks, s.gen = s'.gen → s = s' := by
      intro s hs s' hs' hgen
      rcases List.mem_append.mp hs with hs | hs <;> rcases List.mem_append.mp hs' with hs' | hs'
      · exact hinj s hs s' hs' hgen
      · rcases List.mem_singleton.mp hs' with rfl
        have hle := hgens s hs
        dsimp only at hgen
        omega
      · rcases List.mem_singleton.mp hs with rfl
        have hle := hgens s' hs'
        dsimp only at hgen
        omega
      · rw [List.mem_singleton.mp hs, List.mem_singleton.mp hs']
    have ih := ih hgens' hinj'
    refine ⟨?_, ?_, ?_, ih.gens, ih.gen_inj, ih.fired⟩
    · intro id hid
      rw [List.foldl_cons, ih.old id fun r' hr' => hid r' (List.mem_cons_of_mem _ hr')]
      exact Function.update_of_ne (hid r List.mem_cons_self).symm _ _
    · intro r' hr'
      by_cases hlater : ∃ r'' ∈ rs, r''.id = r'.id
      · obtain ⟨r'', hr'', hid⟩ := hlater
        obtain ⟨sub, hmem, hsub, q, hq, hrule, hqid⟩ := ih.new r'' hr''
        exact ⟨sub, hmem, hid ▸ hsub, q, List.mem_cons_of_mem _ hq, hrule, hqid.trans hid⟩
      · push Not at hlater
        rcases List.mem_cons.mp hr' with rfl | hr'
        · refine ⟨{ rule := r', gen := e.gen + 1 }, ?_, ?_, r', List.mem_cons_self, rfl, rfl⟩
          · exact ih.sinks.subset (List.mem_append_right _ (List.mem_singleton_self _))
          · rw [List.foldl_cons, ih.old r'.id hlater]
            exact Function.update_self ..
        · exact absurd rfl (hlater r' hr')
    · exact (List.prefix_append _ _).trans ih.sinks

/-! ## Reconciling -/

variable {rules : List SourceRule}

theorem mem_logRules {c : CompiledRule} :
    c ∈ logRules lib rules ↔ c ∈ compileRules lib rules ∧ c.typ = "log" := by
  unfold logRules
  rw [List.mem_filter]
  simp

theorem mem_eventRulesOf {c : CompiledRule} :
    c ∈ eventRulesOf lib rules ↔ c ∈ compileRules lib rules ∧ c.typ ≠ "log" := by
  unfold eventRulesOf
  rw [List.mem_filter]
  simp

/-- an event rule has no subscription -/
theorem Engine.Inv.no_sub (hi : e.Inv lib) {c : CompiledRule} (hc : c ∈ compileRules lib e.rules)
    (htyp : c.typ ≠ "log") : e.subs c.id = none := by
  by_contra hsome
  obtain ⟨sub, hsub⟩ := Option.ne_none_iff_exists'.mp hsome
  obtain ⟨hmem, hlog, hid, -⟩ := hi.subs _ _ hsub
  have hsame : sub.rule = c := compiled_eq hi.rules hmem hc hid
  exact htyp (hsame ▸ hlog)

theorem keeps_iff (hi : e.Inv lib) {c : CompiledRule} (hc : c ∈ compileRules lib e.rules) (htyp : c.typ = "log") :
    e.keeps (logRules lib rules) c.id = true ↔ c ∈ compileRules lib rules := by
  obtain ⟨sub, hsub, hrule⟩ := hi.sub_of hc htyp
  unfold Engine.keeps
  rw [hsub]
  simp only [List.any_eq_true, Bool.and_eq_true, decide_eq_true_eq, hrule]
  constructor
  · rintro ⟨nr, hnr, -, hsrc⟩
    have hmem := (mem_logRules.mp hnr).1
    have hsame : c = nr := compiled_of_src hc hmem hsrc.symm
    exact hsame ▸ hmem
  · intro hmem
    exact ⟨c, mem_logRules.mpr ⟨hmem, htyp⟩, rfl, rfl⟩

theorem eventStale_iff (hi : e.Inv lib) (hrules : RulesOK rules) {c : CompiledRule}
    (hc : c ∈ compileRules lib e.rules) (htyp : c.typ ≠ "log") :
    e.eventStale (eventRulesOf lib rules) c.id = false ↔ c ∈ compileRules lib rules := by
  have hcold := (mem_eventRules hi).mpr ⟨hc, htyp⟩
  unfold Engine.eventStale
  simp only [Bool.or_eq_false_iff, List.any_eq_false, Bool.and_eq_true, Bool.not_eq_true', List.any_eq_false,
    decide_eq_true_eq, not_and]
  constructor
  · rintro ⟨hchanged, hgone⟩
    have hgone := hgone c hcold rfl
    push Not at hgone
    obtain ⟨r, hr, hid⟩ := hgone
    have hchanged := hchanged r hr hid
    push Not at hchanged
    obtain ⟨o, ho, hoid, hosrc⟩ := hchanged
    have hrmem := (mem_eventRulesOf.mp hr).1
    have hoc : o = c := compiled_eq hi.rules ((mem_eventRules hi).mp ho).1 hc (hoid.trans hid)
    have hrc : c = r := compiled_of_src hc hrmem (hoc ▸ hosrc)
    exact hrc ▸ hrmem
  · intro hmem
    refine ⟨fun r hr hid hnone => ?_, fun o ho hid hnone => ?_⟩
    · have hrc : r = c := compiled_eq hrules (mem_eventRulesOf.mp hr).1 hmem hid
      subst hrc
      exact hnone r hcold rfl rfl
    · exact hnone c (mem_eventRulesOf.mpr ⟨hmem, htyp⟩) rfl

/-- a log rule is not among the event rules, old or new -/
theorem eventStale_log (hi : e.Inv lib) (hrules : RulesOK rules) {c : CompiledRule}
    (hc : c ∈ compileRules lib e.rules) (htyp : c.typ = "log") (hmem : c ∈ compileRules lib rules) :
    e.eventStale (eventRulesOf lib rules) c.id = false := by
  unfold Engine.eventStale
  simp only [Bool.or_eq_false_iff, List.any_eq_false, Bool.and_eq_true, decide_eq_true_eq, not_and]
  refine ⟨fun r hr hid => ?_, fun o ho hid => ?_⟩
  · obtain ⟨hrmem, hrtyp⟩ := mem_eventRulesOf.mp hr
    have hrc : r = c := compiled_eq hrules hrmem hmem hid
    exact absurd (hrc ▸ htyp) hrtyp
  · obtain ⟨homem, hotyp⟩ := (mem_eventRules hi).mp ho
    have hoc : o = c := compiled_eq hi.rules homem hc hid
    exact absurd (hoc ▸ htyp) hotyp

/-- **Reconcile.** The windows of a rule stay exactly when the new rule set has the same rule. -/
theorem reconcile_survives (hi : e.Inv lib) (hrules : RulesOK rules) {c : CompiledRule}
    (hc : c ∈ compileRules lib e.rules) : e.stale lib rules c.id = false ↔ c ∈ compileRules lib rules := by
  unfold Engine.stale Engine.subStale
  by_cases htyp : c.typ = "log"
  · obtain ⟨sub, hsub, -⟩ := hi.sub_of hc htyp
    rw [hsub]
    simp only [Option.isSome_some, Bool.true_and, Bool.or_eq_false_iff, Bool.not_eq_false']
    constructor
    · exact fun h => (keeps_iff hi hc htyp).mp h.1
    · exact fun hmem => ⟨(keeps_iff hi hc htyp).mpr hmem, eventStale_log hi hrules hc htyp hmem⟩
  · rw [hi.no_sub hc htyp]
    simp only [Option.isSome_none, Bool.false_and, Bool.false_or]
    exact eventStale_iff hi hrules hc htyp

/-- a subscription is kept, or it is new -/
theorem reconcile_subs (hi : e.Inv lib) (rules : List SourceRule) :
    (∀ id, e.keeps (logRules lib rules) id = true → (e.reconcile lib rules).subs id = e.subs id) ∧
    (∀ id sub, (e.reconcile lib rules).subs id = some sub → e.keeps (logRules lib rules) id = false →
      sub ∈ (e.reconcile lib rules).sinks ∧ sub.rule ∈ logRules lib rules ∧ sub.rule.id = id) ∧
    (∀ r ∈ logRules lib rules, e.keeps (logRules lib rules) r.id = false →
      (e.reconcile lib rules).subs r.id ≠ none) := by
  set newLog := logRules lib rules
  set kept : Engine := { e with subs := fun id => if e.keeps newLog id then e.subs id else none }
  set rs := newLog.filter fun r => ! e.keeps newLog r.id
  have hall : Subscribed kept (rs.foldl Engine.subscribeRule kept) rs := subscribe_all rs hi.gens hi.gen_inj
  have hmem : ∀ r, r ∈ rs ↔ r ∈ newLog ∧ e.keeps newLog r.id = false := by
    intro r
    simp [rs]
  refine ⟨fun id hkeeps => ?_, fun id sub hsub hkeeps => ?_, fun r hr hkeeps => ?_⟩
  · have hold : (rs.foldl Engine.subscribeRule kept).subs id = kept.subs id := by
      refine hall.old id fun r hr hid => ?_
      have hnot := ((hmem r).mp hr).2
      rw [hid, hkeeps] at hnot
      cases hnot
    exact hold.trans (if_pos hkeeps)
  · by_cases hnew : ∃ r ∈ rs, r.id = id
    · obtain ⟨r, hr, rfl⟩ := hnew
      obtain ⟨sub', hsink, hsub', r', hr', hrule, hid⟩ := hall.new r hr
      have hsame : sub = sub' := Option.some.inj (hsub.symm.trans hsub')
      subst hsame
      exact ⟨hsink, hrule ▸ ((hmem r').mp hr').1, hrule ▸ hid⟩
    · push Not at hnew
      have hold : (rs.foldl Engine.subscribeRule kept).subs id = kept.subs id := hall.old id hnew
      have hnone : kept.subs id = none := if_neg (by rw [hkeeps]; exact Bool.false_ne_true)
      have hcontra := hsub.symm.trans (hold.trans hnone)
      cases hcontra
  · obtain ⟨sub, -, hsub, -⟩ := hall.new r ((hmem r).mpr ⟨hr, hkeeps⟩)
    intro hnone
    have hcontra := hsub.symm.trans hnone
    cases hcontra

theorem keeps_some {newLog : List CompiledRule} {id : String} (h : e.keeps newLog id = true) :
    ∃ sub, e.subs id = some sub ∧ ∃ nr ∈ newLog, nr.id = id ∧ nr.src = sub.rule.src := by
  unfold Engine.keeps at h
  cases hsub : e.subs id with
  | none =>
    rw [hsub] at h
    cases h
  | some sub =>
    rw [hsub] at h
    simp only [List.any_eq_true, Bool.and_eq_true, decide_eq_true_eq] at h
    exact ⟨sub, rfl, h⟩

theorem reconcile_inv (hi : e.Inv lib) (hrules : RulesOK rules) : (e.reconcile lib rules).Inv lib := by
  obtain ⟨hkept, hnew, hmade⟩ := reconcile_subs hi rules
  set kept : Engine := { e with subs := fun id => if e.keeps (logRules lib rules) id then e.subs id else none }
  have hall : Subscribed kept (e.resubscribe lib rules) _ := subscribe_all _ hi.gens hi.gen_inj
  refine ⟨hrules, rfl, ?_, ?_, hall.gens, hall.gen_inj, ?_, ?_⟩
  · intro id sub hsub
    cases hkeeps : e.keeps (logRules lib rules) id with
    | true =>
      obtain ⟨sub', hsub', nr, hnr, -, hsrc⟩ := keeps_some hkeeps
      rw [hkept id hkeeps, hsub'] at hsub
      cases hsub
      obtain ⟨hmem, htyp, hid, hsink⟩ := hi.subs id sub hsub'
      have hnrmem := (mem_logRules.mp hnr).1
      have hsame : sub.rule = nr := compiled_of_src hmem hnrmem hsrc.symm
      exact ⟨hsame ▸ hnrmem, htyp, hid, hall.sinks.subset hsink⟩
    | false =>
      obtain ⟨hsink, hrule, hid⟩ := hnew id sub hsub hkeeps
      obtain ⟨hmem, htyp⟩ := mem_logRules.mp hrule
      exact ⟨hmem, htyp, hid, hsink⟩
  · intro c hc htyp
    cases hkeeps : e.keeps (logRules lib rules) c.id with
    | true =>
      obtain ⟨sub, hsub, -⟩ := keeps_some hkeeps
      rw [hkept c.id hkeeps, hsub]
      exact Option.some_ne_none sub
    | false => exact hmade c (mem_logRules.mpr ⟨hc, htyp⟩) hkeeps
  · intro m hm
    rw [show (e.reconcile lib rules).fired = e.fired from hall.fired] at hm
    obtain ⟨s, hs, hgen, hrule⟩ := hi.fired m hm
    exact ⟨s, hall.sinks.subset hs, hgen, hrule⟩
  · intro key w hw
    obtain ⟨hstale, hw⟩ := Option.ite_none_left_eq_some.mp hw
    obtain ⟨c, hc, hid, hfits⟩ := hi.windows key w hw
    rw [hid, Bool.not_eq_true] at hstale
    exact ⟨c, (reconcile_survives hi hrules hc).mp hstale, hid, hfits⟩

/-! ## The other steps -/

/-- an alert as the engine makes it for a rule -/
structure Alert.From (a : Alert) (c : CompiledRule) : Prop where
  ruleID : a.ruleID = c.id
  ruleName : a.ruleName = c.name
  type : a.type = c.typ
  count : a.count = c.threshold
  reason : a.reason = logReason c ∨ ∃ action exitCode, a.reason = eventReason c action exitCode

/-- alerts of current rules only -/
def AlertsFrom (lib : GoLib) (rules : List SourceRule) (alerts : List Alert) : Prop :=
  ∀ a ∈ alerts, ∃ c ∈ compileRules lib rules, a.From c

/-- the window of a rule is as the rule has it -/
theorem Engine.Inv.fits (hi : e.Inv lib) {c : CompiledRule} (hc : c ∈ compileRules lib e.rules)
    {host containerName : String} {w : RuleWindow} (hw : e.windows (windowKey c.id host containerName) = some w) :
    Fits w c := by
  obtain ⟨c', hc', hid, hfits⟩ := hi.windows _ w hw
  rw [ruleOf_windowKey (hi.bar hc)] at hid
  have hsame : c = c' := compiled_eq hi.rules hc hc' hid
  exact hsame ▸ hfits

/-- a match of the generation of the subscription was made by its sink -/
theorem Engine.Inv.current (hi : e.Inv lib) {m : MatchMsg} (hm : ∃ s ∈ e.sinks, s.gen = m.gen ∧ s.rule = m.rule)
    {sub : ActiveSub} (hsub : e.subs m.rule.id = some sub) (hgen : sub.gen = m.gen) :
    m.rule ∈ compileRules lib e.rules := by
  obtain ⟨s, hs, hsgen, hsrule⟩ := hm
  obtain ⟨hmem, -, -, hsink⟩ := hi.subs _ _ hsub
  have hsame : sub = s := hi.gen_inj sub hsink s hs (hgen.trans hsgen.symm)
  rw [← hsrule, ← hsame]
  exact hmem

theorem observe_inv (hi : e.Inv lib) {c : CompiledRule} (hc : c ∈ compileRules lib e.rules)
    (host containerName : String) (now : ℤ) :
    ((e.observe (windowKey c.id host containerName) c now).1).Inv lib := by
  refine ⟨hi.rules, hi.eventRules, hi.subs, hi.subscribed, hi.gens, hi.gen_inj, hi.fired, fun key w hw => ?_⟩
  by_cases hkey : key = windowKey c.id host containerName
  · subst hkey
    obtain ⟨rule, hrule, hcr⟩ := mem_compileRules.mp hc
    have hbar : '|' ∉ c.id.toList := (compileRule_spec hcr).id ▸ hi.rules.bar rule hrule
    have hold : Fits ((e.windows (windowKey c.id host containerName)).getD
        (newRuleWindow c.threshold c.window c.cooldown)) c := by
      cases hw₀ : e.windows (windowKey c.id host containerName) with
      | none => exact ⟨rfl, rfl, rfl⟩
      | some w₀ =>
        obtain ⟨c', hc', hid, hfits⟩ := hi.windows _ w₀ hw₀
        rw [ruleOf_windowKey hbar] at hid
        have hsame : c = c' := compiled_eq hi.rules hc hc' hid
        exact hsame ▸ hfits
    simp only [Engine.observe, Function.update_self, Option.some.injEq] at hw
    subst hw
    obtain ⟨hthreshold, hwindow, hcooldown⟩ := observe_params ((e.windows
      (windowKey c.id host containerName)).getD (newRuleWindow c.threshold c.window c.cooldown)) now
    exact ⟨c, hc, ruleOf_windowKey (hi.bar hc) .., hthreshold.trans hold.threshold, hwindow.trans hold.window,
      hcooldown.trans hold.cooldown⟩
  · simp only [Engine.observe, Function.update_of_ne hkey] at hw
    exact hi.windows key w hw

theorem handleMatch_inv (hi : e.Inv lib) {m : MatchMsg} (hm : ∃ s ∈ e.sinks, s.gen = m.gen ∧ s.rule = m.rule)
    (now : ℤ) : (e.handleMatch m now).1.Inv lib ∧ (e.handleMatch m now).1.rules = e.rules ∧
      AlertsFrom lib e.rules (e.handleMatch m now).2 := by
  unfold Engine.handleMatch
  cases hsub : e.subs m.rule.id with
  | none => exact ⟨hi, rfl, nofun⟩
  | some sub =>
    by_cases hgen : sub.gen ≠ m.gen
    · simp only [if_pos hgen]
      exact ⟨hi, trivial, nofun⟩
    · simp only [if_neg hgen]
      have hrule := hi.current hm hsub (not_not.mp hgen)
      have hseen := observe_inv hi hrule m.host m.containerName now
      cases (e.observe (windowKey m.rule.id m.host m.containerName) m.rule now).2 with
      | none => exact ⟨hseen, rfl, nofun⟩
      | some suppressed =>
        refine ⟨hseen, rfl, fun a ha => ⟨m.rule, hrule, ?_⟩⟩
        rw [List.mem_singleton.mp ha]
        exact ⟨rfl, rfl, rfl, rfl, .inl rfl⟩

theorem recordRule_inv (ev : EngineEvent) (action exitCode : String) (now : ℤ) {s : Engine × List Alert}
    (hi : s.1.Inv lib) (halerts : AlertsFrom lib s.1.rules s.2) {c : CompiledRule}
    (hc : c ∈ compileRules lib s.1.rules) :
    (Engine.recordRule ev action exitCode now s c).1.Inv lib ∧
      (Engine.recordRule ev action exitCode now s c).1.rules = s.1.rules ∧
      AlertsFrom lib s.1.rules (Engine.recordRule ev action exitCode now s c).2 := by
  unfold Engine.recordRule
  by_cases hskip : c.hasEvent action = false ∨ c.spec.matches ev.host (trimSlash ev.containerName) ev.labels = false
  · simp only [if_pos hskip]
    exact ⟨hi, trivial, halerts⟩
  simp only [if_neg hskip]
  by_cases hpaired : s.1.pairedDie c ev action now = true
  · simp only [if_pos hpaired]
    exact ⟨hi, trivial, halerts⟩
  simp only [if_neg hpaired]
  have hseen := observe_inv hi hc ev.host (trimSlash ev.containerName) now
  cases (s.1.observe (windowKey c.id ev.host (trimSlash ev.containerName)) c now).2 with
  | none => exact ⟨hseen, rfl, halerts⟩
  | some suppressed =>
    refine ⟨hseen, rfl, fun a ha => ?_⟩
    rcases List.mem_append.mp ha with ha | ha
    · exact halerts a ha
    · rw [List.mem_singleton.mp ha]
      exact ⟨c, hc, rfl, rfl, rfl, rfl, .inr ⟨action, exitCode, rfl⟩⟩

theorem recordRules_inv (ev : EngineEvent) (action exitCode : String) (now : ℤ) (cs : List CompiledRule)
    {s : Engine × List Alert} (hi : s.1.Inv lib) (halerts : AlertsFrom lib s.1.rules s.2)
    (hcs : ∀ c ∈ cs, c ∈ compileRules lib s.1.rules) :
    (cs.foldl (Engine.recordRule ev action exitCode now) s).1.Inv lib ∧
      (cs.foldl (Engine.recordRule ev action exitCode now) s).1.rules = s.1.rules ∧
      AlertsFrom lib s.1.rules (cs.foldl (Engine.recordRule ev action exitCode now) s).2 := by
  induction cs generalizing s with
  | nil => exact ⟨hi, rfl, halerts⟩
  | cons c cs ih =>
    obtain ⟨hi', hrules, halerts'⟩ := recordRule_inv ev action exitCode now hi halerts
      (hcs c List.mem_cons_self)
    rw [← hrules] at halerts' hcs ⊢
    exact ih hi' halerts' fun c' hc' => hcs c' (List.mem_cons_of_mem _ hc')

/-- a step that keeps the invariant and the rules, and emits alerts of these rules -/
structure Keeps (lib : GoLib) (e : Engine) (r : Engine × List Alert) : Prop where
  inv : r.1.Inv lib
  rules : r.1.rules = e.rules
  alerts : AlertsFrom lib e.rules r.2

theorem Keeps.silent (hi : e.Inv lib) : Keeps lib e (e, []) := ⟨hi, rfl, nofun⟩

theorem recordEventMatch_keeps (hi : e.Inv lib) (ev : EngineEvent) (action exitCode : String) (now : ℤ) :
    Keeps lib e (e.recordEventMatch ev action exitCode now) := by
  unfold Engine.recordEventMatch
  set e' := if action = "oom" then
    { e with lastOOM := Function.update e.lastOOM (ev.host ++ "|" ++ ev.containerID) (some now) } else e with he'
  have hi' : e'.Inv lib ∧ e'.rules = e.rules := by
    rw [he']
    split_ifs
    · exact ⟨⟨hi.rules, hi.eventRules, hi.subs, hi.subscribed, hi.gens, hi.gen_inj, hi.fired, hi.windows⟩, rfl⟩
    · exact ⟨hi, rfl⟩
  obtain ⟨hinv, hrules⟩ := hi'
  have hcs : ∀ c ∈ e'.eventRules, c ∈ compileRules lib e'.rules := fun c hc => ((mem_eventRules hinv).mp hc).1
  obtain ⟨h1, h2, h3⟩ := recordRules_inv ev action exitCode now e'.eventRules (s := (e', [])) hinv nofun hcs
  have halerts : AlertsFrom lib e.rules (e'.eventRules.foldl (Engine.recordRule ev action exitCode now) (e', [])).2 := by
    rw [← hrules]
    exact h3
  exact ⟨h1, h2.trans hrules, halerts⟩

theorem handleEvent_keeps (hi : e.Inv lib) (ev : EngineEvent) (now : ℤ) : Keeps lib e (e.handleEvent ev now) := by
  unfold Engine.handleEvent
  split
  · split_ifs
    · exact .silent hi
    · exact .silent hi
    · exact recordEventMatch_keeps hi ev _ _ now
  · exact recordEventMatch_keeps hi ev _ _ now
  · split_ifs
    · exact recordEventMatch_keeps hi ev _ _ now
    · exact .silent hi
  · exact .silent hi

theorem takeMatch_keeps (hi : e.Inv lib) (now : ℤ) : Keeps lib e (e.takeMatch now) := by
  unfold Engine.takeMatch
  cases hfired : e.fired with
  | nil => exact .silent hi
  | cons m fired =>
    have hm := hi.fired m (hfired ▸ List.mem_cons_self)
    have hi' : ({ e with fired := fired } : Engine).Inv lib :=
      ⟨hi.rules, hi.eventRules, hi.subs, hi.subscribed, hi.gens, hi.gen_inj,
        fun m' hm' => hi.fired m' (hfired ▸ List.mem_cons_of_mem _ hm'), hi.windows⟩
    obtain ⟨h1, h2, h3⟩ := handleMatch_inv hi' hm now
    exact ⟨h1, h2, h3⟩

theorem runSink_inv (hi : e.Inv lib) (sink : ℕ) (rec : Record) :
    (e.runSink lib sink rec).Inv lib ∧ (e.runSink lib sink rec).rules = e.rules := by
  unfold Engine.runSink
  cases hs : e.sinks[sink]? with
  | none => exact ⟨hi, rfl⟩
  | some s =>
    dsimp only
    split_ifs with hmatch hroom
    · exact ⟨hi, rfl⟩
    · refine ⟨⟨hi.rules, hi.eventRules, hi.subs, hi.subscribed, hi.gens, hi.gen_inj, ?_, hi.windows⟩, rfl⟩
      intro m hm
      rcases List.mem_append.mp hm with hm | hm
      · exact hi.fired m hm
      · rw [List.mem_singleton.mp hm]
        exact ⟨s, List.mem_of_getElem? hs, rfl, rfl⟩
    · exact ⟨hi, rfl⟩

theorem pruneWindows_inv (hi : e.Inv lib) (now : ℤ) : (e.pruneWindows now).Inv lib := by
  refine ⟨hi.rules, hi.eventRules, hi.subs, hi.subscribed, hi.gens, hi.gen_inj, hi.fired, fun key w hw => ?_⟩
  exact hi.windows key w (Option.filter_eq_some_iff.mp hw).1

end

/-- the rule sets an act reconciles to are in order -/
def Act.OK : Act → Prop
  | .reconcile rules => RulesOK rules
  | _ => True

/-- the rule set of the last reconcile, after an act -/
def Act.rulesAfter (e : Engine) : Act → List SourceRule
  | .reconcile rules => rules
  | _ => e.rules

/-- **One step.** Whatever the loop handles, what the engine keeps and emits is of the rules it was last given. -/
theorem step_inv {lib : GoLib} {e : Engine} (hi : e.Inv lib) {a : Act} (ha : a.OK) :
    (e.next lib a).Inv lib ∧ (e.next lib a).rules = a.rulesAfter e ∧ AlertsFrom lib e.rules (e.step lib a).2 := by
  have hkeeps : ∀ r : Engine × List Alert, Keeps lib e r →
      r.1.Inv lib ∧ r.1.rules = e.rules ∧ AlertsFrom lib e.rules r.2 := fun r h => ⟨h.inv, h.rules, h.alerts⟩
  cases a with
  | reconcile rules => exact ⟨reconcile_inv hi ha, rfl, nofun⟩
  | record sink rec =>
    obtain ⟨hinv, hrules⟩ := runSink_inv hi sink rec
    exact ⟨hinv, hrules, nofun⟩
  | takeMatch now => exact hkeeps _ (takeMatch_keeps hi now)
  | event ev now => exact hkeeps _ (handleEvent_keeps hi ev now)
  | inspect r now =>
    refine hkeeps _ ?_
    change Keeps lib e (e.handleInspect r now)
    unfold Engine.handleInspect
    split_ifs
    · exact recordEventMatch_keeps hi r.ev _ _ now
    · exact .silent hi
  | prune now => exact ⟨pruneWindows_inv hi now, rfl, nofun⟩

theorem newEngine_inv (lib : GoLib) : newEngine.Inv lib where
  rules := ⟨List.nodup_nil, fun _ h => absurd h List.not_mem_nil⟩
  eventRules := rfl
  subs _ _ h := absurd h (Option.some_ne_none _).symm
  subscribed _ h := absurd h List.not_mem_nil
  gens _ h := absurd h List.not_mem_nil
  gen_inj _ h := absurd h List.not_mem_nil
  fired _ h := absurd h List.not_mem_nil
  windows _ _ h := absurd h (Option.some_ne_none _).symm

/-- the engine after a run -/
def runEngine (lib : GoLib) (acts : List Act) : Engine := Machine.run (Engine.next lib) newEngine acts

theorem run_inv (lib : GoLib) {acts : List Act} (hacts : ∀ a ∈ acts, a.OK) : (runEngine lib acts).Inv lib := by
  unfold runEngine
  have hi := newEngine_inv lib
  generalize newEngine = e at hi ⊢
  induction acts generalizing e with
  | nil => exact hi
  | cons a acts ih =>
    exact ih (fun a' ha' => hacts a' (List.mem_cons_of_mem _ ha')) _ (step_inv hi (hacts a List.mem_cons_self)).1

/-- a rule of both rule sets: its windows and its subscription are left alone -/
theorem reconcile_unchanged {lib : GoLib} {e : Engine} (hi : e.Inv lib) {rules : List SourceRule}
    (hrules : RulesOK rules) {rule : SourceRule} (hold : rule ∈ e.rules) (hnew : rule ∈ rules) :
    (∀ key, ruleOf key = rule.id → (e.reconcile lib rules).windows key = e.windows key) ∧
      (e.reconcile lib rules).subs rule.id = e.subs rule.id := by
  obtain ⟨hkept, hnewsub, -⟩ := reconcile_subs hi rules
  -- whatever bears the id of the rule is compiled from it
  have howner : ∀ rules', RulesOK rules' → rule ∈ rules' → ∀ c ∈ compileRules lib rules', c.id = rule.id →
      compileRule lib rule = some c := by
    intro rules' hok hmem c hc hid
    obtain ⟨r, hr, hcr⟩ := mem_compileRules.mp hc
    have hsame : r = rule := hok.eq hr hmem ((compileRule_spec hcr).id.symm.trans hid)
    exact hsame ▸ hcr
  cases hcomp : compileRule lib rule with
  | none =>
    constructor
    · intro key hkey
      have hnone : e.windows key = none := by
        by_contra hsome
        obtain ⟨w, hw⟩ := Option.ne_none_iff_exists'.mp hsome
        obtain ⟨c, hc, hid, -⟩ := hi.windows key w hw
        have hcontra := howner e.rules hi.rules hold c hc (hid.symm.trans hkey)
        rw [hcomp] at hcontra
        cases hcontra
      rw [hnone]
      change (if _ then none else e.windows key) = none
      rw [hnone, ite_self]
    · have hnone : ∀ e' : Engine, e'.Inv lib → rule ∈ e'.rules → e'.subs rule.id = none := by
        intro e' hi' hmem
        by_contra hsome
        obtain ⟨sub, hsub⟩ := Option.ne_none_iff_exists'.mp hsome
        obtain ⟨hc, -, hid, -⟩ := hi'.subs _ _ hsub
        have hcontra := howner e'.rules hi'.rules hmem sub.rule hc hid
        rw [hcomp] at hcontra
        cases hcontra
      rw [hnone e hi hold, hnone _ (reconcile_inv hi hrules) hnew]
  | some c =>
    have hspec := compileRule_spec hcomp
    have hcold : c ∈ compileRules lib e.rules := mem_compileRules.mpr ⟨rule, hold, hcomp⟩
    have hcnew : c ∈ compileRules lib rules := mem_compileRules.mpr ⟨rule, hnew, hcomp⟩
    have hfresh := (reconcile_survives hi hrules hcold).mpr hcnew
    rw [hspec.id] at hfresh
    constructor
    · intro key hkey
      change (if e.stale lib rules (ruleOf key) then none else e.windows key) = e.windows key
      rw [hkey, hfresh]
      rfl
    · by_cases htyp : c.typ = "log"
      · rw [← hspec.id]
        exact hkept c.id ((keeps_iff hi hcold htyp).mpr hcnew)
      · rw [← hspec.id, hi.no_sub hcold htyp, (reconcile_inv hi hrules).no_sub hcnew htyp]

/-- a rule that is not in the new rule set as it was, or not enabled, loses its windows -/
theorem reconcile_changed {lib : GoLib} {e : Engine} (hi : e.Inv lib) {rules : List SourceRule}
    (hrules : RulesOK rules) {rule : SourceRule} (hold : rule ∈ e.rules) (hnew : ¬ (rule ∈ rules ∧ rule.enabled = true))
    {key : String} (hkey : ruleOf key = rule.id) : (e.reconcile lib rules).windows key = none := by
  by_contra hsome
  obtain ⟨w, hw⟩ := Option.ne_none_iff_exists'.mp hsome
  obtain ⟨hstale, hw⟩ := Option.ite_none_left_eq_some.mp hw
  obtain ⟨c, hc, hid, -⟩ := hi.windows key w hw
  rw [hid, Bool.not_eq_true] at hstale
  obtain ⟨r, hr, hcr⟩ := mem_compileRules.mp hc
  obtain ⟨r', hr', hcr'⟩ := mem_compileRules.mp ((reconcile_survives hi hrules hc).mp hstale)
  have hspec := compileRule_spec hcr
  have hsame : r = rule := hi.rules.eq hr hold (hspec.id.symm.trans (hid.symm.trans hkey))
  have hsame' : r = r' := hspec.src.symm.trans (compileRule_spec hcr').src
  exact hnew ⟨hsame ▸ hsame' ▸ hr', hsame ▸ hspec.enabled⟩

/-- the rules that say the same compile to the same, but for what they were compiled from -/
theorem compileRule_congr (lib : GoLib) {r rule : SourceRule} (hsame : r.toAlertRule = rule.toAlertRule) :
    compileRule lib r = (compileRule lib rule).map fun c => { c with src := r } := by
  unfold compileRule
  rw [hsame]
  split_ifs <;> rfl

/-- the engine keeps to the rule set of the last reconcile -/
structure Current (lib : GoLib) (e : Engine) (a : Act) : Prop where
  /-- an alert is of an enabled rule, as the rule set has it -/
  alerts : ∀ alert ∈ (e.step lib a).2, ∃ rule ∈ e.rules, rule.enabled = true ∧
    ∃ c, compileRule lib rule = some c ∧ alert.From c
  /-- a window has the parameters of such a rule -/
  windows : ∀ key w, e.windows key = some w → ∃ rule ∈ e.rules, rule.enabled = true ∧ ruleOf key = rule.id ∧
    ∃ c, compileRule lib rule = some c ∧ Fits w c
  /-- a rule that is in the new rule set as it was keeps its windows and its subscription -/
  keeps : ∀ rules, a = .reconcile rules → ∀ rule ∈ e.rules, (∃ r ∈ rules, r.toAlertRule = rule.toAlertRule) →
    (∀ key, ruleOf key = rule.id → (e.next lib a).windows key = e.windows key) ∧
      (e.next lib a).subs rule.id = e.subs rule.id
  /-- a rule that is not, or is disabled, loses its windows -/
  drops : ∀ rules, a = .reconcile rules → ∀ rule ∈ e.rules,
    ¬ (∃ r ∈ rules, r.toAlertRule = rule.toAlertRule ∧ r.enabled = true) →
      ∀ key, ruleOf key = rule.id → (e.next lib a).windows key = none

/-- a reconcile to a rule that says the same finds the same lists nil, unless nothing is kept for the rule -/
def Steady (lib : GoLib) (e : Engine) (a : Act) : Prop :=
  ∀ rules, a = .reconcile rules → ∀ rule ∈ e.rules, ∀ r ∈ rules, r.toAlertRule = rule.toAlertRule →
    compileRule lib rule ≠ none → (rule.type = "log" ∨ ∃ key w, ruleOf key = rule.id ∧ e.windows key = some w) →
      ∀ l, r.isNil l = rule.isNil l

section
variable {lib : GoLib} {e : Engine} {rules : List SourceRule} {rule r : SourceRule}

/-- nothing is kept for a rule that does not compile -/
theorem Engine.Inv.nothing (hi : e.Inv lib) (hmem : rule ∈ e.rules) (hnone : compileRule lib rule = none) :
    (∀ key, ruleOf key = rule.id → e.windows key = none) ∧ e.subs rule.id = none := by
  -- whatever bears the id of the rule is compiled from it
  have howner : ∀ c ∈ compileRules lib e.rules, c.id ≠ rule.id := by
    intro c hc hid
    obtain ⟨r, hr, hcr⟩ := mem_compileRules.mp hc
    have hsame : r = rule := hi.rules.eq hr hmem ((compileRule_spec hcr).id.symm.trans hid)
    rw [hsame, hnone] at hcr
    cases hcr
  constructor
  · intro key hkey
    by_contra hsome
    obtain ⟨w, hw⟩ := Option.ne_none_iff_exists'.mp hsome
    obtain ⟨c, hc, hid, -⟩ := hi.windows key w hw
    exact howner c hc (hid.symm.trans hkey)
  · by_contra hsome
    obtain ⟨sub, hsub⟩ := Option.ne_none_iff_exists'.mp hsome
    obtain ⟨hc, -, hid, -⟩ := hi.subs _ _ hsub
    exact howner sub.rule hc hid

/-- a reconcile makes no windows -/
theorem reconcile_windows_none {key : String} (h : e.windows key = none) :
    (e.reconcile lib rules).windows key = none := by
  change (if _ then none else e.windows key) = none
  rw [h, ite_self]

/-- a rule whose lists are nil otherwise is taken for another -/
theorem reconcile_mistaken (hi : e.Inv lib) (hrules : RulesOK rules) (hold : rule ∈ e.rules) (hnew : r ∈ rules)
    (hsame : r.toAlertRule = rule.toAlertRule) (hne : r ≠ rule) {c : CompiledRule} (hc : compileRule lib rule = some c) :
    (∀ key, ruleOf key = rule.id → (e.reconcile lib rules).windows key = none) ∧
      (rule.type = "log" → (e.reconcile lib rules).subs rule.id ≠ e.subs rule.id) := by
  have hspec := compileRule_spec hc
  have hcmem : c ∈ compileRules lib e.rules := mem_compileRules.mpr ⟨rule, hold, hc⟩
  have hgone : c ∉ compileRules lib rules := by
    intro hmem
    obtain ⟨r', hr', hcr'⟩ := mem_compileRules.mp hmem
    obtain rfl : r' = rule := (compileRule_spec hcr').src.symm.trans hspec.src
    exact hne (hrules.eq hnew hr' (congrArg AlertRule.id hsame))
  constructor
  · intro key hkey
    have hstale : e.stale lib rules c.id = true := by
      rw [← Bool.not_eq_false, reconcile_survives hi hrules hcmem]
      exact hgone
    change (if e.stale lib rules (ruleOf key) then none else e.windows key) = none
    rw [hkey, ← hspec.id, hstale, if_pos rfl]
  · intro htyp hsubs
    obtain ⟨sub, hsub, hrule⟩ := hi.sub_of hcmem (hspec.typ.trans htyp)
    rw [hspec.id] at hsub
    -- the subscription of the new rule set is of a rule of it
    obtain ⟨hmem, -⟩ := (reconcile_inv hi hrules).subs rule.id sub (hsubs.trans hsub)
    rw [hrule] at hmem
    exact hgone hmem

/-- **One reconcile.** -/
theorem reconcile_keeps_iff (hi : e.Inv lib) (hrules : RulesOK rules) (hold : rule ∈ e.rules) (hnew : r ∈ rules)
    (hsame : r.toAlertRule = rule.toAlertRule) :
    ((∀ key, ruleOf key = rule.id → (e.reconcile lib rules).windows key = e.windows key) ∧
        (e.reconcile lib rules).subs rule.id = e.subs rule.id) ↔
      (compileRule lib rule ≠ none → (rule.type = "log" ∨ ∃ key w, ruleOf key = rule.id ∧ e.windows key = some w) →
        ∀ l, r.isNil l = rule.isNil l) := by
  have hid : r.id = rule.id := congrArg AlertRule.id hsame
  constructor
  · rintro ⟨hwindows, hsubs⟩ hcompiles hkept
    obtain ⟨c, hc⟩ := Option.ne_none_iff_exists'.mp hcompiles
    by_contra hnil
    obtain ⟨hdropped, hreplaced⟩ := reconcile_mistaken hi hrules hold hnew hsame
      (fun heq => hnil (SourceRule.eq_iff.1 heq).2) hc
    rcases hkept with htyp | ⟨key, w, hkey, hw⟩
    · exact hreplaced htyp hsubs
    · rw [← hwindows key hkey, hdropped key hkey] at hw
      cases hw
  · intro hsteady
    cases hc : compileRule lib rule with
    | none =>
      have hnone : compileRule lib r = none := by rw [compileRule_congr lib hsame, hc, Option.map_none]
      obtain ⟨hwindows, hsubs⟩ := hi.nothing hold hc
      obtain ⟨-, hsubs'⟩ := (reconcile_inv hi hrules).nothing hnew hnone
      rw [hid] at hsubs'
      exact ⟨fun key hkey => (reconcile_windows_none (hwindows key hkey)).trans (hwindows key hkey).symm,
        hsubs'.trans hsubs.symm⟩
    | some c =>
      by_cases hkept : rule.type = "log" ∨ ∃ key w, ruleOf key = rule.id ∧ e.windows key = some w
      · obtain rfl : r = rule := SourceRule.eq_iff.2 ⟨hsame, hsteady (by simp [hc]) hkept⟩
        exact reconcile_unchanged hi hrules hold hnew
      · push Not at hkept
        obtain ⟨htyp, hwindows⟩ := hkept
        have hspec := compileRule_spec hc
        have hnone : ∀ key, ruleOf key = rule.id → e.windows key = none := by
          intro key hkey
          by_contra hsome
          obtain ⟨w, hw⟩ := Option.ne_none_iff_exists'.mp hsome
          exact hwindows key w hkey hw
        have hsubs : e.subs c.id = none :=
          hi.no_sub (mem_compileRules.mpr ⟨rule, hold, hc⟩) fun h => htyp (hspec.typ.symm.trans h)
        have hcnew : ({ c with src := r } : CompiledRule) ∈ compileRules lib rules :=
          mem_compileRules.mpr ⟨r, hnew, by rw [compileRule_congr lib hsame, hc, Option.map_some]⟩
        have hsubs' : (e.reconcile lib rules).subs ({ c with src := r } : CompiledRule).id = none :=
          (reconcile_inv hi hrules).no_sub hcnew fun h => htyp (hspec.typ.symm.trans h)
        rw [← hspec.id]
        refine ⟨fun key hkey => ?_, hsubs'.trans hsubs.symm⟩
        rw [hspec.id] at hkey
        exact (reconcile_windows_none (hnone key hkey)).trans (hnone key hkey).symm

/-- **One step.** The engine keeps to the current rules exactly when nothing that it keeps is of a rule whose lists have
changed from nil to empty, or back. -/
theorem current_iff (hi : e.Inv lib) {a : Act} (ha : a.OK) : Current lib e a ↔ Steady lib e a := by
  constructor
  · rintro hcurrent rules rfl rule hold r hnew hsame
    exact (reconcile_keeps_iff hi ha hold hnew hsame).1 (hcurrent.keeps rules rfl rule hold ⟨r, hnew, hsame⟩)
  · intro hsteady
    refine ⟨?_, ?_, ?_, ?_⟩
    · intro alert halert
      obtain ⟨-, -, halerts⟩ := step_inv hi ha
      obtain ⟨c, hc, hfrom⟩ := halerts alert halert
      obtain ⟨rule, hrule, hcr⟩ := mem_compileRules.mp hc
      exact ⟨rule, hrule, (compileRule_spec hcr).enabled, c, hcr, hfrom⟩
    · intro key w hw
      obtain ⟨c, hc, hid, hfits⟩ := hi.windows key w hw
      obtain ⟨rule, hrule, hcr⟩ := mem_compileRules.mp hc
      have hspec := compileRule_spec hcr
      exact ⟨rule, hrule, hspec.enabled, hid.trans hspec.id, c, hcr, hfits⟩
    · rintro rules rfl rule hold ⟨r, hnew, hsame⟩
      exact (reconcile_keeps_iff hi ha hold hnew hsame).2 (hsteady rules rfl rule hold r hnew hsame)
    · rintro rules rfl rule hold hgone key hkey
      exact reconcile_changed hi ha hold (fun h => hgone ⟨rule, h.1, rfl, h.2⟩) hkey

end

/-- **Alerts of current rules.** In every run of reconciles, records, matches (those of replaced subscriptions
included), events, inspect results and prunes: every alert and every window is of an enabled rule of the last reconcile,
as that rule set has it, and a reconcile keeps the windows and the subscription of the rules that have not changed and
drops the windows of all others, exactly when no reconcile meets a rule for which it keeps something with a list that was
nil and is empty now, or was empty and is nil. -/
theorem alerts_of_current_rules_iff (lib : GoLib) (acts : List Act) (hacts : ∀ a ∈ acts, a.OK) :
    Machine.Each (Engine.next lib) (Current lib) newEngine acts ↔
      Machine.Each (Engine.next lib) (Steady lib) newEngine acts :=
  Machine.each_iff_contract (fun _ _ hi ha => (step_inv hi ha).1) (fun _ _ hi ha => current_iff hi ha)
    (newEngine_inv lib) (Machine.each_of_forall hacts)

/-- a rule for containers that die, on any host -/
def dieRule : AlertRule :=
  { (default : AlertRule) with
    id := "r1"
    enabled := true
    type := "event"
    events := ["die"]
    threshold := 1
    cooldownSeconds := 300 }

/-- a rule of a request that names neither containers nor projects, and perhaps no hosts -/
def requested (rule : AlertRule) (hosts : Bool) (h : rule.hosts = [] ∧ rule.containers = [] ∧ rule.projects = []) :
    SourceRule :=
  { rule with
    isNil := fun
      | .hosts => ! hosts
      | .containers | .projects => true
      | .events => false
    nil_empty := by
      intro l hl
      cases l with
      | hosts => exact h.1
      | containers => exact h.2.1
      | projects => exact h.2.2
      | events => cases hl }

def dieEvent : EngineEvent :=
  { host := "local"
    containerID := "c1"
    containerName := "/web"
    action := "die"
    exitCode := "1"
    healthStatus := ""
    labels := [] }

/-- a library in which no pattern compiles -/
def noRegexp : GoLib := { toUpper := id, compile := fun _ => none }

/-- a rule is made with an empty list of hosts, fires, and is stored again without the list: its window is gone -/
theorem empty_hosts_lose_window :
    ¬ ∀ (lib : GoLib) (acts : List Act), (∀ a ∈ acts, a.OK) →
      Machine.Each (Engine.next lib) (Current lib) newEngine acts := by
  intro hall
  have hok : ∀ a ∈ [Act.reconcile [requested dieRule true (by decide)], .event dieEvent 0,
      .reconcile [requested dieRule false (by decide)]], a.OK := by
    intro a ha
    simp only [List.mem_cons, List.not_mem_nil, or_false] at ha
    rcases ha with rfl | rfl | rfl
    · exact ⟨by decide, by decide⟩
    · trivial
    · exact ⟨by decide, by decide⟩
  obtain ⟨-, -, hlast, -⟩ := hall noRegexp _ hok
  have hkept := (hlast.keeps _ rfl (requested dieRule true (by decide)) (by decide)
    ⟨requested dieRule false (by decide), by decide, rfl⟩).1 "r1|local|web" (by decide)
  revert hkept
  decide

/-- the rule fires, and once it is disabled its window is gone -/
theorem disabled_rule_current :
    Machine.Each (Engine.next noRegexp) (Current noRegexp) newEngine
      [.reconcile [requested dieRule true (by decide)], .event dieEvent 0,
        .reconcile [requested { dieRule with enabled := false } false (by decide)]] := by
  refine (alerts_of_current_rules_iff noRegexp _ fun a ha => ?_).2 ⟨?_, ?_, ?_, trivial⟩
  · simp only [List.mem_cons, List.not_mem_nil, or_false] at ha
    rcases ha with rfl | rfl | rfl
    · exact ⟨by decide, by decide⟩
    · trivial
    · exact ⟨by decide, by decide⟩
  · rintro rules - rule hold
    cases hold
  · rintro rules hact
    cases hact
  · rintro rules hact rule hold r hnew hsame
    cases hact
    obtain rfl := List.mem_singleton.1 hnew
    obtain rfl : rule = requested dieRule true (by decide) := List.mem_singleton.1 hold
    exact absurd (congrArg AlertRule.enabled hsame) (by decide)

end LogDeck.Alerts
