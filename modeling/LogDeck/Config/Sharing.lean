/-
What the configuration manager shares with the mutate functions (`config/alerts.go`, `config/logstore.go`).

`UpdateAlerts` hands a mutate function copies of the channels and of the rules, and `UpdateLogStore` a copy of the
settings. The copies are shallow: the lists of a rule and the values behind the pointers of the log store are those of
the live configuration. Here they have arrays of their own. A mutate function that fails after it has written into one of
them has changed the live configuration.

The other updates share nothing, and act on what `view` shows of this manager.

Results:
- `step_lent`, `run_lent`: what a step of a mutate function, and a run of one, can reach of the live configuration, and what
  it writes there;
- `updateAlerts_cases`, `updateLogStore_cases`: the outcomes of the two updates;
- `Lent.refused_iff`, `LentStore.refused_iff`: an update that fails leaves the configuration as it was exactly when what its
  mutate function has written there was there before.
-/
import LogDeck.Config.Transactions

namespace LogDeck.Config

open GoSlice

/-! ## Memory -/

/-- an `AlertRule` in an array -/
structure RuleRef where
  id : String
  name : String
  enabled : Bool
  type : String
  lists : RuleList → Slice
  minLevel : String
  pattern : String
  threshold : ℤ
  windowSeconds : ℤ
  cooldownSeconds : ℤ
  createdAt : String
deriving Inhabited

/-- the fields of v, and lists -/
def RuleRef.make (v : AlertRule) (lists : RuleList → Slice) : RuleRef :=
  { id := v.id
    name := v.name
    enabled := v.enabled
    type := v.type
    lists := lists
    minLevel := v.minLevel
    pattern := v.pattern
    threshold := v.threshold
    windowSeconds := v.windowSeconds
    cooldownSeconds := v.cooldownSeconds
    createdAt := v.createdAt }

/-- a `LogStoreConfig`; a pointer is a slice of length one -/
structure LogStoreRef where
  enabled : Option Slice
  perContainerMB : Option Slice
  totalMB : Option Slice

/-- the arrays of rules, and what the rules and the log store point at -/
structure Shared where
  rules : Heap RuleRef
  texts : Heap String
  flags : Heap Bool
  numbers : Heap ℤ

/-- what a pointer points at -/
def deref {α : Type} (h : Heap α) (p : Option Slice) : Option α := p.bind fun p => (h.read p).head?

namespace Shared

def rule (sh : Shared) (r : RuleRef) : AlertRule :=
  { id := r.id
    name := r.name
    enabled := r.enabled
    type := r.type
    hosts := sh.texts.read (r.lists .hosts)
    containers := sh.texts.read (r.lists .containers)
    projects := sh.texts.read (r.lists .projects)
    events := sh.texts.read (r.lists .events)
    minLevel := r.minLevel
    pattern := r.pattern
    threshold := r.threshold
    windowSeconds := r.windowSeconds
    cooldownSeconds := r.cooldownSeconds
    createdAt := r.createdAt }

def logStore (sh : Shared) (l : LogStoreRef) : LogStoreConfig :=
  { enabled := deref sh.flags l.enabled
    perContainerMB := deref sh.numbers l.perContainerMB
    totalMB := deref sh.numbers l.totalMB }

/-- a rule with lists of its own -/
def placeRule (sh : Shared) (v : AlertRule) : Shared × RuleRef :=
  let hosts := literal sh.texts v.hosts
  let containers := literal hosts.1 v.containers
  let projects := literal containers.1 v.projects
  let events := literal projects.1 v.events
  ({ sh with texts := events.1 },
   RuleRef.make v fun
     | .hosts => hosts.2
     | .containers => containers.2
     | .projects => projects.2
     | .events => events.2)

def placeRules (sh : Shared) : List AlertRule → Shared × List RuleRef
  | [] => (sh, [])
  | v :: vs =>
    let placed := sh.placeRule v
    let rest := placed.1.placeRules vs
    (rest.1, placed.2 :: rest.2)

def place (sh : Shared) : SliceStep AlertRule → Shared × SliceStep RuleRef
  | .overwrite i v => ((sh.placeRule v).1, .overwrite i (sh.placeRule v).2)
  | .append v spare => ((sh.placeRule v).1, .append (sh.placeRule v).2 spare)
  | .remove i => (sh, .remove i)
  | .reslice i j => (sh, .reslice i j)
  | .replace vs => ((sh.placeRules vs).1, .replace (sh.placeRules vs).2)

end Shared

structure SharedManager where
  /-- the manager but for the rules and the log store, in whose place it may have anything -/
  base : Manager
  shared : Shared
  logStore : Option LogStoreRef

namespace SharedManager

/-- the manager with the rules and the log store as they are found behind slices and pointers -/
def view (s : SharedManager) : Manager :=
  { s.base with
    mem := { s.base.mem with rules := s.shared.rules.map s.shared.rule }
    file := { s.base.file with logStore := s.logStore.map s.shared.logStore } }

def persist (s : SharedManager) : SharedManager := { s with base := { s.base with disk := s.view.fileConfig } }

def setAlerts (s : SharedManager) (alerts : Option AlertsRef) : SharedManager :=
  { s with base := { s.base with file := { s.base.file with alerts := alerts } } }

def setLogStore (s : SharedManager) (logStore : Option LogStoreRef) : SharedManager := { s with logStore := logStore }

end SharedManager

/-! ## Mutate functions of `UpdateAlerts` -/

inductive RuleStep where
  /-- the fields that are no slices become those of v -/
  | fields (v : AlertRule)
  /-- a change to a list of the rule, made through its slice -/
  | list (l : RuleList) (o : SliceStep String)

inductive SharedAlertsStep where
  | webhookURL (url : String)
  | channels (o : SliceStep AlertChannel)
  /-- a rule that is put in has lists of its own -/
  | rules (o : SliceStep AlertRule)
  /-- `current.Rules[i]` -/
  | rule (i : ℕ) (o : RuleStep)

/-- what a mutate function works on -/
structure Handed where
  channels : Heap AlertChannel
  shared : Shared
  alerts : AlertsRef

namespace Handed

def value (h : Handed) : AlertsConfig :=
  { webhookURL := h.alerts.webhookURL
    channels := h.channels.read h.alerts.channels
    rules := (h.shared.rules.read h.alerts.rules).map h.shared.rule }

/-- a change to the array of rules -/
def stepRules (h : Handed) (o : SliceStep RuleRef) : Handed :=
  let rules := stepSlice (h.shared.rules, h.alerts.rules) o
  { h with shared := { h.shared with rules := rules.1 }, alerts := { h.alerts with rules := rules.2 } }

def ruleAt (h : Handed) (i : ℕ) : Option RuleRef := (h.shared.rules.read h.alerts.rules)[i]?

def stepRule (h : Handed) (i : ℕ) (r : RuleRef) : RuleStep → Handed
  | .fields v => h.stepRules (.overwrite i (RuleRef.make v r.lists))
  | .list l o =>
    let list := stepSlice (h.shared.texts, r.lists l) o
    { h with shared := { h.shared with texts := list.1 } }.stepRules
      (.overwrite i { r with lists := Function.update r.lists l list.2 })

/-- one step; an index out of range changes nothing -/
def step (h : Handed) : SharedAlertsStep → Handed
  | .webhookURL url => { h with alerts := { h.alerts with webhookURL := url } }
  | .channels o =>
    let channels := stepSlice (h.channels, h.alerts.channels) o
    { h with channels := channels.1, alerts := { h.alerts with channels := channels.2 } }
  | .rules o => { h with shared := (h.shared.place o).1 }.stepRules (h.shared.place o).2
  | .rule i o => (h.ruleAt i).elim h fun r => h.stepRule i r o

/-- what a step writes into the lists of rules -/
def writes (h : Handed) : SharedAlertsStep → List (Cell × String)
  | .rule i (.list l o) => (h.ruleAt i).elim [] fun r => GoSlice.writes (h.shared.texts, r.lists l) o
  | _ => []

def run (h : Handed) (steps : List SharedAlertsStep) : Handed := steps.foldl step h

def allWrites (h : Handed) : List SharedAlertsStep → List (Cell × String)
  | [] => []
  | o :: steps => h.writes o ++ (h.step o).allWrites steps

end Handed

/-! ## Mutate functions of `UpdateLogStore` -/

inductive PointerStep (α : Type) where
  /-- the pointer is set, to a value of its own or to nil -/
  | set (v : Option α)
  /-- `*p = v`, which a nil pointer does not survive -/
  | write (v : α)

/-- a change through a pointer -/
def stepPointer {α : Type} [Inhabited α] (h : Heap α) (p : Option Slice) : PointerStep α → Heap α × Option Slice
  | .set none => (h, none)
  | .set (some v) => ((literal h [v]).1, some (literal h [v]).2)
  | .write v => p.elim (h, none) fun p => ((stepSlice (h, p) (.overwrite 0 v)).1, some p)

def pointerWrites {α : Type} (h : Heap α) (p : Option Slice) : PointerStep α → List (Cell × α)
  | .set _ => []
  | .write v => p.elim [] fun p => GoSlice.writes (h, p) (.overwrite 0 v)

inductive LogStoreStep where
  | enabled (o : PointerStep Bool)
  | perContainerMB (o : PointerStep ℤ)
  | totalMB (o : PointerStep ℤ)

/-- what a mutate function works on -/
structure HandedStore where
  shared : Shared
  logStore : LogStoreRef

namespace HandedStore

def step (h : HandedStore) : LogStoreStep → HandedStore
  | .enabled o =>
    let p := stepPointer h.shared.flags h.logStore.enabled o
    { shared := { h.shared with flags := p.1 }, logStore := { h.logStore with enabled := p.2 } }
  | .perContainerMB o =>
    let p := stepPointer h.shared.numbers h.logStore.perContainerMB o
    { shared := { h.shared with numbers := p.1 }, logStore := { h.logStore with perContainerMB := p.2 } }
  | .totalMB o =>
    let p := stepPointer h.shared.numbers h.logStore.totalMB o
    { shared := { h.shared with numbers := p.1 }, logStore := { h.logStore with totalMB := p.2 } }

def run (h : HandedStore) (steps : List LogStoreStep) : HandedStore := steps.foldl step h

def flagWrites (h : HandedStore) : List LogStoreStep → List (Cell × Bool)
  | [] => []
  | .enabled o :: steps => pointerWrites h.shared.flags h.logStore.enabled o ++ (h.step (.enabled o)).flagWrites steps
  | o :: steps => (h.step o).flagWrites steps

def numberWrites (h : HandedStore) : List LogStoreStep → List (Cell × ℤ)
  | [] => []
  | .perContainerMB o :: steps =>
    pointerWrites h.shared.numbers h.logStore.perContainerMB o ++ (h.step (.perContainerMB o)).numberWrites steps
  | .totalMB o :: steps =>
    pointerWrites h.shared.numbers h.logStore.totalMB o ++ (h.step (.totalMB o)).numberWrites steps
  | o :: steps => (h.step o).numberWrites steps

end HandedStore

/-! ## Updates -/

/-- the Update operations, with mutate functions that write into what they are handed -/
inductive SharedOp where
  | dockerHosts (hosts : List DockerHost)
  | coolifyHosts (hosts : List CoolifyHostConfig)
  | readOnly (readOnly : Bool)
  | auth (mutate : FileAuthConfig → List FileAuthConfig × AuthReturn)
  | apiTokens (mutate : List APIToken → List (SliceStep APIToken) × Bool)
  | alerts (mutate : AlertsConfig → List SharedAlertsStep × Bool)
  | logStore (mutate : LogStoreConfig → List LogStoreStep × Bool)

namespace SharedManager

/-- an update that shares nothing -/
def rest (env : Env) (w : World) (s : SharedManager) (op : UpdateOp) : SharedManager × Option UpdateError :=
  ({ s with base := (s.view.update env w op).1 }, (s.view.update env w op).2)

/-- the copy that `UpdateAlerts` hands out: new arrays, with the slices of the old rules in them -/
def cloneAlerts (s : SharedManager) : Handed :=
  match s.base.file.alerts with
  | none =>
    let channels := literal s.base.mem.channels []
    let rules := literal s.shared.rules []
    { channels := channels.1
      shared := { s.shared with rules := rules.1 }
      alerts := { webhookURL := "", channels := channels.2, rules := rules.2 } }
  | some a =>
    let channels := clone s.base.mem.channels a.channels
    let rules := clone s.shared.rules a.rules
    { channels := channels.1
      shared := { s.shared with rules := rules.1 }
      alerts := { webhookURL := a.webhookURL, channels := channels.2, rules := rules.2 } }

/-- memory as a mutate function leaves it -/
def after (s : SharedManager) (h : Handed) : SharedManager :=
  { s with base := { s.base with mem := { s.base.mem with channels := h.channels } }, shared := h.shared }

def updateAlerts (w : World) (s : SharedManager) (mutate : AlertsConfig → List SharedAlertsStep × Bool) :
    SharedManager × Option UpdateError :=
  let current := s.cloneAlerts
  let updated := current.run (mutate current.value).1
  let s := s.after updated
  if (mutate current.value).2 then
    let old := s.base.file.alerts
    let s := s.setAlerts (some updated.alerts)
    if w.persists then (s.persist, none) else (s.setAlerts old, some .persist)
  else (s, some .mutate)

/-- the copy that `UpdateLogStore` hands out, with the old pointers in it -/
def cloneLogStore (s : SharedManager) : HandedStore :=
  { shared := s.shared
    logStore := s.logStore.getD { enabled := none, perContainerMB := none, totalMB := none } }

def updateLogStore (w : World) (s : SharedManager) (mutate : LogStoreConfig → List LogStoreStep × Bool) :
    SharedManager × Option UpdateError :=
  let current := s.cloneLogStore
  let handed := current.shared.logStore current.logStore
  let updated := current.run (mutate handed).1
  let s := { s with shared := updated.shared }
  if (mutate handed).2 then
    let old := s.logStore
    let s := s.setLogStore (some updated.logStore)
    if w.persists then (s.persist, none) else (s.setLogStore old, some .persist)
  else (s, some .mutate)

def update (env : Env) (w : World) (s : SharedManager) : SharedOp → SharedManager × Option UpdateError
  | .dockerHosts hosts => s.rest env w (.dockerHosts hosts)
  | .coolifyHosts hosts => s.rest env w (.coolifyHosts hosts)
  | .readOnly readOnly => s.rest env w (.readOnly readOnly)
  | .auth mutate => s.rest env w (.auth mutate)
  | .apiTokens mutate => s.rest env w (.apiTokens mutate)
  | .alerts mutate => s.updateAlerts w mutate
  | .logStore mutate => s.updateLogStore w mutate

def step (env : Env) (s : SharedManager) (e : SharedOp × World) : SharedManager := (s.update env e.2 e.1).1

end SharedManager

/-- a pointer to a value read from the file -/
def loadPointer {α : Type} (h : Heap α) : Option α → Heap α × Option Slice
  | none => (h, none)
  | some v => ((literal h [v]).1, some (literal h [v]).2)

/-- allocates the rules and the log store of the file -/
def loadShared (fc : FileConfig) : Shared × Option LogStoreRef :=
  let store := fc.logStore.getD { enabled := none, perContainerMB := none, totalMB := none }
  let enabled := loadPointer Heap.empty store.enabled
  let perContainerMB := loadPointer Heap.empty store.perContainerMB
  let totalMB := loadPointer perContainerMB.1 store.totalMB
  let placed := Shared.placeRules { rules := .empty, texts := .empty, flags := enabled.1, numbers := totalMB.1 }
    ((fc.alerts.map AlertsConfig.rules).getD [])
  ({ placed.1 with rules := (literal .empty placed.2).1 },
   fc.logStore.map fun _ => { enabled := enabled.2, perContainerMB := perContainerMB.2, totalMB := totalMB.2 })

def newSharedManager (env : Env) (w : World) (newChannelID : String) (disk : FileConfig) : SharedManager :=
  { base := newManager env w newChannelID disk
    shared := (loadShared ((migrated newChannelID disk).getD disk)).1
    logStore := (loadShared ((migrated newChannelID disk).getD disk)).2 }

/-! ## What is placed -/

section
variable {sh sh' : Shared} {r : RuleRef}

theorem rule_eq_iff : sh'.rule r = sh.rule r ↔ ∀ l, sh'.texts.read (r.lists l) = sh.texts.read (r.lists l) := by
  constructor
  · intro heq l
    cases l with
    | hosts => exact congrArg AlertRule.hosts heq
    | containers => exact congrArg AlertRule.containers heq
    | projects => exact congrArg AlertRule.projects heq
    | events => exact congrArg AlertRule.events heq
  · intro hlists
    unfold Shared.rule
    rw [hlists .hosts, hlists .containers, hlists .projects, hlists .events]

/-- the lists of a rule lie in memory that has been allocated -/
def RuleRef.InBounds (texts : Heap String) (r : RuleRef) : Prop := ∀ l, (r.lists l).InBounds texts

theorem RuleRef.InBounds.written {texts texts' : Heap String} {ws : List (Cell × String)} (hr : r.InBounds texts)
    (hw : Written texts texts' ws) : r.InBounds texts' := fun l => (hr l).written hw

/-- an allocation does not change a rule -/
theorem rule_frame (hr : r.InBounds sh.texts) (hf : Heap.Frame sh.texts.next sh.texts sh'.texts) :
    sh'.rule r = sh.rule r := rule_eq_iff.2 fun l => hf.read (hr l).allocated

/-- values that are placed in new arrays -/
structure Placed (sh sh' : Shared) (vs : List AlertRule) (rs : List RuleRef) : Prop where
  texts : Heap.Frame sh.texts.next sh.texts sh'.texts
  rest : sh' = { sh with texts := sh'.texts }
  lists : ∀ r ∈ rs, r.InBounds sh'.texts
  values : rs.map sh'.rule = vs

theorem placeRule_placed (sh : Shared) (v : AlertRule) :
    Placed sh (sh.placeRule v).1 [v] [(sh.placeRule v).2] := by
  set h1 := (literal sh.texts v.hosts).1 with hh1
  set h2 := (literal h1 v.containers).1 with hh2
  set h3 := (literal h2 v.projects).1 with hh3
  set h4 := (literal h3 v.events).1 with hh4
  have f1 : Heap.Frame sh.texts.next sh.texts h1 := (literal_frame sh.texts v.hosts).1
  have f2 : Heap.Frame h1.next h1 h2 := (literal_frame h1 v.containers).1
  have f3 : Heap.Frame h2.next h2 h3 := (literal_frame h2 v.projects).1
  have f4 : Heap.Frame h3.next h3 h4 := (literal_frame h3 v.events).1
  have f34 : Heap.Frame h2.next h2 h4 := f3.trans (f4.mono f3.next_le)
  have f24 : Heap.Frame h1.next h1 h4 := f2.trans (f34.mono f2.next_le)
  have b1 : (literal sh.texts v.hosts).2.InBounds h1 := literal_inBounds ..
  have b2 : (literal h1 v.containers).2.InBounds h2 := literal_inBounds ..
  have b3 : (literal h2 v.projects).2.InBounds h3 := literal_inBounds ..
  have b4 : (literal h3 v.events).2.InBounds h4 := literal_inBounds ..
  have r1 : h4.read (literal sh.texts v.hosts).2 = v.hosts := (f24.read b1.allocated).trans (read_literal ..)
  have r2 : h4.read (literal h1 v.containers).2 = v.containers := (f34.read b2.allocated).trans (read_literal ..)
  have r3 : h4.read (literal h2 v.projects).2 = v.projects := (f4.read b3.allocated).trans (read_literal ..)
  have r4 : h4.read (literal h3 v.events).2 = v.events := read_literal ..
  refine ⟨f1.trans (f24.mono f1.next_le), rfl, fun r hr l => ?_, ?_⟩
  · rw [List.mem_singleton.1 hr]
    cases l with
    | hosts => exact b1.frame f24
    | containers => exact b2.frame f34
    | projects => exact b3.frame f4
    | events => exact b4
  · have hvalue : (sh.placeRule v).1.rule (sh.placeRule v).2 =
        { v with hosts := h4.read (literal sh.texts v.hosts).2
                 containers := h4.read (literal h1 v.containers).2
                 projects := h4.read (literal h2 v.projects).2
                 events := h4.read (literal h3 v.events).2 } := rfl
    rw [List.map_singleton, hvalue, r1, r2, r3, r4]

theorem Placed.cons {sh'' : Shared} {v : AlertRule} {vs : List AlertRule} {rs : List RuleRef}
    (h : Placed sh sh' [v] [r]) (h' : Placed sh' sh'' vs rs) : Placed sh sh'' (v :: vs) (r :: rs) := by
  have hin := h.lists r (List.mem_singleton_self r)
  refine ⟨h.texts.trans (h'.texts.mono h.texts.next_le), ?_, ?_, ?_⟩
  · rw [h'.rest, h.rest]
  · intro x hx
    rcases List.mem_cons.1 hx with rfl | hx
    · exact hin.written h'.texts.written
    · exact h'.lists x hx
  · have hv : sh'.rule r = v := List.singleton_inj.1 h.values
    rw [List.map_cons, rule_frame hin h'.texts, hv, h'.values]

theorem placeRules_placed (sh : Shared) (vs : List AlertRule) :
    Placed sh (sh.placeRules vs).1 vs (sh.placeRules vs).2 := by
  induction vs generalizing sh with
  | nil => exact ⟨.rfl, rfl, fun r hr => absurd hr List.not_mem_nil, rfl⟩
  | cons v vs ih => exact (placeRule_placed sh v).cons (ih _)

theorem place_placed (sh : Shared) (o : SliceStep AlertRule) :
    Placed sh (sh.place o).1 o.values (sh.place o).2.values ∧ (sh.place o).2.map (sh.place o).1.rule = o := by
  cases o with
  | overwrite i v =>
    have h := placeRule_placed sh v
    exact ⟨h, congrArg (SliceStep.overwrite i) (List.singleton_inj.1 h.values)⟩
  | append v spare =>
    have h := placeRule_placed sh v
    exact ⟨h, congrArg (SliceStep.append · spare) (List.singleton_inj.1 h.values)⟩
  | remove i => exact ⟨placeRules_placed sh [], rfl⟩
  | reslice i j => exact ⟨placeRules_placed sh [], rfl⟩
  | replace vs =>
    have h := placeRules_placed sh vs
    exact ⟨h, congrArg SliceStep.replace h.values⟩

end

/-! ## What a mutate function of `UpdateAlerts` can reach -/

/-- all that a mutate function works on but the lists of rules is its own, and these it has written with ws -/
structure Lent (s : SharedManager) (h : Handed) (ws : List (Cell × String)) : Prop where
  channels : Heap.Frame s.base.mem.channels.next s.base.mem.channels h.channels
  rules : Heap.Frame s.shared.rules.next s.shared.rules h.shared.rules
  texts : Written s.shared.texts h.shared.texts ws
  flags : h.shared.flags = s.shared.flags
  numbers : h.shared.numbers = s.shared.numbers
  freshChannels : h.alerts.channels.Fresh s.base.mem.channels.next h.channels
  freshRules : h.alerts.rules.Fresh s.shared.rules.next h.shared.rules
  channelsIn : h.alerts.channels.InBounds h.channels
  rulesIn : h.alerts.rules.InBounds h.shared.rules
  lists : ∀ r ∈ h.shared.rules.read h.alerts.rules, r.InBounds h.shared.texts

section
variable {s : SharedManager} {h : Handed} {ws : List (Cell × String)}

/-- a change to the array of rules with what lies in bounds -/
theorem Lent.stepRules (hl : Lent s h ws) {o : SliceStep RuleRef} (ho : ∀ r ∈ o.values, r.InBounds h.shared.texts) :
    Lent s (h.stepRules o) ws := by
  obtain ⟨hframe, hfresh⟩ := step_frame (h.shared.rules, h.alerts.rules) hl.freshRules o
  obtain ⟨hin, hread⟩ := step_read (h.shared.rules, h.alerts.rules) hl.rulesIn o
  refine ⟨hl.channels, hl.rules.trans hframe, hl.texts, hl.flags, hl.numbers, hl.freshChannels, hfresh, hl.channelsIn,
    hin, fun r hr => ?_⟩
  have hmem : r ∈ stepList (h.shared.rules.read h.alerts.rules) o := hread ▸ hr
  rcases mem_stepList hmem with hold | hnew
  · exact hl.lists r hold
  · exact ho r hnew

/-- a change to the lists of rules -/
theorem Lent.stepTexts (hl : Lent s h ws) {texts : Heap String} {ws' : List (Cell × String)}
    (hw : Written h.shared.texts texts ws') : Lent s { h with shared := { h.shared with texts := texts } } (ws ++ ws') :=
  ⟨hl.channels, hl.rules, hl.texts.trans hw, hl.flags, hl.numbers, hl.freshChannels, hl.freshRules, hl.channelsIn,
    hl.rulesIn, fun r hr => (hl.lists r hr).written hw⟩

theorem Lent.stepRule (hl : Lent s h ws) {i : ℕ} {r : RuleRef} (hr : h.ruleAt i = some r) (o : RuleStep) :
    Lent s (h.stepRule i r o) (ws ++ h.writes (.rule i o)) := by
  have hin : r.InBounds h.shared.texts := hl.lists r (List.mem_of_getElem? hr)
  cases o with
  | fields v =>
    have hnone : h.writes (.rule i (.fields v)) = [] := rfl
    rw [hnone, List.append_nil]
    refine hl.stepRules fun x hx => ?_
    rw [List.mem_singleton.1 hx]
    exact hin
  | list l o =>
    have hwrites : h.writes (.rule i (.list l o)) = GoSlice.writes (h.shared.texts, r.lists l) o := by
      simp only [Handed.writes, hr, Option.elim_some]
    have hw := step_written (h.shared.texts, r.lists l) (hin l) o
    rw [hwrites]
    refine (hl.stepTexts hw).stepRules fun x hx => ?_
    rw [List.mem_singleton.1 hx]
    intro l'
    by_cases hl' : l' = l
    · subst hl'
      simp only [Function.update_self]
      exact (step_read (h.shared.texts, r.lists l') (hin l') o).1
    · simp only [Function.update_of_ne hl']
      exact (hin l').written hw

/-- **One step of a mutate function.** -/
theorem step_lent (hl : Lent s h ws) (o : SharedAlertsStep) : Lent s (h.step o) (ws ++ h.writes o) := by
  cases o with
  | webhookURL url =>
    simp only [Handed.writes, List.append_nil]
    exact ⟨hl.channels, hl.rules, hl.texts, hl.flags, hl.numbers, hl.freshChannels, hl.freshRules, hl.channelsIn,
      hl.rulesIn, hl.lists⟩
  | channels o =>
    simp only [Handed.writes, List.append_nil]
    obtain ⟨hframe, hfresh⟩ := step_frame (h.channels, h.alerts.channels) hl.freshChannels o
    obtain ⟨hin, -⟩ := step_read (h.channels, h.alerts.channels) hl.channelsIn o
    exact ⟨hl.channels.trans hframe, hl.rules, hl.texts, hl.flags, hl.numbers, hfresh, hl.freshRules, hin, hl.rulesIn,
      hl.lists⟩
  | rules o =>
    obtain ⟨hplaced, -⟩ := place_placed h.shared o
    have htexts := hl.stepTexts hplaced.texts.written
    simp only [Handed.writes, List.append_nil] at htexts ⊢
    rw [← hplaced.rest] at htexts
    exact htexts.stepRules hplaced.lists
  | rule i o =>
    cases hr : h.ruleAt i with
    | none =>
      have hsame : h.step (.rule i o) = h := by simp only [Handed.step, hr, Option.elim_none]
      have hnone : h.writes (.rule i o) = [] := by
        cases o <;> simp [Handed.writes, hr]
      rw [hsame, hnone, List.append_nil]
      exact hl
    | some r =>
      have hstep : h.step (.rule i o) = h.stepRule i r o := by simp only [Handed.step, hr, Option.elim_some]
      rw [hstep]
      exact hl.stepRule hr o

theorem run_lent (hl : Lent s h ws) (steps : List SharedAlertsStep) : Lent s (h.run steps) (ws ++ h.allWrites steps) := by
  induction steps generalizing h ws with
  | nil =>
    rw [Handed.allWrites, List.append_nil]
    exact hl
  | cons o steps ih =>
    rw [Handed.allWrites, ← List.append_assoc]
    exact ih (step_lent hl o)

end

/-! ## What a manager holds -/

/-- what a pointer points at has been allocated -/
def PointerIn {α : Type} (h : Heap α) (p : Option Slice) : Prop := ∀ q, p = some q → q.InBounds h ∧ q.len = 1

structure LogStoreRef.InBounds (sh : Shared) (l : LogStoreRef) : Prop where
  enabled : PointerIn sh.flags l.enabled
  perContainerMB : PointerIn sh.numbers l.perContainerMB
  totalMB : PointerIn sh.numbers l.totalMB

/-- every reference of the configuration lies in memory that has been allocated -/
structure SharedManager.Holds (s : SharedManager) : Prop where
  auth : ∀ p, s.base.file.auth = some p → p.InBounds s.base.mem.auths
  apiTokens : s.base.file.apiTokens.InBounds s.base.mem.tokens
  channels : ∀ a, s.base.file.alerts = some a → a.channels.InBounds s.base.mem.channels
  rules : ∀ a, s.base.file.alerts = some a → a.rules.InBounds s.shared.rules
  lists : ∀ a, s.base.file.alerts = some a → ∀ r ∈ s.shared.rules.read a.rules, r.InBounds s.shared.texts
  logStore : ∀ l, s.logStore = some l → l.InBounds s.shared

/-- only the alerts and the log store differ -/
structure Apart (m m' : Manager) : Prop where
  fileConfig : ∃ alerts logStore, m'.fileConfig = { m.fileConfig with alerts := alerts, logStore := logStore }
  merged : m'.merged = m.merged
  sources : m'.sources = m.sources
  generation : m'.generation = m.generation

theorem Reached.apart {env : Env} {m₀ m m' : Manager} (h : Reached env m₀ m) (hm' : m'.WellFormed) (ha : Apart m m') :
    Reached env m₀ m' := by
  obtain ⟨alerts, logStore, hfc⟩ := ha.fileConfig
  obtain ⟨localHost, hmerged⟩ := h.isMerged
  refine ⟨hm', ⟨localHost, ?_⟩, fun hset => ?_, fun hset => ?_⟩
  · rw [ha.merged, ha.sources, hmerged, hfc]
    rfl
  · rw [hfc]
    exact h.readOnly hset
  · rw [hfc]
    exact h.auth hset

section
variable {s : SharedManager}

theorem SharedManager.Holds.view (hs : s.Holds) : s.view.WellFormed :=
  ⟨hs.auth, hs.apiTokens, hs.channels, fun a ha => (hs.rules a ha).map s.shared.rule⟩

/-- the stored alerts, as `FileConfigSnapshot` shows them -/
theorem view_alerts (s : SharedManager) :
    s.view.fileConfig.alerts = s.base.file.alerts.map fun a =>
      { webhookURL := a.webhookURL, channels := s.base.mem.channels.read a.channels
        rules := (s.shared.rules.read a.rules).map s.shared.rule } := by
  unfold SharedManager.view Manager.fileConfig Memory.content Memory.alerts
  simp only [Heap.read_map]

end

/-! ## `UpdateAlerts` -/

section
variable {env : Env} {w : World} {s : SharedManager} {h : Handed} {ws : List (Cell × String)}

theorem cloneAlerts_lent (hs : s.Holds) : Lent s s.cloneAlerts [] := by
  unfold SharedManager.cloneAlerts
  cases ha : s.base.file.alerts with
  | none =>
    obtain ⟨hc, hcf⟩ := literal_frame s.base.mem.channels []
    obtain ⟨hr, hrf⟩ := literal_frame s.shared.rules []
    refine ⟨hc, hr, .rfl, rfl, rfl, hcf, hrf, literal_inBounds _ _, literal_inBounds _ _, fun r hmem => ?_⟩
    simp only [read_literal] at hmem
    cases hmem
  | some a =>
    obtain ⟨hc, hcf⟩ := clone_frame s.base.mem.channels a.channels
    obtain ⟨hr, hrf⟩ := clone_frame s.shared.rules a.rules
    refine ⟨hc, hr, .rfl, rfl, rfl, hcf, hrf, clone_inBounds _ _, clone_inBounds _ _, fun r hmem => ?_⟩
    simp only [read_clone] at hmem
    exact hs.lists a ha r hmem

/-- the stored lists keep what they held -/
def SharedManager.AlertsSpared (s : SharedManager) (ws : List (Cell × String)) : Prop :=
  ∀ a, s.base.file.alerts = some a → ∀ r ∈ s.shared.rules.read a.rules, ∀ l, Spared s.shared.texts (r.lists l) ws

theorem Lent.holds (hl : Lent s h ws) (hs : s.Holds) : (s.after h).Holds where
  auth := hs.auth
  apiTokens := hs.apiTokens
  channels := fun a ha => (hs.channels a ha).frame hl.channels
  rules := fun a ha => (hs.rules a ha).frame hl.rules
  lists := fun a ha r hr => by
    have hold : r ∈ s.shared.rules.read a.rules := hl.rules.read (hs.rules a ha).allocated ▸ hr
    exact (hs.lists a ha r hold).written hl.texts
  logStore := fun l hlogStore => by
    obtain ⟨henabled, hper, htotal⟩ := hs.logStore l hlogStore
    refine ⟨?_, ?_, ?_⟩
    · exact hl.flags.symm ▸ henabled
    · exact hl.numbers.symm ▸ hper
    · exact hl.numbers.symm ▸ htotal

/-- the log store is not touched -/
theorem Lent.logStore (hl : Lent s h ws) : s.logStore.map h.shared.logStore = s.logStore.map s.shared.logStore := by
  have hsame : h.shared.logStore = s.shared.logStore := by
    funext l
    unfold Shared.logStore
    rw [hl.flags, hl.numbers]
  rw [hsame]

/-- **Failing.** What is left of a mutate function that fails shows in the configuration, unless it has spared the stored
lists. -/
theorem Lent.refused_iff (hl : Lent s h ws) (hs : s.Holds) : Refused s.view (s.after h).view ↔ s.AlertsSpared ws := by
  have hrules : ∀ a, s.base.file.alerts = some a → h.shared.rules.read a.rules = s.shared.rules.read a.rules :=
    fun a ha => hl.rules.read (hs.rules a ha).allocated
  have hspared : ∀ a, s.base.file.alerts = some a → ∀ r ∈ s.shared.rules.read a.rules,
      (h.shared.rule r = s.shared.rule r ↔ ∀ l, Spared s.shared.texts (r.lists l) ws) := by
    intro a ha r hr
    rw [rule_eq_iff]
    exact forall_congr' fun l => read_eq_iff (hs.lists a ha r hr l) hl.texts
  constructor
  · intro hrefused a ha r hr
    have halerts := congrArg FileConfig.alerts hrefused.fileConfig
    rw [view_alerts, view_alerts] at halerts
    have hsome : (s.after h).base.file.alerts = some a := ha
    rw [ha, hsome] at halerts
    have hmap := congrArg AlertsConfig.rules (Option.some.inj halerts)
    have hmap' : (h.shared.rules.read a.rules).map h.shared.rule = (s.shared.rules.read a.rules).map s.shared.rule := hmap
    rw [hrules a ha] at hmap'
    exact (hspared a ha r hr).1 (List.map_inj_left.1 hmap' r hr)
  · intro hkept
    have halerts : (s.after h).view.fileConfig.alerts = s.view.fileConfig.alerts := by
      rw [view_alerts, view_alerts]
      cases ha : s.base.file.alerts with
      | none =>
        have hnone : (s.after h).base.file.alerts = none := ha
        rw [hnone]
        rfl
      | some a =>
        have hsome : (s.after h).base.file.alerts = some a := ha
        have hchannels : h.channels.read a.channels = s.base.mem.channels.read a.channels :=
          hl.channels.read (hs.channels a ha).allocated
        have hlists : (s.shared.rules.read a.rules).map h.shared.rule =
            (s.shared.rules.read a.rules).map s.shared.rule :=
          List.map_inj_left.2 fun r hr => (hspared a ha r hr).2 (hkept a ha r hr)
        rw [hsome]
        show some _ = some _
        rw [Option.some.injEq, AlertsConfig.mk.injEq]
        refine ⟨rfl, hchannels, ?_⟩
        show (h.shared.rules.read a.rules).map h.shared.rule = _
        rw [hrules a ha, hlists]
    refine ⟨?_, rfl, rfl, rfl, rfl⟩
    calc (s.after h).view.fileConfig
        = { s.view.fileConfig with alerts := (s.after h).view.fileConfig.alerts
                                   logStore := s.logStore.map h.shared.logStore } := rfl
      _ = { s.view.fileConfig with alerts := s.view.fileConfig.alerts
                                   logStore := s.logStore.map s.shared.logStore } := by rw [halerts, hl.logStore]
      _ = s.view.fileConfig := rfl

/-- what an update is told that fails -/
theorem updateAlerts_cases (w : World) (s : SharedManager) (mutate : AlertsConfig → List SharedAlertsStep × Bool) :
    let h := s.cloneAlerts.run (mutate s.cloneAlerts.value).1
    (((mutate s.cloneAlerts.value).2 = false ∨ w.persists = false) ∧
        (s.updateAlerts w mutate).2 = some (if (mutate s.cloneAlerts.value).2 then .persist else .mutate) ∧
        (s.updateAlerts w mutate).1 = s.after h) ∨
      (¬ ((mutate s.cloneAlerts.value).2 = false ∨ w.persists = false) ∧ (s.updateAlerts w mutate).2 = none ∧
        (s.updateAlerts w mutate).1 = ((s.after h).setAlerts (some h.alerts)).persist) := by
  intro h
  unfold SharedManager.updateAlerts
  dsimp only
  cases hok : (mutate s.cloneAlerts.value).2 with
  | false => exact .inl ⟨.inl rfl, rfl, rfl⟩
  | true =>
    cases hw : w.persists with
    | false => exact .inl ⟨.inr rfl, rfl, rfl⟩
    | true => exact .inr ⟨by simp, rfl, rfl⟩

theorem Lent.stored (hl : Lent s h ws) (hs : s.Holds) : ((s.after h).setAlerts (some h.alerts)).persist.Holds := by
  have hafter := hl.holds hs
  refine ⟨hafter.auth, hafter.apiTokens, ?_, ?_, ?_, hafter.logStore⟩
  · rintro a ha
    obtain rfl := Option.some.inj ha
    exact hl.channelsIn
  · rintro a ha
    obtain rfl := Option.some.inj ha
    exact hl.rulesIn
  · rintro a ha
    obtain rfl := Option.some.inj ha
    exact hl.lists

theorem after_apart (s : SharedManager) (h : Handed) : Apart s.view (s.after h).view :=
  ⟨⟨_, _, rfl⟩, rfl, rfl, rfl⟩

theorem stored_apart (s : SharedManager) (h : Handed) (alerts : Option AlertsRef) :
    Apart s.view ((s.after h).setAlerts alerts).persist.view :=
  ⟨⟨_, _, rfl⟩, rfl, rfl, rfl⟩

end

/-! ## `UpdateLogStore` -/

section
variable {α : Type} {h h' : Heap α} {p : Option Slice} {ws ws' : List (Cell × α)}

theorem PointerIn.none : PointerIn h none := by
  intro q hq
  cases hq

theorem PointerIn.written (hp : PointerIn h p) (hw : Written h h' ws) : PointerIn h' p :=
  fun q hq => ⟨(hp q hq).1.written hw, (hp q hq).2⟩

/-- what a pointer points at keeps its value -/
def PointerSpared (h : Heap α) (p : Option Slice) (ws : List (Cell × α)) : Prop := ∀ q, p = some q → Spared h q ws

theorem deref_eq_iff (hp : PointerIn h p) (hw : Written h h' ws) : deref h' p = deref h p ↔ PointerSpared h p ws := by
  cases p with
  | none => simp [deref, PointerSpared]
  | some q =>
    obtain ⟨hin, hlen⟩ := hp q rfl
    have hone : ∀ g : Heap α, q.InBounds g → ∃ v, g.read q = [v] := fun g hg =>
      List.length_eq_one_iff.1 (hg.length_read.trans hlen)
    obtain ⟨v, hv⟩ := hone h hin
    obtain ⟨v', hv'⟩ := hone h' (hin.written hw)
    have hread : deref h' (some q) = deref h (some q) ↔ h'.read q = h.read q := by
      simp [deref, hv, hv']
    rw [hread, read_eq_iff hin hw]
    simp [PointerSpared]

variable [Inhabited α]

theorem stepPointer_written (hp : PointerIn h p) (o : PointerStep α) :
    Written h (stepPointer h p o).1 (pointerWrites h p o) ∧ PointerIn (stepPointer h p o).1 (stepPointer h p o).2 := by
  cases o with
  | set v =>
    cases v with
    | none => exact ⟨.rfl, .none⟩
    | some v =>
      refine ⟨(literal_frame h [v]).1.written, fun q hq => ?_⟩
      obtain rfl := Option.some.inj hq
      exact ⟨literal_inBounds h [v], rfl⟩
  | write v =>
    cases p with
    | none => exact ⟨.rfl, .none⟩
    | some q =>
      obtain ⟨hin, hlen⟩ := hp q rfl
      have hw := step_written (h, q) hin (.overwrite 0 v)
      refine ⟨hw, fun q' hq' => ?_⟩
      obtain rfl := Option.some.inj hq'
      exact ⟨hin.written hw, hlen⟩

end

section
variable {env : Env} {w : World} {s : SharedManager} {h : HandedStore} {fw : List (Cell × Bool)} {nw : List (Cell × ℤ)}

/-- what a mutate function of `UpdateLogStore` has written behind pointers -/
structure LentStore (s : SharedManager) (h : HandedStore) (fw : List (Cell × Bool)) (nw : List (Cell × ℤ)) : Prop where
  rules : h.shared.rules = s.shared.rules
  texts : h.shared.texts = s.shared.texts
  flags : Written s.shared.flags h.shared.flags fw
  numbers : Written s.shared.numbers h.shared.numbers nw
  pointers : h.logStore.InBounds h.shared

/-- one step of a mutate function -/
theorem LentStore.step (hl : LentStore s h fw nw) (o : LogStoreStep) :
    LentStore s (h.step o) (fw ++ h.flagWrites [o]) (nw ++ h.numberWrites [o]) := by
  obtain ⟨hrules, htexts, hflags, hnumbers, henabled, hper, htotal⟩ := hl
  cases o with
  | enabled o =>
    obtain ⟨hw, hin⟩ := stepPointer_written henabled o
    simp only [HandedStore.flagWrites, HandedStore.numberWrites, List.append_nil]
    exact ⟨hrules, htexts, hflags.trans hw, hnumbers, hin, hper, htotal⟩
  | perContainerMB o =>
    obtain ⟨hw, hin⟩ := stepPointer_written hper o
    simp only [HandedStore.flagWrites, HandedStore.numberWrites, List.append_nil]
    exact ⟨hrules, htexts, hflags, hnumbers.trans hw, henabled, hin, htotal.written hw⟩
  | totalMB o =>
    obtain ⟨hw, hin⟩ := stepPointer_written htotal o
    simp only [HandedStore.flagWrites, HandedStore.numberWrites, List.append_nil]
    exact ⟨hrules, htexts, hflags, hnumbers.trans hw, henabled, hper.written hw, hin⟩

theorem flagWrites_cons (h : HandedStore) (o : LogStoreStep) (steps : List LogStoreStep) :
    h.flagWrites (o :: steps) = h.flagWrites [o] ++ (h.step o).flagWrites steps := by
  cases o <;> simp [HandedStore.flagWrites]

theorem numberWrites_cons (h : HandedStore) (o : LogStoreStep) (steps : List LogStoreStep) :
    h.numberWrites (o :: steps) = h.numberWrites [o] ++ (h.step o).numberWrites steps := by
  cases o <;> simp [HandedStore.numberWrites]

theorem LentStore.run (hl : LentStore s h fw nw) (steps : List LogStoreStep) :
    LentStore s (h.run steps) (fw ++ h.flagWrites steps) (nw ++ h.numberWrites steps) := by
  induction steps generalizing h fw nw with
  | nil =>
    simp only [HandedStore.flagWrites, HandedStore.numberWrites, List.append_nil]
    exact hl
  | cons o steps ih =>
    rw [flagWrites_cons, numberWrites_cons, ← List.append_assoc, ← List.append_assoc]
    exact ih (hl.step o)

theorem cloneLogStore_lent (hs : s.Holds) : LentStore s s.cloneLogStore [] [] := by
  refine ⟨rfl, rfl, .rfl, .rfl, ?_⟩
  unfold SharedManager.cloneLogStore
  cases hlogStore : s.logStore with
  | none => exact ⟨.none, .none, .none⟩
  | some l => exact hs.logStore l hlogStore

/-- what the stored pointers point at keeps its value -/
structure SharedManager.StoreSpared (s : SharedManager) (fw : List (Cell × Bool)) (nw : List (Cell × ℤ)) : Prop where
  enabled : ∀ l, s.logStore = some l → PointerSpared s.shared.flags l.enabled fw
  perContainerMB : ∀ l, s.logStore = some l → PointerSpared s.shared.numbers l.perContainerMB nw
  totalMB : ∀ l, s.logStore = some l → PointerSpared s.shared.numbers l.totalMB nw

/-- memory as a mutate function of `UpdateLogStore` leaves it -/
theorem LentStore.holds (hl : LentStore s h fw nw) (hs : s.Holds) : ({ s with shared := h.shared } : SharedManager).Holds where
  auth := hs.auth
  apiTokens := hs.apiTokens
  channels := hs.channels
  rules := fun a ha => hl.rules.symm ▸ hs.rules a ha
  lists := fun a ha r hr l => by
    have hold : r ∈ s.shared.rules.read a.rules := hl.rules ▸ hr
    exact hl.texts.symm ▸ hs.lists a ha r hold l
  logStore := fun l hlogStore => by
    obtain ⟨henabled, hper, htotal⟩ := hs.logStore l hlogStore
    exact ⟨henabled.written hl.flags, hper.written hl.numbers, htotal.written hl.numbers⟩

/-- the alerts are not touched -/
theorem LentStore.alerts (hl : LentStore s h fw nw) :
    ({ s with shared := h.shared } : SharedManager).view.fileConfig.alerts = s.view.fileConfig.alerts := by
  have hrule : h.shared.rule = s.shared.rule := by
    funext r
    exact rule_eq_iff.2 fun l => by rw [hl.texts]
  rw [view_alerts, view_alerts, hl.rules, hrule]

/-- **Failing.** What is left of a mutate function that fails shows in the configuration, unless it has spared what the
stored pointers point at. -/
theorem LentStore.refused_iff (hl : LentStore s h fw nw) (hs : s.Holds) :
    Refused s.view ({ s with shared := h.shared } : SharedManager).view ↔ s.StoreSpared fw nw := by
  have hspared : ∀ l, s.logStore = some l → (h.shared.logStore l = s.shared.logStore l ↔
      PointerSpared s.shared.flags l.enabled fw ∧ PointerSpared s.shared.numbers l.perContainerMB nw ∧
        PointerSpared s.shared.numbers l.totalMB nw) := by
    intro l hlogStore
    obtain ⟨henabled, hper, htotal⟩ := hs.logStore l hlogStore
    rw [← deref_eq_iff henabled hl.flags, ← deref_eq_iff hper hl.numbers, ← deref_eq_iff htotal hl.numbers]
    exact LogStoreConfig.mk.injEq .. ▸ Iff.rfl
  constructor
  · intro hrefused
    have hsame : s.logStore.map h.shared.logStore = s.logStore.map s.shared.logStore :=
      congrArg FileConfig.logStore hrefused.fileConfig
    have hall : ∀ l, s.logStore = some l → PointerSpared s.shared.flags l.enabled fw ∧
        PointerSpared s.shared.numbers l.perContainerMB nw ∧ PointerSpared s.shared.numbers l.totalMB nw := by
      intro l hlogStore
      rw [hlogStore] at hsame
      exact (hspared l hlogStore).1 (Option.some.inj hsame)
    exact ⟨fun l hlogStore => (hall l hlogStore).1, fun l hlogStore => (hall l hlogStore).2.1,
      fun l hlogStore => (hall l hlogStore).2.2⟩
  · intro hkept
    have hsame : s.logStore.map h.shared.logStore = s.logStore.map s.shared.logStore := by
      cases hlogStore : s.logStore with
      | none => rfl
      | some l =>
        exact congrArg some ((hspared l hlogStore).2
          ⟨hkept.enabled l hlogStore, hkept.perContainerMB l hlogStore, hkept.totalMB l hlogStore⟩)
    refine ⟨?_, rfl, rfl, rfl, rfl⟩
    calc ({ s with shared := h.shared } : SharedManager).view.fileConfig
        = { s.view.fileConfig with
              alerts := ({ s with shared := h.shared } : SharedManager).view.fileConfig.alerts
              logStore := s.logStore.map h.shared.logStore } := rfl
      _ = { s.view.fileConfig with alerts := s.view.fileConfig.alerts
                                   logStore := s.logStore.map s.shared.logStore } := by rw [hl.alerts, hsame]
      _ = s.view.fileConfig := rfl

theorem updateLogStore_cases (w : World) (s : SharedManager) (mutate : LogStoreConfig → List LogStoreStep × Bool) :
    let handed := s.cloneLogStore.shared.logStore s.cloneLogStore.logStore
    let h := s.cloneLogStore.run (mutate handed).1
    (((mutate handed).2 = false ∨ w.persists = false) ∧
        (s.updateLogStore w mutate).2 = some (if (mutate handed).2 then .persist else .mutate) ∧
        (s.updateLogStore w mutate).1 = { s with shared := h.shared }) ∨
      (¬ ((mutate handed).2 = false ∨ w.persists = false) ∧ (s.updateLogStore w mutate).2 = none ∧
        (s.updateLogStore w mutate).1 = ({ s with shared := h.shared, logStore := some h.logStore }).persist) := by
  intro handed h
  unfold SharedManager.updateLogStore
  dsimp only
  cases hok : (mutate handed).2 with
  | false => exact .inl ⟨.inl rfl, rfl, rfl⟩
  | true =>
    cases hw : w.persists with
    | false => exact .inl ⟨.inr rfl, rfl, rfl⟩
    | true => exact .inr ⟨by simp, rfl, rfl⟩

theorem LentStore.stored (hl : LentStore s h fw nw) (hs : s.Holds) :
    ({ s with shared := h.shared, logStore := some h.logStore } : SharedManager).persist.Holds := by
  have hafter := hl.holds hs
  refine ⟨hafter.auth, hafter.apiTokens, hafter.channels, hafter.rules, hafter.lists, ?_⟩
  rintro l hlogStore
  obtain rfl := Option.some.inj hlogStore
  exact hl.pointers

end

end LogDeck.Config
