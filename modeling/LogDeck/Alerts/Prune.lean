/-
The engine that prunes, beside one that never does.

A prune drops the windows that were idle for longer than a day, and the OOM times that no die is paired with any more.
Both engines are given the same steps; a prune is nothing to the second. What the first has for a key is then `KeyAlike`
what the second has: a window that was dropped may have taken suppressed trips with it, which no later alert reports.

Results:
- `step_beside`: a step of both keeps the engines beside each other, and the alerts are the same up to lost counts;
- `prune_unobservable`: in a run whose prunes drop no suppressed trips the alerts are the same;
- `prune_loses_count`: a rule fires with nothing suppressed, where its last trip was swallowed.
-/
import LogDeck.Lib.Machine
import LogDeck.Alerts.RuleRequest

namespace LogDeck.Alerts

open LogDeck.LogStore (trimSlash)

/-! ## The two engines -/

/-- rules as the API admits them -/
structure Admissible (rules : List SourceRule) : Prop extends RulesOK rules where
  limits : ∀ rule ∈ rules, InLimits rule.toAlertRule

def Act.Admitted : Act → Prop
  | .reconcile rules => Admissible rules
  | _ => True

theorem Act.Admitted.ok {a : Act} (h : a.Admitted) : a.OK := by
  cases a with
  | reconcile rules => exact h.toRulesOK
  | _ => trivial

/-- the clock after an act that found it at a time -/
def Act.clock (time : ℤ) : Act → ℤ
  | .takeMatch now | .event _ now | .inspect _ now | .prune now => now
  | _ => time

/-- the clock does not go back -/
def InTime : ℤ → List Act → Prop
  | _, [] => True
  | time, a :: acts => time ≤ a.clock time ∧ InTime (a.clock time) acts

def InTime.decide : ∀ (time : ℤ) (acts : List Act), Decidable (InTime time acts)
  | _, [] => .isTrue trivial
  | time, a :: acts => @instDecidableAnd _ _ _ (InTime.decide (a.clock time) acts)

instance (time : ℤ) (acts : List Act) : Decidable (InTime time acts) := InTime.decide time acts

/-- a step of the engine that never prunes -/
def Engine.stepKeeping (lib : GoLib) (e : Engine) : Act → Engine × List Alert
  | .prune _ => (e, [])
  | a => e.step lib a

/-- the alerts of a run, act by act -/
def emits (step : Engine → Act → Engine × List Alert) : Engine → List Act → List (List Alert)
  | _, [] => []
  | e, a :: acts => (step e a).2 :: emits step (step e a).1 acts

/-- no window that a prune is about to drop has suppressed trips -/
def Engine.CountsKept (e : Engine) : Act → Prop
  | .prune now => ∀ key w, e.windows key = some w → w.idleSince now > windowIdleTTL → w.suppressed = 0
  | _ => True

/-! ## Windows of a key -/

/-- the windows of the engine that prunes and of the other; a strict pair has lost no suppressed trips -/
inductive KeyAlike (strict : Prop) (time : ℤ) : Option RuleWindow → Option RuleWindow → Prop
  | none : KeyAlike strict time none none
  | kept {lost : ℕ} {w v : RuleWindow} (alike : Alike time lost w v) (exact : strict → lost = 0)
      (seen : w.lastSeen = v.lastSeen) (sound : w.Sound) : KeyAlike strict time (some w) (some v)
  | dropped {lost : ℕ} {v : RuleWindow} (alike : Alike time lost (newRuleWindow v.threshold v.window v.cooldown) v)
      (exact : strict → lost = 0) : KeyAlike strict time none (some v)

/-- a window as matches up to a time leave it -/
structure Settled (time : ℤ) (v : RuleWindow) : Prop where
  sound : v.Sound
  seen : v.Seen v.lastSeen
  past : v.lastSeen ≤ time

/-- the second answer is the first with more to report -/
def AnswersAlike (strict : Prop) (r r' : Option ℕ) : Prop := ∃ lost, (strict → lost = 0) ∧ r' = r.map (· + lost)

/-- the second alert is the first with more to report -/
def LessCounted (strict : Prop) (a a' : Alert) : Prop :=
  ∃ lost, (strict → lost = 0) ∧ a' = { a with suppressed := a.suppressed + lost }

def AlertsAlike (strict : Prop) : List Alert → List Alert → Prop := List.Forall₂ (LessCounted strict)

section
variable {strict : Prop} {time now : ℤ}

theorem Alike.later {lost : ℕ} {w v : RuleWindow} (h : Alike time lost w v) (hnow : time ≤ now) :
    Alike now lost w v := by
  obtain ⟨old, hring, hold⟩ := h.ring
  refine ⟨h.threshold, h.window, h.cooldown, ⟨old, hring, fun t ht => (hold t ht).trans_le hnow⟩, ?_, h.suppressed⟩
  exact h.cools.imp_right fun hc => ⟨hc.1, fun hf => (hc.2 hf).trans hnow⟩

theorem KeyAlike.later {pw fw : Option RuleWindow} (h : KeyAlike strict time pw fw) (hnow : time ≤ now) :
    KeyAlike strict now pw fw := by
  cases h with
  | none => exact .none
  | kept alike exact seen sound => exact .kept (alike.later hnow) exact seen sound
  | dropped alike exact => exact .dropped (alike.later hnow) exact

theorem Settled.seen_at {v : RuleWindow} (h : Settled time v) : v.Seen time :=
  ⟨fun t ht => (h.seen.ring t ht).trans h.past, fun hf => (h.seen.fired hf).trans h.past⟩

theorem Settled.observe {v : RuleWindow} (hv : v.Sound) (hseen : v.Seen time) : Settled time (v.observe time).1 := by
  have hlast : (v.observe time).1.lastSeen = time := observe_lastSeen hv time
  have hseen' : (v.observe time).1.Seen time := hseen.observe hv le_rfl
  exact ⟨hv.observe time, hlast.symm ▸ hseen', hlast.le⟩

/-- a match in windows that are alike -/
theorem Alike.observe {lost : ℕ} {w v : RuleWindow} (h : Alike time lost w v) (hstrict : strict → lost = 0)
    (hw : w.Sound) (hv : v.Sound) :
    KeyAlike strict time (some (w.observe time).1) (some (v.observe time).1) ∧
      AnswersAlike strict (w.observe time).2 (v.observe time).2 := by
  obtain ⟨hanswer, halike⟩ := observe_alike h hw hv le_rfl
  have hseen : (w.observe time).1.lastSeen = (v.observe time).1.lastSeen :=
    (observe_lastSeen hw time).trans (observe_lastSeen hv time).symm
  refine ⟨.kept halike (fun hs => ?_) hseen (hw.observe time), lost, hstrict, hanswer⟩
  split_ifs
  · rfl
  · exact hstrict hs

/-- a match of a rule, in the windows the engines have for it or make for it -/
theorem KeyAlike.observe {pw fw : Option RuleWindow} {c : CompiledRule} (h : KeyAlike strict time pw fw)
    (hfw : ∀ v, fw = some v → Settled time v ∧ Fits v c) (hc : 1 ≤ c.threshold) :
    let w := pw.getD (newRuleWindow c.threshold c.window c.cooldown)
    let v := fw.getD (newRuleWindow c.threshold c.window c.cooldown)
    (KeyAlike strict time (some (w.observe time).1) (some (v.observe time).1) ∧
      AnswersAlike strict (w.observe time).2 (v.observe time).2) ∧ Settled time (v.observe time).1 := by
  have hnew : (newRuleWindow c.threshold c.window c.cooldown).Sound := newRuleWindow_sound hc _ _
  cases h with
  | none => exact ⟨Alike.rfl.observe (fun _ => rfl) hnew hnew, Settled.observe hnew (newRuleWindow_seen ..)⟩
  | kept alike exact seen sound =>
    obtain ⟨hsettled, -⟩ := hfw _ rfl
    exact ⟨alike.observe exact sound hsettled.sound, Settled.observe hsettled.sound hsettled.seen_at⟩
  | dropped alike exact =>
    obtain ⟨hsettled, hfits⟩ := hfw _ rfl
    rw [hfits.threshold, hfits.window, hfits.cooldown] at alike
    exact ⟨alike.observe exact hnew hsettled.sound, Settled.observe hsettled.sound hsettled.seen_at⟩

/-- a prune of the first engine -/
theorem KeyAlike.prune {pw fw : Option RuleWindow} (h : KeyAlike strict now pw fw)
    (hfw : ∀ v, fw = some v → Settled now v ∧ v.window ≤ windowIdleTTL ∧ v.cooldown ≤ windowIdleTTL)
    (hkept : strict → ∀ w, pw = some w → w.idleSince now > windowIdleTTL → w.suppressed = 0) :
    KeyAlike strict now (pw.filter fun w => ! decide (w.idleSince now > windowIdleTTL)) fw := by
  cases h with
  | none => exact .none
  | dropped alike exact => exact .dropped alike exact
  | @kept lost w v alike exact seen sound =>
    obtain ⟨hsettled, hwindow, hcooldown⟩ := hfw v rfl
    by_cases hidle : w.idleSince now > windowIdleTTL
    · have hidle' : windowIdleTTL < v.idleSince now := by
        unfold RuleWindow.idleSince at hidle ⊢
        rwa [← seen]
      have hlost : strict → v.suppressed = 0 := by
        intro hs
        rw [alike.suppressed, hkept hs w rfl hidle, exact hs]
      simp only [Option.filter, hidle, decide_true, Bool.not_true, Bool.false_eq_true, if_false]
      exact .dropped (alike_forgotten hsettled.seen hwindow hcooldown hidle') hlost
    · simp only [Option.filter, hidle, decide_false, Bool.not_false, if_true]
      exact .kept alike exact seen sound

end

/-! ## The engines beside each other -/

/-- an engine without what a prune may drop -/
def Engine.core (e : Engine) : Engine := { e with windows := fun _ => none, lastOOM := fun _ => none }

structure Beside (lib : GoLib) (strict : Prop) (time : ℤ) (p f : Engine) : Prop where
  pruned : p.Inv lib
  full : f.Inv lib
  core : p.core = f.core
  limits : ∀ rule ∈ f.rules, InLimits rule.toAlertRule
  windows : ∀ key, KeyAlike strict time (p.windows key) (f.windows key)
  settled : ∀ key v, f.windows key = some v → Settled time v
  oom : ∀ key, p.lastOOM key = f.lastOOM key ∨
    p.lastOOM key = none ∧ ∃ t, f.lastOOM key = some t ∧ t + oomDieWindow < time

/-- the engines after a step, with the alerts of the step -/
structure Together (lib : GoLib) (strict : Prop) (time : ℤ) (r r' : Engine × List Alert) : Prop where
  engines : Beside lib strict time r.1 r'.1
  alerts : AlertsAlike strict r.2 r'.2

section
variable {lib : GoLib} {strict : Prop} {time now : ℤ} {p f : Engine}

theorem Beside.silent (h : Beside lib strict time p f) : Together lib strict time (p, []) (f, []) := ⟨h, .nil⟩

/-- what the engines share: they differ in windows and in OOM times only -/
theorem Beside.shared {α : Type*} (h : Beside lib strict time p f) (g : Engine → α) (hg : ∀ e : Engine, g e.core = g e) :
    g p = g f := by
  rw [← hg p, ← hg f, h.core]

theorem Beside.rules (h : Beside lib strict time p f) : p.rules = f.rules := h.shared Engine.rules fun _ => rfl

theorem Beside.later (h : Beside lib strict time p f) (hnow : time ≤ now) : Beside lib strict now p f where
  pruned := h.pruned
  full := h.full
  core := h.core
  limits := h.limits
  windows key := (h.windows key).later hnow
  settled key v hv := ⟨(h.settled key v hv).sound, (h.settled key v hv).seen, (h.settled key v hv).past.trans hnow⟩
  oom key := (h.oom key).imp_right fun ⟨hnone, t, ht, hold⟩ => ⟨hnone, t, ht, hold.trans_le hnow⟩

theorem Beside.observe (h : Beside lib strict time p f) {c : CompiledRule} (hc : c ∈ compileRules lib p.rules)
    (host containerName : String) :
    let key := windowKey c.id host containerName
    Beside lib strict time (p.observe key c time).1 (f.observe key c time).1 ∧
      AnswersAlike strict (p.observe key c time).2 (f.observe key c time).2 := by
  intro key
  have hc' : c ∈ compileRules lib f.rules := h.rules ▸ hc
  obtain ⟨rule, -, hcr⟩ := mem_compileRules.mp hc
  have hfull : ∀ v, f.windows key = some v → Settled time v ∧ Fits v c :=
    fun v hv => ⟨h.settled key v hv, h.full.fits hc' hv⟩
  obtain ⟨⟨halike, hanswers⟩, hsettled⟩ := (h.windows key).observe hfull (threshold_pos hcr)
  refine ⟨⟨observe_inv h.pruned hc .., observe_inv h.full hc' .., h.core, h.limits, ?_, ?_, h.oom⟩, hanswers⟩
  · intro key'
    by_cases hkey : key' = key
    · subst hkey
      simp only [Engine.observe, Function.update_self]
      exact halike
    · simp only [Engine.observe, Function.update_of_ne hkey]
      exact h.windows key'
  · intro key' v hv
    by_cases hkey : key' = key
    · subst hkey
      simp only [Engine.observe, Function.update_self, Option.some.injEq] at hv
      exact hv ▸ hsettled
    · simp only [Engine.observe, Function.update_of_ne hkey] at hv
      exact h.settled key' v hv

theorem Beside.handleMatch (h : Beside lib strict time p f) {m : MatchMsg}
    (hm : ∃ s ∈ p.sinks, s.gen = m.gen ∧ s.rule = m.rule) :
    Together lib strict time (p.handleMatch m time) (f.handleMatch m time) := by
  have hsubs : p.subs = f.subs := h.shared Engine.subs fun _ => rfl
  unfold Engine.handleMatch
  rw [← hsubs]
  cases hsub : p.subs m.rule.id with
  | none => exact h.silent
  | some sub =>
    by_cases hgen : sub.gen ≠ m.gen
    · simp only [if_pos hgen]
      exact h.silent
    · simp only [if_neg hgen]
      have hrule := h.pruned.current hm hsub (not_not.mp hgen)
      obtain ⟨hbeside, lost, hstrict, hanswer⟩ := h.observe hrule m.host m.containerName
      rw [hanswer]
      cases (p.observe (windowKey m.rule.id m.host m.containerName) m.rule time).2 with
      | none => exact ⟨hbeside, .nil⟩
      | some suppressed => exact ⟨hbeside, .cons ⟨lost, hstrict, rfl⟩ .nil⟩

/-- a die is paired with an oom of the other engine too: only an old one was dropped -/
theorem Beside.pairedDie (h : Beside lib strict time p f) (c : CompiledRule) (ev : EngineEvent) (action : String) :
    p.pairedDie c ev action time = f.pairedDie c ev action time := by
  unfold Engine.pairedDie
  rcases h.oom (ev.host ++ "|" ++ ev.containerID) with hsame | ⟨hnone, t, ht, hold⟩
  · rw [hsame]
  · have hlate : ¬ time - t ≤ oomDieWindow := by omega
    rw [hnone, ht]
    simp only [decide_eq_false hlate]

theorem recordRule_rules (ev : EngineEvent) (action exitCode : String) (s : Engine × List Alert) (c : CompiledRule) :
    (Engine.recordRule ev action exitCode now s c).1.rules = s.1.rules := by
  unfold Engine.recordRule
  dsimp only
  split_ifs
  · rfl
  · rfl
  · split <;> rfl

theorem Together.recordRule {r r' : Engine × List Alert} (h : Together lib strict time r r') (ev : EngineEvent)
    (action exitCode : String) {c : CompiledRule} (hc : c ∈ compileRules lib r.1.rules) :
    Together lib strict time (Engine.recordRule ev action exitCode time r c)
      (Engine.recordRule ev action exitCode time r' c) := by
  unfold Engine.recordRule
  rw [← h.engines.pairedDie c ev action]
  by_cases hskip : c.hasEvent action = false ∨ c.spec.matches ev.host (trimSlash ev.containerName) ev.labels = false
  · simp only [if_pos hskip]
    exact h
  simp only [if_neg hskip]
  by_cases hpaired : r.1.pairedDie c ev action time = true
  · simp only [if_pos hpaired]
    exact h
  simp only [if_neg hpaired]
  obtain ⟨hbeside, lost, hstrict, hanswer⟩ := h.engines.observe hc ev.host (trimSlash ev.containerName)
  rw [hanswer]
  cases (r.1.observe (windowKey c.id ev.host (trimSlash ev.containerName)) c time).2 with
  | none => exact ⟨hbeside, h.alerts⟩
  | some suppressed => exact ⟨hbeside, List.rel_append h.alerts (.cons ⟨lost, hstrict, rfl⟩ .nil)⟩

theorem Together.recordRules {r r' : Engine × List Alert} (h : Together lib strict time r r') (ev : EngineEvent)
    (action exitCode : String) {cs : List CompiledRule} (hcs : ∀ c ∈ cs, c ∈ compileRules lib r.1.rules) :
    Together lib strict time (cs.foldl (Engine.recordRule ev action exitCode time) r)
      (cs.foldl (Engine.recordRule ev action exitCode time) r') := by
  induction cs generalizing r r' with
  | nil => exact h
  | cons c cs ih =>
    refine ih (h.recordRule ev action exitCode (hcs c List.mem_cons_self)) fun c' hc' => ?_
    rw [recordRule_rules]
    exact hcs c' (List.mem_cons_of_mem _ hc')

theorem Beside.recordEventMatch (h : Beside lib strict time p f) (ev : EngineEvent) (action exitCode : String) :
    Together lib strict time (p.recordEventMatch ev action exitCode time)
      (f.recordEventMatch ev action exitCode time) := by
  unfold Engine.recordEventMatch
  set oomKey := ev.host ++ "|" ++ ev.containerID
  have hnoted : ∀ e : Engine, e.Inv lib →
      ({ e with lastOOM := Function.update e.lastOOM oomKey (some time) } : Engine).Inv lib := fun e hi =>
    ⟨hi.rules, hi.eventRules, hi.subs, hi.subscribed, hi.gens, hi.gen_inj, hi.fired, hi.windows⟩
  have hrecord : ∀ p' f' : Engine, Beside lib strict time p' f' →
      Together lib strict time (p'.eventRules.foldl (Engine.recordRule ev action exitCode time) (p', []))
        (f'.eventRules.foldl (Engine.recordRule ev action exitCode time) (f', [])) := by
    intro p' f' h'
    rw [← h'.shared Engine.eventRules fun _ => rfl]
    exact h'.silent.recordRules ev action exitCode fun c hc => ((mem_eventRules h'.pruned).mp hc).1
  by_cases hoom : action = "oom"
  · simp only [if_pos hoom]
    refine hrecord _ _ ⟨hnoted p h.pruned, hnoted f h.full, h.core, h.limits, h.windows, h.settled, fun key => ?_⟩
    by_cases hkey : key = oomKey
    · subst hkey
      simp only [Function.update_self]
      exact .inl trivial
    · simp only [Function.update_of_ne hkey]
      exact h.oom key
  · simp only [if_neg hoom]
    exact hrecord p f h

theorem Beside.handleEvent (h : Beside lib strict time p f) (ev : EngineEvent) :
    Together lib strict time (p.handleEvent ev time) (f.handleEvent ev time) := by
  unfold Engine.handleEvent
  split
  · split_ifs
    · exact h.silent
    · exact h.silent
    · exact h.recordEventMatch ev _ _
  · exact h.recordEventMatch ev _ _
  · split_ifs
    · exact h.recordEventMatch ev _ _
    · exact h.silent
  · exact h.silent

theorem Beside.takeMatch (h : Beside lib strict time p f) :
    Together lib strict time (p.takeMatch time) (f.takeMatch time) := by
  have hfired : p.fired = f.fired := h.shared Engine.fired fun _ => rfl
  unfold Engine.takeMatch
  rw [← hfired]
  cases hp : p.fired with
  | nil => exact h.silent
  | cons m fired =>
    have htaken : ∀ e : Engine, e.Inv lib → e.fired = m :: fired → ({ e with fired := fired } : Engine).Inv lib :=
      fun e hi he => ⟨hi.rules, hi.eventRules, hi.subs, hi.subscribed, hi.gens, hi.gen_inj,
        fun m' hm' => hi.fired m' (he ▸ List.mem_cons_of_mem _ hm'), hi.windows⟩
    have hcore : ({ p with fired := fired } : Engine).core = ({ f with fired := fired } : Engine).core :=
      congrArg (fun e : Engine => { e with fired := fired }) h.core
    have hbeside : Beside lib strict time { p with fired := fired } { f with fired := fired } :=
      ⟨htaken p h.pruned hp, htaken f h.full (hfired ▸ hp), hcore, h.limits, h.windows, h.settled, h.oom⟩
    exact hbeside.handleMatch (h.pruned.fired m (hp ▸ List.mem_cons_self))

/-- what a sink does depends on the sinks and the queue only -/
theorem runSink_core (lib : GoLib) (e : Engine) (sink : ℕ) (rec : Record) :
    (e.runSink lib sink rec).core = e.core.runSink lib sink rec ∧
      (e.runSink lib sink rec).windows = e.windows ∧ (e.runSink lib sink rec).lastOOM = e.lastOOM := by
  have hsinks : e.core.sinks = e.sinks := rfl
  have hfired : e.core.fired = e.fired := rfl
  unfold Engine.runSink
  rw [hsinks, hfired]
  cases e.sinks[sink]? with
  | none => exact ⟨rfl, rfl, rfl⟩
  | some s =>
    dsimp only
    split_ifs <;> exact ⟨rfl, rfl, rfl⟩

theorem Beside.runSink (h : Beside lib strict time p f) (sink : ℕ) (rec : Record) :
    Beside lib strict time (p.runSink lib sink rec) (f.runSink lib sink rec) := by
  obtain ⟨hpcore, hpwindows, hpoom⟩ := runSink_core lib p sink rec
  obtain ⟨hfcore, hfwindows, hfoom⟩ := runSink_core lib f sink rec
  have hfrules := (runSink_inv h.full sink rec).2
  refine ⟨(runSink_inv h.pruned sink rec).1, (runSink_inv h.full sink rec).1, ?_, ?_, ?_, ?_, ?_⟩
  · rw [hpcore, hfcore, h.core]
  · rw [hfrules]
    exact h.limits
  · rw [hpwindows, hfwindows]
    exact h.windows
  · rw [hfwindows]
    exact h.settled
  · rw [hpoom, hfoom]
    exact h.oom

theorem resubscribe_core (e : Engine) (rules : List SourceRule) :
    (e.resubscribe lib rules).core = e.core.resubscribe lib rules := by
  unfold Engine.resubscribe
  exact (List.foldl_hom Engine.core fun _ _ => rfl).symm

theorem reconcile_lastOOM (e : Engine) (rules : List SourceRule) :
    (e.reconcile lib rules).lastOOM = e.lastOOM := by
  have hsubscribe : ∀ (rs : List CompiledRule) (e : Engine),
      (rs.foldl Engine.subscribeRule e).lastOOM = e.lastOOM := by
    intro rs
    induction rs with
    | nil => exact fun _ => rfl
    | cons r rs ih => exact fun e => ih (e.subscribeRule r)
  exact hsubscribe _ _

theorem Beside.reconcile (h : Beside lib strict time p f) {rules : List SourceRule} (hrules : Admissible rules) :
    Beside lib strict time (p.reconcile lib rules) (f.reconcile lib rules) := by
  have hstale : p.stale lib rules = f.stale lib rules := h.shared (fun e => e.stale lib rules) fun _ => rfl
  have hcore : (p.resubscribe lib rules).core = (f.resubscribe lib rules).core := by
    rw [resubscribe_core, resubscribe_core, h.core]
  refine ⟨reconcile_inv h.pruned hrules.toRulesOK, reconcile_inv h.full hrules.toRulesOK, ?_, hrules.limits, ?_, ?_, ?_⟩
  · exact congrArg (fun e : Engine => { e with eventRules := eventRulesOf lib rules, rules := rules }) hcore
  · intro key
    change KeyAlike strict time (if p.stale lib rules (ruleOf key) then none else p.windows key)
      (if f.stale lib rules (ruleOf key) then none else f.windows key)
    rw [hstale]
    split_ifs
    · exact .none
    · exact h.windows key
  · intro key v hv
    exact h.settled key v (Option.ite_none_left_eq_some.mp hv).2
  · rw [reconcile_lastOOM, reconcile_lastOOM]
    exact h.oom

/-- no window remembers more than a day -/
theorem Beside.bounded (h : Beside lib strict time p f) {key : String} {v : RuleWindow}
    (hv : f.windows key = some v) : v.window ≤ windowIdleTTL ∧ v.cooldown ≤ windowIdleTTL := by
  obtain ⟨c, hc, -, hfits⟩ := h.full.windows key v hv
  obtain ⟨rule, hrule, hcr⟩ := mem_compileRules.mp hc
  rw [hfits.window, hfits.cooldown]
  exact compileRule_bounded (h.limits rule hrule) hcr

theorem Beside.prune (h : Beside lib strict now p f) (hkept : strict → p.CountsKept (.prune now)) :
    Beside lib strict now (p.pruneWindows now) f where
  pruned := pruneWindows_inv h.pruned now
  full := h.full
  core := h.core
  limits := h.limits
  windows key := (h.windows key).prune (fun v hv => ⟨h.settled key v hv, h.bounded hv⟩) fun hs w => hkept hs key w
  settled := h.settled
  oom key := by
    change (p.lastOOM key).filter (fun t => ! decide (now - t > oomDieWindow)) = f.lastOOM key ∨
      (p.lastOOM key).filter (fun t => ! decide (now - t > oomDieWindow)) = none ∧ _
    rcases h.oom key with hsame | ⟨hnone, hold⟩
    · rw [hsame]
      cases hf : f.lastOOM key with
      | none => exact .inl rfl
      | some t =>
        by_cases hold : now - t > oomDieWindow
        · simp only [Option.filter, hold, decide_true, Bool.not_true, Bool.false_eq_true, if_false]
          exact .inr ⟨trivial, t, rfl, by omega⟩
        · simp only [Option.filter, hold, decide_false, Bool.not_false, if_true]
          exact .inl trivial
    · rw [hnone]
      exact .inr ⟨rfl, hold⟩

/-- **One step.** The engines stay beside each other, and what they emit is the same up to lost counts. -/
theorem step_beside (h : Beside lib strict time p f) {a : Act} (ha : a.Admitted) (htime : time ≤ a.clock time)
    (hkept : strict → p.CountsKept a) :
    Together lib strict (a.clock time) (p.step lib a) (f.stepKeeping lib a) := by
  have hnow := h.later htime
  cases a with
  | reconcile rules => exact (hnow.reconcile ha).silent
  | record sink rec => exact (hnow.runSink sink rec).silent
  | takeMatch now => exact hnow.takeMatch
  | event ev now => exact hnow.handleEvent ev
  | inspect r now =>
    change Together lib strict now (p.handleInspect r now) (f.handleInspect r now)
    unfold Engine.handleInspect
    split_ifs
    · exact hnow.recordEventMatch r.ev r.action r.exitCode
    · exact hnow.silent
  | prune now => exact (hnow.prune hkept).silent

theorem run_beside (h : Beside lib strict time p f) {acts : List Act} (hacts : ∀ a ∈ acts, a.Admitted)
    (htime : InTime time acts) (hkept : strict → Machine.Each (Engine.next lib) Engine.CountsKept p acts) :
    List.Forall₂ (AlertsAlike strict) (emits (Engine.step lib) p acts) (emits (Engine.stepKeeping lib) f acts) := by
  induction acts generalizing time p f with
  | nil => exact .nil
  | cons a acts ih =>
    have hstep := step_beside h (hacts a List.mem_cons_self) htime.1 fun hs => (hkept hs).1
    refine .cons hstep.alerts (ih hstep.engines ?_ htime.2 fun hs => (hkept hs).2)
    exact fun a' ha' => hacts a' (List.mem_cons_of_mem _ ha')

theorem newEngine_beside (lib : GoLib) (strict : Prop) (time : ℤ) : Beside lib strict time newEngine newEngine where
  pruned := newEngine_inv lib
  full := newEngine_inv lib
  core := rfl
  limits := nofun
  windows _ := .none
  settled := nofun
  oom _ := .inl rfl

end

/-- alerts that lost no counts are the same -/
theorem AlertsAlike.eq {strict : Prop} {as bs : List Alert} (h : AlertsAlike strict as bs) (hstrict : strict) :
    as = bs := by
  induction h with
  | nil => rfl
  | cons hab _ ih =>
    obtain ⟨lost, hlost, hb⟩ := hab
    rw [hb, hlost hstrict, ih]
    rfl

/-- **Pruning.** In every run with admissible rules and a clock that does not go back, the engine that prunes and the one
that never does emit alerts at the same points, which are the same up to suppressed trips that the first no longer
reports. They are the same altogether if no prune of the run drops a window with suppressed trips. -/
theorem prune_unobservable (lib : GoLib) (time : ℤ) (acts : List Act) (hacts : ∀ a ∈ acts, a.Admitted)
    (htime : InTime time acts) :
    List.Forall₂ (AlertsAlike False) (emits (Engine.step lib) newEngine acts)
        (emits (Engine.stepKeeping lib) newEngine acts) ∧
      (Machine.Each (Engine.next lib) Engine.CountsKept newEngine acts →
        emits (Engine.step lib) newEngine acts = emits (Engine.stepKeeping lib) newEngine acts) := by
  refine ⟨run_beside (newEngine_beside lib False time) hacts htime nofun, fun hkept => ?_⟩
  have hruns := run_beside (newEngine_beside lib True time) hacts htime fun _ => hkept
  rw [← List.forall₂_eq_eq_eq]
  exact hruns.imp fun as bs h => h.eq trivial

/-- a rule of the API for containers that die, with a window of a minute -/
def watchRule : SourceRule := requested { dieRule with windowSeconds := 60 } false (by decide)

theorem watchRule_admissible : Admissible [watchRule] where
  nodup := by decide
  bar := by decide
  limits rule hrule := by
    rw [List.mem_singleton.mp hrule]
    exact ⟨by decide, by decide, by decide⟩

/-- a container that dies once a day: the window that is dropped has nothing to report -/
theorem prune_unobservable_daily :
    let acts : List Act := [.reconcile [watchRule], .event dieEvent 0, .prune (86401 * second),
      .event dieEvent (86402 * second)]
    emits (Engine.step noRegexp) newEngine acts = emits (Engine.stepKeeping noRegexp) newEngine acts := by
  intro acts
  have hacts : ∀ a ∈ acts, a.Admitted := by
    intro a ha
    simp only [acts, List.mem_cons, List.not_mem_nil, or_false] at ha
    obtain rfl | rfl | rfl | rfl := ha
    · exact watchRule_admissible
    all_goals trivial
  have hkept : Machine.Each (Engine.next noRegexp) Engine.CountsKept newEngine acts := by
    refine ⟨trivial, trivial, fun key w hw _ => ?_, trivial, trivial⟩
    by_cases hkey : key = "r1|local|web"
    · subst hkey
      cases hw
      rfl
    · change @Function.update String (fun _ => Option RuleWindow) _ _ "r1|local|web" _ key = some w at hw
      rw [Function.update_of_ne hkey] at hw
      exact absurd (Option.ite_none_left_eq_some.mp hw).2 nofun
  exact (prune_unobservable noRegexp 0 acts hacts (by decide)).2 hkept

/-- a container dies twice within the cooldown of its rule, and again the day after -/
def diesAgain : List Act :=
  [.reconcile [watchRule], .event dieEvent 0, .event dieEvent (10 * second), .prune (86411 * second),
    .event dieEvent (86412 * second)]

/-- the third alert reports no suppressed trip, where the engine that never prunes reports the second die -/
theorem prune_loses_count :
    (∀ a ∈ diesAgain, a.Admitted) ∧ InTime 0 diesAgain ∧
      (emits (Engine.step noRegexp) newEngine diesAgain).map (List.map Alert.suppressed) = [[], [0], [], [], [0]] ∧
      (emits (Engine.stepKeeping noRegexp) newEngine diesAgain).map (List.map Alert.suppressed) =
        [[], [0], [], [], [1]] := by
  refine ⟨fun a ha => ?_, by decide, by decide, by decide⟩
  simp only [diesAgain, List.mem_cons, List.not_mem_nil, or_false] at ha
  obtain rfl | rfl | rfl | rfl | rfl := ha
  · exact watchRule_admissible
  all_goals trivial

end LogDeck.Alerts
