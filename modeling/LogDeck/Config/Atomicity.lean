/-
Which sequences of Update operations are atomic (`config/manager.go`, `config/alerts.go`, `config/logstore.go`).

An update that fails must leave the configuration as it was. The mutate functions of `UpdateAlerts` and `UpdateLogStore`
are handed shallow copies, so one of them that writes into a list of a stored rule or through a pointer of the log store
and then fails, or whose file cannot be written, has changed the live configuration. `Spares` is the condition under which
it has not: whatever it wrote there was last written with what was there before.

Results:
- `step_reached`: what every update keeps, whatever it writes;
- `update_clean_iff`: one update;
- `updates_atomic_iff`: the runs in which updates are atomic;
- `lift_spec`: a mutate function that writes into nothing shared meets the transactions of `Config.Transactions`.
-/
import LogDeck.Lib.Machine
import LogDeck.Config.Sharing

namespace LogDeck.Config

open GoSlice

/-! ## The updates that share nothing -/

/-- the parts of the manager that an update leaves alone -/
structure LeavesAlerts (m m' : Manager) : Prop where
  alerts : m'.file.alerts = m.file.alerts
  logStore : m'.file.logStore = m.file.logStore
  channels : m'.mem.channels = m.mem.channels
  rules : m'.mem.rules = m.mem.rules

theorem LeavesAlerts.rfl {m : Manager} : LeavesAlerts m m := ⟨Eq.refl _, Eq.refl _, Eq.refl _, Eq.refl _⟩

/-- neither the alerts nor the log store -/
def UpdateOp.SharesNothing : UpdateOp → Prop
  | .alerts _ | .logStore _ => False
  | _ => True

theorem storeAuth_leaves (env : Env) (w : World) (m : Manager) (updated : Option Slice) :
    LeavesAlerts m (m.storeAuth env w updated).1 := by
  unfold Manager.storeAuth
  dsimp only
  split_ifs
  · exact ⟨rfl, rfl, rfl, rfl⟩
  · exact ⟨rfl, rfl, rfl, rfl⟩

theorem update_leaves (env : Env) (w : World) (m : Manager) {op : UpdateOp} (hop : op.SharesNothing) :
    LeavesAlerts m (m.update env w op).1 := by
  cases op with
  | dockerHosts hosts =>
    simp only [Manager.update, Manager.updateDockerHosts]
    split
    · exact .rfl
    · split_ifs <;> exact ⟨rfl, rfl, rfl, rfl⟩
  | coolifyHosts hosts =>
    simp only [Manager.update, Manager.updateCoolifyHosts]
    split
    · exact .rfl
    · split_ifs <;> exact ⟨rfl, rfl, rfl, rfl⟩
  | readOnly readOnly =>
    simp only [Manager.update, Manager.updateReadOnly]
    split_ifs <;> exact ⟨rfl, rfl, rfl, rfl⟩
  | auth mutate =>
    simp only [Manager.update, Manager.updateAuth]
    split_ifs
    · exact .rfl
    · split
      · exact ⟨rfl, rfl, rfl, rfl⟩
      all_goals
        obtain ⟨halerts, hlogStore, hchannels, hrules⟩ := storeAuth_leaves env w _ _
        exact ⟨halerts, hlogStore, hchannels, hrules⟩
  | apiTokens mutate =>
    simp only [Manager.update, Manager.updateAPITokens]
    split_ifs <;> exact ⟨rfl, rfl, rfl, rfl⟩
  | alerts mutate => exact absurd hop id
  | logStore mutate => exact absurd hop id

section
variable {env : Env} {w : World} {s : SharedManager} {op : UpdateOp}

/-- what the manager shows is what the update makes of what it showed -/
theorem rest_view (hop : op.SharesNothing) : (s.rest env w op).1.view = (s.view.update env w op).1 := by
  have hleaves := update_leaves env w s.view hop
  calc (s.rest env w op).1.view
      = { (s.view.update env w op).1 with
            mem := { (s.view.update env w op).1.mem with rules := s.view.mem.rules }
            file := { (s.view.update env w op).1.file with logStore := s.view.file.logStore } } := rfl
    _ = (s.view.update env w op).1 := by rw [← hleaves.rules, ← hleaves.logStore]

theorem rest_holds (hs : s.Holds) (hop : op.SharesNothing) : (s.rest env w op).1.Holds := by
  obtain ⟨halerts, -, hchannels, -⟩ := update_leaves env w s.view hop
  have hwf : (s.view.update env w op).1.WellFormed := (update_spec hs.view op).1
  refine ⟨hwf.auth, hwf.apiTokens, hwf.channels, fun a ha => ?_, fun a ha => ?_, hs.logStore⟩
  · exact hs.rules a (halerts.symm.trans ha)
  · exact hs.lists a (halerts.symm.trans ha)

end

/-! ## Every update -/

/-- an update that fails leaves behind what was there before -/
def SharedManager.Spares (s : SharedManager) (e : SharedOp × World) : Prop :=
  match e.1 with
  | .alerts mutate =>
    let called := mutate s.cloneAlerts.value
    called.2 = false ∨ e.2.persists = false → s.AlertsSpared (s.cloneAlerts.allWrites called.1)
  | .logStore mutate =>
    let called := mutate (s.cloneLogStore.shared.logStore s.cloneLogStore.logStore)
    called.2 = false ∨ e.2.persists = false →
      s.StoreSpared (s.cloneLogStore.flagWrites called.1) (s.cloneLogStore.numberWrites called.1)
  | _ => True

/-- an update that fails changes nothing -/
def SharedManager.Clean (env : Env) (s : SharedManager) (e : SharedOp × World) : Prop :=
  (s.update env e.2 e.1).2 ≠ none → Refused s.view (s.update env e.2 e.1).1.view

/-- memory and file hold the same configuration -/
def SharedManager.Mirrors (s : SharedManager) : Prop := s.view.fileConfig = s.view.disk

/-- the hosts an update submits have different names -/
def SharedOp.Distinct : SharedOp → Prop
  | .dockerHosts hosts => (hosts.map DockerHost.name).Nodup
  | .coolifyHosts hosts => (hosts.map CoolifyHostConfig.hostName).Nodup
  | _ => True

/-- what an update comes to -/
inductive Ends (env : Env) (s : SharedManager) (e : SharedOp × World) : Prop where
  /-- it shares nothing -/
  | alone (op : UpdateOp) (hop : op.SharesNothing) (hupdate : s.update env e.2 e.1 = s.rest env e.2 op)
      (hdistinct : e.1.Distinct → op.Distinct) (hspares : s.Spares e)
  /-- it fails, and what its mutate function has written stays -/
  | failed (herr : (s.update env e.2 e.1).2 ≠ none) (holds : (s.step env e).Holds)
      (apart : Apart s.view (s.step env e).view) (disk : (s.step env e).view.disk = s.view.disk)
      (clean : Refused s.view (s.step env e).view ↔ s.Spares e)
  | stored (hok : (s.update env e.2 e.1).2 = none) (holds : (s.step env e).Holds)
      (apart : Apart s.view (s.step env e).view) (mirrors : (s.step env e).Mirrors) (hspares : s.Spares e)

section
variable {env : Env} {s : SharedManager}

theorem updateAlerts_ends (hs : s.Holds) (w : World) (mutate : AlertsConfig → List SharedAlertsStep × Bool) :
    Ends env s (.alerts mutate, w) := by
  have hl : Lent s (s.cloneAlerts.run (mutate s.cloneAlerts.value).1)
      (s.cloneAlerts.allWrites (mutate s.cloneAlerts.value).1) := run_lent (cloneAlerts_lent hs) _
  rcases updateAlerts_cases w s mutate with ⟨hfails, herr, hnext⟩ | ⟨hok, hnone, hnext⟩
  · have hstep : s.step env (.alerts mutate, w) = s.after _ := hnext
    refine .failed (Option.ne_none_iff_exists'.2 ⟨_, herr⟩) ?_ ?_ ?_ ?_
    · rw [hstep]
      exact hl.holds hs
    · rw [hstep]
      exact after_apart s _
    · rw [hstep]
      rfl
    · rw [hstep, hl.refused_iff hs]
      exact ⟨fun hkept _ => hkept, fun hspares => hspares hfails⟩
  · have hstep : s.step env (.alerts mutate, w) = ((s.after _).setAlerts (some _)).persist := hnext
    refine .stored hnone ?_ ?_ ?_ fun hfails => absurd hfails hok
    · rw [hstep]
      exact hl.stored hs
    · rw [hstep]
      exact stored_apart s _ _
    · rw [hstep]
      rfl

theorem updateLogStore_ends (hs : s.Holds) (w : World) (mutate : LogStoreConfig → List LogStoreStep × Bool) :
    Ends env s (.logStore mutate, w) := by
  set handed := s.cloneLogStore.shared.logStore s.cloneLogStore.logStore
  have hl : LentStore s (s.cloneLogStore.run (mutate handed).1) (s.cloneLogStore.flagWrites (mutate handed).1)
      (s.cloneLogStore.numberWrites (mutate handed).1) := (cloneLogStore_lent hs).run _
  rcases updateLogStore_cases w s mutate with ⟨hfails, herr, hnext⟩ | ⟨hok, hnone, hnext⟩
  · have hstep : s.step env (.logStore mutate, w) = { s with shared := _ } := hnext
    refine .failed (Option.ne_none_iff_exists'.2 ⟨_, herr⟩) ?_ ?_ ?_ ?_
    · rw [hstep]
      exact hl.holds hs
    · rw [hstep]
      exact ⟨⟨_, _, rfl⟩, rfl, rfl, rfl⟩
    · rw [hstep]
      rfl
    · rw [hstep, hl.refused_iff hs]
      exact ⟨fun hkept _ => hkept, fun hspares => hspares hfails⟩
  · have hstep : s.step env (.logStore mutate, w) =
        ({ s with shared := _, logStore := some _ } : SharedManager).persist := hnext
    refine .stored hnone ?_ ?_ ?_ fun hfails => absurd hfails hok
    · rw [hstep]
      exact hl.stored hs
    · rw [hstep]
      exact ⟨⟨_, _, rfl⟩, rfl, rfl, rfl⟩
    · rw [hstep]
      rfl

variable (env) in
theorem step_ends (hs : s.Holds) (e : SharedOp × World) : Ends env s e := by
  obtain ⟨op, w⟩ := e
  cases op with
  | dockerHosts hosts => exact .alone (.dockerHosts hosts) trivial rfl id trivial
  | coolifyHosts hosts => exact .alone (.coolifyHosts hosts) trivial rfl id trivial
  | readOnly readOnly => exact .alone (.readOnly readOnly) trivial rfl id trivial
  | auth mutate => exact .alone (.auth mutate) trivial rfl id trivial
  | apiTokens mutate => exact .alone (.apiTokens mutate) trivial rfl id trivial
  | alerts mutate => exact updateAlerts_ends hs w mutate
  | logStore mutate => exact updateLogStore_ends hs w mutate

/-- **One update.** If it fails it changes nothing, exactly when it has spared what it shares. -/
theorem update_clean_iff (hs : s.Holds) (e : SharedOp × World) : s.Clean env e ↔ s.Spares e := by
  cases step_ends env hs e with
  | alone op hop hupdate hdistinct hspares =>
    refine ⟨fun _ => hspares, fun _ herr => ?_⟩
    rw [hupdate] at herr ⊢
    rw [rest_view hop]
    rcases update_cases env hs.view op e.2 with ⟨_, _, hrefused⟩ | ⟨hok, _⟩
    · exact hrefused
    · exact absurd hok herr
  | failed herr holds apart disk clean => exact ⟨fun h => clean.1 (h herr), fun h _ => clean.2 h⟩
  | stored hok holds apart mirrors hspares => exact ⟨fun _ => hspares, fun _ herr => absurd hok herr⟩

variable (env) in
theorem step_holds (hs : s.Holds) (e : SharedOp × World) : (s.step env e).Holds := by
  cases step_ends env hs e with
  | alone op hop hupdate hdistinct hspares =>
    unfold SharedManager.step
    rw [hupdate]
    exact rest_holds hs hop
  | failed herr holds apart disk clean => exact holds
  | stored hok holds apart mirrors hspares => exact holds

/-- **What every update keeps**, also one that writes into what it shares and fails. -/
theorem step_reached {m₀ : Manager} (hs : s.Holds) (h : Reached env m₀ s.view) (e : SharedOp × World) :
    Reached env m₀ (s.step env e).view := by
  have hnext := step_holds env hs e
  cases step_ends env hs e with
  | alone op hop hupdate hdistinct hspares =>
    unfold SharedManager.step
    rw [hupdate, rest_view hop]
    exact h.step (op, e.2)
  | failed herr holds apart disk clean => exact h.apart hnext.view apart
  | stored hok holds apart mirrors hspares => exact h.apart hnext.view apart

/-- memory and file stay the same exactly when an update that fails has spared what it shares -/
theorem step_mirrors_iff (hs : s.Holds) (hm : s.Mirrors) (e : SharedOp × World) :
    (s.step env e).Mirrors ↔ s.Spares e := by
  cases step_ends env hs e with
  | alone op hop hupdate hdistinct hspares =>
    refine ⟨fun _ => hspares, fun _ => ?_⟩
    unfold SharedManager.Mirrors SharedManager.step
    rw [hupdate, rest_view hop]
    exact step_mirrors hs.view hm (op, e.2)
  | failed herr holds apart disk clean =>
    rw [← clean]
    constructor
    · intro hmirrors
      have hfc : (s.step env e).view.fileConfig = s.view.fileConfig := hmirrors.trans (disk.trans hm.symm)
      exact ⟨hfc, apart.merged, apart.sources, apart.generation, disk⟩
    · intro hrefused
      exact hrefused.fileConfig.trans (hm.trans hrefused.disk.symm)
  | stored hok holds apart mirrors hspares => exact ⟨fun _ => hspares, fun _ => mirrors⟩

theorem shared_distinct (hs : s.Holds) (h : s.view.fileConfig.Distinct) {e : SharedOp × World} (he : e.1.Distinct) :
    (s.step env e).view.fileConfig.Distinct := by
  have hapart : Apart s.view (s.step env e).view → (s.step env e).view.fileConfig.Distinct := by
    intro hapart
    obtain ⟨alerts, logStore, hfc⟩ := hapart.fileConfig
    rw [hfc]
    exact ⟨h.dockerHosts, h.coolifyHosts⟩
  cases step_ends env hs e with
  | alone op hop hupdate hdistinct hspares =>
    unfold SharedManager.step
    rw [hupdate, rest_view hop]
    have hop' : ((op, e.2) : UpdateOp × World).1.Distinct := hdistinct he
    exact step_distinct hs.view h hop'
  | failed herr holds apart disk clean => exact hapart apart
  | stored hok holds apart mirrors hspares => exact hapart apart

end

/-! ## From the start -/

section
variable (env : Env) (w : World) (newChannelID : String) (disk : FileConfig)

theorem loadPointer_in {α : Type} (h : Heap α) (v : Option α) :
    Heap.Frame h.next h (loadPointer h v).1 ∧ PointerIn (loadPointer h v).1 (loadPointer h v).2 ∧
      deref (loadPointer h v).1 (loadPointer h v).2 = v := by
  cases v with
  | none => exact ⟨.rfl, .none, rfl⟩
  | some v =>
    refine ⟨(literal_frame h [v]).1, fun q hq => ?_, ?_⟩
    · obtain rfl := Option.some.inj hq
      exact ⟨literal_inBounds h [v], rfl⟩
    · exact congrArg List.head? (read_literal h [v])

/-- the slice of the rules that are read from the file -/
def loadedRules (fc : FileConfig) : Slice :=
  (literal (Heap.empty : Heap AlertRule) ((fc.alerts.map AlertsConfig.rules).getD [])).2

/-- the rules of the file lie in memory, and show -/
theorem loadShared_rules (fc : FileConfig) :
    (loadedRules fc).InBounds (loadShared fc).1.rules ∧
      (∀ r ∈ (loadShared fc).1.rules.read (loadedRules fc), r.InBounds (loadShared fc).1.texts) ∧
      ((loadShared fc).1.rules.read (loadedRules fc)).map (loadShared fc).1.rule =
        (fc.alerts.map AlertsConfig.rules).getD [] := by
  unfold loadedRules loadShared
  dsimp only
  generalize (fc.alerts.map AlertsConfig.rules).getD [] = vs
  generalize (loadPointer Heap.empty _).1 = flags
  generalize (loadPointer (loadPointer Heap.empty _).1 _).1 = numbers
  have hplaced := placeRules_placed { rules := .empty, texts := .empty, flags := flags, numbers := numbers } vs
  set rs := (Shared.placeRules { rules := .empty, texts := .empty, flags := flags, numbers := numbers } vs).2
  have hlen : rs.length = vs.length := by
    rw [← hplaced.values, List.length_map]
  have hslice : (literal (Heap.empty : Heap AlertRule) vs).2 = (literal (Heap.empty : Heap RuleRef) rs).2 := by
    simp only [literal, hlen]
    rfl
  rw [hslice, read_literal]
  exact ⟨literal_inBounds .., hplaced.lists, hplaced.values⟩

/-- so does the log store -/
theorem loadShared_logStore (fc : FileConfig) :
    (∀ l, (loadShared fc).2 = some l → l.InBounds (loadShared fc).1) ∧
      (loadShared fc).2.map (loadShared fc).1.logStore = fc.logStore := by
  set store := fc.logStore.getD { enabled := none, perContainerMB := none, totalMB := none } with hstore
  set enabled := loadPointer Heap.empty store.enabled
  set perContainerMB := loadPointer Heap.empty store.perContainerMB
  set totalMB := loadPointer perContainerMB.1 store.totalMB
  set l : LogStoreRef := { enabled := enabled.2, perContainerMB := perContainerMB.2, totalMB := totalMB.2 }
  have hloaded : (loadShared fc).2 = fc.logStore.map fun _ => l := rfl
  have hrest := (placeRules_placed { rules := .empty, texts := .empty, flags := enabled.1, numbers := totalMB.1 }
    ((fc.alerts.map AlertsConfig.rules).getD [])).rest
  have hflags : (loadShared fc).1.flags = enabled.1 := congrArg Shared.flags hrest
  have hnumbers : (loadShared fc).1.numbers = totalMB.1 := congrArg Shared.numbers hrest
  obtain ⟨-, hin1, hval1⟩ := loadPointer_in Heap.empty store.enabled
  obtain ⟨-, hin2, hval2⟩ := loadPointer_in Heap.empty store.perContainerMB
  obtain ⟨hframe, hin3, hval3⟩ := loadPointer_in perContainerMB.1 store.totalMB
  have hval2' : deref totalMB.1 perContainerMB.2 = store.perContainerMB := by
    rw [← hval2]
    exact (deref_eq_iff hin2 hframe.written).2 fun q _ => .nil _ _
  have hin : l.InBounds (loadShared fc).1 := ⟨hflags ▸ hin1, hnumbers ▸ hin2.written hframe.written, hnumbers ▸ hin3⟩
  have hshown : (loadShared fc).1.logStore l = store := by
    unfold Shared.logStore
    rw [hflags, hnumbers]
    exact (LogStoreConfig.mk.injEq ..).mpr ⟨hval1, hval2', hval3⟩
  constructor
  · intro l' hl'
    rw [hloaded] at hl'
    obtain ⟨_, -, rfl⟩ := Option.map_eq_some_iff.1 hl'
    exact hin
  · rw [hloaded, Option.map_map]
    cases hlogStore : fc.logStore with
    | none => rfl
    | some found =>
      rw [hlogStore, Option.getD_some] at hstore
      exact congrArg some (hshown.trans hstore)

theorem newSharedManager_alerts {a : AlertsRef}
    (ha : (newSharedManager env w newChannelID disk).base.file.alerts = some a) :
    a.rules = loadedRules ((migrated newChannelID disk).getD disk) := by
  obtain ⟨b, -, rfl⟩ := Option.map_eq_some_iff.1 ha
  rfl

theorem newSharedManager_holds : (newSharedManager env w newChannelID disk).Holds := by
  have hwf : (newManager env w newChannelID disk).WellFormed := newManager_wellFormed ..
  obtain ⟨hrules, hlists, -⟩ := loadShared_rules ((migrated newChannelID disk).getD disk)
  obtain ⟨hpointers, -⟩ := loadShared_logStore ((migrated newChannelID disk).getD disk)
  refine ⟨hwf.auth, hwf.apiTokens, hwf.channels, fun a ha => ?_, fun a ha => ?_, hpointers⟩
  · rw [newSharedManager_alerts env w newChannelID disk ha]
    exact hrules
  · rw [newSharedManager_alerts env w newChannelID disk ha]
    exact hlists

/-- the new manager shows the file -/
theorem newSharedManager_fileConfig :
    (newSharedManager env w newChannelID disk).view.fileConfig = (migrated newChannelID disk).getD disk := by
  obtain ⟨-, -, hshown⟩ := loadShared_rules ((migrated newChannelID disk).getD disk)
  obtain ⟨-, hlogStore⟩ := loadShared_logStore ((migrated newChannelID disk).getD disk)
  have hbase : (newManager env w newChannelID disk).fileConfig = (migrated newChannelID disk).getD disk :=
    newManager_fileConfig ..
  have halerts : (newSharedManager env w newChannelID disk).view.fileConfig.alerts =
      ((migrated newChannelID disk).getD disk).alerts := by
    have hold := congrArg FileConfig.alerts hbase
    rw [view_alerts, ← hold]
    have hnew : (newManager env w newChannelID disk).fileConfig.alerts =
        (newManager env w newChannelID disk).file.alerts.map (newManager env w newChannelID disk).mem.alerts := rfl
    rw [hnew] at hold ⊢
    cases ha : (newManager env w newChannelID disk).file.alerts with
    | none =>
      have hnone : (newSharedManager env w newChannelID disk).base.file.alerts = none := ha
      rw [hnone]
      rfl
    | some a =>
      have hsome : (newSharedManager env w newChannelID disk).base.file.alerts = some a := ha
      have hrules : ((migrated newChannelID disk).getD disk).alerts.map AlertsConfig.rules =
          some ((newManager env w newChannelID disk).mem.rules.read a.rules) := by
        rw [← hold, ha]
        rfl
      rw [hrules, Option.getD_some] at hshown
      rw [hsome, Option.map_some, newSharedManager_alerts env w newChannelID disk hsome]
      exact congrArg (fun rules => some (AlertsConfig.mk a.webhookURL
        ((newManager env w newChannelID disk).mem.channels.read a.channels) rules)) hshown
  calc (newSharedManager env w newChannelID disk).view.fileConfig
      = { (newManager env w newChannelID disk).fileConfig with
            alerts := (newSharedManager env w newChannelID disk).view.fileConfig.alerts
            logStore := (newSharedManager env w newChannelID disk).view.fileConfig.logStore } := rfl
    _ = { (newManager env w newChannelID disk).fileConfig with
            alerts := ((migrated newChannelID disk).getD disk).alerts
            logStore := ((migrated newChannelID disk).getD disk).logStore } := by
          rw [halerts]
          exact congrArg (fun logStore => { (newManager env w newChannelID disk).fileConfig with
            alerts := ((migrated newChannelID disk).getD disk).alerts, logStore := logStore }) hlogStore
    _ = (migrated newChannelID disk).getD disk := by rw [hbase]

end

/-! ## Runs -/

section
variable (env : Env) (w₀ : World) (newChannelID : String) (disk : FileConfig)

/-- what every sequence of updates keeps -/
theorem run_reached (ops : List (SharedOp × World)) :
    let s₀ := newSharedManager env w₀ newChannelID disk
    let s := Machine.run (SharedManager.step env) s₀ ops
    s.Holds ∧ Reached env s₀.view s.view := by
  intro s₀ s
  have hstep : ∀ s e, (s.Holds ∧ Reached env s₀.view s.view) →
      ((SharedManager.step env s e).Holds ∧ Reached env s₀.view (SharedManager.step env s e).view) :=
    fun s e h => ⟨step_holds env h.1 e, step_reached h.1 h.2 e⟩
  have hholds : s₀.Holds := newSharedManager_holds ..
  refine Machine.run_preserves hstep ⟨hholds, hholds.view, ⟨w₀.localHost, ?_⟩, fun _ => rfl, fun _ => rfl⟩ ops
  rw [newSharedManager_fileConfig]
  rfl

theorem run_distinct {disk : FileConfig} (hdisk : disk.Distinct) {ops : List (SharedOp × World)}
    (hops : ∀ e ∈ ops, e.1.Distinct) :
    (Machine.run (SharedManager.step env) (newSharedManager env w₀ newChannelID disk) ops).view.fileConfig.Distinct := by
  have hstart : (newSharedManager env w₀ newChannelID disk).view.fileConfig.Distinct := by
    rw [newSharedManager_fileConfig]
    exact migrated_distinct newChannelID hdisk
  have hholds := newSharedManager_holds env w₀ newChannelID disk
  generalize newSharedManager env w₀ newChannelID disk = s at hstart hholds ⊢
  induction ops generalizing s with
  | nil => exact hstart
  | cons e ops ih =>
    have he : e.1.Distinct := hops e List.mem_cons_self
    exact ih (fun e' he' => hops e' (List.mem_cons_of_mem _ he')) _ (shared_distinct hholds hstart he)
      (step_holds env hholds e)

end

/-- a rule for the containers of one host -/
def hostRule : AlertRule :=
  { (default : AlertRule) with
    id := "r1"
    enabled := true
    type := "event"
    hosts := ["a"]
    events := ["die"]
    threshold := 1 }

def ruleFile : FileConfig := { noFile with alerts := some { webhookURL := "", channels := [], rules := [hostRule] } }

/-- `current.Rules[0].Hosts[0] = "b"`, and then an error -/
def writesAndFails (_ : AlertsConfig) : List SharedAlertsStep × Bool := ([.rule 0 (.list .hosts (.overwrite 0 "b"))], false)

/-- **Atomic updates.** Whatever the file held when the manager was made, in every sequence of updates:
- the updates that fail leave the file configuration, the merged one and the file as they were, exactly when each of them
  has last written what was there before into what it shares with the stored alerts and log store;
- exactly then memory and file hold the same configuration all along, if they did at the start;
- the environment's hosts, read-only mode and auth are as the environment and the start have them;
- host names stay different if they are different in the environment, in the file and in what is submitted. -/
theorem updates_atomic_iff (env : Env) (w₀ : World) (newChannelID : String) (disk : FileConfig)
    (ops : List (SharedOp × World)) :
    let s₀ := newSharedManager env w₀ newChannelID disk
    let s := Machine.run (SharedManager.step env) s₀ ops
    (Machine.Each (SharedManager.step env) (SharedManager.Clean env) s₀ ops ↔
      Machine.Each (SharedManager.step env) SharedManager.Spares s₀ ops) ∧
    (w₀.persists = true ∨ migrated newChannelID disk = none →
      (Machine.Always (SharedManager.step env) SharedManager.Mirrors s₀ ops ↔
        Machine.Each (SharedManager.step env) SharedManager.Spares s₀ ops)) ∧
    Pinned env s₀.view s.view ∧
    ((env.dockerHosts.map DockerHost.name).Nodup → (env.coolifyHosts.map CoolifyHostConfig.hostName).Nodup →
      disk.Distinct → (∀ e ∈ ops, e.1.Distinct) →
      (s.view.merged.dockerHosts.map DockerHost.name).Nodup ∧
      (s.view.merged.coolifyHosts.map CoolifyHostConfig.hostName).Nodup) := by
  intro s₀ s
  have hholds : s₀.Holds := newSharedManager_holds ..
  obtain ⟨-, hreached⟩ := run_reached env w₀ newChannelID disk ops
  refine ⟨?_, fun hstart => ?_, hreached.pinned, ?_⟩
  · exact @Machine.each_iff _ _ (SharedManager.step env) SharedManager.Holds (SharedManager.Clean env)
      SharedManager.Spares (fun s e hs => step_holds env hs e) (fun s e hs => update_clean_iff hs e) s₀ ops hholds
  · have hmirrors : s₀.Mirrors := by
      unfold SharedManager.Mirrors
      rw [newSharedManager_fileConfig]
      rcases hstart with hw | hnone
      · exact (if_pos hw).symm
      · simp [s₀, newSharedManager, newManager, SharedManager.view, hnone]
    have hinv : s₀.Holds ∧ s₀.Mirrors := ⟨hholds, hmirrors⟩
    refine @Machine.always_iff_each _ _ (SharedManager.step env) SharedManager.Mirrors
      (fun s => s.Holds ∧ s.Mirrors) SharedManager.Spares (fun s hs => hs.2) ?_ ?_ s₀ ops hinv
    · exact fun s e hs hspares => ⟨step_holds env hs.1 e, (step_mirrors_iff hs.1 hs.2 e).2 hspares⟩
    · exact fun s e hs hbad hgood => hbad ((step_mirrors_iff hs.1 hs.2 e).1 hgood)
  · exact fun hdocker hcoolify hdisk hops => hreached.names hdocker hcoolify (run_distinct env w₀ newChannelID hdisk hops)

/-- a mutate function writes into a list of the rule it was handed and fails, and the live rule has changed -/
theorem failed_update_changes_rule :
    ¬ ∀ (env : Env) (w₀ : World) (newChannelID : String) (disk : FileConfig) (ops : List (SharedOp × World)),
      Machine.Each (SharedManager.step env) (SharedManager.Clean env) (newSharedManager env w₀ newChannelID disk) ops := by
  intro hall
  have hclean := (hall noEnv writable "" ruleFile [(.alerts writesAndFails, writable)]).1
  have hsame := (hclean (by decide)).fileConfig
  revert hsame
  decide

/-- the host is written with what it holds, and the mutate function fails all the same -/
theorem updates_atomic_same :
    Machine.Always (SharedManager.step noEnv) SharedManager.Mirrors (newSharedManager noEnv writable "" ruleFile)
      [(.alerts fun _ => ([.rule 0 (.list .hosts (.overwrite 0 "a")), .rule 0 (.list .hosts (.append "b" 0))], false),
        writable)] := by
  refine ((updates_atomic_iff noEnv writable "" ruleFile _).2.1 (.inl rfl)).2 ⟨fun _ a ha => ?_, trivial⟩
  obtain rfl := Option.some.inj ha
  decide

/-! ## Mutate functions that write into nothing shared -/

def AlertsStep.lift : AlertsStep → SharedAlertsStep
  | .webhookURL url => .webhookURL url
  | .channels o => .channels o
  | .rules o => .rules o

/-- a log store with values of its own -/
def LogStoreConfig.steps (l : LogStoreConfig) : List LogStoreStep :=
  [.enabled (.set l.enabled), .perContainerMB (.set l.perContainerMB), .totalMB (.set l.totalMB)]

def UpdateOp.lift : UpdateOp → SharedOp
  | .dockerHosts hosts => .dockerHosts hosts
  | .coolifyHosts hosts => .coolifyHosts hosts
  | .readOnly value => .readOnly value
  | .auth mutate => .auth mutate
  | .apiTokens mutate => .apiTokens mutate
  | .alerts mutate => .alerts fun current => ((mutate current).1.map AlertsStep.lift, (mutate current).2)
  | .logStore mutate => .logStore fun current => (mutate current).elim ([], false) fun l => (l.steps, true)

section
variable {env : Env} {w : World} {s : SharedManager} {h : Handed} {ws : List (Cell × String)}

theorem lift_writes (h : Handed) (o : AlertsStep) : h.writes o.lift = [] := by
  cases o <;> rfl

theorem lift_allWrites (h : Handed) (steps : List AlertsStep) : h.allWrites (steps.map AlertsStep.lift) = [] := by
  induction steps generalizing h with
  | nil => rfl
  | cons o steps ih => rw [List.map_cons, Handed.allWrites, lift_writes, ih, List.append_nil]

/-- such a step changes the alerts as values -/
theorem lift_value (hl : Lent s h ws) (o : AlertsStep) : (h.step o.lift).value = h.value.change o := by
  cases o with
  | webhookURL url => rfl
  | channels o =>
    obtain ⟨-, hread⟩ := step_read (h.channels, h.alerts.channels) hl.channelsIn o
    exact congrArg (fun channels => { h.value with channels := channels }) hread
  | rules o =>
    obtain ⟨hplaced, hstep⟩ := place_placed h.shared o
    have hrules : (h.shared.place o).1.rules = h.shared.rules := by rw [hplaced.rest]
    obtain ⟨-, hread⟩ :=
      step_read ((h.shared.place o).1.rules, h.alerts.rules) (hrules ▸ hl.rulesIn) (h.shared.place o).2
    have hold : (h.shared.rules.read h.alerts.rules).map (h.shared.place o).1.rule =
        (h.shared.rules.read h.alerts.rules).map h.shared.rule :=
      List.map_inj_left.2 fun r hr => rule_frame (hl.lists r hr) hplaced.texts
    have hnew : (stepList (h.shared.rules.read h.alerts.rules) (h.shared.place o).2).map (h.shared.place o).1.rule =
        stepList ((h.shared.rules.read h.alerts.rules).map h.shared.rule) o := by
      rw [map_stepList, hold, hstep]
    rw [← hrules] at hnew
    rw [← hread] at hnew
    exact congrArg (fun rules => AlertsConfig.mk h.alerts.webhookURL (h.channels.read h.alerts.channels) rules)
      (hnew.trans (by rw [hrules]; rfl))

theorem lift_values (hl : Lent s h ws) (steps : List AlertsStep) :
    (h.run (steps.map AlertsStep.lift)).value = steps.foldl AlertsConfig.change h.value := by
  induction steps generalizing h ws with
  | nil => rfl
  | cons o steps ih =>
    rw [List.foldl_cons, ← lift_value hl o]
    exact ih (step_lent hl o.lift)

theorem cloneAlerts_value (s : SharedManager) :
    s.cloneAlerts.value = s.view.fileConfig.alerts.getD { webhookURL := "", channels := [], rules := [] } := by
  rw [view_alerts]
  unfold SharedManager.cloneAlerts
  cases s.base.file.alerts with
  | none => simp [Handed.value]
  | some a =>
    simp only [Handed.value, read_clone, Option.map_some, Option.getD_some]
    rfl

/-- what is stored is what the mutate function worked on -/
theorem Lent.stored_fileConfig (hl : Lent s h ws) :
    ((s.after h).setAlerts (some h.alerts)).persist.view.fileConfig = { s.view.fileConfig with alerts := some h.value } := by
  have halerts : ((s.after h).setAlerts (some h.alerts)).persist.view.fileConfig.alerts = some h.value := by
    rw [view_alerts]
    rfl
  calc ((s.after h).setAlerts (some h.alerts)).persist.view.fileConfig
      = { s.view.fileConfig with
            alerts := ((s.after h).setAlerts (some h.alerts)).persist.view.fileConfig.alerts
            logStore := s.logStore.map h.shared.logStore } := rfl
    _ = { s.view.fileConfig with alerts := some h.value, logStore := s.logStore.map s.shared.logStore } := by
          rw [halerts, hl.logStore]
    _ = { s.view.fileConfig with alerts := some h.value } := rfl

theorem lift_alerts (hs : s.Holds) (mutate : AlertsConfig → List AlertsStep × Bool) :
    Transacts env w false s.view (outcome env w s.view.fileConfig (.alerts mutate))
      ((s.update env w (UpdateOp.alerts mutate).lift).1.view, (s.update env w (UpdateOp.alerts mutate).lift).2) := by
  have hpin : UpdateOp.pinned env (.alerts mutate) = none := rfl
  have hclone := cloneAlerts_value s
  set current := s.view.fileConfig.alerts.getD { webhookURL := "", channels := [], rules := [] } with hcurrent
  have happly : s.view.fileConfig.apply (.alerts mutate) =
      if (mutate current).2 then
        some { s.view.fileConfig with alerts := some ((mutate current).1.foldl AlertsConfig.change current) }
      else none := rfl
  have hl : Lent s (s.cloneAlerts.run ((mutate current).1.map AlertsStep.lift)) [] := by
    have hrun := run_lent (cloneAlerts_lent hs) ((mutate current).1.map AlertsStep.lift)
    rwa [lift_allWrites] at hrun
  have hvalue : (s.cloneAlerts.run ((mutate current).1.map AlertsStep.lift)).value =
      (mutate current).1.foldl AlertsConfig.change current := by
    rw [lift_values (cloneAlerts_lent hs), hclone]
  have hrefused : Refused s.view (s.after (s.cloneAlerts.run ((mutate current).1.map AlertsStep.lift))).view :=
    (hl.refused_iff hs).2 fun a _ r _ l => .nil _ _
  have hcases := updateAlerts_cases w s fun current => ((mutate current).1.map AlertsStep.lift, (mutate current).2)
  dsimp only at hcases
  rw [hclone] at hcases
  rcases hcases with ⟨hfails, herr, hnext⟩ | ⟨hok, hnone, hnext⟩
  · refine ⟨(congrArg (Manager.WellFormed ∘ SharedManager.view) hnext).mpr (hl.holds hs).view, ?_⟩
    cases hmutate : (mutate current).2 with
    | false =>
      rw [hmutate] at happly herr
      rw [outcome_failed hpin happly]
      exact ⟨herr, (congrArg (Refused s.view ∘ SharedManager.view) hnext).mpr hrefused⟩
    | true =>
      rw [hmutate] at happly herr hfails
      have hw : w.persists = false := hfails.resolve_left Bool.noConfusion
      rw [outcome_applied hpin happly, hw]
      exact ⟨herr, (congrArg (Refused s.view ∘ SharedManager.view) hnext).mpr hrefused⟩
  · rw [not_or, Bool.not_eq_false, Bool.not_eq_false] at hok
    obtain ⟨hmutate, hw⟩ := hok
    rw [hmutate] at happly
    refine ⟨(congrArg (Manager.WellFormed ∘ SharedManager.view) hnext).mpr (hl.stored hs).view, ?_⟩
    rw [outcome_applied hpin happly, hw]
    have hfc := hl.stored_fileConfig
    rw [hvalue] at hfc
    refine ⟨hnone, (congrArg (Committed env w false _ s.view ∘ SharedManager.view) hnext).mpr ?_⟩
    exact ⟨hfc, hfc, rfl, rfl, rfl⟩

theorem steps_flagWrites (h : HandedStore) (l : LogStoreConfig) : h.flagWrites l.steps = [] := rfl

theorem steps_numberWrites (h : HandedStore) (l : LogStoreConfig) : h.numberWrites l.steps = [] := rfl

theorem stepPointer_set {α : Type} [Inhabited α] (h : Heap α) (p : Option Slice) (v : Option α) :
    Heap.Frame h.next h (stepPointer h p (.set v)).1 ∧
      deref (stepPointer h p (.set v)).1 (stepPointer h p (.set v)).2 = v := by
  cases v with
  | none => exact ⟨.rfl, rfl⟩
  | some v => exact ⟨(literal_frame h [v]).1, congrArg List.head? (read_literal h [v])⟩

/-- the pointers show what they were set to -/
theorem steps_value {h : HandedStore} (hin : h.logStore.InBounds h.shared) (l : LogStoreConfig) :
    (h.run l.steps).shared.logStore (h.run l.steps).logStore = l := by
  obtain ⟨-, henabled⟩ := stepPointer_set h.shared.flags h.logStore.enabled l.enabled
  obtain ⟨hframe, hper⟩ := stepPointer_set h.shared.numbers h.logStore.perContainerMB l.perContainerMB
  obtain ⟨-, hperIn⟩ := stepPointer_written hin.perContainerMB (.set l.perContainerMB)
  set numbers := stepPointer h.shared.numbers h.logStore.perContainerMB (.set l.perContainerMB)
  obtain ⟨hframe', htotal⟩ := stepPointer_set numbers.1 h.logStore.totalMB l.totalMB
  have hper' : deref (stepPointer numbers.1 h.logStore.totalMB (.set l.totalMB)).1 numbers.2 = l.perContainerMB := by
    rw [← hper]
    exact (deref_eq_iff hperIn hframe'.written).2 fun q _ => .nil _ _
  exact (LogStoreConfig.mk.injEq ..).mpr ⟨henabled, hper', htotal⟩

theorem cloneLogStore_value (s : SharedManager) :
    s.cloneLogStore.shared.logStore s.cloneLogStore.logStore =
      s.view.fileConfig.logStore.getD { enabled := none, perContainerMB := none, totalMB := none } := by
  have hview : s.view.fileConfig.logStore = s.logStore.map s.shared.logStore := rfl
  rw [hview]
  unfold SharedManager.cloneLogStore
  cases s.logStore with
  | none => rfl
  | some l => rfl

theorem lift_logStore (hs : s.Holds) (mutate : LogStoreConfig → Option LogStoreConfig) :
    Transacts env w false s.view (outcome env w s.view.fileConfig (.logStore mutate))
      ((s.update env w (UpdateOp.logStore mutate).lift).1.view, (s.update env w (UpdateOp.logStore mutate).lift).2) := by
  have hpin : UpdateOp.pinned env (.logStore mutate) = none := rfl
  have hclone := cloneLogStore_value s
  set current := s.view.fileConfig.logStore.getD { enabled := none, perContainerMB := none, totalMB := none } with hcurrent
  have happly : s.view.fileConfig.apply (.logStore mutate) =
      (mutate current).map fun logStore => { s.view.fileConfig with logStore := some logStore } := rfl
  have hcases := updateLogStore_cases w s fun current =>
    (mutate current).elim ([], false) fun l => (l.steps, true)
  dsimp only at hcases
  rw [hclone] at hcases
  have hlent := cloneLogStore_lent hs
  cases hmutate : mutate current with
  | none =>
    rw [hmutate] at happly hcases
    rw [outcome_failed hpin happly]
    simp only [Option.elim_none, true_or, not_true_eq_false, false_and, or_false, true_and] at hcases
    obtain ⟨herr, hnext⟩ := hcases
    have hrefused : Refused s.view ({ s with shared := s.cloneLogStore.shared } : SharedManager).view :=
      ⟨rfl, rfl, rfl, rfl, rfl⟩
    exact ⟨(congrArg (Manager.WellFormed ∘ SharedManager.view) hnext).mpr (hlent.holds hs).view, herr,
      (congrArg (Refused s.view ∘ SharedManager.view) hnext).mpr hrefused⟩
  | some l =>
    rw [hmutate] at happly hcases
    rw [outcome_applied hpin happly]
    simp only [Option.elim_some, Bool.true_eq_false, false_or, if_true] at hcases
    have hl : LentStore s (s.cloneLogStore.run l.steps) [] [] := by
      have hrun := hlent.run l.steps
      rwa [steps_flagWrites, steps_numberWrites] at hrun
    have hvalue := steps_value hlent.pointers l
    rcases hcases with ⟨hw, herr, hnext⟩ | ⟨hw, hnone, hnext⟩
    · have hrefused : Refused s.view ({ s with shared := (s.cloneLogStore.run l.steps).shared } : SharedManager).view :=
        (hl.refused_iff hs).2 ⟨fun _ _ _ _ => .nil _ _, fun _ _ _ _ => .nil _ _,
          fun _ _ _ _ => .nil _ _⟩
      rw [hw]
      exact ⟨(congrArg (Manager.WellFormed ∘ SharedManager.view) hnext).mpr (hl.holds hs).view, herr,
        (congrArg (Refused s.view ∘ SharedManager.view) hnext).mpr hrefused⟩
    · rw [Bool.not_eq_false] at hw
      rw [hw]
      have halerts := hl.alerts
      have hfc : ({ s with shared := (s.cloneLogStore.run l.steps).shared
                           logStore := some (s.cloneLogStore.run l.steps).logStore } :
          SharedManager).persist.view.fileConfig = { s.view.fileConfig with logStore := some l } := by
        calc ({ s with shared := (s.cloneLogStore.run l.steps).shared
                       logStore := some (s.cloneLogStore.run l.steps).logStore } : SharedManager).persist.view.fileConfig
            = { s.view.fileConfig with
                  alerts := ({ s with shared := (s.cloneLogStore.run l.steps).shared } : SharedManager).view.fileConfig.alerts
                  logStore := some ((s.cloneLogStore.run l.steps).shared.logStore
                    (s.cloneLogStore.run l.steps).logStore) } := rfl
          _ = { s.view.fileConfig with logStore := some l } := by rw [halerts, hvalue]
      refine ⟨(congrArg (Manager.WellFormed ∘ SharedManager.view) hnext).mpr (hl.stored hs).view, hnone,
        (congrArg (Committed env w false _ s.view ∘ SharedManager.view) hnext).mpr ?_⟩
      exact ⟨hfc, hfc, rfl, rfl, rfl⟩

/-- **Refinement.** An update whose mutate function writes into no list of a rule and through no pointer is the
transaction of `outcome` on what the manager shows. -/
theorem lift_spec (hs : s.Holds) (op : UpdateOp) :
    Transacts env w op.remerges s.view (outcome env w s.view.fileConfig op)
      ((s.update env w op.lift).1.view, (s.update env w op.lift).2) := by
  have hrest : ∀ op : UpdateOp, op.SharesNothing → Transacts env w op.remerges s.view (outcome env w s.view.fileConfig op)
      ((s.rest env w op).1.view, (s.rest env w op).2) := by
    intro op hop
    rw [rest_view hop]
    exact update_spec hs.view op
  cases op with
  | dockerHosts hosts => exact hrest (.dockerHosts hosts) trivial
  | coolifyHosts hosts => exact hrest (.coolifyHosts hosts) trivial
  | readOnly value => exact hrest (.readOnly value) trivial
  | auth mutate => exact hrest (.auth mutate) trivial
  | apiTokens mutate => exact hrest (.apiTokens mutate) trivial
  | alerts mutate => exact lift_alerts hs mutate
  | logStore mutate => exact lift_logStore hs mutate

end

end LogDeck.Config
