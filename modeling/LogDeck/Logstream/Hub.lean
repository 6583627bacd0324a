/-
The hub's loop (`logstream/logstream.go`: `Run`, `subscribe`, `removeSub`, `requestList`, `handleEvent`, `handleList`,
`handleTailExit`, `shutdown`; `logstream/tail.go`: `spawnTail`).

One goroutine owns all subscriptions and their tails and handles one message at a time: requests, engine events,
listings, exits of tails. A listing is fetched by a goroutine of its own, one at a time: it is taken at some moment
after the request and handled at some moment after that, and any events may be handled in between. The engine sends the
events of a host in order, and an event may get lost. A tail that has returned reports its exit; the loop receives that
message whenever it comes to it, and the goroutine's own `cancel` follows at once.

Subscriptions and tails are numbered in the order they are made. Ghosts: `emitted` counts the engine's events; a
pending event has its number, and a listing the number of events there had been when it was taken.

Results:
- `step_inv`: every message keeps the maps and the tails in step;
- `tail_unique`: over every run, a container has at most one uncancelled tail per subscription, the registered one; the
  exit of a replaced tail changes nothing; a removed subscription has no uncancelled tail and never gets one.
-/
import LogDeck.Lib.Machine
import LogDeck.LogStore.Lifecycle

namespace LogDeck.HubLoop

open Machine
open LogDeck.LogStore (Labels trimSlash)

structure ContainerKey where
  host : String
  id : String
deriving DecidableEq, Repr

/-- every dimension is optional -/
structure ContainerSpec where
  hosts : List String
  containers : List String
  projects : List String
deriving DecidableEq, Repr

def composeProjectLabels : List String := ["com.docker.compose.project", "io.podman.compose.project"]

/-- hosts are ANDed with an OR between exact names and compose projects -/
def ContainerSpec.matches (s : ContainerSpec) (host name : String) (labels : Labels) : Bool :=
  if s.hosts ≠ [] ∧ host ∉ s.hosts then false
  else if s.containers = [] ∧ s.projects = [] then true
  else if name ∈ s.containers then true
  else s.projects.any fun project => composeProjectLabels.any fun label => labels.get label = project

/-- the fields of a listed container the hub reads -/
structure ContainerInfo where
  id : String
  names : List String
  state : String
  labels : Labels
deriving DecidableEq, Repr

structure EngineEvent where
  host : String
  containerID : String
  containerName : String
  action : String
  labels : Labels
deriving DecidableEq, Repr

def EngineEvent.key (ev : EngineEvent) : ContainerKey := ⟨ev.host, ev.containerID⟩

structure ListResult where
  snapshot : List (String × List ContainerInfo)
  hostErrs : List String
  err : Bool
deriving DecidableEq, Repr

/-- the name and the labels a tail puts on its records -/
structure ContainerMeta where
  name : String
  labels : Labels
deriving DecidableEq, Repr

/-- a tail goroutine: reading the log, waiting to report that its runTail has returned, or gone -/
inductive TailPhase where
  | running
  | exiting
  | gone
deriving DecidableEq, Repr

structure Tail where
  sub : ℕ
  key : ContainerKey
  info : ContainerMeta
  cancelled : Bool
  phase : TailPhase
deriving DecidableEq, Repr

structure Sub where
  spec : ContainerSpec
  registered : Bool
  tails : List (ContainerKey × ℕ)
deriving DecidableEq, Repr

structure Hub where
  subs : ℕ → Sub
  nextSub : ℕ
  tails : ℕ → Tail
  next : ℕ
  events : List (EngineEvent × ℕ)
  eventsOpen : Bool
  listInFlight : Bool
  listQueued : Bool
  listing : Option (ListResult × ℕ)
  stopped : Bool
  emitted : ℕ

inductive HubAct where
  | subscribe (spec : ContainerSpec)
  | removeSub (i : ℕ)
  /-- a poke or the ticker -/
  | reconcile
  /-- the engine has an event; `seen = false` when it does not reach the hub's stream -/
  | engine (ev : EngineEvent) (seen : Bool)
  /-- the loop handles the oldest event of a host -/
  | handleEvent (host : String)
  /-- the event stream has closed -/
  | eventsClosed
  /-- the engines answer the listing in flight -/
  | takeList (res : ListResult)
  /-- the loop handles the listing; `swapped` when the Docker client has been replaced -/
  | handleList (swapped : Bool)
  | tailEnds (t : ℕ)
  | handleTailExit (t : ℕ)
  | shutdown
deriving DecidableEq, Repr

/-- `strings.Cut(action, ": ")`, the part before -/
def cutBase : List Char → List Char
  | ':' :: ' ' :: _ => []
  | c :: cs => c :: cutBase cs
  | [] => []

def EngineEvent.base (ev : EngineEvent) : String := String.ofList (cutBase ev.action.toList)

def primaryName (ctr : ContainerInfo) : String :=
  match ctr.names with
  | [] => ""
  | n :: _ => trimSlash n

namespace ListResult

/-- the running containers of a snapshot, in its order -/
def runningList (res : ListResult) : List (ContainerKey × ContainerMeta) :=
  res.snapshot.flatMap fun (host, containers) =>
    (containers.filter fun ctr => ctr.state = "running").map fun ctr => (⟨host, ctr.id⟩, ⟨primaryName ctr, ctr.labels⟩)

/-- the map of the running containers: a container listed twice has the data of its last entry -/
def running (res : ListResult) (key : ContainerKey) : Option ContainerMeta :=
  (res.runningList.reverse.find? fun e => e.1 = key).map Prod.snd

def listedHosts (res : ListResult) : List String := res.snapshot.map Prod.fst

end ListResult

/-- the listing has the container running, under a name and labels the spec selects -/
def selects (spec : ContainerSpec) (res : ListResult) (key : ContainerKey) : Bool :=
  match res.running key with
  | some info => spec.matches key.host info.name info.labels
  | none => false

namespace Hub

def init : Hub :=
  ⟨fun _ => ⟨⟨[], [], []⟩, false, []⟩, 0, fun _ => ⟨0, ⟨"", ""⟩, ⟨"", []⟩, true, .gone⟩, 0, [], true, false, false, none,
    false, 0⟩

/-- a poke that arrives while a listing is in flight asks for one more -/
def requestList (h : Hub) : Hub :=
  if h.listInFlight then { h with listQueued := true } else { h with listInFlight := true }

def spawnTail (h : Hub) (i : ℕ) (key : ContainerKey) (info : ContainerMeta) : Hub :=
  { h with subs := Function.update h.subs i { h.subs i with tails := (h.subs i).tails ++ [(key, h.next)] }
           tails := Function.update h.tails h.next ⟨i, key, info, false, .running⟩
           next := h.next + 1 }

/-- cancels and deletes the tails of a subscription whose container is selected by `p` -/
def cancelWhere (h : Hub) (i : ℕ) (p : ContainerKey → Bool) : Hub :=
  let gone := ((h.subs i).tails.filter fun e => p e.1).map Prod.snd
  { h with subs := Function.update h.subs i { h.subs i with tails := (h.subs i).tails.filter fun e => ! p e.1 }
           tails := fun t => if t ∈ gone then { h.tails t with cancelled := true } else h.tails t }

/-- spawns a tail unless there is one -/
def ensureTail (h : Hub) (i : ℕ) (key : ContainerKey) (info : ContainerMeta) : Hub :=
  if key ∈ (h.subs i).tails.map Prod.fst then h
  else if (h.subs i).spec.matches key.host info.name info.labels then h.spawnTail i key info
  else h

/-- `for sub := range h.subs` -/
def forSubs (h : Hub) (f : Hub → ℕ → Hub) : Hub :=
  (List.range h.nextSub).foldl (fun h i => if (h.subs i).registered then f h i else h) h

def cancelTails (h : Hub) (key : ContainerKey) : Hub := h.forSubs fun h i => h.cancelWhere i fun k => k = key

def handleEvent (h : Hub) (ev : EngineEvent) : Hub :=
  if ev.base = "start" then
    h.forSubs fun h i => h.ensureTail i ev.key ⟨trimSlash ev.containerName, ev.labels⟩
  else if ev.base = "die" ∨ ev.base = "destroy" then h.cancelTails ev.key
  else if ev.base = "rename" then (h.cancelTails ev.key).requestList
  else h

/-- a tail whose host has listed and whose container is not running any more, or no longer matches -/
def stale (spec : ContainerSpec) (res : ListResult) (key : ContainerKey) : Bool :=
  key.host ∈ res.listedHosts && ! selects spec res key

/-- spawns the tails of the running containers that have none -/
def spawnRunning (res : ListResult) (i : ℕ) (h : Hub) (keys : List ContainerKey) : Hub :=
  keys.foldl (fun h key =>
    match res.running key with
    | some info => h.ensureTail i key info
    | none => h) h

/-- converges one subscription -/
def converge (res : ListResult) (h : Hub) (i : ℕ) : Hub :=
  spawnRunning res i (h.cancelWhere i (stale (h.subs i).spec res)) (res.runningList.map Prod.fst)

/-- the event stream is reopened when it has closed or the client has changed -/
def reopenEvents (h : Hub) (swapped : Bool) : Hub :=
  if h.eventsOpen = false ∨ swapped then { h with events := [], eventsOpen := true } else h

/-- the follow-up of a listing during which another was asked for -/
def followUp (h : Hub) : Hub := if h.listQueued then { h with listQueued := false }.requestList else h

def handleList (h : Hub) (res : ListResult) (swapped : Bool) : Hub :=
  let h := { h with listInFlight := false, listing := none }.reopenEvents swapped
  (if res.err then h else h.forSubs (converge res)).followUp

def handleTailExit (h : Hub) (t : ℕ) : Hub :=
  let i := (h.tails t).sub
  let h' := { h with tails := Function.update h.tails t { h.tails t with cancelled := true, phase := .gone } }
  if (h.subs i).registered ∧ ((h.tails t).key, t) ∈ (h.subs i).tails then
    { h' with subs := Function.update h.subs i
                { h.subs i with tails := (h.subs i).tails.filter fun e => e.1 ≠ (h.tails t).key } }
  else h'

def subscribe (h : Hub) (spec : ContainerSpec) : Hub :=
  { h with subs := Function.update h.subs h.nextSub ⟨spec, true, []⟩, nextSub := h.nextSub + 1 }.requestList

def removeSub (h : Hub) (i : ℕ) : Hub :=
  if (h.subs i).registered then
    { h with subs := Function.update h.subs i { h.subs i with registered := false } }.cancelWhere i fun _ => true
  else h

/-- the first pending event of a host, and the others -/
def nextEvent (host : String) : List (EngineEvent × ℕ) → Option ((EngineEvent × ℕ) × List (EngineEvent × ℕ))
  | [] => none
  | e :: rest =>
    if e.1.host = host then some (e, rest) else (nextEvent host rest).map fun (ev, rest) => (ev, e :: rest)

/-- one message of the loop -/
def react (h : Hub) : HubAct → Hub
  | .subscribe spec => h.subscribe spec
  | .removeSub i => h.removeSub i
  | .reconcile => h.requestList
  | .handleEvent host =>
    match nextEvent host h.events with
    | some ((ev, _), rest) => { h with events := rest }.handleEvent ev
    | none => h
  | .eventsClosed => { h with events := [], eventsOpen := false }.requestList
  | .takeList res => if h.listInFlight ∧ h.listing = none then { h with listing := some (res, h.emitted) } else h
  | .handleList swapped =>
    match h.listing with
    | some (res, _) => h.handleList res swapped
    | none => h
  | .handleTailExit t => if (h.tails t).phase = .exiting then h.handleTailExit t else h
  | .shutdown => { h with stopped := true }.forSubs fun h i => h.cancelWhere i fun _ => true
  | .engine _ _ | .tailEnds _ => h

def step (h : Hub) : HubAct → Hub
  | .engine ev seen =>
    { h with emitted := h.emitted + 1
             events := if seen ∧ h.eventsOpen ∧ h.stopped = false then h.events ++ [(ev, h.emitted)] else h.events }
  | .tailEnds t =>
    if (h.tails t).phase = .running then
      { h with tails := Function.update h.tails t { h.tails t with phase := .exiting } }
    else h
  | a => if h.stopped then h else h.react a

/-! ## The maps and the tails -/

/-- the registered tails are exactly the uncancelled ones, one for each container -/
structure Inv (h : Hub) : Prop where
  entry : ∀ i key t, (key, t) ∈ (h.subs i).tails →
    (h.subs i).registered = true ∧ t < h.next ∧ (h.tails t).sub = i ∧ (h.tails t).key = key ∧ (h.tails t).cancelled = false
  owned : ∀ t, (h.tails t).cancelled = false → ((h.tails t).key, t) ∈ (h.subs (h.tails t).sub).tails
  keys : ∀ i, ((h.subs i).tails.map Prod.fst).Nodup
  later : ∀ i, h.nextSub ≤ i → (h.subs i).registered = false

theorem inv_init : Inv init :=
  { entry := fun _ _ _ h => (by cases h), owned := fun _ h => (by cases h), keys := fun _ => List.nodup_nil,
    later := fun _ _ => rfl }

variable {h : Hub}

/-- two tails registered under one key are one -/
theorem Inv.entry_unique (hi : Inv h) {i : ℕ} {key : ContainerKey} {t t' : ℕ} (ht : (key, t) ∈ (h.subs i).tails)
    (ht' : (key, t') ∈ (h.subs i).tails) : t = t' :=
  congrArg Prod.snd (List.inj_on_of_nodup_map (hi.keys i) ht ht' rfl)

theorem Inv.unique (hi : Inv h) {t t' : ℕ} (ht : (h.tails t).cancelled = false) (ht' : (h.tails t').cancelled = false)
    (hsub : (h.tails t).sub = (h.tails t').sub) (hkey : (h.tails t).key = (h.tails t').key) : t = t' := by
  have h₁ := hi.owned t ht
  have h₂ := hi.owned t' ht'
  rw [← hsub, ← hkey] at h₂
  exact hi.entry_unique h₁ h₂

/-- a subscription that is not registered has no uncancelled tail -/
theorem Inv.removed (hi : Inv h) {i : ℕ} (hr : (h.subs i).registered = false) (t : ℕ) (ht : (h.tails t).sub = i) :
    (h.tails t).cancelled = true := by
  cases hc : (h.tails t).cancelled with
  | true => rfl
  | false =>
    have hreg := (hi.entry _ _ _ (hi.owned t hc)).1
    rw [ht, hr] at hreg
    cases hreg

/-! ## Spawning and cancelling -/

theorem spawn_inv (hi : Inv h) {i : ℕ} (hr : (h.subs i).registered = true) {key : ContainerKey}
    (hnew : key ∉ (h.subs i).tails.map Prod.fst) (info : ContainerMeta) : Inv (h.spawnTail i key info) := by
  have hold : ∀ j key' t, (key', t) ∈ (h.subs j).tails → (h.spawnTail i key info).tails t = h.tails t := by
    intro j key' t ht
    have hne : t ≠ h.next := (hi.entry j key' t ht).2.1.ne
    simp [spawnTail, hne]
  refine ⟨fun j key' t ht => ?_, fun t ht => ?_, fun j => ?_, fun j hj => ?_⟩
  · by_cases hj : j = i
    · subst hj
      have ht' : (key', t) ∈ (h.subs j).tails ++ [(key, h.next)] := by simpa [spawnTail] using ht
      have hreg : ((h.spawnTail j key info).subs j).registered = true := by simpa [spawnTail] using hr
      rcases List.mem_append.1 ht' with ht' | ht'
      · obtain ⟨-, hlt, hrest⟩ := hi.entry j key' t ht'
        rw [hold j key' t ht']
        exact ⟨hreg, Nat.lt_succ_of_lt hlt, hrest⟩
      · cases List.mem_singleton.1 ht'
        refine ⟨hreg, Nat.lt_succ_self _, ?_⟩
        simp [spawnTail]
    · have ht' : (key', t) ∈ (h.subs j).tails := by simpa [spawnTail, hj] using ht
      obtain ⟨hreg, hlt, hrest⟩ := hi.entry j key' t ht'
      rw [hold j key' t ht']
      refine ⟨?_, Nat.lt_succ_of_lt hlt, hrest⟩
      simpa [spawnTail, hj] using hreg
  · by_cases ht' : t = h.next
    · subst ht'
      simp [spawnTail]
    · have htail : (h.spawnTail i key info).tails t = h.tails t := by simp [spawnTail, ht']
      rw [htail] at ht ⊢
      have hmem := hi.owned t ht
      by_cases hj : (h.tails t).sub = i
      · subst hj
        simp [spawnTail, hmem]
      · simpa [spawnTail, hj] using hmem
  · by_cases hj : j = i
    · subst hj
      have e : ((h.spawnTail j key info).subs j).tails = (h.subs j).tails ++ [(key, h.next)] := by simp [spawnTail]
      rw [e, List.map_append]
      refine List.nodup_append.2 ⟨hi.keys j, List.nodup_singleton _, fun a ha b hb hab => ?_⟩
      obtain rfl : b = key := List.mem_singleton.1 hb
      exact hnew (hab ▸ ha)
    · simpa [spawnTail, hj] using hi.keys j
  · have hne : j ≠ i := by
      intro e
      rw [e] at hj
      rw [hi.later i hj] at hr
      cases hr
    simpa [spawnTail, hne] using hi.later j hj

/-- the tails that `cancelWhere` cancels -/
theorem mem_gone (hi : Inv h) {i : ℕ} {p : ContainerKey → Bool} {t : ℕ} :
    t ∈ ((h.subs i).tails.filter fun e => p e.1).map Prod.snd ↔
      (h.tails t).sub = i ∧ (h.tails t).cancelled = false ∧ p (h.tails t).key = true := by
  constructor
  · intro ht
    obtain ⟨⟨key, t'⟩, hmem, rfl⟩ := List.mem_map.1 ht
    obtain ⟨hmem, hp⟩ := List.mem_filter.1 hmem
    obtain ⟨-, -, hsub, hkey, hc⟩ := hi.entry i key t' hmem
    exact ⟨hsub, hc, by rw [hkey]; exact hp⟩
  · intro ⟨hsub, hc, hp⟩
    have hmem := hi.owned t hc
    rw [hsub] at hmem
    exact List.mem_map.2 ⟨_, List.mem_filter.2 ⟨hmem, hp⟩, rfl⟩

/-- a tail after `cancelWhere` -/
theorem tails_cancelWhere (hi : Inv h) (i : ℕ) (p : ContainerKey → Bool) (t : ℕ) :
    (h.cancelWhere i p).tails t =
      if (h.tails t).sub = i ∧ (h.tails t).cancelled = false ∧ p (h.tails t).key = true then
        { h.tails t with cancelled := true }
      else h.tails t := by
  simp only [cancelWhere, mem_gone hi]

theorem subs_cancelWhere (h : Hub) (i : ℕ) (p : ContainerKey → Bool) (j : ℕ) :
    (h.cancelWhere i p).subs j =
      if j = i then { h.subs i with tails := (h.subs i).tails.filter fun e => ! p e.1 } else h.subs j := by
  simp only [cancelWhere, Function.update_apply]

theorem cancel_inv (hi : Inv h) (i : ℕ) (p : ContainerKey → Bool) : Inv (h.cancelWhere i p) := by
  refine ⟨fun j key t ht => ?_, fun t ht => ?_, fun j => ?_, fun j hj => ?_⟩
  · have hmem : (key, t) ∈ (h.subs j).tails ∧ (j = i → p key = false) := by
      rw [subs_cancelWhere] at ht
      split_ifs at ht with hj
      · obtain ⟨ht, hp⟩ := List.mem_filter.1 ht
        subst hj
        exact ⟨ht, fun _ => by simpa using hp⟩
      · exact ⟨ht, fun e => absurd e hj⟩
    obtain ⟨hreg, hlt, hsub, hkey, hc⟩ := hi.entry j key t hmem.1
    have hkeep : ¬ ((h.tails t).sub = i ∧ (h.tails t).cancelled = false ∧ p (h.tails t).key = true) := by
      intro ⟨hs, _, hp⟩
      rw [hkey, hmem.2 (hsub.symm.trans hs)] at hp
      cases hp
    rw [tails_cancelWhere hi, if_neg hkeep]
    refine ⟨?_, hlt, hsub, hkey, hc⟩
    rw [subs_cancelWhere]
    split_ifs with hj
    · exact hj ▸ hreg
    · exact hreg
  · rw [tails_cancelWhere hi] at ht ⊢
    split_ifs at ht ⊢ with hgone
    have hmem := hi.owned t ht
    rw [subs_cancelWhere]
    split_ifs with hs
    · rw [hs] at hmem
      refine List.mem_filter.2 ⟨hmem, ?_⟩
      cases hp : p (h.tails t).key with
      | false => rfl
      | true => exact absurd ⟨hs, ht, hp⟩ hgone
    · exact hmem
  · rw [subs_cancelWhere]
    split_ifs
    · exact (hi.keys i).sublist (List.Sublist.map _ List.filter_sublist)
    · exact hi.keys j
  · rw [subs_cancelWhere]
    split_ifs with e
    · exact e ▸ hi.later j hj
    · exact hi.later j hj

theorem ensure_inv (hi : Inv h) {i : ℕ} (hr : (h.subs i).registered = true) (key : ContainerKey) (info : ContainerMeta) :
    Inv (h.ensureTail i key info) := by
  unfold ensureTail
  split_ifs with hmem hmatch
  · exact hi
  · exact spawn_inv hi hr hmem info
  · exact hi

/-! ## The loops over the subscriptions -/

/-- what happens to the other subscriptions leaves this one alone -/
structure Same (i : ℕ) (h h' : Hub) : Prop where
  sub : h'.subs i = h.subs i
  next : h.next ≤ h'.next
  tails : ∀ t < h.next, (h.tails t).sub = i → h'.tails t = h.tails t
  fresh : ∀ t, h.next ≤ t → t < h'.next → (h'.tails t).sub ≠ i
  foreign : ∀ t < h.next, (h.tails t).sub ≠ i → (h'.tails t).sub ≠ i

theorem Same.refl (i : ℕ) (h : Hub) : Same i h h :=
  ⟨rfl, le_rfl, fun _ _ _ => rfl, fun _ hle hlt => absurd hlt (not_lt.2 hle), fun _ _ hs => hs⟩

theorem Same.trans {i : ℕ} {h₁ h₂ h₃ : Hub} (h₁₂ : Same i h₁ h₂) (h₂₃ : Same i h₂ h₃) : Same i h₁ h₃ := by
  refine ⟨h₂₃.sub.trans h₁₂.sub, h₁₂.next.trans h₂₃.next, fun t ht hs => ?_, fun t hle hlt => ?_, fun t ht hs => ?_⟩
  · have e := h₁₂.tails t ht hs
    rw [h₂₃.tails t (ht.trans_le h₁₂.next) (by rw [e]; exact hs), e]
  · rcases lt_or_ge t h₂.next with ht | ht
    · exact h₂₃.foreign t ht (h₁₂.fresh t hle ht)
    · exact h₂₃.fresh t ht hlt
  · exact h₂₃.foreign t (ht.trans_le h₁₂.next) (h₁₂.foreign t ht hs)

theorem same_spawn (h : Hub) {i j : ℕ} (hne : i ≠ j) (key : ContainerKey) (info : ContainerMeta) :
    Same j h (h.spawnTail i key info) := by
  have hold : ∀ t < h.next, (h.spawnTail i key info).tails t = h.tails t := by
    intro t ht
    simp [spawnTail, ht.ne]
  refine ⟨by simp [spawnTail, hne.symm], Nat.le_succ _, fun t ht _ => hold t ht, fun t hle hlt => ?_, fun t ht hs => ?_⟩
  · have e : t = h.next := le_antisymm (Nat.lt_succ_iff.1 hlt) hle
    subst e
    simpa [spawnTail] using hne
  · rw [hold t ht]
    exact hs

theorem same_cancel (hi : Inv h) {i j : ℕ} (hne : i ≠ j) (p : ContainerKey → Bool) : Same j h (h.cancelWhere i p) := by
  have hsub : ∀ t, ((h.cancelWhere i p).tails t).sub = (h.tails t).sub := by
    intro t
    rw [tails_cancelWhere hi]
    split_ifs <;> rfl
  refine ⟨?_, le_rfl, fun t _ hs => ?_, fun t hle hlt => absurd hlt (not_lt.2 hle), fun t _ hs => by rw [hsub]; exact hs⟩
  · rw [subs_cancelWhere, if_neg hne.symm]
  · rw [tails_cancelWhere hi, if_neg]
    intro ⟨hs', _, _⟩
    exact hne (hs'.symm.trans hs)

theorem same_ensure (h : Hub) {i j : ℕ} (hne : i ≠ j) (key : ContainerKey) (info : ContainerMeta) :
    Same j h (h.ensureTail i key info) := by
  unfold ensureTail
  split_ifs
  · exact Same.refl j h
  · exact same_spawn h hne key info
  · exact Same.refl j h

/-- what a loop over the subscriptions may do to one of them -/
structure Local (f : Hub → ℕ → Hub) : Prop where
  inv : ∀ h i, Inv h → (h.subs i).registered = true → Inv (f h i)
  same : ∀ h i j, Inv h → i ≠ j → Same j h (f h i)
  frame : ∀ h i, (f h i).nextSub = h.nextSub
  registered : ∀ h i, ((f h i).subs i).registered = (h.subs i).registered

/-- the state a loop has reached when it comes to a subscription differs from the start only elsewhere, and so does the
state at the end from the one it leaves -/
theorem foldl_at {f : Hub → ℕ → Hub} (hf : Local f) {is : List ℕ} (hnd : is.Nodup) (hi : Inv h) (i : ℕ) :
    let h' := is.foldl (fun h i => if (h.subs i).registered then f h i else h) h
    Inv h' ∧ (i ∉ is → Same i h h') ∧
      (i ∈ is → (h.subs i).registered = true → ∃ h₁, Inv h₁ ∧ Same i h h₁ ∧ Same i (f h₁ i) h') := by
  induction is generalizing h with
  | nil => exact ⟨hi, fun _ => Same.refl i h, fun hmem => by cases hmem⟩
  | cons j is ih =>
    obtain ⟨hj, hnd⟩ := List.nodup_cons.1 hnd
    simp only [List.foldl_cons]
    by_cases hreg : (h.subs j).registered = true
    · rw [if_pos hreg]
      obtain ⟨hinv, hout, hin⟩ := ih hnd (hf.inv h j hi hreg)
      refine ⟨hinv, fun hmem => ?_, fun hmem hr => ?_⟩
      · rw [List.mem_cons, not_or] at hmem
        exact (hf.same h j i hi (Ne.symm hmem.1)).trans (hout hmem.2)
      · by_cases e : i = j
        · subst e
          exact ⟨h, hi, Same.refl i h, hout hj⟩
        · have hs := hf.same h j i hi (Ne.symm e)
          obtain ⟨h₁, hi₁, hs₁, hs₂⟩ := hin (List.mem_of_ne_of_mem e hmem) (by rw [hs.sub]; exact hr)
          exact ⟨h₁, hi₁, hs.trans hs₁, hs₂⟩
    · rw [if_neg hreg]
      obtain ⟨hinv, hout, hin⟩ := ih hnd hi
      refine ⟨hinv, fun hmem => hout fun h => hmem (List.mem_cons_of_mem j h), fun hmem hr => ?_⟩
      by_cases e : i = j
      · exact absurd (e ▸ hr) hreg
      · exact hin (List.mem_of_ne_of_mem e hmem) hr

theorem forSubs_inv {f : Hub → ℕ → Hub} (hf : Local f) (hi : Inv h) : Inv (h.forSubs f) :=
  (foldl_at hf List.nodup_range hi 0).1

/-- a loop does to a registered subscription what its body does -/
theorem forSubs_at {f : Hub → ℕ → Hub} (hf : Local f) (hi : Inv h) {i : ℕ} (hr : (h.subs i).registered = true) :
    ∃ h₁, Inv h₁ ∧ Same i h h₁ ∧ Same i (f h₁ i) (h.forSubs f) := by
  have hlt : i < h.nextSub := by
    by_contra hge
    rw [hi.later i (not_lt.1 hge)] at hr
    cases hr
  exact (foldl_at hf List.nodup_range hi i).2.2 (List.mem_range.2 hlt) hr

/-- and nothing to one that is not -/
theorem forSubs_removed {f : Hub → ℕ → Hub} (hf : Local f) (hi : Inv h) {i : ℕ} (hr : (h.subs i).registered = false) :
    ((h.forSubs f).subs i).registered = false := by
  have aux : ∀ is : List ℕ, ∀ h : Hub, Inv h → (h.subs i).registered = false →
      ((is.foldl (fun h i => if (h.subs i).registered then f h i else h) h).subs i).registered = false := by
    intro is
    induction is with
    | nil => exact fun h _ hr => hr
    | cons j is ih =>
      intro h hi hr
      rw [List.foldl_cons]
      split_ifs with hreg
      · have hne : j ≠ i := by
          intro e
          rw [e, hr] at hreg
          cases hreg
        refine ih _ (hf.inv h j hi hreg) ?_
        rw [(hf.same h j i hi hne).sub]
        exact hr
      · exact ih h hi hr
  exact aux _ h hi hr

theorem forSubs_nextSub {f : Hub → ℕ → Hub} (hf : Local f) (h : Hub) : (h.forSubs f).nextSub = h.nextSub := by
  have aux : ∀ is : List ℕ, ∀ h : Hub,
      (is.foldl (fun h i => if (h.subs i).registered then f h i else h) h).nextSub = h.nextSub := by
    intro is
    induction is with
    | nil => exact fun h => rfl
    | cons j is ih =>
      intro h
      rw [List.foldl_cons, ih]
      split_ifs
      · exact hf.frame h j
      · rfl
  exact aux _ h

theorem local_cancel (p : Hub → ℕ → ContainerKey → Bool) : Local fun h i => h.cancelWhere i (p h i) :=
  { inv := fun _ i hi _ => cancel_inv hi i _, same := fun _ _ _ hi hne => same_cancel hi hne _, frame := fun _ _ => rfl,
    registered := fun h i => by rw [subs_cancelWhere, if_pos rfl] }

theorem registered_ensure (h : Hub) (i : ℕ) (key : ContainerKey) (info : ContainerMeta) (j : ℕ) :
    ((h.ensureTail i key info).subs j).registered = (h.subs j).registered := by
  unfold ensureTail
  split_ifs
  · rfl
  · by_cases hj : j = i
    · subst hj
      simp [spawnTail]
    · simp [spawnTail, hj]
  · rfl

theorem nextSub_ensure (h : Hub) (i : ℕ) (key : ContainerKey) (info : ContainerMeta) :
    (h.ensureTail i key info).nextSub = h.nextSub := by
  unfold ensureTail
  split_ifs <;> rfl

theorem local_ensure (key : ContainerKey) (info : ContainerMeta) : Local fun h i => h.ensureTail i key info :=
  { inv := fun _ _ hi hr => ensure_inv hi hr key info, same := fun h _ _ _ hne => same_ensure h hne key info,
    frame := fun h i => nextSub_ensure h i key info, registered := fun h i => registered_ensure h i key info i }

theorem local_cancelTails (key : ContainerKey) : Local fun h i => h.cancelWhere i fun k => k = key :=
  local_cancel fun _ _ k => k = key

/-- a relation that every spawn of the loop keeps holds of the whole loop -/
theorem spawnRunning_induction {res : ListResult} {i : ℕ} {P : Hub → Prop}
    (hP : ∀ h key info, P h → res.running key = some info → P (h.ensureTail i key info)) (hh : P h)
    (keys : List ContainerKey) : P (spawnRunning res i h keys) := by
  induction keys generalizing h with
  | nil => exact hh
  | cons key keys ih =>
    rw [spawnRunning, List.foldl_cons]
    apply ih
    cases hrun : res.running key with
    | none => exact hh
    | some info => exact hP _ key info hh hrun

theorem local_converge (res : ListResult) : Local (converge res) := by
  refine { inv := fun h i hi hr => ?_, same := fun h i j hi hne => ?_, frame := fun h i => ?_, registered := fun h i => ?_ }
  · have hstart : Inv (h.cancelWhere i (stale (h.subs i).spec res)) ∧
        ((h.cancelWhere i (stale (h.subs i).spec res)).subs i).registered = true :=
      ⟨cancel_inv hi i _, by rw [subs_cancelWhere, if_pos rfl]; exact hr⟩
    exact (spawnRunning_induction (P := fun h => Inv h ∧ (h.subs i).registered = true) (fun h key info hh _ =>
      ⟨ensure_inv hh.1 hh.2 key info, by rw [registered_ensure]; exact hh.2⟩) hstart _).1
  · exact spawnRunning_induction (P := fun h' => Same j h h')
      (fun h' key info hs _ => hs.trans (same_ensure h' hne key info)) (same_cancel hi hne _) _
  · have hstart : (h.cancelWhere i (stale (h.subs i).spec res)).nextSub = h.nextSub := rfl
    exact spawnRunning_induction (P := fun h' => h'.nextSub = h.nextSub)
      (fun h' key info hs _ => (nextSub_ensure h' i key info).trans hs) hstart _
  · refine spawnRunning_induction (P := fun h' => (h'.subs i).registered = (h.subs i).registered)
      (fun h' key info hs _ => (registered_ensure h' i key info i).trans hs) ?_ _
    rw [subs_cancelWhere, if_pos rfl]

/-! ## The messages -/

theorem inv_requestList (hi : Inv h) : Inv h.requestList := by
  unfold requestList
  split_ifs
  · exact { hi with }
  · exact { hi with }

theorem inv_followUp (hi : Inv h) : Inv h.followUp := by
  unfold followUp
  split_ifs
  · have hq : Inv { h with listQueued := false } := { hi with }
    exact inv_requestList hq
  · exact hi

theorem handleEvent_inv (hi : Inv h) (ev : EngineEvent) : Inv (h.handleEvent ev) := by
  unfold handleEvent
  split_ifs
  · exact forSubs_inv (local_ensure _ _) hi
  · exact forSubs_inv (local_cancelTails _) hi
  · exact inv_requestList (forSubs_inv (local_cancelTails _) hi)
  · exact hi

theorem handleList_inv (hi : Inv h) (res : ListResult) (swapped : Bool) : Inv (h.handleList res swapped) := by
  have hopen : Inv ({ h with listInFlight := false, listing := none }.reopenEvents swapped) := by
    unfold reopenEvents
    split_ifs
    · exact { hi with }
    · exact { hi with }
  unfold handleList
  apply inv_followUp
  split_ifs
  · exact hopen
  · exact forSubs_inv (local_converge res) hopen

/-- a tail that has returned: the tails keep their subscription, container and cancellation -/
theorem tailEnds_inv (hi : Inv h) (t : ℕ) :
    Inv { h with tails := Function.update h.tails t { h.tails t with phase := .exiting } } := by
  have hsame : ∀ t', (Function.update h.tails t { h.tails t with phase := .exiting } t').sub = (h.tails t').sub ∧
      (Function.update h.tails t { h.tails t with phase := .exiting } t').key = (h.tails t').key ∧
      (Function.update h.tails t { h.tails t with phase := .exiting } t').cancelled = (h.tails t').cancelled := by
    intro t'
    rw [Function.update_apply]
    split_ifs with e
    · subst e
      exact ⟨rfl, rfl, rfl⟩
    · exact ⟨rfl, rfl, rfl⟩
  refine { hi with entry := fun i key t' ht => ?_, owned := fun t' ht => ?_ }
  · obtain ⟨hs, hk, hc⟩ := hsame t'
    obtain ⟨hreg, hlt, hsub, hkey, hcan⟩ := hi.entry i key t' ht
    exact ⟨hreg, hlt, hs.trans hsub, hk.trans hkey, hc.trans hcan⟩
  · obtain ⟨hs, hk, hc⟩ := hsame t'
    show ((Function.update h.tails t { h.tails t with phase := .exiting } t').key, t') ∈
      (h.subs (Function.update h.tails t { h.tails t with phase := .exiting } t').sub).tails
    rw [hs, hk]
    exact hi.owned t' (hc.symm.trans ht)

/-- the exit of a tail that is no longer registered changes no map; that of a registered one removes it -/
theorem handleTailExit_inv (hi : Inv h) (t : ℕ) : Inv (h.handleTailExit t) := by
  have htail : ∀ t', (Function.update h.tails t { h.tails t with cancelled := true, phase := .gone } t') =
      if t' = t then { h.tails t with cancelled := true, phase := .gone } else h.tails t' :=
    fun t' => Function.update_apply _ _ _ _
  unfold handleTailExit
  dsimp only
  split_ifs with hreg
  · refine ⟨fun i key t' ht => ?_, fun t' ht => ?_, fun i => ?_, fun i hle => ?_⟩
    · simp only [Function.update_apply] at ht
      have hmem : (key, t') ∈ (h.subs i).tails ∧ t' ≠ t := by
        split_ifs at ht with e
        · subst e
          obtain ⟨ht, hkey⟩ := List.mem_filter.1 ht
          simp only [decide_eq_true_eq] at hkey
          refine ⟨ht, fun e => ?_⟩
          subst e
          exact hkey (hi.entry _ key _ ht).2.2.2.1.symm
        · refine ⟨ht, fun e' => ?_⟩
          subst e'
          exact e (hi.entry i key _ ht).2.2.1.symm
      obtain ⟨hr, hlt, hrest⟩ := hi.entry i key t' hmem.1
      refine ⟨?_, hlt, ?_⟩
      · simp only [Function.update_apply]
        split_ifs with e
        · exact e ▸ hr
        · exact hr
      · simp only [htail, if_neg hmem.2]
        exact hrest
    · simp only [htail] at ht ⊢
      split_ifs at ht ⊢ with e
      have hmem := hi.owned t' ht
      simp only [Function.update_apply]
      split_ifs with es
      · refine List.mem_filter.2 ⟨es ▸ hmem, ?_⟩
        simp only [decide_eq_true_eq]
        intro ek
        rw [es, ek] at hmem
        exact e (hi.entry_unique hmem hreg.2)
      · exact hmem
    · simp only [Function.update_apply]
      split_ifs
      · exact (hi.keys _).sublist (List.Sublist.map _ List.filter_sublist)
      · exact hi.keys i
    · simp only [Function.update_apply]
      split_ifs with e
      · exact e ▸ hi.later i hle
      · exact hi.later i hle
  · -- the tail has been cancelled before
    have hdone : (h.tails t).cancelled = true := by
      cases hc : (h.tails t).cancelled with
      | true => rfl
      | false =>
        have hmem := hi.owned t hc
        exact absurd ⟨(hi.entry _ _ _ hmem).1, hmem⟩ hreg
    refine ⟨fun i key t' ht => ?_, fun t' ht => ?_, hi.keys, hi.later⟩
    · obtain ⟨hr, hlt, hs, hk, hc⟩ := hi.entry i key t' ht
      have hne : t' ≠ t := by
        intro e
        rw [e, hdone] at hc
        cases hc
      simp only [htail, if_neg hne]
      exact ⟨hr, hlt, hs, hk, hc⟩
    · simp only [htail] at ht ⊢
      split_ifs at ht ⊢ with e
      exact hi.owned t' ht

theorem subscribe_inv (hi : Inv h) (spec : ContainerSpec) : Inv (h.subscribe spec) := by
  have hempty : (h.subs h.nextSub).tails = [] := by
    cases ht : (h.subs h.nextSub).tails with
    | nil => rfl
    | cons e rest =>
      have hreg := (hi.entry h.nextSub e.1 e.2 (by rw [ht]; exact List.mem_cons_self)).1
      rw [hi.later _ le_rfl] at hreg
      cases hreg
  apply inv_requestList
  refine ⟨fun i key t ht => ?_, fun t ht => ?_, fun i => ?_, fun i hle => ?_⟩
  · simp only [Function.update_apply] at ht ⊢
    split_ifs at ht ⊢ with e
    · cases ht
    · exact hi.entry i key t ht
  · have hmem := hi.owned t ht
    simp only [Function.update_apply]
    split_ifs with e
    · rw [e, hempty] at hmem
      cases hmem
    · exact hmem
  · simp only [Function.update_apply]
    split_ifs
    · exact List.nodup_nil
    · exact hi.keys i
  · have hlt : h.nextSub < i := hle
    simp only [Function.update_apply, if_neg hlt.ne']
    exact hi.later i hlt.le

theorem removeSub_inv (hi : Inv h) (i : ℕ) : Inv (h.removeSub i) := by
  unfold removeSub
  split_ifs with hr
  · -- cancelling everything and deregistering commute
    have hcan := cancel_inv hi i fun _ => true
    have hnone : ((h.cancelWhere i fun _ => true).subs i).tails = [] := by
      rw [subs_cancelWhere, if_pos rfl]
      simp
    have e : ({ h with subs := Function.update h.subs i { h.subs i with registered := false } } : Hub).cancelWhere i
        (fun _ => true) = { h.cancelWhere i (fun _ => true) with
          subs := Function.update (h.cancelWhere i fun _ => true).subs i
            { (h.cancelWhere i fun _ => true).subs i with registered := false } } := by
      simp only [cancelWhere, Function.update_self, Function.update_idem]
    rw [e]
    refine ⟨fun j key t ht => ?_, fun t ht => ?_, fun j => ?_, fun j hle => ?_⟩
    · simp only [Function.update_apply] at ht ⊢
      split_ifs at ht ⊢ with ej
      · simp only [hnone] at ht
        cases ht
      · exact hcan.entry j key t ht
    · have hmem := hcan.owned t ht
      simp only [Function.update_apply]
      split_ifs with ej
      · rw [ej, hnone] at hmem
        cases hmem
      · exact hmem
    · simp only [Function.update_apply]
      split_ifs with ej
      · exact hcan.keys i
      · exact hcan.keys j
    · simp only [Function.update_apply]
      split_ifs with ej
      · rfl
      · exact hcan.later j hle
  · exact hi

theorem react_inv (hi : Inv h) (a : HubAct) : Inv (h.react a) := by
  cases a with
  | subscribe spec => exact subscribe_inv hi spec
  | removeSub i => exact removeSub_inv hi i
  | reconcile => exact inv_requestList hi
  | handleEvent host =>
    simp only [react]
    split
    · rename_i ev _ rest _
      have hq : Inv { h with events := rest } := { hi with }
      exact handleEvent_inv hq ev
    · exact hi
  | eventsClosed =>
    have hq : Inv { h with events := [], eventsOpen := false } := { hi with }
    exact inv_requestList hq
  | takeList res =>
    simp only [react]
    split_ifs
    · exact { hi with }
    · exact hi
  | handleList swapped =>
    simp only [react]
    split
    · exact handleList_inv hi _ _
    · exact hi
  | handleTailExit t =>
    simp only [react]
    split_ifs
    · exact handleTailExit_inv hi t
    · exact hi
  | shutdown =>
    have hq : Inv { h with stopped := true } := { hi with }
    exact forSubs_inv (local_cancel fun _ _ _ => true) hq
  | engine ev seen => exact hi
  | tailEnds t => exact hi

theorem step_inv (h : Hub) (a : HubAct) (hi : Inv h) : Inv (h.step a) := by
  cases a with
  | engine ev seen => exact { hi with }
  | tailEnds t =>
    simp only [step]
    split_ifs
    · exact tailEnds_inv hi t
    · exact hi
  | _ =>
    simp only [step]
    split_ifs
    · exact hi
    · exact react_inv hi _

/-! ## Removed subscriptions -/

/-- the subscription was made, and has been removed -/
def Removed (h : Hub) (i : ℕ) : Prop := i < h.nextSub ∧ (h.subs i).registered = false

theorem Removed.forSubs {f : Hub → ℕ → Hub} (hf : Local f) (hi : Inv h) {i : ℕ} (hr : Removed h i) :
    Removed (h.forSubs f) i := by
  refine ⟨?_, forSubs_removed hf hi hr.2⟩
  rw [forSubs_nextSub hf]
  exact hr.1

theorem removed_requestList {i : ℕ} (hr : Removed h i) : Removed h.requestList i := by
  unfold requestList
  split_ifs <;> exact hr

theorem removed_followUp {i : ℕ} (hr : Removed h i) : Removed h.followUp i := by
  unfold followUp
  split_ifs
  · have hq : Removed { h with listQueued := false } i := hr
    exact removed_requestList hq
  · exact hr

/-- a subscription that has been removed stays removed -/
theorem react_removed (hi : Inv h) (a : HubAct) {i : ℕ} (hr : Removed h i) : Removed (h.react a) i := by
  cases a with
  | subscribe spec =>
    apply removed_requestList
    refine ⟨Nat.lt_succ_of_lt hr.1, ?_⟩
    simp only [Function.update_apply, if_neg hr.1.ne]
    exact hr.2
  | removeSub j =>
    simp only [react, removeSub]
    split_ifs
    · refine ⟨hr.1, ?_⟩
      rw [subs_cancelWhere]
      split_ifs with e
      · simp
      · simp only [Function.update_apply, if_neg e]
        exact hr.2
    · exact hr
  | reconcile => exact removed_requestList hr
  | handleEvent host =>
    simp only [react]
    split
    · rename_i ev _ rest _
      have hq : Inv { h with events := rest } := { hi with }
      have hrq : Removed { h with events := rest } i := hr
      unfold handleEvent
      split_ifs
      · exact hrq.forSubs (local_ensure _ _) hq
      · exact hrq.forSubs (local_cancelTails _) hq
      · exact removed_requestList (hrq.forSubs (local_cancelTails _) hq)
      · exact hrq
    · exact hr
  | eventsClosed =>
    have hrq : Removed { h with events := [], eventsOpen := false } i := hr
    exact removed_requestList hrq
  | takeList res =>
    simp only [react]
    split_ifs <;> exact hr
  | handleList swapped =>
    simp only [react]
    split
    · rename_i res _ _
      have hopen : Inv ({ h with listInFlight := false, listing := none }.reopenEvents swapped) ∧
          Removed ({ h with listInFlight := false, listing := none }.reopenEvents swapped) i := by
        unfold reopenEvents
        split_ifs
        · exact ⟨{ hi with }, hr⟩
        · exact ⟨{ hi with }, hr⟩
      unfold handleList
      apply removed_followUp
      split_ifs
      · exact hopen.2
      · exact hopen.2.forSubs (local_converge res) hopen.1
    · exact hr
  | handleTailExit t =>
    simp only [react]
    split_ifs
    · unfold handleTailExit
      dsimp only
      split_ifs
      · refine ⟨hr.1, ?_⟩
        simp only [Function.update_apply]
        split_ifs with e
        · exact e ▸ hr.2
        · exact hr.2
      · exact hr
    · exact hr
  | shutdown =>
    have hq : Inv { h with stopped := true } := { hi with }
    have hrq : Removed { h with stopped := true } i := hr
    exact hrq.forSubs (local_cancel fun _ _ _ => true) hq
  | engine ev seen => exact hr
  | tailEnds t => exact hr

theorem step_removed (h : Hub) (a : HubAct) {i : ℕ} (hh : Inv h ∧ Removed h i) : Inv (h.step a) ∧ Removed (h.step a) i := by
  refine ⟨step_inv h a hh.1, ?_⟩
  cases a with
  | engine ev seen => exact hh.2
  | tailEnds t =>
    simp only [step]
    split_ifs <;> exact hh.2
  | _ =>
    simp only [step]
    split_ifs
    · exact hh.2
    · exact react_removed hh.1 _ hh.2

/-! ## Uniqueness -/

/-- each container has at most one uncancelled tail per subscription, and it is the registered one -/
structure Unique (h : Hub) : Prop where
  one : ∀ t t', (h.tails t).cancelled = false → (h.tails t').cancelled = false → (h.tails t).sub = (h.tails t').sub →
    (h.tails t).key = (h.tails t').key → t = t'
  registered : ∀ i key t, (key, t) ∈ (h.subs i).tails ↔
    (h.tails t).sub = i ∧ (h.tails t).key = key ∧ (h.tails t).cancelled = false
  keys : ∀ i, ((h.subs i).tails.map Prod.fst).Nodup

theorem Inv.unique_tails (hi : Inv h) : Unique h where
  one := fun _ _ ht ht' hsub hkey => hi.unique ht ht' hsub hkey
  registered := fun i key t => by
    constructor
    · intro ht
      obtain ⟨-, -, hs, hk, hc⟩ := hi.entry i key t ht
      exact ⟨hs, hk, hc⟩
    · intro ⟨hs, hk, hc⟩
      have hmem := hi.owned t hc
      rwa [hs, hk] at hmem
  keys := hi.keys

/-- the exit of a tail leaves every other tail, and its place in the map, as it is -/
theorem exit_spares (hi : Inv h) {t t' : ℕ} (hne : t' ≠ t) {i : ℕ} {key : ContainerKey}
    (hmem : (key, t') ∈ (h.subs i).tails) :
    (key, t') ∈ ((h.step (.handleTailExit t)).subs i).tails ∧ (h.step (.handleTailExit t)).tails t' = h.tails t' := by
  simp only [step, react]
  split_ifs
  · exact ⟨hmem, rfl⟩
  · unfold handleTailExit
    dsimp only
    have htail : Function.update h.tails t { h.tails t with cancelled := true, phase := .gone } t' = h.tails t' := by
      rw [Function.update_apply, if_neg hne]
    split_ifs with hreg
    · refine ⟨?_, htail⟩
      simp only [Function.update_apply]
      split_ifs with e
      · refine List.mem_filter.2 ⟨e ▸ hmem, ?_⟩
        simp only [decide_eq_true_eq]
        intro ek
        rw [e, ek] at hmem
        exact hne (hi.entry_unique hmem hreg.2)
      · exact hmem
    · exact ⟨hmem, htail⟩
  · exact ⟨hmem, rfl⟩

/-- **Tails are unique.** In every run of the loop, over any interleaving of its messages: a container has at most one
uncancelled tail per subscription, the one in the subscription's map; the exit of a tail neither removes nor cancels
another one; and a subscription that has been removed has no uncancelled tail, then or ever after. -/
theorem tail_unique (acts : List HubAct) :
    let h := run step init acts
    Unique h ∧
    (∀ t t' i key, t' ≠ t → (key, t') ∈ (h.subs i).tails →
      (key, t') ∈ ((h.step (.handleTailExit t)).subs i).tails ∧ (h.step (.handleTailExit t)).tails t' = h.tails t') ∧
    ∀ i, Removed h i → ∀ later t, ((run step h later).tails t).sub = i → ((run step h later).tails t).cancelled = true := by
  intro h
  have hi : Inv h := run_preserves step_inv inv_init acts
  refine ⟨hi.unique_tails, fun t t' i key hne hmem => exit_spares hi hne hmem, fun i hr later t ht => ?_⟩
  have hstep : ∀ h a, Inv h ∧ Removed h i → Inv (h.step a) ∧ Removed (h.step a) i := fun h a hh => step_removed h a hh
  have hlater := run_preserves hstep ⟨hi, hr⟩ later
  exact hlater.1.removed hlater.2.2 t ht

end Hub

end LogDeck.HubLoop
