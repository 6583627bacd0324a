/-
Do the hub's tails converge (`logstream/logstream.go`: `handleEvent`, `handleList`; `logstream/tail.go`: `spawnTail`)?

A tail puts on its records the name and the labels of the message it was spawned from: a listing, or a start event. A
listing that keeps the tail does not compare them with its own. So they are those of the moment that message was sent.

The engines are outside: `names n` is what they call each container, name and labels, after their first n events, and
they answer every listing by it (`Truthful`). A change that no event tells of is an event that the hub does not see. The
labels of a start event are all attributes of the event (`docker/events_engine.go`), more than a listing gives.

Ghost: `source`, the message each tail was spawned from.

Results:
- `converges_iff`: whatever the history, the tails are the right ones, and only their tags can be wrong;
- `convergence_iff`: over every run, the tails agree with each listing taken after the last event if and only if none of
  those it keeps was spawned from a message that has become outdated; and they do when the messages come in order;
- `stale_listing_keeps_name`: a rename that a listing undoes for good.
-/
import LogDeck.Logstream.Listing

namespace LogDeck.HubLoop

open Machine
open LogDeck.LogStore (trimSlash)

/-- the message a tail was spawned from; a listing has the number of events there had been when it was taken -/
inductive Source where
  | listing (res : ListResult) (stamp : ℕ)
  | start (ev : EngineEvent)
deriving DecidableEq, Repr

/-- the name and the labels a message gives a container -/
def Source.gives : Source → ContainerKey → Option ContainerMeta
  | .listing res _, key => res.running key
  | .start ev, key => if ev.key = key then some ⟨trimSlash ev.containerName, ev.labels⟩ else none

/-- what a message says of a container still holds: it has not changed since the listing was taken, or the event has the
name and the labels that the engine gives it now -/
def Source.UpToDate (names : ℕ → ContainerKey → ContainerMeta) (now : ℕ) (key : ContainerKey) : Source → Prop
  | .listing _ stamp => names stamp key = names now key
  | .start ev => ⟨trimSlash ev.containerName, ev.labels⟩ = names now key

namespace Hub

variable {h : Hub}

/-- the message the loop handles in a step -/
def message (h : Hub) : HubAct → Option Source
  | .handleEvent host => (nextEvent host h.events).map fun e => .start e.1.1
  | .handleList _ => h.listing.map fun l => .listing l.1 l.2
  | _ => none

/-! ## Agreement -/

/-- the uncancelled tails of a subscription agree with a listing that has just been handled -/
structure Agrees (res : ListResult) (i : ℕ) (h h' : Hub) : Prop where
  exact : ∀ key, res.covers key.host = true →
    ((∃ t, h'.Uncancelled i key t) ↔ selects (h.subs i).spec res key = true)
  one : ∀ key t t', h'.Uncancelled i key t → h'.Uncancelled i key t' → t = t'
  tags : ∀ key t, res.covers key.host = true → h'.Uncancelled i key t → res.running key = some (h'.tails t).info
  failed : ∀ key, res.covers key.host = false →
    ∀ t, (h'.Uncancelled i key t ↔ h.Uncancelled i key t) ∧ (h.Uncancelled i key t → h'.tails t = h.tails t)

/-- the listing handled, if it was taken after the last engine event, brings every live subscription into agreement -/
def Converges (h : Hub) (a : HubAct) : Prop :=
  ∀ res, h.handled a = some (res, h.emitted) → ∀ i, (h.subs i).registered = true → Agrees res i h (h.step a)

/-- the tails that such a listing keeps carry the name and the labels it has for their containers -/
def Tagged (h : Hub) (a : HubAct) : Prop :=
  ∀ res, h.handled a = some (res, h.emitted) → ∀ t, (h.tails t).cancelled = false →
    res.covers (h.tails t).key.host = true → selects (h.subs (h.tails t).sub).spec res (h.tails t).key = true →
    res.running (h.tails t).key = some (h.tails t).info

/-- whatever the history, the tails are the right ones; their tags are those of the tails that were kept -/
theorem agrees_of_tagged (hi : Inv h) {res : ListResult} {swapped : Bool} {i : ℕ} (hr : (h.subs i).registered = true)
    (htag : ∀ key t, (key, t) ∈ (h.subs i).tails → res.covers key.host = true → selects (h.subs i).spec res key = true →
      res.running key = some (h.tails t).info) : Agrees res i h (h.handleList res swapped) := by
  have hi' : Inv (h.handleList res swapped) := handleList_inv hi res swapped
  have hone : ∀ key t t', (h.handleList res swapped).Uncancelled i key t →
      (h.handleList res swapped).Uncancelled i key t' → t = t' :=
    fun key t t' ht ht' => hi'.entry_unique (hi'.mem_iff.2 ht) (hi'.mem_iff.2 ht')
  cases herr : res.err with
  | true =>
    have hcov : ∀ host, res.covers host = false := fun host => by simp [ListResult.covers, herr]
    obtain ⟨hsubs, htails⟩ := handleList_err h herr swapped
    refine ⟨fun key hc => ?_, hone, fun key t hc => ?_, fun key _ t => ?_⟩
    · rw [hcov] at hc
      cases hc
    · rw [hcov] at hc
      cases hc
    · refine ⟨?_, fun _ => by rw [htails]⟩
      unfold Uncancelled
      rw [htails]
  | false =>
    have hspec := handleList_spec hi herr swapped hr
    have hcov : ∀ host, res.covers host = true ↔ host ∈ res.listedHosts := fun host => by simp [ListResult.covers, herr]
    refine ⟨fun key hc => ?_, hone, fun key t hc ht => ?_, fun key hc t => ?_⟩
    · rw [← hspec.exact key ((hcov _).1 hc)]
      exact exists_congr fun t => hi'.mem_iff.symm
    · have hmem := hi'.mem_iff.2 ht
      rcases lt_or_ge t h.next with hlt | hge
      · obtain ⟨hold, hst⟩ := hspec.old key t hmem hlt
        rw [hspec.tails key t hold hst]
        exact htag key t hold hc ((hspec.exact key ((hcov _).1 hc)).1 ⟨t, hmem⟩)
      · exact (hspec.new key t hmem hge).2
    · have hout : key.host ∉ res.listedHosts := by
        intro hin
        rw [(hcov _).2 hin] at hc
        cases hc
      have hst : stale (h.subs i).spec res key = false := by simp [stale, hout]
      have hiff : (h.handleList res swapped).Uncancelled i key t ↔ h.Uncancelled i key t := by
        rw [← hi'.mem_iff, ← hi.mem_iff]
        refine ⟨fun ht => ?_, fun ht => hspec.kept key t ht hst⟩
        rcases lt_or_ge t h.next with hlt | hge
        · exact (hspec.old key t ht hlt).1
        · exact absurd (hspec.new key t ht hge).1 hout
      exact ⟨hiff, fun ht => hspec.tails key t (hi.mem_iff.2 ht) hst⟩

theorem converges_iff (h : Hub) (a : HubAct) (hi : Inv h) : Converges h a ↔ Tagged h a := by
  constructor
  · intro hconv res ha t hc hcov hsel
    obtain ⟨swapped, rfl, hstep⟩ := handled_cases ha
    have hmem := hi.owned t hc
    have hr := (hi.entry _ _ _ hmem).1
    have hagrees := hconv res ha _ hr
    rw [hstep] at hagrees
    have herr : res.err = false := by
      cases herr : res.err with
      | false => rfl
      | true => simp [ListResult.covers, herr] at hcov
    have hspec := handleList_spec hi herr swapped hr
    have hst : stale (h.subs (h.tails t).sub).spec res (h.tails t).key = false := by simp [stale, hsel]
    have hi' : Inv (h.handleList res swapped) := handleList_inv hi res swapped
    have hun := hi'.mem_iff.1 (hspec.kept _ t hmem hst)
    have htag := hagrees.tags _ t hcov hun
    rwa [hspec.tails _ t hmem hst] at htag
  · intro htag res ha i hr
    obtain ⟨swapped, rfl, hstep⟩ := handled_cases ha
    rw [hstep]
    apply agrees_of_tagged hi hr
    intro key t hmem hcov hsel
    obtain ⟨hsub, hkey, hc⟩ := hi.mem_iff.1 hmem
    have h₁ := htag res ha t hc
    rw [hsub, hkey] at h₁
    exact h₁ hcov hsel

/-! ## What a step leaves alone -/

/-- a loop over the subscriptions leaves alone what its body does -/
theorem forSubs_frame {α : Type} (g : Hub → α) {f : Hub → ℕ → Hub} (hf : ∀ h i, g (f h i) = g h) (h : Hub) :
    g (h.forSubs f) = g h := by
  have aux : ∀ is : List ℕ, ∀ h : Hub,
      g (is.foldl (fun h i => if (h.subs i).registered then f h i else h) h) = g h := by
    intro is
    induction is with
    | nil => exact fun h => rfl
    | cons j is ih =>
      intro h
      rw [List.foldl_cons, ih]
      split_ifs
      · exact hf h j
      · rfl
  exact aux _ h

/-- the messages that wait for the loop, and whether it runs -/
structure Mail where
  events : List (EngineEvent × ℕ)
  eventsOpen : Bool
  listing : Option (ListResult × ℕ)
  stopped : Bool
  emitted : ℕ

def mail (h : Hub) : Mail := ⟨h.events, h.eventsOpen, h.listing, h.stopped, h.emitted⟩

theorem mail_ensure (h : Hub) (i : ℕ) (key : ContainerKey) (info : ContainerMeta) :
    (h.ensureTail i key info).mail = h.mail := by
  unfold ensureTail
  split_ifs <;> rfl

theorem mail_cancelTails (h : Hub) (key : ContainerKey) : (h.cancelTails key).mail = h.mail :=
  @forSubs_frame _ mail (fun h i => h.cancelWhere i fun k => k = key) (fun _ _ => rfl) h

theorem mail_requestList (h : Hub) : h.requestList.mail = h.mail := by
  unfold requestList
  split_ifs <;> rfl

theorem mail_followUp (h : Hub) : h.followUp.mail = h.mail := by
  unfold followUp
  split_ifs
  · exact mail_requestList _
  · rfl

theorem mail_converge (res : ListResult) (h : Hub) (i : ℕ) : (converge res h i).mail = h.mail :=
  spawnRunning_induction (P := fun h' => h'.mail = h.mail)
    (fun h' key info hm _ => (mail_ensure h' i key info).trans hm)
    (h := h.cancelWhere i (stale (h.subs i).spec res)) rfl _

theorem mail_handleEvent (h : Hub) (ev : EngineEvent) : (h.handleEvent ev).mail = h.mail := by
  unfold handleEvent
  split_ifs
  · exact forSubs_frame mail (fun h i => mail_ensure h i _ _) h
  · exact mail_cancelTails h _
  · exact (mail_requestList _).trans (mail_cancelTails h _)
  · rfl

theorem mail_handleList (h : Hub) (res : ListResult) (swapped : Bool) :
    (h.handleList res swapped).mail =
      ({ h with listInFlight := false, listing := none }.reopenEvents swapped).mail := by
  unfold handleList
  rw [mail_followUp]
  split_ifs
  · rfl
  · exact forSubs_frame mail (mail_converge res) _

/-- what a message of the loop does to those that wait -/
def Mail.react (m : Mail) (inFlight : Bool) : HubAct → Mail
  | .handleEvent host =>
    match nextEvent host m.events with
    | some (_, rest) => { m with events := rest }
    | none => m
  | .eventsClosed => { m with events := [], eventsOpen := false }
  | .takeList res => if inFlight ∧ m.listing = none then { m with listing := some (res, m.emitted) } else m
  | .handleList swapped =>
    match m.listing with
    | some _ =>
      if m.eventsOpen = false ∨ swapped then { m with listing := none, events := [], eventsOpen := true }
      else { m with listing := none }
    | none => m
  | .shutdown => { m with stopped := true }
  | _ => m

theorem mail_react (h : Hub) (a : HubAct) : (h.react a).mail = h.mail.react h.listInFlight a := by
  cases a with
  | subscribe spec => exact mail_requestList _
  | removeSub i =>
    simp only [react, removeSub]
    split_ifs <;> rfl
  | reconcile => exact mail_requestList h
  | handleEvent host =>
    simp only [react, Mail.react, mail]
    cases hev : nextEvent host h.events with
    | none => rfl
    | some e => exact mail_handleEvent { h with events := e.2 } e.1.1
  | eventsClosed => exact mail_requestList _
  | takeList res =>
    by_cases hfree : h.listInFlight = true ∧ h.listing = none
    · simp [react, Mail.react, mail, hfree]
    · simp [react, Mail.react, mail, hfree]
  | handleList swapped =>
    cases hl : h.listing with
    | none => simp [react, Mail.react, mail, hl]
    | some l =>
      have hreact : h.react (.handleList swapped) = h.handleList l.1 swapped := by simp only [react, hl]
      rw [hreact, mail_handleList]
      by_cases hopen : h.eventsOpen = false ∨ swapped
      · simp [Mail.react, mail, hl, reopenEvents, hopen]
      · simp [Mail.react, mail, hl, reopenEvents, hopen]
  | handleTailExit t =>
    simp only [react, handleTailExit]
    split_ifs <;> rfl
  | shutdown => exact @forSubs_frame _ mail (fun h i => h.cancelWhere i fun _ => true) (fun _ _ => rfl) _
  | engine ev seen => rfl
  | tailEnds t => rfl

def Mail.step (m : Mail) (inFlight : Bool) : HubAct → Mail
  | .engine ev seen =>
    { m with emitted := m.emitted + 1
             events := if seen ∧ m.eventsOpen ∧ m.stopped = false then m.events ++ [(ev, m.emitted)] else m.events }
  | .tailEnds _ => m
  | a => if m.stopped then m else m.react inFlight a

/-- **What a step does to the messages that wait.** -/
theorem mail_step (h : Hub) (a : HubAct) : (h.step a).mail = h.mail.step h.listInFlight a := by
  cases a with
  | engine ev seen => rfl
  | tailEnds t =>
    simp only [step, Mail.step]
    split_ifs <;> rfl
  | _ =>
    cases hs : h.stopped with
    | true => simp [step, Mail.step, mail, hs]
    | false => simpa [step, Mail.step, mail, hs] using mail_react h _

theorem events_step (h : Hub) (a : HubAct) : (h.step a).events = (h.mail.step h.listInFlight a).events :=
  congrArg Mail.events (mail_step h a)

theorem stopped_step (h : Hub) (a : HubAct) : (h.step a).stopped = (h.mail.step h.listInFlight a).stopped :=
  congrArg Mail.stopped (mail_step h a)

theorem Mail.emitted_react (m : Mail) (inFlight : Bool) (a : HubAct) : (m.react inFlight a).emitted = m.emitted := by
  cases a with
  | handleEvent host =>
    simp only [react]
    cases nextEvent host m.events <;> rfl
  | takeList res =>
    simp only [react]
    split_ifs <;> rfl
  | handleList swapped =>
    simp only [react]
    cases m.listing with
    | none => rfl
    | some l => split_ifs <;> rfl
  | _ => rfl

/-- only the engines make events -/
theorem emitted_of_loop {a : HubAct} (ha : ∀ ev seen, a ≠ .engine ev seen) : (h.step a).emitted = h.emitted := by
  have hemitted : (h.step a).emitted = (h.mail.step h.listInFlight a).emitted := congrArg Mail.emitted (mail_step h a)
  rw [hemitted]
  cases a with
  | engine ev seen => exact absurd rfl (ha ev seen)
  | tailEnds t => rfl
  | _ =>
    simp only [Mail.step]
    split_ifs
    · rfl
    · exact Mail.emitted_react ..

theorem stopped_stays {a : HubAct} (hstop : h.stopped = true) : (h.step a).stopped = true := by
  rw [stopped_step]
  cases a <;> simp [Mail.step, mail, hstop]

/-- cancelling the tails of a container leaves none -/
theorem cancelTails_clears (hi : Inv h) (key : ContainerKey) {t : ℕ}
    (hc : ((h.cancelTails key).tails t).cancelled = false) : ((h.cancelTails key).tails t).key ≠ key := by
  intro hkey
  have hi' : Inv (h.cancelTails key) := forSubs_inv (local_cancelTails key) hi
  have hmem := hi'.owned t hc
  have hr' := (hi'.entry _ _ _ hmem).1
  set i := ((h.cancelTails key).tails t).sub with hsub
  have hr : (h.subs i).registered = true := by
    by_contra hr
    have hgone := forSubs_removed (local_cancelTails key) hi (Bool.eq_false_iff.2 hr)
    rw [show (h.cancelTails key) = h.forSubs fun h i => h.cancelWhere i fun k => k = key from rfl, hgone] at hr'
    cases hr'
  obtain ⟨h₁, hi₁, -, hs⟩ := forSubs_at (local_cancelTails key) hi hr
  have hsubs : (h.cancelTails key).subs i = (h₁.cancelWhere i fun k => k = key).subs i := hs.sub
  rw [hsubs, subs_cancelWhere, if_pos rfl, hkey] at hmem
  have hfilter := (List.mem_filter.1 hmem).2
  simp at hfilter

end Hub

/-! ## Where tails come from -/

structure Traced where
  hub : Hub
  source : ℕ → Option Source

namespace Traced

def init : Traced := ⟨.init, fun _ => none⟩

/-- the tails a step makes come from the message it handles -/
def step (w : Traced) (a : HubAct) : Traced :=
  { hub := w.hub.step a
    source := fun t => if w.hub.next ≤ t ∧ t < (w.hub.step a).next then w.hub.message a else w.source t }

end Traced

section Engines

variable (names : ℕ → ContainerKey → ContainerMeta)

/-- the engines answer a listing with the names and labels they have -/
def Truthful (w : Traced) : HubAct → Prop
  | .takeList res => ∀ key info, res.running key = some info → info = names w.hub.emitted key
  | _ => True

/-- none of the tails kept by a listing that was taken after the last event comes from an outdated message -/
def NoneOutdated (w : Traced) (a : HubAct) : Prop :=
  ∀ res, w.hub.handled a = some (res, w.hub.emitted) → ∀ t, (w.hub.tails t).cancelled = false →
    res.covers (w.hub.tails t).key.host = true →
    selects (w.hub.subs (w.hub.tails t).sub).spec res (w.hub.tails t).key = true →
    ∀ src, w.source t = some src → src.UpToDate names w.hub.emitted (w.hub.tails t).key

/-- a rename of the container waits for the loop -/
def RenamePending (h : Hub) (key : ContainerKey) : Prop := ∃ e ∈ h.events, e.1.base = "rename" ∧ e.1.key = key

/-- what is said of the container holds, or the loop is still to learn that it does not -/
def Known (h : Hub) (key : ContainerKey) (info : ContainerMeta) : Prop :=
  info = names h.emitted key ∨ RenamePending h key

/-- the messages come in order.
`engine`: what an engine calls a container changes with a rename only, and the hub's stream gets that event.
`handleEvent`: a start that is handled has the name and labels its container has by now, renames still to be handled
apart.
`eventsClosed`: the stream closes when no rename waits.
`handleList`: the same of a listing and its containers; it reopens the stream only when no rename waits; and if it was
taken after the last event, no rename waits on a host it covers. -/
def InOrder (w : Traced) : HubAct → Prop
  | .engine ev seen => ∀ key, names (w.hub.emitted + 1) key ≠ names w.hub.emitted key →
      ev.base = "rename" ∧ ev.key = key ∧ seen = true ∧ w.hub.eventsOpen = true
  | .handleEvent host => ∀ ev e rest, Hub.nextEvent host w.hub.events = some ((ev, e), rest) → ev.base = "start" →
      Known names { w.hub with events := rest } ev.key ⟨trimSlash ev.containerName, ev.labels⟩
  | .eventsClosed => ∀ key, ¬ RenamePending w.hub key
  | .handleList swapped => ∀ res stamp, w.hub.listing = some (res, stamp) →
      (∀ key info, res.running key = some info → Known names w.hub key info) ∧
      (w.hub.eventsOpen = false ∨ swapped = true → ∀ key, ¬ RenamePending w.hub key) ∧
      (stamp = w.hub.emitted → ∀ key, res.covers key.host = true → ¬ RenamePending w.hub key)
  | _ => True

/-- every uncancelled tail has the name and labels that its message gave its container; a listing that waits has those
the engines had when it was taken -/
structure Sourced (w : Traced) : Prop where
  hub : w.hub.Inv
  source : ∀ t, (w.hub.tails t).cancelled = false → ∃ src, w.source t = some src ∧
    src.gives (w.hub.tails t).key = some (w.hub.tails t).info ∧
    ∀ res stamp, src = .listing res stamp → (w.hub.tails t).info = names stamp (w.hub.tails t).key
  listing : ∀ res stamp, w.hub.listing = some (res, stamp) →
    ∀ key info, res.running key = some info → info = names stamp key

end Engines

variable {names : ℕ → ContainerKey → ContainerMeta} {w : Traced}

theorem sourced_init : Sourced names .init :=
  ⟨Hub.inv_init, fun _ hc => (by cases hc), fun _ _ hl => (by cases hl)⟩

/-- the listing that waits after a step waited before, or has just been taken -/
theorem listing_step (h : Hub) (a : HubAct) {res : ListResult} {stamp : ℕ}
    (hl : (h.step a).listing = some (res, stamp)) :
    h.listing = some (res, stamp) ∨ (a = .takeList res ∧ stamp = h.emitted) := by
  have hm : (h.mail.step h.listInFlight a).listing = some (res, stamp) := by
    rw [← Hub.mail_step]
    exact hl
  cases a with
  | engine ev seen => exact Or.inl hm
  | tailEnds t => exact Or.inl hm
  | handleEvent host =>
    simp only [Hub.Mail.step, Hub.Mail.react] at hm
    split_ifs at hm
    · exact Or.inl hm
    · split at hm <;> exact Or.inl hm
  | takeList res' =>
    simp only [Hub.Mail.step, Hub.Mail.react] at hm
    split_ifs at hm
    · exact Or.inl hm
    · cases hm
      exact Or.inr ⟨rfl, rfl⟩
    · exact Or.inl hm
  | handleList swapped =>
    -- a listing that is handled waits no more
    cases hw : h.mail.listing with
    | none =>
      simp only [Hub.Mail.step, Hub.Mail.react, hw, ite_self] at hm
      cases hm
    | some l =>
      simp only [Hub.Mail.step, Hub.Mail.react, hw] at hm
      split_ifs at hm
      exact Or.inl (hw.symm.trans hm ▸ hw)
  | _ =>
    simp only [Hub.Mail.step, Hub.Mail.react] at hm
    split_ifs at hm <;> exact Or.inl hm

/-- what a step's message gives a container, in the words of the tails it makes -/
theorem gives_of_told {h : Hub} {a : HubAct} {key : ContainerKey} {info : ContainerMeta} (ht : h.Told a key info) :
    ∃ src, h.message a = some src ∧ src.gives key = some info ∧
      ∀ res stamp, src = .listing res stamp → h.listing = some (res, stamp) ∧ res.running key = some info := by
  rcases ht with ⟨host, ev, e, rest, rfl, hev, -, rfl, rfl⟩ | ⟨swapped, res, stamp, rfl, hl, hrun⟩
  · refine ⟨.start ev, by simp [Hub.message, hev], by simp [Source.gives], fun res stamp he => ?_⟩
    cases he
  · refine ⟨.listing res stamp, by simp [Hub.message, hl], hrun, fun res' stamp' he => ?_⟩
    cases he
    exact ⟨hl, hrun⟩

/-- only an event or a listing says anything of a container -/
theorem not_told {h : Hub} {a : HubAct} {key : ContainerKey} {info : ContainerMeta}
    (hevent : ∀ host, a ≠ .handleEvent host) (hlist : ∀ swapped, a ≠ .handleList swapped) : ¬ h.Told a key info := by
  rintro (⟨host, _, _, _, ha, -⟩ | ⟨swapped, _, _, ha, -⟩)
  · exact hevent host ha
  · exact hlist swapped ha

/-- an uncancelled tail after a step was there before, as it is, or has been made of the step's message -/
theorem tail_step (hi : w.hub.Inv) (a : HubAct) {t : ℕ} (hc : ((w.hub.step a).tails t).cancelled = false) :
    (t < w.hub.next ∧ (w.hub.tails t).cancelled = false ∧ ((w.hub.step a).tails t).key = (w.hub.tails t).key ∧
      ((w.hub.step a).tails t).info = (w.hub.tails t).info ∧ (w.step a).source t = w.source t) ∨
    (w.hub.next ≤ t ∧ w.hub.Told a ((w.hub.step a).tails t).key ((w.hub.step a).tails t).info ∧
      (w.step a).source t = w.hub.message a) := by
  have hk := Hub.step_keeps w.hub a
  have hi' := Hub.step_inv w.hub a hi
  have hlt : t < (w.hub.step a).next := (hi'.entry _ _ _ (hi'.owned t hc)).2.1
  rcases lt_or_ge t w.hub.next with hold | hnew
  · refine Or.inl ⟨hold, ?_, hk.key t hold, hk.info t hold, ?_⟩
    · cases hc₀ : (w.hub.tails t).cancelled with
      | false => rfl
      | true =>
        rw [hk.cancelled t hold hc₀] at hc
        cases hc
    · simp [Traced.step, hold]
  · exact Or.inr ⟨hnew, hk.new t hnew hlt, by simp [Traced.step, hnew, hlt]⟩

theorem sourced_step (w : Traced) (a : HubAct) (hs : Sourced names w) (ht : Truthful names w a) :
    Sourced names (w.step a) := by
  refine ⟨Hub.step_inv w.hub a hs.hub, fun t hc => ?_, fun res stamp hl key info hrun => ?_⟩
  · rcases tail_step hs.hub a hc with ⟨-, hc₀, hkey, hinfo, hsrc⟩ | ⟨-, htold, hsrc⟩
    · have hold := hs.source t hc₀
      rw [← hkey, ← hinfo, ← hsrc] at hold
      exact hold
    · obtain ⟨src, hmsg, hgives, hlist⟩ := gives_of_told htold
      refine ⟨src, hsrc.trans hmsg, hgives, fun res stamp he => ?_⟩
      obtain ⟨hl, hrun⟩ := hlist res stamp he
      exact hs.listing res stamp hl _ _ hrun
  · rcases listing_step w.hub a hl with hl | ⟨rfl, rfl⟩
    · exact hs.listing res stamp hl key info hrun
    · exact ht key info hrun

/-! ## Exactness -/

/-- the tags of a kept tail are the listing's if and only if its message is up to date -/
theorem tagged_iff (hs : Sourced names w) (a : HubAct) : Hub.Tagged w.hub a ↔ NoneOutdated names w a := by
  have hnow : ∀ {res : ListResult}, w.hub.handled a = some (res, w.hub.emitted) → ∀ {key info},
      res.running key = some info → info = names w.hub.emitted key := by
    intro res ha key info hrun
    obtain ⟨swapped, rfl, -⟩ := Hub.handled_cases ha
    simp only [Hub.handled] at ha
    split_ifs at ha
    exact hs.listing res _ ha key info hrun
  constructor
  · intro htag res ha t hc hcov hsel src hsrc
    have hinfo := hnow ha (htag res ha t hc hcov hsel)
    obtain ⟨src', hsrc', hgives, hlist⟩ := hs.source t hc
    obtain rfl : src' = src := Option.some.inj (hsrc'.symm.trans hsrc)
    cases src' with
    | listing res' stamp => exact (hlist res' stamp rfl).symm.trans hinfo
    | start ev =>
      simp only [Source.gives] at hgives
      split_ifs at hgives
      exact (Option.some.inj hgives).trans hinfo
  · intro hup res ha t hc hcov hsel
    obtain ⟨src, hsrc, hgives, hlist⟩ := hs.source t hc
    have hdate := hup res ha t hc hcov hsel src hsrc
    obtain ⟨info, hrun, -⟩ := selects_iff.1 hsel
    rw [hrun, hnow ha hrun]
    congr 1
    cases src with
    | listing res' stamp => exact hdate.symm.trans (hlist res' stamp rfl).symm
    | start ev =>
      simp only [Source.gives] at hgives
      split_ifs at hgives
      exact hdate.symm.trans (Option.some.inj hgives)

/-! ## Messages in order -/

/-- while the loop runs, every uncancelled tail has the name and labels its container has, renames still to be handled
apart -/
def Settled (names : ℕ → ContainerKey → ContainerMeta) (w : Traced) : Prop :=
  w.hub.stopped = false → ∀ t, (w.hub.tails t).cancelled = false →
    Known names w.hub (w.hub.tails t).key (w.hub.tails t).info

/-- a pending event is the one the loop takes, or goes on waiting -/
theorem mem_nextEvent {host : String} {events rest : List (EngineEvent × ℕ)} {e x : EngineEvent × ℕ}
    (h : Hub.nextEvent host events = some (e, rest)) (hx : x ∈ events) : x = e ∨ x ∈ rest := by
  induction events generalizing rest with
  | nil => cases hx
  | cons e' events ih =>
    simp only [Hub.nextEvent] at h
    split_ifs at h
    · cases h
      exact List.mem_cons.1 hx
    · cases hn : Hub.nextEvent host events with
      | none => simp [hn] at h
      | some r =>
        simp only [hn, Option.map_some, Option.some.injEq, Prod.mk.injEq] at h
        obtain ⟨rfl, rfl⟩ := h
        rcases List.mem_cons.1 hx with rfl | hx
        · exact Or.inr List.mem_cons_self
        · rcases ih hn hx with rfl | hx
          · exact Or.inl rfl
          · exact Or.inr (List.mem_cons_of_mem _ hx)

theorem known_of_eq {h h' : Hub} {key : ContainerKey} {info : ContainerMeta} (hemitted : h'.emitted = h.emitted)
    (hevents : h.events ⊆ h'.events) (hk : Known names h key info) : Known names h' key info := by
  rcases hk with hk | ⟨e, he, hrename⟩
  · exact Or.inl (hemitted ▸ hk)
  · exact Or.inr ⟨e, hevents he, hrename⟩

/-- handling a rename leaves no tail of its container -/
theorem rename_clears {h : Hub} (hi : h.Inv) {ev : EngineEvent} (hev : ev.base = "rename") {t : ℕ}
    (hc : ((h.handleEvent ev).tails t).cancelled = false) : ((h.handleEvent ev).tails t).key ≠ ev.key := by
  have htails : (h.handleEvent ev).tails = (h.cancelTails ev.key).tails := by
    simp only [Hub.handleEvent, hev]
    simp only [Hub.requestList]
    split_ifs <;> simp_all
  rw [htails] at hc ⊢
  exact Hub.cancelTails_clears hi ev.key hc

section Steps

variable (hs : Sourced names w) (hset : Settled names w) (hstop : w.hub.stopped = false)
include hs hset hstop

/-- it is enough that what is said of a container stays known, and that what the step's message says of one is -/
theorem settled_of_known {a : HubAct}
    (hkept : ∀ t, ((w.hub.step a).tails t).cancelled = false → ∀ info,
      Known names w.hub ((w.hub.step a).tails t).key info → Known names (w.hub.step a) ((w.hub.step a).tails t).key info)
    (htold : ∀ key info, w.hub.Told a key info → Known names (w.hub.step a) key info) : Settled names (w.step a) := by
  intro _ t hc
  rcases tail_step hs.hub a hc with ⟨-, hc₀, hkey, hinfo, -⟩ | ⟨-, hmade, -⟩
  · have hold := hset hstop t hc₀
    rw [← hkey, ← hinfo] at hold
    exact hkept t hc _ hold
  · exact htold _ _ hmade

/-- an action that makes no tail and leaves the events as they are -/
theorem settled_of_same {a : HubAct} (hnone : ∀ key info, ¬ w.hub.Told a key info)
    (hevents : (w.hub.step a).events = w.hub.events) (hemitted : (w.hub.step a).emitted = w.hub.emitted) :
    Settled names (w.step a) :=
  settled_of_known hs hset hstop (fun _ _ _ hk => known_of_eq hemitted (fun _ hx => hevents.symm ▸ hx) hk)
    fun key info htold => absurd htold (hnone key info)

/-- an engine calls a container something else: the rename waits for the loop -/
theorem settled_engine {ev : EngineEvent} {seen : Bool} (ho : InOrder names w (.engine ev seen)) :
    Settled names (w.step (.engine ev seen)) := by
  have hevents : (w.hub.step (.engine ev seen)).events =
      if seen ∧ w.hub.eventsOpen ∧ w.hub.stopped = false then w.hub.events ++ [(ev, w.hub.emitted)] else w.hub.events := rfl
  refine settled_of_known hs hset hstop (fun t _ info hk => ?_) fun key info htold => absurd htold (not_told nofun nofun)
  rcases hk with hk | ⟨e, he, hrename⟩
  · by_cases hsame : names (w.hub.emitted + 1) ((w.hub.step (.engine ev seen)).tails t).key =
        names w.hub.emitted ((w.hub.step (.engine ev seen)).tails t).key
    · exact Or.inl (hk.trans hsame.symm)
    · obtain ⟨hbase, hkey, hseen, hopen⟩ := ho _ hsame
      refine Or.inr ⟨(ev, w.hub.emitted), ?_, hbase, hkey⟩
      rw [hevents, if_pos ⟨hseen, hopen, hstop⟩]
      exact List.mem_append_right _ (List.mem_singleton_self _)
  · refine Or.inr ⟨e, ?_, hrename⟩
    rw [hevents]
    split_ifs
    · exact List.mem_append_left _ he
    · exact he

/-- a rename that is handled has cancelled the tails of its container -/
theorem settled_handleEvent {host : String} (ho : InOrder names w (.handleEvent host)) :
    Settled names (w.step (.handleEvent host)) := by
  have hsame : (w.hub.step (.handleEvent host)).emitted = w.hub.emitted := Hub.emitted_of_loop nofun
  cases hev : Hub.nextEvent host w.hub.events with
  | none =>
    refine settled_of_same hs hset hstop (fun key info htold => ?_) ?_ hsame
    · rcases htold with ⟨host', ev, e, rest, ha, hev', -⟩ | ⟨_, _, _, ha, -⟩
      · cases ha
        rw [hev] at hev'
        cases hev'
      · cases ha
    · simp [Hub.events_step, Hub.Mail.step, Hub.Mail.react, Hub.mail, hev, hstop]
  | some r =>
    obtain ⟨⟨ev, e⟩, rest⟩ := r
    have hrest : (w.hub.step (.handleEvent host)).events = rest := by
      simp [Hub.events_step, Hub.Mail.step, Hub.Mail.react, Hub.mail, hev, hstop]
    have hstep : w.hub.step (.handleEvent host) = { w.hub with events := rest }.handleEvent ev := by
      simp [Hub.step, Hub.react, hev, hstop]
    refine settled_of_known hs hset hstop (fun t hc info hk => ?_) fun key info htold => ?_
    · rcases hk with hk | ⟨x, hx, hbase, hxkey⟩
      · exact Or.inl (hsame.symm ▸ hk)
      · rcases mem_nextEvent hev hx with rfl | hx
        · have hq : Hub.Inv { w.hub with events := rest } := { hs.hub with }
          rw [hstep] at hc hxkey
          exact absurd hxkey.symm (rename_clears hq hbase hc)
        · exact Or.inr ⟨x, hrest.symm ▸ hx, hbase, hxkey⟩
    · rcases htold with ⟨host', ev', e', rest', ha, hev', hstart, rfl, rfl⟩ | ⟨_, _, _, ha, -⟩
      · cases ha
        obtain ⟨⟨rfl, rfl⟩, rfl⟩ : (ev = ev' ∧ e = e') ∧ rest = rest' := by simpa using hev.symm.trans hev'
        have hsub : rest ⊆ (w.hub.step (.handleEvent host)).events := hrest.symm ▸ List.Subset.refl rest
        exact known_of_eq (h := { w.hub with events := rest }) hsame hsub (ho ev e rest hev hstart)
      · cases ha

/-- the stream closes when no rename waits -/
theorem settled_eventsClosed (ho : InOrder names w .eventsClosed) : Settled names (w.step .eventsClosed) :=
  settled_of_known hs hset hstop
    (fun _ _ _ hk => Or.inl ((Hub.emitted_of_loop nofun : (w.hub.step .eventsClosed).emitted = _).symm ▸
      hk.resolve_right (ho _)))
    fun _ _ htold => absurd htold (not_told nofun nofun)

/-- no rename is lost when a listing reopens the stream -/
theorem settled_handleList {swapped : Bool} (ho : InOrder names w (.handleList swapped)) :
    Settled names (w.step (.handleList swapped)) := by
  have hsame : (w.hub.step (.handleList swapped)).emitted = w.hub.emitted := Hub.emitted_of_loop nofun
  cases hl : w.hub.listing with
  | none =>
    refine settled_of_same hs hset hstop (fun key info htold => ?_) ?_ hsame
    · rcases htold with ⟨_, _, _, _, ha, -⟩ | ⟨_, res, stamp, -, hl', -⟩
      · cases ha
      · rw [hl] at hl'
        cases hl'
    · simp [Hub.events_step, Hub.Mail.step, Hub.Mail.react, Hub.mail, hl, hstop]
  | some l =>
    obtain ⟨res, stamp⟩ := l
    obtain ⟨hgives, hreopen, -⟩ := ho res stamp hl
    have hknown : ∀ {key info}, Known names w.hub key info → Known names (w.hub.step (.handleList swapped)) key info := by
      intro key info hk
      by_cases hopen : w.hub.eventsOpen = false ∨ swapped = true
      · exact Or.inl (hsame.symm ▸ hk.resolve_right (hreopen hopen key))
      · refine known_of_eq hsame ?_ hk
        simp [Hub.events_step, Hub.Mail.step, Hub.Mail.react, Hub.mail, hl, hstop, hopen]
    refine settled_of_known hs hset hstop (fun _ _ _ hk => hknown hk) fun key info htold => ?_
    rcases htold with ⟨_, _, _, _, ha, -⟩ | ⟨_, res', stamp', ha, hl', hrun⟩
    · cases ha
    · rw [hl] at hl'
      cases hl'
      exact hknown (hgives _ _ hrun)

end Steps

theorem settled_step (w : Traced) (a : HubAct) (hs : Sourced names w) (hset : Settled names w)
    (ho : InOrder names w a) : Settled names (w.step a) := by
  cases hstop : w.hub.stopped with
  | true =>
    -- a loop that has ended does not come back
    intro hrun
    have hstays : (w.hub.step a).stopped = true := Hub.stopped_stays hstop
    cases hstays.symm.trans hrun
  | false =>
    cases a with
    | engine ev seen => exact settled_engine hs hset hstop ho
    | handleEvent host => exact settled_handleEvent hs hset hstop ho
    | eventsClosed => exact settled_eventsClosed hs hset hstop ho
    | handleList swapped => exact settled_handleList hs hset hstop ho
    | shutdown =>
      intro hrun
      have hends : (w.hub.step .shutdown).stopped = true := by
        simp [Hub.stopped_step, Hub.Mail.step, Hub.Mail.react, Hub.mail, hstop]
      cases hends.symm.trans hrun
    | takeList res =>
      refine settled_of_same hs hset hstop (fun _ _ => not_told nofun nofun) ?_ (Hub.emitted_of_loop nofun)
      simp only [Hub.events_step, Hub.Mail.step, Hub.Mail.react]
      split_ifs <;> rfl
    | _ =>
      refine settled_of_same hs hset hstop (fun _ _ => not_told nofun nofun) ?_ (Hub.emitted_of_loop nofun)
      simp [Hub.events_step, Hub.Mail.step, Hub.Mail.react, Hub.mail, hstop]

/-- in order, a listing taken after the last event keeps tails with the names and labels it gives -/
theorem tagged_of_settled (hs : Sourced names w) (hset : Settled names w) {a : HubAct} (ho : InOrder names w a) :
    Hub.Tagged w.hub a := by
  intro res ha t hc hcov hsel
  obtain ⟨swapped, rfl, -⟩ := Hub.handled_cases ha
  simp only [Hub.handled] at ha
  split_ifs at ha with hstop
  obtain ⟨-, -, hnone⟩ := ho res _ ha
  have hinfo := (hset (Bool.eq_false_iff.2 hstop) t hc).resolve_right (hnone rfl _ hcov)
  obtain ⟨info, hrun, -⟩ := selects_iff.1 hsel
  rw [hrun, hs.listing res _ ha _ info hrun, hinfo]

/-! ## Runs -/

/-- **Convergence.** In every run in which the engines answer truthfully: the listings taken after the last engine event
bring the tails of every live subscription into agreement, in their containers, their number and their tags, and leave
the hosts that failed alone, if and only if none of the tails they keep was spawned from a message that has become
outdated. They do when the messages come in order. -/
theorem convergence_iff (names : ℕ → ContainerKey → ContainerMeta) (acts : List HubAct)
    (htrue : Each Traced.step (Truthful names) .init acts) :
    (Each Traced.step (fun w a => Hub.Converges w.hub a) .init acts ↔
      Each Traced.step (NoneOutdated names) .init acts) ∧
    (Each Traced.step (InOrder names) .init acts → Each Traced.step (fun w a => Hub.Converges w.hub a) .init acts) := by
  constructor
  · have hiff : ∀ w a, Sourced names w → Truthful names w a → (Hub.Converges w.hub a ↔ NoneOutdated names w a) :=
      fun w a hs _ => (Hub.converges_iff w.hub a hs.hub).trans (tagged_iff hs a)
    exact each_iff_contract sourced_step hiff sourced_init htrue
  · intro horder
    have hinit : Sourced names .init ∧ Settled names .init := ⟨sourced_init, fun _ _ hc => by cases hc⟩
    have hstep : ∀ w a, Sourced names w ∧ Settled names w → Truthful names w a ∧ InOrder names w a →
        Sourced names (w.step a) ∧ Settled names (w.step a) :=
      fun w a hs hp => ⟨sourced_step w a hs.1 hp.1, settled_step w a hs.1 hs.2 hp.2⟩
    have hgood : ∀ w a, Sourced names w ∧ Settled names w → Truthful names w a ∧ InOrder names w a →
        Hub.Converges w.hub a :=
      fun w a hs hp => (Hub.converges_iff w.hub a hs.1.hub).2 (tagged_of_settled hs.1 hs.2 hp.2)
    exact each_of_contract hstep hgood hinit (htrue.and horder)

/-! ## A rename -/

def web : ContainerKey := ⟨"h", "c"⟩

def appRename : EngineEvent := ⟨"h", "c", "/app", "rename", []⟩

def appRunning : ListResult := ⟨[("h", [⟨"c", ["/app"], "running", []⟩])], [], false⟩

/-- the container is called web until it is renamed to app -/
def webRenamed (n : ℕ) (key : ContainerKey) : ContainerMeta := if n = 0 ∨ key ≠ web then ⟨"web", []⟩ else ⟨"app", []⟩

/-- a listing is handled, the container renamed and the rename handled, and a new listing taken and handled -/
def orderly : List HubAct :=
  [.subscribe Hub.allContainers, .takeList Hub.webRunning, .handleList false, .engine appRename true, .handleEvent "h",
    .takeList appRunning, .handleList false]

/-- a listing is taken, the container renamed and the rename handled; the listing brings the old name back, and the next
one, which has the new name, keeps it -/
def staleRename : List HubAct :=
  [.subscribe Hub.allContainers, .takeList Hub.webRunning, .engine appRename true, .handleEvent "h", .handleList false,
    .takeList appRunning, .handleList false]

theorem running_web {key : ContainerKey} {info : ContainerMeta} (h : Hub.webRunning.running key = some info) :
    key = web ∧ info = ⟨"web", []⟩ := by
  have hmem : (key, info) ∈ [(web, (⟨"web", []⟩ : ContainerMeta))] := mem_running h
  cases List.mem_singleton.1 hmem
  exact ⟨rfl, rfl⟩

theorem running_app {key : ContainerKey} {info : ContainerMeta} (h : appRunning.running key = some info) :
    key = web ∧ info = ⟨"app", []⟩ := by
  have hmem : (key, info) ∈ [(web, (⟨"app", []⟩ : ContainerMeta))] := mem_running h
  cases List.mem_singleton.1 hmem
  exact ⟨rfl, rfl⟩

theorem rename_in_order : Each Traced.step (fun w a => Hub.Converges w.hub a) .init orderly := by
  refine (convergence_iff webRenamed orderly ?_).2 ?_
  · refine ⟨trivial, fun key info hrun => ?_, trivial, trivial, trivial, fun key info hrun => ?_, trivial, trivial⟩
    · obtain ⟨rfl, rfl⟩ := running_web hrun
      decide
    · obtain ⟨rfl, rfl⟩ := running_app hrun
      decide
  · have hquiet : ∀ {h : Hub}, h.events = [] → ∀ key, ¬ RenamePending h key := by
      rintro h hnone key ⟨e, he, -⟩
      rw [hnone] at he
      cases he
    refine ⟨trivial, trivial, fun res stamp hl => ⟨fun key info hrun => Or.inl ?_, fun _ => hquiet rfl,
      fun _ key _ => hquiet rfl key⟩, fun key hne => ?_, fun ev e rest hev hstart => ?_, trivial,
      fun res stamp hl => ⟨fun key info hrun => Or.inl ?_, fun _ => hquiet rfl, fun _ key _ => hquiet rfl key⟩, trivial⟩
    · cases hl
      obtain ⟨rfl, rfl⟩ := running_web hrun
      decide
    · have hkey : key = web := by
        by_contra hkey
        exact hne (by simp [webRenamed, hkey])
      subst hkey
      exact ⟨by decide, rfl, rfl, rfl⟩
    · cases hev
      exact absurd hstart (by decide)
    · cases hl
      obtain ⟨rfl, rfl⟩ := running_app hrun
      decide

/-- **A stale listing undoes a rename**, and every later listing keeps its tail. -/
theorem stale_listing_keeps_name : ¬ ∀ (names : ℕ → ContainerKey → ContainerMeta) (acts : List HubAct),
    Each Traced.step (Truthful names) .init acts → Each Traced.step (fun w a => Hub.Converges w.hub a) .init acts := by
  intro hall
  have htrue : Each Traced.step (Truthful webRenamed) .init staleRename := by
    refine ⟨trivial, fun key info hrun => ?_, trivial, trivial, trivial, fun key info hrun => ?_, trivial, trivial⟩
    · obtain ⟨rfl, rfl⟩ := running_web hrun
      decide
    · obtain ⟨rfl, rfl⟩ := running_app hrun
      decide
  obtain ⟨-, -, -, -, -, -, hlast, -⟩ := hall webRenamed staleRename htrue
  have hagrees := hlast appRunning rfl 0 (by decide)
  have htag := hagrees.tags web 0 (by decide) ⟨rfl, rfl, rfl⟩
  revert htag
  decide

end LogDeck.HubLoop
