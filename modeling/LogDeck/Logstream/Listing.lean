/-
What a listing does to the tails (`logstream/logstream.go`: `handleList`), and when it is right.

The loop trusts a listing as if it had been taken at the moment it is handled. It is older: events handled since it was
taken are not in it.

Results:
- `converge_spec`: the reconcile step, for one subscription;
- `start_survives_iff`: over every run after a start, no listing cancels the tail the start spawned if and only if no
  listing that was taken before the start and is handled after it has the container not running (and none has it under
  a name or labels that no longer match);
- `stale_listing_undoes_start`: a run with one.
-/
import LogDeck.Logstream.Hub

namespace LogDeck.HubLoop

open Machine
open LogDeck.LogStore (trimSlash)

/-- the listing of a host succeeded -/
def ListResult.covers (res : ListResult) (host : String) : Bool := ! res.err && decide (host ∈ res.listedHosts)

/-- an uncancelled tail of a subscription for a container -/
def Hub.Uncancelled (h : Hub) (i : ℕ) (key : ContainerKey) (t : ℕ) : Prop :=
  (h.tails t).sub = i ∧ (h.tails t).key = key ∧ (h.tails t).cancelled = false

theorem mem_running {res : ListResult} {key : ContainerKey} {info : ContainerMeta} (h : res.running key = some info) :
    (key, info) ∈ res.runningList := by
  unfold ListResult.running at h
  cases hf : res.runningList.reverse.find? fun e => e.1 = key with
  | none =>
    rw [hf] at h
    cases h
  | some e =>
    rw [hf] at h
    have hkey : e.1 = key := by simpa using List.find?_some hf
    have hmem := List.mem_reverse.1 (List.mem_of_find?_eq_some hf)
    obtain rfl := Option.some.inj h
    rw [← hkey]
    exact hmem

theorem running_listed {res : ListResult} {key : ContainerKey} {info : ContainerMeta} (h : res.running key = some info) :
    key.host ∈ res.listedHosts := by
  obtain ⟨⟨host, containers⟩, hs, hmem⟩ := List.mem_flatMap.1 (mem_running h)
  obtain ⟨ctr, -, e⟩ := List.mem_map.1 hmem
  obtain rfl := congrArg (fun e => e.1.host) e
  exact List.mem_map_of_mem hs

theorem selects_iff {spec : ContainerSpec} {res : ListResult} {key : ContainerKey} :
    selects spec res key = true ↔
      ∃ info, res.running key = some info ∧ spec.matches key.host info.name info.labels = true := by
  unfold selects
  cases res.running key with
  | none => simp
  | some info => simp

namespace Hub

variable {h : Hub}

theorem Inv.mem_iff (hi : Inv h) {i : ℕ} {key : ContainerKey} {t : ℕ} :
    (key, t) ∈ (h.subs i).tails ↔ h.Uncancelled i key t := hi.unique_tails.registered i key t

/-! ## One subscription -/

/-- what spawning the running containers adds -/
structure Spawned (res : ListResult) (i : ℕ) (h h' : Hub) : Prop where
  spec : (h'.subs i).spec = (h.subs i).spec
  next : h.next ≤ h'.next
  kept : ∀ e ∈ (h.subs i).tails, e ∈ (h'.subs i).tails
  tails : ∀ t < h.next, h'.tails t = h.tails t
  new : ∀ key t, (key, t) ∈ (h'.subs i).tails → (key, t) ∈ (h.subs i).tails ∨
    (h.next ≤ t ∧ t < h'.next ∧ selects (h.subs i).spec res key = true ∧ res.running key = some (h'.tails t).info)

theorem Spawned.refl (res : ListResult) (i : ℕ) (h : Hub) : Spawned res i h h :=
  ⟨rfl, le_rfl, fun _ he => he, fun _ _ => rfl, fun _ _ he => Or.inl he⟩

theorem Spawned.trans {res : ListResult} {i : ℕ} {h₁ h₂ h₃ : Hub} (h₁₂ : Spawned res i h₁ h₂)
    (h₂₃ : Spawned res i h₂ h₃) : Spawned res i h₁ h₃ := by
  refine ⟨h₂₃.spec.trans h₁₂.spec, h₁₂.next.trans h₂₃.next, fun e he => h₂₃.kept e (h₁₂.kept e he), fun t ht => ?_,
    fun key t he => ?_⟩
  · exact (h₂₃.tails t (ht.trans_le h₁₂.next)).trans (h₁₂.tails t ht)
  · rcases h₂₃.new key t he with he | ⟨hle, hlt, hsel, hrun⟩
    · rcases h₁₂.new key t he with he | ⟨hle, hlt, hsel, hrun⟩
      · exact Or.inl he
      · refine Or.inr ⟨hle, hlt.trans_le h₂₃.next, hsel, ?_⟩
        rw [h₂₃.tails t hlt]
        exact hrun
    · exact Or.inr ⟨h₁₂.next.trans hle, hlt, h₁₂.spec ▸ hsel, hrun⟩

theorem spawned_ensure (res : ListResult) (i : ℕ) (h : Hub) {key : ContainerKey} {info : ContainerMeta}
    (hrun : res.running key = some info) : Spawned res i h (h.ensureTail i key info) := by
  unfold ensureTail
  split_ifs with hmem hmatch
  · exact Spawned.refl res i h
  · have hsub : (h.spawnTail i key info).subs i = { h.subs i with tails := (h.subs i).tails ++ [(key, h.next)] } := by
      simp [spawnTail]
    refine ⟨by rw [hsub], Nat.le_succ _, fun e he => ?_, fun t ht => ?_, fun key' t he => ?_⟩
    · rw [hsub]
      exact List.mem_append_left _ he
    · simp [spawnTail, ht.ne]
    · rw [hsub] at he
      rcases List.mem_append.1 he with he | he
      · exact Or.inl he
      · cases List.mem_singleton.1 he
        refine Or.inr ⟨le_rfl, Nat.lt_succ_self _, selects_iff.2 ⟨info, hrun, hmatch⟩, ?_⟩
        simpa [spawnTail] using hrun
  · exact Spawned.refl res i h

theorem spawned_running (res : ListResult) (i : ℕ) (h : Hub) (keys : List ContainerKey) :
    Spawned res i h (spawnRunning res i h keys) :=
  spawnRunning_induction (P := fun h' => Spawned res i h h')
    (fun h' _ _ hs hrun => hs.trans (spawned_ensure res i h' hrun)) (Spawned.refl res i h) keys

/-- after the loop every selected container has a tail -/
theorem spawnRunning_covers {res : ListResult} {i : ℕ} {keys : List ContainerKey} {key : ContainerKey} (hk : key ∈ keys)
    (hsel : selects (h.subs i).spec res key = true) : key ∈ ((spawnRunning res i h keys).subs i).tails.map Prod.fst := by
  induction keys generalizing h with
  | nil => cases hk
  | cons key' keys ih =>
    obtain ⟨info, hrun, hmatch⟩ := selects_iff.1 hsel
    rcases List.mem_cons.1 hk with rfl | hk
    · have hstep : key ∈ ((h.ensureTail i key info).subs i).tails.map Prod.fst := by
        unfold ensureTail
        rw [if_pos hmatch]
        split_ifs with hmem
        · exact hmem
        · simp [spawnTail]
      obtain ⟨e, he, hfst⟩ := List.mem_map.1 hstep
      rw [spawnRunning, List.foldl_cons, hrun]
      exact List.mem_map.2 ⟨e, (spawned_running res i _ keys).kept e he, hfst⟩
    · rw [spawnRunning, List.foldl_cons]
      apply ih hk
      cases hrun' : res.running key' with
      | none => exact hsel
      | some info' =>
        rw [(spawned_ensure res i h hrun').spec]
        exact hsel

/-- the tails of one subscription after a listing: on a host that listed, one for each container it selects, a new one
with the listing's name and labels; on the other hosts, those there were -/
structure ConvergedSub (res : ListResult) (i : ℕ) (h h' : Hub) : Prop where
  exact : ∀ key, key.host ∈ res.listedHosts →
    ((∃ t, (key, t) ∈ (h'.subs i).tails) ↔ selects (h.subs i).spec res key = true)
  kept : ∀ key t, (key, t) ∈ (h.subs i).tails → stale (h.subs i).spec res key = false → (key, t) ∈ (h'.subs i).tails
  old : ∀ key t, (key, t) ∈ (h'.subs i).tails → t < h.next →
    (key, t) ∈ (h.subs i).tails ∧ stale (h.subs i).spec res key = false
  new : ∀ key t, (key, t) ∈ (h'.subs i).tails → h.next ≤ t →
    key.host ∈ res.listedHosts ∧ res.running key = some (h'.tails t).info
  tails : ∀ key t, (key, t) ∈ (h.subs i).tails → stale (h.subs i).spec res key = false → h'.tails t = h.tails t
  gone : ∀ key t, (key, t) ∈ (h.subs i).tails → stale (h.subs i).spec res key = true → (h'.tails t).cancelled = true

/-- **The reconcile step**, for one subscription. -/
theorem converge_spec (hi : Inv h) (res : ListResult) (i : ℕ) : ConvergedSub res i h (converge res h i) := by
  set h₁ := h.cancelWhere i (stale (h.subs i).spec res) with hh₁
  have hsub : h₁.subs i = { h.subs i with tails := (h.subs i).tails.filter fun e => ! stale (h.subs i).spec res e.1 } := by
    rw [hh₁, subs_cancelWhere, if_pos rfl]
  have hnext : h₁.next = h.next := rfl
  have hspec₁ : (h₁.subs i).spec = (h.subs i).spec := by rw [hsub]
  have hmem₁ : ∀ key t, (key, t) ∈ (h₁.subs i).tails ↔
      (key, t) ∈ (h.subs i).tails ∧ stale (h.subs i).spec res key = false := by
    intro key t
    rw [hsub, List.mem_filter]
    simp
  have hs : Spawned res i h₁ (converge res h i) := spawned_running res i h₁ _
  have htail : ∀ key t, (key, t) ∈ (h.subs i).tails → stale (h.subs i).spec res key = false →
      (converge res h i).tails t = h.tails t := by
    intro key t ht hst
    obtain ⟨-, hlt, hsub', hkey, -⟩ := hi.entry i key t ht
    rw [hs.tails t hlt, hh₁, tails_cancelWhere hi, if_neg]
    intro ⟨_, _, hp⟩
    rw [hkey, hst] at hp
    cases hp
  refine ⟨fun key hhost => ⟨fun ⟨t, ht⟩ => ?_, fun hsel => ?_⟩, fun key t ht hst => hs.kept _ ((hmem₁ key t).2 ⟨ht, hst⟩),
    fun key t ht hlt => ?_, fun key t ht hle => ?_, htail, fun key t ht hst => ?_⟩
  · rcases hs.new key t ht with ht | ⟨-, -, hsel, -⟩
    · have hst := ((hmem₁ key t).1 ht).2
      simpa [stale, hhost] using hst
    · exact hspec₁ ▸ hsel
  · obtain ⟨info, hrun, -⟩ := selects_iff.1 hsel
    have hkey : key ∈ res.runningList.map Prod.fst := List.mem_map_of_mem (mem_running hrun)
    obtain ⟨⟨key', t⟩, ht, rfl⟩ := List.mem_map.1 (spawnRunning_covers (h := h₁) hkey (hspec₁ ▸ hsel))
    exact ⟨t, ht⟩
  · rcases hs.new key t ht with ht | ⟨hle, -⟩
    · exact (hmem₁ key t).1 ht
    · exact absurd hlt (not_lt.2 hle)
  · rcases hs.new key t ht with ht | ⟨-, -, -, hrun⟩
    · have hlt := (hi.entry i key t ((hmem₁ key t).1 ht).1).2.1
      exact absurd hlt (not_lt.2 hle)
    · exact ⟨running_listed hrun, hrun⟩
  · obtain ⟨-, hlt, hsub', hkey, hc⟩ := hi.entry i key t ht
    rw [hs.tails t hlt, hh₁, tails_cancelWhere hi, if_pos]
    exact ⟨hsub', hc, hkey ▸ hst⟩

/-! ## The whole listing -/

/-- what the loop does around the reconcile step touches no tail -/
theorem handleList_eq (h : Hub) (res : ListResult) (swapped : Bool) :
    ∃ h₀ : Hub, h₀.subs = h.subs ∧ h₀.nextSub = h.nextSub ∧ h₀.tails = h.tails ∧ h₀.next = h.next ∧
      (h.handleList res swapped).subs = (if res.err then h₀ else h₀.forSubs (converge res)).subs ∧
      (h.handleList res swapped).tails = (if res.err then h₀ else h₀.forSubs (converge res)).tails ∧
      (h.handleList res swapped).next = (if res.err then h₀ else h₀.forSubs (converge res)).next := by
  have hfollow : ∀ h : Hub, h.followUp.subs = h.subs ∧ h.followUp.tails = h.tails ∧ h.followUp.next = h.next := by
    intro h
    unfold followUp requestList
    split_ifs <;> exact ⟨rfl, rfl, rfl⟩
  have hopen : ∀ h : Hub, (h.reopenEvents swapped).subs = h.subs ∧ (h.reopenEvents swapped).nextSub = h.nextSub ∧
      (h.reopenEvents swapped).tails = h.tails ∧ (h.reopenEvents swapped).next = h.next := by
    intro h
    unfold reopenEvents
    split_ifs <;> exact ⟨rfl, rfl, rfl, rfl⟩
  obtain ⟨hsubs, hnextSub, htails, hnext⟩ := hopen { h with listInFlight := false, listing := none }
  obtain ⟨es, et, en⟩ := hfollow (if res.err then { h with listInFlight := false, listing := none }.reopenEvents swapped
    else ({ h with listInFlight := false, listing := none }.reopenEvents swapped).forSubs (converge res))
  exact ⟨_, hsubs, hnextSub, htails, hnext, es, et, en⟩

theorem inv_congr {h' : Hub} (hi : Inv h) (hsubs : h'.subs = h.subs) (hnextSub : h'.nextSub = h.nextSub)
    (htails : h'.tails = h.tails) (hnext : h'.next = h.next) : Inv h' :=
  { entry := by rw [hsubs, htails, hnext]; exact hi.entry, owned := by rw [hsubs, htails]; exact hi.owned,
    keys := by rw [hsubs]; exact hi.keys, later := by rw [hsubs, hnextSub]; exact hi.later }

/-- a listing that failed changes no tail -/
theorem handleList_err (h : Hub) {res : ListResult} (herr : res.err = true) (swapped : Bool) :
    (h.handleList res swapped).subs = h.subs ∧ (h.handleList res swapped).tails = h.tails := by
  obtain ⟨h₀, hsubs, -, htails, -, es, et, -⟩ := handleList_eq h res swapped
  rw [if_pos herr] at es et
  exact ⟨es.trans hsubs, et.trans htails⟩

/-- **A listing converges every subscription.** -/
theorem handleList_spec (hi : Inv h) {res : ListResult} (herr : res.err = false) (swapped : Bool) {i : ℕ}
    (hr : (h.subs i).registered = true) : ConvergedSub res i h (h.handleList res swapped) := by
  obtain ⟨h₀, hsubs, hnextSub, htails, hnext, es, et, en⟩ := handleList_eq h res swapped
  rw [if_neg (by rw [herr]; exact Bool.noConfusion)] at es et en
  have hi₀ : Inv h₀ := inv_congr hi hsubs hnextSub htails hnext
  obtain ⟨h₁, hi₁, hs₁, hs₂⟩ := forSubs_at (local_converge res) hi₀ (i := i) (by rw [hsubs]; exact hr)
  have hr₁ : (h₁.subs i).registered = true := by
    rw [hs₁.sub, hsubs]
    exact hr
  have hi₂ := (local_converge res).inv h₁ i hi₁ hr₁
  have hc := converge_spec hi₁ res i
  have hsub₁ : h₁.subs i = h.subs i := by rw [hs₁.sub, hsubs]
  have hsub₂ : (h.handleList res swapped).subs i = (converge res h₁ i).subs i := by rw [es, hs₂.sub]
  -- the tails of this subscription, before and after the turns of the others
  have htail₁ : ∀ key t, (key, t) ∈ (h.subs i).tails → h₁.tails t = h.tails t := by
    intro key t ht
    obtain ⟨-, hlt, hsub, -⟩ := hi.entry i key t ht
    rw [hs₁.tails t (by rw [hnext]; exact hlt) (by rw [htails]; exact hsub), htails]
  have htail₂ : ∀ t < (converge res h₁ i).next, ((converge res h₁ i).tails t).sub = i →
      (h.handleList res swapped).tails t = (converge res h₁ i).tails t := by
    intro t hlt hsub
    rw [et, hs₂.tails t hlt hsub]
  have hnext₁ : h.next ≤ h₁.next := hnext ▸ hs₁.next
  rw [← hsub₁] at htail₁
  have hspawned : h₁.next ≤ (converge res h₁ i).next := (spawned_running res i (h₁.cancelWhere i _) _).next
  have hback : ∀ key t, (key, t) ∈ (h₁.subs i).tails →
      (h.handleList res swapped).tails t = (converge res h₁ i).tails t := by
    intro key t ht
    have hlt := (hi₁.entry i key t ht).2.1
    refine htail₂ t (hlt.trans_le hspawned) ?_
    obtain ⟨-, -, hsub, hkey, -⟩ := hi₁.entry i key t ht
    cases hst : stale (h₁.subs i).spec res key with
    | false => rw [hc.tails key t ht hst, hsub]
    | true =>
      have hruns := spawned_running res i (h₁.cancelWhere i (stale (h₁.subs i).spec res)) (res.runningList.map Prod.fst)
      have hold := hruns.tails t hlt
      rw [converge, hold, tails_cancelWhere hi₁]
      split_ifs <;> exact hsub
  refine ⟨fun key hhost => ?_, fun key t ht hst => ?_, fun key t ht hlt => ?_, fun key t ht hle => ?_, fun key t ht hst => ?_,
    fun key t ht hst => ?_⟩
  · rw [hsub₂, ← hsub₁]
    exact hc.exact key hhost
  · rw [hsub₂]
    rw [← hsub₁] at ht hst
    exact hc.kept key t ht hst
  · rw [hsub₂] at ht
    rw [← hsub₁]
    exact hc.old key t ht (hlt.trans_le hnext₁)
  · rw [hsub₂] at ht
    rcases lt_or_ge t h₁.next with hlt | hge
    · have hold := (hc.old key t ht hlt).1
      rw [hsub₁] at hold
      exact absurd (hi.entry i key t hold).2.1 (not_lt.2 hle)
    · obtain ⟨-, hlt, hsub, -⟩ := hi₂.entry i key t ht
      obtain ⟨hhost, hrun⟩ := hc.new key t ht hge
      rw [htail₂ t hlt hsub]
      exact ⟨hhost, hrun⟩
  · rw [← hsub₁] at ht hst
    rw [hback key t ht, hc.tails key t ht hst]
    exact htail₁ key t ht
  · rw [← hsub₁] at ht hst
    rw [hback key t ht]
    exact hc.gone key t ht hst

/-! ## Tails over a run -/

/-- the listing the loop handles in a step, and the number of events there had been when it was taken -/
def handled (h : Hub) : HubAct → Option (ListResult × ℕ)
  | .handleList _ => if h.stopped then none else h.listing
  | _ => none

/-- tails and subscriptions are numbered once: a number keeps its container, its name and labels, and a subscription its
spec; a cancelled tail stays so, and a new one has a name and labels that `tells` gives it -/
structure Keeps (tells : ContainerKey → ContainerMeta → Prop) (h h' : Hub) : Prop where
  next : h.next ≤ h'.next
  nextSub : h.nextSub ≤ h'.nextSub
  sub : ∀ t < h.next, (h'.tails t).sub = (h.tails t).sub
  key : ∀ t < h.next, (h'.tails t).key = (h.tails t).key
  info : ∀ t < h.next, (h'.tails t).info = (h.tails t).info
  cancelled : ∀ t < h.next, (h.tails t).cancelled = true → (h'.tails t).cancelled = true
  spec : ∀ i < h.nextSub, (h'.subs i).spec = (h.subs i).spec
  new : ∀ t, h.next ≤ t → t < h'.next → tells (h'.tails t).key (h'.tails t).info

section Keeps

variable {tells : ContainerKey → ContainerMeta → Prop}

theorem Keeps.refl (h : Hub) : Keeps tells h h :=
  ⟨le_rfl, le_rfl, fun _ _ => rfl, fun _ _ => rfl, fun _ _ => rfl, fun _ _ hc => hc, fun _ _ => rfl,
    fun _ hle hlt => absurd hlt (not_lt.2 hle)⟩

theorem Keeps.trans {h₁ h₂ h₃ : Hub} (h₁₂ : Keeps tells h₁ h₂) (h₂₃ : Keeps tells h₂ h₃) : Keeps tells h₁ h₃ where
  next := h₁₂.next.trans h₂₃.next
  nextSub := h₁₂.nextSub.trans h₂₃.nextSub
  sub := fun t ht => (h₂₃.sub t (ht.trans_le h₁₂.next)).trans (h₁₂.sub t ht)
  key := fun t ht => (h₂₃.key t (ht.trans_le h₁₂.next)).trans (h₁₂.key t ht)
  info := fun t ht => (h₂₃.info t (ht.trans_le h₁₂.next)).trans (h₁₂.info t ht)
  cancelled := fun t ht hc => h₂₃.cancelled t (ht.trans_le h₁₂.next) (h₁₂.cancelled t ht hc)
  spec := fun i hi => (h₂₃.spec i (hi.trans_le h₁₂.nextSub)).trans (h₁₂.spec i hi)
  new := fun t hle hlt => by
    rcases lt_or_ge t h₂.next with ht | ht
    · rw [h₂₃.key t ht, h₂₃.info t ht]
      exact h₁₂.new t hle ht
    · exact h₂₃.new t ht hlt

/-- a step that makes no tail -/
theorem keeps_of_tails {h h' : Hub} (hnext : h'.next = h.next) (hnextSub : h.nextSub ≤ h'.nextSub)
    (htails : ∀ t, (h'.tails t).sub = (h.tails t).sub ∧ (h'.tails t).key = (h.tails t).key ∧
      (h'.tails t).info = (h.tails t).info ∧ ((h.tails t).cancelled = true → (h'.tails t).cancelled = true))
    (hspec : ∀ i < h.nextSub, (h'.subs i).spec = (h.subs i).spec) : Keeps tells h h' :=
  ⟨hnext.ge, hnextSub, fun t _ => (htails t).1, fun t _ => (htails t).2.1, fun t _ => (htails t).2.2.1,
    fun t _ => (htails t).2.2.2, hspec, fun _ hle hlt => absurd hlt (not_lt.2 (hnext.le.trans hle))⟩

theorem keeps_cancel (h : Hub) (i : ℕ) (p : ContainerKey → Bool) : Keeps tells h (h.cancelWhere i p) := by
  refine keeps_of_tails rfl le_rfl (fun t => ?_) fun j _ => ?_
  · simp only [cancelWhere]
    split_ifs
    · exact ⟨rfl, rfl, rfl, fun _ => rfl⟩
    · exact ⟨rfl, rfl, rfl, fun hc => hc⟩
  · rw [subs_cancelWhere]
    split_ifs with e
    · rw [e]
    · rfl

theorem keeps_ensure (h : Hub) (i : ℕ) {key : ContainerKey} {info : ContainerMeta} (htells : tells key info) :
    Keeps tells h (h.ensureTail i key info) := by
  unfold ensureTail
  split_ifs
  · exact Keeps.refl h
  · have hold : ∀ t < h.next, (h.spawnTail i key info).tails t = h.tails t := by
      intro t ht
      simp [spawnTail, ht.ne]
    refine ⟨Nat.le_succ _, le_rfl, fun t ht => ?_, fun t ht => ?_, fun t ht => ?_, fun t ht hc => ?_, fun j _ => ?_,
      fun t hle hlt => ?_⟩
    · rw [hold t ht]
    · rw [hold t ht]
    · rw [hold t ht]
    · rwa [hold t ht]
    · by_cases e : j = i
      · subst e
        simp [spawnTail]
      · simp [spawnTail, e]
    · obtain rfl : t = h.next := le_antisymm (Nat.lt_succ_iff.1 hlt) hle
      simpa [spawnTail] using htells
  · exact Keeps.refl h

theorem keeps_forSubs {f : Hub → ℕ → Hub} (hf : ∀ h i, Keeps tells h (f h i)) (h : Hub) :
    Keeps tells h (h.forSubs f) := by
  have aux : ∀ is : List ℕ, ∀ h : Hub,
      Keeps tells h (is.foldl (fun h i => if (h.subs i).registered then f h i else h) h) := by
    intro is
    induction is with
    | nil => exact Keeps.refl
    | cons j is ih =>
      intro h
      rw [List.foldl_cons]
      split_ifs
      · exact (hf h j).trans (ih _)
      · exact ih h
  exact aux _ h

theorem keeps_converge {res : ListResult} (htells : ∀ key info, res.running key = some info → tells key info) (h : Hub)
    (i : ℕ) : Keeps tells h (converge res h i) :=
  spawnRunning_induction (P := Keeps tells h)
    (fun h' key info hk hrun => hk.trans (keeps_ensure h' i (htells key info hrun))) (keeps_cancel h i _) _

theorem keeps_of_eq {h h' : Hub} (hnext : h'.next = h.next) (hnextSub : h'.nextSub = h.nextSub)
    (htails : h'.tails = h.tails) (hsubs : h'.subs = h.subs) : Keeps tells h h' := by
  refine keeps_of_tails hnext hnextSub.ge (fun t => ?_) fun i _ => ?_
  · rw [htails]
    exact ⟨rfl, rfl, rfl, fun hc => hc⟩
  · rw [hsubs]

theorem keeps_requestList (h : Hub) : Keeps tells h h.requestList := by
  unfold requestList
  split_ifs <;> exact keeps_of_eq rfl rfl rfl rfl

theorem keeps_handleEvent (h : Hub) (ev : EngineEvent)
    (htells : ev.base = "start" → tells ev.key ⟨trimSlash ev.containerName, ev.labels⟩) :
    Keeps tells h (h.handleEvent ev) := by
  have hcancel : Keeps tells h (h.cancelTails ev.key) := keeps_forSubs (fun h i => keeps_cancel h i _) h
  unfold handleEvent
  split_ifs with hstart
  · exact keeps_forSubs (fun h i => keeps_ensure h i (htells hstart)) h
  · exact hcancel
  · exact hcancel.trans (keeps_requestList _)
  · exact Keeps.refl h

theorem keeps_handleList (h : Hub) {res : ListResult} (swapped : Bool)
    (htells : ∀ key info, res.running key = some info → tells key info) : Keeps tells h (h.handleList res swapped) := by
  have hopen : Keeps tells h ({ h with listInFlight := false, listing := none }.reopenEvents swapped) := by
    unfold reopenEvents
    split_ifs <;> exact keeps_of_eq rfl rfl rfl rfl
  have hfollow : ∀ h : Hub, Keeps tells h h.followUp := by
    intro h
    unfold followUp
    split_ifs
    · have hq : Keeps tells h { h with listQueued := false } := keeps_of_eq rfl rfl rfl rfl
      exact hq.trans (keeps_requestList _)
    · exact Keeps.refl h
  unfold handleList
  refine Keeps.trans ?_ (hfollow _)
  split_ifs
  · exact hopen
  · exact hopen.trans (keeps_forSubs (keeps_converge htells) _)

/-- a tail that has returned, or whose exit is handled, is the same tail -/
theorem keeps_tail (h : Hub) (t : ℕ) {c : Bool} (hc : (h.tails t).cancelled = true → c = true) (ph : TailPhase) :
    Keeps tells h { h with tails := Function.update h.tails t { h.tails t with cancelled := c, phase := ph } } := by
  refine keeps_of_tails rfl le_rfl (fun t' => ?_) fun _ _ => rfl
  simp only [Function.update_apply]
  split_ifs with e
  · subst e
    exact ⟨rfl, rfl, rfl, hc⟩
  · exact ⟨rfl, rfl, rfl, fun hc => hc⟩

theorem keeps_sub (h : Hub) (i : ℕ) (r : Bool) (tails : List (ContainerKey × ℕ)) :
    Keeps tells h { h with subs := Function.update h.subs i { h.subs i with registered := r, tails := tails } } := by
  refine keeps_of_tails rfl le_rfl (fun _ => ⟨rfl, rfl, rfl, fun hc => hc⟩) fun j _ => ?_
  simp only [Function.update_apply]
  split_ifs with e
  · rw [e]
  · rfl

end Keeps

/-- the name and labels that the message handled in a step gives a container -/
def Told (h : Hub) (a : HubAct) (key : ContainerKey) (info : ContainerMeta) : Prop :=
  (∃ host ev e rest, a = .handleEvent host ∧ nextEvent host h.events = some ((ev, e), rest) ∧ ev.base = "start" ∧
    key = ev.key ∧ info = ⟨trimSlash ev.containerName, ev.labels⟩) ∨
  ∃ swapped res stamp, a = .handleList swapped ∧ h.listing = some (res, stamp) ∧ res.running key = some info

theorem react_keeps (h : Hub) (a : HubAct) : Keeps (Told h a) h (h.react a) := by
  cases a with
  | subscribe spec =>
    refine Keeps.trans ?_ (keeps_requestList _)
    refine keeps_of_tails rfl (Nat.le_succ _) (fun _ => ⟨rfl, rfl, rfl, fun hc => hc⟩) fun i hi => ?_
    simp only [Function.update_apply, if_neg hi.ne]
  | removeSub i =>
    simp only [react, removeSub]
    split_ifs
    · exact (keeps_sub h i false (h.subs i).tails).trans (keeps_cancel _ i _)
    · exact Keeps.refl h
  | reconcile => exact keeps_requestList h
  | handleEvent host =>
    simp only [react]
    split
    · rename_i ev e rest hev
      have hq : Keeps (Told h (.handleEvent host)) h { h with events := rest } := keeps_of_eq rfl rfl rfl rfl
      refine hq.trans (keeps_handleEvent _ ev fun hstart => ?_)
      exact Or.inl ⟨host, ev, e, rest, rfl, hev, hstart, rfl, rfl⟩
    · exact Keeps.refl h
  | eventsClosed =>
    refine Keeps.trans ?_ (keeps_requestList _)
    exact keeps_of_eq rfl rfl rfl rfl
  | takeList res =>
    simp only [react]
    split_ifs <;> exact keeps_of_eq rfl rfl rfl rfl
  | handleList swapped =>
    simp only [react]
    split
    · rename_i res stamp hlisting
      exact keeps_handleList h swapped fun key info hrun => Or.inr ⟨swapped, res, stamp, rfl, hlisting, hrun⟩
    · exact Keeps.refl h
  | handleTailExit t =>
    simp only [react, handleTailExit]
    split_ifs
    · exact (keeps_tail h t (fun _ => rfl) .gone).trans
        (keeps_sub _ (h.tails t).sub (h.subs (h.tails t).sub).registered _)
    · exact keeps_tail h t (fun _ => rfl) .gone
    · exact Keeps.refl h
  | shutdown =>
    refine Keeps.trans ?_ (keeps_forSubs (fun h i => keeps_cancel h i _) _)
    exact keeps_of_eq rfl rfl rfl rfl
  | engine ev seen => exact Keeps.refl h
  | tailEnds t => exact Keeps.refl h

/-- **What a step does to the tails.** -/
theorem step_keeps (h : Hub) (a : HubAct) : Keeps (Told h a) h (h.step a) := by
  cases a with
  | engine ev seen => exact keeps_of_eq rfl rfl rfl rfl
  | tailEnds t =>
    simp only [step]
    split_ifs
    · exact keeps_tail h t (fun hc => hc) .exiting
    · exact Keeps.refl h
  | _ =>
    simp only [step]
    split_ifs
    · exact Keeps.refl h
    · exact react_keeps h _

theorem nextSub_handleEvent (h : Hub) (host : String) : (h.step (.handleEvent host)).nextSub = h.nextSub := by
  have hcancel : ∀ (h : Hub) (key : ContainerKey), (h.cancelTails key).nextSub = h.nextSub :=
    fun h key => forSubs_nextSub (local_cancelTails key) h
  simp only [step, react]
  split_ifs
  · rfl
  · split
    · unfold handleEvent
      split_ifs
      · exact forSubs_nextSub (local_ensure _ _) _
      · exact hcancel _ _
      · unfold requestList
        split_ifs <;> exact hcancel _ _
      · rfl
    · rfl

/-! ## Starts -/

theorem handled_cases {a : HubAct} {res : ListResult} {stamp : ℕ} (ha : h.handled a = some (res, stamp)) :
    ∃ swapped, a = .handleList swapped ∧ h.step a = h.handleList res swapped := by
  cases a with
  | handleList swapped =>
    simp only [handled] at ha
    split_ifs at ha with hstop
    refine ⟨swapped, rfl, ?_⟩
    simp only [step, react, if_neg hstop, ha]
  | _ => cases ha

/-- **What a listing does to a tail.** It cancels it unless its host failed, or its container is listed as running, under
a name and labels that match. -/
theorem spares_tail_iff (hi : Inv h) {a : HubAct} {res : ListResult} {stamp : ℕ} (ha : h.handled a = some (res, stamp))
    {t : ℕ} (hc : (h.tails t).cancelled = false) :
    ((h.step a).tails t).cancelled = false ↔
      (res.covers (h.tails t).key.host = true → selects (h.subs (h.tails t).sub).spec res (h.tails t).key = true) := by
  obtain ⟨swapped, rfl, hstep⟩ := handled_cases ha
  rw [hstep]
  have hmem := hi.owned t hc
  have hr := (hi.entry _ _ _ hmem).1
  cases herr : res.err with
  | true =>
    rw [(handleList_err h herr swapped).2]
    simp [hc, ListResult.covers, herr]
  | false =>
    have hspec := handleList_spec hi herr swapped hr
    have hcovers : res.covers (h.tails t).key.host = decide ((h.tails t).key.host ∈ res.listedHosts) := by
      simp [ListResult.covers, herr]
    cases hst : stale (h.subs (h.tails t).sub).spec res (h.tails t).key with
    | true =>
      rw [hspec.gone _ t hmem hst, hcovers]
      simpa [stale] using hst
    | false =>
      rw [hspec.tails _ t hmem hst, hcovers]
      simpa [hc, stale] using hst

/-- `t` is the tail that the start at the head of the host's events spawns for a subscription -/
structure StartSpawns (h : Hub) (host : String) (ev : EngineEvent) (e i t : ℕ) : Prop where
  head : ∃ rest, nextEvent host h.events = some ((ev, e), rest)
  start : ev.base = "start"
  new : (ev.key, t) ∉ (h.subs i).tails
  tail : (ev.key, t) ∈ ((h.step (.handleEvent host)).subs i).tails

/-- a listing taken after event `e` reports the container running, unless its host failed -/
def ReportsRunning (key : ContainerKey) (e : ℕ) (h : Hub) (a : HubAct) : Prop :=
  ∀ res stamp, h.handled a = some (res, stamp) → e < stamp → res.covers key.host = true → (res.running key).isSome

/-- a listing does not cancel the tail -/
def Spares (t : ℕ) (h : Hub) (a : HubAct) : Prop :=
  ∀ res stamp, h.handled a = some (res, stamp) → (h.tails t).cancelled = false → ((h.step a).tails t).cancelled = false

/-- a listing handled while the tail is there, and that does not fail on its host: if it was taken before event `e`, it
has the container running all the same; and it has it under no name and labels that no longer match -/
def NoneStale (spec : ContainerSpec) (key : ContainerKey) (e t : ℕ) (h : Hub) (a : HubAct) : Prop :=
  ∀ res stamp, h.handled a = some (res, stamp) → (h.tails t).cancelled = false → res.covers key.host = true →
    (stamp ≤ e → (res.running key).isSome) ∧
      ∀ info, res.running key = some info → spec.matches key.host info.name info.labels = true

/-- what is known of a tail for good -/
structure Serves (spec : ContainerSpec) (key : ContainerKey) (i t : ℕ) (h : Hub) : Prop where
  inv : Inv h
  made : t < h.next
  sub : (h.tails t).sub = i
  key : (h.tails t).key = key
  old : i < h.nextSub
  spec : (h.subs i).spec = spec

theorem step_serves {spec : ContainerSpec} {key : ContainerKey} {i t : ℕ} (h : Hub) (a : HubAct)
    (hs : Serves spec key i t h) : Serves spec key i t (h.step a) := by
  have hk := step_keeps h a
  exact
    { inv := step_inv h a hs.inv
      made := hs.made.trans_le hk.next
      sub := (hk.sub t hs.made).trans hs.sub
      key := (hk.key t hs.made).trans hs.key
      old := hs.old.trans_le hk.nextSub
      spec := (hk.spec i hs.old).trans hs.spec }

theorem StartSpawns.serves (hi : Inv h) {host : String} {ev : EngineEvent} {e i t : ℕ} (hs : StartSpawns h host ev e i t) :
    Serves (h.subs i).spec ev.key i t (h.step (.handleEvent host)) := by
  have hi' := step_inv h (.handleEvent host) hi
  obtain ⟨hreg, hlt, hsub, hkey, -⟩ := hi'.entry i ev.key t hs.tail
  have hk := step_keeps h (.handleEvent host)
  have hold' : i < (h.step (.handleEvent host)).nextSub := by
    by_contra hge
    rw [hi'.later i (not_lt.1 hge)] at hreg
    cases hreg
  have hnextSub : (h.step (.handleEvent host)).nextSub = h.nextSub := nextSub_handleEvent h host
  have hold : i < h.nextSub := hnextSub ▸ hold'
  exact ⟨hi', hlt, hsub, hkey, hold', hk.spec i hold⟩

theorem spares_iff {spec : ContainerSpec} {key : ContainerKey} {e i t : ℕ} (hs : Serves spec key i t h) {a : HubAct}
    (hruns : ReportsRunning key e h a) : Spares t h a ↔ NoneStale spec key e t h a := by
  constructor
  · intro hsp res stamp ha hc hcov
    have hsel := (spares_tail_iff hs.inv ha hc).1 (hsp res stamp ha hc)
    rw [hs.sub, hs.key, hs.spec] at hsel
    obtain ⟨info, hrun, hmatch⟩ := selects_iff.1 (hsel hcov)
    refine ⟨fun _ => by rw [hrun]; rfl, fun info' hrun' => ?_⟩
    obtain rfl := Option.some.inj (hrun.symm.trans hrun')
    exact hmatch
  · intro hnone res stamp ha hc
    apply (spares_tail_iff hs.inv ha hc).2
    rw [hs.sub, hs.key, hs.spec]
    intro hcov
    obtain ⟨hbefore, hmatch⟩ := hnone res stamp ha hc hcov
    have hsome : (res.running key).isSome := by
      rcases lt_or_ge e stamp with hlt | hle
      · exact hruns res stamp ha hlt hcov
      · exact hbefore hle
    obtain ⟨info, hrun⟩ := Option.isSome_iff_exists.1 hsome
    exact selects_iff.2 ⟨info, hrun, hmatch info hrun⟩

/-- **A start survives the listings.** The loop has handled a start; in what follows, every listing taken after that start
reports the container running. Then no listing cancels the tail the start spawned, if and only if none of those handled
while the tail is there and taken before the start lacks the container, and none has it under a name and labels that no
longer match. -/
theorem start_survives_iff (acts later : List HubAct) (host : String) (ev : EngineEvent) (e i t : ℕ)
    (hs : StartSpawns (run step init acts) host ev e i t)
    (hruns : Each step (ReportsRunning ev.key e) ((run step init acts).step (.handleEvent host)) later) :
    Each step (Spares t) ((run step init acts).step (.handleEvent host)) later ↔
      Each step (NoneStale ((run step init acts).subs i).spec ev.key e t)
        ((run step init acts).step (.handleEvent host)) later := by
  have hi : Inv (run step init acts) := run_preserves step_inv inv_init acts
  exact each_iff_given step_serves (fun h a hs hr => spares_iff hs hr) (hs.serves hi) hruns

/-! ## The example: a container, listed before it starts -/

def allContainers : ContainerSpec := ⟨[], [], []⟩

def webStart : EngineEvent := ⟨"h", "c", "/web", "start", []⟩

def webRunning : ListResult := ⟨[("h", [⟨"c", ["/web"], "running", []⟩])], [], false⟩

def nothingRunning : ListResult := ⟨[("h", [])], [], false⟩

/-- a subscription asks for a listing; the container starts, before or after the listing is taken -/
def webStarts (early : List HubAct) : List HubAct := .subscribe allContainers :: early ++ [.engine webStart true]

theorem start_survives_fresh :
    Each step (Spares 0) ((run step init (webStarts [])).step (.handleEvent "h"))
      [.takeList webRunning, .handleList false] := by
  have hs : StartSpawns (run step init (webStarts [])) "h" webStart 0 0 0 :=
    { head := ⟨[], rfl⟩, start := rfl, new := by decide, tail := by decide }
  refine (start_survives_iff _ _ _ _ _ _ _ hs ?_).2 ?_
  · refine ⟨fun _ _ ha => (by cases ha), fun res stamp ha _ _ => ?_, trivial⟩
    cases ha
    decide
  · refine ⟨fun _ _ ha => (by cases ha), fun res stamp ha _ _ => ?_, trivial⟩
    cases ha
    refine ⟨fun _ => by decide, fun info hrun => ?_⟩
    cases hrun
    decide

/-- the listing is taken, the container starts, the start is handled, and then the listing -/
theorem stale_listing_undoes_start :
    ¬ ∀ (acts later : List HubAct) (host : String) (ev : EngineEvent) (e i t : ℕ),
      StartSpawns (run step init acts) host ev e i t →
      Each step (ReportsRunning ev.key e) ((run step init acts).step (.handleEvent host)) later →
      Each step (Spares t) ((run step init acts).step (.handleEvent host)) later := by
  intro hall
  have hs : StartSpawns (run step init (webStarts [.takeList nothingRunning])) "h" webStart 0 0 0 :=
    { head := ⟨[], rfl⟩, start := rfl, new := by decide, tail := by decide }
  have hruns : Each step (ReportsRunning webStart.key 0)
      ((run step init (webStarts [.takeList nothingRunning])).step (.handleEvent "h")) [.handleList false] := by
    refine ⟨fun res stamp ha hlt _ => ?_, trivial⟩
    cases ha
    cases hlt
  have hspares := (hall _ _ _ _ _ _ _ hs hruns).1 nothingRunning 0 rfl rfl
  revert hspares
  decide

end Hub

end LogDeck.HubLoop
