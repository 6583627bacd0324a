/-
Which generations a sync pass marks as removed (`sync.go`: `sync`, `upsertMeta`, `markRemoved`), against the writer.

A pass lists the engines, host by host; a host may fail, and one that is no longer configured appears in neither the
listing nor the errors. It upserts the listed containers, reads the stored generations that the listing does not have,
and stamps them one UPDATE at a time. The listing is from before all of this. The writer, the purge and the sweep commit
in between, and a live line of a container that is younger than the listing creates its row.

Ghosts: `created` has the containers that exist or have existed, `unreported` those that a listing taken after their
creation did not report, and a pass remembers which containers existed when their host was listed (`existing`). A
container whose line is committed, or which is listed, has been created by then.

Results:
- `write_rows`: the other writers stamp no row;
- `step_inv`: what the ghosts of a pass know, and that no container that every listing reports is stamped;
- `stamps_iff`: over every run, no such container is ever stamped, if and only if every generation stamped existed when
  the listing of the pass was taken;
- `young_container_is_stamped`: a container that starts while a pass is under way.
-/
import LogDeck.LogStore.Runs

namespace LogDeck.Removal

open LogDeck.LogStore Machine

/-! ## Model -/

/-- where a pass stands: listing the hosts, upserting what they listed, stamping what is gone -/
inductive Stage where
  | listing
  | upserting (nowMS : ℤ) (todo : List (GenKey × ContainerInfo))
  | stamping (nowMS : ℤ) (todo : List GenKey)
deriving DecidableEq, Repr

structure Pass where
  snapshot : List (String × List ContainerInfo)
  failed : List String
  stage : Stage
  existing : List GenKey
deriving DecidableEq, Repr

/-- the listed containers -/
def Pass.listed (p : Pass) : List (GenKey × ContainerInfo) :=
  p.snapshot.flatMap fun (host, containers) => containers.map fun info => (⟨host, info.id⟩, info)

def Pass.live (p : Pass) : List GenKey := p.listed.map Prod.fst

structure World where
  store : Store
  created : List GenKey
  unreported : List GenKey
  pass : Option Pass

/-- a transaction of another actor of the store -/
inductive Write where
  | commit (batch : List IngestMsg) (nowMS : ℤ)
  | commitFails
  | deleteContainer (host name : String) (committed : Bool)
  | evictOldest (refs : List ℕ) (excess : ℤ)
  | pruneEmptyGenerations
deriving DecidableEq, Repr

def Write.op : Write → Op
  | .commit batch nowMS => .commit batch nowMS
  | .commitFails => .commitFails
  | .deleteContainer host name committed => .deleteContainer host name committed
  | .evictOldest refs excess => .evictOldest refs excess
  | .pruneEmptyGenerations => .pruneEmptyGenerations

/-- the generations whose lines it commits -/
def Write.keys : Write → List GenKey
  | .commit batch _ => batch.map fun m => m.key
  | _ => []

inductive Act where
  | create (key : GenKey)
  | write (w : Write)
  | beginPass
  /-- a host answers the listing; `none` when it fails -/
  | listHost (host : String) (containers : Option (List ContainerInfo))
  /-- the listing is complete -/
  | listed (nowMS : ℤ)
  /-- the next upsert; `ok = false` when its statement fails -/
  | upsert (ok : Bool)
  /-- markRemoved reads the generations that are gone -/
  | select
  /-- the next stamp; `ok = false` when its statement fails, which ends the pass -/
  | stamp (ok : Bool)
  /-- the pass ends early: it is cancelled, or the listing or a query fails -/
  | abandon
  | restart
deriving DecidableEq, Repr

namespace World

def init : World := ⟨.init, [], [], none⟩

def commitWrite (w : World) (o : Write) : World :=
  { w with store := step w.store o.op, created := w.created ++ o.keys }

/-- the containers on a host that a listing does not have -/
def missing (w : World) (host : String) (containers : List ContainerInfo) : List GenKey :=
  w.created.filter fun key => key.host = host ∧ key ∉ containers.map fun info => ⟨host, info.id⟩

def listHost (w : World) (p : Pass) (host : String) : Option (List ContainerInfo) → World
  | some containers =>
    { w with created := w.created ++ containers.map fun info => ⟨host, info.id⟩
             unreported := w.unreported ++ w.missing host containers
             pass := some { p with snapshot := p.snapshot ++ [(host, containers)]
                                   existing := p.existing ++ w.created.filter fun key => key.host = host } }
  | none => { w with pass := some { p with failed := p.failed ++ [host] } }

/-- a host that has not answered by now is not configured -/
def unconfigured (w : World) (p : Pass) : List GenKey :=
  w.created.filter fun key => key.host ∉ p.snapshot.map Prod.fst ∧ key.host ∉ p.failed

def listed (w : World) (p : Pass) (nowMS : ℤ) : World :=
  { w with unreported := w.unreported ++ w.unconfigured p
           pass := some { p with stage := .upserting nowMS p.listed, existing := p.existing ++ w.unconfigured p } }

def upsert (w : World) (p : Pass) (ok : Bool) : World :=
  match p.stage with
  | .upserting nowMS ((key, info) :: rest) =>
    { w with store := if ok then step w.store (.upsertMeta key info nowMS) else w.store
             pass := some { p with stage := .upserting nowMS rest } }
  | _ => w

def select (w : World) (p : Pass) : World :=
  match p.stage with
  | .upserting nowMS [] =>
    { w with pass := some { p with stage := .stamping nowMS (goneKeys w.store.db p.failed p.live) } }
  | _ => w

def stamp (w : World) (p : Pass) (ok : Bool) : World :=
  match p.stage with
  | .stamping nowMS (key :: rest) =>
    if ok then
      { w with store := step w.store (.stampRemoved key nowMS)
               pass := some { p with stage := .stamping nowMS rest } }
    else { w with pass := none }
  | .stamping _ [] => { w with pass := none }
  | _ => w

/-- the pass under way, if there is one -/
def inPass (w : World) (f : Pass → World) : World :=
  match w.pass with
  | some p => f p
  | none => w

def step (w : World) : Act → World
  | .create key => { w with created := w.created ++ [key] }
  | .write o => w.commitWrite o
  | .beginPass => if w.pass = none then { w with pass := some ⟨[], [], .listing, []⟩ } else w
  | .listHost host containers => w.inPass fun p =>
      if p.stage = .listing ∧ host ∉ p.snapshot.map Prod.fst ∧ host ∉ p.failed then w.listHost p host containers else w
  | .listed nowMS => w.inPass fun p => if p.stage = .listing then w.listed p nowMS else w
  | .upsert ok => w.inPass fun p => w.upsert p ok
  | .select => w.inPass fun p => w.select p
  | .stamp ok => w.inPass fun p => w.stamp p ok
  | .abandon => { w with pass := none }
  | .restart => { w with store := ⟨w.store.db, fun _ => none, []⟩, pass := none }

end World

/-- a container that every listing taken since it was created has reported is not marked as removed -/
def Unstamped (w : World) : Prop :=
  ∀ c ∈ w.store.db.containers, c.key ∈ w.created → c.key ∉ w.unreported → c.removedMS = none

/-- the generation that is stamped existed when the listing of the pass was taken, or has no row any more -/
def StampsOld (w : World) (a : Act) : Prop :=
  ∀ p nowMS key rest, a = .stamp true → w.pass = some p → p.stage = .stamping nowMS (key :: rest) →
    key ∈ p.existing ∨ ∀ c ∈ w.store.db.containers, c.key ≠ key

/-! ## The other writers -/

/-- no row is stamped: every row is an old one or one for a key, and marked as removed only if it was -/
def Rows (old : List ContainerRow) (keys : List GenKey) (db : DB) : Prop :=
  ∀ c ∈ db.containers, (c.key ∈ keys ∨ ∃ c₀ ∈ old, c₀.key = c.key) ∧
    (c.removedMS = none ∨ ∃ c₀ ∈ old, c₀.key = c.key ∧ c₀.removedMS = c.removedMS)

theorem rows_refl (db : DB) (keys : List GenKey) : Rows db.containers keys db :=
  fun c hc => ⟨Or.inr ⟨c, hc, rfl⟩, Or.inr ⟨c, hc, rfl, rfl⟩⟩

section Rows

variable {old : List ContainerRow} {keys : List GenKey} {db : DB} (h : Rows old keys db)

include h

theorem Rows.updateWhere (p : ContainerRow → Prop) [DecidablePred p] (f : ContainerRow → ContainerRow)
    (hf : ∀ c, (f c).key = c.key ∧ ((f c).removedMS = none ∨ (f c).removedMS = c.removedMS)) :
    Rows old keys (db.updateWhere p f) := by
  intro c hc
  obtain ⟨c₀, h₀, rfl⟩ := mem_updateWhere.1 hc
  obtain ⟨hkey, hrem⟩ := h c₀ h₀
  split_ifs
  · obtain ⟨hk, hnone | hsame⟩ := hf c₀
    · rw [hk]
      exact ⟨hkey, Or.inl hnone⟩
    · rw [hk, hsame]
      exact ⟨hkey, hrem⟩
  · exact ⟨hkey, hrem⟩

theorem Rows.insert {c : ContainerRow} (hk : c.key ∈ keys) (hrem : c.removedMS = none) :
    Rows old keys { db with containers := db.containers ++ [c] } := by
  intro c' hc'
  rcases List.mem_append.1 hc' with hc' | hc'
  · exact h c' hc'
  · obtain rfl := List.mem_singleton.1 hc'
    exact ⟨Or.inl hk, Or.inl hrem⟩

theorem Rows.subset {db' : DB} (hsub : db'.containers ⊆ db.containers) : Rows old keys db' := fun c hc => h c (hsub hc)

theorem rows_upsertGeneration {key : GenKey} (hk : key ∈ keys) (name project : String) (nowMS : ℤ) :
    Rows old keys (upsertGeneration db key name project nowMS).1 := by
  unfold upsertGeneration
  cases db.find key with
  | some c => exact h.updateWhere _ _ fun _ => ⟨rfl, Or.inr rfl⟩
  | none => exact h.insert hk rfl

theorem rows_upsertMeta {key : GenKey} (hk : key ∈ keys) (info : ContainerInfo) (nowMS : ℤ) :
    Rows old keys (upsertMeta db key info nowMS) := by
  unfold upsertMeta
  cases db.find key with
  | some c => exact h.updateWhere _ _ fun _ => ⟨rfl, Or.inl rfl⟩
  | none => exact h.insert hk rfl

end Rows

theorem rows_storeLine {old : List ContainerRow} {keys : List GenKey} {db : DB} (h : Rows old keys db) (ref : ℕ)
    (l : Line) (origin : GenKey) (nowMS : ℤ) : Rows old keys (storeLine db ref l origin nowMS) := by
  have hadd : Rows old keys (db.addLine ref l origin) := h
  exact hadd.updateWhere _ _ fun _ => ⟨rfl, Or.inr rfl⟩

theorem rows_commit {db db' : DB} {refs refs' : Refs} {batch : List IngestMsg} {nowMS : ℤ} {keys : List GenKey}
    (hk : ∀ m ∈ batch, m.key ∈ keys) (hc : commit db refs batch nowMS = .ok (db', refs')) :
    Rows db.containers keys db' := by
  obtain ⟨_, hI, -⟩ := commit_induction (I := fun d _ => Rows db.containers keys d)
    (fun _ _ m hm hd _ _ => rows_upsertGeneration hd (hk m hm) _ _ _)
    (fun _ _ _ _ _ hd => hd.updateWhere _ _ fun _ => ⟨rfl, Or.inr rfl⟩)
    (fun _ _ ref l m _ hd _ _ _ _ => rows_storeLine hd ref l m.key nowMS)
    (rows_refl _ _) hc
  exact hI

/-- **The other writers stamp no row**, and make none but for the keys they commit. -/
theorem write_rows (s : Store) (o : Write) : Rows s.db.containers o.keys (step s o.op).db := by
  cases o with
  | commit batch nowMS =>
    simp only [Write.op, step, Store.commitStep, Store.tryCommit]
    cases hc : commit s.dropInvalidated.db s.dropInvalidated.refs batch nowMS with
    | ok q => exact rows_commit (fun m hm => List.mem_map_of_mem hm) hc
    | error e => exact rows_refl s.db _
  | commitFails => exact rows_refl s.db _
  | deleteContainer host name committed =>
    simp only [Write.op, step, Store.deleteContainerStep, deleteContainer]
    cases generationsOf s.db host name with
    | nil => exact rows_refl s.db _
    | cons c cs =>
      cases committed
      · exact rows_refl s.db _
      · exact (rows_refl s.db _).subset fun c hc => (List.mem_filter.1 hc).1
  | evictOldest refs excess =>
    intro c hc
    obtain ⟨c₀, h₀, rfl⟩ := List.mem_map.1 hc
    split_ifs
    · exact ⟨Or.inr ⟨c₀, h₀, rfl⟩, Or.inr ⟨c₀, h₀, rfl, rfl⟩⟩
    · exact ⟨Or.inr ⟨c₀, h₀, rfl⟩, Or.inr ⟨c₀, h₀, rfl, rfl⟩⟩
  | pruneEmptyGenerations => exact (rows_refl s.db _).subset fun c hc => (List.mem_filter.1 hc).1

/-! ## What a pass knows -/

/-- the listing of the pass has an answer for the container's host, or the host is not configured -/
def Pass.Covers (p : Pass) (key : GenKey) : Prop :=
  key.host ∈ p.snapshot.map Prod.fst ∨ (p.stage ≠ .listing ∧ key.host ∉ p.failed)

structure PassInv (created unreported : List GenKey) (p : Pass) : Prop where
  listed : ∀ key ∈ p.live, key ∈ created
  old : ∀ key, p.Covers key → key ∈ unreported → key ∈ p.existing
  told : ∀ key ∈ p.existing, key ∉ p.live → key ∈ unreported
  hosts : ∀ key ∈ p.existing, key.host ∈ p.snapshot.map Prod.fst ∨ p.stage ≠ .listing
  todo : ∀ nowMS todo, p.stage = .upserting nowMS todo → ∀ e ∈ todo, e.1 ∈ p.live
  gone : ∀ nowMS todo, p.stage = .stamping nowMS todo → ∀ key ∈ todo, key ∉ p.live ∧ key.host ∉ p.failed

structure Inv (w : World) : Prop where
  unstamped : Unstamped w
  rows : ∀ c ∈ w.store.db.containers, c.key ∈ w.created
  seen : ∀ key ∈ w.unreported, key ∈ w.created
  pass : ∀ p, w.pass = some p → PassInv w.created w.unreported p

theorem inv_init : Inv .init where
  unstamped := fun _ hc => (by cases hc)
  rows := fun _ hc => (by cases hc)
  seen := fun _ hk => (by cases hk)
  pass := fun _ hp => (by cases hp)

variable {w : World}

/-- what a pass knows does not depend on how many containers have been created since -/
theorem PassInv.mono {created created' unreported : List GenKey} {p : Pass} (h : PassInv created unreported p)
    (hsub : created ⊆ created') : PassInv created' unreported p :=
  { h with listed := fun key hk => hsub (h.listed key hk) }

theorem create_inv (h : Inv w) (key : GenKey) : Inv { w with created := w.created ++ [key] } where
  unstamped := fun c hc _ hr => h.unstamped c hc (h.rows c hc) hr
  rows := fun c hc => List.mem_append_left _ (h.rows c hc)
  seen := fun k hk => List.mem_append_left _ (h.seen k hk)
  pass := fun p hp => (h.pass p hp).mono (List.subset_append_left _ _)

/-- a write that stamps no row keeps every container unstamped -/
theorem Rows.inv (h : Inv w) {keys created : List GenKey} {store : Store} (hr : Rows w.store.db.containers keys store.db)
    (hkeys : keys ⊆ created) (hcreated : w.created ⊆ created) {pass : Option Pass}
    (hpass : ∀ p, pass = some p → PassInv created w.unreported p) :
    Inv { store := store, created := created, unreported := w.unreported, pass := pass } where
  unstamped := by
    intro c hc _ hu
    rcases (hr c hc).2 with hnone | ⟨c₀, h₀, hkey, hrem⟩
    · exact hnone
    · rw [← hrem]
      apply h.unstamped c₀ h₀ (h.rows c₀ h₀)
      rw [hkey]
      exact hu
  rows := by
    intro c hc
    rcases (hr c hc).1 with hk | ⟨c₀, h₀, hkey⟩
    · exact hkeys hk
    · rw [← hkey]
      exact hcreated (h.rows c₀ h₀)
  seen := fun key hk => hcreated (h.seen key hk)
  pass := hpass

theorem write_inv (h : Inv w) (o : Write) : Inv (w.commitWrite o) :=
  (write_rows w.store o).inv h (List.subset_append_right _ _) (List.subset_append_left _ _) fun p hp =>
    (h.pass p hp).mono (List.subset_append_left _ _)

/-- a world whose store is the same, and in which more containers are known -/
theorem inv_grow (h : Inv w) {w' : World} (hstore : w'.store.db = w.store.db) (hcreated : w.created ⊆ w'.created)
    (hunreported : w.unreported ⊆ w'.unreported) (hseen : ∀ key ∈ w'.unreported, key ∈ w'.created)
    (hpass : ∀ p, w'.pass = some p → PassInv w'.created w'.unreported p) : Inv w' where
  unstamped := by
    intro c hc _ hr
    rw [hstore] at hc
    exact h.unstamped c hc (h.rows c hc) fun hu => hr (hunreported hu)
  rows := by
    intro c hc
    rw [hstore] at hc
    exact hcreated (h.rows c hc)
  seen := hseen
  pass := hpass

theorem live_append (p : Pass) (host : String) (containers : List ContainerInfo) (existing : List GenKey) :
    ({ p with snapshot := p.snapshot ++ [(host, containers)], existing := existing } : Pass).live =
      p.live ++ containers.map fun info => ⟨host, info.id⟩ := by
  simp [Pass.live, Pass.listed, Function.comp_def]

theorem listHost_inv (h : Inv w) {p : Pass} (hp : w.pass = some p) (hstage : p.stage = .listing) {host : String}
    (hnew : host ∉ p.snapshot.map Prod.fst) (containers : Option (List ContainerInfo)) :
    Inv (w.listHost p host containers) := by
  have hi := h.pass p hp
  cases containers with
  | none =>
    refine inv_grow h rfl (List.Subset.refl _) (List.Subset.refl _) h.seen fun p' hp' => ?_
    obtain rfl := Option.some.inj hp'
    refine { hi with old := fun key hcov hu => hi.old key ?_ hu, gone := fun nowMS todo hs => ?_ }
    · exact hcov.imp_right fun hc => absurd hstage hc.1
    · rw [show p.stage = _ from hs] at hstage
      cases hstage
  | some containers =>
    have hcreated : w.created ⊆ w.created ++ containers.map fun info => ⟨host, info.id⟩ := List.subset_append_left _ _
    refine inv_grow h rfl hcreated (List.subset_append_left _ _) (fun key hk => ?_) fun p' hp' => ?_
    · apply hcreated
      rcases List.mem_append.1 hk with hk | hk
      · exact h.seen key hk
      · exact (List.mem_filter.1 hk).1
    · obtain rfl := Option.some.inj hp'
      have hlive := live_append p host containers (p.existing ++ w.created.filter fun key => key.host = host)
      refine ⟨fun key hk => ?_, fun key hcov hu => ?_, fun key hk hout => ?_, fun key hk => Or.inl ?_,
        fun nowMS todo hs => ?_, fun nowMS todo hs => ?_⟩
      · rw [hlive] at hk
        rcases List.mem_append.1 hk with hk | hk
        · exact List.mem_append_left _ (hi.listed key hk)
        · exact List.mem_append_right _ hk
      · -- the host has just answered, or it had before
        rcases hcov with hcov | ⟨hs, -⟩
        · rw [List.map_append, List.mem_append] at hcov
          rcases hcov with hcov | hcov
          · have hne : key.host ≠ host := fun e => hnew (e ▸ hcov)
            rcases List.mem_append.1 hu with hu | hu
            · exact List.mem_append_left _ (hi.old key (Or.inl hcov) hu)
            · have := (List.mem_filter.1 hu).2
              simp only [decide_eq_true_eq] at this
              exact absurd this.1 hne
          · have hhost : key.host = host := by simpa using hcov
            have hc : key ∈ w.created := by
              rcases List.mem_append.1 hu with hu | hu
              · exact h.seen key hu
              · exact (List.mem_filter.1 hu).1
            exact List.mem_append_right _ (List.mem_filter.2 ⟨hc, by simpa using hhost⟩)
        · exact absurd hstage hs
      · rw [hlive, List.mem_append, not_or] at hout
        rcases List.mem_append.1 hk with hk | hk
        · exact List.mem_append_left _ (hi.told key hk hout.1)
        · obtain ⟨hc, hhost⟩ := List.mem_filter.1 hk
          simp only [decide_eq_true_eq] at hhost
          exact List.mem_append_right _ (List.mem_filter.2 ⟨hc, by simpa [hhost] using hout.2⟩)
      · rw [List.map_append, List.mem_append]
        rcases List.mem_append.1 hk with hk | hk
        · exact Or.inl ((hi.hosts key hk).resolve_right fun hs => hs hstage)
        · have := (List.mem_filter.1 hk).2
          right
          simpa using this
      · rw [show p.stage = _ from hs] at hstage
        cases hstage
      · rw [show p.stage = _ from hs] at hstage
        cases hstage

theorem listed_inv (h : Inv w) {p : Pass} (hp : w.pass = some p) (nowMS : ℤ) :
    Inv (w.listed p nowMS) := by
  have hi := h.pass p hp
  refine inv_grow h rfl (List.Subset.refl _) (List.subset_append_left _ _) (fun key hk => ?_) fun p' hp' => ?_
  · rcases List.mem_append.1 hk with hk | hk
    · exact h.seen key hk
    · exact (List.mem_filter.1 hk).1
  · obtain rfl := Option.some.inj hp'
    refine ⟨hi.listed, fun key hcov hu => ?_, fun key hk hout => ?_, fun key _ => Or.inr (by simp),
      fun now todo hs => ?_, fun now todo hs => (by cases hs)⟩
    · by_cases hhost : key.host ∈ p.snapshot.map Prod.fst
      · rcases List.mem_append.1 hu with hu | hu
        · exact List.mem_append_left _ (hi.old key (Or.inl hhost) hu)
        · exact List.mem_append_right _ hu
      · have hfailed : key.host ∉ p.failed := (hcov.resolve_left hhost).2
        have hc : key ∈ w.created := by
          rcases List.mem_append.1 hu with hu | hu
          · exact h.seen key hu
          · exact (List.mem_filter.1 hu).1
        exact List.mem_append_right _ (List.mem_filter.2 ⟨hc, by simpa using ⟨by simpa using hhost, hfailed⟩⟩)
    · rcases List.mem_append.1 hk with hk | hk
      · exact List.mem_append_left _ (hi.told key hk hout)
      · exact List.mem_append_right _ hk
    · cases hs
      intro e he
      exact List.mem_map_of_mem he

/-- the pass moves on -/
theorem PassInv.move {created unreported : List GenKey} {p : Pass} (h : PassInv created unreported p) {stage : Stage}
    (hstage : p.stage ≠ .listing) (hstage' : stage ≠ .listing)
    (htodo : ∀ nowMS todo, stage = .upserting nowMS todo → ∀ e ∈ todo, e.1 ∈ p.live)
    (hgone : ∀ nowMS todo, stage = .stamping nowMS todo → ∀ key ∈ todo, key ∉ p.live ∧ key.host ∉ p.failed) :
    PassInv created unreported { p with stage := stage } :=
  { listed := h.listed
    old := fun key hcov hu => h.old key (hcov.imp_right fun hc => ⟨hstage, hc.2⟩) hu
    told := h.told
    hosts := fun _ _ => Or.inr hstage'
    todo := htodo
    gone := hgone }

theorem upsert_inv (h : Inv w) {p : Pass} (hp : w.pass = some p) (ok : Bool) : Inv (w.upsert p ok) := by
  have hi := h.pass p hp
  unfold World.upsert
  split
  · rename_i nowMS key info rest hstage
    have hkey : key ∈ w.created := hi.listed key (hi.todo nowMS _ hstage (key, info) List.mem_cons_self)
    have hmove : PassInv w.created w.unreported { p with stage := .upserting nowMS rest } := by
      refine hi.move (by rw [hstage]; exact Stage.noConfusion) Stage.noConfusion (fun now todo hs e he => ?_)
        (fun now todo hs => (by cases hs))
      cases hs
      exact hi.todo nowMS _ hstage e (List.mem_cons_of_mem _ he)
    have hrows : Rows w.store.db.containers [key]
        (if ok then step w.store (.upsertMeta key info nowMS) else w.store).db := by
      split_ifs
      · exact rows_upsertMeta (rows_refl w.store.db _) List.mem_cons_self info nowMS
      · exact rows_refl w.store.db _
    apply hrows.inv h (by simpa using hkey) (List.Subset.refl _)
    intro p' hp'
    obtain rfl := Option.some.inj hp'
    exact hmove
  · exact h

theorem mem_goneKeys {db : DB} {failed : List String} {live : List GenKey} {key : GenKey}
    (h : key ∈ goneKeys db failed live) : key ∉ live ∧ key.host ∉ failed := by
  have := (List.mem_filter.1 h).2
  simpa using this

theorem select_inv (h : Inv w) {p : Pass} (hp : w.pass = some p) : Inv (w.select p) := by
  have hi := h.pass p hp
  unfold World.select
  split
  · rename_i nowMS hstage
    apply (rows_refl w.store.db []).inv h (List.nil_subset _) (List.Subset.refl _)
    intro p' hp'
    obtain rfl := Option.some.inj hp'
    refine hi.move (by rw [hstage]; exact Stage.noConfusion) Stage.noConfusion (fun now todo hs => (by cases hs))
      (fun now todo hs key hk => ?_)
    cases hs
    exact mem_goneKeys hk
  · exact h

theorem abandon_inv (h : Inv w) : Inv { w with pass := none } :=
  { h with pass := fun _ hp => (by cases hp) }

/-- a generation that is stamped was not reported: it existed when the listing was taken, and the listing has it not -/
theorem stamp_inv (h : Inv w) {p : Pass} (hp : w.pass = some p) {ok : Bool}
    (hg : ok = true → ∀ nowMS key rest, p.stage = .stamping nowMS (key :: rest) →
      key ∈ p.existing ∨ ∀ c ∈ w.store.db.containers, c.key ≠ key) : Inv (w.stamp p ok) := by
  have hi := h.pass p hp
  unfold World.stamp
  split
  · rename_i nowMS key rest hstage
    obtain ⟨hlive, -⟩ := hi.gone nowMS _ hstage key List.mem_cons_self
    split_ifs with hok
    · have hkeys : ∀ c ∈ (stampRemoved w.store.db key nowMS).containers, ∃ c₀ ∈ w.store.db.containers, c₀.key = c.key ∧
          (c.key ≠ key → c₀.removedMS = c.removedMS) := by
        intro c hc
        obtain ⟨c₀, h₀, rfl⟩ := mem_updateWhere.1 hc
        refine ⟨c₀, h₀, ?_⟩
        split_ifs with hcond
        · exact ⟨rfl, fun hne => absurd hcond.1 hne⟩
        · exact ⟨rfl, fun _ => rfl⟩
      refine ⟨fun c hc _ hu => ?_, fun c hc => ?_, h.seen, fun p' hp' => ?_⟩
      · obtain ⟨c₀, h₀, hkey, hrem⟩ := hkeys c hc
        by_cases e : c.key = key
        · rcases hg hok nowMS key rest hstage with hold | hnone
          · exact absurd (e ▸ hi.told key hold hlive) hu
          · exact absurd (hkey.trans e) (hnone c₀ h₀)
        · rw [← hrem e]
          apply h.unstamped c₀ h₀ (h.rows c₀ h₀)
          rw [hkey]
          exact hu
      · obtain ⟨c₀, h₀, hkey, -⟩ := hkeys c hc
        rw [← hkey]
        exact h.rows c₀ h₀
      · obtain rfl := Option.some.inj hp'
        refine hi.move (by rw [hstage]; exact Stage.noConfusion) Stage.noConfusion (fun now todo hs => (by cases hs))
          (fun now todo hs k hk => ?_)
        cases hs
        exact hi.gone nowMS _ hstage k (List.mem_cons_of_mem _ hk)
    · exact abandon_inv h
  · exact abandon_inv h
  · exact h

theorem inPass_inv (h : Inv w) {f : Pass → World} (hf : ∀ p, w.pass = some p → Inv (f p)) : Inv (w.inPass f) := by
  unfold World.inPass
  cases hp : w.pass with
  | none => exact h
  | some p => exact hf p hp

theorem step_inv (w : World) (a : Act) (h : Inv w) (hg : StampsOld w a) : Inv (w.step a) := by
  cases a with
  | create key => exact create_inv h key
  | write o => exact write_inv h o
  | beginPass =>
    simp only [World.step]
    split_ifs with hnone
    · refine { h with pass := fun p hp => ?_ }
      obtain rfl := Option.some.inj hp
      refine ⟨fun _ hk => (by cases hk), fun key hcov _ => ?_, fun _ hk => (by cases hk), fun _ hk => (by cases hk),
        fun _ _ hs => (by cases hs), fun _ _ hs => (by cases hs)⟩
      rcases hcov with hcov | ⟨hs, -⟩
      · cases hcov
      · exact absurd rfl hs
    · exact h
  | listHost host containers =>
    apply inPass_inv h
    intro p hp
    split_ifs with hc
    · exact listHost_inv h hp hc.1 hc.2.1 containers
    · exact h
  | listed nowMS =>
    apply inPass_inv h
    intro p hp
    split_ifs with hc
    · exact listed_inv h hp nowMS
    · exact h
  | upsert ok => exact inPass_inv h fun p hp => upsert_inv h hp ok
  | select => exact inPass_inv h fun p hp => select_inv h hp
  | stamp ok =>
    apply inPass_inv h
    intro p hp
    apply stamp_inv h hp
    intro hok nowMS key rest hstage
    subst hok
    exact hg p nowMS key rest rfl hp hstage
  | abandon => exact abandon_inv h
  | restart => exact { h with pass := fun _ hp => (by cases hp) }

/-- a container that is younger than the listing is stamped although every listing has reported it -/
theorem stamps_young (w : World) (a : Act) (h : Inv w) (hg : ¬ StampsOld w a) : ¬ Unstamped (w.step a) := by
  unfold StampsOld at hg
  push Not at hg
  obtain ⟨p, nowMS, key, rest, rfl, hp, hstage, hnew, c, hc, hkey⟩ := hg
  have hi := h.pass p hp
  obtain ⟨-, hfailed⟩ := hi.gone nowMS _ hstage key List.mem_cons_self
  have hcov : p.Covers key := Or.inr ⟨by rw [hstage]; exact Stage.noConfusion, hfailed⟩
  have hunreported : key ∉ w.unreported := fun hu => hnew (hi.old key hcov hu)
  have hcreated : key ∈ w.created := hkey ▸ h.rows c hc
  have hnone : c.removedMS = none := h.unstamped c hc (hkey ▸ hcreated) (hkey ▸ hunreported)
  intro hun
  have hstep : w.step (.stamp true) =
      { w with store := step w.store (.stampRemoved key nowMS)
               pass := some { p with stage := .stamping nowMS rest } } := by
    simp [World.step, World.inPass, hp, World.stamp, hstage]
  rw [hstep] at hun
  have hmem : { c with removedMS := some nowMS } ∈ (stampRemoved w.store.db key nowMS).containers :=
    mem_updateWhere.2 ⟨c, hc, by rw [if_pos ⟨hkey, hnone⟩]⟩
  have hstamped := hun _ hmem (hkey ▸ hcreated) (hkey ▸ hunreported)
  cases hstamped

/-- **Live containers are not marked as removed, exactly.** In every interleaving of the sync passes with the other
writers of the store: a container that every listing since its creation has reported is never marked, if and only if
every generation that is stamped existed when the listing of its pass was taken, or has lost its row since. -/
theorem stamps_iff (acts : List Act) : Always World.step Unstamped .init acts ↔ Each World.step StampsOld .init acts :=
  always_iff_each (fun _ h => h.unstamped) step_inv stamps_young inv_init

/-! ## A container that starts during a pass -/

def web : GenKey := ⟨"local", "aaa"⟩

/-- the host lists nothing; web starts, and its first line is committed before the stored generations are read -/
def youngRun : List Act :=
  [.beginPass, .listHost "local" (some []), .listed 1, .create web,
    .write (.commit [⟨web, "web", "", .line ⟨1, .stdout, 0, [104, 105]⟩⟩] 2), .select, .stamp true]

/-- **A young container is stamped.** It is running, no listing has been taken since it was created, and its row says
that it has been removed. -/
theorem young_container_is_stamped : ¬ ∀ acts, Always World.step Unstamped .init acts := by
  intro hall
  have hlast := (hall youngRun).last
  obtain ⟨c, hc, hkey, hrem⟩ :
      ∃ c ∈ (run World.step .init youngRun).store.db.containers, c.key = web ∧ c.removedMS = some 1 :=
    ⟨_, List.mem_cons_self, rfl, rfl⟩
  have hnone := hlast c hc (by rw [hkey]; decide) (by rw [hkey]; decide)
  rw [hrem] at hnone
  cases hnone

end LogDeck.Removal
