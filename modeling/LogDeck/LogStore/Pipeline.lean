/-
The ingest pipeline of one process: the hub's records, the writer's queue and batch, the gaps, and the backfills that
re-read the engine (`store.go`: `sink`; `ingest.go`: `writeLoop`; `sync.go`: `syncLoop`, `sync`; `backfill.go`:
`backfill`; `purge.go`: `invalidate`).

Every action is one step of one goroutine, and they interleave in any order. A backfill is a task with its own program
counter (`Phase`): it waits for a slot, computes its `since`, opens the engine's log, sends the lines it reads one by
one, and reports; the sync loop handles the report. The engine keeps every line it has been given, and a read returns
the lines it holds, from `since` on, when the read begins. What an attached tail reads reaches the sink: the ring of 1024
records between them, which drops the oldest when the sink is too slow, is taken as lossless.

Ghosts: `clock` counts the steps; `lost` has the lines that were dropped or lost with a failed commit, each with the step
it was lost at. A line is dismissed from `lost` when its generation is purged, or when it is evicted after all.

Results:
- `step_consistent`: every action keeps the store consistent;
- `act_frame`: what an action does to the lines the pipeline holds, to the losses and to the gaps;
- `act_reads`: what an action does to the open reads;
- `act_excluded`: an exclusion stays until its generation is purged;
- `act_sourced`: the pipeline holds only lines the engine has.
-/
import LogDeck.LogStore.Backfill
import LogDeck.LogStore.Convergence

namespace LogDeck.Pipeline

open LogDeck.LogStore LogDeck.Attribution LogDeck.Convergence

def ingestBuffer : ℕ := 8192
def batchLines : ℕ := 500

/-- a line the hub delivers -/
structure Record where
  key : GenKey
  name : String
  project : String
  line : Line
deriving DecidableEq, Repr

def Record.msg (r : Record) : IngestMsg := ⟨r.key, r.name, r.project, .line r.line⟩

/-- how reading the engine ended: at the end of the log, with an error, or refused by the logging driver -/
inductive ReadEnd where
  | ok
  | failed
  | unreadable (reason : String)
deriving DecidableEq, Repr

/-- where a backfill stands; `began` is the step at which its read began, `rest` what it has not sent yet -/
inductive Phase where
  | waiting
  | resolved (since : ℤ)
  | reading (since : ℤ) (began : ℕ) (rest : List Line)
  | completed (since : ℤ) (began : ℕ)
  | failed
  | excluded
deriving DecidableEq, Repr

structure Task where
  info : ContainerInfo
  phase : Phase
deriving DecidableEq, Repr

/-- a line that was dropped, or lost with its batch, and when -/
structure Loss where
  key : GenKey
  line : Line
  time : ℕ
deriving DecidableEq, Repr

def Loss.tuple (x : Loss) : Tuple := (x.key, x.line.ident)

structure Sys where
  engine : GenKey → List Line
  store : Store
  hub : List Record
  queue : List IngestMsg
  batch : List IngestMsg
  gaps : Gaps
  resume : Resume
  track : Tracker
  tasks : GenKey → Option Task
  clock : ℕ
  lost : List Loss

inductive Act where
  /-- a container logs a line; the hub gets it when a tail of the store's subscription is attached -/
  | emit (r : Record) (attached : Bool)
  /-- the hub hands its oldest record to the sink -/
  | deliver
  /-- the writer takes a message into its batch -/
  | take
  /-- the writer commits its batch; `ok = false` when the transaction fails -/
  | flush (nowMS : ℤ) (ok : Bool)
  /-- a sync pass records a listed container and schedules its backfill -/
  | sync (info : ContainerInfo) (nowMS : ℤ)
  /-- a backfill computes its since -/
  | resolve (key : GenKey) (ok : Bool)
  | read (key : GenKey)
  | send (key : GenKey)
  | endRead (key : GenKey) (how : ReadEnd)
  /-- the sync loop handles the result of a backfill -/
  | handle (key : GenKey)
  | purge (host name : String)
  /-- a purge whose transaction fails to commit: it has been published to the writer already -/
  | purgeFails (host name : String)
  | evict (refs : List ℕ) (excess : ℤ)
  | stampRemoved (key : GenKey) (nowMS : ℤ)
deriving DecidableEq, Repr

namespace Sys

def init : Sys :=
  ⟨fun _ => [], .init, [], [], [], fun _ => none, fun _ => none, .empty, fun _ => none, 0, []⟩

def emit (s : Sys) (r : Record) (attached : Bool) : Sys :=
  { s with engine := Function.update s.engine r.key (s.engine r.key ++ [r.line])
           hub := if attached then s.hub ++ [r] else s.hub }

def enqueue (s : Sys) (m : IngestMsg) : Sys := { s with queue := s.queue ++ [m] }

/-- a full queue drops the record and marks a gap -/
def sink (s : Sys) (r : Record) : Sys :=
  if s.queue.length < ingestBuffer then s.enqueue r.msg
  else { s with gaps := markGap s.gaps r.key r.line.tsNS, lost := s.lost ++ [⟨r.key, r.line, s.clock⟩] }

def deliver (s : Sys) : Sys :=
  match s.hub with
  | [] => s
  | r :: rest => { s with hub := rest }.sink r

def take (s : Sys) : Sys :=
  match s.queue with
  | [] => s
  | m :: rest => if s.batch.length < batchLines then { s with queue := rest, batch := s.batch ++ [m] } else s

/-- the lines of a batch, lost now -/
def lossesOf (batch : List IngestMsg) (clock : ℕ) : List Loss :=
  batch.filterMap fun m =>
    match m.body with
    | .line l => some ⟨m.key, l, clock⟩
    | .done _ => none

/-- a failed transaction drops the whole batch and marks a gap for each of its lines -/
def rollback (s : Sys) : Sys :=
  { s with store := s.store.dropInvalidated, gaps := markBatchGaps s.gaps s.batch, batch := []
           lost := s.lost ++ lossesOf s.batch s.clock }

def flush (s : Sys) (nowMS : ℤ) (ok : Bool) : Sys :=
  if s.batch = [] then s
  else if ok then
    match s.store.tryCommit s.batch nowMS with
    | .ok store => { s with store := store, batch := [] }
    | .error _ => s.rollback
  else s.rollback

def setPhase (s : Sys) (key : GenKey) (info : ContainerInfo) (phase : Phase) : Sys :=
  { s with tasks := Function.update s.tasks key (some ⟨info, phase⟩) }

def keyOf (info : ContainerInfo) : GenKey := ⟨info.host, info.id⟩

def sync (s : Sys) (info : ContainerInfo) (nowMS : ℤ) : Sys :=
  let db := upsertMeta s.store.db (keyOf info) info nowMS
  let scheduled := s.track.schedule (gapAt s.gaps (keyOf info)) (keyOf info) (isExcluded db (keyOf info))
  { s with store := { s.store with db := db }, track := scheduled.1
           tasks := if scheduled.2 then Function.update s.tasks (keyOf info) (some ⟨info, .waiting⟩) else s.tasks }

def resolve (s : Sys) (key : GenKey) (ok : Bool) : Sys :=
  match s.tasks key with
  | some ⟨info, .waiting⟩ =>
    s.setPhase key info
      (if ok then .resolved (backfillSince s.resume s.gaps s.store.db key info.created) else .failed)
  | _ => s

def read (s : Sys) (key : GenKey) : Sys :=
  match s.tasks key with
  | some ⟨info, .resolved since⟩ =>
    s.setPhase key info
      (.reading since s.clock ((s.engine key).filter fun l => since ≤ l.tsNS))
  | _ => s

/-- blocks while the queue is full -/
def send (s : Sys) (key : GenKey) : Sys :=
  match s.tasks key with
  | some ⟨info, .reading since began (l :: rest)⟩ =>
    if s.queue.length < ingestBuffer then
      (s.enqueue ⟨key, containerName info, composeProject info.labels, .line l⟩).setPhase key info
        (.reading since began rest)
    else s
  | _ => s

/-- the end of a backfill's read: `msgDone` is sent, with the reason when the driver cannot be read -/
def endRead (s : Sys) (key : GenKey) (how : ReadEnd) : Sys :=
  match s.tasks key with
  | some ⟨info, .reading since began rest⟩ =>
    let finish (reason : String) (phase : Phase) : Sys :=
      if s.queue.length < ingestBuffer then
        (s.enqueue ⟨key, containerName info, composeProject info.labels, .done reason⟩).setPhase key info phase
      else s
    match how with
    | .ok => if rest = [] then finish "" (.completed since began) else s
    | .failed => finish "" .failed
    | .unreadable reason => finish reason .excluded
  | _ => s

def handle (s : Sys) (key : GenKey) : Sys :=
  let track := s.track.land key
  match s.tasks key with
  | some ⟨_, .completed _ _⟩ =>
    let c := track.complete key s.resume s.gaps
    { s with track := c.1, resume := c.2.1, gaps := c.2.2, tasks := Function.update s.tasks key none }
  | some ⟨_, .failed⟩ => { s with track := track.fail key, tasks := Function.update s.tasks key none }
  | some ⟨_, .excluded⟩ => { s with track := track.exclude key, tasks := Function.update s.tasks key none }
  | _ => s

/-- forgets what a generation's gaps and resume points say -/
def forget {α : Type} (m : GenKey → Option α) (keys : List GenKey) : GenKey → Option α :=
  fun key => if key ∈ keys then none else m key

/-- the generations a purge removes -/
def purgedKeys (s : Sys) (host name : String) : List GenKey := (generationsOf s.store.db host name).map fun c => c.key

def purge (s : Sys) (host name : String) : Sys :=
  let keys := s.purgedKeys host name
  { s with store := s.store.deleteContainerStep host name true, gaps := forget s.gaps keys
           resume := forget s.resume keys, lost := s.lost.filter fun x => x.key ∉ keys }

/-- the rows stay, but what is known of the generations is forgotten all the same -/
def purgeFails (s : Sys) (host name : String) : Sys :=
  let keys := s.purgedKeys host name
  { s with store := s.store.deleteContainerStep host name false, gaps := forget s.gaps keys
           resume := forget s.resume keys }

/-- an eviction, and the losses that were stored and go with it -/
def evict (s : Sys) (refs : List ℕ) (excess : ℤ) : Sys :=
  { s with store := { s.store with db := (evictOldest s.store.db refs excess).1 }
           lost := s.lost.filter fun x =>
             ¬ ∃ v ∈ victims s.store.db refs excess, HasRow s.store.db v.ref x.key ∧ v.line.ident = x.line.ident }

def act (s : Sys) : Act → Sys
  | .emit r attached => s.emit r attached
  | .deliver => s.deliver
  | .take => s.take
  | .flush nowMS ok => s.flush nowMS ok
  | .sync info nowMS => s.sync info nowMS
  | .resolve key ok => s.resolve key ok
  | .read key => s.read key
  | .send key => s.send key
  | .endRead key how => s.endRead key how
  | .handle key => s.handle key
  | .purge host name => s.purge host name
  | .purgeFails host name => s.purgeFails host name
  | .evict refs excess => s.evict refs excess
  | .stampRemoved key nowMS => { s with store := { s.store with db := stampRemoved s.store.db key nowMS } }

def step (s : Sys) (a : Act) : Sys := { s.act a with clock := s.clock + 1 }

end Sys

/-! ## The store -/

theorem consistent_step {st : Store} (h : Consistent st) (o : Op) (hs : Safe st o) : Consistent (LogStore.step st o) := by
  obtain ⟨hist, ha⟩ := h.accounts
  exact { Attribution.step_inv st o h.toInv hs with accounts := ⟨_, step_accounts (g := ⟨st, hist⟩) ha o⟩ }

theorem stored_upsertMeta {db : DB} (h : WellFormed db) (key : GenKey) (info : ContainerInfo) (nowMS : ℤ) :
    Stored (upsertMeta db key info nowMS) = Stored db := by
  have hE : Convergence.Effect db (upsertMeta db key info nowMS) ∅ := by
    unfold upsertMeta
    cases hf : db.find key with
    | some c => exact effect_of_touch h fun _ => rfl
    | none => exact effect_of_insert h rfl (find_none hf) rfl fun st => by cases st <;> rfl
  rw [hE.stored, Set.union_empty]

theorem stored_stampRemoved {db : DB} (h : WellFormed db) (key : GenKey) (nowMS : ℤ) :
    Stored (stampRemoved db key nowMS) = Stored db := by
  have hE : Convergence.Effect db (stampRemoved db key nowMS) ∅ := effect_of_touch h fun _ => rfl
  rw [hE.stored, Set.union_empty]

/-- what an eviction leaves -/
theorem stored_evict {db : DB} (h : WellFormed db) (refs : List ℕ) (excess : ℤ) {t : Tuple} (ht : t ∈ Stored db) :
    t ∈ Stored (evictOldest db refs excess).1 ∨
      ∃ v ∈ victims db refs excess, HasRow db v.ref t.1 ∧ v.line.ident = t.2 := by
  obtain ⟨r, hr, hrow, he⟩ := ht
  by_cases hv : r.rowid ∈ (victims db refs excess).map fun v => v.rowid
  · obtain ⟨v, hmem, e⟩ := List.mem_map.1 hv
    obtain rfl := h.line_eq_of_rowid (mem_victims hmem).1 hr e
    exact Or.inr ⟨v, hmem, hrow, he⟩
  · refine Or.inl ⟨r, List.mem_filter.2 ⟨hr, by simpa using hv⟩, ?_, he⟩
    exact hasRow_of_map hrow (evictRows_map _ (fun _ _ => rfl) _ _)

theorem deleteContainerStep_db (st : Store) (host name : String) :
    (st.deleteContainerStep host name true).db = st.db.deleteRefs ((generationsOf st.db host name).map fun c => c.id) := by
  simp only [Store.deleteContainerStep, deleteContainer]
  cases hg : generationsOf st.db host name with
  | nil => simp [DB.deleteRefs]
  | cons c cs => rfl

/-- a purge that fails leaves the database alone -/
theorem purgeFails_db (st : Store) (host name : String) : (st.deleteContainerStep host name false).db = st.db := by
  simp only [Store.deleteContainerStep, deleteContainer]
  cases hg : generationsOf st.db host name <;> rfl

/-- what a purge leaves -/
theorem stored_purge {st : Store} (h : Consistent st) (host name : String) {t : Tuple} (ht : t ∈ Stored st.db) :
    t ∈ Stored (st.deleteContainerStep host name true).db ∨
      t.1 ∈ (generationsOf st.db host name).map fun c => c.key := by
  obtain ⟨r, hr, ⟨c, hc, hid, hkey⟩, he⟩ := ht
  rw [deleteContainerStep_db]
  by_cases hp : c.id ∈ (generationsOf st.db host name).map fun c => c.id
  · obtain ⟨c', hc', e⟩ := List.mem_map.1 hp
    obtain rfl := h.row_eq_of_id (List.mem_filter.1 hc').1 hc e
    exact Or.inr (List.mem_map.2 ⟨c', hc', hkey⟩)
  · refine Or.inl ⟨r, List.mem_filter.2 ⟨hr, ?_⟩, ⟨c, List.mem_filter.2 ⟨hc, ?_⟩, hid, hkey⟩, he⟩
    · rw [← hid]
      simpa using hp
    · simpa using hp

namespace Sys

/-! ## What each action does -/

/-- the hub hands over its oldest record: it is queued when there is room, and dropped otherwise -/
theorem deliver_cases (s : Sys) :
    s.deliver = s ∨ ∃ r rest, s.hub = r :: rest ∧ s.deliver = { s with hub := rest }.sink r := by
  unfold deliver
  cases hhub : s.hub with
  | nil => exact Or.inl rfl
  | cons r rest => exact Or.inr ⟨r, rest, rfl, rfl⟩

theorem sink_cases (s : Sys) (r : Record) :
    s.sink r = s.enqueue r.msg ∨
      s.sink r = { s with gaps := markGap s.gaps r.key r.line.tsNS, lost := s.lost ++ [⟨r.key, r.line, s.clock⟩] } := by
  unfold sink
  split_ifs
  · exact Or.inl rfl
  · exact Or.inr rfl

theorem take_cases (s : Sys) :
    s.take = s ∨ ∃ m rest, s.queue = m :: rest ∧ s.take = { s with queue := rest, batch := s.batch ++ [m] } := by
  unfold take
  cases hq : s.queue with
  | nil => exact Or.inl rfl
  | cons m rest =>
    dsimp only
    split_ifs
    · exact Or.inr ⟨m, rest, rfl, rfl⟩
    · exact Or.inl rfl

theorem resolve_cases (s : Sys) (key : GenKey) (ok : Bool) :
    s.resolve key ok = s ∨ ∃ info, s.tasks key = some ⟨info, .waiting⟩ ∧ s.resolve key ok = s.setPhase key info
      (if ok then .resolved (backfillSince s.resume s.gaps s.store.db key info.created) else .failed) := by
  unfold resolve
  split
  · rename_i info htask
    exact Or.inr ⟨info, htask, rfl⟩
  · exact Or.inl rfl

theorem read_cases (s : Sys) (key : GenKey) :
    s.read key = s ∨ ∃ info since, s.tasks key = some ⟨info, .resolved since⟩ ∧ s.read key = s.setPhase key info
      (.reading since s.clock ((s.engine key).filter fun l => since ≤ l.tsNS)) := by
  unfold read
  split
  · rename_i info since htask
    exact Or.inr ⟨info, since, htask, rfl⟩
  · exact Or.inl rfl

/-- the message a backfill sends -/
def backfillMsg (key : GenKey) (info : ContainerInfo) (body : Payload) : IngestMsg :=
  ⟨key, containerName info, composeProject info.labels, body⟩

theorem send_cases (s : Sys) (key : GenKey) :
    s.send key = s ∨ ∃ info since began l rest, s.tasks key = some ⟨info, .reading since began (l :: rest)⟩ ∧
      s.send key = (s.enqueue (backfillMsg key info (.line l))).setPhase key info (.reading since began rest) := by
  unfold send
  split
  · rename_i info since began l rest htask
    split_ifs
    · exact Or.inr ⟨info, since, began, l, rest, htask, rfl⟩
    · exact Or.inl rfl
  · exact Or.inl rfl

/-- the end of a read sends `msgDone`; it is a success only when everything has been sent -/
theorem endRead_cases (s : Sys) (key : GenKey) (how : ReadEnd) :
    s.endRead key how = s ∨ ∃ info since began rest reason phase,
      s.queue.length < ingestBuffer ∧ s.tasks key = some ⟨info, .reading since began rest⟩ ∧
      s.endRead key how = (s.enqueue (backfillMsg key info (.done reason))).setPhase key info phase ∧
      ((how = .ok ∧ rest = [] ∧ phase = .completed since began) ∨ how ≠ .ok ∧ (phase = .failed ∨ phase = .excluded)) := by
  unfold endRead
  split
  · rename_i info since began rest htask
    cases how with
    | ok =>
      dsimp only
      split_ifs with hrest
      · exact Or.inr ⟨info, since, began, rest, _, _, ‹_›, htask, rfl, Or.inl ⟨rfl, hrest, rfl⟩⟩
      · exact Or.inl rfl
      · exact Or.inl rfl
    | failed =>
      dsimp only
      split_ifs
      · exact Or.inr ⟨info, since, began, rest, _, _, ‹_›, htask, rfl, Or.inr ⟨ReadEnd.noConfusion, Or.inl rfl⟩⟩
      · exact Or.inl rfl
    | unreadable reason =>
      dsimp only
      split_ifs
      · exact Or.inr ⟨info, since, began, rest, _, _, ‹_›, htask, rfl, Or.inr ⟨ReadEnd.noConfusion, Or.inr rfl⟩⟩
      · exact Or.inl rfl
  · exact Or.inl rfl

/-- a read that ends badly -/
theorem endRead_fails {s : Sys} {key : GenKey} {how : ReadEnd} {info : ContainerInfo} {since : ℤ} {began : ℕ}
    {rest : List Line} (hhow : how ≠ .ok) (hroom : s.queue.length < ingestBuffer)
    (htask : s.tasks key = some ⟨info, .reading since began rest⟩) :
    ∃ reason phase, s.endRead key how = (s.enqueue (backfillMsg key info (.done reason))).setPhase key info phase ∧
      (phase = .failed ∨ phase = .excluded) := by
  cases how with
  | ok => exact absurd rfl hhow
  | failed => exact ⟨"", .failed, by simp only [endRead, htask, if_pos hroom]; rfl, Or.inl rfl⟩
  | unreadable reason => exact ⟨reason, .excluded, by simp only [endRead, htask, if_pos hroom]; rfl, Or.inr rfl⟩

theorem handle_cases (s : Sys) (key : GenKey) :
    s.handle key = s ∨ ∃ track resume gaps, s.handle key =
      { s with track := track, resume := resume, gaps := gaps, tasks := Function.update s.tasks key none } := by
  unfold handle
  split
  · exact Or.inr ⟨_, _, _, rfl⟩
  · exact Or.inr ⟨_, _, _, rfl⟩
  · exact Or.inr ⟨_, _, _, rfl⟩
  · exact Or.inl rfl

/-- what the sync loop makes of the result of a backfill -/
theorem handle_other {s : Sys} {key' key : GenKey} (hk : key ≠ key') :
    (s.handle key').tasks key = s.tasks key ∧ (s.handle key').track.inFlight key = s.track.inFlight key := by
  unfold handle
  split
  · simp [hk, Tracker.land]
  · simp [hk, Tracker.land, Tracker.fail]
  · simp [hk, Tracker.land, Tracker.exclude]
  · exact ⟨rfl, rfl⟩

theorem handle_self (s : Sys) (key : GenKey) :
    ((s.handle key).tasks key = none ∧ (s.handle key).track.inFlight key = false) ∨ s.handle key = s := by
  unfold handle
  split
  · simp [Tracker.land]
  · simp [Tracker.land, Tracker.fail]
  · simp [Tracker.land, Tracker.exclude]
  · exact Or.inr rfl

/-- a flush does nothing, loses the batch, or commits it -/
theorem flush_cases (s : Sys) (nowMS : ℤ) (ok : Bool) :
    s.flush nowMS ok = s ∨ s.flush nowMS ok = s.rollback ∨
      ∃ store, s.store.tryCommit s.batch nowMS = .ok store ∧
        s.flush nowMS ok = { s with store := store, batch := [] } := by
  unfold flush
  split_ifs
  · exact Or.inl rfl
  · cases hc : s.store.tryCommit s.batch nowMS with
    | ok store => exact Or.inr (Or.inr ⟨store, rfl, rfl⟩)
    | error _ => exact Or.inr (Or.inl rfl)
  · exact Or.inr (Or.inl rfl)

/-- what a commit leaves of a consistent store -/
theorem consistent_commit {st store : Store} {batch : List IngestMsg} {nowMS : ℤ} (h : Consistent st)
    (hc : st.tryCommit batch nowMS = .ok store) :
    Consistent store ∧ Stored store.db = Stored st.db ∪ tuples batch := by
  obtain ⟨store', hc', hcons, he⟩ := tryCommit_effect h batch nowMS
  obtain rfl := Except.ok.inj (hc.symm.trans hc')
  exact ⟨hcons, he.stored⟩

/-- the actions that write to the database, or try to: a commit, a metadata upsert, a purge, an eviction, a removal
stamp -/
def Writes : Act → Prop
  | .flush _ _ | .sync _ _ | .purge _ _ | .purgeFails _ _ | .evict _ _ | .stampRemoved _ _ => True
  | _ => False

theorem store_act (s : Sys) {a : Act} (ha : ¬ Writes a) : (s.act a).store = s.store := by
  cases a with
  | emit r attached => rfl
  | deliver =>
    rcases deliver_cases s with e | ⟨r, rest, -, e⟩
    · rw [act, e]
    · rw [act, e]
      rcases sink_cases { s with hub := rest } r with e | e
      · rw [e]; rfl
      · rw [e]
  | take =>
    rcases take_cases s with e | ⟨m, rest, -, e⟩
    · rw [act, e]
    · rw [act, e]
  | resolve key ok =>
    rcases resolve_cases s key ok with e | ⟨info, -, e⟩
    · rw [act, e]
    · rw [act, e]; rfl
  | read key =>
    rcases read_cases s key with e | ⟨info, since, -, e⟩
    · rw [act, e]
    · rw [act, e]; rfl
  | send key =>
    rcases send_cases s key with e | ⟨info, since, began, l, rest, -, e⟩
    · rw [act, e]
    · rw [act, e]; rfl
  | endRead key how =>
    rcases endRead_cases s key how with e | ⟨info, since, began, rest, reason, phase, -, -, e, -⟩
    · rw [act, e]
    · rw [act, e]; rfl
  | handle key =>
    rcases handle_cases s key with e | ⟨track, resume, gaps, e⟩
    · rw [act, e]
    · rw [act, e]
  | _ => exact absurd trivial ha

/-- every action keeps the store consistent -/
theorem step_consistent {s : Sys} (h : Consistent s.store) (a : Act) : Consistent (s.step a).store := by
  show Consistent (s.act a).store
  by_cases hw : Writes a
  swap
  · rw [store_act s hw]
    exact h
  cases a with
  | flush nowMS ok =>
    rcases flush_cases s nowMS ok with e | e | ⟨store, hc, e⟩
    · rw [act, e]
      exact h
    · rw [act, e]
      exact consistent_step h .commitFails trivial
    · rw [act, e]
      exact (consistent_commit h hc).1
  | sync info nowMS => exact consistent_step h (.upsertMeta (keyOf info) info nowMS) trivial
  | purge host name => exact consistent_step h (.deleteContainer host name true) trivial
  | purgeFails host name => exact consistent_step h (.deleteContainer host name false) trivial
  | evict refs excess => exact consistent_step h (.evictOldest refs excess) trivial
  | stampRemoved key nowMS => exact consistent_step h (.stampRemoved key nowMS) trivial
  | _ => exact hw.elim

/-! ## What an action does to the lines, the losses and the gaps -/

/-- the tuples the pipeline holds: stored, in the writer's batch or in the queue -/
def kept (s : Sys) : Set Tuple := Stored s.store.db ∪ tuples (s.batch ++ s.queue)

/-- the tuples that an action deletes by design -/
def Dismissed (s : Sys) : Act → Tuple → Prop
  | .purge host name, t => t.1 ∈ s.purgedKeys host name
  | .evict refs excess, t => ∃ v ∈ victims s.store.db refs excess, HasRow s.store.db v.ref t.1 ∧ v.line.ident = t.2
  | _, _ => False

/-- the generations that lose lines by design -/
def removes (s : Sys) : Act → List GenKey
  | .purge host name => s.purgedKeys host name
  | .evict refs excess =>
    (s.store.db.containers.filter fun c => c.id ∈ (victims s.store.db refs excess).map fun v => v.ref).map fun c => c.key
  | _ => []

theorem dismissed_removes {s : Sys} {a : Act} {t : Tuple} (h : Dismissed s a t) : t.1 ∈ removes s a := by
  cases a with
  | purge host name => exact h
  | evict refs excess =>
    obtain ⟨v, hv, ⟨c, hc, e, hk⟩, -⟩ := h
    refine List.mem_map.2 ⟨c, List.mem_filter.2 ⟨hc, ?_⟩, hk⟩
    rw [decide_eq_true_eq, e]
    exact List.mem_map_of_mem hv
  | _ => exact absurd h (fun h => h)

/-- the action retires the gap of the generation, or forgets it with a purge that fails -/
def Clears (s : Sys) (key : GenKey) : Act → Prop
  | .handle key' =>
    key' = key ∧ s.track.healing key ≠ 0 ∧ gapAt s.gaps key = s.track.healing key ∧
      ∃ info since began, s.tasks key = some ⟨info, .completed since began⟩
  | .purgeFails host name => key ∈ s.purgedKeys host name
  | _ => False

/-- what an action does: what was held is held, dismissed or lost now; losses are only added or dismissed, and a new one
has its gap; a gap stays unless the action retires it or dismisses the whole generation -/
structure Frame (s s' : Sys) (a : Act) : Prop where
  kept : ∀ t ∈ s.kept, t ∈ s'.kept ∨ Dismissed s a t ∨ ∃ x ∈ s'.lost, x.tuple = t ∧ x.time = s.clock
  lost : ∀ x ∈ s.lost, x ∈ s'.lost ∨ Dismissed s a x.tuple
  fresh : ∀ x ∈ s'.lost, (x ∈ s.lost ∧ ¬ Dismissed s a x.tuple) ∨
    (x.time = s.clock ∧ Outstanding s'.gaps x.key x.line.tsNS)
  gaps : ∀ key tsNS, Outstanding s.gaps key tsNS →
    Outstanding s'.gaps key tsNS ∨ Clears s key a ∨ ∀ i, Dismissed s a (key, i)

/-- an action that loses and dismisses nothing and leaves the gaps alone -/
theorem frame_of_subset {s s' : Sys} {a : Act} (hd : ∀ t, ¬ Dismissed s a t) (hk : s.kept ⊆ s'.kept)
    (hl : s'.lost = s.lost) (hg : s'.gaps = s.gaps) : Frame s s' a where
  kept := fun _ ht => Or.inl (hk ht)
  lost := fun _ hx => Or.inl (hl ▸ hx)
  fresh := fun x hx => Or.inl ⟨hl ▸ hx, hd x.tuple⟩
  gaps := fun _ _ ho => Or.inl (hg ▸ ho)

theorem mem_lossesOf {batch : List IngestMsg} {clock : ℕ} {x : Loss} :
    x ∈ lossesOf batch clock ↔ ∃ m ∈ batch, m.body = .line x.line ∧ m.key = x.key ∧ x.time = clock := by
  simp only [lossesOf, List.mem_filterMap]
  constructor
  · intro ⟨m, hm, e⟩
    cases hb : m.body with
    | done reason =>
      rw [hb] at e
      cases e
    | line l =>
      rw [hb] at e
      obtain rfl := Option.some.inj e
      exact ⟨m, hm, hb, rfl, rfl⟩
  · intro ⟨m, hm, hb, hk, ht⟩
    refine ⟨m, hm, ?_⟩
    rw [hb, hk, ← ht]

theorem kept_enqueue (s : Sys) (m : IngestMsg) : s.kept ⊆ (s.enqueue m).kept := by
  intro t ht
  rcases ht with ht | ht
  · exact Or.inl ht
  · refine Or.inr ?_
    show t ∈ tuples (s.batch ++ (s.queue ++ [m]))
    rw [← List.append_assoc, tuples_append]
    exact Or.inl ht

theorem mem_kept_enqueue (s : Sys) {m : IngestMsg} {l : Line} (h : m.body = .line l) :
    (m.key, l.ident) ∈ (s.enqueue m).kept :=
  Or.inr ⟨m, by simp [enqueue], l, h, rfl⟩

theorem kept_of_enqueue {s : Sys} {m : IngestMsg} {t : Tuple} (h : t ∈ (s.enqueue m).kept) :
    t ∈ s.kept ∨ ∃ l, m.body = .line l ∧ (m.key, l.ident) = t := by
  rcases h with h | ⟨m', hm, l, hl, e⟩
  · exact Or.inl (Or.inl h)
  · simp only [enqueue, List.mem_append, List.mem_singleton] at hm
    rcases hm with hm | hm | rfl
    · exact Or.inl (Or.inr ⟨m', List.mem_append_left _ hm, l, hl, e⟩)
    · exact Or.inl (Or.inr ⟨m', List.mem_append_right _ hm, l, hl, e⟩)
    · exact Or.inr ⟨l, hl, e⟩

theorem kept_enqueue_done {s : Sys} {m : IngestMsg} {reason : String} (hm : m.body = .done reason) :
    (s.enqueue m).kept ⊆ s.kept := by
  intro t ht
  rcases kept_of_enqueue ht with ht | ⟨l, hl, -⟩
  · exact ht
  · rw [hm] at hl
    cases hl

theorem sink_frame (s : Sys) (r : Record) {a : Act} (hd : ∀ t, ¬ Dismissed s a t) : Frame s (s.sink r) a := by
  unfold sink
  split_ifs
  · exact frame_of_subset hd (kept_enqueue s r.msg) rfl rfl
  · refine ⟨fun t ht => Or.inl ht, fun x hx => Or.inl (List.mem_append_left _ hx), fun x hx => ?_, fun key tsNS ho => ?_⟩
    · rcases List.mem_append.1 hx with hx | hx
      · exact Or.inl ⟨hx, hd x.tuple⟩
      · obtain rfl := List.mem_singleton.1 hx
        exact Or.inr ⟨rfl, markGap_outstanding s.gaps r.key r.line.tsNS⟩
    · exact Or.inl (ho.mark r.key r.line.tsNS)

theorem rollback_frame (s : Sys) {a : Act} (hd : ∀ t, ¬ Dismissed s a t) : Frame s s.rollback a := by
  refine ⟨fun t ht => ?_, fun x hx => Or.inl (List.mem_append_left _ hx), fun x hx => ?_, fun key tsNS ho => ?_⟩
  · rcases ht with ht | ht
    · exact Or.inl (Or.inl ht)
    · rw [tuples_append] at ht
      rcases ht with ⟨m, hm, l, hb, rfl⟩ | ht
      · refine Or.inr (Or.inr ⟨⟨m.key, l, s.clock⟩, List.mem_append_right _ ?_, rfl, rfl⟩)
        exact mem_lossesOf.2 ⟨m, hm, hb, rfl, rfl⟩
      · exact Or.inl (Or.inr ht)
  · rcases List.mem_append.1 hx with hx | hx
    · exact Or.inl ⟨hx, hd x.tuple⟩
    · obtain ⟨m, hm, hb, hk, ht⟩ := mem_lossesOf.1 hx
      exact Or.inr ⟨ht, hk ▸ markBatchGaps_outstanding s.gaps hm hb⟩
  · exact Or.inl (ho.markBatch s.batch)

theorem handle_frame (s : Sys) (key : GenKey) : Frame s (s.handle key) (.handle key) := by
  have hd : ∀ t, ¬ Dismissed s (.handle key) t := fun _ h => h
  unfold handle
  split
  · rename_i info since began htask
    refine ⟨fun t ht => Or.inl ht, fun x hx => Or.inl hx, fun x hx => Or.inl ⟨hx, hd x.tuple⟩, fun key' tsNS ho => ?_⟩
    -- only the gap being healed goes
    show Outstanding ((s.track.land key).complete key s.resume s.gaps).2.2 key' tsNS ∨ _
    by_cases hz : s.track.healing key = 0
    · have he : (((s.track.land key).complete key s.resume s.gaps).2.2) = s.gaps := by
        simp [Tracker.complete, Tracker.land, hz]
      exact Or.inl (by rw [he]; exact ho)
    · have he : (((s.track.land key).complete key s.resume s.gaps).2.2) =
          clearGap s.gaps key (s.track.healing key) := by
        simp [Tracker.complete, Tracker.land, hz]
      rw [he]
      by_cases hk : key' = key
      · subst hk
        by_cases hc : gapAt s.gaps key' = s.track.healing key'
        · exact Or.inr (Or.inl ⟨rfl, hz, hc, info, since, began, htask⟩)
        · exact Or.inl (by rw [clearGap, if_neg hc]; exact ho)
      · obtain ⟨gap, hgap, hle⟩ := ho
        exact Or.inl ⟨gap, by rw [clearGap_other s.gaps hk, hgap], hle⟩
  · exact frame_of_subset hd (fun _ ht => ht) rfl rfl
  · exact frame_of_subset hd (fun _ ht => ht) rfl rfl
  · exact frame_of_subset hd (fun _ ht => ht) rfl rfl

theorem purge_frame {s : Sys} (h : Consistent s.store) (host name : String) :
    Frame s (s.purge host name) (.purge host name) := by
  refine ⟨fun t ht => ?_, fun x hx => ?_, fun x hx => ?_, fun key tsNS ho => ?_⟩
  · rcases ht with ht | ht
    · rcases stored_purge h host name ht with ht | hp
      · exact Or.inl (Or.inl ht)
      · exact Or.inr (Or.inl hp)
    · exact Or.inl (Or.inr ht)
  · by_cases hp : x.key ∈ s.purgedKeys host name
    · exact Or.inr hp
    · exact Or.inl (List.mem_filter.2 ⟨hx, by simpa using hp⟩)
  · obtain ⟨hx, hp⟩ := List.mem_filter.1 hx
    rw [decide_eq_true_eq] at hp
    exact Or.inl ⟨hx, hp⟩
  · by_cases hp : key ∈ s.purgedKeys host name
    · exact Or.inr (Or.inr fun _ => hp)
    · obtain ⟨gap, hgap, hle⟩ := ho
      exact Or.inl ⟨gap, by simp [purge, forget, hp, hgap], hle⟩

theorem purgeFails_kept (s : Sys) (host name : String) : (s.purgeFails host name).kept = s.kept := by
  unfold kept purgeFails
  dsimp only
  rw [purgeFails_db]

theorem purgeFails_frame (s : Sys) (host name : String) : Frame s (s.purgeFails host name) (.purgeFails host name) := by
  refine ⟨fun t ht => Or.inl ?_, fun x hx => Or.inl hx, fun x hx => Or.inl ⟨hx, fun h => h⟩, fun key tsNS ho => ?_⟩
  · rwa [purgeFails_kept]
  · by_cases hp : key ∈ s.purgedKeys host name
    · exact Or.inr (Or.inl hp)
    · obtain ⟨gap, hgap, hle⟩ := ho
      exact Or.inl ⟨gap, by simp [purgeFails, forget, hp, hgap], hle⟩

theorem evict_frame {s : Sys} (h : Consistent s.store) (refs : List ℕ) (excess : ℤ) :
    Frame s (s.evict refs excess) (.evict refs excess) := by
  refine ⟨fun t ht => ?_, fun x hx => ?_, fun x hx => ?_, fun key tsNS ho => Or.inl ho⟩
  · rcases ht with ht | ht
    · rcases stored_evict h.toWellFormed refs excess ht with ht | hv
      · exact Or.inl (Or.inl ht)
      · exact Or.inr (Or.inl hv)
    · exact Or.inl (Or.inr ht)
  · by_cases hv : Dismissed s (.evict refs excess) x.tuple
    · exact Or.inr hv
    · refine Or.inl (List.mem_filter.2 ⟨hx, ?_⟩)
      rw [decide_eq_true_eq]
      exact hv
  · obtain ⟨hx, hv⟩ := List.mem_filter.1 hx
    rw [decide_eq_true_eq] at hv
    exact Or.inl ⟨hx, hv⟩

/-- **What an action does to the lines, the losses and the gaps.** -/
theorem act_frame {s : Sys} (h : Consistent s.store) (a : Act) : Frame s (s.act a) a := by
  have same : ∀ {a : Act}, (∀ t, ¬ Dismissed s a t) → Frame s s a := fun hd => frame_of_subset hd (fun _ ht => ht) rfl rfl
  cases a with
  | emit r attached => exact frame_of_subset (fun _ h => h) (fun _ ht => ht) rfl rfl
  | deliver =>
    rcases deliver_cases s with e | ⟨r, rest, -, e⟩
    · rw [act, e]
      exact same fun _ h => h
    · rw [act, e]
      exact { sink_frame { s with hub := rest } r (a := .deliver) (fun _ h => h) with }
  | take =>
    rcases take_cases s with e | ⟨m, rest, hq, e⟩
    · rw [act, e]
      exact same fun _ h => h
    · rw [act, e]
      refine frame_of_subset (fun _ h => h) (fun t ht => ?_) rfl rfl
      rcases ht with ht | ht
      · exact Or.inl ht
      · refine Or.inr ?_
        show t ∈ tuples (s.batch ++ [m] ++ rest)
        rwa [List.append_assoc, List.singleton_append, ← hq]
  | flush nowMS ok =>
    have hd : ∀ t, ¬ Dismissed s (.flush nowMS ok) t := fun _ h => h
    rcases flush_cases s nowMS ok with e | e | ⟨store, hc, e⟩
    · rw [act, e]
      exact same hd
    · rw [act, e]
      exact rollback_frame s hd
    · have hst := (consistent_commit h hc).2
      rw [act, e]
      refine frame_of_subset hd (fun t ht => ?_) rfl rfl
      rcases ht with ht | ht
      · exact Or.inl (hst ▸ Or.inl ht)
      · rw [tuples_append] at ht
        rcases ht with ht | ht
        · exact Or.inl (hst ▸ Or.inr ht)
        · exact Or.inr ht
  | sync info nowMS =>
    refine frame_of_subset (fun _ h => h) (fun t ht => ?_) rfl rfl
    rcases ht with ht | ht
    · exact Or.inl ((stored_upsertMeta h.toWellFormed (keyOf info) info nowMS).symm ▸ ht)
    · exact Or.inr ht
  | resolve key ok =>
    rcases resolve_cases s key ok with e | ⟨info, -, e⟩
    · rw [act, e]
      exact same fun _ h => h
    · rw [act, e]
      exact frame_of_subset (fun _ h => h) (fun _ ht => ht) rfl rfl
  | read key =>
    rcases read_cases s key with e | ⟨info, since, -, e⟩
    · rw [act, e]
      exact same fun _ h => h
    · rw [act, e]
      exact frame_of_subset (fun _ h => h) (fun _ ht => ht) rfl rfl
  | send key =>
    rcases send_cases s key with e | ⟨info, since, began, l, rest, -, e⟩
    · rw [act, e]
      exact same fun _ h => h
    · rw [act, e]
      exact frame_of_subset (fun _ h => h) (kept_enqueue s _) rfl rfl
  | endRead key how =>
    rcases endRead_cases s key how with e | ⟨info, since, began, rest, reason, phase, -, -, e, -⟩
    · rw [act, e]
      exact same fun _ h => h
    · rw [act, e]
      exact frame_of_subset (fun _ h => h) (kept_enqueue s _) rfl rfl
  | handle key => exact handle_frame s key
  | purge host name => exact purge_frame h host name
  | purgeFails host name => exact purgeFails_frame s host name
  | evict refs excess => exact evict_frame h refs excess
  | stampRemoved key nowMS =>
    refine frame_of_subset (fun _ h => h) (fun t ht => ?_) rfl rfl
    rcases ht with ht | ht
    · exact Or.inl ((stored_stampRemoved h.toWellFormed key nowMS).symm ▸ ht)
    · exact Or.inr ht

/-! ## The backfills -/

/-- the backfill of the generation has opened the engine's log: its since, when its read began, and what it has yet to
send -/
def Reads (s : Sys) (key : GenKey) (since : ℤ) (began : ℕ) (rest : List Line) : Prop :=
  (∃ info, s.tasks key = some ⟨info, .reading since began rest⟩) ∨
    rest = [] ∧ ∃ info, s.tasks key = some ⟨info, .completed since began⟩

/-- what an action does to the backfill of a generation -/
inductive TaskStep (s : Sys) (key : GenKey) : Act → Option Task → Prop where
  | same (a : Act) : TaskStep s key a (s.tasks key)
  | sync (info : ContainerInfo) (nowMS : ℤ) (hk : keyOf info = key)
      (hs : ∃ excluded, (s.track.schedule (gapAt s.gaps key) key excluded).2 = true) :
      TaskStep s key (.sync info nowMS) (some ⟨info, .waiting⟩)
  | resolve (info : ContainerInfo) (ht : s.tasks key = some ⟨info, .waiting⟩) :
      TaskStep s key (.resolve key true)
        (some ⟨info, .resolved (backfillSince s.resume s.gaps s.store.db key info.created)⟩)
  | read (info : ContainerInfo) (since : ℤ) (ht : s.tasks key = some ⟨info, .resolved since⟩) :
      TaskStep s key (.read key)
        (some ⟨info, .reading since s.clock ((s.engine key).filter fun l => since ≤ l.tsNS)⟩)
  | send (info : ContainerInfo) (since : ℤ) (began : ℕ) (l : Line) (rest : List Line)
      (ht : s.tasks key = some ⟨info, .reading since began (l :: rest)⟩)
      (hl : (key, l.ident) ∈ (s.act (.send key)).kept) :
      TaskStep s key (.send key) (some ⟨info, .reading since began rest⟩)
  | completed (info : ContainerInfo) (since : ℤ) (began : ℕ) (ht : s.tasks key = some ⟨info, .reading since began []⟩) :
      TaskStep s key (.endRead key .ok) (some ⟨info, .completed since began⟩)
  | unresolved (info : ContainerInfo) (ht : s.tasks key = some ⟨info, .waiting⟩) :
      TaskStep s key (.resolve key false) (some ⟨info, .failed⟩)
  | failed (how : ReadEnd) (info : ContainerInfo) (since : ℤ) (began : ℕ) (rest : List Line) (hhow : how ≠ .ok)
      (hroom : s.queue.length < ingestBuffer) (ht : s.tasks key = some ⟨info, .reading since began rest⟩) :
      TaskStep s key (.endRead key how) (some ⟨info, .failed⟩)
  | excluded (how : ReadEnd) (info : ContainerInfo) (since : ℤ) (began : ℕ) (rest : List Line) (hhow : how ≠ .ok)
      (hroom : s.queue.length < ingestBuffer) (ht : s.tasks key = some ⟨info, .reading since began rest⟩) :
      TaskStep s key (.endRead key how) (some ⟨info, .excluded⟩)
  | handle : TaskStep s key (.handle key) none

/-- the backfill of one generation is set: the others are as they were -/
theorem taskStep_setPhase {s s' : Sys} {k key : GenKey} {a : Act} {info : ContainerInfo} {phase : Phase}
    (h : s'.tasks = s.tasks) (hp : k = key → TaskStep s key a (some ⟨info, phase⟩)) :
    TaskStep s key a ((s'.setPhase k info phase).tasks key) := by
  show TaskStep s key a (Function.update s'.tasks k (some ⟨info, phase⟩) key)
  rw [Function.update_apply, h]
  split_ifs with hk
  · exact hp hk.symm
  · exact .same a

/-- **What an action does to the backfills.** -/
theorem act_tasks (s : Sys) (a : Act) (key : GenKey) : TaskStep s key a ((s.act a).tasks key) := by
  cases a with
  | deliver =>
    rcases deliver_cases s with e | ⟨r, rest, -, e⟩
    · rw [act, e]
      exact .same _
    · rw [act, e]
      rcases sink_cases { s with hub := rest } r with e | e
      · rw [e]
        exact .same _
      · rw [e]
        exact .same _
  | take =>
    rcases take_cases s with e | ⟨m, rest, -, e⟩
    · rw [act, e]
      exact .same _
    · rw [act, e]
      exact .same _
  | flush nowMS ok =>
    rcases flush_cases s nowMS ok with e | e | ⟨store, -, e⟩
    · rw [act, e]
      exact .same _
    · rw [act, e]
      exact .same _
    · rw [act, e]
      exact .same _
  | sync info nowMS =>
    simp only [act, sync]
    split_ifs with hs
    · rw [Function.update_apply]
      split_ifs with hk
      · subst hk
        exact .sync info nowMS rfl ⟨_, hs⟩
      · exact .same _
    · exact .same _
  | resolve key' ok =>
    rcases resolve_cases s key' ok with e | ⟨info, htask, e⟩
    · rw [act, e]
      exact .same _
    · rw [act, e]
      apply taskStep_setPhase rfl
      intro hk
      subst hk
      cases ok with
      | true => exact .resolve info htask
      | false => exact .unresolved info htask
  | read key' =>
    rcases read_cases s key' with e | ⟨info, since, htask, e⟩
    · rw [act, e]
      exact .same _
    · rw [act, e]
      apply taskStep_setPhase rfl
      intro hk
      subst hk
      exact .read info since htask
  | send key' =>
    rcases send_cases s key' with e | ⟨info, since, began, l, rest, htask, e⟩
    · rw [act, e]
      exact .same _
    · have hkept : (key', l.ident) ∈ (s.act (.send key')).kept := by
        rw [act, e]
        exact mem_kept_enqueue s rfl
      rw [act, e]
      apply taskStep_setPhase rfl
      intro hk
      subst hk
      exact .send info since began l rest htask hkept
  | endRead key' how =>
    rcases endRead_cases s key' how with e | ⟨info, since, began, rest, reason, phase, hroom, htask, e, hphase⟩
    · rw [act, e]
      exact .same _
    · rw [act, e]
      apply taskStep_setPhase rfl
      intro hk
      subst hk
      rcases hphase with ⟨rfl, rfl, rfl⟩ | ⟨hhow, rfl | rfl⟩
      · exact .completed info since began htask
      · exact .failed how info since began rest hhow hroom htask
      · exact .excluded how info since began rest hhow hroom htask
  | handle key' =>
    rcases handle_cases s key' with e | ⟨track, resume, gaps, e⟩
    · rw [act, e]
      exact .same _
    · rw [act, e]
      show TaskStep s key (.handle key') (Function.update s.tasks key' none key)
      rw [Function.update_apply]
      split_ifs with hk
      · subst hk
        exact .handle
      · exact .same _
  | _ => exact .same _

/-- what an open read was before the action: the same read with at least as much to send, what it has sent since being
held; or it begins now -/
def ReadBefore (s s' : Sys) (key : GenKey) (since : ℤ) (began : ℕ) (rest' : List Line) : Prop :=
  (∃ rest, s.Reads key since began rest ∧ rest' ⊆ rest ∧ ∀ l ∈ rest, l ∈ rest' ∨ (key, l.ident) ∈ s'.kept) ∨
    (began = s.clock ∧ rest' = (s.engine key).filter (fun l => since ≤ l.tsNS) ∧
      ∃ info, s.tasks key = some ⟨info, .resolved since⟩)

theorem readBefore_same {s s' : Sys} {key : GenKey} {since : ℤ} {began : ℕ} {rest : List Line}
    (h : s.Reads key since began rest) : ReadBefore s s' key since began rest :=
  Or.inl ⟨rest, h, List.Subset.refl rest, fun _ hl => Or.inl hl⟩

/-- **What an action does to the open reads.** -/
theorem act_reads {s : Sys} (a : Act) {key : GenKey} {since : ℤ} {began : ℕ} {rest' : List Line}
    (h : (s.act a).Reads key since began rest') : ReadBefore s (s.act a) key since began rest' := by
  have hstep := act_tasks s a key
  unfold Reads at h
  generalize (s.act a).tasks key = task at hstep h
  cases hstep with
  | same => exact readBefore_same h
  | read info since' htask =>
    rcases h with ⟨info', e⟩ | ⟨-, info', e⟩
    · cases e
      exact Or.inr ⟨rfl, rfl, info, htask⟩
    · cases e
  | send info since' began' l rest htask hl =>
    rcases h with ⟨info', e⟩ | ⟨-, info', e⟩
    · cases e
      refine Or.inl ⟨l :: rest', Or.inl ⟨info, htask⟩, fun l' hl' => List.mem_cons_of_mem l hl', fun l' hl' => ?_⟩
      rcases List.mem_cons.1 hl' with rfl | hl'
      · exact Or.inr hl
      · exact Or.inl hl'
    · cases e
  | completed info since' began' htask =>
    rcases h with ⟨info', e⟩ | ⟨rfl, info', e⟩
    · cases e
    · cases e
      exact readBefore_same (Or.inl ⟨info, htask⟩)
  | sync info nowMS hk hs => simp at h
  | resolve info htask => simp at h
  | unresolved info htask => simp at h
  | failed how info since' began' rest hhow hroom htask => simp at h
  | excluded how info since' began' rest hhow hroom htask => simp at h
  | handle => simp at h

/-! ## Where the lines come from -/

/-- the parts of the state that only some actions touch -/
inductive Part where
  | engine
  | hub
  | gaps
  | lost
  | track
deriving DecidableEq, Repr

def touches : Act → Part → Bool
  | .emit _ _, p => p = .engine ∨ p = .hub
  | .deliver, p => p = .hub ∨ p = .gaps ∨ p = .lost
  | .flush _ _, p => p = .gaps ∨ p = .lost
  | .sync _ _, p => p = .track
  | .handle _, p => p = .track ∨ p = .gaps
  | .purge _ _, p => p = .gaps ∨ p = .lost
  | .purgeFails _ _, p => p = .gaps
  | .evict _ _, p => p = .lost
  | _, _ => false

/-- an action leaves alone what it does not touch -/
structure Untouched (s s' : Sys) (a : Act) : Prop where
  engine : touches a .engine = false → s'.engine = s.engine
  hub : touches a .hub = false → s'.hub = s.hub
  gaps : touches a .gaps = false → s'.gaps = s.gaps
  lost : touches a .lost = false → s'.lost = s.lost
  track : touches a .track = false → s'.track = s.track

theorem untouched_refl (s : Sys) (a : Act) : Untouched s s a :=
  ⟨fun _ => rfl, fun _ => rfl, fun _ => rfl, fun _ => rfl, fun _ => rfl⟩

theorem act_untouched (s : Sys) (a : Act) : Untouched s (s.act a) a := by
  cases a with
  | emit r attached => exact ⟨Bool.noConfusion, Bool.noConfusion, fun _ => rfl, fun _ => rfl, fun _ => rfl⟩
  | deliver =>
    rcases deliver_cases s with e | ⟨r, rest, -, e⟩
    · rw [act, e]
      exact untouched_refl s _
    · rw [act, e]
      rcases sink_cases { s with hub := rest } r with e | e
      · rw [e]
        exact ⟨fun _ => rfl, Bool.noConfusion, Bool.noConfusion, Bool.noConfusion, fun _ => rfl⟩
      · rw [e]
        exact ⟨fun _ => rfl, Bool.noConfusion, Bool.noConfusion, Bool.noConfusion, fun _ => rfl⟩
  | take =>
    rcases take_cases s with e | ⟨m, rest, -, e⟩
    · rw [act, e]
      exact untouched_refl s _
    · rw [act, e]
      exact ⟨fun _ => rfl, fun _ => rfl, fun _ => rfl, fun _ => rfl, fun _ => rfl⟩
  | flush nowMS ok =>
    rcases flush_cases s nowMS ok with e | e | ⟨store, -, e⟩
    · rw [act, e]
      exact untouched_refl s _
    · rw [act, e]
      exact ⟨fun _ => rfl, fun _ => rfl, Bool.noConfusion, Bool.noConfusion, fun _ => rfl⟩
    · rw [act, e]
      exact ⟨fun _ => rfl, fun _ => rfl, Bool.noConfusion, Bool.noConfusion, fun _ => rfl⟩
  | sync info nowMS => exact ⟨fun _ => rfl, fun _ => rfl, fun _ => rfl, fun _ => rfl, Bool.noConfusion⟩
  | resolve key ok =>
    rcases resolve_cases s key ok with e | ⟨info, -, e⟩
    · rw [act, e]
      exact untouched_refl s _
    · rw [act, e]
      exact ⟨fun _ => rfl, fun _ => rfl, fun _ => rfl, fun _ => rfl, fun _ => rfl⟩
  | read key =>
    rcases read_cases s key with e | ⟨info, since, -, e⟩
    · rw [act, e]
      exact untouched_refl s _
    · rw [act, e]
      exact ⟨fun _ => rfl, fun _ => rfl, fun _ => rfl, fun _ => rfl, fun _ => rfl⟩
  | send key =>
    rcases send_cases s key with e | ⟨info, since, began, l, rest, -, e⟩
    · rw [act, e]
      exact untouched_refl s _
    · rw [act, e]
      exact ⟨fun _ => rfl, fun _ => rfl, fun _ => rfl, fun _ => rfl, fun _ => rfl⟩
  | endRead key how =>
    rcases endRead_cases s key how with e | ⟨info, since, began, rest, reason, phase, -, -, e, -⟩
    · rw [act, e]
      exact untouched_refl s _
    · rw [act, e]
      exact ⟨fun _ => rfl, fun _ => rfl, fun _ => rfl, fun _ => rfl, fun _ => rfl⟩
  | handle key =>
    rcases handle_cases s key with e | ⟨track, resume, gaps, e⟩
    · rw [act, e]
      exact untouched_refl s _
    · rw [act, e]
      exact ⟨fun _ => rfl, fun _ => rfl, Bool.noConfusion, fun _ => rfl, Bool.noConfusion⟩
  | purge host name => exact ⟨fun _ => rfl, fun _ => rfl, Bool.noConfusion, Bool.noConfusion, fun _ => rfl⟩
  | purgeFails host name => exact ⟨fun _ => rfl, fun _ => rfl, Bool.noConfusion, fun _ => rfl, fun _ => rfl⟩
  | evict refs excess => exact ⟨fun _ => rfl, fun _ => rfl, fun _ => rfl, Bool.noConfusion, fun _ => rfl⟩
  | stampRemoved key nowMS => exact ⟨fun _ => rfl, fun _ => rfl, fun _ => rfl, fun _ => rfl, fun _ => rfl⟩

/-- a backfill under way is in flight for the schedule -/
theorem act_flying {s : Sys} (h : ∀ key task, s.tasks key = some task → s.track.inFlight key = true) (a : Act)
    (key : GenKey) (task : Task) (htask : (s.act a).tasks key = some task) : (s.act a).track.inFlight key = true := by
  cases ht : touches a .track with
  | false =>
    rw [(act_untouched s a).track ht]
    have hstep := act_tasks s a key
    rw [htask] at hstep
    generalize hsome : some task = task' at hstep
    cases hstep with
    | same => exact h key task hsome.symm
    | sync info nowMS hk hs => cases ht
    | resolve info hbefore | unresolved info hbefore | read info since hbefore => exact h key _ hbefore
    | send info since began l rest hbefore hl => exact h key _ hbefore
    | completed info since began hbefore => exact h key _ hbefore
    | failed how info since began rest hhow hroom hbefore => exact h key _ hbefore
    | excluded how info since began rest hhow hroom hbefore => exact h key _ hbefore
    | handle => cases hsome
  | true =>
    cases a with
    | sync info nowMS =>
      simp only [act, sync] at htask ⊢
      rw [Tracker.schedule_inFlight]
      split_ifs at htask ⊢ with hs
      · rw [Function.update_apply] at htask ⊢
        split_ifs at htask ⊢
        · rfl
        · exact h key task htask
      · exact h key task htask
    | handle key' =>
      by_cases hk : key = key'
      · subst hk
        rcases handle_self s key with ⟨hnone, -⟩ | e
        · rw [act, hnone] at htask
          cases htask
        · rw [act, e] at htask ⊢
          exact h key task htask
      · obtain ⟨etasks, eflight⟩ := handle_other (s := s) hk
        rw [act, etasks] at htask
        rw [act, eflight]
        exact h key task htask
    | _ => cases ht

/-- only a line that is logged changes the engine -/
theorem touches_engine {a : Act} (h : touches a .engine = true) : ∃ r attached, a = .emit r attached := by
  cases a with
  | emit r attached => exact ⟨r, attached, rfl⟩
  | _ => cases h

theorem mem_engine_emit {s : Sys} {r : Record} {attached : Bool} {key : GenKey} {l : Line} :
    l ∈ (s.act (.emit r attached)).engine key ↔ l ∈ s.engine key ∨ (r.key = key ∧ r.line = l) := by
  simp only [act, emit, Function.update_apply]
  split_ifs with hk
  · subst hk
    simp [eq_comm]
  · have hne : r.key ≠ key := fun e => hk e.symm
    simp [hne]

theorem engine_step (s : Sys) (a : Act) (key : GenKey) : s.engine key ⊆ (s.act a).engine key := by
  cases he : touches a .engine with
  | true =>
    obtain ⟨r, attached, rfl⟩ := touches_engine he
    intro l hl
    exact mem_engine_emit.2 (Or.inl hl)
  | false =>
    rw [(act_untouched s a).engine he]
    exact List.Subset.refl _

/-- a record leaves the hub into the queue, or it is lost -/
theorem act_hub {s : Sys} (a : Act) {r : Record} (hr : r ∈ s.hub) :
    r ∈ (s.act a).hub ∨ (r.key, r.line.ident) ∈ (s.act a).kept ∨
      ∃ x ∈ (s.act a).lost, x.tuple = (r.key, r.line.ident) := by
  cases a with
  | emit r' attached =>
    refine Or.inl ?_
    simp only [act, emit]
    split_ifs
    · exact List.mem_append_left _ hr
    · exact hr
  | deliver =>
    rcases deliver_cases s with e | ⟨r', rest, hhub, e⟩
    · left
      rwa [act, e]
    · rw [act, e]
      rw [hhub] at hr
      rcases sink_cases { s with hub := rest } r' with e | e
      · rw [e]
        rcases List.mem_cons.1 hr with rfl | hr
        · exact Or.inr (Or.inl (mem_kept_enqueue _ rfl))
        · exact Or.inl hr
      · rw [e]
        rcases List.mem_cons.1 hr with rfl | hr
        · exact Or.inr (Or.inr ⟨_, List.mem_append_right _ (List.mem_singleton_self _), rfl⟩)
        · exact Or.inl hr
  | _ =>
    left
    rw [(act_untouched s _).hub rfl]
    exact hr

/-- a line in the hub, in the queue or the batch, or among the losses -/
inductive Held (s : Sys) (key : GenKey) (l : Line) : Prop where
  | record (r : Record) (hr : r ∈ s.hub) (hk : r.key = key) (hl : r.line = l)
  | message (m : IngestMsg) (hm : m ∈ s.batch ++ s.queue) (hk : m.key = key) (hl : m.body = .line l)
  | loss (x : Loss) (hx : x ∈ s.lost) (hk : x.key = key) (hl : x.line = l)

/-- every line the pipeline holds or has yet to send is one the engine has -/
structure Sourced (s : Sys) : Prop where
  held : ∀ {key l}, s.Held key l → l ∈ s.engine key
  reads : ∀ {key since began rest}, s.Reads key since began rest → rest ⊆ s.engine key

/-- moving and losing the lines that are held shows nothing new -/
theorem Held.mono (s : Sys) {s' : Sys} {key : GenKey} {l : Line} (h : s'.Held key l) (hh : s'.hub ⊆ s.hub)
    (hm : s'.batch ++ s'.queue ⊆ s.batch ++ s.queue) (hl : ∀ x ∈ s'.lost, s.Held x.key x.line) : s.Held key l := by
  cases h with
  | record r hr hk e => exact .record r (hh hr) hk e
  | message m hm' hk e => exact .message m (hm hm') hk e
  | loss x hx hk e =>
    subst hk e
    exact hl x hx

theorem held_of_lost (s : Sys) : ∀ x ∈ s.lost, s.Held x.key x.line := fun x hx => .loss x hx rfl rfl

/-- an action that loses nothing and leaves the queues alone -/
theorem Held.same (s : Sys) {s' : Sys} {key : GenKey} {l : Line} (h : s'.Held key l) (hh : s'.hub = s.hub)
    (hb : s'.batch = s.batch) (hq : s'.queue = s.queue) (hl : s'.lost ⊆ s.lost) : s.Held key l := by
  refine h.mono s (hh ▸ List.Subset.refl _) ?_ fun x hx => held_of_lost s x (hl hx)
  rw [hb, hq]
  exact List.Subset.refl _

theorem held_enqueue {s : Sys} {m : IngestMsg} {key : GenKey} {l : Line} (h : (s.enqueue m).Held key l) :
    s.Held key l ∨ (m.key = key ∧ m.body = .line l) := by
  cases h with
  | record r hr hk e => exact Or.inl (.record r hr hk e)
  | loss x hx hk e => exact Or.inl (.loss x hx hk e)
  | message m' hm hk e =>
    simp only [enqueue, List.mem_append, List.mem_singleton] at hm
    rcases hm with hm | hm | rfl
    · exact Or.inl (.message m' (List.mem_append_left _ hm) hk e)
    · exact Or.inl (.message m' (List.mem_append_right _ hm) hk e)
    · exact Or.inr ⟨hk, e⟩

theorem held_deliver {s : Sys} {key : GenKey} {l : Line} (h : s.deliver.Held key l) : s.Held key l := by
  rcases deliver_cases s with e | ⟨r, rest, hhub, e⟩
  · rwa [e] at h
  · have hr : s.Held r.key r.line := .record r (by rw [hhub]; exact List.mem_cons_self) rfl rfl
    have hrest : rest ⊆ s.hub := by
      rw [hhub]
      exact List.subset_cons_self r rest
    rw [e] at h
    rcases sink_cases { s with hub := rest } r with e | e
    · rw [e] at h
      rcases held_enqueue h with h | ⟨hk, hbody⟩
      · exact h.mono s hrest (List.Subset.refl _) (held_of_lost s)
      · obtain rfl := Payload.line.inj hbody
        exact hk ▸ hr
    · rw [e] at h
      refine h.mono s hrest (List.Subset.refl _) fun x hx => ?_
      rcases List.mem_append.1 hx with hx | hx
      · exact held_of_lost s x hx
      · obtain rfl := List.mem_singleton.1 hx
        exact hr

theorem held_take {s : Sys} {key : GenKey} {l : Line} (h : s.take.Held key l) : s.Held key l := by
  rcases take_cases s with e | ⟨m, rest, hq, e⟩
  · rwa [e] at h
  · rw [e] at h
    refine h.mono s (List.Subset.refl _) ?_ (held_of_lost s)
    show s.batch ++ [m] ++ rest ⊆ s.batch ++ s.queue
    rw [hq, List.append_assoc, List.singleton_append]
    exact List.Subset.refl _

theorem held_rollback {s : Sys} {key : GenKey} {l : Line} (h : s.rollback.Held key l) : s.Held key l := by
  refine h.mono s (List.Subset.refl _) (List.subset_append_right _ _) fun x hx => ?_
  rcases List.mem_append.1 hx with hx | hx
  · exact held_of_lost s x hx
  · obtain ⟨m, hm, hb, hk, -⟩ := mem_lossesOf.1 hx
    exact .message m (List.mem_append_left _ hm) hk hb

theorem held_flush {s : Sys} {nowMS : ℤ} {ok : Bool} {key : GenKey} {l : Line} (h : (s.flush nowMS ok).Held key l) :
    s.Held key l := by
  rcases flush_cases s nowMS ok with e | e | ⟨store, -, e⟩
  · rwa [e] at h
  · rw [e] at h
    exact held_rollback h
  · rw [e] at h
    exact h.mono s (List.Subset.refl _) (List.subset_append_right _ _) (held_of_lost s)

/-- **The pipeline holds only lines the engine has.** -/
theorem act_sourced {s : Sys} (h : Sourced s) (a : Act) : Sourced (s.act a) := by
  refine ⟨fun {key l} hl => ?_, fun {key since began rest} hr l hl => ?_⟩
  · -- the line was held, is emitted now, or is sent by a backfill now
    have old : s.Held key l → l ∈ (s.act a).engine key := fun hs => engine_step s a key (h.held hs)
    cases a with
    | emit r attached =>
      cases hl with
      | record r' hr' hk e =>
        apply mem_engine_emit.2
        simp only [act, emit] at hr'
        split_ifs at hr' with hat
        · rcases List.mem_append.1 hr' with hr' | hr'
          · exact Or.inl (h.held (.record r' hr' hk e))
          · obtain rfl := List.mem_singleton.1 hr'
            exact Or.inr ⟨hk, e⟩
        · exact Or.inl (h.held (.record r' hr' hk e))
      | message m hm hk e => exact old (.message m hm hk e)
      | loss x hx hk e => exact old (.loss x hx hk e)
    | deliver => exact old (held_deliver hl)
    | take => exact old (held_take hl)
    | flush nowMS ok => exact old (held_flush hl)
    | sync info nowMS => exact old (hl.same s rfl rfl rfl (List.Subset.refl _))
    | resolve key' ok =>
      apply old
      rcases resolve_cases s key' ok with e | ⟨info, -, e⟩
      · rwa [act, e] at hl
      · rw [act, e] at hl
        exact hl.same s rfl rfl rfl (List.Subset.refl _)
    | read key' =>
      apply old
      rcases read_cases s key' with e | ⟨info, since, -, e⟩
      · rwa [act, e] at hl
      · rw [act, e] at hl
        exact hl.same s rfl rfl rfl (List.Subset.refl _)
    | send key' =>
      apply engine_step s (.send key') key
      rcases send_cases s key' with e | ⟨info, since, began, l', rest, htask, e⟩
      · rw [act, e] at hl
        exact h.held hl
      · rw [act, e] at hl
        rcases held_enqueue (hl.same (s.enqueue _) rfl rfl rfl (List.Subset.refl _)) with hl | ⟨hk, hbody⟩
        · exact h.held hl
        · obtain rfl := Payload.line.inj hbody
          obtain rfl : key' = key := hk
          exact h.reads (Or.inl ⟨info, htask⟩) List.mem_cons_self
    | endRead key' how =>
      apply old
      rcases endRead_cases s key' how with e | ⟨info, since, began, rest, reason, phase, -, -, e, -⟩
      · rwa [act, e] at hl
      · rw [act, e] at hl
        rcases held_enqueue (hl.same (s.enqueue _) rfl rfl rfl (List.Subset.refl _)) with hl | ⟨-, hbody⟩
        · exact hl
        · cases hbody
    | handle key' =>
      apply old
      rcases handle_cases s key' with e | ⟨track, resume, gaps, e⟩
      · rwa [act, e] at hl
      · rw [act, e] at hl
        exact hl.same s rfl rfl rfl (List.Subset.refl _)
    | purge host name =>
      exact old (hl.same s rfl rfl rfl (List.filter_subset_self _))
    | purgeFails host name => exact old (hl.same s rfl rfl rfl (List.Subset.refl _))
    | evict refs excess =>
      exact old (hl.same s rfl rfl rfl (List.filter_subset_self _))
    | stampRemoved key' nowMS => exact old (hl.same s rfl rfl rfl (List.Subset.refl _))
  · apply engine_step s a key
    rcases act_reads a hr with ⟨rest₀, h₀, hsub, -⟩ | ⟨-, rfl, -⟩
    · exact h.reads h₀ (hsub hl)
    · exact (List.mem_filter.1 hl).1

/-! ## Exclusion -/

/-- the generation has a row with a reason -/
def Excluded (db : DB) (key : GenKey) : Prop := ∃ c ∈ db.containers, c.key = key ∧ c.excludedReason ≠ ""

theorem isExcluded_iff {db : DB} (h : WellFormed db) {key : GenKey} : isExcluded db key = true ↔ Excluded db key := by
  unfold isExcluded
  cases hf : db.find key with
  | none =>
    constructor
    · intro he
      cases he
    · intro ⟨c, hc, hk, _⟩
      exact absurd hk (find_none hf c hc)
  | some c =>
    obtain ⟨hc, hk⟩ := find_mem hf
    simp only [decide_eq_true_eq]
    constructor
    · intro he
      exact ⟨c, hc, hk, he⟩
    · intro ⟨c', hc', hk', he⟩
      obtain rfl := h.row_eq_of_key hc hc' (hk.trans hk'.symm)
      exact he

/-- an UPDATE that keeps keys and blanks no reason -/
theorem excluded_touch {db : DB} {key : GenKey} (h : Excluded db key) (p : ContainerRow → Prop) [DecidablePred p]
    (f : ContainerRow → ContainerRow) (hk : ∀ c, (f c).key = c.key)
    (hf : ∀ c, c.excludedReason ≠ "" → (f c).excludedReason ≠ "") : Excluded (db.updateWhere p f) key := by
  obtain ⟨c, hc, rfl, he⟩ := h
  refine ⟨if p c then f c else c, mem_updateWhere.2 ⟨c, hc, rfl⟩, ?_, ?_⟩
  · split_ifs
    · exact hk c
    · rfl
  · split_ifs
    · exact hf c he
    · exact he

theorem excluded_append {db : DB} {key : GenKey} (h : Excluded db key) (rows : List ContainerRow) :
    Excluded { db with containers := db.containers ++ rows } key := by
  obtain ⟨c, hc, hk, he⟩ := h
  exact ⟨c, List.mem_append_left _ hc, hk, he⟩

theorem excluded_upsert {db : DB} {key : GenKey} (h : Excluded db key) (key' : GenKey) (name project : String)
    (nowMS : ℤ) : Excluded (upsertGeneration db key' name project nowMS).1 key := by
  unfold upsertGeneration
  cases hf : db.find key' with
  | some c => exact excluded_touch h _ _ (fun _ => rfl) fun _ he => he
  | none => exact excluded_append h _

theorem excluded_commit {db db' : DB} {refs refs' : Refs} {batch : List IngestMsg} {nowMS : ℤ} {key : GenKey}
    (h : Excluded db key) (hc : commit db refs batch nowMS = .ok (db', refs')) : Excluded db' key := by
  obtain ⟨_, hI, -⟩ := commit_induction (I := fun d _ => Excluded d key)
    (fun d _ m _ hd _ _ => excluded_upsert hd m.key m.name m.project nowMS)
    (fun d _ ref reason hr hd => excluded_touch hd _ _ (fun _ => rfl) fun _ _ => hr)
    (fun d _ ref l m _ hd _ _ _ _ => excluded_touch hd (fun c => c.id = ref)
      (fun c => c.credit (({} : Agg).add l) nowMS) (fun _ => rfl) fun _ he => he) h hc
  exact hI

theorem excluded_tryCommit {st st' : Store} {batch : List IngestMsg} {nowMS : ℤ} {key : GenKey}
    (h : Excluded st.db key) (hc : st.tryCommit batch nowMS = .ok st') : Excluded st'.db key := by
  cases hq : commit st.dropInvalidated.db st.dropInvalidated.refs batch nowMS with
  | error e => simp [Store.tryCommit, hq] at hc
  | ok q =>
    simp only [Store.tryCommit, hq, Except.ok.injEq] at hc
    subst hc
    exact excluded_commit h hq

/-- only a purge forgets an exclusion -/
theorem excluded_act {s : Sys} {a : Act} {key : GenKey} (ha : ∀ host name, a ≠ .purge host name)
    (h : Excluded s.store.db key) : Excluded (s.act a).store.db key := by
  by_cases hwr : Writes a
  swap
  · rwa [store_act s hwr]
  cases a with
  | flush nowMS ok =>
    rcases flush_cases s nowMS ok with e | e | ⟨store, hc, e⟩
    · rwa [act, e]
    · rwa [act, e]
    · rw [act, e]
      exact excluded_tryCommit h hc
  | sync info nowMS =>
    show Excluded (upsertMeta s.store.db (keyOf info) info nowMS) key
    unfold upsertMeta
    cases hf : s.store.db.find (keyOf info) with
    | some c => exact excluded_touch h _ _ (fun _ => rfl) fun _ he => he
    | none => exact excluded_append h _
  | purge host name => exact absurd rfl (ha host name)
  | purgeFails host name =>
    show Excluded (s.store.deleteContainerStep host name false).db key
    rwa [purgeFails_db]
  | evict refs excess =>
    obtain ⟨c, hc, hk, he⟩ := h
    have e := evictRows_map (fun c => (c.key, c.excludedReason)) (fun _ _ => rfl) s.store.db
      (victims s.store.db refs excess)
    have hm : (c.key, c.excludedReason) ∈ (s.store.db.evictRows (victims s.store.db refs excess)).containers.map
        fun c => (c.key, c.excludedReason) := e ▸ List.mem_map_of_mem hc
    obtain ⟨c', hc', e'⟩ := List.mem_map.1 hm
    simp only [Prod.mk.injEq] at e'
    exact ⟨c', hc', e'.1.trans hk, e'.2 ▸ he⟩
  | stampRemoved key' nowMS => exact excluded_touch h _ _ (fun _ => rfl) fun _ he => he
  | _ => exact hwr.elim

/-- **An exclusion stays** until the generation is purged. -/
theorem act_excluded {s : Sys} (hw : WellFormed s.store.db) (a : Act) {key : GenKey} (h : Excluded s.store.db key) :
    Excluded (s.act a).store.db key ∨ ∀ i, Dismissed s a (key, i) := by
  by_cases ha : ∀ host name, a ≠ .purge host name
  · exact Or.inl (excluded_act ha h)
  push Not at ha
  obtain ⟨host, name, rfl⟩ := ha
  obtain ⟨c, hc, rfl, he⟩ := h
  show Excluded (s.store.deleteContainerStep host name true).db c.key ∨ _
  rw [deleteContainerStep_db]
  by_cases hp : c.id ∈ (generationsOf s.store.db host name).map fun c => c.id
  · right
    intro i
    obtain ⟨c', hc', e⟩ := List.mem_map.1 hp
    obtain rfl := hw.row_eq_of_id (List.mem_filter.1 hc').1 hc e
    exact List.mem_map.2 ⟨c', hc', rfl⟩
  · exact Or.inl ⟨c, List.mem_filter.2 ⟨hc, by simpa using hp⟩, rfl, he⟩

end Sys

end LogDeck.Pipeline
