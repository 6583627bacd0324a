/-
The writer's transaction (`ingest.go`): `commit` writes one batch of queued messages.

The writer keeps a cache from generation keys to row ids (`refs`). Ids discovered inside a transaction are held aside
(`fresh`) and published to the cache only when the transaction commits. Bytes and watermarks are gathered per row
(`aggs`) and applied once at the end of the transaction.

`Store` is what the writer and `DeleteContainer` share: the database, the writer's cache and the set of purged keys
that the writer has not yet dropped from it. Not modelled: the `committed` counter (read by the stress harness only).
-/
import LogDeck.LogStore.Schema

namespace LogDeck.LogStore

/-- what a queued message carries: a line to store (`msgLine`), or the end of a generation's backfill (`msgDone`, with
a non-empty reason when the generation is excluded) -/
inductive Payload where
  | line (l : Line)
  | done (reason : String)
deriving DecidableEq, Repr

structure IngestMsg where
  key : GenKey
  name : String
  project : String
  body : Payload
deriving DecidableEq, Repr

/-- generation -> containers.id -/
abbrev Refs := GenKey → Option ℕ

/-- why a statement fails without any fault of the environment -/
inductive Fault where
  | foreignKey
deriving DecidableEq, Repr

/-- an empty incoming value never overwrites a stored one -/
def keepNonEmpty (stored incoming : String) : String := if incoming ≠ "" then incoming else stored

/-- INSERT INTO containers .. ON CONFLICT(host, container_id) DO UPDATE .. RETURNING id -/
def upsertGeneration (db : DB) (key : GenKey) (name project : String) (nowMS : ℤ) : DB × ℕ :=
  match db.find key with
  | some c =>
    (db.updateWhere (fun r => r.key = key) fun r =>
      { r with name := keepNonEmpty r.name name, composeProject := keepNonEmpty r.composeProject project,
               lastSeenMS := nowMS }, c.id)
  | none =>
    let id := nextRowid (db.containers.map fun c => c.id)
    ({ db with containers := db.containers ++
        [{ id := id, key := key, name := name, composeProject := project, firstSeenMS := nowMS,
           lastSeenMS := nowMS }] }, id)

/-- an identical (ts_ns, stream, raw) row is already stored for the generation -/
def DB.HasLine (db : DB) (ref : ℕ) (l : Line) : Prop := ∃ r ∈ db.lines, r.ref = ref ∧ r.line.ident = l.ident

instance (db : DB) (ref : ℕ) (l : Line) : Decidable (db.HasLine ref l) := by unfold DB.HasLine; infer_instance

/-- INSERT INTO log_lines: the row appended under the next rowid -/
def DB.addLine (db : DB) (ref : ℕ) (l : Line) (origin : GenKey) : DB :=
  { db with lines := db.lines ++ [⟨nextRowid (db.lines.map fun r => r.rowid), ref, l, origin⟩] }

/-- INSERT .. WHERE NOT EXISTS, and whether a row was written. A reference to no row fails the statement. -/
def insertLine (db : DB) (ref : ℕ) (l : Line) (origin : GenKey) : Except Fault (DB × Bool) :=
  if db.HasLine ref l then .ok (db, false)
  else if db.HasRef ref then .ok (db.addLine ref l origin, true)
  else .error .foreignKey

/-- per-generation aggregates, applied once at the end of the transaction -/
structure Agg where
  bytes : ℤ := 0
  stdoutWM : ℤ := 0
  stderrWM : ℤ := 0
deriving DecidableEq, Repr

def Agg.add (a : Agg) (l : Line) : Agg :=
  match l.stream with
  | .stderr => { a with bytes := a.bytes + l.size, stderrWM := max a.stderrWM l.tsNS }
  | .stdout => { a with bytes := a.bytes + l.size, stdoutWM := max a.stdoutWM l.tsNS }

/-- the state of one write transaction -/
structure Tx where
  db : DB
  fresh : Refs
  aggs : ℕ → Option Agg

/-- the row a message is filed under: the cached id, else one this transaction discovered, else an upsert -/
def resolve (refs : Refs) (nowMS : ℤ) (db : DB) (fresh : Refs) (m : IngestMsg) : DB × Refs × ℕ :=
  match refs m.key with
  | some ref => (db, fresh, ref)
  | none =>
    match fresh m.key with
    | some ref => (db, fresh, ref)
    | none =>
      let (db, ref) := upsertGeneration db m.key m.name m.project nowMS
      (db, Function.update fresh m.key (some ref), ref)

/-- UPDATE containers SET excluded_reason = ? WHERE id = ? -/
def setExcluded (db : DB) (ref : ℕ) (reason : String) : DB :=
  db.updateWhere (fun r => r.id = ref) fun r => { r with excludedReason := reason }

/-- the body of commit's loop -/
def commitMsg (refs : Refs) (nowMS : ℤ) (t : Tx) (m : IngestMsg) : Except Fault Tx :=
  let (db, fresh, ref) := resolve refs nowMS t.db t.fresh m
  match m.body with
  | .done reason => .ok { t with db := if reason ≠ "" then setExcluded db ref reason else db, fresh := fresh }
  | .line l =>
    match insertLine db ref l m.key with
    | .error e => .error e
    | .ok (db, false) => .ok { t with db := db, fresh := fresh }
    | .ok (db, true) =>
      .ok { db := db, fresh := fresh, aggs := Function.update t.aggs ref (some (((t.aggs ref).getD {}).add l)) }

/-- the UPDATE that applies one aggregate to its row -/
def ContainerRow.credit (c : ContainerRow) (a : Agg) (nowMS : ℤ) : ContainerRow :=
  { c with storedBytes := c.storedBytes + a.bytes, stdoutWM := max c.stdoutWM a.stdoutWM,
           stderrWM := max c.stderrWM a.stderrWM, lastSeenMS := nowMS }

def settleRow (aggs : ℕ → Option Agg) (nowMS : ℤ) (c : ContainerRow) : ContainerRow :=
  match aggs c.id with
  | some a => c.credit a nowMS
  | none => c

/-- `for ref, a := range aggs`: each row is updated once, in no particular order -/
def applyAggs (db : DB) (aggs : ℕ → Option Agg) (nowMS : ℤ) : DB :=
  { db with containers := db.containers.map (settleRow aggs nowMS) }

/-- `for key, ref := range fresh { refs[key] = ref }` -/
def publish (refs fresh : Refs) : Refs := fun k => (fresh k).or (refs k)

/-- one batch in a single transaction; an error leaves the database and the cache as they were -/
def commit (db : DB) (refs : Refs) (batch : List IngestMsg) (nowMS : ℤ) : Except Fault (DB × Refs) := do
  let t ← batch.foldlM (commitMsg refs nowMS) ⟨db, fun _ => none, fun _ => none⟩
  return (applyAggs t.db t.aggs nowMS, publish refs t.fresh)

/-! ## The store: database, ref cache and invalidated generations -/

structure Store where
  db : DB
  /-- the writer's cache -/
  refs : Refs
  /-- generations DeleteContainer removed, until the writer has dropped them from its cache -/
  invalidated : List GenKey

namespace Store

def init : Store := ⟨.empty, fun _ => none, []⟩

/-- evicts purged generations from the writer's ref cache -/
def dropInvalidated (s : Store) : Store :=
  { s with refs := fun k => if k ∈ s.invalidated then none else s.refs k, invalidated := [] }

/-- the writer's transaction: drop what purges invalidated, then write the batch -/
def tryCommit (s : Store) (batch : List IngestMsg) (nowMS : ℤ) : Except Fault Store :=
  let s := s.dropInvalidated
  match commit s.db s.refs batch nowMS with
  | .ok (db, refs) => .ok { s with db := db, refs := refs }
  | .error e => .error e

/-- what is left after a transaction that rolled back: the cache stays without the invalidated keys -/
def commitStep (s : Store) (batch : List IngestMsg) (nowMS : ℤ) : Store :=
  match s.tryCommit batch nowMS with
  | .ok s' => s'
  | .error _ => s.dropInvalidated

end Store

end LogDeck.LogStore
