/-
Retention's transactions (`janitor.go`): `evictOldest` deletes the oldest lines of a set of generation rows until it
has freed the bytes asked for, at most `deleteChunk` rows at a time; `pruneEmptyGenerations` drops the rows of removed
generations that hold no line.
-/
import LogDeck.LogStore.Lifecycle

namespace LogDeck.LogStore

def bytesPerMB : ℤ := 1024 * 1024

/-- the rows one eviction transaction reads at most -/
def deleteChunk : ℕ := 5000

/-- the order of `ORDER BY ts_ns, rowid` -/
def Older (a b : LineRow) : Prop := a.line.tsNS < b.line.tsNS ∨ (a.line.tsNS = b.line.tsNS ∧ a.rowid ≤ b.rowid)

instance : DecidableRel Older := fun a b => by unfold Older; infer_instance

/-- SELECT .. FROM log_lines WHERE container_ref IN (refs) ORDER BY ts_ns, rowid -/
def oldestFirst (db : DB) (refs : List ℕ) : List LineRow :=
  (db.lines.filter fun l => l.ref ∈ refs).insertionSort Older

/-- the scan of evictOldest: takes rows until `freed >= excess` -/
def scanVictims (excess : ℤ) : ℤ → List LineRow → List LineRow
  | _, [] => []
  | freed, l :: rest =>
    if freed + l.line.size ≥ excess then [l] else l :: scanVictims excess (freed + l.line.size) rest

def victims (db : DB) (refs : List ℕ) (excess : ℤ) : List LineRow :=
  scanVictims excess 0 ((oldestFirst db refs).take deleteChunk)

def freedBytes (vs : List LineRow) : ℤ := (vs.map fun l => l.line.size).sum

/-- DELETE FROM log_lines WHERE rowid IN (..), and for every row a line was taken from
`stored_bytes = max(0, stored_bytes - size)` -/
def DB.evictRows (db : DB) (vs : List LineRow) : DB :=
  { containers := db.containers.map fun c =>
      if c.id ∈ vs.map (fun l => l.ref) then
        { c with storedBytes := max 0 (c.storedBytes - freedBytes (vs.filter fun l => l.ref = c.id)) }
      else c
    lines := db.lines.filter fun l => l.rowid ∉ vs.map fun v => v.rowid }

/-- one eviction transaction, and the bytes it freed -/
def evictOldest (db : DB) (refs : List ℕ) (excess : ℤ) : DB × ℤ :=
  let vs := victims db refs excess
  (db.evictRows vs, freedBytes vs)

/-- a removed generation whose lines are all gone -/
def IsEmptyGeneration (db : DB) (c : ContainerRow) : Prop := c.removedMS ≠ none ∧ ∀ l ∈ db.lines, l.ref ≠ c.id

instance (db : DB) (c : ContainerRow) : Decidable (IsEmptyGeneration db c) := by
  unfold IsEmptyGeneration; infer_instance

def pruneEmptyGenerations (db : DB) : DB :=
  { db with containers := db.containers.filter fun c => ¬ IsEmptyGeneration db c }

end LogDeck.LogStore
