/-
The data model of the log store (`internal/logstore`): the two tables of its SQLite database.

- `containers`: one row per generation, an engine container id on one host. UNIQUE(host, container_id), `id` is the
  INTEGER PRIMARY KEY. A logical container is a (host, name) pair.
- `log_lines`: one row per stored line. `container_ref` is a foreign key on `containers.id`.

Both tables hand out `max(rowid) + 1` (no AUTOINCREMENT), so the largest id is handed out again once its row is
deleted. Timestamps are nanoseconds and milliseconds since the epoch; a raw line is a byte string.
-/
import Mathlib.Data.List.MinMax
import Mathlib.Tactic

namespace LogDeck.LogStore

/-- one container generation: an engine container id on one host -/
structure GenKey where
  host : String
  id : String
deriving DecidableEq, Repr

inductive Stream where
  | stdout
  | stderr
deriving DecidableEq, Repr

/-- a storable line; `raw` is the engine's line verbatim -/
structure Line where
  tsNS : ℤ
  stream : Stream
  level : ℕ
  raw : List UInt8
deriving DecidableEq, Repr

/-- what `insertLine` compares: the level is not part of a line's identity -/
def Line.ident (l : Line) : ℤ × Stream × List UInt8 := (l.tsNS, l.stream, l.raw)

/-- `len(raw)`, and `length(CAST(raw AS BLOB))` on the stored row -/
def Line.size (l : Line) : ℤ := l.raw.length

/-- a row of `containers`; `key` is the (host, container_id) pair -/
structure ContainerRow where
  id : ℕ
  key : GenKey
  name : String
  composeProject : String := ""
  image : String := ""
  firstSeenMS : ℤ
  lastSeenMS : ℤ
  removedMS : Option ℤ := none
  storedBytes : ℤ := 0
  stdoutWM : ℤ := 0
  stderrWM : ℤ := 0
  excludedReason : String := ""
deriving DecidableEq, Repr

def ContainerRow.wm (c : ContainerRow) : Stream → ℤ
  | .stdout => c.stdoutWM
  | .stderr => c.stderrWM

/-- a row of `log_lines` -/
structure LineRow where
  rowid : ℕ
  ref : ℕ
  line : Line
  /-- ghost: the generation key the line was committed under. No operation reads it. -/
  origin : GenKey
deriving DecidableEq, Repr

structure DB where
  containers : List ContainerRow
  lines : List LineRow
deriving DecidableEq, Repr

namespace DB

def empty : DB := ⟨[], []⟩

/-- the row of a generation, UNIQUE(host, container_id) -/
def find (db : DB) (key : GenKey) : Option ContainerRow := db.containers.find? (fun c => c.key = key)

/-- UPDATE containers SET .. WHERE p -/
def updateWhere (db : DB) (p : ContainerRow → Prop) [DecidablePred p] (f : ContainerRow → ContainerRow) : DB :=
  { db with containers := db.containers.map fun c => if p c then f c else c }

/-- `container_ref REFERENCES containers(id)` is satisfied by this reference -/
def HasRef (db : DB) (ref : ℕ) : Prop := ∃ c ∈ db.containers, c.id = ref

instance (db : DB) (ref : ℕ) : Decidable (db.HasRef ref) := by unfold HasRef; infer_instance

/-- the lines stored under a row -/
def linesOf (db : DB) (ref : ℕ) : List LineRow := db.lines.filter fun l => l.ref = ref

/-- the bytes of the raw text of the lines that satisfy p -/
def bytesWhere (db : DB) (p : LineRow → Prop) [DecidablePred p] : ℤ :=
  ((db.lines.filter fun l => p l).map fun l => l.line.size).sum

/-- the bytes of the raw text actually stored under a row -/
def bytesOf (db : DB) (ref : ℕ) : ℤ := ((db.linesOf ref).map fun l => l.line.size).sum

end DB

/-- the rowid SQLite gives a new row of a table without AUTOINCREMENT: one past the largest in use -/
def nextRowid (ids : List ℕ) : ℕ := ids.foldr max 0 + 1

theorem lt_nextRowid {ids : List ℕ} {i : ℕ} (h : i ∈ ids) : i < nextRowid ids :=
  Nat.lt_succ_of_le (List.le_max_of_le h le_rfl)

theorem nextRowid_notMem (ids : List ℕ) : nextRowid ids ∉ ids := fun h => absurd (lt_nextRowid h) (lt_irrefl _)

/-- the largest id is handed out again once its row is gone -/
example : nextRowid [1, 2] = 3 ∧ nextRowid [1] = 2 := by decide

end LogDeck.LogStore
