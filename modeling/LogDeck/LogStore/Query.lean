/-
The history query (`query.go`): one page of the stored lines of a logical container.

A query is not one transaction: it reads the generations of the name, then chunks of rows, newest first, one SELECT per
round, and the writer and the sweep commit in between. `env i` is the database that the i-th of these reads sees, so a
theorem for every `env` covers every interleaving. `query` returns the page and the index of the next read; `none` stands
for a round loop that has not stopped within the fuel.

The line parser, the case mappings and the pattern engine are parameters (`Text`).
-/
import LogDeck.Lib.Base64
import LogDeck.Lib.Decimal
import LogDeck.LogStore.Janitor
import LogDeck.Models.Logs

namespace LogDeck.LogStore

open LogDeck.Models

/-- what the query uses of the line parser and of the standard library -/
structure Text where
  /-- level and message of `ParseLogLine` -/
  parse : List UInt8 → Stream → LogLevel × String
  toLower : String → String
  toUpper : String → String
  /-- `regexp.Compile`, as the compiled pattern's `MatchString` -/
  compile : String → Option (String → Bool)

def defaultQueryLimit : ℤ := 500
def maxQueryLimit : ℤ := 1000
def scanChunk : ℕ := 1000

/-- the time window in nanoseconds; `none` is the zero time -/
structure LogQuery where
  host : String
  container : String
  sinceNS : Option ℤ := none
  untilNS : Option ℤ := none
  levels : List String := []
  search : String := ""
  regex : Bool := false
  limit : ℤ := 0
  cursor : String := ""
deriving DecidableEq, Repr

structure LogPage where
  entries : List LogEntry
  nextCursor : String := ""
deriving DecidableEq, Repr

/-- what a query fails with: `invalid search pattern: ..` and `invalid cursor` -/
inductive QueryError where
  | invalidPattern
  | invalidCursor
deriving DecidableEq, Repr

/-! ## The matcher -/

def levelSeverities (t : Text) (levels : List String) : List ℕ :=
  levels.foldl (fun severities level =>
    if level = "" then severities
    else
      let severity := LevelSeverity (LogLevel.ofName (t.toUpper (trimSpace level)))
      if severity ∈ severities then severities else severities ++ [severity]) []

structure Matcher where
  levels : List ℕ
  needle : String := ""
  regex : Option (String → Bool) := none

def newMatcher (t : Text) (q : LogQuery) : Except QueryError Matcher :=
  let levels := levelSeverities t q.levels
  if q.search = "" then .ok { levels := levels }
  else if q.regex then
    match t.compile ("(?i)" ++ q.search) with
    | some compiled => .ok { levels := levels, regex := some compiled }
    | none => .error .invalidPattern
  else .ok { levels := levels, needle := t.toLower q.search }

namespace Matcher

def active (m : Matcher) : Bool := m.levels ≠ [] || m.needle ≠ "" || m.regex.isSome

def «matches» (m : Matcher) (t : Text) (entry : LogEntry) : Bool :=
  if m.levels ≠ [] ∧ LevelSeverity entry.level ∉ m.levels then false
  else
    match m.regex with
    | some regex => regex entry.message
    | none => if m.needle ≠ "" then m.needle.toList <:+: (t.toLower entry.message).toList else true

end Matcher

/-! ## Cursors -/

structure CursorPos where
  tsNS : ℤ
  rowid : ℤ
deriving DecidableEq, Repr

/-- `ts_ns < ? OR (ts_ns = ? AND rowid < ?)` -/
def CursorPos.Before (a b : CursorPos) : Prop := a.tsNS < b.tsNS ∨ (a.tsNS = b.tsNS ∧ a.rowid < b.rowid)

instance (a b : CursorPos) : Decidable (a.Before b) := by unfold CursorPos.Before; infer_instance

def LineRow.pos (l : LineRow) : CursorPos := ⟨l.line.tsNS, l.rowid⟩

/-- base64 of "ts:rowid" -/
def encodeCursor (tsNS rowid : ℤ) : String :=
  String.ofList (Base64.encode ((Decimal.render tsNS ++ ':' :: Decimal.render rowid).map fun c => UInt8.ofNat c.toNat))

def decodeCursor (cursor : String) : Except QueryError CursorPos :=
  match Base64.decode cursor.toList with
  | none => .error .invalidCursor
  | some decoded =>
    let text := decoded.map fun b => Char.ofNat b.toNat
    match text.dropWhile (fun c => c ≠ ':') with
    | [] => .error .invalidCursor
    | _ :: rowPart =>
      match Decimal.parseInt64 (text.takeWhile fun c => c ≠ ':'), Decimal.parseInt64 rowPart with
      | some tsNS, some rowid => .ok ⟨tsNS, rowid⟩
      | _, _ => .error .invalidCursor

/-! ## Reading rows -/

structure Generation where
  ref : ℕ
  id : String
  name : String
deriving DecidableEq, Repr

/-- an empty host matches the name on every host -/
def generations (db : DB) (host name : String) : List Generation :=
  if name = "" then []
  else
    (db.containers.filter fun c => c.name = name ∧ (host = "" ∨ c.key.host = host)).map fun c =>
      ⟨c.id, c.key.id, c.name⟩

/-- one scanned row: the entry it parses to and where it sits -/
structure StoredRow where
  entry : LogEntry
  pos : CursorPos
deriving DecidableEq, Repr

def entryFromRow (t : Text) (l : LineRow) (gen : Generation) : LogEntry :=
  let parsed := t.parse l.line.raw l.line.stream
  { timestamp := l.line.tsNS, level := parsed.1, message := parsed.2, stream := l.line.stream, raw := l.line.raw,
    containerID := gen.id, containerName := gen.name, rows := [l] }

/-- `byRef[ref]` -/
def byRef (gens : List Generation) (ref : ℕ) : Generation := (gens.find? fun g => g.ref = ref).getD ⟨0, "", ""⟩

def storedRow (t : Text) (gens : List Generation) (l : LineRow) : StoredRow :=
  ⟨entryFromRow t l (byRef gens l.ref), l.pos⟩

/-- the WHERE clause of buildSelect -/
def Selected (gens : List Generation) (q : LogQuery) (before : Option CursorPos) (l : LineRow) : Prop :=
  l.ref ∈ gens.map (fun g => g.ref) ∧ (∀ ts ∈ q.sinceNS, ts ≤ l.line.tsNS) ∧ (∀ ts ∈ q.untilNS, l.line.tsNS ≤ ts) ∧
    ∀ pos ∈ before, l.pos.Before pos

instance (gens : List Generation) (q : LogQuery) (before : Option CursorPos) (l : LineRow) :
    Decidable (Selected gens q before l) := by unfold Selected; infer_instance

/-- ORDER BY ts_ns DESC, rowid DESC -/
def newestFirst (db : DB) (p : LineRow → Prop) [DecidablePred p] : List LineRow :=
  (db.lines.filter fun l => p l).insertionSort fun a b => Older b a

/-- one chunk of rows, newest first, strictly older than `before` -/
def scanRows (t : Text) (db : DB) (gens : List Generation) (q : LogQuery) (before : Option CursorPos) (chunk : ℕ) :
    List StoredRow :=
  ((newestFirst db (Selected gens q before)).take chunk).map (storedRow t gens)

/-! ## Grouping rows -/

/-- the entries so far with the positions of their first rows, and the index at which the oldest entry begins -/
structure Grouped where
  entries : List LogEntry
  anchors : List CursorPos
  openAt : ℕ
deriving DecidableEq, Repr

/-- the body of groupRows' loop, at row i -/
def groupRow (g : Grouped) (i : ℕ) (row : StoredRow) : Grouped :=
  let start : Grouped := { g with entries := g.entries ++ [row.entry], anchors := g.anchors ++ [row.pos] }
  match g.entries.getLast? with
  | none => start
  | some last =>
    if last.containerID = row.entry.containerID then
      match GroupRelatedLogEntries [last, row.entry] with
      | [merged] =>
        { g with entries := g.entries.dropLast ++ [merged], openAt := if g.entries.length = 1 then i else g.openAt }
      | _ => start
    else start

/-- groups rows that arrive newest first; entries come back oldest first -/
def groupRows (rows : List StoredRow) : Grouped :=
  rows.zipIdx.foldr (fun ri g => groupRow g ri.2 ri.1) ⟨[], [], rows.length - 1⟩

/-! ## Pages -/

/-- keeps the newest `limit` entries -/
def newPage (entries : List LogEntry) (anchors : List CursorPos) (limit : ℕ) : LogPage :=
  if entries.length ≤ limit then { entries := entries }
  else
    let cut := entries.length - limit
    match anchors[cut]? with
    | some pos => { entries := entries.drop cut, nextCursor := encodeCursor pos.tsNS pos.rowid }
    | none => { entries := entries.drop cut }

/-- what Query carries from round to round -/
structure Scan where
  before : Option CursorPos
  carry : List StoredRow
  entries : List LogEntry
  anchors : List CursorPos

/-- what is kept of a round's entries and anchors -/
def keep (t : Text) (m : Matcher) (entries : List LogEntry) (anchors : List CursorPos) :
    List LogEntry × List CursorPos :=
  if m.active then (((entries.zip anchors).filter fun ea => m.matches t ea.1)).unzip else (entries, anchors)

/-- one round over the rows it read -/
def Scan.round (t : Text) (m : Matcher) (s : Scan) (rows : List StoredRow) (exhausted : Bool) : Scan :=
  let combined := s.carry ++ rows
  let g := groupRows combined
  let held := !exhausted && g.entries ≠ []
  let kept := if held then keep t m g.entries.tail g.anchors.tail else keep t m g.entries g.anchors
  { before := if exhausted then s.before else (rows.getLast?.map fun r => r.pos).or s.before
    carry := if held then combined.drop g.openAt else []
    entries := kept.1 ++ s.entries
    anchors := kept.2 ++ s.anchors }

/-- Query's loop, from read `now` on -/
def scanLoop (t : Text) (env : ℕ → DB) (gens : List Generation) (q : LogQuery) (m : Matcher) (limit chunk : ℕ) :
    ℕ → ℕ → Scan → Option (LogPage × ℕ)
  | 0, _, _ => none
  | fuel + 1, now, s =>
    let rows := scanRows t (env now) gens q s.before chunk
    let exhausted : Bool := rows.length < chunk
    let s := s.round t m rows exhausted
    if s.entries.length > limit ∨ exhausted then some (newPage s.entries s.anchors limit, now + 1)
    else scanLoop t env gens q m limit chunk fuel (now + 1) s

/-- the limit a query runs with -/
def clampLimit (limit : ℤ) : ℕ := (min (if limit ≤ 0 then defaultQueryLimit else limit) maxQueryLimit).toNat

/-- the rows one round reads at most -/
def chunkSize (m : Matcher) (limit : ℕ) : ℕ := if m.active then max (limit + 2) scanChunk else limit + 2

/-- the position a query resumes from -/
def resumeAt (q : LogQuery) : Except QueryError (Option CursorPos) :=
  if q.cursor = "" then .ok none else (decodeCursor q.cursor).map some

/-- one page; reads the generations at `now` and then one chunk per round -/
def query (t : Text) (env : ℕ → DB) (fuel now : ℕ) (q : LogQuery) : Except QueryError (Option (LogPage × ℕ)) := do
  let limit := clampLimit q.limit
  let m ← newMatcher t q
  let gens := generations (env now) q.host q.container
  if gens = [] then return some ({ entries := [] }, now + 1)
  let before ← resumeAt q
  return scanLoop t env gens q m limit (chunkSize m limit) fuel (now + 1) ⟨before, [], [], []⟩

/-- the pages obtained by following `nextCursor` until it is empty, the k-th with the k-th limit, and the next read;
`none` when a query fails or the fuel does not suffice -/
def follow (t : Text) (env : ℕ → DB) (q : LogQuery) (fuel : ℕ) : List ℤ → ℕ → ℕ → String → Option (List LogPage × ℕ)
  | _, 0, _, _ => none
  | limits, n + 1, now, cursor =>
    match query t env fuel now { q with limit := limits.headD 0, cursor := cursor } with
    | .ok (some (page, next)) =>
      if page.nextCursor = "" then some ([page], next)
      else (follow t env q fuel limits.tail n next page.nextCursor).map fun r => (page :: r.1, r.2)
    | _ => none

end LogDeck.LogStore
