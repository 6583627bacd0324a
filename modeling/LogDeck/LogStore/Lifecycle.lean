/-
The other writers of the two tables: the sync loop (`sync.go`: `upsertMeta`, `markRemoved`) and the purge (`purge.go`:
`DeleteContainer`).

`markRemoved` reads the rows it considers gone and then stamps them one UPDATE at a time, each UPDATE a transaction of
its own: `goneKeys` and `stampRemoved`.
-/
import LogDeck.LogStore.Ingest

namespace LogDeck.LogStore

/-- a Go map of strings; a missing key reads as "" -/
abbrev Labels := List (String × String)

def Labels.get (labels : Labels) (label : String) : String := (labels.lookup label).getD ""

/-- the fields of a listed container the store reads -/
structure ContainerInfo where
  id : String
  names : List String
  image : String
  created : ℤ
  labels : Labels
  host : String
deriving DecidableEq, Repr

/-- `strings.TrimPrefix(s, "/")` -/
def trimSlash (s : String) : String :=
  match s.toList with
  | '/' :: cs => String.ofList cs
  | _ => s

/-- the slash-stripped primary name of a listed container -/
def containerName (info : ContainerInfo) : String :=
  match info.names with
  | [] => ""
  | n :: _ => trimSlash n

def composeProject (labels : Labels) : String :=
  if labels.get "com.docker.compose.project" ≠ "" then labels.get "com.docker.compose.project"
  else labels.get "io.podman.compose.project"

/-- records the engine's metadata of a generation; clears removed_ms -/
def upsertMeta (db : DB) (key : GenKey) (info : ContainerInfo) (nowMS : ℤ) : DB :=
  let firstSeenMS := if info.created > 0 then info.created * 1000 else nowMS
  match db.find key with
  | some _ =>
    db.updateWhere (fun r => r.key = key) fun r =>
      { r with name := keepNonEmpty r.name (containerName info),
               composeProject := keepNonEmpty r.composeProject (composeProject info.labels),
               image := keepNonEmpty r.image info.image,
               firstSeenMS := min r.firstSeenMS firstSeenMS, lastSeenMS := nowMS, removedMS := none }
  | none =>
    { db with containers := db.containers ++
        [{ id := nextRowid (db.containers.map fun c => c.id), key := key, name := containerName info,
           composeProject := composeProject info.labels, image := info.image, firstSeenMS := firstSeenMS,
           lastSeenMS := nowMS }] }

/-- what upsertMeta reads back: is the generation excluded from persistence -/
def isExcluded (db : DB) (key : GenKey) : Bool :=
  match db.find key with
  | some c => c.excludedReason ≠ ""
  | none => false

/-- the generations markRemoved considers gone: neither in the listing nor on a host that failed to list -/
def goneKeys (db : DB) (failedHosts : List String) (live : List GenKey) : List GenKey :=
  ((db.containers.filter fun c => c.removedMS = none).map fun c => c.key).filter
    fun k => k ∉ live ∧ k.host ∉ failedHosts

/-- UPDATE containers SET removed_ms = ? WHERE host = ? AND container_id = ? AND removed_ms IS NULL -/
def stampRemoved (db : DB) (key : GenKey) (nowMS : ℤ) : DB :=
  db.updateWhere (fun r => r.key = key ∧ r.removedMS = none) fun r => { r with removedMS := some nowMS }

/-- the generation rows of a logical container -/
def generationsOf (db : DB) (host name : String) : List ContainerRow :=
  db.containers.filter fun c => c.key.host = host ∧ c.name = name

/-- DELETE FROM log_lines WHERE container_ref IN (..); DELETE FROM containers WHERE id IN (..) -/
def DB.deleteRefs (db : DB) (refs : List ℕ) : DB :=
  { containers := db.containers.filter fun c => c.id ∉ refs, lines := db.lines.filter fun l => l.ref ∉ refs }

/-- the database after the purge of a logical container, and the generations it removed; `none` is
ErrContainerNotFound -/
def deleteContainer (db : DB) (host name : String) : Option (DB × List GenKey) :=
  match generationsOf db host name with
  | [] => none
  | gens => some (db.deleteRefs (gens.map fun c => c.id), gens.map fun c => c.key)

namespace Store

/-- publishes purged generations to the writer -/
def invalidate (s : Store) (keys : List GenKey) : Store := { s with invalidated := s.invalidated ++ keys }

/-- the purge: the keys are published before COMMIT, under the write lock. A transaction that fails to commit
(`committed = false`) leaves the rows but not the publication. -/
def deleteContainerStep (s : Store) (host name : String) (committed : Bool) : Store :=
  match deleteContainer s.db host name with
  | none => s
  | some (db, keys) => if committed then { s with db := db }.invalidate keys else s.invalidate keys

end Store

end LogDeck.LogStore
