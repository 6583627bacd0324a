/-
The filtered log of a container, fetched and followed (`docker/logs.go`).

`GetContainerLogsParsed` groups the parsed lines and then filters the entries. `StreamContainerLogsParsed` judges each line
as it arrives and leaves the grouping to its reader, so a continuation is judged without the line it belongs to.

`ParseLogLine` is a parameter: what it reads from a line is whatever it says, with the message trimmed. A line is known by
its place among the lines decoded from the log.

Results:
- `groupPlaced_entries`, `groupPlaced_lines`: each entry is returned with the places of its lines;
- `same_lines_iff`: the same lines are kept exactly when the filter judges each line as the entry it is folded into;
- `judgedAlike_level`: of a level alone, when it is asked of a continuation with the answer of its first line;
- `follow_drops_trace`: a stack trace that is fetched with its error and followed without.
-/
import LogDeck.Docker.Decode
import LogDeck.LogStore.Grouping
import LogDeck.Models.Grouper
import LogDeck.Lib.Utf8

namespace LogDeck.Docker

open HeadGroup
open LogDeck.LogStore (Stream joinRaw joinRaw_snoc)
open LogDeck.Models

/-! ## Model -/

/-- what `ParseLogLine` reads from a line; `CleanMessage` trims -/
structure LineParser where
  timestamp : Bytes → ℤ
  level : Bytes → LogLevel
  message : Bytes → String
  trimmed : ∀ line, trimSpace (message line) = message line

def ParseLogLine (p : LineParser) (line : Bytes) (stream : Stream) : LogEntry :=
  { timestamp := p.timestamp line, level := p.level line, message := p.message line, stream := stream, raw := line }

def levelText : LogLevel → String
  | .trace => "TRACE"
  | .debug => "DEBUG"
  | .info => "INFO"
  | .warn => "WARN"
  | .error => "ERROR"
  | .fatal => "FATAL"
  | .panic => "PANIC"
  | .unknown => "UNKNOWN"

/-- simple case folding, as far as it leads to letters of ASCII: the Kelvin sign and the long s do too -/
def foldCase (c : Char) : Char := if c = '\u212a' then 'k' else if c = '\u017f' then 's' else c.toLower

/-- `strings.EqualFold`, of a text in ASCII and any other -/
def EqualFold (a b : String) : Bool := a.toList.map foldCase = b.toList.map foldCase

/-- `levelFilter`, and `searchRegex` as its `MatchString` -/
structure Filter where
  levelFilter : String := ""
  searchRegex : Option (String → Bool) := none

namespace Filter

def passesLevel (f : Filter) (level : LogLevel) : Bool := f.levelFilter = "" || EqualFold (levelText level) f.levelFilter

/-- a pattern reads a byte that is no UTF-8 as U+FFFD -/
def passesSearch (f : Filter) (message : String) (raw : Bytes) : Bool :=
  f.searchRegex.all fun re => re message || re (Utf8.decode raw)

/-- the filter of `emit` and of `parseDockerLogs` -/
def keeps (f : Filter) (e : LogEntry) : Bool := f.passesLevel e.level && f.passesSearch e.message e.raw

end Filter

/-- one line of `GroupRelatedLogEntries`; beside each entry stand the places of its lines -/
def groupNextPlaced (grouped : List (LogEntry × List ℕ)) (line : LogEntry × ℕ) : List (LogEntry × List ℕ) :=
  match grouped.getLast? with
  | none => [(line.1, [line.2])]
  | some last =>
    if IsContinuationLogEntry line.1 last.1 then
      grouped.dropLast ++ [(appendContinuationLine last.1 line.1, last.2 ++ [line.2])]
    else grouped ++ [(line.1, [line.2])]

def groupPlaced (lines : List (LogEntry × ℕ)) : List (LogEntry × List ℕ) := lines.foldl groupNextPlaced []

/-- the parsed lines with their places -/
def placedLines (p : LineParser) (lines : List (Stream × Bytes)) : List (LogEntry × ℕ) :=
  (lines.map fun l => ParseLogLine p l.2 l.1).zipIdx

section
variable (p : LineParser) (f : Filter) (stdCopy : Copy) (logs : Bytes)

def GetContainerLogsParsed : Except Unit (List (LogEntry × List ℕ)) :=
  match parseDockerLogs stdCopy logs with
  | .error e => .error e
  | .ok lines =>
    let entries := groupPlaced (placedLines p lines)
    if f.levelFilter = "" ∧ f.searchRegex.isNone then .ok entries else .ok (entries.filter fun e => f.keeps e.1)

/-- the lines on the pipe, and whether it is closed with an error -/
def StreamContainerLogsParsed : List (LogEntry × ℕ) × Bool :=
  ((placedLines p (newParsedLogStream stdCopy logs).1).filter fun l => f.keeps l.1, (newParsedLogStream stdCopy logs).2)

/-- the places of the lines in the entries of a request: none when it fails -/
def fetchedLines : List ℕ :=
  match GetContainerLogsParsed p f stdCopy logs with
  | .ok entries => entries.flatMap Prod.snd
  | .error _ => []

/-- the places of the lines that a follower gets -/
def followedLines : List ℕ := (StreamContainerLogsParsed p f stdCopy logs).1.map Prod.snd

/-- all lines of a log -/
def decodedLines : List (LogEntry × ℕ) := placedLines p (logWriter.copyOut [] [] (stdCopy logs).1)

def SameLines : Prop := ∀ i, i ∈ followedLines p f stdCopy logs ↔ i ∈ fetchedLines p f stdCopy logs

end

/-- each line of an entry is judged as the lines are together: by the level of the first, and the joined texts -/
def JudgedAlike (f : Filter) : List LogEntry → Prop
  | [] => True
  | h :: es => ∀ e ∈ h :: es,
    f.keeps e = (f.passesLevel h.level && f.passesSearch (textOfLines h es) (joinRaw ((h :: es).map LogEntry.raw)))

theorem judgedAlike_cons {f : Filter} {h : LogEntry} {es : List LogEntry} : JudgedAlike f (h :: es) ↔ ∀ e ∈ h :: es,
    f.keeps e = (f.passesLevel h.level && f.passesSearch (textOfLines h es) (joinRaw ((h :: es).map LogEntry.raw))) :=
  Iff.rfl

/-! ## Entries and their lines -/

/-- the second line is a continuation of the first -/
def FoldsLine (a b : LogEntry × ℕ) : Prop := Folds a.1 b.1

instance : DecidableRel FoldsLine := fun a b => inferInstanceAs (Decidable (Folds a.1 b.1))

/-- the entry of a group of lines, with their places -/
def mergeLines (g : List (LogEntry × ℕ)) : Option (LogEntry × List ℕ) :=
  (merge appendContinuationLine (g.map Prod.fst)).map fun e => (e, g.map Prod.snd)

section
variable {f : Filter} {h : LogEntry} {es : List LogEntry} {lines : List (LogEntry × ℕ)}

/-- an entry beside the places of its lines takes in a further line -/
def appendPlaced (a b : LogEntry × List ℕ) : LogEntry × List ℕ := (appendContinuationLine a.1 b.1, a.2 ++ b.2)

theorem merge_placed (g : List (LogEntry × ℕ)) :
    merge appendPlaced (g.map fun l => (l.1, [l.2])) = mergeLines g := by
  cases g with
  | nil => rfl
  | cons l g =>
    have hfold : ∀ (e : LogEntry) (is : List ℕ), (g.map fun l => (l.1, [l.2])).foldl appendPlaced (e, is) =
        ((g.map Prod.fst).foldl appendContinuationLine e, is ++ g.map Prod.snd) := by
      induction g with
      | nil => exact fun e is => by simp
      | cons l g ih =>
        intro e is
        rw [List.map_cons, List.foldl_cons, appendPlaced, ih]
        simp
    exact congrArg some (hfold l.1 [l.2])

theorem groupPlaced_eq (lines : List (LogEntry × ℕ)) : groupPlaced lines = (group FoldsLine lines).filterMap mergeLines := by
  have hnext : (fun grouped (l : LogEntry × ℕ) => groupNextPlaced grouped l) =
      fun grouped l => foldNext (fun a b => Folds a.1 b.1) appendPlaced grouped (l.1, [l.2]) := by
    funext grouped l
    unfold groupNextPlaced foldNext
    cases grouped.getLast? <;> rfl
  have habsorb : ∀ a c : LogEntry × List ℕ, Folds a.1 c.1 → ∀ e : LogEntry × List ℕ,
      Folds (appendPlaced a c).1 e.1 ↔ Folds a.1 e.1 := fun a c hac e => folds_absorb a.1 c.1 hac e.1
  have hgroup : group (fun a b : LogEntry × List ℕ => Folds a.1 b.1) (lines.map fun l => (l.1, [l.2])) =
      (group FoldsLine lines).map (List.map fun l => (l.1, [l.2])) := group_map (fun l : LogEntry × ℕ => (l.1, [l.2])) lines
  calc groupPlaced lines
    _ = lines.foldl (fun grouped l => foldNext (fun a b => Folds a.1 b.1) appendPlaced grouped (l.1, [l.2])) [] := by
      rw [groupPlaced, ← hnext]
    _ = (lines.map fun l => (l.1, [l.2])).foldl (foldNext (fun a b => Folds a.1 b.1) appendPlaced) [] := by
      rw [List.foldl_map]
    _ = ((group FoldsLine lines).map (List.map fun l => (l.1, [l.2]))).filterMap (merge appendPlaced) := by
      rw [foldl_foldNext habsorb, hgroup]
    _ = (group FoldsLine lines).filterMap mergeLines := by
      rw [List.filterMap_map]
      exact List.filterMap_congr fun g _ => merge_placed g

theorem groups_entries (lines : List (LogEntry × ℕ)) :
    group Folds (lines.map Prod.fst) = (group FoldsLine lines).map (List.map Prod.fst) := group_map Prod.fst lines

/-- the places change nothing about the entries -/
theorem groupPlaced_entries (lines : List (LogEntry × ℕ)) :
    (groupPlaced lines).map Prod.fst = GroupRelatedLogEntries (lines.map Prod.fst) := by
  rw [groupPlaced_eq, GroupRelatedLogEntries_eq, groups_entries, List.map_filterMap, List.filterMap_map]
  refine List.filterMap_congr fun g _ => ?_
  unfold mergeLines
  rw [Option.map_map]
  exact Option.map_id'

/-- the lines of the entries that are kept -/
theorem lines_of_kept {gs : List (List (LogEntry × ℕ))} (keep : LogEntry × List ℕ → Bool) :
    ((gs.filterMap mergeLines).filter keep).flatMap Prod.snd =
      (gs.filter fun g => (mergeLines g).any keep).flatten.map Prod.snd := by
  induction gs with
  | nil => rfl
  | cons g gs ih =>
    cases hg : mergeLines g with
    | none => rw [List.filterMap_cons_none hg, List.filter_cons_of_neg (by simp [hg]), ih]
    | some e =>
      have hlines : e.2 = g.map Prod.snd := by
        obtain ⟨entry, -, rfl⟩ := Option.map_eq_some_iff.mp hg
        rfl
      rw [List.filterMap_cons_some hg]
      cases hkeep : keep e with
      | false => rw [List.filter_cons_of_neg (by simp [hkeep]), List.filter_cons_of_neg (by simp [hg, hkeep]), ih]
      | true =>
        rw [List.filter_cons_of_pos hkeep, List.filter_cons_of_pos (by simp [hg, hkeep]), List.flatMap_cons, ih,
          List.flatten_cons, List.map_append, hlines]

/-- every line stands in one entry -/
theorem groupPlaced_lines (lines : List (LogEntry × ℕ)) :
    (groupPlaced lines).flatMap Prod.snd = lines.map Prod.snd := by
  have hall : ∀ g ∈ group FoldsLine lines, ((mergeLines g).any fun _ => true) = true := by
    intro g hg
    obtain ⟨l, g', rfl⟩ := List.exists_cons_of_ne_nil ((group_isGrouping lines).ne_nil g hg)
    rfl
  have hkept := @lines_of_kept (group FoldsLine lines) fun _ => true
  rw [List.filter_true, List.filter_eq_self.mpr hall, group_flatten] at hkept
  rw [groupPlaced_eq, hkept]

/-! ## When the same lines are kept -/

theorem merged_raw (h : LogEntry) (es : List LogEntry) :
    (es.foldl appendContinuationLine h).raw = joinRaw ((h :: es).map LogEntry.raw) := by
  induction es using List.reverseRecOn with
  | nil =>
    have hone := joinRaw_snoc [] h.raw
    have hnil : joinRaw [] = [] := rfl
    rw [List.nil_append, hnil, if_pos rfl] at hone
    rw [List.foldl_nil, List.map_cons, List.map_nil, hone]
    split_ifs with hraw
    · rfl
    · exact not_not.mp hraw
  | append_singleton es e ih =>
    rw [List.foldl_append, List.foldl_cons, List.foldl_nil, ← List.cons_append, List.map_append, List.map_singleton,
      joinRaw_snoc, ← ih]
    rfl

/-- the filter asks an entry about its lines -/
theorem keeps_merged (hh : trimSpace h.message = h.message)
    (hes : ∀ e ∈ es, trimSpace e.message = e.message ∧ Folds h e) :
    f.keeps (es.foldl appendContinuationLine h) =
      (f.passesLevel h.level && f.passesSearch (textOfLines h es) (joinRaw ((h :: es).map LogEntry.raw))) := by
  rw [Filter.keeps, merged_level, merged_text hh hes, merged_raw]

end

section
variable {p : LineParser} {f : Filter} {stdCopy : Copy} {logs : Bytes}

theorem followedLines_eq : followedLines p f stdCopy logs =
    ((decodedLines p stdCopy logs).filter fun l => f.keeps l.1).map Prod.snd := by
  rw [followedLines, StreamContainerLogsParsed, newParsedLogStream, writers_agree.1]
  rfl

theorem fetchedLines_eq : fetchedLines p f stdCopy logs =
    if (stdCopy logs).2 then []
    else ((groupPlaced (decodedLines p stdCopy logs)).filter fun e => f.keeps e.1).flatMap Prod.snd := by
  unfold fetchedLines GetContainerLogsParsed parseDockerLogs
  by_cases herr : (stdCopy logs).2 = true
  · rw [if_pos herr, if_pos herr]
  · rw [if_neg herr, if_neg herr]
    dsimp only
    split_ifs with hnone
    · have hall : ∀ e : LogEntry × List ℕ, f.keeps e.1 = true := by
        intro e
        obtain ⟨hlevel, hsearch⟩ := hnone
        simp [Filter.keeps, Filter.passesLevel, Filter.passesSearch, hlevel, Option.isNone_iff_eq_none.mp hsearch]
      dsimp only
      rw [List.filter_eq_self.mpr fun e _ => hall e]
      rfl
    · rfl

theorem decodedLines_places : ((decodedLines p stdCopy logs).map Prod.snd).Nodup := by
  rw [decodedLines, placedLines, List.zipIdx_map_snd]
  exact List.nodup_range'

theorem decodedLines_trimmed : ∀ e ∈ (decodedLines p stdCopy logs).map Prod.fst, trimSpace e.message = e.message := by
  intro e he
  rw [decodedLines, placedLines, List.zipIdx_map_fst] at he
  obtain ⟨l, -, rfl⟩ := List.mem_map.mp he
  exact p.trimmed l.2

/-- a place tells the line -/
theorem mem_places {A : List (LogEntry × ℕ)} (hA : A ⊆ decodedLines p stdCopy logs) {l : LogEntry × ℕ}
    (hl : l ∈ decodedLines p stdCopy logs) : l.2 ∈ A.map Prod.snd ↔ l ∈ A := by
  refine ⟨fun hmem => ?_, fun hmem => List.mem_map_of_mem hmem⟩
  obtain ⟨l', hl', hplace⟩ := List.mem_map.mp hmem
  rwa [← List.inj_on_of_nodup_map decodedLines_places (hA hl') hl hplace]

/-- the filter keeps the entry of a group -/
def keepsGroup (f : Filter) (g : List (LogEntry × ℕ)) : Bool := (mergeLines g).any fun e => f.keeps e.1

theorem judged_iff {g : List (LogEntry × ℕ)} (hg : g ∈ group FoldsLine (decodedLines p stdCopy logs)) :
    (∀ l ∈ g, f.keeps l.1 = keepsGroup f g) ↔ JudgedAlike f (g.map Prod.fst) := by
  have hgrouping : IsGrouping FoldsLine (group FoldsLine (decodedLines p stdCopy logs)) := group_isGrouping _
  obtain ⟨h, es, rfl⟩ := List.exists_cons_of_ne_nil (hgrouping.ne_nil g hg)
  have htrimmed : ∀ l ∈ h :: es, trimSpace l.1.message = l.1.message := fun l hl =>
    decodedLines_trimmed l.1 (List.mem_map_of_mem (mem_of_mem_group hg hl))
  have hes : ∀ e ∈ es.map Prod.fst, trimSpace e.message = e.message ∧ Folds h.1 e := by
    refine List.forall_mem_map.mpr fun l hl => ⟨htrimmed l (List.mem_cons_of_mem h hl), ?_⟩
    exact hgrouping.body _ hg h rfl l hl
  have hkeeps : keepsGroup f (h :: es) = f.keeps ((es.map Prod.fst).foldl appendContinuationLine h.1) := rfl
  have hlines : h.1 :: es.map Prod.fst = (h :: es).map Prod.fst := rfl
  rw [hkeeps, keeps_merged (htrimmed h List.mem_cons_self) hes, ← hlines, judgedAlike_cons, hlines,
    List.forall_mem_map]

/-- the same lines, when the log ends without an error of the engine -/
theorem same_lines_complete (hok : (stdCopy logs).2 = false) : SameLines p f stdCopy logs ↔
    ∀ g ∈ group Folds ((decodedLines p stdCopy logs).map Prod.fst), JudgedAlike f g := by
  have hfetched : fetchedLines p f stdCopy logs =
      ((group FoldsLine (decodedLines p stdCopy logs)).filter (keepsGroup f)).flatten.map Prod.snd := by
    rw [fetchedLines_eq, if_neg (by rw [hok]; exact Bool.false_ne_true), groupPlaced_eq, lines_of_kept]
    rfl
  have hfollowed : (decodedLines p stdCopy logs).filter (fun l => f.keeps l.1) ⊆ decodedLines p stdCopy logs :=
    List.filter_sublist.subset
  have hgroups : ((group FoldsLine (decodedLines p stdCopy logs)).filter (keepsGroup f)).flatten ⊆
      decodedLines p stdCopy logs := by
    intro l hl
    obtain ⟨g, hg, -, hlg⟩ := mem_filter_group.mp hl
    exact mem_of_mem_group hg hlg
  calc SameLines p f stdCopy logs
    _ ↔ ∀ l, l ∈ (decodedLines p stdCopy logs).filter (fun l => f.keeps l.1) ↔
          l ∈ ((group FoldsLine (decodedLines p stdCopy logs)).filter (keepsGroup f)).flatten := by
      unfold SameLines
      rw [followedLines_eq, hfetched]
      constructor
      · intro hsame l
        by_cases hl : l ∈ decodedLines p stdCopy logs
        · rw [← mem_places hfollowed hl, ← mem_places hgroups hl]
          exact hsame l.2
        · exact ⟨fun hmem => absurd (hfollowed hmem) hl, fun hmem => absurd (hgroups hmem) hl⟩
      · intro hsame i
        simp only [List.mem_map, hsame]
    _ ↔ ∀ g ∈ group FoldsLine (decodedLines p stdCopy logs), ∀ l ∈ g, f.keeps l.1 = keepsGroup f g :=
      filter_iff (List.Nodup.of_map Prod.snd decodedLines_places)
    _ ↔ ∀ g ∈ group Folds ((decodedLines p stdCopy logs).map Prod.fst), JudgedAlike f g := by
      rw [groups_entries, List.forall_mem_map]
      exact forall₂_congr fun g hg => judged_iff hg

/-- **The same lines.** A log is followed as it is fetched exactly when the filter judges each line as it does the entry
that the line is folded into; where the engine reports an error and nothing is fetched, when it keeps no line. -/
theorem same_lines_iff : SameLines p f stdCopy logs ↔
    if (stdCopy logs).2 then ∀ e ∈ (decodedLines p stdCopy logs).map Prod.fst, f.keeps e = false
    else ∀ g ∈ group Folds ((decodedLines p stdCopy logs).map Prod.fst), JudgedAlike f g := by
  by_cases herr : (stdCopy logs).2 = true
  · rw [if_pos herr]
    unfold SameLines
    rw [fetchedLines_eq, if_pos herr, followedLines_eq]
    constructor
    · intro hsame
      refine List.forall_mem_map.mpr fun l hl => ?_
      by_contra hkeep
      have hmem : l ∈ (decodedLines p stdCopy logs).filter fun l => f.keeps l.1 :=
        List.mem_filter.mpr ⟨hl, (Bool.not_eq_false _).mp hkeep⟩
      exact List.not_mem_nil ((hsame l.2).mp (List.mem_map_of_mem hmem))
    · intro hnone
      have hempty : ((decodedLines p stdCopy logs).filter fun l => f.keeps l.1) = [] := by
        rw [List.filter_eq_nil_iff]
        exact fun l hl => by simp [hnone l.1 (List.mem_map_of_mem hl)]
      rw [hempty]
      exact fun i => Iff.rfl
  · rw [if_neg herr]
    exact same_lines_complete ((Bool.not_eq_true _).mp herr)

/-- reads the lines of one second, of which one is an error -/
def sampleParser : LineParser where
  timestamp _ := 1767323045000000000
  level line := if line = "2026-01-02T03:04:05Z ERROR disk full".toUTF8.data.toList then .error else .unknown
  message line := trimSpace (Utf8.decode (line.drop 21))
  trimmed _ := trimSpace_trimSpace _

/-- an error and its stack trace -/
def traceLog : Served := .framed
  [⟨.stderr, "2026-01-02T03:04:05Z ERROR disk full\n".toUTF8.data.toList, by decide⟩,
    ⟨.stderr, "2026-01-02T03:04:05Z at write (fs.js:1)\n".toUTF8.data.toList, by decide⟩] none

theorem traceLog_lines :
    followedLines sampleParser { levelFilter := "error" } (fun logs => demultiplex logs.length logs)
      traceLog.chunks.flatten = [0] ∧
    fetchedLines sampleParser { levelFilter := "error" } (fun logs => demultiplex logs.length logs)
      traceLog.chunks.flatten = [0, 1] := by
  decide +kernel

/-- **The trace is dropped.** With the level ERROR, a request returns the error with its trace; a follower gets the error
alone. -/
theorem follow_drops_trace : ¬ SameLines sampleParser { levelFilter := "error" }
    (fun logs => demultiplex logs.length logs) traceLog.chunks.flatten := by
  intro hsame
  have hone := hsame 1
  rw [traceLog_lines.1, traceLog_lines.2] at hone
  exact absurd (hone.mpr (by decide)) (by decide)

/-- without a filter every line is judged alike -/
theorem judgedAlike_unfiltered {g : List LogEntry} (hlevel : f.levelFilter = "") (hsearch : f.searchRegex = none) :
    JudgedAlike f g := by
  cases g with
  | nil => trivial
  | cons h es =>
    refine judgedAlike_cons.mpr fun e _ => ?_
    simp [Filter.keeps, Filter.passesLevel, Filter.passesSearch, hlevel, hsearch]

/-- **Levels.** A filter of levels judges the lines of an entry alike when it has one answer for the level of the first
line and for UNKNOWN, which is the level of every other. -/
theorem judgedAlike_level {h : LogEntry} {es : List LogEntry} (hsearch : f.searchRegex = none)
    (hes : ∀ e ∈ es, Folds h e) :
    JudgedAlike f (h :: es) ↔ es = [] ∨ f.passesLevel .unknown = f.passesLevel h.level := by
  have hlevel : ∀ e ∈ es, e.level = .unknown := fun e he => (folds_iff_text.mp (hes e he)).1
  rw [judgedAlike_cons]
  simp only [Filter.keeps, Filter.passesSearch, hsearch, Option.all_none, Bool.and_true, List.forall_mem_cons, true_and]
  constructor
  · intro hall
    rcases List.eq_nil_or_concat es with hnil | ⟨init, e, rfl⟩
    · exact .inl hnil
    · have he : e ∈ init.concat e := by simp
      exact .inr (hlevel e he ▸ hall e he)
  · intro hone e he
    rcases hone with rfl | hsame
    · cases he
    · rw [hlevel e he, hsame]

end

end LogDeck.Docker
