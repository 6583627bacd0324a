/-
Grouping the lines of a log, and grouping the groups again (`models/logs.go`: `GroupRelatedLogEntries`).

The grouper works on parsed lines. The log viewer hands it, and the copy of it in the frontend, entries that are groups
already; the message of such an entry has several lines. The pattern of a structured field is written for one line, but
its blanks may be newlines, and a colon that a path must have to be a stack frame may stand in any line.

Results:
- `GroupRelatedLogEntries_eq`: the entries are the groups of the lines, each folded into its first;
- `folds_merged_iff`: when an entry is a continuation of the one before it, though its first line was none;
- `regroup_iff`: grouping again changes nothing exactly when that is nowhere so.
-/
import LogDeck.Lib.HeadGroup
import LogDeck.Lib.LineText
import LogDeck.Models.Logs

namespace LogDeck.Models

open HeadGroup LineText

/-- an entry as `ParseLogLine` makes it of a physical line: `CleanMessage` trims, and nothing is folded yet -/
structure PerLine (e : LogEntry) : Prop where
  trimmed : trimSpace e.message = e.message
  oneLine : '\n' ∉ e.message.toList
  fields : e.fields = []
  continuationCount : e.continuationCount = 0

/-- the second entry is a continuation of the first -/
def Folds (h e : LogEntry) : Prop := IsContinuationLogEntry e h = true

instance : DecidableRel Folds := fun h e => inferInstanceAs (Decidable (IsContinuationLogEntry e h = true))

theorem folds_absorb (a c : LogEntry) (h : Folds a c) (e : LogEntry) :
    Folds (appendContinuationLine a c) e ↔ Folds a e := by
  unfold Folds
  rw [isContinuation_append h]

theorem groupNext_eq : groupNext = foldNext Folds appendContinuationLine := by
  funext grouped entry
  unfold groupNext foldNext
  cases grouped.getLast? <;> rfl

/-- **The entries are the groups.** -/
theorem GroupRelatedLogEntries_eq (entries : List LogEntry) :
    GroupRelatedLogEntries entries = (group Folds entries).filterMap (merge appendContinuationLine) := by
  rw [GroupRelatedLogEntries, groupNext_eq]
  exact foldl_foldNext folds_absorb entries

/-! ## The pattern of a structured field -/

/-- `structuredFieldRegex` -/
def fieldPattern : Pattern where
  start := isKeyStart
  key := isKeyChar
  blank := isBlankChar
  sep c := c = ':' || c = '='
  stop c := c = '\n'

theorem isKeyStart_blank (c : Char) (h : isKeyStart c = true) : isBlankChar c = false := by
  by_contra hblank
  rw [Bool.not_eq_false] at hblank
  simp only [isBlankChar, decide_eq_true_eq, List.mem_cons, List.not_mem_nil, or_false] at hblank
  obtain rfl | rfl | rfl | rfl | rfl := hblank <;> exact absurd h (by decide)

theorem isKeyStart_sep (c : Char) (h : isKeyStart c = true) : fieldPattern.sep c = false := by
  by_contra hsep
  rw [Bool.not_eq_false] at hsep
  simp only [fieldPattern, Bool.or_eq_true, decide_eq_true_eq] at hsep
  obtain rfl | rfl := hsep <;> exact absurd h (by decide)

theorem fieldPattern_lawful : fieldPattern.Lawful where
  start_blank := isKeyStart_blank
  start_sep := isKeyStart_sep
  newline_key := by decide
  newline_blank := by decide
  newline_stop := by decide

/-- a value of the pattern has no newline -/
theorem fieldPattern_value (cs : List Char) : fieldPattern.value cs =
    if cs.dropWhile isBlankChar ≠ [] ∧ '\n' ∉ cs.dropWhile isBlankChar then some (cs.dropWhile isBlankChar) else none := by
  have hstop : ∀ v : List Char, v.all (fun c => ! fieldPattern.stop c) = true ↔ '\n' ∉ v := by
    intro v
    rw [List.all_eq_true]
    constructor
    · intro h hmem
      exact absurd (h '\n' hmem) (by decide)
    · intro h c hc
      have hne : c ≠ '\n' := fun hnewline => h (hnewline ▸ hc)
      simp [fieldPattern, hne]
  unfold Pattern.value
  simp only [hstop]
  rfl

theorem structuredField_eq (message : String) :
    structuredField message =
      (fieldPattern.read message.toList).map fun kv => (String.ofList kv.1, String.ofList kv.2) := by
  unfold structuredField Pattern.read Pattern.afterKey
  cases message.toList with
  | nil => rfl
  | cons c cs =>
    have hkey : fieldPattern.key = isKeyChar := rfl
    have hblank : fieldPattern.blank = isBlankChar := rfl
    have hstart : fieldPattern.start = isKeyStart := rfl
    simp only [hkey, hblank, hstart, fieldPattern_value]
    by_cases hc : isKeyStart c = true
    · simp only [if_pos hc]
      cases (cs.dropWhile isKeyChar).dropWhile isBlankChar with
      | nil => rfl
      | cons s rest =>
        have hsep : fieldPattern.sep s = true ↔ s = ':' ∨ s = '=' := by simp [fieldPattern]
        simp only [hsep]
        by_cases hs : s = ':' ∨ s = '='
        · simp only [hs, true_and, if_true]
          split_ifs <;> rfl
        · simp only [hs, false_and, if_false, Option.map_none]
    · simp only [if_neg hc, Option.map_none]

theorem structuredField_isSome (message : String) :
    (structuredField message).isSome = (fieldPattern.read message.toList).isSome := by
  rw [structuredField_eq, Option.isSome_map]

/-! ## Lines and their texts -/

/-- the lines that are folded into a first one, as they stand in the message -/
def folded (es : List LogEntry) : List Char := es.flatMap fun e => '\n' :: e.message.toList

section
variable {h h' e : LogEntry} {es es' : List LogEntry}

theorem trimSpace_toList (s : String) : (trimSpace s).toList = trim isSpace s.toList := String.toList_ofList

theorem trimSpace_trimSpace (s : String) : trimSpace (trimSpace s) = trimSpace s := by
  rw [← String.toList_inj, trimSpace_toList, trimSpace_toList, trim_eq_self (trimmed_trim _)]

theorem PerLine.trimmed_toList (he : PerLine e) : Trimmed isSpace e.message.toList := by
  rw [← trim_eq_self_iff, ← trimSpace_toList, he.trimmed]

theorem toList_ne_nil {s : String} : s.toList ≠ [] ↔ s ≠ "" := by
  rw [ne_eq, ne_eq, String.toList_eq_nil_iff]

/-- what a continuation needs -/
theorem folds_iff_text : Folds h e ↔ e.level = .unknown ∧ trimSpace e.message ≠ "" ∧ trimSpace h.message ≠ "" ∧
    ((structuredField (trimSpace e.message)).isSome = true ∨
      isStackTraceContinuation (trimSpace e.message) = true ∧ isProblemLevel h.level = true) := by
  unfold Folds IsContinuationLogEntry
  by_cases hlevel : e.level = .unknown
  · rw [if_neg (not_not.mpr hlevel)]
    dsimp only
    by_cases hblank : trimSpace e.message = "" ∨ trimSpace h.message = ""
    · rw [if_pos hblank]
      exact ⟨nofun, fun hfolds => absurd hblank (not_or.mpr ⟨hfolds.2.1, hfolds.2.2.1⟩)⟩
    · obtain ⟨hne, hne'⟩ := not_or.mp hblank
      rw [if_neg hblank]
      simp only [hlevel, ne_eq, hne, hne', not_false_eq_true, true_and]
      split_ifs with hfield
      · simp [hfield]
      · simp [hfield, Bool.and_eq_true]
  · rw [if_pos hlevel]
    exact ⟨nofun, fun hfolds => absurd hfolds.1 hlevel⟩

theorem folds_iff (hh : trimSpace h.message = h.message) (he : trimSpace e.message = e.message) :
    Folds h e ↔ e.level = .unknown ∧ e.message ≠ "" ∧ h.message ≠ "" ∧
      ((structuredField e.message).isSome = true ∨
        isStackTraceContinuation e.message = true ∧ isProblemLevel h.level = true) := by
  rw [folds_iff_text, hh, he]

theorem merged_level (h : LogEntry) (es : List LogEntry) : (es.foldl appendContinuationLine h).level = h.level := by
  induction es generalizing h with
  | nil => rfl
  | cons e es ih => exact ih (appendContinuationLine h e)

theorem merged_containerName (h : LogEntry) (es : List LogEntry) :
    (es.foldl appendContinuationLine h).containerName = h.containerName := by
  induction es generalizing h with
  | nil => rfl
  | cons e es ih => exact ih (appendContinuationLine h e)

/-- the message of an entry: its lines, one below the other -/
theorem merged_message (hne : h.message ≠ "")
    (hes : ∀ e ∈ es, trimSpace e.message = e.message ∧ e.message ≠ "") :
    (es.foldl appendContinuationLine h).message.toList = h.message.toList ++ folded es := by
  induction es generalizing h with
  | nil => exact (List.append_nil _).symm
  | cons e es ih =>
    obtain ⟨he, hene⟩ := hes e List.mem_cons_self
    have happend : (appendContinuationLine h e).message = h.message ++ "\n" ++ e.message := by
      simp only [appendContinuationLine, he, if_pos hene, if_neg hne]
    have hne' : (appendContinuationLine h e).message ≠ "" := by
      rw [happend, ← toList_ne_nil]
      simp
    rw [List.foldl_cons, ih hne' fun e' he' => hes e' (List.mem_cons_of_mem e he'), happend]
    simp [folded, String.toList_append]

/-- the text of an entry -/
def textOfLines (h : LogEntry) (es : List LogEntry) : String := String.ofList (h.message.toList ++ folded es)

theorem merged_text (hh : trimSpace h.message = h.message)
    (hes : ∀ e ∈ es, trimSpace e.message = e.message ∧ Folds h e) :
    (es.foldl appendContinuationLine h).message = textOfLines h es := by
  rw [← String.toList_inj, textOfLines, String.toList_ofList]
  cases es with
  | nil => exact (List.append_nil _).symm
  | cons e es =>
    have hne : ∀ e' ∈ e :: es, e'.message ≠ "" ∧ h.message ≠ "" := by
      intro e' he'
      obtain ⟨-, hne, hne', -⟩ := (folds_iff hh (hes e' he').1).mp (hes e' he').2
      exact ⟨hne, hne'⟩
    exact merged_message (hne e List.mem_cons_self).2 fun e' he' => ⟨(hes e' he').1, (hne e' he').1⟩

theorem folded_trimmed (hh : PerLine h) (hne : h.message ≠ "") (hes : ∀ e ∈ es, PerLine e ∧ e.message ≠ "") :
    Trimmed isSpace (h.message.toList ++ folded es) := by
  rcases List.eq_nil_or_concat es with rfl | ⟨es, e, rfl⟩
  · rw [folded, List.flatMap_nil, List.append_nil]
    exact hh.trimmed_toList
  · obtain ⟨he, hene⟩ := hes e (by simp)
    have happend := hh.trimmed_toList.append he.trimmed_toList (toList_ne_nil.mpr hne) (toList_ne_nil.mpr hene)
      (folded es ++ ['\n'])
    simpa [folded] using happend

/-- a line that is folded into one of no problem level is a structured field -/
theorem field_of_folds (hh : PerLine h) (he : PerLine e) (hlevel : h.level = .unknown) (hfolds : Folds h e) :
    (fieldPattern.read e.message.toList).isSome = true := by
  obtain ⟨-, -, -, hkind⟩ := (folds_iff hh.trimmed he.trimmed).mp hfolds
  rcases hkind with hfield | ⟨-, hproblem⟩
  · rwa [structuredField_isSome] at hfield
  · rw [hlevel] at hproblem
    cases hproblem

/-- the fields below a line: they are read with it if there is one of them, and the line opens a field -/
theorem read_folded (hh : h.message ≠ "") (hes : es ≠ [])
    (hfields : ∀ e ∈ es, PerLine e ∧ (fieldPattern.read e.message.toList).isSome = true) :
    (fieldPattern.read (h.message.toList ++ folded es)).isSome = true ↔
      es.length = 1 ∧ fieldPattern.opens h.message.toList = true := by
  obtain ⟨e, es, rfl⟩ := List.exists_cons_of_ne_nil hes
  obtain ⟨he, hfield⟩ := hfields e List.mem_cons_self
  obtain ⟨c, cs, hecs, hstart⟩ := Pattern.start_of_read hfield
  have hc : isBlankChar c = false := isKeyStart_blank c hstart
  have hdrop : ∀ rest : List Char, (e.message.toList ++ rest).dropWhile isBlankChar = e.message.toList ++ rest := by
    intro rest
    rw [hecs]
    exact List.dropWhile_cons_of_neg (by simp [hc])
  have hfolded : folded (e :: es) = '\n' :: (e.message.toList ++ folded es) := rfl
  have hsep : ∀ s ∈ ((e.message.toList ++ folded es).dropWhile fieldPattern.blank).head?, fieldPattern.sep s = false := by
    intro s hs
    have hhead : (e.message.toList ++ folded es).dropWhile fieldPattern.blank = e.message.toList ++ folded es := hdrop _
    rw [hhead, hecs] at hs
    cases hs
    exact isKeyStart_sep c hstart
  rw [hfolded, Pattern.read_join fieldPattern_lawful (toList_ne_nil.mpr hh) hsep, Bool.and_eq_true, and_comm]
  refine and_congr_left fun _ => ?_
  cases es with
  | nil =>
    have hline := hdrop []
    rw [List.append_nil] at hline
    have hvalue : fieldPattern.value e.message.toList = some e.message.toList := by
      rw [fieldPattern_value, hline, if_pos ⟨hecs ▸ List.cons_ne_nil c cs, he.oneLine⟩]
    simp [folded, hvalue]
  | cons e' es =>
    have hnot : fieldPattern.value (e.message.toList ++ folded (e' :: es)) = none := by
      refine Pattern.value_lines fieldPattern_lawful ?_
      rw [hecs, List.all_cons]
      exact Bool.and_eq_false_imp.mpr fun hblank => absurd hblank (by simp [fieldPattern, hc])
    simp [hnot]

/-- a prefix without a newline is one of the first line -/
theorem isPrefixOf_line {p a b : List Char} (hp : '\n' ∉ p) : p.isPrefixOf (a ++ '\n' :: b) = p.isPrefixOf a := by
  induction p generalizing a with
  | nil => rfl
  | cons c p ih =>
    have hc : c ≠ '\n' := fun hc => hp (hc ▸ List.mem_cons_self)
    cases a with
    | nil => simp [List.isPrefixOf_cons_cons, hc]
    | cons d a => simp [List.isPrefixOf_cons_cons, ih fun hmem => hp (List.mem_cons_of_mem c hmem)]

theorem isPrefixOf_folded {p a : List Char} (hp : '\n' ∉ p) (es : List LogEntry) :
    p.isPrefixOf (a ++ folded es) = p.isPrefixOf a := by
  cases es with
  | nil => rw [folded, List.flatMap_nil, List.append_nil]
  | cons e es => exact isPrefixOf_line hp

theorem mem_folded {c : Char} (hc : c ≠ '\n') : c ∈ folded es ↔ ∃ e ∈ es, c ∈ e.message.toList := by
  simp [folded, hc]

/-- a path becomes a stack frame when a line below it has a colon -/
theorem stack_folded {m : String} (hm : m.toList = h.message.toList ++ folded es) :
    isStackTraceContinuation m = true ↔ isStackTraceContinuation h.message = true ∨
      (h.message.toList.head? = some '/' ∧ ∃ e ∈ es, ':' ∈ e.message.toList) := by
  have hprefixes : (stackPrefixes.any fun p => p.toList.isPrefixOf m.toList) =
      stackPrefixes.any fun p => p.toList.isPrefixOf h.message.toList := by
    have hline : ∀ p ∈ stackPrefixes, '\n' ∉ p.toList := by decide
    rw [Bool.eq_iff_iff, List.any_eq_true, List.any_eq_true]
    refine exists_congr fun p => and_congr_right fun hp => ?_
    rw [hm, isPrefixOf_folded (hline p hp)]
  have hslash : "/".toList.isPrefixOf m.toList = "/".toList.isPrefixOf h.message.toList := by
    rw [hm, isPrefixOf_folded (by decide)]
  have hfirst : "/".toList.isPrefixOf h.message.toList = true ↔ h.message.toList.head? = some '/' := by
    have hlist : "/".toList = ['/'] := by decide
    rw [hlist]
    cases h.message.toList with
    | nil => simp
    | cons c cs =>
      simp only [List.isPrefixOf_cons_cons, List.isPrefixOf_nil_left, Bool.and_true, beq_iff_eq, List.head?_cons,
        Option.some.injEq]
      exact eq_comm
  have hcolon : m.toList.contains ':' = true ↔
      h.message.toList.contains ':' = true ∨ ∃ e ∈ es, ':' ∈ e.message.toList := by
    rw [hm, List.contains_iff_mem, List.contains_iff_mem, List.mem_append, mem_folded (by decide)]
  unfold isStackTraceContinuation
  rw [Bool.or_eq_true, Bool.or_eq_true, Bool.and_eq_true, Bool.and_eq_true, hprefixes, hslash, hcolon, and_or_left,
    or_assoc, hfirst]

end

/-! ## Grouping again -/

/-- the second group is folded into the first when the list is grouped again: its first line opens a field that the only
other line completes, or it is a path, and a line below it makes it a stack frame of a problem -/
def Reopens : List LogEntry → List LogEntry → Prop
  | h :: _, h' :: es =>
    h.message ≠ "" ∧ h'.level = .unknown ∧
      ((es.length = 1 ∧ fieldPattern.opens h'.message.toList = true) ∨
        (isProblemLevel h.level = true ∧ h'.message.toList.head? = some '/' ∧ ∃ e ∈ es, ':' ∈ e.message.toList))
  | _, _ => False

section
variable {h h' : LogEntry} {es es' : List LogEntry}

/-- **A group that reopens the one before it.** -/
theorem folds_merged_iff (hh : PerLine h) (hh' : PerLine h') (hes : ∀ e ∈ es, Folds h e)
    (hes' : ∀ e ∈ es', PerLine e ∧ Folds h' e) (hapart : ¬ Folds h h') :
    Folds (es.foldl appendContinuationLine h) (es'.foldl appendContinuationLine h') ↔ Reopens (h :: es) (h' :: es') := by
  rw [cont_foldl folds_absorb hes]
  by_cases hlevel : h'.level = .unknown
  swap
  · have hno : ¬ Folds h (es'.foldl appendContinuationLine h') := by
      intro hfolds
      unfold Folds IsContinuationLogEntry at hfolds
      rw [merged_level, if_pos hlevel] at hfolds
      cases hfolds
    exact ⟨fun hfolds => absurd hfolds hno, fun hre => absurd hre.2.1 hlevel⟩
  rcases List.eq_nil_or_concat es' with rfl | ⟨init, last, hconcat⟩
  · refine ⟨fun hfolds => absurd hfolds hapart, fun hre => ?_⟩
    obtain ⟨-, -, ⟨hlen, -⟩ | ⟨-, -, e, he, -⟩⟩ := hre
    · cases hlen
    · cases he
  have hne : es' ≠ [] := by
    rw [hconcat]
    simp
  obtain ⟨e₀, he₀⟩ := List.exists_mem_of_ne_nil es' hne
  have hmsg : h'.message ≠ "" := ((folds_iff hh'.trimmed (hes' e₀ he₀).1.trimmed).mp (hes' e₀ he₀).2).2.2.1
  have hlines : ∀ e ∈ es', PerLine e ∧ e.message ≠ "" := fun e he =>
    ⟨(hes' e he).1, ((folds_iff hh'.trimmed (hes' e he).1.trimmed).mp (hes' e he).2).2.1⟩
  have hfields : ∀ e ∈ es', PerLine e ∧ (fieldPattern.read e.message.toList).isSome = true := fun e he =>
    ⟨(hes' e he).1, field_of_folds hh' (hes' e he).1 hlevel (hes' e he).2⟩
  set m := es'.foldl appendContinuationLine h' with hm
  have htext : m.message.toList = h'.message.toList ++ folded es' :=
    merged_message hmsg fun e he => ⟨(hlines e he).1.trimmed, (hlines e he).2⟩
  have htrim : trimSpace m.message = m.message := by
    rw [← String.toList_inj, trimSpace_toList, trim_eq_self_iff, htext]
    exact folded_trimmed hh' hmsg hlines
  have hmne : m.message ≠ "" := by
    rw [← toList_ne_nil, htext]
    exact List.append_ne_nil_of_left_ne_nil (toList_ne_nil.mpr hmsg) _
  have hmlevel : m.level = .unknown := (merged_level h' es').trans hlevel
  have hread := read_folded hmsg hne hfields
  rw [← htext, ← structuredField_isSome] at hread
  have hstack := stack_folded htext
  rw [folds_iff hh.trimmed htrim, hread, hstack]
  rw [folds_iff hh.trimmed hh'.trimmed] at hapart
  unfold Reopens
  constructor
  · intro hfolds
    obtain ⟨-, -, hhne, hkind⟩ := hfolds
    refine ⟨hhne, hlevel, hkind.imp_right fun ⟨hframe, hproblem⟩ => ?_⟩
    rcases hframe with hframe | hpath
    · exact absurd ⟨hlevel, hmsg, hhne, .inr ⟨hframe, hproblem⟩⟩ hapart
    · exact ⟨hproblem, hpath⟩
  · intro hre
    obtain ⟨hhne, -, hkind⟩ := hre
    exact ⟨hmlevel, hmne, hhne, hkind.imp_right fun ⟨hproblem, hpath⟩ => ⟨.inr hpath, hproblem⟩⟩

end

/-- a relation along the entries, as one along the groups of their lines -/
theorem isChain_entries_iff {xs : List LogEntry} {R : LogEntry → LogEntry → Prop} {P : List LogEntry → List LogEntry → Prop}
    (hiff : ∀ h es h' es', (∀ e ∈ h :: es, e ∈ xs) → (∀ e ∈ h' :: es', e ∈ xs) → (∀ e ∈ es, Folds h e) →
      (∀ e ∈ es', Folds h' e) → ¬ Folds h h' →
      (R (es.foldl appendContinuationLine h) (es'.foldl appendContinuationLine h') ↔ P (h :: es) (h' :: es'))) :
    (GroupRelatedLogEntries xs).IsChain R ↔ (group Folds xs).IsChain P := by
  have hg : IsGrouping Folds (group Folds xs) := group_isGrouping xs
  rw [GroupRelatedLogEntries_eq, isChain_merge hg.ne_nil]
  refine hg.isChain_iff fun g hgm g' hgm' hapart => ?_
  obtain ⟨h, es, rfl⟩ := List.exists_cons_of_ne_nil (hg.ne_nil g hgm)
  obtain ⟨h', es', rfl⟩ := List.exists_cons_of_ne_nil (hg.ne_nil g' hgm')
  rw [← hiff h es h' es' (fun e he => mem_of_mem_group hgm he) (fun e he => mem_of_mem_group hgm' he)
    (hg.body _ hgm h rfl) (hg.body _ hgm' h' rfl) (hapart h rfl h' rfl)]
  constructor
  · exact fun hall => hall _ rfl _ rfl
  · intro hr m hm m' hm'
    cases hm
    cases hm'
    exact hr

/-- **Grouping again.** The groups of a log are left as they are exactly when none reopens the one before it. -/
theorem regroup_iff {xs : List LogEntry} (hxs : ∀ x ∈ xs, PerLine x) :
    GroupRelatedLogEntries (GroupRelatedLogEntries xs) = GroupRelatedLogEntries xs ↔
      (group Folds xs).IsChain fun g g' => ¬ Reopens g g' := by
  have hagain : GroupRelatedLogEntries (GroupRelatedLogEntries xs) = GroupRelatedLogEntries xs ↔
      (GroupRelatedLogEntries xs).IsChain fun a e => ¬ Folds a e := by
    rw [GroupRelatedLogEntries.eq_def (GroupRelatedLogEntries xs), groupNext_eq]
    exact foldl_foldNext_eq_self_iff folds_absorb
  rw [hagain]
  refine isChain_entries_iff fun h es h' es' hmem hmem' hes hes' hapart => not_congr ?_
  exact folds_merged_iff (hxs h (hmem h List.mem_cons_self)) (hxs h' (hmem' h' List.mem_cons_self)) hes
    (fun e he => ⟨hxs e (hmem' e (List.mem_cons_of_mem h' he)), hes' e he⟩) hapart

end LogDeck.Models
