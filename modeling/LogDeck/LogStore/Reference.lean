/-
What the pages of a history query should show.

`reference`: the rows of the window, oldest first, each folded into the last entry of its generation exactly when the
grouper folds the pair, and the entries that match. The query itself compares container ids where the reference compares
generations; `groupRows_reference_iff` is when that makes no difference to the grouping of the whole window.
-/
import LogDeck.LogStore.Pagination

namespace LogDeck.LogStore

open LogDeck.Models HeadGroup

/-- the rows of the window, oldest first -/
def windowRows (db : DB) (q : LogQuery) : List LineRow :=
  (newestFirst db (Selected (generations db q.host q.container) q none)).reverse

/-- the entries so far, each with its generation; the row joins the last one if it is of the same generation and the
grouper folds the pair -/
def foldRow (t : Text) (gens : List Generation) (entries : List (ℕ × LogEntry)) (l : LineRow) : List (ℕ × LogEntry) :=
  let entry := entryFromRow t l (byRef gens l.ref)
  match entries.getLast? with
  | none => [(l.ref, entry)]
  | some (ref, last) =>
    if ref = l.ref then
      match GroupRelatedLogEntries [last, entry] with
      | [merged] => entries.dropLast ++ [(ref, merged)]
      | _ => entries ++ [(l.ref, entry)]
    else entries ++ [(l.ref, entry)]

/-- the reference grouping of the window -/
def referenceEntries (t : Text) (db : DB) (q : LogQuery) : List LogEntry :=
  ((windowRows db q).foldl (foldRow t (generations db q.host q.container)) []).map Prod.snd

def reference (t : Text) (db : DB) (q : LogQuery) (m : Matcher) : List LogEntry :=
  (referenceEntries t db q).filter fun e => m.matches t e

/-- the stored rows of the window, oldest first -/
def window (t : Text) (db : DB) (q : LogQuery) : List StoredRow :=
  (windowRows db q).map (storedRow t (generations db q.host q.container))

/-- the rows of the entries that the grouper makes of the whole window -/
def windowGroups (t : Text) (db : DB) (q : LogQuery) : List (List LineRow) :=
  let gens := generations db q.host q.container
  group (fun a b => Continues (storedRow t gens a) (storedRow t gens b)) (windowRows db q)

/-- no row folds into an entry of another generation with the same container id (two hosts can be the same engine) -/
def Unmixed (t : Text) (db : DB) (q : LogQuery) : Prop :=
  ∀ g ∈ windowGroups t db q, ∀ l ∈ g, ∀ l' ∈ g, l.ref = l'.ref

section Reference

variable {t : Text} {db : DB} {q : LogQuery} {gens : List Generation}

/-- rows as a scan reads them -/
def Scanned (t : Text) (gens : List Generation) (g : List StoredRow) : Prop :=
  g ≠ [] ∧ ∀ r ∈ g, ∃ l, storedRow t gens l = r

theorem storedRow_injective : Function.Injective (storedRow t gens) := by
  intro l l' h
  have hrows := congrArg (fun r : StoredRow => r.entry.rows) h
  exact List.singleton_inj.1 hrows

/-- an entry keeps its rows -/
theorem rows_mergeRows {g : List StoredRow} (hg : Scanned t gens g) : (mergeRows g).rows.map (storedRow t gens) = g := by
  have hrow : ∀ r ∈ g, ∃ l : LineRow, r.entry.rows = [l] ∧ r.entry.raw = l.line.raw := by
    intro r hr
    obtain ⟨l, rfl⟩ := hg.2 r hr
    exact ⟨l, storedRow_rows t gens l⟩
  rw [(mergeRows_rows hg.1 hrow).1, List.map_flatMap]
  have hone : ∀ r ∈ g, r.entry.rows.map (storedRow t gens) = [r] := by
    intro r hr
    obtain ⟨l, rfl⟩ := hg.2 r hr
    rfl
  rw [List.flatMap_congr hone, List.flatMap_singleton']

/-- entries of the same rows are the same, and of others are others -/
theorem map_mergeRows_inj {gs gs' : List (List StoredRow)} (h : ∀ g ∈ gs, Scanned t gens g)
    (h' : ∀ g ∈ gs', Scanned t gens g) : gs.map mergeRows = gs'.map mergeRows ↔ gs = gs' := by
  have hrows : ∀ {gs : List (List StoredRow)}, (∀ g ∈ gs, Scanned t gens g) →
      (gs.map mergeRows).map (fun e => e.rows.map (storedRow t gens)) = gs := by
    intro gs hgs
    rw [List.map_map]
    exact (List.map_congr_left fun g hg => rows_mergeRows (hgs g hg)).trans (List.map_id gs)
  constructor
  · intro heq
    rw [← hrows h, heq, hrows h']
  · rintro rfl
    rfl

theorem scanned_of_flatten {gs : List (List StoredRow)} {ls : List LineRow} (hne : ∀ g ∈ gs, g ≠ [])
    (h : gs.flatten = ls.map (storedRow t gens)) : ∀ g ∈ gs, Scanned t gens g := by
  intro g hg
  refine ⟨hne g hg, fun r hr => ?_⟩
  obtain ⟨l, -, hl⟩ := List.mem_map.1 (h ▸ List.mem_flatten.2 ⟨g, hg, hr⟩)
  exact ⟨l, hl⟩

/-- the generation of an entry with the entry -/
def keyed (t : Text) (gens : List Generation) (l : LineRow) : ℕ × LogEntry := (l.ref, (storedRow t gens l).entry)

/-- the row joins the entry in the reference -/
def Joins (a b : ℕ × LogEntry) : Prop := a.1 = b.1 ∧ IsContinuationLogEntry b.2 a.2 = true

instance : DecidableRel Joins := fun a b => by unfold Joins; infer_instance

def joined (a b : ℕ × LogEntry) : ℕ × LogEntry := (a.1, appendContinuationLine a.2 b.2)

theorem foldRow_eq (entries : List (ℕ × LogEntry)) (l : LineRow) :
    foldRow t gens entries l = foldNext Joins joined entries (keyed t gens l) := by
  have hrow : entryFromRow t l (byRef gens l.ref) = (storedRow t gens l).entry := rfl
  simp only [foldRow, foldNext, hrow, groupRelated_pair]
  cases entries.getLast? with
  | none => rfl
  | some last =>
    obtain ⟨ref, last⟩ := last
    by_cases href : ref = l.ref
    · cases hcont : IsContinuationLogEntry (storedRow t gens l).entry last <;> simp [Joins, keyed, joined, href, hcont]
    · simp [Joins, keyed, href]

theorem joins_keyed (a b : LineRow) : Joins (keyed t gens a) (keyed t gens b) ↔
    a.ref = b.ref ∧ Continues (storedRow t gens a) (storedRow t gens b) := by
  unfold Joins Continues
  refine and_congr_right fun href => ?_
  have hid : (storedRow t gens a).entry.containerID = (storedRow t gens b).entry.containerID :=
    congrArg (fun ref => (byRef gens ref).id) href
  rw [and_iff_right hid]
  rfl

theorem merge_keyed (h : LineRow) (rows : List LineRow) :
    merge joined ((h :: rows).map (keyed t gens)) = some (h.ref, mergeRows ((h :: rows).map (storedRow t gens))) := by
  have hfold : ∀ (rows : List LineRow) (ref : ℕ) (e : LogEntry), (rows.map (keyed t gens)).foldl joined (ref, e) =
      (ref, (rows.map (storedRow t gens)).foldl (fun entry r => appendContinuationLine entry r.entry) e) := by
    intro rows
    induction rows with
    | nil => exact fun _ _ => rfl
    | cons r rows ih => exact fun ref e => ih ref _
  exact congrArg some (hfold rows h.ref _)

/-- **The reference in groups.** -/
theorem referenceEntries_eq : referenceEntries t db q =
    (group (fun a b : LineRow => a.ref = b.ref ∧ Continues (storedRow t (generations db q.host q.container) a)
      (storedRow t (generations db q.host q.container) b)) (windowRows db q)).map
      (mergeRows ∘ List.map (storedRow t (generations db q.host q.container))) := by
  have hfold : (windowRows db q).foldl (foldRow t (generations db q.host q.container)) [] =
      ((windowRows db q).map (keyed t (generations db q.host q.container))).foldl (foldNext Joins joined) [] := by
    rw [List.foldl_map]
    exact congrArg (fun f => List.foldl f [] (windowRows db q)) (funext₂ foldRow_eq)
  have habsorb : ∀ a c, Joins a c → ∀ e, Joins (joined a c) e ↔ Joins a e := by
    intro a c hac e
    simp only [Joins, joined, isContinuation_append hac.2]
  have hmerge : ∀ gs : List (List LineRow), (∀ g ∈ gs, g ≠ []) →
      ((gs.map (List.map (keyed t (generations db q.host q.container)))).filterMap (merge joined)).map Prod.snd =
        gs.map (mergeRows ∘ List.map (storedRow t (generations db q.host q.container))) := by
    intro gs hgs
    induction gs with
    | nil => rfl
    | cons g gs ih =>
      obtain ⟨h, rows, rfl⟩ := List.exists_cons_of_ne_nil (hgs g List.mem_cons_self)
      rw [List.map_cons, List.filterMap_cons_some (merge_keyed h rows), List.map_cons,
        ih fun g' hg' => hgs g' (List.mem_cons_of_mem _ hg')]
      rfl
  rw [referenceEntries, hfold, foldl_foldNext habsorb, group_map,
    hmerge _ (group_isGrouping _).ne_nil, group_congr joins_keyed]

theorem group_window : group Continues (window t db q) =
    (windowGroups t db q).map (List.map (storedRow t (generations db q.host q.container))) := group_map _ _

/-- **The reference in one piece.** The reference entries are what the grouper makes of the whole window exactly when it
folds no row into an entry of another generation. -/
theorem groupRows_reference_iff :
    referenceEntries t db q = (group Continues (window t db q)).map mergeRows ↔ Unmixed t db q := by
  have hscanned : ∀ gs : List (List LineRow), (∀ g ∈ gs, g ≠ []) →
      ∀ g ∈ gs.map (List.map (storedRow t (generations db q.host q.container))),
        Scanned t (generations db q.host q.container) g := by
    intro gs hgs g hg
    obtain ⟨ls, hls, rfl⟩ := List.mem_map.1 hg
    exact ⟨by simpa using hgs ls hls, fun r hr => (List.mem_map.1 hr).imp fun l hl => hl.2⟩
  have hinj : Function.Injective (List.map (storedRow t (generations db q.host q.container))) :=
    List.map_injective_iff.2 storedRow_injective
  rw [referenceEntries_eq, group_window, ← List.map_map]
  refine (map_mergeRows_inj (hscanned _ (group_isGrouping _).ne_nil) (hscanned _ (group_isGrouping _).ne_nil)).trans ?_
  exact (List.map_injective_iff.2 hinj).eq_iff.trans group_kind_iff

end Reference

end LogDeck.LogStore
