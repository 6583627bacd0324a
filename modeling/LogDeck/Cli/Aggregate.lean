/-
The aggregated log of a stack, read by the CLI (`cli/logs.go`: `aggregatedLogs`, `mergeByTimestamp`; `cli/parse.go`:
`batchStrings`; `docker/logs_aggregate.go`: `GetAggregatedLogsParsed`).

The server answers at most twenty targets a request: a target that fails is skipped, and only when all of them fail the
request does. The CLI asks for twenty targets at a time, gives up at the first request that fails, and sorts what the
requests bring together. The concurrent reads of a request are a list of answers, one for each target.

Results:
- `mergeByTimestamp_batches`: merging the merged batches is merging once;
- `batches_as_one_iff`: the CLI returns what one request for all targets would, and fails only when all targets do, if
  and only if each batch has a target that answers, or no target does;
- `last_target_fails`: the only target of the second batch fails, and the logs of the other twenty are lost with it.
-/
import LogDeck.Lib.StableSort
import LogDeck.Docker.Aggregate

namespace LogDeck.Cli

open LogDeck.Models LogDeck.Aggregate StableSort

/-! ## Model -/

/-- a target and what reading its log gives -/
structure Answer where
  target : LogTarget
  logs : Except String (List LogEntry)

/-- `errs[i]` -/
def Answer.err (a : Answer) : Option String :=
  match a.logs with
  | .error e => some e
  | .ok _ => none

/-- `batches[i]`, with the target's tag -/
def Answer.batch (a : Answer) : List LogEntry :=
  match a.logs with
  | .error _ => []
  | .ok entries => entries.map (tagLogEntry a.target)

def GetAggregatedLogsParsed (answers : List Answer) : Except String (List LogEntry) :=
  let errs := answers.filterMap Answer.err
  if errs.length = answers.length then
    match errs.head? with
    | some firstErr => .error firstErr
    -- no target, no error
    | none => .ok []
  else .ok (mergeLogEntriesByTimestamp (answers.map Answer.batch))

def maxAggregateTargets : ℕ := 20

def batchStrings {α : Type} (items : List α) (size : ℕ) : List (List α) :=
  if size = 0 ∨ items = [] then []
  else items.take size :: batchStrings (items.drop size) size
termination_by items.length
decreasing_by
  obtain ⟨hsize, hne⟩ := not_or.1 ‹¬(size = 0 ∨ items = [])›
  have hpos := List.length_pos_iff.2 hne
  rw [List.length_drop]
  omega

/-- `sort.SliceStable` by timestamp -/
def mergeByTimestamp (entries : List LogEntry) : List LogEntry :=
  entries.insertionSort fun a b => a.timestamp ≤ b.timestamp

/-- one request after the other; the first that fails ends it -/
def aggregatedLogs (answers : List Answer) : Except String (List LogEntry) := do
  let responses ← (batchStrings answers maxAggregateTargets).mapM GetAggregatedLogsParsed
  return mergeByTimestamp responses.flatten

/-- what a user of the batches is promised: they say what one request would, and fail only when every target does -/
structure AsOneRequest (answers : List Answer) : Prop where
  same : aggregatedLogs answers = GetAggregatedLogsParsed answers
  fails : (∃ e, aggregatedLogs answers = .error e) ↔ answers ≠ [] ∧ ∀ a ∈ answers, a.err.isSome

/-- each twenty targets in a row, and the last ones, have one that answers -/
def EachBatchAnswers (answers : List Answer) : Prop :=
  ∀ i, maxAggregateTargets * i < answers.length →
    ∃ a ∈ (answers.drop (maxAggregateTargets * i)).take maxAggregateTargets, a.err = none

/-! ## One request -/

/-- every target fails: the error is the first one's -/
theorem GetAggregatedLogsParsed_error {a : Answer} {answers : List Answer} {e : String} (he : a.err = some e)
    (h : ∀ b ∈ answers, b.err.isSome) : GetAggregatedLogsParsed (a :: answers) = .error e := by
  have hlen : (answers.filterMap Answer.err).length = answers.length := by
    rw [List.length_filterMap_eq_countP, List.countP_eq_length]
    exact h
  simp [GetAggregatedLogsParsed, he, hlen]

/-- some target answers, or there is none: the batches are merged -/
theorem GetAggregatedLogsParsed_ok {answers : List Answer} (h : answers = [] ∨ ∃ a ∈ answers, a.err = none) :
    GetAggregatedLogsParsed answers = .ok (mergeLogEntriesByTimestamp (answers.map Answer.batch)) := by
  rcases h with rfl | ⟨a, ha, hnone⟩
  · rfl
  · have hlen : (answers.filterMap Answer.err).length ≠ answers.length := by
      rw [List.length_filterMap_eq_countP, Ne, List.countP_eq_length]
      intro hall
      have hsome := hall a ha
      rw [hnone] at hsome
      cases hsome
    simp only [GetAggregatedLogsParsed, if_neg hlen]

/-! ## Batches -/

variable {α : Type} {items : List α} {size : ℕ}

theorem batchStrings_cons (hsize : size ≠ 0) (h : items ≠ []) :
    batchStrings items size = items.take size :: batchStrings (items.drop size) size := by
  rw [batchStrings, if_neg (not_or.2 ⟨hsize, h⟩)]

@[simp]
theorem batchStrings_nil (size : ℕ) : batchStrings ([] : List α) size = [] := by
  rw [batchStrings, if_pos (Or.inr rfl)]

theorem flatten_batchStrings (hsize : size ≠ 0) (items : List α) : (batchStrings items size).flatten = items := by
  induction items using batchStrings.induct size with
  | case1 items h =>
    obtain rfl := h.resolve_left hsize
    simp
  | case2 items h ih =>
    rw [batchStrings_cons hsize (not_or.1 h).2, List.flatten_cons, ih, List.take_append_drop]

/-- the batches begin at the multiples of the size -/
theorem mem_batchStrings_iff (hsize : size ≠ 0) {batch : List α} :
    batch ∈ batchStrings items size ↔ ∃ i, size * i < items.length ∧ batch = (items.drop (size * i)).take size := by
  induction items using batchStrings.induct size with
  | case1 items h =>
    obtain rfl := h.resolve_left hsize
    simp
  | case2 items h ih =>
    have hpos := List.length_pos_iff.2 (not_or.1 h).2
    rw [batchStrings_cons hsize (not_or.1 h).2, List.mem_cons, ih]
    constructor
    · rintro (rfl | ⟨i, hi, rfl⟩)
      · exact ⟨0, by simpa using hpos, by simp⟩
      · rw [List.length_drop] at hi
        refine ⟨i + 1, by rw [Nat.mul_succ]; omega, ?_⟩
        rw [List.drop_drop, Nat.mul_succ, Nat.add_comm]
    · rintro ⟨i, hi, rfl⟩
      cases i with
      | zero => exact Or.inl (by simp)
      | succ i =>
        rw [Nat.mul_succ] at hi
        refine Or.inr ⟨i, by rw [List.length_drop]; omega, ?_⟩
        rw [List.drop_drop, Nat.mul_succ, Nat.add_comm]

/-! ## Requests one after the other -/

theorem mapM_ok {β : Type} {f : α → Except String β} {g : α → β} {l : List α} (h : ∀ a ∈ l, f a = .ok (g a)) :
    l.mapM f = .ok (l.map g) := by
  induction l with
  | nil => rfl
  | cons a l ih =>
    rw [List.mapM_cons, h a List.mem_cons_self, ih fun b hb => h b (List.mem_cons_of_mem a hb)]
    rfl

theorem mapM_error {β : Type} {f : α → Except String β} {a : α} {e : String} {l : List α} (ha : a ∈ l)
    (h : f a = .error e) : ∃ e', l.mapM f = .error e' := by
  induction l with
  | nil => cases ha
  | cons b l ih =>
    rw [List.mapM_cons]
    cases hb : f b with
    | error e' => exact ⟨e', rfl⟩
    | ok y =>
      have hmem : a ∈ l := by
        rcases List.mem_cons.1 ha with rfl | hmem
        · rw [h] at hb
          cases hb
        · exact hmem
      obtain ⟨e', he'⟩ := ih hmem
      exact ⟨e', by rw [he']; rfl⟩

/-- merging the merged batches is merging once -/
theorem mergeByTimestamp_batches (batches : List (List Answer)) :
    mergeByTimestamp (batches.map fun batch => mergeLogEntriesByTimestamp (batch.map Answer.batch)).flatten =
      mergeLogEntriesByTimestamp (batches.flatten.map Answer.batch) := by
  have htrans : IsTrans LogEntry fun a b => a.timestamp ≤ b.timestamp := ⟨fun _ _ _ => le_trans⟩
  have htotal : Std.Total fun a b : LogEntry => a.timestamp ≤ b.timestamp := ⟨fun _ _ => le_total _ _⟩
  have hsort := insertionSort_flatten_map (fun a b : LogEntry => a.timestamp ≤ b.timestamp)
    (batches.map fun batch => (batch.map Answer.batch).flatten)
  rw [List.map_map] at hsort
  calc mergeByTimestamp (batches.map fun batch => mergeLogEntriesByTimestamp (batch.map Answer.batch)).flatten
      = (batches.map fun batch => (batch.map Answer.batch).flatten).flatten.insertionSort _ := hsort
    _ = mergeLogEntriesByTimestamp (batches.flatten.map Answer.batch) := by
      rw [mergeLogEntriesByTimestamp, List.map_flatten, List.flatten_flatten, List.map_map]
      rfl

theorem maxAggregateTargets_ne : maxAggregateTargets ≠ 0 := by decide

/-- each request has a target that answers: the entries are those of one request -/
theorem aggregatedLogs_ok {answers : List Answer} (h : EachBatchAnswers answers) :
    aggregatedLogs answers = .ok (mergeLogEntriesByTimestamp (answers.map Answer.batch)) := by
  have hok : ∀ batch ∈ batchStrings answers maxAggregateTargets, GetAggregatedLogsParsed batch =
      .ok (mergeLogEntriesByTimestamp (batch.map Answer.batch)) := by
    intro batch hbatch
    obtain ⟨i, hi, rfl⟩ := (mem_batchStrings_iff maxAggregateTargets_ne).1 hbatch
    exact GetAggregatedLogsParsed_ok (Or.inr (h i hi))
  rw [aggregatedLogs, mapM_ok hok]
  change Except.ok _ = _
  rw [mergeByTimestamp_batches, flatten_batchStrings maxAggregateTargets_ne]

/-- a request all of whose targets fail: nothing is returned -/
theorem aggregatedLogs_error {answers : List Answer} {i : ℕ} (hi : maxAggregateTargets * i < answers.length)
    (h : ∀ a ∈ (answers.drop (maxAggregateTargets * i)).take maxAggregateTargets, a.err.isSome) :
    ∃ e, aggregatedLogs answers = .error e := by
  have hmem : (answers.drop (maxAggregateTargets * i)).take maxAggregateTargets ∈
      batchStrings answers maxAggregateTargets := (mem_batchStrings_iff maxAggregateTargets_ne).2 ⟨i, hi, rfl⟩
  cases hbatch : (answers.drop (maxAggregateTargets * i)).take maxAggregateTargets with
  | nil =>
    have hlen := congrArg List.length hbatch
    rw [List.length_take, List.length_drop, List.length_nil] at hlen
    have hne := maxAggregateTargets_ne
    omega
  | cons a rest =>
    rw [hbatch] at hmem h
    obtain ⟨e, he⟩ := Option.isSome_iff_exists.1 (h a List.mem_cons_self)
    have hfail := GetAggregatedLogsParsed_error he fun b hb => h b (List.mem_cons_of_mem a hb)
    obtain ⟨e', he'⟩ := mapM_error hmem hfail
    exact ⟨e', by rw [aggregatedLogs, he']; rfl⟩

/-- every target fails: the first request reports the first one's error, as one request would -/
theorem aggregatedLogs_all_fail {a : Answer} {answers : List Answer} {e : String} (he : a.err = some e)
    (h : ∀ b ∈ answers, b.err.isSome) : aggregatedLogs (a :: answers) = .error e := by
  have hfirst : GetAggregatedLogsParsed ((a :: answers).take maxAggregateTargets) = .error e :=
    GetAggregatedLogsParsed_error he fun b hb => h b (List.mem_of_mem_take hb)
  rw [aggregatedLogs, batchStrings_cons maxAggregateTargets_ne (List.cons_ne_nil a answers), List.mapM_cons, hfirst]
  rfl

/-! ## Results -/

theorem EachBatchAnswers.some_answers {answers : List Answer} (h : EachBatchAnswers answers) :
    answers = [] ∨ ∃ a ∈ answers, a.err = none := by
  cases answers with
  | nil => exact Or.inl rfl
  | cons b answers =>
    obtain ⟨a, ha, hnone⟩ := h 0 (by simp)
    exact Or.inr ⟨a, List.mem_of_mem_drop (List.mem_of_mem_take ha), hnone⟩

theorem asOneRequest_of_each {answers : List Answer} (h : EachBatchAnswers answers) : AsOneRequest answers := by
  have hok := aggregatedLogs_ok h
  refine ⟨hok.trans (GetAggregatedLogsParsed_ok h.some_answers).symm, ?_⟩
  constructor
  · rintro ⟨e, he⟩
    rw [hok] at he
    cases he
  · rintro ⟨hne, hall⟩
    obtain ⟨a, ha, hnone⟩ := h.some_answers.resolve_left hne
    have hsome := hall a ha
    rw [hnone] at hsome
    cases hsome

theorem asOneRequest_of_all_fail {answers : List Answer} (h : ∀ a ∈ answers, a.err.isSome) : AsOneRequest answers := by
  cases answers with
  | nil => exact asOneRequest_of_each fun i hi => absurd hi (Nat.not_lt_zero _)
  | cons a answers =>
    obtain ⟨e, he⟩ := Option.isSome_iff_exists.1 (h a List.mem_cons_self)
    have hrest : ∀ b ∈ answers, b.err.isSome := fun b hb => h b (List.mem_cons_of_mem a hb)
    have herror := aggregatedLogs_all_fail he hrest
    constructor
    · exact herror.trans (GetAggregatedLogsParsed_error he hrest).symm
    · exact ⟨fun _ => ⟨List.cons_ne_nil a answers, h⟩, fun _ => ⟨e, herror⟩⟩

/-- **Batches as one request.** For any targets and answers, the CLI returns what one request would and fails only when
every target does, if and only if each batch has a target that answers, or no target answers. -/
theorem batches_as_one_iff (answers : List Answer) :
    AsOneRequest answers ↔ EachBatchAnswers answers ∨ ∀ a ∈ answers, a.err.isSome := by
  constructor
  · intro h
    by_contra hcon
    obtain ⟨hbatch, hall⟩ := not_or.1 hcon
    unfold EachBatchAnswers at hbatch
    push Not at hbatch
    obtain ⟨i, hi, hfail⟩ := hbatch
    have herror := aggregatedLogs_error hi fun a ha => Option.isSome_iff_ne_none.2 (hfail a ha)
    exact hall (h.fails.1 herror).2
  · rintro (h | h)
    · exact asOneRequest_of_each h
    · exact asOneRequest_of_all_fail h

/-- twenty containers that answer, and one whose engine does not -/
def oneTooMany : List Answer :=
  List.replicate 20 ⟨web, .ok [lineAt 1]⟩ ++ [⟨⟨"remote", "c2", "db"⟩, .error "host unreachable"⟩]

/-- **The last batch.** The one target of the second request fails; nothing is returned. -/
theorem last_target_fails : ¬ ∀ answers : List Answer, AsOneRequest answers := by
  intro h
  have herror : ∃ e, aggregatedLogs oneTooMany = .error e := by
    have hlen : maxAggregateTargets * 1 < oneTooMany.length := by decide
    apply aggregatedLogs_error hlen
    simp [oneTooMany, maxAggregateTargets, Answer.err]
  have hall := ((h oneTooMany).fails.1 herror).2
  exact absurd (hall ⟨web, .ok [lineAt 1]⟩ (by simp [oneTooMany])) (by simp [Answer.err])

end LogDeck.Cli
