/-
The aggregated log of several containers (`docker/logs_aggregate.go`: `StreamAggregatedLogsParsed`,
`GetAggregatedLogsParsed`, `copyTaggedEntries`, `mergeLogEntriesByTimestamp`).

The history of all targets is read first, one request each, merged and written to the pipe. Then the live streams are
opened, one target after the other, each without history (`tail` "0"), and copied to the pipe as lines arrive. A line is
a parsed entry that the request's streams and time window select; a live stream delivers the lines that the container
emits once it is attached. A stream ends when its container stops; a container that starts again emits lines that no
stream of this request delivers.

A line is known by its place in the log of its container. `Item.live` records it; nothing reads it.

Results:
- `step_inv`: a step that hands over cleanly keeps every target's live lines those from its historical read on;
- `handover_iff`: over every run, no line is lost or repeated, if and only if each live stream attaches before its target
  emits, and no target emits after its stream has ended;
- `line_lost_before_attach`: a line between the read and the attach.
-/
import Mathlib.Data.List.Range
import Mathlib.Data.List.Sort
import LogDeck.Lib.Machine
import LogDeck.Models.Logs

namespace LogDeck.Aggregate

open LogDeck.LogStore LogDeck.Models Machine

/-! ## Model -/

structure LogTarget where
  host : String
  id : String
  name : String
deriving DecidableEq, Repr

def LogTarget.key (t : LogTarget) : GenKey := ⟨t.host, t.id⟩

/-- the options of a request; `tail = none` asks for all lines, `level` and `search` are the filters, if there are any -/
structure LogOptions where
  follow : Bool
  tail : Option ℕ := none
  level : Option (LogLevel → Bool) := none
  search : Option (LogEntry → Bool) := none

/-- the filter of `parseDockerLogs` and of `emit` -/
def LogOptions.passes (o : LogOptions) (e : LogEntry) : Bool := o.level.all (· e.level) && o.search.all (· e)

/-- the logs of the engines, by container -/
abbrev Logs := GenKey → List LogEntry

/-- the engine's answer to a tail option -/
def tailLines (tail : Option ℕ) (log : List LogEntry) : List LogEntry :=
  match tail with
  | none => log
  | some n => log.drop (log.length - n)

def tagLogEntry (t : LogTarget) (e : LogEntry) : LogEntry := { e with containerID := t.id, containerName := t.name }

/-- `GetContainerLogsParsed` and `tagLogEntries` -/
def historyBatch (o : LogOptions) (t : LogTarget) (log : List LogEntry) : List LogEntry :=
  ((GroupRelatedLogEntries (tailLines o.tail log)).filter o.passes).map (tagLogEntry t)

/-- `sort.SliceStable` by timestamp -/
def mergeLogEntriesByTimestamp (batches : List (List LogEntry)) : List LogEntry :=
  batches.flatten.insertionSort fun a b => a.timestamp ≤ b.timestamp

/-- the historical read of a target: `read n batch` has seen the first `n` lines of the log -/
inductive History where
  | pending
  | failed
  | read (n : ℕ) (batch : List LogEntry)
deriving DecidableEq, Repr

/-- `errs[i] = nil` and the batch -/
def History.batch : History → List LogEntry
  | .read _ batch => batch
  | _ => []

/-- the live stream of a target: `opened next` has copied the lines before `next` -/
inductive Live where
  | notYet
  | failed
  | opened (next : ℕ)
  | closed
deriving DecidableEq, Repr

def Live.isOpen : Live → Bool
  | .opened _ => true
  | _ => false

/-- the main goroutine: at the historical reads, writing the history, about to open the stream of a target (of none: at
`wg.Wait`), done, or gone with its client -/
inductive Phase where
  | reading
  | emitting (rest : List LogEntry)
  | attaching (i : ℕ)
  | finished
  | cancelled
deriving DecidableEq, Repr

inductive Item (n : ℕ) where
  | historical (e : LogEntry)
  /-- the line at place `pos` in the log of target `i` -/
  | live (i : Fin n) (pos : ℕ) (e : LogEntry)
  | heartbeat
deriving DecidableEq, Repr

structure Agg (n : ℕ) where
  logs : Logs
  phase : Phase
  history : Fin n → History
  live : Fin n → Live
  pipe : List (Item n)

inductive Act (n : ℕ) where
  /-- a container emits a line -/
  | emit (key : GenKey) (e : LogEntry)
  /-- a historical read returns -/
  | read (i : Fin n) (ok : Bool)
  /-- all historical reads have returned -/
  | collect
  /-- the main goroutine writes the next historical entry, or turns to the live streams -/
  | encode
  /-- it opens the next live stream -/
  | attach (ok : Bool)
  /-- a live stream copies its next line, or drops it if the filter does -/
  | copy (i : Fin n)
  | heartbeat (i : Fin n)
  /-- a live stream ends: its container stopped, or it broke -/
  | streamEnd (i : Fin n) (ok : Bool)
  /-- `wg.Wait` returns -/
  | finish
  /-- the client is gone -/
  | cancel
deriving DecidableEq, Repr

namespace Agg

variable (targets : List LogTarget) (o : LogOptions)

def init (logs : Logs) : Agg targets.length := ⟨logs, .reading, fun _ => .pending, fun _ => .notYet, []⟩

variable {targets}

/-- the log of a target -/
def log (s : Agg targets.length) (i : Fin targets.length) : List LogEntry := s.logs targets[i].key

def emit (s : Agg targets.length) (key : GenKey) (e : LogEntry) : Agg targets.length :=
  { s with logs := Function.update s.logs key (s.logs key ++ [e]) }

def read (s : Agg targets.length) (i : Fin targets.length) (ok : Bool) : Agg targets.length :=
  if s.phase = .reading ∧ s.history i = .pending then
    { s with
      history := Function.update s.history i
        (if ok then .read (s.log i).length (historyBatch o targets[i] (s.log i)) else .failed) }
  else s

/-- the end of `GetAggregatedLogsParsed`: an error when every target failed, and there is one -/
def collect (s : Agg targets.length) : Agg targets.length :=
  if s.phase = .reading ∧ ∀ i, s.history i ≠ .pending then
    if targets ≠ [] ∧ ∀ i, s.history i = .failed then { s with phase := .finished }
    else { s with phase := .emitting (mergeLogEntriesByTimestamp (List.ofFn fun i => (s.history i).batch)) }
  else s

def encode (s : Agg targets.length) : Agg targets.length :=
  match s.phase with
  | .emitting (e :: rest) => { s with phase := .emitting rest, pipe := s.pipe ++ [.historical e] }
  | .emitting [] => { s with phase := if o.follow then .attaching 0 else .finished }
  | _ => s

def attach (s : Agg targets.length) (ok : Bool) : Agg targets.length :=
  match s.phase with
  | .attaching i =>
    if h : i < targets.length then
      { s with
        phase := .attaching (i + 1)
        live := Function.update s.live ⟨i, h⟩ (if ok then .opened (s.log ⟨i, h⟩).length else .failed) }
    else s
  | _ => s

def copy (s : Agg targets.length) (i : Fin targets.length) : Agg targets.length :=
  match s.live i with
  | .opened next =>
    match (s.log i)[next]? with
    | some e =>
      { s with
        live := Function.update s.live i (.opened (next + 1))
        pipe := s.pipe ++ if o.passes e then [.live i next (tagLogEntry targets[i] e)] else [] }
    | none => s
  | _ => s

def heartbeat (s : Agg targets.length) (i : Fin targets.length) : Agg targets.length :=
  match s.live i with
  | .opened _ => { s with pipe := s.pipe ++ [.heartbeat] }
  | _ => s

/-- a stream whose container stopped has delivered everything -/
def streamEnd (s : Agg targets.length) (i : Fin targets.length) (ok : Bool) : Agg targets.length :=
  match s.live i with
  | .opened next =>
    if ok then
      if next = (s.log i).length then { s with live := Function.update s.live i .closed } else s
    else { s with live := Function.update s.live i .failed }
  | _ => s

def finish (s : Agg targets.length) : Agg targets.length :=
  match s.phase with
  | .attaching i =>
    if i = targets.length ∧ ∀ j, (s.live j).isOpen = false then { s with phase := .finished } else s
  | _ => s

def Over (s : Agg targets.length) : Prop := s.phase = .finished ∨ s.phase = .cancelled

instance (s : Agg targets.length) : Decidable s.Over := by unfold Over; infer_instance

/-- nothing happens once the stream has ended -/
def step (s : Agg targets.length) (a : Act targets.length) : Agg targets.length :=
  if s.Over then s
  else
    match a with
    | .emit key e => s.emit key e
    | .read i ok => s.read o i ok
    | .collect => s.collect
    | .encode => s.encode o
    | .attach ok => s.attach ok
    | .copy i => s.copy o i
    | .heartbeat i => s.heartbeat i
    | .streamEnd i ok => s.streamEnd i ok
    | .finish => s.finish
    | .cancel => { s with phase := .cancelled }

/-- the places of the lines that the live phase has delivered for a target, in order -/
def delivered (s : Agg targets.length) (i : Fin targets.length) : List ℕ :=
  s.pipe.filterMap fun item =>
    match item with
    | .live j pos _ => if j = i then some pos else none
    | _ => none

end Agg

/-- the places from `n` to `m` of the lines in a log that pass the filter -/
def window (o : LogOptions) (log : List LogEntry) (n m : ℕ) : List ℕ :=
  (List.range' n (m - n)).filter fun pos => (log[pos]?).any o.passes

variable {targets : List LogTarget} (o : LogOptions)

/-- what a user of the aggregate is promised of every target that does not fail -/
structure HandedOver (s : Agg targets.length) : Prop where
  /-- what an open stream has come to since the historical read is delivered, once and in order; the rest is still to
  come -/
  once : ∀ i n batch next, s.history i = .read n batch → s.live i = .opened next →
    s.delivered i = window o (s.log i) n next
  /-- when a stream has ended, everything is delivered -/
  all : ∀ i n batch, s.history i = .read n batch → s.live i = .closed →
    s.delivered i = window o (s.log i) n (s.log i).length
  /-- the live phase delivers no historical line -/
  later : ∀ i n batch, s.history i = .read n batch → ∀ pos ∈ s.delivered i, n ≤ pos
  /-- a line arrives as it was emitted, with its container -/
  same : ∀ i pos e, .live i pos e ∈ s.pipe → ∃ line, (s.log i)[pos]? = some line ∧ e = tagLogEntry targets[i] line
  /-- when the aggregate ends by itself, the stream of every target has ended -/
  ended : s.phase = .finished → o.follow = true → ∀ i, s.history i ≠ .failed → s.live i = .closed ∨ s.live i = .failed

/-- a live stream attaches before its target has emitted a line since the historical read, and a target does not emit
after its stream has ended; lines that the filter drops do not count -/
def Clean (s : Agg targets.length) : Act targets.length → Prop
  | .emit key e => ¬ s.Over → o.passes e = true → ∀ i : Fin targets.length, targets[i].key = key →
      (∀ n batch, s.history i = .read n batch → s.live i ≠ .closed)
  | .attach true => ∀ i : Fin targets.length, s.phase = .attaching i → ∀ n batch, s.history i = .read n batch →
      ∀ e ∈ (s.log i).drop n, o.passes e = false
  | _ => True

/-! ## The history -/

/-- the merged history has the entries of all batches -/
theorem merge_perm (batches : List (List LogEntry)) :
    (mergeLogEntriesByTimestamp batches).Perm batches.flatten := List.perm_insertionSort _ _

/-- the entries of a batch that is in timestamp order stay in their order, also where timestamps are the same -/
theorem batch_sublist_merge {batches : List (List LogEntry)} {batch : List LogEntry} (hmem : batch ∈ batches)
    (hsorted : batch.Pairwise fun a b => a.timestamp ≤ b.timestamp) :
    batch.Sublist (mergeLogEntriesByTimestamp batches) := by
  apply List.sublist_insertionSort hsorted
  exact List.sublist_flatten_of_mem hmem

/-! ## Windows of a log -/

variable {o}

theorem window_append {log : List LogEntry} {m : ℕ} (hm : m ≤ log.length) (l : List LogEntry) (n : ℕ) :
    window o (log ++ l) n m = window o log n m := by
  unfold window
  apply List.filter_congr
  intro pos hpos
  rw [List.mem_range'_1] at hpos
  rw [List.getElem?_append_left (by omega)]

theorem window_succ {log : List LogEntry} {n m : ℕ} (h : n ≤ m) {e : LogEntry} (he : log[m]? = some e) :
    window o log n (m + 1) = window o log n m ++ if o.passes e then [m] else [] := by
  unfold window
  rw [show m + 1 - n = (m - n) + 1 by omega, List.range'_1_concat, List.filter_append, Nat.add_sub_cancel' h]
  simp only [List.filter_cons, List.filter_nil, he, Option.any_some]

/-- the window to the end of a log grows with a line that passes the filter -/
theorem window_emit {log : List LogEntry} {n : ℕ} (h : n ≤ log.length) (e : LogEntry) :
    window o (log ++ [e]) n (log ++ [e]).length =
      window o log n log.length ++ if o.passes e then [log.length] else [] := by
  rw [List.length_append, List.length_singleton, window_succ h (e := e) (by simp), window_append le_rfl]

/-- nothing of a log passes the filter from `n` on when its window is empty -/
theorem window_eq_nil_iff (log : List LogEntry) (n : ℕ) :
    window o log n log.length = [] ↔ ∀ e ∈ log.drop n, o.passes e = false := by
  unfold window
  rw [List.filter_eq_nil_iff]
  constructor
  · intro h e he
    obtain ⟨k, hk⟩ := List.mem_iff_getElem?.1 he
    rw [List.getElem?_drop] at hk
    obtain ⟨hlt, _⟩ := List.getElem?_eq_some_iff.1 hk
    have := h (n + k) (List.mem_range'_1.2 ⟨by omega, by omega⟩)
    simpa [hk] using this
  · intro h pos hpos
    obtain ⟨hn, hlt⟩ := List.mem_range'_1.1 hpos
    have hget : log[pos]? = some log[pos] := List.getElem?_eq_getElem (by omega)
    have hmem : log[pos] ∈ log.drop n := by
      apply List.mem_iff_getElem?.2
      exact ⟨pos - n, by rw [List.getElem?_drop, Nat.add_sub_cancel' hn, hget]⟩
    simp [hget, h _ hmem]

/-! ## One step -/

variable (o)

structure Inv (s : Agg targets.length) : Prop extends HandedOver o s where
  fresh : ∀ i, s.live i = .notYet → s.delivered i = []
  early : (s.phase = .reading ∨ ∃ rest, s.phase = .emitting rest) → ∀ i, s.live i = .notYet
  inTurn : ∀ j, s.phase = .attaching j → ∀ i : Fin targets.length, s.live i = .notYet ↔ j ≤ i
  read_le : ∀ i n batch, s.history i = .read n batch → n ≤ (s.log i).length
  next_le : ∀ i next, s.live i = .opened next → next ≤ (s.log i).length
  le_next : ∀ i n batch next, s.history i = .read n batch → s.live i = .opened next → n ≤ next

theorem inv_init (logs : Logs) : Inv o (Agg.init targets logs) where
  once _ _ _ _ h := by cases h
  all _ _ _ h := by cases h
  later _ _ _ h := by cases h
  same _ _ _ h := by cases h
  ended h := by cases h
  fresh _ _ := rfl
  early _ _ := rfl
  inTurn _ h := by cases h
  read_le _ _ _ h := by cases h
  next_le _ _ h := by cases h
  le_next _ _ _ _ h := by cases h

variable {o} {s : Agg targets.length}

theorem log_emit (s : Agg targets.length) (key : GenKey) (e : LogEntry) (i : Fin targets.length) :
    (s.emit key e).log i = s.log i ++ if targets[i].key = key then [e] else [] := by
  change Function.update s.logs key (s.logs key ++ [e]) targets[i].key = s.logs targets[i].key ++ _
  split_ifs with h
  · subst h
    rw [Function.update_self]
  · rw [Function.update_of_ne h, List.append_nil]

theorem Inv.emit (hi : Inv o s) (hover : ¬ s.Over) {key : GenKey} {e : LogEntry} (hclean : Clean o s (.emit key e)) :
    Inv o (s.emit key e) := by
  have hle : ∀ i, (s.log i).length ≤ ((s.emit key e).log i).length := by
    intro i
    rw [log_emit, List.length_append]
    exact Nat.le_add_right _ _
  refine { hi with once := ?_, all := ?_, same := ?_, read_le := ?_, next_le := ?_ }
  · intro i n batch next hn hnext
    rw [log_emit, window_append (hi.next_le i next hnext)]
    exact hi.once i n batch next hn hnext
  · intro i n batch hn hclosed
    have hall := hi.all i n batch hn hclosed
    rw [log_emit]
    split_ifs with hk
    · have hdrop : o.passes e ≠ true := fun hp => hclean hover hp i hk n batch hn hclosed
      calc s.delivered i = window o (s.log i) n (s.log i).length := hall
        _ = window o (s.log i) n (s.log i).length ++ (if o.passes e then [(s.log i).length] else []) := by
          rw [if_neg hdrop, List.append_nil]
        _ = window o (s.log i ++ [e]) n (s.log i ++ [e]).length :=
          (window_emit (hi.read_le i n batch hn) e).symm
    · rw [List.append_nil]
      exact hall
  · intro i pos e' he
    obtain ⟨line, hline, htag⟩ := hi.same i pos e' he
    obtain ⟨hlt, _⟩ := List.getElem?_eq_some_iff.1 hline
    refine ⟨line, ?_, htag⟩
    rw [log_emit, List.getElem?_append_left hlt]
    exact hline
  · intro i n batch hn
    exact (hi.read_le i n batch hn).trans (hle i)
  · intro i next hnext
    exact (hi.next_le i next hnext).trans (hle i)

theorem Inv.read (hi : Inv o s) (i : Fin targets.length) (ok : Bool) : Inv o (s.read o i ok) := by
  unfold Agg.read
  by_cases h : s.phase = .reading ∧ s.history i = .pending
  · rw [if_pos h]
    have hnew : ∀ j, s.live j = .notYet := hi.early (Or.inl h.1)
    refine { hi with once := ?_, all := ?_, later := ?_, ended := ?_, read_le := ?_, le_next := ?_ }
    · intro j n batch next _ hnext
      rw [hnew j] at hnext
      cases hnext
    · intro j n batch _ hclosed
      rw [hnew j] at hclosed
      cases hclosed
    · intro j n batch _ pos hpos
      have hnil : s.delivered j = [] := hi.fresh j (hnew j)
      change pos ∈ s.delivered j at hpos
      rw [hnil] at hpos
      cases hpos
    · intro hphase
      rw [h.1] at hphase
      cases hphase
    · intro j n batch hn
      change Function.update s.history i _ j = _ at hn
      by_cases hj : j = i
      · subst hj
        rw [Function.update_self] at hn
        cases ok with
        | true =>
          cases hn
          exact le_rfl
        | false => cases hn
      · rw [Function.update_of_ne hj] at hn
        exact hi.read_le j n batch hn
    · intro j n batch next _ hnext
      rw [hnew j] at hnext
      cases hnext
  · rw [if_neg h]
    exact hi

theorem Inv.collect (hi : Inv o s) : Inv o s.collect := by
  unfold Agg.collect
  split_ifs with h hfail
  · refine { hi with ended := ?_, early := ?_, inTurn := ?_ }
    · intro _ _ i hne
      exact absurd (hfail.2 i) hne
    · rintro (hphase | ⟨rest, hphase⟩) <;> cases hphase
    · intro j hphase
      cases hphase
  · refine { hi with ended := ?_, early := ?_, inTurn := ?_ }
    · intro hphase
      cases hphase
    · intro _
      exact hi.early (Or.inl h.1)
    · intro j hphase
      cases hphase
  · exact hi

/-- an item that is no line of the live phase -/
theorem Inv.aside (hi : Inv o s) {item : Item targets.length} (hitem : ∀ i pos e, item ≠ .live i pos e) :
    Inv o { s with pipe := s.pipe ++ [item] } := by
  have hsame : ∀ j, ({ s with pipe := s.pipe ++ [item] } : Agg targets.length).delivered j = s.delivered j := by
    intro j
    cases item with
    | live i pos e => exact absurd rfl (hitem i pos e)
    | historical e => simp [Agg.delivered, List.filterMap_append]
    | heartbeat => simp [Agg.delivered, List.filterMap_append]
  refine { hi with once := ?_, all := ?_, later := ?_, same := ?_, fresh := ?_ }
  · intro j n batch next hn hnext
    rw [hsame]
    exact hi.once j n batch next hn hnext
  · intro j n batch hn hclosed
    rw [hsame]
    exact hi.all j n batch hn hclosed
  · intro j n batch hn pos hpos
    rw [hsame] at hpos
    exact hi.later j n batch hn pos hpos
  · intro j pos e he
    rcases List.mem_append.1 he with he | he
    · exact hi.same j pos e he
    · exact absurd (List.mem_singleton.1 he).symm (hitem j pos e)
  · intro j hj
    rw [hsame]
    exact hi.fresh j hj

theorem Inv.encode (hi : Inv o s) : Inv o (s.encode o) := by
  unfold Agg.encode
  split
  · next e rest hphase =>
    have haside : Inv o { s with pipe := s.pipe ++ [.historical e] } := by
      apply hi.aside
      simp
    refine { haside with ended := ?_, early := ?_, inTurn := ?_ }
    · intro h
      cases h
    · intro _
      exact hi.early (Or.inr ⟨_, hphase⟩)
    · intro j h
      cases h
  · next hphase =>
    have hnew : ∀ j, s.live j = .notYet := hi.early (Or.inr ⟨_, hphase⟩)
    refine { hi with ended := ?_, early := ?_, inTurn := ?_ }
    · intro h hfollow
      simp [hfollow] at h
    · intro _
      exact hnew
    · intro j h i
      have hj : j = 0 := by
        by_cases hf : o.follow = true
        · simp only [hf, if_true, Phase.attaching.injEq] at h
          exact h.symm
        · simp [hf] at h
      subst hj
      exact ⟨fun _ => Nat.zero_le _, fun _ => hnew i⟩
  · exact hi

/-- one stream changes: it is the one, or it is as it was -/
theorem live_cases {live : Fin targets.length → Live} {i j : Fin targets.length} {st st' : Live}
    (h : Function.update live i st j = st') : (j = i ∧ st = st') ∨ (j ≠ i ∧ live j = st') := by
  by_cases hj : j = i
  · rw [hj, Function.update_self] at h
    exact Or.inl ⟨hj, h⟩
  · rw [Function.update_of_ne hj] at h
    exact Or.inr ⟨hj, h⟩

theorem Inv.attach (hi : Inv o s) {ok : Bool} (hclean : Clean o s (.attach ok)) : Inv o (s.attach ok) := by
  unfold Agg.attach
  split
  · next j hphase =>
    by_cases hj : j < targets.length
    · rw [dif_pos hj]
      -- the stream that is opened has delivered nothing, and is opened at the end of the log
      have hnil : s.delivered ⟨j, hj⟩ = [] := hi.fresh _ ((hi.inTurn j hphase ⟨j, hj⟩).2 le_rfl)
      have hopened : ∀ next, (if ok then Live.opened (s.log ⟨j, hj⟩).length else .failed) = .opened next →
          ok = true ∧ (s.log ⟨j, hj⟩).length = next := by
        intro next h
        cases ok with
        | true => exact ⟨rfl, Live.opened.inj h⟩
        | false => cases h
      refine
        { hi with
          once := ?_, all := ?_, ended := ?_, fresh := ?_, early := ?_, inTurn := ?_, next_le := ?_, le_next := ?_ }
      · intro i n batch next hn hnext
        rcases live_cases hnext with ⟨rfl, hst⟩ | ⟨_, hst⟩
        · obtain ⟨rfl, rfl⟩ := hopened next hst
          have hnone := hclean ⟨j, hj⟩ hphase n batch hn
          exact hnil.trans ((window_eq_nil_iff _ n).2 hnone).symm
        · exact hi.once i n batch next hn hst
      · intro i n batch hn hclosed
        rcases live_cases hclosed with ⟨_, hst⟩ | ⟨_, hst⟩
        · cases ok <;> cases hst
        · exact hi.all i n batch hn hst
      · intro h
        cases h
      · intro i hnot
        rcases live_cases hnot with ⟨rfl, _⟩ | ⟨_, hst⟩
        · exact hnil
        · exact hi.fresh i hst
      · rintro (h | ⟨rest, h⟩) <;> cases h
      · intro k hk i
        cases hk
        constructor
        · intro hnot
          rcases live_cases hnot with ⟨_, hst⟩ | ⟨hne, hst⟩
          · cases ok <;> cases hst
          · have hle := (hi.inTurn j hphase i).1 hst
            have hij : (i : ℕ) ≠ j := fun e => hne (Fin.ext e)
            omega
        · intro hle
          have hne : i ≠ ⟨j, hj⟩ := by
            rintro rfl
            exact absurd hle (Nat.not_succ_le_self j)
          exact (Function.update_of_ne hne _ _).trans ((hi.inTurn j hphase i).2 (Nat.le_of_succ_le hle))
      · intro i next hnext
        rcases live_cases hnext with ⟨rfl, hst⟩ | ⟨_, hst⟩
        · exact (hopened next hst).2.ge
        · exact hi.next_le i next hst
      · intro i n batch next hn hnext
        rcases live_cases hnext with ⟨rfl, hst⟩ | ⟨_, hst⟩
        · exact (hi.read_le _ n batch hn).trans (hopened next hst).2.le
        · exact hi.le_next i n batch next hn hst
    · rw [dif_neg hj]
      exact hi
  · exact hi

theorem delivered_copy (s : Agg targets.length) (live : Fin targets.length → Live) (p : Prop) [Decidable p]
    (i : Fin targets.length) (pos : ℕ) (e : LogEntry) (j : Fin targets.length) :
    ({ s with live := live, pipe := s.pipe ++ if p then [.live i pos e] else [] } : Agg targets.length).delivered j =
      s.delivered j ++ if j = i then (if p then [pos] else []) else [] := by
  have hitem : ∀ k : Fin targets.length, i = k ↔ k = i := fun k => eq_comm
  by_cases hp : p
  · by_cases hj : j = i
    · simp [Agg.delivered, List.filterMap_append, hp, hj]
    · simp [Agg.delivered, List.filterMap_append, hp, hj, hitem j]
  · simp [Agg.delivered, hp]

theorem Inv.copy (hi : Inv o s) (hover : ¬ s.Over) (i : Fin targets.length) : Inv o (s.copy o i) := by
  unfold Agg.copy
  split
  · next next hnext =>
    split
    · next e he =>
      have hlt : next < (s.log i).length := (List.getElem?_eq_some_iff.1 he).1
      refine
        { hi with
          once := ?_, all := ?_, later := ?_, same := ?_, ended := ?_, fresh := ?_, early := ?_, inTurn := ?_,
          next_le := ?_, le_next := ?_ }
      · intro j n batch m hn hm
        rw [delivered_copy]
        rcases live_cases hm with ⟨rfl, hst⟩ | ⟨hj, hst⟩
        · cases hst
          rw [if_pos rfl, hi.once j n batch next hn hnext]
          exact (window_succ (hi.le_next j n batch next hn hnext) he).symm
        · rw [if_neg hj, List.append_nil]
          exact hi.once j n batch m hn hst
      · intro j n batch hn hclosed
        rw [delivered_copy]
        rcases live_cases hclosed with ⟨_, hst⟩ | ⟨hj, hst⟩
        · cases hst
        · rw [if_neg hj, List.append_nil]
          exact hi.all j n batch hn hst
      · intro j n batch hn pos hpos
        rw [delivered_copy] at hpos
        rcases List.mem_append.1 hpos with hpos | hpos
        · exact hi.later j n batch hn pos hpos
        · split_ifs at hpos with hj hp
          · rw [List.mem_singleton.1 hpos]
            exact hi.le_next i n batch next (hj ▸ hn) hnext
          · cases hpos
          · cases hpos
      · intro j pos e' hmem
        rcases List.mem_append.1 hmem with hmem | hmem
        · exact hi.same j pos e' hmem
        · split_ifs at hmem with hp
          · cases List.mem_singleton.1 hmem
            exact ⟨e, he, rfl⟩
          · cases hmem
      · intro hphase
        exact absurd (Or.inl hphase) hover
      · intro j hnot
        rw [delivered_copy]
        rcases live_cases hnot with ⟨_, hst⟩ | ⟨hj, hst⟩
        · cases hst
        · rw [if_neg hj, List.append_nil]
          exact hi.fresh j hst
      · intro hphase j
        have hold := hi.early hphase i
        rw [hnext] at hold
        cases hold
      · intro k hk j
        change Function.update s.live i _ j = _ ↔ _
        by_cases hj : j = i
        · subst hj
          have hold := hi.inTurn k hk j
          rw [hnext] at hold
          rw [Function.update_self]
          simpa using hold
        · rw [Function.update_of_ne hj]
          exact hi.inTurn k hk j
      · intro j m hm
        rcases live_cases hm with ⟨rfl, hst⟩ | ⟨hj, hst⟩
        · cases hst
          exact hlt
        · exact hi.next_le j m hst
      · intro j n batch m hn hm
        rcases live_cases hm with ⟨rfl, hst⟩ | ⟨hj, hst⟩
        · cases hst
          exact (hi.le_next j n batch next hn hnext).trans (Nat.le_succ next)
        · exact hi.le_next j n batch m hn hst
    · exact hi
  · exact hi

theorem Inv.heartbeat (hi : Inv o s) (i : Fin targets.length) : Inv o (s.heartbeat i) := by
  unfold Agg.heartbeat
  split
  · apply hi.aside
    simp
  · exact hi

/-- an open stream ends, as `st` says -/
theorem Inv.ends (hi : Inv o s) (hover : ¬ s.Over) {i : Fin targets.length} {next : ℕ} {st : Live}
    (hnext : s.live i = .opened next) (hst : st = .failed ∨ st = .closed ∧ next = (s.log i).length) :
    Inv o { s with live := Function.update s.live i st } := by
  have hold : ∀ j st', Function.update s.live i st j = st' → st' ≠ .failed → st' ≠ .closed → s.live j = st' := by
    intro j st' h hfailed hclosed
    rcases live_cases h with ⟨_, e⟩ | ⟨_, e⟩
    · rcases hst with hst | ⟨hst, _⟩
      · exact absurd (e.symm.trans hst) hfailed
      · exact absurd (e.symm.trans hst) hclosed
    · exact e
  refine
    { hi with
      once := ?_, all := ?_, ended := ?_, fresh := ?_, early := ?_, inTurn := ?_, next_le := ?_, le_next := ?_ }
  · intro j n batch m hn hm
    exact hi.once j n batch m hn (hold j _ hm (by simp) (by simp))
  · intro j n batch hn hclosed
    rcases live_cases hclosed with ⟨rfl, e⟩ | ⟨_, e⟩
    · rcases hst with hst | ⟨_, hall⟩
      · rw [e] at hst
        cases hst
      · -- it has delivered what it came to, and that is all
        calc s.delivered j = window o (s.log j) n next := hi.once j n batch next hn hnext
          _ = window o (s.log j) n (s.log j).length := by rw [hall]
    · exact hi.all j n batch hn e
  · intro hphase
    exact absurd (Or.inl hphase) hover
  · intro j hnot
    exact hi.fresh j (hold j _ hnot (by simp) (by simp))
  · intro hphase
    have hnew := hi.early hphase i
    rw [hnext] at hnew
    cases hnew
  · intro k hk j
    change Function.update s.live i st j = _ ↔ _
    by_cases hj : j = i
    · subst hj
      have hturn := hi.inTurn k hk j
      rw [hnext] at hturn
      rw [Function.update_self]
      rcases hst with e | ⟨e, _⟩
      · simpa [e] using hturn
      · simpa [e] using hturn
    · rw [Function.update_of_ne hj]
      exact hi.inTurn k hk j
  · intro j m hm
    exact hi.next_le j m (hold j _ hm (by simp) (by simp))
  · intro j n batch m hn hm
    exact hi.le_next j n batch m hn (hold j _ hm (by simp) (by simp))

theorem Inv.streamEnd (hi : Inv o s) (hover : ¬ s.Over) (i : Fin targets.length) (ok : Bool) :
    Inv o (s.streamEnd i ok) := by
  unfold Agg.streamEnd
  split
  · next next hnext =>
    by_cases hok : ok = true
    · rw [if_pos hok]
      by_cases hall : next = (s.log i).length
      · rw [if_pos hall]
        exact hi.ends hover hnext (Or.inr ⟨rfl, hall⟩)
      · rw [if_neg hall]
        exact hi
    · rw [if_neg hok]
      exact hi.ends hover hnext (Or.inl rfl)
  · exact hi

theorem Inv.finish (hi : Inv o s) : Inv o s.finish := by
  unfold Agg.finish
  split
  · next j hphase =>
    by_cases hj : j = targets.length ∧ ∀ k, (s.live k).isOpen = false
    · rw [if_pos hj]
      refine { hi with ended := ?_, early := ?_, inTurn := ?_ }
      · intro _ _ i _
        have hopen := hj.2 i
        have hturn := hi.inTurn j hphase i
        change s.live i = .closed ∨ s.live i = .failed
        cases hl : s.live i with
        | notYet =>
          have hle := hturn.1 hl
          have hlt := i.isLt
          omega
        | failed => exact Or.inr rfl
        | opened next =>
          rw [hl] at hopen
          cases hopen
        | closed => exact Or.inl rfl
      · rintro (h | ⟨rest, h⟩) <;> cases h
      · intro k h
        cases h
    · rw [if_neg hj]
      exact hi
  · exact hi

theorem Inv.cancel (hi : Inv o s) : Inv o { s with phase := .cancelled } := by
  refine { hi with ended := ?_, early := ?_, inTurn := ?_ }
  · intro h
    cases h
  · rintro (h | ⟨rest, h⟩) <;> cases h
  · intro k h
    cases h

theorem step_inv (s : Agg targets.length) (a : Act targets.length) (hi : Inv o s) (hclean : Clean o s a) :
    Inv o (s.step o a) := by
  unfold Agg.step
  by_cases hover : s.Over
  · rw [if_pos hover]
    exact hi
  · rw [if_neg hover]
    cases a with
    | emit key e => exact hi.emit hover hclean
    | read i ok => exact hi.read i ok
    | collect => exact hi.collect
    | encode => exact hi.encode
    | attach ok => exact hi.attach hclean
    | copy i => exact hi.copy hover i
    | heartbeat i => exact hi.heartbeat i
    | streamEnd i ok => exact hi.streamEnd hover i ok
    | finish => exact hi.finish
    | cancel => exact hi.cancel

/-! ## Runs -/

/-- a line emitted by a target whose stream has ended is lost -/
theorem lost_after_close (hi : Inv o s) (hover : ¬ s.Over) {key : GenKey} {e : LogEntry} (hpass : o.passes e = true)
    {i : Fin targets.length} (hk : targets[i].key = key) {n : ℕ} {batch : List LogEntry}
    (hn : s.history i = .read n batch) (hclosed : s.live i = .closed) : ¬ HandedOver o (s.step o (.emit key e)) := by
  intro h
  have hstep : s.step o (.emit key e) = s.emit key e := by rw [Agg.step, if_neg hover]
  rw [hstep] at h
  have hnew : s.delivered i = window o ((s.emit key e).log i) n ((s.emit key e).log i).length :=
    h.all i n batch hn hclosed
  rw [log_emit, if_pos hk, window_emit (hi.read_le i n batch hn), if_pos hpass, ← hi.all i n batch hn hclosed] at hnew
  simp at hnew

/-- a line emitted between the historical read and the attach is lost -/
theorem lost_before_attach (hi : Inv o s) {i : Fin targets.length} (hphase : s.phase = .attaching i) {n : ℕ}
    {batch : List LogEntry} (hn : s.history i = .read n batch) {e : LogEntry} (he : e ∈ (s.log i).drop n)
    (hpass : o.passes e = true) : ¬ HandedOver o (s.step o (.attach true)) := by
  intro h
  have hover : ¬ s.Over := by
    rintro (e | e) <;> rw [hphase] at e <;> cases e
  have hstep : s.step o (.attach true) =
      { s with phase := .attaching (i + 1), live := Function.update s.live i (.opened (s.log i).length) } := by
    simp [Agg.step, hover, Agg.attach, hphase]
  rw [hstep] at h
  have hnil : s.delivered i = [] := hi.fresh i ((hi.inTurn i hphase i).2 le_rfl)
  have honce : s.delivered i = window o (s.log i) n (s.log i).length :=
    h.once i n batch _ hn (Function.update_self _ _ _)
  rw [hnil] at honce
  have hdrop := (window_eq_nil_iff (s.log i) n).1 honce.symm e he
  rw [hdrop] at hpass
  cases hpass

theorem lost_of_not_clean (s : Agg targets.length) (a : Act targets.length) (hi : Inv o s) (hclean : ¬ Clean o s a) :
    ¬ HandedOver o (s.step o a) := by
  cases a with
  | emit key e =>
    simp only [Clean] at hclean
    push Not at hclean
    obtain ⟨hover, hpass, i, hk, n, batch, hn, hclosed⟩ := hclean
    exact lost_after_close hi hover hpass hk hn hclosed
  | attach ok =>
    cases ok with
    | true =>
      simp only [Clean] at hclean
      push Not at hclean
      obtain ⟨i, hphase, n, batch, hn, e, he, hpass⟩ := hclean
      exact lost_before_attach hi hphase hn he (by simpa using hpass)
    | false => exact absurd trivial hclean
  | read i ok => exact absurd trivial hclean
  | collect => exact absurd trivial hclean
  | encode => exact absurd trivial hclean
  | copy i => exact absurd trivial hclean
  | heartbeat i => exact absurd trivial hclean
  | streamEnd i ok => exact absurd trivial hclean
  | finish => exact absurd trivial hclean
  | cancel => exact absurd trivial hclean

/-- **The hand-over.** In every run every target that does not fail gets its lines from the historical read on exactly
once, and none from before, if and only if every step hands over cleanly. -/
theorem handover_iff (targets : List LogTarget) (o : LogOptions) (logs : Logs) (acts : List (Act targets.length)) :
    Always (Agg.step o) (HandedOver o) (Agg.init targets logs) acts ↔
      Each (Agg.step o) (Clean o) (Agg.init targets logs) acts :=
  always_iff_each (fun _ hi => hi.toHandedOver) step_inv lost_of_not_clean (inv_init o logs)

/-! ## A line between the read and the attach -/

def web : LogTarget := ⟨"local", "c1", "web"⟩

def lineAt (t : ℤ) : LogEntry := ⟨t, .info, "ready", .stdout, [], [], 0, "", "", []⟩

/-- the history is read, the container logs a line, the stream is opened -/
def lateAttach : List (Act [web].length) :=
  [.read 0 true, .collect, .encode, .emit web.key (lineAt 1), .attach true]

/-- **The hole.** The line is in no batch and in no stream. -/
theorem line_lost_before_attach : ¬ ∀ (targets : List LogTarget) (o : LogOptions) (logs : Logs)
    (acts : List (Act targets.length)), Always (Agg.step o) (HandedOver o) (Agg.init targets logs) acts := by
  intro h
  have hlast := (h [web] ⟨true, none, none, none⟩ (fun _ => []) lateAttach).last
  have honce := hlast.once 0 0 [] 1 (by decide) (by decide)
  exact absurd honce (by decide)

end LogDeck.Aggregate
