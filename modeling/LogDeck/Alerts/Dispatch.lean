/-
The dispatcher and the alert history (`alerts/engine.go`, `alerts/history.go`).

The run loop puts alerts into a bounded queue. The dispatcher takes them out one by one: it appends the alert to the
history, reads the channels, delivers, and looks the alert up by its id to note the result. The flusher writes the
history to its file now and then, requests clear it, and the process can be shut down or die at any moment. All of this
interleaves freely; the mutex makes the operations of the history atomic. Ids are random and may coincide. The dispatcher
returns when the queue is closed and empty; the last write of the flusher is one after that.

`Journal` is what the history is for: every accepted alert with its own result, without a bound, without ids, and what
of it is on disk.

Results:
- `History.setDelivery_head`, `History.setDelivery_nil`: the lookup by id finds the alert that is being delivered;
- `step_shows`: a step of the engine is a step of the journal;
- `dispatch_refines`: in every run the history is the newest part of the journal, and so is its file.
-/
import LogDeck.Lib.AtomicFile
import LogDeck.Lib.Machine
import LogDeck.Alerts.Notify

namespace LogDeck.Alerts

open AtomicFile
open LogDeck.Config (AlertChannel)

/-! ## History -/

def historyCap : ℕ := 500

def defaultHistoryLimit : ℕ := 100

def dispatchBuffer : ℕ := 128

structure History where
  max : ℕ
  /-- newest first -/
  entries : List HistoryEntry
  dirty : Bool
deriving DecidableEq, Repr

namespace History

def newHistory (max : ℕ) : History := { max := max, entries := [], dirty := false }

/-- a file that cannot be read leaves the history empty -/
def load (h : History) : Option (List HistoryEntry) → History
  | none => h
  | some entries => { h with entries := if entries.length > h.max then entries.take h.max else entries }

def append (h : History) (a : HistoryEntry) : History :=
  let entries := a :: h.entries
  { h with entries := if entries.length > h.max then entries.take h.max else entries, dirty := true }

def setDelivery (h : History) (id : String) (result : DeliveryResult) : History :=
  match h.entries.findIdx? fun a => a.id = id with
  | none => h
  | some i =>
    { h with entries := h.entries.modify i fun a => { a with delivery := some result }, dirty := true }

def list (h : History) (limit : ℤ) : List HistoryEntry :=
  h.entries.take (if limit ≤ 0 then defaultHistoryLimit else limit.toNat)

/-- the part of `clear` under the lock; it then calls `flushIfDirty` -/
def clear (h : History) : History := { h with entries := [], dirty := true }

variable {B : Type}

/-- a write that fails leaves the history dirty -/
def flushIfDirty (format : Format B (List HistoryEntry)) (h : History) (files : Files B) (fate : Fate B) :
    History × Files B :=
  if h.dirty = false then (h, files)
  else
    match replace files (format.encode h.entries) fate with
    | (files, .acknowledged) => ({ h with dirty := false }, files)
    | (files, .failed) => (h, files)
    | (files, .died) => (h, files)

end History

/-! ## The engine around it -/

/-- what the delivery of an alert meets -/
structure Delivery where
  /-- the budget of the shutdown is used up -/
  expired : Bool
  nets : ℕ → Network
  schedule : (n : ℕ) → Schedule n

def Delivery.result (marshal : Payload → String) (d : Delivery) (channels : List AlertChannel) (alert : HistoryEntry) :
    DeliveryResult :=
  if d.expired then { status := "failed", httpStatus := 0, error := "shutdown" }
  else deliverAll marshal d.nets channels (d.schedule channels.length) alert

structure Dispatch (B : Type) where
  files : Files B
  /-- the process runs -/
  up : Bool
  hist : History
  /-- `dispatchCh` -/
  queue : List HistoryEntry
  /-- the run loop has closed the queue -/
  closed : Bool
  /-- the alert being delivered, and the channels that were read for it -/
  sending : Option (HistoryEntry × List AlertChannel)

inductive DispatchAct (B : Type) where
  | start
  | emit (alert : Alert) (id : String)
  | shutdownRun
  /-- the dispatcher takes an alert and reads the channels -/
  | receive (channels : List AlertChannel)
  | settle (d : Delivery)
  /-- the flusher, or a request that has cleared the history -/
  | flush (fate : Fate B)
  | clear
  | kill

/-- the process survives -/
def Fate.survives {B : Type} (fate : Fate B) : Bool :=
  match fate with
  | .diesBefore _ | .diesAfter => false
  | .done | .noDirectory | .writeFails _ | .renameFails _ => true

namespace Dispatch

variable {B : Type}

def off (files : Files B) : Dispatch B :=
  { files := files, up := false, hist := History.newHistory historyCap, queue := [], closed := false, sending := none }

def flush (format : Format B (List HistoryEntry)) (s : Dispatch B) (fate : Fate B) : Dispatch B :=
  let (hist, files) := s.hist.flushIfDirty format s.files fate
  if Fate.survives fate then { s with hist := hist, files := files } else off files

def step (format : Format B (List HistoryEntry)) (marshal : Payload → String) (s : Dispatch B) :
    DispatchAct B → Dispatch B
  | .start =>
    if s.up then s
    else { off s.files with up := true, hist := (History.newHistory historyCap).load (format.load [] s.files) }
  | .emit alert id =>
    if s.up ∧ s.closed = false ∧ s.queue.length < dispatchBuffer then
      { s with queue := s.queue ++ [{ alert with id := id, delivery := none }] }
    else s
  | .shutdownRun => if s.up then { s with closed := true } else s
  | .receive channels =>
    match s.up, s.sending, s.queue with
    | true, none, a :: queue =>
      let enabled := enabledChannels channels
      { s with hist := s.hist.append a, queue := queue, sending := if enabled.length = 0 then none else some (a, enabled) }
    | _, _, _ => s
  | .settle d =>
    match s.sending with
    | some (a, channels) => { s with hist := s.hist.setDelivery a.id (d.result marshal channels a), sending := none }
    | none => s
  | .flush fate => if s.up then s.flush format fate else s
  | .clear => if s.up then { s with hist := s.hist.clear } else s
  | .kill => off s.files

end Dispatch

/-! ## The journal -/

structure Journal where
  up : Bool
  /-- newest first, since the last clear -/
  records : List HistoryEntry
  /-- the records of the last write of the file -/
  saved : List HistoryEntry
  /-- accepted and not yet recorded -/
  waiting : List HistoryEntry
  closed : Bool
  sending : Option (HistoryEntry × List AlertChannel)
  /-- the newest record is of the alert being delivered -/
  current : Bool
  /-- everything that was found at the start or accepted since, oldest first, since the last clear -/
  log : List HistoryEntry

namespace Journal

def unsent (a : HistoryEntry) : HistoryEntry := { a with delivery := none }

def off (saved : List HistoryEntry) : Journal :=
  { up := false, records := [], saved := saved, waiting := [], closed := false, sending := none, current := false,
    log := [] }

/-- the records are written if the rename takes place -/
def flush {B : Type} (j : Journal) (fate : Fate B) : Journal :=
  let saved := if fate.renames then j.records else j.saved
  if Fate.survives fate then { j with saved := saved } else off saved

def step {B : Type} (marshal : Payload → String) (j : Journal) : DispatchAct B → Journal
  | .start => if j.up then j else { off j.saved with up := true, records := j.saved, log := (j.saved.map unsent).reverse }
  | .emit alert id =>
    if j.up ∧ j.closed = false ∧ j.waiting.length < dispatchBuffer then
      let a : HistoryEntry := { alert with id := id, delivery := none }
      { j with waiting := j.waiting ++ [a], log := j.log ++ [a] }
    else j
  | .shutdownRun => if j.up then { j with closed := true } else j
  | .receive channels =>
    match j.up, j.sending, j.waiting with
    | true, none, a :: waiting =>
      let enabled := enabledChannels channels
      { j with
        records := a :: j.records
        waiting := waiting
        sending := if enabled.length = 0 then none else some (a, enabled)
        current := true }
    | _, _, _ => j
  | .settle d =>
    match j.sending with
    | some (a, channels) =>
      { j with
        records := if j.current then { a with delivery := some (d.result marshal channels a) } :: j.records.tail
                   else j.records
        sending := none }
    | none => j
  | .flush fate => if j.up then j.flush fate else j
  | .clear => if j.up then { j with records := [], current := false, log := j.waiting } else j
  | .kill => off j.saved

end Journal

/-! ## Operations of the history -/

namespace History

variable {B : Type} {format : Format B (List HistoryEntry)} {h : History} {files : Files B} {fate : Fate B}

theorem capped (n : ℕ) (l : List HistoryEntry) : (if l.length > n then l.take n else l) = l.take n := by
  split_ifs with hlen
  · rfl
  · exact (List.take_of_length_le (Nat.le_of_not_lt hlen)).symm

theorem append_entries (a : HistoryEntry) : (h.append a).entries = (a :: h.entries).take h.max := capped _ _

theorem load_entries {entries : List HistoryEntry} : (h.load (some entries)).entries = entries.take h.max := capped _ _

/-- the newest entry is found by its id, whatever ids the others have -/
theorem setDelivery_head {a : HistoryEntry} {rest : List HistoryEntry} (hentries : h.entries = a :: rest)
    (result : DeliveryResult) :
    h.setDelivery a.id result = { h with entries := { a with delivery := some result } :: rest, dirty := true } := by
  have hfound : h.entries.findIdx? (fun b => b.id = a.id) = some 0 := by simp [hentries, List.findIdx?_cons]
  rw [setDelivery, hfound]
  simp [hentries]

theorem setDelivery_nil (hentries : h.entries = []) (id : String) (result : DeliveryResult) :
    h.setDelivery id result = h := by
  rw [setDelivery, hentries]
  rfl

/-- a flush changes nothing in memory but the flag, which it takes away only from what is on disk -/
theorem flushIfDirty_spec (hclean : h.dirty = false → format.load [] files = some h.entries) :
    (h.flushIfDirty format files fate).1.max = h.max ∧ (h.flushIfDirty format files fate).1.entries = h.entries ∧
      format.load [] (h.flushIfDirty format files fate).2 =
        (if fate.renames then some h.entries else format.load [] files) ∧
      ((h.flushIfDirty format files fate).1.dirty = false →
        format.load [] (h.flushIfDirty format files fate).2 = some h.entries) := by
  unfold flushIfDirty
  cases hdirty : h.dirty with
  | false =>
    have hsame := hclean hdirty
    simp only [if_true, hsame, ite_self, hdirty, imp_self, and_self]
  | true =>
    have hload : format.load [] (replace files (format.encode h.entries) fate).1 =
        if fate.renames then some h.entries else format.load [] files := load_replace
    simp only [Bool.true_eq_false, if_false]
    cases hrep : replace files (format.encode h.entries) fate with
    | mk files' answer =>
      rw [hrep] at hload
      have hanswer : (replace files (format.encode h.entries) fate).2 = answer := by rw [hrep]
      cases answer with
      | acknowledged =>
        rw [replace_acknowledged hanswer] at hload ⊢
        exact ⟨rfl, rfl, hload, fun _ => hload⟩
      | failed => exact ⟨rfl, rfl, hload, fun h => by simp [hdirty] at h⟩
      | died => exact ⟨rfl, rfl, hload, fun h => by simp [hdirty] at h⟩

end History

/-! ## Simulation -/

/-- the engine holds the newest part of the journal -/
structure Shows (format : Format B (List HistoryEntry)) (s : Dispatch B) (j : Journal) : Prop where
  up : s.up = j.up
  queue : s.queue = j.waiting
  closed : s.closed = j.closed
  sending : s.sending = j.sending
  max : s.hist.max = historyCap
  entries : s.hist.entries = j.records.take historyCap
  file : format.load [] s.files = some (j.saved.take historyCap)
  clean : s.hist.dirty = false → s.up = true → j.records.take historyCap = j.saved.take historyCap
  /-- while an alert is being delivered, nothing is recorded after it -/
  newest : ∀ a channels, j.sending = some (a, channels) →
    if j.current then j.records.head? = some a else j.records = []
  fresh : (∀ a ∈ j.waiting, a.delivery = none) ∧ ∀ a channels, j.sending = some (a, channels) → a.delivery = none
  down : j.up = false → j.sending = none

/-- no alert is lost or recorded twice: what was accepted has been recorded, in this order, or waits -/
def Journal.Conserves (j : Journal) : Prop := (j.records.map Journal.unsent).reverse ++ j.waiting = j.log

section
variable {format : Format B (List HistoryEntry)} {marshal : Payload → String} {s : Dispatch B} {j : Journal}

theorem shows_off {files : Files B} {saved : List HistoryEntry}
    (hfile : format.load [] files = some (saved.take historyCap)) :
    Shows format (Dispatch.off files) (Journal.off saved) where
  up := rfl
  queue := rfl
  closed := rfl
  sending := rfl
  max := rfl
  entries := rfl
  file := hfile
  clean := by simp [Dispatch.off]
  newest := by simp [Journal.off]
  fresh := by simp [Journal.off]
  down := fun _ => rfl

theorem Shows.start (h : Shows format s j) : Shows format (s.step format marshal .start) (j.step marshal (B := B) .start) := by
  simp only [Dispatch.step, Journal.step, h.up]
  cases hup : j.up with
  | true => exact h
  | false =>
    simp only [Bool.false_eq_true, if_false, h.file]
    have hentries : ((History.newHistory historyCap).load (some (j.saved.take historyCap))).entries =
        j.saved.take historyCap := by
      rw [History.load_entries]
      exact List.take_take.trans (by simp [History.newHistory])
    exact {
      up := rfl
      queue := rfl
      closed := rfl
      sending := rfl
      max := rfl
      entries := hentries
      file := h.file
      clean := fun _ _ => rfl
      newest := by simp [Journal.off]
      fresh := by simp [Journal.off]
      down := fun _ => rfl }

theorem Shows.receive (h : Shows format s j) (channels : List AlertChannel) :
    Shows format (s.step format marshal (.receive channels)) (j.step marshal (B := B) (.receive channels)) := by
  simp only [Dispatch.step, Journal.step, h.up, h.sending, h.queue]
  cases hup : j.up with
  | false => exact h
  | true =>
    cases hsending : j.sending with
    | some x => exact h
    | none =>
      cases hwaiting : j.waiting with
      | nil => exact h
      | cons a waiting =>
        have hfresh := h.fresh.1
        rw [hwaiting] at hfresh
        have ha : a.delivery = none := hfresh a (by simp)
        exact {
          up := rfl
          queue := rfl
          closed := h.closed
          sending := rfl
          max := h.max
          entries := by
            rw [History.append_entries, h.max, h.entries]
            simp [historyCap, List.take_take]
          file := h.file
          clean := by simp [History.append]
          newest := by
            intro b chs hsend
            dsimp only at hsend ⊢
            split_ifs at hsend with hnone
            obtain ⟨rfl, -⟩ := Prod.mk.inj (Option.some.inj hsend)
            rfl
          fresh := by
            refine ⟨fun b hb => hfresh b (by simp [hb]), fun b chs hsend => ?_⟩
            dsimp only at hsend
            split_ifs at hsend with hnone
            obtain ⟨rfl, -⟩ := Prod.mk.inj (Option.some.inj hsend)
            exact ha
          down := by simp }

theorem Shows.settle (h : Shows format s j) (d : Delivery) :
    Shows format (s.step format marshal (.settle d)) (j.step marshal (B := B) (.settle d)) := by
  simp only [Dispatch.step, Journal.step, h.sending]
  cases hsending : j.sending with
  | none => exact h
  | some x =>
    obtain ⟨a, channels⟩ := x
    have hnewest := h.newest a channels hsending
    have hup : j.up = true := by
      by_contra hdown
      rw [h.down (by simpa using hdown)] at hsending
      cases hsending
    cases hcurrent : j.current with
    | false =>
      -- the history was cleared meanwhile
      simp only [hcurrent, Bool.false_eq_true, if_false] at hnewest
      have hempty : s.hist.entries = [] := by rw [h.entries, hnewest]; rfl
      simp only [History.setDelivery_nil hempty, Bool.false_eq_true, if_false]
      exact { h with sending := rfl, newest := by simp, fresh := ⟨h.fresh.1, by simp⟩, down := fun _ => rfl }
    | true =>
      simp only [hcurrent, if_true] at hnewest
      obtain ⟨rest, hrecords⟩ : ∃ rest, j.records = a :: rest := by
        cases hr : j.records with
        | nil => simp [hr] at hnewest
        | cons b rest =>
          obtain rfl : b = a := by simpa [hr] using hnewest
          exact ⟨rest, rfl⟩
      have hentries : s.hist.entries = a :: rest.take 499 := by rw [h.entries, hrecords]; rfl
      simp only [History.setDelivery_head hentries, if_true]
      exact { h with
        sending := rfl
        entries := by rw [hrecords]; rfl
        clean := by simp
        newest := by simp
        fresh := ⟨h.fresh.1, by simp⟩
        down := fun _ => rfl }

theorem Shows.flush (h : Shows format s j) (fate : Fate B) :
    Shows format (s.step format marshal (.flush fate)) (j.step marshal (.flush fate)) := by
  simp only [Dispatch.step, Journal.step, h.up]
  cases hup : j.up with
  | false => exact h
  | true =>
    simp only [if_true]
    have hclean : s.hist.dirty = false → format.load [] s.files = some s.hist.entries := by
      intro hdirty
      rw [h.file, h.entries, h.clean hdirty (h.up.trans hup)]
    obtain ⟨hmax, hentries, hfile, hdirty⟩ := @History.flushIfDirty_spec B format s.hist s.files fate hclean
    unfold Dispatch.flush Journal.flush
    have hsaved : format.load [] (s.hist.flushIfDirty format s.files fate).2 =
        some ((if fate.renames then j.records else j.saved).take historyCap) := by
      rw [hfile, h.file, h.entries]
      split_ifs <;> rfl
    cases hsurvives : Fate.survives fate with
    | false =>
      simp only [Bool.false_eq_true, if_false]
      exact shows_off hsaved
    | true =>
      simp only [if_true]
      exact { h with
        max := hmax.trans h.max
        entries := hentries.trans h.entries
        file := hsaved
        clean := by
          intro hd hu
          have hon := hdirty hd
          rw [hsaved, h.entries] at hon
          exact (Option.some.inj hon).symm }

/-- a step of the engine is a step of the journal -/
theorem step_shows (h : Shows format s j) (a : DispatchAct B) :
    Shows format (s.step format marshal a) (j.step marshal a) := by
  cases a with
  | start => exact h.start
  | emit alert id =>
    simp only [Dispatch.step, Journal.step, h.up, h.closed, h.queue]
    split_ifs with hroom
    · exact { h with
        up := rfl
        queue := rfl
        closed := rfl
        clean := fun hdirty hup => h.clean hdirty (h.up.trans hup)
        fresh := by
          refine ⟨fun b hb => ?_, h.fresh.2⟩
          rcases List.mem_append.1 hb with hb | hb
          · exact h.fresh.1 b hb
          · obtain rfl := List.mem_singleton.1 hb
            rfl }
    · exact h
  | shutdownRun =>
    simp only [Dispatch.step, Journal.step, h.up]
    split_ifs with hup
    · exact { h with up := rfl, closed := rfl, clean := fun hdirty hup => h.clean hdirty (h.up.trans hup) }
    · exact h
  | receive channels => exact h.receive channels
  | settle d => exact h.settle d
  | flush fate => exact h.flush fate
  | clear =>
    simp only [Dispatch.step, Journal.step, h.up]
    split_ifs with hup
    · exact { h with
        up := rfl
        entries := rfl
        clean := by simp [History.clear]
        newest := by simp }
    · exact h
  | kill => exact shows_off h.file

theorem Shows.conserves (h : Shows format s j) (hj : j.Conserves) (a : DispatchAct B) : (j.step marshal a).Conserves := by
  have hoff : ∀ saved, (Journal.off saved).Conserves := fun saved => rfl
  cases a with
  | start =>
    simp only [Journal.step]
    split_ifs with hup
    · exact hj
    · simp [Journal.Conserves, Journal.off]
  | emit alert id =>
    simp only [Journal.step]
    split_ifs with hroom
    · have hlog := congrArg (· ++ [{ alert with id := id, delivery := none }]) hj
      simpa [Journal.Conserves] using hlog
    · exact hj
  | shutdownRun =>
    simp only [Journal.step]
    split_ifs with hup
    · exact hj
    · exact hj
  | receive channels =>
    have hfresh := h.fresh.1
    simp only [Journal.step]
    cases hup : j.up with
    | false => exact hj
    | true =>
      cases hsending : j.sending with
      | some x => exact hj
      | none =>
        cases hwaiting : j.waiting with
        | nil => exact hj
        | cons a waiting =>
          have ha : Journal.unsent a = a := by
            have hnone : a.delivery = none := hfresh a (by simp [hwaiting])
            rw [Journal.unsent, ← hnone]
          calc ((a :: j.records).map Journal.unsent).reverse ++ waiting
              = (j.records.map Journal.unsent).reverse ++ (a :: waiting) := by simp [ha]
            _ = j.log := by rw [← hwaiting]; exact hj
  | settle d =>
    simp only [Journal.step]
    cases hsending : j.sending with
    | none => exact hj
    | some x =>
      obtain ⟨a, channels⟩ := x
      have hnewest := h.newest a channels hsending
      cases hcurrent : j.current with
      | false => exact hj
      | true =>
        simp only [hcurrent, if_true] at hnewest
        cases hr : j.records with
        | nil => simp [hr] at hnewest
        | cons b rest =>
          obtain rfl : b = a := by simpa [hr] using hnewest
          have hsame : Journal.unsent { b with delivery := some (d.result marshal channels b) } = Journal.unsent b := rfl
          calc (({ b with delivery := some (d.result marshal channels b) } :: rest).map Journal.unsent).reverse ++ j.waiting
              = (j.records.map Journal.unsent).reverse ++ j.waiting := by simp [hr, hsame]
            _ = j.log := hj
  | flush fate =>
    simp only [Journal.step, Journal.flush]
    cases hup : j.up with
    | false => exact hj
    | true =>
      cases Fate.survives fate with
      | false => exact hoff _
      | true => exact hj
  | clear =>
    simp only [Journal.step]
    split_ifs with hup
    · simp [Journal.Conserves]
    · exact hj
  | kill => exact hoff j.saved

theorem run_shows (h : Shows format s j) (hj : j.Conserves) (acts : List (DispatchAct B)) :
    Shows format (Machine.run (Dispatch.step format marshal) s acts) (Machine.run (Journal.step marshal) j acts) ∧
      (Machine.run (Journal.step marshal) j acts).Conserves := by
  induction acts generalizing s j with
  | nil => exact ⟨h, hj⟩
  | cons a acts ih => exact ih (step_shows h a) (h.conserves hj a)

end

/-- **The alert history.** However the run loop, the dispatcher, the flusher, requests, failing writes, a shutdown and
crashes interleave: the history is the 500 newest records of the journal, in which every accepted alert is exactly once,
in the order of acceptance, with the result of its own delivery; the file can always be read and is the newest part of
the journal at some earlier moment, after which nothing is recorded as clean that is not in it. -/
theorem dispatch_refines {B : Type} (format : Format B (List HistoryEntry)) (marshal : Payload → String) (files : Files B)
    (saved : List HistoryEntry) (hfiles : format.load [] files = some (saved.take historyCap))
    (acts : List (DispatchAct B)) :
    let s := Machine.run (Dispatch.step format marshal) (Dispatch.off files) acts
    let j := Machine.run (Journal.step marshal) (Journal.off saved) acts
    s.hist.entries = j.records.take historyCap ∧
      (∀ limit, s.hist.list limit = j.records.take (min (if limit ≤ 0 then 100 else limit.toNat) 500)) ∧
      (j.records.map Journal.unsent).reverse ++ s.queue = j.log ∧
      format.load [] s.files = some (j.saved.take historyCap) ∧
      (s.up = true → s.hist.dirty = false → format.load [] s.files = some s.hist.entries) := by
  intro s j
  obtain ⟨hshows, hconserves⟩ : Shows format s j ∧ j.Conserves := run_shows (shows_off hfiles) rfl acts
  refine ⟨hshows.entries, fun limit => ?_, ?_, hshows.file, fun hup hdirty => ?_⟩
  · rw [History.list, hshows.entries, List.take_take]
    rfl
  · rw [hshows.queue]
    exact hconserves
  · rw [hshows.file, hshows.entries, hshows.clean hdirty hup]

def diedAlert : Alert :=
  { ruleID := "r1", ruleName := "deaths", type := "event", host := "local", containerID := "c1", containerName := "web",
    reason := "container died (exit 1)", sample := "die (exit 1)", count := 1, suppressed := 0, firedAt := 0 }

/-- two alerts, of which the first is written before the process dies -/
theorem dispatch_refines_crash :
    (Machine.run (Dispatch.step wholeOrTorn fun _ => "") (Dispatch.off { target := none, temp := none })
        [.start, .emit diedAlert "0badcafe", .receive [], .flush .done, .emit diedAlert "0badf00d", .receive [],
         .flush (.diesBefore (some none)), .start]).hist.entries =
      [{ diedAlert with id := "0badcafe", delivery := none }] :=
  (dispatch_refines wholeOrTorn (fun _ => "") { target := none, temp := none } [] rfl _).1.trans rfl

end LogDeck.Alerts
