/-
No dropped line is forgotten, as long as no completed backfill retires a gap over a line that it has not read.

The gaps of a generation are merged to one timestamp, and a backfill that completes retires it by value
(`track.complete`, `clearGap`). A line that is dropped after the backfill has opened the engine's log, at or above the
gap, leaves no mark of its own: the gap is retired all the same, and nothing re-reads the line.

`Remembered`: every line that was dropped or lost with a failed commit is stored, queued or batched, or has an
outstanding gap at or below it, or is covered by an open read (`Covered`).
`ClearSafe`: when a completed backfill retires the gap, each line of the generation that was lost after its read began,
or that is older than its since, has been stored or queued again. A purge that fails to commit has forgotten the gaps
already: it leaves no lost line to nobody, and the read that has such a line left to it does not fail.

Results:
- `base_step`: what every step keeps;
- `step_inv`: what is remembered stays remembered over every clear-safe step;
- `healing_iff`: in a run every loss is remembered throughout if and only if every step is clear-safe;
- `late_loss_is_forgotten`: a run in which a line lost while its generation heals is forgotten.
-/
import LogDeck.LogStore.Pipeline
import LogDeck.Lib.Machine

namespace LogDeck.Healing

open LogDeck.LogStore LogDeck.Attribution LogDeck.Convergence LogDeck.Pipeline LogDeck.Pipeline.Sys Machine

/-- a backfill in flight reads the line: its read began after the loss, with a since at or below the line -/
def Covered (s : Sys) (x : Loss) : Prop :=
  ∃ since began rest, s.Reads x.key since began rest ∧ x.time < began ∧ since ≤ x.line.tsNS

def Remembered (s : Sys) : Prop :=
  ∀ x ∈ s.lost, isExcluded s.store.db x.key = false →
    x.tuple ∈ s.kept ∨ Outstanding s.gaps x.key x.line.tsNS ∨ Covered s x

/-- no gap is retired over a line that the backfill has not read; a purge that fails forgets no gap of a line that is
missing and that no read covers; and no read fails that alone covers a missing line -/
def ClearSafe (s : Sys) : Act → Prop
  | .handle key => ∀ info since began, s.tasks key = some ⟨info, .completed since began⟩ →
      s.track.healing key ≠ 0 → gapAt s.gaps key = s.track.healing key → isExcluded s.store.db key = false →
      ∀ x ∈ s.lost, x.key = key → (began ≤ x.time ∨ x.line.tsNS < since) → x.tuple ∈ s.kept
  | .purgeFails host name => ∀ x ∈ s.lost, x.key ∈ s.purgedKeys host name → isExcluded s.store.db x.key = false →
      x.tuple ∈ s.kept ∨ Covered s x
  | .endRead key how => how ≠ .ok → s.queue.length < ingestBuffer → isExcluded s.store.db key = false →
      ∀ info since began rest, s.tasks key = some ⟨info, .reading since began rest⟩ →
      ∀ x ∈ s.lost, x.key = key → x.time < began → since ≤ x.line.tsNS →
        x.tuple ∈ s.kept ∨ Outstanding s.gaps key x.line.tsNS
  | _ => True

/-! ## The invariant -/

/-- a loss that an open read covers is held, is yet to be sent, or was lost again after the read began -/
def Reread (s : Sys) : Prop :=
  ∀ key since began rest, s.Reads key since began rest → ∀ x ∈ s.lost, x.key = key → x.time < began →
    since ≤ x.line.tsNS → x.tuple ∈ s.kept ∨ x.line ∈ rest ∨ ∃ y ∈ s.lost, y.tuple = x.tuple ∧ began ≤ y.time

/-- what holds whatever is forgotten -/
structure Base (s : Sys) : Prop extends Sourced s where
  store : Consistent s.store
  past : ∀ x ∈ s.lost, x.time < s.clock
  opened : ∀ key since began rest, s.Reads key since began rest → began < s.clock
  flying : ∀ key task, s.tasks key = some task → s.track.inFlight key = true
  reread : Reread s

structure Inv (s : Sys) : Prop extends Base s where
  settled : ∀ x ∈ s.lost, ¬ Excluded s.store.db x.key →
    x.tuple ∈ s.kept ∨ Outstanding s.gaps x.key x.line.tsNS ∨ Covered s x

theorem Base.excluded_iff {s : Sys} (h : Base s) {key : GenKey} :
    isExcluded s.store.db key = false ↔ ¬ Excluded s.store.db key := by
  rw [← isExcluded_iff h.store.toWellFormed, Bool.not_eq_true]

theorem Inv.remembered {s : Sys} (h : Inv s) : Remembered s := by
  intro x hx he
  exact h.settled x hx (h.excluded_iff.1 he)

theorem not_reads_init {key : GenKey} {since : ℤ} {began : ℕ} {rest : List Line} :
    ¬ Sys.init.Reads key since began rest := by
  intro h
  rcases h with ⟨info, h⟩ | ⟨-, info, h⟩
  · cases h
  · cases h

theorem sourced_init : Sourced .init := by
  refine ⟨fun {key l} h => ?_, fun h => absurd h not_reads_init⟩
  cases h with
  | record r hr _ _ => cases hr
  | message m hm _ _ => cases hm
  | loss x hx _ _ => cases hx

theorem inv_init : Inv .init :=
  { sourced_init with
    store := consistent_init
    past := fun x hx => by cases hx
    opened := fun _ _ _ _ h => absurd h not_reads_init
    flying := fun _ _ h => by cases h
    reread := fun _ _ _ _ h => absurd h not_reads_init
    settled := fun x hx => by cases hx }

/-! ## One step -/

theorem Loss.tuple_eq {x y : Loss} (h : y.tuple = x.tuple) : y.key = x.key ∧ y.line.tsNS = x.line.tsNS := by
  simp only [Loss.tuple, Line.ident, Prod.mk.injEq] at h
  exact ⟨h.1, h.2.1⟩

variable {s : Sys} {a : Act}

/-- a loss after the action that is older than the action was there before it and is not dismissed -/
theorem old_loss (h : Base s) {x : Loss} (hx : x ∈ (s.act a).lost) (ht : x.time < s.clock) :
    x ∈ s.lost ∧ ¬ Dismissed s a x.tuple := by
  rcases (act_frame h.store a).fresh x hx with hold | ⟨e, -⟩
  · exact hold
  · omega

/-- what was held is held, or lost again now -/
theorem kept_act (h : Base s) {t : Tuple} (ht : t ∈ s.kept) (hd : ¬ Dismissed s a t) :
    t ∈ (s.act a).kept ∨ ∃ y ∈ (s.act a).lost, y.tuple = t ∧ y.time = s.clock := by
  rcases (act_frame h.store a).kept t ht with hk | hd' | hy
  · exact Or.inl hk
  · exact absurd hd' hd
  · exact Or.inr hy

/-- a loss at this step has its gap -/
theorem outstanding_of_now (h : Base s) {y : Loss} (hy : y ∈ (s.act a).lost) (ht : y.time = s.clock) :
    Outstanding (s.act a).gaps y.key y.line.tsNS := by
  rcases (act_frame h.store a).fresh y hy with ⟨hold, -⟩ | ⟨-, ho⟩
  · exact absurd (h.past y hold) (by omega)
  · exact ho

theorem settled_of_kept (h : Base s) {x : Loss} (hk : x.tuple ∈ s.kept) (hd : ¬ Dismissed s a x.tuple) :
    x.tuple ∈ (s.act a).kept ∨ Outstanding (s.act a).gaps x.key x.line.tsNS := by
  rcases kept_act h hk hd with hk | ⟨y, hy, e, ht⟩
  · exact Or.inl hk
  · obtain ⟨ek, et⟩ := Loss.tuple_eq e
    rw [← ek, ← et]
    exact Or.inr (outstanding_of_now h hy ht)

/-- when a report retires the gap of a generation safely, its losses are held -/
theorem kept_of_clears (h : Base s) {key : GenKey} (hs : ClearSafe s (.handle key)) {x : Loss} (hx : x ∈ s.lost)
    (hex : ¬ Excluded s.store.db x.key) (hc : Clears s x.key (.handle key)) : x.tuple ∈ s.kept := by
  obtain ⟨hk, hz, hg, info, since, began, htask⟩ := hc
  subst hk
  have hsafe := hs info since began htask hz hg (h.excluded_iff.2 hex)
  by_cases hold : x.time < began ∧ since ≤ x.line.tsNS
  · -- the read covered x: it was sent, and if it was lost again since, it has been queued once more
    have hr : s.Reads x.key since began [] := Or.inr ⟨rfl, info, htask⟩
    rcases h.reread x.key since began [] hr x hx rfl hold.1 hold.2 with hk | hr | ⟨y, hy, e, hb⟩
    · exact hk
    · cases hr
    · rw [← e]
      exact hsafe y hy (Loss.tuple_eq e).1 (Or.inl hb)
  · apply hsafe x hx rfl
    omega

theorem not_excluded_act (h : Base s) {x : Loss} (hd : ¬ Dismissed s a x.tuple)
    (hex : ¬ Excluded (s.act a).store.db x.key) : ¬ Excluded s.store.db x.key := by
  intro he
  rcases act_excluded h.store.toWellFormed a he with he | hall
  · exact hex he
  · exact hd (hall _)

/-- a read stays open, reports, or ends badly -/
theorem reads_act (h : Base s) {key : GenKey} {since : ℤ} {began : ℕ} {rest : List Line}
    (hr : s.Reads key since began rest) :
    (∃ rest', (s.act a).Reads key since began rest') ∨
      (a = .handle key ∧ rest = [] ∧ ∃ info, s.tasks key = some ⟨info, .completed since began⟩) ∨
      ∃ how info, a = .endRead key how ∧ how ≠ .ok ∧ s.queue.length < ingestBuffer ∧
        s.tasks key = some ⟨info, .reading since began rest⟩ := by
  have hstep := act_tasks s a key
  have hbusy : ∃ task, s.tasks key = some task := by
    rcases hr with ⟨info, ht⟩ | ⟨-, info, ht⟩
    · exact ⟨_, ht⟩
    · exact ⟨_, ht⟩
  have hopen : ∀ {task}, s.tasks key = some task →
      (∃ info, task = ⟨info, .reading since began rest⟩) ∨ rest = [] ∧ ∃ info, task = ⟨info, .completed since began⟩ := by
    intro task htask
    rcases hr with ⟨info, ht⟩ | ⟨hrest, info, ht⟩
    · exact Or.inl ⟨info, Option.some.inj (htask.symm.trans ht)⟩
    · exact Or.inr ⟨hrest, info, Option.some.inj (htask.symm.trans ht)⟩
  generalize htask' : (s.act a).tasks key = task at hstep
  cases hstep with
  | same =>
    refine Or.inl ⟨rest, ?_⟩
    unfold Reads at hr ⊢
    rwa [htask']
  | sync info nowMS hk hs =>
    -- a generation that is being read is not scheduled
    obtain ⟨task, htask⟩ := hbusy
    obtain ⟨excluded, hs⟩ := hs
    have hflight := h.flying key task htask
    rw [Tracker.schedule_snd, Tracker.eligible_iff, Tracker.refresh_inFlight, hflight] at hs
    exact Bool.noConfusion hs.2.1
  | resolve info htask | unresolved info htask =>
    rcases hopen htask with ⟨info', e⟩ | ⟨-, info', e⟩
    · cases e
    · cases e
  | read info since' htask =>
    rcases hopen htask with ⟨info', e⟩ | ⟨-, info', e⟩
    · cases e
    · cases e
  | send info since' began' l rest' htask hl =>
    rcases hopen htask with ⟨info', e⟩ | ⟨-, info', e⟩
    · cases e
      exact Or.inl ⟨rest', Or.inl ⟨info, htask'⟩⟩
    · cases e
  | completed info since' began' htask =>
    rcases hopen htask with ⟨info', e⟩ | ⟨-, info', e⟩
    · cases e
      exact Or.inl ⟨[], Or.inr ⟨rfl, info, htask'⟩⟩
    · cases e
  | failed how info since' began' rest' hhow hroom htask | excluded how info since' began' rest' hhow hroom htask =>
    rcases hopen htask with ⟨info', e⟩ | ⟨-, info', e⟩
    · cases e
      exact Or.inr (Or.inr ⟨how, info, rfl, hhow, hroom, htask⟩)
    · cases e
  | handle =>
    rcases hr with ⟨info, ht⟩ | ⟨hrest, info, ht⟩
    · -- a read under way has nothing to report
      have hsame : s.act (.handle key) = s := by simp only [act, handle, ht]
      rw [hsame, ht] at htask'
      cases htask'
    · exact Or.inr (Or.inl ⟨rfl, hrest, info, ht⟩)

/-- a loss that an open read covers -/
theorem settled_of_covered (h : Inv s) (hs : ClearSafe s a) {x : Loss} (hx : x ∈ s.lost)
    (hd : ¬ Dismissed s a x.tuple) (hex : ¬ Excluded s.store.db x.key) (hc : Covered s x) :
    x.tuple ∈ (s.act a).kept ∨ Outstanding (s.act a).gaps x.key x.line.tsNS ∨ Covered (s.act a) x := by
  have step : x.tuple ∈ s.kept → x.tuple ∈ (s.act a).kept ∨ Outstanding (s.act a).gaps x.key x.line.tsNS ∨
      Covered (s.act a) x := fun hk => (settled_of_kept h.toBase hk hd).imp_right Or.inl
  obtain ⟨since, began, rest, hr, ht, hsince⟩ := hc
  rcases reads_act h.toBase (a := a) hr with ⟨rest', hr'⟩ | ⟨rfl, rfl, info, htask⟩ |
    ⟨how, info, rfl, hhow, hroom, htask⟩
  · exact Or.inr (Or.inr ⟨since, began, rest', hr', ht, hsince⟩)
  · -- the read reports: x was sent, or lost again since, which has made a gap
    rcases h.reread x.key since began [] hr x hx rfl ht hsince with hk | hr' | ⟨y, hy, e, hb⟩
    · exact step hk
    · cases hr'
    · obtain ⟨ek, et⟩ := Loss.tuple_eq e
      rcases h.settled y hy (ek ▸ hex) with hk | ho | ⟨since', began', rest', hr', ht', -⟩
      · exact step (e ▸ hk)
      · rw [ek, et] at ho
        rcases (act_frame h.store (.handle x.key)).gaps _ _ ho with ho | hclears | hall
        · exact Or.inr (Or.inl ho)
        · exact step (kept_of_clears h.toBase hs hx hex hclears)
        · exact absurd (hall _) hd
      · -- it was lost after this read began
        rw [ek] at hr'
        rcases hr' with ⟨info', e'⟩ | ⟨-, info', e'⟩
        · rw [htask] at e'
          cases e'
        · rw [htask] at e'
          cases e'
          omega
  · rcases hs hhow hroom (h.excluded_iff.2 hex) info since began rest htask x hx rfl ht hsince with hk | ho
    · exact step hk
    · rcases (act_frame h.store (.endRead x.key how)).gaps _ _ ho with ho | hclears | hall
      · exact Or.inr (Or.inl ho)
      · exact hclears.elim
      · exact absurd (hall _) hd

theorem settled_step (h : Inv s) (hs : ClearSafe s a) (x : Loss) (hx : x ∈ (s.act a).lost)
    (hex : ¬ Excluded (s.act a).store.db x.key) :
    x.tuple ∈ (s.act a).kept ∨ Outstanding (s.act a).gaps x.key x.line.tsNS ∨ Covered (s.act a) x := by
  rcases (act_frame h.store a).fresh x hx with ⟨hx₀, hd⟩ | ⟨-, ho⟩
  · have hex₀ := not_excluded_act h.toBase hd hex
    have step : x.tuple ∈ s.kept → x.tuple ∈ (s.act a).kept ∨ Outstanding (s.act a).gaps x.key x.line.tsNS ∨
        Covered (s.act a) x := fun hk => (settled_of_kept h.toBase hk hd).imp_right Or.inl
    rcases h.settled x hx₀ hex₀ with hk | ho | hc
    · exact step hk
    · rcases (act_frame h.store a).gaps _ _ ho with ho | hclears | hall
      · exact Or.inr (Or.inl ho)
      · cases a with
        | handle key => exact step (kept_of_clears h.toBase hs hx₀ hex₀ hclears)
        | purgeFails host name =>
          rcases hs x hx₀ hclears (h.excluded_iff.2 hex₀) with hk | hc
          · exact step hk
          · exact settled_of_covered h hs hx₀ hd hex₀ hc
        | _ => exact hclears.elim
      · exact absurd (hall _) hd
    · exact settled_of_covered h hs hx₀ hd hex₀ hc
  · exact Or.inr (Or.inl ho)

theorem reread_step (h : Base s) : Reread (s.act a) := by
  intro key since began rest' hr x hx hk ht hsince
  rcases act_reads a hr with ⟨rest, h₀, -, hsent⟩ | ⟨hb, hrest, -⟩
  · -- the read was open before: it sends what it has left, and a line it sent is held
    have hbegan := h.opened key since began rest h₀
    obtain ⟨hx₀, hd⟩ := old_loss h hx (by omega)
    rcases h.reread key since began rest h₀ x hx₀ hk ht hsince with hkept | hl | ⟨y, hy, e, hby⟩
    · rcases kept_act h hkept hd with hkept | ⟨y, hy, e, hyt⟩
      · exact Or.inl hkept
      · exact Or.inr (Or.inr ⟨y, hy, e, by omega⟩)
    · rcases hsent x.line hl with hl | hkept
      · exact Or.inr (Or.inl hl)
      · rw [← hk] at hkept
        exact Or.inl hkept
    · rcases (act_frame h.store a).lost y hy with hy | hdy
      · exact Or.inr (Or.inr ⟨y, hy, e, hby⟩)
      · rw [e] at hdy
        exact absurd hdy hd
  · -- the read begins now: the engine still has every line that was lost
    obtain ⟨hx₀, -⟩ := old_loss h hx (by omega)
    refine Or.inr (Or.inl ?_)
    rw [hrest]
    apply List.mem_filter.2
    exact ⟨hk ▸ h.held (held_of_lost s x hx₀), by simpa using hsince⟩

/-- **What every step keeps.** -/
theorem base_step (s : Sys) (a : Act) (h : Base s) : Base (s.step a) := by
  have hsrc := act_sourced h.toSourced a
  refine { held := ?_, reads := ?_, store := step_consistent h.store a, past := ?_, opened := ?_,
           flying := act_flying h.flying a, reread := reread_step h }
  · intro key l hl
    exact hsrc.held (hl.same (s.act a) rfl rfl rfl (List.Subset.refl _))
  · intro key since began rest hr
    exact hsrc.reads hr
  · intro x hx
    show x.time < s.clock + 1
    rcases (act_frame h.store a).fresh x hx with ⟨hx, -⟩ | ⟨e, -⟩
    · have := h.past x hx
      omega
    · omega
  · intro key since began rest hr
    show began < s.clock + 1
    rcases act_reads a hr with ⟨rest₀, h₀, -⟩ | ⟨e, -⟩
    · have := h.opened key since began rest₀ h₀
      omega
    · omega

/-- **A clear-safe step keeps every loss remembered.** -/
theorem step_inv (s : Sys) (a : Act) (h : Inv s) (hs : ClearSafe s a) : Inv (s.step a) :=
  { base_step s a h.toBase with settled := settled_step h hs }

/-! ## Steps that are not clear-safe -/

/-- a gap that is retired over an unread line forgets the line -/
theorem handle_forgets {key : GenKey} (hs : ¬ ClearSafe s (.handle key)) : ¬ Remembered (s.step (.handle key)) := by
  intro hR
  apply hs
  intro info since began htask hz hg hex x hx hk hlate
  by_contra hkept
  subst hk
  have hact : s.act (.handle x.key) = { s with
      track := ((s.track.land x.key).complete x.key s.resume s.gaps).1
      resume := ((s.track.land x.key).complete x.key s.resume s.gaps).2.1
      gaps := ((s.track.land x.key).complete x.key s.resume s.gaps).2.2
      tasks := Function.update s.tasks x.key none } := by
    simp only [act, handle, htask]
  have hgaps : (s.step (.handle x.key)).gaps x.key = none := by
    show (s.act (.handle x.key)).gaps x.key = none
    rw [hact]
    simp [Tracker.complete, Tracker.land, hz, clearGap, hg]
  have htasks : (s.step (.handle x.key)).tasks x.key = none := by
    show (s.act (.handle x.key)).tasks x.key = none
    rw [hact]
    simp
  have hdb : (s.step (.handle x.key)).store = s.store ∧ (s.step (.handle x.key)).lost = s.lost ∧
      (s.step (.handle x.key)).kept = s.kept := by
    show (s.act (.handle x.key)).store = s.store ∧ (s.act (.handle x.key)).lost = s.lost ∧
      (s.act (.handle x.key)).kept = s.kept
    rw [hact]
    exact ⟨rfl, rfl, rfl⟩
  rcases hR x (hdb.2.1.symm ▸ hx) (hdb.1.symm ▸ hex) with hk | ⟨gap, hgap, -⟩ | ⟨since', began', rest', hr, -⟩
  · exact hkept (hdb.2.2 ▸ hk)
  · rw [hgaps] at hgap
    cases hgap
  · rcases hr with ⟨info', hr⟩ | ⟨-, info', hr⟩
    · rw [htasks] at hr
      cases hr
    · rw [htasks] at hr
      cases hr

/-- so does a purge that fails and takes the gap of a line that no read covers -/
theorem purgeFails_forgets {host name : String} (hs : ¬ ClearSafe s (.purgeFails host name)) :
    ¬ Remembered (s.step (.purgeFails host name)) := by
  intro hR
  apply hs
  intro x hx hp hex
  have hdb : (s.step (.purgeFails host name)).store.db = s.store.db := purgeFails_db s.store host name
  rcases hR x hx (hdb.symm ▸ hex) with hk | ⟨gap, hgap, -⟩ | hc
  · left
    rwa [← purgeFails_kept s host name]
  · have hgaps : (s.purgeFails host name).gaps x.key = none := if_pos hp
    rw [show (s.step (.purgeFails host name)).gaps x.key = none from hgaps] at hgap
    cases hgap
  · exact Or.inr hc

/-- and a read that fails over a line that has no gap -/
theorem endRead_forgets {key : GenKey} {how : ReadEnd} (hs : ¬ ClearSafe s (.endRead key how)) :
    ¬ Remembered (s.step (.endRead key how)) := by
  intro hR
  apply hs
  intro hhow hroom hex info since began rest htask x hx hk ht hsince
  subst hk
  obtain ⟨reason, phase, hact, hphase⟩ := endRead_fails hhow hroom htask
  have hstep : s.step (.endRead x.key how) = { (s.enqueue (backfillMsg x.key info (.done reason))).setPhase x.key info
      phase with clock := s.clock + 1 } := by
    show { s.endRead x.key how with clock := s.clock + 1 } = _
    rw [hact]
  have htasks : (s.step (.endRead x.key how)).tasks x.key = some ⟨info, phase⟩ := by
    rw [hstep]
    exact Function.update_self x.key _ _
  rw [hstep] at hR
  rcases hR x hx hex with hk | ho | ⟨since', began', rest', hr, -⟩
  · exact Or.inl (kept_enqueue_done (s := s) (m := backfillMsg x.key info (.done reason)) rfl hk)
  · exact Or.inr ho
  · rw [hstep] at htasks
    rcases hr with ⟨info', hr⟩ | ⟨-, info', hr⟩
    · rcases hphase with rfl | rfl
      · cases htasks.symm.trans hr
      · cases htasks.symm.trans hr
    · rcases hphase with rfl | rfl
      · cases htasks.symm.trans hr
      · cases htasks.symm.trans hr

theorem bad_step (s : Sys) (a : Act) (_ : Inv s) (hs : ¬ ClearSafe s a) : ¬ Remembered (s.step a) := by
  cases a with
  | handle key => exact handle_forgets hs
  | purgeFails host name => exact purgeFails_forgets hs
  | endRead key how => exact endRead_forgets hs
  | _ => exact absurd trivial hs

/-- **No dropped line is forgotten if and only if every step is clear-safe**: no gap is retired over a line its backfill
has not read, and no purge that fails leaves a line to nobody. -/
theorem healing_iff (acts : List Act) : Always Sys.step Remembered .init acts ↔ Each Sys.step ClearSafe .init acts :=
  always_iff_each (fun _ h => h.remembered) step_inv bad_step inv_init

/-! ## A forgotten line -/

def web : GenKey := ⟨"local", "aaa"⟩
def webRecord (tsNS : ℤ) : Record := ⟨web, "web", "", ⟨tsNS, .stdout, 0, [104, 105]⟩⟩
def webInfo : ContainerInfo := ⟨"aaa", ["/web"], "nginx", 1, [], "local"⟩

/-- a line logged now is delivered, and its batch fails -/
def loses (tsNS nowMS : ℤ) : List Act := [.emit (webRecord tsNS) true, .deliver, .take, .flush nowMS false]

/-- the line at 5 s is lost; while the backfill that heals it is reading, the line at 6 s is lost too -/
def lateLoss : List Act :=
  loses 5000000000 1 ++ [.sync webInfo 2, .resolve web true, .read web] ++ loses 6000000000 3 ++
    [.send web, .endRead web .ok, .take, .take, .flush 4 true, .handle web]

/-- **A line lost while its generation heals is forgotten.** The backfill that completes retires the gap at 5 s. The line
at 6 s was lost after the read began: it is not stored or queued, no gap is left and nothing reads it. -/
theorem late_loss_is_forgotten : ¬ Always Sys.step Remembered .init lateLoss := by
  intro h
  have hlast := h.last
  have hx : (⟨web, ⟨6000000000, .stdout, 0, [104, 105]⟩, 10⟩ : Loss) ∈ (run Sys.step .init lateLoss).lost := by decide
  rcases hlast _ hx (by decide) with (⟨r, hr, -, he⟩ | hk) | ⟨gap, hgap, -⟩ | ⟨since, began, rest, hr, -⟩
  · have hstored : ∀ r ∈ (run Sys.step .init lateLoss).store.db.lines,
        r.line.ident ≠ (6000000000, .stdout, [104, 105]) := by decide
    exact hstored r hr he
  · obtain ⟨m, hm, -⟩ := hk
    have hqueue : (run Sys.step .init lateLoss).batch ++ (run Sys.step .init lateLoss).queue = [] := by decide
    rw [hqueue] at hm
    cases hm
  · have hnone : (run Sys.step .init lateLoss).gaps web = none := by decide
    rw [hnone] at hgap
    cases hgap
  · have hidle : (run Sys.step .init lateLoss).tasks web = none := by decide
    rcases hr with ⟨info, hr⟩ | ⟨-, info, hr⟩
    · rw [hidle] at hr
      cases hr
    · rw [hidle] at hr
      cases hr

end LogDeck.Healing
