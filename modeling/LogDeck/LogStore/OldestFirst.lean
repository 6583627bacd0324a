/-
Is the total-cap phase of a sweep oldest-first (`janitor.go`: `retain`, `evictOldest`)?

Each round picks the logical container that holds the oldest line and asks it for the whole excess. A container whose
oldest lines are small pays with newer ones, while lines of other containers that lie in between stay.

Here a sweep runs alone: no purge and no database error between its transactions.

Results:
- `mem_victims_iff`: a line is evicted if and only if the older lines of its container neither fill a chunk nor hold the
  excess;
- `oldest_first_iff`: the lines stored are, at every moment of the phase, no older than those evicted so far, if and only
  if no round needs a line that is newer than one of another container; and the last round alone decides what is left;
- `newer_line_pays`: a store where the phase evicts a line of one container and keeps an older one of another.
-/
import LogDeck.LogStore.Retention

namespace LogDeck.Retention

open LogDeck.LogStore

/-! ## The victims of one eviction -/

/-- the lines of the rows that come before a line -/
def earlier (db : DB) (refs : List ℕ) (v : LineRow) : List LineRow := (oldestFirst db refs).takeWhile (· ≠ v)

theorem freedBytes_nonneg (ls : List LineRow) : 0 ≤ freedBytes ls := by
  apply List.sum_nonneg
  intro b hb
  obtain ⟨l, -, rfl⟩ := List.mem_map.1 hb
  exact Int.natCast_nonneg _

theorem freedBytes_cons (l : LineRow) (ls : List LineRow) : freedBytes (l :: ls) = l.line.size + freedBytes ls := by
  simp [freedBytes]

theorem freedBytes_append (ls ls' : List LineRow) : freedBytes (ls ++ ls') = freedBytes ls + freedBytes ls' := by
  simp [freedBytes]

/-- the scan stops at the first line with which the bytes reach the excess -/
theorem mem_scanVictims_iff {excess freed : ℤ} (hpos : freed < excess) (n : ℕ) (ls : List LineRow) (v : LineRow) :
    v ∈ scanVictims excess freed (ls.take n) ↔
      v ∈ ls ∧ (ls.takeWhile (· ≠ v)).length < n ∧ freed + freedBytes (ls.takeWhile (· ≠ v)) < excess := by
  induction ls generalizing freed n with
  | nil => simp [scanVictims]
  | cons l ls ih =>
    cases n with
    | zero => simp [scanVictims]
    | succ n =>
      rw [List.take_succ_cons, scanVictims]
      by_cases hv : l = v
      · subst hv
        have hmem : l ∈ (if freed + l.line.size ≥ excess then [l]
            else l :: scanVictims excess (freed + l.line.size) (ls.take n)) := by
          split_ifs
          · exact List.mem_singleton_self l
          · exact List.mem_cons_self
        simp [hmem, freedBytes, hpos]
      · have htw : (l :: ls).takeWhile (· ≠ v) = l :: ls.takeWhile (· ≠ v) := by
          rw [List.takeWhile_cons_of_pos]
          simpa using hv
        have hcons : ∀ ls' : List LineRow, v ∈ l :: ls' ↔ v ∈ ls' := by
          intro ls'
          rw [List.mem_cons, or_iff_right (Ne.symm hv)]
        rw [htw, List.length_cons, freedBytes_cons, hcons]
        split_ifs with hfull
        · have hnonneg := freedBytes_nonneg (ls.takeWhile (· ≠ v))
          constructor
          · intro hmem
            exact absurd (List.mem_singleton.1 hmem).symm hv
          · rintro ⟨-, -, hlt⟩
            omega
        · rw [hcons, ih (lt_of_not_ge hfull)]
          constructor
          · rintro ⟨hm, hn, hlt⟩
            exact ⟨hm, by omega, by omega⟩
          · rintro ⟨hm, hn, hlt⟩
            exact ⟨hm, by omega, by omega⟩

/-- **Which lines an eviction takes.** -/
theorem mem_victims_iff {db : DB} {refs : List ℕ} {excess : ℤ} (hpos : 0 < excess) {v : LineRow} :
    v ∈ victims db refs excess ↔ (v ∈ db.lines ∧ v.ref ∈ refs) ∧
      (earlier db refs v).length < deleteChunk ∧ freedBytes (earlier db refs v) < excess := by
  rw [victims, mem_scanVictims_iff hpos, mem_oldestFirst, zero_add]
  rfl

theorem oldestFirst_sorted (db : DB) (refs : List ℕ) : (oldestFirst db refs).Pairwise Older := by
  have htotal : Std.Total Older := ⟨fun a b => by unfold Older; omega⟩
  have htrans : IsTrans LineRow Older := ⟨fun a b c hab hbc => by unfold Older at hab hbc ⊢; omega⟩
  exact List.pairwise_insertionSort Older _

/-- what comes before an older line comes before a newer one -/
theorem earlier_prefix {db : DB} {refs : List ℕ} {u v : LineRow} (hu : u ∈ oldestFirst db refs)
    (hv : v ∈ oldestFirst db refs) (hlt : u.line.tsNS < v.line.tsNS) : earlier db refs u <+: earlier db refs v := by
  have hsorted := oldestFirst_sorted db refs
  unfold earlier
  generalize oldestFirst db refs = ls at hu hv hsorted ⊢
  induction ls with
  | nil => cases hu
  | cons l ls ih =>
    obtain ⟨hle, hsorted⟩ := List.pairwise_cons.1 hsorted
    by_cases hlu : l = u
    · rw [List.takeWhile_cons_of_neg (by simpa using hlu)]
      exact List.nil_prefix
    · have hu' : u ∈ ls := (List.mem_cons.1 hu).resolve_left (Ne.symm hlu)
      have hlv : l ≠ v := by
        intro e
        have := hle u hu'
        unfold Older at this
        rw [e] at this
        omega
      have hv' : v ∈ ls := (List.mem_cons.1 hv).resolve_left (Ne.symm hlv)
      rw [List.takeWhile_cons_of_pos (by simpa using hlu), List.takeWhile_cons_of_pos (by simpa using hlv)]
      exact List.cons_prefix_cons.2 ⟨rfl, ih hu' hv' hsorted⟩

/-- among the lines of one container the victims are the oldest -/
theorem victims_oldest {db : DB} {refs : List ℕ} {excess : ℤ} (hpos : 0 < excess) {u v : LineRow}
    (hv : v ∈ victims db refs excess) (hu : u ∈ db.lines) (hur : u.ref ∈ refs) (hlt : u.line.tsNS < v.line.tsNS) :
    u ∈ victims db refs excess := by
  obtain ⟨hvm, hlen, hbytes⟩ := (mem_victims_iff hpos).1 hv
  obtain ⟨rest, e⟩ := earlier_prefix (mem_oldestFirst.2 ⟨hu, hur⟩) (mem_oldestFirst.2 hvm) hlt
  rw [← e, List.length_append] at hlen
  rw [← e, freedBytes_append] at hbytes
  have hnonneg := freedBytes_nonneg rest
  exact (mem_victims_iff hpos).2 ⟨⟨hu, hur⟩, by omega, by omega⟩

/-! ## The phase -/

/-- the total-cap phase, in a well-formed store: the per-container loop is over, and a round is under way only while the
running total is over the cap -/
structure TotalCap (s : Sweep) : Prop where
  wf : WellFormed s.db
  trimmed : s.phase ≠ .load ∧ ∀ i, s.phase ≠ .trim i
  exceeded : (∃ r i best, s.phase = .scan r i best) ∨ (∃ r k, s.phase = .evict r k) → s.limits.totalCap < s.total

theorem next_shrinks (s : Sweep) (h : WellFormed s.db) : s.next.db = s.db ∨ Shrink s.db s.next.db := by
  have hevict : ∀ refs excess, Shrink s.db (evictOldest s.db refs excess).1 := fun refs excess =>
    .evict _ _ (fun l hl => (mem_victims hl).1) (victims_nodup h.nodup refs excess)
  unfold Sweep.next
  cases s.phase with
  | trim i =>
    dsimp only
    unfold Sweep.trimStep
    cases s.groups[i]? with
    | none => exact Or.inl rfl
    | some g =>
      dsimp only
      split_ifs
      · exact Or.inr (hevict _ _)
      · exact Or.inr (hevict _ _)
      · exact Or.inl rfl
  | evict r k =>
    dsimp only
    unfold Sweep.evictStep
    cases s.groups[k]? with
    | none => exact Or.inl rfl
    | some g =>
      dsimp only
      split_ifs
      · exact Or.inr (hevict _ _)
      · exact Or.inr (hevict _ _)
  | scan r i best =>
    dsimp only
    unfold Sweep.scanStep
    left
    split
    · split <;> rfl
    · split_ifs
      · rfl
      · split <;> rfl
  | prune => exact Or.inr (.prune _)
  | _ => exact Or.inl rfl

theorem next_subset {s : Sweep} (h : WellFormed s.db) : s.next.db.lines ⊆ s.db.lines := by
  rcases next_shrinks s h with e | hs
  · rw [e]
    exact fun _ hl => hl
  · exact hs.lines_subset

theorem next_totalCap {s : Sweep} (h : TotalCap s) : TotalCap s.next := by
  have hwf : WellFormed s.next.db := by
    rcases next_shrinks s h.wf with e | hs
    · rw [e]
      exact h.wf
    · exact hs.wellFormed h.wf
  refine ⟨hwf, ?_, ?_⟩
  all_goals
    unfold Sweep.next
    cases hp : s.phase with
    | load => exact absurd hp h.trimmed.1
    | trim i => exact absurd hp (h.trimmed.2 i)
    | round r =>
      dsimp only
      split_ifs with hover
      · simp [hover.1]
      · simp
    | scan r i best =>
      have hover := h.exceeded (Or.inl ⟨r, i, best, hp⟩)
      dsimp only
      unfold Sweep.scanStep
      cases hi : s.groups[i]? with
      | none => cases best <;> simp [hover]
      | some g =>
        dsimp only
        split_ifs
        · simp [hover]
        · cases oldestLine s.db g.refs <;> simp [hover]
    | evict r k =>
      dsimp only
      unfold Sweep.evictStep
      cases hk : s.groups[k]? with
      | none => simp
      | some g =>
        dsimp only
        split_ifs <;> simp
    | prune => simp
    | done => simp [hp]

theorem TotalCap.excess_pos {s : Sweep} (h : TotalCap s) {r k : ℕ} (hp : s.phase = .evict r k) :
    0 < s.total - s.limits.totalCap := by
  have hlt := h.exceeded (Or.inr ⟨r, k, hp⟩)
  omega

/-- no line stored is older than a line evicted since the phase started -/
def OldestFirst (start s : Sweep) : Prop :=
  ∀ u ∈ s.db.lines, ∀ v ∈ start.db.lines, v ∉ s.db.lines → v.line.tsNS ≤ u.line.tsNS

/-- a round needs a line of its container: the lines before it do not fill a chunk and do not hold the excess -/
def Needed (s : Sweep) (g : LogicalGroup) (v : LineRow) : Prop :=
  (earlier s.db g.refs v).length < deleteChunk ∧ freedBytes (earlier s.db g.refs v) < s.total - s.limits.totalCap

/-- a round needs no line of its container that is newer than a line of another one -/
def NoneNewer (s : Sweep) : Prop :=
  ∀ r k g, s.phase = .evict r k → s.groups[k]? = some g → ∀ u ∈ s.db.lines, u.ref ∉ g.refs →
    ∀ v ∈ s.db.lines, v.ref ∈ g.refs → u.line.tsNS < v.line.tsNS → ¬ Needed s g v

/-- a line older than one evicted in an earlier round is in the round's container, and needed -/
def NoneLeft (start s : Sweep) : Prop :=
  ∀ u ∈ s.db.lines, ∀ v ∈ start.db.lines, v ∉ s.db.lines → u.line.tsNS < v.line.tsNS →
    ∃ r k g, s.phase = .evict r k ∧ s.groups[k]? = some g ∧ u.ref ∈ g.refs ∧ Needed s g u

theorem deleted_iff {s : Sweep} (h : TotalCap s) {l : LineRow} (hl : l ∈ s.db.lines) :
    l ∉ s.next.db.lines ↔
      ∃ r k g, s.phase = .evict r k ∧ s.groups[k]? = some g ∧ l.ref ∈ g.refs ∧ Needed s g l := by
  rw [next_deletes h.wf hl]
  constructor
  · intro hdel
    rcases hdel with ⟨i, -, hp, -⟩ | ⟨r, k, g, hp, hk, hvic⟩
    · exact absurd hp (h.trimmed.2 i)
    · obtain ⟨⟨-, hr⟩, hneed⟩ := (mem_victims_iff (h.excess_pos hp)).1 hvic
      exact ⟨r, k, g, hp, hk, hr, hneed⟩
  · intro ⟨r, k, g, hp, hk, hr, hneed⟩
    exact Or.inr ⟨r, k, g, hp, hk, (mem_victims_iff (h.excess_pos hp)).2 ⟨⟨hl, hr⟩, hneed⟩⟩

/-- **One round.** What is left after it is oldest-first exactly when it needs no newer line and leaves no older one. -/
theorem next_oldestFirst_iff {start s : Sweep} (h : TotalCap s) (hsub : s.db.lines ⊆ start.db.lines) :
    OldestFirst start s.next ↔ NoneNewer s ∧ NoneLeft start s := by
  constructor
  · intro hnext
    refine ⟨fun r k g hp hk u hu hur v hv hvr hlt hneed => ?_, fun u hu v hv hvs hlt => ?_⟩
    · have hgone := (deleted_iff h hv).2 ⟨r, k, g, hp, hk, hvr, hneed⟩
      have hstays : u ∈ s.next.db.lines := by
        by_contra hdel
        obtain ⟨r', k', g', hp', hk', hur', -⟩ := (deleted_iff h hu).1 hdel
        obtain ⟨rfl, rfl⟩ := Phase.evict.inj (hp.symm.trans hp')
        obtain rfl := Option.some.inj (hk.symm.trans hk')
        exact hur hur'
      have hle := hnext u hstays v (hsub hv) hgone
      omega
    · apply (deleted_iff h hu).1
      intro hstays
      have hle := hnext u hstays v hv fun hvn => hvs (next_subset h.wf hvn)
      omega
  · intro ⟨hnewer, hleft⟩ u hu v hv hgone
    have hu₀ := next_subset h.wf hu
    by_contra hlt
    have hlt : u.line.tsNS < v.line.tsNS := not_le.1 hlt
    by_cases hvs : v ∈ s.db.lines
    · obtain ⟨r, k, g, hp, hk, hvr, hneed⟩ := (deleted_iff h hvs).1 hgone
      by_cases hur : u.ref ∈ g.refs
      · -- in its container the round takes the oldest lines
        have hpos := h.excess_pos hp
        have hvic := (mem_victims_iff hpos).2 ⟨⟨hvs, hvr⟩, hneed⟩
        obtain ⟨-, huneed⟩ := (mem_victims_iff hpos).1 (victims_oldest hpos hvic hu₀ hur hlt)
        exact (deleted_iff h hu₀).2 ⟨r, k, g, hp, hk, hur, huneed⟩ hu
      · exact hnewer r k g hp hk u hu₀ hur v hvs hvr hlt hneed
    · exact (deleted_iff h hu₀).2 (hleft u hu₀ v hv hvs hlt) hu

/-- the store content and the caps from which a phase starts -/
structure PhaseStart (db : DB) (limits : Limits) (s : Sweep) : Prop where
  wf : WellFormed db
  reached : ∃ m, s = Sweep.next^[m] (.start limits db)
  phase : s.phase = .round 0

theorem iterate_wf {s : Sweep} (h : WellFormed s.db) (m : ℕ) : WellFormed (Sweep.next^[m] s).db := by
  induction m with
  | zero => exact h
  | succ m ih =>
    rw [Function.iterate_succ_apply']
    rcases next_shrinks (Sweep.next^[m] s) ih with e | hs
    · rw [e]
      exact ih
    · exact hs.wellFormed ih

theorem PhaseStart.totalCap {db : DB} {limits : Limits} {s : Sweep} (h : PhaseStart db limits s) : TotalCap s := by
  obtain ⟨m, rfl⟩ := h.reached
  refine ⟨iterate_wf h.wf m, by simp [h.phase], fun hbusy => ?_⟩
  rw [h.phase] at hbusy
  simp at hbusy

theorem iterate_totalCap {s : Sweep} (h : TotalCap s) (n : ℕ) :
    TotalCap (Sweep.next^[n] s) ∧ (Sweep.next^[n] s).db.lines ⊆ s.db.lines := by
  induction n with
  | zero => exact ⟨h, fun _ hl => hl⟩
  | succ n ih =>
    rw [Function.iterate_succ_apply']
    exact ⟨next_totalCap ih.1, fun _ hl => ih.2 (next_subset ih.1.wf hl)⟩

/-- between two evictions nothing is deleted -/
theorem iterate_lines {s : Sweep} (h : TotalCap s) {n m : ℕ} (hnm : n ≤ m)
    (hlast : ∀ j, n ≤ j → j < m → ∀ r k, (Sweep.next^[j] s).phase ≠ .evict r k) (l : LineRow) :
    l ∈ (Sweep.next^[m] s).db.lines ↔ l ∈ (Sweep.next^[n] s).db.lines := by
  induction m, hnm using Nat.le_induction with
  | base => exact Iff.rfl
  | succ m hnm ih =>
    rw [Function.iterate_succ_apply', ← ih fun j hj hjm => hlast j hj (Nat.lt_succ_of_lt hjm)]
    have hm := (iterate_totalCap h m).1
    refine ⟨fun hl => next_subset hm.wf hl, fun hl => ?_⟩
    by_contra hdel
    obtain ⟨r, k, g, hp, -⟩ := (deleted_iff hm hl).1 hdel
    exact hlast m hnm (Nat.lt_succ_self m) r k hp

/-- **Oldest-first, exactly.** In the total-cap phase of a sweep, from every store content and for all caps: at no moment
of the phase is a line stored older than one the phase has evicted, if and only if no round needs a line of its container
that is newer than a line of another one. And the last round decides for the end of the phase: what survives is no older
than what was evicted if and only if that round needs no such line and leaves none older than those evicted before. -/
theorem oldest_first_iff (db : DB) (limits : Limits) (s : Sweep) (h : PhaseStart db limits s) :
    ((∀ n, OldestFirst s (Sweep.next^[n] s)) ↔ ∀ n, NoneNewer (Sweep.next^[n] s)) ∧
    ∀ n m, n < m → (∀ j, n < j → j < m → ∀ r k, (Sweep.next^[j] s).phase ≠ .evict r k) →
      (OldestFirst s (Sweep.next^[m] s) ↔ NoneNewer (Sweep.next^[n] s) ∧ NoneLeft s (Sweep.next^[n] s)) := by
  have hstep : ∀ n, OldestFirst s (Sweep.next^[n + 1] s) ↔
      NoneNewer (Sweep.next^[n] s) ∧ NoneLeft s (Sweep.next^[n] s) := by
    intro n
    obtain ⟨hcap, hsub⟩ := iterate_totalCap h.totalCap n
    rw [Function.iterate_succ_apply']
    exact next_oldestFirst_iff hcap hsub
  refine ⟨⟨fun hall n => ((hstep n).1 (hall (n + 1))).1, fun hall n => ?_⟩, fun n m hnm hlast => ?_⟩
  · induction n with
    | zero => exact fun u _ v hv hgone => absurd hv hgone
    | succ n ih =>
      refine (hstep n).2 ⟨hall n, fun u hu v hv hgone hlt => ?_⟩
      have hle := ih u hu v hv hgone
      omega
  · have hlines := iterate_lines h.totalCap (Nat.succ_le_of_lt hnm) fun j hj hjm => hlast j hj hjm
    rw [← hstep n]
    simp only [OldestFirst, hlines]

/-! ## A newer line pays -/

/-- web holds two lines of one byte, db one of a mebibyte that lies between them -/
def interleaved : List Op :=
  [.commit [⟨web, "web", "", .line ⟨1, .stdout, 0, [33]⟩⟩, ⟨web, "web", "", .line ⟨3, .stdout, 0, [33]⟩⟩,
    ⟨db, "db", "", .line ⟨2, .stdout, 0, mebibyte⟩⟩] 0]

/-- the rows after `interleaved` -/
def interleavedDB (dbBytes : ℤ) : DB :=
  { containers :=
      [{ id := 1, key := web, name := "web", firstSeenMS := 0, lastSeenMS := 0, storedBytes := 2, stdoutWM := 3 },
       { id := 2, key := db, name := "db", firstSeenMS := 0, lastSeenMS := 0, storedBytes := dbBytes, stdoutWM := 2 }]
    lines :=
      [⟨1, 1, ⟨1, .stdout, 0, [33]⟩, web⟩, ⟨2, 1, ⟨3, .stdout, 0, [33]⟩, web⟩, ⟨3, 2, ⟨2, .stdout, 0, mebibyte⟩, db⟩] }

theorem run_interleaved : (Machine.run LogStore.step .init interleaved).db = interleavedDB 1048576 := by
  have h : (Machine.run LogStore.step .init interleaved).db = interleavedDB (0 + (0 + (mebibyte.length : ℤ))) := rfl
  rw [h, mebibyte_length]
  rfl

theorem wellFormed_reachable (before : List Op) : WellFormed (Machine.run LogStore.step .init before).db := by
  have ha := run_accounts (g := Ledger.init) (accounts_empty _) before
  rw [Ledger.run_store] at ha
  exact ha.toWellFormed

/-- the phase starts when the per-container loop has looked at both groups -/
theorem interleaved_start :
    PhaseStart (Machine.run LogStore.step .init interleaved).db ⟨2, 1⟩
      (Sweep.next^[4] (.start ⟨2, 1⟩ (interleavedDB 1048576))) where
  wf := wellFormed_reachable interleaved
  reached := ⟨4, by rw [run_interleaved]⟩
  phase := by rfl

theorem oldest_first_interleaved :
    (∀ n, OldestFirst (Sweep.next^[4] (.start ⟨2, 1⟩ (interleavedDB 1048576)))
      (Sweep.next^[n] (Sweep.next^[4] (.start ⟨2, 1⟩ (interleavedDB 1048576))))) ↔
    ∀ n, NoneNewer (Sweep.next^[n] (Sweep.next^[4] (.start ⟨2, 1⟩ (interleavedDB 1048576)))) :=
  (oldest_first_iff _ _ _ interleaved_start).1

/-- **A newer line pays.** The store is two bytes over its cap. The round takes both from web, which holds the oldest
line; the second is newer than the line of db, which stays. -/
theorem newer_line_pays :
    ¬ ∀ (before : List Op) (limits : Limits) (s : Sweep) (n : ℕ),
      PhaseStart (Machine.run LogStore.step .init before).db limits s → (Sweep.next^[n] s).phase = .prune →
      OldestFirst s (Sweep.next^[n] s) := by
  intro hall
  have hend := hall interleaved ⟨2, 1⟩ _ 6 interleaved_start rfl
  have hleft : (Sweep.next^[6] (Sweep.next^[4] (.start ⟨2, 1⟩ (interleavedDB 1048576)))).db.lines =
      [⟨3, 2, ⟨2, .stdout, 0, mebibyte⟩, db⟩] := rfl
  have hle := hend ⟨3, 2, ⟨2, .stdout, 0, mebibyte⟩, db⟩ (by rw [hleft]; exact List.mem_singleton_self _)
    ⟨2, 1, ⟨3, .stdout, 0, [33]⟩, web⟩ (List.mem_cons_of_mem _ List.mem_cons_self) (by rw [hleft]; simp)
  revert hle
  decide

end LogDeck.Retention
