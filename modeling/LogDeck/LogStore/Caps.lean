/-
What one sweep leaves (`janitor.go`: `retain`, `oldestGroup`, `evictOldest`), when it runs alone: no purge and no database
error between its transactions.

The per-container loop evicts in chunks and keeps a running byte count. Each chunk is a prefix of the lines that its
container has left, oldest first, and no line of it goes unless the container was over its cap before (`victims_eq_take`).
Trimming is blind to such prefixes (`Trim.trim_drop`), so that what a container will be trimmed to does not change while
the loop runs (`Cut`).

The caps are what the configuration says; a cap under zero is met by an empty container only, as a cap of zero is.

Results:
- `trim_exact`: when the loop is over, every container has lost the shortest prefix that brings it to its cap;
- `total_within`: when the sweep is over, the store is within the total cap, unless the rounds ran out;
- `retention_minimal`: both, and that the sweep comes to an end.
-/
import LogDeck.Lib.Trim
import LogDeck.LogStore.OldestFirst

namespace LogDeck.Retention

open LogDeck.LogStore Trim

/-! ## The lines of a container -/

def lineBytes (l : LineRow) : ℤ := l.line.size

/-- the lines of every generation of a container, by (timestamp, rowid) -/
def containerLines (db : DB) (host name : String) : List LineRow :=
  oldestFirst db ((rowsOf db.containers host name).map fun c => c.id)

theorem lineBytes_nonneg (l : LineRow) : 0 ≤ lineBytes l := Int.natCast_nonneg _

theorem lineBytes_pos {l : LineRow} (h : l.line.raw ≠ []) : 0 < lineBytes l :=
  Int.natCast_pos.2 (List.length_pos_iff.2 h)

theorem mem_containerLines {db : DB} {host name : String} {l : LineRow} :
    l ∈ containerLines db host name ↔ l ∈ db.lines ∧ InGroup db host name l.ref := by
  rw [containerLines, mem_oldestFirst, inGroup_iff_mem]

theorem containerBytes_eq_weight (db : DB) (host name : String) :
    containerBytes db host name = weight lineBytes (containerLines db host name) := by
  have hfilter : db.lines.filter (fun l => decide (InGroup db host name l.ref)) =
      db.lines.filter fun l => decide (l.ref ∈ (rowsOf db.containers host name).map fun c => c.id) :=
    List.filter_congr fun l _ => by simp only [inGroup_iff_mem]
  rw [containerBytes, DB.bytesWhere, hfilter]
  exact ((List.perm_insertionSort Older _).map lineBytes).sum_eq.symm

/-- the rows of a container keep their ids when lines are evicted -/
theorem rowsOf_evictRows (db : DB) (vs : List LineRow) (host name : String) :
    ((rowsOf (db.evictRows vs).containers host name).map fun c => c.id) =
      (rowsOf db.containers host name).map fun c => c.id := by
  have hrows (cs : List ContainerRow) : ((rowsOf cs host name).map fun c => c.id) =
      ((cs.map fun c => (c.id, c.key.host, c.name)).filter fun r => r.2.1 = host ∧ r.2.2 = name).map fun r => r.1 := by
    rw [rowsOf, List.filter_map, List.map_map]
    rfl
  rw [hrows, hrows, evictRows_map _ fun _ _ => rfl]

/-! ## One eviction -/

section Evict

variable {db : DB} {refs : List ℕ} {excess : ℤ}

/-- the scan takes a prefix, and no line of it when the lines before it suffice -/
theorem scanVictims_eq_take {freed : ℤ} (hlt : freed < excess) (ls : List LineRow) :
    ∃ m, scanVictims excess freed ls = ls.take m ∧ ∀ k < m, freed + weight lineBytes (ls.take k) < excess := by
  induction ls generalizing freed with
  | nil => exact ⟨0, rfl, fun k hk => absurd hk k.not_lt_zero⟩
  | cons l ls ih =>
    rw [scanVictims]
    split_ifs with hfull
    · refine ⟨1, by simp, fun k hk => ?_⟩
      obtain rfl : k = 0 := by omega
      simpa using hlt
    · obtain ⟨m, e, hm⟩ := ih (lt_of_not_ge hfull)
      refine ⟨m + 1, by rw [e, List.take_succ_cons], fun k hk => ?_⟩
      cases k with
      | zero => simpa using hlt
      | succ k =>
        have hk' := hm k (Nat.lt_of_succ_lt_succ hk)
        rw [List.take_succ_cons, weight_cons]
        unfold lineBytes at hk' ⊢
        omega

/-- **Which lines an eviction takes**: a prefix, and no line of it when the lines before it free the excess. -/
theorem victims_eq_take (db : DB) (refs : List ℕ) (hpos : 0 < excess) :
    ∃ m, victims db refs excess = (oldestFirst db refs).take m ∧
      ∀ k < m, weight lineBytes ((oldestFirst db refs).take k) < excess := by
  obtain ⟨m, e, hm⟩ := scanVictims_eq_take hpos ((oldestFirst db refs).take deleteChunk)
  refine ⟨min m deleteChunk, by rw [victims, e, List.take_take], fun k hk => ?_⟩
  have hk' := hm k (lt_of_lt_of_le hk (min_le_left _ _))
  rwa [zero_add, List.take_take, min_eq_left (le_of_lt (lt_of_lt_of_le hk (min_le_right _ _)))] at hk'

/-- two lines of a store are ordered one way only -/
theorem eq_of_older (h : WellFormed db) {a b : LineRow} (ha : a ∈ db.lines) (hb : b ∈ db.lines) (hab : Older a b)
    (hba : Older b a) : a = b := by
  apply h.line_eq_of_rowid ha hb
  unfold Older at hab hba
  omega

theorem oldestFirst_evictRows (h : WellFormed db) (vs : List LineRow) :
    oldestFirst (db.evictRows vs) refs =
      (oldestFirst db refs).filter fun l => l.rowid ∉ vs.map fun v => v.rowid := by
  have hperm : (oldestFirst (db.evictRows vs) refs).Perm
      ((oldestFirst db refs).filter fun l => l.rowid ∉ vs.map fun v => v.rowid) := by
    refine (List.perm_insertionSort Older _).trans ?_
    refine List.Perm.trans ?_ ((List.perm_insertionSort Older _).symm.filter _)
    rw [DB.evictRows, List.filter_filter, List.filter_filter]
    exact List.Perm.of_eq (List.filter_congr fun l _ => Bool.and_comm _ _)
  refine hperm.eq_of_pairwise (fun a b ha hb => ?_) (oldestFirst_sorted _ _)
    ((oldestFirst_sorted db refs).filter _)
  have ha' := (mem_oldestFirst.1 (List.mem_of_mem_filter (hperm.subset ha))).1
  exact eq_of_older h ha' (mem_oldestFirst.1 (List.mem_of_mem_filter hb)).1

/-- the eviction of a prefix leaves the rest -/
theorem oldestFirst_evict (h : WellFormed db) {m : ℕ} (hm : victims db refs excess = (oldestFirst db refs).take m) :
    oldestFirst (evictOldest db refs excess).1 refs = (oldestFirst db refs).drop m := by
  have hnd : ((oldestFirst db refs).map fun l => l.rowid).Nodup :=
    (((List.perm_insertionSort Older _).map _).nodup_iff).2 (h.rowids.sublist (List.filter_sublist.map _))
  rw [evictOldest_db, oldestFirst_evictRows h, hm]
  generalize oldestFirst db refs = ls at hnd
  rw [← List.take_append_drop m ls, List.map_append, List.nodup_append] at hnd
  obtain ⟨-, -, hdis⟩ := hnd
  have hnone : (ls.take m).filter (fun l => l.rowid ∉ (ls.take m).map fun v => v.rowid) = [] := by
    simp only [List.filter_eq_nil_iff, decide_eq_true_eq, not_not]
    exact fun l hl => List.mem_map_of_mem hl
  have hall : (ls.drop m).filter (fun l => l.rowid ∉ (ls.take m).map fun v => v.rowid) = ls.drop m := by
    simp only [List.filter_eq_self, decide_eq_true_eq]
    exact fun l hl hmem => hdis _ hmem _ (List.mem_map_of_mem hl) rfl
  calc ls.filter (fun l => l.rowid ∉ (ls.take m).map fun v => v.rowid)
      = (ls.take m ++ ls.drop m).filter (fun l => l.rowid ∉ (ls.take m).map fun v => v.rowid) := by
        rw [List.take_append_drop]
    _ = ls.drop m := by rw [List.filter_append, hnone, hall, List.nil_append]

/-- rows that no victim belongs to keep their lines -/
theorem oldestFirst_evict_other (h : WellFormed db) {refs' : List ℕ} (hout : ∀ l ∈ db.lines, l.ref ∈ refs → l.ref ∉ refs') :
    oldestFirst (evictOldest db refs excess).1 refs' = oldestFirst db refs' := by
  rw [evictOldest_db, oldestFirst_evictRows h]
  simp only [List.filter_eq_self, decide_eq_true_eq]
  intro l hl hmem
  obtain ⟨v, hv, e⟩ := List.mem_map.1 hmem
  obtain ⟨hl, hr⟩ := mem_oldestFirst.1 hl
  obtain ⟨hvl, hvr⟩ := mem_victims hv
  obtain rfl := h.line_eq_of_rowid hvl hl e
  exact hout v hvl hvr hr

end Evict

/-! ## The groups of a sweep -/

/-- the groups of a sweep that runs alone, with exact counters -/
structure Tally (db : DB) (groups : List LogicalGroup) : Prop where
  wf : WellFormed db
  raw : ∀ l ∈ db.lines, l.line.raw ≠ []
  names : (groups.map fun g => (g.host, g.name)).Nodup
  covered : ∀ c ∈ db.containers, (c.key.host, c.name) ∈ groups.map fun g => (g.host, g.name)
  refs : ∀ g ∈ groups, g.refs = (rowsOf db.containers g.host g.name).map fun c => c.id
  bytes : ∀ g ∈ groups, g.bytes = weight lineBytes (containerLines db g.host g.name)

theorem tally_load {db : DB} (h : Exact db) (hraw : ∀ l ∈ db.lines, l.line.raw ≠ []) : Tally db (loadGroups db) := by
  have hg := loadGroups_groups db
  refine ⟨h.toWellFormed, hraw, hg.names, hg.covered, hg.refs, fun g hmem => ?_⟩
  rw [hg.bytes g hmem, ← containerBytes_eq h, containerBytes_eq_weight]

section Tally

variable {db : DB} {groups : List LogicalGroup} {k : ℕ} {g : LogicalGroup}

theorem Tally.lines (h : Tally db groups) (hg : g ∈ groups) :
    oldestFirst db g.refs = containerLines db g.host g.name := by rw [h.refs g hg, containerLines]

theorem Tally.selects (h : Tally db groups) : Selects db groups := by
  intro g hg l _
  rw [h.refs g hg, inGroup_iff_mem]

/-- a group without bytes has no line -/
theorem Tally.lines_eq_nil (h : Tally db groups) (hg : g ∈ groups) (h0 : g.bytes ≤ 0) :
    containerLines db g.host g.name = [] := by
  have hbytes := h.bytes g hg
  cases hls : containerLines db g.host g.name with
  | nil => rfl
  | cons l ls =>
    have hl : l ∈ db.lines := (mem_containerLines.1 (hls ▸ List.mem_cons_self)).1
    have hpos := lineBytes_pos (h.raw l hl)
    have hrest : 0 ≤ weight lineBytes ls := weight_nonneg fun l _ => lineBytes_nonneg l
    rw [hls, weight_cons] at hbytes
    omega

/-- every line is in a group -/
theorem Tally.lines_nil (h : Tally db groups) (hempty : ∀ g ∈ groups, containerLines db g.host g.name = []) :
    db.lines = [] := by
  rw [List.eq_nil_iff_forall_not_mem]
  intro l hl
  obtain ⟨c, hc, e⟩ := h.wf.fk l hl
  obtain ⟨g, hg, eg⟩ := List.mem_map.1 (h.covered c hc)
  simp only [Prod.mk.injEq] at eg
  have hin : l ∈ containerLines db g.host g.name := mem_containerLines.2 ⟨hl, c, hc, e, eg.1.symm, eg.2.symm⟩
  rw [hempty g hg] at hin
  cases hin

/-- an eviction frees nothing only when there is nothing to free -/
theorem Tally.evicted_eq_zero (h : Tally db groups) (hg : g ∈ groups) {excess : ℤ}
    (h0 : (evictOldest db g.refs excess).2 = 0) : containerLines db g.host g.name = [] := by
  have hnone : victims db g.refs excess = [] := by
    cases hvs : victims db g.refs excess with
    | nil => rfl
    | cons v vs =>
      have hv : v ∈ db.lines := (mem_victims (hvs ▸ List.mem_cons_self)).1
      have hpos := lineBytes_pos (h.raw v hv)
      have hrest : 0 ≤ weight lineBytes vs := weight_nonneg fun l _ => lineBytes_nonneg l
      have hfreed : (evictOldest db g.refs excess).2 = lineBytes v + weight lineBytes vs := by
        rw [evictOldest, hvs]
        exact freedBytes_cons v vs
      omega
  rw [← h.lines hg, List.eq_nil_iff_forall_not_mem]
  intro l hl
  obtain ⟨hl, hr⟩ := mem_oldestFirst.1 hl
  exact victims_eq_nil.1 hnone l hl hr

/-- **One eviction.** The container of the group loses a prefix of its lines, and the other containers lose nothing. -/
theorem Tally.evict_lines (h : Tally db groups) (hk : groups[k]? = some g) {excess : ℤ} (hpos : 0 < excess) :
    (∃ m, containerLines (evictOldest db g.refs excess).1 g.host g.name = (containerLines db g.host g.name).drop m ∧
      (evictOldest db g.refs excess).2 = weight lineBytes ((containerLines db g.host g.name).take m) ∧
      ∀ j < m, weight lineBytes ((containerLines db g.host g.name).take j) < excess) ∧
    ∀ host name, (host, name) ≠ (g.host, g.name) →
      containerLines (evictOldest db g.refs excess).1 host name = containerLines db host name := by
  have hg := List.mem_of_getElem? hk
  refine ⟨?_, fun host name hne => ?_⟩
  · obtain ⟨m, hm, hlt⟩ := victims_eq_take db g.refs hpos
    refine ⟨m, ?_, ?_, ?_⟩
    · rw [containerLines, evictOldest_db, rowsOf_evictRows, ← h.refs g hg, ← evictOldest_db,
        oldestFirst_evict h.wf hm, h.lines hg]
    · rw [← h.lines hg, ← hm]
      rfl
    · rw [← h.lines hg]
      exact hlt
  · rw [containerLines, evictOldest_db, rowsOf_evictRows, ← evictOldest_db]
    refine oldestFirst_evict_other h.wf fun l hl hr hr' => hne ?_
    have hin := (h.selects g hg l hl).1 hr
    exact ((inGroup_iff_mem db host name l.ref).2 hr').unique h.wf hin

theorem Tally.evict (h : Tally db groups) (hk : groups[k]? = some g) {excess : ℤ} (hpos : 0 < excess) :
    Tally (evictOldest db g.refs excess).1
      (groups.set k { g with bytes := g.bytes - (evictOldest db g.refs excess).2 }) := by
  have hg := List.mem_of_getElem? hk
  obtain ⟨⟨m, hlines, hfreed, -⟩, hother⟩ := h.evict_lines hk hpos
  have hshrink : Shrink db (evictOldest db g.refs excess).1 :=
    .evict _ _ (fun l hl => (mem_victims hl).1) (victims_nodup h.wf.nodup _ _)
  refine ⟨hshrink.wellFormed h.wf, fun l hl => h.raw l (hshrink.lines_subset hl), names_set hk h.names _, fun c hc => ?_,
    fun g' hg' => ?_, fun g' hg' => ?_⟩
  · have hkept : (c.key.host, c.name) ∈ db.containers.map fun c => (c.key.host, c.name) := by
      rw [← evictRows_map (fun c => (c.key.host, c.name)) (fun _ _ => rfl) db (victims db g.refs excess)]
      exact List.mem_map_of_mem hc
    obtain ⟨c₀, hc₀, e⟩ := List.mem_map.1 hkept
    obtain ⟨g', hg', e'⟩ := List.mem_map.1 (h.covered c₀ hc₀)
    obtain ⟨hsplit, hset⟩ := set_split hk { g with bytes := g.bytes - (evictOldest db g.refs excess).2 }
    rw [← e, ← e', hset]
    rw [hsplit] at hg'
    simp only [List.map_append, List.map_cons, List.mem_append, List.mem_cons, List.mem_map] at hg' ⊢
    rcases hg' with hg' | rfl | hg'
    · exact Or.inl ⟨g', hg', rfl⟩
    · exact Or.inr (Or.inl rfl)
    · exact Or.inr (Or.inr ⟨g', hg', rfl⟩)
  · rw [evictOldest_db, rowsOf_evictRows]
    rcases List.mem_or_eq_of_mem_set hg' with hg' | rfl
    · exact h.refs g' hg'
    · exact h.refs g hg
  · rcases mem_set_names hk h.names hg' with rfl | ⟨hg', hne⟩
    · have hsum := weight_take_drop (w := lineBytes) m (containerLines db g.host g.name)
      have hbytes := h.bytes g hg
      dsimp only
      rw [hlines, hfreed]
      omega
    · rw [hother _ _ hne]
      exact h.bytes g' hg'

end Tally

/-! ## The per-container loop -/

/-- a container will be trimmed to what it would have been trimmed to at the start -/
def Cut (cap : ℤ) (db₀ db : DB) : Prop :=
  ∀ host name, trim lineBytes cap (containerLines db host name) = trim lineBytes cap (containerLines db₀ host name)

/-- what a container has lost is the shortest prefix that brings it to the cap, and nothing when it was within it -/
structure Trimmed (cap : ℤ) (before after : List LineRow) : Prop where
  shortest : ∃ n, after = before.drop n ∧ Shortest lineBytes (max cap 0) before n
  untouched : freedBytes before ≤ cap → after = before

/-- the loop is at group i, and the containers of the groups before it are trimmed -/
structure Trimming (db₀ : DB) (limits : Limits) (i : ℕ) (s : Sweep) : Prop where
  caps : s.limits = limits
  phase : s.phase = .trim i
  index : i ≤ s.groups.length
  tally : Tally s.db s.groups
  cut : Cut limits.perCap db₀ s.db
  before : ∀ j < i, ∀ g, s.groups[j]? = some g →
    trim lineBytes limits.perCap (containerLines s.db g.host g.name) = containerLines s.db g.host g.name
  balance : s.total + ((s.groups.drop i).map fun g => g.bytes).sum = bytesStored s.db

/-- the total-cap loop starts: every container is trimmed, and the total is the bytes stored -/
structure Ready (db₀ : DB) (limits : Limits) (s : Sweep) : Prop where
  caps : s.limits = limits
  phase : s.phase = .round 0
  tally : Tally s.db s.groups
  trimmed : ∀ host name, containerLines s.db host name = trim lineBytes limits.perCap (containerLines db₀ host name)
  balance : s.total = bytesStored s.db

theorem trimming_load {db : DB} (limits : Limits) (h : Exact db) (hraw : ∀ l ∈ db.lines, l.line.raw ≠ []) :
    Trimming db limits 0 (Sweep.start limits db).next := by
  refine ⟨rfl, rfl, Nat.zero_le _, tally_load h hraw, fun _ _ => rfl, fun j hj => absurd hj j.not_lt_zero, ?_⟩
  have htotal : ((loadGroups db).map fun g => g.bytes).sum = bytesStored db := by
    rw [(loadGroups_groups db).total, bytesStored_eq h]
  rw [List.drop_zero]
  exact (zero_add _).trans htotal

section Trimming

variable {db₀ : DB} {limits : Limits} {i : ℕ} {s : Sweep}

/-- a group within its cap is done with -/
theorem Trimming.pass (h : Trimming db₀ limits i s) {g : LogicalGroup} (hi : s.groups[i]? = some g)
    (hdone : trim lineBytes limits.perCap (containerLines s.db g.host g.name) = containerLines s.db g.host g.name) :
    Trimming db₀ limits (i + 1) { s with total := s.total + g.bytes, phase := .trim (i + 1) } := by
  refine ⟨h.caps, rfl, (List.getElem?_eq_some_iff.1 hi).1, h.tally, h.cut, fun j hj g' hg' => ?_, ?_⟩
  · by_cases e : j = i
    · subst e
      rw [hi] at hg'
      obtain rfl := Option.some.inj hg'
      exact hdone
    · exact h.before j (by omega) g' hg'
  · have hbalance := h.balance
    have hsum := sum_drop hi
    dsimp only
    omega

/-- an eviction that frees something -/
theorem Trimming.evict (h : Trimming db₀ limits i s) {g : LogicalGroup} (hi : s.groups[i]? = some g)
    (hover : limits.perCap < g.bytes) :
    Trimming db₀ limits i
      { s with db := (evictOldest s.db g.refs (g.bytes - limits.perCap)).1
               groups := s.groups.set i
                { g with bytes := g.bytes - (evictOldest s.db g.refs (g.bytes - limits.perCap)).2 } } := by
  have hg := List.mem_of_getElem? hi
  have hpos : 0 < g.bytes - limits.perCap := by omega
  obtain ⟨⟨m, hlines, -, hlt⟩, hother⟩ := h.tally.evict_lines hi hpos
  refine ⟨h.caps, h.phase, by simpa using h.index, h.tally.evict hi hpos, fun host name => ?_, fun j hj g' hg' => ?_, ?_⟩
  · by_cases e : (host, name) = (g.host, g.name)
    · obtain ⟨rfl, rfl⟩ := Prod.mk.inj e
      -- the container was over its cap before each line that goes
      have hbytes := h.tally.bytes g hg
      have hsteps : ∀ k < m, limits.perCap < weight lineBytes ((containerLines s.db g.host g.name).drop k) := by
        intro k hk
        have hsum := weight_take_drop (w := lineBytes) k (containerLines s.db g.host g.name)
        have hk' := hlt k hk
        omega
      dsimp only
      rw [hlines, trim_drop hsteps]
      exact h.cut g.host g.name
    · dsimp only
      rw [hother host name e]
      exact h.cut host name
  · have hne : i ≠ j := by omega
    rw [List.getElem?_set_ne hne] at hg'
    have hnames : (g'.host, g'.name) ≠ (g.host, g.name) := by
      intro e
      have hj' : (s.groups.map fun g => (g.host, g.name))[j]? = some (g'.host, g'.name) := by
        rw [List.getElem?_map, hg']
        rfl
      have hi' : (s.groups.map fun g => (g.host, g.name))[i]? = some (g'.host, g'.name) := by
        rw [List.getElem?_map, hi, e]
        rfl
      have hlt : i < (s.groups.map fun g => (g.host, g.name)).length := (List.getElem?_eq_some_iff.1 hi').1
      exact hne ((List.getElem?_inj hlt h.tally.names).1 (hi'.trans hj'.symm))
    dsimp only
    rw [hother _ _ hnames]
    exact h.before j hj g' hg'
  · have hbalance := h.balance
    have hstored := bytesStored_evict h.tally.wf g.refs (g.bytes - limits.perCap)
    have hsum := sum_drop hi
    have hsum' := sum_drop_set hi (g.bytes - (evictOldest s.db g.refs (g.bytes - limits.perCap)).2)
    dsimp only
    omega

/-- the end of the loop -/
theorem Trimming.finish (h : Trimming db₀ limits i s) (hi : s.groups[i]? = none) :
    Ready db₀ limits { s with phase := .round 0 } := by
  have hlen : s.groups.length ≤ i := List.getElem?_eq_none_iff.1 hi
  refine ⟨h.caps, rfl, h.tally, fun host name => ?_, ?_⟩
  · rw [← h.cut host name]
    by_cases hmem : (host, name) ∈ s.groups.map fun g => (g.host, g.name)
    · obtain ⟨g, hg, e⟩ := List.mem_map.1 hmem
      obtain ⟨rfl, rfl⟩ := Prod.mk.inj e
      obtain ⟨j, hj, e⟩ := List.mem_iff_getElem.1 hg
      exact (h.before j (by omega) g (List.getElem?_eq_some_iff.2 ⟨hj, e⟩)).symm
    · -- a container without rows has no lines
      have hnone : containerLines s.db host name = [] := by
        rw [List.eq_nil_iff_forall_not_mem]
        intro l hl
        obtain ⟨c, hc, -, rfl, rfl⟩ := (mem_containerLines.1 hl).2
        exact hmem (h.tally.covered c hc)
      dsimp only
      rw [hnone]
      rfl
  · have hbalance := h.balance
    rw [List.drop_eq_nil_of_le hlen] at hbalance
    simpa using hbalance

/-- an eviction that frees something leaves fewer lines -/
theorem evict_fewer {db : DB} {refs : List ℕ} {excess : ℤ} (h : (evictOldest db refs excess).2 ≠ 0) :
    (evictOldest db refs excess).1.lines.length < db.lines.length := by
  obtain ⟨v, hv⟩ : ∃ v, v ∈ victims db refs excess := by
    apply List.exists_mem_of_ne_nil
    intro hnil
    exact h (by rw [evictOldest, hnil]; rfl)
  refine List.length_filter_lt_length_iff_exists.2 ⟨v, (mem_victims hv).1, ?_⟩
  simpa using ⟨v, hv, rfl⟩

/-- lines that can still be evicted, and groups to look at -/
def trimVariant (s : Sweep) : ℕ :=
  s.db.lines.length +
    match s.phase with
    | .trim i => s.groups.length + 1 - i
    | _ => 0

/-- **One turn of the loop.** -/
theorem Trimming.next (h : Trimming db₀ limits i s) :
    ((∃ i', Trimming db₀ limits i' s.next) ∨ Ready db₀ limits s.next) ∧ trimVariant s.next < trimVariant s := by
  obtain rfl := h.caps
  have hindex := h.index
  have hnext : s.next = s.trimStep i := by rw [Sweep.next, h.phase]
  rw [hnext, trimVariant, trimVariant, h.phase]
  unfold Sweep.trimStep
  cases hi : s.groups[i]? with
  | none => exact ⟨Or.inr (h.finish hi), by dsimp only; omega⟩
  | some g =>
    have hg := List.mem_of_getElem? hi
    have hlt : i < s.groups.length := (List.getElem?_eq_some_iff.1 hi).1
    dsimp only
    split_ifs with hover hfreed
    · -- nothing is left to evict
      have hnil := h.tally.evicted_eq_zero hg hfreed
      have hself : s.groups.set i { g with bytes := g.bytes - (evictOldest s.db g.refs (g.bytes - s.limits.perCap)).2 } =
          s.groups := by
        rw [hfreed, sub_zero]
        obtain ⟨hlt, rfl⟩ := List.getElem?_eq_some_iff.1 hi
        exact List.set_getElem_self hlt
      have hevict := h.evict hi hover
      rw [hself] at hevict
      have hlines : containerLines (evictOldest s.db g.refs (g.bytes - s.limits.perCap)).1 g.host g.name = [] := by
        have hpos : 0 < g.bytes - s.limits.perCap := by omega
        obtain ⟨⟨m, hm, -⟩, -⟩ := h.tally.evict_lines hi hpos
        rw [hm, hnil, List.drop_nil]
      refine ⟨Or.inl ⟨i + 1, hevict.pass hi ?_⟩, ?_⟩
      · dsimp only
        rw [hlines]
        rfl
      · have hle : (evictOldest s.db g.refs (g.bytes - s.limits.perCap)).1.lines.length ≤ s.db.lines.length :=
          List.length_filter_le _ _
        dsimp only
        omega
    · refine ⟨Or.inl ⟨i, h.evict hi hover⟩, ?_⟩
      have hfewer := evict_fewer hfreed
      dsimp only
      rw [h.phase, List.length_set]
      dsimp only
      omega
    · refine ⟨Or.inl ⟨i + 1, h.pass hi (trim_of_le ?_)⟩, by dsimp only; omega⟩
      rw [← h.tally.bytes g hg]
      exact not_lt.1 hover

end Trimming

/-- **The per-container loop** comes to an end, with every container trimmed. -/
theorem trim_exact {db : DB} (limits : Limits) (h : Exact db) (hraw : ∀ l ∈ db.lines, l.line.raw ≠ []) :
    ∃ n, Ready db limits (Sweep.next^[n] (.start limits db)) := by
  have hstep : ∀ s, ((∃ i, Trimming db limits i s) ∨ Ready db limits s) → ¬ Ready db limits s →
      ((∃ i, Trimming db limits i s.next) ∨ Ready db limits s.next) ∧ trimVariant s.next < trimVariant s := by
    intro s hs hnot
    obtain ⟨i, hi⟩ := hs.resolve_right hnot
    exact hi.next
  obtain ⟨n, -, hready⟩ := Machine.reaches_of_variant trimVariant hstep (Or.inl ⟨0, trimming_load limits h hraw⟩)
  exact ⟨n + 1, hready⟩

theorem trimmed_of_trim {cap : ℤ} {ls : List LineRow} (hraw : ∀ l ∈ ls, l.line.raw ≠ []) :
    Trimmed cap ls (trim lineBytes cap ls) := by
  refine ⟨?_, fun hle => trim_of_le hle⟩
  rw [← trim_max cap fun l hl => lineBytes_pos (hraw l hl)]
  exact shortest_trim (le_max_right cap 0) ls

/-! ## The total-cap loop -/

/-- the loop stops at its bound, with the total over the cap -/
def Exhausted (s : Sweep) : Prop := ∃ r, s.phase = .round r ∧ maxTrimRounds ≤ r ∧ s.limits.totalCap < s.total

/-- what `oldestGroup` has found in the groups before i -/
def Found (db : DB) (groups : List LogicalGroup) (i : ℕ) : Option (ℕ × ℤ) → Prop
  | none => ∀ j < i, ∀ g, groups[j]? = some g → containerLines db g.host g.name = []
  | some (k, _) => ∃ g, groups[k]? = some g ∧ containerLines db g.host g.name ≠ []

/-- the total is the bytes stored -/
structure Balanced (db : DB) (groups : List LogicalGroup) (total : ℤ) : Prop where
  tally : Tally db groups
  balance : total = bytesStored db

/-- the loop, whose rounds have run out only if `out` -/
def Capping (limits : Limits) (out : Prop) (s : Sweep) : Prop :=
  s.limits = limits ∧
    match s.phase with
    | .round _ => Balanced s.db s.groups s.total
    | .scan r i best =>
      Balanced s.db s.groups s.total ∧ r < maxTrimRounds ∧ limits.totalCap < s.total ∧ Found s.db s.groups i best
    | .evict r k =>
      Balanced s.db s.groups s.total ∧ r < maxTrimRounds ∧ limits.totalCap < s.total ∧ Found s.db s.groups 0 (some (k, 0))
    | .prune | .done => bytesStored s.db ≤ max limits.totalCap 0 ∨ out
    | _ => False

/-- the transactions that the loop may still make -/
def capVariant (s : Sweep) : ℕ :=
  match s.phase with
  | .round r => (maxTrimRounds - r) * (s.groups.length + 3) + 2
  | .scan r i _ => (maxTrimRounds - (r + 1)) * (s.groups.length + 3) + (s.groups.length - i) + 4
  | .evict r _ => (maxTrimRounds - (r + 1)) * (s.groups.length + 3) + 3
  | .prune => 1
  | _ => 0

section Capping

variable {limits : Limits} {out : Prop} {s : Sweep}

theorem capping_round (h : Capping limits out s) (hout : Exhausted s → out) {r : ℕ} (hp : s.phase = .round r) :
    Capping limits out s.next ∧ capVariant s.next < capVariant s := by
  obtain ⟨rfl, hbal⟩ := h
  rw [hp] at hbal
  dsimp only at hbal
  rw [Sweep.next, capVariant, capVariant, hp]
  dsimp only
  split_ifs with hover
  · have hrounds : maxTrimRounds - r = maxTrimRounds - (r + 1) + 1 := by omega
    refine ⟨⟨rfl, hbal, hover.2, hover.1, fun j hj => absurd hj j.not_lt_zero⟩, ?_⟩
    rw [hrounds, Nat.succ_mul]
    dsimp only
    omega
  · refine ⟨⟨rfl, ?_⟩, by dsimp only; omega⟩
    dsimp only
    rw [← hbal.balance]
    by_cases htotal : s.total ≤ s.limits.totalCap
    · exact Or.inl (htotal.trans (le_max_left _ _))
    · exact Or.inr (hout ⟨r, hp, by omega, by omega⟩)

theorem capping_scan (h : Capping limits out s) {r i : ℕ} {best : Option (ℕ × ℤ)} (hp : s.phase = .scan r i best) :
    Capping limits out s.next ∧ capVariant s.next < capVariant s := by
  obtain ⟨rfl, hscan⟩ := h
  rw [hp] at hscan
  obtain ⟨hbal, hr, hover, hfound⟩ := hscan
  rw [Sweep.next, capVariant, capVariant, hp]
  dsimp only
  unfold Sweep.scanStep
  cases hi : s.groups[i]? with
  | none =>
    have hlen : s.groups.length ≤ i := List.getElem?_eq_none_iff.1 hi
    cases best with
    | none =>
      -- no group has a line
      have hempty : s.db.lines = [] := by
        refine hbal.tally.lines_nil fun g hg => ?_
        obtain ⟨j, hj, e⟩ := List.mem_iff_getElem.1 hg
        exact hfound j (by omega) g (List.getElem?_eq_some_iff.2 ⟨hj, e⟩)
      have hzero : bytesStored s.db = 0 := by simp [bytesStored, DB.bytesWhere, hempty]
      refine ⟨⟨rfl, Or.inl ?_⟩, by dsimp only; omega⟩
      dsimp only
      rw [hzero]
      exact le_max_right _ _
    | some b => exact ⟨⟨rfl, hbal, hr, hover, hfound⟩, by dsimp only; omega⟩
  | some g =>
    have hg := List.mem_of_getElem? hi
    have hlt : i < s.groups.length := (List.getElem?_eq_some_iff.1 hi).1
    -- a group without lines is passed over
    have hpass (hnil : containerLines s.db g.host g.name = []) : Found s.db s.groups (i + 1) best := by
      cases best with
      | some b => exact hfound
      | none =>
        intro j hj g' hg'
        by_cases e : j = i
        · subst e
          rw [hi] at hg'
          obtain rfl := Option.some.inj hg'
          exact hnil
        · exact hfound j (by omega) g' hg'
    dsimp only
    split_ifs with h0
    · exact ⟨⟨rfl, hbal, hr, hover, hpass (hbal.tally.lines_eq_nil hg h0)⟩, by dsimp only; omega⟩
    · cases hold : oldestLine s.db g.refs with
      | none =>
        have hnil : containerLines s.db g.host g.name = [] := by
          rw [oldestLine, List.min?_eq_none_iff, List.map_eq_nil_iff] at hold
          rw [← hbal.tally.lines hg, oldestFirst, hold]
          rfl
        exact ⟨⟨rfl, hbal, hr, hover, hpass hnil⟩, by dsimp only; omega⟩
      | some ts =>
        have hsome : containerLines s.db g.host g.name ≠ [] := by
          intro hnil
          have hbytes := hbal.tally.bytes g hg
          rw [hnil, weight_nil] at hbytes
          omega
        refine ⟨⟨rfl, hbal, hr, hover, ?_⟩, by dsimp only; omega⟩
        cases best with
        | none => exact ⟨g, hi, hsome⟩
        | some b =>
          dsimp only [better]
          split_ifs
          · exact ⟨g, hi, hsome⟩
          · exact hfound

theorem capping_evict (h : Capping limits out s) {r k : ℕ} (hp : s.phase = .evict r k) :
    Capping limits out s.next ∧ capVariant s.next < capVariant s := by
  obtain ⟨rfl, hevict⟩ := h
  rw [hp] at hevict
  obtain ⟨hbal, hr, hover, g, hk, hsome⟩ := hevict
  have hfreed : (evictOldest s.db g.refs (s.total - s.limits.totalCap)).2 ≠ 0 :=
    fun h0 => hsome (hbal.tally.evicted_eq_zero (List.mem_of_getElem? hk) h0)
  have hpos : 0 < s.total - s.limits.totalCap := by omega
  have hstored := bytesStored_evict hbal.tally.wf g.refs (s.total - s.limits.totalCap)
  have hbalance := hbal.balance
  rw [Sweep.next, capVariant, capVariant, hp]
  dsimp only
  unfold Sweep.evictStep
  rw [hk]
  dsimp only
  rw [if_neg hfreed]
  refine ⟨⟨rfl, hbal.tally.evict hk hpos, ?_⟩, ?_⟩
  · dsimp only
    omega
  · dsimp only
    rw [List.length_set]
    omega

/-- **One transaction of the total-cap loop**, or of the prune after it. -/
theorem capping_next (h : Capping limits out s) (hout : Exhausted s → out) (hnot : s.phase ≠ .done) :
    Capping limits out s.next ∧ capVariant s.next < capVariant s := by
  cases hp : s.phase with
  | round r => exact capping_round h hout hp
  | scan r i best => exact capping_scan h hp
  | evict r k => exact capping_evict h hp
  | prune =>
    obtain ⟨rfl, hwithin⟩ := h
    rw [hp] at hwithin
    rw [Sweep.next, capVariant, capVariant, hp]
    exact ⟨⟨rfl, hwithin⟩, Nat.one_pos⟩
  | done => exact absurd hp hnot
  | load =>
    have hfalse := h.2
    rw [hp] at hfalse
    exact hfalse.elim
  | trim i =>
    have hfalse := h.2
    rw [hp] at hfalse
    exact hfalse.elim

end Capping

/-- **The sweep** comes to an end, with the store within the total cap, unless its rounds ran out. -/
theorem total_within {db : DB} (limits : Limits) (h : Exact db) (hraw : ∀ l ∈ db.lines, l.line.raw ≠ []) :
    ∃ n, (Sweep.next^[n] (.start limits db)).phase = .done ∧
      (bytesStored (Sweep.next^[n] (.start limits db)).db ≤ max limits.totalCap 0 ∨
        ∃ m, Exhausted (Sweep.next^[m] (.start limits db))) := by
  obtain ⟨n, hready⟩ := trim_exact limits h hraw
  have hstart : Capping limits (∃ m, Exhausted (Sweep.next^[m] (.start limits db))) (Sweep.next^[n] (.start limits db)) := by
    refine ⟨hready.caps, ?_⟩
    rw [hready.phase]
    exact ⟨hready.tally, hready.balance⟩
  have hstep : ∀ s, (Capping limits (∃ m, Exhausted (Sweep.next^[m] (.start limits db))) s ∧
      ∃ m, s = Sweep.next^[m] (.start limits db)) → ¬ s.phase = .done →
      (Capping limits (∃ m, Exhausted (Sweep.next^[m] (.start limits db))) s.next ∧
        ∃ m, s.next = Sweep.next^[m] (.start limits db)) ∧ capVariant s.next < capVariant s := by
    intro s hs hnot
    obtain ⟨hcap, m, e⟩ := hs
    obtain ⟨hnext, hvariant⟩ := capping_next hcap (fun hex => ⟨m, e ▸ hex⟩) hnot
    exact ⟨⟨hnext, m + 1, by rw [Function.iterate_succ_apply', e]⟩, hvariant⟩
  obtain ⟨j, ⟨hcap, m, e⟩, hdone⟩ := Machine.reaches_of_variant capVariant hstep ⟨hstart, n, rfl⟩
  refine ⟨m, e ▸ hdone, ?_⟩
  have hwithin := hcap.2
  rw [hdone] at hwithin
  rw [← e]
  exact hwithin

/-- **Retention is minimal and sufficient.** From every store with exact `stored_bytes` and without empty lines, for all
caps: the per-container loop comes to an end, and every container has then lost the shortest prefix of its lines, by
(timestamp, rowid), that brings it to its cap; and the sweep comes to an end, with the store within the total cap unless
the rounds ran out. -/
theorem retention_minimal {db : DB} (limits : Limits) (h : Exact db) (hraw : ∀ l ∈ db.lines, l.line.raw ≠ []) :
    (∃ n, (Sweep.next^[n] (.start limits db)).phase = .round 0 ∧
      ∀ host name, Trimmed limits.perCap (containerLines db host name)
        (containerLines (Sweep.next^[n] (.start limits db)).db host name)) ∧
    ∃ n, (Sweep.next^[n] (.start limits db)).phase = .done ∧
      ((∀ m, ¬ Exhausted (Sweep.next^[m] (.start limits db))) →
        bytesStored (Sweep.next^[n] (.start limits db)).db ≤ max limits.totalCap 0) := by
  constructor
  · obtain ⟨n, hready⟩ := trim_exact limits h hraw
    refine ⟨n, hready.phase, fun host name => ?_⟩
    rw [hready.trimmed host name]
    exact trimmed_of_trim fun l hl => hraw l (mem_containerLines.1 hl).1
  · obtain ⟨n, hdone, hwithin⟩ := total_within limits h hraw
    exact ⟨n, hdone, fun hnone => hwithin.resolve_right fun ⟨m, hex⟩ => hnone m hex⟩

/-- two generations of web: a line of a mebibyte, and a newer one of a byte -/
def redeployed : DB :=
  { containers :=
      [{ id := 1, key := web, name := "web", firstSeenMS := 0, lastSeenMS := 0, storedBytes := 1048576, stdoutWM := 1 },
       { id := 2, key := db, name := "web", firstSeenMS := 0, lastSeenMS := 0, storedBytes := 1, stdoutWM := 2 }]
    lines := [⟨1, 2, ⟨2, .stdout, 0, [33]⟩, db⟩, ⟨2, 1, ⟨1, .stdout, 0, mebibyte⟩, web⟩] }

theorem exact_redeployed : Exact redeployed := by
  refine ⟨⟨by decide, by decide, by decide, by decide, ?_⟩, fun c hc => ?_⟩
  · simp [redeployed, Line.ident]
  · simp only [redeployed, List.mem_cons, List.not_mem_nil, or_false] at hc
    rcases hc with rfl | rfl
    · simp [redeployed, DB.bytesOf, DB.linesOf, Line.size, mebibyte_length]
    · simp [redeployed, DB.bytesOf, DB.linesOf, Line.size]

/-- web is a byte over its cap, and loses the line of its older generation -/
theorem retention_minimal_redeployed :
    ∃ n, (Sweep.next^[n] (.start ⟨1, 1⟩ redeployed)).phase = .round 0 ∧
      containerLines (Sweep.next^[n] (.start ⟨1, 1⟩ redeployed)).db "local" "web" = [⟨1, 2, ⟨2, .stdout, 0, [33]⟩, db⟩] := by
  have hraw : ∀ l ∈ redeployed.lines, l.line.raw ≠ [] := by
    intro l hl
    rcases List.mem_cons.1 hl with rfl | hl
    · exact List.cons_ne_nil _ _
    · obtain rfl := List.mem_singleton.1 hl
      exact List.ne_nil_of_length_pos (by rw [mebibyte_length]; decide)
  obtain ⟨⟨n, hphase, htrimmed⟩, -⟩ := retention_minimal ⟨1, 1⟩ exact_redeployed hraw
  refine ⟨n, hphase, ?_⟩
  obtain ⟨k, e, hshort⟩ := (htrimmed "local" "web").shortest
  have hlines : containerLines redeployed "local" "web" =
      [⟨2, 1, ⟨1, .stdout, 0, mebibyte⟩, web⟩, ⟨1, 2, ⟨2, .stdout, 0, [33]⟩, db⟩] := rfl
  have hcap : max (Limits.perCap ⟨1, 1⟩) 0 = 1048576 := by decide
  have hone : k ≤ 1 := hshort.le (by rw [hlines, hcap]; decide)
  have hover : 0 < k := by
    by_contra hzero
    obtain rfl : k = 0 := by omega
    have hwithin := hshort.within
    rw [hlines, hcap, List.drop_zero, weight_cons, weight_cons, weight_nil, lineBytes, lineBytes, Line.size, Line.size,
      mebibyte_length] at hwithin
    revert hwithin
    decide
  obtain rfl : k = 1 := by omega
  rw [e, hlines]
  rfl

end LogDeck.Retention
