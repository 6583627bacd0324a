/-
Retention against concurrent purges.

`Inv` ties the sweep's stale local totals to the store:
- the refs of a group select exactly the lines that the store files under its (host, name) now (`refs`): a purge empties
  both sides at once;
- the counter of a group that still has lines is exact, except that the total-cap phase zeroes the counters of groups
  it found exhausted (`bytes`);
- the running total is the bytes actually stored plus the bytes purged since the totals were loaded (`total`).

The per-container phase is therefore always right. The total-cap phase overestimates by `purged`.

Results:
- `retention_iff`: over every run, the sweep deletes lines only where a cap is really exceeded, if and only if at each
  total-cap eviction the purges have taken less than the excess the sweep still sees;
- `purged_store_is_evicted`: a run where a purge brings the store under its cap and the sweep deletes the last line of
  another container.
-/
import LogDeck.LogStore.Sweep

namespace LogDeck.Retention

open LogDeck.LogStore Machine

/-- the per-container loop is not over -/
def Phase.Trimming : Phase → Prop
  | .load | .trim _ => True
  | _ => False

/-- the running total and the counters still to be added to it, against the store -/
def Owed (s : Sweep) : Prop :=
  match s.phase with
  | .trim i => s.total + ((s.groups.drop i).map fun g => g.bytes).sum = bytesStored s.db + s.purged
  | .round _ | .scan _ _ _ | .evict _ _ => s.total = bytesStored s.db + s.purged
  | .load | .prune | .done => True

/-- the group that the total-cap phase has found has bytes by its counter -/
def Chosen (s : Sweep) : Prop :=
  match s.phase with
  | .scan _ _ (some (k, _)) | .evict _ k => ∃ g, s.groups[k]? = some g ∧ 0 < g.bytes
  | _ => True

/-- the refs of every group select exactly the lines of its logical container -/
def Selects (db : DB) (groups : List LogicalGroup) : Prop :=
  ∀ g ∈ groups, ∀ l ∈ db.lines, l.ref ∈ g.refs ↔ InGroup db g.host g.name l.ref

/-- the counter of a group that has a line is exact, or was zeroed after the per-container loop -/
def Counted (db : DB) (trimming : Prop) (groups : List LogicalGroup) : Prop :=
  ∀ g ∈ groups, ∀ l ∈ db.lines, l.ref ∈ g.refs →
    g.bytes = containerBytes db g.host g.name ∨ (¬ trimming ∧ g.bytes = 0)

structure Inv (s : Sweep) : Prop where
  accounts : ∃ hist, Accounts s.db hist
  names : (s.groups.map fun g => (g.host, g.name)).Nodup
  refs : Selects s.db s.groups
  bytes : Counted s.db s.phase.Trimming s.groups
  owed : Owed s
  chosen : Chosen s

theorem inv_start {db : DB} {hist : History} (h : Accounts db hist) (limits : Limits) : Inv (.start limits db) :=
  { accounts := ⟨hist, h⟩, names := List.nodup_nil, refs := by simp [Selects, Sweep.start],
    bytes := by simp [Counted, Sweep.start], owed := trivial, chosen := trivial }

/-! ## Loading -/

theorem inGroup_iff_mem (db : DB) (host name : String) (ref : ℕ) :
    InGroup db host name ref ↔ ref ∈ (rowsOf db.containers host name).map fun c => c.id := by
  simp [InGroup, rowsOf, and_assoc, and_comm]

/-- the `stored_bytes` of every row are the bytes stored under it -/
structure Exact (db : DB) : Prop extends WellFormed db where
  bytes : ∀ c ∈ db.containers, c.storedBytes = db.bytesOf c.id

theorem exact_of_accounts {db : DB} {hist : History} (h : Accounts db hist) : Exact db := ⟨h.toWellFormed, h.bytes⟩

theorem containerBytes_eq {db : DB} (h : Exact db) (host name : String) :
    containerBytes db host name = ((rowsOf db.containers host name).map fun c => c.storedBytes).sum := by
  have hnd : ((rowsOf db.containers host name).map fun c => c.id).Nodup :=
    h.ids.sublist (List.Sublist.map _ List.filter_sublist)
  have hbytes : (rowsOf db.containers host name).map (fun c => c.storedBytes) =
      (rowsOf db.containers host name).map fun c => db.bytesOf c.id :=
    List.map_congr_left fun c hc => h.bytes c (List.mem_of_mem_filter hc)
  rw [hbytes, sum_bytesOf hnd]
  exact bytesWhere_congr fun l _ => inGroup_iff_mem db host name l.ref

theorem bytesStored_eq {db : DB} (h : Exact db) :
    bytesStored db = (db.containers.map fun c => c.storedBytes).sum := by
  rw [List.map_congr_left fun c hc => h.bytes c hc, sum_bytesOf h.ids]
  refine bytesWhere_congr fun l hl => ?_
  simpa using hasRef_iff_mem.1 (h.fk l hl)

theorem inv_load {s : Sweep} (h : Inv s) :
    Inv { s with groups := loadGroups s.db, total := 0, phase := .trim 0, purged := 0 } := by
  obtain ⟨hist, ha⟩ := h.accounts
  have hg := loadGroups_groups s.db
  refine ⟨⟨hist, ha⟩, hg.names, fun g hg' l _ => ?_, fun g hg' l _ _ => Or.inl ?_, ?_, trivial⟩
  · rw [hg.refs g hg', inGroup_iff_mem]
  · rw [hg.bytes g hg', containerBytes_eq (exact_of_accounts ha)]
  · simp [Owed, hg.total, bytesStored_eq (exact_of_accounts ha)]

/-! ## Purging -/

section Purge

/-- the database after the purge of a logical container -/
def purgedDB (db : DB) (host name : String) : DB := db.deleteRefs ((generationsOf db host name).map fun c => c.id)

variable {db : DB} (host name : String)

theorem mem_purgedDB_lines {l : LineRow} :
    l ∈ (purgedDB db host name).lines ↔ l ∈ db.lines ∧ ¬ InGroup db host name l.ref := by
  rw [inGroup_iff_mem]
  simp [purgedDB, DB.deleteRefs, generationsOf, rowsOf]

/-- a line that survives keeps its row -/
theorem inGroup_purgedDB {l : LineRow} (hl : l ∈ (purgedDB db host name).lines) (host' name' : String) :
    InGroup (purgedDB db host name) host' name' l.ref ↔ InGroup db host' name' l.ref := by
  constructor
  · rintro ⟨c, hc, e⟩
    exact ⟨c, List.mem_of_mem_filter hc, e⟩
  · rintro ⟨c, hc, e, e'⟩
    have hout := ((mem_purgedDB_lines host name).1 hl).2
    rw [inGroup_iff_mem, ← e] at hout
    exact ⟨c, List.mem_filter.2 ⟨hc, by simpa [generationsOf, rowsOf] using hout⟩, e, e'⟩

/-- the lines of two logical containers are disjoint -/
theorem InGroup.unique (h : WellFormed db) {host name host' name' : String} {ref : ℕ}
    (h₁ : InGroup db host name ref) (h₂ : InGroup db host' name' ref) : (host, name) = (host', name') := by
  obtain ⟨c, hc, rfl, rfl, rfl⟩ := h₁
  obtain ⟨c', hc', e, rfl, rfl⟩ := h₂
  rw [h.row_eq_of_id hc' hc e]

/-- another container that has a line keeps its bytes -/
theorem containerBytes_purgedDB (h : WellFormed db) {host' name' : String} (hne : (host', name') ≠ (host, name)) :
    containerBytes (purgedDB db host name) host' name' = containerBytes db host' name' := by
  have hout : ∀ ref, InGroup db host' name' ref → ¬ InGroup db host name ref := fun ref h₁ h₂ => hne (h₁.unique h h₂)
  have hlines : (purgedDB db host name).lines.filter (fun l => InGroup (purgedDB db host name) host' name' l.ref) =
      (purgedDB db host name).lines.filter fun l => InGroup db host' name' l.ref :=
    List.filter_congr fun l hl => by simp only [inGroup_purgedDB host name hl host' name']
  rw [containerBytes, DB.bytesWhere, hlines, containerBytes, DB.bytesWhere]
  congr 2
  simp only [purgedDB, DB.deleteRefs, List.filter_filter]
  refine List.filter_congr fun l _ => ?_
  by_cases hin : InGroup db host' name' l.ref
  · have := hout l.ref hin
    rw [inGroup_iff_mem] at this
    simp only [hin, decide_true, Bool.true_and, decide_eq_true_eq]
    exact this
  · simp only [hin, decide_false, Bool.false_and]

theorem bytesStored_purgedDB (db : DB) :
    bytesStored (purgedDB db host name) + purgedBytes db host name = bytesStored db := by
  have hsplit : bytesStored db = db.bytesWhere (fun l => ¬ InGroup db host name l.ref) + purgedBytes db host name := by
    refine bytesWhere_split (fun l _ => ?_) fun l _ hl => mt (inGroup_iff_mem db host name l.ref).2 hl
    have := inGroup_iff_mem db host name l.ref
    simp only [rowsOf, generationsOf] at this ⊢
    tauto
  rw [hsplit]
  congr 1
  simp only [bytesStored, DB.bytesWhere, purgedDB, DB.deleteRefs, List.filter_filter, decide_true, Bool.true_and]
  congr 2
  refine List.filter_congr fun l _ => ?_
  simp only [inGroup_iff_mem]
  rfl

end Purge

theorem inv_purge {s : Sweep} (h : Inv s) (host name : String) :
    Inv { s with db := purgedDB s.db host name, purged := s.purged + purgedBytes s.db host name } := by
  obtain ⟨hist, ha⟩ := h.accounts
  refine ⟨⟨_, (Shrink.purge s.db _).accounts ha⟩, h.names, fun g hg l hl => ?_, fun g hg l hl hr => ?_, ?_, ?_⟩
  · rw [inGroup_purgedDB host name hl, h.refs g hg l ((mem_purgedDB_lines host name).1 hl).1]
  · obtain ⟨hl₀, hout⟩ := (mem_purgedDB_lines host name).1 hl
    have hin := (h.refs g hg l hl₀).1 hr
    rw [containerBytes_purgedDB host name ha.toWellFormed]
    · exact h.bytes g hg l hl₀ hr
    · intro e
      simp only [Prod.mk.injEq] at e
      exact hout (e.1 ▸ e.2 ▸ hin)
  · have howed := h.owed
    have hb := bytesStored_purgedDB host name s.db
    unfold Owed at howed ⊢
    cases hp : s.phase <;> simp only [hp] at howed ⊢ <;> omega
  · exact h.chosen

/-! ## Evicting -/

section Evict

variable {db : DB} {refs : List ℕ} {excess : ℤ}

theorem evictOldest_db : (evictOldest db refs excess).1 = db.evictRows (victims db refs excess) := rfl

theorem inGroup_evictRows (vs : List LineRow) (host name : String) (ref : ℕ) :
    InGroup (db.evictRows vs) host name ref ↔ InGroup db host name ref := by
  simp only [InGroup, DB.evictRows, List.mem_map]
  constructor
  · rintro ⟨c, ⟨c₀, hc₀, rfl⟩, e⟩
    refine ⟨c₀, hc₀, ?_⟩
    split_ifs at e <;> exact e
  · rintro ⟨c, hc, e⟩
    refine ⟨_, ⟨c, hc, rfl⟩, ?_⟩
    split_ifs <;> exact e

/-- the bytes of an eviction come off the containers its victims belong to -/
theorem containerBytes_evict (h : WellFormed db) (host name : String) :
    containerBytes (evictOldest db refs excess).1 host name = containerBytes db host name -
      freedBytes ((victims db refs excess).filter fun l => InGroup db host name l.ref) := by
  have hsub : victims db refs excess ⊆ db.lines := fun l hl => (mem_victims hl).1
  rw [evictOldest_db, containerBytes, containerBytes, ← bytesWhere_evictRows h hsub (victims_nodup h.nodup refs excess)]
  exact bytesWhere_congr fun l _ => inGroup_evictRows _ host name l.ref

theorem bytesStored_evict (h : WellFormed db) (refs : List ℕ) (excess : ℤ) :
    bytesStored (evictOldest db refs excess).1 = bytesStored db - (evictOldest db refs excess).2 := by
  have hsub : victims db refs excess ⊆ db.lines := fun l hl => (mem_victims hl).1
  rw [evictOldest_db, bytesStored, bytesWhere_evictRows h hsub (victims_nodup h.nodup refs excess)]
  simp [bytesStored, evictOldest]

/-- an eviction takes a line as long as there is one -/
theorem victims_eq_nil : victims db refs excess = [] ↔ ∀ l ∈ db.lines, l.ref ∉ refs := by
  have hscan : ∀ freed ls, scanVictims excess freed ls = [] ↔ ls = [] := by
    intro freed ls
    cases ls with
    | nil => simp [scanVictims]
    | cons l ls => simp only [scanVictims]; split_ifs <;> simp
  rw [victims, hscan, List.take_eq_nil_iff]
  simp [deleteChunk, List.eq_nil_iff_forall_not_mem, mem_oldestFirst]

end Evict

section Counters

variable {groups : List LogicalGroup} {k : ℕ} {g g₁ : LogicalGroup}

theorem set_split (hk : groups[k]? = some g) (g₁ : LogicalGroup) :
    groups = groups.take k ++ g :: groups.drop (k + 1) ∧
      groups.set k g₁ = groups.take k ++ g₁ :: groups.drop (k + 1) := by
  obtain ⟨hlt, rfl⟩ := List.getElem?_eq_some_iff.1 hk
  refine ⟨?_, by rw [List.set_eq_take_append_cons_drop, if_pos hlt]⟩
  rw [← List.drop_eq_getElem_cons hlt, List.take_append_drop]

theorem names_set (hk : groups[k]? = some g) (hnd : (groups.map fun g => (g.host, g.name)).Nodup) (bytes : ℤ) :
    ((groups.set k { g with bytes := bytes }).map fun g => (g.host, g.name)).Nodup := by
  obtain ⟨e, e₁⟩ := set_split hk { g with bytes := bytes }
  rw [e] at hnd
  rw [e₁]
  simpa only [List.map_append, List.map_cons] using hnd

theorem sum_drop (hk : groups[k]? = some g) :
    ((groups.drop k).map fun g => g.bytes).sum = g.bytes + ((groups.drop (k + 1)).map fun g => g.bytes).sum := by
  obtain ⟨hlt, rfl⟩ := List.getElem?_eq_some_iff.1 hk
  rw [List.drop_eq_getElem_cons hlt, List.map_cons, List.sum_cons]

theorem sum_drop_set (hk : groups[k]? = some g) (bytes : ℤ) :
    (((groups.set k { g with bytes := bytes }).drop k).map fun g => g.bytes).sum =
      bytes + ((groups.drop (k + 1)).map fun g => g.bytes).sum := by
  have hset : (groups.set k { g with bytes := bytes })[k]? = some { g with bytes := bytes } :=
    List.getElem?_set_self (List.getElem?_eq_some_iff.1 hk).1
  rw [sum_drop hset, List.drop_set_of_lt (Nat.lt_succ_self k)]

theorem mem_set_names (hk : groups[k]? = some g) (hnd : (groups.map fun g => (g.host, g.name)).Nodup)
    {g' : LogicalGroup} (hg' : g' ∈ groups.set k g₁) :
    g' = g₁ ∨ (g' ∈ groups ∧ (g'.host, g'.name) ≠ (g.host, g.name)) := by
  obtain ⟨e, e₁⟩ := set_split hk g₁
  rw [e₁, List.mem_append, List.mem_cons] at hg'
  have hmem : g' = g₁ ∨ g' ∈ groups.take k ++ groups.drop (k + 1) := by
    rw [List.mem_append]; tauto
  refine hmem.imp_right fun hm => ⟨?_, fun en => ?_⟩
  · rw [e, List.mem_append, List.mem_cons]
    rw [List.mem_append] at hm
    tauto
  · rw [e, List.map_append, List.map_cons, List.nodup_middle, List.nodup_cons, ← List.map_append] at hnd
    exact hnd.1 (en ▸ List.mem_map_of_mem hm)

end Counters

section EvictGroup

variable {db : DB} {groups : List LogicalGroup} {k : ℕ} {g : LogicalGroup} (h : WellFormed db)
  (hnd : (groups.map fun g => (g.host, g.name)).Nodup) (hrefs : Selects db groups) (hk : groups[k]? = some g)
  (excess : ℤ)

include hrefs hk in
theorem victims_inGroup {l : LineRow} (hl : l ∈ victims db g.refs excess) : InGroup db g.host g.name l.ref := by
  obtain ⟨hm, hr⟩ := mem_victims hl
  exact (hrefs g (List.mem_of_getElem? hk) l hm).1 hr

include hrefs hk in
theorem evict_selects (bytes : ℤ) :
    Selects (evictOldest db g.refs excess).1 (groups.set k { g with bytes := bytes }) := by
  intro g' hg' l hl
  have hl₀ : l ∈ db.lines := List.mem_of_mem_filter hl
  rw [evictOldest_db, inGroup_evictRows]
  rcases List.mem_or_eq_of_mem_set hg' with hg' | rfl
  · exact hrefs g' hg' l hl₀
  · exact hrefs g (List.mem_of_getElem? hk) l hl₀

include h hnd hrefs hk in
/-- the group the victims come from loses what the eviction freed, the other groups lose nothing -/
theorem evict_counted {trimming : Prop} (hcnt : Counted db trimming groups)
    (hexact : ∀ l ∈ db.lines, l.ref ∈ g.refs → g.bytes = containerBytes db g.host g.name) {bytes : ℤ}
    (hb : bytes = g.bytes - (evictOldest db g.refs excess).2 ∨ (¬ trimming ∧ bytes = 0)) :
    Counted (evictOldest db g.refs excess).1 trimming (groups.set k { g with bytes := bytes }) := by
  intro g' hg' l hl hr
  have hl₀ : l ∈ db.lines := List.mem_of_mem_filter hl
  rw [containerBytes_evict h]
  rcases mem_set_names hk hnd hg' with rfl | ⟨hg', hne⟩
  · refine hb.imp_left fun hb => ?_
    have hall : (victims db g.refs excess).filter (fun l => decide (InGroup db g.host g.name l.ref)) =
        victims db g.refs excess := by
      rw [List.filter_eq_self]
      intro v hv
      exact decide_eq_true (victims_inGroup hrefs hk excess hv)
    rw [hall, ← hexact l hl₀ hr]
    exact hb
  · have hnone : (victims db g.refs excess).filter (fun l => decide (InGroup db g'.host g'.name l.ref)) = [] := by
      simp only [List.filter_eq_nil_iff, decide_eq_true_eq]
      intro v hv hin
      exact hne (hin.unique h (victims_inGroup hrefs hk excess hv))
    rw [hnone]
    simpa [freedBytes] using hcnt g' hg' l hl₀ hr

end EvictGroup

theorem evict_accounts {db : DB} (h : ∃ hist, Accounts db hist) (refs : List ℕ) (excess : ℤ) :
    ∃ hist, Accounts (evictOldest db refs excess).1 hist := by
  obtain ⟨hist, ha⟩ := h
  have hs : Shrink db (evictOldest db refs excess).1 :=
    .evict _ _ (fun l hl => (mem_victims hl).1) (victims_nodup ha.nodup refs excess)
  exact ⟨_, hs.accounts ha⟩

/-! ## Every step keeps the invariant -/

/-- in the per-container loop every counter is exact -/
theorem Counted.exact {db : DB} {trimming : Prop} {groups : List LogicalGroup} (h : Counted db trimming groups)
    {g : LogicalGroup} (hg : g ∈ groups) (hne : trimming ∨ g.bytes ≠ 0) :
    ∀ l ∈ db.lines, l.ref ∈ g.refs → g.bytes = containerBytes db g.host g.name := by
  intro l hl hr
  rcases h g hg l hl hr with e | ⟨ht, h0⟩
  · exact e
  · exact (hne.elim ht fun hne => hne h0).elim

theorem trim_inv {s : Sweep} (h : Inv s) {i : ℕ} (hp : s.phase = .trim i) : Inv (s.trimStep i) := by
  have hT : s.phase.Trimming := by rw [hp]; trivial
  have howed := h.owed
  simp only [Owed, hp] at howed
  unfold Sweep.trimStep
  cases hi : s.groups[i]? with
  | none =>
    have hdrop : s.groups.drop i = [] := List.drop_eq_nil_of_le (List.getElem?_eq_none_iff.1 hi)
    refine
      { h with
        bytes := fun g hg l hl hr => Or.inl (h.bytes.exact hg (Or.inl hT) l hl hr)
        owed := ?_
        chosen := trivial }
    simpa [Owed, hdrop] using howed
  | some g =>
    have hg := List.mem_of_getElem? hi
    have hsum := sum_drop hi
    obtain ⟨hist, ha⟩ := h.accounts
    have hstored := bytesStored_evict ha.toWellFormed g.refs (g.bytes - s.limits.perCap)
    have hexact := h.bytes.exact hg (Or.inl hT)
    have hself : s.groups.set i { g with bytes := g.bytes } = s.groups := by
      obtain ⟨hlt, rfl⟩ := List.getElem?_eq_some_iff.1 hi
      exact List.set_getElem_self hlt
    dsimp only
    split_ifs with hcap hev
    · -- nothing was freed: the counter stands as it is
      have hrefs := evict_selects h.refs hi (g.bytes - s.limits.perCap) g.bytes
      have hcnt := evict_counted ha.toWellFormed h.names h.refs hi (g.bytes - s.limits.perCap) h.bytes hexact
        (Or.inl (by rw [hev, sub_zero]))
      rw [hself] at hrefs hcnt
      refine ⟨evict_accounts h.accounts _ _, h.names, hrefs, fun g' hg' => ?_, ?_, trivial⟩
      · exact fun l hl hr => Or.inl (hcnt.exact hg' (Or.inl hT) l hl hr)
      · simp only [Owed]
        omega
    · have hcnt := evict_counted ha.toWellFormed h.names h.refs hi (g.bytes - s.limits.perCap) h.bytes hexact
        (Or.inl rfl)
      have hsum' := sum_drop_set hi (g.bytes - (evictOldest s.db g.refs (g.bytes - s.limits.perCap)).2)
      refine ⟨evict_accounts h.accounts _ _, names_set hi h.names _, evict_selects h.refs hi _ _, hcnt, ?_, ?_⟩
      · simp only [Owed, hp]
        omega
      · simp only [Chosen, hp]
    · refine { h with bytes := fun g' hg' => ?_, owed := ?_, chosen := trivial }
      · exact fun l hl hr => Or.inl (h.bytes.exact hg' (Or.inl hT) l hl hr)
      · simp only [Owed]
        omega

theorem scan_inv {s : Sweep} (h : Inv s) {r i : ℕ} {best : Option (ℕ × ℤ)} (hp : s.phase = .scan r i best) :
    Inv (s.scanStep r i best) := by
  have howed := h.owed
  have hchosen := h.chosen
  have hcnt := h.bytes
  simp only [Owed, hp] at howed
  simp only [Chosen, hp] at hchosen
  simp only [hp, Phase.Trimming] at hcnt
  have hnext : ∀ best', (∀ k ts, best' = some (k, ts) → ∃ g, s.groups[k]? = some g ∧ 0 < g.bytes) →
      Inv { s with phase := .scan r (i + 1) best' } := by
    intro best' hb
    refine { h with bytes := hcnt, owed := howed, chosen := ?_ }
    unfold Chosen
    cases best' with
    | none => trivial
    | some b => exact hb b.1 b.2 rfl
  have hbest : ∀ k ts, best = some (k, ts) → ∃ g, s.groups[k]? = some g ∧ 0 < g.bytes := by
    rintro k ts rfl
    exact hchosen
  unfold Sweep.scanStep
  cases hi : s.groups[i]? with
  | none =>
    cases best with
    | none => exact { h with bytes := hcnt, owed := trivial, chosen := trivial }
    | some b => exact { h with bytes := hcnt, owed := howed, chosen := hbest b.1 b.2 rfl }
  | some g =>
    dsimp only
    split_ifs with h0
    · exact hnext best hbest
    · cases oldestLine s.db g.refs with
      | none => exact hnext best hbest
      | some ts =>
        refine hnext _ fun k ts' e => ?_
        have hnew : ∃ g', s.groups[i]? = some g' ∧ 0 < g'.bytes := ⟨g, hi, by omega⟩
        cases best with
        | none =>
          simp only [better, Option.some.injEq, Prod.mk.injEq] at e
          exact e.1 ▸ hnew
        | some b =>
          simp only [better] at e
          split_ifs at e
          · simp only [Option.some.injEq, Prod.mk.injEq] at e
            exact e.1 ▸ hnew
          · simp only [Option.some.injEq, Prod.mk.injEq] at e
            exact e.1 ▸ hbest b.1 b.2 rfl

theorem evict_inv {s : Sweep} (h : Inv s) {r k : ℕ} (hp : s.phase = .evict r k) : Inv (s.evictStep r k) := by
  have howed := h.owed
  have hchosen := h.chosen
  have hcnt := h.bytes
  simp only [Owed, hp] at howed
  simp only [Chosen, hp] at hchosen
  simp only [hp, Phase.Trimming] at hcnt
  obtain ⟨g, hk, h0⟩ := hchosen
  obtain ⟨hist, ha⟩ := h.accounts
  have hstored := bytesStored_evict ha.toWellFormed g.refs (s.total - s.limits.totalCap)
  have hexact := hcnt.exact (List.mem_of_getElem? hk) (Or.inr h0.ne')
  unfold Sweep.evictStep
  rw [hk]
  dsimp only
  split_ifs with hev
  · refine ⟨evict_accounts h.accounts _ _, names_set hk h.names _, evict_selects h.refs hk _ _, ?_, ?_, trivial⟩
    · exact evict_counted ha.toWellFormed h.names h.refs hk _ hcnt hexact (Or.inr ⟨not_false, rfl⟩)
    · simp only [Owed]
      omega
  · refine ⟨evict_accounts h.accounts _ _, names_set hk h.names _, evict_selects h.refs hk _ _, ?_, ?_, trivial⟩
    · exact evict_counted ha.toWellFormed h.names h.refs hk _ hcnt hexact (Or.inl rfl)
    · simp only [Owed]
      omega

theorem next_inv {s : Sweep} (h : Inv s) : Inv s.next := by
  unfold Sweep.next
  cases hp : s.phase with
  | load => exact inv_load h
  | trim i => exact trim_inv h hp
  | round r =>
    have howed := h.owed
    have hcnt := h.bytes
    simp only [Owed, hp] at howed
    simp only [hp, Phase.Trimming] at hcnt
    dsimp only
    split_ifs
    · exact { h with bytes := hcnt, owed := howed, chosen := trivial }
    · exact { h with bytes := hcnt, owed := trivial, chosen := trivial }
  | scan r i best => exact scan_inv h hp
  | evict r k => exact evict_inv h hp
  | prune =>
    have hcnt := h.bytes
    simp only [hp, Phase.Trimming] at hcnt
    obtain ⟨hist, ha⟩ := h.accounts
    have hw := ha.toWellFormed
    have hin : ∀ l ∈ s.db.lines, ∀ host name, InGroup (pruneEmptyGenerations s.db) host name l.ref ↔
        InGroup s.db host name l.ref := by
      intro l hl host name
      constructor
      · rintro ⟨c, hc, e⟩
        exact ⟨c, List.mem_of_mem_filter hc, e⟩
      · rintro ⟨c, hc, e, e'⟩
        refine ⟨c, List.mem_filter.2 ⟨hc, ?_⟩, e, e'⟩
        simp only [decide_eq_true_eq]
        exact fun hE => hE.2 l hl e.symm
    refine ⟨⟨_, (Shrink.prune s.db).accounts ha⟩, h.names, ?_, ?_, trivial, trivial⟩
    · intro g hg l hl
      rw [hin l hl]
      exact h.refs g hg l hl
    · intro g hg l hl hr
      have hb : containerBytes (pruneEmptyGenerations s.db) g.host g.name = containerBytes s.db g.host g.name :=
        bytesWhere_congr fun l hl => hin l hl _ _
      rw [hb]
      exact hcnt g hg l hl hr
  | done => exact h

theorem step_inv (s : Sweep) (o : SweepOp) (h : Inv s) : Inv (step s o) := by
  cases o with
  | next => exact next_inv h
  | dbError =>
    refine { h with bytes := fun g hg l hl hr => ?_, owed := trivial, chosen := trivial }
    rcases h.bytes g hg l hl hr with e | ⟨-, e⟩
    · exact Or.inl e
    · exact Or.inr ⟨not_false, e⟩
  | purge host name committed =>
    simp only [step, deleteContainer]
    split
    · exact h
    · rename_i db keys hd
      split at hd
      · cases hd
      · cases hd
        split_ifs
        · exact inv_purge h host name
        · exact h

/-! ## Which lines a step of the sweep deletes -/

theorem mem_evictOldest_lines {db : DB} (h : WellFormed db) {refs : List ℕ} {excess : ℤ} {l : LineRow}
    (hl : l ∈ db.lines) : l ∉ (evictOldest db refs excess).1.lines ↔ l ∈ victims db refs excess := by
  have hmem : l ∈ (evictOldest db refs excess).1.lines ↔ l.rowid ∉ (victims db refs excess).map fun v => v.rowid := by
    simp [evictOldest, DB.evictRows, hl]
  rw [hmem, not_not, List.mem_map]
  constructor
  · rintro ⟨v, hv, e⟩
    rwa [h.line_eq_of_rowid hl (mem_victims hv).1 e.symm]
  · intro hv
    exact ⟨l, hv, rfl⟩

/-- **What a step of the sweep deletes**: the victims of one eviction, in one of the two phases. -/
theorem next_deletes {s : Sweep} (h : WellFormed s.db) {l : LineRow} (hl : l ∈ s.db.lines) :
    l ∉ s.next.db.lines ↔
      (∃ i g, s.phase = .trim i ∧ s.groups[i]? = some g ∧ s.limits.perCap < g.bytes ∧
        l ∈ victims s.db g.refs (g.bytes - s.limits.perCap)) ∨
      ∃ r k g, s.phase = .evict r k ∧ s.groups[k]? = some g ∧ l ∈ victims s.db g.refs (s.total - s.limits.totalCap) := by
  unfold Sweep.next
  cases hp : s.phase with
  | trim i =>
    unfold Sweep.trimStep
    cases hi : s.groups[i]? with
    | none => simp [hl, hi]
    | some g =>
      simp only [hi]
      split_ifs with hcap hev
      · simp [mem_evictOldest_lines h hl, hi, hcap]
      · simp [mem_evictOldest_lines h hl, hi, hcap]
      · simp [hl, hi, not_lt.1 hcap]
  | evict r k =>
    unfold Sweep.evictStep
    cases hk : s.groups[k]? with
    | none => simp [hl, hk]
    | some g =>
      simp only [hk]
      split_ifs with hev
      · simp [mem_evictOldest_lines h hl, hk]
      · simp [mem_evictOldest_lines h hl, hk]
  | scan r i best =>
    have hsame : (s.scanStep r i best).db = s.db := by
      unfold Sweep.scanStep
      split
      · split <;> rfl
      · split_ifs
        · rfl
        · split <;> rfl
    simp [hsame, hl]
  | load => simp [hl]
  | round r => simp [hl]
  | prune => simp [hl, pruneEmptyGenerations]
  | done => simp [hl]

/-! ## Exactness -/

/-- the sweep deletes a line only where a cap is exceeded at that moment: the total cap, or the cap of the line's
logical container -/
def Lawful (s : Sweep) (o : SweepOp) : Prop :=
  o = .next → ∀ l ∈ s.db.lines, l ∉ (step s o).db.lines →
    s.limits.totalCap < bytesStored s.db ∨
      ∃ host name, InGroup s.db host name l.ref ∧ s.limits.perCap < containerBytes s.db host name

/-- a total-cap eviction that finds a line: the purges since `loadGroups` took less than the excess the sweep still
sees, or the group is over the per-container cap as well -/
def Current (s : Sweep) (o : SweepOp) : Prop :=
  o = .next → ∀ r k g, s.phase = .evict r k → s.groups[k]? = some g → (∃ l ∈ s.db.lines, l.ref ∈ g.refs) →
    s.purged < s.total - s.limits.totalCap ∨ s.limits.perCap < g.bytes

theorem lawful_iff_current (s : Sweep) (o : SweepOp) (h : Inv s) : Lawful s o ↔ Current s o := by
  obtain ⟨hist, ha⟩ := h.accounts
  have hw := ha.toWellFormed
  -- the counter of the group chosen for a total-cap eviction
  have hexact : ∀ r k g, s.phase = .evict r k → s.groups[k]? = some g → ∀ l ∈ s.db.lines, l.ref ∈ g.refs →
      g.bytes = containerBytes s.db g.host g.name ∧ s.total = bytesStored s.db + s.purged := by
    intro r k g hp hk l hl hr
    have howed := h.owed
    have hchosen := h.chosen
    simp only [Owed, hp] at howed
    simp only [Chosen, hp] at hchosen
    obtain ⟨g', hk', h0⟩ := hchosen
    rw [hk, Option.some.injEq] at hk'
    subst hk'
    exact ⟨h.bytes.exact (List.mem_of_getElem? hk) (Or.inr h0.ne') l hl hr, howed⟩
  constructor
  · rintro hL rfl r k g hp hk ⟨l₀, h₀, hr₀⟩
    have hne : victims s.db g.refs (s.total - s.limits.totalCap) ≠ [] :=
      fun e => victims_eq_nil.1 e l₀ h₀ hr₀
    obtain ⟨v, hv⟩ := List.exists_mem_of_ne_nil _ hne
    obtain ⟨hvl, hvr⟩ := mem_victims hv
    obtain ⟨hb, ht⟩ := hexact r k g hp hk v hvl hvr
    rcases hL rfl v hvl ((next_deletes hw hvl).2 (Or.inr ⟨r, k, g, hp, hk, hv⟩)) with hcap | ⟨host, name, hin, hcap⟩
    · left
      omega
    · right
      have e := hin.unique hw ((h.refs g (List.mem_of_getElem? hk) v hvl).1 hvr)
      simp only [Prod.mk.injEq] at e
      rw [hb, ← e.1, ← e.2]
      exact hcap
  · rintro hC rfl l hl hdel
    rcases (next_deletes hw hl).1 hdel with ⟨i, g, hp, hi, hcap, hv⟩ | ⟨r, k, g, hp, hk, hv⟩
    · right
      have hg := List.mem_of_getElem? hi
      have hr := (mem_victims hv).2
      refine ⟨g.host, g.name, (h.refs g hg l hl).1 hr, ?_⟩
      have hT : s.phase.Trimming := by rw [hp]; trivial
      rw [← h.bytes.exact hg (Or.inl hT) l hl hr]
      exact hcap
    · have hr := (mem_victims hv).2
      obtain ⟨hb, ht⟩ := hexact r k g hp hk l hl hr
      rcases hC rfl r k g hp hk ⟨l, hl, hr⟩ with hlt | hcap
      · left
        omega
      · right
        exact ⟨g.host, g.name, (h.refs g (List.mem_of_getElem? hk) l hl).1 hr, hb ▸ hcap⟩

/-- **Retention against purges, exactly.** From every reachable store, for all limits and every interleaving of one
sweep with purges: the sweep deletes lines only while the bytes actually stored exceed the total cap or those of the
line's logical container exceed the per-container cap, if and only if at every total-cap eviction that finds a line the
bytes purged since the totals were loaded are less than the excess the sweep still sees (or the group's counter is over
the per-container cap as well). -/
theorem retention_iff (before : List Op) (limits : Limits) (ops : List SweepOp) :
    let s := Sweep.start limits (Machine.run LogStore.step .init before).db
    Each step Lawful s ops ↔ Each step Current s ops := by
  intro s
  have ha := run_accounts (g := Ledger.init) (accounts_empty _) before
  rw [Ledger.run_store] at ha
  exact each_iff step_inv lawful_iff_current (inv_start ha limits)

/-! ## A purge in the middle of a sweep -/

def web : GenKey := ⟨"local", "aaa"⟩
def db : GenKey := ⟨"local", "bbb"⟩

/-- one mebibyte of raw text -/
@[irreducible] def mebibyte : List UInt8 := List.replicate (1024 * 1024) 97

theorem mebibyte_length : mebibyte.length = 1048576 := by
  unfold mebibyte
  rw [List.length_replicate]

/-- web holds one line of a mebibyte, db one line of one byte -/
def stored : List Op :=
  [.commit [⟨web, "web", "", .line ⟨1, .stdout, 0, mebibyte⟩⟩, ⟨db, "db", "", .line ⟨2, .stdout, 0, [33]⟩⟩] 0]

/-- the rows after `stored` -/
def storedDB (webBytes : ℤ) : DB :=
  { containers :=
      [{ id := 1, key := web, name := "web", firstSeenMS := 0, lastSeenMS := 0, storedBytes := webBytes, stdoutWM := 1 },
       { id := 2, key := db, name := "db", firstSeenMS := 0, lastSeenMS := 0, storedBytes := 1, stdoutWM := 2 }]
    lines := [⟨1, 1, ⟨1, .stdout, 0, mebibyte⟩, web⟩, ⟨2, 2, ⟨2, .stdout, 0, [33]⟩, db⟩] }

theorem run_stored : (Machine.run LogStore.step .init stored).db = storedDB 1048576 := by
  have h : (Machine.run LogStore.step .init stored).db = storedDB (0 + (0 + (mebibyte.length : ℤ))) := rfl
  rw [h, mebibyte_length]
  rfl

/-- both caps are 1 MB, and web is purged after the sweep has loaded its totals -/
def purgedSweep : List SweepOp :=
  [.next, .next, .next, .next, .next, .purge "local" "web" true, .next, .next, .next, .next]

/-- **A purge the sweep does not see.** Web alone is at the cap, the store is one byte over it. Web is purged after the
totals are loaded; the sweep still evicts the excess, and deletes the only line of db from a store of one byte. -/
theorem purged_store_is_evicted :
    ¬ Each step Lawful (.start ⟨1, 1⟩ (Machine.run LogStore.step .init stored).db) purgedSweep := by
  rw [run_stored]
  intro h
  have hlast := h.2.2.2.2.2.2.2.2.2.1 rfl
  rcases hlast ⟨2, 2, ⟨2, .stdout, 0, [33]⟩, db⟩ (by decide) (by decide) with hcap | ⟨host, name, hin, hcap⟩
  · revert hcap
    decide
  · obtain ⟨c, hc, -, rfl, rfl⟩ := hin
    obtain rfl := List.mem_singleton.1 hc
    revert hcap
    decide

end LogDeck.Retention
