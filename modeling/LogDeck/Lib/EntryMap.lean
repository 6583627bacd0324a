/-
Finite maps built from a list of entries, one insertion an entry, the last entry of a key standing.

Results:
- `mem_ofEntries`, `lookup_ofEntries`: what such a map holds;
- `entries_ofEntries`: distinct keys lose nothing;
- `lookup_ofEntries_filter`, `lookup_union`: maps of part of the entries, and one map copied over another;
- `lookup_keep`: a loop that deletes keys, in whatever order it meets them.
-/
import Mathlib.Data.Finmap

namespace EntryMap

variable {α β : Type*} [DecidableEq α]

/-- a map from keys to values -/
abbrev Map (α β : Type*) := Finmap fun _ : α => β

/-- the map after every entry has been stored, in order -/
def ofEntries (l : List (α × β)) : Map α β := l.foldl (fun m e => m.insert e.1 e.2) ∅

@[simp] theorem ofEntries_nil : ofEntries ([] : List (α × β)) = ∅ := rfl

@[simp] theorem ofEntries_concat (l : List (α × β)) (e : α × β) :
    ofEntries (l ++ [e]) = (ofEntries l).insert e.1 e.2 := by
  unfold ofEntries
  rw [List.foldl_append]
  rfl

theorem mem_ofEntries {l : List (α × β)} {key : α} : key ∈ ofEntries l ↔ key ∈ l.map Prod.fst := by
  induction l using List.reverseRecOn with
  | nil => exact iff_of_false Finmap.notMem_empty (List.not_mem_nil)
  | append_singleton l e ih =>
    rw [ofEntries_concat, Finmap.mem_insert, ih, List.map_append, List.mem_append, or_comm]
    simp

/-- distinct keys lose nothing -/
theorem entries_ofEntries {l : List (α × β)} (h : (l.map Prod.fst).Nodup) :
    (ofEntries l).entries = (l.map fun e => (⟨e.1, e.2⟩ : Σ _ : α, β) : List (Σ _ : α, β)) := by
  induction l using List.reverseRecOn with
  | nil => rfl
  | append_singleton l e ih =>
    rw [List.map_append, List.nodup_append'] at h
    obtain ⟨hl, -, hdisj⟩ := h
    have hnew : e.1 ∉ ofEntries l := fun hmem => hdisj (mem_ofEntries.1 hmem) (List.mem_singleton.2 rfl)
    rw [ofEntries_concat, Finmap.entries_insert_of_notMem hnew, ih hl, Multiset.cons_coe, List.map_append,
      Multiset.coe_eq_coe]
    exact (List.perm_append_singleton _ _).symm

/-- with distinct keys the map holds what the first entry of a key says -/
theorem lookup_ofEntries {l : List (α × β)} (h : (l.map Prod.fst).Nodup) (key : α) :
    (ofEntries l).lookup key = l.lookup key := by
  induction l using List.reverseRecOn with
  | nil => rfl
  | append_singleton l e ih =>
    rw [List.map_append, List.nodup_append'] at h
    obtain ⟨hl, -, hdisj⟩ := h
    rw [ofEntries_concat, List.lookup_append, ← ih hl]
    by_cases hkey : key = e.1
    · have hnew : e.1 ∉ ofEntries l := fun hmem => hdisj (mem_ofEntries.1 hmem) (List.mem_singleton.2 rfl)
      rw [hkey, Finmap.lookup_insert, Finmap.lookup_eq_none.2 hnew, Option.none_or]
      exact List.lookup_cons_self.symm
    · rw [Finmap.lookup_insert_of_ne _ hkey, List.lookup_cons, beq_eq_false_iff_ne.2 hkey]
      exact (Option.or_none).symm

/-- the entries whose keys satisfy `p` give the map restricted to these keys -/
theorem lookup_ofEntries_filter (p : α → Bool) (l : List (α × β)) (key : α) :
    (ofEntries (l.filter fun e => p e.1)).lookup key = if p key then (ofEntries l).lookup key else none := by
  induction l using List.reverseRecOn with
  | nil => simp
  | append_singleton l e ih =>
    rw [List.filter_append, ofEntries_concat]
    cases hp : p e.1 with
    | true =>
      rw [List.filter_singleton, hp, cond_true, ofEntries_concat]
      by_cases hkey : key = e.1
      · rw [hkey, Finmap.lookup_insert, Finmap.lookup_insert, if_pos hp]
      · rw [Finmap.lookup_insert_of_ne _ hkey, Finmap.lookup_insert_of_ne _ hkey, ih]
    | false =>
      rw [List.filter_singleton, hp, cond_false, List.append_nil, ih]
      by_cases hkey : key = e.1
      · rw [hkey, if_neg (by simp [hp]), if_neg (by simp [hp])]
      · rw [Finmap.lookup_insert_of_ne _ hkey]

/-- the left map is the one that was copied over the right one -/
theorem lookup_union (m m' : Map α β) (key : α) : (m ∪ m').lookup key = (m.lookup key).or (m'.lookup key) := by
  by_cases h : key ∈ m
  · obtain ⟨b, hb⟩ := Finmap.mem_iff.1 h
    rw [Finmap.lookup_union_left h, hb]
    rfl
  · rw [Finmap.lookup_union_right h, Finmap.lookup_eq_none.2 h]
    rfl

/-! ## Deleting keys in a loop -/

/-- the loop's body: a key that `p` refuses is deleted -/
def keepStep (p : α → Bool) (m : Map α β) (key : α) (_ : β) : Map α β := if p key then m else m.erase key

theorem keepStep_comm (p : α → Bool) (m : Map α β) (a₁ : α) (b₁ : β) (a₂ : α) (b₂ : β) :
    keepStep p (keepStep p m a₁ b₁) a₂ b₂ = keepStep p (keepStep p m a₂ b₂) a₁ b₁ := by
  unfold keepStep
  split <;> split <;> first | rfl | exact Finmap.erase_erase

/-- the map after a loop over its own keys -/
def keep (p : α → Bool) (m : Map α β) : Map α β := m.foldl (keepStep p) (keepStep_comm p) m

theorem lookup_keepStep (p : α → Bool) (m : Map α β) (a key : α) (b : β) :
    (keepStep p m a b).lookup key = if key = a ∧ p key = false then none else m.lookup key := by
  unfold keepStep
  by_cases hkey : key = a
  · subst hkey
    cases hp : p key with
    | true => simp
    | false => simp [Finmap.lookup_erase]
  · have hstay : ¬ (key = a ∧ p key = false) := fun h => hkey h.1
    rw [if_neg hstay]
    cases p a with
    | true => rfl
    | false => exact Finmap.lookup_erase_ne hkey

/-- a part of the loop -/
theorem lookup_keep_loop (p : α → Bool) (l : List (Σ _ : α, β)) (m : Map α β) (key : α) :
    (l.foldl (fun m e => keepStep p m e.1 e.2) m).lookup key =
      if key ∈ l.map Sigma.fst ∧ p key = false then none else m.lookup key := by
  induction l generalizing m with
  | nil => rfl
  | cons e l ih =>
    rw [List.foldl_cons, ih, lookup_keepStep, List.map_cons]
    by_cases hl : key ∈ l.map Sigma.fst ∧ p key = false
    · rw [if_pos hl, if_pos ⟨List.mem_cons_of_mem _ hl.1, hl.2⟩]
    · rw [if_neg hl]
      refine if_congr ⟨fun h => ⟨h.1 ▸ List.mem_cons_self, h.2⟩, fun h => ⟨?_, h.2⟩⟩ rfl rfl
      exact (List.mem_cons.1 h.1).resolve_right fun hmem => hl ⟨hmem, h.2⟩

/-- **Deleting in any order.** A key is left if and only if it is not refused. -/
theorem lookup_keep (p : α → Bool) (m : Map α β) (key : α) :
    (keep p m).lookup key = if p key then m.lookup key else none := by
  induction m using Finmap.induction_on with
  | H s =>
    have hloop : keep p s.toFinmap = s.entries.foldl (fun m e => keepStep p m e.1 e.2) s.toFinmap := rfl
    rw [hloop, lookup_keep_loop]
    cases hp : p key with
    | true => simp
    | false =>
      by_cases hkey : key ∈ s
      · have hmem : key ∈ s.entries.map Sigma.fst := hkey
        simp [hmem]
      · have hnone : Finmap.lookup key s.toFinmap = none := Finmap.lookup_eq_none.2 hkey
        simp [hnone]

end EntryMap
