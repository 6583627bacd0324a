/-
The environment edit is all-or-nothing (`docker/container.go`: `recreateContainerWithEnv`).

Nothing else happens to the engine while it runs. A call of the forward path may fail, for whatever reason, and then has
no effect; the calls of the rollback, and the removal of the original at the end, succeed. `Expected` says what the
daemon is like at each place of the function.

Results:
- `step_expected`: one call, made or failed;
- `recreate_all_or_nothing`: a run that ends with an error leaves the daemon as it was, one that succeeds leaves the
  replacement, and after seven calls it has ended.
-/
import LogDeck.Docker.Recreate
import LogDeck.LogStore.Lifecycle
import LogDeck.Lib.Machine

namespace LogDeck.Docker

open LogDeck.LogStore (trimSlash)
open Machine Daemon

/-! ## The daemon -/

namespace Daemon

/-- container ids and container names are unique -/
structure Distinct (d : Daemon) : Prop where
  ids : (List.map Container.id d).Nodup
  names : (List.map Container.name d).Nodup

variable {d : Daemon} {id : String} {c n : Container} {f g : Container → Container}

theorem find_of_mem (h : (List.map Container.id d).Nodup) (hc : c ∈ d) : d.find c.id = some c := by
  induction d with
  | nil => cases hc
  | cons x d ih =>
    rw [List.map_cons, List.nodup_cons] at h
    unfold find
    rcases List.mem_cons.1 hc with rfl | hc
    · rw [List.find?_cons_of_pos (by simp)]
    · have hne : x.id ≠ c.id := fun e => h.1 (e ▸ List.mem_map_of_mem hc)
      rw [List.find?_cons_of_neg (by simpa using hne)]
      exact ih h.2 hc

theorem find_none_iff : d.find id = none ↔ id ∉ List.map Container.id d := by simp [find]

theorem update_append (d e : Daemon) (id : String) (f : Container → Container) :
    Daemon.update (d ++ e) id f = d.update id f ++ Daemon.update e id f := List.map_append

/-- a change of a container that is not there -/
theorem update_of_notMem (h : id ∉ List.map Container.id d) : d.update id f = d := by
  have hsame : ∀ x ∈ d, (if x.id = id then f x else x) = x := by
    intro x hx
    rw [if_neg]
    rintro rfl
    exact h (List.mem_map_of_mem hx)
  unfold update
  rw [List.map_congr_left hsame, List.map_id']

theorem ids_update (hf : ∀ x, (f x).id = x.id) : List.map Container.id (d.update id f) = List.map Container.id d := by
  unfold update
  rw [List.map_map]
  refine List.map_congr_left fun x _ => ?_
  show (if x.id = id then f x else x).id = x.id
  split_ifs
  · exact hf x
  · rfl

/-- two changes of one container are one -/
theorem update_update (hf : ∀ x, (f x).id = x.id) : (d.update id f).update id g = d.update id fun x => g (f x) := by
  unfold update
  rw [List.map_map]
  refine List.map_congr_left fun x _ => ?_
  show (if (if x.id = id then f x else x).id = id then g (if x.id = id then f x else x)
    else if x.id = id then f x else x) = if x.id = id then g (f x) else x
  by_cases hx : x.id = id
  · simp [hx, hf]
  · simp [hx]

theorem update_congr (h : (List.map Container.id d).Nodup) (hc : c ∈ d) (hf : f c = g c) :
    d.update c.id f = d.update c.id g := by
  refine List.map_congr_left fun x hx => ?_
  split_ifs with hid
  · have hx' := find_of_mem h hx
    rw [hid, find_of_mem h hc] at hx'
    rw [← Option.some.inj hx', hf]
  · rfl

/-- a change that changes nothing of the container -/
theorem update_same (h : (List.map Container.id d).Nodup) (hc : c ∈ d) (hf : f c = c) : d.update c.id f = d := by
  have hid : d.update c.id (fun x => x) = d := by simp [update]
  exact (update_congr h hc hf).trans hid

theorem filter_update (hf : ∀ x, (f x).id = x.id) :
    List.filter (fun x => x.id ≠ id) (d.update id f) = List.filter (fun x => x.id ≠ id) d := by
  unfold update
  induction d with
  | nil => rfl
  | cons x d ih =>
    rw [List.map_cons]
    by_cases hx : x.id = id
    · rw [if_pos hx, List.filter_cons_of_neg (by simp [hf, hx]), List.filter_cons_of_neg (by simp [hx]), ih]
    · rw [if_neg hx, List.filter_cons_of_pos (by simpa using hx), List.filter_cons_of_pos (by simpa using hx), ih]

theorem mem_update (h : (List.map Container.id d).Nodup) (hc : c ∈ d) {x : Container} :
    x ∈ d.update c.id f ↔ x = f c ∨ x ∈ d ∧ x.id ≠ c.id := by
  unfold update
  rw [List.mem_map]
  constructor
  · rintro ⟨y, hy, rfl⟩
    split_ifs with hid
    · have hy' := find_of_mem h hy
      rw [hid, find_of_mem h hc] at hy'
      exact Or.inl (congrArg f (Option.some.inj hy')).symm
    · exact Or.inr ⟨hy, hid⟩
  · rintro (rfl | ⟨hx, hid⟩)
    · exact ⟨c, hc, if_pos rfl⟩
    · exact ⟨x, hx, if_neg hid⟩

end Daemon

/-! ## The run -/

/-- what `ContainerInspect` says of a container; the API gives names with a slash -/
structure InspectResponse where
  id : String
  name : String
  /-- `State` may be missing -/
  state : Option Bool
  hostConfig : HostConfig
deriving DecidableEq, Repr

def Container.inspect (c : Container) : InspectResponse := ⟨c.id, "/" ++ c.name, some c.running, c.hostConfig⟩

/-- the call of the function: `containerName` and `wasRunning` -/
def recreateContainerWithEnv (inspect : InspectResponse) (envs : List String) : Recreate :=
  { inspect :=
      { id := inspect.id
        name := trimSlash inspect.name
        hostConfig := inspect.hostConfig
        running := inspect.state.getD false }
    envs := envs }

/-- a call of the function, with the id that a create would give and whether the engine makes it -/
def recreateStep (exec : Engine) (s : Recreate × Daemon) (reply : String × Bool) : Recreate × Daemon :=
  s.1.step exec s.2 reply.1 reply.2

/-- the calls of the rollback, and the removal of the original -/
def Phase.compensates : Phase → Bool
  | .cleanup _ | .rollbackRemove _ | .rollbackRename | .rollbackStart => true
  | _ => false

/-- the calls of the rollback succeed: the engine serves them -/
def RollsBack (exec : Engine) (s : Recreate × Daemon) (reply : String × Bool) : Prop :=
  s.1.phase.compensates = true → reply.2 = true ∧ ∀ cl, s.1.call = some cl → (exec s.2 reply.1 cl).isSome = true

/-- the calls that are left at most -/
def Phase.left : Phase → ℕ
  | .stop => 7
  | .rename => 6
  | .create => 5
  | .start _ => 4
  | .rollbackRemove _ => 3
  | .rollbackRename => 2
  | .rollbackStart | .cleanup _ => 1
  | .done _ | .failed => 0

section
variable (d : Daemon) (c : Container) (envs : List String)

/-- the edit of a container, at its start -/
def editOf : Recreate := recreateContainerWithEnv c.inspect envs

/-- the original, stopped and still there -/
def stopped : Daemon := d.update c.id fun x => { x with running := false }

/-- the original, renamed aside -/
def aside : Daemon := d.update c.id fun x => { x with running := false, name := (editOf c envs).tempName }

/-- the replacement -/
def replacement (newID : String) (running : Bool) : Container :=
  { id := newID, name := c.name, env := envs, hostConfig := (editOf c envs).hostConfig, running := running }

/-- what the daemon is like, by where the function stands -/
def Expected : Phase → Daemon → Prop
  | .stop, e | .failed, e => e = d
  | .rename, e => e = d.stop c.id
  | .create, e | .rollbackRename, e => e = aside d c envs
  | .start newID, e | .rollbackRemove newID, e =>
    e = aside d c envs ++ [replacement c envs newID false] ∧ newID ∉ List.map Container.id d ∧ c.running = true
  | .cleanup newID, e =>
    e = aside d c envs ++ [replacement c envs newID c.running] ∧ newID ∉ List.map Container.id d
  | .rollbackStart, e => (e = stopped d c ∨ e = d.stop c.id) ∧ c.running = true
  | .done newID, e =>
    e = d.remove c.id ++ [replacement c envs newID c.running] ∧ newID ∉ List.map Container.id d

end

section
variable {d e : Daemon} {c : Container} {envs : List String} {newID : String}

theorem trimSlash_slash (name : String) : trimSlash ("/" ++ name) = name := by
  unfold trimSlash
  rw [String.toList_append]
  exact String.ofList_toList

theorem editOf_inspect : (editOf c envs).inspect.id = c.id ∧ (editOf c envs).inspect.name = c.name ∧
    (editOf c envs).inspect.running = c.running := ⟨rfl, trimSlash_slash c.name, rfl⟩

/-! ## The calls -/

section
variable (hd : Distinct d) (hc : c ∈ d)

include hd hc

/-- the original goes when it is stopped, or it is still there -/
theorem stop_cases : (d.stop c.id).find c.id = none ∨ d.stop c.id = stopped d c := by
  unfold Daemon.stop
  rw [find_of_mem hd.ids hc]
  dsimp only
  split_ifs
  · left
    rw [find_none_iff]
    intro hmem
    obtain ⟨x, hx, hid⟩ := List.mem_map.1 hmem
    exact of_decide_eq_true (List.mem_filter.1 hx).2 hid
  · exact Or.inr rfl

/-- stopping a container that is not running changes nothing -/
theorem stop_eq (hrun : c.running = false) : d.stop c.id = d := by
  unfold Daemon.stop
  rw [find_of_mem hd.ids hc]
  dsimp only
  rw [if_neg (by simp [hrun])]
  refine update_same hd.ids hc ?_
  rw [← hrun]

/-- renaming the original finds it, so it is still there -/
theorem aside_of_rename (h : ((d.stop c.id).find c.id).isSome = true) :
    (d.stop c.id).update c.id (fun x => { x with name := (editOf c envs).tempName }) = aside d c envs := by
  rcases stop_cases hd hc with hnone | hstop
  · rw [hnone] at h
    cases h
  · rw [hstop, stopped, update_update]
    · rfl
    · exact fun _ => rfl

theorem stopped_of_rename :
    (aside d c envs).update c.id (fun x => { x with name := c.name }) = stopped d c := by
  rw [aside, update_update]
  · exact update_congr hd.ids hc rfl
  · exact fun _ => rfl

/-- starting the original finds it, and gives back the daemon -/
theorem restored_of_start (hrun : c.running = true) (he : e = stopped d c ∨ e = d.stop c.id)
    (h : (e.find c.id).isSome = true) : e.update c.id (fun x => { x with running := true }) = d := by
  have hstop : e = stopped d c := by
    rcases he with he | he
    · exact he
    · rcases stop_cases hd hc with hnone | hstop
      · rw [he, hnone] at h
        cases h
      · exact he.trans hstop
  rw [hstop, stopped, update_update]
  · refine update_same hd.ids hc ?_
    rw [← hrun]
  · exact fun _ => rfl

theorem stopped_eq (hrun : c.running = false) : stopped d c = d := by
  refine update_same hd.ids hc ?_
  rw [← hrun]

end

section
variable (hnew : newID ∉ List.map Container.id d)

include hnew

theorem started : Daemon.update (aside d c envs ++ [replacement c envs newID false]) newID
    (fun x => { x with running := true }) = aside d c envs ++ [replacement c envs newID true] := by
  have hids : List.map Container.id (aside d c envs) = List.map Container.id d := ids_update fun _ => rfl
  rw [update_append, update_of_notMem (hids ▸ hnew)]
  simp [update, replacement]

theorem removed_replacement (running : Bool) :
    Daemon.remove (aside d c envs ++ [replacement c envs newID running]) newID = aside d c envs := by
  have hids : List.map Container.id (aside d c envs) = List.map Container.id d := ids_update fun _ => rfl
  unfold Daemon.remove
  rw [List.filter_append, List.filter_eq_self.2]
  · simp [replacement]
  · intro x hx
    have hmem : x.id ∈ List.map Container.id d := hids ▸ List.mem_map_of_mem hx
    exact decide_eq_true fun e => hnew (e ▸ hmem)

theorem removed_original (hc : c ∈ d) (running : Bool) :
    Daemon.remove (aside d c envs ++ [replacement c envs newID running]) c.id =
      d.remove c.id ++ [replacement c envs newID running] := by
  have hne : newID ≠ c.id := fun e => hnew (e ▸ List.mem_map_of_mem hc)
  have hrest : List.filter (fun x => decide (x.id ≠ c.id)) (aside d c envs) =
      List.filter (fun x => decide (x.id ≠ c.id)) d := filter_update fun _ => rfl
  have hlast : List.filter (fun x => decide (x.id ≠ c.id)) [replacement c envs newID running] =
      [replacement c envs newID running] := by simp [replacement, hne]
  unfold Daemon.remove
  rw [List.filter_append, hrest, hlast]

end

/-! ## One call -/

/-- a call is made, or it fails and has no effect -/
theorem recreateStep_cases (exec : Engine) {r : Recreate} {cl : Call} (hcall : r.call = some cl) (e : Daemon)
    (fresh : String) (up : Bool) :
    (∃ e', exec e fresh cl = some e' ∧ recreateStep exec (r, e) (fresh, up) = (r.resume true fresh, e')) ∨
      recreateStep exec (r, e) (fresh, up) = (r.resume false fresh, e) := by
  unfold recreateStep Recreate.step
  rw [hcall]
  cases up with
  | false => exact Or.inr rfl
  | true =>
    cases hexec : exec e fresh cl with
    | none => right; simp [hexec]
    | some e' => left; exact ⟨e', rfl, by simp [hexec]⟩

/-- a call of the rollback is made -/
theorem recreateStep_made {exec : Engine} {r : Recreate} {cl : Call} {fresh : String} {up : Bool}
    (hcall : r.call = some cl) (hr : up = true ∧ ∀ cl, r.call = some cl → (exec e fresh cl).isSome = true) :
    ∃ e', exec e fresh cl = some e' ∧ recreateStep exec (r, e) (fresh, up) = (r.resume true fresh, e') := by
  obtain ⟨rfl, hserved⟩ := hr
  obtain ⟨e', hexec⟩ := Option.isSome_iff_exists.1 (hserved cl hcall)
  refine ⟨e', hexec, ?_⟩
  unfold recreateStep Recreate.step
  rw [hcall]
  simp [hexec]

/-- the function at a place -/
def placed (c : Container) (envs : List String) (p : Phase) : Recreate := { editOf c envs with phase := p }

variable (envs) in
/-- the restart of the rollback, if there is one -/
theorem expected_restart (hd : Distinct d) (hc : c ∈ d) (p : Phase) (he : e = stopped d c ∨ e = d.stop c.id) :
    Expected d c envs (placed c envs p).restart e ∧ (placed c envs p).restart.left ≤ 1 := by
  have hrestart : (placed c envs p).restart = if c.running = true then .rollbackStart else .failed := rfl
  rw [hrestart]
  split_ifs with hrun
  · exact ⟨⟨he, hrun⟩, le_rfl⟩
  · have hoff : c.running = false := Bool.eq_false_of_not_eq_true hrun
    rw [stopped_eq hd hc hoff, stop_eq hd hc hoff, or_self] at he
    exact ⟨he, Nat.zero_le _⟩

/-- **One call.** It leads to another place, and leaves the daemon as is expected there. -/
theorem step_expected {exec : Engine} (hexec : exec.Documented) (hd : Distinct d) (hc : c ∈ d) {p : Phase}
    (h : Expected d c envs p e) {fresh : String} {up : Bool} (hr : RollsBack exec (placed c envs p, e) (fresh, up)) :
    ∃ q e', recreateStep exec (placed c envs p, e) (fresh, up) = (placed c envs q, e') ∧ Expected d c envs q e' ∧
      q.left ≤ p.left - 1 := by
  have hname : (editOf c envs).inspect.name = c.name := editOf_inspect.2.1
  cases p with
  | stop =>
    obtain rfl : e = d := h
    have hcall : (placed c envs .stop).call = some (.stop c.id) := rfl
    rcases recreateStep_cases exec hcall e fresh up with ⟨e', hserved, hstep⟩ | hstep
    · exact ⟨.rename, e', hstep, hexec.stop hserved, by decide⟩
    · exact ⟨.failed, e, hstep, rfl, by decide⟩
  | rename =>
    obtain rfl : e = d.stop c.id := h
    have hcall : (placed c envs .rename).call = some (.rename c.id (editOf c envs).tempName) := rfl
    rcases recreateStep_cases exec hcall (d.stop c.id) fresh up with ⟨e', hserved, hstep⟩ | hstep
    · obtain ⟨hfound, rfl⟩ := hexec.rename hserved
      exact ⟨.create, _, hstep, aside_of_rename hd hc hfound, by decide⟩
    · obtain ⟨hexp, hleft⟩ := expected_restart envs hd hc .rename (Or.inr rfl)
      exact ⟨_, _, hstep, hexp, hleft.trans (by decide)⟩
  | create =>
    obtain rfl : e = aside d c envs := h
    have hids : List.map Container.id (aside d c envs) = List.map Container.id d := ids_update fun _ => rfl
    have hcall : (placed c envs .create).call = some (.create c.name envs (editOf c envs).hostConfig) := by
      rw [← hname]
      rfl
    rcases recreateStep_cases exec hcall (aside d c envs) fresh up with ⟨e', hserved, hstep⟩ | hstep
    · obtain ⟨hnew, rfl⟩ := hexec.create hserved
      rw [hids] at hnew
      by_cases hrun : c.running = true
      · have hresume : (placed c envs .create).resume true fresh = placed c envs (.start fresh) := by
          show placed c envs (if c.running then .start fresh else .cleanup fresh) = _
          rw [if_pos hrun]
        exact ⟨.start fresh, _, hresume ▸ hstep, ⟨rfl, hnew, hrun⟩, le_rfl⟩
      · have hresume : (placed c envs .create).resume true fresh = placed c envs (.cleanup fresh) := by
          show placed c envs (if c.running then .start fresh else .cleanup fresh) = _
          rw [if_neg hrun]
        have hoff : c.running = false := Bool.eq_false_of_not_eq_true hrun
        refine ⟨.cleanup fresh, _, hresume ▸ hstep, ⟨?_, hnew⟩, ?_⟩
        · rw [hoff]
          rfl
        · exact Nat.le_add_left 1 3
    · exact ⟨.rollbackRename, _, hstep, rfl, by decide⟩
  | start newID =>
    obtain ⟨rfl, hnew, hrun⟩ := h
    have hcall : (placed c envs (.start newID)).call = some (.start newID) := rfl
    rcases recreateStep_cases exec hcall _ fresh up with ⟨e', hserved, hstep⟩ | hstep
    · obtain ⟨-, rfl⟩ := hexec.start hserved
      refine ⟨.cleanup newID, _, hstep, ⟨?_, hnew⟩, Nat.le_add_left 1 2⟩
      rw [hrun]
      exact started hnew
    · exact ⟨.rollbackRemove newID, _, hstep, ⟨rfl, hnew, hrun⟩, le_rfl⟩
  | cleanup newID =>
    obtain ⟨rfl, hnew⟩ := h
    have hcall : (placed c envs (.cleanup newID)).call = some (.remove c.id false) := rfl
    obtain ⟨e', hserved, hstep⟩ := recreateStep_made hcall (hr rfl)
    exact ⟨.done newID, e', hstep, ⟨(hexec.remove hserved).trans (removed_original hnew hc _), hnew⟩, le_rfl⟩
  | rollbackRemove newID =>
    obtain ⟨rfl, hnew, -⟩ := h
    have hcall : (placed c envs (.rollbackRemove newID)).call = some (.remove newID true) := rfl
    obtain ⟨e', hserved, hstep⟩ := recreateStep_made hcall (hr rfl)
    exact ⟨.rollbackRename, e', hstep, (hexec.remove hserved).trans (removed_replacement hnew false), le_rfl⟩
  | rollbackRename =>
    obtain rfl : e = aside d c envs := h
    have hcall : (placed c envs .rollbackRename).call = some (.rename c.id c.name) := by
      rw [← hname]
      rfl
    obtain ⟨e', hserved, hstep⟩ := recreateStep_made hcall (hr rfl)
    have hback : e' = stopped d c := (hexec.rename hserved).2.trans (stopped_of_rename hd hc)
    obtain ⟨hexp, hleft⟩ := expected_restart envs hd hc .rollbackRename (Or.inl hback)
    exact ⟨_, e', hstep, hexp, hleft⟩
  | rollbackStart =>
    obtain ⟨he, hrun⟩ := h
    have hcall : (placed c envs .rollbackStart).call = some (.start c.id) := rfl
    obtain ⟨e', hserved, hstep⟩ := recreateStep_made hcall (hr rfl)
    obtain ⟨hfound, rfl⟩ := hexec.start hserved
    exact ⟨.failed, _, hstep, restored_of_start hd hc hrun he hfound, le_rfl⟩
  | done newID => exact ⟨.done newID, e, rfl, h, le_rfl⟩
  | failed => exact ⟨.failed, e, rfl, h, le_rfl⟩

end

/-! ## A whole run -/

/-- the replacement has the name of the original, and nothing else has changed -/
structure Replaced (d : Daemon) (c : Container) (envs : List String) (newID : String) (e : Daemon) : Prop where
  replacement : ∃ x ∈ e, x.name = c.name ∧ x.id = newID ∧ x.env = envs ∧ x.running = c.running
  only : ∀ x ∈ e, ∀ y ∈ e, x.name = c.name → y.name = c.name → x = y
  others : ∀ x : Container, x.name ≠ c.name → (x ∈ e ↔ x ∈ d)

section
variable {d e : Daemon} {c : Container} {envs : List String} {newID : String} (hd : Distinct d) (hc : c ∈ d)

include hd hc

theorem replaced_of_done (h : Expected d c envs (.done newID) e) : Replaced d c envs newID e := by
  obtain ⟨rfl, -⟩ := h
  have hother : ∀ x ∈ d, x.id ≠ c.id → x.name ≠ c.name := fun x hx hid hname =>
    hid (congrArg Container.id (List.inj_on_of_nodup_map hd.names hx hc hname))
  have hmem : ∀ x, x ∈ d.remove c.id ++ [replacement c envs newID c.running] ↔
      (x ∈ d ∧ x.id ≠ c.id) ∨ x = replacement c envs newID c.running := by
    intro x
    rw [Daemon.remove, List.mem_append, List.mem_filter, decide_eq_true_eq, List.mem_singleton]
  have hnamed : ∀ x ∈ d.remove c.id ++ [replacement c envs newID c.running],
      x.name = c.name → x = replacement c envs newID c.running := by
    intro x hx hname
    rcases (hmem x).1 hx with ⟨hxd, hid⟩ | hx
    · exact absurd hname (hother x hxd hid)
    · exact hx
  refine ⟨⟨_, (hmem _).2 (Or.inr rfl), rfl, rfl, rfl, rfl⟩, ?_, ?_⟩
  · intro x hx y hy hxn hyn
    rw [hnamed x hx hxn, hnamed y hy hyn]
  · intro x hname
    rw [hmem]
    constructor
    · rintro (⟨hxd, -⟩ | rfl)
      · exact hxd
      · exact absurd rfl hname
    · intro hxd
      refine Or.inl ⟨hxd, fun hid => hname ?_⟩
      have hx := find_of_mem hd.ids hxd
      rw [hid, find_of_mem hd.ids hc] at hx
      rw [Option.some.inj hx]

/-- a part of a run whose rollback succeeds -/
theorem run_expected {exec : Engine} (hexec : exec.Documented) (replies : List (String × Bool)) {p : Phase}
    (hexp : Expected d c envs p e)
    (hreplies : Each (recreateStep exec) (RollsBack exec) (placed c envs p, e) replies) :
    ∃ q e', run (recreateStep exec) (placed c envs p, e) replies = (placed c envs q, e') ∧ Expected d c envs q e' ∧
      q.left ≤ p.left - replies.length := by
  induction replies generalizing p e with
  | nil => exact ⟨p, e, rfl, hexp, le_rfl⟩
  | cons reply replies ih =>
    obtain ⟨q, e', hstep, hexp', hleft⟩ := step_expected hexec hd hc hexp hreplies.1
    have hrest := hreplies.2
    rw [hstep] at hrest
    obtain ⟨q', e'', hrun, hexp'', hleft'⟩ := ih hexp' hrest
    refine ⟨q', e'', ?_, hexp'', ?_⟩
    · rw [← hrun, ← hstep]
      rfl
    · rw [List.length_cons]
      omega

theorem recreate_expected {exec : Engine} (hexec : exec.Documented) (replies : List (String × Bool))
    (hreplies : Each (recreateStep exec) (RollsBack exec) (recreateContainerWithEnv c.inspect envs, d) replies) :
    ∃ q e, run (recreateStep exec) (recreateContainerWithEnv c.inspect envs, d) replies = (placed c envs q, e) ∧
      Expected d c envs q e ∧ q.left ≤ 7 - replies.length :=
  run_expected (p := .stop) hd hc hexec replies rfl hreplies

/-- **All or nothing.** On any engine that does what is documented, and whichever calls of the forward path fail: when
the edit ends with an error, the daemon is as it was; when it succeeds, the replacement has the name and the requested
environment, runs if the original did, and nothing else has changed. It ends after seven calls at most. -/
theorem recreate_all_or_nothing {exec : Engine} (hexec : exec.Documented) (replies : List (String × Bool))
    (hreplies : Each (recreateStep exec) (RollsBack exec) (recreateContainerWithEnv c.inspect envs, d) replies) :
    ((run (recreateStep exec) (recreateContainerWithEnv c.inspect envs, d) replies).1.phase = .failed →
      (run (recreateStep exec) (recreateContainerWithEnv c.inspect envs, d) replies).2 = d) ∧
    (∀ newID, (run (recreateStep exec) (recreateContainerWithEnv c.inspect envs, d) replies).1.phase = .done newID →
      Replaced d c envs newID (run (recreateStep exec) (recreateContainerWithEnv c.inspect envs, d) replies).2) ∧
    (7 ≤ replies.length →
      (run (recreateStep exec) (recreateContainerWithEnv c.inspect envs, d) replies).1.call = none) := by
  obtain ⟨q, e, hend, hexp, hleft⟩ := recreate_expected hd hc hexec replies hreplies
  rw [hend]
  refine ⟨?_, ?_, ?_⟩
  · rintro (rfl : q = .failed)
    exact hexp
  · rintro newID (rfl : q = .done newID)
    exact replaced_of_done hd hc hexp
  · intro hlen
    have hzero : q.left = 0 := by omega
    cases q <;> first | rfl | cases hzero

end

/-! ## A replacement that does not start -/

def webContainer : Container := { id := "w1", name := "web", env := ["A=1"], running := true }

def webAndDb : Daemon := [webContainer, { id := "d1", name := "db" }]

/-- the start of the replacement fails -/
def startFails : List (String × Bool) :=
  [("w2", true), ("w2", true), ("w2", true), ("w2", false), ("w2", true), ("w2", true), ("w2", true)]

/-- it is removed, and the original renamed back and started -/
theorem start_fails_restores :
    (run (recreateStep plainEngine) (recreateContainerWithEnv webContainer.inspect ["A=2"], webAndDb) startFails).2 =
      webAndDb := by
  have hd : Distinct webAndDb := ⟨by decide, by decide⟩
  have hreplies : Each (recreateStep plainEngine) (RollsBack plainEngine)
      (recreateContainerWithEnv webContainer.inspect ["A=2"], webAndDb) startFails := by
    have hserved : ∀ {s : Recreate × Daemon} {reply : String × Bool} {cl : Call}, s.1.call = some cl → reply.2 = true →
        (plainEngine s.2 reply.1 cl).isSome = true → RollsBack plainEngine s reply := by
      intro s reply cl hcall hup hsome _
      refine ⟨hup, fun cl' hcall' => ?_⟩
      rw [hcall, Option.some.injEq] at hcall'
      exact hcall' ▸ hsome
    have hforward : ∀ {s : Recreate × Daemon} {reply : String × Bool}, s.1.phase.compensates = false →
        RollsBack plainEngine s reply := by
      intro s reply hphase hcomp
      rw [hphase] at hcomp
      cases hcomp
    exact ⟨hforward rfl, hforward rfl, hforward rfl, hforward rfl, hserved rfl rfl (by decide),
      hserved rfl rfl (by decide), hserved rfl rfl (by decide), trivial⟩
  exact (recreate_all_or_nothing hd List.mem_cons_self plainEngine_documented startFails hreplies).1 (by decide)

end LogDeck.Docker
