/-
The notification of configuration updates (`config/manager.go`: `remerge`; `main.go`: the OnChange callback).

An update that merges takes a new generation under the manager's lock and calls the callbacks after it has released it:
before each callback it looks, again under the lock, whether a newer generation has been taken, and returns if so. The
check and the call are separate steps, and any number of other updates may run between them. The first callback is the
one that hands the configuration to the service registry.

Results:
- `step_inv`: the configuration of a call under way is the merged one if no newer update has been made;
- `act_upToDate`, `invoke_stale`: which calls keep and which break `UpToDate`;
- `callbacks_latest`: the runs in which the callbacks end on the latest configuration, and `stale_call_last`, one in
  which they do not.
-/
import LogDeck.Config.Transactions

namespace LogDeck.Config.Callbacks

/-- an Update call that is past its lock section -/
structure Call where
  gen : ℕ
  cfg : Config
  /-- the callback it comes to next -/
  next : ℕ
  /-- the generation has been found current for the next callback -/
  checked : Bool
deriving DecidableEq, Repr

structure State where
  manager : Manager
  /-- how many callbacks are registered -/
  callbacks : ℕ
  calls : ℕ → Option Call
  /-- the next Update call -/
  fresh : ℕ
  /-- the configuration each callback was last called with -/
  last : ℕ → Option Config

inductive Act where
  /-- the lock section of an Update call -/
  | update (op : UpdateOp) (w : World)
  /-- the call looks at the generation, or has no callback left -/
  | check (id : ℕ)
  /-- the callback runs -/
  | invoke (id : ℕ)

namespace State

/-- the updates that end in `remerge`, if they get there -/
def afterLock (s : State) (op : UpdateOp) (result : Manager × Option UpdateError) : State :=
  if op.remerges ∧ result.2 = none then
    { s with
      manager := result.1
      calls := Function.update s.calls s.fresh
        (some { gen := result.1.generation, cfg := result.1.merged, next := 0, checked := false })
      fresh := s.fresh + 1 }
  else { s with manager := result.1 }

def check (s : State) (id : ℕ) : State :=
  match s.calls id with
  | none => s
  | some c =>
    if c.checked then s
    else if s.callbacks ≤ c.next then { s with calls := Function.update s.calls id none }
    else if s.manager.generation ≠ c.gen then { s with calls := Function.update s.calls id none }
    else { s with calls := Function.update s.calls id (some { c with checked := true }) }

def invoke (s : State) (id : ℕ) : State :=
  match s.calls id with
  | none => s
  | some c =>
    if c.checked then
      { s with
        last := Function.update s.last c.next (some c.cfg)
        calls := Function.update s.calls id (some { c with next := c.next + 1, checked := false }) }
    else s

def act (env : Env) (s : State) : Act → State
  | .update op w => s.afterLock op (s.manager.update env w op)
  | .check id => s.check id
  | .invoke id => s.invoke id

end State

/-- a manager whose callbacks are registered and that has not been updated yet -/
def start (manager : Manager) (callbacks : ℕ) : State :=
  { manager := manager, callbacks := callbacks, calls := fun _ => none, fresh := 0, last := fun _ => none }

/-! ## What is asked -/

/-- once all calls have returned, what each callback was last called with is the merged configuration -/
def EndsOnLatest (s : State) : Prop :=
  (∀ id, s.calls id = none) → ∀ i < s.callbacks, ∀ cfg, s.last i = some cfg → cfg = s.manager.merged

/-- the latest update has yet to call the callback -/
def Pending (s : State) (i : ℕ) : Prop :=
  ∃ id c, s.calls id = some c ∧ c.gen = s.manager.generation ∧ c.next ≤ i

/-- each callback has been called with the merged configuration last, or is about to be -/
def UpToDate (s : State) : Prop :=
  ∀ i < s.callbacks, s.manager.generation = 0 ∨ s.last i = some s.manager.merged ∨ Pending s i

/-- a call hands over the merged configuration, or the latest update has yet to call the callback after it -/
def NotOvertaken (s : State) : Act → Prop
  | .invoke id => ∀ c, s.calls id = some c → c.checked = true → c.cfg = s.manager.merged ∨ Pending s c.next
  | _ => True

structure Inv (s : State) : Prop where
  wellFormed : s.manager.WellFormed
  gen_le : ∀ id c, s.calls id = some c → c.gen ≤ s.manager.generation
  gen_pos : ∀ id c, s.calls id = some c → 0 < c.gen
  current : ∀ id c, s.calls id = some c → c.gen = s.manager.generation → c.cfg = s.manager.merged
  checked : ∀ id c, s.calls id = some c → c.checked = true → c.next < s.callbacks
  quiet : s.manager.generation = 0 → ∀ i, s.last i = none

/-! ## One step -/

/-- an update leaves manager and calls as they are, or is the latest from now on and has yet to call every callback -/
theorem afterLock_cases (env : Env) {s : State} (hm : s.manager.WellFormed) (op : UpdateOp) (w : World) :
    (∃ m, s.act env (.update op w) = { s with manager := m } ∧ m.WellFormed ∧
      m.merged = s.manager.merged ∧ m.generation = s.manager.generation) ∨
    ∃ m, m.WellFormed ∧ m.generation = s.manager.generation + 1 ∧
      s.act env (.update op w) =
        { s with
          manager := m
          calls := Function.update s.calls s.fresh
            (some { gen := m.generation, cfg := m.merged, next := 0, checked := false })
          fresh := s.fresh + 1 } := by
  have hwf : (s.manager.update env w op).1.WellFormed := update_wellFormed hm (op, w)
  change (∃ m, s.afterLock op (s.manager.update env w op) = _ ∧ _) ∨
    ∃ m, _ ∧ _ ∧ s.afterLock op (s.manager.update env w op) = _
  unfold State.afterLock
  rcases update_cases env hm op w with ⟨e, herr, hr⟩ | ⟨hok, fc, -, -, hc⟩
  · have hnot : ¬ (op.remerges = true ∧ (s.manager.update env w op).2 = none) := by
      rintro ⟨-, hnone⟩
      rw [herr] at hnone
      cases hnone
    rw [if_neg hnot]
    exact .inl ⟨_, rfl, hwf, hr.merged, hr.generation⟩
  · have hgen := hc.generation
    have hmerged := hc.merged
    by_cases hre : op.remerges = true
    · rw [if_pos hre] at hgen
      rw [if_pos ⟨hre, hok⟩]
      exact .inr ⟨_, hwf, hgen, rfl⟩
    · rw [if_neg hre] at hgen hmerged
      rw [if_neg fun h => hre h.1]
      exact .inl ⟨_, rfl, hwf, hmerged, hgen⟩

/-- a check ends the call or lets it go on; it ends a call of the latest update only after the last callback -/
theorem check_cases (s : State) (id : ℕ) :
    s.check id = s ∨
    ∃ c, s.calls id = some c ∧ c.checked = false ∧
      ((s.check id = { s with calls := Function.update s.calls id none } ∧
          (s.callbacks ≤ c.next ∨ s.manager.generation ≠ c.gen)) ∨
        (s.check id = { s with calls := Function.update s.calls id (some { c with checked := true }) } ∧
          c.next < s.callbacks ∧ s.manager.generation = c.gen)) := by
  unfold State.check
  cases hc : s.calls id with
  | none => exact .inl rfl
  | some c =>
    cases hchk : c.checked with
    | true => exact .inl (by simp [hchk])
    | false =>
      refine .inr ⟨c, rfl, hchk, ?_⟩
      by_cases hnext : s.callbacks ≤ c.next
      · exact .inl ⟨by simp [hchk, hnext], .inl hnext⟩
      by_cases hgen : s.manager.generation = c.gen
      · exact .inr ⟨by simp [hchk, hnext, hgen], by omega, hgen⟩
      · exact .inl ⟨by simp [hchk, hnext, hgen], .inr hgen⟩

theorem invoke_cases (s : State) (id : ℕ) :
    (s.invoke id = s ∧ ∀ c, s.calls id = some c → c.checked ≠ true) ∨
    ∃ c, s.calls id = some c ∧ c.checked = true ∧
      s.invoke id =
        { s with
          last := Function.update s.last c.next (some c.cfg)
          calls := Function.update s.calls id (some { c with next := c.next + 1, checked := false }) } := by
  unfold State.invoke
  cases hc : s.calls id with
  | none => exact .inl ⟨rfl, nofun⟩
  | some c =>
    by_cases hchk : c.checked = true
    · exact .inr ⟨c, rfl, hchk, by simp only [if_pos hchk]⟩
    · refine .inl ⟨by simp only [if_neg hchk], ?_⟩
      intro c' hsame
      cases hsame
      exact hchk

/-- the calls after one of them has moved on, in the same update -/
theorem calls_update {calls : ℕ → Option Call} {id : ℕ} {new : Option Call} {P : ℕ → Call → Prop}
    (hold : ∀ id' c', calls id' = some c' → P id' c') (hnew : ∀ c', new = some c' → P id c') :
    ∀ id' c', Function.update calls id new id' = some c' → P id' c' := by
  intro id' c' h
  by_cases hid : id' = id
  · subst hid
    rw [Function.update_self] at h
    exact hnew c' h
  · rw [Function.update_of_ne hid] at h
    exact hold id' c' h

theorem update_inv (env : Env) {s : State} (hi : Inv s) (op : UpdateOp) (w : World) :
    Inv (s.act env (.update op w)) := by
  rcases afterLock_cases env hi.wellFormed op w with ⟨m, heq, hwf, hmerged, hgen⟩ | ⟨m, hwf, hgen, heq⟩
  · rw [heq]
    refine ⟨hwf, ?_, hi.gen_pos, ?_, hi.checked, ?_⟩
    · simpa only [hgen] using hi.gen_le
    · simpa only [hgen, hmerged] using hi.current
    · simpa only [hgen] using hi.quiet
  · rw [heq]
    refine ⟨hwf, calls_update ?_ ?_, calls_update hi.gen_pos ?_, calls_update ?_ ?_,
      calls_update hi.checked ?_, ?_⟩
    · intro id c hc
      have hle := hi.gen_le id c hc
      dsimp only
      omega
    · intro c hsame
      cases hsame
      exact le_rfl
    · intro c hsame
      cases hsame
      dsimp only
      omega
    · intro id c hc hcur
      have hle := hi.gen_le id c hc
      dsimp only at hcur
      omega
    · intro c hsame _
      cases hsame
      rfl
    · intro c hsame hother
      cases hsame
      cases hother
    · intro hzero
      dsimp only at hzero
      omega

theorem check_inv {s : State} (hi : Inv s) (id : ℕ) : Inv (s.check id) := by
  rcases check_cases s id with heq | ⟨c, hc, -, ⟨heq, -⟩ | ⟨heq, hnext, -⟩⟩
  · rw [heq]
    exact hi
  · rw [heq]
    exact ⟨hi.wellFormed, calls_update hi.gen_le nofun, calls_update hi.gen_pos nofun,
      calls_update hi.current nofun, calls_update hi.checked nofun, hi.quiet⟩
  · rw [heq]
    refine ⟨hi.wellFormed, calls_update hi.gen_le ?_, calls_update hi.gen_pos ?_, calls_update hi.current ?_,
      calls_update hi.checked ?_, hi.quiet⟩
    · intro c' hsame
      cases hsame
      exact hi.gen_le id c hc
    · intro c' hsame
      cases hsame
      exact hi.gen_pos id c hc
    · intro c' hsame
      cases hsame
      exact hi.current id c hc
    · intro c' hsame _
      cases hsame
      exact hnext

theorem invoke_inv {s : State} (hi : Inv s) (id : ℕ) : Inv (s.invoke id) := by
  rcases invoke_cases s id with ⟨heq, -⟩ | ⟨c, hc, hchk, heq⟩
  · rw [heq]
    exact hi
  · rw [heq]
    refine ⟨hi.wellFormed, calls_update hi.gen_le ?_, calls_update hi.gen_pos ?_, calls_update hi.current ?_,
      calls_update hi.checked ?_, ?_⟩
    · intro c' hsame
      cases hsame
      exact hi.gen_le id c hc
    · intro c' hsame
      cases hsame
      exact hi.gen_pos id c hc
    · intro c' hsame
      cases hsame
      exact hi.current id c hc
    · intro c' hsame hother
      cases hsame
      cases hother
    · intro hzero
      have hle := hi.gen_le id c hc
      have hpos := hi.gen_pos id c hc
      dsimp only at hzero
      omega

theorem step_inv (env : Env) {s : State} (hi : Inv s) (a : Act) : Inv (s.act env a) := by
  cases a with
  | update op w => exact update_inv env hi op w
  | check id => exact check_inv hi id
  | invoke id => exact invoke_inv hi id

theorem start_inv {m : Manager} (hm : m.WellFormed) (callbacks : ℕ) : Inv (start m callbacks) :=
  ⟨hm, nofun, nofun, nofun, nofun, fun _ _ => rfl⟩

/-! ## Which calls keep the callbacks up to date -/

/-- a check does not take away the call that a callback waits for -/
theorem check_pending {s : State} {id i : ℕ} (hi : i < s.callbacks) (h : Pending s i) : Pending (s.check id) i := by
  obtain ⟨id', c', hc', hgen, hnext⟩ := h
  rcases check_cases s id with heq | ⟨c, hc, -, ⟨heq, hend⟩ | ⟨heq, -, -⟩⟩
  · rw [heq]
    exact ⟨id', c', hc', hgen, hnext⟩
  · have hid : id' ≠ id := by
      rintro rfl
      rw [hc] at hc'
      cases hc'
      omega
    rw [heq]
    exact ⟨id', c', by simp only [Function.update_of_ne hid, hc'], hgen, hnext⟩
  · rw [heq]
    by_cases hid : id' = id
    · subst hid
      rw [hc] at hc'
      cases hc'
      exact ⟨id', _, Function.update_self .., hgen, hnext⟩
    · exact ⟨id', c', by simp only [Function.update_of_ne hid, hc'], hgen, hnext⟩

theorem act_upToDate (env : Env) {s : State} (hi : Inv s) (h : UpToDate s) {a : Act} (ha : NotOvertaken s a) :
    UpToDate (s.act env a) := by
  cases a with
  | update op w =>
    rcases afterLock_cases env hi.wellFormed op w with ⟨m, heq, -, hmerged, hgen⟩ | ⟨m, -, hgen, heq⟩
    · rw [heq]
      intro i hlt
      rcases h i hlt with h | h | ⟨id, c, hc, hcur, hnext⟩
      · exact .inl (hgen.trans h)
      · exact .inr (.inl (by simp only [hmerged, h]))
      · exact .inr (.inr ⟨id, c, hc, hcur.trans hgen.symm, hnext⟩)
    · rw [heq]
      exact fun i _ => .inr (.inr ⟨s.fresh, _, Function.update_self .., rfl, Nat.zero_le i⟩)
  | check id =>
    intro i hlt
    have hsame : (s.check id).manager = s.manager ∧ (s.check id).last = s.last ∧
        (s.check id).callbacks = s.callbacks := by
      rcases check_cases s id with heq | ⟨c, -, -, ⟨heq, -⟩ | ⟨heq, -⟩⟩ <;> rw [heq] <;> exact ⟨rfl, rfl, rfl⟩
    change i < (s.check id).callbacks at hlt
    rw [hsame.2.2] at hlt
    change (s.check id).manager.generation = 0 ∨ (s.check id).last i = some (s.check id).manager.merged ∨
      Pending (s.check id) i
    rw [hsame.1, hsame.2.1]
    rcases h i hlt with h | h | h
    · exact .inl h
    · exact .inr (.inl h)
    · exact .inr (.inr (check_pending hlt h))
  | invoke id =>
    change UpToDate (s.invoke id)
    rcases invoke_cases s id with ⟨heq, -⟩ | ⟨c, hc, hchk, heq⟩
    · rw [heq]
      exact h
    rw [heq]
    intro i hlt
    by_cases hic : i = c.next
    · subst hic
      rcases ha c hc hchk with hcfg | ⟨id', c', hc', hgen, hnext⟩
      · exact .inr (.inl (by simp only [Function.update_self, hcfg]))
      · by_cases hid : id' = id
        · subst hid
          rw [hc] at hc'
          cases hc'
          have hcfg := hi.current id' c hc hgen
          exact .inr (.inl (by simp only [Function.update_self, hcfg]))
        · exact .inr (.inr ⟨id', c', by simp only [Function.update_of_ne hid, hc'], hgen, hnext⟩)
    · rcases h i hlt with h | h | ⟨id', c', hc', hgen, hnext⟩
      · exact .inl h
      · exact .inr (.inl (by simp only [Function.update_of_ne hic, h]))
      · by_cases hid : id' = id
        · subst hid
          rw [hc] at hc'
          cases hc'
          exact .inr (.inr ⟨id', _, Function.update_self .., hgen, by dsimp only; omega⟩)
        · exact .inr (.inr ⟨id', c', by simp only [Function.update_of_ne hid, hc'], hgen, hnext⟩)

/-- a call that was overtaken leaves its callback on an older configuration -/
theorem invoke_stale (env : Env) {s : State} (hi : Inv s) {a : Act} (ha : ¬ NotOvertaken s a) :
    ¬ UpToDate (s.act env a) := by
  cases a with
  | update op w => exact absurd trivial ha
  | check id => exact absurd trivial ha
  | invoke id =>
    simp only [NotOvertaken] at ha
    push Not at ha
    obtain ⟨c, hc, hchk, hcfg, hpend⟩ := ha
    have heq : s.act env (.invoke id) =
        { s with
          last := Function.update s.last c.next (some c.cfg)
          calls := Function.update s.calls id (some { c with next := c.next + 1, checked := false }) } := by
      simp [State.act, State.invoke, hc, hchk]
    rw [heq]
    intro h
    rcases h c.next (hi.checked id c hc hchk) with hzero | hlast | ⟨id', c', hc', hgen, hnext⟩
    · have hpos := hi.gen_pos id c hc
      have hle := hi.gen_le id c hc
      dsimp only at hzero
      omega
    · simp only [Function.update_self, Option.some.injEq] at hlast
      exact hcfg hlast
    · by_cases hid : id' = id
      · subst hid
        simp only [Function.update_self, Option.some.injEq] at hc'
        subst hc'
        exact hcfg (hi.current id' c hc hgen)
      · simp only [Function.update_of_ne hid] at hc'
        exact hpend ⟨id', c', hc', hgen, hnext⟩

/-- when no call is left, up to date callbacks were called with the merged configuration last -/
theorem UpToDate.endsOnLatest {s : State} (hi : Inv s) (h : UpToDate s) : EndsOnLatest s := by
  intro hdone i hlt cfg hlast
  rcases h i hlt with hzero | hcur | ⟨id, c, hc, -, -⟩
  · rw [hi.quiet hzero i] at hlast
    cases hlast
  · rw [hcur] at hlast
    exact (Option.some.inj hlast).symm
  · rw [hdone id] at hc
    cases hc

/-- **Callbacks and the latest configuration.** In every run of concurrent Update calls in which no call to a callback
is overtaken, the callbacks end on the merged configuration whenever all calls have returned. A call that was overtaken
ends that at once: the callbacks are up to date throughout a run exactly when no call of it is overtaken. -/
theorem callbacks_latest (env : Env) (w : World) (newChannelID : String) (disk : FileConfig) (callbacks : ℕ)
    (acts : List Act) :
    (Machine.Each (State.act env) NotOvertaken (start (newManager env w newChannelID disk) callbacks) acts →
      Machine.Always (State.act env) EndsOnLatest (start (newManager env w newChannelID disk) callbacks) acts) ∧
    (Machine.Always (State.act env) UpToDate (start (newManager env w newChannelID disk) callbacks) acts ↔
      Machine.Each (State.act env) NotOvertaken (start (newManager env w newChannelID disk) callbacks) acts) := by
  have hstart : Inv (start (newManager env w newChannelID disk) callbacks) :=
    start_inv (newManager_wellFormed ..) callbacks
  have hfresh : UpToDate (start (newManager env w newChannelID disk) callbacks) := fun _ _ => .inl rfl
  have hkeep : ∀ s a, Inv s ∧ UpToDate s → NotOvertaken s a → Inv (s.act env a) ∧ UpToDate (s.act env a) :=
    fun s a hs ha => ⟨step_inv env hs.1 a, act_upToDate env hs.1 hs.2 ha⟩
  constructor
  · exact Machine.always_of_each (fun s hs => hs.2.endsOnLatest hs.1) hkeep ⟨hstart, hfresh⟩
  · exact Machine.always_iff_each (fun s hs => hs.2) hkeep (fun s a hs => invoke_stale env hs.1) ⟨hstart, hfresh⟩

/-- two updates of the read-only mode and one callback: the first call is overtaken between its check and the call -/
def overtaken : List Act :=
  [.update (.readOnly true) writable, .check 0, .update (.readOnly false) writable, .check 1, .invoke 1, .check 1,
    .invoke 0, .check 0]

/-- **An overtaken call stays.** Both calls have returned, and the callback was last called with the read-only mode on,
while it is off in the merged configuration. -/
theorem stale_call_last :
    ¬ ∀ (env : Env) (w : World) (newChannelID : String) (disk : FileConfig) (callbacks : ℕ) (acts : List Act),
      EndsOnLatest (Machine.run (State.act env) (start (newManager env w newChannelID disk) callbacks) acts) := by
  intro h
  have hend := h noEnv writable "" noFile 1 overtaken
  set s := Machine.run (State.act noEnv) (start (newManager noEnv writable "" noFile) 1) overtaken
  have hdone : ∀ id, s.calls id = none := by
    intro id
    rcases id with _ | _ | id <;> rfl
  have hlast : s.last 0 = some { readOnly := true, dockerHosts := [writable.localHost], coolifyHosts := [] } := rfl
  have hmerged : s.manager.merged = { readOnly := false, dockerHosts := [writable.localHost], coolifyHosts := [] } :=
    rfl
  have hstale := (hend hdone 0 (by decide) _ hlast).trans hmerged
  exact absurd (congrArg Config.readOnly hstale) (by decide)

end LogDeck.Config.Callbacks
