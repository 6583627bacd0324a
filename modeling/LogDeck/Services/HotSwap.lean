/-
Replacing the clients of a running server (`services/registry.go`; `docker/client.go`: `NewMultiHostClient`, `Close`;
`coolify/client.go`: `NewMultiClient`; `cmd/server/main.go`: the callback of the manager).

Every change of the configuration runs the callback: it hands the configuration to the registry, makes new Docker clients,
puts them in the place of the old ones, which it closes 30 seconds later, and does the same for Coolify. Callbacks of several
changes can be under way at once; the step of one is what it does up to its next access to the registry. Requests take the
clients from the registry at any time. Which hosts a client can be made for is a parameter. `created` and `latest` are ghosts.

Results:
- `step_inv`: every client that was made is in one place;
- `step_agrees`: one callback after the other, the registry follows the last configuration;
- `hot_swap`: the clients of every run.
-/
import LogDeck.Config.Manager
import LogDeck.Lib.GracePeriod
import LogDeck.Lib.Machine

namespace LogDeck.Services

open LogDeck.Config (Config DockerHost CoolifyHostConfig)
open GracePeriod (Pool)
open Machine (run)

/-! ## Model -/

/-- what sets the clients that are made apart is when they are made -/
structure MultiHostClient where
  serial : ℕ
  hosts : List DockerHost
deriving DecidableEq, Repr

/-- `connect` makes the client of a host, or says why it cannot -/
def newMultiHostClient (connect : DockerHost → Except String Unit) (serial : ℕ) (hosts : List DockerHost) :
    Except String MultiHostClient := do
  hosts.forM connect
  return ⟨serial, hosts⟩

/-- `coolify.NewMultiClient`, which is nil without hosts -/
def newMultiClient (hosts : List CoolifyHostConfig) : Option (List CoolifyHostConfig) :=
  if hosts = [] then none else some hosts

/-- 30 seconds -/
def gracePeriod : ℕ := 30

/-- where a callback is -/
inductive Stage where
  | updateConfig
  | newDocker
  | swapDocker (client : MultiHostClient)
  | swapCoolify
deriving DecidableEq, Repr

structure Callback where
  cfg : Config
  stage : Stage
deriving DecidableEq, Repr

structure Registry where
  docker : Pool MultiHostClient
  coolify : Option (List CoolifyHostConfig)
  config : Config
  callbacks : List Callback
  created : List MultiHostClient
  /-- the configuration of the callback that started last -/
  latest : Config

def newRegistry (dockerClient : MultiHostClient) (cfg : Config) : Registry :=
  { docker := Pool.open_ dockerClient, coolify := newMultiClient cfg.coolifyHosts, config := cfg, callbacks := []
    created := [dockerClient], latest := cfg }

inductive Act where
  /-- the manager calls the callback -/
  | onChange (newCfg : Config)
  | advance (callback : Callback)
  | tick
  /-- the goroutine that was started for a replaced client wakes up -/
  | close (old : MultiHostClient × ℕ)
  /-- a request calls `registry.Docker()` -/
  | request
deriving DecidableEq, Repr

section
variable (connect : DockerHost → Except String Unit)

/-- the callback goes on, and is put back unless it returns -/
def Registry.advance (r : Registry) (c : Callback) : Registry :=
  if c ∈ r.callbacks then
    let others := r.callbacks.erase c
    match c.stage with
    | .updateConfig => { r with config := c.cfg, callbacks := { c with stage := .newDocker } :: others }
    | .newDocker =>
      match newMultiHostClient connect r.created.length c.cfg.dockerHosts with
      | .error _ => { r with callbacks := { c with stage := .swapCoolify } :: others }
      | .ok client =>
        { r with callbacks := { c with stage := .swapDocker client } :: others, created := client :: r.created }
    | .swapDocker client =>
      { r with docker := r.docker.replace client, callbacks := { c with stage := .swapCoolify } :: others }
    | .swapCoolify => { r with coolify := newMultiClient c.cfg.coolifyHosts, callbacks := others }
  else r

def Registry.step (r : Registry) : Act → Registry
  | .onChange newCfg =>
    { r with callbacks := ⟨newCfg, .updateConfig⟩ :: r.callbacks, latest := newCfg }
  | .advance callback => r.advance connect callback
  | .tick => { r with docker := r.docker.tick }
  | .close old => { r with docker := r.docker.close gracePeriod old }
  | .request => { r with docker := r.docker.take }

/-! ## Every client is in one place -/

def Stage.client : Stage → Option MultiHostClient
  | .swapDocker client => some client
  | _ => none

/-- the clients that were made and not yet put in place -/
def Registry.inHand (r : Registry) : List MultiHostClient := r.callbacks.filterMap fun c => c.stage.client

structure Inv (r : Registry) : Prop where
  safe : r.docker.Safe gracePeriod
  places : r.created.Perm (r.docker.all ++ r.inHand)
  nodup : r.created.Nodup
  serial_lt : ∀ client ∈ r.created, client.serial < r.created.length

variable {connect} {r : Registry}

theorem newRegistry_inv {dockerClient : MultiHostClient} (hserial : dockerClient.serial = 0) (cfg : Config) :
    Inv (newRegistry dockerClient cfg) := by
  refine ⟨Pool.open_safe _ _, List.Perm.refl _, List.nodup_singleton _, ?_⟩
  intro client hclient
  rw [List.mem_singleton.1 hclient, hserial]
  exact Nat.zero_lt_one

theorem newMultiHostClient_ok {serial : ℕ} {hosts : List DockerHost} {client : MultiHostClient}
    (h : newMultiHostClient connect serial hosts = .ok client) : client = ⟨serial, hosts⟩ := by
  simp only [newMultiHostClient, bind, Except.bind, pure, Except.pure] at h
  split at h
  · cases h
  · exact (Except.ok.inj h).symm

/-- the clients in hand when a callback leaves its place to another -/
theorem inHand_perm {c : Callback} (hc : c ∈ r.callbacks) :
    r.inHand.Perm (c.stage.client.toList ++ (r.callbacks.erase c).filterMap fun c => c.stage.client) := by
  refine ((List.perm_cons_erase hc).filterMap _).trans ?_
  cases h : c.stage.client with
  | none => simp [h]
  | some client => simp [h]

theorem advance_inv (h : Inv r) (c : Callback) : Inv (r.advance connect c) := by
  unfold Registry.advance
  split
  · rename_i hc
    have hhand := inHand_perm hc
    cases hstage : c.stage with
    | updateConfig =>
      rw [hstage] at hhand
      exact ⟨h.safe, h.places.trans (hhand.append_left _), h.nodup, h.serial_lt⟩
    | newDocker =>
      rw [hstage] at hhand
      dsimp only
      split
      · exact ⟨h.safe, h.places.trans (hhand.append_left _), h.nodup, h.serial_lt⟩
      · rename_i client hclient
        have hserial : client.serial = r.created.length := by rw [newMultiHostClient_ok hclient]
        have hfresh : client ∉ r.created := by
          intro hmem
          have hlt := h.serial_lt client hmem
          omega
        refine ⟨h.safe, ?_, List.nodup_cons.2 ⟨hfresh, h.nodup⟩, fun x hx => ?_⟩
        · exact ((h.places.trans (hhand.append_left _)).cons client).trans List.perm_middle.symm
        · rw [List.length_cons]
          rcases List.mem_cons.1 hx with rfl | hx
          · omega
          · exact (h.serial_lt x hx).trans (Nat.lt_succ_self _)
    | swapDocker client =>
      rw [hstage] at hhand
      have hplaces := h.places.trans (hhand.append_left _)
      have hnew : client ∉ r.docker.all := by
        intro hmem
        have hdisjoint := List.disjoint_of_nodup_append (hplaces.nodup_iff.1 h.nodup)
        exact hdisjoint hmem (List.mem_append_left _ (List.mem_singleton.2 rfl))
      refine ⟨h.safe.replace hnew, ?_, h.nodup, h.serial_lt⟩
      exact hplaces.trans List.perm_middle
    | swapCoolify =>
      rw [hstage] at hhand
      exact ⟨h.safe, h.places.trans (hhand.append_left _), h.nodup, h.serial_lt⟩
  · exact h

theorem step_inv (h : Inv r) (act : Act) : Inv (r.step connect act) := by
  cases act with
  | onChange newCfg => exact ⟨h.safe, h.places, h.nodup, h.serial_lt⟩
  | advance c => exact advance_inv h c
  | tick => exact ⟨h.safe.tick, h.places, h.nodup, h.serial_lt⟩
  | close old =>
    exact ⟨h.safe.close old, h.places.trans ((Pool.close_perm _ _ old).symm.append_right _), h.nodup, h.serial_lt⟩
  | request => exact ⟨h.safe.take, h.places, h.nodup, h.serial_lt⟩

/-! ## One callback after the other -/

/-- no callback is called while another is under way -/
def InTurn (r : Registry) : Act → Prop
  | .onChange _ => r.callbacks = []
  | _ => True

variable (connect) in
/-- the Docker clients are those of the latest configuration, if they can be made -/
def Connected (r : Registry) : Prop :=
  (∀ host ∈ r.latest.dockerHosts, connect host = .ok ()) → r.docker.current.hosts = r.latest.dockerHosts

variable (connect) in
/-- the callback of the latest configuration has done what comes before its stage -/
def Reached (r : Registry) : Stage → Prop
  | .updateConfig => True
  | .newDocker => r.config = r.latest
  | .swapDocker client => r.config = r.latest ∧ client.hosts = r.latest.dockerHosts
  | .swapCoolify => r.config = r.latest ∧ Connected connect r

variable (connect) in
/-- the registry has the latest configuration, or the one callback that is under way brings it there -/
def Agrees (r : Registry) : Prop :=
  (r.callbacks = [] ∧ r.config = r.latest ∧ r.coolify = newMultiClient r.latest.coolifyHosts ∧ Connected connect r) ∨
    ∃ stage, r.callbacks = [⟨r.latest, stage⟩] ∧ Reached connect r stage

theorem newMultiHostClient_error {serial : ℕ} {hosts : List DockerHost} {err : String}
    (h : newMultiHostClient connect serial hosts = .error err) : ¬ ∀ host ∈ hosts, connect host = .ok () := by
  intro hall
  have hconnects : hosts.forM connect = .ok () := by
    clear h
    induction hosts with
    | nil => rfl
    | cons host hosts ih =>
      simp only [List.forM_eq_forM, List.forM_cons, hall host List.mem_cons_self] at ih ⊢
      exact ih fun host hmem => hall host (List.mem_cons_of_mem _ hmem)
  rw [newMultiHostClient, hconnects] at h
  cases h

theorem advance_agrees (h : Agrees connect r) (c : Callback) : Agrees connect (r.advance connect c) := by
  unfold Registry.advance
  split
  · rename_i hc
    rcases h with ⟨hidle, -⟩ | ⟨stage, hone, hreached⟩
    · rw [hidle] at hc
      cases hc
    · rw [hone] at hc
      obtain rfl := List.mem_singleton.1 hc
      rw [hone, List.erase_cons_head]
      cases stage with
      | updateConfig => exact .inr ⟨.newDocker, rfl, rfl⟩
      | newDocker =>
        dsimp only
        split
        · rename_i err herr
          exact .inr ⟨.swapCoolify, rfl, hreached, fun hall => absurd hall (newMultiHostClient_error herr)⟩
        · rename_i client hclient
          have hhosts : client.hosts = r.latest.dockerHosts := by rw [newMultiHostClient_ok hclient]
          exact .inr ⟨.swapDocker client, rfl, hreached, hhosts⟩
      | swapDocker client => exact .inr ⟨.swapCoolify, rfl, hreached.1, fun _ => hreached.2⟩
      | swapCoolify => exact .inl ⟨rfl, hreached.1, rfl, hreached.2⟩
  · exact h

theorem close_current (old : MultiHostClient × ℕ) :
    (r.docker.close gracePeriod old).current = r.docker.current := by
  unfold Pool.close
  split <;> rfl

theorem step_agrees (h : Agrees connect r) {act : Act} (hturn : InTurn r act) :
    Agrees connect (r.step connect act) := by
  cases act with
  | onChange newCfg =>
    have hidle : r.callbacks = [] := hturn
    exact .inr ⟨.updateConfig, by simp [Registry.step, hidle], trivial⟩
  | advance c => exact advance_agrees h c
  | tick | request => exact h
  | close old =>
    have hconnected : Connected connect r → Connected connect (r.step connect (.close old)) := by
      intro hconnected hall
      exact (congrArg MultiHostClient.hosts (close_current old)).trans (hconnected hall)
    rcases h with ⟨hidle, hconfig, hcoolify, hhosts⟩ | ⟨stage, hone, hreached⟩
    · exact .inl ⟨hidle, hconfig, hcoolify, hconnected hhosts⟩
    · refine .inr ⟨stage, hone, ?_⟩
      cases stage with
      | swapCoolify => exact ⟨hreached.1, hconnected hreached.2⟩
      | updateConfig | newDocker | swapDocker client => exact hreached

variable (connect)

/-- **Hot swap.** In every run, however callbacks, requests and the goroutines that close clients interleave: a Docker client
that was made is in exactly one place, in the registry, in the hand of a callback, waiting to be closed, or closed; the one in
the registry is not closed, and neither is one that a request took less than 30 seconds ago. When callbacks come one after
the other, the registry has the latest configuration and the Coolify clients for it whenever none is under way, and the
Docker clients for it if they can be made. -/
theorem hot_swap (cfg : Config) (acts : List Act) :
    let r := run (Registry.step connect) (newRegistry ⟨0, cfg.dockerHosts⟩ cfg) acts
    (r.created.Perm (r.docker.current :: r.docker.retired.map Prod.fst ++ r.docker.closed ++ r.inHand) ∧ r.created.Nodup) ∧
      r.docker.current ∉ r.docker.closed ∧
      (∀ client t, (client, t) ∈ r.docker.taken → r.docker.now < t + gracePeriod → client ∉ r.docker.closed) ∧
      (Machine.Each (Registry.step connect) InTurn (newRegistry ⟨0, cfg.dockerHosts⟩ cfg) acts → r.callbacks = [] →
        r.config = r.latest ∧ r.coolify = newMultiClient r.latest.coolifyHosts ∧
          ((∀ host ∈ r.latest.dockerHosts, connect host = .ok ()) → r.docker.current.hosts = r.latest.dockerHosts)) := by
  intro r
  have hstep : ∀ r act, Inv r → Inv (Registry.step connect r act) := fun r act h => step_inv h act
  have hinv : Inv r := Machine.run_preserves hstep (newRegistry_inv rfl cfg) acts
  refine ⟨⟨hinv.places, hinv.nodup⟩, hinv.safe.current_open, fun _ _ => hinv.safe.held_open, fun hturns hidle => ?_⟩
  have hturn : ∀ r act, Agrees connect r → InTurn r act → Agrees connect (Registry.step connect r act) :=
    fun r act h hturn => step_agrees h hturn
  have hagrees : Agrees connect r := Machine.run_inv hturn (.inl ⟨rfl, rfl, rfl, fun _ => rfl⟩) hturns
  rcases hagrees with ⟨-, hsame⟩ | ⟨stage, hone, -⟩
  · exact hsame
  · rw [hidle] at hone
    cases hone

end

end LogDeck.Services
