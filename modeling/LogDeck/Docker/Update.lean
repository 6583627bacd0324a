/-
Resource limits (`docker/update.go`: `NanoCPUsFromHostConfig`, `buildUpdateConfig`, `UpdateContainerResources`;
`models/resources_update.go`: `Validate`).

A CPU limit is requested in nano-CPUs and set as a quota of a period of 100 ms. Both directions multiply before they
divide, in 64 bits; `Validate` asks only that the limit is not negative. The daemon reads a quota of zero as no change.

Results:
- `quota_eq`, `readback_eq`: the conversions where nothing overflows, in units of ten thousand nano-CPUs;
- `limit_kept_iff`: the limit is kept if and only if it is at least one such unit, and its product with the period fits;
- `limitKept_updateConfig`: what is sent to the daemon keeps it as well;
- `tiny_limit_lost`: one nano-CPU.
-/
import Mathlib.Algebra.Order.Ring.Int
import LogDeck.Lib.GoQuote

namespace LogDeck.Docker

/-! ## Requests -/

structure RestartPolicySpec where
  Name : String
  MaximumRetryCount : Int64
deriving DecidableEq, Repr

/-- a field that is omitted is left unchanged -/
structure UpdateResourcesRequest where
  MemoryBytes : Option Int64 := none
  NanoCPUs : Option Int64 := none
  RestartPolicy : Option RestartPolicySpec := none
deriving DecidableEq, Repr

def validRestartPolicyNames : List String := ["no", "always", "unless-stopped", "on-failure"]

def RestartPolicySpec.check (rp : RestartPolicySpec) : Except String Unit :=
  if rp.Name ∉ validRestartPolicyNames then
    .error ("invalid restart policy: " ++ GoQuote.quote rp.Name ++
      " (must be one of no, always, unless-stopped, on-failure)")
  else if rp.MaximumRetryCount < 0 then .error "maximumRetryCount must be >= 0"
  else if rp.MaximumRetryCount > 0 ∧ rp.Name ≠ "on-failure" then
    .error "maximumRetryCount is only valid with the on-failure restart policy"
  else .ok ()

def UpdateResourcesRequest.Validate (r : UpdateResourcesRequest) : Except String Unit :=
  if r.MemoryBytes.any (· < 0) then .error "memoryBytes must be >= 0"
  else if r.NanoCPUs.any (· < 0) then .error "nanoCPUs must be >= 0"
  else
    match r.RestartPolicy with
    | some rp => rp.check
    | none => .ok ()

/-! ## Configurations -/

/-- 100 ms, in microseconds -/
def cpuPeriod : Int64 := 100000

/-- a field of zero is left unchanged -/
structure UpdateConfig where
  Memory : Int64 := 0
  MemorySwap : Int64 := 0
  CPUPeriod : Int64 := 0
  CPUQuota : Int64 := 0
  RestartPolicy : RestartPolicySpec := ⟨"", 0⟩
deriving DecidableEq, Repr

/-- the CPU limit, whether it is stored as nano-CPUs or as a quota of a period -/
def NanoCPUsFromHostConfig (nanoCPUs quota period : Int64) : Int64 :=
  if nanoCPUs > 0 then nanoCPUs
  else if quota > 0 ∧ period > 0 then quota * 1000000000 / period
  else 0

def setMemory (cfg : UpdateConfig) : Option Int64 → UpdateConfig
  | some m => { cfg with Memory := m, MemorySwap := if m > 0 then -1 else cfg.MemorySwap }
  | none => cfg

def setCPUs (cfg : UpdateConfig) : Option Int64 → UpdateConfig
  | some n => if n > 0 then { cfg with CPUPeriod := cpuPeriod, CPUQuota := n * cpuPeriod / 1000000000 } else cfg
  | none => cfg

def buildUpdateConfig (req : UpdateResourcesRequest) : UpdateConfig :=
  let cfg := setCPUs (setMemory {} req.MemoryBytes) req.NanoCPUs
  match req.RestartPolicy with
  | some rp => { cfg with RestartPolicy := rp }
  | none => cfg

/-- `UpdateContainerResources`: a policy that is not requested is the container's own, which Podman would reset -/
def updateConfig (req : UpdateResourcesRequest) (current : RestartPolicySpec) : UpdateConfig :=
  if req.RestartPolicy = none then { buildUpdateConfig req with RestartPolicy := current } else buildUpdateConfig req

/-! ## What is claimed -/

/-- a result that 64 bits hold -/
def Fits (x : ℤ) : Prop := -2 ^ 63 ≤ x ∧ x < 2 ^ 63

/-- no product overflows, the quota is positive, and the limit it stands for is within ten thousand of the request -/
structure LimitKept (n : Int64) (cfg : UpdateConfig) : Prop where
  product : Fits (n.toInt * cpuPeriod.toInt)
  positive : 0 < cfg.CPUQuota
  readback : Fits (cfg.CPUQuota.toInt * 1000000000)
  le : NanoCPUsFromHostConfig 0 cfg.CPUQuota cfg.CPUPeriod ≤ n
  near : n.toInt - (NanoCPUsFromHostConfig 0 cfg.CPUQuota cfg.CPUPeriod).toInt < 10 ^ 4

/-! ## Arithmetic -/

theorem bmod_of_fits {x : ℤ} (h : Fits x) : x.bmod (2 ^ 64) = x := by
  obtain ⟨hlow, hhigh⟩ := h
  apply Int.bmod_eq_of_le <;> omega

/-- a product that fits is exact -/
theorem toInt_mul_of_fits {a b : Int64} (h : Fits (a.toInt * b.toInt)) : (a * b).toInt = a.toInt * b.toInt := by
  rw [Int64.toInt_mul, bmod_of_fits h]

/-- a quotient by a positive number rounds down, for what is not negative -/
theorem toInt_div_of_nonneg {a b : Int64} (ha : 0 ≤ a.toInt) (hb : 0 < b.toInt) :
    (a / b).toInt = a.toInt / b.toInt := by
  have hlt := a.toInt_lt
  have hle := Int.ediv_le_self b.toInt ha
  have hnonneg := Int.ediv_nonneg ha (Int.le_of_lt hb)
  rw [Int64.toInt_div, Int.tdiv_eq_ediv_of_nonneg ha, bmod_of_fits ⟨by omega, by omega⟩]

variable {n : Int64}

/-- a limit as a quota: whole units of ten thousand nano-CPUs -/
theorem quota_eq (hn : 0 < n) (hfits : Fits (n.toInt * cpuPeriod.toInt)) :
    (n * cpuPeriod / 1000000000).toInt = n.toInt / 10 ^ 4 := by
  have hpos : 0 < n.toInt := Int64.lt_iff_toInt_lt.1 hn
  have hperiod : cpuPeriod.toInt = 100000 := rfl
  have hbillion : (1000000000 : Int64).toInt = 1000000000 := rfl
  have hexact := toInt_mul_of_fits hfits
  rw [toInt_div_of_nonneg (by rw [hexact, hperiod]; omega) (by rw [hbillion]; omega), hexact, hperiod, hbillion]
  omega

/-- a quota as a limit -/
theorem readback_eq {q : Int64} (hq : 0 < q) (hfits : Fits (q.toInt * 1000000000)) :
    (NanoCPUsFromHostConfig 0 q cpuPeriod).toInt = q.toInt * 10 ^ 4 := by
  have hpos : 0 < q.toInt := Int64.lt_iff_toInt_lt.1 hq
  have hperiod : cpuPeriod.toInt = 100000 := rfl
  have hbillion : (1000000000 : Int64).toInt = 1000000000 := rfl
  have hexact : (q * 1000000000).toInt = q.toInt * 1000000000 := toInt_mul_of_fits (by rwa [hbillion])
  rw [NanoCPUsFromHostConfig, if_neg (by decide), if_pos ⟨hq, by decide⟩,
    toInt_div_of_nonneg (by rw [hexact]; omega) (by rw [hperiod]; omega), hexact, hperiod]
  omega

/-- the CPU limit of a configuration depends on no other field of the request -/
theorem build_cpus {req : UpdateResourcesRequest} (hreq : req.NanoCPUs = some n) (hn : 0 < n) :
    (buildUpdateConfig req).CPUQuota = n * cpuPeriod / 1000000000 ∧ (buildUpdateConfig req).CPUPeriod = cpuPeriod := by
  have hset : setCPUs (setMemory {} req.MemoryBytes) req.NanoCPUs =
      { setMemory {} req.MemoryBytes with CPUPeriod := cpuPeriod, CPUQuota := n * cpuPeriod / 1000000000 } := by
    rw [hreq]
    exact if_pos hn
  unfold buildUpdateConfig
  rw [hset]
  cases req.RestartPolicy with
  | none => exact ⟨rfl, rfl⟩
  | some rp => exact ⟨rfl, rfl⟩

/-- the policy of the container is sent where none is requested -/
theorem updateConfig_policy (req : UpdateResourcesRequest) (current : RestartPolicySpec) :
    (updateConfig req current).RestartPolicy = req.RestartPolicy.getD current := by
  unfold updateConfig buildUpdateConfig
  cases req.RestartPolicy with
  | none => rfl
  | some rp => rfl

/-! ## The limit -/

/-- what is sent has the same limit -/
theorem limitKept_updateConfig (req : UpdateResourcesRequest) (current : RestartPolicySpec) :
    LimitKept n (updateConfig req current) ↔ LimitKept n (buildUpdateConfig req) := by
  unfold updateConfig
  split_ifs
  · exact ⟨fun h => ⟨h.product, h.positive, h.readback, h.le, h.near⟩,
      fun h => ⟨h.product, h.positive, h.readback, h.le, h.near⟩⟩
  · exact Iff.rfl

/-- **The CPU limit, exactly.** The quota of a request is computed without overflow, is positive, and is read back as the
limit but for less than ten thousand nano-CPUs, if and only if the limit is at least that, and not so large that its
product with the period overflows. -/
theorem limit_kept_iff (req : UpdateResourcesRequest) (n : Int64) (hreq : req.NanoCPUs = some n) (hn : 0 < n) :
    LimitKept n (buildUpdateConfig req) ↔ 10 ^ 4 ≤ n.toInt ∧ n.toInt * 10 ^ 5 < 2 ^ 63 := by
  have hpos : 0 < n.toInt := Int64.lt_iff_toInt_lt.1 hn
  have hperiod : cpuPeriod.toInt = 10 ^ 5 := rfl
  obtain ⟨hquota, hcfg⟩ := build_cpus hreq hn
  constructor
  · intro hkept
    have hproduct := hkept.product
    have hq := Int64.lt_iff_toInt_lt.1 hkept.positive
    rw [hquota, quota_eq hn hproduct] at hq
    have hzero : (0 : Int64).toInt = 0 := rfl
    rw [hzero] at hq
    refine ⟨by omega, ?_⟩
    rw [← hperiod]
    exact hproduct.2
  · rintro ⟨hunit, hlt⟩
    have hproduct : Fits (n.toInt * cpuPeriod.toInt) := by
      rw [hperiod]
      exact ⟨by omega, hlt⟩
    have hq := quota_eq hn hproduct
    have hpositive : 0 < n * cpuPeriod / 1000000000 := by
      rw [Int64.lt_iff_toInt_lt, hq]
      change 0 < n.toInt / 10 ^ 4
      omega
    have hback : Fits ((n * cpuPeriod / 1000000000).toInt * 1000000000) := by
      rw [hq]
      exact ⟨by omega, by omega⟩
    have hread := readback_eq hpositive hback
    rw [hq] at hread
    refine ⟨hproduct, ?_, ?_, ?_, ?_⟩
    · rwa [hquota]
    · rwa [hquota]
    · rw [hquota, hcfg, Int64.le_iff_toInt_le, hread]
      omega
    · rw [hquota, hcfg, hread]
      omega

/-- one and a half CPUs -/
theorem limit_kept_iff_three_halves : LimitKept 1500000000 (buildUpdateConfig { NanoCPUs := some 1500000000 }) :=
  (limit_kept_iff { NanoCPUs := some 1500000000 } 1500000000 rfl (by decide)).2 (by decide)

/-- **A tiny limit is lost.** A request of one nano-CPU is accepted, and its quota is zero, which changes nothing. -/
theorem tiny_limit_lost : ¬ ∀ (req : UpdateResourcesRequest) (n : Int64), req.Validate = .ok () → req.NanoCPUs = some n →
    0 < n → LimitKept n (buildUpdateConfig req) := by
  intro hall
  have hpositive := (hall { NanoCPUs := some 1 } 1 rfl rfl (by decide)).positive
  revert hpositive
  decide

/-- a hundred thousand CPUs, whose product with the period wraps around -/
example : ¬ LimitKept 100000000000000 (buildUpdateConfig { NanoCPUs := some 100000000000000 }) := by
  intro hkept
  exact absurd hkept.product.2 (by decide)

end LogDeck.Docker
