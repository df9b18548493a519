import SwarmCloud.Common.Pools
import Mathlib.Order.Lattice
import Mathlib.Order.MinMax

/-! # The adaptive target

`quota_broker/aimd.py`: pure functions of one quota state. Each is handed the
instant it runs at and the hard limit of the tenant's pool, when there is one.
-/

namespace SwarmCloud.Quota

open Common

inductive ProviderState
  | available
  | throttled
  | exhausted
  | cooldown
  | unknown
  | disabled
deriving DecidableEq, Repr

/-- The values `AimdConfig.__post_init__` lets through. The multiplier is a
floating-point fraction between 0 and 1, and `scaled n` is `floor(n * it)`: a
product with such a fraction never leaves the interval from 0 to its argument. -/
structure AimdConfig where
  additiveIncrease : Int
  scaled : Int → Int
  successThreshold : Int
  minTarget : Int
  defaultCooldownSeconds : Int
  maxCooldownSeconds : Int
  exhaustionThreshold : Int
  recoveryIntervalSeconds : Int
  additiveIncrease_pos : 0 < additiveIncrease
  scaled_nonneg : ∀ n, 0 ≤ n → 0 ≤ scaled n
  scaled_le : ∀ n, 0 ≤ n → scaled n ≤ n
  successThreshold_pos : 0 < successThreshold
  minTarget_nonneg : 0 ≤ minTarget
  recoveryIntervalSeconds_nonneg : 0 ≤ recoveryIntervalSeconds

/-- The defaults, where the multiplier is a half. -/
def AimdConfig.default : AimdConfig where
  additiveIncrease := 1
  scaled n := n / 2
  successThreshold := 20
  minTarget := 1
  defaultCooldownSeconds := 30
  maxCooldownSeconds := 900
  exhaustionThreshold := 5
  recoveryIntervalSeconds := 300
  additiveIncrease_pos := by decide
  scaled_nonneg n hn := by omega
  scaled_le n hn := by omega
  successThreshold_pos := by decide
  minTarget_nonneg := by decide
  recoveryIntervalSeconds_nonneg := by decide

structure QuotaState where
  provider : String
  tenantId : String
  state : ProviderState
  updatedAt : Instant
  configuredHardMax : Int := 50
  adaptiveTarget : Option Int := none
  quotaDerivedLimit : Option Int := none
  requestsRemaining : Option Int := none
  tokensRemaining : Option Int := none
  resetAt : Option Instant := none
  cooldownUntil : Option Instant := none
  last429At : Option Instant := none
  retryAfterSeconds : Option Int := none
  successCount : Int := 0
  rateLimitCount : Int := 0
deriving DecidableEq, Repr

def ceilingOf (s : QuotaState) (poolHardLimit : Option Int) : Int :=
  poolHardLimit.elim (max 0 s.configuredHardMax) fun limit =>
    min (max 0 s.configuredHardMax) (max 0 limit)

def floorOf (config : AimdConfig) (s : QuotaState) (poolHardLimit : Option Int) : Int :=
  min config.minTarget (ceilingOf s poolHardLimit)

/-- `_clamp` of a value already rounded down. -/
def clamp (config : AimdConfig) (poolHardLimit : Option Int) (s : QuotaState) (value : Int) :
    Int :=
  let target := if value < floorOf config s poolHardLimit then floorOf config s poolHardLimit
    else value
  if ceilingOf s poolHardLimit < target then ceilingOf s poolHardLimit else target

def currentTarget (config : AimdConfig) (poolHardLimit : Option Int) (s : QuotaState) : Int :=
  clamp config poolHardLimit s (s.adaptiveTarget.getD s.configuredHardMax)

def initialState (provider tenantId : String) (configuredHardMax : Int) (now : Instant) :
    QuotaState where
  provider := provider
  tenantId := tenantId
  state := .available
  updatedAt := now
  configuredHardMax := configuredHardMax
  adaptiveTarget := some configuredHardMax

/-- `_run_count`: a count with no 429 behind it is read as 0. -/
def runCount (s : QuotaState) : Int :=
  match s.last429At with
  | none => 0
  | some _ => max 0 s.rateLimitCount

structure SuccessReport where
  requestsRemaining : Option Int := none
  tokensRemaining : Option Int := none
  resetAt : Option Instant := none
deriving DecidableEq, Repr

structure RefusalReport where
  retryAfterSeconds : Option Int := none
  resetAt : Option Instant := none
deriving DecidableEq, Repr

section Signals

variable (config : AimdConfig) (poolHardLimit : Option Int) (now : Instant)

def recordSuccess (report : SuccessReport) (s : QuotaState) : QuotaState :=
  if s.state = .disabled then
    { s with successCount := s.successCount + 1, rateLimitCount := 0, updatedAt := now }
  else
    let successes := s.successCount + 1
    let target := currentTarget config poolHardLimit s
    let full := decide (config.successThreshold ≤ successes)
    { s with
      state := .available
      adaptiveTarget := some
        (if full then clamp config poolHardLimit s (target + config.additiveIncrease) else target)
      successCount := if full then 0 else successes
      cooldownUntil := none
      quotaDerivedLimit := none
      retryAfterSeconds := none
      rateLimitCount := 0
      requestsRemaining := report.requestsRemaining.or s.requestsRemaining
      tokensRemaining := report.tokensRemaining.or s.tokensRemaining
      resetAt := report.resetAt.or s.resetAt
      updatedAt := now }

/-- The provider's own wait, else the time to its reset, else `fallback`, within
the configured bound. -/
def cooldownSeconds (report : RefusalReport) (fallback : Int) : Int :=
  let asked := match report.retryAfterSeconds, report.resetAt with
    | some wait, _ => wait
    | none, some reset => max 0 (reset - now) / seconds 1
    | none, none => fallback
  max 0 (min asked config.maxCooldownSeconds)

/-- What a 429 and a spent window share: the cut, the cooldown and the run. -/
def refused (report : RefusalReport) (fallback : Int) (next : ProviderState) (s : QuotaState) :
    QuotaState :=
  let wait := cooldownSeconds config now report fallback
  { s with
    state := if s.state = .disabled then .disabled else next
    adaptiveTarget := some
      (clamp config poolHardLimit s (config.scaled (currentTarget config poolHardLimit s)))
    quotaDerivedLimit := some 0
    cooldownUntil := some (now + seconds wait)
    retryAfterSeconds := some wait
    resetAt := report.resetAt.or s.resetAt
    last429At := some now
    rateLimitCount := runCount s + 1
    successCount := 0
    updatedAt := now }

def recordRateLimit (report : RefusalReport) (s : QuotaState) : QuotaState :=
  refused config poolHardLimit now report config.defaultCooldownSeconds
    (if config.exhaustionThreshold ≤ runCount s + 1 then .exhausted else .throttled) s

def recordExhausted (report : RefusalReport) (s : QuotaState) : QuotaState :=
  refused config poolHardLimit now report config.maxCooldownSeconds .exhausted s

/-- `reset_target`; `none` is `TargetResetRefused`. -/
def resetTarget (target : Int) (clearCooldown : Bool) (s : QuotaState) : Option QuotaState :=
  if s.state = .exhausted ∧ clearCooldown = false then none
  else
    let changed := { s with
      adaptiveTarget := some (clamp config poolHardLimit s target)
      successCount := 0
      rateLimitCount := 0
      updatedAt := now }
    if clearCooldown then
      some { changed with
        state := if s.state = .disabled then .disabled else .available
        cooldownUntil := none
        retryAfterSeconds := none
        quotaDerivedLimit := none
        resetAt := none }
    else some changed

def hasPassed (at? : Option Instant) : Bool :=
  match at? with
  | none => true
  | some instant => decide (instant ≤ now)

/-- `refresh`: retire a cooldown and a reset window that have both passed. -/
def refresh (s : QuotaState) : QuotaState :=
  if s.state = .disabled then s
  else if ¬ (hasPassed now s.cooldownUntil ∧ hasPassed now s.resetAt) then s
  else if s.state = .available ∨ s.state = .unknown then s
  else
    { s with
      state := .available
      quotaDerivedLimit := none
      cooldownUntil := none
      retryAfterSeconds := none
      resetAt := none
      rateLimitCount := 0
      adaptiveTarget := some (currentTarget config poolHardLimit s)
      updatedAt := now }

/-- Where the quiet time is counted from. -/
def recoveryStart (clockAt : Option Instant) (s : QuotaState) : Instant :=
  (clockAt.or s.last429At).getD s.updatedAt

structure Recovery where
  state : QuotaState
  clock : Option Instant
  spent : Int
deriving DecidableEq, Repr

def recoverOverTime (clockAt : Option Instant) (s : QuotaState) : Recovery :=
  if config.recoveryIntervalSeconds ≤ 0 ∨ s.state = .disabled then ⟨s, clockAt, 0⟩
  else
    let start := recoveryStart clockAt s
    let target := currentTarget config poolHardLimit s
    if ceilingOf s poolHardLimit ≤ target ∨ now ≤ start then ⟨s, clockAt, 0⟩
    else
      let intervals := (now - start) / seconds config.recoveryIntervalSeconds
      if intervals ≤ 0 then ⟨s, some start, 0⟩
      else
        let raised := clamp config poolHardLimit s (target + intervals)
        let spent := min intervals (raised - target)
        if spent ≤ 0 then ⟨s, clockAt, 0⟩
        else
          ⟨{ s with adaptiveTarget := some raised, updatedAt := now },
            some (start + seconds (spent * config.recoveryIntervalSeconds)), spent⟩

/-- `recovery_clock`: restarted by a new refusal or a move of the target, as the
given pool limit lets either be seen. -/
def recoveryClock (before after : QuotaState) (clockAt : Option Instant) : Option Instant :=
  if currentTarget config poolHardLimit before ≠ currentTarget config poolHardLimit after ∨
      after.last429At ≠ before.last429At then some now
  else clockAt

/-- `quota_derived_limit_for`, dated by the state's own last write. -/
def quotaDerivedLimitFor (s : QuotaState) : Int :=
  if s.state = .exhausted ∨ s.state = .disabled ∨ s.state = .cooldown then 0
  else if hasPassed s.updatedAt s.cooldownUntil then currentTarget config poolHardLimit s
  else 0

end Signals

section Clamp

variable {config : AimdConfig} {poolHardLimit : Option Int} {s : QuotaState} {value : Int}

theorem ceilingOf_nonneg : 0 ≤ ceilingOf s poolHardLimit := by
  cases poolHardLimit with
  | none => exact le_max_left _ _
  | some limit => exact le_min (le_max_left _ _) (le_max_left _ _)

theorem ceilingOf_le_hardMax : ceilingOf s poolHardLimit ≤ max 0 s.configuredHardMax := by
  cases poolHardLimit with
  | none => exact le_rfl
  | some limit => exact min_le_left _ _

theorem ceilingOf_le_pool {limit : Int} (h : poolHardLimit = some limit) :
    ceilingOf s poolHardLimit ≤ max 0 limit := by
  subst h
  exact min_le_right _ _

theorem floorOf_le_ceilingOf : floorOf config s poolHardLimit ≤ ceilingOf s poolHardLimit :=
  min_le_right _ _

theorem floorOf_nonneg : 0 ≤ floorOf config s poolHardLimit :=
  le_min config.minTarget_nonneg ceilingOf_nonneg

theorem clamp_le_ceilingOf : clamp config poolHardLimit s value ≤ ceilingOf s poolHardLimit := by
  unfold clamp
  dsimp only
  split <;> omega

theorem floorOf_le_clamp : floorOf config s poolHardLimit ≤ clamp config poolHardLimit s value := by
  have h := @floorOf_le_ceilingOf config poolHardLimit s
  unfold clamp
  dsimp only
  split <;> split <;> omega

theorem clamp_of_mem (hfloor : floorOf config s poolHardLimit ≤ value)
    (hceiling : value ≤ ceilingOf s poolHardLimit) :
    clamp config poolHardLimit s value = value := by
  unfold clamp
  rw [if_neg (by omega), if_neg (by omega)]

theorem clamp_le_of_floorOf_le {bound : Int} (hfloor : floorOf config s poolHardLimit ≤ bound)
    (hvalue : value ≤ bound) : clamp config poolHardLimit s value ≤ bound := by
  unfold clamp
  dsimp only
  split <;> split at * <;> omega

theorem clamp_nonneg : 0 ≤ clamp config poolHardLimit s value :=
  floorOf_nonneg.trans floorOf_le_clamp

theorem clamp_eq_ceilingOf (h : ceilingOf s poolHardLimit ≤ value) :
    clamp config poolHardLimit s value = ceilingOf s poolHardLimit := by
  have hle := @floorOf_le_ceilingOf config poolHardLimit s
  unfold clamp
  dsimp only
  split <;> split at * <;> omega

theorem ceilingOf_congr {s' : QuotaState} (h : s.configuredHardMax = s'.configuredHardMax) :
    ceilingOf s poolHardLimit = ceilingOf s' poolHardLimit := by
  unfold ceilingOf
  rw [h]

theorem clamp_congr {s' : QuotaState} (h : s.configuredHardMax = s'.configuredHardMax) :
    clamp config poolHardLimit s value = clamp config poolHardLimit s' value := by
  unfold clamp floorOf
  rw [ceilingOf_congr h]

end Clamp

section Recovery

variable {config : AimdConfig} {poolHardLimit : Option Int} {now : Instant}
  {clockAt : Option Instant} {s : QuotaState}

/-- A climb by `spent` whole intervals, none of them beyond the ceiling. -/
structure Climbed (config : AimdConfig) (poolHardLimit : Option Int) (now : Instant)
    (clockAt : Option Instant) (s : QuotaState) (recovery : Recovery) : Prop where
  interval_pos : 0 < config.recoveryIntervalSeconds
  enabled : s.state ≠ .disabled
  spent_pos : 0 < recovery.spent
  elapsed : recoveryStart clockAt s +
    seconds (recovery.spent * config.recoveryIntervalSeconds) ≤ now
  room : currentTarget config poolHardLimit s + recovery.spent ≤ ceilingOf s poolHardLimit
  state_eq : recovery.state =
    { s with
      adaptiveTarget := some (currentTarget config poolHardLimit s + recovery.spent)
      updatedAt := now }
  clock_eq : recovery.clock = some (recoveryStart clockAt s +
    seconds (recovery.spent * config.recoveryIntervalSeconds))

theorem seconds_mul_le {n interval : Int} {elapsed : Instant} (hpos : 0 < interval)
    (h : n ≤ elapsed / seconds interval) : seconds (n * interval) ≤ elapsed := by
  have hsec : 0 < seconds interval := by
    unfold seconds
    lia
  have hmul := (Int.le_ediv_iff_mul_le hsec).mp h
  unfold seconds at hmul ⊢
  rwa [Int.mul_assoc]

theorem recoverOverTime_cases :
    ((recoverOverTime config poolHardLimit now clockAt s).state = s ∧
      (recoverOverTime config poolHardLimit now clockAt s).spent = 0 ∧
      ((recoverOverTime config poolHardLimit now clockAt s).clock = clockAt ∨
        (recoverOverTime config poolHardLimit now clockAt s).clock =
          some (recoveryStart clockAt s))) ∨
    Climbed config poolHardLimit now clockAt s
      (recoverOverTime config poolHardLimit now clockAt s) := by
  unfold recoverOverTime
  split
  · exact .inl ⟨rfl, rfl, .inl rfl⟩
  rename_i hrunning
  obtain ⟨hpos, henabled⟩ := not_or.mp hrunning
  have hfloor : floorOf config s poolHardLimit ≤ currentTarget config poolHardLimit s :=
    floorOf_le_clamp
  dsimp only
  generalize hintervals :
    (now - recoveryStart clockAt s) / seconds config.recoveryIntervalSeconds = intervals
  generalize hraised :
    clamp config poolHardLimit s (currentTarget config poolHardLimit s + intervals) = raised
  split
  · exact .inl ⟨rfl, rfl, .inl rfl⟩
  split
  · exact .inl ⟨rfl, rfl, .inr rfl⟩
  rename_i hwhole
  split
  · exact .inl ⟨rfl, rfl, .inl rfl⟩
  rename_i hspent
  have hle : raised ≤ currentTarget config poolHardLimit s + intervals := by
    rw [← hraised]
    exact clamp_le_of_floorOf_le (by lia) le_rfl
  have hceiling : raised ≤ ceilingOf s poolHardLimit := hraised ▸ clamp_le_ceilingOf
  have hspentEq : min intervals (raised - currentTarget config poolHardLimit s) =
      raised - currentTarget config poolHardLimit s := min_eq_right (by lia)
  have helapsed := seconds_mul_le (not_le.mp hpos) ((min_le_left intervals
    (raised - currentTarget config poolHardLimit s)).trans hintervals.ge)
  refine .inr ⟨not_le.mp hpos, henabled, not_le.mp hspent, ?_, ?_, ?_, rfl⟩
  · dsimp only
    lia
  · dsimp only
    lia
  · dsimp only
    rw [hspentEq, add_sub_cancel]

end Recovery

end SwarmCloud.Quota
