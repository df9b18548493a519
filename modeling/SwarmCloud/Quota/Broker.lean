import SwarmCloud.Quota.Aimd
import SwarmCloud.Quota.PoolWrite
import SwarmCloud.Lib.Runs
import Mathlib.Data.Rat.Floor

/-! # The quota broker's transactions

`QuotaBroker._mutate` and the operations built on it, for one (provider,
tenant) document. A transaction is a function of what it read; one that raises
writes nothing. The audit records written beside the document are left out.
-/

namespace SwarmCloud.Quota

open Common Lib

inductive BrokerError
  | targetResetRefused
  | reasonRequired
  | negativeHardMax
  | unusableHardLimit
deriving DecidableEq, Repr

/-- What a pool document can hold under `hard_limit`, or the lack of a pool. -/
inductive HardLimitField
  | noPool
  | missing
  | bool (b : Bool)
  | int (n : Int)
  | float (q : ℚ)
  | nonFinite
  | other
deriving DecidableEq, Repr

/-- `pool_hard_limit_of`. `int()` of a float cuts its fraction, and raises on one
that is not finite. -/
def poolHardLimitOf : HardLimitField → Except BrokerError (Option Int)
  | .int n => .ok (some (max 0 n))
  | .float q => .ok (some (max 0 (q.num.tdiv q.den)))
  | .nonFinite => .error .unusableHardLimit
  | .noPool | .missing | .bool _ | .other => .ok none

structure QuotaDoc where
  state : QuotaState
  recoveryClockAt : Option Instant
  targetChangedAt : Option Instant
deriving DecidableEq, Repr

structure Broker where
  provider : String
  tenantId : String
  config : AimdConfig
  defaultHardMax : Int

/-- What `_mutate` returns and what its transaction wrote. -/
structure Written where
  state : QuotaState
  doc : Option QuotaDoc
  pool : Option PoolPatch
deriving DecidableEq, Repr

namespace Broker

variable (broker : Broker)

/-- The state a transaction works on: the stored one, or a first one. -/
def stored (doc : Option QuotaDoc) (now : Instant) : QuotaState :=
  doc.elim (initialState broker.provider broker.tenantId broker.defaultHardMax now) QuotaDoc.state

def recovered (doc : Option QuotaDoc) (poolLimit : Option Int) (now : Instant) : Recovery :=
  recoverOverTime broker.config poolLimit now (doc.bind QuotaDoc.recoveryClockAt)
    (broker.stored doc now)

def poolPatch (poolLimit setPoolHardLimit : Option Int) (s : QuotaState) : PoolPatch where
  quotaDerivedLimit := some (quotaDerivedLimitFor broker.config poolLimit s)
  adaptiveTarget := s.adaptiveTarget
  defaultHardLimit := some s.configuredHardMax
  hardLimit := setPoolHardLimit

structure MutateOptions where
  reassertPool : Bool := false
  setPoolHardLimit : Option Int := none

/-- The document a transaction writes for `changed`. -/
def payload (doc : Option QuotaDoc) (now : Instant) (poolLimit : Option Int) (recovery : Recovery)
    (changed : QuotaState) : QuotaDoc where
  state := changed
  recoveryClockAt :=
    recoveryClock broker.config poolLimit now recovery.state changed recovery.clock
  targetChangedAt :=
    if changed.adaptiveTarget ≠ (broker.stored doc now).adaptiveTarget then some changed.updatedAt
    else doc.bind QuotaDoc.targetChangedAt

/-- `_mutate`: the climb first, then `change`, then the clock against the limit
the pool will have. -/
def mutate (options : MutateOptions)
    (change : QuotaState → Option Int → Except BrokerError (Option QuotaState))
    (doc : Option QuotaDoc) (pool : HardLimitField) (now : Instant) :
    Except BrokerError Written := do
  let readLimit ← poolHardLimitOf pool
  let recovery := broker.recovered doc readLimit now
  let change ← change recovery.state readLimit
  let changed := change <|> (if recovery.spent ≠ 0 then some recovery.state else none)
  let poolLimit := options.setPoolHardLimit.elim readLimit fun limit => some (max 0 limit)
  match changed with
  | none =>
    .ok
      { state := broker.stored doc now
        doc := none
        pool := if options.reassertPool && doc.isSome then
            some (broker.poolPatch poolLimit none (broker.stored doc now))
          else none }
  | some changed =>
    .ok
      { state := changed
        doc := some (broker.payload doc now poolLimit recovery changed)
        pool := some (broker.poolPatch poolLimit options.setPoolHardLimit changed) }

end Broker

inductive QuotaOp
  | observeSuccess (report : SuccessReport)
  | observeRateLimit (report : RefusalReport)
  | observeExhausted (report : RefusalReport)
  | resetAdaptiveTarget (target : Int) (reason : String) (clearCooldown : Bool)
  | setHardMax (hardMax : Int)
  | sweep
deriving DecidableEq, Repr

/-- One call of the broker: its instant and the pool field its transaction reads. -/
structure Request where
  now : Instant
  pool : HardLimitField
  op : QuotaOp
deriving DecidableEq, Repr

/-- The characters `str.strip` removes. -/
def isSpace (c : Char) : Bool :=
  let n := c.toNat
  (9 ≤ n && n ≤ 13) || (28 ≤ n && n ≤ 32) || n == 0x85 || n == 0xa0 || n == 0x1680 ||
    (0x2000 ≤ n && n ≤ 0x200a) || n == 0x2028 || n == 0x2029 || n == 0x202f || n == 0x205f ||
    n == 0x3000

def isBlank (s : String) : Bool := s.toList.all isSpace

namespace Broker

variable (broker : Broker)

def observeSuccess (report : SuccessReport) (now : Instant) (s : QuotaState)
    (limit : Option Int) : Except BrokerError (Option QuotaState) :=
  .ok (some (recordSuccess broker.config limit now report (refresh broker.config limit now s)))

def observeRateLimit (report : RefusalReport) (now : Instant) (s : QuotaState)
    (limit : Option Int) : Except BrokerError (Option QuotaState) :=
  .ok (some (recordRateLimit broker.config limit now report s))

def observeExhausted (report : RefusalReport) (now : Instant) (s : QuotaState)
    (limit : Option Int) : Except BrokerError (Option QuotaState) :=
  .ok (some (recordExhausted broker.config limit now report s))

def resetAdaptiveTarget (target : Int) (clearCooldown : Bool) (now : Instant) (s : QuotaState)
    (limit : Option Int) : Except BrokerError (Option QuotaState) :=
  match resetTarget broker.config limit now target clearCooldown
      (refresh broker.config limit now s) with
  | none => .error .targetResetRefused
  | some changed => .ok (some changed)

def setHardMax (hardMax : Int) (now : Instant) (s : QuotaState) (_limit : Option Int) :
    Except BrokerError (Option QuotaState) :=
  .ok (some
    { s with
      configuredHardMax := hardMax
      adaptiveTarget := s.adaptiveTarget.map fun target => min target hardMax
      updatedAt := now })

/-- The sweep's change of one document: nothing unless a window was retired. -/
def sweepChange (now : Instant) (s : QuotaState) (limit : Option Int) :
    Except BrokerError (Option QuotaState) :=
  let refreshed := refresh broker.config limit now s
  .ok (if refreshed.state = s.state ∧ refreshed.quotaDerivedLimit = s.quotaDerivedLimit then none
    else some refreshed)

/-- One call on the document. The sweep visits only documents that exist. -/
def call (doc : Option QuotaDoc) (r : Request) : Except BrokerError Written :=
  match r.op with
  | .observeSuccess report =>
      broker.mutate {} (broker.observeSuccess report r.now) doc r.pool r.now
  | .observeRateLimit report =>
      broker.mutate {} (broker.observeRateLimit report r.now) doc r.pool r.now
  | .observeExhausted report =>
      broker.mutate {} (broker.observeExhausted report r.now) doc r.pool r.now
  | .resetAdaptiveTarget target reason clearCooldown =>
      if isBlank reason then .error .reasonRequired
      else broker.mutate {} (broker.resetAdaptiveTarget target clearCooldown r.now) doc r.pool r.now
  | .setHardMax hardMax =>
      if hardMax < 0 then .error .negativeHardMax
      else broker.mutate { setPoolHardLimit := some hardMax } (setHardMax hardMax r.now) doc r.pool
        r.now
  | .sweep =>
      match doc with
      | none => .ok ⟨broker.stored none r.now, none, none⟩
      | some _ => broker.mutate { reassertPool := true } (broker.sweepChange r.now) doc r.pool r.now

/-- The document a call commits, if it commits one. -/
def commits (doc : Option QuotaDoc) (r : Request) : Option QuotaDoc :=
  match broker.call doc r with
  | .ok written => written.doc
  | .error _ => none

def Step (doc : Option QuotaDoc) (r : Request) (doc' : Option QuotaDoc) : Prop :=
  doc' = (broker.commits doc r).or doc

end Broker

/-- What a committed write can hold, by the operation that wrote it. -/
inductive Changed (broker : Broker) (doc : Option QuotaDoc) (r : Request) (limit : Option Int) :
    QuotaState → Prop
  | success (report : SuccessReport) (hop : r.op = .observeSuccess report) :
      Changed broker doc r limit (recordSuccess broker.config limit r.now report
        (refresh broker.config limit r.now (broker.recovered doc limit r.now).state))
  | refusal (report : RefusalReport) (fallback : Int) (next : ProviderState)
      (hop : r.op = .observeRateLimit report ∨ r.op = .observeExhausted report) :
      Changed broker doc r limit (refused broker.config limit r.now report fallback next
        (broker.recovered doc limit r.now).state)
  | reset (target : Int) (reason : String) (clearCooldown : Bool) (changed : QuotaState)
      (hop : r.op = .resetAdaptiveTarget target reason clearCooldown)
      (hreset : resetTarget broker.config limit r.now target clearCooldown
        (refresh broker.config limit r.now (broker.recovered doc limit r.now).state) =
          some changed) : Changed broker doc r limit changed
  | hardMax (hardMax : Int) (hop : r.op = .setHardMax hardMax) (hnonneg : 0 ≤ hardMax) :
      Changed broker doc r limit
        { (broker.recovered doc limit r.now).state with
          configuredHardMax := hardMax
          adaptiveTarget := (broker.recovered doc limit r.now).state.adaptiveTarget.map
            fun target => min target hardMax
          updatedAt := r.now }
  | retired (hop : r.op = .sweep)
      (hretired : (refresh broker.config limit r.now
        (broker.recovered doc limit r.now).state).state ≠
          (broker.recovered doc limit r.now).state.state ∨
        (refresh broker.config limit r.now
          (broker.recovered doc limit r.now).state).quotaDerivedLimit ≠
          (broker.recovered doc limit r.now).state.quotaDerivedLimit) :
      Changed broker doc r limit (refresh broker.config limit r.now
        (broker.recovered doc limit r.now).state)
  | climbed (hop : r.op = .sweep) (hspent : (broker.recovered doc limit r.now).spent ≠ 0) :
      Changed broker doc r limit (broker.recovered doc limit r.now).state

namespace Broker

variable {broker : Broker} {doc : Option QuotaDoc} {r : Request} {doc' : QuotaDoc}

theorem mutate_ok {options : MutateOptions}
    {change : QuotaState → Option Int → Except BrokerError (Option QuotaState)}
    {pool : HardLimitField} {now : Instant} {written : Written}
    (h : broker.mutate options change doc pool now = .ok written)
    (hdoc : written.doc = some doc') :
    ∃ limit result changed, poolHardLimitOf pool = .ok limit ∧
      change (broker.recovered doc limit now).state limit = .ok result ∧
      (result = some changed ∨ (result = none ∧ (broker.recovered doc limit now).spent ≠ 0 ∧
        changed = (broker.recovered doc limit now).state)) ∧
      doc' = broker.payload doc now
        (options.setPoolHardLimit.elim limit fun limit => some (max 0 limit))
        (broker.recovered doc limit now) changed := by
  unfold mutate at h
  cases hlimit : poolHardLimitOf pool with
  | error e =>
    rw [hlimit] at h
    exact absurd h (by simp [bind, Except.bind])
  | ok limit =>
    rw [hlimit] at h
    simp only [bind, Except.bind] at h
    cases hchange : change (broker.recovered doc limit now).state limit with
    | error e =>
      rw [hchange] at h
      exact absurd h (by simp)
    | ok result =>
      rw [hchange] at h
      simp only at h
      split at h
      · obtain rfl := Except.ok.inj h
        exact absurd hdoc (by simp)
      · rename_i changed hchanged
        obtain rfl := Except.ok.inj h
        refine ⟨limit, result, changed, rfl, hchange, ?_, (Option.some.inj hdoc).symm⟩
        cases result with
        | some s => exact .inl (by simpa using hchanged)
        | none =>
          have hclimbed : (if (broker.recovered doc limit now).spent ≠ 0 then
              some (broker.recovered doc limit now).state else none) = some changed := hchanged
          split at hclimbed
          · rename_i hspent
            exact .inr ⟨rfl, hspent, (Option.some.inj hclimbed).symm⟩
          · exact absurd hclimbed (by simp)

/-- A change that always writes. -/
theorem mutate_total {options : MutateOptions}
    {change : QuotaState → Option Int → Except BrokerError (Option QuotaState)}
    {apply : QuotaState → Option Int → QuotaState} {pool : HardLimitField} {now : Instant}
    {written : Written} (hchange : ∀ s limit, change s limit = .ok (some (apply s limit)))
    (h : broker.mutate options change doc pool now = .ok written)
    (hdoc : written.doc = some doc') :
    ∃ limit, poolHardLimitOf pool = .ok limit ∧
      doc' = broker.payload doc now
        (options.setPoolHardLimit.elim limit fun limit => some (max 0 limit))
        (broker.recovered doc limit now) (apply (broker.recovered doc limit now).state limit) := by
  obtain ⟨limit, result, changed, hlimit, hresult, hcases, hdoc'⟩ := mutate_ok h hdoc
  obtain rfl := Except.ok.inj ((hchange _ _).symm.trans hresult)
  obtain heq | ⟨hnone, -, -⟩ := hcases
  · obtain rfl := Option.some.inj heq
    exact ⟨limit, hlimit, hdoc'⟩
  · exact absurd hnone (by simp)

/-- The limit the clock is read against: the one the pool will have. -/
def clockLimit (r : Request) (limit : Option Int) : Option Int :=
  match r.op with
  | .setHardMax hardMax => some (max 0 hardMax)
  | _ => limit

theorem commits_cases (h : broker.commits doc r = some doc') :
    ∃ limit changed, poolHardLimitOf r.pool = .ok limit ∧ Changed broker doc r limit changed ∧
      doc' = broker.payload doc r.now (clockLimit r limit) (broker.recovered doc limit r.now)
        changed := by
  unfold commits at h
  split at h
  · rename_i written hcall
    unfold call at hcall
    split at hcall
    · rename_i report hop
      obtain ⟨limit, hlimit, hdoc⟩ := mutate_total (fun _ _ => rfl) hcall h
      exact ⟨limit, _, hlimit, .success report hop, by rwa [clockLimit, hop]⟩
    · rename_i report hop
      obtain ⟨limit, hlimit, hdoc⟩ := mutate_total (fun _ _ => rfl) hcall h
      exact ⟨limit, _, hlimit, .refusal report _ _ (.inl hop), by rwa [clockLimit, hop]⟩
    · rename_i report hop
      obtain ⟨limit, hlimit, hdoc⟩ := mutate_total (fun _ _ => rfl) hcall h
      exact ⟨limit, _, hlimit, .refusal report _ _ (.inr hop), by rwa [clockLimit, hop]⟩
    · rename_i target reason clearCooldown hop
      split at hcall
      · exact absurd hcall (by simp)
      obtain ⟨limit, result, changed, hlimit, hchange, hresult, hdoc⟩ := mutate_ok hcall h
      unfold resetAdaptiveTarget at hchange
      split at hchange
      · exact absurd hchange (by simp)
      · rename_i state hreset
        obtain rfl := Except.ok.inj hchange
        obtain heq | ⟨hnone, -, -⟩ := hresult
        · obtain rfl := Option.some.inj heq
          exact ⟨limit, _, hlimit, .reset target reason clearCooldown _ hop hreset,
            by rwa [clockLimit, hop]⟩
        · exact absurd hnone (by simp)
    · rename_i hardMax hop
      split at hcall
      · exact absurd hcall (by simp)
      rename_i hnonneg
      obtain ⟨limit, hlimit, hdoc⟩ := mutate_total (fun _ _ => rfl) hcall h
      exact ⟨limit, _, hlimit, .hardMax hardMax hop (not_lt.mp hnonneg), by rwa [clockLimit, hop]⟩
    · rename_i hop
      split at hcall
      · obtain rfl := Except.ok.inj hcall
        exact absurd h (by simp)
      rename_i before
      obtain ⟨limit, result, changed, hlimit, hchange, hresult, hdoc⟩ := mutate_ok hcall h
      have hclock : clockLimit r limit = limit := by rw [clockLimit, hop]
      have hsweep := Except.ok.inj hchange
      split at hsweep
      · obtain heq | ⟨-, hspent, rfl⟩ := hresult
        · exact absurd (hsweep.trans heq) (by simp)
        · exact ⟨limit, _, hlimit, .climbed hop hspent, by rwa [hclock]⟩
      · rename_i hretired
        obtain heq | ⟨hnone, -, -⟩ := hresult
        · obtain rfl := Option.some.inj (hsweep.trans heq)
          exact ⟨limit, _, hlimit, .retired hop (not_and_or.mp hretired), by rwa [hclock]⟩
        · exact absurd (hsweep.trans hnone) (by simp)
  · exact absurd h (by simp)

end Broker

end SwarmCloud.Quota
