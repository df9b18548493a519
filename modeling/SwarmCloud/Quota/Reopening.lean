import SwarmCloud.Quota.Recovery

/-! # What the sweep reopens

A closed pool gets no traffic, so only the sweep can notice that its window has
passed. It writes the pool from the stored target. Every signal clamps that target
into its bounds, but `set_hard_max` only lowers it to the new maximum: after a
maximum of 0 the target is 0, and it stays 0 when the maximum is raised again.
-/

namespace SwarmCloud.Quota

open Common Lib Admission

/-- A quota document beside the tenant's pool. -/
structure Tenancy where
  doc : Option QuotaDoc
  pool : Option PoolDoc

namespace Tenancy

/-- The `hard_limit` that a transaction reads. -/
def limitField (t : Tenancy) : HardLimitField :=
  match t.pool with
  | none => .noPool
  | some pool => pool.hardLimit.elim .missing .int

end Tenancy

namespace Broker

variable (broker : Broker)

def apply (t : Tenancy) (now : Instant) (op : QuotaOp) : Tenancy :=
  match broker.call t.doc ⟨now, t.limitField, op⟩ with
  | .error _ => t
  | .ok written =>
    { doc := written.doc.or t.doc
      pool := match written.pool with
        | none => t.pool
        | some patch => some (t.pool.elim (patch.created broker.defaultHardMax now) (patch.patched now)) }

/-- A call at an instant that is no earlier than the last. -/
def Serves (c : Instant × Tenancy) (op : Instant × QuotaOp) (c' : Instant × Tenancy) : Prop :=
  c.1 ≤ op.1 ∧ c' = (op.1, broker.apply c.2 op.1 op.2)

end Broker

/-- Every cap of a pool leaves room for one; a missing one caps nothing. -/
def Open (pool : Option PoolDoc) : Prop :=
  ∃ p, pool = some p ∧ (∀ n ∈ p.hardLimit, 1 ≤ n) ∧ (∀ n ∈ p.adaptiveTarget, 1 ≤ n) ∧
    ∀ n ∈ p.quotaDerivedLimit, 1 ≤ n

section Step

variable {broker : Broker} {doc : Option QuotaDoc} {r : Request} {limit : Option Int} {changed : QuotaState}
  {now : Instant}

theorem recovered_window (broker : Broker) (doc : Option QuotaDoc) (limit : Option Int) (now : Instant) :
    (broker.recovered doc limit now).state.state = (broker.stored doc now).state ∧
      (broker.recovered doc limit now).state.cooldownUntil = (broker.stored doc now).cooldownUntil ∧
      (broker.recovered doc limit now).state.resetAt = (broker.stored doc now).resetAt ∧
      (broker.recovered doc limit now).state.configuredHardMax = (broker.stored doc now).configuredHardMax := by
  obtain ⟨hstate, -, -⟩ | hclimb := @recoverOverTime_cases broker.config limit now
    (doc.bind QuotaDoc.recoveryClockAt) (broker.stored doc now)
  · rw [Broker.recovered, hstate]
    exact ⟨rfl, rfl, rfl, rfl⟩
  · rw [Broker.recovered, hclimb.state_eq]
    exact ⟨rfl, rfl, rfl, rfl⟩

/-- A document is in service without a cooldown, or in a window that a refusal opened. -/
def Windowed (s : QuotaState) : Prop :=
  s.state = .available ∧ s.cooldownUntil = none ∨ s.state = .throttled ∨ s.state = .exhausted

theorem Windowed.congr {s s' : QuotaState} (h : Windowed s) (hstate : s'.state = s.state)
    (hcooldown : s'.cooldownUntil = s.cooldownUntil) : Windowed s' := by
  rwa [Windowed, hstate, hcooldown]

theorem Windowed.enabled {s : QuotaState} (h : Windowed s) : s.state ≠ .disabled := by
  rcases h with ⟨h, -⟩ | h | h <;> rw [h] <;> decide

theorem refresh_windowed {config : AimdConfig} {s : QuotaState} (h : Windowed s) :
    Windowed (refresh config limit now s) := by
  unfold refresh
  split
  · exact h
  split
  · exact h
  split
  · exact h
  · exact .inl ⟨rfl, rfl⟩

theorem recordSuccess_windowed {config : AimdConfig} {report : SuccessReport} {s : QuotaState} (h : Windowed s) :
    Windowed (recordSuccess config limit now report s) := by
  rw [recordSuccess, if_neg h.enabled]
  exact .inl ⟨rfl, rfl⟩

theorem refused_windowed {config : AimdConfig} {report : RefusalReport} {fallback : Int} {next : ProviderState}
    {s : QuotaState} (h : Windowed s) (hnext : next = .throttled ∨ next = .exhausted) :
    Windowed (refused config limit now report fallback next s) := by
  rw [refused, Windowed]
  dsimp only
  rw [if_neg h.enabled]
  exact .inr hnext

theorem resetTarget_windowed {config : AimdConfig} {value : Int} {clearCooldown : Bool} {s s' : QuotaState}
    (h : Windowed s) (hreset : resetTarget config limit now value clearCooldown s = some s') : Windowed s' := by
  unfold resetTarget at hreset
  split at hreset
  · cases hreset
  · dsimp only at hreset
    split at hreset
    · obtain rfl := Option.some.inj hreset
      left
      dsimp only
      exact ⟨if_neg h.enabled, rfl⟩
    · obtain rfl := Option.some.inj hreset
      exact h

/-- A committed refusal leaves the document throttled or exhausted. -/
theorem commits_refusal {doc' : QuotaDoc} {report : RefusalReport} (h : broker.commits doc r = some doc')
    (hop : r.op = .observeRateLimit report ∨ r.op = .observeExhausted report) :
    ∃ limit fallback next, (next = .throttled ∨ next = .exhausted) ∧
      doc'.state = refused broker.config limit r.now report fallback next (broker.recovered doc limit r.now).state := by
  unfold Broker.commits at h
  split at h
  · rename_i written hcall
    unfold Broker.call at hcall
    rcases hop with hop | hop
    · rw [hop] at hcall
      obtain ⟨limit, -, rfl⟩ := Broker.mutate_total (fun _ _ => rfl) hcall h
      refine ⟨limit, _, _, ?_, rfl⟩
      split
      · exact .inr rfl
      · exact .inl rfl
    · rw [hop] at hcall
      obtain ⟨limit, -, rfl⟩ := Broker.mutate_total (fun _ _ => rfl) hcall h
      exact ⟨limit, _, _, .inr rfl, rfl⟩
  · cases h

theorem stored_windowed (h : ∀ d ∈ doc, Windowed d.state) (now : Instant) : Windowed (broker.stored doc now) := by
  cases doc with
  | none => exact .inl ⟨rfl, rfl⟩
  | some d => exact h d rfl

theorem commits_windowed {doc' : QuotaDoc} (hdoc : ∀ d ∈ doc, Windowed d.state)
    (h : broker.commits doc r = some doc') : Windowed doc'.state := by
  have hstored : Windowed (broker.stored doc r.now) := stored_windowed hdoc r.now
  have hrecovered : ∀ limit, Windowed (broker.recovered doc limit r.now).state := by
    intro limit
    obtain ⟨hstate, hcooldown, -⟩ := recovered_window broker doc limit r.now
    exact hstored.congr hstate hcooldown
  obtain ⟨limit, changed, -, hchanged, hdoc'⟩ := Broker.commits_cases h
  have hstate : doc'.state = changed := by rw [hdoc']; rfl
  rw [hstate]
  cases hchanged with
  | success report hop => exact recordSuccess_windowed (refresh_windowed (hrecovered limit))
  | refusal report fallback next hop =>
    obtain ⟨limit', fallback', next', hnext, hrefused⟩ := commits_refusal h hop
    rw [← hstate, hrefused]
    exact refused_windowed (hrecovered limit') hnext
  | reset value reason clearCooldown changed hop hreset =>
    exact resetTarget_windowed (refresh_windowed (hrecovered limit)) hreset
  | hardMax hardMax hop hnonneg => exact hrecovered limit
  | retired hop hretired => exact refresh_windowed (hrecovered limit)
  | climbed hop hspent => exact hrecovered limit

/-- What a run keeps of the document: a target, and a window that a refusal opened or none. -/
structure Served (broker : Broker) (t : Tenancy) : Prop where
  windowed : ∀ d ∈ t.doc, Windowed d.state
  bounded : Bounded broker t.doc

theorem Served.apply {t : Tenancy} (h : Served broker t) (now : Instant) (op : QuotaOp) :
    Served broker (broker.apply t now op) := by
  have hstep : broker.Step t.doc ⟨now, t.limitField, op⟩ (broker.apply t now op).doc := by
    unfold Broker.Step Broker.commits Broker.apply
    cases broker.call t.doc ⟨now, t.limitField, op⟩ <;> rfl
  refine ⟨?_, h.bounded.step hstep⟩
  intro d hd
  rw [hstep] at hd
  cases hcommit : broker.commits t.doc ⟨now, t.limitField, op⟩ with
  | none => exact h.windowed d (by simpa [hcommit] using hd)
  | some doc' =>
    have hsame : doc' = d := by simpa [hcommit] using hd
    exact hsame ▸ commits_windowed h.windowed hcommit

theorem Served.of_run {t₀ : Instant} {pool : Option PoolDoc} {ops : List (Instant × QuotaOp)}
    {c : Instant × Tenancy} (hrun : Run broker.Serves (t₀, ⟨none, pool⟩) ops c) : Served broker c.2 := by
  refine hrun.invariant (I := fun c => Served broker c.2) ?_ ⟨?_, ?_⟩
  · rintro s op s' hserved ⟨-, rfl⟩
    exact hserved.apply op.1 op.2
  · exact fun d hd => absurd hd (Option.not_mem_none d)
  · exact fun d hd => absurd hd (Option.not_mem_none d)

end Step

section Sweep

variable {broker : Broker} {t : Tenancy} {d : QuotaDoc} {p : PoolDoc} {limit : Int} {now : Instant}

/-- A whole recovery interval has passed, and there is room above the target: the sweep climbs. -/
def Climbs (broker : Broker) (now : Instant) (limit : Int) (d : QuotaDoc) : Prop :=
  0 < broker.config.recoveryIntervalSeconds ∧
    currentTarget broker.config (some limit) d.state < ceilingOf d.state (some limit) ∧
    recoveryStart d.recoveryClockAt d.state + seconds broker.config.recoveryIntervalSeconds ≤ now

theorem spent_ne_zero_iff (henabled : d.state.state ≠ .disabled) :
    (broker.recovered (some d) (some limit) now).spent ≠ 0 ↔ Climbs broker now limit d := by
  constructor
  · intro hspent
    obtain ⟨-, hzero, -⟩ | hclimb := @recoverOverTime_cases broker.config (some limit) now
      d.recoveryClockAt d.state
    · exact absurd hzero hspent
    · have hroom := hclimb.room
      have hpos := hclimb.spent_pos
      have helapsed := hclimb.elapsed
      have hmul : broker.config.recoveryIntervalSeconds ≤
          (recoverOverTime broker.config (some limit) now d.recoveryClockAt d.state).spent *
            broker.config.recoveryIntervalSeconds := by
        have hinterval := hclimb.interval_pos
        exact le_mul_of_one_le_left hinterval.le hpos
      refine ⟨hclimb.interval_pos, by lia, le_trans ?_ helapsed⟩
      unfold seconds
      lia
  · rintro ⟨hinterval, hroom, helapsed⟩
    have hfloor : floorOf broker.config d.state (some limit) ≤ currentTarget broker.config (some limit) d.state :=
      floorOf_le_clamp
    have hsec := seconds_pos hinterval
    have hwhole : 1 ≤ (now - recoveryStart d.recoveryClockAt d.state) /
        seconds broker.config.recoveryIntervalSeconds := by
      rw [Int.le_ediv_iff_mul_le hsec]
      lia
    have hrecovered : broker.recovered (some d) (some limit) now =
        recoverOverTime broker.config (some limit) now d.recoveryClockAt d.state := rfl
    rw [hrecovered, recoverOverTime, if_neg (by lia)]
    dsimp only
    generalize (now - recoveryStart d.recoveryClockAt d.state) /
      seconds broker.config.recoveryIntervalSeconds = intervals at hwhole ⊢
    rw [if_neg (by lia), if_neg (by lia)]
    -- One step up stays within the ceiling, so the clamp keeps at least that.
    have hraised : currentTarget broker.config (some limit) d.state + 1 ≤
        clamp broker.config (some limit) d.state
          (currentTarget broker.config (some limit) d.state + intervals) := by
      unfold clamp
      dsimp only
      split <;> split <;> lia
    rw [if_neg (by lia)]
    dsimp only
    lia

/-- The state that a sweep writes to the pool. -/
def sweptState (broker : Broker) (now : Instant) (limit : Int) (d : QuotaDoc) : QuotaState :=
  let recovery := broker.recovered (some d) (some limit) now
  if d.state.state ≠ .available then refresh broker.config (some limit) now recovery.state
  else if recovery.spent ≠ 0 then recovery.state
  else d.state

/-- Both windows of a document have passed. -/
def Passed (now : Instant) (d : QuotaDoc) : Prop :=
  hasPassed now d.state.cooldownUntil = true ∧ hasPassed now d.state.resetAt = true

theorem refresh_recovered (hwindowed : Windowed d.state) (hpassed : Passed now d) :
    (d.state.state = .available → refresh broker.config (some limit) now
        (broker.recovered (some d) (some limit) now).state =
      (broker.recovered (some d) (some limit) now).state) ∧
    (d.state.state ≠ .available →
      (refresh broker.config (some limit) now (broker.recovered (some d) (some limit) now).state).state = .available ∧
      (refresh broker.config (some limit) now
        (broker.recovered (some d) (some limit) now).state).cooldownUntil = none ∧
      (refresh broker.config (some limit) now
        (broker.recovered (some d) (some limit) now).state).configuredHardMax = d.state.configuredHardMax ∧
      ∃ s, (refresh broker.config (some limit) now
        (broker.recovered (some d) (some limit) now).state).adaptiveTarget =
          some (currentTarget broker.config (some limit) s) ∧
        s.configuredHardMax = d.state.configuredHardMax) := by
  obtain ⟨hstate, hcooldown, hreset, hmax⟩ := recovered_window broker (some d) (some limit) now
  have hstored : broker.stored (some d) now = d.state := rfl
  rw [hstored] at hstate hcooldown hreset hmax
  have hboth : ¬ ¬ (hasPassed now (broker.recovered (some d) (some limit) now).state.cooldownUntil ∧
      hasPassed now (broker.recovered (some d) (some limit) now).state.resetAt) := by
    rw [hcooldown, hreset, not_not]
    exact hpassed
  have henabled : (broker.recovered (some d) (some limit) now).state.state ≠ .disabled := by
    rw [hstate]
    exact hwindowed.enabled
  rw [refresh, if_neg henabled, if_neg hboth]
  constructor
  · intro havailable
    rw [if_pos (.inl (hstate.trans havailable))]
  · intro hclosed
    have hshut : ¬ ((broker.recovered (some d) (some limit) now).state.state = .available ∨
        (broker.recovered (some d) (some limit) now).state.state = .unknown) := by
      rw [hstate]
      rcases hwindowed with ⟨h, -⟩ | h | h
      · exact absurd h hclosed
      · rw [h]
        decide
      · rw [h]
        decide
    rw [if_neg hshut]
    exact ⟨rfl, rfl, hmax, _, rfl, hmax⟩

theorem sweep_pool (hwindowed : Windowed d.state) (hpassed : Passed now d) (hdoc : t.doc = some d)
    (hpool : t.pool = some p) (hlimit : p.hardLimit = some limit) (hpos : 0 < limit) :
    (broker.apply t now .sweep).pool =
      some ((broker.poolPatch (some limit) none (sweptState broker now limit d)).patched now p) := by
  have hfield : t.limitField = .int limit := by simp [Tenancy.limitField, hpool, hlimit]
  have hread : poolHardLimitOf (.int limit) = .ok (some limit) := by rw [poolHardLimitOf, max_eq_right hpos.le]
  obtain ⟨hsame, hretired⟩ := @refresh_recovered broker d limit now hwindowed hpassed
  have hstate : (broker.recovered (some d) (some limit) now).state.state = d.state.state :=
    (recovered_window broker (some d) (some limit) now).1
  rw [Broker.apply, hdoc, hfield, Broker.call]
  dsimp only
  rw [Broker.mutate, hread]
  simp only [bind, Except.bind, Broker.sweepChange, sweptState]
  by_cases havailable : d.state.state = .available
  · rw [hsame havailable, if_pos ⟨rfl, rfl⟩, if_neg (not_not.mpr havailable)]
    by_cases hspent : (broker.recovered (some d) (some limit) now).spent = 0
    · simp [hspent, hpool, Broker.stored]
    · simp [hspent, hpool]
  · have hchanged : ¬ ((refresh broker.config (some limit) now
        (broker.recovered (some d) (some limit) now).state).state =
          (broker.recovered (some d) (some limit) now).state.state ∧
        (refresh broker.config (some limit) now
          (broker.recovered (some d) (some limit) now).state).quotaDerivedLimit =
          (broker.recovered (some d) (some limit) now).state.quotaDerivedLimit) := by
      rintro ⟨hno, -⟩
      exact havailable (hstate.symm.trans (hno.symm.trans (hretired havailable).1))
    rw [if_neg hchanged, if_pos havailable]
    simp [hpool]

theorem one_le_currentTarget {s : QuotaState} (hmin : 1 ≤ broker.config.minTarget)
    (hmax : 0 < s.configuredHardMax) (hpos : 0 < limit) : 1 ≤ currentTarget broker.config (some limit) s := by
  have hfloor : floorOf broker.config s (some limit) ≤ currentTarget broker.config (some limit) s := floorOf_le_clamp
  refine le_trans ?_ hfloor
  unfold floorOf ceilingOf
  rw [Option.elim_some]
  omega

/-- In service, a state feeds its pool the clamped target. -/
theorem quotaDerivedLimitFor_available {s : QuotaState} (hstate : s.state = .available)
    (hcooldown : s.cooldownUntil = none) :
    quotaDerivedLimitFor broker.config (some limit) s = currentTarget broker.config (some limit) s := by
  unfold quotaDerivedLimitFor
  rw [hstate, hcooldown]
  rfl

/-- A write of a state in service opens the pool exactly when the target it carries is a live one. -/
theorem patched_open_iff {s : QuotaState} {target : Int} (hmin : 1 ≤ broker.config.minTarget)
    (hlimit : p.hardLimit = some limit) (hpos : 0 < limit) (hstate : s.state = .available)
    (hcooldown : s.cooldownUntil = none) (hmax : 0 < s.configuredHardMax) (htarget : s.adaptiveTarget = some target) :
    Open (some ((broker.poolPatch (some limit) none s).patched now p)) ↔ 1 ≤ target := by
  have hderived : quotaDerivedLimitFor broker.config (some limit) s = currentTarget broker.config (some limit) s :=
    quotaDerivedLimitFor_available hstate hcooldown
  have hlive : 1 ≤ currentTarget broker.config (some limit) s := one_le_currentTarget hmin hmax hpos
  constructor
  · rintro ⟨p', hp', -, hadaptive, -⟩
    obtain rfl := Option.some.inj hp'
    exact hadaptive target (by simp [PoolPatch.patched, Broker.poolPatch, htarget])
  · intro hone
    refine ⟨_, rfl, ?_, ?_, ?_⟩
    · intro n hn
      have hsame : limit = n := by simpa [PoolPatch.patched, Broker.poolPatch, hlimit] using hn
      omega
    · intro n hn
      have hsame : target = n := by simpa [PoolPatch.patched, Broker.poolPatch, htarget] using hn
      omega
    · intro n hn
      have hsame : currentTarget broker.config (some limit) s = n := by
        simpa [PoolPatch.patched, Broker.poolPatch, hderived] using hn
      omega

/-- When a sweep reopens a pool: it retires a window, the stored target is a live one, or it climbs. -/
def Reopens (broker : Broker) (now : Instant) (limit : Int) (d : QuotaDoc) : Prop :=
  d.state.state ≠ .available ∨ (∀ target ∈ d.state.adaptiveTarget, 1 ≤ target) ∨ Climbs broker now limit d

/-- What a sweep leaves: a state in service under the same maximum, its target live when the sweep reopens. -/
theorem sweptState_spec {stored : Int} (hmin : 1 ≤ broker.config.minTarget) (hwindowed : Windowed d.state)
    (hpassed : Passed now d) (hmax : 0 < d.state.configuredHardMax) (hpos : 0 < limit)
    (hstored : d.state.adaptiveTarget = some stored) :
    ∃ target, (sweptState broker now limit d).adaptiveTarget = some target ∧
      (sweptState broker now limit d).state = .available ∧ (sweptState broker now limit d).cooldownUntil = none ∧
      0 < (sweptState broker now limit d).configuredHardMax ∧ (1 ≤ target ↔ Reopens broker now limit d) := by
  obtain ⟨-, hretired⟩ := @refresh_recovered broker d limit now hwindowed hpassed
  by_cases havailable : d.state.state = .available
  · have hcooldown : d.state.cooldownUntil = none := by
      rcases hwindowed with ⟨-, h⟩ | h | h
      · exact h
      · exact absurd (havailable.symm.trans h) (by decide)
      · exact absurd (havailable.symm.trans h) (by decide)
    have hclimbs := @spent_ne_zero_iff broker d limit now hwindowed.enabled
    have hopens : Reopens broker now limit d ↔ 1 ≤ stored ∨ Climbs broker now limit d := by
      simp [Reopens, havailable, hstored]
    rw [hopens, sweptState, if_neg (not_not.mpr havailable)]
    split
    · -- The climb starts from the clamped target, so it never stays at 0.
      rename_i hspent
      obtain ⟨-, hzero, -⟩ | hclimb := @recoverOverTime_cases broker.config (some limit) now
        d.recoveryClockAt d.state
      · exact absurd hzero hspent
      · have hstate : (broker.recovered (some d) (some limit) now).state = _ := hclimb.state_eq
        have hlive : 1 ≤ currentTarget broker.config (some limit) d.state := one_le_currentTarget hmin hmax hpos
        have hspentPos := hclimb.spent_pos
        rw [hstate]
        refine ⟨_, rfl, havailable, hcooldown, hmax, ?_⟩
        exact ⟨fun _ => .inr (hclimbs.mp hspent), fun _ => by omega⟩
    · rename_i hspent
      refine ⟨stored, hstored, havailable, hcooldown, hmax, Or.inl, ?_⟩
      rintro (hone | hclimb)
      · exact hone
      · exact absurd (hclimbs.mpr hclimb) hspent
  · obtain ⟨hstate, hcooldown, hhard, s, htarget, hs⟩ := hretired havailable
    rw [sweptState, if_pos havailable]
    refine ⟨_, htarget, hstate, hcooldown, hhard ▸ hmax, ?_⟩
    have hlive : 1 ≤ currentTarget broker.config (some limit) s := one_le_currentTarget hmin (hs ▸ hmax) hpos
    exact ⟨fun _ => .inl havailable, fun _ => hlive⟩

theorem sweep_reopens_iff (hmin : 1 ≤ broker.config.minTarget) {t₀ : Instant} {pool : Option PoolDoc}
    {ops : List (Instant × QuotaOp)} {c : Instant × Tenancy}
    (hrun : Run broker.Serves (t₀, ⟨none, pool⟩) ops c) (hdoc : c.2.doc = some d) (hpool : c.2.pool = some p)
    (hlimit : p.hardLimit = some limit) (hpos : 0 < limit) (hmax : 0 < d.state.configuredHardMax)
    (hpassed : Passed now d) :
    Open (broker.apply c.2 now .sweep).pool ↔ Reopens broker now limit d := by
  have hserved := Served.of_run hrun
  have hwindowed := hserved.windowed d hdoc
  obtain ⟨stored, hstored⟩ := hserved.bounded d hdoc
  obtain ⟨target, htarget, hstate, hcooldown, hhard, hreopens⟩ :=
    @sweptState_spec broker d limit now stored hmin hwindowed hpassed hmax hpos hstored.stored
  rw [sweep_pool hwindowed hpassed hdoc hpool hlimit hpos, ← hreopens]
  exact patched_open_iff hmin hlimit hpos hstate hcooldown hhard htarget

/-- The pool that the broker's first write leaves at instant 0. -/
def engPool (hardLimit target derived : Int) : PoolDoc where
  hardLimit := some hardLimit
  adaptiveTarget := some target
  quotaDerivedLimit := some derived
  active := some 0
  enabled := some true
  updatedAt := some 0

theorem sweep_reopens_after_refusal :
    Open ((engBroker 4).apply
      ⟨some (engDoc .throttled 0 4 2 0 0 0 1 (some (seconds 30, 30))), some (engPool 4 2 0)⟩
      (seconds 30) .sweep).pool := by
  have hstep : (engBroker 4).Serves (0, ⟨none, none⟩) (0, .observeRateLimit {})
      (0, ⟨some (engDoc .throttled 0 4 2 0 0 0 1 (some (seconds 30, 30))), some (engPool 4 2 0)⟩) := ⟨le_rfl, rfl⟩
  have hmin : 1 ≤ (engBroker 4).config.minTarget := by decide
  refine (sweep_reopens_iff hmin (.one hstep) rfl rfl rfl ?_ ?_ ?_).mpr (.inl ?_)
  · decide
  · decide
  · exact ⟨by decide, by decide⟩
  · decide

/-- The document of a maximum that was set at instant 0 over a target of 0. -/
def cappedDoc (hardMax : Int) (clock : Option Instant) : QuotaDoc where
  state := { initialState "anthropic" "eng" hardMax 0 with adaptiveTarget := some 0 }
  recoveryClockAt := clock
  targetChangedAt := some 0

/-- A maximum of 0 leaves the target at 0, and the sweep writes that to the pool of a maximum of 5. -/
theorem sweep_closed_after_raise :
    ∃ (t : Tenancy) (d : QuotaDoc) (p : PoolDoc),
      Run (engBroker 5).Serves (0, ⟨none, none⟩) [(0, .setHardMax 0), (0, .setHardMax 5)] (0, t) ∧
      1 ≤ (engBroker 5).config.minTarget ∧ t.doc = some d ∧ t.pool = some p ∧ p.hardLimit = some 5 ∧
      d.state.state ≠ .disabled ∧ d.state.configuredHardMax = 5 ∧ Passed 0 d ∧
      ¬ Open ((engBroker 5).apply t 0 .sweep).pool := by
  have hlower : (engBroker 5).Serves (0, ⟨none, none⟩) (0, .setHardMax 0)
      (0, ⟨some (cappedDoc 0 none), some (engPool 0 0 0)⟩) := ⟨le_rfl, rfl⟩
  have hraise : (engBroker 5).Serves (0, ⟨some (cappedDoc 0 none), some (engPool 0 0 0)⟩) (0, .setHardMax 5)
      (0, ⟨some (cappedDoc 5 (some 0)), some (engPool 5 0 1)⟩) := ⟨le_rfl, rfl⟩
  have hsweep : ((engBroker 5).apply ⟨some (cappedDoc 5 (some 0)), some (engPool 5 0 1)⟩ 0 .sweep).pool =
      some (engPool 5 0 1) := rfl
  refine ⟨_, cappedDoc 5 (some 0), engPool 5 0 1, .snoc (.one hlower) hraise, by decide, rfl, rfl, rfl, by decide, rfl,
    ⟨rfl, rfl⟩, ?_⟩
  rw [hsweep]
  rintro ⟨p, hp, -, hadaptive, -⟩
  obtain rfl := Option.some.inj hp
  exact absurd (hadaptive 0 rfl) (by decide)

end Sweep

end SwarmCloud.Quota
