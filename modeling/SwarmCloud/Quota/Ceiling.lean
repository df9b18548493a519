import SwarmCloud.Quota.Broker

/-! # The ceiling over whole runs

Every path that writes a target goes through `clamp` or a minimum with a new
maximum. The one number nobody checks is the broker's default maximum: a
negative one is clamped at 0 when a target is made, and kept when it is not.
-/

namespace SwarmCloud.Quota

open Common Lib

/-- The stored target against the document's own maximum. -/
structure TargetWithin (defaultHardMax : Int) (s : QuotaState) (target : Int) : Prop where
  stored : s.adaptiveTarget = some target
  le_ceiling : target ≤ max 0 s.configuredHardMax
  nonneg : 0 ≤ defaultHardMax → 0 ≤ target
  hardMax_nonneg : 0 ≤ defaultHardMax → 0 ≤ s.configuredHardMax

theorem TargetWithin.le_hardMax {defaultHardMax target : Int} {s : QuotaState}
    (h : TargetWithin defaultHardMax s target) (hdefault : 0 ≤ defaultHardMax) :
    target ≤ s.configuredHardMax := by
  have hle := h.le_ceiling
  rwa [max_eq_right (h.hardMax_nonneg hdefault)] at hle

section Keeps

variable {defaultHardMax target : Int} {s s' : QuotaState} {config : AimdConfig}
  {limit : Option Int} {now : Instant}

theorem TargetWithin.of_same (h : TargetWithin defaultHardMax s target)
    (htarget : s'.adaptiveTarget = s.adaptiveTarget)
    (hmax : s'.configuredHardMax = s.configuredHardMax) :
    TargetWithin defaultHardMax s' target where
  stored := htarget.trans h.stored
  le_ceiling := hmax ▸ h.le_ceiling
  nonneg := h.nonneg
  hardMax_nonneg := hmax ▸ h.hardMax_nonneg

/-- A target made by the clamp, against the ceiling of any pool limit. -/
theorem TargetWithin.of_bounds {value : Int} (h : TargetWithin defaultHardMax s target)
    (hvalue : s'.adaptiveTarget = some value) (hnonneg : 0 ≤ value)
    (hceiling : value ≤ ceilingOf s limit)
    (hmax : s'.configuredHardMax = s.configuredHardMax) :
    TargetWithin defaultHardMax s' value where
  stored := hvalue
  le_ceiling := by
    rw [hmax]
    exact hceiling.trans ceilingOf_le_hardMax
  nonneg _ := hnonneg
  hardMax_nonneg := hmax ▸ h.hardMax_nonneg

theorem TargetWithin.of_clamp {value : Int} (h : TargetWithin defaultHardMax s target)
    (hvalue : s'.adaptiveTarget = some (clamp config limit s value))
    (hmax : s'.configuredHardMax = s.configuredHardMax) :
    TargetWithin defaultHardMax s' (clamp config limit s value) :=
  h.of_bounds hvalue clamp_nonneg clamp_le_ceilingOf hmax

theorem initialState_within (provider tenantId : String) :
    TargetWithin defaultHardMax (initialState provider tenantId defaultHardMax now)
      defaultHardMax where
  stored := rfl
  le_ceiling := le_max_right _ _
  nonneg h := h
  hardMax_nonneg h := h

theorem recoverOverTime_within {clockAt : Option Instant} (h : TargetWithin defaultHardMax s target) :
    ∃ t, TargetWithin defaultHardMax (recoverOverTime config limit now clockAt s).state t := by
  obtain ⟨hstate, -, -⟩ | hclimb := @recoverOverTime_cases config limit now clockAt s
  · exact ⟨target, by rwa [hstate]⟩
  · rw [hclimb.state_eq]
    have hpos := hclimb.spent_pos
    have hcurrent : 0 ≤ currentTarget config limit s := clamp_nonneg
    exact ⟨_, h.of_bounds rfl (by omega) hclimb.room rfl⟩

theorem refresh_cases : refresh config limit now s = s ∨
    (s.state ≠ .disabled ∧ (refresh config limit now s).state = .available ∧
      (refresh config limit now s).adaptiveTarget = some (currentTarget config limit s) ∧
      (refresh config limit now s).configuredHardMax = s.configuredHardMax ∧
      (refresh config limit now s).successCount = s.successCount ∧
      (refresh config limit now s).last429At = s.last429At ∧
      (refresh config limit now s).updatedAt = now) := by
  unfold refresh
  split
  · exact .inl rfl
  rename_i henabled
  split
  · exact .inl rfl
  split
  · exact .inl rfl
  · exact .inr ⟨henabled, rfl, rfl, rfl, rfl, rfl, rfl⟩

theorem refresh_within (h : TargetWithin defaultHardMax s target) :
    ∃ t, TargetWithin defaultHardMax (refresh config limit now s) t := by
  obtain heq | ⟨-, -, htarget, hmax, -⟩ := @refresh_cases s config limit now
  · exact ⟨target, by rwa [heq]⟩
  · exact ⟨_, h.of_clamp htarget hmax⟩

theorem recordSuccess_within {report : SuccessReport} (h : TargetWithin defaultHardMax s target) :
    ∃ t, TargetWithin defaultHardMax (recordSuccess config limit now report s) t := by
  unfold recordSuccess
  split
  · exact ⟨target, h.of_same rfl rfl⟩
  · dsimp only
    split
    · exact ⟨_, h.of_clamp rfl rfl⟩
    · exact ⟨_, h.of_clamp rfl rfl⟩

theorem resetTarget_spec {value : Int} {clearCooldown : Bool}
    (h : resetTarget config limit now value clearCooldown s = some s') :
    s'.adaptiveTarget = some (clamp config limit s value) ∧
      s'.configuredHardMax = s.configuredHardMax ∧
      (s.state = .disabled → s'.state = .disabled) ∧
      s'.updatedAt = now ∧ s'.last429At = s.last429At := by
  unfold resetTarget at h
  split at h
  · exact absurd h (by simp)
  · dsimp only at h
    split at h
    · obtain rfl := Option.some.inj h
      refine ⟨rfl, rfl, ?_, rfl, rfl⟩
      intro hdisabled
      dsimp only
      rw [if_pos hdisabled]
    · obtain rfl := Option.some.inj h
      exact ⟨rfl, rfl, fun hdisabled => hdisabled, rfl, rfl⟩

end Keeps

section Runs

variable {broker : Broker} {doc : Option QuotaDoc} {r : Request} {limit : Option Int}
  {changed : QuotaState}

theorem Changed.within {target : Int} (hchanged : Changed broker doc r limit changed)
    (h : TargetWithin broker.defaultHardMax (broker.stored doc r.now) target) :
    ∃ t, TargetWithin broker.defaultHardMax changed t := by
  obtain ⟨t, ht⟩ : ∃ t, TargetWithin broker.defaultHardMax
    (broker.recovered doc limit r.now).state t := recoverOverTime_within h
  cases hchanged with
  | success report hop =>
    obtain ⟨t', ht'⟩ := @refresh_within _ _ _ broker.config limit r.now ht
    exact recordSuccess_within ht'
  | refusal report fallback next hop => exact ⟨_, ht.of_clamp rfl rfl⟩
  | reset value reason clearCooldown changed hop hreset =>
    obtain ⟨t', ht'⟩ := @refresh_within _ _ _ broker.config limit r.now ht
    obtain ⟨htarget, hmax, -⟩ := resetTarget_spec hreset
    exact ⟨_, ht'.of_clamp htarget hmax⟩
  | hardMax hardMax hop hnonneg =>
    refine ⟨min t hardMax, ?_, ?_, ?_, ?_⟩
    · dsimp only
      rw [ht.stored, Option.map_some]
    · exact (min_le_right _ _).trans (le_max_right _ _)
    · intro hdefault
      exact le_min (ht.nonneg hdefault) hnonneg
    · intro _
      exact hnonneg
  | retired hop hretired => exact refresh_within ht
  | climbed hop hspent => exact ⟨t, ht⟩

/-- What holds of the stored document between calls. -/
def Bounded (broker : Broker) (doc : Option QuotaDoc) : Prop :=
  ∀ d ∈ doc, ∃ t, TargetWithin broker.defaultHardMax d.state t

theorem Bounded.stored (h : Bounded broker doc) (now : Instant) :
    ∃ t, TargetWithin broker.defaultHardMax (broker.stored doc now) t := by
  cases doc with
  | none => exact ⟨_, initialState_within _ _⟩
  | some d => exact h d rfl

theorem Bounded.step {doc' : Option QuotaDoc} (h : Bounded broker doc)
    (hstep : broker.Step doc r doc') : Bounded broker doc' := by
  cases hcommit : broker.commits doc r with
  | none =>
    rw [Broker.Step, hcommit, Option.none_or] at hstep
    rwa [hstep]
  | some d =>
    rw [Broker.Step, hcommit, Option.some_or] at hstep
    subst hstep
    rintro d' hd'
    obtain rfl := Option.some.inj hd'
    obtain ⟨limit, changed, -, hchanged, rfl⟩ := Broker.commits_cases hcommit
    obtain ⟨t, ht⟩ := h.stored r.now
    exact hchanged.within ht

theorem recovered_state_state :
    (broker.recovered doc limit r.now).state.state = (broker.stored doc r.now).state := by
  obtain ⟨hstate, -, -⟩ | hclimb := @recoverOverTime_cases broker.config limit r.now
    (doc.bind QuotaDoc.recoveryClockAt) (broker.stored doc r.now)
  · exact congrArg QuotaState.state hstate
  · have h := congrArg QuotaState.state hclimb.state_eq
    exact h

/-- The four operations that set the target from a signal or an admin's wish. -/
def QuotaOp.setsTarget : QuotaOp → Prop
  | .observeSuccess _ | .observeRateLimit _ | .observeExhausted _ | .resetAdaptiveTarget _ _ _ =>
      True
  | .setHardMax _ | .sweep => False

/-- The written target against the ceiling its own transaction read. -/
def WrittenWithin (broker : Broker) (limit : Option Int) (s : QuotaState) : Prop :=
  ∃ t, s.adaptiveTarget = some t ∧ min broker.config.minTarget (ceilingOf s limit) ≤ t ∧
    t ≤ ceilingOf s limit ∧ ∀ l ∈ limit, t ≤ l

theorem poolHardLimitOf_nonneg {pool : HardLimitField} (h : poolHardLimitOf pool = .ok limit) :
    ∀ l ∈ limit, 0 ≤ l := by
  rintro l rfl
  cases pool <;> simp only [poolHardLimitOf, Except.ok.injEq, Option.some.injEq, reduceCtorEq] at h
  · exact h ▸ le_max_left _ _
  · exact h ▸ le_max_left _ _

theorem writtenWithin_of_clamp {s s' : QuotaState} {value : Int}
    (hlimit : ∀ l ∈ limit, 0 ≤ l)
    (hvalue : s'.adaptiveTarget = some (clamp broker.config limit s value))
    (hmax : s'.configuredHardMax = s.configuredHardMax) : WrittenWithin broker limit s' := by
  have hceiling : ceilingOf s' limit = ceilingOf s limit := ceilingOf_congr hmax
  refine ⟨_, hvalue, ?_, ?_, ?_⟩
  · rw [hceiling]
    exact floorOf_le_clamp
  · rw [hceiling]
    exact clamp_le_ceilingOf
  · intro l hl
    have hle := @ceilingOf_le_pool _ s l hl
    rw [max_eq_right (hlimit l hl)] at hle
    exact clamp_le_ceilingOf.trans hle

theorem Changed.writtenWithin (hchanged : Changed broker doc r limit changed)
    (hlimit : ∀ l ∈ limit, 0 ≤ l)
    (hsets : r.op.setsTarget) (henabled : (broker.stored doc r.now).state ≠ .disabled) :
    WrittenWithin broker limit changed := by
  rw [← @recovered_state_state broker doc r limit] at henabled
  cases hchanged with
  | success report hop =>
    have hrefreshed : (refresh broker.config limit r.now
        (broker.recovered doc limit r.now).state).state ≠ .disabled := by
      obtain heq | ⟨-, hstate, -⟩ := @refresh_cases (broker.recovered doc limit r.now).state
        broker.config limit r.now
      · rwa [heq]
      · rw [hstate]
        decide
    unfold recordSuccess
    rw [if_neg hrefreshed]
    dsimp only
    split
    · exact writtenWithin_of_clamp hlimit rfl rfl
    · exact writtenWithin_of_clamp hlimit rfl rfl
  | refusal report fallback next hop => exact writtenWithin_of_clamp hlimit rfl rfl
  | reset value reason clearCooldown changed hop hreset =>
    obtain ⟨htarget, hmax, -⟩ := resetTarget_spec hreset
    exact writtenWithin_of_clamp hlimit htarget hmax
  | hardMax hardMax hop hnonneg =>
    rw [hop] at hsets
    exact hsets.elim
  | retired hop hretired =>
    rw [hop] at hsets
    exact hsets.elim
  | climbed hop hspent =>
    rw [hop] at hsets
    exact hsets.elim

def Disabled (doc : Option QuotaDoc) : Prop := ∃ d, doc = some d ∧ d.state.state = .disabled

theorem refresh_of_disabled {config : AimdConfig} {now : Instant} {s : QuotaState}
    (h : s.state = .disabled) : refresh config limit now s = s := if_pos h

theorem Changed.disabled (hchanged : Changed broker doc r limit changed)
    (h : (broker.stored doc r.now).state = .disabled) : changed.state = .disabled := by
  rw [← @recovered_state_state broker doc r limit] at h
  cases hchanged with
  | success report hop =>
    rw [refresh_of_disabled h, recordSuccess, if_pos h]
    exact h
  | refusal report fallback next hop => exact if_pos h
  | reset value reason clearCooldown changed hop hreset =>
    rw [refresh_of_disabled h] at hreset
    exact (resetTarget_spec hreset).2.2.1 h
  | hardMax hardMax hop hnonneg => exact h
  | retired hop hretired =>
    rw [refresh_of_disabled h]
    exact h
  | climbed hop hspent => exact h

theorem Disabled.step {doc' : Option QuotaDoc} (h : Disabled doc)
    (hstep : broker.Step doc r doc') : Disabled doc' := by
  cases hcommit : broker.commits doc r with
  | none =>
    rw [Broker.Step, hcommit, Option.none_or] at hstep
    rwa [hstep]
  | some d =>
    rw [Broker.Step, hcommit, Option.some_or] at hstep
    obtain ⟨limit, changed, -, hchanged, rfl⟩ := Broker.commits_cases hcommit
    obtain ⟨before, rfl, hbefore⟩ := h
    exact ⟨_, hstep, hchanged.disabled hbefore⟩

end Runs

/-- The ceiling over every run of the broker's operations on one document. -/
structure CeilingKept (broker : Broker) : Prop where
  stored : ∀ requests doc, Run broker.Step none requests (some doc) →
    ∃ t, doc.state.adaptiveTarget = some t ∧ t ≤ max 0 doc.state.configuredHardMax ∧
      (0 ≤ broker.defaultHardMax → 0 ≤ t ∧ t ≤ doc.state.configuredHardMax)
  written : ∀ doc r doc' limit, r.op.setsTarget →
    (broker.stored doc r.now).state ≠ .disabled → poolHardLimitOf r.pool = .ok limit →
      broker.commits doc r = some doc' → WrittenWithin broker limit doc'.state
  disabled : ∀ doc requests doc', Disabled doc → Run broker.Step doc requests doc' →
    Disabled doc'

theorem ceilingKept (broker : Broker) : CeilingKept broker where
  stored requests doc hrun := by
    have hbounded := hrun.invariant (I := Bounded broker) (fun _ _ _ h hstep => h.step hstep)
      (fun _ hd => absurd hd (Option.not_mem_none _))
    obtain ⟨t, ht⟩ := hbounded doc rfl
    exact ⟨t, ht.stored, ht.le_ceiling, fun h => ⟨ht.nonneg h, ht.le_hardMax h⟩⟩
  written doc r doc' limit hsets henabled hlimit hcommit := by
    obtain ⟨limit', changed, hlimit', hchanged, rfl⟩ := Broker.commits_cases hcommit
    obtain rfl : limit = limit' := Except.ok.inj (hlimit.symm.trans hlimit')
    exact hchanged.writtenWithin (poolHardLimitOf_nonneg hlimit) hsets henabled
  disabled doc requests doc' hdisabled hrun :=
    hrun.invariant (I := Disabled) (fun _ _ _ h hstep => h.step hstep) hdisabled

/-- A broker whose default maximum is negative stores a target above it. -/
theorem target_above_negative_hardMax :
    ∃ doc : QuotaDoc, Run (Broker.mk "anthropic" "eng" .default (-1)).Step none
      [⟨0, .noPool, .observeSuccess {}⟩] (some doc) ∧
      ¬ ∃ t, doc.state.adaptiveTarget = some t ∧ 0 ≤ t ∧ t ≤ doc.state.configuredHardMax := by
  refine ⟨_, .one rfl, ?_⟩
  rintro ⟨t, ht, h0, hle⟩
  exact absurd (h0.trans hle) (by decide)

end SwarmCloud.Quota
