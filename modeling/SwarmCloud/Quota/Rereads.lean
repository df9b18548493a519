import SwarmCloud.Quota.Aimd
import Mathlib.Tactic.Ring

/-! # Reading the recovering target more often

A read spends whole intervals and leaves the rest in its clock, so that the reads
before the last one make no difference to what the last one finds.
-/

namespace SwarmCloud.Quota

open Common

variable {config : AimdConfig} {poolHardLimit : Option Int} {now : Instant} {clockAt : Option Instant} {s : QuotaState}

/-- A read at `now` has something to climb, and some time has gone by. -/
structure Climbing (config : AimdConfig) (poolHardLimit : Option Int) (now : Instant) (clockAt : Option Instant)
    (s : QuotaState) : Prop where
  interval_pos : 0 < config.recoveryIntervalSeconds
  enabled : s.state ≠ .disabled
  room : currentTarget config poolHardLimit s < ceilingOf s poolHardLimit
  started : recoveryStart clockAt s < now

theorem recoverOverTime_of_not_climbing (h : ¬Climbing config poolHardLimit now clockAt s) :
    recoverOverTime config poolHardLimit now clockAt s = ⟨s, clockAt, 0⟩ := by
  unfold recoverOverTime
  split
  · rfl
  · rename_i hrunning
    obtain ⟨hpos, henabled⟩ := not_or.mp hrunning
    refine if_pos ?_
    by_contra hopen
    obtain ⟨hroom, hstarted⟩ := not_or.mp hopen
    exact h ⟨not_le.mp hpos, henabled, not_le.mp hroom, not_le.mp hstarted⟩

/-- The whole intervals that have gone by since the clock. -/
def wholeIntervals (config : AimdConfig) (now : Instant) (clockAt : Option Instant) (s : QuotaState) : Int :=
  (now - recoveryStart clockAt s) / seconds config.recoveryIntervalSeconds

/-- The ones among them that the ceiling leaves room for. -/
def spentIntervals (config : AimdConfig) (poolHardLimit : Option Int) (now : Instant) (clockAt : Option Instant)
    (s : QuotaState) : Int :=
  min (wholeIntervals config now clockAt s) (ceilingOf s poolHardLimit - currentTarget config poolHardLimit s)

theorem Climbing.wait (h : Climbing config poolHardLimit now clockAt s)
    (hwhole : wholeIntervals config now clockAt s ≤ 0) :
    recoverOverTime config poolHardLimit now clockAt s = ⟨s, some (recoveryStart clockAt s), 0⟩ := by
  have hpos := h.interval_pos
  have hroom := h.room
  have hstarted := h.started
  unfold recoverOverTime
  rw [if_neg (not_or.mpr ⟨by omega, h.enabled⟩)]
  dsimp only
  rw [if_neg (not_or.mpr ⟨not_le.mpr hroom, not_le.mpr hstarted⟩)]
  exact if_pos hwhole

theorem Climbing.climb (h : Climbing config poolHardLimit now clockAt s)
    (hwhole : 0 < wholeIntervals config now clockAt s) :
    recoverOverTime config poolHardLimit now clockAt s =
      ⟨{ s with
          adaptiveTarget := some
            (currentTarget config poolHardLimit s + spentIntervals config poolHardLimit now clockAt s)
          updatedAt := now },
        some (recoveryStart clockAt s +
          seconds (spentIntervals config poolHardLimit now clockAt s * config.recoveryIntervalSeconds)),
        spentIntervals config poolHardLimit now clockAt s⟩ := by
  have hpos := h.interval_pos
  have hroom := h.room
  have hstarted := h.started
  have hfloor : floorOf config s poolHardLimit ≤ currentTarget config poolHardLimit s := floorOf_le_clamp
  -- Above the floor, the clamp only cuts at the ceiling.
  have hraised : clamp config poolHardLimit s
      (currentTarget config poolHardLimit s + wholeIntervals config now clockAt s) =
        currentTarget config poolHardLimit s + spentIntervals config poolHardLimit now clockAt s := by
    unfold spentIntervals
    rcases le_total (ceilingOf s poolHardLimit)
      (currentTarget config poolHardLimit s + wholeIntervals config now clockAt s) with hle | hle
    · rw [clamp_eq_ceilingOf hle]
      omega
    · rw [clamp_of_mem (by omega) hle]
      omega
  have hspent : min (wholeIntervals config now clockAt s)
      (currentTarget config poolHardLimit s + spentIntervals config poolHardLimit now clockAt s -
        currentTarget config poolHardLimit s) = spentIntervals config poolHardLimit now clockAt s := by
    unfold spentIntervals
    omega
  have hsome : ¬spentIntervals config poolHardLimit now clockAt s ≤ 0 := by
    unfold spentIntervals
    omega
  unfold recoverOverTime
  rw [if_neg (not_or.mpr ⟨by omega, h.enabled⟩)]
  dsimp only
  rw [if_neg (not_or.mpr ⟨not_le.mpr hroom, not_le.mpr hstarted⟩)]
  rw [show (now - recoveryStart clockAt s) / seconds config.recoveryIntervalSeconds =
    wholeIntervals config now clockAt s from rfl, hraised, hspent, if_neg (not_le.mpr hwhole), if_neg hsome]

theorem wholeIntervals_mono {t₁ t₂ : Instant} (hpos : 0 < config.recoveryIntervalSeconds) (h : t₁ ≤ t₂) :
    wholeIntervals config t₁ clockAt s ≤ wholeIntervals config t₂ clockAt s :=
  Int.ediv_le_ediv (seconds_pos hpos) (by lia)

/-- A clock that `n` intervals were spent from counts `n` fewer. -/
theorem wholeIntervals_spent {s' : QuotaState} (hpos : 0 < config.recoveryIntervalSeconds) (n : Int) :
    wholeIntervals config now (some (recoveryStart clockAt s + seconds (n * config.recoveryIntervalSeconds))) s' =
      wholeIntervals config now clockAt s - n := by
  have hne : seconds config.recoveryIntervalSeconds ≠ 0 := (seconds_pos hpos).ne'
  have hsplit : now - (recoveryStart clockAt s + seconds (n * config.recoveryIntervalSeconds)) =
      (now - recoveryStart clockAt s) + -n * seconds config.recoveryIntervalSeconds := by
    unfold seconds
    ring
  unfold wholeIntervals
  rw [show recoveryStart (some (recoveryStart clockAt s + seconds (n * config.recoveryIntervalSeconds))) s' =
    recoveryStart clockAt s + seconds (n * config.recoveryIntervalSeconds) from rfl, hsplit,
    Int.add_mul_ediv_right _ _ hne]
  omega

/-! ## One read before another -/

/-- The same target, the same clock, and the same instant that a later read counts from. -/
def SameReading (r r' : Recovery) : Prop :=
  r.state.adaptiveTarget = r'.state.adaptiveTarget ∧ r.clock = r'.clock ∧
    recoveryStart r.clock r.state = recoveryStart r'.clock r'.state

theorem Climbing.mono {t₁ t₂ : Instant} (h : Climbing config poolHardLimit t₁ clockAt s) (hle : t₁ ≤ t₂) :
    Climbing config poolHardLimit t₂ clockAt s :=
  ⟨h.interval_pos, h.enabled, h.room, h.started.trans_le hle⟩

section Again

variable {t₁ t₂ : Instant}

theorem Climbing.again_wait (h : Climbing config poolHardLimit t₁ clockAt s) (hle : t₁ ≤ t₂) :
    recoverOverTime config poolHardLimit t₂ (some (recoveryStart clockAt s)) s =
      recoverOverTime config poolHardLimit t₂ clockAt s := by
  have hlater := h.mono hle
  have hsame : Climbing config poolHardLimit t₂ (some (recoveryStart clockAt s)) s :=
    ⟨hlater.interval_pos, hlater.enabled, hlater.room, hlater.started⟩
  rcases le_or_gt (wholeIntervals config t₂ clockAt s) 0 with hwhole | hwhole
  · rw [hlater.wait hwhole, hsame.wait hwhole]
    rfl
  · rw [hlater.climb hwhole, hsame.climb hwhole]
    rfl

/-- After a climb the target is the raised one, and the ceiling is where it was. -/
theorem Climbing.raised (h : Climbing config poolHardLimit t₁ clockAt s)
    (hwhole : 0 < wholeIntervals config t₁ clockAt s) (raised : QuotaState)
    (hraised : raised = { s with
      adaptiveTarget := some (currentTarget config poolHardLimit s + spentIntervals config poolHardLimit t₁ clockAt s)
      updatedAt := t₁ }) :
    currentTarget config poolHardLimit raised =
        currentTarget config poolHardLimit s + spentIntervals config poolHardLimit t₁ clockAt s ∧
      ceilingOf raised poolHardLimit = ceilingOf s poolHardLimit := by
  have hroom := h.room
  have hfloor : floorOf config s poolHardLimit ≤ currentTarget config poolHardLimit s := floorOf_le_clamp
  have hpos : 0 < spentIntervals config poolHardLimit t₁ clockAt s := by
    unfold spentIntervals
    omega
  have hceiling : currentTarget config poolHardLimit s + spentIntervals config poolHardLimit t₁ clockAt s ≤
      ceilingOf s poolHardLimit := by
    unfold spentIntervals
    omega
  have hmax : raised.configuredHardMax = s.configuredHardMax := by rw [hraised]
  refine ⟨?_, ceilingOf_congr hmax⟩
  have hstored : raised.adaptiveTarget =
      some (currentTarget config poolHardLimit s + spentIntervals config poolHardLimit t₁ clockAt s) := by rw [hraised]
  rw [currentTarget, hstored, clamp_congr hmax]
  rw [Option.getD_some]
  exact clamp_of_mem (by omega) hceiling

theorem Climbing.again_climb (h : Climbing config poolHardLimit t₁ clockAt s)
    (hwhole : 0 < wholeIntervals config t₁ clockAt s) (hle : t₁ ≤ t₂) {first : Recovery}
    (hfirst : first = recoverOverTime config poolHardLimit t₁ clockAt s) :
    SameReading (recoverOverTime config poolHardLimit t₂ first.clock first.state)
      (recoverOverTime config poolHardLimit t₂ clockAt s) := by
  have hpos := h.interval_pos
  have hroom := h.room
  have hmono : wholeIntervals config t₁ clockAt s ≤ wholeIntervals config t₂ clockAt s :=
    wholeIntervals_mono hpos hle
  rw [h.climb hwhole] at hfirst
  rw [(h.mono hle).climb (hwhole.trans_le hmono)]
  obtain ⟨htarget, hceiling⟩ := h.raised hwhole first.state (by rw [hfirst])
  have hclock : first.clock = some (recoveryStart clockAt s +
      seconds (spentIntervals config poolHardLimit t₁ clockAt s * config.recoveryIntervalSeconds)) := by rw [hfirst]
  have hstored : first.state.adaptiveTarget =
      some (currentTarget config poolHardLimit s + spentIntervals config poolHardLimit t₁ clockAt s) := by rw [hfirst]
  have hleft : wholeIntervals config t₂ first.clock first.state =
      wholeIntervals config t₂ clockAt s - spentIntervals config poolHardLimit t₁ clockAt s := by
    rw [hclock, wholeIntervals_spent hpos]
  -- The second read spends what the first left of the one read's intervals.
  rcases lt_or_ge (spentIntervals config poolHardLimit t₁ clockAt s)
    (spentIntervals config poolHardLimit t₂ clockAt s) with hmore | hmore
  · have hspent : spentIntervals config poolHardLimit t₂ first.clock first.state =
        spentIntervals config poolHardLimit t₂ clockAt s - spentIntervals config poolHardLimit t₁ clockAt s := by
      rw [spentIntervals, hleft, hceiling, htarget]
      unfold spentIntervals
      omega
    have hsome : 0 < wholeIntervals config t₂ first.clock first.state := by
      unfold spentIntervals at hspent hmore
      omega
    have hopen : Climbing config poolHardLimit t₂ first.clock first.state := by
      refine ⟨hpos, ?_, ?_, ?_⟩
      · rw [hfirst]
        exact h.enabled
      · rw [htarget, hceiling]
        unfold spentIntervals at hmore ⊢
        omega
      · by_contra hlate
        exact absurd hsome (not_lt.mpr (Int.ediv_nonpos_of_nonpos_of_neg (by lia) (seconds_pos hpos)))
    rw [hopen.climb hsome, hspent, htarget]
    have hend : recoveryStart first.clock first.state + seconds ((spentIntervals config poolHardLimit t₂ clockAt s -
        spentIntervals config poolHardLimit t₁ clockAt s) * config.recoveryIntervalSeconds) =
          recoveryStart clockAt s +
            seconds (spentIntervals config poolHardLimit t₂ clockAt s * config.recoveryIntervalSeconds) := by
      rw [hclock]
      change recoveryStart clockAt s + _ + _ = _
      unfold seconds
      ring
    refine ⟨?_, congrArg some hend, hend⟩
    dsimp only
    rw [add_assoc, add_sub_cancel]
  · have hsame : spentIntervals config poolHardLimit t₂ clockAt s =
        spentIntervals config poolHardLimit t₁ clockAt s := by
      unfold spentIntervals at hmore ⊢
      omega
    have hstill : recoverOverTime config poolHardLimit t₂ first.clock first.state =
        ⟨first.state, first.clock, 0⟩ := by
      by_cases hopen : Climbing config poolHardLimit t₂ first.clock first.state
      · rw [hopen.wait, hclock]
        · rfl
        · have hmoreRoom := hopen.room
          rw [htarget, hceiling] at hmoreRoom
          rw [hleft]
          unfold spentIntervals at hsame hmoreRoom ⊢
          omega
      · exact recoverOverTime_of_not_climbing hopen
    rw [hstill, hsame]
    refine ⟨hstored, hclock, ?_⟩
    dsimp only
    rw [hclock]
    rfl

/-- A read at `t₁` and then one at `t₂` find what the one at `t₂` finds. -/
theorem recoverOverTime_again (hle : t₁ ≤ t₂) {first : Recovery}
    (hfirst : first = recoverOverTime config poolHardLimit t₁ clockAt s) :
    SameReading (recoverOverTime config poolHardLimit t₂ first.clock first.state)
      (recoverOverTime config poolHardLimit t₂ clockAt s) := by
  by_cases hopen : Climbing config poolHardLimit t₁ clockAt s
  · rcases le_or_gt (wholeIntervals config t₁ clockAt s) 0 with hwhole | hwhole
    · rw [hfirst, hopen.wait hwhole]
      rw [hopen.again_wait hle]
      exact ⟨rfl, rfl, rfl⟩
    · exact hopen.again_climb hwhole hle hfirst
  · rw [hfirst, recoverOverTime_of_not_climbing hopen]
    exact ⟨rfl, rfl, rfl⟩

end Again

/-! ## Any number of reads -/

/-- Reads at the listed instants, each from the state and the clock that the one before it returned. -/
def readEach (config : AimdConfig) (poolHardLimit : Option Int) (r : Recovery) : List Instant → Recovery
  | [] => r
  | now :: rest => readEach config poolHardLimit (recoverOverTime config poolHardLimit now r.clock r.state) rest

/-- Whatever reads come before it, a read at `last` finds the target and the clock that it finds without them. -/
theorem readEach_eq_last (config : AimdConfig) (poolHardLimit : Option Int) (clockAt : Option Instant)
    (s : QuotaState) (earlier : List Instant) (last : Instant) (hsorted : (earlier ++ [last]).Pairwise (· ≤ ·)) :
    (readEach config poolHardLimit ⟨s, clockAt, 0⟩ (earlier ++ [last])).state.adaptiveTarget =
        (recoverOverTime config poolHardLimit last clockAt s).state.adaptiveTarget ∧
      (readEach config poolHardLimit ⟨s, clockAt, 0⟩ (earlier ++ [last])).clock =
        (recoverOverTime config poolHardLimit last clockAt s).clock ∧
      recoveryStart (readEach config poolHardLimit ⟨s, clockAt, 0⟩ (earlier ++ [last])).clock
          (readEach config poolHardLimit ⟨s, clockAt, 0⟩ (earlier ++ [last])).state =
        recoveryStart (recoverOverTime config poolHardLimit last clockAt s).clock
          (recoverOverTime config poolHardLimit last clockAt s).state := by
  suffices hreads : ∀ r : Recovery, SameReading (readEach config poolHardLimit r (earlier ++ [last]))
      (recoverOverTime config poolHardLimit last r.clock r.state) from hreads ⟨s, clockAt, 0⟩
  induction earlier with
  | nil => exact fun r => ⟨rfl, rfl, rfl⟩
  | cons now rest ih =>
    intro r
    obtain ⟨hfirst, hrest⟩ := List.pairwise_cons.mp hsorted
    have hlast : now ≤ last := hfirst last (by simp)
    obtain ⟨htarget, hclock, hstart⟩ := ih hrest (recoverOverTime config poolHardLimit now r.clock r.state)
    obtain ⟨htarget', hclock', hstart'⟩ := recoverOverTime_again hlast rfl
    exact ⟨htarget.trans htarget', hclock.trans hclock', hstart.trans hstart'⟩

/-- Two reads inside one interval and one past the second: the target has climbed by two, and the clock stands at
the end of the second interval. -/
theorem readEach_eq_last_thrice : ∃ s : QuotaState,
    (readEach .default none ⟨s, none, 0⟩ ([seconds 100, seconds 310] ++ [seconds 650])).state.adaptiveTarget =
        (recoverOverTime .default none (seconds 650) none s).state.adaptiveTarget ∧
      (recoverOverTime .default none (seconds 650) none s).state.adaptiveTarget = some 6 ∧
      (recoverOverTime .default none (seconds 650) none s).clock = some (seconds 600) := by
  refine ⟨⟨"anthropic", "eng", .available, 0, 50, some 4, none, none, none, none, none, none, none, 0, 0⟩, ?_⟩
  refine ⟨(readEach_eq_last .default none none _ [seconds 100, seconds 310] (seconds 650) (by decide)).1, ?_, ?_⟩
  · decide
  · decide

end SwarmCloud.Quota
