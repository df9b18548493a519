import SwarmCloud.Quota.Ceiling

/-! # How fast the clock may raise a target

A run carries its last instant. Between two writes the target rises only by the
intervals `recover_over_time` spends, and each spent interval moves the clock on
by as much. The argument is an account of spent intervals against the clock's
start; it needs that a climb begins less than one interval behind the last
write, which a clock left behind at the ceiling does not give.
-/

namespace SwarmCloud.Quota

open Common Lib

namespace Broker

variable (broker : Broker)

def TimedStep (c : Instant × Option QuotaDoc) (r : Request) (c' : Instant × Option QuotaDoc) :
    Prop :=
  c.1 ≤ r.now ∧ c'.1 = r.now ∧ broker.Step c.2 r c'.2

/-- A committed write of `doc` at the request's instant. -/
def Writes (c : Instant × Option QuotaDoc) (r : Request) (doc : QuotaDoc) : Prop :=
  c.1 ≤ r.now ∧ broker.commits c.2 r = some doc

/-- No admin reset, and no success that completes a run below the ceiling. -/
def NoRaise (doc : Option QuotaDoc) (r : Request) : Prop :=
  match r.op with
  | .resetAdaptiveTarget _ _ _ => False
  | .observeSuccess _ => ∀ limit, poolHardLimitOf r.pool = .ok limit →
      (broker.stored doc r.now).successCount + 1 < broker.config.successThreshold ∨
        ceilingOf (broker.stored doc r.now) limit ≤
          currentTarget broker.config limit (broker.recovered doc limit r.now).state
  | _ => True

/-- A target the request finds below the ceiling is at least the floor, and its
clock starts less than one interval behind the last write. -/
def Steady (doc : Option QuotaDoc) (r : Request) : Prop :=
  ∀ d ∈ doc, ∀ limit, poolHardLimitOf r.pool = .ok limit → ∀ t ∈ d.state.adaptiveTarget,
    t < ceilingOf d.state limit →
      floorOf broker.config d.state limit ≤ t ∧
        d.state.updatedAt < recoveryStart d.recoveryClockAt d.state +
          seconds broker.config.recoveryIntervalSeconds

def GentleStep (c : Instant × Option QuotaDoc) (r : Request) (c' : Instant × Option QuotaDoc) :
    Prop :=
  broker.TimedStep c r c' ∧ broker.NoRaise c.2 r

def SteadyStep (c : Instant × Option QuotaDoc) (r : Request) (c' : Instant × Option QuotaDoc) :
    Prop :=
  broker.GentleStep c r c' ∧ broker.Steady c.2 r

end Broker

section Dates

variable {broker : Broker} {doc : Option QuotaDoc} {r : Request} {limit : Option Int}
  {changed : QuotaState}

theorem recovered_frame :
    (broker.recovered doc limit r.now).state.last429At = (broker.stored doc r.now).last429At ∧
      (broker.recovered doc limit r.now).state.configuredHardMax =
        (broker.stored doc r.now).configuredHardMax ∧
      (broker.recovered doc limit r.now).state.successCount =
        (broker.stored doc r.now).successCount := by
  unfold Broker.recovered
  obtain ⟨hstate, -, -⟩ | hclimb := @recoverOverTime_cases broker.config limit r.now
    (doc.bind QuotaDoc.recoveryClockAt) (broker.stored doc r.now)
  · rw [hstate]
    exact ⟨rfl, rfl, rfl⟩
  · rw [hclimb.state_eq]
    exact ⟨rfl, rfl, rfl⟩

theorem refresh_last429At {config : AimdConfig} {now : Instant} {s : QuotaState} :
    (refresh config limit now s).last429At = s.last429At := by
  obtain heq | ⟨-, -, -, -, -, hlast, -⟩ := @refresh_cases s config limit now
  · rw [heq]
  · exact hlast

/-- Every committed write is dated, and a refusal it records is its own. -/
theorem Changed.dated (hchanged : Changed broker doc r limit changed) :
    changed.updatedAt = r.now ∧
      (changed.last429At = (broker.stored doc r.now).last429At ∨
        changed.last429At = some r.now) := by
  have hlast := (@recovered_frame broker doc r limit).1
  cases hchanged with
  | success report hop =>
    have hrefresh := (@refresh_last429At limit broker.config r.now
      (broker.recovered doc limit r.now).state).trans hlast
    unfold recordSuccess
    split
    · exact ⟨rfl, .inl hrefresh⟩
    · exact ⟨rfl, .inl hrefresh⟩
  | refusal report fallback next hop => exact ⟨rfl, .inr rfl⟩
  | reset value reason clearCooldown changed hop hreset =>
    obtain ⟨-, -, -, hupdated, hlast'⟩ := resetTarget_spec hreset
    exact ⟨hupdated, .inl ((hlast'.trans refresh_last429At).trans hlast)⟩
  | hardMax hardMax hop hnonneg => exact ⟨rfl, .inl hlast⟩
  | retired hop hretired =>
    obtain heq | ⟨-, -, -, -, -, hlast', hupdated⟩ :=
      @refresh_cases (broker.recovered doc limit r.now).state broker.config limit r.now
    · rw [heq] at hretired
      simp at hretired
    · exact ⟨hupdated, .inl (hlast'.trans hlast)⟩
  | climbed hop hspent =>
    refine ⟨?_, .inl hlast⟩
    obtain ⟨-, hzero, -⟩ | hclimb := @recoverOverTime_cases broker.config limit r.now
      (doc.bind QuotaDoc.recoveryClockAt) (broker.stored doc r.now)
    · exact absurd hzero hspent
    · have h := congrArg QuotaState.updatedAt hclimb.state_eq
      exact h

end Dates

/-- No date a document carries lies after `now`. -/
structure Dated (now : Instant) (clockAt : Option Instant) (s : QuotaState) : Prop where
  clock : ∀ c ∈ clockAt, c ≤ now
  refusal : ∀ l ∈ s.last429At, l ≤ now
  write : s.updatedAt ≤ now

theorem Dated.mono {now later : Instant} {clockAt : Option Instant} {s : QuotaState}
    (h : Dated now clockAt s) (hle : now ≤ later) : Dated later clockAt s where
  clock c hc := (h.clock c hc).trans hle
  refusal l hl := (h.refusal l hl).trans hle
  write := h.write.trans hle

theorem Dated.start_le {now : Instant} {clockAt : Option Instant} {s : QuotaState}
    (h : Dated now clockAt s) : recoveryStart clockAt s ≤ now := by
  unfold recoveryStart
  cases hclock : clockAt with
  | some c => exact h.clock c hclock
  | none =>
    cases hlast : s.last429At with
    | some l => exact h.refusal l hlast
    | none => exact h.write

section Clock

variable {broker : Broker} {doc : Option QuotaDoc} {r : Request} {limit poolLimit : Option Int}
  {changed : QuotaState}

/-- With the clock and the last refusal kept, recovery starts no earlier. -/
theorem recoveryStart_le {clock : Option Instant} {state : QuotaState}
    (hsame : changed.last429At = state.last429At) (hle : state.updatedAt ≤ changed.updatedAt) :
    recoveryStart clock state ≤ recoveryStart clock changed := by
  unfold recoveryStart
  rw [hsame]
  cases clock with
  | some c => simp
  | none =>
    cases state.last429At with
    | some l => simp
    | none => simpa using hle

/-- How far the clock of the written document starts: no earlier than before,
and later by every interval spent. -/
theorem Changed.clock (hchanged : Changed broker doc r limit changed)
    (h : Dated r.now (doc.bind QuotaDoc.recoveryClockAt) (broker.stored doc r.now)) :
    Dated r.now (broker.payload doc r.now poolLimit (broker.recovered doc limit r.now)
        changed).recoveryClockAt changed ∧
      recoveryStart (doc.bind QuotaDoc.recoveryClockAt) (broker.stored doc r.now) +
          seconds ((broker.recovered doc limit r.now).spent *
            broker.config.recoveryIntervalSeconds) ≤
        recoveryStart (broker.payload doc r.now poolLimit (broker.recovered doc limit r.now)
          changed).recoveryClockAt changed := by
  obtain ⟨hupdated, hlast⟩ := hchanged.dated
  have hrefusal : ∀ l ∈ changed.last429At, l ≤ r.now := by
    intro l hl
    obtain heq | heq := hlast
    · exact h.refusal l (heq ▸ hl)
    · exact (Option.some.inj (heq.symm.trans hl)).ge
  have hframe := (@recovered_frame broker doc r limit).1
  have hstart := h.start_le
  have hcases := @recoverOverTime_cases broker.config limit r.now
    (doc.bind QuotaDoc.recoveryClockAt) (broker.stored doc r.now)
  dsimp only [Broker.payload]
  unfold recoveryClock
  split
  · -- The clock restarts at the write's own instant.
    refine ⟨⟨fun c hc => (Option.some.inj hc).ge, hrefusal, hupdated.le⟩, ?_⟩
    have hnow : recoveryStart (some r.now) changed = r.now := rfl
    rw [hnow]
    obtain ⟨-, hzero, -⟩ | hclimb := hcases
    · have hspent : (broker.recovered doc limit r.now).spent = 0 := hzero
      rw [hspent, Int.zero_mul]
      simpa [seconds] using hstart
    · exact hclimb.elapsed
  · rename_i hkept
    have hsame : changed.last429At = (broker.stored doc r.now).last429At :=
      (not_not.mp (not_or.mp hkept).2).trans hframe
    obtain ⟨-, hzero, hclock⟩ | hclimb := hcases
    · have hspent : (broker.recovered doc limit r.now).spent = 0 := hzero
      rw [hspent, Int.zero_mul]
      obtain hclock | hclock := hclock
      · have hclock' : (broker.recovered doc limit r.now).clock =
            doc.bind QuotaDoc.recoveryClockAt := hclock
        rw [hclock']
        refine ⟨⟨h.clock, hrefusal, hupdated.le⟩, ?_⟩
        simpa [seconds] using recoveryStart_le hsame (hupdated ▸ h.write)
      · have hclock' : (broker.recovered doc limit r.now).clock =
            some (recoveryStart (doc.bind QuotaDoc.recoveryClockAt) (broker.stored doc r.now)) :=
          hclock
        rw [hclock']
        refine ⟨⟨fun c hc => (Option.some.inj hc) ▸ hstart, hrefusal, hupdated.le⟩, ?_⟩
        simp [recoveryStart, seconds]
    · have hclock' : (broker.recovered doc limit r.now).clock = _ := hclimb.clock_eq
      rw [hclock']
      exact ⟨⟨fun c hc => (Option.some.inj hc) ▸ hclimb.elapsed, hrefusal, hupdated.le⟩, le_rfl⟩

end Clock

section Targets

variable {broker : Broker} {doc : Option QuotaDoc} {r : Request} {limit : Option Int}
  {changed : QuotaState}

theorem currentTarget_of_stored {config : AimdConfig} {s : QuotaState} {t : Int}
    (h : s.adaptiveTarget = some t) : currentTarget config limit s = clamp config limit s t := by
  unfold currentTarget
  rw [h, Option.getD_some]

theorem refresh_target {config : AimdConfig} {now : Instant} {s : QuotaState} {t bound : Int}
    (h : s.adaptiveTarget = some t) (hbound : t ≤ bound)
    (hclamp : clamp config limit s t ≤ bound) :
    ∃ t', (refresh config limit now s).adaptiveTarget = some t' ∧ t' ≤ bound ∧
      currentTarget config limit (refresh config limit now s) = clamp config limit s t := by
  obtain heq | ⟨-, -, htarget, hmax, -⟩ := @refresh_cases s config limit now
  · rw [heq]
    exact ⟨t, h, hbound, currentTarget_of_stored h⟩
  · rw [currentTarget_of_stored h] at htarget
    refine ⟨_, htarget, hclamp, ?_⟩
    rw [currentTarget_of_stored htarget, clamp_congr hmax]
    exact clamp_of_mem floorOf_le_clamp clamp_le_ceilingOf

/-- A refresh changes neither the count of successes nor the ceiling. -/
theorem refresh_frame (broker : Broker) (doc : Option QuotaDoc) (r : Request) (limit : Option Int) :
    (refresh broker.config limit r.now (broker.recovered doc limit r.now).state).successCount =
        (broker.stored doc r.now).successCount ∧
      ceilingOf (refresh broker.config limit r.now (broker.recovered doc limit r.now).state) limit =
        ceilingOf (broker.stored doc r.now) limit := by
  obtain ⟨-, hmax, hcount⟩ := @recovered_frame broker doc r limit
  obtain heq | ⟨-, -, -, hmax', hcount', -⟩ :=
    @refresh_cases (broker.recovered doc limit r.now).state broker.config limit r.now
  · rw [heq]
    exact ⟨hcount, ceilingOf_congr hmax⟩
  · exact ⟨hcount'.trans hcount, ceilingOf_congr (hmax'.trans hmax)⟩

/-- Without a reset or a completed run, no operation lifts the target it is
handed beyond what the clamp makes of it. -/
theorem Changed.target_le {t bound : Int} (hchanged : Changed broker doc r limit changed)
    (hlimit : poolHardLimitOf r.pool = .ok limit) (hnoRaise : broker.NoRaise doc r)
    (h : (broker.recovered doc limit r.now).state.adaptiveTarget = some t) (hbound : t ≤ bound)
    (hclamp : clamp broker.config limit (broker.recovered doc limit r.now).state t ≤ bound) :
    ∃ t', changed.adaptiveTarget = some t' ∧ t' ≤ bound := by
  cases hchanged with
  | success report hop =>
    obtain ⟨t', ht', hle, hcurrent⟩ := @refresh_target limit broker.config r.now _ _ _ h hbound hclamp
    obtain ⟨hcount, htop⟩ := refresh_frame broker doc r limit
    unfold recordSuccess
    split
    · exact ⟨t', ht', hle⟩
    · dsimp only
      rw [hcurrent]
      split
      · rename_i hfull
        refine ⟨_, rfl, ?_⟩
        rw [Broker.NoRaise, hop] at hnoRaise
        obtain hshort | hceiling := hnoRaise limit hlimit
        · have := of_decide_eq_true hfull
          omega
        · rw [currentTarget_of_stored h] at hceiling
          calc clamp broker.config limit _ _
              ≤ ceilingOf (refresh broker.config limit r.now
                  (broker.recovered doc limit r.now).state) limit := clamp_le_ceilingOf
            _ = ceilingOf (broker.stored doc r.now) limit := htop
            _ ≤ bound := hceiling.trans hclamp
      · exact ⟨_, rfl, hclamp⟩
  | refusal report fallback next hop =>
    refine ⟨_, rfl, ?_⟩
    rw [currentTarget_of_stored h]
    exact clamp_le_of_floorOf_le (floorOf_le_clamp.trans hclamp)
      ((broker.config.scaled_le _ clamp_nonneg).trans hclamp)
  | reset value reason clearCooldown changed hop hreset =>
    rw [Broker.NoRaise, hop] at hnoRaise
    exact hnoRaise.elim
  | hardMax hardMax hop hnonneg =>
    refine ⟨min t hardMax, ?_, (min_le_left _ _).trans hbound⟩
    dsimp only
    rw [h, Option.map_some]
  | retired hop hretired =>
    obtain ⟨t', ht', hle, -⟩ := @refresh_target limit broker.config r.now _ _ _ h hbound hclamp
    exact ⟨t', ht', hle⟩
  | climbed hop hspent => exact ⟨t, h, hbound⟩

/-- One write of a steady run: the target rises by at most the intervals spent,
and a climb starts less than one interval behind the last write. -/
theorem Changed.steady_rise {d : QuotaDoc} {t : Int} (hchanged : Changed broker (some d) r limit changed)
    (hlimit : poolHardLimitOf r.pool = .ok limit) (hnoRaise : broker.NoRaise (some d) r)
    (hsteady : broker.Steady (some d) r) (h : d.state.adaptiveTarget = some t) :
    (∃ t', changed.adaptiveTarget = some t' ∧
        t' ≤ t + (broker.recovered (some d) limit r.now).spent) ∧
      0 ≤ (broker.recovered (some d) limit r.now).spent ∧
      (0 < (broker.recovered (some d) limit r.now).spent →
        d.state.updatedAt < recoveryStart d.recoveryClockAt d.state +
          seconds broker.config.recoveryIntervalSeconds) := by
  have hcurrent : currentTarget broker.config limit d.state ≤ t := by
    rw [currentTarget_of_stored h]
    obtain hlt | hge := lt_or_ge t (ceilingOf d.state limit)
    · exact clamp_le_of_floorOf_le (hsteady d rfl limit hlimit t h hlt).1 le_rfl
    · exact clamp_le_ceilingOf.trans hge
  obtain ⟨hstate, hzero, -⟩ | hclimb := @recoverOverTime_cases broker.config limit r.now
    d.recoveryClockAt d.state
  · have hstate' : (broker.recovered (some d) limit r.now).state = d.state := hstate
    have hspent : (broker.recovered (some d) limit r.now).spent = 0 := hzero
    rw [hspent, add_zero]
    refine ⟨hchanged.target_le hlimit hnoRaise (hstate' ▸ h) le_rfl ?_, le_rfl, ?_⟩
    · rw [hstate', ← currentTarget_of_stored h]
      exact hcurrent
    · exact fun hpos => absurd hpos (lt_irrefl _)
  · replace hclimb : Climbed broker.config limit r.now d.recoveryClockAt d.state
      (broker.recovered (some d) limit r.now) := hclimb
    have hpos := hclimb.spent_pos
    have hroom := hclimb.room
    have hfloor : floorOf broker.config d.state limit ≤ currentTarget broker.config limit d.state :=
      floorOf_le_clamp
    refine ⟨?_, hpos.le, ?_⟩
    · have htarget := congrArg QuotaState.adaptiveTarget hclimb.state_eq
      refine hchanged.target_le hlimit hnoRaise htarget (Int.add_le_add_right hcurrent _) ?_
      refine le_trans (le_of_eq ?_) (Int.add_le_add_right hcurrent _)
      rw [clamp_congr (congrArg QuotaState.configuredHardMax hclimb.state_eq)]
      exact clamp_of_mem (hfloor.trans (Int.le_add_of_nonneg_right hpos.le)) hroom
    · intro _
      have hbelow : t < ceilingOf d.state limit := by
        by_contra hge
        have htop : currentTarget broker.config limit d.state = ceilingOf d.state limit := by
          rw [currentTarget_of_stored h]
          exact clamp_eq_ceilingOf (not_lt.mp hge)
        omega
      exact (hsteady d rfl limit hlimit t h hbelow).2

end Targets

section Runs

variable {broker : Broker}

def AllDated (c : Instant × Option QuotaDoc) : Prop :=
  ∀ d ∈ c.2, Dated c.1 d.recoveryClockAt d.state

theorem AllDated.stored {c : Instant × Option QuotaDoc} (h : AllDated c) {now : Instant}
    (hle : c.1 ≤ now) : Dated now (c.2.bind QuotaDoc.recoveryClockAt) (broker.stored c.2 now) := by
  obtain ⟨before, doc⟩ := c
  cases doc with
  | none => exact ⟨by simp, by simp [Broker.stored, initialState], le_rfl⟩
  | some d => exact (h d rfl).mono hle

theorem AllDated.writes {c : Instant × Option QuotaDoc} {r : Request} {d : QuotaDoc}
    (h : AllDated c) (hwrite : broker.Writes c r d) : Dated r.now d.recoveryClockAt d.state := by
  obtain ⟨limit, changed, -, hchanged, rfl⟩ := Broker.commits_cases hwrite.2
  exact (hchanged.clock (h.stored hwrite.1)).1

/-- A timed step writes, or only moves the instant on. -/
theorem timedStep_cases {c c' : Instant × Option QuotaDoc} {r : Request}
    (h : broker.TimedStep c r c') :
    (∃ d, broker.Writes c r d ∧ c' = (r.now, some d)) ∨ (c.1 ≤ r.now ∧ c' = (r.now, c.2)) := by
  obtain ⟨hle, hnow, hstep⟩ := h
  cases hcommit : broker.commits c.2 r with
  | none =>
    rw [Broker.Step, hcommit, Option.none_or] at hstep
    exact .inr ⟨hle, Prod.ext hnow hstep⟩
  | some d =>
    rw [Broker.Step, hcommit, Option.some_or] at hstep
    exact .inl ⟨d, ⟨hle, hcommit⟩, Prod.ext hnow hstep⟩

theorem AllDated.step {c c' : Instant × Option QuotaDoc} {r : Request} (h : AllDated c)
    (hstep : broker.TimedStep c r c') : AllDated c' := by
  obtain ⟨d, hwrite, rfl⟩ | ⟨hle, rfl⟩ := timedStep_cases hstep
  · rintro d' hd'
    obtain rfl := Option.some.inj hd'
    exact h.writes hwrite
  · exact fun d hd => (h d hd).mono hle

/-- The account of a stretch of a run since a write at `t₁` with target `target₁`:
`spent` intervals so far, each of them behind the clock's start. -/
structure Account (broker : Broker) (t₁ : Instant) (target₁ : Int)
    (c : Instant × Option QuotaDoc) (d : QuotaDoc) (spent : Int) : Prop where
  doc : c.2 = some d
  dated : Dated c.1 d.recoveryClockAt d.state
  since : t₁ ≤ d.state.updatedAt
  spent_nonneg : 0 ≤ spent
  target : ∃ t, d.state.adaptiveTarget = some t ∧ t ≤ target₁ + spent
  paid : 0 < spent → seconds (spent * broker.config.recoveryIntervalSeconds) <
    recoveryStart d.recoveryClockAt d.state - t₁ + seconds broker.config.recoveryIntervalSeconds

/-- Spending `more` intervals moves the clock's start on by as much. -/
theorem paid_add {interval spent more : Int} {t₁ start start' written : Instant}
    (hclock : start + seconds (more * interval) ≤ start')
    (hpaid : 0 < spent → seconds (spent * interval) < start - t₁ + seconds interval)
    (hclose : 0 < more → written < start + seconds interval) (hsince : t₁ ≤ written)
    (hspent : 0 ≤ spent) (hpos : 0 < spent + more) :
    seconds ((spent + more) * interval) < start' - t₁ + seconds interval := by
  unfold seconds at *
  rw [Int.add_mul]
  obtain hzero | hsome := hspent.eq_or_lt
  · have hnew := hclose (by omega)
    rw [← hzero, Int.zero_mul]
    lia
  · have hold := hpaid hsome
    lia

theorem Account.writes {t₁ : Instant} {target₁ spent : Int} {c : Instant × Option QuotaDoc}
    {d d' : QuotaDoc} {r : Request} (h : Account broker t₁ target₁ c d spent)
    (hwrite : broker.Writes c r d') (hnoRaise : broker.NoRaise c.2 r)
    (hsteady : broker.Steady c.2 r) :
    ∃ spent', Account broker t₁ target₁ (r.now, some d') d' spent' := by
  obtain ⟨now, doc⟩ := c
  obtain rfl : doc = some d := h.doc
  obtain ⟨hle, hcommit⟩ := hwrite
  obtain ⟨limit, changed, hlimit, hchanged, rfl⟩ := Broker.commits_cases hcommit
  obtain ⟨t, ht, htarget⟩ := h.target
  obtain ⟨⟨t', ht', hrise⟩, hspent, hclose⟩ :=
    hchanged.steady_rise hlimit hnoRaise hsteady ht
  obtain ⟨hdated, hclock⟩ := @Changed.clock broker (some d) r limit
    (Broker.clockLimit r limit) changed hchanged (h.dated.mono hle)
  have hstart : (recoveryStart ((some d).bind QuotaDoc.recoveryClockAt)
      (broker.stored (some d) r.now)) = recoveryStart d.recoveryClockAt d.state := rfl
  rw [hstart] at hclock
  have hsince := h.since
  have hnonneg := h.spent_nonneg
  have hwritten := (h.dated.mono hle).write
  refine ⟨spent + (broker.recovered (some d) limit r.now).spent, rfl, hdated, ?_, ?_, ?_, ?_⟩
  · exact (hsince.trans hwritten).trans hchanged.dated.1.ge
  · omega
  · exact ⟨t', ht', by omega⟩
  · intro hpos
    exact paid_add hclock h.paid hclose hsince hnonneg hpos

theorem Account.step {t₁ : Instant} {target₁ spent : Int} {c c' : Instant × Option QuotaDoc}
    {d : QuotaDoc} {r : Request} (h : Account broker t₁ target₁ c d spent)
    (hstep : broker.SteadyStep c r c') : ∃ d' spent', Account broker t₁ target₁ c' d' spent' := by
  obtain ⟨⟨htimed, hnoRaise⟩, hsteady⟩ := hstep
  obtain ⟨d', hwrite, rfl⟩ | ⟨hle, rfl⟩ := timedStep_cases htimed
  · exact ⟨d', h.writes hwrite hnoRaise hsteady⟩
  · exact ⟨d, spent, h.doc, h.dated.mono hle, h.since, h.spent_nonneg, h.target, h.paid⟩

theorem Account.bound {t₁ : Instant} {target₁ spent target₂ : Int} {c : Instant × Option QuotaDoc}
    {d : QuotaDoc} (h : Account broker t₁ target₁ c d spent)
    (hinterval : 0 < broker.config.recoveryIntervalSeconds)
    (htarget : d.state.adaptiveTarget = some target₂) :
    target₂ - target₁ ≤ (c.1 - t₁) / seconds broker.config.recoveryIntervalSeconds + 1 := by
  obtain ⟨t, ht, hle⟩ := h.target
  obtain rfl : target₂ = t := Option.some.inj (htarget.symm.trans ht)
  have hsec : 0 < seconds broker.config.recoveryIntervalSeconds := by
    unfold seconds
    lia
  have hstart := h.dated.start_le
  have hnow : t₁ ≤ c.1 := h.since.trans h.dated.write
  have hwhole : spent - 1 ≤ (c.1 - t₁) / seconds broker.config.recoveryIntervalSeconds := by
    rw [Int.le_ediv_iff_mul_le hsec]
    obtain hzero | hsome := h.spent_nonneg.eq_or_lt
    · rw [← hzero]
      lia
    · have hpaid := h.paid hsome
      rw [Int.sub_mul, Int.one_mul]
      unfold seconds at hpaid ⊢
      rw [Int.mul_assoc] at hpaid
      lia
  omega

end Runs

/-- Between two writes of any run with no reset and no completed run of successes
between them, in which every request that finds the target below its ceiling
finds the clock in step with the last write. -/
theorem recovery_slow_of_steady {broker : Broker}
    (hinterval : 0 < broker.config.recoveryIntervalSeconds) {t₀ : Instant}
    {requests₀ requests : List Request} {c₁ c₂ : Instant × Option QuotaDoc} {r₁ r₂ : Request}
    {d₁ d₂ : QuotaDoc} {target₁ target₂ : Int}
    (hbefore : Run broker.TimedStep (t₀, none) requests₀ c₁) (hwrite₁ : broker.Writes c₁ r₁ d₁)
    (hbetween : Run broker.SteadyStep (r₁.now, some d₁) requests c₂)
    (hwrite₂ : broker.Writes c₂ r₂ d₂) (hnoRaise : broker.NoRaise c₂.2 r₂)
    (hsteady : broker.Steady c₂.2 r₂) (htarget₁ : d₁.state.adaptiveTarget = some target₁)
    (htarget₂ : d₂.state.adaptiveTarget = some target₂) :
    target₂ - target₁ ≤
      (r₂.now - r₁.now) / seconds broker.config.recoveryIntervalSeconds + 1 := by
  have hdated₁ : AllDated c₁ := hbefore.invariant (I := AllDated)
    (fun _ _ _ h hstep => h.step hstep) (fun _ hd => absurd hd (Option.not_mem_none _))
  have hwritten : d₁.state.updatedAt = r₁.now := by
    obtain ⟨limit, changed, -, hchanged, rfl⟩ := Broker.commits_cases hwrite₁.2
    exact hchanged.dated.1
  have hopen : Account broker r₁.now target₁ (r₁.now, some d₁) d₁ 0 :=
    ⟨rfl, hdated₁.writes hwrite₁, hwritten.ge, le_rfl, ⟨_, htarget₁, by omega⟩,
      fun hpos => absurd hpos (lt_irrefl 0)⟩
  obtain ⟨d, spent, haccount⟩ := hbetween.invariant
    (I := fun c => ∃ d spent, Account broker r₁.now target₁ c d spent)
    (fun _ _ _ ⟨_, _, h⟩ hstep => h.step hstep) ⟨d₁, 0, hopen⟩
  obtain ⟨spent', hclosed⟩ := haccount.writes hwrite₂ hnoRaise hsteady
  exact hclosed.bound hinterval htarget₂

def engBroker (defaultHardMax : Int) : Broker := ⟨"anthropic", "eng", .default, defaultHardMax⟩

/-- A document the broker writes for its tenant, with the fields the runs below set. -/
def engDoc (state : ProviderState) (updatedAt : Instant) (hardMax target : Int)
    (clock changedAt : Instant) (successCount rateLimitCount : Int)
    (cooldown : Option (Instant × Int)) : QuotaDoc where
  state :=
    { provider := "anthropic"
      tenantId := "eng"
      state := state
      updatedAt := updatedAt
      configuredHardMax := hardMax
      adaptiveTarget := some target
      quotaDerivedLimit := cooldown.map fun _ => 0
      cooldownUntil := cooldown.map Prod.fst
      last429At := some 0
      retryAfterSeconds := cooldown.map Prod.snd
      successCount := successCount
      rateLimitCount := rateLimitCount }
  recoveryClockAt := some clock
  targetChangedAt := some changedAt

/-- One interval after a cut from 4 to 2, a quiet report finds the target at 3. -/
theorem recovery_slow_after_cut :
    (engBroker 4).Writes (0, none) ⟨0, .noPool, .observeRateLimit {}⟩
        (engDoc .throttled 0 4 2 0 0 0 1 (some (seconds 30, 30))) ∧
      (engBroker 4).Writes (0, some (engDoc .throttled 0 4 2 0 0 0 1 (some (seconds 30, 30))))
        ⟨seconds 300, .int 4, .observeSuccess {}⟩
        (engDoc .available (seconds 300) 4 3 (seconds 300) (seconds 300) 1 0 none) ∧
      (3 : Int) - 2 ≤ (seconds 300 - 0) / seconds 300 + 1 := by
  have hwrite₁ : (engBroker 4).Writes (0, none) ⟨0, .noPool, .observeRateLimit {}⟩
      (engDoc .throttled 0 4 2 0 0 0 1 (some (seconds 30, 30))) := ⟨le_rfl, rfl⟩
  have hwrite₂ : (engBroker 4).Writes
      (0, some (engDoc .throttled 0 4 2 0 0 0 1 (some (seconds 30, 30))))
      ⟨seconds 300, .int 4, .observeSuccess {}⟩
      (engDoc .available (seconds 300) 4 3 (seconds 300) (seconds 300) 1 0 none) :=
    ⟨by decide, rfl⟩
  refine ⟨hwrite₁, hwrite₂, ?_⟩
  refine recovery_slow_of_steady (by decide) .nil hwrite₁ .nil hwrite₂ ?_ ?_ rfl rfl
  · intro limit hlimit
    exact .inl (by decide)
  · rintro d hd limit hlimit t ht hlt
    obtain rfl := Option.some.inj hd
    obtain rfl := Option.some.inj ht
    obtain rfl := Except.ok.inj hlimit
    exact ⟨by decide, by decide⟩

/-- The maximum is lowered to a target that waited long at it and raised again,
all at one instant: the next report cashes the waiting in, 49 slots at once. -/
theorem recovery_at_once_after_raise :
    ∃ d₁ d₂ d₃ : QuotaDoc,
      Run (engBroker 2).TimedStep (0, none) [⟨0, .noPool, .observeRateLimit {}⟩]
        (0, some (engDoc .throttled 0 2 1 0 0 0 1 (some (seconds 30, 30)))) ∧
      (engBroker 2).Writes (0, some (engDoc .throttled 0 2 1 0 0 0 1 (some (seconds 30, 30))))
        ⟨seconds 30000, .int 2, .setHardMax 1⟩ d₁ ∧
      Run (engBroker 2).GentleStep (seconds 30000, some d₁)
        [⟨seconds 30000, .int 1, .setHardMax 50⟩] (seconds 30000, some d₂) ∧
      (engBroker 2).Writes (seconds 30000, some d₂)
        ⟨seconds 30000, .int 50, .observeSuccess {}⟩ d₃ ∧
      (engBroker 2).NoRaise (some d₂) ⟨seconds 30000, .int 50, .observeSuccess {}⟩ ∧
      d₁.state.adaptiveTarget = some 1 ∧ d₃.state.adaptiveTarget = some 50 ∧
      ¬ ((50 : Int) - 1 ≤ (seconds 30000 - seconds 30000) / seconds 300 + 1) := by
  refine ⟨engDoc .throttled (seconds 30000) 1 1 (seconds 300) 0 0 1 (some (seconds 30, 30)),
    engDoc .throttled (seconds 30000) 50 1 (seconds 300) 0 0 1 (some (seconds 30, 30)),
    engDoc .available (seconds 30000) 50 50 (seconds 15000) (seconds 30000) 1 0 none,
    .one ⟨le_rfl, rfl, rfl⟩, ⟨by decide, rfl⟩, .one ⟨⟨le_rfl, rfl, rfl⟩, trivial⟩, ⟨le_rfl, rfl⟩,
    ?_, rfl, rfl, by decide⟩
  intro limit hlimit
  exact .inl (by decide)

end SwarmCloud.Quota
