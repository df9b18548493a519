import SwarmCloud.Install.LawfulRuns
import Mathlib.Tactic.Linarith

/-! # Waits that end

The clock of a run goes on by what is slept, and no call turns it back. A wait then
polls no more often than its bound has room for, so the number of polls the engine is
given to look at has no part in what a run comes to.
-/

namespace SwarmCloud.Install

open Common Lib

variable {σ α β : Type} (services : Services σ)

def Forward (f : Call σ α) : Prop := ∀ world, services.now world ≤ services.now (f world).2

structure StepForward (step : Step σ) : Prop where
  check : Forward services step.calls.check
  plan : Forward services step.calls.plan
  apply : ∀ plan, Forward services (step.calls.apply plan)
  verify : Forward services step.calls.verify
  trigger : Forward services step.calls.trigger
  openPage : ∀ plan world, services.now world ≤ services.now (step.calls.openPage plan world)

structure ClockForward : Prop where
  sleep : ∀ time world, 0 ≤ time → services.now world + time ≤ services.now (services.sleep time world)
  save : ∀ change, Forward services (services.save change)
  renew : Forward services services.renew
  mirror : Forward services services.mirror
  beaten : Forward services services.beaten

/-- A program that does not turn the clock back. -/
def Onward (m : Engining σ α) : Prop :=
  ∀ time, Triple (fun e => time ≤ services.now e.world) m (fun _ e => time ≤ services.now e.world)
    fun _ e => time ≤ services.now e.world

/-- The polls of a step's wait. -/
def pollsOf (step : Step σ) : Nat :=
  let spec := step.header.wait.getD humanWait
  (spec.boundS / spec.intervalS).toNat + 2

section Onward

variable {services} {m : Engining σ α} {f : α → Engining σ β} {setup : Setup σ} {step : Step σ} {plan : Plan}
  {polls polls' : Nat}

theorem Onward.pure {a : α} : Onward services (pure a) := fun _ => Triple.pure fun _ h => h

theorem Onward.throw {exc : Exc} : Onward services (throw exc : Engining σ α) := fun _ => Triple.throw fun _ h => h

theorem Onward.get : Onward services (MonadState.get : Engining σ (Engine σ)) := fun _ _ h => h

theorem Onward.bind (hm : Onward services m) (hf : ∀ a, Onward services (f a)) : Onward services (m >>= f) :=
  fun time => (hm time).bind fun a => hf a time

theorem Onward.ite {c : Prop} [Decidable c] {m' : Engining σ α} (hm : Onward services m) (hm' : Onward services m') :
    Onward services (if c then m else m') :=
  fun time => Triple.ite (fun _ => hm time) fun _ => hm' time

theorem Onward.tryCatch {handle : Exc → Engining σ α} (hm : Onward services m) (hhandle : ∀ exc, Onward services (handle exc)) :
    Onward services (tryCatch m handle) :=
  fun time => Triple.tryCatch (hm time) fun exc => hhandle exc time

theorem Onward.modify {g : Engine σ → Engine σ} (h : ∀ e, services.now e.world ≤ services.now (g e).world) :
    Onward services (modify g : Engining σ PUnit) :=
  fun _ => Triple.modify fun e he => he.trans (h e)

theorem Onward.note (event : Event) : Onward services (note event : Engining σ PUnit) := .modify fun _ => le_rfl

theorem Onward.mark (met : Bool) : Onward services (mark step met) := .modify fun _ => le_rfl

theorem Onward.call {f : Call σ α} (h : Forward services f) : Onward services (call f) := by
  intro time e he
  have hnext := he.trans (h e.world)
  rw [Install.call]
  revert hnext
  cases f e.world with
  | mk result world => cases result <;> exact fun hnext => hnext

theorem Onward.poll {what : Call σ Observation} (h : Forward services what) : Onward services (poll what) := by
  intro time e he
  have hnext := he.trans (h e.world)
  rw [Install.poll]
  revert hnext
  cases what e.world with
  | mk result world =>
    cases result with
    | ok seen => exact fun hnext => hnext
    | error exc => cases exc <;> exact fun hnext => hnext

theorem Onward.observe {what : Call σ Observation} (h : Forward services what) : Onward services (observe what) := by
  refine .tryCatch (.poll h) fun exc => ?_
  cases exc with
  | checkFailed detail => exact .pure
  | _ => exact .throw

theorem Onward.check (hstep : StepForward services step) : Onward services (check step) :=
  .bind (.observe hstep.check) fun _ => .bind (.note _) fun _ => .pure

theorem Onward.record (hclock : ClockForward services) {state : StepState} {plan : Option Plan}
    {outputs : Dict String Value} {detail : Option String} :
    Onward services (record services setup step state plan outputs detail) :=
  .ite .pure (.bind .get fun _ => .bind (.note _) fun _ => .call (hclock.save _))

theorem Onward.passStarts (hclock : ClockForward services) : Onward services (passStarts services setup step) :=
  .bind .get fun _ => .ite .pure (.bind (.note _) fun _ => .call (hclock.save _))

theorem Onward.verify (hclock : ClockForward services) (hstep : StepForward services step) {plan : Option Plan}
    {outputs : Dict String Value} :
    Onward services (verify services setup step plan outputs) := by
  refine .bind (.observe hstep.verify) fun _ => .bind (.note _) fun _ => .ite ?_ ?_
  · exact .bind (.record hclock) fun _ => .mark true
  · exact .bind (.record hclock) fun _ => .throw

theorem Onward.heartbeat (hclock : ClockForward services) : Onward services (heartbeat services setup) := by
  refine .bind .get fun _ => .ite .pure ?_
  exact .bind (.call hclock.renew) fun _ => .bind (.note _) fun _ => .call hclock.mirror

theorem Onward.makePlan (hstep : StepForward services step) : Onward services (makePlan setup step) :=
  .bind (.note _) fun _ => .tryCatch (.call hstep.plan) fun _ => .ite .pure .throw

theorem Onward.paused (hclock : ClockForward services) {message : String} : Onward services (paused services setup step plan message) :=
  .bind (.record hclock) fun _ => .throw

section Wait

variable {spec : WaitSpec} {deadline : Instant} {onPoll : List String → Engining σ (List String)}

theorem Onward.waitUntil (hclock : ClockForward services) (hstep : StepForward services step)
    (honPoll : ∀ done, Onward services (onPoll done)) (left : Nat) (done : List String) :
    Onward services (waitUntil services step spec deadline onPoll left done) := by
  induction left generalizing done with
  | zero => exact .throw
  | succ left ih =>
    rw [Install.waitUntil]
    refine .bind (honPoll done) fun done' => .bind (.poll hstep.check) fun seen => .bind (.note _) fun _ => ?_
    cases waitStatus seen with
    | error exc => exact .throw
    | ok found =>
      intro time
      refine Triple.get_bind fun e he => Triple.ite (fun _ => Triple.pure ?_) fun _ => ?_
      · rintro _ rfl
        exact he
      refine Triple.ite (fun _ => Triple.throw ?_) fun hearly => ?_
      · rintro _ rfl
        exact he
      refine Triple.bind (Q := fun _ e => time ≤ services.now e.world) (Triple.modify fun _ heq => ?_) fun _ => ih done' time
      have hslept := le_min spec.interval_pos.le (sub_pos.mpr (not_le.mp hearly)).le
      have hnext := hclock.sleep _ e.world hslept
      rw [heq]
      exact (he.trans (le_add_of_nonneg_right hslept)).trans hnext

/-- Any two numbers of polls that are enough for the time that is left. -/
theorem waitUntil_congr (hclock : ClockForward services) (hstep : StepForward services step)
    (honPoll : ∀ done, Onward services (onPoll done)) (n : Nat) {left left' : Nat} (hleft : n < left) (hleft' : n < left')
    (done : List String) (e : Engine σ) (hdeadline : deadline ≤ services.now e.world + n * spec.intervalS) :
    waitUntil services step spec deadline onPoll left done e =
      waitUntil services step spec deadline onPoll left' done e := by
  induction n using Nat.strong_induction_on generalizing left left' done e with
  | h n ih =>
    obtain ⟨left, rfl⟩ := Nat.exists_eq_succ_of_ne_zero (Nat.ne_of_gt (Nat.zero_lt_of_lt hleft))
    obtain ⟨left', rfl⟩ := Nat.exists_eq_succ_of_ne_zero (Nat.ne_of_gt (Nat.zero_lt_of_lt hleft'))
    rw [waitUntil, waitUntil]
    refine Triple.bind_congr (honPoll done (services.now e.world)) (fun done' e₁ h₁ => ?_) le_rfl
    refine Triple.bind_congr (Onward.poll hstep.check (services.now e.world)) (fun seen e₂ h₂ => ?_) h₁
    refine Triple.bind_congr (Onward.note _ (services.now e.world)) (fun _ e₃ h₃ => ?_) h₂
    cases waitStatus seen with
    | error exc => rfl
    | ok found =>
      refine Triple.get_bind_congr (Triple.ite_congr (fun _ => rfl) fun _ => Triple.ite_congr (fun _ => rfl) fun hearly => ?_)
      have hslept := le_min spec.interval_pos.le (sub_pos.mpr (not_le.mp hearly)).le
      have hnext := hclock.sleep _ e₃.world hslept
      -- the clock has gone on by an interval, or to the deadline
      cases n with
      | zero =>
        simp only [Nat.cast_zero, zero_mul, add_zero] at hdeadline
        exact absurd (hdeadline.trans h₃) hearly
      | succ n =>
        refine ih n (Nat.lt_succ_self n) (Nat.lt_of_succ_lt_succ hleft) (Nat.lt_of_succ_lt_succ hleft') done' _ ?_
        change deadline ≤ services.now (services.sleep _ e₃.world) + n * spec.intervalS
        have hinterval := mul_nonneg (Int.natCast_nonneg n) spec.interval_pos.le
        push_cast at hdeadline
        rcases min_cases spec.intervalS (deadline - services.now e₃.world) with ⟨hmin, -⟩ | ⟨hmin, -⟩
        · rw [hmin] at hnext ⊢
          linarith
        · rw [hmin] at hnext ⊢
          linarith

end Wait

section Trigger

variable {trigger : List String → Engining σ (List String)}

theorem Onward.waitFor (hclock : ClockForward services) (hstep : StepForward services step)
    (htrigger : ∀ done, Onward services (trigger done)) : Onward services (waitFor services setup step plan polls trigger) := by
  refine .bind .get fun e => .tryCatch ?_ fun exc => ?_
  · exact .waitUntil hclock hstep (fun done => .bind (.heartbeat hclock) fun _ => htrigger done) polls []
  · cases exc with
    | waitGaveUp message => exact .paused hclock
    | checkFailed detail => exact .bind (.record hclock) fun _ => .throw
    | _ => exact .throw

theorem waitFor_congr (hclock : ClockForward services) (hstep : StepForward services step)
    (htrigger : ∀ done, Onward services (trigger done)) (hpolls : pollsOf step ≤ polls) (hpolls' : pollsOf step ≤ polls') :
    waitFor services setup step plan polls trigger = waitFor services setup step plan polls' trigger := by
  funext e
  refine Triple.get_bind_congr (Triple.tryCatch_congr ?_)
  let spec := step.header.wait.getD humanWait
  have hround : spec.boundS ≤ ((spec.boundS / spec.intervalS).toNat + 1 : Nat) * spec.intervalS := by
    have hbound := Int.lt_ediv_add_one_mul_self spec.boundS spec.interval_pos
    have hself := Int.self_le_toNat (spec.boundS / spec.intervalS)
    have hmul := mul_le_mul_of_nonneg_right hself spec.interval_pos.le
    push_cast
    linarith
  exact waitUntil_congr hclock hstep (fun done => .bind (.heartbeat hclock) fun _ => htrigger done) _ hpolls hpolls' [] e
    (by linarith)

theorem Onward.applyStep (hclock : ClockForward services) (hstep : StepForward services step) :
    Onward services (applyStep services setup step plan) := by
  refine .bind (.note _) fun _ => .tryCatch ?_ fun exc => ?_
  · exact .bind (.call (hstep.apply plan)) fun _ => .call hclock.beaten
  · cases exc with
    | waitGaveUp message => exact .paused hclock
    | stop | leaseLost => exact .throw
    | _ => exact .bind (.record hclock) fun _ => .throw

theorem Onward.applyDry (hstep : StepForward services step) {unmet : List String} {plan : Option Plan} :
    Onward services (applyDry step unmet plan) := by
  cases plan with
  | none => exact .pure
  | some plan =>
    refine .ite (.bind (.note _) fun _ => .bind (.tryCatch (.call (hstep.apply plan)) fun _ => .throw) fun _ => ?_) .pure
    exact .bind (.check hstep) fun _ => .ite (.mark true) .pure

theorem Onward.finishStep (hclock : ClockForward services) (hstep : StepForward services step)
    (htrigger : ∀ done, Onward services (trigger done)) :
    Onward services (finishStep services setup step plan polls trigger) := by
  refine .bind (.ite (.modify fun e => hstep.openPage plan e.world) .pure) fun _ => .ite ?_ ?_
  · exact .bind (.waitFor hclock hstep htrigger) fun _ => .bind (.check hstep) fun _ => .verify hclock hstep
  · exact .bind (.check hstep) fun _ => .ite (.verify hclock hstep) (.bind (.record hclock) fun _ => .throw)

theorem Onward.engage (hclock : ClockForward services) (hstep : StepForward services step)
    (htrigger : ∀ done, Onward services (trigger done)) :
    Onward services (engage services setup step polls trigger) := by
  refine .bind (.mark false) fun _ => .bind (.bind .get fun _ => .bind (.note _) fun _ => .pure) fun unmet => ?_
  refine .bind (.makePlan hstep) fun plan => .ite (.applyDry hstep) (.ite .throw ?_)
  cases plan with
  | none => exact .throw
  | some plan =>
    refine .bind (.call hclock.renew) fun _ => .bind (.note _) fun _ => .bind (.passStarts hclock) fun _ => ?_
    exact .bind (.applyStep hclock hstep) fun _ => .finishStep hclock hstep htrigger

theorem Onward.runStepWith (hclock : ClockForward services) (hstep : StepForward services step)
    (htrigger : ∀ done, Onward services (trigger done)) :
    Onward services (runStepWith services setup step polls trigger) := by
  have hengage : Onward services (Install.engage services setup step polls trigger) := .engage hclock hstep htrigger
  refine .bind (.check hstep) fun seen => .bind .get fun e => .ite (.ite (.mark true) (.verify hclock hstep)) ?_
  refine .bind (.ite (.record hclock) .pure) fun _ => .ite (.ite ?_ .throw) hengage
  exact .bind (.modify fun _ => le_rfl) fun _ => hengage

/-- The number of polls is read by the wait alone. -/
theorem runStepWith_congr (hclock : ClockForward services) (hstep : StepForward services step)
    (htrigger : ∀ done, Onward services (trigger done)) (hpolls : pollsOf step ≤ polls) (hpolls' : pollsOf step ≤ polls') :
    runStepWith services setup step polls trigger = runStepWith services setup step polls' trigger := by
  have hwait : ∀ plan, waitFor services setup step plan polls trigger = waitFor services setup step plan polls' trigger :=
    fun plan => waitFor_congr hclock hstep htrigger hpolls hpolls'
  have hengage : engage services setup step polls trigger = engage services setup step polls' trigger := by
    simp only [engage, finishStep, hwait]
  simp only [runStepWith, hengage]

end Trigger

/-! ## Runs that end -/

theorem Onward.alreadyMet (hstep : StepForward services step) : Onward services (alreadyMet services step) :=
  .bind .get fun _ => .ite (.bind (.check hstep) fun _ => .ite (.bind (.mark true) fun _ => .pure) .pure) .pure

theorem Onward.triggerLanded (hstep : StepForward services step) : Onward services (triggerLanded step) :=
  .tryCatch (.call hstep.trigger) fun _ => .pure

variable {walked : List (Step σ)}

mutual

theorem onward_runStep (hclock : ClockForward services) (hsteps : ∀ step ∈ walked, StepForward services step)
    (hclosed : ∀ step ∈ walked, ∀ triggered ∈ step.triggered, triggered ∈ walked) :
    ∀ step ∈ walked, Onward services (runStep services setup polls step)
  | .mk header calls triggered, hmem => by
    rw [runStep]
    exact .runStepWith hclock (hsteps _ hmem) fun done =>
      onward_runTriggered hclock hsteps hclosed triggered (hclosed _ hmem) done

theorem onward_runTriggered (hclock : ClockForward services) (hsteps : ∀ step ∈ walked, StepForward services step)
    (hclosed : ∀ step ∈ walked, ∀ triggered ∈ step.triggered, triggered ∈ walked) :
    ∀ steps : List (Step σ), (∀ step ∈ steps, step ∈ walked) → ∀ done,
      Onward services (runTriggered services setup polls steps done)
  | [], _, done => by
    rw [runTriggered]
    exact .pure
  | step :: rest, hin, done => by
    have hrest := onward_runTriggered hclock hsteps hclosed rest fun step hstep => hin step (List.mem_cons_of_mem _ hstep)
    have hstep := hsteps step (hin step List.mem_cons_self)
    rw [runTriggered]
    refine .ite (hrest done) (.bind (.alreadyMet hstep) fun _ => .ite (hrest _) ?_)
    refine .bind (.triggerLanded hstep) fun _ => .ite ?_ (hrest done)
    exact .bind (onward_runStep hclock hsteps hclosed step (hin step List.mem_cons_self)) fun _ => hrest _

end

mutual

theorem runStep_congr (hclock : ClockForward services) (hsteps : ∀ step ∈ walked, StepForward services step)
    (hclosed : ∀ step ∈ walked, ∀ triggered ∈ step.triggered, triggered ∈ walked)
    (hpolls : ∀ step ∈ walked, pollsOf step ≤ polls) (hpolls' : ∀ step ∈ walked, pollsOf step ≤ polls') :
    ∀ step ∈ walked, runStep services setup polls step = runStep services setup polls' step
  | .mk header calls triggered, hmem => by
    have htriggered : (fun done => runTriggered services setup polls triggered done) =
        fun done => runTriggered services setup polls' triggered done :=
      funext fun done => runTriggered_congr hclock hsteps hclosed hpolls hpolls' triggered (hclosed _ hmem) done
    rw [runStep, runStep, htriggered]
    exact runStepWith_congr hclock (hsteps _ hmem)
      (fun done => onward_runTriggered hclock hsteps hclosed triggered (hclosed _ hmem) done) (hpolls _ hmem) (hpolls' _ hmem)

theorem runTriggered_congr (hclock : ClockForward services) (hsteps : ∀ step ∈ walked, StepForward services step)
    (hclosed : ∀ step ∈ walked, ∀ triggered ∈ step.triggered, triggered ∈ walked)
    (hpolls : ∀ step ∈ walked, pollsOf step ≤ polls) (hpolls' : ∀ step ∈ walked, pollsOf step ≤ polls') :
    ∀ steps : List (Step σ), (∀ step ∈ steps, step ∈ walked) → ∀ done,
      runTriggered services setup polls steps done = runTriggered services setup polls' steps done
  | [], _, done => by rw [runTriggered, runTriggered]
  | step :: rest, hin, done => by
    have hstep := runStep_congr hclock hsteps hclosed hpolls hpolls' step (hin step List.mem_cons_self)
    have hrest := runTriggered_congr hclock hsteps hclosed hpolls hpolls' rest fun step hstep =>
      hin step (List.mem_cons_of_mem _ hstep)
    simp only [runTriggered, hstep, hrest]

end

/-- A run ends: with a clock that goes on by what is slept, the polls that the bounds of the waits have room for are
all it makes, whatever the checks answer, and what it comes to is the same for every number of polls from there on. -/
theorem run_congr {scope : Scope} (hclock : ClockForward services)
    (hsteps : ∀ step ∈ Step.walk setup.steps, StepForward services step)
    (hpolls : ∀ step ∈ Step.walk setup.steps, pollsOf step ≤ polls)
    (hpolls' : ∀ step ∈ Step.walk setup.steps, pollsOf step ≤ polls') :
    run services setup polls scope = run services setup polls' scope := by
  have hvisit : setup.ordered.forM (visit services setup polls scope) =
      setup.ordered.forM (visit services setup polls' scope) := by
    refine Triple.forM_congr fun step hstep => ?_
    have hmem := (sublist_walk _).subset (Setup.ordered_perm.mem_iff.mp hstep)
    simp only [visit, runStep_congr hclock hsteps (closed_walk _) hpolls hpolls' step hmem]
  have hloop : loop services setup polls scope = loop services setup polls' scope := by
    simp only [loop, hvisit]
  simp only [run, leased, hloop]

end Onward

/-- A world that is only a clock, in which a certificate leaves PROVISIONING after ten minutes. -/
def clockOnly : Services Instant where
  holder := "admin"
  state _ := { project := "p", environment := "prod" }
  now world := world
  sleep time world := world + time
  digest plan := plan.summary
  load world := (.ok (), world)
  save _ world := (.ok (), world)
  acquire world := (.ok (), world)
  renew world := (.ok (), world)
  heartbeatDue _ := false
  mirror world := (.ok (), world)
  beaten world := (.ok (), world)
  release world := (.ok (), world)

def certificate : Step Instant :=
  .mk
    { id := "edge.certificate", stage := 11, kind := .wait,
      wait := some ⟨"the managed certificate leaving PROVISIONING", "up to 60 min", seconds 1200, seconds 3600, seconds 30,
        by decide, by decide, by decide⟩ }
    { check := fun world => (.ok ⟨if world < seconds 600 then .waiting else .met, "", []⟩, world)
      plan := fun world => (.ok (some ⟨"wait for the certificate", []⟩), world)
      apply := fun _ world => (.ok (), world)
      verify := fun world => (.ok ⟨.met, "", []⟩, world)
      trigger := fun world => (.ok false, world)
      openPage := fun _ world => world
      lookAt := fun _ => "the hostname's A record" }
    []

theorem walk_certificate : Step.walk [certificate] = [certificate] := by
  rw [certificate, Step.walk, List.append_nil, Step.walk]

def certificateOnly : Setup Instant where
  steps := [certificate]
  checked := by
    rw [checkSteps, walk_certificate]
    rfl

theorem run_congr_certificate : run clockOnly certificateOnly 122 none = run clockOnly certificateOnly 1000 none := by
  have honly : ∀ step ∈ Step.walk certificateOnly.steps, step = certificate := by
    intro step hstep
    rw [certificateOnly, walk_certificate] at hstep
    exact List.mem_singleton.mp hstep
  refine run_congr ⟨fun _ _ _ => le_rfl, fun _ _ => le_rfl, fun _ => le_rfl, fun _ => le_rfl, fun _ => le_rfl⟩
    (fun step hstep => ?_) (fun step hstep => ?_) fun step hstep => ?_
  · rw [honly step hstep]
    exact ⟨fun _ => le_rfl, fun _ => le_rfl, fun _ _ => le_rfl, fun _ => le_rfl, fun _ => le_rfl, fun _ _ => le_rfl⟩
  · rw [honly step hstep]
    decide
  · rw [honly step hstep]
    decide

end SwarmCloud.Install
