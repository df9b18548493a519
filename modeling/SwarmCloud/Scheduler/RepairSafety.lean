import SwarmCloud.Scheduler.FailedDispatch

/-! # What the reconciler's one transaction may write

The fence, the release and the repair of `fence_release_repair` are judged on the
documents as they were read, each on the task as the others will leave it. What was
committed is read off the decisions that were made.
-/

namespace SwarmCloud.Scheduler

open Common Lib AttemptState

/-! ## The decisions -/

theorem fenceDecision_guard {task : Task} {expected generation : Int} {onlyFrom : Option (List TaskState)}
    {unlessHoldingLease : Option String}
    (h : Store.fenceDecision task expected onlyFrom unlessHoldingLease = some generation) :
    task.state ∉ terminalStates ∧ task.currentGeneration.getD 0 = expected ∧ generation = expected + 1 := by
  rw [Store.fenceDecision] at h
  split at h
  · cases h
  · rename_i hopen
    split at h
    · cases h
    · split at h
      · cases h
      · split at h
        · cases h
        · rename_i hexpected
          exact ⟨hopen, not_not.mp hexpected, (Option.some.inj h).symm⟩

section Counts

variable {attemptCount maxAttempts used limit : Int}

theorem countStartupEnd_spares (h : (countStartupEnd attemptCount maxAttempts used limit).exhausted = false) :
    (countStartupEnd attemptCount maxAttempts used limit).attemptCount < maxAttempts ∧
      ((countStartupEnd attemptCount maxAttempts used limit).refunded = false →
        (countStartupEnd attemptCount maxAttempts used limit).attemptCount = attemptCount) := by
  rw [countStartupEnd] at h ⊢
  dsimp only at h ⊢
  split
  · rename_i hrefund
    refine ⟨?_, fun hcounted => absurd hcounted (by simp)⟩
    simpa [retriesExhausted] using hrefund.2
  · rename_i hrefund
    rw [if_neg hrefund] at h
    refine ⟨?_, fun _ => rfl⟩
    simpa [retriesExhausted] using h

theorem countDiskEviction_spares (h : (countDiskEviction attemptCount maxAttempts used).exhausted = false) :
    attemptCount < maxAttempts := by
  rw [countDiskEviction] at h
  split at h
  · cases h
  · split at h
    · cases h
    · rename_i hleft
      simpa [retriesExhausted] using hleft

theorem countNeverStarted_spares (h : (countNeverStarted attemptCount maxAttempts used limit).exhausted = false) :
    (countNeverStarted attemptCount maxAttempts used limit).attemptCount < maxAttempts := by
  rw [countNeverStarted] at h ⊢
  split
  · rename_i hlimit
    rw [if_pos hlimit] at h
    dsimp only at h ⊢
    split
    · rename_i hspent
      rw [if_pos hspent] at h
      cases h
    · rename_i hleft
      simpa [retriesExhausted] using hleft
  · rename_i hlimit
    rw [if_neg hlimit] at h
    cases h

end Counts

/-- A count that lets the task go back to `READY` leaves an attempt. -/
def Requeue.Spares (requeue : Requeue) (data : Task) : Prop :=
  requeue.target = .ready → (requeue.attemptCount.or data.attemptCount).getD 0 < data.maxAttempts.getD 3

/-- A requeue is `READY` when its count says so. -/
theorem not_exhausted_of_ready {exhausted : Bool}
    (h : (if exhausted then TaskState.failed else TaskState.ready) = .ready) : exhausted = false := by
  cases exhausted with
  | false => rfl
  | true => cases h

namespace RepairPlan

variable (plan : RepairPlan) (data : Task)

theorem startupRequeue_spares (fencedGeneration : Option Int) (limit : Int) :
    (plan.startupRequeue data fencedGeneration limit).Spares data := by
  intro hready
  have hcount := countStartupEnd_spares (not_exhausted_of_ready hready)
  unfold startupRequeue
  dsimp only at hcount ⊢
  revert hcount
  generalize countStartupEnd _ _ _ _ = counted
  rintro ⟨hleft, hkept⟩
  split
  · exact hleft
  · rename_i hcounted
    rw [hkept (Bool.eq_false_of_not_eq_true hcounted)] at hleft
    exact hleft

theorem diskRequeue_spares : (plan.diskRequeue data).Spares data :=
  fun hready => countDiskEviction_spares (not_exhausted_of_ready hready)

theorem neverStartedRequeue_spares (limit : Int) : (plan.neverStartedRequeue data limit).Spares data :=
  fun hready => countNeverStarted_spares (not_exhausted_of_ready hready)

theorem plainRequeue_spares : (plan.plainRequeue data).Spares data := by
  intro hready
  have hleft := not_exhausted_of_ready hready
  simpa [plainRequeue, retriesExhausted] using hleft

theorem requeue_spares (target : TaskState) (fencedGeneration : Option Int) :
    (plan.requeue data target fencedGeneration).Spares data := by
  rw [requeue]
  split
  · rename_i hother
    exact fun hready => absurd hready hother
  · split
    · exact plan.startupRequeue_spares data fencedGeneration _
    · split
      · exact plan.diskRequeue_spares data
      · split
        · split
          · exact plan.neverStartedRequeue_spares data _
          · exact plan.plainRequeue_spares data
        · exact plan.plainRequeue_spares data

/-- A requeue ends where it aimed, or fails on the way to `READY`. -/
theorem requeue_ready {target : TaskState} {fencedGeneration : Option Int}
    (h : (plan.requeue data target fencedGeneration).target = .ready) : target = .ready := by
  by_contra hother
  rw [requeue, if_pos hother] at h
  exact hother h

theorem aim_ready (h : plan.aim data = .ready) : data.cancelRequested = false := by
  rw [aim] at h
  split at h
  · cases h
  · rename_i hflag
    rw [h] at hflag
    simpa using hflag

/-- Everything that a repair writes, and the guards it writes it under. -/
structure Repaired (onlyFrom : Option (List TaskState)) (target : TaskState) (patch : Patch) : Prop where
  open_ : data.state ∉ terminalStates
  edge : canTransition data.state target = true
  lease : data.currentLeaseId = none ∨ data.currentLeaseId = plan.expectedLeaseId
  moved : data.state ≠ target
  state : patch.state = some target
  cleared : patch.currentLeaseId = some none
  wanted : target = .ready → data.cancelRequested = false
  spares : target = .ready → (patch.attemptCount.or data.attemptCount).getD 0 < data.maxAttempts.getD 3

theorem repairPatch_fields (requeue : Requeue) (now : Instant) :
    (plan.repairPatch data requeue now).state = some requeue.target ∧
      (plan.repairPatch data requeue now).currentLeaseId = some none ∧
      (plan.repairPatch data requeue now).attemptCount = requeue.attemptCount := by
  rw [repairPatch]
  split
  · exact ⟨rfl, rfl, rfl⟩
  · exact ⟨rfl, rfl, rfl⟩

theorem repairDecision_guard {onlyFrom : Option (List TaskState)} {fencedGeneration : Option Int} {now : Instant}
    {target : TaskState} {patch : Patch}
    (h : plan.repairDecision data onlyFrom fencedGeneration now = some (target, patch)) :
    plan.Repaired data onlyFrom target patch := by
  rw [repairDecision] at h
  split at h
  · cases h
  · rename_i hopen
    split at h
    · cases h
    · split at h
      · cases h
      · rename_i hheld
        dsimp only at h
        split at h
        · cases h
        · rename_i hmoved
          split at h
          · cases h
          · rename_i hedge
            obtain ⟨rfl, rfl⟩ := Prod.mk.inj (Option.some.inj h)
            obtain ⟨hstate, hcleared, hcount⟩ := plan.repairPatch_fields data
              (plan.requeue data (plan.aim data) fencedGeneration) now
            refine ⟨hopen, by simpa using hedge, ?_, hmoved, hstate, hcleared, ?_, ?_⟩
            · by_contra hother
              obtain ⟨hsome, hne⟩ := not_or.mp hother
              exact hheld ⟨Option.isSome_iff_ne_none.mpr hsome, hne⟩
            · exact fun hready => plan.aim_ready data (plan.requeue_ready data hready)
            · rw [hcount]
              exact plan.requeue_spares data _ _

end RepairPlan

/-! ## The documents after the commit -/

section Committed

variable {c : Control} {x : RepairCall} {now : Instant}

theorem fenceReleaseRepair_tasks (hgo : x.resumed c now = false) (id : String) :
    (c.fenceReleaseRepair x now).2.store.tasks.lookup id =
      if x.taskId = some id then (c.store.tasks.lookup id).map (x.written c now) else c.store.tasks.lookup id := by
  have hfreed := (freed_idle c x now).tasks
  rw [Control.fenceReleaseRepair, hgo, if_neg Bool.false_ne_true]
  cases hid : x.taskId with
  | none =>
    rw [if_neg (by simp)]
    change (x.freed c now).2.tasks.lookup id = _
    rw [hfreed]
  | some taskId =>
    change (Docs.modify taskId (x.written c now) (x.freed c now).2.tasks).lookup id = _
    rw [hfreed, Docs.lookup_modify]
    by_cases hsame : id = taskId
    · rw [if_pos hsame, if_pos (congrArg some hsame.symm)]
    · rw [if_neg hsame, if_neg fun heq => hsame (Option.some.inj heq).symm]

theorem fenceReleaseRepair_leases (hgo : x.resumed c now = false) :
    (c.fenceReleaseRepair x now).2.store.leases = (x.freed c now).2.leases := by
  rw [Control.fenceReleaseRepair, hgo, if_neg Bool.false_ne_true]
  cases x.taskId <;> rfl

theorem fenceReleaseRepair_attempts (hgo : x.resumed c now = false) :
    (c.fenceReleaseRepair x now).2.store.attempts = c.store.attempts ∨ ∃ cause attemptId attempt,
      x.endedAttempt c cause now = some (attemptId, attempt) ∧
      (c.fenceReleaseRepair x now).2.store.attempts = c.store.attempts.insert attemptId attempt := by
  have hfreed : (x.freed c now).2.attempts = c.store.attempts := by
    rw [RepairCall.freed]
    split
    · split <;> rfl
    · rfl
  rw [Control.fenceReleaseRepair, hgo, if_neg Bool.false_ne_true]
  dsimp only
  split
  · rename_i attemptId attempt hended
    refine .inr ⟨_, attemptId, attempt, hended, ?_⟩
    cases x.taskId with
    | none => exact congrArg _ hfreed
    | some taskId => exact congrArg _ hfreed
  · cases x.taskId with
    | none => exact .inl hfreed
    | some taskId => exact .inl hfreed

namespace RepairCall

/-- The finding's task as the fence leaves it. -/
theorem after_of_found {id : String} {stored : Task} (hid : x.taskId = some id)
    (hstored : c.store.tasks.lookup id = some stored) :
    x.after c = some { stored with
      currentGeneration := (x.newGeneration c).or stored.currentGeneration } := by
  rw [after, task, hid, Option.bind_some, hstored, Option.map_some]
  cases x.newGeneration c <;> rfl

theorem newGeneration_guard {id : String} {stored : Task} (hid : x.taskId = some id)
    (hstored : c.store.tasks.lookup id = some stored) {generation : Int} (h : x.newGeneration c = some generation) :
    stored.state ∉ terminalStates ∧ x.expectedGeneration = some (stored.currentGeneration.getD 0) ∧
      generation = stored.currentGeneration.getD 0 + 1 := by
  have htask : x.task c = some stored := by rw [task, hid, Option.bind_some, hstored]
  rw [newGeneration, htask] at h
  split at h
  · rename_i found expected hfound hexpected
    obtain rfl := Option.some.inj hfound
    obtain ⟨hopen, hcurrent, hnext⟩ := fenceDecision_guard h
    exact ⟨hopen, by rw [hexpected, hcurrent], by rw [hnext, hcurrent]⟩
  · cases h

theorem decided_guard {id : String} {stored : Task} (hid : x.taskId = some id)
    (hstored : c.store.tasks.lookup id = some stored) {target : TaskState} {patch : Patch}
    (h : x.decided c now = some (target, patch)) :
    x.refused c = false ∧ ∃ plan, x.repair = some plan ∧ plan.Repaired stored x.onlyFrom target patch := by
  rw [decided, after_of_found hid hstored] at h
  split at h
  · rename_i plan after hplan hafter
    split at h
    · cases h
    · rename_i hrefused
      refine ⟨Bool.eq_false_of_not_eq_true hrefused, plan, hplan, ?_⟩
      have hguard := plan.repairDecision_guard after h
      rw [← Option.some.inj hafter] at hguard
      exact ⟨hguard.open_, hguard.edge, hguard.lease, hguard.moved, hguard.state, hguard.cleared, hguard.wanted,
        hguard.spares⟩
  · cases h

/-- The committed task: the stored one at its new generation, and repaired where a repair was decided. -/
theorem written_cases (c : Control) (x : RepairCall) (now : Instant) (stored : Task) :
    (x.written c now stored).currentGeneration = (x.newGeneration c).or stored.currentGeneration ∧
    ((x.decided c now = none ∧ (x.written c now stored).state = stored.state ∧
        (x.written c now stored).currentLeaseId = stored.currentLeaseId) ∨
      ∃ target patch, x.decided c now = some (target, patch) ∧
        (x.written c now stored).state = patch.state.getD stored.state ∧
        (x.written c now stored).currentLeaseId = patch.currentLeaseId.getD stored.currentLeaseId ∧
        (x.written c now stored).attemptCount = patch.attemptCount.or stored.attemptCount) := by
  rw [written]
  cases x.newGeneration c with
  | none =>
    cases x.decided c now with
    | none => exact ⟨rfl, .inl ⟨rfl, rfl, rfl⟩⟩
    | some decision => exact ⟨rfl, .inr ⟨_, _, rfl, rfl, rfl, rfl⟩⟩
  | some generation =>
    cases x.decided c now with
    | none => exact ⟨rfl, .inl ⟨rfl, rfl, rfl⟩⟩
    | some decision => exact ⟨rfl, .inr ⟨_, _, rfl, rfl, rfl, rfl⟩⟩

/-- What the release changes is the lease of the call, where it was unreleased and the release was not refused. -/
theorem freed_lookup {leaseId : String} {lease lease' : Admission.LeaseDoc}
    (hlease : c.store.leases.lookup leaseId = some lease) (hopen : lease.releasedAt = none)
    (hlease' : (x.freed c now).2.leases.lookup leaseId = some lease') (hreleased : lease'.releasedAt.isSome) :
    x.leaseId = some leaseId ∧ x.refused c = false ∧ lease'.taskId = lease.taskId ∧
      lease'.generation = lease.generation := by
  have hchanged : lease' ≠ lease := by
    rintro rfl
    rw [hopen] at hreleased
    cases hreleased
  rw [freed] at hlease'
  split at hlease'
  · rename_i heldId held hid hheld
    split at hlease'
    · rw [hlease, Option.some_inj] at hlease'
      exact absurd hlease'.symm hchanged
    · rename_i hrefused
      obtain hnone | ⟨d, freed, hfreed, hrelease⟩ :=
        Admission.releaseLease_cases ⟨∅, c.store.pools, c.store.leases⟩ heldId x.releaseReason now
      · rw [Store.releaseLease, hnone] at hlease'
        exact absurd (Option.some.inj (hlease'.symm.trans hlease)) hchanged
      · rw [Store.releaseLease, hfreed] at hlease'
        dsimp only at hlease'
        rw [hrelease.leases_eq, Docs.lookup_modify, hlease] at hlease'
        split at hlease'
        · rename_i hsame
          obtain rfl := Option.some.inj hlease'
          exact ⟨hsame ▸ hid, Bool.eq_false_of_not_eq_true hrefused, rfl, rfl⟩
        · exact absurd (Option.some.inj hlease').symm hchanged
  · rw [hlease, Option.some_inj] at hlease'
    exact absurd hlease'.symm hchanged

/-- The task that a released lease names does not hold it in what is committed. -/
theorem not_holds_released (hguard : x.refuseWhileTaskHoldsIt = true) (hgo : x.resumed c now = false)
    {leaseId : String} {lease : Admission.LeaseDoc} (hid : x.leaseId = some leaseId)
    (hlease : c.store.leases.lookup leaseId = some lease) (hrefused : x.refused c = false) {task' : Task}
    (htask' : (c.fenceReleaseRepair x now).2.store.tasks.lookup lease.taskId = some task') :
    holds task' lease leaseId = false := by
  rw [refused, hguard, hid, RepairCall.lease, hid, Option.bind_some, hlease, Bool.true_and] at hrefused
  dsimp only at hrefused
  rw [fenceReleaseRepair_tasks hgo] at htask'
  by_cases hown : x.taskId = some lease.taskId
  · rw [if_pos hown] at htask'
    obtain ⟨stored, hstored, rfl⟩ := Option.map_eq_some_iff.mp htask'
    rw [if_pos hown.symm, after_of_found hown hstored] at hrefused
    obtain ⟨hgeneration, ⟨-, hstate, hnames⟩ | ⟨target, patch, hdecided, -, hnames, -⟩⟩ :=
      written_cases c x now stored
    · rw [Option.any_some, holds] at hrefused
      rw [holds, hgeneration, hstate, hnames]
      exact hrefused
    · obtain ⟨-, plan, -, hrepaired⟩ := decided_guard hown hstored hdecided
      rw [hrepaired.cleared] at hnames
      rw [holds, hnames]
      simp
  · rw [if_neg hown] at htask'
    rw [if_neg fun heq => hown heq.symm, htask'] at hrefused
    exact hrefused

theorem endedAttempt_guard {cause attemptId : String} {attempt : AttemptDoc}
    (h : x.endedAttempt c cause now = some (attemptId, attempt)) :
    ∃ ref doc after, c.attemptRefs.lookup attemptId = some ref ∧ c.store.attempts.lookup attemptId = some doc ∧
      doc.completedAt = none ∧ x.taskId = some ref.taskId ∧ x.expectedGeneration = some ref.generation ∧
      x.after c = some after ∧ ref.generation < after.currentGeneration.getD 0 := by
  rw [endedAttempt] at h
  split at h
  · rename_i taskId after expected attemptId' hid hafter hexpected hattempt
    split at h
    · cases h
    · split at h
      · rename_i ref doc href hdoc
        obtain ⟨ended, hended, hpair⟩ := Option.map_eq_some_iff.mp h
        obtain ⟨rfl, rfl⟩ := Prod.mk.inj hpair
        rw [attemptEnd] at hended
        split at hended
        · cases hended
        · rename_i hguards
          obtain ⟨htask, hrest⟩ := not_or.mp hguards
          obtain ⟨hgeneration, hrest⟩ := not_or.mp hrest
          obtain ⟨hpast, hopen⟩ := not_or.mp hrest
          refine ⟨ref, doc, after, href, hdoc, by simpa using hopen, ?_, ?_, hafter, not_le.mp hpast⟩
          · rw [hid, not_not.mp htask]
          · rw [hexpected, not_not.mp hgeneration]
      · cases h
  · cases h

end RepairCall

/-- A task that the transaction changes is the finding's, and what became of it follows the decisions. -/
theorem fenceReleaseRepair_task {id : String} {task task' : Task} (htask : c.store.tasks.lookup id = some task)
    (htask' : (c.fenceReleaseRepair x now).2.store.tasks.lookup id = some task') :
    task' = task ∨ x.taskId = some id ∧ x.resumed c now = false ∧ task' = x.written c now task := by
  cases hgo : x.resumed c now with
  | true =>
    rw [Control.fenceReleaseRepair, hgo, if_pos rfl] at htask'
    exact .inl (Option.some.inj (htask'.symm.trans htask))
  | false =>
    rw [fenceReleaseRepair_tasks hgo, htask] at htask'
    split at htask'
    · rename_i hid
      exact .inr ⟨hid, rfl, (Option.some.inj htask').symm⟩
    · exact .inl (Option.some.inj htask').symm

end Committed

/-! ## Safety on every document -/

section Safety

variable {c : Control} {x : RepairCall} {now : Instant}

theorem fenceReleaseRepair_resumed (hresumed : x.resumed c now = true) : (c.fenceReleaseRepair x now).2 = c := by
  rw [Control.fenceReleaseRepair, if_pos hresumed]

/-- A lease that the call frees is no longer the one its task holds. -/
theorem fenceReleaseRepair_freed (hguard : x.refuseWhileTaskHoldsIt = true) {leaseId : String}
    {lease lease' : Admission.LeaseDoc} {task' : Task} (hlease : c.store.leases.lookup leaseId = some lease)
    (hopen : lease.releasedAt = none) (hlease' : (c.fenceReleaseRepair x now).2.store.leases.lookup leaseId = some lease')
    (hreleased : lease'.releasedAt.isSome)
    (htask' : (c.fenceReleaseRepair x now).2.store.tasks.lookup lease'.taskId = some task') :
    holds task' lease' leaseId = false := by
  cases hgo : x.resumed c now with
  | true =>
    rw [Control.fenceReleaseRepair, if_pos hgo, hlease] at hlease'
    rw [← Option.some.inj hlease', hopen] at hreleased
    cases hreleased
  | false =>
    rw [fenceReleaseRepair_leases hgo] at hlease'
    obtain ⟨hid, hrefused, hsame, hgeneration⟩ := RepairCall.freed_lookup hlease hopen hlease' hreleased
    rw [hsame] at htask'
    have hholds := RepairCall.not_holds_released hguard hgo hid hlease hrefused htask'
    rwa [holds, ← hgeneration, ← holds] at hholds

theorem fenceReleaseRepair_refused (hrefused : (c.fenceReleaseRepair x now).1.releaseRefused = true) {id : String}
    {task task' : Task} (htask : c.store.tasks.lookup id = some task)
    (htask' : (c.fenceReleaseRepair x now).2.store.tasks.lookup id = some task') :
    task'.state = task.state ∧ task'.currentLeaseId = task.currentLeaseId := by
  obtain rfl | ⟨hid, hgo, rfl⟩ := fenceReleaseRepair_task htask htask'
  · exact ⟨rfl, rfl⟩
  · rw [Control.fenceReleaseRepair, hgo, if_neg Bool.false_ne_true] at hrefused
    obtain ⟨-, ⟨-, hstate, hlease⟩ | ⟨target, patch, hdecided, -⟩⟩ := RepairCall.written_cases c x now task
    · exact ⟨hstate, hlease⟩
    · rw [(RepairCall.decided_guard hid htask hdecided).1] at hrefused
      cases hrefused

theorem fenceReleaseRepair_fenced {id : String} {task task' : Task} (htask : c.store.tasks.lookup id = some task)
    (htask' : (c.fenceReleaseRepair x now).2.store.tasks.lookup id = some task')
    (hmoved : task'.currentGeneration ≠ task.currentGeneration) :
    x.expectedGeneration = some (task.currentGeneration.getD 0) ∧
      task'.currentGeneration = some (task.currentGeneration.getD 0 + 1) ∧ task.state ∉ terminalStates := by
  obtain rfl | ⟨hid, hgo, rfl⟩ := fenceReleaseRepair_task htask htask'
  · exact absurd rfl hmoved
  · have hgeneration := (RepairCall.written_cases c x now task).1
    rw [hgeneration] at hmoved ⊢
    cases hnew : x.newGeneration c with
    | none =>
      rw [hnew] at hmoved
      exact absurd rfl hmoved
    | some generation =>
      obtain ⟨hopen, hexpected, hnext⟩ := RepairCall.newGeneration_guard hid htask hnew
      exact ⟨hexpected, by rw [hnext]; rfl, hopen⟩

theorem fenceReleaseRepair_moved {id : String} {task task' : Task} (htask : c.store.tasks.lookup id = some task)
    (htask' : (c.fenceReleaseRepair x now).2.store.tasks.lookup id = some task') (hmoved : task'.state ≠ task.state) :
    task.state ∉ terminalStates ∧ canTransition task.state task'.state = true ∧
      (∃ plan, x.repair = some plan ∧ (task.currentLeaseId = none ∨ task.currentLeaseId = plan.expectedLeaseId)) ∧
      task'.currentLeaseId = none ∧
      (task'.state = .ready → task.cancelRequested = false ∧ task'.attemptCount.getD 0 < task.maxAttempts.getD 3) := by
  obtain rfl | ⟨hid, hgo, rfl⟩ := fenceReleaseRepair_task htask htask'
  · exact absurd rfl hmoved
  · obtain ⟨-, hcases⟩ := RepairCall.written_cases c x now task
    obtain ⟨-, hstate, -⟩ | ⟨target, patch, hdecided, hstate, hlease, hcount⟩ := hcases
    · exact absurd hstate hmoved
    · obtain ⟨-, plan, hplan, hrepaired⟩ := RepairCall.decided_guard hid htask hdecided
      rw [hrepaired.state, Option.getD_some] at hstate
      rw [hrepaired.cleared, Option.getD_some] at hlease
      refine ⟨hrepaired.open_, hstate ▸ hrepaired.edge, ⟨plan, hplan, hrepaired.lease⟩, hlease, fun hready => ?_⟩
      rw [hstate] at hready
      rw [hcount]
      exact ⟨hrepaired.wanted hready, hrepaired.spares hready⟩

/-- An attempt that the call ends is of a generation that the task has left behind. -/
theorem fenceReleaseRepair_ended {attemptId : String}
    (hchanged : (c.fenceReleaseRepair x now).2.store.attempts.lookup attemptId ≠ c.store.attempts.lookup attemptId) :
    ∃ ref doc task', c.attemptRefs.lookup attemptId = some ref ∧
      c.store.attempts.lookup attemptId = some doc ∧ doc.completedAt = none ∧
      x.taskId = some ref.taskId ∧ x.expectedGeneration = some ref.generation ∧
      (c.fenceReleaseRepair x now).2.store.tasks.lookup ref.taskId = some task' ∧
      ref.generation < task'.currentGeneration.getD 0 := by
  cases hgo : x.resumed c now with
  | true =>
    rw [Control.fenceReleaseRepair, if_pos hgo] at hchanged
    exact absurd rfl hchanged
  | false =>
    obtain hsame | ⟨cause, endedId, ended, hended, hattempts⟩ := fenceReleaseRepair_attempts hgo
    · rw [hsame] at hchanged
      exact absurd rfl hchanged
    · rw [hattempts, Docs.lookup_insert_eq] at hchanged
      split at hchanged
      · rename_i hsame
        obtain ⟨ref, doc, after, href, hdoc, hopen, hid, hexpected, hafter, hpast⟩ :=
          RepairCall.endedAttempt_guard hended
        cases hstored : c.store.tasks.lookup ref.taskId with
        | none =>
          rw [RepairCall.after, RepairCall.task, hid, Option.bind_some, hstored] at hafter
          cases hafter
        | some stored =>
          refine ⟨ref, doc, x.written c now stored, hsame ▸ href, hsame ▸ hdoc, hopen, hid, hexpected, ?_, ?_⟩
          · rw [fenceReleaseRepair_tasks hgo, if_pos hid, hstored]
            rfl
          · rw [RepairCall.after_of_found hid hstored] at hafter
            rw [(RepairCall.written_cases c x now stored).1]
            rwa [← Option.some.inj hafter] at hpast
      · exact absurd rfl hchanged

end Safety

/-- One commit of `fence_release_repair`, on any documents and with any arguments. -/
theorem fenceReleaseRepair_safe {c c' : Control} {x : RepairCall} {now : Instant} {answer : OneRepair}
    (h : c.fenceReleaseRepair x now = (answer, c')) :
    (x.resumed c now = true → c' = c) ∧
    (x.refuseWhileTaskHoldsIt = true → ∀ leaseId lease lease' task',
      c.store.leases.lookup leaseId = some lease → lease.releasedAt = none →
      c'.store.leases.lookup leaseId = some lease' → lease'.releasedAt.isSome →
      c'.store.tasks.lookup lease'.taskId = some task' → holds task' lease' leaseId = false) ∧
    (answer.releaseRefused = true → ∀ id task task', c.store.tasks.lookup id = some task →
      c'.store.tasks.lookup id = some task' →
      task'.state = task.state ∧ task'.currentLeaseId = task.currentLeaseId) ∧
    (∀ id task task', c.store.tasks.lookup id = some task → c'.store.tasks.lookup id = some task' →
      (task'.currentGeneration ≠ task.currentGeneration →
        x.expectedGeneration = some (task.currentGeneration.getD 0) ∧
        task'.currentGeneration = some (task.currentGeneration.getD 0 + 1) ∧ task.state ∉ terminalStates) ∧
      (task'.state ≠ task.state →
        task.state ∉ terminalStates ∧ canTransition task.state task'.state = true ∧
        (∃ plan, x.repair = some plan ∧
          (task.currentLeaseId = none ∨ task.currentLeaseId = plan.expectedLeaseId)) ∧
        task'.currentLeaseId = none ∧
        (task'.state = .ready →
          task.cancelRequested = false ∧ task'.attemptCount.getD 0 < task.maxAttempts.getD 3))) ∧
    (∀ attemptId, c'.store.attempts.lookup attemptId ≠ c.store.attempts.lookup attemptId →
      ∃ ref doc task', c.attemptRefs.lookup attemptId = some ref ∧
        c.store.attempts.lookup attemptId = some doc ∧ doc.completedAt = none ∧
        x.taskId = some ref.taskId ∧ x.expectedGeneration = some ref.generation ∧
        c'.store.tasks.lookup ref.taskId = some task' ∧ ref.generation < task'.currentGeneration.getD 0) := by
  have hc' : c' = (c.fenceReleaseRepair x now).2 := by rw [h]
  have hanswer : answer = (c.fenceReleaseRepair x now).1 := by rw [h]
  subst hc' hanswer
  refine ⟨fenceReleaseRepair_resumed, ?_, ?_, ?_, ?_⟩
  · intro hguard leaseId lease lease' task' hlease hopen hlease' hreleased htask'
    exact fenceReleaseRepair_freed hguard hlease hopen hlease' hreleased htask'
  · intro hrefused id task task' htask htask'
    exact fenceReleaseRepair_refused hrefused htask htask'
  · intro id task task' htask htask'
    exact ⟨fenceReleaseRepair_fenced htask htask', fenceReleaseRepair_moved htask htask'⟩
  · intro attemptId hchanged
    exact fenceReleaseRepair_ended hchanged

/-! ### A reclaim, and a lease that was released under its task -/

def reclaimCall : RepairCall :=
  { taskId := some "task_1", expectedGeneration := some 1, leaseId := some "lease_1", releaseReason := "stale"
    repair := some { toState := .ready, expectedLeaseId := some "lease_1" }, refuseWhileTaskHoldsIt := true }

theorem fenceReleaseRepair_safe_reclaim : ∃ lease' task',
    (sampleLeased.fenceReleaseRepair reclaimCall 1).2.store.leases.lookup "lease_1" = some lease' ∧
      (sampleLeased.fenceReleaseRepair reclaimCall 1).2.store.tasks.lookup "task_1" = some task' ∧
      task'.state = .ready ∧ task'.attemptCount.getD 0 < 3 ∧ holds task' lease' "lease_1" = false := by
  have hcall : sampleLeased.fenceReleaseRepair reclaimCall 1 =
      ((sampleLeased.fenceReleaseRepair reclaimCall 1).1, (sampleLeased.fenceReleaseRepair reclaimCall 1).2) := rfl
  have hsafe := fenceReleaseRepair_safe hcall
  refine ⟨_, _, rfl, rfl, by decide, ?_, ?_⟩
  · exact ((hsafe.2.2.2.1 "task_1" _ _ rfl rfl).2 (by decide)).2.2.2.2 (by decide) |>.2
  · exact hsafe.2.1 rfl "lease_1" _ _ _ rfl rfl rfl (by decide) rfl

/-- A lease that was released before the call stays so, and its task on it: the refusal keeps both. -/
theorem fenceReleaseRepair_already_released :
    ¬∀ (c : Control) (x : RepairCall) (now : Instant) (leaseId : String) (lease' : Admission.LeaseDoc) (task' : Task),
      x.refuseWhileTaskHoldsIt = true → x.leaseId = some leaseId →
      (c.fenceReleaseRepair x now).2.store.leases.lookup leaseId = some lease' → lease'.releasedAt.isSome →
      (c.fenceReleaseRepair x now).2.store.tasks.lookup lease'.taskId = some task' →
      holds task' lease' leaseId = false := by
  intro hclaim
  let stranded : Control :=
    { sampleLeased with
      store := { sampleLeased.store with
        leases := sampleLeased.store.leases.modify "lease_1" fun lease => { lease with releasedAt := some 0 } } }
  have hfree := hclaim stranded { reclaimCall with expectedGeneration := none } 1 "lease_1" _ _ rfl rfl rfl
    (by decide) rfl
  exact absurd hfree (by decide)

end SwarmCloud.Scheduler
