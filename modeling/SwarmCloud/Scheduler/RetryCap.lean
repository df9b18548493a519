import SwarmCloud.Scheduler.Sweeps

/-! # The retry cap

Admission does not ask how many attempts a task has left: whoever writes READY has
to. The workers' routes and the failed dispatch do, and of the sweeps those that
check the cap do, on the task as they listed it. So the cap stands in every run whose
sweeps meet no spent task that they would promote.
-/

namespace SwarmCloud.Scheduler

open Common Lib AttemptState

/-! ## Runs that count -/

namespace Op

/-- The leases that an operation grants. -/
def leases (c : Control) : Op → List Admission.Lease
  | acquireLease r config now => Admission.grants [(c.acquireLease r config now).1]
  | acquireLeases requests config now => Admission.grants (c.acquireLeases requests config now).1
  | _ => []

/-- All but the reconciler's repair, and the promotions, which are the sweeps'. -/
def Retried : Op → Prop
  | guarded (.promoteToReady _) _ _ => False
  | fenceReleaseRepair _ _ => False
  | _ => True

end Op

inductive CapOp
  | base (op : Op)
  | sweep (kind : Sweep) (task : Snapshot) (now : Instant)

namespace CapOp

def apply (service : Service) (c : Control) : CapOp → Control
  | base op => op.apply service c
  | sweep kind task now => c.sweep kind task now

def leases (c : Control) : CapOp → List Admission.Lease
  | base op => op.leases c
  | sweep .. => []

def Allowed (c : Control) : CapOp → Prop
  | base op => op.Fresh c ∧ op.Retried
  | sweep .. => True

/-- Where a sweep would promote this task, behind the park that it listed, the task has attempts left. -/
def Spares (c : Control) (id : String) : CapOp → Prop
  | base _ => True
  | sweep kind task now => task.id = id → kind.lists task.task → kind.Promotes task.task now →
    ∀ stored, c.store.tasks.lookup id = some stored → stored.state = .parked →
      stored.parkReason = task.task.parkReason → stored.retriesExhausted = false

end CapOp

/-- The documents, with the leases granted to one task and the refunds written to it so far. -/
structure Tally where
  control : Control
  granted : Nat := 0
  refunded : Nat := 0

def attempts (s : Store) (id : String) : Int := ((s.tasks.lookup id).bind Task.attemptCount).getD 0

/-- A refund is a write that leaves the task with fewer attempts than it had. -/
def Tally.after (service : Service) (id : String) (t : Tally) (op : CapOp) : Tally :=
  let control := op.apply service t.control
  { control := control
    granted := t.granted + ((op.leases t.control).map Admission.Lease.taskId).count id
    refunded := t.refunded + if attempts control.store id < attempts t.control.store id then 1 else 0 }

def CapStep (service : Service) (id : String) (t : Tally) (op : CapOp) (t' : Tally) : Prop :=
  op.Allowed t.control ∧ t' = t.after service id op

def SparingStep (service : Service) (id : String) (t : Tally) (op : CapOp) (t' : Tally) : Prop :=
  CapStep service id t op t' ∧ op.Spares t.control id

/-! ## One task under its cap -/

structure Under (m : Int) (task : Task) : Prop where
  maxAttempts : task.maxAttempts = some m
  nonneg : 0 ≤ task.attemptCount.getD 0
  le : task.attemptCount.getD 0 ≤ m
  ready : task.state = .ready → task.attemptCount.getD 0 < m

/-- A write that takes no attempt, gives back at most one, and makes ready only what has one left. -/
structure CapWrite (m : Int) (before after : Task) : Prop where
  maxAttempts : after.maxAttempts = before.maxAttempts
  attempts : after.attemptCount.getD 0 = before.attemptCount.getD 0 ∨
    0 < before.attemptCount.getD 0 ∧ after.attemptCount.getD 0 = before.attemptCount.getD 0 - 1
  ready : after.state = .ready → before.state = .ready ∨ after.attemptCount.getD 0 < m

variable {m : Int} {before after task : Task} {now : Instant}

theorem CapWrite.under (hwrite : CapWrite m before after) (h : Under m before) : Under m after := by
  obtain ⟨hmax, hnonneg, hle, hready⟩ := h
  refine ⟨hwrite.maxAttempts.trans hmax, ?_, ?_, ?_⟩
  · obtain heq | ⟨hpos, heq⟩ := hwrite.attempts
    · omega
    · omega
  · obtain heq | ⟨hpos, heq⟩ := hwrite.attempts
    · omega
    · omega
  · intro hafter
    obtain hbefore | hlt := hwrite.ready hafter
    · have := hready hbefore
      obtain heq | ⟨hpos, heq⟩ := hwrite.attempts
      · omega
      · omega
    · exact hlt

/-- A write that leaves the attempts alone and does not make the task ready. -/
theorem CapWrite.of_patch {patch : Patch} (hcount : patch.attemptCount = none)
    (hstate : ∀ state, patch.state = some state → state ≠ .ready) : CapWrite m task (patch.apply task) := by
  refine ⟨rfl, .inl ?_, fun hready => .inl ?_⟩
  · rw [Patch.apply, hcount]
    rfl
  · rw [Patch.apply] at hready
    cases hpatch : patch.state with
    | none =>
      rw [hpatch] at hready
      exact hready
    | some state =>
      rw [hpatch] at hready
      exact absurd hready (hstate state hpatch)

theorem Under.not_exhausted (h : Under m task) (hspared : task.retriesExhausted = false) :
    task.attemptCount.getD 0 < m := by
  rw [Task.retriesExhausted, retriesExhausted, h.maxAttempts] at hspared
  exact not_le.mp (of_decide_eq_false hspared)

theorem countInt_of_nonneg {n : Option Int} (h : 0 ≤ n.getD 0) : countInt n = n.getD 0 := by
  rw [countInt, if_pos h]

/-! ## The writes -/

theorem retryTarget_ready (h : Under m task) (hready : (Store.retryTarget task).1 = .ready) :
    task.attemptCount.getD 0 < m := by
  have hm : 0 ≤ m := h.nonneg.trans h.le
  rw [Store.retryTarget, h.maxAttempts, Option.getD_some, countInt_of_nonneg (n := some m) hm,
    countInt_of_nonneg h.nonneg] at hready
  split at hready
  · cases hready
  · split at hready
    · cases hready
    · rename_i hleft
      exact not_le.mp hleft

theorem returnedBy_ready {service : Service} {metadata : Fields} {a : AttemptTuple} {attemptCount : Int} {person : String}
    (hm : 1 ≤ m) (hmax : task.maxAttempts = some m) (hnonneg : 0 ≤ attemptCount)
    (h : returnedBy service task metadata a attemptCount = some person) : attemptCount < m := by
  unfold returnedBy at h
  split at h
  · dsimp only at h
    obtain ⟨⟨-, -, hleft⟩, -⟩ := Option.ite_none_right_eq_some.mp h
    rw [hmax, countInt_of_nonneg (n := some attemptCount) hnonneg, Option.getD_some] at hleft
    split at hleft
    · rename_i hnone
      cases hnone
    · rename_i hzero
      obtain rfl := Option.some.inj hzero
      omega
    · rename_i hsome
      obtain rfl := Option.some.inj hsome
      rw [countInt_of_nonneg (n := some m) (show 0 ≤ m by omega), Option.getD_some] at hleft
      omega
  · cases h

/-- A refund is given to a task that has an attempt to give back. -/
theorem parkRefund_pos {service : Service} {reason : ParkReason} {body : ParkBody} {refund : Refund}
    {nextEligibleAt : Instant} (h : parkRefund service task reason body now = .ok (refund, nextEligibleAt))
    (hrefund : refund.refund) : 0 < countInt task.attemptCount := by
  have hunder : ∀ key bound, (refundUnder task.metadata (countInt task.attemptCount) key bound).refund →
      0 < countInt task.attemptCount := by
    intro key bound hgiven
    rw [refundUnder] at hgiven
    exact of_decide_eq_true (Bool.and_eq_true_iff.mp hgiven).2
  unfold parkRefund at h
  dsimp only at h
  split at h
  · obtain ⟨rfl, -⟩ := Prod.mk.inj (Except.ok.inj h)
    exact hunder _ _ hrefund
  · split at h
    · obtain ⟨rfl, -⟩ := Prod.mk.inj (Except.ok.inj h)
      exact hunder _ _ hrefund
    · split at h
      · obtain ⟨rfl, -⟩ := Prod.mk.inj (Except.ok.inj h)
        exact hunder _ _ hrefund
      · split at h
        · obtain ⟨rfl, -⟩ := Prod.mk.inj (Except.ok.inj h)
          rw [refundCi] at hrefund
          exact of_decide_eq_true (Bool.and_eq_true_iff.mp hrefund).2
        · split at h
          · cases h
          · split at h
            · obtain ⟨rfl, -⟩ := Prod.mk.inj (Except.ok.inj h)
              exact hunder _ _ hrefund
            · split at h
              · obtain ⟨rfl, -⟩ := Prod.mk.inj (Except.ok.inj h)
                exact hunder _ _ hrefund
              · obtain ⟨rfl, -⟩ := Prod.mk.inj (Except.ok.inj h)
                cases hrefund

theorem parkPayload_capWrite {service : Service} {reason : ParkReason} {body : ParkBody} {a : AttemptTuple}
    {plan : ParkPlan} (hm : 1 ≤ m) (h : Under m task) (hplan : parkPayload service task reason body a now = .ok plan)
    (totals : Option Value) : CapWrite m task (Patch.apply { plan.patch with attemptTotals := totals } task) := by
  rw [parkPayload] at hplan
  split at hplan
  · cases hplan
  · rename_i refund nextEligibleAt hrefund
    have hcount := countInt_of_nonneg h.nonneg
    -- What the park writes of the attempts: nothing, or one less.
    have hattempts : (((if refund.refund then some (countInt task.attemptCount - if refund.refund then 1 else 0)
          else none : Option Int).or task.attemptCount).getD 0 =
          countInt task.attemptCount - if refund.refund then 1 else 0) ∧
        (countInt task.attemptCount - (if refund.refund then 1 else 0) = task.attemptCount.getD 0 ∨
          0 < task.attemptCount.getD 0 ∧
          countInt task.attemptCount - (if refund.refund then 1 else 0) = task.attemptCount.getD 0 - 1) := by
      cases hgiven : refund.refund with
      | true =>
        have hpos := parkRefund_pos hrefund hgiven
        rw [hcount] at hpos ⊢
        exact ⟨rfl, .inr ⟨hpos, rfl⟩⟩
      | false =>
        rw [hcount]
        exact ⟨(sub_zero _).symm, .inl (sub_zero _)⟩
    obtain ⟨hvalue, heither⟩ := hattempts
    dsimp only at hplan
    split at hplan
    · rename_i person hperson
      obtain rfl := Except.ok.inj hplan
      obtain ⟨hreturned, -⟩ := Option.filter_eq_some_iff.mp hperson
      refine ⟨rfl, ?_, fun _ => .inr (hvalue.trans_lt (returnedBy_ready hm h.maxAttempts ?_ hreturned))⟩
      · exact heither.imp hvalue.trans (And.imp_right hvalue.trans)
      · have := h.nonneg
        obtain heq | ⟨hpos, heq⟩ := heither
        · omega
        · omega
    · obtain rfl := Except.ok.inj hplan
      refine ⟨rfl, ?_, fun hready => (by cases hready)⟩
      exact heither.imp hvalue.trans (And.imp_right hvalue.trans)

theorem returnPatch_capWrite (x : FailedDispatch) (h : Under m task) (refused : Option Int) (reclaim : Bool)
    (now : Instant) : CapWrite m task ((x.returnPatch task refused reclaim now).apply task) := by
  rw [FailedDispatch.returnPatch]
  dsimp only
  split
  · rename_i hterminal
    refine .of_patch rfl fun state hstate => ?_
    obtain rfl := Option.some.inj hstate
    intro hready
    rw [hready] at hterminal
    exact absurd hterminal (by decide)
  · rename_i hterminal
    have hcancel : task.cancelRequested = false := by
      by_contra hcancel
      rw [Bool.not_eq_false] at hcancel
      rw [FailedDispatch.target, if_pos hcancel] at hterminal
      exact hterminal (by decide)
    rw [FailedDispatch.refusals, FailedDispatch.attemptsAfter, FailedDispatch.target]
    cases hparks : x.parks task reclaim with
    | true =>
      -- The platform refused it: the attempt is given back and the task parks.
      refine ⟨rfl, ?_, fun hready => ?_⟩
      · have := h.nonneg
        change max 0 (task.attemptCount.getD 0 - 1) = _ ∨ _ ∧ max 0 (task.attemptCount.getD 0 - 1) = _
        omega
      · simp [Patch.apply, hcancel] at hready
    | false =>
      refine ⟨rfl, .inl rfl, fun hready => .inr ?_⟩
      simp only [Patch.apply, hcancel, FailedDispatch.maxAttempts, h.maxAttempts] at hready
      by_contra hspent
      have hexhausted : retriesExhausted (task.attemptCount.getD 0) m = true := decide_eq_true (not_lt.mp hspent)
      simp [FailedDispatch.attemptsAfter, hparks, hexhausted] at hready

theorem routeWrite_capWrite {service : Service} {a : AttemptTuple} {patch : Patch} (hm : 1 ≤ m) (h : Under m task)
    (hwrite : RouteWrite service a task now patch) : CapWrite m task (patch.apply task) := by
  cases hwrite with
  | walk hdst hstate hlease hcount =>
    refine .of_patch hcount fun state heq => ?_
    rw [hstate, Option.some_inj] at heq
    rintro rfl
    rw [heq] at hdst
    cases hdst
  | park hplan totals => exact parkPayload_capWrite hm h hplan totals
  | finish hdst hstate hlease hcount =>
    refine .of_patch hcount fun state heq => ?_
    rw [hstate, Option.some_inj] at heq
    rintro rfl
    rw [heq] at hdst
    cases hdst
  | retry hstate hlease hcount =>
    have hsame : (patch.apply task).attemptCount = task.attemptCount := by
      rw [Patch.apply, hcount]
      rfl
    refine ⟨rfl, .inl (by rw [hsame]), fun hready => .inr ?_⟩
    rw [Patch.apply, hstate] at hready
    rw [hsame]
    exact retryTarget_ready h hready

theorem guarded_capWrite {call : GuardedCall} {metadata : Option Fields}
    (hcall : ∀ patchFrom, call ≠ .promoteToReady patchFrom) :
    CapWrite m task (Patch.apply { call.patch now with metadata := metadata } task) := by
  refine .of_patch (call.patch_keeps now).2 fun state hstate => ?_
  have htarget : call.target = some state := (call.patch_state now).symm.trans hstate
  rintro rfl
  cases call with
  | promoteToReady patchFrom => exact hcall patchFrom rfl
  | recordBlockers | park | deadLetterParked | failBeforeLease | skipBeforeLease | cancel => cases htarget

/-! ## Steps and runs -/

/-- The task under its cap, and every lease it was granted either counted or refunded. -/
structure Capped (id : String) (m : Int) (t : Tally) : Prop where
  under : ∃ task, t.control.store.tasks.lookup id = some task ∧ Under m task
  counted : (t.granted : Int) = attempts t.control.store id + t.refunded

theorem attempts_of_lookup {s : Store} {id : String} (h : s.tasks.lookup id = some task) :
    attempts s id = task.attemptCount.getD 0 := by
  rw [attempts, h]
  rfl

variable {s s' : Store} {id : String}

/-- What becomes of a task under its cap is a write that keeps it there. -/
def KeepsCap (s s' : Store) (id : String) (m : Int) : Prop :=
  ∀ task, s.tasks.lookup id = some task → Under m task → ∃ task', s'.tasks.lookup id = some task' ∧ CapWrite m task task'

theorem CapWrite.refl (m : Int) (task : Task) : CapWrite m task task := ⟨rfl, .inl rfl, .inl⟩

theorem Idle.keepsCap (h : Idle s s') : KeepsCap s s' id m :=
  fun task hfound _ => ⟨task, by rw [h.tasks, hfound], .refl m task⟩

theorem Commit.keepsCap {other : String} {workflow : Option (String × Workflow)}
    (h : Commit s s' other before after workflow)
    (hwrite : other = id → Under m before → CapWrite m before after) : KeepsCap s s' id m := by
  intro task hfound hunder
  rw [h.tasks]
  split
  · rename_i hid
    subst hid
    rw [h.found, Option.some_inj] at hfound
    subst hfound
    exact ⟨after, rfl, hwrite rfl hunder⟩
  · exact ⟨task, hfound, .refl m task⟩

section Steps

variable {service : Service} {c : Control} {t t' : Tally}

theorem CapStep.counts {op : CapOp} (h : CapStep service id t op t') :
    t'.control = op.apply service t.control ∧
    t'.granted = t.granted + ((op.leases t.control).map Admission.Lease.taskId).count id ∧
    t'.refunded = t.refunded + if attempts t'.control.store id < attempts t.control.store id then 1 else 0 := by
  obtain ⟨-, rfl⟩ := h
  exact ⟨rfl, rfl, rfl⟩

/-- An operation that grants nothing and moves no task past its cap. -/
theorem capped_of_keepsCap {op : CapOp} (hstep : CapStep service id t op t') (hleases : op.leases t.control = [])
    (hkeeps : KeepsCap t.control.store (op.apply service t.control).store id m) (h : Capped id m t) :
    Capped id m t' := by
  obtain ⟨hcontrol, hgranted, hrefunded⟩ := hstep.counts
  obtain ⟨task, hfound, hunder⟩ := h.under
  obtain ⟨task', hfound', hwrite⟩ := hkeeps task hfound hunder
  rw [← hcontrol] at hfound'
  refine ⟨⟨task', hfound', hwrite.under hunder⟩, ?_⟩
  have hcounted := h.counted
  rw [hleases, List.map_nil, List.count_nil] at hgranted
  rw [attempts_of_lookup hfound, attempts_of_lookup hfound'] at hrefunded
  rw [attempts_of_lookup hfound] at hcounted
  rw [attempts_of_lookup hfound']
  obtain heq | ⟨hpos, heq⟩ := hwrite.attempts
  · rw [if_neg (by omega)] at hrefunded
    omega
  · rw [if_pos (by omega)] at hrefunded
    omega

/-- A lease is granted to a ready task, which has an attempt left. -/
theorem capped_of_grants {op : CapOp} (hstep : CapStep service id t op t')
    (hgrants : Grants t.control.store (op.apply service t.control).store (op.leases t.control) now)
    (h : Capped id m t) : Capped id m t' := by
  obtain ⟨hcontrol, hgranted, hrefunded⟩ := hstep.counts
  obtain ⟨task, hfound, hunder⟩ := h.under
  have hcounted := h.counted
  rw [attempts_of_lookup hfound] at hcounted hrefunded
  rw [← hcontrol] at hgrants
  by_cases hin : id ∈ (op.leases t.control).map Admission.Lease.taskId
  · obtain ⟨lease, hlease, rfl⟩ := List.mem_map.mp hin
    obtain ⟨found, hfound', hready, -, hafter⟩ := hgrants.ready lease hlease
    rw [hfound, Option.some_inj] at hfound'
    subst hfound'
    have hlt := hunder.ready hready
    have hnonneg := hunder.nonneg
    have hone : (leasedTask lease now task).attemptCount.getD 0 = task.attemptCount.getD 0 + 1 := rfl
    rw [List.count_eq_one_of_mem hgrants.once hin] at hgranted
    rw [attempts_of_lookup hafter, hone, if_neg (by omega)] at hrefunded
    refine ⟨⟨_, hafter, hunder.maxAttempts, ?_, ?_, fun hstate => (by cases hstate)⟩, ?_⟩
    · omega
    · omega
    · rw [attempts_of_lookup hafter, hone]
      omega
  · have hother : ∀ lease ∈ op.leases t.control, lease.taskId ≠ id :=
      fun lease hlease heq => hin (List.mem_map.mpr ⟨lease, hlease, heq⟩)
    have hafter := (hgrants.others id hother).trans hfound
    rw [List.count_eq_zero_of_not_mem hin] at hgranted
    rw [attempts_of_lookup hafter, if_neg (lt_irrefl _)] at hrefunded
    refine ⟨⟨task, hafter, hunder⟩, ?_⟩
    rw [attempts_of_lookup hafter]
    omega

theorem acquireLease_grants (c : Control) (r : AcquireRequest) (config : Admission.AdmissionConfig) (now : Instant) :
    Grants c.store (c.acquireLease r config now).2.store (Admission.grants [(c.acquireLease r config now).1]) now := by
  obtain ⟨denial, hdenied⟩ | ⟨lease, granted, hok, hgrants, -, -, hstore⟩ := c.acquireLease_cases config now r
  · rw [hdenied]
    exact ⟨fun lease hlease => (by cases hlease), fun id _ => rfl, fun lease hlease => (by cases hlease),
      fun id _ => rfl, List.nodup_nil⟩
  · rw [hok, hstore]
    exact hgrants.setWorkflows [c.acquiredWorkflow now r]

theorem acquireLeases_grants (c : Control) {requests : List AcquireRequest} (config : Admission.AdmissionConfig)
    (now : Instant) (hnodup : (requests.map fun r => r.ids.leaseId).Nodup) :
    Grants c.store (c.acquireLeases requests config now).2.store
      (Admission.grants (c.acquireLeases requests config now).1) now := by
  obtain ⟨granted, outcomes, houtcomes, hgrants, -, hstore⟩ := c.acquireLeases_cases config now hnodup
  rw [houtcomes, hstore]
  exact hgrants.setWorkflows (c.acquiredWorkflows now requests outcomes)

theorem route_keepsCap (hm : 1 ≤ m) (s : Store) (a : AttemptTuple) (request : Request) (given : Given) :
    KeepsCap s (committed s (request.call service s a given)) id m := by
  cases hcall : request.call service s a given with
  | error refusal => exact (Idle.refl s).keepsCap
  | ok result =>
    obtain ⟨s', answer⟩ := result
    obtain hidle | ⟨task, patch, -, hwrite, hcommit, -⟩ := call_commit hcall
    · exact hidle.keepsCap
    · exact hcommit.keepsCap fun _ hunder => routeWrite_capWrite hm hunder hwrite

theorem base_capped {op : Op} (hm : 1 ≤ m) (hstep : CapStep service id t (.base op) t') (h : Capped id m t) :
    Capped id m t' := by
  obtain ⟨hfresh, hretried⟩ := hstep.1
  cases op with
  | acquireLease r config now => exact capped_of_grants hstep (acquireLease_grants t.control r config now) h
  | acquireLeases requests config now =>
    exact capped_of_grants hstep (acquireLeases_grants t.control config now hfresh.2) h
  | markDispatched task lease executionName now =>
    refine capped_of_keepsCap hstep rfl ?_ h
    obtain hidle | ⟨stored, -, hcommit⟩ := t.control.markDispatched_cases task lease executionName now
    · exact hidle.keepsCap
    · exact hcommit.keepsCap fun _ _ => .of_patch rfl fun state hstate => (by cases hstate; decide)
  | returnToReady x now =>
    refine capped_of_keepsCap hstep rfl ?_ h
    obtain hidle | ⟨stored, reclaim, -, -, -, hcommit⟩ := t.control.returnToReady_cases x now
    · exact hidle.keepsCap
    · exact hcommit.keepsCap fun _ hunder => returnPatch_capWrite x hunder _ reclaim now
  | guarded call task now =>
    refine capped_of_keepsCap hstep rfl ?_ h
    rw [CapOp.apply, Op.apply]
    split
    · exact (Idle.refl _).keepsCap
    · rename_i hguarded
      obtain rfl | ⟨stored, metadata, -, -, -, hcommit⟩ := Control.guarded_cases hguarded
      · exact (Idle.refl _).keepsCap
      · refine hcommit.keepsCap fun _ _ => guarded_capWrite ?_
        rintro patchFrom rfl
        exact hretried
  | cancelIfNotStarted task reason endCause now =>
    refine capped_of_keepsCap hstep rfl ?_ h
    obtain hsame | ⟨stored, -, hcommit⟩ := t.control.cancelIfNotStarted_cases task reason endCause now
    · rw [CapOp.apply, Op.apply, hsame]
      exact (Idle.refl _).keepsCap
    · exact hcommit.keepsCap fun _ _ => .of_patch rfl fun state hstate => (by cases hstate; decide)
  | cancelChild x now =>
    refine capped_of_keepsCap hstep rfl ?_ h
    obtain hsame | ⟨stored, -, hcommit⟩ := t.control.cancelChild_cases x now
    · rw [CapOp.apply, Op.apply, hsame]
      exact (Idle.refl _).keepsCap
    · refine hcommit.keepsCap fun _ _ => .of_patch ?_ fun state hstate => ?_
      · rw [Control.cascadePatch]
        split <;> rfl
      · rw [Control.cascadePatch_state] at hstate
        split at hstate
        · cases hstate
          decide
        · cases hstate
  | route a request given =>
    exact capped_of_keepsCap hstep rfl (route_keepsCap hm t.control.store a request given) h
  | fenceReleaseRepair x now => exact hretried.elim

/-- A sweep leaves the store alone or commits the call it decided on, behind the park it listed. -/
theorem sweep_cases (c : Control) (kind : Sweep) (task : Snapshot) (now : Instant) :
    c.sweep kind task now = c ∨ ∃ call stored metadata workflow, kind.call task.task now = some call ∧
      kind.lists task.task ∧ stored.state = .parked ∧
      (call.sameParkReason → stored.parkReason = task.task.parkReason) ∧
      Commit c.store (c.sweep kind task now).store task.id stored
        (Patch.apply { call.patch now with metadata := metadata } stored) workflow := by
  rw [Control.sweep]
  split
  · rename_i hlists
    split
    · exact .inl rfl
    · rename_i call hcall
      split
      · exact .inl rfl
      · rename_i hguarded
        obtain rfl | ⟨stored, metadata, hstate, hreason, -, hcommit⟩ := Control.guarded_cases hguarded
        · exact .inl rfl
        · refine .inr ⟨call, stored, metadata, _, hcall, hlists, ?_, hreason, hcommit⟩
          rw [hstate]
          exact of_decide_eq_true (Bool.and_eq_true_iff.mp hlists).1
  · exact .inl rfl

theorem sweep_keepsCap {kind : Sweep} {task : Snapshot} (hspares : CapOp.Spares c id (.sweep kind task now)) :
    KeepsCap c.store (c.sweep kind task now).store id m := by
  obtain hsame | ⟨call, stored, metadata, workflow, hcall, hlists, hparked, hreason, hcommit⟩ :=
    sweep_cases c kind task now
  · rw [hsame]
    exact (Idle.refl _).keepsCap
  · refine hcommit.keepsCap fun hid hunder => ?_
    subst hid
    by_cases hpromotes : ∃ patchFrom, call = .promoteToReady patchFrom
    · obtain ⟨patchFrom, rfl⟩ := hpromotes
      refine ⟨rfl, .inl rfl, fun _ => .inr ?_⟩
      exact hunder.not_exhausted (hspares rfl hlists ⟨patchFrom, hcall⟩ stored hcommit.found hparked (hreason rfl))
    · exact guarded_capWrite fun patchFrom heq => hpromotes ⟨patchFrom, heq⟩

theorem sparingStep_capped {op : CapOp} (hm : 1 ≤ m) (hstep : SparingStep service id t op t') (h : Capped id m t) :
    Capped id m t' := by
  obtain ⟨hcap, hspares⟩ := hstep
  cases op with
  | base op => exact base_capped hm hcap h
  | sweep kind task now => exact capped_of_keepsCap hcap rfl (sweep_keepsCap hspares) h

theorem sparingRun_capped {ops : List CapOp} (hm : 1 ≤ m) (hrun : Run (SparingStep service id) t ops t')
    (h : Capped id m t) : Capped id m t' :=
  hrun.invariant (I := Capped id m) (fun _ _ _ hbefore hstep => sparingStep_capped hm hstep hbefore) h

/-- A step that grants the task a lease finds it ready. -/
theorem capStep_granted {op : CapOp} (hstep : CapStep service id t op t') (hgranted : t.granted < t'.granted) :
    ∃ task, t.control.store.tasks.lookup id = some task ∧ task.state = .ready := by
  obtain ⟨-, hcount, -⟩ := hstep.counts
  have hallowed := hstep.1
  have hin : id ∈ (op.leases t.control).map Admission.Lease.taskId := by
    by_contra hnot
    rw [List.count_eq_zero_of_not_mem hnot] at hcount
    omega
  obtain ⟨lease, hlease, rfl⟩ := List.mem_map.mp hin
  have hready : ∀ {s' : Store} {leases : List Admission.Lease} {now : Instant}, lease ∈ leases →
      Grants t.control.store s' leases now → ∃ task, t.control.store.tasks.lookup lease.taskId = some task ∧
        task.state = .ready := by
    intro s' leases now hmem hgrants
    obtain ⟨task, hfound, hready, -, -⟩ := hgrants.ready lease hmem
    exact ⟨task, hfound, hready⟩
  cases op with
  | sweep kind task now => cases hlease
  | base op =>
    cases op with
    | acquireLease r config now => exact hready hlease (acquireLease_grants t.control r config now)
    | acquireLeases requests config now =>
      exact hready hlease (acquireLeases_grants t.control config now hallowed.1.2)
    | markDispatched | returnToReady | guarded | cancelIfNotStarted | cancelChild | route | fenceReleaseRepair =>
      cases hlease

/-- A sweep that spares no spent task leaves it ready, for one lease too many. -/
theorem sweep_overspends {kind : Sweep} {task : Snapshot} (hspends : ¬ CapOp.Spares c id (.sweep kind task now)) :
    ∃ stored, (c.sweep kind task now).store.tasks.lookup id = some stored ∧ stored.state = .ready ∧
      stored.retriesExhausted := by
  simp only [CapOp.Spares, Sweep.Promotes, not_forall, Bool.not_eq_false] at hspends
  obtain ⟨rfl, hlists, ⟨patchFrom, hcall⟩, stored, hfound, hparked, hreason, hspent⟩ := hspends
  have hsnapshot : task.task.state = .parked := of_decide_eq_true (Bool.and_eq_true_iff.mp hlists).1
  have hvalid : GuardedCall.invalid (.promoteToReady patchFrom) task.task.state = none := by
    rw [hsnapshot]
    rfl
  refine ⟨Patch.apply { (GuardedCall.promoteToReady patchFrom).patch now with
    metadata := patchFrom.map fun added => added stored } stored, ?_, rfl, hspent⟩
  rw [Control.sweep, if_pos hlists, hcall]
  dsimp only
  rw [Control.guarded, hvalid]
  dsimp only
  unfold Control.writeIfUnchanged
  rw [hfound]
  dsimp only
  rw [if_neg (by rw [hparked, hsnapshot]; exact not_not.mpr rfl), if_neg (by rw [hreason]; exact fun h => h.2 rfl)]
  have hcommit := fun patch => updateTask_commit hfound patch
  cases patchFrom with
  | none => exact ((hcommit _ _).tasks task.id).trans (if_pos rfl)
  | some added => exact ((hcommit _ _).tasks task.id).trans (if_pos rfl)

/-- A sweep that checks the cap, on the counts that are stored, spares the task. -/
theorem spares_of_checksCap {kind : Sweep} {task : Snapshot} (hchecks : kind.checksCap)
    (hcounts : ∀ stored, c.store.tasks.lookup id = some stored →
      stored.attemptCount = task.task.attemptCount ∧ stored.maxAttempts = task.task.maxAttempts) :
    CapOp.Spares c id (.sweep kind task now) := by
  intro _ _ hpromotes stored hfound _ _
  obtain ⟨hcount, hmax⟩ := hcounts stored hfound
  rw [Task.retriesExhausted, hcount, hmax]
  exact hpromotes.not_exhausted hchecks

end Steps

/-- In every run, from a task without attempts, whose sweeps would promote it only with attempts left: a lease
is granted only below the cap, and there are no more leases than the cap and the refunds. A sweep that checks
the cap meets this on the counts that are stored; one that does not meet it leaves the task ready and spent. -/
theorem retry_cap_holds {service : Service} {id : String} {m : Int} {c₀ : Control} {task₀ : Task} {t : Tally}
    {ops : List CapOp} (hstart : c₀.store.tasks.lookup id = some task₀) (hnone : task₀.attemptCount.getD 0 = 0)
    (hmax : task₀.maxAttempts = some m) (hm : 1 ≤ m)
    (hrun : Run (SparingStep service id) ⟨c₀, 0, 0⟩ ops t) :
    (∀ op t', CapStep service id t op t' → t.granted < t'.granted →
      ∃ task, t.control.store.tasks.lookup id = some task ∧ task.attemptCount.getD 0 < m) ∧
    (t.granted : Int) ≤ m + t.refunded ∧
    (∀ kind task now t', CapStep service id t (.sweep kind task now) t' →
      ¬ CapOp.Spares t.control id (.sweep kind task now) →
      ∃ stored, t'.control.store.tasks.lookup id = some stored ∧ stored.state = .ready ∧ stored.retriesExhausted) ∧
    ∀ kind task now, Sweep.checksCap kind → (∀ stored, t.control.store.tasks.lookup id = some stored →
        stored.attemptCount = task.task.attemptCount ∧ stored.maxAttempts = task.task.maxAttempts) →
      CapOp.Spares t.control id (.sweep kind task now) := by
  have hcapped : Capped id m ⟨c₀, 0, 0⟩ := by
    refine ⟨⟨task₀, hstart, hmax, ?_, ?_, fun _ => ?_⟩, ?_⟩
    · omega
    · omega
    · omega
    · rw [attempts_of_lookup hstart, hnone]
      rfl
  have h := sparingRun_capped hm hrun hcapped
  refine ⟨?_, ?_, ?_, fun kind task now => spares_of_checksCap⟩
  · intro op t' hstep hgranted
    obtain ⟨task, hfound, hstate⟩ := capStep_granted hstep hgranted
    obtain ⟨found, hfound', hunder⟩ := h.under
    rw [hfound, Option.some_inj] at hfound'
    subst hfound'
    exact ⟨task, hfound, hunder.ready hstate⟩
  · obtain ⟨task, hfound, hunder⟩ := h.under
    have hcounted := h.counted
    rw [attempts_of_lookup hfound] at hcounted
    have := hunder.le
    omega
  · intro kind task now t' hstep hspends
    rw [hstep.counts.1]
    exact sweep_overspends hspends

/-! ### One attempt, spent on a missing credential -/

/-- The digests of the requests below. -/
def capDigests : Dict String String :=
  [("swarm-state-request/v1\neng\ntask_1\natt_1\nlease_1\n1\ntransition\nr-1",
      "af98749aa9e1b6ad37d945dd6f2449f441f1774341d2aa225723e312039bd885"),
    ("swarm-state-request/v1\neng\ntask_1\natt_1\nlease_1\n1\ntransition\nr-2",
      "c72668bb38680f2d1ef4dfff3ca17de92399614f9561b7e70aec5085513a7641"),
    ("swarm-state-request/v1\neng\ntask_1\natt_1\nlease_1\n1\npark\nr-3",
      "a23568ae1287535c96fe89ab4b57ae5c369f78b56f458e437cf0c8252d79f227")]

def capService : Service := { sampleService with hexdigest := fun text => (capDigests.lookup text).getD "" }

def capTask : Task := { tenantId := "eng", state := .ready, attemptCount := some 0, maxAttempts := some 1 }

def capStart : Control :=
  { sampleControl with
    store := { sampleControl.store with tasks := (∅ : Docs String Task).insert "task_1" capTask } }

def capAcquire (leaseId attemptId : String) (now : Instant) : CapOp :=
  .base (.acquireLease ⟨⟨⟨"task_1", "eng", none, "small", "claude-code"⟩, 1, "gke"⟩, ⟨leaseId, attemptId⟩, none⟩ {} now)

def capDispatch : CapOp :=
  .base (.markDispatched ⟨"task_1", capTask⟩
    ⟨"lease_1", "task_1", "att_1", "eng", 1, [], 1, [], .leased, 0, 0, 0⟩ "job" 1)

def capRoute (request : Request) (now : Instant) : CapOp :=
  .base (.route sampleTuple request ⟨now, none, "evt_released", fun _ => ""⟩)

def capStarting : CapOp := capRoute (.transition { requestId := "r-1", dst := "STARTING" }) 2

def capRunning : CapOp := capRoute (.transition { requestId := "r-2", dst := "RUNNING" }) 3

def capPark : CapOp :=
  capRoute (.park { requestId := "r-3", reason := "CREDENTIAL_MISSING", nextEligibleAt := some 4 }) 4

/-- The credential is there again. -/
def capSweep : CapOp :=
  .sweep (.credentials false true (.source false true))
    ⟨"task_1", { capTask with state := .parked, parkReason := some .credentialMissing, attemptCount := some 1 }⟩ 5

def capOps : List CapOp := [capAcquire "lease_1" "att_1" 0, capDispatch, capStarting, capRunning, capPark]

def capParked : Tally := capOps.foldl (Tally.after capService "task_1") ⟨capStart, 0, 0⟩

theorem capRun : Run (SparingStep capService "task_1") ⟨capStart, 0, 0⟩ capOps capParked := by
  have hacquire : SparingStep capService "task_1" ⟨capStart, 0, 0⟩ (capAcquire "lease_1" "att_1" 0)
      (Tally.after capService "task_1" ⟨capStart, 0, 0⟩ (capAcquire "lease_1" "att_1" 0)) :=
    ⟨⟨⟨Finmap.lookup_empty _, trivial⟩, rfl⟩, trivial⟩
  have hdispatch : ∀ t, SparingStep capService "task_1" t capDispatch (t.after capService "task_1" capDispatch) :=
    fun t => ⟨⟨⟨trivial, trivial⟩, rfl⟩, trivial⟩
  have hroute : ∀ t request now, SparingStep capService "task_1" t (capRoute request now)
      (t.after capService "task_1" (capRoute request now)) :=
    fun t request now => ⟨⟨⟨trivial, trivial⟩, rfl⟩, trivial⟩
  exact ((((Run.one hacquire).snoc (hdispatch _)).snoc (hroute _ _ 2)).snoc (hroute _ _ 3)).snoc (hroute _ _ 4)

def capPromoted : Tally := capParked.after capService "task_1" capSweep

/-- The park spends the only attempt, the sweep does not ask, and admission grants a second lease. -/
theorem retry_cap_exceeded :
    ¬ ∀ (service : Service) (id : String) (m : Int) (c₀ : Control) (task₀ : Task) (ops : List CapOp) (t t' : Tally)
      (op : CapOp), c₀.store.tasks.lookup id = some task₀ → task₀.state = .ready → task₀.attemptCount = some 0 →
      task₀.maxAttempts = some m → 1 ≤ m → Run (CapStep service id) ⟨c₀, 0, 0⟩ ops t → CapStep service id t op t' →
      (t.granted < t'.granted → ∃ task, t.control.store.tasks.lookup id = some task ∧ task.attemptCount.getD 0 < m) ∧
        (t'.granted : Int) ≤ m + t'.refunded := by
  intro hclaim
  have hrun : Run (CapStep capService "task_1") ⟨capStart, 0, 0⟩ (capOps ++ [capSweep]) capPromoted :=
    (capRun.mono fun _ _ _ hstep => hstep.1).snoc ⟨trivial, rfl⟩
  have hstep : CapStep capService "task_1" capPromoted (capAcquire "lease_2" "att_2" 6)
      (capPromoted.after capService "task_1" (capAcquire "lease_2" "att_2" 6)) :=
    ⟨⟨show capPromoted.control.store.leases.lookup "lease_2" = none by decide, trivial⟩, rfl⟩
  have hleases := (hclaim capService "task_1" 1 capStart capTask _ _ _ _ rfl rfl rfl rfl (le_refl 1) hrun hstep).2
  exact absurd hleases (by decide)

theorem retry_cap_holds_until_promoted :
    (capParked.granted : Int) ≤ 1 + capParked.refunded ∧
    ∃ stored, capPromoted.control.store.tasks.lookup "task_1" = some stored ∧ stored.state = .ready ∧
      stored.retriesExhausted := by
  have hstart : capStart.store.tasks.lookup "task_1" = some capTask := rfl
  obtain ⟨-, hle, hspends, -⟩ := retry_cap_holds hstart rfl rfl (le_refl 1) capRun
  refine ⟨hle, hspends _ _ _ capPromoted ⟨trivial, rfl⟩ fun hspares => ?_⟩
  have hstored : (capParked.control.store.tasks.lookup "task_1").map
      (fun task => (task.state, task.parkReason, task.retriesExhausted)) =
      some (.parked, some .credentialMissing, true) := by decide
  obtain ⟨stored, hfound, heq⟩ := Option.map_eq_some_iff.mp hstored
  obtain ⟨hstate, hrest⟩ := Prod.mk.inj heq
  obtain ⟨hreason, hspent⟩ := Prod.mk.inj hrest
  have hleft := hspares rfl rfl ⟨none, rfl⟩ stored hfound hstate hreason
  rw [hspent] at hleft
  cases hleft

end SwarmCloud.Scheduler
