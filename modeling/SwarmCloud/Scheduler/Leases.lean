import SwarmCloud.Scheduler.Grants

/-! # No lease outlives its task's claim on it

Admission, the scheduler's guarded writes, the workers' routes, the cascade to
children and the reconciler's repair, in any order and on snapshots of any age: an
unreleased lease is always the one its task holds capacity on, and the leases of one
task come at growing generations.
-/

namespace SwarmCloud.Scheduler

open Common Lib AttemptState

/-! ## The operations of the four services -/

inductive Op
  | acquireLease (r : AcquireRequest) (config : Admission.AdmissionConfig) (now : Instant)
  | acquireLeases (requests : List AcquireRequest) (config : Admission.AdmissionConfig) (now : Instant)
  | markDispatched (task : Snapshot) (lease : Admission.Lease) (executionName : String) (now : Instant)
  | returnToReady (x : FailedDispatch) (now : Instant)
  | guarded (call : GuardedCall) (task : Snapshot) (now : Instant)
  | cancelIfNotStarted (task : Snapshot) (reason : String) (endCause : EndCause) (now : Instant)
  | cancelChild (x : Control.Cascade) (now : Instant)
  | route (a : AttemptTuple) (request : Request) (given : Given)
  | fenceReleaseRepair (x : RepairCall) (now : Instant)

namespace Op

/-- The documents after an operation. What is raised or refused aborts its transaction. -/
def apply (service : Service) (c : Control) : Op → Control
  | acquireLease r config now => (c.acquireLease r config now).2
  | acquireLeases requests config now => (c.acquireLeases requests config now).2
  | markDispatched task lease executionName now => (c.markDispatched task lease executionName now).2
  | returnToReady x now => (c.returnToReady x now).2
  | guarded call task now => match c.guarded call task now with
    | .error _ => c
    | .ok (_, c') => c'
  | cancelIfNotStarted task reason endCause now => (c.cancelIfNotStarted task reason endCause now).2
  | cancelChild x now => (c.cancelChild x now).2
  | route a request given => { c with store := committed c.store (request.call service c.store a given) }
  | fenceReleaseRepair x now => (c.fenceReleaseRepair x now).2

/-- Minted lease ids are new. -/
def Fresh (c : Control) : Op → Prop
  | acquireLease r _ _ => c.store.leases.lookup r.ids.leaseId = none
  | acquireLeases requests _ _ =>
    (∀ r ∈ requests, c.store.leases.lookup r.ids.leaseId = none) ∧ (requests.map fun r => r.ids.leaseId).Nodup
  | _ => True

/-- A guarded write decides from a task that was ready or parked, and a repair expects the lease it
releases. -/
def Addressed : Op → Prop
  | guarded _ task _ => task.task.state = .ready ∨ task.task.state = .parked
  | fenceReleaseRepair x _ => ∀ plan, x.repair = some plan → plan.expectedLeaseId = x.leaseId
  | _ => True

end Op

def LeaseStep (service : Service) (c : Control) (op : Op) (c' : Control) : Prop :=
  op.Fresh c ∧ op.Addressed ∧ c' = op.apply service c

/-! ## The invariant -/

structure LeaseDiscipline (s : Store) : Prop where
  claimed : ∀ id lease, s.leases.lookup id = some lease → lease.releasedAt = none →
    ∃ task, s.tasks.lookup lease.taskId = some task ∧ task.state ∈ concurrencyStates ∧ task.currentLeaseId = some id
  bounded : ∀ id lease, s.leases.lookup id = some lease →
    ∃ task, s.tasks.lookup lease.taskId = some task ∧ lease.generation ≤ task.currentGeneration.getD 0
  distinct : ∀ id id' lease lease', s.leases.lookup id = some lease → s.leases.lookup id' = some lease' →
    lease.taskId = lease'.taskId → lease.generation = lease'.generation → id = id'

/-- The leases of `s` stay, and what comes later for a task of theirs has a greater generation. -/
structure Later (s s' : Store) : Prop where
  stays : ∀ id lease, s.leases.lookup id = some lease →
    ∃ lease', s'.leases.lookup id = some lease' ∧ SameLease lease lease'
  greater : ∀ id' lease', s'.leases.lookup id' = some lease' → s.leases.lookup id' = none →
    ∀ id lease, s.leases.lookup id = some lease → lease.taskId = lease'.taskId → lease.generation < lease'.generation

variable {s s' s'' : Store}

theorem Later.of_kept (h : LeasesKept s s') : Later s s' where
  stays := h.forth
  greater id' lease' hlease' hnone := by
    obtain ⟨lease, hlease, -⟩ := h.back id' lease' hlease'
    rw [hnone] at hlease
    cases hlease

theorem Later.trans (h : Later s s') (h' : Later s' s'') : Later s s'' where
  stays id lease hlease := by
    obtain ⟨lease', hlease', hsame⟩ := h.stays id lease hlease
    obtain ⟨lease'', hlease'', hsame'⟩ := h'.stays id lease' hlease'
    exact ⟨lease'', hlease'', hsame.trans hsame'⟩
  greater id' lease'' hlease'' hnone id lease hlease htask := by
    obtain ⟨old, hold, hsame⟩ := h.stays id lease hlease
    cases hmiddle : s'.leases.lookup id' with
    | none =>
      rw [← hsame.generation]
      exact h'.greater id' lease'' hlease'' hmiddle id old hold (hsame.taskId.trans htask)
    | some lease' =>
      obtain ⟨found, hfound, hsame'⟩ := h'.stays id' lease' hmiddle
      rw [hlease'', Option.some_inj] at hfound
      subst hfound
      rw [hsame'.generation]
      exact h.greater id' lease' hmiddle hnone id lease hlease (htask.trans hsame'.taskId)

/-- Two unreleased leases of one task are the one it points at. -/
theorem LeaseDiscipline.unique (h : LeaseDiscipline s) {id id' : String} {lease lease' : Admission.LeaseDoc}
    (hlease : s.leases.lookup id = some lease) (hopen : lease.releasedAt = none)
    (hlease' : s.leases.lookup id' = some lease') (hopen' : lease'.releasedAt = none)
    (htask : lease.taskId = lease'.taskId) : id = id' := by
  obtain ⟨task, hfound, -, hcurrent⟩ := h.claimed id lease hlease hopen
  obtain ⟨task', hfound', -, hcurrent'⟩ := h.claimed id' lease' hlease' hopen'
  rw [htask, hfound', Option.some_inj] at hfound
  subst hfound
  rw [hcurrent', Option.some_inj] at hcurrent
  exact hcurrent.symm

theorem LeasesKept.distinct (hkept : LeasesKept s s') (h : LeaseDiscipline s) {id id' : String}
    {lease lease' : Admission.LeaseDoc} (hlease : s'.leases.lookup id = some lease)
    (hlease' : s'.leases.lookup id' = some lease') (htask : lease.taskId = lease'.taskId)
    (hgeneration : lease.generation = lease'.generation) : id = id' := by
  obtain ⟨old, hold, hsame⟩ := hkept.back id lease hlease
  obtain ⟨old', hold', hsame'⟩ := hkept.back id' lease' hlease'
  refine h.distinct id id' old old' hold hold' ?_ ?_
  · rw [← hsame.taskId, ← hsame'.taskId, htask]
  · rw [← hsame.generation, ← hsame'.generation, hgeneration]

theorem SameLease.unreleased {lease lease' : Admission.LeaseDoc} (h : SameLease lease lease')
    (hopen : lease'.releasedAt = none) : lease.releasedAt = none := by
  by_contra hreleased
  have := h.released (Option.isSome_iff_ne_none.mpr hreleased)
  rw [hopen] at this
  cases this

theorem Idle.discipline (hidle : Idle s s') (h : LeaseDiscipline s) : LeaseDiscipline s' where
  claimed id lease' hlease' hopen := by
    obtain ⟨lease, hlease, hsame⟩ := hidle.leases.back id lease' hlease'
    obtain ⟨task, htask, hclaim⟩ := h.claimed id lease hlease (hsame.unreleased hopen)
    exact ⟨task, by rw [hidle.tasks, hsame.taskId, htask], hclaim⟩
  bounded id lease' hlease' := by
    obtain ⟨lease, hlease, hsame⟩ := hidle.leases.back id lease' hlease'
    obtain ⟨task, htask, hle⟩ := h.bounded id lease hlease
    exact ⟨task, by rw [hidle.tasks, hsame.taskId, htask], by rwa [hsame.generation]⟩
  distinct _ _ _ _ := hidle.leases.distinct h

/-- What a write does with the lease of the task it found: it keeps it, there was none to keep, or the
lease is released. -/
inductive Hands (s' : Store) (before after : Task) : Prop
  | kept (hstate : before.state ∈ concurrencyStates → after.state ∈ concurrencyStates)
      (hlease : after.currentLeaseId = before.currentLeaseId)
  | idle (hstate : before.state ∉ concurrencyStates)
  | released (hreleased : ∀ leaseId, before.currentLeaseId = some leaseId → Released s' leaseId)

theorem Commit.discipline {id : String} {before after : Task} {workflow : Option (String × Workflow)}
    (hcommit : Commit s s' id before after workflow)
    (hgeneration : before.currentGeneration.getD 0 ≤ after.currentGeneration.getD 0) (hhands : Hands s' before after)
    (h : LeaseDiscipline s) : LeaseDiscipline s' where
  claimed leaseId lease' hlease' hopen := by
    obtain ⟨lease, hlease, hsame⟩ := hcommit.leases.back leaseId lease' hlease'
    obtain ⟨task, htask, hstate, hcurrent⟩ := h.claimed leaseId lease hlease (hsame.unreleased hopen)
    rw [hcommit.tasks, hsame.taskId]
    split
    · rename_i hid
      rw [hid, hcommit.found, Option.some_inj] at htask
      subst htask
      -- The task that is rewritten: it still holds this lease, or the lease is not unreleased.
      cases hhands with
      | kept hkept hsameLease => exact ⟨after, rfl, hkept hstate, hsameLease.trans hcurrent⟩
      | idle hidle => exact absurd hstate hidle
      | released hreleased =>
        have := hreleased leaseId hcurrent lease' hlease'
        rw [hopen] at this
        cases this
    · exact ⟨task, htask, hstate, hcurrent⟩
  bounded leaseId lease' hlease' := by
    obtain ⟨lease, hlease, hsame⟩ := hcommit.leases.back leaseId lease' hlease'
    obtain ⟨task, htask, hle⟩ := h.bounded leaseId lease hlease
    rw [hcommit.tasks, hsame.taskId, hsame.generation]
    split
    · rename_i hid
      rw [hid, hcommit.found, Option.some_inj] at htask
      subst htask
      exact ⟨after, rfl, hle.trans hgeneration⟩
    · exact ⟨task, htask, hle⟩
  distinct _ _ _ _ := hcommit.leases.distinct h

/-! ## Grants -/

section Granting

variable {leases : List Admission.Lease} {now : Instant}

/-- A lease behind a grant is one of the granted or an old one. -/
theorem Grants.cases (hgrants : Grants s s' leases now) {id : String}
    {lease : Admission.LeaseDoc} (hlease : s'.leases.lookup id = some lease) :
    (∃ granted ∈ leases, granted.leaseId = id ∧ lease = granted.toDoc) ∨
      (∀ granted ∈ leases, granted.leaseId ≠ id) ∧ s.leases.lookup id = some lease := by
  by_cases hin : ∃ granted ∈ leases, granted.leaseId = id
  · obtain ⟨granted, hgranted, rfl⟩ := hin
    rw [hgrants.minted granted hgranted, Option.some_inj] at hlease
    exact .inl ⟨granted, hgranted, rfl, hlease.symm⟩
  · have hother : ∀ granted ∈ leases, granted.leaseId ≠ id := fun granted hgranted heq => hin ⟨granted, hgranted, heq⟩
    rw [hgrants.kept id hother] at hlease
    exact .inr ⟨hother, hlease⟩

/-- A task behind a grant is leased, if it was ready and granted one, and as it was otherwise. -/
theorem Grants.task_cases (hgrants : Grants s s' leases now) {id : String} {task : Task}
    (htask : s.tasks.lookup id = some task) :
    (∃ granted ∈ leases, granted.taskId = id ∧ task.state = .ready ∧
        granted.generation = task.currentGeneration.getD 0 + 1 ∧
        s'.tasks.lookup id = some (leasedTask granted now task)) ∨
      s'.tasks.lookup id = some task := by
  by_cases hin : ∃ granted ∈ leases, granted.taskId = id
  · obtain ⟨granted, hgranted, rfl⟩ := hin
    obtain ⟨found, hfound, hstate, hgeneration, hafter⟩ := hgrants.ready granted hgranted
    rw [htask, Option.some_inj] at hfound
    subst hfound
    exact .inl ⟨granted, hgranted, rfl, hstate, hgeneration, hafter⟩
  · rw [hgrants.others id fun granted hgranted heq => hin ⟨granted, hgranted, heq⟩]
    exact .inr htask

/-- A granted lease is above every lease that its task had. -/
theorem Grants.above (hgrants : Grants s s' leases now) (h : LeaseDiscipline s) {granted : Admission.Lease}
    (hgranted : granted ∈ leases) {id : String} {lease : Admission.LeaseDoc} (hlease : s.leases.lookup id = some lease)
    (htask : lease.taskId = granted.taskId) : lease.generation < granted.generation := by
  obtain ⟨task, hfound, -, hgeneration, -⟩ := hgrants.ready granted hgranted
  obtain ⟨task', hfound', hle⟩ := h.bounded id lease hlease
  rw [htask, hfound, Option.some_inj] at hfound'
  subst hfound'
  omega

theorem Grants.discipline (hgrants : Grants s s' leases now) (h : LeaseDiscipline s) : LeaseDiscipline s' where
  claimed id lease hlease hopen := by
    obtain ⟨granted, hgranted, rfl, rfl⟩ | ⟨-, hold⟩ := hgrants.cases hlease
    · obtain ⟨task, -, -, -, hafter⟩ := hgrants.ready granted hgranted
      exact ⟨leasedTask granted now task, hafter, show TaskState.leased ∈ concurrencyStates by decide, rfl⟩
    · obtain ⟨task, htask, hstate, hcurrent⟩ := h.claimed id lease hold hopen
      obtain ⟨granted, -, -, hready, -⟩ | hafter := hgrants.task_cases htask
      · rw [hready] at hstate
        exact absurd hstate (by decide)
      · exact ⟨task, hafter, hstate, hcurrent⟩
  bounded id lease hlease := by
    obtain ⟨granted, hgranted, rfl, rfl⟩ | ⟨-, hold⟩ := hgrants.cases hlease
    · obtain ⟨task, -, -, -, hafter⟩ := hgrants.ready granted hgranted
      exact ⟨leasedTask granted now task, hafter, le_refl _⟩
    · obtain ⟨task, htask, hle⟩ := h.bounded id lease hold
      obtain ⟨granted, -, -, -, hgeneration, hafter⟩ | hafter := hgrants.task_cases htask
      · refine ⟨leasedTask granted now task, hafter, ?_⟩
        change lease.generation ≤ granted.generation
        omega
      · exact ⟨task, hafter, hle⟩
  distinct id id' lease lease' hlease hlease' htask hgeneration := by
    obtain ⟨granted, hgranted, rfl, rfl⟩ | ⟨-, hold⟩ := hgrants.cases hlease
    · obtain ⟨granted', hgranted', rfl, rfl⟩ | ⟨-, hold'⟩ := hgrants.cases hlease'
      · rw [List.inj_on_of_nodup_map hgrants.once hgranted hgranted' htask]
      · exact absurd hgeneration.symm (hgrants.above h hgranted hold' htask.symm).ne
    · obtain ⟨granted', hgranted', rfl, rfl⟩ | ⟨-, hold'⟩ := hgrants.cases hlease'
      · exact absurd hgeneration (hgrants.above h hgranted' hold htask).ne
      · exact h.distinct id id' lease lease' hold hold' htask hgeneration

theorem Grants.later (hgrants : Grants s s' leases now) (h : LeaseDiscipline s)
    (hfresh : ∀ granted ∈ leases, s.leases.lookup granted.leaseId = none) : Later s s' where
  stays id lease hlease := by
    refine ⟨lease, ?_, .refl lease⟩
    rw [hgrants.kept, hlease]
    rintro granted hgranted rfl
    rw [hfresh granted hgranted] at hlease
    cases hlease
  greater id' lease' hlease' hnone id lease hlease htask := by
    obtain ⟨granted, hgranted, rfl, rfl⟩ | ⟨-, hold⟩ := hgrants.cases hlease'
    · exact hgrants.above h hgranted hlease htask
    · rw [hnone] at hold
      cases hold

end Granting

/-! ## Steps and runs -/

theorem apply_of_commit {id : String} {before after : Task} {workflow : Option (String × Workflow)}
    (hcommit : Commit s s' id before after workflow)
    (hgeneration : before.currentGeneration.getD 0 ≤ after.currentGeneration.getD 0) (hhands : Hands s' before after)
    (h : LeaseDiscipline s) : LeaseDiscipline s' ∧ Later s s' :=
  ⟨hcommit.discipline hgeneration hhands h, .of_kept hcommit.leases⟩

theorem apply_of_idle (hidle : Idle s s') (h : LeaseDiscipline s) : LeaseDiscipline s' ∧ Later s s' :=
  ⟨hidle.discipline h, .of_kept hidle.leases⟩

theorem not_capacity_of_pending {state : TaskState} (h : state ∈ pendingStates) : state ∉ concurrencyStates := by
  revert h
  cases state <;> decide

theorem capacity_of_walk {dst : TaskState} (h : (Store.walkEvent dst).isSome) : dst ∈ concurrencyStates := by
  revert h
  cases dst <;> decide

theorem parkPayload_lease {service : Service} {task : Task} {reason : ParkReason} {body : ParkBody} {a : AttemptTuple}
    {now : Instant} {plan : ParkPlan} (h : parkPayload service task reason body a now = .ok plan) :
    plan.patch.currentLeaseId = some none := by
  rw [parkPayload] at h
  split at h
  · cases h
  · dsimp only at h
    split at h
    · obtain rfl := Except.ok.inj h
      rfl
    · obtain rfl := Except.ok.inj h
      rfl

section Steps

variable {service : Service} {c c' : Control}

theorem route_leases (a : AttemptTuple) (request : Request) (given : Given) (h : LeaseDiscipline s) :
    LeaseDiscipline (committed s (request.call service s a given)) ∧
      Later s (committed s (request.call service s a given)) := by
  cases hcall : request.call service s a given with
  | error refusal => exact apply_of_idle (.refl s) h
  | ok result =>
    obtain ⟨s', answer⟩ := result
    obtain hidle | ⟨task, patch, howned, hwrite, hcommit, hreleased⟩ := call_commit hcall
    · exact apply_of_idle hidle h
    · refine apply_of_commit hcommit (le_refl _) ?_ h
      obtain ⟨lease, hlease, hopen, htaskId⟩ := howned.lease
      -- The fence lets a task without a lease pass; the discipline says that this task points at it.
      have hcurrent : task.currentLeaseId = some a.leaseId := by
        obtain ⟨found, hfound, -, hpoints⟩ := h.claimed a.leaseId lease hlease hopen
        rw [htaskId, howned.found, Option.some_inj] at hfound
        exact hfound ▸ hpoints
      have hended : patch.currentLeaseId = some none → Hands s' task (patch.apply task) := by
        intro hcleared
        refine .released fun leaseId hid => ?_
        rw [hcurrent, Option.some_inj] at hid
        exact hid ▸ hreleased hcleared
      cases hwrite with
      | walk hdst hstate hleaseId hcount =>
        refine .kept (fun _ => ?_) ?_
        · rw [Patch.apply, hstate]
          exact capacity_of_walk hdst
        · rw [Patch.apply, hleaseId]
          rfl
      | park hplan totals => exact hended (parkPayload_lease hplan)
      | finish hdst hstate hleaseId hcount => exact hended hleaseId
      | retry hstate hleaseId hcount => exact hended hleaseId

/-- One step keeps the discipline, and mints only above what is there. -/
theorem leaseStep_keeps {op : Op} (h : LeaseDiscipline c.store) (hstep : LeaseStep service c op c') :
    LeaseDiscipline c'.store ∧ Later c.store c'.store := by
  obtain ⟨hfresh, haddressed, rfl⟩ := hstep
  cases op with
  | acquireLease r config now =>
    obtain ⟨denial, hsame⟩ | ⟨lease, granted, -, hgrants, -, hleaseId, hstore⟩ := c.acquireLease_cases config now r
    · rw [Op.apply, hsame]
      exact apply_of_idle (.refl _) h
    · rw [Op.apply, hstore]
      have hgrants := hgrants.setWorkflows [c.acquiredWorkflow now r]
      refine ⟨hgrants.discipline h, hgrants.later h fun other hother => ?_⟩
      rw [List.mem_singleton.mp hother, hleaseId]
      exact hfresh
  | acquireLeases requests config now =>
    obtain ⟨granted, outcomes, -, hgrants, hanswers, hstore⟩ := c.acquireLeases_cases config now hfresh.2
    rw [Op.apply, hstore]
    have hgrants := hgrants.setWorkflows (c.acquiredWorkflows now requests outcomes)
    refine ⟨hgrants.discipline h, hgrants.later h fun lease hlease => ?_⟩
    obtain ⟨r, hr, hanswer⟩ := mem_grants_forall₂ hanswers hlease
    rw [(hanswer lease rfl).2]
    exact hfresh.1 r hr
  | markDispatched task lease executionName now =>
    obtain hidle | ⟨stored, hstate, hcommit⟩ := c.markDispatched_cases task lease executionName now
    · exact apply_of_idle hidle h
    · have hdispatched : TaskState.dispatched ∈ concurrencyStates := by decide
      exact apply_of_commit hcommit (le_refl _) (.kept (fun _ => hdispatched) rfl) h
  | returnToReady x now =>
    obtain hidle | ⟨stored, reclaim, -, hcurrent, hreleased, hcommit⟩ := c.returnToReady_cases x now
    · exact apply_of_idle hidle h
    · refine apply_of_commit hcommit (le_refl _) (.released fun leaseId hid => ?_) h
      rw [hcurrent, Option.some_inj] at hid
      exact hid ▸ hreleased
  | guarded call task now =>
    rw [Op.apply]
    split
    · exact apply_of_idle (.refl _) h
    · rename_i hguarded
      obtain rfl | ⟨stored, metadata, hstate, -, -, hcommit⟩ := Control.guarded_cases hguarded
      · exact apply_of_idle (.refl _) h
      · refine apply_of_commit hcommit (le_refl _) (.idle ?_) h
        obtain hready | hparked := haddressed
        · rw [hstate, hready]
          decide
        · rw [hstate, hparked]
          decide
  | cancelIfNotStarted task reason endCause now =>
    obtain hsame | ⟨stored, hpending, hcommit⟩ := c.cancelIfNotStarted_cases task reason endCause now
    · rw [Op.apply, hsame]
      exact apply_of_idle (.refl _) h
    · exact apply_of_commit hcommit (le_refl _) (.idle (not_capacity_of_pending hpending)) h
  | cancelChild x now =>
    obtain hsame | ⟨stored, -, hcommit⟩ := c.cancelChild_cases x now
    · rw [Op.apply, hsame]
      exact apply_of_idle (.refl _) h
    · refine apply_of_commit hcommit (le_refl _) ?_ h
      by_cases hpending : stored.state ∈ pendingStates
      · exact .idle (not_capacity_of_pending hpending)
      · refine .kept (fun hcapacity => ?_) ?_
        · rw [Patch.apply, Control.cascadePatch_state, if_neg hpending]
          exact hcapacity
        · rw [Patch.apply, Control.cascadePatch_lease]
          rfl
  | route a request given => exact route_leases a request given h
  | fenceReleaseRepair x now =>
    obtain hidle | ⟨taskId, stored, hgeneration, hcommit, hhands⟩ := fenceReleaseRepair_cases c now haddressed
    · exact apply_of_idle hidle h
    · refine apply_of_commit hcommit hgeneration ?_ h
      obtain ⟨hstate, hlease⟩ | hreleased := hhands
      · exact .kept (fun hcapacity => hstate ▸ hcapacity) hlease
      · exact .released hreleased

theorem leaseRun_keeps {ops : List Op} (h : LeaseDiscipline c.store) (hrun : Run (LeaseStep service) c ops c') :
    LeaseDiscipline c'.store ∧ Later c.store c'.store := by
  induction hrun with
  | nil => exact apply_of_idle (.refl _) h
  | snoc _ hlast ih =>
    obtain ⟨hdiscipline, hlater⟩ := leaseStep_keeps ih.1 hlast
    exact ⟨hdiscipline, ih.2.trans hlater⟩

end Steps

/-- From a store without leases, in every state that is reached: an unreleased lease is the one its task
holds capacity on, so no task has two and none without capacity has one; no lease is above the generation
of its task, no two of a task are at one generation, and every later one of a task is at a greater one. -/
theorem leases_claimed_and_ordered {service : Service} {c₀ c : Control} {ops : List Op}
    (hempty : c₀.store.leases = ∅) (hrun : Run (LeaseStep service) c₀ ops c) :
    (∀ id lease, c.store.leases.lookup id = some lease → lease.releasedAt = none →
      ∃ task, c.store.tasks.lookup lease.taskId = some task ∧ task.state ∈ concurrencyStates ∧
        task.currentLeaseId = some id) ∧
    (∀ id id' lease lease', c.store.leases.lookup id = some lease → c.store.leases.lookup id' = some lease' →
      lease.releasedAt = none → lease'.releasedAt = none → lease.taskId = lease'.taskId → id = id') ∧
    (∀ id lease task, c.store.leases.lookup id = some lease → c.store.tasks.lookup lease.taskId = some task →
      task.state ∉ concurrencyStates → lease.releasedAt.isSome) ∧
    (∀ id lease, c.store.leases.lookup id = some lease →
      ∃ task, c.store.tasks.lookup lease.taskId = some task ∧ lease.generation ≤ task.currentGeneration.getD 0) ∧
    (∀ id id' lease lease', c.store.leases.lookup id = some lease → c.store.leases.lookup id' = some lease' →
      lease.taskId = lease'.taskId → lease.generation = lease'.generation → id = id') ∧
    (∀ ops' c', Run (LeaseStep service) c ops' c' → ∀ id id' lease lease', c.store.leases.lookup id = some lease →
      c.store.leases.lookup id' = none → c'.store.leases.lookup id' = some lease' → lease.taskId = lease'.taskId →
        lease.generation < lease'.generation) := by
  have hnone : ∀ id, c₀.store.leases.lookup id = none := by
    intro id
    rw [hempty]
    exact Finmap.lookup_empty id
  have hstart : LeaseDiscipline c₀.store := by
    refine ⟨?_, ?_, ?_⟩
    · intro id lease hlease
      rw [hnone] at hlease
      cases hlease
    · intro id lease hlease
      rw [hnone] at hlease
      cases hlease
    · intro id id' lease lease' hlease
      rw [hnone] at hlease
      cases hlease
  have h := (leaseRun_keeps hstart hrun).1
  refine ⟨h.claimed, ?_, ?_, h.bounded, h.distinct, ?_⟩
  · intro id id' lease lease' hlease hlease' hopen hopen'
    exact h.unique hlease hopen hlease' hopen'
  · intro id lease task hlease htask hstate
    by_contra hopen
    obtain ⟨found, hfound, hcapacity, -⟩ := h.claimed id lease hlease (Option.not_isSome_iff_eq_none.mp hopen)
    rw [htask, Option.some_inj] at hfound
    exact hstate (hfound ▸ hcapacity)
  · intro ops' c' hrun' id id' lease lease' hlease hnew hlease'
    exact (leaseRun_keeps h hrun').2.greater id' lease' hlease' hnew id lease hlease

/-! ### A lease that the reconciler takes back, and the next one -/

def sampleControl : Control where
  store :=
    { tasks := (∅ : Docs String Task).insert "task_1" { tenantId := "eng", state := .ready }
      pools := ∅, leases := ∅, events := ∅, attempts := ∅, carries := ∅, carryIndexes := ∅, workflows := ∅ }
  platformRefusals := ∅
  parentTaskIds := ∅
  attemptRefs := ∅

def sampleAcquire (leaseId : String) : Op :=
  .acquireLease ⟨⟨⟨"task_1", "eng", none, "small", "claude-code"⟩, 1, "gke"⟩, ⟨leaseId, "att"⟩, none⟩ {} 0

def sampleRepair : Op :=
  .fenceReleaseRepair
    { taskId := some "task_1", expectedGeneration := some 1, leaseId := some "lease_1", releaseReason := "stale"
      repair := some { toState := .ready, expectedLeaseId := some "lease_1" } } 1

def sampleLeased : Control := (sampleAcquire "lease_1").apply sampleService sampleControl

def sampleRepaired : Control := sampleRepair.apply sampleService sampleLeased

def sampleLeasedAgain : Control := (sampleAcquire "lease_2").apply sampleService sampleRepaired

theorem leases_claimed_and_ordered_twice :
    (∃ task, sampleLeasedAgain.store.tasks.lookup "task_1" = some task ∧ task.state ∈ concurrencyStates ∧
      task.currentLeaseId = some "lease_2") ∧
    ∃ lease lease', sampleLeased.store.leases.lookup "lease_1" = some lease ∧
      sampleLeasedAgain.store.leases.lookup "lease_2" = some lease' ∧ lease.generation < lease'.generation := by
  have hfirst : LeaseStep sampleService sampleControl (sampleAcquire "lease_1") sampleLeased :=
    ⟨Finmap.lookup_empty _, trivial, rfl⟩
  have hrepair : LeaseStep sampleService sampleLeased sampleRepair sampleRepaired :=
    ⟨trivial, fun plan hplan => (by cases hplan; rfl), rfl⟩
  have hsecond : LeaseStep sampleService sampleRepaired (sampleAcquire "lease_2") sampleLeasedAgain :=
    ⟨show sampleRepaired.store.leases.lookup "lease_2" = none by decide, trivial, rfl⟩
  have hlater : Run (LeaseStep sampleService) sampleLeased [sampleRepair, sampleAcquire "lease_2"] sampleLeasedAgain :=
    (Run.one hrepair).append (Run.one hsecond)
  have hold : (sampleLeased.store.leases.lookup "lease_1").map (·.taskId) = some "task_1" := by decide
  have hnew : (sampleLeasedAgain.store.leases.lookup "lease_2").map (fun lease => (lease.taskId, lease.releasedAt)) =
      some ("task_1", none) := by decide
  obtain ⟨lease, hlease, htask⟩ := Option.map_eq_some_iff.mp hold
  obtain ⟨lease', hlease', heq⟩ := Option.map_eq_some_iff.mp hnew
  obtain ⟨htask', hopen⟩ := Prod.mk.inj heq
  refine ⟨?_, lease, lease', hlease, hlease', ?_⟩
  · rw [← htask']
    exact (leases_claimed_and_ordered rfl ((Run.one hfirst).append hlater)).1 "lease_2" lease' hlease' hopen
  · exact (leases_claimed_and_ordered rfl (Run.one hfirst)).2.2.2.2.2 _ _ hlater "lease_1" "lease_2" lease lease'
      hlease (show sampleLeased.store.leases.lookup "lease_2" = none by decide) hlease'
      (htask.trans htask'.symm)

end SwarmCloud.Scheduler
