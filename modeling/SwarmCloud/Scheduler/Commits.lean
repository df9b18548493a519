import SwarmCloud.Scheduler.Repair

/-! # What one transaction commits

Every transaction of the four services either leaves the tasks and the workflows
alone or rewrites one task, with at most one workflow; admission also mints leases.
The cases of each say under which guard it wrote what, and the invariants use these
and never unfold the transactions again.
-/

namespace SwarmCloud.Scheduler

open Common Lib AttemptState

variable {s s' s'' : Store}

/-! ## Leases -/

/-- The lease of the same task at the same generation, and released if it was. -/
structure SameLease (lease lease' : Admission.LeaseDoc) : Prop where
  taskId : lease'.taskId = lease.taskId
  generation : lease'.generation = lease.generation
  released : lease.releasedAt.isSome → lease'.releasedAt.isSome

theorem SameLease.refl (lease : Admission.LeaseDoc) : SameLease lease lease := ⟨rfl, rfl, id⟩

theorem SameLease.trans {l l' l'' : Admission.LeaseDoc} (h : SameLease l l') (h' : SameLease l' l'') :
    SameLease l l'' :=
  ⟨h'.taskId.trans h.taskId, h'.generation.trans h.generation, fun hl => h'.released (h.released hl)⟩

/-- No lease is added, dropped or reopened. -/
structure LeasesKept (s s' : Store) : Prop where
  forth : ∀ id lease, s.leases.lookup id = some lease →
    ∃ lease', s'.leases.lookup id = some lease' ∧ SameLease lease lease'
  back : ∀ id lease', s'.leases.lookup id = some lease' →
    ∃ lease, s.leases.lookup id = some lease ∧ SameLease lease lease'

theorem LeasesKept.of_eq (h : s'.leases = s.leases) : LeasesKept s s' where
  forth _ lease hlease := ⟨lease, h ▸ hlease, .refl lease⟩
  back _ lease hlease := ⟨lease, h ▸ hlease, .refl lease⟩

theorem LeasesKept.trans (h : LeasesKept s s') (h' : LeasesKept s' s'') : LeasesKept s s'' where
  forth id lease hlease := by
    obtain ⟨lease', hlease', hsame⟩ := h.forth id lease hlease
    obtain ⟨lease'', hlease'', hsame'⟩ := h'.forth id lease' hlease'
    exact ⟨lease'', hlease'', hsame.trans hsame'⟩
  back id lease'' hlease'' := by
    obtain ⟨lease', hlease', hsame'⟩ := h'.back id lease'' hlease''
    obtain ⟨lease, hlease, hsame⟩ := h.back id lease' hlease'
    exact ⟨lease, hlease, hsame.trans hsame'⟩

theorem LeasesKept.modify {leaseId : String} {write : Admission.LeaseDoc → Admission.LeaseDoc}
    (hwrite : ∀ lease, SameLease lease (write lease)) (h : s'.leases = s.leases.modify leaseId write) :
    LeasesKept s s' where
  forth id lease hlease := by
    rw [h, Docs.lookup_modify, hlease]
    split
    · exact ⟨write lease, rfl, hwrite lease⟩
    · exact ⟨lease, rfl, .refl lease⟩
  back id lease' hlease' := by
    rw [h, Docs.lookup_modify] at hlease'
    split at hlease'
    · obtain ⟨lease, hlease, rfl⟩ := Option.map_eq_some_iff.mp hlease'
      exact ⟨lease, hlease, hwrite lease⟩
    · exact ⟨lease', hlease', .refl lease'⟩

/-- Whatever lease has this id is released. -/
def Released (s : Store) (leaseId : String) : Prop :=
  ∀ lease, s.leases.lookup leaseId = some lease → lease.releasedAt.isSome

theorem releaseLease_kept (s : Store) (leaseId reason : String) (now : Instant) :
    LeasesKept s (s.releaseLease leaseId reason now).2 := by
  obtain hnone | ⟨d, freed, hfreed, hreleased⟩ :=
    Admission.releaseLease_cases ⟨∅, s.pools, s.leases⟩ leaseId reason now
  · rw [Store.releaseLease, hnone]
    exact .of_eq rfl
  · rw [Store.releaseLease, hfreed]
    refine LeasesKept.modify ?_ hreleased.leases_eq
    exact fun lease => ⟨rfl, rfl, fun _ => rfl⟩

theorem releaseLease_released (s : Store) (leaseId reason : String) (now : Instant) :
    Released (s.releaseLease leaseId reason now).2 leaseId := by
  intro lease hlease
  rw [Store.releaseLease] at hlease
  dsimp only at hlease
  obtain hnone | ⟨d, freed, hfreed, hreleased⟩ :=
    Admission.releaseLease_cases ⟨∅, s.pools, s.leases⟩ leaseId reason now
  · rw [hnone] at hlease
    -- The release found nothing to do: the lease was released before.
    by_contra hopen
    rw [Admission.releaseLeaseInTransaction] at hnone
    dsimp only at hnone hlease
    rw [hlease] at hnone
    dsimp only at hnone
    rw [if_neg hopen] at hnone
    cases (Prod.mk.inj hnone).1
  · rw [hfreed, hreleased.leases_eq, Docs.lookup_modify, if_pos rfl] at hlease
    obtain ⟨held, -, rfl⟩ := Option.map_eq_some_iff.mp hlease
    rfl

/-! ## Commits -/

/-- Tasks and workflows stay as they are. -/
structure Idle (s s' : Store) : Prop where
  tasks : s'.tasks = s.tasks
  workflows : s'.workflows = s.workflows
  leases : LeasesKept s s'

theorem Idle.refl (s : Store) : Idle s s := ⟨rfl, rfl, .of_eq rfl⟩

theorem Idle.trans (h : Idle s s') (h' : Idle s' s'') : Idle s s'' :=
  ⟨h'.tasks.trans h.tasks, h'.workflows.trans h.workflows, h.leases.trans h'.leases⟩

/-- One task is rewritten, with at most one workflow. -/
structure Commit (s s' : Store) (id : String) (before after : Task) (workflow : Option (String × Workflow)) :
    Prop where
  found : s.tasks.lookup id = some before
  tasks : ∀ other, s'.tasks.lookup other = if other = id then some after else s.tasks.lookup other
  workflows : s'.workflows = (s.setWorkflow workflow).workflows
  leases : LeasesKept s s'

namespace Commit

variable {id : String} {before after : Task} {workflow : Option (String × Workflow)}

theorem idle_left (h : Idle s s') (h' : Commit s' s'' id before after workflow) :
    Commit s s'' id before after workflow where
  found := h.tasks ▸ h'.found
  tasks other := by rw [h'.tasks other, h.tasks]
  workflows := by
    rw [h'.workflows]
    cases workflow with
    | none => exact h.workflows
    | some write => rw [Store.setWorkflow, Store.setWorkflow, h.workflows]
  leases := h.leases.trans h'.leases

theorem idle_right (h : Commit s s' id before after workflow) (h' : Idle s' s'') :
    Commit s s'' id before after workflow where
  found := h.found
  tasks other := by rw [h'.tasks, h.tasks other]
  workflows := h'.workflows.trans h.workflows
  leases := h.leases.trans h'.leases

end Commit

theorem setWorkflow_leases (s : Store) (workflow : Option (String × Workflow)) :
    (s.setWorkflow workflow).leases = s.leases := by
  cases workflow <;> rfl

theorem setWorkflow_tasks (s : Store) (workflow : Option (String × Workflow)) :
    (s.setWorkflow workflow).tasks = s.tasks := by
  cases workflow <;> rfl

theorem updateTask_commit {id : String} {before : Task} (hfound : s.tasks.lookup id = some before) (patch : Patch)
    (workflow : Option (String × Workflow)) :
    Commit s ((s.updateTask id patch).setWorkflow workflow) id before (patch.apply before) workflow where
  found := hfound
  tasks other := by
    rw [setWorkflow_tasks, Store.updateTask, Docs.lookup_modify]
    split
    · rename_i hother
      rw [hother, hfound]
      rfl
    · rfl
  workflows := by cases workflow <;> rfl
  leases := .of_eq (setWorkflow_leases _ workflow)

theorem setEvent_idle (s : Store) (event : Event) : Idle s (s.setEvent event) := ⟨rfl, rfl, .of_eq rfl⟩

theorem setEvents_idle (s : Store) (events : List Event) : Idle s (s.setEvents events) := by
  induction events generalizing s with
  | nil => exact .refl s
  | cons event events ih => exact (setEvent_idle s event).trans (ih (s.setEvent event))

theorem releaseLease_idle (s : Store) (leaseId reason : String) (now : Instant) :
    Idle s (s.releaseLease leaseId reason now).2 := ⟨rfl, rfl, releaseLease_kept s leaseId reason now⟩

theorem Idle.released (h : Idle s s') {leaseId : String} (hreleased : Released s leaseId) : Released s' leaseId := by
  intro lease' hlease'
  obtain ⟨lease, hlease, hsame⟩ := h.leases.back leaseId lease' hlease'
  exact hsame.released (hreleased lease hlease)

/-! ## The guarded writes -/

namespace Control

variable {c : Control}

theorem writeIfUnchanged_cases (c : Control) (write : String) (task : Snapshot) (patch : Patch) (sameParkReason : Bool)
    (patchFrom : Option (Task → Fields)) (now : Instant) :
    (c.writeIfUnchanged write task patch sameParkReason patchFrom now).2 = c ∨ ∃ stored metadata,
      c.store.tasks.lookup task.id = some stored ∧ stored.state = task.task.state ∧
      (sameParkReason → stored.parkReason = task.task.parkReason) ∧
      let written := { patch with metadata := metadata }
      (c.writeIfUnchanged write task patch sameParkReason patchFrom now).2 = c.writeTask task.id written
        (if patch.state.isSome then c.workflowWrite task.id task.task.tenantId (written.apply stored) now else none) := by
  unfold writeIfUnchanged
  cases hstored : c.store.tasks.lookup task.id with
  | none => exact .inl rfl
  | some stored =>
    dsimp only
    split
    · exact .inl rfl
    · rename_i hstate
      split
      · exact .inl rfl
      · rename_i hreason
        refine .inr ⟨stored, patchFrom.elim patch.metadata fun added => some (added stored), rfl,
          not_not.mp hstate, ?_, ?_⟩
        · intro hsame
          by_contra hne
          exact hreason ⟨hsame, hne⟩
        · cases patchFrom <;> rfl

/-- A guarded call that writes found the task in the state, and behind the park, of the snapshot. -/
theorem guarded_cases {call : GuardedCall} {task : Snapshot} {now : Instant} {answer : GuardedWrite} {c' : Control}
    (h : c.guarded call task now = .ok (answer, c')) :
    c' = c ∨ ∃ stored metadata, stored.state = task.task.state ∧
      (call.sameParkReason → stored.parkReason = task.task.parkReason) ∧
      call.invalid task.task.state = none ∧
      let after := Patch.apply { call.patch now with metadata := metadata } stored
      Commit c.store c'.store task.id stored after
        (if call.target.isSome then c.workflowWrite task.id task.task.tenantId after now else none) := by
  rw [guarded] at h
  split at h
  · cases h
  · rename_i hvalid
    have hwritten : (c.writeIfUnchanged call.write task (call.patch now) call.sameParkReason call.patchFrom now).2 = c' :=
      congrArg Prod.snd (Except.ok.inj h)
    obtain hsame | ⟨stored, metadata, hstored, hstate, hreason, heq⟩ := writeIfUnchanged_cases c call.write task
      (call.patch now) call.sameParkReason call.patchFrom now
    · exact .inl (hwritten.symm.trans hsame)
    · refine .inr ⟨stored, metadata, hstate, hreason, hvalid, ?_⟩
      dsimp only at heq ⊢
      rw [← hwritten, heq, GuardedCall.patch_state]
      exact updateTask_commit hstored _ _

theorem cancelIfNotStarted_cases (c : Control) (task : Snapshot) (reason : String) (endCause : EndCause)
    (now : Instant) :
    (c.cancelIfNotStarted task reason endCause now).2 = c ∨ ∃ stored, stored.state ∈ pendingStates ∧
      let after := (cancelIfNotStartedPatch reason endCause now).apply stored
      Commit c.store (c.cancelIfNotStarted task reason endCause now).2.store task.id stored after
        (c.workflowWrite task.id task.task.tenantId after now) := by
  rw [cancelIfNotStarted]
  cases hstored : c.store.tasks.lookup task.id with
  | none => exact .inl rfl
  | some stored =>
    dsimp only
    split
    · exact .inl rfl
    · rename_i hpending
      exact .inr ⟨stored, not_not.mp hpending, updateTask_commit hstored _ _⟩

theorem cancelChild_cases (c : Control) (x : Cascade) (now : Instant) :
    (c.cancelChild x now).2 = c ∨ ∃ stored, stored.tenantId = x.tenantId ∧
      let after := (cascadePatch x stored now).apply stored
      Commit c.store (c.cancelChild x now).2.store x.childId stored after
        (if stored.state ∈ pendingStates then c.workflowWrite x.childId x.tenantId after now else none) := by
  rw [cancelChild]
  cases hstored : c.store.tasks.lookup x.childId with
  | none => exact .inl rfl
  | some stored =>
    dsimp only
    split
    · exact .inl rfl
    · rename_i hidentity
      split
      · exact .inl rfl
      · split
        · exact .inl rfl
        · refine .inr ⟨stored, ?_, ?_⟩
          · by_contra hne
            exact hidentity (.inl hne)
          · have hwritten := updateTask_commit hstored (cascadePatch x stored now)
              (if stored.state ∈ pendingStates then
                c.workflowWrite x.childId x.tenantId ((cascadePatch x stored now).apply stored) now else none)
            simp only [decide_eq_true_eq]
            exact hwritten.idle_right ⟨rfl, rfl, .of_eq rfl⟩

/-! ## Dispatch -/

theorem leaseRefusal_eq_none {stored : Option Task} {lease : Admission.Lease} (h : leaseRefusal stored lease = none) :
    ∃ task, stored = some task ∧ task.state = .leased ∧ task.currentLeaseId = some lease.leaseId := by
  cases stored with
  | none => cases h
  | some task =>
    rw [leaseRefusal] at h
    split at h
    · cases h
    · split at h
      · cases h
      · rename_i hlease
        split at h
        · cases h
        · rename_i hstate
          split at h
          · cases h
          · rename_i hheld
            refine ⟨task, rfl, not_not.mp hstate, ?_⟩
            cases hid : task.currentLeaseId with
            | none =>
              rw [hid] at hheld
              exact absurd rfl hheld
            | some id =>
              rw [hid] at hlease
              have hsame : id = lease.leaseId := by simpa using hlease
              rw [hsame]

theorem markDispatched_cases (c : Control) (task : Snapshot) (lease : Admission.Lease) (executionName : String)
    (now : Instant) :
    Idle c.store (c.markDispatched task lease executionName now).2.store ∨ ∃ stored, stored.state = .leased ∧
      Commit c.store (c.markDispatched task lease executionName now).2.store task.id stored
        (Patch.apply { state := some .dispatched, updatedAt := some now } stored) none := by
  have hrelabel : ∀ s : Store, Idle s { s with leases := s.leases.modify lease.leaseId fun held =>
      if held.releasedAt.isNone ∧ held.state = .leased then { held with state := .dispatched } else held } := by
    intro s
    refine ⟨rfl, rfl, LeasesKept.modify ?_ rfl⟩
    intro held
    split
    · exact ⟨rfl, rfl, id⟩
    · exact .refl held
  rw [markDispatched]
  cases hrefusal : leaseRefusal (c.store.tasks.lookup task.id) lease with
  | some refusal => exact .inl (hrelabel c.store)
  | none =>
    obtain ⟨stored, hstored, hstate, -⟩ := leaseRefusal_eq_none hrefusal
    exact .inr ⟨stored, hstate, (updateTask_commit hstored _ none).idle_right (hrelabel _)⟩

theorem endAttempt_idle (c : Control) (x : FailedDispatch) (stored : Option Task) (returned : Bool) (now : Instant) :
    Idle c.store (c.endAttempt x stored returned now).store := by
  rw [endAttempt]
  split
  · split
    · exact .refl _
    · split
      · exact .refl _
      · exact ⟨rfl, rfl, .of_eq rfl⟩
  · exact .refl _

theorem returned_commit {released : Control} {x : FailedDispatch} {stored : Task} (now : Instant)
    (hidle : Idle c.store released.store) (hfound : c.store.tasks.lookup x.task.id = some stored) (reclaim : Bool) :
    let patch := x.returnPatch stored (c.platformRefusals.lookup x.task.id) reclaim now
    Commit c.store (c.returned x stored reclaim now released).store x.task.id stored (patch.apply stored)
      (c.workflowWrite x.task.id x.task.task.tenantId (patch.apply stored) now) := by
  rw [returned]
  dsimp only
  refine Commit.idle_right ?_ (endAttempt_idle _ _ _ _ _)
  have hwritten := (updateTask_commit (hidle.tasks ▸ hfound)
    (x.returnPatch stored (c.platformRefusals.lookup x.task.id) reclaim now)
    (c.workflowWrite x.task.id x.task.task.tenantId
      ((x.returnPatch stored (c.platformRefusals.lookup x.task.id) reclaim now).apply stored) now)).idle_left hidle
  split
  · exact hwritten
  · exact hwritten

theorem endAttempt_leases (c : Control) (x : FailedDispatch) (stored : Option Task) (returned : Bool) (now : Instant) :
    (c.endAttempt x stored returned now).store.leases = c.store.leases := by
  rw [endAttempt]
  split
  · split
    · rfl
    · split
      · rfl
      · rfl
  · rfl

theorem returned_leases (c released : Control) (x : FailedDispatch) (stored : Task) (reclaim : Bool) (now : Instant) :
    (c.returned x stored reclaim now released).store.leases = released.store.leases := by
  rw [returned, endAttempt_leases]
  split
  · exact setWorkflow_leases _ _
  · exact setWorkflow_leases _ _

/-- A return that writes found the task holding capacity on this lease, and leaves the lease released. -/
theorem returnToReady_cases (c : Control) (x : FailedDispatch) (now : Instant) :
    Idle c.store (c.returnToReady x now).2.store ∨ ∃ stored reclaim,
      stored.state ∈ concurrencyStates ∧ stored.currentLeaseId = some x.lease.leaseId ∧
      Released (c.returnToReady x now).2.store x.lease.leaseId ∧
      let patch := x.returnPatch stored (c.platformRefusals.lookup x.task.id) reclaim now
      Commit c.store (c.returnToReady x now).2.store x.task.id stored (patch.apply stored)
        (c.workflowWrite x.task.id x.task.task.tenantId (patch.apply stored) now) := by
  have hreleased : Idle c.store (c.released x now).store := releaseLease_idle _ _ _ _
  rw [returnToReady]
  cases hstored : c.store.tasks.lookup x.task.id with
  | none => exact .inl (hreleased.trans (endAttempt_idle _ _ _ _ _))
  | some stored =>
    dsimp only
    split
    · rename_i hfenced
      obtain ⟨hstate, -, hpoints⟩ := hfenced
      split
      · exact .inl (.refl _)
      · rename_i hgone
        have hcommit := returned_commit now (.refl c.store) hstored true
        refine .inr ⟨stored, true, hstate, of_decide_eq_true hpoints, ?_, hcommit⟩
        intro lease hlease
        obtain ⟨held, hheld, hsame⟩ := hcommit.leases.back _ _ hlease
        refine hsame.released ?_
        rw [hheld] at hgone
        simpa [Option.isSome_iff_ne_none] using hgone
    · split
      · exact .inl (.refl _)
      · split
        · exact .inl (hreleased.trans (endAttempt_idle _ _ _ _ _))
        · rename_i hrefusal
          obtain ⟨task, htask, hleased, hheld⟩ := leaseRefusal_eq_none (Option.not_isSome_iff_eq_none.mp hrefusal)
          obtain rfl := Option.some.inj htask
          have hcommit := returned_commit now hreleased hstored false
          refine .inr ⟨stored, false, by rw [hleased]; decide, hheld, ?_, hcommit⟩
          intro lease hlease
          rw [returned_leases] at hlease
          exact releaseLease_released _ _ _ _ lease hlease

end Control

/-! ## The routes -/

section Routes

variable {service : Service} {a : AttemptTuple} {given : Given} {answer : Answer} {task : Task}

/-- What the fence found of an attempt that owns its task. -/
structure Owned (s : Store) (a : AttemptTuple) (task : Task) : Prop where
  found : s.tasks.lookup a.taskId = some task
  tenantId : task.tenantId = a.tenantId
  capacity : task.state ∈ concurrencyStates
  lease : ∃ lease, s.leases.lookup a.leaseId = some lease ∧ lease.releasedAt = none ∧ lease.taskId = a.taskId

theorem fenced_owned (h : s.fenced a = .ok task) : Owned s a task := by
  rw [Store.fenced] at h
  split at h
  · cases h
  · rename_i found hfound
    split at h
    · cases h
    · rename_i hreason
      obtain rfl := Except.ok.inj h
      simp only [fenceReason] at hreason
      split at hreason
      · cases hreason
      · rename_i htenant
        split at hreason
        · cases hreason
        · split at hreason
          · cases hreason
          · split at hreason
            · cases hreason
            · rename_i hcapacity
              split at hreason
              · cases hreason
              · rename_i lease hlease
                split at hreason
                · cases hreason
                · split at hreason
                  · cases hreason
                  · rename_i hopen
                    split at hreason
                    · cases hreason
                    · split at hreason
                      · cases hreason
                      · rename_i hattempt
                        refine ⟨hfound, not_not.mp htenant, not_not.mp hcapacity, lease, hlease, ?_, ?_⟩
                        · exact Option.not_isSome_iff_eq_none.mp hopen
                        · by_contra hne
                          exact hattempt (.inl hne)

theorem requested_ok {eventId : String} {apply : Task → Except Refusal (Store × Answer)}
    (h : s.requested a eventId apply = .ok (s', answer)) :
    s' = s ∨ ∃ task, Owned s a task ∧ apply task = .ok (s', answer) := by
  rw [Store.requested] at h
  split at h
  · cases h
  · exact .inl (congrArg Prod.fst (Except.ok.inj h)).symm
  · split at h
    · cases h
    · rename_i task hfenced
      exact .inr ⟨task, fenced_owned hfenced, h⟩

theorem endWrites_commit (hfound : s.tasks.lookup a.taskId = some task) (given : Given) (releaseReason : String)
    (patch : Patch) (workflow : Option (String × Workflow)) (exitCode : Option Int) (error : Option String)
    (events : List Event) :
    Commit s (s.endWrites a given releaseReason patch workflow exitCode error events) a.taskId task
      (patch.apply task) workflow ∧
    Released (s.endWrites a given releaseReason patch workflow exitCode error events) a.leaseId := by
  have hfreed := releaseLease_idle s a.leaseId releaseReason given.now
  have hupdated := (updateTask_commit (s := (s.releaseLease a.leaseId releaseReason given.now).2) hfound patch
    workflow).idle_left hfreed
  have hended : ∀ s : Store, Idle s (s.endAttempt a given.now exitCode error) := fun s => ⟨rfl, rfl, .of_eq rfl⟩
  refine ⟨(hupdated.idle_right (hended _)).idle_right (setEvents_idle _ _), ?_⟩
  have hreleased : Released ((((s.releaseLease a.leaseId releaseReason given.now).2.updateTask a.taskId
      patch).setWorkflow workflow).endAttempt a given.now exitCode error) a.leaseId := by
    intro lease hlease
    refine releaseLease_released s a.leaseId releaseReason given.now lease ?_
    have hleases := setWorkflow_leases ((s.releaseLease a.leaseId releaseReason given.now).2.updateTask a.taskId patch)
      workflow
    rw [← hlease]
    exact congrArg (Finmap.lookup a.leaseId) hleases.symm
  exact (setEvents_idle _ _).released hreleased

/-- What a route writes of the task, with the decision behind it. -/
inductive RouteWrite (service : Service) (a : AttemptTuple) (task : Task) (now : Instant) : Patch → Prop
  | walk {dst : TaskState} {patch : Patch} (hdst : (Store.walkEvent dst).isSome) (hstate : patch.state = some dst)
      (hlease : patch.currentLeaseId = none) (hcount : patch.attemptCount = none) : RouteWrite service a task now patch
  | park {reason : ParkReason} {body : ParkBody} {plan : ParkPlan}
      (hplan : parkPayload service task reason body a now = .ok plan) (totals : Option Value) :
      RouteWrite service a task now { plan.patch with attemptTotals := totals }
  | finish {dst : TaskState} {patch : Patch} (hdst : (Store.terminalEvent dst).isSome) (hstate : patch.state = some dst)
      (hlease : patch.currentLeaseId = some none) (hcount : patch.attemptCount = none) :
      RouteWrite service a task now patch
  | retry {patch : Patch} (hstate : patch.state = some (Store.retryTarget task).1)
      (hlease : patch.currentLeaseId = some none) (hcount : patch.attemptCount = none) :
      RouteWrite service a task now patch

/-- One applied route: the task it owned, the update, and the lease it gave back if it did. -/
def RouteCommit (service : Service) (a : AttemptTuple) (given : Given) (s s' : Store) : Prop :=
  ∃ task patch, Owned s a task ∧ RouteWrite service a task given.now patch ∧
    Commit s s' a.taskId task (patch.apply task)
      (derivedStateWrite s a.tenantId [(a.taskId, patch.apply task)] task.workflowId given.now) ∧
    (patch.currentLeaseId = some none → Released s' a.leaseId)

theorem RouteCommit.idle_right (h : RouteCommit service a given s s') (h' : Idle s' s'') :
    RouteCommit service a given s s'' := by
  obtain ⟨task, patch, howned, hwrite, hcommit, hreleased⟩ := h
  exact ⟨task, patch, howned, hwrite, hcommit.idle_right h', fun hcleared => h'.released (hreleased hcleared)⟩

theorem endWrites_routeCommit {patch : Patch} (howned : Owned s a task)
    (hwrite : RouteWrite service a task given.now patch) (releaseReason : String) (exitCode : Option Int)
    (error : Option String) (events : List Event) :
    RouteCommit service a given s (s.endWrites a given releaseReason patch (s.workflowWrite a task patch given.now)
      exitCode error events) := by
  obtain ⟨hcommit, hreleased⟩ := endWrites_commit howned.found given releaseReason patch
    (s.workflowWrite a task patch given.now) exitCode error events
  refine ⟨task, patch, howned, hwrite, ?_, fun _ => hreleased⟩
  have hderived : s.workflowWrite a task patch given.now =
      derivedStateWrite s a.tenantId [(a.taskId, patch.apply task)] task.workflowId given.now :=
    store_derivedStateWrite s a task.workflowId (patch.apply task) given.now
  exact hderived ▸ hcommit

theorem recordCarry_idle (s : Store) (a : AttemptTuple) (uploads : List Value) (now : Instant) :
    Idle s (s.recordCarry a uploads now) := ⟨rfl, rfl, .of_eq rfl⟩

theorem transition_commit {body : TransitionBody} (h : s.transition service a body given = .ok (s', answer)) :
    s' = s ∨ RouteCommit service a given s s' := by
  rw [Store.transition] at h
  split at h
  · cases h
  · rename_i dst _
    split at h
    · cases h
    · rename_i kind hkind
      split at h
      · cases h
      · obtain hsame | ⟨task, howned, happly⟩ := requested_ok h
        · exact .inl hsame
        · rw [Store.transitionTask] at happly
          split at happly
          · exact .inl (congrArg Prod.fst (Except.ok.inj happly)).symm
          · split at happly
            · cases happly
            · obtain ⟨rfl, -⟩ := Prod.mk.inj (Except.ok.inj happly)
              have hwrite : RouteWrite service a task given.now
                  { state := some dst, updatedAt := some given.now
                    startedAt := if dst = .starting then some given.now else none } :=
                .walk (by rw [hkind]; rfl) rfl rfl rfl
              refine .inr ⟨task, _, howned, hwrite, ?_, ?_⟩
              · rw [Store.workflowWrite, store_derivedStateWrite]
                have hevent := setEvent_idle s (event a kind (body.detail.set "request_id" (.str body.requestId)) given.now
                  (requestEventId service a "transition" body.requestId))
                exact Commit.idle_left hevent (updateTask_commit (hevent.tasks ▸ howned.found) _ _)
              · rintro ⟨⟩

theorem park_commit {body : ParkBody} (h : s.park service a body given = .ok (s', answer)) :
    s' = s ∨ RouteCommit service a given s s' := by
  rw [Store.park] at h
  split at h
  · cases h
  · split at h
    · cases h
    · split at h
      · cases h
      · split at h
        · cases h
        · split at h
          · cases h
          · obtain hsame | ⟨task, howned, happly⟩ := requested_ok h
            · exact .inl hsame
            · rw [Store.parkTask] at happly
              split at happly
              · cases happly
              · split at happly
                · cases happly
                · split at happly
                  · cases happly
                  · rename_i plan hplan
                    split at happly
                    · cases happly
                    · obtain ⟨rfl, -⟩ := Prod.mk.inj (Except.ok.inj happly)
                      split
                      · exact .inr (endWrites_routeCommit howned (.park hplan given.totals) _ _ _ _)
                      · refine .inr (RouteCommit.idle_right ?_ (recordCarry_idle _ a body.uploads given.now))
                        exact endWrites_routeCommit howned (.park hplan given.totals) _ _ _ _

theorem finish_commit {body : FinishBody} (h : s.finish service a body given = .ok (s', answer)) :
    s' = s ∨ RouteCommit service a given s s' := by
  rw [Store.finish] at h
  split at h
  · cases h
  · split at h
    · cases h
    · rename_i kind hkind
      split at h
      · cases h
      · split at h
        · cases h
        · obtain hsame | ⟨task, howned, happly⟩ := requested_ok h
          · exact .inl hsame
          · rw [Store.finishTask] at happly
            split at happly
            · cases happly
            · obtain ⟨rfl, -⟩ := Prod.mk.inj (Except.ok.inj happly)
              refine .inr (endWrites_routeCommit howned ?_ _ _ _ _)
              exact .finish (by rw [hkind]; rfl) rfl rfl rfl

theorem retry_commit {body : RetryBody} (h : s.retry service a body given = .ok (s', answer)) :
    s' = s ∨ RouteCommit service a given s s' := by
  rw [Store.retry] at h
  split at h
  · cases h
  · split at h
    · cases h
    · split at h
      · cases h
      · split at h
        · cases h
        · obtain hsame | ⟨task, howned, happly⟩ := requested_ok h
          · exact .inl hsame
          · rw [Store.retryWrites] at happly
            dsimp only at happly
            split at happly
            · cases happly
            · obtain ⟨rfl, -⟩ := Prod.mk.inj (Except.ok.inj happly)
              refine .inr (endWrites_routeCommit howned ?_ _ _ _ _)
              rw [Store.retryPatch]
              split
              · exact .retry rfl rfl rfl
              · exact .retry rfl rfl rfl

theorem heartbeat_idle (h : s.heartbeat service a given = .ok (s', answer)) : Idle s s' := by
  rw [Store.heartbeat] at h
  split at h
  · cases h
  · obtain ⟨rfl, -⟩ := Prod.mk.inj (Except.ok.inj h)
    refine ⟨rfl, rfl, LeasesKept.modify ?_ rfl⟩
    exact fun lease => ⟨rfl, rfl, id⟩

/-- A call of a worker leaves the tasks alone or commits one write. -/
theorem call_commit {request : Request} (h : request.call service s a given = .ok (s', answer)) :
    Idle s s' ∨ RouteCommit service a given s s' := by
  have hidle : ∀ {s₁ : Store}, s₁ = s → Idle s s₁ := fun hsame => hsame ▸ .refl _
  cases request with
  | transition body => exact (transition_commit h).imp_left hidle
  | park body => exact (park_commit h).imp_left hidle
  | finish body => exact (finish_commit h).imp_left hidle
  | retry body => exact (retry_commit h).imp_left hidle
  | heartbeat => exact .inl (heartbeat_idle h)

end Routes

/-! ## The reconciler -/

section Reconciler

variable {c : Control} {x : RepairCall} {now : Instant}

theorem fenceDecision_eq_some {task : Task} {expected generation : Int} {onlyFrom : Option (List TaskState)}
    {unlessHoldingLease : Option String}
    (h : Store.fenceDecision task expected onlyFrom unlessHoldingLease = some generation) :
    generation = task.currentGeneration.getD 0 + 1 := by
  rw [Store.fenceDecision] at h
  split at h
  · cases h
  · split at h
    · cases h
    · split at h
      · cases h
      · split at h
        · cases h
        · rename_i hexpected
          rw [← Option.some.inj h, not_not.mp hexpected]

theorem repairDecision_eq_some {plan : RepairPlan} {data : Task} {onlyFrom : Option (List TaskState)}
    {fencedGeneration : Option Int} {target : TaskState} {patch : Patch}
    (h : plan.repairDecision data onlyFrom fencedGeneration now = some (target, patch)) :
    (∀ leaseId, data.currentLeaseId = some leaseId → plan.expectedLeaseId = some leaseId) ∧
      patch.currentLeaseId = some none := by
  rw [RepairPlan.repairDecision] at h
  split at h
  · cases h
  · split at h
    · cases h
    · split at h
      · cases h
      · rename_i hheld
        dsimp only at h
        split at h
        · cases h
        · split at h
          · cases h
          · refine ⟨fun leaseId hid => ?_, ?_⟩
            · by_contra hne
              exact hheld ⟨by rw [hid]; rfl, fun heq => hne (heq ▸ hid)⟩
            · obtain ⟨-, rfl⟩ := Prod.mk.inj (Option.some.inj h)
              rw [RepairPlan.repairPatch]
              split
              · rfl
              · rfl

namespace RepairCall

theorem newGeneration_eq_some {taskId : String} {stored : Task} (hid : x.taskId = some taskId)
    (hstored : c.store.tasks.lookup taskId = some stored) {generation : Int}
    (h : x.newGeneration c = some generation) : generation = stored.currentGeneration.getD 0 + 1 := by
  have htask : x.task c = some stored := by rw [task, hid, Option.bind_some, hstored]
  rw [newGeneration, htask] at h
  split at h
  · rename_i found expected hfound _
    obtain rfl := Option.some.inj hfound
    exact fenceDecision_eq_some h
  · cases h

theorem decided_eq_some {taskId : String} {stored : Task} (hid : x.taskId = some taskId)
    (hstored : c.store.tasks.lookup taskId = some stored) {target : TaskState} {patch : Patch}
    (h : x.decided c now = some (target, patch)) :
    x.refused c = false ∧ patch.currentLeaseId = some none ∧ ∃ plan, x.repair = some plan ∧
      ∀ leaseId, stored.currentLeaseId = some leaseId → plan.expectedLeaseId = some leaseId := by
  rw [decided] at h
  split at h
  · rename_i plan after hplan hafter
    split at h
    · cases h
    · rename_i hrefused
      obtain ⟨hheld, hcleared⟩ := repairDecision_eq_some h
      refine ⟨Bool.eq_false_of_not_eq_true hrefused, hcleared, plan, hplan, ?_⟩
      have hsame : after.currentLeaseId = stored.currentLeaseId := by
        rw [RepairCall.after, task, hid, Option.bind_some, hstored, Option.map_some, Option.some_inj] at hafter
        rw [← hafter]
        split
        · rfl
        · rfl
      rwa [hsame] at hheld
  · cases h

theorem written_generation {taskId : String} {stored : Task} (hid : x.taskId = some taskId)
    (hstored : c.store.tasks.lookup taskId = some stored) (now : Instant) :
    stored.currentGeneration.getD 0 ≤ (x.written c now stored).currentGeneration.getD 0 := by
  have hfenced : ∀ generation, x.newGeneration c = some generation →
      stored.currentGeneration.getD 0 ≤ generation := by
    intro generation hgeneration
    rw [newGeneration_eq_some hid hstored hgeneration]
    omega
  rw [written]
  cases hgeneration : x.newGeneration c with
  | none =>
    cases x.decided c now with
    | none => exact le_refl _
    | some _ => exact le_refl _
  | some generation =>
    cases x.decided c now with
    | none => exact hfenced generation hgeneration
    | some _ => exact hfenced generation hgeneration

end RepairCall

theorem freed_idle (c : Control) (x : RepairCall) (now : Instant) : Idle c.store (x.freed c now).2 := by
  rw [RepairCall.freed]
  split
  · split
    · exact .refl _
    · exact releaseLease_idle _ _ _ _
  · exact .refl _

theorem freed_released (hrefused : x.refused c = false) {leaseId : String} (hid : x.leaseId = some leaseId) :
    Released (x.freed c now).2 leaseId := by
  rw [RepairCall.freed, hid]
  cases hlease : x.lease c with
  | none =>
    intro lease hfound
    rw [RepairCall.lease, hid, Option.bind_some] at hlease
    rw [hlease] at hfound
    cases hfound
  | some lease =>
    dsimp only
    rw [hrefused, if_neg Bool.false_ne_true]
    exact releaseLease_released _ _ _ _

theorem fenceReleaseRepair_idle (h : x.resumed c now = true ∨ x.taskId.bind c.store.tasks.lookup = none) :
    Idle c.store (c.fenceReleaseRepair x now).2.store := by
  rw [Control.fenceReleaseRepair]
  split
  · exact .refl _
  · rename_i hgo
    have hfreed := freed_idle c x now
    obtain hresumed | htask := h
    · exact absurd hresumed hgo
    · cases hid : x.taskId with
      | none => exact ⟨hfreed.tasks, hfreed.workflows, hfreed.leases.trans (.of_eq rfl)⟩
      | some taskId =>
        rw [hid, Option.bind_some] at htask
        refine ⟨?_, hfreed.workflows, hfreed.leases.trans (.of_eq rfl)⟩
        change Docs.modify taskId _ (x.freed c now).2.tasks = _
        rw [hfreed.tasks, Docs.modify, htask]

theorem fenceReleaseRepair_commit {taskId : String} {stored : Task} (hgo : x.resumed c now = false)
    (hid : x.taskId = some taskId) (hstored : c.store.tasks.lookup taskId = some stored) :
    Commit c.store (c.fenceReleaseRepair x now).2.store taskId stored (x.written c now stored) none ∧
      (c.fenceReleaseRepair x now).2.store.leases = (x.freed c now).2.leases := by
  have hfreed := freed_idle c x now
  rw [Control.fenceReleaseRepair, hgo, if_neg Bool.false_ne_true, hid]
  refine ⟨⟨hstored, ?_, hfreed.workflows, hfreed.leases.trans (.of_eq rfl)⟩, rfl⟩
  intro other
  change (Docs.modify taskId (x.written c now) (x.freed c now).2.tasks).lookup other = _
  rw [hfreed.tasks, Docs.lookup_modify]
  split
  · rename_i hother
    rw [hother, hstored]
    rfl
  · rfl

/-- A repair that writes leaves the task on its lease, or leaves that lease released. -/
theorem fenceReleaseRepair_cases (c : Control) {x : RepairCall} (now : Instant)
    (hplan : ∀ plan, x.repair = some plan → plan.expectedLeaseId = x.leaseId) :
    Idle c.store (c.fenceReleaseRepair x now).2.store ∨ ∃ taskId stored,
      stored.currentGeneration.getD 0 ≤ (x.written c now stored).currentGeneration.getD 0 ∧
      Commit c.store (c.fenceReleaseRepair x now).2.store taskId stored (x.written c now stored) none ∧
      ((x.written c now stored).state = stored.state ∧
          (x.written c now stored).currentLeaseId = stored.currentLeaseId ∨
        ∀ leaseId, stored.currentLeaseId = some leaseId → Released (c.fenceReleaseRepair x now).2.store leaseId) := by
  cases hgo : x.resumed c now with
  | true => exact .inl (fenceReleaseRepair_idle (.inl hgo))
  | false =>
    cases htask : x.taskId.bind c.store.tasks.lookup with
    | none => exact .inl (fenceReleaseRepair_idle (.inr htask))
    | some stored =>
      obtain ⟨taskId, hid, hstored⟩ := Option.bind_eq_some_iff.mp htask
      obtain ⟨hcommit, hleases⟩ := fenceReleaseRepair_commit hgo hid hstored
      refine .inr ⟨taskId, stored, x.written_generation hid hstored now, hcommit, ?_⟩
      cases hdecided : x.decided c now with
      | none =>
        refine .inl ?_
        rw [RepairCall.written, hdecided]
        cases x.newGeneration c <;> exact ⟨rfl, rfl⟩
      | some decision =>
        obtain ⟨hrefused, -, plan, hrepair, hheld⟩ := RepairCall.decided_eq_some hid hstored hdecided
        refine .inr fun leaseId hcurrent lease hlease => ?_
        have hexpected : x.leaseId = some leaseId := (hplan plan hrepair).symm.trans (hheld leaseId hcurrent)
        rw [hleases] at hlease
        exact freed_released hrefused hexpected lease hlease

end Reconciler

end SwarmCloud.Scheduler
