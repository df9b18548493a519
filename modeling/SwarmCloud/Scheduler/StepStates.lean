import SwarmCloud.Rollup.Readings
import SwarmCloud.Scheduler.Leases

/-! # The stored state of a workflow never lags

Whoever moves a step derives the state of its workflow in the same transaction, from
the step as the transaction will leave it. The few writes that do not derive it leave
every step's share of it as it was.
-/

namespace SwarmCloud.Scheduler

open Common Lib AttemptState

variable {s s' : Store} {tenantId workflowId : String} {changed changed' : Dict String Task}
  {steps : List Rollup.WorkflowStep}

/-! ## Readings -/

/-- The state of a task of this tenant, as a transaction that writes `changed` leaves it. -/
def stepState (s : Store) (tenantId : String) (changed : Dict String Task) (id : String) : Option TaskState :=
  (((changed.lookup id).or (s.tasks.lookup id)).filter fun task => task.tenantId = tenantId).map Task.state

/-- The ids of the steps' tasks. -/
def stepTaskIds (steps : List Rollup.WorkflowStep) : List String := steps.filterMap Rollup.WorkflowStep.task

theorem lookup_stepStates {id : String} (h : id ∈ stepTaskIds steps) :
    ((stepDocs s tenantId changed steps).foldl (fun states item => match item.2 with
      | some task => states.insert item.1 task.state
      | none => states) (∅ : Docs String TaskState)).lookup id = stepState s tenantId changed id := by
  have hother : ∀ (m : Docs String TaskState) (item : String × Option Task) (k : String), k ≠ item.1 →
      (match item.2 with
        | some task => m.insert item.1 task.state
        | none => m).lookup k = m.lookup k := by
    intro m item k hk
    split
    · rw [Docs.lookup_insert_eq, if_neg hk]
    · rfl
  have hself : ∀ (m m' : Docs String TaskState) (item : String × Option Task), m.lookup item.1 = m'.lookup item.1 →
      (match item.2 with
        | some task => m.insert item.1 task.state
        | none => m).lookup item.1 =
      (match item.2 with
        | some task => m'.insert item.1 task.state
        | none => m').lookup item.1 := by
    intro m m' item hsame
    split
    · rw [Docs.lookup_insert_eq, Docs.lookup_insert_eq, if_pos rfl, if_pos rfl]
    · exact hsame
  have hkeys : ((stepDocs s tenantId changed steps).map Prod.fst).Nodup := by
    rw [stepDocs, List.map_map]
    exact (List.map_id _).symm ▸ List.nodup_dedup _
  have hmem : (id, ((changed.lookup id).or (s.tasks.lookup id)).filter fun task => task.tenantId = tenantId) ∈
      stepDocs s tenantId changed steps :=
    List.mem_map.mpr ⟨id, List.mem_dedup.mpr h, rfl⟩
  refine (Docs.lookup_foldl_of_mem hother hself hkeys hmem ∅).trans ?_
  rw [stepState]
  cases ((changed.lookup id).or (s.tasks.lookup id)).filter fun task => task.tenantId = tenantId with
  | none => exact Finmap.lookup_empty id
  | some task => exact (Docs.lookup_insert_eq _ _ _ _).trans (if_pos rfl)

theorem stepReadings_bare (s : Store) (tenantId : String) (changed : Dict String Task)
    (steps : List Rollup.WorkflowStep) :
    (stepReadings s tenantId changed steps).map Rollup.StepReading.bare = steps.map fun step =>
      { stepId := step.stepId, taskId := step.task, state := step.task.bind (stepState s tenantId changed) } := by
  rw [stepReadings, Rollup.readSteps, List.map_map]
  apply List.map_congr_left
  intro step hstep
  rw [Function.comp_apply, Rollup.readStep]
  cases htask : step.task with
  | none => rfl
  | some id =>
    have hid : id ∈ stepTaskIds steps := List.mem_filterMap.mpr ⟨step, hstep, htask⟩
    rw [Option.bind_some, ← lookup_stepStates hid]
    rfl

theorem stepState_stored {id : String} {task : Task} (hfound : s.tasks.lookup id = some task) (tenantId : String) :
    stepState s tenantId [] id = if task.tenantId = tenantId then some task.state else none := by
  rw [stepState, hfound, List.lookup_nil, Option.none_or, Option.filter_some]
  by_cases hown : task.tenantId = tenantId
  · simp [hown]
  · simp [hown]

theorem mem_stepReadings (s : Store) (tenantId : String) (changed : Dict String Task) {id : String}
    (h : id ∈ stepTaskIds steps) :
    ∃ r ∈ stepReadings s tenantId changed steps, r.state = stepState s tenantId changed id := by
  obtain ⟨step, hstep, htask⟩ := List.mem_filterMap.mp h
  have hbare : (⟨step.stepId, step.task, step.task.bind (stepState s tenantId changed), false, false⟩ :
      Rollup.StepReading) ∈ (stepReadings s tenantId changed steps).map Rollup.StepReading.bare := by
    rw [stepReadings_bare]
    exact List.mem_map.mpr ⟨step, hstep, rfl⟩
  obtain ⟨r, hr, heq⟩ := List.mem_map.mp hbare
  refine ⟨r, hr, ?_⟩
  have hstate := congrArg Rollup.StepReading.state heq
  rw [htask, Option.bind_some] at hstate
  exact hstate

/-- The derived state reads each step's task once and nothing else. -/
theorem derive_stepReadings_congr
    (h : ∀ id ∈ stepTaskIds steps, stepState s tenantId changed id = stepState s' tenantId changed' id) :
    (Rollup.derive (stepReadings s tenantId changed steps)).state =
      (Rollup.derive (stepReadings s' tenantId changed' steps)).state := by
  apply Rollup.derive_congr
  rw [stepReadings_bare, stepReadings_bare]
  apply List.map_congr_left
  intro step hstep
  cases htask : step.task with
  | none => rfl
  | some id =>
    rw [Option.bind_some, Option.bind_some, h id (List.mem_filterMap.mpr ⟨step, hstep, htask⟩)]

/-! ## A workflow in step with its tasks -/

/-- Every step's task is there, of this tenant and naming this workflow. -/
def Stepped (s : Store) (workflowId tenantId : String) (steps : List Rollup.WorkflowStep) : Prop :=
  ∀ id ∈ stepTaskIds steps, ∃ task, s.tasks.lookup id = some task ∧ task.tenantId = tenantId ∧
    task.workflowId = some workflowId

/-- The workflow's document, whose state is the one derived from its steps as they are stored. -/
structure InStep (s : Store) (workflowId tenantId : String) (steps : List Rollup.WorkflowStep) : Prop where
  named : workflowId ≠ ""
  stepped : Stepped s workflowId tenantId steps
  derived : ∃ workflow, s.workflows.lookup workflowId = some workflow ∧ workflow.tenantId = tenantId ∧
    workflow.steps = steps ∧ (Rollup.derive (stepReadings s tenantId [] steps)).state = .known workflow.state

/-- With its steps' tasks there, a workflow that has steps has a state. -/
theorem Stepped.readable (h : Stepped s workflowId tenantId steps) (hne : steps ≠ []) :
    Rollup.Readable (stepReadings s tenantId [] steps) := by
  have hbare : Rollup.Readable ((stepReadings s tenantId [] steps).map Rollup.StepReading.bare) := by
    rw [stepReadings_bare]
    refine ⟨fun hnil => hne (List.map_eq_nil_iff.mp hnil), ?_⟩
    intro r hr htask
    obtain ⟨step, hstep, rfl⟩ := List.mem_map.mp hr
    obtain ⟨id, hid⟩ := Option.isSome_iff_exists.mp htask
    obtain ⟨task, hfound, htenant, -⟩ := h id (List.mem_filterMap.mpr ⟨step, hstep, hid⟩)
    have hid' : step.task = some id := hid
    simp [hid', stepState, hfound, htenant]
  refine ⟨fun hnil => hbare.nonempty (List.map_eq_nil_iff.mpr hnil), ?_⟩
  intro r hr htask
  exact hbare.state r.bare (List.mem_map_of_mem hr) htask

theorem InStep.steps_ne (h : InStep s workflowId tenantId steps) : steps ≠ [] := by
  obtain ⟨workflow, -, -, -, hderived⟩ := h.derived
  rintro rfl
  exact (Rollup.readable_of_known hderived).nonempty rfl

/-- The steps' tasks read the same and the document is untouched. -/
theorem InStep.untouched (h : InStep s workflowId tenantId steps) (hstepped : Stepped s' workflowId tenantId steps)
    (hstates : ∀ id ∈ stepTaskIds steps, stepState s' tenantId [] id = stepState s tenantId [] id)
    (hworkflow : s'.workflows.lookup workflowId = s.workflows.lookup workflowId) :
    InStep s' workflowId tenantId steps := by
  obtain ⟨workflow, hfound, htenant, hsteps, hderived⟩ := h.derived
  refine ⟨h.named, hstepped, workflow, hworkflow.trans hfound, htenant, hsteps, ?_⟩
  rw [derive_stepReadings_congr hstates, hderived]

theorem settledUnpin_keeps (state : TaskState) (workflow : Workflow) :
    (settledUnpin state workflow).tenantId = workflow.tenantId ∧
      (settledUnpin state workflow).steps = workflow.steps := by
  rw [settledUnpin]
  split <;> exact ⟨rfl, rfl⟩

/-- A derived write leaves the workflow that it is for at the state it derived. -/
theorem derivedStateWrite_own {workflow : Workflow} (now : Instant) (hnamed : workflowId ≠ "")
    (hfound : s.workflows.lookup workflowId = some workflow) (htenant : workflow.tenantId = tenantId)
    (hreadable : Rollup.Readable (stepReadings s tenantId changed workflow.steps)) :
    ∃ workflow', (s.setWorkflow (derivedStateWrite s tenantId changed (some workflowId) now)).workflows.lookup
        workflowId = some workflow' ∧ workflow'.tenantId = tenantId ∧ workflow'.steps = workflow.steps ∧
      (Rollup.derive (stepReadings s tenantId changed workflow.steps)).state = .known workflow'.state := by
  obtain ⟨⟨state, hstate⟩, hcomplete⟩ := hreadable.derive
  have hname : (some workflowId).filter (· ≠ "") = some workflowId := by simp [hnamed]
  have hown : (s.workflows.lookup workflowId).filter (fun workflow => workflow.tenantId = tenantId) = some workflow := by
    simp [hfound, htenant]
  unfold derivedStateWrite
  rw [hname]
  dsimp only
  rw [hown]
  dsimp only
  rw [hcomplete, hstate]
  dsimp only
  split
  · rename_i hsame
    exact ⟨workflow, hfound, htenant, rfl, by rw [hsame]⟩
  · obtain ⟨htenant', hsteps'⟩ := settledUnpin_keeps state workflow
    exact ⟨_, (Docs.lookup_insert_eq _ _ _ _).trans (if_pos rfl), htenant'.trans htenant, hsteps', rfl⟩

/-- A derived write for another workflow, or for another tenant, leaves this one alone. -/
theorem derivedStateWrite_other {workflow : Workflow} {other : Option String} (now : Instant)
    (hfound : s.workflows.lookup workflowId = some workflow)
    (hother : other ≠ some workflowId ∨ workflow.tenantId ≠ tenantId) (t : Store) :
    (t.setWorkflow (derivedStateWrite s tenantId changed other now)).workflows.lookup workflowId =
      t.workflows.lookup workflowId := by
  have hid : ∀ id written, derivedStateWrite s tenantId changed other now = some (id, written) → id ≠ workflowId := by
    rintro id written hwritten rfl
    unfold derivedStateWrite at hwritten
    split at hwritten
    · cases hwritten
    · rename_i name hname
      obtain ⟨hsame, -⟩ := Option.filter_eq_some_iff.mp hname
      split at hwritten
      · cases hwritten
      · rename_i found hown
        obtain ⟨hstored, htenant⟩ := Option.filter_eq_some_iff.mp hown
        have hname' : name = id := by
          dsimp only at hwritten
          split at hwritten
          · split at hwritten
            · cases hwritten
            · exact (Prod.mk.inj (Option.some.inj hwritten)).1
          · cases hwritten
        subst hname'
        obtain hne | hne := hother
        · exact hne hsame
        · rw [hfound, Option.some_inj] at hstored
          exact hne (hstored ▸ of_decide_eq_true htenant)
  cases hwrite : derivedStateWrite s tenantId changed other now with
  | none => rfl
  | some write =>
    obtain ⟨id, written⟩ := write
    rw [Store.setWorkflow, Docs.lookup_insert_eq, if_neg (Ne.symm (hid id written hwrite))]

/-! ## One task's write -/

section OneTask

variable {id : String} {before after : Task} {workflow : Option (String × Workflow)}

theorem Commit.stepped (hcommit : Commit s s' id before after workflow) (htenant : after.tenantId = before.tenantId)
    (hworkflow : after.workflowId = before.workflowId) (h : Stepped s workflowId tenantId steps) :
    Stepped s' workflowId tenantId steps := by
  intro other hother
  obtain ⟨task, hfound, hidentity⟩ := h other hother
  rw [hcommit.tasks]
  split
  · rename_i hid
    rw [hid, hcommit.found, Option.some_inj] at hfound
    subst hfound
    exact ⟨after, rfl, htenant.trans hidentity.1, hworkflow.trans hidentity.2⟩
  · exact ⟨task, hfound, hidentity⟩

/-- What a commit leaves of a step is what it was given as changed. -/
theorem Commit.stepState_eq (hcommit : Commit s s' id before after workflow) (other : String) :
    stepState s' tenantId [] other = stepState s tenantId [(id, after)] other := by
  rw [stepState, stepState, hcommit.tasks]
  by_cases hid : other = id
  · simp [hid]
  · simp [hid, List.lookup_cons, beq_false_of_ne hid]

/-- A step's share of the derived state is its state. -/
theorem Commit.stepState_of_state (hcommit : Commit s s' id before after workflow)
    (htenant : after.tenantId = before.tenantId) (hstate : after.state = before.state) (other : String) :
    stepState s' tenantId [] other = stepState s tenantId [] other := by
  by_cases hid : other = id
  · have hafter : s'.tasks.lookup other = some after := by rw [hcommit.tasks, if_pos hid]
    rw [stepState_stored hafter, stepState_stored (hid ▸ hcommit.found), htenant, hstate]
  · rw [stepState, stepState, hcommit.tasks, if_neg hid]

theorem Commit.stepState_of_ne (hcommit : Commit s s' id before after workflow) {other : String} (hne : other ≠ id) :
    stepState s' tenantId [] other = stepState s tenantId [] other := by
  rw [stepState, stepState, hcommit.tasks, if_neg hne]

/-- A commit that derives the state of its task's own workflow keeps every workflow in step. -/
theorem Commit.inStep_derived {now : Instant} (hcommit : Commit s s' id before after
      (derivedStateWrite s before.tenantId [(id, after)] before.workflowId now))
    (htenant : after.tenantId = before.tenantId) (hworkflow : after.workflowId = before.workflowId)
    (h : InStep s workflowId tenantId steps) : InStep s' workflowId tenantId steps := by
  have hstepped := hcommit.stepped htenant hworkflow h.stepped
  obtain ⟨stored, hfound, hown, hsteps, hderived⟩ := h.derived
  by_cases hmine : before.workflowId = some workflowId ∧ before.tenantId = tenantId
  · -- The step's own workflow: what it derives is what is stored afterwards.
    have hstates : (Rollup.derive (stepReadings s' tenantId [] steps)).state =
        (Rollup.derive (stepReadings s tenantId [(id, after)] steps)).state :=
      derive_stepReadings_congr fun other _ => hcommit.stepState_eq other
    obtain ⟨⟨state, hstate⟩, -⟩ := (hstepped.readable h.steps_ne).derive
    have hreadable : Rollup.Readable (stepReadings s tenantId [(id, after)] stored.steps) := by
      rw [hsteps]
      exact Rollup.readable_of_known (hstates.symm.trans hstate)
    obtain ⟨written, hwritten, hown', hsteps', hderived'⟩ := derivedStateWrite_own now h.named hfound hown hreadable
    refine ⟨h.named, hstepped, written, ?_, hown', hsteps'.trans hsteps, ?_⟩
    · rw [hcommit.workflows, hmine.1, hmine.2]
      exact hwritten
    · rw [hstates, ← hderived', hsteps]
  · -- No step of this workflow.
    refine h.untouched hstepped (fun other hother => hcommit.stepState_of_ne ?_) ?_
    · rintro rfl
      obtain ⟨task, htask, hidentity⟩ := h.stepped other hother
      rw [hcommit.found, Option.some_inj] at htask
      exact hmine ⟨htask ▸ hidentity.2, htask ▸ hidentity.1⟩
    · rw [hcommit.workflows]
      refine derivedStateWrite_other now hfound ?_ s
      rw [hown]
      by_cases hname : before.workflowId = some workflowId
      · exact .inr fun heq => hmine ⟨hname, heq.symm⟩
      · exact .inl hname

/-- A write that derives nothing leaves the state of its task, or takes it from one state that holds
capacity to another. -/
theorem Commit.inStep_kept (hcommit : Commit s s' id before after none) (htenant : after.tenantId = before.tenantId)
    (hworkflow : after.workflowId = before.workflowId)
    (hstate : after.state = before.state ∨ before.state ∈ concurrencyStates ∧ after.state ∈ concurrencyStates)
    (h : InStep s workflowId tenantId steps) : InStep s' workflowId tenantId steps := by
  have hstepped := hcommit.stepped htenant hworkflow h.stepped
  have hsame : s'.workflows.lookup workflowId = s.workflows.lookup workflowId := by rw [hcommit.workflows]; rfl
  obtain hstate | ⟨hbefore, hafter⟩ := hstate
  · exact h.untouched hstepped (fun other _ => hcommit.stepState_of_state htenant hstate other) hsame
  · by_cases hstep : id ∈ stepTaskIds steps
    · obtain ⟨stored, hfound, hown, hsteps, hderived⟩ := h.derived
      obtain ⟨task, htask, hidentity⟩ := h.stepped id hstep
      rw [hcommit.found, Option.some_inj] at htask
      subst htask
      have hrunning : ∀ (t : Store) (task : Task), Rollup.Readable (stepReadings t tenantId [] steps) →
          t.tasks.lookup id = some task → task.tenantId = tenantId → task.state ∈ concurrencyStates →
          (Rollup.derive (stepReadings t tenantId [] steps)).state = .known .running := by
        intro t task hreadable hlookup htenant hcapacity
        obtain ⟨r, hr, hread⟩ := mem_stepReadings t tenantId [] hstep
        rw [stepState_stored hlookup, if_pos htenant] at hread
        exact hreadable.running hr hread hcapacity
      refine ⟨h.named, hstepped, stored, hsame.trans hfound, hown, hsteps, ?_⟩
      rw [hrunning s' after (hstepped.readable h.steps_ne) (by rw [hcommit.tasks, if_pos rfl])
        (htenant.trans hidentity.1) hafter, ← hderived]
      exact (hrunning s before (h.stepped.readable h.steps_ne) hcommit.found hidentity.1 hbefore).symm
    · refine h.untouched hstepped (fun other hother => hcommit.stepState_of_ne ?_) hsame
      rintro rfl
      exact hstep hother

end OneTask

/-! ## Grants -/

section Granting

variable {leases : List Admission.Lease} {now : Instant}

theorem Grants.stepped (hgrants : Grants s s' leases now) (h : Stepped s workflowId tenantId steps) :
    Stepped s' workflowId tenantId steps := by
  intro id hid
  obtain ⟨task, hfound, hidentity⟩ := h id hid
  obtain ⟨granted, -, -, -, -, hafter⟩ | hafter := hgrants.task_cases hfound
  · exact ⟨leasedTask granted now task, hafter, hidentity⟩
  · exact ⟨task, hafter, hidentity⟩

/-- The derivation is given every granted step of the workflow as leased. -/
def LeasedDocs (leases : List Admission.Lease) (workflowId tenantId : String) (steps : List Rollup.WorkflowStep)
    (docs : Dict String Task) : Prop :=
  ∀ id ∈ stepTaskIds steps,
    ((∃ lease ∈ leases, lease.taskId = id) ∧ docs.lookup id = some (leasedDoc tenantId workflowId)) ∨
    ((∀ lease ∈ leases, lease.taskId ≠ id) ∧ docs.lookup id = none)

theorem Grants.stepState_eq (hgrants : Grants s s' leases now) (hstepped : Stepped s workflowId tenantId steps)
    {docs : Dict String Task} (hdocs : LeasedDocs leases workflowId tenantId steps docs) {id : String}
    (hid : id ∈ stepTaskIds steps) : stepState s' tenantId [] id = stepState s tenantId docs id := by
  obtain ⟨task, hfound, htenant, -⟩ := hstepped id hid
  obtain ⟨⟨lease, hlease, rfl⟩, hdoc⟩ | ⟨hnone, hdoc⟩ := hdocs id hid
  · obtain ⟨found, hfound', -, -, hafter⟩ := hgrants.ready lease hlease
    rw [hfound, Option.some_inj] at hfound'
    subst hfound'
    have htenant' : (leasedTask lease now task).tenantId = tenantId := htenant
    rw [stepState_stored hafter, if_pos htenant', stepState, hdoc]
    simp [leasedDoc, leasedTask]
  · rw [stepState, stepState, hgrants.others id hnone, hdoc]
    rfl

/-- Grants keep a workflow in step: its state is derived over the granted steps, or none was granted. -/
theorem Grants.inStep (hgrants : Grants s s' leases now) (h : InStep s workflowId tenantId steps)
    (hworkflow : (∃ docs, LeasedDocs leases workflowId tenantId steps docs ∧
        s'.workflows.lookup workflowId =
          (s.setWorkflow (derivedStateWrite s tenantId docs (some workflowId) now)).workflows.lookup workflowId) ∨
      (∀ lease ∈ leases, lease.taskId ∉ stepTaskIds steps) ∧
        s'.workflows.lookup workflowId = s.workflows.lookup workflowId) :
    InStep s' workflowId tenantId steps := by
  have hstepped := hgrants.stepped h.stepped
  obtain ⟨docs, hdocs, hwritten⟩ | ⟨hnone, hsame⟩ := hworkflow
  · obtain ⟨stored, hfound, hown, hsteps, -⟩ := h.derived
    have hstates : (Rollup.derive (stepReadings s' tenantId [] steps)).state =
        (Rollup.derive (stepReadings s tenantId docs steps)).state :=
      derive_stepReadings_congr fun id hid => hgrants.stepState_eq h.stepped hdocs hid
    obtain ⟨⟨state, hstate⟩, -⟩ := (hstepped.readable h.steps_ne).derive
    have hreadable : Rollup.Readable (stepReadings s tenantId docs stored.steps) := by
      rw [hsteps]
      exact Rollup.readable_of_known (hstates.symm.trans hstate)
    obtain ⟨written, hlookup, hown', hsteps', hderived⟩ := derivedStateWrite_own now h.named hfound hown hreadable
    refine ⟨h.named, hstepped, written, hwritten.trans hlookup, hown', hsteps'.trans hsteps, ?_⟩
    rw [hstates, ← hderived, hsteps]
  · refine h.untouched hstepped (fun id hid => ?_) hsame
    have hother : ∀ lease ∈ leases, lease.taskId ≠ id := fun lease hlease heq => hnone lease hlease (heq ▸ hid)
    rw [stepState, stepState, hgrants.others id hother]

/-! The workflows of a batch. -/

theorem nodup_changedSteps (items : List (AcquireRequest × Admission.Outcome)) :
    ((items.foldl changeStep []).map Prod.fst).Nodup := by
  have hfold : ∀ acc : Dict WorkflowKey (Dict String Task), (acc.map Prod.fst).Nodup →
      ((items.foldl changeStep acc).map Prod.fst).Nodup := by
    induction items with
    | nil => exact fun acc hacc => hacc
    | cons item items ih =>
      intro acc hacc
      refine ih _ ?_
      rw [changeStep]
      split
      · exact Dict.nodup_set hacc _ _
      · exact hacc
  exact hfold [] List.nodup_nil

/-- The batch granted this task as a step of this tenant's workflow. -/
def Granted (key : WorkflowKey) (id : String) (item : AcquireRequest × Admission.Outcome) : Prop :=
  item.1.workflowKey = some key ∧ (∃ lease, item.2 = .ok lease) ∧ item.1.taskId = id

/-- The document of a step among the changed ones of a workflow, before and after one more outcome. -/
theorem lookup_changeStep (acc : Dict WorkflowKey (Dict String Task)) (item : AcquireRequest × Admission.Outcome)
    (key : WorkflowKey) (id : String) :
    (Granted key id item ∧
        (((changeStep acc item).lookup key).getD []).lookup id = some (leasedDoc key.tenantId key.workflowId)) ∨
      (¬ Granted key id item ∧
        (((changeStep acc item).lookup key).getD []).lookup id = ((acc.lookup key).getD []).lookup id) := by
  obtain ⟨r, outcome⟩ := item
  rw [changeStep]
  dsimp only
  cases hkey : r.workflowKey with
  | none => exact .inr ⟨fun h => (by rw [Granted, hkey] at h; cases h.1), rfl⟩
  | some found =>
    cases outcome with
    | error denial => exact .inr ⟨fun h => (by obtain ⟨-, ⟨lease, hlease⟩, -⟩ := h; cases hlease), rfl⟩
    | ok lease =>
      dsimp only
      rw [Dict.lookup_set]
      by_cases hfound : key = found
      · subst hfound
        rw [if_pos rfl, Option.getD_some, Dict.lookup_set]
        by_cases hid : id = r.taskId
        · rw [if_pos hid]
          exact .inl ⟨⟨hkey, ⟨lease, rfl⟩, hid.symm⟩, rfl⟩
        · rw [if_neg hid]
          exact .inr ⟨fun h => hid h.2.2.symm, rfl⟩
      · rw [if_neg hfound]
        refine .inr ⟨fun h => hfound ?_, rfl⟩
        exact (Option.some.inj (hkey.symm.trans h.1)).symm

theorem lookup_changedSteps (items : List (AcquireRequest × Admission.Outcome)) (key : WorkflowKey) (id : String) :
    ((∃ item ∈ items, Granted key id item) ∧
        (((items.foldl changeStep []).lookup key).getD []).lookup id = some (leasedDoc key.tenantId key.workflowId)) ∨
      ((∀ item ∈ items, ¬ Granted key id item) ∧
        (((items.foldl changeStep []).lookup key).getD []).lookup id = none) := by
  have hfold : ∀ acc : Dict WorkflowKey (Dict String Task),
      ((∃ item ∈ items, Granted key id item) ∧
        (((items.foldl changeStep acc).lookup key).getD []).lookup id = some (leasedDoc key.tenantId key.workflowId)) ∨
      ((∀ item ∈ items, ¬ Granted key id item) ∧
        (((items.foldl changeStep acc).lookup key).getD []).lookup id = ((acc.lookup key).getD []).lookup id) := by
    induction items with
    | nil => exact fun acc => .inr ⟨fun item hitem => (by cases hitem), rfl⟩
    | cons item items ih =>
      intro acc
      rw [List.foldl_cons]
      obtain ⟨⟨other, hother, hgranted⟩, hlookup⟩ | ⟨hnone, hlookup⟩ := ih (changeStep acc item)
      · exact .inl ⟨⟨other, List.mem_cons_of_mem item hother, hgranted⟩, hlookup⟩
      · obtain ⟨hgranted, hstep⟩ | ⟨hdenied, hstep⟩ := lookup_changeStep acc item key id
        · exact .inl ⟨⟨item, List.mem_cons_self, hgranted⟩, hlookup.trans hstep⟩
        · refine .inr ⟨fun other hother => ?_, hlookup.trans hstep⟩
          obtain rfl | hin := List.mem_cons.mp hother
          · exact hdenied
          · exact hnone other hin
  exact hfold []

/-- Of the derived writes of a batch, only the one of its own tenant and name writes a workflow. -/
theorem lookup_batchWorkflows {workflow : Workflow} (hfound : s.workflows.lookup workflowId = some workflow)
    (htenant : workflow.tenantId = tenantId) {items : Dict WorkflowKey (Dict String Task)}
    (hnodup : (items.map Prod.fst).Nodup) (now : Instant) (t : Store)
    (ht : t.workflows.lookup workflowId = s.workflows.lookup workflowId) :
    ((items.map fun item => derivedStateWrite s item.1.tenantId item.2 (some item.1.workflowId) now).foldl
        Store.setWorkflow t).workflows.lookup workflowId =
      ((items.lookup ⟨tenantId, workflowId⟩).elim s fun docs =>
        s.setWorkflow (derivedStateWrite s tenantId docs (some workflowId) now)).workflows.lookup workflowId := by
  have hother : ∀ (key : WorkflowKey) (docs : Dict String Task) (t : Store), key ≠ ⟨tenantId, workflowId⟩ →
      (t.setWorkflow (derivedStateWrite s key.tenantId docs (some key.workflowId) now)).workflows.lookup workflowId =
        t.workflows.lookup workflowId := by
    intro key docs t hkey
    refine derivedStateWrite_other now hfound ?_ t
    by_contra hboth
    rw [not_or, not_not, not_not, Option.some_inj] at hboth
    obtain ⟨tenant, name⟩ := key
    exact hkey (congrArg₂ WorkflowKey.mk (hboth.2.symm.trans htenant) hboth.1)
  have hothers : ∀ (items : Dict WorkflowKey (Dict String Task)) (t : Store),
      (⟨tenantId, workflowId⟩ : WorkflowKey) ∉ items.map Prod.fst →
      ((items.map fun item => derivedStateWrite s item.1.tenantId item.2 (some item.1.workflowId) now).foldl
        Store.setWorkflow t).workflows.lookup workflowId = t.workflows.lookup workflowId := by
    intro items
    induction items with
    | nil => exact fun t _ => rfl
    | cons item items ih =>
      intro t hnotin
      rw [List.map_cons, List.mem_cons, not_or] at hnotin
      rw [List.map_cons, List.foldl_cons, ih _ hnotin.2]
      exact hother item.1 item.2 t (Ne.symm hnotin.1)
  induction items generalizing t with
  | nil => exact ht
  | cons item items ih =>
    obtain ⟨key, docs⟩ := item
    rw [List.map_cons, List.nodup_cons] at hnodup
    rw [List.map_cons, List.foldl_cons, List.lookup_cons]
    by_cases hkey : (⟨tenantId, workflowId⟩ : WorkflowKey) = key
    · subst hkey
      rw [hothers items _ hnodup.1, beq_self_eq_true]
      dsimp only [Option.elim_some]
      cases derivedStateWrite s tenantId docs (some workflowId) now with
      | none => exact ht
      | some write =>
        obtain ⟨id, written⟩ := write
        rw [Store.setWorkflow, Store.setWorkflow, Docs.lookup_insert_eq, Docs.lookup_insert_eq, ht]
    · rw [beq_false_of_ne hkey]
      exact ih hnodup.2 _ ((hother key docs t (Ne.symm hkey)).trans ht)

end Granting

/-! ## Steps and runs -/

/-- A task's tenant and workflow never change, so a copy of it has them right. -/
def Snapshot.Of (task : Snapshot) (s : Store) : Prop :=
  ∀ stored, s.tasks.lookup task.id = some stored → stored.tenantId = task.task.tenantId

def AcquireRequest.Of (r : AcquireRequest) (s : Store) : Prop :=
  ∀ stored, s.tasks.lookup r.taskId = some stored →
    stored.tenantId = r.request.task.tenantId ∧ stored.workflowId = r.workflowId

namespace Op

def Read (s : Store) : Op → Prop
  | acquireLease r _ _ => r.Of s
  | acquireLeases requests _ _ => ∀ r ∈ requests, r.Of s
  | returnToReady x _ => x.task.Of s
  | guarded _ task _ => task.Of s
  | cancelIfNotStarted task _ _ _ => task.Of s
  | _ => True

/-- The operations that keep the stored states: all but the reconciler's repair. -/
def Derives : Op → Prop
  | fenceReleaseRepair _ _ => False
  | _ => True

/-- The tasks that an operation may write. -/
def taskIds : Op → List String
  | acquireLease r _ _ => [r.taskId]
  | acquireLeases requests _ _ => requests.map AcquireRequest.taskId
  | markDispatched task _ _ _ => [task.id]
  | returnToReady x _ => [x.task.id]
  | guarded _ task _ => [task.id]
  | cancelIfNotStarted task _ _ _ => [task.id]
  | cancelChild x _ => [x.childId]
  | route a _ _ => [a.taskId]
  | fenceReleaseRepair x _ => x.taskId.toList

end Op

def StateStep (service : Service) (c : Control) (op : Op) (c' : Control) : Prop :=
  op.Fresh c ∧ op.Read c.store ∧ op.Derives ∧ c' = op.apply service c

theorem Idle.inStep (hidle : Idle s s') (h : InStep s workflowId tenantId steps) : InStep s' workflowId tenantId steps := by
  refine h.untouched ?_ (fun id _ => ?_) (by rw [hidle.workflows])
  · intro id hid
    rw [hidle.tasks]
    exact h.stepped id hid
  · rw [stepState, stepState, hidle.tasks]

/-- A request for a step of this workflow names it. -/
theorem AcquireRequest.Of.workflowKey {r : AcquireRequest} (hof : r.Of s) (hnamed : workflowId ≠ "")
    (h : Stepped s workflowId tenantId steps) (hid : r.taskId ∈ stepTaskIds steps) :
    r.workflowKey = some ⟨tenantId, workflowId⟩ := by
  obtain ⟨task, hfound, htenant, hworkflow⟩ := h _ hid
  obtain ⟨htenant', hworkflow'⟩ := hof task hfound
  rw [AcquireRequest.workflowKey, ← hworkflow', hworkflow, ← htenant', htenant]
  simp [hnamed]

section Steps

variable {service : Service} {c c' : Control}

theorem acquireLease_inStep {r : AcquireRequest} (config : Admission.AdmissionConfig) (now : Instant)
    (hof : r.Of c.store) (h : InStep c.store workflowId tenantId steps) :
    InStep (c.acquireLease r config now).2.store workflowId tenantId steps := by
  obtain ⟨denial, hsame⟩ | ⟨lease, granted, -, hgrants, htaskId, -, hstore⟩ := c.acquireLease_cases config now r
  · rw [hsame]
    exact h
  · rw [hstore]
    refine (hgrants.setWorkflows [c.acquiredWorkflow now r]).inStep h ?_
    obtain ⟨workflow, hfound, hown, -, -⟩ := h.derived
    by_cases hkey : r.workflowKey = some ⟨tenantId, workflowId⟩
    · refine .inl ⟨[(r.taskId, leasedDoc tenantId workflowId)], ?_, ?_⟩
      · intro id hid
        by_cases hself : id = r.taskId
        · exact .inl ⟨⟨lease, List.mem_singleton_self lease, htaskId.trans hself.symm⟩, by simp [hself]⟩
        · refine .inr ⟨fun other hother heq => hself ?_, by simp [List.lookup_cons, beq_false_of_ne hself]⟩
          rw [← heq, List.mem_singleton.mp hother, htaskId]
      · rw [List.foldl_cons, List.foldl_nil, Control.acquiredWorkflow, hkey]
        dsimp only [Control.workflowWrite, leasedDoc]
        cases derivedStateWrite c.store tenantId
            [(r.taskId, { tenantId := tenantId, state := .leased, workflowId := some workflowId })]
            (some workflowId) now with
        | none => rfl
        | some write => rfl
    · refine .inr ⟨?_, ?_⟩
      · intro other hother hid
        rw [List.mem_singleton.mp hother, htaskId] at hid
        exact hkey (hof.workflowKey h.named h.stepped hid)
      · rw [List.foldl_cons, List.foldl_nil, Control.acquiredWorkflow]
        cases hname : r.workflowKey with
        | none => rfl
        | some key =>
          refine derivedStateWrite_other now hfound ?_ _
          by_contra hboth
          rw [not_or, not_not, not_not] at hboth
          obtain ⟨tenant, name⟩ := key
          refine hkey (hname.trans (congrArg some (congrArg₂ WorkflowKey.mk (hboth.2.symm.trans hown) ?_)))
          exact Option.some.inj hboth.1

/-- What a batch granted, and the requests behind it. -/
theorem mem_grants_zip {requests : List AcquireRequest} {outcomes : List Admission.Outcome}
    (hanswers : List.Forall₂ (fun r outcome => ∀ lease, outcome = .ok lease →
      lease.taskId = r.taskId ∧ lease.leaseId = r.ids.leaseId) requests outcomes) (id : String) :
    (∃ lease ∈ Admission.grants outcomes, lease.taskId = id) ↔
      ∃ item ∈ requests.zip outcomes, (∃ lease, item.2 = .ok lease) ∧ item.1.taskId = id := by
  induction hanswers with
  | nil => exact ⟨fun ⟨_, h, _⟩ => (by cases h), fun ⟨_, h, _⟩ => (by cases h)⟩
  | @cons r outcome requests outcomes hanswer _ ih =>
    rw [List.zip_cons_cons]
    simp only [List.exists_mem_cons_iff]
    cases outcome with
    | error denial =>
      have hgrants : Admission.grants (.error denial :: outcomes) = Admission.grants outcomes := rfl
      rw [hgrants, ih]
      refine ⟨.inr, ?_⟩
      rintro (⟨⟨lease, hlease⟩, -⟩ | hrest)
      · cases hlease
      · exact hrest
    | ok lease =>
      have hgrants : Admission.grants (.ok lease :: outcomes) = lease :: Admission.grants outcomes := rfl
      rw [hgrants, List.exists_mem_cons_iff, ih, (hanswer lease rfl).1]
      refine or_congr_left ⟨fun hid => ⟨⟨lease, rfl⟩, hid⟩, fun hid => hid.2⟩

theorem acquireLeases_inStep {requests : List AcquireRequest} (config : Admission.AdmissionConfig) (now : Instant)
    (hnodup : (requests.map fun r => r.ids.leaseId).Nodup) (hof : ∀ r ∈ requests, r.Of c.store)
    (h : InStep c.store workflowId tenantId steps) :
    InStep (c.acquireLeases requests config now).2.store workflowId tenantId steps := by
  obtain ⟨granted, outcomes, -, hgrants, hanswers, hstore⟩ := c.acquireLeases_cases config now hnodup
  rw [hstore]
  refine (hgrants.setWorkflows (c.acquiredWorkflows now requests outcomes)).inStep h ?_
  obtain ⟨workflow, hfound, hown, -, -⟩ := h.derived
  have hwritten := lookup_batchWorkflows hfound hown (nodup_changedSteps (requests.zip outcomes)) now
    (admitted c.store granted (Admission.grants outcomes) now) rfl
  -- A granted step is granted as a step of this workflow: its request names it.
  have hgranted : ∀ id ∈ stepTaskIds steps, (∃ lease ∈ Admission.grants outcomes, lease.taskId = id) ↔
      ∃ item ∈ requests.zip outcomes, Granted ⟨tenantId, workflowId⟩ id item := by
    intro id hid
    rw [mem_grants_zip hanswers id]
    constructor
    · rintro ⟨item, hitem, hok, rfl⟩
      have hread := hof item.1 (List.of_mem_zip hitem).1
      exact ⟨item, hitem, hread.workflowKey h.named h.stepped hid, hok, rfl⟩
    · rintro ⟨item, hitem, -, hok, hsame⟩
      exact ⟨item, hitem, hok, hsame⟩
  have hdocs : ∀ id ∈ stepTaskIds steps, ((∃ lease ∈ Admission.grants outcomes, lease.taskId = id) ∧
        (((changedSteps requests outcomes).lookup ⟨tenantId, workflowId⟩).getD []).lookup id =
          some (leasedDoc tenantId workflowId)) ∨
      ((∀ lease ∈ Admission.grants outcomes, lease.taskId ≠ id) ∧
        (((changedSteps requests outcomes).lookup ⟨tenantId, workflowId⟩).getD []).lookup id = none) := by
    intro id hid
    obtain ⟨hitem, hdoc⟩ | ⟨hnone, hdoc⟩ :=
      lookup_changedSteps (requests.zip outcomes) ⟨tenantId, workflowId⟩ id
    · exact .inl ⟨(hgranted id hid).mpr hitem, hdoc⟩
    · refine .inr ⟨fun lease hlease heq => ?_, hdoc⟩
      obtain ⟨item, hitem, hgrant⟩ := (hgranted id hid).mp ⟨lease, hlease, heq⟩
      exact hnone item hitem hgrant
  cases hchanged : (changedSteps requests outcomes).lookup ⟨tenantId, workflowId⟩ with
  | none =>
    refine .inr ⟨fun lease hlease hid => ?_, ?_⟩
    · obtain ⟨-, hdoc⟩ | ⟨hnone, -⟩ := hdocs lease.taskId hid
      · rw [hchanged] at hdoc
        cases hdoc
      · exact hnone lease hlease rfl
    · refine hwritten.trans ?_
      rw [changedSteps] at hchanged
      rw [hchanged]
      rfl
  | some docs =>
    rw [hchanged] at hdocs
    refine .inl ⟨docs, hdocs, hwritten.trans ?_⟩
    rw [changedSteps] at hchanged
    rw [hchanged]
    rfl

/-! Every other operation rewrites one task at most. -/

/-- One task's write, as it bears on the workflows: nothing, a write that derives the state of the task's
own workflow, or one that cannot change it. -/
inductive StepWrite (s s' : Store) (id : String) : Prop
  | idle (hidle : Idle s s')
  | derived {before after : Task} {now : Instant} (hcommit : Commit s s' id before after
        (derivedStateWrite s before.tenantId [(id, after)] before.workflowId now))
      (htenant : after.tenantId = before.tenantId) (hworkflow : after.workflowId = before.workflowId)
  | kept {before after : Task} (hcommit : Commit s s' id before after none)
      (htenant : after.tenantId = before.tenantId) (hworkflow : after.workflowId = before.workflowId)
      (hstate : after.state = before.state ∨ before.state ∈ concurrencyStates ∧ after.state ∈ concurrencyStates)

theorem StepWrite.inStep {id : String} (hwrite : StepWrite s s' id) (h : InStep s workflowId tenantId steps) :
    InStep s' workflowId tenantId steps := by
  cases hwrite with
  | idle hidle => exact hidle.inStep h
  | derived hcommit htenant hworkflow => exact hcommit.inStep_derived htenant hworkflow h
  | kept hcommit htenant hworkflow hstate => exact hcommit.inStep_kept htenant hworkflow hstate h

/-- A task of another tenant's does not touch the document, whatever workflow it names. -/
theorem StepWrite.foreign {id : String} {workflow : Workflow} (hwrite : StepWrite s s' id)
    (hfound : s.workflows.lookup workflowId = some workflow)
    (hforeign : ∀ task, s.tasks.lookup id = some task → task.tenantId ≠ workflow.tenantId) :
    s'.workflows.lookup workflowId = some workflow := by
  cases hwrite with
  | idle hidle => rw [hidle.workflows, hfound]
  | derived hcommit =>
    rw [hcommit.workflows, derivedStateWrite_other _ hfound (.inr (hforeign _ hcommit.found).symm), hfound]
  | kept hcommit =>
    rw [hcommit.workflows]
    exact hfound

theorem markDispatched_stepWrite (c : Control) (task : Snapshot) (lease : Admission.Lease) (executionName : String)
    (now : Instant) : StepWrite c.store (c.markDispatched task lease executionName now).2.store task.id := by
  obtain hidle | ⟨stored, hstate, hcommit⟩ := c.markDispatched_cases task lease executionName now
  · exact .idle hidle
  · refine .kept hcommit rfl rfl (.inr ⟨?_, ?_⟩)
    · rw [hstate]
      decide
    · exact show TaskState.dispatched ∈ concurrencyStates by decide

theorem returnToReady_stepWrite {x : FailedDispatch} (hof : x.task.Of c.store) (now : Instant) :
    StepWrite c.store (c.returnToReady x now).2.store x.task.id := by
  obtain hidle | ⟨stored, reclaim, -, -, -, hcommit⟩ := c.returnToReady_cases x now
  · exact .idle hidle
  · dsimp only [Control.workflowWrite] at hcommit
    rw [← hof stored hcommit.found] at hcommit
    exact .derived hcommit rfl rfl

theorem guarded_stepWrite {call : GuardedCall} {task : Snapshot} {now : Instant} {answer : GuardedWrite}
    (hof : task.Of c.store) (hguarded : c.guarded call task now = .ok (answer, c')) :
    StepWrite c.store c'.store task.id := by
  obtain rfl | ⟨stored, metadata, -, -, -, hcommit⟩ := Control.guarded_cases hguarded
  · exact .idle (.refl _)
  · dsimp only [Control.workflowWrite] at hcommit
    rw [← hof stored hcommit.found] at hcommit
    cases htarget : call.target with
    | none =>
      rw [htarget] at hcommit
      refine .kept hcommit rfl rfl (.inl ?_)
      rw [Patch.apply, GuardedCall.patch_state, htarget]
      rfl
    | some dst =>
      rw [htarget] at hcommit
      exact .derived hcommit rfl rfl

theorem cancelIfNotStarted_stepWrite {task : Snapshot} (hof : task.Of c.store) (reason : String) (endCause : EndCause)
    (now : Instant) : StepWrite c.store (c.cancelIfNotStarted task reason endCause now).2.store task.id := by
  obtain hsame | ⟨stored, -, hcommit⟩ := c.cancelIfNotStarted_cases task reason endCause now
  · rw [hsame]
    exact .idle (.refl _)
  · dsimp only [Control.workflowWrite] at hcommit
    rw [← hof stored hcommit.found] at hcommit
    exact .derived hcommit rfl rfl

theorem cancelChild_stepWrite (c : Control) (x : Control.Cascade) (now : Instant) :
    StepWrite c.store (c.cancelChild x now).2.store x.childId := by
  obtain hsame | ⟨stored, htenant, hcommit⟩ := c.cancelChild_cases x now
  · rw [hsame]
    exact .idle (.refl _)
  · dsimp only [Control.workflowWrite] at hcommit
    rw [← htenant] at hcommit
    by_cases hpending : stored.state ∈ pendingStates
    · rw [if_pos hpending] at hcommit
      exact .derived hcommit rfl rfl
    · rw [if_neg hpending] at hcommit
      refine .kept hcommit rfl rfl (.inl ?_)
      rw [Patch.apply, Control.cascadePatch_state, if_neg hpending]
      rfl

theorem route_stepWrite (s : Store) (a : AttemptTuple) (request : Request) (given : Given) :
    StepWrite s (committed s (request.call service s a given)) a.taskId := by
  cases hcall : request.call service s a given with
  | error refusal => exact .idle (.refl s)
  | ok result =>
    obtain ⟨s', answer⟩ := result
    obtain hidle | ⟨task, patch, howned, -, hcommit, -⟩ := call_commit hcall
    · exact .idle hidle
    · rw [← howned.tenantId] at hcommit
      exact .derived hcommit rfl rfl

/-- A batch derives the states of those workflows only whose steps it granted. -/
theorem granted_of_mem_changedSteps {items : List (AcquireRequest × Admission.Outcome)} {key : WorkflowKey}
    (h : key ∈ (items.foldl changeStep []).map Prod.fst) : ∃ item ∈ items, Granted key item.1.taskId item := by
  have hstep : ∀ (acc : Dict WorkflowKey (Dict String Task)) (item : AcquireRequest × Admission.Outcome)
      (key : WorkflowKey), key ∈ (changeStep acc item).map Prod.fst →
      key ∈ acc.map Prod.fst ∨ Granted key item.1.taskId item := by
    intro acc item key hkey
    unfold changeStep at hkey
    split at hkey
    · rename_i found lease hfound hlease
      obtain rfl | hin := Dict.mem_keys_set hkey
      · exact .inr ⟨hfound, ⟨lease, hlease⟩, rfl⟩
      · exact .inl hin
    · exact .inl hkey
  obtain hnil | hitem := mem_foldl_collect hstep h
  · cases hnil
  · exact hitem

theorem acquireLease_foreign {r : AcquireRequest} {workflow : Workflow} (config : Admission.AdmissionConfig)
    (now : Instant) (hof : r.Of c.store) (hfound : c.store.workflows.lookup workflowId = some workflow)
    (hforeign : ∀ task, c.store.tasks.lookup r.taskId = some task → task.tenantId ≠ workflow.tenantId) :
    (c.acquireLease r config now).2.store.workflows.lookup workflowId = some workflow := by
  obtain ⟨denial, hsame⟩ | ⟨lease, granted, -, hgrants, htaskId, -, hstore⟩ := c.acquireLease_cases config now r
  · rw [hsame, hfound]
  · rw [hstore, Control.acquiredWorkflow]
    obtain ⟨task, htask, -, -, -⟩ := hgrants.ready lease (List.mem_singleton_self lease)
    rw [htaskId] at htask
    cases hname : r.workflowKey with
    | none => exact hfound
    | some key =>
      obtain ⟨name, -, rfl⟩ := Option.map_eq_some_iff.mp hname
      refine (derivedStateWrite_other now hfound (.inr ?_) _).trans hfound
      rw [← (hof task htask).1]
      exact (hforeign task htask).symm

theorem acquireLeases_foreign {requests : List AcquireRequest} {workflow : Workflow}
    (config : Admission.AdmissionConfig) (now : Instant) (hnodup : (requests.map fun r => r.ids.leaseId).Nodup)
    (hof : ∀ r ∈ requests, r.Of c.store) (hfound : c.store.workflows.lookup workflowId = some workflow)
    (hforeign : ∀ r ∈ requests, ∀ task, c.store.tasks.lookup r.taskId = some task →
      task.tenantId ≠ workflow.tenantId) :
    (c.acquireLeases requests config now).2.store.workflows.lookup workflowId = some workflow := by
  obtain ⟨granted, outcomes, -, hgrants, hanswers, hstore⟩ := c.acquireLeases_cases config now hnodup
  rw [hstore]
  refine (lookup_batchWorkflows hfound rfl (nodup_changedSteps (requests.zip outcomes)) now
    (admitted c.store granted (Admission.grants outcomes) now) rfl).trans ?_
  cases hchanged : ((requests.zip outcomes).foldl changeStep []).lookup ⟨workflow.tenantId, workflowId⟩ with
  | none => exact hfound
  | some docs =>
    -- A granted request of the workflow's tenant has a task of that tenant behind it.
    have hkeys := List.mem_map_of_mem (f := Prod.fst) (Dict.mem_of_lookup hchanged)
    obtain ⟨item, hitem, hkey, hok, -⟩ := granted_of_mem_changedSteps hkeys
    obtain ⟨lease, hlease, hid⟩ := (mem_grants_zip hanswers item.1.taskId).mpr ⟨item, hitem, hok, rfl⟩
    obtain ⟨task, htask, -, -, -⟩ := hgrants.ready lease hlease
    rw [hid] at htask
    have hin := (List.of_mem_zip hitem).1
    obtain ⟨name, -, heq⟩ := Option.map_eq_some_iff.mp hkey
    have htenant : item.1.request.task.tenantId = workflow.tenantId := congrArg WorkflowKey.tenantId heq
    exact absurd ((hof item.1 hin task htask).1.trans htenant) (hforeign item.1 hin task htask)

/-- One step keeps every workflow in step. -/
theorem stateStep_inStep {op : Op} (hstep : StateStep service c op c') (h : InStep c.store workflowId tenantId steps) :
    InStep c'.store workflowId tenantId steps := by
  obtain ⟨hfresh, hread, hderives, rfl⟩ := hstep
  cases op with
  | acquireLease r config now => exact acquireLease_inStep config now hread h
  | acquireLeases requests config now => exact acquireLeases_inStep config now hfresh.2 hread h
  | markDispatched task lease executionName now =>
    exact (markDispatched_stepWrite c task lease executionName now).inStep h
  | returnToReady x now => exact (returnToReady_stepWrite hread now).inStep h
  | guarded call task now =>
    rw [Op.apply]
    split
    · exact h
    · rename_i hguarded
      exact (guarded_stepWrite hread hguarded).inStep h
  | cancelIfNotStarted task reason endCause now => exact (cancelIfNotStarted_stepWrite hread reason endCause now).inStep h
  | cancelChild x now => exact (cancelChild_stepWrite c x now).inStep h
  | route a request given => exact (route_stepWrite c.store a request given).inStep h
  | fenceReleaseRepair x now => exact absurd hderives id

/-- One step leaves the documents of other tenants' workflows alone. -/
theorem stateStep_foreign {op : Op} {workflow : Workflow} (hstep : StateStep service c op c')
    (hfound : c.store.workflows.lookup workflowId = some workflow)
    (hforeign : ∀ id ∈ op.taskIds, ∀ task, c.store.tasks.lookup id = some task → task.tenantId ≠ workflow.tenantId) :
    c'.store.workflows.lookup workflowId = some workflow := by
  obtain ⟨hfresh, hread, hderives, rfl⟩ := hstep
  have hone : ∀ id, op.taskIds = [id] → ∀ task, c.store.tasks.lookup id = some task →
      task.tenantId ≠ workflow.tenantId := by
    intro id hid
    exact hforeign id (hid ▸ List.mem_singleton_self id)
  cases op with
  | acquireLease r config now => exact acquireLease_foreign config now hread hfound (hone _ rfl)
  | acquireLeases requests config now =>
    refine acquireLeases_foreign config now hfresh.2 hread hfound fun r hr => ?_
    exact hforeign r.taskId (List.mem_map_of_mem hr)
  | markDispatched task lease executionName now =>
    exact (markDispatched_stepWrite c task lease executionName now).foreign hfound (hone _ rfl)
  | returnToReady x now => exact (returnToReady_stepWrite hread now).foreign hfound (hone _ rfl)
  | guarded call task now =>
    rw [Op.apply]
    split
    · exact hfound
    · rename_i hguarded
      exact (guarded_stepWrite hread hguarded).foreign hfound (hone _ rfl)
  | cancelIfNotStarted task reason endCause now =>
    exact (cancelIfNotStarted_stepWrite hread reason endCause now).foreign hfound (hone _ rfl)
  | cancelChild x now => exact (cancelChild_stepWrite c x now).foreign hfound (hone _ rfl)
  | route a request given => exact (route_stepWrite c.store a request given).foreign hfound (hone _ rfl)
  | fenceReleaseRepair x now => exact absurd hderives id

theorem stateRun_inStep {ops : List Op} (hrun : Run (StateStep service) c ops c')
    (h : InStep c.store workflowId tenantId steps) : InStep c'.store workflowId tenantId steps :=
  hrun.invariant (I := fun c => InStep c.store workflowId tenantId steps) (fun _ _ _ hbefore hstep =>
    stateStep_inStep hstep hbefore) h

end Steps

/-- Started with its state derived from its steps, a workflow's stored state is the derived one after every
commit, refusals included; and no write of a step touches the document of another tenant's workflow. -/
theorem workflow_state_never_lags {service : Service} {c₀ c : Control} {ops : List Op} {workflowId tenantId : String}
    {steps : List Rollup.WorkflowStep} (hstart : InStep c₀.store workflowId tenantId steps)
    (hrun : Run (StateStep service) c₀ ops c) :
    (∃ workflow, c.store.workflows.lookup workflowId = some workflow ∧ workflow.steps = steps ∧
      (Rollup.derive (stepReadings c.store tenantId [] steps)).state = .known workflow.state) ∧
    ∀ op c', StateStep service c op c' → ∀ otherId other, c.store.workflows.lookup otherId = some other →
      (∀ id ∈ op.taskIds, ∀ task, c.store.tasks.lookup id = some task → task.tenantId ≠ other.tenantId) →
      c'.store.workflows.lookup otherId = some other := by
  constructor
  · obtain ⟨workflow, hfound, -, hsteps, hderived⟩ := (stateRun_inStep hrun hstart).derived
    exact ⟨workflow, hfound, hsteps, hderived⟩
  · intro op c' hstep otherId other hfound hforeign
    exact stateStep_foreign hstep hfound hforeign

/-! ### A workflow whose step is leased, and another tenant's task that names it -/

def sampleSteps : List Rollup.WorkflowStep := [⟨"build", some "task_1"⟩]

def sampleWorkflow : Control where
  store :=
    { tasks := ((∅ : Docs String Task).insert "task_1"
        { tenantId := "eng", state := .ready, workflowId := some "wf_1" }).insert "task_2"
        { tenantId := "ops", state := .ready, workflowId := some "wf_1" }
      workflows := (∅ : Docs String Workflow).insert "wf_1" { tenantId := "eng", state := .ready, steps := sampleSteps }
      pools := ∅, leases := ∅, events := ∅, attempts := ∅, carries := ∅, carryIndexes := ∅ }
  platformRefusals := ∅
  parentTaskIds := ∅
  attemptRefs := ∅

def sampleStepRequest (taskId tenantId leaseId : String) : AcquireRequest :=
  ⟨⟨⟨taskId, tenantId, none, "small", "claude-code"⟩, 1, "gke"⟩, ⟨leaseId, "att"⟩, some "wf_1"⟩

def sampleStepLeased : Control :=
  (Op.acquireLease (sampleStepRequest "task_1" "eng" "lease_1") {} 0).apply sampleService sampleWorkflow

def sampleForeignLeased : Control :=
  (Op.acquireLease (sampleStepRequest "task_2" "ops" "lease_2") {} 1).apply sampleService sampleStepLeased

theorem sampleWorkflow_inStep : InStep sampleWorkflow.store "wf_1" "eng" sampleSteps := by
  refine ⟨by decide, ?_, ⟨_, rfl, rfl, rfl, by decide⟩⟩
  intro id hid
  obtain rfl : id = "task_1" := List.mem_singleton.mp hid
  exact ⟨_, rfl, rfl, rfl⟩

theorem workflow_state_never_lags_leased :
    (∃ workflow, sampleStepLeased.store.workflows.lookup "wf_1" = some workflow ∧ workflow.steps = sampleSteps ∧
      (Rollup.derive (stepReadings sampleStepLeased.store "eng" [] sampleSteps)).state = .known workflow.state ∧
      workflow.state = .running) ∧
    sampleForeignLeased.store.workflows.lookup "wf_1" = sampleStepLeased.store.workflows.lookup "wf_1" := by
  have hread : (sampleStepRequest "task_1" "eng" "lease_1").Of sampleWorkflow.store := by
    rintro stored hstored
    obtain rfl := Option.some.inj hstored
    exact ⟨rfl, rfl⟩
  have hfirst : StateStep sampleService sampleWorkflow
      (Op.acquireLease (sampleStepRequest "task_1" "eng" "lease_1") {} 0) sampleStepLeased :=
    ⟨Finmap.lookup_empty _, hread, trivial, rfl⟩
  obtain ⟨⟨workflow, hfound, hsteps, hderived⟩, hforeign⟩ :=
    workflow_state_never_lags sampleWorkflow_inStep (Run.one hfirst)
  have hrunning : (Rollup.derive (stepReadings sampleStepLeased.store "eng" [] sampleSteps)).state =
      .known .running := by decide
  have hstate : workflow.state = .running := by
    rw [hrunning] at hderived
    injection hderived with hstate
    exact hstate.symm
  refine ⟨⟨workflow, hfound, hsteps, hderived, hstate⟩, ?_⟩
  have htask : (sampleStepLeased.store.tasks.lookup "task_2").map (fun task => (task.tenantId, task.workflowId)) =
      some ("ops", some "wf_1") := by decide
  have hstep : StateStep sampleService sampleStepLeased
      (Op.acquireLease (sampleStepRequest "task_2" "ops" "lease_2") {} 1) sampleForeignLeased := by
    refine ⟨show sampleStepLeased.store.leases.lookup "lease_2" = none by decide, ?_, trivial, rfl⟩
    intro stored hstored
    have hstored : sampleStepLeased.store.tasks.lookup "task_2" = some stored := hstored
    rw [hstored, Option.map_some, Option.some_inj] at htask
    exact ⟨congrArg Prod.fst htask, congrArg Prod.snd htask⟩
  have hown : (sampleStepLeased.store.workflows.lookup "wf_1").map Workflow.tenantId = some "eng" := by decide
  rw [hfound, Option.map_some, Option.some_inj] at hown
  rw [hfound]
  refine hforeign _ _ hstep "wf_1" workflow hfound ?_
  intro id hid task hlookup
  obtain rfl : id = "task_2" := List.mem_singleton.mp hid
  rw [hlookup, Option.map_some, Option.some_inj] at htask
  have htenant : task.tenantId = "ops" := congrArg Prod.fst htask
  rw [htenant, hown]
  decide

end SwarmCloud.Scheduler
