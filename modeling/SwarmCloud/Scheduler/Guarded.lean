import SwarmCloud.AttemptState.Delivery

/-! # The scheduler's guarded writes

`SchedulerStore` decides from a task that it read some time ago and writes in a
transaction that reads the task again: a task that has moved on is left alone. The
state of the task's workflow is derived in the same transaction.

A task's lease id is a minted one or none, so `current_lease_id or None` is the field.
The events that are appended after a commit are left out.
-/

namespace SwarmCloud.Scheduler

open Common Lib AttemptState

/-- What an attempt's document says of the attempt itself. -/
structure AttemptRef where
  taskId : String
  generation : Int
  executionName : Option String := none
deriving DecidableEq, Repr

/-- The documents, with the fields of tasks and attempts that only the scheduler and the reconciler read. -/
structure Control where
  store : Store
  platformRefusals : Docs String Int
  parentTaskIds : Docs String String
  attemptRefs : Docs String AttemptRef

/-- A task as its caller read it. -/
structure Snapshot where
  id : String
  task : Task

inductive SkipReason
  | taskMissing
  | stateChanged
  | parkReasonChanged
  | leaseSuperseded
deriving DecidableEq, Repr

structure GuardedWrite where
  write : String
  applied : Bool
  expected : String
  found : Option TaskState
  reason : Option SkipReason := none
  target : Option TaskState := none
deriving DecidableEq, Repr

structure InvalidTransition where
  frm : TaskState
  dst : TaskState
deriving DecidableEq, Repr

def retriesExhausted (attemptCount maxAttempts : Int) : Bool := maxAttempts ≤ attemptCount

/-! ## The state of a workflow -/

section Rollup

variable (s : Store) (tenantId : String) (changed : Dict String Task)

/-- The tasks of the steps as a transaction that writes `changed` will leave them. -/
def stepDocs (steps : List Rollup.WorkflowStep) : List (String × Option Task) :=
  (steps.filterMap Rollup.WorkflowStep.task).dedup.map fun id =>
    (id, ((changed.lookup id).or (s.tasks.lookup id)).filter fun task => task.tenantId = tenantId)

/-- The readings of the steps, from their tasks. -/
def stepReadings (steps : List Rollup.WorkflowStep) : List Rollup.StepReading :=
  let tasks := stepDocs s tenantId changed steps
  let states := tasks.foldl (fun states item => match item.2 with
    | some task => states.insert item.1 task.state
    | none => states) (∅ : Docs String TaskState)
  let absent := (tasks.filter fun item => item.2.isNone).map Prod.fst
  let skipped := (tasks.filter fun item => item.2.any Task.skipped).map Prod.fst
  Rollup.readSteps steps states absent skipped

/-- `derived_state_write`, for any number of changed steps. -/
def derivedStateWrite (workflowId : Option String) (now : Instant) : Option (String × Workflow) :=
  match workflowId.filter (· ≠ "") with
  | none => none
  | some workflowId =>
    match (s.workflows.lookup workflowId).filter fun workflow => workflow.tenantId = tenantId with
    | none => none
    | some workflow =>
      let rollup := Rollup.derive (stepReadings s tenantId changed workflow.steps)
      match rollup.complete, rollup.state with
      | true, .known state =>
        if state = workflow.state then none
        else some (workflowId, { settledUnpin state workflow with state := state, updatedAt := some now })
      | _, _ => none

end Rollup

/-- The routes derive the state of one step's workflow by the same rule. -/
theorem store_derivedStateWrite (s : Store) (a : AttemptTuple) (workflowId : Option String) (changed : Task)
    (now : Instant) :
    s.derivedStateWrite a workflowId changed now =
      derivedStateWrite s a.tenantId [(a.taskId, changed)] workflowId now := by
  have hdocs : s.stepTasks a.tenantId a.taskId changed = stepDocs s a.tenantId [(a.taskId, changed)] := by
    funext steps
    apply List.map_congr_left
    intro id _
    by_cases hid : id = a.taskId
    · simp [hid]
    · simp [hid, List.lookup_cons, beq_false_of_ne hid]
  unfold Store.derivedStateWrite derivedStateWrite stepReadings
  exact hdocs ▸ rfl

namespace Control

variable (c : Control)

/-- `_workflow_write` for one task, as the transaction will leave it. -/
def workflowWrite (taskId tenantId : String) (doc : Task) (now : Instant) : Option (String × Workflow) :=
  derivedStateWrite c.store tenantId [(taskId, doc)] doc.workflowId now

/-- The update of a task and the state of its workflow, in one commit. -/
def writeTask (taskId : String) (patch : Patch) (workflow : Option (String × Workflow)) : Control :=
  { c with store := (c.store.updateTask taskId patch).setWorkflow workflow }

/-- `_write_if_unchanged`. Of what `patch_from` adds, the metadata is the part that a task has here. -/
def writeIfUnchanged (write : String) (task : Snapshot) (patch : Patch) (sameParkReason : Bool)
    (patchFrom : Option (Task → Fields)) (now : Instant) : GuardedWrite × Control :=
  let expected := task.task.state.value
  match c.store.tasks.lookup task.id with
  | none => (⟨write, false, expected, none, some .taskMissing, none⟩, c)
  | some stored =>
    if stored.state ≠ task.task.state then (⟨write, false, expected, some stored.state, some .stateChanged, none⟩, c)
    else if sameParkReason ∧ stored.parkReason ≠ task.task.parkReason then
      (⟨write, false, expected, some stored.state, some .parkReasonChanged, none⟩, c)
    else
      let written := match patchFrom with
        | none => patch
        | some added => { patch with metadata := some (added stored) }
      let workflow := if written.state.isSome then
        c.workflowWrite task.id task.task.tenantId (written.apply stored) now else none
      (⟨write, true, expected, some stored.state, none, patch.state⟩, c.writeTask task.id written workflow)

end Control

/-! ## The calls that write through it -/

/-- The guarded calls, each with what it is given beside the task. -/
inductive GuardedCall
  | recordBlockers (blockers : List Value)
  | park (reason : ParkReason) (nextEligibleAt : Option Instant) (blockedBy : Option (List Value))
  | promoteToReady (patchFrom : Option (Task → Fields))
  | deadLetterParked (reason : String)
  | failBeforeLease (error : String) (endCause : Option EndCause)
  | skipBeforeLease (reason : String)
  | cancel (reason : String) (endCause : Option EndCause)

namespace GuardedCall

def write : GuardedCall → String
  | recordBlockers _ => "record_blockers"
  | park .. => "park"
  | promoteToReady _ => "promote"
  | deadLetterParked _ => "dead_letter"
  | failBeforeLease .. => "fail_before_lease"
  | skipBeforeLease _ => "skip_before_lease"
  | cancel .. => "cancel"

/-- The states a call takes the task from, where it names them itself. -/
def sources : GuardedCall → Option (List TaskState)
  | promoteToReady _ => some [.parked]
  | failBeforeLease .. => some [.ready, .parked]
  | skipBeforeLease _ => some [.ready]
  | _ => none

def target : GuardedCall → Option TaskState
  | recordBlockers _ => none
  | park .. => some .parked
  | promoteToReady _ => some .ready
  | deadLetterParked _ => some .deadLettered
  | failBeforeLease .. => some .failed
  | skipBeforeLease _ => some .cancelled
  | cancel .. => some .cancelled

def sameParkReason : GuardedCall → Bool
  | promoteToReady _ | deadLetterParked _ | failBeforeLease .. => true
  | _ => false

def patchFrom : GuardedCall → Option (Task → Fields)
  | promoteToReady patchFrom => patchFrom
  | _ => none

def patch (now : Instant) : GuardedCall → Patch
  | recordBlockers blockers => { blockedBy := some blockers, updatedAt := some now }
  | park reason nextEligibleAt blockedBy =>
    { state := some .parked, parkReason := some (some reason), updatedAt := some now
      nextEligibleAt := nextEligibleAt.map some, blockedBy := blockedBy }
  | promoteToReady _ =>
    { state := some .ready, parkReason := some none, nextEligibleAt := some none, blockedBy := some []
      updatedAt := some now }
  | deadLetterParked reason =>
    { state := some .deadLettered, nextEligibleAt := some none, blockedBy := some [], completedAt := some now
      lastError := some (some (truncated 1000 reason)), endCause := some none, updatedAt := some now }
  | failBeforeLease error endCause =>
    { state := some .failed, parkReason := some none, nextEligibleAt := some none, blockedBy := some []
      completedAt := some now, lastError := some (some (truncated 1000 error)), endCause := some endCause
      updatedAt := some now }
  | skipBeforeLease reason =>
    { state := some .cancelled, parkReason := some none, blockedBy := some [], completedAt := some now
      lastError := some (some (truncated 1000 reason)), endCause := some none
      resultSummary := some [(skippedSummaryKey, .map [("reason", .str (truncated 1000 reason))])]
      updatedAt := some now }
  | cancel reason endCause =>
    { state := some .cancelled, parkReason := some none, blockedBy := some [], completedAt := some now
      lastError := some (some (truncated 1000 reason)), endCause := some endCause, updatedAt := some now }

/-- `InvalidTransition`, raised before the transaction. -/
def invalid (call : GuardedCall) (frm : TaskState) : Option InvalidTransition :=
  match call.target with
  | none => none
  | some dst =>
    if call.sources.any fun states => frm ∉ states then some ⟨frm, dst⟩
    else if canTransition frm dst then none else some ⟨frm, dst⟩

@[simp] theorem patch_state (call : GuardedCall) (now : Instant) : (call.patch now).state = call.target := by
  cases call <;> rfl

/-- No guarded write names the lease of its task or its attempts. -/
theorem patch_keeps (call : GuardedCall) (now : Instant) :
    (call.patch now).currentLeaseId = none ∧ (call.patch now).attemptCount = none := by
  cases call <;> exact ⟨rfl, rfl⟩

end GuardedCall

namespace Control

variable (c : Control)

/-- `park`, `promote_to_ready`, `dead_letter_parked`, `fail_before_lease`, `skip_before_lease`, `cancel` and
`record_blockers`. -/
def guarded (call : GuardedCall) (task : Snapshot) (now : Instant) :
    Except InvalidTransition (GuardedWrite × Control) :=
  match call.invalid task.task.state with
  | some raised => .error raised
  | none => .ok (c.writeIfUnchanged call.write task (call.patch now) call.sameParkReason call.patchFrom now)

def notStarted : String := "PARKED/QUEUED/READY/SUBMITTED"

def cancelIfNotStartedPatch (reason : String) (endCause : EndCause) (now : Instant) : Patch :=
  { state := some .cancelled, parkReason := some none, blockedBy := some [], nextEligibleAt := some none
    completedAt := some now, lastError := some (some (truncated 1000 reason)), endCause := some (some endCause)
    updatedAt := some now }

def cancelIfNotStarted (task : Snapshot) (reason : String) (endCause : EndCause) (now : Instant) :
    GuardedWrite × Control :=
  match c.store.tasks.lookup task.id with
  | none => (⟨"cancel_if_not_started", false, notStarted, none, some .taskMissing, none⟩, c)
  | some stored =>
    if stored.state ∉ pendingStates then
      (⟨"cancel_if_not_started", false, notStarted, some stored.state, some .stateChanged, none⟩, c)
    else
      let patch := cancelIfNotStartedPatch reason endCause now
      (⟨"cancel_if_not_started", true, notStarted, some stored.state, none, some .cancelled⟩,
        c.writeTask task.id patch (c.workflowWrite task.id task.task.tenantId (patch.apply stored) now))

/-! ## The cascade to a child -/

structure Cascade where
  childId : String
  tenantId : String
  parentTaskId : String
  why : String
  eventId : String

/-- The update of a child: a pending one ends, and any other is flagged. -/
def cascadePatch (x : Cascade) (stored : Task) (now : Instant) : Patch :=
  let mark : Value := .map [("why", .str x.why), ("parent_task_id", .str x.parentTaskId)]
  let flagged : Patch :=
    { cancelRequested := some true, metadata := some (stored.metadata.set childCascade mark), updatedAt := some now }
  if stored.state ∈ pendingStates then
    { flagged with
      state := some .cancelled, completedAt := some now, endCause := some (some .childCascade)
      parkReason := some none, blockedBy := some [], nextEligibleAt := some none
      lastError := some (some ("cancelled because of its parent " ++ x.parentTaskId ++ ": " ++ x.why)) }
  else flagged

theorem cascadePatch_state (x : Cascade) (stored : Task) (now : Instant) :
    (cascadePatch x stored now).state = if stored.state ∈ pendingStates then some .cancelled else none := by
  rw [cascadePatch]
  split <;> rfl

theorem cascadePatch_lease (x : Cascade) (stored : Task) (now : Instant) :
    (cascadePatch x stored now).currentLeaseId = none := by
  rw [cascadePatch]
  split <;> rfl

def cascadeEvent (x : Cascade) (stored : Task) (now : Instant) : Event :=
  let immediate : Bool := stored.state ∈ pendingStates
  ⟨x.eventId, x.childId, x.tenantId, if immediate then .cancelled else .cancelRequested, now, none, none, none,
    [("requested_by", .str ("cascade:" ++ x.parentTaskId)), ("by", .str "scheduler"), ("why", .str x.why),
      ("from_state", .str stored.state.value),
      ("phase", .str (if immediate then "cancelled" else "cancel_requested"))]⟩

/-- `children.cancel_child`, with its answer. -/
def cancelChild (x : Cascade) (now : Instant) : Option String × Control :=
  match c.store.tasks.lookup x.childId with
  | none => (none, c)
  | some stored =>
    if stored.tenantId ≠ x.tenantId ∨ c.parentTaskIds.lookup x.childId ≠ some x.parentTaskId then (none, c)
    else if stored.state ∈ terminalStates then (none, c)
    else if stored.cancelRequested ∧ Value.truthy (stored.metadata.lookup childCascade) then (none, c)
    else
      let patch := cascadePatch x stored now
      let immediate : Bool := stored.state ∈ pendingStates
      let workflow := if immediate then c.workflowWrite x.childId x.tenantId (patch.apply stored) now else none
      let written := c.writeTask x.childId patch workflow
      (some (if immediate then "cancelled" else "flagged"),
        { written with store := written.store.setEvent (cascadeEvent x stored now) })

end Control

end SwarmCloud.Scheduler
