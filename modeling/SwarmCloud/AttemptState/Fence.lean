import SwarmCloud.AttemptState.Documents

/-! # The fence, the request's event and the shared writes

Each route reads the event of its request first (`_seen`), then the task and the
lease (`_fenced`), and only then writes. A raised refusal aborts the transaction, so
it carries no store.
-/

namespace SwarmCloud.AttemptState

open Common Lib

structure AttemptTuple where
  tenantId : String
  taskId : String
  attemptId : String
  leaseId : String
  generation : Int
deriving DecidableEq, Repr

def AttemptTuple.encode (a : AttemptTuple) : String :=
  "\n".intercalate [a.tenantId, a.taskId, a.attemptId, a.leaseId, toString a.generation]

/-- The refusals of the routes, each with the message it answers. -/
inductive Refusal
  | validationFailed (message : String)
  | transitionRefused (message : String)
  | attemptFenced (message : String)
  | stateConflict (message : String)
deriving DecidableEq, Repr

/-- The service, with what it has of the platform: the SHA-256 of a text in hex, the size check of a
free-form field, the text of a value and of an instant, and the instant that an ISO text names. -/
structure Service where
  hexdigest : String → String
  bounded : Value → Bool
  text : Value → String
  isoformat : Instant → String
  fromIsoformat : String → Option Instant
  leaseExtension : Int

def requestEventId (service : Service) (a : AttemptTuple) (op requestId : String) : String :=
  "evt_" ++ String.ofList
    ((service.hexdigest ("swarm-state-request/v1\n" ++ a.encode ++ "\n" ++ op ++ "\n" ++ requestId)).toList.take 20)

def fenceReason (task : Option Task) (lease : Option Admission.LeaseDoc) (a : AttemptTuple) : Option String :=
  match task with
  | none => some "task document no longer exists"
  | some task =>
    if task.tenantId ≠ a.tenantId then some "task belongs to another tenant"
    else if task.currentGeneration ≠ some a.generation then some "task has moved to a newer generation"
    else if task.state ∈ terminalStates then some ("task is already terminal (" ++ task.state.value ++ ")")
    else if task.state ∉ concurrencyStates then
      some ("task no longer holds capacity (state=" ++ task.state.value ++ ")")
    else match lease with
      | none => some "lease document is gone"
      | some lease =>
        if lease.tenantId ≠ a.tenantId then some "lease belongs to another tenant"
        else if lease.releasedAt.isSome then some "lease has already been released"
        else if lease.generation ≠ a.generation then some "lease belongs to a different generation"
        else if lease.taskId ≠ a.taskId ∨ lease.attemptId ≠ a.attemptId then
          some "lease belongs to a different attempt"
        else if task.currentLeaseId.isSome ∧ task.currentLeaseId ≠ some a.leaseId then
          some "task points at a different lease"
        else none

/-- `fence_view`: what every writing answer carries of the task. -/
structure FenceView where
  state : TaskState
  currentGeneration : Option Int
  currentLeaseId : Option String
  cancelRequested : Bool
  nextEligibleAt : Option Instant
deriving DecidableEq, Repr

def fenceView (task : Task) : FenceView :=
  ⟨task.state, task.currentGeneration, task.currentLeaseId, task.cancelRequested, task.nextEligibleAt⟩

structure Answer where
  task : FenceView
  repeat_ : Bool := false
  refunded : Option Bool := none
  expiresAt : Option Instant := none
deriving DecidableEq, Repr

namespace Store

/-- `_fenced`: the task, if this attempt still owns it. -/
def fenced (s : Store) (a : AttemptTuple) : Except Refusal Task :=
  match s.tasks.lookup a.taskId with
  | none => .error (.attemptFenced "this attempt no longer owns its task: task document no longer exists")
  | some task =>
    match fenceReason (some task) (s.leases.lookup a.leaseId) a with
    | some reason => .error (.attemptFenced ("this attempt no longer owns its task: " ++ reason))
    | none => .ok task

/-- `_seen`: the task as it stands when the request's event is there, and none when it is not. -/
def seen (s : Store) (a : AttemptTuple) (eventId : String) : Except Refusal (Option Task) :=
  if (s.events.lookup ⟨a.taskId, eventId⟩).isNone then .ok none
  else match s.tasks.lookup a.taskId with
    | none => .error (.attemptFenced "this attempt no longer owns its task")
    | some task =>
      if task.tenantId ≠ a.tenantId then .error (.attemptFenced "this attempt no longer owns its task")
      else .ok (some task)

/-- A requested write under its event: a repeat is answered from the task, and a first one goes to
`apply` with the fenced task. -/
def requested (s : Store) (a : AttemptTuple) (eventId : String)
    (apply : Task → Except Refusal (Store × Answer)) : Except Refusal (Store × Answer) :=
  match s.seen a eventId with
  | .error refusal => .error refusal
  | .ok (some task) => .ok (s, { task := fenceView task, repeat_ := true })
  | .ok none =>
    match s.fenced a with
    | .error refusal => .error refusal
    | .ok task => apply task

def setEvent (s : Store) (event : Event) : Store :=
  { s with events := s.events.insert ⟨event.taskId, event.eventId⟩ event }

def setEvents (s : Store) (events : List Event) : Store := events.foldl setEvent s

def updateTask (s : Store) (taskId : String) (patch : Patch) : Store :=
  { s with tasks := s.tasks.modify taskId patch.apply }

/-- `release_lease_in_transaction` over the pools and the leases of this store. -/
def releaseLease (s : Store) (leaseId reason : String) (now : Instant) : Bool × Store :=
  let released := Admission.releaseLeaseInTransaction ⟨∅, s.pools, s.leases⟩ leaseId reason now
  (released.1, { s with pools := released.2.pools, leases := released.2.leases })

/-- The attempt's end, merged into its document. -/
def endAttempt (s : Store) (a : AttemptTuple) (now : Instant) (exitCode : Option Int) (error : Option String) :
    Store :=
  let doc : AttemptDoc := (s.attempts.lookup a.attemptId).getD { tenantId := a.tenantId }
  { s with attempts := s.attempts.insert a.attemptId { doc with
      tenantId := a.tenantId, completedAt := some now, exitCode := exitCode, error := error } }

end Store

/-- `_event`. -/
def event (a : AttemptTuple) (kind : EventType) (detail : Fields) (now : Instant) (eventId : String) : Event :=
  ⟨eventId, a.taskId, a.tenantId, kind, now, some a.attemptId, some a.leaseId, some a.generation, detail⟩

/-! ## The workflow of a step -/

def skippedSummaryKey : String := "skipped"

def Task.skipped (task : Task) : Bool :=
  task.resultSummary.any fun summary => Value.isMapping (summary.lookup skippedSummaryKey)

/-- `settled_unpin`: a workflow that settles with pins loses them. -/
def settledUnpin (state : TaskState) (workflow : Workflow) : Workflow :=
  if state ∈ terminalStates ∧ !(workflow.graphPins.isEmpty && workflow.graphPinRepos.isEmpty) then
    { workflow with graphPins := [], graphPinRepos := [] }
  else workflow

namespace Store

/-- The tasks of a workflow's steps as this transaction will leave them. -/
def stepTasks (s : Store) (tenantId taskId : String) (changed : Task) (steps : List Rollup.WorkflowStep) :
    List (String × Option Task) :=
  (steps.filterMap Rollup.WorkflowStep.task).dedup.map fun id =>
    (id, ((if id = taskId then some changed else s.tasks.lookup id).filter fun task => task.tenantId = tenantId))

/-- `derived_state_write`: the workflow with its state derived again, and none when there is nothing to
write. -/
def derivedStateWrite (s : Store) (a : AttemptTuple) (workflowId : Option String) (changed : Task) (now : Instant) :
    Option (String × Workflow) :=
  match workflowId.filter (· ≠ "") with
  | none => none
  | some workflowId =>
    match (s.workflows.lookup workflowId).filter fun workflow => workflow.tenantId = a.tenantId with
    | none => none
    | some workflow =>
      let tasks := s.stepTasks a.tenantId a.taskId changed workflow.steps
      let states := tasks.foldl (fun states item => match item.2 with
        | some task => states.insert item.1 task.state
        | none => states) (∅ : Docs String TaskState)
      let absent := (tasks.filter fun item => item.2.isNone).map Prod.fst
      let skipped := (tasks.filter fun item => item.2.any Task.skipped).map Prod.fst
      let rollup := Rollup.derive (Rollup.readSteps workflow.steps states absent skipped)
      match rollup.complete, rollup.state with
      | true, .known state =>
        if state = workflow.state then none
        else some (workflowId, { settledUnpin state workflow with state := state, updatedAt := some now })
      | _, _ => none

def setWorkflow (s : Store) : Option (String × Workflow) → Store
  | none => s
  | some (workflowId, workflow) => { s with workflows := s.workflows.insert workflowId workflow }

end Store

end SwarmCloud.AttemptState
