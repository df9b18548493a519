import SwarmCloud.Admission.Spec
import SwarmCloud.Rollup.Derive
import SwarmCloud.Lib.Dict

/-! # The documents behind the state routes

What `attemptstate.AttemptState` reads and writes: a task with its events and its
carry, the attempt, the lease and its pools, and the workflow of the task. A field
that a document may lack is an option.
-/

namespace SwarmCloud.AttemptState

open Common Lib

inductive ParkReason
  | providerQuotaExhausted
  | providerCooldown
  | providerOutage
  | scheduledRetry
  | dependencyIncomplete
  | manualPause
  | budgetExhausted
  | credentialMissing
  | childrenIncomplete
  | ciPending
  | humanRequired
  | awaitingInput
  | fixRoundsRunning
  | platformRefused
deriving DecidableEq, Repr

namespace ParkReason

def all : List ParkReason :=
  [.providerQuotaExhausted, .providerCooldown, .providerOutage, .scheduledRetry,
    .dependencyIncomplete, .manualPause, .budgetExhausted, .credentialMissing, .childrenIncomplete,
    .ciPending, .humanRequired, .awaitingInput, .fixRoundsRunning, .platformRefused]

def value : ParkReason → String
  | .providerQuotaExhausted => "PROVIDER_QUOTA_EXHAUSTED"
  | .providerCooldown => "PROVIDER_COOLDOWN"
  | .providerOutage => "PROVIDER_OUTAGE"
  | .scheduledRetry => "SCHEDULED_RETRY"
  | .dependencyIncomplete => "DEPENDENCY_INCOMPLETE"
  | .manualPause => "MANUAL_PAUSE"
  | .budgetExhausted => "BUDGET_EXHAUSTED"
  | .credentialMissing => "CREDENTIAL_MISSING"
  | .childrenIncomplete => "CHILDREN_INCOMPLETE"
  | .ciPending => "CI_PENDING"
  | .humanRequired => "HUMAN_REQUIRED"
  | .awaitingInput => "AWAITING_INPUT"
  | .fixRoundsRunning => "FIX_ROUNDS_RUNNING"
  | .platformRefused => "PLATFORM_REFUSED"

def ofValue (value : String) : Option ParkReason := all.find? fun item => item.value = value

end ParkReason

inductive EventType
  | submitted
  | queued
  | parked
  | ready
  | leaseAcquired
  | leaseReleased
  | dispatched
  | starting
  | running
  | heartbeat
  | checkpointStarted
  | checkpointCompleted
  | checkpointRestored
  | quotaExhausted
  | retrying
  | succeeded
  | failed
  | cancelRequested
  | cancelled
  | deadLettered
  | generationFenced
  | humanHandoffRequested
  | humanControlTaken
  | humanControlReturned
  | humanHandoffResolved
  | startupProgress
  | budgetWarning
deriving DecidableEq, Repr

namespace EventType

def all : List EventType :=
  [.submitted, .queued, .parked, .ready, .leaseAcquired, .leaseReleased, .dispatched, .starting,
    .running, .heartbeat, .checkpointStarted, .checkpointCompleted, .checkpointRestored,
    .quotaExhausted, .retrying, .succeeded, .failed, .cancelRequested, .cancelled, .deadLettered,
    .generationFenced, .humanHandoffRequested, .humanControlTaken, .humanControlReturned,
    .humanHandoffResolved, .startupProgress, .budgetWarning]

def value : EventType → String
  | .submitted => "submitted"
  | .queued => "queued"
  | .parked => "parked"
  | .ready => "ready"
  | .leaseAcquired => "lease_acquired"
  | .leaseReleased => "lease_released"
  | .dispatched => "dispatched"
  | .starting => "starting"
  | .running => "running"
  | .heartbeat => "heartbeat"
  | .checkpointStarted => "checkpoint_started"
  | .checkpointCompleted => "checkpoint_completed"
  | .checkpointRestored => "checkpoint_restored"
  | .quotaExhausted => "quota_exhausted"
  | .retrying => "retrying"
  | .succeeded => "succeeded"
  | .failed => "failed"
  | .cancelRequested => "cancel_requested"
  | .cancelled => "cancelled"
  | .deadLettered => "dead_lettered"
  | .generationFenced => "generation_fenced"
  | .humanHandoffRequested => "human_handoff_requested"
  | .humanControlTaken => "human_control_taken"
  | .humanControlReturned => "human_control_returned"
  | .humanHandoffResolved => "human_handoff_resolved"
  | .startupProgress => "startup_progress"
  | .budgetWarning => "budget_warning"

def ofValue (value : String) : Option EventType := all.find? fun item => item.value = value

end EventType

inductive EndCause
  | timeout
  | cannotStart
  | lostWorker
  | outputsMissing
  | inputsUnavailable
  | dispatchFailed
  | runnerError
  | cancelRequested
  | failedParent
  | cancelledParent
  | workflowSweep
  | specSignatureInvalid
  | mergeRefused
  | mergeFailed
  | verdictRefused
  | verdictFailed
  | publishRefused
  | childCascade
  | budgetExceeded
  | fixLoopExhausted
deriving DecidableEq, Repr

namespace EndCause

def all : List EndCause :=
  [.timeout, .cannotStart, .lostWorker, .outputsMissing, .inputsUnavailable, .dispatchFailed,
    .runnerError, .cancelRequested, .failedParent, .cancelledParent, .workflowSweep,
    .specSignatureInvalid, .mergeRefused, .mergeFailed, .verdictRefused, .verdictFailed,
    .publishRefused, .childCascade, .budgetExceeded, .fixLoopExhausted]

def value : EndCause → String
  | .timeout => "timeout"
  | .cannotStart => "cannot_start"
  | .lostWorker => "lost_worker"
  | .outputsMissing => "outputs_missing"
  | .inputsUnavailable => "inputs_unavailable"
  | .dispatchFailed => "dispatch_failed"
  | .runnerError => "runner_error"
  | .cancelRequested => "cancel_requested"
  | .failedParent => "failed_parent"
  | .cancelledParent => "cancelled_parent"
  | .workflowSweep => "workflow_sweep"
  | .specSignatureInvalid => "spec_signature_invalid"
  | .mergeRefused => "merge_refused"
  | .mergeFailed => "merge_failed"
  | .verdictRefused => "verdict_refused"
  | .verdictFailed => "verdict_failed"
  | .publishRefused => "publish_refused"
  | .childCascade => "child_cascade"
  | .budgetExceeded => "budget_exceeded"
  | .fixLoopExhausted => "fix_loop_exhausted"

def ofValue (value : String) : Option EndCause := all.find? fun item => item.value = value

end EndCause

/-! ## Stored values -/

/-- A value inside a free-form field of a document. -/
inductive Value
  | null
  | bool (b : Bool)
  | int (n : Int)
  | float (x : Float)
  | str (text : String)
  | instant (moment : Instant)
  | list (items : List Value)
  | map (members : List (String × Value))

abbrev Fields := Dict String Value

namespace Value

def isMapping : Option Value → Bool
  | some (.map _) => true
  | _ => false

def mapping : Option Value → Fields
  | some (.map members) => members
  | _ => []

/-- `_count`: a whole number that is not negative, and 0 for anything else. -/
def count : Option Value → Int
  | some (.int n) => if 0 ≤ n then n else 0
  | _ => 0

def asInstant : Option Value → Option Instant
  | some (.instant moment) => some moment
  | _ => none

def asString : Option Value → Option String
  | some (.str text) => some text
  | _ => none

/-- `bool(value)`. -/
def truthy : Option Value → Bool
  | none | some .null => false
  | some (.bool b) => b
  | some (.int n) => n ≠ 0
  | some (.float x) => x != 0
  | some (.str text) => text ≠ ""
  | some (.instant _) => true
  | some (.list items) => !items.isEmpty
  | some (.map members) => !members.isEmpty

def ofInstant : Option Instant → Value
  | some moment => .instant moment
  | none => .null

def ofInt : Option Int → Value
  | some n => .int n
  | none => .null

def ofString : Option String → Value
  | some text => .str text
  | none => .null

end Value

/-- `{**fields, **later}`. -/
def Fields.merge (fields later : Fields) : Fields := later.foldl (fun fields item => fields.set item.1 item.2) fields

/-! ## Documents -/

structure Task where
  tenantId : String
  state : TaskState
  currentGeneration : Option Int := none
  currentLeaseId : Option String := none
  attemptCount : Option Int := none
  maxAttempts : Option Int := none
  cancelRequested : Bool := false
  workflowId : Option String := none
  metadata : Fields := []
  parkReason : Option ParkReason := none
  blockedBy : List Value := []
  nextEligibleAt : Option Instant := none
  startedAt : Option Instant := none
  completedAt : Option Instant := none
  lastError : Option String := none
  endCause : Option EndCause := none
  resultSummary : Option Fields := none
  attemptTotals : Option Value := none
  updatedAt : Option Instant := none

/-- The fields of one update of a task, each where the update names it. No update of a task names its
tenant, its workflow or its generation: only `Store.acquire`, `Store.fence` and `Store.cancel` move the last. -/
structure Patch where
  state : Option TaskState := none
  currentLeaseId : Option (Option String) := none
  attemptCount : Option Int := none
  cancelRequested : Option Bool := none
  metadata : Option Fields := none
  parkReason : Option (Option ParkReason) := none
  blockedBy : Option (List Value) := none
  nextEligibleAt : Option (Option Instant) := none
  startedAt : Option Instant := none
  completedAt : Option Instant := none
  lastError : Option (Option String) := none
  endCause : Option (Option EndCause) := none
  resultSummary : Option Fields := none
  attemptTotals : Option Value := none
  updatedAt : Option Instant := none

def Patch.apply (patch : Patch) (task : Task) : Task :=
  { task with
    state := patch.state.getD task.state
    currentLeaseId := patch.currentLeaseId.getD task.currentLeaseId
    attemptCount := patch.attemptCount.or task.attemptCount
    cancelRequested := patch.cancelRequested.getD task.cancelRequested
    metadata := patch.metadata.getD task.metadata
    parkReason := patch.parkReason.getD task.parkReason
    blockedBy := patch.blockedBy.getD task.blockedBy
    nextEligibleAt := patch.nextEligibleAt.getD task.nextEligibleAt
    startedAt := patch.startedAt.or task.startedAt
    completedAt := patch.completedAt.or task.completedAt
    lastError := patch.lastError.getD task.lastError
    endCause := patch.endCause.getD task.endCause
    resultSummary := patch.resultSummary.or task.resultSummary
    attemptTotals := patch.attemptTotals.or task.attemptTotals
    updatedAt := patch.updatedAt.or task.updatedAt }

structure Event where
  eventId : String
  taskId : String
  tenantId : String
  kind : EventType
  at_ : Instant
  attemptId : Option String
  leaseId : Option String
  generation : Option Int
  detail : Fields

/-- `tasks/…/events/…`. -/
structure EventKey where
  taskId : String
  eventId : String
deriving DecidableEq, Repr

structure AttemptDoc where
  tenantId : String
  completedAt : Option Instant := none
  exitCode : Option Int := none
  error : Option String := none

/-- `tasks/…/carry/…`: the uploads of one parked attempt. -/
structure CarryKey where
  taskId : String
  attemptId : String
deriving DecidableEq, Repr

structure Manifest where
  tenantId : String
  taskId : String
  attemptId : String
  at_ : Instant
  artifacts : List Value

/-- `tasks/…/carry/parks`: the parked attempts, oldest first. -/
structure CarryIndex where
  tenantId : String
  taskId : String
  attempts : List (String × Instant)
  updatedAt : Instant

structure Workflow where
  tenantId : String
  state : TaskState
  steps : List Rollup.WorkflowStep
  graphPins : Fields := []
  graphPinRepos : List String := []
  updatedAt : Option Instant := none

structure Store where
  tasks : Docs String Task
  pools : Docs String Admission.PoolDoc
  leases : Docs String Admission.LeaseDoc
  events : Docs EventKey Event
  attempts : Docs String AttemptDoc
  carries : Docs CarryKey Manifest
  carryIndexes : Docs String CarryIndex
  workflows : Docs String Workflow

end SwarmCloud.AttemptState
