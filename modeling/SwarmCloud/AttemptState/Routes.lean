import SwarmCloud.AttemptState.Parks

/-! # The routes

`transition`, `park`, `finish`, `retry` and `heartbeat`, each one transaction. The
totals of the attempts are read outside it and given with the call, as are the ids of
the events that name no request.
-/

namespace SwarmCloud.AttemptState

open Common Lib

structure TransitionBody where
  requestId : String
  dst : String
  detail : Fields := []

structure FinishBody where
  requestId : String
  state : String
  exitCode : Option Int := none
  error : Option String := none
  endCause : Option String := none
  resultSummary : Option Fields := none

structure RetryBody where
  requestId : String
  exitCode : Option Int := none
  error : String
  cause : String
  resultSummary : Option Fields := none
  retryDelaySeconds : Int := 0
  detail : Fields := []
  endCause : Option String := none

/-- What a call brings beside its body: the clock, the totals and fresh event ids. -/
structure Given where
  now : Instant
  totals : Option Value := none
  releaseEventId : String
  announceId : Nat → String := fun _ => ""

def maxFreeFormBytes : Nat := 256 * 1024

def tooLarge (what : String) : Refusal :=
  .validationFailed (what ++ " is larger than " ++ toString maxFreeFormBytes ++ " bytes")

/-- `_end_cause`: the cause that a body names, if it names one. -/
def endCauseOf : Option String → Except Refusal (Option EndCause)
  | none => .ok none
  | some value =>
    match EndCause.ofValue value with
    | none => .error (.validationFailed "end_cause must be an EndCause value")
    | some cause => .ok (some cause)

def isReasonChar (c : Char) : Bool := c.isAlphanum || c ∈ ['_', '.', ':', '-']

/-- The pattern of a release reason: 1 to 96 of the letters, digits and marks. -/
def isReason (text : String) : Bool := text.toList.all isReasonChar && 1 ≤ text.length && text.length ≤ 96

def mayNotMove (frm dst : TaskState) : Refusal :=
  .transitionRefused ("a worker may not move a task from " ++ frm.value ++ " to " ++ dst.value)

namespace Store

/-- The writes of an end: the lease is released, the task and its workflow are updated, the attempt
ends, and the events are set. -/
def endWrites (s : Store) (a : AttemptTuple) (given : Given) (releaseReason : String) (patch : Patch)
    (workflow : Option (String × Workflow)) (exitCode : Option Int) (error : Option String) (events : List Event) :
    Store :=
  let (released, freed) := s.releaseLease a.leaseId releaseReason given.now
  let events := events ++ if released then
    [event a .leaseReleased [("reason", .str releaseReason)] given.now given.releaseEventId] else []
  (((freed.updateTask a.taskId patch).setWorkflow workflow).endAttempt a given.now exitCode error).setEvents events

/-- `_record_carry`. -/
def recordCarry (s : Store) (a : AttemptTuple) (uploads : List Value) (now : Instant) : Store :=
  let listed := ((s.carryIndexes.lookup a.taskId).map CarryIndex.attempts).getD []
  { s with
    carries := s.carries.insert ⟨a.taskId, a.attemptId⟩ ⟨a.tenantId, a.taskId, a.attemptId, now, uploads⟩
    carryIndexes := s.carryIndexes.insert a.taskId
      ⟨a.tenantId, a.taskId, (listed.filter fun item => item.1 ≠ a.attemptId) ++ [(a.attemptId, now)], now⟩ }

def workflowWrite (s : Store) (a : AttemptTuple) (task : Task) (patch : Patch) (now : Instant) :
    Option (String × Workflow) :=
  s.derivedStateWrite a task.workflowId (patch.apply task) now

/-! ## Transition -/

/-- The states that the route walks through, and the event of each. -/
def walkEvent : TaskState → Option EventType
  | .dispatched => some .dispatched
  | .starting => some .starting
  | .running => some .running
  | _ => none

/-- The move of a fenced task. -/
def transitionTask (s : Store) (a : AttemptTuple) (body : TransitionBody) (given : Given) (dst : TaskState)
    (kind : EventType) (eventId : String) (task : Task) : Except Refusal (Store × Answer) :=
  if task.state = dst then .ok (s, { task := fenceView task, repeat_ := true })
  else if !workerMayTransition task.state dst then .error (mayNotMove task.state dst)
  else
    let patch : Patch :=
      { state := some dst, updatedAt := some given.now
        startedAt := if dst = .starting then some given.now else none }
    let detail := body.detail.set "request_id" (.str body.requestId)
    let workflow := s.workflowWrite a task patch given.now
    .ok (((s.setEvent (event a kind detail given.now eventId)).updateTask a.taskId patch).setWorkflow workflow,
      { task := fenceView (patch.apply task) })

def transition (service : Service) (s : Store) (a : AttemptTuple) (body : TransitionBody) (given : Given) :
    Except Refusal (Store × Answer) :=
  match TaskState.ofValue body.dst with
  | none => .error (.transitionRefused "to must be a task state")
  | some dst =>
    match walkEvent dst with
    | none => .error (.transitionRefused ("this route walks LEASED -> DISPATCHED -> STARTING -> RUNNING; " ++
        "a park, a finish or a retry has its own route"))
    | some kind =>
      if !service.bounded (.map body.detail) then .error (tooLarge "detail")
      else
        let eventId := requestEventId service a "transition" body.requestId
        s.requested a eventId (transitionTask s a body given dst kind eventId)

/-! ## Park -/

/-- The events that a park announces beside its own. -/
def announced (service : Service) (a : AttemptTuple) (body : ParkBody) (given : Given) :
    Except Refusal (List Event) :=
  body.announce.zipIdx.mapM fun item =>
    match EventType.ofValue item.1.1 with
    | none => .error (.validationFailed "type must be an EventType value")
    | some kind =>
      if !service.bounded (.map item.1.2) then .error (tooLarge "detail")
      else .ok (event a kind item.1.2 given.now (given.announceId item.2))

/-- The park of a fenced task. -/
def parkTask (service : Service) (s : Store) (a : AttemptTuple) (body : ParkBody) (given : Given)
    (reason : ParkReason) (events : List Event) (eventId : String) (task : Task) :
    Except Refusal (Store × Answer) :=
  if !workerMayTransition task.state .parked then
    .error (.transitionRefused ("a worker may not park a task that is " ++ task.state.value))
  else if body.uploads ≠ [] ∧ (s.carryIndexes.lookup a.taskId).any fun index => index.tenantId ≠ a.tenantId then
    .error (.stateConflict "the task's carry index is another tenant's")
  else
    match parkPayload service task reason body a given.now with
    | .error refusal => .error refusal
    | .ok plan =>
      if plan.kind = .ready ∧ !workerMayTransition task.state .ready then
        .error (.transitionRefused ("a worker may not requeue a task that is " ++ task.state.value))
      else
        let error := parkAttemptError reason plan.detail
        let patch := { plan.patch with attemptTotals := given.totals }
        let workflow := s.workflowWrite a task patch given.now
        let ended := s.endWrites a given plan.releaseReason patch workflow (some 75) (some error)
          (events ++ [event a plan.kind plan.detail given.now eventId])
        .ok (if body.uploads.isEmpty then ended else ended.recordCarry a body.uploads given.now,
          { task := fenceView (patch.apply task)
            refunded := some (Value.truthy (plan.detail.lookup "attempt_refunded")) })

def park (service : Service) (s : Store) (a : AttemptTuple) (body : ParkBody) (given : Given) :
    Except Refusal (Store × Answer) :=
  match ParkReason.ofValue body.reason with
  | none => .error (.validationFailed "reason must be a ParkReason value")
  | some reason =>
    if decide (reason = .ciPending) ≠ body.ci.isSome then
      .error (.validationFailed "ci is sent with a CI_PENDING park, and only with one")
    else if !service.bounded (.map body.detail) then .error (tooLarge "detail")
    else if !body.uploads.isEmpty && !service.bounded (.list body.uploads) then .error (tooLarge "uploads")
    else match announced service a body given with
      | .error refusal => .error refusal
      | .ok events =>
        let eventId := requestEventId service a "park" body.requestId
        s.requested a eventId (parkTask service s a body given reason events eventId)

/-! ## Finish and retry -/

def terminalEvent : TaskState → Option EventType
  | .succeeded => some .succeeded
  | .failed => some .failed
  | .cancelled => some .cancelled
  | .deadLettered => some .deadLettered
  | _ => none

/-- The finish of a fenced task. -/
def finishTask (s : Store) (a : AttemptTuple) (body : FinishBody) (given : Given) (dst : TaskState)
    (kind : EventType) (cause : Option EndCause) (eventId : String) (task : Task) :
    Except Refusal (Store × Answer) :=
  if !workerMayTransition task.state dst then .error (mayNotMove task.state dst)
  else
    let patch : Patch :=
      { state := some dst, updatedAt := some given.now, completedAt := some given.now
        currentLeaseId := some none, lastError := some body.error, endCause := some cause
        resultSummary := body.resultSummary, attemptTotals := given.totals }
    let detail : Fields := [("exit_code", Value.ofInt body.exitCode), ("error", Value.ofString body.error),
      ("request_id", .str body.requestId)]
    let workflow := s.workflowWrite a task patch given.now
    .ok (s.endWrites a given ("terminal:" ++ dst.value) patch workflow body.exitCode body.error
        [event a kind detail given.now eventId],
      { task := fenceView (patch.apply task) })

def finish (service : Service) (s : Store) (a : AttemptTuple) (body : FinishBody) (given : Given) :
    Except Refusal (Store × Answer) :=
  match TaskState.ofValue body.state with
  | none => .error (.transitionRefused "state must be a task state")
  | some dst =>
    match terminalEvent dst with
    | none => .error (.transitionRefused (dst.value ++ " is not terminal; finish ends the task"))
    | some kind =>
      match endCauseOf body.endCause with
      | .error refusal => .error refusal
      | .ok cause =>
        if body.resultSummary.any fun summary => !service.bounded (.map summary) then
          .error (tooLarge "result_summary")
        else
          let eventId := requestEventId service a "finish" body.requestId
          s.requested a eventId (finishTask s a body given dst kind cause eventId)

def cancelEndCause (task : Task) : EndCause :=
  if Value.truthy (task.metadata.lookup childCascade) then .childCascade else .cancelRequested

/-- Where a retry takes the task: cancelled on request, failed once its attempts are spent, and ready
otherwise. -/
def retryTarget (task : Task) : TaskState × EventType :=
  if task.cancelRequested then (.cancelled, .cancelled)
  else if countInt (some (task.maxAttempts.getD 3)) ≤ countInt task.attemptCount then (.failed, .failed)
  else (.ready, .retrying)

/-- The update of a retry and the reason of its release. -/
def retryPatch (task : Task) (body : RetryBody) (given : Given) (cause : Option EndCause) : Patch × String :=
  let target := (retryTarget task).1
  let patch : Patch :=
    { state := some target, updatedAt := some given.now, currentLeaseId := some none
      lastError := some (some (if target = .cancelled then "cancelled on request; " ++ body.error else body.error))
      resultSummary := body.resultSummary, attemptTotals := given.totals }
  if target = .ready then
    ({ patch with nextEligibleAt := some (some (given.now + seconds body.retryDelaySeconds)) }, "retry:" ++ body.cause)
  else
    ({ patch with
        completedAt := some given.now, nextEligibleAt := some none
        endCause := some (if target = .cancelled then some (cancelEndCause task) else cause) },
      "terminal:" ++ target.value)

/-- `_retry_writes`. -/
def retryWrites (s : Store) (a : AttemptTuple) (body : RetryBody) (given : Given) (cause : Option EndCause)
    (eventId : String) (task : Task) : Except Refusal (Store × Answer) :=
  let (target, kind) := retryTarget task
  if !workerMayTransition task.state target then .error (mayNotMove task.state target)
  else
    let (patch, releaseReason) := retryPatch task body given cause
    let detail := Fields.merge [("exit_code", Value.ofInt body.exitCode), ("error", .str body.error),
      ("cause", .str body.cause)] (body.detail.merge
        [("to_state", .str target.value), ("attempt_count", .int (countInt task.attemptCount)),
          ("max_attempts", .int (countInt (some (task.maxAttempts.getD 3)))),
          ("retries_exhausted", .bool (target = .failed)), ("request_id", .str body.requestId)])
    let workflow := s.workflowWrite a task patch given.now
    .ok (s.endWrites a given releaseReason patch workflow body.exitCode (some body.error)
        [event a kind detail given.now eventId],
      { task := fenceView (patch.apply task) })

def retry (service : Service) (s : Store) (a : AttemptTuple) (body : RetryBody) (given : Given) :
    Except Refusal (Store × Answer) :=
  match endCauseOf body.endCause with
  | .error refusal => .error refusal
  | .ok cause =>
    if !isReason body.cause then .error (.validationFailed "cause must be a short cause name")
    else if body.resultSummary.any fun summary => !service.bounded (.map summary) then
      .error (tooLarge "result_summary")
    else if !service.bounded (.map body.detail) then .error (tooLarge "detail")
    else
      let eventId := requestEventId service a "retry" body.requestId
      s.requested a eventId (retryWrites s a body given cause eventId)

/-! ## Heartbeat -/

def heartbeat (service : Service) (s : Store) (a : AttemptTuple) (given : Given) : Except Refusal (Store × Answer) :=
  match s.fenced a with
  | .error refusal => .error refusal
  | .ok task =>
    let expiresAt := given.now + seconds service.leaseExtension
    .ok ({ s with leases := s.leases.modify a.leaseId fun lease =>
        { lease with heartbeatAt := some given.now, expiresAt := expiresAt } },
      { task := fenceView task, expiresAt := some expiresAt })

end Store

end SwarmCloud.AttemptState
