import SwarmCloud.Scheduler.Leases

/-! # The sweeps that return a park to READY

Each sweep lists the tasks that are parked on its reason and decides about each from
the task as listed, and from answers out of documents that are not modelled here: the
tenants, the runner profiles, the accounts, the parents and the children. What it
decides is a guarded call.
-/

namespace SwarmCloud.AttemptState

def Task.retriesExhausted (task : Task) : Bool :=
  Scheduler.retriesExhausted (task.attemptCount.getD 0) (task.maxAttempts.getD 3)

end SwarmCloud.AttemptState

namespace SwarmCloud.Scheduler

open Common Lib AttemptState

def wakeMarker : String := "wake_requested_at"
def humanWaitExpired : String := "human_wait_expired"
def fixLoopParkMaxSeconds : Int := 7 * 86400

def prewarmReasons : List ParkReason := [.providerQuotaExhausted, .providerCooldown, .providerOutage]

/-- What `credential_for` answers: no credential that the task could ever run on, a workflow's credential to
be stored again, with the error once that took too long, or a source of credentials. -/
inductive CredentialAnswer
  | terminal (error : String)
  | waits (expired : Option String)
  | source (accountPool runnable : Bool)

inductive PullRequests
  | merged
  | waiting
  | closed (text : String)

/-- What the parents of a step say: one did not succeed, one is still to end or the step is held for
swarm-api, or all succeeded, with what the promotion adds. -/
inductive Parents
  | failed (endCause : Option EndCause)
  | waiting
  | succeeded (patchFrom : Option (Task → Fields))

/-- A sweep with the answers it gets about one task. `stopped` is `_stop_for_failed_workflow`. -/
inductive Sweep
  | scheduledRetries (stopped : Bool)
  | platformRefusals (stopped : Bool)
  | ciWaits (stopped : Bool)
  | childAwaits (settled outstanding expired : Bool)
  | humanWaits (stopped : Bool) (fixLoop : Option String) (marked : Bool) (limit : Int)
  | credentials (stopped known : Bool) (answer : CredentialAnswer)
  | manualPauses (stopped cleared : Bool)
  | dependencies (stopped : Bool) (pulls : PullRequests) (parents : Parents)
  | prewarm (stopped : Bool) (horizon : Instant) (guarded held : Bool)
  | accountFreed (served stopped chosen : Bool)

def ownerWait (task : Task) (key : String) : Bool :=
  task.blockedBy.any fun block => match (Value.mapping (some block)).lookup key with
    | some (.map _) => true
    | _ => false

def ahead (task : Task) (now : Instant) : Bool := task.nextEligibleAt.any fun eligibleAt : Instant => now < eligibleAt

def attemptsText (task : Task) : String :=
  "(" ++ toString (task.attemptCount.getD 0) ++ " of " ++ toString (task.maxAttempts.getD 3) ++ ")"

/-- The end of a park: cancelled if that was asked for, and dead-lettered if not. -/
def endParked (task : Task) (text : String) : GuardedCall :=
  if task.cancelRequested then .cancel text (some (Store.cancelEndCause task)) else .deadLetterParked text

namespace Sweep

def reasons : Sweep → List ParkReason
  | scheduledRetries _ => [.scheduledRetry]
  | platformRefusals _ => [.platformRefused]
  | ciWaits _ => [.ciPending]
  | childAwaits .. => [.childrenIncomplete]
  | humanWaits .. => [.humanRequired]
  | credentials .. => [.credentialMissing]
  | manualPauses .. => [.manualPause]
  | dependencies .. => [.dependencyIncomplete]
  | prewarm .. => prewarmReasons
  | accountFreed .. => [.providerQuotaExhausted]

/-- The guarded call that a sweep makes for a listed task, and none where it leaves the task alone. -/
def call (task : Task) (now : Instant) : Sweep → Option GuardedCall
  | scheduledRetries stopped =>
    if stopped then none
    else if ahead task now then none
    else if task.retriesExhausted then
      some (endParked task ("interrupted on its last attempt " ++ attemptsText task ++ "; retries exhausted"))
    else some (.promoteToReady none)
  | platformRefusals stopped =>
    if stopped then none
    else if ahead task now then none
    else if task.retriesExhausted then
      some (endParked task ("refused by the platform with its attempts already spent " ++ attemptsText task))
    else some (.promoteToReady none)
  | ciWaits stopped =>
    if stopped then none
    else if task.retriesExhausted then
      some (endParked task ("waited for its pull request's checks on its last attempt " ++ attemptsText task ++
        "; retries exhausted"))
    else
      let marked := Value.truthy ((Value.mapping (task.metadata.lookup mergeWaitKey)).lookup wakeMarker)
      if !marked && ahead task now then none else some (.promoteToReady none)
  | childAwaits settled outstanding expired =>
    if task.retriesExhausted then
      some (.deadLetterParked ("awaited its children on its last attempt " ++ attemptsText task ++
        "; retries exhausted"))
    else if outstanding && expired then none
    else if !settled && !expired then none
    else some (.promoteToReady none)
  | humanWaits stopped fixLoop marked limit =>
    let parkedAt := ((task.nextEligibleAt).or task.updatedAt).getD 0
    if stopped then none
    else match fixLoop with
      | some phase =>
        if now < parkedAt + seconds fixLoopParkMaxSeconds then none
        else
          let text := EndCause.fixLoopExhausted.value ++ ": nobody added a round or stopped the loop within " ++
            toString fixLoopParkMaxSeconds ++ " seconds of its park (" ++ phase ++ ")"
          some (if task.cancelRequested then .cancel text (some (Store.cancelEndCause task))
            else .failBeforeLease text (some .fixLoopExhausted))
      | none =>
        if task.retriesExhausted then
          some (endParked task ("waited for a person on its last attempt " ++ attemptsText task ++
            "; retries exhausted"))
        else if ownerWait task "question_wait" then none
        else if ownerWait task "owner_questions" then if marked then some (.promoteToReady none) else none
        else if now < parkedAt + seconds limit then none
        else some (endParked task (humanWaitExpired ++ ": nobody said they were ready to sign in within " ++
          toString limit ++ " seconds of the park"))
  | credentials stopped known answer =>
    if stopped then none
    else if !known then none
    else match answer with
      | .terminal error => some (.failBeforeLease error none)
      | .waits expired => expired.map fun error => .failBeforeLease error none
      | .source accountPool runnable =>
        if accountPool && ahead task now then none
        else if runnable then some (.promoteToReady none)
        else none
  | manualPauses stopped cleared => if stopped || !cleared then none else some (.promoteToReady none)
  | dependencies stopped pulls parents =>
    if stopped then none
    else match pulls with
      | .waiting => none
      | .closed text => some (endParked task text)
      | .merged =>
        if ownerWait task releaseWaitKey then none
        else match parents with
          | .failed endCause => some (.cancel "an upstream workflow step did not succeed" endCause)
          | .waiting => none
          | .succeeded patchFrom => some (.promoteToReady patchFrom)
  | prewarm stopped horizon guarded held =>
    if stopped then none
    else if ahead task horizon then none
    else
      let due := task.nextEligibleAt.any fun eligibleAt : Instant => eligibleAt ≤ now
      if !due && !guarded then none
      else if held then none
      else some (.promoteToReady none)
  | accountFreed served stopped chosen =>
    if !served then none
    else if stopped then none
    else if chosen then some (.promoteToReady none)
    else none

/-- The sweeps that ask whether the attempts of the task are spent. -/
def checksCap : Sweep → Bool
  | scheduledRetries _ | platformRefusals _ | ciWaits _ | childAwaits .. | humanWaits .. => true
  | credentials .. | manualPauses .. | dependencies .. | prewarm .. | accountFreed .. => false

/-- The task stands in the sweep's window: parked on one of its reasons. -/
def lists (sweep : Sweep) (task : Task) : Bool :=
  task.state = .parked && task.parkReason.any (· ∈ sweep.reasons)

/-- The sweep wants the task back at READY. -/
def Promotes (sweep : Sweep) (task : Task) (now : Instant) : Prop :=
  ∃ patchFrom, sweep.call task now = some (.promoteToReady patchFrom)

theorem endParked_ne (task : Task) (text : String) (patchFrom : Option (Task → Fields)) :
    endParked task text ≠ .promoteToReady patchFrom := by
  rw [endParked]
  split <;> exact fun h => nomatch h

/-- A sweep that checks promotes no task that it reads as spent. -/
theorem Promotes.not_exhausted {sweep : Sweep} {task : Task} {now : Instant} (hchecks : sweep.checksCap)
    (h : sweep.Promotes task now) : task.retriesExhausted = false := by
  obtain ⟨patchFrom, hcall⟩ := h
  by_contra hspent
  rw [Bool.not_eq_false] at hspent
  have hended : ∀ text, some (endParked task text) ≠ some (.promoteToReady patchFrom) :=
    fun text heq => endParked_ne task text patchFrom (Option.some.inj heq)
  cases sweep with
  | scheduledRetries stopped =>
    rw [call, hspent] at hcall
    split at hcall
    · cases hcall
    · split at hcall
      · cases hcall
      · exact hended _ hcall
  | platformRefusals stopped =>
    rw [call, hspent] at hcall
    split at hcall
    · cases hcall
    · split at hcall
      · cases hcall
      · exact hended _ hcall
  | ciWaits stopped =>
    rw [call, hspent] at hcall
    split at hcall
    · cases hcall
    · exact hended _ hcall
  | childAwaits settled outstanding expired =>
    rw [call, hspent, if_pos rfl] at hcall
    cases hcall
  | humanWaits stopped fixLoop marked limit =>
    unfold call at hcall
    rw [hspent] at hcall
    dsimp only at hcall
    split at hcall
    · cases hcall
    · split at hcall
      · split at hcall
        · cases hcall
        · split at hcall <;> cases hcall
      · exact hended _ hcall
  | credentials | manualPauses | dependencies | prewarm | accountFreed => cases hchecks

end Sweep

namespace Control

def sweep (c : Control) (sweep : Sweep) (task : Snapshot) (now : Instant) : Control :=
  if sweep.lists task.task then
    match sweep.call task.task now with
    | none => c
    | some call => match c.guarded call task now with
      | .error _ => c
      | .ok (_, c') => c'
  else c

end Control

end SwarmCloud.Scheduler
