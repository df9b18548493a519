import SwarmCloud.Scheduler.Dispatch

/-! # The reconciler's one transaction

`ControlStore.fence_release_repair`: a fence, a release and a repair of a task, each
by the rule that it has on its own and each refusable on its own, committed together.
A grace is a span of the clock's units.
-/

namespace SwarmCloud.Scheduler

open Common Lib AttemptState

/-! ## What a requeue counts -/

def startupRefundsKey : String := "startup_refunds"
def diskEvictionsKey : String := "disk_evictions"
def neverStartedRequeuesKey : String := "never_started_requeues"
def diskEvictionRetries : Int := 1
def firestoreInt64Max : Int := 2 ^ 63 - 1

/-- `_startup_refunds_int`, with 0 for what is no count. -/
def countUsed (metadata : Fields) (key : String) : Int :=
  match metadata.lookup key with
  | some (.int n) => if 0 ≤ n ∧ n ≤ firestoreInt64Max then n else 0
  | _ => 0

structure StartupEnd where
  attemptCount : Int
  refundsUsed : Int
  refunded : Bool
  exhausted : Bool
  tail : String
deriving DecidableEq, Repr

def countStartupEnd (attemptCount maxAttempts refundsUsed limit : Int) : StartupEnd :=
  let refundedCount := max 0 (attemptCount - 1)
  if refundsUsed < limit ∧ !retriesExhausted refundedCount maxAttempts then
    let used := refundsUsed + 1
    ⟨refundedCount, used, true, false, "not counted (" ++ toString used ++ "/" ++ toString limit ++ "); retrying"⟩
  else
    let spent := retriesExhausted attemptCount maxAttempts
    let tail := if spent then "no attempts left" else "retrying"
    ⟨attemptCount, refundsUsed, false, spent, if 0 < limit ∧ limit ≤ refundsUsed then
      tail ++ " (counted: " ++ toString refundsUsed ++ "/" ++ toString limit ++ " early ends already refunded)"
      else tail⟩

structure DiskEvictionEnd where
  evictions : Int
  exhausted : Bool
  tail : String
deriving DecidableEq, Repr

def countDiskEviction (attemptCount maxAttempts evictionsUsed : Int) : DiskEvictionEnd :=
  let used := evictionsUsed + 1
  if diskEvictionRetries < used then
    ⟨used, true, "evicted for disk " ++ toString used ++
      " times: not retried again, the next attempt would meet the same limit"⟩
  else if retriesExhausted attemptCount maxAttempts then ⟨used, true, "no attempts left"⟩
  else ⟨used, false, "retrying once (" ++ toString used ++ "/" ++ toString diskEvictionRetries ++ " disk evictions)"⟩

structure NeverStarted where
  attemptCount : Int
  requeues : Int
  exhausted : Bool
  words : String
deriving DecidableEq, Repr

def countNeverStarted (attemptCount maxAttempts requeuesUsed limit : Int) : NeverStarted :=
  if requeuesUsed < limit then
    let refunded := max 0 (attemptCount - 1)
    if retriesExhausted refunded maxAttempts then
      ⟨attemptCount, requeuesUsed, true,
        "never started: its worker never reached STARTING and no attempts are left"⟩
    else
      let used := requeuesUsed + 1
      ⟨refunded, used, false, "its worker never started; re-queued, not counted (" ++ toString used ++ "/" ++
        toString limit ++ ")"⟩
  else
    ⟨attemptCount, requeuesUsed, true, "never started: its worker never reached STARTING, after " ++
      toString requeuesUsed ++ " re-queue(s) that never started either"⟩

/-! ## The repair of a task -/

structure RepairPlan where
  toState : TaskState
  expectedLeaseId : Option String
  error : Option String := none
  nextEligibleAt : Option Instant := none
  failedCause : EndCause := .lostWorker
  startupRefundLimit : Option Int := none
  diskEviction : Bool := false
  neverStartedRequeueLimit : Option Int := none

def neverStartedStates : List TaskState := [.leased, .dispatched]

/-- The text of a message behind an error, where there is one. -/
def appended (error : Option String) (tail : String) : String :=
  match error.filter (· ≠ "") with
  | some error => error ++ "; " ++ tail
  | none => tail

/-- What the counting of a requeue leaves: the state it goes to, its count and metadata where they are
written, and the message. -/
structure Requeue where
  target : TaskState
  attemptCount : Option Int := none
  metadata : Option Fields := none
  message : Option String

namespace RepairPlan

variable (plan : RepairPlan) (data : Task)

def startupRequeue (fencedGeneration : Option Int) (limit : Int) : Requeue :=
  let fencedHere : Bool := fencedGeneration.any fun generation : Int => data.currentGeneration.getD 0 = generation
  let counted := countStartupEnd (data.attemptCount.getD 0) (data.maxAttempts.getD 3)
    (countUsed data.metadata startupRefundsKey) (if fencedHere then max 0 limit else 0)
  { target := if counted.exhausted then .failed else .ready
    attemptCount := if counted.refunded then some counted.attemptCount else none
    metadata := if counted.refunded then some (data.metadata.set startupRefundsKey (.int counted.refundsUsed)) else none
    message := some (appended plan.error counted.tail) }

def diskRequeue : Requeue :=
  let evicted := countDiskEviction (data.attemptCount.getD 0) (data.maxAttempts.getD 3)
    (countUsed data.metadata diskEvictionsKey)
  { target := if evicted.exhausted then .failed else .ready
    metadata := some (data.metadata.set diskEvictionsKey (.int evicted.evictions))
    message := some (appended plan.error evicted.tail) }

def neverStartedRequeue (limit : Int) : Requeue :=
  let never := countNeverStarted (data.attemptCount.getD 0) (data.maxAttempts.getD 3)
    (countUsed data.metadata neverStartedRequeuesKey) (max 0 limit)
  { target := if never.exhausted then .failed else .ready
    attemptCount := some never.attemptCount
    metadata := some (data.metadata.set neverStartedRequeuesKey (.int never.requeues))
    message := some (if never.exhausted then
      match plan.error.filter (· ≠ "") with
      | some error => never.words ++ "; " ++ error
      | none => never.words
      else appended plan.error never.words) }

def plainRequeue : Requeue :=
  { target := if retriesExhausted (data.attemptCount.getD 0) (data.maxAttempts.getD 3) then .failed else .ready
    message := plan.error }

/-- Only a requeue is counted; every other state is where the repair goes. -/
def requeue (target : TaskState) (fencedGeneration : Option Int) : Requeue :=
  if target ≠ .ready then { target := target, message := plan.error }
  else match plan.startupRefundLimit with
    | some limit => plan.startupRequeue data fencedGeneration limit
    | none =>
      if plan.diskEviction then plan.diskRequeue data
      else match plan.neverStartedRequeueLimit with
        | some limit => if data.state ∈ neverStartedStates then plan.neverStartedRequeue data limit
          else plan.plainRequeue data
        | none => plan.plainRequeue data

def repairPatch (requeue : Requeue) (now : Instant) : Patch :=
  let patch : Patch :=
    { state := some requeue.target, updatedAt := some now, currentLeaseId := some none
      attemptCount := requeue.attemptCount, metadata := requeue.metadata
      lastError := (requeue.message.filter (· ≠ "")).map fun message => some (truncated 2000 message)
      nextEligibleAt := if requeue.target = .cancelled then none else plan.nextEligibleAt.map some }
  if requeue.target ∈ terminalStates then
    { patch with
      completedAt := some now
      endCause := some (some (if requeue.target = .cancelled then Store.cancelEndCause data else plan.failedCause)) }
  else patch

/-- A requeue and a failure of a task whose cancel was requested both cancel it. -/
def aim : TaskState :=
  if plan.toState ∈ [TaskState.ready, .failed] ∧ data.cancelRequested then .cancelled else plan.toState

/-- `_repair_decision`: the state a repair moves the task to and its update, and none where it refuses. -/
def repairDecision (onlyFrom : Option (List TaskState)) (fencedGeneration : Option Int) (now : Instant) :
    Option (TaskState × Patch) :=
  if data.state ∈ terminalStates then none
  else if onlyFrom.any fun states => data.state ∉ states then none
  else if data.currentLeaseId.isSome ∧ data.currentLeaseId ≠ plan.expectedLeaseId then none
  else
    let requeue := plan.requeue data (plan.aim data) fencedGeneration
    if data.state = requeue.target then none
    else if !canTransition data.state requeue.target then none
    else some (requeue.target, plan.repairPatch data requeue now)

end RepairPlan

/-! ## The transaction -/

structure RepairCall where
  taskId : Option String
  expectedGeneration : Option Int
  leaseId : Option String
  releaseReason : String
  repair : Option RepairPlan := none
  onlyFrom : Option (List TaskState) := none
  unlessHoldingLease : Option String := none
  refuseWhileTaskHoldsIt : Bool := false
  attemptId : Option String := none
  attemptReason : Option String := none
  heartbeatSeen : Option Instant := none
  heartbeatGrace : Option Int := none

structure OneRepair where
  newGeneration : Option Int
  released : Bool
  repairedTo : Option TaskState
  releaseRefused : Bool := false
  attemptEnded : Option String := none
  heartbeatResumed : Bool := false
  neverStartedRequeues : Option Int := none
deriving DecidableEq, Repr

def attemptReclaimed : String := "reclaimed"
def attemptFenced : String := "fenced"

def heartbeatResumed (lease : Option Admission.LeaseDoc) (seen : Option Instant) (generation : Option Int)
    (grace : Int) (now : Instant) : Bool :=
  lease.any fun lease =>
    lease.releasedAt.isNone && generation.any (fun g : Int => lease.generation = g) &&
      lease.heartbeatAt.any fun beat : Instant => !(seen.any fun seen : Instant => beat ≤ seen) && now - beat ≤ grace

/-- `_holds`: a state that holds capacity, on this lease, at its generation. -/
def holds (task : Task) (lease : Admission.LeaseDoc) (leaseId : String) : Bool :=
  task.state ∈ concurrencyStates && task.currentLeaseId = some leaseId &&
    task.currentGeneration.getD 0 = lease.generation

namespace RepairCall

variable (x : RepairCall) (c : Control)

def task : Option Task := x.taskId.bind c.store.tasks.lookup

def lease : Option Admission.LeaseDoc := x.leaseId.bind c.store.leases.lookup

def resumed (now : Instant) : Bool :=
  x.heartbeatGrace.any fun grace : Int =>
    Scheduler.heartbeatResumed (x.lease c) x.heartbeatSeen x.expectedGeneration grace now

def newGeneration : Option Int :=
  match x.task c, x.expectedGeneration with
  | some task, some expected => Store.fenceDecision task expected x.onlyFrom x.unlessHoldingLease
  | _, _ => none

/-- The task as the fence leaves it. -/
def after : Option Task :=
  (x.task c).map fun task => match x.newGeneration c with
    | some generation => { task with currentGeneration := some generation }
    | none => task

/-- The release is refused while the lease's task holds it. -/
def refused : Bool :=
  x.refuseWhileTaskHoldsIt && match x.leaseId, x.lease c with
    | some leaseId, some lease =>
      (if some lease.taskId = x.taskId then x.after c else c.store.tasks.lookup lease.taskId).any
        fun judged => holds judged lease leaseId
    | _, _ => false

def decided (now : Instant) : Option (TaskState × Patch) :=
  match x.repair, x.after c with
  | some plan, some after =>
    if x.refused c then none
    else plan.repairDecision after x.onlyFrom
      (if plan.startupRefundLimit.isSome then x.newGeneration c else none) now
  | _, _ => none

/-- The release, unless it is refused: whether it freed the lease, and the store behind it. -/
def freed (now : Instant) : Bool × Store :=
  match x.leaseId, x.lease c with
  | some leaseId, some _ => if x.refused c then (false, c.store) else c.store.releaseLease leaseId x.releaseReason now
  | _, _ => (false, c.store)

/-- `_superseded_attempt_end`: the attempt's document with its end. -/
def attemptEnd (attempt : AttemptDoc) (ref : AttemptRef) (taskId : String) (after : Task) (expected : Int)
    (cause : String) (now : Instant) : Option AttemptDoc :=
  if ref.taskId ≠ taskId ∨ ref.generation ≠ expected ∨ after.currentGeneration.getD 0 ≤ ref.generation ∨
      attempt.completedAt.isSome then none
  else some { attempt with
    completedAt := some now, exitCode := none
    error := some (truncated 2000 (match x.attemptReason.filter (· ≠ "") with
      | some reason => cause ++ ": " ++ reason
      | none => cause))
    tenantId := if attempt.tenantId = "" then after.tenantId else attempt.tenantId }

/-- The attempt's document that the transaction writes, if it writes one. -/
def endedAttempt (cause : String) (now : Instant) : Option (String × AttemptDoc) :=
  match x.taskId, x.after c, x.expectedGeneration, x.attemptId with
  | some taskId, some after, some expected, some attemptId =>
    if x.refused c then none
    else match c.attemptRefs.lookup attemptId, c.store.attempts.lookup attemptId with
      | some ref, some attempt =>
        (x.attemptEnd attempt ref taskId after expected cause now).map fun ended => (attemptId, ended)
      | _, _ => none
  | _, _, _, _ => none

/-- The task as the transaction leaves it: its generation, its repair, or both. -/
def written (now : Instant) (task : Task) : Task :=
  let fenced := match x.newGeneration c with
    | some generation => { task with currentGeneration := some generation, updatedAt := some now }
    | none => task
  match x.decided c now with
  | some (_, patch) => patch.apply fenced
  | none => fenced

end RepairCall

namespace Control

variable (c : Control)

/-- `fence_release_repair`. -/
def fenceReleaseRepair (x : RepairCall) (now : Instant) : OneRepair × Control :=
  if x.resumed c now then ({ newGeneration := none, released := false, repairedTo := none, heartbeatResumed := true }, c)
  else
    let decided := x.decided c now
    let (released, freed) := x.freed c now
    let updated := match x.taskId with
      | some taskId => { freed with tasks := freed.tasks.modify taskId (x.written c now) }
      | none => freed
    let cause := if released ∨ decided.isSome then attemptReclaimed else attemptFenced
    let ended := x.endedAttempt c cause now
    ({ newGeneration := x.newGeneration c
       released := released
       repairedTo := decided.map Prod.fst
       releaseRefused := x.refused c
       attemptEnded := ended.map fun _ => cause
       neverStartedRequeues := match decided, x.repair.bind RepairPlan.neverStartedRequeueLimit with
        | some (_, patch), some _ =>
          match (patch.metadata.getD []).lookup neverStartedRequeuesKey with
          | some (.int n) => some n
          | _ => none
        | _, _ => none },
      { c with store := { updated with attempts := match ended with
          | some (attemptId, attempt) => updated.attempts.insert attemptId attempt
          | none => updated.attempts } })

end Control

end SwarmCloud.Scheduler
