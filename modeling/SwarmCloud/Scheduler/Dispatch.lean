import SwarmCloud.Admission.Frame
import SwarmCloud.Scheduler.Guarded

/-! # Admission and dispatch

`acquire_lease` and `acquire_leases` take leases and move the workflows of their
tasks; `mark_dispatched` records the execution of a lease, and
`return_to_ready_after_failed_dispatch` gives a lease back. The two writes behind an
admission hold only for the lease and the generation that it left.
-/

namespace SwarmCloud.Scheduler

open Common Lib AttemptState

/-! ## Admission -/

def readTask (s : Store) (docs : Docs String Admission.TaskDoc) (id : String) : Docs String Admission.TaskDoc :=
  match s.tasks.lookup id with
  | some task => docs.insert id (Store.admissionDoc task)
  | none => docs

/-- What admission reads of the tasks that are asked for. -/
def admissionDocs (s : Store) (ids : List String) : Docs String Admission.TaskDoc := ids.foldl (readTask s) ∅

def admissionRead (s : Store) (ids : List String) : Admission.Store := ⟨admissionDocs s ids, s.pools, s.leases⟩

/-- The update of a task that is leased. -/
def leasedTask (lease : Admission.Lease) (now : Instant) (task : Task) : Task :=
  { task with
    state := .leased, currentLeaseId := some lease.leaseId, currentGeneration := some lease.generation
    attemptCount := some (task.attemptCount.getD 0 + 1), blockedBy := [], updatedAt := some now }

/-- The store with the pools and the leases that admission wrote, and each granted task leased. -/
def admitted (s : Store) (granted : Admission.Store) (leases : List Admission.Lease) (now : Instant) : Store :=
  { s with
    pools := granted.pools
    leases := granted.leases
    tasks := leases.foldl (fun tasks lease => tasks.modify lease.taskId (leasedTask lease now)) s.tasks }

/-- The step as an admission passes it to the derivation: its tenant, its workflow and `LEASED`. -/
def leasedDoc (tenantId workflowId : String) : Task :=
  { tenantId := tenantId, state := .leased, workflowId := some workflowId }

/-- A workflow by its tenant and its id. -/
structure WorkflowKey where
  tenantId : String
  workflowId : String
deriving DecidableEq, Repr

/-- A request with what `new_id` mints for it and the workflow of its task. -/
structure AcquireRequest where
  request : Admission.AdmissionRequest
  ids : Admission.MintedIds
  workflowId : Option String

namespace AcquireRequest

def taskId (r : AcquireRequest) : String := r.request.task.id

/-- The tenant and the workflow of the request, where it names one. -/
def workflowKey (r : AcquireRequest) : Option WorkflowKey :=
  (r.workflowId.filter (· ≠ "")).map fun workflowId => ⟨r.request.task.tenantId, workflowId⟩

end AcquireRequest

/-- The steps that a batch admits, under their tenant and workflow, with one more outcome. -/
def changeStep (changed : Dict WorkflowKey (Dict String Task)) (item : AcquireRequest × Admission.Outcome) :
    Dict WorkflowKey (Dict String Task) :=
  match item.1.workflowKey, item.2 with
  | some key, .ok _ =>
    changed.set key (((changed.lookup key).getD []).set item.1.taskId (leasedDoc key.tenantId key.workflowId))
  | _, _ => changed

def changedSteps (requests : List AcquireRequest) (outcomes : List Admission.Outcome) :
    Dict WorkflowKey (Dict String Task) :=
  (requests.zip outcomes).foldl changeStep []

namespace Control

variable (c : Control)

def acquireLease (r : AcquireRequest) (config : Admission.AdmissionConfig) (now : Instant) :
    Admission.Outcome × Control :=
  let workflow := match r.workflowKey with
    | none => none
    | some key => c.workflowWrite r.taskId key.tenantId (leasedDoc key.tenantId key.workflowId) now
  match Admission.acquireLeaseInTransaction (admissionRead c.store [r.taskId]) r.request config r.ids now with
  | .error denied => (.error denied, c)
  | .ok (lease, granted) => (.ok lease, { c with store := (admitted c.store granted [lease] now).setWorkflow workflow })

def acquireLeases (requests : List AcquireRequest) (config : Admission.AdmissionConfig) (now : Instant) :
    List Admission.Outcome × Control :=
  let (outcomes, granted) := Admission.acquireLeasesInTransaction (admissionRead c.store (requests.map (·.taskId)))
    (requests.map fun r => (r.request, r.ids)) config now
  let workflows := (changedSteps requests outcomes).map fun item =>
    derivedStateWrite c.store item.1.tenantId item.2 (some item.1.workflowId) now
  (outcomes, { c with
    store := workflows.foldl Store.setWorkflow (admitted c.store granted (Admission.grants outcomes) now) })

end Control

/-! ## The lease behind a write -/

/-- `_lease_refusal`. -/
def leaseRefusal (stored : Option Task) (lease : Admission.Lease) : Option SkipReason :=
  match stored with
  | none => some .taskMissing
  | some stored =>
    if stored.currentGeneration.getD 0 ≠ lease.generation then some .leaseSuperseded
    else if stored.currentLeaseId.any (· ≠ lease.leaseId) then some .leaseSuperseded
    else if stored.state ≠ .leased then some .stateChanged
    else if stored.currentLeaseId.isNone then some .leaseSuperseded
    else none

namespace Control

variable (c : Control)

def markDispatched (task : Snapshot) (lease : Admission.Lease) (executionName : String) (now : Instant) :
    GuardedWrite × Control :=
  let stored := c.store.tasks.lookup task.id
  let refusal := leaseRefusal stored lease
  let moved := if refusal.isNone then
    { c with
      store := c.store.updateTask task.id { state := some .dispatched, updatedAt := some now }
      platformRefusals := if (c.platformRefusals.lookup task.id).any (· ≠ 0) then c.platformRefusals.insert task.id 0
        else c.platformRefusals }
    else c
  let relabelled := moved.store.leases.modify lease.leaseId fun held =>
    if held.releasedAt.isNone ∧ held.state = .leased then { held with state := .dispatched } else held
  (⟨"mark_dispatched", refusal.isNone, TaskState.leased.value, stored.map Task.state, refusal,
      if refusal.isNone then some .dispatched else none⟩,
    { moved with
      store := { moved.store with leases := relabelled }
      attemptRefs := moved.attemptRefs.modify lease.attemptId fun ref =>
        { ref with executionName := some executionName } })

end Control

/-! ## A failed dispatch -/

def workerOwned : List TaskState := [.dispatched, .starting, .running]

def platformRefusalFirstSeconds : Int := 30
def platformRefusalMaxSeconds : Int := 600

def platformRefusalBackoff (parks : Int) : Int :=
  let n := max 1 parks
  if 16 < n then seconds platformRefusalMaxSeconds
  else seconds (min (platformRefusalFirstSeconds * 2 ^ (n - 1).toNat) platformRefusalMaxSeconds)

structure FailedDispatch where
  task : Snapshot
  lease : Admission.Lease
  errorCode : String
  correlationId : Option String := none
  retryDelaySeconds : Int := 30
  platformRefusal : Bool := false

namespace FailedDispatch

variable (x : FailedDispatch)

def publicText : String :=
  x.errorCode ++ " (attempt " ++ ((x.correlationId.filter (· ≠ "")).getD x.lease.attemptId) ++ ")"

def releaseReason : String := truncated 200 ("dispatch_failed: " ++ x.errorCode)

/-- A platform refusal parks only a task that is still leased, whose reclaim is nobody else's. -/
def parks (stored : Task) (reclaim : Bool) : Bool :=
  x.platformRefusal && !reclaim && stored.state = .leased && !stored.cancelRequested

def attemptsAfter (stored : Task) (reclaim : Bool) : Int :=
  let attemptCount := stored.attemptCount.getD 0
  if x.parks stored reclaim then max 0 (attemptCount - 1) else attemptCount

def maxAttempts (stored : Task) : Int := stored.maxAttempts.getD (x.task.task.maxAttempts.getD 3)

/-- Where a task goes off its lease. The states that hold capacity may all move there. -/
def target (stored : Task) (reclaim : Bool) : TaskState :=
  if stored.cancelRequested then .cancelled
  else if x.parks stored reclaim then .parked
  else if retriesExhausted (x.attemptsAfter stored reclaim) (x.maxAttempts stored) then .failed
  else .ready

/-- The refusals in a row, where this one parks. -/
def refusals (stored : Task) (refused : Option Int) (reclaim : Bool) : Option Int :=
  if x.parks stored reclaim then some (refused.getD 0 + 1) else none

/-- `_return_plan`: the update of the task. -/
def returnPatch (stored : Task) (refused : Option Int) (reclaim : Bool) (now : Instant) : Patch :=
  let target := x.target stored reclaim
  let patch : Patch :=
    { state := some target, currentLeaseId := some none, updatedAt := some now
      lastError := some (some (truncated 1000
        (if target = .cancelled then "cancelled on request; " ++ x.publicText else x.publicText))) }
  if target ∈ terminalStates then
    { patch with
      completedAt := some now, nextEligibleAt := some none
      endCause := some (some (if target = .cancelled then Store.cancelEndCause stored else .dispatchFailed)) }
  else match x.refusals stored refused reclaim with
    | some refusals =>
      { patch with
        parkReason := some (some .platformRefused), attemptCount := some (x.attemptsAfter stored reclaim)
        nextEligibleAt := some (some (now + platformRefusalBackoff refusals)) }
    | none => { patch with nextEligibleAt := some (some (now + seconds (max 0 x.retryDelaySeconds))) }

end FailedDispatch

namespace Control

variable (c : Control)

/-- `_end_attempt`: the end of this dispatch's attempt, where it is over and has none yet. -/
def endAttempt (x : FailedDispatch) (stored : Option Task) (returned : Bool) (now : Instant) : Control :=
  match c.attemptRefs.lookup x.lease.attemptId, c.store.attempts.lookup x.lease.attemptId with
  | some ref, some attempt =>
    if attempt.completedAt.isSome ∨ ref.taskId ≠ x.task.id ∨ ref.generation ≠ x.lease.generation then c
    else if !returned && !stored.any fun task => x.lease.generation < task.currentGeneration.getD 0 then c
    else
      let ended := { attempt with
        completedAt := some now, exitCode := none
        error := some (truncated 2000 (EndCause.dispatchFailed.value ++ ": " ++ x.errorCode))
        tenantId := if attempt.tenantId = "" then x.task.task.tenantId else attempt.tenantId }
      { c with store := { c.store with attempts := c.store.attempts.insert x.lease.attemptId ended } }
  | _, _ => c

/-- The planned return of a task, with the state of its workflow. `released` is the store behind the release. -/
def returned (x : FailedDispatch) (stored : Task) (reclaim : Bool) (now : Instant) (released : Control) : Control :=
  let refused := c.platformRefusals.lookup x.task.id
  let patch := x.returnPatch stored refused reclaim now
  let workflow := c.workflowWrite x.task.id x.task.task.tenantId (patch.apply stored) now
  let written := released.writeTask x.task.id patch workflow
  let counted := match x.refusals stored refused reclaim with
    | some refusals => { written with platformRefusals := written.platformRefusals.insert x.task.id refusals }
    | none => written
  counted.endAttempt x (some stored) true now

def released (x : FailedDispatch) (now : Instant) : Control :=
  { c with store := (c.store.releaseLease x.lease.leaseId x.releaseReason now).2 }

def skippedReturn (found : Option TaskState) (refusal : Option SkipReason) : GuardedWrite :=
  ⟨"return_to_ready", false, TaskState.leased.value, found, refusal, none⟩

def appliedReturn (x : FailedDispatch) (stored : Task) (reclaim : Bool) : GuardedWrite :=
  ⟨"return_to_ready", true, TaskState.leased.value, some stored.state, none, some (x.target stored reclaim)⟩

/-- `return_to_ready_after_failed_dispatch`. -/
def returnToReady (x : FailedDispatch) (now : Instant) : GuardedWrite × Control :=
  let lease := x.lease
  match c.store.tasks.lookup x.task.id with
  | none => (skippedReturn none (some .taskMissing), (c.released x now).endAttempt x none false now)
  | some stored =>
    let refusal := leaseRefusal (some stored) lease
    let pointsHere : Bool := stored.currentLeaseId = some lease.leaseId
    if stored.state ∈ concurrencyStates ∧ refusal = some .leaseSuperseded ∧ pointsHere then
      -- Only the generation moved: the reconciler fenced this attempt, and its reclaim runs or stopped short.
      if (c.store.leases.lookup lease.leaseId).any fun held => held.releasedAt.isNone then
        (skippedReturn (some stored.state) refusal, c)
      else (appliedReturn x stored true, c.returned x stored true now c)
    else if refusal = some .stateChanged ∧ stored.state ∈ workerOwned ∧ pointsHere then
      (skippedReturn (some stored.state) refusal, c)
    else if refusal.isSome then
      (skippedReturn (some stored.state) refusal, (c.released x now).endAttempt x (some stored) false now)
    else (appliedReturn x stored false, c.returned x stored false now (c.released x now))

end Control

end SwarmCloud.Scheduler
