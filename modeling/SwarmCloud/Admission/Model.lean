import SwarmCloud.Common.States
import SwarmCloud.Common.Pools
import SwarmCloud.Lib.Docs

/-! # Admission transactions

`swarm_common/admission.py` over the three collections it touches. A
transaction is a function of the committed store: it makes its reads, decides,
and returns the store with its writes applied. A raised `AdmissionDenied`
aborts the transaction, so that outcome carries no store. The ids a call of
`new_id` would mint are passed in beside the request they are minted for.
-/

namespace SwarmCloud.Admission

open Common Lib

/-- One entry of `evaluate_capacity`'s answer. -/
structure Blocker where
  pool : String
  reason : BlockedReason
  limit : Option Int
  active : Int
deriving DecidableEq, Repr

inductive DenialReason
  | taskMissing
  | notReady (state : Option TaskState)
  | cancelRequested
  | pool (blocker : Blocker)
deriving DecidableEq, Repr

structure AdmissionDenied where
  reasons : List DenialReason
deriving DecidableEq, Repr

structure AdmissionConfig where
  dispatchTimeoutSeconds : Int := 480
  leaseTimeoutSeconds : Int := 120
deriving DecidableEq, Repr

/-- A pool document. A missing `active` reads as 0, a missing `enabled` as true. -/
structure PoolDoc where
  hardLimit : Option Int := none
  adaptiveTarget : Option Int := none
  quotaDerivedLimit : Option Int := none
  active : Option Int := none
  enabled : Option Bool := none
  updatedAt : Option Instant := none
deriving DecidableEq, Repr

def PoolDoc.activeCount (d : PoolDoc) : Int := d.active.getD 0

/-- The fields of a task document that admission reads or writes. -/
structure TaskDoc where
  state : Option TaskState := none
  cancelRequested : Bool := false
  currentLeaseId : Option String := none
  currentGeneration : Option Int := none
  attemptCount : Option Int := none
  blockedBy : List Blocker := []
  updatedAt : Option Instant := none
deriving DecidableEq, Repr

/-- The caller's copy of the task: what names its pools. -/
structure Task where
  id : String
  tenantId : String
  provider : Option String
  resourceClass : String
  runnerProfile : String
deriving DecidableEq, Repr

structure Lease where
  leaseId : String
  taskId : String
  attemptId : String
  tenantId : String
  generation : Int
  pools : List String
  units : Int
  poolUnits : IntDict
  state : TaskState
  createdAt : Instant
  dispatchDeadline : Instant
  expiresAt : Instant
deriving DecidableEq, Repr

/-- A stored lease. One reserved before units were recorded has no `poolUnits`. -/
structure LeaseDoc where
  leaseId : String
  taskId : String
  attemptId : String
  tenantId : String
  generation : Int
  pools : List String := []
  units : Option Int := none
  poolUnits : Option IntDict := none
  state : TaskState
  createdAt : Instant
  dispatchDeadline : Instant
  expiresAt : Instant
  heartbeatAt : Option Instant := none
  releasedAt : Option Instant := none
  releaseReason : Option String := none
deriving DecidableEq, Repr

/-- What `release` gives back, as the release reads it from the document. -/
def LeaseDoc.held (d : LeaseDoc) : IntDict :=
  heldPoolUnits d.pools (d.units.getD 1) d.poolUnits

structure Store where
  tasks : Docs String TaskDoc
  pools : Docs String PoolDoc
  leases : Docs String LeaseDoc

/-- The ids `new_id("lease")` and `new_id("att")` return for one admission. -/
structure MintedIds where
  leaseId : String
  attemptId : String
deriving DecidableEq, Repr

structure AdmissionRequest where
  task : Task
  units : Int
  backend : String
deriving DecidableEq, Repr

def hasPrefix (pre s : String) : Bool := pre.toList.isPrefixOf s.toList

def blockedReasonForPool (poolName : String) : BlockedReason :=
  if poolName = "global" then .globalConcurrencyLimit
  else if hasPrefix "tenant:" poolName then .tenantLimit
  else if hasPrefix "provider:" poolName then .providerConcurrencyLimit
  else if hasPrefix "resource:" poolName then .resourceClassLimit
  else if hasPrefix "runner:" poolName then .runnerLimit
  else if hasPrefix "backend:" poolName then .backendLimit
  else .globalConcurrencyLimit

/-- The dictionary a transaction reads its pools into. -/
abbrev PoolReads := String → Option SlotPool

def evaluatePool (pools : PoolReads) (units tasks : Int) (name : String) : Option Blocker :=
  match pools name with
  | none => none
  | some pool =>
    if !pool.enabled then
      some ⟨name, .manualPause, pool.effectiveLimit, pool.active⟩
    else if pool.hardLimit.isNone then
      some ⟨name, .poolLimitUnset, none, pool.active⟩
    else if !pool.hasCapacity (tasks * poolUnitsFor name units) then
      some ⟨name, blockedReasonForPool name, pool.effectiveLimit, pool.active⟩
    else none

def evaluateCapacity (pools : PoolReads) (required : List String) (units tasks : Int) :
    List Blocker :=
  required.filterMap (evaluatePool pools units tasks)

def PoolDoc.read (name : String) (d : PoolDoc) : SlotPool where
  name := name
  hardLimit := d.hardLimit
  adaptiveTarget := d.adaptiveTarget
  quotaDerivedLimit := d.quotaDerivedLimit
  active := d.activeCount
  enabled := d.enabled.getD true

def readPools (s : Store) (poolRefs : List String) : PoolReads := fun name =>
  if name ∈ poolRefs then (s.pools.lookup name).map (PoolDoc.read name) else none

def readinessDenial : Option TaskDoc → Option AdmissionDenied
  | none => some ⟨[.taskMissing]⟩
  | some current =>
    if current.state ≠ some .ready then some ⟨[.notReady current.state]⟩
    else if current.cancelRequested then some ⟨[.cancelRequested]⟩
    else none

def requiredPools (task : Task) (backend : String) : List String :=
  poolNamesFor task.tenantId task.provider task.resourceClass task.runnerProfile backend

def mintLease (task : Task) (current : TaskDoc) (required : List String) (units : Int)
    (taken : IntDict) (config : AdmissionConfig) (ids : MintedIds) (now : Instant) : Lease where
  leaseId := ids.leaseId
  taskId := task.id
  attemptId := ids.attemptId
  tenantId := task.tenantId
  generation := current.currentGeneration.getD 0 + 1
  pools := required
  units := units
  poolUnits := taken
  state := .leased
  createdAt := now
  dispatchDeadline := now + seconds config.dispatchTimeoutSeconds
  expiresAt := now + seconds config.leaseTimeoutSeconds

def Lease.toDoc (lease : Lease) : LeaseDoc where
  leaseId := lease.leaseId
  taskId := lease.taskId
  attemptId := lease.attemptId
  tenantId := lease.tenantId
  generation := lease.generation
  pools := lease.pools
  units := some lease.units
  poolUnits := some lease.poolUnits
  state := lease.state
  createdAt := lease.createdAt
  dispatchDeadline := lease.dispatchDeadline
  expiresAt := lease.expiresAt

def TaskDoc.leasedBy (current : TaskDoc) (lease : Lease) (now : Instant) (d : TaskDoc) : TaskDoc :=
  { d with
    state := some .leased
    currentLeaseId := some lease.leaseId
    currentGeneration := some lease.generation
    attemptCount := some (current.attemptCount.getD 0 + 1)
    blockedBy := []
    updatedAt := some now }

def writeLeaseAndTask (s : Store) (taskId : String) (lease : Lease) (current : TaskDoc)
    (now : Instant) : Store :=
  { s with
    leases := s.leases.insert lease.leaseId lease.toDoc
    tasks := s.tasks.modify taskId (current.leasedBy lease now) }

def PoolDoc.withActive (active : Int) (now : Instant) (d : PoolDoc) : PoolDoc :=
  { d with active := some active, updatedAt := some now }

/-- The `txn.update` calls on pools, in order: each sets `active` and the stamp. -/
def writeActives (s : Store) (writes : IntDict) (now : Instant) : Store :=
  { s with pools := s.pools.modifyAll (fun active => PoolDoc.withActive active now) writes }

def acquireLeaseInTransaction (s : Store) (request : AdmissionRequest) (config : AdmissionConfig)
    (ids : MintedIds) (now : Instant) : Except AdmissionDenied (Lease × Store) :=
  let stored := s.tasks.lookup request.task.id
  match readinessDenial stored with
  | some denial => .error denial
  | none =>
    let current := stored.getD {}
    let required := requiredPools request.task request.backend
    let taken := reservedPoolUnits required request.units
    let pools := readPools s required
    let blockers := evaluateCapacity pools required request.units 1
    if blockers ≠ [] then .error ⟨blockers.map .pool⟩
    else
      let lease := mintLease request.task current required request.units taken config ids now
      let writes := Docs.keyed required fun name =>
        (pools name).map fun pool => pool.active + dictGet taken name 0
      .ok (lease, writeLeaseAndTask (writeActives s writes now) request.task.id lease current now)

/-- One iteration's view of `acquire_leases_in_transaction`. `pools` are the
in-memory copies, `admitted` the writes the batch has decided on. -/
structure BatchState where
  pools : PoolReads
  seen : List String
  outcomes : List (Except AdmissionDenied Lease)
  admitted : List (String × TaskDoc × Lease)

def reserve (pools : PoolReads) (required : List String) (taken : IntDict) : PoolReads :=
  fun name =>
    if name ∈ required then
      (pools name).map fun pool => { pool with active := pool.active + dictGet taken name 0 }
    else pools name

def batchStep (config : AdmissionConfig) (now : Instant) (b : BatchState)
    (item : (AdmissionRequest × MintedIds) × Option TaskDoc) : BatchState :=
  let request := item.1.1
  let task := request.task
  if item.2.isSome ∧ task.id ∈ b.seen then
    { b with outcomes := b.outcomes ++ [.error ⟨[.notReady (some .leased)]⟩] }
  else
    match readinessDenial item.2 with
    | some denial => { b with outcomes := b.outcomes ++ [.error denial] }
    | none =>
      let current := item.2.getD {}
      let required := requiredPools task request.backend
      let blockers := evaluateCapacity b.pools required request.units 1
      if blockers ≠ [] then
        { b with outcomes := b.outcomes ++ [.error ⟨blockers.map .pool⟩] }
      else
        let taken := reservedPoolUnits required request.units
        let lease := mintLease task current required request.units taken config item.1.2 now
        { pools := reserve b.pools required taken
          seen := b.seen ++ [task.id]
          outcomes := b.outcomes ++ [.ok lease]
          admitted := b.admitted ++ [(task.id, current, lease)] }

/-- The pools of every request, each named once. -/
def batchRefs (requests : List (AdmissionRequest × MintedIds)) : List String :=
  (requests.flatMap fun r => requiredPools r.1.task r.1.backend).dedup

def batchLoop (s : Store) (requests : List (AdmissionRequest × MintedIds))
    (config : AdmissionConfig) (now : Instant) : BatchState :=
  (requests.map fun r => (r, s.tasks.lookup r.1.task.id)).foldl (batchStep config now)
    ⟨readPools s (batchRefs requests), [], [], []⟩

/-- The batch's pool writes: one for each pool whose count moved. -/
def batchWrites (stored pools : PoolReads) (refs : List String) : IntDict :=
  Docs.keyed refs fun name =>
    (pools name).bind fun pool =>
      if some pool.active ≠ (stored name).map SlotPool.active then some pool.active else none

def writeAdmitted (s : Store) (admitted : List (String × TaskDoc × Lease)) (now : Instant) : Store :=
  admitted.foldl (fun s a => writeLeaseAndTask s a.1 a.2.2 a.2.1 now) s

def acquireLeasesInTransaction (s : Store) (requests : List (AdmissionRequest × MintedIds))
    (config : AdmissionConfig) (now : Instant) : List (Except AdmissionDenied Lease) × Store :=
  let refs := batchRefs requests
  let b := batchLoop s requests config now
  let writes := batchWrites (readPools s refs) b.pools refs
  (b.outcomes, writeAdmitted (writeActives s writes now) b.admitted now)

def releaseLeaseInTransaction (s : Store) (leaseId reason : String) (now : Instant) :
    Bool × Store :=
  match s.leases.lookup leaseId with
  | none => (false, s)
  | some d =>
    if d.releasedAt.isSome then (false, s)
    else
      let writes := Docs.keyed d.pools.dedup fun name =>
        (s.pools.lookup name).map fun p => max 0 (p.activeCount - dictGet d.held name 0)
      let s' := writeActives s writes now
      (true, { s' with leases := s'.leases.modify leaseId fun d =>
        { d with releasedAt := some now, releaseReason := some reason } })

end SwarmCloud.Admission
