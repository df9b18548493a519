import Mathlib.Tactic.Common

/-! # Task lifecycle states

`swarm_common/states.py`: the states, the table of allowed moves, and the three
classes of states that the rest of the platform reasons with.
-/

namespace SwarmCloud.Common

inductive TaskState
  | submitted
  | queued
  | parked
  | ready
  | leased
  | dispatched
  | starting
  | running
  | succeeded
  | failed
  | cancelled
  | deadLettered
deriving DecidableEq, Repr

namespace TaskState

/-- The `TaskState` enumeration in its declaration order. -/
def all : List TaskState :=
  [submitted, queued, parked, ready, leased, dispatched, starting, running,
    succeeded, failed, cancelled, deadLettered]

def value : TaskState → String
  | submitted => "SUBMITTED"
  | queued => "QUEUED"
  | parked => "PARKED"
  | ready => "READY"
  | leased => "LEASED"
  | dispatched => "DISPATCHED"
  | starting => "STARTING"
  | running => "RUNNING"
  | succeeded => "SUCCEEDED"
  | failed => "FAILED"
  | cancelled => "CANCELLED"
  | deadLettered => "DEAD_LETTERED"

/-- `TaskState(value)`, and none where it raises. -/
def ofValue (value : String) : Option TaskState := all.find? fun state => state.value = value

end TaskState

open TaskState

def concurrencyStates : List TaskState := [leased, dispatched, starting, running]

def terminalStates : List TaskState := [succeeded, failed, cancelled, deadLettered]

def pendingStates : List TaskState := [submitted, queued, parked, ready]

/-- The table `_ALLOWED`. -/
def allowed : TaskState → List TaskState
  | submitted => [queued, cancelled]
  | queued => [ready, parked, cancelled, failed]
  | parked => [ready, cancelled, deadLettered, succeeded, failed]
  | ready => [leased, parked, cancelled, failed]
  | leased => [dispatched, ready, parked, failed, cancelled]
  | dispatched => [starting, ready, failed, cancelled]
  | starting => [running, ready, failed, cancelled]
  | running => [succeeded, failed, cancelled, parked, ready]
  | succeeded => []
  | failed => [ready, deadLettered]
  | cancelled => []
  | deadLettered => []

def canTransition (frm dst : TaskState) : Bool := (allowed frm).contains dst

/-- The edges that a tenant worker may ask for. -/
def workerTransitions : List (TaskState × TaskState) :=
  [(leased, dispatched), (dispatched, starting), (starting, running)] ++
    [leased, dispatched, starting].flatMap (fun frm => [failed, cancelled].map fun dst => (frm, dst)) ++
    [parked, ready, succeeded, failed, cancelled].map fun dst => (running, dst)

def workerMayTransition (frm dst : TaskState) : Bool := (frm, dst) ∈ workerTransitions && canTransition frm dst

/-- Every state is pending, holds capacity, or is terminal, and only one of these. -/
theorem state_classes (s : TaskState) :
    (s ∈ pendingStates ∧ s ∉ concurrencyStates ∧ s ∉ terminalStates) ∨
      (s ∉ pendingStates ∧ s ∈ concurrencyStates ∧ s ∉ terminalStates) ∨
      (s ∉ pendingStates ∧ s ∉ concurrencyStates ∧ s ∈ terminalStates) := by
  cases s <;> decide

/-- `FAILED` is the only terminal state with a way out. -/
theorem canTransition_of_terminal {frm dst : TaskState} (hfrm : frm ∈ terminalStates)
    (h : canTransition frm dst = true) :
    frm = failed ∧ (dst = ready ∨ dst = deadLettered) := by
  revert h hfrm
  cases frm <;> cases dst <;> decide

inductive BlockedReason
  | globalConcurrencyLimit
  | providerConcurrencyLimit
  | resourceClassLimit
  | runnerLimit
  | backendLimit
  | tenantLimit
  | budgetLimit
  | quotaExhausted
  | cooldown
  | dependency
  | scheduledRetry
  | manualPause
  | poolLimitUnset
deriving DecidableEq, Repr

end SwarmCloud.Common
