import SwarmCloud.Common.States
import SwarmCloud.Lib.Docs

/-! # The workflow rollup

`swarm_rollup`: a workflow's state is derived from its steps' task states, and
never from a partial read. Fix rounds count as steps until everything is
terminal, and then leave the verdict to the workflow's own steps.
-/

namespace SwarmCloud.Rollup

open Common Lib

/-- The kinds of `FIX_ROUND_STEP_RE`. -/
def fixRoundKinds : List String :=
  ["ci-fix", "conflict-fix", "pick-fix", "review-fix", "re-review"]

def isDigit (c : Char) : Bool := decide ('0' ≤ c ∧ c ≤ '9')

/-- The pattern `[1-9][0-9]{0,2}`, written without braces: one to three digits, no leading zero. -/
def isRoundNumber : List Char → Bool
  | [] => false
  | c :: rest => isDigit c && c != '0' && decide (rest.length ≤ 2) && rest.all isDigit

def afterPrefix (pre s : List Char) : Option (List Char) :=
  if pre.isPrefixOf s then some (s.drop pre.length) else none

def isFixRoundStep (stepId : String) : Bool :=
  fixRoundKinds.any fun kind =>
    match afterPrefix (kind ++ ":").toList stepId.toList with
    | none => false
    | some number => isRoundNumber number

structure WorkflowStep where
  stepId : String
  taskId : Option String
deriving DecidableEq, Repr

structure StepReading where
  stepId : String
  taskId : Option String
  state : Option TaskState
  absent : Bool := false
  skipped : Bool := false
deriving DecidableEq, Repr

def StepReading.unstarted (r : StepReading) : Bool := r.taskId.isNone

/-- A step names a task when its `task_id` is neither missing nor empty. -/
def WorkflowStep.task (step : WorkflowStep) : Option String :=
  step.taskId.filter fun id => id ≠ ""

def readStep (states : Docs String TaskState) (absent skipped : List String)
    (step : WorkflowStep) : StepReading :=
  match step.task with
  | none => { stepId := step.stepId, taskId := none, state := none }
  | some id =>
    let state := states.lookup id
    { stepId := step.stepId
      taskId := some id
      state := state
      absent := state.isNone && absent.contains id
      skipped := state == some .succeeded && skipped.contains id }

def readSteps (steps : List WorkflowStep) (states : Docs String TaskState)
    (absent skipped : List String) : List StepReading :=
  steps.map (readStep states absent skipped)

/-- Terminal states, worst first. -/
def terminalSeverity : List TaskState := [.deadLettered, .failed, .cancelled, .succeeded]

/-- Pending states, most advanced first. -/
def pendingPrecedence : List TaskState := [.ready, .parked, .queued, .submitted]

inductive RollupState
  | unknown
  | known (state : TaskState)
deriving DecidableEq, Repr

structure WorkflowRollup where
  state : RollupState
  complete : Bool
  reason : String
  counts : Docs String Nat := ∅
  unreadableSteps : List String := []
  unstartedSteps : List String := []
  stepsRead : Nat := 0
  skippedSteps : List String := []
  fixRoundSteps : List String := []

def countKey (r : StepReading) : String :=
  if r.unstarted then "unstarted"
  else match r.state with
    | none => "unreadable"
    | some s => s.value

def tally (counts : Docs String Nat) (r : StepReading) : Docs String Nat :=
  counts.insert (countKey r) ((counts.lookup (countKey r)).getD 0 + 1)

def stepIds (readings : List StepReading) (p : StepReading → Bool) : List String :=
  (readings.filter p).map StepReading.stepId

def presentStates (readings : List StepReading) : List TaskState :=
  readings.filterMap StepReading.state

def ownStates (readings : List StepReading) : List TaskState :=
  (readings.filter fun r => !isFixRoundStep r.stepId).filterMap StepReading.state

/-- `own or present`: the states the terminal rule judges. -/
def judgedStates (readings : List StepReading) : List TaskState :=
  if ownStates readings = [] then presentStates readings else ownStates readings

/-- `next(s for s in order if s in present)`; every caller has one to find. -/
def firstOf (order present : List TaskState) (floor : TaskState) : TaskState :=
  (order.find? fun s => present.contains s).getD floor

def worstState (readings : List StepReading) : TaskState :=
  firstOf terminalSeverity (judgedStates readings) .succeeded

def unreadableReason (readings : List StepReading) : String :=
  let absent := stepIds readings StepReading.absent
  let unreadable := stepIds readings fun r => !r.unstarted && r.state.isNone
  if absent.length = unreadable.length then "step_tasks_missing"
  else if absent = [] then "step_tasks_unread"
  else "step_tasks_missing_and_unread"

def derive (readings : List StepReading) : WorkflowRollup :=
  if readings = [] then
    { state := .unknown, complete := false, reason := "no_steps" }
  else
    let counts := readings.foldl tally ∅
    let unreadable := stepIds readings fun r => !r.unstarted && r.state.isNone
    let unstarted := stepIds readings StepReading.unstarted
    let skipped := stepIds readings StepReading.skipped
    let rounds := stepIds readings fun r => isFixRoundStep r.stepId
    let read := (readings.filter fun r => !r.unstarted && r.state.isSome).length
    let present := presentStates readings
    if unreadable ≠ [] then
      { state := .unknown, complete := false, reason := unreadableReason readings
        counts := counts, unreadableSteps := unreadable, unstartedSteps := unstarted
        stepsRead := read, skippedSteps := skipped, fixRoundSteps := rounds }
    else if present.any fun s => concurrencyStates.contains s then
      { state := .known .running, complete := true, reason := "steps_hold_capacity"
        counts := counts, unstartedSteps := unstarted
        stepsRead := read, skippedSteps := skipped, fixRoundSteps := rounds }
    else if unstarted = [] ∧ present ≠ [] ∧ present.all fun s => terminalStates.contains s then
      let worst := worstState readings
      let reason := if worst = .succeeded then "all_steps_succeeded"
        else "worst_terminal_step_" ++ worst.value.toLower
      { state := .known worst, complete := true, reason := reason
        counts := counts, stepsRead := read, skippedSteps := skipped, fixRoundSteps := rounds }
    else
      let pending := present.filter fun s => pendingStates.contains s
      if pending ≠ [] then
        let state := firstOf pendingPrecedence pending .queued
        { state := .known state, complete := true
          reason := "most_advanced_pending_step_" ++ state.value.toLower
          counts := counts, unstartedSteps := unstarted
          stepsRead := read, skippedSteps := skipped, fixRoundSteps := rounds }
      else
        { state := .known .queued, complete := true, reason := "steps_not_started"
          counts := counts, unstartedSteps := unstarted
          stepsRead := read, skippedSteps := skipped, fixRoundSteps := rounds }

/-- `_final_workflow_states`: the severities at or below which no state has a way out. -/
def finalWorkflowStates : List TaskState :=
  (terminalSeverity.zipIdx.filter fun (_, rank) =>
    !(terminalSeverity.drop rank).any fun step =>
      TaskState.all.any fun next => canTransition step next).map Prod.fst

theorem finalWorkflowStates_eq : finalWorkflowStates = [.cancelled, .succeeded] := by decide

end SwarmCloud.Rollup
