import Mathlib.Data.Finset.Basic
import SwarmCloud.Lib.Loops
import SwarmCloud.Lib.Sorting
import SwarmCloud.Staging.Submission

/-! # The graph of a submitted workflow

`validate_dag`, `find_cycle` and `topological_order` of `validation.py`. The two
searches are loops with fuel: what they return does not depend on it.
-/

namespace SwarmCloud.Workflows

open Lib

/-- The slice of a submitted step that the graph reads. -/
structure StepSpec extends Staging.StepSpec where
  dependsOn : List String

/-- The refusals of `validate_dag`, each with its detail. -/
inductive DagError
  | noSteps
  | overLimit (steps maxWorkflowSteps : Nat)
  | emptyStepId
  | duplicateStepId (stepId : String)
  | selfDependency (stepId : String)
  | missingDependency (stepId missingDependency : String) (knownSteps : List String)
  | missingSource (stepId missingDependency : String)
  | sourceNotUpstream (stepId inputFrom : String)
  | staged (error : Staging.DagError)
  | cycle (cycle : List String)
  | unordered
deriving DecidableEq, Repr

def ids (steps : List StepSpec) : List String := steps.map fun step => step.stepId

/-- The dependencies of the step of an id. The ids of a workflow are distinct. -/
def edges (steps : List StepSpec) (node : String) : List String :=
  ((steps.find? fun step => step.stepId = node).map StepSpec.dependsOn).getD []

/-! ## The cycle -/

inductive Colour
  | white
  | grey
  | black
deriving DecidableEq, Repr

/-- The roots still to visit, the stack of nodes with the next of their edges, the innermost first, the path of
the grey nodes and the colours. -/
structure Search where
  roots : List String
  stack : List (String × Nat)
  path : List String
  colour : String → Colour

def Search.start (steps : List StepSpec) : Search := ⟨ids steps, [], [], fun _ => .white⟩

/-- One turn of the loops of `find_cycle`: the next root, or the next edge of the innermost node. -/
def searchTurn (steps : List StepSpec) (search : Search) : Search ⊕ Option (List String) :=
  match search.stack with
  | [] =>
    match search.roots with
    | [] => .inr none
    | root :: roots =>
      if search.colour root ≠ .white then .inl { search with roots := roots }
      else .inl ⟨roots, [(root, 0)], [root], Function.update search.colour root .grey⟩
  | (node, index) :: below =>
    match (edges steps node)[index]? with
    | none => .inl ⟨search.roots, below, search.path.dropLast, Function.update search.colour node .black⟩
    | some next =>
      if next ∉ ids steps then .inl { search with stack := (node, index + 1) :: below }
      else
        match search.colour next with
        | .grey => .inr (some (search.path.drop (search.path.idxOf next) ++ [next]))
        | .white => .inl ⟨search.roots, (next, 0) :: (node, index + 1) :: below, search.path ++ [next],
            Function.update search.colour next .grey⟩
        | .black => .inl { search with stack := (node, index + 1) :: below }

def findCycle (fuel : Nat) (steps : List StepSpec) : Option (Option (List String)) :=
  loop (searchTurn steps) fuel (.start steps)

/-! ## The order -/

structure Sweep where
  ready : List String
  remaining : String → Finset String
  out : List String

/-- The steps that name a node among their dependencies, each as often as it names it. -/
def dependents (steps : List StepSpec) (node : String) : List String :=
  steps.flatMap fun step => (step.dependsOn.filter (· = node)).map fun _ => step.stepId

def orderIndex (steps : List StepSpec) (sid : String) : Nat := (ids steps).idxOf sid

def release (steps : List StepSpec) (node : String) (state : List String × (String → Finset String)) (child : String) :
    List String × (String → Finset String) :=
  let remaining := Function.update state.2 child ((state.2 child).erase node)
  if remaining child = ∅ then (sortBy (orderIndex steps) (state.1 ++ [child]), remaining) else (state.1, remaining)

def Sweep.start (steps : List StepSpec) : Sweep :=
  let remaining := fun sid => (edges steps sid).toFinset
  ⟨sortBy (orderIndex steps) ((ids steps).filter fun sid => remaining sid = ∅), remaining, []⟩

/-- One turn of `topological_order`: the first of the ready steps is out, and its dependents lose it. -/
def sweepTurn (steps : List StepSpec) (sweep : Sweep) : Sweep ⊕ Except DagError (List String) :=
  match sweep.ready with
  | [] => .inr (if sweep.out.length ≠ steps.length then .error .unordered else .ok sweep.out)
  | node :: ready =>
    let released := (dependents steps node).foldl (release steps node) (ready, sweep.remaining)
    .inl ⟨released.1, released.2, sweep.out ++ [node]⟩

def topologicalOrder (fuel : Nat) (steps : List StepSpec) : Option (Except DagError (List String)) :=
  loop (sweepTurn steps) fuel (.start steps)

/-! ## Validation -/

/-- The ids, stripped, none of them empty or there twice. -/
def checkIds (seen : List String) : List StepSpec → Except DagError (List String)
  | [] => .ok seen
  | step :: steps =>
    let sid := Staging.stripped step.stepId
    if sid = "" then .error .emptyStepId
    else if sid ∈ seen then .error (.duplicateStepId sid)
    else checkIds (seen ++ [sid]) steps

def checkDependency (seen : List String) (step : StepSpec) (dep : String) : Except DagError Unit :=
  if dep = step.stepId then .error (.selfDependency step.stepId)
  else if dep ∉ seen then .error (.missingDependency step.stepId dep seen)
  else .ok ()

def checkSource (seen : List String) (step : StepSpec) (source : String) : Except DagError Unit :=
  if source ∉ seen then .error (.missingSource step.stepId source)
  else if source ∉ step.dependsOn then .error (.sourceNotUpstream step.stepId source)
  else .ok ()

def checkStep (seen : List String) (step : StepSpec) : Except DagError Unit := do
  step.dependsOn.forM (checkDependency seen step)
  (step.inputFrom.map Prod.fst).forM (checkSource seen step)
  match Staging.validateStagedFilenames step.toStepSpec with
  | .error error => .error (.staged error)
  | .ok () => .ok ()

/-- What `validate_dag` checks of the steps before it searches the graph. -/
def checkSteps (maxSteps : Nat) (steps : List StepSpec) : Except DagError Unit := do
  if steps = [] then throw .noSteps
  if maxSteps < steps.length then throw (.overLimit steps.length maxSteps)
  let seen ← checkIds [] steps
  steps.forM (checkStep seen)

def validateDag (fuel : Nat) (maxSteps : Nat) (steps : List StepSpec) : Option (Except DagError (List String)) :=
  match checkSteps maxSteps steps with
  | .error error => some (.error error)
  | .ok () =>
    match findCycle fuel steps with
    | none => none
    | some (some cycle) => some (.error (.cycle cycle))
    | some none => topologicalOrder fuel steps

end SwarmCloud.Workflows
