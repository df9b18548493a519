import SwarmCloud.AttemptState.Documents
import SwarmCloud.Quota.Broker
import SwarmCloud.Lib.Dict
import SwarmCloud.Lib.Paths
import SwarmCloud.Lib.Sorting
import Mathlib.Data.String.Basic

/-! # A step's staged files at submission

`validate_staged_filenames` of the API: an `input_from` whose files cannot all land
in the workspace of its step is refused. An accepted one is written onto the task of
the step, under the task ids of its parents.
-/

namespace SwarmCloud.Staging

open Lib AttemptState

def stripped (s : String) : String := strip Quota.isSpace s

inductive InputLayout
  | flat
  | byParent
deriving DecidableEq, Repr

/-- The slice of a submitted step that staging reads: `input_from` is a mapping of step ids to filenames. -/
structure StepSpec where
  stepId : String
  inputFrom : Dict String String
  inputLayout : InputLayout := .flat

/-- The refusals of `validate_staged_filenames`, each with its detail. -/
inductive DagError
  | filename (stepId inputFrom filename problem : String)
  | sameFilename (stepId filename : String) (collidingUpstreamSteps : List String)
  | nestedFilename (stepId filename nestedFilename : String) (collidingUpstreamSteps : List String)
deriving DecidableEq, Repr

def unsafeSegments : List String := ["", ".", ".."]

def maxInputFromNameBytes : Nat := 256

def maxSegmentBytes : Nat := 255

def filenameProblem (filename : String) : Option String :=
  if filename = "" then some "is empty"
  else if filename.toList.head? = some '/' then some "is an absolute path"
  else if '\\' ∈ filename.toList ∨ '\x00' ∈ filename.toList then some "contains a backslash or a NUL character"
  else match (segments filename).find? (· ∈ unsafeSegments) with
    | some segment => some ("contains the path segment '" ++ segment ++ "'")
    | none =>
      if maxInputFromNameBytes < filename.utf8ByteSize then
        some ("is " ++ toString filename.utf8ByteSize ++ " bytes of UTF-8, over the " ++
          toString maxInputFromNameBytes ++ "-byte bound the worker holds an artifact's name to")
      else if (segments filename).any fun segment => maxSegmentBytes < segment.utf8ByteSize then
        some ("has a path segment over the " ++ toString maxSegmentBytes ++ " bytes Linux allows one file name")
      else none

/-- The files with their parents, in the order of the request. -/
def landing (inputFrom : Dict String String) : Dict String (List String) :=
  Dict.grouped (fun item => stripped item.2) Prod.fst inputFrom

def sameNameClash (stepId : String) (landed : Dict String (List String)) : Option DagError :=
  landed.findSome? fun item =>
    if item.2.length < 2 then none else some (.sameFilename stepId item.1 (sortBy id item.2))

/-- The first name, in sorted order, that stands under another one. -/
def directoryClash (stepId : String) (landed : Dict String (List String)) : Option DagError :=
  (sortBy id (landed.map Prod.fst)).findSome? fun inner =>
    (List.range' 1 ((segments inner).length - 1)).findSome? fun depth =>
      let outer := joined ((segments inner).take depth)
      match landed.lookup outer with
      | none => none
      | some outerSources =>
        let innerSources := (landed.lookup inner).getD []
        some (.nestedFilename stepId outer inner
          (sortBy id (outerSources.take 1 ++ innerSources.take 1).dedup))

def validateStagedFilenames (step : StepSpec) : Except DagError Unit :=
  match step.inputFrom.findSome? fun item =>
      (filenameProblem (stripped item.2)).map fun problem => DagError.filename step.stepId item.1 item.2 problem with
  | some error => .error error
  | none =>
    if step.inputLayout = .byParent then .ok ()
    else match sameNameClash step.stepId (landing step.inputFrom) with
      | some error => .error error
      | none =>
        match directoryClash step.stepId (landing step.inputFrom) with
        | some error => .error error
        | none => .ok ()

/-- The pattern of `WorkflowStepCreate.step_id`. -/
def isStepId (stepId : String) : Bool :=
  stepId.length ≤ 64 && stepId.toList.head?.any Char.isAlphanum &&
    stepId.toList.all fun c => c.isAlphanum || c = '_' || c = '-' || c = '.'

/-- A task id as `new_id("task")` mints it. -/
def isTaskId (taskId : String) : Bool :=
  "task_".toList.isPrefixOf taskId.toList && taskId.length = 25 &&
    (taskId.toList.drop 5).all fun c => c.isDigit || ('a' ≤ c && c ≤ 'f')

/-- What the service writes of a step's inputs onto the metadata and the dispatch block of its task. -/
def stepMetadata (step : StepSpec) (taskIdOf : String → String) (metadata block : Fields) : Fields :=
  let block := if step.inputFrom ≠ [] ∧ step.inputLayout = .byParent then
      block.set "input_parents" (.map (sortBy Prod.fst (step.inputFrom.map fun item => (taskIdOf item.1, item.1))
        |>.map fun item => (item.1, .str item.2)))
    else block
  let metadata := metadata.set "dispatch" (.map block)
  if step.inputFrom ≠ [] then
    metadata.set "input_from" (.map (step.inputFrom.map fun item => (taskIdOf item.1, .str item.2)))
  else metadata

end SwarmCloud.Staging
