import SwarmCloud.Staging.Submission
import SwarmCloud.Lib.Results

/-! # A step's inputs in the worker

`declared_inputs` reads the declaration back from the task's metadata, and
`destination_for` gives the path that each input is staged to. Both check again what
the API has checked, each in its own way.
-/

namespace SwarmCloud.Staging

open Lib AttemptState

structure DeclaredInput where
  upstreamTaskId : String
  filename : String
  parentStepId : Option String := none
deriving DecidableEq, Repr

def DeclaredInput.destination (item : DeclaredInput) : String :=
  match item.parentStepId with
  | none => item.filename
  | some parent => parent ++ "/" ++ item.filename

/-- The refusals of the worker, each with what it names. -/
inductive InputUnavailable
  | inputFromNotMapping
  | upstreamNotTaskId (upstream : String)
  | filenameMissing (upstream : String)
  | parentsNotMapping
  | parentsMismatch (wanted keys : List String)
  | parentNotSegment (upstream : String)
  | parentsShared (parents : List (String × String))
  | sameDestination (filename : String) (sources : List String)
  | absolute (filename : String)
  | unsafeSegment (filename : String)
  | unsafeCharacter (filename : String)
  | reserved (filename part : String)
  | outside (filename : String)
deriving DecidableEq, Repr

def declaredInput (upstream : String) (filename : Value) : Except InputUnavailable DeclaredInput :=
  if stripped upstream = "" then .error (.upstreamNotTaskId upstream)
  else match filename with
    | .str name =>
      if stripped name = "" then .error (.filenameMissing upstream)
      else .ok { upstreamTaskId := stripped upstream, filename := stripped name }
    | _ => .error (.filenameMissing upstream)

def declaredItems : List (String × Value) → Except InputUnavailable (List DeclaredInput)
  | [] => .ok []
  | item :: items => do
    let first ← declaredInput item.1 item.2
    let rest ← declaredItems items
    return first :: rest

/-- A parent's step id, as one safe path segment. -/
def parentStep (upstream : String) (stepId : Value) : Except InputUnavailable String :=
  match stepId with
  | .str text =>
    if stripped text = "" ∨ stripped text = "." ∨ stripped text = ".." ∨
        (stripped text).toList.any (fun c => c = '/' || c = '\\' || c = '\x00') then
      .error (.parentNotSegment upstream)
    else .ok (stripped text)
  | _ => .error (.parentNotSegment upstream)

def parentSteps (parents : Dict String String) : List (String × Value) → Except InputUnavailable (Dict String String)
  | [] => .ok parents
  | item :: items => do
    let step ← parentStep item.1 item.2
    parentSteps (parents.set (stripped item.1) step) items

/-- `_declared_parents`; none when the block names no parents. -/
def declaredParents (metadata : Fields) (declared : List DeclaredInput) :
    Except InputUnavailable (Option (Dict String String)) :=
  match metadata.lookup "dispatch" with
  | some (.map block) =>
    match block.lookup "input_parents" with
    | none | some .null => .ok none
    | some (.map raw) =>
      let wanted := declared.map DeclaredInput.upstreamTaskId
      let keys := raw.map fun item => stripped item.1
      if ¬ ((∀ key ∈ keys, key ∈ wanted) ∧ ∀ id ∈ wanted, id ∈ keys) then
        .error (.parentsMismatch (sortBy id wanted.dedup) (sortBy id keys.dedup))
      else match parentSteps [] raw with
        | .error refusal => .error refusal
        | .ok parents =>
          if (parents.map Prod.snd).Nodup then .ok (some parents)
          else .error (.parentsShared (sortBy Prod.fst parents))
    | some _ => .error .parentsNotMapping
  | _ => .ok none

/-- The destinations with the tasks that stage to them. -/
def byName (declared : List DeclaredInput) : Dict String (List String) :=
  Dict.grouped DeclaredInput.destination DeclaredInput.upstreamTaskId declared

/-- `_assert_distinct_destinations`. -/
def sharedDestination (declared : List DeclaredInput) : Option InputUnavailable :=
  (sortBy Prod.fst (byName declared)).findSome? fun item =>
    if 1 < item.2.length then some (.sameDestination item.1 (sortBy id item.2)) else none

/-- The inputs of a declaration that names some. -/
def declaredFrom (metadata : Fields) (raw : List (String × Value)) : Except InputUnavailable (List DeclaredInput) :=
  match declaredItems (sortBy Prod.fst raw) with
  | .error refusal => .error refusal
  | .ok declared =>
    match declaredParents metadata declared with
    | .error refusal => .error refusal
    | .ok parents =>
      let declared := match parents with
        | none => declared
        | some parents => declared.map fun item =>
            { item with parentStepId := some ((parents.lookup item.upstreamTaskId).getD "") }
      match sharedDestination declared with
      | some refusal => .error refusal
      | none => .ok declared

def declaredInputs (metadata : Value) : Except InputUnavailable (List DeclaredInput) :=
  match metadata with
  | .map metadata =>
    match metadata.lookup "input_from" with
    | none | some .null => .ok []
    | some (.map raw) => if raw.isEmpty then .ok [] else declaredFrom metadata raw
    | some _ => .error .inputFromNotMapping
  | _ => .ok []

/-- `PurePosixPath(…).parts`: empty and `.` segments are dropped, and an absolute path keeps its root. -/
def posixParts (path : String) : List String :=
  let parts := (segments path).filter fun part => part ≠ "" && part ≠ "."
  if path.toList.head? ≠ some '/' then parts
  else if "//".toList.isPrefixOf path.toList && !"///".toList.isPrefixOf path.toList then "//" :: parts
  else "/" :: parts

/-- The work directory, and how the file system resolves a path of it. -/
structure Workspace where
  work : List String
  resolve : List String → List String

def destinationFor (ws : Workspace) (filename : String) (reserved : List String) :
    Except InputUnavailable (List String) :=
  let parts := posixParts filename
  if filename.toList.head? = some '/' then .error (.absolute filename)
  else if parts = [] ∨ (parts.any fun part => part = "" || part = "." || part = "..") then
    .error (.unsafeSegment filename)
  else if '\\' ∈ filename.toList ∨ '\x00' ∈ filename.toList then .error (.unsafeCharacter filename)
  else if parts.head?.any (· ∈ reserved) then .error (.reserved filename (parts.head?.getD ""))
  else if (ws.resolve ws.work).isPrefixOf (ws.resolve (ws.work ++ parts)) then .ok (ws.work ++ parts)
  else .error (.outside filename)

end SwarmCloud.Staging
