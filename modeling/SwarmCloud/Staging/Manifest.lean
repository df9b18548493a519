import SwarmCloud.Common.States
import SwarmCloud.Lib.Substrings
import SwarmCloud.Staging.Inputs

/-! # An upstream task's artifact, as its manifest records it

`artifact_reference` and `_attachment_references`: the first entry of the
successful attempt's manifest with the name of the input, where it lies in the
bucket, and the files that an answer carries in the directory beside it.
-/

namespace SwarmCloud.Staging

open Common Lib AttemptState

/-- The refusals of `stage_inputs` before anything is fetched, each with what it names. -/
inductive Unresolved
  | input (refusal : InputUnavailable)
  | upstreamNotDeclared (upstream : String)
  | noDocument (upstream : String)
  | otherTenant (upstream : String) (actual : Option Value) (tenantId : String)
  | notSucceeded (upstream : String) (state : Option Value) (filename : String)
  | noSummary (upstream filename : String)
  | noLocation (upstream filename : String)
  | noSize (upstream filename : String) (recorded : Option Value)
  | skipped (upstream filename : String) (cause : Option String)
  | notProduced (upstream filename : String) (uploaded : List String)
  | outsideUpstream (filename uri tenantId upstream : String)
  | notOneAttempt (filename uri upstream : String)
  | unsafeKey (key : String)
  | emptyName (filename : String)
  | attachmentsNotList (upstream filename : String)
  | attachmentNotEntry (upstream filename : String)
  | attachmentUnnamed (upstream filename : String)
  | attachmentElsewhere (upstream filename name directory : String)
  | attachmentTwice (upstream filename name : String)
  | attachmentNoLocation (upstream filename name : String)
  | attachmentNoSize (upstream filename name : String) (recorded : Option Value)
  | attachmentOver (upstream name filename claimedBy claimedFrom : String)
  | overCap (declared : Nat) (total files maxTotalBytes : Int)

structure AttachmentReference where
  name : String
  key : String
  uri : String
  sizeBytes : Int

structure ArtifactReference where
  key : String
  uri : String
  sizeBytes : Int
  attachments : List AttachmentReference := []
  inline : Option String := none

/-! ## Paths -/

/-- The parts of `PurePosixPath(…)` below its root. -/
def posixNames (path : String) : List String := (segments path).filter fun part => part ≠ "" && part ≠ "."

def posixRoot (path : String) : String :=
  if path.toList.head? ≠ some '/' then ""
  else if "//".toList.isPrefixOf path.toList && !"///".toList.isPrefixOf path.toList then "//"
  else "/"

/-- `PurePosixPath.stem` of a name: what stands before its last dot, unless the dot is its first or its last
character. -/
def stem (name : String) : String :=
  let suffix := name.toList.rtakeWhile (· ≠ '.')
  let before := name.toList.take (name.length - suffix.length - 1)
  if '.' ∈ name.toList ∧ before ≠ [] ∧ suffix ≠ [] then String.ofList before else name

def attachmentsDirSuffix : String := ".files"

/-- `attachments_dir`; a path without a name raises. -/
def attachmentsDir (filename : String) : Except Unresolved String :=
  match (posixNames filename).getLast? with
  | none => .error (.emptyName filename)
  | some last =>
    .ok (posixRoot filename ++ joined ((posixNames filename).dropLast ++ [stem last ++ attachmentsDirSuffix]))

/-! ## Keys -/

def validateKey (key : String) : Except Unresolved String :=
  if key = "" ∨ key.toList.head? = some '/' then .error (.unsafeKey key)
  else if (segments (String.ofList (key.toList.rdropWhile (· = '/')))).any (· ∈ unsafeSegments) then
    .error (.unsafeKey key)
  else .ok key

def artifactKey (uri tenantId upstream filename : String) : Except Unresolved String :=
  let attempts := "tenants/" ++ tenantId ++ "/tasks/" ++ upstream ++ "/attempts/"
  match fromFirst attempts.toList uri.toList with
  | none => .error (.outsideUpstream filename uri tenantId upstream)
  | some found =>
    let rest := found.drop attempts.length
    let attemptId := rest.takeWhile (· ≠ '/')
    if attemptId = [] ∨ rest.dropWhile (· ≠ '/') ≠ ("/artifacts/" ++ filename).toList then
      .error (.notOneAttempt filename uri upstream)
    else validateKey (attempts ++ String.ofList attemptId ++ "/artifacts/" ++ filename)

/-! ## Entries -/

def inlineArtifactNames : List String := ["verdict.json"]

def maxInlineBytes : Nat := 4096

/-- `inline_artifact`. -/
def inlineArtifact (document entry : Fields) (filename : String) : Option String :=
  match entry.lookup "inline" with
  | some (.str text) =>
    if filename ∉ inlineArtifactNames ∨ Value.asString (entry.lookup "written_by") ≠ some "control_plane" ∨
        Value.truthy (entry.lookup "uri") then none
    else if (Value.asString ((Value.mapping (document.lookup "result_summary")).lookup "review_skipped")).isNone then none
    else if text.utf8ByteSize ≤ maxInlineBytes then some text else none
  | _ => none

/-- A whole number of bytes that is not negative. -/
def wholeSize : Option Value → Option Int
  | some (.int n) => if 0 ≤ n then some n else none
  | _ => none

/-- The name up to its last slash, and what comes after it. -/
def parentAndLeaf (name : String) : Option (String × String) :=
  if '/' ∉ name.toList then none
  else
    let leaf := name.toList.rtakeWhile (· ≠ '/')
    some (String.ofList (name.toList.take (name.length - leaf.length - 1)), String.ofList leaf)

/-- A name of one file in the directory. -/
def isLeafOf (directory name : String) : Bool :=
  (parentAndLeaf name).any fun parts => parts.1 = directory && parts.2 ∉ unsafeSegments &&
    '\\' ∉ parts.2.toList && '\x00' ∉ parts.2.toList

section References

variable (tenantId upstream filename : String)

/-- One item of the loop, after the names that were `seen`. -/
def attachmentReference (directory : String) (seen : List String) : Value → Except Unresolved AttachmentReference
  | .map item =>
    match item.lookup "name" with
    | some (.str name) =>
      if name = "" then .error (.attachmentUnnamed upstream filename)
      else if !isLeafOf directory name then .error (.attachmentElsewhere upstream filename name directory)
      else if name ∈ seen then .error (.attachmentTwice upstream filename name)
      else match item.lookup "uri" with
        | some (.str uri) =>
          if uri = "" then .error (.attachmentNoLocation upstream filename name)
          else match wholeSize (item.lookup "bytes") with
            | none => .error (.attachmentNoSize upstream filename name (item.lookup "bytes"))
            | some sizeBytes => do
              let key ← artifactKey uri tenantId upstream name
              return { name, key, uri, sizeBytes }
        | _ => .error (.attachmentNoLocation upstream filename name)
    | _ => .error (.attachmentUnnamed upstream filename)
  | _ => .error (.attachmentNotEntry upstream filename)

def attachmentLoop (directory : String) : List String → List Value → Except Unresolved (List AttachmentReference)
  | _, [] => .ok []
  | seen, item :: items => do
    let first ← attachmentReference tenantId upstream filename directory seen item
    let rest ← attachmentLoop directory (seen ++ [first.name]) items
    return first :: rest

def attachmentReferences (entry : Fields) : Except Unresolved (List AttachmentReference) :=
  match entry.lookup "attachments" with
  | none | some .null => .ok []
  | some (.list items) => do
    let directory ← attachmentsDir filename
    attachmentLoop tenantId upstream filename directory [] items
  | some _ => .error (.attachmentsNotList upstream filename)

/-- What the loop over the manifest does with the entry of that name. -/
def entryReference (document entry : Fields) : Except Unresolved ArtifactReference :=
  match inlineArtifact document entry filename with
  | some text =>
    .ok { key := "", uri := "inline:" ++ upstream ++ "/" ++ filename, sizeBytes := text.utf8ByteSize, inline := some text }
  | none =>
    match entry.lookup "uri" with
    | some (.str uri) =>
      if uri = "" then .error (.noLocation upstream filename)
      else match wholeSize (entry.lookup "bytes") with
        | none => .error (.noSize upstream filename (entry.lookup "bytes"))
        | some sizeBytes => do
          let key ← artifactKey uri tenantId upstream filename
          let attachments ← attachmentReferences tenantId upstream filename entry
          return { key, uri, sizeBytes, attachments }
    | _ => .error (.noLocation upstream filename)

/-- The entries that are mappings with a name, in order. -/
def namedEntries (document : Fields) : List (String × Fields) :=
  match (Value.mapping (document.lookup "result_summary")).lookup "artifacts" with
  | some (.list entries) => entries.filterMap fun entry => match entry with
    | .map entry => (Value.asString (entry.lookup "name")).map (·, entry)
    | _ => none
  | _ => []

/-- `skipped_entries` of a stored `artifacts_skipped`. -/
def skippedEntries : Option Value → List (String × Option String)
  | some (.list entries) => entries.filterMap fun entry => match entry with
    | .str name => some (name, none)
    | .map entry => (Value.asString (entry.lookup "name")).map fun name =>
        (name, (Value.asString (entry.lookup "cause")).filter (· ≠ ""))
    | _ => none
  | _ => []

def artifactReference (document : Fields) : Except Unresolved ArtifactReference :=
  if Value.asString (document.lookup "state") ≠ some TaskState.succeeded.value then
    .error (.notSucceeded upstream (document.lookup "state") filename)
  else match document.lookup "result_summary" with
    | some (.map summary) =>
      match (namedEntries document).lookup filename with
      | some entry => entryReference tenantId upstream filename document entry
      | none =>
        -- Of two entries of one name in the skipped list the later one stays, as in a dictionary.
        match (skippedEntries (summary.lookup "artifacts_skipped")).reverse.lookup filename with
        | some cause => .error (.skipped upstream filename cause)
        | none => .error (.notProduced upstream filename (sortBy id ((namedEntries document).map Prod.fst)))
    | _ => .error (.noSummary upstream filename)

end References

end SwarmCloud.Staging
