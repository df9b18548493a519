import SwarmCloud.Lib.Results
import SwarmCloud.Staging.Manifest

/-! # What a step stages, resolved before anything is fetched

The first three passes of `stage_inputs`: the destinations, what a restored
checkpoint already holds, and for each pending input its artifact with the files
that come with it. Nothing is fetched before all of them are known and counted.
-/

namespace SwarmCloud.Staging

open Lib AttemptState

/-- What `stage_inputs` is called with. `upstreamDocument` is the read of a task document, none where there is
none; `isFile` is whether the work directory holds a file at a path. -/
structure StageCall where
  ws : Workspace
  upstreamDocument : String → Except Unresolved (Option Fields)
  isFile : List String → Bool
  tenantId : String
  resumed : Bool
  maxTotalBytes : Int
  reserved : List String

structure StagedAttachment where
  reference : AttachmentReference
  path : List String

/-- A pending input with its artifact and the files that come with it. -/
structure Resolved where
  item : DeclaredInput
  path : List String
  reference : ArtifactReference
  attachments : List StagedAttachment

/-- The destination without the filename at its end. -/
def DeclaredInput.beside (item : DeclaredInput) : String :=
  String.ofList (item.destination.toList.take (item.destination.length - item.filename.length))

/-- An entry of `claimed`: whose file is at a path. -/
structure Claim where
  filename : String
  upstream : String

section Stage

variable (call : StageCall)

def destination (filename : String) : Except Unresolved (List String) :=
  match destinationFor call.ws filename call.reserved with
  | .error refusal => .error (.input refusal)
  | .ok path => .ok path

def fetchUpstreamTask (upstream : String) : Except Unresolved Fields := do
  match ← call.upstreamDocument upstream with
  | none => .error (.noDocument upstream)
  | some document =>
    if Value.asString (document.lookup "tenant_id") ≠ some call.tenantId then
      .error (.otherTenant upstream (document.lookup "tenant_id") call.tenantId)
    else return document

def stageAttachment (item : DeclaredInput) (reference : AttachmentReference) : Except Unresolved StagedAttachment := do
  let path ← destination call (item.beside ++ reference.name)
  return { reference, path }

/-- The turn of a pending input in the third pass. -/
def resolveInput (item : DeclaredInput × List String) : Except Unresolved Resolved := do
  let document ← fetchUpstreamTask call item.1.upstreamTaskId
  let reference ← artifactReference call.tenantId item.1.upstreamTaskId item.1.filename document
  let attachments ← reference.attachments.mapM (stageAttachment call item.1)
  return { item := item.1, path := item.2, reference, attachments }

/-- The first pass. -/
def destinations (declared : List DeclaredInput) : Except Unresolved (List (DeclaredInput × List String)) :=
  declared.mapM fun item => do
    let path ← destination call item.destination
    return (item, path)

/-- The loop of `_assert_attachments_land_alone`. -/
def landAlone (claimed : Dict (List String) Claim) : List (DeclaredInput × StagedAttachment) → Except Unresolved Unit
  | [] => .ok ()
  | (item, attachment) :: rest =>
    match claimed.find? (·.1 = attachment.path) with
    | some (_, claim) =>
      .error (.attachmentOver item.upstreamTaskId attachment.reference.name item.filename claim.filename claim.upstream)
    | none => landAlone (claimed.set attachment.path ⟨attachment.reference.name, item.upstreamTaskId⟩) rest

def carried (resolved : List Resolved) : List (DeclaredInput × StagedAttachment) :=
  resolved.flatMap fun r => r.attachments.map fun attachment => (r.item, attachment)

def assertAttachmentsLandAlone (placed : List (DeclaredInput × List String)) (resolved : List Resolved) :
    Except Unresolved Unit :=
  landAlone (Dict.filled Prod.snd (fun item => ⟨item.1.filename, item.1.upstreamTaskId⟩) placed) (carried resolved)

/-- The inputs that no restored checkpoint holds. -/
def pendingOf (placed : List (DeclaredInput × List String)) : List (DeclaredInput × List String) :=
  placed.filter fun item => !(call.resumed && call.isFile item.2)

def resolveInputs (declared : List DeclaredInput) : Except Unresolved (List Resolved) := do
  let placed ← destinations call declared
  let resolved ← (pendingOf call placed).mapM (resolveInput call)
  assertAttachmentsLandAlone placed resolved
  return resolved

/-- The bytes that the manifests declare. -/
def totalBytes (resolved : List Resolved) : Int :=
  (resolved.map fun r => r.reference.sizeBytes + (r.reference.attachments.map AttachmentReference.sizeBytes).sum).sum

/-- What the fourth pass fetches. -/
def stagePlan (declared : List DeclaredInput) : Except Unresolved (List Resolved) :=
  if declared = [] then .ok []
  else do
    let resolved ← resolveInputs call declared
    if call.maxTotalBytes < totalBytes resolved then
      .error (.overCap resolved.length (totalBytes resolved)
        ((resolved.map fun r => (r.reference.attachments.length : Int)).sum) call.maxTotalBytes)
    else return resolved

end Stage

end SwarmCloud.Staging
