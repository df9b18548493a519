import SwarmCloud.Checkpoints.Unpack
import SwarmCloud.Lib.Kernel
import SwarmCloud.Lib.Triples

/-! # A restore of archives that anyone may have written

The loop of `restore` over the whole file system, for archives with any members at
all. Paths are resolved as the kernel does, through whatever links stand on them. Of
`tarfile` it is taken only that it goes through the members it is given and makes
each at its own name. Each change of the tree is noted with the tree as it was.
-/

namespace SwarmCloud.Checkpoints.Hostile

open Lib Kernel

/-! ## Members -/

/-- A member of an archive. Sockets, FIFOs and devices have no kind. -/
structure TarMember where
  name : String
  kind : Option MemberKind
deriving DecidableEq, Repr

namespace TarMember

def issym (member : TarMember) : Bool :=
  match member.kind with
  | some (.link _) => true
  | _ => false

def isdir (member : TarMember) : Bool := member.kind = some .dir

/-- The bytes of a file member. -/
def size (member : TarMember) : Nat :=
  match member.kind with
  | some (.file content) => content.length
  | _ => 0

end TarMember

/-- An archive of a chain, as `tarfile` reads it, or an error of its own. -/
structure ArchiveLayer where
  checkpointId : String
  members : Option (List TarMember)
  deleted : List String

/-- How a restore stops: a `CheckpointError`, the one for want of room, or any other exception. -/
inductive Halt
  | refused (text : String)
  | resource (text : String)
  | crashed
deriving DecidableEq, Repr

def Halt.isCheckpointError : Halt → Bool
  | refused _ | resource _ => true
  | crashed => false

/-! ## The file system -/

def Node.kind : Node → Kind
  | .dir => .dir
  | .link target => .link target
  | .file _ => .file

/-- The tree before a call that changed it, and after. -/
structure Change where
  before : Work
  after : Work

structure Disk where
  fs : Work
  changes : List Change := []
  /-- `expanded[0]`. -/
  expanded : Nat := 0

def Disk.changed (disk : Disk) (fs : Work) : Disk := { disk with fs, changes := disk.changes ++ [⟨disk.fs, fs⟩] }

abbrev Restoring := EStateM Halt Disk

def change (fs : Work) : Restoring PUnit := modify fun disk => disk.changed fs

section Calls

variable (fs : Work)

/-- What stands at a place. -/
def nodeAt (path : List String) : Option Node := if path = [] then some .dir else fs path

/-- `os.mkdir`, `os.symlink` and the new name of `os.link`. -/
def create (path : List String) (node : Node) : Except Errno Work := do
  let place ← locate Node.kind fs false path
  match nodeAt fs place with
  | some _ => .error .exist
  | none => .ok (fs.place place node)

/-- `os.link`. A hard link is a name of its own with the same content: no call of a restore writes to a file that is
there. -/
def link (source path : List String) : Except Errno Work := do
  let place ← locate Node.kind fs false source
  match nodeAt fs place with
  | none => .error .noent
  | some .dir => .error .perm
  | some node => create fs path node

/-- `open(path, "wb")`. -/
def write (path : List String) (content : Content) : Except Errno Work := do
  let place ← locate Node.kind fs true path
  match nodeAt fs place with
  | some .dir => .error .isdir
  | _ => .ok (fs.place place (.file content))

def unlink (path : List String) : Except Errno Work := do
  let place ← locate Node.kind fs false path
  match nodeAt fs place with
  | none => .error .noent
  | some .dir => .error .isdir
  | some _ => .ok (fs.remove place)

/-- `os.path.exists` -/
def pathExists (path : List String) : Bool :=
  match locate Node.kind fs true path with
  | .ok place => (nodeAt fs place).isSome
  | .error _ => false

/-- `os.path.islink` -/
def isLinkAt (path : List String) : Bool :=
  match locate Node.kind fs false path with
  | .ok place => ((nodeAt fs place).bind Node.linkname?).isSome
  | .error _ => false

end Calls

/-! ## The members against each other -/

def refuse (text : String) : Halt := .refused text

/-- The first loop of `_safe_members`. -/
def memberParts : List TarMember → Except Halt (List (List String × TarMember))
  | [] => .ok []
  | member :: rest =>
    match archiveParts member.name with
    | none => .error (refuse s!"checkpoint archive holds a path outside the workspace: {member.name}")
    | some parts => (memberParts rest).map ((parts, member) :: ·)

/-- The second loop of `_safe_members`. -/
def acceptMembers (symlinks : List (List String)) : List (List String) → List (List String) →
    List (List String × TarMember) → Except Halt (List (List String × TarMember))
  | _, _, [] => .ok []
  | seen, files, (parts, member) :: rest =>
    if seen.contains parts then .error (refuse s!"checkpoint archive holds {joined parts} more than once")
    else
      match throughLink symlinks parts with
      | some link =>
        .error (refuse s!"checkpoint archive writes {joined parts} through its own link {joined link}")
      | none =>
        match member.kind with
        | some (.hardLink linkname) =>
          if linkname.toList.getLast? = some '/' || !(archiveParts linkname).any files.contains then
            .error (refuse (s!"checkpoint archive holds a hard link, {joined parts}, that is not to " ++
              "an earlier file of its own"))
          else (acceptMembers symlinks (parts :: seen) files rest).map ((parts, member) :: ·)
        | some (.link linkname) =>
          if linkLeaves parts linkname then acceptMembers symlinks (parts :: seen) files rest
          else (acceptMembers symlinks (parts :: seen) files rest).map ((parts, member) :: ·)
        | some (.file _) =>
          (acceptMembers symlinks (parts :: seen) (parts :: files) rest).map ((parts, member) :: ·)
        | some .dir => (acceptMembers symlinks (parts :: seen) files rest).map ((parts, member) :: ·)
        | none => acceptMembers symlinks (parts :: seen) files rest

/-- `_safe_members`. -/
def safeMembers (members : List TarMember) : Except Halt (List (List String × TarMember)) := do
  let all ← memberParts members
  acceptMembers ((all.filter fun entry => entry.2.issym).map Prod.fst) [] [] all

/-! ## What goes first -/

section Layer

variable (root : List String) (id : String)

/-- `_remove_within`, from a descriptor of `work/` down. `shutil.rmtree` follows no link. -/
def removeWithin (keepDirectory : Bool) (rel : String) : Restoring PUnit := do
  match archiveParts rel with
  | none => throw (refuse s!"checkpoint {id} names a path outside the workspace")
  | some parts =>
    let fs := (← get).fs
    match openParents fs root parts.dropLast with
    | .missing => return
    | .blocked => throw (refuse s!"checkpoint {id} writes {rel} through a link or a file in the restored tree")
    | .opened =>
      match fs (root ++ parts) with
      | none => return
      | some .dir => if keepDirectory then return else change (fs.removeBelow (root ++ parts))
      | some _ => change (fs.remove (root ++ parts))

/-! ## Extraction -/

/-- What `tarfile` does at the name of a member, in order, until something stands there that it made. -/
inductive OwnCall
  | mkdir
  | write (content : Content)
  | unlink
  | symlink (target : String)
  | link (source : List String)
deriving DecidableEq, Repr

def OwnCall.run (fs : Work) (path : List String) : OwnCall → Except Errno Work
  | mkdir => create fs path .dir
  | write content => Hostile.write fs path content
  | unlink => Hostile.unlink fs path
  | symlink target => create fs path (.link target)
  | link source => Hostile.link fs source path

/-- The exceptions of an extraction. -/
inductive Failure
  | filterError (type : String)
  | osError (type : String) (localResource : Bool)
  | other
deriving DecidableEq, Repr

def Failure.halt : Failure → Halt
  | filterError type => refuse s!"checkpoint {id} holds a member the restore refuses: {type}"
  | osError type localResource =>
    let text := s!"checkpoint {id} could not be extracted: {type}"
    if localResource then .resource text else .refused text
  | other => .crashed

/-- What is taken from `tarfile`: whether the filter lets a member through, what is then done at the member's own
name, and how that ends. Symbolic links are made of symbolic links only, and hard links of hard links, to the place that
they name, however it is spelled. -/
structure Tarfile where
  filter : Work → List String → TarMember → Except Failure Bool
  calls : Work → List String → TarMember → List OwnCall
  ends : Work → List String → TarMember → Option Failure
  symlinks : ∀ fs parts member target, .symlink target ∈ calls fs parts member → member.issym = true
  sources : ∀ fs parts member source, .link source ∈ calls fs parts member →
    ∃ linkname, member.kind = some (.hardLink linkname) ∧
      ∀ named, archiveParts linkname = some named → names source = root ++ named ∧ ".." ∉ source

/-- The class that Python has for an error number. -/
def errorType : Errno → String
  | .noent => "FileNotFoundError"
  | .notdir => "NotADirectoryError"
  | .exist => "FileExistsError"
  | .isdir => "IsADirectoryError"
  | .loop => "OSError"
  | .perm => "PermissionError"

/-- `os.makedirs`, one directory of it. -/
def makeDirectory (path : List String) : Restoring PUnit := do
  let fs := (← get).fs
  if pathExists fs path then return
  else
    match create fs path .dir with
    | .ok made => change made
    | .error errno => throw (Failure.halt id (.osError (errorType errno) false))

/-- The calls at the name of a member. A call that fails leaves the next one to be tried. -/
def ownCalls (path : List String) : List OwnCall → Restoring PUnit
  | [] => pure ⟨⟩
  | call :: rest => do
    match call.run (← get).fs path with
    | .ok made =>
      change made
      if call = .unlink then ownCalls path rest
    | .error _ => ownCalls path rest

/-- One member of `extractall`. -/
def extractOne (tarfile : Tarfile root) (entry : List String × TarMember) : Restoring PUnit := do
  let before := (← get).fs
  match tarfile.filter before entry.1 entry.2 with
  | .error failure => throw (failure.halt id)
  | .ok false => return
  | .ok true =>
    ((List.range' 1 (entry.1.length - 1)).map entry.1.take).forM fun parts => makeDirectory id (root ++ parts)
    ownCalls (root ++ entry.1) (tarfile.calls before entry.1 entry.2)
    match tarfile.ends before entry.1 entry.2 with
    | some failure => throw (failure.halt id)
    | none => return

/-- `os.path.realpath` -/
def realpath (nesting : Nat) (fs : Work) (path : List String) : List String :=
  normpath (joinRealPath (fun link => (fs link).bind Node.linkname?) nesting [] [] path).1

/-- `_unmake_escaped_links`, for one member. -/
def unmakeEscapedLink (nesting : Nat) (entry : List String × TarMember) : Restoring PUnit := do
  if entry.2.issym then
    let fs := (← get).fs
    let path := root ++ segments entry.2.name
    if isLinkAt fs path && !root.isPrefixOf (realpath nesting fs path) then
      match unlink fs path with
      | .ok removed => change removed
      | .error _ => throw .crashed

/-! ## Layers -/

variable (maxBytes nesting : Nat) (tarfile : Tarfile root)

def liftExcept {α : Type} : Except Halt α → Restoring α
  | .ok a => pure a
  | .error halt => throw halt

/-- `_apply_layer`. -/
def applyLayer (layer : ArchiveLayer) (incremental : Bool) : Restoring PUnit := do
  match layer.members with
  | none => throw .crashed
  | some members =>
    let accepted ← liftExcept (safeMembers members)
    modify fun disk => { disk with expanded := disk.expanded + (accepted.map fun entry => entry.2.size).sum }
    let cap := maxBytes * restoreExpansionRatio
    if cap < (← get).expanded then
      throw (refuse s!"checkpoint {layer.checkpointId} expands past {cap} bytes; refusing to restore it")
    if incremental then
      layer.deleted.forM (removeWithin root layer.checkpointId false)
      accepted.forM fun entry => removeWithin root layer.checkpointId entry.2.isdir entry.2.name
    accepted.forM (extractOne root layer.checkpointId tarfile)
    accepted.forM (unmakeEscapedLink root nesting)

/-- The loop of `restore` over the layers, oldest first. -/
def applyLayers : Bool → List ArchiveLayer → Restoring PUnit
  | _, [] => pure ⟨⟩
  | incremental, layer :: rest => do
    applyLayer root maxBytes nesting tarfile layer incremental
    applyLayers true rest

/-- `_empty_directory`, which follows no link. -/
def emptyDirectory : Restoring PUnit := do
  let fs := (← get).fs
  change fun path => if root <+: path ∧ path ≠ root then none else fs path

/-- `restore`, of a chain that was downloaded or refused. -/
def restore (chain : Except Halt (List ArchiveLayer)) : Restoring PUnit :=
  tryCatch
    (do
      let layers ← liftExcept chain
      applyLayers root maxBytes nesting tarfile false layers)
    fun halt => do
      if halt.isCheckpointError then emptyDirectory root
      throw halt

end Layer

end SwarmCloud.Checkpoints.Hostile
