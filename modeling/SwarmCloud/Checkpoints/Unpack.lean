import SwarmCloud.Checkpoints.Archives

/-! # Unpacking a layer of a chain

`CheckpointManager._apply_layer`: the members of an archive are checked against
each other, what the archive names deleted and what stands in a member's place
goes, and the rest is `tarfile`'s, member by member, through its data filter. A
link is looked at three times: by its text, over what stands when it is made, and
over what stands in the end.
-/

namespace SwarmCloud.Checkpoints

open Lib

/-- Where a layer stops: an error, one that is no `CheckpointError`, or a member that would be written through
something in its way, which is not followed here. -/
inductive Stop
  | refused (text : String)
  | raised (error : String)
  | writesThrough
deriving DecidableEq, Repr

/-! ## Links -/

def isAbsolute (path : String) : Bool := path.toList.head? = some '/'

/-- The loop of `_link_leaves` over the parts of the target. -/
def leavesFrom : List String → List String → Bool
  | _, [] => false
  | stack, part :: rest =>
    if part = "" || part = "." then leavesFrom stack rest
    else if part = ".." then stack.isEmpty || leavesFrom stack.dropLast rest
    else leavesFrom (stack ++ [part]) rest

def linkLeaves (parts : List String) (linkname : String) : Bool :=
  linkname = "" || isAbsolute linkname || leavesFrom parts.dropLast (segments linkname)

section RealPath

variable (readlink : List String → Option String)

/-- One level of `posixpath._joinrealpath`: `expand` follows a link that is met, given its own path, the directory it
is in and its target. -/
def resolveParts (expand : List String → List String → String → List String × Bool) :
    List String → List String → List String × Bool
  | path, [] => (path, true)
  | path, name :: rest =>
    if name = "" || name = "." then resolveParts expand path rest
    else if name = ".." then resolveParts expand path.dropLast rest
    else
      match readlink (path ++ [name]) with
      | none => resolveParts expand (path ++ [name]) rest
      | some linkname =>
        match expand (path ++ [name]) path linkname with
        | (target, true) => resolveParts expand target rest
        | (target, false) => (target ++ rest, false)

/-- `posixpath._joinrealpath`, not strict: the path as far as it is resolved, with what is left of it in a loop of
links. The number bounds how far links lie within links. -/
def joinRealPath : Nat → List (List String) → List String → List String → List String × Bool
  | 0, _ => resolveParts readlink fun link _ _ => (link, false)
  | n + 1, seen => resolveParts readlink fun link path linkname =>
    if link ∈ seen then (link, false)
    else joinRealPath n (link :: seen) (if isAbsolute linkname then [] else path) (segments linkname)

end RealPath

section StrictRealPath

variable (lstat : List String → Except String (Option String))

/-- One level of it where only a missing file is no error. -/
def resolveStrict (expand : List String → List String → String → Except String (List String)) :
    List String → List String → Except String (List String)
  | path, [] => .ok path
  | path, name :: rest =>
    if name = "" || name = "." then resolveStrict expand path rest
    else if name = ".." then resolveStrict expand path.dropLast rest
    else
      match lstat (path ++ [name]) with
      | .error error => .error error
      | .ok none => resolveStrict expand (path ++ [name]) rest
      | .ok (some linkname) =>
        match expand (path ++ [name]) path linkname with
        | .error error => .error error
        | .ok target => resolveStrict expand target rest

/-- `posixpath._joinrealpath`, strict but for missing files: a loop of links raises. -/
def joinRealPathStrict : Nat → List (List String) → List String → List String → Except String (List String)
  | 0, _ => resolveStrict lstat fun _ _ _ => .error "RecursionError"
  | n + 1, seen => resolveStrict lstat fun link path linkname =>
    if link ∈ seen then .error "OSError"
    else joinRealPathStrict n (link :: seen) (if isAbsolute linkname then [] else path) (segments linkname)

end StrictRealPath

/-- `os.path.normpath` of an absolute path. -/
def normpath (path : List String) : List String :=
  path.foldl
    (fun done part =>
      if part = "" || part = "." then done else if part = ".." then done.dropLast else done ++ [part])
    []

/-- Where `work/` is, by its real path, the links elsewhere, and what `lstat` raises at a path whatever `work/` holds,
for a name that is too long say. -/
structure Host where
  root : List String
  proper : ∀ part ∈ root, part ≠ "" ∧ part ≠ "." ∧ part ≠ ".."
  links : List String → Option String
  lstatError : List String → Option String
  nesting : Nat

def Node.linkname? : Node → Option String
  | link linkname => some linkname
  | _ => none

def Node.isFile : Node → Bool
  | file _ => true
  | _ => false

namespace Host

variable (host : Host) (work : Work)

def readlink (path : List String) : Option String :=
  if host.root <+: path ∧ path ≠ host.root then (work (path.drop host.root.length)).bind Node.linkname?
  else host.links path

def realpath (rest : List String) : List String :=
  normpath (joinRealPath (host.readlink work) host.nesting [] host.root rest).1

def escapes (rest : List String) : Bool := !host.root.isPrefixOf (host.realpath work rest)

def isFile (path : List String) : Bool :=
  decide (host.root <+: path ∧ path ≠ host.root) && (work (path.drop host.root.length)).any Node.isFile

/-- `os.lstat`: the target of the link that stands at the path. -/
def lstat (path : List String) : Except String (Option String) :=
  match host.lstatError path with
  | some error => .error error
  | none => if host.isFile work path.dropLast then .error "NotADirectoryError" else .ok (host.readlink work path)

/-- `os.path.realpath` with `strict=ALLOW_MISSING`. -/
def realpathStrict (rest : List String) : Except String (List String) :=
  joinRealPathStrict (host.lstat work) host.nesting [] host.root rest

end Host

/-! ## The members of an archive against each other -/

def outsideWorkspace (name : String) : Stop :=
  .refused s!"checkpoint archive holds a path outside the workspace: {name}"

def memberParts : List Member → Except Stop (List (List String × Member))
  | [] => .ok []
  | member :: rest =>
    match archiveParts member.name with
    | none => .error (outsideWorkspace member.name)
    | some parts => (memberParts rest).map ((parts, member) :: ·)

def isLink (member : Member) : Bool :=
  match member.kind with
  | .link _ => true
  | _ => false

def throughLink (symlinks : List (List String)) (parts : List String) : Option (List String) :=
  ((List.range' 1 (parts.length - 1)).map parts.take).find? (· ∈ symlinks)

/-- The second loop of `_safe_members`. -/
def acceptMembers (symlinks : List (List String)) :
    List (List String) → List (List String) → List (List String × Member) → Except Stop (List (List String × Member))
  | _, _, [] => .ok []
  | seen, files, (parts, member) :: rest =>
    if parts ∈ seen then .error (.refused s!"checkpoint archive holds {joined parts} more than once")
    else
      match throughLink symlinks parts with
      | some link =>
        .error (.refused s!"checkpoint archive writes {joined parts} through its own link {joined link}")
      | none =>
        match member.kind with
        | .hardLink linkname =>
          if linkname.toList.getLast? = some '/' || !(archiveParts linkname).any (· ∈ files) then
            .error (.refused (s!"checkpoint archive holds a hard link, {joined parts}, that is not to " ++
              "an earlier file of its own"))
          else (acceptMembers symlinks (parts :: seen) files rest).map ((parts, member) :: ·)
        | .link linkname =>
          if linkLeaves parts linkname then acceptMembers symlinks (parts :: seen) files rest
          else (acceptMembers symlinks (parts :: seen) files rest).map ((parts, member) :: ·)
        | .file _ => (acceptMembers symlinks (parts :: seen) (parts :: files) rest).map ((parts, member) :: ·)
        | .dir => (acceptMembers symlinks (parts :: seen) files rest).map ((parts, member) :: ·)

def safeMembers (members : List Member) : Except Stop (List (List String × Member)) := do
  let all ← memberParts members
  acceptMembers ((all.filter fun entry => isLink entry.2).map Prod.fst) [] [] all

/-! ## What goes first -/

/-- How the directories above a path open, from `work/` down and following no link. -/
inductive Opened
  | missing
  | blocked
  | opened
deriving DecidableEq, Repr

def openParents (work : Work) : List String → List String → Opened
  | _, [] => .opened
  | path, part :: rest =>
    match work (path ++ [part]) with
    | none => .missing
    | some .dir => openParents work (path ++ [part]) rest
    | some _ => .blocked

def removeWithin (id : String) (keepDirectory : Bool) (work : Work) (rel : String) : Except Stop Work :=
  match archiveParts rel with
  | none => .error (.refused s!"checkpoint {id} names a path outside the workspace")
  | some parts =>
    match openParents work [] parts.dropLast with
    | .missing => .ok work
    | .blocked =>
      .error (.refused s!"checkpoint {id} writes {rel} through a link or a file in the restored tree")
    | .opened =>
      match work parts with
      | none => .ok work
      | some .dir => .ok (if keepDirectory then work else work.removeBelow parts)
      | some _ => .ok (work.remove parts)

/-! ## Extraction -/

def memberRefused (id error : String) : Stop :=
  .refused s!"checkpoint {id} holds a member the restore refuses: {error}"

def notExtracted (id error : String) : Stop := .refused s!"checkpoint {id} could not be extracted: {error}"

/-- The path is in `work/`. An error of the file system stops the layer. -/
def staysInside (host : Host) (id : String) (work : Work) (rest : List String) : Except Stop Bool :=
  match host.realpathStrict work rest with
  | .ok place => .ok (host.root.isPrefixOf place)
  | .error error => .error (if error = "RecursionError" then .raised error else notExtracted id error)

/-- The links in `tarfile.data_filter`: a target is normalised, and a link that leaves `work/` is skipped. -/
def filterLink (host : Host) (id : String) (work : Work) (parts : List String) :
    MemberKind → Except Stop (Option MemberKind)
  | .link linkname =>
    if isAbsolute linkname then .ok none
    else
      (staysInside host id work (parts.dropLast ++ segments linkname)).map fun stays =>
        if stays then some (.link (normLinkname linkname)) else none
  | .hardLink linkname =>
    if isAbsolute linkname then .error (memberRefused id "AbsoluteLinkError")
    else
      match staysInside host id work (segments linkname) with
      | .error stop => .error stop
      | .ok false => .error (memberRefused id "LinkOutsideDestinationError")
      | .ok true => .ok (some (.hardLink (normLinkname linkname)))
  | kind => .ok (some kind)

/-- `tarfile.data_filter` in `_restore_filter`: the member as it is made, or none if it is skipped. -/
def restoreFilter (host : Host) (id : String) (work : Work) (parts : List String) (kind : MemberKind) :
    Except Stop (Option MemberKind) :=
  match staysInside host id work parts with
  | .error stop => .error stop
  | .ok false => .error (memberRefused id "OutsideDestinationError")
  | .ok true => filterLink host id work parts kind

/-- What `tarfile` makes at the name of the member, its directories there. -/
def makeMember (id : String) (work : Work) (parts : List String) : MemberKind → Except Stop Work
  | .dir =>
    match work parts with
    | none => .ok (work.place parts .dir)
    | some .dir => .ok work
    | some _ => .error (notExtracted id "FileExistsError")
  | .link linkname =>
    match work parts with
    | some .dir => .error (notExtracted id "IsADirectoryError")
    | _ => .ok (work.place parts (.link linkname))
  | .hardLink linkname =>
    match work parts, (archiveParts linkname).bind work with
    | none, some (.file content) => .ok (work.place parts (.file content))
    | none, _ => .error .writesThrough
    | some _, _ => .error (notExtracted id "FileExistsError")
  | .file content =>
    match work parts with
    | none => .ok (work.place parts (.file content))
    | some .dir => .error (notExtracted id "IsADirectoryError")
    | some _ => .error .writesThrough

def extractMember (id : String) (work : Work) (parts : List String) (kind : MemberKind) : Except Stop Work :=
  match openParents work [] parts.dropLast with
  | .blocked => .error .writesThrough
  | _ => makeMember id (work.withParents .dir parts) parts kind

def extractOne (host : Host) (id : String) (work : Work) (entry : List String × Member) : Except Stop Work := do
  match ← restoreFilter host id work entry.1 entry.2.kind with
  | some kind => extractMember id work entry.1 kind
  | none => .ok work

def unmakeEscapedLinks (host : Host) (work : Work) (accepted : List (List String × Member)) : Work :=
  accepted.foldl
    (fun work entry =>
      match entry.2.kind, work entry.1 with
      | .link _, some (.link _) => if host.escapes work entry.1 then work.remove entry.1 else work
      | _, _ => work)
    work

/-! ## Layers -/

/-- The loops of `_apply_layer` over the deleted paths and over the members, on the tree of the layers below. -/
def makeRoom (id : String) (deleted : List String) (accepted : List (List String × Member)) (work : Work) :
    Except Stop Work := do
  let removed ← deleted.foldlM (removeWithin id false) work
  accepted.foldlM (fun work entry => removeWithin id entry.2.isDir work entry.2.name) removed

/-- `_apply_layer`, its bound on the content aside. -/
def applyLayer (host : Host) (id : String) (members : List Member) (deleted : List String) (incremental : Bool)
    (work : Work) : Except Stop Work := do
  let accepted ← safeMembers members
  let cleared ← (if incremental then makeRoom id deleted accepted work else .ok work)
  let extracted ← accepted.foldlM (extractOne host id) cleared
  return unmakeEscapedLinks host extracted accepted

/-- The layers in order, oldest first: the first one as it is, the others onto what stands. -/
def replayFrom (host : Host) (members : String → List Member) : Bool → Work → List Layer → Except Stop Work
  | _, work, [] => .ok work
  | incremental, work, layer :: rest => do
    let work ← applyLayer host layer.checkpointId (members layer.checkpointId) layer.deleted incremental work
    replayFrom host members true work rest

/-- The loop of `restore` over the layers of a chain, into an empty directory. -/
def replay (host : Host) (members : String → List Member) (layers : List Layer) : Except Stop Work :=
  replayFrom host members false PathMap.empty layers

end SwarmCloud.Checkpoints
