import SwarmCloud.Checkpoints.Chain
import SwarmCloud.Lib.Dict
import SwarmCloud.Lib.Sorting
import Mathlib.Data.String.Basic

/-! # Writing a chain of checkpoint archives

`CheckpointManager`: a checkpoint holds what changed since the last committed
one, unless the chain is long or heavy and is rebased on a full archive. What the
walks of the tree find, how far the archive compresses and whether the bucket
answers are the inputs of a call.
-/

namespace SwarmCloud.Checkpoints

open Lib

def checkpointChainMax : Nat := 24

def checkpointLargeTreeEntries : Nat := 50000

def restoredSeqMax : Int := 10 ^ 9

/-! ## The index of a tree -/

/-- A path that a walk of the tree gives: names of directory entries with slashes between them. -/
structure TreePath where
  text : String
  proper : ∀ part ∈ segments text, part ≠ "" ∧ part ≠ "." ∧ part ≠ ".."
deriving DecidableEq

theorem TreePath.archiveParts_isSome (path : TreePath) : (archiveParts path.text).isSome = true := by
  have hhead : ¬ path.text.toList.head? = some '/' := by
    intro hslash
    cases htext : path.text.toList with
    | nil => rw [htext] at hslash; cases hslash
    | cons c cs =>
      rw [htext, List.head?_cons, Option.some.injEq] at hslash
      subst hslash
      have hempty : "" ∈ segments path.text := by
        rw [segments, htext, List.splitOn_cons_eq_if_modifyHead]
        simp
      exact (path.proper _ hempty).1 rfl
  have hall : (segments path.text).filter (fun part => part ≠ "" && part ≠ ".") = segments path.text := by
    rw [List.filter_eq_self]
    intro part hpart
    obtain ⟨hempty, hdot, -⟩ := path.proper part hpart
    simp [hempty, hdot]
  have hgood : ¬ (segments path.text = [] ∨ ".." ∈ segments path.text) := by
    rintro (hnil | hup)
    · exact segments_ne_nil _ hnil
    · exact (path.proper _ hup).2.2 rfl
  unfold archiveParts
  rw [if_neg hhead]
  dsimp only
  rw [hall, if_neg hgood]
  rfl

/-- `_signature`, with the mark of a file that was written too close to the walk. -/
inductive Signature
  | dir (mode : Nat)
  | link (linkname : String)
  | file (mode size mtimeNs ctimeNs ino : Int) (racy : Bool)
deriving DecidableEq, Repr

def Signature.sameKind : Signature → Signature → Bool
  | dir _, dir _ => true
  | link _, link _ => true
  | file .., file .. => true
  | _, _ => false

abbrev Index := Dict TreePath Signature

def markRacy (racyAfter : Int) (index : Index) : Index :=
  index.map fun entry =>
    match entry.2 with
    | .file mode size mtime ctime ino racy =>
      (entry.1, .file mode size mtime ctime ino (racy || racyAfter ≤ max mtime ctime))
    | _ => entry

/-- What one index holds that the other does not, or holds as another kind. -/
def gonePaths (previous index : Index) : List TreePath :=
  (previous.filter fun entry => !(index.lookup entry.1).any entry.2.sameKind).map Prod.fst

/-- `_deleted_since`: outermost paths only. -/
def deletedSince (previous index : Index) : List TreePath :=
  (sortBy TreePath.text (gonePaths previous index)).foldl
    (fun out rel =>
      if (List.range' 1 ((segments rel.text).length - 1)).any fun depth =>
          joined ((segments rel.text).take depth) ∈ out.map TreePath.text then out
      else out ++ [rel])
    []

/-- Equality of dictionaries. -/
def sameIndex (a b : Index) : Bool := a.length = b.length && a.all fun entry => b.lookup entry.1 = some entry.2

/-! ## The manager -/

/-- What a restore and a reader need of a manifest. A `seq` that is not a whole number reads as none. -/
structure CheckpointRecord where
  checkpointId : String
  seq : Option Int
  attemptId : String
  archiveBytes : Nat
  archiveSha256 : String
  base : Option (String × String)
deriving DecidableEq, Repr

/-- The manager with the archives under its attempt's prefix and the manifests it committed, newest first. -/
structure CheckpointManager where
  attemptId : String
  maxBytes : Nat
  seq : Nat := 0
  index : Option Index := none
  base : Option (String × String) := none
  chainLength : Nat := 0
  chainBytes : Nat := 0
  fullBytes : Nat := 0
  chainContent : Nat := 0
  archives : String → Option Archive
  manifests : List CheckpointRecord := []

/-- Where a call stops, other than at the caps. An upload that raised may have stored its object. -/
inductive Failure
  | beforeUpload (exc : String)
  | walk (exc : String)
  | uploadArchive (exc : String) (stored : Bool)
  | uploadManifest (exc : String)
deriving DecidableEq, Repr

/-- A call of `create` or `create_if_changed`. `scanned` is the index of the first walk, `archived` the one of the walk
that writes the archive, `counted` the file content that this walk added up, and `size` and `content` those of the
archive it made. -/
structure Call where
  onlyIfChanged : Bool
  scanned : Index
  archived : Index
  racyAfter : Int
  counted : Nat
  size : Nat
  content : Nat
  failure : Option Failure := none

inductive Created
  | wrote (record : CheckpointRecord)
  | unchanged
  | raised (exc : String)
deriving DecidableEq, Repr

/-! ## Its calls -/

/-- What `json.dumps` writes for one character: an escape for what is not printable ASCII. -/
def escapedLength (c : Char) : Nat :=
  if c ∈ ['"', '\\', '\n', '\r', '\t', Char.ofNat 12, Char.ofNat 8] then 2
  else if 32 ≤ c.toNat && c.toNat ≤ 126 then 1
  else if c.toNat < 0x10000 then 6
  else 12

/-- A string of a JSON text, with its quotes. -/
def quotedLength (text : String) : Nat := (text.toList.map escapedLength).sum + 2

/-- The bytes of the comment that names a base and deleted paths: `CHAIN_COMMENT_PREFIX`, then JSON. -/
def chainCommentLength (baseId baseSha256 : String) (deleted : List String) : Nat :=
  "swarm-checkpoint \x7b\"base\": \x7b\"archive_sha256\": ".length + quotedLength baseSha256 +
    ", \"checkpoint_id\": ".length + quotedLength baseId + "\x7d, \"deleted\": [".length +
      ((deleted.map quotedLength).sum + 2 * (deleted.length - 1)) + "]\x7d".length

section Create

variable (sha256 : Archive → Digest) (m : CheckpointManager) (call : Call)

/-- A large tree's periodic checkpoint keeps its chain. -/
def keepChain : Bool :=
  call.onlyIfChanged && (m.index.any fun previous => checkpointLargeTreeEntries ≤ previous.length) &&
    m.chainContent < m.maxBytes * checkpointExpansionRatio

def rebases : Bool :=
  m.index.isSome && (checkpointChainMax ≤ m.chainLength || (m.fullBytes ≤ m.chainBytes && !keepChain m call))

/-- The index and the base that the call goes by. -/
def previousIndex : Option Index := if rebases m call then none else m.index

def previousBase : Option (String × String) := if rebases m call then none else m.base

def deletedPaths : List TreePath := (previousIndex m call).elim [] fun previous => deletedSince previous call.scanned

def isUnchanged : Bool :=
  (previousIndex m call).any fun previous => (deletedPaths m call).isEmpty && sameIndex call.scanned previous

def archiveOf : Archive where
  comment :=
    match previousBase m call with
    | none => .absent
    | some base =>
      let deleted := (deletedPaths m call).map TreePath.text
      .chain base.1 base.2 deleted (chainCommentLength base.1 base.2 deleted)
  size := call.size
  content := call.content

def newRecord : CheckpointRecord where
  checkpointId := checkpointId (m.seq + 1)
  seq := some (m.seq + 1 : Nat)
  attemptId := m.attemptId
  archiveBytes := call.size
  archiveSha256 := (sha256 (archiveOf m call)).text
  base := previousBase m call

/-- The walk and the size check: what stops the archive before it is uploaded. -/
def writeRefused : Option String :=
  match call.failure with
  | some (.walk exc) => some exc
  | _ =>
    if m.maxBytes * checkpointExpansionRatio < call.counted then
      some (s!"the checkpoint's files passed {m.maxBytes * checkpointExpansionRatio} bytes before " ++
        "compression; refusing it")
    else if m.maxBytes < call.size then
      some (s!"checkpoint {checkpointId (m.seq + 1)} is {call.size} bytes, over the {m.maxBytes} byte cap; " ++
        "refusing to upload")
    else none

/-- The index after the walks, with its marks. -/
def nextIndex : Index :=
  markRacy call.racyAfter
    (call.archived.foldl (fun index entry => Dict.set entry.1 entry.2 index)
      (if (previousIndex m call).isSome then call.scanned else []))

/-- The archive is in the bucket. -/
def withArchive : CheckpointManager :=
  { m with
    seq := m.seq + 1
    archives := fun id => if id = checkpointId (m.seq + 1) then some (archiveOf m call) else m.archives id }

/-- The manifest is up, and the chain moves. -/
def committed : CheckpointManager :=
  { withArchive m call with
    manifests := newRecord sha256 m call :: m.manifests
    index := some (nextIndex m call)
    base := some (checkpointId (m.seq + 1), (sha256 (archiveOf m call)).text)
    chainLength := if (previousBase m call).isNone then 0 else m.chainLength + 1
    chainBytes := if (previousBase m call).isNone then 0 else m.chainBytes + call.size
    fullBytes := if (previousBase m call).isNone then call.size else m.fullBytes
    chainContent := if (previousBase m call).isNone then call.counted else m.chainContent + call.counted }

/-- `_create`. -/
def create : CheckpointManager × Created :=
  if call.onlyIfChanged && isUnchanged m call then (m, .unchanged)
  else
    match call.onlyIfChanged, call.failure with
    | true, some (.beforeUpload exc) => (m, .raised exc)
    | _, failure =>
      match writeRefused m call with
      | some exc => ({ m with seq := m.seq + 1 }, .raised exc)
      | none =>
        match failure with
        | some (.uploadArchive exc false) => ({ m with seq := m.seq + 1 }, .raised exc)
        | some (.uploadArchive exc true) => (withArchive m call, .raised exc)
        | some (.uploadManifest exc) => (withArchive m call, .raised exc)
        | _ => (committed sha256 m call, .wrote (newRecord sha256 m call))

end Create

/-- The manager after a sequence of calls. -/
def run (sha256 : Archive → Digest) (m : CheckpointManager) (calls : List Call) : CheckpointManager :=
  calls.foldl (fun m call => (create sha256 m call).1) m

/-! ## Restoring -/

/-- `_continues_ids` with the id of a layer, or without one. -/
def continuesIds (record : CheckpointRecord) (id : Option String) : Bool :=
  match record.seq with
  | none => false
  | some seq =>
    0 ≤ seq && seq ≤ restoredSeqMax && id.all fun id => (idNumber id).any fun number : Nat => (number : Int) ≤ seq

/-- How the copy of a layer went. One that failed may have stored its object. -/
inductive Copied
  | done
  | failed (stored : Bool)
deriving DecidableEq, Repr

/-- The copies under the attempt's own prefix, oldest first, up to one that fails. -/
def copyLayers (outcome : String → Copied) :
    List Layer → (String → Option Archive) → (String → Option Archive)
  | [], archives => archives
  | layer :: rest, archives =>
    let stored := fun id => if id = layer.checkpointId then some layer.archive else archives id
    match outcome layer.checkpointId with
    | .done => copyLayers outcome rest stored
    | .failed true => stored
    | .failed false => archives

/-- `restore`: `headObject` is the object at the key of the record, `beside` the objects in its attempt's directory,
and `scanned` the index of the restored tree. -/
def restore (sha256 : Archive → Digest) (m : CheckpointManager) (record : CheckpointRecord)
    (headObject : Option Archive) (beside : String → Option Archive) (outcome : String → Copied) (scanned : Index)
    (racyAfter : Int) : Except String CheckpointManager :=
  match downloadChain sha256 beside headObject record.checkpointId record.archiveSha256 with
  | .error refused => .error refused
  | .ok layers =>
    match applyLayers m.maxBytes 0 layers.reverse with
    | .error refused => .error refused
    | .ok expanded =>
      let copy := continuesIds record none && record.attemptId ≠ m.attemptId &&
        layers.all fun layer => continuesIds record (some layer.checkpointId)
      let kept := { m with
        archives := if copy then copyLayers outcome layers.reverse m.archives else m.archives
        seq := if continuesIds record none then max m.seq ((record.seq.getD 0).toNat) else m.seq }
      if copy && layers.all fun layer => outcome layer.checkpointId = .done then
        .ok { kept with
          index := some (markRacy racyAfter scanned)
          base := some (record.checkpointId, record.archiveSha256)
          fullBytes := (layers.reverse.head?.map fun layer => layer.archive.size).getD 0
          chainLength := layers.length - 1
          chainBytes := (layers.reverse.tail.map fun layer => layer.archive.size).sum
          chainContent := expanded }
      else .ok kept

end SwarmCloud.Checkpoints
