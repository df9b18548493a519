import SwarmCloud.Checkpoints.Manager
import SwarmCloud.Lib.PathMaps
import Mathlib.Data.List.Lex

/-! # Working trees

A tree under `work/` is a finite map from paths to entries. `CheckpointManager._walk`
goes through it in order and takes the signature of each entry. What a checkpoint
excludes by its path is no part of these trees.
-/

namespace SwarmCloud.Checkpoints

open Lib

/-! ## Working trees -/

abbrev Content := List UInt8

structure Inode where
  ino : Int
  dev : Int
deriving DecidableEq, Repr

/-- What `os.fstat` tells of a regular file, its size aside, and whether the worker may open it. -/
structure FileStat where
  mode : Int
  mtimeNs : Int
  ctimeNs : Int
  inode : Inode
  nlink : Nat
  readable : Bool
deriving DecidableEq, Repr

inductive Entry
  | dir (mode : Nat)
  | link (linkname : String)
  | file (stat : FileStat) (content : Content)
deriving DecidableEq, Repr

/-- An entry as a restore makes it. -/
inductive Node
  | dir
  | link (linkname : String)
  | file (content : Content)
deriving DecidableEq, Repr

/-- `os.path.normpath` of a path that does not start at the root of the disk. -/
def normLinkname (linkname : String) : String :=
  let parts := (segments linkname).foldl
    (fun done part =>
      if part = "" || part = "." then done
      else if part = ".." && done ≠ [] && done.getLast? ≠ some ".." then done.dropLast
      else done ++ [part])
    []
  if parts = [] then "." else joined parts

/-- A restore writes the target of a link as `normpath` has it: `tarfile.data_filter` does. -/
def Entry.node : Entry → Node
  | dir _ => .dir
  | link linkname => .link (normLinkname linkname)
  | file _ content => .file content

/-- `_signature`. -/
def Entry.signature : Entry → Signature
  | dir mode => .dir mode
  | link linkname => .link linkname
  | file stat content => .file stat.mode content.length stat.mtimeNs stat.ctimeNs stat.inode.ino false

def TreePath.parts (path : TreePath) : List String := segments path.text

theorem TreePath.parts_inj {path path' : TreePath} (h : path.parts = path'.parts) : path = path' := by
  obtain ⟨text, proper⟩ := path
  obtain ⟨text', proper'⟩ := path'
  have htext : text = text' := segments_inj h
  subst htext
  rfl

theorem TreePath.parts_ne_nil (path : TreePath) : path.parts ≠ [] := segments_ne_nil _

theorem TreePath.normLinkname_eq (path : TreePath) : normLinkname path.text = path.text := by
  have hfold : ∀ (parts done : List String), (∀ part ∈ parts, part ≠ "" ∧ part ≠ "." ∧ part ≠ "..") →
      parts.foldl
        (fun done part =>
          if part = "" || part = "." then done
          else if part = ".." && done ≠ [] && done.getLast? ≠ some ".." then done.dropLast
          else done ++ [part])
        done = done ++ parts := by
    intro parts
    induction parts with
    | nil => exact fun done _ => (List.append_nil done).symm
    | cons part parts ih =>
      intro done hproper
      obtain ⟨hempty, hdot, hup⟩ := hproper part List.mem_cons_self
      rw [List.foldl_cons, if_neg (by simp [hempty, hdot]), if_neg (by simp [hup]),
        ih _ fun p hp => hproper p (List.mem_cons_of_mem _ hp), List.append_assoc]
      rfl
  unfold normLinkname
  rw [hfold _ [] path.proper]
  exact (if_neg path.parts_ne_nil).trans (joined_segments path.text)

theorem TreePath.archiveParts_eq (path : TreePath) : archiveParts path.text = some path.parts := by
  obtain ⟨parts, hparts⟩ := Option.isSome_iff_exists.mp path.archiveParts_isSome
  have hall : (segments path.text).filter (fun part => part ≠ "" && part ≠ ".") = segments path.text := by
    rw [List.filter_eq_self]
    intro part hpart
    obtain ⟨hempty, hdot, -⟩ := path.proper part hpart
    simp [hempty, hdot]
  unfold archiveParts at hparts ⊢
  split at hparts
  · cases hparts
  · rename_i hslash
    dsimp only at hparts
    rw [hall] at hparts
    rw [if_neg hslash]
    dsimp only
    rw [hall]
    split at hparts
    · cases hparts
    · rename_i hgood
      rw [if_neg hgood]
      rfl

def Entry.inode? : Entry → Option Inode
  | file stat _ => some stat.inode
  | _ => none

/-- A tree under `work/`: directories above every entry, and one content for all names of a file. -/
structure WorkTree where
  entries : Dict TreePath Entry
  nodup : (entries.map Prod.fst).Nodup
  parents : ∀ entry ∈ entries, ∀ depth ∈ List.range' 1 (entry.1.parts.length - 1),
    ∃ parent ∈ entries, parent.1.parts = entry.1.parts.take depth ∧ parent.2.node = .dir
  names : ∀ entry ∈ entries, ∀ entry' ∈ entries, ∀ inode ∈ entry.2.inode?, entry'.2.inode? = some inode →
    entry.2.node = entry'.2.node

/-- What stands under a directory, by the names that lead to it. -/
abbrev Work := PathMap String Node

namespace WorkTree

variable (tree : WorkTree)

def entryAt (parts : List String) : Option (TreePath × Entry) := tree.entries.find? fun entry => entry.1.parts = parts

def nodes : Work := fun parts => (tree.entryAt parts).map fun entry => entry.2.node

/-- The order in which `_walk` comes to the entries: the names of a directory sorted, what is below each name after
it. -/
def walk : List (TreePath × Entry) := sortBy (fun entry => entry.1.parts) tree.entries

def index : Index := tree.walk.map fun entry => (entry.1, entry.2.signature)

variable {tree}

theorem entryAt_of_mem {path : TreePath} {entry : Entry} (h : (path, entry) ∈ tree.entries) :
    tree.entryAt path.parts = some (path, entry) := by
  cases hfind : tree.entryAt path.parts with
  | none =>
    have hnone := List.find?_eq_none.mp hfind _ h
    simp at hnone
  | some found =>
    obtain ⟨path', entry'⟩ := found
    have hsame : path' = path := TreePath.parts_inj (by simpa using List.find?_some hfind)
    subst hsame
    have hentry : tree.entries.lookup path' = some entry := Dict.lookup_of_mem tree.nodup h
    rw [Dict.lookup_of_mem tree.nodup (List.mem_of_find?_eq_some hfind), Option.some.injEq] at hentry
    rw [hentry]

theorem mem_of_entryAt {parts : List String} {path : TreePath} {entry : Entry}
    (h : tree.entryAt parts = some (path, entry)) : (path, entry) ∈ tree.entries ∧ path.parts = parts :=
  ⟨List.mem_of_find?_eq_some h, by simpa using List.find?_some h⟩

theorem nodes_eq_some_iff {parts : List String} {node : Node} :
    tree.nodes parts = some node ↔ ∃ path entry, (path, entry) ∈ tree.entries ∧ path.parts = parts ∧ entry.node = node := by
  constructor
  · intro h
    obtain ⟨⟨path, entry⟩, hfind, hnode⟩ := Option.map_eq_some_iff.mp h
    obtain ⟨hmem, hparts⟩ := mem_of_entryAt hfind
    exact ⟨path, entry, hmem, hparts, hnode⟩
  · rintro ⟨path, entry, hmem, rfl, rfl⟩
    rw [nodes, entryAt_of_mem hmem]
    rfl

theorem nodes_of_mem {path : TreePath} {entry : Entry} (h : (path, entry) ∈ tree.entries) :
    tree.nodes path.parts = some entry.node :=
  nodes_eq_some_iff.mpr ⟨path, entry, h, rfl, rfl⟩

theorem closed : PathMap.Closed Node.dir tree.nodes := by
  intro parts node hnode above habove
  obtain ⟨path, entry, hmem, rfl, -⟩ := nodes_eq_some_iff.mp hnode
  obtain ⟨hne, hbelow, hproper⟩ := habove
  have hpos : 0 < above.length := List.length_pos_iff.mpr hne
  have hlt : above.length < path.parts.length :=
    Nat.lt_of_not_le fun hle => hproper (hbelow.eq_of_length_le hle)
  obtain ⟨parent, hparent, hparts, hdir⟩ := tree.parents (path, entry) hmem above.length
    (List.mem_range'_1.mpr ⟨hpos, by dsimp only; omega⟩)
  rw [List.prefix_iff_eq_take.mp hbelow, ← hparts, ← hdir]
  exact nodes_of_mem hparent

theorem mem_walk {entry : TreePath × Entry} : entry ∈ tree.walk ↔ entry ∈ tree.entries := mem_sortBy

theorem nodup_walk : (tree.walk.map Prod.fst).Nodup :=
  ((sortBy_perm _ _).map Prod.fst).nodup_iff.mpr tree.nodup

theorem lookup_walk {path : TreePath} {entry : Entry} :
    tree.walk.lookup path = some entry ↔ (path, entry) ∈ tree.entries := by
  constructor
  · exact fun h => mem_walk.mp (Dict.mem_of_lookup h)
  · exact fun h => Dict.lookup_of_mem nodup_walk (mem_walk.mpr h)

theorem lookup_index (path : TreePath) : tree.index.lookup path = (tree.walk.lookup path).map Entry.signature :=
  Dict.lookup_map_items tree.walk (fun _ entry => entry.signature) path

theorem keys_index : tree.index.map Prod.fst = tree.walk.map Prod.fst := by
  rw [index, List.map_map]
  rfl

end WorkTree

end SwarmCloud.Checkpoints
