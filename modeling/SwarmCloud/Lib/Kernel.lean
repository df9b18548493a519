import SwarmCloud.Lib.PathMaps
import SwarmCloud.Lib.Paths
import Mathlib.Tactic.Common

/-! # How a kernel resolves a path

A file system is a tree whose entries are directories, files and symbolic links. A
path is walked one name at a time; a link on the way is replaced by its target, which
starts where the link stands or at the root. Only so many links are followed. Where
no link stands on a path, the path is where the kernel arrives.
-/

namespace SwarmCloud.Lib.Kernel

universe u

inductive Kind
  | dir
  | file
  | link (target : String)
deriving DecidableEq, Repr

inductive Errno
  | noent
  | notdir
  | exist
  | isdir
  | loop
  | perm
deriving DecidableEq, Repr

def isAbsolute (path : String) : Bool := path.toList.head? = some '/'

/-- A name that stands for the directory it is looked up in. -/
def isDot (name : String) : Bool := name = "" || name = "."

section Walk

variable {ν : Type u} (kind : ν → Kind) (fs : PathMap String ν) (follow : Bool)

/-- The walk from a directory, with what is done at a link. The last entry need not be there, and a link in the last
place is followed if asked for. -/
def walkParts (expand : List String → List String → Except Errno (List String)) :
    List String → List String → Except Errno (List String)
  | dir, [] => .ok dir
  | dir, name :: rest =>
    if isDot name then walkParts expand dir rest
    else if name = ".." then walkParts expand dir.dropLast rest
    else
      match (fs (dir ++ [name])).map kind with
      | none => if rest = [] then .ok (dir ++ [name]) else .error .noent
      | some .dir => walkParts expand (dir ++ [name]) rest
      | some .file => if rest = [] then .ok (dir ++ [name]) else .error .notdir
      | some (.link target) =>
        if rest = [] ∧ follow = false then .ok (dir ++ [name])
        else expand (if isAbsolute target then [] else dir) (segments target ++ rest)

/-- The walk that follows so many links. -/
def walk : Nat → List String → List String → Except Errno (List String)
  | 0 => walkParts kind fs follow fun _ _ => .error .loop
  | n + 1 => walkParts kind fs follow (walk n)

/-- The links that one walk follows at most. -/
def maxSymlinks : Nat := 40

def locate (path : List String) : Except Errno (List String) := walk kind fs follow maxSymlinks [] path

end Walk

/-! ## Paths without links -/

section Linkless

variable {ν : Type u} {kind : ν → Kind} {fs : PathMap String ν} {follow : Bool}
  {expand : List String → List String → Except Errno (List String)} {dir path : List String}

/-- Directories stand at the path and above it. -/
def DirPath (kind : ν → Kind) (fs : PathMap String ν) (path : List String) : Prop :=
  ∀ q, q <+: path → q ≠ [] → (fs q).map kind = some .dir

theorem DirPath.nil : DirPath kind fs [] := by
  intro q hq hne
  exact absurd (List.prefix_nil.mp hq) hne

theorem DirPath.of_prefix {q : List String} (h : DirPath kind fs path) (hq : q <+: path) : DirPath kind fs q :=
  fun r hr hne => h r (hr.trans hq) hne

theorem DirPath.concat {name : String} (h : DirPath kind fs path)
    (hname : (fs (path ++ [name])).map kind = some .dir) : DirPath kind fs (path ++ [name]) := by
  intro q hq hne
  rcases List.prefix_concat_iff.mp hq with rfl | hq
  · exact hname
  · exact h q hq hne

/-- What is left of a path when the names that go nowhere are dropped. -/
def names (parts : List String) : List String := parts.filter fun name => !isDot name

/-- No link stands at the path. -/
def NoLink (kind : ν → Kind) (fs : PathMap String ν) (path : List String) : Prop :=
  ∀ target, (fs path).map kind ≠ some (.link target)

/-- The names lead to the place that they spell, through directories. -/
structure Reached (kind : ν → Kind) (fs : PathMap String ν) (dir parts path : List String) : Prop where
  eq : path = dir ++ names parts
  dirs : DirPath kind fs path.dropLast

/-- A walk that ends in names that go nowhere ends in a directory. -/
theorem walkParts_dots (hexpand : ∀ dir parts path, DirPath kind fs dir → (∃ front last, parts = front ++ [last] ∧
      isDot last = true) → expand dir parts = .ok path → DirPath kind fs path) {parts : List String} {last : String}
    (hlast : isDot last = true) (hdir : DirPath kind fs dir)
    (hwalk : walkParts kind fs follow expand dir (parts ++ [last]) = .ok path) : DirPath kind fs path := by
  induction parts generalizing dir with
  | nil =>
    rw [List.nil_append, walkParts, if_pos hlast, walkParts] at hwalk
    exact Except.ok.inj hwalk ▸ hdir
  | cons name rest ih =>
    have hrest : rest ++ [last] ≠ [] := List.append_ne_nil_of_right_ne_nil _ (List.cons_ne_nil _ _)
    rw [List.cons_append, walkParts] at hwalk
    split at hwalk
    · exact ih hdir hwalk
    split at hwalk
    · exact ih (hdir.of_prefix (List.dropLast_prefix dir)) hwalk
    split at hwalk
    · simp at hwalk
    · rename_i hkind
      exact ih (hdir.concat hkind) hwalk
    · simp at hwalk
    · rename_i target hkind
      rw [if_neg (fun hnil => hrest hnil.1)] at hwalk
      refine hexpand _ _ path ?_ ⟨segments target ++ rest, last, by rw [List.append_assoc], hlast⟩ hwalk
      split
      · exact DirPath.nil
      · exact hdir

theorem walk_dots {n : Nat} {parts : List String} {last : String} (hlast : isDot last = true)
    (hdir : DirPath kind fs dir) (hwalk : walk kind fs follow n dir (parts ++ [last]) = .ok path) :
    DirPath kind fs path := by
  induction n generalizing dir parts last path with
  | zero =>
    rw [walk] at hwalk
    refine walkParts_dots ?_ hlast hdir hwalk
    intro _ _ _ _ _ hloop
    cases hloop
  | succ n ih =>
    rw [walk] at hwalk
    refine walkParts_dots ?_ hlast hdir hwalk
    rintro dir' _ path' hdir' ⟨front, last', rfl, hlast'⟩ hwalk'
    exact ih hlast' hdir' hwalk'

theorem names_cons_dot {name : String} (h : isDot name = true) (rest : List String) :
    names (name :: rest) = names rest := by
  simp [names, h]

theorem names_cons {name : String} (h : ¬isDot name = true) (rest : List String) :
    names (name :: rest) = name :: names rest := by
  simp [names, h]

theorem exists_last_dot {parts : List String} (hne : parts ≠ []) (h : names parts = []) :
    ∃ front last, parts = front ++ [last] ∧ isDot last = true := by
  refine ⟨_, _, (List.dropLast_append_getLast hne).symm, ?_⟩
  have hall := List.filter_eq_nil_iff.mp h _ (List.getLast_mem hne)
  simpa using hall

/-- Where no link stands above the last name of a path, the kernel arrives where the names lead, or follows a link
there to a directory. -/
theorem walkParts_reached (hexpand : ∀ dir parts path, DirPath kind fs dir → (∃ front last, parts = front ++ [last] ∧
      isDot last = true) → expand dir parts = .ok path → DirPath kind fs path) {parts : List String}
    (hup : ".." ∉ parts) (hdir : DirPath kind fs dir)
    (hclear : ∀ q, PathMap.Above q (names parts) → NoLink kind fs (dir ++ q))
    (hlast : follow = true → NoLink kind fs (dir ++ names parts))
    (hwalk : walkParts kind fs follow expand dir parts = .ok path) :
    Reached kind fs dir parts path ∨ (¬NoLink kind fs (dir ++ names parts) ∧ DirPath kind fs path) := by
  induction parts generalizing dir with
  | nil =>
    rw [walkParts] at hwalk
    cases hwalk
    exact .inl ⟨(List.append_nil _).symm, hdir.of_prefix (List.dropLast_prefix _)⟩
  | cons name rest ih =>
    obtain ⟨hname, hup⟩ := not_or.mp (List.mem_cons.not.mp hup)
    rw [walkParts] at hwalk
    split at hwalk
    · rename_i hdot
      rw [names_cons_dot hdot] at hclear hlast ⊢
      rcases ih hup hdir hclear hlast hwalk with hreached | hlinked
      · exact .inl ⟨by rw [names_cons_dot hdot]; exact hreached.eq, hreached.dirs⟩
      · exact .inr hlinked
    rename_i hdot
    rw [if_neg (Ne.symm hname)] at hwalk
    rw [names_cons hdot] at hclear hlast ⊢
    have hhere : rest = [] → path = dir ++ [name] → Reached kind fs dir (name :: rest) path := by
      rintro rfl rfl
      refine ⟨by rw [names_cons hdot]; rfl, ?_⟩
      rw [List.dropLast_concat]
      exact hdir
    split at hwalk
    · split at hwalk
      · rename_i hnil
        cases hwalk
        exact .inl (hhere hnil rfl)
      · cases hwalk
    · rename_i hkind
      have hbelow : ∀ q, (dir ++ [name]) ++ q = dir ++ name :: q := fun q => by simp
      have hclear' : ∀ q, PathMap.Above q (names rest) → NoLink kind fs ((dir ++ [name]) ++ q) := by
        intro q hq
        rw [hbelow]
        refine hclear _ ⟨List.cons_ne_nil _ _, (List.prefix_cons_inj name).mpr hq.2.1, ?_⟩
        intro heq
        exact hq.2.2 (List.cons.inj heq).2
      have hlast' : follow = true → NoLink kind fs ((dir ++ [name]) ++ names rest) := by
        rw [hbelow]
        exact hlast
      rcases ih hup (hdir.concat hkind) hclear' hlast' hwalk with hreached | hlinked
      · refine .inl ⟨?_, hreached.dirs⟩
        rw [hreached.eq, names_cons hdot, hbelow]
      · rw [hbelow] at hlinked
        exact .inr hlinked
    · split at hwalk
      · rename_i hnil
        cases hwalk
        exact .inl (hhere hnil rfl)
      · cases hwalk
    · rename_i target hkind
      split at hwalk
      · rename_i hnil
        cases hwalk
        exact .inl (hhere hnil.1 rfl)
      · rename_i hgoes
        have hend : names rest = [] := by
          by_contra hmore
          refine hclear [name] ⟨List.cons_ne_nil _ _, ?_, ?_⟩ target hkind
          · exact (List.prefix_cons_inj name).mpr List.nil_prefix
          · intro heq
            exact hmore (List.cons.inj heq).2.symm
        rw [hend] at hlast ⊢
        refine .inr ⟨fun hno => hno target hkind, ?_⟩
        have hne : rest ≠ [] := by
          intro hnil
          cases hfollow : follow with
          | true => exact hlast hfollow target hkind
          | false => exact hgoes ⟨hnil, hfollow⟩
        obtain ⟨front, last, hrest, hdotted⟩ := exists_last_dot hne hend
        refine hexpand _ _ path ?_ ⟨segments target ++ front, last, ?_, hdotted⟩ hwalk
        · split
          · exact DirPath.nil
          · exact hdir
        · rw [hrest, List.append_assoc]

theorem locate_reached {parts : List String} (hup : ".." ∉ parts)
    (hclear : ∀ q, PathMap.Above q (names parts) → NoLink kind fs q)
    (hlast : follow = true → NoLink kind fs (names parts)) (h : locate kind fs follow parts = .ok path) :
    (path = names parts ∧ DirPath kind fs path.dropLast) ∨
      (¬NoLink kind fs (names parts) ∧ DirPath kind fs path) := by
  have hstart : DirPath kind fs [] := DirPath.nil
  rw [locate, maxSymlinks, walk] at h
  rcases walkParts_reached (fun _ _ _ hdir' ⟨_, _, hparts, hdot⟩ hwalk => walk_dots hdot hdir' (hparts ▸ hwalk)) hup
    hstart hclear hlast h with hreached | hlinked
  · exact .inl ⟨hreached.eq, hreached.dirs⟩
  · exact .inr hlinked

end Linkless

end SwarmCloud.Lib.Kernel
