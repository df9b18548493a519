import SwarmCloud.Checkpoints.Hostile
import SwarmCloud.Lib.Results

/-! # A restore stays in its workspace

Before a layer is extracted nothing but directories stands on the way to its members
and in their places. A link that the layer makes is on the way to none of its
members, so each of them is made where its name says. What a later layer or a
deletion meets is looked at again, one directory after the other.
-/

namespace SwarmCloud.Checkpoints.Hostile

open Lib Kernel PathMap

/-- An empty `work/`, by its real path, in a file system. -/
structure Workspace where
  fs : Work
  root : List String
  proper : ∀ part ∈ root, isDot part = false ∧ part ≠ ".."
  dirs : DirPath Node.kind fs root
  closed : Closed Node.dir fs
  empty : ∀ path, root <+: path → path ≠ root → fs path = none

/-- A path strictly below the workspace. -/
def Within (root path : List String) : Prop := root <+: path ∧ path ≠ root

/-- What a change makes or takes away is in the workspace, and every directory above it, the workspace and what is
above that included, is one as the tree then is. No file that stands is written to. -/
structure Change.Inside (root : List String) (change : Change) : Prop where
  place : ∀ path, change.before path ≠ change.after path →
    Within root path ∧ ∀ above, Above above path → change.before above = some .dir
  files : ∀ path content content', change.before path = some (.file content) →
    change.after path = some (.file content') → content = content'

/-- The changes lead from one tree to the other, each from where the one before it ended. -/
def Linked : Work → List Change → Work → Prop
  | fs, [], fs' => fs' = fs
  | fs, change :: rest, fs' => change.before = fs ∧ Linked change.after rest fs'

theorem Linked.snoc {fs fs' : Work} {changes : List Change} (h : Linked fs changes fs') (after : Work) :
    Linked fs (changes ++ [⟨fs', after⟩]) after := by
  induction changes generalizing fs with
  | nil => exact ⟨h, rfl⟩
  | cons change rest ih => exact ⟨h.1, ih h.2⟩

/-- What holds of the disk throughout a restore. -/
structure Inv (ws : Workspace) (disk : Disk) : Prop where
  closed : Closed Node.dir disk.fs
  outside : ∀ path, ¬Within ws.root path → disk.fs path = ws.fs path
  changes : ∀ change ∈ disk.changes, change.Inside ws.root
  linked : Linked ws.fs disk.changes disk.fs

/-! ## Paths -/

section Paths

variable {ws : Workspace} {disk : Disk} {fs : Work} {root parts q : List String} {name : String}

theorem within_append (hparts : parts ≠ []) : Within root (root ++ parts) :=
  ⟨List.prefix_append _ _, fun h => hparts (List.append_right_eq_self.mp h)⟩

theorem not_within_of_above (h : q <+: root) : ¬Within root q := by
  rintro ⟨hroot, hne⟩
  exact hne (h.eq_of_length_le hroot.length_le)

/-- What is above a path in the workspace is above the workspace, or the workspace, or in it. -/
theorem above_append_cases (h : Above q (root ++ parts)) : q <+: root ∨ ∃ r, q = root ++ r ∧ Above r parts := by
  obtain ⟨hne, hprefix, hproper⟩ := h
  rcases List.prefix_or_prefix_of_prefix hprefix (List.prefix_append root parts) with hroot | ⟨r, rfl⟩
  · exact .inl hroot
  · have hr := (List.prefix_append_right_inj root).mp hprefix
    by_cases hnil : r = []
    · subst hnil
      rw [List.append_nil]
      exact .inl (List.prefix_refl _)
    · refine .inr ⟨r, rfl, hnil, hr, ?_⟩
      rintro rfl
      exact hproper rfl

theorem Inv.dirs (h : Inv ws disk) : DirPath Node.kind disk.fs ws.root := by
  intro q hq hne
  rw [h.outside q (not_within_of_above hq)]
  exact ws.dirs q hq hne

theorem kind_eq_dir {node : Option Node} (h : node.map Node.kind = some .dir) : node = some .dir := by
  obtain ⟨node, rfl, hkind⟩ := Option.map_eq_some_iff.mp h
  cases node with
  | dir => rfl
  | link target => cases hkind
  | file content => cases hkind

theorem archiveParts_spec (h : archiveParts name = some parts) :
    names (segments name) = parts ∧ parts ≠ [] ∧ ".." ∉ segments name ∧
      ∀ part ∈ parts, isDot part = false ∧ part ≠ ".." := by
  rw [archiveParts] at h
  split at h
  · cases h
  dsimp only at h
  split at h
  · cases h
  rename_i hgood
  rw [not_or] at hgood
  obtain rfl := Option.some.inj h
  have hnames : names (segments name) = (segments name).filter fun part => part ≠ "" && part ≠ "." := by
    rw [names]
    congr 1
    funext part
    simp [isDot]
  refine ⟨hnames, hgood.1, fun hup => hgood.2 (List.mem_filter.mpr ⟨hup, by decide⟩), ?_⟩
  intro part hpart
  refine ⟨?_, fun heq => hgood.2 (heq ▸ hpart)⟩
  have hkept := (List.mem_filter.mp hpart).2
  simpa [isDot] using hkept

theorem names_of_proper (h : ∀ part ∈ parts, isDot part = false ∧ part ≠ "..") : names parts = parts := by
  rw [names, List.filter_eq_self]
  intro part hpart
  rw [(h part hpart).1]
  rfl

theorem not_mem_of_proper (h : ∀ part ∈ parts, isDot part = false ∧ part ≠ "..") : ".." ∉ parts :=
  fun hup => (h _ hup).2 rfl

theorem Workspace.proper_append (ws : Workspace) (h : ∀ part ∈ parts, isDot part = false ∧ part ≠ "..") :
    ∀ part ∈ ws.root ++ parts, isDot part = false ∧ part ≠ ".." := by
  intro part hpart
  rcases List.mem_append.mp hpart with hroot | hpart
  · exact ws.proper part hroot
  · exact h part hpart

/-- No link stands on the way from the workspace to a place in it. -/
def ClearTo (root : List String) (fs : Work) (parts : List String) : Prop :=
  ∀ above, Above above parts → NoLink Node.kind fs (root ++ above)

/-- Where no link stands on the way, the kernel arrives at the place that the names spell, or follows a link there. -/
theorem Inv.locate_eq (h : Inv ws disk) {follow : Bool} {path place : List String}
    (hnames : names path = ws.root ++ parts) (hup : ".." ∉ path)
    (hclear : ClearTo ws.root disk.fs parts)
    (hlast : follow = true → NoLink Node.kind disk.fs (ws.root ++ parts))
    (hlocate : locate Node.kind disk.fs follow path = .ok place) :
    (place = ws.root ++ parts ∧ ∀ above, Above above (ws.root ++ parts) → disk.fs above = some .dir) ∨
      (¬NoLink Node.kind disk.fs (ws.root ++ parts) ∧ nodeAt disk.fs place = some .dir) := by
  have hway : ∀ q, Above q (names path) → NoLink Node.kind disk.fs q := by
    rw [hnames]
    intro q hq target htarget
    rcases above_append_cases hq with hroot | ⟨r, rfl, hr⟩
    · rw [h.dirs q hroot hq.1] at htarget
      cases htarget
    · exact hclear r hr target htarget
  rw [← hnames] at hlast
  rcases locate_reached hup hway hlast hlocate with ⟨hplace, hdirs⟩ | ⟨hlink, hdirs⟩
  · rw [hnames] at hplace
    refine .inl ⟨hplace, fun above habove => ?_⟩
    rw [← hplace] at habove
    exact kind_eq_dir (hdirs above habove.prefix_dropLast habove.1)
  · rw [hnames] at hlink
    refine .inr ⟨hlink, ?_⟩
    rw [nodeAt]
    split
    · rfl
    · rename_i hsome
      exact kind_eq_dir (hdirs place (List.prefix_refl _) hsome)

/-- Nothing but a directory may stand at the place. -/
def Clean (fs : Work) (path : List String) : Prop := fs path = none ∨ fs path = some .dir

theorem Clean.noLink (h : Clean fs q) : NoLink Node.kind fs q := by
  intro target htarget
  rcases h with h | h
  · rw [h] at htarget
    cases htarget
  · rw [h] at htarget
    cases htarget

theorem nodeAt_append (hne : parts ≠ []) : nodeAt fs (root ++ parts) = fs (root ++ parts) :=
  if_neg (List.append_ne_nil_of_right_ne_nil root hne)

/-- What a call makes at a place to which no link leads. -/
structure Made (root : List String) (fs fs' : Work) (parts : List String) (node : Node) : Prop where
  eq : fs' = fs.place (root ++ parts) node
  free : fs (root ++ parts) = none
  dirs : ∀ above, Above above (root ++ parts) → fs above = some .dir

theorem Inv.create_made (h : Inv ws disk) (hproper : ∀ part ∈ parts, isDot part = false ∧ part ≠ "..")
    (hne : parts ≠ []) (hclear : ClearTo ws.root disk.fs parts) (hlast : NoLink Node.kind disk.fs (ws.root ++ parts))
    {node : Node} {fs' : Work} (hcreate : create disk.fs (ws.root ++ parts) node = .ok fs') :
    Made ws.root disk.fs fs' parts node := by
  have hpath := ws.proper_append hproper
  obtain ⟨place, hlocate, hcreate⟩ := bind_eq_ok hcreate
  rcases h.locate_eq (names_of_proper hpath) (not_mem_of_proper hpath) hclear (fun _ => hlast) hlocate with
    ⟨rfl, hdirs⟩ | ⟨hlink, -⟩
  · rw [nodeAt_append hne] at hcreate
    split at hcreate
    · cases hcreate
    · rename_i hfree
      exact ⟨(Except.ok.inj hcreate).symm, hfree, hdirs⟩
  · exact absurd hlast hlink

theorem Inv.write_made (h : Inv ws disk) (hproper : ∀ part ∈ parts, isDot part = false ∧ part ≠ "..")
    (hne : parts ≠ []) (hclear : ClearTo ws.root disk.fs parts) (hclean : Clean disk.fs (ws.root ++ parts))
    {content : Content} {fs' : Work} (hwrite : write disk.fs (ws.root ++ parts) content = .ok fs') :
    Made ws.root disk.fs fs' parts (.file content) := by
  have hpath := ws.proper_append hproper
  obtain ⟨place, hlocate, hwrite⟩ := bind_eq_ok hwrite
  rcases h.locate_eq (names_of_proper hpath) (not_mem_of_proper hpath) hclear (fun _ => hclean.noLink) hlocate with
    ⟨rfl, hdirs⟩ | ⟨hlink, -⟩
  · rw [nodeAt_append hne] at hwrite
    rcases hclean with hfree | hdir
    · rw [hfree] at hwrite
      exact ⟨(Except.ok.inj hwrite).symm, hfree, hdirs⟩
    · rw [hdir] at hwrite
      cases hwrite
  · exact absurd hclean.noLink hlink

/-- Nothing is unlinked where nothing but a directory may stand. -/
theorem Inv.unlink_clean (h : Inv ws disk) (hproper : ∀ part ∈ parts, isDot part = false ∧ part ≠ "..")
    (hne : parts ≠ []) (hclear : ClearTo ws.root disk.fs parts) (hclean : Clean disk.fs (ws.root ++ parts))
    {fs' : Work} : unlink disk.fs (ws.root ++ parts) ≠ .ok fs' := by
  have hpath := ws.proper_append hproper
  intro hunlink
  obtain ⟨place, hlocate, hunlink⟩ := bind_eq_ok hunlink
  rcases h.locate_eq (names_of_proper hpath) (not_mem_of_proper hpath) hclear (fun _ => hclean.noLink) hlocate with
    ⟨rfl, -⟩ | ⟨hlink, -⟩
  · rw [nodeAt_append hne] at hunlink
    rcases hclean with hfree | hdir
    · rw [hfree] at hunlink
      cases hunlink
    · rw [hdir] at hunlink
      cases hunlink
  · exact hlink hclean.noLink

/-- A hard link to a place where no link stands is no symbolic link. -/
theorem Inv.link_made (h : Inv ws disk) (hproper : ∀ part ∈ parts, isDot part = false ∧ part ≠ "..")
    (hne : parts ≠ []) (hclear : ClearTo ws.root disk.fs parts) (hlast : NoLink Node.kind disk.fs (ws.root ++ parts))
    {source named : List String} (hnames : names source = ws.root ++ named) (hup : ".." ∉ source) (hnamed : named ≠ [])
    (hclear' : ClearTo ws.root disk.fs named) (hlast' : NoLink Node.kind disk.fs (ws.root ++ named)) {fs' : Work}
    (hlink : link disk.fs source (ws.root ++ parts) = .ok fs') :
    ∃ node, Made ws.root disk.fs fs' parts node ∧ ∀ target, node ≠ .link target := by
  obtain ⟨place, hlocate, hlink⟩ := bind_eq_ok hlink
  rcases h.locate_eq hnames hup hclear' (fun _ => hlast') hlocate with ⟨rfl, -⟩ | ⟨hlinked, -⟩
  · rw [nodeAt_append hnamed] at hlink
    split at hlink
    · cases hlink
    · cases hlink
    · rename_i node _ hnode
      refine ⟨node, h.create_made hproper hne hclear hlast hlink, ?_⟩
      rintro target rfl
      exact hlast' target (by rw [hnode]; rfl)
  · exact absurd hlast' hlinked

end Paths

/-! ## Changes -/

section Changes

variable {ws : Workspace} {disk : Disk} {fs' : Work} {parts : List String}

theorem Inv.changed (h : Inv ws disk) (hclosed : Closed Node.dir fs') (hinside : Change.Inside ws.root ⟨disk.fs, fs'⟩) :
    Inv ws (disk.changed fs') := by
  refine ⟨hclosed, fun path hpath => ?_, fun change hchange => ?_, h.linked.snoc fs'⟩
  · rw [← h.outside path hpath]
    by_contra hne
    exact hpath (hinside.place path (Ne.symm hne)).1
  · rcases List.mem_append.mp hchange with hchange | hchange
    · exact h.changes change hchange
    · rw [List.mem_singleton.mp hchange]
      exact hinside

theorem Inv.made (h : Inv ws disk) (hne : parts ≠ []) {node : Node} (hmade : Made ws.root disk.fs fs' parts node) :
    Inv ws (disk.changed fs') := by
  obtain ⟨rfl, hfree, hdirs⟩ := hmade
  refine h.changed ?_ ⟨fun path hdiff => ?_, fun path content content' hbefore hafter => ?_⟩
  · intro path entry hentry above habove
    have habove' : disk.fs above = some .dir := by
      by_cases hpath : path = ws.root ++ parts
      · exact hdirs above (hpath ▸ habove)
      · rw [place_other hpath] at hentry
        exact h.closed path entry hentry above habove
    rw [place_other, habove']
    rintro rfl
    rw [hfree] at habove'
    cases habove'
  · have hpath : path = ws.root ++ parts := by
      by_contra hpath
      exact hdiff (place_other hpath _).symm
    subst hpath
    exact ⟨within_append hne, hdirs⟩
  · dsimp only at hbefore hafter
    rw [place_other, hbefore] at hafter
    · cases hafter
      rfl
    · rintro rfl
      rw [hfree] at hbefore
      cases hbefore

/-- Whatever goes at and below a place in the workspace, only directories are above it. -/
theorem Inv.removed_below (h : Inv ws disk) (hne : parts ≠ []) (hclosed : Closed Node.dir fs')
    (hkept : ∀ path, fs' path = disk.fs path ∨ (fs' path = none ∧ ws.root ++ parts <+: path)) :
    Inv ws (disk.changed fs') := by
  refine h.changed hclosed ⟨fun path hdiff => ?_, fun path content content' hbefore hafter => ?_⟩
  · rcases hkept path with hsame | ⟨hgone, hbelow⟩
    · exact absurd hsame.symm hdiff
    · have hsome : ∃ entry, disk.fs path = some entry := by
        rw [← Option.ne_none_iff_exists']
        intro hnone
        exact hdiff (hnone.trans hgone.symm)
      obtain ⟨entry, hentry⟩ := hsome
      refine ⟨⟨(List.prefix_append _ _).trans hbelow, ?_⟩, h.closed path entry hentry⟩
      rintro rfl
      exact not_within_of_above hbelow (within_append hne)
  · rcases hkept path with hsame | ⟨hgone, -⟩
    · dsimp only at hbefore hafter
      rw [hsame, hbefore] at hafter
      cases hafter
      rfl
    · dsimp only at hafter
      rw [hgone] at hafter
      cases hafter

theorem Inv.remove (h : Inv ws disk) (hne : parts ≠ []) (hnode : disk.fs (ws.root ++ parts) ≠ some .dir) :
    Inv ws (disk.changed (disk.fs.remove (ws.root ++ parts))) := by
  refine h.removed_below hne ?_ fun path => ?_
  · rw [h.closed.remove_eq (List.append_ne_nil_of_right_ne_nil _ hne) hnode]
    exact h.closed.removeBelow _
  · by_cases hpath : path = ws.root ++ parts
    · exact .inr ⟨if_pos hpath, hpath ▸ List.prefix_refl _⟩
    · exact .inl (if_neg hpath)

theorem Inv.removeBelow (h : Inv ws disk) (hne : parts ≠ []) :
    Inv ws (disk.changed (disk.fs.removeBelow (ws.root ++ parts))) := by
  refine h.removed_below hne (h.closed.removeBelow _) fun path => ?_
  by_cases hbelow : ws.root ++ parts <+: path
  · exact .inr ⟨removeBelow_eq_none hbelow, hbelow⟩
  · exact .inl (removeBelow_other hbelow)

end Changes

/-! ## The members against each other -/

section Accepted

/-- The members that are extracted: each at a place of its own, none behind a link of the archive, and the hard links
to files that come before them. -/
structure Accepted (accepted : List (List String × TarMember)) : Prop where
  parts : ∀ entry ∈ accepted, archiveParts entry.2.name = some entry.1
  nodup : (accepted.map Prod.fst).Nodup
  clear : ∀ entry ∈ accepted, ∀ link ∈ accepted, link.2.issym = true → ¬Above link.1 entry.1
  hardLinks : ∀ done entry rest, accepted = done ++ entry :: rest → ∀ linkname,
    entry.2.kind = some (.hardLink linkname) → ∃ named, archiveParts linkname = some named ∧
      ∃ file ∈ done, file.1 = named ∧ file.2.issym = false

section Split

variable {α : Type*} {l done rest : List α} {a : α}

theorem mem_of_split (h : l = done ++ a :: rest) : a ∈ l := by
  rw [h]
  exact List.mem_append_right done List.mem_cons_self

theorem subset_of_split (h : l = done ++ a :: rest) : done ⊆ l := by
  rw [h]
  exact List.subset_append_left _ _

end Split

theorem mem_of_memberParts {members : List TarMember} {all : List (List String × TarMember)}
    (h : memberParts members = .ok all) : ∀ entry ∈ all, archiveParts entry.2.name = some entry.1 := by
  induction members generalizing all with
  | nil =>
    cases h
    exact fun _ hentry => nomatch hentry
  | cons member rest ih =>
    rw [memberParts] at h
    split at h
    · cases h
    · rename_i parts hparts
      obtain ⟨all', hall, rfl⟩ := map_eq_ok h
      intro entry hentry
      rcases List.mem_cons.mp hentry with rfl | hentry
      · exact hparts
      · exact ih hall entry hentry

theorem not_above_of_throughLink {symlinks : List (List String)} {parts link : List String}
    (h : throughLink symlinks parts = none) (hlink : link ∈ symlinks) : ¬Above link parts := by
  rintro ⟨hne, hbelow, hproper⟩
  have hpos := List.length_pos_iff.mpr hne
  have hlt : link.length < parts.length :=
    Nat.lt_of_not_le fun hle => hproper (hbelow.eq_of_length_le hle)
  have hnone := List.find?_eq_none.mp h link ?_
  · exact hnone (decide_eq_true hlink)
  · refine List.mem_map.mpr ⟨link.length, List.mem_range'_1.mpr ⟨hpos, by omega⟩, ?_⟩
    exact (List.prefix_iff_eq_take.mp hbelow).symm

/-- What the second loop lets through, given the places and the files before it. -/
structure Lets (symlinks seen files : List (List String)) (entries accepted : List (List String × TarMember)) :
    Prop where
  sub : accepted.Sublist entries
  fresh : ∀ entry ∈ accepted, entry.1 ∉ seen
  nodup : (accepted.map Prod.fst).Nodup
  clear : ∀ entry ∈ accepted, ∀ link ∈ symlinks, ¬Above link entry.1
  hardLinks : ∀ done entry rest, accepted = done ++ entry :: rest → ∀ linkname,
    entry.2.kind = some (.hardLink linkname) → ∃ named, archiveParts linkname = some named ∧
      (named ∈ files ∨ ∃ file ∈ done, file.1 = named ∧ file.2.issym = false)

variable {symlinks seen files files' : List (List String)} {parts : List String} {member : TarMember}
  {entries accepted : List (List String × TarMember)}

theorem Lets.nil (symlinks seen files : List (List String)) : Lets symlinks seen files [] [] := by
  refine ⟨List.Sublist.refl _, fun _ h => (nomatch h), List.nodup_nil, fun _ h => (nomatch h), ?_⟩
  intro done entry rest hsplit
  exact absurd hsplit.symm (List.append_ne_nil_of_right_ne_nil _ (List.cons_ne_nil _ _))

theorem Lets.skip (h : Lets symlinks (parts :: seen) files entries accepted) :
    Lets symlinks seen files ((parts, member) :: entries) accepted :=
  ⟨h.sub.cons _, fun entry hentry hseen => h.fresh entry hentry (List.mem_cons_of_mem _ hseen), h.nodup, h.clear,
    h.hardLinks⟩

theorem Lets.keep (h : Lets symlinks (parts :: seen) files' entries accepted) (hseen : parts ∉ seen)
    (hthrough : throughLink symlinks parts = none)
    (hfiles : ∀ file ∈ files', file ∈ files ∨ (file = parts ∧ member.issym = false))
    (hhard : ∀ linkname, member.kind = some (.hardLink linkname) → ∃ named, archiveParts linkname = some named ∧
      named ∈ files) : Lets symlinks seen files ((parts, member) :: entries) ((parts, member) :: accepted) := by
  refine ⟨h.sub.cons_cons _, ?_, ?_, ?_, ?_⟩
  · intro entry hentry
    rcases List.mem_cons.mp hentry with rfl | hentry
    · exact hseen
    · exact fun hmem => h.fresh entry hentry (List.mem_cons_of_mem _ hmem)
  · rw [List.map_cons, List.nodup_cons]
    refine ⟨fun hmem => ?_, h.nodup⟩
    obtain ⟨entry, hentry, heq⟩ := List.mem_map.mp hmem
    exact h.fresh entry hentry (List.mem_cons.mpr (.inl heq))
  · intro entry hentry link hlink
    rcases List.mem_cons.mp hentry with rfl | hentry
    · exact not_above_of_throughLink hthrough hlink
    · exact h.clear entry hentry link hlink
  · intro done entry rest hsplit linkname hkind
    cases done with
    | nil =>
      obtain ⟨rfl, -⟩ := List.cons.inj hsplit
      obtain ⟨named, hnamed, hfile⟩ := hhard linkname hkind
      exact ⟨named, hnamed, .inl hfile⟩
    | cons first done =>
      obtain ⟨rfl, hrest⟩ := List.cons.inj hsplit
      obtain ⟨named, hnamed, hfile | ⟨file, hfile, hnames⟩⟩ := h.hardLinks done entry rest hrest linkname hkind
      · rcases hfiles named hfile with hfile | ⟨rfl, hsym⟩
        · exact ⟨named, hnamed, .inl hfile⟩
        · exact ⟨named, hnamed, .inr ⟨(named, member), List.mem_cons_self, rfl, hsym⟩⟩
      · exact ⟨named, hnamed, .inr ⟨file, List.mem_cons_of_mem _ hfile, hnames⟩⟩

theorem lets_of_acceptMembers (h : acceptMembers symlinks seen files entries = .ok accepted) :
    Lets symlinks seen files entries accepted := by
  induction entries generalizing seen files accepted with
  | nil =>
    cases h
    exact Lets.nil _ _ _
  | cons entry rest ih =>
    obtain ⟨parts, member⟩ := entry
    rw [acceptMembers] at h
    split at h
    · cases h
    rename_i hcontains
    have hseen : parts ∉ seen := fun hmem => hcontains (List.contains_iff_mem.mpr hmem)
    split at h
    · cases h
    rename_i hthrough
    have hsame : ∀ file ∈ files, file ∈ files ∨ (file = parts ∧ member.issym = false) := fun _ hfile => .inl hfile
    split at h
    · rename_i linkname hkind
      split at h
      · cases h
      · rename_i hgood
        obtain ⟨accepted', hrest, rfl⟩ := map_eq_ok h
        refine (ih hrest).keep hseen hthrough hsame fun linkname' hkind' => ?_
        rw [hkind] at hkind'
        cases hkind'
        rw [Bool.or_eq_true, not_or, Bool.not_eq_true', Bool.not_eq_false, Option.any_eq_true] at hgood
        obtain ⟨named, hnamed, hfile⟩ := hgood.2
        exact ⟨named, hnamed, List.contains_iff_mem.mp hfile⟩
    · rename_i linkname hkind
      split at h
      · exact (ih h).skip
      · obtain ⟨accepted', hrest, rfl⟩ := map_eq_ok h
        exact (ih hrest).keep hseen hthrough hsame fun _ hkind' => by cases hkind.symm.trans hkind'
    · rename_i content hkind
      obtain ⟨accepted', hrest, rfl⟩ := map_eq_ok h
      refine (ih hrest).keep hseen hthrough ?_ fun _ hkind' => by cases hkind.symm.trans hkind'
      intro file hfile
      rcases List.mem_cons.mp hfile with rfl | hfile
      · exact .inr ⟨rfl, by rw [TarMember.issym, hkind]⟩
      · exact .inl hfile
    · rename_i hkind
      obtain ⟨accepted', hrest, rfl⟩ := map_eq_ok h
      exact (ih hrest).keep hseen hthrough hsame fun _ hkind' => by cases hkind.symm.trans hkind'
    · exact (ih h).skip

theorem accepted_of_safeMembers {members : List TarMember} (h : safeMembers members = .ok accepted) :
    Accepted accepted := by
  obtain ⟨all, hall, haccept⟩ := bind_eq_ok h
  have hlets := lets_of_acceptMembers haccept
  refine ⟨fun entry hentry => mem_of_memberParts hall entry (hlets.sub.subset hentry), hlets.nodup, ?_, ?_⟩
  · intro entry hentry link hlink hsym
    exact hlets.clear entry hentry link.1 (List.mem_map_of_mem (List.mem_filter.mpr ⟨hlets.sub.subset hlink, hsym⟩))
  · intro done entry rest hsplit linkname hkind
    obtain ⟨named, hnamed, hfile | hfile⟩ := hlets.hardLinks done entry rest hsplit linkname hkind
    · exact absurd hfile List.not_mem_nil
    · exact ⟨named, hnamed, hfile⟩

end Accepted

/-! ## Extraction -/

section Extraction

/-- On the way to the members and in their places nothing stands but directories, and what the members that are done
made: a link only where a link member goes. -/
structure Extracting (ws : Workspace) (accepted done : List (List String × TarMember)) (disk : Disk) : Prop where
  inv : Inv ws disk
  free : ∀ entry ∈ accepted, ∀ q, q ≠ [] → q <+: entry.1 → Clean disk.fs (ws.root ++ q) ∨
    ∃ made ∈ done, made.1 = q ∧ (made.2.issym = false → NoLink Node.kind disk.fs (ws.root ++ q))

variable {ws : Workspace} {accepted done rest : List (List String × TarMember)} {disk : Disk} {fs' : Work}
  {entry : List String × TarMember} {q : List String}

theorem Extracting.clearTo (h : Extracting ws accepted done disk) (haccepted : Accepted accepted)
    (hdone : done ⊆ accepted) (hentry : entry ∈ accepted) : ClearTo ws.root disk.fs entry.1 := by
  intro above habove
  rcases h.free entry hentry above habove.1 habove.2.1 with hclean | ⟨made, hmade, rfl, hno⟩
  · exact hclean.noLink
  · refine hno ?_
    cases hsym : made.2.issym with
    | false => rfl
    | true => exact absurd habove (haccepted.clear entry hentry made (hdone hmade) hsym)

/-- A directory on the way to a member. -/
theorem Extracting.madeDirectory (h : Extracting ws accepted done disk) (hne : q ≠ [])
    (hmade : Made ws.root disk.fs fs' q .dir) : Extracting ws accepted done (disk.changed fs') := by
  refine ⟨h.inv.made hne hmade, fun entry hentry q' hne' hprefix => ?_⟩
  obtain ⟨rfl, -, -⟩ := hmade
  dsimp only [Disk.changed]
  by_cases hq : q' = q
  · subst hq
    exact .inl (.inr (place_self _ _))
  · have hother : ws.root ++ q' ≠ ws.root ++ q := fun heq => hq (List.append_cancel_left heq)
    rw [Clean, NoLink, place_other hother]
    exact h.free entry hentry q' hne' hprefix

/-- What a member made at its own name. -/
theorem Extracting.madeOwn (h : Extracting ws accepted done disk) (hne : entry.1 ≠ []) {node : Node}
    (hmade : Made ws.root disk.fs fs' entry.1 node)
    (hnode : entry.2.issym = false → ∀ target, node ≠ .link target) :
    Extracting ws accepted (done ++ [entry]) (disk.changed fs') := by
  refine ⟨h.inv.made hne hmade, fun other hother q' hne' hprefix => ?_⟩
  obtain ⟨rfl, -, -⟩ := hmade
  dsimp only [Disk.changed]
  by_cases hq : q' = entry.1
  · subst hq
    refine .inr ⟨entry, by simp, rfl, fun hsym target htarget => ?_⟩
    rw [place_self, Option.map_some, Option.some.injEq] at htarget
    refine hnode hsym target ?_
    cases node with
    | dir => cases htarget
    | file content => cases htarget
    | link linkname =>
      cases htarget
      rfl
  · have hplace : ws.root ++ q' ≠ ws.root ++ entry.1 := fun heq => hq (List.append_cancel_left heq)
    rw [Clean, NoLink, place_other hplace]
    rcases h.free other hother q' hne' hprefix with hclean | ⟨made, hmade, hmore⟩
    · exact .inl hclean
    · exact .inr ⟨made, List.mem_append_left _ hmade, hmore⟩

theorem Extracting.weaken (h : Extracting ws accepted done disk) (entry : List String × TarMember) :
    Extracting ws accepted (done ++ [entry]) disk := by
  refine ⟨h.inv, fun other hother q hne hprefix => ?_⟩
  rcases h.free other hother q hne hprefix with hclean | ⟨made, hmade, hmore⟩
  · exact .inl hclean
  · exact .inr ⟨made, List.mem_append_left _ hmade, hmore⟩

/-- Nothing but a directory stands in the place of a member that is still to come. -/
theorem Extracting.clean (h : Extracting ws accepted done disk) (haccepted : Accepted accepted)
    (hsplit : accepted = done ++ entry :: rest) (hne : entry.1 ≠ []) : Clean disk.fs (ws.root ++ entry.1) := by
  have hentry := mem_of_split hsplit
  rcases h.free entry hentry entry.1 hne (List.prefix_refl _) with hclean | ⟨made, hmade, heq, -⟩
  · exact hclean
  · have hnodup := haccepted.nodup
    rw [hsplit, List.map_append, List.nodup_append] at hnodup
    exact absurd heq (hnodup.2.2 _ (List.mem_map_of_mem hmade) _ (by simp))

theorem triple_change {disk : Disk} {fs' : Work} {Q : PUnit → Disk → Prop} {E : Halt → Disk → Prop}
    (h : Q ⟨⟩ (disk.changed fs')) : Triple (· = disk) (change fs') Q E := by
  refine Triple.modify fun s hs => ?_
  rw [hs]
  exact h

theorem triple_makeDirectory (haccepted : Accepted accepted) (hdone : done ⊆ accepted) (hentry : entry ∈ accepted)
    (hq : Above q entry.1) (id : String) :
    Triple (Extracting ws accepted done) (makeDirectory id (ws.root ++ q)) (fun _ => Extracting ws accepted done)
      fun _ => Inv ws := by
  obtain ⟨-, -, -, hproper⟩ := archiveParts_spec (haccepted.parts entry hentry)
  rw [makeDirectory]
  refine Triple.get_bind fun disk hdisk => Triple.ite (fun _ => Triple.pure fun s hs => hs ▸ hdisk) fun _ => ?_
  have hclear := hdisk.clearTo haccepted hdone hentry
  split
  · rename_i fs' hmake
    refine triple_change (hdisk.madeDirectory hq.1 ?_)
    refine hdisk.inv.create_made (fun part hpart => hproper part (hq.2.1.subset hpart)) hq.1 ?_ (hclear q hq) hmake
    exact fun above habove => hclear above (habove.trans hq.2.1)
  · exact Triple.throw fun s hs => hs ▸ hdisk.inv

/-- What a call at the name of a member may be, by the kind of the member. -/
structure OwnCall.Fits (root : List String) (member : TarMember) (call : OwnCall) : Prop where
  symlink : ∀ target, call = .symlink target → member.issym = true
  source : ∀ source, call = .link source → ∃ linkname, member.kind = some (.hardLink linkname) ∧
    ∀ named, archiveParts linkname = some named → names source = root ++ named ∧ ".." ∉ source

theorem fits_of_mem {tarfile : Tarfile ws.root} {fs : Work} {parts : List String} {member : TarMember} {call : OwnCall}
    (h : call ∈ tarfile.calls fs parts member) : call.Fits ws.root member :=
  ⟨fun target heq => tarfile.symlinks fs parts member target (heq ▸ h),
    fun source heq => tarfile.sources fs parts member source (heq ▸ h)⟩

/-- A call at the name of a member that is next makes one thing there, and none of them removes anything. -/
theorem Extracting.own_made (h : Extracting ws accepted done disk) (haccepted : Accepted accepted)
    (hsplit : accepted = done ++ entry :: rest) {call : OwnCall} (hfits : call.Fits ws.root entry.2)
    (hrun : call.run disk.fs (ws.root ++ entry.1) = .ok fs') :
    call ≠ .unlink ∧ ∃ node, Made ws.root disk.fs fs' entry.1 node ∧
      (entry.2.issym = false → ∀ target, node ≠ .link target) := by
  have hentry := mem_of_split hsplit
  have hdone := subset_of_split hsplit
  obtain ⟨-, hne, -, hproper⟩ := archiveParts_spec (haccepted.parts entry hentry)
  have hclear := h.clearTo haccepted hdone hentry
  have hclean := h.clean haccepted hsplit hne
  cases call with
  | mkdir => exact ⟨nofun, .dir, h.inv.create_made hproper hne hclear hclean.noLink hrun, nofun⟩
  | write content => exact ⟨nofun, .file content, h.inv.write_made hproper hne hclear hclean hrun, nofun⟩
  | unlink => exact absurd hrun (h.inv.unlink_clean hproper hne hclear hclean)
  | symlink target =>
    refine ⟨nofun, .link target, h.inv.create_made hproper hne hclear hclean.noLink hrun, fun hsym => ?_⟩
    rw [hfits.symlink target rfl] at hsym
    cases hsym
  | link source =>
    obtain ⟨linkname, hkind, hnames⟩ := hfits.source source rfl
    obtain ⟨named, hnamed, file, hfile, rfl, hsym⟩ := haccepted.hardLinks done entry rest hsplit linkname hkind
    obtain ⟨heq, hup⟩ := hnames file.1 hnamed
    obtain ⟨-, hnamedNe, -, -⟩ := archiveParts_spec hnamed
    have hlast : NoLink Node.kind disk.fs (ws.root ++ file.1) := by
      rcases h.free file (hdone hfile) file.1 hnamedNe (List.prefix_refl _) with hcleanFile | ⟨made, hmade, hplace, hno⟩
      · exact hcleanFile.noLink
      · refine hno ?_
        have hsame : made = file :=
          List.inj_on_of_nodup_map haccepted.nodup (hdone hmade) (hdone hfile) hplace
        rw [hsame, hsym]
    obtain ⟨node, hmade, hnode⟩ := h.inv.link_made hproper hne hclear hclean.noLink heq hup hnamedNe
      (h.clearTo haccepted hdone (hdone hfile)) hlast hrun
    exact ⟨nofun, node, hmade, fun _ => hnode⟩

theorem triple_ownCalls (haccepted : Accepted accepted) (hsplit : accepted = done ++ entry :: rest)
    {calls : List OwnCall} (hcalls : ∀ call ∈ calls, call.Fits ws.root entry.2) :
    Triple (Extracting ws accepted done) (ownCalls (ws.root ++ entry.1) calls)
      (fun _ => Extracting ws accepted (done ++ [entry])) fun _ => Inv ws := by
  induction calls with
  | nil => exact Triple.pure fun disk hdisk => hdisk.weaken entry
  | cons call calls ih =>
    obtain ⟨hcall, hcalls⟩ := List.forall_mem_cons.mp hcalls
    have hentry := mem_of_split hsplit
    obtain ⟨-, hne, -, -⟩ := archiveParts_spec (haccepted.parts entry hentry)
    rw [ownCalls]
    refine Triple.get_bind fun disk hdisk => ?_
    split
    · rename_i fs' hrun
      obtain ⟨hmakes, node, hmade, hnode⟩ := hdisk.own_made haccepted hsplit hcall hrun
      refine Triple.bind (Q := fun _ => Extracting ws accepted (done ++ [entry]))
        (triple_change (hdisk.madeOwn hne hmade hnode)) fun _ => ?_
      refine Triple.ite (fun hunlink => absurd hunlink hmakes) fun _ => ?_
      exact Triple.pure fun _ h => h
    · exact (ih hcalls).weaken (fun s hs => hs ▸ hdisk) (fun _ _ h => h) fun _ _ h => h

theorem triple_extractOne (haccepted : Accepted accepted) (hsplit : accepted = done ++ entry :: rest) (id : String)
    (tarfile : Tarfile ws.root) :
    Triple (Extracting ws accepted done) (extractOne ws.root id tarfile entry)
      (fun _ => Extracting ws accepted (done ++ [entry])) fun _ => Inv ws := by
  have hentry := mem_of_split hsplit
  have hdone := subset_of_split hsplit
  rw [extractOne]
  refine Triple.get_bind fun disk hdisk => ?_
  dsimp only
  split
  · exact Triple.throw fun s hs => hs ▸ hdisk.inv
  · exact Triple.pure fun s hs => hs ▸ hdisk.weaken entry
  · have hparents : Triple (Extracting ws accepted done)
        (((List.range' 1 (entry.1.length - 1)).map entry.1.take).forM fun parts => makeDirectory id (ws.root ++ parts))
        (fun _ => Extracting ws accepted done) fun _ => Inv ws := by
      refine Triple.forM (I := fun _ => Extracting ws accepted done) fun before parts after hparts => ?_
      have hmem : parts ∈ (List.range' 1 (entry.1.length - 1)).map entry.1.take := by
        rw [hparts]
        simp
      obtain ⟨n, hn, rfl⟩ := List.mem_map.mp hmem
      rw [List.mem_range'_1] at hn
      refine triple_makeDirectory haccepted hdone hentry ⟨?_, List.take_prefix _ _, ?_⟩ id
      · apply List.ne_nil_of_length_pos
        rw [List.length_take]
        omega
      · intro heq
        have hlength := congrArg List.length heq
        rw [List.length_take] at hlength
        omega
    refine (hparents.bind fun _ => (triple_ownCalls haccepted hsplit fun call hcall => fits_of_mem hcall).bind
      fun _ => ?_).weaken (fun s hs => hs ▸ hdisk) (fun _ _ h => h) fun _ _ h => h
    split
    · exact Triple.throw fun s hs => hs.inv
    · exact Triple.pure fun s hs => hs

end Extraction

/-! ## What goes first, and what goes last -/

section Removal

variable {ws : Workspace} {disk : Disk} {fs fs' : Work} {path parts rest : List String}
  {accepted done : List (List String × TarMember)} {entry : List String × TarMember}

theorem dirs_of_opened (h : openParents fs path rest = .opened) :
    ∀ q, q <+: rest → q ≠ [] → fs (path ++ q) = some .dir := by
  induction rest generalizing path with
  | nil => exact fun q hq hne => absurd (List.prefix_nil.mp hq) hne
  | cons part rest ih =>
    rw [openParents] at h
    split at h
    · cases h
    · rename_i hdir
      intro q hq hne
      cases q with
      | nil => exact absurd rfl hne
      | cons name q =>
        obtain ⟨rfl, htail⟩ := List.cons_prefix_cons.mp hq
        by_cases hnil : q = []
        · rw [hnil]
          exact hdir
        · have hbelow := ih h q htail hnil
          rwa [List.append_assoc, List.singleton_append] at hbelow
    · cases h

theorem clean_of_missing (hclosed : Closed Node.dir fs) (h : openParents fs path rest = .missing) :
    ∀ more, rest <+: more → ∀ q, q <+: more → q ≠ [] → Clean fs (path ++ q) := by
  induction rest generalizing path with
  | nil => cases h
  | cons part rest ih =>
    rw [openParents] at h
    intro more hmore q hq hne
    obtain ⟨after, rfl⟩ := hmore
    cases q with
    | nil => exact absurd rfl hne
    | cons name q =>
      rw [List.cons_append] at hq
      obtain ⟨rfl, htail⟩ := List.cons_prefix_cons.mp hq
      split at h
      · rename_i hnone
        by_cases hnil : q = []
        · rw [hnil]
          exact .inl hnone
        · refine .inl (hclosed.none_below (p := path ++ [name]) (by rw [hnone]; exact nofun) ⟨?_, ⟨q, by simp⟩, ?_⟩)
          · exact List.append_ne_nil_of_right_ne_nil _ (List.cons_ne_nil _ _)
          · intro heq
            exact hnil (by simpa using List.append_cancel_left heq)
      · rename_i hdir
        by_cases hnil : q = []
        · rw [hnil]
          exact .inr hdir
        · have hbelow := ih h (rest ++ after) (List.prefix_append _ _) q htail hnil
          rwa [List.append_assoc, List.singleton_append] at hbelow
      · cases h

/-- Nothing but directories stands on the way to a place in the workspace and in it. -/
def CleanTo (root : List String) (fs : Work) (parts : List String) : Prop :=
  ∀ q, q ≠ [] → q <+: parts → Clean fs (root ++ q)

/-- Things were only taken away. -/
def Shrinks (fs fs' : Work) : Prop := ∀ path, fs' path = fs path ∨ fs' path = none

theorem Clean.shrink (h : Clean fs path) (hshrinks : Shrinks fs fs') : Clean fs' path := by
  rcases hshrinks path with hsame | hnone
  · rw [Clean, hsame]
    exact h
  · exact .inl hnone

theorem shrinks_remove (fs : Work) (path : List String) : Shrinks fs (fs.remove path) := by
  intro q
  rw [PathMap.remove]
  split
  · exact .inr rfl
  · exact .inl rfl

theorem shrinks_removeBelow (fs : Work) (path : List String) : Shrinks fs (fs.removeBelow path) := by
  intro q
  rw [PathMap.removeBelow]
  split
  · exact .inr rfl
  · exact .inl rfl

/-- The places that are cleared so far. -/
structure Cleared (ws : Workspace) (cleared : List (List String)) (disk : Disk) : Prop where
  inv : Inv ws disk
  clean : ∀ parts ∈ cleared, CleanTo ws.root disk.fs parts

variable {cleared : List (List String)}

theorem Cleared.shrink (h : Cleared ws cleared disk) (hinv : Inv ws (disk.changed fs'))
    (hshrinks : Shrinks disk.fs fs') :
    Cleared ws cleared (disk.changed fs') :=
  ⟨hinv, fun parts hparts q hne hq => (h.clean parts hparts q hne hq).shrink hshrinks⟩

/-- What a removal leaves on the way to its place, and what it does not touch. -/
theorem triple_removeWithin (id rel : String) (keepDirectory : Bool) :
    Triple (Cleared ws cleared) (removeWithin ws.root id keepDirectory rel)
      (fun _ disk => Cleared ws cleared disk ∧ ∀ parts, archiveParts rel = some parts → CleanTo ws.root disk.fs parts)
      fun _ => Inv ws := by
  rw [removeWithin]
  split
  · exact Triple.throw fun s hs => hs.inv
  rename_i parts hparts
  obtain ⟨-, hne, -, -⟩ := archiveParts_spec hparts
  refine Triple.get_bind fun disk hdisk => ?_
  dsimp only
  -- What stands above the place stays, and the place is left clean.
  have hpost : ∀ fs', CleanTo ws.root fs' parts →
      ∀ parts', archiveParts rel = some parts' → CleanTo ws.root fs' parts' := by
    intro fs' hclean parts' hparts'
    rw [hparts, Option.some.injEq] at hparts'
    exact hparts' ▸ hclean
  have hleft : ∀ fs', (∀ q, q <+: parts.dropLast → q ≠ [] → disk.fs (ws.root ++ q) = some .dir) →
      Shrinks disk.fs fs' → Clean fs' (ws.root ++ parts) → CleanTo ws.root fs' parts := by
    intro fs' hdirs hshrinks hclean q hqne hq
    rcases eq_or_above hqne hq with rfl | habove
    · exact hclean
    · exact Clean.shrink (.inr (hdirs q habove.prefix_dropLast hqne)) hshrinks
  have hsame : Shrinks disk.fs disk.fs := fun _ => .inl rfl
  split
  · rename_i hmissing
    refine Triple.pure fun s hs => hs ▸ ⟨hdisk, hpost _ fun q hqne hq => ?_⟩
    exact clean_of_missing hdisk.inv.closed hmissing parts (List.dropLast_prefix _) q hq hqne
  · exact Triple.throw fun s hs => hs ▸ hdisk.inv
  · rename_i hopened
    have hdirs := dirs_of_opened hopened
    split
    · rename_i hnone
      exact Triple.pure fun s hs => hs ▸ ⟨hdisk, hpost _ (hleft _ hdirs hsame (.inl hnone))⟩
    · rename_i hdir
      have hkept := hleft _ hdirs hsame (.inr hdir)
      refine Triple.ite (fun _ => Triple.pure fun s hs => hs ▸ ⟨hdisk, hpost _ hkept⟩) fun _ => ?_
      have hshrinks := shrinks_removeBelow disk.fs (ws.root ++ parts)
      refine triple_change ⟨hdisk.shrink (hdisk.inv.removeBelow hne) hshrinks, hpost _ (hleft _ hdirs hshrinks ?_)⟩
      exact .inl (removeBelow_eq_none (List.prefix_refl _))
    · rename_i node hnotDir hnode
      have hshrinks := shrinks_remove disk.fs (ws.root ++ parts)
      have hkind : disk.fs (ws.root ++ parts) ≠ some .dir := by
        rw [hnode]
        rintro ⟨⟩
        exact hnotDir rfl
      refine triple_change ⟨hdisk.shrink (hdisk.inv.remove hne hkind) hshrinks, hpost _ (hleft _ hdirs hshrinks ?_)⟩
      exact .inl (if_pos rfl)

/-- A link that is unmade is the one that the member made. -/
theorem triple_unmakeEscapedLink (haccepted : Accepted accepted) (hentry : entry ∈ accepted) (nesting : Nat) :
    Triple (Extracting ws accepted accepted) (unmakeEscapedLink ws.root nesting entry)
      (fun _ => Extracting ws accepted accepted) fun _ => Inv ws := by
  obtain ⟨hnames, hne, hup, hproper⟩ := archiveParts_spec (haccepted.parts entry hentry)
  rw [unmakeEscapedLink]
  refine Triple.ite (fun _ => ?_) fun _ => Triple.pure fun _ h => h
  refine Triple.get_bind fun disk hdisk => ?_
  dsimp only
  refine Triple.ite (fun hleaves => ?_) fun _ => Triple.pure fun s hs => hs ▸ hdisk
  split
  · rename_i fs' hunlink
    rw [Bool.and_eq_true, isLinkAt] at hleaves
    obtain ⟨place, hlocate, hunlink⟩ := bind_eq_ok hunlink
    rw [hlocate] at hleaves
    dsimp only at hleaves
    have hpath : names (ws.root ++ segments entry.2.name) = ws.root ++ entry.1 := by
      rw [names, List.filter_append, ← names, ← names, names_of_proper ws.proper, hnames]
    have hup' : ".." ∉ ws.root ++ segments entry.2.name := by
      rw [List.mem_append, not_or]
      exact ⟨not_mem_of_proper ws.proper, hup⟩
    have hclear := hdisk.clearTo haccepted (List.Subset.refl _) hentry
    rcases hdisk.inv.locate_eq hpath hup' hclear (fun h => absurd h Bool.false_ne_true) hlocate with
      ⟨rfl, -⟩ | ⟨-, hdir⟩
    · rw [nodeAt_append hne] at hunlink
      split at hunlink
      · cases hunlink
      · cases hunlink
      · rename_i node hnotDir hnode
        obtain rfl := Except.ok.inj hunlink
        have hkind : disk.fs (ws.root ++ entry.1) ≠ some .dir := by
          rw [hnode]
          rintro ⟨⟩
          exact hnotDir rfl
        refine triple_change ⟨hdisk.inv.remove hne hkind, fun other hother q hqne hq => ?_⟩
        have hshrinks := shrinks_remove disk.fs (ws.root ++ entry.1)
        rcases hdisk.free other hother q hqne hq with hclean | ⟨made, hmade, heq, hno⟩
        · exact .inl (hclean.shrink hshrinks)
        · rcases hshrinks (ws.root ++ q) with hsame | hnone
          · refine .inr ⟨made, hmade, heq, fun hsym target => ?_⟩
            dsimp only [Disk.changed]
            rw [hsame]
            exact hno hsym target
          · exact .inl (.inl hnone)
    · rw [hdir] at hleaves
      cases hleaves.1
  · exact Triple.throw fun s hs => hs ▸ hdisk.inv

end Removal

/-! ## The layers -/

section Layers

variable {ws : Workspace} {disk : Disk} {accepted : List (List String × TarMember)}

/-- Nothing stands in the workspace. -/
def Empty (ws : Workspace) (fs : Work) : Prop := ∀ path, Within ws.root path → fs path = none

theorem triple_liftExcept {α : Type} {P : Disk → Prop} {Q : α → Disk → Prop} {E : Halt → Disk → Prop}
    {result : Except Halt α} (hok : ∀ a, result = .ok a → ∀ disk, P disk → Q a disk)
    (herror : ∀ e, result = .error e → ∀ disk, P disk → E e disk) : Triple P (liftExcept result) Q E := by
  cases result with
  | ok a => exact Triple.pure (hok a rfl)
  | error e => exact Triple.throw (herror e rfl)

theorem triple_extraction (haccepted : Accepted accepted) (id : String) (nesting : Nat) (tarfile : Tarfile ws.root) :
    Triple (Extracting ws accepted [])
      (do
        accepted.forM (extractOne ws.root id tarfile)
        accepted.forM (unmakeEscapedLink ws.root nesting))
      (fun _ => Inv ws) fun _ => Inv ws := by
  refine Triple.bind (Q := fun _ => Extracting ws accepted accepted) ?_ fun _ => ?_
  · exact Triple.forM (I := fun done => Extracting ws accepted done) fun done entry rest hsplit =>
      triple_extractOne haccepted hsplit id tarfile
  · refine (Triple.forM (I := fun _ => Extracting ws accepted accepted) fun done entry rest hsplit => ?_).weaken
      (fun _ h => h) (fun _ _ h => h.inv) fun _ _ h => h
    exact triple_unmakeEscapedLink haccepted (mem_of_split hsplit) nesting

/-- A full archive goes to an empty workspace. -/
theorem Extracting.of_empty (hinv : Inv ws disk) (hempty : Empty ws disk.fs) : Extracting ws accepted [] disk :=
  ⟨hinv, fun _ _ _ hne _ => .inl (.inl (hempty _ (within_append hne)))⟩

theorem triple_deletions (id : String) (deleted : List String) :
    Triple (Inv ws) (deleted.forM (removeWithin ws.root id false)) (fun _ => Inv ws) fun _ => Inv ws := by
  refine Triple.forM (I := fun _ => Inv ws) fun _ rel _ _ => ?_
  have hstart : ∀ disk, Inv ws disk → Cleared ws [] disk := fun disk hdisk => ⟨hdisk, fun _ h => (nomatch h)⟩
  exact (triple_removeWithin id rel false).weaken hstart (fun _ _ h => h.1.inv) fun _ _ h => h

/-- An incremental archive goes to what is left once the way to each member is looked at. -/
theorem triple_clear (haccepted : Accepted accepted) (id : String) :
    Triple (Inv ws) (accepted.forM fun entry => removeWithin ws.root id entry.2.isdir entry.2.name)
      (fun _ => Extracting ws accepted []) fun _ => Inv ws := by
  have hloop : Triple (Cleared ws [])
      (accepted.forM fun entry => removeWithin ws.root id entry.2.isdir entry.2.name)
      (fun _ => Cleared ws (accepted.map Prod.fst)) fun _ => Inv ws := by
    refine Triple.forM (I := fun done => Cleared ws (done.map Prod.fst)) fun done entry rest hsplit => ?_
    refine (triple_removeWithin id entry.2.name entry.2.isdir).weaken (fun _ h => h) ?_ fun _ _ h => h
    rintro - disk ⟨hcleared, hclean⟩
    refine ⟨hcleared.inv, fun parts hparts => ?_⟩
    rw [List.map_append, List.mem_append] at hparts
    rcases hparts with hparts | hparts
    · exact hcleared.clean parts hparts
    · rw [List.map_singleton, List.mem_singleton] at hparts
      rw [hparts]
      exact hclean entry.1 (haccepted.parts entry (mem_of_split hsplit))
  refine hloop.weaken (fun disk hdisk => ⟨hdisk, fun _ h => (nomatch h)⟩) ?_ fun _ _ h => h
  rintro - disk ⟨hinv, hclean⟩
  exact ⟨hinv, fun entry hentry q hne hq => .inl (hclean entry.1 (List.mem_map_of_mem hentry) q hne hq)⟩

/-- What a layer may be applied to. -/
structure Ready (ws : Workspace) (incremental : Bool) (disk : Disk) : Prop where
  inv : Inv ws disk
  empty : incremental = false → Empty ws disk.fs

theorem Inv.expand (h : Inv ws disk) {expanded : Nat} : Inv ws { disk with expanded } :=
  ⟨h.closed, h.outside, h.changes, h.linked⟩

theorem triple_applyLayer (maxBytes nesting : Nat) (tarfile : Tarfile ws.root) (layer : ArchiveLayer)
    (incremental : Bool) :
    Triple (Ready ws incremental) (applyLayer ws.root maxBytes nesting tarfile layer incremental)
      (fun _ => Inv ws) fun _ => Inv ws := by
  rw [applyLayer]
  split
  · exact Triple.throw fun s hs => hs.inv
  rename_i members _
  refine Triple.bind (Q := fun accepted disk => Accepted accepted ∧ Ready ws incremental disk)
    (triple_liftExcept (fun accepted haccept disk hdisk => ⟨accepted_of_safeMembers haccept, hdisk⟩)
      fun _ _ disk hdisk => hdisk.inv) fun accepted => ?_
  refine Triple.bind (Q := fun _ disk => Accepted accepted ∧ Ready ws incremental disk)
    (Triple.modify fun disk hdisk => ⟨hdisk.1, hdisk.2.inv.expand, hdisk.2.empty⟩) fun _ => ?_
  dsimp only
  refine Triple.get_bind fun disk ⟨haccepted, hready⟩ => ?_
  have hextract := triple_extraction haccepted layer.checkpointId nesting tarfile
  refine Triple.ite (fun _ => ?_) fun _ => Triple.ite (fun _ => ?_) fun hfull => ?_
  · exact Triple.bind (Q := fun _ _ => False) (Triple.throw fun s hs => hs ▸ hready.inv) fun _ _ h => h.elim
  · refine Triple.weaken ?_ (fun s hs => hs ▸ hready.inv) (fun _ _ h => h) fun _ _ h => h
    exact (triple_deletions layer.checkpointId layer.deleted).bind fun _ =>
      (triple_clear haccepted layer.checkpointId).bind fun _ => hextract
  · refine hextract.weaken (fun s hs => hs ▸ ?_) (fun _ _ h => h) fun _ _ h => h
    exact Extracting.of_empty hready.inv (hready.empty (Bool.not_eq_true _ ▸ hfull))

/-- Nothing but the first layer needs an empty workspace. -/
theorem triple_applyLayers (maxBytes nesting : Nat) (tarfile : Tarfile ws.root) (layers : List ArchiveLayer)
    (incremental : Bool) :
    Triple (Ready ws incremental) (applyLayers ws.root maxBytes nesting tarfile incremental layers)
      (fun _ => Inv ws) fun _ => Inv ws := by
  induction layers generalizing incremental with
  | nil => exact Triple.pure fun disk hdisk => hdisk.inv
  | cons layer rest ih =>
    rw [applyLayers]
    refine (triple_applyLayer maxBytes nesting tarfile layer incremental).bind fun _ => ?_
    exact (ih true).weaken (fun disk hdisk => ⟨hdisk, nofun⟩) (fun _ _ h => h) fun _ _ h => h

theorem Inv.emptied (h : Inv ws disk) :
    Inv ws (disk.changed fun path => if ws.root <+: path ∧ path ≠ ws.root then none else disk.fs path) := by
  refine h.changed ?_ ⟨fun path hdiff => ?_, fun path content content' hbefore hafter => ?_⟩
  · intro path entry hentry above habove
    dsimp only at hentry ⊢
    split at hentry
    · cases hentry
    · rename_i hout
      rw [if_neg, h.closed path entry hentry above habove]
      rintro ⟨hroot, hne⟩
      refine hout ⟨hroot.trans habove.2.1, ?_⟩
      rintro rfl
      exact hne (habove.2.1.eq_of_length_le hroot.length_le)
  · dsimp only at hdiff
    split at hdiff
    · rename_i hin
      obtain ⟨entry, hentry⟩ := Option.ne_none_iff_exists'.mp hdiff
      exact ⟨hin, h.closed path entry hentry⟩
    · exact absurd rfl hdiff
  · dsimp only at hbefore hafter
    split at hafter
    · cases hafter
    · rw [hbefore] at hafter
      cases hafter
      rfl

theorem triple_emptyDirectory {E : Halt → Disk → Prop} :
    Triple (Inv ws) (emptyDirectory ws.root) (fun _ disk => Inv ws disk ∧ Empty ws disk.fs) E := by
  rw [emptyDirectory]
  exact Triple.get_bind fun disk hdisk => triple_change ⟨hdisk.emptied, fun path hpath => if_pos hpath⟩

/-- A `CheckpointError` leaves nothing behind. -/
theorem triple_restore (maxBytes nesting : Nat) (tarfile : Tarfile ws.root) (chain : Except Halt (List ArchiveLayer)) :
    Triple (Ready ws false) (restore ws.root maxBytes nesting tarfile chain) (fun _ => Inv ws)
      fun halt disk => Inv ws disk ∧ (halt.isCheckpointError = true → Empty ws disk.fs) := by
  refine Triple.tryCatch (F := fun _ => Inv ws) ?_ fun halt => ?_
  · refine Triple.bind (Q := fun _ => Ready ws false) ?_ fun layers =>
      triple_applyLayers maxBytes nesting tarfile layers false
    exact triple_liftExcept (fun _ _ _ hdisk => hdisk) fun _ _ _ hdisk => hdisk.inv
  · refine Triple.ite (fun _ => ?_) fun hcrashed => ?_
    · exact triple_emptyDirectory.bind fun _ => Triple.throw fun disk hdisk => ⟨hdisk.1, fun _ => hdisk.2⟩
    · exact Triple.throw fun disk hdisk => ⟨hdisk, fun hrefused => absurd hrefused hcrashed⟩

/-- The disk that a restore leaves. -/
def diskOf : EStateM.Result Halt Disk PUnit → Disk
  | .ok _ disk | .error _ disk => disk

/-- The exception that a restore ends with. -/
def haltOf : EStateM.Result Halt Disk PUnit → Option Halt
  | .ok _ _ => none
  | .error halt _ => some halt

/-- A restore of any chain makes and takes away only what is in the workspace, under directories that are there at that
moment, and leaves everything else as it was. When it is refused, the workspace is empty. -/
theorem restore_confined (ws : Workspace) (maxBytes nesting : Nat) (tarfile : Tarfile ws.root)
    (chain : Except Halt (List ArchiveLayer)) :
    let result := restore ws.root maxBytes nesting tarfile chain { fs := ws.fs }
    Linked ws.fs (diskOf result).changes (diskOf result).fs ∧
      (∀ change ∈ (diskOf result).changes, change.Inside ws.root) ∧
      (∀ path, ¬Within ws.root path → (diskOf result).fs path = ws.fs path) ∧
      ∀ halt, haltOf result = some halt → halt.isCheckpointError = true → Empty ws (diskOf result).fs := by
  intro result
  have hstart : Ready ws false { fs := ws.fs } :=
    ⟨⟨ws.closed, fun _ _ => rfl, fun _ h => (nomatch h), rfl⟩, fun _ path hpath => ws.empty path hpath.1 hpath.2⟩
  have hrestore := triple_restore maxBytes nesting tarfile chain
  cases hresult : result with
  | ok _ disk =>
    have hend := hrestore.of_ok hstart hresult
    exact ⟨hend.linked, hend.changes, hend.outside, nofun⟩
  | error halt disk =>
    have hend := hrestore.of_error hstart hresult
    refine ⟨hend.1.linked, hend.1.changes, hend.1.outside, ?_⟩
    rintro _ ⟨⟩ hrefused
    exact hend.2 hrefused

/-- A `tarfile` with a filter that refuses special members only. -/
def plainTarfile (ws : Workspace) : Tarfile ws.root where
  filter _ _ member := if member.kind = none then .error (.filterError "SpecialFileError") else .ok true
  calls _ _ member :=
    match member.kind with
    | some .dir => [.mkdir]
    | some (.file content) => [.write content]
    | some (.link target) => [.unlink, .symlink target]
    | some (.hardLink linkname) => if (archiveParts linkname).isSome then [.link (ws.root ++ segments linkname)] else []
    | none => []
  ends _ _ _ := none
  symlinks := by
    intro _ _ member target hmem
    split at hmem
    · cases List.mem_singleton.mp hmem
    · cases List.mem_singleton.mp hmem
    · rename_i hkind
      rw [TarMember.issym, hkind]
    · split at hmem
      · cases List.mem_singleton.mp hmem
      · cases hmem
    · cases hmem
  sources := by
    intro _ _ member source hmem
    split at hmem
    · cases List.mem_singleton.mp hmem
    · cases List.mem_singleton.mp hmem
    · rcases List.mem_cons.mp hmem with hmem | hmem
      · cases hmem
      · cases List.mem_singleton.mp hmem
    · rename_i linkname hkind
      split at hmem
      · cases List.mem_singleton.mp hmem
        refine ⟨linkname, hkind, fun named hnamed => ?_⟩
        obtain ⟨hnames, -, hup, -⟩ := archiveParts_spec hnamed
        rw [names, List.filter_append, ← names, ← names, names_of_proper ws.proper, hnames, List.mem_append, not_or]
        exact ⟨rfl, not_mem_of_proper ws.proper, hup⟩
      · cases hmem
    · cases hmem

/-- An empty workspace beside a file that is no part of it. -/
def besideSecret : Workspace where
  fs path := if path = ["work"] then some .dir else if path = ["secret"] then some (.file []) else none
  root := ["work"]
  proper := by decide
  dirs := by
    intro q hq hne
    obtain rfl : q = ["work"] := by
      rcases q with _ | ⟨part, rest⟩
      · exact absurd rfl hne
      · obtain ⟨rfl, hrest⟩ := List.cons_prefix_cons.mp hq
        rw [List.prefix_nil.mp hrest]
    rfl
  closed := by
    intro path entry hentry above ⟨hne, hbelow, hproper⟩
    have hlength : path.length = 1 := by
      dsimp only at hentry
      split at hentry
      · rename_i hpath
        rw [hpath]
        rfl
      · split at hentry
        · rename_i hpath
          rw [hpath]
          rfl
        · cases hentry
    have hpos := List.length_pos_iff.mpr hne
    exact absurd (hbelow.eq_of_length_le (by omega)) hproper
  empty := by
    intro path hroot hne
    rw [if_neg hne, if_neg]
    rintro rfl
    exact absurd (List.cons_prefix_cons.mp hroot).1 (by decide)

/-- The second archive would write through a link of the first. -/
def throughLinkChain : List ArchiveLayer :=
  [{ checkpointId := "c1", members := some [⟨"d", some .dir⟩, ⟨"l", some (.link "d")⟩], deleted := [] },
    { checkpointId := "c2", members := some [⟨"l/x", some (.file [])⟩], deleted := ["d/x"] }]

theorem restore_confined_throughLink :
    let result := restore ["work"] 10 40 (plainTarfile besideSecret) (.ok throughLinkChain) { fs := besideSecret.fs }
    haltOf result =
        some (.refused "checkpoint c2 writes l/x through a link or a file in the restored tree") ∧
      (diskOf result).changes.length = 3 ∧ (diskOf result).fs ["work", "l"] = none := by
  intro result
  have hhalt : haltOf result =
      some (.refused "checkpoint c2 writes l/x through a link or a file in the restored tree") := by
    decide
  have hempty := (restore_confined besideSecret 10 40 (plainTarfile besideSecret) (.ok throughLinkChain)).2.2.2
  exact ⟨hhalt, by decide, hempty _ hhalt rfl ["work", "l"] ⟨⟨["l"], rfl⟩, by decide⟩⟩

end Layers

end SwarmCloud.Checkpoints.Hostile
