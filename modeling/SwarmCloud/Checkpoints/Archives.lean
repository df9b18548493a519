import SwarmCloud.Checkpoints.Trees

/-! # What an archive holds of a working tree

`CheckpointManager._add_entry`: of the entries of a tree, those whose signature is
not the recorded one become members. A file that cannot be opened, or is shaped
like a browser session, is left out all the same.
-/

namespace SwarmCloud.Checkpoints

open Lib

/-! ## The members of an archive -/

inductive MemberKind
  | dir
  | link (linkname : String)
  | hardLink (linkname : String)
  | file (content : Content)
deriving DecidableEq, Repr

structure Member where
  name : String
  kind : MemberKind
deriving DecidableEq, Repr

def Member.isDir (member : Member) : Bool := member.kind = .dir

def maskedStores : List String := [".claude", ".claude.json", ".codex", ".swarm-handoff"]

/-- `_is_masked_store`. -/
def isMaskedStore (rel : String) : Bool :=
  maskedStores.any fun entry => rel = entry || (entry ++ "/").toList.isPrefixOf rel.toList

/-- What is read into the bytes of a file: `browser_state_kind`, by the file's own name, and `_mask_credentials`. -/
structure Filters where
  browserState : String → Content → Bool
  maskCredentials : Content → Content

/-- The bytes that go into the archive under a name. -/
def Filters.written (filters : Filters) (path : TreePath) (content : Content) : Content :=
  if isMaskedStore path.text then filters.maskCredentials content else content

/-- What a restore makes of the entry, as it is archived. -/
def Entry.written (filters : Filters) (path : TreePath) : Entry → Node
  | dir _ => .dir
  | link linkname => .link (normLinkname linkname)
  | file _ content => .file (filters.written path content)

section Archive

variable (filters : Filters) (previous : Option Index)

/-- The names of the files archived so far, by inode: `tarfile.TarFile.inodes`. -/
abbrev Inodes := Dict Inode TreePath

/-- The first name of a file with several names, where the archive holds it already. -/
def hardLinkTo (inodes : Inodes) (stat : FileStat) : Option TreePath :=
  if 1 < stat.nlink then inodes.lookup stat.inode else none

def register (inodes : Inodes) (stat : FileStat) (path : TreePath) : Inodes :=
  if stat.inode.ino ≠ 0 then inodes.set stat.inode path else inodes

/-- The entry's signature differs from the recorded one. -/
def changed (path : TreePath) (entry : Entry) : Bool :=
  previous.all fun previous => previous.lookup path ≠ some entry.signature

/-- `_add_entry`, writing. -/
def addEntry (inodes : Inodes) (path : TreePath) (entry : Entry) : Option Member × Inodes :=
  if changed previous path entry then
    match entry with
    | .dir _ => (some ⟨path.text, .dir⟩, inodes)
    | .link linkname => (some ⟨path.text, .link linkname⟩, inodes)
    | .file stat content =>
      if !stat.readable then (none, inodes)
      else
        match hardLinkTo inodes stat with
        | some first => (some ⟨path.text, .hardLink first.text⟩, inodes)
        | none =>
          if filters.browserState (path.parts.getLast path.parts_ne_nil) content then
            -- The name that was registered for the file is taken back.
            (none, if stat.inode.ino ≠ 0 then inodes.filter (·.1 ≠ stat.inode) else inodes)
          else (some ⟨path.text, .file (filters.written path content)⟩, register inodes stat path)
  else (none, inodes)

def addEntries : Inodes → List (TreePath × Entry) → List Member
  | _, [] => []
  | inodes, (path, entry) :: rest =>
    match addEntry filters previous inodes path entry with
    | (some member, inodes') => member :: addEntries inodes' rest
    | (none, inodes') => addEntries inodes' rest

/-- `_write_archive`. -/
def writeArchive (tree : WorkTree) : List Member := addEntries filters previous [] tree.walk

/-- The entry is in the archive, under its name. -/
def isArchived (tree : WorkTree) (path : TreePath) : Bool :=
  path.text ∈ (writeArchive filters previous tree).map Member.name

/-- The files that the archive should hold and does not. -/
def leftOut (tree : WorkTree) : List TreePath :=
  ((tree.walk.filter fun entry => changed previous entry.1 entry.2).map Prod.fst).filter fun path =>
    !isArchived filters previous tree path

end Archive

/-! ## What an archive makes -/

/-- A member that makes the node, given the file members before it. -/
inductive Makes (target : Work) (files : List TreePath) : MemberKind → Node → Prop
  | dir : Makes target files .dir .dir
  | link (linkname : String) : Makes target files (.link linkname) (.link (normLinkname linkname))
  | file (content : Content) : Makes target files (.file content) (.file content)
  | hardLink {first : TreePath} {content : Content} (there : target first.parts = some (.file content))
      (known : first ∈ files) : Makes target files (.hardLink first.text) (.file content)

def filesWith (path : TreePath) (kind : MemberKind) (files : List TreePath) : List TreePath :=
  match kind with
  | .file _ => path :: files
  | _ => files

/-- Members that make what the target has at their names, after the file members `files`. -/
inductive Archives (target : Work) : List TreePath → List Member → Prop
  | nil {files : List TreePath} : Archives target files []
  | cons {files : List TreePath} {path : TreePath} {kind : MemberKind} {node : Node} {members : List Member}
      (here : target path.parts = some node) (makes : Makes target files kind node)
      (rest : Archives target (filesWith path kind files) members) : Archives target files (⟨path.text, kind⟩ :: members)

/-- All names of a file are written alike: none is masked unless all are, or masking changes nothing. -/
def WrittenAlike (filters : Filters) (tree : WorkTree) : Prop :=
  ∀ path stat content path' stat', (path, Entry.file stat content) ∈ tree.entries →
    (path', Entry.file stat' content) ∈ tree.entries → stat.inode = stat'.inode →
    filters.written path content = filters.written path' content

/-- Every inode is registered under a file member with that inode, and the target has the file. -/
def Registered (filters : Filters) (tree : WorkTree) (target : Work) (files : List TreePath) (inodes : Inodes) : Prop :=
  ∀ inode first, inodes.lookup inode = some first →
    first ∈ files ∧ ∃ stat content, (first, Entry.file stat content) ∈ tree.entries ∧ stat.inode = inode ∧
      target first.parts = some (.file (filters.written first content))

section Spec

variable {filters : Filters} {previous : Option Index} {tree : WorkTree} {target : Work} {files : List TreePath}
  {inodes : Inodes}

theorem Registered.register (h : Registered filters tree target files inodes) {path : TreePath} {stat : FileStat}
    {content : Content} (hmem : (path, Entry.file stat content) ∈ tree.entries)
    (hhere : target path.parts = some (.file (filters.written path content))) :
    Registered filters tree target (path :: files) (register inodes stat path) := by
  have hearlier : ∀ inode first, inodes.lookup inode = some first →
      first ∈ path :: files ∧ ∃ stat content, (first, Entry.file stat content) ∈ tree.entries ∧ stat.inode = inode ∧
        target first.parts = some (.file (filters.written first content)) := by
    intro inode first hlookup
    obtain ⟨hfiles, hfirst⟩ := h inode first hlookup
    exact ⟨List.mem_cons_of_mem _ hfiles, hfirst⟩
  intro inode first hlookup
  unfold Checkpoints.register at hlookup
  split at hlookup
  · rw [Dict.lookup_set] at hlookup
    split at hlookup
    · rename_i hinode
      rw [Option.some.injEq] at hlookup
      subst hlookup
      exact ⟨List.mem_cons_self, stat, content, hmem, hinode.symm, hhere⟩
    · exact hearlier inode first hlookup
  · exact hearlier inode first hlookup

theorem Registered.filter (h : Registered filters tree target files inodes) (inode : Inode) :
    Registered filters tree target files (inodes.filter (·.1 ≠ inode)) := by
  intro inode' first hlookup
  rw [Dict.lookup_filter_ne] at hlookup
  split at hlookup
  · cases hlookup
  · exact h inode' first hlookup

theorem Registered.hardLinkTo (h : Registered filters tree target files inodes) (halike : WrittenAlike filters tree)
    {path first : TreePath} {stat : FileStat} {content : Content}
    (hmem : (path, Entry.file stat content) ∈ tree.entries) (hfirst : hardLinkTo inodes stat = some first) :
    first ∈ files ∧ target first.parts = some (.file (filters.written path content)) := by
  unfold Checkpoints.hardLinkTo at hfirst
  split at hfirst
  · obtain ⟨hfiles, stat', content', hmem', hinode, hthere⟩ := h _ first hfirst
    have hnode : Node.file content' = Node.file content :=
      tree.names (first, .file stat' content') hmem' (path, .file stat content) hmem stat.inode
        (congrArg some hinode) rfl
    cases hnode
    rw [halike first stat' content path stat hmem' hmem hinode] at hthere
    exact ⟨hfiles, hthere⟩
  · cases hfirst

theorem addEntry_unchanged {path : TreePath} {entry : Entry} (h : changed previous path entry = false) :
    addEntry filters previous inodes path entry = (none, inodes) := by
  unfold addEntry
  rw [if_neg (by simp [h])]

/-- An entry goes in under its name, as what is written of it, or it is a file that is left out. -/
theorem addEntry_cases (halike : WrittenAlike filters tree) (hinodes : Registered filters tree target files inodes)
    {path : TreePath} {entry : Entry} (hmem : (path, entry) ∈ tree.entries)
    (hhere : ∀ kind inodes', addEntry filters previous inodes path entry = (some ⟨path.text, kind⟩, inodes') →
      target path.parts = some (entry.written filters path)) :
    (∃ inodes', addEntry filters previous inodes path entry = (none, inodes') ∧
        Registered filters tree target files inodes') ∨
      ∃ kind inodes', addEntry filters previous inodes path entry = (some ⟨path.text, kind⟩, inodes') ∧
        Makes target files kind (entry.written filters path) ∧
        Registered filters tree target (filesWith path kind files) inodes' := by
  cases hchanged : changed previous path entry with
  | false => exact .inl ⟨inodes, addEntry_unchanged hchanged, hinodes⟩
  | true =>
    cases entry with
    | dir mode =>
      rw [addEntry, if_pos hchanged]
      exact .inr ⟨.dir, inodes, rfl, .dir, hinodes⟩
    | link linkname =>
      rw [addEntry, if_pos hchanged]
      exact .inr ⟨.link linkname, inodes, rfl, .link linkname, hinodes⟩
    | file stat content =>
      rw [addEntry, if_pos hchanged] at hhere ⊢
      cases hreadable : stat.readable with
      | false =>
        rw [hreadable] at hhere
        exact .inl ⟨inodes, rfl, hinodes⟩
      | true =>
        rw [hreadable] at hhere
        cases hfirst : hardLinkTo inodes stat with
        | some first =>
          obtain ⟨hknown, hthere⟩ := hinodes.hardLinkTo halike hmem hfirst
          exact .inr ⟨.hardLink first.text, inodes, rfl, .hardLink hthere hknown, hinodes⟩
        | none =>
          rw [hfirst] at hhere
          cases hbrowser : filters.browserState (path.parts.getLast path.parts_ne_nil) content with
          | true =>
            refine .inl ⟨_, rfl, ?_⟩
            split
            · exact hinodes.filter stat.inode
            · exact hinodes
          | false =>
            rw [hbrowser] at hhere
            exact .inr ⟨.file (filters.written path content), register inodes stat path, rfl, .file _,
              hinodes.register hmem (hhere _ _ rfl)⟩

/-- A member bears the name of its entry, which is a changed one, and the target of its link. -/
theorem addEntry_name {path : TreePath} {entry : Entry} {member : Member} {inodes' : Inodes}
    (h : addEntry filters previous inodes path entry = (some member, inodes')) :
    member.name = path.text ∧ changed previous path entry = true ∧
      ∀ linkname, member.kind = .link linkname → entry = .link linkname := by
  cases hchanged : changed previous path entry with
  | false =>
    rw [addEntry_unchanged hchanged] at h
    cases h
  | true =>
    cases entry with
    | dir mode =>
      rw [addEntry, if_pos hchanged] at h
      cases h
      exact ⟨rfl, rfl, nofun⟩
    | link linkname =>
      rw [addEntry, if_pos hchanged] at h
      cases h
      refine ⟨rfl, rfl, ?_⟩
      rintro _ ⟨⟩
      rfl
    | file stat content =>
      rw [addEntry, if_pos hchanged] at h
      split at h
      · cases h
      split at h
      · cases h
        exact ⟨rfl, rfl, nofun⟩
      split at h
      · cases h
      · cases h
        exact ⟨rfl, rfl, nofun⟩

theorem addEntries_cons (filters : Filters) (previous : Option Index) (inodes : Inodes) (path : TreePath) (entry : Entry)
    (rest : List (TreePath × Entry)) :
    ∃ inodes', addEntries filters previous inodes ((path, entry) :: rest) =
      (addEntry filters previous inodes path entry).1.toList ++ addEntries filters previous inodes' rest ∧
        (addEntry filters previous inodes path entry).2 = inodes' := by
  rw [addEntries]
  cases addEntry filters previous inodes path entry with
  | mk member inodes' =>
    cases member with
    | none => exact ⟨inodes', rfl, rfl⟩
    | some member => exact ⟨inodes', rfl, rfl⟩

theorem names_addEntries (entries : List (TreePath × Entry)) :
    ((addEntries filters previous inodes entries).map Member.name).Sublist
      ((entries.filter fun entry => changed previous entry.1 entry.2).map fun entry => entry.1.text) := by
  induction entries generalizing inodes with
  | nil => exact List.Sublist.refl _
  | cons first rest ih =>
    obtain ⟨path, entry⟩ := first
    obtain ⟨inodes', heq, -⟩ := addEntries_cons filters previous inodes path entry rest
    rw [heq, List.map_append, List.filter_cons]
    cases hmember : addEntry filters previous inodes path entry with
    | mk member inodes'' =>
      cases member with
      | none =>
        split
        · exact List.Sublist.cons _ ih
        · exact ih
      | some member =>
        obtain ⟨hname, hchanged, -⟩ := addEntry_name hmember
        rw [if_pos hchanged, List.map_cons]
        change (member.name :: _).Sublist _
        rw [hname]
        exact ih.cons_cons _

/-- A member is an entry of the walk, and a link with the target that the entry has. -/
theorem mem_addEntries {entries : List (TreePath × Entry)} {member : Member}
    (h : member ∈ addEntries filters previous inodes entries) :
    ∃ path entry, (path, entry) ∈ entries ∧ member.name = path.text ∧
      ∀ linkname, member.kind = .link linkname → entry = .link linkname := by
  induction entries generalizing inodes with
  | nil => cases h
  | cons first rest ih =>
    obtain ⟨path, entry⟩ := first
    obtain ⟨inodes', heq, -⟩ := addEntries_cons filters previous inodes path entry rest
    rw [heq, List.mem_append] at h
    rcases h with hmember | hrest
    · obtain ⟨hname, -, hlink⟩ := addEntry_name (Prod.ext (Option.mem_toList.mp hmember) rfl)
      exact ⟨path, entry, List.mem_cons_self, hname, hlink⟩
    · obtain ⟨path', entry', hmem, hmember⟩ := ih hrest
      exact ⟨path', entry', List.mem_cons_of_mem _ hmem, hmember⟩

theorem archives_addEntries (halike : WrittenAlike filters tree) {entries : List (TreePath × Entry)}
    (hentries : ∀ entry ∈ entries, entry ∈ tree.entries) (hinodes : Registered filters tree target files inodes)
    (htarget : ∀ path entry, (path, entry) ∈ entries →
      path.text ∈ (addEntries filters previous inodes entries).map Member.name →
      target path.parts = some (entry.written filters path)) :
    Archives target files (addEntries filters previous inodes entries) := by
  induction entries generalizing files inodes with
  | nil => exact .nil
  | cons first rest ih =>
    obtain ⟨path, entry⟩ := first
    have hrest : ∀ entry ∈ rest, entry ∈ tree.entries := fun e he => hentries e (List.mem_cons_of_mem _ he)
    obtain ⟨inodes', heq, hinodes'⟩ := addEntries_cons filters previous inodes path entry rest
    rw [heq] at htarget ⊢
    have hlater : ∀ path entry, (path, entry) ∈ rest →
        path.text ∈ (addEntries filters previous inodes' rest).map Member.name →
        target path.parts = some (entry.written filters path) := by
      intro path' entry' hmem hname
      refine htarget path' entry' (List.mem_cons_of_mem _ hmem) ?_
      rw [List.map_append]
      exact List.mem_append_right _ hname
    have hhere : ∀ kind inodes', addEntry filters previous inodes path entry = (some ⟨path.text, kind⟩, inodes') →
        target path.parts = some (entry.written filters path) := by
      intro kind inodes'' hadd
      refine htarget path entry List.mem_cons_self ?_
      rw [hadd]
      simp
    rcases addEntry_cases halike hinodes (hentries _ List.mem_cons_self) hhere with
      ⟨next, hadd, hnext⟩ | ⟨kind, next, hadd, hmakes, hnext⟩
    · rw [hadd] at hinodes' ⊢
      cases hinodes'
      exact ih hrest hnext hlater
    · rw [hadd] at hinodes' ⊢
      cases hinodes'
      exact .cons (hhere kind next hadd) hmakes (ih hrest hnext hlater)

end Spec

/-! ## Whole archives -/

section Whole

variable {filters : Filters} {previous : Option Index} {tree : WorkTree} {target : Work}

theorem isArchived_iff {path : TreePath} :
    isArchived filters previous tree path = true ↔
      path.text ∈ (writeArchive filters previous tree).map Member.name := by
  rw [isArchived, decide_eq_true_iff]

theorem archives_writeArchive (halike : WrittenAlike filters tree)
    (htarget : ∀ path entry, (path, entry) ∈ tree.entries → isArchived filters previous tree path = true →
      target path.parts = some (entry.written filters path)) :
    Archives target [] (writeArchive filters previous tree) := by
  refine archives_addEntries halike (fun _ => WorkTree.mem_walk.mp) (fun _ _ h => nomatch h) ?_
  intro path entry hmem hname
  exact htarget path entry (WorkTree.mem_walk.mp hmem) (isArchived_iff.mpr hname)

theorem changed_of_isArchived {path : TreePath} {entry : Entry} (hmem : (path, entry) ∈ tree.entries)
    (h : isArchived filters previous tree path = true) : changed previous path entry = true := by
  obtain ⟨⟨path', entry'⟩, hentry, htext⟩ :=
    List.mem_map.mp ((names_addEntries tree.walk).subset (isArchived_iff.mp h))
  obtain ⟨hwalk, hchanged⟩ := List.mem_filter.mp hentry
  have hsame : path' = path := TreePath.parts_inj (congrArg segments htext)
  subst hsame
  have hlookup := WorkTree.lookup_walk.mpr hmem
  rw [WorkTree.lookup_walk.mpr (WorkTree.mem_walk.mp hwalk), Option.some.injEq] at hlookup
  rwa [← hlookup]

theorem mem_leftOut_iff {path : TreePath} {entry : Entry} (hmem : (path, entry) ∈ tree.entries) :
    path ∈ leftOut filters previous tree ↔
      changed previous path entry = true ∧ isArchived filters previous tree path = false := by
  constructor
  · intro h
    obtain ⟨hchanged, harchived⟩ := List.mem_filter.mp h
    obtain ⟨⟨path', entry'⟩, hentry, rfl⟩ := List.mem_map.mp hchanged
    obtain ⟨hwalk, hchanged⟩ := List.mem_filter.mp hentry
    have hlookup := WorkTree.lookup_walk.mpr hmem
    rw [WorkTree.lookup_walk.mpr (WorkTree.mem_walk.mp hwalk), Option.some.injEq] at hlookup
    exact ⟨by rwa [← hlookup], by simpa using harchived⟩
  · rintro ⟨hchanged, harchived⟩
    refine List.mem_filter.mpr ⟨List.mem_map.mpr ⟨(path, entry), ?_, rfl⟩, by simp [harchived]⟩
    exact List.mem_filter.mpr ⟨WorkTree.mem_walk.mpr hmem, hchanged⟩

theorem nodup_writeArchive : ((writeArchive filters previous tree).map Member.name).Nodup := by
  have htext : ∀ path path' : TreePath, path.text = path'.text → path = path' :=
    fun path path' h => TreePath.parts_inj (congrArg segments h)
  have hnames : (tree.walk.map fun entry => entry.1.text).Nodup := by
    have hpaths : (tree.walk.map Prod.fst).Nodup := WorkTree.nodup_walk
    have htexts := hpaths.map_on fun path _ path' _ h => htext path path' h
    rwa [List.map_map] at htexts
  exact hnames.sublist ((names_addEntries tree.walk).trans ((List.filter_sublist).map _))

/-- What goes in wherever the walk comes to it is in the archive. -/
theorem isArchived_of_added {path : TreePath} {entry : Entry} (hmem : (path, entry) ∈ tree.entries)
    (hadded : ∀ inodes, ∃ kind, (addEntry filters previous inodes path entry).1 = some ⟨path.text, kind⟩) :
    isArchived filters previous tree path = true := by
  have hnames : ∀ (entries : List (TreePath × Entry)) (inodes : Inodes), (path, entry) ∈ entries →
      path.text ∈ (addEntries filters previous inodes entries).map Member.name := by
    intro entries
    induction entries with
    | nil => exact fun _ h => nomatch h
    | cons first rest ih =>
      intro inodes h
      obtain ⟨inodes', heq, -⟩ := addEntries_cons filters previous inodes first.1 first.2 rest
      rw [heq, List.map_append, List.mem_append]
      rcases List.mem_cons.mp h with rfl | h
      · obtain ⟨kind, hkind⟩ := hadded inodes
        refine .inl ?_
        rw [hkind]
        exact List.mem_cons_self
      · exact .inr (ih inodes' h)
  exact isArchived_iff.mpr (hnames tree.walk [] (WorkTree.mem_walk.mpr hmem))

/-- Directories and links are never left out. -/
theorem isArchived_of_not_file {path : TreePath} {entry : Entry} (hmem : (path, entry) ∈ tree.entries)
    (hchanged : changed previous path entry = true) (hkind : ∀ content, entry.node ≠ .file content) :
    isArchived filters previous tree path = true := by
  refine isArchived_of_added hmem fun inodes => ?_
  cases entry with
  | dir mode =>
    rw [addEntry, if_pos hchanged]
    exact ⟨.dir, rfl⟩
  | link linkname =>
    rw [addEntry, if_pos hchanged]
    exact ⟨.link linkname, rfl⟩
  | file stat content => exact absurd rfl (hkind content)

/-- Nor are files that can be read and are not shaped like a browser session. -/
theorem isArchived_of_readable {path : TreePath} {stat : FileStat} {content : Content}
    (hmem : (path, Entry.file stat content) ∈ tree.entries)
    (hchanged : changed previous path (.file stat content) = true) (hreadable : stat.readable = true)
    (hbrowser : filters.browserState (path.parts.getLast path.parts_ne_nil) content = false) :
    isArchived filters previous tree path = true := by
  refine isArchived_of_added hmem fun inodes => ?_
  rw [addEntry, if_pos hchanged, hreadable, hbrowser]
  cases hardLinkTo inodes stat with
  | some first => exact ⟨.hardLink first.text, rfl⟩
  | none => exact ⟨.file (filters.written path content), rfl⟩

end Whole

end SwarmCloud.Checkpoints
