import SwarmCloud.Checkpoints.Layers

/-! # An incremental archive carries one tree into the next

What is recorded of a tree is its signatures, marked where a file was written too
close to the walk. The deleted paths cover every path that is gone or of another
kind, and the members every path whose signature is new; what neither covers is
the same in both trees.
-/

namespace SwarmCloud.Checkpoints

open Lib PathMap

/-! ## What is recorded of a tree -/

def Signature.marked (racyAfter : Int) : Signature → Signature
  | .file mode size mtime ctime ino racy => .file mode size mtime ctime ino (racy || racyAfter ≤ max mtime ctime)
  | signature => signature

theorem markRacy_eq (racyAfter : Int) (index : Index) :
    markRacy racyAfter index = index.map fun entry => (entry.1, entry.2.marked racyAfter) := by
  refine List.map_congr_left fun entry _ => ?_
  obtain ⟨path, signature⟩ := entry
  cases signature <;> rfl

/-- The index holds the marked signatures of the tree. -/
structure Records (racyAfter : Int) (tree : WorkTree) (index : Index) : Prop where
  nodup : (index.map Prod.fst).Nodup
  lookup : ∀ path, index.lookup path = (tree.index.lookup path).map (Signature.marked racyAfter)

/-- A file has its content still wherever its recorded signature is unmarked and equal. -/
def Settled (racyAfter : Int) (tree tree' : WorkTree) : Prop :=
  ∀ path stat content stat' content', (path, Entry.file stat content) ∈ tree.entries →
    (path, Entry.file stat' content') ∈ tree'.entries →
    (Entry.file stat content).signature.marked racyAfter = (Entry.file stat' content').signature → content = content'

section Records

variable {racyAfter : Int} {tree tree' : WorkTree} {index : Index}

theorem Records.of_mem (h : Records racyAfter tree index) {path : TreePath} {entry : Entry}
    (hmem : (path, entry) ∈ tree.entries) : index.lookup path = some (entry.signature.marked racyAfter) := by
  rw [h.lookup, WorkTree.lookup_index, WorkTree.lookup_walk.mpr hmem]
  rfl

theorem Records.exists_entry (h : Records racyAfter tree index) {path : TreePath} {signature : Signature}
    (hlookup : index.lookup path = some signature) :
    ∃ entry, (path, entry) ∈ tree.entries ∧ entry.signature.marked racyAfter = signature := by
  rw [h.lookup, WorkTree.lookup_index, Option.map_map, Option.map_eq_some_iff] at hlookup
  obtain ⟨entry, hentry, hsignature⟩ := hlookup
  exact ⟨entry, WorkTree.lookup_walk.mp hentry, hsignature⟩

/-- An entry with the recorded signature is the recorded entry. -/
theorem Records.kept (h : Records racyAfter tree index) (hsettled : Settled racyAfter tree tree') {path : TreePath}
    {entry' : Entry} (hmem' : (path, entry') ∈ tree'.entries) (hlookup : index.lookup path = some entry'.signature) :
    ∃ entry, (path, entry) ∈ tree.entries ∧ entry.node = entry'.node := by
  obtain ⟨entry, hmem, hsignature⟩ := h.exists_entry hlookup
  refine ⟨entry, hmem, ?_⟩
  cases entry with
  | dir mode =>
    cases entry' with
    | dir mode' => rfl
    | link linkname' => cases hsignature
    | file stat' content' => cases hsignature
  | link linkname =>
    cases entry' with
    | dir mode' => cases hsignature
    | link linkname' =>
      cases hsignature
      rfl
    | file stat' content' => cases hsignature
  | file stat content =>
    cases entry' with
    | dir mode' => cases hsignature
    | link linkname' => cases hsignature
    | file stat' content' => exact congrArg Node.file (hsettled path stat content stat' content' hmem hmem' hsignature)

/-- Two entries of one kind are both directories, or neither is. -/
theorem sameKind_dir {entry entry' : Entry} (h : (entry.signature.marked racyAfter).sameKind entry'.signature = true) :
    entry.node = .dir ↔ entry'.node = .dir := by
  revert h
  cases entry with
  | dir mode => cases entry' <;> simp [Entry.signature, Signature.marked, Signature.sameKind, Entry.node]
  | link linkname => cases entry' <;> simp [Entry.signature, Signature.marked, Signature.sameKind, Entry.node]
  | file stat content => cases entry' <;> simp [Entry.signature, Signature.marked, Signature.sameKind, Entry.node]

theorem sameKind_of_dirs {entry entry' : Entry} (h : entry.node = .dir) (h' : entry'.node = .dir) :
    (entry.signature.marked racyAfter).sameKind entry'.signature = true := by
  cases entry with
  | dir mode =>
    cases entry' with
    | dir mode' => rfl
    | link linkname' => cases h'
    | file stat' content' => cases h'
  | link linkname => cases h
  | file stat content => cases h

theorem sameKind_of_marked {signature signature' : Signature} (h : signature = signature') :
    signature.sameKind signature' = true := by
  subst h
  cases signature <;> rfl

end Records

/-! ## The deleted paths -/

section Deleted

variable {previous index : Index}

/-- The path is gone, or of another kind. -/
def Gone (previous index : Index) (path : TreePath) : Prop :=
  ∃ signature, (path, signature) ∈ previous ∧ (index.lookup path).any signature.sameKind = false

/-- The loop of `_deleted_since` keeps paths of its list, and one at or above each of them. -/
theorem outermost_spec (paths out : List TreePath) :
    let kept := paths.foldl
      (fun out rel =>
        if (List.range' 1 ((segments rel.text).length - 1)).any fun depth =>
            joined ((segments rel.text).take depth) ∈ out.map TreePath.text then out
        else out ++ [rel])
      out
    (∀ path ∈ out, path ∈ kept) ∧ (∀ path ∈ kept, path ∈ out ∨ path ∈ paths) ∧
      ∀ path ∈ paths, ∃ above ∈ kept, above.parts <+: path.parts := by
  induction paths generalizing out with
  | nil => exact ⟨fun _ h => h, fun _ h => .inl h, by simp⟩
  | cons rel paths ih =>
    rw [List.foldl_cons]
    split
    · rename_i hnamed
      obtain ⟨hout, hkept, hcover⟩ := ih out
      refine ⟨hout, fun path hpath => (hkept path hpath).imp_right (List.mem_cons_of_mem _), ?_⟩
      intro path hpath
      rcases List.mem_cons.mp hpath with rfl | hpath
      · obtain ⟨depth, hdepth, hmem⟩ := List.any_eq_true.mp hnamed
        obtain ⟨above, habove, htext⟩ := List.mem_map.mp (of_decide_eq_true hmem)
        rw [List.mem_range'_1] at hdepth
        have hne : (segments path.text).take depth ≠ [] := by
          rw [← List.length_pos_iff, List.length_take]
          omega
        have hslash : ∀ part ∈ (segments path.text).take depth, '/' ∉ part.toList :=
          fun part hpart => slash_notMem_of_mem_segments (List.mem_of_mem_take hpart)
        refine ⟨above, hout above habove, ?_⟩
        rw [TreePath.parts, htext, segments_joined hne hslash]
        exact List.take_prefix _ _
      · exact hcover path hpath
    · obtain ⟨hout, hkept, hcover⟩ := ih (out ++ [rel])
      refine ⟨fun path hpath => hout path (List.mem_append_left _ hpath), ?_, ?_⟩
      · intro path hpath
        rcases hkept path hpath with hmem | hmem
        · rcases List.mem_append.mp hmem with hmem | hmem
          · exact .inl hmem
          · exact .inr (List.mem_cons.mpr (.inl (List.mem_singleton.mp hmem)))
        · exact .inr (List.mem_cons_of_mem _ hmem)
      · intro path hpath
        rcases List.mem_cons.mp hpath with rfl | hpath
        · exact ⟨path, hout path (by simp), List.prefix_rfl⟩
        · exact hcover path hpath

theorem mem_gonePaths {path : TreePath} : path ∈ gonePaths previous index ↔ Gone previous index path := by
  constructor
  · intro h
    obtain ⟨⟨path', signature⟩, hmem, rfl⟩ := List.mem_map.mp h
    obtain ⟨hmem, hgone⟩ := List.mem_filter.mp hmem
    exact ⟨signature, hmem, by simpa using hgone⟩
  · rintro ⟨signature, hmem, hgone⟩
    exact List.mem_map.mpr ⟨(path, signature), List.mem_filter.mpr ⟨hmem, by simp [hgone]⟩, rfl⟩

theorem gone_of_mem_deletedSince {path : TreePath} (h : path ∈ deletedSince previous index) :
    Gone previous index path := by
  obtain ⟨-, hkept, -⟩ := outermost_spec (sortBy TreePath.text (gonePaths previous index)) []
  rcases hkept path h with hmem | hmem
  · cases hmem
  · exact mem_gonePaths.mp (mem_sortBy.mp hmem)

theorem deletedSince_covers {path : TreePath} (h : Gone previous index path) :
    ∃ above ∈ deletedSince previous index, above.parts <+: path.parts := by
  obtain ⟨-, -, hcover⟩ := outermost_spec (sortBy TreePath.text (gonePaths previous index)) []
  exact hcover path (mem_sortBy.mpr (mem_gonePaths.mpr h))

end Deleted

/-! ## What a layer leaves and makes -/

section Layer

variable {host : Host} {filters : Filters} {racyAfter : Int} {tree tree' : WorkTree} {work : Work} {strict : Prop}

theorem written_of_not_file {path : TreePath} {entry : Entry} (h : ∀ content, entry.node ≠ .file content) :
    entry.written filters path = entry.node := by
  cases entry with
  | dir mode => rfl
  | link linkname => rfl
  | file stat content => exact absurd rfl (h content)

theorem written_of_node {path : TreePath} {entry entry' : Entry} (h : entry.node = entry'.node) :
    entry.written filters path = entry'.written filters path := by
  cases entry with
  | dir mode =>
    cases entry' with
    | dir mode' => rfl
    | link linkname' => cases h
    | file stat' content' => cases h
  | link linkname =>
    cases entry' with
    | dir mode' => cases h
    | link linkname' => exact h
    | file stat' content' => cases h
  | file stat content =>
    cases entry' with
    | dir mode' => cases h
    | link linkname' => cases h
    | file stat' content' =>
      cases h
      rfl

/-- What stands is of the tree, and has every directory and every link of it. -/
structure Restores (filters : Filters) (work : Work) (tree : WorkTree) : Prop where
  part : ∀ parts node, work parts = some node →
    ∃ path entry, (path, entry) ∈ tree.entries ∧ path.parts = parts ∧ entry.written filters path = node
  whole : ∀ path entry, (path, entry) ∈ tree.entries → (∀ content, entry.node ≠ .file content) →
    work path.parts = some entry.node

theorem Restores.closed (h : Restores filters work tree) : Closed Node.dir work := by
  intro parts node hnode above habove
  obtain ⟨path, entry, hmem, rfl, -⟩ := h.part parts node hnode
  obtain ⟨p, e, he, rfl, hdir⟩ := WorkTree.nodes_eq_some_iff.mp
    (WorkTree.closed _ _ (WorkTree.nodes_of_mem hmem) above habove)
  rw [h.whole p e he (by rw [hdir]; simp), hdir]

theorem Restores.of_mem (h : Restores filters work tree) {path : TreePath} {entry : Entry}
    (hmem : (path, entry) ∈ tree.entries) {node : Node} (hnode : work path.parts = some node) :
    entry.written filters path = node := by
  obtain ⟨path', entry', hmem', hparts, hwritten⟩ := h.part _ node hnode
  cases TreePath.parts_inj hparts
  have hentry := WorkTree.lookup_walk.mpr hmem
  rw [WorkTree.lookup_walk.mpr hmem', Option.some.injEq] at hentry
  rwa [← hentry]

/-- What stands after a layer: of the changed entries what the archive holds, of the others what stood before. -/
def afterLayer (filters : Filters) (previous : Option Index) (tree : WorkTree) (work : Work) : Work := fun parts =>
  (tree.entryAt parts).bind fun entry =>
    if changed previous entry.1 entry.2 then
      if isArchived filters previous tree entry.1 then some (entry.2.written filters entry.1) else none
    else work parts

theorem afterLayer_of_mem {previous : Option Index} {path : TreePath} {entry : Entry}
    (hmem : (path, entry) ∈ tree.entries) :
    afterLayer filters previous tree work path.parts =
      if changed previous path entry then
        if isArchived filters previous tree path then some (entry.written filters path) else none
      else work path.parts := by
  rw [afterLayer, WorkTree.entryAt_of_mem hmem]
  rfl

theorem exists_of_afterLayer {previous : Option Index} {parts : List String} {node : Node}
    (h : afterLayer filters previous tree work parts = some node) :
    ∃ path entry, (path, entry) ∈ tree.entries ∧ path.parts = parts := by
  obtain ⟨⟨path, entry⟩, hentry, -⟩ := Option.bind_eq_some_iff.mp h
  exact ⟨path, entry, WorkTree.mem_of_entryAt hentry⟩

theorem afterLayer_of_isArchived {previous : Option Index} {path : TreePath} {entry : Entry}
    (hmem : (path, entry) ∈ tree.entries) (h : isArchived filters previous tree path = true) :
    afterLayer filters previous tree work path.parts = some (entry.written filters path) := by
  rw [afterLayer_of_mem hmem, if_pos (changed_of_isArchived hmem h), if_pos h]

theorem exists_of_mem_leftOut {previous : Option Index} {path : TreePath} (h : path ∈ leftOut filters previous tree) :
    ∃ entry, (path, entry) ∈ tree.entries := by
  obtain ⟨hchanged, -⟩ := List.mem_filter.mp h
  obtain ⟨⟨path', entry⟩, hentry, rfl⟩ := List.mem_map.mp hchanged
  exact ⟨entry, WorkTree.mem_walk.mp (List.mem_filter.mp hentry).1⟩

theorem afterLayer_of_mem_leftOut {previous : Option Index} {path : TreePath}
    (h : path ∈ leftOut filters previous tree) : afterLayer filters previous tree work path.parts = none := by
  obtain ⟨entry, hmem⟩ := exists_of_mem_leftOut h
  obtain ⟨hchanged, harchived⟩ := (mem_leftOut_iff hmem).mp h
  rw [afterLayer_of_mem hmem, if_pos hchanged, if_neg (by simp [harchived])]

/-- A full archive does not look at what stood before. -/
theorem afterLayer_none : afterLayer filters none tree work = afterLayer filters none tree PathMap.empty := rfl

theorem restores_afterLayer {previous : Option Index}
    (hkept : ∀ path entry, (path, entry) ∈ tree.entries → changed previous path entry = false →
      (∀ node, work path.parts = some node → entry.written filters path = node) ∧
        ((∀ content, entry.node ≠ .file content) → work path.parts = some entry.node)) :
    Restores filters (afterLayer filters previous tree work) tree := by
  constructor
  · intro parts node hnode
    obtain ⟨path, entry, hmem, rfl⟩ := exists_of_afterLayer hnode
    refine ⟨path, entry, hmem, rfl, ?_⟩
    rw [afterLayer_of_mem hmem] at hnode
    split at hnode
    · split at hnode
      · exact Option.some.inj hnode
      · cases hnode
    · rename_i hchanged
      exact (hkept path entry hmem (Bool.eq_false_iff.mpr hchanged)).1 node hnode
  · intro path entry hmem hkind
    rw [afterLayer_of_mem hmem]
    split
    · rename_i hchanged
      rw [if_pos (isArchived_of_not_file hmem hchanged hkind), written_of_not_file hkind]
    · rename_i hchanged
      exact (hkept path entry hmem (Bool.eq_false_iff.mpr hchanged)).2 hkind

/-- Extraction over what the layer leaves. -/
theorem extract_gives (id : String) {archived : Option Index} {target room : Work} (halike : WrittenAlike filters tree)
    (hinside : strict → LinksInside host (writeArchive filters archived tree) target) (hclosed : Closed Node.dir target)
    (hmade : ∀ path entry, (path, entry) ∈ tree.entries → isArchived filters archived tree path = true →
      target path.parts = some (entry.written filters path))
    (hwithin : Within strict room target)
    (hfree : ∀ member ∈ acceptedOf (writeArchive filters archived tree), member.isDir = false →
      room (segments member.name) = none)
    (hkept : ∀ path entry, (path, entry) ∈ tree.entries → isArchived filters archived tree path = false →
      ∀ node, target path.parts = some node → (strict ∨ ∀ linkname, node ≠ .link linkname) →
      room path.parts = some node)
    (hall : ∀ parts node, target parts = some node → ∃ path entry, (path, entry) ∈ tree.entries ∧ path.parts = parts) :
    Gives strict ((withParts (acceptedOf (writeArchive filters archived tree))).foldlM (extractOne host id) room)
      target := by
  have harchive := archives_writeArchive halike hmade
  have hstands : strict → ∀ parts node, target parts = some node → node ≠ .dir →
      parts ∉ (acceptedOf (writeArchive filters archived tree)).map (fun member => segments member.name) →
      room parts = some node := by
    intro hstrict parts node hnode _ hnot
    rw [(hinside hstrict).acceptedOf_eq] at hnot
    obtain ⟨path, entry, hmem, rfl⟩ := hall parts node hnode
    refine hkept path entry hmem (Bool.eq_false_iff.mpr fun harchived => hnot ?_) node hnode (.inl hstrict)
    obtain ⟨member, hmember, hname⟩ := List.mem_map.mp (isArchived_iff.mp harchived)
    exact List.mem_map.mpr ⟨member, hmember, congrArg segments hname⟩
  have hinner : strict → LinksInside host (acceptedOf (writeArchive filters archived tree)) target := fun hstrict => by
    rw [(hinside hstrict).acceptedOf_eq]
    exact hinside hstrict
  rcases harchive.accepted.extract id hinner hclosed ⟨hwithin, by simp, hfree, hstands⟩
    (nodup_acceptedOf nodup_writeArchive) with ⟨hloose, stop, hstop⟩ | ⟨made, hrun, hfrom, hto, hmembers⟩
  · rw [hstop]
    exact hloose
  rw [hrun]
  refine hto.upToLinks fun parts node hnode hstrict => ?_
  obtain ⟨path, entry, hmem, rfl⟩ := hall parts node hnode
  cases harchived : isArchived filters archived tree path with
  | false => exact hfrom _ _ (hkept path entry hmem harchived node hnode hstrict)
  | true =>
    obtain ⟨member, hmember, hname⟩ := List.mem_map.mp (isArchived_iff.mp harchived)
    have hstays : leavesByText member = false := by
      rcases hstrict with hstrict | hlink
      · exact (hinside hstrict).stays hmember
      · obtain ⟨path', node', hname', hnode', -, hlinkname⟩ := harchive.mem hmember
        cases TreePath.parts_inj (congrArg segments (hname'.symm.trans hname))
        rw [hnode, Option.some.injEq] at hnode'
        subst hnode'
        unfold leavesByText
        split
        · rename_i linkname hkind
          exact absurd (hlinkname linkname hkind) (hlink _)
        · rfl
    have hthere := hmembers member (mem_acceptedOf hmember hstays)
    rw [hname, show target (segments path.text) = some node from hnode] at hthere
    refine hthere (hstrict.imp_right fun hlink linkname heq => hlink linkname (Option.some.inj heq))

/-- A layer whose members are accepted, once room is made for them. -/
theorem applyLayer_gives {id : String} {members : List Member} {deleted : List String} {incremental : Bool}
    {room target : Work} (hsafe : safeMembers members = .ok (withParts (acceptedOf members)))
    (hroom : (if incremental then makeRoom id deleted (withParts (acceptedOf members)) work else .ok work) = .ok room)
    (hinside : strict → LinksInside host members target)
    (hextract : Gives strict ((withParts (acceptedOf members)).foldlM (extractOne host id) room) target) :
    Gives strict (applyLayer host id members deleted incremental work) target := by
  have hlayer : applyLayer host id members deleted incremental work =
      ((withParts (acceptedOf members)).foldlM (extractOne host id) room >>= fun made =>
        .ok (unmakeEscapedLinks host made (withParts (acceptedOf members)))) := by
    rw [applyLayer, hsafe]
    change ((if incremental then makeRoom id deleted (withParts (acceptedOf members)) work else .ok work :
      Except Stop Work) >>= _) = _
    rw [hroom]
    rfl
  rw [hlayer]
  cases hrun : (withParts (acceptedOf members)).foldlM (extractOne host id) room with
  | error stop =>
    rw [hrun] at hextract
    exact hextract
  | ok made =>
    rw [hrun] at hextract
    refine unmakeEscapedLinks_spec (fun hstrict entry hentry linkname hkind => ?_) hextract
    obtain ⟨member, hmember, rfl⟩ := List.mem_map.mp hentry
    exact (hinside hstrict).atLast member (List.mem_filter.mp hmember).1 linkname hkind

/-- A full layer, into an empty directory. -/
theorem applyLayer_full (id : String) (deleted : List String) (halike : WrittenAlike filters tree)
    (hinside : strict →
      LinksInside host (writeArchive filters none tree) (afterLayer filters none tree PathMap.empty)) :
    Gives strict (applyLayer host id (writeArchive filters none tree) deleted false PathMap.empty)
      (afterLayer filters none tree PathMap.empty) := by
  have hrestores : Restores filters (afterLayer filters none tree PathMap.empty) tree :=
    restores_afterLayer fun _ _ _ hchanged => nomatch hchanged
  have hmade : ∀ path entry, (path, entry) ∈ tree.entries → isArchived filters none tree path = true →
      afterLayer filters none tree PathMap.empty path.parts = some (entry.written filters path) :=
    fun _ _ hmem => afterLayer_of_isArchived hmem
  have hkept : ∀ path entry, (path, entry) ∈ tree.entries → isArchived filters none tree path = false →
      ∀ node, afterLayer filters none tree PathMap.empty path.parts = some node →
      (strict ∨ ∀ linkname, node ≠ .link linkname) → (PathMap.empty : Work) path.parts = some node := by
    intro path entry hmem harchived node hnode
    rw [afterLayer_of_mem hmem, if_pos (show changed none path entry = true from rfl), if_neg (by simp [harchived])]
      at hnode
    cases hnode
  have hextract := extract_gives id halike hinside hrestores.closed hmade (within_of_partOf PartOf.empty)
    (fun _ _ _ => rfl) hkept fun _ _ => exists_of_afterLayer
  have hsafe := (archives_writeArchive halike hmade).safeMembers_eq hrestores.closed nodup_writeArchive
  exact applyLayer_gives hsafe rfl hinside hextract

end Layer

/-! ## One layer onto another -/

section Incremental

variable {host : Host} {filters : Filters} {racyAfter : Int} {tree tree' : WorkTree} {previous : Index}
  {held work : Work} {strict : Prop}

/-- What stood before, without what the layer names deleted. -/
def withoutDeleted (previous : Index) (tree' : WorkTree) (work : Work) : Work :=
  ((deletedSince previous tree'.index).map TreePath.parts).foldl removeBelow work

/-- And without what the members take the place of. -/
def cleared (filters : Filters) (previous : Index) (tree' : WorkTree) (work : Work) : Work :=
  (replaced (acceptedOf (writeArchive filters (some previous) tree'))).foldl removeBelow
    (withoutDeleted previous tree' work)

/-- No file is left out of the layer that the layers below hold. -/
def NoneStale (filters : Filters) (previous : Index) (tree' : WorkTree) (held : Work) : Prop :=
  ∀ path ∈ leftOut filters (some previous) tree', ∀ content, held path.parts ≠ some (.file content)

theorem withoutDeleted_eq_some {parts : List String} {node : Node} :
    withoutDeleted previous tree' work parts = some node ↔
      (∀ path ∈ deletedSince previous tree'.index, ¬ path.parts <+: parts) ∧ work parts = some node := by
  rw [withoutDeleted, foldl_removeBelow_eq_some]
  simp

/-- What is not deleted is in the new tree, of the same kind. -/
theorem kind_of_not_deleted (hrecords : Records racyAfter tree previous) {path : TreePath} {entry : Entry}
    (hmem : (path, entry) ∈ tree.entries)
    (hkeep : ∀ path' ∈ deletedSince previous tree'.index, ¬ path'.parts <+: path.parts) :
    ∃ entry', (path, entry') ∈ tree'.entries ∧
      (entry.signature.marked racyAfter).sameKind entry'.signature = true := by
  have hrecorded := Dict.mem_of_lookup (hrecords.of_mem hmem)
  cases hany : (tree'.index.lookup path).any (entry.signature.marked racyAfter).sameKind with
  | false =>
    obtain ⟨above, habove, hprefix⟩ := deletedSince_covers ⟨_, hrecorded, hany⟩
    exact absurd hprefix (hkeep above habove)
  | true =>
    obtain ⟨signature', hlookup, hkind⟩ := (Option.any_eq_true _ _).mp hany
    rw [WorkTree.lookup_index, Option.map_eq_some_iff] at hlookup
    obtain ⟨entry', hentry', rfl⟩ := hlookup
    exact ⟨entry', WorkTree.lookup_walk.mp hentry', hkind⟩

/-- What is in both trees, of the same kind, is not deleted. -/
theorem not_deleted (hrecords : Records racyAfter tree previous) {path : TreePath} {entry entry' : Entry}
    (hmem : (path, entry) ∈ tree.entries) (hmem' : (path, entry') ∈ tree'.entries)
    (hkind : (entry.signature.marked racyAfter).sameKind entry'.signature = true) :
    ∀ path' ∈ deletedSince previous tree'.index, ¬ path'.parts <+: path.parts := by
  intro above hdeleted hprefix
  obtain ⟨signature, hrecorded, hgone⟩ := gone_of_mem_deletedSince hdeleted
  have hlookup := Dict.lookup_of_mem hrecords.nodup hrecorded
  -- The path above is in both trees, of the same kind too.
  obtain ⟨e, e', he, he', hsame⟩ : ∃ e e', (above, e) ∈ tree.entries ∧ (above, e') ∈ tree'.entries ∧
      (e.signature.marked racyAfter).sameKind e'.signature = true := by
    rcases eq_or_above above.parts_ne_nil hprefix with heq | habove
    · cases TreePath.parts_inj heq
      exact ⟨entry, entry', hmem, hmem', hkind⟩
    · obtain ⟨p, e, he, hp, hdir⟩ := WorkTree.nodes_eq_some_iff.mp
        (WorkTree.closed _ _ (WorkTree.nodes_of_mem hmem) _ habove)
      obtain ⟨p', e', he', hp', hdir'⟩ := WorkTree.nodes_eq_some_iff.mp
        (WorkTree.closed _ _ (WorkTree.nodes_of_mem hmem') _ habove)
      cases TreePath.parts_inj hp
      cases TreePath.parts_inj hp'
      exact ⟨e, e', he, he', sameKind_of_dirs hdir hdir'⟩
  rw [hrecords.of_mem he, Option.some.injEq] at hlookup
  rw [WorkTree.lookup_index, WorkTree.lookup_walk.mpr he', Option.map_some, Option.any_some, ← hlookup, hsame] at hgone
  cases hgone

/-- What stands is an entry of the recorded tree, or another link than the tree has there. -/
theorem exists_entry_of_upToLinks (hrestores : Restores filters held tree) (hwork : UpToLinks strict work held)
    {parts : List String} {node : Node} (hnode : work parts = some node) :
    ∃ path entry, (path, entry) ∈ tree.entries ∧ path.parts = parts ∧
      (held parts = some node ∧ entry.written filters path = node ∨
        ¬ strict ∧ (∃ linkname, entry = .link linkname) ∧ ∃ linkname, node = .link linkname) := by
  rcases hwork.within parts node hnode with hsame | ⟨hloose, linkname, linkname', hlink, hother⟩
  · obtain ⟨path, entry, hmem, hparts, hwritten⟩ := hrestores.part parts node hsame
    exact ⟨path, entry, hmem, hparts, .inl ⟨hsame, hwritten⟩⟩
  · obtain ⟨path, entry, hmem, hparts, hwritten⟩ := hrestores.part parts _ hother
    refine ⟨path, entry, hmem, hparts, .inr ⟨hloose, ?_, linkname, hlink⟩⟩
    cases entry with
    | dir mode => cases hwritten
    | link linkname'' => exact ⟨linkname'', rfl⟩
    | file stat content => cases hwritten

/-- Where a directory of the new tree goes, there is a directory or nothing. -/
theorem dir_of_withoutDeleted (hrestores : Restores filters held tree) (hwork : UpToLinks strict work held)
    (hrecords : Records racyAfter tree previous) {parts : List String} (hdir : tree'.nodes parts = some .dir) :
    withoutDeleted previous tree' work parts = none ∨ withoutDeleted previous tree' work parts = some .dir := by
  cases hnode : withoutDeleted previous tree' work parts with
  | none => exact .inl rfl
  | some node =>
    obtain ⟨hkeep, hbefore⟩ := withoutDeleted_eq_some.mp hnode
    obtain ⟨path, entry, hmem, rfl, hentry⟩ := exists_entry_of_upToLinks hrestores hwork hbefore
    obtain ⟨entry', hmem', hkind⟩ := kind_of_not_deleted hrecords hmem hkeep
    rw [WorkTree.nodes_of_mem hmem', Option.some.injEq] at hdir
    have hdir' := (sameKind_dir hkind).mpr hdir
    rcases hentry with ⟨-, rfl⟩ | ⟨-, ⟨linkname, rfl⟩, -⟩
    · rw [written_of_not_file (by rw [hdir']; simp), hdir']
      exact .inr rfl
    · cases hdir'

theorem kept_of_unchanged (hrestores : Restores filters held tree) (hrecords : Records racyAfter tree previous)
    (hsettled : Settled racyAfter tree tree') {path : TreePath} {entry' : Entry}
    (hmem' : (path, entry') ∈ tree'.entries) (hchanged : changed (some previous) path entry' = false) :
    (∀ node, held path.parts = some node → entry'.written filters path = node) ∧
      ((∀ content, entry'.node ≠ .file content) → held path.parts = some entry'.node) := by
  have hlookup : previous.lookup path = some entry'.signature := by simpa [changed] using hchanged
  obtain ⟨entry, hmem, hsame⟩ := hrecords.kept hsettled hmem' hlookup
  constructor
  · intro node hnode
    rw [← written_of_node hsame]
    exact hrestores.of_mem hmem hnode
  · intro hkind
    rw [← hsame] at hkind ⊢
    exact hrestores.whole path entry hmem hkind

section Archived

variable (halike : WrittenAlike filters tree')
include halike

/-- A member is the entry of its name, and the layer makes what is written of it. -/
theorem exists_entry_of_member {member : Member} (hmember : member ∈ writeArchive filters (some previous) tree') :
    ∃ path entry, (path, entry) ∈ tree'.entries ∧ member.name = path.text ∧
      isArchived filters (some previous) tree' path = true ∧ (member.isDir = true ↔ entry.node = .dir) ∧
      ∀ linkname, member.kind = .link linkname → entry = .link linkname := by
  have harchive : Archives (afterLayer filters (some previous) tree' PathMap.empty) []
      (writeArchive filters (some previous) tree') :=
    archives_writeArchive halike fun _ _ hmem => afterLayer_of_isArchived hmem
  obtain ⟨path, node, hname, hnode, hdir, -⟩ := harchive.mem hmember
  obtain ⟨path', entry, hwalk, hname', hlink⟩ := mem_addEntries hmember
  have hmem := WorkTree.mem_walk.mp hwalk
  cases TreePath.parts_inj (congrArg segments (hname'.symm.trans hname))
  have harchived : isArchived filters (some previous) tree' path = true :=
    isArchived_iff.mpr (List.mem_map.mpr ⟨member, hmember, hname⟩)
  rw [afterLayer_of_isArchived hmem harchived, Option.some.injEq] at hnode
  subst hnode
  refine ⟨path, entry, hmem, hname, harchived, ?_, hlink⟩
  rw [hdir]
  cases entry <;> simp [Entry.written, Entry.node]

theorem of_mem_replaced {place : List String}
    (h : place ∈ replaced (acceptedOf (writeArchive filters (some previous) tree'))) :
    ∃ path entry, (path, entry) ∈ tree'.entries ∧ path.parts = place ∧
      isArchived filters (some previous) tree' path = true ∧ entry.node ≠ .dir := by
  obtain ⟨member, hmember, rfl⟩ := List.mem_map.mp h
  obtain ⟨hmember, hkind⟩ := List.mem_filter.mp hmember
  obtain ⟨path, entry, hmem, hname, harchived, hdir, -⟩ :=
    exists_entry_of_member halike (List.mem_filter.mp hmember).1
  refine ⟨path, entry, hmem, congrArg segments hname.symm, harchived, fun hnode => ?_⟩
  rw [hdir.mpr hnode] at hkind
  cases hkind

theorem mem_replaced {path : TreePath} {entry : Entry} (hmem : (path, entry) ∈ tree'.entries)
    (harchived : isArchived filters (some previous) tree' path = true) (hdir : entry.node ≠ .dir)
    (hstays : (∃ linkname, entry = .link linkname) →
      ∀ member ∈ writeArchive filters (some previous) tree', leavesByText member = false) :
    path.parts ∈ replaced (acceptedOf (writeArchive filters (some previous) tree')) := by
  obtain ⟨member, hmember, htext⟩ := List.mem_map.mp (isArchived_iff.mp harchived)
  obtain ⟨path', entry', hmem', hname, -, hkind, hlink⟩ := exists_entry_of_member halike hmember
  cases TreePath.parts_inj (congrArg segments (hname.symm.trans htext))
  have hentry := WorkTree.lookup_walk.mpr hmem
  rw [WorkTree.lookup_walk.mpr hmem', Option.some.injEq] at hentry
  subst hentry
  have haccepted : leavesByText member = false := by
    cases hcase : member.kind with
    | link linkname => exact hstays ⟨linkname, hlink linkname hcase⟩ member hmember
    | dir => rw [leavesByText, hcase]
    | hardLink linkname => rw [leavesByText, hcase]
    | file content => rw [leavesByText, hcase]
  refine List.mem_map.mpr ⟨member, List.mem_filter.mpr ⟨mem_acceptedOf hmember haccepted, ?_⟩, congrArg segments htext⟩
  cases hcase : member.isDir with
  | false => rfl
  | true => exact absurd (hkind.mp hcase) hdir

/-- What is left once the layer has made room stands in the end, up to links. -/
theorem within_cleared
    (hinside : strict → LinksInside host (writeArchive filters (some previous) tree')
      (afterLayer filters (some previous) tree' held))
    (hrestores : Restores filters held tree)
    (hwork : UpToLinks strict work held) (hrecords : Records racyAfter tree previous)
    (hafter : Restores filters (afterLayer filters (some previous) tree' held) tree')
    (hstale : NoneStale filters previous tree' held) :
    Within strict (cleared filters previous tree' work) (afterLayer filters (some previous) tree' held) := by
  intro parts node hnode
  obtain ⟨hfree, hleft⟩ := foldl_removeBelow_eq_some.mp hnode
  obtain ⟨hkeep, hbefore⟩ := withoutDeleted_eq_some.mp hleft
  obtain ⟨path, entry, hmem, rfl, hentry⟩ := exists_entry_of_upToLinks hrestores hwork hbefore
  obtain ⟨entry', hmem', hkind⟩ := kind_of_not_deleted hrecords hmem hkeep
  cases entry' with
  | dir mode' =>
    have hdir : entry.node = .dir := (sameKind_dir hkind).mpr rfl
    refine .inl ((hafter.whole path _ hmem' (by simp [Entry.node])).trans (congrArg some ?_))
    rcases hentry with ⟨-, rfl⟩ | ⟨-, ⟨linkname, rfl⟩, -⟩
    · rw [written_of_not_file (by rw [hdir]; simp), hdir]
      rfl
    · cases hdir
  | link linkname' =>
    have hlink := hafter.whole path _ hmem' (by simp [Entry.node])
    have hother : ∃ linkname, node = .link linkname := by
      rcases hentry with ⟨-, rfl⟩ | ⟨-, -, hother⟩
      · cases entry with
        | dir mode => cases hkind
        | link linkname => exact ⟨normLinkname linkname, rfl⟩
        | file stat content => cases hkind
      · exact hother
    obtain ⟨linkname, rfl⟩ := hother
    by_cases hstrict : strict
    · -- A strict link that changed is replaced, so this one is as it was.
      have hsame : afterLayer filters (some previous) tree' held path.parts = held path.parts := by
        rw [afterLayer_of_mem hmem']
        split
        · rename_i hchanged
          exact absurd List.prefix_rfl (hfree path.parts (mem_replaced halike hmem'
            (isArchived_of_not_file hmem' hchanged (by simp [Entry.node])) (by simp [Entry.node])
            fun _ _ => (hinside hstrict).stays))
        · rfl
      exact .inl (by rw [hsame, ← hwork.eq hstrict, hbefore])
    · exact .inr ⟨hstrict, linkname, _, rfl, hlink⟩
  | file stat' content' =>
    have hheld : held path.parts = some node ∧ ∃ content, node = .file content := by
      rcases hentry with ⟨hheld, rfl⟩ | ⟨-, ⟨linkname, rfl⟩, -⟩
      · cases entry with
        | dir mode => cases hkind
        | link linkname => cases hkind
        | file stat content => exact ⟨hheld, _, rfl⟩
      · cases hkind
    obtain ⟨hheld, content, rfl⟩ := hheld
    refine .inl ?_
    rw [afterLayer_of_mem hmem']
    split
    · rename_i hchanged
      exfalso
      cases harchived : isArchived filters (some previous) tree' path with
      | true =>
        exact hfree path.parts (mem_replaced halike hmem' harchived (by simp [Entry.node]) (by simp)) List.prefix_rfl
      | false => exact hstale path ((mem_leftOut_iff hmem').mpr ⟨hchanged, harchived⟩) _ hheld
    · exact hheld

/-- What the layer does not hold is left. -/
theorem cleared_of_not_archived (hrecords : Records racyAfter tree previous) (hsettled : Settled racyAfter tree tree')
    (hwork : UpToLinks strict work held) {path : TreePath} {entry' : Entry} (hmem' : (path, entry') ∈ tree'.entries)
    (harchived : isArchived filters (some previous) tree' path = false) {node : Node}
    (hnode : afterLayer filters (some previous) tree' held path.parts = some node)
    (hstrict : strict ∨ ∀ linkname, node ≠ .link linkname) :
    cleared filters previous tree' work path.parts = some node := by
  rw [afterLayer_of_mem hmem', if_neg (show ¬ isArchived filters (some previous) tree' path = true by simp [harchived])]
    at hnode
  split at hnode
  · cases hnode
  rename_i hchanged
  have hlookup : previous.lookup path = some entry'.signature := by
    simpa [changed] using Bool.eq_false_iff.mpr hchanged
  obtain ⟨entry, hmem, -⟩ := hrecords.kept hsettled hmem' hlookup
  rw [hrecords.of_mem hmem, Option.some.injEq] at hlookup
  have hstands : work path.parts = some node := by
    rcases hstrict with hstrict | hlink
    · rw [hwork.eq hstrict, hnode]
    · rw [hwork.eq_at (fun linkname heq => hlink linkname (Option.some.inj (hnode.symm.trans heq))), hnode]
  -- Nothing above the path, and not the path itself, is replaced or deleted.
  refine foldl_removeBelow_eq_some.mpr ⟨?_, withoutDeleted_eq_some.mpr
    ⟨not_deleted hrecords hmem hmem' (sameKind_of_marked hlookup), hstands⟩⟩
  intro place hplace hprefix
  obtain ⟨path', e, he, rfl, hin, hnodir⟩ := of_mem_replaced halike hplace
  rcases eq_or_above path'.parts_ne_nil hprefix with heq | habove
  · cases TreePath.parts_inj heq
    rw [harchived] at hin
    cases hin
  · have hdir := WorkTree.closed _ _ (WorkTree.nodes_of_mem hmem') _ habove
    rw [WorkTree.nodes_of_mem he, Option.some.injEq] at hdir
    exact hnodir hdir

/-- The layer makes room on the layers below. -/
theorem makeRoom_eq (id : String) (hrestores : Restores filters held tree) (hwork : UpToLinks strict work held)
    (hrecords : Records racyAfter tree previous) :
    makeRoom id ((deletedSince previous tree'.index).map TreePath.text)
      (withParts (acceptedOf (writeArchive filters (some previous) tree'))) work =
        .ok (cleared filters previous tree' work) := by
  have hclosed := hwork.closed hrestores.closed
  have harchive : Archives (afterLayer filters (some previous) tree' PathMap.empty) []
      (writeArchive filters (some previous) tree') :=
    archives_writeArchive halike fun _ _ hmem => afterLayer_of_isArchived hmem
  have hdeleted : ∀ path ∈ deletedSince previous tree'.index, Passable work path.parts := by
    intro path hpath above habove
    obtain ⟨signature, hrecorded, -⟩ := gone_of_mem_deletedSince hpath
    obtain ⟨entry, hmem, -⟩ := hrecords.exists_entry (Dict.lookup_of_mem hrecords.nodup hrecorded)
    obtain ⟨p, e, he, rfl, hdir⟩ := WorkTree.nodes_eq_some_iff.mp
      (WorkTree.closed _ _ (WorkTree.nodes_of_mem hmem) above habove)
    have hheld : held p.parts = some .dir := by rw [hrestores.whole p e he (by rw [hdir]; simp), hdir]
    rw [hwork.eq_at (by simp [hheld]), hheld]
    exact .inr rfl
  have hway : ∀ member ∈ acceptedOf (writeArchive filters (some previous) tree'),
      Passable (withoutDeleted previous tree' work) (segments member.name) := by
    intro member hmember above habove
    obtain ⟨path, entry, hmem, hname, -⟩ := exists_entry_of_member halike (List.mem_filter.mp hmember).1
    rw [hname] at habove
    exact dir_of_withoutDeleted hrestores hwork hrecords
      (WorkTree.closed _ _ (WorkTree.nodes_of_mem hmem) above habove)
  have hdirs : ∀ member ∈ acceptedOf (writeArchive filters (some previous) tree'), member.isDir = true →
      withoutDeleted previous tree' work (segments member.name) = none ∨
        withoutDeleted previous tree' work (segments member.name) = some .dir := by
    intro member hmember hkind
    obtain ⟨path, entry, hmem, hname, -, hdir, -⟩ := exists_entry_of_member halike (List.mem_filter.mp hmember).1
    rw [hname]
    exact dir_of_withoutDeleted hrestores hwork hrecords
      ((WorkTree.nodes_of_mem hmem).trans (congrArg some (hdir.mp hkind)))
  rw [makeRoom, removeDeleted_eq id hclosed hdeleted]
  exact clearPlaces_eq id harchive.accepted (hclosed.foldl_removeBelow _) hway hdirs

/-- An incremental layer, onto what the layers below made of the tree that was recorded. -/
theorem applyLayer_incremental (id : String)
    (hinside : strict → LinksInside host (writeArchive filters (some previous) tree')
      (afterLayer filters (some previous) tree' held))
    (hrestores : Restores filters held tree) (hwork : UpToLinks strict work held)
    (hrecords : Records racyAfter tree previous) (hsettled : Settled racyAfter tree tree')
    (hstale : NoneStale filters previous tree' held) :
    Gives strict (applyLayer host id (writeArchive filters (some previous) tree')
      ((deletedSince previous tree'.index).map TreePath.text) true work)
      (afterLayer filters (some previous) tree' held) := by
  have hafter : Restores filters (afterLayer filters (some previous) tree' held) tree' :=
    restores_afterLayer fun _ _ => kept_of_unchanged hrestores hrecords hsettled
  have hmade : ∀ path entry, (path, entry) ∈ tree'.entries → isArchived filters (some previous) tree' path = true →
      afterLayer filters (some previous) tree' held path.parts = some (entry.written filters path) :=
    fun _ _ hmem => afterLayer_of_isArchived hmem
  have hfree : ∀ member ∈ acceptedOf (writeArchive filters (some previous) tree'), member.isDir = false →
      cleared filters previous tree' work (segments member.name) = none := by
    intro member hmember hkind
    cases hnode : cleared filters previous tree' work (segments member.name) with
    | none => rfl
    | some node =>
      have hplace : segments member.name ∈ replaced (acceptedOf (writeArchive filters (some previous) tree')) :=
        List.mem_map.mpr ⟨member, List.mem_filter.mpr ⟨hmember, by simp [hkind]⟩, rfl⟩
      exact absurd List.prefix_rfl ((foldl_removeBelow_eq_some.mp hnode).1 _ hplace)
  have hextract := extract_gives id halike hinside hafter.closed hmade
    (within_cleared halike hinside hrestores hwork hrecords hafter hstale) hfree
    (fun _ _ hmem' harchived _ => cleared_of_not_archived halike hrecords hsettled hwork hmem' harchived)
    fun _ _ => exists_of_afterLayer
  have hsafe := (archives_writeArchive halike hmade).safeMembers_eq hafter.closed nodup_writeArchive
  exact applyLayer_gives hsafe (makeRoom_eq halike id hrestores hwork hrecords) hinside hextract

end Archived

end Incremental

end SwarmCloud.Checkpoints
