import SwarmCloud.Checkpoints.Replay

/-! # What a restore of the last checkpoint gives

Where nothing of the trees is left out or masked, the tree that was checkpointed
last. Otherwise the files that the archives of the chain hold, which are those of
that tree unless an earlier version of a file that was left out is still among
them.
-/

namespace SwarmCloud.Checkpoints

open Lib

variable {sha256 : Archive → Digest} {filters : Filters} {host : Host} {strict : Prop} {a : Attempt} {step : TreeCall}

/-! ## Trees that are archived whole -/

/-- No file is unreadable, in a masked store or shaped like a browser session. -/
def Plain (filters : Filters) (tree : WorkTree) : Prop :=
  ∀ path stat content, (path, Entry.file stat content) ∈ tree.entries →
    stat.readable = true ∧ isMaskedStore path.text = false ∧
      filters.browserState (path.parts.getLast path.parts_ne_nil) content = false

section Plain

variable {tree : WorkTree} {previous : Option Index}

theorem Plain.written_eq (h : Plain filters tree) {path : TreePath} {entry : Entry}
    (hmem : (path, entry) ∈ tree.entries) : entry.written filters path = entry.node := by
  cases entry with
  | dir mode => rfl
  | link linkname => rfl
  | file stat content =>
    obtain ⟨-, hstore, -⟩ := h path stat content hmem
    rw [Entry.written, Filters.written, hstore]
    rfl

theorem Plain.alike (h : Plain filters tree) : WrittenAlike filters tree := by
  intro path stat content path' stat' hmem hmem' _
  obtain ⟨-, hstore, -⟩ := h path stat content hmem
  obtain ⟨-, hstore', -⟩ := h path' stat' content hmem'
  rw [Filters.written, Filters.written, hstore, hstore']

theorem Plain.isArchived (h : Plain filters tree) {path : TreePath} {entry : Entry}
    (hmem : (path, entry) ∈ tree.entries) (hchanged : changed previous path entry = true) :
    isArchived filters previous tree path = true := by
  cases entry with
  | dir mode => exact isArchived_of_not_file hmem hchanged (by simp [Entry.node])
  | link linkname => exact isArchived_of_not_file hmem hchanged (by simp [Entry.node])
  | file stat content =>
    obtain ⟨hreadable, -, hbrowser⟩ := h path stat content hmem
    exact isArchived_of_readable hmem hchanged hreadable hbrowser

theorem Plain.noneStale (h : Plain filters tree) (index : Index) (held : Work) : NoneStale filters index tree held := by
  intro path hleft
  obtain ⟨entry, hmem⟩ := exists_of_mem_leftOut hleft
  obtain ⟨hchanged, harchived⟩ := (mem_leftOut_iff hmem).mp hleft
  rw [h.isArchived hmem hchanged] at harchived
  cases harchived

/-- After its layer the tree stands, if what did not change stood before. -/
theorem Plain.afterLayer_eq (h : Plain filters tree) {work : Work}
    (hkept : ∀ path entry, (path, entry) ∈ tree.entries → changed previous path entry = false →
      work path.parts = some entry.node) : afterLayer filters previous tree work = tree.nodes := by
  funext parts
  cases hnode : tree.nodes parts with
  | none =>
    cases hafter : afterLayer filters previous tree work parts with
    | none => rfl
    | some node =>
      obtain ⟨path, entry, hmem, rfl⟩ := exists_of_afterLayer hafter
      rw [WorkTree.nodes_of_mem hmem] at hnode
      cases hnode
  | some node =>
    obtain ⟨path, entry, hmem, rfl, rfl⟩ := WorkTree.nodes_eq_some_iff.mp hnode
    rw [afterLayer_of_mem hmem]
    split
    · rename_i hchanged
      rw [if_pos (h.isArchived hmem hchanged), h.written_eq hmem]
    · rename_i hchanged
      exact hkept path entry hmem (Bool.eq_false_iff.mpr hchanged)

end Plain

/-! ## A chain of whole trees -/

/-- What the archives of the chain hold is the tree of the last commit. -/
def Attempt.Whole (a : Attempt) : Prop := ∀ commit, a.last = some commit → commit.held = commit.tree.nodes

theorem Replays.held_commit (h : Replays sha256 filters host strict a) (hwhole : a.Whole)
    (hplain : Plain filters step.tree)
    (hsettled : ∀ commit, a.last = some commit → Settled commit.racyAfter commit.tree step.tree) :
    (a.commit filters step).held = step.tree.nodes := by
  refine hplain.afterLayer_eq fun path entry hmem hchanged => ?_
  -- Something is compared with, so there is a commit, and it has the entry.
  cases hcompared : comparedWith a.manager step.call with
  | none =>
    rw [hcompared] at hchanged
    cases hchanged
  | some index =>
    rw [hcompared] at hchanged
    obtain ⟨commit, record, layers, hlast, hnewest⟩ := h.compared hcompared
    have hlookup : index.lookup path = some entry.signature := by simpa [changed] using hchanged
    obtain ⟨entry', hmem', hsame⟩ := hnewest.records.kept (hsettled commit hlast) hmem hlookup
    rw [Attempt.held, hlast, Option.map_some, Option.getD_some, hwhole commit hlast, WorkTree.nodes_of_mem hmem', hsame]

theorem Attempt.Whole.next (sha256 : Archive → Digest) (hwhole : a.Whole)
    (hheld : (a.commit filters step).held = step.tree.nodes) : (a.next sha256 filters step).Whole := by
  intro commit' hlast'
  cases hcommits : commits a.manager step.call with
  | false =>
    rw [Attempt.last_next_of_not_commits sha256 filters hcommits] at hlast'
    exact hwhole commit' hlast'
  | true =>
    rw [Attempt.last_next sha256 filters hcommits, Option.some.injEq] at hlast'
    subst hlast'
    exact hheld

/-- A call that finds nothing changed finds the tree of the last commit. -/
theorem nodes_of_unchanged {m : CheckpointManager} {index : Index} {tree : WorkTree} {racyAfter : Int}
    (hindex : m.index = some index) (hrecords : Records racyAfter tree index)
    (hsettled : Settled racyAfter tree step.tree) (hunchanged : isUnchanged m step.call = true) :
    tree.nodes = step.tree.nodes := by
  obtain ⟨previous, hprevious, hsame⟩ := (Option.any_eq_true _ _).mp hunchanged
  have hthis : previous = index := by
    unfold previousIndex at hprevious
    split at hprevious
    · cases hprevious
    · rw [hindex, Option.some.injEq] at hprevious
      exact hprevious.symm
  subst hthis
  rw [Bool.and_eq_true, deletedPaths, hprevious, Option.elim_some, List.isEmpty_iff] at hsame
  obtain ⟨hdeleted, hequal⟩ := hsame
  rw [sameIndex, Bool.and_eq_true, List.all_eq_true] at hequal
  have hlookup : ∀ path entry', (path, entry') ∈ step.tree.entries →
      previous.lookup path = some entry'.signature := by
    intro path entry' hmem'
    have hindexed : (path, entry'.signature) ∈ step.tree.index :=
      List.mem_map.mpr ⟨(path, entry'), WorkTree.mem_walk.mpr hmem', rfl⟩
    exact of_decide_eq_true (hequal.2 _ hindexed)
  have hkept : ∀ path entry', (path, entry') ∈ step.tree.entries → tree.nodes path.parts = some entry'.node := by
    intro path entry' hmem'
    obtain ⟨entry, hmem, hnode⟩ := hrecords.kept hsettled hmem' (hlookup path entry' hmem')
    rw [WorkTree.nodes_of_mem hmem, hnode]
  refine PathMap.PartOf.eq_of_all ?_ ?_
  · intro parts node hnode
    obtain ⟨path, entry, hmem, rfl, rfl⟩ := WorkTree.nodes_eq_some_iff.mp hnode
    obtain ⟨entry', hmem', -⟩ := kind_of_not_deleted hrecords hmem
      (by rw [show deletedSince previous step.tree.index = [] from hdeleted]; simp)
    rw [WorkTree.nodes_of_mem hmem', ← hkept path entry' hmem', hnode]
  · intro parts node hnode
    obtain ⟨path, entry', hmem', rfl, rfl⟩ := WorkTree.nodes_eq_some_iff.mp hnode
    exact hkept path entry' hmem'

/-- A call that raises nothing commits, or finds the tree unchanged since a commit. -/
theorem commits_or_unchanged (sha256 : Archive → Digest) {m : CheckpointManager} {call : Call}
    (h : ∀ exc, (create sha256 m call).2 ≠ .raised exc) :
    commits m call = true ∨ commits m call = false ∧ isUnchanged m call = true := by
  cases hcommits : commits m call with
  | true => exact .inl rfl
  | false =>
    refine .inr ⟨rfl, ?_⟩
    rcases created_of_not_commits sha256 hcommits with ⟨-, hunchanged⟩ | ⟨m', exc, hcreate, -⟩
    · exact hunchanged
    · exact absurd (congrArg Prod.snd hcreate) (h exc)

/-- After a call that raises nothing, the last commit is of the tree of the call. -/
theorem Replays.last_of_created (h : Replays sha256 filters host strict a)
    (hsettled : ∀ commit, a.last = some commit → Settled commit.racyAfter commit.tree step.tree)
    (hcreated : ∀ exc, (create sha256 a.manager step.call).2 ≠ .raised exc) :
    ∃ commit, (a.next sha256 filters step).last = some commit ∧ commit.tree.nodes = step.tree.nodes := by
  rcases commits_or_unchanged sha256 hcreated with hcommits | ⟨hcommits, hunchanged⟩
  · exact ⟨a.commit filters step, Attempt.last_next sha256 filters hcommits, rfl⟩
  obtain ⟨previous, hprevious, -⟩ := (Option.any_eq_true _ _).mp hunchanged
  have hindex : a.manager.index = some previous := by
    unfold previousIndex at hprevious
    split at hprevious
    · cases hprevious
    · exact hprevious
  rw [Attempt.last_next_of_not_commits sha256 filters hcommits]
  cases hcommit : a.last with
  | none =>
    have hseeded := h.inv.seeded
    rw [hindex, h.unrecorded hcommit] at hseeded
    cases hseeded
  | some commit =>
    obtain ⟨index, record, layers, hnewest⟩ := h.recorded commit hcommit
    exact ⟨commit, rfl,
      nodes_of_unchanged hnewest.index_eq hnewest.records (hsettled commit hcommit) hunchanged⟩

/-! ## The last checkpoint -/

section Last

variable (sha256 : Archive → Digest) (filters : Filters) (host : Host) (attemptId : String) (maxBytes : Nat)
  (archives : String → Option Archive) (members : String → List Member)

/-- The run of an attempt over the bucket. -/
abbrev attemptAfter (history : List TreeCall) : Attempt :=
  (Attempt.start attemptId maxBytes archives members).after sha256 filters history

variable {sha256 filters host attemptId maxBytes archives members}

/-- No link of the archive that the call makes, over its tree, leaves the root. -/
def TreeLinksInside (filters : Filters) (host : Host) (m : CheckpointManager) (step : TreeCall) : Prop :=
  LinksInside host (writeArchive filters (comparedWith m step.call) step.tree) step.tree.nodes

theorem whole_after {history : List TreeCall} (hplain : ∀ step ∈ history, Plain filters step.tree)
    (hinside : ∀ done step, done ++ [step] <+: history →
      TreeLinksInside filters host (attemptAfter sha256 filters attemptId maxBytes archives members done).manager step)
    (hsettled : ∀ done step commit, done ++ [step] <+: history →
      (attemptAfter sha256 filters attemptId maxBytes archives members done).last = some commit →
      Settled commit.racyAfter commit.tree step.tree) :
    Replays sha256 filters host True (attemptAfter sha256 filters attemptId maxBytes archives members history) ∧
      (attemptAfter sha256 filters attemptId maxBytes archives members history).Whole := by
  induction history using List.reverseRecOn with
  | nil => exact ⟨replays_start attemptId maxBytes archives members, fun _ h => nomatch h⟩
  | append_singleton history step ih =>
    obtain ⟨hreplays, hwhole⟩ := ih (fun step' hstep => hplain step' (List.mem_append_left _ hstep))
      (fun done step' hdone => hinside done step' (hdone.trans (List.prefix_append _ _)))
      fun done step' commit hdone => hsettled done step' commit (hdone.trans (List.prefix_append _ _))
    have hthis := hplain step (by simp)
    have hlast := fun commit => hsettled history step commit List.prefix_rfl
    have hheld := hreplays.held_commit hwhole hthis hlast
    have hstays : StaysInside filters host (attemptAfter sha256 filters attemptId maxBytes archives members history)
        step := by
      rw [StaysInside, hheld]
      exact hinside history step List.prefix_rfl
    rw [attemptAfter, Attempt.after_append]
    exact ⟨hreplays.next ⟨hthis.alike, hlast, fun index _ => hthis.noneStale index _⟩ fun _ => hstays,
      hwhole.next sha256 hheld⟩

/-- The layers of the last checkpoint, oldest first into an empty directory, give the last tree, the targets of its
links as `normpath` has them. -/
theorem replay_last_tree (history : List TreeCall) (last : TreeCall)
    (hplain : ∀ step ∈ history ++ [last], Plain filters step.tree)
    (hinside : ∀ done step, done ++ [step] <+: history ++ [last] →
      TreeLinksInside filters host (attemptAfter sha256 filters attemptId maxBytes archives members done).manager step)
    (hsettled : ∀ done step commit, done ++ [step] <+: history ++ [last] →
      (attemptAfter sha256 filters attemptId maxBytes archives members done).last = some commit →
      Settled commit.racyAfter commit.tree step.tree)
    (hcreated : ∀ exc,
      (create sha256 (attemptAfter sha256 filters attemptId maxBytes archives members history).manager last.call).2 ≠
        .raised exc) :
    let after := attemptAfter sha256 filters attemptId maxBytes archives members (history ++ [last])
    ∃ record layers, after.manager.manifests.head? = some record ∧
      Sound sha256 after.manager.archives after.manager.seq (record.checkpointId, record.archiveSha256) layers ∧
      (headersFit layers = true →
        downloadChain sha256 after.manager.archives (after.manager.archives record.checkpointId) record.checkpointId
          record.archiveSha256 = .ok layers) ∧
      replay host after.members layers.reverse = .ok last.tree.nodes := by
  obtain ⟨hreplays, hwhole⟩ := whole_after hplain hinside hsettled
  obtain ⟨hbefore, -⟩ := whole_after (fun step hstep => hplain step (List.mem_append_left _ hstep))
    (fun done step hdone => hinside done step (hdone.trans (List.prefix_append _ _)))
    fun done step commit hdone => hsettled done step commit (hdone.trans (List.prefix_append _ _))
  obtain ⟨commit, hlast, hnodes⟩ := hbefore.last_of_created (fun commit => hsettled history last commit List.prefix_rfl)
    hcreated
  rw [← Attempt.after_append] at hlast
  obtain ⟨index, record, layers, hnewest⟩ := hreplays.recorded commit hlast
  refine ⟨record, layers, hnewest.head_eq, hnewest.sound,
    fun hfits => hnewest.sound.download_eq_ok.mpr ⟨hfits, rfl⟩, ?_⟩
  have hgives := hnewest.replays
  cases hmade : replay host (attemptAfter sha256 filters attemptId maxBytes archives members (history ++ [last])).members
    layers.reverse with
  | error stop =>
    rw [hmade] at hgives
    exact absurd trivial hgives
  | ok made =>
    rw [hmade] at hgives
    rw [UpToLinks.eq hgives trivial, hwhole commit hlast, hnodes]

/-- The files that a restore of the last commit makes, where it is accepted, are those of its tree, and none is there
that was left out. -/
theorem restored_files_current {history : List TreeCall} {commit : Commit}
    (hadmissible : ∀ done step, done ++ [step] <+: history →
      Admissible filters (attemptAfter sha256 filters attemptId maxBytes archives members done) step)
    (hlast : (attemptAfter sha256 filters attemptId maxBytes archives members history).last = some commit) :
    let after := attemptAfter sha256 filters attemptId maxBytes archives members history
    ∃ record, after.manager.manifests.head? = some record ∧
      ∀ layers made,
        downloadChain sha256 after.manager.archives (after.manager.archives record.checkpointId) record.checkpointId
          record.archiveSha256 = .ok layers →
        replay host after.members layers.reverse = .ok made →
        (∀ parts content, made parts = some (.file content) →
          ∃ path stat written, (path, Entry.file stat written) ∈ commit.tree.entries ∧ path.parts = parts ∧
            content = filters.written path written) ∧
        ∀ path ∈ commit.leftOut, made path.parts = none := by
  have hreplays : Replays sha256 filters host False
      (attemptAfter sha256 filters attemptId maxBytes archives members history) :=
    (replays_start attemptId maxBytes archives members).after hadmissible nofun
  obtain ⟨index, record, layers, hnewest⟩ := hreplays.recorded commit hlast
  refine ⟨record, hnewest.head_eq, fun layers' made hdownload hmade => ?_⟩
  obtain ⟨-, rfl⟩ := hnewest.sound.download_eq_ok.mp hdownload
  have hupto := hnewest.replays
  rw [hmade] at hupto
  have hwithin := UpToLinks.within hupto
  constructor
  · intro parts content hfile
    have hheld : commit.held parts = some (.file content) := by
      rcases hwithin parts _ hfile with hsame | ⟨-, linkname, -, hlink, -⟩
      · exact hsame
      · cases hlink
    obtain ⟨path, entry, hmem, rfl, hwritten⟩ := hnewest.restores.part parts _ hheld
    cases entry with
    | dir mode => cases hwritten
    | link linkname => cases hwritten
    | file stat written =>
      cases hwritten
      exact ⟨path, stat, written, hmem, rfl, rfl⟩
  · intro path hleft
    exact hwithin.none (hnewest.absent path hleft)

end Last

/-! ## A checkout that changes -/

def srcPath : TreePath := ⟨"src", by decide⟩

def mainPath : TreePath := ⟨"src/main.py", by decide⟩

def keyPath : TreePath := ⟨"src/key.pem", by decide⟩

def latestPath : TreePath := ⟨"latest", by decide⟩

def fileStat (ino changedNs : Int) (readable : Bool) : FileStat :=
  ⟨33188, changedNs, changedNs, ⟨ino, 1⟩, 1, readable⟩

/-- A directory with one file, and a link to it. -/
def firstTree : WorkTree where
  entries := [(srcPath, .dir 493), (mainPath, .file (fileStat 7 1 true) [1]), (latestPath, .link "./src/main.py")]
  nodup := by decide
  parents := by decide
  names := by decide

/-- The directory has become a file. -/
def secondTree : WorkTree where
  entries := [(srcPath, .file (fileStat 8 2 true) [2]), (latestPath, .link "src")]
  nodup := by decide
  parents := by decide
  names := by decide

/-- Rewritten, and closed to the worker. -/
def closedTree : WorkTree where
  entries := [(srcPath, .dir 493), (mainPath, .file (fileStat 7 2 false) [3]), (latestPath, .link "./src/main.py")]
  nodup := by decide
  parents := by decide
  names := by decide

/-- With a new file that is closed to the worker. -/
def keyTree : WorkTree where
  entries := [(srcPath, .dir 493), (mainPath, .file (fileStat 7 1 true) [1]), (keyPath, .file (fileStat 9 2 false) [4]),
    (latestPath, .link "./src/main.py")]
  nodup := by decide
  parents := by decide
  names := by decide

def treeCall (tree : WorkTree) : TreeCall where
  tree := tree
  onlyIfChanged := true
  racyAfter := 1000
  counted := 1
  size := 10
  content := 1

def openFilters : Filters := ⟨fun _ _ => false, id⟩

def workHost : Host := ⟨["work"], by decide, fun _ => none, fun _ => none, 40⟩

/-- What a restore of the last checkpoint makes. -/
def restoredAfter (history : List TreeCall) : Option Work :=
  let after := attemptAfter sizeDigest openFilters "a1" 1000 (fun _ => none) (fun _ => []) history
  after.manager.manifests.head?.bind fun record =>
    (downloadChain sizeDigest after.manager.archives (after.manager.archives record.checkpointId) record.checkpointId
      record.archiveSha256).toOption.bind fun layers => (replay workHost after.members layers.reverse).toOption

def Member.linkname? (member : Member) : Option String :=
  match member.kind with
  | .link linkname => some linkname
  | _ => none

theorem linksInside_of_tails {members : List Member} {target : Work}
    (h : ∀ left ∈ members.tails, ∀ member ∈ left.head?, ∀ linkname ∈ member.linkname?,
      linkLeaves (segments member.name) linkname = false ∧
        (workHost.realpathStrict (withoutMembers target left)
          ((segments member.name).dropLast ++ segments linkname)).toOption.any workHost.root.isPrefixOf = true ∧
        workHost.escapes target (segments member.name) = false) :
    LinksInside workHost members target := by
  have hhere : ∀ member later, member :: later <:+ members → ∀ linkname, member.kind = .link linkname → _ :=
    fun member later hlater linkname hkind =>
      h (member :: later) ((List.mem_tails _ _).mpr hlater) member rfl linkname (by rw [Member.linkname?, hkind]; rfl)
  have hmem : ∀ member ∈ members, ∃ later, member :: later <:+ members := by
    intro member hmember
    obtain ⟨before, later, rfl⟩ := List.append_of_mem hmember
    exact ⟨later, List.suffix_append _ _⟩
  constructor
  · exact fun _ _ _ => rfl
  · intro member hmember linkname hkind
    obtain ⟨later, hlater⟩ := hmem member hmember
    exact (hhere member later hlater linkname hkind).1
  · intro member later hlater linkname hkind
    obtain ⟨place, hplace, hroot⟩ := (Option.any_eq_true _ _).mp (hhere member later hlater linkname hkind).2.1
    exact ⟨place, List.isPrefixOf_iff_prefix.mp hroot, eq_ok_of_toOption hplace⟩
  · intro member hmember linkname hkind
    obtain ⟨later, hlater⟩ := hmem member hmember
    exact (hhere member later hlater linkname hkind).2.2

theorem last_first :
    (attemptAfter sizeDigest openFilters "a1" 1000 (fun _ => none) (fun _ => []) [treeCall firstTree]).last =
      some ((Attempt.start "a1" 1000 (fun _ => none) fun _ => []).commit openFilters (treeCall firstTree)) :=
  Attempt.last_next _ _ (by decide)

theorem replay_second_tree :
    let after := attemptAfter sizeDigest openFilters "a1" 1000 (fun _ => none) (fun _ => [])
      ([treeCall firstTree] ++ [treeCall secondTree])
    ∃ record layers, after.manager.manifests.head? = some record ∧
      Sound sizeDigest after.manager.archives after.manager.seq (record.checkpointId, record.archiveSha256) layers ∧
      (headersFit layers = true →
        downloadChain sizeDigest after.manager.archives (after.manager.archives record.checkpointId)
          record.checkpointId record.archiveSha256 = .ok layers) ∧
      replay workHost after.members layers.reverse = .ok secondTree.nodes := by
  refine replay_last_tree [treeCall firstTree] (treeCall secondTree) ?_ ?_ ?_ ?_
  · intro step hstep path stat content hmem
    rcases List.mem_cons.mp hstep with rfl | hstep
    · simp [treeCall, firstTree] at hmem
      obtain ⟨rfl, rfl, rfl⟩ := hmem
      decide
    · rw [List.mem_singleton.mp hstep] at hmem
      simp [treeCall, secondTree] at hmem
      obtain ⟨rfl, rfl, rfl⟩ := hmem
      decide
  · rintro done step ⟨tail, htail⟩
    rcases done with _ | ⟨first, _ | ⟨second, rest⟩⟩
    · cases htail
      exact linksInside_of_tails (by decide)
    · cases htail
      exact linksInside_of_tails (by decide)
    · have hlength := congrArg List.length htail
      simp at hlength
  · rintro done step commit ⟨tail, htail⟩ hlast path stat content stat' content' hmem hmem'
    rcases done with _ | ⟨first, _ | ⟨second, rest⟩⟩
    · cases hlast
    · cases htail
      rw [last_first, Option.some.injEq] at hlast
      subst hlast
      simp [Attempt.commit, treeCall, firstTree] at hmem
      simp [treeCall, secondTree] at hmem'
      obtain ⟨rfl, -⟩ := hmem
      exact absurd hmem'.1 (by decide)
    · have hlength := congrArg List.length htail
      simp at hlength
  · have hwrote : (create sizeDigest
        (attemptAfter sizeDigest openFilters "a1" 1000 (fun _ => none) (fun _ => []) [treeCall firstTree]).manager
        (treeCall secondTree).call).2 = .wrote (newRecord sizeDigest
          (attemptAfter sizeDigest openFilters "a1" 1000 (fun _ => none) (fun _ => []) [treeCall firstTree]).manager
          (treeCall secondTree).call) := by decide
    rw [hwrote]
    intro text hraised
    cases hraised

theorem restored_beside_closed :
    let after := attemptAfter sizeDigest openFilters "a1" 1000 (fun _ => none) (fun _ => [])
      [treeCall firstTree, treeCall keyTree]
    ∃ commit record layers made, after.last = some commit ∧ commit.leftOut = [keyPath] ∧
      after.manager.manifests.head? = some record ∧
      downloadChain sizeDigest after.manager.archives (after.manager.archives record.checkpointId) record.checkpointId
        record.archiveSha256 = .ok layers ∧
      replay workHost after.members layers.reverse = .ok made ∧ made mainPath.parts = some (.file [1]) ∧
      (∀ parts content, made parts = some (.file content) →
        ∃ path stat written, (path, Entry.file stat written) ∈ commit.tree.entries ∧ path.parts = parts ∧
          content = openFilters.written path written) ∧
      ∀ path ∈ commit.leftOut, made path.parts = none := by
  have hlast : (attemptAfter sizeDigest openFilters "a1" 1000 (fun _ => none) (fun _ => [])
      [treeCall firstTree, treeCall keyTree]).last = some (((Attempt.start "a1" 1000 (fun _ => none) fun _ => []).next
        sizeDigest openFilters (treeCall firstTree)).commit openFilters (treeCall keyTree)) :=
    Attempt.last_next _ _ (by decide)
  suffices hadmissible : ∀ done step, done ++ [step] <+: [treeCall firstTree, treeCall keyTree] → Admissible openFilters
      (attemptAfter sizeDigest openFilters "a1" 1000 (fun _ => none) (fun _ => []) done) step by
    obtain ⟨record, hhead, hrestored⟩ := @restored_files_current _ _ workHost _ _ _ _ _ _ hadmissible hlast
    have hmain : ((restoredAfter [treeCall firstTree, treeCall keyTree]).bind fun made => made mainPath.parts) =
        some (.file [1]) := by decide
    obtain ⟨made, hrestoredAfter, hmain⟩ := Option.bind_eq_some_iff.mp hmain
    simp only [restoredAfter, hhead, Option.bind_some] at hrestoredAfter
    obtain ⟨layers, hlayers, hreplayed⟩ := Option.bind_eq_some_iff.mp hrestoredAfter
    have hdownload := eq_ok_of_toOption hlayers
    have hmade := eq_ok_of_toOption hreplayed
    exact ⟨_, record, layers, made, hlast, by decide +kernel, hhead, hdownload, hmade, hmain,
      hrestored layers made hdownload hmade⟩
  · rintro done step ⟨tail, htail⟩
    have halike : ∀ tree, WrittenAlike openFilters tree := by
      intro tree path stat content path' stat' _ _ _
      simp [Filters.written, openFilters]
    rcases done with _ | ⟨first, _ | ⟨second, rest⟩⟩
    · cases htail
      refine ⟨halike _, ?_, ?_⟩
      · rintro _ ⟨⟩
      · rintro _ ⟨⟩
    · cases htail
      refine ⟨halike _, ?_, ?_⟩
      · rintro commit hcommit path stat content stat' content' hmem hmem' -
        rw [last_first, Option.some.injEq] at hcommit
        subst hcommit
        simp [Attempt.commit, treeCall, firstTree] at hmem
        obtain ⟨rfl, rfl, rfl⟩ := hmem
        simp [treeCall, keyTree, show mainPath ≠ keyPath by decide] at hmem'
        exact hmem'.2.symm
      · rintro index hcompared path hleft content
        have hall : ∀ path ∈ leftOut openFilters (comparedWith (attemptAfter sizeDigest openFilters "a1" 1000
            (fun _ => none) (fun _ => []) [treeCall firstTree]).manager (treeCall keyTree).call) keyTree,
            (attemptAfter sizeDigest openFilters "a1" 1000 (fun _ => none) (fun _ => [])
              [treeCall firstTree]).held path.parts = none := by decide
        rw [hcompared] at hall
        rw [hall path hleft]
        rintro ⟨⟩
    · have hlength := congrArg List.length htail
      simp at hlength

/-- The second checkpoint names the rewritten file neither among its members nor among the deleted paths. -/
theorem restored_file_stale :
    ((restoredAfter [treeCall firstTree, treeCall closedTree]).bind fun made => made mainPath.parts) =
        some (.file [1]) ∧
      closedTree.nodes mainPath.parts = some (.file [3]) ∧
      ((attemptAfter sizeDigest openFilters "a1" 1000 (fun _ => none) (fun _ => [])
        [treeCall firstTree, treeCall closedTree]).last.map fun commit => commit.leftOut) = some [mainPath] := by
  decide +kernel

/-! ## Links that do not come back -/

def linkPath (name : String) (h : segments name = [name] ∧ name ≠ "" ∧ name ≠ "." ∧ name ≠ "..") : TreePath :=
  ⟨name, by rw [h.1]; simpa using h.2⟩

def loopTree : WorkTree where
  entries := [(linkPath "a" (by decide), .link "b"), (linkPath "b" (by decide), .link "a"),
    (linkPath "c" (by decide), .link "a")]
  nodup := by decide
  parents := by decide
  names := by decide

/-- `d` leads to `src`, by way of `z`. -/
def aroundTree : WorkTree where
  entries := [(srcPath, .dir 493), (⟨"src/lib", by decide⟩, .dir 493), (linkPath "d" (by decide), .link "z/.."),
    (linkPath "z" (by decide), .link "src/lib")]
  nodup := by decide
  parents := by decide
  names := by decide

/-- With `c`, which leads to `src` through `d`. -/
def throughTree : WorkTree where
  entries := (linkPath "c" (by decide), .link "d/../src") :: aroundTree.entries
  nodup := by decide
  parents := by decide
  names := by decide

/-- A target comes back normalised; a link into a loop of links makes the restore refuse the checkpoint; and a link is
skipped that leaves the root over the normalised target of an earlier one. -/
theorem replay_not_last_tree :
    ((latestPath, Entry.link "./src/main.py") ∈ firstTree.entries ∧
        ((restoredAfter [treeCall firstTree]).bind fun made => made latestPath.parts) = some (.link "src/main.py")) ∧
      ((attemptAfter sizeDigest openFilters "a1" 1000 (fun _ => none) (fun _ => []) [treeCall loopTree]).last.isSome ∧
        (restoredAfter [treeCall loopTree]).isNone) ∧
      ((linkPath "c" (by decide), Entry.link "d/../src") ∈ throughTree.entries ∧
        ((restoredAfter [treeCall aroundTree, treeCall throughTree]).map fun made => (made ["c"], made ["d"])) =
          some (none, some (.link "."))) := by
  decide +kernel

end SwarmCloud.Checkpoints
