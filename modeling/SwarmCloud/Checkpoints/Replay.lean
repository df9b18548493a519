import SwarmCloud.Checkpoints.Deltas
import SwarmCloud.Checkpoints.Restorable

/-! # A chain gives its tree back

An attempt checkpoints its working tree again and again, in full or as what
changed since the checkpoint that committed last. What its bucket holds below the
newest commit, unpacked in order into an empty directory, is the tree of that
commit.
-/

namespace SwarmCloud.Checkpoints

open Lib

/-- A call of `create` or `create_if_changed` while the working tree stands still. How far the archive compresses and
whether the bucket answers are inputs. -/
structure TreeCall where
  tree : WorkTree
  onlyIfChanged : Bool
  racyAfter : Int
  counted : Nat
  size : Nat
  content : Nat
  failure : Option Failure := none

/-- Both walks find the same. -/
def TreeCall.call (step : TreeCall) : Call where
  onlyIfChanged := step.onlyIfChanged
  scanned := step.tree.index
  archived := step.tree.index
  racyAfter := step.racyAfter
  counted := step.counted
  size := step.size
  content := step.content
  failure := step.failure

/-- What is known of a checkpoint that committed: its tree, the time from which the files of it were too new, what was
left out of its archive, and what the archives of its chain hold together. -/
structure Commit where
  tree : WorkTree
  racyAfter : Int
  leftOut : List TreePath
  held : Work

/-- The manager with the members of the archives under its prefix, by checkpoint id, and its last commit. -/
structure Attempt where
  manager : CheckpointManager
  members : String → List Member
  last : Option Commit

section Next

variable (sha256 : Archive → Digest) (filters : Filters)

/-- The signatures that the second walk compares with. -/
def comparedWith (m : CheckpointManager) (call : Call) : Option Index :=
  if (previousBase m call).isSome then previousIndex m call else none

/-- The archive reaches the bucket. -/
def stored (m : CheckpointManager) (call : Call) : Bool :=
  !(call.onlyIfChanged && isUnchanged m call) && (writeRefused m call).isNone &&
    match call.failure with
    | none => true
    | some (.beforeUpload _) => !call.onlyIfChanged
    | some (.walk _) => false
    | some (.uploadArchive _ stored) => stored
    | some (.uploadManifest _) => true

def Attempt.held (a : Attempt) : Work := (a.last.map Commit.held).getD PathMap.empty

def Attempt.commit (a : Attempt) (step : TreeCall) : Commit where
  tree := step.tree
  racyAfter := step.racyAfter
  leftOut := leftOut filters (comparedWith a.manager step.call) step.tree
  held := afterLayer filters (comparedWith a.manager step.call) step.tree a.held

def Attempt.next (a : Attempt) (step : TreeCall) : Attempt where
  manager := (create sha256 a.manager step.call).1
  members := fun id =>
    if id = checkpointId (a.manager.seq + 1) ∧ stored a.manager step.call = true then
      writeArchive filters (comparedWith a.manager step.call) step.tree
    else a.members id
  last := if commits a.manager step.call then some (a.commit filters step) else a.last

/-- The attempt after a sequence of calls. -/
def Attempt.after (a : Attempt) (history : List TreeCall) : Attempt := history.foldl (Attempt.next sha256 filters) a

/-- An attempt before its first checkpoint, over whatever the bucket holds. -/
def Attempt.start (attemptId : String) (maxBytes : Nat) (archives : String → Option Archive)
    (members : String → List Member) : Attempt :=
  ⟨fresh attemptId maxBytes archives, members, none⟩

end Next

variable {sha256 : Archive → Digest} {filters : Filters} {host : Host} {strict : Prop} {a : Attempt} {step : TreeCall}

theorem Attempt.after_append (a : Attempt) (history : List TreeCall) (step : TreeCall) :
    a.after sha256 filters (history ++ [step]) = (a.after sha256 filters history).next sha256 filters step := by
  rw [Attempt.after, List.foldl_append]
  rfl

theorem Attempt.last_next (sha256 : Archive → Digest) (filters : Filters) {a : Attempt} {step : TreeCall}
    (h : commits a.manager step.call = true) : (a.next sha256 filters step).last = some (a.commit filters step) :=
  if_pos h

theorem Attempt.last_next_of_not_commits (sha256 : Archive → Digest) (filters : Filters) {a : Attempt} {step : TreeCall}
    (h : commits a.manager step.call = false) : (a.next sha256 filters step).last = a.last :=
  if_neg (by simp [h])

/-! ## What a call records -/

theorem stored_of_commits {m : CheckpointManager} {call : Call} (h : commits m call = true) : stored m call = true := by
  unfold commits at h
  rw [Bool.and_eq_true] at h
  rw [stored, h.1, Bool.true_and]
  cases hfailure : call.failure with
  | none => rfl
  | some failure =>
    rw [hfailure] at h
    cases failure with
    | beforeUpload exc => exact h.2
    | walk exc => cases h.2
    | uploadArchive exc stored => cases h.2
    | uploadManifest exc => cases h.2

theorem lookup_map_marked (racyAfter : Int) (index : Index) (path : TreePath) :
    List.lookup path (markRacy racyAfter index) = (index.lookup path).map (Signature.marked racyAfter) := by
  rw [markRacy_eq]
  exact Dict.lookup_map_items index (fun _ signature => signature.marked racyAfter) path

theorem keys_markRacy (racyAfter : Int) (index : Index) :
    (markRacy racyAfter index).map Prod.fst = index.map Prod.fst := by
  rw [markRacy_eq, List.map_map]
  rfl

theorem WorkTree.nodup_index (tree : WorkTree) : (tree.index.map Prod.fst).Nodup := by
  rw [WorkTree.keys_index]
  exact WorkTree.nodup_walk

theorem records_nextIndex (m : CheckpointManager) (step : TreeCall) :
    Records step.racyAfter step.tree (nextIndex m step.call) := by
  have hstart : ((if (previousIndex m step.call).isSome then step.tree.index else [] : Index).map Prod.fst).Nodup := by
    split
    · exact step.tree.nodup_index
    · exact List.nodup_nil
  constructor
  · rw [nextIndex, keys_markRacy]
    exact Dict.nodup_foldl_set _ hstart
  · intro path
    rw [nextIndex, lookup_map_marked]
    refine congrArg (Option.map _) ?_
    change List.lookup path (step.tree.index.foldl _ (if _ then step.tree.index else [])) = _
    rw [Dict.lookup_foldl_set step.tree.nodup_index]
    split
    · cases step.tree.index.lookup path <;> rfl
    · cases step.tree.index.lookup path <;> rfl

/-! ## Replaying a chain that grows -/

theorem replayFrom_append (members : String → List Member) (layers : List Layer) (layer : Layer) (incremental : Bool)
    (work : Work) :
    replayFrom host members incremental work (layers ++ [layer]) =
      (replayFrom host members incremental work layers >>= fun made =>
        applyLayer host layer.checkpointId (members layer.checkpointId) layer.deleted
          (incremental || !layers.isEmpty) made) := by
  induction layers generalizing incremental work with
  | nil =>
    rw [List.nil_append, replayFrom, replayFrom, List.isEmpty_nil, Bool.not_true, Bool.or_false]
    change (applyLayer host layer.checkpointId _ _ incremental work >>= fun made => Except.ok made) = applyLayer ..
    cases applyLayer host layer.checkpointId (members layer.checkpointId) layer.deleted incremental work <;> rfl
  | cons first layers ih =>
    rw [List.cons_append, replayFrom, replayFrom]
    cases hfirst : applyLayer host first.checkpointId (members first.checkpointId) first.deleted incremental work with
    | error stop => rfl
    | ok made =>
      change replayFrom host members true made (layers ++ [layer]) = replayFrom host members true made layers >>= _
      rw [ih]
      simp

theorem replayFrom_congr {members members' : String → List Member} {layers : List Layer}
    (h : ∀ layer ∈ layers, members' layer.checkpointId = members layer.checkpointId) (incremental : Bool)
    (work : Work) :
    replayFrom host members' incremental work layers = replayFrom host members incremental work layers := by
  induction layers generalizing incremental work with
  | nil => rfl
  | cons layer layers ih =>
    rw [replayFrom, replayFrom, h layer List.mem_cons_self]
    exact congrArg _ (funext fun made => ih (fun l hl => h l (List.mem_cons_of_mem _ hl)) true made)

theorem replay_singleton (members : String → List Member) (layer : Layer) :
    replay host members [layer] =
      applyLayer host layer.checkpointId (members layer.checkpointId) layer.deleted false PathMap.empty := by
  rw [replay, replayFrom]
  change (applyLayer host layer.checkpointId _ _ false PathMap.empty >>= fun made => Except.ok made) = applyLayer ..
  cases applyLayer host layer.checkpointId (members layer.checkpointId) layer.deleted false PathMap.empty <;> rfl

/-- A layer onto a chain, newest first. -/
theorem replay_cons {members : String → List Member} {layers : List Layer} (hne : layers ≠ []) (layer : Layer) :
    replay host members (layer :: layers).reverse =
      (replay host members layers.reverse >>= fun made =>
        applyLayer host layer.checkpointId (members layer.checkpointId) layer.deleted true made) := by
  have hnonempty : layers.reverse.isEmpty = false := by simpa using hne
  rw [List.reverse_cons, replay, replayFrom_append, hnonempty]
  rfl

/-! ## The newest checkpoint -/

/-- The commit is what the index was read from, and what the layers below the newest manifest give. -/
structure Newest (sha256 : Archive → Digest) (filters : Filters) (host : Host) (strict : Prop) (a : Attempt)
    (commit : Commit) (index : Index) (record : CheckpointRecord) (layers : List Layer) : Prop where
  index_eq : a.manager.index = some index
  records : Records commit.racyAfter commit.tree index
  base_eq : a.manager.base = some (record.checkpointId, record.archiveSha256)
  head_eq : a.manager.manifests.head? = some record
  sound : Sound sha256 a.manager.archives a.manager.seq (record.checkpointId, record.archiveSha256) layers
  length_eq : layers.length = a.manager.chainLength + 1
  restores : Restores filters commit.held commit.tree
  absent : ∀ path ∈ commit.leftOut, commit.held path.parts = none
  replays : Gives strict (replay host a.members layers.reverse) commit.held

structure Replays (sha256 : Archive → Digest) (filters : Filters) (host : Host) (strict : Prop) (a : Attempt) :
    Prop where
  inv : Inv sha256 a.manager
  unrecorded : a.last = none → a.manager.base = none
  recorded : ∀ commit, a.last = some commit →
    ∃ index record layers, Newest sha256 filters host strict a commit index record layers

/-- What is asked of a call: files that are written alike under all their names and have not changed behind their
signatures, and none left out of an incremental archive that the chain has an earlier version of. -/
structure Admissible (filters : Filters) (a : Attempt) (step : TreeCall) : Prop where
  alike : WrittenAlike filters step.tree
  settled : ∀ commit, a.last = some commit → Settled commit.racyAfter commit.tree step.tree
  noneStale : ∀ index, comparedWith a.manager step.call = some index → NoneStale filters index step.tree a.held

theorem replays_start (attemptId : String) (maxBytes : Nat) (archives : String → Option Archive)
    (members : String → List Member) : Replays sha256 filters host strict (.start attemptId maxBytes archives members) :=
  ⟨(Start.fresh attemptId maxBytes archives).inv.1, fun _ => rfl, fun _ h => nomatch h⟩

/-- The archives of a sound chain keep their members. -/
theorem next_members (sha256 : Archive → Digest) (filters : Filters) (a : Attempt) (step : TreeCall) (id : String) :
    (a.next sha256 filters step).members id =
      if id = checkpointId (a.manager.seq + 1) ∧ stored a.manager step.call = true then
        writeArchive filters (comparedWith a.manager step.call) step.tree
      else a.members id := by
  simp only [Attempt.next]

theorem members_next {head : String × String} {layers : List Layer}
    (hsound : Sound sha256 a.manager.archives a.manager.seq head layers) (step : TreeCall) :
    ∀ layer ∈ layers, (a.next sha256 filters step).members layer.checkpointId = a.members layer.checkpointId := by
  intro layer hlayer
  obtain ⟨number, hle, hnumber⟩ := hsound.numbered _ (List.mem_map_of_mem hlayer)
  rw [next_members, if_neg]
  rintro ⟨hid, -⟩
  rw [hid, idNumber_checkpointId, Option.some.injEq] at hnumber
  omega

theorem replay_next {head : String × String} {layers : List Layer}
    (hsound : Sound sha256 a.manager.archives a.manager.seq head layers) (step : TreeCall) :
    replay host (a.next sha256 filters step).members layers.reverse = replay host a.members layers.reverse :=
  replayFrom_congr (fun layer hlayer => members_next hsound step layer (List.mem_reverse.mp hlayer)) false _

/-- A call that does not commit leaves what is recorded, and every chain. -/
theorem create_frame (sha256 : Archive → Digest) {m : CheckpointManager} {call : Call}
    (hcommits : commits m call = false) :
    (create sha256 m call).1.index = m.index ∧ (create sha256 m call).1.base = m.base ∧
      (create sha256 m call).1.manifests = m.manifests ∧ (create sha256 m call).1.chainLength = m.chainLength ∧
      ∀ head layers, Sound sha256 m.archives m.seq head layers →
        Sound sha256 (create sha256 m call).1.archives (create sha256 m call).1.seq head layers := by
  rcases create_of_not_commits sha256 hcommits with heq | heq | heq <;> rw [heq]
  · exact ⟨rfl, rfl, rfl, rfl, fun _ _ h => h⟩
  · exact ⟨rfl, rfl, rfl, rfl, fun _ _ h => h.mono (Nat.le_succ _) fun _ _ _ _ => rfl⟩
  · exact ⟨rfl, rfl, rfl, rfl, fun _ _ h => h.withArchive call⟩

theorem Newest.next_of_not_commits {commit : Commit} {index : Index} {record : CheckpointRecord} {layers : List Layer}
    (h : Newest sha256 filters host strict a commit index record layers)
    (hcommits : commits a.manager step.call = false) :
    Newest sha256 filters host strict (a.next sha256 filters step) commit index record layers := by
  obtain ⟨hindex, hbase, hmanifests, hlength, hsound⟩ := create_frame sha256 hcommits
  constructor
  · exact hindex.trans h.index_eq
  · exact h.records
  · exact hbase.trans h.base_eq
  · exact (congrArg List.head? hmanifests).trans h.head_eq
  · exact hsound _ _ h.sound
  · exact h.length_eq.trans (congrArg (· + 1) hlength.symm)
  · exact h.restores
  · exact h.absent
  · rw [replay_next h.sound step]
    exact h.replays

/-- A commit whose layers are known. -/
theorem newest_committed {layers : List Layer} (hcommits : commits a.manager step.call = true)
    (hsound : Sound sha256 (withArchive a.manager step.call).archives (a.manager.seq + 1)
      (checkpointId (a.manager.seq + 1), (sha256 (archiveOf a.manager step.call)).text) layers)
    (hlength : layers.length = (committed sha256 a.manager step.call).chainLength + 1)
    (hrestores : Restores filters (a.commit filters step).held step.tree)
    (hreplays : Gives strict (replay host (a.next sha256 filters step).members layers.reverse)
      (a.commit filters step).held) :
    Newest sha256 filters host strict (a.next sha256 filters step) (a.commit filters step)
      (nextIndex a.manager step.call) (newRecord sha256 a.manager step.call) layers := by
  have hmanager : (a.next sha256 filters step).manager = committed sha256 a.manager step.call :=
    create_of_commits hcommits
  constructor
  · rw [hmanager]
    rfl
  · exact records_nextIndex _ _
  · rw [hmanager]
    rfl
  · rw [hmanager]
    rfl
  · rw [hmanager, committed_archives, committed_seq]
    exact hsound
  · rw [hmanager]
    exact hlength
  · exact hrestores
  · exact fun _ => afterLayer_of_mem_leftOut
  · exact hreplays

/-- The members that a commit adds are those of its walk. -/
theorem members_committed (sha256 : Archive → Digest) (filters : Filters)
    (hcommits : commits a.manager step.call = true) :
    (a.next sha256 filters step).members (checkpointId (a.manager.seq + 1)) =
      writeArchive filters (comparedWith a.manager step.call) step.tree := by
  rw [next_members, if_pos ⟨rfl, stored_of_commits hcommits⟩]

/-- No link of the archive that the call makes leaves the root. -/
def StaysInside (filters : Filters) (host : Host) (a : Attempt) (step : TreeCall) : Prop :=
  LinksInside host (writeArchive filters (comparedWith a.manager step.call) step.tree) (a.commit filters step).held

theorem newest_full (hcommits : commits a.manager step.call = true)
    (hbase : previousBase a.manager step.call = none) (hadmissible : Admissible filters a step)
    (hinside : strict → StaysInside filters host a step) :
    Newest sha256 filters host strict (a.next sha256 filters step) (a.commit filters step)
      (nextIndex a.manager step.call) (newRecord sha256 a.manager step.call)
      [newLayer sha256 a.manager step.call] := by
  have hcompared : comparedWith a.manager step.call = none := by rw [comparedWith, hbase]; rfl
  have hheld : (a.commit filters step).held = afterLayer filters none step.tree PathMap.empty := by
    simp only [Attempt.commit, hcompared]
    exact afterLayer_none
  simp only [StaysInside, hcompared, hheld] at hinside
  have hid : (newLayer sha256 a.manager step.call).checkpointId = checkpointId (a.manager.seq + 1) := rfl
  refine newest_committed hcommits (sound_full hbase) (by simp [committed, hbase]) ?_ ?_
  · rw [hheld]
    refine restores_afterLayer ?_
    rintro _ _ _ ⟨⟩
  · rw [List.reverse_singleton, replay_singleton, hid, members_committed sha256 filters hcommits, hcompared, hheld]
    exact applyLayer_full _ _ hadmissible.alike hinside

/-- What a call compares with was recorded by the last commit. -/
theorem Replays.of_base (h : Replays sha256 filters host strict a) {base : String × String}
    (hbase : previousBase a.manager step.call = some base) :
    ∃ commit index record layers, a.last = some commit ∧
      Newest sha256 filters host strict a commit index record layers ∧
      base = (record.checkpointId, record.archiveSha256) ∧ previousIndex a.manager step.call = some index := by
  obtain ⟨hold, hrebases⟩ := previousBase_eq_some hbase
  cases hlast : a.last with
  | none =>
    rw [h.unrecorded hlast] at hold
    cases hold
  | some commit =>
    obtain ⟨index, record, layers, hnewest⟩ := h.recorded commit hlast
    rw [hnewest.base_eq, Option.some.injEq] at hold
    refine ⟨commit, index, record, layers, rfl, hnewest, hold.symm, ?_⟩
    rw [previousIndex, hrebases, if_neg Bool.false_ne_true, hnewest.index_eq]

theorem Replays.compared (h : Replays sha256 filters host strict a) {index : Index}
    (hcompared : comparedWith a.manager step.call = some index) :
    ∃ commit record layers, a.last = some commit ∧
      Newest sha256 filters host strict a commit index record layers := by
  unfold comparedWith at hcompared
  split at hcompared
  · rename_i hsome
    obtain ⟨base, hbase⟩ := Option.isSome_iff_exists.mp hsome
    obtain ⟨commit, index', record, layers, hlast, hnewest, -, hprevious⟩ := h.of_base hbase
    rw [hprevious, Option.some.injEq] at hcompared
    subst hcompared
    exact ⟨commit, record, layers, hlast, hnewest⟩
  · cases hcompared

theorem Replays.newest_onBase (h : Replays sha256 filters host strict a)
    (hcommits : commits a.manager step.call = true) {base : String × String}
    (hbase : previousBase a.manager step.call = some base) (hadmissible : Admissible filters a step)
    (hinside : strict → StaysInside filters host a step) :
    ∃ layers, Newest sha256 filters host strict (a.next sha256 filters step) (a.commit filters step)
      (nextIndex a.manager step.call) (newRecord sha256 a.manager step.call) layers := by
  obtain ⟨commit, index, record, layers, hlast, hnewest, rfl, hprevious⟩ := h.of_base hbase
  have hcompared : comparedWith a.manager step.call = some index := by rw [comparedWith, hbase, hprevious]; rfl
  have hheld : a.held = commit.held := by rw [Attempt.held, hlast]; rfl
  have hcommit : (a.commit filters step).held = afterLayer filters (some index) step.tree commit.held := by
    simp only [Attempt.commit, hcompared, hheld]
  simp only [StaysInside, hcompared, hcommit] at hinside
  have hsettled := hadmissible.settled commit hlast
  have hstale := hadmissible.noneStale index hcompared
  rw [hheld] at hstale
  have hid : (newLayer sha256 a.manager step.call).checkpointId = checkpointId (a.manager.seq + 1) := rfl
  have hdeleted : (newLayer sha256 a.manager step.call).deleted =
      (deletedSince index step.tree.index).map TreePath.text := by
    simp only [newLayer, hbase, Option.isSome_some, if_true, deletedPaths, hprevious, Option.elim_some]
    rfl
  have hne : layers ≠ [] := by
    obtain ⟨first, rest, rfl, -⟩ := hnewest.sound.top
    simp
  refine ⟨newLayer sha256 a.manager step.call :: layers, newest_committed hcommits
    (sound_onBase h.inv hbase hnewest.sound hnewest.length_eq) ?_ ?_ ?_⟩
  · rw [List.length_cons, hnewest.length_eq]
    simp [committed, hbase]
  · rw [hcommit]
    exact restores_afterLayer fun _ _ => kept_of_unchanged hnewest.restores hnewest.records hsettled
  · rw [replay_cons hne, replay_next hnewest.sound step, hid, members_committed sha256 filters hcommits, hcompared,
      hdeleted, hcommit]
    have hbelow := hnewest.replays
    cases hmade : replay host a.members layers.reverse with
    | error stop =>
      rw [hmade] at hbelow
      exact hbelow
    | ok made =>
      rw [hmade] at hbelow
      exact applyLayer_incremental hadmissible.alike _ hinside hnewest.restores hbelow hnewest.records hsettled hstale

theorem Replays.next (h : Replays sha256 filters host strict a) (hadmissible : Admissible filters a step)
    (hinside : strict → StaysInside filters host a step) :
    Replays sha256 filters host strict (a.next sha256 filters step) := by
  have hinv : Inv sha256 (a.next sha256 filters step).manager := h.inv.create step.call
  cases hcommits : commits a.manager step.call with
  | true =>
    have hlast := Attempt.last_next sha256 filters hcommits
    refine ⟨hinv, ?_, ?_⟩
    · rw [hlast]
      exact nofun
    · intro commit hsome
      rw [hlast, Option.some.injEq] at hsome
      subst hsome
      cases hbase : previousBase a.manager step.call with
      | none => exact ⟨_, _, _, newest_full hcommits hbase hadmissible hinside⟩
      | some base =>
        obtain ⟨layers, hnewest⟩ := h.newest_onBase hcommits hbase hadmissible hinside
        exact ⟨_, _, layers, hnewest⟩
  | false =>
    have hlast := Attempt.last_next_of_not_commits sha256 filters hcommits
    refine ⟨hinv, ?_, ?_⟩
    · intro hnone
      rw [hlast] at hnone
      exact (create_frame sha256 hcommits).2.1.trans (h.unrecorded hnone)
    · intro commit hsome
      rw [hlast] at hsome
      obtain ⟨index, record, layers, hnewest⟩ := h.recorded commit hsome
      exact ⟨index, record, layers, hnewest.next_of_not_commits hcommits⟩

theorem Replays.after (h : Replays sha256 filters host strict a) {history : List TreeCall}
    (hadmissible : ∀ done step, done ++ [step] <+: history → Admissible filters (a.after sha256 filters done) step)
    (hinside : strict → ∀ done step, done ++ [step] <+: history →
      StaysInside filters host (a.after sha256 filters done) step) :
    Replays sha256 filters host strict (a.after sha256 filters history) := by
  induction history using List.reverseRecOn with
  | nil => exact h
  | append_singleton history step ih =>
    rw [Attempt.after_append]
    have hearlier := ih (fun done step' hdone => hadmissible done step' (hdone.trans (List.prefix_append _ _)))
      fun hstrict done step' hdone => hinside hstrict done step' (hdone.trans (List.prefix_append _ _))
    exact hearlier.next (hadmissible history step List.prefix_rfl)
      fun hstrict => hinside hstrict history step List.prefix_rfl

end SwarmCloud.Checkpoints
