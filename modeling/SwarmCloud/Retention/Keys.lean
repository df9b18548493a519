import SwarmCloud.Common.Pools
import SwarmCloud.Common.States
import SwarmCloud.Lib.Paths

/-! # Whose checkpoint is an object of the bucket, and may it go

`reconciler/checkpoints.py`: a checkpoint is recovered from the keys of its
objects, the resume pointer of a task is cut down to the same form, and the
decision is taken from the task and its attempts alone.
-/

namespace SwarmCloud.Retention

open Common Lib

def manifestName : String := "manifest.json"

def tenantsRoot : String := "tenants/"

structure CheckpointRef where
  tenantId : String
  taskId : String
  attemptId : String
  checkpointId : String
  keyPrefix : String
deriving DecidableEq, Repr

def CheckpointRef.manifestKey (ref : CheckpointRef) : String := ref.keyPrefix ++ "/" ++ manifestName

def parseCheckpointKey (key : String) : Option CheckpointRef :=
  match segments key with
  | p₀ :: p₁ :: p₂ :: p₃ :: p₄ :: p₅ :: p₆ :: p₇ :: _ :: _ =>
    if p₀ ≠ "tenants" ∨ p₂ ≠ "tasks" ∨ p₄ ≠ "attempts" ∨ p₆ ≠ "checkpoints" then none
    else if [p₁, p₂, p₃, p₄, p₅, p₆, p₇].any (· = "") then none
    else some
      { tenantId := p₁, taskId := p₃, attemptId := p₅, checkpointId := p₇
        keyPrefix := joined [p₀, p₁, p₂, p₃, p₄, p₅, p₆, p₇] }
  | _ => none

/-- `task.latest_checkpoint` as a key of the bucket. What is not a text reads as no pointer. -/
def pointerToPrefix (pointer : Option String) : Option String :=
  match pointer with
  | none => none
  | some text =>
    if text = "" then none
    else
      match fromFirst tenantsRoot.toList text.toList with
      | none => none
      | some rest =>
        let candidate := rest.rdropWhile (· = '/')
        let cut := if ("/" ++ manifestName).toList.isSuffixOf candidate
          then candidate.take (candidate.length - manifestName.length - 1) else candidate
        if cut = [] then none else some (String.ofList cut)

/-- The fields of `model.TaskView` that retention reads. -/
structure TaskView where
  tenantId : String
  state : TaskState
  latestCheckpoint : Option String
deriving DecidableEq, Repr

structure AttemptView where
  attemptId : String
  completedAt : Option Instant
deriving DecidableEq, Repr

inductive Disposition
  | keep
  | reclaim
  | backstop
deriving DecidableEq, Repr

structure Decision where
  disposition : Disposition
  reason : String
deriving DecidableEq, Repr

def isTerminal (state : TaskState) : Bool := state ∈ terminalStates

/-- The checkpoint that the pointer names, read as if the manifest were asked for. -/
def pointed (task : TaskView) : Option CheckpointRef :=
  match pointerToPrefix task.latestCheckpoint with
  | none => none
  | some path => parseCheckpointKey (path ++ "/" ++ manifestName)

def sameAttempt (target ref : CheckpointRef) : Bool :=
  target.tenantId = ref.tenantId && target.taskId = ref.taskId && target.attemptId = ref.attemptId

/-- The last rule of `classify`: a task that may come back holds what its pointer needs. -/
def byPointer (ref : CheckpointRef) (task : TaskView) : Decision :=
  if canTransition task.state .ready ∧ pointerToPrefix task.latestCheckpoint = some ref.keyPrefix then
    ⟨.keep, s!"task.latest_checkpoint names it and {task.state.value} may still return to READY"⟩
  else if canTransition task.state .ready ∧ (pointed task).any (sameAttempt · ref) then
    ⟨.keep, "an earlier checkpoint of the attempt task.latest_checkpoint names, " ++
      s!"which a restore replays; {task.state.value} may still return to READY"⟩
  else ⟨.reclaim, s!"task {task.state.value}, attempt {ref.attemptId} complete, nothing references it"⟩

def classify (ref : CheckpointRef) (task : Option TaskView) (attempts : List AttemptView) : Decision :=
  match task with
  | none => ⟨.backstop, "no task document references this checkpoint"⟩
  | some task =>
    if task.tenantId ≠ "" ∧ task.tenantId ≠ ref.tenantId then
      ⟨.keep, s!"tenant mismatch: object is under {ref.tenantId}, task belongs to {task.tenantId}"⟩
    else if !isTerminal task.state then ⟨.keep, s!"task is {task.state.value}, not terminal"⟩
    else if (attempts.find? fun a => a.attemptId = ref.attemptId).isNone then
      ⟨.backstop, s!"attempt {ref.attemptId} has no document; cannot prove it finished"⟩
    else
      match attempts.find? fun a => a.completedAt.isNone with
      | some live =>
        ⟨.backstop, s!"attempt {live.attemptId} never recorded completion on a {task.state.value} task; " ++
          "honoured until the backstop"⟩
      | none => byPointer ref task

/-! ## Reading keys -/

/-- The eight parts of a key that lead to a checkpoint. -/
def CheckpointRef.parts (ref : CheckpointRef) : List String :=
  ["tenants", ref.tenantId, "tasks", ref.taskId, "attempts", ref.attemptId, "checkpoints", ref.checkpointId]

/-- A reference that some key leads to. -/
structure CheckpointRef.Proper (ref : CheckpointRef) : Prop where
  nonempty : ref.tenantId ≠ "" ∧ ref.taskId ≠ "" ∧ ref.attemptId ≠ "" ∧ ref.checkpointId ≠ ""
  slashless : ∀ part ∈ ref.parts, '/' ∉ part.toList
  path : ref.keyPrefix = joined ref.parts

theorem parse_eq_some_iff {key : String} {ref : CheckpointRef} :
    parseCheckpointKey key = some ref ↔
      ref.Proper ∧ ∃ file more, segments key = ref.parts ++ file :: more := by
  constructor
  · intro h
    unfold parseCheckpointKey at h
    split at h
    · rename_i p₀ p₁ p₂ p₃ p₄ p₅ p₆ p₇ file more hsegments
      split at h
      · cases h
      rename_i hwords
      split at h
      · cases h
      rename_i hempty
      cases h
      simp only [ne_eq, not_or, not_not] at hwords
      obtain ⟨rfl, rfl, rfl, rfl⟩ := hwords
      refine ⟨⟨?_, ?_, rfl⟩, file, more, hsegments⟩
      · simpa using hempty
      · intro part hpart
        have hmem : part ∈ segments key := by
          rw [hsegments]
          exact List.mem_append_left (file :: more) hpart
        exact slash_notMem_of_mem_segments hmem
    · cases h
  · rintro ⟨hproper, file, more, hsegments⟩
    obtain ⟨tenant, task, attempt, checkpoint, path⟩ := ref
    obtain ⟨hne, -, hpath⟩ := hproper
    unfold parseCheckpointKey
    rw [hsegments]
    simp_all [CheckpointRef.parts]

theorem CheckpointRef.Proper.segments_path {ref : CheckpointRef} (h : ref.Proper) :
    segments ref.keyPrefix = ref.parts := by
  rw [h.path, segments_joined (by simp [CheckpointRef.parts]) h.slashless]

theorem parse_under {ref : CheckpointRef} (h : ref.Proper) (file : String) :
    parseCheckpointKey (ref.keyPrefix ++ "/" ++ file) = some ref := by
  refine parse_eq_some_iff.mpr ⟨h, ?_⟩
  rw [segments_slash, h.segments_path]
  cases hfile : segments file with
  | nil => exact absurd hfile (segments_ne_nil file)
  | cons first more => exact ⟨first, more, rfl⟩

theorem proper_of_parse {key : String} {ref : CheckpointRef} (h : parseCheckpointKey key = some ref) :
    ref.Proper :=
  (parse_eq_some_iff.mp h).1

/-- The path of a checkpoint says everything about it. -/
theorem ref_eq_of_path {ref ref' : CheckpointRef} (h : ref.Proper) (h' : ref'.Proper)
    (hpath : ref.keyPrefix = ref'.keyPrefix) : ref = ref' := by
  have hparse := parse_under h manifestName
  rw [hpath, parse_under h' manifestName] at hparse
  exact (Option.some.inj hparse).symm

/-! ## Reading pointers -/

/-- A text that ends in a path, and whose first `tenants/` starts the path. -/
def UriOf (pointer path : String) : Prop :=
  ∃ root : String, pointer = root ++ path ∧
    ∀ u v : List Char, pointer.toList = u ++ tenantsRoot.toList ++ v → root.toList.length ≤ u.length

/-- The pointer names the checkpoint, with or without its manifest. -/
def Names (pointer : String) (ref : CheckpointRef) : Prop :=
  UriOf pointer ref.keyPrefix ∨ UriOf pointer ref.manifestKey

theorem manifest_suffix_iff {dir last : String} (hslash : '/' ∉ last.toList) :
    ("/" ++ manifestName).toList.isSuffixOf (dir ++ "/" ++ last).toList = true ↔ last = manifestName := by
  rw [List.isSuffixOf_iff_suffix]
  constructor
  · rintro ⟨before, hbefore⟩
    have htext : String.ofList before ++ "/" ++ manifestName = dir ++ "/" ++ last := by
      apply String.ext
      simpa [String.toList_append] using hbefore
    have hsegments := congrArg (fun path => (segments path).getLast?) htext
    have hname : segments manifestName = [manifestName] := segments_of_slashless (by decide)
    simp only [segments_slash, segments_of_slashless hslash, hname, List.getLast?_append, List.getLast?_singleton,
      Option.some_or, Option.some.injEq] at hsegments
    exact hsegments.symm
  · rintro rfl
    exact ⟨dir.toList, by simp⟩

theorem pointerToPrefix_uri {pointer dir last : String} (h : UriOf pointer (dir ++ "/" ++ last))
    (hroot : tenantsRoot.toList <+: (dir ++ "/" ++ last).toList) (hdir : dir ≠ "") (hlast : last ≠ "")
    (hslash : '/' ∉ last.toList) :
    pointerToPrefix (some pointer) = some (if last = manifestName then dir else dir ++ "/" ++ last) := by
  obtain ⟨root, rfl, hfirst⟩ := h
  have hne : root ++ (dir ++ "/" ++ last) ≠ "" := by
    intro hempty
    have := congrArg String.toList hempty
    simp at this
  have hchars : last.toList ≠ [] := fun hnil => hlast (String.toList_eq_nil_iff.mp hnil)
  have hfound : fromFirst tenantsRoot.toList (root ++ (dir ++ "/" ++ last)).toList =
      some (dir ++ "/" ++ last).toList := by
    rw [String.toList_append] at hfirst ⊢
    exact fromFirst_eq_some hroot hfirst
  have hstrip : (dir ++ "/" ++ last).toList.rdropWhile (· = '/') = (dir ++ "/" ++ last).toList := by
    rw [List.rdropWhile_eq_self_iff]
    intro hnonempty
    have hend : (dir ++ "/" ++ last).toList.getLast hnonempty = last.toList.getLast hchars := by
      simp only [String.toList_append]
      rw [List.getLast_append_of_ne_nil _ hchars]
    rw [hend, decide_eq_true_eq]
    exact fun hc => hslash (hc ▸ List.getLast_mem hchars)
  unfold pointerToPrefix
  dsimp only
  rw [if_neg hne, hfound]
  dsimp only
  rw [hstrip]
  by_cases hname : last = manifestName
  · have htake : (dir ++ "/" ++ last).toList.take ((dir ++ "/" ++ last).toList.length - manifestName.length - 1) =
        dir.toList := by
      have hlen : (dir ++ "/" ++ last).toList.length - manifestName.length - 1 = dir.toList.length := by
        rw [hname]
        simp only [String.toList_append, List.length_append, String.length_toList]
        have : ("/" : String).length = 1 := by decide
        omega
      rw [hlen]
      simp
    have hcut : dir.toList ≠ [] := fun hnil => hdir (String.toList_eq_nil_iff.mp hnil)
    rw [if_pos ((manifest_suffix_iff hslash).mpr hname), htake, if_neg hcut, if_pos hname, String.ofList_toList]
  · have hfull : (dir ++ "/" ++ last).toList ≠ [] := by simp
    rw [if_neg (fun hsuffix => hname ((manifest_suffix_iff hslash).mp hsuffix)), if_neg hfull, if_neg hname,
      String.ofList_toList]

/-- The directory that holds the checkpoints of an attempt. -/
def CheckpointRef.directory (ref : CheckpointRef) : String := joined (ref.parts.take 7)

theorem CheckpointRef.Proper.segments_directory {ref : CheckpointRef} (h : ref.Proper) :
    segments ref.directory = ref.parts.take 7 :=
  segments_joined (by simp [CheckpointRef.parts]) fun part hpart => h.slashless part (List.mem_of_mem_take hpart)

theorem CheckpointRef.Proper.path_eq {ref : CheckpointRef} (h : ref.Proper) :
    ref.keyPrefix = ref.directory ++ "/" ++ ref.checkpointId := by
  apply segments_inj
  have hid : '/' ∉ ref.checkpointId.toList := h.slashless _ (by simp [CheckpointRef.parts])
  rw [h.segments_path, segments_slash, h.segments_directory, segments_of_slashless hid]
  rfl

theorem tenantsRoot_prefix {path : String} {tail : List String} (h : segments path = "tenants" :: tail)
    (htail : tail ≠ []) : tenantsRoot.toList <+: path.toList := by
  rw [← joined_segments path, h]
  cases tail with
  | nil => exact absurd rfl htail
  | cons next more =>
    refine ⟨(joined (next :: more)).toList, ?_⟩
    simp [joined, List.intercalate, tenantsRoot]

theorem pointerToPrefix_manifest {pointer : String} {ref : CheckpointRef} (h : ref.Proper)
    (huri : UriOf pointer ref.manifestKey) : pointerToPrefix (some pointer) = some ref.keyPrefix := by
  have hsegments : segments ref.manifestKey = ref.parts ++ [manifestName] := by
    rw [CheckpointRef.manifestKey, segments_slash, h.segments_path, segments_of_slashless (by decide)]
  have hne : ref.keyPrefix ≠ "" := by
    intro hempty
    have hlength := congrArg List.length h.segments_path
    rw [hempty, segments_of_slashless (by decide)] at hlength
    simp [CheckpointRef.parts] at hlength
  have hroot : tenantsRoot.toList <+: ref.manifestKey.toList := tenantsRoot_prefix hsegments (by simp)
  rw [CheckpointRef.manifestKey] at huri hroot
  rw [pointerToPrefix_uri huri hroot hne (by decide) (by decide), if_pos rfl]

theorem pointerToPrefix_bare {pointer : String} {ref : CheckpointRef} (h : ref.Proper)
    (huri : UriOf pointer ref.keyPrefix) :
    pointerToPrefix (some pointer) = some (if ref.checkpointId = manifestName then ref.directory else ref.keyPrefix) := by
  have hroot : tenantsRoot.toList <+: ref.keyPrefix.toList := tenantsRoot_prefix h.segments_path (by simp)
  have hne : ref.directory ≠ "" := by
    intro hempty
    have hlength := congrArg List.length h.segments_directory
    rw [hempty, segments_of_slashless (by decide)] at hlength
    simp [CheckpointRef.parts] at hlength
  rw [h.path_eq] at huri hroot
  rw [pointerToPrefix_uri huri hroot hne h.nonempty.2.2.2 (h.slashless _ (by simp [CheckpointRef.parts])), ← h.path_eq]

/-- A bare name of a checkpoint that is itself called `manifest.json` loses its last part. -/
def Truncated (pointer : String) (ref : CheckpointRef) : Prop :=
  UriOf pointer ref.keyPrefix ∧ ref.checkpointId = manifestName

theorem directory_not_checkpoint {ref : CheckpointRef} (h : ref.Proper) :
    parseCheckpointKey (ref.directory ++ "/" ++ manifestName) = none := by
  rw [Option.eq_none_iff_forall_ne_some]
  intro target htarget
  obtain ⟨-, file, more, hsegments⟩ := parse_eq_some_iff.mp htarget
  have hlength := congrArg List.length hsegments
  rw [segments_slash, h.segments_directory, segments_of_slashless (by decide)] at hlength
  simp [CheckpointRef.parts] at hlength

theorem directory_ne_path {ref ref' : CheckpointRef} (h : ref.Proper) (h' : ref'.Proper) :
    ref.directory ≠ ref'.keyPrefix := by
  intro heq
  have hlength := congrArg (fun path => (segments path).length) heq
  simp only [h.segments_directory, h'.segments_path] at hlength
  simp [CheckpointRef.parts] at hlength

/-! ## What the decision rests on -/

section Decision

variable {ref target : CheckpointRef} {task : TaskView} {attempts : List AttemptView} {pointer : String}

theorem byPointer_of_names (hready : canTransition task.state .ready = true)
    (hpointer : task.latestCheckpoint = some pointer) (htarget : target.Proper) (hnames : Names pointer target)
    (hwhole : ¬ Truncated pointer target) (hsame : sameAttempt target ref = true) :
    (byPointer ref task).disposition = .keep := by
  have hpath : pointerToPrefix task.latestCheckpoint = some target.keyPrefix := by
    rw [hpointer]
    rcases hnames with hbare | hmanifest
    · rw [pointerToPrefix_bare htarget hbare, if_neg fun hid => hwhole ⟨hbare, hid⟩]
    · exact pointerToPrefix_manifest htarget hmanifest
  have hpointed : pointed task = some target := by
    rw [pointed, hpath]
    exact parse_under htarget manifestName
  unfold byPointer
  rw [hpointed, Option.any_some]
  split
  · rfl
  · rw [if_pos ⟨hready, hsame⟩]

theorem byPointer_of_truncated (hpointer : task.latestCheckpoint = some pointer) (href : ref.Proper)
    (htarget : target.Proper) (htruncated : Truncated pointer target) :
    (byPointer ref task).disposition = .reclaim := by
  obtain ⟨hbare, hid⟩ := htruncated
  have hpath : pointerToPrefix task.latestCheckpoint = some target.directory := by
    rw [hpointer, pointerToPrefix_bare htarget hbare, if_pos hid]
  have hpointed : pointed task = none := by
    rw [pointed, hpath]
    exact directory_not_checkpoint htarget
  have hne : ¬ (canTransition task.state .ready = true ∧
      pointerToPrefix task.latestCheckpoint = some ref.keyPrefix) := by
    rw [hpath]
    exact fun h => directory_ne_path htarget href (Option.some.inj h.2)
  rw [byPointer, if_neg hne, hpointed, if_neg (by simp)]

/-- The attempt that wrote the checkpoint has no document, or some attempt of the task has not finished. -/
def RecordsIncomplete (ref : CheckpointRef) (attempts : List AttemptView) : Prop :=
  (∀ a ∈ attempts, a.attemptId ≠ ref.attemptId) ∨ ∃ a ∈ attempts, a.completedAt = none

theorem classify_kept (h : (task.tenantId ≠ "" ∧ task.tenantId ≠ ref.tenantId) ∨ isTerminal task.state = false) :
    (classify ref (some task) attempts).disposition = .keep := by
  unfold classify
  dsimp only
  split
  · rfl
  · rename_i htenant
    rw [if_pos (by simpa using h.resolve_left htenant)]

theorem classify_incomplete (htenant : task.tenantId = "" ∨ task.tenantId = ref.tenantId)
    (hterminal : isTerminal task.state = true) (h : RecordsIncomplete ref attempts) :
    (classify ref (some task) attempts).disposition = .backstop := by
  have hno : ¬ (task.tenantId ≠ "" ∧ task.tenantId ≠ ref.tenantId) := by
    rcases htenant with htenant | htenant <;> simp [htenant]
  unfold classify
  dsimp only
  rw [if_neg hno, if_neg (by simp [hterminal])]
  rcases h with hmissing | ⟨live, hlive, hnone⟩
  · rw [if_pos (by simpa using hmissing)]
  · split
    · rfl
    · have hfound : (attempts.find? fun a => a.completedAt.isNone).isSome := by
        rw [List.find?_isSome]
        exact ⟨live, hlive, by simp [hnone]⟩
      obtain ⟨found, hfound⟩ := Option.isSome_iff_exists.mp hfound
      rw [hfound]

theorem classify_complete (htenant : task.tenantId = "" ∨ task.tenantId = ref.tenantId)
    (hterminal : isTerminal task.state = true) (h : ¬ RecordsIncomplete ref attempts) :
    classify ref (some task) attempts = byPointer ref task := by
  have hno : ¬ (task.tenantId ≠ "" ∧ task.tenantId ≠ ref.tenantId) := by
    rcases htenant with htenant | htenant <;> simp [htenant]
  obtain ⟨howner, hdone⟩ := not_or.mp h
  push Not at howner hdone
  obtain ⟨owner, howner, hid⟩ := howner
  have hpresent : ¬ (attempts.find? fun a => a.attemptId = ref.attemptId).isNone = true := by
    simp only [Option.isNone_iff_eq_none, List.find?_eq_none, not_forall]
    exact ⟨owner, howner, by simp [hid]⟩
  have hfinished : (attempts.find? fun a => a.completedAt.isNone) = none := by
    rw [List.find?_eq_none]
    intro a ha
    simpa using hdone a ha
  unfold classify
  dsimp only
  rw [if_neg hno, if_neg (by simp [hterminal]), if_neg hpresent, hfinished]

end Decision

end SwarmCloud.Retention
