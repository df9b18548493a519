import SwarmCloud.Staging.Inputs

/-! # What is accepted can be staged

The API and the worker keep two copies of one rule for paths, over strings and over
the parts of a POSIX path, before and after the step ids become task ids. A step that
the API accepts is one that the worker stages: each of its files lands at a path of
its own, and no path is a directory of another.
-/

namespace SwarmCloud.Staging

open Lib AttemptState

/-- A relative path that no part of the rule refuses. -/
structure SafeName (name : String) : Prop where
  nonempty : name ≠ ""
  relative : name.toList.head? ≠ some '/'
  characters : '\\' ∉ name.toList ∧ '\x00' ∉ name.toList
  segments : ∀ segment ∈ segments name, segment ∉ unsafeSegments

theorem safeName_of_filenameProblem {name : String} (h : filenameProblem name = none) : SafeName name := by
  unfold filenameProblem at h
  split at h
  · cases h
  split at h
  · cases h
  split at h
  · cases h
  rename_i hempty habsolute hcharacters
  split at h
  · cases h
  rename_i hsegments
  rw [List.find?_eq_none] at hsegments
  exact ⟨hempty, habsolute, not_or.mp hcharacters, fun segment hsegment hmem =>
    hsegments segment hsegment (decide_eq_true hmem)⟩

/-- A safe segment in front of a safe name. -/
theorem SafeName.under {dir name : String} (h : SafeName name) (hdir : dir ∉ unsafeSegments)
    (hcharacters : ∀ c ∈ dir.toList, c ≠ '/' ∧ c ≠ '\\' ∧ c ≠ '\x00') : SafeName (dir ++ "/" ++ name) := by
  have hlist : (dir ++ "/" ++ name).toList = dir.toList ++ '/' :: name.toList := by simp
  have hslash : '/' ∉ dir.toList := fun hmem => (hcharacters '/' hmem).1 rfl
  constructor
  · intro heq
    have := congrArg String.toList heq
    rw [hlist] at this
    simp at this
  · rw [hlist]
    intro hhead
    cases hchars : dir.toList with
    | nil =>
      have hempty : dir = "" := String.toList_eq_nil_iff.mp hchars
      exact hdir (hempty ▸ by decide)
    | cons c cs =>
      rw [hchars] at hhead
      have hc : c = '/' := Option.some.inj hhead
      exact hslash (by rw [hchars, hc]; exact List.mem_cons_self)
  · rw [hlist]
    constructor
    · intro hmem
      rcases List.mem_append.mp hmem with hmem | hmem
      · exact (hcharacters _ hmem).2.1 rfl
      · rcases List.mem_cons.mp hmem with heq | hmem
        · exact absurd heq (by decide)
        · exact h.characters.1 hmem
    · intro hmem
      rcases List.mem_append.mp hmem with hmem | hmem
      · exact (hcharacters _ hmem).2.2 rfl
      · rcases List.mem_cons.mp hmem with heq | hmem
        · exact absurd heq (by decide)
        · exact h.characters.2 hmem
  · intro segment hsegment
    rw [segments_under hslash] at hsegment
    rcases List.mem_cons.mp hsegment with rfl | hsegment
    · exact hdir
    · exact h.segments segment hsegment

/-! ## The worker's path of a safe name -/

theorem posixParts_of_safeName {name : String} (h : SafeName name) : posixParts name = segments name := by
  unfold posixParts
  rw [if_pos h.relative, List.filter_eq_self]
  intro segment hsegment
  have hsafe := h.segments segment hsegment
  rw [unsafeSegments, List.mem_cons, List.mem_cons, not_or, not_or] at hsafe
  simp [hsafe.1, hsafe.2.1]

/-- Nothing below the work directory is a link: a path of it by plain names resolves part by part. -/
def Workspace.NoLinks (ws : Workspace) : Prop :=
  ∀ parts : List String, (∀ part ∈ parts, part ∉ unsafeSegments) →
    ws.resolve (ws.work ++ parts) = ws.resolve ws.work ++ parts

theorem destinationFor_of_safeName {ws : Workspace} (hlinks : ws.NoLinks) {name : String} (h : SafeName name)
    {reserved : List String} (hreserved : ∀ first ∈ (segments name).head?, first ∉ reserved) :
    destinationFor ws name reserved = .ok (ws.work ++ segments name) := by
  have hunsafe : ¬ (segments name = [] ∨
      ((segments name).any fun part => part = "" || part = "." || part = "..") = true) := by
    rintro (hnil | hany)
    · exact segments_ne_nil name hnil
    · obtain ⟨part, hpart, hbad⟩ := List.any_eq_true.mp hany
      refine h.segments part hpart ?_
      simpa [unsafeSegments, or_assoc] using hbad
  have hchars : ¬ ('\\' ∈ name.toList ∨ '\x00' ∈ name.toList) := not_or.mpr h.characters
  have hfirst : ¬ (segments name).head?.any (· ∈ reserved) = true := by
    intro hany
    obtain ⟨first, hsome, hmem⟩ := (Option.any_eq_true _ _).mp hany
    exact hreserved first hsome (of_decide_eq_true hmem)
  rw [destinationFor, posixParts_of_safeName h, if_neg h.relative, if_neg hunsafe, if_neg hchars, if_neg hfirst,
    hlinks _ h.segments, if_pos (List.isPrefixOf_iff_prefix.mpr (List.prefix_append _ _))]

/-! ## What the API accepts -/

section Accepted

variable {step : StepSpec}

theorem accepted_names (h : validateStagedFilenames step = .ok ()) :
    ∀ item ∈ step.inputFrom, SafeName (stripped item.2) := by
  unfold validateStagedFilenames at h
  split at h
  · cases h
  · rename_i hnone
    intro item hitem
    have hitemNone := List.findSome?_eq_none_iff.mp hnone item hitem
    exact safeName_of_filenameProblem (Option.map_eq_none_iff.mp hitemNone)

theorem accepted_flat (h : validateStagedFilenames step = .ok ()) (hflat : step.inputLayout = .flat) :
    sameNameClash step.stepId (landing step.inputFrom) = none ∧
      directoryClash step.stepId (landing step.inputFrom) = none := by
  unfold validateStagedFilenames at h
  split at h
  · cases h
  rw [if_neg (by rw [hflat]; decide)] at h
  split at h
  · cases h
  rename_i hsame
  split at h
  · cases h
  rename_i hdirectory
  exact ⟨hsame, hdirectory⟩

/-- In the flat layout, no two parents stage one name. -/
theorem accepted_distinct (h : validateStagedFilenames step = .ok ()) (hflat : step.inputLayout = .flat) :
    (step.inputFrom.map fun item => stripped item.2).Nodup := by
  have hsame := (accepted_flat h hflat).1
  refine (Dict.grouped_small_iff _ Prod.fst step.inputFrom).mp fun item hitem => ?_
  have hnone := List.findSome?_eq_none_iff.mp hsame item hitem
  by_contra hlong
  rw [if_neg hlong] at hnone
  cases hnone

/-- In the flat layout, a name whose segments begin those of another one is that other one. -/
theorem accepted_no_directory (h : validateStagedFilenames step = .ok ()) (hflat : step.inputLayout = .flat)
    {outer inner : String × String} (houter : outer ∈ step.inputFrom) (hinner : inner ∈ step.inputFrom)
    (hbegins : segments (stripped outer.2) <+: segments (stripped inner.2)) :
    segments (stripped outer.2) = segments (stripped inner.2) := by
  have hdirectory := (accepted_flat h hflat).2
  by_contra hne
  have hlt : (segments (stripped outer.2)).length < (segments (stripped inner.2)).length := by
    refine lt_of_le_of_ne hbegins.length_le fun heq => hne (hbegins.eq_of_length heq)
  have hpos : 0 < (segments (stripped outer.2)).length := List.length_pos_of_ne_nil (segments_ne_nil _)
  have hmem : stripped inner.2 ∈ sortBy id ((landing step.inputFrom).map Prod.fst) :=
    mem_sortBy.mpr (Dict.mem_grouped _ _ hinner)
  have hinnerNone := List.findSome?_eq_none_iff.mp hdirectory _ hmem
  have hdepth : (segments (stripped outer.2)).length ∈ List.range' 1 ((segments (stripped inner.2)).length - 1) := by
    rw [List.mem_range'_1]
    omega
  have hdepthNone := List.findSome?_eq_none_iff.mp hinnerNone _ hdepth
  rw [← eq_joined_take hbegins] at hdepthNone
  -- The outer name is one that lands, so its group is found.
  have houterMem : stripped outer.2 ∈ (landing step.inputFrom).map Prod.fst := Dict.mem_grouped _ _ houter
  obtain ⟨item, hitem, hkey⟩ := List.mem_map.mp houterMem
  obtain ⟨sources, hsources⟩ := Dict.exists_lookup hitem
  rw [hkey] at hsources
  dsimp only at hdepthNone
  rw [hsources] at hdepthNone
  cases hdepthNone

end Accepted

/-! ## What the worker declares -/

theorem idChar_range {c : Char} (h : (c.isAlphanum || c = '_' || c = '-' || c = '.') = true) :
    (48 ≤ c.toNat ∧ c.toNat ≤ 57) ∨ (65 ≤ c.toNat ∧ c.toNat ≤ 90) ∨ (97 ≤ c.toNat ∧ c.toNat ≤ 122) ∨
      c.toNat = 95 ∨ c.toNat = 45 ∨ c.toNat = 46 := by
  have hval : c.val.toNat = c.toNat := rfl
  change (((decide (65 ≤ c.val ∧ c.val ≤ 90) || (decide (97 ≤ c.val) && decide (c.val ≤ 122))) ||
    (decide (48 ≤ c.val) && decide (c.val ≤ 57))) || decide (c = '_') || decide (c = '-') || decide (c = '.')) = true
    at h
  simp only [Bool.or_eq_true, Bool.and_eq_true, decide_eq_true_eq, UInt32.le_iff_toNat_le] at h
  rcases h with ((((hupper | hlower) | hdigit) | rfl) | rfl) | rfl
  · right; left
    simpa using hupper
  · right; right; left
    simpa using hlower
  · left
    simpa using hdigit
  all_goals decide

theorem isSpace_of_range {c : Char} (h : 33 ≤ c.toNat ∧ c.toNat ≤ 126) : Quota.isSpace c = false := by
  simp only [Quota.isSpace, Bool.or_eq_false_iff, Bool.and_eq_false_iff, decide_eq_false_iff_not, beq_eq_false_iff_ne]
  omega

theorem stepId_characters {stepId : String} (h : isStepId stepId = true) :
    stripped stepId = stepId ∧ stepId ∉ unsafeSegments ∧
      ∀ c ∈ stepId.toList, c ≠ '/' ∧ c ≠ '\\' ∧ c ≠ '\x00' := by
  rw [isStepId, Bool.and_eq_true, Bool.and_eq_true] at h
  obtain ⟨⟨-, hhead⟩, hall⟩ := h
  have hrange := fun c hc => idChar_range (List.all_eq_true.mp hall c hc)
  refine ⟨?_, ?_, ?_⟩
  · refine strip_of_forall fun c hc => isSpace_of_range ?_
    have := hrange c hc
    omega
  · -- Its first character is a letter or a digit, so it is neither empty nor made of dots.
    intro hmem
    obtain ⟨c, hc, halnum⟩ := (Option.any_eq_true _ _).mp hhead
    rcases List.mem_cons.mp hmem with rfl | hmem
    · cases hc
    · rcases List.mem_cons.mp hmem with rfl | hmem
      · obtain rfl : '.' = c := Option.some.inj hc
        exact absurd halnum (by decide)
      · obtain rfl := List.mem_singleton.mp hmem
        obtain rfl : '.' = c := Option.some.inj hc
        exact absurd halnum (by decide)
  · intro c hc
    have := hrange c hc
    refine ⟨?_, ?_, ?_⟩
    · rintro rfl
      exact absurd this (by decide)
    · rintro rfl
      exact absurd this (by decide)
    · rintro rfl
      exact absurd this (by decide)

theorem taskId_stripped {taskId : String} (h : isTaskId taskId = true) : stripped taskId = taskId ∧ taskId ≠ "" := by
  rw [isTaskId, Bool.and_eq_true, Bool.and_eq_true] at h
  obtain ⟨⟨hbegins, -⟩, hhex⟩ := h
  obtain ⟨rest, hrest⟩ := List.isPrefixOf_iff_prefix.mp hbegins
  have hdrop : taskId.toList.drop 5 = rest := by rw [← hrest]; rfl
  rw [hdrop] at hhex
  constructor
  · refine strip_of_forall fun c hc => isSpace_of_range ?_
    rw [← hrest] at hc
    rcases List.mem_append.mp hc with hc | hc
    · have hname : ("task_".toList.all fun c => decide (33 ≤ c.toNat ∧ c.toNat ≤ 126)) = true := by decide
      exact of_decide_eq_true (List.all_eq_true.mp hname c hc)
    · have hdigit := List.all_eq_true.mp hhex c hc
      rcases Bool.or_eq_true_iff.mp hdigit with hdigit | hletter
      · have := idChar_range (c := c) (by simp [Char.isAlphanum, hdigit])
        omega
      · obtain ⟨ha, hf⟩ := Bool.and_eq_true_iff.mp hletter
        have hlow : 97 ≤ c.toNat := of_decide_eq_true ha
        have hhigh : c.toNat ≤ 102 := of_decide_eq_true hf
        omega
  · rintro rfl
    cases hrest

/-- The step ids of a submission, and the task ids that its steps got. -/
structure Submitted (step : StepSpec) (taskIdOf : String → String) : Prop where
  keys : (step.inputFrom.map Prod.fst).Nodup
  stepIds : ∀ item ∈ step.inputFrom, isStepId item.1 = true
  taskIds : ∀ item ∈ step.inputFrom, isTaskId (taskIdOf item.1) = true
  distinct : ∀ item ∈ step.inputFrom, ∀ item' ∈ step.inputFrom, taskIdOf item.1 = taskIdOf item'.1 → item.1 = item'.1

/-- The input that the worker declares for an entry of `input_from`. -/
def declaredOf (step : StepSpec) (taskIdOf : String → String) (item : String × String) : DeclaredInput where
  upstreamTaskId := taskIdOf item.1
  filename := stripped item.2
  parentStepId := if step.inputLayout = .byParent then some item.1 else none

section Declared

variable {step : StepSpec} {taskIdOf : String → String}

theorem declaredItems_eq {items : List (String × String)} (hids : ∀ item ∈ items, isTaskId (taskIdOf item.1) = true)
    (hnames : ∀ item ∈ items, SafeName (stripped item.2)) :
    declaredItems (items.map fun item => (taskIdOf item.1, .str item.2)) =
      .ok (items.map fun item => { upstreamTaskId := taskIdOf item.1, filename := stripped item.2 }) := by
  induction items with
  | nil => rfl
  | cons item items ih =>
    obtain ⟨hid, hids⟩ := List.forall_mem_cons.mp hids
    obtain ⟨hname, hnames⟩ := List.forall_mem_cons.mp hnames
    obtain ⟨hstripped, hnonempty⟩ := taskId_stripped hid
    have hfirst : declaredInput (taskIdOf item.1) (.str item.2) =
        .ok { upstreamTaskId := taskIdOf item.1, filename := stripped item.2 } := by
      rw [declaredInput, hstripped, if_neg hnonempty, if_neg hname.nonempty]
    rw [List.map_cons, declaredItems, hfirst, ih hids hnames]
    rfl

theorem parentSteps_eq {items : List (String × String)} {parents : Dict String String}
    (hids : ∀ item ∈ items, isTaskId (taskIdOf item.1) = true) (hsteps : ∀ item ∈ items, isStepId item.1 = true)
    (hnodup : (parents.map Prod.fst ++ items.map fun item => taskIdOf item.1).Nodup) :
    parentSteps parents (items.map fun item => (taskIdOf item.1, .str item.1)) =
      .ok (parents ++ items.map fun item => (taskIdOf item.1, item.1)) := by
  induction items generalizing parents with
  | nil => rw [List.map_nil, List.map_nil, List.append_nil, parentSteps]
  | cons item items ih =>
    obtain ⟨hid, hids⟩ := List.forall_mem_cons.mp hids
    obtain ⟨hstep, hsteps⟩ := List.forall_mem_cons.mp hsteps
    obtain ⟨hstripped, hsafe, hcharacters⟩ := stepId_characters hstep
    have hparent : parentStep (taskIdOf item.1) (.str item.1) = .ok item.1 := by
      rw [parentStep, hstripped, if_neg]
      rintro (hempty | hdot | hdots | hbad)
      · exact hsafe (hempty ▸ by decide)
      · exact hsafe (hdot ▸ by decide)
      · exact hsafe (hdots ▸ by decide)
      · obtain ⟨c, hc, hbad⟩ := List.any_eq_true.mp hbad
        obtain ⟨hslash, hback, hnul⟩ := hcharacters c hc
        simp [hslash, hback, hnul] at hbad
    have hnew : taskIdOf item.1 ∉ parents.map Prod.fst := by
      intro hmem
      rw [List.map_cons, List.nodup_append] at hnodup
      exact hnodup.2.2 _ hmem _ List.mem_cons_self rfl
    rw [List.map_cons, parentSteps, hparent]
    dsimp only [bind, Except.bind]
    rw [(taskId_stripped hid).1, Dict.set_of_new hnew, ih hids hsteps]
    · rw [List.map_cons, List.append_assoc, List.singleton_append]
    · rw [List.map_append, List.append_assoc]
      exact hnodup

/-- The entries in the order in which the worker declares them. -/
def declaredOrder (step : StepSpec) (taskIdOf : String → String) : List (String × String) :=
  sortBy (fun item => taskIdOf item.1) step.inputFrom

theorem nodup_taskIds (h : Submitted step taskIdOf) :
    ((declaredOrder step taskIdOf).map fun item => taskIdOf item.1).Nodup := by
  have hperm := (sortBy_perm (fun item : String × String => taskIdOf item.1) step.inputFrom).map
    fun item => taskIdOf item.1
  refine (hperm.nodup_iff).mpr ?_
  refine List.Nodup.map_on ?_ (List.Nodup.of_map Prod.fst h.keys)
  intro item hitem item' hitem' heq
  exact List.inj_on_of_nodup_map h.keys hitem hitem' (h.distinct item hitem item' hitem' heq)

theorem mem_declaredOrder {item : String × String} :
    item ∈ declaredOrder step taskIdOf ↔ item ∈ step.inputFrom := mem_sortBy

/-- The parents that the worker reads of a step's metadata. -/
theorem declaredParents_eq (h : Submitted step taskIdOf) (hsome : step.inputFrom ≠ []) {metadata block : Fields}
    (hblock : block.lookup "input_parents" = none) {declared : List DeclaredInput}
    (hdeclared : declared.map DeclaredInput.upstreamTaskId =
      (declaredOrder step taskIdOf).map fun item => taskIdOf item.1) :
    declaredParents (stepMetadata step taskIdOf metadata block) declared =
      .ok (if step.inputLayout = .byParent then
        some ((declaredOrder step taskIdOf).map fun item => (taskIdOf item.1, item.1)) else none) := by
  have hids : ∀ item ∈ declaredOrder step taskIdOf, isTaskId (taskIdOf item.1) = true :=
    fun item hitem => h.taskIds item (mem_declaredOrder.mp hitem)
  have hsteps : ∀ item ∈ declaredOrder step taskIdOf, isStepId item.1 = true :=
    fun item hitem => h.stepIds item (mem_declaredOrder.mp hitem)
  have hdispatch : (stepMetadata step taskIdOf metadata block).lookup "dispatch" =
      some (.map (if step.inputFrom ≠ [] ∧ step.inputLayout = .byParent then
        block.set "input_parents" (.map (sortBy Prod.fst (step.inputFrom.map fun item => (taskIdOf item.1, item.1))
          |>.map fun item => (item.1, .str item.2)))
        else block)) := by
    rw [stepMetadata, if_pos hsome, Dict.lookup_set, if_neg (by decide), Dict.lookup_set, if_pos rfl]
  rw [declaredParents, hdispatch]
  dsimp only
  by_cases hlayout : step.inputLayout = .byParent
  · rw [if_pos ⟨hsome, hlayout⟩, if_pos hlayout, Dict.lookup_set, if_pos rfl]
    have hraw : ((sortBy Prod.fst (step.inputFrom.map fun item => (taskIdOf item.1, item.1))).map
        fun item => (item.1, Value.str item.2)) =
          (declaredOrder step taskIdOf).map fun item => (taskIdOf item.1, .str item.1) := by
      rw [sortBy_map, List.map_map]
      rfl
    have hkeys : (((declaredOrder step taskIdOf).map fun item => (taskIdOf item.1, Value.str item.1)).map
        fun item => stripped item.1) = (declaredOrder step taskIdOf).map fun item => taskIdOf item.1 := by
      rw [List.map_map]
      exact List.map_congr_left fun item hitem => (taskId_stripped (hids item hitem)).1
    have hvalues : (((declaredOrder step taskIdOf).map fun item => (taskIdOf item.1, item.1)).map Prod.snd).Nodup := by
      rw [List.map_map]
      exact ((sortBy_perm _ step.inputFrom).map Prod.fst).nodup_iff.mpr h.keys
    rw [hraw]
    dsimp only
    rw [hkeys, hdeclared, if_neg (not_not.mpr ⟨fun _ hmem => hmem, fun _ hmem => hmem⟩),
      parentSteps_eq hids hsteps (List.nil_append _ ▸ nodup_taskIds h), List.nil_append]
    dsimp only
    rw [if_pos hvalues]
  · rw [if_neg (fun hboth => hlayout hboth.2), if_neg hlayout, hblock]

/-! ## Where the inputs land -/

/-- Two paths that can both be files of one directory. -/
def Apart (path path' : List String) : Prop := path ≠ path' ∧ ¬ path <+: path' ∧ ¬ path' <+: path

theorem declaredOf_safe (h : Submitted step taskIdOf) (haccepted : validateStagedFilenames step = .ok ())
    {item : String × String} (hitem : item ∈ step.inputFrom) : SafeName (declaredOf step taskIdOf item).destination := by
  have hname := accepted_names haccepted item hitem
  obtain ⟨-, hsafe, hcharacters⟩ := stepId_characters (h.stepIds item hitem)
  unfold declaredOf DeclaredInput.destination
  by_cases hlayout : step.inputLayout = .byParent
  · simpa only [if_pos hlayout] using hname.under hsafe hcharacters
  · simpa only [if_neg hlayout] using hname

theorem declaredOf_apart (h : Submitted step taskIdOf) (haccepted : validateStagedFilenames step = .ok ())
    {item item' : String × String} (hitem : item ∈ step.inputFrom) (hitem' : item' ∈ step.inputFrom)
    (hne : item ≠ item') :
    Apart (segments (declaredOf step taskIdOf item).destination)
      (segments (declaredOf step taskIdOf item').destination) := by
  have hbegins : ∀ item ∈ step.inputFrom, ∀ item' ∈ step.inputFrom,
      segments (declaredOf step taskIdOf item).destination <+: segments (declaredOf step taskIdOf item').destination →
      item = item' := by
    intro item hitem item' hitem' hbegins
    unfold declaredOf DeclaredInput.destination at hbegins
    by_cases hlayout : step.inputLayout = .byParent
    · -- The first segments are the step ids, which differ.
      simp only [if_pos hlayout] at hbegins
      have hslash : ∀ item ∈ step.inputFrom, '/' ∉ item.1.toList := fun item hitem hmem =>
        ((stepId_characters (h.stepIds item hitem)).2.2 '/' hmem).1 rfl
      rw [segments_under (hslash item hitem), segments_under (hslash item' hitem'), List.cons_prefix_cons] at hbegins
      exact List.inj_on_of_nodup_map h.keys hitem hitem' hbegins.1
    · simp only [if_neg hlayout] at hbegins
      have hflat : step.inputLayout = .flat := by
        cases hcase : step.inputLayout with
        | flat => rfl
        | byParent => exact absurd hcase hlayout
      have hsame := segments_inj (accepted_no_directory haccepted hflat hitem hitem' hbegins)
      exact List.inj_on_of_nodup_map (accepted_distinct haccepted hflat) hitem hitem' hsame
  refine ⟨fun heq => hne ?_, fun hpre => hne ?_, fun hpre => hne ?_⟩
  · exact hbegins item hitem item' hitem' (heq ▸ List.prefix_rfl)
  · exact hbegins item hitem item' hitem' hpre
  · exact (hbegins item' hitem' item hitem hpre).symm

theorem sharedDestination_eq_none {declared : List DeclaredInput}
    (h : (declared.map DeclaredInput.destination).Nodup) : sharedDestination declared = none := by
  rw [sharedDestination, List.findSome?_eq_none_iff]
  intro item hitem
  have hsmall := (Dict.grouped_small_iff _ DeclaredInput.upstreamTaskId declared).mpr h item (mem_sortBy.mp hitem)
  rw [if_neg (by omega)]

theorem declaredOrder_apart (h : Submitted step taskIdOf) (haccepted : validateStagedFilenames step = .ok ()) :
    ((declaredOrder step taskIdOf).map fun item => segments (declaredOf step taskIdOf item).destination).Pairwise
      Apart := by
  have hnodup : (declaredOrder step taskIdOf).Nodup := List.Nodup.of_map _ (nodup_taskIds h)
  rw [List.pairwise_map]
  refine hnodup.pairwise_of_forall_ne fun item hitem item' hitem' hne => ?_
  exact declaredOf_apart h haccepted (mem_declaredOrder.mp hitem) (mem_declaredOrder.mp hitem') hne

theorem declaredOrder_destinations (h : Submitted step taskIdOf) (haccepted : validateStagedFilenames step = .ok ()) :
    (((declaredOrder step taskIdOf).map (declaredOf step taskIdOf)).map DeclaredInput.destination).Nodup := by
  have hapart := declaredOrder_apart h haccepted
  rw [List.pairwise_map] at hapart
  rw [List.map_map, List.Nodup, List.pairwise_map]
  refine hapart.imp fun hap heq => hap.1 ?_
  exact congrArg segments heq

/-- The worker declares every input of an accepted step. -/
theorem declaredInputs_eq (h : Submitted step taskIdOf) (haccepted : validateStagedFilenames step = .ok ())
    {metadata block : Fields} (hmetadata : metadata.lookup "input_from" = none)
    (hblock : block.lookup "input_parents" = none) :
    declaredInputs (.map (stepMetadata step taskIdOf metadata block)) =
      .ok ((declaredOrder step taskIdOf).map (declaredOf step taskIdOf)) := by
  by_cases hsome : step.inputFrom = []
  · have horder : declaredOrder step taskIdOf = [] := by rw [declaredOrder, hsome]; rfl
    have hlookup : (stepMetadata step taskIdOf metadata block).lookup "input_from" = none := by
      rw [stepMetadata, if_neg (not_not.mpr hsome), Dict.lookup_set, if_neg (by decide), hmetadata]
    rw [declaredInputs, hlookup, horder]
    rfl
  · have hlookup : (stepMetadata step taskIdOf metadata block).lookup "input_from" =
        some (.map (step.inputFrom.map fun item => (taskIdOf item.1, .str item.2))) := by
      rw [stepMetadata, if_pos hsome, Dict.lookup_set, if_pos rfl]
    have hnonempty : ¬ (step.inputFrom.map fun item => (taskIdOf item.1, Value.str item.2)).isEmpty = true := by
      simpa using hsome
    have hsorted : sortBy Prod.fst (step.inputFrom.map fun item => (taskIdOf item.1, Value.str item.2)) =
        (declaredOrder step taskIdOf).map fun item => (taskIdOf item.1, .str item.2) := sortBy_map _ _ _
    have hids : ∀ item ∈ declaredOrder step taskIdOf, isTaskId (taskIdOf item.1) = true :=
      fun item hitem => h.taskIds item (mem_declaredOrder.mp hitem)
    have hnames : ∀ item ∈ declaredOrder step taskIdOf, SafeName (stripped item.2) :=
      fun item hitem => accepted_names haccepted item (mem_declaredOrder.mp hitem)
    have hparents : declaredParents (stepMetadata step taskIdOf metadata block)
        ((declaredOrder step taskIdOf).map fun item => ⟨taskIdOf item.1, stripped item.2, none⟩) =
          .ok (if step.inputLayout = .byParent then
            some ((declaredOrder step taskIdOf).map fun item => (taskIdOf item.1, item.1)) else none) :=
      declaredParents_eq h hsome hblock List.map_map
    rw [declaredInputs, hlookup]
    dsimp only
    rw [if_neg hnonempty, declaredFrom, hsorted, declaredItems_eq hids hnames]
    dsimp only
    rw [hparents]
    have hnone := sharedDestination_eq_none (declaredOrder_destinations h haccepted)
    by_cases hlayout : step.inputLayout = .byParent
    · have hstaged : (((declaredOrder step taskIdOf).map fun item =>
          (⟨taskIdOf item.1, stripped item.2, none⟩ : DeclaredInput)).map fun item =>
            { item with parentStepId := some ((((declaredOrder step taskIdOf).map fun item =>
              (taskIdOf item.1, item.1)).lookup item.upstreamTaskId).getD "") }) =
          (declaredOrder step taskIdOf).map (declaredOf step taskIdOf) := by
        rw [List.map_map]
        refine List.map_congr_left fun item hitem => ?_
        have hkeys : (((declaredOrder step taskIdOf).map fun item => (taskIdOf item.1, item.1)).map
            Prod.fst).Nodup := by
          rw [List.map_map]
          exact nodup_taskIds h
        have hfound := Dict.lookup_of_mem hkeys (List.mem_map_of_mem hitem)
        simp only [Function.comp_apply, declaredOf, if_pos hlayout, hfound, Option.getD_some]
      rw [if_pos hlayout]
      dsimp only
      rw [hstaged, hnone]
    · have hstaged : ((declaredOrder step taskIdOf).map fun item =>
          (⟨taskIdOf item.1, stripped item.2, none⟩ : DeclaredInput)) =
          (declaredOrder step taskIdOf).map (declaredOf step taskIdOf) := by
        refine List.map_congr_left fun item _ => ?_
        rw [declaredOf, if_neg hlayout]
      rw [if_neg hlayout]
      dsimp only
      rw [hstaged, hnone]

/-- A step that the API accepts is one that the worker stages. The declared inputs are those of the step, one
for each parent; each lands at a path of its own, which the worker accepts unless it is one of its own. -/
theorem accepted_step_staged (h : Submitted step taskIdOf) (haccepted : validateStagedFilenames step = .ok ())
    {metadata block : Fields} (hmetadata : metadata.lookup "input_from" = none)
    (hblock : block.lookup "input_parents" = none) {ws : Workspace} (hlinks : ws.NoLinks) (reserved : List String) :
    ∃ declared, declaredInputs (.map (stepMetadata step taskIdOf metadata block)) = .ok declared ∧
      (declared.map DeclaredInput.upstreamTaskId).Perm (step.inputFrom.map fun item => taskIdOf item.1) ∧
      (∀ item ∈ declared, (∀ first ∈ (segments item.destination).head?, first ∉ reserved) →
        destinationFor ws item.destination reserved = .ok (ws.work ++ segments item.destination)) ∧
      (declared.map fun item => segments item.destination).Pairwise Apart ∧
      ∀ item ∈ declared, ∀ segment ∈ segments item.destination, segment ∉ unsafeSegments := by
  have hsafe : ∀ item ∈ (declaredOrder step taskIdOf).map (declaredOf step taskIdOf), SafeName item.destination := by
    intro item hitem
    obtain ⟨entry, hentry, rfl⟩ := List.mem_map.mp hitem
    exact declaredOf_safe h haccepted (mem_declaredOrder.mp hentry)
  refine ⟨_, declaredInputs_eq h haccepted hmetadata hblock, ?_, ?_, ?_, ?_⟩
  · rw [List.map_map]
    exact (sortBy_perm _ step.inputFrom).map _
  · exact fun item hitem hreserved => destinationFor_of_safeName hlinks (hsafe item hitem) hreserved
  · rw [List.map_map]
    exact declaredOrder_apart h haccepted
  · exact fun item hitem => (hsafe item hitem).segments

end Declared

/-- A step that stages a file of each of two parents into one directory. -/
def sampleStep : StepSpec where
  stepId := "review"
  inputFrom := [("scan-a", "out/notes.md"), ("scan-b", " out/log.md ")]

def sampleTaskIdOf (stepId : String) : String :=
  if stepId = "scan-a" then "task_0123456789abcdef0123" else "task_abcdef0123456789abcd"

theorem sampleStep_submitted : Submitted sampleStep sampleTaskIdOf where
  keys := by decide
  stepIds := by decide
  taskIds := by decide
  distinct := by decide

theorem sampleStep_accepted : validateStagedFilenames sampleStep = .ok () := by
  have hsome : (validateStagedFilenames sampleStep).toOption.isSome = true := by decide
  obtain ⟨⟨⟩, hok⟩ := exists_ok_of_isSome hsome
  exact hok

/-- `Path.resolve` where the file system has no links: `.` is dropped, and `..` takes the part before it away. -/
def linklessResolve (path : List String) : List String :=
  path.foldl (fun resolved part =>
    if part = "" ∨ part = "." then resolved else if part = ".." then resolved.dropLast else resolved ++ [part]) []

theorem linklessResolve_append {path parts : List String} (h : ∀ part ∈ parts, part ∉ unsafeSegments) :
    linklessResolve (path ++ parts) = linklessResolve path ++ parts := by
  induction parts using List.reverseRecOn with
  | nil => simp
  | append_singleton parts part ih =>
    have hpart := h part (by simp)
    simp only [unsafeSegments, List.mem_cons, List.not_mem_nil, or_false, not_or] at hpart
    obtain ⟨hempty, hdot, hdotdot⟩ := hpart
    rw [← List.append_assoc, linklessResolve, List.foldl_append, ← linklessResolve,
      ih fun part hmem => h part (List.mem_append_left _ hmem)]
    simp [hempty, hdot, hdotdot]

def sampleWorkspace : Workspace := ⟨["/", "var", "..", "work"], linklessResolve⟩

def sampleReserved : List String := ["repo", ".swarm", "input.json", "result.json"]

/-- Both files of the step are staged, each at its own path below the work directory. -/
theorem accepted_step_staged_sample :
    ∃ declared, declaredInputs (.map (stepMetadata sampleStep sampleTaskIdOf [] [])) = .ok declared ∧
      declared.map DeclaredInput.destination = ["out/notes.md", "out/log.md"] ∧
      (∀ item ∈ declared, destinationFor sampleWorkspace item.destination sampleReserved =
        .ok (["/", "var", "..", "work"] ++ segments item.destination)) ∧
      (declared.map fun item => segments item.destination).Pairwise Apart := by
  have hlinks : sampleWorkspace.NoLinks := fun parts h => linklessResolve_append h
  obtain ⟨declared, hdeclared, -, hstaged, hapart, -⟩ :=
    accepted_step_staged sampleStep_submitted sampleStep_accepted (rfl : List.lookup "input_from" ([] : Fields) = none)
      (rfl : List.lookup "input_parents" ([] : Fields) = none) hlinks sampleReserved
  have hnames : (declaredInputs (.map (stepMetadata sampleStep sampleTaskIdOf [] []))).toOption.map
      (·.map DeclaredInput.destination) = some ["out/notes.md", "out/log.md"] := by decide
  rw [hdeclared] at hnames
  have hdestinations : declared.map DeclaredInput.destination = ["out/notes.md", "out/log.md"] := Option.some.inj hnames
  refine ⟨declared, hdeclared, hdestinations, fun item hitem => hstaged item hitem fun first hfirst => ?_, hapart⟩
  have hmem : item.destination ∈ ["out/notes.md", "out/log.md"] := hdestinations ▸ List.mem_map_of_mem hitem
  simp only [List.mem_cons, List.not_mem_nil, or_false] at hmem
  rcases hmem with heq | heq
  · rw [heq, show (segments "out/notes.md").head? = some "out" by decide, Option.mem_some_iff] at hfirst
    subst hfirst
    decide
  · rw [heq, show (segments "out/log.md").head? = some "out" by decide, Option.mem_some_iff] at hfirst
    subst hfirst
    decide

end SwarmCloud.Staging
