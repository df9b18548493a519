import SwarmCloud.AttemptState.Documents
import SwarmCloud.Lib.Runs
import Mathlib.Logic.Relation

/-! # Why a dependant was cancelled

The dependency rule of the scheduler cancels a task whose parent did not succeed,
and records whether a failure or a cancel came down to it. It reads the direct
parents only, each with the cause of its own end, so what it records of a chain is
true because each link recorded the truth before it.
-/

namespace SwarmCloud.Dependencies

open Common Lib AttemptState

/-- The fields of a task document that the rule reads. A state that the contract does not name is none. -/
structure Node where
  tenantId : String
  state : Option TaskState
  endCause : Option String := none
  cancelRequested : Bool := false
  /-- `metadata.review_gate` is a mapping. -/
  gated : Bool := false
  requirementsCheck : Bool := false
  dependsOn : List String := []

abbrev Tasks := Docs String Node

structure ParentEnd where
  state : TaskState
  endCause : Option String
  cancelRequested : Bool
  requirementsCheck : Bool
deriving DecidableEq, Repr

def parentEnd (tasks : Tasks) (tenantId taskId : String) : Option ParentEnd :=
  ((tasks.lookup taskId).filter fun node => node.tenantId = tenantId).bind fun node =>
    node.state.map fun state => ⟨state, node.endCause, node.cancelRequested, node.requirementsCheck⟩

/-- `parent_ends`, in the order of the first mention of each parent. -/
def parentEnds (tasks : Tasks) (taskIds : List String) (tenantId : String) : List (String × ParentEnd) :=
  taskIds.eraseDups.filterMap fun id => (parentEnd tasks tenantId id).map (id, ·)

def failedParentStates : List TaskState := [.failed, .cancelled, .deadLettered]

def failureSentCauses : List String := [EndCause.failedParent.value, EndCause.workflowSweep.value]

def cancelSentCauses : List String := [EndCause.cancelRequested.value, EndCause.cancelledParent.value]

def checkEndedWithoutList (state : TaskState) (requirementsCheck : Bool) : Bool :=
  requirementsCheck && (state = .failed || state = .deadLettered)

def dependencyStates (task : Node) (parents : List (String × ParentEnd)) : List (String × TaskState) :=
  parents.map fun item => (item.1,
    if task.gated && checkEndedWithoutList item.2.state item.2.requirementsCheck then .succeeded else item.2.state)

def parentCause (parents : List (String × ParentEnd)) (failed : List String) : Option EndCause :=
  let ends := failed.filterMap fun id => parents.lookup id
  if ends.any fun parent => parent.state = .failed || parent.state = .deadLettered then some .failedParent
  else
    let cancelled := ends.filter fun parent => parent.state = .cancelled
    if cancelled.any fun parent => parent.endCause.any (· ∈ failureSentCauses) then some .failedParent
    else if !cancelled.isEmpty && cancelled.all fun parent =>
        parent.endCause.any (· ∈ cancelSentCauses) || (parent.endCause.isNone && parent.cancelRequested) then
      some .cancelledParent
    else none

inductive Resolution
  | cancel (failedParents : List String) (cause : Option EndCause)
  | satisfied
  | wait
deriving DecidableEq, Repr

/-- `_resolve_dependency`, once the waits that come before the dependencies let the task through. -/
def resolveDependency (tasks : Tasks) (task : Node) : Resolution :=
  let parents := parentEnds tasks task.dependsOn task.tenantId
  let states := dependencyStates task parents
  let failed := (states.filter fun item => item.2 ∈ failedParentStates).map Prod.fst
  if failed ≠ [] then .cancel failed (parentCause parents failed)
  else if task.dependsOn.all fun id => states.lookup id = some .succeeded then .satisfied
  else .wait

/-! ## Runs -/

/-- The causes that a writer of a failed end may record; the others are those of cancels. -/
def ofFailure : EndCause → Bool
  | .cancelRequested | .failedParent | .cancelledParent | .workflowSweep | .childCascade => false
  | _ => true

inductive Event
  | move (dst : TaskState)
  | request
  | succeed
  | fail (cause : Option EndCause)
  | deadLetter (cause : Option EndCause)
  | cancelOnRequest
  | sweep
  | rule
deriving DecidableEq, Repr

def Node.ended (node : Node) (state : TaskState) (cause : Option EndCause) : Node :=
  { node with state := some state, endCause := cause.map EndCause.value }

/-- What an event leaves of a task that has not ended. -/
def Event.leaves (tasks : Tasks) (node : Node) : Event → Option Node
  | .move dst => if dst ∈ terminalStates then none else some { node with state := some dst }
  | .request => some { node with cancelRequested := true }
  | .succeed => some (node.ended .succeeded none)
  | .fail cause => if cause.all ofFailure then some (node.ended .failed cause) else none
  | .deadLetter cause => if cause.all ofFailure then some (node.ended .deadLettered cause) else none
  | .cancelOnRequest => some (node.ended .cancelled (some .cancelRequested))
  | .sweep => some (node.ended .cancelled (some .workflowSweep))
  | .rule =>
    match resolveDependency tasks node with
    | .cancel _ cause => some (node.ended .cancelled cause)
    | _ => none

def Node.Ended (node : Node) : Prop := ∃ state ∈ terminalStates, node.state = some state

structure Step (tasks : Tasks) (e : String × Event) (tasks' : Tasks) : Prop where
  intro ::
  out : ∃ node node', tasks.lookup e.1 = some node ∧ ¬ node.Ended ∧ e.2.leaves tasks node = some node' ∧
    tasks' = tasks.insert e.1 node'

/-! ## What the causes say -/

def Parent (tasks : Tasks) (parent child : String) : Prop :=
  ∃ node, tasks.lookup child = some node ∧ parent ∈ node.dependsOn

def Ancestor (tasks : Tasks) : String → String → Prop := Relation.TransGen (Parent tasks)

def Node.caused (node : Node) (cause : EndCause) : Prop := node.endCause = some cause.value

/-- A task that failed, or that the sweep of a failed workflow ended. -/
def Node.FailedItself (node : Node) : Prop :=
  node.state = some .failed ∨ node.state = some .deadLettered ∨ node.caused .workflowSweep

/-- A task that a request cancelled. -/
def Node.CancelledItself (node : Node) : Prop := node.state = some .cancelled ∧ node.caused .cancelRequested

def Above (tasks : Tasks) (P : Node → Prop) (id : String) : Prop :=
  ∃ ancestor node, Ancestor tasks ancestor id ∧ tasks.lookup ancestor = some node ∧ P node

/-- No parent failed, and none was cancelled because of a failure. -/
def NoFailedParent (tasks : Tasks) (id : String) : Prop :=
  ∀ parent node, Parent tasks parent id → tasks.lookup parent = some node →
    ¬ (node.state = some .failed ∨ node.state = some .deadLettered ∨
      node.state = some .cancelled ∧ (node.caused .failedParent ∨ node.caused .workflowSweep))

/-! ## The rule over the parents -/

section Rule

variable {tasks : Tasks} {node : Node} {failed : List String} {cause : Option EndCause}

/-- The parents of a task as the rule reads them. -/
def Read (tasks : Tasks) (node : Node) (id : String) (parent : ParentEnd) : Prop :=
  id ∈ node.dependsOn ∧ parentEnd tasks node.tenantId id = some parent

theorem lookup_parentEnds (tasks : Tasks) (node : Node) (id : String) :
    (parentEnds tasks node.dependsOn node.tenantId).lookup id =
      if id ∈ node.dependsOn then parentEnd tasks node.tenantId id else none := by
  rw [parentEnds, Dict.lookup_filterMap_keys]
  simp only [List.mem_eraseDups]

theorem mem_parentEnds {item : String × ParentEnd} :
    item ∈ parentEnds tasks node.dependsOn node.tenantId ↔ Read tasks node item.1 item.2 := by
  obtain ⟨id, parent⟩ := item
  rw [parentEnds, List.mem_filterMap, Read]
  constructor
  · rintro ⟨id', hid', hparent⟩
    obtain ⟨parent', hread, heq⟩ := Option.map_eq_some_iff.mp hparent
    obtain ⟨rfl, rfl⟩ := Prod.mk.inj heq
    exact ⟨List.mem_eraseDups.mp hid', hread⟩
  · rintro ⟨hid, hread⟩
    exact ⟨id, List.mem_eraseDups.mpr hid, by rw [hread]; rfl⟩

/-- The failed ids of a task that is no gated review. -/
theorem mem_failed (hgated : node.gated = false) {id : String} :
    id ∈ ((dependencyStates node (parentEnds tasks node.dependsOn node.tenantId)).filter
        fun item => item.2 ∈ failedParentStates).map Prod.fst ↔
      ∃ parent, Read tasks node id parent ∧ parent.state ∈ failedParentStates := by
  simp only [dependencyStates, hgated, Bool.false_and, Bool.false_eq_true, if_false, List.mem_map, List.mem_filter,
    decide_eq_true_eq]
  constructor
  · rintro ⟨-, ⟨⟨item, hitem, rfl⟩, hstate⟩, rfl⟩
    exact ⟨item.2, mem_parentEnds.mp hitem, hstate⟩
  · rintro ⟨parent, hread, hstate⟩
    exact ⟨(id, parent.state), ⟨⟨(id, parent), mem_parentEnds.mpr hread, rfl⟩, hstate⟩, rfl⟩

theorem mem_ends (hgated : node.gated = false) {parent : ParentEnd} :
    parent ∈ (((dependencyStates node (parentEnds tasks node.dependsOn node.tenantId)).filter
        fun item => item.2 ∈ failedParentStates).map Prod.fst).filterMap
        (fun id => (parentEnds tasks node.dependsOn node.tenantId).lookup id) ↔
      ∃ id, Read tasks node id parent ∧ parent.state ∈ failedParentStates := by
  rw [List.mem_filterMap]
  constructor
  · rintro ⟨id, hid, hlookup⟩
    obtain ⟨parent', hread, hstate⟩ := (mem_failed hgated).mp hid
    rw [lookup_parentEnds, if_pos hread.1, hread.2] at hlookup
    obtain rfl := Option.some.inj hlookup
    exact ⟨id, hread, hstate⟩
  · rintro ⟨id, hread, hstate⟩
    refine ⟨id, (mem_failed hgated).mpr ⟨parent, hread, hstate⟩, ?_⟩
    rw [lookup_parentEnds, if_pos hread.1, hread.2]

/-- A parent that passes a failure on. -/
def ParentEnd.SendsFailure (parent : ParentEnd) : Prop :=
  parent.state = .failed ∨ parent.state = .deadLettered ∨
    parent.state = .cancelled ∧ ∃ cause ∈ failureSentCauses, parent.endCause = some cause

/-- A cancelled parent that passes a cancel on. -/
def ParentEnd.SendsCancel (parent : ParentEnd) : Prop :=
  parent.state = .cancelled ∧ ((∃ cause ∈ cancelSentCauses, parent.endCause = some cause) ∨
    parent.endCause = none ∧ parent.cancelRequested = true)

theorem failedParentStates_iff {state : TaskState} :
    state ∈ failedParentStates ↔ state = .failed ∨ state = .cancelled ∨ state = .deadLettered := by
  simp [failedParentStates]

/-- `_parent_cause` of the ends it looks at. -/
theorem parentCause_cases {parents : List (String × ParentEnd)} {ends : List ParentEnd}
    (hends : (failed.filterMap fun id => parents.lookup id) = ends) (hsome : ends ≠ [])
    (hstates : ∀ parent ∈ ends, parent.state ∈ failedParentStates) :
    (parentCause parents failed = some .failedParent ∧ ∃ parent ∈ ends, parent.SendsFailure) ∨
    (∀ parent ∈ ends, ¬ parent.SendsFailure) ∧
      ((parentCause parents failed = some .cancelledParent ∧ ∃ parent ∈ ends, parent.SendsCancel) ∨
      (parentCause parents failed = none ∧ ∃ parent ∈ ends, parent.state = .cancelled ∧ ¬ parent.SendsCancel)) := by
  rw [parentCause, hends]
  dsimp only
  split
  · rename_i hfailed
    obtain ⟨parent, hparent, hstate⟩ := List.any_eq_true.mp hfailed
    refine .inl ⟨rfl, parent, hparent, ?_⟩
    rcases Bool.or_eq_true_iff.mp hstate with h | h
    · exact .inl (of_decide_eq_true h)
    · exact .inr (.inl (of_decide_eq_true h))
  rename_i hfailed
  have hcancelled : ∀ parent ∈ ends, parent.state = .cancelled := by
    intro parent hparent
    have hnot : ¬ (parent.state = .failed ∨ parent.state = .deadLettered) := by
      intro h
      exact hfailed (List.any_eq_true.mpr ⟨parent, hparent, by simpa using h⟩)
    rcases failedParentStates_iff.mp (hstates parent hparent) with h | h | h
    · exact absurd (.inl h) hnot
    · exact h
    · exact absurd (.inr h) hnot
  have hfilter : (ends.filter fun parent => parent.state = .cancelled) = ends :=
    List.filter_eq_self.mpr fun parent hparent => decide_eq_true (hcancelled parent hparent)
  rw [hfilter]
  split
  · rename_i hsent
    obtain ⟨parent, hparent, hcause⟩ := List.any_eq_true.mp hsent
    obtain ⟨cause, hcause, hmem⟩ := (Option.any_eq_true _ _).mp hcause
    exact .inl ⟨rfl, parent, hparent, .inr (.inr ⟨hcancelled parent hparent, cause, of_decide_eq_true hmem, hcause⟩)⟩
  rename_i hsent
  refine .inr ⟨?_, ?_⟩
  · rintro parent hparent (h | h | ⟨-, cause, hmem, hcause⟩)
    · exact absurd (hcancelled parent hparent) (by rw [h]; decide)
    · exact absurd (hcancelled parent hparent) (by rw [h]; decide)
    · refine hsent (List.any_eq_true.mpr ⟨parent, hparent, ?_⟩)
      rw [hcause]
      exact decide_eq_true hmem
  have hsends : ∀ parent ∈ ends, (parent.endCause.any (· ∈ cancelSentCauses) ||
      (parent.endCause.isNone && parent.cancelRequested)) = true ↔ parent.SendsCancel := by
    intro parent hparent
    rw [ParentEnd.SendsCancel, and_iff_right (hcancelled parent hparent), Bool.or_eq_true, Bool.and_eq_true,
      Option.isNone_iff_eq_none, Option.any_eq_true]
    simp only [decide_eq_true_eq]
    constructor
    · rintro (⟨cause, hcause, hmem⟩ | h)
      · exact .inl ⟨cause, hmem, hcause⟩
      · exact .inr h
    · rintro (⟨cause, hmem, hcause⟩ | h)
      · exact .inl ⟨cause, hcause, hmem⟩
      · exact .inr h
  split
  · rename_i hall
    obtain ⟨-, hall⟩ := Bool.and_eq_true_iff.mp hall
    obtain ⟨parent, hparent⟩ := List.exists_mem_of_ne_nil ends hsome
    exact .inl ⟨rfl, parent, hparent, (hsends parent hparent).mp (List.all_eq_true.mp hall parent hparent)⟩
  · rename_i hall
    have hnotAll : ¬ ∀ parent ∈ ends, parent.SendsCancel := by
      intro h
      refine hall (Bool.and_eq_true_iff.mpr ⟨by simpa using hsome, List.all_eq_true.mpr fun parent hparent => ?_⟩)
      exact (hsends parent hparent).mpr (h parent hparent)
    simp only [not_forall] at hnotAll
    obtain ⟨parent, hparent, hnot⟩ := hnotAll
    exact .inr ⟨rfl, parent, hparent, hcancelled parent hparent, hnot⟩

/-- What the rule records of a cancel, and what it read then. -/
theorem resolveDependency_cancel (hgated : node.gated = false)
    (h : resolveDependency tasks node = .cancel failed cause) :
    (cause = some .failedParent ∧ ∃ id parent, Read tasks node id parent ∧ parent.SendsFailure) ∨
    (∀ id parent, Read tasks node id parent → ¬ parent.SendsFailure) ∧
      ((cause = some .cancelledParent ∧ ∃ id parent, Read tasks node id parent ∧ parent.SendsCancel) ∨
      (cause = none ∧ ∃ id parent, Read tasks node id parent ∧ parent.state = .cancelled ∧ ¬ parent.SendsCancel)) := by
  have hfailed := fun id => @mem_failed tasks node hgated id
  have hends := fun parent => @mem_ends tasks node hgated parent
  rw [resolveDependency] at h
  generalize ((dependencyStates node (parentEnds tasks node.dependsOn node.tenantId)).filter
    fun item => item.2 ∈ failedParentStates).map Prod.fst = ids at h hfailed hends
  split at h
  · rename_i hsome
    obtain ⟨rfl, rfl⟩ := Resolution.cancel.inj h
    generalize hlist : (ids.filterMap fun id => (parentEnds tasks node.dependsOn node.tenantId).lookup id) = ends at hends
    have hnonempty : ends ≠ [] := by
      obtain ⟨id, hid⟩ := List.exists_mem_of_ne_nil _ hsome
      obtain ⟨parent, hread⟩ := (hfailed id).mp hid
      exact List.ne_nil_of_mem ((hends parent).mpr ⟨id, hread⟩)
    have hstates : ∀ parent ∈ ends, parent.state ∈ failedParentStates := by
      intro parent hparent
      obtain ⟨-, -, hstate⟩ := (hends parent).mp hparent
      exact hstate
    have hread : ∀ parent ∈ ends, ∃ id, Read tasks node id parent := by
      intro parent hparent
      obtain ⟨id, hread, -⟩ := (hends parent).mp hparent
      exact ⟨id, hread⟩
    obtain ⟨hcause, parent, hparent, hsends⟩ | ⟨hno, hrest⟩ := parentCause_cases hlist hnonempty hstates
    · obtain ⟨id, hid⟩ := hread parent hparent
      exact .inl ⟨hcause, id, parent, hid, hsends⟩
    refine .inr ⟨?_, ?_⟩
    · intro id parent hid hsends
      have hstate : parent.state ∈ failedParentStates := by
        rcases hsends with h | h | ⟨h, -⟩
        · exact failedParentStates_iff.mpr (.inl h)
        · exact failedParentStates_iff.mpr (.inr (.inr h))
        · exact failedParentStates_iff.mpr (.inr (.inl h))
      exact hno parent ((hends parent).mpr ⟨id, hid, hstate⟩) hsends
    · rcases hrest with ⟨hcause, parent, hparent, hsends⟩ | ⟨hcause, parent, hparent, hstate, hsends⟩
      · obtain ⟨id, hid⟩ := hread parent hparent
        exact .inl ⟨hcause, id, parent, hid, hsends⟩
      · obtain ⟨id, hid⟩ := hread parent hparent
        exact .inr ⟨hcause, id, parent, hid, hstate, hsends⟩
  · split at h <;> cases h

end Rule

/-! ## Runs keep the causes true -/

/-- One tenant's tasks, none of them a gated review, each recorded cause true of the graph. -/
structure Sound (tenantId : String) (tasks : Tasks) : Prop where
  tenant : ∀ id node, tasks.lookup id = some node → node.tenantId = tenantId
  ungated : ∀ id node, tasks.lookup id = some node → node.gated = false
  open_ : ∀ id node, tasks.lookup id = some node → ¬ node.Ended → node.endCause = none
  cancelled : ∀ id node, tasks.lookup id = some node → node.state = some .cancelled →
    node.caused .cancelRequested ∨ node.caused .workflowSweep ∨ node.caused .failedParent ∨ node.caused .cancelledParent
  failedParent : ∀ id node, tasks.lookup id = some node → node.caused .failedParent → Above tasks Node.FailedItself id
  cancelledParent : ∀ id node, tasks.lookup id = some node → node.caused .cancelledParent →
    Above tasks Node.CancelledItself id

/-- Tasks before any of them ended. -/
structure Fresh (tenantId : String) (tasks : Tasks) : Prop where
  tenant : ∀ id node, tasks.lookup id = some node → node.tenantId = tenantId
  ungated : ∀ id node, tasks.lookup id = some node → node.gated = false
  unended : ∀ id node, tasks.lookup id = some node → ¬ node.Ended ∧ node.endCause = none

theorem Node.not_caused {node : Node} (h : node.endCause = none) (cause : EndCause) : ¬ node.caused cause := by
  rw [Node.caused, h]
  rintro ⟨⟩

theorem Node.ended_of_state {node : Node} {state : TaskState} (h : node.state = some state)
    (hterminal : state ∈ terminalStates) : node.Ended := ⟨state, hterminal, h⟩

theorem Fresh.sound {tenantId : String} {tasks : Tasks} (h : Fresh tenantId tasks) : Sound tenantId tasks where
  tenant := h.tenant
  ungated := h.ungated
  open_ id node hnode _ := (h.unended id node hnode).2
  cancelled id node hnode hstate :=
    absurd (Node.ended_of_state hstate (by decide)) (h.unended id node hnode).1
  failedParent id node hnode hcause := absurd hcause (Node.not_caused (h.unended id node hnode).2 _)
  cancelledParent id node hnode hcause := absurd hcause (Node.not_caused (h.unended id node hnode).2 _)

section Step

variable {tenantId : String} {tasks : Tasks} {id : String} {node node' : Node} {P : Node → Prop}

/-- An end stays one, so what is above a task stays above it. -/
theorem Above.insert {child : String} (h : Above tasks P child) (hnode : tasks.lookup id = some node)
    (hdepends : node'.dependsOn = node.dependsOn) (hnot : ¬ P node) : Above (tasks.insert id node') P child := by
  obtain ⟨ancestor, found, hancestor, hfound, hP⟩ := h
  refine ⟨ancestor, found, ?_, ?_, hP⟩
  · refine Relation.TransGen.mono (fun parent child hparent => ?_) _ _ hancestor
    obtain ⟨childNode, hchild, hmem⟩ := hparent
    by_cases hid : child = id
    · subst hid
      rw [hnode] at hchild
      obtain rfl := Option.some.inj hchild
      exact ⟨node', by rw [Docs.lookup_insert_eq, if_pos rfl], hdepends ▸ hmem⟩
    · exact ⟨childNode, by rw [Docs.lookup_insert_eq, if_neg hid]; exact hchild, hmem⟩
  · rw [Docs.lookup_insert_eq, if_neg]
    · exact hfound
    · rintro rfl
      rw [hnode] at hfound
      obtain rfl := Option.some.inj hfound
      exact hnot hP

/-- What an event leaves: the same task, either still running or ended with a cause of its own. -/
structure Left (tasks : Tasks) (id : String) (node node' : Node) : Prop where
  tenant : node'.tenantId = node.tenantId
  gated : node'.gated = node.gated
  depends : node'.dependsOn = node.dependsOn
  open_ : ¬ node'.Ended → node'.endCause = node.endCause
  cancelled : node'.state = some .cancelled →
    node'.caused .cancelRequested ∨ node'.caused .workflowSweep ∨ node'.caused .failedParent ∨
      node'.caused .cancelledParent
  failedParent : node'.caused .failedParent → Above tasks Node.FailedItself id
  cancelledParent : node'.caused .cancelledParent → Above tasks Node.CancelledItself id

theorem value_injective : ∀ cause cause' : EndCause, cause.value = cause'.value → cause = cause' := by
  intro cause cause' h
  cases cause <;> cases cause' <;> first | rfl | exact absurd h (by decide)

theorem caused_ended {state : TaskState} {cause : Option EndCause} {cause' : EndCause} :
    (node.ended state cause).caused cause' ↔ cause = some cause' := by
  cases cause with
  | none =>
    constructor
    · rintro ⟨⟩
    · rintro ⟨⟩
  | some cause =>
    constructor
    · intro h
      exact congrArg some (value_injective _ _ (Option.some.inj h))
    · rintro ⟨⟩
      rfl

/-- A parent that the rule read, as it is stored. -/
theorem Read.stored {parentId : String} {parent : ParentEnd} (h : Read tasks node parentId parent) :
    ∃ found, tasks.lookup parentId = some found ∧ found.state = some parent.state ∧ found.endCause = parent.endCause := by
  obtain ⟨-, hread⟩ := h
  obtain ⟨found, hfound, hstate⟩ := Option.bind_eq_some_iff.mp hread
  obtain ⟨hfound, -⟩ := Option.filter_eq_some_iff.mp hfound
  obtain ⟨state, hsome, rfl⟩ := Option.map_eq_some_iff.mp hstate
  exact ⟨found, hfound, hsome, rfl⟩

theorem Read.above {parentId : String} {parent : ParentEnd} {found : Node} (h : Read tasks node parentId parent)
    (hnode : tasks.lookup id = some node) (hfound : tasks.lookup parentId = some found) (hP : P found) :
    Above tasks P id :=
  ⟨parentId, found, .single ⟨node, hnode, h.1⟩, hfound, hP⟩

theorem Read.above_of_above {parentId : String} {parent : ParentEnd} (h : Read tasks node parentId parent)
    (hnode : tasks.lookup id = some node) (habove : Above tasks P parentId) : Above tasks P id := by
  obtain ⟨ancestor, found, hancestor, hfound, hP⟩ := habove
  exact ⟨ancestor, found, .tail hancestor ⟨node, hnode, h.1⟩, hfound, hP⟩

/-- A parent that sends a failure has failed itself, or has a failure above it. -/
theorem Sound.above_of_sendsFailure (h : Sound tenantId tasks) (hnode : tasks.lookup id = some node) {parentId : String}
    {parent : ParentEnd} (hread : Read tasks node parentId parent) (hsends : parent.SendsFailure) :
    Above tasks Node.FailedItself id := by
  obtain ⟨found, hfound, hstate, hcause⟩ := hread.stored
  rcases hsends with hfailed | hdead | ⟨-, cause, hmem, hparentCause⟩
  · exact hread.above hnode hfound (.inl (hstate.trans (congrArg some hfailed)))
  · exact hread.above hnode hfound (.inr (.inl (hstate.trans (congrArg some hdead))))
  · rw [hparentCause] at hcause
    rcases List.mem_cons.mp hmem with rfl | hmem
    · exact hread.above_of_above hnode (h.failedParent parentId found hfound hcause)
    · obtain rfl := List.mem_singleton.mp hmem
      exact hread.above hnode hfound (.inr (.inr hcause))

theorem Sound.above_of_sendsCancel (h : Sound tenantId tasks) (hnode : tasks.lookup id = some node) {parentId : String}
    {parent : ParentEnd} (hread : Read tasks node parentId parent) (hsends : parent.SendsCancel) :
    Above tasks Node.CancelledItself id := by
  obtain ⟨found, hfound, hstate, hcause⟩ := hread.stored
  obtain ⟨hcancelled, hsent⟩ := hsends
  rw [hcancelled] at hstate
  rcases hsent with ⟨cause, hmem, hparentCause⟩ | ⟨hnone, -⟩
  · rw [hparentCause] at hcause
    rcases List.mem_cons.mp hmem with rfl | hmem
    · exact hread.above hnode hfound ⟨hstate, hcause⟩
    · obtain rfl := List.mem_singleton.mp hmem
      exact hread.above_of_above hnode (h.cancelledParent parentId found hfound hcause)
  · -- Every cancel writes its cause, so no cancelled parent is without one.
    rw [hnone] at hcause
    rcases h.cancelled parentId found hfound hstate with hcaused | hcaused | hcaused | hcaused <;>
      exact absurd hcaused (Node.not_caused hcause _)

/-- A cancelled parent passes a failure or a cancel on. -/
theorem Sound.sends (h : Sound tenantId tasks) {parentId : String} {parent : ParentEnd}
    (hread : Read tasks node parentId parent) (hstate : parent.state = .cancelled) :
    parent.SendsFailure ∨ parent.SendsCancel := by
  obtain ⟨found, hfound, hfoundState, hcause⟩ := hread.stored
  rw [hstate] at hfoundState
  rcases h.cancelled parentId found hfound hfoundState with hcaused | hcaused | hcaused | hcaused
  · exact .inr ⟨hstate, .inl ⟨_, by decide, hcause.symm.trans hcaused⟩⟩
  · exact .inl (.inr (.inr ⟨hstate, _, by decide, hcause.symm.trans hcaused⟩))
  · exact .inl (.inr (.inr ⟨hstate, _, by decide, hcause.symm.trans hcaused⟩))
  · exact .inr ⟨hstate, .inl ⟨_, by decide, hcause.symm.trans hcaused⟩⟩

/-- The rule records a failure or a cancel, and each is above the task. -/
theorem Sound.rule (h : Sound tenantId tasks) (hnode : tasks.lookup id = some node) {failed : List String}
    {cause : Option EndCause} (hrule : resolveDependency tasks node = .cancel failed cause) :
    cause = some .failedParent ∧ Above tasks Node.FailedItself id ∨
      cause = some .cancelledParent ∧ Above tasks Node.CancelledItself id ∧ NoFailedParent tasks id := by
  obtain ⟨rfl, parentId, parent, hread, hsends⟩ | ⟨hno, ⟨rfl, parentId, parent, hread, hsends⟩ |
    ⟨-, parentId, parent, hread, hstate, hsends⟩⟩ := resolveDependency_cancel (h.ungated id node hnode) hrule
  · exact .inl ⟨rfl, h.above_of_sendsFailure hnode hread hsends⟩
  · refine .inr ⟨rfl, h.above_of_sendsCancel hnode hread hsends, ?_⟩
    rintro parentId' found ⟨child, hchild, hmem⟩ hfound hfailed
    rw [hnode] at hchild
    obtain rfl := Option.some.inj hchild
    have hsame : found.tenantId = node.tenantId :=
      (h.tenant parentId' found hfound).trans (h.tenant id node hnode).symm
    have hparent : ∀ state, found.state = some state → Read tasks node parentId'
        ⟨state, found.endCause, found.cancelRequested, found.requirementsCheck⟩ := by
      intro state hstate
      refine ⟨hmem, ?_⟩
      rw [parentEnd, hfound, Option.filter_some, if_pos (decide_eq_true hsame), Option.bind_some, hstate,
        Option.map_some]
    rcases hfailed with hstate | hstate | ⟨hstate, hcaused⟩
    · exact hno _ _ (hparent _ hstate) (.inl rfl)
    · exact hno _ _ (hparent _ hstate) (.inr (.inl rfl))
    · refine hno _ _ (hparent _ hstate) (.inr (.inr ⟨rfl, ?_⟩))
      rcases hcaused with hcaused | hcaused
      · exact ⟨_, by decide, hcaused⟩
      · exact ⟨_, by decide, hcaused⟩
  · rcases h.sends hread hstate with hfailure | hcancel
    · exact absurd hfailure (hno parentId parent hread)
    · exact absurd hcancel hsends

/-- An end of a task with a cause of its own. -/
theorem left_ended {state : TaskState} {cause : Option EndCause} (hterminal : state ∈ terminalStates)
    (hcancelled : state = .cancelled → cause = some .cancelRequested ∨ cause = some .workflowSweep ∨
      cause = some .failedParent ∨ cause = some .cancelledParent)
    (hfailed : cause = some .failedParent → Above tasks Node.FailedItself id)
    (hstopped : cause = some .cancelledParent → Above tasks Node.CancelledItself id) :
    Left tasks id node (node.ended state cause) where
  tenant := rfl
  gated := rfl
  depends := rfl
  open_ hopen := absurd (Node.ended_of_state rfl hterminal) hopen
  cancelled hstate := by
    simp only [caused_ended]
    exact hcancelled (Option.some.inj hstate)
  failedParent hcaused := hfailed (caused_ended.mp hcaused)
  cancelledParent hcaused := hstopped (caused_ended.mp hcaused)

theorem left_open (hopen : node.endCause = none) (hstate : ¬ node'.Ended) (htenant : node'.tenantId = node.tenantId)
    (hgated : node'.gated = node.gated) (hdepends : node'.dependsOn = node.dependsOn)
    (hcause : node'.endCause = node.endCause) : Left tasks id node node' where
  tenant := htenant
  gated := hgated
  depends := hdepends
  open_ _ := hcause
  cancelled h := absurd (Node.ended_of_state h (by decide)) hstate
  failedParent h := absurd h (Node.not_caused (hcause.trans hopen) _)
  cancelledParent h := absurd h (Node.not_caused (hcause.trans hopen) _)

/-- What an event does to a task: it goes on, it ends with a cause of its own or is cancelled from outside, or the rule
cancels it. -/
inductive Event.Leaves (tasks : Tasks) (node : Node) : Event → Node → Prop
  | move {dst : TaskState} (hdst : dst ∉ terminalStates) : Leaves tasks node (.move dst) { node with state := some dst }
  | request : Leaves tasks node .request { node with cancelRequested := true }
  | ends {e : Event} {state : TaskState} {cause : Option EndCause} (hterminal : state ∈ terminalStates)
      (hstate : state ≠ .cancelled) (hcause : cause.all ofFailure = true) : Leaves tasks node e (node.ended state cause)
  | stopped {e : Event} {cause : EndCause} (hcause : cause = .cancelRequested ∨ cause = .workflowSweep) :
      Leaves tasks node e (node.ended .cancelled (some cause))
  | rule {failed : List String} {cause : Option EndCause} (hrule : resolveDependency tasks node = .cancel failed cause) :
      Leaves tasks node .rule (node.ended .cancelled cause)

theorem Event.leaves_cases {e : Event} (h : e.leaves tasks node = some node') : Event.Leaves tasks node e node' := by
  cases e with
  | move dst =>
    rw [Event.leaves] at h
    split at h
    · cases h
    · rename_i hdst
      exact Option.some.inj h ▸ .move hdst
  | request => exact Option.some.inj h ▸ .request
  | succeed => exact Option.some.inj h ▸ .ends (by decide) (by decide) rfl
  | fail cause =>
    rw [Event.leaves] at h
    split at h
    · rename_i hall
      exact Option.some.inj h ▸ .ends (by decide) (by decide) hall
    · cases h
  | deadLetter cause =>
    rw [Event.leaves] at h
    split at h
    · rename_i hall
      exact Option.some.inj h ▸ .ends (by decide) (by decide) hall
    · cases h
  | cancelOnRequest => exact Option.some.inj h ▸ .stopped (.inl rfl)
  | sweep => exact Option.some.inj h ▸ .stopped (.inr rfl)
  | rule =>
    rw [Event.leaves] at h
    split at h
    · rename_i failed cause hrule
      exact Option.some.inj h ▸ .rule hrule
    · cases h

theorem ne_of_ofFailure {cause : Option EndCause} {other : EndCause} (hall : cause.all ofFailure = true)
    (hother : ofFailure other = false) : cause ≠ some other := by
  rintro rfl
  rw [Option.all_some, hother] at hall
  cases hall

theorem Event.left {e : Event} (h : Sound tenantId tasks) (hnode : tasks.lookup id = some node) (hopen : ¬ node.Ended)
    (hleaves : e.leaves tasks node = some node') : Left tasks id node node' := by
  have hnone := h.open_ id node hnode hopen
  cases Event.leaves_cases hleaves with
  | move hdst =>
    refine left_open hnone ?_ rfl rfl rfl rfl
    rintro ⟨state, hstate, heq⟩
    exact hdst (Option.some.inj heq ▸ hstate)
  | request => exact left_open hnone hopen rfl rfl rfl rfl
  | ends hterminal hstate hcause =>
    refine left_ended hterminal (fun hcancelled => absurd hcancelled hstate) ?_ ?_
    · exact fun heq => absurd heq (ne_of_ofFailure hcause rfl)
    · exact fun heq => absurd heq (ne_of_ofFailure hcause rfl)
  | stopped hcause =>
    rcases hcause with rfl | rfl
    · refine left_ended (by decide) (fun _ => .inl rfl) ?_ ?_
      · rintro ⟨⟩
      · rintro ⟨⟩
    · refine left_ended (by decide) (fun _ => .inr (.inl rfl)) ?_ ?_
      · rintro ⟨⟩
      · rintro ⟨⟩
  | rule hrule =>
    rcases h.rule hnode hrule with ⟨rfl, habove⟩ | ⟨rfl, habove, -⟩
    · refine left_ended (by decide) (fun _ => .inr (.inr (.inl rfl))) (fun _ => habove) ?_
      rintro ⟨⟩
    · refine left_ended (by decide) (fun _ => .inr (.inr (.inr rfl))) ?_ (fun _ => habove)
      rintro ⟨⟩

theorem Sound.step {tasks' : Tasks} {e : String × Event} (h : Sound tenantId tasks) (hstep : Step tasks e tasks') :
    Sound tenantId tasks' := by
  obtain ⟨stepped, stepped', hstepped, hopen, hleaves, rfl⟩ := hstep.out
  have hleft := Event.left h hstepped hopen hleaves
  have hnone := h.open_ e.1 stepped hstepped hopen
  have hnotFailed : ¬ stepped.FailedItself := by
    rintro (hstate | hstate | hcaused)
    · exact hopen (Node.ended_of_state hstate (by decide))
    · exact hopen (Node.ended_of_state hstate (by decide))
    · exact Node.not_caused hnone _ hcaused
  have hnotStopped : ¬ stepped.CancelledItself := fun hstopped => Node.not_caused hnone _ hstopped.2
  -- A stored task is the one of the step, or as it was.
  have hcases : ∀ {P : String → Node → Prop}, P e.1 stepped' → (∀ id node, tasks.lookup id = some node → P id node) →
      ∀ id node, (tasks.insert e.1 stepped').lookup id = some node → P id node := by
    intro P hthis hothers id node hnode
    rw [Docs.lookup_insert_eq] at hnode
    split at hnode
    · rename_i hid
      obtain rfl := Option.some.inj hnode
      exact hid ▸ hthis
    · exact hothers id node hnode
  constructor
  · exact hcases (hleft.tenant.trans (h.tenant e.1 stepped hstepped)) h.tenant
  · exact hcases (hleft.gated.trans (h.ungated e.1 stepped hstepped)) h.ungated
  · exact hcases (fun hstill => (hleft.open_ hstill).trans hnone) h.open_
  · exact hcases hleft.cancelled h.cancelled
  · refine hcases (fun hcaused => ?_) (fun id node hnode hcaused => ?_)
    · exact (hleft.failedParent hcaused).insert hstepped hleft.depends hnotFailed
    · exact (h.failedParent id node hnode hcaused).insert hstepped hleft.depends hnotFailed
  · refine hcases (fun hcaused => ?_) (fun id node hnode hcaused => ?_)
    · exact (hleft.cancelledParent hcaused).insert hstepped hleft.depends hnotStopped
    · exact (h.cancelledParent id node hnode hcaused).insert hstepped hleft.depends hnotStopped

end Step

section Runs

variable {tenantId : String} {tasks₀ tasks : Tasks} {events : List (String × Event)}

theorem Fresh.sound_of_run (h : Fresh tenantId tasks₀) (hrun : Run Step tasks₀ events tasks) : Sound tenantId tasks :=
  hrun.invariant (I := Sound tenantId) (fun _ _ _ hsound hstep => hsound.step hstep) h.sound

/-- Only the rule writes that a parent was cancelled. -/
theorem rule_of_cancelledParent {e : Event} {node node' : Node} (hnone : node.endCause = none)
    (hleaves : e.leaves tasks node = some node') (hcaused : node'.caused .cancelledParent) :
    e = .rule ∧ ∃ failed, resolveDependency tasks node = .cancel failed (some .cancelledParent) := by
  cases Event.leaves_cases hleaves with
  | move hdst => exact absurd hcaused (Node.not_caused hnone _)
  | request => exact absurd hcaused (Node.not_caused hnone _)
  | ends hterminal hstate hcause => exact absurd (caused_ended.mp hcaused) (ne_of_ofFailure hcause rfl)
  | stopped hcause =>
    rcases hcause with rfl | rfl
    · exact absurd (caused_ended.mp hcaused) (by decide)
    · exact absurd (caused_ended.mp hcaused) (by decide)
  | @rule failed cause hrule =>
    obtain rfl := caused_ended.mp hcaused
    exact ⟨rfl, failed, hrule⟩

/-- The moment at which the rule cancelled a task after a cancel: no parent of it had failed then. -/
theorem cancelledParent_origin (h : Fresh tenantId tasks₀) (hrun : Run Step tasks₀ events tasks) {id : String}
    {node : Node} (hnode : tasks.lookup id = some node) (hcaused : node.caused .cancelledParent) :
    ∃ events₁ events₂ before after, events = events₁ ++ (id, .rule) :: events₂ ∧ Run Step tasks₀ events₁ before ∧
      Step before (id, .rule) after ∧ Run Step after events₂ tasks ∧ NoFailedParent before id := by
  induction hrun generalizing node with
  | nil => exact absurd hcaused (Node.not_caused (h.unended id node hnode).2 _)
  | @snoc events before after e hrun hstep ih =>
    have hsound := h.sound_of_run hrun
    obtain ⟨stepped, stepped', hstepped, hopen, hleaves, hafter⟩ := hstep.out
    by_cases hid : id = e.1
    · -- The step is on this task, which had no cause before it.
      have hthis : stepped' = node := by
        rw [hafter, Docs.lookup_insert_eq, if_pos hid] at hnode
        exact Option.some.inj hnode
      obtain ⟨hrule, failed, hresolve⟩ := rule_of_cancelledParent (hsound.open_ e.1 stepped hstepped hopen) hleaves
        (hthis ▸ hcaused)
      obtain ⟨stepId, event⟩ := e
      obtain rfl : event = .rule := hrule
      obtain rfl : id = stepId := hid
      rcases hsound.rule hstepped hresolve with ⟨hfailed, -⟩ | ⟨-, -, hno⟩
      · exact absurd hfailed (by decide)
      · exact ⟨events, [], before, after, rfl, hrun, hstep, .nil, hno⟩
    · have hbefore : before.lookup id = some node := by
        rw [hafter, Docs.lookup_insert_eq, if_neg hid] at hnode
        exact hnode
      obtain ⟨events₁, events₂, first, second, heq, hrun₁, hrule, hrun₂, hno⟩ := ih hbefore hcaused
      refine ⟨events₁, events₂ ++ [e], first, second, ?_, hrun₁, hrule, .snoc hrun₂ hstep, hno⟩
      rw [heq, List.append_assoc, List.cons_append]

/-- The causes that a run records are true of the graph. -/
theorem endCauses_true (h : Fresh tenantId tasks₀) (hrun : Run Step tasks₀ events tasks) :
    (∀ id node, tasks.lookup id = some node → node.caused .failedParent → Above tasks Node.FailedItself id) ∧
      (∀ id node, tasks.lookup id = some node → node.caused .cancelledParent →
        Above tasks Node.CancelledItself id ∧
          ∃ events₁ events₂ before after, events = events₁ ++ (id, .rule) :: events₂ ∧
            Run Step tasks₀ events₁ before ∧ Step before (id, .rule) after ∧ Run Step after events₂ tasks ∧
            NoFailedParent before id) ∧
      ∀ id node failed cause, tasks.lookup id = some node → resolveDependency tasks node = .cancel failed cause →
        cause ≠ none := by
  have hsound := h.sound_of_run hrun
  refine ⟨hsound.failedParent, fun id node hnode hcaused => ⟨hsound.cancelledParent id node hnode hcaused, ?_⟩, ?_⟩
  · exact cancelledParent_origin h hrun hnode hcaused
  · rintro id node failed cause hnode hrule rfl
    rcases hsound.rule hnode hrule with ⟨hcause, -⟩ | ⟨hcause, -⟩
    · cases hcause
    · cases hcause

end Runs

/-! ## A chain of three -/

def chainNode (dependsOn : List String) : Node :=
  { tenantId := "eng", state := some .parked, dependsOn := dependsOn }

def chain : Tasks :=
  ((∅ : Tasks).insert "plan" (chainNode [])).insert "build" (chainNode ["plan"]) |>.insert "test" (chainNode ["build"])

def chainStopped : Tasks := chain.insert "plan" ((chainNode []).ended .cancelled (some .cancelRequested))

def chainBuild : Tasks :=
  chainStopped.insert "build" ((chainNode ["plan"]).ended .cancelled (some .cancelledParent))

def chainEnded : Tasks := chainBuild.insert "test" ((chainNode ["build"]).ended .cancelled (some .cancelledParent))

theorem chainNode_open (dependsOn : List String) : ¬ (chainNode dependsOn).Ended := by
  rintro ⟨state, hstate, heq⟩
  obtain rfl := Option.some.inj heq
  exact absurd hstate (by decide)

theorem chain_fresh : Fresh "eng" chain := by
  have hnode : ∀ id node, chain.lookup id = some node → ∃ dependsOn, node = chainNode dependsOn := by
    intro id node hnode
    simp only [chain, Docs.lookup_insert_eq] at hnode
    split at hnode
    · exact ⟨_, (Option.some.inj hnode).symm⟩
    split at hnode
    · exact ⟨_, (Option.some.inj hnode).symm⟩
    split at hnode
    · exact ⟨_, (Option.some.inj hnode).symm⟩
    · cases hnode
  constructor
  · intro id node h
    obtain ⟨dependsOn, rfl⟩ := hnode id node h
    rfl
  · intro id node h
    obtain ⟨dependsOn, rfl⟩ := hnode id node h
    rfl
  · intro id node h
    obtain ⟨dependsOn, rfl⟩ := hnode id node h
    exact ⟨chainNode_open dependsOn, rfl⟩

/-- A cancel of the first task comes down to the last as a cancel. -/
theorem endCauses_true_chain :
    Run Step chain [("plan", .cancelOnRequest), ("build", .rule), ("test", .rule)] chainEnded ∧
      Above chainEnded Node.CancelledItself "test" := by
  have hplan : Step chain ("plan", .cancelOnRequest) chainStopped :=
    ⟨chainNode [], _, rfl, chainNode_open [], rfl, rfl⟩
  have hbuild : Step chainStopped ("build", .rule) chainBuild := by
    refine ⟨chainNode ["plan"], _, rfl, chainNode_open _, ?_, rfl⟩
    have hrule : resolveDependency chainStopped (chainNode ["plan"]) = .cancel ["plan"] (some .cancelledParent) := by
      decide
    rw [Event.leaves, hrule]
  have htest : Step chainBuild ("test", .rule) chainEnded := by
    refine ⟨chainNode ["build"], _, rfl, chainNode_open _, ?_, rfl⟩
    have hrule : resolveDependency chainBuild (chainNode ["build"]) = .cancel ["build"] (some .cancelledParent) := by
      decide
    rw [Event.leaves, hrule]
  have hrun : Run Step chain [("plan", .cancelOnRequest), ("build", .rule), ("test", .rule)] chainEnded :=
    .snoc (.snoc (.one hplan) hbuild) htest
  exact ⟨hrun, ((endCauses_true chain_fresh hrun).2.1 "test" _ rfl rfl).1⟩

end SwarmCloud.Dependencies
