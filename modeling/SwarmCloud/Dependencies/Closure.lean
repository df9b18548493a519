import SwarmCloud.Dependencies.Release

/-! # A cancelled chain is resolved in one run

Each task that ends is expanded once, and an expansion reaches every task that waits
on it as long as the query's limit is not spent on tasks that it drops again: those
that do not wait, and those that another expansion has resolved.
-/

namespace SwarmCloud.Dependencies

open Common Lib AttemptState

section Statement

variable (reason : String → Option ParkReason) (documents : List String) (tasks : Tasks) (tenantId : String)

/-- The tasks parked on their dependencies that name an ended task, or another one of them. -/
inductive Dependant (roots : List String) : String → Prop
  | direct {id parent : String} {node : Node} : tasks.lookup id = some node → waits reason tenantId id node →
      parent ∈ node.dependsOn → parent ∈ roots → Dependant roots id
  | through {id parent : String} {node : Node} : tasks.lookup id = some node → waits reason tenantId id node →
      parent ∈ node.dependsOn → Dependant roots parent → Dependant roots id

/-- The tasks that a lookup of a parent may read and drop: those that are none of the dependants, and those that
name another of the ended tasks and dependants too. -/
def dropped (roots chain : List String) (parent : String) : List String :=
  (namedBy documents tasks parent).filter fun id => id ∉ chain ||
    (tasks.lookup id).any fun node => (roots ++ chain).any fun other => other ≠ parent && other ∈ node.dependsOn

/-- What one run resolves whole: tasks of one tenant that ended and did not succeed, their dependants, and room for
what the lookups read. -/
structure Fits (ended : List (String × Node)) (chain : List String) (sweepSize : Int) : Prop where
  listed : documents.Nodup ∧ ∀ id, id ∈ documents ↔ id ∈ tasks
  tenant : ∀ id node, tasks.lookup id = some node → node.tenantId = tenantId
  ends : ∀ item ∈ ended, tasks.lookup item.1 = some item.2 ∧ ∃ state ∈ failedParentStates, item.2.state = some state
  members : ∀ id, id ∈ chain ↔ Dependant reason tasks tenantId (ended.map Prod.fst) id
  gated : ∀ id ∈ chain, ∀ node, tasks.lookup id = some node → node.gated = true →
    ∀ item ∈ ended, item.1 ∈ node.dependsOn → item.2.requirementsCheck = false
  total : (ended.length + chain.length : Int) ≤ sweepSize
  room : ∀ parent ∈ ended.map Prod.fst ++ chain, (∃ id ∈ chain, Parent tasks parent id) →
    (chain.length + (dropped documents tasks (ended.map Prod.fst) chain parent).length : Int) ≤ sweepSize

end Statement

section Rule

variable {tasks : Tasks} {node found : Node} {parent : String}

/-- A parent that ended and did not succeed cancels the task, unless it is the requirements check of a gated one. -/
theorem resolveDependency_of_failed (hparent : parent ∈ node.dependsOn) (hfound : tasks.lookup parent = some found)
    (htenant : found.tenantId = node.tenantId) {state : TaskState} (hstate : found.state = some state)
    (hfailed : state ∈ failedParentStates)
    (hexempt : node.gated = true → state = .cancelled ∨ found.requirementsCheck = false) :
    ∃ failed cause, resolveDependency tasks node = .cancel failed cause := by
  have hread : Read tasks node parent ⟨state, found.endCause, found.cancelRequested, found.requirementsCheck⟩ := by
    refine ⟨hparent, ?_⟩
    rw [parentEnd, hfound, Option.filter_some_pos (by simpa using htenant), Option.bind_some, hstate]
    rfl
  have hmem : (parent, state) ∈ dependencyStates node (parentEnds tasks node.dependsOn node.tenantId) := by
    refine List.mem_map.mpr ⟨(parent, _), mem_parentEnds.mpr hread, ?_⟩
    rw [if_neg]
    intro hcheck
    rw [Bool.and_eq_true, checkEndedWithoutList, Bool.and_eq_true] at hcheck
    rcases hexempt hcheck.1 with rfl | hnone
    · exact absurd hcheck.2.2 (by simp)
    · rw [hnone] at hcheck
      exact absurd hcheck.2.1 Bool.false_ne_true
  have hsome : ((dependencyStates node (parentEnds tasks node.dependsOn node.tenantId)).filter
      fun item => item.2 ∈ failedParentStates).map Prod.fst ≠ [] :=
    List.ne_nil_of_mem (List.mem_map_of_mem (List.mem_filter.mpr ⟨hmem, decide_eq_true hfailed⟩))
  exact ⟨_, _, by rw [resolveDependency, if_pos hsome]⟩

theorem parent_of_mem_namedBy {documents : List String} {id : String} (h : id ∈ namedBy documents tasks parent) :
    Parent tasks parent id := by
  obtain ⟨node, hnode, hparent⟩ := Option.any_eq_true _ _ |>.mp (List.mem_filter.mp h).2
  exact ⟨node, hnode, of_decide_eq_true hparent⟩

theorem mem_namedBy_of_parent {documents : List String} (hlisted : ∀ id, id ∈ documents ↔ id ∈ tasks) {id : String}
    (h : Parent tasks parent id) : id ∈ namedBy documents tasks parent := by
  obtain ⟨node, hnode, hparent⟩ := h
  refine List.mem_filter.mpr ⟨(hlisted id).mpr (Finmap.mem_iff.mpr ⟨node, hnode⟩), ?_⟩
  rw [hnode]
  exact decide_eq_true hparent

end Rule

/-! ## What the run has done -/

section Run

/-- The resolved dependants are cancelled, and nothing else has moved. -/
structure Follows (tasks₀ : Tasks) (chain : List String) (size : Nat) (s : Chain) : Prop where
  nodup : s.resolved.Nodup
  subset : s.resolved ⊆ chain
  cancelled : ∀ id ∈ s.resolved, ∃ node cause, tasks₀.lookup id = some node ∧
    s.tasks.lookup id = some (node.ended .cancelled cause)
  others : ∀ id, id ∉ s.resolved → s.tasks.lookup id = tasks₀.lookup id
  budget : s.budget + s.resolved.length = size

variable {reason : String → Option ParkReason} {documents : List String} {held : String → Bool} {tasks₀ : Tasks}
  {tenantId : String} {ended : List (String × Node)} {chain : List String} {size : Nat} {s : Chain}

theorem Follows.parent_iff (h : Follows tasks₀ chain size s) (parent id : String) :
    Parent s.tasks parent id ↔ Parent tasks₀ parent id := by
  by_cases hid : id ∈ s.resolved
  · obtain ⟨node, cause, hbefore, hnow⟩ := h.cancelled id hid
    rw [Parent, Parent, hbefore, hnow]
    constructor
    · rintro ⟨_, ⟨⟩, hparent⟩
      exact ⟨node, rfl, hparent⟩
    · rintro ⟨_, ⟨⟩, hparent⟩
      exact ⟨_, rfl, hparent⟩
  · rw [Parent, Parent, h.others id hid]

theorem Follows.namedBy_eq (h : Follows tasks₀ chain size s) (parent : String) :
    namedBy documents s.tasks parent = namedBy documents tasks₀ parent := by
  rw [namedBy, namedBy]
  refine List.filter_congr fun id _ => ?_
  have hiff := h.parent_iff parent id
  rw [Bool.eq_iff_iff, Option.any_eq_true, Option.any_eq_true]
  simpa [Parent] using hiff

/-- The ended tasks and the resolved ones are failed parents to the others. -/
theorem Follows.failed (h : Follows tasks₀ chain size s)
    (hends : ∀ item ∈ ended, tasks₀.lookup item.1 = some item.2 ∧
      ∃ state ∈ failedParentStates, item.2.state = some state)
    {parent : String} (hparent : parent ∈ ended.map Prod.fst ++ s.resolved) :
    ∃ found state, s.tasks.lookup parent = some found ∧ (∃ node, tasks₀.lookup parent = some node ∧
      found.tenantId = node.tenantId) ∧ found.state = some state ∧ state ∈ failedParentStates ∧
        (state = .cancelled ∨ ∃ item ∈ ended, item.1 = parent ∧ item.2 = found) := by
  by_cases hresolved : parent ∈ s.resolved
  · obtain ⟨node, cause, hbefore, hnow⟩ := h.cancelled parent hresolved
    exact ⟨_, .cancelled, hnow, ⟨node, hbefore, rfl⟩, rfl, by decide, .inl rfl⟩
  · obtain ⟨item, hitem, rfl⟩ := List.mem_map.mp ((List.mem_append.mp hparent).resolve_right hresolved)
    obtain ⟨hlookup, state, hstate, hended⟩ := hends item hitem
    exact ⟨item.2, state, by rw [h.others _ hresolved, hlookup], ⟨item.2, hlookup, rfl⟩, hended, hstate,
      .inr ⟨item, hitem, rfl, rfl⟩⟩

/-- A waiting task that a lookup answers. -/
structure Answered (reason : String → Option ParkReason) (tasks₀ : Tasks) (tenantId : String) (chain : List String)
    (parent : String) (task : String × Node) : Prop where
  lookup : tasks₀.lookup task.1 = some task.2
  waits : waits reason tenantId task.1 task.2
  names : parent ∈ task.2.dependsOn
  member : task.1 ∈ chain

variable {sweepSize : Int}

variable (held) in
/-- The rule cancels an answered task, once. -/
theorem Follows.visit (h : Follows tasks₀ chain size s)
    (hfits : Fits reason documents tasks₀ tenantId ended chain sweepSize) {parent : String}
    (hparent : parent ∈ ended.map Prod.fst ++ s.resolved) {task : String × Node}
    (htask : Answered reason tasks₀ tenantId chain parent task) (hnew : task.1 ∉ s.resolved) (hbudget : s.budget ≠ 0) :
    Follows tasks₀ chain size (s.visit held task) ∧ (s.visit held task).resolved = s.resolved ++ [task.1] ∧
      (s.visit held task).noted = s.noted ++ [task.1] ∧ (s.visit held task).budget + 1 = s.budget := by
  obtain ⟨found, state, hfound, ⟨node, hnode, htenant⟩, hstate, hfailed, hwhose⟩ := h.failed hfits.ends hparent
  have hsame : found.tenantId = task.2.tenantId := by
    rw [htenant, hfits.tenant _ _ hnode, hfits.tenant _ _ htask.lookup]
  have hexempt : task.2.gated = true → state = .cancelled ∨ found.requirementsCheck = false := by
    intro hgated
    rcases hwhose with hcancelled | ⟨item, hitem, rfl, rfl⟩
    · exact .inl hcancelled
    · exact .inr (hfits.gated _ htask.member _ htask.lookup hgated item hitem htask.names)
  obtain ⟨failed, cause, hrule⟩ := resolveDependency_of_failed htask.names hfound hsame hstate hfailed hexempt
  have hvisit : s.visit held task =
      { s with
        tasks := s.tasks.insert task.1 (task.2.ended .cancelled cause)
        budget := s.budget - 1
        resolved := s.resolved ++ [task.1]
        noted := s.noted ++ [task.1] } := by
    rw [Chain.visit, if_neg (not_or.mpr ⟨hnew, hbudget⟩), Chain.resolve]
    dsimp only
    rw [hrule]
  rw [hvisit]
  refine ⟨⟨?_, ?_, ?_, ?_, ?_⟩, rfl, rfl, Nat.succ_pred_eq_of_ne_zero hbudget⟩
  · rw [List.nodup_append]
    refine ⟨h.nodup, List.nodup_singleton _, fun id hid id' hid' heq => hnew ?_⟩
    rwa [← List.mem_singleton.mp hid', ← heq]
  · intro id hid
    rcases List.mem_append.mp hid with hid | hid
    · exact h.subset hid
    · exact List.mem_singleton.mp hid ▸ htask.member
  · intro id hid
    dsimp only
    rw [Docs.lookup_insert_eq]
    split
    · rename_i heq
      exact ⟨task.2, cause, heq ▸ htask.lookup, rfl⟩
    · rename_i hne
      refine h.cancelled id ((List.mem_append.mp hid).resolve_right fun hid => hne ?_)
      exact List.mem_singleton.mp hid
  · intro id hid
    rw [List.mem_append, List.mem_singleton, not_or] at hid
    dsimp only
    rw [Docs.lookup_insert_eq, if_neg hid.2]
    exact h.others id hid.1
  · have := h.budget
    dsimp only
    rw [List.length_append, List.length_singleton]
    omega

variable (held) in
/-- The inner loop cancels all that the lookup answered. -/
theorem Follows.visits (h : Follows tasks₀ chain size s)
    (hfits : Fits reason documents tasks₀ tenantId ended chain sweepSize) {parent : String}
    (hparent : parent ∈ ended.map Prod.fst ++ s.resolved) {answer : List (String × Node)}
    (hanswer : ∀ task ∈ answer, Answered reason tasks₀ tenantId chain parent task)
    (hnew : ∀ task ∈ answer, task.1 ∉ s.resolved) (hnodup : (answer.map Prod.fst).Nodup)
    (hbudget : answer.length ≤ s.budget) :
    Follows tasks₀ chain size (answer.foldl (Chain.visit held) s) ∧
      (answer.foldl (Chain.visit held) s).resolved = s.resolved ++ answer.map Prod.fst ∧
      (answer.foldl (Chain.visit held) s).noted = s.noted ++ answer.map Prod.fst := by
  induction answer generalizing s with
  | nil => exact ⟨h, by simp, by simp⟩
  | cons task answer ih =>
    rw [List.map_cons, List.nodup_cons] at hnodup
    rw [List.length_cons] at hbudget
    obtain ⟨htask, hanswer⟩ := List.forall_mem_cons.mp hanswer
    obtain ⟨hfirst, hnew⟩ := List.forall_mem_cons.mp hnew
    obtain ⟨hnext, hresolved, hnoted, hleft⟩ := h.visit held hfits hparent htask hfirst (by omega)
    have hstill : parent ∈ ended.map Prod.fst ++ (s.visit held task).resolved := by
      rw [hresolved, ← List.append_assoc]
      exact List.mem_append_left _ hparent
    have hlater : ∀ other ∈ answer, other.1 ∉ (s.visit held task).resolved := by
      intro other hother
      rw [hresolved, List.mem_append, List.mem_singleton, not_or]
      exact ⟨hnew other hother, fun heq => hnodup.1 (heq ▸ List.mem_map_of_mem hother)⟩
    obtain ⟨hall, hresolved', hnoted'⟩ := ih hnext hstill hanswer hlater hnodup.2 (by omega)
    refine ⟨hall, ?_, ?_⟩
    · rw [List.foldl_cons, hresolved', hresolved, List.map_cons, List.append_assoc, List.singleton_append]
    · rw [List.foldl_cons, hnoted', hnoted, List.map_cons, List.append_assoc, List.singleton_append]

/-! ## What a lookup answers -/

theorem Follows.unresolved (h : Follows tasks₀ chain size s) {id : String} {node : Node}
    (hnode : s.tasks.lookup id = some node) (hwaits : waits reason tenantId id node = true) : id ∉ s.resolved := by
  intro hid
  obtain ⟨before, cause, -, hnow⟩ := h.cancelled id hid
  rw [hnow, Option.some.injEq] at hnode
  subst hnode
  simp [waits, Node.ended] at hwaits

/-- Every task that waits on an expanded one is a dependant. -/
theorem Fits.member (hfits : Fits reason documents tasks₀ tenantId ended chain sweepSize) {parent id : String}
    {node : Node} (hparent : parent ∈ ended.map Prod.fst ++ chain) (hnode : tasks₀.lookup id = some node)
    (hwaits : waits reason tenantId id node = true) (hnames : parent ∈ node.dependsOn) : id ∈ chain := by
  rw [hfits.members]
  rcases List.mem_append.mp hparent with hroot | hchain
  · exact .direct hnode hwaits hnames hroot
  · exact .through hnode hwaits hnames ((hfits.members parent).mp hchain)

theorem Fits.waits (hfits : Fits reason documents tasks₀ tenantId ended chain sweepSize) {id : String}
    (hid : id ∈ chain) : ∃ node, tasks₀.lookup id = some node ∧ waits reason tenantId id node = true := by
  cases (hfits.members id).mp hid with
  | direct hnode hwaits => exact ⟨_, hnode, hwaits⟩
  | through hnode hwaits => exact ⟨_, hnode, hwaits⟩

theorem mem_dependantsWaitingOn {tasks : Tasks} {current task : String × Node} {limit : Nat}
    (htask : task ∈ dependantsWaitingOn reason documents tasks current limit) :
    task.1 ∈ (namedBy documents tasks current.1).take limit ∧ tasks.lookup task.1 = some task.2 ∧
      waits reason current.2.tenantId task.1 task.2 = true := by
  obtain ⟨id, hid, hread⟩ := List.mem_filterMap.mp htask
  obtain ⟨node, hnode, rfl⟩ := Option.map_eq_some_iff.mp hread
  obtain ⟨hlookup, hwaits⟩ := Option.filter_eq_some_iff.mp hnode
  exact ⟨hid, hlookup, hwaits⟩

theorem map_fst_dependantsWaitingOn (reason : String → Option ParkReason) (documents : List String) (tasks : Tasks)
    (current : String × Node) (limit : Nat) :
    (dependantsWaitingOn reason documents tasks current limit).map Prod.fst =
      ((namedBy documents tasks current.1).take limit).filter fun id =>
        (tasks.lookup id).any (waits reason current.2.tenantId id) := by
  rw [dependantsWaitingOn]
  induction (namedBy documents tasks current.1).take limit with
  | nil => rfl
  | cons id ids ih =>
    rw [List.filterMap_cons, List.filter_cons]
    cases hlookup : tasks.lookup id with
    | none => simpa [hlookup] using ih
    | some node =>
      by_cases hwaits : waits reason current.2.tenantId id node = true
      · simpa [hlookup, hwaits, Option.filter] using ih
      · simpa [hlookup, hwaits, Option.filter] using ih

theorem Follows.answered (h : Follows tasks₀ chain size s)
    (hfits : Fits reason documents tasks₀ tenantId ended chain sweepSize) {current : String × Node}
    (hcurrent : current.1 ∈ ended.map Prod.fst ++ s.resolved) (htenant : current.2.tenantId = tenantId)
    {task : String × Node} (htask : task ∈ dependantsWaitingOn reason documents s.tasks current s.budget) :
    Answered reason tasks₀ tenantId chain current.1 task ∧ task.1 ∉ s.resolved := by
  obtain ⟨hid, hlookup, hwaits⟩ := mem_dependantsWaitingOn htask
  rw [htenant] at hwaits
  have hnew := h.unresolved hlookup hwaits
  have hbefore : tasks₀.lookup task.1 = some task.2 := by rw [← h.others _ hnew, hlookup]
  obtain ⟨node, hnode, hnames⟩ := parent_of_mem_namedBy (List.mem_of_mem_take hid)
  rw [hlookup, Option.some.injEq] at hnode
  subst hnode
  have hparent : current.1 ∈ ended.map Prod.fst ++ chain := by
    rcases List.mem_append.mp hcurrent with hroot | hresolved
    · exact List.mem_append_left _ hroot
    · exact List.mem_append_right _ (h.subset hresolved)
  exact ⟨⟨hbefore, hwaits, hnames, hfits.member hparent hbefore hwaits hnames⟩, hnew⟩

/-- Every dependant that names the task is resolved. -/
def Closed (tasks₀ : Tasks) (chain resolved : List String) (parent : String) : Prop :=
  ∀ id ∈ chain, Parent tasks₀ parent id → id ∈ resolved

theorem Closed.mono {resolved resolved' : List String} {parent : String} (h : Closed tasks₀ chain resolved parent)
    (hsubset : resolved ⊆ resolved') : Closed tasks₀ chain resolved' parent :=
  fun id hid hparent => hsubset (h id hid hparent)

/-- A resolved task was reached from one whose dependants are all resolved. -/
def Traced (tasks₀ : Tasks) (roots chain resolved : List String) : Prop :=
  ∀ id ∈ resolved, ∃ parent ∈ roots ++ chain, Parent tasks₀ parent id ∧ Closed tasks₀ chain resolved parent

/-- A lookup of a task that some dependant still waits on reads all that name it: the limit is not less than what it
drops and what is left of the dependants. -/
theorem Follows.reads_all (h : Follows tasks₀ chain size s) (hsize : (size : Int) = sweepSize)
    (hfits : Fits reason documents tasks₀ tenantId ended chain sweepSize)
    (htraced : Traced tasks₀ (ended.map Prod.fst) chain s.resolved) {parent : String}
    (hparent : parent ∈ ended.map Prod.fst ++ chain) (hopen : ¬Closed tasks₀ chain s.resolved parent) :
    (namedBy documents tasks₀ parent).length ≤ s.budget := by
  have hroom : (chain.length + (dropped documents tasks₀ (ended.map Prod.fst) chain parent).length : Int) ≤
      sweepSize := by
    refine hfits.room parent hparent ?_
    rw [Closed] at hopen
    push Not at hopen
    obtain ⟨id, hid, hnames, -⟩ := hopen
    exact ⟨id, hid, hnames⟩
  -- The tasks that only this lookup can resolve, none of them resolved yet.
  let own := (namedBy documents tasks₀ parent).filter fun id => !(id ∉ chain ||
    (tasks₀.lookup id).any fun node =>
      (ended.map Prod.fst ++ chain).any fun other => other ≠ parent && other ∈ node.dependsOn)
  have hcount : (namedBy documents tasks₀ parent).length =
      (dropped documents tasks₀ (ended.map Prod.fst) chain parent).length + own.length := by
    rw [dropped, List.length_eq_length_filter_add]
  have hown : ∀ id ∈ own, id ∈ chain ∧ id ∉ s.resolved := by
    intro id hid
    obtain ⟨hnamed, hkept⟩ := List.mem_filter.mp hid
    simp only [Bool.not_eq_true', Bool.or_eq_false_iff, decide_eq_false_iff_not, not_not] at hkept
    refine ⟨hkept.1, fun hresolved => ?_⟩
    obtain ⟨other, hother, ⟨node, hnode, hnames⟩, hclosed⟩ := htraced id hresolved
    have hsame : other = parent := by
      by_contra hne
      have hshared := hkept.2
      rw [hnode, Option.any_some, List.any_eq_false] at hshared
      exact hshared other hother (by simp [hne, hnames])
    exact hopen (hsame ▸ hclosed)
  have hnodup : (s.resolved ++ own).Nodup := by
    rw [List.nodup_append]
    exact ⟨h.nodup, (hfits.listed.1.filter _).filter _, fun id hid id' hid' heq => (hown id' hid').2 (heq ▸ hid)⟩
  have hsubset : s.resolved ++ own ⊆ chain := by
    intro id hid
    rcases List.mem_append.mp hid with hid | hid
    · exact h.subset hid
    · exact (hown id hid).1
  have hlength := (List.subperm_of_subset hnodup hsubset).length_le
  have hbudget := h.budget
  rw [List.length_append] at hlength
  omega

variable (held) in
/-- An expansion resolves every dependant that names the task. -/
theorem Follows.expand (h : Follows tasks₀ chain size s) (hsize : (size : Int) = sweepSize)
    (hfits : Fits reason documents tasks₀ tenantId ended chain sweepSize)
    (htraced : Traced tasks₀ (ended.map Prod.fst) chain s.resolved) {current : String × Node}
    (hcurrent : current.1 ∈ ended.map Prod.fst ++ s.resolved) (htenant : current.2.tenantId = tenantId) :
    ∃ answer : List (String × Node), (∀ task ∈ answer, Answered reason tasks₀ tenantId chain current.1 task) ∧
      (∀ task ∈ answer, task.1 ∉ s.resolved) ∧
      Follows tasks₀ chain size (s.expand reason documents held current) ∧
      (s.expand reason documents held current).resolved = s.resolved ++ answer.map Prod.fst ∧
      (s.expand reason documents held current).noted = s.noted ++ answer.map Prod.fst ∧
      Closed tasks₀ chain (s.expand reason documents held current).resolved current.1 := by
  have hanswered : ∀ task ∈ dependantsWaitingOn reason documents s.tasks current s.budget,
      Answered reason tasks₀ tenantId chain current.1 task ∧ task.1 ∉ s.resolved :=
    fun _ htask => h.answered hfits hcurrent htenant htask
  have hids := map_fst_dependantsWaitingOn reason documents s.tasks current s.budget
  have hnodup : ((dependantsWaitingOn reason documents s.tasks current s.budget).map Prod.fst).Nodup := by
    rw [hids]
    exact ((hfits.listed.1.filter _).sublist (List.take_sublist _ _)).filter _
  have hlength : (dependantsWaitingOn reason documents s.tasks current s.budget).length ≤ s.budget := by
    rw [← List.length_map (f := Prod.fst), hids]
    exact (List.length_filter_le _ _).trans (List.length_take_le _ _)
  obtain ⟨hnext, hresolved, hnoted⟩ := h.visits held hfits hcurrent (fun task htask => (hanswered task htask).1)
    (fun task htask => (hanswered task htask).2) hnodup hlength
  refine ⟨_, fun task htask => (hanswered task htask).1, fun task htask => (hanswered task htask).2, hnext, hresolved,
    hnoted, ?_⟩
  have hparent : current.1 ∈ ended.map Prod.fst ++ chain := by
    rcases List.mem_append.mp hcurrent with hroot | hdone
    · exact List.mem_append_left _ hroot
    · exact List.mem_append_right _ (h.subset hdone)
  rw [Chain.expand, hresolved]
  by_cases hclosed : Closed tasks₀ chain s.resolved current.1
  · exact hclosed.mono (List.subset_append_left _ _)
  · intro id hid hnames
    by_cases hdone : id ∈ s.resolved
    · exact List.mem_append_left _ hdone
    · refine List.mem_append_right _ ?_
      obtain ⟨node, hnode, hwaits⟩ := hfits.waits hid
      have hall := h.reads_all hsize hfits htraced hparent hclosed
      rw [hids, h.namedBy_eq, List.take_of_length_le hall, List.mem_filter, h.others id hdone, hnode, htenant]
      exact ⟨mem_namedBy_of_parent hfits.listed.2 hnames, hwaits⟩

/-! ## The loop -/

/-- The ended tasks and the resolved ones are in the queue or expanded, and there are lookups for all that can come. -/
structure Expanding (reason : String → Option ParkReason) (tasks₀ : Tasks) (tenantId : String)
    (ended : List (String × Node)) (chain : List String) (size : Nat) (lookups : Nat) (queue : List (String × Node))
    (expanded : List String) (s : Chain) : Prop where
  follows : Follows tasks₀ chain size s
  noted : s.noted = []
  queued : ∀ item ∈ queue, item.1 ∈ ended.map Prod.fst ++ s.resolved ∧ item.2.tenantId = tenantId
  expanded : ∀ id, id ∈ expanded ↔ id ∈ ended.map Prod.fst ++ s.resolved
  closed : ∀ parent ∈ ended.map Prod.fst ++ s.resolved,
    parent ∈ queue.map Prod.fst ∨ Closed tasks₀ chain s.resolved parent
  traced : Traced tasks₀ (ended.map Prod.fst) chain s.resolved
  left : queue.length + chain.length ≤ lookups + s.resolved.length

theorem eraseDups_of_nodup {ids : List String} (h : ids.Nodup) : ids.eraseDups = ids := by
  induction ids with
  | nil => rfl
  | cons id ids ih =>
    obtain ⟨hid, hids⟩ := List.nodup_cons.mp h
    have hrest : (ids.filter fun other => !other == id) = ids := by
      rw [List.filter_eq_self]
      intro other hother
      have hne : other ≠ id := fun heq => hid (heq ▸ hother)
      simp [hne]
    rw [List.eraseDups_cons, hrest, ih hids]

/-- What an expansion ended is taken for the queue. -/
theorem takeEnded_eq {answer : List (String × Node)} {s' : Chain} {expanded : List String}
    (hnext : Follows tasks₀ chain size s') (hresolved : s'.resolved = s.resolved ++ answer.map Prod.fst)
    (hnodup : (answer.map Prod.fst).Nodup) (hlookup : ∀ task ∈ answer, tasks₀.lookup task.1 = some task.2)
    (hfresh : ∀ task ∈ answer, task.1 ∉ expanded) :
    (answer.map Prod.fst).eraseDups.filter (· ∉ expanded) = answer.map Prod.fst ∧
      ∃ more, takeEnded s'.tasks expanded (answer.map Prod.fst) = more ∧ more.map Prod.fst = answer.map Prod.fst ∧
        ∀ item ∈ more, ∃ task ∈ answer, item.1 = task.1 ∧ item.2.tenantId = task.2.tenantId := by
  have hids : (answer.map Prod.fst).eraseDups.filter (· ∉ expanded) = answer.map Prod.fst := by
    rw [eraseDups_of_nodup hnodup, List.filter_eq_self]
    intro id hid
    obtain ⟨task, htask, rfl⟩ := List.mem_map.mp hid
    exact decide_eq_true (hfresh task htask)
  have hstored : ∀ task ∈ answer, ∃ cause, s'.tasks.lookup task.1 = some (task.2.ended .cancelled cause) := by
    intro task htask
    have hmem : task.1 ∈ s'.resolved := by
      rw [hresolved]
      exact List.mem_append_right _ (List.mem_map_of_mem htask)
    obtain ⟨node, cause, hbefore, hnow⟩ := hnext.cancelled task.1 hmem
    rw [hlookup task htask, Option.some.injEq] at hbefore
    subst hbefore
    exact ⟨cause, hnow⟩
  refine ⟨hids, _, rfl, ?_, ?_⟩
  · rw [takeEnded, hids]
    clear hids hnodup hfresh hresolved hlookup
    induction answer with
    | nil => rfl
    | cons task answer ih =>
      obtain ⟨hfirst, hrest⟩ := List.forall_mem_cons.mp hstored
      obtain ⟨cause, hnow⟩ := hfirst
      rw [List.map_cons, List.filterMap_cons, hnow]
      simpa [Option.filter, Node.ended, terminalStates] using ih hrest
  · intro item hitem
    rw [takeEnded, hids] at hitem
    obtain ⟨id, hid, hread⟩ := List.mem_filterMap.mp hitem
    obtain ⟨task, htask, rfl⟩ := List.mem_map.mp hid
    obtain ⟨cause, hnow⟩ := hstored task htask
    obtain ⟨node, hnode, rfl⟩ := Option.map_eq_some_iff.mp hread
    obtain ⟨hlookup', -⟩ := Option.filter_eq_some_iff.mp hnode
    rw [hnow, Option.some.injEq] at hlookup'
    subst hlookup'
    exact ⟨task, htask, rfl, rfl⟩

theorem Follows.all_resolved (h : Follows tasks₀ chain size s) (hlength : chain.length ≤ s.resolved.length) :
    ∀ id ∈ chain, id ∈ s.resolved := fun _ hid =>
  ((List.subperm_of_subset h.nodup h.subset).perm_of_length_le hlength).mem_iff.mpr hid

/-- Once the queue is empty, whatever waits on an ended or a resolved task is resolved. -/
theorem Expanding.all_resolved {lookups : Nat} {expanded : List String}
    (h : Expanding reason tasks₀ tenantId ended chain size lookups [] expanded s)
    (hfits : Fits reason documents tasks₀ tenantId ended chain sweepSize) : ∀ id ∈ chain, id ∈ s.resolved := by
  have hclosed : ∀ parent ∈ ended.map Prod.fst ++ s.resolved, Closed tasks₀ chain s.resolved parent :=
    fun parent hparent => (h.closed parent hparent).resolve_left nofun
  intro id hid
  have hdependant := (hfits.members id).mp hid
  induction hdependant with
  | direct hnode hwaits hnames hroot =>
    exact hclosed _ (List.mem_append_left _ hroot) _ hid ⟨_, hnode, hnames⟩
  | through hnode hwaits hnames hparent ih =>
    have hmember := ih ((hfits.members _).mpr hparent)
    exact hclosed _ (List.mem_append_right _ hmember) _ hid ⟨_, hnode, hnames⟩

/-- A turn of the outer loop. -/
theorem Expanding.step {lookups : Nat} {current : String × Node} {queue : List (String × Node)}
    {expanded : List String}
    (h : Expanding reason tasks₀ tenantId ended chain size (lookups + 1) (current :: queue) expanded s)
    (hsize : (size : Int) = sweepSize) (hfits : Fits reason documents tasks₀ tenantId ended chain sweepSize) :
    let s' := s.expand reason documents held current
    Expanding reason tasks₀ tenantId ended chain size lookups (queue ++ takeEnded s'.tasks expanded s'.noted)
      (expanded ++ s'.noted.eraseDups.filter (· ∉ expanded)) { s' with noted := [] } := by
  intro s'
  obtain ⟨⟨hcurrent, htenant⟩, hqueued⟩ := List.forall_mem_cons.mp h.queued
  obtain ⟨answer, hanswered, hnew, hnext, hresolved, hnoted, hclosed⟩ :=
    h.follows.expand held hsize hfits h.traced hcurrent htenant
  change Follows tasks₀ chain size s' at hnext
  change s'.resolved = _ at hresolved
  change s'.noted = _ at hnoted
  change Closed tasks₀ chain s'.resolved current.1 at hclosed
  rw [h.noted, List.nil_append] at hnoted
  have hroots : ∀ task ∈ answer, task.1 ∉ ended.map Prod.fst := by
    intro task htask hroot
    obtain ⟨item, hitem, heq⟩ := List.mem_map.mp hroot
    obtain ⟨hlookup, state, hfailed, hstate⟩ := hfits.ends item hitem
    have hwaits := (hanswered task htask).waits
    rw [heq, (hanswered task htask).lookup, Option.some.injEq] at hlookup
    simp only [waits, hlookup, hstate, Bool.and_eq_true, decide_eq_true_eq, Option.some.injEq] at hwaits
    rw [hwaits.1.2] at hfailed
    exact absurd hfailed (by decide)
  have hnodup : (answer.map Prod.fst).Nodup := by
    have hall := hnext.nodup
    rw [hresolved] at hall
    exact (List.nodup_append.mp hall).2.1
  have hfresh : ∀ task ∈ answer, task.1 ∉ expanded := by
    intro task htask
    rw [h.expanded, List.mem_append, not_or]
    exact ⟨hroots task htask, hnew task htask⟩
  obtain ⟨hids, more, hmore, hmoreIds, hmoreTenant⟩ :=
    takeEnded_eq hnext hresolved hnodup (fun task htask => (hanswered task htask).lookup) hfresh
  rw [hnoted, hids, hmore]
  have hsubset : s.resolved ⊆ s'.resolved := by
    rw [hresolved]
    exact List.subset_append_left _ _
  have hknown : ∀ id, id ∈ ended.map Prod.fst ++ s'.resolved ↔
      id ∈ ended.map Prod.fst ++ s.resolved ∨ id ∈ answer.map Prod.fst := by
    intro id
    rw [hresolved, ← List.append_assoc, List.mem_append]
  refine ⟨⟨hnext.nodup, hnext.subset, hnext.cancelled, hnext.others, hnext.budget⟩, rfl, ?_, ?_, ?_, ?_, ?_⟩
  · intro item hitem
    rcases List.mem_append.mp hitem with hitem | hitem
    · exact ⟨(hknown _).mpr (.inl (hqueued item hitem).1), (hqueued item hitem).2⟩
    · obtain ⟨task, htask, hid, htaskTenant⟩ := hmoreTenant item hitem
      refine ⟨(hknown _).mpr (.inr (hid ▸ List.mem_map_of_mem htask)), ?_⟩
      rw [htaskTenant, hfits.tenant _ _ (hanswered task htask).lookup]
  · intro id
    dsimp only
    rw [hknown, List.mem_append, h.expanded]
  · intro parent hparent
    dsimp only at hparent ⊢
    rw [List.map_append, hmoreIds, List.mem_append]
    rcases (hknown parent).mp hparent with hold | hnewer
    · rcases h.closed parent hold with hinQueue | hdone
      · rcases List.mem_cons.mp hinQueue with rfl | hlater
        · exact .inr hclosed
        · exact .inl (.inl hlater)
      · exact .inr (hdone.mono hsubset)
    · exact .inl (.inr hnewer)
  · intro id hid
    dsimp only at hid ⊢
    rw [hresolved] at hid
    rcases List.mem_append.mp hid with hid | hid
    · obtain ⟨parent, hparent, hnames, hdone⟩ := h.traced id hid
      exact ⟨parent, hparent, hnames, hdone.mono hsubset⟩
    · obtain ⟨task, htask, rfl⟩ := List.mem_map.mp hid
      refine ⟨current.1, ?_, ⟨task.2, (hanswered task htask).lookup, (hanswered task htask).names⟩, hclosed⟩
      rcases List.mem_append.mp hcurrent with hroot | hdone
      · exact List.mem_append_left _ hroot
      · exact List.mem_append_right _ (h.follows.subset hdone)
  · have hleft := h.left
    have hlength := congrArg List.length hmoreIds
    rw [List.length_map, List.length_map] at hlength
    dsimp only
    rw [hresolved, List.length_append, List.length_append, List.length_map]
    rw [List.length_cons] at hleft
    omega

variable (held) in
theorem Expanding.run {lookups : Nat} {queue : List (String × Node)} {expanded : List String}
    (h : Expanding reason tasks₀ tenantId ended chain size lookups queue expanded s)
    (hsize : (size : Int) = sweepSize) (hfits : Fits reason documents tasks₀ tenantId ended chain sweepSize) :
    Follows tasks₀ chain size (chainLoop reason documents held lookups queue expanded s) ∧
      ∀ id ∈ chain, id ∈ (chainLoop reason documents held lookups queue expanded s).resolved := by
  induction lookups generalizing queue expanded s with
  | zero =>
    rw [chainLoop]
    have hleft := h.left
    exact ⟨h.follows, h.follows.all_resolved (by omega)⟩
  | succ lookups ih =>
    cases queue with
    | nil =>
      rw [chainLoop]
      exact ⟨h.follows, h.all_resolved hfits⟩
    | cons current queue =>
      rw [chainLoop]
      split
      · rename_i hspent
        have hbudget := h.follows.budget
        have htotal := hfits.total
        exact ⟨h.follows, h.follows.all_resolved (by omega)⟩
      · exact ih (h.step hsize hfits)

end Run

/-- A run resolves no dependant twice, and where the budgets hold the ended tasks, their dependants and what a lookup
of any of them drops again, it leaves every dependant cancelled. -/
theorem releaseChain_settles (reason : String → Option ParkReason) (documents : List String) (held : String → Bool)
    (sweepSize : Int) (tasks : Tasks) (tenantId : String) (ended : List (String × Node)) :
    (releaseChain reason documents held sweepSize tasks ended).resolved.Nodup ∧
      ∀ chain, Fits reason documents tasks tenantId ended chain sweepSize → ∀ id ∈ chain, ∃ node,
        (releaseChain reason documents held sweepSize tasks ended).tasks.lookup id = some node ∧
          node.state = some .cancelled := by
  refine ⟨nodup_chainLoop List.nodup_nil, fun chain hfits id hid => ?_⟩
  have hsize : (sweepSize.toNat : Int) = sweepSize := by
    have := hfits.total
    omega
  have hstart : Expanding reason tasks tenantId ended chain sweepSize.toNat sweepSize.toNat ended
      (ended.map Prod.fst) { tasks, budget := sweepSize.toNat } := by
    refine ⟨⟨List.nodup_nil, List.nil_subset _, nofun, fun _ _ => rfl, rfl⟩, rfl, ?_, ?_, ?_, nofun, ?_⟩
    · intro item hitem
      exact ⟨List.mem_append_left _ (List.mem_map_of_mem hitem), hfits.tenant _ _ (hfits.ends item hitem).1⟩
    · intro id
      rw [List.append_nil]
    · intro parent hparent
      rw [List.append_nil] at hparent
      exact .inl hparent
    · have := hfits.total
      rw [List.length_nil]
      omega
  obtain ⟨hfollows, hall⟩ := hstart.run held hsize hfits
  obtain ⟨node, cause, -, hnow⟩ := hfollows.cancelled id (hall id hid)
  exact ⟨_, hnow, rfl⟩

section Bounds

/-- The run leaves no task parked that waits, directly or not, on the ended ones, where they and those tasks are no
more than the sweep size. -/
def SettlesAll (reason : String → Option ParkReason) (documents : List String) (held : String → Bool)
    (sweepSize : Int) (tasks : Tasks) (tenantId : String) (ended : List (String × Node)) : Prop :=
  (documents.Nodup ∧ ∀ id, id ∈ documents ↔ id ∈ tasks) →
  (∀ id node, tasks.lookup id = some node → node.tenantId = tenantId) →
  (∀ id, ¬Relation.TransGen (Parent tasks) id id) →
  (∀ item ∈ ended, tasks.lookup item.1 = some item.2 ∧ ∃ state ∈ failedParentStates, item.2.state = some state) →
  ∀ dependants : List String,
    (∀ id node, tasks.lookup id = some node → waits reason tenantId id node = true →
      (∃ item ∈ ended, Relation.TransGen (Parent tasks) item.1 id) → id ∈ dependants) →
    (ended.length + dependants.length : Int) ≤ sweepSize →
    ∀ id node, tasks.lookup id = some node → waits reason tenantId id node = true →
      (∃ item ∈ ended, Relation.TransGen (Parent tasks) item.1 id) →
      ∃ node, (releaseChain reason documents held sweepSize tasks ended).tasks.lookup id = some node ∧
        node.state = some .cancelled

def tasksOf (items : List (String × Node)) : Tasks :=
  (items.map fun item => (⟨item.1, item.2⟩ : Sigma fun _ : String => Node)).toFinmap

theorem lookup_tasksOf {items : List (String × Node)} (hnodup : (items.map Prod.fst).Nodup) {id : String}
    {node : Node} : (tasksOf items).lookup id = some node ↔ (id, node) ∈ items := by
  have hkeys : (items.map fun item => (⟨item.1, item.2⟩ : Sigma fun _ : String => Node)).NodupKeys := by
    rw [List.NodupKeys, List.keys, List.map_map]
    exact hnodup
  rw [tasksOf, Finmap.dlookup_list_toFinmap, ← Option.mem_def, List.mem_dlookup_iff hkeys]
  simp

theorem listed_tasksOf {items : List (String × Node)} (hnodup : (items.map Prod.fst).Nodup) :
    (items.map Prod.fst).Nodup ∧ ∀ id, id ∈ items.map Prod.fst ↔ id ∈ tasksOf items := by
  refine ⟨hnodup, fun id => ?_⟩
  rw [Finmap.mem_iff]
  simp only [lookup_tasksOf hnodup]
  simp

/-- Tasks that name only those listed before them are in no cycle. -/
theorem acyclic_tasksOf {items : List (String × Node)} (hnodup : (items.map Prod.fst).Nodup)
    (horder : ∀ item ∈ items, ∀ parent ∈ item.2.dependsOn, parent < item.1) (id : String) :
    ¬Relation.TransGen (Parent (tasksOf items)) id id := by
  intro hcycle
  refine lt_irrefl id (Relation.TransGen.trans_induction_on (motive := fun {a b} _ => a < b) hcycle ?_ ?_)
  · rintro parent child ⟨node, hnode, hparent⟩
    exact horder _ ((lookup_tasksOf hnodup).mp hnode) parent hparent
  · intro _ _ _ _ _ hfirst hsecond
    exact hfirst.trans hsecond

def failedStep : Node := { tenantId := "eng", state := some .failed }

def waitingStep (dependsOn : List String) : Node := { tenantId := "eng", state := some .parked, dependsOn }

/-- Two steps wait on a failed one, two on both of them, and a last one on the second. -/
def diamond : List (String × Node) :=
  [("a", failedStep), ("b", waitingStep ["a"]), ("c", waitingStep ["a"]), ("d", waitingStep ["b", "c"]),
    ("e", waitingStep ["b", "c"]), ("f", waitingStep ["c"])]

/-- A run that must cancel a task and leaves it. -/
theorem not_settlesAll {items ended : List (String × Node)} {sweepSize : Int} (dependants : List String)
    (id : String) (hnodup : (items.map Prod.fst).Nodup) (htenant : ∀ item ∈ items, item.2.tenantId = "eng")
    (horder : ∀ item ∈ items, ∀ parent ∈ item.2.dependsOn, parent < item.1)
    (hended : ∀ item ∈ ended, item ∈ items ∧ ∃ state ∈ failedParentStates, item.2.state = some state)
    (hdependants : ∀ item ∈ items, item.2.state = some .parked → item.1 ∈ dependants)
    (hsize : (ended.length + dependants.length : Int) ≤ sweepSize) {node : Node}
    (hnode : (id, node) ∈ items) (hparked : node.state = some .parked)
    (hreach : ∃ item ∈ ended, Relation.TransGen (Parent (tasksOf items)) item.1 id)
    (hleft : ((releaseChain (fun _ => some .dependencyIncomplete) (items.map Prod.fst) (fun _ => false) sweepSize
      (tasksOf items) ended).tasks.lookup id).all (fun node => node.state ≠ some .cancelled) = true) :
    ¬SettlesAll (fun _ => some .dependencyIncomplete) (items.map Prod.fst) (fun _ => false) sweepSize (tasksOf items)
      "eng" ended := by
  intro hsettles
  have hwaits : waits (fun _ => some .dependencyIncomplete) "eng" id node = true := by
    have := htenant _ hnode
    simp_all [waits]
  obtain ⟨final, hfinal, hcancelled⟩ := hsettles (listed_tasksOf hnodup)
    (fun id node hnode => htenant _ ((lookup_tasksOf hnodup).mp hnode)) (acyclic_tasksOf hnodup horder)
    (fun item hitem => ⟨(lookup_tasksOf hnodup).mpr (hended item hitem).1, (hended item hitem).2⟩) dependants
    (fun id node hnode hwaits _ => hdependants _ ((lookup_tasksOf hnodup).mp hnode) (by simp_all [waits])) hsize id node
    ((lookup_tasksOf hnodup).mpr hnode) hwaits hreach
  rw [hfinal, Option.all_some] at hleft
  simp [hcancelled] at hleft

theorem releaseChain_settles_diamond :
    ∀ id ∈ ["b", "c", "d", "e", "f"], ∃ node, (releaseChain (fun _ => some .dependencyIncomplete)
      (diamond.map Prod.fst) (fun _ => false) 7 (tasksOf diamond) [("a", failedStep)]).tasks.lookup id = some node ∧
        node.state = some .cancelled := by
  have hnodup : (diamond.map Prod.fst).Nodup := by decide
  have htenant : ∀ item ∈ diamond, item.2.tenantId = "eng" := by decide
  have hparked : ∀ item ∈ diamond, item.2.state = some .parked → item.1 ∈ ["b", "c", "d", "e", "f"] := by
    decide
  have hgated : ∀ item ∈ diamond, item.2.gated = false := by decide
  have hroot : (tasksOf diamond).lookup "a" = some failedStep := (lookup_tasksOf hnodup).mpr (.head _)
  have hb : (tasksOf diamond).lookup "b" = some (waitingStep ["a"]) := (lookup_tasksOf hnodup).mpr (.tail _ (.head _))
  have hc : (tasksOf diamond).lookup "c" = some (waitingStep ["a"]) :=
    (lookup_tasksOf hnodup).mpr (.tail _ (.tail _ (.head _)))
  have hd : (tasksOf diamond).lookup "d" = some (waitingStep ["b", "c"]) :=
    (lookup_tasksOf hnodup).mpr (.tail _ (.tail _ (.tail _ (.head _))))
  have he : (tasksOf diamond).lookup "e" = some (waitingStep ["b", "c"]) :=
    (lookup_tasksOf hnodup).mpr (.tail _ (.tail _ (.tail _ (.tail _ (.head _)))))
  have hf : (tasksOf diamond).lookup "f" = some (waitingStep ["c"]) :=
    (lookup_tasksOf hnodup).mpr (.tail _ (.tail _ (.tail _ (.tail _ (.tail _ (.head _))))))
  refine (releaseChain_settles _ _ _ 7 (tasksOf diamond) "eng" _).2 ["b", "c", "d", "e", "f"]
    ⟨listed_tasksOf hnodup, ?_, ?_, ?_, ?_, by decide, ?_⟩
  · intro id node hnode
    exact htenant _ ((lookup_tasksOf hnodup).mp hnode)
  · intro item hitem
    rw [List.mem_singleton.mp hitem]
    exact ⟨hroot, .failed, by decide, rfl⟩
  · intro id
    have hdirect (id : String) (h : (tasksOf diamond).lookup id = some (waitingStep ["a"])) :
        Dependant (fun _ => some .dependencyIncomplete) (tasksOf diamond) "eng" ["a"] id :=
      .direct h (by simp [waits, waitingStep]) (.head _) (.head _)
    constructor
    · intro hid
      simp only [List.mem_cons, List.not_mem_nil, or_false] at hid
      rcases hid with rfl | rfl | rfl | rfl | rfl
      · exact hdirect "b" hb
      · exact hdirect "c" hc
      · exact .through hd (by decide) (.head _) (hdirect "b" hb)
      · exact .through he (by decide) (.head _) (hdirect "b" hb)
      · exact .through hf (by decide) (.head _) (hdirect "c" hc)
    · rintro (⟨hnode, hwaits, -, -⟩ | ⟨hnode, hwaits, -, -⟩)
      all_goals
        refine hparked _ ((lookup_tasksOf hnodup).mp hnode) ?_
        rw [waits, Bool.and_eq_true, Bool.and_eq_true] at hwaits
        exact of_decide_eq_true hwaits.1.2
  · intro id _ node hnode hgate
    have hnone := hgated _ ((lookup_tasksOf hnodup).mp hnode)
    rw [hgate] at hnone
    exact absurd hnone Bool.noConfusion
  · intro parent hparent _
    simp only [List.map_cons, List.map_nil, List.cons_append, List.nil_append, List.mem_cons, List.not_mem_nil,
      or_false] at hparent
    rcases hparent with rfl | rfl | rfl | rfl | rfl | rfl <;> decide

/-- A requirements check that failed, and the review step that its gate lets run. -/
def gatedReview : List (String × Node) :=
  [("a", { failedStep with requirementsCheck := true }), ("b", { waitingStep ["a"] with gated := true })]

/-- A step waits on one that was promoted before its other parent failed. -/
def readyBetween : List (String × Node) :=
  [("a", failedStep), ("b", { waitingStep ["a"] with state := some .ready }), ("c", waitingStep ["b"])]

/-- The limit of a lookup is spent on tasks that the run has cancelled already, a task that is not parked ends no
chain, and the gate of a review takes a failed requirements check for its result. -/
theorem not_settlesAll_of_bounds_and_rules :
    ¬SettlesAll (fun _ => some .dependencyIncomplete) (diamond.map Prod.fst) (fun _ => false) 6 (tasksOf diamond) "eng"
        [("a", failedStep)] ∧
      ¬SettlesAll (fun _ => some .dependencyIncomplete) (readyBetween.map Prod.fst) (fun _ => false) 6
        (tasksOf readyBetween) "eng" [("a", failedStep)] ∧
      ¬SettlesAll (fun _ => some .dependencyIncomplete) (gatedReview.map Prod.fst) (fun _ => false) 6
        (tasksOf gatedReview) "eng" [("a", { failedStep with requirementsCheck := true })] := by
  refine ⟨?_, ?_, ?_⟩
  · have hnodup : (diamond.map Prod.fst).Nodup := by decide
    have hc : Parent (tasksOf diamond) "a" "c" :=
      ⟨_, (lookup_tasksOf hnodup).mpr (.tail _ (.tail _ (.head _))), .head _⟩
    have hf : Parent (tasksOf diamond) "c" "f" :=
      ⟨_, (lookup_tasksOf hnodup).mpr (.tail _ (.tail _ (.tail _ (.tail _ (.tail _ (.head _)))))), .head _⟩
    refine not_settlesAll ["b", "c", "d", "e", "f"] "f" hnodup (by decide) (by decide)
      ?_ (by decide) (by decide) (.tail _ (.tail _ (.tail _ (.tail _ (.tail _ (.head _)))))) rfl
      ⟨_, .head _, .tail (.single hc) hf⟩ (by decide)
    intro item hitem
    rw [List.mem_singleton.mp hitem]
    exact ⟨.head _, .failed, by decide, rfl⟩
  · have hnodup : (readyBetween.map Prod.fst).Nodup := by decide
    have hb : Parent (tasksOf readyBetween) "a" "b" := ⟨_, (lookup_tasksOf hnodup).mpr (.tail _ (.head _)), .head _⟩
    have hc : Parent (tasksOf readyBetween) "b" "c" :=
      ⟨_, (lookup_tasksOf hnodup).mpr (.tail _ (.tail _ (.head _))), .head _⟩
    refine not_settlesAll ["c"] "c" hnodup (by decide) (by decide) ?_ (by decide)
      (by decide) (.tail _ (.tail _ (.head _))) rfl ⟨_, .head _, .tail (.single hb) hc⟩ (by decide)
    intro item hitem
    rw [List.mem_singleton.mp hitem]
    exact ⟨.head _, .failed, by decide, rfl⟩
  · have hnodup : (gatedReview.map Prod.fst).Nodup := by decide
    have hb : Parent (tasksOf gatedReview) "a" "b" := ⟨_, (lookup_tasksOf hnodup).mpr (.tail _ (.head _)), .head _⟩
    refine not_settlesAll ["b"] "b" hnodup (by decide) (by decide) ?_ (by decide)
      (by decide) (.tail _ (.head _)) rfl ⟨_, .head _, .single hb⟩ (by decide)
    intro item hitem
    rw [List.mem_singleton.mp hitem]
    exact ⟨.head _, .failed, by decide, rfl⟩

end Bounds

end SwarmCloud.Dependencies
