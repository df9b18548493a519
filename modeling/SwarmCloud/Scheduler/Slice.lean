import SwarmCloud.Lib.Runs
import SwarmCloud.Scheduler.Fairness

/-! # The slice of the queue a pass looks at

`DispatchLoop._top_up_starved_tenants` and the queries under it. A pass reads the
head of the whole READY queue; where that came back full, every enabled tenant it
left out is asked for its own head. The order a pass tries its candidates in then
serves each of those tenants before it serves anybody twice.
-/

namespace SwarmCloud.Fairness

open Common Lib

/-- What `Settings.__post_init__` lets through. -/
structure SliceSettings where
  candidateBatchSize : Nat := 200
  tenantTopupCandidates : Nat := 8
  maxTopupTenants : Nat := 50
  candidateBatchSize_pos : 0 < candidateBatchSize := by decide

/-- The order of the query: priority down, age up, then the document's name. -/
def queryKey (task : Task) : Int ×ₗ Instant ×ₗ String := toLex (-task.priority, toLex (task.createdAt, task.id))

def readyTasks (ready : List Task) (limit : Nat) : List Task := (sortBy queryKey ready).take limit

def readyTasksForTenant (ready : List Task) (tenantId : String) (limit : Nat) : List Task :=
  readyTasks (ready.filter fun task => task.tenantId = tenantId) limit

/-- The first tenant documents, and whether each is enabled. -/
def enabledTenantIds (tenants : List (String × Bool)) (limit : Nat) : List String :=
  ((tenants.take limit).filter Prod.snd).map Prod.fst

/-- `seen` are the ids of what is there already. -/
def addTask (topped : List Task × Bool) (task : Task) : List Task × Bool :=
  if task.id ∈ topped.1.map Task.id then topped else (topped.1 ++ [task], true)

def topUpTenant (ready : List Task) (budget : Nat) (topped : List Task × Nat) (tenantId : String) : List Task × Nat :=
  let (tasks, added) := (readyTasksForTenant ready tenantId budget).foldl addTask (topped.1, false)
  (tasks, if added then topped.2 + 1 else topped.2)

def topUpStarvedTenants (s : SliceSettings) (roster : List String) (ready candidates : List Task) : List Task × Nat :=
  if s.tenantTopupCandidates = 0 ∨ candidates.length < s.candidateBatchSize then (candidates, 0)
  else
    let missing := roster.filter (· ∉ candidates.map Task.tenantId)
    missing.foldl (topUpTenant ready s.tenantTopupCandidates) (candidates, 0)

/-- The slice, with the tasks the caller knows are READY. -/
def sliceWith (s : SliceSettings) (ready released : List Task) : List Task :=
  let slice := readyTasks ready s.candidateBatchSize
  slice ++ released.filter fun task => task.id ∉ slice.map Task.id

def candidates (s : SliceSettings) (roster : List String) (ready released : List Task) : List Task :=
  (topUpStarvedTenants s roster ready (sliceWith s ready released)).1

/-! ## What the top-up adds -/

section TopUp

variable {s : SliceSettings} {ready released tasks : List Task} {task : Task} {tenantId : String}

theorem mem_readyTasks {limit : Nat} (h : task ∈ readyTasks ready limit) : task ∈ ready :=
  mem_sortBy.mp (List.mem_of_mem_take h)

/-- A query that comes back short has read everything. -/
theorem readyTasks_short {limit : Nat} (h : (readyTasks ready limit).length < limit) (htask : task ∈ ready) :
    task ∈ readyTasks ready limit := by
  have hlength : ready.length ≤ limit := by
    simp only [readyTasks, List.length_take, length_sortBy] at h
    omega
  rw [readyTasks, List.take_of_length_le (by simpa using hlength)]
  exact mem_sortBy.mpr htask

theorem readyTasksForTenant_ne_nil {budget : Nat} (hbudget : 0 < budget) (htask : task ∈ ready) :
    ∃ first ∈ readyTasksForTenant ready task.tenantId budget, first.tenantId = task.tenantId := by
  have hmem : task ∈ ready.filter fun t => t.tenantId = task.tenantId :=
    List.mem_filter.mpr ⟨htask, by simp⟩
  cases hqueue : sortBy queryKey (ready.filter fun t => t.tenantId = task.tenantId) with
  | nil =>
    have hlength := congrArg List.length hqueue
    rw [length_sortBy] at hlength
    rw [List.length_eq_zero_iff.mp hlength] at hmem
    cases hmem
  | cons first rest =>
    have hfirst : first ∈ readyTasksForTenant ready task.tenantId budget := by
      rw [readyTasksForTenant, readyTasks, hqueue, List.mem_take_iff_getElem]
      exact ⟨0, by simp; omega, rfl⟩
    have hown := mem_readyTasks hfirst
    exact ⟨first, hfirst, by simpa using (List.mem_filter.mp hown).2⟩

theorem addTask_begins (topped : List Task × Bool) (task : Task) : topped.1 <+: (addTask topped task).1 := by
  rw [addTask]
  split
  · exact List.prefix_rfl
  · exact List.prefix_append _ _

theorem foldl_addTask_begins (more : List Task) (topped : List Task × Bool) :
    topped.1 <+: (more.foldl addTask topped).1 := by
  induction more generalizing topped with
  | nil => exact List.prefix_rfl
  | cons task more ih => exact (addTask_begins topped task).trans (ih _)

theorem id_mem_addTask (topped : List Task × Bool) (task : Task) : task.id ∈ (addTask topped task).1.map Task.id := by
  rw [addTask]
  split
  · assumption
  · simp

/-- Every task of the top-up is there afterwards, by its id. -/
theorem ids_foldl_addTask {more : List Task} (htask : task ∈ more) (topped : List Task × Bool) :
    task.id ∈ (more.foldl addTask topped).1.map Task.id := by
  induction more generalizing topped with
  | nil => cases htask
  | cons first more ih =>
    obtain rfl | htask := List.mem_cons.mp htask
    · exact ((foldl_addTask_begins more _).sublist.map Task.id).subset (id_mem_addTask topped task)
    · exact ih htask _

theorem mem_foldl_addTask {more : List Task} {topped : List Task × Bool}
    (h : task ∈ (more.foldl addTask topped).1) : task ∈ topped.1 ∨ task ∈ more := by
  refine (@mem_foldl_collect _ _ _ addTask Prod.fst (fun t t' => t = t') ?_ _ _ _ h).imp_right ?_
  · intro topped first task htask
    rw [addTask] at htask
    split at htask
    · exact .inl htask
    · exact (List.mem_append.mp htask).imp_right fun h => (List.mem_singleton.mp h).symm
  · rintro ⟨task', htask', rfl⟩
    exact htask'

theorem nodup_foldl_addTask {more : List Task} {topped : List Task × Bool} (h : (topped.1.map Task.id).Nodup) :
    ((more.foldl addTask topped).1.map Task.id).Nodup := by
  induction more generalizing topped with
  | nil => exact h
  | cons task more ih =>
    refine ih ?_
    rw [addTask]
    split
    · exact h
    · rename_i hnew
      rw [List.map_append, List.nodup_append]
      exact ⟨h, by simp, by simpa using hnew⟩

/-- What `topUpTenant` keeps, one tenant after the other. -/
theorem foldl_topUpTenant (ready : List Task) (budget : Nat) (missing : List String) (topped : List Task × Nat) :
    topped.1 <+: (missing.foldl (topUpTenant ready budget) topped).1 ∧
      (∀ task ∈ (missing.foldl (topUpTenant ready budget) topped).1, task ∈ topped.1 ∨ task ∈ ready) ∧
      ((topped.1.map Task.id).Nodup → ((missing.foldl (topUpTenant ready budget) topped).1.map Task.id).Nodup) ∧
      ∀ tenantId ∈ missing, ∀ task ∈ readyTasksForTenant ready tenantId budget,
        task.id ∈ (missing.foldl (topUpTenant ready budget) topped).1.map Task.id := by
  induction missing generalizing topped with
  | nil => exact ⟨List.prefix_rfl, fun task htask => .inl htask, id, fun _ h => absurd h List.not_mem_nil⟩
  | cons tenantId missing ih =>
    obtain ⟨hbegins, hmem, hnodup, hall⟩ := ih (topUpTenant ready budget topped tenantId)
    have hfirst : topped.1 <+: (topUpTenant ready budget topped tenantId).1 := foldl_addTask_begins _ (topped.1, false)
    rw [List.foldl_cons]
    refine ⟨hfirst.trans hbegins, ?_, fun h => hnodup (nodup_foldl_addTask h), ?_⟩
    · intro task htask
      obtain hold | hready := hmem task htask
      · refine (mem_foldl_addTask hold).imp_right fun hown => ?_
        exact (List.mem_filter.mp (mem_readyTasks hown)).1
      · exact .inr hready
    · intro other hother task htask
      obtain rfl | hother := List.mem_cons.mp hother
      · exact (hbegins.sublist.map Task.id).subset (ids_foldl_addTask htask (topped.1, false))
      · exact hall other hother task htask

theorem mem_sliceWith (h : task ∈ sliceWith s ready released) : task ∈ ready ∨ task ∈ released := by
  obtain hslice | hreleased := List.mem_append.mp h
  · exact .inl (mem_readyTasks hslice)
  · exact .inr (List.mem_filter.mp hreleased).1

theorem nodup_sliceWith (hready : (ready.map Task.id).Nodup) (hreleased : (released.map Task.id).Nodup) :
    ((sliceWith s ready released).map Task.id).Nodup := by
  rw [sliceWith, List.map_append, List.nodup_append]
  refine ⟨?_, hreleased.sublist (List.filter_sublist.map Task.id), ?_⟩
  · have hsorted := ((sortBy_perm queryKey ready).map Task.id).nodup_iff.mpr hready
    exact hsorted.sublist ((List.take_sublist _ _).map Task.id)
  · rintro id hid other hother rfl
    obtain ⟨task, htask, rfl⟩ := List.mem_map.mp hother
    have hnew := (List.mem_filter.mp htask).2
    simp only [decide_eq_true_eq] at hnew
    exact hnew hid

theorem mem_candidates {roster : List String} (h : task ∈ candidates s roster ready released) :
    task ∈ ready ∨ task ∈ released := by
  rw [candidates, topUpStarvedTenants] at h
  split at h
  · exact mem_sliceWith h
  · obtain hslice | hready := (foldl_topUpTenant ready _ _ (sliceWith s ready released, 0)).2.1 task h
    · exact mem_sliceWith hslice
    · exact .inl hready

theorem nodup_candidates (roster : List String) (hready : (ready.map Task.id).Nodup)
    (hreleased : (released.map Task.id).Nodup) : ((candidates s roster ready released).map Task.id).Nodup := by
  have hslice : ((sliceWith s ready released).map Task.id).Nodup := nodup_sliceWith hready hreleased
  rw [candidates, topUpStarvedTenants]
  split
  · exact hslice
  · exact (foldl_topUpTenant ready _ _ (sliceWith s ready released, 0)).2.2.1 hslice

theorem sliceWith_short (h : (sliceWith s ready released).length < s.candidateBatchSize) (htask : task ∈ ready) :
    task ∈ sliceWith s ready released := by
  rw [sliceWith, List.length_append] at h
  exact List.mem_append_left _ (readyTasks_short (by omega) htask)

theorem prefix_candidates (s : SliceSettings) (roster : List String) (ready released : List Task) :
    sliceWith s ready released <+: candidates s roster ready released := by
  rw [candidates, topUpStarvedTenants]
  split
  · exact List.prefix_rfl
  · exact (foldl_topUpTenant ready _ _ (sliceWith s ready released, 0)).1

/-- A queue shorter than the slice is looked at whole. -/
theorem candidates_few (roster : List String) (hfew : ready.length < s.candidateBatchSize) (htask : task ∈ ready) :
    task ∈ candidates s roster ready released := by
  refine (prefix_candidates s roster ready released).subset (List.mem_append_left _ (readyTasks_short ?_ htask))
  rw [readyTasks, List.length_take, length_sortBy]
  omega

/-- No tenant with READY work is left out: the slice was short and so held everything, or the top-up asked for it. -/
theorem exists_candidate {roster : List String}
    (hids : ∀ a ∈ ready ++ released, ∀ b ∈ ready ++ released, a.id = b.id → a.tenantId = b.tenantId)
    (htask : task ∈ ready)
    (hasked : ready.length < s.candidateBatchSize ∨ task.tenantId ∈ roster ∧ 0 < s.tenantTopupCandidates) :
    ∃ first ∈ candidates s roster ready released, first.tenantId = task.tenantId := by
  obtain hfew | ⟨hroster, hbudget⟩ := hasked
  · exact ⟨task, candidates_few roster hfew htask, rfl⟩
  by_cases hin : task.tenantId ∈ (sliceWith s ready released).map Task.tenantId
  · obtain ⟨first, hfirst, htenant⟩ := List.mem_map.mp hin
    exact ⟨first, (prefix_candidates s roster ready released).subset hfirst, htenant⟩
  · rw [candidates, topUpStarvedTenants]
    split
    · rename_i hskip
      obtain hnone | hshort := hskip
      · omega
      · exact absurd (List.mem_map_of_mem (sliceWith_short hshort htask)) hin
    · obtain ⟨-, hmem, -, hall⟩ := foldl_topUpTenant ready s.tenantTopupCandidates
        (roster.filter (· ∉ (sliceWith s ready released).map Task.tenantId)) (sliceWith s ready released, 0)
      obtain ⟨first, hfirst, htenant⟩ := readyTasksForTenant_ne_nil hbudget htask
      obtain ⟨found, hfound, hid⟩ := List.mem_map.mp
        (hall task.tenantId (List.mem_filter.mpr ⟨hroster, by simpa using hin⟩) first hfirst)
      refine ⟨found, hfound, ?_⟩
      rw [← htenant]
      refine hids found ?_ first ?_ hid
      · obtain hold | hready := hmem found hfound
        · exact List.mem_append.mpr (mem_sliceWith hold)
        · exact List.mem_append_left _ hready
      · exact List.mem_append_left _ (List.mem_filter.mp (mem_readyTasks hfirst)).1

end TopUp

/-! ## Nobody is shut out -/

section Order

variable {s : SliceSettings} {now : Instant} {config : AgingConfig} {active : Option (Dict String Int)}
  {ready released tasks tried : List Task} {task : Task} {roster : List String} {n : Nat}

/-- Until a tenant has had its first turn, nobody has had a second. -/
theorem count_le_one (htask : task ∈ tasks) (htried : tried <+: interleave (queuesOf now config active tasks) n)
    (hnone : ∀ first ∈ tried, first.tenantId ≠ task.tenantId) (tenantId : String) :
    tried.countP (fun t => t.tenantId = tenantId) ≤ 1 := by
  have hrotated := (mem_rotation now config active tasks).mpr ⟨task, htask, rfl⟩
  obtain ⟨before, after, hrotation⟩ := List.append_of_mem hrotated
  have hzero : tried.countP (fun t => t.tenantId = task.tenantId) = 0 :=
    List.countP_eq_zero.mpr fun first hfirst => by simpa using hnone first hfirst
  have hqueue : 0 < (queueOf (sortQueues now config (groupByTenant tasks)) task.tenantId).length := by
    rw [queueOf_sortQueues, length_sortBy]
    exact List.length_pos_of_mem (List.mem_filter.mpr ⟨htask, by simp⟩)
  obtain ⟨hone, -⟩ := (tagged now config active tasks).fair hrotation htried (by omega) tenantId
  omega

/-- What a pass has tried of its order serves a tenant twice only after it has served every tenant that was asked for. -/
theorem order_serves (s : SliceSettings) (now : Instant) (config : AgingConfig) (active : Option (Dict String Int))
    (roster : List String) (hready : (ready.map Task.id).Nodup) (hreleased : (released.map Task.id).Nodup)
    (hids : ∀ a ∈ ready ++ released, ∀ b ∈ ready ++ released, a.id = b.id → a.tenantId = b.tenantId) :
    ∃ order, roundRobinOrder now config active (candidates s roster ready released) = some order ∧
      (order.map Task.id).Nodup ∧ (∀ task ∈ order, task ∈ ready ∨ task ∈ released) ∧
      (ready.length < s.candidateBatchSize → ∀ task ∈ ready, task ∈ order) ∧
      ∀ tried, tried <+: order → ∀ task ∈ ready,
        (ready.length < s.candidateBatchSize ∨ task.tenantId ∈ roster ∧ 0 < s.tenantTopupCandidates) →
        (∃ first ∈ tried, first.tenantId = task.tenantId) ∨
          ∀ tenantId, tried.countP (fun t => t.tenantId = tenantId) ≤ 1 := by
  obtain ⟨n, horder, hn⟩ := roundRobinOrder_eq now config active (candidates s roster ready released)
  have hperm := interleave_queues_perm hn
  refine ⟨_, horder, ?_, ?_, ?_, ?_⟩
  · exact ((hperm.map Task.id).nodup_iff).mpr (nodup_candidates roster hready hreleased)
  · exact fun task htask => mem_candidates (hperm.mem_iff.mp htask)
  · exact fun hfew task htask => hperm.mem_iff.mpr (candidates_few roster hfew htask)
  · intro tried htried task htask hasked
    obtain ⟨first, hfirst, htenant⟩ := exists_candidate hids htask hasked
    by_cases hserved : ∃ first ∈ tried, first.tenantId = task.tenantId
    · exact .inl hserved
    · refine .inr (count_le_one hfirst htried ?_)
      rintro other hother heq
      exact hserved ⟨other, hother, heq.trans htenant⟩

end Order

end SwarmCloud.Fairness
