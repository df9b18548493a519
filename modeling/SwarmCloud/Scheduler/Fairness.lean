import SwarmCloud.Common.Pools
import SwarmCloud.Lib.Dict
import SwarmCloud.Lib.Interleave
import SwarmCloud.Lib.Sorting
import Mathlib.Data.Prod.Lex
import Mathlib.Data.String.Basic

/-! # Ordering the ready tasks

`scheduler/fairness.py`: a tenant's own tasks by priority and age, and the tenants in
turns. The rotation is computed once and then held fixed.
-/

namespace SwarmCloud.Fairness

open Common Lib

/-- What `AgingConfig.__post_init__` lets through. -/
structure AgingConfig where
  intervalSeconds : Int := 60
  step : Int := 1
  maxBonus : Int := 50
  intervalSeconds_pos : 0 < intervalSeconds := by decide
  maxBonus_nonneg : 0 ≤ maxBonus := by decide

/-- The fields of a task that the ordering reads. -/
structure Task where
  id : String
  tenantId : String
  priority : Int
  createdAt : Instant
deriving DecidableEq, Repr

section Keys

variable (now : Instant) (config : AgingConfig)

def agingBonus (task : Task) : Int :=
  let waited := now - task.createdAt
  if waited ≤ 0 then 0
  else min config.maxBonus (waited / seconds config.intervalSeconds * config.step)

def effectivePriority (task : Task) : Int := task.priority + agingBonus now config task

def taskSortKey (task : Task) : Int ×ₗ Instant ×ₗ String :=
  toLex (-effectivePriority now config task, toLex (task.createdAt, task.id))

end Keys

def groupByTenant (tasks : List Task) : Dict String (List Task) := Dict.grouped Task.tenantId id tasks

section Order

variable (now : Instant) (config : AgingConfig) (active : Option (Dict String Int))

def sortQueues (grouped : Dict String (List Task)) : Dict String (List Task) :=
  grouped.map fun item => (item.1, sortBy (taskSortKey now config) item.2)

def queueOf (grouped : Dict String (List Task)) (tenantId : String) : List Task :=
  (grouped.lookup tenantId).getD []

/-- No group is empty, so every tenant has a head. -/
def tenantKey (grouped : Dict String (List Task)) (tenantId : String) : Int ×ₗ Int ×ₗ Instant ×ₗ String :=
  let running := ((active.getD []).lookup tenantId).getD 0
  match queueOf grouped tenantId with
  | [] => toLex (running, toLex (0, toLex (0, tenantId)))
  | head :: _ => toLex (running, toLex (-effectivePriority now config head, toLex (head.createdAt, tenantId)))

def rotationOf (grouped : Dict String (List Task)) : List String :=
  sortBy (tenantKey now config active grouped) (grouped.map Prod.fst)

/-- One tenant's turn in the round at `index`: what is ordered so far and how many remain. -/
def takeTurn (grouped : Dict String (List Task)) (index : Nat) (served : List Task × Nat) (tenantId : String) :
    List Task × Nat :=
  match (queueOf grouped tenantId)[index]? with
  | none => served
  | some task => (served.1 ++ [task], served.2 - 1)

/-- The `while` loop, for at most `rounds` more rounds. -/
def drain (grouped : Dict String (List Task)) (rotation : List String) :
    Nat → Nat → List Task × Nat → Option (List Task)
  | _, _, (ordered, 0) => some ordered
  | 0, _, (_, _ + 1) => none
  | rounds + 1, index, (ordered, remaining + 1) =>
    drain grouped rotation rounds (index + 1)
      (rotation.foldl (takeTurn grouped index) (ordered, remaining + 1))

/-- No run of the loop needs more rounds than there are tasks. -/
def roundRobinOrder (tasks : List Task) : Option (List Task) :=
  if tasks = [] then some []
  else
    let grouped := sortQueues now config (groupByTenant tasks)
    let remaining := (grouped.map fun item => item.2.length).sum
    drain grouped (rotationOf now config active grouped) tasks.length 0 ([], remaining)

end Order

/-! ## The loop -/

section Loop

variable {grouped : Dict String (List Task)} {rotation : List String}

theorem foldl_takeTurn (index : Nat) (ordered : List Task) (remaining : Nat) :
    rotation.foldl (takeTurn grouped index) (ordered, remaining) =
      (ordered ++ turn (rotation.map (queueOf grouped)) index,
        remaining - (turn (rotation.map (queueOf grouped)) index).length) := by
  induction rotation generalizing ordered remaining with
  | nil => simp [turn]
  | cons tenantId rest ih =>
    rw [List.foldl_cons, List.map_cons]
    unfold turn at ih ⊢
    rw [List.filterMap_cons, takeTurn]
    cases (queueOf grouped tenantId)[index]? with
    | none => exact ih ordered remaining
    | some task =>
      rw [ih]
      simp only [List.append_assoc, List.singleton_append, List.length_cons, Prod.mk.injEq, true_and]
      omega

/-- The loop ends, and what it has ordered are the rounds it took. -/
theorem drain_eq {queues : List (List Task)} (hqueues : queues = rotation.map (queueOf grouped)) (rounds index : Nat)
    (hrounds : (queues.map List.length).sum - taken queues index ≤ rounds) :
    ∃ n, drain grouped rotation rounds index
        (interleave queues index, (queues.map List.length).sum - taken queues index) = some (interleave queues n) ∧
      ∀ queue ∈ queues, queue.length ≤ n := by
  have hle := taken_le queues index
  induction rounds generalizing index with
  | zero =>
    have hzero : (queues.map List.length).sum - taken queues index = 0 := by omega
    rw [hzero, drain]
    exact ⟨index, rfl, length_le_of_taken (by omega)⟩
  | succ rounds ih =>
    cases hleft : (queues.map List.length).sum - taken queues index with
    | zero =>
      rw [drain]
      exact ⟨index, rfl, length_le_of_taken (by omega)⟩
    | succ remaining =>
      have hnext := taken_le queues (index + 1)
      have hsucc := taken_succ queues index
      -- A round that serves nobody would have found every queue spent.
      have hserved : 0 < (turn queues index).length := by
        rw [List.length_pos_iff]
        intro hnil
        have hall := taken_eq_of_length_le (turn_eq_nil hnil)
        omega
      rw [drain, foldl_takeTurn, ← hqueues, ← interleave,
        show remaining + 1 - (turn queues index).length =
          (queues.map List.length).sum - taken queues (index + 1) by omega]
      exact ih (index + 1) (by omega) hnext

end Loop

/-! ## The queues -/

section Queues

variable {now : Instant} {config : AgingConfig} {active : Option (Dict String Int)} {tasks : List Task}

/-- A tenant's queue: its own tasks, sorted. -/
theorem queueOf_sortQueues (tenantId : String) :
    queueOf (sortQueues now config (groupByTenant tasks)) tenantId =
      sortBy (taskSortKey now config) (tasks.filter fun task => task.tenantId = tenantId) := by
  rw [queueOf, sortQueues,
    Dict.lookup_map_items (groupByTenant tasks) (fun _ queue => sortBy (taskSortKey now config) queue),
    groupByTenant, Dict.lookup_grouped, List.map_id]
  cases tasks.filter fun task => task.tenantId = tenantId <;> rfl

theorem keys_sortQueues : (sortQueues now config (groupByTenant tasks)).map Prod.fst =
    (groupByTenant tasks).map Prod.fst := by
  rw [sortQueues, List.map_map]
  rfl

theorem mem_keys_groupByTenant {tenantId : String} :
    tenantId ∈ (groupByTenant tasks).map Prod.fst ↔ ∃ task ∈ tasks, task.tenantId = tenantId := by
  constructor
  · intro h
    obtain ⟨⟨tenantId', queue⟩, hitem, rfl⟩ := List.mem_map.mp h
    have hlookup := Dict.lookup_of_mem (Dict.nodup_grouped Task.tenantId id tasks) hitem
    rw [Dict.lookup_grouped, List.map_id] at hlookup
    cases hqueue : tasks.filter fun task => task.tenantId = tenantId' with
    | nil =>
      rw [hqueue] at hlookup
      cases hlookup
    | cons task rest =>
      have hmem : task ∈ tasks.filter fun task => task.tenantId = tenantId' := hqueue ▸ List.mem_cons_self
      obtain ⟨htask, htenant⟩ := List.mem_filter.mp hmem
      exact ⟨task, htask, by simpa using htenant⟩
  · rintro ⟨task, htask, rfl⟩
    exact Dict.mem_grouped Task.tenantId id htask

/-- The rotation and the queues of `tasks`. -/
def queuesOf (now : Instant) (config : AgingConfig) (active : Option (Dict String Int)) (tasks : List Task) :
    List (List Task) :=
  (rotationOf now config active (sortQueues now config (groupByTenant tasks))).map
    (queueOf (sortQueues now config (groupByTenant tasks)))

theorem mem_rotation (now : Instant) (config : AgingConfig) (active : Option (Dict String Int)) (tasks : List Task)
    {tenantId : String} :
    tenantId ∈ rotationOf now config active (sortQueues now config (groupByTenant tasks)) ↔
      ∃ task ∈ tasks, task.tenantId = tenantId := by
  rw [rotationOf, mem_sortBy, keys_sortQueues, mem_keys_groupByTenant]

theorem tagged (now : Instant) (config : AgingConfig) (active : Option (Dict String Int)) (tasks : List Task) :
    Tagged Task.tenantId (queueOf (sortQueues now config (groupByTenant tasks)))
      (rotationOf now config active (sortQueues now config (groupByTenant tasks))) := by
  refine ⟨?_, ?_⟩
  · rw [rotationOf, (sortBy_perm _ _).nodup_iff, keys_sortQueues]
    exact Dict.nodup_grouped Task.tenantId id tasks
  · intro tenantId task htask
    rw [queueOf_sortQueues, mem_sortBy] at htask
    simpa using (List.mem_filter.mp htask).2

/-- Enough rounds take each tenant's tasks, sorted. -/
theorem filter_interleave_queues {n : Nat} (hn : ∀ queue ∈ queuesOf now config active tasks, queue.length ≤ n)
    (tenantId : String) :
    (interleave (queuesOf now config active tasks) n).filter (fun task => task.tenantId = tenantId) =
      sortBy (taskSortKey now config) (tasks.filter fun task => task.tenantId = tenantId) := by
  by_cases htenant : ∃ task ∈ tasks, task.tenantId = tenantId
  · have hmem := (mem_rotation now config active tasks).mpr htenant
    have hlength := hn _ (List.mem_map_of_mem hmem)
    rw [queuesOf, (tagged now config active tasks).filter_interleave hmem, List.take_of_length_le hlength,
      queueOf_sortQueues]
  · have hnone : tasks.filter (fun task => task.tenantId = tenantId) = [] := by
      rw [List.filter_eq_nil_iff]
      intro task htask
      simpa using fun heq => htenant ⟨task, htask, heq⟩
    rw [hnone, queuesOf, filter_interleave_of_not_mem (tagged now config active tasks).tag_eq
      ((mem_rotation now config active tasks).not.mpr htenant)]
    rfl

theorem interleave_queues_perm {n : Nat} (hn : ∀ queue ∈ queuesOf now config active tasks, queue.length ≤ n) :
    (interleave (queuesOf now config active tasks) n).Perm tasks := by
  rw [List.perm_iff_count]
  intro task
  have hcount : ∀ l : List Task, l.count task = (l.filter fun t => t.tenantId = task.tenantId).count task :=
    fun l => (List.count_filter (by simp)).symm
  rw [hcount, filter_interleave_queues hn, (sortBy_perm _ _).count_eq, ← hcount]

/-- What `remaining` starts at is the number of tasks. -/
theorem sum_length_queues : ((queuesOf now config active tasks).map List.length).sum = tasks.length := by
  have hn : ∀ queue ∈ queuesOf now config active tasks, queue.length ≤ tasks.length := by
    intro queue hqueue
    obtain ⟨tenantId, -, rfl⟩ := List.mem_map.mp hqueue
    rw [queueOf_sortQueues, length_sortBy]
    exact List.length_filter_le _ _
  rw [← taken_eq_of_length_le hn, ← length_interleave]
  exact (interleave_queues_perm hn).length_eq

theorem sum_length_sortQueues (active : Option (Dict String Int)) :
    ((sortQueues now config (groupByTenant tasks)).map fun item => item.2.length).sum =
      ((queuesOf now config active tasks).map List.length).sum := by
  have hnodup : ((sortQueues now config (groupByTenant tasks)).map Prod.fst).Nodup := by
    rw [keys_sortQueues]
    exact Dict.nodup_grouped Task.tenantId id tasks
  have hitems : (sortQueues now config (groupByTenant tasks)).map (fun item => item.2.length) =
      ((sortQueues now config (groupByTenant tasks)).map Prod.fst).map
        (fun tenantId => (queueOf (sortQueues now config (groupByTenant tasks)) tenantId).length) := by
    rw [List.map_map]
    refine List.map_congr_left fun item hitem => ?_
    rw [Function.comp_apply, queueOf, Dict.lookup_of_mem hnodup hitem]
    rfl
  have hperm := sortBy_perm (tenantKey now config active (sortQueues now config (groupByTenant tasks)))
    ((sortQueues now config (groupByTenant tasks)).map Prod.fst)
  have hlengths : (queuesOf now config active tasks).map List.length =
      (rotationOf now config active (sortQueues now config (groupByTenant tasks))).map
        (fun tenantId => (queueOf (sortQueues now config (groupByTenant tasks)) tenantId).length) := by
    rw [queuesOf, List.map_map]
    rfl
  rw [hitems, hlengths, rotationOf]
  exact (hperm.symm.map fun tenantId =>
    (queueOf (sortQueues now config (groupByTenant tasks)) tenantId).length).sum_eq

/-- The order is some number of rounds, enough for every queue. -/
theorem roundRobinOrder_eq (now : Instant) (config : AgingConfig) (active : Option (Dict String Int))
    (tasks : List Task) :
    ∃ n, roundRobinOrder now config active tasks = some (interleave (queuesOf now config active tasks) n) ∧
      ∀ queue ∈ queuesOf now config active tasks, queue.length ≤ n := by
  unfold roundRobinOrder
  split
  · rename_i hnil
    subst hnil
    exact ⟨0, rfl, fun queue hqueue => absurd hqueue List.not_mem_nil⟩
  · dsimp only
    rw [sum_length_sortQueues active]
    have hzero : taken (queuesOf now config active tasks) 0 = 0 := by simp [taken]
    have hrounds : ((queuesOf now config active tasks).map List.length).sum -
        taken (queuesOf now config active tasks) 0 ≤ tasks.length := by
      rw [sum_length_queues]
      omega
    have hdrain := drain_eq (queuesOf.eq_1 now config active tasks) tasks.length 0 hrounds
    rwa [hzero, Nat.sub_zero] at hdrain

/-! ## Who goes first -/

theorem taskSortKey_id {task task' : Task} (h : taskSortKey now config task = taskSortKey now config task') :
    task.id = task'.id := by
  have hrest := congrArg Prod.snd (toLex.injective h)
  exact congrArg Prod.snd (toLex.injective hrest)

/-- The last part of a tenant's key is the tenant. -/
theorem tenantKey_tenant (now : Instant) (config : AgingConfig) (active : Option (Dict String Int))
    (grouped : Dict String (List Task)) (tenantId : String) :
    ∃ running priority createdAt, tenantKey now config active grouped tenantId =
      toLex (running, toLex (priority, toLex (createdAt, tenantId))) := by
  unfold tenantKey
  dsimp only
  split
  · exact ⟨_, _, _, rfl⟩
  · exact ⟨_, _, _, rfl⟩

theorem tenantKey_injective {grouped : Dict String (List Task)} {tenantId tenantId' : String}
    (h : tenantKey now config active grouped tenantId = tenantKey now config active grouped tenantId') :
    tenantId = tenantId' := by
  obtain ⟨running, priority, createdAt, hkey⟩ := tenantKey_tenant now config active grouped tenantId
  obtain ⟨running', priority', createdAt', hkey'⟩ := tenantKey_tenant now config active grouped tenantId'
  rw [hkey, hkey'] at h
  have hrest := congrArg Prod.snd (toLex.injective h)
  have hlast := congrArg Prod.snd (toLex.injective hrest)
  exact congrArg Prod.snd (toLex.injective hlast)

/-- A tenant with a smaller key comes earlier in the rotation. -/
theorem not_mem_before {grouped : Dict String (List Task)} {before after : List String} {tenantA tenantB : String}
    (hrotation : rotationOf now config active grouped = before ++ tenantB :: after)
    (hlt : tenantKey now config active grouped tenantB < tenantKey now config active grouped tenantA) :
    tenantA ∉ before := by
  intro hmem
  have hsorted := sortBy_pairwise (tenantKey now config active grouped) (grouped.map Prod.fst)
  rw [← rotationOf, hrotation, List.pairwise_append] at hsorted
  exact absurd (hsorted.2.2 tenantA hmem tenantB List.mem_cons_self) (not_le.mpr hlt)

/-! ## Any order of the input -/

theorem queuesOf_perm {tasks' : List Task} (hids : (tasks.map Task.id).Nodup) (hperm : tasks.Perm tasks') :
    queuesOf now config active tasks = queuesOf now config active tasks' := by
  have hqueues : queueOf (sortQueues now config (groupByTenant tasks)) =
      queueOf (sortQueues now config (groupByTenant tasks')) := by
    funext tenantId
    rw [queueOf_sortQueues, queueOf_sortQueues]
    refine sortBy_eq_of_perm (hperm.filter _) fun task htask task' htask' hkey => ?_
    exact List.inj_on_of_nodup_map hids (List.mem_filter.mp htask).1 (List.mem_filter.mp htask').1 (taskSortKey_id hkey)
  have hkeys : tenantKey now config active (sortQueues now config (groupByTenant tasks)) =
      tenantKey now config active (sortQueues now config (groupByTenant tasks')) := by
    funext tenantId
    unfold tenantKey
    rw [hqueues]
  have hrotation : rotationOf now config active (sortQueues now config (groupByTenant tasks)) =
      rotationOf now config active (sortQueues now config (groupByTenant tasks')) := by
    rw [rotationOf, rotationOf, keys_sortQueues, keys_sortQueues, ← hkeys]
    refine sortBy_eq_of_perm ?_ fun tenantId _ tenantId' _ hkey => tenantKey_injective hkey
    refine (List.perm_ext_iff_of_nodup (Dict.nodup_grouped Task.tenantId id tasks)
      (Dict.nodup_grouped Task.tenantId id tasks')).mpr fun tenantId => ?_
    rw [← groupByTenant, ← groupByTenant, mem_keys_groupByTenant, mem_keys_groupByTenant]
    simp only [hperm.mem_iff]
  rw [queuesOf, queuesOf, hrotation, hqueues]

theorem roundRobinOrder_perm {tasks' : List Task} (hids : (tasks.map Task.id).Nodup) (hperm : tasks.Perm tasks') :
    roundRobinOrder now config active tasks = roundRobinOrder now config active tasks' := by
  obtain ⟨n, horder, hn⟩ := roundRobinOrder_eq now config active tasks
  obtain ⟨n', horder', hn'⟩ := roundRobinOrder_eq now config active tasks'
  rw [horder, horder']
  rw [← queuesOf_perm hids hperm] at hn' ⊢
  rcases le_total n n' with hle | hle
  · rw [interleave_of_length_le hn hle]
  · rw [interleave_of_length_le hn' hle]

end Queues

/-! ## Fairness -/

/-- The order loses and repeats nothing, keeps each tenant's own order and is fair wherever it is cut off; where ids
tell the tasks apart, it does not depend on the order they were listed in. -/
theorem roundRobinOrder_fair (now : Instant) (config : AgingConfig) (active : Option (Dict String Int))
    (tasks : List Task) :
    ∃ result, roundRobinOrder now config active tasks = some result ∧ result.Perm tasks ∧
      (∀ tenant, (result.filter fun task => task.tenantId = tenant).Pairwise fun task task' =>
        taskSortKey now config task ≤ taskSortKey now config task') ∧
      (∀ pre post tenantA tenantB, result = pre ++ post → (∃ task ∈ post, task.tenantId = tenantB) →
        pre.countP (fun task => task.tenantId = tenantA) ≤ pre.countP (fun task => task.tenantId = tenantB) + 1 ∧
        (tenantKey now config active (sortQueues now config (groupByTenant tasks)) tenantB <
            tenantKey now config active (sortQueues now config (groupByTenant tasks)) tenantA →
          pre.countP (fun task => task.tenantId = tenantA) ≤ pre.countP (fun task => task.tenantId = tenantB))) ∧
      ((tasks.map Task.id).Nodup → ∀ tasks', tasks.Perm tasks' →
        roundRobinOrder now config active tasks' = some result) := by
  obtain ⟨n, horder, hn⟩ := roundRobinOrder_eq now config active tasks
  refine ⟨_, horder, interleave_queues_perm hn, ?_, ?_, ?_⟩
  · intro tenant
    rw [filter_interleave_queues hn]
    exact sortBy_pairwise _ _
  · intro pre post tenantA tenantB hsplit houtside
    obtain ⟨task, htask, htenant⟩ := houtside
    have hmem : task ∈ tasks := (interleave_queues_perm hn).mem_iff.mp (hsplit ▸ List.mem_append_right pre htask)
    have hrotated := (mem_rotation now config active tasks).mpr ⟨task, hmem, htenant⟩
    obtain ⟨before, after, hrotation⟩ := List.append_of_mem hrotated
    -- The task outside is one of the queue's that the prefix has not reached.
    have hleft : pre.countP (fun task => task.tenantId = tenantB) <
        (queueOf (sortQueues now config (groupByTenant tasks)) tenantB).length := by
      have hall := congrArg List.length (filter_interleave_queues hn tenantB)
      rw [← queueOf_sortQueues, hsplit, List.filter_append, List.length_append, ← List.countP_eq_length_filter,
        ← List.countP_eq_length_filter] at hall
      have hpost : 0 < post.countP fun task => task.tenantId = tenantB :=
        List.countP_pos_iff.mpr ⟨task, htask, by simpa using htenant⟩
      omega
    obtain ⟨hone, hnone⟩ := (tagged now config active tasks).fair hrotation ⟨post, hsplit.symm⟩ hleft tenantA
    exact ⟨hone, fun hlt => hnone (not_mem_before hrotation hlt)⟩
  · intro hids tasks' hperm
    rw [← roundRobinOrder_perm hids hperm, horder]

/-- Three tasks of a busy tenant and one of an idle one: the idle tenant opens the rotation, and after one task each
the busy tenant has the rest. -/
theorem roundRobinOrder_fair_flood :
    ∃ result, roundRobinOrder 0 {} (some [("big", 2)])
        [⟨"a1", "big", 5, 0⟩, ⟨"a2", "big", 9, 0⟩, ⟨"b1", "small", 0, 0⟩, ⟨"a3", "big", 5, 0⟩] = some result ∧
      result.map Task.id = ["b1", "a2", "a1", "a3"] ∧
      roundRobinOrder 0 {} (some [("big", 2)])
        [⟨"a3", "big", 5, 0⟩, ⟨"b1", "small", 0, 0⟩, ⟨"a2", "big", 9, 0⟩, ⟨"a1", "big", 5, 0⟩] = some result := by
  obtain ⟨result, horder, -, -, -, hsame⟩ := roundRobinOrder_fair 0 {} (some [("big", 2)])
    [⟨"a1", "big", 5, 0⟩, ⟨"a2", "big", 9, 0⟩, ⟨"b1", "small", 0, 0⟩, ⟨"a3", "big", 5, 0⟩]
  refine ⟨result, horder, ?_, hsame (by decide) _ (by decide)⟩
  have hresult : roundRobinOrder 0 {} (some [("big", 2)])
      [⟨"a1", "big", 5, 0⟩, ⟨"a2", "big", 9, 0⟩, ⟨"b1", "small", 0, 0⟩, ⟨"a3", "big", 5, 0⟩] =
      some [⟨"b1", "small", 0, 0⟩, ⟨"a2", "big", 9, 0⟩, ⟨"a1", "big", 5, 0⟩, ⟨"a3", "big", 5, 0⟩] := by
    decide
  rw [horder] at hresult
  rw [Option.some.inj hresult]
  decide

end SwarmCloud.Fairness
