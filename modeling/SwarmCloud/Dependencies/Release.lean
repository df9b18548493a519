import Mathlib.Data.String.Basic
import SwarmCloud.Dependencies.EndCauses

/-! # The dependants of what ended, resolved in one run

`_release_chain`: the tasks that wait on an ended task are resolved by the
dependency rule, and those that the rule ends have their own dependants resolved in
turn, breadth first, within two budgets. What a lookup reads counts against its
limit whether or not it still waits.
-/

namespace SwarmCloud.Dependencies

open Common Lib AttemptState

/-- The ids of the tasks that name a parent, of the collection's documents in the order in which a query answers
them. -/
def namedBy (documents : List String) (tasks : Tasks) (parent : String) : List String :=
  documents.filter fun id => (tasks.lookup id).any fun node => parent ∈ node.dependsOn

/-- The run so far: the documents, what is left of the budget, the dependants in the order in which they were
resolved, the promoted ones, and the ends that were noted. -/
structure Chain where
  tasks : Tasks
  budget : Nat
  resolved : List String := []
  released : List String := []
  noted : List String := []

section Release

-- The park reasons of the documents, their order, and the steps that are held for a control-plane publish.
variable (reason : String → Option ParkReason) (documents : List String) (held : String → Bool)

/-- The document is one of the tenant's, parked on its dependencies. -/
def waits (tenantId : String) (id : String) (node : Node) : Bool :=
  node.tenantId = tenantId && node.state = some .parked && reason id = some .dependencyIncomplete

/-- `dependants_waiting_on`: the limit is the query's, and what the query answers is filtered. -/
def dependantsWaitingOn (tasks : Tasks) (parent : String × Node) (limit : Nat) : List (String × Node) :=
  ((namedBy documents tasks parent.1).take limit).filterMap fun id =>
    ((tasks.lookup id).filter (waits reason parent.2.tenantId id)).map (id, ·)

/-- `_resolve_dependency` of a step with no policy, gate or wait before its dependencies, every write applying. -/
def Chain.resolve (s : Chain) (task : String × Node) : Chain :=
  match resolveDependency s.tasks task.2 with
  | .cancel _ cause =>
    { s with tasks := s.tasks.insert task.1 (task.2.ended .cancelled cause), noted := s.noted ++ [task.1] }
  | .satisfied =>
    if held task.1 then s
    else
      { s with
        tasks := s.tasks.insert task.1 { task.2 with state := some .ready }
        released := s.released ++ [task.1] }
  | .wait => s

/-- A turn of the inner loop. -/
def Chain.visit (s : Chain) (task : String × Node) : Chain :=
  if task.1 ∈ s.resolved ∨ s.budget = 0 then s
  else Chain.resolve held { s with resolved := s.resolved ++ [task.1], budget := s.budget - 1 } task

/-- `_take_ended`: the noted tasks that were not expanded, as they are stored. -/
def takeEnded (tasks : Tasks) (expanded noted : List String) : List (String × Node) :=
  (noted.eraseDups.filter (· ∉ expanded)).filterMap fun id =>
    ((tasks.lookup id).filter fun node => node.state.any (· ∈ terminalStates)).map (id, ·)

def Chain.expand (s : Chain) (current : String × Node) : Chain :=
  (dependantsWaitingOn reason documents s.tasks current s.budget).foldl (Chain.visit held) s

/-- The outer loop, with the lookups that are left. -/
def chainLoop : Nat → List (String × Node) → List String → Chain → Chain
  | 0, _, _, s => s
  | _ + 1, [], _, s => s
  | lookups + 1, current :: queue, expanded, s =>
    if s.budget = 0 then s
    else
      let s := s.expand reason documents held current
      let fresh := s.noted.eraseDups.filter (· ∉ expanded)
      chainLoop lookups (queue ++ takeEnded s.tasks expanded s.noted) (expanded ++ fresh) { s with noted := [] }

/-- `_release_chain`, called with no end noted. A negative size leaves the loop as zero does. -/
def releaseChain (dependencySweepSize : Int) (tasks : Tasks) (ended : List (String × Node)) : Chain :=
  chainLoop reason documents held dependencySweepSize.toNat ended (ended.map Prod.fst)
    { tasks, budget := dependencySweepSize.toNat }

/-! ## Once each -/

variable {reason documents held}

theorem resolve_resolved (s : Chain) (task : String × Node) : (Chain.resolve held s task).resolved = s.resolved := by
  unfold Chain.resolve
  split
  · rfl
  · split <;> rfl
  · rfl

theorem nodup_visit {s : Chain} (h : s.resolved.Nodup) (task : String × Node) :
    (Chain.visit held s task).resolved.Nodup := by
  unfold Chain.visit
  split
  · exact h
  · rename_i hnew
    rw [resolve_resolved, List.nodup_append]
    refine ⟨h, List.nodup_singleton _, fun id hid id' hid' heq => hnew (.inl ?_)⟩
    rwa [← List.mem_singleton.mp hid', ← heq]

theorem nodup_chainLoop {lookups : Nat} {queue : List (String × Node)} {expanded : List String} {s : Chain}
    (h : s.resolved.Nodup) : (chainLoop reason documents held lookups queue expanded s).resolved.Nodup := by
  induction lookups generalizing queue expanded s with
  | zero =>
    rw [chainLoop]
    exact h
  | succ lookups ih =>
    cases queue with
    | nil =>
      rw [chainLoop]
      exact h
    | cons current queue =>
      rw [chainLoop]
      split
      · exact h
      · refine ih ?_
        exact List.foldlRecOn (motive := fun s : Chain => s.resolved.Nodup) _ _ h fun _ hs task _ => nodup_visit hs task

end Release

end SwarmCloud.Dependencies
