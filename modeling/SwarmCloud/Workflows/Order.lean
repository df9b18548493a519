import SwarmCloud.Lib.Results
import SwarmCloud.Workflows.Cycle

/-! # The order of the steps

`topological_order` puts out the least order as long as no step is ready twice. A
step that lists a dependency twice is made ready for each, when that dependency is
the last of its to be out: from there on some step is out or ready twice, and what
the sweep puts out is not an order of the steps.
-/

namespace SwarmCloud.Workflows

open Lib

variable {steps : List StepSpec} {node child : String}

/-! ## Dependents -/

theorem edges_of_mem (hids : (ids steps).Nodup) {step : StepSpec} (hstep : step ∈ steps) :
    edges steps step.stepId = step.dependsOn := by
  unfold edges
  induction steps with
  | nil => cases hstep
  | cons first steps ih =>
    obtain ⟨hfirst, hrest⟩ := List.nodup_cons.mp hids
    rw [List.find?_cons]
    rcases List.mem_cons.mp hstep with rfl | hstep
    · rw [decide_eq_true rfl]
      rfl
    · have hne : first.stepId ≠ step.stepId := fun heq =>
        hfirst (List.mem_map.mpr ⟨step, hstep, heq.symm⟩)
      rw [decide_eq_false hne]
      exact ih hrest hstep

theorem count_dependents (hids : (ids steps).Nodup) {step : StepSpec} (hstep : step ∈ steps) (node : String) :
    (dependents steps node).count step.stepId = step.dependsOn.count node := by
  induction steps with
  | nil => cases hstep
  | cons first steps ih =>
    obtain ⟨hfirst, hrest⟩ := List.nodup_cons.mp hids
    have hcons : dependents (first :: steps) node =
        List.replicate (first.dependsOn.count node) first.stepId ++ dependents steps node := by
      rw [dependents, List.flatMap_cons, List.map_const', List.count_eq_length_filter]
      rfl
    rw [hcons, List.count_append]
    rcases List.mem_cons.mp hstep with rfl | hstep
    · have hnone : step.stepId ∉ dependents steps node := by
        intro hmem
        obtain ⟨other, hother, hmem⟩ := List.mem_flatMap.mp hmem
        obtain ⟨-, -, heq⟩ := List.mem_map.mp hmem
        exact hfirst (List.mem_map.mpr ⟨other, hother, heq⟩)
      rw [List.count_replicate_self, List.count_eq_zero.mpr hnone, Nat.add_zero]
    · have hne : first.stepId ≠ step.stepId := fun heq =>
        hfirst (List.mem_map.mpr ⟨step, hstep, heq.symm⟩)
      have hzero : (List.replicate (first.dependsOn.count node) first.stepId).count step.stepId = 0 :=
        List.count_eq_zero.mpr fun hmem => hne (List.eq_of_mem_replicate hmem).symm
      rw [hzero, Nat.zero_add]
      exact ih hrest hstep

theorem count_dependents_edges (hids : (ids steps).Nodup) (hchild : child ∈ ids steps) (node : String) :
    (dependents steps node).count child = (edges steps child).count node := by
  obtain ⟨step, hstep, rfl⟩ := List.mem_map.mp hchild
  rw [count_dependents hids hstep, edges_of_mem hids hstep]

theorem mem_ids_of_dependent (h : child ∈ dependents steps node) : child ∈ ids steps := by
  obtain ⟨step, hstep, hmem⟩ := List.mem_flatMap.mp h
  obtain ⟨-, -, rfl⟩ := List.mem_map.mp hmem
  exact List.mem_map_of_mem hstep

theorem mem_dependents (hids : (ids steps).Nodup) :
    child ∈ dependents steps node ↔ child ∈ ids steps ∧ node ∈ edges steps child := by
  constructor
  · intro h
    have hchild := mem_ids_of_dependent h
    have hcount := List.count_pos_iff.mpr h
    rw [count_dependents_edges hids hchild] at hcount
    exact ⟨hchild, List.count_pos_iff.mp hcount⟩
  · rintro ⟨hchild, hnode⟩
    have hcount := List.count_pos_iff.mpr hnode
    rw [← count_dependents_edges hids hchild] at hcount
    exact List.count_pos_iff.mp hcount

/-! ## One turn -/

/-- What the dependents of a node are released to: those that lose their last dependency are ready, each as often
as it is listed. -/
theorem foldl_release (children ready : List String) (remaining : String → Finset String) :
    (children.foldl (release steps node) (ready, remaining)).1.Perm
        (ready ++ children.filter fun child => (remaining child).erase node = ∅) ∧
      ((ready.Pairwise fun a b => orderIndex steps a ≤ orderIndex steps b) →
        (children.foldl (release steps node) (ready, remaining)).1.Pairwise fun a b =>
          orderIndex steps a ≤ orderIndex steps b) ∧
      ∀ child, (children.foldl (release steps node) (ready, remaining)).2 child =
        if child ∈ children then (remaining child).erase node else remaining child := by
  induction children generalizing ready remaining with
  | nil =>
    rw [List.filter_nil, List.append_nil]
    exact ⟨.refl _, id, fun child => (if_neg List.not_mem_nil).symm⟩
  | cons first children ih =>
    have hsame : ∀ child, (Function.update remaining first ((remaining first).erase node) child).erase node =
        (remaining child).erase node := by
      intro child
      rw [Function.update_apply]
      split
      · rename_i hchild
        rw [hchild, Finset.erase_idem]
      · rfl
    have hremaining : ∀ child,
        (if child ∈ children then (Function.update remaining first ((remaining first).erase node) child).erase node
          else Function.update remaining first ((remaining first).erase node) child) =
        if child ∈ first :: children then (remaining child).erase node else remaining child := by
      intro child
      rw [hsame, Function.update_apply]
      by_cases hchild : child = first
      · rw [if_pos hchild, hchild, ite_self, if_pos List.mem_cons_self]
      · rw [if_neg hchild]
        exact if_congr (by rw [List.mem_cons, or_iff_right hchild]) rfl rfl
    rw [List.foldl_cons, release]
    dsimp only
    rw [Function.update_self]
    split
    · rename_i hready
      obtain ⟨hperm, hsorted, hleft⟩ := ih (sortBy (orderIndex steps) (ready ++ [first]))
        (Function.update remaining first ((remaining first).erase node))
      refine ⟨hperm.trans ?_, fun _ => hsorted (sortBy_pairwise _ _), fun child => (hleft child).trans (hremaining child)⟩
      rw [List.filter_cons, if_pos (decide_eq_true hready)]
      refine ((sortBy_perm _ _).append_right _).trans (List.Perm.of_eq ?_)
      rw [List.append_assoc, List.singleton_append]
      congr 3
      funext child
      rw [hsame]
    · rename_i hmore
      obtain ⟨hperm, hsorted, hleft⟩ := ih ready (Function.update remaining first ((remaining first).erase node))
      refine ⟨hperm.trans (List.Perm.of_eq ?_), hsorted, fun child => (hleft child).trans (hremaining child)⟩
      rw [List.filter_cons, if_neg (by rwa [decide_eq_true_iff])]
      congr 2
      funext child
      rw [hsame]

/-- A step lists the dependency that it loses last only once. -/
def OnceAt (steps : List StepSpec) (out : List String) (node : String) : Prop :=
  ∀ child ∈ ids steps, node ∈ edges steps child → (∀ dep ∈ edges steps child, dep ∈ out ++ [node]) →
    (edges steps child).count node = 1

/-- In an order of the steps, each step lists the last of its dependencies once. -/
def LastOnce (steps : List StepSpec) (order : List String) : Prop :=
  ∀ before node after, order = before ++ node :: after → OnceAt steps before node

/-- A sweep that follows an order, with what is left of it: the ready steps are those whose dependencies are out. -/
structure Follows (steps : List StepSpec) (order : List String) (sweep : Sweep) (rest : List String) : Prop where
  split : order = sweep.out ++ rest
  remaining : ∀ child ∈ ids steps, ∀ dep, dep ∈ sweep.remaining child ↔ dep ∈ edges steps child ∧ dep ∉ sweep.out
  sorted : sweep.ready.Pairwise fun a b => orderIndex steps a ≤ orderIndex steps b
  nodup : sweep.ready.Nodup
  ready : ∀ child, child ∈ sweep.ready ↔
    child ∈ ids steps ∧ child ∉ sweep.out ∧ ∀ dep ∈ edges steps child, dep ∈ sweep.out

/-- Some step is out or ready twice. -/
def Doubled (sweep : Sweep) : Prop := ¬ (sweep.out ++ sweep.ready).Nodup

section Follow

variable {order rest : List String} {sweep : Sweep} (hids : (ids steps).Nodup)

/-- The state after a turn. -/
def Sweep.next (steps : List StepSpec) (sweep : Sweep) (node : String) (ready : List String) : Sweep :=
  let released := (dependents steps node).foldl (release steps node) (ready, sweep.remaining)
  ⟨released.1, released.2, sweep.out ++ [node]⟩

theorem sweepTurn_cons {ready : List String} (h : sweep.ready = node :: ready) :
    sweepTurn steps sweep = .inl (sweep.next steps node ready) := by
  rw [sweepTurn, h]
  rfl

theorem perm_next (steps : List StepSpec) (sweep : Sweep) (node : String) (ready : List String) :
    (sweep.next steps node ready).ready.Perm
      (ready ++ (dependents steps node).filter fun child => (sweep.remaining child).erase node = ∅) :=
  (foldl_release (dependents steps node) ready sweep.remaining).1

/-- What is out or ready twice stays so. -/
theorem Doubled.next {ready : List String} (hready : sweep.ready = node :: ready) (h : Doubled sweep) :
    Doubled (sweep.next steps node ready) := by
  intro hnodup
  apply h
  have hperm := (perm_next steps sweep node ready).append_left (sweep.out ++ [node])
  have hall := hperm.nodup_iff.mp hnodup
  rw [← List.append_assoc] at hall
  have hsub := (List.nodup_append.mp hall).1
  rw [hready]
  rwa [List.append_assoc, List.singleton_append] at hsub

section Known

variable (hleast : LeastOrder (edges steps) (ids steps) order)

include hleast hids in
theorem Follows.nodup_order (h : Follows steps order sweep rest) : (sweep.out ++ rest).Nodup := by
  rw [← h.split]
  exact hleast.perm.nodup_iff.mpr hids

include hleast hids in
/-- The next step of the least order is the first of the ready ones. -/
theorem Follows.ready_eq (h : Follows steps order sweep (node :: rest)) : ∃ ready, sweep.ready = node :: ready := by
  have hnode : node ∈ ids steps := by
    refine hleast.perm.mem_iff.mp ?_
    rw [h.split]
    exact List.mem_append_right _ List.mem_cons_self
  have hnot : node ∉ sweep.out := fun hout =>
    (List.nodup_append.mp (h.nodup_order hids hleast)).2.2 node hout node List.mem_cons_self rfl
  have hready : node ∈ sweep.ready :=
    (h.ready node).mpr ⟨hnode, hnot, hleast.ordered sweep.out node rest h.split⟩
  cases hcase : sweep.ready with
  | nil =>
    rw [hcase] at hready
    cases hready
  | cons first ready =>
    have hsorted := h.sorted
    rw [hcase] at hready hsorted
    have hfirst := (h.ready first).mp (by rw [hcase]; exact List.mem_cons_self)
    have hge := hleast.greedy sweep.out node rest h.split first hfirst.1 hfirst.2.1 hfirst.2.2
    have hle : orderIndex steps first ≤ orderIndex steps node := by
      rcases List.mem_cons.mp hready with rfl | hready
      · exact le_refl _
      · exact (List.pairwise_cons.mp hsorted).1 node hready
    obtain rfl := idxOf_injOn hnode (le_antisymm hge hle)
    exact ⟨ready, rfl⟩

include hids in
/-- The dependents that a turn makes ready have lost their last dependency with it. -/
theorem Follows.mem_released (h : Follows steps order sweep (node :: rest)) :
    child ∈ ((dependents steps node).filter fun child => (sweep.remaining child).erase node = ∅) ↔
      child ∈ ids steps ∧ node ∈ edges steps child ∧ ∀ dep ∈ edges steps child, dep ∈ sweep.out ++ [node] := by
  rw [List.mem_filter, mem_dependents hids, decide_eq_true_iff, and_assoc]
  refine and_congr_right fun hchild => and_congr_right fun _ => ?_
  rw [Finset.eq_empty_iff_forall_notMem]
  refine forall_congr' fun dep => ?_
  rw [Finset.mem_erase, h.remaining child hchild, List.mem_append, List.mem_singleton]
  tauto

include hleast in
theorem Follows.out_of_mem (h : Follows steps order sweep rest) {dep : String} (hchild : child ∈ sweep.out)
    (hdep : dep ∈ edges steps child) : dep ∈ sweep.out := by
  obtain ⟨before, after, hout⟩ := List.append_of_mem hchild
  have hdone := hleast.ordered before child (after ++ rest) (by rw [h.split, hout, List.append_assoc, List.cons_append])
    dep hdep
  rw [hout]
  exact List.mem_append_left _ hdone

include hleast hids in
/-- A turn at a step whose dependents list it once follows the order. -/
theorem Follows.next (h : Follows steps order sweep (node :: rest)) {ready : List String}
    (hready : sweep.ready = node :: ready) (honce : OnceAt steps sweep.out node) :
    Follows steps order (sweep.next steps node ready) rest where
  split := by
    rw [h.split]
    exact List.append_cons _ _ _
  remaining child hchild dep := by
    change dep ∈ ((dependents steps node).foldl (release steps node) (ready, sweep.remaining)).2 child ↔
      dep ∈ edges steps child ∧ dep ∉ sweep.out ++ [node]
    rw [(foldl_release _ _ _).2.2, List.mem_append, List.mem_singleton]
    have hbefore := h.remaining child hchild dep
    split
    · rw [Finset.mem_erase, hbefore]
      tauto
    · rename_i hnot
      have hno : node ∉ edges steps child := fun hnode => hnot ((mem_dependents hids).mpr ⟨hchild, hnode⟩)
      rw [hbefore]
      constructor
      · rintro ⟨hdep, hout⟩
        refine ⟨hdep, not_or.mpr ⟨hout, ?_⟩⟩
        rintro rfl
        exact hno hdep
      · rintro ⟨hdep, hout⟩
        exact ⟨hdep, (not_or.mp hout).1⟩
  sorted := by
    refine (foldl_release (dependents steps node) ready sweep.remaining).2.1 ?_
    have hsorted := h.sorted
    rw [hready] at hsorted
    exact (List.pairwise_cons.mp hsorted).2
  nodup := by
    have hnodup := h.nodup
    rw [hready] at hnodup
    refine (perm_next steps sweep node ready).nodup_iff.mpr (List.nodup_append.mpr
      ⟨(List.nodup_cons.mp hnodup).2, ?_, ?_⟩)
    · refine List.nodup_iff_count_le_one.mpr fun child => ?_
      by_cases hchild : child ∈ (dependents steps node).filter fun child => (sweep.remaining child).erase node = ∅
      · obtain ⟨hmem, hnode, hdeps⟩ := (h.mem_released hids).mp hchild
        refine le_trans (List.filter_sublist.count_le child) ?_
        rw [count_dependents_edges hids hmem]
        exact le_of_eq (honce child hmem hnode hdeps)
      · rw [List.count_eq_zero.mpr hchild]
        exact Nat.zero_le 1
    · rintro child hchild other hother rfl
      have hout := ((h.ready child).mp (by rw [hready]; exact List.mem_cons_of_mem node hchild)).2.2
      have hnode := ((h.mem_released hids).mp hother).2.1
      exact ((h.ready node).mp (by rw [hready]; exact List.mem_cons_self)).2.1 (hout node hnode)
  ready child := by
    rw [(perm_next steps sweep node ready).mem_iff, List.mem_append, h.mem_released hids]
    have hnode := (h.ready node).mp (by rw [hready]; exact List.mem_cons_self)
    have htail : child ∈ ready ↔ child ∈ sweep.ready ∧ child ≠ node := by
      have hnodup := h.nodup
      rw [hready] at hnodup ⊢
      constructor
      · intro hchild
        refine ⟨List.mem_cons_of_mem node hchild, ?_⟩
        rintro rfl
        exact (List.nodup_cons.mp hnodup).1 hchild
      · rintro ⟨hchild, hne⟩
        exact (List.mem_cons.mp hchild).resolve_left hne
    rw [htail, h.ready child]
    change _ ↔ child ∈ ids steps ∧ child ∉ sweep.out ++ [node] ∧ ∀ dep ∈ edges steps child, dep ∈ sweep.out ++ [node]
    rw [List.mem_append, List.mem_singleton]
    constructor
    · rintro (⟨⟨hchild, hout, hdeps⟩, hne⟩ | ⟨hchild, hedge, hdeps⟩)
      · exact ⟨hchild, not_or.mpr ⟨hout, hne⟩, fun dep hdep => List.mem_append_left _ (hdeps dep hdep)⟩
      · refine ⟨hchild, not_or.mpr ⟨fun hout => ?_, ?_⟩, hdeps⟩
        · exact hnode.2.1 (h.out_of_mem hleast hout hedge)
        · rintro rfl
          exact hnode.2.1 (hnode.2.2 _ hedge)
    · rintro ⟨hchild, hout, hdeps⟩
      obtain ⟨hout, hne⟩ := not_or.mp hout
      by_cases hedge : node ∈ edges steps child
      · exact .inr ⟨hchild, hedge, hdeps⟩
      · refine .inl ⟨⟨hchild, hout, fun dep hdep => ?_⟩, hne⟩
        refine (List.mem_append.mp (hdeps dep hdep)).resolve_right fun hsame => hedge ?_
        rwa [← List.mem_singleton.mp hsame]

include hids in
/-- A turn at a step that a dependent lists twice makes it ready twice. -/
theorem Follows.next_doubled (h : Follows steps order sweep (node :: rest)) (ready : List String)
    (htwice : ¬ OnceAt steps sweep.out node) : Doubled (sweep.next steps node ready) := by
  intro hnodup
  apply htwice
  intro child hchild hnode hdeps
  have hall := (perm_next steps sweep node ready).nodup_iff.mp (List.nodup_append.mp hnodup).2.1
  have hreleased : child ∈ (dependents steps node).filter fun child => (sweep.remaining child).erase node = ∅ :=
    (h.mem_released hids).mpr ⟨hchild, hnode, hdeps⟩
  have hempty := of_decide_eq_true (List.mem_filter.mp hreleased).2
  rw [← count_dependents_edges hids hchild,
    ← List.count_filter (p := fun child => decide ((sweep.remaining child).erase node = ∅)) (decide_eq_true hempty)]
  refine le_antisymm (List.nodup_iff_count_le_one.mp (List.nodup_append.mp hall).2.1 child) ?_
  exact List.count_pos_iff.mpr hreleased

include hids in
theorem Follows.start : Follows steps order (.start steps) order where
  split := rfl
  remaining child _ dep := by
    change dep ∈ (edges steps child).toFinset ↔ dep ∈ edges steps child ∧ dep ∉ []
    rw [List.mem_toFinset]
    exact (and_iff_left List.not_mem_nil).symm
  sorted := sortBy_pairwise _ _
  nodup := (sortBy_perm _ _).nodup_iff.mpr (hids.filter _)
  ready child := by
    change child ∈ sortBy (orderIndex steps) _ ↔ child ∈ ids steps ∧ child ∉ [] ∧ ∀ dep ∈ edges steps child, dep ∈ []
    rw [mem_sortBy, List.mem_filter, decide_eq_true_iff, List.toFinset_eq_empty_iff]
    refine and_congr_right fun _ => ?_
    rw [List.eq_nil_iff_forall_not_mem, and_iff_right List.not_mem_nil]
    exact forall_congr' fun dep => imp_congr_right fun _ => ⟨False.elim, fun h => absurd h List.not_mem_nil⟩

include hids hleast in
/-- Where each step lists its last dependency once, the sweep puts out the least order. -/
theorem Follows.loop_eq (h : Follows steps order sweep rest)
    (honce : ∀ before node after, rest = before ++ node :: after → OnceAt steps (sweep.out ++ before) node) :
    loop (sweepTurn steps) (rest.length + 1) sweep = some (.ok order) := by
  induction rest generalizing sweep with
  | nil =>
    have hout : sweep.out = order := by rw [h.split, List.append_nil]
    have hready : sweep.ready = [] := by
      refine List.eq_nil_iff_forall_not_mem.mpr fun child hchild => ?_
      obtain ⟨hknown, hnot, -⟩ := (h.ready child).mp hchild
      rw [hout] at hnot
      exact hnot (hleast.perm.mem_iff.mpr hknown)
    have hlength : sweep.out.length = steps.length := by
      rw [hout, hleast.perm.length_eq, ids, List.length_map]
    refine loop_inr ?_ 0
    rw [sweepTurn, hready]
    dsimp only
    rw [if_neg (not_not.mpr hlength), hout]
  | cons node rest ih =>
    obtain ⟨ready, hready⟩ := h.ready_eq hids hleast
    rw [List.length_cons, loop_inl (sweepTurn_cons hready)]
    have hhere := honce [] node rest rfl
    rw [List.append_nil] at hhere
    refine ih (h.next hids hleast hready hhere) fun before later after hrest => ?_
    have hlater := honce (node :: before) later after (by rw [hrest, List.cons_append])
    rwa [List.append_cons] at hlater

include hids hleast in
/-- Where some step lists its last dependency twice, what the sweep puts out is no order. -/
theorem Follows.doubled (h : Follows steps order sweep rest)
    (htwice : ∃ before node after, rest = before ++ node :: after ∧ ¬ OnceAt steps (sweep.out ++ before) node)
    {fuel : Nat} {out : List String} (hreturn : loop (sweepTurn steps) fuel sweep = some (.ok out)) : ¬ out.Nodup := by
  refine loop_invariant
    (I := fun sweep => Doubled sweep ∨ ∃ rest, Follows steps order sweep rest ∧
      ∃ before node after, rest = before ++ node :: after ∧ ¬ OnceAt steps (sweep.out ++ before) node)
    (Q := fun returned : Except DagError (List String) => ∀ out, returned = .ok out → ¬ out.Nodup)
    ?_ ?_ (.inr ⟨rest, h, htwice⟩) hreturn out rfl
  · rintro sweep sweep' (hdoubled | ⟨rest, h, before, late, after, hrest, htwice⟩) hturn
    · cases hready : sweep.ready with
      | nil =>
        rw [sweepTurn, hready] at hturn
        cases hturn
      | cons node ready =>
        rw [sweepTurn_cons hready] at hturn
        obtain rfl := Sum.inl.inj hturn
        exact .inl (hdoubled.next hready)
    · cases before with
      | nil =>
        obtain rfl : rest = late :: after := hrest
        obtain ⟨ready, hready⟩ := h.ready_eq hids hleast
        rw [sweepTurn_cons hready] at hturn
        obtain rfl := Sum.inl.inj hturn
        rw [List.append_nil] at htwice
        exact .inl (h.next_doubled hids ready htwice)
      | cons node before =>
        obtain rfl : rest = node :: (before ++ late :: after) := hrest
        obtain ⟨ready, hready⟩ := h.ready_eq hids hleast
        rw [sweepTurn_cons hready] at hturn
        obtain rfl := Sum.inl.inj hturn
        by_cases honce : OnceAt steps sweep.out node
        · refine .inr ⟨_, h.next hids hleast hready honce, before, late, after, rfl, ?_⟩
          rwa [List.append_cons] at htwice
        · exact .inl (h.next_doubled hids ready honce)
  · rintro sweep returned (hdoubled | ⟨rest, h, before, late, after, hrest, -⟩) hturn out rfl
    · cases hready : sweep.ready with
      | nil =>
        rw [sweepTurn, hready] at hturn
        dsimp only at hturn
        split at hturn
        · cases hturn
        · cases hturn
          rw [Doubled, hready, List.append_nil] at hdoubled
          exact hdoubled
      | cons node ready =>
        rw [sweepTurn_cons hready] at hturn
        cases hturn
    · obtain ⟨node, more, rfl⟩ : ∃ node more, rest = node :: more := by
        cases before with
        | nil => exact ⟨late, after, hrest⟩
        | cons node before => exact ⟨node, before ++ late :: after, hrest⟩
      obtain ⟨ready, hready⟩ := h.ready_eq hids hleast
      rw [sweepTurn_cons hready] at hturn
      cases hturn

end Known

end Follow

/-! ## Validation -/

/-- A submission of `validate_dag`: steps within the limit, ids that are distinct, not empty and bare of whitespace
at their ends, and no staged input. -/
structure Submitted (maxSteps : Nat) (steps : List StepSpec) : Prop where
  some : steps ≠ []
  limit : steps.length ≤ maxSteps
  distinct : (ids steps).Nodup
  bare : ∀ step ∈ steps, step.stepId ≠ "" ∧ Staging.stripped step.stepId = step.stepId
  unstaged : ∀ step ∈ steps, step.inputFrom = []

/-- Every dependency is a step of the workflow. -/
def Known (steps : List StepSpec) : Prop := ∀ step ∈ steps, ∀ dep ∈ step.dependsOn, dep ∈ ids steps

theorem checkIds_eq {seen : List String} (hbare : ∀ step ∈ steps, step.stepId ≠ "" ∧
    Staging.stripped step.stepId = step.stepId) (hnodup : (seen ++ ids steps).Nodup) :
    checkIds seen steps = .ok (seen ++ ids steps) := by
  induction steps generalizing seen with
  | nil => rw [ids, List.map_nil, List.append_nil, checkIds]
  | cons step steps ih =>
    obtain ⟨hne, hstripped⟩ := hbare step List.mem_cons_self
    have hnew : step.stepId ∉ seen := fun hseen =>
      (List.nodup_append.mp hnodup).2.2 _ hseen _ List.mem_cons_self rfl
    have hnext : seen ++ ids (step :: steps) = (seen ++ [step.stepId]) ++ ids steps := List.append_cons _ _ _
    rw [checkIds, hstripped, if_neg hne, if_neg hnew]
    rw [hnext] at hnodup ⊢
    exact ih (fun other hother => hbare other (List.mem_cons_of_mem step hother)) hnodup

theorem validateStagedFilenames_nil {step : Staging.StepSpec} (h : step.inputFrom = []) :
    Staging.validateStagedFilenames step = .ok () := by
  rw [Staging.validateStagedFilenames, h]
  dsimp only [List.findSome?_nil]
  split
  · rfl
  · rfl

theorem checkDependency_eq_ok {seen : List String} {step : StepSpec} {dep : String} :
    checkDependency seen step dep = .ok () ↔ dep ≠ step.stepId ∧ dep ∈ seen := by
  rw [checkDependency]
  split
  · rename_i hself
    exact iff_of_false nofun fun h => h.1 hself
  · rename_i hother
    split
    · rename_i hunknown
      exact iff_of_false nofun fun h => hunknown h.2
    · rename_i hknown
      exact iff_of_true rfl ⟨hother, not_not.mp hknown⟩

theorem checkStep_eq_ok {seen : List String} {step : StepSpec} (h : step.inputFrom = []) :
    checkStep seen step = .ok () ↔ ∀ dep ∈ step.dependsOn, dep ≠ step.stepId ∧ dep ∈ seen := by
  rw [checkStep, h, validateStagedFilenames_nil h]
  have hdeps := @forM_eq_ok _ _ (checkDependency seen step) step.dependsOn
  simp only [checkDependency_eq_ok] at hdeps
  rw [← hdeps]
  cases step.dependsOn.forM (checkDependency seen step) with
  | error error => exact iff_of_false nofun nofun
  | ok _ => exact iff_of_true rfl rfl

variable {maxSteps : Nat}

theorem checkSteps_eq_ok (h : Submitted maxSteps steps) :
    checkSteps maxSteps steps = .ok () ↔ Known steps ∧ ∀ step ∈ steps, step.stepId ∉ step.dependsOn := by
  have hids : checkIds [] steps = .ok (ids steps) := checkIds_eq h.bare h.distinct
  rw [checkSteps, if_neg h.some, if_neg (not_lt.mpr h.limit), hids]
  change steps.forM (checkStep (ids steps)) = .ok () ↔ _
  rw [forM_eq_ok]
  constructor
  · intro hall
    refine ⟨fun step hstep dep hdep => ?_, fun step hstep hself => ?_⟩
    · exact ((checkStep_eq_ok (h.unstaged step hstep)).mp (hall step hstep) dep hdep).2
    · exact ((checkStep_eq_ok (h.unstaged step hstep)).mp (hall step hstep) _ hself).1 rfl
  · rintro ⟨hknown, hself⟩ step hstep
    refine (checkStep_eq_ok (h.unstaged step hstep)).mpr fun dep hdep => ⟨?_, hknown step hstep dep hdep⟩
    rintro rfl
    exact hself step hstep hdep

/-- What `validate_dag` and `find_cycle` are for: the acyclic workflows are accepted, in the least of their orders,
and a cycle is found. -/
structure DagValidated (maxSteps : Nat) (steps : List StepSpec) : Prop where
  returns : (∃ fuel order, validateDag fuel maxSteps steps = some (.ok order)) ↔
    Known steps ∧ Acyclic (edges steps) (ids steps)
  least : ∀ fuel order, validateDag fuel maxSteps steps = some (.ok order) →
    LeastOrder (edges steps) (ids steps) order
  cycle : ¬ Acyclic (edges steps) (ids steps) → ∃ fuel cycle, findCycle fuel steps = some (some cycle) ∧
    IsCycle steps cycle

theorem Known.edges (hids : (ids steps).Nodup) (h : Known steps) :
    ∀ node ∈ ids steps, ∀ dep ∈ edges steps node, dep ∈ ids steps := by
  intro node hnode
  obtain ⟨step, hstep, rfl⟩ := List.mem_map.mp hnode
  rw [edges_of_mem hids hstep]
  exact h step hstep

theorem exists_least (hids : (ids steps).Nodup) (hknown : Known steps) (h : Acyclic (edges steps) (ids steps)) :
    ∃ order, LeastOrder (edges steps) (ids steps) order := by
  obtain ⟨order, horder⟩ := exists_order_of_acyclic hids h
  refine exists_leastOrder ⟨order, horder.perm, fun before node after heq dep hdep => ?_⟩
  have hnode : node ∈ ids steps := by
    refine horder.perm.mem_iff.mp ?_
    rw [heq]
    exact List.mem_append_right before List.mem_cons_self
  refine horder.ordered before node after heq dep (List.mem_filter.mpr ⟨hdep, ?_⟩)
  exact decide_eq_true (hknown.edges hids node hnode dep hdep)

theorem valid_of_leastOrder (hids : (ids steps).Nodup) {order : List String}
    (h : LeastOrder (edges steps) (ids steps) order) : Known steps ∧ Acyclic (edges steps) (ids steps) := by
  constructor
  · intro step hstep dep hdep
    have hmem : step.stepId ∈ order := h.perm.mem_iff.mpr (List.mem_map_of_mem hstep)
    obtain ⟨before, after, heq⟩ := List.append_of_mem hmem
    rw [← edges_of_mem hids hstep] at hdep
    have hbefore := h.ordered before step.stepId after heq dep hdep
    refine h.perm.mem_iff.mp ?_
    rw [heq]
    exact List.mem_append_left _ hbefore
  · refine acyclic_of_ordered (fun before node after heq dep hdep => ?_) fun node hnode => h.perm.mem_iff.mpr hnode
    exact h.ordered before node after heq dep (List.mem_filter.mp hdep).1

theorem not_self_of_acyclic (hids : (ids steps).Nodup) (h : Acyclic (edges steps) (ids steps)) :
    ∀ step ∈ steps, step.stepId ∉ step.dependsOn := by
  intro step hstep hself
  rw [← edges_of_mem hids hstep] at hself
  exact h step.stepId (.single ⟨List.mem_map_of_mem hstep, List.mem_map_of_mem hstep, hself⟩)

/-- A workflow that is accepted is known and acyclic, and the sweep ordered it. -/
theorem validateDag_eq_ok (h : Submitted maxSteps steps) {fuel : Nat} {order : List String}
    (hreturn : validateDag fuel maxSteps steps = some (.ok order)) :
    Known steps ∧ Acyclic (edges steps) (ids steps) ∧ topologicalOrder fuel steps = some (.ok order) := by
  unfold validateDag at hreturn
  split at hreturn
  · cases hreturn
  · rename_i hchecked
    obtain ⟨hknown, -⟩ := (checkSteps_eq_ok h).mp hchecked
    split at hreturn
    · cases hreturn
    · cases hreturn
    · rename_i hcycle
      exact ⟨hknown, (findCycle_none_iff h.distinct hcycle).mp rfl, hreturn⟩

theorem topologicalOrder_least (h : Submitted maxSteps steps) {order : List String}
    (hleast : LeastOrder (edges steps) (ids steps) order) (honce : LastOnce steps order) :
    topologicalOrder (order.length + 1) steps = some (.ok order) :=
  (Follows.start h.distinct).loop_eq h.distinct hleast honce

/-- Of the workflows within the limits, those are validated in which no step lists twice the dependency that comes
last of its dependencies in the least order. -/
theorem dagValidated_iff (h : Submitted maxSteps steps) :
    DagValidated maxSteps steps ↔
      ∀ order, LeastOrder (edges steps) (ids steps) order → LastOnce steps order := by
  have hids := h.distinct
  constructor
  · intro hvalidated order hleast
    by_contra htwice
    obtain ⟨fuel, out, hreturn⟩ := hvalidated.returns.mpr (valid_of_leastOrder hids hleast)
    have hperm := (hvalidated.least fuel out hreturn).perm
    refine (Follows.start hids).doubled hids hleast ?_ (validateDag_eq_ok h hreturn).2.2 (hperm.nodup_iff.mpr hids)
    unfold LastOnce at htwice
    push Not at htwice
    obtain ⟨before, node, after, heq, hnot⟩ := htwice
    exact ⟨before, node, after, heq, hnot⟩
  · intro honce
    refine ⟨⟨?_, ?_⟩, ?_, ?_⟩
    · rintro ⟨fuel, order, hreturn⟩
      obtain ⟨hknown, hacyclic, -⟩ := validateDag_eq_ok h hreturn
      exact ⟨hknown, hacyclic⟩
    · rintro ⟨hknown, hacyclic⟩
      obtain ⟨order, hleast⟩ := exists_least hids hknown hacyclic
      obtain ⟨fuel, found, hfound⟩ := findCycle_returns steps
      obtain rfl := (findCycle_none_iff hids hfound).mpr hacyclic
      have hsweep := topologicalOrder_least h hleast (honce order hleast)
      refine ⟨max fuel (order.length + 1), order, ?_⟩
      have hchecked := (checkSteps_eq_ok h).mpr ⟨hknown, not_self_of_acyclic hids hacyclic⟩
      have hcycle : findCycle (max fuel (order.length + 1)) steps = some none := loop_mono (le_max_left _ _) hfound
      rw [validateDag, hchecked]
      dsimp only
      rw [hcycle]
      exact loop_mono (le_max_right _ _) hsweep
    · intro fuel order hreturn
      obtain ⟨hknown, hacyclic, hsweep⟩ := validateDag_eq_ok h hreturn
      obtain ⟨least, hleast⟩ := exists_least hids hknown hacyclic
      have hsame := loop_unique hsweep (topologicalOrder_least h hleast (honce least hleast))
      obtain rfl : order = least := Except.ok.inj hsame
      exact hleast
    · intro hcyclic
      obtain ⟨fuel, found, hfound⟩ := findCycle_returns steps
      rcases findCycle_sound hids hfound with ⟨cycle, rfl, hcycle⟩ | ⟨rfl, order, horder⟩
      · exact ⟨fuel, cycle, hfound, hcycle⟩
      · exact absurd (acyclic_of_order horder) hcyclic

/-- No step names a dependency twice. -/
theorem lastOnce_of_nodup (h : ∀ node ∈ ids steps, (edges steps node).Nodup) (order : List String) :
    LastOnce steps order := fun _ _ _ _ child hchild hnode _ =>
  List.count_eq_one_of_mem (h child hchild) hnode

/-- Two steps of which the second names the first twice. -/
def twice : List StepSpec :=
  [{ stepId := "a", inputFrom := [], dependsOn := [] }, { stepId := "b", inputFrom := [], dependsOn := ["a", "a"] }]

theorem submitted_twice : Submitted 50 twice := by
  refine ⟨by decide, by decide, by decide, ?_, ?_⟩
  · decide
  · decide

/-- The two steps, the first named once. -/
theorem dagValidated_pair :
    DagValidated 50 [{ stepId := "a", inputFrom := [], dependsOn := [] },
      { stepId := "b", inputFrom := [], dependsOn := ["a"] }] :=
  (dagValidated_iff ⟨by decide, by decide, by decide, by decide, by decide⟩).mpr fun _ _ =>
    lastOnce_of_nodup (by decide) _

/-- Named twice, they are refused for a cycle that they do not have. -/
theorem validateDag_twice :
    (∀ fuel order, validateDag fuel 50 twice ≠ some (.ok order)) ∧ Known twice ∧
      Acyclic (edges twice) (ids twice) := by
  have hrefused : topologicalOrder 50 twice = some (.error .unordered) := by decide
  have hsearched : findCycle 50 twice = some none := by decide
  refine ⟨fun fuel order hreturn => ?_, by unfold Known; decide, ?_⟩
  · have hsame := loop_unique (validateDag_eq_ok submitted_twice hreturn).2.2 hrefused
    cases hsame
  · exact (findCycle_none_iff submitted_twice.distinct hsearched).mp rfl

end SwarmCloud.Workflows
