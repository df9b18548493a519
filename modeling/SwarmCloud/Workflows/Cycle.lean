import Mathlib.Data.List.Chain
import SwarmCloud.Lib.Topological
import SwarmCloud.Workflows.Dag

/-! # The search for a cycle

The stack of `find_cycle` is a path of dependencies, and the nodes it has finished
are in an order in which each comes after its dependencies. So an edge back into
the path closes a cycle, and a search that ends without one leaves an order of all
the steps.
-/

namespace SwarmCloud.Workflows

open Lib

variable {steps : List StepSpec}

/-- A step names another step of the workflow. -/
abbrev Edge (steps : List StepSpec) : String → String → Prop := DependsOn (edges steps) (ids steps)

/-- Its first node is its last, and each names the one after it. -/
structure IsCycle (steps : List StepSpec) (cycle : List String) : Prop where
  length : 1 < cycle.length
  closed : cycle.head? = cycle.getLast?
  chain : cycle.IsChain (Edge steps)

theorem transGen_of_isChain {α : Type} {r : α → α → Prop} {a b : α} {l : List α} (h : (a :: l ++ [b]).IsChain r) :
    Relation.TransGen r a b := by
  induction l generalizing a with
  | nil => exact .single (List.isChain_cons_cons.mp h).1
  | cons c l ih =>
    obtain ⟨hac, hrest⟩ := List.isChain_cons_cons.mp h
    exact .head hac (ih hrest)

theorem IsCycle.not_acyclic {cycle : List String} (h : IsCycle steps cycle) : ¬ Acyclic (edges steps) (ids steps) := by
  obtain ⟨a, rest, rfl⟩ := List.exists_cons_of_length_pos (lt_trans Nat.zero_lt_one h.length)
  rcases List.eq_nil_or_concat rest with rfl | ⟨rest, b, rfl⟩
  · exact absurd h.length (lt_irrefl 1)
  · have hclosed := h.closed
    rw [List.concat_eq_append, ← List.cons_append, List.getLast?_append_cons, List.cons_append, List.head?_cons] at hclosed
    have hchain := h.chain
    rw [List.concat_eq_append, ← List.cons_append] at hchain
    have hcycle := transGen_of_isChain hchain
    obtain rfl : a = b := Option.some.inj hclosed
    exact fun hacyclic => hacyclic a hcycle

/-- The edges of a frame that the search has left are to finished nodes or to the frame above. -/
def Explored (steps : List StepSpec) (done : List String) : Option String → List (String × Nat) → Prop
  | _, [] => True
  | above, (node, index) :: below =>
    (∀ dep ∈ (edges steps node).take index, dep ∈ ids steps → dep ∈ done ∨ above = some dep) ∧
      Explored steps done (some node) below

theorem Explored.mono {done done' : List String} (hsub : ∀ node ∈ done, node ∈ done') {above : Option String}
    {stack : List (String × Nat)} (h : Explored steps done above stack) : Explored steps done' above stack := by
  induction stack generalizing above with
  | nil => trivial
  | cons frame below ih => exact ⟨fun dep hdep hknown => (h.1 dep hdep hknown).imp_left (hsub dep), ih h.2⟩

/-- The node above is finished. -/
theorem Explored.finish {done : List String} {node : String} {stack : List (String × Nat)}
    (h : Explored steps done (some node) stack) : Explored steps (done ++ [node]) none stack := by
  cases stack with
  | nil => trivial
  | cons frame below =>
    refine ⟨fun dep hdep hknown => .inl ?_, Explored.mono (fun node hnode => List.mem_append_left _ hnode) h.2⟩
    rcases h.1 dep hdep hknown with hdone | habove
    · exact List.mem_append_left _ hdone
    · rw [Option.some.inj habove]
      exact List.mem_append_right done (List.mem_singleton_self dep)

/-- The edges of a node that lead to steps of the workflow. -/
def knownEdges (steps : List StepSpec) (node : String) : List String := (edges steps node).filter (· ∈ ids steps)

/-- What the search keeps, with the nodes it has finished in order. -/
structure Searching (steps : List StepSpec) (search : Search) (done : List String) : Prop where
  path : search.path = (search.stack.map Prod.fst).reverse
  grey : ∀ node, search.colour node = .grey ↔ node ∈ search.stack.map Prod.fst
  black : ∀ node, search.colour node = .black ↔ node ∈ done
  nodup : (search.stack.map Prod.fst).Nodup
  known : ∀ node ∈ search.stack.map Prod.fst, node ∈ ids steps
  roots : ∀ root ∈ search.roots, root ∈ ids steps
  visited : ∀ node ∈ ids steps, node ∈ search.roots ∨ search.colour node ≠ .white
  ordered : Ordered (knownEdges steps) done
  once : done.Nodup
  within : ∀ node ∈ done, node ∈ ids steps
  chain : search.path.IsChain (Edge steps)
  explored : Explored steps done none search.stack

theorem Searching.start (steps : List StepSpec) : Searching steps (.start steps) [] where
  path := rfl
  grey _ := ⟨nofun, nofun⟩
  black _ := ⟨nofun, nofun⟩
  nodup := List.nodup_nil
  known := nofun
  roots _ hroot := hroot
  visited _ hnode := .inl hnode
  ordered := .nil
  once := List.nodup_nil
  within := nofun
  chain := .nil
  explored := trivial

namespace Searching

variable {roots path : List String} {stack below : List (String × Nat)} {colour : String → Colour}
  {done : List String} {root node next : String} {index : Nat}

/-- A root that a search before it has coloured. -/
theorem skip (h : Searching steps ⟨root :: roots, [], path, colour⟩ done) (hcolour : colour root ≠ .white) :
    Searching steps ⟨roots, [], path, colour⟩ done where
  path := h.path
  grey := h.grey
  black := h.black
  nodup := h.nodup
  known := h.known
  roots other hother := h.roots other (List.mem_cons_of_mem root hother)
  visited node hnode := by
    rcases h.visited node hnode with hroot | hvisited
    · rcases List.mem_cons.mp hroot with rfl | hroot
      · exact .inr hcolour
      · exact .inl hroot
    · exact .inr hvisited
  ordered := h.ordered
  once := h.once
  within := h.within
  chain := h.chain
  explored := h.explored

theorem grey_push (h : Searching steps ⟨roots, stack, path, colour⟩ done) (node : String) (index : Nat) (other : String) :
    Function.update colour node .grey other = .grey ↔ other ∈ ((node, index) :: stack).map Prod.fst := by
  rw [List.map_cons, List.mem_cons, Function.update_apply]
  split
  · rename_i hother
    exact iff_of_true rfl (.inl hother)
  · rename_i hother
    exact (h.grey other).trans (or_iff_right hother).symm

theorem black_push (h : Searching steps ⟨roots, stack, path, colour⟩ done) (hwhite : colour node = .white)
    (other : String) : Function.update colour node .grey other = .black ↔ other ∈ done := by
  rw [Function.update_apply]
  split
  · rename_i hother
    refine iff_of_false nofun fun hdone => ?_
    rw [hother, ← h.black] at hdone
    exact Colour.noConfusion (hwhite.symm.trans hdone)
  · exact h.black other

theorem visited_push (hvisited : ∀ node ∈ ids steps, node ∈ roots ∨ colour node ≠ .white) (node : String) :
    ∀ other ∈ ids steps, other ∈ roots ∨ Function.update colour node .grey other ≠ .white := by
  intro other hother
  rw [Function.update_apply]
  split
  · exact .inr nofun
  · exact hvisited other hother

/-- A white root starts a path. -/
theorem begin (h : Searching steps ⟨root :: roots, [], path, colour⟩ done) (hwhite : colour root = .white) :
    Searching steps ⟨roots, [(root, 0)], [root], Function.update colour root .grey⟩ done where
  path := rfl
  grey := h.grey_push root 0
  black := h.black_push hwhite
  nodup := List.nodup_singleton root
  known node hnode := by
    rw [List.mem_singleton.mp hnode]
    exact h.roots root List.mem_cons_self
  roots other hother := h.roots other (List.mem_cons_of_mem root hother)
  visited node hnode := by
    dsimp only
    rw [Function.update_apply]
    split
    · exact .inr nofun
    · rename_i hne
      rcases h.visited node hnode with hroot | hvisited
      · exact .inl ((List.mem_cons.mp hroot).resolve_left hne)
      · exact .inr hvisited
  ordered := h.ordered
  once := h.once
  within := h.within
  chain := List.isChain_singleton root
  explored := ⟨nofun, trivial⟩

/-- All edges of a node lead to finished nodes: it is finished. -/
theorem finish (h : Searching steps ⟨roots, (node, index) :: below, path, colour⟩ done)
    (hend : (edges steps node)[index]? = none) :
    Searching steps ⟨roots, below, path.dropLast, Function.update colour node .black⟩ (done ++ [node]) where
  path := by
    rw [show path = _ from h.path, List.map_cons, List.reverse_cons, List.dropLast_concat]
  grey other := by
    dsimp only
    rw [Function.update_apply]
    split
    · rename_i hother
      rw [hother]
      exact iff_of_false nofun (List.nodup_cons.mp h.nodup).1
    · rename_i hother
      rw [h.grey other, List.map_cons, List.mem_cons]
      exact or_iff_right hother
  black other := by
    dsimp only
    rw [Function.update_apply, List.mem_append, List.mem_singleton]
    split
    · rename_i hother
      exact iff_of_true rfl (.inr hother)
    · rename_i hother
      rw [h.black other]
      exact (or_iff_left hother).symm
  nodup := (List.nodup_cons.mp h.nodup).2
  known other hother := h.known other (List.mem_cons_of_mem node hother)
  roots := h.roots
  visited other hother := by
    dsimp only
    rw [Function.update_apply]
    split
    · exact .inr nofun
    · exact h.visited other hother
  ordered := by
    refine ordered_append_singleton.mpr ⟨h.ordered, fun dep hdep => ?_⟩
    obtain ⟨hmem, hknown⟩ := List.mem_filter.mp hdep
    have hall : (edges steps node).take index = edges steps node :=
      List.take_of_length_le (List.getElem?_eq_none_iff.mp hend)
    rcases h.explored.1 dep (by rwa [hall]) (of_decide_eq_true hknown) with hdone | habove
    · exact hdone
    · cases habove
  once := by
    refine List.nodup_append.mpr ⟨h.once, List.nodup_singleton node, ?_⟩
    rintro other hother same hsame rfl
    have hgrey := (h.grey node).mpr List.mem_cons_self
    rw [List.mem_singleton.mp hsame, ← h.black] at hother
    exact Colour.noConfusion (hother.symm.trans hgrey)
  within other hother := by
    rcases List.mem_append.mp hother with hother | hother
    · exact h.within other hother
    · rw [List.mem_singleton.mp hother]
      exact h.known node List.mem_cons_self
  chain := h.chain.dropLast
  explored := h.explored.2.finish

theorem mem_take_succ (hnext : (edges steps node)[index]? = some next) {dep : String}
    (hdep : dep ∈ (edges steps node).take (index + 1)) : dep ∈ (edges steps node).take index ∨ dep = next := by
  rw [List.take_add_one, hnext, Option.toList_some, List.mem_append, List.mem_singleton] at hdep
  exact hdep

/-- An edge out of the workflow, or to a finished node. -/
theorem advance (h : Searching steps ⟨roots, (node, index) :: below, path, colour⟩ done)
    (hnext : (edges steps node)[index]? = some next) (hdone : next ∈ ids steps → next ∈ done) :
    Searching steps ⟨roots, (node, index + 1) :: below, path, colour⟩ done where
  path := h.path
  grey := h.grey
  black := h.black
  nodup := h.nodup
  known := h.known
  roots := h.roots
  visited := h.visited
  ordered := h.ordered
  once := h.once
  within := h.within
  chain := h.chain
  explored := by
    refine ⟨fun dep hdep hknown => ?_, h.explored.2⟩
    rcases mem_take_succ hnext hdep with hdep | rfl
    · exact h.explored.1 dep hdep hknown
    · exact .inl (hdone hknown)

theorem edge_next (h : Searching steps ⟨roots, (node, index) :: below, path, colour⟩ done)
    (hnext : (edges steps node)[index]? = some next) (hknown : next ∈ ids steps) : Edge steps node next :=
  ⟨h.known node List.mem_cons_self, hknown, List.mem_of_getElem? hnext⟩

theorem chain_append (h : Searching steps ⟨roots, (node, index) :: below, path, colour⟩ done)
    (hnext : (edges steps node)[index]? = some next) (hknown : next ∈ ids steps) :
    (path ++ [next]).IsChain (Edge steps) := by
  refine List.isChain_append.mpr ⟨h.chain, List.isChain_singleton next, ?_⟩
  intro last hlast first hfirst
  rw [show path = _ from h.path, List.map_cons, List.reverse_cons, List.getLast?_concat] at hlast
  cases hlast
  cases hfirst
  exact h.edge_next hnext hknown

/-- An edge to a white node: the path goes on. -/
theorem push (h : Searching steps ⟨roots, (node, index) :: below, path, colour⟩ done)
    (hnext : (edges steps node)[index]? = some next) (hknown : next ∈ ids steps) (hwhite : colour next = .white) :
    Searching steps ⟨roots, (next, 0) :: (node, index + 1) :: below, path ++ [next],
      Function.update colour next .grey⟩ done where
  path := by
    have hpath : path = (((node, index) :: below).map Prod.fst).reverse := h.path
    change path ++ [next] = (next :: ((node, index) :: below).map Prod.fst).reverse
    rw [List.reverse_cons, ← hpath]
  grey := h.grey_push next 0
  black := h.black_push hwhite
  nodup := by
    refine List.nodup_cons.mpr ⟨fun hgrey => ?_, h.nodup⟩
    exact Colour.noConfusion (hwhite.symm.trans ((h.grey next).mpr hgrey))
  known other hother := by
    rcases List.mem_cons.mp hother with rfl | hother
    · exact hknown
    · exact h.known other hother
  roots := h.roots
  visited := visited_push h.visited next
  ordered := h.ordered
  once := h.once
  within := h.within
  chain := h.chain_append hnext hknown
  explored := by
    refine ⟨nofun, fun dep hdep hknown => ?_, h.explored.2⟩
    rcases mem_take_succ hnext hdep with hdep | rfl
    · rcases h.explored.1 dep hdep hknown with hdone | habove
      · exact .inl hdone
      · cases habove
    · exact .inr rfl

/-- An edge to a grey node closes a cycle. -/
theorem isCycle (h : Searching steps ⟨roots, (node, index) :: below, path, colour⟩ done)
    (hnext : (edges steps node)[index]? = some next) (hknown : next ∈ ids steps) (hgrey : colour next = .grey) :
    IsCycle steps (path.drop (path.idxOf next) ++ [next]) := by
  have hmem : next ∈ path := by
    rw [show path = _ from h.path]
    exact List.mem_reverse.mpr ((h.grey next).mp hgrey)
  have hlt := List.idxOf_lt_length_of_mem hmem
  have hdrop : path.drop (path.idxOf next) = next :: path.drop (path.idxOf next + 1) := by
    rw [List.drop_eq_getElem_cons hlt, List.getElem_idxOf]
  refine ⟨?_, ?_, ?_⟩
  · rw [hdrop, List.length_append, List.length_cons, List.length_singleton]
    omega
  · rw [hdrop, List.cons_append, List.head?_cons, ← List.cons_append, List.getLast?_concat]
  · rw [← List.drop_append_of_le_length (le_of_lt hlt)]
    exact (h.chain_append hnext hknown).drop _

/-- A search that is over has an order of all the steps. -/
theorem finished (h : Searching steps ⟨[], [], path, colour⟩ done) (hids : (ids steps).Nodup) :
    TopologicalOrder (knownEdges steps) (ids steps) done := by
  refine ⟨(List.perm_ext_iff_of_nodup h.once hids).mpr fun node => ⟨h.within node, fun hnode => ?_⟩, h.ordered⟩
  rcases h.visited node hnode with hroot | hvisited
  · cases hroot
  · rw [← h.black]
    dsimp only at hvisited ⊢
    cases hcolour : colour node with
    | white => exact absurd hcolour hvisited
    | grey => exact absurd ((h.grey node).mp hcolour) List.not_mem_nil
    | black => rfl

end Searching

/-- What a node that is still white weighs. -/
def whiteWeight (steps : List StepSpec) (colour : String → Colour) (node : String) : Nat :=
  if colour node = .white then (edges steps node).length + 2 else 0

/-- What is left to do: the roots, the white nodes with their edges, and the edges of the frames. -/
def searchMeasure (steps : List StepSpec) (search : Search) : Nat :=
  search.roots.length + ((ids steps).map (whiteWeight steps search.colour)).sum +
    (search.stack.map fun frame => (edges steps frame.1).length - frame.2 + 1).sum

theorem sum_map_le {f g : String → Nat} (hle : ∀ node, f node ≤ g node) (nodes : List String) :
    (nodes.map f).sum ≤ (nodes.map g).sum := by
  induction nodes with
  | nil => exact le_refl 0
  | cons node nodes ih =>
    have := hle node
    rw [List.map_cons, List.map_cons, List.sum_cons, List.sum_cons]
    omega

theorem sum_map_add_le {f g : String → Nat} {node : String} {weight : Nat} (hle : ∀ node, f node ≤ g node)
    (hnode : f node + weight ≤ g node) {nodes : List String} (hmem : node ∈ nodes) :
    (nodes.map f).sum + weight ≤ (nodes.map g).sum := by
  obtain ⟨before, after, rfl⟩ := List.append_of_mem hmem
  have hbefore := sum_map_le hle before
  have hafter := sum_map_le hle after
  rw [List.map_append, List.map_append, List.map_cons, List.map_cons, List.sum_append, List.sum_append, List.sum_cons,
    List.sum_cons]
  omega

theorem whiteWeight_update_le (colour : String → Colour) (node : String) {mark : Colour} (hmark : mark ≠ .white)
    (other : String) : whiteWeight steps (Function.update colour node mark) other ≤ whiteWeight steps colour other := by
  unfold whiteWeight
  rw [Function.update_apply]
  split
  · exact Nat.zero_le _
  · exact le_refl _

theorem white_sum_push {colour : String → Colour} {node : String} (hwhite : colour node = .white)
    (hknown : node ∈ ids steps) :
    ((ids steps).map (whiteWeight steps (Function.update colour node .grey))).sum + ((edges steps node).length + 2) ≤
      ((ids steps).map (whiteWeight steps colour)).sum := by
  refine sum_map_add_le (whiteWeight_update_le colour node (show Colour.grey ≠ .white from nofun)) ?_ hknown
  unfold whiteWeight
  rw [Function.update_self, if_neg nofun, if_pos hwhite, Nat.zero_add]

/-- A turn that goes on keeps what the search keeps, and leaves less to do. -/
theorem Searching.turn {search search' : Search} {done : List String} (h : Searching steps search done)
    (hturn : searchTurn steps search = .inl search') :
    (∃ done', Searching steps search' done') ∧ searchMeasure steps search' < searchMeasure steps search := by
  obtain ⟨roots, stack, path, colour⟩ := search
  unfold searchTurn at hturn
  dsimp only at hturn
  split at hturn
  · split at hturn
    · cases hturn
    · rename_i root roots
      split at hturn
      · rename_i hcolour
        obtain rfl := Sum.inl.inj hturn
        refine ⟨⟨done, h.skip hcolour⟩, ?_⟩
        unfold searchMeasure
        dsimp only
        rw [List.length_cons]
        omega
      · rename_i hcolour
        obtain rfl := Sum.inl.inj hturn
        have hwhite := not_not.mp hcolour
        refine ⟨⟨done, h.begin hwhite⟩, ?_⟩
        have hsum := white_sum_push hwhite (h.roots root List.mem_cons_self)
        unfold searchMeasure
        change roots.length + ((ids steps).map (whiteWeight steps (Function.update colour root .grey))).sum +
            ((edges steps root).length - 0 + 1 + 0) <
          (root :: roots).length + ((ids steps).map (whiteWeight steps colour)).sum + 0
        rw [List.length_cons]
        omega
  · rename_i node index below
    split at hturn
    · rename_i hend
      obtain rfl := Sum.inl.inj hturn
      refine ⟨⟨done ++ [node], h.finish hend⟩, ?_⟩
      have hsum : ((ids steps).map (whiteWeight steps (Function.update colour node .black))).sum ≤
          ((ids steps).map (whiteWeight steps colour)).sum :=
        sum_map_le (whiteWeight_update_le colour node (show Colour.black ≠ .white from nofun)) (ids steps)
      unfold searchMeasure
      rw [List.map_cons, List.sum_cons]
      dsimp only
      omega
    · rename_i next hnext
      obtain ⟨hlt, -⟩ := List.getElem?_eq_some_iff.mp hnext
      have hframe : searchMeasure steps ⟨roots, (node, index + 1) :: below, path, colour⟩ <
          searchMeasure steps ⟨roots, (node, index) :: below, path, colour⟩ := by
        unfold searchMeasure
        dsimp only
        rw [List.map_cons, List.map_cons, List.sum_cons, List.sum_cons]
        dsimp only
        omega
      split at hturn
      · rename_i hunknown
        obtain rfl := Sum.inl.inj hturn
        exact ⟨⟨done, h.advance hnext fun hknown => absurd hknown hunknown⟩, hframe⟩
      · rename_i hknown
        have hknown := not_not.mp hknown
        split at hturn
        · cases hturn
        · rename_i hwhite
          obtain rfl := Sum.inl.inj hturn
          refine ⟨⟨done, h.push hnext hknown hwhite⟩, ?_⟩
          have hsum := white_sum_push hwhite hknown
          unfold searchMeasure
          rw [List.map_cons, List.sum_cons, List.map_cons, List.sum_cons, List.map_cons, List.sum_cons]
          dsimp only
          omega
        · rename_i hblack
          obtain rfl := Sum.inl.inj hturn
          exact ⟨⟨done, h.advance hnext fun _ => (h.black next).mp hblack⟩, hframe⟩

/-- A turn that returns closes a cycle, or leaves an order of all the steps. -/
theorem Searching.return {search : Search} {done : List String} (h : Searching steps search done)
    (hids : (ids steps).Nodup) {found : Option (List String)} (hturn : searchTurn steps search = .inr found) :
    (∃ cycle, found = some cycle ∧ IsCycle steps cycle) ∨
      (found = none ∧ ∃ order, TopologicalOrder (knownEdges steps) (ids steps) order) := by
  obtain ⟨roots, stack, path, colour⟩ := search
  unfold searchTurn at hturn
  dsimp only at hturn
  split at hturn
  · split at hturn
    · obtain rfl := Sum.inr.inj hturn
      exact .inr ⟨rfl, done, h.finished hids⟩
    · split at hturn
      · cases hturn
      · cases hturn
  · rename_i node index below
    split at hturn
    · cases hturn
    · rename_i next hnext
      split at hturn
      · cases hturn
      · rename_i hknown
        have hknown := not_not.mp hknown
        split at hturn
        · rename_i hgrey
          obtain rfl := Sum.inr.inj hturn
          exact .inl ⟨_, rfl, h.isCycle hnext hknown hgrey⟩
        · cases hturn
        · cases hturn

section Found

variable (hids : (ids steps).Nodup) {fuel : Nat} {found : Option (List String)}

include hids in
theorem findCycle_sound (h : findCycle fuel steps = some found) :
    (∃ cycle, found = some cycle ∧ IsCycle steps cycle) ∨
      (found = none ∧ ∃ order, TopologicalOrder (knownEdges steps) (ids steps) order) :=
  loop_invariant (I := fun search => ∃ done, Searching steps search done)
    (fun _ _ ⟨_, h⟩ hturn => (h.turn hturn).1) (fun _ _ ⟨_, h⟩ hturn => h.return hids hturn) ⟨[], .start steps⟩ h

/-- With enough fuel the search returns. -/
theorem findCycle_returns (steps : List StepSpec) : ∃ fuel found, findCycle fuel steps = some found := by
  obtain ⟨found, hfound⟩ := loop_returns (I := fun search => ∃ done, Searching steps search done) (searchMeasure steps)
    (fun _ _ ⟨_, h⟩ hturn => h.turn hturn) ⟨[], .start steps⟩
  exact ⟨_, found, hfound⟩

theorem acyclic_of_order {order : List String} (h : TopologicalOrder (knownEdges steps) (ids steps) order) :
    Acyclic (edges steps) (ids steps) := acyclic_of_ordered h.ordered fun _ hnode => h.perm.mem_iff.mpr hnode

include hids in
theorem findCycle_none_iff (h : findCycle fuel steps = some found) :
    found = none ↔ Acyclic (edges steps) (ids steps) := by
  rcases findCycle_sound hids h with ⟨cycle, rfl, hcycle⟩ | ⟨rfl, order, horder⟩
  · exact iff_of_false nofun hcycle.not_acyclic
  · exact iff_of_true rfl (acyclic_of_order horder)

include hids in
theorem exists_order_of_acyclic (h : Acyclic (edges steps) (ids steps)) :
    ∃ order, TopologicalOrder (knownEdges steps) (ids steps) order := by
  obtain ⟨fuel, found, hfound⟩ := findCycle_returns steps
  rcases findCycle_sound hids hfound with ⟨cycle, -, hcycle⟩ | ⟨-, horder⟩
  · exact absurd h hcycle.not_acyclic
  · exact horder

end Found

end SwarmCloud.Workflows
