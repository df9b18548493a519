import Mathlib.Data.List.Lex
import Mathlib.Data.List.Permutation
import Mathlib.Data.Set.Finite.Lemmas
import Mathlib.Logic.Relation
import Mathlib.Order.Bounds.Basic

/-! # Topological orders

Each node of a list names the nodes it depends on. An order of the nodes is
topological when every node comes after its dependencies. Of all those the one
that takes at each place the least node it can is the least, by the places of the
nodes in the given list.
-/

namespace SwarmCloud.Lib

universe u

variable {α : Type u} {deps : α → List α} {nodes l l' : List α} {a b : α}

/-- Every node of the list comes after its dependencies. -/
def Ordered (deps : α → List α) (l : List α) : Prop :=
  ∀ before a after, l = before ++ a :: after → ∀ b ∈ deps a, b ∈ before

theorem Ordered.nil : Ordered deps [] := by
  intro before a after h
  exact absurd h.symm (List.append_ne_nil_of_right_ne_nil before (List.cons_ne_nil a after))

theorem ordered_append_singleton : Ordered deps (l ++ [a]) ↔ Ordered deps l ∧ ∀ b ∈ deps a, b ∈ l := by
  constructor
  · intro h
    refine ⟨fun before b after hl => ?_, h l a [] rfl⟩
    refine h before b (after ++ [a]) ?_
    rw [hl, List.append_assoc, List.cons_append]
  · rintro ⟨hl, ha⟩ before b after heq
    rcases List.eq_nil_or_concat after with rfl | ⟨after, c, rfl⟩
    · obtain ⟨rfl, hb⟩ := List.append_inj' heq rfl
      cases hb
      exact ha
    · rw [List.concat_eq_append, ← List.cons_append, ← List.append_assoc] at heq
      obtain ⟨rfl, -⟩ := List.append_inj' heq rfl
      exact hl before b after rfl

/-- An order that goes on after what is done, the last of it first. -/
def OrderedAfter (deps : α → List α) : List α → List α → Prop
  | _, [] => True
  | done, a :: l => (∀ b ∈ deps a, b ∈ done) ∧ OrderedAfter deps (a :: done) l

theorem OrderedAfter.mono {done done' : List α} (hsub : ∀ a ∈ done, a ∈ done') (h : OrderedAfter deps done l) :
    OrderedAfter deps done' l := by
  induction l generalizing done done' with
  | nil => trivial
  | cons a l ih =>
    refine ⟨fun b hb => hsub b (h.1 b hb), ih (fun b hb => ?_) h.2⟩
    rcases List.mem_cons.mp hb with rfl | hb
    · exact List.mem_cons_self
    · exact List.mem_cons_of_mem a (hsub b hb)

theorem orderedAfter_append {done : List α} :
    OrderedAfter deps done (l ++ l') ↔ OrderedAfter deps done l ∧ OrderedAfter deps (l.reverse ++ done) l' := by
  induction l generalizing done with
  | nil => exact ⟨fun h => ⟨trivial, h⟩, fun h => h.2⟩
  | cons a l ih =>
    rw [List.cons_append, OrderedAfter, OrderedAfter, ih, and_assoc, List.reverse_cons, List.append_assoc]
    rfl

theorem ordered_reverse_append {done : List α} :
    Ordered deps (done.reverse ++ l) ↔ Ordered deps done.reverse ∧ OrderedAfter deps done l := by
  induction l generalizing done with
  | nil => rw [List.append_nil, OrderedAfter, and_true]
  | cons a l ih =>
    have hnext : done.reverse ++ a :: l = (a :: done).reverse ++ l := by
      rw [List.reverse_cons, List.append_assoc, List.singleton_append]
    rw [hnext, ih, List.reverse_cons, ordered_append_singleton, OrderedAfter, and_assoc]
    refine and_congr_right fun _ => and_congr_left fun _ => ?_
    exact forall₂_congr fun b _ => List.mem_reverse

theorem ordered_append {done : List α} :
    Ordered deps (done ++ l) ↔ Ordered deps done ∧ OrderedAfter deps done.reverse l := by
  conv_lhs => rw [← List.reverse_reverse done]
  rw [ordered_reverse_append, List.reverse_reverse]

/-- A node whose dependencies are done may be taken at once. -/
theorem Ordered.take_early {before mid after : List α} (h : Ordered deps (before ++ (mid ++ b :: after)))
    (hb : ∀ c ∈ deps b, c ∈ before) : Ordered deps (before ++ b :: (mid ++ after)) := by
  obtain ⟨hbefore, hrest⟩ := ordered_append.mp h
  obtain ⟨hmid, -, hafter⟩ := orderedAfter_append.mp hrest
  refine ordered_append.mpr ⟨hbefore, fun c hc => List.mem_reverse.mpr (hb c hc), ?_⟩
  refine orderedAfter_append.mpr ⟨hmid.mono fun c hc => List.mem_cons_of_mem b hc, hafter.mono fun c hc => ?_⟩
  simp only [List.mem_cons, List.mem_append, List.mem_reverse] at hc ⊢
  tauto

structure TopologicalOrder (deps : α → List α) (nodes l : List α) : Prop where
  perm : l.Perm nodes
  ordered : Ordered deps l

/-! ## Cycles -/

variable [DecidableEq α]

/-- One of the nodes depends on another. -/
def DependsOn (deps : α → List α) (nodes : List α) (a b : α) : Prop := a ∈ nodes ∧ b ∈ nodes ∧ b ∈ deps a

def Acyclic (deps : α → List α) (nodes : List α) : Prop := ∀ a, ¬ Relation.TransGen (DependsOn deps nodes) a a

theorem idxOf_lt_of_ordered (h : Ordered deps l) (ha : a ∈ l) (hb : b ∈ deps a) : l.idxOf b < l.idxOf a := by
  obtain ⟨before, after, rfl, hnot⟩ := List.eq_append_cons_of_mem ha
  rw [List.idxOf_append_of_mem (h before a after rfl b hb), List.idxOf_append_of_notMem hnot, List.idxOf_cons_self,
    Nat.add_zero]
  exact List.idxOf_lt_length_of_mem (h before a after rfl b hb)

/-- Nodes in an order have no cycle. -/
theorem acyclic_of_ordered (h : Ordered (fun a => (deps a).filter (· ∈ nodes)) l) (hall : ∀ a ∈ nodes, a ∈ l) :
    Acyclic deps nodes := by
  have hdown : ∀ a b, Relation.TransGen (DependsOn deps nodes) a b → l.idxOf b < l.idxOf a := by
    intro a b hab
    induction hab with
    | single hab =>
      exact idxOf_lt_of_ordered h (hall _ hab.1) (List.mem_filter.mpr ⟨hab.2.2, decide_eq_true hab.2.1⟩)
    | tail _ hbc ih =>
      exact lt_trans (idxOf_lt_of_ordered h (hall _ hbc.1)
        (List.mem_filter.mpr ⟨hbc.2.2, decide_eq_true hbc.2.1⟩)) ih
  exact fun a ha => absurd (hdown a a ha) (lt_irrefl _)

/-! ## The least order -/

/-- One list of numbers is the other or before it in lexicographic order. -/
def LexLe (keys keys' : List Nat) : Prop := keys = keys' ∨ List.Lex (· < ·) keys keys'

theorem lexLe_cons {key key' : Nat} {keys keys' : List Nat} :
    LexLe (key :: keys) (key' :: keys') ↔ key < key' ∨ key = key' ∧ LexLe keys keys' := by
  constructor
  · rintro (heq | hlex)
    · obtain ⟨rfl, rfl⟩ := List.cons.inj heq
      exact .inr ⟨rfl, .inl rfl⟩
    · cases hlex with
      | rel hlt => exact .inl hlt
      | cons hlex => exact .inr ⟨rfl, .inr hlex⟩
  · rintro (hlt | ⟨rfl, rfl | hlex⟩)
    · exact .inr (.rel hlt)
    · exact .inl rfl
    · exact .inr (.cons hlex)

theorem lexLe_append (keys : List Nat) {keys₁ keys₂ : List Nat} :
    LexLe (keys ++ keys₁) (keys ++ keys₂) ↔ LexLe keys₁ keys₂ := by
  induction keys with
  | nil => rfl
  | cons key keys ih =>
    rw [List.cons_append, List.cons_append, lexLe_cons, ih]
    exact ⟨fun h => (h.resolve_left (lt_irrefl key)).2, fun h => .inr ⟨rfl, h⟩⟩

/-- The least topological order, by the places of the nodes in the given list. -/
structure LeastOrder (deps : α → List α) (nodes l : List α) : Prop extends TopologicalOrder deps nodes l where
  least : ∀ l', TopologicalOrder deps nodes l' → LexLe (l.map nodes.idxOf) (l'.map nodes.idxOf)

/-- At every place stands the first of the nodes whose dependencies are before it. -/
def Greedy (deps : α → List α) (nodes l : List α) : Prop :=
  ∀ before a after, l = before ++ a :: after → ∀ b ∈ nodes, b ∉ before → (∀ c ∈ deps b, c ∈ before) →
    nodes.idxOf a ≤ nodes.idxOf b

theorem idxOf_injOn (ha : a ∈ nodes) (h : nodes.idxOf a = nodes.idxOf b) : a = b := (List.idxOf_inj ha).mp h

theorem LeastOrder.greedy (h : LeastOrder deps nodes l) : Greedy deps nodes l := by
  rintro before a after rfl b hb hnot hdeps
  have hmem := h.perm.mem_iff.mpr hb
  rcases List.mem_append.mp hmem with hbefore | hmem
  · exact absurd hbefore hnot
  rcases List.mem_cons.mp hmem with rfl | hafter
  · exact le_refl _
  obtain ⟨mid, rest, rfl⟩ := List.append_of_mem hafter
  have hearly : TopologicalOrder deps nodes (before ++ b :: ((a :: mid) ++ rest)) := by
    refine ⟨List.Perm.trans ?_ h.perm, Ordered.take_early h.ordered hdeps⟩
    have hmiddle : (b :: ((a :: mid) ++ rest)).Perm ((a :: mid) ++ b :: rest) := List.perm_middle.symm
    exact hmiddle.append_left before
  have hle := h.least _ hearly
  rw [List.map_append, List.map_append, lexLe_append, List.map_cons, List.map_cons, lexLe_cons] at hle
  rcases hle with hlt | ⟨heq, -⟩
  · exact le_of_lt hlt
  · exact le_of_eq heq

/-- Where there is a topological order there is a least one. -/
theorem exists_leastOrder (h : ∃ l, TopologicalOrder deps nodes l) : ∃ l, LeastOrder deps nodes l := by
  have hfinite : {l | TopologicalOrder deps nodes l}.Finite := by
    refine (List.finite_toSet nodes.permutations).subset fun l hl => ?_
    exact List.mem_permutations.mpr hl.perm
  obtain ⟨l, hl, hleast⟩ := Set.exists_min_image _ (fun l => l.map nodes.idxOf) hfinite h
  refine ⟨l, hl, fun l' hl' => ?_⟩
  rcases eq_or_lt_of_le (hleast l' hl') with heq | hlt
  · exact .inl heq
  · exact .inr hlt

end SwarmCloud.Lib
