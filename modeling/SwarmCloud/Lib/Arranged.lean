import Mathlib.Data.Fintype.Card
import Mathlib.Data.Set.Finite.Basic
import Mathlib.Logic.Relation
import Mathlib.Order.WellFounded

/-! # Lists arranged by what needs what

Items are taken from a list one at a time: the first that needs none of those left,
or the first of all where every one needs another. The items come out in an order
in which each stands behind those it needs, unless what is left needs itself in a
circle.
-/

namespace SwarmCloud.Lib

universe u

variable {α : Type u}

/-- The first item the test lets through, and the others. -/
def pick (p : α → Bool) : List α → Option (α × List α)
  | [] => none
  | a :: l => if p a then some (a, l) else (pick p l).map fun found => (found.1, a :: found.2)

theorem pick_eq_none {p : α → Bool} {l : List α} : pick p l = none ↔ ∀ a ∈ l, p a = false := by
  induction l with
  | nil => simp [pick]
  | cons a l ih =>
    rw [pick]
    split
    · rename_i ha
      simp [ha]
    · rename_i ha
      rw [Option.map_eq_none_iff, ih]
      simp [ha]

theorem pick_spec {p : α → Bool} {l rest : List α} {a : α} (h : pick p l = some (a, rest)) :
    p a = true ∧ ∃ before after, l = before ++ a :: after ∧ rest = before ++ after ∧ ∀ b ∈ before, p b = false := by
  induction l generalizing rest with
  | nil => cases h
  | cons b l ih =>
    rw [pick] at h
    split at h
    · rename_i hb
      obtain ⟨rfl, rfl⟩ := Prod.mk.inj (Option.some.inj h)
      exact ⟨hb, [], _, rfl, rfl, fun _ h => absurd h List.not_mem_nil⟩
    · rename_i hb
      obtain ⟨⟨a', rest'⟩, hfound, heq⟩ := Option.map_eq_some_iff.mp h
      obtain ⟨rfl, rfl⟩ := Prod.mk.inj heq
      obtain ⟨hp, before, after, rfl, rfl, hbefore⟩ := ih hfound
      refine ⟨hp, b :: before, after, rfl, rfl, fun c hc => ?_⟩
      obtain rfl | hc := List.mem_cons.mp hc
      · simpa using hb
      · exact hbefore c hc

variable (needs : α → α → Bool)

/-- The next item of those left, and what is left then. -/
def takeNext (a : α) (l : List α) : α × List α :=
  (pick (fun c => !(a :: l).any (needs c)) (a :: l)).getD (a, l)

/-- What is taken needs nothing that is left and what stood in front of it does, or everything left needs something left. -/
theorem takeNext_spec (a : α) (l : List α) :
    (∃ before after, a :: l = before ++ (takeNext needs a l).1 :: after ∧ (takeNext needs a l).2 = before ++ after ∧
        (∀ b ∈ a :: l, needs (takeNext needs a l).1 b = false) ∧
        ∀ c ∈ before, ∃ d ∈ a :: l, needs c d = true) ∨
      takeNext needs a l = (a, l) ∧ ∀ c ∈ a :: l, ∃ d ∈ a :: l, needs c d = true := by
  have hneeds : ∀ c, (!(a :: l).any (needs c)) = false → ∃ d ∈ a :: l, needs c d = true := by
    intro c hc
    rwa [Bool.not_eq_false', List.any_eq_true] at hc
  unfold takeNext
  cases hpick : pick (fun c => !(a :: l).any (needs c)) (a :: l) with
  | none => exact .inr ⟨rfl, fun c hc => hneeds c (pick_eq_none.mp hpick c hc)⟩
  | some found =>
    obtain ⟨hfree, before, after, hl, hrest, hbefore⟩ := pick_spec hpick
    rw [Bool.not_eq_true', List.any_eq_false] at hfree
    exact .inl ⟨before, after, hl, hrest, fun b hb => Bool.eq_false_iff.mpr (hfree b hb),
      fun c hc => hneeds c (hbefore c hc)⟩

theorem takeNext_perm (a : α) (l : List α) : ((takeNext needs a l).1 :: (takeNext needs a l).2).Perm (a :: l) := by
  obtain ⟨before, after, hl, hrest, -⟩ | ⟨heq, -⟩ := takeNext_spec needs a l
  · rw [hl, hrest]
    exact List.perm_middle.symm
  · rw [heq]

theorem takeNext_sublist (a : α) (l : List α) : (takeNext needs a l).2.Sublist (a :: l) := by
  obtain ⟨before, after, hl, hrest, -⟩ | ⟨heq, -⟩ := takeNext_spec needs a l
  · rw [hl, hrest]
    exact (List.Sublist.refl before).append (List.sublist_cons_self _ after)
  · rw [heq]
    exact List.sublist_cons_self a l

def arranged : List α → List α
  | [] => []
  | a :: l => (takeNext needs a l).1 :: arranged (takeNext needs a l).2
termination_by l => l.length
decreasing_by
  have hlength := (takeNext_perm needs a l).length_eq
  simp only [List.length_cons] at hlength ⊢
  omega

variable {needs}

theorem arranged_perm (l : List α) : (arranged needs l).Perm l := by
  induction l using arranged.induct needs with
  | case1 => rw [arranged]
  | case2 a l ih =>
    rw [arranged]
    exact (ih.cons _).trans (takeNext_perm needs a l)

/-- What comes out next, of what is left: an item in front of one it needs, or of one that stood in front of it, is there
because everything left, or that one, needs something left. -/
theorem arranged_next {r : α → α → Prop} (hr : ∀ a b, r a b → ¬r b a) {l before after : List α} {a : α}
    (hl : l.Pairwise r) (h : arranged needs l = before ++ a :: after) :
    (∀ b ∈ a :: after, needs a b = true → ∀ c ∈ a :: after, ∃ d ∈ a :: after, needs c d = true) ∧
      ∀ c ∈ after, r c a → ∃ d ∈ a :: after, needs c d = true := by
  induction l using arranged.induct needs generalizing before with
  | case1 =>
    rw [arranged] at h
    exact absurd h.symm (List.append_ne_nil_of_right_ne_nil _ (List.cons_ne_nil _ _))
  | case2 first l ih =>
    have hperm : (arranged needs (first :: l)).Perm (first :: l) := arranged_perm _
    rw [h] at hperm
    rw [arranged] at h
    cases before with
    | cons before₁ before =>
      obtain ⟨rfl, hrest⟩ := List.cons.inj h
      exact ih (hl.sublist (takeNext_sublist needs first l)) hrest
    | nil =>
      obtain ⟨rfl, rfl⟩ := List.cons.inj h
      have hback : ∀ c, (∃ d ∈ first :: l, needs c d = true) →
          ∃ d ∈ (takeNext needs first l).1 :: arranged needs (takeNext needs first l).2, needs c d = true := by
        rintro c ⟨d, hd, hcd⟩
        exact ⟨d, hperm.mem_iff.mpr hd, hcd⟩
      obtain ⟨before, after, hleft, hrest, hfree, hbefore⟩ | ⟨-, hall⟩ := takeNext_spec needs first l
      · constructor
        · intro b hb hneeds
          rw [hfree b (hperm.mem_iff.mp hb)] at hneeds
          cases hneeds
        · intro c hc hca
          have hmem : c ∈ (takeNext needs first l).2 := (arranged_perm _).mem_iff.mp hc
          rw [hrest, List.mem_append] at hmem
          obtain hmem | hmem := hmem
          · exact hback c (hbefore c hmem)
          · rw [hleft, List.pairwise_append, List.pairwise_cons] at hl
            exact absurd hca (hr _ _ (hl.2.1.1 c hmem))
      · exact ⟨fun _ _ _ c hc => hback c (hall c (hperm.mem_iff.mp hc)), fun c hc _ =>
          hback c (hall c (hperm.mem_iff.mp (List.mem_cons_of_mem _ hc)))⟩

/-- Where everything needs something, something needs itself in the end. -/
theorem exists_circle {l : List α} (hne : l ≠ []) (h : ∀ c ∈ l, ∃ d ∈ l, needs c d = true) :
    ∃ c ∈ l, Relation.TransGen (fun a b => a ∈ l ∧ b ∈ l ∧ needs a b = true) c c := by
  by_contra hnone
  push Not at hnone
  let R : {a // a ∈ l} → {a // a ∈ l} → Prop :=
    fun b a => Relation.TransGen (fun a b => a ∈ l ∧ b ∈ l ∧ needs a b = true) a.1 b.1
  have htrans : IsTrans {a // a ∈ l} R := ⟨fun _ _ _ hab hbc => hbc.trans hab⟩
  have hirrefl : Std.Irrefl R := ⟨fun a => hnone a.1 a.2⟩
  have hfinite : Finite {a // a ∈ l} := List.finite_toSet l
  have hwf : WellFounded R := Finite.wellFounded_of_trans_of_irrefl R
  obtain ⟨a, l', rfl⟩ := List.exists_cons_of_ne_nil hne
  obtain ⟨least, -, hleast⟩ := hwf.has_min Set.univ ⟨⟨a, List.mem_cons_self⟩, trivial⟩
  obtain ⟨d, hd, hneeds⟩ := h least.1 least.2
  exact hleast ⟨d, hd⟩ trivial (.single ⟨least.2, hd, hneeds⟩)

end SwarmCloud.Lib
