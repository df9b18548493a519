import Mathlib.Data.String.Basic
import SwarmCloud.Lib.Sorting

/-! # Directories of a sorted listing

The keys under a directory go together in a listing that is sorted by the text of
the keys, but the directories do not go in the order of their own texts: one whose
text goes on after another's with a character below the separator comes first.
-/

namespace SwarmCloud.Lib

universe u v

section Lexicographic

variable {α : Type u} [LinearOrder α]

/-- Of two directories the one with the greater text has a key first only where its text goes on after the other's. -/
theorem goes_on_of_lt {dir dir' : List α} (hlt : dir < dir') {separator : α} {key key' : List α}
    (hkeys : ¬dir ++ separator :: key < dir' ++ separator :: key') :
    ∃ next rest, dir' = dir ++ next :: rest ∧ next ≤ separator := by
  induction dir generalizing dir' with
  | nil =>
    cases dir' with
    | nil => exact absurd hlt (List.not_lt_nil _)
    | cons next rest =>
      refine ⟨next, rest, rfl, ?_⟩
      rw [List.nil_append, List.cons_append, List.cons_lt_cons_iff] at hkeys
      exact not_lt.mp fun hnext => hkeys (.inl hnext)
  | cons first dir ih =>
    cases dir' with
    | nil => exact absurd hlt (List.not_lt_nil _)
    | cons first' dir' =>
      rw [List.cons_append, List.cons_append, List.cons_lt_cons_iff, not_or] at hkeys
      rcases List.cons_lt_cons_iff.mp hlt with hfirst | ⟨rfl, hrest⟩
      · exact absurd hfirst hkeys.1
      · obtain ⟨next, rest, rfl, hnext⟩ := ih hrest fun hlt => hkeys.2 ⟨rfl, hlt⟩
        exact ⟨next, rest, rfl, hnext⟩

theorem lt_of_goes_on (dir : List α) (next : α) (rest : List α) : dir < dir ++ next :: rest := by
  induction dir with
  | nil => exact List.nil_lt_cons next rest
  | cons first dir ih => exact List.cons_lt_cons_iff.mpr (.inr ⟨rfl, ih⟩)

end Lexicographic

/-- What a cut listing still has is not after what it lost. -/
theorem not_lt_of_take {α : Type u} {κ : Type v} [LinearOrder κ] {key : α → κ} {l : List α} {n : Nat} {a b : α}
    (ha : a ∈ (sortBy key l).take n) (hb : b ∈ l) (hlost : b ∉ (sortBy key l).take n) : ¬key b < key a := by
  have hsorted := sortBy_pairwise key l
  rw [← List.take_append_drop n (sortBy key l)] at hsorted
  have hdrop : b ∈ (sortBy key l).drop n := by
    have hmem : b ∈ sortBy key l := mem_sortBy.mpr hb
    rw [← List.take_append_drop n (sortBy key l)] at hmem
    exact (List.mem_append.mp hmem).resolve_left hlost
  exact not_lt.mpr ((List.pairwise_append.mp hsorted).2.2 a ha b hdrop)

end SwarmCloud.Lib
