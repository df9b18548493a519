import Mathlib.Data.Int.Order.Basic
import Mathlib.Order.Basic

/-! # Search by halves

A search between two numbers halves the gap until they are next to each other;
where the test says from which number on something holds, it answers that number.
-/

namespace SwarmCloud.Lib

def bisect (test : Int → Bool) (lo hi : Int) : Int :=
  if 1 < hi - lo then
    let mid := (lo + hi) / 2
    if test mid then bisect test lo mid else bisect test mid hi
  else hi
termination_by (hi - lo).toNat
decreasing_by all_goals omega

theorem bisect_bounds {test : Int → Bool} {lo hi : Int} (h : lo ≤ hi) :
    lo ≤ bisect test lo hi ∧ bisect test lo hi ≤ hi := by
  induction lo, hi using bisect.induct test with
  | case1 lo hi hgap mid htest ih =>
    have hmid : lo ≤ mid ∧ mid ≤ hi := by omega
    have hih := ih hmid.1
    rw [bisect, if_pos hgap]
    dsimp only
    rw [if_pos htest]
    exact ⟨hih.1, le_trans hih.2 hmid.2⟩
  | case2 lo hi hgap mid htest ih =>
    have hmid : lo ≤ mid ∧ mid ≤ hi := by omega
    have hih := ih hmid.2
    rw [bisect, if_pos hgap]
    dsimp only
    rw [if_neg htest]
    exact ⟨le_trans hmid.1 hih.1, hih.2⟩
  | case3 lo hi hgap =>
    rw [bisect, if_neg hgap]
    exact ⟨h, le_refl hi⟩

theorem bisect_eq {test : Int → Bool} {lo hi first : Int} (hlo : lo < first) (hhi : first ≤ hi)
    (htest : ∀ t, lo ≤ t → t ≤ hi → (test t = true ↔ first ≤ t)) : bisect test lo hi = first := by
  induction lo, hi using bisect.induct test with
  | case1 lo hi hgap mid hmid ih =>
    have hbetween : lo ≤ mid ∧ mid ≤ hi := by omega
    rw [bisect, if_pos hgap]
    dsimp only
    rw [if_pos hmid]
    exact ih hlo ((htest mid hbetween.1 hbetween.2).mp hmid)
      fun t hfrom huntil => htest t hfrom (le_trans huntil hbetween.2)
  | case2 lo hi hgap mid hmid ih =>
    have hbetween : lo ≤ mid ∧ mid ≤ hi := by omega
    have hbefore : mid < first := not_le.mp fun h => hmid ((htest mid hbetween.1 hbetween.2).mpr h)
    rw [bisect, if_pos hgap]
    dsimp only
    rw [if_neg hmid]
    exact ih hbefore hhi fun t hfrom huntil => htest t (le_trans hbetween.1 hfrom) huntil
  | case3 lo hi hgap =>
    rw [bisect, if_neg hgap]
    omega

end SwarmCloud.Lib
