import Mathlib.Algebra.Order.Group.Nat
import Mathlib.Tactic.Common

/-! # Loops with fuel

A turn of a loop goes on with another state or returns. With fuel for its turns
the loop returns what the last one does, and without it nothing. An invariant of
the turns is an invariant of the loop, and a loop whose turns go down a measure
returns.
-/

namespace SwarmCloud.Lib

universe u v

variable {σ : Type u} {ρ : Type v}

def loop (turn : σ → σ ⊕ ρ) : Nat → σ → Option ρ
  | 0, _ => none
  | fuel + 1, s => match turn s with
    | .inl s' => loop turn fuel s'
    | .inr r => some r

variable {turn : σ → σ ⊕ ρ}

theorem loop_inl {s s' : σ} (h : turn s = .inl s') (fuel : Nat) : loop turn (fuel + 1) s = loop turn fuel s' := by
  rw [loop, h]

theorem loop_inr {s : σ} {r : ρ} (h : turn s = .inr r) (fuel : Nat) : loop turn (fuel + 1) s = some r := by
  rw [loop, h]

/-- What holds at every state the loop reaches holds where it returns. -/
theorem loop_invariant {I : σ → Prop} {Q : ρ → Prop} (hkeep : ∀ s s', I s → turn s = .inl s' → I s')
    (hreturn : ∀ s r, I s → turn s = .inr r → Q r) {fuel : Nat} {s : σ} {r : ρ} (hs : I s)
    (h : loop turn fuel s = some r) : Q r := by
  induction fuel generalizing s with
  | zero => cases h
  | succ fuel ih =>
    cases hturn : turn s with
    | inl s' =>
      rw [loop_inl hturn] at h
      exact ih (hkeep s s' hs hturn) h
    | inr r' =>
      rw [loop_inr hturn] at h
      obtain rfl := Option.some.inj h
      exact hreturn s r' hs hturn

/-- A loop whose turns go down a measure returns within it. -/
theorem loop_returns {I : σ → Prop} (μ : σ → Nat) (hkeep : ∀ s s', I s → turn s = .inl s' → I s' ∧ μ s' < μ s)
    {s : σ} (hs : I s) : ∃ r, loop turn (μ s + 1) s = some r := by
  have hfuel : ∀ fuel s, I s → μ s < fuel → ∃ r, loop turn fuel s = some r := by
    intro fuel
    induction fuel with
    | zero => exact fun s _ hlt => absurd hlt (Nat.not_lt_zero _)
    | succ fuel ih =>
      intro s hs hlt
      cases hturn : turn s with
      | inl s' =>
        obtain ⟨hs', hdown⟩ := hkeep s s' hs hturn
        rw [loop_inl hturn]
        exact ih s' hs' (by omega)
      | inr r => exact ⟨r, loop_inr hturn fuel⟩
  exact hfuel (μ s + 1) s hs (Nat.lt_succ_self _)

/-- More fuel changes nothing. -/
theorem loop_mono {fuel fuel' : Nat} {s : σ} {r : ρ} (hle : fuel ≤ fuel') (h : loop turn fuel s = some r) :
    loop turn fuel' s = some r := by
  induction fuel generalizing fuel' s with
  | zero => cases h
  | succ fuel ih =>
    obtain ⟨more, rfl⟩ := Nat.exists_eq_add_of_le' hle
    rw [← Nat.add_assoc]
    cases hturn : turn s with
    | inl s' =>
      rw [loop_inl hturn] at h ⊢
      exact ih (Nat.le_add_left fuel more) h
    | inr r' =>
      rw [loop_inr hturn] at h ⊢
      exact h

theorem loop_unique {fuel fuel' : Nat} {s : σ} {r r' : ρ} (h : loop turn fuel s = some r)
    (h' : loop turn fuel' s = some r') : r = r' := by
  have hmax := loop_mono (le_max_left fuel fuel') h
  rw [loop_mono (le_max_right fuel fuel') h'] at hmax
  exact (Option.some.inj hmax).symm

end SwarmCloud.Lib
