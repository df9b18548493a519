import Mathlib.Data.List.Basic

/-! # Runs of a labelled step relation

A run lists the labels of its steps, oldest first. Every prefix of a run is a
run, so a property of the last state of all runs is a property of every state
that any run passes through.
-/

namespace SwarmCloud.Lib

universe u v

variable {σ : Type u} {α : Type v} {step : σ → α → σ → Prop}

inductive Run (step : σ → α → σ → Prop) (s₀ : σ) : List α → σ → Prop
  | nil : Run step s₀ [] s₀
  | snoc {ops : List α} {s s' : σ} {op : α} :
      Run step s₀ ops s → step s op s' → Run step s₀ (ops ++ [op]) s'

theorem Run.invariant {I : σ → Prop} (hstep : ∀ s op s', I s → step s op s' → I s')
    {s₀ s : σ} {ops : List α} (h₀ : I s₀) (hrun : Run step s₀ ops s) : I s := by
  induction hrun with
  | nil => exact h₀
  | snoc _ hlast ih => exact hstep _ _ _ ih hlast

theorem Run.one {s s' : σ} {op : α} (h : step s op s') : Run step s [op] s' :=
  .snoc .nil h

theorem Run.append {s s' s'' : σ} {ops ops' : List α} (hrun : Run step s ops s') (hrun' : Run step s' ops' s'') :
    Run step s (ops ++ ops') s'' := by
  induction hrun' with
  | nil => rwa [List.append_nil]
  | snoc _ hlast ih =>
    rw [← List.append_assoc]
    exact .snoc ih hlast

theorem Run.mono {step' : σ → α → σ → Prop} (h : ∀ s op s', step s op s' → step' s op s') {s s' : σ} {ops : List α}
    (hrun : Run step s ops s') : Run step' s ops s' := by
  induction hrun with
  | nil => exact .nil
  | snoc _ hlast ih => exact .snoc ih (h _ _ _ hlast)

theorem Run.of_foldlM {f : σ → α → Option σ} {s s' : σ} {ops : List α} (h : ops.foldlM f s = some s') :
    Run (fun s op s' => f s op = some s') s ops s' := by
  induction ops generalizing s with
  | nil =>
    obtain rfl := Option.some.inj h
    exact .nil
  | cons op ops ih =>
    rw [List.foldlM_cons] at h
    obtain ⟨between, hfirst, hrest⟩ := Option.bind_eq_some_iff.mp h
    exact (Run.one hfirst).append (ih hrest)

section Collect

variable {β : Type*} {f : σ → α → σ} {out : σ → List β} {P : α → β → Prop}

/-- What a loop has collected was there before, or some turn added it. -/
theorem mem_foldl_collect (hstep : ∀ s a b, b ∈ out (f s a) → b ∈ out s ∨ P a b) {l : List α} {s : σ} {b : β}
    (h : b ∈ out (l.foldl f s)) : b ∈ out s ∨ ∃ a ∈ l, P a b := by
  induction l generalizing s with
  | nil => exact .inl h
  | cons a l ih =>
    rcases ih h with hstep' | ⟨a', ha', hP⟩
    · rcases hstep s a b hstep' with hs | hP
      · exact .inl hs
      · exact .inr ⟨a, List.mem_cons_self, hP⟩
    · exact .inr ⟨a', List.mem_cons_of_mem a ha', hP⟩

/-- While the loop goes on, nothing is lost and each turn adds what it has to. -/
theorem foldl_collect {I : σ → Prop} (hI : ∀ s a, I s → I (f s a))
    (hkeep : ∀ s a b, I s → b ∈ out s → b ∈ out (f s a)) (hadd : ∀ s a b, I s → P a b → b ∈ out (f s a))
    {l : List α} {s : σ} (hs : I s) :
    I (l.foldl f s) ∧ ∀ b, (b ∈ out s ∨ ∃ a ∈ l, P a b) → b ∈ out (l.foldl f s) := by
  induction l generalizing s with
  | nil => simpa using hs
  | cons a l ih =>
    refine ⟨(ih (hI s a hs)).1, fun b hb => (ih (hI s a hs)).2 b ?_⟩
    rcases hb with hb | ⟨a', ha', hP⟩
    · exact .inl (hkeep s a b hs hb)
    · rcases List.mem_cons.mp ha' with rfl | ha'
      · exact .inl (hadd s a' b hs hP)
      · exact .inr ⟨a', ha', hP⟩

end Collect

end SwarmCloud.Lib
