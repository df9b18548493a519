import Mathlib.Data.List.Basic

/-! # Fallible computations

What a result, or an error, of a computation in `Except` says about its parts.
-/

namespace SwarmCloud.Lib

universe u v

variable {ε : Type u} {α β : Type v} {x : Except ε α} {f : α → Except ε β} {g : α → β}

theorem exists_ok_of_isSome (h : x.toOption.isSome = true) : ∃ a, x = .ok a := by
  cases x with
  | error e => cases h
  | ok a => exact ⟨a, rfl⟩

theorem eq_ok_of_toOption {a : α} (h : x.toOption = some a) : x = .ok a := by
  cases x with
  | error e => cases h
  | ok b => exact congrArg Except.ok (Option.some.inj h)

theorem map_eq_ok {b : β} (h : x.map g = .ok b) : ∃ a, x = .ok a ∧ g a = b := by
  cases x with
  | error e => cases h
  | ok a => exact ⟨a, rfl, Except.ok.inj h⟩

theorem map_eq_error {e : ε} (h : x.map g = .error e) : x = .error e := by
  cases x with
  | error e' =>
    cases h
    rfl
  | ok a => cases h

theorem bind_eq_ok {b : β} (h : (x >>= f) = .ok b) : ∃ a, x = .ok a ∧ f a = .ok b := by
  cases x with
  | error e => cases h
  | ok a => exact ⟨a, rfl, h⟩

theorem bind_eq_error {e : ε} (h : (x >>= f) = .error e) :
    x = .error e ∨ ∃ a, x = .ok a ∧ f a = .error e := by
  cases x with
  | error e' =>
    cases h
    exact .inl rfl
  | ok a => exact .inr ⟨a, rfl, h⟩

/-- A loop whose every step goes through, as long as the invariant holds. -/
theorem foldlM_eq_ok {ε : Type u} {σ : Type v} {γ : Type*} {f : σ → γ → Except ε σ} {g : σ → γ → σ} {I : σ → Prop}
    {l : List γ} (hstep : ∀ s, I s → ∀ a ∈ l, f s a = .ok (g s a) ∧ I (g s a)) {s : σ} (hs : I s) :
    l.foldlM f s = .ok (l.foldl g s) ∧ I (l.foldl g s) := by
  induction l generalizing s with
  | nil => exact ⟨rfl, hs⟩
  | cons a l ih =>
    obtain ⟨hok, hnext⟩ := hstep s hs a List.mem_cons_self
    rw [List.foldlM_cons, hok, List.foldl_cons]
    exact ih (fun s hs b hb => hstep s hs b (List.mem_cons_of_mem _ hb)) hnext

theorem forM_eq_ok {α ε : Type} {f : α → Except ε Unit} {l : List α} :
    l.forM f = .ok () ↔ ∀ a ∈ l, f a = .ok () := by
  induction l with
  | nil => exact iff_of_true rfl nofun
  | cons a l ih =>
    rw [List.forall_mem_cons, ← ih]
    change (f a >>= fun _ => l.forM f) = .ok () ↔ _
    constructor
    · intro h
      obtain ⟨⟨⟩, ha, hl⟩ := bind_eq_ok h
      exact ⟨ha, hl⟩
    · rintro ⟨ha, hl⟩
      rw [ha]
      exact hl

theorem mapM_eq_ok {γ : Type*} {f : γ → Except ε α} {l : List γ} {results : List α} :
    l.mapM f = .ok results ↔ l.map f = results.map .ok := by
  induction l generalizing results with
  | nil => cases results <;> simp [pure, Except.pure]
  | cons a l ih =>
    rw [List.mapM_cons]
    constructor
    · intro h
      obtain ⟨first, hfirst, h⟩ := bind_eq_ok h
      obtain ⟨rest, hrest, h⟩ := bind_eq_ok h
      obtain rfl := Except.ok.inj h
      rw [List.map_cons, List.map_cons, hfirst, ih.mp hrest]
    · intro h
      cases results with
      | nil => cases h
      | cons first rest =>
        obtain ⟨hfirst, hrest⟩ := List.cons.inj h
        rw [hfirst, ih.mpr hrest]
        rfl

/-- What a result shares with its argument, over a list of them. -/
theorem map_eq_of_mapM {γ δ : Type*} {f : γ → Except ε α} {l : List γ} {results : List α} (out : α → δ)
    (expected : γ → δ) (h : l.mapM f = .ok results) (hout : ∀ a ∈ l, ∀ b, f a = .ok b → out b = expected a) :
    results.map out = l.map expected := by
  induction l generalizing results with
  | nil =>
    obtain rfl := List.map_eq_nil_iff.mp (mapM_eq_ok.mp h).symm
    rfl
  | cons a l ih =>
    have hmap := mapM_eq_ok.mp h
    cases results with
    | nil => cases hmap
    | cons first rest =>
      obtain ⟨hfirst, hrest⟩ := List.cons.inj hmap
      rw [List.map_cons, List.map_cons, hout a List.mem_cons_self first hfirst,
        ih (mapM_eq_ok.mpr hrest) fun b hb => hout b (List.mem_cons_of_mem a hb)]

end SwarmCloud.Lib
