import Mathlib.Data.List.Basic
import Mathlib.Tactic.Common

/-! # Pre- and postconditions of programs that may stop

A program changes a state and returns a result, or stops with an error; what it
changed before it stopped stays. A triple says what holds of the result and of the
error, each with the state as it then is.
-/

namespace SwarmCloud.Lib

universe u

variable {ε σ α β : Type u}

def Triple (P : σ → Prop) (m : EStateM ε σ α) (Q : α → σ → Prop) (E : ε → σ → Prop) : Prop :=
  ∀ s, P s → match m s with
    | .ok a s' => Q a s'
    | .error e s' => E e s'

namespace Triple

variable {P P' : σ → Prop} {Q Q' : α → σ → Prop} {R : β → σ → Prop} {E E' : ε → σ → Prop} {m : EStateM ε σ α}
  {f : α → EStateM ε σ β}

theorem of_ok (h : Triple P m Q E) {s s' : σ} (hs : P s) {a : α} (hm : m s = .ok a s') : Q a s' := by
  have hend := h s hs
  rwa [hm] at hend

theorem of_error (h : Triple P m Q E) {s s' : σ} (hs : P s) {e : ε} (hm : m s = .error e s') : E e s' := by
  have hend := h s hs
  rwa [hm] at hend

theorem pure {a : α} (h : ∀ s, P s → Q a s) : Triple P (pure a : EStateM ε σ α) Q E := fun s hs => h s hs

theorem throw {e : ε} (h : ∀ s, P s → E e s) : Triple P (throw e : EStateM ε σ α) Q E := fun s hs => h s hs

theorem modify {g : σ → σ} {Q : PUnit → σ → Prop} (h : ∀ s, P s → Q ⟨⟩ (g s)) :
    Triple P (modify g : EStateM ε σ PUnit) Q E := fun s hs => h s hs

theorem bind (hm : Triple P m Q E) (hf : ∀ a, Triple (Q a) (f a) R E) : Triple P (m >>= f) R E := by
  intro s hs
  have hfirst := hm s hs
  change match EStateM.bind m f s with
    | .ok b s' => R b s'
    | .error e s' => E e s'
  rw [EStateM.bind]
  cases hresult : m s with
  | ok a s' =>
    rw [hresult] at hfirst
    exact hf a s' hfirst
  | error e s' =>
    rw [hresult] at hfirst
    exact hfirst

/-- Programs that go on alike from where the first part leaves them. -/
theorem bind_congr {g : α → EStateM ε σ β} (hm : Triple P m Q E) (h : ∀ a s, Q a s → f a s = g a s) {s : σ} (hs : P s) :
    (m >>= f) s = (m >>= g) s := by
  have hfirst := hm s hs
  change EStateM.bind m f s = EStateM.bind m g s
  rw [EStateM.bind, EStateM.bind]
  cases hresult : m s with
  | ok a s' =>
    rw [hresult] at hfirst
    exact h a s' hfirst
  | error e s' => rfl

theorem get_bind_congr {f g : σ → EStateM ε σ β} {s : σ} (h : f s s = g s s) :
    (MonadState.get >>= f) s = (MonadState.get >>= g) s := h

theorem ite_congr {c : Prop} [Decidable c] {m₁ m₂ m₁' m₂' : EStateM ε σ α} {s : σ} (h : c → m₁ s = m₁' s)
    (h' : ¬c → m₂ s = m₂' s) : (if c then m₁ else m₂) s = (if c then m₁' else m₂') s := by
  split
  · exact h ‹_›
  · exact h' ‹_›

theorem tryCatch_congr {m' : EStateM ε σ α} {handle : ε → EStateM ε σ α} {s : σ} (h : m s = m' s) :
    (tryCatch m handle) s = (tryCatch m' handle) s := by
  change EStateM.tryCatch m handle s = EStateM.tryCatch m' handle s
  rw [EStateM.tryCatch, EStateM.tryCatch, h]

theorem weaken (hm : Triple P m Q E) (hP : ∀ s, P' s → P s) (hQ : ∀ a s, Q a s → Q' a s) (hE : ∀ e s, E e s → E' e s) :
    Triple P' m Q' E' := by
  intro s hs
  have h := hm s (hP s hs)
  cases hresult : m s with
  | ok a s' =>
    rw [hresult] at h
    exact hQ a s' h
  | error e s' =>
    rw [hresult] at h
    exact hE e s' h

theorem and {P' : σ → Prop} {Q' : α → σ → Prop} {E' : ε → σ → Prop} (h : Triple P m Q E) (h' : Triple P' m Q' E') :
    Triple (fun s => P s ∧ P' s) m (fun a s => Q a s ∧ Q' a s) (fun e s => E e s ∧ E' e s) := by
  intro s hs
  have hfirst := h s hs.1
  have hsecond := h' s hs.2
  cases hresult : m s with
  | ok a s' =>
    rw [hresult] at hfirst hsecond
    exact ⟨hfirst, hsecond⟩
  | error e s' =>
    rw [hresult] at hfirst hsecond
    exact ⟨hfirst, hsecond⟩

/-- What the state is known to be when it is read may be used from there on. -/
theorem get_bind {f : σ → EStateM ε σ β} (h : ∀ s, P s → Triple (· = s) (f s) R E) :
    Triple P (MonadState.get >>= f) R E := fun s hs => h s hs s rfl

theorem ite {c : Prop} [Decidable c] {m' : EStateM ε σ α} (hm : c → Triple P m Q E) (hm' : ¬c → Triple P m' Q E) :
    Triple P (if c then m else m') Q E := by
  split
  · exact hm ‹_›
  · exact hm' ‹_›

/-- A loop over a list, with what holds after so many of its entries. -/
theorem forM {γ : Type*} {g : γ → EStateM ε σ PUnit} {I : List γ → σ → Prop} {l : List γ}
    (hstep : ∀ done a rest, l = done ++ a :: rest → Triple (I done) (g a) (fun _ => I (done ++ [a])) E) :
    Triple (I []) (l.forM g) (fun _ => I l) E := by
  have hfrom : ∀ rest done, l = done ++ rest → Triple (I done) (rest.forM g) (fun _ => I l) E := by
    intro rest
    induction rest with
    | nil =>
      intro done hl
      rw [List.append_nil] at hl
      exact hl ▸ fun s hs => hs
    | cons a rest ih =>
      intro done hl
      refine bind (hstep done a rest hl) fun _ => ih (done ++ [a]) ?_
      rw [hl, List.append_assoc, List.singleton_append]
  exact hfrom l [] rfl

theorem forM_congr {γ : Type*} {g g' : γ → EStateM ε σ PUnit} {l : List γ} (h : ∀ a ∈ l, g a = g' a) :
    l.forM g = l.forM g' := by
  induction l with
  | nil => rfl
  | cons a l ih =>
    have htail := ih fun b hb => h b (List.mem_cons_of_mem a hb)
    change (g a >>= fun _ => l.forM g) = g' a >>= fun _ => l.forM g'
    rw [h a List.mem_cons_self, htail]

/-- A program that is followed by another one when it stops. -/
theorem tryCatch {F : ε → σ → Prop} {handle : ε → EStateM ε σ α} (hm : Triple P m Q F)
    (hhandle : ∀ e, Triple (F e) (handle e) Q E) :
    Triple P (tryCatch m handle) Q E := by
  intro s hs
  have hfirst := hm s hs
  change match EStateM.tryCatch m handle s with
    | .ok b s' => Q b s'
    | .error e s' => E e s'
  rw [EStateM.tryCatch]
  cases hresult : m s with
  | ok a s' =>
    rw [hresult] at hfirst
    exact hfirst
  | error e s' =>
    rw [hresult] at hfirst
    exact hhandle e s' hfirst

end Triple

end SwarmCloud.Lib
