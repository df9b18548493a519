import Mathlib.Data.List.Basic

/-! # Computations that read

A computation that reads a table, a key at a time, and fetches what the table
names. It is a tree: what it reads next depends on what it has read. Its result
depends on the table through the keys it reads and through nothing else, so on
two tables that agree on these keys it reads the same keys and comes to the same
result.

A fetch may be late, and goes on with a stand-in, or fail. An attempt with no
fetch late or failed is the computation itself.
-/

namespace SwarmCloud.Lib

universe u

inductive Reading (κ α β γ ρ : Type u)
  | done (result : ρ)
  | read (key : κ) (next : α → Reading κ α β γ ρ)
  | fetch (name : β) (next : γ → Reading κ α β γ ρ)

inductive Fetched (γ : Type u)
  | got (content : γ)
  | late
  | fault

structure Attempt (κ ρ : Type u) where
  result : Option ρ
  reads : List κ
  late : Bool

namespace Reading

variable {κ α β γ ρ : Type u}

def eval (table : κ → α) (content : β → γ) : Reading κ α β γ ρ → ρ
  | done result => result
  | read key next => eval table content (next (table key))
  | fetch name next => eval table content (next (content name))

/-- The keys that are read, in order. -/
def reads (table : κ → α) (content : β → γ) : Reading κ α β γ ρ → List κ
  | done _ => []
  | read key next => key :: reads table content (next (table key))
  | fetch name next => reads table content (next (content name))

/-- The computation over a source whose fetches come back as they may; a late one counts as `empty`. -/
def attempt (table : κ → α) (source : Nat → β → Fetched γ) (empty : γ) : Nat → Reading κ α β γ ρ → Attempt κ ρ
  | _, done result => ⟨some result, [], false⟩
  | n, read key next =>
    let rest := attempt table source empty n (next (table key))
    { rest with reads := key :: rest.reads }
  | n, fetch name next => match source n name with
    | .got content => attempt table source empty (n + 1) (next content)
    | .late => { attempt table source empty (n + 1) (next empty) with late := true }
    | .fault => ⟨none, [], false⟩

variable {table table' : κ → α} {content : β → γ} {source : Nat → β → Fetched γ} {empty : γ}

theorem eval_congr {p : Reading κ α β γ ρ} (h : ∀ key ∈ p.reads table content, table' key = table key) :
    p.eval table' content = p.eval table content := by
  induction p with
  | done result => rfl
  | read key next ih =>
    obtain ⟨hkey, hrest⟩ := List.forall_mem_cons.mp h
    simp only [eval, hkey]
    exact ih _ hrest
  | fetch name next ih => exact ih _ h

theorem reads_congr {p : Reading κ α β γ ρ} (h : ∀ key ∈ p.reads table content, table' key = table key) :
    p.reads table' content = p.reads table content := by
  induction p with
  | done result => rfl
  | read key next ih =>
    obtain ⟨hkey, hrest⟩ := List.forall_mem_cons.mp h
    simp only [reads, hkey]
    rw [ih _ hrest]
  | fetch name next ih => exact ih _ h

/-- An attempt that came to a result with nothing late read what the computation reads. -/
theorem attempt_eq (hsource : ∀ n name c, source n name = .got c → c = content name) {p : Reading κ α β γ ρ} {n : Nat}
    {r : ρ} (hresult : (p.attempt table source empty n).result = some r)
    (hlate : (p.attempt table source empty n).late = false) :
    r = p.eval table content ∧ (p.attempt table source empty n).reads = p.reads table content := by
  induction p generalizing n with
  | done result => exact ⟨(Option.some.inj hresult).symm, rfl⟩
  | read key next ih =>
    obtain ⟨heval, hreads⟩ := ih _ hresult hlate
    exact ⟨heval, congrArg (key :: ·) hreads⟩
  | fetch name next ih =>
    simp only [attempt] at hresult hlate ⊢
    cases hfetch : source n name with
    | got c =>
      simp only [hfetch] at hresult hlate ⊢
      rw [hsource n name c hfetch] at hresult hlate ⊢
      exact ih _ hresult hlate
    | late =>
      simp only [hfetch] at hlate
      cases hlate
    | fault =>
      simp only [hfetch] at hresult
      cases hresult

end Reading

end SwarmCloud.Lib
