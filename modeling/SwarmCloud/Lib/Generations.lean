import Mathlib.Data.Option.Basic
import Mathlib.Tactic.Common

/-! # Objects that are written under a generation

An object of a bucket has a content and a generation. A write or a delete names the
generation it expects and goes through only while the object has it; a generation is
given out once. Whoever remembers a content and the generation it had knows, where
the object still has that generation, what stands in it.
-/

namespace SwarmCloud.Lib

universe u

structure Versioned (α : Type u) where
  object : Option (α × Nat) := none
  /-- The generation of the next write. -/
  next : Nat := 1
  next_pos : 0 < next := by decide
  lt_next : ∀ item ∈ object, 0 < item.2 ∧ item.2 < next := by exact fun _ h => nomatch h

namespace Versioned

variable {α : Type u}

/-- 0 where there is no object. -/
def generation (v : Versioned α) : Nat := v.object.elim 0 Prod.snd

/-- The new generation too, or nothing where the object has another one than `expected`. -/
def write (v : Versioned α) (a : α) (expected : Nat) : Option (Versioned α × Nat) :=
  if v.generation = expected then
    some (⟨some (a, v.next), v.next + 1, Nat.succ_pos _,
      fun _ h => Option.some.inj h ▸ ⟨v.next_pos, Nat.lt_succ_self _⟩⟩, v.next)
  else none

def delete (v : Versioned α) (expected : Nat) : Option (Versioned α) :=
  if v.object.isSome ∧ v.generation = expected then some ⟨none, v.next, v.next_pos, fun _ h => nomatch h⟩ else none

/-- What a reader remembers of the object. -/
structure Remembered (v : Versioned α) (content : Option α) (generation : Nat) : Prop where
  lt_next : generation < v.next
  absent : generation = 0 → content = none
  same : v.generation = generation → v.object.map Prod.fst = content

variable {v v' : Versioned α} {a b : α} {content : Option α} {g g' expected : Nat}

theorem generation_lt (v : Versioned α) : v.generation < v.next := by
  rw [generation]
  cases h : v.object with
  | none => exact v.next_pos
  | some item => exact (v.lt_next item h).2

theorem generation_eq_zero (v : Versioned α) : v.generation = 0 ↔ v.object = none := by
  rw [generation]
  cases h : v.object with
  | none => exact iff_of_true rfl rfl
  | some item => exact iff_of_false (Nat.ne_of_gt (v.lt_next item h).1) nofun

theorem write_eq_some (h : v.write a expected = some (v', g)) :
    v.generation = expected ∧ v'.object = some (a, g) ∧ g = v.next ∧ v'.next = v.next + 1 := by
  simp only [write, Option.ite_none_right_eq_some, Option.some.injEq, Prod.mk.injEq] at h
  obtain ⟨hmatch, rfl, rfl⟩ := h
  exact ⟨hmatch, rfl, rfl, rfl⟩

theorem delete_eq_some (h : v.delete expected = some v') :
    v.generation = expected ∧ v.object.isSome ∧ v'.object = none ∧ v'.next = v.next := by
  simp only [delete, Option.ite_none_right_eq_some, Option.some.injEq] at h
  obtain ⟨⟨hsome, hmatch⟩, rfl⟩ := h
  exact ⟨hmatch, hsome, rfl, rfl⟩

theorem remembered_read (v : Versioned α) : v.Remembered (v.object.map Prod.fst) v.generation where
  lt_next := v.generation_lt
  absent h := by rw [v.generation_eq_zero.mp h]; rfl
  same _ := rfl

/-- Who has seen no object knows what generation 0 stands for. -/
theorem remembered_zero (v : Versioned α) : v.Remembered none 0 where
  lt_next := v.next_pos
  absent _ := rfl
  same h := by rw [v.generation_eq_zero.mp h]; rfl

theorem generation_of_object (h : v.object = some (a, g)) : v.generation = g := by
  rw [generation, h]
  rfl

theorem remembered_written (h : v.write a expected = some (v', g)) : v'.Remembered (some a) g := by
  obtain ⟨-, hobject, rfl, hnext⟩ := write_eq_some h
  have hgeneration := generation_of_object hobject
  have hremembered := remembered_read v'
  rwa [hobject, hgeneration] at hremembered

/-- A write by anybody keeps what the others remember. -/
theorem Remembered.write (h : v.Remembered content g) (hwrite : v.write a expected = some (v', g')) :
    v'.Remembered content g := by
  obtain ⟨-, hobject, rfl, hnext⟩ := write_eq_some hwrite
  have hlt := h.lt_next
  refine ⟨by omega, h.absent, fun hsame => ?_⟩
  rw [generation_of_object hobject] at hsame
  omega

theorem Remembered.delete (h : v.Remembered content g) (hdelete : v.delete expected = some v') :
    v'.Remembered content g := by
  obtain ⟨-, -, hobject, hnext⟩ := delete_eq_some hdelete
  refine ⟨hnext ▸ h.lt_next, h.absent, fun hsame => ?_⟩
  have hzero : g = 0 := by
    rw [← hsame]
    exact v'.generation_eq_zero.mpr hobject
  rw [h.absent hzero, hobject]
  rfl

/-- A write under a generation replaces what was remembered of it. -/
theorem Remembered.replaced (h : v.Remembered content g) (hwrite : v.write a g = some (v', g')) :
    v.object.map Prod.fst = content :=
  h.same (write_eq_some hwrite).1

end Versioned

end SwarmCloud.Lib
