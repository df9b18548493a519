import Mathlib.Algebra.BigOperators.Group.List.Basic
import Mathlib.Algebra.Order.BigOperators.Group.List
import Mathlib.Data.List.Infix
import SwarmCloud.Lib.Dict

/-! # Dictionaries in order of use

A use moves an item to the end of the dictionary, so the first item is the one
unused for longest. Items fall into classes; what is thrown out is always the
first item of some class, and then what stays of every class is the end of what
the class had.
-/

namespace SwarmCloud.Lib

universe u v w

namespace Dict

variable {κ : Type u} {δ : Type v} {τ : Type w} [DecidableEq τ]

/-- The items of a class. -/
def ofClass (cls : κ → τ) (t : τ) (d : Dict κ δ) : Dict κ δ := d.filter (cls ·.1 = t)

/-- Of every class the end is left. -/
def EndsOf (cls : κ → τ) (d' d : Dict κ δ) : Prop := ∀ t, ofClass cls t d' <:+ ofClass cls t d

section Classes

variable {cls : κ → τ} {t : τ} {d d' d'' : Dict κ δ}

theorem EndsOf.refl (d : Dict κ δ) : EndsOf cls d d := fun _ => List.suffix_rfl

theorem EndsOf.trans (h : EndsOf cls d'' d') (h' : EndsOf cls d' d) : EndsOf cls d'' d :=
  fun t => (h t).trans (h' t)

theorem ofClass_sublist (t : τ) (d : Dict κ δ) : (ofClass cls t d).Sublist d := List.filter_sublist

theorem mem_ofClass {item : κ × δ} : item ∈ ofClass cls t d ↔ item ∈ d ∧ cls item.1 = t := by
  simp [ofClass]

theorem nodup_ofClass (h : (d.map Prod.fst).Nodup) (t : τ) : ((ofClass cls t d).map Prod.fst).Nodup :=
  h.sublist ((ofClass_sublist t d).map Prod.fst)

variable (size : κ → δ → Nat)

theorem total_append (d d' : Dict κ δ) : total size (d ++ d') = total size d + total size d' := by
  simp [total]

theorem total_perm (h : d.Perm d') : total size d = total size d' := by
  induction h with
  | nil => rfl
  | cons item _ ih => simpa [total] using ih
  | swap item item' d => simp [total, Nat.add_left_comm]
  | trans _ _ ih ih' => exact ih.trans ih'

theorem total_le_of_sublist (h : d.Sublist d') : total size d ≤ total size d' := by
  induction h with
  | slnil => exact le_rfl
  | cons item _ ih => exact ih.trans (by simp [total])
  | cons_cons item _ ih => simpa [total] using ih

theorem size_le_total {k : κ} {v : δ} (h : (k, v) ∈ d) : size k v ≤ total size d := by
  have hle := total_le_of_sublist size (List.singleton_sublist.mpr h)
  simpa [total] using hle

theorem total_ofClass_append (t : τ) (d : Dict κ δ) (k : κ) (v : δ) :
    total size (ofClass cls t (d ++ [(k, v)])) = total size (ofClass cls t d) + if cls k = t then size k v else 0 := by
  rw [ofClass, List.filter_append, total_append]
  by_cases ht : cls k = t <;> simp [ht, total, ofClass]

end Classes

variable [DecidableEq κ]

def without (k : κ) (d : Dict κ δ) : Dict κ δ := d.filter (·.1 ≠ k)

/-- `move_to_end`. -/
def touch (k : κ) (d : Dict κ δ) : Dict κ δ :=
  match d.lookup k with
  | none => d
  | some v => d.without k ++ [(k, v)]

variable {d d' : Dict κ δ} {k k' : κ} {v v' : δ} {cls : κ → τ} {t : τ}

omit [DecidableEq τ] in
theorem lookup_without : List.lookup k' (d.without k) = if k' = k then none else d.lookup k' :=
  lookup_filter_ne d k k'

theorem keys_without : (d.without k).map Prod.fst = (d.map Prod.fst).filter (· ≠ k) := by
  rw [without, List.filter_map]
  rfl

theorem nodup_without (h : (d.map Prod.fst).Nodup) (k : κ) : ((d.without k).map Prod.fst).Nodup := by
  rw [keys_without]
  exact h.filter _

theorem notMem_keys_without (d : Dict κ δ) (k : κ) : k ∉ (d.without k).map Prod.fst := by
  simp [keys_without]

theorem mem_without : (k', v) ∈ d.without k ↔ (k', v) ∈ d ∧ k' ≠ k := by
  simp [without]

theorem without_of_new (h : k ∉ d.map Prod.fst) : d.without k = d := by
  rw [without, List.filter_eq_self]
  rintro ⟨key, v⟩ hitem
  refine decide_eq_true fun heq => h ?_
  exact List.mem_map.mpr ⟨_, hitem, heq⟩

theorem without_split {before after : Dict κ δ} (h : ((before ++ (k, v) :: after).map Prod.fst).Nodup) :
    without k (before ++ (k, v) :: after) = before ++ after := by
  rw [List.map_append, List.map_cons, List.nodup_middle, List.nodup_cons, ← List.map_append] at h
  rw [without, List.filter_append, List.filter_cons_of_neg (by simp), ← List.filter_append]
  exact without_of_new h.1

/-- Where a key stands: what is before its item, and what is after. -/
theorem exists_place (h : (d.map Prod.fst).Nodup) (hk : d.lookup k = some v) :
    ∃ before after, d = before ++ (k, v) :: after ∧ d.without k = before ++ after := by
  obtain ⟨before, after, rfl⟩ := List.append_of_mem (mem_of_lookup hk)
  exact ⟨before, after, rfl, without_split h⟩

theorem perm_without (h : (d.map Prod.fst).Nodup) (hk : d.lookup k = some v) : d.Perm ((k, v) :: d.without k) := by
  obtain ⟨before, after, rfl, hwithout⟩ := exists_place h hk
  rw [hwithout]
  exact List.perm_middle

theorem perm_touch (h : (d.map Prod.fst).Nodup) (k : κ) : (d.touch k).Perm d := by
  unfold touch
  cases hk : d.lookup k with
  | none => rfl
  | some v => exact (List.perm_append_singleton _ _).trans (perm_without h hk).symm

/-! ## What is thrown out -/

/-- The first item of its class may be thrown out. -/
theorem endsOf_without (h : (d.map Prod.fst).Nodup) (hfirst : d.find? (cls ·.1 = t) = some (k, v)) :
    EndsOf cls (d.without k) d := by
  obtain ⟨hclass, before, after, rfl, hbefore⟩ := List.find?_eq_some_iff_append.mp hfirst
  intro t'
  rw [without_split h, ofClass, ofClass, List.filter_append, List.filter_append, List.filter_cons]
  by_cases ht : cls k = t'
  · have hnone : before.filter (cls ·.1 = t') = [] := by
      rw [List.filter_eq_nil_iff]
      intro item hitem
      have hne := hbefore item hitem
      rw [← ht, of_decide_eq_true hclass]
      simpa using hne
    rw [hnone]
    simp only [ht, decide_true, if_true, List.nil_append]
    exact List.suffix_cons _ _
  · simp only [ht, decide_false, Bool.false_eq_true, if_false]
    exact List.suffix_rfl

variable (size : κ → δ → Nat)

theorem total_without (h : (d.map Prod.fst).Nodup) (hk : d.lookup k = some v) :
    total size d = size k v + total size (d.without k) := by
  rw [total_perm size (perm_without h hk)]
  simp [total]

theorem ofClass_without (t : τ) (k : κ) (d : Dict κ δ) : ofClass cls t (d.without k) = without k (ofClass cls t d) := by
  simp only [ofClass, without, List.filter_filter, Bool.and_comm]

/-- Throwing an item out takes its weight from its class and from no other. -/
theorem total_ofClass_without (h : (d.map Prod.fst).Nodup) (hk : d.lookup k = some v) (t : τ) :
    total size (ofClass cls t d) = (if cls k = t then size k v else 0) + total size (ofClass cls t (d.without k)) := by
  rw [ofClass_without]
  split
  · rename_i ht
    refine total_without size (nodup_ofClass h _) (lookup_of_mem (nodup_ofClass h _) ?_)
    exact mem_ofClass.mpr ⟨mem_of_lookup hk, ht⟩
  · rename_i ht
    rw [without_of_new, Nat.zero_add]
    intro hmem
    obtain ⟨item, hitem, heq⟩ := List.mem_map.mp hmem
    exact ht (heq ▸ (mem_ofClass.mp hitem).2)

end Dict

end SwarmCloud.Lib
