import Mathlib.Data.Finmap
import Mathlib.Algebra.BigOperators.Group.Finset.Basic
import Mathlib.Algebra.Order.BigOperators.Group.Multiset
import Mathlib.Algebra.Order.Group.Int
import Mathlib.Tactic.Abel

/-! # Document collections

A collection is a finite map from document ids to documents. `modify` is the
update of an existing document; `total` sums a measure over the documents, and
the lemmas say how one write moves it.
-/

namespace SwarmCloud.Lib

universe u v w

abbrev Docs (κ : Type u) (δ : Type v) := Finmap fun _ : κ => δ

namespace Docs

variable {κ : Type u} {δ : Type v} [DecidableEq κ]

def modify (k : κ) (f : δ → δ) (m : Docs κ δ) : Docs κ δ :=
  match m.lookup k with
  | none => m
  | some d => m.insert k (f d)

theorem lookup_insert_eq (m : Docs κ δ) (k k' : κ) (d : δ) :
    (m.insert k d).lookup k' = if k' = k then some d else m.lookup k' := by
  split
  · rename_i h
    subst h
    exact Finmap.lookup_insert m
  · rename_i h
    exact Finmap.lookup_insert_of_ne m h

@[simp] theorem lookup_modify (m : Docs κ δ) (k k' : κ) (f : δ → δ) :
    (m.modify k f).lookup k' = if k' = k then (m.lookup k').map f else m.lookup k' := by
  unfold modify
  by_cases hk : k' = k
  · subst hk
    cases h : m.lookup k' with
    | none => simp [h]
    | some d => simp
  · cases h : m.lookup k with
    | none => simp [hk]
    | some d => simp [hk]

/-- One write a key: `modify` at each key of the list, in order. -/
def modifyAll {β : Type w} (f : β → δ → δ) (writes : List (κ × β)) (m : Docs κ δ) : Docs κ δ :=
  writes.foldl (fun m w => m.modify w.1 (f w.2)) m

theorem lookup_modifyAll {β : Type w} (f : β → δ → δ) {writes : List (κ × β)}
    (hnodup : (writes.map Prod.fst).Nodup) (m : Docs κ δ) (k : κ) :
    (modifyAll f writes m).lookup k =
      (writes.lookup k).elim (m.lookup k) fun b => (m.lookup k).map (f b) := by
  induction writes generalizing m with
  | nil => rfl
  | cons w writes ih =>
    obtain ⟨key, b⟩ := w
    obtain ⟨hkey, htail⟩ : key ∉ writes.map Prod.fst ∧ (writes.map Prod.fst).Nodup := by
      simpa using hnodup
    have hcons : modifyAll f ((key, b) :: writes) m = modifyAll f writes (m.modify key (f b)) := rfl
    rw [hcons, ih htail]
    by_cases hk : k = key
    · subst hk
      have hnone : writes.lookup k = none := by
        rw [List.lookup_eq_none_iff]
        intro p hp
        have hne : k ≠ p.1 := fun h => hkey (List.mem_map.mpr ⟨p, hp, h.symm⟩)
        simpa using hne
      simp [hnone]
    · have hbeq : (k == key) = false := beq_false_of_ne hk
      rw [List.lookup_cons, hbeq]
      simp [hk]

/-! A loop whose turns each write at a key of their own. -/

section Writes

variable {β : Type w} {write : Docs κ δ → β → Docs κ δ} {key : β → κ}

theorem lookup_foldl_of_ne (hother : ∀ m b k, k ≠ key b → (write m b).lookup k = m.lookup k) {items : List β} {k : κ}
    (h : ∀ b ∈ items, key b ≠ k) (m : Docs κ δ) : (items.foldl write m).lookup k = m.lookup k := by
  induction items generalizing m with
  | nil => rfl
  | cons b items ih =>
    rw [List.foldl_cons, ih (fun b' hb' => h b' (List.mem_cons_of_mem b hb')),
      hother m b k (Ne.symm (h b List.mem_cons_self))]

theorem lookup_foldl_of_mem (hother : ∀ m b k, k ≠ key b → (write m b).lookup k = m.lookup k)
    (hself : ∀ m m' b, m.lookup (key b) = m'.lookup (key b) →
      (write m b).lookup (key b) = (write m' b).lookup (key b))
    {items : List β} (hnodup : (items.map key).Nodup) {b : β} (h : b ∈ items) (m : Docs κ δ) :
    (items.foldl write m).lookup (key b) = (write m b).lookup (key b) := by
  induction items generalizing m with
  | nil => cases h
  | cons first items ih =>
    rw [List.map_cons, List.nodup_cons] at hnodup
    have hlater : ∀ b' ∈ items, key b' ≠ key first :=
      fun b' hb' heq => hnodup.1 (List.mem_map.mpr ⟨b', hb', heq⟩)
    rw [List.foldl_cons]
    obtain rfl | hin := List.mem_cons.mp h
    · exact lookup_foldl_of_ne hother hlater _
    · rw [ih hnodup.2 hin]
      exact hself _ _ b (hother m first _ (hlater b hin))

end Writes

/-- The entries of a partial function on a list of keys. -/
def keyed {β : Type w} (keys : List κ) (g : κ → Option β) : List (κ × β) :=
  keys.filterMap fun k => (g k).map fun b => (k, b)

theorem lookup_keyed {β : Type w} (keys : List κ) (g : κ → Option β) (k : κ) :
    (keyed keys g).lookup k = if k ∈ keys then g k else none := by
  induction keys with
  | nil => rfl
  | cons key keys ih =>
    unfold keyed at ih ⊢
    by_cases hk : k = key
    · subst hk
      cases hg : g k with
      | none =>
        rw [List.filterMap_cons_none (by rw [hg]; rfl), ih, hg]
        simp
      | some b =>
        rw [List.filterMap_cons_some (b := (k, b)) (by rw [hg]; rfl)]
        simp
    · have hbeq : (k == key) = false := beq_false_of_ne hk
      cases hg : g key with
      | none =>
        rw [List.filterMap_cons_none (by rw [hg]; rfl), ih]
        simp [hk]
      | some b =>
        rw [List.filterMap_cons_some (b := (key, b)) (by rw [hg]; rfl), List.lookup_cons, hbeq, ih]
        simp [hk]

omit [DecidableEq κ] in
theorem keyed_keys_nodup {β : Type w} {keys : List κ} (hnodup : keys.Nodup) (g : κ → Option β) :
    ((keyed keys g).map Prod.fst).Nodup := by
  have hkeys : (keyed keys g).map Prod.fst = keys.filter fun k => (g k).isSome := by
    unfold keyed
    induction keys with
    | nil => rfl
    | cons key keys ih =>
      have htail := ih (List.Nodup.of_cons hnodup)
      cases hg : g key with
      | none => simpa [hg] using htail
      | some b => simpa [hg] using htail
  rw [hkeys]
  exact hnodup.filter _

def total (f : κ → δ → Int) (m : Docs κ δ) : Int :=
  (m.entries.map fun e => f e.1 e.2).sum

omit [DecidableEq κ] in
@[simp] theorem total_empty (f : κ → δ → Int) : total f (∅ : Docs κ δ) = 0 := rfl

theorem total_insert_of_lookup_none (f : κ → δ → Int) {m : Docs κ δ} {k : κ} {d : δ}
    (h : m.lookup k = none) : total f (m.insert k d) = f k d + total f m := by
  rw [total, Finmap.entries_insert_of_notMem (Finmap.lookup_eq_none.mp h)]
  simp [total]

theorem total_erase (f : κ → δ → Int) {m : Docs κ δ} {k : κ} {d : δ}
    (h : m.lookup k = some d) : total f m = f k d + total f (m.erase k) := by
  have hm : m = (m.erase k).insert k d := by
    apply Finmap.ext_lookup
    intro k'
    rw [lookup_insert_eq]
    split
    · rename_i hk
      rw [hk, h]
    · rename_i hk
      rw [Finmap.lookup_erase_ne hk]
  conv_lhs => rw [hm]
  exact total_insert_of_lookup_none f (Finmap.lookup_erase k m)

theorem total_modify (f : κ → δ → Int) {m : Docs κ δ} {k : κ} {d : δ} (g : δ → δ)
    (h : m.lookup k = some d) : total f (m.modify k g) = total f m - f k d + f k (g d) := by
  have hafter : (m.modify k g).lookup k = some (g d) := by simp [h]
  have herase : (m.modify k g).erase k = m.erase k := by
    apply Finmap.ext_lookup
    intro k'
    by_cases hk : k' = k
    · rw [hk, Finmap.lookup_erase, Finmap.lookup_erase]
    · rw [Finmap.lookup_erase_ne hk, Finmap.lookup_erase_ne hk]
      simp [hk]
  rw [total_erase f hafter, herase, total_erase f h]
  abel

theorem mem_entries_iff (m : Docs κ δ) (k : κ) (d : δ) :
    (⟨k, d⟩ : Sigma fun _ : κ => δ) ∈ m.entries ↔ m.lookup k = some d := by
  induction m using Finmap.induction_on with
  | H a =>
    rw [Finmap.lookup_toFinmap, ← Option.mem_def]
    exact AList.mem_lookup_iff.symm

theorem total_nonneg (f : κ → δ → Int) {m : Docs κ δ}
    (h : ∀ k d, m.lookup k = some d → 0 ≤ f k d) : 0 ≤ total f m := by
  apply Multiset.sum_nonneg
  intro x hx
  obtain ⟨⟨k, d⟩, hmem, rfl⟩ := Multiset.mem_map.mp hx
  exact h k d ((mem_entries_iff m k d).mp hmem)

theorem le_total (f : κ → δ → Int) {m : Docs κ δ}
    (h : ∀ k d, m.lookup k = some d → 0 ≤ f k d) {k : κ} {d : δ} (hk : m.lookup k = some d) :
    f k d ≤ total f m := by
  have hrest : 0 ≤ total f (m.erase k) := by
    apply total_nonneg
    intro k' d' hk'
    by_cases hne : k' = k
    · rw [hne, Finmap.lookup_erase] at hk'
      cases hk'
    · rw [Finmap.lookup_erase_ne hne] at hk'
      exact h k' d' hk'
  rw [total_erase f hk]
  exact le_add_of_nonneg_right hrest

theorem total_eq_zero {f : κ → δ → Int} {m : Docs κ δ}
    (h : ∀ k d, m.lookup k = some d → f k d = 0) : total f m = 0 := by
  apply Multiset.sum_eq_zero
  intro x hx
  obtain ⟨⟨k, d⟩, hmem, rfl⟩ := Multiset.mem_map.mp hx
  exact h k d ((mem_entries_iff m k d).mp hmem)

theorem total_eq_sum_keys (f : κ → δ → Int) (m : Docs κ δ) :
    total f m = ∑ k ∈ m.keys, ((m.lookup k).map (f k)).getD 0 := by
  have hkeys : m.keys.val = m.entries.map Sigma.fst := rfl
  rw [Finset.sum_eq_multiset_sum, hkeys, Multiset.map_map, total]
  apply congrArg Multiset.sum
  apply Multiset.map_congr rfl
  rintro ⟨k, d⟩ hmem
  have hk : m.lookup k = some d := (mem_entries_iff m k d).mp hmem
  simp [hk]

/-- A total depends on the documents only through the measure. -/
theorem total_eq_of_lookup {f : κ → δ → Int} {m m' : Docs κ δ}
    (h : ∀ k, (m.lookup k).map (f k) = (m'.lookup k).map (f k)) : total f m = total f m' := by
  have hkeys : m.keys = m'.keys := by
    ext k
    rw [Finmap.mem_keys, Finmap.mem_keys, ← Finmap.lookup_isSome, ← Finmap.lookup_isSome,
      ← Option.isSome_map (f := f k), h k, Option.isSome_map]
  rw [total_eq_sum_keys, total_eq_sum_keys, hkeys]
  apply Finset.sum_congr rfl
  intro k _
  rw [h k]

theorem total_congr {f g : κ → δ → Int} {m : Docs κ δ}
    (h : ∀ k d, m.lookup k = some d → f k d = g k d) : total f m = total g m := by
  rw [total_eq_sum_keys, total_eq_sum_keys]
  apply Finset.sum_congr rfl
  intro k _
  cases hk : m.lookup k with
  | none => rfl
  | some d => simp [h k d hk]

end Docs

end SwarmCloud.Lib
