import Mathlib.Algebra.GroupWithZero.Nat
import Mathlib.Data.List.Nodup
import Mathlib.Data.List.Induction

/-! # Dictionaries in insertion order

A dictionary is the list of its items. Setting a key that is there keeps its
place, a new key goes last; two dictionaries are the same mapping when they
look up alike.
-/

namespace SwarmCloud.Lib

universe u v

abbrev Dict (κ : Type u) (δ : Type v) := List (κ × δ)

namespace Dict

variable {κ : Type u} {δ : Type v} [DecidableEq κ]

def set (k : κ) (v : δ) : Dict κ δ → Dict κ δ
  | [] => [(k, v)]
  | (key, old) :: items => if key = k then (k, v) :: items else (key, old) :: set k v items

theorem lookup_set (d : Dict κ δ) (k k' : κ) (v : δ) :
    (d.set k v).lookup k' = if k' = k then some v else d.lookup k' := by
  induction d with
  | nil =>
    by_cases hk : k' = k
    · simp [set, hk]
    · simp [set, hk, List.lookup_cons, beq_false_of_ne hk]
  | cons item items ih =>
    obtain ⟨key, old⟩ := item
    rw [set]
    by_cases hkey : key = k
    · subst hkey
      by_cases hk : k' = key
      · simp [hk]
      · simp [hk, List.lookup_cons, beq_false_of_ne hk]
    · rw [if_neg hkey, List.lookup_cons, List.lookup_cons]
      by_cases hk : k' = key
      · subst hk
        simp [hkey]
      · simp [beq_false_of_ne hk, ih]

theorem keys_set (d : Dict κ δ) (k : κ) (v : δ) :
    (d.set k v).map Prod.fst = if k ∈ d.map Prod.fst then d.map Prod.fst else d.map Prod.fst ++ [k] := by
  induction d with
  | nil => rfl
  | cons item items ih =>
    obtain ⟨key, old⟩ := item
    rw [set]
    by_cases hkey : key = k
    · simp [hkey]
    · rw [if_neg hkey, List.map_cons, ih, List.map_cons]
      by_cases hk : k ∈ items.map Prod.fst
      · simp [hk]
      · rw [if_neg hk, if_neg (by simp [hk, Ne.symm hkey]), List.cons_append]

theorem mem_keys_set {d : Dict κ δ} {k k' : κ} {v : δ} (h : k' ∈ (d.set k v).map Prod.fst) :
    k' = k ∨ k' ∈ d.map Prod.fst := by
  rw [keys_set] at h
  split at h
  · exact .inr h
  · rcases List.mem_append.mp h with h | h
    · exact .inr h
    · exact .inl (List.mem_singleton.mp h)

theorem mem_keys_set_iff (d : Dict κ δ) (k k' : κ) (v : δ) :
    k' ∈ (d.set k v).map Prod.fst ↔ k' = k ∨ k' ∈ d.map Prod.fst := by
  refine ⟨mem_keys_set, fun h => ?_⟩
  rw [keys_set]
  split
  · rename_i hk
    rcases h with rfl | h
    · exact hk
    · exact h
  · rw [List.mem_append, List.mem_singleton]
    exact h.symm

theorem nodup_set {d : Dict κ δ} (h : (d.map Prod.fst).Nodup) (k : κ) (v : δ) :
    ((d.set k v).map Prod.fst).Nodup := by
  rw [keys_set]
  split
  · exact h
  · rename_i hk
    rw [List.nodup_append]
    refine ⟨h, List.nodup_singleton k, ?_⟩
    intro key hkey key' hkey' heq
    exact hk (List.mem_singleton.mp hkey' ▸ heq ▸ hkey)

theorem set_of_new {d : Dict κ δ} {k : κ} (h : k ∉ d.map Prod.fst) (v : δ) : d.set k v = d ++ [(k, v)] := by
  induction d with
  | nil => rfl
  | cons item items ih =>
    obtain ⟨key, old⟩ := item
    rw [List.map_cons, List.mem_cons, not_or] at h
    rw [set, if_neg (Ne.symm h.1), ih h.2, List.cons_append]

theorem mem_of_lookup {d : Dict κ δ} {k : κ} {v : δ} (h : d.lookup k = some v) : (k, v) ∈ d := by
  obtain ⟨before, after, rfl, -⟩ := List.lookup_eq_some_iff.mp h
  simp

theorem exists_lookup {d : Dict κ δ} {k : κ} {v : δ} (h : (k, v) ∈ d) : ∃ w, d.lookup k = some w := by
  cases hlookup : d.lookup k with
  | some w => exact ⟨w, rfl⟩
  | none =>
    rw [List.lookup_eq_none_iff] at hlookup
    exact absurd (hlookup _ h) (by simp)

theorem lookup_of_notMem {d : Dict κ δ} {k : κ} (h : k ∉ d.map Prod.fst) : d.lookup k = none := by
  rw [List.lookup_eq_none_iff]
  intro item hitem
  exact bne_iff_ne.mpr fun heq => h (List.mem_map.mpr ⟨item, hitem, heq.symm⟩)

theorem lookup_filter_ne (d : Dict κ δ) (k k' : κ) :
    List.lookup k' (d.filter (·.1 ≠ k)) = if k' = k then none else d.lookup k' := by
  induction d with
  | nil => simp
  | cons item d ih =>
    obtain ⟨key, v⟩ := item
    by_cases hkey : key = k
    · rw [List.filter_cons_of_neg (by simp [hkey]), ih]
      by_cases hk : k' = k
      · simp [hk]
      · simp [hk, List.lookup_cons, beq_false_of_ne (show k' ≠ key from hkey ▸ hk)]
    · rw [List.filter_cons_of_pos (by simp [hkey]), List.lookup_cons, List.lookup_cons, ih]
      by_cases hk : k' = key
      · simp [hk, hkey]
      · simp [beq_false_of_ne hk]

/-- The dictionary of a partial function over a list of keys. -/
theorem lookup_filterMap_keys (keys : List κ) (f : κ → Option δ) (k : κ) :
    List.lookup k (keys.filterMap fun key => (f key).map (key, ·)) = if k ∈ keys then f k else none := by
  induction keys with
  | nil => rfl
  | cons key keys ih =>
    rw [List.filterMap_cons]
    cases hf : f key with
    | none =>
      rw [Option.map_none, ih]
      by_cases hk : k = key
      · simp [hk, hf]
      · simp [hk]
    | some v =>
      rw [Option.map_some, List.lookup_cons, ih]
      by_cases hk : k = key
      · simp [hk, hf]
      · simp [hk, beq_false_of_ne hk]

/-- The values of the items rewritten under their keys. -/
theorem lookup_map_items {ν : Type*} (d : Dict κ δ) (f : κ → δ → ν) (k : κ) :
    List.lookup k (d.map fun item => (item.1, f item.1 item.2)) = (d.lookup k).map (f k) := by
  induction d with
  | nil => rfl
  | cons item d ih =>
    obtain ⟨key, v⟩ := item
    rw [List.map_cons, List.lookup_cons, List.lookup_cons]
    by_cases hk : k = key
    · simp [hk]
    · simp [beq_false_of_ne hk, ih]

theorem lookup_of_mem {d : Dict κ δ} (h : (d.map Prod.fst).Nodup) {k : κ} {v : δ} (hmem : (k, v) ∈ d) :
    d.lookup k = some v := by
  induction d with
  | nil => cases hmem
  | cons item d ih =>
    obtain ⟨key, value⟩ := item
    rw [List.map_cons, List.nodup_cons] at h
    rcases List.mem_cons.mp hmem with heq | hmem
    · obtain ⟨rfl, rfl⟩ := Prod.mk.inj heq
      exact List.lookup_cons_self
    · have hne : k ≠ key := fun heq => h.1 (List.mem_map.mpr ⟨(k, v), hmem, heq⟩)
      rw [List.lookup_cons, beq_false_of_ne hne]
      exact ih h.2 hmem

/-- The items of which a partial function keeps something, under their keys. -/
theorem lookup_filterMap_items {ν : Type*} {d : Dict κ δ} (h : (d.map Prod.fst).Nodup) (f : δ → Option ν) (k : κ) :
    List.lookup k (d.filterMap fun item => (f item.2).map (item.1, ·)) = (d.lookup k).bind f := by
  induction d with
  | nil => rfl
  | cons item d ih =>
    obtain ⟨key, v⟩ := item
    rw [List.map_cons, List.nodup_cons] at h
    rw [List.filterMap_cons, List.lookup_cons]
    by_cases hk : k = key
    · subst hk
      rw [beq_self_eq_true, Option.bind_some]
      cases hf : f v with
      | none =>
        rw [Option.map_none, ih h.2, lookup_of_notMem h.1]
        rfl
      | some w => rw [Option.map_some, List.lookup_cons_self]
    · rw [beq_false_of_ne hk]
      cases hf : f v with
      | none => rw [Option.map_none, ih h.2]
      | some w => rw [Option.map_some, List.lookup_cons, beq_false_of_ne hk, ih h.2]

/-- One dictionary written over another: `d.update(items)`. -/
theorem lookup_foldl_set {items : Dict κ δ} (h : (items.map Prod.fst).Nodup) (d : Dict κ δ) (k : κ) :
    List.lookup k (items.foldl (fun d item => Dict.set item.1 item.2 d) d) = (items.lookup k).or (d.lookup k) := by
  induction items generalizing d with
  | nil => rfl
  | cons item items ih =>
    obtain ⟨key, v⟩ := item
    rw [List.map_cons, List.nodup_cons] at h
    rw [List.foldl_cons, ih h.2, lookup_set, List.lookup_cons]
    by_cases hk : k = key
    · subst hk
      rw [lookup_of_notMem h.1]
      simp
    · simp [hk, beq_false_of_ne hk]

theorem nodup_foldl_set (items : Dict κ δ) {d : Dict κ δ} (h : (d.map Prod.fst).Nodup) :
    ((items.foldl (fun d item => Dict.set item.1 item.2 d) d).map Prod.fst).Nodup := by
  induction items generalizing d with
  | nil => exact h
  | cons item items ih => exact ih (nodup_set h item.1 item.2)

section Total

variable (w : κ → δ → Nat)

/-- The weights of the items together. -/
def total (d : Dict κ δ) : Nat := (d.map fun item => w item.1 item.2).sum

/-- A write gives the key its new weight in the place of the old one. -/
theorem total_set (d : Dict κ δ) (k : κ) (v : δ) :
    total w (d.set k v) + (d.lookup k).elim 0 (w k) = total w d + w k v := by
  induction d with
  | nil => simp [total, set]
  | cons item d ih =>
    obtain ⟨key, old⟩ := item
    rw [set]
    by_cases hkey : key = k
    · subst hkey
      simp only [total, if_pos, List.map_cons, List.sum_cons, List.lookup_cons_self, Option.elim_some]
      omega
    · rw [if_neg hkey, List.lookup_cons, beq_false_of_ne (Ne.symm hkey)]
      simp only [total, List.map_cons, List.sum_cons] at ih ⊢
      omega

end Total

section Grouped

variable {α : Type*} {ν : Type*} (key : α → κ) (val : α → ν)

/-- The values of a list under their keys: `setdefault(key, []).append(value)` for each item. -/
def grouped (items : List α) : Dict κ (List ν) :=
  items.foldl (fun d a => Dict.set (key a) ((d.lookup (key a)).getD [] ++ [val a]) d) []

theorem grouped_append_singleton (items : List α) (a : α) :
    grouped key val (items ++ [a]) =
      (grouped key val items).set (key a) (((grouped key val items).lookup (key a)).getD [] ++ [val a]) := by
  rw [grouped, List.foldl_append]
  rfl

theorem lookup_grouped (items : List α) (k : κ) :
    (grouped key val items).lookup k =
      match (items.filter fun a => key a = k).map val with
      | [] => none
      | v :: vs => some (v :: vs) := by
  induction items using List.reverseRecOn with
  | nil => rfl
  | append_singleton items a ih =>
    rw [grouped_append_singleton, lookup_set]
    by_cases hk : k = key a
    · subst hk
      rw [if_pos rfl, ih, List.filter_append, List.map_append]
      cases (items.filter fun b => key b = key a).map val <;> simp
    · rw [if_neg hk, ih, List.filter_append]
      have hnone : [a].filter (fun b => decide (key b = k)) = [] := by simp [Ne.symm hk]
      rw [hnone, List.append_nil]

theorem nodup_grouped (items : List α) : ((grouped key val items).map Prod.fst).Nodup := by
  induction items using List.reverseRecOn with
  | nil => exact List.nodup_nil
  | append_singleton items a ih =>
    rw [grouped_append_singleton]
    exact nodup_set ih _ _

theorem mem_grouped {items : List α} {a : α} (h : a ∈ items) : key a ∈ (grouped key val items).map Prod.fst := by
  have hsome : ((grouped key val items).lookup (key a)).isSome := by
    have hmem : val a ∈ (items.filter fun b => key b = key a).map val :=
      List.mem_map_of_mem (List.mem_filter.mpr ⟨h, decide_eq_true rfl⟩)
    rw [lookup_grouped]
    cases hvals : (items.filter fun b => key b = key a).map val with
    | nil => rw [hvals] at hmem; cases hmem
    | cons v vs => rfl
  obtain ⟨vs, hvs⟩ := Option.isSome_iff_exists.mp hsome
  exact List.mem_map_of_mem (mem_of_lookup hvs)

theorem mem_of_mem_grouped {items : List α} {k : κ} {vs : List ν} (h : (k, vs) ∈ grouped key val items) :
    vs = (items.filter fun a => key a = k).map val := by
  have hlookup := lookup_of_mem (nodup_grouped key val items) h
  rw [lookup_grouped] at hlookup
  cases hvals : (items.filter fun a => key a = k).map val with
  | nil => rw [hvals] at hlookup; cases hlookup
  | cons v rest =>
    rw [hvals] at hlookup
    exact (Option.some.inj hlookup).symm

theorem exists_group {items : List α} {a : α} (h : a ∈ items) :
    (key a, (items.filter fun b => key b = key a).map val) ∈ grouped key val items := by
  obtain ⟨⟨k, vs⟩, hmem, hk⟩ := List.mem_map.mp (mem_grouped key val h)
  cases hk
  rwa [← mem_of_mem_grouped key val hmem]

/-- A dictionary filled item by item: the last value of a key stays. -/
def filled (items : List α) : Dict κ ν := items.foldl (fun d a => Dict.set (key a) (val a) d) []

theorem filled_append_singleton (items : List α) (a : α) :
    filled key val (items ++ [a]) = (filled key val items).set (key a) (val a) := by
  rw [filled, List.foldl_append]
  rfl

theorem nodup_filled (items : List α) : ((filled key val items).map Prod.fst).Nodup := by
  induction items using List.reverseRecOn with
  | nil => exact List.nodup_nil
  | append_singleton items a ih =>
    rw [filled_append_singleton]
    exact nodup_set ih _ _

theorem mem_keys_filled (items : List α) (k : κ) : k ∈ (filled key val items).map Prod.fst ↔ k ∈ items.map key := by
  induction items using List.reverseRecOn with
  | nil => exact Iff.rfl
  | append_singleton items a ih =>
    rw [filled_append_singleton, mem_keys_set_iff, ih, List.map_append, List.map_singleton, List.mem_append,
      List.mem_singleton, or_comm]

/-- Where the key decides the value, the dictionary holds exactly the items. -/
theorem lookup_filled {items : List α} (hval : ∀ a ∈ items, ∀ b ∈ items, key a = key b → val a = val b) (k : κ)
    (v : ν) : (filled key val items).lookup k = some v ↔ ∃ a ∈ items, key a = k ∧ val a = v := by
  induction items using List.reverseRecOn with
  | nil => simp [filled]
  | append_singleton items a ih =>
    have hearlier := ih fun b hb b' hb' => hval b (List.mem_append_left _ hb) b' (List.mem_append_left _ hb')
    rw [filled_append_singleton, lookup_set]
    split
    · rename_i hk
      constructor
      · rintro ⟨⟩
        exact ⟨a, by simp, hk.symm, rfl⟩
      · rintro ⟨b, hb, hbk, rfl⟩
        exact congrArg some (hval a (by simp) b hb (hk.symm.trans hbk.symm))
    · rename_i hk
      rw [hearlier]
      constructor
      · rintro ⟨b, hb, hbk⟩
        exact ⟨b, List.mem_append_left _ hb, hbk⟩
      · rintro ⟨b, hb, hbk, hbv⟩
        rcases List.mem_append.mp hb with hb | hb
        · exact ⟨b, hb, hbk, hbv⟩
        · rw [List.mem_singleton.mp hb] at hbk
          exact absurd hbk.symm hk

/-- Every group has one value exactly when no two items share a key. -/
theorem grouped_small_iff (items : List α) :
    (∀ item ∈ grouped key val items, item.2.length < 2) ↔ (items.map key).Nodup := by
  have hcount : ∀ k, (items.map key).count k = ((items.filter fun a => key a = k).map val).length := by
    intro k
    rw [List.length_map, List.count, List.countP_map, List.countP_eq_length_filter]
    rfl
  rw [List.nodup_iff_count_le_one]
  constructor
  · intro hsmall k
    rw [hcount]
    cases hvals : (items.filter fun a => key a = k).map val with
    | nil => simp
    | cons v vs =>
      have hlookup : (grouped key val items).lookup k = some (v :: vs) := by rw [lookup_grouped, hvals]
      have := hsmall _ (mem_of_lookup hlookup)
      exact Nat.lt_succ_iff.mp this
  · rintro hone ⟨k, vs⟩ hitem
    have hlookup := lookup_of_mem (nodup_grouped key val items) hitem
    rw [lookup_grouped] at hlookup
    have hle := hone k
    rw [hcount] at hle
    cases hvals : (items.filter fun a => key a = k).map val with
    | nil =>
      rw [hvals] at hlookup
      cases hlookup
    | cons w ws =>
      rw [hvals] at hlookup hle
      obtain rfl := Option.some.inj hlookup
      exact Nat.lt_succ_of_le hle

end Grouped

end Dict

end SwarmCloud.Lib
