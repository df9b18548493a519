import Mathlib.Data.List.Nodup

/-! # Lists of records with distinct keys

A query's answer is a list in which a key names one record at most. These are
the facts about looking such records up by key, one at a time or many.
-/

namespace SwarmCloud.Lib

universe u v

variable {α : Type u} {κ : Type v} [DecidableEq κ] {key : α → κ} {l : List α} {a b : α}

theorem find?_key (hnodup : (l.map key).Nodup) (ha : a ∈ l) :
    l.find? (fun b => key b = key a) = some a := by
  cases hfind : l.find? (fun b => key b = key a) with
  | none =>
    rw [List.find?_eq_none] at hfind
    exact (hfind a ha (by simp)).elim
  | some b =>
    have hkey : key b = key a := by simpa using List.find?_some hfind
    rw [List.inj_on_of_nodup_map hnodup (List.mem_of_find?_eq_some hfind) ha hkey]

theorem filter_key (hnodup : (l.map key).Nodup) (ha : a ∈ l) :
    l.filter (fun b => key b = key a) = [a] := by
  induction l with
  | nil => cases ha
  | cons b l ih =>
    rw [List.map_cons, List.nodup_cons] at hnodup
    obtain rfl | ha := List.mem_cons.mp ha
    · rw [List.filter_cons_of_pos (by simp)]
      have hrest : l.filter (fun b => key b = key a) = [] := by
        rw [List.filter_eq_nil_iff]
        intro b hb heq
        exact hnodup.1 (List.mem_map.mpr ⟨b, hb, by simpa using heq⟩)
      rw [hrest]
    · have hne : key b ≠ key a := by
        intro heq
        exact hnodup.1 (heq ▸ List.mem_map_of_mem ha)
      rw [List.filter_cons_of_neg (by simpa using hne), ih hnodup.2 ha]

theorem filterMap_find?_key {ks : List κ} (hkeys : ∀ k ∈ ks, k ∈ l.map key) :
    (ks.filterMap fun k => l.find? (fun b => key b = k)).map key = ks := by
  induction ks with
  | nil => rfl
  | cons k ks ih =>
    obtain ⟨a, ha, rfl⟩ := List.mem_map.mp (hkeys k List.mem_cons_self)
    obtain ⟨b, hfind⟩ : ∃ b, l.find? (fun b => key b = key a) = some b := by
      rw [← Option.isSome_iff_exists, List.find?_isSome]
      exact ⟨a, ha, by simp⟩
    have hkey : key b = key a := by simpa using List.find?_some hfind
    simp only [List.filterMap_cons, hfind, List.map_cons, hkey,
      ih fun k hk => hkeys k (List.mem_cons_of_mem _ hk)]

theorem mem_of_mem_filterMap_find? {ks : List κ}
    (h : a ∈ ks.filterMap fun k => l.find? (fun b => key b = k)) : a ∈ l := by
  obtain ⟨k, -, hfind⟩ := List.mem_filterMap.mp h
  exact List.mem_of_find?_eq_some hfind

end SwarmCloud.Lib
