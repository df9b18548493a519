import Mathlib.Data.List.Sort
import Mathlib.Order.Basic

/-! # Sorting a list by a key

The sort is stable, so entries with equal keys keep their order. The working
facts are that it permutes its input and that its head has the least key. The
second half is about strictly sorted lists: how far two of them agree when one
lacks entries of the other only beyond a cut.
-/

namespace SwarmCloud.Lib

universe u v

variable {α : Type u} {κ : Type v} [LinearOrder κ]

def sortBy (key : α → κ) (l : List α) : List α :=
  l.insertionSort fun a b => key a ≤ key b

variable {key : α → κ} {l t : List α} {a b : α}

theorem sortBy_perm (key : α → κ) (l : List α) : (sortBy key l).Perm l :=
  List.perm_insertionSort _ l

@[simp] theorem mem_sortBy : a ∈ sortBy key l ↔ a ∈ l :=
  List.mem_insertionSort _

@[simp] theorem length_sortBy : (sortBy key l).length = l.length :=
  List.length_insertionSort _ l

theorem sortBy_pairwise (key : α → κ) (l : List α) :
    (sortBy key l).Pairwise fun a b => key a ≤ key b := by
  have htotal : Std.Total fun a b : α => key a ≤ key b := ⟨fun a b => le_total _ _⟩
  have htrans : IsTrans α fun a b => key a ≤ key b := ⟨fun _ _ _ => le_trans⟩
  exact List.pairwise_insertionSort _ l

/-- What stands beside the key has no part in the sorting. -/
theorem sortBy_map {β : Type*} (f : α → β) (key : β → κ) (l : List α) :
    sortBy key (l.map f) = (sortBy (fun a => key (f a)) l).map f :=
  (List.map_insertionSort _ (fun a b => key a ≤ key b) f l fun _ _ _ _ => Iff.rfl).symm

theorem sortBy_head_least (h : sortBy key l = a :: t) (hb : b ∈ l) : key a ≤ key b := by
  have hsorted := sortBy_pairwise key l
  rw [h, List.pairwise_cons] at hsorted
  rw [← @mem_sortBy _ _ _ key, h, List.mem_cons] at hb
  obtain rfl | hb := hb
  · exact le_rfl
  · exact hsorted.1 b hb

/-- Where the key tells the entries apart, the sort forgets the order they came in. -/
theorem sortBy_eq_of_perm (hperm : l.Perm t) (hkey : ∀ a ∈ l, ∀ b ∈ l, key a = key b → a = b) :
    sortBy key l = sortBy key t := by
  refine List.Perm.eq_of_pairwise ?_ (sortBy_pairwise key l) (sortBy_pairwise key t) ?_
  · intro a b ha hb hab hba
    exact hkey a (mem_sortBy.mp ha) b (hperm.mem_iff.mpr (mem_sortBy.mp hb)) (le_antisymm hab hba)
  · exact (sortBy_perm key l).trans (hperm.trans (sortBy_perm key t).symm)

section Direction

variable {descending : Bool} {x y z : κ}

/-- The strict order a listing runs in. -/
def dirLt (descending : Bool) (x y : κ) : Prop := if descending then y < x else x < y

instance (x y : κ) : Decidable (dirLt descending x y) :=
  inferInstanceAs (Decidable (if descending then y < x else x < y))

theorem dirLt_irrefl (x : κ) : ¬ dirLt descending x x := by
  cases descending <;> exact lt_irrefl x

theorem dirLt_trans (hxy : dirLt descending x y) (hyz : dirLt descending y z) :
    dirLt descending x z := by
  cases descending with
  | false => exact lt_trans hxy hyz
  | true => exact lt_trans hyz hxy

theorem dirLt_trichotomy (x y : κ) :
    dirLt descending x y ∨ x = y ∨ dirLt descending y x := by
  cases descending with
  | false => exact lt_trichotomy x y
  | true =>
    obtain h | h | h := lt_trichotomy y x
    · exact .inl h
    · exact .inr (.inl h.symm)
    · exact .inr (.inr h)

theorem not_dirLt_of_ge (h : if descending then y ≤ x else x ≤ y) : ¬ dirLt descending y x := by
  cases descending with
  | false => exact not_lt.mpr h
  | true => exact not_lt.mpr h

end Direction

section Cut

variable {r : α → α → Prop} {c : α → Bool} {s : List α}

theorem filter_append_of_cut (hsorted : l.Pairwise r)
    (hdown : ∀ a b, r a b → c b = true → c a = true) :
    l.filter c ++ l.filter (fun a => !c a) = l := by
  induction l with
  | nil => rfl
  | cons a l ih =>
    rw [List.pairwise_cons] at hsorted
    cases ha : c a with
    | true => rw [List.filter_cons_of_pos ha, List.filter_cons_of_neg (by simp [ha]),
        List.cons_append, ih hsorted.2]
    | false =>
      have hnone : l.filter c = [] := by
        rw [List.filter_eq_nil_iff]
        intro b hb hcb
        exact absurd (hdown a b (hsorted.1 b hb) hcb) (by simp [ha])
      have hall : l.filter (fun a => !c a) = l := by
        have h := ih hsorted.2
        rwa [hnone, List.nil_append] at h
      rw [List.filter_cons_of_neg (by simp [ha]), List.filter_cons_of_pos (by simp [ha]), hnone,
        hall, List.nil_append]

/-- A sorted list reaches its cut no earlier than any of its entries before it. -/
theorem lt_length_filter_of_cut {n : Nat} (hsorted : l.Pairwise r)
    (hdown : ∀ a b, r a b → c b = true → c a = true) (hget : l[n]? = some a)
    (hcut : c a = true) : n < (l.filter c).length := by
  rw [← filter_append_of_cut hsorted hdown] at hget
  by_contra hge
  rw [List.getElem?_append_right (not_lt.mp hge)] at hget
  have hmem := List.mem_of_getElem? hget
  rw [List.mem_filter] at hmem
  exact absurd hcut (by simpa using hmem.2)

/-- Two strictly sorted lists with the same entries before a cut agree up to it. -/
theorem take_eq_of_cut [Std.Irrefl r] [Std.Antisymm r] {n : Nat} (hl : l.Pairwise r)
    (hs : s.Pairwise r) (hdown : ∀ a b, r a b → c b = true → c a = true)
    (hmem : ∀ a, c a = true → (a ∈ l ↔ a ∈ s)) (hn : n ≤ (l.filter c).length) :
    l.take n = s.take n := by
  have heq : l.filter c = s.filter c := by
    apply (hl.filter c).eq_of_mem_iff (hs.filter c)
    intro a
    rw [List.mem_filter, List.mem_filter]
    constructor
    · rintro ⟨ha, hca⟩
      exact ⟨(hmem a hca).mp ha, hca⟩
    · rintro ⟨ha, hca⟩
      exact ⟨(hmem a hca).mpr ha, hca⟩
  rw [← filter_append_of_cut hl hdown, ← filter_append_of_cut hs hdown, heq,
    List.take_append_of_le_length (heq ▸ hn), List.take_append_of_le_length (heq ▸ hn)]

end Cut

end SwarmCloud.Lib
