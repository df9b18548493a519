import Mathlib.Data.List.Basic

/-! # Trees as maps from paths

A path is the list of the names that lead to it from a root, and a tree gives
each path what stands there. Where only directories stand above an entry, a
removal takes everything below a path with it.
-/

namespace SwarmCloud.Lib

universe u v

abbrev PathMap (α : Type u) (ν : Type v) := List α → Option ν

namespace PathMap

variable {α : Type u} {ν : Type v}

def empty : PathMap α ν := fun _ => none

/-- The path `p` lies between the root and the path `q`. -/
def Above (p q : List α) : Prop := p ≠ [] ∧ p <+: q ∧ p ≠ q

def PartOf (m n : PathMap α ν) : Prop := ∀ path entry, m path = some entry → n path = some entry

def Closed (dir : ν) (m : PathMap α ν) : Prop :=
  ∀ path entry, m path = some entry → ∀ above, Above above path → m above = some dir

/-! ## The order of the paths -/

theorem Above.trans {p q r : List α} (hpq : Above p q) (hqr : q <+: r) : Above p r := by
  obtain ⟨hne, hbelow, hproper⟩ := hpq
  refine ⟨hne, hbelow.trans hqr, ?_⟩
  rintro rfl
  exact hproper (hbelow.eq_of_length_le hqr.length_le)

theorem eq_or_above {p q : List α} (hne : p ≠ []) (h : p <+: q) : p = q ∨ Above p q := by
  by_cases heq : p = q
  · exact .inl heq
  · exact .inr ⟨hne, h, heq⟩

theorem Above.prefix_dropLast {p q : List α} (h : Above p q) : p <+: q.dropLast := by
  obtain ⟨-, ⟨rest, rfl⟩, hproper⟩ := h
  have hrest : rest ≠ [] := by
    rintro rfl
    exact hproper (List.append_nil p).symm
  rw [List.dropLast_append_of_ne_nil hrest]
  exact List.prefix_append _ _

theorem above_of_prefix_dropLast {p q : List α} (hne : p ≠ []) (h : p <+: q.dropLast) : Above p q := by
  refine ⟨hne, h.trans (List.dropLast_prefix q), ?_⟩
  rintro rfl
  have hlength := h.length_le
  have hpos := List.length_pos_iff.mpr hne
  rw [List.length_dropLast] at hlength
  omega

/-! ## Parts of a tree -/

section Parts

variable {m n : PathMap α ν} {dir : ν}

theorem PartOf.refl (m : PathMap α ν) : PartOf m m := fun _ _ h => h

theorem PartOf.trans {o : PathMap α ν} (hmn : PartOf m n) (hno : PartOf n o) : PartOf m o :=
  fun path entry h => hno path entry (hmn path entry h)

theorem PartOf.empty : PartOf empty m := fun _ _ h => nomatch h

/-- A part that holds every entry is the whole. -/
theorem PartOf.eq_of_all (h : PartOf m n) (hall : ∀ path entry, n path = some entry → m path = some entry) :
    m = n := by
  funext path
  cases hm : m path with
  | some entry => exact (h path entry hm).symm
  | none =>
    cases hn : n path with
    | none => rfl
    | some entry =>
      rw [hall path entry hn] at hm
      cases hm

theorem Closed.empty : Closed dir (empty : PathMap α ν) := fun _ _ h => nomatch h

/-- Nothing stands below what is no directory. -/
theorem Closed.none_below (h : Closed dir m) {p q : List α} (hp : m p ≠ some dir) (hpq : Above p q) : m q = none := by
  cases hq : m q with
  | none => rfl
  | some entry => exact absurd (h q entry hq p hpq) hp

end Parts

/-! ## Operations -/

section Operations

variable [DecidableEq α] {m n : PathMap α ν} {dir : ν}

instance (p q : List α) : Decidable (Above p q) := inferInstanceAs (Decidable (_ ∧ _ ∧ _))

def place (m : PathMap α ν) (p : List α) (entry : ν) : PathMap α ν := fun q => if q = p then some entry else m q

def remove (m : PathMap α ν) (p : List α) : PathMap α ν := fun q => if q = p then none else m q

/-- The path and everything below it go. -/
def removeBelow (m : PathMap α ν) (p : List α) : PathMap α ν := fun q => if p <+: q then none else m q

/-- The directories that are missing above the path are made. -/
def withParents (dir : ν) (m : PathMap α ν) (p : List α) : PathMap α ν :=
  fun q => if Above q p ∧ (m q).isNone then some dir else m q

theorem place_self (p : List α) (entry : ν) : m.place p entry p = some entry := if_pos rfl

theorem place_other {p q : List α} (h : q ≠ p) (entry : ν) : m.place p entry q = m q := if_neg h

theorem place_of_some {p : List α} {entry : ν} (h : m p = some entry) : m.place p entry = m := by
  funext q
  by_cases hq : q = p
  · rw [hq, place_self, h]
  · exact place_other hq entry

theorem PartOf.place (h : PartOf m n) {p : List α} {entry : ν} (hp : n p = some entry) :
    PartOf (m.place p entry) n := by
  intro path e hpath
  by_cases heq : path = p
  · rw [heq, place_self] at hpath
    rw [heq, hp, hpath]
  · rw [place_other heq] at hpath
    exact h path e hpath

theorem PartOf.place_self (h : PartOf m n) {p : List α} {entry : ν} (hp : n p = some entry) :
    PartOf m (m.place p entry) := by
  intro path e hpath
  by_cases heq : path = p
  · rw [heq] at hpath
    have hsame := h p e hpath
    rw [hp] at hsame
    rw [heq, PathMap.place_self, hsame]
  · rwa [place_other heq]

theorem removeBelow_eq_none {p q : List α} (h : p <+: q) : m.removeBelow p q = none := if_pos h

theorem removeBelow_other {p q : List α} (h : ¬ p <+: q) : m.removeBelow p q = m q := if_neg h

theorem partOf_removeBelow (m : PathMap α ν) (p : List α) : PartOf (m.removeBelow p) m := by
  intro path entry h
  by_cases hp : p <+: path
  · rw [removeBelow_eq_none hp] at h
    cases h
  · rwa [removeBelow_other hp] at h

theorem Closed.removeBelow (h : Closed dir m) (p : List α) : Closed dir (m.removeBelow p) := by
  intro path entry hpath above habove
  by_cases hp : p <+: path
  · rw [removeBelow_eq_none hp] at hpath
    cases hpath
  · rw [removeBelow_other hp] at hpath
    rw [removeBelow_other fun hpre => hp (hpre.trans habove.2.1)]
    exact h path entry hpath above habove

/-- Where nothing stands, and nothing but directories stands above anything, there is nothing to remove. -/
theorem Closed.removeBelow_of_none (h : Closed dir m) {p : List α} (hne : p ≠ []) (hp : m p = none) :
    m.removeBelow p = m := by
  funext q
  by_cases hpq : p <+: q
  · rw [removeBelow_eq_none hpq]
    rcases eq_or_above hne hpq with rfl | habove
    · exact hp.symm
    · exact (h.none_below (by rw [hp]; exact nofun) habove).symm
  · exact removeBelow_other hpq

/-- What is no directory goes alone. -/
theorem Closed.remove_eq (h : Closed dir m) {p : List α} (hne : p ≠ []) (hp : m p ≠ some dir) :
    m.remove p = m.removeBelow p := by
  funext q
  by_cases hpq : p <+: q
  · rw [removeBelow_eq_none hpq]
    rcases eq_or_above hne hpq with rfl | habove
    · exact if_pos rfl
    · exact (if_neg fun heq => habove.2.2 heq.symm).trans (h.none_below hp habove)
  · rw [removeBelow_other hpq]
    refine if_neg ?_
    rintro rfl
    exact hpq List.prefix_rfl

theorem foldl_removeBelow (m : PathMap α ν) (ps : List (List α)) (q : List α) :
    ps.foldl PathMap.removeBelow m q = if ∃ p ∈ ps, p <+: q then none else m q := by
  induction ps generalizing m with
  | nil => simp
  | cons p ps ih =>
    rw [List.foldl_cons, ih]
    by_cases hp : p <+: q
    · rw [removeBelow_eq_none hp, ite_self, if_pos ⟨p, List.mem_cons_self, hp⟩]
    · rw [removeBelow_other hp]
      simp [hp]

theorem Closed.foldl_removeBelow (h : Closed dir m) (ps : List (List α)) :
    Closed dir (ps.foldl PathMap.removeBelow m) := by
  induction ps generalizing m with
  | nil => exact h
  | cons p ps ih => exact ih (h.removeBelow p)

theorem foldl_removeBelow_eq_some {m : PathMap α ν} {ps : List (List α)} {q : List α} {entry : ν} :
    ps.foldl PathMap.removeBelow m q = some entry ↔ (∀ p ∈ ps, ¬ p <+: q) ∧ m q = some entry := by
  rw [foldl_removeBelow]
  split
  · rename_i h
    obtain ⟨p, hp, hpq⟩ := h
    constructor
    · exact nofun
    · exact fun hall => absurd hpq (hall.1 p hp)
  · rename_i h
    constructor
    · exact fun hq => ⟨fun p hp hpq => h ⟨p, hp, hpq⟩, hq⟩
    · exact fun hall => hall.2

theorem withParents_of_some {p q : List α} {entry : ν} (h : m q = some entry) : m.withParents dir p q = some entry := by
  rw [withParents, if_neg (by simp [h])]
  exact h

theorem withParents_other {p q : List α} (h : ¬ Above q p) : m.withParents dir p q = m q := if_neg fun hq => h hq.1

theorem withParents_eq (m : PathMap α ν) (dir : ν) (p q : List α) :
    m.withParents dir p q = m q ∨ m.withParents dir p q = some dir ∧ Above q p := by
  unfold withParents
  split
  · rename_i h
    exact .inr ⟨rfl, h.1⟩
  · exact .inl rfl

theorem PartOf.withParents (h : PartOf m n) (hclosed : Closed dir n) {p : List α} {entry : ν} (hp : n p = some entry) :
    PartOf (m.withParents dir p) n := by
  intro q e hq
  rcases withParents_eq m dir p q with hsame | ⟨hdir, habove⟩
  · rw [hsame] at hq
    exact h q e hq
  · rw [hdir, Option.some.injEq] at hq
    rw [hclosed p entry hp q habove, hq]

end Operations

end PathMap

end SwarmCloud.Lib
