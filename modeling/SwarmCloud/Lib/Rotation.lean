import Mathlib.Data.List.Sort
import Mathlib.Data.Nat.Basic
import Mathlib.Order.Basic
import Mathlib.Tactic.Common

/-! # A window that moves through a sorted list

Each turn reads a page of the entries past a cursor. A full page leaves its last
entry as the cursor, a short one sends the next turn back to the top. A turn may
stop part-way, and then the cursor is the last entry that it took. Over an
unchanged list every entry is soon read; over a list that changes, an entry that
stays is taken between any two times that another one is.
-/

namespace SwarmCloud.Lib.Rotation

universe u

variable {α : Type u} [LinearOrder α]

/-- The entries past a cursor, which need not be an entry. -/
def past (after : Option α) (xs : List α) : List α := xs.filter fun x => !after.any (x ≤ ·)

def page (size : Nat) (after : Option α) (xs : List α) : List α := (past after xs).take size

def nextStart (size : Nat) (read : List α) : Option α := if size ≤ read.length then read.getLast? else none

variable {size : Nat} {xs : List α} {after next : Option α} {x y z : α}

def Passed (after : Option α) (x : α) : Prop := ∃ c ∈ after, x ≤ c

@[simp] theorem passed_none : ¬Passed none x := by
  simp [Passed]

@[simp] theorem passed_some : Passed (some z) x ↔ x ≤ z := by
  simp [Passed]

theorem Passed.of_le (h : Passed after y) (hle : x ≤ y) : Passed after x := by
  obtain ⟨c, hc, hy⟩ := h
  exact ⟨c, hc, hle.trans hy⟩

theorem mem_past : x ∈ past after xs ↔ x ∈ xs ∧ ¬Passed after x := by
  rw [past, List.mem_filter]
  cases after <;> simp

theorem pairwise_past (h : xs.Pairwise (· < ·)) (after : Option α) : (past after xs).Pairwise (· < ·) := h.filter _

@[simp] theorem past_none (xs : List α) : past none xs = xs := by
  simp [past]

theorem past_suffix (h : xs.Pairwise (· < ·)) (after : Option α) : past after xs <:+ xs := by
  induction xs with
  | nil => exact List.suffix_refl _
  | cons x xs ih =>
    obtain ⟨hx, hxs⟩ := List.pairwise_cons.mp h
    by_cases hpassed : after.any (x ≤ ·) = true
    · have htail : past after (x :: xs) = past after xs := by
        rw [past, List.filter_cons, if_neg (by simp [hpassed]), past]
      rw [htail]
      exact (ih hxs).trans (List.suffix_cons x xs)
    · have hall : past after (x :: xs) = x :: xs := by
        rw [past, List.filter_eq_self]
        intro y hy
        have hle : x ≤ y := by
          rcases List.mem_cons.mp hy with rfl | hy
          · exact le_rfl
          · exact (hx y hy).le
        cases after with
        | none => rfl
        | some c =>
          have hcx : c < x := by simpa using hpassed
          simpa using hcx.trans_le hle
      exact hall.symm ▸ List.suffix_refl (x :: xs)

/-- An entry is among those past the cursor, or among the first ones, as many as are not. -/
theorem exists_index (h : xs.Pairwise (· < ·)) (after : Option α) (hx : x ∈ xs) :
    (∃ i : Nat, (past after xs)[i]? = some x) ∨ ∃ i : Nat, xs[i]? = some x ∧ i + (past after xs).length < xs.length := by
  obtain ⟨front, hfront⟩ := past_suffix h after
  have hlength := congrArg List.length hfront
  rw [List.length_append] at hlength
  rw [← hfront] at hx
  rcases List.mem_append.mp hx with hx | hx
  · obtain ⟨i, hi, hxi⟩ := List.mem_iff_getElem.mp hx
    refine .inr ⟨i, ?_, by omega⟩
    rw [← hfront, List.getElem?_append_left hi, List.getElem?_eq_getElem hi, hxi]
  · exact .inl (List.mem_iff_getElem?.mp hx)

/-! ## An unchanged list -/

section Still

/-- A full page moves the cursor by the page's length. -/
theorem past_nextStart (h : xs.Pairwise (· < ·)) (hsize : 1 ≤ size) (hfull : size ≤ (past after xs).length) :
    past (nextStart size (page size after xs)) xs = (past after xs).drop size := by
  have hlength : (page size after xs).length = size := by
    rw [page, List.length_take, min_eq_left hfull]
  have hne : page size after xs ≠ [] := by
    apply List.ne_nil_of_length_pos
    omega
  obtain ⟨front, last, hpage⟩ : ∃ front last, page size after xs = front ++ [last] :=
    ⟨_, _, (List.dropLast_append_getLast hne).symm⟩
  rw [nextStart, if_pos hlength.ge, hpage, List.getLast?_concat]
  have hsplit : past after xs = (front ++ [last]) ++ (past after xs).drop size := by
    rw [← hpage, page, List.take_append_drop]
  have hsorted := pairwise_past h after
  rw [hsplit, List.pairwise_append] at hsorted
  obtain ⟨hleft, hright, hcross⟩ := hsorted
  refine (pairwise_past h _).eq_of_mem_iff hright fun y => ?_
  rw [mem_past, passed_some, not_le]
  constructor
  · rintro ⟨hy, hlt⟩
    have hlast : last ∈ past after xs := by
      rw [hsplit]
      simp
    have hpast : y ∈ past after xs :=
      mem_past.mpr ⟨hy, fun hpassed => (mem_past.mp hlast).2 (hpassed.of_le hlt.le)⟩
    rw [hsplit, List.mem_append] at hpast
    refine hpast.resolve_left fun hfront => ?_
    rcases List.mem_append.mp hfront with hfront | hfront
    · have hlt' := (List.pairwise_append.mp hleft).2.2 y hfront last (List.mem_singleton_self last)
      exact absurd hlt hlt'.asymm
    · exact absurd (List.mem_singleton.mp hfront) hlt.ne'
  · intro hy
    refine ⟨(mem_past.mp (List.mem_of_mem_drop hy)).1, hcross last ?_ y hy⟩
    simp

/-- The turns over one list, each from where the last one left the cursor. -/
def Turns (size : Nat) (xs : List α) (cursor : Nat → Option α) : Prop :=
  ∀ k, cursor (k + 1) = nextStart size (page size (cursor k) xs)

variable {cursor : Nat → Option α} {j : Nat}

theorem Turns.past_add (hturns : Turns size xs cursor) (h : xs.Pairwise (· < ·)) (hsize : 1 ≤ size) {k : Nat}
    (hk : k * size ≤ (past (cursor j) xs).length) :
    past (cursor (j + k)) xs = (past (cursor j) xs).drop (k * size) := by
  induction k with
  | zero => simp
  | succ k ih =>
    rw [Nat.succ_mul] at hk
    have hprev := ih (by omega)
    have hfull : size ≤ (past (cursor (j + k)) xs).length := by
      rw [hprev, List.length_drop]
      omega
    rw [← Nat.add_assoc, hturns, past_nextStart h hsize hfull, hprev, List.drop_drop, Nat.succ_mul]

/-- An entry past the cursor is on the page that its index falls on. -/
theorem Turns.mem_page (hturns : Turns size xs cursor) (h : xs.Pairwise (· < ·)) (hsize : 1 ≤ size) {i : Nat}
    (hx : (past (cursor j) xs)[i]? = some x) : x ∈ page size (cursor (j + i / size)) xs := by
  have hi := (List.getElem?_eq_some_iff.mp hx).1
  have hdiv := Nat.div_mul_le_self i size
  have hmod := Nat.mod_lt i hsize
  have hsum := Nat.div_add_mod' i size
  rw [page, hturns.past_add h hsize (by omega), List.mem_iff_getElem?]
  refine ⟨i % size, ?_⟩
  rw [List.getElem?_take_of_lt hmod, List.getElem?_drop, hsum, hx]

/-- Once all that lies past the cursor is read, the next page starts at the top. -/
theorem Turns.wraps (hturns : Turns size xs cursor) (h : xs.Pairwise (· < ·)) (hsize : 1 ≤ size) :
    cursor (j + (past (cursor j) xs).length / size + 1) = none := by
  have hdiv := Nat.div_mul_le_self (past (cursor j) xs).length size
  have hlt := Nat.lt_div_mul_add (a := (past (cursor j) xs).length) hsize
  rw [hturns, nextStart, if_neg]
  rw [page, List.length_take, hturns.past_add h hsize hdiv, List.length_drop]
  omega

/-- Every entry is read within a page's share of the list and two turns more. -/
theorem Turns.reached_within (hturns : Turns size xs cursor) (h : xs.Pairwise (· < ·)) (hsize : 1 ≤ size)
    (hx : x ∈ xs) : ∃ k < xs.length / size + 2, x ∈ page size (cursor (j + k)) xs := by
  have hsub : (past (cursor j) xs).length ≤ xs.length := (past_suffix h _).length_le
  rcases exists_index h (cursor j) hx with ⟨i, hi⟩ | ⟨i, hi, hroom⟩
  · refine ⟨i / size, ?_, hturns.mem_page h hsize hi⟩
    have hlt := (List.getElem?_eq_some_iff.mp hi).1
    have hle : i / size ≤ xs.length / size := Nat.div_le_div_right (hlt.le.trans hsub)
    omega
  · have htop := hturns.wraps (j := j) h hsize
    have hread : x ∈ page size (cursor (j + (past (cursor j) xs).length / size + 1 + i / size)) xs := by
      refine hturns.mem_page h hsize ?_
      rw [htop, past_none]
      exact hi
    refine ⟨(past (cursor j) xs).length / size + 1 + i / size, ?_, ?_⟩
    · have hle : ((past (cursor j) xs).length + i) / size ≤ xs.length / size := Nat.div_le_div_right (by omega)
      have hsum : (past (cursor j) xs).length / size + i / size ≤ ((past (cursor j) xs).length + i) / size :=
        Nat.div_add_div_le_add_div
      omega
    · rw [← Nat.add_assoc, ← Nat.add_assoc]
      exact hread

end Still

/-! ## A list that changes between the turns -/

/-- A turn takes the first entries past the cursor, in order. It leaves the cursor at the last one that it took, or at
the top when it took all there are. -/
structure Turn (xs : List α) (after next : Option α) (taken : List α) : Prop where
  front : taken <+: past after xs
  cursor : (next = none ∧ taken = past after xs) ∨ (next = after ∧ taken = []) ∨
    ∃ last, next = some last ∧ taken.getLast? = some last

variable {taken : List α}

/-- The entry comes before the next time that the other one does: the cursor stands, going round, at the other one or
past it, and before this one. -/
def Due (x y : α) (after : Option α) : Prop :=
  (x < y → Passed after x ∧ ¬Passed after y) ∧ (y < x → Passed after y → Passed after x)

namespace Turn

theorem not_passed (hturn : Turn xs after next taken) (hx : x ∈ taken) : ¬Passed after x :=
  (mem_past.mp (hturn.front.subset hx)).2

/-- What lies before a taken entry, and past the cursor, is taken too. -/
theorem mem_of_le (hturn : Turn xs after next taken) (h : xs.Pairwise (· < ·)) (hy : y ∈ xs)
    (hpast : ¬Passed after y) (hz : z ∈ taken) (hle : y ≤ z) : y ∈ taken := by
  obtain ⟨rest, hrest⟩ := hturn.front
  have hsorted := pairwise_past h after
  have hmem : y ∈ past after xs := mem_past.mpr ⟨hy, hpast⟩
  rw [← hrest] at hsorted hmem
  refine (List.mem_append.mp hmem).resolve_right fun hlater => ?_
  exact absurd hle ((List.pairwise_append.mp hsorted).2.2 z hz y hlater).not_ge

/-- An entry that is due stays so over a turn that does not take it, and the other one is not taken. -/
theorem due_kept (hturn : Turn xs after next taken) (h : xs.Pairwise (· < ·)) (hdue : Due x y after) (hne : x ≠ y)
    (hy : y ∈ xs) (hnot : y ∉ taken) : x ∉ taken ∧ Due x y next := by
  have hother : x ∉ taken := by
    intro hx
    have hpast := hturn.not_passed hx
    rcases hne.lt_or_gt with hlt | hgt
    · exact hpast (hdue.1 hlt).1
    · exact hnot (hturn.mem_of_le h hy (fun hpassed => hpast (hdue.2 hgt hpassed)) hx hgt.le)
  refine ⟨hother, ?_⟩
  rcases hturn.cursor with ⟨hnext, hall⟩ | ⟨hnext, -⟩ | ⟨last, hnext, hlast⟩
  · rw [hnext]
    refine ⟨fun hlt => ?_, fun _ hpassed => absurd hpassed passed_none⟩
    exact absurd (hall ▸ mem_past.mpr ⟨hy, (hdue.1 hlt).2⟩) hnot
  · rwa [hnext]
  · have hmem := List.mem_of_getLast? hlast
    have hpast := hturn.not_passed hmem
    rw [hnext, Due, passed_some, passed_some]
    constructor
    · intro hlt
      obtain ⟨hpassed, hopen⟩ := hdue.1 hlt
      refine ⟨?_, fun hle => hnot (hturn.mem_of_le h hy hopen hmem hle)⟩
      exact le_of_not_ge fun hle => hpast (hpassed.of_le hle)
    · intro hgt hle
      have hpassed : Passed after y := by
        by_contra hopen
        exact hnot (hturn.mem_of_le h hy hopen hmem hle)
      exact le_of_not_ge fun hle' => hpast ((hdue.2 hgt hpassed).of_le hle')

/-- Once an entry is taken, every other one that the rest of the turn does not take is due. -/
theorem due_of_taken (hturn : Turn xs after next taken) (h : xs.Pairwise (· < ·)) {front rest : List α}
    (htaken : taken = front ++ x :: rest) (hne : x ≠ y) (hy : y ∈ xs) (hnot : y ∉ rest) : Due x y next := by
  have hx : x ∈ taken := by
    rw [htaken]
    exact List.mem_append_right _ List.mem_cons_self
  have hsorted : (front ++ x :: rest).Pairwise (· < ·) := htaken ▸ (pairwise_past h after).sublist hturn.front.sublist
  have hpast := hturn.not_passed hx
  have hlater : x < y → y ∉ taken := by
    intro hlt hmem
    rw [htaken, List.mem_append, List.mem_cons] at hmem
    rcases hmem with hmem | hmem | hmem
    · exact hlt.asymm ((List.pairwise_append.mp hsorted).2.2 y hmem x List.mem_cons_self)
    · exact hne hmem.symm
    · exact hnot hmem
  have hopen : x < y → ¬Passed after y := fun hlt hpassed => hpast (hpassed.of_le hlt.le)
  rcases hturn.cursor with ⟨hnext, hall⟩ | ⟨-, hnil⟩ | ⟨last, hnext, hlast⟩
  · rw [hnext]
    refine ⟨fun hlt => ?_, fun _ hpassed => absurd hpassed passed_none⟩
    exact absurd (hall ▸ mem_past.mpr ⟨hy, hopen hlt⟩) (hlater hlt)
  · rw [hnil] at hx
    exact absurd hx List.not_mem_nil
  · have hend : x ≤ last := by
      rw [htaken, List.getLast?_append_of_ne_nil _ (List.cons_ne_nil x rest)] at hlast
      rcases List.mem_cons.mp (List.mem_of_getLast? hlast) with heq | hmem
      · exact heq.ge
      · exact ((List.pairwise_cons.mp (List.pairwise_append.mp hsorted).2.1).1 last hmem).le
    rw [hnext, Due, passed_some, passed_some]
    refine ⟨fun hlt => ⟨hend, fun hle => hlater hlt ?_⟩, fun _ _ => hend⟩
    exact hturn.mem_of_le h hy (hopen hlt) (List.mem_of_getLast? hlast) hle

/-- A turn that takes the other entry takes the one that is due before it. -/
theorem mem_before (hturn : Turn xs after next taken) (h : xs.Pairwise (· < ·)) (hdue : Due x y after) (hne : x ≠ y)
    (hy : y ∈ xs) {front rest : List α} (htaken : taken = front ++ x :: rest) : y ∈ front := by
  have hx : x ∈ taken := by
    rw [htaken]
    exact List.mem_append_right _ List.mem_cons_self
  have hsorted : (front ++ x :: rest).Pairwise (· < ·) := htaken ▸ (pairwise_past h after).sublist hturn.front.sublist
  have hmem : y ∈ taken := by
    by_contra hnot
    exact (hturn.due_kept h hdue hne hy hnot).1 hx
  rw [htaken, List.mem_append, List.mem_cons] at hmem
  rcases hmem with hmem | rfl | hmem
  · exact hmem
  · exact absurd rfl hne
  · have hlt := (List.pairwise_cons.mp (List.pairwise_append.mp hsorted).2.1).1 y hmem
    exact absurd (hdue.1 hlt).1 (hturn.not_passed hx)

end Turn

/-- Between two turns that take an entry, every other one that stays in the list is taken. -/
theorem taken_between {list : Nat → List α} {cursor : Nat → Option α} {taken : Nat → List α}
    (hturns : ∀ k, Turn (list k) (cursor k) (cursor (k + 1)) (taken k)) (h : ∀ k, (list k).Pairwise (· < ·)) {m n : Nat}
    (hmn : m < n) (hne : x ≠ y) (hstays : ∀ k, m ≤ k → k ≤ n → y ∈ list k) {front rest front' rest' : List α}
    (hfirst : taken m = front ++ x :: rest) (hsecond : taken n = front' ++ x :: rest') :
    y ∈ rest ∨ y ∈ front' ∨ ∃ k, m < k ∧ k < n ∧ y ∈ taken k := by
  by_contra hnone
  push Not at hnone
  obtain ⟨hrest, hfront, hbetween⟩ := hnone
  have hdue : ∀ d, m + 1 + d ≤ n → Due x y (cursor (m + 1 + d)) := by
    intro d
    induction d with
    | zero => exact fun _ => (hturns m).due_of_taken (h m) hfirst hne (hstays m le_rfl hmn.le) hrest
    | succ d ih =>
      intro hd
      have hnot := hbetween (m + 1 + d) (by omega) (by omega)
      exact ((hturns _).due_kept (h _) (ih (by omega)) hne (hstays _ (by omega) (by omega)) hnot).2
  have hlast := hdue (n - (m + 1)) (by omega)
  rw [Nat.add_sub_cancel' hmn] at hlast
  exact hfront ((hturns n).mem_before (h n) hlast hne (hstays n hmn.le le_rfl) hsecond)

end SwarmCloud.Lib.Rotation
