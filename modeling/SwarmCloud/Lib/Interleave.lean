import Mathlib.Algebra.GroupWithZero.Nat
import Mathlib.Data.List.Nodup
import Mathlib.Data.List.Basic
import Mathlib.Algebra.Order.BigOperators.Group.List
import Mathlib.Algebra.Order.Group.Nat

/-! # Taking turns

Round by round, every queue that still has an entry gives its next one. What came
out of one queue is its front, and at every moment a queue that is not yet empty
has had as many turns as any other, or one fewer when its turn is still to come.
-/

namespace SwarmCloud.Lib

universe u v

variable {α : Type u} {κ : Type v}

/-- One round: the entry at `index` of every queue that has one. -/
def turn (queues : List (List α)) (index : Nat) : List α :=
  queues.filterMap fun queue => queue[index]?

def interleave (queues : List (List α)) : Nat → List α
  | 0 => []
  | rounds + 1 => interleave queues rounds ++ turn queues rounds

/-- How many entries the first rounds take. -/
def taken (queues : List (List α)) (rounds : Nat) : Nat :=
  (queues.map fun queue => min queue.length rounds).sum

variable {queues : List (List α)} {index rounds : Nat}

theorem taken_succ (queues : List (List α)) (index : Nat) :
    taken queues (index + 1) = taken queues index + (turn queues index).length := by
  induction queues with
  | nil => rfl
  | cons queue rest ih =>
    simp only [taken, turn, List.map_cons, List.sum_cons, List.filterMap_cons] at ih ⊢
    rcases lt_or_ge index queue.length with hlt | hge
    · rw [List.getElem?_eq_getElem hlt]
      simp only [List.length_cons]
      omega
    · rw [List.getElem?_eq_none hge]
      simp only
      omega

theorem length_interleave (queues : List (List α)) (rounds : Nat) :
    (interleave queues rounds).length = taken queues rounds := by
  induction rounds with
  | zero =>
    unfold taken interleave
    simp
  | succ rounds ih => rw [interleave, List.length_append, ih, taken_succ]

theorem taken_le (queues : List (List α)) (rounds : Nat) : taken queues rounds ≤ (queues.map List.length).sum :=
  List.sum_le_sum fun _ _ => Nat.min_le_left _ _

theorem turn_eq_nil (h : turn queues index = []) : ∀ queue ∈ queues, queue.length ≤ index := by
  intro queue hqueue
  have hnone := List.filterMap_eq_nil_iff.mp h queue hqueue
  exact List.getElem?_eq_none_iff.mp hnone

/-- When as many have been taken as there are, no queue is longer than the rounds. -/
theorem length_le_of_taken (h : taken queues rounds = (queues.map List.length).sum) :
    ∀ queue ∈ queues, queue.length ≤ rounds := by
  apply turn_eq_nil
  have hnext := taken_le queues (rounds + 1)
  rw [taken_succ, h] at hnext
  exact List.length_eq_zero_iff.mp (by omega)

theorem taken_eq_of_length_le (h : ∀ queue ∈ queues, queue.length ≤ rounds) :
    taken queues rounds = (queues.map List.length).sum := by
  unfold taken
  congr 1
  exact List.map_congr_left fun queue hqueue => min_eq_left (h queue hqueue)

/-- Rounds past the longest queue add nothing. -/
theorem interleave_of_length_le {more : Nat} (h : ∀ queue ∈ queues, queue.length ≤ rounds) (hmore : rounds ≤ more) :
    interleave queues more = interleave queues rounds := by
  induction more, hmore using Nat.le_induction with
  | base => rfl
  | succ more hmore ih =>
    have hnil : turn queues more = [] := by
      refine List.filterMap_eq_nil_iff.mpr fun queue hqueue => List.getElem?_eq_none ?_
      exact (h queue hqueue).trans hmore
    rw [interleave, ih, hnil, List.append_nil]

/-- Every stop lies within one round. -/
theorem exists_round {pre : List α} (h : pre <+: interleave queues rounds) :
    ∃ round part, part <+: turn queues round ∧ pre = interleave queues round ++ part := by
  induction rounds with
  | zero => exact ⟨0, [], List.nil_prefix, by rw [List.prefix_nil.mp h]; rfl⟩
  | succ rounds ih =>
    obtain ⟨post, hpost⟩ := h
    rw [interleave] at hpost
    obtain ⟨rest, hrest, -⟩ | ⟨part, hpart, hturn⟩ := List.append_eq_append_iff.mp hpost
    · exact ih ⟨rest, hrest.symm⟩
    · exact ⟨rounds, part, ⟨post, hturn.symm⟩, hpart⟩

/-! ## Which queue an entry came from -/

section Tagged

variable [DecidableEq κ] {tag : α → κ} {queueOf : κ → List α} {rotation : List κ}

/-- The queues of a rotation, each with its own tag on every entry. -/
structure Tagged (tag : α → κ) (queueOf : κ → List α) (rotation : List κ) : Prop where
  nodup : rotation.Nodup
  tag_eq : ∀ k, ∀ a ∈ queueOf k, tag a = k

theorem filter_turn_of_not_mem (htag : ∀ k, ∀ a ∈ queueOf k, tag a = k) {k : κ} (h : k ∉ rotation) (index : Nat) :
    (turn (rotation.map queueOf) index).filter (fun a => tag a = k) = [] := by
  rw [List.filter_eq_nil_iff]
  intro a ha
  obtain ⟨queue, hqueue, hget⟩ := List.mem_filterMap.mp ha
  obtain ⟨k', hk', rfl⟩ := List.mem_map.mp hqueue
  have hsame := htag k' a (List.mem_of_getElem? hget)
  simp only [decide_eq_true_eq]
  rintro rfl
  exact h (hsame ▸ hk')

theorem Tagged.filter_turn (h : Tagged tag queueOf rotation) {k : κ} (hk : k ∈ rotation) (index : Nat) :
    (turn (rotation.map queueOf) index).filter (fun a => tag a = k) = (queueOf k)[index]?.toList := by
  obtain ⟨before, after, rfl⟩ := List.append_of_mem hk
  have hnodup := h.nodup
  rw [List.nodup_append, List.nodup_cons] at hnodup
  obtain ⟨-, ⟨hafter, -⟩, hdisjoint⟩ := hnodup
  have hbefore : k ∉ before := fun hmem => hdisjoint k hmem k List.mem_cons_self rfl
  have hsplit : turn ((before ++ k :: after).map queueOf) index =
      turn (before.map queueOf) index ++ ((queueOf k)[index]?.toList ++ turn (after.map queueOf) index) := by
    unfold turn
    rw [List.map_append, List.filterMap_append, List.map_cons, List.filterMap_cons]
    cases (queueOf k)[index]? <;> rfl
  have hown : ((queueOf k)[index]?.toList).filter (fun a => tag a = k) = (queueOf k)[index]?.toList := by
    rw [List.filter_eq_self]
    intro a ha
    simpa using h.tag_eq k a (List.mem_of_getElem? (Option.mem_toList.mp ha))
  rw [hsplit, List.filter_append, List.filter_append, hown, filter_turn_of_not_mem h.tag_eq hbefore,
    filter_turn_of_not_mem h.tag_eq hafter, List.nil_append, List.append_nil]

/-- What came out of one queue is its front. -/
theorem Tagged.filter_interleave (h : Tagged tag queueOf rotation) {k : κ} (hk : k ∈ rotation) (rounds : Nat) :
    (interleave (rotation.map queueOf) rounds).filter (fun a => tag a = k) = (queueOf k).take rounds := by
  induction rounds with
  | zero => rfl
  | succ rounds ih => rw [interleave, List.filter_append, ih, h.filter_turn hk, List.take_add_one]

theorem filter_interleave_of_not_mem (htag : ∀ k, ∀ a ∈ queueOf k, tag a = k) {k : κ} (h : k ∉ rotation)
    (rounds : Nat) : (interleave (rotation.map queueOf) rounds).filter (fun a => tag a = k) = [] := by
  induction rounds with
  | zero => rfl
  | succ rounds ih => rw [interleave, List.filter_append, ih, filter_turn_of_not_mem htag h, List.append_nil]

theorem count_turn_le (h : Tagged tag queueOf rotation) {part : List α}
    (hpart : part <+: turn (rotation.map queueOf) index) (k : κ) : part.countP (fun a => tag a = k) ≤ 1 := by
  refine hpart.sublist.countP_le.trans ?_
  rw [List.countP_eq_length_filter]
  by_cases hk : k ∈ rotation
  · rw [h.filter_turn hk]
    cases (queueOf k)[index]? <;> simp
  · rw [filter_turn_of_not_mem h.tag_eq hk]
    simp

/-- In every part of a round, who comes after a queue that still has an entry has not had its turn before it. -/
theorem Tagged.count_turn_of_after (h : Tagged tag queueOf rotation) {before after : List κ} {k k' : κ}
    (hrotation : rotation = before ++ k :: after) (hk' : k' ∉ before) (hlong : index < (queueOf k).length)
    {part : List α} (hpart : part <+: turn (rotation.map queueOf) index) :
    part.countP (fun a => tag a = k') ≤ part.countP (fun a => tag a = k) := by
  have hsplit : turn (rotation.map queueOf) index =
      turn (before.map queueOf) index ++ (queueOf k)[index] :: turn (after.map queueOf) index := by
    rw [hrotation]
    unfold turn
    rw [List.map_append, List.filterMap_append, List.map_cons, List.filterMap_cons, List.getElem?_eq_getElem hlong]
  have hone := count_turn_le h hpart k'
  obtain ⟨post, hpost⟩ := hpart
  rw [hsplit] at hpost
  obtain ⟨rest, hrest, -⟩ | ⟨own, hown, htail⟩ := List.append_eq_append_iff.mp hpost
  · -- The part ends before the turn of `k`, and so before that of `k'`.
    have hnone := filter_turn_of_not_mem h.tag_eq hk' index
    rw [hrest, List.filter_append] at hnone
    rw [List.countP_eq_length_filter, (List.append_eq_nil_iff.mp hnone).1]
    exact Nat.zero_le _
  · cases own with
    | nil =>
      have hnone := filter_turn_of_not_mem h.tag_eq hk' index
      rw [hown, List.append_nil, List.countP_eq_length_filter, hnone]
      exact Nat.zero_le _
    | cons a own =>
      have hhead := (List.cons.inj htail).1
      have htag := h.tag_eq k a (hhead ▸ List.getElem_mem hlong)
      have hsome : 0 < part.countP fun a => tag a = k := by
        rw [List.countP_pos_iff]
        refine ⟨a, ?_, by simpa using htag⟩
        rw [hown]
        simp
      omega

theorem Tagged.count_interleave (h : Tagged tag queueOf rotation) {k : κ} (hk : k ∈ rotation) (rounds : Nat) :
    (interleave (rotation.map queueOf) rounds).countP (fun a => tag a = k) = min rounds (queueOf k).length := by
  rw [List.countP_eq_length_filter, h.filter_interleave hk, List.length_take]

/-- At every stop before a queue's last turn, no other has had more than one turn more, and none that comes after it
has had any more. -/
theorem Tagged.fair (h : Tagged tag queueOf rotation) {before after : List κ} {k : κ}
    (hrotation : rotation = before ++ k :: after) {pre : List α}
    (hpre : pre <+: interleave (rotation.map queueOf) rounds)
    (hleft : pre.countP (fun a => tag a = k) < (queueOf k).length) (k' : κ) :
    pre.countP (fun a => tag a = k') ≤ pre.countP (fun a => tag a = k) + 1 ∧
      (k' ∉ before → pre.countP (fun a => tag a = k') ≤ pre.countP (fun a => tag a = k)) := by
  obtain ⟨round, part, hpart, rfl⟩ := exists_round hpre
  have hk : k ∈ rotation := by
    rw [hrotation]
    simp
  have hlong : round < (queueOf k).length := by
    rw [List.countP_append, h.count_interleave hk] at hleft
    omega
  have hmine : (interleave (rotation.map queueOf) round).countP (fun a => tag a = k) = round := by
    rw [h.count_interleave hk]
    omega
  have hother : (interleave (rotation.map queueOf) round).countP (fun a => tag a = k') ≤ round := by
    by_cases hk' : k' ∈ rotation
    · rw [h.count_interleave hk']
      omega
    · rw [List.countP_eq_length_filter, filter_interleave_of_not_mem h.tag_eq hk']
      exact Nat.zero_le _
  have hone := count_turn_le h hpart k'
  rw [List.countP_append, List.countP_append, hmine]
  refine ⟨by omega, fun hbefore => ?_⟩
  have hafter := h.count_turn_of_after hrotation hbefore hlong hpart
  omega

end Tagged

end SwarmCloud.Lib
