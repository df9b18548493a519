import Mathlib.Data.Prod.Lex
import Mathlib.Data.String.Basic
import Mathlib.Tactic.Linarith
import SwarmCloud.Common.Pools
import SwarmCloud.Lib.Keyed
import SwarmCloud.Lib.Sorting

/-! # The rules of a merge train

Who rides next, how a failed train is split, and how the untested halves are
kept: the pure functions of `swarm_api/mergetrain.py`.
-/

namespace SwarmCloud.MergeTrain

open Common Lib

structure Rider where
  entryId : String
  number : Int
  head : String
  enqueuedAt : Instant
deriving DecidableEq, Repr

/-- `_order` -/
def order (rider : Rider) : Instant ×ₗ Int ×ₗ String :=
  toLex (rider.enqueuedAt, toLex (rider.number, rider.entryId))

/-- The loop of `select`: one rider for each pull request, while there is room. -/
def pick : Nat → List Int → List Rider → List Rider
  | 0, _, _ => []
  | _ + 1, _, [] => []
  | room + 1, numbers, rider :: candidates =>
    if rider.number ∈ numbers then pick (room + 1) numbers candidates
    else rider :: pick room (rider.number :: numbers) candidates

/-- The next train: a bisected half first, else up to `size`, oldest first. -/
def select (queued : List Rider) (size : Int) (nextBatch : List String) : List Rider :=
  let half := nextBatch.filterMap fun id => queued.find? (·.entryId = id)
  let candidates := if half.isEmpty then sortBy order queued else half
  pick (max 1 size).toNat [] candidates

inductive Reading
  | green
  | red
  | pending
deriving DecidableEq, Repr

inductive Verdict
  | green
  | red
  | timedOut
  | pending
deriving DecidableEq, Repr

def judge (reading : Reading) (startedAt now : Instant) (maxAgeMinutes : Int) : Verdict :=
  match reading with
  | .green => .green
  | .red => .red
  | .pending => if seconds (maxAgeMinutes * 60) ≤ now - startedAt then .timedOut else .pending

/-- The first half, rounded up, and the rest. -/
def bisect {α : Type} (batch : List α) : List α × List α :=
  let cut := (batch.length + 1) / 2
  (batch.take cut, batch.drop cut)

structure FailurePlan where
  eject : List String
  nextBatch : List String
  later : List String
  requeue : List String
deriving DecidableEq, Repr

/-- A red or timed-out train: eject a lone rider, else bisect. -/
def onFailure (batch : List String) : FailurePlan :=
  match batch with
  | [lone] => { eject := [lone], nextBatch := [], later := [], requeue := [] }
  | _ => { eject := [], nextBatch := (bisect batch).1, later := (bisect batch).2, requeue := batch }

/-- `_stored_halves`: no empty half is kept. -/
def storedHalves (halves : List (List String)) : List (List String) :=
  halves.filter fun ids => !ids.isEmpty

/-! ## What the rules do -/

section Pick

variable {room : Nat} {numbers : List Int} {candidates : List Rider}

/-- Distinct pull requests are all taken, up to the room there is. -/
theorem pick_eq_take (hnodup : (candidates.map Rider.number).Nodup)
    (hnew : ∀ rider ∈ candidates, rider.number ∉ numbers) :
    pick room numbers candidates = candidates.take room := by
  fun_induction pick room numbers candidates with
  | case1 => simp
  | case2 => simp
  | case3 room numbers rider candidates hseen ih =>
    exact absurd hseen (hnew rider List.mem_cons_self)
  | case4 room numbers rider candidates _ ih =>
    rw [List.map_cons, List.nodup_cons] at hnodup
    rw [List.take_succ_cons, ih hnodup.2]
    intro other hother
    rw [List.mem_cons, not_or]
    refine ⟨?_, hnew other (List.mem_cons_of_mem _ hother)⟩
    intro heq
    exact hnodup.1 (List.mem_map.mpr ⟨other, hother, heq⟩)

end Pick

section Select

variable {queued : List Rider} {size : Int} {half : List String}

/-- A half whose entries are all queued rides as it is. -/
theorem select_half (hnumbers : (queued.map Rider.number).Nodup) (hne : half ≠ []) (hnodup : half.Nodup)
    (hqueued : ∀ id ∈ half, id ∈ queued.map Rider.entryId) (hsize : half.length ≤ (max 1 size).toNat) :
    (select queued size half).map Rider.entryId = half ∧ ∀ rider ∈ select queued size half, rider ∈ queued := by
  have hids := filterMap_find?_key hqueued
  have hmem : ∀ rider ∈ half.filterMap fun id => queued.find? (·.entryId = id), rider ∈ queued :=
    fun rider h => mem_of_mem_filterMap_find? h
  generalize hriders : (half.filterMap fun id => queued.find? (·.entryId = id)) = riders at hids hmem
  have hlength : riders.length = half.length := by rw [← hids, List.length_map]
  have hdistinct : (riders.map Rider.number).Nodup := by
    have hriderNodup : riders.Nodup := List.Nodup.of_map Rider.entryId (hids ▸ hnodup)
    refine hriderNodup.map_on fun a ha b hb heq => ?_
    exact List.inj_on_of_nodup_map hnumbers (hmem a ha) (hmem b hb) heq
  have hfull : riders.isEmpty = false := by
    rw [List.isEmpty_eq_false_iff]
    rintro rfl
    exact hne hids.symm
  have hselect : select queued size half = riders := by
    simp only [select, hriders, hfull, Bool.false_eq_true, if_false]
    rw [pick_eq_take hdistinct (by simp), List.take_of_length_le (hlength ▸ hsize)]
  rw [hselect]
  exact ⟨hids, hmem⟩

theorem select_oldest (hnumbers : (queued.map Rider.number).Nodup) :
    select queued size [] = (sortBy order queued).take (max 1 size).toNat := by
  have hsorted : ((sortBy order queued).map Rider.number).Nodup :=
    ((sortBy_perm order queued).map Rider.number).nodup_iff.mpr hnumbers
  simp only [select, List.filterMap_nil, List.isEmpty_nil, if_true]
  exact pick_eq_take hsorted (by simp)

end Select

section Bisect

variable {α : Type} {batch : List α}

theorem bisect_append (batch : List α) : (bisect batch).1 ++ (bisect batch).2 = batch :=
  List.take_append_drop _ batch

theorem bisect_shorter (h : 2 ≤ batch.length) :
    (bisect batch).1.length < batch.length ∧ (bisect batch).2.length < batch.length ∧
      (bisect batch).1 ≠ [] ∧ (bisect batch).2 ≠ [] := by
  have hlengths : (bisect batch).1.length = (batch.length + 1) / 2 ∧
      (bisect batch).2.length = batch.length - (batch.length + 1) / 2 := by
    constructor
    · rw [bisect, List.length_take]
      omega
    · rw [bisect, List.length_drop]
  obtain ⟨hfirst, hrest⟩ := hlengths
  refine ⟨by omega, by omega, ?_, ?_⟩
  · apply List.ne_nil_of_length_pos
    omega
  · apply List.ne_nil_of_length_pos
    omega

end Bisect

theorem onFailure_many {batch : List String} (h : 2 ≤ batch.length) :
    onFailure batch = ⟨[], (bisect batch).1, (bisect batch).2, batch⟩ := by
  match batch, h with
  | [_], h => simp at h
  | _ :: _ :: _, _ => rfl

end SwarmCloud.MergeTrain
