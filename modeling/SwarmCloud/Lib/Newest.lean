import Mathlib.Data.List.DropRight

/-! # The newest entries of a list

A list that grows at its end and keeps a number of its entries keeps the last of
all that were ever appended.
-/

namespace SwarmCloud.Lib

universe u

variable {α : Type u}

theorem rtake_append_rtake (l : List α) (x : α) (n : Nat) : (l.rtake n ++ [x]).rtake n = (l ++ [x]).rtake n := by
  cases n with
  | zero => rw [List.rtake_zero, List.rtake_zero]
  | succ n =>
    rw [List.rtake_concat_succ, List.rtake_concat_succ, List.rtake, List.rtake, List.rtake, List.length_drop,
      List.drop_drop]
    congr 2
    omega

theorem rtake_of_length_le {l : List α} {n : Nat} (h : l.length ≤ n) : l.rtake n = l := by
  rw [List.rtake, Nat.sub_eq_zero_of_le h, List.drop_zero]

theorem length_rtake (l : List α) (n : Nat) : (l.rtake n).length = min n l.length := by
  rw [List.rtake, List.length_drop]
  omega

/-- The entries that are gone, and those that are kept. -/
theorem take_append_rtake (l : List α) (n : Nat) : l.take (l.length - n) ++ l.rtake n = l :=
  List.take_append_drop (l.length - n) l

theorem rtake_append_length (l kept : List α) : (l ++ kept).rtake kept.length = kept := by
  rw [List.rtake, List.length_append, Nat.add_sub_cancel, List.drop_left]

/-- Of a list that is long enough, the oldest entry that is kept. -/
theorem exists_oldest {l : List α} {n : Nat} (h : n + 1 ≤ l.length) :
    ∃ gone oldest later, l = gone ++ oldest :: later ∧ later.length = n := by
  have hsplit := take_append_rtake l (n + 1)
  have hlength := length_rtake l (n + 1)
  cases hkept : l.rtake (n + 1) with
  | nil =>
    rw [hkept, List.length_nil] at hlength
    omega
  | cons oldest later =>
    rw [hkept, List.length_cons] at hlength
    exact ⟨_, oldest, later, by rw [← hkept, hsplit], by omega⟩

end SwarmCloud.Lib
