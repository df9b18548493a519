import Mathlib.Algebra.Order.Group.Int
import Mathlib.Algebra.Order.Group.Unbundled.Abs
import Mathlib.Data.Int.LeastGreatest
import Mathlib.Order.Bounds.Basic

/-! # Time zones

A zone gives each second of universal time an offset of under a day, and lists
the changes of the offset in any span of time. A wall time is read with the
offset after the last change that the clock of the zone has passed; of the two
readings of a wall time that the clock shows twice, or skips, the earlier takes
the change at the later of its two wall times. When changes are further apart
than the offsets ever jump, what the clock showed before a change is all under
what it shows at the change, and what it shows after it all over.
-/

namespace SwarmCloud.Lib

structure Zone where
  offset : Int → Int
  changes : Int → Int → List Int
  offset_bounds : ∀ t, -86400 < offset t ∧ offset t < 86400
  changes_sorted : ∀ lo hi, (changes lo hi).Pairwise (· < ·)
  mem_changes : ∀ lo hi t, t ∈ changes lo hi ↔ lo < t ∧ t ≤ hi ∧ offset (t - 1) ≠ offset t

namespace Zone

variable (zone : Zone)

def Changes (t : Int) : Prop := zone.offset (t - 1) ≠ zone.offset t

/-- What the clock of the zone shows. -/
def clock (t : Int) : Int := t + zone.offset t

def shift (later : Bool) (t : Int) : Int :=
  if later then min (zone.offset (t - 1)) (zone.offset t) else max (zone.offset (t - 1)) (zone.offset t)

/-- The offset that a wall time is read with. -/
def localOffset (later : Bool) (wall : Int) : Int :=
  match ((zone.changes (wall - 86400) (wall + 86400)).filter fun t => t + zone.shift later t ≤ wall).getLast? with
  | some t => zone.offset t
  | none => zone.offset (wall - 86400)

/-- Changes are further apart than the size of any jump. -/
def Separated : Prop :=
  ∀ t t' jump, zone.Changes t → zone.Changes t' → zone.Changes jump → t < t' →
    |zone.offset jump - zone.offset (jump - 1)| < t' - t

/-- The one zone with at most one change. -/
def oneChange (change before after : Int) (hbefore : -86400 < before ∧ before < 86400)
    (hafter : -86400 < after ∧ after < 86400) : Zone where
  offset t := if t < change then before else after
  changes lo hi := if lo < change ∧ change ≤ hi ∧ before ≠ after then [change] else []
  offset_bounds t := by split <;> assumption
  changes_sorted lo hi := by split <;> simp
  mem_changes lo hi t := by
    constructor
    · intro h
      split at h
      · rename_i hin
        rw [List.mem_singleton.mp h, if_pos (by omega), if_neg (by omega)]
        exact hin
      · cases h
    · rintro ⟨hlo, hhi, hne⟩
      have ht : t = change := by
        by_contra hother
        apply hne
        split <;> split <;> omega
      subst ht
      rw [if_pos (by omega), if_neg (by omega)] at hne
      rw [if_pos ⟨hlo, hhi, hne⟩]
      exact List.mem_singleton_self t

variable {zone}

theorem changes_oneChange {change before after t : Int} {hbefore : -86400 < before ∧ before < 86400}
    {hafter : -86400 < after ∧ after < 86400} (h : (oneChange change before after hbefore hafter).Changes t) :
    t = change := by
  by_contra hother
  apply h
  unfold oneChange
  dsimp only
  split <;> split <;> omega

theorem separated_oneChange {change before after : Int} (hbefore : -86400 < before ∧ before < 86400)
    (hafter : -86400 < after ∧ after < 86400) : (oneChange change before after hbefore hafter).Separated := by
  intro t t' jump ht ht' _ hlt
  rw [changes_oneChange ht, changes_oneChange ht'] at hlt
  exact absurd hlt (lt_irrefl _)

theorem shift_bounds (later : Bool) (t : Int) : -86400 < zone.shift later t ∧ zone.shift later t < 86400 := by
  have hbefore := zone.offset_bounds (t - 1)
  have hafter := zone.offset_bounds t
  unfold shift
  split <;> omega

theorem offset_eq_of_no_change {s t : Int} (hst : s ≤ t) (h : ∀ u, s < u → u ≤ t → ¬ zone.Changes u) :
    zone.offset t = zone.offset s := by
  induction t, hst using Int.leInduction with
  | base => rfl
  | succ t hst ih =>
    have hsame := not_not.mp (h (t + 1) (by omega) (le_refl _))
    rw [add_sub_cancel_right] at hsame
    rw [← hsame]
    exact ih fun u hsu hut => h u hsu (by omega)

theorem lt_of_getLast? {l : List Int} {t u : Int} (hsorted : l.Pairwise (· < ·)) (h : l.getLast? = some t)
    (hu : u ∈ l) : u ≤ t := by
  obtain ⟨before, rfl⟩ := List.getLast?_eq_some_iff.mp h
  rcases List.mem_append.mp hu with hu | hu
  · exact le_of_lt ((List.pairwise_append.mp hsorted).2.2 u hu t (List.mem_singleton_self t))
  · exact le_of_eq (List.mem_singleton.mp hu)

/-- The offset read is that of an instant whose change the clock has passed; no later change is passed. -/
theorem localOffset_spec (later : Bool) (wall : Int) :
    ∃ s, zone.localOffset later wall = zone.offset s ∧ wall - 86400 ≤ s ∧
      (s = wall - 86400 ∨ (zone.Changes s ∧ s + zone.shift later s ≤ wall)) ∧
      ∀ t, s < t → zone.Changes t → wall < t + zone.shift later t := by
  have hsorted := (zone.changes_sorted (wall - 86400) (wall + 86400)).filter
    fun t => decide (t + zone.shift later t ≤ wall)
  -- a change past the window is not passed, whatever the offsets
  have hlater : ∀ t, wall - 86400 < t → zone.Changes t →
      (t ∉ (zone.changes (wall - 86400) (wall + 86400)).filter fun t => t + zone.shift later t ≤ wall) →
      wall < t + zone.shift later t := by
    intro t hfrom hchange hnot
    by_contra hpassed
    have hbounds := @shift_bounds zone later t
    exact hnot (List.mem_filter.mpr ⟨(zone.mem_changes _ _ t).mpr ⟨hfrom, by omega, hchange⟩, by simpa using hpassed⟩)
  unfold localOffset
  split
  · rename_i s hlast
    obtain ⟨hmem, hpassed⟩ := List.mem_filter.mp (List.mem_of_getLast? hlast)
    obtain ⟨hfrom, -, hchange⟩ := (zone.mem_changes _ _ s).mp hmem
    refine ⟨s, rfl, le_of_lt hfrom, .inr ⟨hchange, by simpa using hpassed⟩, fun t hst ht => ?_⟩
    refine hlater t (by omega) ht fun hmem => ?_
    have := lt_of_getLast? hsorted hlast hmem
    omega
  · rename_i hnone
    rw [List.getLast?_eq_none_iff] at hnone
    refine ⟨wall - 86400, rfl, le_refl _, .inl rfl, fun t hst ht => ?_⟩
    refine hlater t hst ht fun hmem => ?_
    rw [hnone] at hmem
    cases hmem

theorem localOffset_bounds (later : Bool) (wall : Int) :
    -86400 < zone.localOffset later wall ∧ zone.localOffset later wall < 86400 := by
  obtain ⟨s, hs, -⟩ := @localOffset_spec zone later wall
  rw [hs]
  exact zone.offset_bounds s

/-! ## Separated changes -/

section Separated

variable (hsep : zone.Separated)

include hsep in
/-- Before a change the clock shows less than at the end of its old offset. -/
theorem clock_lt_of_lt {t change : Int} (hchange : zone.Changes change) (h : t < change) :
    zone.clock t < change + zone.offset (change - 1) := by
  obtain ⟨gap, hgap⟩ : ∃ gap : Nat, change - t = gap := ⟨(change - t).toNat, by omega⟩
  induction gap using Nat.strong_induction_on generalizing change with
  | _ gap ih =>
    by_cases hbetween : ∃ u, t < u ∧ u < change ∧ zone.Changes u
    · obtain ⟨u, ⟨htu, huc, hu⟩, hgreatest⟩ := Int.exists_greatest_of_bdd
        (P := fun u => t < u ∧ u < change ∧ zone.Changes u) ⟨change, fun u hu => le_of_lt hu.2.1⟩ hbetween
      have hearlier := ih (u - t).toNat (by omega) hu htu (by omega)
      have hsame : zone.offset (change - 1) = zone.offset u := by
        refine offset_eq_of_no_change (by omega) fun v huv hvc hv => ?_
        have := hgreatest v ⟨by omega, by omega, hv⟩
        omega
      have hjump := hsep u change u hu hchange hu huc
      have habs := neg_abs_le (zone.offset u - zone.offset (u - 1))
      rw [hsame]
      omega
    · have hsame : zone.offset (change - 1) = zone.offset t := by
        refine offset_eq_of_no_change (by omega) fun v htv hvc hv => ?_
        exact hbetween ⟨v, htv, by omega, hv⟩
      rw [hsame, clock]
      omega

include hsep in
/-- From a change on the clock shows no less than at the change. -/
theorem clock_ge_of_ge {t change : Int} (hchange : zone.Changes change) (h : change ≤ t) :
    change + zone.offset change ≤ zone.clock t := by
  obtain ⟨gap, hgap⟩ : ∃ gap : Nat, t - change = gap := ⟨(t - change).toNat, by omega⟩
  induction gap using Nat.strong_induction_on generalizing change with
  | _ gap ih =>
    by_cases hbetween : ∃ u, change < u ∧ u ≤ t ∧ zone.Changes u
    · obtain ⟨u, ⟨hcu, hut, hu⟩, hleast⟩ := Int.exists_least_of_bdd
        (P := fun u => change < u ∧ u ≤ t ∧ zone.Changes u) ⟨change, fun u hu => le_of_lt hu.1⟩ hbetween
      have hlater := ih (t - u).toNat (by omega) hu hut (by omega)
      have hsame : zone.offset (u - 1) = zone.offset change := by
        refine offset_eq_of_no_change (by omega) fun v hcv hvu hv => ?_
        have := hleast v ⟨hcv, by omega, hv⟩
        omega
      have hjump := hsep change u u hchange hu hu hcu
      have habs := neg_abs_le (zone.offset u - zone.offset (u - 1))
      rw [← hsame]
      omega
    · have hsame : zone.offset t = zone.offset change := by
        refine offset_eq_of_no_change h fun v hcv hvt hv => ?_
        exact hbetween ⟨v, hcv, hvt, hv⟩
      rw [clock, hsame]
      omega

end Separated

end Zone

end SwarmCloud.Lib
