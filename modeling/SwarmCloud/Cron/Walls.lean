import Mathlib.Order.Bounds.Basic
import SwarmCloud.Lib.Bisect
import SwarmCloud.Lib.Zone

/-! # Wall times and instants

`resolve_wall` of `cronexpr.py`, over whole seconds: the wall times of a schedule
are whole minutes. In a zone whose changes are apart it answers the first instant
at which the clock has reached the wall time; that instant never goes back as the
wall time goes on, is the end of a gap, and is the first of two.
-/

namespace SwarmCloud.Cron

open Lib

variable {zone : Zone}

/-- The UTC second of a local wall second. -/
def resolveWall (zone : Zone) (wall : Int) : Int :=
  let first := wall - zone.localOffset false wall
  if zone.clock first = wall then first
  else
    let other := wall - zone.localOffset true wall
    bisect (fun t => decide (wall ≤ zone.clock t)) (min first other) (max first other)

/-- Whatever the changes, a wall time is under a day away from its instant. -/
theorem resolveWall_bounds (wall : Int) :
    wall - 86400 < resolveWall zone wall ∧ resolveWall zone wall < wall + 86400 := by
  have hfirst := @Zone.localOffset_bounds zone false wall
  have hother := @Zone.localOffset_bounds zone true wall
  unfold resolveWall
  dsimp only
  split
  · omega
  · have hbounds := @bisect_bounds (fun t => decide (wall ≤ zone.clock t))
      (min (wall - zone.localOffset false wall) (wall - zone.localOffset true wall))
      (max (wall - zone.localOffset false wall) (wall - zone.localOffset true wall)) (by omega)
    omega

section Separated

variable (hsep : zone.Separated)

include hsep in
/-- Before the last change that the clock has passed, the wall time was not reached. -/
theorem clock_lt_before {wall s : Int}
    (hs : s = wall - 86400 ∨ (zone.Changes s ∧ s + zone.shift false s ≤ wall)) :
    zone.clock s ≤ wall ∧ ∀ t < s, zone.clock t < wall := by
  rcases hs with rfl | ⟨hchange, hpassed⟩
  · have hbound := zone.offset_bounds (wall - 86400)
    refine ⟨by rw [Zone.clock]; omega, fun t ht => ?_⟩
    have hbound' := zone.offset_bounds t
    rw [Zone.clock]
    omega
  · have hshift : zone.shift false s = max (zone.offset (s - 1)) (zone.offset s) := rfl
    refine ⟨by rw [Zone.clock]; omega, fun t ht => ?_⟩
    have hlt := Zone.clock_lt_of_lt hsep hchange ht
    omega

include hsep in
/-- A wall time inside a gap: the other reading takes the offset after the change. -/
theorem localOffset_of_gap {wall change : Int} (hchange : zone.Changes change)
    (hfrom : change + zone.offset (change - 1) ≤ wall) (huntil : wall < change + zone.offset change) :
    zone.localOffset true wall = zone.offset change := by
  obtain ⟨s, hoffset, -, hs, hlater⟩ := @Zone.localOffset_spec zone true wall
  have hbounds := zone.offset_bounds change
  rw [hoffset]
  rcases lt_trichotomy s change with hlt | rfl | hgt
  · have hpassed := hlater change hlt hchange
    have hshift : zone.shift true change = min (zone.offset (change - 1)) (zone.offset change) := rfl
    omega
  · rfl
  · rcases hs with rfl | ⟨hs, hpassed⟩
    · omega
    · have hold := Zone.clock_lt_of_lt hsep hs hgt
      have hnew := Zone.clock_ge_of_ge hsep hchange (le_of_lt hgt)
      have hshift : zone.shift true s = min (zone.offset (s - 1)) (zone.offset s) := rfl
      unfold Zone.clock at hold hnew
      omega

include hsep in
/-- The instant of a wall time is the first at which the clock has reached it. -/
theorem resolveWall_isLeast (wall : Int) : IsLeast {t | wall ≤ zone.clock t} (resolveWall zone wall) := by
  obtain ⟨s, hoffset, -, hs, hlater⟩ := @Zone.localOffset_spec zone false wall
  obtain ⟨hreached, hbefore⟩ := clock_lt_before hsep hs
  have hlower : ∀ first, (∀ u, s < u → u < first → ¬ zone.Changes u) → first + zone.offset s ≤ wall →
      ∀ t < first, zone.clock t < wall := by
    intro first hnone hfirst t ht
    rcases lt_or_ge t s with hts | hst
    · exact hbefore t hts
    · have hsame := Zone.offset_eq_of_no_change hst fun u hsu hut => hnone u hsu (by omega)
      rw [Zone.clock, hsame]
      omega
  rw [Zone.clock] at hreached
  by_cases hbetween : ∃ u, s < u ∧ u ≤ wall - zone.offset s ∧ zone.Changes u
  · -- the wall time falls into the gap of the first of these changes
    obtain ⟨change, ⟨hsc, hcw, hchange⟩, hleast⟩ := Int.exists_least_of_bdd
      (P := fun u => s < u ∧ u ≤ wall - zone.offset s ∧ zone.Changes u) ⟨s, fun u hu => le_of_lt hu.1⟩ hbetween
    have hnone : ∀ u, s < u → u < change → ¬ zone.Changes u := by
      intro u hsu huc hu
      have := hleast u ⟨hsu, by omega, hu⟩
      omega
    have hold : zone.offset (change - 1) = zone.offset s :=
      Zone.offset_eq_of_no_change (by omega) fun u hsu huc => hnone u hsu (by omega)
    have hnotPassed := hlater change hsc hchange
    have hshift : zone.shift false change = max (zone.offset (change - 1)) (zone.offset change) := rfl
    have hgap : wall < change + zone.offset change := by omega
    have hunder := hlower change hnone (by omega)
    have hover : ∀ t, change ≤ t → wall < zone.clock t := fun t ht =>
      lt_of_lt_of_le hgap (Zone.clock_ge_of_ge hsep hchange ht)
    have hother := localOffset_of_gap hsep hchange (by omega) hgap
    have hresolve : resolveWall zone wall = change := by
      unfold resolveWall
      dsimp only
      rw [hoffset, hother]
      have hmiss : zone.clock (wall - zone.offset s) ≠ wall := by
        have := hover (wall - zone.offset s) hcw
        omega
      rw [if_neg hmiss]
      refine bisect_eq (by omega) (by omega) fun t _ _ => ?_
      rw [decide_eq_true_iff]
      constructor
      · intro hle
        by_contra hlt
        have := hunder t (by omega)
        omega
      · exact fun hle => le_of_lt (hover t hle)
    rw [hresolve]
    refine ⟨le_of_lt (hover change (le_refl _)), fun t ht => ?_⟩
    by_contra hlt
    exact absurd (hunder t (not_le.mp hlt)) (not_lt.mpr ht)
  · have hnone : ∀ u, s < u → u ≤ wall - zone.offset s → ¬ zone.Changes u := fun u hsu huw hu =>
      hbetween ⟨u, hsu, huw, hu⟩
    have hsame := Zone.offset_eq_of_no_change (by omega) hnone
    have hclock : zone.clock (wall - zone.offset s) = wall := by
      rw [Zone.clock, hsame]
      omega
    have hresolve : resolveWall zone wall = wall - zone.offset s := by
      unfold resolveWall
      dsimp only
      rw [hoffset, if_pos hclock]
    rw [hresolve]
    refine ⟨ge_of_eq hclock, fun t ht => ?_⟩
    by_contra hlt
    have hunder := hlower (wall - zone.offset s) (fun u hsu huw => hnone u hsu (by omega)) (by omega) t
      (not_le.mp hlt)
    exact absurd hunder (not_lt.mpr ht)

include hsep in
theorem resolveWall_mono {wall wall' : Int} (h : wall ≤ wall') : resolveWall zone wall ≤ resolveWall zone wall' :=
  (resolveWall_isLeast hsep wall).2 (le_trans h (resolveWall_isLeast hsep wall').1)

include hsep in
/-- A wall time that the clock skips: the first instant after the gap. -/
theorem resolveWall_gap {wall change : Int} (hchange : zone.Changes change)
    (hfrom : change + zone.offset (change - 1) ≤ wall) (huntil : wall < change + zone.offset change) :
    resolveWall zone wall = change := by
  refine (resolveWall_isLeast hsep wall).unique ⟨le_of_lt huntil, fun t ht => ?_⟩
  by_contra hlt
  have hbefore := Zone.clock_lt_of_lt hsep hchange (not_le.mp hlt)
  exact absurd (lt_of_lt_of_le hbefore hfrom) (not_lt.mpr ht)

include hsep in
/-- A wall time that the clock shows: the first instant at which it does. -/
theorem resolveWall_shown {wall t : Int} (h : zone.clock t = wall) :
    zone.clock (resolveWall zone wall) = wall ∧ resolveWall zone wall ≤ t := by
  obtain ⟨hreached, hleast⟩ := resolveWall_isLeast hsep wall
  refine ⟨?_, hleast (ge_of_eq h)⟩
  by_contra hpast
  have hover : wall < zone.clock (resolveWall zone wall) := lt_of_le_of_ne hreached (Ne.symm hpast)
  have hnotBefore : zone.clock (resolveWall zone wall - 1) < wall := by
    by_contra hreached'
    have := hleast (not_lt.mp hreached')
    omega
  by_cases hchange : zone.Changes (resolveWall zone wall)
  · -- the clock jumped over the wall time, and shows more from then on
    have hle := hleast (ge_of_eq h)
    have hge := Zone.clock_ge_of_ge hsep hchange hle
    rw [← Zone.clock] at hge
    omega
  · have hsame := not_not.mp hchange
    unfold Zone.clock at hover hnotBefore
    omega

end Separated

end SwarmCloud.Cron
