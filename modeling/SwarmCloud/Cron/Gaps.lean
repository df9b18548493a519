import Mathlib.Data.Finset.Card
import SwarmCloud.Cron.Next

/-! # How long an expression can go without a day

`next_after` gives up after `SEARCH_DAYS`. Whether that is ever too soon is a
matter of the expression alone: the wall clock and the zone move an instant by
less than two days, so it is when the expression has a run of 3291 days none of
which it names. Years from March to February decide that: all but the leap day
of such a year is told by the weekday of its first of March.
-/

namespace SwarmCloud.Cron

open Lib Common

/-! ## Runs of days -/

/-- No 3291 days in a row are without a day that the expression names. -/
def CronExpr.Covered (expr : CronExpr) : Prop :=
  ∀ day : Int, ∃ ahead < searchDays - 3, expr.dayMatches (day + (ahead : Nat)) = true

section Walk

variable {expr : CronExpr} {zone : Zone}

theorem clock_in_day (after : Instant) :
    (dayOf (startOf zone after) - epochOrdinal) * 86400 ≤ zone.clock (after / 1000000) ∧
      zone.clock (after / 1000000) < (dayOf (startOf zone after) - epochOrdinal + 1) * 86400 := by
  unfold dayOf startOf
  dsimp only
  generalize zone.clock (after / 1000000) = clock
  constructor <;> omega

/-- A day that the expression names, three days ahead or more, has a slot that is past. -/
theorem nextAfter_ok_of_day (hformed : expr.WellFormed) {after : Instant} {ahead : Nat} (hfrom : 3 ≤ ahead)
    (huntil : ahead < searchDays) (hday : expr.dayMatches (dayOf (startOf zone after) + ahead) = true) :
    ∃ slot, nextAfter expr after zone = .ok slot := by
  obtain ⟨minute, hminute⟩ := hformed.minutes.1
  obtain ⟨hour, hhour⟩ := hformed.hours.1
  unfold nextAfter
  dsimp only
  split
  · exact ⟨_, rfl⟩
  · rename_i hnone
    rw [List.findSome?_eq_none_iff] at hnone
    obtain ⟨hclock, hclock'⟩ := @clock_in_day zone after
    have hoffset := zone.offset_bounds (after / 1000000)
    have hstart : startOf zone after ≤ zone.clock (after / 1000000) := by
      unfold startOf
      dsimp only
      omega
    have hwall : (dayOf (startOf zone after) + ahead - epochOrdinal) * 86400 ≤
        wallOf (dayOf (startOf zone after) + ahead) hour minute := by
      unfold wallOf
      omega
    have hpast := daySlot_none hformed (hnone ahead (List.mem_range.mpr huntil)) hday hhour hminute (by omega)
    have hresolve := (@resolveWall_bounds zone (wallOf (dayOf (startOf zone after) + ahead) hour minute)).1
    have hreached := seconds_le_iff.mp hpast
    unfold Zone.clock at hclock'
    omega

/-- The last second of the first of those days, in a zone whose clock has just gone back two days less two
seconds: the days after it were there before. -/
def lateAfter (day : Int) : Int := (day - epochOrdinal + 2) * 86400 - 2

def lateZone (day : Int) : Zone :=
  Zone.oneChange (lateAfter day) 86399 (-86399) (by decide) (by decide)

theorem clock_lateZone (day : Int) :
    (lateZone day).clock (lateAfter day) = (day - epochOrdinal + 1) * 86400 - 1 ∧
      (lateZone day).clock (lateAfter day - 1) = (day - epochOrdinal + 3) * 86400 - 4 := by
  have hafter : (lateZone day).offset (lateAfter day) = -86399 := if_neg (lt_irrefl _)
  have hbefore : (lateZone day).offset (lateAfter day - 1) = 86399 := if_pos (by omega)
  rw [Zone.clock, Zone.clock, hafter, hbefore]
  unfold lateAfter
  constructor <;> omega

theorem nextAfter_lateZone (hformed : expr.WellFormed) {day : Int}
    (hrun : ∀ ahead < searchDays - 3, ¬ expr.dayMatches (day + 3 + (ahead : Nat)) = true) (slot : Instant) :
    nextAfter expr (seconds (lateAfter day)) (lateZone day) ≠ .ok slot := by
  obtain ⟨hclock, hearlier⟩ := clock_lateZone day
  have hday : dayOf (startOf (lateZone day) (seconds (lateAfter day))) = day := by
    unfold startOf
    rw [seconds_div, hclock]
    unfold dayOf
    dsimp only
    omega
  intro h
  obtain ⟨wall, hmatches, rfl, hafter, ⟨ahead, hahead, hon⟩, -⟩ := nextAfter_wall hformed h
  rw [hday] at hon
  have hmatch := hmatches.day
  rw [hon] at hmatch
  have hwhole := hmatches.whole
  rcases Nat.lt_or_ge ahead 3 with hsoon | hlate
  · have hwall : wall ≤ (lateZone day).clock (lateAfter day - 1) := by
      rw [hearlier]
      unfold dayOf at hon
      omega
    have hreached := (resolveWall_isLeast (Zone.separated_oneChange (by decide) (by decide)) wall).2 hwall
    have hpast : seconds (resolveWall (lateZone day) wall) ≤ seconds (lateAfter day) := by
      rw [seconds_le_iff, seconds_div]
      exact le_trans hreached (by omega)
    exact absurd hafter (not_lt.mpr hpast)
  · refine hrun (ahead - 3) (by omega) ?_
    have hsame : day + 3 + ((ahead - 3 : Nat) : Int) = day + ahead := by omega
    rwa [hsame]

/-- `next_after` always answers exactly when no run of days is too long. -/
theorem nextAfter_total_iff_covered (hformed : expr.WellFormed) :
    (∀ after zone, ∃ slot, nextAfter expr after zone = .ok slot) ↔ expr.Covered := by
  constructor
  · intro htotal day
    by_contra hnone
    have hrun : ∀ ahead < searchDays - 3, ¬ expr.dayMatches (day - 3 + 3 + (ahead : Nat)) = true := by
      intro ahead hahead hmatch
      rw [sub_add_cancel] at hmatch
      exact hnone ⟨ahead, hahead, hmatch⟩
    obtain ⟨slot, hslot⟩ := htotal (seconds (lateAfter (day - 3))) (lateZone (day - 3))
    exact nextAfter_lateZone hformed hrun slot hslot
  · intro hcovered after zone
    obtain ⟨ahead, hahead, hmatch⟩ := hcovered (dayOf (startOf zone after) + 3)
    have hsame : dayOf (startOf zone after) + 3 + (ahead : Int) =
        dayOf (startOf zone after) + ((ahead + 3 : Nat) : Int) := by
      push_cast
      ring
    rw [hsame] at hmatch
    exact nextAfter_ok_of_day hformed (by omega) (by omega) hmatch

end Walk

end SwarmCloud.Cron
