import Mathlib.Data.Int.ConditionallyCompleteOrder
import SwarmCloud.Common.Pools
import SwarmCloud.Cron.Grammar
import SwarmCloud.Cron.Walls

/-! # Next firings

`next_after` and `next_n` of `cronexpr.py`. The local wall times of an expression
are walked in order from the wall clock of the instant asked about, and the first
whose instant is past it is answered. An instant counts microseconds, a wall time
whole seconds from the start of 1970 on the local clock.
-/

namespace SwarmCloud.Cron

open Lib Common

/-- `date(1970, 1, 1).toordinal()`. -/
def epochOrdinal : Int := 719163

def dayOf (wall : Int) : Int := wall / 86400 + epochOrdinal

def hourOf (wall : Int) : Nat := (wall % 86400 / 3600).toNat

def minuteOf (wall : Int) : Nat := (wall % 3600 / 60).toNat

def wallOf (day : Int) (hour minute : Nat) : Int := (day - epochOrdinal) * 86400 + hour * 3600 + minute * 60

/-- The wall clock of an instant, with its seconds cut off. -/
def startOf (zone : Zone) (after : Instant) : Int :=
  let wall := zone.clock (after / 1000000)
  wall - wall % 60

/-- `SEARCH_DAYS`. -/
def searchDays : Nat := 366 * 9

section Walk

variable (expr : CronExpr) (zone : Zone) (after : Instant) (start : Int) (day : Int)

def minuteSlot (hour minute : Nat) : Option Instant :=
  let wall := wallOf day hour minute
  if wall < start then none
  else
    let instant := seconds (resolveWall zone wall)
    if after < instant then some instant else none

def hourSlot (hour : Nat) : Option Instant :=
  if day = dayOf start ∧ hour < hourOf start then none
  else expr.minutes.sort.findSome? (minuteSlot zone after start day hour)

def daySlot : Option Instant :=
  if expr.dayMatches day then expr.hours.sort.findSome? (hourSlot expr zone after start day) else none

end Walk

/-- The first slot past an instant. -/
def nextAfter (expr : CronExpr) (after : Instant) (zone : Zone) : Except Refusal Instant :=
  let start := startOf zone after
  match (List.range searchDays).findSome? fun ahead : Nat => daySlot expr zone after start (dayOf start + ahead) with
  | some instant => .ok instant
  | none => .error (cronError "never_fires" (String.ofList expr.source ++ " has no slot within " ++
      natText (searchDays / 366) ++ " years"))

def nextN (expr : CronExpr) (after : Instant) (zone : Zone) : Nat → Except Refusal (List Instant)
  | 0 => .ok []
  | count + 1 => do
    let moment ← nextAfter expr after zone
    let more ← nextN expr moment zone count
    return moment :: more

/-! ## Slots -/

/-- A whole minute of the local clock that the expression names. -/
structure CronExpr.MatchesWall (expr : CronExpr) (wall : Int) : Prop where
  whole : wall % 60 = 0
  minute : minuteOf wall ∈ expr.minutes
  hour : hourOf wall ∈ expr.hours
  day : expr.dayMatches (dayOf wall) = true

/-- The instants of the wall times that the expression names. -/
def slots (expr : CronExpr) (zone : Zone) : Set Instant :=
  {slot | ∃ wall, expr.MatchesWall wall ∧ slot = seconds (resolveWall zone wall)}

theorem parts_wallOf {day : Int} {hour minute : Nat} (hhour : hour < 24) (hminute : minute < 60) :
    dayOf (wallOf day hour minute) = day ∧ hourOf (wallOf day hour minute) = hour ∧
      minuteOf (wallOf day hour minute) = minute ∧ wallOf day hour minute % 60 = 0 := by
  unfold dayOf hourOf minuteOf wallOf
  refine ⟨?_, ?_, ?_, ?_⟩ <;> omega

theorem wallOf_parts {wall : Int} (h : wall % 60 = 0) : wallOf (dayOf wall) (hourOf wall) (minuteOf wall) = wall := by
  unfold dayOf hourOf minuteOf wallOf
  omega

theorem seconds_div (t : Int) : seconds t / 1000000 = t := Int.mul_ediv_cancel t (by decide)

theorem seconds_le_iff {after : Instant} {t : Int} : seconds t ≤ after ↔ t ≤ after / 1000000 := by
  unfold seconds
  lia

/-! ## The walk -/

section Sorted

variable {α β : Type} [LinearOrder α] {l : List α} {f : α → Option β} {b : β}

/-- What a search in order finds, it finds at the first place there is. -/
theorem findSome?_first (hsorted : l.Pairwise (· < ·)) (h : l.findSome? f = some b) :
    ∃ x ∈ l, f x = some b ∧ ∀ y ∈ l, y < x → f y = none := by
  obtain ⟨before, x, rest, rfl, hx, hbefore⟩ := List.findSome?_eq_some_iff.mp h
  refine ⟨x, by simp, hx, ?_⟩
  intro y hy hyx
  rcases List.mem_append.mp hy with hy | hy
  · exact hbefore y hy
  · rcases List.mem_cons.mp hy with rfl | hy
    · exact absurd hyx (lt_irrefl y)
    · have hxy := (List.pairwise_cons.mp (List.pairwise_append.mp hsorted).2.1).1 y hy
      exact absurd hyx (not_lt.mpr (le_of_lt hxy))

end Sorted

section Walk

variable {expr : CronExpr} {zone : Zone} {after : Instant} {start day : Int}

theorem minuteSlot_none {hour minute : Nat} (h : minuteSlot zone after start day hour minute = none)
    (hstart : start ≤ wallOf day hour minute) :
    seconds (resolveWall zone (wallOf day hour minute)) ≤ after := by
  unfold minuteSlot at h
  dsimp only at h
  rw [if_neg (not_lt.mpr hstart)] at h
  by_contra hpast
  rw [if_pos (not_le.mp hpast)] at h
  cases h

theorem hour_le_of_start {hour minute : Nat} (hminute : minute < 60) (hstart : start ≤ wallOf day hour minute)
    (hday : day = dayOf start) : hourOf start ≤ hour := by
  unfold wallOf at hstart
  unfold dayOf at hday
  unfold hourOf
  omega

theorem hourSlot_none {hour minute : Nat} (hformed : expr.WellFormed)
    (h : hourSlot expr zone after start day hour = none) (hminute : minute ∈ expr.minutes)
    (hstart : start ≤ wallOf day hour minute) :
    seconds (resolveWall zone (wallOf day hour minute)) ≤ after := by
  have hkept : ¬ (day = dayOf start ∧ hour < hourOf start) := by
    rintro ⟨hday, hlt⟩
    have := hour_le_of_start (hformed.minutes.2 minute hminute) hstart hday
    omega
  rw [hourSlot, if_neg hkept, List.findSome?_eq_none_iff] at h
  exact minuteSlot_none (h minute ((Finset.mem_sort _).mpr hminute)) hstart

theorem daySlot_none {hour minute : Nat} (hformed : expr.WellFormed)
    (h : daySlot expr zone after start day = none) (hday : expr.dayMatches day = true) (hhour : hour ∈ expr.hours)
    (hminute : minute ∈ expr.minutes) (hstart : start ≤ wallOf day hour minute) :
    seconds (resolveWall zone (wallOf day hour minute)) ≤ after := by
  rw [daySlot, if_pos hday, List.findSome?_eq_none_iff] at h
  exact hourSlot_none hformed (h hour ((Finset.mem_sort _).mpr hhour)) hminute hstart

/-- A slot that the walk finds in a day, and the wall times of the day before it. -/
theorem daySlot_some {slot : Instant} (hformed : expr.WellFormed)
    (h : daySlot expr zone after start day = some slot) :
    ∃ hour ∈ expr.hours, ∃ minute ∈ expr.minutes, expr.dayMatches day = true ∧
      slot = seconds (resolveWall zone (wallOf day hour minute)) ∧ after < slot ∧
      start ≤ wallOf day hour minute ∧
      ∀ hour' ∈ expr.hours, ∀ minute' ∈ expr.minutes, start ≤ wallOf day hour' minute' →
        wallOf day hour' minute' < wallOf day hour minute →
        seconds (resolveWall zone (wallOf day hour' minute')) ≤ after := by
  unfold daySlot at h
  split at h
  · rename_i hday
    obtain ⟨hour, hhour, hfound, hhours⟩ := findSome?_first (Finset.sortedLT_sort expr.hours).pairwise h
    unfold hourSlot at hfound
    split at hfound
    · cases hfound
    · rename_i hkept
      obtain ⟨minute, hminute, hfound, hminutes⟩ :=
        findSome?_first (Finset.sortedLT_sort expr.minutes).pairwise hfound
      rw [Finset.mem_sort] at hhour hminute
      unfold minuteSlot at hfound
      dsimp only at hfound
      split at hfound
      · cases hfound
      · rename_i hstart
        split at hfound
        · rename_i hafter
          cases hfound
          refine ⟨hour, hhour, minute, hminute, hday, rfl, hafter, not_lt.mp hstart, ?_⟩
          intro hour' hhour' minute' hminute' hstart' hlt
          have hbound := hformed.minutes.2 minute hminute
          have hbound' := hformed.minutes.2 minute' hminute'
          unfold wallOf at hlt
          rcases lt_trichotomy hour' hour with hless | rfl | hmore
          · exact hourSlot_none hformed (hhours hour' ((Finset.mem_sort _).mpr hhour') hless) hminute' hstart'
          · exact minuteSlot_none (hminutes minute' ((Finset.mem_sort _).mpr hminute') (by omega)) hstart'
          · omega
        · cases hfound
  · cases h

theorem nextAfter_ok {slot : Instant} (h : nextAfter expr after zone = .ok slot) :
    ∃ ahead < searchDays,
      daySlot expr zone after (startOf zone after) (dayOf (startOf zone after) + ahead) = some slot ∧
      ∀ less < ahead,
        daySlot expr zone after (startOf zone after) (dayOf (startOf zone after) + (less : Nat)) = none := by
  unfold nextAfter at h
  dsimp only at h
  split at h
  · rename_i found hfound
    cases h
    obtain ⟨ahead, hmem, hslot, hless⟩ := findSome?_first List.pairwise_lt_range hfound
    rw [List.mem_range] at hmem
    refine ⟨ahead, hmem, hslot, ?_⟩
    intro less hlt
    have hin : less ∈ List.range searchDays := List.mem_range.mpr (Nat.lt_trans hlt hmem)
    exact hless less hin hlt
  · cases h

/-- The answer is the instant of a wall time, and the earlier ones of the walk are not past. -/
theorem nextAfter_wall {slot : Instant} (hformed : expr.WellFormed) (h : nextAfter expr after zone = .ok slot) :
    ∃ wall, expr.MatchesWall wall ∧ slot = seconds (resolveWall zone wall) ∧ after < slot ∧
      (∃ ahead < searchDays, dayOf wall = dayOf (startOf zone after) + (ahead : Nat)) ∧
      ∀ wall', expr.MatchesWall wall' → startOf zone after ≤ wall' → wall' < wall →
        seconds (resolveWall zone wall') ≤ after := by
  obtain ⟨ahead, hahead, hslot, hless⟩ := nextAfter_ok h
  obtain ⟨hour, hhour, minute, hminute, hday, rfl, hafter, hstart, hsame⟩ := daySlot_some hformed hslot
  have hhourLt := hformed.hours.2 hour hhour
  have hminuteLt := hformed.minutes.2 minute hminute
  obtain ⟨on, hon⟩ : ∃ on, dayOf (startOf zone after) + (ahead : Int) = on := ⟨_, rfl⟩
  rw [hon] at hslot hsame hday hstart hafter ⊢
  obtain ⟨hdayEq, hhourEq, hminuteEq, hwhole⟩ := @parts_wallOf on hour minute hhourLt hminuteLt
  have hmatch : expr.dayMatches (dayOf (wallOf on hour minute)) = true :=
    (congrArg expr.dayMatches hdayEq).trans hday
  refine ⟨wallOf on hour minute, ⟨hwhole, by rwa [hminuteEq], by rwa [hhourEq], hmatch⟩, rfl, hafter,
    ⟨ahead, hahead, by rw [hdayEq, hon]⟩, ?_⟩
  intro wall' hmatches hstart' hlt
  have hparts := wallOf_parts hmatches.whole
  have hfrom : dayOf (startOf zone after) ≤ dayOf wall' := by
    unfold dayOf
    omega
  have huntil : dayOf wall' ≤ on := by
    rw [← hdayEq]
    unfold dayOf
    omega
  rcases lt_or_eq_of_le huntil with hearlier | heq
  · have hnone := hless (dayOf wall' - dayOf (startOf zone after)).toNat (by omega)
    have hthat : dayOf (startOf zone after) + ((dayOf wall' - dayOf (startOf zone after)).toNat : Int) =
        dayOf wall' := by omega
    rw [hthat] at hnone
    have hpast := daySlot_none hformed hnone hmatches.day hmatches.hour hmatches.minute (by rwa [hparts])
    rwa [hparts] at hpast
  · rw [heq] at hparts
    have hpast := hsame (hourOf wall') hmatches.hour (minuteOf wall') hmatches.minute
      (by rwa [hparts]) (by rwa [hparts])
    rwa [hparts] at hpast

end Walk

/-! ## The next slot -/

section Separated

variable {expr : CronExpr} {zone : Zone} (hformed : expr.WellFormed) (hsep : zone.Separated)

include hsep in
/-- A wall time before the wall clock of an instant was reached by then. -/
theorem resolveWall_before_start {after : Instant} {wall : Int} (h : wall < startOf zone after) :
    seconds (resolveWall zone wall) ≤ after := by
  have hclock : wall ≤ zone.clock (after / 1000000) := by
    unfold startOf at h
    dsimp only at h
    omega
  exact seconds_le_iff.mpr ((resolveWall_isLeast hsep wall).2 hclock)

include hformed hsep in
theorem nextAfter_isLeast {after slot : Instant} (h : nextAfter expr after zone = .ok slot) :
    IsLeast {s | s ∈ slots expr zone ∧ after < s} slot := by
  obtain ⟨wall, hmatches, rfl, hafter, -, hearlier⟩ := nextAfter_wall hformed h
  refine ⟨⟨⟨wall, hmatches, rfl⟩, hafter⟩, ?_⟩
  rintro _ ⟨⟨wall', hmatches', rfl⟩, hafter'⟩
  have hstart : startOf zone after ≤ wall' := by
    by_contra hbefore
    exact absurd (resolveWall_before_start hsep (not_le.mp hbefore)) (not_le.mpr hafter')
  have horder : wall ≤ wall' := by
    by_contra hlt
    exact absurd (hearlier wall' hmatches' hstart (not_le.mp hlt)) (not_le.mpr hafter')
  have hmono := resolveWall_mono hsep horder
  unfold seconds
  lia

include hformed hsep in
/-- A run of next firings: in order, each a slot, and no slot between the start and the last is left out. -/
theorem nextN_run {count : Nat} {after : Instant} {run : List Instant} (h : nextN expr after zone count = .ok run) :
    run.length = count ∧ (after :: run).Pairwise (· < ·) ∧ (∀ s ∈ run, s ∈ slots expr zone) ∧
      ∀ s ∈ slots expr zone, after < s → s ∈ run ∨ ∀ s' ∈ run, s' < s := by
  induction count generalizing after run with
  | zero =>
    cases h
    refine ⟨rfl, List.pairwise_singleton _ _, ?_, ?_⟩
    · intro s hs
      cases hs
    · intro s _ _
      exact .inr fun s' hs' => absurd hs' List.not_mem_nil
  | succ count ih =>
    obtain ⟨moment, hmoment, h⟩ := bind_eq_ok h
    obtain ⟨more, hmore, h⟩ := bind_eq_ok h
    cases h
    obtain ⟨⟨hslot, hafter⟩, hleast⟩ := nextAfter_isLeast hformed hsep hmoment
    obtain ⟨hlength, hsorted, hslots, hcomplete⟩ := ih hmore
    refine ⟨by rw [List.length_cons, hlength], ?_, ?_, ?_⟩
    · refine List.pairwise_cons.mpr ⟨?_, hsorted⟩
      intro s hs
      rcases List.mem_cons.mp hs with rfl | hs
      · exact hafter
      · exact lt_trans hafter ((List.pairwise_cons.mp hsorted).1 s hs)
    · intro s hs
      rcases List.mem_cons.mp hs with rfl | hs
      · exact hslot
      · exact hslots s hs
    · intro s hs hlater
      rcases lt_or_eq_of_le (hleast ⟨hs, hlater⟩) with hpast | rfl
      · rcases hcomplete s hs hpast with hin | hover
        · exact .inl (List.mem_cons_of_mem moment hin)
        · refine .inr fun s' hs' => ?_
          rcases List.mem_cons.mp hs' with rfl | hs'
          · exact hpast
          · exact hover s' hs'
      · exact .inl List.mem_cons_self

end Separated

/-- In a zone whose changes are apart, `next_after` answers the least slot past its instant, and the
instants of wall times go forward: a gap is its end, and of two the first is taken. -/
theorem nextAfter_successor (py : Python) (text : String) (expr : CronExpr) (zone : Zone)
    (hparse : parse py text = .ok expr) (hsep : zone.Separated) :
    (∀ after slot, nextAfter expr after zone = .ok slot → IsLeast {s | s ∈ slots expr zone ∧ after < s} slot) ∧
      Monotone (resolveWall zone) ∧
      (∀ change wall, zone.Changes change → change + zone.offset (change - 1) ≤ wall →
        wall < change + zone.offset change → resolveWall zone wall = change) ∧
      (∀ t, IsLeast {t' | zone.clock t' = zone.clock t} (resolveWall zone (zone.clock t))) ∧
      ∀ after count run, nextN expr after zone count = .ok run →
        run.length = count ∧ (after :: run).Pairwise (· < ·) ∧ (∀ s ∈ run, s ∈ slots expr zone) ∧
          ∀ s ∈ slots expr zone, after < s → s ∈ run ∨ ∀ s' ∈ run, s' < s := by
  have hformed := wellFormed_of_parse hparse
  refine ⟨fun after slot h => nextAfter_isLeast hformed hsep h, fun wall wall' h => resolveWall_mono hsep h, ?_, ?_, ?_⟩
  · intro change wall hchange hfrom huntil
    exact resolveWall_gap hsep hchange hfrom huntil
  · intro t
    refine ⟨(resolveWall_shown hsep rfl).1, fun t' ht' => ?_⟩
    rw [← show zone.clock t' = zone.clock t from ht']
    exact (resolveWall_shown hsep rfl).2
  · intro after count run h
    exact nextN_run hformed hsep h

/-- Half past one on the last Sunday of March 2026 in London, which its clock skips. -/
theorem nextAfter_successor_london :
    resolveWall (Zone.oneChange 1774746000 0 3600 (by decide) (by decide)) (1774746000 + 1800) = 1774746000 := by
  have hparse : parse Python.ascii "30 1 * * *" = .ok
      { source := "30 1 * * *".toList, minutes := {30}, hours := {1}, days := Finset.Icc 1 31,
        months := Finset.Icc 1 12, weekdays := Finset.Icc 0 6, daysRestricted := false,
        weekdaysRestricted := false } := by decide
  exact (nextAfter_successor Python.ascii "30 1 * * *" _ _ hparse (Zone.separated_oneChange _ _)).2.2.1
    1774746000 _ (by unfold Zone.Changes; decide) (by decide) (by decide)

end SwarmCloud.Cron
