import Mathlib.Data.Finset.Card
import Mathlib.Tactic.IntervalCases
import SwarmCloud.Cron.Gaps

/-! # Which expressions come back in time

The runs of days without a match, told from the sets of an expression. Where one
of the day fields begins with `*`, a day has to be in both sets. The days of a
year from March on are then told by the weekday of its first of March: two such
weekdays come back within seven years whatever they are, one alone stays away for
ten and more, and a leap day may or may not fill the gap.
-/

namespace SwarmCloud.Cron

open Lib Common

namespace CronExpr

variable (expr : CronExpr)

/-- The days the expression chooses in a year from March on, the leap day left out. -/
def marchDays : Finset Nat :=
  (Finset.range 365).filter fun n => (ofMarchDay n).1 ∈ expr.months ∧ (ofMarchDay n).2 ∈ expr.days

def LeapDay : Prop := 2 ∈ expr.months ∧ 29 ∈ expr.days

/-- The weekdays of the first of March with which one of those days is on a chosen weekday. -/
def marchWeekdays : Finset Nat :=
  (Finset.range 7).filter fun first => ∃ n ∈ expr.marchDays, (first + n) % 7 ∈ expr.weekdays

/-- The expression names a day often enough for the search. -/
def Recurs : Prop :=
  (expr.daysRestricted = true ∧ expr.weekdaysRestricted = true) ∨
    2 ≤ expr.marchWeekdays.card ∨
    (expr.LeapDay ∧ expr.marchDays = ∅ ∧ {1, 3, 5, 6} ⊆ expr.weekdays ∧
      (2 ∈ expr.weekdays ∨ 4 ∈ expr.weekdays)) ∨
    (expr.LeapDay ∧ (marchDay 2 26 ∈ expr.marchDays ∨
      (expr.marchDays.Nonempty ∧ ∀ n ∈ expr.marchDays, n % 7 = 0)))

instance : Decidable expr.LeapDay := inferInstanceAs (Decidable (_ ∧ _))

instance : Decidable expr.Recurs := inferInstanceAs (Decidable (_ ∨ _ ∨ _ ∨ _))

end CronExpr

variable {expr : CronExpr}

theorem mem_marchWeekdays {first : Nat} :
    first ∈ expr.marchWeekdays ↔ first < 7 ∧ ∃ n ∈ expr.marchDays, (first + n) % 7 ∈ expr.weekdays := by
  rw [CronExpr.marchWeekdays, Finset.mem_filter, Finset.mem_range]

theorem mem_marchDays {n : Nat} :
    n ∈ expr.marchDays ↔ n < 365 ∧ (ofMarchDay n).1 ∈ expr.months ∧ (ofMarchDay n).2 ∈ expr.days := by
  rw [CronExpr.marchDays, Finset.mem_filter, Finset.mem_range]

/-! ## Days of a year from March -/

theorem dayMatches_march (hmode : ¬ (expr.daysRestricted = true ∧ expr.weekdaysRestricted = true)) {year : Int}
    {n : Nat} (hn : (n : Int) < marchLength year) :
    expr.dayMatches (marchFirst year + n) = true ↔
      ((ofMarchDay n).1 ∈ expr.months ∧ (ofMarchDay n).2 ∈ expr.days) ∧
        (marchOn year + n) % 7 ∈ expr.weekdays := by
  rw [dayMatches_iff, if_neg hmode, ofOrdinal_march hn, weekday_march, and_assoc]

theorem dayMatches_of_marchDay (hmode : ¬ (expr.daysRestricted = true ∧ expr.weekdaysRestricted = true))
    {year : Int} {n : Nat} (hn : n ∈ expr.marchDays) (hon : (marchOn year + n) % 7 ∈ expr.weekdays) :
    expr.dayMatches (marchFirst year + n) = true := by
  obtain ⟨hlt, hchosen⟩ := mem_marchDays.mp hn
  have hlength := marchLength_bounds year
  exact (dayMatches_march hmode (by omega)).mpr ⟨hchosen, hon⟩

theorem leapDay_iff : expr.LeapDay ↔ (ofMarchDay 365).1 ∈ expr.months ∧ (ofMarchDay 365).2 ∈ expr.days := by
  have hlast : ofMarchDay 365 = (2, 29) := by decide
  rw [hlast]
  rfl

theorem dayMatches_of_leapDay (hmode : ¬ (expr.daysRestricted = true ∧ expr.weekdaysRestricted = true))
    {year : Int} (hleap : isLeap (year + 1)) (hday : expr.LeapDay) (hon : (marchOn year + 365) % 7 ∈ expr.weekdays) :
    expr.dayMatches (marchFirst year + (365 : Nat)) = true := by
  have hlength : ((365 : Nat) : Int) < marchLength year := by
    rw [marchLength, if_pos hleap]
    decide
  exact (dayMatches_march hmode hlength).mpr ⟨leapDay_iff.mp hday, hon⟩

/-- What a matching day of such a year is: one of the chosen days, or the leap day. -/
theorem cases_of_dayMatches (hmode : ¬ (expr.daysRestricted = true ∧ expr.weekdaysRestricted = true))
    {year : Int} {n : Nat} (hn : (n : Int) < marchLength year) (h : expr.dayMatches (marchFirst year + n) = true) :
    (n ∈ expr.marchDays ∧ marchOn year ∈ expr.marchWeekdays ∧ (marchOn year + n) % 7 ∈ expr.weekdays) ∨
      (n = 365 ∧ isLeap (year + 1) ∧ expr.LeapDay ∧ (marchOn year + 365) % 7 ∈ expr.weekdays) := by
  obtain ⟨hchosen, hon⟩ := (dayMatches_march hmode hn).mp h
  rcases Nat.lt_or_ge n 365 with hlt | hge
  · have hmem := mem_marchDays.mpr ⟨hlt, hchosen⟩
    exact .inl ⟨hmem, mem_marchWeekdays.mpr ⟨marchOn_lt year, n, hmem, hon⟩, hon⟩
  · have hleap : isLeap (year + 1) := by
      by_contra hnot
      rw [marchLength, if_neg hnot] at hn
      omega
    have hlast : n = 365 := by
      rw [marchLength, if_pos hleap] at hn
      omega
    subst hlast
    exact .inr ⟨rfl, hleap, leapDay_iff.mpr hchosen, hon⟩

/-! ## Days that come -/

/-- A match in one of the eight years after the year of a day is near enough. -/
theorem covered_of_years
    (h : ∀ year : Int, ∃ more < 8, ∃ n : Nat, (n : Int) < marchLength (year + (more : Nat)) ∧
      expr.dayMatches (marchFirst (year + (more : Nat)) + n) = true) : expr.Covered := by
  intro day
  obtain ⟨hfrom, huntil⟩ := marchYear_spec day
  obtain ⟨more, hmore, n, hn, hmatch⟩ := h (marchYear day + 1)
  have hfirst := @marchFirst_add_le (marchYear day + 1) more (by omega)
  have hlast := @marchFirst_add_ge (marchYear day) (more + 2) (by omega)
  have hnext := marchFirst_succ (marchYear day + 1 + more)
  have hsame : marchYear day + 1 + (more : Int) + 1 = marchYear day + (more + 2) := by ring
  rw [hsame] at hnext
  refine ⟨(marchFirst (marchYear day + 1 + more) + n - day).toNat, ?_, ?_⟩
  · have hdays : searchDays - 3 = 3291 := rfl
    omega
  · have hat : day + ((marchFirst (marchYear day + 1 + more) + n - day).toNat : Int) =
        marchFirst (marchYear day + 1 + more) + n := by omega
    rwa [hat]

theorem exists_year_of_two {first second : Nat} (hfirst : first < 7) (hsecond : second < 7) (hne : first ≠ second)
    (year : Int) : ∃ more < 7, marchOn (year + (more : Nat)) = first ∨ marchOn (year + (more : Nat)) = second := by
  have hcycle : ∀ y < 400, ∃ missed < 7, ∀ on < 7, on = missed ∨ ∃ more < 7, cycleOn (y + more) = on := by
    decide +kernel
  obtain ⟨missed, -, hall⟩ := hcycle (year % 400).toNat (by omega)
  rcases hall first hfirst with hmissed | ⟨more, hmore, hon⟩
  · rcases hall second hsecond with hmissed' | ⟨more, hmore, hon⟩
    · exact absurd (hmissed.trans hmissed'.symm) hne
    · exact ⟨more, hmore, .inr (by rw [marchOn_cycle, hon])⟩
  · exact ⟨more, hmore, .inl (by rw [marchOn_cycle, hon])⟩

/-- Either day will do: each month has each weekday in its first week. -/
theorem covered_of_either (hformed : expr.WellFormed)
    (hmode : expr.daysRestricted = true ∧ expr.weekdaysRestricted = true) : expr.Covered := by
  obtain ⟨month, hmonth⟩ := hformed.months.1
  obtain ⟨on, hon⟩ := hformed.weekdays.1
  have honLt := hformed.weekdays.2 on hon
  refine covered_of_years fun year => ⟨0, by decide, ?_⟩
  rw [Nat.cast_zero, add_zero]
  obtain ⟨back, hback⟩ : ∃ back, (on + 7 * 60 - (marchOn year + marchDay month 1)) % 7 = back := ⟨_, rfl⟩
  have hfirstWeek : 1 ≤ 1 + back ∧ 1 + back ≤ longestMonth month := by
    unfold longestMonth
    split <;> omega
  have hfirst : 1 ≤ 1 ∧ 1 ≤ longestMonth month := ⟨le_refl 1, by omega⟩
  obtain ⟨hdate, hlt, hlast⟩ := ofMarchDay_marchDay (hformed.months.2 month hmonth) hfirstWeek
  have hfirstLt := (ofMarchDay_marchDay (hformed.months.2 month hmonth) hfirst).2.1
  have hsame : marchDay month (1 + back) = marchDay month 1 + back := by
    unfold marchDay
    omega
  have hcommon : marchDay month (1 + back) ≠ 365 := fun h => by
    have := (hlast h).2
    omega
  have hlength := marchLength_bounds year
  have hn : ((marchDay month (1 + back) : Nat) : Int) < marchLength year := by omega
  refine ⟨marchDay month (1 + back), hn, dayMatches_iff.mpr ?_⟩
  rw [if_pos hmode, ofOrdinal_march hn, weekday_march, hdate]
  refine ⟨hmonth, .inr ?_⟩
  have hright : (marchOn year + marchDay month (1 + back)) % 7 = on := by
    have hmarch := marchOn_lt year
    omega
  rwa [hright]

section OneMode

variable (hmode : ¬ (expr.daysRestricted = true ∧ expr.weekdaysRestricted = true))

include hmode in
theorem covered_of_two (h : 2 ≤ expr.marchWeekdays.card) : expr.Covered := by
  obtain ⟨first, hfirst, second, hsecond, hne⟩ := Finset.one_lt_card.mp h
  obtain ⟨hfirstLt, n, hn, hon⟩ := mem_marchWeekdays.mp hfirst
  obtain ⟨hsecondLt, n', hn', hon'⟩ := mem_marchWeekdays.mp hsecond
  refine covered_of_years fun year => ?_
  obtain ⟨more, hmore, hyear⟩ := exists_year_of_two hfirstLt hsecondLt hne year
  have hlength := marchLength_bounds (year + more)
  have hlt := (mem_marchDays.mp hn).1
  have hlt' := (mem_marchDays.mp hn').1
  rcases hyear with hyear | hyear
  · exact ⟨more, by omega, n, by omega, dayMatches_of_marchDay hmode hn (by rwa [hyear])⟩
  · exact ⟨more, by omega, n', by omega, dayMatches_of_marchDay hmode hn' (by rwa [hyear])⟩

/-- A chosen first day of a month is a day of the year from March. -/
theorem first_mem_marchDays (hformed : expr.WellFormed) {month : Nat} (hmonth : month ∈ expr.months)
    (hfirst : 1 ∈ expr.days) : marchDay month 1 ∈ expr.marchDays := by
  have hlong : 1 ≤ 1 ∧ 1 ≤ longestMonth month := by
    unfold longestMonth
    split <;> decide
  obtain ⟨hdate, hlt, hlast⟩ := ofMarchDay_marchDay (hformed.months.2 month hmonth) hlong
  have hcommon : marchDay month 1 ≠ 365 := fun h => absurd (hlast h).2 (by decide)
  refine mem_marchDays.mpr ⟨by omega, ?_, ?_⟩
  · rwa [hdate]
  · rwa [hdate]

include hmode in
/-- Where no first of a month is chosen, the weekdays begin with `*` and Sunday is one. -/
theorem sunday_or_first (hformed : expr.WellFormed) : 0 ∈ expr.weekdays ∨ 1 ∈ expr.days := by
  cases hdays : expr.daysRestricted with
  | false => exact .inr (hformed.daysStarred hdays)
  | true =>
    cases hweek : expr.weekdaysRestricted with
    | false => exact .inl (hformed.weekdaysStarred hweek)
    | true => exact absurd ⟨hdays, hweek⟩ hmode

theorem leap_match (hday : expr.LeapDay) {year : Int} {more : Nat}
    (hmode : ¬ (expr.daysRestricted = true ∧ expr.weekdaysRestricted = true)) (hleap : isLeap (year + more + 1))
    (hon : (marchOn (year + more) + 365) % 7 ∈ expr.weekdays) :
    ∃ n : Nat, (n : Int) < marchLength (year + more) ∧ expr.dayMatches (marchFirst (year + more) + n) = true := by
  refine ⟨365, ?_, dayMatches_of_leapDay hmode hleap hday hon⟩
  rw [marchLength, if_pos hleap]
  decide

include hmode in
/-- Only the leap day is chosen: no two leap days in a row may be left out around a common century. -/
theorem covered_of_leapDay (hformed : expr.WellFormed) (hday : expr.LeapDay) (hnone : expr.marchDays = ∅)
    (hweek : {1, 3, 5, 6} ⊆ expr.weekdays) (htwo : 2 ∈ expr.weekdays ∨ 4 ∈ expr.weekdays) : expr.Covered := by
  have hsunday : 0 ∈ expr.weekdays := by
    rcases sunday_or_first hmode hformed with hsunday | hfirst
    · exact hsunday
    · have hmem := first_mem_marchDays hformed hday.1 hfirst
      rw [hnone] at hmem
      exact absurd hmem (Finset.notMem_empty _)
  have hone : 1 ∈ expr.weekdays := hweek (by decide)
  have hthree : 3 ∈ expr.weekdays := hweek (by decide)
  have hfive : 5 ∈ expr.weekdays := hweek (by decide)
  have hsix : 6 ∈ expr.weekdays := hweek (by decide)
  have hcycle : ∀ missed ∈ [2, 4], ∀ y < 400, ∃ more < 8,
      cycleLeap (y + (more + 1)) = true ∧ (cycleOn (y + more) + 365) % 7 ≠ missed := by decide +kernel
  have hyears : ∀ missed ∈ [2, 4], (∀ on < 7, on ≠ missed → on ∈ expr.weekdays) → expr.Covered := by
    intro missed hmissed hothers
    refine covered_of_years fun year => ?_
    obtain ⟨more, hmore, hleap, hne⟩ := hcycle missed hmissed (year % 400).toNat (by omega)
    rw [← isLeap_cycle] at hleap
    rw [← marchOn_cycle] at hne
    push_cast at hleap
    rw [← add_assoc] at hleap
    exact ⟨more, hmore, leap_match hday hmode hleap (hothers _ (Nat.mod_lt _ (by decide)) hne)⟩
  rcases htwo with htwo | hfour
  · refine hyears 4 (by decide) fun on hon hne => ?_
    interval_cases on <;> first | assumption | exact absurd rfl hne
  · refine hyears 2 (by decide) fun on hon hne => ?_
    interval_cases on <;> first | assumption | exact absurd rfl hne

include hmode in
/-- The chosen days share the weekday of the first of March: the leap day is there in the years it skips. -/
theorem covered_of_skipped (hformed : expr.WellFormed) (hday : expr.LeapDay) (hsome : expr.marchDays.Nonempty)
    (hweeks : ∀ n ∈ expr.marchDays, n % 7 = 0) : expr.Covered := by
  obtain ⟨n, hn⟩ := hsome
  obtain ⟨on, hon⟩ := hformed.weekdays.1
  have honLt := hformed.weekdays.2 on hon
  refine covered_of_years fun year => ?_
  obtain ⟨more, hmore, hyear | ⟨hleap, hyear⟩⟩ := exists_year_on honLt year
  · have hlength := marchLength_bounds (year + more)
    have hlt := (mem_marchDays.mp hn).1
    have hsame : (marchOn (year + more) + n) % 7 = on := by
      have := hweeks n hn
      omega
    exact ⟨more, by omega, n, by omega, dayMatches_of_marchDay hmode hn (by rwa [hsame])⟩
  · exact ⟨more, by omega, leap_match hday hmode hleap (by rwa [hyear])⟩

theorem mem_marchWeekdays_of {n on : Nat} (hn : n ∈ expr.marchDays) (hon : on ∈ expr.weekdays) (hlt : on < 7) :
    (on + 420 - n) % 7 ∈ expr.marchWeekdays := by
  have hn365 := (mem_marchDays.mp hn).1
  refine mem_marchWeekdays.mpr ⟨Nat.mod_lt _ (by decide), n, hn, ?_⟩
  have hsame : ((on + 420 - n) % 7 + n) % 7 = on := by omega
  rwa [hsame]

include hmode in
/-- The 26th of February and the leap day, on Sundays: nine years and three days apart at most. -/
theorem covered_of_february (hformed : expr.WellFormed) (hday : expr.LeapDay)
    (hlast : marchDay 2 26 ∈ expr.marchDays) : expr.Covered := by
  by_cases htwo : 2 ≤ expr.marchWeekdays.card
  · exact covered_of_two hmode htwo
  · have hsunday : 0 ∈ expr.weekdays := by
      rcases sunday_or_first hmode hformed with hsunday | hfirst
      · exact hsunday
      · obtain ⟨on, hon⟩ := hformed.weekdays.1
        have honLt := hformed.weekdays.2 on hon
        have hone := mem_marchWeekdays_of (first_mem_marchDays hformed hday.1 hfirst) hon honLt
        have hother := mem_marchWeekdays_of hlast hon honLt
        have hne : (on + 420 - marchDay 2 1) % 7 ≠ (on + 420 - marchDay 2 26) % 7 := by
          have h337 : marchDay 2 1 = 337 := by decide
          have h362 : marchDay 2 26 = 362 := by decide
          omega
        exact absurd (Finset.one_lt_card.mpr ⟨_, hone, _, hother, hne⟩) htwo
    have hcycle : ∀ y < 400, ∃ more < 9,
        cycleOn (y + more) = 2 ∨ (cycleLeap (y + (more + 1)) = true ∧ cycleOn (y + more) = 6) := by decide +kernel
    have hseven : searchDays - 3 = 3291 := rfl
    intro day
    obtain ⟨hfrom, huntil⟩ := marchYear_spec (day - 363)
    obtain ⟨year, hyear⟩ : ∃ year, marchYear (day - 363) + 1 = year := ⟨_, rfl⟩
    have hprev : marchYear (day - 363) = year - 1 := by omega
    rw [hprev] at hfrom
    rw [hyear] at huntil
    obtain ⟨more, hmore, hon⟩ := hcycle (year % 400).toNat (by omega)
    have hnear := @marchFirst_add_le year more (by omega)
    have hfar := @marchFirst_add_ge (year - 1) (more + 1) (by omega)
    have hat : year - 1 + ((more : Int) + 1) = year + more := by ring
    rw [hat] at hfar
    rw [← isLeap_cycle, ← marchOn_cycle] at hon
    push_cast at hon
    rw [← add_assoc] at hon
    rcases hon with hon | ⟨hleap, hon⟩
    · have h362 : marchDay 2 26 = 362 := by decide
      have hmatch := dayMatches_of_marchDay hmode hlast (show (marchOn (year + more) + marchDay 2 26) % 7 ∈ _ by
        rwa [hon])
      refine ⟨(marchFirst (year + more) + marchDay 2 26 - day).toNat, by omega, ?_⟩
      have hthat : day + ((marchFirst (year + more) + marchDay 2 26 - day).toNat : Int) =
          marchFirst (year + more) + marchDay 2 26 := by omega
      rwa [hthat]
    · have hmatch := dayMatches_of_leapDay hmode hleap hday (by rwa [hon])
      refine ⟨(marchFirst (year + more) + (365 : Nat) - day).toNat, by omega, ?_⟩
      have hthat : day + ((marchFirst (year + more) + (365 : Nat) - day).toNat : Int) =
          marchFirst (year + more) + (365 : Nat) := by omega
      rwa [hthat]

theorem covered_of_recurs (hformed : expr.WellFormed) (h : expr.Recurs) : expr.Covered := by
  by_cases hmode : expr.daysRestricted = true ∧ expr.weekdaysRestricted = true
  · exact covered_of_either hformed hmode
  · rcases h with heither | htwo | ⟨hday, hnone, hweek, hmid⟩ | ⟨hday, hlast | ⟨hsome, hweeks⟩⟩
    · exact absurd heither hmode
    · exact covered_of_two hmode htwo
    · exact covered_of_leapDay hmode hformed hday hnone hweek hmid
    · exact covered_of_february hmode hformed hday hlast
    · exact covered_of_skipped hmode hformed hday hsome hweeks

/-! ## Days that stay away -/

/-- Nine years without a match and most of the tenth; the first days of the first may match. -/
theorem no_match_of_years (year : Int) {skip : Nat}
    (h : ∀ more : Nat, more ≤ 9 → ∀ n : Nat, (n : Int) < marchLength (year + more) → (more = 0 → skip ≤ n) →
      (more = 9 → n < 365) → ¬ expr.dayMatches (marchFirst (year + more) + n) = true) {days : Nat}
    (hskip : skip ≤ days) (hdays : days < 3647) : ¬ expr.dayMatches (marchFirst year + days) = true := by
  intro hmatch
  obtain ⟨year', n, hn, hday⟩ := exists_march (marchFirst year + days)
  have hnext := marchFirst_succ year'
  have hfrom : year ≤ year' := by
    by_contra hbefore
    have hmono := @marchFirst_add_le (year' + 1) (year - (year' + 1)) (by omega)
    rw [add_sub_cancel] at hmono
    omega
  obtain ⟨more, rfl⟩ : ∃ more : Nat, year' = year + more := ⟨(year' - year).toNat, by omega⟩
  have hmono := @marchFirst_add_le year more (by omega)
  rw [hday] at hmatch
  refine h more (by omega) n hn ?_ ?_ hmatch
  · rintro rfl
    rw [Nat.cast_zero, add_zero] at hday
    omega
  · rintro rfl
    omega

theorem not_covered_of_years (year : Int) {skip : Nat} (hskip : skip ≤ 356)
    (h : ∀ more : Nat, more ≤ 9 → ∀ n : Nat, (n : Int) < marchLength (year + more) → (more = 0 → skip ≤ n) →
      (more = 9 → n < 365) → ¬ expr.dayMatches (marchFirst (year + more) + n) = true) : ¬ expr.Covered := by
  intro hcovered
  have hseven : searchDays - 3 = 3291 := rfl
  obtain ⟨ahead, hahead, hmatch⟩ := hcovered (marchFirst year + skip)
  have hday : marchFirst year + skip + (ahead : Int) = marchFirst year + ((skip + ahead : Nat) : Int) := by
    push_cast
    ring
  rw [hday] at hmatch
  exact no_match_of_years year h (by omega) (by omega) hmatch

/-- The start of ten years in which the first of March is never on a weekday; nine of them have no leap day
on a Sunday, unless the weekday is Sunday itself or Tuesday. -/
def freeYear : Nat → Int
  | 0 => 27
  | 1 => 11
  | 2 => 23
  | 3 => 7
  | 4 => 19
  | 5 => 98
  | _ => 15

theorem freeYear_spec {first : Nat} (h : first < 7) :
    (∀ more < 10, marchOn (freeYear first + (more : Nat)) ≠ first) ∧
      (first ≠ 0 ∧ first ≠ 2 → ∀ more < 9,
        ¬ (isLeap (freeYear first + (more : Nat) + 1) ∧ (marchOn (freeYear first + (more : Nat)) + 365) % 7 = 0)) := by
  have hon : ∀ first < 7, ∀ more < 10, marchOn (freeYear first + (more : Nat)) ≠ first := by decide
  have hleap : ∀ first < 7, first ≠ 0 ∧ first ≠ 2 → ∀ more < 9, ¬ (isLeap (freeYear first + (more : Nat) + 1) ∧
      (marchOn (freeYear first + (more : Nat)) + 365) % 7 = 0) := by decide
  exact ⟨hon first h, hleap first h⟩

include hmode in
/-- Only the leap day is chosen, and two leap days around a common century are left out. -/
theorem not_covered_of_leapDay {missed : List Nat} {year : Int} (hnone : expr.marchDays = ∅)
    (hmissed : ∀ on ∈ missed, on ∉ expr.weekdays)
    (hyears : ∀ more < 10, isLeap (year + (more : Nat) + 1) → (marchOn (year + (more : Nat)) + 365) % 7 ∈ missed) :
    ¬ expr.Covered := by
  refine not_covered_of_years year (Nat.zero_le 356) fun more hmore n hn _ _ hmatch => ?_
  rcases cases_of_dayMatches hmode hn hmatch with ⟨hmem, -⟩ | ⟨-, hleap, -, hon⟩
  · rw [hnone] at hmem
    exact Finset.notMem_empty _ hmem
  · exact hmissed _ (hyears more (by omega) hleap) hon

include hmode in
/-- One weekday of the first of March, and no leap day between its years. -/
theorem not_covered_of_one {first : Nat} (hfirst : first < 7) (hall : ∀ on ∈ expr.marchWeekdays, on = first)
    (hleap : expr.LeapDay → (∀ year, isLeap (year + 1) → (marchOn year + 365) % 7 ∈ expr.weekdays →
      marchOn year = first) ∨ (first ≠ 0 ∧ first ≠ 2 ∧ ∀ on ∈ expr.weekdays, on = 0)) : ¬ expr.Covered := by
  obtain ⟨hyears, hsundays⟩ := freeYear_spec hfirst
  refine not_covered_of_years (freeYear first) (Nat.zero_le 356) fun more hmore n hn _ hend hmatch => ?_
  rcases cases_of_dayMatches hmode hn hmatch with ⟨-, hmem, -⟩ | ⟨hlast, hyear, hday, hon⟩
  · exact hyears more (by omega) (hall _ hmem)
  · rcases hleap hday with hsame | ⟨hne, hne', hsunday⟩
    · exact hyears more (by omega) (hsame _ hyear hon)
    · have hnine : more ≠ 9 := fun h => by
        have := hend h
        omega
      exact hsundays ⟨hne, hne'⟩ more (by omega) ⟨hyear, hsunday _ hon⟩

include hmode in
/-- The days share the weekday of the 26th of February without being it: from the end of one such February
to the leap day nine years later. -/
theorem not_covered_of_february (hall : ∀ on ∈ expr.marchWeekdays, on = 2)
    (hsunday : ∀ on ∈ expr.weekdays, on = 0) (hdays : ∀ n ∈ expr.marchDays, n < 356) : ¬ expr.Covered := by
  have hon : ∀ more < 9, marchOn (22 + 1 + (more : Nat)) ≠ 2 := by decide
  have hleap : ∀ more < 9, ¬ (isLeap (22 + (more : Nat) + 1) ∧ (marchOn (22 + (more : Nat)) + 365) % 7 = 0) := by
    decide
  refine not_covered_of_years 22 (le_refl 356) fun more hmore n hn hstart hend hmatch => ?_
  rcases cases_of_dayMatches hmode hn hmatch with ⟨hmem, hin, -⟩ | ⟨hlast, hyear, hday, hweek⟩
  · rcases Nat.eq_zero_or_pos more with hzero | hpos
    · have := hdays n hmem
      have := hstart hzero
      omega
    · have hsame : (22 : Int) + 1 + ((more - 1 : Nat) : Int) = 22 + more := by omega
      have hne := hon (more - 1) (by omega)
      rw [hsame] at hne
      exact hne (hall _ hin)
  · have hnine : more ≠ 9 := fun h => by
      have := hend h
      omega
    exact hleap more (by omega) ⟨hyear, hsunday _ hweek⟩

include hmode in
/-- Only the leap day is chosen, without the weekdays it takes. -/
theorem not_covered_of_missing (hnone : expr.marchDays = ∅)
    (h : ¬ ({1, 3, 5, 6} ⊆ expr.weekdays ∧ (2 ∈ expr.weekdays ∨ 4 ∈ expr.weekdays))) : ¬ expr.Covered := by
  have hone : ∀ more < 10, isLeap (192 + (more : Nat) + 1) → (marchOn (192 + (more : Nat)) + 365) % 7 ∈ [1] := by
    decide
  have hthree : ∀ more < 10, isLeap (92 + (more : Nat) + 1) → (marchOn (92 + (more : Nat)) + 365) % 7 ∈ [3] := by
    decide
  have hfive : ∀ more < 10, isLeap (96 + (more : Nat) + 1) → (marchOn (96 + (more : Nat)) + 365) % 7 ∈ [5] := by
    decide
  have hsix : ∀ more < 10, isLeap (292 + (more : Nat) + 1) → (marchOn (292 + (more : Nat)) + 365) % 7 ∈ [6] := by
    decide
  have htwo : ∀ more < 10, isLeap (20 + (more : Nat) + 1) → (marchOn (20 + (more : Nat)) + 365) % 7 ∈ [2, 4] := by
    decide
  have hwithout : ∀ on, on ∉ expr.weekdays → ∀ on' ∈ [on], on' ∉ expr.weekdays := by
    intro on hon on' hmem
    rwa [List.mem_singleton.mp hmem]
  by_cases h1 : 1 ∈ expr.weekdays
  · by_cases h3 : 3 ∈ expr.weekdays
    · by_cases h5 : 5 ∈ expr.weekdays
      · by_cases h6 : 6 ∈ expr.weekdays
        · have hneither : 2 ∉ expr.weekdays ∧ 4 ∉ expr.weekdays := by
            rw [← not_or]
            refine fun hmid => h ⟨?_, hmid⟩
            intro on hon
            simp only [Finset.mem_insert, Finset.mem_singleton] at hon
            rcases hon with rfl | rfl | rfl | rfl <;> assumption
          refine not_covered_of_leapDay hmode hnone ?_ htwo
          intro on hon
          rcases List.mem_cons.mp hon with rfl | hon
          · exact hneither.1
          · rw [List.mem_singleton.mp hon]
            exact hneither.2
        · exact not_covered_of_leapDay hmode hnone (hwithout 6 h6) hsix
      · exact not_covered_of_leapDay hmode hnone (hwithout 5 h5) hfive
    · exact not_covered_of_leapDay hmode hnone (hwithout 3 h3) hthree
  · exact not_covered_of_leapDay hmode hnone (hwithout 1 h1) hone

include hmode in
theorem not_covered_of_some (hformed : expr.WellFormed) (hsome : expr.marchDays.Nonempty)
    (htwo : ¬ 2 ≤ expr.marchWeekdays.card)
    (hleap : ¬ (expr.LeapDay ∧ (marchDay 2 26 ∈ expr.marchDays ∨
      (expr.marchDays.Nonempty ∧ ∀ n ∈ expr.marchDays, n % 7 = 0)))) : ¬ expr.Covered := by
  obtain ⟨n, hn⟩ := hsome
  obtain ⟨on, hon⟩ := hformed.weekdays.1
  have honLt := hformed.weekdays.2 on hon
  have hsame : ∀ first ∈ expr.marchWeekdays, ∀ second ∈ expr.marchWeekdays, first = second :=
    Finset.card_le_one.mp (by omega)
  have hfirst := mem_marchWeekdays_of hn hon honLt
  have honly : ∀ on' ∈ expr.weekdays, on' = on := by
    intro on' hon'
    have honLt' := hformed.weekdays.2 on' hon'
    have := hsame _ (mem_marchWeekdays_of hn hon' honLt') _ hfirst
    have := (mem_marchDays.mp hn).1
    omega
  obtain ⟨first, hfirstEq⟩ : ∃ first, (on + 420 - n) % 7 = first := ⟨_, rfl⟩
  rw [hfirstEq] at hfirst
  have hfirstLt : first < 7 := (mem_marchWeekdays.mp hfirst).1
  have hdays : ∀ n' ∈ expr.marchDays, (first + n') % 7 = on := by
    intro n' hn'
    have := hsame _ (mem_marchWeekdays_of hn' hon honLt) _ hfirst
    have := (mem_marchDays.mp hn').1
    omega
  have hall : ∀ on' ∈ expr.marchWeekdays, on' = first := fun on' hon' => hsame on' hon' first hfirst
  by_cases hday : expr.LeapDay
  · have hnot : marchDay 2 26 ∉ expr.marchDays ∧ ¬ ∀ n ∈ expr.marchDays, n % 7 = 0 := by
      constructor
      · exact fun hmem => hleap ⟨hday, .inl hmem⟩
      · exact fun hweeks => hleap ⟨hday, .inr ⟨⟨n, hn⟩, hweeks⟩⟩
    rcases sunday_or_first hmode hformed with hsunday | hone
    · have hzero : on = 0 := (honly 0 hsunday).symm
      subst hzero
      have hfirstNe : first ≠ 0 := by
        rintro rfl
        exact hnot.2 fun n' hn' => by
          have := hdays n' hn'
          omega
      rcases Nat.lt_or_ge first 2 with hless | hmore
      · exact not_covered_of_one hmode hfirstLt hall fun _ => .inr ⟨hfirstNe, by omega, honly⟩
      · rcases lt_or_eq_of_le hmore with hmore | rfl
        · exact not_covered_of_one hmode hfirstLt hall fun _ => .inr ⟨hfirstNe, by omega, honly⟩
        · refine not_covered_of_february hmode hall honly ?_
          intro n' hn'
          have hweek := hdays n' hn'
          have hlt := (mem_marchDays.mp hn').1
          have h362 : marchDay 2 26 = 362 := by decide
          have hne : n' ≠ 362 := by
            rintro rfl
            exact hnot.1 (by rwa [h362])
          omega
    · -- the first of February is chosen: it has the weekday of the leap day
      have hfeb := hdays _ (first_mem_marchDays hformed hday.1 hone)
      have h337 : marchDay 2 1 = 337 := by decide
      rw [h337] at hfeb
      refine not_covered_of_one hmode hfirstLt hall fun _ => .inl ?_
      intro year _ hmatch
      have hlt := marchOn_lt year
      have := honly _ hmatch
      omega
  · exact not_covered_of_one hmode hfirstLt hall fun h => absurd h hday

include hmode in
theorem not_covered_of_nothing (hnone : expr.marchDays = ∅) (hday : ¬ expr.LeapDay) : ¬ expr.Covered := by
  refine not_covered_of_years 1 (Nat.zero_le 356) fun more _ n hn _ _ hmatch => ?_
  rcases cases_of_dayMatches hmode hn hmatch with ⟨hmem, -⟩ | ⟨-, -, hleap, -⟩
  · rw [hnone] at hmem
    exact Finset.notMem_empty _ hmem
  · exact hday hleap

end OneMode

theorem recurs_of_covered (hformed : expr.WellFormed) (h : expr.Covered) : expr.Recurs := by
  by_contra hnot
  unfold CronExpr.Recurs at hnot
  obtain ⟨hmode, hnot⟩ := not_or.mp hnot
  obtain ⟨htwo, hnot⟩ := not_or.mp hnot
  obtain ⟨hleap, hother⟩ := not_or.mp hnot
  rcases Finset.eq_empty_or_nonempty expr.marchDays with hnone | hsome
  · by_cases hday : expr.LeapDay
    · exact not_covered_of_missing hmode hnone (fun hweek => hleap ⟨hday, hnone, hweek⟩) h
    · exact not_covered_of_nothing hmode hnone hday h
  · exact not_covered_of_some hmode hformed hsome htwo hother h

/-- `next_after` answers at every instant in every zone exactly for the expressions that recur. -/
theorem nextAfter_total_iff (py : Python) (text : String) (expr : CronExpr) (hparse : parse py text = .ok expr) :
    (∀ after zone, ∃ slot, nextAfter expr after zone = .ok slot) ↔ expr.Recurs := by
  have hformed := wellFormed_of_parse hparse
  rw [nextAfter_total_iff_covered hformed]
  exact ⟨recurs_of_covered hformed, covered_of_recurs hformed⟩

/-- After the last leap day before 2100 there is none for eight years. -/
theorem nextAfter_total_iff_century :
    ∃ slot, nextAfter
      { source := "0 0 29 2 *".toList, minutes := {0}, hours := {0}, days := {29}, months := {2},
        weekdays := Finset.Icc 0 6, daysRestricted := true, weekdaysRestricted := false }
      (seconds 3981398400) (Zone.oneChange 0 0 0 (by decide) (by decide)) = .ok slot := by
  have hparse : parse Python.ascii "0 0 29 2 *" = .ok
      { source := "0 0 29 2 *".toList, minutes := {0}, hours := {0}, days := {29}, months := {2},
        weekdays := Finset.Icc 0 6, daysRestricted := true, weekdaysRestricted := false } := by decide
  exact (nextAfter_total_iff Python.ascii "0 0 29 2 *" _ hparse).mpr (by decide) _ _

/-- Midnight of the first of February on a Monday, asked on the second of February 1999: the next is in 2010. -/
theorem nextAfter_gives_up :
    ∃ expr, parse Python.ascii "0 0 */31 2 MON" = .ok expr ∧
      ∀ slot, nextAfter expr (seconds 917913600) (Zone.oneChange 0 0 0 (by decide) (by decide)) ≠ .ok slot := by
  refine ⟨
    { source := "0 0 */31 2 MON".toList, minutes := {0}, hours := {0}, days := {1}, months := {2},
      weekdays := {1}, daysRestricted := false, weekdaysRestricted := true }, by decide +kernel, ?_⟩
  intro slot h
  obtain ⟨ahead, hahead, hslot, -⟩ := nextAfter_ok h
  have hstart : dayOf (startOf (Zone.oneChange 0 0 0 (by decide) (by decide)) (seconds 917913600)) =
      marchFirst 1998 + (338 : Nat) := by decide +kernel
  have hyears : ∀ more < 10, marchOn (1998 + (more : Nat)) ≠ 0 ∨ more = 0 := by decide +kernel
  have hdays : ∀ n < 366, (ofMarchDay n).1 = 2 ∧ (ofMarchDay n).2 = 1 → n = 337 := by decide +kernel
  rw [hstart] at hslot
  unfold daySlot at hslot
  split at hslot
  · rename_i hmatch
    have hday : marchFirst 1998 + ((338 : Nat) : Int) + (ahead : Int) =
        marchFirst 1998 + ((338 + ahead : Nat) : Int) := by
      push_cast
      ring
    rw [hday] at hmatch
    have hlimit : searchDays = 3294 := rfl
    refine no_match_of_years 1998 ?_ (show 338 ≤ 338 + ahead by omega) (by omega) hmatch
    intro more hmore n hn hfirst _ hmatch
    have hlength := marchLength_bounds (1998 + more)
    obtain ⟨hchosen, hon⟩ := (dayMatches_march (by simp) hn).mp hmatch
    rw [Finset.mem_singleton, Finset.mem_singleton] at hchosen
    rw [Finset.mem_singleton] at hon
    have hfeb := hdays n (by omega) hchosen
    have hlt := marchOn_lt (1998 + more)
    rcases hyears more (by omega) with hne | hzero
    · omega
    · have := hfirst hzero
      omega
  · cases hslot

end SwarmCloud.Cron
