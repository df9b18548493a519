import Mathlib.Data.Int.Order.Basic
import Mathlib.Tactic.Linarith
import Mathlib.Data.List.Range
import Mathlib.Tactic.Ring

/-! # The proleptic Gregorian calendar

Days are counted from the first of January of year 1, day 1. A year that starts
in March ends with the leap day if it has one, so the day of such a year tells
the month and the day of the month whatever the year is. All years are there,
also those before year 1.
-/

namespace SwarmCloud.Lib

structure Date where
  year : Int
  month : Nat
  day : Nat
deriving DecidableEq, Repr

def isLeap (year : Int) : Prop := year % 4 = 0 ∧ (year % 100 ≠ 0 ∨ year % 400 = 0)

instance (year : Int) : Decidable (isLeap year) := inferInstanceAs (Decidable (_ ∧ _))

def daysInMonth (year : Int) : Nat → Nat
  | 2 => if isLeap year then 29 else 28
  | 4 | 6 | 9 | 11 => 30
  | _ => 31

def Date.Valid (date : Date) : Prop :=
  1 ≤ date.month ∧ date.month ≤ 12 ∧ 1 ≤ date.day ∧ date.day ≤ daysInMonth date.year date.month

def daysBeforeYear (year : Int) : Int :=
  (year - 1) * 365 + (year - 1) / 4 - (year - 1) / 100 + (year - 1) / 400

/-- The days of a common year before its month. -/
def daysBeforeMonth : Nat → Nat
  | 2 => 31
  | 3 => 59
  | 4 => 90
  | 5 => 120
  | 6 => 151
  | 7 => 181
  | 8 => 212
  | 9 => 243
  | 10 => 273
  | 11 => 304
  | 12 => 334
  | _ => 0

def Date.toOrdinal (date : Date) : Int :=
  daysBeforeYear date.year + daysBeforeMonth date.month +
    (if 2 < date.month ∧ isLeap date.year then 1 else 0) + date.day

/-! ## Years from March to February -/

/-- The first of March. -/
def marchFirst (year : Int) : Int := 365 * year + year / 4 - year / 100 + year / 400 - 305

/-- The days from the first of March to the end of the February after it. -/
def marchLength (year : Int) : Int := if isLeap (year + 1) then 366 else 365

/-- The year from March on that a day is in. -/
def marchYear (ordinal : Int) : Int :=
  let n400 := (ordinal + 305) / 146097
  let n := (ordinal + 305) % 146097
  let n100 := min (n / 36524) 3
  let n4 := (n - 36524 * n100) / 1461
  let n1 := min ((n - 36524 * n100 - 1461 * n4) / 365) 3
  400 * n400 + 100 * n100 + 4 * n4 + n1

theorem marchFirst_succ (year : Int) : marchFirst (year + 1) = marchFirst year + marchLength year := by
  by_cases hleap : isLeap (year + 1)
  · rw [marchLength, if_pos hleap]
    unfold marchFirst
    unfold isLeap at hleap
    omega
  · rw [marchLength, if_neg hleap]
    unfold marchFirst
    unfold isLeap at hleap
    omega

theorem marchLength_bounds (year : Int) : 365 ≤ marchLength year ∧ marchLength year ≤ 366 := by
  unfold marchLength
  split <;> omega

theorem marchFirst_of_parts {a b c e : Int} (hb : 0 ≤ b ∧ b ≤ 3) (hc : 0 ≤ c ∧ c ≤ 24) (he : 0 ≤ e ∧ e ≤ 3) :
    marchFirst (400 * a + 100 * b + 4 * c + e) = 146097 * a + 36524 * b + 1461 * c + 365 * e - 305 := by
  have hfour : (400 * a + 100 * b + 4 * c + e) / 4 = 100 * a + 25 * b + c := by omega
  have hhundred : (400 * a + 100 * b + 4 * c + e) / 100 = 4 * a + b := by omega
  have hfourHundred : (400 * a + 100 * b + 4 * c + e) / 400 = a := by omega
  rw [marchFirst, hfour, hhundred, hfourHundred]
  omega

/-- The day is in its year. -/
theorem marchYear_spec (ordinal : Int) :
    marchFirst (marchYear ordinal) ≤ ordinal ∧ ordinal < marchFirst (marchYear ordinal + 1) := by
  rw [marchFirst_succ]
  unfold marchYear
  dsimp only
  generalize hn400 : (ordinal + 305) / 146097 = n400
  generalize hn : (ordinal + 305) % 146097 = n
  generalize hn100 : min (n / 36524) 3 = n100
  generalize hn4 : (n - 36524 * n100) / 1461 = n4
  generalize hn1 : min ((n - 36524 * n100 - 1461 * n4) / 365) 3 = n1
  have h100 : 0 ≤ n100 ∧ n100 ≤ 3 := by omega
  have hrest100 : 0 ≤ n - 36524 * n100 ∧ n - 36524 * n100 ≤ 36524 := by omega
  have h4 : 0 ≤ n4 ∧ n4 ≤ 24 := by omega
  have hrest4 : 0 ≤ n - 36524 * n100 - 1461 * n4 ∧ n - 36524 * n100 - 1461 * n4 ≤ 1460 := by omega
  have h1 : 0 ≤ n1 ∧ n1 ≤ 3 := by omega
  rw [marchFirst_of_parts h100 h4 h1]
  constructor
  · omega
  · by_cases hleap : isLeap (400 * n400 + 100 * n100 + 4 * n4 + n1 + 1)
    · rw [marchLength, if_pos hleap]
      unfold isLeap at hleap
      omega
    · -- not the last of four years, or the last of a century that is not the fourth
      rw [marchLength, if_neg hleap]
      unfold isLeap at hleap
      omega

theorem marchFirst_add_le {year more : Int} (hmore : 0 ≤ more) :
    marchFirst year + 365 * more ≤ marchFirst (year + more) := by
  unfold marchFirst
  omega

theorem marchFirst_add_ge {year more : Int} (hmore : 0 ≤ more) :
    marchFirst (year + more) ≤ marchFirst year + 365 * more + more / 4 + 1 := by
  unfold marchFirst
  omega

theorem marchYear_eq {year ordinal : Int} (h : marchFirst year ≤ ordinal) (h' : ordinal < marchFirst (year + 1)) :
    marchYear ordinal = year := by
  obtain ⟨hfrom, huntil⟩ := marchYear_spec ordinal
  rcases lt_trichotomy (marchYear ordinal) year with hlt | heq | hgt
  · have hmono := @marchFirst_add_le (marchYear ordinal + 1) (year - (marchYear ordinal + 1)) (by omega)
    rw [add_sub_cancel] at hmono
    omega
  · exact heq
  · have hmono := @marchFirst_add_le (year + 1) (marchYear ordinal - (year + 1)) (by omega)
    rw [add_sub_cancel] at hmono
    omega

/-! ## Days of a year from March -/

/-- The month and the day of the month of a day counted from the first of March. -/
def ofMarchDay (n : Nat) : Nat × Nat :=
  let m := (5 * n + 2) / 153
  (if m < 10 then m + 3 else m - 9, n - (153 * m + 2) / 5 + 1)

/-- The day, counted from the first of March, of a day of a month. -/
def marchDay (month day : Nat) : Nat :=
  (if month ≤ 2 then daysBeforeMonth month + 306 else daysBeforeMonth month - 59) + (day - 1)

def Date.ofOrdinal (ordinal : Int) : Date :=
  let year := marchYear ordinal
  let monthDay := ofMarchDay (ordinal - marchFirst year).toNat
  { year := if monthDay.1 ≤ 2 then year + 1 else year, month := monthDay.1, day := monthDay.2 }

/-- Sunday is 0. -/
def weekday (ordinal : Int) : Nat := (ordinal % 7).toNat

theorem ofOrdinal_march {year : Int} {n : Nat} (h : (n : Int) < marchLength year) :
    Date.ofOrdinal (marchFirst year + n) =
      ⟨if (ofMarchDay n).1 ≤ 2 then year + 1 else year, (ofMarchDay n).1, (ofMarchDay n).2⟩ := by
  have hyear : marchYear (marchFirst year + n) = year :=
    marchYear_eq (by omega) (by rw [marchFirst_succ]; omega)
  have hday : (marchFirst year + n - marchFirst year).toNat = n := by omega
  simp only [Date.ofOrdinal, hyear, hday]

theorem exists_march (ordinal : Int) :
    ∃ (year : Int) (n : Nat), (n : Int) < marchLength year ∧ ordinal = marchFirst year + n := by
  obtain ⟨hfrom, huntil⟩ := marchYear_spec ordinal
  rw [marchFirst_succ] at huntil
  exact ⟨marchYear ordinal, (ordinal - marchFirst (marchYear ordinal)).toNat, by omega, by omega⟩

theorem marchDay_ofMarchDay {n : Nat} (h : n < 366) :
    marchDay (ofMarchDay n).1 (ofMarchDay n).2 = n ∧ 1 ≤ (ofMarchDay n).1 ∧ (ofMarchDay n).1 ≤ 12 ∧
      1 ≤ (ofMarchDay n).2 ∧ (n = 365 → (ofMarchDay n).1 = 2 ∧ (ofMarchDay n).2 = 29) := by
  revert n
  decide +kernel

/-- The longest a month can be. -/
def longestMonth : Nat → Nat
  | 2 => 29
  | 4 | 6 | 9 | 11 => 30
  | _ => 31

theorem ofMarchDay_marchDay {month day : Nat} (hmonth : 1 ≤ month ∧ month ≤ 12)
    (hday : 1 ≤ day ∧ day ≤ longestMonth month) :
    ofMarchDay (marchDay month day) = (month, day) ∧ marchDay month day < 366 ∧
      (marchDay month day = 365 → month = 2 ∧ day = 29) := by
  have hback : ∀ month < 13, ∀ day < 32, 1 ≤ month ∧ 1 ≤ day ∧ day ≤ longestMonth month →
      ofMarchDay (marchDay month day) = (month, day) := by decide
  have hlast : ∀ month < 13, ∀ day < 32, 1 ≤ month ∧ 1 ≤ day ∧ day ≤ longestMonth month →
      marchDay month day < 365 ∨ (marchDay month day = 365 ∧ month = 2 ∧ day = 29) := by decide
  have hlong : longestMonth month ≤ 31 := by
    unfold longestMonth
    split <;> omega
  have hgiven : 1 ≤ month ∧ 1 ≤ day ∧ day ≤ longestMonth month := ⟨hmonth.1, hday.1, hday.2⟩
  refine ⟨hback month (by omega) day (by omega) hgiven, ?_⟩
  rcases hlast month (by omega) day (by omega) hgiven with hlt | ⟨heq, hfeb⟩
  · exact ⟨by omega, fun h => by omega⟩
  · exact ⟨by omega, fun _ => hfeb⟩

theorem toOrdinal_march {date : Date} (hmonth : 1 ≤ date.month ∧ date.month ≤ 12) (hday : 1 ≤ date.day) :
    date.toOrdinal =
      marchFirst (if date.month ≤ 2 then date.year - 1 else date.year) + marchDay date.month date.day := by
  have htable : ∀ month < 13, 3 ≤ month → 59 ≤ daysBeforeMonth month := by decide
  unfold Date.toOrdinal marchDay
  by_cases hearly : date.month ≤ 2
  · have hnot : ¬(2 < date.month ∧ isLeap date.year) := by omega
    rw [if_pos hearly, if_pos hearly, if_neg hnot]
    unfold marchFirst daysBeforeYear
    omega
  · have hfrom := htable date.month (by omega) (by omega)
    rw [if_neg hearly, if_neg hearly]
    by_cases hleap : isLeap date.year
    · rw [if_pos ⟨by omega, hleap⟩]
      unfold marchFirst daysBeforeYear
      unfold isLeap at hleap
      omega
    · rw [if_neg fun h => hleap h.2]
      unfold marchFirst daysBeforeYear
      unfold isLeap at hleap
      omega

theorem daysInMonth_le (year : Int) (month : Nat) : daysInMonth year month ≤ longestMonth month := by
  unfold daysInMonth longestMonth
  split
  · split <;> omega
  all_goals exact le_refl _

theorem daysInMonth_common_le (year : Int) (month : Nat) : daysInMonth 1 month ≤ daysInMonth year month := by
  unfold daysInMonth
  split
  · rw [if_neg (by decide)]
    split <;> omega
  all_goals exact le_refl _

/-- A day that exists is the day of its own number. -/
theorem ofOrdinal_toOrdinal {date : Date} (h : date.Valid) : Date.ofOrdinal date.toOrdinal = date := by
  obtain ⟨hmonth, hmonth', hday, hday'⟩ := h
  have hlong := daysInMonth_le date.year date.month
  obtain ⟨hback, hlt, hlast⟩ := ofMarchDay_marchDay ⟨hmonth, hmonth'⟩ ⟨hday, le_trans hday' hlong⟩
  have hlength : (marchDay date.month date.day : Int) <
      marchLength (if date.month ≤ 2 then date.year - 1 else date.year) := by
    unfold marchLength
    by_cases hend : marchDay date.month date.day = 365
    · obtain ⟨hm, hd⟩ := hlast hend
      rw [hm, hd] at hday'
      have hleap : isLeap date.year := by
        by_contra hnot
        simp [daysInMonth, hnot] at hday'
      rw [if_pos (by rwa [if_pos (by omega), sub_add_cancel])]
      omega
    · split <;> omega
  rw [toOrdinal_march ⟨hmonth, hmonth'⟩ hday, ofOrdinal_march hlength, hback]
  have hyear : (if date.month ≤ 2 then (if date.month ≤ 2 then date.year - 1 else date.year) + 1
      else (if date.month ≤ 2 then date.year - 1 else date.year)) = date.year := by
    split <;> omega
  simp only [hyear]

theorem toOrdinal_ofOrdinal (ordinal : Int) : (Date.ofOrdinal ordinal).toOrdinal = ordinal := by
  obtain ⟨year, n, hn, rfl⟩ := exists_march ordinal
  have hlength := marchLength_bounds year
  obtain ⟨hback, hmonth, hmonth', hday, -⟩ := @marchDay_ofMarchDay n (by omega)
  rw [ofOrdinal_march hn, toOrdinal_march ⟨hmonth, hmonth'⟩ hday, hback]
  congr 2
  dsimp only
  split <;> omega

theorem valid_ofOrdinal (ordinal : Int) : (Date.ofOrdinal ordinal).Valid := by
  obtain ⟨year, n, hn, rfl⟩ := exists_march ordinal
  have hlength := marchLength_bounds year
  obtain ⟨-, hmonth, hmonth', hday, -⟩ := @marchDay_ofMarchDay n (by omega)
  rw [ofOrdinal_march hn]
  refine ⟨hmonth, hmonth', hday, ?_⟩
  by_cases hlast : n = 365
  · have hleap : isLeap (year + 1) := by
      by_contra hnot
      rw [marchLength, if_neg hnot] at hn
      omega
    subst hlast
    have hfeb : ofMarchDay 365 = (2, 29) := by decide
    simp [hfeb, daysInMonth, hleap]
  · have hcommon : ∀ n < 365, (ofMarchDay n).2 ≤ daysInMonth 1 (ofMarchDay n).1 := by decide +kernel
    exact le_trans (hcommon n (by omega)) (daysInMonth_common_le _ _)

/-! ## Weekdays -/

theorem weekday_lt (ordinal : Int) : weekday ordinal < 7 := by
  unfold weekday
  omega

/-- In twenty-eight years the first of March before a leap year is each of the weekdays. -/
theorem exists_leap_march (day : Nat) (hday : day < 7) :
    ∃ more < 28, isLeap (2000 + ((more : Nat) : Int) + 1) ∧ weekday (marchFirst (2000 + more)) = day := by
  revert day
  decide

/-- Each day of a month falls on each weekday in some year. -/
theorem exists_on_weekday {month day on : Nat} (hmonth : 1 ≤ month ∧ month ≤ 12)
    (hday : 1 ≤ day ∧ day ≤ longestMonth month) (hon : on < 7) :
    ∃ date : Date, date.Valid ∧ 1 ≤ date.year ∧ date.year ≤ 9999 ∧ date.month = month ∧ date.day = day ∧
      weekday date.toOrdinal = on := by
  obtain ⟨hback, hlt, -⟩ := ofMarchDay_marchDay hmonth hday
  obtain ⟨more, hmore, hleap, hfirst⟩ := exists_leap_march ((on + 366 * 7 - marchDay month day) % 7) (by omega)
  have hlength : (marchDay month day : Int) < marchLength (2000 + more) := by
    rw [marchLength, if_pos hleap]
    omega
  have hdate := ofOrdinal_march hlength
  rw [hback] at hdate
  refine ⟨Date.ofOrdinal (marchFirst (2000 + more) + marchDay month day), valid_ofOrdinal _, ?_, ?_, ?_, ?_, ?_⟩
  · rw [hdate]
    dsimp only
    split <;> omega
  · rw [hdate]
    dsimp only
    split <;> omega
  · rw [hdate]
  · rw [hdate]
  · rw [toOrdinal_ofOrdinal]
    unfold weekday at hfirst ⊢
    omega

/-- The weekday of the first of March. -/
def marchOn (year : Int) : Nat := weekday (marchFirst year)

theorem marchOn_lt (year : Int) : marchOn year < 7 := weekday_lt _

theorem weekday_march (year : Int) (n : Nat) : weekday (marchFirst year + n) = (marchOn year + n) % 7 := by
  unfold marchOn weekday
  omega

theorem marchOn_succ (year : Int) :
    marchOn (year + 1) = (marchOn year + if isLeap (year + 1) then 2 else 1) % 7 := by
  unfold marchOn weekday
  rw [marchFirst_succ]
  by_cases hleap : isLeap (year + 1)
  · rw [marchLength, if_pos hleap, if_pos hleap]
    omega
  · rw [marchLength, if_neg hleap, if_neg hleap]
    omega

/-- The first of March goes through the weekdays; the one before it that a leap day skips is that of the
leap day. -/
theorem exists_year_on {on : Nat} (hon : on < 7) (year : Int) :
    ∃ more < 7, marchOn (year + (more : Nat)) = on ∨
      (isLeap (year + (more : Nat) + 1) ∧ (marchOn (year + (more : Nat)) + 365) % 7 = on) := by
  obtain ⟨left, hleft⟩ : ∃ left, (on + 7 - marchOn year) % 7 = left := ⟨_, rfl⟩
  suffices h : ∃ more ≤ left, marchOn (year + (more : Nat)) = on ∨
      (isLeap (year + (more : Nat) + 1) ∧ (marchOn (year + (more : Nat)) + 365) % 7 = on) by
    obtain ⟨more, hmore, h⟩ := h
    exact ⟨more, by omega, h⟩
  induction left using Nat.strong_induction_on generalizing year with
  | _ left ih =>
    have hlt := marchOn_lt year
    have hsucc := marchOn_succ year
    by_cases hhere : marchOn year = on
    · exact ⟨0, Nat.zero_le _, .inl (by simpa using hhere)⟩
    · by_cases hskip : isLeap (year + 1) ∧ (marchOn year + 365) % 7 = on
      · exact ⟨0, Nat.zero_le _, .inr (by simpa using hskip)⟩
      · have hnext : (on + 7 - marchOn (year + 1)) % 7 < left := by
          by_cases hleap : isLeap (year + 1)
          · have hother : (marchOn year + 365) % 7 ≠ on := fun h => hskip ⟨hleap, h⟩
            rw [if_pos hleap] at hsucc
            omega
          · rw [if_neg hleap] at hsucc
            omega
        obtain ⟨more, hmore, h⟩ := ih _ hnext (year + 1) rfl
        have hsame : year + 1 + (more : Int) = year + ((more + 1 : Nat) : Int) := by
          push_cast
          ring
        rw [hsame] at h
        exact ⟨more + 1, by omega, h⟩

/-! ## The cycle of 400 years -/

/-- `marchOn` of a year of the cycle. -/
def cycleOn (year : Nat) : Nat := (year + year / 4 + 6 * (year / 100) + year / 400 + 3) % 7

def cycleLeap (year : Nat) : Bool := year % 4 == 0 && (year % 100 != 0 || year % 400 == 0)

theorem marchOn_cycle (year : Int) (more : Nat) :
    marchOn (year + more) = cycleOn ((year % 400).toNat + more) := by
  have hparts : year + more = 400 * (year / 400) + (((year % 400).toNat + more : Nat) : Int) := by omega
  generalize year / 400 = cycles at hparts
  generalize (year % 400).toNat + more = y at hparts ⊢
  have hfour : (400 * cycles + (y : Int)) / 4 = 100 * cycles + ((y / 4 : Nat) : Int) := by omega
  have hhundred : (400 * cycles + (y : Int)) / 100 = 4 * cycles + ((y / 100 : Nat) : Int) := by omega
  have hfourHundred : (400 * cycles + (y : Int)) / 400 = cycles + ((y / 400 : Nat) : Int) := by omega
  rw [hparts, marchOn, weekday, marchFirst, hfour, hhundred, hfourHundred, cycleOn]
  generalize y / 4 = fours
  generalize y / 100 = hundreds
  generalize y / 400 = fourHundreds
  omega

theorem isLeap_cycle (year : Int) (more : Nat) :
    isLeap (year + more) ↔ cycleLeap ((year % 400).toNat + more) = true := by
  unfold isLeap cycleLeap
  simp only [Bool.and_eq_true, Bool.or_eq_true, beq_iff_eq, bne_iff_ne]
  omega

end SwarmCloud.Lib
