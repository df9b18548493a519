import SwarmCloud.Common.Pools
import SwarmCloud.Lib.Dict
import Mathlib.Algebra.Order.Ring.Rat
import Mathlib.Tactic.NormNum

/-! # When an account is back

`Account.assignable` and `Account.next_reset`, over the fields that they read and with
rational utilisations. A window blocks until it resets and a recorded 429 until it ends;
the account is back when the last of them is over, and `next_reset` names the first
window among them.
-/

namespace SwarmCloud.Accounts.Resets

open Common Lib

/-- One rate-limit window as the API reported it. -/
structure WindowReading where
  utilization : Rat
  resetsAt : Instant
deriving DecidableEq, Repr

namespace WindowReading

def remaining (w : WindowReading) : Rat := max 0 (1 - w.utilization)

def isReset (w : WindowReading) (now : Instant) : Bool := w.resetsAt ≤ now

end WindowReading

/-- `WINDOW_FLOORS` over `DEFAULT_ASSIGN_FLOOR`. -/
structure Floors where
  windowFloors : Dict String Rat := [("seven_day", 1 / 20)]
  assignFloor : Rat := 3 / 20

/-- What a call of `assignable` or `next_reset` is given beside the instant. -/
structure Rule where
  floors : Floors := {}
  floor : Option Rat := none
  staleAfter : Int := seconds 1800

def Rule.windowFloor (rule : Rule) (window : String) : Rat :=
  rule.floor.getD ((rule.floors.windowFloors.lookup window).getD rule.floors.assignFloor)

structure Account where
  windows : Dict String WindowReading
  observedAt : Option Instant
  limitedUntil : Option Instant := none
deriving Repr

namespace Account

variable (a : Account) (rule : Rule) (now : Instant)

def isLimited : Bool := a.limitedUntil.any fun until_ : Instant => now < until_

def blockingWindows : Dict String WindowReading :=
  match a.observedAt with
  | none => []
  | some observed =>
    let factor : Rat := if rule.staleAfter < now - observed then 1 / 2 else 1
    a.windows.filter fun item => !item.2.isReset now && item.2.remaining * factor < rule.windowFloor item.1

def assignable : Bool := !a.isLimited now && (a.blockingWindows rule now).isEmpty

/-- The windows that `next_reset` takes for blocking: unreset, and under their floor as they were read. -/
def spentWindows : Dict String WindowReading :=
  a.windows.filter fun item => !item.2.isReset now && item.2.remaining < rule.windowFloor item.1

def nextReset : Option Instant :=
  if a.assignable rule now then none
  else
    let clear := ((a.spentWindows rule now).map fun item => item.2.resetsAt).min?
    match a.limitedUntil.filter fun until_ : Instant => now < until_ with
    | some until_ => some (clear.elim until_ (max until_))
    | none => clear

/-! ## What has to be over -/

/-- The instants after `now` that the account waits for. -/
def waits : List Instant :=
  (a.limitedUntil.filter fun until_ : Instant => now < until_).toList ++
    (if a.observedAt.isSome then a.spentWindows rule now else []).map fun item => item.2.resetsAt

/-- No reading is stale at `now` or at any instant that the account can wait for. -/
def Fresh : Prop :=
  ∀ observed, a.observedAt = some observed →
    ∀ t ∈ now :: a.limitedUntil.toList ++ a.windows.map fun item => item.2.resetsAt, t - observed ≤ rule.staleAfter

variable {a rule now}

theorem waits_after {t : Instant} (ht : t ∈ a.waits rule now) : now < t := by
  rcases List.mem_append.mp ht with ht | ht
  · obtain ⟨-, hlater⟩ := Option.filter_eq_some_iff.mp (Option.mem_toList.mp ht)
    simpa using hlater
  · obtain ⟨item, hitem, rfl⟩ := List.mem_map.mp ht
    split at hitem
    · have hopen := (List.mem_filter.mp hitem).2
      simp only [Bool.and_eq_true, Bool.not_eq_true', WindowReading.isReset, decide_eq_false_iff_not] at hopen
      exact not_le.mp hopen.1
    · cases hitem

theorem Fresh.waits_le (h : a.Fresh rule now) {observed t : Instant} (hobserved : a.observedAt = some observed)
    (ht : t = now ∨ t ∈ a.waits rule now) : t - observed ≤ rule.staleAfter := by
  apply h observed hobserved t
  rcases ht with rfl | ht
  · simp
  · rcases List.mem_append.mp ht with ht | ht
    · have hlimit := (Option.filter_eq_some_iff.mp (Option.mem_toList.mp ht)).1
      simp [hlimit]
    · obtain ⟨item, hitem, rfl⟩ := List.mem_map.mp ht
      split at hitem
      · have hmem := (List.mem_filter.mp hitem).1
        exact List.mem_append_right _ (List.mem_map_of_mem hmem)
      · cases hitem

theorem isReset_eq_true {w : WindowReading} {t : Instant} : w.isReset t = true ↔ w.resetsAt ≤ t := by
  rw [WindowReading.isReset, decide_eq_true_eq]

theorem mem_spentWindows {item : String × WindowReading} : item ∈ a.spentWindows rule now ↔
    item ∈ a.windows ∧ now < item.2.resetsAt ∧ item.2.remaining < rule.windowFloor item.1 := by
  rw [spentWindows, List.mem_filter, Bool.and_eq_true, Bool.not_eq_true', Bool.eq_false_iff, ne_eq, isReset_eq_true,
    not_le, decide_eq_true_eq]

/-- A reading that is not stale counts as it was taken. -/
theorem blockingWindows_of_fresh {t observed : Instant} (hobserved : a.observedAt = some observed)
    (hfresh : t - observed ≤ rule.staleAfter) : a.blockingWindows rule t = a.spentWindows rule t := by
  rw [blockingWindows, hobserved, spentWindows]
  dsimp only
  rw [if_neg (not_lt.mpr hfresh)]
  simp only [mul_one]

/-- From `now` on, the account is assignable once nothing that it waits for is left. -/
theorem assignable_iff {t : Instant} (hlater : now ≤ t)
    (hfresh : ∀ observed, a.observedAt = some observed → t - observed ≤ rule.staleAfter) :
    a.assignable rule t = true ↔ ∀ i ∈ a.waits rule now, i ≤ t := by
  have hlimit : a.isLimited t = false ↔
      ∀ i ∈ (a.limitedUntil.filter fun until_ : Instant => now < until_).toList, i ≤ t := by
    rw [isLimited]
    cases a.limitedUntil with
    | none => simp
    | some until_ =>
      by_cases hnow : now < until_
      · simp [Option.filter, hnow]
      · simp only [Option.any_some, decide_eq_false_iff_not, Option.filter, hnow, decide_false, Bool.false_eq_true,
          if_false, Option.toList_none, List.not_mem_nil, false_implies, implies_true, iff_true]
        lia
  have hwindows : (a.blockingWindows rule t).isEmpty = true ↔
      ∀ i ∈ (if a.observedAt.isSome then a.spentWindows rule now else []).map fun item => item.2.resetsAt, i ≤ t := by
    cases hobserved : a.observedAt with
    | none => simp [blockingWindows, hobserved]
    | some observed =>
      rw [blockingWindows_of_fresh hobserved (hfresh observed hobserved), List.isEmpty_iff,
        List.eq_nil_iff_forall_not_mem, Option.isSome_some, if_pos rfl]
      constructor
      · intro hnone i hi
        obtain ⟨item, hitem, rfl⟩ := List.mem_map.mp hi
        obtain ⟨hmem, -, hunder⟩ := mem_spentWindows.mp hitem
        by_contra hopen
        exact hnone item (mem_spentWindows.mpr ⟨hmem, not_le.mp hopen, hunder⟩)
      · intro hall item hitem
        obtain ⟨hmem, hopen, hunder⟩ := mem_spentWindows.mp hitem
        have hspent := mem_spentWindows.mpr ⟨hmem, hlater.trans_lt hopen, hunder⟩
        exact absurd (hall _ (List.mem_map_of_mem hspent)) (not_le.mpr hopen)
  rw [assignable, Bool.and_eq_true, Bool.not_eq_true', hlimit, hwindows, waits, List.forall_mem_append]

/-- The stated reset is the first instant at which the account is assignable, and there is none while it is. -/
def Promise (a : Account) (rule : Rule) (now : Instant) : Prop :=
  (a.assignable rule now = true → a.nextReset rule now = none) ∧
  (a.assignable rule now = false → ∃ t, a.nextReset rule now = some t ∧ now < t ∧ a.assignable rule t = true ∧
    ∀ t', now ≤ t' → t' < t → a.assignable rule t' = false)

/-- The account is back at the last instant that it waits for. -/
theorem promise_iff (hfresh : a.Fresh rule now) : a.Promise rule now ↔
    (a.assignable rule now = false →
      ∃ t ∈ a.waits rule now, (∀ i ∈ a.waits rule now, i ≤ t) ∧ a.nextReset rule now = some t) := by
  have hat : ∀ t t', now ≤ t' → t' ≤ t → (t = now ∨ t ∈ a.waits rule now) →
      (a.assignable rule t' = true ↔ ∀ i ∈ a.waits rule now, i ≤ t') := by
    intro t t' hnow hle ht
    refine assignable_iff hnow fun observed hobserved => ?_
    have hlast := hfresh.waits_le hobserved ht
    lia
  have hsome : a.assignable rule now = false → ∃ last ∈ a.waits rule now, ∀ i ∈ a.waits rule now, i ≤ last := by
    intro hblocked
    have hne : a.waits rule now ≠ [] := by
      intro hnil
      have hfree := (hat now now le_rfl le_rfl (.inl rfl)).mpr (by simp [hnil])
      rw [hblocked] at hfree
      cases hfree
    obtain ⟨last, hlast⟩ := Option.ne_none_iff_exists'.mp (mt List.max?_eq_none_iff.mp hne)
    exact ⟨last, List.max?_eq_some_iff.mp hlast⟩
  constructor
  · rintro ⟨-, hpromise⟩ hblocked
    obtain ⟨t, hnext, hlater, hfree, hfirst⟩ := hpromise hblocked
    obtain ⟨last, hlast, hmax⟩ := hsome hblocked
    have hpast := waits_after hlast
    rcases lt_or_ge last t with hlt | hle
    · have hfree' := (hat last last hpast.le le_rfl (.inr hlast)).mpr hmax
      rw [hfirst last hpast.le hlt] at hfree'
      cases hfree'
    · have hall := (hat last t hlater.le hle (.inr hlast)).mp hfree
      obtain rfl : t = last := le_antisymm hle (hall last hlast)
      exact ⟨t, hlast, hmax, hnext⟩
  · intro hlast
    refine ⟨fun hfree => ?_, fun hblocked => ?_⟩
    · rw [nextReset, if_pos hfree]
    · obtain ⟨t, ht, hmax, hnext⟩ := hlast hblocked
      refine ⟨t, hnext, waits_after ht, (hat t t (waits_after ht).le le_rfl (.inr ht)).mpr hmax, ?_⟩
      intro t' hnow hbefore
      rw [Bool.eq_false_iff, ne_eq, hat t t' hnow hbefore.le (.inr ht)]
      exact fun hall => absurd (hall t ht) (not_le.mpr hbefore)

/-! ## When the promise is kept -/

/-- Where the account was read, every spent window resets no later than the others or than a running hold; where it
never was, a running hold is not outlasted by all the spent windows. -/
def Kept (a : Account) (rule : Rule) (now : Instant) : Prop :=
  match a.observedAt with
  | some _ => ∀ item ∈ a.spentWindows rule now, (∃ until_ ∈ a.limitedUntil, now < until_ ∧ item.2.resetsAt ≤ until_) ∨
      ∀ other ∈ a.spentWindows rule now, item.2.resetsAt ≤ other.2.resetsAt
  | none => ∀ until_ ∈ a.limitedUntil, now < until_ → a.spentWindows rule now = [] ∨
      ∃ item ∈ a.spentWindows rule now, item.2.resetsAt ≤ until_

/-- `next_reset` of a blocked account, from its hold and the first of its spent windows. -/
theorem nextReset_of_blocked (hblocked : a.assignable rule now = false) {first : Option Instant}
    (hfirst : ((a.spentWindows rule now).map fun item => item.2.resetsAt).min? = first) :
    a.nextReset rule now = match a.limitedUntil.filter fun until_ : Instant => now < until_ with
      | some until_ => some (first.elim until_ (max until_))
      | none => first := by
  rw [nextReset, hblocked, if_neg Bool.false_ne_true]
  dsimp only
  rw [hfirst]

theorem assignable_now (hfresh : a.Fresh rule now) : a.assignable rule now = false ↔ a.waits rule now ≠ [] := by
  have hnow := @assignable_iff a rule now now (le_refl now) fun observed hobserved =>
    hfresh.waits_le hobserved (.inl rfl)
  rw [← Bool.not_eq_true, hnow, ne_eq, List.eq_nil_iff_forall_not_mem]
  refine not_congr ⟨fun hall i hi => ?_, fun hnone i hi => absurd hi (hnone i)⟩
  exact absurd (hall i hi) (not_le.mpr (waits_after hi))

/-- Without a hold, the first of the spent windows has to be the last. -/
theorem promise_of_no_hold (hfresh : a.Fresh rule now)
    (hhold : a.limitedUntil.filter (fun until_ : Instant => now < until_) = none) : a.Promise rule now ↔
      (a.observedAt.isSome → ∀ item ∈ a.spentWindows rule now, ∀ other ∈ a.spentWindows rule now,
        item.2.resetsAt ≤ other.2.resetsAt) := by
  have hnext : a.assignable rule now = false →
      a.nextReset rule now = ((a.spentWindows rule now).map fun item => item.2.resetsAt).min? := by
    intro hblocked
    rw [nextReset_of_blocked hblocked rfl, hhold]
  have hblocked := assignable_now hfresh
  rw [promise_iff hfresh]
  cases hobserved : a.observedAt with
  | none =>
    have hwaits : a.waits rule now = [] := by simp [waits, hhold, hobserved]
    simp [hblocked, hwaits]
  | some observed =>
    have hwaits : a.waits rule now = (a.spentWindows rule now).map fun item => item.2.resetsAt := by
      simp [waits, hhold, hobserved]
    rw [hwaits] at hblocked ⊢
    constructor
    · intro hpromise _ item hitem other hother
      have hstopped := hblocked.mpr (List.ne_nil_of_mem (List.mem_map_of_mem hitem))
      obtain ⟨t, -, hmax, ht⟩ := hpromise hstopped
      rw [hnext hstopped, List.min?_eq_some_iff] at ht
      exact (hmax _ (List.mem_map_of_mem hitem)).trans (ht.2 _ (List.mem_map_of_mem hother))
    · intro hsame hstopped
      obtain ⟨first, hfirst⟩ := Option.ne_none_iff_exists'.mp (mt List.min?_eq_none_iff.mp (hblocked.mp hstopped))
      obtain ⟨hmem, -⟩ := List.min?_eq_some_iff.mp hfirst
      refine ⟨first, hmem, fun i hi => ?_, by rw [hnext hstopped, hfirst]⟩
      obtain ⟨item, hitem, rfl⟩ := List.mem_map.mp hi
      obtain ⟨other, hother, rfl⟩ := List.mem_map.mp hmem
      exact hsame rfl item hitem other hother

/-- Under a hold, the later of the hold's end and the first spent window has to be where the last wait ends. -/
theorem promise_of_hold (hfresh : a.Fresh rule now) {until_ : Instant}
    (hhold : a.limitedUntil.filter (fun until_ : Instant => now < until_) = some until_) : a.Promise rule now ↔
      (((a.spentWindows rule now).map fun item => item.2.resetsAt).min?.elim until_ (max until_) ∈ a.waits rule now ∧
        ∀ i ∈ a.waits rule now,
          i ≤ ((a.spentWindows rule now).map fun item => item.2.resetsAt).min?.elim until_ (max until_)) := by
  have hstopped : a.assignable rule now = false := by
    rw [assignable_now hfresh, waits, hhold]
    simp
  have hnext := nextReset_of_blocked hstopped rfl
  rw [hhold] at hnext
  dsimp only at hnext
  rw [promise_iff hfresh, hnext]
  constructor
  · intro hpromise
    obtain ⟨t, ht, hmax, heq⟩ := hpromise hstopped
    rw [Option.some.inj heq]
    exact ⟨ht, hmax⟩
  · exact fun hlast _ => ⟨_, hlast.1, hlast.2, rfl⟩

theorem kept_of_hold (hfresh : a.Fresh rule now) {until_ : Instant}
    (hhold : a.limitedUntil.filter (fun until_ : Instant => now < until_) = some until_) :
    a.Promise rule now ↔ a.Kept rule now := by
  obtain ⟨hlimit, hlater⟩ := Option.filter_eq_some_iff.mp hhold
  have hrunning : now < until_ := by simpa using hlater
  rw [promise_of_hold hfresh hhold, Kept, hlimit]
  cases hobserved : a.observedAt with
  | none =>
    have hwaits : a.waits rule now = [until_] := by simp [waits, hhold, hobserved]
    simp only [hwaits, List.mem_singleton, forall_eq, Option.mem_some_iff, forall_eq', hrunning, forall_const]
    cases hfirst : ((a.spentWindows rule now).map fun item => item.2.resetsAt).min? with
    | none =>
      have hnil := List.map_eq_nil_iff.mp (List.min?_eq_none_iff.mp hfirst)
      simp [hnil]
    | some first =>
      obtain ⟨hmem, hmin⟩ := List.min?_eq_some_iff.mp hfirst
      obtain ⟨item, hitem, rfl⟩ := List.mem_map.mp hmem
      rw [Option.elim_some]
      constructor
      · rintro ⟨heq, -⟩
        exact .inr ⟨item, hitem, heq ▸ le_max_right _ _⟩
      · rintro (hnil | ⟨other, hother, hle⟩)
        · rw [hnil] at hitem
          cases hitem
        · have hfirst' := hmin _ (List.mem_map_of_mem hother)
          have hmax : max until_ item.2.resetsAt = until_ := max_eq_left (hfirst'.trans hle)
          exact ⟨hmax, hmax.ge⟩
  | some observed =>
    have hwaits : a.waits rule now =
        until_ :: (a.spentWindows rule now).map fun item => item.2.resetsAt := by
      simp [waits, hhold, hobserved]
    simp only [hwaits, List.mem_cons, forall_eq_or_imp, Option.mem_some_iff, exists_eq_left', hrunning, true_and]
    cases hfirst : ((a.spentWindows rule now).map fun item => item.2.resetsAt).min? with
    | none =>
      have hnil := List.map_eq_nil_iff.mp (List.min?_eq_none_iff.mp hfirst)
      simp [hnil]
    | some first =>
      obtain ⟨hmem, hmin⟩ := List.min?_eq_some_iff.mp hfirst
      rw [Option.elim_some]
      constructor
      · rintro ⟨-, -, hall⟩ item hitem
        rcases le_max_iff.mp (hall _ (List.mem_map_of_mem hitem)) with hle | hle
        · exact .inl hle
        · exact .inr fun other hother => hle.trans (hmin _ (List.mem_map_of_mem hother))
      · intro hkept
        refine ⟨?_, le_max_left _ _, fun i hi => ?_⟩
        · rcases max_choice until_ first with hmax | hmax
          · exact .inl hmax
          · rw [hmax]
            exact .inr hmem
        · obtain ⟨item, hitem, rfl⟩ := List.mem_map.mp hi
          obtain ⟨other, hother, rfl⟩ := List.mem_map.mp hmem
          rcases hkept item hitem with hle | hle
          · exact hle.trans (le_max_left _ _)
          · exact (hle other hother).trans (le_max_right _ _)

/-- `next_reset` keeps its promise exactly when no window that blocks outlasts the instant it names. -/
theorem nextReset_promise (a : Account) (rule : Rule) (now : Instant) (hfresh : a.Fresh rule now) :
    a.Promise rule now ↔ a.Kept rule now := by
  cases hhold : a.limitedUntil.filter fun until_ : Instant => now < until_ with
  | some until_ => exact kept_of_hold hfresh hhold
  | none =>
    have hnone : ∀ until_ ∈ a.limitedUntil, ¬now < until_ := by
      intro until_ hmem hrunning
      have hsome : a.limitedUntil.filter (fun until_ : Instant => now < until_) = some until_ :=
        Option.filter_eq_some_iff.mpr ⟨hmem, by simpa using hrunning⟩
      rw [hhold] at hsome
      cases hsome
    rw [promise_of_no_hold hfresh hhold, Kept]
    cases a.observedAt with
    | none =>
      simp only [Option.isSome_none, Bool.false_eq_true, false_implies, true_iff]
      exact fun until_ hmem hrunning => absurd hrunning (hnone until_ hmem)
    | some observed =>
      constructor
      · exact fun hsame item hitem => .inr (hsame rfl item hitem)
      · intro hkept _ item hitem
        rcases hkept item hitem with ⟨until_, hmem, hrunning, -⟩ | hle
        · exact absurd hrunning (hnone until_ hmem)
        · exact hle

/-! ### One window spent, and two -/

/-- Read at 0; the week resets in four days. -/
def weekSpent : Account := ⟨[("five_hour", ⟨0, seconds 7200⟩), ("seven_day", ⟨1, seconds 345600⟩)], some 0, none⟩

/-- The five-hour window is spent as well, and resets in two hours. -/
def bothSpent : Account := ⟨[("five_hour", ⟨1, seconds 7200⟩), ("seven_day", ⟨1, seconds 345600⟩)], some 0, none⟩

/-- Every reading up to a week old counts. -/
def weekRule : Rule := { staleAfter := seconds 604800 }

theorem fresh_of_read {a : Account} {rule : Rule} {now : Instant} (hread : a.observedAt = some 0)
    (h : (now :: a.limitedUntil.toList ++ a.windows.map fun item => item.2.resetsAt).all
      (fun t : Instant => t ≤ rule.staleAfter) = true) : a.Fresh rule now := by
  intro observed hobserved t ht
  rw [hread, Option.some_inj] at hobserved
  have hle := List.all_eq_true.mp h t ht
  rw [decide_eq_true_eq] at hle
  lia

theorem nextReset_promise_week :
    weekSpent.Promise weekRule 0 ∧ weekSpent.nextReset weekRule 0 = some (seconds 345600) := by
  refine ⟨(nextReset_promise weekSpent weekRule 0 (fresh_of_read rfl (by decide +kernel))).mpr ?_, by decide +kernel⟩
  have hspent : weekSpent.spentWindows weekRule 0 = [("seven_day", ⟨1, seconds 345600⟩)] := by decide +kernel
  intro item hitem
  rw [hspent] at hitem ⊢
  exact .inr fun other hother => by rw [List.mem_singleton.mp hitem, List.mem_singleton.mp hother]

/-- Two hours on, the week still blocks the account that was promised. -/
theorem nextReset_names_first_of_two : bothSpent.Fresh weekRule 0 ∧ ¬bothSpent.Promise weekRule 0 := by
  refine ⟨fresh_of_read rfl (by decide +kernel), ?_⟩
  rintro ⟨-, hpromise⟩
  obtain ⟨t, hnext, -, hfree, -⟩ := hpromise (by decide +kernel)
  have hfirst : bothSpent.nextReset weekRule 0 = some (seconds 7200) := by decide +kernel
  obtain rfl := Option.some.inj (hfirst.symm.trans hnext)
  have hblocked : bothSpent.assignable weekRule (seconds 7200) = false := by decide +kernel
  rw [hblocked] at hfree
  cases hfree

end Account

end SwarmCloud.Accounts.Resets
