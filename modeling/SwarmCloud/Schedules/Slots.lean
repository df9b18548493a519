import Mathlib.Data.Int.Interval
import Mathlib.Data.Set.Card
import SwarmCloud.Cron.Next
import SwarmCloud.Lib.Newest
import SwarmCloud.Schedules.Firings

/-! # The slots of a claim

`plan_slots` and `next_times`, over the slots of a schedule and `next_after` as
their successor function. The scan keeps the newest fifty-one slots it has seen,
counts all of them, and past `SCAN_LIMIT` jumps to eight days before now.
-/

namespace SwarmCloud.Schedules

open Common Lib

/-- The slots of a schedule, one a Unix minute at most, with the first slot past each instant. -/
structure SlotSet where
  mem : Set Instant
  next : Instant → Instant
  isLeast : ∀ t, IsLeast {s | s ∈ mem ∧ t < s} (next t)
  minute : Set.InjOn unixMinute mem

namespace SlotSet

variable (slots : SlotSet)

theorem next_mem (t : Instant) : slots.next t ∈ slots.mem := (slots.isLeast t).1.1

theorem lt_next (t : Instant) : t < slots.next t := (slots.isLeast t).1.2

variable {slots}

theorem next_le {t s : Instant} (hs : s ∈ slots.mem) (h : t < s) : slots.next t ≤ s := (slots.isLeast t).2 ⟨hs, h⟩

/-- The slots that are due: from `next_slot` to now. -/
def due (slots : SlotSet) (earliest now : Instant) : Set Instant :=
  {s | s ∈ slots.mem ∧ earliest ≤ s ∧ s ≤ now}

theorem due_finite (earliest now : Instant) : (slots.due earliest now).Finite :=
  (Set.finite_Icc earliest now).subset fun _ hs => hs.2

/-- The slots of an expression that always has one more. -/
def ofCron (expr : Cron.CronExpr) (zone : Zone) (hformed : expr.WellFormed) (hsep : zone.Separated)
    (htotal : ∀ t, ∃ slot, Cron.nextAfter expr t zone = .ok slot)
    (hminute : Set.InjOn unixMinute (Cron.slots expr zone)) : SlotSet where
  mem := Cron.slots expr zone
  next t := match Cron.nextAfter expr t zone with
    | .ok slot => slot
    | .error _ => t
  isLeast t := by
    obtain ⟨slot, hslot⟩ := htotal t
    rw [hslot]
    exact Cron.nextAfter_isLeast hformed hsep hslot
  minute := hminute

end SlotSet

/-! ## The scan -/

def maxSkipRecords : Nat := 50

def scanLimit : Nat := 5000

def scanJump : Instant := seconds (8 * 86400)

/-- A `deque` of `maxlen=MAX_SKIP_RECORDS + 1` that is never empty. -/
structure Kept where
  older : List Instant
  newest : Instant
  bound : older.length ≤ maxSkipRecords

namespace Kept

def single (slot : Instant) : Kept := ⟨[], slot, Nat.zero_le _⟩

def append (kept : Kept) (slot : Instant) : Kept where
  older := (kept.older ++ [kept.newest]).rtake maxSkipRecords
  newest := slot
  bound := by
    rw [List.rtake, List.length_drop]
    omega

def toList (kept : Kept) : List Instant := kept.older ++ [kept.newest]

end Kept

structure Scan where
  kept : Kept
  count : Nat
  atLeast : Bool
  following : Instant

namespace SlotSet

/-- The loop of `plan_slots`: each turn keeps a later slot, none of them past now. -/
def scan (slots : SlotSet) (now : Instant) (kept : Kept) (count : Nat) (atLeast : Bool) : Scan :=
  let following := slots.next kept.newest
  if now < following then ⟨kept, count, atLeast, following⟩
  else if scanLimit ≤ count ∧ atLeast = false then
    let restart := slots.next (max kept.newest (now - scanJump))
    if now < restart then ⟨kept, count, true, restart⟩
    else scan slots now (kept.append restart) (count + 1) true
  else scan slots now (kept.append following) (count + 1) atLeast
termination_by (now - kept.newest).toNat
decreasing_by
  · have hlt := slots.lt_next (max kept.newest (now - scanJump))
    have hmax := le_max_left kept.newest (now - scanJump)
    change (now - slots.next (max kept.newest (now - scanJump))).toNat < (now - kept.newest).toNat
    lia
  · have hlt := slots.lt_next kept.newest
    change (now - slots.next kept.newest).toNat < (now - kept.newest).toNat
    lia

end SlotSet

/-! ## The plan -/

def missedSlot : String := "MISSED_SLOT"

def schedulesDisabled : String := "SCHEDULES_DISABLED"

/-- A window in which the kill switch was off. -/
structure Window where
  start : Option Instant
  stop : Option Instant

def inWindows (slot : Instant) (windows : List Window) : Bool :=
  windows.any fun window => window.start.any (· ≤ slot) && window.stop.all (slot ≤ ·)

def codeFor (windows : List Window) (moment : Instant) : String :=
  if inWindows moment windows then schedulesDisabled else missedSlot

def graceMax : Instant := seconds (15 * 60)

/-- `timedelta / 2`, to the nearest microsecond and a tie to the even one. -/
def half (span : Int) : Int :=
  if span % 2 = 0 ∨ span / 2 % 2 = 0 then span / 2 else span / 2 + 1

def graceOf (newest following : Instant) : Instant := min graceMax (half (following - newest))

/-- The skip records of the older slots: one each, or one at the earliest for all but the newest. -/
def skipRecords (windows : List Window) (earliest : Instant) (older : List Instant) (olderCount : Nat)
    (atLeast : Bool) : List SlotSkip :=
  if olderCount ≤ maxSkipRecords then older.map fun moment => ⟨moment, codeFor windows moment, none⟩
  else
    let individual := older.drop (older.length - (maxSkipRecords - 1))
    let through := older.getD (older.length - maxSkipRecords) earliest
    ⟨earliest, missedSlot, some ⟨olderCount - individual.length, through, atLeast⟩⟩ ::
      individual.map fun moment => ⟨moment, codeFor windows moment, none⟩

/-- `plan_slots`: which due slot fires and which are recorded skipped. A trigger counts only with a slot to fire. -/
def planSlots (slots : SlotSet) (earliest : Instant) (catchUp : CatchUp) (windows : List Window) (now : Instant) :
    SlotPlan :=
  let scanned := slots.scan now (.single earliest) 1 false
  let newest := scanned.kept.newest
  if now - newest ≤ graceOf newest scanned.following then
    ⟨some newest, .cron, skipRecords windows earliest scanned.kept.older (scanned.count - 1) scanned.atLeast⟩
  else if catchUp = .runOnce then
    ⟨some newest, .catchUp, skipRecords windows earliest scanned.kept.older (scanned.count - 1) scanned.atLeast⟩
  else
    ⟨none, .cron, skipRecords windows earliest scanned.kept.toList scanned.count scanned.atLeast⟩

/-- `next_times`: the first slot after now, and it with the jitter that the schedule has. -/
def nextTimes (slots : SlotSet) (jitter : Instant → Nat) (now : Instant) : Option Instant × Option Instant :=
  (some (slots.next now), some (slots.next now + seconds (jitter now)))

/-! ## What the scan has seen -/

/-- The slots seen before the newest, all due and in order: every due slot up to the newest, unless the scan
jumped, and then the newest is inside the jump. -/
structure Seen (slots : SlotSet) (earliest now : Instant) (kept : Kept) (count : Nat) (atLeast : Bool)
    (past : List Instant) : Prop where
  older : kept.older = past.rtake maxSkipRecords
  number : count = past.length + 1
  sorted : (past ++ [kept.newest]).Pairwise (· < ·)
  due : ∀ s ∈ past ++ [kept.newest], s ∈ slots.due earliest now
  first : (past ++ [kept.newest]).head? = some earliest
  complete : atLeast = false →
    count ≤ scanLimit ∧ ∀ s ∈ slots.due earliest now, s ≤ kept.newest → s ∈ past ++ [kept.newest]
  jumped : atLeast = true → scanLimit < count ∧ now - scanJump < kept.newest

variable {slots : SlotSet} {earliest now : Instant} {kept : Kept} {count : Nat} {atLeast : Bool} {past : List Instant}

theorem Seen.single (hmem : earliest ∈ slots.mem) (hdue : earliest ≤ now) :
    Seen slots earliest now (.single earliest) 1 false [] where
  older := rfl
  number := rfl
  sorted := List.pairwise_singleton _ _
  due s hs := by
    rw [List.mem_singleton.mp hs]
    exact ⟨hmem, le_refl earliest, hdue⟩
  first := rfl
  complete _ := by
    refine ⟨by decide, fun s hs hle => ?_⟩
    exact List.mem_singleton.mpr (le_antisymm hle hs.2.1)
  jumped h := nomatch h

/-- A later due slot is seen; before a jump it is the next one. -/
theorem Seen.append (h : Seen slots earliest now kept count atLeast past) {slot : Instant} {jump : Bool}
    (hmem : slot ∈ slots.mem) (hlt : kept.newest < slot) (hnow : slot ≤ now)
    (hnext : jump = false → atLeast = false ∧ count < scanLimit ∧ slot = slots.next kept.newest)
    (hjump : jump = true → scanLimit ≤ count ∧ now - scanJump < slot) :
    Seen slots earliest now (kept.append slot) (count + 1) jump (past ++ [kept.newest]) where
  older := by
    change (kept.older ++ [kept.newest]).rtake maxSkipRecords = _
    rw [h.older, rtake_append_rtake]
  number := by rw [h.number, List.length_append, List.length_singleton]
  sorted := by
    refine List.pairwise_append.mpr ⟨h.sorted, List.pairwise_singleton _ _, fun s hs s' hs' => ?_⟩
    rw [List.mem_singleton.mp hs']
    change s < slot
    rcases List.mem_append.mp hs with hs | hs
    · exact lt_trans ((List.pairwise_append.mp h.sorted).2.2 s hs _ (List.mem_singleton_self _)) hlt
    · rwa [List.mem_singleton.mp hs]
  due s hs := by
    rcases List.mem_append.mp hs with hs | hs
    · exact h.due s hs
    · rw [List.mem_singleton.mp hs]
      have hnewest := h.due kept.newest (List.mem_append_right past (List.mem_singleton_self _))
      exact ⟨hmem, le_trans hnewest.2.1 (le_of_lt hlt), hnow⟩
  first := by
    rw [List.head?_append, h.first]
    rfl
  complete hfalse := by
    obtain ⟨hcomplete, hcount, rfl⟩ := hnext hfalse
    refine ⟨hcount, fun s hs hle => ?_⟩
    rcases lt_or_ge kept.newest s with hpast | hpast
    · have hs' : s = slots.next kept.newest := le_antisymm hle (SlotSet.next_le hs.1 hpast)
      exact List.mem_append_right _ (List.mem_singleton.mpr hs')
    · exact List.mem_append_left _ ((h.complete hcomplete).2 s hs hpast)
  jumped htrue := by
    obtain ⟨hcount, hslot⟩ := hjump htrue
    exact ⟨Nat.lt_succ_of_le hcount, hslot⟩

/-- How the scan ends: at the last due slot, or before a jump that no due slot follows. -/
inductive ScanEnds (slots : SlotSet) (earliest now : Instant) (past : List Instant) (scanned : Scan) : Prop
  | reached (seen : Seen slots earliest now scanned.kept scanned.count scanned.atLeast past)
      (following : scanned.following = slots.next scanned.kept.newest) (past : now < scanned.following)
  | stopped (seen : Seen slots earliest now scanned.kept scanned.count false past)
      (atLeast : scanned.atLeast = true) (count : scanned.count = scanLimit)
      (more : slots.next scanned.kept.newest ≤ now) (before : scanned.kept.newest < now - scanJump)
      (following : scanned.following = slots.next (now - scanJump)) (past : now < scanned.following)

/-- The scan keeps what it has seen until it ends. -/
theorem scan_ends (h : Seen slots earliest now kept count atLeast past) :
    ∃ past', ScanEnds slots earliest now past' (slots.scan now kept count atLeast) := by
  fun_induction SlotSet.scan slots now kept count atLeast generalizing past with
  | case1 kept count atLeast following =>
    rename_i hfollowing
    exact ⟨past, .reached h rfl hfollowing⟩
  | case2 kept count atLeast following hfollowing hlimit restart =>
    rename_i hrestart
    obtain ⟨hcount, rfl⟩ := hlimit
    have hbefore : kept.newest < now - scanJump := by
      by_contra hlater
      change now < slots.next (max kept.newest (now - scanJump)) at hrestart
      rw [max_eq_left (not_lt.mp hlater)] at hrestart
      exact hfollowing hrestart
    have hmax : restart = slots.next (now - scanJump) := by
      change slots.next (max kept.newest (now - scanJump)) = slots.next (now - scanJump)
      rw [max_eq_right (le_of_lt hbefore)]
    have hlast := Nat.le_antisymm (h.complete rfl).1 hcount
    exact ⟨past, .stopped h rfl hlast (not_lt.mp hfollowing) hbefore hmax hrestart⟩
  | case3 kept count atLeast following hfollowing hlimit restart hrestart =>
    rename_i ih
    have hlt := slots.lt_next (max kept.newest (now - scanJump))
    refine ih (h.append (slots.next_mem _) (lt_of_le_of_lt (le_max_left _ _) hlt) (not_lt.mp hrestart) nofun ?_)
    exact fun _ => ⟨hlimit.1, lt_of_le_of_lt (le_max_right _ _) hlt⟩
  | case4 kept count atLeast following hfollowing hlimit =>
    rename_i ih
    refine ih (h.append (slots.next_mem _) (slots.lt_next _) (not_lt.mp hfollowing) ?_ ?_)
    · rintro rfl
      exact ⟨rfl, not_le.mp fun hle => hlimit ⟨hle, rfl⟩, rfl⟩
    · rintro rfl
      obtain ⟨hcount, hnewest⟩ := h.jumped rfl
      exact ⟨le_of_lt hcount, lt_trans hnewest (slots.lt_next _)⟩

end SwarmCloud.Schedules
