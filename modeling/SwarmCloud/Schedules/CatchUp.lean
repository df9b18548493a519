import SwarmCloud.Cron.Recurs
import SwarmCloud.Lib.Decimal
import SwarmCloud.Schedules.Accounting
import SwarmCloud.Schedules.States

/-! # Claims one after another

A claim plans the due slots of the stored schedule and moves `next_slot` past now.
From a schedule whose slots from `next_slot` on have no firing, claims at any times
fire a slot at most once and leave no slot behind them without a record.
-/

namespace SwarmCloud.Schedules

open Common Lib

namespace Ledger

/-- `Ticker.claim` of a schedule with these slots, its plan and next times read off the stored document. -/
def claimDue (slots : SlotSet) (jitter : Instant → Nat) (scheduleId : String) (l : Ledger) (windows : List Window)
    (now : Instant) : Ledger × Option String :=
  match l.schedules.lookup scheduleId with
  | none => (l, none)
  | some schedule =>
    match schedule.nextSlot with
    | none => (l, none)
    | some earliest =>
      l.claim scheduleId now (planSlots slots earliest schedule.catchUp windows now) (nextTimes slots jitter now)

/-- Claims in order, with the firings they claimed. -/
def claims (slots : SlotSet) (jitter : Instant → Nat) (scheduleId : String) (l : Ledger) :
    List (List Window × Instant) → Ledger × List String
  | [] => (l, [])
  | (windows, now) :: run =>
    let claimed := claimDue slots jitter scheduleId l windows now
    let more := claims slots jitter scheduleId claimed.1 run
    (more.1, claimed.2.toList ++ more.2)

/-- A summary record on a firing stands for the slots from its own on: through the last it counted, or, where
its count is a floor, up to the claim. -/
def StandsFor (firing : Firing) (slot : Instant) : Prop :=
  ∃ first summary, firing.slot = some first ∧ firing.skipDetail = some summary ∧ first ≤ slot ∧
    if summary.atLeast then slot ≤ firing.firedAt else slot ≤ summary.through

/-- A slot has a firing, or lies behind a summary record of the schedule. -/
def Recorded (l : Ledger) (scheduleId : String) (slot : Instant) : Prop :=
  ∃ fid firing, l.firing fid = some firing ∧ firing.scheduleId = scheduleId ∧
    (fid = firingId scheduleId slot ∧ firing.slot = some slot ∨ StandsFor firing slot)

/-- The stored schedule is to claim from a slot on, and no slot from there on has a firing. -/
structure Waiting (slots : SlotSet) (scheduleId : String) (l : Ledger) (schedule : Schedule) (earliest : Instant) :
    Prop where
  stored : l.schedules.lookup scheduleId = some schedule
  nextSlot : schedule.nextSlot = some earliest
  mem : earliest ∈ slots.mem
  run : ∀ nextRunAt, schedule.nextRunAt = some nextRunAt → earliest ≤ nextRunAt
  fresh : ∀ slot ∈ slots.mem, earliest ≤ slot → l.firing (firingId scheduleId slot) = none

variable {slots : SlotSet} {jitter : Instant → Nat} {scheduleId : String} {l : Ledger} {schedule : Schedule}
  {earliest now : Instant} {windows : List Window}

theorem firingId_inj {slot slot' : Instant} (hslot : slot ∈ slots.mem) (hslot' : slot' ∈ slots.mem)
    (h : firingId scheduleId slot = firingId scheduleId slot') : slot = slot' := by
  unfold firingId at h
  exact slots.minute hslot hslot' (intToString_injective ((String.append_right_inj _).mp h))

/-! ## One claim -/

section Claim

variable (h : Waiting slots scheduleId l schedule earliest) (hdue : isDue schedule now = true)

include h hdue in
theorem Waiting.earliest_le : earliest ≤ now := by
  rw [isDue, Bool.and_eq_true, Bool.and_eq_true, Option.any_eq_true] at hdue
  obtain ⟨⟨-, nextRunAt, hnext, hle⟩, -⟩ := hdue
  exact le_trans (h.run nextRunAt hnext) (of_decide_eq_true hle)

/-- The records of a plan for a waiting schedule: all of them, since none of its slots has a firing. -/
def planRecords (scheduleId : String) (schedule : Schedule) (now : Instant) (plan : SlotPlan) :
    List (String × Firing) :=
  plan.skips.map (fun skip =>
    (firingId scheduleId skip.slot,
      { firingDoc scheduleId schedule (some skip.slot) now .cron .skipped with
        skipCode := some skip.code, skipDetail := skip.detail, outcome := some "skipped", endedAt := some now })) ++
  plan.fire.toList.map fun slot =>
    (firingId scheduleId slot, firingDoc scheduleId schedule (some slot) now plan.trigger .claimed)

theorem slot_of_mem_planRecords {plan : SlotPlan} {record : String × Firing}
    (hrecord : record ∈ planRecords scheduleId schedule now plan) :
    ∃ slot, record.1 = firingId scheduleId slot ∧ record.2.slot = some slot ∧ record.2.scheduleId = scheduleId ∧
      ((∃ skip ∈ plan.skips, skip.slot = slot) ∨ plan.fire = some slot) := by
  rcases List.mem_append.mp hrecord with hrecord | hrecord
  · obtain ⟨skip, hskip, rfl⟩ := List.mem_map.mp hrecord
    exact ⟨skip.slot, rfl, rfl, rfl, .inl ⟨skip, hskip, rfl⟩⟩
  · obtain ⟨slot, hslot, rfl⟩ := List.mem_map.mp hrecord
    exact ⟨slot, rfl, rfl, rfl, .inr (Option.mem_toList.mp hslot)⟩

include h in
theorem Waiting.claimRecords_eq {plan : SlotPlan}
    (hskips : ∀ skip ∈ plan.skips, skip.slot ∈ slots.due earliest now) :
    l.claimRecords scheduleId schedule now plan = planRecords scheduleId schedule now plan := by
  have hall : (plan.skips.filter fun skip => (l.firing (firingId scheduleId skip.slot)).isNone) = plan.skips := by
    refine List.filter_eq_self.mpr fun skip hskip => ?_
    obtain ⟨hmem, hle, -⟩ := hskips skip hskip
    rw [h.fresh _ hmem hle]
    rfl
  rw [claimRecords, hall]
  rfl

variable {plan : SlotPlan}

theorem keys_planRecords (scheduleId : String) (schedule : Schedule) (now : Instant) (plan : SlotPlan) :
    (planRecords scheduleId schedule now plan).map Prod.fst =
      (plan.skips.map SlotSkip.slot ++ plan.fire.toList).map (firingId scheduleId) := by
  rw [planRecords, List.map_append, List.map_map, List.map_map, List.map_append, List.map_map]
  rfl

theorem nodup_planRecords (hrecords : plan.Records slots earliest now)
    (hfire : ∀ slot, plan.fire = some slot → slot ∈ slots.due earliest now) :
    ((planRecords scheduleId schedule now plan).map Prod.fst).Nodup := by
  have hmem : ∀ slot ∈ plan.skips.map SlotSkip.slot ++ plan.fire.toList, slot ∈ slots.mem := by
    intro slot hslot
    rcases List.mem_append.mp hslot with hslot | hslot
    · obtain ⟨skip, hskip, rfl⟩ := List.mem_map.mp hslot
      exact (hrecords.skipped skip hskip).1.1
    · exact (hfire slot (Option.mem_toList.mp hslot)).1
  have hslots : (plan.skips.map SlotSkip.slot ++ plan.fire.toList).Nodup := by
    refine List.nodup_append.mpr ⟨hrecords.distinct, ?_, ?_⟩
    · cases plan.fire with
      | none => exact List.nodup_nil
      | some slot => exact List.nodup_singleton slot
    · rintro slot hslot slot' hslot' rfl
      obtain ⟨skip, hskip, rfl⟩ := List.mem_map.mp hslot
      exact (hrecords.skipped skip hskip).2 (Option.mem_toList.mp hslot')
  rw [keys_planRecords]
  exact hslots.map_on fun slot hslot slot' hslot' heq => firingId_inj (hmem slot hslot) (hmem slot' hslot') heq

/-- What a plan that accounts for its slots writes is found under its ids. -/
theorem firing_planRecords (hrecords : plan.Records slots earliest now)
    (hfire : ∀ slot, plan.fire = some slot → slot ∈ slots.due earliest now) {firings : Dict String Firing}
    {record : String × Firing} (hrecord : record ∈ planRecords scheduleId schedule now plan) :
    ((planRecords scheduleId schedule now plan).foldl (fun firings record => firings.set record.1 record.2)
      firings).lookup record.1 = some record.2 := by
  have hnodup : ((planRecords scheduleId schedule now plan).map Prod.fst).Nodup := nodup_planRecords hrecords hfire
  rw [Dict.lookup_foldl_set hnodup, Dict.lookup_of_mem hnodup hrecord]
  rfl

/-- Every due slot is fired, has a record of its own, or lies behind the summary. -/
theorem recorded_planRecords (hrecords : plan.Records slots earliest now)
    (hfire : ∀ slot, plan.fire = some slot → slot ∈ slots.due earliest now) {l' : Ledger}
    (hfirings : l'.firings = (planRecords scheduleId schedule now plan).foldl
      (fun firings record => firings.set record.1 record.2) l.firings)
    {slot : Instant} (hslot : slot ∈ slots.due earliest now) : Recorded l' scheduleId slot := by
  have hfound : ∀ record ∈ planRecords scheduleId schedule now plan, l'.firing record.1 = some record.2 := by
    intro record hrecord
    rw [firing, hfirings]
    exact firing_planRecords hrecords hfire hrecord
  have hskip : ∀ skip ∈ plan.skips, (firingId scheduleId skip.slot,
      { firingDoc scheduleId schedule (some skip.slot) now .cron .skipped with
        skipCode := some skip.code, skipDetail := skip.detail, outcome := some "skipped",
        endedAt := some now }) ∈ planRecords scheduleId schedule now plan := fun skip hskip =>
    List.mem_append_left _ (List.mem_map_of_mem hskip)
  by_cases hown : plan.fire = some slot ∨ ∃ skip ∈ plan.skips, skip.slot = slot
  · rcases hown with hfired | ⟨skip, hmem, rfl⟩
    · refine ⟨_, _, hfound (firingId scheduleId slot, firingDoc scheduleId schedule (some slot) now plan.trigger .claimed)
        ?_, rfl, .inl ⟨rfl, rfl⟩⟩
      exact List.mem_append_right _ (List.mem_map_of_mem (Option.mem_toList.mpr hfired))
    · exact ⟨_, _, hfound _ (hskip skip hmem), rfl, .inl ⟨rfl, rfl⟩⟩
  · obtain ⟨hnot, hno⟩ := not_or.mp hown
    have hbehind : slot ∈ plan.behind (slots.due earliest now) :=
      ⟨hslot, hnot, fun skip hskip _ heq => hno ⟨skip, hskip, heq⟩⟩
    obtain ⟨skip, hmem, summary, hdetail⟩ : ∃ skip ∈ plan.skips, ∃ summary, skip.detail = some summary := by
      by_contra hnone
      have hempty := hrecords.alone fun skip hskip => Option.eq_none_iff_forall_ne_some.mpr fun summary hdetail =>
        hnone ⟨skip, hskip, summary, hdetail⟩
      rw [hempty] at hbehind
      exact hbehind
    obtain ⟨hfirst, hcovers⟩ := hrecords.summary skip hmem summary hdetail
    refine ⟨_, _, hfound _ (hskip skip hmem), rfl, .inr ⟨skip.slot, summary, rfl, hdetail, ?_, ?_⟩⟩
    · rw [hfirst]
      exact hslot.2.1
    · split
      · exact hslot.2.2
      · rename_i hexact
        rw [(hcovers.exact (Bool.not_eq_true _ ▸ hexact)).2] at hbehind
        exact hbehind.2

theorem planSlots_due (hmem : earliest ∈ slots.mem) (hle : earliest ≤ now) (catchUp : CatchUp)
    (windows : List Window) :
    ∀ slot, (planSlots slots earliest catchUp windows now).fire = some slot → slot ∈ slots.due earliest now := by
  obtain ⟨past, hends⟩ := scan_ends (.single hmem hle)
  intro slot hslot
  rw [planSlots_fire rfl] at hslot
  split at hslot
  · obtain rfl := Option.some.inj hslot
    cases hends with
    | reached hseen _ _ => exact hseen.due _ (List.mem_append_right past (List.mem_singleton_self _))
    | stopped hseen _ _ _ _ _ _ => exact hseen.due _ (List.mem_append_right past (List.mem_singleton_self _))
  · cases hslot

include h hdue in
/-- A due claim of a waiting schedule: the plan's records are written and `next_slot` is the first slot past now. -/
theorem Waiting.claimDue_eq (jitter : Instant → Nat) (windows : List Window) :
    ∃ schedule', schedule'.nextSlot = some (slots.next now) ∧
      (∀ nextRunAt, schedule'.nextRunAt = some nextRunAt → slots.next now ≤ nextRunAt) ∧
      claimDue slots jitter scheduleId l windows now =
        ({ l with
            firings := (planRecords scheduleId schedule now
              (planSlots slots earliest schedule.catchUp windows now)).foldl
                (fun firings record => firings.set record.1 record.2) l.firings
            schedules := l.schedules.set scheduleId schedule' },
          (planSlots slots earliest schedule.catchUp windows now).fire.map (firingId scheduleId)) := by
  have hle := h.earliest_le hdue
  have hrecords := planSlots_records h.mem hle schedule.catchUp windows
  have hfire := planSlots_due h.mem hle schedule.catchUp windows
  have hnew : ¬ (planSlots slots earliest schedule.catchUp windows now).fire.any
      (fun slot => (l.firing (firingId scheduleId slot)).isSome) = true := by
    rw [Option.any_eq_true]
    rintro ⟨slot, hslot, hsome⟩
    obtain ⟨hmem, hfrom, -⟩ := hfire slot hslot
    rw [h.fresh slot hmem hfrom] at hsome
    cases hsome
  refine ⟨{ schedule with
      nextSlot := (nextTimes slots jitter now).1, nextRunAt := (nextTimes slots jitter now).2,
      lastFiring := ((planRecords scheduleId schedule now
        (planSlots slots earliest schedule.catchUp windows now)).getLast?.map fun record =>
          lastFiringOf record.1 record.2).or schedule.lastFiring }, rfl, ?_, ?_⟩
  · intro nextRunAt hnext
    obtain rfl := Option.some.inj hnext
    have hjitter : (0 : Int) ≤ seconds (jitter now) := by
      unfold seconds
      lia
    exact le_add_of_nonneg_right hjitter
  · unfold claimDue
    rw [h.stored]
    dsimp only
    rw [h.nextSlot]
    dsimp only
    rw [claim, h.stored]
    dsimp only
    rw [hdue, Bool.not_true, if_neg Bool.false_ne_true, if_neg hnew,
      h.claimRecords_eq fun skip hskip => (hrecords.skipped skip hskip).1]

include h hdue in
theorem Waiting.claimDue_waiting (jitter : Instant → Nat) (windows : List Window) :
    ∃ schedule', Waiting slots scheduleId (claimDue slots jitter scheduleId l windows now).1 schedule'
      (slots.next now) := by
  obtain ⟨schedule', hnext, hrun, hclaim⟩ := h.claimDue_eq hdue jitter windows
  have hle := h.earliest_le hdue
  have hrecords := planSlots_records h.mem hle schedule.catchUp windows
  have hfire := planSlots_due h.mem hle schedule.catchUp windows
  rw [hclaim]
  refine ⟨schedule', ?_, hnext, slots.next_mem now, hrun, fun slot hslot hfrom => ?_⟩
  · rw [Dict.lookup_set, if_pos rfl]
  · have hpast : now < slot := lt_of_lt_of_le (slots.lt_next now) hfrom
    rw [firing, Dict.lookup_foldl_set (nodup_planRecords hrecords hfire)]
    have hold := h.fresh slot hslot (le_trans hle (le_of_lt hpast))
    rw [firing] at hold
    rw [hold, Option.or_none]
    refine Dict.lookup_of_notMem fun hkey => ?_
    obtain ⟨record, hrecord, hid⟩ := List.mem_map.mp hkey
    obtain ⟨slot', hslot', -, -, hplan⟩ := slot_of_mem_planRecords hrecord
    have hdue' : slot' ∈ slots.due earliest now := by
      rcases hplan with ⟨skip, hskip, rfl⟩ | hfired
      · exact (hrecords.skipped skip hskip).1
      · exact hfire slot' hfired
    have heq := firingId_inj hdue'.1 hslot (hslot'.symm.trans hid)
    rw [heq] at hdue'
    exact absurd hdue'.2.2 (not_le.mpr hpast)

include h hdue in
theorem Waiting.claimDue_recorded (jitter : Instant → Nat) (windows : List Window) {slot : Instant}
    (hslot : slot ∈ slots.due earliest now) :
    Recorded (claimDue slots jitter scheduleId l windows now).1 scheduleId slot := by
  obtain ⟨schedule', -, -, hclaim⟩ := h.claimDue_eq hdue jitter windows
  have hle := h.earliest_le hdue
  rw [hclaim]
  exact recorded_planRecords (planSlots_records h.mem hle schedule.catchUp windows)
    (planSlots_due h.mem hle schedule.catchUp windows) rfl hslot

include h hdue in
theorem Waiting.claimDue_fired (jitter : Instant → Nat) (windows : List Window) {fid : String}
    (hfid : (claimDue slots jitter scheduleId l windows now).2 = some fid) :
    ∃ slot ∈ slots.due earliest now, fid = firingId scheduleId slot := by
  obtain ⟨schedule', -, -, hclaim⟩ := h.claimDue_eq hdue jitter windows
  have hle := h.earliest_le hdue
  rw [hclaim, Option.map_eq_some_iff] at hfid
  obtain ⟨slot, hslot, rfl⟩ := hfid
  exact ⟨slot, planSlots_due h.mem hle schedule.catchUp windows slot hslot, rfl⟩

end Claim

theorem Waiting.claimDue_early (h : Waiting slots scheduleId l schedule earliest) (hearly : ¬ isDue schedule now = true)
    (jitter : Instant → Nat) (windows : List Window) :
    claimDue slots jitter scheduleId l windows now = (l, none) := by
  unfold claimDue
  rw [h.stored]
  dsimp only
  rw [h.nextSlot]
  dsimp only
  rw [claim, h.stored]
  dsimp only
  rw [if_pos (by rw [Bool.not_eq_true] at hearly; rw [hearly]; rfl)]

/-- A claim takes no record away. -/
theorem Recorded.claimDue {slot : Instant} (h : Recorded l scheduleId slot) (slots : SlotSet) (jitter : Instant → Nat)
    (windows : List Window) (now : Instant) :
    Recorded (claimDue slots jitter scheduleId l windows now).1 scheduleId slot := by
  obtain ⟨fid, firing, hfiring, hrecord⟩ := h
  refine ⟨fid, firing, ?_, hrecord⟩
  unfold Ledger.claimDue
  split
  · exact hfiring
  · split
    · exact hfiring
    · exact claim_keeps scheduleId now _ _ hfiring

theorem Recorded.claims {slot : Instant} (h : Recorded l scheduleId slot) (run : List (List Window × Instant)) :
    Recorded (claims slots jitter scheduleId l run).1 scheduleId slot := by
  induction run generalizing l with
  | nil => exact h
  | cons step run ih => exact ih (h.claimDue slots jitter step.1 step.2)

/-! ## A run of claims -/

/-- The slots behind a run of claims: each recorded, and each fired at most once. -/
theorem Waiting.claims (h : Waiting slots scheduleId l schedule earliest) (jitter : Instant → Nat)
    (run : List (List Window × Instant)) :
    ∃ schedule' earliest', Waiting slots scheduleId (claims slots jitter scheduleId l run).1 schedule' earliest' ∧
      (∀ slot ∈ slots.mem, earliest ≤ slot → slot < earliest' →
        Recorded (claims slots jitter scheduleId l run).1 scheduleId slot) ∧
      (∀ fid ∈ (claims slots jitter scheduleId l run).2, ∃ slot ∈ slots.mem, earliest ≤ slot ∧
        fid = firingId scheduleId slot) ∧
      (claims slots jitter scheduleId l run).2.Nodup := by
  induction run generalizing l schedule earliest with
  | nil =>
    refine ⟨schedule, earliest, h, fun slot _ hfrom huntil => ?_, nofun, List.nodup_nil⟩
    exact absurd hfrom (not_le.mpr huntil)
  | cons step run ih =>
    obtain ⟨windows, now⟩ := step
    unfold Ledger.claims
    dsimp only
    by_cases hdue : isDue schedule now = true
    · obtain ⟨schedule₁, hwaiting⟩ := h.claimDue_waiting hdue jitter windows
      obtain ⟨schedule', earliest', hwaiting', hrecorded, hfired, hnodup⟩ := ih hwaiting
      have hle := h.earliest_le hdue
      refine ⟨schedule', earliest', hwaiting', fun slot hslot hfrom huntil => ?_, fun fid hfid => ?_, ?_⟩
      · rcases lt_or_ge slot (slots.next now) with hbefore | hafter
        · have hpast : slot ≤ now := by
            by_contra hlater
            exact absurd (SlotSet.next_le hslot (not_le.mp hlater)) (not_le.mpr hbefore)
          exact (h.claimDue_recorded hdue jitter windows ⟨hslot, hfrom, hpast⟩).claims run
        · exact hrecorded slot hslot hafter huntil
      · rcases List.mem_append.mp hfid with hfid | hfid
        · obtain ⟨slot, hslot, heq⟩ := h.claimDue_fired hdue jitter windows (Option.mem_toList.mp hfid)
          exact ⟨slot, hslot.1, hslot.2.1, heq⟩
        · obtain ⟨slot, hslot, hfrom, heq⟩ := hfired fid hfid
          exact ⟨slot, hslot, le_trans hle (le_trans (le_of_lt (slots.lt_next now)) hfrom), heq⟩
      · refine List.nodup_append.mpr ⟨?_, hnodup, ?_⟩
        · cases (claimDue slots jitter scheduleId l windows now).2 with
          | none => exact List.nodup_nil
          | some fid => exact List.nodup_singleton fid
        · rintro fid hfid fid' hfid' rfl
          obtain ⟨slot, hslot, heq⟩ := h.claimDue_fired hdue jitter windows (Option.mem_toList.mp hfid)
          obtain ⟨slot', hslot', hfrom, heq'⟩ := hfired fid hfid'
          have hsame := firingId_inj hslot.1 hslot' (heq.symm.trans heq')
          rw [← hsame] at hfrom
          exact absurd (lt_of_lt_of_le (slots.lt_next now) hfrom) (not_lt.mpr hslot.2.2)
    · rw [h.claimDue_early hdue jitter windows]
      exact ih h

end Ledger

open Ledger in
/-- A plan accounts for its due slots except where it is to catch up, more are due than the scan counts and none
is inside the jump; every run of claims moves `next_slot` past now, fires no slot twice and leaves none behind. -/
theorem claims_account {slots : SlotSet} {earliest now : Instant} (hmem : earliest ∈ slots.mem) (hle : earliest ≤ now)
    (catchUp : CatchUp) (windows : List Window) {scheduleId : String} {l : Ledger} {schedule : Schedule}
    {first : Instant} (hwaiting : Waiting slots scheduleId l schedule first) (jitter : Instant → Nat)
    (run : List (List Window × Instant)) :
    ((planSlots slots earliest catchUp windows now).Accounts slots earliest now catchUp ↔
        ¬ (catchUp = .runOnce ∧ Outrun slots earliest now)) ∧
      (claims slots jitter scheduleId l run).2.Nodup ∧
      ∃ schedule' nextSlot, (claims slots jitter scheduleId l run).1.schedules.lookup scheduleId = some schedule' ∧
        schedule'.nextSlot = some nextSlot ∧
        (∀ slot ∈ slots.mem, first ≤ slot → slot < nextSlot →
          Recorded (claims slots jitter scheduleId l run).1 scheduleId slot) ∧
        ∀ windows now, isDue schedule' now = true → ∃ schedule'' next,
          (claimDue slots jitter scheduleId (claims slots jitter scheduleId l run).1 windows now).1.schedules.lookup
            scheduleId = some schedule'' ∧
          schedule''.nextSlot = some next ∧ IsLeast {slot | slot ∈ slots.mem ∧ now < slot} next := by
  obtain ⟨schedule', nextSlot, hwaiting', hrecorded, -, hnodup⟩ := hwaiting.claims jitter run
  refine ⟨planSlots_accounts_iff hmem hle catchUp windows, hnodup, schedule', nextSlot, hwaiting'.stored,
    hwaiting'.nextSlot, hrecorded, fun windows now hdue => ?_⟩
  obtain ⟨schedule'', hnext⟩ := hwaiting'.claimDue_waiting hdue jitter windows
  exact ⟨schedule'', slots.next now, hnext.stored, hnext.nextSlot, slots.isLeast now⟩

/-! ## A quarter of an hour in the winter

Every fifteen minutes of January and February, in universal time: more slots than the
scan counts, and then none for ten months.
-/

namespace Winter

open Cron

def expr : CronExpr where
  source := "*/15 * * 1-2 *".toList
  minutes := {0, 15, 30, 45}
  hours := Finset.Icc 0 23
  days := Finset.Icc 1 31
  months := {1, 2}
  weekdays := Finset.Icc 0 6
  daysRestricted := false
  weekdaysRestricted := false

def utc : Zone := Zone.oneChange 0 0 0 (by decide) (by decide)

theorem utc_separated : utc.Separated := Zone.separated_oneChange _ _

theorem formed : expr.WellFormed := by
  refine ⟨?_, ?_, ?_, ?_, ?_, ?_, ?_⟩ <;> decide

theorem resolveWall_utc (wall : Int) : resolveWall utc wall = wall := by
  have hclock : ∀ t, utc.clock t = t := fun t => by
    have hoffset : utc.offset t = 0 := ite_self 0
    rw [Zone.clock, hoffset, add_zero]
  obtain ⟨hreached, hleast⟩ := resolveWall_isLeast utc_separated wall
  change wall ≤ utc.clock (resolveWall utc wall) at hreached
  rw [hclock] at hreached
  have hle : resolveWall utc wall ≤ wall := hleast (le_of_eq (hclock wall).symm)
  exact le_antisymm hle hreached

theorem unixMinute_wall {wall : Int} (h : wall % 60 = 0) : unixMinute (seconds wall) * 60 = wall := by
  unfold unixMinute seconds
  rw [Int.mul_tdiv_cancel _ (by decide)]
  omega

def slots : SlotSet := SlotSet.ofCron expr utc formed utc_separated
  (fun t => (nextAfter_total_iff_covered formed).mpr (covered_of_recurs formed (by decide)) t utc)
  (by
    rintro _ ⟨wall, hwall, rfl⟩ _ ⟨wall', hwall', rfl⟩ heq
    rw [resolveWall_utc, resolveWall_utc] at heq ⊢
    rw [← unixMinute_wall hwall.whole, heq, unixMinute_wall hwall'.whole])

theorem mem_slots {slot : Instant} : slot ∈ slots.mem ↔ ∃ wall, expr.MatchesWall wall ∧ slot = seconds wall := by
  refine exists_congr fun wall => and_congr_right fun _ => ?_
  rw [resolveWall_utc]

/-- Midnight of the first of January 2026. -/
def newYear : Int := 1767225600

/-- Midnight of the fifteenth of March. -/
def march : Int := newYear + 73 * 86400

theorem matchesWall_of_lt {i : Nat} (h : i < 5664) : expr.MatchesWall (newYear + 900 * i) where
  whole := by
    unfold newYear
    omega
  minute := by
    have hquarter : minuteOf (newYear + 900 * i) = 15 * (i % 4) := by
      unfold minuteOf newYear
      omega
    have hfour : i % 4 < 4 := Nat.mod_lt i (by decide)
    rw [hquarter]
    interval_cases i % 4 <;> decide
  hour := by
    refine Finset.mem_Icc.mpr ⟨Nat.zero_le _, ?_⟩
    unfold hourOf
    omega
  day := by
    have hdays : ∀ day < 59, expr.dayMatches (20454 + epochOrdinal + (day : Nat)) = true := by decide
    have hday : dayOf (newYear + 900 * i) = 20454 + epochOrdinal + ((i / 96 : Nat) : Int) := by
      unfold dayOf newYear
      omega
    rw [hday]
    exact hdays _ (by omega)

theorem newYear_mem : seconds newYear ∈ slots.mem := mem_slots.mpr ⟨newYear, by
  have h := matchesWall_of_lt (i := 0) (by decide)
  rwa [Nat.cast_zero, mul_zero, add_zero] at h, rfl⟩

theorem due_of_lt {i : Nat} (h : i < 5664) :
    seconds (newYear + 900 * i) ∈ slots.due (seconds newYear) (seconds march) := by
  refine ⟨mem_slots.mpr ⟨_, matchesWall_of_lt h, rfl⟩, ?_, ?_⟩
  · unfold seconds
    lia
  · unfold seconds march
    lia

/-- No day from the seventh of March to the fifteenth. -/
theorem outrun : Outrun slots (seconds newYear) (seconds march) := by
  constructor
  · have hinj : Function.Injective fun i : Nat => seconds (newYear + 900 * i) := by
      intro i j heq
      change (newYear + 900 * (i : Int)) * 1000000 = (newYear + 900 * (j : Int)) * 1000000 at heq
      omega
    have hcard : ((Finset.range 5001).image fun i : Nat => seconds (newYear + 900 * i)).card = 5001 := by
      rw [Finset.card_image_of_injective _ hinj, Finset.card_range]
    rw [← Nat.succ_le_iff, ← show _ = scanLimit.succ from hcard, ← Set.ncard_coe_finset]
    refine Set.ncard_le_ncard (fun slot hslot => ?_) (SlotSet.due_finite _ _)
    obtain ⟨i, hi, rfl⟩ := Finset.mem_image.mp (Finset.mem_coe.mp hslot)
    exact due_of_lt (lt_trans (Finset.mem_range.mp hi) (by decide))
  · intro slot hslot hinside
    obtain ⟨wall, hwall, rfl⟩ := mem_slots.mp hslot
    by_contra hbefore
    have hfrom : march - 8 * 86400 < wall := by
      unfold scanJump seconds at hinside
      lia
    have huntil : wall ≤ march := by
      unfold seconds at hbefore
      lia
    have hdays : ∀ ahead < 9, expr.dayMatches (20454 + epochOrdinal + 65 + (ahead : Nat)) = false := by
      decide
    have hday := hdays (dayOf wall - (20454 + epochOrdinal + 65)).toNat
    have hcast : 20454 + epochOrdinal + 65 + ((dayOf wall - (20454 + epochOrdinal + 65)).toNat : Int) = dayOf wall := by
      unfold dayOf
      unfold march newYear at hfrom
      omega
    rw [hcast, hwall.day] at hday
    refine absurd (hday ?_) (by decide)
    unfold dayOf
    unfold march newYear at huntil
    omega

def schedule : Schedule where
  tenantId := "eng"
  type := "issue-sweep"
  state := .enabled
  nextSlot := some (seconds newYear)
  nextRunAt := some (seconds newYear)
  timezone := "UTC"

def ledger : Ledger := ⟨[("sch_1", schedule)], [], [], []⟩

theorem waiting : Ledger.Waiting slots "sch_1" ledger schedule (seconds newYear) where
  stored := rfl
  nextSlot := rfl
  mem := newYear_mem
  run _ hnext := le_of_eq (Option.some.inj hnext)
  fresh _ _ _ := rfl

end Winter

open Winter in
theorem claims_account_winter :
    (planSlots slots (seconds newYear) .skip [] (seconds march)).Accounts slots (seconds newYear) (seconds march) .skip ∧
      (Ledger.claims slots (fun _ => 0) "sch_1" ledger [([], seconds march)]).2.Nodup := by
  have haccount := claims_account newYear_mem (show seconds newYear ≤ seconds march by decide) .skip [] waiting
    (fun _ => 0) [([], seconds march)]
  exact ⟨haccount.1.mpr fun hbad => CatchUp.noConfusion hbad.1, haccount.2.1⟩

open Winter in
/-- In the middle of March the slot that is caught up is not the last of February. -/
theorem catchUp_fires_older :
    ∃ slot, (planSlots slots (seconds newYear) .runOnce [] (seconds march)).fire = some slot ∧
      ¬ IsGreatest (slots.due (seconds newYear) (seconds march)) slot := by
  have hle : seconds newYear ≤ seconds march := by decide
  obtain ⟨slot, hslot⟩ := planSlots_runOnce slots (seconds newYear) (seconds march) []
  refine ⟨slot, hslot, fun hgreatest => ?_⟩
  refine (planSlots_accounts_iff newYear_mem hle .runOnce []).mp ⟨fun slot' hslot' => ?_, ?_, ?_⟩ ⟨rfl, outrun⟩
  · rw [hslot] at hslot'
    rwa [← Option.some.inj hslot']
  · rw [hslot]
    exact iff_of_true rfl (.inr rfl)
  · exact planSlots_records newYear_mem hle .runOnce []

end SwarmCloud.Schedules
