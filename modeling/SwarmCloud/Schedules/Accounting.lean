import Mathlib.Data.List.GetD
import SwarmCloud.Schedules.Slots

/-! # What a claim accounts for

The slot that a plan fires and the records it writes, against the due slots. The
plan is read off the list of the due slots that the scan saw and did not fire: one
record each, or a record at the earliest that stands for all but the newest
forty-nine.
-/

namespace SwarmCloud.Schedules

open Common Lib

/-- The due slots that are not fired and have no record of their own. -/
def SlotPlan.behind (plan : SlotPlan) (due : Set Instant) : Set Instant :=
  {s | s ∈ due ∧ plan.fire ≠ some s ∧ ∀ skip ∈ plan.skips, skip.detail = none → skip.slot ≠ s}

/-- What a summary record says of the slots behind it. -/
structure SkipSummary.Covers (summary : SkipSummary) (due behind : Set Instant) : Prop where
  floor : summary.atLeast = true → summary.slots ≤ behind.ncard
  exact : summary.atLeast = false → summary.slots = behind.ncard ∧ behind = {s | s ∈ due ∧ s ≤ summary.through}

/-- The skip records of a plan and the slots behind its summary are the due slots it does not fire, each once. -/
structure SlotPlan.Records (plan : SlotPlan) (slots : SlotSet) (earliest now : Instant) : Prop where
  distinct : (plan.skips.map SlotSkip.slot).Nodup
  skipped : ∀ skip ∈ plan.skips, skip.slot ∈ slots.due earliest now ∧ plan.fire ≠ some skip.slot
  few : plan.skips.length ≤ maxSkipRecords
  alone : (∀ skip ∈ plan.skips, skip.detail = none) → plan.behind (slots.due earliest now) = ∅
  single : (plan.skips.filter fun skip => skip.detail.isSome).length ≤ 1
  summary : ∀ skip ∈ plan.skips, ∀ summary, skip.detail = some summary →
    skip.slot = earliest ∧ summary.Covers (slots.due earliest now) (plan.behind (slots.due earliest now))

/-- A plan accounts for the slots that are due. -/
structure SlotPlan.Accounts (plan : SlotPlan) (slots : SlotSet) (earliest now : Instant) (catchUp : CatchUp) :
    Prop where
  greatest : ∀ slot, plan.fire = some slot → IsGreatest (slots.due earliest now) slot
  fires : plan.fire.isSome ↔
    (∃ newest, IsGreatest (slots.due earliest now) newest ∧ now - newest ≤ graceOf newest (slots.next newest)) ∨
      catchUp = .runOnce
  records : plan.Records slots earliest now

/-! ## Records -/

section Records

variable (windows : List Window) (earliest : Instant) (atLeast : Bool)

def individualSkip (moment : Instant) : SlotSkip := ⟨moment, codeFor windows moment, none⟩

theorem skipRecords_few {older : List Instant} {count : Nat} (h : count ≤ maxSkipRecords) :
    skipRecords windows earliest older count atLeast = older.map (individualSkip windows) := if_pos h

theorem skipRecords_many (front individual : List Instant) (through : Instant)
    (hlength : individual.length = maxSkipRecords - 1) {count : Nat} (h : maxSkipRecords < count) :
    skipRecords windows earliest (front ++ through :: individual) count atLeast =
      ⟨earliest, missedSlot, some ⟨count - (maxSkipRecords - 1), through, atLeast⟩⟩ ::
        individual.map (individualSkip windows) := by
  have hall : (front ++ through :: individual).length = front.length + maxSkipRecords := by
    rw [List.length_append, List.length_cons, hlength]
    rfl
  have hindividual : (front ++ through :: individual).drop
      ((front ++ through :: individual).length - (maxSkipRecords - 1)) = individual := by
    have hfrom : front.length + maxSkipRecords - (maxSkipRecords - 1) = (front ++ [through]).length := by
      rw [List.length_append, List.length_singleton]
      unfold maxSkipRecords
      omega
    rw [hall, hfrom, List.append_cons front through individual, List.drop_left]
  have hthrough : (front ++ through :: individual).getD
      ((front ++ through :: individual).length - maxSkipRecords) earliest = through := by
    rw [hall, Nat.add_sub_cancel, List.getD_append_right _ _ _ _ (le_refl _), Nat.sub_self]
    rfl
  rw [skipRecords, if_neg (not_le.mpr h)]
  dsimp only
  rw [hindividual, hthrough, hlength]
  rfl

theorem exists_split {missed : List Instant} (h : maxSkipRecords < missed.length) :
    ∃ front through individual, missed = front ++ through :: individual ∧
      individual.length = maxSkipRecords - 1 := by
  have hlt : missed.length - maxSkipRecords < missed.length := by
    unfold maxSkipRecords at *
    omega
  refine ⟨missed.take (missed.length - maxSkipRecords), missed[missed.length - maxSkipRecords],
    missed.drop (missed.length - maxSkipRecords + 1), ?_, ?_⟩
  · rw [← List.drop_eq_getElem_cons hlt, List.take_append_drop]
  · rw [List.length_drop]
    unfold maxSkipRecords at *
    omega

theorem rtake_split (front individual : List Instant) (through : Instant)
    (hlength : individual.length = maxSkipRecords - 1) {k : Nat} (hk : maxSkipRecords ≤ k) :
    (front ++ through :: individual).rtake k = front.rtake (k - maxSkipRecords) ++ through :: individual := by
  have hall : (front ++ through :: individual).length = front.length + maxSkipRecords := by
    rw [List.length_append, List.length_cons, hlength]
    rfl
  rw [List.rtake, List.rtake, hall, List.drop_append_of_le_length (by omega)]
  congr 2
  omega

end Records

/-! ## The slots that are not fired -/

/-- The due slots that the scan saw and the plan does not fire. -/
structure Missed (slots : SlotSet) (earliest now : Instant) (fire : Option Instant) (atLeast : Bool)
    (missed : List Instant) : Prop where
  sorted : missed.Pairwise (· < ·)
  due : ∀ s ∈ missed, s ∈ slots.due earliest now ∧ ∀ slot, fire = some slot → s < slot
  first : missed ≠ [] → earliest ∈ missed
  complete : atLeast = false → ∀ s ∈ slots.due earliest now, fire ≠ some s → s ∈ missed
  many : atLeast = true → maxSkipRecords < missed.length

namespace Missed

variable {slots : SlotSet} {earliest now : Instant} {fire : Option Instant} {atLeast : Bool} {missed : List Instant}
  {windows : List Window} {trigger : Trigger}

theorem ne_fire (h : Missed slots earliest now fire atLeast missed) {s : Instant} (hs : s ∈ missed) :
    fire ≠ some s := fun hfire => absurd ((h.due s hs).2 s hfire) (lt_irrefl s)

theorem nodup (h : Missed slots earliest now fire atLeast missed) : missed.Nodup :=
  h.sorted.imp fun hlt => ne_of_lt hlt

theorem slot_individualSkip (l : List Instant) : (l.map (individualSkip windows)).map SlotSkip.slot = l := by
  rw [List.map_map]
  exact List.map_id l

theorem filter_individualSkip (l : List Instant) :
    (l.map (individualSkip windows)).filter (fun skip => skip.detail.isSome) = [] := by
  rw [List.filter_eq_nil_iff]
  intro skip hskip
  obtain ⟨s, -, rfl⟩ := List.mem_map.mp hskip
  exact Bool.false_ne_true

/-- Up to fifty slots: a record each. -/
theorem records_few (h : Missed slots earliest now fire atLeast missed) (hlength : missed.length ≤ maxSkipRecords) :
    SlotPlan.Records ⟨fire, trigger, missed.map (individualSkip windows)⟩ slots earliest now where
  distinct := by
    rw [slot_individualSkip]
    exact h.nodup
  skipped := by
    intro skip hskip
    obtain ⟨s, hs, rfl⟩ := List.mem_map.mp hskip
    exact ⟨(h.due s hs).1, h.ne_fire hs⟩
  few := by rwa [List.length_map]
  alone _ := by
    have hcomplete : atLeast = false := by
      cases hatLeast : atLeast with
      | false => rfl
      | true => exact absurd (h.many hatLeast) (not_lt.mpr hlength)
    refine Set.eq_empty_of_forall_notMem fun s hs => ?_
    obtain ⟨hdue, hfire, hnone⟩ := hs
    exact hnone _ (List.mem_map_of_mem (h.complete hcomplete s hdue hfire)) rfl rfl
  single := by
    rw [filter_individualSkip]
    exact Nat.zero_le 1
  summary := by
    intro skip hskip summary hdetail
    obtain ⟨s, -, rfl⟩ := List.mem_map.mp hskip
    cases hdetail

section Many

variable {front individual : List Instant} {through : Instant}

/-- The plan of a long outage. -/
def summaryPlan (windows : List Window) (earliest : Instant) (fire : Option Instant) (trigger : Trigger)
    (slots : Nat) (through : Instant) (atLeast : Bool) (individual : List Instant) : SlotPlan :=
  ⟨fire, trigger,
    ⟨earliest, missedSlot, some ⟨slots, through, atLeast⟩⟩ :: individual.map (individualSkip windows)⟩

theorem mem_behind_summaryPlan {count : Nat} {due : Set Instant} {s : Instant} :
    s ∈ (summaryPlan windows earliest fire trigger count through atLeast individual).behind due ↔
      s ∈ due ∧ fire ≠ some s ∧ s ∉ individual := by
  refine and_congr_right fun _ => and_congr_right fun _ => ⟨fun h hs => ?_, fun h skip hskip hdetail => ?_⟩
  · exact h _ (List.mem_cons_of_mem _ (List.mem_map_of_mem hs)) rfl rfl
  · rcases List.mem_cons.mp hskip with rfl | hskip
    · cases hdetail
    · obtain ⟨s', hs', rfl⟩ := List.mem_map.mp hskip
      rintro rfl
      exact h hs'

variable (h : Missed slots earliest now fire atLeast (front ++ through :: individual))

include h in
theorem order_split : (∀ s ∈ front, s < through) ∧ ∀ s ∈ individual, through < s := by
  obtain ⟨-, hrest, hbefore⟩ := List.pairwise_append.mp h.sorted
  exact ⟨fun s hs => hbefore s hs through List.mem_cons_self, (List.pairwise_cons.mp hrest).1⟩

include h in
theorem earliest_lt {s : Instant} (hs : s ∈ individual) : earliest < s := by
  have hthrough := (h.due through (List.mem_append_right front List.mem_cons_self)).1
  exact lt_of_le_of_lt hthrough.2.1 ((order_split h).2 s hs)

include h in
/-- The slots that the summary counts are behind it. -/
theorem mem_behind {count : Nat} {s : Instant} (hs : s ∈ front ++ [through]) :
    s ∈ (summaryPlan windows earliest fire trigger count through atLeast individual).behind
      (slots.due earliest now) := by
  obtain ⟨hfront, hindividual⟩ := order_split h
  have hle : s ≤ through := by
    rcases List.mem_append.mp hs with hs | hs
    · exact le_of_lt (hfront s hs)
    · exact le_of_eq (List.mem_singleton.mp hs)
  have hmissed : s ∈ front ++ through :: individual := by
    rw [List.append_cons]
    exact List.mem_append_left individual hs
  refine mem_behind_summaryPlan.mpr ⟨(h.due s hmissed).1, h.ne_fire hmissed, fun hs' => ?_⟩
  exact absurd (hindividual s hs') (not_lt.mpr hle)

include h in
theorem length_front :
    (front ++ [through]).length = {s | s ∈ front ++ [through]}.ncard := by
  have hnodup : (front ++ [through]).Nodup := by
    have hall := h.nodup
    rw [List.append_cons] at hall
    exact (List.nodup_append.mp hall).1
  rw [← List.toFinset_card_of_nodup hnodup, ← Set.ncard_coe_finset]
  congr 1
  exact Set.ext fun s => List.mem_toFinset

include h in
/-- With nothing jumped over, they are the slots up to the last of them. -/
theorem behind_eq (hcomplete : atLeast = false) {count : Nat} :
    (summaryPlan windows earliest fire trigger count through atLeast individual).behind (slots.due earliest now) =
        {s | s ∈ front ++ [through]} ∧
      (summaryPlan windows earliest fire trigger count through atLeast individual).behind (slots.due earliest now) =
        {s | s ∈ slots.due earliest now ∧ s ≤ through} := by
  obtain ⟨hfront, hindividual⟩ := order_split h
  have hbehind : ∀ s, s ∈ (summaryPlan windows earliest fire trigger count through atLeast individual).behind
      (slots.due earliest now) → s ∈ front ++ [through] := by
    intro s hs
    obtain ⟨hdue, hfire, hother⟩ := mem_behind_summaryPlan.mp hs
    have hmissed := h.complete hcomplete s hdue hfire
    rw [List.append_cons] at hmissed
    exact (List.mem_append.mp hmissed).resolve_right hother
  refine ⟨Set.ext fun s => ⟨hbehind s, mem_behind h⟩, Set.ext fun s => ⟨fun hs => ?_, fun hs => ?_⟩⟩
  · refine ⟨hs.1, ?_⟩
    rcases List.mem_append.mp (hbehind s hs) with hs | hs
    · exact le_of_lt (hfront s hs)
    · exact le_of_eq (List.mem_singleton.mp hs)
  · refine mem_behind_summaryPlan.mpr ⟨hs.1, fun hfire => ?_, fun hs' => ?_⟩
    · have hlt := (h.due through (List.mem_append_right front List.mem_cons_self)).2 s hfire
      exact absurd hs.2 (not_le.mpr hlt)
    · exact absurd (hindividual s hs') (not_lt.mpr hs.2)

include h in
/-- More than fifty: a record for each of the newest forty-nine, and one for the slots before them. -/
theorem records_many (hlength : individual.length = maxSkipRecords - 1) :
    SlotPlan.Records (summaryPlan windows earliest fire trigger (front ++ [through]).length through atLeast individual)
      slots earliest now where
  distinct := by
    change (earliest :: (individual.map (individualSkip windows)).map SlotSkip.slot).Nodup
    rw [slot_individualSkip]
    have hnodup := (List.nodup_cons.mp (List.nodup_append.mp h.nodup).2.1).2
    exact List.nodup_cons.mpr ⟨fun hs => absurd (earliest_lt h hs) (lt_irrefl _), hnodup⟩
  skipped := by
    intro skip hskip
    rcases List.mem_cons.mp hskip with rfl | hskip
    · have hfirst := h.first (List.append_ne_nil_of_right_ne_nil front (List.cons_ne_nil through individual))
      exact ⟨(h.due _ hfirst).1, h.ne_fire hfirst⟩
    · obtain ⟨s, hs, rfl⟩ := List.mem_map.mp hskip
      have hmissed : s ∈ front ++ through :: individual :=
        List.mem_append_right front (List.mem_cons_of_mem through hs)
      exact ⟨(h.due s hmissed).1, h.ne_fire hmissed⟩
  few := by
    change ((individual.map (individualSkip windows)).length + 1) ≤ maxSkipRecords
    rw [List.length_map, hlength]
    exact le_refl _
  alone hnone := nomatch hnone _ List.mem_cons_self
  single := by
    rw [summaryPlan, List.filter_cons, filter_individualSkip]
    exact le_refl 1
  summary := by
    intro skip hskip summary hdetail
    rcases List.mem_cons.mp hskip with rfl | hskip
    · obtain rfl := Option.some.inj hdetail
      refine ⟨rfl, fun _ => ?_, fun hcomplete => ?_⟩
      · dsimp only
        rw [length_front h]
        refine Set.ncard_le_ncard (fun s hs => mem_behind h hs) ?_
        exact SlotSet.due_finite earliest now |>.subset fun _ hs => hs.1
      · dsimp only at hcomplete ⊢
        refine ⟨?_, (behind_eq h hcomplete).2⟩
        rw [(behind_eq h hcomplete).1]
        exact length_front h
    · obtain ⟨s, -, rfl⟩ := List.mem_map.mp hskip
      cases hdetail

end Many

/-- The records of a plan that kept the newest of them. -/
theorem records (h : Missed slots earliest now fire atLeast missed) {k : Nat} (hk : maxSkipRecords ≤ k) :
    SlotPlan.Records ⟨fire, trigger, skipRecords windows earliest (missed.rtake k) missed.length atLeast⟩
      slots earliest now := by
  rcases Nat.lt_or_ge maxSkipRecords missed.length with hmany | hfew
  · obtain ⟨front, through, individual, rfl, hlength⟩ := exists_split hmany
    have hcount : (front ++ through :: individual).length - (maxSkipRecords - 1) = (front ++ [through]).length := by
      rw [List.length_append, List.length_cons, List.length_append, List.length_singleton, hlength]
      omega
    rw [rtake_split front individual through hlength hk,
      skipRecords_many windows earliest atLeast _ individual through hlength hmany, hcount]
    exact records_many h hlength
  · rw [rtake_of_length_le (le_trans hfew hk), skipRecords_few windows earliest atLeast hfew]
    exact records_few h hfew

end Missed

/-! ## The plan -/

section Plan

variable {slots : SlotSet} {earliest now : Instant} {past : List Instant} {scanned : Scan} {atLeast : Bool}

theorem Seen.sorted_past (h : Seen slots earliest now scanned.kept scanned.count atLeast past) :
    ∀ s ∈ past, s < scanned.kept.newest := fun s hs =>
  (List.pairwise_append.mp h.sorted).2.2 s hs _ (List.mem_singleton_self _)

theorem Seen.earliest_mem {kept : Kept} {count : Nat} (h : Seen slots earliest now kept count atLeast past) :
    earliest ∈ past ++ [kept.newest] := List.mem_of_mem_head? h.first

/-- The newest slot kept is fired. -/
theorem Seen.fired (h : Seen slots earliest now scanned.kept scanned.count atLeast past) {mark : Bool}
    (hmark : mark = true → scanLimit ≤ scanned.count)
    (hcomplete : mark = false → atLeast = false ∧ now < slots.next scanned.kept.newest) :
    Missed slots earliest now (some scanned.kept.newest) mark past where
  sorted := (List.pairwise_append.mp h.sorted).1
  due s hs := by
    refine ⟨h.due s (List.mem_append_left _ hs), ?_⟩
    rintro _ ⟨⟩
    exact h.sorted_past s hs
  first hne := by
    obtain ⟨s, rest, rfl⟩ := List.exists_cons_of_ne_nil hne
    have hfirst := h.first
    rw [List.cons_append, List.head?_cons] at hfirst
    rw [Option.some.inj hfirst]
    exact List.mem_cons_self
  complete hfalse s hs hne := by
    obtain ⟨hall, hnow⟩ := hcomplete hfalse
    have hle : s ≤ scanned.kept.newest := by
      by_contra hpast
      exact absurd (SlotSet.next_le hs.1 (not_le.mp hpast)) (not_le.mpr (lt_of_le_of_lt hs.2.2 hnow))
    rcases List.mem_append.mp ((h.complete hall).2 s hs hle) with hmem | hmem
    · exact hmem
    · rw [List.mem_singleton.mp hmem] at hne
      exact absurd rfl hne
  many htrue := by
    have hcount := hmark htrue
    have hnumber := h.number
    unfold scanLimit at hcount
    unfold maxSkipRecords
    omega

/-- No slot is fired. -/
theorem Seen.unfired (h : Seen slots earliest now scanned.kept scanned.count atLeast past) {mark : Bool}
    (hmark : mark = true → scanLimit ≤ scanned.count)
    (hcomplete : mark = false → atLeast = false ∧ now < slots.next scanned.kept.newest) :
    Missed slots earliest now none mark (past ++ [scanned.kept.newest]) where
  sorted := h.sorted
  due s hs := ⟨h.due s hs, nofun⟩
  first _ := h.earliest_mem
  complete hfalse s hs _ := by
    obtain ⟨hall, hnow⟩ := hcomplete hfalse
    refine (h.complete hall).2 s hs ?_
    by_contra hpast
    exact absurd (SlotSet.next_le hs.1 (not_le.mp hpast)) (not_le.mpr (lt_of_le_of_lt hs.2.2 hnow))
  many htrue := by
    have hcount := hmark htrue
    have hnumber := h.number
    rw [List.length_append, List.length_singleton]
    unfold scanLimit at hcount
    unfold maxSkipRecords
    omega

/-- The scan's last slot is the greatest due, when it ends there. -/
theorem Seen.greatest (h : Seen slots earliest now scanned.kept scanned.count atLeast past)
    (hnow : now < slots.next scanned.kept.newest) : IsGreatest (slots.due earliest now) scanned.kept.newest := by
  refine ⟨h.due _ (List.mem_append_right past (List.mem_singleton_self _)), fun s hs => ?_⟩
  by_contra hpast
  exact absurd (SlotSet.next_le hs.1 (not_le.mp hpast)) (not_le.mpr (lt_of_le_of_lt hs.2.2 hnow))

theorem Seen.ncard_seen {kept : Kept} {count : Nat} (h : Seen slots earliest now kept count atLeast past) :
    {s | s ∈ past ++ [kept.newest]}.ncard = count := by
  have hnodup : (past ++ [kept.newest]).Nodup := h.sorted.imp fun hlt => ne_of_lt hlt
  have hset : {s | s ∈ past ++ [kept.newest]} = ((past ++ [kept.newest]).toFinset : Set Instant) :=
    Set.ext fun s => List.mem_toFinset.symm
  rw [hset, Set.ncard_coe_finset, List.toFinset_card_of_nodup hnodup, List.length_append, List.length_singleton,
    h.number]

/-- More slots are due than the scan counts, and none of them is inside its jump. -/
def Outrun (slots : SlotSet) (earliest now : Instant) : Prop :=
  scanLimit < (slots.due earliest now).ncard ∧ ∀ s ∈ slots.mem, now - scanJump < s → now < s

theorem not_outrun_of_reached (h : Seen slots earliest now scanned.kept scanned.count scanned.atLeast past)
    (hnow : now < slots.next scanned.kept.newest) : ¬ Outrun slots earliest now := by
  rintro ⟨hmany, hquiet⟩
  have hgreatest := h.greatest hnow
  have hbefore : ¬ now - scanJump < scanned.kept.newest := fun hinside =>
    absurd (hquiet _ hgreatest.1.1 hinside) (not_lt.mpr hgreatest.1.2.2)
  have hcomplete : scanned.atLeast = false := by
    cases hatLeast : scanned.atLeast with
    | false => rfl
    | true => exact absurd (h.jumped hatLeast).2 hbefore
  obtain ⟨hcount, hall⟩ := h.complete hcomplete
  have hle : (slots.due earliest now).ncard ≤ scanned.count := by
    rw [← h.ncard_seen]
    exact Set.ncard_le_ncard (fun s hs => hall s hs (hgreatest.2 hs)) (List.finite_toSet _)
  omega

theorem outrun_of_stopped (h : Seen slots earliest now scanned.kept scanned.count false past)
    (hcount : scanned.count = scanLimit) (hmore : slots.next scanned.kept.newest ≤ now)
    (hnow : now < slots.next (now - scanJump)) : Outrun slots earliest now := by
  refine ⟨?_, fun s hs hinside => lt_of_lt_of_le hnow (SlotSet.next_le hs hinside)⟩
  have hnewest := h.due _ (List.mem_append_right past (List.mem_singleton_self _))
  have hlt := slots.lt_next scanned.kept.newest
  have hnext : slots.next scanned.kept.newest ∈ slots.due earliest now :=
    ⟨slots.next_mem _, le_trans hnewest.2.1 (le_of_lt hlt), hmore⟩
  have hssubset : {s | s ∈ past ++ [scanned.kept.newest]} ⊂ slots.due earliest now := by
    refine Set.ssubset_iff_of_subset h.due |>.mpr ⟨_, hnext, fun hseen => ?_⟩
    rcases List.mem_append.mp hseen with hseen | hseen
    · exact absurd (lt_trans (h.sorted_past _ hseen) hlt) (lt_irrefl _)
    · exact absurd (List.mem_singleton.mp hseen) (ne_of_gt hlt)
  have hcard := Set.ncard_lt_ncard hssubset (SlotSet.due_finite earliest now)
  rwa [h.ncard_seen, hcount] at hcard

theorem graceOf_lt_scanJump (newest following : Instant) : graceOf newest following < scanJump := by
  refine lt_of_le_of_lt (min_le_left _ _) ?_
  decide

/-- The plan's records are right wherever its scan ended. -/
theorem planSlots_records (hmem : earliest ∈ slots.mem) (hdue : earliest ≤ now) (catchUp : CatchUp)
    (windows : List Window) :
    (planSlots slots earliest catchUp windows now).Records slots earliest now := by
  obtain ⟨past, hends⟩ := scan_ends (.single hmem hdue)
  generalize hscan : slots.scan now (.single earliest) 1 false = scanned at hends
  obtain ⟨atLeast, hseen, hmark, hcomplete⟩ :
      ∃ atLeast, Seen slots earliest now scanned.kept scanned.count atLeast past ∧
        (scanned.atLeast = true → scanLimit ≤ scanned.count) ∧
        (scanned.atLeast = false → atLeast = false ∧ now < slots.next scanned.kept.newest) := by
    cases hends with
    | reached hseen hfollowing hpast =>
      refine ⟨_, hseen, fun htrue => le_of_lt (hseen.jumped htrue).1, fun hfalse => ⟨hfalse, ?_⟩⟩
      rwa [← hfollowing]
    | stopped hseen hatLeast hcount _ _ _ _ =>
      refine ⟨_, hseen, fun _ => le_of_eq hcount.symm, fun hfalse => ?_⟩
      rw [hatLeast] at hfalse
      cases hfalse
  have hfired := hseen.fired hmark hcomplete
  have hunfired := hseen.unfired hmark hcomplete
  have hlength : scanned.count - 1 = past.length := by
    rw [hseen.number, Nat.add_sub_cancel]
  have hcount : scanned.count = (past ++ [scanned.kept.newest]).length := by
    rw [hseen.number, List.length_append, List.length_singleton]
  have hkept : scanned.kept.toList = (past ++ [scanned.kept.newest]).rtake (maxSkipRecords + 1) := by
    rw [Kept.toList, hseen.older, List.rtake_concat_succ]
  unfold planSlots
  rw [hscan]
  dsimp only
  split
  · rw [hlength, hseen.older]
    exact hfired.records (le_refl _)
  · split
    · rw [hlength, hseen.older]
      exact hfired.records (le_refl _)
    · rw [hcount, hkept]
      exact hunfired.records (Nat.le_succ _)

/-- Which slot a plan fires. -/
theorem planSlots_fire (hscan : slots.scan now (.single earliest) 1 false = scanned) (catchUp : CatchUp)
    (windows : List Window) :
    (planSlots slots earliest catchUp windows now).fire =
      if now - scanned.kept.newest ≤ graceOf scanned.kept.newest scanned.following ∨ catchUp = .runOnce then
        some scanned.kept.newest
      else none := by
  unfold planSlots
  rw [hscan]
  dsimp only
  split
  · rename_i hgrace
    rw [if_pos (.inl hgrace)]
  · rename_i hlate
    split
    · rename_i hrun
      rw [if_pos (.inr hrun)]
    · rename_i hskip
      rw [if_neg (not_or.mpr ⟨hlate, hskip⟩)]

theorem planSlots_runOnce (slots : SlotSet) (earliest now : Instant) (windows : List Window) :
    ∃ slot, (planSlots slots earliest .runOnce windows now).fire = some slot :=
  ⟨_, (planSlots_fire rfl .runOnce windows).trans (if_pos (.inr rfl))⟩

theorem planSlots_accounts_iff (hmem : earliest ∈ slots.mem) (hdue : earliest ≤ now) (catchUp : CatchUp)
    (windows : List Window) :
    (planSlots slots earliest catchUp windows now).Accounts slots earliest now catchUp ↔
      ¬ (catchUp = .runOnce ∧ Outrun slots earliest now) := by
  obtain ⟨past, hends⟩ := scan_ends (.single hmem hdue)
  generalize hscan : slots.scan now (.single earliest) 1 false = scanned at hends
  have hfire := planSlots_fire hscan catchUp windows
  have hrecords := planSlots_records hmem hdue catchUp windows
  cases hends with
  | reached hseen hfollowing hpast =>
    rw [hfollowing] at hpast
    rw [hfollowing] at hfire
    have hgreatest := hseen.greatest hpast
    refine iff_of_true ⟨fun slot hslot => ?_, ?_, hrecords⟩ fun hbad => not_outrun_of_reached hseen hpast hbad.2
    · rw [hfire] at hslot
      split at hslot
      · rwa [← Option.some.inj hslot]
      · cases hslot
    · have hsome : (planSlots slots earliest catchUp windows now).fire.isSome ↔
          now - scanned.kept.newest ≤ graceOf scanned.kept.newest (slots.next scanned.kept.newest) ∨
            catchUp = .runOnce := by
        rw [hfire]
        split
        · rename_i hyes
          exact iff_of_true rfl hyes
        · rename_i hno
          exact iff_of_false nofun hno
      rw [hsome]
      refine or_congr_left ⟨fun hgrace => ⟨_, hgreatest, hgrace⟩, ?_⟩
      rintro ⟨newest, hnewest, hgrace⟩
      rwa [hnewest.unique hgreatest] at hgrace
  | stopped hseen hatLeast hcount hmore hbefore hfollowing hpast =>
    rw [hfollowing] at hpast
    have houtrun := outrun_of_stopped hseen hcount hmore hpast
    have hlate : ∀ newest following, newest ≤ now - scanJump → ¬ now - newest ≤ graceOf newest following := by
      intro newest following hold hgrace
      have hlt := graceOf_lt_scanJump newest following
      lia
    have hfire' : (planSlots slots earliest catchUp windows now).fire =
        if catchUp = .runOnce then some scanned.kept.newest else none := by
      rw [hfire]
      refine if_congr ?_ rfl rfl
      exact or_iff_right (hlate _ _ (le_of_lt hbefore))
    constructor
    · rintro haccounts ⟨hrun, -⟩
      rw [if_pos hrun] at hfire'
      have hnewest := (haccounts.greatest _ hfire')
      have hlt := slots.lt_next scanned.kept.newest
      have hnext := hnewest.2 ⟨slots.next_mem _, le_trans hnewest.1.2.1 (le_of_lt hlt), hmore⟩
      exact absurd hlt (not_lt.mpr hnext)
    · intro hgood
      have hskip : catchUp ≠ .runOnce := fun hrun => hgood ⟨hrun, houtrun⟩
      rw [if_neg hskip] at hfire'
      refine ⟨fun slot hslot => ?_, ?_, hrecords⟩
      · rw [hfire'] at hslot
        cases hslot
      · rw [hfire']
        refine iff_of_false nofun ?_
        rintro (⟨newest, hnewest, hgrace⟩ | hrun)
        · refine hlate newest _ ?_ hgrace
          by_contra hinside
          exact absurd (houtrun.2 newest hnewest.1.1 (not_le.mp hinside)) (not_lt.mpr hnewest.1.2.2)
        · exact hskip hrun

end Plan

end SwarmCloud.Schedules
