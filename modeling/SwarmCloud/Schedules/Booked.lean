import SwarmCloud.Schedules.Overlap

/-! # What the counters of a schedule add up to

The entries in the books of a schedule are read off the steps of a run: an edit by a
person, and each `_record_last`. The document's counters are what these entries make
of it, and no firing has two entries that count.
-/

namespace SwarmCloud.Schedules

open Common Lib

/-- The counters of a schedule, with the zone that its days are told in. -/
structure Counters where
  timezone : String
  failures : Nat
  spend : Option Spend

def Schedule.counters (schedule : Schedule) : Counters :=
  ⟨schedule.timezone, schedule.consecutiveFailures, schedule.spend⟩

def Ledger.counters (l : Ledger) (scheduleId : String) : Option Counters :=
  (l.schedules.lookup scheduleId).map Schedule.counters

inductive Entry
  | edited (counters : Counters)
  | ended (fid : String) (now : Instant) (failed : Option Bool) (cost : Option Cost)

/-! ## The books -/

section Books

variable (addUsd : Float → Float → Float) (spendDay : Instant → String → String)

/-- A failure is one more in the row, any other end begins a new row. -/
def countEnd (failures : Nat) : Option Bool → Nat
  | none => failures
  | some true => failures + 1
  | some false => 0

/-- The day's sum with one more cost; another day's sum is left behind. -/
def chargeDay (spend : Option Spend) (day : String) (cost : Cost) : Spend :=
  match spend with
  | some spend =>
    if spend.day = day then
      ⟨day, addUsd spend.reportedUsd cost.reportedUsd, spend.unreportedAttempts + cost.unreportedAttempts⟩
    else ⟨day, addUsd 0 cost.reportedUsd, cost.unreportedAttempts⟩
  | none => ⟨day, addUsd 0 cost.reportedUsd, cost.unreportedAttempts⟩

def post (counters : Option Counters) : Entry → Option Counters
  | .edited counters => some counters
  | .ended _ now failed cost => counters.map fun counters =>
    { counters with
      failures := countEnd counters.failures failed
      spend := match cost with
        | some cost => some (chargeDay addUsd counters.spend (spendDay now counters.timezone) cost)
        | none => counters.spend }

end Books

def Action.record : Action → Option Ledger.LastRecord
  | .recordLast record => some record
  | _ => none

/-- What a transaction enters in the books of a schedule. -/
def Action.entry (scheduleId : String) : Action → Option Entry
  | .edit edited schedule => if edited = scheduleId then some (.edited schedule.counters) else none
  | .recordLast record =>
    if record.scheduleId = scheduleId then some (.ended record.fid record.now record.failed record.cost) else none
  | _ => none

def books (ops : List Action) (scheduleId : String) : List Entry := ops.filterMap (Action.entry scheduleId)

/-- The firings of the calls that count. -/
def booked (counts : Ledger.LastRecord → Bool) (ops : List Action) : List String :=
  ((ops.filterMap Action.record).filter counts).map Ledger.LastRecord.fid

/-- The firings whose cost was added to a spend. -/
def charged : List Action → List String := booked (·.cost.isSome)

/-- The firings that moved a row of failures. -/
def counted : List Action → List String := booked (·.failed.isSome)

/-! ## What a transaction does to the counters -/

namespace Ledger

variable {l l' : Ledger} {fid : String} {firing : Firing}

theorem spendFor_eq (spend : Option Spend) (day : String) :
    spendFor spend day = match spend with
      | some spend => if spend.day = day then spend else ⟨day, 0, 0⟩
      | none => ⟨day, 0, 0⟩ := by
  cases spend with
  | none => rfl
  | some spend =>
    rw [spendFor, Option.filter_some]
    by_cases hday : spend.day = day
    · simp [hday]
    · simp [hday]

theorem addCost_eq (addUsd : Float → Float → Float) (day : String) (spend : Option Spend) (cost : Cost) :
    addCost addUsd day spend cost = chargeDay addUsd spend day cost := by
  rw [addCost, spendFor_eq]
  cases spend with
  | none => simp [chargeDay]
  | some spend =>
    by_cases hday : spend.day = day
    · simp [chargeDay, hday]
    · simp [chargeDay, hday]

theorem counters_setSchedule (l : Ledger) (edited : String) (schedule : Schedule) (scheduleId : String) :
    (l.setSchedule edited schedule).counters scheduleId =
      if scheduleId = edited then some schedule.counters else l.counters scheduleId := by
  rw [counters, setSchedule, Dict.lookup_set]
  split
  · rfl
  · rfl

/-- A schedule that is written back with its counters as they were. -/
theorem counters_of_set {schedule schedule' : Schedule} {edited : String}
    (hschedule : l.schedules.lookup edited = some schedule)
    (hset : l'.schedules = l.schedules.set edited schedule') (hsame : schedule'.counters = schedule.counters)
    (scheduleId : String) : l'.counters scheduleId = l.counters scheduleId := by
  rw [counters, hset, Dict.lookup_set]
  split
  · rename_i hedited
    rw [hedited, Option.map_some, hsame, counters, hschedule, Option.map_some]
  · rfl

theorem counters_recordLast (addUsd : Float → Float → Float) (spendDay : Instant → String → String) (l : Ledger)
    (record : LastRecord) (scheduleId : String) :
    (l.recordLast addUsd spendDay record).counters scheduleId =
      if record.scheduleId = scheduleId then
        post addUsd spendDay (l.counters scheduleId) (.ended record.fid record.now record.failed record.cost)
      else l.counters scheduleId := by
  rw [recordLast]
  cases hschedule : l.schedules.lookup record.scheduleId with
  | none =>
    dsimp only
    by_cases heq : record.scheduleId = scheduleId
    · subst heq
      rw [if_pos rfl, counters, hschedule]
      rfl
    · rw [if_neg heq]
  | some schedule =>
    dsimp only
    rw [counters_setSchedule]
    by_cases heq : record.scheduleId = scheduleId
    · subst heq
      rw [if_pos rfl, if_pos rfl, counters, hschedule, Option.map_some, post, Option.map_some, Schedule.counters,
        Schedule.counters]
      cases record.cost with
      | none => cases record.failed with
        | none => rfl
        | some failed => cases failed <;> rfl
      | some cost =>
        dsimp only
        rw [addCost_eq]
        cases record.failed with
        | none => rfl
        | some failed => cases failed <;> rfl
    · rw [if_neg (Ne.symm heq), if_neg heq]

theorem counters_claim (l : Ledger) (claimed : String) (now : Instant) (plan : SlotPlan)
    (next : Option Instant × Option Instant) (scheduleId : String) :
    (l.claim claimed now plan next).1.counters scheduleId = l.counters scheduleId := by
  rw [claim]
  cases hschedule : l.schedules.lookup claimed with
  | none => rfl
  | some schedule =>
    dsimp only
    split
    · rfl
    · split
      · rfl
      · refine counters_of_set hschedule rfl ?_ scheduleId
        rfl

theorem counters_pause (l : Ledger) (paused code : String) (state : ScheduleState) (scheduleId : String) :
    (l.pause paused code state).counters scheduleId = l.counters scheduleId := by
  rw [pause]
  cases hschedule : l.schedules.lookup paused with
  | none => rfl
  | some schedule =>
    dsimp only
    split
    · refine counters_of_set hschedule rfl ?_ scheduleId
      rfl
    · rfl

/-- No schedule is touched, and every firing keeps its schedule and its cost. -/
structure Unbooked (l l' : Ledger) : Prop where
  schedules : l'.schedules = l.schedules
  firing : ∀ fid d, l.firing fid = some d →
    ∃ d', l'.firing fid = some d' ∧ d'.scheduleId = d.scheduleId ∧ d'.cost = d.cost

theorem Unbooked.refl (l : Ledger) : Unbooked l l := ⟨rfl, fun _ d hd => ⟨d, hd, rfl, rfl⟩⟩

theorem Unbooked.trans {l'' : Ledger} (h : Unbooked l l') (h' : Unbooked l' l'') : Unbooked l l'' where
  schedules := h'.schedules.trans h.schedules
  firing fid d hd := by
    obtain ⟨d', hd', hschedule, hcost⟩ := h.firing fid d hd
    obtain ⟨d'', hd'', hschedule', hcost'⟩ := h'.firing fid d' hd'
    exact ⟨d'', hd'', hschedule'.trans hschedule, hcost'.trans hcost⟩

theorem Unbooked.of_firings (hschedules : l'.schedules = l.schedules) (hfirings : l'.firings = l.firings) :
    Unbooked l l' :=
  ⟨hschedules, fun fid d hd => ⟨d, by rwa [Ledger.firing, hfirings], rfl, rfl⟩⟩

theorem Unbooked.set {d : Firing} (hfiring : l.firing fid = some firing) (hschedule : d.scheduleId = firing.scheduleId)
    (hcost : d.cost = firing.cost) : Unbooked l (l.setFiring fid d) := by
  refine ⟨rfl, fun fid' d₀ hd₀ => ?_⟩
  rw [firing_setFiring]
  split
  · rename_i hfid
    subst hfid
    obtain rfl := Option.some.inj (hfiring.symm.trans hd₀)
    exact ⟨d, rfl, hschedule, hcost⟩
  · exact ⟨d₀, hd₀, rfl, rfl⟩

theorem fireNow_unbooked (hfresh : l.firing fid = none) (scheduleId : String) (schedule : Schedule) (now : Instant)
    (actor : String) (dryRun : Bool) : Unbooked l (l.fireNow fid scheduleId schedule now actor dryRun) := by
  refine ⟨rfl, fun fid' d hd => ⟨d, ?_, rfl, rfl⟩⟩
  rw [fireNow, firing_setFiring, if_neg, hd]
  rintro rfl
  rw [hfresh] at hd
  cases hd

theorem auditRefusal_unbooked (hfiring : l.firing fid = some firing) (now : Instant) (marker : RefusalMarker) :
    Unbooked l (l.auditRefusal fid firing now marker) := by
  rw [auditRefusal]
  split
  · exact .refl l
  · have hset : Unbooked l (l.setFiring fid { firing with runApprovalRefused := some (marker, now) }) :=
      .set hfiring rfl rfl
    exact hset.trans (.of_firings rfl rfl)

theorem lease_unbooked (l : Ledger) (fid : String) (wall : Instant) (token : String) :
    Unbooked l (l.lease fid wall token).1 := by
  rw [lease]
  cases hfiring : l.firing fid with
  | none => exact .refl l
  | some firing =>
    have htake : Unbooked l (if firing.finishingUntil.any (wall < ·) then (l, none)
        else (l.setFiring fid { firing with finishingUntil := some (wall + finishLease), finisher := some token },
          some firing)).1 := by
      split
      · exact .refl l
      · exact .set hfiring rfl rfl
    dsimp only
    split
    · split
      · exact auditRefusal_unbooked hfiring wall _
      · exact htake
    · exact htake
    · exact .refl l

theorem holdApproved_unbooked {token : Option String} {now : Instant} {marker : RefusalMarker}
    (h : l.holdApproved fid token now marker = some l') : Unbooked l l' := by
  rw [holdApproved] at h
  cases hfiring : l.firing fid with
  | none =>
    rw [hfiring] at h
    cases h
  | some firing =>
    rw [hfiring] at h
    dsimp only at h
    split at h
    · obtain ⟨audited, haudited, rfl⟩ := Option.map_eq_some_iff.mp h
      exact (auditRefusal_unbooked hfiring now marker).trans (.set haudited rfl rfl)
    · cases h

theorem release_unbooked (l : Ledger) (fid : String) (token : Option String) : Unbooked l (l.release fid token) := by
  rw [release]
  cases hfiring : l.firing fid with
  | none => exact .refl l
  | some firing =>
    dsimp only
    split
    · exact .set hfiring rfl rfl
    · exact .refl l

theorem recordItem_unbooked {token : Option String} {item : WorkItem} (h : l.recordItem fid token item = some l') :
    Unbooked l l' := by
  rw [recordItem] at h
  cases hfiring : l.firing fid with
  | none =>
    rw [hfiring] at h
    cases h
  | some firing =>
    rw [hfiring] at h
    dsimp only at h
    split at h
    · obtain rfl := Option.some.inj h
      exact .set hfiring rfl rfl
    · cases h

theorem move_unbooked {token : Option String} {now : Instant} {state : FiringState} {patch : Patch}
    (h : l.move fid token now state patch = some l') : Unbooked l l' := by
  rw [move] at h
  cases hfiring : l.firing fid with
  | none =>
    rw [hfiring] at h
    cases h
  | some firing =>
    rw [hfiring] at h
    dsimp only at h
    split at h
    · obtain rfl := Option.some.inj h
      exact .set hfiring rfl rfl
    · cases h

theorem reclaim_unbooked {now : Instant} (h : l.reclaim fid now = some l') : Unbooked l l' := by
  rw [reclaim] at h
  cases hfiring : l.firing fid with
  | none =>
    rw [hfiring] at h
    cases h
  | some firing =>
    rw [hfiring] at h
    dsimp only at h
    split at h
    · obtain rfl := Option.some.inj h
      exact .set hfiring rfl rfl
    · cases h

/-- `_done` writes the cost on the document that it ends. -/
theorem done_cost {now : Instant} {outcome : String} {cost : Cost} {code : Option String}
    (h : l.done fid now outcome cost code = some l') :
    ∃ firing d, l.firing fid = some firing ∧ firing.state = .created ∧ d.state = .done ∧
      d.scheduleId = firing.scheduleId ∧ d.cost = some cost ∧ l' = l.setFiring fid d := by
  rw [done] at h
  cases hfiring : l.firing fid with
  | none =>
    rw [hfiring] at h
    cases h
  | some firing =>
    rw [hfiring] at h
    dsimp only at h
    split at h
    · rename_i hcreated
      obtain rfl := Option.some.inj h
      refine ⟨firing, _, rfl, hcreated, ?_, ?_, ?_, rfl⟩
      · rfl
      · rfl
      · rfl
    · cases h

end Ledger

namespace World

section Steps

variable {addUsd : Float → Float → Float} {spendDay : Instant → String → String} {w w' : World} {action : Action}
  {ops : List Action}

/-- A transaction changes the counters of a schedule by its entry in the books, and in no other way. -/
theorem step_counters (hstep : Step addUsd spendDay w action w') (scheduleId : String) :
    w'.ledger.counters scheduleId =
      (action.entry scheduleId).toList.foldl (post addUsd spendDay) (w.ledger.counters scheduleId) := by
  have hschedules : ∀ l', Ledger.Unbooked w.ledger l' → l'.counters scheduleId = w.ledger.counters scheduleId := by
    intro l' h
    rw [Ledger.counters, h.schedules, Ledger.counters]
  cases hstep with
  | claim claimed now plan next => exact w.ledger.counters_claim claimed now plan next scheduleId
  | pause paused code state => exact w.ledger.counters_pause paused code state scheduleId
  | fireNow other schedule now actor dryRun hfresh =>
    exact hschedules _ (Ledger.fireNow_unbooked hfresh other schedule now actor dryRun)
  | lease ticker fid wall hfresh => exact hschedules _ (Ledger.lease_unbooked _ fid wall _)
  | holdApproved hheld => exact hschedules _ (Ledger.holdApproved_unbooked hheld)
  | release ticker fid => exact hschedules _ (Ledger.release_unbooked _ fid _)
  | recordItem hrecorded => exact hschedules _ (Ledger.recordItem_unbooked hrecorded)
  | move hstate hmoved hcalls => exact hschedules _ (Ledger.move_unbooked hmoved)
  | reclaim hclaimed => exact hschedules _ (Ledger.reclaim_unbooked hclaimed)
  | done hdone hcalls =>
    obtain ⟨firing, d, -, -, -, -, -, rfl⟩ := Ledger.done_cost hdone
    rfl
  | stop howed => rfl
  | forget ticker fid => rfl
  | approve approvalId approval record hfiring hawaiting => rfl
  | edit edited schedule =>
    rw [Ledger.counters_setSchedule, Action.entry]
    by_cases heq : edited = scheduleId
    · rw [if_pos heq.symm, if_pos heq]
      rfl
    · rw [if_neg (Ne.symm heq), if_neg heq]
      rfl
  | recordLast howed =>
    rw [Ledger.counters_recordLast, Action.entry]
    split
    · rfl
    · rfl

/-- The counters of every schedule are what its books make of the counters it had. -/
theorem run_counters {w₀ : World} (hrun : Run (Step addUsd spendDay) w₀ ops w) (scheduleId : String) :
    w.ledger.counters scheduleId =
      (books ops scheduleId).foldl (post addUsd spendDay) (w₀.ledger.counters scheduleId) := by
  induction hrun with
  | nil => rfl
  | @snoc _ _ _ op _ hlast ih =>
    rw [step_counters hlast, ih, books, books, List.filterMap_append, List.foldl_append]
    cases hentry : op.entry scheduleId with
    | none => rw [List.filterMap_cons_none hentry]; rfl
    | some entry => rw [List.filterMap_cons_some hentry]; rfl

/-! ## Counting once -/

/-- How often a firing is in the log, with the calls for it that are still owed. -/
def tally (log : List String) (owed : List Ledger.LastRecord) (counts : Ledger.LastRecord → Bool) (fid : String) : Nat :=
  log.count fid + owed.countP fun record => counts record && record.fid = fid

/-- No firing is counted twice, and one that is counted has ended. -/
def Tallied (l : Ledger) (log : List String) (owed : List Ledger.LastRecord) (counts : Ledger.LastRecord → Bool)
    (ended : FiringState → Bool) : Prop :=
  ∀ fid, tally log owed counts fid ≤ 1 ∧
    (0 < tally log owed counts fid → ∃ d, l.firing fid = some d ∧ ended d.state)

/-- A firing that has ended stays so. -/
def Stays (l l' : Ledger) (ended : FiringState → Bool) : Prop :=
  ∀ fid d, l.firing fid = some d → ended d.state → ∃ d', l'.firing fid = some d' ∧ ended d'.state

section Tally

variable {l l' : Ledger} {log log' : List String} {owed owed' before after : List Ledger.LastRecord}
  {record : Ledger.LastRecord} {counts : Ledger.LastRecord → Bool} {ended : FiringState → Bool}

theorem Tallied.mono (h : Tallied l log owed counts ended) (hstays : Stays l l' ended)
    (hle : ∀ fid, tally log' owed' counts fid ≤ tally log owed counts fid) : Tallied l' log' owed' counts ended := by
  intro fid
  obtain ⟨hone, hended⟩ := h fid
  have hfid := hle fid
  constructor
  · omega
  · intro hpos
    obtain ⟨d, hd, hstate⟩ := hended (by omega)
    exact hstays fid d hd hstate

/-- A call for a firing that had not ended before and now has. -/
theorem Tallied.owe (h : Tallied l log owed counts ended) (hstays : Stays l l' ended) {d d' : Firing}
    (hd : l.firing record.fid = some d) (hnot : counts record → ended d.state = false)
    (hd' : l'.firing record.fid = some d') (hended : counts record → ended d'.state) :
    Tallied l' log (owed ++ [record]) counts ended := by
  by_cases hcounts : counts record
  · intro fid
    obtain ⟨hone, hold⟩ := h fid
    have htally : tally log (owed ++ [record]) counts fid =
        tally log owed counts fid + if record.fid = fid then 1 else 0 := by
      simp [tally, List.countP_append, List.countP_cons, hcounts, Nat.add_assoc]
    rw [htally]
    split
    · rename_i hfid
      subst hfid
      have hzero : tally log owed counts record.fid = 0 := by
        by_contra hpos
        obtain ⟨e, he, hstate⟩ := hold (by omega)
        obtain rfl := Option.some.inj (hd.symm.trans he)
        rw [hnot hcounts] at hstate
        cases hstate
      constructor
      · omega
      · intro _
        exact ⟨d', hd', hended hcounts⟩
    · constructor
      · omega
      · intro hpos
        obtain ⟨e, he, hstate⟩ := hold (by omega)
        exact hstays fid e he hstate
  · apply h.mono hstays
    intro fid
    simp [tally, List.countP_append, hcounts]

/-- A call that is made moves from what is owed to the log. -/
theorem tally_recordLast (howed : owed = before ++ record :: after) (fid : String) :
    tally (log ++ if counts record then [record.fid] else []) (before ++ after) counts fid =
      tally log owed counts fid := by
  subst howed
  by_cases hcounts : counts record
  · by_cases hfid : record.fid = fid
    · simp only [tally, hcounts, if_true, hfid, List.count_append, List.count_singleton_self, List.countP_append,
        List.countP_cons, Bool.true_and, decide_true]
      omega
    · simp [tally, hcounts, hfid, List.count_append, List.countP_append]
  · simp [tally, hcounts, List.countP_append]

theorem tally_stop (howed : owed = before ++ record :: after) (fid : String) :
    tally log (before ++ after) counts fid ≤ tally log owed counts fid := by
  subst howed
  simp only [tally, List.countP_append, List.countP_cons]
  omega

theorem Tallied.nodup (h : Tallied l log owed counts ended) : log.Nodup := by
  rw [List.nodup_iff_count_le_one]
  intro fid
  have := (h fid).1
  rw [tally] at this
  omega

end Tally

/-! ## Calls that tell the truth -/

def ended (state : FiringState) : Bool := state = .done

/-- The firing of a call is one of its schedule's; one that counts has ended, with the cost that is charged. -/
structure Truthful (l : Ledger) (record : Ledger.LastRecord) : Prop where
  firing : ∃ d, l.firing record.fid = some d ∧ d.scheduleId = record.scheduleId ∧
    (record.failed.isSome → d.state.final) ∧ ∀ cost, record.cost = some cost → d.state = .done ∧ d.cost = some cost

/-- What a step leaves of a document. -/
theorem step_firing (hstep : Step addUsd spendDay w action w') {fid : String} {d : Firing}
    (hd : w.ledger.firing fid = some d) : ∃ d', w'.ledger.firing fid = some d' ∧ d'.scheduleId = d.scheduleId ∧
      (d.state.final → d'.state = d.state ∧ d'.cost = d.cost) := by
  obtain ⟨d', hd', hmoved⟩ := step_moved hstep hd
  have hunbooked : Ledger.Unbooked w.ledger w'.ledger → d'.scheduleId = d.scheduleId ∧ d'.cost = d.cost := by
    intro h
    obtain ⟨e, he, hschedule, hcost⟩ := h.firing fid d hd
    obtain rfl := Option.some.inj (hd'.symm.trans he)
    exact ⟨hschedule, hcost⟩
  have hsame : d'.scheduleId = d.scheduleId ∧ d'.cost = d.cost → ∃ d', w'.ledger.firing fid = some d' ∧
      d'.scheduleId = d.scheduleId ∧ (d.state.final → d'.state = d.state ∧ d'.cost = d.cost) :=
    fun h => ⟨d', hd', h.1, fun hfinal => ⟨hmoved.final hfinal, h.2⟩⟩
  have heq : w'.ledger.firing fid = some d → d'.scheduleId = d.scheduleId ∧ d'.cost = d.cost := by
    intro h
    obtain rfl := Option.some.inj (hd'.symm.trans h)
    exact ⟨rfl, rfl⟩
  cases hstep with
  | claim claimed now plan next => exact hsame (heq (Ledger.claim_keeps claimed now plan next hd))
  | fireNow other schedule now actor dryRun hfresh =>
    exact hsame (hunbooked (Ledger.fireNow_unbooked hfresh other schedule now actor dryRun))
  | lease ticker fid wall hfresh => exact hsame (hunbooked (Ledger.lease_unbooked _ fid wall _))
  | holdApproved hheld => exact hsame (hunbooked (Ledger.holdApproved_unbooked hheld))
  | release ticker fid => exact hsame (hunbooked (Ledger.release_unbooked _ fid _))
  | recordItem hrecorded => exact hsame (hunbooked (Ledger.recordItem_unbooked hrecorded))
  | move hstate hleft hcalls => exact hsame (hunbooked (Ledger.move_unbooked hleft))
  | reclaim hclaimed => exact hsame (hunbooked (Ledger.reclaim_unbooked hclaimed))
  | recordLast howed =>
    refine hsame (heq ?_)
    rw [Ledger.recordLast]
    split
    · exact hd
    · exact hd
  | pause paused code state =>
    refine hsame (heq ?_)
    rw [Ledger.pause]
    split
    · exact hd
    · split
      · exact hd
      · exact hd
  | edit edited schedule => exact hsame (heq hd)
  | stop howed => exact hsame (heq hd)
  | forget ticker fid => exact hsame (heq hd)
  | approve approvalId approval record hfiring hawaiting =>
    refine hsame (hunbooked (Ledger.Unbooked.trans (Ledger.Unbooked.set hfiring ?_ ?_) (.of_firings rfl rfl)))
    · rfl
    · rfl
  | done hdone hcalls =>
    obtain ⟨firing, e, hfiring, hcreated, -, hschedule, -, rfl⟩ := Ledger.done_cost hdone
    rw [Ledger.firing_setFiring] at hd'
    split at hd'
    · rename_i hfid
      obtain rfl := Option.some.inj hd'
      rw [hfid] at hd
      obtain rfl := Option.some.inj (hfiring.symm.trans hd)
      refine ⟨_, ?_, hschedule, ?_⟩
      · rw [hfid, Ledger.firing_setFiring, if_pos rfl]
      · rw [hcreated]
        intro hfinal
        cases hfinal
    · obtain rfl := Option.some.inj (hd.symm.trans hd')
      exact hsame ⟨rfl, rfl⟩

theorem Truthful.step (hstep : Step addUsd spendDay w action w') {record : Ledger.LastRecord}
    (h : Truthful w.ledger record) : Truthful w'.ledger record := by
  obtain ⟨d, hd, hschedule, hfailed, hcost⟩ := h.firing
  obtain ⟨d', hd', hschedule', hfinal⟩ := step_firing hstep hd
  refine ⟨d', hd', hschedule'.trans hschedule, fun hcounts => ?_, fun cost hcharged => ?_⟩
  · rw [(hfinal (hfailed hcounts)).1]
    exact hfailed hcounts
  · obtain ⟨hdone, hsame⟩ := hcost cost hcharged
    obtain ⟨hstate, hkept⟩ := hfinal (hdone ▸ rfl)
    exact ⟨hstate.trans hdone, hkept.trans hsame⟩

/-- What holds of the calls, made and owed, in every world that is reached. -/
structure Sound (ops : List Action) (w : World) : Prop where
  charges : Tallied w.ledger (charged ops) w.owed (·.cost.isSome) ended
  counts : Tallied w.ledger (counted ops) w.owed (·.failed.isSome) FiringState.final
  truthful : ∀ record, record ∈ w.owed ∨ record ∈ ops.filterMap Action.record → Truthful w.ledger record

theorem step_stays (hstep : Step addUsd spendDay w action w') (states : FiringState → Bool)
    (hfinal : ∀ state, states state → state.final) : Stays w.ledger w'.ledger states := by
  intro fid d hd hstate
  obtain ⟨d', hd', hmoved⟩ := step_moved hstep hd
  exact ⟨d', hd', by rw [hmoved.final (hfinal _ hstate)]; exact hstate⟩

theorem final_of_ended (state : FiringState) (h : ended state) : state.final := by
  rw [ended, decide_eq_true_eq] at h
  rw [h]
  rfl

theorem filterMap_record_snoc (ops : List Action) (action : Action) :
    (ops ++ [action]).filterMap Action.record = ops.filterMap Action.record ++ action.record.toList := by
  rw [List.filterMap_append]
  cases h : action.record with
  | none => simp [h]
  | some record => simp [h]

theorem booked_snoc (counts : Ledger.LastRecord → Bool) (ops : List Action) (action : Action) :
    booked counts (ops ++ [action]) =
      booked counts ops ++ (action.record.toList.filter counts).map Ledger.LastRecord.fid := by
  rw [booked, filterMap_record_snoc, List.filter_append, List.map_append, booked]

theorem booked_recordLast (counts : Ledger.LastRecord → Bool) (ops : List Action) (record : Ledger.LastRecord) :
    booked counts (ops ++ [Action.recordLast record]) = booked counts ops ++ if counts record then [record.fid] else [] := by
  rw [booked_snoc]
  by_cases hcounts : counts record
  · simp [Action.record, hcounts]
  · simp [Action.record, hcounts]

theorem booked_of_none (counts : Ledger.LastRecord → Bool) (ops : List Action) (h : action.record = none) :
    booked counts (ops ++ [action]) = booked counts ops := by
  rw [booked_snoc, h]
  exact List.append_nil _

/-- A step that makes no call and owes none that it did not owe. -/
theorem Sound.frame (h : Sound ops w) (hstep : Step addUsd spendDay w action w') (hrecord : action.record = none)
    (howed : w'.owed = w.owed) : Sound (ops ++ [action]) w' := by
  refine ⟨?_, ?_, fun record hmem => (h.truthful record ?_).step hstep⟩
  · rw [charged, booked_of_none _ _ hrecord, howed]
    exact h.charges.mono (step_stays hstep ended final_of_ended) fun _ => Nat.le_refl _
  · rw [counted, booked_of_none _ _ hrecord, howed]
    exact h.counts.mono (step_stays hstep FiringState.final fun _ hfinal => hfinal) fun _ => Nat.le_refl _
  · rw [filterMap_record_snoc, hrecord, howed] at hmem
    simpa using hmem

theorem not_final_of_movable {d : Firing} (h : Ledger.movable d) : d.state.final = false := by
  rw [Ledger.movable, Bool.or_eq_true, Bool.and_eq_true, decide_eq_true_eq, decide_eq_true_eq] at h
  obtain hclaimed | ⟨hawaiting, -⟩ := h
  · rw [hclaimed]
    rfl
  · rw [hawaiting]
    rfl

/-- A refusal and a skip end a firing, the other moves count for nothing. -/
theorem final_of_failedBy {state : FiringState} (h : (failedBy state).isSome) : state.final := by
  cases state with
  | skipped => rfl
  | refused => rfl
  | _ => cases h

/-- A step that makes no call and owes one for the firing it has just ended or created. -/
theorem Sound.owe (h : Sound ops w) (hstep : Step addUsd spendDay w action w') (hrecord : action.record = none)
    {record : Ledger.LastRecord} (howed : w'.owed = w.owed ++ [record]) {d d' : Firing}
    (hd : w.ledger.firing record.fid = some d) (hopen : d.state.final = false)
    (hd' : w'.ledger.firing record.fid = some d') (hschedule : d'.scheduleId = record.scheduleId)
    (hfailed : record.failed.isSome → d'.state.final)
    (hcost : ∀ cost, record.cost = some cost → d'.state = .done ∧ d'.cost = some cost) :
    Sound (ops ++ [action]) w' := by
  have hnot : ended d.state = false := by
    rw [Bool.eq_false_iff]
    intro hended
    rw [final_of_ended _ hended] at hopen
    cases hopen
  have hended : record.cost.isSome → ended d'.state := by
    intro hsome
    obtain ⟨cost, hcharged⟩ := Option.isSome_iff_exists.mp hsome
    rw [ended, (hcost cost hcharged).1]
    rfl
  refine ⟨?_, ?_, fun other hmem => ?_⟩
  · rw [charged, booked_of_none _ _ hrecord, howed]
    exact h.charges.owe (step_stays hstep ended final_of_ended) hd (fun _ => hnot) hd' hended
  · rw [counted, booked_of_none _ _ hrecord, howed]
    exact h.counts.owe (step_stays hstep FiringState.final fun _ hfinal => hfinal) hd (fun _ => hopen) hd' hfailed
  · rw [filterMap_record_snoc, hrecord, howed, Option.toList_none, List.append_nil, List.mem_append,
      List.mem_singleton] at hmem
    obtain (hold | rfl) | hold := hmem
    · exact (h.truthful other (.inl hold)).step hstep
    · exact ⟨d', hd', hschedule, hfailed, hcost⟩
    · exact (h.truthful other (.inr hold)).step hstep

theorem Sound.step (h : Sound ops w) (hstep : Step addUsd spendDay w action w') : Sound (ops ++ [action]) w' := by
  have hframe := h.frame hstep
  have howe := @Sound.owe _ _ _ _ _ _ h hstep
  have hended := step_stays hstep ended final_of_ended
  have hfinal := step_stays hstep FiringState.final fun _ hstate => hstate
  have htruthful := fun record => @Truthful.step _ _ _ _ _ hstep record
  cases hstep with
  | recordLast howed =>
    refine ⟨?_, ?_, fun other hmem => htruthful other (h.truthful other ?_)⟩
    · rw [charged, booked_recordLast]
      exact h.charges.mono hended fun fid => (@tally_recordLast _ _ _ _ _ (·.cost.isSome) howed fid).le
    · rw [counted, booked_recordLast]
      exact h.counts.mono hfinal fun fid => (@tally_recordLast _ _ _ _ _ (·.failed.isSome) howed fid).le
    · rw [filterMap_record_snoc] at hmem
      rw [howed]
      simp only [Action.record, Option.toList_some, List.mem_append, List.mem_cons] at hmem ⊢
      tauto
  | stop howed =>
    refine ⟨?_, ?_, fun other hmem => htruthful other (h.truthful other ?_)⟩
    · rw [charged, booked_of_none _ _ rfl]
      exact h.charges.mono hended (tally_stop howed)
    · rw [counted, booked_of_none _ _ rfl]
      exact h.counts.mono hfinal (tally_stop howed)
    · rw [filterMap_record_snoc] at hmem
      rw [howed]
      simp only [Action.record, Option.toList_none, List.append_nil, List.mem_append, List.mem_cons] at hmem ⊢
      tauto
  | move hstate hleft hcalls =>
    obtain ⟨firing, d, hfiring, hmovable, -, rfl, hschedule, rfl⟩ := Ledger.move_cases hleft
    obtain rfl | ⟨record, rfl, rfl, hplace, hfailed, hcost⟩ := hcalls
    · exact hframe rfl (List.append_nil _)
    · rw [hfiring] at hplace
      have hafter := (Ledger.firing_setFiring w.ledger record.fid d record.fid).trans (if_pos rfl)
      refine howe rfl rfl hfiring (not_final_of_movable hmovable) hafter (hschedule.trans (Option.some.inj hplace)) ?_ ?_
      · intro hcounts
        rw [hfailed] at hcounts
        exact final_of_failedBy hcounts
      · intro cost hcharged
        rw [hcharged] at hcost
        cases hcost
  | done hdone hcalls =>
    obtain ⟨firing, d, hfiring, hcreated, hstate, hschedule, hcharged, rfl⟩ := Ledger.done_cost hdone
    obtain rfl | ⟨record, rfl, rfl, hplace, -, hcost⟩ := hcalls
    · exact hframe rfl (List.append_nil _)
    · rw [hfiring] at hplace
      have hafter := (Ledger.firing_setFiring w.ledger record.fid d record.fid).trans (if_pos rfl)
      have hopen : firing.state.final = false := by rw [hcreated]; rfl
      refine howe rfl rfl hfiring hopen hafter (hschedule.trans (Option.some.inj hplace)) ?_ ?_
      · exact fun _ => by rw [hstate]; rfl
      · intro cost hsome
        rw [hcost] at hsome
        exact ⟨hstate, hcharged.trans hsome⟩
  | _ => exact hframe rfl rfl

theorem sound_start (l : Ledger) : Sound [] (start l) where
  charges := by simp [Tallied, tally, start, charged, booked]
  counts := by simp [Tallied, tally, start, counted, booked]
  truthful := by simp [start]

theorem sound_of_run {l : Ledger} (hrun : Run (Step addUsd spendDay) (start l) ops w) : Sound ops w := by
  induction hrun with
  | nil => exact sound_start l
  | snoc _ hlast ih => exact ih.step hlast

/-- In any interleaving of any number of Tickers, from any documents: a claim overwrites no
document; a firing goes only where its state allows, and from `skipped`, `refused` and
`done` nowhere; only the finisher moves it out of `claimed` and `awaiting_approval`. The
spend and the row of failures of a schedule are what its books make of those it had, and
the books have the cost of a firing of the schedule once at most, and its end once at most. -/
theorem firing_ledger_sound (addUsd : Float → Float → Float) (spendDay : Instant → String → String) (l : Ledger)
    {ops : List Action} (hrun : Run (Step addUsd spendDay) (start l) ops w) :
    (∀ action w', Step addUsd spendDay w action w' → ∀ fid d, w.ledger.firing fid = some d →
      ∃ d', w'.ledger.firing fid = some d' ∧
        ((∃ scheduleId now plan next, action = .claim scheduleId now plan next) → d' = d) ∧
        (d'.state = d.state ∨ d.Allows d'.state) ∧
        (d.state = .claimed ∨ d.state = .awaitingApproval → d'.state ≠ d.state →
          MovedByFinisher w action fid d d'.state)) ∧
    (∀ later w', Run (Step addUsd spendDay) w later w' → ∀ fid d, w.ledger.firing fid = some d → d.state.final →
      ∃ d', w'.ledger.firing fid = some d' ∧ d'.state = d.state) ∧
    (∀ scheduleId, w.ledger.counters scheduleId =
      (books ops scheduleId).foldl (post addUsd spendDay) (l.counters scheduleId)) ∧
    (∀ record ∈ ops.filterMap Action.record, Truthful w.ledger record) ∧
    (charged ops).Nodup ∧ (counted ops).Nodup := by
  have hleased : w.Leased := hrun.invariant (fun _ _ _ h hstep => h.step hstep) (leased_start l)
  have hsound := sound_of_run hrun
  refine ⟨?_, ?_, run_counters hrun, fun record hmem => hsound.truthful record (.inr hmem), hsound.charges.nodup,
    hsound.counts.nodup⟩
  · intro action w' hstep fid d hd
    obtain ⟨d', hd', hmoved⟩ := step_moved hstep hd
    refine ⟨d', hd', ?_, hmoved.allows, hleased.movedByFinisher hmoved⟩
    rintro ⟨scheduleId, now, plan, next, rfl⟩
    cases hstep with
    | claim =>
      rw [Ledger.claim_keeps scheduleId now plan next hd] at hd'
      exact (Option.some.inj hd').symm
  · intro later w' hlater fid d hd hfinal
    exact run_final hlater hd hfinal

end Steps

/-! ## One firing from its claim to its books -/

def sampleSchedule : Schedule :=
  { tenantId := "t", type := "issue_runs", state := .enabled, nextSlot := some 0, nextRunAt := some 0,
    timezone := "UTC", consecutiveFailures := 2 }

def sampleLedger : Ledger := ⟨[("s", sampleSchedule)], [], [], []⟩

def sampleDay (_ : Instant) (_ : String) : String := "1970-01-01"

def sampleCost : Cost := ⟨1.5, 1⟩

def sampleRecord : Ledger.LastRecord := ⟨"s", "s:0", 9, some "failed", some true, none, some sampleCost⟩

def claimedWorld : World :=
  { start sampleLedger with ledger := (sampleLedger.claim "s" 0 ⟨some 0, .cron, []⟩ (none, none)).1 }

def leasedWorld : World :=
  ⟨(claimedWorld.ledger.lease "s:0" 1 "k").1, [(⟨"a", "s:0"⟩, "k")], [], ["k"]⟩

def createdWorld : World :=
  { leasedWorld with ledger := (leasedWorld.ledger.move "s:0" (some "k") 2 .created {}).getD leasedWorld.ledger }

def doneWorld : World :=
  { createdWorld with
    ledger := (createdWorld.ledger.done "s:0" 9 "failed" sampleCost none).getD createdWorld.ledger
    owed := [sampleRecord] }

def recordedWorld : World :=
  { doneWorld with ledger := doneWorld.ledger.recordLast (· + ·) sampleDay sampleRecord, owed := [] }

def sampleOps : List Action :=
  [.claim "s" 0 ⟨some 0, .cron, []⟩ (none, none), .lease "a" "s:0" 1 "k", .move "a" "s:0" 2 .created {},
    .done "b" "s:0" 9 "failed" sampleCost none, .recordLast sampleRecord]

theorem sampleRun : Run (Step (· + ·) sampleDay) (start sampleLedger) sampleOps recordedWorld := by
  have hmove : leasedWorld.ledger.move "s:0" (leasedWorld.token "a" "s:0") 2 .created {} = some createdWorld.ledger := rfl
  have hend : createdWorld.ledger.done "s:0" 9 "failed" sampleCost none = some doneWorld.ledger := rfl
  have hclaimed : Run (Step (· + ·) sampleDay) (start sampleLedger) _ claimedWorld :=
    .one (.claim "s" 0 ⟨some 0, .cron, []⟩ (none, none))
  have hleased : Run (Step (· + ·) sampleDay) (start sampleLedger) _ leasedWorld :=
    .snoc hclaimed (.lease "a" "s:0" 1 (by decide))
  have hcreated : Run (Step (· + ·) sampleDay) (start sampleLedger) _ createdWorld :=
    .snoc hleased (.move (by decide) hmove (.inl rfl))
  have hdone : Step (· + ·) sampleDay createdWorld (.done "b" "s:0" 9 "failed" sampleCost none) doneWorld :=
    .done hend (.inr ⟨sampleRecord, rfl, rfl, rfl, rfl, rfl⟩)
  have hrecorded : Step (· + ·) sampleDay doneWorld (.recordLast sampleRecord) recordedWorld :=
    .recordLast (show doneWorld.owed = [] ++ sampleRecord :: [] from rfl)
  exact .snoc (.snoc hcreated hdone) hrecorded

/-- The cost is in the day's spend once, and the failure is the third of its row. -/
theorem firing_ledger_of_one_firing :
    recordedWorld.ledger.counters "s" = some ⟨"UTC", 3, some ⟨"1970-01-01", 0 + 1.5, 1⟩⟩ ∧
      Truthful recordedWorld.ledger sampleRecord ∧ charged sampleOps = ["s:0"] ∧ counted sampleOps = ["s:0"] ∧
      (charged sampleOps).Nodup ∧ (counted sampleOps).Nodup := by
  obtain ⟨-, -, hcounters, htruthful, hcharged, hcounted⟩ := firing_ledger_sound _ _ sampleLedger sampleRun
  exact ⟨hcounters "s", htruthful sampleRecord (by simp [sampleOps, Action.record]), rfl, rfl, hcharged, hcounted⟩

end World

end SwarmCloud.Schedules
