import SwarmCloud.Schedules.Calls
import SwarmCloud.Schedules.States

/-! # Queued and live firings

A schedule is in order when at most one of its firings is queued, and then another
is created. What the pieces of a call (`advance` without the queue, `_live_of`, the
verdict of `_finish`) do to that.
-/

namespace SwarmCloud.Schedules

open Common Lib

namespace Ledger

variable {l l' l'' : Ledger} {fid scheduleId : String} {firing : Firing} {tick : Tick} {env : String → Findings}

theorem mem_ofSchedule {states : List FiringState} :
    fid ∈ l.ofSchedule scheduleId states ↔ ∃ state ∈ states, l.place fid = some (scheduleId, state) := by
  rw [ofSchedule, List.mem_filter, place]
  constructor
  · rintro ⟨-, hany⟩
    obtain ⟨firing, hfiring, hmatch⟩ := (Option.any_eq_true _ _).mp hany
    rw [Bool.and_eq_true, decide_eq_true_eq, decide_eq_true_eq] at hmatch
    refine ⟨firing.state, hmatch.2, ?_⟩
    rw [hfiring, ← hmatch.1]
    rfl
  · rintro ⟨state, hstate, hplace⟩
    obtain ⟨firing, hfiring, heq⟩ := Option.map_eq_some_iff.mp hplace
    obtain ⟨rfl, rfl⟩ := Prod.mk.inj heq
    refine ⟨List.mem_map.mpr ⟨_, Dict.mem_of_lookup hfiring, rfl⟩, ?_⟩
    rw [hfiring, Option.any_some, Bool.and_eq_true]
    exact ⟨decide_eq_true rfl, decide_eq_true hstate⟩

theorem mem_ofSchedule_one {state : FiringState} :
    fid ∈ l.ofSchedule scheduleId [state] ↔ l.place fid = some (scheduleId, state) := by
  rw [mem_ofSchedule]
  constructor
  · rintro ⟨other, hother, hplace⟩
    rwa [List.mem_singleton.mp hother] at hplace
  · exact fun hplace => ⟨state, List.mem_singleton_self state, hplace⟩

/-! ## What holds of a schedule -/

def Waits (l : Ledger) (scheduleId : String) : Prop := ∃ fid, l.place fid = some (scheduleId, .queued)

def Live (l : Ledger) (scheduleId : String) : Prop := ∃ fid, l.place fid = some (scheduleId, .created)

def OneQueued (l : Ledger) (scheduleId : String) : Prop :=
  ∀ fid fid', l.place fid = some (scheduleId, .queued) → l.place fid' = some (scheduleId, .queued) → fid = fid'

structure Orderly (l : Ledger) (scheduleId : String) : Prop where
  one : l.OneQueued scheduleId
  live : l.Waits scheduleId → l.Live scheduleId

theorem exists_place_iff {state : FiringState} :
    (∃ fid, l.place fid = some (scheduleId, state)) ↔ l.ofSchedule scheduleId [state] ≠ [] := by
  constructor
  · rintro ⟨fid, hfid⟩
    exact List.ne_nil_of_mem (mem_ofSchedule_one.mpr hfid)
  · intro hne
    obtain ⟨fid, hfid⟩ := List.exists_mem_of_ne_nil _ hne
    exact ⟨fid, mem_ofSchedule_one.mp hfid⟩

theorem orderly_of_not_waits (h : ¬ l.Waits scheduleId) : l.Orderly scheduleId where
  one fid _ hfid _ := absurd ⟨fid, hfid⟩ h
  live hwaits := absurd hwaits h

/-- No firing of the schedule is newly queued. -/
def Unqueued (scheduleId : String) (l l' : Ledger) : Prop :=
  ∀ fid, l'.place fid = some (scheduleId, .queued) → l.place fid = some (scheduleId, .queued)

theorem Unqueued.one (h : Unqueued scheduleId l l') (hone : l.OneQueued scheduleId) : l'.OneQueued scheduleId :=
  fun fid fid' hfid hfid' => hone fid fid' (h fid hfid) (h fid' hfid')

theorem Unqueued.not_waits (h : Unqueued scheduleId l l') (hnone : ¬ l.Waits scheduleId) : ¬ l'.Waits scheduleId :=
  fun ⟨fid, hfid⟩ => hnone ⟨fid, h fid hfid⟩

theorem Unqueued.trans (h : Unqueued scheduleId l l') (h' : Unqueued scheduleId l' l'') :
    Unqueued scheduleId l l'' :=
  fun fid hfid => h fid (h' fid hfid)

theorem Same.unqueued (h : Same l l') (scheduleId : String) : Unqueued scheduleId l l' := by
  intro fid hfid
  rwa [h.place] at hfid

theorem Same.live (h : Same l l') (hlive : l.Live scheduleId) : l'.Live scheduleId := by
  obtain ⟨fid, hfid⟩ := hlive
  exact ⟨fid, (h.place fid).trans hfid⟩

theorem Moves.unqueued {before after : FiringState} {other : String} (h : Moves l fid other before after l')
    (hafter : after ≠ .queued) (scheduleId : String) : Unqueued scheduleId l l' := by
  intro fid' hfid'
  rw [h.place] at hfid'
  split at hfid'
  · exact absurd (Prod.mk.inj (Option.some.inj hfid')).2 hafter
  · exact hfid'

/-- Only a created firing that moves makes a schedule less live. -/
theorem Moves.live {before after : FiringState} {other : String} (h : Moves l fid other before after l')
    (hbefore : before ≠ .created) (hlive : l.Live scheduleId) : l'.Live scheduleId := by
  obtain ⟨fid', hfid'⟩ := hlive
  refine ⟨fid', ?_⟩
  rw [h.place, if_neg ?_]
  · exact hfid'
  · rintro rfl
    rw [h.was] at hfid'
    exact hbefore (Prod.mk.inj (Option.some.inj hfid')).2

/-! ## What a call leaves alone -/

/-- The firings of other schedules stay in their states; no document is new, no schedule gone. -/
structure Within (scheduleId : String) (l l' : Ledger) : Prop where
  place : ∀ other state fid, other ≠ scheduleId →
    (l'.place fid = some (other, state) ↔ l.place fid = some (other, state))
  keys : l'.firings.map Prod.fst = l.firings.map Prod.fst
  present : ∀ scheduleId, (l.schedules.lookup scheduleId).isSome → (l'.schedules.lookup scheduleId).isSome

theorem Within.trans (h : Within scheduleId l l') (h' : Within scheduleId l' l'') : Within scheduleId l l'' where
  place other state fid hother := (h'.place other state fid hother).trans (h.place other state fid hother)
  keys := h'.keys.trans h.keys
  present other hpresent := h'.present other (h.present other hpresent)

theorem Same.within (h : Same l l') (scheduleId : String) : Within scheduleId l l' where
  place other state fid _ := by rw [h.place]
  keys := h.keys
  present := h.present

theorem Moves.within {before after : FiringState} (h : Moves l fid scheduleId before after l') :
    Within scheduleId l l' where
  place other state fid' hother := by
    rw [h.place]
    split
    · rename_i hfid
      have hne : (scheduleId, after) ≠ (other, state) ∧ (scheduleId, before) ≠ (other, state) :=
        ⟨fun heq => hother (Prod.mk.inj heq).1.symm, fun heq => hother (Prod.mk.inj heq).1.symm⟩
      rw [hfid, h.was, Option.some_inj, Option.some_inj, iff_false_left hne.1]
      exact hne.2
    · rfl
  keys := h.keys
  present := h.present

theorem Within.orderly {other : String} (h : Within scheduleId l l') (hother : other ≠ scheduleId)
    (hl : l.Orderly other) : l'.Orderly other where
  one fid fid' hfid hfid' :=
    hl.one fid fid' ((h.place other .queued fid hother).mp hfid) ((h.place other .queued fid' hother).mp hfid')
  live := by
    rintro ⟨fid, hfid⟩
    obtain ⟨live, hlive⟩ := hl.live ⟨fid, (h.place other .queued fid hother).mp hfid⟩
    exact ⟨live, (h.place other .created live hother).mpr hlive⟩

/-! ## The pieces of a call -/

theorem recordAndPause_same (tick : Tick) (l : Ledger) (record : LastRecord) :
    Same l (l.recordAndPause tick record) := by
  rw [recordAndPause]
  have hrecorded := recordLast_same tick.addUsd tick.spendDay l record
  split
  · exact hrecorded
  · split
    · exact hrecorded.trans (pause_same _ _ _ _)
    · exact hrecorded

/-- `advance` without the queue does nothing, to a firing whose work goes on or that is not
created, or ends a created one whose work has ended. -/
theorem endCreated_cases (tick : Tick) (env : String → Findings) (l : Ledger) (fid : String) :
    l.endCreated tick env fid = (l, false) ∧ (l.state fid = some .created → (env fid).ended = none) ∨
      ∃ ended scheduleId, l.endCreated tick env fid = (ended, true) ∧ (env fid).ended.isSome ∧
        Moves l fid scheduleId .created .done ended := by
  rw [endCreated]
  cases hfiring : l.firing fid with
  | none =>
    refine .inl ⟨rfl, fun hcreated => ?_⟩
    rw [state, hfiring] at hcreated
    cases hcreated
  | some firing =>
    cases hended : (env fid).ended with
    | none => exact .inl ⟨rfl, fun _ => rfl⟩
    | some ended =>
      dsimp only
      cases hdone : l.done fid tick.now ended.outcome ended.cost
          (if ended.overBudget then some runOverBudget else none) with
      | none =>
        refine .inl ⟨rfl, fun hstate => ?_⟩
        rw [state_of_firing hfiring, Option.some_inj] at hstate
        rw [done, hfiring] at hdone
        simp [hstate] at hdone
      | some done =>
        obtain ⟨d, d', hd, hcreated, hdone', hschedule, rfl⟩ := done_cases hdone
        have hmoves : Moves l fid d.scheduleId .created .done (l.setFiring fid d') := by
          rw [← hcreated, ← hdone']
          exact .set hd hschedule
        dsimp only
        split
        · exact .inr ⟨_, _, rfl, rfl, hmoves⟩
        · refine .inr ⟨_, _, rfl, rfl, hmoves.trans_same ?_⟩
          split
          · exact (recordAndPause_same _ _ _).trans (pause_same _ _ _ _)
          · exact recordAndPause_same _ _ _

/-- Some created firings of the schedule ended, and nothing else moved. -/
structure Swept (scheduleId : String) (l l' : Ledger) : Prop where
  place : ∀ fid, l'.place fid = l.place fid ∨
    l.place fid = some (scheduleId, .created) ∧ l'.place fid = some (scheduleId, .done)
  within : Within scheduleId l l'

theorem Swept.refl (scheduleId : String) (l : Ledger) : Swept scheduleId l l :=
  ⟨fun _ => .inl rfl, (Same.refl l).within scheduleId⟩

theorem Swept.trans (h : Swept scheduleId l l') (h' : Swept scheduleId l' l'') : Swept scheduleId l l'' where
  place fid := by
    obtain hsame | ⟨hcreated, hdone⟩ := h'.place fid
    · rw [hsame]
      exact h.place fid
    · obtain hsame | ⟨-, hdone'⟩ := h.place fid
      · exact .inr ⟨hsame ▸ hcreated, hdone⟩
      · rw [hdone'] at hcreated
        cases hcreated
  within := h.within.trans h'.within

theorem Moves.swept (h : Moves l fid scheduleId .created .done l') : Swept scheduleId l l' where
  place fid' := by
    rw [h.place]
    split
    · rename_i hfid
      exact .inr ⟨hfid ▸ h.was, rfl⟩
    · exact .inl rfl
  within := h.within

theorem Swept.unqueued (h : Swept scheduleId l l') : Unqueued scheduleId l l' := by
  intro fid hfid
  obtain hsame | ⟨-, hdone⟩ := h.place fid
  · rwa [hsame] at hfid
  · rw [hdone] at hfid
    cases hfid

theorem liveOf_swept (exclude : String) {fids : List String}
    (hfids : ∀ fid ∈ fids, ∀ other, (∃ state, l.place fid = some (other, state)) → other = scheduleId) :
    Swept scheduleId l (liveOf tick env exclude fids l).1 := by
  induction fids generalizing l with
  | nil => exact .refl scheduleId l
  | cons fid fids ih =>
    have htail := fun other hin => hfids other (List.mem_cons_of_mem fid hin)
    rw [liveOf]
    split
    · exact ih htail
    · obtain ⟨hend, -⟩ | ⟨ended, other, hend, -, hmoves⟩ := endCreated_cases tick env l fid
      · rw [hend]
        exact ih htail
      · rw [hend]
        obtain rfl := hfids fid List.mem_cons_self other ⟨_, hmoves.was⟩
        refine hmoves.swept.trans (ih ?_)
        rintro fid' hfid' other' ⟨state, hstate⟩
        rw [hmoves.place] at hstate
        split at hstate
        · exact (Prod.mk.inj (Option.some.inj hstate)).1.symm
        · exact htail fid' hfid' other' ⟨state, hstate⟩

/-- A firing that is not looked at, or whose work goes on, stays. -/
theorem liveOf_keeps (exclude : String) {fids : List String} {other : String}
    (hother : other ∈ fids → (env other).ended = none) :
    (liveOf tick env exclude fids l).1.place other = l.place other := by
  induction fids generalizing l with
  | nil => rfl
  | cons fid fids ih =>
    have htail := fun hin => hother (List.mem_cons_of_mem fid hin)
    rw [liveOf]
    split
    · exact ih htail
    · obtain ⟨hend, -⟩ | ⟨ended, schedule, hend, hended, hmoves⟩ := endCreated_cases tick env l fid
      · rw [hend]
        exact ih htail
      · rw [hend]
        refine (ih htail).trans ?_
        rw [hmoves.place, if_neg]
        rintro rfl
        rw [hother List.mem_cons_self] at hended
        cases hended

/-- The firings that `_live_of` returns are created when it returns. -/
theorem liveOf_live (exclude : String) {fids : List String} (hnodup : fids.Nodup)
    (hfids : ∀ fid ∈ fids, l.place fid = some (scheduleId, .created)) {other : String}
    (hother : other ∈ (liveOf tick env exclude fids l).2) :
    (liveOf tick env exclude fids l).1.place other = some (scheduleId, .created) := by
  induction fids generalizing l with
  | nil => cases hother
  | cons fid fids ih =>
    obtain ⟨hnew, hnodup'⟩ := List.nodup_cons.mp hnodup
    have htail := fun other hin => hfids other (List.mem_cons_of_mem fid hin)
    rw [liveOf] at hother ⊢
    split at hother
    · rename_i hexclude
      rw [if_pos hexclude]
      exact ih hnodup' htail hother
    · rename_i hexclude
      rw [if_neg hexclude]
      obtain ⟨hend, -⟩ | ⟨ended, schedule, hend, -, hmoves⟩ := endCreated_cases tick env l fid
      · rw [hend] at hother ⊢
        obtain rfl | hin := List.mem_cons.mp hother
        · exact (liveOf_keeps exclude fun hin => absurd hin hnew).trans (hfids _ List.mem_cons_self)
        · exact ih hnodup' htail hin
      · rw [hend] at hother ⊢
        refine ih hnodup' ?_ hother
        intro fid' hfid'
        rw [hmoves.place, if_neg]
        · exact htail fid' hfid'
        · rintro rfl
          exact hnew hfid'

/-- The state a verdict moves its firing to. -/
def target : Verdict → Option FiringState
  | .finish state _ _ => some state
  | .queue => some .queued
  | .wait _ => some .awaitingApproval
  | .create _ _ _ => some .created
  | .hold _ => none
  | .raise => none

theorem early_target {found : Findings} {verdict : Verdict} (h : l.early firing found = some verdict) :
    target verdict ≠ some .queued := by
  rw [early] at h
  intro htarget
  repeat' split at h
  all_goals first
    | cases h
      cases htarget
    | cases h

theorem late_target (firing : Firing) (found : Findings) (dryRun : Bool) :
    target (late firing found dryRun) ≠ some .queued := by
  rw [late]
  intro htarget
  repeat' split at htarget
  all_goals cases htarget

/-- A verdict that was carried out moved its firing to the verdict's state, if it has one. -/
theorem settle_cases {state : FiringState} {verdict : Verdict} (hplace : l.place fid = some (scheduleId, state))
    (h : settle tick l firing fid verdict = some l') :
    Same l l' ∨ ∃ after, target verdict = some after ∧ Moves l fid scheduleId state after l' := by
  have hmoved : ∀ {moved : Ledger} {after : FiringState} {patch : Patch},
      l.move fid (some tick.token) tick.now after patch = some moved → Moves l fid scheduleId state after moved := by
    intro moved after patch hmove
    obtain ⟨d, d', hd, -, -, hstate, hschedule, rfl⟩ := move_cases hmove
    rw [place_of_firing hd, Option.some_inj, Prod.mk.injEq] at hplace
    obtain ⟨rfl, rfl⟩ := hplace
    rw [← hstate]
    exact .set hd hschedule
  cases verdict with
  | finish after code pause =>
    rw [settle] at h
    cases hmove : l.move fid (some tick.token) tick.now after (endPatch after code tick.now) with
    | none =>
      rw [hmove] at h
      cases h
    | some moved =>
      rw [hmove] at h
      dsimp only at h
      split at h
      · obtain rfl := Option.some.inj h
        exact .inr ⟨after, rfl, hmoved hmove⟩
      · obtain rfl := Option.some.inj h
        refine .inr ⟨after, rfl, (hmoved hmove).trans_same ?_⟩
        split
        · exact (recordAndPause_same _ _ _).trans (pause_same _ _ _ _)
        · exact recordAndPause_same _ _ _
  | queue => exact .inr ⟨.queued, rfl, hmoved h⟩
  | wait digest => exact .inr ⟨.awaitingApproval, rfl, hmoved h⟩
  | hold marker => exact .inl (holdApproved_same h)
  | create work digest code =>
    rw [settle] at h
    cases hmove : l.move fid (some tick.token) tick.now .created (createdPatch work digest code) with
    | none =>
      rw [hmove] at h
      cases h
    | some moved =>
      rw [hmove] at h
      obtain rfl := Option.some.inj h
      exact .inr ⟨.created, rfl, (hmoved hmove).trans_same (recordAndPause_same _ _ _)⟩
  | raise =>
    obtain rfl := Option.some.inj h
    exact .inl (release_same l fid _)

/-- The firings that `_live_of` looks at. -/
def livePage (l : Ledger) (scheduleId : String) : List String := (l.ofSchedule scheduleId [.created]).take scanPage

theorem place_of_mem_livePage (h : fid ∈ l.livePage scheduleId) : l.place fid = some (scheduleId, .created) :=
  mem_ofSchedule_one.mp (List.mem_of_mem_take h)

theorem nodup_livePage (h : (l.firings.map Prod.fst).Nodup) (scheduleId : String) : (l.livePage scheduleId).Nodup :=
  (h.filter _).sublist (List.take_sublist scanPage _)

theorem decideFinish_swept (l : Ledger) (firing : Firing) (fid : String) (dryRun : Bool) :
    Swept firing.scheduleId l (decideFinish tick env l firing fid dryRun).1 := by
  have hlive : Swept firing.scheduleId l (liveOf tick env fid (l.livePage firing.scheduleId) l).1 := by
    apply liveOf_swept
    rintro other hother scheduleId ⟨state, hstate⟩
    rw [place_of_mem_livePage hother] at hstate
    exact (Prod.mk.inj (Option.some.inj hstate)).1.symm
  rw [decideFinish]
  split
  · exact .refl _ l
  · dsimp only
    split
    · split
      · exact hlive
      · exact hlive
    · exact hlive

theorem decideFinish_keeps {dryRun : Bool} {other : String}
    (hother : l.early firing (env fid) = none → other ∈ l.livePage firing.scheduleId → (env other).ended = none) :
    (decideFinish tick env l firing fid dryRun).1.place other = l.place other := by
  rw [decideFinish]
  split
  · rfl
  · rename_i hearly
    have hlive := @liveOf_keeps l tick env fid (l.livePage firing.scheduleId) other (hother hearly)
    dsimp only
    split
    · split
      · exact hlive
      · exact hlive
    · exact hlive

/-- A firing is queued only behind a live one, and only when no other is. -/
theorem decideFinish_queues {dryRun : Bool} (hnodup : (l.firings.map Prod.fst).Nodup)
    (hplace : l.place fid = some (firing.scheduleId, firing.state)) (hmovable : movable firing)
    (h : target (decideFinish tick env l firing fid dryRun).2 = some .queued) :
    firing.trigger ≠ .queued ∧ (decideFinish tick env l firing fid dryRun).1.Live firing.scheduleId ∧
      ¬ (decideFinish tick env l firing fid dryRun).1.Waits firing.scheduleId := by
  have hswept := @decideFinish_swept tick env l firing fid dryRun
  rw [decideFinish] at h hswept ⊢
  split at h
  · rename_i verdict hearly
    exact absurd h (early_target hearly)
  · rename_i hearly
    dsimp only at h
    split at h
    · rename_i hoverlap
      split at h
      · rename_i hqueue
        simp only [hearly, if_pos hoverlap, if_pos hqueue] at hswept ⊢
        refine ⟨hoverlap.2, ?_, ?_⟩
        · obtain ⟨other, hin⟩ := List.exists_mem_of_ne_nil _ hoverlap.1
          exact ⟨other, liveOf_live fid (nodup_livePage hnodup _) (fun _ => place_of_mem_livePage) hin⟩
        · rintro ⟨other, hwaiting⟩
          have hin := mem_ofSchedule_one.mpr hwaiting
          obtain rfl | hfid := eq_or_ne other fid
          · have hwas := hswept.unqueued other hwaiting
            rw [hplace, Option.some_inj, Prod.mk.injEq] at hwas
            simp [movable, hwas.2] at hmovable
          · have hout := hqueue.2
            rw [List.filter_eq_nil_iff] at hout
            exact hout other hin (decide_eq_true hfid)
      · cases h
    · exact absurd h (late_target firing (env fid) dryRun)

theorem early_of_gone (h : l.schedules.lookup firing.scheduleId = none) (found : Findings) :
    l.early firing found = some (.finish .skipped scheduleNotEnabled none) := by
  rw [early, scheduleOf, h]
  rfl

/-- Work is created only for a schedule that is there. -/
theorem decideFinish_present {dryRun : Bool} {work : List WorkItem} {digest code : Option String}
    (h : (decideFinish tick env l firing fid dryRun).2 = .create work digest code) :
    (l.schedules.lookup firing.scheduleId).isSome := by
  cases hschedule : l.schedules.lookup firing.scheduleId with
  | none =>
    rw [decideFinish, early_of_gone hschedule] at h
    cases h
  | some schedule => rfl

end Ledger

end SwarmCloud.Schedules
