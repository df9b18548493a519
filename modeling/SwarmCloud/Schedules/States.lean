import SwarmCloud.Schedules.Firings

/-! # What a transaction does to the states

Most transactions leave every firing in the state it is in; the others rewrite one
document.
-/

namespace SwarmCloud.Schedules

open Common Lib

namespace Ledger

variable {l l' : Ledger} {fid : String} {firing : Firing}

theorem firing_setFiring (l : Ledger) (fid : String) (d : Firing) (fid' : String) :
    (l.setFiring fid d).firing fid' = if fid' = fid then some d else l.firing fid' :=
  Dict.lookup_set l.firings fid fid' d

def state (l : Ledger) (fid : String) : Option FiringState := (l.firing fid).map Firing.state

/-- The schedule of a firing, and its state. -/
def place (l : Ledger) (fid : String) : Option (String × FiringState) :=
  (l.firing fid).map fun firing => (firing.scheduleId, firing.state)

theorem place_setFiring (l : Ledger) (fid : String) (d : Firing) (fid' : String) :
    (l.setFiring fid d).place fid' = if fid' = fid then some (d.scheduleId, d.state) else l.place fid' := by
  rw [place, firing_setFiring]
  split
  · rfl
  · rfl

theorem place_of_firing (h : l.firing fid = some firing) :
    l.place fid = some (firing.scheduleId, firing.state) := by
  rw [place, h]
  rfl

theorem state_eq_place (l : Ledger) (fid : String) : l.state fid = (l.place fid).map Prod.snd := by
  rw [state, place, Option.map_map]
  rfl

theorem state_of_firing (h : l.firing fid = some firing) : l.state fid = some firing.state := by
  rw [state, h]
  rfl

/-- The same documents, each in the state and of the schedule it was, and no schedule gone. -/
structure Same (l l' : Ledger) : Prop where
  place : ∀ fid, l'.place fid = l.place fid
  keys : l'.firings.map Prod.fst = l.firings.map Prod.fst
  present : ∀ scheduleId, (l.schedules.lookup scheduleId).isSome → (l'.schedules.lookup scheduleId).isSome

theorem Same.refl (l : Ledger) : Same l l := ⟨fun _ => rfl, rfl, fun _ h => h⟩

theorem Same.trans {l'' : Ledger} (h : Same l l') (h' : Same l' l'') : Same l l'' where
  place fid := (h'.place fid).trans (h.place fid)
  keys := h'.keys.trans h.keys
  present scheduleId hpresent := h'.present scheduleId (h.present scheduleId hpresent)

theorem Same.state (h : Same l l') (fid : String) : l'.state fid = l.state fid := by
  rw [state_eq_place, h.place, ← state_eq_place]

theorem Same.of_firings (hfirings : l'.firings = l.firings) (hschedules : l'.schedules = l.schedules) :
    Same l l' where
  place fid := by rw [Ledger.place, Ledger.firing, hfirings]; rfl
  keys := by rw [hfirings]
  present scheduleId hpresent := by rwa [hschedules]

theorem setSchedule_same (l : Ledger) (scheduleId : String) (schedule : Schedule) :
    Same l (l.setSchedule scheduleId schedule) where
  place _ := rfl
  keys := rfl
  present other hpresent := by
    rw [setSchedule, Dict.lookup_set]
    split
    · rfl
    · exact hpresent

/-- One firing goes from one state to another; its schedule and the other firings stay. -/
structure Moves (l : Ledger) (fid scheduleId : String) (before after : FiringState) (l' : Ledger) : Prop where
  was : l.place fid = some (scheduleId, before)
  place : ∀ fid', l'.place fid' = if fid' = fid then some (scheduleId, after) else l.place fid'
  keys : l'.firings.map Prod.fst = l.firings.map Prod.fst
  present : ∀ scheduleId, (l.schedules.lookup scheduleId).isSome → (l'.schedules.lookup scheduleId).isSome

theorem keys_setFiring (hfiring : l.firing fid = some firing) (d : Firing) :
    (l.setFiring fid d).firings.map Prod.fst = l.firings.map Prod.fst := by
  rw [setFiring, Dict.keys_set, if_pos (List.mem_map.mpr ⟨_, Dict.mem_of_lookup hfiring, rfl⟩)]

theorem Moves.set {d : Firing} (hfiring : l.firing fid = some firing) (hschedule : d.scheduleId = firing.scheduleId) :
    Moves l fid firing.scheduleId firing.state d.state (l.setFiring fid d) where
  was := place_of_firing hfiring
  place fid' := by rw [place_setFiring, hschedule]
  keys := keys_setFiring hfiring d
  present _ hpresent := hpresent

theorem Moves.same {state : FiringState} {scheduleId : String} (h : Moves l fid scheduleId state state l') :
    Same l l' where
  place fid' := by
    rw [h.place]
    split
    · rename_i hfid
      rw [hfid, h.was]
    · rfl
  keys := h.keys
  present := h.present

theorem Moves.trans_same {before after : FiringState} {scheduleId : String} {l'' : Ledger}
    (h : Moves l fid scheduleId before after l') (h' : Same l' l'') : Moves l fid scheduleId before after l'' where
  was := h.was
  place fid' := by rw [h'.place, h.place]
  keys := h'.keys.trans h.keys
  present other hpresent := h'.present other (h.present other hpresent)

theorem Same.set {d : Firing} (hfiring : l.firing fid = some firing) (hstate : d.state = firing.state)
    (hschedule : d.scheduleId = firing.scheduleId) : Same l (l.setFiring fid d) := by
  have hmoves := Moves.set hfiring hschedule
  rw [hstate] at hmoves
  exact hmoves.same

theorem auditRefusal_same (hfiring : l.firing fid = some firing) (now : Instant) (marker : RefusalMarker) :
    Same l (l.auditRefusal fid firing now marker) := by
  rw [auditRefusal]
  split
  · exact .refl l
  · have hset : Same l (l.setFiring fid { firing with runApprovalRefused := some (marker, now) }) :=
      .set hfiring rfl rfl
    exact hset.trans (.of_firings rfl rfl)

theorem lease_same (l : Ledger) (fid : String) (wall : Instant) (token : String) :
    Same l (l.lease fid wall token).1 := by
  rw [lease]
  cases hfiring : l.firing fid with
  | none => exact .refl l
  | some firing =>
    have htake : Same l (if firing.finishingUntil.any (wall < ·) then (l, none)
        else (l.setFiring fid { firing with finishingUntil := some (wall + finishLease), finisher := some token },
          some firing)).1 := by
      split
      · exact .refl l
      · exact .set hfiring rfl rfl
    dsimp only
    split
    · split
      · exact auditRefusal_same hfiring wall _
      · exact htake
    · exact htake
    · exact .refl l

/-- A firing that was leased is the holder's to move. -/
theorem lease_some {wall : Instant} {token : String} (h : (l.lease fid wall token).2 = some firing) :
    l.firing fid = some firing ∧ movable firing ∧
      (l.lease fid wall token).1 = l.setFiring fid
        { firing with finishingUntil := some (wall + finishLease), finisher := some token } := by
  rw [lease] at h ⊢
  cases hfiring : l.firing fid with
  | none =>
    rw [hfiring] at h
    cases h
  | some d =>
    rw [hfiring] at h
    dsimp only at h ⊢
    split at h
    · rename_i approval hstate happroval
      split at h
      · cases h
      · split at h
        · cases h
        · rename_i hfree
          obtain rfl := Option.some.inj h
          simp [hstate, happroval, hfree, movable]
    · rename_i hstate
      split at h
      · cases h
      · rename_i hfree
        obtain rfl := Option.some.inj h
        simp [hstate, hfree, movable]
    · cases h

theorem holdApproved_same {token : Option String} {now : Instant} {marker : RefusalMarker}
    (h : l.holdApproved fid token now marker = some l') : Same l l' := by
  rw [holdApproved] at h
  cases hfiring : l.firing fid with
  | none =>
    rw [hfiring] at h
    cases h
  | some firing =>
    rw [hfiring] at h
    dsimp only at h
    split at h
    · obtain ⟨audited, haudited, rfl⟩ := Option.map_eq_some_iff.mp h
      exact (auditRefusal_same hfiring now marker).trans (.set haudited rfl rfl)
    · cases h

theorem release_same (l : Ledger) (fid : String) (token : Option String) : Same l (l.release fid token) := by
  rw [release]
  cases hfiring : l.firing fid with
  | none => exact .refl l
  | some firing =>
    dsimp only
    split
    · exact .set hfiring rfl rfl
    · exact .refl l

theorem recordItem_same {token : Option String} {item : WorkItem} (h : l.recordItem fid token item = some l') :
    Same l l' := by
  rw [recordItem] at h
  cases hfiring : l.firing fid with
  | none =>
    rw [hfiring] at h
    cases h
  | some firing =>
    rw [hfiring] at h
    dsimp only at h
    split at h
    · obtain rfl := Option.some.inj h
      exact .set hfiring rfl rfl
    · cases h

theorem recordLast_same (addUsd : Float → Float → Float) (spendDay : Instant → String → String) (l : Ledger)
    (record : LastRecord) : Same l (l.recordLast addUsd spendDay record) := by
  rw [recordLast]
  cases l.schedules.lookup record.scheduleId with
  | none => exact .refl l
  | some schedule => exact setSchedule_same l _ _

theorem pause_same (l : Ledger) (scheduleId code : String) (state : ScheduleState) :
    Same l (l.pause scheduleId code state) := by
  rw [pause]
  cases l.schedules.lookup scheduleId with
  | none => exact .refl l
  | some schedule =>
    dsimp only
    split
    · exact setSchedule_same l _ _
    · exact .refl l

/-- A claim changes nothing, or writes its records, all claimed or skipped and under new ids. -/
theorem claim_cases (l : Ledger) (scheduleId : String) (now : Instant) (plan : SlotPlan)
    (next : Option Instant × Option Instant) :
    (l.claim scheduleId now plan next).1 = l ∨
      ∃ records : List (String × Firing), ∃ schedule : Schedule,
        (l.claim scheduleId now plan next).1 =
          { l.setSchedule scheduleId schedule with
            firings := records.foldl (fun firings record => firings.set record.1 record.2) l.firings } ∧
        ∀ record ∈ records, l.firing record.1 = none ∧
          (record.2.state = .claimed ∨ record.2.state = .skipped) := by
  rw [claim]
  cases l.schedules.lookup scheduleId with
  | none => exact .inl rfl
  | some schedule =>
    dsimp only
    split
    · exact .inl rfl
    · split
      · exact .inl rfl
      · rename_i hnew
        refine .inr ⟨l.claimRecords scheduleId schedule now plan, _, rfl, ?_⟩
        intro record hrecord
        rw [claimRecords, List.mem_append, List.mem_map, List.mem_map] at hrecord
        obtain ⟨skip, hskip, rfl⟩ | ⟨slot, hslot, rfl⟩ := hrecord
        · exact ⟨Option.isNone_iff_eq_none.mp (List.mem_filter.mp hskip).2, .inr rfl⟩
        · refine ⟨?_, .inl rfl⟩
          rw [Option.mem_toList] at hslot
          rw [hslot, Option.any_some, Bool.not_eq_true, Option.isSome_eq_false_iff] at hnew
          exact Option.isNone_iff_eq_none.mp hnew

/-- What a key holds after a list of writes: what it held, or one of the records. -/
theorem lookup_records (records : List (String × Firing)) (firings : Dict String Firing) (fid : String) :
    (records.foldl (fun firings record => firings.set record.1 record.2) firings).lookup fid = firings.lookup fid ∨
      ∃ record ∈ records, record.1 = fid ∧
        (records.foldl (fun firings record => firings.set record.1 record.2) firings).lookup fid = some record.2 := by
  induction records generalizing firings with
  | nil => exact .inl rfl
  | cons record records ih =>
    rw [List.foldl_cons]
    obtain hold | ⟨later, hlater, hfid, hlookup⟩ := ih (firings.set record.1 record.2)
    · rw [hold, Dict.lookup_set]
      split
      · rename_i hfid
        exact .inr ⟨record, List.mem_cons_self, hfid.symm, rfl⟩
      · exact .inl rfl
    · exact .inr ⟨later, List.mem_cons_of_mem record hlater, hfid, hlookup⟩

/-- A claim writes only under ids that no document has. -/
theorem claim_keeps (scheduleId : String) (now : Instant) (plan : SlotPlan)
    (next : Option Instant × Option Instant) (hfiring : l.firing fid = some firing) :
    (l.claim scheduleId now plan next).1.firing fid = some firing := by
  obtain hsame | ⟨records, schedule, hclaim, hrecords⟩ := claim_cases l scheduleId now plan next
  · rw [hsame]
    exact hfiring
  · rw [hclaim]
    obtain hkept | ⟨record, hrecord, rfl, -⟩ := lookup_records records l.firings fid
    · exact hkept.trans hfiring
    · rw [(hrecords record hrecord).1] at hfiring
      cases hfiring

/-- A firing that the holder of its lease may move goes to the state asked for. -/
theorem move_cases {token : Option String} {now : Instant} {state : FiringState} {patch : Patch}
    (h : l.move fid token now state patch = some l') :
    ∃ firing d, l.firing fid = some firing ∧ movable firing ∧ holds token firing ∧ d.state = state ∧
      d.scheduleId = firing.scheduleId ∧ l' = l.setFiring fid d := by
  rw [move] at h
  cases hfiring : l.firing fid with
  | none =>
    rw [hfiring] at h
    cases h
  | some firing =>
    rw [hfiring] at h
    dsimp only at h
    split at h
    · rename_i hmay
      rw [Bool.and_eq_true] at hmay
      obtain rfl := Option.some.inj h
      refine ⟨firing, _, rfl, hmay.1, hmay.2, ?_, ?_, rfl⟩
      · rfl
      · rfl
    · cases h

theorem done_cases {now : Instant} {outcome : String} {cost : Cost} {code : Option String}
    (h : l.done fid now outcome cost code = some l') :
    ∃ firing d, l.firing fid = some firing ∧ firing.state = .created ∧ d.state = .done ∧
      d.scheduleId = firing.scheduleId ∧ l' = l.setFiring fid d := by
  rw [done] at h
  cases hfiring : l.firing fid with
  | none =>
    rw [hfiring] at h
    cases h
  | some firing =>
    rw [hfiring] at h
    dsimp only at h
    split at h
    · rename_i hcreated
      obtain rfl := Option.some.inj h
      refine ⟨firing, _, rfl, hcreated, ?_, ?_, rfl⟩
      · rfl
      · rfl
    · cases h

theorem reclaim_cases {now : Instant} (h : l.reclaim fid now = some l') :
    ∃ firing d, l.firing fid = some firing ∧ firing.state = .queued ∧ d.state = .claimed ∧
      d.scheduleId = firing.scheduleId ∧ d.trigger = .queued ∧ l' = l.setFiring fid d := by
  rw [reclaim] at h
  cases hfiring : l.firing fid with
  | none =>
    rw [hfiring] at h
    cases h
  | some firing =>
    rw [hfiring] at h
    dsimp only at h
    split at h
    · rename_i hqueued
      obtain rfl := Option.some.inj h
      refine ⟨firing, _, rfl, hqueued, ?_, ?_, ?_, rfl⟩
      · rfl
      · rfl
      · rfl
    · cases h

end Ledger

end SwarmCloud.Schedules
