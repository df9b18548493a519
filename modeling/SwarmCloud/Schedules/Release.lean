import SwarmCloud.Schedules.Queue
import SwarmCloud.Lib.Runs

/-! # The release of the queued firing

The `advance` that ends the last created firing of a schedule claims the queued one
again. `_live_of` also ends created firings, in the middle of another firing's
finish, and leaves the queue as it is: a finish that finds the work of every created
firing ended may leave the queued one with nothing to release it.
-/

namespace SwarmCloud.Schedules

open Common Lib

namespace Ledger

variable {l l' : Ledger} {fid scheduleId : String} {firing : Firing} {tick : Tick} {env : String → Findings}

/-! ## Whole calls -/

theorem lease_place {wall : Instant} {token : String} {leased : Ledger}
    (h : l.lease fid wall token = (leased, some firing)) :
    Same l leased ∧ leased.schedules = l.schedules ∧ movable firing ∧
      leased.place fid = some (firing.scheduleId, firing.state) := by
  have hsame := lease_same l fid wall token
  have hsome := lease_some (congrArg Prod.snd h)
  rw [h] at hsame hsome
  obtain ⟨hfiring, hmovable, hset⟩ := hsome
  have hschedules := congrArg Ledger.schedules hset
  refine ⟨hsame, hschedules, hmovable, ?_⟩
  rw [hsame.place, place_of_firing hfiring]

theorem not_created_of_movable (h : movable firing) : firing.state ≠ .created := by
  intro hstate
  simp [movable, hstate] at h

/-- The finisher's own firing is where it was after the overlap was looked at. -/
theorem decideFinish_own {dryRun : Bool} (hplace : l.place fid = some (firing.scheduleId, firing.state))
    (hmovable : movable firing) :
    (decideFinish tick env l firing fid dryRun).1.place fid = some (firing.scheduleId, firing.state) := by
  obtain hsame | ⟨hcreated, -⟩ := (@decideFinish_swept tick env l firing fid dryRun).place fid
  · rw [hsame, hplace]
  · rw [hplace, Option.some_inj, Prod.mk.injEq] at hcreated
    exact absurd hcreated.2 (not_created_of_movable hmovable)

/-- `settle` after `decideFinish`, as `finish` runs them: either the states are those after the
overlap was looked at, or the verdict moved the firing. -/
def Settled (updated : Ledger) (fid : String) (firing : Firing) (verdict : Verdict) (settled : Ledger) : Prop :=
  Same updated settled ∨
    ∃ after, target verdict = some after ∧ Moves updated fid firing.scheduleId firing.state after settled

variable {leased updated settled : Ledger} {verdict : Verdict} {dryRun : Bool}

/-- A finish changes no state, or it leased its firing, decided, carried the verdict out, and went
on to advance a firing it created. -/
theorem finish_cases (tick : Tick) (env : String → Findings) (n : Nat) (l : Ledger) (fid : String) (dryRun : Bool) :
    (∃ same, finish tick env (n + 1) l fid dryRun = some same ∧ Same l same) ∨
      ∃ leased firing updated verdict settled,
        l.lease fid tick.wall tick.token = (leased, some firing) ∧
        decideFinish tick env leased firing fid dryRun = (updated, verdict) ∧
        Settled updated fid firing verdict settled ∧
        (finish tick env (n + 1) l fid dryRun = some settled ∨
          (∃ work digest code, verdict = .create work digest code) ∧
            finish tick env (n + 1) l fid dryRun =
              advanceWith tick env (fun l fid => finish tick env n l fid false) settled fid) := by
  rw [finish]
  have hlease := lease_same l fid tick.wall tick.token
  cases hleased : l.lease fid tick.wall tick.token with
  | mk leased taken =>
    rw [hleased] at hlease
    cases taken with
    | none => exact .inl ⟨leased, rfl, hlease⟩
    | some firing =>
      obtain ⟨-, -, hmovable, hplace⟩ := lease_place hleased
      have hown := @decideFinish_own leased fid firing tick env dryRun hplace hmovable
      cases hdecided : decideFinish tick env leased firing fid dryRun with
      | mk updated verdict =>
        rw [hdecided] at hown
        cases hsettled : settle tick updated firing fid verdict with
        | none =>
          refine .inr ⟨leased, firing, updated, verdict, _, rfl, hdecided,
            .inl (release_same updated fid (some tick.token)), .inl ?_⟩
          simp only [hdecided, hsettled]
        | some settled =>
          refine .inr ⟨leased, firing, updated, verdict, settled, rfl, hdecided, settle_cases hown hsettled, ?_⟩
          simp only [hdecided, hsettled]
          cases verdict with
          | create work digest code => exact .inr ⟨⟨work, digest, code, rfl⟩, rfl⟩
          | _ => exact .inl rfl

theorem advanceWith_cases (tick : Tick) (env : String → Findings) (finish : Ledger → String → Option Ledger)
    (l : Ledger) (fid : String) :
    advanceWith tick env finish l fid = some l ∨
      ∃ ended scheduleId, (env fid).ended.isSome ∧ Moves l fid scheduleId .created .done ended ∧
        (l.schedules.lookup scheduleId = none ∧ advanceWith tick env finish l fid = some ended ∨
          advanceWith tick env finish l fid = releaseQueued finish tick.now ended scheduleId) := by
  rw [advanceWith]
  obtain ⟨hend, -⟩ | ⟨ended, scheduleId, hend, hended, hmoves⟩ := endCreated_cases tick env l fid
  · rw [hend]
    cases l.firing fid with
    | none => exact .inl rfl
    | some firing => exact .inl rfl
  · rw [hend]
    obtain ⟨firing, hfiring, hplace⟩ := Option.map_eq_some_iff.mp hmoves.was
    rw [hfiring]
    obtain rfl := (Prod.mk.inj hplace).1
    refine .inr ⟨ended, firing.scheduleId, hended, hmoves, ?_⟩
    cases hgone : l.schedules.lookup firing.scheduleId with
    | none => exact .inl ⟨rfl, by dsimp only; rw [hgone]⟩
    | some schedule => exact .inr (by dsimp only; rw [hgone])

/-- A release does nothing, or claims a queued firing again when none is created, and finishes it. -/
theorem releaseQueued_cases (finish : Ledger → String → Option Ledger) (now : Instant) (l : Ledger)
    (scheduleId : String) :
    releaseQueued finish now l scheduleId = some l ∧ (l.Waits scheduleId → l.Live scheduleId) ∨
      ∃ fid claimed d, Moves l fid scheduleId .queued .claimed claimed ∧ claimed.firing fid = some d ∧
        d.trigger = .queued ∧ releaseQueued finish now l scheduleId = finish claimed fid := by
  rw [releaseQueued]
  split
  · split
    · rename_i hnone
      exact .inl ⟨rfl, fun hwaits => absurd hnone (exists_place_iff.mp hwaits)⟩
    · rename_i fid fids hqueued
      have hplace : l.place fid = some (scheduleId, .queued) := by
        apply mem_ofSchedule_one.mp
        rw [hqueued]
        exact List.mem_cons_self
      cases hreclaim : l.reclaim fid now with
      | none =>
        obtain ⟨d, hd, heq⟩ := Option.map_eq_some_iff.mp hplace
        rw [reclaim, hd] at hreclaim
        simp [(Prod.mk.inj heq).2] at hreclaim
      | some claimed =>
        obtain ⟨d, d', hd, hstate, hclaimed, hschedule, htrigger, rfl⟩ := reclaim_cases hreclaim
        rw [place_of_firing hd, Option.some_inj, Prod.mk.injEq] at hplace
        refine .inr ⟨fid, _, d', ?_, ?_, htrigger, rfl⟩
        · rw [← hplace.1, ← hplace.2, ← hclaimed]
          exact .set hd hschedule
        · rw [firing_setFiring, if_pos rfl]
  · rename_i hlive
    exact .inl ⟨rfl, fun _ => exists_place_iff.mpr hlive⟩

theorem Settled.within (h : Settled updated fid firing verdict settled) : Within firing.scheduleId updated settled := by
  obtain hsame | ⟨after, -, hmoves⟩ := h
  · exact hsame.within firing.scheduleId
  · exact hmoves.within

theorem Settled.own (h : Settled updated fid firing verdict settled)
    (hplace : updated.place fid = some (firing.scheduleId, firing.state)) :
    ∃ state, settled.place fid = some (firing.scheduleId, state) := by
  obtain hsame | ⟨after, -, hmoves⟩ := h
  · exact ⟨firing.state, (hsame.place fid).trans hplace⟩
  · exact ⟨after, by rw [hmoves.place, if_pos rfl]⟩

theorem releaseQueued_within {finish : Ledger → String → Option Ledger} {now : Instant}
    (hfinish : ∀ l fid l' state, l.place fid = some (scheduleId, state) → finish l fid = some l' →
      Within scheduleId l l')
    (h : releaseQueued finish now l scheduleId = some l') : Within scheduleId l l' := by
  obtain ⟨hsame, -⟩ | ⟨fid, claimed, d, hmoves, -, -, hdone⟩ := releaseQueued_cases finish now l scheduleId
  · obtain rfl := Option.some.inj (hsame.symm.trans h)
    exact (Same.refl l).within scheduleId
  · have hclaimed : claimed.place fid = some (scheduleId, .claimed) := by rw [hmoves.place, if_pos rfl]
    exact hmoves.within.trans (hfinish claimed fid l' .claimed hclaimed (hdone.symm.trans h))

theorem advanceWith_within {finish : Ledger → String → Option Ledger} {state : FiringState}
    (hfinish : ∀ l fid l' state, l.place fid = some (scheduleId, state) → finish l fid = some l' →
      Within scheduleId l l')
    (hplace : l.place fid = some (scheduleId, state)) (h : advanceWith tick env finish l fid = some l') :
    Within scheduleId l l' := by
  obtain hsame | ⟨ended, other, -, hmoves, hrest⟩ := advanceWith_cases tick env finish l fid
  · obtain rfl := Option.some.inj (hsame.symm.trans h)
    exact (Same.refl l).within scheduleId
  · have hwas := hmoves.was
    rw [hplace, Option.some_inj, Prod.mk.injEq] at hwas
    obtain ⟨rfl, -⟩ := hwas
    obtain ⟨-, hended⟩ | hrelease := hrest
    · obtain rfl := Option.some.inj (hended.symm.trans h)
      exact hmoves.within
    · exact hmoves.within.trans (releaseQueued_within hfinish (hrelease.symm.trans h))

/-- A call on one firing moves firings of its schedule only. -/
theorem finish_within (n : Nat) {state : FiringState}
    (hplace : l.place fid = some (scheduleId, state)) (h : finish tick env n l fid dryRun = some l') :
    Within scheduleId l l' := by
  induction n generalizing l fid dryRun state l' with
  | zero => cases h
  | succ n ih =>
    obtain ⟨same, hfinish, hsame⟩ | ⟨leased, firing, updated, verdict, settled, hlease, hdecided, hsettled, hdone⟩ :=
      finish_cases tick env n l fid dryRun
    · obtain rfl := Option.some.inj (hfinish.symm.trans h)
      exact hsame.within scheduleId
    · obtain ⟨hsame, -, hmovable, hleased⟩ := lease_place hlease
      have hown := @decideFinish_own leased fid firing tick env dryRun hleased hmovable
      have hswept := @decideFinish_swept tick env leased firing fid dryRun
      rw [hdecided] at hown hswept
      rw [hsame.place, hplace, Option.some_inj, Prod.mk.injEq] at hleased
      obtain ⟨rfl, rfl⟩ := hleased
      have hwithin := ((hsame.within firing.scheduleId).trans hswept.within).trans hsettled.within
      obtain hfinish | ⟨-, hfinish⟩ := hdone
      · obtain rfl := Option.some.inj (hfinish.symm.trans h)
        exact hwithin
      · obtain ⟨after, hafter⟩ := hsettled.own hown
        have hadvance := hfinish.symm.trans h
        exact hwithin.trans (advanceWith_within (fun _ _ _ _ hplace h => ih hplace h) hafter hadvance)

/-- With none queued, a release has nothing to do. -/
theorem advanceWith_not_waits {finish : Ledger → String → Option Ledger} (hnone : ¬ l.Waits scheduleId)
    {state : FiringState} (hplace : l.place fid = some (scheduleId, state))
    (h : advanceWith tick env finish l fid = some l') : ¬ l'.Waits scheduleId := by
  obtain hsame | ⟨ended, other, -, hmoves, hrest⟩ := advanceWith_cases tick env finish l fid
  · obtain rfl := Option.some.inj (hsame.symm.trans h)
    exact hnone
  · have hwas := hmoves.was
    rw [hplace, Option.some_inj, Prod.mk.injEq] at hwas
    obtain ⟨rfl, -⟩ := hwas
    have hended := (hmoves.unqueued nofun scheduleId).not_waits hnone
    obtain ⟨-, hgone⟩ | hrelease := hrest
    · obtain rfl := Option.some.inj (hgone.symm.trans h)
      exact hended
    · obtain ⟨hsame, -⟩ | ⟨fid', claimed, d, hmoves', -, -, -⟩ :=
        releaseQueued_cases finish tick.now ended scheduleId
      · obtain rfl := Option.some.inj ((hrelease.trans hsame).symm.trans h)
        exact hended
      · exact absurd ⟨fid', hmoves'.was⟩ hended

/-- A firing that was released from the queue is not queued again. -/
theorem settled_not_waits {d : Firing} (hnodup : (l.firings.map Prod.fst).Nodup) (hfiring : l.firing fid = some d)
    (htrigger : d.trigger = .queued) (hnone : ¬ l.Waits d.scheduleId)
    (hlease : l.lease fid tick.wall tick.token = (leased, some firing))
    (hdecided : decideFinish tick env leased firing fid dryRun = (updated, verdict))
    (hsettled : Settled updated fid firing verdict settled) :
    ¬ settled.Waits d.scheduleId ∧ ∃ state, settled.place fid = some (d.scheduleId, state) := by
  obtain ⟨hsame, -, hmovable, hleased⟩ := lease_place hlease
  have hown := @decideFinish_own leased fid firing tick env dryRun hleased hmovable
  have hswept := @decideFinish_swept tick env leased firing fid dryRun
  have hqueues := @decideFinish_queues leased fid firing tick env dryRun (hsame.keys ▸ hnodup) hleased hmovable
  rw [hdecided] at hown hswept hqueues
  have htaken := (lease_some (congrArg Prod.snd hlease)).1
  rw [hfiring, Option.some_inj] at htaken
  subst htaken
  have hupdated := ((hsame.unqueued d.scheduleId).trans hswept.unqueued).not_waits hnone
  refine ⟨?_, hsettled.own hown⟩
  obtain hsame' | ⟨after, htarget, hmoves⟩ := hsettled
  · exact (hsame'.unqueued d.scheduleId).not_waits hupdated
  · refine (hmoves.unqueued ?_ d.scheduleId).not_waits hupdated
    rintro rfl
    exact (hqueues htarget).1 htrigger

theorem finish_not_waits {n : Nat} {d : Firing} (hnodup : (l.firings.map Prod.fst).Nodup)
    (hfiring : l.firing fid = some d) (htrigger : d.trigger = .queued) (hnone : ¬ l.Waits d.scheduleId)
    (h : finish tick env n l fid dryRun = some l') : ¬ l'.Waits d.scheduleId := by
  cases n with
  | zero => cases h
  | succ n =>
    obtain ⟨same, hfinish, hsame⟩ | ⟨leased, firing, updated, verdict, settled, hlease, hdecided, hsettled, hdone⟩ :=
      finish_cases tick env n l fid dryRun
    · obtain rfl := Option.some.inj (hfinish.symm.trans h)
      exact (hsame.unqueued d.scheduleId).not_waits hnone
    · obtain ⟨hmoved, state, hplace⟩ :=
        settled_not_waits hnodup hfiring htrigger hnone hlease hdecided hsettled
      obtain hfinish | ⟨-, hfinish⟩ := hdone
      · obtain rfl := Option.some.inj (hfinish.symm.trans h)
        exact hmoved
      · exact advanceWith_not_waits hmoved hplace (hfinish.symm.trans h)

theorem OneQueued.reclaimed (hone : l.OneQueued scheduleId) {claimed : Ledger}
    (hmoves : Moves l fid scheduleId .queued .claimed claimed) : ¬ claimed.Waits scheduleId := by
  rintro ⟨other, hother⟩
  rw [hmoves.place] at hother
  split at hother
  · cases hother
  · rename_i hne
    exact hne (hone other fid hother hmoves.was)

/-- A release leaves its schedule in order whatever ended before it. -/
theorem releaseQueued_orderly {n : Nat} {now : Instant} (hnodup : (l.firings.map Prod.fst).Nodup)
    (hone : l.OneQueued scheduleId)
    (h : releaseQueued (fun l fid => finish tick env n l fid false) now l scheduleId = some l') :
    l'.Orderly scheduleId := by
  obtain ⟨hsame, hlive⟩ | ⟨fid, claimed, d, hmoves, hd, htrigger, hdone⟩ :=
    releaseQueued_cases (fun l fid => finish tick env n l fid false) now l scheduleId
  · obtain rfl := Option.some.inj (hsame.symm.trans h)
    exact ⟨hone, hlive⟩
  · have hplace := place_of_firing hd
    rw [hmoves.place, if_pos rfl, Option.some_inj, Prod.mk.injEq] at hplace
    obtain ⟨rfl, -⟩ := hplace
    have hkeys : (claimed.firings.map Prod.fst).Nodup := hmoves.keys ▸ hnodup
    exact orderly_of_not_waits (finish_not_waits hkeys hd htrigger (hone.reclaimed hmoves) (hdone.symm.trans h))

/-- `advance` of the only created firing, its work ended, after its schedule was deleted. -/
def orphansQueued (l : Ledger) (env : String → Findings) (fid : String) : Bool :=
  (l.firing fid).any fun firing =>
    (env fid).ended.isSome && (l.schedules.lookup firing.scheduleId).isNone &&
      l.ofSchedule firing.scheduleId [.queued] ≠ [] && (l.ofSchedule firing.scheduleId [.created]).all (· = fid)

/-- A finish that looks at the overlap while a firing is queued and the work of every created one
has ended. -/
def endsUnreleased (l : Ledger) (tick : Tick) (env : String → Findings) (fid : String) : Bool :=
  (l.lease fid tick.wall tick.token).2.any fun firing =>
    (l.early firing (env fid)).isNone && l.ofSchedule firing.scheduleId [.queued] ≠ [] &&
      (l.ofSchedule firing.scheduleId [.created]).all fun other =>
        other ∈ l.livePage firing.scheduleId && (env other).ended.isSome

theorem advanceWith_orderly {n : Nat} (hnodup : (l.firings.map Prod.fst).Nodup) (hl : l.Orderly scheduleId)
    {state : FiringState} (hplace : l.place fid = some (scheduleId, state))
    (hkept : (l.schedules.lookup scheduleId).isSome ∨ l.orphansQueued env fid = false)
    (h : advanceWith tick env (fun l fid => finish tick env n l fid false) l fid = some l') :
    l'.Orderly scheduleId := by
  obtain hsame | ⟨ended, other, hended, hmoves, hrest⟩ :=
    advanceWith_cases tick env (fun l fid => finish tick env n l fid false) l fid
  · obtain rfl := Option.some.inj (hsame.symm.trans h)
    exact hl
  · have hwas := hmoves.was
    rw [hplace, Option.some_inj, Prod.mk.injEq] at hwas
    obtain ⟨rfl, -⟩ := hwas
    have hunqueued := hmoves.unqueued nofun scheduleId
    obtain ⟨hgone, hdone⟩ | hrelease := hrest
    · obtain rfl := Option.some.inj (hdone.symm.trans h)
      refine ⟨hunqueued.one hl.one, ?_⟩
      rintro ⟨queued, hqueued⟩
      have horphan := hkept.resolve_left (by rw [hgone]; exact nofun)
      obtain ⟨firing, hfiring, heq⟩ := Option.map_eq_some_iff.mp hplace
      obtain ⟨rfl, -⟩ := Prod.mk.inj heq
      have hwaits := exists_place_iff.mp ⟨queued, hunqueued queued hqueued⟩
      rw [orphansQueued, hfiring, Option.any_some, hended, hgone, decide_eq_true hwaits, Bool.true_and,
        Option.isNone_none, Bool.true_and, Bool.true_and, List.all_eq_false] at horphan
      obtain ⟨live, hlive, hne⟩ := horphan
      refine ⟨live, ?_⟩
      rw [hmoves.place, if_neg fun heq => hne (decide_eq_true heq)]
      exact mem_ofSchedule_one.mp hlive
    · exact releaseQueued_orderly (hmoves.keys ▸ hnodup) (hunqueued.one hl.one) (hrelease.symm.trans h)

theorem Same.orderly (h : Same l l') (hl : l.Orderly scheduleId) : l'.Orderly scheduleId where
  one := (h.unqueued scheduleId).one hl.one
  live := by
    rintro ⟨fid, hfid⟩
    exact h.live (hl.live ⟨fid, h.unqueued scheduleId fid hfid⟩)

theorem Same.ofSchedule (h : Same l l') (scheduleId : String) (states : List FiringState) :
    l'.ofSchedule scheduleId states = l.ofSchedule scheduleId states := by
  have hany : ∀ (l : Ledger) (fid : String),
      ((l.firing fid).any fun firing => firing.scheduleId = scheduleId && firing.state ∈ states) =
        (l.place fid).any fun place => place.1 = scheduleId && place.2 ∈ states := by
    intro l fid
    rw [Ledger.place, Option.any_map]
  simp only [Ledger.ofSchedule, hany, h.place, h.keys]

/-- After the overlap was looked at, a firing that is still queued has a created one. -/
theorem decideFinish_orderly (hl : l.Orderly firing.scheduleId)
    (hguard : l.early firing (env fid) = none → l.Waits firing.scheduleId →
      ∃ other, l.place other = some (firing.scheduleId, .created) ∧
        (other ∈ l.livePage firing.scheduleId → (env other).ended = none)) :
    (decideFinish tick env l firing fid dryRun).1.Orderly firing.scheduleId := by
  have hunqueued := (@decideFinish_swept tick env l firing fid dryRun).unqueued
  refine ⟨hunqueued.one hl.one, ?_⟩
  rintro ⟨queued, hqueued⟩
  have hwaits : l.Waits firing.scheduleId := ⟨queued, hunqueued queued hqueued⟩
  cases hearly : l.early firing (env fid) with
  | none =>
    obtain ⟨live, hlive, hended⟩ := hguard hearly hwaits
    exact ⟨live, (decideFinish_keeps fun _ => hended).trans hlive⟩
  | some verdict =>
    obtain ⟨live, hlive⟩ := hl.live hwaits
    refine ⟨live, (decideFinish_keeps fun hnone => ?_).trans hlive⟩
    rw [hearly] at hnone
    cases hnone

theorem Settled.one (h : Settled updated fid firing verdict settled) (hone : updated.OneQueued firing.scheduleId)
    (hqueues : target verdict = some .queued → ¬ updated.Waits firing.scheduleId) :
    settled.OneQueued firing.scheduleId := by
  obtain hsame | ⟨after, htarget, hmoves⟩ := h
  · exact (hsame.unqueued firing.scheduleId).one hone
  · obtain rfl | hafter := eq_or_ne after .queued
    · have honly : ∀ other, settled.place other = some (firing.scheduleId, .queued) → other = fid := by
        intro other hother
        rw [hmoves.place] at hother
        split at hother
        · assumption
        · exact absurd ⟨other, hother⟩ (hqueues htarget)
      exact fun one two hone htwo => (honly one hone).trans (honly two htwo).symm
    · exact (hmoves.unqueued hafter firing.scheduleId).one hone

theorem Settled.orderly (h : Settled updated fid firing verdict settled) (hmovable : movable firing)
    (hupdated : updated.Orderly firing.scheduleId)
    (hqueues : target verdict = some .queued →
      updated.Live firing.scheduleId ∧ ¬ updated.Waits firing.scheduleId) :
    settled.Orderly firing.scheduleId := by
  refine ⟨h.one hupdated.one fun htarget => (hqueues htarget).2, ?_⟩
  rintro ⟨queued, hqueued⟩
  obtain hsame | ⟨after, htarget, hmoves⟩ := h
  · exact hsame.live (hupdated.live ⟨queued, hsame.unqueued firing.scheduleId queued hqueued⟩)
  · have hlive : updated.Live firing.scheduleId → settled.Live firing.scheduleId :=
      hmoves.live (not_created_of_movable hmovable)
    obtain rfl | hafter := eq_or_ne after .queued
    · exact hlive (hqueues htarget).1
    · exact hlive (hupdated.live ⟨queued, hmoves.unqueued hafter firing.scheduleId queued hqueued⟩)

theorem finish_orderly {n : Nat} (hnodup : (l.firings.map Prod.fst).Nodup) (hl : l.Orderly scheduleId)
    {state : FiringState} (hplace : l.place fid = some (scheduleId, state))
    (hguard : l.endsUnreleased tick env fid = false) (h : finish tick env n l fid dryRun = some l') :
    l'.Orderly scheduleId := by
  cases n with
  | zero => cases h
  | succ n =>
    obtain ⟨same, hfinish, hsame⟩ | ⟨leased, firing, updated, verdict, settled, hlease, hdecided, hsettled, hdone⟩ :=
      finish_cases tick env n l fid dryRun
    · obtain rfl := Option.some.inj (hfinish.symm.trans h)
      exact hsame.orderly hl
    · obtain ⟨hsame, hschedules, hmovable, hleased⟩ := lease_place hlease
      have hnodup' : (leased.firings.map Prod.fst).Nodup := hsame.keys ▸ hnodup
      have hown := @decideFinish_own leased fid firing tick env dryRun hleased hmovable
      have hswept := @decideFinish_swept tick env leased firing fid dryRun
      have hqueues := @decideFinish_queues leased fid firing tick env dryRun hnodup' hleased hmovable
      have hpresent := @decideFinish_present leased fid firing tick env dryRun
      have hupdated := @decideFinish_orderly leased fid firing tick env dryRun
      rw [hdecided] at hown hswept hqueues hpresent hupdated
      rw [hsame.place, hplace, Option.some_inj, Prod.mk.injEq] at hleased
      obtain ⟨rfl, rfl⟩ := hleased
      have horderly : updated.Orderly firing.scheduleId := by
        refine hupdated (hsame.orderly hl) fun hearly hwaits => ?_
        have hearly' : l.early firing (env fid) = none := by
          rw [early, scheduleOf, ← hschedules]
          exact hearly
        have hqueued := exists_place_iff.mp hwaits
        rw [hsame.ofSchedule] at hqueued
        rw [endsUnreleased, hlease, Option.any_some, hearly', decide_eq_true hqueued, Option.isNone_none,
          Bool.true_and, Bool.true_and, List.all_eq_false] at hguard
        obtain ⟨live, hlive, hout⟩ := hguard
        refine ⟨live, (hsame.place live).trans (mem_ofSchedule_one.mp hlive), fun hpage => ?_⟩
        rw [livePage, hsame.ofSchedule] at hpage
        rw [livePage, decide_eq_true hpage, Bool.true_and, Bool.not_eq_true, Option.isSome_eq_false_iff,
          Option.isNone_iff_eq_none] at hout
        exact hout
      have hmoved := hsettled.orderly hmovable horderly fun htarget => (hqueues htarget).2
      obtain hfinish | ⟨⟨work, digest, code, hcreate⟩, hfinish⟩ := hdone
      · obtain rfl := Option.some.inj (hfinish.symm.trans h)
        exact hmoved
      · obtain ⟨after, hafter⟩ := hsettled.own hown
        have hkeys : (settled.firings.map Prod.fst).Nodup := by
          rw [hsettled.within.keys, hswept.within.keys]
          exact hnodup'
        have hkept := hsettled.within.present _ (hswept.within.present _ (hpresent hcreate))
        exact advanceWith_orderly hkeys hmoved hafter (.inl hkept) (hfinish.symm.trans h)

/-! ## Whole calls return

A finish releases a queued firing after the one it created, and that one finds no
other queued: two levels are enough.
-/

theorem releaseQueued_returns {finish : Ledger → String → Option Ledger} (now : Instant)
    (hfinish : ∀ claimed fid d, (claimed.firings.map Prod.fst).Nodup → claimed.firing fid = some d →
      d.trigger = .queued → ¬ claimed.Waits d.scheduleId → (finish claimed fid).isSome)
    (hnodup : (l.firings.map Prod.fst).Nodup) (hone : l.OneQueued scheduleId) :
    (releaseQueued finish now l scheduleId).isSome := by
  obtain ⟨hsame, -⟩ | ⟨fid, claimed, d, hmoves, hd, htrigger, hdone⟩ := releaseQueued_cases finish now l scheduleId
  · rw [hsame]
    rfl
  · rw [hdone]
    have hplace := place_of_firing hd
    rw [hmoves.place, if_pos rfl, Option.some_inj, Prod.mk.injEq] at hplace
    obtain ⟨rfl, -⟩ := hplace
    exact hfinish claimed fid d (hmoves.keys ▸ hnodup) hd htrigger (hone.reclaimed hmoves)

theorem advanceWith_returns {finish : Ledger → String → Option Ledger}
    (hfinish : ∀ claimed fid d, (claimed.firings.map Prod.fst).Nodup → claimed.firing fid = some d →
      d.trigger = .queued → ¬ claimed.Waits d.scheduleId → (finish claimed fid).isSome)
    (hnodup : (l.firings.map Prod.fst).Nodup) {state : FiringState} (hplace : l.place fid = some (scheduleId, state))
    (hone : l.OneQueued scheduleId) : (advanceWith tick env finish l fid).isSome := by
  obtain hsame | ⟨ended, other, -, hmoves, ⟨-, hended⟩ | hrelease⟩ := advanceWith_cases tick env finish l fid
  · rw [hsame]
    rfl
  · rw [hended]
    rfl
  · have hwas := hmoves.was
    rw [hplace, Option.some_inj, Prod.mk.injEq] at hwas
    obtain ⟨rfl, -⟩ := hwas
    rw [hrelease]
    exact releaseQueued_returns tick.now hfinish (hmoves.keys ▸ hnodup) ((hmoves.unqueued nofun scheduleId).one hone)

theorem finish_returns_released (n : Nat) (dryRun : Bool) {d : Firing} (hnodup : (l.firings.map Prod.fst).Nodup)
    (hfiring : l.firing fid = some d) (htrigger : d.trigger = .queued) (hnone : ¬ l.Waits d.scheduleId) :
    (finish tick env (n + 1) l fid dryRun).isSome := by
  obtain ⟨same, hfinish, -⟩ | ⟨leased, firing, updated, verdict, settled, hlease, hdecided, hsettled, hdone⟩ :=
    finish_cases tick env n l fid dryRun
  · rw [hfinish]
    rfl
  · obtain ⟨hmoved, state, hplace⟩ := settled_not_waits hnodup hfiring htrigger hnone hlease hdecided hsettled
    obtain hfinish | ⟨-, hfinish⟩ := hdone
    · rw [hfinish]
      rfl
    · rw [hfinish]
      obtain hsame | ⟨ended, other, -, hmoves, ⟨-, hended⟩ | hrelease⟩ :=
        advanceWith_cases tick env (fun l fid => finish tick env n l fid false) settled fid
      · rw [hsame]
        rfl
      · rw [hended]
        rfl
      · have hwas := hmoves.was
        rw [hplace, Option.some_inj, Prod.mk.injEq] at hwas
        obtain ⟨rfl, -⟩ := hwas
        have hended := (hmoves.unqueued nofun d.scheduleId).not_waits hmoved
        obtain ⟨hsame, -⟩ | ⟨fid', claimed, d', hmoves', -, -, -⟩ :=
          releaseQueued_cases (fun l fid => finish tick env n l fid false) tick.now ended d.scheduleId
        · rw [hrelease, hsame]
          rfl
        · exact absurd ⟨fid', hmoves'.was⟩ hended

theorem finish_returns (n : Nat) (dryRun : Bool) (hnodup : (l.firings.map Prod.fst).Nodup)
    (hone : ∀ scheduleId, l.OneQueued scheduleId) : (finish tick env (n + 2) l fid dryRun).isSome := by
  obtain ⟨same, hfinish, -⟩ | ⟨leased, firing, updated, verdict, settled, hlease, hdecided, hsettled, hdone⟩ :=
    finish_cases tick env (n + 1) l fid dryRun
  · rw [hfinish]
    rfl
  · obtain hfinish | ⟨-, hfinish⟩ := hdone
    · rw [hfinish]
      rfl
    · rw [hfinish]
      obtain ⟨hsame, -, hmovable, hleased⟩ := lease_place hlease
      have hkeys : (leased.firings.map Prod.fst).Nodup := hsame.keys ▸ hnodup
      have hown := @decideFinish_own leased fid firing tick env dryRun hleased hmovable
      have hswept := @decideFinish_swept tick env leased firing fid dryRun
      have hqueues := @decideFinish_queues leased fid firing tick env dryRun hkeys hleased hmovable
      rw [hdecided] at hown hswept hqueues
      have hupdated := ((hsame.unqueued _).trans hswept.unqueued).one (hone firing.scheduleId)
      have hmoved := hsettled.one hupdated fun htarget => (hqueues htarget).2.2
      have hkeys' : (settled.firings.map Prod.fst).Nodup := by
        rw [hsettled.within.keys, hswept.within.keys]
        exact hkeys
      obtain ⟨state, hplace⟩ := hsettled.own hown
      refine advanceWith_returns ?_ hkeys' hplace hmoved
      intro claimed fid d hnodup hd htrigger hnone
      exact finish_returns_released n false hnodup hd htrigger hnone

end Ledger

/-! ## Runs -/

inductive Call
  | claim (scheduleId : String) (now : Instant) (plan : SlotPlan) (next : Option Instant × Option Instant)
  | fireNow (tick : Tick) (env : String → Findings) (fid scheduleId : String) (schedule : Schedule) (actor : String)
      (dryRun : Bool)
  | finish (tick : Tick) (env : String → Findings) (fid : String) (dryRun : Bool)
  | advance (tick : Tick) (env : String → Findings) (fid : String)
  | releaseQueued (tick : Tick) (env : String → Findings) (scheduleId : String)
  | edit (scheduleId : String) (schedule : Schedule)
  | delete (scheduleId : String)
  | approve (fid approvalId : String) (approval : RunApproval) (record : ApprovalRecord)

namespace Call

/-- One call taken whole. The id of a `fire_now` is fresh; an approval is recorded on a firing that
awaits it. -/
inductive Step : Ledger → Call → Ledger → Prop
  | claim {l : Ledger} (scheduleId : String) (now : Instant) (plan : SlotPlan)
      (next : Option Instant × Option Instant) :
      Step l (.claim scheduleId now plan next) (l.claim scheduleId now plan next).1
  | fireNow {l l' : Ledger} {tick : Tick} {env : String → Findings} {fid scheduleId : String} {schedule : Schedule}
      {actor : String} {dryRun : Bool} {n : Nat} (hfresh : l.firing fid = none)
      (hfinish : (l.fireNow fid scheduleId schedule tick.now actor dryRun).finish tick env n fid dryRun = some l') :
      Step l (.fireNow tick env fid scheduleId schedule actor dryRun) l'
  | finish {l l' : Ledger} {tick : Tick} {env : String → Findings} {fid : String} {dryRun : Bool} {n : Nat}
      (hfinish : l.finish tick env n fid dryRun = some l') : Step l (.finish tick env fid dryRun) l'
  | advance {l l' : Ledger} {tick : Tick} {env : String → Findings} {fid : String} {n : Nat}
      (hadvance : l.advance tick env n fid = some l') : Step l (.advance tick env fid) l'
  | releaseQueued {l l' : Ledger} {tick : Tick} {env : String → Findings} {scheduleId : String} {n : Nat}
      (hrelease : Ledger.releaseQueued (fun l fid => l.finish tick env n fid false) tick.now l scheduleId = some l') :
      Step l (.releaseQueued tick env scheduleId) l'
  | edit {l : Ledger} (scheduleId : String) (schedule : Schedule) :
      Step l (.edit scheduleId schedule) (l.setSchedule scheduleId schedule)
  | delete {l : Ledger} (scheduleId : String) :
      Step l (.delete scheduleId) { l with schedules := l.schedules.filter (·.1 ≠ scheduleId) }
  | approve {l : Ledger} {fid : String} {firing : Firing} (approvalId : String) (approval : RunApproval)
      (record : ApprovalRecord) (hfiring : l.firing fid = some firing)
      (hawaiting : firing.state = .awaitingApproval) :
      Step l (.approve fid approvalId approval record)
        { l.setFiring fid { firing with approvalId := some approvalId, runApproval := some approval } with
          approvals := l.approvals.set approvalId record }

/-- A call that ends the last live firing of a schedule with no release of the queue after it. -/
def neglectsQueue (l : Ledger) : Call → Bool
  | .fireNow tick env fid scheduleId schedule actor dryRun =>
    (l.fireNow fid scheduleId schedule tick.now actor dryRun).endsUnreleased tick env fid
  | .finish tick env fid _ => l.endsUnreleased tick env fid
  | .advance _ env fid => l.orphansQueued env fid
  | _ => false

end Call

namespace Ledger

variable {l l' : Ledger} {fid scheduleId : String} {tick : Tick} {env : String → Findings} {dryRun : Bool}

structure Sound (l : Ledger) : Prop where
  nodup : (l.firings.map Prod.fst).Nodup
  orderly : ∀ scheduleId, l.Orderly scheduleId

theorem Same.sound (h : Same l l') (hl : l.Sound) : l'.Sound where
  nodup := h.keys ▸ hl.nodup
  orderly scheduleId := h.orderly (hl.orderly scheduleId)

theorem Within.sound (h : Within scheduleId l l') (hl : l.Sound) (horderly : l'.Orderly scheduleId) : l'.Sound where
  nodup := h.keys ▸ hl.nodup
  orderly other := by
    obtain rfl | hother := eq_or_ne other scheduleId
    · exact horderly
    · exact h.orderly hother (hl.orderly other)

/-- New documents that are not queued. -/
theorem Sound.of_new (hl : l.Sound) (hnodup : (l'.firings.map Prod.fst).Nodup)
    (hplace : ∀ fid, l'.place fid = l.place fid ∨
      l.place fid = none ∧ ∀ scheduleId, l'.place fid ≠ some (scheduleId, .queued)) : l'.Sound where
  nodup := hnodup
  orderly scheduleId := by
    have hunqueued : Unqueued scheduleId l l' := by
      intro fid hfid
      obtain hsame | ⟨-, hnew⟩ := hplace fid
      · rwa [hsame] at hfid
      · exact absurd hfid (hnew scheduleId)
    refine ⟨hunqueued.one (hl.orderly scheduleId).one, ?_⟩
    rintro ⟨queued, hqueued⟩
    obtain ⟨live, hlive⟩ := (hl.orderly scheduleId).live ⟨queued, hunqueued queued hqueued⟩
    obtain hsame | ⟨hnone, -⟩ := hplace live
    · exact ⟨live, hsame.trans hlive⟩
    · rw [hlive] at hnone
      cases hnone

theorem claim_sound (hl : l.Sound) (scheduleId : String) (now : Instant) (plan : SlotPlan)
    (next : Option Instant × Option Instant) : (l.claim scheduleId now plan next).1.Sound := by
  obtain hsame | ⟨records, schedule, hclaim, hrecords⟩ := claim_cases l scheduleId now plan next
  · rwa [hsame]
  · rw [hclaim]
    apply hl.of_new
    · have hnodup : ∀ (records : List (String × Firing)) (firings : Dict String Firing),
          (firings.map Prod.fst).Nodup →
          ((records.foldl (fun firings record => firings.set record.1 record.2) firings).map Prod.fst).Nodup := by
        intro records
        induction records with
        | nil => exact fun _ h => h
        | cons record records ih => exact fun firings h => ih _ (Dict.nodup_set h record.1 record.2)
      exact hnodup records l.firings hl.nodup
    · intro fid
      obtain hkept | ⟨record, hrecord, rfl, hwritten⟩ := lookup_records records l.firings fid
      · left
        rw [place, firing, hkept]
        rfl
      · obtain ⟨hnone, hstate⟩ := hrecords record hrecord
        refine .inr ⟨by rw [place, hnone]; rfl, fun other hqueued => ?_⟩
        rw [place, firing, hwritten, Option.map_some, Option.some_inj, Prod.mk.injEq] at hqueued
        rw [hqueued.2] at hstate
        simp at hstate

theorem fireNow_sound (hl : l.Sound) (hfresh : l.firing fid = none) (scheduleId : String) (schedule : Schedule)
    (now : Instant) (actor : String) (dryRun : Bool) :
    (l.fireNow fid scheduleId schedule now actor dryRun).Sound := by
  apply hl.of_new
  · exact Dict.nodup_set hl.nodup fid _
  · intro fid'
    rw [fireNow, place_setFiring]
    split
    · rename_i hfid
      refine .inr ⟨by rw [hfid, place, hfresh]; rfl, fun other hqueued => ?_⟩
      cases (Prod.mk.inj (Option.some.inj hqueued)).2
    · exact .inl rfl

theorem finish_sound {n : Nat} (hl : l.Sound) (hguard : l.endsUnreleased tick env fid = false)
    (h : finish tick env n l fid dryRun = some l') : l'.Sound := by
  cases hplace : l.place fid with
  | none =>
    have hfiring := Option.map_eq_none_iff.mp hplace
    have hlease : l.lease fid tick.wall tick.token = (l, none) := by rw [lease, hfiring]
    cases n with
    | zero => cases h
    | succ n =>
      rw [finish, hlease] at h
      obtain rfl := Option.some.inj h
      exact hl
  | some place =>
    exact (finish_within n hplace h).sound hl (finish_orderly hl.nodup (hl.orderly place.1) hplace hguard h)

theorem advance_sound {n : Nat} (hl : l.Sound) (hguard : l.orphansQueued env fid = false)
    (h : l.advance tick env n fid = some l') : l'.Sound := by
  cases hplace : l.place fid with
  | none =>
    rw [advance, advanceWith, Option.map_eq_none_iff.mp hplace] at h
    obtain ⟨hend, -⟩ | ⟨ended, scheduleId, -, -, hmoves⟩ := endCreated_cases tick env l fid
    · rw [hend] at h
      obtain rfl := Option.some.inj h
      exact hl
    · rw [hmoves.was] at hplace
      cases hplace
  | some place =>
    have hwithin := advanceWith_within (fun _ _ _ _ hplace h => finish_within n hplace h) hplace h
    exact hwithin.sound hl (advanceWith_orderly hl.nodup (hl.orderly place.1) hplace (.inr hguard) h)

end Ledger

namespace Call

variable {l l' : Ledger} {call : Call}

theorem step_sound (hl : l.Sound) (hstep : Step l call l') (hguard : call.neglectsQueue l = false) : l'.Sound := by
  cases hstep with
  | claim scheduleId now plan next => exact Ledger.claim_sound hl scheduleId now plan next
  | fireNow hfresh hfinish => exact Ledger.finish_sound (Ledger.fireNow_sound hl hfresh _ _ _ _ _) hguard hfinish
  | finish hfinish => exact Ledger.finish_sound hl hguard hfinish
  | advance hadvance => exact Ledger.advance_sound hl hguard hadvance
  | releaseQueued hrelease =>
    have hwithin := Ledger.releaseQueued_within (fun _ _ _ _ hplace h => Ledger.finish_within _ hplace h) hrelease
    exact hwithin.sound hl (Ledger.releaseQueued_orderly hl.nodup (hl.orderly _).one hrelease)
  | edit scheduleId schedule => exact (Ledger.setSchedule_same l scheduleId schedule).sound hl
  | delete scheduleId => exact ⟨hl.nodup, fun other => ⟨(hl.orderly other).one, (hl.orderly other).live⟩⟩
  | approve approvalId approval record hfiring hawaiting =>
    refine Ledger.Same.sound (Ledger.Same.trans (Ledger.Same.set hfiring ?_ ?_) (.of_firings rfl rfl)) hl
    · rfl
    · rfl

/-- The calls that leave no last live firing ended without a look at the queue. -/
def Kept (l : Ledger) (call : Call) (l' : Ledger) : Prop := Step l call l' ∧ call.neglectsQueue l = false

theorem sound_of_empty (hempty : l.firings = []) : l.Sound := by
  have hplace : ∀ fid, l.place fid = none := by
    intro fid
    rw [Ledger.place, Ledger.firing, hempty]
    rfl
  refine ⟨by rw [hempty]; exact List.nodup_nil, fun scheduleId => Ledger.orderly_of_not_waits ?_⟩
  rintro ⟨fid, hfid⟩
  rw [hplace] at hfid
  cases hfid

/-- In a run whose calls do not end the last live firing behind the queue's back, a queued firing
always has a live one, and every finish returns. -/
theorem queued_not_stranded {l₀ : Ledger} {calls : List Call} (hempty : l₀.firings = [])
    (hrun : Run Kept l₀ calls l) :
    (∀ scheduleId, l.ofSchedule scheduleId [.queued] ≠ [] →
      l.ofSchedule scheduleId [.claimed, .created] ≠ []) ∧
    ∀ tick env fid dryRun, (l.finish tick env 2 fid dryRun).isSome := by
  have hsound : l.Sound :=
    hrun.invariant (I := Ledger.Sound) (fun _ _ _ hl hstep => step_sound hl hstep.1 hstep.2) (sound_of_empty hempty)
  constructor
  · intro scheduleId hqueued
    obtain ⟨live, hlive⟩ := (hsound.orderly scheduleId).live (Ledger.exists_place_iff.mpr hqueued)
    exact List.ne_nil_of_mem (Ledger.mem_ofSchedule.mpr ⟨.created, by decide, hlive⟩)
  · exact fun tick env fid dryRun =>
      Ledger.finish_returns 0 dryRun hsound.nodup fun scheduleId => (hsound.orderly scheduleId).one

/-! ### One schedule that queues -/

def queueTick : Tick := ⟨fun a b => a + b, fun _ _ => "2026-10-12", false, "finisher", 0, 0⟩

def queueSchedule : Schedule where
  tenantId := "t"
  type := "review"
  state := .enabled
  nextSlot := some 0
  nextRunAt := some 0
  timezone := "UTC"
  overlap := .queueOne

def queueStart : Ledger := ⟨[("s", queueSchedule)], [], [], []⟩

/-- The executor makes a task, and the task goes on. -/
def working : String → Findings := fun _ => { creation := .work [⟨.task, "task", none, none⟩] }

/-- The work of the first firing has ended, and the scope is empty by now. -/
def endedUnscoped : String → Findings := fun fid =>
  if fid = "first" then { creation := .fails, ended := some ⟨"succeeded", ⟨0, 0⟩, false⟩ }
  else { creation := .fails, scopeEmpty := true }

/-- `fire_now`, taken whole. -/
def fire (env : String → Findings) (l : Ledger) (fid : String) : Option Ledger :=
  (l.fireNow fid "s" queueSchedule queueTick.now "member" false).finish queueTick env 2 fid false

def fireCall (env : String → Findings) (fid : String) : Call :=
  .fireNow queueTick env fid "s" queueSchedule "member" false

def firstFired : Ledger := (fire working queueStart "first").getD queueStart
def secondFired : Ledger := (fire working firstFired "second").getD queueStart
def thirdFired : Ledger := (fire endedUnscoped secondFired "third").getD queueStart

theorem fire_step {env : String → Findings} {l : Ledger} {fid : String} (hfresh : l.firing fid = none)
    (hfire : (fire env l fid).isSome) : Step l (fireCall env fid) ((fire env l fid).getD queueStart) := by
  obtain ⟨fired, hfired⟩ := Option.isSome_iff_exists.mp hfire
  rw [hfired]
  exact .fireNow hfresh hfired

theorem firstFired_step : Step queueStart (fireCall working "first") firstFired :=
  fire_step rfl (by decide)

theorem firing_eq_none {l : Ledger} {fid : String} (h : (l.firing fid).isNone) : l.firing fid = none :=
  Option.isNone_iff_eq_none.mp h

theorem secondFired_step : Step firstFired (fireCall working "second") secondFired :=
  fire_step (firing_eq_none (by decide)) (by decide)

theorem thirdFired_step : Step secondFired (fireCall endedUnscoped "third") thirdFired :=
  fire_step (firing_eq_none (by decide)) (by decide)

theorem queued_not_stranded_behind_first :
    secondFired.ofSchedule "s" [.queued] = ["second"] ∧ secondFired.ofSchedule "s" [.claimed, .created] ≠ [] := by
  have hqueued : secondFired.ofSchedule "s" [.queued] = ["second"] := by decide
  have hfirst : (fireCall working "first").neglectsQueue queueStart = false := by decide
  have hsecond : (fireCall working "second").neglectsQueue firstFired = false := by decide
  have hone : Run Kept queueStart [fireCall working "first"] firstFired := .one ⟨firstFired_step, hfirst⟩
  have hrun : Run Kept queueStart [fireCall working "first", fireCall working "second"] secondFired :=
    hone.append (.one ⟨secondFired_step, hsecond⟩)
  refine ⟨hqueued, (queued_not_stranded rfl hrun).1 "s" ?_⟩
  rw [hqueued]
  exact List.cons_ne_nil _ _

/-- The third firing ends the first one while it looks at the overlap, and is itself refused: the
second stays queued, and nothing is left to release it. -/
theorem third_strands_second :
    ∃ l, Run Step queueStart
        [fireCall working "first", fireCall working "second", fireCall endedUnscoped "third"] l ∧
      l.ofSchedule "s" [.queued] = ["second"] ∧ l.ofSchedule "s" [.claimed, .created] = [] := by
  refine ⟨thirdFired, ?_, by decide, by decide⟩
  exact ((Run.one firstFired_step).append (Run.one secondFired_step)).append (Run.one thirdFired_step)

end Call

end SwarmCloud.Schedules
