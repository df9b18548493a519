import SwarmCloud.Schedules.States
import SwarmCloud.Lib.Runs

/-! # Overlapping ticks

Any number of Tickers run their transactions on the same documents in any order.
A Ticker keeps the token of each lease it took, and owes one `_record_last` for
each firing it ended or created; it may also stop at any point.
-/

namespace SwarmCloud.Schedules

open Common Lib

/-- Whose lease, and on which firing. -/
structure LeaseKey where
  ticker : String
  fid : String
deriving DecidableEq

structure World where
  ledger : Ledger
  leases : Dict LeaseKey String
  owed : List Ledger.LastRecord
  issued : List String

inductive Action
  | claim (scheduleId : String) (now : Instant) (plan : SlotPlan) (next : Option Instant × Option Instant)
  | fireNow (fid scheduleId : String) (schedule : Schedule) (now : Instant) (actor : String) (dryRun : Bool)
  | lease (ticker fid : String) (wall : Instant) (token : String)
  | holdApproved (ticker fid : String) (now : Instant) (marker : RefusalMarker)
  | release (ticker fid : String)
  | recordItem (ticker fid : String) (item : WorkItem)
  | move (ticker fid : String) (now : Instant) (state : FiringState) (patch : Ledger.Patch)
  | done (ticker fid : String) (now : Instant) (outcome : String) (cost : Cost) (code : Option String)
  | reclaim (ticker fid : String) (now : Instant)
  | recordLast (record : Ledger.LastRecord)
  | stop (record : Ledger.LastRecord)
  | forget (ticker fid : String)
  | pause (scheduleId code : String) (state : ScheduleState)
  | edit (scheduleId : String) (schedule : Schedule)
  | approve (fid approvalId : String) (approval : RunApproval) (record : ApprovalRecord)

namespace World

/-- The states that `_finish` moves a firing to. -/
def moveStates : List FiringState := [.queued, .awaitingApproval, .created, .skipped, .refused]

def token (w : World) (ticker fid : String) : Option String := w.leases.lookup ⟨ticker, fid⟩

/-- What a firing that was just moved there does to the failures in a row: a refusal counts,
a skip ends the row, the rest does neither. -/
def failedBy : FiringState → Option Bool
  | .refused => some true
  | .skipped => some false
  | _ => none

/-- One transaction, with the calls it leaves its Ticker to make. A Ticker whose schedule is
gone makes none. Fresh ids are not in use, and fresh tokens were never issued. -/
inductive Step (addUsd : Float → Float → Float) (spendDay : Instant → String → String) :
    World → Action → World → Prop
  | claim {w : World} (scheduleId : String) (now : Instant) (plan : SlotPlan)
      (next : Option Instant × Option Instant) :
      Step addUsd spendDay w (.claim scheduleId now plan next)
        { w with ledger := (w.ledger.claim scheduleId now plan next).1 }
  | fireNow {w : World} {fid : String} (scheduleId : String) (schedule : Schedule) (now : Instant)
      (actor : String) (dryRun : Bool) (hfresh : w.ledger.firing fid = none) :
      Step addUsd spendDay w (.fireNow fid scheduleId schedule now actor dryRun)
        { w with ledger := w.ledger.fireNow fid scheduleId schedule now actor dryRun }
  | lease {w : World} {token : String} (ticker fid : String) (wall : Instant) (hfresh : token ∉ w.issued) :
      Step addUsd spendDay w (.lease ticker fid wall token)
        { w with
          ledger := (w.ledger.lease fid wall token).1
          leases := if (w.ledger.lease fid wall token).2.isSome then w.leases.set ⟨ticker, fid⟩ token else w.leases
          issued := w.issued ++ [token] }
  | holdApproved {w : World} {ledger : Ledger} {ticker fid : String} {now : Instant} {marker : RefusalMarker}
      (hheld : w.ledger.holdApproved fid (w.token ticker fid) now marker = some ledger) :
      Step addUsd spendDay w (.holdApproved ticker fid now marker) { w with ledger := ledger }
  | release {w : World} (ticker fid : String) :
      Step addUsd spendDay w (.release ticker fid)
        { w with ledger := w.ledger.release fid (w.token ticker fid) }
  | recordItem {w : World} {ledger : Ledger} {ticker fid : String} {item : WorkItem}
      (hrecorded : w.ledger.recordItem fid (w.token ticker fid) item = some ledger) :
      Step addUsd spendDay w (.recordItem ticker fid item) { w with ledger := ledger }
  | move {w : World} {ledger : Ledger} {ticker fid : String} {now : Instant} {state : FiringState}
      {patch : Ledger.Patch} {calls : List Ledger.LastRecord} (hstate : state ∈ moveStates)
      (hmoved : w.ledger.move fid (w.token ticker fid) now state patch = some ledger)
      (hcalls : calls = [] ∨ ∃ record : Ledger.LastRecord,
        calls = [record] ∧ record.fid = fid ∧ (w.ledger.firing fid).map Firing.scheduleId = some record.scheduleId ∧
          record.failed = failedBy state ∧ record.cost.isNone) :
      Step addUsd spendDay w (.move ticker fid now state patch)
        { w with ledger := ledger, owed := w.owed ++ calls }
  | done {w : World} {ledger : Ledger} {ticker fid : String} {now : Instant} {outcome : String} {cost : Cost}
      {code : Option String} {calls : List Ledger.LastRecord}
      (hdone : w.ledger.done fid now outcome cost code = some ledger)
      (hcalls : calls = [] ∨ ∃ record : Ledger.LastRecord,
        calls = [record] ∧ record.fid = fid ∧ (w.ledger.firing fid).map Firing.scheduleId = some record.scheduleId ∧
          record.failed = some (outcome = "failed" : Bool) ∧ record.cost = some cost) :
      Step addUsd spendDay w (.done ticker fid now outcome cost code)
        { w with ledger := ledger, owed := w.owed ++ calls }
  | reclaim {w : World} {ledger : Ledger} {ticker fid : String} {now : Instant}
      (hclaimed : w.ledger.reclaim fid now = some ledger) :
      Step addUsd spendDay w (.reclaim ticker fid now) { w with ledger := ledger }
  | recordLast {w : World} {before after : List Ledger.LastRecord} {record : Ledger.LastRecord}
      (howed : w.owed = before ++ record :: after) :
      Step addUsd spendDay w (.recordLast record)
        { w with ledger := w.ledger.recordLast addUsd spendDay record, owed := before ++ after }
  | stop {w : World} {before after : List Ledger.LastRecord} {record : Ledger.LastRecord}
      (howed : w.owed = before ++ record :: after) :
      Step addUsd spendDay w (.stop record) { w with owed := before ++ after }
  | forget {w : World} (ticker fid : String) :
      Step addUsd spendDay w (.forget ticker fid)
        { w with leases := w.leases.filter fun lease => lease.1 ≠ ⟨ticker, fid⟩ }
  | pause {w : World} (scheduleId code : String) (state : ScheduleState) :
      Step addUsd spendDay w (.pause scheduleId code state)
        { w with ledger := w.ledger.pause scheduleId code state }
  | edit {w : World} (scheduleId : String) (schedule : Schedule) :
      Step addUsd spendDay w (.edit scheduleId schedule)
        { w with ledger := w.ledger.setSchedule scheduleId schedule }
  | approve {w : World} {fid : String} {firing : Firing} (approvalId : String) (approval : RunApproval)
      (record : ApprovalRecord) (hfiring : w.ledger.firing fid = some firing)
      (hawaiting : firing.state = .awaitingApproval) :
      Step addUsd spendDay w (.approve fid approvalId approval record)
        { w with
          ledger := { w.ledger.setFiring fid { firing with
              approvalId := some approvalId, runApproval := some approval } with
            approvals := w.ledger.approvals.set approvalId record } }

end World

/-! ## What each transaction does to the documents -/

namespace Ledger

variable {l l' : Ledger} {fid : String} {firing : Firing}

/-- Every document is still there and in the state it was in. -/
def Frame (l l' : Ledger) : Prop :=
  ∀ fid d, l.firing fid = some d → ∃ d', l'.firing fid = some d' ∧ d'.state = d.state

theorem Same.frame (h : Same l l') : Frame l l' := by
  intro fid d hd
  have hstate := h.state fid
  rw [state_of_firing hd] at hstate
  exact Option.map_eq_some_iff.mp hstate

theorem claim_frame (scheduleId : String) (now : Instant) (plan : SlotPlan)
    (next : Option Instant × Option Instant) : Frame l (l.claim scheduleId now plan next).1 :=
  fun _ d hd => ⟨d, claim_keeps scheduleId now plan next hd, rfl⟩

theorem fireNow_frame (hfresh : l.firing fid = none) (scheduleId : String) (schedule : Schedule) (now : Instant)
    (actor : String) (dryRun : Bool) : Frame l (l.fireNow fid scheduleId schedule now actor dryRun) := by
  intro fid' d hd
  rw [fireNow, firing_setFiring]
  split
  · rename_i hfid
    rw [hfid, hfresh] at hd
    cases hd
  · exact ⟨d, hd, rfl⟩

end Ledger

/-! ## One step -/

/-- The states a firing may go to next. -/
def Firing.Allows (d : Firing) (state : FiringState) : Prop :=
  (d.state = .claimed ∨ d.state = .awaitingApproval ∧ d.runApproval.isSome) ∧ state ∈ World.moveStates ∨
    d.state = .queued ∧ state = .claimed ∨ d.state = .created ∧ state = .done

/-- The states that no transaction leads out of. -/
def FiringState.final : FiringState → Bool
  | .skipped => true
  | .refused => true
  | .done => true
  | _ => false

namespace World

section Steps

variable {addUsd : Float → Float → Float} {spendDay : Instant → String → String} {w w' : World} {action : Action}

/-- What a step does to one document: nothing to its state, or one of three moves. -/
inductive Moved (w : World) (action : Action) (fid : String) (d d' : Firing) : Prop
  | same (hstate : d'.state = d.state)
  | move {ticker : String} {now : Instant} {patch : Ledger.Patch} (haction : action = .move ticker fid now d'.state patch)
      (hstate : d'.state ∈ moveStates) (hmovable : Ledger.movable d)
      (hholds : Ledger.holds (w.token ticker fid) d)
  | reclaim (hqueued : d.state = .queued) (hclaimed : d'.state = .claimed)
  | done (hcreated : d.state = .created) (hdone : d'.state = .done)

/-- A document that was rewritten, and the others as they were. -/
theorem moved_of_set {fid : String} {firing d : Firing} {l : Ledger} (hl : l = w.ledger.setFiring fid d)
    (hfiring : w.ledger.firing fid = some firing) (hmoved : Moved w action fid firing d) {fid' : String} {d₀ : Firing}
    (hd₀ : w.ledger.firing fid' = some d₀) : ∃ d', l.firing fid' = some d' ∧ Moved w action fid' d₀ d' := by
  subst hl
  rw [Ledger.firing_setFiring]
  split
  · rename_i hfid
    subst hfid
    obtain rfl := Option.some.inj (hfiring.symm.trans hd₀)
    exact ⟨d, rfl, hmoved⟩
  · exact ⟨d₀, hd₀, .same rfl⟩

theorem moved_of_frame {l : Ledger} (hframe : Ledger.Frame w.ledger l) {fid : String} {d : Firing}
    (hd : w.ledger.firing fid = some d) : ∃ d', l.firing fid = some d' ∧ Moved w action fid d d' := by
  obtain ⟨d', hd', hstate⟩ := hframe fid d hd
  exact ⟨d', hd', .same hstate⟩

theorem step_moved (hstep : Step addUsd spendDay w action w') {fid : String} {d : Firing}
    (hd : w.ledger.firing fid = some d) : ∃ d', w'.ledger.firing fid = some d' ∧ Moved w action fid d d' := by
  cases hstep with
  | claim scheduleId now plan next => exact moved_of_frame (Ledger.claim_frame scheduleId now plan next) hd
  | fireNow scheduleId schedule now actor dryRun hfresh =>
    exact moved_of_frame (Ledger.fireNow_frame hfresh scheduleId schedule now actor dryRun) hd
  | lease ticker fid wall hfresh => exact moved_of_frame (Ledger.lease_same _ fid wall _).frame hd
  | holdApproved hheld => exact moved_of_frame (Ledger.holdApproved_same hheld).frame hd
  | release ticker fid => exact moved_of_frame (Ledger.release_same _ fid _).frame hd
  | recordItem hrecorded => exact moved_of_frame (Ledger.recordItem_same hrecorded).frame hd
  | move hstate hmoved hcalls =>
    obtain ⟨firing, d', hfiring, hmovable, hholds, rfl, -, hl⟩ := Ledger.move_cases hmoved
    exact moved_of_set hl hfiring (.move rfl hstate hmovable hholds) hd
  | done hdone hcalls =>
    obtain ⟨firing, d', hfiring, hcreated, hstate, -, hl⟩ := Ledger.done_cases hdone
    exact moved_of_set hl hfiring (.done hcreated hstate) hd
  | reclaim hclaimed =>
    obtain ⟨firing, d', hfiring, hqueued, hstate, -, -, hl⟩ := Ledger.reclaim_cases hclaimed
    exact moved_of_set hl hfiring (.reclaim hqueued hstate) hd
  | recordLast howed => exact moved_of_frame (Ledger.recordLast_same addUsd spendDay _ _).frame hd
  | stop howed => exact ⟨d, hd, .same rfl⟩
  | forget ticker fid => exact ⟨d, hd, .same rfl⟩
  | pause scheduleId code state => exact moved_of_frame (Ledger.pause_same _ scheduleId code state).frame hd
  | edit scheduleId schedule => exact moved_of_frame (Ledger.setSchedule_same _ _ _).frame hd
  | approve approvalId approval record hfiring hawaiting =>
    refine moved_of_frame (Ledger.Same.trans (Ledger.Same.set hfiring ?_ ?_) (Ledger.Same.of_firings rfl rfl)).frame hd
    · rfl
    · rfl

theorem Moved.allows {fid : String} {d d' : Firing} (h : Moved w action fid d d') :
    d'.state = d.state ∨ d.Allows d'.state := by
  cases h with
  | same hstate => exact .inl hstate
  | move haction hstate hmovable hholds =>
    rw [Ledger.movable, Bool.or_eq_true, Bool.and_eq_true, decide_eq_true_eq, decide_eq_true_eq] at hmovable
    exact .inr (.inl ⟨hmovable, hstate⟩)
  | reclaim hqueued hclaimed => exact .inr (.inr (.inl ⟨hqueued, hclaimed⟩))
  | done hcreated hdone => exact .inr (.inr (.inr ⟨hcreated, hdone⟩))

theorem Moved.final {fid : String} {d d' : Firing} (h : Moved w action fid d d') (hfinal : d.state.final) :
    d'.state = d.state := by
  obtain hsame | hallows := h.allows
  · exact hsame
  · obtain ⟨hclaimed | ⟨hawaiting, -⟩, -⟩ | ⟨hqueued, -⟩ | ⟨hcreated, -⟩ := hallows
    · rw [hclaimed] at hfinal
      cases hfinal
    · rw [hawaiting] at hfinal
      cases hfinal
    · rw [hqueued] at hfinal
      cases hfinal
    · rw [hcreated] at hfinal
      cases hfinal

/-! ## Leases -/

/-- Every token that a Ticker holds was issued, and no two leases have one token. -/
structure Leased (w : World) : Prop where
  issued : ∀ key token, w.leases.lookup key = some token → token ∈ w.issued
  unique : ∀ key key' token, w.leases.lookup key = some token → w.leases.lookup key' = some token → key = key'

theorem Leased.take (h : w.Leased) {token : String} (hfresh : token ∉ w.issued) (ticker fid : String) (taken : Bool) :
    (∀ key token', (if taken then w.leases.set ⟨ticker, fid⟩ token else w.leases).lookup key = some token' →
      token' ∈ w.issued ++ [token]) ∧
    ∀ key key' token', (if taken then w.leases.set ⟨ticker, fid⟩ token else w.leases).lookup key = some token' →
      (if taken then w.leases.set ⟨ticker, fid⟩ token else w.leases).lookup key' = some token' → key = key' := by
  cases taken with
  | false =>
    constructor
    · intro key token' hkey
      exact List.mem_append_left _ (h.issued key token' hkey)
    · exact h.unique
  | true =>
    simp only [if_true, Dict.lookup_set]
    constructor
    · intro key token' hkey
      split at hkey
      · rw [← Option.some.inj hkey]
        simp
      · exact List.mem_append_left _ (h.issued key token' hkey)
    · intro key key' token' hkey hkey'
      split at hkey
      · rename_i heq
        obtain rfl := Option.some.inj hkey
        split at hkey'
        · rename_i heq'
          rw [heq, heq']
        · exact absurd (h.issued key' _ hkey') hfresh
      · split at hkey'
        · obtain rfl := Option.some.inj hkey'
          exact absurd (h.issued key _ hkey) hfresh
        · exact h.unique key key' token' hkey hkey'

theorem Leased.frame (h : w.Leased) (hleases : w'.leases = w.leases) (hissued : w'.issued = w.issued) : w'.Leased := by
  constructor
  · rw [hleases, hissued]
    exact h.issued
  · rw [hleases]
    exact h.unique

theorem Leased.step (h : w.Leased) (hstep : Step addUsd spendDay w action w') : w'.Leased := by
  cases hstep with
  | lease ticker fid wall hfresh =>
    obtain ⟨hissued, hunique⟩ := h.take hfresh ticker fid _
    exact ⟨hissued, hunique⟩
  | forget ticker fid =>
    have hkept : ∀ key token, List.lookup key (w.leases.filter fun lease => lease.1 ≠ ⟨ticker, fid⟩) = some token →
        w.leases.lookup key = some token := by
      intro key token hkey
      rw [Dict.lookup_filter_ne] at hkey
      split at hkey
      · cases hkey
      · exact hkey
    exact ⟨fun key token hkey => h.issued key token (hkept key token hkey),
      fun key key' token hkey hkey' => h.unique key key' token (hkept key token hkey) (hkept key' token hkey')⟩
  | _ => exact h.frame rfl rfl

/-- The Ticker whose token is the document's finisher moved it, and no other has that token. -/
def MovedByFinisher (w : World) (action : Action) (fid : String) (d : Firing) (state : FiringState) : Prop :=
  ∃ ticker now patch token, action = .move ticker fid now state patch ∧ w.token ticker fid = some token ∧
    d.finisher = some token ∧ ∀ ticker' fid', w.token ticker' fid' = some token → ticker' = ticker

theorem Leased.movedByFinisher (h : w.Leased) {fid : String} {d d' : Firing} (hmoved : Moved w action fid d d')
    (hheld : d.state = .claimed ∨ d.state = .awaitingApproval) (hleft : d'.state ≠ d.state) :
    MovedByFinisher w action fid d d'.state := by
  cases hmoved with
  | same hstate => exact absurd hstate hleft
  | move haction hstate hmovable hholds =>
    rename_i ticker now patch
    rw [Ledger.holds, Bool.and_eq_true, decide_eq_true_eq] at hholds
    obtain ⟨token, htoken⟩ := Option.isSome_iff_exists.mp hholds.1
    refine ⟨ticker, now, patch, token, haction, htoken, hholds.2.trans htoken, ?_⟩
    intro ticker' fid' htoken'
    exact congrArg LeaseKey.ticker (h.unique _ _ _ htoken' htoken)
  | reclaim hqueued hclaimed =>
    obtain hclaimed | hawaiting := hheld
    · rw [hqueued] at hclaimed
      cases hclaimed
    · rw [hqueued] at hawaiting
      cases hawaiting
  | done hcreated hdone =>
    obtain hclaimed | hawaiting := hheld
    · rw [hcreated] at hclaimed
      cases hclaimed
    · rw [hcreated] at hawaiting
      cases hawaiting

/-- Any documents, before the first of the Tickers has taken a lease. -/
def start (l : Ledger) : World := ⟨l, [], [], []⟩

theorem leased_start (l : Ledger) : (start l).Leased where
  issued := by simp [start]
  unique := by simp [start]

theorem run_final {ops : List Action} (hrun : Run (Step addUsd spendDay) w ops w') {fid : String} {d : Firing}
    (hd : w.ledger.firing fid = some d) (hfinal : d.state.final) :
    ∃ d', w'.ledger.firing fid = some d' ∧ d'.state = d.state := by
  induction hrun with
  | nil => exact ⟨d, hd, rfl⟩
  | snoc _ hlast ih =>
    obtain ⟨d', hd', hstate⟩ := ih
    obtain ⟨d'', hd'', hmoved⟩ := step_moved hlast hd'
    exact ⟨d'', hd'', (hmoved.final (hstate ▸ hfinal)).trans hstate⟩

end Steps

end World

end SwarmCloud.Schedules
