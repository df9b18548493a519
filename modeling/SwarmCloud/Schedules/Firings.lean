import SwarmCloud.Common.Pools
import SwarmCloud.Lib.Dict

/-! # Schedules, firings and the transactions on them

The transactions of `schedulefire.Ticker`, each a function of the stored
documents. A document's key is the id it carries. What the slots of a claim are
(`plan_slots`, `next_times`), the day of an instant and the sum of two rounded
costs are arguments.
-/

namespace SwarmCloud.Schedules

open Common Lib

/-! ## Documents -/

inductive FiringState
  | claimed
  | awaitingApproval
  | queued
  | created
  | done
  | skipped
  | refused
  | rejected
  | expired
deriving DecidableEq, Repr

inductive Trigger
  | cron
  | catchUp
  | runNow
  | queued
deriving DecidableEq, Repr

inductive WorkKind
  | task
  | workflow
  | issueRun
  | apiAction
deriving DecidableEq, Repr

structure WorkItem where
  kind : WorkKind
  id : String
  repoId : Option String
  outcome : Option String := none
deriving DecidableEq, Repr

structure HistoryEntry where
  state : FiringState
  at_ : Instant
  by_ : String
deriving DecidableEq, Repr

def tickActor : String := "schedule-tick"

/-- `run_approval` on a firing. -/
structure RunApproval where
  by_ : String
  at_ : Instant
  approvalId : String
  digest : String
deriving DecidableEq, Repr

/-- `run_approval_refused` on a firing, with the time of the refusal beside it. -/
structure RefusalMarker where
  code : String
  approvalId : Option String
  digest : Option String
  paramsDigest : Option String
deriving DecidableEq, Repr

structure Cost where
  reportedUsd : Float
  unreportedAttempts : Int

/-- What a skip record's detail says when it stands for more slots than its own. -/
structure SkipSummary where
  slots : Nat
  through : Instant
  atLeast : Bool
deriving DecidableEq, Repr

structure Firing where
  scheduleId : String
  tenantId : String
  type : String
  slot : Option Instant
  firedAt : Instant
  trigger : Trigger
  state : FiringState
  paramsDigest : Option String := none
  work : List WorkItem := []
  skipCode : Option String := none
  skipDetail : Option SkipSummary := none
  approvalId : Option String := none
  outcome : Option String := none
  cost : Option Cost := none
  history : List HistoryEntry
  finishingUntil : Option Instant := none
  finisher : Option String := none
  endedAt : Option Instant := none
  expireAt : Instant
  runApproval : Option RunApproval := none
  runApprovalRefused : Option (RefusalMarker × Instant) := none
  recorded : List WorkItem := []
  dryRunRequested : Bool := false

inductive ScheduleState
  | enabled
  | paused
  | autoPaused
  | disabled
deriving DecidableEq, Repr

structure Spend where
  day : String
  reportedUsd : Float
  unreportedAttempts : Int

structure LastFiring where
  firingId : String
  slot : Option Instant
  outcome : Option String
  state : Option FiringState
  workRef : Option WorkItem
  endedAt : Option Instant

/-- What a firing does while another is live. -/
inductive Overlap
  | skip
  | queueOne
deriving DecidableEq, Repr

inductive CatchUp
  | skip
  | runOnce
deriving DecidableEq, Repr

structure Schedule where
  tenantId : String
  type : String
  state : ScheduleState
  nextSlot : Option Instant
  nextRunAt : Option Instant
  lastFiring : Option LastFiring := none
  consecutiveFailures : Nat := 0
  spend : Option Spend := none
  timezone : String
  overlap : Overlap := .skip
  catchUp : CatchUp := .skip
  failuresToPause : Nat := 3
  pauseCode : Option String := none

/-- A document of the approvals inbox. -/
structure ApprovalRecord where
  tenantId : String
  kind : String
  firingId : Option String
  state : String
  digest : String

/-- An entry of `schedule_audit`. -/
structure AuditEntry where
  scheduleId : String
  tenantId : String
  action : String
  by_ : String
  at_ : Instant
  firingId : String
  code : String

structure Ledger where
  schedules : Dict String Schedule
  firings : Dict String Firing
  approvals : Dict String ApprovalRecord
  audit : List AuditEntry

namespace Ledger

def firing (l : Ledger) (fid : String) : Option Firing := l.firings.lookup fid

def setFiring (l : Ledger) (fid : String) (firing : Firing) : Ledger :=
  { l with firings := l.firings.set fid firing }

def setSchedule (l : Ledger) (scheduleId : String) (schedule : Schedule) : Ledger :=
  { l with schedules := l.schedules.set scheduleId schedule }

end Ledger

/-! ## Claiming a slot -/

def unixMinute (moment : Instant) : Int := moment.tdiv 1000000 / 60

def firingId (scheduleId : String) (slot : Instant) : String := scheduleId ++ ":" ++ toString (unixMinute slot)

structure SlotSkip where
  slot : Instant
  code : String
  detail : Option SkipSummary := none

/-- What one claim does: at most one slot fires, the rest are skip records. -/
structure SlotPlan where
  fire : Option Instant
  trigger : Trigger
  skips : List SlotSkip

def firingTtl : Instant := seconds (90 * 86400)

def firingDoc (scheduleId : String) (schedule : Schedule) (slot : Option Instant) (now : Instant)
    (trigger : Trigger) (state : FiringState) : Firing where
  scheduleId := scheduleId
  tenantId := schedule.tenantId
  type := schedule.type
  slot := slot
  firedAt := now
  trigger := trigger
  state := state
  history := [⟨state, now, tickActor⟩]
  expireAt := now + firingTtl

/-- `_last_firing`: the copy on the schedule. -/
def lastFiringOf (fid : String) (record : Firing) : LastFiring :=
  ⟨fid, record.slot, record.outcome, some record.state, none, record.endedAt⟩

namespace Ledger

/-- Whether a schedule that was read again may still be claimed. -/
def isDue (schedule : Schedule) (now : Instant) : Bool :=
  schedule.state = .enabled && schedule.nextRunAt.any (· ≤ now) && schedule.nextSlot.isSome

/-- The documents of one claim, the skip records first. -/
def claimRecords (l : Ledger) (scheduleId : String) (schedule : Schedule) (now : Instant) (plan : SlotPlan) :
    List (String × Firing) :=
  (plan.skips.filter fun skip => (l.firing (firingId scheduleId skip.slot)).isNone).map (fun skip =>
    (firingId scheduleId skip.slot,
      { firingDoc scheduleId schedule (some skip.slot) now .cron .skipped with
        skipCode := some skip.code, skipDetail := skip.detail, outcome := some "skipped", endedAt := some now })) ++
  plan.fire.toList.map fun slot =>
    (firingId scheduleId slot, firingDoc scheduleId schedule (some slot) now plan.trigger .claimed)

/-- `Ticker.claim`: re-read, plan the slots, create the firing, advance. -/
def claim (l : Ledger) (scheduleId : String) (now : Instant) (plan : SlotPlan)
    (next : Option Instant × Option Instant) : Ledger × Option String :=
  match l.schedules.lookup scheduleId with
  | none => (l, none)
  | some schedule =>
    if !isDue schedule now then (l, none)
    else if plan.fire.any fun slot => (l.firing (firingId scheduleId slot)).isSome then (l, none)
    else
      let records := l.claimRecords scheduleId schedule now plan
      let last := records.getLast?.map fun record => lastFiringOf record.1 record.2
      ({ l with
          firings := records.foldl (fun firings record => firings.set record.1 record.2) l.firings
          schedules := l.schedules.set scheduleId { schedule with
            nextSlot := next.1, nextRunAt := next.2, lastFiring := last.or schedule.lastFiring } },
        plan.fire.map (firingId scheduleId))

/-- The create of `fire_now`, under an id of its own. -/
def fireNow (l : Ledger) (fid scheduleId : String) (schedule : Schedule) (now : Instant) (actor : String)
    (dryRun : Bool) : Ledger :=
  l.setFiring fid { firingDoc scheduleId schedule none now .runNow .claimed with
    history := [⟨.claimed, now, actor⟩], dryRunRequested := dryRun }

/-! ## Leases -/

def finishLease : Instant := seconds 300

def approvalNotFound : String := "approval_not_found"
def approvalNotApproved : String := "approval_not_approved"
def approvalChanged : String := "approval_changed"
def runApprovalRefusedAction : String := "run_approval_refused"

/-- `_approval_refusal`: why the firing's approval does not release it. -/
def approvalRefusal (l : Ledger) (fid : String) (firing : Firing) (approval : RunApproval) : Option RefusalMarker :=
  let marker : String → Option RefusalMarker := fun code =>
    some ⟨code, some approval.approvalId, some approval.digest, firing.paramsDigest⟩
  if approval.digest = "" ∨ firing.paramsDigest ≠ some approval.digest then marker approvalChanged
  else if approval.approvalId = "" ∨ firing.approvalId ≠ some approval.approvalId then marker approvalNotFound
  else match l.approvals.lookup approval.approvalId with
    | none => marker approvalNotFound
    | some record =>
      if record.tenantId ≠ firing.tenantId ∨ record.kind ≠ "run" ∨ record.firingId ≠ some fid then
        marker approvalNotFound
      else if record.state ≠ "approved" then marker approvalNotApproved
      else if record.digest ≠ approval.digest then marker approvalChanged
      else none

/-- `_audit_refusal`: once per refusal. -/
def auditRefusal (l : Ledger) (fid : String) (firing : Firing) (now : Instant) (marker : RefusalMarker) : Ledger :=
  if firing.runApprovalRefused.map Prod.fst = some marker then l
  else
    { l.setFiring fid { firing with runApprovalRefused := some (marker, now) } with
      audit := l.audit ++
        [⟨firing.scheduleId, firing.tenantId, runApprovalRefusedAction, tickActor, now, fid, marker.code⟩] }

/-- `_lease`: hold a claimed firing, or one that its approval releases. -/
def lease (l : Ledger) (fid : String) (wall : Instant) (token : String) : Ledger × Option Firing :=
  match l.firing fid with
  | none => (l, none)
  | some firing =>
    let take : Ledger × Option Firing :=
      if firing.finishingUntil.any (wall < ·) then (l, none)
      else (l.setFiring fid { firing with finishingUntil := some (wall + finishLease), finisher := some token },
        some firing)
    match firing.state, firing.runApproval with
    | .awaitingApproval, some approval =>
      match l.approvalRefusal fid firing approval with
      | some marker => (l.auditRefusal fid firing wall marker, none)
      | none => take
    | .claimed, _ => take
    | _, _ => (l, none)

/-- `_holds`: the finisher of the document is the token this finisher has. -/
def holds (token : Option String) (firing : Firing) : Bool := token.isSome && firing.finisher = token

/-- `_hold_approved`: the lease is given back and the refusal audited. -/
def holdApproved (l : Ledger) (fid : String) (token : Option String) (now : Instant) (marker : RefusalMarker) :
    Option Ledger :=
  match l.firing fid with
  | none => none
  | some firing =>
    if holds token firing then
      let audited := l.auditRefusal fid firing now marker
      (audited.firing fid).map fun firing =>
        audited.setFiring fid { firing with finishingUntil := none, finisher := none }
    else none

/-- `_release`: give the lease back, only if it is still this finisher's. -/
def release (l : Ledger) (fid : String) (token : Option String) : Ledger :=
  match l.firing fid with
  | none => l
  | some firing =>
    if holds token firing then l.setFiring fid { firing with finishingUntil := none, finisher := none } else l

/-- `Firing.record`: one item of work, under the lease. -/
def recordItem (l : Ledger) (fid : String) (token : Option String) (item : WorkItem) : Option Ledger :=
  match l.firing fid with
  | none => none
  | some firing =>
    if holds token firing then some (l.setFiring fid { firing with recorded := firing.recorded ++ [item] }) else none

/-! ## Moving a firing -/

/-- The fields that a move writes beside the state. -/
structure Patch where
  skipCode : Option (Option String) := none
  outcome : Option String := none
  endedAt : Option Instant := none
  paramsDigest : Option (Option String) := none
  work : Option (List WorkItem) := none

def Patch.apply (patch : Patch) (firing : Firing) : Firing :=
  { firing with
    skipCode := patch.skipCode.getD firing.skipCode
    outcome := patch.outcome.or firing.outcome
    endedAt := patch.endedAt.or firing.endedAt
    paramsDigest := patch.paramsDigest.getD firing.paramsDigest
    work := patch.work.getD firing.work }

/-- Whether `_move` may move the firing at all. -/
def movable (firing : Firing) : Bool :=
  firing.state = .claimed || firing.state = .awaitingApproval && firing.runApproval.isSome

/-- `_move`, and none for a conflict. -/
def move (l : Ledger) (fid : String) (token : Option String) (now : Instant) (state : FiringState) (patch : Patch) :
    Option Ledger :=
  match l.firing fid with
  | none => none
  | some firing =>
    if movable firing && holds token firing then
      some (l.setFiring fid { patch.apply firing with
        state := state, history := firing.history ++ [⟨state, now, tickActor⟩],
        finishingUntil := none, finisher := none })
    else none

/-- `_done`, and none when the firing is not created. -/
def done (l : Ledger) (fid : String) (now : Instant) (outcome : String) (cost : Cost) (code : Option String) :
    Option Ledger :=
  match l.firing fid with
  | none => none
  | some firing =>
    if firing.state = .created then
      some (l.setFiring fid { firing with
        state := .done, outcome := some outcome, cost := some cost, endedAt := some now,
        history := firing.history ++ [⟨.done, now, tickActor⟩],
        skipCode := code.or firing.skipCode })
    else none

/-- The re-claim of `_release_queued`, and none when the firing is not queued. -/
def reclaim (l : Ledger) (fid : String) (now : Instant) : Option Ledger :=
  match l.firing fid with
  | none => none
  | some firing =>
    if firing.state = .queued then
      some (l.setFiring fid { firing with
        state := .claimed, trigger := .queued, history := firing.history ++ [⟨.claimed, now, tickActor⟩],
        finishingUntil := none, finisher := none })
    else none

/-! ## The schedule document -/

/-- A call of `_record_last`, as the code that ended or created a firing makes it. -/
structure LastRecord where
  scheduleId : String
  fid : String
  now : Instant
  outcome : Option String
  failed : Option Bool
  workRef : Option WorkItem := none
  cost : Option Cost := none

/-- `spend_for`: the stored spend if it is that day's, else a new day's zeros. -/
def spendFor (spend : Option Spend) (day : String) : Spend := (spend.filter (·.day = day)).getD ⟨day, 0, 0⟩

def addCost (addUsd : Float → Float → Float) (day : String) (spend : Option Spend) (cost : Cost) : Spend :=
  let today := spendFor spend day
  { today with
    reportedUsd := addUsd today.reportedUsd cost.reportedUsd
    unreportedAttempts := today.unreportedAttempts + cost.unreportedAttempts }

/-- `_record_last`: the last firing, the failures in a row and the day's spend. -/
def recordLast (addUsd : Float → Float → Float) (spendDay : Instant → String → String) (l : Ledger) (r : LastRecord) :
    Ledger :=
  match l.schedules.lookup r.scheduleId with
  | none => l
  | some schedule =>
    let firing := l.firing r.fid
    let workRef := match r.workRef, schedule.lastFiring with
      | none, some previous => if previous.firingId = r.fid then previous.workRef else none
      | workRef, _ => workRef
    l.setSchedule r.scheduleId { schedule with
      lastFiring := some ⟨r.fid, firing.bind Firing.slot, r.outcome, firing.map Firing.state, workRef,
        r.outcome.map fun _ => r.now⟩
      consecutiveFailures := match r.failed with
        | some true => schedule.consecutiveFailures + 1
        | some false => 0
        | none => schedule.consecutiveFailures
      spend := match r.cost with
        | some cost => some (addCost addUsd (spendDay r.now schedule.timezone) schedule.spend cost)
        | none => schedule.spend }

/-- `pause`: only an enabled schedule moves, to `auto_paused` or `disabled`. -/
def pause (l : Ledger) (scheduleId code : String) (state : ScheduleState) : Ledger :=
  match l.schedules.lookup scheduleId with
  | none => l
  | some schedule =>
    if schedule.state = .enabled then
      l.setSchedule scheduleId { schedule with state := state, pauseCode := some code, nextRunAt := none }
    else l

end Ledger

end SwarmCloud.Schedules
