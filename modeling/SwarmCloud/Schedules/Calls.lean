import SwarmCloud.Schedules.Firings

/-! # Whole calls of one Ticker

`finish`, `advance` and `_release_queued`, each taken whole, over the stored
documents. What a call reads of the rest of the platform is its `Findings` for
each firing: the owner, the scope, the budget, what the executor made, and how the
work of a firing ended.
-/

namespace SwarmCloud.Schedules

open Common Lib

inductive Owner
  | member
  | notMember
  | viewer
  | unread
deriving DecidableEq, Repr

/-- What `executor.create` came to: work, a refusal with the work that was made before it, or an
error that is not a refusal. -/
inductive Creation
  | work (items : List WorkItem)
  | refused (code : String) (made : List WorkItem)
  | fails

structure Ended where
  outcome : String
  cost : Cost
  overBudget : Bool := false

structure Findings where
  available : Bool := true
  owner : Owner := .member
  adopted : List WorkItem := []
  scopeEmpty : Bool := false
  digest : String := ""
  exhausted : Bool := false
  dryRun : Bool := false
  dryRunFails : Bool := false
  gateApproves : Bool := false
  auditFails : Bool := false
  creation : Creation
  ended : Option Ended := none

/-- The Ticker, the clock and the switch of the refusals that pause a schedule. -/
structure Tick where
  addUsd : Float → Float → Float
  spendDay : Instant → String → String
  enforced : Bool
  token : String
  now : Instant
  wall : Instant

def overlapCode : String := "OVERLAP"
def budgetExhausted : String := "BUDGET_EXHAUSTED"
def ownerNotMember : String := "OWNER_NOT_MEMBER"
def ownerRoleNarrowed : String := "OWNER_ROLE_NARROWED"
def repositoryNotGranted : String := "REPOSITORY_NOT_GRANTED"
def dryRunCode : String := "DRY_RUN"
def scheduleNotEnabled : String := "SCHEDULE_NOT_ENABLED"
def typeUnavailable : String := "TYPE_UNAVAILABLE"
def runOverBudget : String := "RUN_OVER_BUDGET"
def consecutiveFailuresCode : String := "CONSECUTIVE_FAILURES"
def nothingStarted : String := "NOTHING_STARTED"

/-- What `_finish` does with its firing. -/
inductive Verdict
  | finish (state : FiringState) (code : String) (pause : Option ScheduleState)
  | queue
  | wait (digest : String)
  | hold (marker : RefusalMarker)
  | create (work : List WorkItem) (digest : Option String) (code : Option String)
  | raise

namespace Ledger

/-- `_of_schedule`: the firings of a schedule in some of the states. -/
def ofSchedule (l : Ledger) (scheduleId : String) (states : List FiringState) : List String :=
  (l.firings.map Prod.fst).filter fun fid =>
    (l.firing fid).any fun firing => firing.scheduleId = scheduleId && firing.state ∈ states

def scanPage : Nat := 500

/-- The schedule as `_finish` reads it, and none when it is gone or another tenant's. -/
def scheduleOf (l : Ledger) (firing : Firing) : Option Schedule :=
  (l.schedules.lookup firing.scheduleId).filter (·.tenantId = firing.tenantId)

def runnable (firing : Firing) (schedule : Schedule) : Bool :=
  schedule.state = .enabled ||
    firing.trigger = .runNow && (schedule.state = .paused || schedule.state = .autoPaused)

/-- The checks before any other firing is looked at. -/
def early (l : Ledger) (firing : Firing) (found : Findings) : Option Verdict :=
  match l.scheduleOf firing with
  | none => some (.finish .skipped scheduleNotEnabled none)
  | some schedule =>
    if !runnable firing schedule then some (.finish .skipped scheduleNotEnabled none)
    else if !found.available then some (.finish .refused typeUnavailable (some .disabled))
    else match found.owner with
      | .unread => some .raise
      | .notMember => some (.finish .skipped ownerNotMember (some .autoPaused))
      | .viewer => some (.finish .skipped ownerRoleNarrowed (some .autoPaused))
      | .member =>
        if found.adopted = [] then none else some (.create found.adopted firing.paramsDigest none)

/-- The checks after the overlap: scope, approval, budget, dry run and gate, then the executor. -/
def late (firing : Firing) (found : Findings) (dryRun : Bool) : Verdict :=
  if found.scopeEmpty then .finish .refused repositoryNotGranted none
  else if firing.state = .awaitingApproval ∧ firing.runApproval.map RunApproval.digest ≠ some found.digest then
    .hold ⟨approvalChanged, firing.runApproval.map RunApproval.approvalId,
      firing.runApproval.map RunApproval.digest, some found.digest⟩
  else if found.exhausted then .finish .skipped budgetExhausted none
  else if dryRun || firing.dryRunRequested || found.dryRun then
    if found.dryRunFails then .raise else .finish .skipped dryRunCode none
  else if found.gateApproves && firing.state ≠ .awaitingApproval then .wait found.digest
  else if found.auditFails then .raise
  else match found.creation with
    | .work items => .create items (some found.digest) (if items = [] then some nothingStarted else none)
    | .refused code [] => .finish .refused code none
    | .refused code made => .create made (some found.digest) (some code)
    | .fails => .raise

/-- `_record_last`, and the pause when the failures in a row have come to the limit. -/
def recordAndPause (tick : Tick) (l : Ledger) (record : LastRecord) : Ledger :=
  let recorded := l.recordLast tick.addUsd tick.spendDay record
  match recorded.schedules.lookup record.scheduleId with
  | none => recorded
  | some schedule =>
    if record.failed = some true ∧ schedule.failuresToPause ≤ schedule.consecutiveFailures ∧ tick.enforced then
      recorded.pause record.scheduleId consecutiveFailuresCode .autoPaused
    else recorded

/-- `advance` without the queue: a created firing whose work has all ended is done. The result says
whether it was. -/
def endCreated (tick : Tick) (env : String → Findings) (l : Ledger) (fid : String) : Ledger × Bool :=
  match l.firing fid, (env fid).ended with
  | some firing, some ended =>
    match l.done fid tick.now ended.outcome ended.cost (if ended.overBudget then some runOverBudget else none) with
    | none => (l, false)
    | some done =>
      match done.schedules.lookup firing.scheduleId with
      | none => (done, true)
      | some _ =>
        let recorded := done.recordAndPause tick ⟨firing.scheduleId, fid, tick.now, some ended.outcome,
          some (ended.outcome = "failed"), none, some ended.cost⟩
        (if ended.overBudget then recorded.pause firing.scheduleId runOverBudget .autoPaused else recorded, true)
  | _, _ => (l, false)

/-- `_release_queued`: the one queued firing is claimed again and finished, when none is live. -/
def releaseQueued (finish : Ledger → String → Option Ledger) (now : Instant) (l : Ledger) (scheduleId : String) :
    Option Ledger :=
  if l.ofSchedule scheduleId [.created] = [] then
    match l.ofSchedule scheduleId [.queued] with
    | [] => some l
    | fid :: _ =>
      match l.reclaim fid now with
      | none => some l
      | some claimed => finish claimed fid
  else some l

/-- `advance`, with the release of the queue where the schedule is still there. -/
def advanceWith (tick : Tick) (env : String → Findings) (finish : Ledger → String → Option Ledger) (l : Ledger)
    (fid : String) : Option Ledger :=
  match l.firing fid, l.endCreated tick env fid with
  | some firing, (done, true) =>
    match l.schedules.lookup firing.scheduleId with
    | none => some done
    | some _ => releaseQueued finish tick.now done firing.scheduleId
  | _, (unchanged, _) => some unchanged

/-- `_live_of`: the created firings but one, each ended first if its work has. -/
def liveOf (tick : Tick) (env : String → Findings) (exclude : String) : List String → Ledger → Ledger × List String
  | [], l => (l, [])
  | fid :: fids, l =>
    if fid = exclude then liveOf tick env exclude fids l
    else
      match l.endCreated tick env fid with
      | (ended, true) => liveOf tick env exclude fids ended
      | (same, false) => ((liveOf tick env exclude fids same).1, fid :: (liveOf tick env exclude fids same).2)

def outcomeOf (state : FiringState) : String := if state = .skipped then "skipped" else "refused"

/-- The patch of `_end`. -/
def endPatch (state : FiringState) (code : String) (now : Instant) : Patch where
  skipCode := some (some code)
  outcome := some (outcomeOf state)
  endedAt := some now

/-- The patch of `_created`. -/
def createdPatch (work : List WorkItem) (digest code : Option String) : Patch where
  work := some work
  paramsDigest := some digest
  skipCode := code.map some

/-- A verdict carried out, and none where `_move` or `_hold_approved` meets a conflict. -/
def settle (tick : Tick) (l : Ledger) (firing : Firing) (fid : String) : Verdict → Option Ledger
  | .finish state code pause =>
    match l.move fid (some tick.token) tick.now state (endPatch state code tick.now) with
    | none => none
    | some moved =>
      match l.scheduleOf firing with
      | none => some moved
      | some _ =>
        let recorded := moved.recordAndPause tick ⟨firing.scheduleId, fid, tick.now,
          some (outcomeOf state), some (state = .refused), none, none⟩
        some (match pause with
          | some state => recorded.pause firing.scheduleId code state
          | none => recorded)
  | .queue => l.move fid (some tick.token) tick.now .queued { skipCode := some none }
  | .wait digest => l.move fid (some tick.token) tick.now .awaitingApproval { paramsDigest := some (some digest) }
  | .hold marker => l.holdApproved fid (some tick.token) tick.now marker
  | .raise => some (l.release fid (some tick.token))
  | .create work digest code =>
    match l.move fid (some tick.token) tick.now .created (createdPatch work digest code) with
    | none => none
    | some moved =>
      some (moved.recordAndPause tick ⟨firing.scheduleId, fid, tick.now, none, none, work.head?, none⟩)

/-- The verdict of `_finish`, with the documents after the overlap was looked at. -/
def decideFinish (tick : Tick) (env : String → Findings) (l : Ledger) (firing : Firing) (fid : String)
    (dryRun : Bool) : Ledger × Verdict :=
  match l.early firing (env fid) with
  | some verdict => (l, verdict)
  | none =>
    let (updated, live) := liveOf tick env fid ((l.ofSchedule firing.scheduleId [.created]).take scanPage) l
    if live ≠ [] ∧ firing.trigger ≠ .queued then
      if (l.scheduleOf firing).any (·.overlap = .queueOne) ∧
          (updated.ofSchedule firing.scheduleId [.queued]).filter (· ≠ fid) = [] then (updated, .queue)
      else (updated, .finish .skipped overlapCode none)
    else (updated, late firing (env fid) dryRun)

/-- `finish`, with a bound on how many queued firings one call releases after another. -/
def finish (tick : Tick) (env : String → Findings) : Nat → Ledger → String → Bool → Option Ledger
  | 0, _, _, _ => none
  | n + 1, l, fid, dryRun =>
    match l.lease fid tick.wall tick.token with
    | (leased, none) => some leased
    | (leased, some firing) =>
      let (updated, verdict) := decideFinish tick env leased firing fid dryRun
      match settle tick updated firing fid verdict with
      | none => some (updated.release fid (some tick.token))
      | some settled =>
        match verdict with
        | .create _ _ _ => advanceWith tick env (fun l fid => finish tick env n l fid false) settled fid
        | _ => some settled

/-- `advance` as a tick calls it. -/
def advance (tick : Tick) (env : String → Findings) (n : Nat) (l : Ledger) (fid : String) : Option Ledger :=
  advanceWith tick env (fun l fid => finish tick env n l fid false) l fid

end Ledger

end SwarmCloud.Schedules
