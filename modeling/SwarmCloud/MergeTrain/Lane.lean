import SwarmCloud.Common.States
import SwarmCloud.MergeTrain.Rules

/-! # One lane of the coordinator

`_Lane` of `swarm_api/mergetrain.py`: the entries of one repository and base
branch, the lane document, and one tick over them. What a tick reads from the
forge and from the tasks is a record, so a tick is a function. Only its own
steps write a lane, so each guarded write sees the documents the tick read.
-/

namespace SwarmCloud.MergeTrain

open Common Lib

inductive EntryState
  | queued
  | riding
  | landed
  | ejected
  | returned
deriving DecidableEq, Repr

def EntryState.value : EntryState → String
  | .queued => "queued"
  | .riding => "riding"
  | .landed => "landed"
  | .ejected => "ejected"
  | .returned => "returned"

structure Entry where
  entryId : String
  taskId : String
  number : Int
  head : String
  enqueuedAt : Option Instant
  state : EntryState
  trainId : Option String
  returns : Int
  reason : Option String
  detail : String
deriving DecidableEq, Repr

/-- What a train keeps of an entry. -/
structure TrainRider where
  entryId : String
  taskId : String
  number : Int
  head : String
  returns : Int
deriving DecidableEq, Repr

def Entry.ride (e : Entry) : TrainRider := ⟨e.entryId, e.taskId, e.number, e.head, e.returns⟩

def Entry.rider (now : Instant) (e : Entry) : Rider := ⟨e.entryId, e.number, e.head, e.enqueuedAt.getD now⟩

inductive TrainState
  | composing
  | testing
  | landing
deriving DecidableEq, Repr

structure Train where
  id : String
  seq : Int
  state : TrainState
  branch : String
  riders : List TrainRider
  startedAt : Instant
  headSha : String
deriving DecidableEq, Repr

def Train.ids (t : Train) : List String := t.riders.map TrainRider.entryId

/-- The lane document; `halves` has its top last. -/
structure LaneDoc where
  seq : Int
  train : Option Train
  halves : List (List String)
deriving DecidableEq, Repr

structure LaneKey where
  laneId : String
  tenantId : String
  repository : String
  base : String
deriving DecidableEq, Repr

/-- The lane's documents, and the outcomes its entries' steps were woken with. -/
structure Lane where
  entries : List Entry
  doc : LaneDoc
  concluded : List (String × EntryState)
deriving DecidableEq, Repr

/-! ## What a tick reads -/

structure StepTask where
  tenantId : String
  state : TaskState
  runnerProfile : String
  repository : Option String
  parkReason : Option String
  waitCode : Option String
  waitPullRequest : Option Int
  waitHead : Option String

structure Pull where
  merged : Bool
  state : String
  headSha : String
  baseRef : String

structure CheckReading where
  state : Reading
  failing : List String
  pending : List String

structure Tick where
  now : Instant
  trainSize : Int
  maxTrainAgeMinutes : Int
  task : String → Option StepTask
  pull : Int → Pull
  baseHead : Option String
  /-- The conflict of a head with the train's branch. -/
  conflict : String → Option String
  /-- The head of the train's branch once it is composed. -/
  trainHead : Option String
  reading : String → CheckReading
  /-- The refusal of a landing. -/
  refusal : Int → Option String

/-! ## Guarded writes -/

namespace Lane

/-- `_set_entry`, which reports whether the entry moved. -/
def setEntry (lane : Lane) (entryId : String) (expect : List EntryState) (head : String)
    (patch : Entry → Entry) : Option Lane :=
  match lane.entries.find? (·.entryId = entryId) with
  | none => none
  | some e =>
    if e.state ∈ expect ∧ e.head = head then
      some { lane with
        entries := lane.entries.map fun e => if e.entryId = entryId then patch e else e }
    else none

def updateDoc (lane : Lane) (expect : Option String) (patch : LaneDoc → LaneDoc) : Option Lane :=
  if lane.doc.train.map Train.id = expect then some { lane with doc := patch lane.doc } else none

structure Conclusion where
  state : EntryState
  reason : Option (String × String) := none
  trainId : Option String := none
  returns : Option Int := none

def Conclusion.patch (c : Conclusion) (e : Entry) : Entry :=
  { e with
    state := c.state
    reason := (c.reason.map Prod.fst) <|> e.reason
    detail := (c.reason.map fun r => String.ofList (r.2.toList.take 500)).getD e.detail
    trainId := c.trainId <|> e.trainId
    returns := c.returns.getD e.returns }

/-- An entry's outcome, and its step's park marked so that it reads it. -/
def conclude (lane : Lane) (rider : TrainRider) (expect : List EntryState) (c : Conclusion) : Lane :=
  match lane.setEntry rider.entryId expect rider.head c.patch with
  | none => lane
  | some lane => { lane with concluded := lane.concluded ++ [(rider.entryId, c.state)] }

def maxReturns : Int := 3

/-- `_return`; a counted return ejects the entry once there were too many. -/
def giveBack (lane : Lane) (rider : TrainRider) (reason detail : String) (expect : List EntryState)
    (counts : Bool) : Lane :=
  let returns := rider.returns + (if counts then 1 else 0)
  if counts ∧ maxReturns ≤ returns then
    lane.conclude rider expect
      { state := .ejected, reason := some (reason, detail), returns := some returns }
  else
    lane.conclude rider expect
      { state := .returned, reason := some (reason, detail),
        returns := if counts then some returns else none }

def requeue (lane : Lane) (rider : TrainRider) : Lane :=
  (lane.setEntry rider.entryId [.riding] rider.head
    fun e => { e with state := .queued, trainId := none }).getD lane

/-! ## Composing -/

inductive Eligibility
  | wait
  | ended
deriving DecidableEq, Repr

def mergeProfile : String := "merge"
def ciPending : String := "CI_PENDING"
def trainWaiting : String := "merge_train_waiting"

def eligible (key : LaneKey) (tick : Tick) (e : Entry) : Option Eligibility :=
  match tick.task e.taskId with
  | none => some .ended
  | some task =>
    if task.tenantId ≠ key.tenantId then some .ended
    else if task.state ∈ terminalStates then some .ended
    else if task.runnerProfile ≠ mergeProfile then some .ended
    else if task.repository ≠ some key.repository then some .ended
    else if task.state ≠ .parked ∨ task.parkReason ≠ some ciPending ∨
        task.waitCode ≠ some trainWaiting ∨ task.waitPullRequest ≠ some e.number ∨
        task.waitHead ≠ some e.head then some .wait
    else none

def consider (key : LaneKey) (tick : Tick) (found : Lane × List Entry) (e : Entry) : Lane × List Entry :=
  match eligible key tick e with
  | some .ended =>
    (found.1.conclude e.ride [.queued]
      { state := .ejected,
        reason := some ("step_ended", "the merge step that registered it has ended") }, found.2)
  | some .wait => found
  | none => (found.1, found.2 ++ [e])

/-- A chosen entry whose pull request is as it was registered. -/
def confirm (key : LaneKey) (tick : Tick) (found : Lane × List Entry) (e : Entry) : Lane × List Entry :=
  let pull := tick.pull e.number
  if pull.merged then (found.1.giveBack e.ride "already_merged" "" [.queued] false, found.2)
  else if pull.state ≠ "open" then
    (found.1.giveBack e.ride "closed" "the pull request is closed" [.queued] false, found.2)
  else if pull.headSha ≠ e.head then
    (found.1.giveBack e.ride "head_moved" ("its head is " ++ pull.headSha ++ ", not " ++ e.head)
      [.queued] false, found.2)
  else if pull.baseRef ≠ key.base then
    (found.1.giveBack e.ride "base_changed" ("it now targets " ++ pull.baseRef) [.queued] false, found.2)
  else (found.1, found.2 ++ [e])

def board (trainId : String) (found : Lane × List TrainRider) (rider : TrainRider) :
    Lane × List TrainRider :=
  match found.1.setEntry rider.entryId [.queued] rider.head
      fun e => { e with state := .riding, trainId := some trainId } with
  | some lane => (lane, found.2 ++ [rider])
  | none => found

def mergeIn (tick : Tick) (found : Lane × List TrainRider) (rider : TrainRider) : Lane × List TrainRider :=
  match tick.conflict rider.head with
  | some message =>
    (found.1.giveBack rider "train_conflict"
      ("#" ++ toString rider.number ++ " conflicts with the train ahead of it: " ++ message)
      [.riding] true, found.2)
  | none => (found.1, found.2 ++ [rider])

def branchPrefix : String := "swarm-train/"

def newTrain (key : LaneKey) (tick : Tick) (seq : Int) (chosen : List Entry) : Train where
  id := key.laneId ++ "-" ++ toString seq
  seq := seq
  state := .composing
  branch := branchPrefix ++ String.ofList ((key.laneId.toList.drop 4).take 12) ++ "-" ++ toString seq
  riders := chosen.map Entry.ride
  startedAt := tick.now
  headSha := ""

/-- The riders of a claimed train boarded, merged into its branch and put to the
test. Without a base branch the tick stops with the lane claimed. -/
def embark (tick : Tick) (lane : Lane) (train : Train) : Lane :=
  let boarded := train.riders.foldl (board train.id) (lane, [])
  match tick.baseHead with
  | none => boarded.1
  | some baseSha =>
    let merged := boarded.2.foldl (mergeIn tick) (boarded.1, [])
    let next : Option Train :=
      if merged.2.isEmpty then none
      else some { train with
        state := .testing, riders := merged.2, headSha := tick.trainHead.getD baseSha }
    (merged.1.updateDoc (some train.id) fun doc => { doc with train := next }).getD merged.1

def launch (key : LaneKey) (tick : Tick) (lane : Lane) (chosen : List Entry) : Lane :=
  let train := newTrain key tick (lane.doc.seq + 1) chosen
  match lane.updateDoc none fun doc =>
      ⟨train.seq, some train, storedHalves doc.halves.dropLast⟩ with
  | none => lane
  | some lane => embark tick lane train

def compose (key : LaneKey) (tick : Tick) (lane : Lane) (queued : List Entry) : Lane :=
  let considered := queued.foldl (consider key tick) (lane, [])
  let riders := considered.2.map (Entry.rider tick.now)
  let batch := select riders tick.trainSize (lane.doc.halves.getLast?.getD [])
  let picked := batch.filterMap fun r => considered.2.find? (·.entryId = r.entryId)
  let confirmed := picked.foldl (confirm key tick) (considered.1, [])
  if confirmed.2.isEmpty then confirmed.1 else launch key tick confirmed.1 confirmed.2

/-! ## Judging -/

def riderNumbers (train : Train) : String :=
  ", ".intercalate (train.riders.map fun r => "#" ++ toString r.number)

def failRider (train : Train) (reason failing : String) (plan : FailurePlan) (lane : Lane)
    (rider : TrainRider) : Lane :=
  if rider.entryId ∈ plan.eject then
    lane.conclude rider [.riding]
      { state := .ejected,
        reason := some (reason, failing ++ " on merge train " ++ toString train.seq ++ " (" ++
          riderNumbers train ++ ") at " ++ train.headSha) }
  else lane.requeue rider

def fail (lane : Lane) (train : Train) (reason failing : String) : Lane :=
  let plan := onFailure train.ids
  let lane := train.riders.foldl (failRider train reason failing plan) lane
  (lane.updateDoc (some train.id) fun doc =>
    { doc with
      train := none
      halves := storedHalves
        (if plan.nextBatch.isEmpty then doc.halves else doc.halves ++ [plan.later, plan.nextBatch]) }).getD
    lane

/-- The landing of the riders in order; a refusal puts the rest back in the queue. -/
def landRiders (tick : Tick) (trainId : String) : Lane → List TrainRider → Lane
  | lane, [] => lane
  | lane, rider :: rest =>
    let entry := lane.entries.find? (·.entryId = rider.entryId)
    let pull := tick.pull rider.number
    if entry.any (fun e => e.state = .landed ∧ e.trainId = some trainId) then
      landRiders tick trainId lane rest
    else if pull.merged ∧ pull.headSha = rider.head then
      -- a landing whose answer was lost stands
      landRiders tick trainId
        (lane.conclude rider [.riding] { state := .landed, trainId := some trainId }) rest
    else
      match tick.refusal rider.number with
      | none =>
        landRiders tick trainId
          (lane.conclude rider [.riding] { state := .landed, trainId := some trainId }) rest
      | some message =>
        rest.foldl requeue
          (lane.giveBack rider "land_refused"
            ("GitHub refused to land #" ++ toString rider.number ++ ": " ++ message) [.riding] true)

def land (tick : Tick) (lane : Lane) (train : Train) : Lane :=
  let lane := landRiders tick train.id lane train.riders
  (lane.updateDoc (some train.id) fun doc => { doc with train := none }).getD lane

def test (tick : Tick) (lane : Lane) (train : Train) : Lane :=
  let reading := tick.reading train.headSha
  let failing :=
    if reading.failing ≠ [] then ", ".intercalate reading.failing
    else if reading.pending ≠ [] then ", ".intercalate reading.pending
    else "no check"
  match judge reading.state train.startedAt tick.now tick.maxTrainAgeMinutes with
  | .pending => lane
  | .green =>
    match lane.updateDoc (some train.id)
        fun doc => { doc with train := some { train with state := .landing } } with
    | some lane => land tick lane { train with state := .landing }
    | none => lane
  | .red => fail lane train "train_red" failing
  | .timedOut => fail lane train "train_timed_out" failing

/-! ## A tick -/

def composeStaleSeconds : Int := 600

/-- A riding entry of no running train is queued again. -/
def heal (lane : Lane) (trainId : Option String) : Lane :=
  lane.entries.foldl
    (fun lane e => if e.state = .riding ∧ e.trainId ≠ trainId then lane.requeue e.ride else lane) lane

def abandon (lane : Lane) (train : Train) : Lane :=
  let lane := train.riders.foldl requeue lane
  (lane.updateDoc (some train.id) fun doc => { doc with train := none }).getD lane

def step (key : LaneKey) (tick : Tick) (lane : Lane) : Lane :=
  match lane.doc.train with
  | none =>
    let lane := lane.heal none
    lane.compose key tick (lane.entries.filter (·.state = .queued))
  | some train =>
    let lane := lane.heal (some train.id)
    match train.state with
    | .composing =>
      if seconds composeStaleSeconds ≤ tick.now - train.startedAt then lane.abandon train else lane
    | .testing => lane.test tick train
    | .landing => lane.land tick train

end Lane

end SwarmCloud.MergeTrain
