import SwarmCloud.AttemptState.Fence

/-! # What a park writes

`_park_payload`: the update of the task, the event and the reason of the release, for
each reason to park. Some reasons give the attempt back, each within its own bound.
-/

namespace SwarmCloud.AttemptState

open Common Lib

structure CiWait where
  code : String
  head : String := ""
  pullRequest : Int
  pending : List String := []
deriving DecidableEq, Repr

structure ParkBody where
  requestId : String
  reason : String
  nextEligibleAt : Option Instant := none
  detail : Fields := []
  uploads : List Value := []
  announce : List (String × Fields) := []
  ci : Option CiWait := none

def childAwaitResumes : String := "child_await_resumes"
def mergeWaitKey : String := "merge_wait"
def humanWaitResumes : String := "human_wait_resumes"
def releaseWaitKey : String := "release_wait"
def releaseWaitResumes : String := "release_wait_resumes"
def humanReturned : String := "human_returned"
def humanReady : String := "human_ready"
def childCascade : String := "child_cascade"
def quotaParkResumes : String := "quota_park_resumes"
def timeLimitKey : String := "time_limit"
def timeLimitContinuations : String := "time_limit_continuations"
def mergeSlotWait : String := "merge_slot_wait"
def trainWaiting : String := "merge_train_waiting"

def childAwaitMaxResumes : Int := 4
def humanMaxResumes : Int := 2
def ciMaxWakes : Int := 60
def slotMaxWaits : Int := 200
def trainMaxWaits : Int := 200
def ciFallbackSeconds : Int := 900
def releaseWaitMaxResumes : Int := 4
def quotaMaxResumes : Int := 5
def timeLimitMaxContinuations : Int := 2
def failedHeadsMaxNames : Nat := 40
def failedHeadsMaxPerName : Nat := 10

def truncated (n : Nat) (text : String) : String := String.ofList (text.toList.take n)

/-- `items[-n:]`. -/
def lastOf {α : Type} (n : Nat) (items : List α) : List α := items.drop (items.length - n)

def strings (items : List String) : Value := .list (items.map .str)

/-! ## The wait for checks -/

/-- `_wait_instant`: a stored instant, or the one that an ISO text names. -/
def waitInstant (service : Service) : Option Value → Option Instant
  | some (.instant moment) => some moment
  | some (.str text) => service.fromIsoformat (text.replace "Z" "+00:00")
  | _ => none

def roundHeads (metadata : Fields) : List String :=
  let fix := Value.mapping (metadata.lookup "merge_fix")
  ["rounds", "conflict_rounds"].flatMap fun kind =>
    match fix.lookup kind with
    | some (.list entries) =>
      entries.filterMap fun entry =>
        (Value.asString ((Value.mapping (some entry)).lookup "head")).filter (· ≠ "")
    | _ => []

/-- The heads at which each check failed before this park. -/
def carriedHeads (old : Fields) : Dict String (List String) :=
  old.foldl (fun heads item => match item.2 with
    | .list seen =>
      if heads.length < failedHeadsMaxNames then
        heads.set (truncated 256 item.1)
          (lastOf failedHeadsMaxPerName (seen.filterMap fun head =>
            (Value.asString (some head)).map (truncated 64)))
      else heads
    | _ => heads) []

/-- The heads with this park's failed checks added. -/
def failedHeads (service : Service) (head : String) (failed : List Value) (heads : Dict String (List String)) :
    Dict String (List String) :=
  failed.foldl (fun heads name =>
    let key := truncated 256 (service.text name)
    match heads.lookup key with
    | none =>
      if failedHeadsMaxNames ≤ heads.length then heads else heads.set key [head]
    | some seen =>
      if head ∈ seen then heads else heads.set key (lastOf failedHeadsMaxPerName (seen ++ [head]))) heads

/-- When the wait that this park continues began, and none when the head moved on or a person came back. -/
def waitStarted (service : Service) (metadata last : Fields) (head : String) : Option Instant :=
  let previous := last.lookup "head"
  let moved := Value.truthy previous && Value.asString previous ≠ some head &&
    !(Value.asString previous).any (· ∈ roundHeads metadata)
  let returned := waitInstant service ((Value.mapping (metadata.lookup humanReady)).lookup "at")
  (waitInstant service (last.lookup "wait_started_at")).filter fun started =>
    !moved && !returned.any (started < ·)

def ciWaitSpan (service : Service) (metadata last : Fields) (head : String) (failed : Option Value) (now : Instant) :
    Fields :=
  let started := waitStarted service metadata last head
  let old := if started.isSome then Value.mapping (last.lookup "failed_heads") else []
  let failed := match failed with
    | some (.list names) => names
    | _ => []
  let heads := failedHeads service head failed (carriedHeads old)
  [("wait_started_at", .instant (started.getD now)),
    ("rechecks", .int ((if started.isSome then Value.count (last.lookup "rechecks") else 0) + 1)),
    ("failed_heads", .map (heads.map fun item => (item.1, strings item.2))),
    ("main_red", match started, last.lookup "main_red" with
      | some _, some (.map members) => .map members
      | _, _ => .null)]

/-- The counter of a CI park, and its bound. -/
def ciCounter (ci : CiWait) : String × Int :=
  if ci.code = mergeSlotWait then ("slot_waits", slotMaxWaits)
  else if ci.code = trainWaiting then ("train_waits", trainMaxWaits)
  else ("wakes", ciMaxWakes)

/-- The CI clock of a wait: when it was first parked, and since when it is paused. -/
def ciClock (last : Fields) (ci : CiWait) (now : Instant) : Option Instant × Option Instant :=
  let head := last.lookup "head"
  let kept := !Value.truthy head || Value.asString head = some ci.head
  let first := (Value.asInstant (last.lookup "first_parked_at")).filter fun _ => kept
  let paused := (Value.asInstant (last.lookup "ci_paused_at")).filter fun _ => first.isSome
  if (ciCounter ci).1 ≠ "wakes" then (first, first.map fun _ => paused.getD now)
  else match first, paused with
    | none, _ => (some now, paused)
    | some first, some paused => (some (first + max (now - paused) 0), none)
    | some first, none => (some first, none)

/-- Since when the park has been in the train's queue. -/
def trainEntered (last : Fields) (ci : CiWait) (now : Instant) : Option Instant :=
  if (ciCounter ci).1 = "train_waits" then
    let entered := if Value.asString (last.lookup "code") = some trainWaiting then
      Value.asInstant (last.lookup "train_entered_at") else none
    some (entered.getD now)
  else none

/-- The `merge_wait` that a CI park leaves, with its counters. -/
def mergeWait (service : Service) (metadata : Fields) (body : ParkBody) (ci : CiWait) (counts : Fields)
    (now : Instant) : Fields :=
  let last := Value.mapping (metadata.lookup mergeWaitKey)
  let (first, paused) := ciClock last ci now
  let wait : Fields :=
    [("code", .str ci.code), ("head", .str ci.head), ("pull_request", .int ci.pullRequest),
      ("pending", strings (ci.pending.map (truncated 256)))] ++ counts ++
    [("updates", .int (Value.count (last.lookup "updates"))),
      ("first_parked_at", Value.ofInstant first), ("ci_paused_at", Value.ofInstant paused),
      ("train_entered_at", Value.ofInstant (trainEntered last ci now)), ("parked_at", .instant now)]
  wait.merge (ciWaitSpan service metadata last ci.head (body.detail.lookup "failed") now)

/-! ## The plan of a park -/

/-- What a park decided before it writes. -/
structure ParkPlan where
  patch : Patch
  kind : EventType
  detail : Fields
  releaseReason : String

def countInt (n : Option Int) : Int := if 0 ≤ n.getD 0 then n.getD 0 else 0

/-- A refund counted under a key of the metadata: whether it is given, the metadata after it where it is,
and what the event says. -/
structure Refund where
  refund : Bool
  metadata : Option Fields
  extra : Fields

def refundUnder (metadata : Fields) (attemptCount : Int) (key : String) (bound : Int) : Refund :=
  let used := Value.count (metadata.lookup key)
  let refund := used < bound && 0 < attemptCount
  { refund := refund
    metadata := if refund then some (metadata.set key (.int (used + 1))) else none
    extra := [(key, .int (used + if refund then 1 else 0))] }

/-- The refund of a CI park, under the counter of its code. -/
def refundCi (service : Service) (metadata : Fields) (attemptCount : Int) (body : ParkBody) (ci : CiWait)
    (now : Instant) : Refund :=
  let last := Value.mapping (metadata.lookup mergeWaitKey)
  let (counter, bound) := ciCounter ci
  let refund := Value.count (last.lookup counter) < bound && 0 < attemptCount
  let counted := fun name => Value.count (last.lookup name) + if refund && name = counter then 1 else 0
  let counts : Fields := ["wakes", "slot_waits", "train_waits"].map fun name => (name, .int (counted name))
  { refund := refund
    metadata := some (metadata.set mergeWaitKey (.map (mergeWait service metadata body ci counts now)))
    extra := [("wakes", .int (counted counter)), ("code", .str ci.code), ("head", .str ci.head),
      ("pending", strings (ci.pending.map (truncated 256)))] }

def isReleaseWait (reason : ParkReason) (detail : Fields) : Bool :=
  reason = .dependencyIncomplete && Value.isMapping (detail.lookup releaseWaitKey)

def isTimeLimit (reason : ParkReason) (detail : Fields) : Bool :=
  reason = .scheduledRetry && Value.isMapping (detail.lookup timeLimitKey)

/-- The refund of a park and the instant it is next eligible at; a park whose reason sets no instant
needs one from its body. -/
def parkRefund (service : Service) (task : Task) (reason : ParkReason) (body : ParkBody) (now : Instant) :
    Except Refusal (Refund × Instant) :=
  let attemptCount := countInt task.attemptCount
  let under := refundUnder task.metadata attemptCount
  if reason = .childrenIncomplete then .ok (under childAwaitResumes childAwaitMaxResumes, now)
  else if reason = .humanRequired then .ok (under humanWaitResumes humanMaxResumes, now)
  else if isReleaseWait reason body.detail then .ok (under releaseWaitResumes releaseWaitMaxResumes, now)
  else match reason, body.ci with
    | .ciPending, some ci =>
      .ok (refundCi service task.metadata attemptCount body ci now, now + seconds ciFallbackSeconds)
    | _, _ =>
      match body.nextEligibleAt with
      | none => .error (.validationFailed ("a " ++ reason.value ++ " park needs next_eligible_at"))
      | some nextEligibleAt =>
        if reason = .providerQuotaExhausted then .ok (under quotaParkResumes quotaMaxResumes, nextEligibleAt)
        else if isTimeLimit reason body.detail then
          let refund := under timeLimitContinuations timeLimitMaxContinuations
          .ok ({ refund with
            extra := refund.extra ++ [("max_continuations", .int timeLimitMaxContinuations)] }, nextEligibleAt)
        else .ok (⟨false, none, []⟩, nextEligibleAt)

def refundable (reason : ParkReason) (detail : Fields) : Bool :=
  isReleaseWait reason detail || isTimeLimit reason detail ||
    reason ∈ [ParkReason.childrenIncomplete, .ciPending, .humanRequired, .providerQuotaExhausted]

def blockedBy (reason : ParkReason) (body : ParkBody) : Fields :=
  match reason, body.ci with
  | .ciPending, some ci =>
    [("reason", .str reason.value), ("code", .str ci.code), ("head", .str ci.head),
      ("pending", strings (ci.pending.map (truncated 256)))]
  | _, _ => Fields.merge [("reason", .str reason.value)] body.detail

/-- Who returned control while this attempt parked, if a person did and the task has attempts left. -/
def returnedBy (service : Service) (task : Task) (metadata : Fields) (a : AttemptTuple) (attemptCount : Int) :
    Option String :=
  match metadata.lookup humanReturned with
  | some (.map mark) =>
    let left := (match task.maxAttempts with
      | none | some 0 => 1
      | some n => countInt (some n)) - countInt (some attemptCount)
    let generation := match mark.lookup "generation" with
      | some (.int n) => some n
      | _ => none
    if Value.asString (mark.lookup "attempt_id") = some a.attemptId ∧ generation = some a.generation ∧ 0 < left then
      some (if Value.truthy (mark.lookup "by") then service.text ((mark.lookup "by").getD .null) else "")
    else none
  | _ => none

/-- `_park_payload`. -/
def parkPayload (service : Service) (task : Task) (reason : ParkReason) (body : ParkBody) (a : AttemptTuple)
    (now : Instant) : Except Refusal ParkPlan :=
  match parkRefund service task reason body now with
  | .error refusal => .error refusal
  | .ok (refund, nextEligibleAt) =>
    let attemptCount := countInt task.attemptCount - if refund.refund then 1 else 0
    let metadata := refund.metadata.getD task.metadata
    let patch : Patch :=
      { state := some .parked, parkReason := some (some reason), currentLeaseId := some none
        blockedBy := some [.map (blockedBy reason body)], updatedAt := some now
        nextEligibleAt := some (some nextEligibleAt), metadata := refund.metadata
        attemptCount := if refund.refund then some attemptCount else none }
    match (returnedBy service task metadata a attemptCount).filter fun _ => reason = .humanRequired with
    | some person =>
      let ready : Value := .map [("by", .str person), ("at", .str (service.isoformat now))]
      let kept : Fields := metadata.filter fun item => item.1 ≠ humanReturned
      .ok { patch := { patch with
              state := some .ready, parkReason := some none, nextEligibleAt := some none, blockedBy := some []
              metadata := some (kept.set humanReady ready) }
            kind := .ready
            detail := Fields.merge [("reason", .str "human_returned"), ("park_reason", .str reason.value),
              ("by", .str person), ("attempt_refunded", .bool refund.refund)] (refund.extra.merge body.detail)
            releaseReason := "requeued:human_returned" }
    | none =>
      let refunded : Fields :=
        if refundable reason body.detail then [("attempt_refunded", .bool refund.refund)] else []
      .ok { patch := patch
            kind := .parked
            detail := Fields.merge ([("reason", .str reason.value), ("next_eligible_at", .instant nextEligibleAt)] ++
              refunded) (refund.extra.merge body.detail)
            releaseReason := "parked:" ++ reason.value }

/-- `park_attempt_error`. -/
def parkAttemptError (reason : ParkReason) (detail : Fields) : String :=
  match detail.lookup timeLimitContinuations with
  | some (.int n) =>
    if isTimeLimit reason detail then
      reason.value ++ ": continued at the time limit (" ++ toString n ++ " of " ++
        toString timeLimitMaxContinuations ++ ")"
    else reason.value
  | _ => reason.value

end SwarmCloud.AttemptState
