import SwarmCloud.Common.Pools
import SwarmCloud.Lib.Dict

/-! # Pool accounts

The data model of `quota_broker/accounts.py`. A field that the decoder takes
from the document as it stands, whatever is stored there, is a `Raw` value;
the other fields have their own types. Instants are aware, as `_aware` leaves
them, and `Float` is the double of the source.
-/

namespace SwarmCloud.Accounts

open Common Lib

/-- A stored Firestore value. -/
inductive Raw
  | null
  | bool (b : Bool)
  | int (n : Int)
  | float (x : Float)
  | text (s : String)
  | instant (i : Instant)
  | list (items : List Raw)
  | map (fields : List (String × Raw))

/-- Whether Python reads the value as true. -/
def Raw.truthy : Raw → Bool
  | .null => false
  | .bool b => b
  | .int n => n != 0
  | .float x => x != 0
  | .text s => s != ""
  | .instant _ => true
  | .list items => !items.isEmpty
  | .map fields => !fields.isEmpty

inductive AccountState
  | available
  | paused
  | draining
  | reauthRequired
deriving DecidableEq, Repr

def AccountState.value : AccountState → String
  | .available => "AVAILABLE"
  | .paused => "PAUSED"
  | .draining => "DRAINING"
  | .reauthRequired => "REAUTH_REQUIRED"

/-- One rate-limit window as the API reported it. -/
structure WindowReading where
  utilization : Float
  resetsAt : Instant
  observedAt : Option Instant := none

namespace WindowReading

def remaining (w : WindowReading) : Float := max 0.0 (1.0 - w.utilization)

def isReset (w : WindowReading) (now : Instant) : Bool := w.resetsAt ≤ now

end WindowReading

structure IdenticalReadings where
  withAccount : String
  polls : Int
  observedAt : Instant
  otherObservedAt : Instant
deriving DecidableEq, Repr

def poolWorkspace : String := "workspace"
def poolVoiceIt : String := "voice-it"
def pools : List String := [poolWorkspace, poolVoiceIt]
def defaultPools : List String := [poolWorkspace]

/-- One agent's claim on an account, with a deadline. -/
structure Hold where
  assignmentId : String
  tenantId : String
  expiresAt : Instant
  taskId : Option String := none
  attemptId : Option String := none
  assignedAt : Option Instant := none
  move : Option String := none
  swappedFrom : Option String := none
  swapReason : Option String := none
  pool : String := poolWorkspace
  person : Option String := none
  voiceSessionId : Option String := none
deriving DecidableEq, Repr

def Hold.isExpired (h : Hold) (now : Instant) : Bool := h.expiresAt ≤ now

def defaultMaxAgents : Int := 6
def maxAgentsLimit : Int := 50
def maxAgentsBeforeReading : Int := 1

structure Account where
  accountId : Raw
  ownerTenant : Raw
  label : Raw
  provider : Raw := .text "anthropic"
  state : AccountState := .available
  lendTo : List Raw := []
  windows : Dict String WindowReading := []
  observedAt : Option Instant := none
  holds : List Hold := []
  assigned : Int := 0
  unreadableBy : Dict String Instant := []
  reason : Raw := .text ""
  stateBeforeReauth : Option AccountState := none
  secretRef : String := ""
  lastAssignedAt : Option Instant := none
  lastRefreshAt : Option Instant := none
  tokenExpiresAt : Option Instant := none
  lastRefreshReason : String := ""
  modelClasses : List String := []
  displayName : Option String := none
  maxAgents : Int := defaultMaxAgents
  organisationId : Option String := none
  organisationName : Option String := none
  organisationPlan : Option String := none
  seatId : Option String := none
  registeredAt : Option Instant := none
  duplicateOf : Option String := none
  duplicateWithheld : Bool := false
  possibleDuplicateOf : Option String := none
  identicalReadings : Option IdenticalReadings := none
  limitedUntil : Option Instant := none
  limitedWindow : Option String := none
  pools : List String := defaultPools
  voiceItPeople : List String := []

namespace Account

/-- Whether a recorded 429 still holds the account. -/
def isLimited (a : Account) (now : Instant) : Bool := a.limitedUntil.any fun until_ => now < until_

end Account

end SwarmCloud.Accounts
