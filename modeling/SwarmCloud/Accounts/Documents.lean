import Mathlib.Data.List.DropRight
import SwarmCloud.Accounts.Account
import SwarmCloud.Lib.Results

/-! # Account documents

`Account.to_firestore` and `Account.from_firestore`. A document is a dictionary
of stored values. What Python makes of a value of another type (`str`, `float`,
`int`) and of Unicode (`str.isspace`, `str.lower`, `unicodedata.category`) is a
parameter, with the few laws that the decoder relies on.
-/

namespace SwarmCloud.Accounts

open Common Lib

/-- Why a document cannot be decoded, by the class of the exception. -/
inductive Malformed
  | keyError
  | valueError
  | typeError
  | attributeError
  | overflowError
  | accountError
deriving DecidableEq, Repr

/-- Python's own conversions, whatever its Unicode tables are: nothing more of them is used. `str` is asked
for values that are no text; it never answers with an empty one. Lower-casing is idempotent, adds or removes no space
at either end, and does not empty a text. -/
structure Python where
  isSpace : Char → Bool
  isForbiddenInName : Char → Bool
  lower : String → String
  str : Raw → String
  repr : Raw → String
  floatOfText : String → Except Malformed Float
  floatOfInt : Int → Except Malformed Float
  intOfText : String → Except Malformed Int
  intOfFloat : Float → Except Malformed Int
  str_ne : ∀ v, str v ≠ ""
  lower_lower : ∀ s, lower (lower s) = lower s
  lower_ne : ∀ s, s ≠ "" → lower s ≠ ""
  lower_ends : ∀ s, (s.toList.dropWhile isSpace).rdropWhile isSpace = s.toList →
    ((lower s).toList.dropWhile isSpace).rdropWhile isSpace = (lower s).toList

namespace Python

def strip (py : Python) (s : String) : String :=
  String.ofList ((s.toList.dropWhile py.isSpace).rdropWhile py.isSpace)

def text (py : Python) : Raw → String
  | .text s => s
  | v => py.str v

def float (py : Python) : Raw → Except Malformed Float
  | .float x => .ok x
  | .int n => py.floatOfInt n
  | .bool b => .ok (if b then 1.0 else 0.0)
  | .text s => py.floatOfText s
  | _ => .error .typeError

def int (py : Python) : Raw → Except Malformed Int
  | .int n => .ok n
  | .bool b => .ok (if b then 1 else 0)
  | .float x => py.intOfFloat x
  | .text s => py.intOfText s
  | _ => .error .typeError

end Python

/-! ## Reading -/

abbrev Document := Dict String Raw

/-- `data.get(key, default)`. -/
def Document.getD (data : Document) (key : String) (fallback : Raw) : Raw := (data.lookup key).getD fallback

def Document.get (data : Document) (key : String) : Raw := data.getD key .null

def Document.required (data : Document) (key : String) : Except Malformed Raw :=
  match data.lookup key with
  | some v => .ok v
  | none => .error .keyError

/-- `value or default`. -/
def Raw.orElse (v fallback : Raw) : Raw := if v.truthy then v else fallback

def optionalText : Raw → Option String
  | .text s => if s = "" then none else some s
  | _ => none

def optionalInstant : Raw → Option Instant
  | .instant i => some i
  | _ => none

def AccountState.ofValue (value : String) : Option AccountState :=
  [AccountState.available, .paused, .draining, .reauthRequired].find? (·.value = value)

def stateFromFirestore : Raw → Except Malformed AccountState
  | .text value =>
    match AccountState.ofValue value with
    | some state => .ok state
    | none => .error .valueError
  | _ => .error .valueError

def optionalState (py : Python) (raw : Raw) : Option AccountState :=
  if raw.truthy then AccountState.ofValue (py.text raw) else none

/-- The items of `value or {}`. -/
def itemsOf (raw : Raw) : Except Malformed (List (String × Raw)) :=
  if raw.truthy then
    match raw with
    | .map fields => .ok fields
    | _ => .error .attributeError
  else .ok []

def windowFromFirestore (py : Python) (raw : Raw) : Except Malformed (Option WindowReading) :=
  match raw with
  | .map fields =>
    match Document.get fields "resets_at" with
    | .instant resetsAt => do
      let utilization ← py.float (Document.getD fields "utilization" (.float 0.0))
      pure (some ⟨utilization, resetsAt, optionalInstant (Document.get fields "observed_at")⟩)
    | _ => .ok none
  | _ => .error .attributeError

def windowsFromItems (py : Python) :
    List (String × Raw) → Dict String WindowReading → Except Malformed (Dict String WindowReading)
  | [], windows => .ok windows
  | (name, raw) :: items, windows => do
    match ← windowFromFirestore py raw with
    | some window => windowsFromItems py items (windows.set name window)
    | none => windowsFromItems py items windows

def reportsFromItems : List (String × Raw) → Dict String Instant → Dict String Instant
  | [], reports => reports
  | (tenant, .instant i) :: items, reports => reportsFromItems items (reports.set tenant i)
  | _ :: items, reports => reportsFromItems items reports

/-- `tuple(value or ())`: the members of a list, the characters of a text, the keys of a map. -/
def lendToFromFirestore (raw : Raw) : Except Malformed (List Raw) :=
  if raw.truthy then
    match raw with
    | .list items => .ok items
    | .text s => .ok (s.toList.map fun c => .text (String.ofList [c]))
    | .map fields => .ok (fields.map fun field => .text field.1)
    | _ => .error .typeError
  else .ok []

def holdFromFirestore (py : Python) : Raw → Option Hold
  | .map item =>
    match Document.get item "expires_at" with
    | .instant expiresAt =>
      if (Document.get item "assignment_id").truthy then
        some {
          assignmentId := py.text (Document.get item "assignment_id")
          tenantId := py.text ((Document.get item "tenant_id").orElse (.text ""))
          expiresAt := expiresAt
          taskId := optionalText (Document.get item "task_id")
          attemptId := optionalText (Document.get item "attempt_id")
          assignedAt := optionalInstant (Document.get item "assigned_at")
          move := optionalText (Document.get item "move")
          swappedFrom := optionalText (Document.get item "swapped_from")
          swapReason := optionalText (Document.get item "swap_reason")
          pool := (optionalText (Document.get item "pool")).getD poolWorkspace
          person := optionalText (Document.get item "person")
          voiceSessionId := optionalText (Document.get item "voice_session_id") }
      else none
    | _ => none
  | _ => none

/-- The holds of a stored list, without any that is not shaped like one. -/
def holdsFromFirestore (py : Python) : Raw → List Hold
  | .list items => items.filterMap (holdFromFirestore py)
  | _ => []

/-- The names of `MODEL_CLASSES`, in its order. -/
def modelClassNames : List String := ["opus", "fable", "sonnet", "haiku"]

def textsOf (items : List Raw) : List String :=
  items.filterMap fun
    | .text s => some s
    | _ => none

/-- Whether every item is a text of the vocabulary. -/
def allNamed (vocabulary : List String) (items : List Raw) : Bool :=
  items.all fun
    | .text s => s ∈ vocabulary
    | _ => false

def modelClassesFromFirestore : Raw → Except Malformed (List String)
  | .null => .ok []
  | .list items =>
    if allNamed modelClassNames items then
      if (textsOf items).Nodup then .ok (modelClassNames.filter (· ∈ textsOf items)) else .error .valueError
    else .error .valueError
  | _ => .error .typeError

def displayNameMax : Nat := 60

def displayNameFromFirestore (py : Python) : Raw → Option String
  | .text name =>
    if py.strip name = "" ∨ displayNameMax < (py.strip name).length ∨
        (py.strip name).toList.any py.isForbiddenInName then none
    else some (py.strip name)
  | _ => none

def maxAgentsFromFirestore : Raw → Except Malformed Int
  | .null => .ok defaultMaxAgents
  | .int n => if 1 ≤ n ∧ n ≤ maxAgentsLimit then .ok n else .error .valueError
  | _ => .error .valueError

def identicalFromFirestore : Raw → Option IdenticalReadings
  | .map fields =>
    match Document.get fields "with", Document.get fields "polls", Document.get fields "observed_at",
      Document.get fields "other_observed_at" with
    | .text other, .int polls, .instant mine, .instant theirs =>
      if other ≠ "" ∧ 0 < polls then some ⟨other, polls, mine, theirs⟩ else none
    | _, _, _, _ => none
  | _ => none

def poolsFromFirestore : Raw → Except Malformed (List String)
  | .null => .ok defaultPools
  | .list items =>
    if allNamed pools items then
      if pools.filter (· ∈ textsOf items) = [] then .error .accountError
      else .ok (pools.filter (· ∈ textsOf items))
    else .error .accountError
  | _ => .error .accountError

def peopleFromFirestore (py : Python) : Raw → List String
  | .list items =>
    ((textsOf items).filter fun p => py.strip p ≠ "").map fun p => py.lower (py.strip p)
  | _ => []

def fromFirestore (py : Python) (data : Document) : Except Malformed Account := do
  let windows ← windowsFromItems py (← itemsOf (data.get "windows")) []
  let accountId ← data.required "account_id"
  let ownerTenant ← data.required "owner_tenant"
  let label ← data.required "label"
  let state ← stateFromFirestore (data.getD "state" (.text AccountState.available.value))
  let lendTo ← lendToFromFirestore (data.get "lend_to")
  let reports ← itemsOf (data.get "unreadable_by")
  let assigned ← py.int (data.getD "assigned" (.int 0))
  let modelClasses ← modelClassesFromFirestore (data.get "model_classes")
  let maxAgents ← maxAgentsFromFirestore (data.get "max_agents")
  let pools ← poolsFromFirestore (data.get "pools")
  pure {
    accountId := accountId
    ownerTenant := ownerTenant
    label := label
    provider := data.getD "provider" (.text "anthropic")
    state := state
    lendTo := lendTo
    secretRef := py.text ((data.get "secret").orElse (.text ""))
    windows := windows
    observedAt := optionalInstant (data.get "observed_at")
    holds := holdsFromFirestore py (data.get "holds")
    lastAssignedAt := optionalInstant (data.get "last_assigned_at")
    unreadableBy := reportsFromItems reports []
    assigned := assigned
    reason := (data.getD "reason" (.text "")).orElse (.text "")
    stateBeforeReauth := optionalState py (data.get "state_before_reauth")
    lastRefreshAt := optionalInstant (data.get "last_refresh_at")
    tokenExpiresAt := optionalInstant (data.get "token_expires_at")
    lastRefreshReason := (optionalText (data.get "last_refresh_reason")).getD ""
    modelClasses := modelClasses
    displayName := displayNameFromFirestore py (data.get "display_name")
    maxAgents := maxAgents
    organisationId := optionalText (data.get "organisation_id")
    organisationName := optionalText (data.get "organisation_name")
    organisationPlan := optionalText (data.get "organisation_plan")
    seatId := optionalText (data.get "seat_id")
    registeredAt := optionalInstant (data.get "registered_at")
    duplicateOf := optionalText (data.get "duplicate_of")
    duplicateWithheld := match data.get "duplicate_withheld" with
      | .bool b => b
      | _ => false
    possibleDuplicateOf := optionalText (data.get "possible_duplicate_of")
    identicalReadings := identicalFromFirestore (data.get "identical_readings")
    limitedUntil := optionalInstant (data.get "limited_until")
    limitedWindow := optionalText (data.get "limited_window")
    pools := pools
    voiceItPeople := peopleFromFirestore py (data.get "voice_it_people") }

/-! ## Writing -/

def Raw.ofText : Option String → Raw
  | some s => .text s
  | none => .null

def Raw.ofInstant : Option Instant → Raw
  | some i => .instant i
  | none => .null

/-- A field that is written only when it is a text with something in it. -/
def whenText (key : String) : Option String → Document
  | some s => if s = "" then [] else [(key, .text s)]
  | none => []

def whenInstant (key : String) : Option Instant → Document
  | some i => [(key, .instant i)]
  | none => []

def windowToFirestore (w : WindowReading) : Raw :=
  .map ([("utilization", .float w.utilization), ("resets_at", .instant w.resetsAt)] ++
    whenInstant "observed_at" w.observedAt)

def windowsToFirestore (windows : Dict String WindowReading) : Raw :=
  .map (windows.map fun item => (item.1, windowToFirestore item.2))

def holdToFirestore (h : Hold) : Raw :=
  .map ([("assignment_id", .text h.assignmentId), ("tenant_id", .text h.tenantId),
    ("expires_at", .instant h.expiresAt)] ++ whenText "task_id" h.taskId ++
    whenText "attempt_id" h.attemptId ++ whenInstant "assigned_at" h.assignedAt ++ whenText "move" h.move ++
    whenText "swapped_from" h.swappedFrom ++ whenText "swap_reason" h.swapReason ++
    (if h.pool ≠ poolWorkspace then [("pool", .text h.pool)] else []) ++ whenText "person" h.person ++
    whenText "voice_session_id" h.voiceSessionId)

def identicalToFirestore (r : IdenticalReadings) : Raw :=
  .map [("with", .text r.withAccount), ("polls", .int r.polls), ("observed_at", .instant r.observedAt),
    ("other_observed_at", .instant r.otherObservedAt)]

def toFirestore (a : Account) : Document := [
  ("account_id", a.accountId),
  ("owner_tenant", a.ownerTenant),
  ("label", a.label),
  ("provider", a.provider),
  ("state", .text a.state.value),
  ("lend_to", .list a.lendTo),
  ("assigned", .int a.assigned),
  ("last_assigned_at", .ofInstant a.lastAssignedAt),
  ("holds", .list (a.holds.map holdToFirestore)),
  ("unreadable_by", .map (a.unreadableBy.map fun report => (report.1, .instant report.2))),
  ("reason", a.reason),
  ("state_before_reauth", .text (a.stateBeforeReauth.elim "" AccountState.value)),
  ("secret", .text a.secretRef),
  ("observed_at", .ofInstant a.observedAt),
  ("windows", windowsToFirestore a.windows),
  ("last_refresh_at", .ofInstant a.lastRefreshAt),
  ("token_expires_at", .ofInstant a.tokenExpiresAt),
  ("last_refresh_reason", .text a.lastRefreshReason),
  ("model_classes", .list (a.modelClasses.map .text)),
  ("display_name", .ofText a.displayName),
  ("max_agents", .int a.maxAgents),
  ("organisation_id", .ofText a.organisationId),
  ("organisation_name", .ofText a.organisationName),
  ("organisation_plan", .ofText a.organisationPlan),
  ("seat_id", .ofText a.seatId),
  ("registered_at", .ofInstant a.registeredAt),
  ("duplicate_of", .ofText a.duplicateOf),
  ("duplicate_withheld", .bool a.duplicateWithheld),
  ("possible_duplicate_of", .ofText a.possibleDuplicateOf),
  ("identical_readings", a.identicalReadings.elim .null identicalToFirestore),
  ("limited_until", .ofInstant a.limitedUntil),
  ("limited_window", .ofText a.limitedWindow),
  ("pools", .list (a.pools.map .text)),
  ("voice_it_people", .list (a.voiceItPeople.map .text))]

end SwarmCloud.Accounts
