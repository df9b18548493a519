import SwarmCloud.Accounts.Account

/-! # The hold transactions

`acquire_hold`, `swap_hold` and the other transactions of `quota_broker/main.py`
that rewrite an account's holds, over the account documents and the
`account_holds` log. A transaction reads, decides and writes at one commit, so
each is a function of the store; a fresh assignment id is an argument. What
Python's `strip().lower()` makes of an email is a parameter.
-/

namespace SwarmCloud.Accounts

open Common Lib

inductive HoldEnd
  | released
  | unusable
  | expired
  | swapped
  | accountRemoved
deriving DecidableEq, Repr

def HoldEnd.value : HoldEnd → String
  | .released => "released"
  | .unusable => "unusable"
  | .expired => "expired"
  | .swapped => "swapped"
  | .accountRemoved => "account_removed"

def swapDrain : String := "drain"
def swapUnusable : String := "unusable"

def holdLogRetention : Instant := seconds (90 * 86400)

/-- A document of `account_holds`; open until it has an end. -/
structure HoldRecord where
  accountId : String
  tenantId : String
  taskId : Option String
  attemptId : Option String
  assignedAt : Option Instant
  releasedAt : Option Instant
  ending : Option HoldEnd
  holdExpiresAt : Instant
  expiresAt : Instant
  swappedFrom : Option String
  swappedFromReason : Option String
  swappedTo : Option String
  swappedToReason : Option String
  pool : String
  voiceSessionId : Option String
deriving DecidableEq, Repr

/-- How a hold ended, as `hold_log_entry` takes it. -/
structure Closing where
  ending : HoldEnd
  releasedAt : Instant
  swappedTo : Option String := none
  swapReason : Option String := none

def holdLogEntry (hold : Hold) (accountId : String) (closing : Option Closing) : HoldRecord where
  accountId := accountId
  tenantId := hold.tenantId
  taskId := hold.taskId
  attemptId := hold.attemptId
  assignedAt := hold.assignedAt
  releasedAt := closing.map Closing.releasedAt
  ending := closing.map Closing.ending
  holdExpiresAt := hold.expiresAt
  expiresAt := (closing.map Closing.releasedAt).getD hold.expiresAt + holdLogRetention
  swappedFrom := hold.swappedFrom
  swappedFromReason := if hold.swappedFrom.any (· ≠ "") then hold.swapReason else none
  swappedTo := closing.bind fun c => if c.ending = .swapped then c.swappedTo else none
  swappedToReason := closing.bind fun c => if c.ending = .swapped then c.swapReason else none
  pool := hold.pool
  voiceSessionId := hold.voiceSessionId

/-- The account documents and the log of holds. -/
structure Store where
  accounts : Dict String Account
  log : Dict String HoldRecord

/-- `_hold_payload`: the count is written from the holds. -/
def Account.withHolds (a : Account) (holds : List Hold) : Account :=
  { a with holds := holds, assigned := holds.length }

namespace Store

def account (st : Store) (accountId : String) : Option Account := st.accounts.lookup accountId

def update (st : Store) (accountId : String) (a : Account) : Store :=
  { st with accounts := st.accounts.set accountId a }

def setLog (st : Store) (assignmentId : String) (record : HoldRecord) : Store :=
  { st with log := st.log.set assignmentId record }

/-- The records of `holds` written with one closing for each. -/
def close (st : Store) (accountId : String) (closing : Hold → Closing) (holds : List Hold) : Store :=
  holds.foldl (fun st h => st.setLog h.assignmentId (holdLogEntry h accountId (some (closing h)))) st

/-- A lapsed hold's span ends at its own deadline. -/
def closeExpired (st : Store) (accountId : String) (expired : List Hold) : Store :=
  st.close accountId (fun h => ⟨.expired, h.expiresAt, none, none⟩) expired

end Store

namespace Account

/-- The two halves of `_split_holds`. -/
def liveHolds (a : Account) (now : Instant) : List Hold := a.holds.filter fun h => !h.isExpired now

def expiredHolds (a : Account) (now : Instant) : List Hold := a.holds.filter fun h => h.isExpired now

/-! ## Who may take the account -/

def rawInPool (a : Account) (pool : String) : Bool := pool ∈ a.pools

def rawMayServe (a : Account) (tenantId : String) : Bool :=
  a.rawInPool poolWorkspace &&
    ((match a.ownerTenant with
      | .text owner => owner ≠ "" && tenantId = owner
      | _ => false) ||
    a.lendTo.any fun
      | .text t => tenantId = t
      | _ => false)

/-- A later registration of a subscription another account holds. -/
def rawWithheld (a : Account) : Bool :=
  a.duplicateWithheld && a.organisationId.any (· ≠ "") && a.seatId.any (· ≠ "")

def rawAssignable (a : Account) (tenantId : String) : Bool :=
  a.state = .available && a.rawMayServe tenantId && !a.rawWithheld

def rawVoiceAssignable (clean : String → String) (a : Account) (person : String) : Bool :=
  a.state = .available && a.rawInPool poolVoiceIt && clean person ∈ a.voiceItPeople.map clean &&
    !a.rawWithheld

def openaiApiProvider : String := "openai-api"

/-- Whether the provider is the one of keys, which have no windows. -/
def isApiKey (a : Account) : Bool :=
  match a.provider with
  | .text p => p = openaiApiProvider
  | _ => false

/-- The cap of `_raw_has_room`, and none for a `max_agents` that is not one. -/
def cap (a : Account) : Option Int :=
  if 1 ≤ a.maxAgents ∧ a.maxAgents ≤ maxAgentsLimit then
    some (if a.observedAt.isNone ∧ a.isApiKey = false then min a.maxAgents maxAgentsBeforeReading
      else a.maxAgents)
  else none

def rawHasRoom (a : Account) (live : List Hold) : Bool := a.cap.any fun cap => (live.length : Int) < cap

end Account

namespace Store

/-! ## Taking and giving back -/

/-- What `acquire_hold` is called with. -/
structure Ask where
  tenantId : String
  ttl : Instant
  taskId : Option String
  attemptId : Option String
  person : Option String
  voiceSessionId : Option String

/-- An optional text, with the empty one for none. -/
def nonempty (s : Option String) : Option String := s.filter (· ≠ "")

def Ask.voiceIt (ask : Ask) : Bool := ask.person.isSome && ask.tenantId = ""

def Ask.hold (ask : Ask) (assignmentId : String) (now : Instant) : Hold where
  assignmentId := assignmentId
  tenantId := ask.tenantId
  expiresAt := now + ask.ttl
  taskId := nonempty ask.taskId
  attemptId := nonempty ask.attemptId
  assignedAt := some now
  pool := if ask.voiceIt then poolVoiceIt else poolWorkspace
  person := ask.person
  voiceSessionId := ask.voiceSessionId

/-- Whether the document may take the hold that is asked for. -/
def Ask.admits (clean : String → String) (ask : Ask) (a : Account) : Bool :=
  if ask.voiceIt then a.rawVoiceAssignable clean (ask.person.getD "") else a.rawAssignable ask.tenantId

def acquireHold (clean : String → String) (st : Store) (accountId : String) (ask : Ask) (now : Instant)
    (assignmentId : String) : Store × Option (String × Nat) :=
  match st.account accountId with
  | none => (st, none)
  | some a =>
    let live := a.liveHolds now
    if !ask.admits clean a || !a.rawHasRoom live then (st, none)
    else
      let hold := ask.hold assignmentId now
      let holds := live ++ [hold]
      (((st.update accountId { a.withHolds holds with lastAssignedAt := some now }).setLog assignmentId
          (holdLogEntry hold accountId none)).closeExpired accountId (a.expiredHolds now),
        some (assignmentId, holds.length))

/-- Whether a hold is a voice session's, of this session. -/
def isVoiceHoldOf (hold : Hold) (voiceSessionId : String) : Bool :=
  voiceSessionId ≠ "" && hold.voiceSessionId = some voiceSessionId &&
    (hold.pool = poolVoiceIt || hold.person.any (· ≠ ""))

structure Release where
  assignmentId : String
  tenantId : Option String
  unusable : Bool
  voiceSessionId : Option String

def Release.names (r : Release) (h : Hold) : Bool :=
  h.assignmentId = r.assignmentId && r.tenantId.all (h.tenantId = ·) &&
    r.voiceSessionId.all (isVoiceHoldOf h)

def releaseHold (st : Store) (accountId : String) (r : Release) (now : Instant) :
    Store × Option Nat × Bool :=
  match st.account accountId with
  | none => (st, none, false)
  | some a =>
    let live := a.liveHolds now
    let expired := a.expiredHolds now
    let held := live.filter r.names
    let remaining := live.filter (· ∉ held)
    if held.isEmpty && expired.isEmpty then (st, some remaining.length, false)
    else
      let unreadable := match held with
        | first :: _ =>
          if r.unusable then
            a.unreadableBy.set (if first.tenantId ≠ "" then first.tenantId else r.tenantId.getD "") now
          else a.unreadableBy
        | [] => a.unreadableBy
      let closing : Hold → Closing := fun _ => ⟨if r.unusable then .unusable else .released, now, none, none⟩
      (((st.update accountId { a.withHolds remaining with unreadableBy := unreadable }).close accountId
          closing held).closeExpired accountId expired,
        some remaining.length, !held.isEmpty)

/-- Whether a record of the account is open, and its hold is not on the document. -/
def isLeft (accountId : String) (covered : List String) (assignmentId : String) (record : HoldRecord) : Bool :=
  record.accountId = accountId && record.ending.isNone && assignmentId ∉ covered

/-- Delete an account, and close every open record it had. -/
def removeAccountAndCloseHolds (st : Store) (accountId : String) (now : Instant) : Store × Nat :=
  let live := (st.account accountId).elim [] (·.liveHolds now)
  let expired := (st.account accountId).elim [] (·.expiredHolds now)
  let covered := (live ++ expired).map Hold.assignmentId
  let left := st.log.filter fun item => isLeft accountId covered item.1 item.2
  let closed := (st.close accountId (fun _ => ⟨.accountRemoved, now, none, none⟩) live).closeExpired
    accountId expired
  let log := closed.log.map fun item => (item.1,
    if isLeft accountId covered item.1 item.2 then
      { item.2 with
        ending := some .accountRemoved, releasedAt := some now, expiresAt := now + holdLogRetention }
    else item.2)
  (⟨st.accounts.filter (·.1 ≠ accountId), log⟩, live.length + left.length)

/-- Drop expired holds and aged-out unreadable reports. -/
def pruneHolds (st : Store) (accountId : String) (now forgetUnreadableAfter : Instant) : Store × Nat :=
  match st.account accountId with
  | none => (st, 0)
  | some a =>
    let live := a.liveHolds now
    let reports := a.unreadableBy.filter fun report => now - report.2 ≤ forgetUnreadableAfter
    let dropped := a.holds.length - live.length
    if dropped = 0 ∧ a.unreadableBy.length = reports.length ∧ a.assigned = live.length then (st, 0)
    else
      ((st.update accountId { a.withHolds live with unreadableBy := reports }).closeExpired accountId
        (a.expiredHolds now), dropped)

def releaseAttemptHolds (st : Store) (accountId taskId attemptId : String) (now : Instant) : Store × Nat :=
  match st.account accountId with
  | none => (st, 0)
  | some a =>
    let live := a.liveHolds now
    let held := live.filter fun h => h.attemptId = some attemptId && h.taskId = some taskId
    if held.isEmpty then (st, 0)
    else
      let remaining := live.filter (· ∉ held)
      (((st.update accountId (a.withHolds remaining)).close accountId
          (fun _ => ⟨.released, now, none, none⟩) held).closeExpired accountId (a.expiredHolds now),
        held.length)

/-! ## Renewing, moving between pools, swapping -/

/-- The first hold that passes the test, given its new deadline. -/
def renewFirst (test : Hold → Bool) (expiresAt : Instant) : List Hold → Option (List Hold)
  | [] => none
  | h :: holds =>
    if test h then some ({ h with expiresAt := expiresAt } :: holds)
    else (renewFirst test expiresAt holds).map (h :: ·)

def renewVoiceHold (st : Store) (accountId assignmentId voiceSessionId : String) (now ttl : Instant) :
    Store × Option Instant :=
  match st.account accountId with
  | none => (st, none)
  | some a =>
    match renewFirst (fun h => h.assignmentId = assignmentId && isVoiceHoldOf h voiceSessionId &&
        !h.isExpired now) (now + ttl) a.holds with
    | none => (st, none)
    | some holds => (st.update accountId (a.withHolds holds), some (now + ttl))

inductive PoolsError
  | inUse (pool : String)
  | lent (workspaces : Nat)
deriving DecidableEq, Repr

def setAccountPools (st : Store) (accountId : String) (pools voiceItPeople : List String) (now : Instant) :
    Store × Except PoolsError (Option (List String × List String)) :=
  match st.account accountId with
  | none => (st, .ok none)
  | some a =>
    let before := if a.pools.isEmpty then defaultPools else a.pools
    let live := a.liveHolds now
    match before.find? fun pool => pool ∉ pools && live.any (·.pool = pool) with
    | some pool => (st, .error (.inUse pool))
    | none =>
      let lent := a.lendTo.filter fun
        | .text t => t ≠ ""
        | _ => false
      if poolWorkspace ∉ pools ∧ lent ≠ [] then (st, .error (.lent lent.length))
      else
        (st.update accountId { a with
            pools := pools, voiceItPeople := if poolVoiceIt ∈ pools then voiceItPeople else [] },
          .ok (some (before, pools)))

structure Swap where
  assignmentId : String
  tenantId : String
  taskId : String
  attemptId : String
  reason : String
  ttl : Instant

/-- `_attempt_hold`: a hold matched on all four. -/
def Swap.names (s : Swap) (h : Hold) : Bool :=
  h.assignmentId = s.assignmentId && h.tenantId = s.tenantId && h.taskId = some s.taskId &&
    h.attemptId = some s.attemptId

inductive SwapError
  | sameAccount
  | holdNotHeld (accountId : String)
deriving DecidableEq, Repr

def Swap.taken (s : Swap) (fromAccount newId : String) (now : Instant) : Hold where
  assignmentId := newId
  tenantId := s.tenantId
  expiresAt := now + s.ttl
  taskId := some s.taskId
  attemptId := some s.attemptId
  assignedAt := some now
  swappedFrom := some fromAccount
  swapReason := some s.reason

def swapHold (st : Store) (fromAccount toAccount : String) (s : Swap) (now : Instant) (newId : String) :
    Store × Except SwapError (Option (String × Nat)) :=
  if fromAccount = toAccount then (st, .error .sameAccount)
  else match st.account fromAccount with
    | none => (st, .error (.holdNotHeld fromAccount))
    | some source =>
      let live := source.liveHolds now
      match live.find? s.names with
      | none => (st, .error (.holdNotHeld fromAccount))
      | some held =>
        match st.account toAccount with
        | none => (st, .ok none)
        | some target =>
          let toLive := target.liveHolds now
          if !target.rawAssignable s.tenantId || !target.rawHasRoom toLive then (st, .ok none)
          else
            let taken := s.taken fromAccount newId now
            let unreadable := if s.reason = swapUnusable then source.unreadableBy.set s.tenantId now
              else source.unreadableBy
            let left := { source.withHolds (live.filter (·.assignmentId ≠ held.assignmentId)) with
              unreadableBy := unreadable }
            let moved := ((st.update fromAccount left).update toAccount
              { target.withHolds (toLive ++ [taken]) with lastAssignedAt := some now })
            let logged := (moved.close fromAccount
              (fun _ => ⟨.swapped, now, some toAccount, some s.reason⟩) [held]).setLog newId
                (holdLogEntry taken toAccount none)
            ((logged.closeExpired fromAccount (source.expiredHolds now)).closeExpired toAccount
              (target.expiredHolds now), .ok (some (newId, toLive.length + 1)))

/-- An operator's state change, and the holds it moves. -/
def setStateAndMoves (st : Store) (accountId : String) (state : AccountState) (reason : String)
    (now : Instant) : Option (Store × Nat) :=
  match st.account accountId with
  | none => none
  | some a =>
    let marked := (a.liveHolds now).map fun h =>
      { h with
        move := if state = .draining then some swapDrain
          else if h.move = some swapDrain then none else h.move }
    let resumed := if state = .available then { a with limitedUntil := none, limitedWindow := none } else a
    some ((st.update accountId { resumed.withHolds marked with
          state := state, reason := .text reason, stateBeforeReauth := none }).closeExpired accountId
        (a.expiredHolds now),
      (marked.filter (·.move = some swapDrain)).length)

end Store

end SwarmCloud.Accounts
