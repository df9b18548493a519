import SwarmCloud.Common.Pools
import SwarmCloud.Lib.Sorting
import Mathlib.Data.Finset.Basic
import Mathlib.Data.Prod.Lex
import Mathlib.Data.String.Basic

/-! # The merge slot's transitions

The pure functions of `swarm_api/attemptstate.py` over one slot document. A
transition that returns no document writes nothing. The set `ended` is what
the caller read before its transaction, so nothing is assumed of it.
-/

namespace SwarmCloud.MergeSlot

open Common Lib

def mergeSlotLeaseSeconds : Int := 45 * 60
def mergeSlotWaiterStaleSeconds : Int := 2 * mergeSlotLeaseSeconds
def mergeSlotMaxWaiters : Nat := 500

structure Claimant where
  taskId : String
  attemptId : String
  submittedAt : Instant
deriving DecidableEq, Repr

inductive GrantedBy
  | acquire
  | handoff
deriving DecidableEq, Repr

structure SlotHolder where
  taskId : String
  attemptId : Option String
  submittedAt : Instant
  generation : Option Int
  grantedAt : Instant
  grantedBy : GrantedBy
  renewedAt : Instant
  expiresAt : Option Instant
  updatesAtAcquire : Option Int
deriving DecidableEq, Repr

structure SlotWaiter where
  taskId : String
  submittedAt : Instant
  seenAt : Option Instant
  queuedAt : Option Instant
deriving DecidableEq, Repr

structure SlotRelease where
  taskId : String
  generation : Option Int
  reason : String
  releasedAt : Instant
  releasedBy : String
  handedTo : Option String := none
deriving DecidableEq, Repr

structure SlotDoc where
  tenantId : String
  repository : String
  base : String
  generation : Option Int
  holder : Option SlotHolder
  waiters : List SlotWaiter
  lastRelease : Option SlotRelease
  updatedAt : Option Instant
deriving DecidableEq, Repr

/-- `_count`: a value that is not a non-negative integer counts as 0. -/
def count : Option Int → Int
  | some n => if 0 ≤ n then n else 0
  | none => 0

/-- `_order`: timestamps first, then task ids by code point. -/
def order (w : SlotWaiter) : Instant ×ₗ String := toLex (w.submittedAt, w.taskId)

def holderExpired (h : SlotHolder) (now : Instant) : Bool :=
  match h.expiresAt with
  | none => true
  | some expires => decide (expires ≤ now)

def grant (entry : SlotWaiter) (generation : Int) (now : Instant) (how : GrantedBy)
    (attemptId : Option String) (updates : Option Int) : SlotHolder where
  taskId := entry.taskId
  attemptId := attemptId
  submittedAt := entry.submittedAt
  generation := some generation
  grantedAt := now
  grantedBy := how
  renewedAt := now
  expiresAt := some (now + seconds mergeSlotLeaseSeconds)
  updatesAtAcquire := updates

/-- Last seen longer ago than the stale bound. An entry without `seen_at` never is. -/
def isStale (now : Instant) (w : SlotWaiter) : Bool :=
  match w.seenAt with
  | none => false
  | some seen => decide (seen < now - seconds mergeSlotWaiterStaleSeconds)

def isLive (now : Instant) (ended : Finset String) (drop : String) (w : SlotWaiter) : Bool :=
  decide (w.taskId ≠ drop ∧ w.taskId ∉ ended) && !isStale now w

def liveWaiters (doc : SlotDoc) (now : Instant) (ended : Finset String) (drop : String) :
    List SlotWaiter :=
  sortBy order (doc.waiters.filter (isLive now ended drop))

def renewedHolder (h : SlotHolder) (me : Claimant) (now : Instant) (updates : Option Int) :
    SlotHolder :=
  { h with
    attemptId := some me.attemptId
    renewedAt := now
    expiresAt := some (now + seconds mergeSlotLeaseSeconds)
    updatesAtAcquire := h.updatesAtAcquire <|> updates }

/-- `_renewed`: the document with its holder's lease extended. -/
def renewed (doc : SlotDoc) (h : SlotHolder) (me : Claimant) (now : Instant)
    (updates : Option Int) : SlotDoc :=
  { doc with holder := some (renewedHolder h me now updates), updatedAt := some now }

structure Held where
  generation : Int
  updatesAtAcquire : Int
deriving DecidableEq, Repr

/-- `_held`: what a holder is told. -/
def heldOf (h : SlotHolder) : Held := ⟨count h.generation, count h.updatesAtAcquire⟩

structure Waiting where
  holder : String
  position : Nat
  waiters : Nat
  wake : Option String
deriving DecidableEq, Repr

inductive AcquireAnswer
  | held (h : Held)
  | waiting (w : Waiting)
deriving DecidableEq, Repr

/-- The place of a task in a queue counted from 1, or `absent` when it was cut off. -/
def positionOf (taskId : String) (queue : List SlotWaiter) (absent : Nat) : Nat :=
  match queue.findIdx? fun w => w.taskId = taskId with
  | some i => i + 1
  | none => absent

structure SlotNames where
  tenantId : String
  repository : String
  base : String
deriving DecidableEq, Repr

/-- The document an acquire works on: the stored one under the caller's names,
with its generation counted. -/
def named (doc : Option SlotDoc) (names : SlotNames) : SlotDoc where
  tenantId := names.tenantId
  repository := names.repository
  base := names.base
  generation := some (count (doc.bind SlotDoc.generation))
  holder := doc.bind SlotDoc.holder
  waiters := doc.elim [] SlotDoc.waiters
  lastRelease := doc.bind SlotDoc.lastRelease
  updatedAt := doc.bind SlotDoc.updatedAt

/-- The caller's own entry, which keeps the `queued_at` of the entry it replaces. -/
def ownEntry (doc : SlotDoc) (me : Claimant) (now : Instant) : SlotWaiter where
  taskId := me.taskId
  submittedAt := me.submittedAt
  seenAt := some now
  queuedAt :=
    let previous := doc.waiters.find? fun w => w.taskId = me.taskId
    some ((previous.bind SlotWaiter.queuedAt).getD now)

/-- Whether an acquire may take the slot from its holder. -/
def isFree (holder : Option SlotHolder) (now : Instant) (ended : Finset String) : Bool :=
  match holder with
  | none => true
  | some h => holderExpired h now || decide (h.taskId ∈ ended)

def takenFrom (holder : Option SlotHolder) (me : Claimant) (now : Instant)
    (ended : Finset String) (before : Option SlotRelease) : Option SlotRelease :=
  match holder with
  | none => before
  | some h => some
      { taskId := h.taskId
        generation := h.generation
        reason := if h.taskId ∈ ended then "ended" else "expired"
        releasedAt := now
        releasedBy := me.taskId }

/-- The slot goes to the head of the queue: `slot_acquire` on a free slot. -/
def acquireFree (out : SlotDoc) (me : Claimant) (now : Instant) (updates : Int)
    (ended : Finset String) : SlotDoc × AcquireAnswer :=
  let mine := ownEntry out me now
  let queue := sortBy order (liveWaiters out now ended me.taskId ++ [mine])
  let first := queue.headD mine
  let generation := count out.generation + 1
  let rest := queue.tail.take mergeSlotMaxWaiters
  let out := { out with
    lastRelease := takenFrom out.holder me now ended out.lastRelease
    generation := some generation
    waiters := rest
    updatedAt := some now }
  if first.taskId = me.taskId then
    ({ out with
        holder := some (grant mine generation now .acquire (some me.attemptId) (some updates)) },
      .held ⟨generation, updates⟩)
  else
    ({ out with holder := some (grant first generation now .handoff none none) },
      .waiting
        { holder := first.taskId
          position := positionOf me.taskId rest rest.length
          waiters := rest.length
          wake := some first.taskId })

/-- The caller joins the queue behind a live holder: `slot_acquire` on a taken slot. -/
def acquireTaken (out : SlotDoc) (h : SlotHolder) (me : Claimant) (now : Instant)
    (ended : Finset String) : SlotDoc × AcquireAnswer :=
  let mine := ownEntry out me now
  let queue := (sortBy order (liveWaiters out now ended me.taskId ++ [mine])).take
    mergeSlotMaxWaiters
  ({ out with waiters := queue },
    .waiting
      { holder := h.taskId
        position := positionOf me.taskId queue (queue.length + 1)
        waiters := queue.length
        wake := none })

def slotAcquire (doc : Option SlotDoc) (me : Claimant) (names : SlotNames) (now : Instant)
    (updates : Int) (ended : Finset String) : SlotDoc × AcquireAnswer :=
  let out := named doc names
  match out.holder with
  | none => acquireFree out me now updates ended
  | some h =>
    if h.taskId = me.taskId then
      let out := renewed out h me now (some updates)
      ({ out with waiters := liveWaiters out now ended me.taskId },
        .held (heldOf (renewedHolder h me now (some updates))))
    else if isFree (some h) now ended then acquireFree out me now updates ended
    else acquireTaken out h me now ended

/-- `slot_renew`: extend the lease if this step holds the slot. -/
def slotRenew (doc : Option SlotDoc) (me : Claimant) (now : Instant) (updates : Option Int) :
    Option (SlotDoc × Held) :=
  match doc with
  | none => none
  | some doc =>
    match doc.holder with
    | none => none
    | some h =>
      if h.taskId = me.taskId then
        some (renewed doc h me now updates, heldOf (renewedHolder h me now updates))
      else none

/-- Whether the caller holds the slot at the generation it names, if it names one. -/
def holdsAt (doc : SlotDoc) (me : Claimant) (generation : Option Int) : Option SlotHolder :=
  doc.holder.filter fun h =>
    h.taskId = me.taskId ∧ generation.all fun g => count h.generation = g

/-- `slot_release`: give the slot up and leave the queue; who it went to. -/
def slotRelease (doc : Option SlotDoc) (me : Claimant) (now : Instant) (reason : String)
    (ended : Finset String) (generation : Option Int) : Option (SlotDoc × Option String) :=
  match doc with
  | none => none
  | some doc =>
    let listed := doc.waiters.any fun w => w.taskId = me.taskId
    let waiters := liveWaiters doc now ended me.taskId
    let out := { doc with waiters := waiters, updatedAt := some now }
    match holdsAt doc me generation with
    | none => if listed then some (out, none) else none
    | some h =>
      let last : SlotRelease :=
        { taskId := me.taskId, generation := h.generation, reason := reason,
          releasedAt := now, releasedBy := me.taskId }
      match waiters with
      | [] => some ({ out with holder := none, lastRelease := some last }, none)
      | first :: rest =>
        let generation := count doc.generation + 1
        some
          ({ out with
              generation := some generation
              holder := some (grant first generation now .handoff none none)
              waiters := rest
              lastRelease := some { last with handedTo := some first.taskId } },
            some first.taskId)

end SwarmCloud.MergeSlot
