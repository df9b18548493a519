import SwarmCloud.Common.Pools
import SwarmCloud.Lib.Sorting
import Mathlib.Data.Prod.Lex
import Mathlib.Data.String.Basic
import Mathlib.Order.OrderDual

/-! # Keyset pages

`Store._keyset_page` of `swarm_api/store.py`, generic in the row it decodes. The
queries it makes are answered by a `Backend`; what the answers may be is said
apart from what the page makes of them. The text of a token (JSON in base64) is
left out: a token is the record inside it.
-/

namespace SwarmCloud.Paging

open Common Lib

def tieReadLimit : Nat := 1000

inductive PageError
  | unpageable (instant : Instant)
  | notACursor
  | differentListing (scope : String)
  | differentOrder (order : String)
deriving DecidableEq, Repr

structure KeysetCursor where
  instant : Instant
  docId : String
deriving DecidableEq, Repr

structure KeysetToken where
  version : Int
  scope : String
  order : String
  instant : Instant
  docId : String
deriving DecidableEq, Repr

def encodeKeyset (scope order : String) (instant : Instant) (docId : String) : KeysetToken :=
  ⟨1, scope, order, instant, docId⟩

def decodeKeyset (token : KeysetToken) (scope order : String) : Except PageError KeysetCursor :=
  if token.version ≠ 1 ∨ token.docId = "" then .error .notACursor
  else if token.scope ≠ scope then .error (.differentListing token.scope)
  else if token.order ≠ order then .error (.differentOrder token.order)
  else .ok ⟨token.instant, token.docId⟩

/-- One listing: its page size, direction, bounds and scope. -/
structure Listing where
  limit : Nat
  descending : Bool
  lower : Option Instant
  upper : Option Instant
  scope : String
deriving DecidableEq, Repr

def Listing.order (q : Listing) : String := if q.descending then "desc" else "asc"

/-- What the queries of one page return: the window, and the run at an instant. -/
structure Backend (ρ : Type) where
  window : List ρ
  sameInstant : Instant → List ρ

structure Page (ρ : Type) where
  items : List ρ
  nextPageToken : Option KeysetToken

section Model

variable {ρ : Type} (key : ρ → Instant × String)

/-- `_same_instant`: a run longer than the limit cannot be ordered by id. -/
def sameInstant (backend : Backend ρ) (instant : Instant) : Except PageError (List ρ) :=
  if tieReadLimit < (backend.sameInstant instant).length then .error (.unpageable instant)
  else .ok (backend.sameInstant instant)

/-- The run at the cursor's own instant, which the window starts past. -/
def cursorRun (backend : Backend ρ) (after : Option KeysetCursor) : Except PageError (List ρ) :=
  match after with
  | none => .ok []
  | some cursor => sameInstant backend cursor.instant

def rank (row : ρ) : Instant ×ₗ String := toLex (key row)

def KeysetCursor.mark (after : KeysetCursor) : Instant ×ₗ String := toLex (after.instant, after.docId)

def Listing.withinBounds (q : Listing) (instant : Instant) : Bool :=
  !(q.lower.any fun lower => decide (instant < lower)) &&
    !(q.upper.any fun upper => decide (upper ≤ instant))

def inside (q : Listing) (after : Option KeysetCursor) (row : ρ) : Bool :=
  q.withinBounds (key row).1 &&
    match after with
    | none => true
    | some after =>
        if q.descending then decide (rank key row < after.mark)
        else decide (after.mark < rank key row)

/-- `found.setdefault`: a row whose id is there already is not added. -/
def keepRow (q : Listing) (after : Option KeysetCursor) (found : List ρ) (row : ρ) : List ρ :=
  if inside key q after row ∧ (key row).2 ∉ found.map fun r => (key r).2 then found ++ [row]
  else found

def keep (q : Listing) (after : Option KeysetCursor) (found rows : List ρ) : List ρ :=
  rows.foldl (keepRow key q after) found

def sortRows (q : Listing) (rows : List ρ) : List ρ :=
  if q.descending then sortBy (fun row => OrderDual.toDual (rank key row)) rows
  else sortBy (rank key) rows

/-- The instant at the window's far edge. -/
def edgeOf (q : Listing) (window : List ρ) : Option Instant :=
  let edges := window.map fun row => (key row).1
  if q.descending then edges.min? else edges.max?

/-- `rows` with the run at the window's edge read whole, when the page ends in it. -/
def completeEdge (q : Listing) (after : Option KeysetCursor) (backend : Backend ρ)
    (found : List ρ) : Except PageError (List ρ) :=
  if q.limit < backend.window.length then
    match (sortRows key q found)[q.limit - 1]?, edgeOf key q backend.window with
    | some last, some edge =>
      if (key last).1 = edge then do
        let run ← sameInstant backend edge
        .ok (keep key q after found run)
      else .ok found
    | _, _ => .ok found
  else .ok found

def pageOf (q : Listing) (rows : List ρ) : Page ρ where
  items := rows.take q.limit
  nextPageToken :=
    if q.limit < rows.length then
      (rows.take q.limit).getLast?.map fun last =>
        encodeKeyset q.scope q.order (key last).1 (key last).2
    else none

def keysetPage (q : Listing) (after : Option KeysetCursor) (backend : Backend ρ) :
    Except PageError (Page ρ) := do
  let run ← cursorRun backend after
  let found ← completeEdge key q after backend
    (keep key q after (keep key q after [] run) backend.window)
  .ok (pageOf key q (sortRows key q found))

end Model

end SwarmCloud.Paging
