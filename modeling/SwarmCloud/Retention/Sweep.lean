import SwarmCloud.Lib.Dict
import SwarmCloud.Lib.Runs
import SwarmCloud.Lib.Sorting
import SwarmCloud.Retention.Keys
import Mathlib.Data.Prod.Lex
import Mathlib.Data.String.Basic

/-! # The sweep over the bucket

`CheckpointCollector`: list the bucket, group the keys by checkpoint and the
checkpoints by task, read each task, and delete what the decision and the
backstop let go. The pass keeps every key that was handed to `delete`, also when
a call raises and ends it.
-/

namespace SwarmCloud.Retention

open Common Lib

/-- What the store answers. `downloadBytes` gives the bytes as `manifest_age_seconds` reads them: the instant of
`created_at`, if there is a usable one. -/
structure CheckpointStore where
  listKeys : Except String (List String)
  downloadBytes : String → Except String (Option Instant)
  createdAt : String → Except String (Option Instant)

structure ReconcilerConfig where
  checkpointOrphanBackstopSeconds : Int
  checkpointScanLimit : Int
  dryRun : Bool

/-- `taskAndAttempts tenant task` is what the read of `task` answers in the turn of that tenant's group. -/
structure CheckpointCollector where
  taskAndAttempts : String → String → Except String (Option TaskView × List AttemptView)
  objects : CheckpointStore
  config : ReconcilerConfig

structure CheckpointOutcome where
  kind : String
  reason : String
  keyPrefix : String
  tenantId : String
  taskId : String
  deleted : Bool := false
  objectsDeleted : Nat := 0
  skipped : Option String := none
deriving DecidableEq, Repr

structure SweepReport where
  ran : Bool := true
  keysListed : Nat := 0
  checkpointsExamined : Nat := 0
  kept : Nat := 0
  reclaimable : Nat := 0
  reclaimed : Nat := 0
  truncated : Bool := false
  outcomes : List CheckpointOutcome := []
  errors : List String := []
deriving DecidableEq, Repr

/-- A pass so far: its report, the keys handed to `delete`, and what a call raised. -/
structure Pass where
  report : SweepReport := {}
  deletes : List String := []
  raised : Option String := none
deriving DecidableEq, Repr

/-! ## The backstop -/

/-- The loop of `_hold_by_object_age`. -/
def newestObject (objects : CheckpointStore) : Option Instant → List String → Except String (Option Instant)
  | newest, [] => .ok newest
  | newest, key :: rest =>
    match objects.createdAt key with
    | .error exc => .error s!"no manifest, and {key} could not be dated: {exc}"
    | .ok none => .error s!"no manifest, and {key} has no creation time"
    | .ok (some stamp) => newestObject objects (some (newest.elim stamp (max stamp))) rest

def holdByObjectAge (c : CheckpointCollector) (keys : List String) (now : Instant) : Option String :=
  match newestObject c.objects none keys with
  | .error held => some held
  | .ok none => some "no manifest and no objects to date"
  | .ok (some newest) =>
    if now - newest < seconds c.config.checkpointOrphanBackstopSeconds then
      some (s!"no manifest; newest object only {(now - newest).tdiv 1000000}s old; " ++
        s!"backstop is {c.config.checkpointOrphanBackstopSeconds}s")
    else none

def backstopHold (c : CheckpointCollector) (ref : CheckpointRef) (keys : List String) (now : Instant) :
    Option String :=
  if ref.manifestKey ∉ keys then holdByObjectAge c keys now
  else
    match c.objects.downloadBytes ref.manifestKey with
    | .error exc => some s!"manifest unreadable: {exc}"
    | .ok none => some "manifest has no usable created_at"
    | .ok (some stamp) =>
      if now - stamp < seconds c.config.checkpointOrphanBackstopSeconds then
        some (s!"unreferenced, but only {(now - stamp).tdiv 1000000}s old; " ++
          s!"backstop is {c.config.checkpointOrphanBackstopSeconds}s")
      else none

/-! ## One checkpoint -/

/-- Manifest first. -/
def deleteOrder (ref : CheckpointRef) (keys : List String) : List String :=
  (if ref.manifestKey ∈ keys then [ref.manifestKey] else []) ++ sortBy id (keys.filter (· ≠ ref.manifestKey))

/-- The calls of `_delete`, up to one that raises. -/
def deleteKeys (delete : String → Except String Unit) : List String → List String × Option String
  | [] => ([], none)
  | key :: rest =>
    match delete key with
    | .error exc => ([key], some exc)
    | .ok () => (key :: (deleteKeys delete rest).1, (deleteKeys delete rest).2)

/-- What `_act` came to: an ordinary keep, an outcome with the calls it made, or a call that raised. -/
inductive Acted
  | kept
  | outcome (row : CheckpointOutcome) (deletes : List String)
  | raised (deletes : List String) (exc : String)
deriving DecidableEq, Repr

def Acted.deletes : Acted → List String
  | kept => []
  | outcome _ deletes => deletes
  | raised deletes _ => deletes

section Act

variable (c : CheckpointCollector) (delete : String → Except String Unit) (now : Instant)

def collect (ref : CheckpointRef) (keys : List String) (row : CheckpointOutcome) : Acted :=
  if c.config.dryRun then .outcome { row with skipped := some "dry_run" } []
  else
    match deleteKeys delete (deleteOrder ref keys) with
    | (deletes, some exc) => .raised deletes exc
    | (deletes, none) => .outcome { row with deleted := true, objectsDeleted := deletes.length } deletes

def act (ref : CheckpointRef) (keys : List String) (task : Option TaskView) (attempts : List AttemptView) : Acted :=
  let decision := classify ref task attempts
  let row : CheckpointOutcome :=
    { kind := "reclaimable_checkpoint", reason := decision.reason, keyPrefix := ref.keyPrefix,
      tenantId := ref.tenantId, taskId := ref.taskId }
  match decision.disposition with
  | .keep => .kept
  | .reclaim => collect c delete ref keys row
  | .backstop =>
    match backstopHold c ref keys now with
    | some held => .outcome { row with kind := "orphan_checkpoint", skipped := some held } []
    | none => collect c delete ref keys { row with kind := "orphan_checkpoint" }

/-! ## The loops -/

/-- The keys of each checkpoint, and the checkpoint of each path. -/
structure Scan where
  byPrefix : Dict String (List String)
  refs : Dict String CheckpointRef

/-- `keys[:limit]` where the listing is longer than the limit. -/
def scanKeys (limit : Int) (listed : List String) : List String :=
  let keys := sortBy id listed
  if limit < keys.length then keys.take (if limit < 0 then (keys.length + limit).toNat else limit.toNat) else keys

def parsedKeys (keys : List String) : List (CheckpointRef × String) :=
  keys.filterMap fun key => (parseCheckpointKey key).map fun ref => (ref, key)

def scanAll (keys : List String) : Scan where
  byPrefix := Dict.grouped (fun item => item.1.keyPrefix) Prod.snd (parsedKeys keys)
  refs := Dict.filled (fun item => item.1.keyPrefix) Prod.fst (parsedKeys keys)

/-- The last group of a listing that was cut is left to the next sweep. -/
def Scan.dropLast (scan : Scan) : Scan :=
  match (scan.byPrefix.map Prod.fst).max? with
  | none => scan
  | some last =>
    { byPrefix := scan.byPrefix.filter (·.1 ≠ last), refs := scan.refs.filter (·.1 ≠ last) }

def scan (limit : Int) (listed : List String) : Scan :=
  let all := scanAll (scanKeys limit listed)
  if limit < listed.length then all.dropLast else all

def byTask (s : Scan) : Dict (String × String) (List String) :=
  Dict.grouped (fun item : String × CheckpointRef => (item.2.tenantId, item.2.taskId)) Prod.fst s.refs

/-- The report after one outcome. -/
def SweepReport.add (report : SweepReport) (row : CheckpointOutcome) : SweepReport :=
  let report := { report with outcomes := report.outcomes ++ [row] }
  if row.skipped.any (· ≠ "dry_run") then { report with kept := report.kept + 1 }
  else
    { report with
      reclaimable := report.reclaimable + 1
      reclaimed := if row.deleted then report.reclaimed + 1 else report.reclaimed }

def examine (s : Scan) (task : Option TaskView) (attempts : List AttemptView) (pass : Pass) (path : String) : Pass :=
  match pass.raised, s.refs.lookup path, s.byPrefix.lookup path with
  | none, some ref, some keys =>
    let report := { pass.report with checkpointsExamined := pass.report.checkpointsExamined + 1 }
    match act c delete now ref keys task attempts with
    | .kept => { pass with report := { report with kept := report.kept + 1 } }
    | .outcome row deletes => { pass with report := report.add row, deletes := pass.deletes ++ deletes }
    | .raised deletes exc => { report, deletes := pass.deletes ++ deletes, raised := some exc }
  | _, _, _ => pass

def sweepTask (s : Scan) (pass : Pass) (item : (String × String) × List String) : Pass :=
  match pass.raised with
  | some _ => pass
  | none =>
    match c.taskAndAttempts item.1.1 item.1.2 with
    | .error exc =>
      { pass with report := { pass.report with errors := pass.report.errors ++ [s!"task {item.1.2}: {exc}"] } }
    | .ok (task, attempts) => (sortBy id item.2).foldl (examine c delete now s task attempts) pass

def sweep : Pass :=
  match c.objects.listKeys with
  | .error exc => { report := { ran := false, errors := [s!"listing {tenantsRoot}: {exc}"] } }
  | .ok listed =>
    let s := scan c.config.checkpointScanLimit listed
    (sortBy (fun item => toLex item.1) (byTask s)).foldl (sweepTask c delete now s)
      { report := { keysListed := listed.length, truncated := c.config.checkpointScanLimit < listed.length } }

end Act

end SwarmCloud.Retention
