import Mathlib.Data.List.DropRight
import SwarmCloud.Lib.Triples
import SwarmCloud.Quota.Broker

/-! # The upgrade

`swarm_install/upgrade.py` and `migrations`: the steps of an upgrade in their order, the
stop and the roll back of a step that fails, and the progress in the install state
that the next run resumes from. A run ends at any call, with whatever the call raises
or because the process is gone; what it had written stays.
-/

namespace SwarmCloud.Upgrade

inductive UpgradeStep
  | appPermissions
  | drain
  | copyImages
  | migrationsAdditive
  | bootstrap
  | policiesAdmit
  | infra
  | policiesTighten
  | migrationsNewCode
  | namespaces
  | verify
  | migrationsCleanup
  | resume
deriving DecidableEq, Repr

open UpgradeStep in
def order : List UpgradeStep :=
  [appPermissions, drain, copyImages, migrationsAdditive, bootstrap, policiesAdmit, infra, policiesTighten,
    migrationsNewCode, namespaces, verify, migrationsCleanup, resume]

def rolledBack : List UpgradeStep := [.infra, .verify]

def UpgradeStep.name : UpgradeStep → String
  | appPermissions => "app-permissions"
  | drain => "drain"
  | copyImages => "copy-images"
  | migrationsAdditive => "migrations-additive"
  | bootstrap => "bootstrap"
  | policiesAdmit => "policies-admit"
  | infra => "infra"
  | policiesTighten => "policies-tighten"
  | migrationsNewCode => "migrations-new-code"
  | namespaces => "namespaces"
  | verify => "verify"
  | migrationsCleanup => "migrations-cleanup"
  | resume => "resume-dispatch"

inductive Phase
  | additive
  | needsNewCode
  | removesData
deriving DecidableEq, Repr

structure Migration where
  number : Nat
  name : String
  phase : Phase
deriving DecidableEq, Repr

structure Outcome where
  changed : Nat
  refused : Nat
  detail : String

inductive Exc
  | waitGaveUp (message : String)
  | upgradeRefused (message : String)
  | keyboardInterrupt
  | upgradeFailed (message : String)
  | migrationFailed (number : Nat) (name why : String)
  | other (text : String)
  /-- The process is gone. -/
  | killed
deriving Repr

/-- `key` of `migrations` -/
def key (number : Nat) : String := "".pushn '0' (4 - (toString number).length) ++ toString number

/-- `str(exc)` -/
def Exc.text : Exc → String
  | waitGaveUp message | upgradeRefused message | upgradeFailed message | other message => message
  | migrationFailed number name why => "migration " ++ key number ++ " " ++ name ++ ": " ++ why
  | keyboardInterrupt | killed => ""

/-- `outputs["upgrade"]` -/
structure Progress where
  started : String
  target : String
  done : List UpgradeStep := []
  failed : Option UpgradeStep := none
  rolledBackTo : Option String := none
  finished : Option String := none
deriving Repr

/-- What the install state has of upgrades. -/
structure Stored where
  release : String
  upgrade : Option Progress := none
  previousRelease : Option String := none
  /-- The numbers in `outputs["firestore_migrations"]`. -/
  migrations : List Nat := []
deriving Repr

/-- A document of the rendered policies, by its kind and name. -/
structure Policy where
  kind : String
  name : String
  document : String
deriving DecidableEq, Repr

def Policy.key (policy : Policy) : String × String := (policy.kind, policy.name)

/-- A call that changes the deployment, the roll out of infra and migrations apart. -/
inductive Act
  | copyImages (release : String)
  | applyBootstrap (release : String)
  | deletePolicies (documents : List (String × String))
  | applyPolicies (rendered : List Policy)
  | patchLogMetric (address : String)
  | applyNamespace (tenant : String)
deriving DecidableEq, Repr

inductive Event
  /-- A new upgrade is in the state, nothing of it done. -/
  | opened (target : String)
  /-- `pause_dispatch` has come back. -/
  | paused
  /-- `resume_dispatch` is called. -/
  | resuming
  | acted (act : Act)
  /-- `apply_root("infra", release)` is called. -/
  | applying (release : String)
  /-- A migration is applied, in an upgrade to `target`. -/
  | migrating (target : String) (migration : Migration)
  | recorded (number : Nat)
  /-- A write puts a state in place that does not have the record. -/
  | forgotten (number : Nat)
  /-- The platform checks have come back green. -/
  | green (target : String)
  | rollingBack (release : String)
  /-- The roll back is in the state. -/
  | rolledBack (release : String)
  | finished (target : String)
deriving DecidableEq, Repr

/-! ## Versions -/

/-- A part that is not a number counts as none. -/
def versionPart (part : List Char) : Nat :=
  if part ≠ [] ∧ part.all Char.isDigit then part.foldl (fun n c => 10 * n + (c.toNat - '0'.toNat)) 0 else 0

/-- `version_key`: a release comes after its candidates. -/
def versionKey (version : String) : List Nat × Nat × List Nat :=
  let bare := version.toList.dropWhile (· = 'v')
  let numbers := ((bare.takeWhile (· ≠ '-')).splitOn '.').map versionPart
  let pre := (bare.dropWhile (· ≠ '-')).drop 1
  if pre = [] then (numbers, 1, []) else (numbers, 0, (pre.splitOnP fun c => c = '.' || c = '-').map versionPart)

/-- `version_key(a) < version_key(b)` -/
def older (a b : String) : Bool :=
  let (numbers, released, pre) := versionKey a
  let (numbers', released', pre') := versionKey b
  numbers < numbers' || numbers = numbers' && (released < released' || released = released' && pre < pre')

/-! ## The world -/

/-- `UpgradePlan`, as far as `gate` and the steps read it. -/
structure Plan where
  previous : String
  target : String
  policyDelete : List (String × String)
  policyAdmit : List (String × String)
  /-- A line for each IAM change. -/
  iam : List String

/-- How `store.update` goes: it has written, or raises before the write or after it. -/
inductive Saved
  | written
  | raised (exc : Exc) (written : Bool)
  /-- It raises when `_generation` is that of the write and `_state` is still what it was. -/
  | cut (exc : Exc)

abbrev Call (σ α : Type) := σ → Except Exc α × σ

structure Services (σ : Type) where
  load : Call σ Unit
  save : σ → Saved × σ
  project : String
  confirmPlan : Bool
  /-- `plan` and `show`. -/
  plan : String → String → Call σ Plan
  confirm : String → Call σ String
  pauseDispatch : Call σ Unit
  /-- The wait for the running work. -/
  drained : Call σ Unit
  resumeDispatch : Call σ Unit
  appPermissions : String → Call σ Unit
  /-- `fetch` and `parse_images_json`. -/
  images : String → Call σ Unit
  act : Act → Call σ Unit
  policies : String → Call σ (List Policy)
  /-- `replaced_metrics` of infra's plan. -/
  replacedMetrics : String → Call σ (List String)
  applyInfra : String → Call σ Unit
  tenants : Call σ (List String)
  /-- Name, status and detail. -/
  checks : Call σ (List (String × String × String))
  migrations : List Migration
  /-- `discover` refuses any other numbers. -/
  numbered : migrations.map Migration.number = List.range' 1 migrations.length
  apply : Migration → Call σ Outcome
  pending : Migration → Call σ (List String)

structure Machine (σ : Type) where
  world : σ
  state : Stored
  events : List Event := []
  /-- `_state` of a store whose last write was cut: what the next write of the process is made on. -/
  copy : Option Stored := none

abbrev Upgrading (σ : Type) := EStateM Exc (Machine σ)

section Steps

variable {σ α : Type} (services : Services σ)

def ask (f : Call σ α) : Upgrading σ α := fun m =>
  match f m.world with
  | (.ok a, world) => .ok a { m with world }
  | (.error exc, world) => .error exc { m with world }

def note (event : Event) : Upgrading σ PUnit := modify fun m => { m with events := m.events ++ [event] }

/-- `store.load` -/
def reload : Upgrading σ PUnit := do
  ask services.load
  modify fun m => { m with copy := none }

/-- What the store takes for the state. -/
def Machine.base (m : Machine σ) : Stored := m.copy.getD m.state

/-- A write of the state. -/
def Machine.wrote (m : Machine σ) (change : Stored → Stored) (noted : List Event) (world : σ) (copy : Option Stored) :
    Machine σ where
  world
  state := change m.base
  events := m.events ++ (m.state.migrations.filter (· ∉ m.base.migrations)).map .forgotten ++ noted
  copy

/-- `store.update`, with what the write is noted as. -/
def update (change : Stored → Stored) (noted : List Event) : Upgrading σ PUnit := fun m =>
  match services.save m.world with
  | (.written, world) => .ok ⟨⟩ (m.wrote change noted world none)
  -- The next update finds another generation than its own, and loads.
  | (.raised exc true, world) => .error exc (m.wrote change noted world none)
  | (.raised exc false, world) => .error exc { m with world }
  | (.cut exc, world) => .error exc (m.wrote change noted world (some m.base))

def saveProgress (change : Progress → Progress) (noted : List Event) : Upgrading σ PUnit :=
  update services (fun s => { s with upgrade := s.upgrade.map change }) noted

def act (what : Act) : Upgrading σ PUnit := do
  note (.acted what)
  ask (services.act what)

def applyInfra (release : String) : Upgrading σ PUnit := do
  note (.applying release)
  ask (services.applyInfra release)

def resumeDispatch : Upgrading σ PUnit := do
  note .resuming
  ask services.resumeDispatch

/-- `record_into`: a record is kept as it is. -/
def recordInto (number : Nat) (s : Stored) : Stored :=
  if number ∈ s.migrations then s else { s with migrations := s.migrations ++ [number] }

def stillUnmigrated (left : List String) (outcome : Outcome) : String :=
  toString left.length ++ " documents are still unmigrated (" ++ ", ".intercalate (left.take 5) ++
    (if 5 < left.length then ", ..." else "") ++ "); " ++ toString outcome.refused ++
    " changed since they were read. Nothing is recorded; run swarm upgrade again to resume here"

def migrateOne (target : String) (migration : Migration) : Upgrading σ PUnit := do
  note (.migrating target migration)
  let outcome ← ask (services.apply migration)
  let left ← ask (services.pending migration)
  if left ≠ [] then throw (.migrationFailed migration.number migration.name (stillUnmigrated left outcome))
  else update services (recordInto migration.number) [.recorded migration.number]

/-- `run_phase`; the migrations are in the order of their numbers. -/
def migrate (phase : Phase) (target : String) : Upgrading σ PUnit := do
  reload services
  let m ← get
  services.migrations.forM fun migration =>
    if migration.phase ≠ phase ∨ migration.number ∈ m.state.migrations then pure ⟨⟩
    else migrateOne services target migration

def drain : Upgrading σ PUnit := do
  ask services.pauseDispatch
  note .paused
  ask services.drained

def copyImages (release : String) : Upgrading σ PUnit := do
  ask (services.images release)
  act services (.copyImages release)

/-- `_subset`: a key that is not there is a `KeyError`. -/
def subset (rendered : List Policy) (wanted : List (String × String)) : Except Exc (List Policy) :=
  wanted.mapM fun k => match rendered.reverse.find? (·.key = k) with
    | some policy => .ok policy
    | none => .error (.other ("('" ++ k.1 ++ "', '" ++ k.2 ++ "')"))

def policiesAdmit (plan : Plan) : Upgrading σ PUnit := do
  let rendered ← ask (services.policies plan.target)
  (if plan.policyDelete ≠ [] then act services (.deletePolicies plan.policyDelete) else pure ⟨⟩)
  if plan.policyAdmit = [] then pure ⟨⟩
  else match subset rendered plan.policyAdmit with
    | .ok policies => act services (.applyPolicies policies)
    | .error exc => throw exc

def rollOut (target : String) : Upgrading σ PUnit := do
  let metrics ← ask (services.replacedMetrics target)
  if metrics = [] then applyInfra services target
  else do
    metrics.forM fun address => act services (.patchLogMetric address)
    let still ← ask (services.replacedMetrics target)
    if still ≠ [] then
      throw (.upgradeFailed ("infra would still replace " ++ ", ".intercalate still ++
        " after the live label change; GCP refuses to delete a metric an alert uses"))
    else applyInfra services target

def tighten (target : String) : Upgrading σ PUnit := do
  let rendered ← ask (services.policies target)
  act services (.applyPolicies rendered)

def namespaces : Upgrading σ PUnit := do
  let tenants ← ask services.tenants
  tenants.forM fun tenant => act services (.applyNamespace tenant)

def verify (target : String) : Upgrading σ PUnit := do
  let results ← ask services.checks
  let bad := (results.filter fun r => r.2.1 ≠ "met").map fun r => r.1 ++ ": " ++ r.2.1 ++ " (" ++ r.2.2 ++ ")"
  if results = [] ∨ bad ≠ [] then
    throw (.upgradeFailed ("the platform checks are not green: " ++
      if bad = [] then "none ran" else "; ".intercalate bad))
  else note (.green target)

/-- `_step` -/
def step (plan : Plan) : UpgradeStep → Upgrading σ PUnit
  | .appPermissions => ask (services.appPermissions plan.target)
  | .drain => drain services
  | .copyImages => copyImages services plan.target
  | .migrationsAdditive => migrate services .additive plan.target
  | .bootstrap => act services (.applyBootstrap plan.target)
  | .policiesAdmit => policiesAdmit services plan
  | .infra => rollOut services plan.target
  | .policiesTighten => tighten services plan.target
  | .migrationsNewCode => migrate services .needsNewCode plan.target
  | .namespaces => namespaces services
  | .verify => verify services plan.target
  | .migrationsCleanup => migrate services .removesData plan.target
  | .resume => resumeDispatch services

/-! ## A step that fails -/

def keptByRollback (done : List UpgradeStep) : List UpgradeStep :=
  done.filter fun s => order.idxOf s < order.idxOf .infra && s ≠ .drain

/-- `_rollback` -/
def rollback (plan : Plan) (failed : UpgradeStep) : Upgrading σ PUnit := do
  note (.rollingBack plan.previous)
  copyImages services plan.previous
  applyInfra services plan.previous
  reload services
  update services (fun s => { s with
    release := plan.previous
    upgrade := s.upgrade.map fun p => { p with
      done := keptByRollback p.done, failed := some failed, rolledBackTo := some plan.previous } })
    [.rolledBack plan.previous]
  resumeDispatch services

/-- `_stopped` -/
def stopped (failed : UpgradeStep) (done : List UpgradeStep) : Upgrading σ PUnit := do
  saveProgress services (fun p => { p with failed := some failed, done := done.filter (· ≠ .drain) }) []
  if .drain ∈ done ∨ failed = .drain then resumeDispatch services else pure ⟨⟩

def failure (plan : Plan) (failed : UpgradeStep) (done : List UpgradeStep) : Exc → Upgrading σ PUnit
  | .killed => throw .killed
  | .waitGaveUp message => do
    stopped services failed done
    throw (.waitGaveUp message)
  | .upgradeRefused message => do
    stopped services failed done
    throw (.upgradeRefused message)
  | .keyboardInterrupt => do
    stopped services failed done
    throw .keyboardInterrupt
  | exc =>
    let why := String.ofList (exc.text.toList.take 500)
    if failed ∈ rolledBack then do
      rollback services plan failed
      throw (.upgradeFailed (failed.name ++ " failed and the deployment was rolled back to " ++ plan.previous ++ ": " ++
        why ++ ". Run swarm upgrade --to " ++ plan.target ++ " again once it is fixed"))
    else do
      stopped services failed done
      throw (.upgradeFailed (failed.name ++ " failed: " ++ why ++ ". Run swarm upgrade --to " ++ plan.target ++
        " again to resume there"))

/-! ## A run -/

/-- The steps that are left of `ORDER`. -/
def loop (plan : Plan) : List UpgradeStep → List UpgradeStep → Upgrading σ PUnit
  | [], _ => pure ⟨⟩
  | name :: rest, done =>
    if name ∈ done then loop plan rest done
    else do
      tryCatch (step services plan name) (failure services plan name done)
      saveProgress services (fun p => { p with done := done ++ [name], failed := none }) []
      loop plan rest (done ++ [name])

/-- `running_release` -/
def Stored.runningRelease (s : Stored) : String :=
  match s.upgrade with
  | some p =>
    if p.target ≠ "" ∧ p.finished ≠ some p.target then (if p.started ≠ "" then p.started else s.release) else s.release
  | none => s.release

def Stored.resuming (s : Stored) (target : String) : Bool :=
  s.upgrade.any fun p => p.target = target && p.finished ≠ some target

/-- What `start` writes. -/
def opening (previous target : String) (s : Stored) : Stored :=
  { s with previousRelease := some previous, upgrade := some { started := previous, target }, release := target }

/-- `str.strip` -/
def strip (typed : String) : String := String.ofList ((typed.toList.dropWhile Quota.isSpace).rdropWhile Quota.isSpace)

def approve (prompt refusal : String) : Upgrading σ PUnit := do
  let typed ← ask (services.confirm prompt)
  if strip typed ≠ services.project then throw (.upgradeRefused refusal) else pure ⟨⟩

def gate (plan : Plan) : Upgrading σ PUnit :=
  if plan.iam = [] then
    if services.confirmPlan then
      approve services
        ("Upgrade " ++ services.project ++ " from " ++ plan.previous ++ " to " ++ plan.target ++
          " as planned above? Type the project id (" ++ services.project ++ ") to approve, anything else refuses: ")
        ("the upgrade to " ++ plan.target ++ " was not approved; nothing was applied and " ++ plan.previous ++
          " keeps running")
    else pure ⟨⟩
  else
    approve services
      ("These " ++ toString plan.iam.length ++ " IAM changes block the upgrade to " ++ plan.target ++
        ": nothing is applied, and the platform keeps running " ++ plan.previous ++
        ", until they are approved. Type the project id (" ++ services.project ++
        ") to approve, anything else refuses: ")
      ("the IAM changes were not approved; nothing was applied and " ++ plan.previous ++ " keeps running")

def begin (resuming : Bool) (previous target : String) : Upgrading σ PUnit :=
  if resuming then update services (fun s => { s with release := target }) []
  else update services (opening previous target) [.opened target]

def run (target : String) (allowDowngrade : Bool) : Upgrading σ PUnit := do
  reload services
  let m ← get
  let previous := m.state.runningRelease
  let resuming := m.state.resuming target
  if previous = "" then
    throw (.upgradeRefused "the install state records no running release: run swarm install first")
  else if resuming = false ∧ target = previous then pure ⟨⟩
  else if older target previous = true ∧ allowDowngrade = false then
    throw (.upgradeRefused (target ++ " is older than the running " ++ previous ++
      "; a downgrade needs --allow-downgrade"))
  else do
    let found ← ask (services.plan target previous)
    let plan := { found with target, previous }
    gate services plan
    begin services resuming previous target
    reload services
    let m ← get
    loop services plan order ((m.state.upgrade.map (·.done)).getD [])
    saveProgress services (fun p => { p with finished := some target }) [.finished target]

/-- A run: what answers its calls, the migrations of its wheel with them, and what is asked of it. -/
structure Asked (σ : Type) where
  services : Services σ
  target : String
  allowDowngrade : Bool := false

/-- One run after another, however each ends. -/
def runs : List (Asked σ) → Machine σ → Machine σ
  | [], m => m
  | asked :: later, m =>
    match run asked.services asked.target asked.allowDowngrade m with
    | .ok _ m' => runs later { m' with copy := none }
    | .error _ m' => runs later { m' with copy := none }

end Steps

end SwarmCloud.Upgrade
