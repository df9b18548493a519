import SwarmCloud.Accounts.Decoding
import SwarmCloud.Common.Pools
import SwarmCloud.Lib.Runs

/-! # Admin roles

`swarm_api/admins.py`: who holds admin is a collection of documents, and every change of
them is a transaction that writes its own audit entry. Any number of processes work on
the two collections, each with its own configuration, its own cache and its own threads;
between two steps of a thread all the others may go on.
-/

namespace SwarmCloud.Admins

open Common Lib
open Accounts (Python Raw)

inductive Role
  | owner
  | admin
deriving DecidableEq, Repr

def configMigration : String := "config-migration"

def configOwner : String := "config:PLATFORM_OWNER"

def serviceAccountDomain : String := "gserviceaccount.com"

def roleCacheSeconds : Int := 15

/-- `admin_roles/{email}`; a stored role that is none of `ROLES` is `none`. -/
structure RoleDoc where
  role : Option Role
  grantedBy : String
  grantedAt : Instant
deriving DecidableEq, Repr

inductive Action
  | seedOwner (previousRole : Option Role)
  | ownerChanged (previousRole role : Role)
  | migrate (roleCreated : Bool)
  | grant (role : Role)
  | remove (previousRole : Role)
deriving DecidableEq, Repr

def Action.migrates : Action → Bool
  | .migrate _ => true
  | _ => false

/-- `admin_audit/{id}`: `action` and `detail`, `target_email`, `by`, `at`. -/
structure Entry where
  action : Action
  targetEmail : String
  caller : String
  moment : Instant
deriving DecidableEq, Repr

/-- The id of an audit document: one Firestore makes up, or `config-migration:{email}`. -/
inductive EntryId
  | auto (n : Nat)
  | marker (email : String)
deriving DecidableEq, Repr

inductive Refusal
  | validationFailed (message : String)
  | ownerProtected (message : String)
  | ownerFromConfig (message : String)
  | notAnAdminDocument (message : String)
  | lastAdmin (message : String)
  | firestore
deriving DecidableEq, Repr

/-! ## Addresses -/

variable (py : Python)

/-- `(raw or "").strip().lower()` -/
def normal (raw : String) : String := py.lower (py.strip raw)

/-- `_EMAIL`. A text without a newline at its end is meant: `$` would match before one. -/
def isEmail (email : String) : Bool :=
  let plain := fun c => c ≠ '@' && !py.isSpace c && c ≠ '/'
  let name := email.toList.takeWhile (· ≠ '@')
  let domain := (email.toList.dropWhile (· ≠ '@')).tail
  name ≠ [] && name.all plain && domain.all plain && '.' ∈ domain.tail.dropLast

theorem normal_normal (raw : String) : normal py (normal py raw) = normal py raw := by
  rw [normal, normal, Accounts.strip_lower_strip, py.lower_lower]

structure Email where
  text : String
  normal_text : normal py text = text
  isEmail_text : isEmail py text = true

def normaliseEmail (raw : String) : Except Refusal (Email py) :=
  if h : isEmail py (normal py raw) = true then .ok ⟨normal py raw, normal_normal py raw, h⟩
  else .error (.validationFailed (py.repr (.text raw) ++ " is not an email address"))

/-- `_domain`: what stands after the last `@`. -/
def domainOf (email : String) : String :=
  if '@' ∈ email.toList then String.ofList (email.toList.reverse.takeWhile (· ≠ '@')).reverse else ""

/-! ## The configuration -/

structure AdminRoles where
  owner : String
  configAdmins : List String
  allowedDomains : List String
  allowedUsers : List String
  refused : List String
  cacheSeconds : Int
  owner_normal : normal py owner = owner

variable {py}

variable (py) in
def AdminRoles.init (owner : String) (configAdmins allowedDomains allowedUsers refused : List String) :
    AdminRoles py where
  owner := normal py owner
  configAdmins := ((configAdmins.filter (py.strip · ≠ "")).map (normal py)).eraseDups
  allowedDomains := (allowedDomains.filter (py.strip · ≠ "")).map (normal py)
  allowedUsers := (allowedUsers.filter (py.strip · ≠ "")).map (normal py)
  refused := (refused.filter (py.strip · ≠ "")).map (normal py)
  cacheSeconds := roleCacheSeconds
  owner_normal := normal_normal py owner

namespace AdminRoles

variable (roles : AdminRoles py)

def isOwner (email : String) : Bool := roles.owner ≠ "" && normal py email = roles.owner

/-- The entries of `ADMIN_USERS` that `ensure_migrated` does not pass over. -/
def migrants : List String := roles.configAdmins.filter fun email => email ≠ roles.owner && isEmail py email

def checkGrantable (email : String) : Except Refusal Unit :=
  let domain := domainOf email
  if domain = serviceAccountDomain ∨ ("." ++ serviceAccountDomain).toList <:+ domain.toList then
    .error (.validationFailed "admin is for people; a service account cannot be granted it")
  else if email ∈ roles.refused then
    .error (.validationFailed (email ++ " already holds another platform role (pool admin, rollup sweeper, " ++
      "secret admin or a tenant's service account); one address holds one role"))
  else if domain ∉ roles.allowedDomains ∧ email ∉ roles.allowedUsers then
    .error (.validationFailed (email ++ " is not in an allowed domain or ALLOWED_USERS, so it could " ++
      "not sign in to use the right"))
  else .ok ()

end AdminRoles

/-! ## The transactions -/

structure Db where
  roles : Dict String RoleDoc := []
  audit : Dict EntryId Entry := []

namespace Db

variable (db : Db)

def roleOf (email : String) : Option Role := (db.roles.lookup email).bind (·.role)

/-- `_audit`: the entry is a new document. -/
def audited (entry : Entry) : Db := { db with audit := db.audit.set (.auto db.audit.length) entry }

def seed (owner : String) (now : Instant) : Db :=
  if db.roleOf owner = some .owner then db
  else { db with roles := db.roles.set owner ⟨some .owner, configOwner, now⟩ }.audited
    ⟨.seedOwner (db.roleOf owner), owner, configOwner, now⟩

/-- `_demote_former_owner` -/
def demote (email : String) (now : Instant) : Db :=
  if db.roleOf email = some .owner then
    { db with roles := db.roles.set email ⟨some .admin, configOwner, now⟩ }.audited
      ⟨.ownerChanged .owner .admin, email, configOwner, now⟩
  else db

def migrateOne (email : String) (now : Instant) : Db :=
  if (db.audit.lookup (.marker email)).isSome then db
  else
    let created := (db.roles.lookup email).isNone
    let entry : Entry := ⟨.migrate created, email, configMigration, now⟩
    { roles := if created then db.roles.set email ⟨some .admin, configMigration, now⟩ else db.roles
      audit := db.audit.set (.marker email) entry }

/-- The transaction of `grant`, with what it answers: the document and whether it is new. -/
def grant (roles : AdminRoles py) (email : Email py) (caller : String) (now : Instant) :
    Except Refusal (Db × RoleDoc × Bool) :=
  match db.roles.lookup email.text with
  | some ⟨some .owner, grantedBy, grantedAt⟩ =>
    if roles.isOwner caller then .ok (db, ⟨some .owner, grantedBy, grantedAt⟩, false)
    else .error (.ownerProtected "the platform owner's role can be changed only by the owner")
  | some ⟨some .admin, grantedBy, grantedAt⟩ => .ok (db, ⟨some .admin, grantedBy, grantedAt⟩, false)
  | _ =>
    let body : RoleDoc := ⟨some .admin, caller, now⟩
    .ok ({ db with roles := db.roles.set email.text body }.audited ⟨.grant .admin, email.text, caller, now⟩, body, true)

def holders : List (String × Role) := db.roles.filterMap fun item => item.2.role.map (item.1, ·)

def remove (roles : AdminRoles py) (email : Email py) (caller : String) (now : Instant) : Except Refusal Db :=
  match db.holders.lookup email.text with
  | none => .error (.notAnAdminDocument (email.text ++ " has no admin role document. If they are still an " ++
      "admin, it is from ADMIN_GROUPS membership or ADMIN_USERS, which only a configuration change removes"))
  | some role =>
    if role = .owner ∧ ¬ roles.isOwner caller then
      .error (.ownerProtected "an owner's role can be changed only by the owner")
    else if (db.holders.filter (·.1 ≠ email.text)).isEmpty then
      .error (.lastAdmin ("removing " ++ email.text ++ " would leave no admin; grant someone else first"))
    else .ok ({ db with roles := db.roles.filter (·.1 ≠ email.text) }.audited
      ⟨.remove role, email.text, caller, now⟩)

end Db

/-! ## Processes and threads -/

structure Process where
  /-- `_cache`: until when an answer may be given again, and the answer. -/
  cache : Dict String (Instant × Option Role) := []
  /-- `_lock`, by the thread that has it. -/
  lockedBy : Option Nat := none
  migrated : Bool := false

/-- A call, with its arguments as its first lines leave them. -/
inductive Request (py : Python)
  | roleOf (email : String) (fresh : Bool)
  | grant (email : Email py) (caller : String)
  | remove (email : Email py) (caller : String)

inductive Answer
  /-- With the moment `stamp` of the call's own clock. -/
  | role (email : String) (fresh : Bool) (stamp : Instant) (role : Option Role)
  | granted (email : String) (body : RoleDoc) (changed : Bool)
  | removed (email : String)
deriving DecidableEq, Repr

/-- What is left to do of `ensure_migrated`. -/
inductive Chore
  /-- The query for owners in `seed_owner`. -/
  | formerOwners
  | demote (email : String)
  | seed
  | migrate (email : String)
deriving DecidableEq, Repr

def AdminRoles.chores (roles : AdminRoles py) : List Chore :=
  .formerOwners :: (if roles.owner = "" then [] else [.seed]) ++ roles.migrants.map .migrate

inductive Task (py : Python)
  | idle
  /-- `ensure_migrated` looks at the flag. -/
  | ensuring (request : Request py)
  | waiting (request : Request py)
  | migrating (chores : List Chore) (request : Request py)
  /-- A transaction of the migration has come back, `_forget` is next. -/
  | forgetting (email : String) (chores : List Chore) (request : Request py)
  | ready (request : Request py)
  | reading (email : String) (fresh : Bool) (stamp : Instant)
  | keeping (email : String) (fresh : Bool) (stamp : Instant) (role : Option Role)
  /-- The transaction of `grant` or `remove` has come back, `_forget` is next. -/
  | dropping (email : String) (answer : Answer)
  | done (answer : Answer)
  | raised (refusal : Refusal)

structure Deployment (py : Python) where
  roles : Nat → AdminRoles py
  home : Nat → Nat

structure World (py : Python) where
  db : Db := {}
  clock : Instant := 0
  process : Nat → Process := fun _ => {}
  thread : Nat → Task py := fun _ => .idle

namespace World

variable (services : Deployment py) (w : World py) (t : Nat)

def goOn (task : Task py) : World py := { w with thread := Function.update w.thread t task }

def setProcess (process : Process) : World py :=
  { w with process := Function.update w.process (services.home t) process }

def forget (email : String) : World py :=
  let own := w.process (services.home t)
  w.setProcess services t { own with cache := own.cache.filter (·.1 ≠ email) }

def unlock (migrated : Bool) : World py :=
  let own := w.process (services.home t)
  w.setProcess services t { own with lockedBy := none, migrated := own.migrated || migrated }

inductive Call
  | roleOf (email : String) (fresh : Bool)
  | grant (email caller : String)
  | remove (email caller : String)

/-- The lines of a call before `ensure_migrated`. -/
def opened (own : AdminRoles py) (clock : Instant) : Call → Task py
  | .roleOf raw fresh =>
    let email := normal py raw
    if email = "" then .done (.role email fresh clock none) else .ensuring (.roleOf email fresh)
  | .grant raw caller =>
    match normaliseEmail py raw with
    | .error refusal => .raised refusal
    | .ok email =>
      match own.checkGrantable email.text with
      | .error refusal => .raised refusal
      | .ok () => .ensuring (.grant email (normal py caller))
  | .remove raw caller =>
    match normaliseEmail py raw with
    | .error refusal => .raised refusal
    | .ok email => .ensuring (.remove email (normal py caller))

/-- One transaction or query of the migration. -/
def chore (own : AdminRoles py) (chores : List Chore) (request : Request py) : Chore → World py
  | .formerOwners =>
    let former := w.db.roles.filter fun item => item.2.role = some .owner && item.1 ≠ own.owner
    w.goOn t (.migrating (former.map (.demote ·.1) ++ chores) request)
  | .demote email => { w with db := w.db.demote email w.clock }.goOn t (.forgetting email chores request)
  | .seed => { w with db := w.db.seed own.owner w.clock }.goOn t (.forgetting own.owner chores request)
  | .migrate email => { w with db := w.db.migrateOne email w.clock }.goOn t (.forgetting email chores request)

/-- The lines of a call after `ensure_migrated`, to its first wait. -/
def served (own : AdminRoles py) (cache : Dict String (Instant × Option Role)) : Request py → World py
  | .roleOf email fresh =>
    match if fresh then none else cache.lookup email with
    | some (expiry, role) =>
      if w.clock < expiry then w.goOn t (.done (.role email fresh w.clock role))
      else w.goOn t (.reading email fresh w.clock)
    | none => w.goOn t (.reading email fresh w.clock)
  | .grant email caller =>
    if own.isOwner email.text ∧ ¬ own.isOwner caller then
      w.goOn t (.raised (.ownerProtected "the platform owner's role can be changed only by the owner"))
    else
      match w.db.grant own email caller w.clock with
      | .error refusal => w.goOn t (.raised refusal)
      | .ok (db, body, changed) => { w with db }.goOn t (.dropping email.text (.granted email.text body changed))
  | .remove email caller =>
    if own.isOwner email.text then
      if own.isOwner caller then
        w.goOn t (.raised (.ownerFromConfig "the platform owner is set by PLATFORM_OWNER in swarm-api's configuration; change it there, not here"))
      else w.goOn t (.raised (.ownerProtected "the platform owner cannot be demoted by anyone else"))
    else
      match w.db.remove own email caller w.clock with
      | .error refusal => w.goOn t (.raised refusal)
      | .ok db => { w with db }.goOn t (.dropping email.text (.removed email.text))

inductive Act
  | call (t : Nat) (call : Call)
  | go (t : Nat)
  /-- What the thread waits for raises, also where it was carried out. -/
  | fail (t : Nat)
  | tick (now : Instant)

def go (t : Nat) : Option (World py) :=
  let own := w.process (services.home t)
  let roles := services.roles (services.home t)
  match w.thread t with
  | .ensuring request => some (w.goOn t (if own.migrated then .ready request else .waiting request))
  | .waiting request =>
    match own.lockedBy with
    | some _ => none
    | none =>
      if own.migrated then some (w.goOn t (.ready request))
      else some ((w.setProcess services t { own with lockedBy := some t }).goOn t (.migrating roles.chores request))
  | .migrating [] request => some ((w.unlock services t true).goOn t (.ready request))
  | .migrating (chore :: chores) request => some (w.chore t roles chores request chore)
  | .forgetting email chores request => some ((w.forget services t email).goOn t (.migrating chores request))
  | .ready request => some (w.served t roles own.cache request)
  | .reading email fresh stamp => some (w.goOn t (.keeping email fresh stamp (w.db.roleOf email)))
  | .keeping email fresh stamp role =>
    let cache := own.cache.set email (stamp + seconds roles.cacheSeconds, role)
    some ((w.setProcess services t { own with cache }).goOn t (.done (.role email fresh stamp role)))
  | .dropping email answer => some ((w.forget services t email).goOn t (.done answer))
  | .idle | .done _ | .raised _ => none

def step : Act → Option (World py)
  | .call t call =>
    match w.thread t with
    | .idle => some (w.goOn t (opened (services.roles (services.home t)) w.clock call))
    | _ => none
  | .go t => w.go services t
  | .fail t =>
    match w.thread t with
    | .migrating _ _ | .forgetting _ _ _ => some ((w.unlock services t false).goOn t (.raised .firestore))
    | .ready _ | .reading _ _ _ | .dropping _ _ => some (w.goOn t (.raised .firestore))
    | _ => none
  | .tick now => if w.clock ≤ now then some { w with clock := now } else none

def Steps (w : World py) (act : Act) (w' : World py) : Prop := w.step services act = some w'

end World

end SwarmCloud.Admins
