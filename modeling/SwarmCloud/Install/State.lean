import SwarmCloud.Common.Pools
import SwarmCloud.Lib.Dict
import SwarmCloud.Lib.Generations
import SwarmCloud.Lib.Runs
import Mathlib.Logic.Function.Basic

/-! # The install state and its store

`swarm_install/state.py`: what an install remembers between runs, in a file of its
own until the state bucket exists and in an object of the bucket from then on. Any
number of runs of the installer read and write the object between each other's calls.
-/

namespace SwarmCloud.Install

open Common Lib

/-! ## The state -/

/-- A value of an output. -/
inductive Value
  | null
  | bool (b : Bool)
  | num (n : Int)
  | text (s : String)
  /-- `SecretStr`, `SecretBytes` or raw bytes. -/
  | secret
  | items (values : List Value)
  | dict (items : List (String × Value))

mutual

/-- `refuse_secrets`: the path of the first secret. -/
def secretPath (path : String) : Value → Option String
  | .secret => some path
  | .items values => secretItem path 0 values
  | .dict items => secretMember path items
  | _ => none

def secretItem (path : String) (index : Nat) : List Value → Option String
  | [] => none
  | value :: values =>
    (secretPath (path ++ "[" ++ toString index ++ "]") value).orElse fun _ => secretItem path (index + 1) values

def secretMember (path : String) : List (String × Value) → Option String
  | [] => none
  | (key, value) :: items =>
    (secretPath (path ++ "." ++ key) value).orElse fun _ => secretMember path items

end

inductive StepState
  | done
  | drift
  | failed
  | paused
deriving DecidableEq, Repr

structure StepRecord where
  state : StepState
  at_ : Instant
  by_ : String
  planDigest : Option String := none
  outputs : Dict String Value := []
  detail : Option String := none

def schemaVersion : Nat := 1

structure InstallState where
  schemaVersion : Nat := schemaVersion
  project : String
  environment : String
  release : Option String := none
  region : Option String := none
  hostname : Option String := none
  steps : Dict String StepRecord := []
  outputs : Dict String Value := []
  console : Dict String Value := []
  denyList : List String := []
  handOffAt : Option Instant := none
  readyAt : Option Instant := none

namespace InstallState

def done (state : InstallState) (stepId : String) : Bool :=
  (state.steps.lookup stepId).elim false fun record => record.state = .done

/-- `refuse_secrets("state", …)`: the fields in their order. -/
def secretPath (state : InstallState) : Option String :=
  (state.steps.findSome? fun item => secretMember ("state.steps." ++ item.1 ++ ".outputs") item.2.outputs).orElse fun _ =>
    (secretMember "state.outputs" state.outputs).orElse fun _ => secretMember "state.console" state.console

/-- Whether `from_bytes` raises `StateTooNew`. -/
def tooNew (state : InstallState) : Bool := Install.schemaVersion < state.schemaVersion

end InstallState

/-! ## The store of one run -/

/-- Where a run stands between its calls to the bucket. -/
inductive Task
  | idle
  /-- `attach_bucket` has found no object. -/
  | uploading (state : InstallState)
  | loading
  /-- `update`, with the change made and so many attempts left. -/
  | saving (change : InstallState → InstallState) (left : Nat) (state : InstallState)
  | reloading (change : InstallState → InstallState) (left : Nat)

/-- How a call comes out. Whoever made it may catch what it raised and call the store again. -/
inductive Answer
  | returned
  /-- It raised, and the bucket is as it was. -/
  | failed
  /-- A write that landed and raised, or that was sent again and then found another generation. -/
  | unanswered (again : Bool)
  /-- What comes after it in the method raised before `_state` was set, and before or after the file was replaced. -/
  | cut (replaced : Bool)

/-- `StateStore`, with what its methods are about. -/
structure StateStore where
  project : String
  environment : String
  /-- The file. -/
  file : Option InstallState := none
  attached : Bool := false
  generation : Nat := 0
  state : Option InstallState := none
  /-- `_generation` was set to another one and `_state` was not. -/
  behind : Bool := false
  task : Task := .idle

namespace StateStore

variable (store : StateStore)

def fresh : InstallState := { project := store.project, environment := store.environment }

/-- `_read_local` and what comes in its place, or nothing where the file is of a newer schema. -/
def readLocal (otherwise : InstallState) : Option InstallState :=
  match store.file with
  | none => some otherwise
  | some state => if state.tooNew then none else some state

def raised : StateStore := { store with task := .idle }

def moved (generation : Nat) : StateStore :=
  { store with generation, behind := store.behind || generation != store.generation }

def went (state : InstallState) (task : Task) : StateStore := { store with state := some state, behind := false, task }

/-- `load` where there is no object, or no bucket yet. -/
def loadedLocal (after : InstallState → Task) : StateStore :=
  match store.readLocal store.fresh with
  | none => store.raised
  | some state => store.went state (after state)

def load (object : Option (InstallState × Nat)) (answer : Answer) (after : InstallState → Task) : StateStore :=
  match answer, store.attached, object with
  | .returned, false, _ => store.loadedLocal after
  | .returned, true, none => (store.moved 0).loadedLocal after
  | .returned, true, some (state, generation) =>
    -- `_generation` is taken before `from_bytes` raises `StateTooNew`.
    if state.tooNew then (store.moved generation).raised
    else { store.moved generation with file := some state }.went state (after state)
  | .cut _, true, none => (store.moved 0).raised
  | .cut replaced, true, some (state, generation) =>
    { (store.moved generation).raised with
      file := if replaced && !state.tooNew then some state else store.file }
  | _, _, _ => store.raised

/-- `attach_bucket`, up to what it does next. -/
def attach (object : Option (InstallState × Nat)) (answer : Answer) : StateStore :=
  match answer, object with
  | .returned, none =>
    match store.readLocal (store.state.getD store.fresh) with
    | none => { store with attached := true }
    | some state => { store with attached := true, task := .uploading state }
  | .returned, some _ => { store with attached := true, task := .loading }
  | _, _ => { store with attached := true }

/-- `save` where there is no bucket yet. -/
def savedLocal (state : InstallState) (answer : Answer) : StateStore :=
  match answer with
  | .returned => { store with file := some state }.went state .idle
  | .cut true => { store.raised with file := some state }
  | _ => store.raised

/-- What a write that landed leaves, where `done` is what its method is to leave. -/
def landed (generation : Nat) (done : StateStore) (conflict : Task) : Answer → StateStore
  | .returned | .failed => { done with generation }
  | .unanswered again => { store with task := if again then conflict else .idle }
  | .cut replaced => { (store.moved generation).raised with file := if replaced then done.file else store.file }

end StateStore

/-- What the object came from: who made it of what, whose update changed it, or whose update put a change of an older
copy in its place. -/
inductive Entry
  | created (run : Nat) (state : InstallState)
  | changed (run : Nat) (change : InstallState → InstallState)
  | overwritten (run : Nat) (state : InstallState)

/-- What the entries make of what stood in the object: it is made where there is none, and changed or overwritten where
it is. -/
inductive Replays (start : Option InstallState) : List Entry → Option InstallState → Prop
  | nil : Replays start [] start
  | created {log run state} : Replays start log none → Replays start (log ++ [Entry.created run state]) (some state)
  | changed {log run change base} :
    Replays start log (some base) → Replays start (log ++ [Entry.changed run change]) (some (change base))
  | overwritten {log run state base} :
    Replays start log (some base) → Replays start (log ++ [Entry.overwritten run state]) (some state)

/-- The object, the runs of the installer, and what has been written. -/
structure Bucket where
  object : Versioned InstallState
  store : Nat → StateStore
  log : List Entry := []

namespace Bucket

variable (b : Bucket) (run : Nat)

def set (store : StateStore) : Bucket := { b with store := Function.update b.store run store }

/-- The call a run makes next, and how it comes out. -/
inductive Act
  | attach (run : Nat) (answer : Answer)
  | load (run : Nat)
  | update (run : Nat) (change : InstallState → InstallState)
  | call (run : Nat) (answer : Answer)

/-- Five attempts. -/
def attempts : Nat := 5

/-- A write under `expected`; a secret in the state raises, and a write that does not go through goes on with
`conflict`. -/
def written (state : InstallState) (expected : Nat) (entry : Entry) (done : StateStore) (conflict : Task)
    (answer : Answer) : Bucket :=
  let store := b.store run
  if state.secretPath.isSome then b.set run store.raised
  else
    match answer, b.object.write state expected with
    | .failed, _ => b.set run store.raised
    | answer, some (object, generation) =>
      { b.set run (store.landed generation done conflict answer) with object, log := b.log ++ [entry] }
    | _, none => b.set run { store with task := conflict }

/-- What a write by `update` is to the object. -/
def entryOf (store : StateStore) (change : InstallState → InstallState) (state : InstallState) : Entry :=
  if store.generation = 0 then .created run state
  else if store.behind then .overwritten run state else .changed run change

/-- `none` where the call is not one the run can make. -/
def step : Act → Option Bucket
  | .attach run answer =>
    match (b.store run).task with
    | .idle => some (b.set run ((b.store run).attach b.object.object answer))
    | _ => none
  | .load run =>
    match (b.store run).task with
    | .idle => some (b.set run { b.store run with task := .loading })
    | _ => none
  | .update run change =>
    let store := b.store run
    match store.task with
    | .idle =>
      match store.state with
      | some state => some (b.set run { store with task := .saving change attempts (change state) })
      | none => some (b.set run { store with task := .reloading change attempts })
    | _ => none
  | .call run answer =>
    let store := b.store run
    match store.task with
    | .uploading state => some (b.written run state 0 (.created run state) (store.went state .idle) .loading answer)
    | .loading => some (b.set run (store.load b.object.object answer fun _ => .idle))
    | .saving change left state =>
      if store.attached then
        some (b.written run state store.generation (entryOf run store change state)
          ({ store with file := some state }.went state .idle) (.reloading change (left - 1)) answer)
      else some (b.set run (if state.secretPath.isSome then store.raised else store.savedLocal state answer))
    | .reloading change left =>
      -- After the last attempt `update` raises `StateConflict`.
      some (b.set run (store.load b.object.object answer fun state =>
        if left = 0 then .idle else .saving change left (change state)))
    | .idle => none

def Step (b : Bucket) (act : Act) (b' : Bucket) : Prop := b.step act = some b'

/-- A bucket that no run has read yet, with the files the runs find on their machines. -/
def start (object : Versioned InstallState) (stores : Nat → String × String × Option InstallState) : Bucket where
  object := object
  store run := { project := (stores run).1, environment := (stores run).2.1, file := (stores run).2.2 }

/-! ## What a run remembers -/

/-- What a store takes the object to hold. -/
def known (store : StateStore) : Option InstallState := if store.generation = 0 then none else store.state

/-- A store and the object. -/
structure Minds (object : Versioned InstallState) (store : StateStore) : Prop where
  known : store.behind = false → object.Remembered (known store) store.generation
  detached : store.attached = false → store.generation = 0
  uploading : ∀ state, store.task = .uploading state → store.attached = true
  saving : ∀ change left state, store.task = .saving change left state →
    ∃ base, store.state = some base ∧ state = change base

structure Sound (initial : Option InstallState) (b : Bucket) : Prop where
  replays : Replays initial b.log (b.object.object.map Prod.fst)
  minds : ∀ run, Minds b.object (b.store run)
  clean : (∀ state ∈ initial, state.secretPath = none) →
    ∀ state ∈ b.object.object.map Prod.fst, state.secretPath = none

variable {b b' : Bucket} {run : Nat} {store : StateStore} {object object' : Versioned InstallState} {g expected : Nat}
  {state : InstallState} {initial : Option InstallState} {answer : Answer}

theorem Minds.write (h : Minds object store) (hwrite : object.write state expected = some (object', g)) :
    Minds object' store :=
  ⟨fun hbehind => (h.known hbehind).write hwrite, h.detached, h.uploading, h.saving⟩

theorem Minds.task (h : Minds object store) {task : Task} (hsaving : ∀ change left state, task ≠ .saving change left state)
    (huploading : ∀ state, task ≠ .uploading state) : Minds object { store with task } :=
  ⟨h.known, h.detached, fun state htask => absurd htask (huploading state),
    fun change left state htask => absurd htask (hsaving change left state)⟩

/-- What is left to do begins with a load. -/
def Loads (task : Task) : Prop := task = .loading ∨ ∃ change left, task = .reloading change left

theorem Minds.loads (h : Minds object store) {task : Task} (hloads : Loads task) : Minds object { store with task } := by
  obtain rfl | ⟨change, left, rfl⟩ := hloads
  · exact h.task nofun nofun
  · exact h.task nofun nofun

theorem Minds.raised (h : Minds object store) : Minds object store.raised := h.task nofun nofun

theorem Minds.replaced (h : Minds object store) (file : Option InstallState) : Minds object { store with file } :=
  ⟨h.known, h.detached, h.uploading, h.saving⟩

/-- A store that took a generation only, and was there before or is now behind. -/
theorem Minds.moved (h : Minds object store) (hattached : store.attached = true) (generation : Nat) :
    Minds object (store.moved generation) where
  known hbehind := by
    simp only [StateStore.moved, Bool.or_eq_false_iff, bne_eq_false_iff_eq] at hbehind
    obtain ⟨hbehind, rfl⟩ := hbehind
    exact h.known hbehind
  detached hdetached := absurd (hattached.symm.trans hdetached) nofun
  uploading := h.uploading
  saving := h.saving

/-- What comes after a load makes its change on what was loaded. -/
def Follows (after : InstallState → Task) : Prop :=
  ∀ state, (∀ change left next, after state = .saving change left next → next = change state) ∧
    ∀ next, after state ≠ .uploading next

theorem follows_idle : Follows fun _ => .idle := fun _ => ⟨nofun, nofun⟩

theorem follows_saving (change : InstallState → InstallState) (left : Nat) :
    Follows fun state => if left = 0 then .idle else .saving change left (change state) := by
  intro state
  dsimp only
  split
  · exact ⟨nofun, nofun⟩
  · refine ⟨?_, nofun⟩
    rintro _ _ _ ⟨⟩
    rfl

theorem minds_went {after : InstallState → Task} (hafter : Follows after)
    (hknown : object.Remembered (if store.generation = 0 then none else some state) store.generation)
    (hdetached : store.attached = false → store.generation = 0) : Minds object (store.went state (after state)) where
  known _ := hknown
  detached := hdetached
  uploading next h := absurd h ((hafter state).2 next)
  saving change left next h := ⟨state, rfl, (hafter state).1 change left next h⟩

theorem minds_loadedLocal {after : InstallState → Task} (hafter : Follows after) (h : Minds object store)
    (hgeneration : store.generation = 0) : Minds object (store.loadedLocal after) := by
  unfold StateStore.loadedLocal
  split
  · exact h.raised
  · refine minds_went hafter ?_ fun _ => hgeneration
    rw [if_pos hgeneration, hgeneration]
    exact object.remembered_zero

/-- A load remembers the object as it is, or leaves the store behind. -/
theorem Minds.load {after : InstallState → Task} (h : Minds object store) (hafter : Follows after) (answer : Answer) :
    Minds object (store.load object.object answer after) := by
  unfold StateStore.load
  split
  · rename_i hdetached
    exact minds_loadedLocal hafter h (h.detached hdetached)
  · rename_i hattached _
    exact minds_loadedLocal hafter (h.moved hattached 0) rfl
  · rename_i state generation hattached hobject
    split
    · exact (h.moved hattached generation).raised
    · refine minds_went hafter ?_ fun hdetached => absurd (hattached.symm.trans hdetached) nofun
      have hread := object.remembered_read
      have hpos := (object.lt_next (state, generation) hobject).1
      rw [hobject, object.generation_of_object hobject] at hread
      change object.Remembered (if generation = 0 then none else some state) generation
      rwa [if_neg (Nat.ne_of_gt hpos)]
  · rename_i hattached _
    exact (h.moved hattached 0).raised
  · rename_i hattached _
    exact (h.moved hattached _).raised.replaced _
  · exact h.raised

theorem minds_update {stores : Nat → StateStore} (h : ∀ run, Minds object (stores run)) (hstore : Minds object store)
    (other : Nat) : Minds object (Function.update stores run store other) := by
  by_cases heq : other = run
  · subst heq
    rw [Function.update_self]
    exact hstore
  · rw [Function.update_of_ne heq]
    exact h other

theorem Sound.set (h : Sound initial b) (hminds : Minds b.object store) : Sound initial (b.set run store) where
  replays := h.replays
  minds := minds_update h.minds hminds
  clean := h.clean

/-- What a run remembers after a write of its own. -/
theorem minds_written (hwrite : object.write state expected = some (object', g)) (hattached : store.attached = true) :
    Minds object' { store.went state .idle with generation := g } where
  known _ := by
    obtain ⟨-, -, rfl, -⟩ := Versioned.write_eq_some hwrite
    rw [Bucket.known, if_neg (Nat.ne_of_gt object.next_pos)]
    exact Versioned.remembered_written hwrite
  detached h := absurd (hattached.symm.trans h) nofun
  uploading := nofun
  saving := nofun

theorem Minds.landed {conflict : Task} (h : Minds object store)
    (hwrite : object.write state expected = some (object', g)) (hattached : store.attached = true)
    (hloads : Loads conflict) (file : Option InstallState) (answer : Answer) :
    Minds object' (store.landed g ({ store with file }.went state .idle) conflict answer) := by
  have hafter := h.write hwrite
  unfold StateStore.landed
  split
  · exact @minds_written { store with file } _ _ _ _ _ hwrite hattached
  · exact @minds_written { store with file } _ _ _ _ _ hwrite hattached
  · rename_i again
    cases again
    · exact hafter.raised
    · exact hafter.loads hloads
  · exact (hafter.moved hattached g).raised.replaced _

/-- A write goes on top of what its run remembers. -/
theorem Sound.written {entry : Entry} {conflict : Task} (h : Sound initial b) (hattached : (b.store run).attached = true)
    (hloads : Loads conflict) (file : Option InstallState)
    (hreplays : ∀ object g, b.object.write state expected = some (object, g) →
      Replays initial (b.log ++ [entry]) (some state)) :
    Sound initial (b.written run state expected entry ({ b.store run with file }.went state .idle) conflict answer) := by
  unfold Bucket.written
  dsimp only
  split
  · exact h.set (h.minds run).raised
  · rename_i hclean
    split
    · exact h.set (h.minds run).raised
    · rename_i object g _ hwrite
      obtain ⟨-, hobject, -⟩ := Versioned.write_eq_some hwrite
      constructor
      · change Replays initial (b.log ++ [entry]) (object.object.map Prod.fst)
        rw [hobject]
        exact hreplays object g hwrite
      · refine minds_update (fun other => (h.minds other).write hwrite) ?_
        exact (h.minds run).landed hwrite hattached hloads file _
      · intro _ state' hstate'
        change state' ∈ object.object.map Prod.fst at hstate'
        rw [hobject] at hstate'
        obtain rfl := Option.some.inj hstate'
        simpa using hclean
    · exact h.set ((h.minds run).loads hloads)

/-- What an update writes is the change of what stands there, where its run is not behind. -/
theorem Sound.replays_update {change : InstallState → InstallState} {left : Nat} (h : Sound initial b)
    (hsaving : (b.store run).task = .saving change left state)
    (hwrite : b.object.write state (b.store run).generation = some (object, g)) :
    Replays initial (b.log ++ [entryOf run (b.store run) change state]) (some state) := by
  have hminds := h.minds run
  have hreplays := h.replays
  obtain ⟨base, hbase, hchange⟩ := hminds.saving change left state hsaving
  obtain ⟨hgeneration, -⟩ := Versioned.write_eq_some hwrite
  unfold entryOf
  split
  · rename_i hzero
    rw [hzero] at hgeneration
    rw [b.object.generation_eq_zero.mp hgeneration] at hreplays
    exact .created hreplays
  · rename_i hne
    split
    · obtain ⟨item, hobject⟩ : ∃ item, b.object.object = some item := by
        rw [← Option.ne_none_iff_exists', Ne, ← b.object.generation_eq_zero, hgeneration]
        exact hne
      rw [hobject] at hreplays
      exact .overwritten hreplays
    · rename_i hbehind
      rw [(hminds.known (by simpa using hbehind)).replaced hwrite, Bucket.known, if_neg hne, hbase] at hreplays
      exact hchange ▸ .changed hreplays

theorem Sound.call (h : Sound initial b) (hstep : Step b (.call run answer) b') : Sound initial b' := by
  have hminds := h.minds run
  simp only [Step, Bucket.step] at hstep
  split at hstep
  · rename_i state huploading
    obtain rfl := Option.some.inj hstep
    refine h.written (hminds.uploading state huploading) (.inl rfl) (b.store run).file fun object g hwrite => ?_
    obtain ⟨hzero, -⟩ := Versioned.write_eq_some hwrite
    have hreplays := h.replays
    rw [b.object.generation_eq_zero.mp hzero] at hreplays
    exact .created hreplays
  · obtain rfl := Option.some.inj hstep
    exact h.set (hminds.load follows_idle answer)
  · rename_i change left state hsaving
    split at hstep
    · rename_i hattached
      obtain rfl := Option.some.inj hstep
      exact h.written hattached (.inr ⟨_, _, rfl⟩) (some state) fun object g hwrite => h.replays_update hsaving hwrite
    · rename_i hdetached
      have hzero := hminds.detached (by simpa using hdetached)
      obtain rfl := Option.some.inj hstep
      refine h.set ?_
      split
      · exact hminds.raised
      · unfold StateStore.savedLocal
        split
        · refine @minds_went { b.store run with file := some state } _ _ _ follows_idle ?_ fun _ => hzero
          change b.object.Remembered (if (b.store run).generation = 0 then none else some state) (b.store run).generation
          rw [if_pos hzero, hzero]
          exact b.object.remembered_zero
        · exact hminds.raised.replaced _
        · exact hminds.raised
  · rename_i change left hreloading
    obtain rfl := Option.some.inj hstep
    exact h.set (hminds.load (follows_saving change left) answer)
  · cases hstep

theorem Sound.step {act : Act} (h : Sound initial b) (hstep : Step b act b') : Sound initial b' := by
  cases act with
  | attach run answer =>
    have hminds := h.minds run
    have hattached : Minds b.object { b.store run with attached := true } :=
      ⟨hminds.known, nofun, fun _ _ => rfl, hminds.saving⟩
    simp only [Step, Bucket.step] at hstep
    split at hstep
    · obtain rfl := Option.some.inj hstep
      refine h.set ?_
      unfold StateStore.attach
      split
      · split
        · exact hattached
        · exact ⟨hminds.known, nofun, fun _ _ => rfl, nofun⟩
      · exact ⟨hminds.known, nofun, nofun, nofun⟩
      · exact hattached
    · cases hstep
  | load run =>
    simp only [Step, Bucket.step] at hstep
    split at hstep
    · obtain rfl := Option.some.inj hstep
      exact h.set ((h.minds run).task nofun nofun)
    · cases hstep
  | update run change =>
    have hminds := h.minds run
    simp only [Step, Bucket.step] at hstep
    split at hstep
    · split at hstep
      · rename_i state hstate
        obtain rfl := Option.some.inj hstep
        refine h.set ⟨hminds.known, hminds.detached, nofun, ?_⟩
        rintro _ _ _ ⟨⟩
        exact ⟨state, hstate, rfl⟩
      · obtain rfl := Option.some.inj hstep
        exact h.set (hminds.task nofun nofun)
    · cases hstep
  | call run answer => exact h.call hstep

theorem sound_start (object : Versioned InstallState) (stores : Nat → String × String × Option InstallState) :
    Sound (object.object.map Prod.fst) (start object stores) where
  replays := .nil
  minds _ := ⟨fun _ => object.remembered_zero, fun _ => rfl, nofun, nofun⟩
  clean h := h

/-! ## Runs that nothing cuts -/

/-- Not behind the generation it has taken, if that is one of an object. -/
def Abreast (store : StateStore) : Prop := store.behind = true → store.generation = 0

/-- A call of the run that can raise after it took a generation: it is cut, or what it reads is of a newer schema. -/
def Cuts (b : Bucket) (run : Nat) : Act → Prop
  | .call run' answer =>
    run' = run ∧ ((∃ replaced, answer = .cut replaced) ∨ ∃ state ∈ b.object.object.map Prod.fst, state.tooNew = true)
  | _ => False

/-- A run that nothing has cut, and what it has written. -/
structure Whole (b : Bucket) (run : Nat) : Prop where
  abreast : Abreast (b.store run)
  entries : ∀ state, .overwritten run state ∉ b.log

variable {run' : Nat}

theorem abreast_loadedLocal (h : Abreast store) (after : InstallState → Task) : Abreast (store.loadedLocal after) := by
  unfold StateStore.loadedLocal
  split
  · exact h
  · exact nofun

theorem Abreast.load (h : Abreast store) {object : Option (InstallState × Nat)} (hcut : ∀ replaced, answer ≠ .cut replaced)
    (hnew : ∀ state ∈ object.map Prod.fst, state.tooNew = false) (after : InstallState → Task) :
    Abreast (store.load object answer after) := by
  unfold StateStore.load
  split
  · exact abreast_loadedLocal h after
  · exact abreast_loadedLocal (fun _ => rfl) after
  · rename_i state generation _
    rw [hnew state rfl]
    exact nofun
  · exact absurd rfl (hcut _)
  · exact absurd rfl (hcut _)
  · exact h

theorem Whole.set (h : Whole b run) (hstore : run' = run → Abreast store) : Whole (b.set run' store) run where
  abreast := by
    change Abreast (Function.update b.store run' store run)
    by_cases heq : run = run'
    · subst heq
      rw [Function.update_self]
      exact hstore rfl
    · rw [Function.update_of_ne heq]
      exact h.abreast
  entries := h.entries

theorem Whole.written {entry : Entry} {file : Option InstallState} {conflict : Task} (h : Whole b run)
    (hcut : run' = run → ∀ replaced, answer ≠ .cut replaced) (hentry : ∀ state, entry ≠ .overwritten run state) :
    Whole (b.written run' state expected entry ({ b.store run' with file }.went state .idle) conflict answer) run := by
  have hstore : run' = run → Abreast (b.store run') := fun heq => heq ▸ h.abreast
  unfold Bucket.written
  dsimp only
  split
  · exact h.set hstore
  split
  · exact h.set hstore
  · rename_i object generation _ _
    refine ⟨(h.set fun heq => ?_).abreast, fun state' hmem => ?_⟩
    · unfold StateStore.landed
      split
      · exact nofun
      · exact nofun
      · exact hstore heq
      · exact absurd rfl (hcut heq _)
    · obtain hold | hlast := List.mem_append.mp hmem
      · exact h.entries state' hold
      · exact hentry state' (List.mem_singleton.mp hlast).symm
  · exact h.set hstore

/-- A run overwrites only where it is behind. -/
theorem entryOf_ne_overwritten (h : run' = run → Abreast store) (change : InstallState → InstallState)
    (state state' : InstallState) : entryOf run' store change state ≠ .overwritten run state' := by
  unfold entryOf
  split
  · exact nofun
  · rename_i hne
    split
    · rename_i hbehind
      rintro ⟨⟩
      exact hne (h rfl hbehind)
    · exact nofun

theorem Whole.step {act : Act} (h : Whole b run) (hcuts : ¬Cuts b run act) (hstep : Step b act b') : Whole b' run := by
  cases act with
  | attach run' answer =>
    simp only [Step, Bucket.step] at hstep
    split at hstep
    · obtain rfl := Option.some.inj hstep
      refine h.set fun heq => ?_
      subst heq
      unfold StateStore.attach
      split
      · split <;> exact h.abreast
      · exact h.abreast
      · exact h.abreast
    · cases hstep
  | load run' =>
    simp only [Step, Bucket.step] at hstep
    split at hstep
    · obtain rfl := Option.some.inj hstep
      exact h.set fun heq => heq ▸ h.abreast
    · cases hstep
  | update run' change =>
    simp only [Step, Bucket.step] at hstep
    split at hstep
    · split at hstep <;>
      · obtain rfl := Option.some.inj hstep
        exact h.set fun heq => heq ▸ h.abreast
    · cases hstep
  | call run' answer =>
    have hcut : run' = run → ∀ replaced, answer ≠ .cut replaced :=
      fun heq replaced hcut => hcuts ⟨heq, .inl ⟨replaced, hcut⟩⟩
    have hload : ∀ after, run' = run → Abreast ((b.store run').load b.object.object answer after) := by
      intro after heq
      refine Abreast.load (heq ▸ h.abreast) (hcut heq) (fun state hstate => ?_) after
      rw [Bool.eq_false_iff]
      exact fun hnew => hcuts ⟨heq, .inr ⟨state, hstate, hnew⟩⟩
    simp only [Step, Bucket.step] at hstep
    split at hstep
    · obtain rfl := Option.some.inj hstep
      exact h.written hcut nofun
    · obtain rfl := Option.some.inj hstep
      exact h.set (hload _)
    · rename_i change left state _
      split at hstep
      · obtain rfl := Option.some.inj hstep
        exact h.written hcut (entryOf_ne_overwritten (fun heq => heq ▸ h.abreast) change state)
      · obtain rfl := Option.some.inj hstep
        refine h.set fun heq => ?_
        subst heq
        split
        · exact h.abreast
        · unfold StateStore.savedLocal
          split
          · exact nofun
          · exact h.abreast
          · exact h.abreast
    · obtain rfl := Option.some.inj hstep
      exact h.set (hload _)
    · cases hstep

section Sample

def release (state : InstallState) : InstallState := { state with release := some "2.0" }

def host (state : InstallState) : InstallState := { state with hostname := some "swarm.test" }

def newest : Versioned InstallState :=
  ⟨some ({ project := "p", environment := "prod" }, 1), 2, by decide, fun _ h => Option.some.inj h ▸ ⟨by decide, by decide⟩⟩

/-- The second of two changes is made on the copy that the first, cut, has left behind. -/
example : ((([.attach 0 .returned, .call 0 .returned, .update 0 release, .call 0 (.cut false), .update 0 host,
    .call 0 .returned] : List Act).foldlM step (start newest fun _ => ("p", "prod", none))).bind fun b =>
      b.object.object.map fun item => (item.1.release, item.1.hostname)) = some (none, some "swarm.test") := by
  decide

end Sample

end Bucket

end SwarmCloud.Install
