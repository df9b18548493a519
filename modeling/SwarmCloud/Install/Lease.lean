import SwarmCloud.Install.State
import SwarmCloud.Lib.Paths
import SwarmCloud.Quota.Broker

/-! # The install lease

`swarm_install/lease.py`: one run of the installer at a time. The lease is an object
of the bucket, written under the generation its holder has. What several runs make of
it is looked at between any two of their calls to the bucket, the clock and the person
at the terminal.
-/

namespace SwarmCloud.Install

open Common Lib

def leaseSeconds : Int := 30 * 60

/-- What the object says. -/
structure LeaseBody where
  holder : String
  heartbeat : Instant
  expires : Instant
deriving DecidableEq, Repr

/-- Where a run stands between its calls. -/
inductive LeaseTask
  | idle
  /-- `_write(0)` -/
  | creating (now : Instant)
  | reading
  /-- `_write(0)`, the object having gone between the write and the read. -/
  | recreating (now : Instant)
  | found (body : LeaseBody) (generation : Nat)
  /-- The holder's own lease is written again. -/
  | retaking (now : Instant) (body : LeaseBody) (generation : Nat)
  /-- An expired lease of somebody else. -/
  | asking (body : LeaseBody) (generation : Nat)
  | taking (now : Instant) (body : LeaseBody) (generation : Nat) (text : String)
  | held
  | renewing (now : Instant)
  | releasing
  /-- Released, refused, lost or gone. -/
  | ended
deriving DecidableEq, Repr

def LeaseTask.live : LeaseTask → Bool
  | .idle | .ended => false
  | _ => true

/-- Whether `acquire` has returned and the lease was not lost or given up since. -/
def LeaseTask.holding : LeaseTask → Bool
  | .held | .renewing _ | .releasing => true
  | _ => false

structure Lease where
  holder : String
  generation : Nat := 0
  heartbeat : Instant := 0
  expires : Instant := 0
  task : LeaseTask := .idle

def Lease.body (lease : Lease) (now : Instant) : LeaseBody := ⟨lease.holder, now, now + seconds leaseSeconds⟩

/-- The lock, the clock and the runs. -/
structure Lock where
  object : Versioned LeaseBody
  clock : Instant
  lease : Nat → Lease

namespace Lock

variable (w : Lock) (run : Nat)

def set (lease : Lease) : Lock := { w with lease := Function.update w.lease run lease }

def goOn (task : LeaseTask) : Lock := w.set run { w.lease run with task }

inductive Act
  | acquire (run : Nat)
  | call (run : Nat)
  /-- What the person typed. -/
  | typed (run : Nat) (text : String)
  | renew (run : Nat)
  | release (run : Nat)
  /-- The run is killed. -/
  | crash (run : Nat)
  | tick (now : Instant)

def taken (now : Instant) (object : Versioned LeaseBody) (generation : Nat) : Lock :=
  let lease := w.lease run
  { w.set run { lease with generation, heartbeat := now, expires := now + seconds leaseSeconds, task := .held } with
    object }

/-- `_write`, whose body was made at `now`. -/
def written (now : Instant) (expected : Nat) (otherwise : LeaseTask) : Lock :=
  match w.object.write ((w.lease run).body now) expected with
  | some (object, generation) => w.taken run now object generation
  | none => w.goOn run otherwise

/-- `none` where the call is not one the run can make. -/
def step : Act → Option Lock
  | .acquire run =>
    match (w.lease run).task with
    | .idle => some (w.goOn run (.creating w.clock))
    | _ => none
  | .call run =>
    match (w.lease run).task with
    | .creating now => some (w.written run now 0 .reading)
    | .reading =>
      match w.object.object with
      | none => some (w.goOn run (.recreating w.clock))
      | some (body, generation) => some (w.goOn run (.found body generation))
    | .recreating now => some (w.written run now 0 .ended)
    | .found body generation =>
      if body.holder = (w.lease run).holder then some (w.goOn run (.retaking w.clock body generation))
      else if w.clock < body.expires then some (w.goOn run .ended)
      else some (w.goOn run (.asking body generation))
    | .retaking now _ generation => some (w.written run now generation .ended)
    | .taking now _ generation _ => some (w.written run now generation .ended)
    | .renewing now => some (w.written run now (w.lease run).generation .ended)
    | .releasing =>
      match w.object.delete (w.lease run).generation with
      | some object => some { w.goOn run .ended with object }
      | none => some (w.goOn run .ended)
    | _ => none
  | .typed run text =>
    match (w.lease run).task with
    | .asking body generation =>
      if strip Quota.isSpace text = body.holder then some (w.goOn run (.taking w.clock body generation text))
      else some (w.goOn run .ended)
    | _ => none
  | .renew run =>
    match (w.lease run).task with
    | .held => some (w.goOn run (.renewing w.clock))
    | _ => none
  | .release run =>
    match (w.lease run).task with
    | .held => some (w.goOn run .releasing)
    | _ => none
  | .crash run => if (w.lease run).task.live then some (w.goOn run .ended) else none
  | .tick now => if w.clock ≤ now then some { w with clock := now } else none

def Step (w : Lock) (act : Act) (w' : Lock) : Prop := w.step act = some w'

def start (object : Versioned LeaseBody) (clock : Instant) (holder : Nat → String) : Lock where
  object := object
  clock := clock
  lease run := { holder := holder run }

/-! ## Who has the lease -/

/-- What the lease of a run says, as the run knows it. -/
def body (lease : Lease) : LeaseBody := ⟨lease.holder, lease.heartbeat, lease.expires⟩

/-- What a run has read, under the generation it had. -/
structure Reads (object : Versioned LeaseBody) (read : LeaseBody) (generation : Nat) : Prop where
  known : object.Remembered (some read) generation
  pos : 0 < generation

/-- What a run may go by. -/
structure Goes (object : Versioned LeaseBody) (clock : Instant) (lease : Lease) : Prop where
  holding : lease.task.holding = true → Reads object (body lease) lease.generation
  found : ∀ read generation, lease.task = .found read generation → Reads object read generation
  retaking : ∀ now read generation, lease.task = .retaking now read generation →
    Reads object read generation ∧ read.holder = lease.holder
  asking : ∀ read generation, lease.task = .asking read generation → Reads object read generation ∧ read.expires ≤ clock
  taking : ∀ now read generation text, lease.task = .taking now read generation text →
    Reads object read generation ∧ read.expires ≤ clock ∧ strip Quota.isSpace text = read.holder

structure Sound (w : Lock) : Prop where
  goes : ∀ run, Goes w.object w.clock (w.lease run)
  distinct : ∀ run other, run ≠ other → (w.lease run).task.holding = true → (w.lease other).task.holding = true →
    (w.lease run).generation ≠ (w.lease other).generation

variable {w w' : Lock} {run : Nat} {object object' : Versioned LeaseBody} {clock clock' now : Instant} {lease : Lease}
  {read : LeaseBody} {g expected : Nat} {task otherwise : LeaseTask}

/-- A later object and clock. -/
theorem Goes.mono (h : Goes object clock lease) (hobject : ∀ read g, Reads object read g → Reads object' read g)
    (hclock : clock ≤ clock') : Goes object' clock' lease where
  holding hholding := hobject _ _ (h.holding hholding)
  found read g htask := hobject _ _ (h.found read g htask)
  retaking now read g htask := (h.retaking now read g htask).imp_left (hobject _ _)
  asking read g htask := (h.asking read g htask).imp (hobject _ _) fun hexpired => hexpired.trans hclock
  taking now read g text htask := by
    obtain ⟨hread, hexpired, htyped⟩ := h.taking now read g text htask
    exact ⟨hobject _ _ hread, hexpired.trans hclock, htyped⟩

/-- A task of which nothing has to be known but that the lease is still held. -/
theorem Goes.plain (h : Goes object clock lease) (hholding : task.holding = true → lease.task.holding = true)
    (hplain : task.holding = true ∨ (∀ read g, task ≠ .found read g) ∧ (∀ now read g, task ≠ .retaking now read g) ∧
      (∀ read g, task ≠ .asking read g) ∧ ∀ now read g text, task ≠ .taking now read g text) :
    Goes object clock { lease with task } where
  holding htask := h.holding (hholding htask)
  found := by
    rintro read g rfl
    obtain hheld | ⟨hnot, -⟩ := hplain
    · cases hheld
    · exact absurd rfl (hnot read g)
  retaking := by
    rintro now read g rfl
    obtain hheld | ⟨-, hnot, -⟩ := hplain
    · cases hheld
    · exact absurd rfl (hnot now read g)
  asking := by
    rintro read g rfl
    obtain hheld | ⟨-, -, hnot, -⟩ := hplain
    · cases hheld
    · exact absurd rfl (hnot read g)
  taking := by
    rintro now read g text rfl
    obtain hheld | ⟨-, -, -, hnot⟩ := hplain
    · cases hheld
    · exact absurd rfl (hnot now read g text)

theorem Sound.goOn (h : Sound w) (hgoes : Goes w.object w.clock { w.lease run with task })
    (hholding : task.holding = true → (w.lease run).task.holding = true) : Sound (w.goOn run task) := by
  have hgeneration : ∀ other, ((w.goOn run task).lease other).generation = (w.lease other).generation := by
    intro other
    simp only [Lock.goOn, Lock.set, Function.update_apply]
    split
    · rename_i heq
      rw [heq]
    · rfl
  have hheld : ∀ other, ((w.goOn run task).lease other).task.holding = true → (w.lease other).task.holding = true := by
    intro other hother
    simp only [Lock.goOn, Lock.set, Function.update_apply] at hother
    split at hother
    · rename_i heq
      rw [heq]
      exact hholding hother
    · exact hother
  constructor
  · intro other
    simp only [Lock.goOn, Lock.set, Function.update_apply]
    split
    · exact hgoes
    · exact h.goes other
  · intro one other hne hone hother
    rw [hgeneration, hgeneration]
    exact h.distinct one other hne (hheld one hone) (hheld other hother)

theorem reads_write {a : LeaseBody} (hwrite : object.write a expected = some (object', g)) (read : LeaseBody) (k : Nat)
    (h : Reads object read k) : Reads object' read k :=
  ⟨h.known.write hwrite, h.pos⟩

theorem Sound.taken (h : Sound w) (hwrite : w.object.write ((w.lease run).body now) expected = some (object, g)) :
    Sound (w.taken run now object g) := by
  obtain ⟨-, -, hg, -⟩ := Versioned.write_eq_some hwrite
  have hother : ∀ other, (w.lease other).task.holding = true → (w.lease other).generation ≠ g := by
    intro other hholding
    have hlt := ((h.goes other).holding hholding).known.lt_next
    omega
  constructor
  · intro other
    simp only [Lock.taken, Lock.set, Function.update_apply]
    split
    · refine ⟨fun _ => ⟨Versioned.remembered_written hwrite, ?_⟩, nofun, nofun, nofun, nofun⟩
      rw [hg]
      exact w.object.next_pos
    · exact (h.goes other).mono (reads_write hwrite) le_rfl
  · intro one other hne
    simp only [Lock.taken, Lock.set, Function.update_apply]
    split
    · rename_i hone
      rw [if_neg (hone ▸ hne.symm)]
      exact fun _ hholding => (hother other hholding).symm
    · split
      · exact fun hholding _ => hother one hholding
      · exact h.distinct one other hne

theorem Sound.written (h : Sound w) (hotherwise : Goes w.object w.clock { w.lease run with task := otherwise })
    (hlost : otherwise.holding = false) : Sound (w.written run now expected otherwise) := by
  unfold Lock.written
  split
  · rename_i hwrite
    exact h.taken hwrite
  · refine h.goOn hotherwise fun hholding => ?_
    rw [hlost] at hholding
    cases hholding

theorem reads_object {read : LeaseBody} (hobject : object.object = some (read, g)) : Reads object read g := by
  have hremembered := object.remembered_read
  rw [hobject, Versioned.generation_of_object hobject] at hremembered
  exact ⟨hremembered, (object.lt_next _ hobject).1⟩

theorem Goes.ended (h : Goes object clock lease) : Goes object clock { lease with task := .ended } :=
  h.plain nofun (.inr ⟨nofun, nofun, nofun, nofun⟩)

theorem Sound.call (h : Sound w) (hstep : Step w (.call run) w') : Sound w' := by
  have hgoes := h.goes run
  simp only [Step, Lock.step] at hstep
  split at hstep
  · obtain rfl := Option.some.inj hstep
    exact h.written (hgoes.plain nofun (.inr ⟨nofun, nofun, nofun, nofun⟩)) rfl
  · split at hstep
    · obtain rfl := Option.some.inj hstep
      exact h.goOn (hgoes.plain nofun (.inr ⟨nofun, nofun, nofun, nofun⟩)) nofun
    · rename_i read g hobject
      obtain rfl := Option.some.inj hstep
      refine h.goOn ⟨nofun, ?_, nofun, nofun, nofun⟩ nofun
      rintro _ _ ⟨⟩
      exact reads_object hobject
  · obtain rfl := Option.some.inj hstep
    exact h.written hgoes.ended rfl
  · rename_i read g hfound
    have hreads := hgoes.found read g hfound
    split at hstep
    · rename_i hown
      obtain rfl := Option.some.inj hstep
      refine h.goOn ⟨nofun, nofun, ?_, nofun, nofun⟩ nofun
      rintro _ _ _ ⟨⟩
      exact ⟨hreads, hown⟩
    · split at hstep
      · obtain rfl := Option.some.inj hstep
        exact h.goOn hgoes.ended nofun
      · rename_i hexpired
        obtain rfl := Option.some.inj hstep
        refine h.goOn ⟨nofun, nofun, nofun, ?_, nofun⟩ nofun
        rintro _ _ ⟨⟩
        exact ⟨hreads, not_lt.mp hexpired⟩
  · obtain rfl := Option.some.inj hstep
    exact h.written hgoes.ended rfl
  · obtain rfl := Option.some.inj hstep
    exact h.written hgoes.ended rfl
  · obtain rfl := Option.some.inj hstep
    exact h.written hgoes.ended rfl
  · have hended : Sound (w.goOn run .ended) := h.goOn hgoes.ended nofun
    split at hstep
    · rename_i object hdelete
      obtain rfl := Option.some.inj hstep
      refine ⟨fun other => (hended.goes other).mono (fun read k hread => ?_) le_rfl, hended.distinct⟩
      exact ⟨hread.known.delete hdelete, hread.pos⟩
    · obtain rfl := Option.some.inj hstep
      exact hended
  · cases hstep

theorem Sound.step {act : Act} (h : Sound w) (hstep : Step w act w') : Sound w' := by
  cases act with
  | call run => exact h.call hstep
  | acquire run =>
    simp only [Step, Lock.step] at hstep
    split at hstep
    · obtain rfl := Option.some.inj hstep
      exact h.goOn ((h.goes run).plain nofun (.inr ⟨nofun, nofun, nofun, nofun⟩)) nofun
    · cases hstep
  | typed run text =>
    simp only [Step, Lock.step] at hstep
    split at hstep
    · rename_i read g hasking
      obtain ⟨hreads, hexpired⟩ := (h.goes run).asking read g hasking
      split at hstep
      · rename_i htyped
        obtain rfl := Option.some.inj hstep
        refine h.goOn ⟨nofun, nofun, nofun, nofun, ?_⟩ nofun
        rintro _ _ _ _ ⟨⟩
        exact ⟨hreads, hexpired, htyped⟩
      · obtain rfl := Option.some.inj hstep
        exact h.goOn (h.goes run).ended nofun
    · cases hstep
  | renew run | release run =>
    simp only [Step, Lock.step] at hstep
    split at hstep
    · rename_i hheld
      have hholding : (w.lease run).task.holding = true := by
        rw [hheld]
        rfl
      obtain rfl := Option.some.inj hstep
      exact h.goOn ((h.goes run).plain (fun _ => hholding) (.inl rfl)) fun _ => hholding
    · cases hstep
  | crash run =>
    simp only [Step, Lock.step, Option.ite_none_right_eq_some, Option.some.injEq] at hstep
    obtain ⟨-, rfl⟩ := hstep
    exact h.goOn (h.goes run).ended nofun
  | tick now =>
    simp only [Step, Lock.step, Option.ite_none_right_eq_some, Option.some.injEq] at hstep
    obtain ⟨hlater, rfl⟩ := hstep
    exact ⟨fun run => (h.goes run).mono (fun _ _ hread => hread) hlater, h.distinct⟩

theorem sound_start (object : Versioned LeaseBody) (clock : Instant) (holder : Nat → String) :
    Sound (start object clock holder) :=
  ⟨fun _ => ⟨nofun, nofun, nofun, nofun, nofun⟩, fun _ _ _ hholding => nomatch hholding⟩

/-! ## Who may take it -/

theorem Reads.stands (h : Reads object read g) (hsame : object.generation = g) : object.object = some (read, g) := by
  have hmap := h.known.same hsame
  cases hobject : object.object with
  | none =>
    rw [hobject] at hmap
    cases hmap
  | some item =>
    obtain ⟨read', g'⟩ := item
    rw [hobject] at hmap
    obtain rfl := Option.some.inj hmap
    rw [Versioned.generation_of_object hobject] at hsame
    rw [hsame]

/-- Why a run may write or delete what stands in the object. -/
def Entitled (w : Lock) (run : Nat) (read : LeaseBody) (g : Nat) : Prop :=
  (w.lease run).holder = read.holder ∧ ((w.lease run).task.holding = true → (w.lease run).generation = g) ∨
    read.expires ≤ w.clock ∧ ∃ now text, (w.lease run).task = .taking now read g text ∧
      strip Quota.isSpace text = read.holder

/-- The object and the entitlement of a write that goes through. -/
theorem written_object (hobject : w.object.object = some (read, g)) (hexpected : expected = g → Entitled w run read g) :
    (w.written run now expected otherwise).object.object = some (read, g) ∨ Entitled w run read g := by
  unfold Lock.written
  split
  · rename_i hwrite
    obtain ⟨hmatch, -⟩ := Versioned.write_eq_some hwrite
    rw [Versioned.generation_of_object hobject] at hmatch
    exact .inr (hexpected hmatch.symm)
  · exact .inl hobject

theorem Reads.eq {read' : LeaseBody} (h : Reads object read g) (hobject : object.object = some (read', g)) :
    read = read' := by
  have hsame := h.stands (Versioned.generation_of_object hobject)
  rw [hobject] at hsame
  exact (congrArg Prod.fst (Option.some.inj hsame)).symm

/-- Only its holder writes a lease again or gives it up; it passes to another when it has expired and the holder's
email was typed. -/
theorem Sound.passes (h : Sound w) (hobject : w.object.object = some (read, g)) {act : Act} (hstep : Step w act w') :
    w'.object.object = some (read, g) ∨ ∃ run, act = .call run ∧ Entitled w run read g := by
  have hpos : 0 < g := (w.object.lt_next _ hobject).1
  have hexists : ∀ {run}, w'.object.object = some (read, g) ∨ Entitled w run read g →
      w'.object.object = some (read, g) ∨ ∃ other, Act.call run = .call other ∧ Entitled w other read g :=
    fun hor => hor.imp_right fun hentitled => ⟨_, rfl, hentitled⟩
  cases act with
  | acquire run | renew run | release run =>
    simp only [Step, Lock.step] at hstep
    split at hstep
    · obtain rfl := Option.some.inj hstep
      exact .inl hobject
    · cases hstep
  | typed run text =>
    simp only [Step, Lock.step] at hstep
    split at hstep
    · split at hstep
      · obtain rfl := Option.some.inj hstep
        exact .inl hobject
      · obtain rfl := Option.some.inj hstep
        exact .inl hobject
    · cases hstep
  | crash run | tick now =>
    simp only [Step, Lock.step, Option.ite_none_right_eq_some, Option.some.injEq] at hstep
    obtain ⟨-, rfl⟩ := hstep
    exact .inl hobject
  | call run =>
    refine hexists ?_
    have hgoes := h.goes run
    simp only [Step, Lock.step] at hstep
    split at hstep
    · obtain rfl := Option.some.inj hstep
      exact written_object hobject fun hzero => absurd hzero.symm (Nat.ne_of_gt hpos)
    · split at hstep
      · obtain rfl := Option.some.inj hstep
        exact .inl hobject
      · obtain rfl := Option.some.inj hstep
        exact .inl hobject
    · obtain rfl := Option.some.inj hstep
      exact written_object hobject fun hzero => absurd hzero.symm (Nat.ne_of_gt hpos)
    · split at hstep
      · obtain rfl := Option.some.inj hstep
        exact .inl hobject
      · split at hstep
        · obtain rfl := Option.some.inj hstep
          exact .inl hobject
        · obtain rfl := Option.some.inj hstep
          exact .inl hobject
    · rename_i now read' g' hretaking
      obtain ⟨hreads, hholder⟩ := hgoes.retaking now read' g' hretaking
      obtain rfl := Option.some.inj hstep
      refine written_object hobject fun heq => .inl ⟨?_, fun hholding => ?_⟩
      · subst heq
        rw [← hreads.eq hobject, hholder]
      · rw [hretaking] at hholding
        cases hholding
    · rename_i now read' g' text htaking
      obtain ⟨hreads, hexpired, htyped⟩ := hgoes.taking now read' g' text htaking
      obtain rfl := Option.some.inj hstep
      refine written_object hobject fun heq => .inr ?_
      subst heq
      obtain rfl := hreads.eq hobject
      exact ⟨hexpired, now, text, htaking, htyped⟩
    · rename_i now hrenewing
      have hreads := hgoes.holding (by rw [hrenewing]; rfl)
      obtain rfl := Option.some.inj hstep
      refine written_object hobject fun heq => .inl ⟨?_, fun _ => heq⟩
      rw [heq] at hreads
      rw [← hreads.eq hobject]
      rfl
    · rename_i hreleasing
      have hreads := hgoes.holding (by rw [hreleasing]; rfl)
      split at hstep
      · rename_i hdelete
        obtain ⟨hmatch, -⟩ := Versioned.delete_eq_some hdelete
        have heq : (w.lease run).generation = g := by
          rw [← hmatch, Versioned.generation_of_object hobject]
        rw [heq] at hreads
        refine .inr (.inl ⟨?_, fun _ => heq⟩)
        rw [← hreads.eq hobject]
        rfl
      · obtain rfl := Option.some.inj hstep
        exact .inl hobject
    · cases hstep

/-- In every run, whatever comes between the calls: no two holders have one generation, so at most one can renew; what
stands under a holder's generation is its own lease; and what stands there changes only by the hand of a person of that
name, or once it has expired and that name was typed. -/
theorem lease_of_run {object : Versioned LeaseBody} {clock : Instant} {holder : Nat → String} {acts : List Act}
    (hrun : Run Step (start object clock holder) acts w) :
    (∀ run other, (w.lease run).task.holding = true → (w.lease other).task.holding = true →
      w.object.generation = (w.lease run).generation → w.object.generation = (w.lease other).generation → run = other) ∧
      (∀ run, (w.lease run).task.holding = true → w.object.generation = (w.lease run).generation →
        w.object.object = some (body (w.lease run), (w.lease run).generation)) ∧
      ∀ read g act w', w.object.object = some (read, g) → Step w act w' →
        w'.object.object = some (read, g) ∨ ∃ run, act = .call run ∧ Entitled w run read g := by
  have h : Sound w := Run.invariant (fun _ _ _ h hstep => h.step hstep) (sound_start object clock holder) hrun
  refine ⟨fun run other hrun hother hmine htheirs => ?_, fun run hholding hsame => ?_, fun _ _ _ _ hobject hstep => ?_⟩
  · by_contra hne
    exact h.distinct run other hne hrun hother (hmine.symm.trans htheirs)
  · exact ((h.goes run).holding hholding).stands hsame
  · exact h.passes hobject hstep

/-! ## One at a time -/

/-- What a step leaves of the lease of a run. -/
structure Moves (w : Lock) (act : Act) (w' : Lock) (run : Nat) : Prop where
  holder : (w'.lease run).holder = (w.lease run).holder
  live : (w'.lease run).task.live = true → (w.lease run).task.live = true ∨ act = .acquire run
  holding : (w'.lease run).task.holding = true → w'.object.generation = (w'.lease run).generation ∨
    act ≠ .call run ∧ (w.lease run).task.holding = true ∧ (w'.lease run).generation = (w.lease run).generation ∧
      (w'.lease run).expires = (w.lease run).expires

/-- A step that leaves the lease alone. -/
theorem Moves.same {act : Act} (hact : act ≠ .call run) (hsame : w'.lease run = w.lease run) : Moves w act w' run := by
  refine ⟨by rw [hsame], fun h => .inl (hsame ▸ h), fun h => .inr ⟨hact, hsame ▸ h, ?_, ?_⟩⟩ <;> rw [hsame]

theorem moves_goOn {act : Act} (other : Nat) (hsame : w'.lease = (w.goOn run task).lease)
    (hact : ∀ one, act = .call one → one = run ∧ task.holding = false)
    (hlive : task.live = true → (w.lease run).task.live = true ∨ act = .acquire run)
    (hholding : task.holding = true → (w.lease run).task.holding = true) : Moves w act w' other := by
  by_cases heq : other = run
  · subst heq
    have hlease : w'.lease other = { w.lease other with task } := by
      rw [hsame]
      exact Function.update_self ..
    constructor
    · rw [hlease]
    · rw [hlease]
      exact hlive
    · rw [hlease]
      refine fun h => .inr ⟨fun hcall => ?_, hholding h, rfl, rfl⟩
      rw [(hact other hcall).2] at h
      cases h
  · refine .same (fun hcall => heq (hact other hcall).1) ?_
    rw [hsame]
    exact Function.update_of_ne heq ..

theorem moves_written (hlive : (w.lease run).task.live = true) (hotherwise : otherwise.holding = false)
    (other : Nat) : Moves w (.call run) (w.written run now expected otherwise) other := by
  unfold Lock.written
  split
  · rename_i object g hwrite
    obtain ⟨-, hobject, -⟩ := Versioned.write_eq_some hwrite
    by_cases heq : other = run
    · subst heq
      have hlease : (w.taken other now object g).lease other = { w.lease other with
          generation := g, heartbeat := now, expires := now + seconds leaseSeconds, task := .held } :=
        Function.update_self ..
      constructor
      · rw [hlease]
      · exact fun _ => .inl hlive
      · rw [hlease]
        exact fun _ => .inl (Versioned.generation_of_object hobject)
    · refine .same (fun hcall => ?_) (Function.update_of_ne heq ..)
      cases hcall
      exact heq rfl
  · refine moves_goOn other rfl (fun one hcall => ?_) (fun _ => .inl hlive) fun h => ?_
    · cases hcall
      exact ⟨rfl, hotherwise⟩
    · rw [hotherwise] at h
      cases h

theorem moves_call (hstep : Step w (.call run) w') (other : Nat) : Moves w (.call run) w' other := by
  have hlost : ∀ task : LeaseTask, task.holding = false → (task.live = true → (w.lease run).task.live = true) →
      ∀ w', w'.lease = (w.goOn run task).lease → Moves w (.call run) w' other := by
    intro task hholding hlive w' hsame
    refine moves_goOn other hsame (fun one hcall => ?_) (fun h => .inl (hlive h)) fun h => ?_
    · cases hcall
      exact ⟨rfl, hholding⟩
    · rw [hholding] at h
      cases h
  simp only [Step, Lock.step] at hstep
  split at hstep
  · rename_i htask
    obtain rfl := Option.some.inj hstep
    exact moves_written (by rw [htask]; rfl) rfl other
  · rename_i htask
    split at hstep
    · obtain rfl := Option.some.inj hstep
      exact hlost _ rfl (fun _ => by rw [htask]; rfl) _ rfl
    · obtain rfl := Option.some.inj hstep
      exact hlost _ rfl (fun _ => by rw [htask]; rfl) _ rfl
  · rename_i htask
    obtain rfl := Option.some.inj hstep
    exact moves_written (by rw [htask]; rfl) rfl other
  · rename_i htask
    split at hstep
    · obtain rfl := Option.some.inj hstep
      exact hlost _ rfl (fun _ => by rw [htask]; rfl) _ rfl
    · split at hstep
      · obtain rfl := Option.some.inj hstep
        exact hlost .ended rfl nofun _ rfl
      · obtain rfl := Option.some.inj hstep
        exact hlost _ rfl (fun _ => by rw [htask]; rfl) _ rfl
  · rename_i htask
    obtain rfl := Option.some.inj hstep
    exact moves_written (by rw [htask]; rfl) rfl other
  · rename_i htask
    obtain rfl := Option.some.inj hstep
    exact moves_written (by rw [htask]; rfl) rfl other
  · rename_i htask
    obtain rfl := Option.some.inj hstep
    exact moves_written (by rw [htask]; rfl) rfl other
  · split at hstep
    · obtain rfl := Option.some.inj hstep
      exact hlost .ended rfl nofun _ rfl
    · obtain rfl := Option.some.inj hstep
      exact hlost .ended rfl nofun _ rfl
  · cases hstep

theorem moves {act : Act} (hstep : Step w act w') (other : Nat) : Moves w act w' other := by
  cases act with
  | call run => exact moves_call hstep other
  | acquire run =>
    simp only [Step, Lock.step] at hstep
    split at hstep
    · obtain rfl := Option.some.inj hstep
      exact moves_goOn other rfl (fun _ hcall => nomatch hcall) (fun _ => .inr rfl) nofun
    · cases hstep
  | renew run | release run =>
    simp only [Step, Lock.step] at hstep
    split at hstep
    · rename_i hheld
      obtain rfl := Option.some.inj hstep
      exact moves_goOn other rfl (fun _ hcall => nomatch hcall) (fun _ => .inl (by rw [hheld]; rfl)) (fun _ => by rw [hheld]; rfl)
    · cases hstep
  | typed run text =>
    simp only [Step, Lock.step] at hstep
    split at hstep
    · rename_i hasking
      split at hstep
      · obtain rfl := Option.some.inj hstep
        exact moves_goOn other rfl (fun _ hcall => nomatch hcall) (fun _ => .inl (by rw [hasking]; rfl)) nofun
      · obtain rfl := Option.some.inj hstep
        exact moves_goOn other rfl (fun _ hcall => nomatch hcall) nofun nofun
    · cases hstep
  | crash run =>
    simp only [Step, Lock.step, Option.ite_none_right_eq_some, Option.some.injEq] at hstep
    obtain ⟨-, rfl⟩ := hstep
    exact moves_goOn other rfl (fun _ hcall => nomatch hcall) nofun nofun
  | tick now =>
    simp only [Step, Lock.step, Option.ite_none_right_eq_some, Option.some.injEq] at hstep
    obtain ⟨-, rfl⟩ := hstep
    exact .same nofun rfl

theorem clock_le {act : Act} (hstep : Step w act w') : w.clock ≤ w'.clock := by
  have hwritten : ∀ run now expected otherwise, (w.written run now expected otherwise).clock = w.clock := by
    intro run now expected otherwise
    unfold Lock.written
    split <;> rfl
  cases act with
  | tick now =>
    simp only [Step, Lock.step, Option.ite_none_right_eq_some, Option.some.injEq] at hstep
    obtain ⟨hlater, rfl⟩ := hstep
    exact hlater
  | acquire run | typed run text | renew run | release run | crash run | call run =>
    refine le_of_eq ?_
    simp only [Step, Lock.step] at hstep
    repeat' split at hstep
    all_goals cases hstep
    all_goals first | rfl | exact (hwritten ..).symm

theorem live_of_call (hstep : Step w (.call run) w') : (w.lease run).task.live = true := by
  simp only [Step, Lock.step] at hstep
  cases htask : (w.lease run).task
  case idle | ended | asking | held =>
    rw [htask] at hstep
    cases hstep
  all_goals rfl

theorem live_of_holding (h : task.holding = true) : task.live = true := by
  cases task <;> first | rfl | cases h

/-- Nobody starts a run while another of theirs is at work. -/
def Apart (w : Lock) (act : Act) : Prop :=
  ∀ run, act = .acquire run → ∀ other, (w.lease other).task.live = true → (w.lease other).holder ≠ (w.lease run).holder

/-- A lease that has not expired is the one in the object. -/
structure Alone (w : Lock) : Prop where
  sound : Sound w
  apart : ∀ run other, run ≠ other → (w.lease run).task.live = true → (w.lease other).task.live = true →
    (w.lease run).holder ≠ (w.lease other).holder
  current : ∀ run, (w.lease run).task.holding = true → w.clock < (w.lease run).expires →
    w.object.generation = (w.lease run).generation

theorem alone_start (object : Versioned LeaseBody) (clock : Instant) (holder : Nat → String) :
    Alone (start object clock holder) where
  sound := sound_start object clock holder
  apart _ _ _ hlive := nomatch hlive
  current _ hholding := nomatch hholding

theorem Alone.step {act : Act} (h : Alone w) (hstep : Step w act w') (hapart : Apart w act) : Alone w' := by
  constructor
  · exact h.sound.step hstep
  · intro run other hne hrun hother
    have hmine := moves hstep run
    have htheirs := moves hstep other
    rw [hmine.holder, htheirs.holder]
    obtain hrun | hacquire := hmine.live hrun
    · obtain hother | hacquire := htheirs.live hother
      · exact h.apart run other hne hrun hother
      · exact hapart other hacquire run hrun
    · obtain hother | hacquire' := htheirs.live hother
      · exact (hapart run hacquire other hother).symm
      · rw [hacquire] at hacquire'
        exact absurd (Act.acquire.inj hacquire') hne
  · intro run hholding hunexpired
    obtain hcurrent | ⟨hact, hheld, hgeneration, hexpires⟩ := (moves hstep run).holding hholding
    · exact hcurrent
    -- it was the object's before the step, which took it from nobody
    have hbefore : w.clock < (w.lease run).expires := by
      rw [← hexpires]
      exact (clock_le hstep).trans_lt hunexpired
    have hobject := ((h.sound.goes run).holding hheld).stands (h.current run hheld hbefore)
    rw [hgeneration]
    obtain hkept | ⟨other, rfl, ⟨hholder, -⟩ | ⟨hexpired, -⟩⟩ := h.sound.passes hobject hstep
    · exact Versioned.generation_of_object hkept
    · have hne : other ≠ run := fun heq => hact (heq ▸ rfl)
      exact absurd hholder (h.apart other run hne (live_of_call hstep) (live_of_holding hheld))
    · exact absurd hexpired (not_le.mpr hbefore)

/-- As long as nobody starts a second run of their own, no two runs hold leases that have not expired. -/
theorem exclusive_of_run {object : Versioned LeaseBody} {clock : Instant} {holder : Nat → String} {acts : List Act}
    (hrun : Run (fun w act w' => Step w act w' ∧ Apart w act) (start object clock holder) acts w) (run other : Nat)
    (hmine : (w.lease run).task.holding = true) (hunexpired : w.clock < (w.lease run).expires)
    (htheirs : (w.lease other).task.holding = true) (hunexpired' : w.clock < (w.lease other).expires) :
    run = other := by
  have h : Alone w :=
    Run.invariant (fun _ _ _ h hstep => h.step hstep.1 hstep.2) (alone_start object clock holder) hrun
  by_contra hne
  refine h.sound.distinct run other hne hmine htheirs ?_
  rw [← h.current run hmine hunexpired, h.current other htheirs hunexpired']

/-- Where every run is another person's, nobody does. -/
theorem run_apart {object : Versioned LeaseBody} {clock : Instant} {holder : Nat → String} {acts : List Act}
    (hinj : holder.Injective) (hrun : Run Step (start object clock holder) acts w) :
    Run (fun w act w' => Step w act w' ∧ Apart w act) (start object clock holder) acts w ∧
      ∀ run, (w.lease run).holder = holder run := by
  induction hrun with
  | nil => exact ⟨.nil, fun _ => rfl⟩
  | snoc hrun hstep ih =>
    obtain ⟨hrun', hholder⟩ := ih
    refine ⟨.snoc hrun' ⟨hstep, ?_⟩, fun run => (moves hstep run).holder.trans (hholder run)⟩
    rintro run rfl other hlive hsame
    rw [hholder, hholder] at hsame
    obtain rfl := hinj hsame
    simp only [Step, Lock.step] at hstep
    split at hstep
    · rename_i hidle
      rw [hidle] at hlive
      cases hlive
    · cases hstep

def email (run : Nat) : String := String.ofList (List.replicate (run + 1) 'a')

theorem email_injective : email.Injective := by
  intro run other h
  have hlength := congrArg String.length h
  simpa [email] using hlength

/-- A lease runs out, and the second person takes it over. -/
def takeover : List Act :=
  [.acquire 0, .call 0, .tick (seconds leaseSeconds), .acquire 1, .call 1, .call 1, .call 1, .typed 1 "a\n", .call 1]

theorem lease_of_run_takeover :
    ∃ w, Run Step (start {} 0 email) takeover w ∧ (w.lease 0).task = .held ∧ (w.lease 1).task = .held ∧
      w.object.object = some (body (w.lease 1), (w.lease 1).generation) := by
  have hrun : Run Step (start {} 0 email) takeover _ := Run.of_foldlM rfl
  exact ⟨_, hrun, rfl, rfl, (lease_of_run hrun).2.1 1 rfl rfl⟩

theorem exclusive_of_run_takeover :
    ∃ w, Run Step (start {} 0 email) takeover w ∧ (w.lease 0).task = .held ∧
      ∀ run, (w.lease run).task.holding = true → w.clock < (w.lease run).expires → 1 = run := by
  have hrun : Run Step (start {} 0 email) takeover _ := Run.of_foldlM rfl
  have hapart := (run_apart email_injective hrun).1
  exact ⟨_, hrun, rfl, fun run => exclusive_of_run hapart 1 run rfl (by decide)⟩

end Lock

end SwarmCloud.Install
