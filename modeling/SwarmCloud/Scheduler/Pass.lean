import SwarmCloud.Lib.Triples
import SwarmCloud.Scheduler.Slice

/-! # Passes of the drain

`DispatchLoop.drain` and `_admission_pass`: tasks are prepared in the order of
fairness, reserved in batches and dispatched in the same order. What preparing,
reserving and dispatching a task come to is anything; the drain is judged by what it
asks for and when. A watch reads those events and accepts only what admission is for.
-/

namespace SwarmCloud.Pass

open Common Lib Fairness

/-- What `Settings.__post_init__` lets through. -/
structure Settings extends SliceSettings where
  admissionBatchSize : Nat := 10
  maxLeasesPerRun : Nat := 200
  maxPassesPerRun : Nat := 25
  admissionBatchSize_pos : 0 < admissionBatchSize := by decide
  maxPassesPerRun_pos : 0 < maxPassesPerRun := by decide

/-- The READY queue at one read, with the pools' counts. -/
structure Queue where
  ready : List Task
  active : Dict String Int
  now : Instant
deriving DecidableEq

/-- What the drain asked for, and what came of it. -/
inductive Event
  /-- The tenant documents, and whether each is enabled. -/
  | asked (tenants : List (String × Bool))
  | pass (queue : Queue) (released : List Task) (roster : List String) (order : List Task)
  | prepared (task : Task) (admissible : Bool)
  | reserved (batch : List Task) (granted : List Bool)
  | contended (batch : List Task)
  | denied (task : Task)
  | dispatched (task : Task)
  /-- The store came back from giving the lease back. -/
  | returned (task : Task)
  /-- The call that gives the lease back raised: it may stay taken. -/
  | unreturned (task : Task)
deriving DecidableEq

/-- What a run still does for the leases it holds when one of them could not be given back. -/
def Event.givesBack : Event → Bool
  | .returned _ | .unreturned _ => true
  | _ => false

/-- The tasks of a batch that were leased. -/
def grants (batch : List Task) (granted : List Bool) : List Task :=
  ((batch.zip granted).filter Prod.snd).map Prod.fst

/-! ## The loop -/

/-- `router.dispatch` and what goes before it: it started the task, refused it as a `DispatchError`, or failed. -/
inductive Launch (ε : Type)
  | started
  | refused
  | failed (exc : ε)

/-- What the loop calls. An exception leaves what was done until then. -/
structure Services (ε σ : Type) where
  config : AgingConfig
  /-- `task.workflow_id`, where it is not empty. -/
  workflowId : Task → Option String
  paused : σ → Except ε Bool × σ
  readQueue : σ → Except ε Queue × σ
  tenants : σ → Except ε (List (String × Bool)) × σ
  /-- Whether `max_run_seconds` have gone by. -/
  late : σ → Bool × σ
  prepareAdmission : Task → σ → Except ε Bool × σ
  /-- Nothing when the transaction lost to another writer. -/
  acquireLeases : List Task → σ → Except ε (Option (List Bool)) × σ
  recordDenial : Task → σ → Except ε Unit × σ
  launch : Task → σ → Launch ε × σ
  /-- `return_to_ready_after_failed_dispatch`, with the code of the refusal where that is what it follows. -/
  returnToReady : Task → Bool → σ → Except ε Unit × σ
  markDispatched : Task → σ → Except ε Unit × σ

/-- The store and the clock, and what the run counts and keeps. -/
structure Drain (σ : Type) where
  world : σ
  /-- `_topup_tenant_ids`. -/
  roster : Option (List String) := none
  passes : Nat := 0
  scanned : Nat := 0
  leased : Nat := 0
  contended : Nat := 0
  events : List Event := []

abbrev Draining (ε σ : Type) := EStateM ε (Drain σ)

section Loop

variable {ε σ α : Type}

def call (f : σ → Except ε α × σ) : Draining ε σ α := fun d =>
  match f d.world with
  | (.ok a, world) => .ok a { d with world }
  | (.error exc, world) => .error exc { d with world }

def observe (f : σ → α × σ) : Draining ε σ α := fun d => .ok (f d.world).1 { d with world := (f d.world).2 }

def note (event : Event) : Draining ε σ PUnit := modify fun d => { d with events := d.events ++ [event] }

variable (services : Services ε σ) (s : Settings)

/-- That the lease could not be given back is only logged. -/
def rollbackAdmission (task : Task) : Draining ε σ PUnit := do
  let event ← tryCatch
    (do
      call (services.returnToReady task false)
      return Event.returned task)
    fun _ => return .unreturned task
  note event

def dispatchLeased (task : Task) : Draining ε σ Bool := do
  modify fun d => { d with leased := d.leased + 1 }
  match ← observe (services.launch task) with
  | .refused =>
    tryCatch (call (services.returnToReady task true)) fun exc => do
      note (.unreturned task)
      throw exc
    note (.returned task)
    return false
  | .failed exc =>
    rollbackAdmission services task
    throw exc
  | .started =>
    note (.dispatched task)
    call (services.markDispatched task)
    return true

/-- The loop over `pending`. -/
def settlePending : List (Task × Bool) → Nat → Draining ε σ Nat
  | [], leased => return leased
  | (task, false) :: pending, leased => do
    note (.denied task)
    call (services.recordDenial task)
    settlePending pending leased
  | (task, true) :: pending, leased => do
    let started ← tryCatch (dispatchLeased services task) fun exc => do
      ((pending.filter Prod.snd).map Prod.fst).forM (rollbackAdmission services)
      throw exc
    settlePending pending (if started then leased + 1 else leased)

def admitBatch (batch : List Task) : Draining ε σ Nat := do
  match ← call (services.acquireLeases batch) with
  | none =>
    note (.contended batch)
    modify fun d => { d with contended := d.contended + batch.length }
    return 0
  | some granted =>
    note (.reserved batch granted)
    settlePending services (batch.zip granted) 0

/-- Two steps of one workflow. -/
def sibling (workflowId : Task → Option String) (task item : Task) : Bool :=
  (workflowId task).isSome && ((item.tenantId, workflowId item) = (task.tenantId, workflowId task))

/-- A batch that holds a step of the task's workflow goes first. The third part says that the run's leases are used up. -/
def makeRoom (task : Task) (batch : List Task) (leased : Nat) : Draining ε σ (List Task × Nat × Bool) :=
  if batch.any (sibling services.workflowId task) then do
    let admitted ← admitBatch services batch
    let d ← get
    return ([], leased + admitted, s.maxLeasesPerRun ≤ d.leased)
  else return (batch, leased, false)

def offer (task : Task) (batch : List Task) (leased : Nat) : Draining ε σ (List Task × Nat) := do
  let admissible ← call (services.prepareAdmission task)
  note (.prepared task admissible)
  if admissible then
    if s.admissionBatchSize ≤ (batch ++ [task]).length then do
      let admitted ← admitBatch services (batch ++ [task])
      return ([], leased + admitted)
    else return (batch ++ [task], leased)
  else return (batch, leased)

/-- The loop over the order: the batch that is left, and how many were leased. -/
def takeTasks : List Task → List Task → Nat → Draining ε σ (List Task × Nat)
  | [], batch, leased => return (batch, leased)
  | task :: rest, batch, leased => do
    modify fun d => { d with scanned := d.scanned + 1 }
    let d ← get
    if s.maxLeasesPerRun ≤ d.leased + batch.length then return (batch, leased)
    else do
      let late ← observe services.late
      if late then return (batch, leased)
      else do
        let (batch, leased, full) ← makeRoom services s task batch leased
        if full then return (batch, leased)
        else do
          let (batch, leased) ← offer services s task batch leased
          takeTasks rest batch leased

/-- `_topup_tenant_ids`, read once where a full slice asks for it. -/
def topupTenantIds (slice : List Task) : Draining ε σ (List String) :=
  if s.tenantTopupCandidates = 0 ∨ slice.length < s.candidateBatchSize then return []
  else do
    let d ← get
    match d.roster with
    | some roster => return roster
    | none => do
      let tenants ← call services.tenants
      let roster := enabledTenantIds tenants s.maxTopupTenants
      modify fun d => { d with roster := some roster, events := d.events ++ [Event.asked tenants] }
      return roster

/-- The batch that is left at the end of a pass. -/
def admitLeft (batch : List Task) : Draining ε σ Nat :=
  if batch = [] then return 0 else admitBatch services batch

/-- Nothing when there was nothing READY to try. -/
def admissionPass (released : List Task) : Draining ε σ (Option Nat) := do
  let queue ← call services.readQueue
  let slice := sliceWith s.toSliceSettings queue.ready released
  if slice = [] then return none
  else do
    let roster ← topupTenantIds services s slice
    let order := (roundRobinOrder queue.now services.config (some queue.active)
      (candidates s.toSliceSettings roster queue.ready released)).getD []
    note (.pass queue released roster order)
    let (batch, leased) ← takeTasks services s order [] 0
    let admitted ← admitLeft services batch
    modify fun d => { d with passes := d.passes + 1 }
    return some (leased + admitted)

inductive StopReason
  | dispatchPaused
  | maxPasses
  | maxLeases
  | timeBudget
  | queueEmpty
  | allContended
  | noAdmissibleWork
deriving DecidableEq, Repr

/-- The `while` loop, with as many turns as `max_passes_per_run` leaves. -/
def drainLoop : Nat → Draining ε σ StopReason
  | 0 => return .maxPasses
  | left + 1 => do
    let before ← get
    if s.maxLeasesPerRun ≤ before.leased then return .maxLeases
    else do
      let late ← observe services.late
      if late then return .timeBudget
      else do
        let leasedThisPass ← admissionPass services s []
        let after ← get
        match leasedThisPass with
        | none => return .queueEmpty
        | some 0 =>
          if 0 < after.contended - before.contended ∧
              after.contended - before.contended = after.scanned - before.scanned then return .allContended
          else return .noAdmissibleWork
        | some (_ + 1) => drainLoop left

def drain : Draining ε σ StopReason := do
  let paused ← call services.paused
  if paused then return .dispatchPaused else drainLoop services s s.maxPassesPerRun

/-- What starts the scheduler: the tick, or a task that ended and what its end released. -/
inductive Trigger
  | tick
  | finished (released : List Task)

/-- `drain` or `release_dependants`, with the run's own report. -/
def handle : Trigger → Draining ε σ PUnit
  | .tick => do
    let _ ← drain services s
    return
  | .finished released => do
    let paused ← call services.paused
    if paused then return
    else do
      let _ ← admissionPass services s released
      return

end Loop

/-! ## The watch -/

/-- What has been asked for and not yet come to an end. -/
structure Watch where
  roster : Option (List String) := none
  passes : Nat := 0
  /-- What the pass has not prepared yet. -/
  queue : List Task := []
  batch : List Task := []
  /-- Leased, and not come to an end. -/
  unsent : List Task := []
  leases : Nat := 0
  /-- A lease could not be given back. -/
  stuck : Bool := false

section Watch

variable {ε σ : Type} (services : Services ε σ) (s : Settings)

/-- Whether the slice is full, so that the tenants it left out are asked for. -/
def Full (ready released : List Task) : Prop :=
  s.tenantTopupCandidates ≠ 0 ∧ s.candidateBatchSize ≤ (sliceWith s.toSliceSettings ready released).length

instance (ready released : List Task) : Decidable (Full s ready released) := inferInstanceAs (Decidable (_ ∧ _))

def Watch.next (w : Watch) : Event → Option Watch
  | .asked tenants =>
    if w.roster = none then some { w with roster := some (enabledTenantIds tenants s.maxTopupTenants) } else none
  | .pass queue released roster order =>
    if w.batch = [] ∧ w.unsent = [] ∧ w.passes < s.maxPassesPerRun ∧
        (Full s queue.ready released → w.roster = some roster) ∧
        roundRobinOrder queue.now services.config (some queue.active)
          (candidates s.toSliceSettings roster queue.ready released) = some order then
      some { w with passes := w.passes + 1, queue := order }
    else none
  | .prepared task admissible =>
    match w.queue with
    | [] => none
    | head :: queue =>
      if head = task ∧ w.unsent = [] ∧ w.leases + w.batch.length < s.maxLeasesPerRun ∧
          w.batch.length < s.admissionBatchSize ∧ w.batch.any (sibling services.workflowId task) = false then
        some { w with queue, batch := if admissible then w.batch ++ [task] else w.batch }
      else none
  | .reserved batch granted =>
    if w.batch = batch ∧ batch ≠ [] ∧ w.unsent = [] then
      some { w with batch := [], unsent := grants batch granted, leases := w.leases + (grants batch granted).length }
    else none
  | .contended batch => if w.batch = batch ∧ batch ≠ [] ∧ w.unsent = [] then some { w with batch := [] } else none
  | .denied _ => some w
  | .dispatched task | .returned task =>
    match w.unsent with
    | [] => none
    | head :: unsent => if head = task then some { w with unsent } else none
  | .unreturned task =>
    match w.unsent with
    | [] => none
    | head :: unsent => if head = task then some { w with unsent, stuck := true } else none

/-- Once a lease could not be given back, the run only gives back those after it. -/
def Watch.see (w : Watch) (event : Event) : Option Watch :=
  if w.stuck && !event.givesBack then none else w.next services s event

def watch (events : List Event) : Option Watch := events.foldlM (Watch.see services s) {}

end Watch

/-! ## What the loop does, watched -/

section Watched

variable {ε σ α : Type} {services : Services ε σ} {s : Settings} {w w' : Watch} {leased passes : Nat} {d : Drain σ}
  {event : Event} {task : Task} {rest batch : List Task}

/-- The run is where the watch says it is. -/
structure At (services : Services ε σ) (s : Settings) (w : Watch) (leased passes : Nat) (d : Drain σ) : Prop where
  seen : watch services s d.events = some w
  roster : d.roster = w.roster
  leased_eq : d.leased = leased
  passes_eq : d.passes = passes

theorem watch_snoc {events : List Event} (h : watch services s events = some w) (hsee : w.see services s event = some w') :
    watch services s (events ++ [event]) = some w' := by
  rw [watch, List.foldlM_append, ← watch, h]
  simp [hsee]

/-- What an exception leaves: nothing leased is left alone, unless it was the writing down of a denial that failed. -/
def Left (services : Services ε σ) (s : Settings) (_ : ε) (d : Drain σ) : Prop :=
  ∃ w, watch services s d.events = some w ∧
    (w.unsent = [] ∨ ∃ task, d.events.getLast? = some (.denied task))

theorem At.left (h : At services s w leased passes d) (hunsent : w.unsent = []) (exc : ε) : Left services s exc d :=
  ⟨w, h.seen, .inl hunsent⟩

theorem call_spec {P : Drain σ → Prop} {E : ε → Drain σ → Prop} {f : σ → Except ε α × σ}
    (hworld : ∀ d world, P d → P { d with world }) (hE : ∀ exc d, P d → E exc d) :
    Triple P (call f) (fun _ => P) E := by
  intro d hd
  rw [Pass.call]
  cases hf : f d.world with
  | mk result world =>
    cases result with
    | ok a => exact hworld d world hd
    | error exc => exact hE exc _ (hworld d world hd)

theorem observe_spec {P : Drain σ → Prop} {E : ε → Drain σ → Prop} {f : σ → α × σ}
    (hworld : ∀ d world, P d → P { d with world }) : Triple P (observe f) (fun _ => P) E :=
  fun d hd => hworld d _ hd

theorem At.world (world : σ) (h : At services s w leased passes d) : At services s w leased passes { d with world } :=
  ⟨h.seen, h.roster, h.leased_eq, h.passes_eq⟩

theorem note_spec {E : ε → Drain σ → Prop} (hsee : w.see services s event = some w') (hroster : w'.roster = w.roster) :
    Triple (At services s w leased passes) (note event) (fun _ => At services s w' leased passes) E :=
  Triple.modify fun _ h => ⟨watch_snoc h.seen hsee, h.roster.trans hroster.symm, h.leased_eq, h.passes_eq⟩

theorem see_eq_next (h : w.stuck = false ∨ event.givesBack = true) : w.see services s event = w.next services s event := by
  rw [Watch.see, if_neg]
  obtain h | h := h <;> simp [h]

theorem see_sent (hw : w.unsent = task :: rest) (hstuck : w.stuck = false) :
    w.see services s (.dispatched task) = some { w with unsent := rest } := by
  simp [see_eq_next (.inl hstuck), Watch.next, hw]

theorem see_returned (hw : w.unsent = task :: rest) :
    w.see services s (.returned task) = some { w with unsent := rest } := by
  rw [see_eq_next (.inr rfl)]
  simp [Watch.next, hw]

theorem see_unreturned (hw : w.unsent = task :: rest) :
    w.see services s (.unreturned task) = some { w with unsent := rest, stuck := true } := by
  rw [see_eq_next (.inr rfl)]
  simp [Watch.next, hw]

/-- The leases that are left are these, whatever was given back before. -/
def Leaves (services : Services ε σ) (s : Settings) (w : Watch) (unsent : List Task) (leased passes : Nat)
    (d : Drain σ) : Prop :=
  ∃ stuck, At services s { w with unsent, stuck } leased passes d

theorem At.leaves (h : At services s w leased passes d) (hw : w.unsent = rest) :
    Leaves services s w rest leased passes d :=
  ⟨w.stuck, hw ▸ h⟩

theorem rollbackAdmission_spec {E : ε → Drain σ → Prop} :
    Triple (Leaves services s w (task :: rest) leased passes) (rollbackAdmission services task)
      (fun _ => Leaves services s w rest leased passes) E := by
  unfold rollbackAdmission
  refine Triple.bind (Q := fun event d => Leaves services s w (task :: rest) leased passes d ∧
    (event = .returned task ∨ event = .unreturned task)) ?_ fun event => ?_
  · have hkeep : Triple (ε := ε) (Leaves services s w (task :: rest) leased passes)
        (call (services.returnToReady task false)) (fun _ => Leaves services s w (task :: rest) leased passes)
        fun _ => Leaves services s w (task :: rest) leased passes :=
      call_spec (fun _ world ⟨stuck, h⟩ => ⟨stuck, h.world world⟩) fun _ _ h => h
    refine Triple.tryCatch (Triple.bind hkeep fun _ => Triple.pure fun _ h => ⟨h, .inl rfl⟩) fun exc => ?_
    exact Triple.pure fun _ h => ⟨h, .inr rfl⟩
  · rintro d ⟨⟨stuck, h⟩, rfl | rfl⟩
    · exact ⟨stuck, watch_snoc h.seen (see_returned rfl), h.roster, h.leased_eq, h.passes_eq⟩
    · exact ⟨true, watch_snoc h.seen (see_unreturned rfl), h.roster, h.leased_eq, h.passes_eq⟩

/-- Whatever happens to a launch, its lease comes to an end. -/
theorem dispatchLeased_spec (hw : w.unsent = task :: rest) (hstuck : w.stuck = false) :
    Triple (At services s w leased passes) (dispatchLeased services task)
      (fun _ => At services s { w with unsent := rest } (leased + 1) passes)
      (fun _ => Leaves services s w rest (leased + 1) passes) := by
  unfold dispatchLeased
  refine Triple.bind (Q := fun _ => At services s w (leased + 1) passes) ?_ fun _ => ?_
  · exact Triple.modify fun _ h => ⟨h.seen, h.roster, congrArg (· + 1) h.leased_eq, h.passes_eq⟩
  refine Triple.bind (observe_spec fun d world h => h.world world) fun launch => ?_
  cases launch with
  | started =>
    refine Triple.bind (note_spec (see_sent hw hstuck) rfl) fun _ => ?_
    refine Triple.bind (call_spec (fun d world h => h.world world) fun _ _ h => h.leaves rfl) fun _ => ?_
    exact Triple.pure fun _ h => h
  | refused =>
    refine Triple.bind (Q := fun _ => At services s w (leased + 1) passes) ?_ fun _ => ?_
    · refine Triple.tryCatch (call_spec (fun d world h => h.world world) fun _ _ h => h) fun exc => ?_
      exact Triple.bind (note_spec (see_unreturned hw) rfl) fun _ => Triple.throw fun _ h => ⟨true, h⟩
    · exact Triple.bind (note_spec (see_returned hw) rfl) fun _ => Triple.pure fun _ h => h
  | failed exc =>
    refine Triple.bind (Q := fun _ => Leaves services s w rest (leased + 1) passes) ?_ fun _ => Triple.throw fun _ h => h
    exact rollbackAdmission_spec.weaken (fun _ h => h.leaves hw) (fun _ _ h => h) fun _ _ h => h

/-- The leases that come after one whose launch failed are given back, or asked back. -/
theorem rollbackAll_spec {E : ε → Drain σ → Prop} (tasks : List Task) :
    Triple (Leaves services s w tasks leased passes) (tasks.forM (rollbackAdmission services))
      (fun _ => Leaves services s w [] leased passes) E := by
  refine (Triple.forM (I := fun done => Leaves services s w (tasks.drop done.length) leased passes)
    ?_).weaken (fun _ h => h) (fun _ _ h => ?_) fun _ _ h => h
  · intro done task rest htasks
    have htask : tasks.drop done.length = task :: rest := by simp [htasks]
    have hrest : tasks.drop (done ++ [task]).length = rest := by simp [htasks]
    rw [htask, hrest]
    exact rollbackAdmission_spec
  · simpa using h

/-- The leases among what a batch came to. -/
def leasesIn (pending : List (Task × Bool)) : List Task := (pending.filter Prod.snd).map Prod.fst

theorem settlePending_spec (pending : List (Task × Bool)) (admitted : Nat) (hw : w.unsent = leasesIn pending)
    (hstuck : w.stuck = false) :
    Triple (At services s w leased passes) (settlePending services pending admitted)
      (fun _ => At services s { w with unsent := [] } (leased + (leasesIn pending).length) passes)
      (Left services s) := by
  induction pending generalizing w leased admitted with
  | nil =>
    refine Triple.pure fun _ h => ?_
    rw [← hw.trans (by rfl : leasesIn [] = [])]
    exact h
  | cons item pending ih =>
    obtain ⟨task, granted⟩ := item
    cases granted with
    | false =>
      rw [settlePending]
      refine Triple.bind (Q := fun _ d => At services s w leased passes d ∧ d.events.getLast? = some (.denied task)) ?_ ?_
      · intro d hd
        have hsee : w.see services s (.denied task) = some w := see_eq_next (.inl hstuck)
        refine ⟨⟨watch_snoc hd.seen hsee, hd.roster, hd.leased_eq, hd.passes_eq⟩, ?_⟩
        simp
      intro _
      refine Triple.bind (Q := fun _ => At services s w leased passes) ?_ fun _ => ih admitted hw hstuck
      refine (call_spec ?_ ?_).weaken (fun _ h => h) (fun _ _ h => h.1) fun _ _ h => h
      · exact fun d world h => ⟨h.1.world world, h.2⟩
      · exact fun exc d h => ⟨w, h.1.seen, .inr ⟨task, h.2⟩⟩
    | true =>
      rw [settlePending]
      have hunsent : w.unsent = task :: leasesIn pending := hw
      refine Triple.bind (Q := fun _ => At services s { w with unsent := leasesIn pending } (leased + 1) passes) ?_ ?_
      · refine Triple.tryCatch (dispatchLeased_spec hunsent hstuck) fun exc => ?_
        refine Triple.bind (rollbackAll_spec (leasesIn pending)) fun _ => ?_
        exact Triple.throw fun d ⟨_, h⟩ => h.left rfl exc
      · intro started
        refine (ih (w := { w with unsent := leasesIn pending }) _ rfl hstuck).weaken (fun _ h => h) ?_ fun _ _ h => h
        intro _ d h
        have hlength : leased + 1 + (leasesIn pending).length = leased + (leasesIn ((task, true) :: pending)).length := by
          simp [leasesIn]
          omega
        exact hlength ▸ h

theorem length_grants_le (batch : List Task) (granted : List Bool) : (grants batch granted).length ≤ batch.length := by
  rw [grants, List.length_map]
  refine (List.length_filter_le _ _).trans ?_
  rw [List.length_zip]
  exact Nat.min_le_left _ _

/-- Between two batches nothing is leased that was not sent on, and there is room for the batch that is open. -/
structure Idle (services : Services ε σ) (s : Settings) (queue batch : List Task) (seen passes : Nat) (d : Drain σ) :
    Prop where
  watched : At services s ⟨d.roster, seen, queue, batch, [], d.leased, false⟩ d.leased passes d
  room : d.leased + batch.length ≤ s.maxLeasesPerRun

section Idle

variable {queue : List Task} {seen : Nat} {roster : Option (List String)}

theorem Idle.left (h : Idle services s queue batch seen passes d) (exc : ε) : Left services s exc d :=
  h.watched.left rfl exc

theorem Idle.world (world : σ) (h : Idle services s queue batch seen passes d) :
    Idle services s queue batch seen passes { d with world } :=
  ⟨h.watched.world world, h.room⟩

theorem At.idle (h : At services s ⟨roster, seen, queue, batch, [], leased, false⟩ leased passes d)
    (hroom : leased + batch.length ≤ s.maxLeasesPerRun) : Idle services s queue batch seen passes d := by
  obtain rfl := h.leased_eq
  obtain rfl := h.roster
  exact ⟨h, hroom⟩

theorem idle_call {f : σ → Except ε α × σ} : Triple (Idle services s queue batch seen passes) (call f)
    (fun _ => Idle services s queue batch seen passes) (Left services s) :=
  call_spec (fun _ world h => h.world world) fun exc _ h => h.left exc

theorem idle_note {P : Drain σ → Prop} {E : ε → Drain σ → Prop} {queue' batch' : List Task} {seen' : Nat}
    (hidle : ∀ d, P d → Idle services s queue batch seen passes d)
    (h : ∀ d, P d → Watch.next services s ⟨d.roster, seen, queue, batch, [], d.leased, false⟩ event =
        some ⟨d.roster, seen', queue', batch', [], d.leased, false⟩ ∧ d.leased + batch'.length ≤ s.maxLeasesPerRun) :
    Triple P (note event) (fun _ => Idle services s queue' batch' seen' passes) E := by
  refine Triple.modify fun d hd => ?_
  obtain ⟨hsee, hroom⟩ := h d hd
  have hwatched := (hidle d hd).watched
  exact ⟨⟨watch_snoc hwatched.seen ((see_eq_next (.inl rfl)).trans hsee), rfl, hwatched.leased_eq, hwatched.passes_eq⟩, hroom⟩

theorem admitBatch_spec (hbatch : batch ≠ []) :
    Triple (Idle services s queue batch seen passes) (admitBatch services batch)
      (fun _ => Idle services s queue [] seen passes) (Left services s) := by
  unfold admitBatch
  refine Triple.bind idle_call fun granted => ?_
  cases granted with
  | none =>
    refine Triple.bind (Q := fun _ => Idle services s queue [] seen passes) (idle_note (fun _ h => h) fun d h => ?_)
      fun _ => ?_
    · exact ⟨if_pos ⟨rfl, hbatch, rfl⟩, (Nat.le_add_right _ _).trans h.room⟩
    · refine Triple.bind (Triple.modify fun _ h => ?_) fun _ => Triple.pure fun _ h => h
      exact ⟨⟨h.watched.seen, h.watched.roster, h.watched.leased_eq, h.watched.passes_eq⟩, h.room⟩
  | some granted =>
    intro d h
    have hroom := h.room
    have hle := length_grants_le batch granted
    have hsee : Watch.see services s ⟨d.roster, seen, queue, batch, [], d.leased, false⟩ (.reserved batch granted) =
        some ⟨d.roster, seen, queue, [], grants batch granted, d.leased + (grants batch granted).length, false⟩ :=
      (see_eq_next (.inl rfl)).trans (if_pos ⟨rfl, hbatch, rfl⟩)
    refine Triple.bind (note_spec hsee rfl) (fun _ => ?_) d h.watched
    refine (settlePending_spec (batch.zip granted) 0 rfl rfl).weaken (fun _ h => h) ?_ fun _ _ h => h
    intro _ d' h'
    refine h'.idle ?_
    change d.leased + (grants batch granted).length + 0 ≤ s.maxLeasesPerRun
    omega

/-- Room for one task more. -/
def Open (services : Services ε σ) (s : Settings) (queue batch : List Task) (seen passes : Nat) (d : Drain σ) : Prop :=
  Idle services s queue batch seen passes d ∧ d.leased + batch.length < s.maxLeasesPerRun

theorem makeRoom_spec (task : Task) (hsize : batch.length < s.admissionBatchSize) (admitted : Nat) :
    Triple (Open services s queue batch seen passes) (makeRoom services s task batch admitted)
      (fun made d => made.1.length < s.admissionBatchSize ∧ made.1.any (sibling services.workflowId task) = false ∧
        Idle services s queue made.1 seen passes d ∧
        (made.2.2 = false → Open services s queue made.1 seen passes d))
      (Left services s) := by
  unfold makeRoom
  refine Triple.ite (fun hany => ?_) fun hnone => Triple.pure fun d h => ⟨hsize, by simpa using hnone, h.1, fun _ => h⟩
  have hbatch : batch ≠ [] := by
    rintro rfl
    simp at hany
  have hadmit : Triple (Open services s queue batch seen passes) (admitBatch services batch)
      (fun _ => Idle services s queue [] seen passes) (Left services s) :=
    (admitBatch_spec hbatch).weaken (fun _ h => h.1) (fun _ _ h => h) fun _ _ h => h
  refine Triple.bind hadmit fun _ => Triple.get_bind fun d h => Triple.pure ?_
  rintro _ rfl
  refine ⟨s.admissionBatchSize_pos, rfl, h, fun hfull => ⟨h, ?_⟩⟩
  simp only [decide_eq_false_iff_not, not_le] at hfull
  exact hfull

theorem offer_spec (task : Task) (hsize : batch.length < s.admissionBatchSize)
    (hnone : batch.any (sibling services.workflowId task) = false) (admitted : Nat) :
    Triple (Open services s (task :: queue) batch seen passes) (offer services s task batch admitted)
      (fun offered d => offered.1.length < s.admissionBatchSize ∧ Idle services s queue offered.1 seen passes d)
      (Left services s) := by
  unfold offer
  refine Triple.bind (Q := fun _ => Open services s (task :: queue) batch seen passes) ?_ fun admissible => ?_
  · exact call_spec (fun _ world h => ⟨h.1.world world, h.2⟩) fun exc _ h => h.1.left exc
  refine Triple.bind (Q := fun _ => Idle services s queue (if admissible then batch ++ [task] else batch) seen passes)
    (idle_note (fun _ h => h.1) fun d h => ?_) fun _ => ?_
  · have hroom := h.2
    refine ⟨if_pos ⟨rfl, rfl, hroom, hsize, hnone⟩, ?_⟩
    cases admissible <;> simp <;> omega
  cases admissible with
  | false => exact Triple.pure fun d h => ⟨hsize, h⟩
  | true =>
    simp only [↓reduceIte]
    refine Triple.ite (fun _ => ?_) fun hfull => Triple.pure fun d h => ⟨not_le.mp hfull, h⟩
    refine Triple.bind (admitBatch_spec (List.append_ne_nil_of_right_ne_nil _ (List.cons_ne_nil _ _))) fun _ => ?_
    exact Triple.pure fun d h => ⟨s.admissionBatchSize_pos, h⟩

theorem takeTasks_spec (order batch : List Task) (hsize : batch.length < s.admissionBatchSize) (admitted : Nat) :
    Triple (Idle services s order batch seen passes) (takeTasks services s order batch admitted)
      (fun taken d => ∃ queue, Idle services s queue taken.1 seen passes d) (Left services s) := by
  induction order generalizing batch admitted with
  | nil => exact Triple.pure fun d h => ⟨[], h⟩
  | cons task rest ih =>
    rw [takeTasks]
    refine Triple.bind (Q := fun _ => Idle services s (task :: rest) batch seen passes) ?_ fun _ => ?_
    · exact Triple.modify fun d h => ⟨⟨h.watched.seen, h.watched.roster, h.watched.leased_eq, h.watched.passes_eq⟩, h.room⟩
    refine Triple.get_bind fun d h => ?_
    refine Triple.ite (fun _ => Triple.pure ?_) fun hroom => ?_
    · rintro _ rfl
      exact ⟨_, h⟩
    refine Triple.bind (Q := fun _ => Open services s (task :: rest) batch seen passes) ?_ fun late => ?_
    · refine (observe_spec fun _ world h => ?_).weaken (P := Open services s (task :: rest) batch seen passes)
        ?_ (fun _ _ h => h) fun _ _ h => h
      · exact ⟨h.1.world world, h.2⟩
      · rintro _ rfl
        exact ⟨h, by omega⟩
    refine Triple.ite (fun _ => Triple.pure fun _ h => ⟨_, h.1⟩) fun _ => ?_
    refine Triple.bind (makeRoom_spec task hsize admitted) ?_
    rintro ⟨batch', admitted', full⟩
    cases full with
    | true => exact Triple.pure fun _ h => ⟨_, h.2.2.1⟩
    | false =>
      intro d' h'
      obtain ⟨hsize', hnone, -, hopen⟩ := h'
      refine Triple.bind (offer_spec task hsize' hnone admitted') ?_ d' (hopen rfl)
      rintro ⟨batch'', admitted''⟩ d'' ⟨hsize'', h''⟩
      exact ih batch'' hsize'' admitted'' d'' h''

/-- The slice of a pass that asks nobody, or the roster of the run. -/
theorem topupTenantIds_spec (slice : List Task) :
    Triple (Idle services s queue batch seen passes) (topupTenantIds services s slice)
      (fun roster d => Idle services s queue batch seen passes d ∧
        (s.tenantTopupCandidates ≠ 0 ∧ s.candidateBatchSize ≤ slice.length → d.roster = some roster))
      (Left services s) := by
  unfold topupTenantIds
  refine Triple.ite (fun hnone => Triple.pure fun _ h => ⟨h, fun hfull => ?_⟩) fun _ => Triple.get_bind fun d h => ?_
  · omega
  cases hroster : d.roster with
  | some roster =>
    refine Triple.pure ?_
    rintro _ rfl
    exact ⟨h, fun _ => hroster⟩
  | none =>
    refine Triple.bind (Q := fun _ d => Idle services s queue batch seen passes d ∧ d.roster = none) ?_ fun tenants => ?_
    · refine (call_spec (P := fun d => Idle services s queue batch seen passes d ∧ d.roster = none)
        ?_ fun exc _ h => h.1.left exc).weaken ?_ (fun _ _ h => h) fun _ _ h => h
      · exact fun _ world h => ⟨h.1.world world, h.2⟩
      · rintro _ rfl
        exact ⟨h, hroster⟩
    refine Triple.bind (Q := fun _ d => Idle services s queue batch seen passes d ∧
      d.roster = some (enabledTenantIds tenants s.maxTopupTenants)) (Triple.modify fun d h => ⟨?_, rfl⟩) fun _ => ?_
    · have hwatched := h.1.watched
      rw [h.2] at hwatched
      exact ⟨⟨watch_snoc hwatched.seen rfl, rfl, hwatched.leased_eq, hwatched.passes_eq⟩, h.1.room⟩
    · exact Triple.pure fun _ h => ⟨h.1, fun _ => h.2⟩

theorem admissionPass_spec (released : List Task) (hpasses : passes < s.maxPassesPerRun) :
    Triple (Idle services s queue [] passes passes) (admissionPass services s released)
      (fun leased d => ∃ queue, leased.elim (Idle services s queue [] passes passes d)
        fun _ => Idle services s queue [] (passes + 1) (passes + 1) d)
      (Left services s) := by
  unfold admissionPass
  refine Triple.bind idle_call fun read => ?_
  dsimp only
  refine Triple.ite (fun _ => Triple.pure fun _ h => ⟨_, h⟩) fun _ => ?_
  refine Triple.bind (topupTenantIds_spec _) fun roster => ?_
  obtain ⟨order, horder⟩ : ∃ order, roundRobinOrder read.now services.config (some read.active)
      (candidates s.toSliceSettings roster read.ready released) = some order := by
    obtain ⟨n, horder, -⟩ := roundRobinOrder_eq read.now services.config (some read.active)
      (candidates s.toSliceSettings roster read.ready released)
    exact ⟨_, horder⟩
  rw [horder, Option.getD_some]
  refine Triple.bind (Q := fun _ => Idle services s order [] (passes + 1) passes) ?_ fun _ => ?_
  · refine idle_note (fun _ h => h.1) fun d h => ⟨if_pos ⟨rfl, rfl, hpasses, ?_, horder⟩, h.1.room⟩
    exact fun hfull => h.2 hfull
  refine Triple.bind (takeTasks_spec order [] s.admissionBatchSize_pos 0) ?_
  rintro ⟨batch, leased⟩ d ⟨queue', h⟩
  refine Triple.bind (Q := fun _ => Idle services s queue' [] (passes + 1) passes) ?_ (fun admitted => ?_) d h
  · refine Triple.ite (fun hnil => ?_) fun hbatch => admitBatch_spec hbatch
    exact Triple.pure fun _ h => hnil ▸ h
  · refine Triple.bind (Q := fun _ => Idle services s queue' [] (passes + 1) (passes + 1)) ?_ fun _ => ?_
    · refine Triple.modify fun d h => ⟨⟨h.watched.seen, h.watched.roster, h.watched.leased_eq, ?_⟩, h.room⟩
      exact congrArg (· + 1) h.watched.passes_eq
    · exact Triple.pure fun _ h => ⟨queue', h⟩

/-- How a drain that came to its end stands. -/
def Ended (services : Services ε σ) (s : Settings) (reason : StopReason) (d : Drain σ) : Prop :=
  ∃ queue passes, Idle services s queue [] passes passes d ∧
    (reason = .maxPasses → passes = s.maxPassesPerRun) ∧ (reason = .maxLeases → d.leased = s.maxLeasesPerRun)

theorem drainLoop_spec (left : Nat) (hleft : passes + left = s.maxPassesPerRun) :
    Triple (Idle services s queue [] passes passes) (drainLoop services s left) (Ended services s) (Left services s) := by
  induction left generalizing queue passes with
  | zero => exact Triple.pure fun _ h => ⟨_, _, h, fun _ => hleft, nofun⟩
  | succ left ih =>
    rw [drainLoop]
    refine Triple.get_bind fun before hbefore => Triple.ite (fun hfull => Triple.pure ?_) fun _ => ?_
    · rintro _ rfl
      exact ⟨_, _, hbefore, nofun, fun _ => le_antisymm hbefore.room hfull⟩
    refine Triple.bind (Q := fun _ => Idle services s queue [] passes passes) ?_ fun late => ?_
    · refine (observe_spec fun _ world h => h.world world).weaken (P := Idle services s queue [] passes passes)
        ?_ (fun _ _ h => h) fun _ _ h => h
      rintro _ rfl
      exact hbefore
    refine Triple.ite (fun _ => Triple.pure fun _ h => ⟨_, _, h, nofun, nofun⟩) fun _ => ?_
    have hmore : passes < s.maxPassesPerRun := by omega
    refine Triple.bind (admissionPass_spec [] hmore) fun leased => Triple.get_bind fun after hafter => ?_
    obtain ⟨queue', hpass⟩ := hafter
    match leased, hpass with
    | none, hpass =>
      refine Triple.pure ?_
      rintro _ rfl
      exact ⟨_, _, hpass, nofun, nofun⟩
    | some 0, hpass =>
      refine Triple.ite (fun _ => Triple.pure ?_) fun _ => Triple.pure ?_
      · rintro _ rfl
        exact ⟨_, _, hpass, nofun, nofun⟩
      · rintro _ rfl
        exact ⟨_, _, hpass, nofun, nofun⟩
    | some (_ + 1), hpass =>
      have hnext : passes + 1 + left = s.maxPassesPerRun := by omega
      rintro _ rfl
      exact ih hnext _ hpass

theorem idle_start (world : σ) : Idle services s [] [] 0 0 ({ world } : Drain σ) :=
  ⟨⟨rfl, rfl, rfl, rfl⟩, Nat.zero_le _⟩

theorem drain_spec :
    Triple (Idle services s [] [] 0 0) (drain services s) (Ended services s) (Left services s) := by
  unfold drain
  refine Triple.bind idle_call fun paused => Triple.ite (fun _ => Triple.pure fun _ h => ?_) fun _ => ?_
  · exact ⟨_, _, h, nofun, nofun⟩
  · exact drainLoop_spec s.maxPassesPerRun (Nat.zero_add _)

/-- A run that comes to its end has dispatched or given back all it leased. -/
theorem handle_spec (trigger : Trigger) :
    Triple (Idle services s [] [] 0 0) (handle services s trigger)
      (fun _ d => ∃ w, watch services s d.events = some w ∧ w.unsent = [] ∧ w.stuck = false) (Left services s) := by
  cases trigger with
  | tick =>
    refine Triple.bind drain_spec fun reason => Triple.pure fun d h => ?_
    obtain ⟨queue, passes, hidle, -⟩ := h
    exact ⟨_, hidle.watched.seen, rfl, rfl⟩
  | finished released =>
    refine Triple.bind idle_call fun paused => Triple.ite (fun _ => Triple.pure fun _ h => ?_) fun _ => ?_
    · exact ⟨_, h.watched.seen, rfl, rfl⟩
    have hpasses : 0 < s.maxPassesPerRun := s.maxPassesPerRun_pos
    refine Triple.bind (admissionPass_spec released hpasses) fun leased => Triple.pure fun d h => ?_
    obtain ⟨queue, h⟩ := h
    cases leased with
    | none => exact ⟨_, h.watched.seen, rfl, rfl⟩
    | some leased => exact ⟨_, h.watched.seen, rfl, rfl⟩

end Idle

end Watched

/-! ## What the watch accepts -/

def preparedIn (events : List Event) : List Task :=
  events.filterMap fun
    | .prepared task true => some task
    | _ => none

/-- What went into a reservation, whatever came of it. -/
def reservedIn (events : List Event) : List Task :=
  events.flatMap fun
    | .reserved batch _ => batch
    | .contended batch => batch
    | _ => []

def leasedIn (events : List Event) : List Task :=
  events.flatMap fun
    | .reserved batch granted => grants batch granted
    | _ => []

/-- Dispatched, given back, or asked back by a call that raised. -/
def endedIn (events : List Event) : List Task :=
  events.filterMap fun
    | .dispatched task => some task
    | .returned task => some task
    | .unreturned task => some task
    | _ => none

def passesIn (events : List Event) : Nat :=
  events.countP fun
    | .pass .. => true
    | _ => false

/-- What a pass has tried. -/
def triedIn (events : List Event) : List Task :=
  events.filterMap fun
    | .prepared task _ => some task
    | _ => none

section Accepted

variable {ε σ : Type} {services : Services ε σ} {s : Settings} {w w' : Watch} {event : Event} {events : List Event}

@[simp] theorem preparedIn_append (events more : List Event) :
    preparedIn (events ++ more) = preparedIn events ++ preparedIn more := List.filterMap_append

@[simp] theorem reservedIn_append (events more : List Event) :
    reservedIn (events ++ more) = reservedIn events ++ reservedIn more := List.flatMap_append

@[simp] theorem leasedIn_append (events more : List Event) :
    leasedIn (events ++ more) = leasedIn events ++ leasedIn more := List.flatMap_append

@[simp] theorem endedIn_append (events more : List Event) :
    endedIn (events ++ more) = endedIn events ++ endedIn more := List.filterMap_append

@[simp] theorem triedIn_append (events more : List Event) : triedIn (events ++ more) = triedIn events ++ triedIn more :=
  List.filterMap_append

theorem watch_append_eq {more : List Event} :
    watch services s (events ++ more) = (watch services s events).bind fun w => more.foldlM (Watch.see services s) w :=
  List.foldlM_append

theorem next_of_see (h : w.see services s event = some w') :
    (w.stuck = true → event.givesBack = true) ∧ w.next services s event = some w' := by
  rw [Watch.see] at h
  split at h
  · cases h
  · rename_i hgives
    exact ⟨fun hstuck => by simpa [hstuck] using hgives, h⟩

theorem watch_snoc_eq (h : watch services s (events ++ [event]) = some w') :
    ∃ w, watch services s events = some w ∧ (w.stuck = true → event.givesBack = true) ∧
      w.next services s event = some w' := by
  rw [watch_append_eq, Option.bind_eq_some_iff] at h
  obtain ⟨w, hw, hsee⟩ := h
  exact ⟨w, hw, next_of_see (by simpa using hsee)⟩

/-- What the watch knows is what has happened. -/
structure Accounts (services : Services ε σ) (s : Settings) (events : List Event) (w : Watch) : Prop where
  leased_eq : leasedIn events = endedIn events ++ w.unsent
  leases_eq : w.leases = (leasedIn events).length
  prepared_eq : preparedIn events = reservedIn events ++ w.batch
  room : w.leases + w.batch.length ≤ s.maxLeasesPerRun
  size : w.batch.length ≤ s.admissionBatchSize
  apart : w.batch.Pairwise fun item task => sibling services.workflowId task item = false

/-- An event that leases, prepares and reserves nothing, and ends the oldest lease that is left or none. -/
theorem Accounts.quiet (h : Accounts services s events w) (hleases : leasedIn [event] = []) (hprepares : preparedIn [event] = [])
    (hreserves : reservedIn [event] = []) (hunsent : endedIn [event] ++ w'.unsent = w.unsent) (hleased : w'.leases = w.leases)
    (hbatch : w'.batch = w.batch) : Accounts services s (events ++ [event]) w' where
  leased_eq := by simp [hleases, hunsent, h.leased_eq]
  leases_eq := by simp [hleases, hleased, h.leases_eq]
  prepared_eq := by simp [hprepares, hreserves, hbatch, h.prepared_eq]
  room := by
    rw [hleased, hbatch]
    exact h.room
  size := by
    rw [hbatch]
    exact h.size
  apart := by
    rw [hbatch]
    exact h.apart

theorem Accounts.next (h : Accounts services s events w) (hnext : w.next services s event = some w') :
    Accounts services s (events ++ [event]) w' := by
  cases event with
  | asked tenants =>
    simp only [Watch.next, Option.ite_none_right_eq_some, Option.some.injEq] at hnext
    obtain ⟨-, rfl⟩ := hnext
    exact h.quiet rfl rfl rfl rfl rfl rfl
  | pass queue released roster order =>
    simp only [Watch.next, Option.ite_none_right_eq_some, Option.some.injEq] at hnext
    obtain ⟨-, rfl⟩ := hnext
    exact h.quiet rfl rfl rfl rfl rfl rfl
  | denied task =>
    obtain rfl := Option.some.inj hnext
    exact h.quiet rfl rfl rfl rfl rfl rfl
  | prepared task admissible =>
    rw [Watch.next] at hnext
    split at hnext
    · cases hnext
    simp only [Option.ite_none_right_eq_some, Option.some.injEq] at hnext
    obtain ⟨⟨-, -, hless, hshort, hnone⟩, rfl⟩ := hnext
    cases admissible with
    | false => exact h.quiet rfl rfl rfl rfl rfl rfl
    | true =>
      refine ⟨by simpa [leasedIn, endedIn] using h.leased_eq, by simp [leasedIn, h.leases_eq], ?_, ?_, ?_, ?_⟩
      · rw [preparedIn_append, reservedIn_append, h.prepared_eq]
        simp [preparedIn, reservedIn]
      · simp
        omega
      · simp
        omega
      · rw [if_pos rfl, List.pairwise_append]
        refine ⟨h.apart, List.pairwise_singleton _ _, fun item hitem other hother => ?_⟩
        obtain rfl := List.mem_singleton.mp hother
        rw [List.any_eq_false] at hnone
        simpa using hnone item hitem
  | reserved batch granted =>
    simp only [Watch.next, Option.ite_none_right_eq_some, Option.some.injEq] at hnext
    obtain ⟨⟨rfl, -, hunsent⟩, rfl⟩ := hnext
    have hle := length_grants_le w.batch granted
    have hroom := h.room
    refine ⟨?_, ?_, ?_, ?_, Nat.zero_le _, List.Pairwise.nil⟩
    · rw [leasedIn_append, endedIn_append, h.leased_eq, hunsent]
      simp [leasedIn, endedIn]
    · rw [leasedIn_append, List.length_append, ← h.leases_eq]
      simp [leasedIn]
    · rw [preparedIn_append, reservedIn_append, h.prepared_eq]
      simp [preparedIn, reservedIn]
    · simp
      omega
  | contended batch =>
    simp only [Watch.next, Option.ite_none_right_eq_some, Option.some.injEq] at hnext
    obtain ⟨⟨rfl, -, -⟩, rfl⟩ := hnext
    have hroom := h.room
    refine ⟨by simpa [leasedIn, endedIn] using h.leased_eq, by simp [leasedIn, h.leases_eq], ?_, ?_, Nat.zero_le _,
      List.Pairwise.nil⟩
    · rw [preparedIn_append, reservedIn_append, h.prepared_eq]
      simp [preparedIn, reservedIn]
    · simp
      omega
  | dispatched task | returned task | unreturned task =>
    rw [Watch.next] at hnext
    split at hnext
    · cases hnext
    rename_i head unsent hunsent
    simp only [Option.ite_none_right_eq_some, Option.some.injEq] at hnext
    obtain ⟨rfl, rfl⟩ := hnext
    exact h.quiet rfl rfl rfl hunsent.symm rfl rfl

theorem accounts (h : watch services s events = some w) : Accounts services s events w := by
  induction events using List.reverseRecOn generalizing w with
  | nil =>
    obtain rfl := Option.some.inj h
    exact ⟨rfl, rfl, rfl, Nat.zero_le _, Nat.zero_le _, List.Pairwise.nil⟩
  | append_singleton events event ih =>
    obtain ⟨before, hbefore, -, hnext⟩ := watch_snoc_eq h
    exact (ih hbefore).next hnext

/-- What was seen at one event, and what was seen before it. -/
theorem watch_at {before after : List Event} (h : watch services s (before ++ event :: after) = some w) :
    ∃ w₁ w₂, watch services s before = some w₁ ∧
      ((w₁.stuck = true → event.givesBack = true) ∧ w₁.next services s event = some w₂) ∧
      after.foldlM (Watch.see services s) w₂ = some w := by
  rw [watch_append_eq, Option.bind_eq_some_iff] at h
  obtain ⟨w₁, hbefore, hrest⟩ := h
  rw [List.foldlM_cons] at hrest
  obtain ⟨w₂, hsee, hafter⟩ := Option.bind_eq_some_iff.mp hrest
  exact ⟨w₁, w₂, hbefore, next_of_see hsee, hafter⟩

/-- Within a pass the queue is tried from the front. -/
theorem tried_begins {part : List Event} (h : part.foldlM (Watch.see services s) w = some w')
    (hpass : passesIn part = 0) : w.queue = triedIn part ++ w'.queue := by
  induction part generalizing w with
  | nil =>
    obtain rfl := Option.some.inj h
    rfl
  | cons event part ih =>
    rw [List.foldlM_cons] at h
    obtain ⟨w₁, hsee, hrest⟩ := Option.bind_eq_some_iff.mp h
    have hsee := (next_of_see hsee).2
    have hsplit : passesIn ([event] ++ part) = passesIn [event] + passesIn part := List.countP_append
    rw [List.singleton_append] at hsplit
    have hnext := ih hrest (by omega)
    cases event with
    | pass queue released roster order =>
      simp [passesIn] at hpass
    | denied task =>
      obtain rfl := Option.some.inj hsee
      exact hnext
    | asked tenants | reserved batch granted | contended batch =>
      simp only [Watch.next, Option.ite_none_right_eq_some, Option.some.injEq] at hsee
      obtain ⟨-, rfl⟩ := hsee
      exact hnext
    | dispatched task | returned task | unreturned task =>
      rw [Watch.next] at hsee
      split at hsee
      · cases hsee
      simp only [Option.ite_none_right_eq_some, Option.some.injEq] at hsee
      obtain ⟨-, rfl⟩ := hsee
      exact hnext
    | prepared task admissible =>
      rw [Watch.next] at hsee
      split at hsee
      · cases hsee
      rename_i head queue hqueue
      simp only [Option.ite_none_right_eq_some, Option.some.injEq] at hsee
      obtain ⟨⟨rfl, -⟩, rfl⟩ := hsee
      rw [hqueue]
      exact congrArg (head :: ·) hnext

theorem roster_asked (h : watch services s events = some w) :
    ∀ roster ∈ w.roster, ∃ tenants, .asked tenants ∈ events ∧ roster = enabledTenantIds tenants s.maxTopupTenants := by
  induction events using List.reverseRecOn generalizing w with
  | nil =>
    obtain rfl := Option.some.inj h
    exact fun roster hroster => absurd hroster nofun
  | append_singleton events event ih =>
    obtain ⟨before, hbefore, -, hsee⟩ := watch_snoc_eq h
    have hold : ∀ roster ∈ before.roster, ∃ tenants, .asked tenants ∈ events ++ [event] ∧
        roster = enabledTenantIds tenants s.maxTopupTenants := by
      intro roster hroster
      obtain ⟨tenants, htenants, heq⟩ := ih hbefore roster hroster
      exact ⟨tenants, List.mem_append_left _ htenants, heq⟩
    cases event with
    | asked tenants =>
      simp only [Watch.next, Option.ite_none_right_eq_some, Option.some.injEq] at hsee
      obtain ⟨-, rfl⟩ := hsee
      intro roster hroster
      exact ⟨tenants, by simp, (Option.some.inj hroster).symm⟩
    | denied task =>
      obtain rfl := Option.some.inj hsee
      exact hold
    | pass queue released roster order | reserved batch granted | contended batch =>
      simp only [Watch.next, Option.ite_none_right_eq_some, Option.some.injEq] at hsee
      obtain ⟨-, rfl⟩ := hsee
      exact hold
    | prepared task admissible | dispatched task | returned task | unreturned task =>
      rw [Watch.next] at hsee
      split at hsee
      · cases hsee
      simp only [Option.ite_none_right_eq_some, Option.some.injEq] at hsee
      obtain ⟨-, rfl⟩ := hsee
      exact hold

end Accepted

/-! ## Every run -/

section Run

variable {ε σ : Type} (services : Services ε σ) (s : Settings)

/-- Where a run comes to, by its end or by an exception. -/
def after (trigger : Trigger) (world : σ) : Drain σ :=
  match handle services s trigger { world } with
  | .ok _ d => d
  | .error _ d => d

theorem handle_watched (trigger : Trigger) (world : σ) :
    ∃ w, watch services s (after services s trigger world).events = some w ∧
      (w.unsent = [] ∨ ∃ task, (after services s trigger world).events.getLast? = some (.denied task)) ∧
      ∀ d, handle services s trigger { world } = .ok ⟨⟩ d → w.unsent = [] ∧ w.stuck = false := by
  have hspec : Triple (Idle services s [] [] 0 0) _ _ (Left services s) := handle_spec trigger
  have hrun := hspec { world } (idle_start world)
  rw [after]
  cases hend : handle services s trigger { world } with
  | ok _ d =>
    rw [hend] at hrun
    obtain ⟨w, hw, hunsent, hstuck⟩ := hrun
    exact ⟨w, hw, .inl hunsent, fun _ _ => ⟨hunsent, hstuck⟩⟩
  | error exc d =>
    rw [hend] at hrun
    obtain ⟨w, hw, hunsent⟩ := hrun
    exact ⟨w, hw, hunsent, fun _ h => nomatch h⟩

/-- Each pass tries the fair order of its candidates from the front. Where the slice is full, the tenants it asks for are
the enabled ones among the first documents of the one read of them in the run. So a pass serves nobody twice before it
has served every tenant with READY work that it asked for, and every tenant where it saw the whole queue. -/
theorem handle_serves (trigger : Trigger) (world : σ) (before part rest : List Event) {queue : Queue}
    {released order : List Task} {roster : List String}
    (hevents : (after services s trigger world).events =
      before ++ .pass queue released roster order :: (part ++ rest)) (hpart : passesIn part = 0) :
    roundRobinOrder queue.now services.config (some queue.active)
        (candidates s.toSliceSettings roster queue.ready released) = some order ∧
      triedIn part <+: order ∧
      (Full s queue.ready released →
        ∃ tenants, .asked tenants ∈ before ∧ roster = enabledTenantIds tenants s.maxTopupTenants) ∧
      ((queue.ready.map Task.id).Nodup → (released.map Task.id).Nodup →
        (∀ a ∈ queue.ready ++ released, ∀ b ∈ queue.ready ++ released, a.id = b.id → a.tenantId = b.tenantId) →
        (order.map Task.id).Nodup ∧ (∀ task ∈ order, task ∈ queue.ready ∨ task ∈ released) ∧
        ∀ task ∈ queue.ready,
          (queue.ready.length < s.candidateBatchSize ∨ task.tenantId ∈ roster ∧ 0 < s.tenantTopupCandidates) →
          (∃ first ∈ triedIn part, first.tenantId = task.tenantId) ∨
            ∀ tenantId, (triedIn part).countP (fun t => t.tenantId = tenantId) ≤ 1) := by
  obtain ⟨w, hw, -⟩ := handle_watched services s trigger world
  rw [hevents] at hw
  obtain ⟨w₁, w₂, hbefore, ⟨-, hnext⟩, hafter⟩ := watch_at hw
  simp only [Watch.next, Option.ite_none_right_eq_some, Option.some.injEq] at hnext
  obtain ⟨⟨-, -, -, hroster, horder⟩, rfl⟩ := hnext
  rw [List.foldlM_append] at hafter
  obtain ⟨w₃, hmid, -⟩ := Option.bind_eq_some_iff.mp hafter
  have hbegins : triedIn part <+: order := ⟨w₃.queue, (tried_begins hmid hpart).symm⟩
  refine ⟨horder, hbegins, fun hfull => roster_asked hbefore roster (hroster hfull), fun hready hreleased hids => ?_⟩
  obtain ⟨order', horder', hnodup, hmem, -, hserves⟩ := order_serves s.toSliceSettings queue.now services.config
    (some queue.active) roster hready hreleased hids
  obtain rfl := Option.some.inj (horder.symm.trans horder')
  exact ⟨hnodup, hmem, hserves _ hbegins⟩

end Run

section Sample

def ofAcme (id : String) (createdAt : Instant) : Task := ⟨id, "acme", 5, createdAt⟩

def ofZeta : Task := ⟨"z1", "zeta", 0, 0⟩

def flood : List Task := [ofAcme "a1" 0, ofAcme "a2" 1, ofAcme "a3" 2, ofZeta]

def tenantDocs : List (String × Bool) := [("acme", true), ("beta", false), ("zeta", true), ("yota", true)]

/-- A queue that `acme` floods, and no capacity for `zeta`. -/
def flooded : Services Unit Unit where
  config := {}
  workflowId := fun _ => none
  paused := fun _ => (.ok false, ())
  readQueue := fun _ => (.ok ⟨flood, [], 10⟩, ())
  tenants := fun _ => (.ok tenantDocs, ())
  late := fun _ => (false, ())
  prepareAdmission := fun _ _ => (.ok true, ())
  acquireLeases := fun batch _ => (.ok (some (batch.map fun task => task.tenantId != "zeta")), ())
  recordDenial := fun _ _ => (.ok (), ())
  launch := fun _ _ => (.started, ())
  returnToReady := fun _ _ _ => (.ok (), ())
  markDispatched := fun _ _ => (.ok (), ())

/-- A slice of two tasks, with one more of each tenant it leaves out. -/
def narrow : Settings where
  candidateBatchSize := 2
  candidateBatchSize_pos := Nat.two_pos
  tenantTopupCandidates := 1
  maxTopupTenants := 3
  admissionBatchSize := 2
  admissionBatchSize_pos := Nat.two_pos
  maxLeasesPerRun := 2
  maxPassesPerRun := 1
  maxPassesPerRun_pos := Nat.one_pos

theorem handle_serves_flood :
    roundRobinOrder 10 {} (some []) (candidates narrow.toSliceSettings ["acme", "zeta"] flood []) =
        some [ofAcme "a1" 0, ofZeta, ofAcme "a2" 1] ∧
      (∃ tenants, .asked tenants ∈ [Event.asked tenantDocs] ∧ ["acme", "zeta"] = enabledTenantIds tenants 3) ∧
      ([ofAcme "a1" 0, ofZeta, ofAcme "a2" 1].map Task.id).Nodup ∧
      ∀ task ∈ flood, (∃ first ∈ [ofAcme "a1" 0, ofZeta], first.tenantId = task.tenantId) ∨
        ∀ tenantId, [ofAcme "a1" 0, ofZeta].countP (fun t => t.tenantId = tenantId) ≤ 1 := by
  have hevents : (after flooded narrow (.finished []) ()).events =
      [.asked tenantDocs] ++ .pass ⟨flood, [], 10⟩ [] ["acme", "zeta"] [ofAcme "a1" 0, ofZeta, ofAcme "a2" 1] ::
        ([.prepared (ofAcme "a1" 0) true, .prepared ofZeta true] ++ [Event.reserved [ofAcme "a1" 0, ofZeta] [true, false],
          Event.dispatched (ofAcme "a1" 0), Event.denied ofZeta, Event.prepared (ofAcme "a2" 1) true,
          Event.reserved [ofAcme "a2" 1] [true], Event.dispatched (ofAcme "a2" 1)]) := by
    decide +kernel
  obtain ⟨horder, -, hasked, hserves⟩ := handle_serves flooded narrow (.finished []) () _ _ _ hevents rfl
  obtain ⟨hnodup, -, hturns⟩ := hserves (by decide) (by decide) (by decide)
  refine ⟨horder, hasked (by decide), hnodup, fun task htask => hturns task htask (.inr ⟨?_, by decide⟩)⟩
  revert task
  decide

end Sample

end SwarmCloud.Pass
