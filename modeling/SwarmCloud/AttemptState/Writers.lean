import SwarmCloud.AttemptState.Routes
import SwarmCloud.Lib.Runs

/-! # The other writers, and what no writer takes back

Admission leases a task again, the reconciler fences a generation and `request_cancel`
flags or ends a task; everything else that the other services write is an update of a
task, a release, an event, or a document the fence does not read. No writer removes
an event, lowers a generation or reopens a lease.
-/

namespace SwarmCloud.AttemptState

open Common Lib

namespace Store

variable {s s' s'' : Store}

/-! ## The other writers -/

/-- The part of a task that admission reads. -/
def admissionDoc (task : Task) : Admission.TaskDoc where
  state := some task.state
  cancelRequested := task.cancelRequested
  currentLeaseId := task.currentLeaseId
  currentGeneration := task.currentGeneration
  attemptCount := task.attemptCount
  updatedAt := task.updatedAt

/-- `acquire_lease_in_transaction` on a task of this store. -/
def acquire (s : Store) (request : Admission.AdmissionRequest) (config : Admission.AdmissionConfig)
    (ids : Admission.MintedIds) (now : Instant) : Store :=
  match s.tasks.lookup request.task.id with
  | none => s
  | some task =>
    let read : Admission.Store :=
      ⟨(∅ : Docs String Admission.TaskDoc).insert request.task.id (admissionDoc task), s.pools, s.leases⟩
    match Admission.acquireLeaseInTransaction read request config ids now with
    | .error _ => s
    | .ok (lease, granted) =>
      { s with
        pools := granted.pools
        leases := granted.leases
        tasks := s.tasks.insert request.task.id { task with
          state := .leased, currentLeaseId := some lease.leaseId, currentGeneration := some lease.generation
          attemptCount := some (task.attemptCount.getD 0 + 1), blockedBy := [], updatedAt := some now } }

/-- `_fence_decision`: the generation that a fence writes. -/
def fenceDecision (task : Task) (expected : Int) (onlyFrom : Option (List TaskState))
    (unlessHoldingLease : Option String) : Option Int :=
  if task.state ∈ terminalStates then none
  else if onlyFrom.any fun states => task.state ∉ states then none
  else if unlessHoldingLease.any fun leaseId =>
      task.state ∈ concurrencyStates && task.currentLeaseId = some leaseId then none
  else if task.currentGeneration.getD 0 ≠ expected then none
  else some (expected + 1)

/-- `fence_attempt`. -/
def fence (s : Store) (taskId : String) (expected : Int) (onlyFrom : Option (List TaskState))
    (unlessHoldingLease : Option String) (now : Instant) : Store :=
  match s.tasks.lookup taskId with
  | none => s
  | some task =>
    match fenceDecision task expected onlyFrom unlessHoldingLease with
    | none => s
    | some generation =>
      { s with tasks := s.tasks.insert taskId { task with
          currentGeneration := some generation, updatedAt := some now } }

/-- The update of a cancel: a task that no live worker holds ends and is fenced, a pending one ends, and
any other is flagged. -/
def cancelled (task : Task) (nobody : Bool) (now : Instant) : Task :=
  let flagged := { task with cancelRequested := true, updatedAt := some now }
  let ended := { flagged with
    state := .cancelled, completedAt := some now, endCause := some .cancelRequested, parkReason := none
    blockedBy := [] }
  if nobody ∧ task.currentLeaseId.isSome then
    { ended with currentLeaseId := none, currentGeneration := some (task.currentGeneration.getD 0 + 1) }
  else if task.state ∈ pendingStates then ended
  else flagged

/-- `request_cancel`, where `nobody` is what `_no_live_worker` found. -/
def cancel (s : Store) (tenantId taskId : String) (nobody : Bool) (now : Instant) (events : List Event) : Store :=
  match s.tasks.lookup taskId with
  | none => s
  | some task =>
    if task.tenantId ≠ tenantId ∨ task.state ∈ terminalStates then s
    else
      let awaited := nobody && (task.state = .dispatched || task.state = .starting)
      let freed := match task.currentLeaseId with
        | some leaseId => if awaited then (s.releaseLease leaseId "cancel_requested:no_live_worker" now).2 else s
        | none => s
      { freed with tasks := freed.tasks.insert taskId (cancelled task awaited now) }.setEvents events

/-! ## What every writer keeps -/

def HasEvent (s : Store) (key : EventKey) : Prop := (s.events.lookup key).isSome

def AtGeneration (s : Store) (taskId : String) (g : Int) : Prop :=
  ∃ task g', s.tasks.lookup taskId = some task ∧ task.currentGeneration = some g' ∧ g ≤ g'

def IsReleased (s : Store) (leaseId : String) : Prop :=
  ∃ lease, s.leases.lookup leaseId = some lease ∧ lease.releasedAt.isSome

/-- Events stay, generations only grow and released leases stay released. -/
structure Grows (s s' : Store) : Prop where
  events : ∀ key, s.HasEvent key → s'.HasEvent key
  generation : ∀ taskId g, s.AtGeneration taskId g → s'.AtGeneration taskId g
  released : ∀ leaseId, s.IsReleased leaseId → s'.IsReleased leaseId

theorem Grows.refl (s : Store) : Grows s s := ⟨fun _ h => h, fun _ _ h => h, fun _ h => h⟩

theorem Grows.trans (h : Grows s s') (h' : Grows s' s'') : Grows s s'' where
  events key hkey := h'.events key (h.events key hkey)
  generation taskId g hg := h'.generation taskId g (h.generation taskId g hg)
  released leaseId hl := h'.released leaseId (h.released leaseId hl)

/-- A write that leaves the events, the tasks and the leases alone. -/
theorem Grows.of_eq (hevents : s'.events = s.events) (htasks : s'.tasks = s.tasks) (hleases : s'.leases = s.leases) :
    Grows s s' where
  events key hkey := by rwa [HasEvent, hevents]
  generation taskId g hg := by rwa [AtGeneration, htasks]
  released leaseId hl := by rwa [IsReleased, hleases]

theorem hasEvent_setEvent (s : Store) (event : Event) (key : EventKey) :
    (s.setEvent event).HasEvent key ↔ key = ⟨event.taskId, event.eventId⟩ ∨ s.HasEvent key := by
  rw [HasEvent, setEvent, Docs.lookup_insert_eq]
  split
  · rename_i hkey
    exact iff_of_true rfl (.inl hkey)
  · rename_i hkey
    rw [or_iff_right hkey, HasEvent]

theorem setEvent_grows (s : Store) (event : Event) : Grows s (s.setEvent event) where
  events key hkey := (hasEvent_setEvent s event key).mpr (.inr hkey)
  generation _ _ hg := hg
  released _ hl := hl

theorem setEvents_grows (s : Store) (events : List Event) : Grows s (s.setEvents events) := by
  induction events generalizing s with
  | nil => exact .refl s
  | cons event events ih => exact (setEvent_grows s event).trans (ih (s.setEvent event))

theorem hasEvent_setEvents (s : Store) {events : List Event} {event : Event} (h : event ∈ events) :
    (s.setEvents events).HasEvent ⟨event.taskId, event.eventId⟩ := by
  induction events generalizing s with
  | nil => cases h
  | cons first events ih =>
    obtain rfl | hin := List.mem_cons.mp h
    · exact (setEvents_grows _ events).events _ ((hasEvent_setEvent s event _).mpr (.inl rfl))
    · exact ih _ hin

/-- A task that is written again at no lower generation. -/
theorem insertTask_grows {taskId : String} {task task' : Task} (htask : s.tasks.lookup taskId = some task)
    (hgrows : ∀ g, task.currentGeneration = some g → ∃ g', task'.currentGeneration = some g' ∧ g ≤ g') :
    Grows s { s with tasks := s.tasks.insert taskId task' } where
  events _ hkey := hkey
  generation := by
    rintro id g ⟨found, g', hfound, hg', hle⟩
    rw [AtGeneration, Docs.lookup_insert_eq]
    split
    · rename_i hid
      rw [hid, htask, Option.some_inj] at hfound
      obtain ⟨g'', hg'', hle'⟩ := hgrows g' (hfound ▸ hg')
      exact ⟨task', g'', rfl, hg'', hle.trans hle'⟩
    · exact ⟨found, g', hfound, hg', hle⟩
  released _ hl := hl

theorem newTask_grows {taskId : String} (hfresh : s.tasks.lookup taskId = none) (task : Task) :
    Grows s { s with tasks := s.tasks.insert taskId task } where
  events _ hkey := hkey
  generation := by
    rintro id g ⟨found, g', hfound, hg', hle⟩
    refine ⟨found, g', ?_, hg', hle⟩
    rw [Docs.lookup_insert_eq, if_neg, hfound]
    rintro rfl
    rw [hfresh] at hfound
    cases hfound
  released _ hl := hl

theorem updateTask_grows (s : Store) (taskId : String) (patch : Patch) : Grows s (s.updateTask taskId patch) where
  events _ hkey := hkey
  generation := by
    rintro id g ⟨found, g', hfound, hg', hle⟩
    rw [AtGeneration, updateTask, Docs.lookup_modify]
    split
    · exact ⟨patch.apply found, g', by rw [hfound]; rfl, hg', hle⟩
    · exact ⟨found, g', hfound, hg', hle⟩
  released _ hl := hl

/-- A lease that is written again stays released. -/
theorem modifyLease_released {leaseId : String} {write : Admission.LeaseDoc → Admission.LeaseDoc}
    (hwrite : ∀ lease, lease.releasedAt.isSome → (write lease).releasedAt.isSome) {id : String}
    (h : s.IsReleased id) :
    ∃ lease, (s.leases.modify leaseId write).lookup id = some lease ∧ lease.releasedAt.isSome := by
  obtain ⟨lease, hlease, hreleased⟩ := h
  rw [Docs.lookup_modify]
  split
  · exact ⟨write lease, by rw [hlease]; rfl, hwrite lease hreleased⟩
  · exact ⟨lease, hlease, hreleased⟩

theorem releaseLease_grows (s : Store) (leaseId reason : String) (now : Instant) :
    Grows s (s.releaseLease leaseId reason now).2 := by
  obtain hnone | ⟨d, freed, hfreed, hreleased⟩ :=
    Admission.releaseLease_cases ⟨∅, s.pools, s.leases⟩ leaseId reason now
  · rw [releaseLease, hnone]
    exact .of_eq rfl rfl rfl
  · rw [releaseLease, hfreed]
    refine ⟨fun _ h => h, fun _ _ h => h, fun id hid => ?_⟩
    rw [IsReleased, hreleased.leases_eq]
    exact modifyLease_released (fun _ _ => rfl) hid

theorem acquire_grows {ids : Admission.MintedIds} (hfresh : s.leases.lookup ids.leaseId = none)
    (request : Admission.AdmissionRequest) (config : Admission.AdmissionConfig) (now : Instant) :
    Grows s (s.acquire request config ids now) := by
  rw [acquire]
  cases htask : s.tasks.lookup request.task.id with
  | none => exact .refl s
  | some task =>
    dsimp only
    split
    · exact .refl s
    · rename_i lease granted hgranted
      obtain ⟨current, hgrant⟩ := Admission.acquireLease_ok hgranted
      have hcurrent : current = admissionDoc task := by
        have hstored := hgrant.stored
        rw [Docs.lookup_insert_eq, if_pos rfl] at hstored
        exact (Option.some.inj hstored).symm
      have hgeneration : lease.generation = task.currentGeneration.getD 0 + 1 := by
        rw [hgrant.lease_eq, hcurrent]
        rfl
      have htasks : Grows s { s with tasks := s.tasks.insert request.task.id { task with
          state := .leased, currentLeaseId := some lease.leaseId, currentGeneration := some lease.generation
          attemptCount := some (task.attemptCount.getD 0 + 1), blockedBy := [], updatedAt := some now } } := by
        apply insertTask_grows htask
        intro g hg
        refine ⟨lease.generation, rfl, ?_⟩
        rw [hgeneration, hg, Option.getD_some]
        omega
      refine ⟨htasks.events, htasks.generation, fun id hid => ?_⟩
      obtain ⟨found, hfound, hreleased⟩ := hid
      refine ⟨found, ?_, hreleased⟩
      have hlease : lease.leaseId = ids.leaseId := by rw [hgrant.lease_eq]; rfl
      rw [hgrant.leases_eq, Docs.lookup_insert_eq, if_neg, hfound]
      rintro rfl
      rw [hlease, hfresh] at hfound
      cases hfound

theorem fence_grows (s : Store) (taskId : String) (expected : Int) (onlyFrom : Option (List TaskState))
    (unlessHoldingLease : Option String) (now : Instant) :
    Grows s (s.fence taskId expected onlyFrom unlessHoldingLease now) := by
  rw [fence]
  cases htask : s.tasks.lookup taskId with
  | none => exact .refl s
  | some task =>
    dsimp only
    cases hdecision : fenceDecision task expected onlyFrom unlessHoldingLease with
    | none => exact .refl s
    | some generation =>
      apply insertTask_grows htask
      intro g hg
      refine ⟨generation, rfl, ?_⟩
      rw [fenceDecision] at hdecision
      -- Every branch but the last refuses, and the last adds one to the generation it expected.
      split at hdecision
      · cases hdecision
      · split at hdecision
        · cases hdecision
        · split at hdecision
          · cases hdecision
          · split at hdecision
            · cases hdecision
            · rename_i hexpected
              rw [hg, Option.getD_some] at hexpected
              have hnext := Option.some.inj hdecision
              omega

theorem cancelled_generation (task : Task) (nobody : Bool) (now : Instant) {g : Int}
    (hg : task.currentGeneration = some g) :
    ∃ g', (cancelled task nobody now).currentGeneration = some g' ∧ g ≤ g' := by
  rw [cancelled]
  dsimp only
  split
  · refine ⟨g + 1, ?_, ?_⟩
    · rw [hg]
      rfl
    · omega
  · split
    · exact ⟨g, hg, le_refl g⟩
    · exact ⟨g, hg, le_refl g⟩

theorem cancel_grows (s : Store) (tenantId taskId : String) (nobody : Bool) (now : Instant) (events : List Event) :
    Grows s (s.cancel tenantId taskId nobody now events) := by
  rw [cancel]
  cases htask : s.tasks.lookup taskId with
  | none => exact .refl s
  | some task =>
    dsimp only
    split
    · exact .refl s
    · -- The release, where there is one, leaves the task as it was read.
      have hwritten : ∀ freed : Store, Grows s freed → freed.tasks = s.tasks → ∀ awaited : Bool,
          Grows s ({ freed with tasks := freed.tasks.insert taskId (cancelled task awaited now) }.setEvents
            events) := by
        intro freed hfreed htasks awaited
        refine hfreed.trans (Grows.trans (insertTask_grows (htasks ▸ htask) ?_) (setEvents_grows _ events))
        exact fun g hg => cancelled_generation task awaited now hg
      apply hwritten
      · cases task.currentLeaseId with
        | none => exact .refl s
        | some leaseId =>
          dsimp only
          split
          · exact releaseLease_grows s leaseId _ now
          · exact .refl s
      · cases task.currentLeaseId with
        | none => rfl
        | some leaseId =>
          dsimp only
          split
          · rfl
          · rfl

end Store

end SwarmCloud.AttemptState
