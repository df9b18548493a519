import SwarmCloud.AttemptState.Writers

/-! # Requests delivered more than once

A worker's request may arrive any number of times and at any time, between the writes
of other attempts and of the other services. The event of the request is its own
record: whoever applies the request writes it, and nobody removes it.
-/

namespace SwarmCloud.AttemptState

open Common Lib

inductive Request
  | transition (body : TransitionBody)
  | park (body : ParkBody)
  | finish (body : FinishBody)
  | retry (body : RetryBody)
  | heartbeat

namespace Request

/-- The operation and the request id, where the body has one. -/
def key : Request → Option (String × String)
  | .transition body => some ("transition", body.requestId)
  | .park body => some ("park", body.requestId)
  | .finish body => some ("finish", body.requestId)
  | .retry body => some ("retry", body.requestId)
  | .heartbeat => none

def call (service : Service) (s : Store) (a : AttemptTuple) (given : Given) :
    Request → Except Refusal (Store × Answer)
  | .transition body => s.transition service a body given
  | .park body => s.park service a body given
  | .finish body => s.finish service a body given
  | .retry body => s.retry service a body given
  | .heartbeat => s.heartbeat service a given

end Request

namespace Store

variable {service : Service} {s s' : Store} {a : AttemptTuple} {given : Given} {answer : Answer} {eventId : String}

/-- The attempt can own its task no more: the generation went past it, or its lease was released. -/
def Passed (s : Store) (a : AttemptTuple) : Prop :=
  s.AtGeneration a.taskId (a.generation + 1) ∨ s.IsReleased a.leaseId

theorem Grows.passed (h : Grows s s') (hpassed : s.Passed a) : s'.Passed a :=
  hpassed.imp (h.generation a.taskId (a.generation + 1)) (h.released a.leaseId)

theorem fenceReason_of_passed (h : s.Passed a) {task : Task} (htask : s.tasks.lookup a.taskId = some task) :
    (fenceReason (some task) (s.leases.lookup a.leaseId) a).isSome := by
  obtain ⟨found, g, hfound, hg, hle⟩ | ⟨lease, hlease, hreleased⟩ := h
  · rw [htask, Option.some_inj] at hfound
    subst hfound
    have hgeneration : task.currentGeneration ≠ some a.generation := by
      rw [hg]
      intro heq
      have := Option.some.inj heq
      omega
    rw [fenceReason.eq_def]
    dsimp only
    split
    · rfl
    · rfl
  · rw [hlease, fenceReason]
    repeat' split
    all_goals rfl

/-- The fence refuses an attempt that was passed. -/
theorem fenced_of_passed (h : s.Passed a) : ∃ message, s.fenced a = .error (.attemptFenced message) := by
  rw [fenced]
  cases htask : s.tasks.lookup a.taskId with
  | none => exact ⟨_, rfl⟩
  | some task =>
    obtain ⟨reason, hreason⟩ := Option.isSome_iff_exists.mp (fenceReason_of_passed h htask)
    dsimp only
    rw [hreason]
    exact ⟨_, rfl⟩

/-- What a route may do to a task that was fenced: nothing, or writes with the request's event among
them. -/
def Announces (s : Store) (a : AttemptTuple) (eventId : String) (apply : Task → Except Refusal (Store × Answer)) :
    Prop :=
  ∀ task s' answer, apply task = .ok (s', answer) → s' = s ∨ Grows s s' ∧ s'.HasEvent ⟨a.taskId, eventId⟩

theorem requested_cases {apply : Task → Except Refusal (Store × Answer)} (happly : Announces s a eventId apply)
    (h : s.requested a eventId apply = .ok (s', answer)) :
    s' = s ∨ ¬ s.HasEvent ⟨a.taskId, eventId⟩ ∧ (∃ task, s.fenced a = .ok task) ∧ Grows s s' ∧
      s'.HasEvent ⟨a.taskId, eventId⟩ := by
  rw [requested, seen] at h
  split at h
  · rename_i hseen
    split at hseen
    · cases hseen
    · cases h
  · rename_i hseen
    obtain ⟨rfl, -⟩ := Prod.mk.inj (Except.ok.inj h)
    exact .inl rfl
  · rename_i hseen
    cases hfenced : s.fenced a with
    | error refusal =>
      rw [hfenced] at h
      cases h
    | ok task =>
      rw [hfenced] at h
      obtain hsame | ⟨hgrows, hevent⟩ := happly task s' answer h
      · exact .inl hsame
      · refine .inr ⟨?_, ⟨task, rfl⟩, hgrows, hevent⟩
        rw [HasEvent, Bool.not_eq_true, Option.isSome_eq_false_iff]
        split at hseen
        · assumption
        · split at hseen
          · cases hseen
          · split at hseen
            · cases hseen
            · cases hseen

theorem setWorkflow_grows (s : Store) (workflow : Option (String × Workflow)) : Grows s (s.setWorkflow workflow) := by
  cases workflow with
  | none => exact .refl s
  | some write => exact .of_eq rfl rfl rfl

theorem endWrites_grows (s : Store) (a : AttemptTuple) (given : Given) (releaseReason : String) (patch : Patch)
    (workflow : Option (String × Workflow)) (exitCode : Option Int) (error : Option String) (events : List Event) :
    Grows s (s.endWrites a given releaseReason patch workflow exitCode error events) := by
  have hfreed := releaseLease_grows s a.leaseId releaseReason given.now
  have hended : ∀ s : Store, Grows s (s.endAttempt a given.now exitCode error) := fun s => .of_eq rfl rfl rfl
  exact (((hfreed.trans (updateTask_grows _ a.taskId patch)).trans (setWorkflow_grows _ workflow)).trans
    (hended _)).trans (setEvents_grows _ _)

theorem endWrites_hasEvent (s : Store) (a : AttemptTuple) (given : Given) (releaseReason : String) (patch : Patch)
    (workflow : Option (String × Workflow)) (exitCode : Option Int) (error : Option String) {events : List Event}
    {event : Event} (h : event ∈ events) :
    (s.endWrites a given releaseReason patch workflow exitCode error events).HasEvent
      ⟨event.taskId, event.eventId⟩ :=
  hasEvent_setEvents _ (List.mem_append_left _ h)

theorem transitionTask_announces (s : Store) (a : AttemptTuple) (body : TransitionBody) (given : Given)
    (dst : TaskState) (kind : EventType) (eventId : String) :
    Announces s a eventId (transitionTask s a body given dst kind eventId) := by
  intro task s' answer h
  rw [transitionTask] at h
  split at h
  · exact .inl (Prod.mk.inj (Except.ok.inj h)).1.symm
  · split at h
    · cases h
    · obtain ⟨rfl, -⟩ := Prod.mk.inj (Except.ok.inj h)
      refine .inr ⟨?_, ?_⟩
      · exact ((setEvent_grows s _).trans (updateTask_grows _ _ _)).trans (setWorkflow_grows _ _)
      · exact ((updateTask_grows _ _ _).trans (setWorkflow_grows _ _)).events _
          ((hasEvent_setEvent s _ _).mpr (.inl rfl))

theorem transition_cases {body : TransitionBody} :
    (∃ refusal, s.transition service a body given = .error refusal) ∨ ∃ apply,
      s.transition service a body given = s.requested a (requestEventId service a "transition" body.requestId) apply ∧
      Announces s a (requestEventId service a "transition" body.requestId) apply := by
  rw [transition]
  cases TaskState.ofValue body.dst with
  | none => exact .inl ⟨_, rfl⟩
  | some dst =>
    dsimp only
    cases walkEvent dst with
    | none => exact .inl ⟨_, rfl⟩
    | some kind =>
      dsimp only
      split
      · exact .inl ⟨_, rfl⟩
      · exact .inr ⟨_, rfl, transitionTask_announces s a body given dst kind _⟩

theorem recordCarry_grows (s : Store) (a : AttemptTuple) (uploads : List Value) (now : Instant) :
    Grows s (s.recordCarry a uploads now) := .of_eq rfl rfl rfl

theorem parkTask_announces (service : Service) (s : Store) (a : AttemptTuple) (body : ParkBody) (given : Given)
    (reason : ParkReason) (events : List Event) (eventId : String) :
    Announces s a eventId (parkTask service s a body given reason events eventId) := by
  intro task s' answer h
  rw [parkTask] at h
  split at h
  · cases h
  · split at h
    · cases h
    · split at h
      · cases h
      · rename_i plan hplan
        split at h
        · cases h
        · obtain ⟨rfl, -⟩ := Prod.mk.inj (Except.ok.inj h)
          have hin : event a plan.kind plan.detail given.now eventId ∈
              events ++ [event a plan.kind plan.detail given.now eventId] :=
            List.mem_append_right _ (List.mem_singleton_self _)
          split
          · exact .inr ⟨endWrites_grows _ _ _ _ _ _ _ _ _, endWrites_hasEvent _ _ _ _ _ _ _ _ hin⟩
          · refine .inr ⟨(endWrites_grows _ _ _ _ _ _ _ _ _).trans (recordCarry_grows _ _ _ _), ?_⟩
            exact (recordCarry_grows _ _ _ _).events _ (endWrites_hasEvent _ _ _ _ _ _ _ _ hin)

theorem park_cases {body : ParkBody} :
    (∃ refusal, s.park service a body given = .error refusal) ∨ ∃ apply,
      s.park service a body given = s.requested a (requestEventId service a "park" body.requestId) apply ∧
      Announces s a (requestEventId service a "park" body.requestId) apply := by
  rw [park]
  cases ParkReason.ofValue body.reason with
  | none => exact .inl ⟨_, rfl⟩
  | some reason =>
    dsimp only
    split
    · exact .inl ⟨_, rfl⟩
    · split
      · exact .inl ⟨_, rfl⟩
      · split
        · exact .inl ⟨_, rfl⟩
        · split
          · exact .inl ⟨_, rfl⟩
          · rename_i events _
            exact .inr ⟨_, rfl, parkTask_announces service s a body given reason events _⟩

theorem finishTask_announces (s : Store) (a : AttemptTuple) (body : FinishBody) (given : Given) (dst : TaskState)
    (kind : EventType) (cause : Option EndCause) (eventId : String) :
    Announces s a eventId (finishTask s a body given dst kind cause eventId) := by
  intro task s' answer h
  rw [finishTask] at h
  split at h
  · cases h
  · obtain ⟨rfl, -⟩ := Prod.mk.inj (Except.ok.inj h)
    exact .inr ⟨endWrites_grows _ _ _ _ _ _ _ _ _, endWrites_hasEvent _ _ _ _ _ _ _ _ (List.mem_singleton_self _)⟩

theorem finish_cases {body : FinishBody} :
    (∃ refusal, s.finish service a body given = .error refusal) ∨ ∃ apply,
      s.finish service a body given = s.requested a (requestEventId service a "finish" body.requestId) apply ∧
      Announces s a (requestEventId service a "finish" body.requestId) apply := by
  rw [finish]
  cases TaskState.ofValue body.state with
  | none => exact .inl ⟨_, rfl⟩
  | some dst =>
    dsimp only
    cases terminalEvent dst with
    | none => exact .inl ⟨_, rfl⟩
    | some kind =>
      cases endCauseOf body.endCause with
      | error refusal => exact .inl ⟨_, rfl⟩
      | ok cause =>
        dsimp only
        split
        · exact .inl ⟨_, rfl⟩
        · exact .inr ⟨_, rfl, finishTask_announces s a body given dst kind cause _⟩

theorem retryWrites_announces (s : Store) (a : AttemptTuple) (body : RetryBody) (given : Given)
    (cause : Option EndCause) (eventId : String) :
    Announces s a eventId (retryWrites s a body given cause eventId) := by
  intro task s' answer h
  rw [retryWrites] at h
  dsimp only at h
  split at h
  · cases h
  · obtain ⟨rfl, -⟩ := Prod.mk.inj (Except.ok.inj h)
    exact .inr ⟨endWrites_grows _ _ _ _ _ _ _ _ _, endWrites_hasEvent _ _ _ _ _ _ _ _ (List.mem_singleton_self _)⟩

theorem retry_cases {body : RetryBody} :
    (∃ refusal, s.retry service a body given = .error refusal) ∨ ∃ apply,
      s.retry service a body given = s.requested a (requestEventId service a "retry" body.requestId) apply ∧
      Announces s a (requestEventId service a "retry" body.requestId) apply := by
  rw [retry]
  cases endCauseOf body.endCause with
  | error refusal => exact .inl ⟨_, rfl⟩
  | ok cause =>
    dsimp only
    split
    · exact .inl ⟨_, rfl⟩
    · split
      · exact .inl ⟨_, rfl⟩
      · split
        · exact .inl ⟨_, rfl⟩
        · exact .inr ⟨_, rfl, retryWrites_announces s a body given cause _⟩

theorem heartbeat_grows (h : s.heartbeat service a given = .ok (s', answer)) :
    Grows s s' ∧ ∃ task, s.fenced a = .ok task := by
  rw [heartbeat] at h
  cases hfenced : s.fenced a with
  | error refusal =>
    rw [hfenced] at h
    cases h
  | ok task =>
    rw [hfenced] at h
    obtain ⟨rfl, -⟩ := Prod.mk.inj (Except.ok.inj h)
    refine ⟨⟨fun _ h => h, fun _ _ h => h, fun id hid => ?_⟩, task, rfl⟩
    refine modifyLease_released ?_ hid
    exact fun _ hreleased => hreleased

end Store

/-! ## One call -/

variable {service : Service} {s s' t t' : Store} {a : AttemptTuple} {given : Given} {request : Request}

/-- A call under a request id is refused or goes through `requested`, under the event of that id. -/
theorem call_requested (service : Service) (s : Store) (a : AttemptTuple) (given : Given) {request : Request}
    {op requestId : String} (hkey : request.key = some (op, requestId)) :
    (∃ refusal, request.call service s a given = .error refusal) ∨ ∃ apply,
      request.call service s a given = s.requested a (requestEventId service a op requestId) apply ∧
      s.Announces a (requestEventId service a op requestId) apply := by
  cases request with
  | transition body =>
    obtain ⟨rfl, rfl⟩ := Prod.mk.inj (Option.some.inj hkey)
    exact Store.transition_cases
  | park body =>
    obtain ⟨rfl, rfl⟩ := Prod.mk.inj (Option.some.inj hkey)
    exact Store.park_cases
  | finish body =>
    obtain ⟨rfl, rfl⟩ := Prod.mk.inj (Option.some.inj hkey)
    exact Store.finish_cases
  | retry body =>
    obtain ⟨rfl, rfl⟩ := Prod.mk.inj (Option.some.inj hkey)
    exact Store.retry_cases
  | heartbeat => cases hkey

/-- A call that wrote something found no event of its request, passed the fence, and left its event. -/
theorem call_applied {answer : Answer} {op requestId : String} (hkey : request.key = some (op, requestId))
    (h : request.call service s a given = .ok (s', answer)) :
    s' = s ∨ ¬ s.HasEvent ⟨a.taskId, requestEventId service a op requestId⟩ ∧ (∃ task, s.fenced a = .ok task) ∧
      Store.Grows s s' ∧ s'.HasEvent ⟨a.taskId, requestEventId service a op requestId⟩ := by
  obtain ⟨refusal, hrefused⟩ | ⟨apply, hcall, hannounces⟩ := call_requested service s a given hkey
  · rw [hrefused] at h
    cases h
  · rw [hcall] at h
    exact Store.requested_cases hannounces h

theorem call_grows {answer : Answer} (h : request.call service s a given = .ok (s', answer)) : Store.Grows s s' := by
  cases hkey : request.key with
  | none =>
    cases request with
    | heartbeat => exact (Store.heartbeat_grows h).1
    | _ => cases hkey
  | some key =>
    obtain rfl | ⟨-, -, hgrows, -⟩ := call_applied hkey h
    · exact .refl s'
    · exact hgrows

theorem call_of_passed {answer : Answer} (hpassed : s.Passed a)
    (h : request.call service s a given = .ok (s', answer)) : s' = s := by
  obtain ⟨message, hfenced⟩ := Store.fenced_of_passed hpassed
  have hnot : ¬ ∃ task, s.fenced a = .ok task := by
    rintro ⟨task, htask⟩
    rw [hfenced] at htask
    cases htask
  cases hkey : request.key with
  | none =>
    cases request with
    | heartbeat => exact absurd (Store.heartbeat_grows h).2 hnot
    | _ => cases hkey
  | some key =>
    obtain hsame | ⟨-, howned, -⟩ := call_applied hkey h
    · exact hsame
    · exact absurd howned hnot

/-! ## Runs -/

/-- What the services do. An admission brings ids that no lease has, and a new task an id that no task has. -/
inductive Action
  | deliver (a : AttemptTuple) (request : Request) (given : Given)
  | acquire (request : Admission.AdmissionRequest) (config : Admission.AdmissionConfig) (ids : Admission.MintedIds)
      (now : Instant)
  | fence (taskId : String) (expected : Int) (onlyFrom : Option (List TaskState)) (unlessHoldingLease : Option String)
      (now : Instant)
  | cancel (tenantId taskId : String) (nobody : Bool) (now : Instant) (events : List Event)
  | release (leaseId reason : String) (now : Instant)
  | submit (taskId : String) (task : Task)
  | update (taskId : String) (patch : Patch)
  | emit (event : Event)
  | writeAttempt (attemptId : String) (doc : AttemptDoc)
  | writeWorkflow (workflowId : String) (workflow : Workflow)
  | writePool (name : String) (pool : Admission.PoolDoc)

/-- The store after a call: a refusal aborts the transaction. -/
def committed (s : Store) : Except Refusal (Store × Answer) → Store
  | .error _ => s
  | .ok (s', _) => s'

inductive Step (service : Service) : Store → Action → Store → Prop
  | deliver {s : Store} (a : AttemptTuple) (request : Request) (given : Given) :
      Step service s (.deliver a request given) (committed s (request.call service s a given))
  | acquire {s : Store} {ids : Admission.MintedIds} (request : Admission.AdmissionRequest)
      (config : Admission.AdmissionConfig) (now : Instant) (hfresh : s.leases.lookup ids.leaseId = none) :
      Step service s (.acquire request config ids now) (s.acquire request config ids now)
  | fence {s : Store} (taskId : String) (expected : Int) (onlyFrom : Option (List TaskState))
      (unlessHoldingLease : Option String) (now : Instant) :
      Step service s (.fence taskId expected onlyFrom unlessHoldingLease now)
        (s.fence taskId expected onlyFrom unlessHoldingLease now)
  | cancel {s : Store} (tenantId taskId : String) (nobody : Bool) (now : Instant) (events : List Event) :
      Step service s (.cancel tenantId taskId nobody now events) (s.cancel tenantId taskId nobody now events)
  | release {s : Store} (leaseId reason : String) (now : Instant) :
      Step service s (.release leaseId reason now) (s.releaseLease leaseId reason now).2
  | submit {s : Store} {taskId : String} (task : Task) (hfresh : s.tasks.lookup taskId = none) :
      Step service s (.submit taskId task) { s with tasks := s.tasks.insert taskId task }
  | update {s : Store} (taskId : String) (patch : Patch) :
      Step service s (.update taskId patch) (s.updateTask taskId patch)
  | emit {s : Store} (event : Event) : Step service s (.emit event) (s.setEvent event)
  | writeAttempt {s : Store} (attemptId : String) (doc : AttemptDoc) :
      Step service s (.writeAttempt attemptId doc) { s with attempts := s.attempts.insert attemptId doc }
  | writeWorkflow {s : Store} (workflowId : String) (workflow : Workflow) :
      Step service s (.writeWorkflow workflowId workflow)
        { s with workflows := s.workflows.insert workflowId workflow }
  | writePool {s : Store} (name : String) (pool : Admission.PoolDoc) :
      Step service s (.writePool name pool) { s with pools := s.pools.insert name pool }

theorem committed_grows (h : s' = committed s (request.call service s a given)) : Store.Grows s s' := by
  cases hcall : request.call service s a given with
  | error refusal =>
    rw [h, hcall]
    exact .refl s
  | ok result =>
    rw [h, hcall]
    exact call_grows hcall

theorem step_grows {action : Action} (hstep : Step service s action s') : Store.Grows s s' := by
  cases hstep with
  | deliver a request given => exact committed_grows rfl
  | acquire request config now hfresh => exact Store.acquire_grows hfresh request config now
  | fence taskId expected onlyFrom unlessHoldingLease now => exact Store.fence_grows s _ _ _ _ _
  | cancel tenantId taskId nobody now events => exact Store.cancel_grows s _ _ _ _ _
  | release leaseId reason now => exact Store.releaseLease_grows s leaseId reason now
  | submit task hfresh => exact Store.newTask_grows hfresh task
  | update taskId patch => exact Store.updateTask_grows s taskId patch
  | emit event => exact Store.setEvent_grows s event
  | writeAttempt attemptId doc => exact .of_eq rfl rfl rfl
  | writeWorkflow workflowId workflow => exact .of_eq rfl rfl rfl
  | writePool name pool => exact .of_eq rfl rfl rfl

theorem run_grows {actions : List Action} (hrun : Run (Step service) s actions s') : Store.Grows s s' := by
  induction hrun with
  | nil => exact .refl s
  | snoc _ hlast ih => exact ih.trans (step_grows hlast)

/-- A delivery that changed something left the event of its request. -/
theorem deliver_applied {op requestId : String} (hkey : request.key = some (op, requestId))
    (hstep : Step service s (.deliver a request given) s') (hchanged : s' ≠ s) :
    s'.HasEvent ⟨a.taskId, requestEventId service a op requestId⟩ := by
  cases hstep
  cases hcall : request.call service s a given with
  | error refusal =>
    rw [hcall] at hchanged
    exact absurd rfl hchanged
  | ok result =>
    rw [hcall] at hchanged
    obtain hsame | ⟨-, -, -, hevent⟩ := call_applied hkey hcall
    · exact absurd hsame hchanged
    · exact hevent

theorem deliver_of_event {op requestId : String} (hkey : request.key = some (op, requestId))
    (hevent : s.HasEvent ⟨a.taskId, requestEventId service a op requestId⟩)
    (hstep : Step service s (.deliver a request given) s') : s' = s := by
  cases hstep
  cases hcall : request.call service s a given with
  | error refusal => rfl
  | ok result =>
    obtain hsame | ⟨hnone, -⟩ := call_applied hkey hcall
    · exact hsame
    · exact absurd hevent hnone

theorem deliver_of_passed (hpassed : s.Passed a) (hstep : Step service s (.deliver a request given) s') : s' = s := by
  cases hstep
  cases hcall : request.call service s a given with
  | error refusal => rfl
  | ok result => exact call_of_passed hpassed hcall

/-- Requests are applied once, refusals change nothing, and an attempt that was passed changes nothing
any more, in every interleaving with the other writers. -/
theorem requests_idempotent_fenced (service : Service) :
    (∀ s s₁ t t' a (request request' : Request) given given' actions, request.key.isSome →
      request'.key = request.key → Step service s (.deliver a request given) s₁ → s₁ ≠ s →
      Run (Step service) s₁ actions t → Step service t (.deliver a request' given') t' → t' = t) ∧
    (∀ s s' a (request : Request) given refusal, request.call service s a given = .error refusal →
      Step service s (.deliver a request given) s' → s' = s) ∧
    (∀ s t t' a (request : Request) given actions, s.Passed a → Run (Step service) s actions t →
      Step service t (.deliver a request given) t' → t' = t) := by
  refine ⟨?_, ?_, ?_⟩
  · intro s s₁ t t' a request request' given given' actions hrequested hsame hfirst hchanged hrun hagain
    obtain ⟨key, hkey⟩ := Option.isSome_iff_exists.mp hrequested
    have hevent := (run_grows hrun).events _ (deliver_applied hkey hfirst hchanged)
    exact deliver_of_event (hsame.trans hkey) hevent hagain
  · intro s s' a request given refusal hrefused hstep
    cases hstep
    rw [hrefused]
    rfl
  · intro s t t' a request given actions hpassed hrun hstep
    exact deliver_of_passed ((run_grows hrun).passed hpassed) hstep

/-! ### One request, delivered twice -/

/-- The digest is the one of the request below. -/
def sampleService : Service where
  hexdigest _ := "af98749aa9e1b6ad37d945dd6f2449f441f1774341d2aa225723e312039bd885"
  bounded _ := true
  text _ := ""
  isoformat _ := ""
  fromIsoformat _ := none
  leaseExtension := 120

def sampleTuple : AttemptTuple := ⟨"eng", "task_1", "att_1", "lease_1", 1⟩

def sampleLease : Admission.LeaseDoc where
  leaseId := "lease_1"
  taskId := "task_1"
  attemptId := "att_1"
  tenantId := "eng"
  generation := 1
  state := .leased
  createdAt := 0
  dispatchDeadline := 480
  expiresAt := 120

def sampleStore : Store where
  tasks := (∅ : Docs String Task).insert "task_1"
    { tenantId := "eng", state := .starting, currentGeneration := some 1, currentLeaseId := some "lease_1" }
  pools := ∅
  leases := (∅ : Docs String Admission.LeaseDoc).insert "lease_1" sampleLease
  events := ∅
  attempts := ∅
  carries := ∅
  carryIndexes := ∅
  workflows := ∅

def sampleRequest : Request := .transition { requestId := "r-1", dst := "RUNNING" }

def sampleDelivered : Store :=
  committed sampleStore (sampleRequest.call sampleService sampleStore sampleTuple ⟨1, none, "evt", fun _ => ""⟩)

theorem requests_idempotent_fenced_twice :
    (sampleDelivered.tasks.lookup "task_1").map Task.state = some .running ∧
      ∀ given t', Step sampleService sampleDelivered (.deliver sampleTuple sampleRequest given) t' →
        t' = sampleDelivered := by
  have hmoved : (sampleDelivered.tasks.lookup "task_1").map Task.state = some .running := by decide
  have hbefore : (sampleStore.tasks.lookup "task_1").map Task.state = some .starting := by decide
  have hchanged : sampleDelivered ≠ sampleStore := by
    intro heq
    rw [heq, hbefore] at hmoved
    cases hmoved
  refine ⟨hmoved, fun given t' hagain => ?_⟩
  exact (requests_idempotent_fenced sampleService).1 sampleStore sampleDelivered sampleDelivered t' sampleTuple
    sampleRequest sampleRequest _ given [] rfl rfl (.deliver _ _ _) hchanged .nil hagain

end SwarmCloud.AttemptState
