import SwarmCloud.Scheduler.Leases

/-! # The lease of a failed dispatch

`return_to_ready_after_failed_dispatch` finds its task in one of three positions: on
this lease and somebody else's to settle, off this lease, or on it and returned here.
The lease is kept in the first and released in the others.
-/

namespace SwarmCloud.Scheduler

open Common Lib AttemptState

/-- The task is in a state that holds capacity and names the lease. -/
def Occupies (task : Option Task) (leaseId : String) : Prop :=
  ∃ found, task = some found ∧ found.state ∈ concurrencyStates ∧ found.currentLeaseId = some leaseId

/-- The lease exists and is not released. -/
def Unreleased (s : Store) (leaseId : String) : Prop :=
  ∃ lease, s.leases.lookup leaseId = some lease ∧ lease.releasedAt = none

theorem not_unreleased_iff {s : Store} {leaseId : String} : ¬Unreleased s leaseId ↔ Released s leaseId := by
  constructor
  · intro h lease hlease
    rw [Option.isSome_iff_ne_none]
    exact fun hopen => h ⟨lease, hlease, hopen⟩
  · rintro h ⟨lease, hlease, hopen⟩
    have hreleased := h lease hlease
    rw [hopen] at hreleased
    cases hreleased

/-- For a task on this lease the refusal is about its generation and its state only. -/
theorem leaseRefusal_of_pointing {stored : Task} {lease : Admission.Lease}
    (hpoints : stored.currentLeaseId = some lease.leaseId) :
    leaseRefusal (some stored) lease =
      if stored.currentGeneration.getD 0 ≠ lease.generation then some .leaseSuperseded
      else if stored.state ≠ .leased then some .stateChanged
      else none := by
  simp [leaseRefusal, hpoints]

theorem workerOwned_or_leased {state : TaskState} (h : state ∈ concurrencyStates) :
    state = .leased ∨ state ∈ workerOwned := by
  revert h
  cases state <;> decide

theorem concurrency_of_workerOwned {state : TaskState} (h : state ∈ workerOwned) : state ∈ concurrencyStates := by
  revert h
  cases state <;> decide

namespace FailedDispatch

variable (x : FailedDispatch)

/-- When `_settle` writes the task: it is on this lease, as admission left it or fenced with its lease gone. -/
def Returns (s : Store) (stored : Task) : Bool → Prop
  | false => stored.state = .leased ∧ stored.currentGeneration.getD 0 = x.lease.generation
  | true => stored.currentGeneration.getD 0 ≠ x.lease.generation ∧ Released s x.lease.leaseId

end FailedDispatch

namespace Control

/-- A task that is off this lease is left alone, and the lease is released. -/
theorem returnToReady_off {c : Control} {x : FailedDispatch} (now : Instant)
    (h : ¬Occupies (c.store.tasks.lookup x.task.id) x.lease.leaseId) :
    (c.returnToReady x now).2.store.tasks = c.store.tasks ∧
      Released (c.returnToReady x now).2.store x.lease.leaseId := by
  have hsettled : ∀ stored, ((c.released x now).endAttempt x stored false now).store.tasks = c.store.tasks ∧
      Released ((c.released x now).endAttempt x stored false now).store x.lease.leaseId := by
    intro stored
    refine ⟨(endAttempt_idle _ _ _ _ _).tasks, fun lease hlease => ?_⟩
    rw [endAttempt_leases] at hlease
    exact releaseLease_released _ _ _ _ lease hlease
  rw [returnToReady]
  cases hstored : c.store.tasks.lookup x.task.id with
  | none => exact hsettled none
  | some stored =>
    rw [hstored] at h
    have hoff : ¬(stored.state ∈ concurrencyStates ∧ stored.currentLeaseId = some x.lease.leaseId) :=
      fun hon => h ⟨stored, rfl, hon.1, hon.2⟩
    dsimp only
    rw [if_neg, if_neg, if_pos]
    · exact hsettled (some stored)
    · by_contra hnone
      obtain ⟨found, hfound, hleased, hpoints⟩ := leaseRefusal_eq_none (Option.not_isSome_iff_eq_none.mp hnone)
      obtain rfl := Option.some.inj hfound
      exact hoff ⟨by rw [hleased]; decide, hpoints⟩
    · rintro ⟨-, howned, hpoints⟩
      exact hoff ⟨concurrency_of_workerOwned howned, of_decide_eq_true hpoints⟩
    · rintro ⟨hstate, -, hpoints⟩
      exact hoff ⟨hstate, of_decide_eq_true hpoints⟩

/-- A task on this lease is left to its worker or the reconciler, or returned. -/
theorem returnToReady_on {c : Control} {x : FailedDispatch} {stored : Task} (now : Instant)
    (hstored : c.store.tasks.lookup x.task.id = some stored) (hcapacity : stored.state ∈ concurrencyStates)
    (hpoints : stored.currentLeaseId = some x.lease.leaseId) :
    (c.returnToReady x now).2 = c ∨ ∃ reclaim, x.Returns c.store stored reclaim ∧
      Released (c.returnToReady x now).2.store x.lease.leaseId ∧
      (c.returnToReady x now).2.store.tasks.lookup x.task.id =
        some ((x.returnPatch stored (c.platformRefusals.lookup x.task.id) reclaim now).apply stored) := by
  rw [returnToReady, hstored]
  simp only [leaseRefusal_of_pointing hpoints, hpoints, hcapacity, decide_true, and_true, true_and]
  by_cases hgeneration : stored.currentGeneration.getD 0 = x.lease.generation
  · simp only [hgeneration, ne_eq, not_true_eq_false, if_false]
    by_cases hleased : stored.state = .leased
    · have hcommit := @returned_commit c (c.released x now) x stored now (releaseLease_idle _ _ _ _) hstored false
      simp only [hleased, not_true_eq_false, if_false, reduceCtorEq, false_and, Option.isSome_none,
        Bool.false_eq_true]
      refine .inr ⟨false, ⟨hleased, hgeneration⟩, ?_, ?_⟩
      · intro lease hlease
        rw [returned_leases] at hlease
        exact releaseLease_released _ _ _ _ lease hlease
      · rw [hcommit.tasks, if_pos rfl]
    · have howned : stored.state ∈ workerOwned := (workerOwned_or_leased hcapacity).resolve_left hleased
      simp only [hleased, howned, not_false_eq_true, if_true, reduceCtorEq, if_false, Option.some.injEq, and_self]
      exact .inl trivial
  · simp only [hgeneration, ne_eq, not_false_eq_true, if_true]
    split
    · exact .inl rfl
    · rename_i hgone
      have hreleased : Released c.store x.lease.leaseId := by
        rw [← not_unreleased_iff]
        rintro ⟨lease, hlease, hopen⟩
        simp [hlease, hopen] at hgone
      have hcommit := returned_commit now (.refl c.store) hstored true
      refine .inr ⟨true, ⟨hgeneration, hreleased⟩, ?_, ?_⟩
      · intro lease hlease
        rw [returned_leases] at hlease
        exact hreleased lease hlease
      · rw [hcommit.tasks, if_pos rfl]

end Control

/-! ## The returned task -/

namespace FailedDispatch

variable {x : FailedDispatch} {stored : Task} {refused : Option Int} {reclaim : Bool} {now : Instant}

theorem returnPatch_state : (x.returnPatch stored refused reclaim now).state = some (x.target stored reclaim) := by
  rw [returnPatch]
  split
  · rfl
  · split <;> rfl

theorem returnPatch_lease : (x.returnPatch stored refused reclaim now).currentLeaseId = some none := by
  rw [returnPatch]
  split
  · rfl
  · split <;> rfl

theorem target_cancelled : x.target stored reclaim = .cancelled ↔ stored.cancelRequested = true := by
  rw [target]
  constructor
  · intro h
    by_contra hflag
    rw [if_neg hflag] at h
    split at h
    · cases h
    · split at h
      · cases h
      · cases h
  · exact fun hflag => if_pos hflag

theorem target_parked (h : x.target stored reclaim = .parked) : x.parks stored reclaim = true := by
  by_contra hparks
  rw [target, if_neg hparks] at h
  split at h
  · cases h
  · split at h
    · cases h
    · cases h

theorem target_ready (h : x.target stored reclaim = .ready) :
    x.parks stored reclaim = false ∧ stored.attemptCount.getD 0 < x.maxAttempts stored := by
  rw [target] at h
  split at h
  · cases h
  · split at h
    · cases h
    · rename_i hparks
      split at h
      · cases h
      · rename_i hleft
        have hstays : x.parks stored reclaim = false := by simpa using hparks
        refine ⟨hstays, ?_⟩
        rw [attemptsAfter, hstays] at hleft
        simpa [retriesExhausted] using hleft

/-- Only a park writes the count. -/
theorem returnPatch_attemptCount : (x.returnPatch stored refused reclaim now).attemptCount =
    if x.parks stored reclaim then some (x.attemptsAfter stored reclaim) else none := by
  by_cases hparks : x.parks stored reclaim = true
  · have hflag : stored.cancelRequested = false := by
      rw [parks] at hparks
      simpa using (Bool.and_eq_true_iff.mp hparks).2
    have htarget : x.target stored reclaim = .parked := by
      rw [target, hflag, if_neg (by decide), if_pos hparks]
    rw [returnPatch, htarget, if_neg (by decide), refusals, if_pos hparks, if_pos hparks]
  · rw [returnPatch, refusals, if_neg hparks, if_neg hparks]
    split <;> rfl

end FailedDispatch

/-! ## No capacity is stranded -/

section Settled

variable {c c' : Control} {x : FailedDispatch} {now : Instant}

/-- A task that `_settle` changed was on this lease, and is off it. -/
theorem returnToReady_changed (h : c' = (c.returnToReady x now).2)
    (hchanged : c'.store.tasks.lookup x.task.id ≠ c.store.tasks.lookup x.task.id) :
    ∃ stored reclaim, c.store.tasks.lookup x.task.id = some stored ∧ stored.state ∈ concurrencyStates ∧
      stored.currentLeaseId = some x.lease.leaseId ∧ x.Returns c.store stored reclaim ∧
      c'.store.tasks.lookup x.task.id =
        some ((x.returnPatch stored (c.platformRefusals.lookup x.task.id) reclaim now).apply stored) := by
  subst h
  by_cases hoccupies : Occupies (c.store.tasks.lookup x.task.id) x.lease.leaseId
  · obtain ⟨stored, hstored, hcapacity, hpoints⟩ := hoccupies
    obtain hsame | ⟨reclaim, hreturns, -, hwritten⟩ := Control.returnToReady_on now hstored hcapacity hpoints
    · rw [hsame] at hchanged
      exact absurd rfl hchanged
    · exact ⟨stored, reclaim, hstored, hcapacity, hpoints, hreturns, hwritten⟩
  · rw [(Control.returnToReady_off now hoccupies).1] at hchanged
    exact absurd rfl hchanged

/-- One commit of `_settle`, whatever it finds: a lease it released or a task it changed are apart, an unreleased
lease has its task, and the task is changed only under its guards and only to where they allow. -/
theorem returnToReady_strands_nothing (h : c' = (c.returnToReady x now).2) :
    (Unreleased c.store x.lease.leaseId ∧ ¬Unreleased c'.store x.lease.leaseId ∨
        ¬Unreleased c'.store x.lease.leaseId ∧
          c'.store.tasks.lookup x.task.id ≠ c.store.tasks.lookup x.task.id →
      ¬Occupies (c'.store.tasks.lookup x.task.id) x.lease.leaseId) ∧
    (Unreleased c'.store x.lease.leaseId → Occupies (c'.store.tasks.lookup x.task.id) x.lease.leaseId) ∧
    (c'.store.tasks.lookup x.task.id ≠ c.store.tasks.lookup x.task.id →
      ∃ stored stored', c.store.tasks.lookup x.task.id = some stored ∧
        c'.store.tasks.lookup x.task.id = some stored' ∧
        stored.state ∈ concurrencyStates ∧ stored.currentLeaseId = some x.lease.leaseId ∧
        (stored.state = .leased ∧ stored.currentGeneration.getD 0 = x.lease.generation ∨
          stored.currentGeneration.getD 0 ≠ x.lease.generation ∧ ¬Unreleased c.store x.lease.leaseId) ∧
        (stored'.state = .cancelled ↔ stored.cancelRequested = true) ∧
        (stored'.state = .ready → stored'.attemptCount.getD 0 < x.maxAttempts stored) ∧
        (stored'.state = .parked → x.platformRefusal = true ∧ stored.state = .leased ∧
          stored'.attemptCount = some (max 0 (stored.attemptCount.getD 0 - 1)))) := by
  refine ⟨?_, ?_, ?_⟩
  · intro hreleased hafter
    have hopen : ¬Unreleased c'.store x.lease.leaseId := by
      obtain ⟨-, hopen⟩ | ⟨hopen, -⟩ := hreleased
      · exact hopen
      · exact hopen
    by_cases hchanged : c'.store.tasks.lookup x.task.id = c.store.tasks.lookup x.task.id
    · -- The lease was released over an unchanged task, which was therefore off it.
      rw [hchanged] at hafter
      obtain ⟨stored, hstored, hcapacity, hpoints⟩ := hafter
      obtain hsame | ⟨reclaim, -, -, hwritten⟩ := Control.returnToReady_on now hstored hcapacity hpoints
      · rw [← h] at hsame
        obtain ⟨hbefore, -⟩ | ⟨-, hne⟩ := hreleased
        · rw [hsame] at hopen
          exact hopen hbefore
        · exact hne hchanged
      · rw [← h, hchanged, hstored] at hwritten
        have hlease := congrArg Task.currentLeaseId (Option.some.inj hwritten)
        rw [Patch.apply, FailedDispatch.returnPatch_lease, hpoints] at hlease
        cases hlease
    · obtain ⟨stored, reclaim, -, -, -, -, hwritten⟩ := returnToReady_changed h hchanged
      obtain ⟨found, hfound, -, hpoints⟩ := hafter
      rw [hwritten, Option.some_inj] at hfound
      rw [← hfound, Patch.apply, FailedDispatch.returnPatch_lease] at hpoints
      cases hpoints
  · intro hopen
    by_contra hfree
    by_cases hoccupies : Occupies (c.store.tasks.lookup x.task.id) x.lease.leaseId
    · obtain ⟨stored, hstored, hcapacity, hpoints⟩ := hoccupies
      obtain hsame | ⟨reclaim, -, hreleased, -⟩ := Control.returnToReady_on now hstored hcapacity hpoints
      · rw [← h] at hsame
        rw [hsame] at hfree
        exact hfree ⟨stored, hstored, hcapacity, hpoints⟩
      · rw [← h] at hreleased
        exact not_unreleased_iff.mpr hreleased hopen
    · have hreleased := (Control.returnToReady_off now hoccupies).2
      rw [← h] at hreleased
      exact not_unreleased_iff.mpr hreleased hopen
  · intro hchanged
    obtain ⟨stored, reclaim, hstored, hcapacity, hpoints, hreturns, hwritten⟩ := returnToReady_changed h hchanged
    refine ⟨stored, _, hstored, hwritten, hcapacity, hpoints, ?_, ?_, ?_, ?_⟩
    · cases reclaim with
      | false => exact .inl hreturns
      | true => exact .inr ⟨hreturns.1, not_unreleased_iff.mpr hreturns.2⟩
    · rw [Patch.apply, FailedDispatch.returnPatch_state]
      exact FailedDispatch.target_cancelled
    · intro hready
      rw [Patch.apply, FailedDispatch.returnPatch_state] at hready
      obtain ⟨hparks, hleft⟩ := FailedDispatch.target_ready hready
      rw [Patch.apply, FailedDispatch.returnPatch_attemptCount, hparks]
      exact hleft
    · intro hparked
      rw [Patch.apply, FailedDispatch.returnPatch_state] at hparked
      have hparks := FailedDispatch.target_parked hparked
      have hguards := hparks
      simp only [FailedDispatch.parks, Bool.and_eq_true, decide_eq_true_eq] at hguards
      obtain ⟨⟨⟨hplatform, -⟩, hleased⟩, -⟩ := hguards
      refine ⟨hplatform, hleased, ?_⟩
      rw [Patch.apply, FailedDispatch.returnPatch_attemptCount, if_pos hparks, FailedDispatch.attemptsAfter,
        if_pos hparks]
      rfl

end Settled

/-! ### A dispatch that fails behind an admission, and two documents that no admission leaves -/

def failedLease : Admission.Lease := ⟨"lease_1", "task_1", "att", "eng", 1, [], 1, [], .leased, 0, 0, 0⟩

/-- The failure of the dispatch of `sampleLeased`, or of a task stored otherwise. -/
def failedDispatch (platformRefusal : Bool) : FailedDispatch :=
  { task := ⟨"task_1", { tenantId := "eng", state := .ready }⟩, lease := failedLease, errorCode := "gke_create_job_failed"
    platformRefusal := platformRefusal }

theorem returnToReady_strands_nothing_leased :
    Unreleased sampleLeased.store "lease_1" ∧ Occupies (sampleLeased.store.tasks.lookup "task_1") "lease_1" ∧
      ¬Unreleased (sampleLeased.returnToReady (failedDispatch false) 1).2.store "lease_1" ∧
      ¬Occupies ((sampleLeased.returnToReady (failedDispatch false) 1).2.store.tasks.lookup "task_1") "lease_1" := by
  have hopen : Unreleased sampleLeased.store "lease_1" := ⟨_, rfl, rfl⟩
  have hreleased : ¬Unreleased (sampleLeased.returnToReady (failedDispatch false) 1).2.store "lease_1" := by
    rw [not_unreleased_iff]
    intro lease hlease
    have hsome : ((sampleLeased.returnToReady (failedDispatch false) 1).2.store.leases.lookup "lease_1").all
        (fun lease => lease.releasedAt.isSome) = true := by decide
    rw [hlease] at hsome
    exact hsome
  refine ⟨hopen, ⟨_, rfl, by decide, rfl⟩, hreleased, ?_⟩
  exact (returnToReady_strands_nothing (x := failedDispatch false) rfl).1 (.inl ⟨hopen, hreleased⟩)

/-- A control with one task and no lease. -/
def controlWith (task : Task) : Control :=
  { sampleControl with store := { sampleControl.store with tasks := (∅ : Docs String Task).insert "task_1" task } }

/-- A task behind its lease's generation is returned like one past it, and a park gives no attempt back where none
was counted. -/
theorem returnToReady_other_documents :
    (¬∀ (c : Control) (x : FailedDispatch) (now : Instant) (stored stored' : Task),
      c.store.tasks.lookup x.task.id = some stored →
      (c.returnToReady x now).2.store.tasks.lookup x.task.id = some stored' → stored'.state ≠ stored.state →
      stored.state = .leased ∧ stored.currentGeneration.getD 0 = x.lease.generation ∨
        x.lease.generation < stored.currentGeneration.getD 0 ∧ ¬Unreleased c.store x.lease.leaseId) ∧
    ¬∀ (c : Control) (x : FailedDispatch) (now : Instant) (stored stored' : Task),
      c.store.tasks.lookup x.task.id = some stored →
      (c.returnToReady x now).2.store.tasks.lookup x.task.id = some stored' → stored'.state ≠ stored.state →
      stored'.state = .parked → stored'.attemptCount.getD 0 = stored.attemptCount.getD 0 - 1 := by
  constructor
  · intro hclaim
    have hrow := hclaim (controlWith { tenantId := "eng", state := .running, currentLeaseId := some "lease_1" })
      (failedDispatch false) 1 _ _ rfl rfl (by decide)
    simp [failedDispatch, failedLease] at hrow
  · intro hclaim
    have hcount := hclaim
      (controlWith { tenantId := "eng", state := .leased, currentLeaseId := some "lease_1", currentGeneration := some 1 })
      (failedDispatch true) 1 _ _ rfl rfl (by decide) (by decide)
    exact absurd hcount (by decide)

end SwarmCloud.Scheduler
