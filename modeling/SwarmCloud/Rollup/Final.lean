import SwarmCloud.Rollup.Derive
import SwarmCloud.Lib.Runs

/-! # When a derived final state is final

A step task moves only along the transition table. A workflow whose derived
state is one of the final ones keeps it through every run of such moves exactly
when none of its fix rounds stands at `FAILED`: a round is left out of the
severity that the final set was computed from, but a retry still reopens it.
-/

namespace SwarmCloud.Rollup

open Common Lib

structure Change where
  taskId : String
  next : TaskState

/-- One task's move, allowed by the table. -/
def Moves (states : Docs String TaskState) (change : Change) (states' : Docs String TaskState) :
    Prop :=
  ∃ frm, states.lookup change.taskId = some frm ∧ canTransition frm change.next = true ∧
    states' = states.insert change.taskId change.next

def derivedState (steps : List WorkflowStep) (states : Docs String TaskState)
    (absent skipped : List String) : RollupState :=
  (derive (readSteps steps states absent skipped)).state

/-- The derived state outlives every run of moves, whatever else a read reports. -/
def StaysFinal (steps : List WorkflowStep) (states : Docs String TaskState)
    (state : RollupState) : Prop :=
  ∀ changes states' absent skipped, Run Moves states changes states' →
    derivedState steps states' absent skipped = state

def NoFailedRound (steps : List WorkflowStep) (states : Docs String TaskState) : Prop :=
  ∀ step ∈ steps, isFixRoundStep step.stepId = true →
    ∀ id, step.task = some id → states.lookup id ≠ some .failed

/-- Reading a step only looks its task up. -/
@[simp] theorem readStep_state (states : Docs String TaskState) (absent skipped : List String)
    (step : WorkflowStep) :
    (readStep states absent skipped step).state = step.task.bind fun id => states.lookup id := by
  unfold readStep
  cases step.task <;> rfl

@[simp] theorem readStep_taskId (states : Docs String TaskState) (absent skipped : List String)
    (step : WorkflowStep) : (readStep states absent skipped step).taskId = step.task := by
  unfold readStep
  cases step.task <;> rfl

@[simp] theorem readStep_stepId (states : Docs String TaskState) (absent skipped : List String)
    (step : WorkflowStep) : (readStep states absent skipped step).stepId = step.stepId := by
  unfold readStep
  cases step.task <;> rfl

structure AllTerminal (readings : List StepReading) : Prop where
  nonempty : readings ≠ []
  terminal : ∀ r ∈ readings, r.taskId.isSome ∧ ∃ s, r.state = some s ∧ s ∈ terminalStates

theorem stepIds_eq_nil {readings : List StepReading} {p : StepReading → Bool} :
    stepIds readings p = [] ↔ ∀ r ∈ readings, p r = false := by
  unfold stepIds
  rw [List.map_eq_nil_iff, List.filter_eq_nil_iff]
  simp only [Bool.not_eq_true]

theorem mem_presentStates {readings : List StepReading} {s : TaskState} :
    s ∈ presentStates readings ↔ ∃ r ∈ readings, r.state = some s :=
  List.mem_filterMap

theorem firstOf_mem {order present : List TaskState} {s : TaskState} (floor : TaskState)
    (hs : s ∈ order) (hpresent : s ∈ present) : firstOf order present floor ∈ present := by
  unfold firstOf
  cases hfind : order.find? fun s => present.contains s with
  | none =>
    have hnone := List.find?_eq_none.mp hfind s hs
    simp [hpresent] at hnone
  | some t =>
    have ht := List.find?_some hfind
    simpa using ht

/-- What `derive` answers over a reading that is terminal throughout. -/
theorem derive_of_allTerminal {readings : List StepReading} (h : AllTerminal readings) :
    (derive readings).state = .known (worstState readings) := by
  have hunreadable : stepIds readings (fun r => !r.unstarted && r.state.isNone) = [] := by
    rw [stepIds_eq_nil]
    intro r hr
    obtain ⟨_, s, hs, _⟩ := h.terminal r hr
    simp [hs]
  have hunstarted : stepIds readings StepReading.unstarted = [] := by
    rw [stepIds_eq_nil]
    intro r hr
    simpa [StepReading.unstarted] using (h.terminal r hr).1
  have hterminal : ∀ s ∈ presentStates readings, s ∈ terminalStates := by
    intro s hs
    obtain ⟨r, hr, hstate⟩ := mem_presentStates.mp hs
    obtain ⟨_, t, ht, hmem⟩ := h.terminal r hr
    obtain rfl : s = t := Option.some.inj (hstate.symm.trans ht)
    exact hmem
  have hlive : ((presentStates readings).any fun s => concurrencyStates.contains s) = false := by
    rw [List.any_eq_false]
    intro s hs
    rcases state_classes s with hc | hc | hc
    · simpa using hc.2.1
    · exact absurd (hterminal s hs) hc.2.2
    · simpa using hc.2.1
  have hpresent : presentStates readings ≠ [] := by
    obtain ⟨r, hr⟩ := List.exists_mem_of_ne_nil readings h.nonempty
    obtain ⟨_, s, hs, _⟩ := h.terminal r hr
    exact List.ne_nil_of_mem (mem_presentStates.mpr ⟨r, hr, hs⟩)
  have hall : ((presentStates readings).all fun s => terminalStates.contains s) = true := by
    rw [List.all_eq_true]
    intro s hs
    simpa using hterminal s hs
  unfold derive
  rw [if_neg h.nonempty]
  simp only [hunreadable, hunstarted, hlive, hpresent, hall, ne_eq, not_true_eq_false, if_false,
    not_false_eq_true, and_self, if_true, Bool.false_eq_true]

/-- A terminal answer comes from a reading that is terminal throughout. -/
theorem allTerminal_of_derive {readings : List StepReading} {s : TaskState}
    (h : (derive readings).state = .known s) (hs : s ∈ terminalStates) : AllTerminal readings := by
  unfold derive at h
  split at h
  · cases h
  · rename_i hnonempty
    simp only at h
    split at h
    · cases h
    · rename_i hunreadable
      split at h
      · cases h
        exact absurd hs (by decide)
      · split at h
        · rename_i hrule
          obtain ⟨hunstarted, _, hall⟩ := hrule
          refine ⟨hnonempty, ?_⟩
          intro r hr
          have hstarted := stepIds_eq_nil.mp hunstarted r hr
          have hread := stepIds_eq_nil.mp (not_not.mp hunreadable) r hr
          cases hstate : r.state with
          | none => simp [hstarted, hstate] at hread
          | some t =>
            have hmem := List.all_eq_true.mp hall t (mem_presentStates.mpr ⟨r, hr, hstate⟩)
            exact ⟨by simpa [StepReading.unstarted] using hstarted, t, rfl, by simpa using hmem⟩
        · split at h
          · rename_i hpending
            simp only [RollupState.known.injEq] at h
            obtain ⟨t, ht⟩ := List.exists_mem_of_ne_nil _ hpending
            have htp : t ∈ pendingStates := by simpa using (List.mem_filter.mp ht).2
            have horder : t ∈ pendingPrecedence := by
              revert htp
              cases t <;> decide
            have hmem := firstOf_mem .queued horder ht
            rw [h] at hmem
            have hspending : s ∈ pendingStates := by simpa using (List.mem_filter.mp hmem).2
            rcases state_classes s with hc | hc | hc
            · exact absurd hs hc.2.2
            · exact absurd hspending hc.1
            · exact absurd hspending hc.1
          · cases h
            exact absurd hs (by decide)

theorem terminal_of_final {s : TaskState} (hs : s ∈ finalWorkflowStates) : s ∈ terminalStates := by
  rw [finalWorkflowStates_eq] at hs
  revert hs
  cases s <;> decide

theorem mem_readSteps {steps : List WorkflowStep} {step : WorkflowStep} (hstep : step ∈ steps)
    (states : Docs String TaskState) (absent skipped : List String) :
    readStep states absent skipped step ∈ readSteps steps states absent skipped :=
  List.mem_map_of_mem hstep

theorem presentStates_readSteps (steps : List WorkflowStep) (states : Docs String TaskState)
    (absent skipped : List String) :
    presentStates (readSteps steps states absent skipped) =
      steps.filterMap fun step => step.task.bind fun id => states.lookup id := by
  unfold presentStates readSteps
  rw [List.filterMap_map]
  congr 1
  funext step
  exact readStep_state states absent skipped step

theorem ownStates_readSteps (steps : List WorkflowStep) (states : Docs String TaskState)
    (absent skipped : List String) :
    ownStates (readSteps steps states absent skipped) =
      (steps.filter fun step => !isFixRoundStep step.stepId).filterMap fun step =>
        step.task.bind fun id => states.lookup id := by
  have hfilter : ((readSteps steps states absent skipped).filter
      fun r => !isFixRoundStep r.stepId) =
      readSteps (steps.filter fun step => !isFixRoundStep step.stepId) states absent skipped := by
    unfold readSteps
    rw [List.filter_map]
    congr 1
    apply List.filter_congr
    intro step _
    simp
  unfold ownStates
  rw [hfilter]
  exact presentStates_readSteps _ states absent skipped

/-- Two task maps that agree on the steps' tasks are read alike. -/
theorem judgedStates_congr {steps : List WorkflowStep} {states states' : Docs String TaskState}
    (h : ∀ step ∈ steps, ∀ id, step.task = some id → states'.lookup id = states.lookup id)
    (absent skipped absent' skipped' : List String) :
    judgedStates (readSteps steps states' absent' skipped') =
      judgedStates (readSteps steps states absent skipped) := by
  have hread : ∀ step ∈ steps, (step.task.bind fun id => states'.lookup id) =
      step.task.bind fun id => states.lookup id := by
    intro step hstep
    cases htask : step.task with
    | none => rfl
    | some id => exact h step hstep id htask
  have hpresent : presentStates (readSteps steps states' absent' skipped') =
      presentStates (readSteps steps states absent skipped) := by
    rw [presentStates_readSteps, presentStates_readSteps]
    exact List.filterMap_congr hread
  have hown : ownStates (readSteps steps states' absent' skipped') =
      ownStates (readSteps steps states absent skipped) := by
    rw [ownStates_readSteps, ownStates_readSteps]
    exact List.filterMap_congr fun step hstep => hread step (List.mem_of_mem_filter hstep)
  unfold judgedStates
  rw [hpresent, hown]

/-- A failed step among the judged ones is reported, so the answer is not a final one. -/
theorem not_final_of_failed {readings : List StepReading}
    (h : TaskState.failed ∈ judgedStates readings) :
    worstState readings ∉ finalWorkflowStates := by
  rw [finalWorkflowStates_eq]
  by_cases hdead : TaskState.deadLettered ∈ judgedStates readings
  · simp [worstState, firstOf, terminalSeverity, hdead]
  · simp [worstState, firstOf, terminalSeverity, hdead, h]

/-- Every step of a final workflow without a failed round is at a state with no way out. -/
theorem step_stuck {steps : List WorkflowStep} {states : Docs String TaskState}
    {absent skipped : List String} {s : TaskState}
    (h : derivedState steps states absent skipped = .known s) (hs : s ∈ finalWorkflowStates)
    (hrounds : NoFailedRound steps states) {step : WorkflowStep} (hstep : step ∈ steps) {id : String}
    (hid : step.task = some id) :
    ∃ t, states.lookup id = some t ∧ t ∈ terminalStates ∧ t ≠ .failed := by
  have hterminal := terminal_of_final hs
  have hall := allTerminal_of_derive h hterminal
  obtain ⟨_, t, ht, htmem⟩ := hall.terminal _ (mem_readSteps hstep states absent skipped)
  have hlookup : states.lookup id = some t := by simpa [hid] using ht
  refine ⟨t, hlookup, htmem, ?_⟩
  rintro rfl
  cases hround : isFixRoundStep step.stepId with
  | true => exact hrounds step hstep hround id hid hlookup
  | false =>
    have hown : TaskState.failed ∈ ownStates (readSteps steps states absent skipped) := by
      rw [ownStates_readSteps, List.mem_filterMap]
      refine ⟨step, List.mem_filter.mpr ⟨hstep, by simp [hround]⟩, ?_⟩
      rw [hid]
      exact hlookup
    have hjudged : TaskState.failed ∈ judgedStates (readSteps steps states absent skipped) := by
      rw [judgedStates, if_neg (List.ne_nil_of_mem hown)]
      exact hown
    have hworst := (derive_of_allTerminal hall).symm.trans h
    have hnot := not_final_of_failed hjudged
    rw [RollupState.known.inj hworst] at hnot
    exact hnot hs

theorem staysFinal_of_noFailedRound {steps : List WorkflowStep} {states : Docs String TaskState}
    {absent skipped : List String} {s : TaskState}
    (h : derivedState steps states absent skipped = .known s) (hs : s ∈ finalWorkflowStates)
    (hrounds : NoFailedRound steps states) : StaysFinal steps states (.known s) := by
  intro changes states' absent' skipped' hrun
  have hkept : ∀ step ∈ steps, ∀ id, step.task = some id →
      states'.lookup id = states.lookup id := by
    refine hrun.invariant (I := fun states' => ∀ step ∈ steps, ∀ id, step.task = some id →
      states'.lookup id = states.lookup id) ?_ fun _ _ _ _ => rfl
    rintro now change next hnow ⟨frm, hfrm, hallowed, rfl⟩ step hstep id hid
    rw [Docs.lookup_insert_eq]
    split
    · rename_i hsame
      obtain ⟨t, ht, hterminal, hne⟩ := step_stuck h hs hrounds hstep hid
      have heq : frm = t := by
        rw [← hsame, hnow step hstep id hid, ht] at hfrm
        exact (Option.some.inj hfrm).symm
      rw [heq] at hallowed
      exact absurd (canTransition_of_terminal hterminal hallowed).1 hne
    · exact hnow step hstep id hid
  have hterminal := terminal_of_final hs
  have hall := allTerminal_of_derive h hterminal
  have hall' : AllTerminal (readSteps steps states' absent' skipped') := by
    constructor
    · have hne := hall.nonempty
      simpa [readSteps] using hne
    · intro r hr
      obtain ⟨step, hstep, rfl⟩ := List.mem_map.mp hr
      obtain ⟨htask, t, ht, hmem⟩ := hall.terminal _ (mem_readSteps hstep states absent skipped)
      rw [readStep_taskId] at htask
      obtain ⟨id, hid⟩ := Option.isSome_iff_exists.mp htask
      refine ⟨by simp [hid], t, ?_, hmem⟩
      rw [readStep_state, hid] at ht ⊢
      exact (hkept step hstep id hid).trans ht
  have hworst := (derive_of_allTerminal hall).symm.trans h
  rw [derivedState, derive_of_allTerminal hall', worstState,
    judgedStates_congr hkept absent skipped absent' skipped']
  exact hworst

/-- A derived final state survives every run of allowed moves exactly when no
fix round of the workflow stands at `FAILED`. -/
theorem staysFinal_iff_noFailedRound {steps : List WorkflowStep} {states : Docs String TaskState}
    {absent skipped : List String} {s : TaskState}
    (h : derivedState steps states absent skipped = .known s) (hs : s ∈ finalWorkflowStates) :
    StaysFinal steps states (.known s) ↔ NoFailedRound steps states := by
  constructor
  · intro hstays step hstep _ id hid hfailed
    have hmove : Run Moves states [⟨id, .ready⟩] (states.insert id .ready) :=
      Run.one ⟨.failed, hfailed, rfl, rfl⟩
    have hafter := hstays _ _ [] [] hmove
    have hterminal := terminal_of_final hs
    have hall := allTerminal_of_derive hafter hterminal
    obtain ⟨_, t, ht, hmem⟩ := hall.terminal _ (mem_readSteps hstep _ _ _)
    rw [readStep_state, hid, Option.bind_some, Docs.lookup_insert_eq, if_pos rfl] at ht
    cases ht
    exact absurd hmem (by decide)
  · exact staysFinal_of_noFailedRound h hs

def mergedSteps : List WorkflowStep := [⟨"merge", some "t1"⟩, ⟨"ci-fix:1", some "t2"⟩]

/-- The merge succeeded on a later try; its first fix round failed and can be retried. -/
def failedRoundStates : Docs String TaskState :=
  ((∅ : Docs String TaskState).insert "t1" .succeeded).insert "t2" .failed

theorem final_state_reopened :
    ¬ ∀ (steps : List WorkflowStep) (states : Docs String TaskState) (absent skipped : List String)
      (s : TaskState), derivedState steps states absent skipped = .known s →
        s ∈ finalWorkflowStates → StaysFinal steps states (.known s) := by
  intro hclaim
  have hstays := hclaim mergedSteps failedRoundStates [] [] .succeeded (by decide)
    (by decide)
  have hmove : Run Moves failedRoundStates [⟨"t2", .ready⟩] (failedRoundStates.insert "t2" .ready) :=
    Run.one ⟨.failed, by decide, by decide, rfl⟩
  have hafter := hstays _ _ [] [] hmove
  have hready : derivedState mergedSteps (failedRoundStates.insert "t2" .ready) [] [] =
      .known .ready := by decide
  rw [hready] at hafter
  cases hafter

/-- The merge and its fix round succeeded, and another step was cancelled. -/
def fixedRoundStates : Docs String TaskState :=
  (((∅ : Docs String TaskState).insert "t1" .succeeded).insert "t2" .succeeded).insert "t3" .cancelled

theorem staysFinal_fixed_round :
    StaysFinal (mergedSteps ++ [⟨"build", some "t3"⟩]) fixedRoundStates (.known .cancelled) := by
  have hderived : derivedState (mergedSteps ++ [⟨"build", some "t3"⟩]) fixedRoundStates [] [] =
      .known .cancelled := by decide
  refine (staysFinal_iff_noFailedRound hderived (by decide)).mpr ?_
  intro step hstep hround id hid
  have hfixed : step = ⟨"ci-fix:1", some "t2"⟩ := by
    simp only [mergedSteps, List.mem_append, List.mem_cons, List.not_mem_nil, or_false] at hstep
    obtain (rfl | rfl) | rfl := hstep
    · exact absurd hround (by decide)
    · rfl
    · exact absurd hround (by decide)
  rw [hfixed] at hid
  obtain rfl := Option.some.inj hid
  decide

/-! ## The listing -/

def liveStates : List String :=
  (TaskState.all.filter fun s => !finalWorkflowStates.contains s).map TaskState.value

/-- `Store.stored_states_for`: the stored states a filtered listing must query. -/
def storedStatesFor (active : Bool) (states : List String) : Option (List String) :=
  if active then some liveStates
  else if states = [] then none
  else if states.any fun name => !(TaskState.all.map TaskState.value).contains name then none
  else
    let namedFinal := (finalWorkflowStates.map TaskState.value).filter fun v => states.contains v
    some (liveStates ++ namedFinal.mergeSort (· ≤ ·))

/-- A workflow without a failed round that an active listing leaves out is not live. -/
theorem unlisted_not_live {steps : List WorkflowStep} {states states' : Docs String TaskState}
    {absent skipped : List String} {s : TaskState} {changes : List Change} {query : List String}
    (hquery : storedStatesFor true [] = some query) (hunlisted : s.value ∉ query)
    (h : derivedState steps states absent skipped = .known s)
    (hrounds : NoFailedRound steps states) (hrun : Run Moves states changes states') :
    ∃ t ∈ terminalStates, derivedState steps states' absent skipped = .known t := by
  have hfinal : s ∈ finalWorkflowStates ∧ s ∈ terminalStates := by
    obtain rfl : liveStates = query := by simpa [storedStatesFor] using hquery
    revert hunlisted
    cases s <;> decide
  exact ⟨s, hfinal.2, staysFinal_of_noFailedRound h hfinal.1 hrounds _ _ _ _ hrun⟩

end SwarmCloud.Rollup
