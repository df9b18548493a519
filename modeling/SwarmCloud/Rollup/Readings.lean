import SwarmCloud.Rollup.Final

/-! # What the derived state depends on

The state that `derive` answers comes from the steps' own states. Which of them were
absent or skipped goes into the rest of its answer.
-/

namespace SwarmCloud.Rollup

open Common Lib

variable {readings readings' : List StepReading}

/-- A reading without its marks. -/
def StepReading.bare (r : StepReading) : StepReading := { r with absent := false, skipped := false }

theorem presentStates_bare (readings : List StepReading) :
    presentStates (readings.map StepReading.bare) = presentStates readings := by
  rw [presentStates, presentStates, List.filterMap_map]
  rfl

theorem ownStates_bare (readings : List StepReading) :
    ownStates (readings.map StepReading.bare) = ownStates readings := by
  rw [ownStates, ownStates, List.filter_map, List.filterMap_map]
  rfl

theorem worstState_bare (readings : List StepReading) :
    worstState (readings.map StepReading.bare) = worstState readings := by
  rw [worstState, worstState, judgedStates, judgedStates, ownStates_bare, presentStates_bare]

theorem stepIds_bare (readings : List StepReading) {p : StepReading → Bool} (hp : ∀ r, p r.bare = p r) :
    stepIds (readings.map StepReading.bare) p = stepIds readings p := by
  have hcomp : p ∘ StepReading.bare = p := funext hp
  rw [stepIds, stepIds, List.filter_map, hcomp, List.map_map]
  rfl

theorem derive_bare (readings : List StepReading) :
    (derive (readings.map StepReading.bare)).state = (derive readings).state := by
  have hunreadable := stepIds_bare readings (p := fun r => !r.unstarted && r.state.isNone) fun _ => rfl
  have hunstarted := stepIds_bare readings (p := StepReading.unstarted) fun _ => rfl
  by_cases hne : readings = []
  · rw [hne]
    rfl
  · have hbare : readings.map StepReading.bare ≠ [] := fun h => hne (List.map_eq_nil_iff.mp h)
    unfold derive
    rw [if_neg hbare, if_neg hne]
    dsimp only
    rw [hunreadable, hunstarted, presentStates_bare, worstState_bare]
    -- The same branch on both sides, and the same state in it.
    split
    · rfl
    · split
      · rfl
      · split
        · rfl
        · split
          · rfl
          · rfl

theorem derive_congr (h : readings.map StepReading.bare = readings'.map StepReading.bare) :
    (derive readings).state = (derive readings').state := by
  rw [← derive_bare readings, h, derive_bare]

/-- There is a step, and every step that has a task has a state. -/
structure Readable (readings : List StepReading) : Prop where
  nonempty : readings ≠ []
  state : ∀ r ∈ readings, r.taskId.isSome → r.state.isSome

theorem readable_iff : Readable readings ↔
    readings ≠ [] ∧ stepIds readings (fun r => !r.unstarted && r.state.isNone) = [] := by
  have hstate : ∀ r : StepReading, (!r.unstarted && r.state.isNone) = false ↔ (r.taskId.isSome → r.state.isSome) := by
    rintro ⟨stepId, taskId, state, absent, skipped⟩
    cases taskId <;> cases state <;> simp [StepReading.unstarted]
  rw [stepIds_eq_nil]
  constructor
  · exact fun h => ⟨h.nonempty, fun r hr => (hstate r).mpr (h.state r hr)⟩
  · exact fun h => ⟨h.1, fun r hr => (hstate r).mp (h.2 r hr)⟩

theorem readable_of_known {state : TaskState} (h : (derive readings).state = .known state) : Readable readings := by
  rw [readable_iff]
  unfold derive at h
  split at h
  · cases h
  · rename_i hne
    dsimp only at h
    split at h
    · cases h
    · rename_i hread
      exact ⟨hne, not_not.mp hread⟩

/-- What can be read has a state, and the derivation knows that it read everything. -/
theorem Readable.derive (h : Readable readings) :
    (∃ state, (Rollup.derive readings).state = .known state) ∧ (Rollup.derive readings).complete = true := by
  obtain ⟨hne, hread⟩ := readable_iff.mp h
  unfold Rollup.derive
  rw [if_neg hne]
  dsimp only
  rw [if_neg (not_not.mpr hread)]
  split
  · exact ⟨⟨_, rfl⟩, rfl⟩
  · split
    · exact ⟨⟨_, rfl⟩, rfl⟩
    · split
      · exact ⟨⟨_, rfl⟩, rfl⟩
      · exact ⟨⟨_, rfl⟩, rfl⟩

theorem Readable.running (h : Readable readings) {r : StepReading} (hr : r ∈ readings) {state : TaskState}
    (hstate : r.state = some state) (hcapacity : state ∈ concurrencyStates) :
    (Rollup.derive readings).state = .known .running := by
  obtain ⟨hne, hread⟩ := readable_iff.mp h
  have hpresent : ((presentStates readings).any fun s => concurrencyStates.contains s) = true := by
    rw [List.any_eq_true]
    exact ⟨state, mem_presentStates.mpr ⟨r, hr, hstate⟩, List.contains_iff_mem.mpr hcapacity⟩
  unfold Rollup.derive
  rw [if_neg hne]
  dsimp only
  rw [if_neg (not_not.mpr hread), if_pos hpresent]

end SwarmCloud.Rollup
