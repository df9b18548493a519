import SwarmCloud.Rollup.Readings

/-! # What the derived state says

`derive` reads its steps in any order. It answers from a complete reading or not at
all, and it is never better than the worst step that it judges.
-/

namespace SwarmCloud.Rollup

open Common Lib

variable {readings readings' : List StepReading}

/-! ## Any order -/

theorem tally_comm (counts : Docs String Nat) (r r' : StepReading) :
    tally (tally counts r) r' = tally (tally counts r') r := by
  by_cases hkey : countKey r = countKey r'
  · rw [tally, tally, tally, tally, hkey]
  · apply Finmap.ext_lookup
    intro key
    simp only [tally, Docs.lookup_insert_eq]
    split_ifs <;> simp_all

theorem tally_perm (h : readings.Perm readings') : readings.foldl tally ∅ = readings'.foldl tally ∅ :=
  h.foldl_eq' (fun r _ r' _ counts => tally_comm counts r r') ∅

theorem stepIds_perm (h : readings.Perm readings') (p : StepReading → Bool) :
    (stepIds readings p = []) = (stepIds readings' p = []) := by
  apply propext
  rw [stepIds_eq_nil, stepIds_eq_nil]
  constructor
  · exact fun hall r hr => hall r (h.mem_iff.mpr hr)
  · exact fun hall r hr => hall r (h.mem_iff.mp hr)

theorem firstOf_congr {order present present' : List TaskState} (h : ∀ s, s ∈ present ↔ s ∈ present')
    (floor : TaskState) : firstOf order present floor = firstOf order present' floor := by
  have hsame : (fun s => present.contains s) = fun s => present'.contains s := by
    funext s
    rw [Bool.eq_iff_iff, List.contains_iff_mem, List.contains_iff_mem]
    exact h s
  rw [firstOf, firstOf, hsame]

theorem worstState_perm (h : readings.Perm readings') : worstState readings = worstState readings' := by
  have hpresent : (presentStates readings).Perm (presentStates readings') := h.filterMap _
  have hown : (ownStates readings).Perm (ownStates readings') := (h.filter _).filterMap _
  refine firstOf_congr (fun s => ?_) _
  rw [judgedStates, judgedStates]
  by_cases hnil : ownStates readings = []
  · rw [if_pos hnil, if_pos (List.nil_perm.mp (hnil ▸ hown))]
    exact hpresent.mem_iff
  · have hnil' : ownStates readings' ≠ [] := fun hnil' => hnil (List.perm_nil.mp (hnil' ▸ hown))
    rw [if_neg hnil, if_neg hnil']
    exact hown.mem_iff

/-- Permuting the readings changes neither the state nor whether it is complete nor the counts. -/
theorem derive_perm (h : readings.Perm readings') :
    (derive readings).state = (derive readings').state ∧ (derive readings).complete = (derive readings').complete ∧
      (derive readings).counts = (derive readings').counts := by
  have hpresent : (presentStates readings).Perm (presentStates readings') := h.filterMap _
  by_cases hne : readings = []
  · subst hne
    rw [List.nil_perm.mp h]
    exact ⟨rfl, rfl, rfl⟩
  · have hne' : readings' ≠ [] := fun hnil => hne (List.perm_nil.mp (hnil ▸ h))
    have hnil : (presentStates readings = []) = (presentStates readings' = []) :=
      propext ⟨fun hnil => List.nil_perm.mp (hnil ▸ hpresent), fun hnil => List.perm_nil.mp (hnil ▸ hpresent)⟩
    have hpending := hpresent.filter fun s => pendingStates.contains s
    have hpendingNil : ((presentStates readings).filter (fun s => pendingStates.contains s) = []) =
        ((presentStates readings').filter (fun s => pendingStates.contains s) = []) :=
      propext ⟨fun hnil => List.nil_perm.mp (hnil ▸ hpending), fun hnil => List.perm_nil.mp (hnil ▸ hpending)⟩
    unfold derive
    rw [if_neg hne, if_neg hne']
    simp only [ne_eq, stepIds_perm h, hpresent.any_eq, hpresent.all_eq, hnil, hpendingNil, tally_perm h,
      worstState_perm h, firstOf_congr (fun s => hpending.mem_iff (a := s)) .queued]
    split
    · exact ⟨rfl, rfl, rfl⟩
    · split
      · exact ⟨rfl, rfl, rfl⟩
      · split
        · exact ⟨rfl, rfl, rfl⟩
        · split
          · exact ⟨rfl, rfl, rfl⟩
          · exact ⟨rfl, rfl, rfl⟩

/-! ## Complete or unknown -/

theorem not_readable_iff : ¬Readable readings ↔
    readings = [] ∨ ∃ r ∈ readings, r.taskId.isSome ∧ r.state = none := by
  constructor
  · intro h
    by_contra hnone
    obtain ⟨hne, hstate⟩ := not_or.mp hnone
    refine h ⟨hne, fun r hr htask => ?_⟩
    rw [Option.isSome_iff_ne_none]
    exact fun hnil => hstate ⟨r, hr, htask, hnil⟩
  · rintro (rfl | ⟨r, hr, htask, hnil⟩) h
    · exact h.nonempty rfl
    · have hstate := h.state r hr htask
      rw [hnil] at hstate
      cases hstate

theorem derive_of_not_readable (h : ¬Readable readings) :
    (derive readings).complete = false ∧ (derive readings).state = .unknown := by
  rw [readable_iff] at h
  unfold derive
  split
  · exact ⟨rfl, rfl⟩
  · rename_i hne
    have hread := fun hnil => h ⟨hne, hnil⟩
    dsimp only
    rw [if_pos hread]
    exact ⟨rfl, rfl⟩

theorem complete_iff_readable : (derive readings).complete = true ↔ Readable readings := by
  constructor
  · intro hcomplete
    by_contra h
    rw [(derive_of_not_readable h).1] at hcomplete
    cases hcomplete
  · exact fun h => h.derive.2

/-! ## Running -/

theorem firstOf_mem_order {order : List TaskState} {floor : TaskState} (hfloor : floor ∈ order)
    (present : List TaskState) : firstOf order present floor ∈ order := by
  rw [firstOf]
  cases hfind : order.find? fun s => present.contains s with
  | none => exact hfloor
  | some s => exact List.mem_of_find?_eq_some hfind

theorem worstState_terminal (readings : List StepReading) : worstState readings ∈ terminalStates := by
  have hsame : ∀ s ∈ terminalSeverity, s ∈ terminalStates := by decide
  exact hsame _ (firstOf_mem_order (by decide) _)

/-- Past a capacity-holding step the state is terminal or pending. -/
theorem Readable.not_running (h : Readable readings)
    (hidle : ∀ r ∈ readings, ∀ s, r.state = some s → s ∉ concurrencyStates) :
    (Rollup.derive readings).state ≠ .known .running := by
  obtain ⟨hne, hread⟩ := readable_iff.mp h
  have hlive : ((presentStates readings).any fun s => concurrencyStates.contains s) = false := by
    rw [List.any_eq_false]
    intro s hs
    obtain ⟨r, hr, hstate⟩ := mem_presentStates.mp hs
    simpa using hidle r hr s hstate
  intro hrunning
  have hterminal : TaskState.running ∉ terminalStates := by decide
  have hpending : TaskState.running ∉ pendingStates := by decide
  unfold Rollup.derive at hrunning
  rw [if_neg hne] at hrunning
  simp only [hread, hlive, ne_eq, not_true_eq_false, if_false, Bool.false_eq_true] at hrunning
  split at hrunning
  · have hworst := RollupState.known.inj hrunning
    exact hterminal (hworst ▸ worstState_terminal readings)
  · split at hrunning
    · have hfirst := RollupState.known.inj hrunning
      have hsame : ∀ s ∈ pendingPrecedence, s ∈ pendingStates := by decide
      exact hpending (hfirst ▸ hsame _ (firstOf_mem_order (by decide) _))
    · cases hrunning

theorem running_iff : (derive readings).state = .known .running ↔
    Readable readings ∧ ∃ r ∈ readings, ∃ s ∈ concurrencyStates, r.state = some s := by
  constructor
  · intro hrunning
    have hread := readable_of_known hrunning
    refine ⟨hread, ?_⟩
    by_contra hnone
    exact hread.not_running (fun r hr s hstate hs => hnone ⟨r, hr, s, hs, hstate⟩) hrunning
  · rintro ⟨hread, r, hr, s, hs, hstate⟩
    exact hread.running hr hstate hs

/-! ## Terminal -/

theorem terminal_iff : (∃ s ∈ terminalStates, (derive readings).state = .known s) ↔ AllTerminal readings := by
  constructor
  · rintro ⟨s, hs, hstate⟩
    exact allTerminal_of_derive hstate hs
  · intro h
    exact ⟨_, worstState_terminal readings, derive_of_allTerminal h⟩

theorem AllTerminal.readable (h : AllTerminal readings) : Readable readings := by
  refine ⟨h.nonempty, fun r hr _ => ?_⟩
  obtain ⟨-, s, hs, -⟩ := h.terminal r hr
  rw [hs]
  rfl

/-- A step that has a task and is neither pending nor holds capacity has ended. -/
theorem Readable.allTerminal (h : Readable readings)
    (hover : ∀ r ∈ readings, r.taskId.isSome ∧ ∀ s, r.state = some s → s ∉ pendingStates ∧ s ∉ concurrencyStates) :
    AllTerminal readings := by
  refine ⟨h.nonempty, fun r hr => ?_⟩
  obtain ⟨htask, hstates⟩ := hover r hr
  obtain ⟨s, hs⟩ := Option.isSome_iff_exists.mp (h.state r hr htask)
  refine ⟨htask, s, hs, ?_⟩
  obtain ⟨hpending, hcapacity⟩ := hstates s hs
  rcases state_classes s with hc | hc | hc
  · exact absurd hc.1 hpending
  · exact absurd hc.2.1 hcapacity
  · exact hc.2.2

/-! ## Severity -/

/-- The steps that the terminal rule judges: the workflow's own, or all of them when every one is a fix round. -/
def Judged (readings : List StepReading) (r : StepReading) : Prop :=
  isFixRoundStep r.stepId = false ∨ ∀ r' ∈ readings, isFixRoundStep r'.stepId = true

theorem mem_ownStates {s : TaskState} :
    s ∈ ownStates readings ↔ ∃ r ∈ readings, isFixRoundStep r.stepId = false ∧ r.state = some s := by
  rw [ownStates, List.mem_filterMap]
  constructor
  · rintro ⟨r, hr, hstate⟩
    obtain ⟨hmem, hown⟩ := List.mem_filter.mp hr
    exact ⟨r, hmem, by simpa using hown, hstate⟩
  · rintro ⟨r, hmem, hown, hstate⟩
    exact ⟨r, List.mem_filter.mpr ⟨hmem, by simpa using hown⟩, hstate⟩

theorem AllTerminal.mem_judgedStates (h : AllTerminal readings) {s : TaskState} :
    s ∈ judgedStates readings ↔ ∃ r ∈ readings, Judged readings r ∧ r.state = some s := by
  have hrounds : ownStates readings = [] ↔ ∀ r ∈ readings, isFixRoundStep r.stepId = true := by
    rw [List.eq_nil_iff_forall_not_mem]
    constructor
    · intro hnone r hr
      obtain ⟨-, s, hs, -⟩ := h.terminal r hr
      by_contra hown
      exact hnone s (mem_ownStates.mpr ⟨r, hr, by simpa using hown, hs⟩)
    · intro hall s hs
      obtain ⟨r, hr, hown, -⟩ := mem_ownStates.mp hs
      rw [hall r hr] at hown
      cases hown
  rw [judgedStates]
  split
  · rename_i hnil
    rw [mem_presentStates]
    constructor
    · rintro ⟨r, hr, hstate⟩
      exact ⟨r, hr, .inr (hrounds.mp hnil), hstate⟩
    · rintro ⟨r, hr, -, hstate⟩
      exact ⟨r, hr, hstate⟩
  · rename_i hnil
    rw [mem_ownStates]
    constructor
    · rintro ⟨r, hr, hown, hstate⟩
      exact ⟨r, hr, .inl hown, hstate⟩
    · rintro ⟨r, hr, hown | hall, hstate⟩
      · exact ⟨r, hr, hown, hstate⟩
      · exact absurd (hrounds.mpr hall) hnil

theorem AllTerminal.exists_judged (h : AllTerminal readings) : ∃ s, s ∈ judgedStates readings := by
  by_cases hall : ∀ r ∈ readings, isFixRoundStep r.stepId = true
  · obtain ⟨r, hr⟩ := List.exists_mem_of_ne_nil readings h.nonempty
    obtain ⟨-, s, hs, -⟩ := h.terminal r hr
    exact ⟨s, h.mem_judgedStates.mpr ⟨r, hr, .inr hall, hs⟩⟩
  · obtain ⟨r, hround⟩ := not_forall.mp hall
    obtain ⟨hr, hown⟩ := Classical.not_imp.mp hround
    obtain ⟨-, s, hs, -⟩ := h.terminal r hr
    exact ⟨s, h.mem_judgedStates.mpr ⟨r, hr, .inl (by simpa using hown), hs⟩⟩

theorem AllTerminal.judged_terminal (h : AllTerminal readings) {s : TaskState} (hs : s ∈ judgedStates readings) :
    s ∈ terminalSeverity := by
  have hsame : ∀ s ∈ terminalStates, s ∈ terminalSeverity := by decide
  obtain ⟨r, hr, -, hstate⟩ := h.mem_judgedStates.mp hs
  obtain ⟨-, t, ht, hmem⟩ := h.terminal r hr
  obtain rfl : s = t := Option.some.inj (hstate.symm.trans ht)
  exact hsame s hmem

/-- The first state of the order that is present comes before every other that is. -/
theorem firstOf_le {order present : List TaskState} {s : TaskState} (hs : s ∈ order) (hpresent : s ∈ present)
    (floor : TaskState) : order.idxOf (firstOf order present floor) ≤ order.idxOf s := by
  induction order with
  | nil => cases hs
  | cons t rest ih =>
    rw [firstOf, List.find?_cons]
    by_cases ht : t ∈ present
    · rw [List.contains_iff_mem.mpr ht]
      simp only [Option.getD_some, List.idxOf_cons_self]
      omega
    · have hne : t ≠ s := fun heq => ht (heq ▸ hpresent)
      have hrest : s ∈ rest := (List.mem_cons.mp hs).resolve_left fun heq => hne heq.symm
      have hcontains : present.contains t = false := by simpa using ht
      simp only [hcontains]
      rw [List.idxOf_cons_ne _ hne]
      rw [← firstOf]
      calc (t :: rest).idxOf (firstOf rest present floor)
          ≤ (rest.idxOf (firstOf rest present floor)).succ := by
            rw [List.idxOf_cons, cond_eq_ite]
            split_ifs <;> omega
        _ ≤ (rest.idxOf s).succ := Nat.succ_le_succ (ih hrest)

theorem AllTerminal.worstState_le (h : AllTerminal readings) {r : StepReading} (hr : r ∈ readings)
    (hjudged : Judged readings r) {s : TaskState} (hs : r.state = some s) :
    terminalSeverity.idxOf (worstState readings) ≤ terminalSeverity.idxOf s := by
  have hmem := h.mem_judgedStates.mpr ⟨r, hr, hjudged, hs⟩
  exact firstOf_le (h.judged_terminal hmem) hmem _

theorem AllTerminal.worstState_mem (h : AllTerminal readings) :
    ∃ r ∈ readings, Judged readings r ∧ r.state = some (worstState readings) := by
  obtain ⟨s, hs⟩ := h.exists_judged
  exact h.mem_judgedStates.mp (firstOf_mem _ (h.judged_terminal hs) hs)

theorem AllTerminal.worstState_succeeded (h : AllTerminal readings) :
    worstState readings = .succeeded ↔ ∀ r ∈ readings, Judged readings r → r.state = some .succeeded := by
  have hlast : ∀ s ∈ terminalStates,
      terminalSeverity.idxOf .succeeded ≤ terminalSeverity.idxOf s → s = .succeeded := by decide
  constructor
  · intro hworst r hr hjudged
    obtain ⟨-, s, hs, hterminal⟩ := h.terminal r hr
    have hle := h.worstState_le hr hjudged hs
    rw [hworst] at hle
    rw [hs, hlast s hterminal hle]
  · intro hall
    obtain ⟨r, hr, hjudged, hstate⟩ := h.worstState_mem
    exact Option.some.inj (hstate.symm.trans (hall r hr hjudged))

theorem succeeded_iff : (derive readings).state = .known .succeeded ↔
    AllTerminal readings ∧ ∀ r ∈ readings, Judged readings r → r.state = some .succeeded := by
  constructor
  · intro hstate
    have h := allTerminal_of_derive hstate (by decide)
    rw [derive_of_allTerminal h] at hstate
    exact ⟨h, h.worstState_succeeded.mp (RollupState.known.inj hstate)⟩
  · rintro ⟨h, hall⟩
    rw [derive_of_allTerminal h, h.worstState_succeeded.mpr hall]

/-! ## A worse step -/

section Worse

variable {before after : List StepReading} {r : StepReading} {s s' : TaskState}

theorem forall_mem_replace {p : StepReading → Prop} (hsame : p { r with state := some s' } ↔ p r) :
    (∀ x ∈ before ++ { r with state := some s' } :: after, p x) ↔ ∀ x ∈ before ++ r :: after, p x := by
  simp only [List.forall_mem_append, List.forall_mem_cons, hsame]

theorem AllTerminal.replace (h : AllTerminal (before ++ r :: after)) (hs' : s' ∈ terminalStates) :
    AllTerminal (before ++ { r with state := some s' } :: after) := by
  have hr := h.terminal r (by simp)
  refine ⟨by simp, fun x hx => ?_⟩
  rcases List.mem_append.mp hx with hx | hx
  · exact h.terminal x (by simp [hx])
  · rcases List.mem_cons.mp hx with rfl | hx
    · exact ⟨hr.1, s', rfl, hs'⟩
    · exact h.terminal x (by simp [hx])

theorem Judged.replace {x x' : StepReading} (hid : x'.stepId = x.stepId) (h : Judged (before ++ r :: after) x) :
    Judged (before ++ { r with state := some s' } :: after) x' := by
  rw [Judged, hid, forall_mem_replace Iff.rfl]
  exact h

/-- The worst state of the judged steps falls with any one of them. -/
theorem AllTerminal.worstState_replace (h : AllTerminal (before ++ r :: after)) (hstate : r.state = some s)
    (hs' : s' ∈ terminalStates) (hworse : terminalSeverity.idxOf s' ≤ terminalSeverity.idxOf s) :
    terminalSeverity.idxOf (worstState (before ++ { r with state := some s' } :: after)) ≤
      terminalSeverity.idxOf (worstState (before ++ r :: after)) := by
  have h' := h.replace hs'
  obtain ⟨x, hx, hjudged, hworst⟩ := h.worstState_mem
  have hother : ∀ y ∈ before ++ { r with state := some s' } :: after, y = x →
      terminalSeverity.idxOf (worstState (before ++ { r with state := some s' } :: after)) ≤
        terminalSeverity.idxOf (worstState (before ++ r :: after)) :=
    fun y hy heq => h'.worstState_le hy (hjudged.replace (by rw [heq])) (heq ▸ hworst)
  rcases List.mem_append.mp hx with hx | hx
  · exact hother x (by simp [hx]) rfl
  · rcases List.mem_cons.mp hx with rfl | hx
    · -- The worst step is the one that got worse.
      have hsame : s = worstState (before ++ x :: after) := Option.some.inj (hstate.symm.trans hworst)
      rw [← hsame]
      exact (h'.worstState_le (r := { x with state := some s' }) (by simp) (hjudged.replace rfl) rfl).trans hworse
    · exact hother x (by simp [hx]) rfl

end Worse

/-- `derive` over every list of readings: what each of its answers means, and that no order and no worse step
makes it better. -/
theorem derive_verdict (readings : List StepReading) :
    (∀ readings', readings.Perm readings' →
      (derive readings).state = (derive readings').state ∧ (derive readings).complete = (derive readings').complete ∧
        (derive readings).counts = (derive readings').counts) ∧
    ((derive readings).complete = false ↔
      readings = [] ∨ ∃ r ∈ readings, r.taskId.isSome ∧ r.state = none) ∧
    ((derive readings).complete = false → (derive readings).state = .unknown) ∧
    ((derive readings).state = .known .running ↔
      (derive readings).complete = true ∧ ∃ r ∈ readings, ∃ s ∈ concurrencyStates, r.state = some s) ∧
    ((derive readings).state = .known .succeeded ↔
      (derive readings).complete = true ∧
        (∀ r ∈ readings, r.taskId.isSome ∧ ∃ s, r.state = some s ∧ s ∈ terminalStates) ∧
        ∀ r ∈ readings, Judged readings r → r.state = some .succeeded) ∧
    ((∃ s ∈ terminalStates, (derive readings).state = .known s) ↔
      (derive readings).complete = true ∧
        ∀ r ∈ readings, r.taskId.isSome ∧ ∀ s, r.state = some s → s ∉ pendingStates ∧ s ∉ concurrencyStates) ∧
    (∀ before r after s s' d, readings = before ++ r :: after → r.state = some s →
      s ∈ terminalStates → s' ∈ terminalStates → terminalSeverity.idxOf s' ≤ terminalSeverity.idxOf s →
      (derive readings).state = .known d → d ∈ terminalStates →
      ∃ d' ∈ terminalStates, (derive (before ++ { r with state := some s' } :: after)).state = .known d' ∧
        terminalSeverity.idxOf d' ≤ terminalSeverity.idxOf d) := by
  refine ⟨fun _ => derive_perm, ?_, ?_, ?_, ?_, ?_, ?_⟩
  · rw [← not_readable_iff, ← complete_iff_readable, Bool.not_eq_true]
  · intro hcomplete
    refine (derive_of_not_readable fun hread => ?_).2
    rw [complete_iff_readable.mpr hread] at hcomplete
    cases hcomplete
  · rw [complete_iff_readable, running_iff]
  · rw [complete_iff_readable, succeeded_iff]
    constructor
    · exact fun ⟨h, hall⟩ => ⟨h.readable, h.terminal, hall⟩
    · exact fun ⟨hread, hterminal, hall⟩ => ⟨⟨hread.nonempty, hterminal⟩, hall⟩
  · rw [complete_iff_readable, terminal_iff]
    constructor
    · intro h
      refine ⟨h.readable, fun r hr => ⟨(h.terminal r hr).1, fun s hs => ?_⟩⟩
      obtain ⟨-, t, ht, hmem⟩ := h.terminal r hr
      obtain rfl : s = t := Option.some.inj (hs.symm.trans ht)
      rcases state_classes s with hc | hc | hc
      · exact absurd hmem hc.2.2
      · exact absurd hmem hc.2.2
      · exact ⟨hc.1, hc.2.1⟩
    · exact fun ⟨hread, hover⟩ => hread.allTerminal hover
  · rintro before r after s s' d rfl hstate - hs' hworse hderived hd
    have h := allTerminal_of_derive hderived hd
    rw [derive_of_allTerminal h] at hderived
    obtain rfl := RollupState.known.inj hderived
    exact ⟨_, worstState_terminal _, derive_of_allTerminal (h.replace hs'), h.worstState_replace hstate hs' hworse⟩

/-- A failed fix round leaves a workflow `SUCCEEDED`, and the merge step that is cancelled after it does not. -/
theorem derive_verdict_merge :
    (derive [⟨"ci-fix:1", some "t1", some .failed, false, false⟩,
      ⟨"merge", some "t2", some .succeeded, false, false⟩]).state = .known .succeeded ∧
    ∃ d' ∈ terminalStates, (derive ([⟨"ci-fix:1", some "t1", some .failed, false, false⟩] ++
        { (⟨"merge", some "t2", some .succeeded, false, false⟩ : StepReading) with state := some .cancelled } ::
          [])).state = .known d' ∧
      terminalSeverity.idxOf d' ≤ terminalSeverity.idxOf .succeeded := by
  have hsucceeded : (derive [⟨"ci-fix:1", some "t1", some .failed, false, false⟩,
      ⟨"merge", some "t2", some .succeeded, false, false⟩]).state = .known .succeeded := by decide
  refine ⟨hsucceeded, ?_⟩
  exact (derive_verdict [⟨"ci-fix:1", some "t1", some .failed, false, false⟩,
      ⟨"merge", some "t2", some .succeeded, false, false⟩]).2.2.2.2.2.2
    [⟨"ci-fix:1", some "t1", some .failed, false, false⟩] ⟨"merge", some "t2", some .succeeded, false, false⟩ []
    .succeeded .cancelled .succeeded rfl rfl (by decide) (by decide) (by decide) hsucceeded (by decide)

end SwarmCloud.Rollup
