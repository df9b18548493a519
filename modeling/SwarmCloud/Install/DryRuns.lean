import SwarmCloud.Install.Engine

/-! # The checks of a dry run

A dry run that exits 0 could run the check of every step in scope. What it does not
look at twice are the checks of waits, and the one that follows a preflight step that
it has applied.
-/

namespace SwarmCloud.Install

open Common Lib

/-- A check that nobody is told of where it cannot run. -/
def Excused (scope : Scope) (before : List Event) (step : StepHeader) : Prop :=
  step.kind = .wait ∨ scope.has step.stage = false ∨
    step.stage = 0 ∧ step.readOnly = true ∧ ∃ earlier, before = earlier ++ [Event.applied step]

def Heeded (scope : Scope) (events : List Event) : Prop :=
  ∀ before step after, events = before ++ .checked step .unknown :: after → Excused scope before step

section Dry

variable {σ α : Type} {scope : Scope} {events : List Event} {event : Event} {e : Engine σ} {setup : Setup σ}
  {services : Services σ} {step : Step σ} {polls : Nat} {E : Exc → Engine σ → Prop}

def Dry (scope : Scope) (e : Engine σ) : Prop := e.unknownInDryRun = true ∨ Heeded scope e.events

theorem Heeded.snoc (h : Heeded scope events) (hevent : ∀ step, event = .checked step .unknown → Excused scope events step) :
    Heeded scope (events ++ [event]) := by
  intro before step after heq
  rcases List.eq_nil_or_concat after with rfl | ⟨after, last, rfl⟩
  · obtain ⟨rfl, hlast⟩ := List.append_inj' heq rfl
    exact hevent step (List.singleton_inj.mp hlast)
  · rw [List.concat_eq_append, ← List.cons_append, ← List.append_assoc] at heq
    obtain ⟨rfl, -⟩ := List.append_inj' heq rfl
    exact h before step after rfl

theorem Dry.snoc (h : Dry scope e) (hevent : ∀ step, event = .checked step .unknown → Excused scope e.events step) :
    Dry scope { e with events := e.events ++ [event] } :=
  h.imp_right fun hheeded => hheeded.snoc hevent

theorem call_keeps {P : Engine σ → Prop} (hworld : ∀ e world, P e → P { e with world }) {f : Call σ α} :
    Triple P (call f) (fun _ => P) (fun _ => P) := by
  intro e h
  rw [Install.call]
  cases hf : f e.world with
  | mk result world => cases result <;> exact hworld e world h

theorem observe_keeps {P : Engine σ → Prop} (hworld : ∀ e world, P e → P { e with world }) {what : Call σ Observation} :
    Triple P (observe what) (fun _ => P) E := by
  refine Triple.tryCatch (F := fun exc e => (∃ detail, exc = .checkFailed detail) ∧ P e) (fun e h => ?_) fun exc => ?_
  · rw [poll]
    split <;> rename_i hwhat
    · split at hwhat
      all_goals cases hwhat
      all_goals exact hworld e _ h
    · split at hwhat
      all_goals cases hwhat
      exact ⟨⟨_, rfl⟩, hworld e _ h⟩
  · rintro e ⟨⟨detail, rfl⟩, h⟩
    exact h

theorem note_dry (hevent : ∀ step, event ≠ .checked step .unknown) :
    Triple (Dry scope) (note event : Engining σ PUnit) (fun _ => Dry scope) E :=
  Triple.modify fun _ h => h.snoc fun step heq => absurd heq (hevent step)

theorem call_dry {f : Call σ α} : Triple (Dry scope) (call f) (fun _ => Dry scope) (fun _ => Dry scope) :=
  call_keeps fun _ _ h => h

theorem mark_dry {met : Bool} : Triple (Dry scope) (mark step met) (fun _ => Dry scope) E :=
  Triple.modify fun _ h => h.imp_right fun hheeded => hheeded.snoc nofun

/-- A check leaves nothing unheeded but itself. -/
theorem check_dry : Triple (Dry scope) (check step)
    (fun seen e => (seen.status = .unknown → step.header.kind = .wait ∨ scope.has step.stage = false) → Dry scope e) E := by
  refine Triple.bind (observe_keeps fun _ _ h => h) fun seen => ?_
  refine Triple.bind (Q := fun _ e => (seen.status = .unknown →
    step.header.kind = .wait ∨ scope.has step.stage = false) → Dry scope e) ?_ fun _ => Triple.pure fun _ h => h
  refine Triple.modify fun e h hexcused => h.snoc fun header hheader => ?_
  obtain ⟨rfl, hunknown⟩ := Event.checked.inj hheader
  exact (hexcused hunknown).imp_right .inl

theorem recheck_dry (hstage : step.stage = 0) (hreadOnly : step.header.readOnly = true) :
    Triple (fun e => Dry scope e ∧ ∃ earlier, e.events = earlier ++ [Event.applied step.header]) (check step)
      (fun _ => Dry scope) E := by
  refine Triple.bind (observe_keeps fun _ _ h => h) fun seen => ?_
  refine Triple.bind (Q := fun _ => Dry scope) ?_ fun _ => Triple.pure fun _ h => h
  refine Triple.modify fun e h => h.1.snoc fun header hheader => ?_
  obtain ⟨rfl, -⟩ := Event.checked.inj hheader
  exact .inr (.inr ⟨hstage, hreadOnly, h.2⟩)

theorem applyDry_dry {unmet : List String} {plan : Option Plan} :
    Triple (Dry scope) (applyDry step unmet plan) (fun _ => Dry scope) (fun _ => Dry scope) := by
  cases plan with
  | none => exact Triple.pure fun _ h => h
  | some plan =>
    refine Triple.ite (fun hpreflight => ?_) fun _ => Triple.pure fun _ h => h
    refine Triple.bind (Q := fun _ e => Dry scope e ∧ ∃ earlier, e.events = earlier ++ [Event.applied step.header])
      (Triple.modify fun e h => ⟨h.snoc nofun, e.events, rfl⟩) fun _ => ?_
    refine Triple.bind (Q := fun _ e => Dry scope e ∧ ∃ earlier, e.events = earlier ++ [Event.applied step.header])
      (Triple.tryCatch (call_keeps fun _ _ h => h) fun _ => Triple.throw fun _ h => h.1) fun _ => ?_
    refine Triple.bind (recheck_dry hpreflight.1 hpreflight.2.1) fun seen => ?_
    exact Triple.ite (fun _ => mark_dry) fun _ => Triple.pure fun _ h => h

theorem makePlan_dry : Triple (Dry scope) (makePlan setup step) (fun _ => Dry scope) (fun _ => Dry scope) := by
  refine Triple.bind (note_dry nofun) fun _ => Triple.tryCatch call_dry fun exc => ?_
  exact Triple.ite (fun _ => Triple.pure fun _ h => h) fun _ => Triple.throw fun _ h => h

theorem weigh_dry : Triple (Dry scope) (weigh services setup step) (fun _ => Dry scope) E := by
  refine Triple.get_bind fun e h => Triple.bind (Q := fun _ => Dry scope) ?_ fun _ => Triple.pure fun _ h => h
  rintro _ rfl
  exact h.snoc nofun

theorem engage_dry (hdry : setup.dryRun = true) (trigger : List String → Engining σ (List String)) :
    Triple (Dry scope) (engage services setup step polls trigger) (fun _ => Dry scope) (fun _ => Dry scope) := by
  refine Triple.bind mark_dry fun _ => Triple.bind weigh_dry fun unmet => Triple.bind makePlan_dry fun plan => ?_
  exact Triple.ite (fun _ => applyDry_dry) fun hwet => absurd hdry hwet

/-- What a dry run records is nothing. -/
theorem drifted_dry (hdry : setup.dryRun = true) {P : Engine σ → Prop} {wasDone : Bool} {detail : String} :
    Triple P (drifted services setup step wasDone detail) (fun _ => P) E := by
  unfold drifted record
  rw [if_pos hdry]
  exact Triple.ite (fun _ => Triple.pure fun _ h => h) fun _ => Triple.pure fun _ h => h

theorem runStepWith_dry (hdry : setup.dryRun = true) (trigger : List String → Engining σ (List String)) :
    Triple (Dry scope) (runStepWith services setup step polls trigger) (fun _ => Dry scope) (fun _ => Dry scope) := by
  refine Triple.bind check_dry fun seen => Triple.get_bind fun e h => ?_
  dsimp only
  refine Triple.ite (fun hmet => ?_) fun _ => Triple.bind (drifted_dry hdry) fun _ => ?_
  · have hmarked : Triple (· = e) (mark step true) (fun _ => Dry scope) (fun _ => Dry scope) := by
      refine mark_dry.weaken ?_ (fun _ _ h => h) fun _ _ h => h
      rintro _ rfl
      exact h fun hunknown => absurd (hmet.symm.trans hunknown) nofun
    exact Triple.ite (fun _ => hmarked) fun hwet => absurd (.inr hdry) hwet
  · refine Triple.ite (fun _ => Triple.ite (fun _ => ?_) fun hwet => absurd hdry hwet) fun hknown => ?_
    · refine Triple.bind (Q := fun _ => Dry scope) (Triple.modify fun _ _ => .inl rfl) fun _ => ?_
      exact engage_dry hdry trigger
    · refine (engage_dry hdry trigger).weaken ?_ (fun _ _ h => h) fun _ _ h => h
      rintro _ rfl
      refine h fun hunknown => .inl ?_
      by_contra hkind
      exact hknown ⟨hunknown, hkind⟩

theorem visit_dry (hdry : setup.dryRun = true) :
    Triple (Dry scope) (visit services setup polls scope step) (fun _ => Dry scope) (fun _ => Dry scope) := by
  refine Triple.ite (fun _ => ?_) fun hout => Triple.ite (fun _ => ?_) fun _ => Triple.pure fun _ h => h
  · obtain ⟨header, calls, triggered⟩ := step
    rw [runStep]
    exact runStepWith_dry hdry _
  · refine Triple.bind check_dry fun seen => mark_dry.weaken (fun _ h => h fun _ => .inr ?_) (fun _ _ h => h) fun _ _ h => h
    simpa using hout

theorem loop_dry (hdry : setup.dryRun = true) :
    Triple (Dry scope) (loop services setup polls scope) (fun result e => result.outcome = .ok → Heeded scope e.events)
      (fun _ => Dry scope) := by
  refine Triple.bind (Q := fun _ => Dry scope) ?_ fun _ => Triple.get_bind fun e h => ?_
  · exact Triple.forM (I := fun _ => Dry scope) fun _ _ _ _ => visit_dry hdry
  · refine Triple.ite (fun _ => Triple.pure ?_) fun hok => Triple.pure ?_
    · rintro _ rfl
      exact nofun
    · rintro _ rfl
      exact fun _ => h.resolve_left fun hunknown => hok ⟨hdry, hunknown⟩

end Dry

end SwarmCloud.Install
