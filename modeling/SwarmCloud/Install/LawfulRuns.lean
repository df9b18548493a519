import SwarmCloud.Install.DryRuns
import SwarmCloud.Install.LawfulSteps

/-! # Runs by the rules

The loop over the stages with the lease around it, and what a run that exits 0 has
done.
-/

namespace SwarmCloud.Install

open Common Lib

section Steps

variable {σ : Type} {setup : Setup σ} {walked : List (Step σ)} {services : Services σ} {events : List Event}
  {e : Engine σ} {step : Step σ} {status : Status} {E : Exc → Engine σ → Prop}

/-! ### The run -/

theorem ending_spec {exc : Exc} {P : Engine σ → Prop} :
    Triple P (ending exc) (fun result e => result.outcome ≠ .ok ∧ P e) (fun _ => P) := by
  cases exc with
  | stop stopped step message =>
    refine Triple.pure fun _ h => ⟨?_, h⟩
    cases stopped <;> nofun
  | leaseHeld | leaseRefused | leaseLost | stateConflict | recordConflict =>
    exact Triple.pure fun _ h => ⟨nofun, h⟩
  | _ => exact Triple.throw fun _ h => h

/-- A step of the loop: in scope it is visited, and of the stages before the scope it is checked. -/
structure Seen (setup : Setup σ) (scope : Scope) (step : Step σ) (events : List Event) : Prop where
  visited : scope.has step.stage = true → Visited setup step events
  earlier : scope.has step.stage = false → step.stage < scope.first →
    ∃ status, Event.checked step.header status ∈ events

theorem Seen.mono {scope : Scope} {events' : List Event} (hsub : ∀ event ∈ events, event ∈ events')
    (h : Seen setup scope step events) : Seen setup scope step events' where
  visited hscope := (h.visited hscope).mono hsub
  earlier hscope hfirst := (h.earlier hscope hfirst).imp fun _ hchecked => hsub _ hchecked

theorem observeOnly_spec : Triple (After setup walked events) (observeOnly step)
    (fun _ e => After setup walked events e ∧ ∃ status, Event.checked step.header status ∈ e.events)
    (fun _ => After setup walked events) := by
  refine After.triple fun events' hbegins => Triple.bind check_spec fun seen => ?_
  have hmark : Allowed setup walked (events' ++ [Event.checked step.header seen.status])
      (.marked step.header (seen.status = .met)) := by
    by_cases hmet : seen.status = .met
    · simp only [hmet, decide_true]
      exact ⟨events', .inl rfl⟩
    · simp only [hmet, decide_false]
      exact ⟨events', seen.status, [], rfl, hmet, .inl rfl⟩
  refine (mark_spec (E := fun _ => After setup walked events) hmark).weaken (fun _ h => h) (fun _ e h => ?_) fun _ _ h => h
  exact ⟨h.after.of_append.of_append.mono hbegins, seen.status, h.after.mem (by simp)⟩

end Steps

section Runs

variable {σ : Type} (setup : Setup σ)

/-- The steps in scope, and those they trigger. -/
def inScope (scope : Scope) : List (Step σ) := Step.walk (setup.steps.filter fun step => scope.has step.stage)

/-- What a run that comes to the end of its loop has done. -/
structure Covered (scope : Scope) (events : List Event) : Prop where
  met : setup.dryRun = false → ∀ step ∈ setup.steps, scope.has step.stage = true → Event.marked step.header true ∈ events
  earlier : ∀ step ∈ setup.steps, scope.has step.stage = false → step.stage < scope.first →
    ∃ status, Event.checked step.header status ∈ events
  checked : setup.dryRun = true → ∀ step ∈ setup.steps, scope.has step.stage = true →
    ∃ status, Event.checked step.header status ∈ events ∧ (status = .unknown → step.header.kind = .wait)

/-- What a run that says it is complete has done: in a dry run every check of a step in scope could run too, but for
waits and for the check after a preflight step was applied. -/
structure Complete (scope : Scope) (events : List Event) : Prop extends Covered setup scope events where
  heeded : setup.dryRun = true → Heeded scope events

variable {setup} {services : Services σ} {polls : Nat} {scope : Scope} {events : List Event} {e : Engine σ}

theorem closed_walk (steps : List (Step σ)) :
    ∀ step ∈ Step.walk steps, ∀ triggered ∈ step.triggered, triggered ∈ Step.walk steps := by
  induction steps using Step.walk.induct with
  | case1 =>
    intro step hstep
    rw [Step.walk] at hstep
    exact absurd hstep List.not_mem_nil
  | case2 header calls triggered pending ih =>
    rw [Step.walk]
    intro step hstep next hnext
    obtain rfl | hstep := List.mem_cons.mp hstep
    · exact List.mem_cons_of_mem _ ((sublist_walk _).subset (List.mem_append_right pending hnext))
    · exact List.mem_cons_of_mem _ (ih step hstep next hnext)

theorem visit_spec {step : Step σ} (hstep : step ∈ setup.steps) :
    Triple (After setup (inScope setup scope) events) (visit services setup polls scope step)
      (fun _ e => After setup (inScope setup scope) events e ∧ Seen setup scope step e.events)
      (fun _ => After setup (inScope setup scope) events) := by
  refine Triple.ite (fun hscope => ?_) fun hscope => ?_
  · have hmem : step ∈ inScope setup scope := (sublist_walk _).subset (List.mem_filter.mpr ⟨hstep, hscope⟩)
    refine (runStep_spec polls (closed_walk _) step hmem events).weaken (fun _ h => h) (fun _ _ h => ⟨h.1, ?_⟩) fun _ _ h => h
    refine ⟨fun _ => h.2, fun hout => ?_⟩
    rw [hscope] at hout
    cases hout
  · refine Triple.ite (fun _ => ?_) fun hlate => Triple.pure fun _ h => ⟨h, ?_⟩
    · refine observeOnly_spec.weaken (fun _ h => h) (fun _ _ h => ⟨h.1, fun hin => ?_, fun _ _ => h.2⟩) fun _ _ h => h
      exact absurd hin hscope
    · exact ⟨fun hin => absurd hin hscope, fun _ hearly => absurd hearly hlate⟩

theorem covered_of_seen (hseen : ∀ step ∈ setup.steps, Seen setup scope step events)
    (hunknown : setup.dryRun = true → ∀ step, Event.unrunnable step ∉ events) : Covered setup scope events where
  met hdry step hstep hscope := ((hseen step hstep).visited hscope).found hdry
  earlier step hstep hscope hfirst := (hseen step hstep).earlier hscope hfirst
  checked hdry step hstep hscope := by
    obtain ⟨status, hchecked, hnot⟩ := ((hseen step hstep).visited hscope).checked hdry
    refine ⟨status, hchecked, fun hstatus => ?_⟩
    by_contra hkind
    exact hunknown hdry _ (hnot hstatus hkind)

theorem loop_spec : Triple (After setup (inScope setup scope) events) (loop services setup polls scope)
    (fun result e => After setup (inScope setup scope) events e ∧
      (result.outcome = .ok → Covered setup scope e.events))
    (fun _ => After setup (inScope setup scope) events) := by
  refine Triple.bind (Q := fun _ e => After setup (inScope setup scope) events e ∧
    ∀ step ∈ setup.ordered, Seen setup scope step e.events) ?_ fun _ => Triple.get_bind fun e h => ?_
  · refine (Triple.forM (I := fun done e => After setup (inScope setup scope) events e ∧
      ∀ step ∈ done, Seen setup scope step e.events) ?_).weaken (fun _ h => ⟨h, nofun⟩) (fun _ _ h => h) fun _ _ h => h
    rintro done step rest hordered e ⟨hafter, hdone⟩
    have hstep : step ∈ setup.steps := by
      refine Setup.ordered_perm.mem_iff.mp ?_
      rw [hordered]
      simp
    have hvisit : Triple (After setup (inScope setup scope) e.events) (visit services setup polls scope step) _ _ :=
      visit_spec hstep
    refine hvisit.weaken (fun _ h => h) (fun _ e' h => ?_) (fun _ _ h => h.mono hafter.1) e hafter.at.after
    refine ⟨h.1.mono hafter.1, fun other hother => ?_⟩
    obtain hother | hother := List.mem_append.mp hother
    · exact (hdone other hother).mono fun event hevent => h.1.mem hevent
    · exact List.mem_singleton.mp hother ▸ h.2
  · refine Triple.ite (fun _ => Triple.pure ?_) fun hok => Triple.pure ?_
    · rintro _ rfl
      exact ⟨h.1, nofun⟩
    · rintro _ rfl
      refine ⟨h.1, fun _ => covered_of_seen (fun step hstep => h.2 step (Setup.ordered_perm.mem_iff.mpr hstep)) ?_⟩
      exact fun hdry step hmem => hok ⟨hdry, h.1.2.unknown step hmem⟩

theorem guarded_spec : Triple (After setup (inScope setup scope) events) (tryCatch (loop services setup polls scope) ending)
    (fun result e => After setup (inScope setup scope) events e ∧
      (result.outcome = .ok → Covered setup scope e.events))
    (fun _ => After setup (inScope setup scope) events) := by
  refine Triple.tryCatch loop_spec fun exc => ending_spec.weaken (fun _ h => h) (fun _ _ h => ⟨h.2, ?_⟩) fun _ _ h => h
  exact fun hok => absurd hok h.1

theorem guarded_dry (hdry : setup.dryRun = true) :
    Triple (Dry scope) (tryCatch (loop services setup polls scope) ending)
      (fun result e => result.outcome = .ok → Heeded scope e.events) (fun _ => Dry scope) := by
  refine Triple.tryCatch (loop_dry hdry) fun exc => ending_spec.weaken (fun _ h => h) (fun _ _ h => ?_) fun _ _ h => h
  exact fun hok => absurd hok h.1

/-- How a run leaves things that comes to a result. -/
structure Final (setup : Setup σ) (scope : Scope) (e : Engine σ) : Prop where
  lawful : Lawful setup (inScope setup scope) e.events
  freed : Event.acquired ∈ e.events → Event.freed ∈ e.events

/-- How an exception leaves things: where the lease was not freed, releasing it is what raised. -/
structure Raised (setup : Setup σ) (scope : Scope) (e : Engine σ) : Prop where
  lawful : Lawful setup (inScope setup scope) e.events
  released : Event.acquired ∈ e.events → Event.freed ∈ e.events ∨ e.events.getLast? = some .released

theorem Final.raised (h : Final setup scope e) : Raised setup scope e := ⟨h.lawful, fun hmem => .inl (h.freed hmem)⟩

/-- The lease is given back, and `events` are those before that. -/
structure Given (setup : Setup σ) (walked : List (Step σ)) (events : List Event) (e : Engine σ) : Prop where
  events_eq : e.events = events ++ [Event.released] ++ [Event.freed]
  lawful : Lawful setup walked e.events

theorem Given.final (h : Given setup (inScope setup scope) events e) : Final setup scope e := by
  refine ⟨h.lawful, fun _ => ?_⟩
  rw [h.events_eq]
  simp

theorem give_spec (hdry : setup.dryRun = false) :
    Triple (At setup (inScope setup scope) events) (give services)
      (fun _ => Given setup (inScope setup scope) events) (fun _ => Raised setup scope) := by
  refine Triple.bind (Q := fun _ e => e.events = events ++ [Event.released] ∧ Lawful setup (inScope setup scope) e.events)
    (Triple.modify fun e h => ?_) fun _ => ?_
  · obtain ⟨rfl, hinside⟩ := h
    exact ⟨rfl, hinside.lawful.snoc (hinside.leased hdry)⟩
  refine Triple.bind (Q := fun _ e => e.events = events ++ [Event.released] ∧ Lawful setup (inScope setup scope) e.events)
    (fun e h => ?_) fun _ => Triple.modify fun e h => ?_
  · rw [Install.call]
    cases services.release e.world with
    | mk result world =>
      cases result with
      | ok => exact h
      | error =>
        refine ⟨h.2, fun _ => .inr ?_⟩
        simp [h.1]
  · obtain ⟨hevents, hlawful⟩ := h
    refine ⟨congrArg (· ++ [Event.freed]) hevents, hlawful.snoc ?_⟩
    exact ⟨events, hevents⟩

/-- A run that is none of the dry ones and has given its lease back. -/
theorem Given.complete {walked : List (Step σ)} (h : Given setup walked events e) (hdry : setup.dryRun = false)
    (hcovered : Covered setup scope events) : Complete setup scope e.events := by
  have hsub : ∀ event ∈ events, event ∈ e.events := by
    intro event hevent
    rw [h.events_eq, List.append_assoc]
    exact List.mem_append_left _ hevent
  have hwet : setup.dryRun ≠ true := by simp [hdry]
  exact {
    met := fun hdry step hstep hscope => hsub _ (hcovered.met hdry step hstep hscope)
    earlier := fun step hstep hscope hfirst => (hcovered.earlier step hstep hscope hfirst).imp fun _ h => hsub _ h
    checked := fun hdry => absurd hdry hwet
    heeded := fun hdry => absurd hdry hwet }

theorem leased_spec (hdry : setup.dryRun = false) :
    Triple (After setup (inScope setup scope) events) (leased services setup polls scope)
      (fun result e => Final setup scope e ∧ (result.outcome = .ok → Complete setup scope e.events))
      (fun _ => Raised setup scope) := by
  refine Triple.bind (Q := fun result e => After setup (inScope setup scope) events e ∧
    (result.outcome = .ok → Covered setup scope e.events)) ?_ fun result => ?_
  · refine Triple.tryCatch guarded_spec fun exc => After.triple fun events' _ => ?_
    exact Triple.bind (give_spec hdry) fun _ => Triple.throw fun _ h => h.final.raised
  · rintro e ⟨hafter, hcovered⟩
    refine Triple.bind (give_spec hdry) (fun _ => Triple.pure fun e' h => ⟨h.final, fun hok => ?_⟩) e hafter.at
    exact h.complete hdry (hcovered hok)

/-- An engine that has not begun. -/
structure Fresh (e : Engine σ) : Prop where
  events : e.events = []
  met : e.met = []
  stepMet : e.stepMet = []

theorem Fresh.inside {walked : List (Step σ)} (h : Fresh e) (hdry : setup.dryRun = true) : At setup walked [] e := by
  refine ⟨h.events, ?_, ?_, fun id => ?_, fun step hmem => ?_, fun hwet => ?_⟩
  · intro before event after heq
    rw [h.events] at heq
    exact absurd heq.symm (List.append_ne_nil_of_right_ne_nil _ (List.cons_ne_nil _ _))
  · rw [h.met, h.events]
    rfl
  · rw [h.stepMet, h.events]
    rfl
  · rw [h.events] at hmem
    exact absurd hmem List.not_mem_nil
  · rw [hdry] at hwet
    cases hwet

theorem Fresh.acquired {walked : List (Step σ)} (h : Fresh e) (hdry : setup.dryRun = false) :
    At setup walked [.acquired] { e with events := e.events ++ [Event.acquired] } := by
  have hevents : e.events ++ [Event.acquired] = [Event.acquired] := by rw [h.events, List.nil_append]
  rw [hevents]
  refine ⟨rfl, ?_, ?_, fun id => ?_, fun step hmem => ?_, fun _ => ⟨List.mem_singleton.mpr rfl, ?_⟩⟩
  · have hnil : Lawful setup walked [] := fun before event after heq =>
      absurd heq.symm (List.append_ne_nil_of_right_ne_nil _ (List.cons_ne_nil _ _))
    have hacquired : Allowed setup walked [] .acquired := ⟨hdry, List.not_mem_nil⟩
    exact hnil.snoc hacquired
  · exact h.met
  · change e.stepMet.lookup id = none
    rw [h.stepMet]
    rfl
  · exact absurd (List.mem_singleton.mp hmem) nofun
  · exact fun hmem => absurd (List.mem_singleton.mp hmem) nofun

theorem Fresh.final (h : Fresh e) : Final setup scope e := by
  refine ⟨fun before event after heq => ?_, fun hmem => ?_⟩
  · rw [h.events] at heq
    exact absurd heq.symm (List.append_ne_nil_of_right_ne_nil _ (List.cons_ne_nil _ _))
  · rw [h.events] at hmem
    exact absurd hmem List.not_mem_nil

theorem fresh_call {α : Type} {f : Call σ α} : Triple Fresh (call f) (fun _ => Fresh) (fun _ => Fresh) := by
  intro e h
  rw [Install.call]
  cases hf : f e.world with
  | mk result world => cases result <;> exact ⟨h.events, h.met, h.stepMet⟩

theorem Fresh.dry (h : Fresh e) : Dry scope e := by
  refine .inr fun before step after heq => ?_
  rw [h.events] at heq
  exact absurd heq.symm (List.append_ne_nil_of_right_ne_nil _ (List.cons_ne_nil _ _))

theorem dry_spec (hdry : setup.dryRun = true) :
    Triple Fresh (tryCatch (loop services setup polls scope) ending)
      (fun result e => Final setup scope e ∧ (result.outcome = .ok → Complete setup scope e.events))
      (fun _ => Raised setup scope) := by
  have hfinal : ∀ {e}, After setup (inScope setup scope) [] e → Final setup scope e := by
    refine fun {e} h => ⟨h.2.lawful, fun hmem => ?_⟩
    obtain ⟨before, after, heq⟩ := List.append_of_mem hmem
    have hacquired := (h.2.lawful before .acquired after heq).1
    rw [hdry] at hacquired
    cases hacquired
  refine (guarded_spec.and (guarded_dry hdry)).weaken (fun _ h => ⟨(h.inside hdry).after, h.dry⟩) (fun result e h => ?_)
    fun _ _ h => (hfinal h.1).raised
  obtain ⟨⟨hafter, hcovered⟩, hheeded⟩ := h
  exact ⟨hfinal hafter, fun hok => ⟨hcovered hok, fun _ => hheeded hok⟩⟩

theorem run_spec : Triple Fresh (run services setup polls scope)
    (fun result e => Final setup scope e ∧ (result.outcome = .ok → Complete setup scope e.events))
    (fun _ => Raised setup scope) := by
  refine Triple.bind (fresh_call.weaken (fun _ h => h) (fun _ _ h => h) fun _ _ h => h.final.raised) fun _ => ?_
  refine Triple.ite dry_spec fun hwet => ?_
  have hwet : setup.dryRun = false := by simpa using hwet
  refine Triple.bind (Q := fun refused e => refused.elim (After setup (inScope setup scope) [.acquired] e)
    fun result => Final setup scope e ∧ result.outcome ≠ .ok) ?_ fun refused => ?_
  · refine Triple.tryCatch (F := fun _ => Fresh) ?_ fun exc => ?_
    · refine Triple.bind fresh_call fun _ => ?_
      refine Triple.bind (Q := fun _ => At setup (inScope setup scope) [.acquired]) ?_ fun _ => ?_
      · exact Triple.modify fun _ h => h.acquired hwet
      · exact Triple.pure fun _ h => h.after
    · refine Triple.bind (ending_spec.weaken (fun _ h => h) (fun _ _ h => h) fun _ _ h => h.final.raised) fun result => ?_
      exact Triple.pure fun _ h => ⟨h.2.final, h.1⟩
  · cases refused with
    | none => exact leased_spec hwet
    | some result => exact Triple.pure fun _ h => ⟨h.1, fun hok => absurd hok h.2⟩

section Results

variable (services : Services σ) (setup : Setup σ) (polls : Nat) (scope : Scope) (world : σ)

/-- A run that comes to a result has given its lease back, and one that an exception ends too, unless releasing the lease
is what raised. It exits 0 only with every step in scope met or, in a dry run, checked. -/
theorem run_ends :
    match run services setup polls scope { world } with
    | .ok result e => (Event.acquired ∈ e.events → Event.freed ∈ e.events) ∧
        (exitCode result.outcome = 0 → Complete setup scope e.events)
    | .error _ e => Event.acquired ∈ e.events → Event.freed ∈ e.events ∨ e.events.getLast? = some .released := by
  have hstart : Fresh { world } := ⟨rfl, rfl, rfl⟩
  split <;> rename_i result e heq
  · obtain ⟨hfinal, hcomplete⟩ := run_spec.of_ok hstart heq
    refine ⟨hfinal.freed, fun hexit => hcomplete ?_⟩
    cases houtcome : result.outcome <;> rw [houtcome] at hexit <;> first | rfl | cases hexit
  · exact (run_spec.of_error hstart heq).released

end Results

end Runs

end SwarmCloud.Install
