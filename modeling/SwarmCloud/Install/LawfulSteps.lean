import SwarmCloud.Install.Lawful

/-! # Steps by the rules

What running one step does is allowed after what was done before, and a step whose run
comes to its end was found met; by the tree of the steps and those they trigger.
-/

namespace SwarmCloud.Install

open Common Lib

variable {σ : Type} {setup : Setup σ} {walked : List (Step σ)} {services : Services σ} {events : List Event}
  {e : Engine σ} {step : Step σ} {status : Status} {plan : Plan} {E : Exc → Engine σ → Prop}

theorem verify_spec {plan : Option Plan} {outputs : Dict String Value} (hdry : setup.dryRun = false)
    (hchecked : ∃ earlier, events = earlier ++ [Event.checked step.header .met] ∨
      ∃ status, events = earlier ++ [Event.checked step.header .met, Event.checked step.header status]) :
    Triple (At setup walked events) (verify services setup step plan outputs)
      (fun _ e => After setup walked events e ∧ Found step e) (fun _ => After setup walked events) := by
  refine Triple.bind observe_spec fun seen => ?_
  refine Triple.bind (note_spec ⟨hdry, hchecked⟩ rfl) fun _ => ?_
  refine Triple.ite (fun hmet => ?_) fun hmet => ?_
  · rw [hmet]
    have hdone : Leased (events ++ [Event.verified step.header .met]) →
        Allowed setup walked (events ++ [Event.verified step.header .met]) (.recorded step.header .done) :=
      fun hleased => ⟨⟨hdry, hleased⟩, events, rfl⟩
    refine Triple.bind ((record_spec hdry hdone).weaken (fun _ h => h) (fun _ _ h => h) fun _ _ h => h.of_append)
      fun _ => ?_
    have hmark : Allowed setup walked (events ++ [Event.verified step.header .met] ++ [Event.recorded step.header .done])
        (.marked step.header true) := ⟨events, .inr (List.append_assoc ..)⟩
    refine (mark_spec (E := fun _ => After setup walked events) hmark).weaken (fun _ h => h) (fun _ _ h => ?_)
      fun _ _ h => h
    exact ⟨h.found.1.of_append.of_append, h.found.2⟩
  · have hfailed : Leased (events ++ [Event.verified step.header seen.status]) →
        Allowed setup walked (events ++ [Event.verified step.header seen.status]) (.recorded step.header .failed) :=
      fun hleased => ⟨⟨hdry, hleased⟩, .inr ⟨events, seen.status, rfl, hmet⟩⟩
    refine Triple.bind ((record_spec hdry hfailed).weaken (fun _ h => h) (fun _ _ h => h) fun _ _ h => h.of_append)
      fun _ => ?_
    exact Triple.throw fun _ h => h.after.of_append.of_append

theorem passStarts_spec (hdry : setup.dryRun = false) (hrenewed : ∃ earlier, events = earlier ++ [Event.renewed]) :
    Triple (At setup walked events) (passStarts services setup step)
      (fun _ e => ∃ timed, (timed = [] ∨ timed = [Event.timed step.header]) ∧ At setup walked (events ++ timed) e)
      (fun _ => After setup walked events) := by
  refine Triple.get_bind fun e h => Triple.ite (fun _ => Triple.pure ?_) fun _ => ?_
  · rintro _ rfl
    exact ⟨[], .inl rfl, by rwa [List.append_nil]⟩
  · have hleased : Leased events := h.1 ▸ h.2.leased hdry
    refine Triple.bind (Q := fun _ => At setup walked (events ++ [Event.timed step.header])) ?_ fun _ => ?_
    · rintro _ rfl
      exact h.note ⟨⟨hdry, hleased⟩, hrenewed⟩ rfl
    · refine call_spec.weaken (fun _ h => h) (fun _ _ h => ⟨[.timed step.header], .inr rfl, h⟩) fun _ _ h => ?_
      exact h.after.of_append

/-! ### Dependencies -/

theorem foldl_unmet {l acc : List String} {met : List String} {own : String → Bool}
    (h : l.foldl (fun needed dep => if dep ∈ met ∨ dep ∈ needed ∨ own dep = true then needed else needed ++ [dep]) acc = []) :
    acc = [] ∧ ∀ dep ∈ l, dep ∈ met ∨ own dep = true := by
  induction l generalizing acc with
  | nil => exact ⟨h, fun _ hdep => absurd hdep List.not_mem_nil⟩
  | cons dep l ih =>
    rw [List.foldl_cons] at h
    obtain ⟨hacc, hrest⟩ := ih h
    split at hacc
    · rename_i hmet
      subst hacc
      simp only [List.not_mem_nil, false_or] at hmet
      refine ⟨rfl, fun other hother => ?_⟩
      obtain rfl | hother := List.mem_cons.mp hother
      · exact hmet
      · exact hrest other hother
    · exact absurd hacc (List.append_ne_nil_of_right_ne_nil _ (List.cons_ne_nil _ _))

theorem mem_doneSteps {state : InstallState} {id : String} (h : state.done id = true) : id ∈ doneSteps state := by
  rw [InstallState.done] at h
  cases hlookup : state.steps.lookup id with
  | none =>
    rw [hlookup] at h
    cases h
  | some record =>
    rw [hlookup] at h
    exact List.mem_map.mpr ⟨(id, record), List.mem_filter.mpr ⟨Dict.mem_of_lookup hlookup, h⟩, rfl⟩

theorem dependenciesMet_of_nil (h : At setup walked events e)
    (hnil : unmetDependencies services setup step.header e = []) :
    DependenciesMet setup events (doneSteps (services.state e.world)) step.header := by
  obtain ⟨rfl, hinside⟩ := h
  intro dep hdep
  obtain hmet | hown := (foldl_unmet hnil).2 dep hdep
  · exact .inl (hinside.met ▸ hmet)
  · rw [owningStepDone] at hown
    cases hlookup : setup.manifest.lookup dep with
    | none =>
      rw [hlookup] at hown
      cases hown
    | some entry =>
      simp only [hlookup, Bool.if_false_left, Bool.and_eq_true, Bool.not_eq_true', decide_eq_false_iff_not] at hown
      refine .inr ⟨entry, rfl, hown.1, ?_⟩
      rw [← hinside.stepMet]
      cases hmark : e.stepMet.lookup entry.step with
      | some met =>
        rw [hmark] at hown
        exact hown.2
      | none =>
        rw [hmark] at hown
        exact decide_eq_true (mem_doneSteps hown.2)

theorem weigh_spec (hmarked : ∃ earlier, events = earlier ++ [Event.marked step.header false]) :
    Triple (At setup walked events) (weigh services setup step)
      (fun unmet e => ∃ done, At setup walked (events ++ [Event.weighed step.header done]) e ∧
        (unmet = [] → DependenciesMet setup events done step.header)) E := by
  refine Triple.get_bind fun e h => ?_
  refine Triple.bind (Q := fun _ => At setup walked
    (events ++ [Event.weighed step.header (doneSteps (services.state e.world))])) ?_ fun _ => Triple.pure fun _ h' => ?_
  · rintro _ rfl
    exact h.note hmarked rfl
  · exact ⟨_, h', dependenciesMet_of_nil h⟩

theorem makePlan_spec (hweighed : ∃ earlier done, events = earlier ++ [Event.weighed step.header done]) :
    Triple (At setup walked events) (makePlan setup step) (fun _ => At setup walked (events ++ [Event.planned step.header]))
      (fun _ => After setup walked events) := by
  refine Triple.bind (note_spec hweighed rfl) fun _ => Triple.tryCatch call_spec fun exc => ?_
  exact Triple.ite (fun _ => Triple.pure fun _ h => h) fun _ => Triple.throw fun _ h => h.after.of_append

/-! ### Waits -/

theorem heartbeat_spec : Triple (After setup walked events) (heartbeat services setup) (fun _ => After setup walked events)
    (fun _ => After setup walked events) := by
  refine After.triple fun events' hbegins => ?_
  refine Triple.get_bind fun e h => Triple.ite (fun _ => Triple.pure ?_) fun hdue => ?_
  · rintro _ rfl
    exact h.after.mono hbegins
  · rw [not_or, Bool.not_eq_true] at hdue
    have hleased : Leased events' := h.1 ▸ h.2.leased hdue.1
    refine Triple.bind (Q := fun _ => At setup walked events') ?_ fun _ => ?_
    · refine call_spec.weaken (P := At setup walked events') ?_ (fun _ _ h => h) fun _ _ h => h.after.mono hbegins
      rintro _ rfl
      exact h
    refine Triple.bind (note_spec ⟨hdue.1, hleased⟩ rfl) fun _ => ?_
    exact call_spec.weaken (fun _ h => h) (fun _ _ h => h.after.of_append.mono hbegins)
      fun _ _ h => h.after.of_append.mono hbegins

theorem waitStatus_ok {seen : Observation} {detail : String} (h : waitStatus seen = .ok (status, detail)) :
    status = seen.status := by
  unfold waitStatus at h
  split at h
  · cases h
  · cases h
    rfl

/-- A wait that comes to its end has just seen its check met. -/
theorem waitUntil_spec {spec : WaitSpec} {deadline : Instant} {onPoll : List String → Engining σ (List String)}
    (honPoll : ∀ done, Triple (After setup walked events) (onPoll done) (fun _ => After setup walked events)
      (fun _ => After setup walked events)) (left : Nat) (done : List String) :
    Triple (After setup walked events) (waitUntil services step spec deadline onPoll left done)
      (fun _ e => After setup walked events e ∧ ∃ earlier, e.events = earlier ++ [Event.checked step.header .met])
      (fun _ => After setup walked events) := by
  induction left generalizing done with
  | zero => exact Triple.throw fun _ h => h
  | succ left ih =>
    rw [waitUntil]
    refine Triple.bind (honPoll done) fun done' => After.triple fun events' hbegins => ?_
    refine Triple.bind (poll_spec.weaken (fun _ h => h) (fun _ _ h => h) fun _ _ h => h.2.after.mono hbegins) fun seen => ?_
    refine Triple.bind (note_spec trivial rfl) fun _ => ?_
    have hafter : ∀ e, At setup walked (events' ++ [Event.checked step.header seen.status]) e → After setup walked events e :=
      fun _ h => h.after.of_append.mono hbegins
    cases hwait : waitStatus seen with
    | error exc => exact Triple.throw hafter
    | ok found =>
      obtain ⟨status, detail⟩ := found
      obtain rfl := waitStatus_ok hwait
      refine Triple.get_bind fun e h => Triple.ite (fun hmet => Triple.pure ?_) fun _ => ?_
      · rintro _ rfl
        exact ⟨hafter _ h, events', hmet ▸ h.1⟩
      · refine Triple.ite (fun _ => Triple.throw ?_) fun _ => ?_
        · rintro _ rfl
          exact hafter _ h
        refine Triple.bind (Q := fun _ => After setup walked events) (Triple.modify ?_) fun _ => ih done'
        rintro _ rfl
        exact ⟨(hafter _ h).1, h.2.world _⟩

/-- A step that is written down as failed or paused after its apply. -/
theorem stopped_spec {state : StepState} {detail : Option String} {exc : Exc} {Q : PUnit → Engine σ → Prop}
    (hdry : setup.dryRun = false) (happlied : Event.applied step.header ∈ events)
    (hstate : state = .failed ∨ state = .paused) :
    Triple (After setup walked events)
      (do
        record services setup step state (some plan) [] detail
        throw exc) Q (fun _ => After setup walked events) := by
  refine After.triple fun events' hbegins => ?_
  have hallowed : Leased events' → Allowed setup walked events' (.recorded step.header state) := by
    intro hleased
    obtain rfl | rfl := hstate
    · exact ⟨⟨hdry, hleased⟩, .inl (hbegins.subset happlied)⟩
    · exact ⟨⟨hdry, hleased⟩, hbegins.subset happlied⟩
  refine Triple.bind ((record_spec hdry hallowed).weaken (fun _ h => h) (fun _ _ h => h) fun _ _ h => h.mono hbegins)
    fun _ => Triple.throw fun _ h => ?_
  exact h.after.of_append.mono hbegins

section Trigger

variable {polls : Nat} {trigger : List String → Engining σ (List String)}

theorem waitFor_spec (hdry : setup.dryRun = false) (happlied : Event.applied step.header ∈ events)
    (htrigger : ∀ done, Triple (After setup walked events) (trigger done) (fun _ => After setup walked events)
      (fun _ => After setup walked events)) :
    Triple (After setup walked events) (waitFor services setup step plan polls trigger)
      (fun _ e => After setup walked events e ∧ ∃ earlier, e.events = earlier ++ [Event.checked step.header .met])
      (fun _ => After setup walked events) := by
  refine Triple.get_bind fun e h => ?_
  refine Triple.tryCatch (F := fun _ => After setup walked events) ?_ fun exc => ?_
  · refine (waitUntil_spec (fun done => Triple.bind heartbeat_spec fun _ => htrigger done) polls []).weaken ?_
      (fun _ _ h => h) fun _ _ h => h
    rintro _ rfl
    exact h
  · cases exc with
    | waitGaveUp message => exact stopped_spec hdry happlied (.inr rfl)
    | checkFailed detail => exact stopped_spec hdry happlied (.inl rfl)
    | _ => exact Triple.throw fun _ h => h

theorem applyStep_spec (hdry : setup.dryRun = false) (hallowed : Allowed setup walked events (.applied step.header)) :
    Triple (At setup walked events) (applyStep services setup step plan)
      (fun _ => At setup walked (events ++ [Event.applied step.header])) (fun _ => After setup walked events) := by
  refine Triple.bind (note_spec hallowed rfl) fun _ => ?_
  refine Triple.tryCatch (F := fun _ => At setup walked (events ++ [Event.applied step.header]))
    (Triple.bind call_spec fun _ => call_spec) fun exc => ?_
  have happlied : Event.applied step.header ∈ events ++ [Event.applied step.header] := by simp
  have hstopped : ∀ {state : StepState} {detail : Option String} {exc : Exc}, state = .failed ∨ state = .paused →
      Triple (At setup walked (events ++ [Event.applied step.header]))
        (do
          record services setup step state (some plan) [] detail
          throw exc)
        (fun _ => At setup walked (events ++ [Event.applied step.header])) (fun _ => After setup walked events) :=
    fun hstate => (stopped_spec hdry happlied hstate).weaken (fun _ h => h.after) (fun _ _ h => h) fun _ _ h => h.of_append
  cases exc with
  | stop stopped id message => exact Triple.throw fun _ h => h.after.of_append
  | leaseLost message => exact Triple.throw fun _ h => h.after.of_append
  | waitGaveUp message => exact hstopped (.inr rfl)
  | _ => exact hstopped (.inl rfl)

theorem openPage_spec : Triple (At setup walked events) (openPage step plan) (fun _ => At setup walked events) E :=
  Triple.ite (fun _ => Triple.modify fun _ h => ⟨h.1, h.2.world _⟩) fun _ => Triple.pure fun _ h => h

theorem finishStep_spec (hdry : setup.dryRun = false) (happlied : Event.applied step.header ∈ events)
    (htrigger : ∀ done, Triple (After setup walked events) (trigger done) (fun _ => After setup walked events)
      (fun _ => After setup walked events)) :
    Triple (At setup walked events) (finishStep services setup step plan polls trigger)
      (fun _ e => After setup walked events e ∧ Found step e) (fun _ => After setup walked events) := by
  refine Triple.bind openPage_spec fun _ => Triple.ite (fun _ => ?_) fun _ => ?_
  · refine Triple.bind ((waitFor_spec hdry happlied htrigger).weaken (fun _ h => h.after) (fun _ _ h => h) fun _ _ h => h)
      fun _ => ?_
    rintro e ⟨hafter, earlier, hlast⟩
    refine Triple.bind (P := At setup walked e.events) check_spec (fun seen => ?_) e hafter.at
    have hchecked : ∃ earlier',
        e.events ++ [Event.checked step.header seen.status] = earlier' ++ [Event.checked step.header .met] ∨
        ∃ status, e.events ++ [Event.checked step.header seen.status] =
          earlier' ++ [Event.checked step.header .met, Event.checked step.header status] :=
      ⟨earlier, .inr ⟨seen.status, by rw [hlast, List.append_assoc]; rfl⟩⟩
    exact (verify_spec hdry hchecked).weaken (fun _ h => h) (fun _ _ h => ⟨h.1.of_append.mono hafter.1, h.2⟩)
      fun _ _ h => h.of_append.mono hafter.1
  · refine Triple.bind check_spec fun seen => Triple.ite (fun hmet => ?_) fun _ => ?_
    · rw [hmet]
      exact (verify_spec hdry ⟨events, .inl rfl⟩).weaken (fun _ h => h) (fun _ _ h => ⟨h.1.of_append, h.2⟩)
        fun _ _ h => h.of_append
    · refine (stopped_spec hdry (List.mem_append_left _ happlied) (.inl rfl)).weaken (fun _ h => h.after)
        (Q := fun _ e => After setup walked events e ∧ Found step e) (fun _ _ h => h) fun _ _ h => h.of_append

theorem applyDry_spec {plan : Option Plan} {unmet : List String}
    (hallowed : step.stage = 0 → step.header.readOnly = true → unmet = [] →
      Allowed setup walked events (.applied step.header)) :
    Triple (At setup walked events) (applyDry step unmet plan) (fun _ => After setup walked events)
      (fun _ => After setup walked events) := by
  cases plan with
  | none => exact Triple.pure fun _ h => h.after
  | some plan =>
    refine Triple.ite (fun hzero => ?_) fun _ => Triple.pure fun _ h => h.after
    refine Triple.bind (note_spec (hallowed hzero.1 hzero.2.1 hzero.2.2) rfl) fun _ => ?_
    refine Triple.bind (Q := fun _ => At setup walked (events ++ [Event.applied step.header])) ?_ fun _ => ?_
    · exact Triple.tryCatch call_spec fun _ => Triple.throw fun _ h => h.after.of_append
    refine Triple.bind check_spec fun seen => Triple.ite (fun hmet => ?_) fun _ => ?_
    · have hmark : Allowed setup walked (events ++ [Event.applied step.header] ++ [Event.checked step.header seen.status])
          (.marked step.header true) := ⟨_, .inl (by rw [hmet])⟩
      exact (mark_spec (E := fun _ => After setup walked events) hmark).weaken (fun _ h => h)
        (fun _ _ h => h.after.of_append.of_append.of_append) fun _ _ h => h
    · exact Triple.pure fun _ h => h.after.of_append.of_append

theorem engage_spec {earlier middle : List Event} (hmem : step ∈ walked)
    (hevents : events = earlier ++ .checked step.header status :: middle) (hunmet : status ≠ .met)
    (hunknown : status = .unknown → step.header.kind = .wait ∨ setup.dryRun = true)
    (hmiddle : middle = [] ∨ middle = [Event.recorded step.header .drift] ∨ middle = [Event.unrunnable step.header])
    (htrigger : ∀ events' done, events <+: events' → Triple (After setup walked events') (trigger done)
      (fun _ => After setup walked events') (fun _ => After setup walked events')) :
    Triple (At setup walked events) (engage services setup step polls trigger)
      (fun _ e => After setup walked events e ∧ (setup.dryRun = false → Found step e)) (fun _ => After setup walked events) := by
  have hmark : Allowed setup walked events (.marked step.header false) := ⟨earlier, status, middle, hevents, hunmet, hmiddle⟩
  refine Triple.bind (mark_spec hmark) fun _ => ?_
  refine Triple.bind (weigh_spec ⟨_, rfl⟩) fun unmet => ?_
  rintro e ⟨done, hat, hmet⟩
  refine Triple.bind (P := At setup walked
    (events ++ [Event.marked step.header false] ++ [Event.weighed step.header done]))
    ((makePlan_spec ⟨_, done, rfl⟩).weaken (fun _ h => h) (fun _ _ h => h) fun _ _ h => h.of_append.of_append)
    (fun plan => ?_) e hat
  have hprepared : ∀ timed, unmet = [] → (timed = [] ∨ timed = [Event.timed step.header]) →
      Prepared setup (events ++ [Event.marked step.header false] ++ [Event.weighed step.header done] ++
        [Event.planned step.header] ++ if setup.dryRun then [] else .renewed :: timed) step.header := by
    intro timed hnil htimed
    refine ⟨earlier, status, middle, done, timed, ?_, hunmet, hunknown, hmiddle, htimed, ?_⟩
    · simp [hevents]
    · rw [← hevents]
      exact hmet hnil
  cases hdry : setup.dryRun with
  | true =>
    simp only [↓reduceIte]
    have hallowed : step.stage = 0 → step.header.readOnly = true → unmet = [] →
        Allowed setup walked (events ++ [Event.marked step.header false] ++ [Event.weighed step.header done] ++
          [Event.planned step.header]) (.applied step.header) := by
      intro hzero hreadOnly hnil
      refine ⟨List.mem_map_of_mem hmem, ?_, ?_⟩
      · have hbefore := hprepared [] hnil (.inl rfl)
        rwa [hdry, if_pos rfl, List.append_nil] at hbefore
      · rw [hdry, if_pos rfl]
        exact ⟨hzero, hreadOnly⟩
    exact (applyDry_spec hallowed).weaken (fun _ h => h)
      (fun _ _ h => ⟨h.of_append.of_append.of_append, nofun⟩) fun _ _ h => h.of_append.of_append.of_append
  | false =>
    simp only [Bool.false_eq_true, ↓reduceIte]
    refine Triple.ite (fun _ => Triple.throw fun _ h => h.after.of_append.of_append.of_append) fun hnil => ?_
    rw [not_not] at hnil
    cases plan with
    | none => exact Triple.throw fun _ h => h.after.of_append.of_append.of_append
    | some plan =>
      refine Triple.bind (call_spec.weaken (fun _ h => h) (fun _ _ h => h)
        fun _ _ h => h.after.of_append.of_append.of_append) fun _ => ?_
      intro e h
      have hleased : Leased (events ++ [Event.marked step.header false] ++ [Event.weighed step.header done] ++
          [Event.planned step.header]) := h.1 ▸ h.2.leased hdry
      have hrenewed : Allowed setup walked (events ++ [Event.marked step.header false] ++ [Event.weighed step.header done] ++
          [Event.planned step.header]) .renewed := ⟨hdry, hleased⟩
      refine Triple.bind (note_spec hrenewed rfl) (fun _ => ?_) e h
      refine Triple.bind ((passStarts_spec hdry ⟨_, rfl⟩).weaken (fun _ h => h) (fun _ _ h => h)
        fun _ _ h => h.of_append.of_append.of_append.of_append) fun _ => ?_
      rintro e' ⟨timed, htimed, h'⟩
      have hallowed : Allowed setup walked (events ++ [Event.marked step.header false] ++ [Event.weighed step.header done] ++
          [Event.planned step.header] ++ [Event.renewed] ++ timed) (.applied step.header) := by
        refine ⟨List.mem_map_of_mem hmem, ?_, ?_⟩
        · simpa [hdry] using hprepared timed hnil htimed
        · rw [hdry, if_neg Bool.false_ne_true]
          exact h'.1 ▸ h'.2.leased hdry
      refine Triple.bind ((applyStep_spec hdry hallowed).weaken (fun _ h => h) (fun _ _ h => h)
        fun _ _ h => h.of_append.of_append.of_append.of_append.of_append) (fun _ => ?_) e' h'
      have hbegins : events <+: events ++ [Event.marked step.header false] ++ [Event.weighed step.header done] ++
          [Event.planned step.header] ++ [Event.renewed] ++ timed ++ [Event.applied step.header] := by
        simp only [List.append_assoc]
        exact List.prefix_append _ _
      refine (finishStep_spec hdry (by simp) fun done => htrigger _ done hbegins).weaken (fun _ h => h)
        (fun _ _ h => ⟨h.1.mono hbegins, fun _ => h.2⟩) fun _ _ h => h.mono hbegins

/-- A step that was looked at: it was found met, or, in a dry run, it was checked. -/
structure Visited (setup : Setup σ) (step : Step σ) (events : List Event) : Prop where
  found : setup.dryRun = false → Event.marked step.header true ∈ events
  checked : setup.dryRun = true → ∃ status, Event.checked step.header status ∈ events ∧
    (status = .unknown → step.header.kind ≠ .wait → Event.unrunnable step.header ∈ events)

theorem Visited.mono {events' : List Event} (hsub : ∀ event ∈ events, event ∈ events') (h : Visited setup step events) :
    Visited setup step events' where
  found hdry := hsub _ (h.found hdry)
  checked hdry := by
    obtain ⟨status, hchecked, hunknown⟩ := h.checked hdry
    exact ⟨status, hsub _ hchecked, fun hstatus hkind => hsub _ (hunknown hstatus hkind)⟩

theorem drifted_spec {wasDone : Bool} {detail : String} {earlier : List Event} (hunmet : status ≠ .met) :
    Triple (At setup walked (earlier ++ [Event.checked step.header status])) (drifted services setup step wasDone detail)
      (fun _ e => ∃ middle, (middle = [] ∨ middle = [Event.recorded step.header .drift] ∧ setup.dryRun = false) ∧
        At setup walked (earlier ++ .checked step.header status :: middle) e)
      (fun _ => After setup walked (earlier ++ [Event.checked step.header status])) := by
  refine Triple.ite (fun _ => ?_) fun _ => Triple.pure fun _ h => ⟨[], .inl rfl, h⟩
  cases hdry : setup.dryRun with
  | true =>
    unfold record
    rw [hdry]
    exact Triple.pure fun _ h => ⟨[], .inl rfl, h⟩
  | false =>
    have hdrift : Leased (earlier ++ [Event.checked step.header status]) →
        Allowed setup walked (earlier ++ [Event.checked step.header status]) (.recorded step.header .drift) :=
      fun hleased => ⟨⟨hdry, hleased⟩, earlier, status, rfl, hunmet⟩
    refine (record_spec hdry hdrift).weaken (fun _ h => h) (fun _ _ h => ⟨_, .inr ⟨rfl, rfl⟩, ?_⟩) fun _ _ h => h
    rwa [List.append_assoc] at h

theorem At.unrunnable {earlier : List Event} (hdry : setup.dryRun = true) (hkind : step.header.kind ≠ .wait)
    (h : At setup walked (earlier ++ [Event.checked step.header .unknown]) e) :
    At setup walked (earlier ++ [Event.checked step.header .unknown, Event.unrunnable step.header])
      { e with unknownInDryRun := true, events := e.events ++ [Event.unrunnable step.header] } := by
  obtain ⟨hevents, hinside⟩ := h
  refine ⟨by simp [hevents], hinside.lawful.snoc ⟨hdry, hkind, earlier, hevents⟩, ?_, fun id => ?_, fun _ _ => rfl, ?_⟩
  · rw [metIn, List.flatMap_append, ← metIn, ← hinside.met]
    simp
  · rw [lastMark, List.reverse_append]
    exact hinside.stepMet id
  · intro hwet
    rw [hdry] at hwet
    cases hwet

theorem runStepWith_spec (hmem : step ∈ walked)
    (htrigger : ∀ events done, Triple (After setup walked events) (trigger done) (fun _ => After setup walked events)
      (fun _ => After setup walked events)) :
    Triple (After setup walked events) (runStepWith services setup step polls trigger)
      (fun _ e => After setup walked events e ∧ Visited setup step e.events) (fun _ => After setup walked events) := by
  refine After.triple fun events' hbegins => Triple.bind check_spec fun seen => Triple.get_bind fun e h => ?_
  have hback : ∀ {more : List Event} {e : Engine σ},
      After setup walked (events' ++ .checked step.header seen.status :: more) e → After setup walked events e :=
    fun h => h.of_append.mono hbegins
  dsimp only
  refine Triple.ite (fun hmet => ?_) fun hunmet => ?_
  · rw [hmet] at h
    refine Triple.ite (fun _ => ?_) fun hnew => ?_
    · have hmark : Allowed setup walked (events' ++ [Event.checked step.header .met]) (.marked step.header true) :=
        ⟨events', .inl rfl⟩
      refine (mark_spec (E := fun _ => After setup walked events) hmark).weaken ?_ (fun _ e h' => ?_) fun _ _ h => h
      · rintro _ rfl
        exact h
      · refine ⟨h'.after.of_append.of_append.mono hbegins, fun _ => h'.found.2, fun _ => ⟨.met, ?_, nofun⟩⟩
        rw [h'.1]
        simp
    · have hdry : setup.dryRun = false := by
        rw [not_or] at hnew
        simpa using hnew.2
      refine (verify_spec hdry ⟨events', .inl rfl⟩).weaken ?_ (fun _ e h' => ?_)
        fun _ _ h => h.of_append.mono hbegins
      · rintro _ rfl
        exact h
      · refine ⟨h'.1.of_append.mono hbegins, fun _ => h'.2, fun hdry' => ?_⟩
        rw [hdry] at hdry'
        cases hdry'
  · refine Triple.bind ((drifted_spec hunmet).weaken ?_ (fun _ _ h => h)
      fun _ _ h => h.of_append.mono hbegins) fun _ => ?_
    · rintro _ rfl
      exact h
    rintro e ⟨middle, hmiddle, h⟩
    have hchecked : ∀ {more : List Event} {e : Engine σ},
        After setup walked (events' ++ .checked step.header seen.status :: more) e →
          Event.checked step.header seen.status ∈ e.events := fun h => h.mem (by simp)
    refine Triple.ite (fun hunknown => Triple.ite (fun hdry => ?_) fun _ => ?_) (fun hunknown => ?_) e h
    · have hnil : middle = [] := hmiddle.resolve_right fun hdrift => by
        rw [hdry] at hdrift
        cases hdrift.2
      rw [hnil, hunknown.1]
      refine Triple.bind (Q := fun _ => At setup walked
        (events' ++ [Event.checked step.header .unknown, Event.unrunnable step.header]))
        (Triple.modify fun _ h => h.unrunnable hdry hunknown.2) fun _ => ?_
      have hunmet' : Status.unknown ≠ .met := nofun
      refine (engage_spec hmem rfl hunmet' (fun _ => .inr hdry) (.inr (.inr rfl)) fun _ done _ => htrigger _ done).weaken
        (fun _ h => h) (fun _ e h => ?_) fun _ _ h => h.of_append.mono hbegins
      refine ⟨h.1.of_append.mono hbegins, fun hwet => ?_, fun _ => ⟨.unknown, h.1.mem (by simp), fun _ _ => h.1.mem (by simp)⟩⟩
      rw [hdry] at hwet
      cases hwet
    · exact Triple.throw fun _ h => hback h.after
    · have hkind : seen.status = .unknown → step.header.kind = .wait := by
        intro hstatus
        by_contra hkind
        exact hunknown ⟨hstatus, hkind⟩
      have hmiddle' : middle = [] ∨ middle = [Event.recorded step.header .drift] ∨ middle = [Event.unrunnable step.header] :=
        hmiddle.imp_right fun hdrift => .inl hdrift.1
      refine (engage_spec hmem rfl hunmet (fun hstatus => .inl (hkind hstatus)) hmiddle' fun _ done _ =>
        htrigger _ done).weaken (fun _ h => h) (fun _ e h => ?_) fun _ _ h => hback h
      exact ⟨hback h.1, h.2, fun _ => ⟨seen.status, hchecked h.1, fun hstatus hwait => absurd (hkind hstatus) hwait⟩⟩

end Trigger

/-! ### Triggered steps -/

theorem triggerLanded_spec : Triple (After setup walked events) (triggerLanded step) (fun _ => After setup walked events)
    (fun _ => After setup walked events) := by
  refine After.triple fun events' hbegins => ?_
  refine Triple.tryCatch (F := fun _ => At setup walked events') ?_ fun _ => Triple.pure fun _ h => h.after.mono hbegins
  exact call_spec.weaken (fun _ h => h) (fun _ _ h => h.after.mono hbegins) fun _ _ h => h

theorem alreadyMet_spec : Triple (After setup walked events) (alreadyMet services step)
    (fun _ => After setup walked events) (fun _ => After setup walked events) := by
  refine After.triple fun events' hbegins => Triple.get_bind fun e h => Triple.ite (fun _ => ?_) fun _ => Triple.pure ?_
  · refine Triple.bind (check_spec.weaken (P := At setup walked events') ?_ (fun _ _ h => h) fun _ _ h => h) fun seen => ?_
    · rintro _ rfl
      exact h
    refine Triple.ite (fun hmet => ?_) fun _ => Triple.pure fun _ h => h.after.of_append.mono hbegins
    have hmark : Allowed setup walked (events' ++ [Event.checked step.header seen.status]) (.marked step.header true) :=
      ⟨events', .inl (by rw [hmet])⟩
    exact Triple.bind (mark_spec hmark) fun _ => Triple.pure fun _ h => h.after.of_append.of_append.mono hbegins
  · rintro _ rfl
    exact h.after.mono hbegins

mutual

/-- By the tree of the steps and those they trigger. -/
theorem runStep_spec (polls : Nat) (hclosed : ∀ step ∈ walked, ∀ triggered ∈ step.triggered, triggered ∈ walked) :
    ∀ step ∈ walked, ∀ events, Triple (After setup walked events) (runStep services setup polls step)
      (fun _ e => After setup walked events e ∧ Visited setup step e.events) (fun _ => After setup walked events)
  | .mk header calls triggered, hmem, events => by
    rw [runStep]
    exact runStepWith_spec hmem fun events done => runTriggered_spec polls hclosed triggered (hclosed _ hmem) events done

theorem runTriggered_spec (polls : Nat) (hclosed : ∀ step ∈ walked, ∀ triggered ∈ step.triggered, triggered ∈ walked) :
    ∀ steps : List (Step σ), (∀ step ∈ steps, step ∈ walked) → ∀ events done,
      Triple (After setup walked events) (runTriggered services setup polls steps done)
        (fun _ => After setup walked events) (fun _ => After setup walked events)
  | [], _, events, done => by
    rw [runTriggered]
    exact Triple.pure fun _ h => h
  | step :: rest, hsteps, events, done => by
    have hrest := runTriggered_spec polls hclosed rest (fun step hstep => hsteps step (List.mem_cons_of_mem _ hstep)) events
    rw [runTriggered]
    refine Triple.ite (fun _ => hrest done) fun _ => Triple.bind alreadyMet_spec fun already => ?_
    refine Triple.ite (fun _ => hrest _) fun _ => Triple.bind triggerLanded_spec fun landed => ?_
    refine Triple.ite (fun _ => ?_) fun _ => hrest done
    have hrun := runStep_spec polls hclosed step (hsteps step List.mem_cons_self) events
    exact Triple.bind (hrun.weaken (fun _ h => h) (fun _ _ h => h.1) fun _ _ h => h) fun _ => hrest _

end

end SwarmCloud.Install
