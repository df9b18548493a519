import SwarmCloud.Upgrade.Steps

/-! # A step that fails

What the state is told of a step that came back, and what a stop and a roll back leave,
wherever they are cut short themselves.
-/

namespace SwarmCloud.Upgrade

open Lib

variable {σ α : Type} {services : Services σ} {target : String} {done : List UpgradeStep} {s : Stored} {plan : Plan}
  {events : List Event} {name : UpgradeStep}

/-- A write of the progress, with what it is noted as. -/
theorem Running.written (h : Running target done s events) (noted : List Event) (hlawful : Lawful (events ++ noted))
    (hrecorded : recordedIn (events ++ noted) = recordedIn events) {s' : Stored} (hmigrations : s'.migrations = s.migrations)
    (change : Progress → Progress) (hupgrade : s'.upgrade = s.upgrade.map change) {done' : List UpgradeStep}
    (htarget : ∀ p, (change p).target = p.target) (hdone : ∀ p, p.done = done → (change p).done = done')
    (hkept : ∀ p, p.target = target → p.done = done → Kept p events → Kept (change p) (events ++ noted)) :
    Running target done' s' (events ++ noted) := by
  obtain ⟨p, hp, hto, heq, hold⟩ := h.held
  have hcurrent : s'.upgrade = some (change p) := by rw [hupgrade, hp, Option.map_some]
  refine ⟨⟨hlawful, fun n hn => ?_, fun q hq => ?_⟩, change p, hcurrent, (htarget p).trans hto, hdone p heq⟩
  · rw [hmigrations]
    exact h.recorded n (hrecorded ▸ hn)
  · obtain rfl : change p = q := Option.some.inj (hcurrent.symm.trans hq)
    exact hkept p hto heq hold

/-- The progress after a step that came back. -/
theorem Kept.step {p : Progress} (h : Kept p events) (hreached : Reached name p.done)
    (hdid : Did p.target name events) :
    Kept { p with done := p.done ++ [name], failed := none } events where
  closed a b hbefore hb := by
    rcases List.mem_append.mp hb with hb | hb
    · exact (h.closed a b hbefore hb).imp_right (List.mem_append_left _)
    · rw [List.mem_singleton.mp hb] at hbefore
      exact .inr (List.mem_append_left _ (hreached.before a hbefore))
  paused hmem := by
    rcases List.mem_append.mp hmem with hmem | hmem
    · exact (h.paused hmem).imp_right fun hall s hs => List.mem_append_left _ (hall s hs)
    · exact .inl (hdid.1 (List.mem_singleton.mp hmem).symm)
  infra hmem := by
    rcases List.mem_append.mp hmem with hmem | hmem
    · exact (h.infra hmem).imp_right fun hbroken => ⟨hbroken.1, List.mem_append_left _ hbroken.2⟩
    · exact .inl (hdid.2.1 (List.mem_singleton.mp hmem).symm)
  green hmem := by
    rcases List.mem_append.mp hmem with hmem | hmem
    · exact h.green hmem
    · exact hdid.2.2.1 (List.mem_singleton.mp hmem).symm
  cleaned hcleaned := List.mem_append_left _ (h.cleaned hcleaned)
  resumed hmem := by
    rcases List.mem_append.mp hmem with hmem | hmem
    · exact (h.resumed hmem).imp_left (List.mem_append_left _)
    · obtain rfl : UpgradeStep.resume = name := List.mem_singleton.mp hmem
      exact ⟨List.mem_append_left _ (hreached.before _ (by decide)), hdid.2.2.2 rfl⟩

/-! ## A step that fails -/

/-- Without the drain, what is done is promised whatever becomes of dispatch. -/
theorem Kept.undrained {p : Progress} (h : Kept p events) (hresume : .resume ∉ p.done) (failed : UpgradeStep) :
    Kept { p with failed := some failed, done := p.done.filter (· ≠ .drain) } events where
  closed a b hbefore hb := by
    by_cases hdrain : a = .drain
    · exact .inl hdrain
    · refine .inr (List.mem_filter.mpr ⟨?_, by simpa using hdrain⟩)
      exact (h.closed a b hbefore (List.mem_of_mem_filter hb)).resolve_left hdrain
  paused hmem := by simp at hmem
  infra hmem := (h.infra (List.mem_of_mem_filter hmem)).imp_right fun hbroken =>
    ⟨hbroken.1, List.mem_filter.mpr ⟨hbroken.2, by decide⟩⟩
  green hmem := h.green (List.mem_of_mem_filter hmem)
  cleaned hcleaned := List.mem_filter.mpr ⟨h.cleaned hcleaned, by decide⟩
  resumed hmem := absurd (List.mem_of_mem_filter hmem) hresume

theorem undrained_resumeDispatch_spec (hdrain : .drain ∉ done) : Triple (On (Running target done))
    (resumeDispatch services) (fun _ => Anyhow Tracked) (fun _ => Anyhow Tracked) :=
  (resumeDispatch_spec fun hmem => absurd hmem hdrain).weaken (fun _ h => h)
    (fun _ _ h => h.anyhow fun _ _ h => h.1.toTracked) fun _ _ h => h.anyhow fun _ _ h => h.toTracked

/-- The progress of a stop. -/
theorem Running.stopped (h : Running target done s events) (hresume : .resume ∉ done) (failed : UpgradeStep) :
    Running target (done.filter (· ≠ .drain))
      { s with upgrade := s.upgrade.map fun p =>
          { p with failed := some failed, done := done.filter (· ≠ .drain) } } (events ++ []) := by
  refine h.written [] (by simpa using h.lawful) (by simp) (by rfl)
    (fun p => { p with failed := some failed, done := done.filter (· ≠ .drain) }) (by rfl) (fun _ => rfl)
    (fun _ _ => rfl) fun p _ hp hold => ?_
  rw [List.append_nil, ← hp]
  exact hold.undrained (hp ▸ hresume) failed

/-- The record that was cut is gone with the next write. -/
theorem Running.forgotten (h : Running target done s events) {n : Nat} (hnew : n ∉ s.migrations) :
    Running target done s (events ++ [Event.recorded n] ++ [Event.forgotten n]) := by
  have hrecorded := h.recordInto hnew
  obtain ⟨p, hp, htarget, hdone, hold⟩ := h.held
  have hkept : ∀ q, s.upgrade = some q → Kept q (events ++ [Event.recorded n] ++ [Event.forgotten n]) := fun q hq =>
    (Kept.snoc (h.kept q hq) (fun _ => rfl) (fun _ => rfl) (fun _ => rfl) (fun _ => rfl) fun _ => rfl).snoc (fun _ => rfl)
      (fun _ => rfl) (fun _ => rfl) (fun _ => rfl) fun _ => rfl
  refine ⟨⟨hrecorded.lawful.snoc ⟨events, rfl⟩, fun k hk => ?_, hkept⟩, p, hp, htarget, hdone⟩
  rw [recordedIn_snoc, recordedIn_snoc, Event.records, Event.records, List.mem_filter, List.mem_append] at hk
  obtain ⟨hk | hk, hne⟩ := hk
  · exact h.recorded k hk
  · simp [List.mem_singleton.mp hk] at hne

/-- A stop after a record that was cut writes the copy without it. -/
theorem stop_cut_spec (hresume : .resume ∉ done) (failed : UpgradeStep) :
    Triple (CutRecord target done)
      (saveProgress services (fun p => { p with failed := some failed, done := done.filter (· ≠ .drain) }) [])
      (fun _ => On (Running target (done.filter (· ≠ .drain)))) (fun _ => Anyhow Tracked) := by
  rintro m ⟨n, s, events, ⟨hrunning, hnew⟩, hcopy, hstate, hevents⟩
  have hbase : m.base = s := by rw [Machine.base, hcopy, Option.getD_some]
  have hlost : m.state.migrations.filter (· ∉ s.migrations) = [n] := by
    rw [hstate, recordInto, if_neg hnew, List.filter_append, List.filter_eq_nil_iff.mpr, List.nil_append]
    · simp [hnew]
    · exact fun k hk => by simpa using hk
  have hwrote : ∀ world copy, On (Running target (done.filter (· ≠ .drain))) { m.wrote (fun s => { s with
      upgrade := s.upgrade.map fun p => { p with failed := some failed, done := done.filter (· ≠ .drain) } }) [] world copy
      with copy := none } := by
    intro world copy
    refine ⟨rfl, ?_⟩
    simp only [Machine.wrote, hbase, hlost, hevents, List.map_singleton]
    exact (hrunning.forgotten hnew).stopped hresume failed
  rw [saveProgress, update]
  cases services.save m.world with
  | mk saved world =>
    cases saved with
    | written => exact hwrote world none
    | raised exc written =>
      cases written with
      | true => exact (hwrote world none).anyhow fun _ _ h => h.toTracked
      | false =>
        change Tracked m.state m.events
        rw [hstate, hevents]
        exact (hrunning.recordInto hnew).toTracked
    | cut exc => exact (hwrote world none).anyhow fun _ _ h => h.toTracked

theorem stopped_spec (hresume : .resume ∉ done) (failed : UpgradeStep) :
    Triple (Failing name target done) (stopped services failed done) (fun _ => Anyhow Tracked)
      (fun _ => Anyhow Tracked) := by
  refine Triple.bind (Q := fun _ => On (Running target (done.filter (· ≠ .drain)))) ?_ fun _ => ?_
  · rintro m (h | ⟨-, hcut⟩)
    · exact update_spec (P := Running target done) (fun s events h => h.stopped hresume failed)
        (fun _ _ h => h.toTracked) (fun _ _ h => h.toTracked) m (h.imp fun _ _ h => h.1)
    · exact stop_cut_spec hresume failed m hcut
  · refine Triple.ite (fun _ => undrained_resumeDispatch_spec (by simp)) fun _ => Triple.pure fun _ h => ?_
    exact h.anyhow fun _ _ h => h.toTracked

/-- A roll back that is not yet in the state. -/
structure RollingBack (target : String) (done : List UpgradeStep) (s : Stored) (events : List Event) : Prop
    extends Paused target done s events where
  broken : brokenIn events = true

theorem Paused.rollingBack (h : Paused target done s events) (hverify : .verify ∉ done)
    (hinfra : .infra ∈ done → .migrationsNewCode ∈ done) (release : String) :
    RollingBack target done s (events ++ [Event.rollingBack release]) := by
  refine ⟨⟨h.toRunning.rollingBack h.pausedNow hverify release hinfra, ?_⟩, ?_⟩
  · simp [Event.pauses, h.pausedNow]
  · simp [Event.breaks]

theorem RollingBack.acted (h : RollingBack target done s events) (what : Act) :
    RollingBack target done s (events ++ [Event.acted what]) :=
  ⟨h.toPaused.acted what, by simp [Event.breaks, h.broken]⟩

theorem RollingBack.applying (h : RollingBack target done s events) (hverify : .verify ∉ done)
    (hinfra : .infra ∈ done → .migrationsNewCode ∈ done) (release : String) :
    RollingBack target done s (events ++ [Event.applying release]) := by
  refine ⟨⟨h.toRunning.applying h.pausedNow hverify release fun hmem => ⟨h.broken, hinfra hmem⟩, ?_⟩, ?_⟩
  · simp [Event.pauses, h.pausedNow]
  · simp [Event.breaks, h.broken]

theorem mem_keptByRollback {step : UpgradeStep} :
    step ∈ keptByRollback done ↔ step ∈ done ∧ Before step .infra ∧ step ≠ .drain := by
  simp [keptByRollback, Before]

theorem Kept.rolledBack {p : Progress} (h : Kept p events) (hverify : .verify ∉ p.done) (failed : UpgradeStep)
    (previous : String) :
    Kept { p with done := keptByRollback p.done, failed := some failed, rolledBackTo := some previous }
      (events ++ [Event.rolledBack previous]) where
  closed a b hbefore hb := by
    by_cases hdrain : a = .drain
    · exact .inl hdrain
    · obtain ⟨hb, hinfra, -⟩ := mem_keptByRollback.mp hb
      have ha := (h.closed a b hbefore hb).resolve_left hdrain
      exact .inr (mem_keptByRollback.mpr ⟨ha, Nat.lt_trans hbefore hinfra, hdrain⟩)
  paused hmem := absurd rfl (mem_keptByRollback.mp hmem).2.2
  infra hmem := absurd (mem_keptByRollback.mp hmem).2.1 (by decide)
  green hmem := absurd (mem_keptByRollback.mp hmem).2.1 (by decide)
  cleaned hcleaned := by
    rw [cleanedIn_snoc] at hcleaned
    exact absurd (h.cleaned hcleaned) hverify
  resumed hmem := absurd (mem_keptByRollback.mp hmem).2.1 (by decide)

theorem rollback_spec (hverify : .verify ∉ done) (hinfra : .infra ∈ done → .migrationsNewCode ∈ done)
    (failed : UpgradeStep) : Triple (On (Paused target done)) (rollback services plan failed)
      (fun _ => Anyhow Tracked) (fun _ => Anyhow Tracked) := by
  have hleave : ∀ m : Machine σ, On (RollingBack target done) m → Anyhow Tracked m :=
    fun _ h => h.anyhow fun _ _ h => h.toTracked
  refine Triple.bind (Q := fun _ => On (RollingBack target done)) (note_spec fun s events h => ?_) fun _ => ?_
  · exact h.rollingBack hverify hinfra _
  refine Triple.bind ((copyImages_spec fun _ _ what h => h.acted what).weaken (fun _ h => h) (fun _ _ h => h)
    fun _ => hleave) fun _ => ?_
  refine Triple.bind ((applyInfra_spec fun _ _ h => h.applying hverify hinfra plan.previous).weaken (fun _ h => h)
    (fun _ _ h => h) fun _ => hleave) fun _ => ?_
  refine Triple.bind (reload_spec.weaken (fun _ h => h) (fun _ _ h => h) fun _ => hleave) fun _ => ?_
  refine Triple.bind (Q := fun _ => On (Running target (keptByRollback done)))
    (update_spec (fun s events h => ?_) (fun _ _ h => h.toTracked) fun _ _ h => h.toTracked) fun _ => ?_
  · refine h.toRunning.written [.rolledBack plan.previous] (h.lawful.snoc trivial) (by simp [Event.records]) (by rfl)
      (fun p => { p with
        done := keptByRollback p.done, failed := some failed, rolledBackTo := some plan.previous }) (by rfl)
      (fun _ => rfl) (fun _ hp => congrArg keptByRollback hp) fun p _ hp hold => ?_
    exact hold.rolledBack (hp ▸ hverify) failed _
  · exact undrained_resumeDispatch_spec fun hmem => absurd rfl (mem_keptByRollback.mp hmem).2.2

theorem Failing.running {m : Machine σ} (h : Failing name target done m) : ∃ s events, Running target done s events := by
  obtain ⟨-, h, -⟩ | ⟨-, n, s, events, ⟨h, -⟩, -⟩ := h
  · exact ⟨_, _, h⟩
  · exact ⟨s, events, h⟩

theorem Failing.tracked {m : Machine σ} (h : Failing name target done m) : Anyhow Tracked m := by
  obtain h | ⟨-, n, s, events, ⟨h, hnew⟩, -, hstate, hevents⟩ := h
  · exact h.anyhow fun _ _ h => h.1.toTracked
  · rw [Anyhow, hstate, hevents]
    exact (h.recordInto hnew).toTracked

theorem failure_spec {Q : PUnit → Machine σ → Prop} (hreached : Reached name done) (e : Exc) :
    Triple (Failing name target done) (failure services plan name done e) Q (fun _ => Anyhow Tracked) := by
  have hstopped : ∀ e', Triple (Failing name target done) (do stopped services name done; throw e') Q
      (fun _ => Anyhow Tracked) := by
    intro e' m h
    obtain ⟨s, events, hrunning⟩ := h.running
    exact Triple.bind (stopped_spec (hreached.not_resume hrunning) name) (fun _ => Triple.throw fun _ h => h) m h
  have hrest : ∀ e₁ e₂, Triple (Failing name target done)
      (if name ∈ Upgrade.rolledBack then do rollback services plan name; throw e₁
        else do stopped services name done; throw e₂) Q (fun _ => Anyhow Tracked) := by
    intro e₁ e₂
    refine Triple.ite (fun hmem m h => ?_) fun _ => hstopped e₂
    obtain h | ⟨hnone, -⟩ := h
    rotate_left
    · exact absurd hmem hnone
    have hverify : .verify ∉ done := by
      rcases List.mem_pair.mp hmem with rfl | rfl
      · exact hreached.not_verify h.2.1 (by decide) (by decide)
      · exact hreached.due
    have hinfra : .infra ∈ done → .migrationsNewCode ∈ done := by
      rcases List.mem_pair.mp hmem with rfl | rfl
      · exact fun hdone => absurd hdone hreached.due
      · exact fun _ => hreached.before _ (by decide)
    exact Triple.bind (rollback_spec hverify hinfra name) (fun _ => Triple.throw fun _ h => h) m
      (h.imp fun _ _ h => ⟨h.1, h.2 hmem⟩)
  cases e with
  | killed => exact Triple.throw fun _ h => h.tracked
  | waitGaveUp | upgradeRefused | keyboardInterrupt => exact hstopped _
  | upgradeFailed | migrationFailed | other => exact hrest _ _

end SwarmCloud.Upgrade
