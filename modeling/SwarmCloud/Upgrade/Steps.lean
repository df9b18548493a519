import SwarmCloud.Upgrade.Lawful

/-! # The steps keep to it

One step after another, what each promises where it comes back and what is left where
it does not.
-/

namespace SwarmCloud.Upgrade

open Lib

variable {σ α : Type} {services : Services σ} {target : String} {done : List UpgradeStep} {s : Stored} {plan : Plan}
  {events : List Event} {name : UpgradeStep} {phase : Phase}

/-- A run that has dispatch paused. -/
structure Paused (target : String) (done : List UpgradeStep) (s : Stored) (events : List Event) : Prop
    extends Running target done s events where
  pausedNow : pausedIn events = true

/-! ## The calls of a step -/

theorem Paused.acted (h : Paused target done s events) (what : Act) : Paused target done s (events ++ [Event.acted what]) :=
  ⟨h.toRunning.acted h.pausedNow what, by simp [Event.pauses, h.pausedNow]⟩

theorem act_spec {P : Stored → List Event → Prop} {what : Act}
    (h : ∀ s events, P s events → P s (events ++ [Event.acted what])) :
    Triple (On P) (act services what) (fun _ => On P) (fun _ => On P) :=
  Triple.bind (note_spec h) fun _ => ask_spec _

theorem copyImages_spec {P : Stored → List Event → Prop} {release : String}
    (h : ∀ s events what, P s events → P s (events ++ [Event.acted what])) :
    Triple (On P) (copyImages services release) (fun _ => On P) (fun _ => On P) :=
  Triple.bind (ask_spec _) fun _ => act_spec fun s events => h s events _

theorem paused_act_spec (what : Act) :
    Triple (On (Paused target done)) (act services what) (fun _ => On (Paused target done))
      (fun _ => On (Paused target done)) :=
  act_spec fun _ _ h => h.acted what

theorem applyInfra_spec {P Q : Stored → List Event → Prop} {release : String}
    (h : ∀ s events, P s events → Q s (events ++ [Event.applying release])) :
    Triple (On P) (applyInfra services release) (fun _ => On Q) (fun _ => On Q) :=
  Triple.bind (note_spec h) fun _ => ask_spec _

theorem resumeDispatch_spec (hdone : .drain ∈ done → ∀ s, s ≠ .resume → s ∈ done) :
    Triple (On (Running target done)) (resumeDispatch services)
      (fun _ => On fun s events => Running target done s events ∧ pausedIn events = false)
      (fun _ => On (Running target done)) := by
  refine Triple.bind (Q := fun _ => On fun s events => Running target done s events ∧ pausedIn events = false)
    (note_spec fun s events h => ⟨h.resuming hdone, ?_⟩) fun _ => ?_
  · simp [Event.pauses]
  · exact (ask_spec _).weaken (fun _ h => h) (fun _ _ h => h) fun _ _ h => h.imp fun _ _ h => h.1

/-- The migrations of a phase that are on record are among these numbers. -/
structure Migrating (target : String) (done : List UpgradeStep) (phase : Phase) (numbers : List Nat) (s : Stored)
    (events : List Event) : Prop extends Paused target done s events where
  code : phase = .needsNewCode → infraIn events = some target
  among : ∀ n ∈ s.migrations, n ∈ numbers

theorem Running.recordInto (h : Running target done s events) {n : Nat} (hnew : n ∉ s.migrations) :
    Running target done (recordInto n s) (events ++ [Event.recorded n]) := by
  obtain ⟨p, hp, htarget, hdone, hold⟩ := h.held
  rw [Upgrade.recordInto, if_neg hnew]
  refine ⟨⟨h.lawful.snoc fun hmem => hnew (h.recorded n hmem), fun k hk => ?_, fun q hq => ?_⟩, p, hp, htarget, hdone⟩
  · rw [recordedIn_snoc] at hk
    rcases List.mem_append.mp hk with hk | hk
    · exact List.mem_append_left _ (h.recorded k hk)
    · exact List.mem_append_right _ hk
  · obtain rfl : p = q := Option.some.inj (hp.symm.trans hq)
    exact hold.snoc (fun _ => rfl) (fun _ => rfl) (fun _ => rfl) (fun _ => rfl) fun _ => rfl

/-- The write of a record was cut. -/
def CutRecord (target : String) (done : List UpgradeStep) (m : Machine σ) : Prop :=
  ∃ n, Cut (fun s events => Running target done s events ∧ n ∉ s.migrations) (recordInto n) [.recorded n] m

theorem migrateOne_spec (hdata : phase = .removesData → .verify ∈ done ∧ .infra ∈ done) {numbers : List Nat}
    {migration : Migration} (hphase : migration.phase = phase) (hnew : migration.number ∉ numbers) :
    Triple (On (Migrating target done phase numbers)) (migrateOne services target migration)
      (fun _ => On (Migrating target done phase (numbers ++ [migration.number])))
      (fun _ m => On (Paused target done) m ∨ CutRecord target done m) := by
  have hleave : ∀ m : Machine σ, On (Migrating target done phase numbers) m →
      On (Paused target done) m ∨ CutRecord target done m :=
    fun _ h => .inl (h.imp fun _ _ h => h.toPaused)
  refine Triple.bind (Q := fun _ => On (Migrating target done phase numbers)) (note_spec fun s events h => ?_) fun _ => ?_
  · have hunrecorded : migration.number ∉ s.migrations := fun hmem => hnew (h.among _ hmem)
    refine ⟨⟨h.toRunning.migrating h.pausedNow hunrecorded (hphase ▸ h.code) (hphase ▸ hdata), ?_⟩, ?_, h.among⟩
    · simp [Event.pauses, h.pausedNow]
    · simpa [Event.rolls] using h.code
  refine Triple.bind ((ask_spec _).weaken (fun _ h => h) (fun _ _ h => h) fun _ => hleave) fun outcome => ?_
  refine Triple.bind ((ask_spec _).weaken (fun _ h => h) (fun _ _ h => h) fun _ => hleave) fun left => ?_
  refine Triple.ite (fun _ => Triple.throw hleave) fun _ => ?_
  refine (update_cut_spec (fun s events h => ?_) (fun _ _ h => h.toPaused) fun _ _ h => h.toPaused).weaken (fun _ h => h)
    (fun _ _ h => h) fun _ m h => h.imp_right fun hcut => ?_
  rotate_left
  · obtain ⟨s, events, h, hcut⟩ := hcut
    exact ⟨migration.number, s, events, ⟨h.toRunning, fun hmem => hnew (h.among _ hmem)⟩, hcut⟩
  have hunrecorded : migration.number ∉ s.migrations := fun hmem => hnew (h.among _ hmem)
  refine ⟨⟨h.toRunning.recordInto hunrecorded, ?_⟩, ?_, ?_⟩
  · simp [Event.pauses, h.pausedNow]
  · simpa [Event.rolls] using h.code
  · rw [Upgrade.recordInto, if_neg hunrecorded]
    intro n hn
    rcases List.mem_append.mp hn with hn | hn
    · exact List.mem_append_left _ (h.among n hn)
    · exact List.mem_append_right _ hn

theorem migrate_spec (hdata : phase = .removesData → .verify ∈ done ∧ .infra ∈ done) :
    Triple (On fun s events => Paused target done s events ∧ (phase = .needsNewCode → infraIn events = some target))
      (migrate services phase target) (fun _ => On (Paused target done))
      (fun _ m => On (Paused target done) m ∨ CutRecord target done m) := by
  refine Triple.bind (reload_spec.weaken (fun _ h => h) (fun _ _ h => h) fun _ _ h => .inl (h.imp fun _ _ h => h.1))
    fun _ => ?_
  refine Triple.get_bind fun m h => ?_
  have hnodup : (services.migrations.map Migration.number).Nodup := services.numbered ▸ List.nodup_range'
  refine (Triple.forM (I := fun visited =>
    On (Migrating target done phase (m.state.migrations ++ visited.map Migration.number))) ?_).weaken ?_
    (fun _ _ h => h.imp fun _ _ h => h.toPaused) fun _ _ h => h
  · intro visited migration rest hsplit
    refine Triple.ite (fun _ => Triple.pure fun m' h => h.imp fun s events h => ?_) fun hdue => ?_
    · refine ⟨h.toPaused, h.code, fun n hn => ?_⟩
      have := h.among n hn
      simp only [List.map_append, List.mem_append] at this ⊢
      exact this.imp_right .inl
    · rw [not_or, not_not] at hdue
      have hunvisited : migration.number ∉ visited.map Migration.number := by
        rw [hsplit, List.map_append, List.map_cons, List.nodup_append] at hnodup
        exact fun hmem => hnodup.2.2 _ hmem _ List.mem_cons_self rfl
      rw [List.map_append, List.map_singleton, ← List.append_assoc]
      refine migrateOne_spec hdata hdue.1 fun hmem => ?_
      exact (List.mem_append.mp hmem).elim hdue.2 hunvisited
  · rintro _ rfl
    exact ⟨h.1, h.2.1, h.2.2, fun n hn => by simpa using hn⟩

/-! ## The steps -/

/-- What a step leaves that `done` promises. -/
def Did (target : String) (name : UpgradeStep) (events : List Event) : Prop :=
  (name = .drain → pausedIn events = true) ∧ (name = .infra → infraIn events = some target) ∧
    (name = .verify → greenIn events = some target) ∧ (name = .resume → pausedIn events = false)

/-- The loop is at this step: it is not done, and all before it are. -/
structure Reached (name : UpgradeStep) (done : List UpgradeStep) : Prop where
  due : name ∉ done
  before : ∀ a, Before a name → a ∈ done

/-- From the drain to the resumption dispatch is paused. -/
theorem Running.pausedAt (h : Running target done s events) (hreached : Reached name done) (hdrain : Before .drain name)
    (hresume : name ≠ .resume) : Paused target done s events := by
  obtain ⟨p, -, -, rfl, hold⟩ := h.held
  refine ⟨h, (hold.paused (hreached.before _ hdrain)).resolve_right fun hall => ?_⟩
  exact hreached.due (hall name hresume)

theorem Reached.not_verify (hreached : Reached name done) (h : Running target done s events)
    (hbefore : Before name .verify) (hne : name ≠ .drain) : .verify ∉ done := by
  obtain ⟨p, -, -, rfl, hold⟩ := h.held
  intro hverify
  exact (hold.closed name .verify hbefore hverify).elim hne hreached.due

theorem Reached.not_resume (hreached : Reached name done) (h : Running target done s events) : .resume ∉ done := by
  obtain ⟨p, -, -, rfl, hold⟩ := h.held
  intro hresume
  by_cases hname : name = .resume
  · exact hreached.due (hname ▸ hresume)
  have hbefore : Before name .resume := by
    cases name <;> first | exact absurd rfl hname | decide
  rcases hold.closed name .resume hbefore hresume with rfl | hmem
  · exact hreached.due (hold.resumed hresume).1
  · exact hreached.due hmem

/-- What a step leaves that failed. -/
def Failing (name : UpgradeStep) (target : String) (done : List UpgradeStep) (m : Machine σ) : Prop :=
  On (fun s events => Running target done s events ∧ (name ∈ rolledBack → pausedIn events = true)) m ∨
    name ∉ rolledBack ∧ CutRecord target done m

theorem On.failing {m : Machine σ} (h : On (Paused target done) m) : Failing name target done m :=
  .inl (h.imp fun _ _ h => ⟨h.toRunning, fun _ => h.pausedNow⟩)

/-- A step that calls for nothing but what a paused dispatch allows. -/
theorem step_of_paused {m : Upgrading σ PUnit} (hreached : Reached name done) (hdrain : Before .drain name)
    (hresume : name ≠ .resume) (hinfra : name ≠ .infra) (hverify : name ≠ .verify)
    (hm : Triple (On (Paused target done)) m (fun _ => On (Paused target done))
      (fun _ m => On (Paused target done) m ∨ CutRecord target done m)) :
    Triple (On (Running target done)) m
      (fun _ => On fun s events => Running target done s events ∧ Did target name events)
      (fun _ => Failing name target done) := by
  refine hm.weaken (fun _ h => h.imp fun _ _ h => h.pausedAt hreached hdrain hresume) (fun _ _ h => h.imp fun _ _ h => ?_)
    fun _ _ h => h.elim On.failing fun hcut => .inr ⟨?_, hcut⟩
  · exact ⟨h.toRunning, fun _ => h.pausedNow, fun heq => absurd heq hinfra, fun heq => absurd heq hverify,
      fun heq => absurd heq hresume⟩
  · exact fun hmem => (List.mem_pair.mp hmem).elim hinfra hverify

/-- The same of a step that records nothing. -/
theorem step_of_paused_acts {m : Upgrading σ PUnit} (hreached : Reached name done) (hdrain : Before .drain name)
    (hresume : name ≠ .resume) (hinfra : name ≠ .infra) (hverify : name ≠ .verify)
    (hm : Triple (On (Paused target done)) m (fun _ => On (Paused target done)) (fun _ => On (Paused target done))) :
    Triple (On (Running target done)) m
      (fun _ => On fun s events => Running target done s events ∧ Did target name events)
      (fun _ => Failing name target done) :=
  step_of_paused hreached hdrain hresume hinfra hverify (hm.weaken (fun _ h => h) (fun _ _ h => h) fun _ _ => .inl)

/-- Infra is at the target where it was rolled out, and nothing is promised of it before. -/
theorem Paused.rolledOut (h : Paused target done s events) (hverify : .verify ∉ done) (hinfra : .infra ∉ done) :
    Paused target done s (events ++ [Event.applying target]) ∧ infraIn (events ++ [Event.applying target]) = some target := by
  refine ⟨⟨h.toRunning.applying h.pausedNow hverify target fun hmem => absurd hmem hinfra, ?_⟩, ?_⟩
  · simp [Event.pauses, h.pausedNow]
  · simp [Event.rolls]

theorem rollOut_spec (hverify : .verify ∉ done) (hinfra : .infra ∉ done) :
    Triple (On (Paused target done)) (rollOut services target)
      (fun _ => On fun s events => Paused target done s events ∧ infraIn events = some target)
      (fun _ => On (Paused target done)) := by
  have happly : Triple (On (Paused target done)) (applyInfra services target)
      (fun _ => On fun s events => Paused target done s events ∧ infraIn events = some target)
      (fun _ => On (Paused target done)) :=
    (applyInfra_spec fun _ _ h => h.rolledOut hverify hinfra).weaken (fun _ h => h) (fun _ _ h => h)
      fun _ _ h => h.imp fun _ _ h => h.1
  refine Triple.bind (ask_spec _) fun metrics => ?_
  refine Triple.ite (fun _ => happly) fun _ => ?_
  refine Triple.bind (Triple.forM (I := fun _ => On (Paused target done)) fun _ _ _ _ => paused_act_spec _) fun _ => ?_
  refine Triple.bind (ask_spec _) fun still => ?_
  exact Triple.ite (fun _ => Triple.throw fun _ h => h) fun _ => happly

theorem policiesAdmit_spec : Triple (On (Paused target done)) (policiesAdmit services plan)
    (fun _ => On (Paused target done)) (fun _ => On (Paused target done)) := by
  refine Triple.bind (ask_spec _) fun rendered => ?_
  refine Triple.bind (Triple.ite (fun _ => paused_act_spec _) fun _ => Triple.pure fun _ h => h) fun _ => ?_
  refine Triple.ite (fun _ => Triple.pure fun _ h => h) fun _ => ?_
  cases subset rendered plan.policyAdmit with
  | ok policies => exact paused_act_spec _
  | error exc => exact Triple.throw fun _ h => h

theorem step_spec (htarget : plan.target = target) (hreached : Reached name done) :
    Triple (On (Running target done)) (step services plan name)
      (fun _ => On fun s events => Running target done s events ∧ Did target name events)
      (fun _ => Failing name target done) := by
  subst htarget
  cases name with
  | appPermissions =>
    refine (ask_spec _).weaken (fun _ h => h) (fun _ _ h => h.imp fun _ _ h => ⟨h, ?_⟩)
      fun _ _ h => .inl (h.imp fun _ _ h => ⟨h, fun hmem => ?_⟩)
    · exact ⟨fun heq => (by cases heq), fun heq => (by cases heq), fun heq => (by cases heq),
        fun heq => (by cases heq)⟩
    · exact absurd hmem (by decide)
  | drain =>
    refine Triple.bind ((ask_spec _).weaken (fun _ h => h) (fun _ _ h => h)
      fun _ _ h => .inl (h.imp fun _ _ h => ⟨h, fun hmem => ?_⟩)) fun _ => ?_
    · exact absurd hmem (by decide)
    refine Triple.bind (Q := fun _ => On (Paused plan.target done)) (note_spec fun s events h => ?_) fun _ => ?_
    · exact ⟨h.paused hreached.due, by simp [Event.pauses]⟩
    · refine (ask_spec _).weaken (fun _ h => h) (fun _ _ h => h.imp fun _ _ h => ⟨h.toRunning, ?_⟩) fun _ _ => On.failing
      exact ⟨fun _ => h.pausedNow, fun heq => (by cases heq), fun heq => (by cases heq), fun heq => (by cases heq)⟩
  | copyImages =>
    exact step_of_paused_acts hreached (by decide) (by decide) (by decide) (by decide)
      (copyImages_spec fun _ _ what h => h.acted what)
  | migrationsAdditive =>
    exact step_of_paused hreached (by decide) (by decide) (by decide) (by decide)
      ((migrate_spec (fun heq => by cases heq)).weaken
        (fun _ h => h.imp fun _ _ h => ⟨h, fun heq => (by cases heq)⟩) (fun _ _ h => h) fun _ _ h => h)
  | bootstrap => exact step_of_paused_acts hreached (by decide) (by decide) (by decide) (by decide) (paused_act_spec _)
  | policiesAdmit =>
    exact step_of_paused_acts hreached (by decide) (by decide) (by decide) (by decide) policiesAdmit_spec
  | infra =>
    intro m h
    have hverify := hreached.not_verify h.2 (by decide) (by decide)
    refine ((rollOut_spec hverify hreached.due).weaken
      (fun _ h => h.imp fun _ _ h => h.pausedAt hreached (by decide) (by decide))
      (fun _ _ h => h.imp fun _ _ h => ⟨h.1.toRunning, ?_⟩) fun _ _ => On.failing) m h
    exact ⟨fun heq => (by cases heq), fun _ => h.2, fun heq => (by cases heq), fun heq => (by cases heq)⟩
  | policiesTighten =>
    exact step_of_paused_acts hreached (by decide) (by decide) (by decide) (by decide)
      (Triple.bind (ask_spec _) fun _ => paused_act_spec _)
  | migrationsNewCode =>
    refine (migrate_spec (fun heq => by cases heq)).weaken
      (fun m h => h.imp fun s events h => ⟨h.pausedAt hreached (by decide) (by decide), ?_⟩)
      (fun _ _ h => h.imp fun _ _ h => ⟨h.toRunning, ?_⟩)
      fun _ _ h => h.elim On.failing fun hcut => .inr ⟨by decide, hcut⟩
    · intro _
      obtain ⟨p, -, htarget, rfl, hold⟩ := h.held
      exact htarget ▸ (hold.infra (hreached.before _ (by decide))).resolve_right fun hbroken => hreached.due hbroken.2
    · exact ⟨fun heq => (by cases heq), fun heq => (by cases heq), fun heq => (by cases heq),
        fun heq => (by cases heq)⟩
  | namespaces =>
    exact step_of_paused_acts hreached (by decide) (by decide) (by decide) (by decide)
      (Triple.bind (ask_spec _) fun _ => Triple.forM (I := fun _ => On (Paused plan.target done))
        fun _ _ _ _ => paused_act_spec _)
  | verify =>
    refine Triple.bind (Q := fun _ => On (Paused plan.target done)) ((ask_spec _).weaken
      (fun _ h => h.imp fun _ _ h => h.pausedAt hreached (by decide) (by decide)) (fun _ _ h => h)
      fun _ _ => On.failing) fun results => ?_
    refine Triple.ite (fun _ => Triple.throw fun _ => On.failing) fun _ => note_spec fun s events h => ⟨h.toRunning.green, ?_⟩
    exact ⟨fun heq => (by cases heq), fun heq => (by cases heq), fun _ => (by simp [Event.greens]),
      fun heq => (by cases heq)⟩
  | migrationsCleanup =>
    exact step_of_paused hreached (by decide) (by decide) (by decide) (by decide)
      ((migrate_spec fun _ => ⟨hreached.before _ (by decide), hreached.before _ (by decide)⟩).weaken
        (fun _ h => h.imp fun _ _ h => ⟨h, fun heq => (by cases heq)⟩) (fun _ _ h => h) fun _ _ h => h)
  | resume =>
    refine (resumeDispatch_spec fun _ s hs => hreached.before s ?_).weaken (fun _ h => h)
      (fun _ _ h => h.imp fun _ _ h => ⟨h.1, ?_⟩) fun _ _ h => .inl (h.imp fun _ _ h => ⟨h, fun hmem => ?_⟩)
    · cases s <;> first | exact absurd rfl hs | decide
    · exact ⟨fun heq => (by cases heq), fun heq => (by cases heq), fun heq => (by cases heq), fun _ => h.2⟩
    · exact absurd hmem (by decide)

end SwarmCloud.Upgrade
