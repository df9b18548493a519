import SwarmCloud.Upgrade.Failures

/-! # Upgrades that resume each other

The loop over `ORDER` and a run keep the progress and the trace together, so what runs
leave behind them is lawful however each of them ends, and a run that comes back is
through.
-/

namespace SwarmCloud.Upgrade

open Lib

variable {σ α : Type} {services : Services σ} {target : String} {done : List UpgradeStep} {s : Stored} {plan : Plan}
  {events : List Event} {name : UpgradeStep}

/-! ## The loop over `ORDER` -/

/-- What no event and no record of a migration changes is kept by every step. -/
theorem step_frame {P : Stored → List Event → Prop} (hnote : ∀ s events event, P s events → P s (events ++ [event]))
    (hrecord : ∀ s events n, P s events → P (recordInto n s) events) (name : UpgradeStep) :
    Triple (On P) (step services plan name) (fun _ => On P) (fun _ => Anyhow P) := by
  have hask : ∀ {α : Type} (f : Call σ α), Triple (On P) (ask f) (fun _ => On P) (fun _ => Anyhow P) :=
    fun f => (ask_spec f).weaken (fun _ h => h) (fun _ _ h => h) fun _ _ h => h.2
  have hact : ∀ what, Triple (On P) (act services what) (fun _ => On P) (fun _ => Anyhow P) :=
    fun what => (act_spec fun s events => hnote s events _).weaken (fun _ h => h) (fun _ _ h => h) fun _ _ h => h.2
  have hinfra : Triple (On P) (applyInfra services plan.target) (fun _ => On P) (fun _ => Anyhow P) :=
    (applyInfra_spec fun s events => hnote s events _).weaken (fun _ h => h) (fun _ _ h => h) fun _ _ h => h.2
  have hmigrate : ∀ phase, Triple (On P) (migrate services phase plan.target) (fun _ => On P) (fun _ => Anyhow P) := by
    intro phase
    refine Triple.bind (reload_spec.weaken (fun _ h => h) (fun _ _ h => h) fun _ _ h => h.2) fun _ => ?_
    refine Triple.get_bind fun m h => (Triple.forM (I := fun _ => On P) fun _ migration _ _ => ?_).weaken
      (fun _ heq => heq ▸ h) (fun _ _ h => h) fun _ _ h => h
    refine Triple.ite (fun _ => Triple.pure fun _ h => h) fun _ => ?_
    refine Triple.bind (note_spec fun s events => hnote s events _) fun _ => ?_
    refine Triple.bind (hask _) fun outcome => Triple.bind (hask _) fun left => ?_
    refine Triple.ite (fun _ => Triple.throw fun _ h => h.2) fun _ => ?_
    exact update_spec (fun s events h => hnote _ _ _ (hrecord s events _ h)) (fun _ _ h => h) fun _ _ h => h
  cases name with
  | appPermissions => exact hask _
  | drain => exact Triple.bind (hask _) fun _ => Triple.bind (note_spec fun s events => hnote s events _) fun _ => hask _
  | copyImages => exact Triple.bind (hask _) fun _ => hact _
  | migrationsAdditive | migrationsNewCode | migrationsCleanup => exact hmigrate _
  | bootstrap => exact hact _
  | policiesAdmit =>
    refine Triple.bind (hask _) fun rendered => ?_
    refine Triple.bind (Triple.ite (fun _ => hact _) fun _ => Triple.pure fun _ h => h) fun _ => ?_
    refine Triple.ite (fun _ => Triple.pure fun _ h => h) fun _ => ?_
    cases subset rendered plan.policyAdmit with
    | ok policies => exact hact _
    | error exc => exact Triple.throw fun _ h => h.2
  | infra =>
    refine Triple.bind (hask _) fun metrics => Triple.ite (fun _ => hinfra) fun _ => ?_
    refine Triple.bind (Triple.forM (I := fun _ => On P) fun _ _ _ _ => hact _) fun _ => ?_
    refine Triple.bind (hask _) fun still => ?_
    exact Triple.ite (fun _ => Triple.throw fun _ h => h.2) fun _ => hinfra
  | policiesTighten => exact Triple.bind (hask _) fun _ => hact _
  | namespaces => exact Triple.bind (hask _) fun _ => Triple.forM (I := fun _ => On P) fun _ _ _ _ => hact _
  | verify =>
    refine Triple.bind (hask _) fun results => Triple.ite (fun _ => Triple.throw fun _ h => h.2) fun _ => ?_
    exact note_spec fun s events => hnote s events _
  | resume => exact Triple.bind (note_spec fun s events => hnote s events _) fun _ => hask _

/-- A run that has put its target in the state as the release. -/
structure Rolling (target : String) (done : List UpgradeStep) (s : Stored) (events : List Event) : Prop
    extends Running target done s events where
  release : s.release = target

theorem rolling_step_spec (htarget : plan.target = target) (hreached : Reached name done) :
    Triple (On (Rolling target done)) (step services plan name)
      (fun _ => On fun s events => Rolling target done s events ∧ Did target name events)
      (fun _ => Failing name target done) := by
  have hrelease : Triple (On fun s _ => s.release = target) (step services plan name)
      (fun _ => On fun s _ => s.release = target) (fun _ => Anyhow fun s _ => s.release = target) := by
    refine step_frame (fun _ _ _ h => h) (fun s _ n h => ?_) name
    rw [recordInto]
    split
    · exact h
    · exact h
  exact ((step_spec htarget hreached).and hrelease).weaken
    (fun _ h => ⟨h.imp fun _ _ h => h.toRunning, h.imp fun _ _ h => h.release⟩)
    (fun _ _ h => ⟨h.1.1, ⟨h.1.2.1, h.2.2⟩, h.1.2.2⟩) fun _ _ h => h.1

theorem mem_order (a : UpgradeStep) : a ∈ order := by
  cases a <;> decide

theorem order_pairwise : order.Pairwise Before := by
  decide

theorem loop_spec (htarget : plan.target = target) (rest : List UpgradeStep) (hpairwise : rest.Pairwise Before)
    (hdone : ∀ a, a ∉ rest → a ∈ done) :
    Triple (On (Rolling target done)) (loop services plan rest done)
      (fun _ => On fun s events => ∃ done, Rolling target done s events ∧ ∀ a, a ∈ done)
      (fun _ => Anyhow Tracked) := by
  induction rest generalizing done with
  | nil => exact Triple.pure fun _ h => h.imp fun _ _ h => ⟨done, h, fun a => hdone a List.not_mem_nil⟩
  | cons name rest ih =>
    obtain ⟨hfirst, hrest⟩ := List.pairwise_cons.mp hpairwise
    refine Triple.ite (fun hmem => ih hrest fun a ha => ?_) fun hdue => ?_
    · by_cases heq : a = name
      · exact heq ▸ hmem
      · exact hdone a (List.not_mem_cons_of_ne_of_not_mem heq ha)
    have hreached : Reached name done := by
      refine ⟨hdue, fun a hbefore => hdone a fun ha => ?_⟩
      rcases List.mem_cons.mp ha with rfl | ha
      · exact Nat.lt_irrefl _ hbefore
      · exact Nat.lt_asymm hbefore (hfirst a ha)
    refine Triple.bind (Triple.tryCatch (rolling_step_spec htarget hreached) fun e => failure_spec hreached e)
      fun _ => ?_
    refine Triple.bind (Q := fun _ => On (Rolling target (done ++ [name])))
      (update_spec (fun s events h => ?_) (fun _ _ h => h.1.toTracked) fun _ _ h => h.toTracked) fun _ => ?_
    · refine ⟨h.1.toRunning.written [] (by simpa using h.1.lawful) (by simp) (by rfl)
        (fun p => { p with done := done ++ [name], failed := none }) (by rfl) (fun _ => rfl) (fun _ _ => rfl)
        fun p hto hp hold => ?_, h.1.release⟩
      subst hp
      rw [List.append_nil]
      exact hold.step hreached (hto ▸ h.2)
    · refine ih hrest fun a ha => ?_
      by_cases heq : a = name
      · exact heq ▸ List.mem_append_right _ List.mem_cons_self
      · exact List.mem_append_left _ (hdone a (List.not_mem_cons_of_ne_of_not_mem heq ha))

/-! ## Runs -/

/-- A new upgrade promises nothing yet. -/
theorem Tracked.opened (h : Tracked s events) (previous : String) :
    Rolling target [] (opening previous target s) (events ++ [Event.opened target]) := by
  have hrecorded : ∀ n ∈ recordedIn (events ++ [Event.opened target]), n ∈ s.migrations :=
    fun n hn => h.recorded n (by simpa [Event.records] using hn)
  refine ⟨⟨⟨h.lawful.snoc trivial, hrecorded, fun q hq => ?_⟩, _, rfl, rfl, rfl⟩, rfl⟩
  obtain rfl : _ = q := Option.some.inj hq
  exact ⟨by simp, by simp, by simp, by simp, by simp [Event.cleans], by simp⟩

/-- A run goes on with the upgrade that the state has. -/
theorem Tracked.resumed (h : Tracked s events) (hresuming : s.resuming target = true) :
    ∃ done, Rolling target done { s with release := target } events := by
  obtain ⟨p, hp, hto⟩ := (Option.any_eq_true _ _).mp hresuming
  rw [Bool.and_eq_true, decide_eq_true_eq] at hto
  exact ⟨p.done, ⟨⟨h.lawful, h.recorded, h.kept⟩, p, hp, hto.1, rfl⟩, rfl⟩

theorem begin_spec {before : Stored} {previous : String} :
    Triple (On fun s events => s = before ∧ Tracked s events)
      (begin services (before.resuming target) previous target)
      (fun _ => On fun s events => ∃ done, Rolling target done s events) (fun _ => Anyhow Tracked) := by
  refine Triple.ite (fun hresuming => ?_) fun _ => ?_
  · refine update_spec (fun s events h => ?_) (fun _ _ h => h.2) fun _ _ h => h.choose_spec.toTracked
    rw [List.append_nil]
    exact h.2.resumed (h.1 ▸ hresuming)
  · exact update_spec (fun s events h => ⟨[], h.2.opened previous⟩) (fun _ _ h => h.2) fun _ _ h =>
      h.choose_spec.toTracked

/-- All is done: the checks are green for what infra is at. -/
theorem Running.finished (h : Running target done s events) (hall : ∀ a, a ∈ done) :
    Running target done { s with upgrade := s.upgrade.map fun p => { p with finished := some target } }
      (events ++ [Event.finished target]) := by
  obtain ⟨p, -, rfl, rfl, hold⟩ := h.held
  have hallowed : Allowed events (.finished p.target) :=
    ⟨hold.green (hall _), (hold.infra (hall _)).imp_right And.left⟩
  refine h.written [.finished p.target] (h.lawful.snoc hallowed) (by simp [Event.records]) (by rfl)
    (fun q => { q with finished := some p.target }) (by rfl) (fun _ => rfl) (fun _ hq => hq) fun q _ _ hold => ?_
  exact ⟨hold.closed, by simpa [Event.pauses] using hold.paused, by simpa [Event.rolls, Event.breaks] using hold.infra,
    by simpa [Event.greens] using hold.green, by simpa [Event.cleans] using hold.cleaned,
    by simpa [Event.pauses] using hold.resumed⟩

theorem gate_spec {P : Stored → List Event → Prop} (plan : Plan) :
    Triple (On P) (gate services plan) (fun _ => On P) (fun _ => On P) := by
  have happrove : ∀ prompt refusal, Triple (On P) (approve services prompt refusal) (fun _ => On P) (fun _ => On P) :=
    fun prompt refusal => Triple.bind (ask_spec _) fun typed =>
      Triple.ite (fun _ => Triple.throw fun _ h => h) fun _ => Triple.pure fun _ h => h
  refine Triple.ite (fun _ => ?_) fun _ => happrove _ _
  exact Triple.ite (fun _ => happrove _ _) fun _ => Triple.pure fun _ h => h

/-- The upgrade to the target is through. -/
structure Completed (target : String) (s : Stored) (events : List Event) : Prop where
  release : s.release = target
  progress : ∃ p, s.upgrade = some p ∧ p.target = target ∧ p.finished = some target ∧ ∀ a, a ∈ p.done
  resumed : pausedIn events = false
  green : greenIn events = some target
  infra : infraIn events = some target ∨ brokenIn events = true

theorem Rolling.completed (h : Rolling target done s events) (hall : ∀ a, a ∈ done) :
    Completed target { s with upgrade := s.upgrade.map fun p => { p with finished := some target } }
      (events ++ [Event.finished target]) := by
  obtain ⟨p, hp, rfl, rfl, hold⟩ := h.held
  refine ⟨h.release, ⟨_, congrArg (Option.map _) hp, rfl, rfl, hall⟩, ?_, ?_, ?_⟩
  · simpa [Event.pauses] using (hold.resumed (hall _)).2
  · simpa [Event.greens] using hold.green (hall _)
  · simpa [Event.rolls, Event.breaks] using (hold.infra (hall _)).imp_right And.left

/-- The target already runs, and nothing is done. -/
structure Already (target : String) (before after : Machine σ) : Prop where
  state : after.state = before.state
  events : after.events = before.events
  running : before.state.runningRelease = target
  ended : before.state.resuming target = false

theorem run_spec (services : Services σ) (target : String) (allowDowngrade : Bool) (m₀ : Machine σ)
    (h₀ : On Tracked m₀) :
    Triple (· = m₀) (run services target allowDowngrade)
      (fun _ m => On Tracked m ∧ (On (Completed target) m ∨ Already target m₀ m)) (fun _ => Anyhow Tracked) := by
  have hload : Triple (· = m₀) (reload services) (fun _ => On fun s events => s = m₀.state ∧ events = m₀.events)
      (fun _ => Anyhow Tracked) := by
    refine (reload_spec (P := fun s events => s = m₀.state ∧ events = m₀.events)).weaken ?_ (fun _ _ h => h) ?_
    · rintro _ rfl
      exact ⟨h₀.1, rfl, rfl⟩
    · intro _ m h
      rw [Anyhow, h.2.1, h.2.2]
      exact h₀.2
  refine Triple.bind hload fun _ => Triple.get_bind fun m hm => ?_
  have hstart : ∀ m', m' = m → On (fun s events => s = m.state ∧ Tracked s events) m' := by
    rintro _ rfl
    refine ⟨hm.1, rfl, ?_⟩
    rw [hm.2.1, hm.2.2]
    exact h₀.2
  have hsame : ∀ m', m' = m → Anyhow Tracked m' := fun m' h => (hstart m' h).2.2
  refine Triple.ite (fun _ => Triple.throw hsame) fun _ => ?_
  refine Triple.ite (fun hrunning => Triple.pure ?_) fun _ => ?_
  · rintro _ rfl
    refine ⟨(hstart _ rfl).imp fun _ _ h => h.2, .inr ⟨hm.2.1, hm.2.2, ?_, ?_⟩⟩
    · exact hm.2.1 ▸ hrunning.2.symm
    · exact hm.2.1 ▸ hrunning.1
  refine Triple.ite (fun _ => Triple.throw hsame) fun _ => ?_
  refine Triple.bind ((ask_spec _).weaken hstart (fun _ _ h => h) fun _ _ h => h.2.2) fun plan => ?_
  refine Triple.bind ((gate_spec _).weaken (fun _ h => h) (fun _ _ h => h) fun _ _ h => h.2.2) fun _ => ?_
  refine Triple.bind begin_spec fun _ => ?_
  refine Triple.bind (reload_spec.weaken (fun _ h => h) (fun _ _ h => h) fun _ _ h => h.2.choose_spec.toTracked)
    fun _ => ?_
  refine Triple.get_bind fun now hnow => ?_
  obtain ⟨hcopy, done, hrolling⟩ := hnow
  have hdone : (now.state.upgrade.map (·.done)).getD [] = done := by
    obtain ⟨p, hp, -, hp', -⟩ := hrolling.held
    rw [hp, Option.map_some, Option.getD_some, hp']
  refine Triple.bind ((loop_spec rfl order order_pairwise fun a ha => absurd (mem_order a) ha).weaken ?_
    (fun _ _ h => h) fun _ _ h => h) fun _ => ?_
  · rintro _ rfl
    rw [hdone]
    exact ⟨hcopy, hrolling⟩
  · refine (update_spec (Q := fun s events => Tracked s events ∧ Completed target s events) (E := Tracked)
      (fun s events h => ?_) (fun _ _ h => h.choose_spec.1.toTracked) fun _ _ h => h.1).weaken (fun _ h => h)
      (fun _ _ h => ⟨h.imp fun _ _ h => h.1, .inl (h.imp fun _ _ h => h.2)⟩) fun _ _ h => h
    obtain ⟨done, hrolling, hall⟩ := h
    exact ⟨(hrolling.toRunning.finished hall).toTracked, hrolling.completed hall⟩

theorem runs_tracked (history : List (Asked σ)) (m : Machine σ) (h : On Tracked m) : On Tracked (runs history m) := by
  induction history generalizing m with
  | nil => exact h
  | cons asked later ih =>
    have hrun := run_spec asked.services asked.target asked.allowDowngrade m h m rfl
    rw [runs]
    cases hresult : run asked.services asked.target asked.allowDowngrade m with
    | ok a m' =>
      rw [hresult] at hrun
      exact ih { m' with copy := none } ⟨rfl, hrun.1.2⟩
    | error e m' =>
      rw [hresult] at hrun
      exact ih { m' with copy := none } ⟨rfl, hrun⟩

/-- Nothing has been done to an install that no upgrade has touched. -/
theorem tracked_fresh (world : σ) (release : String) (migrations : List Nat) :
    On Tracked { world, state := { release, migrations } } := by
  refine ⟨rfl, Lawful.nil, ?_, ?_⟩
  · intro n hn
    exact absurd hn List.not_mem_nil
  · intro p hp
    cases hp

/-- A run that comes back has the target running, whatever became of the runs before it. -/
theorem run_finishes (history : List (Asked σ)) (world : σ) (release : String) (migrations : List Nat)
    (asked : Asked σ) :
    Triple (· = runs history { world, state := { release, migrations } })
      (run asked.services asked.target asked.allowDowngrade)
      (fun _ m => On (Completed asked.target) m ∨
        Already asked.target (runs history { world, state := { release, migrations } }) m)
      (fun _ m => Lawful m.events) :=
  (run_spec asked.services asked.target asked.allowDowngrade _
    (runs_tracked history _ (tracked_fresh world release migrations))).weaken (fun _ h => h) (fun _ _ h => h.2)
    fun _ _ h => h.lawful

/-- All is well, with one migration for the new code. -/
def calm (save : σ → Saved × σ) : Services σ where
  load := fun w => (.ok (), w)
  save
  project := "p"
  confirmPlan := true
  plan := fun target previous w => (.ok { previous, target, policyDelete := [], policyAdmit := [], iam := [] }, w)
  confirm := fun _ w => (.ok "p", w)
  pauseDispatch := fun w => (.ok (), w)
  drained := fun w => (.ok (), w)
  resumeDispatch := fun w => (.ok (), w)
  appPermissions := fun _ w => (.ok (), w)
  images := fun _ w => (.ok (), w)
  act := fun _ w => (.ok (), w)
  policies := fun _ w => (.ok [], w)
  replacedMetrics := fun _ w => (.ok [], w)
  applyInfra := fun _ w => (.ok (), w)
  tenants := fun w => (.ok ["t"], w)
  checks := fun w => (.ok [("console", "met", "")], w)
  migrations := [⟨1, "labels", .needsNewCode⟩]
  numbered := rfl
  apply := fun _ w => (.ok { changed := 0, refused := 0, detail := "" }, w)
  pending := fun _ w => (.ok [], w)

example : (runs [{ services := calm fun w => (.written, w), target := "2" }] { world := (), state := { release := "1" } }).events =
    [.opened "2", .paused, .acted (.copyImages "2"), .acted (.applyBootstrap "2"), .applying "2",
      .acted (.applyPolicies []), .migrating "2" ⟨1, "labels", .needsNewCode⟩, .recorded 1,
      .acted (.applyNamespace "t"), .green "2", .resuming, .finished "2"] := by
  decide +kernel

/-- The tenth write is the record: cut, it is gone with the stop, and the next run migrates again. -/
example :
    let asked : Asked Nat :=
      { services := calm fun n => (if n = 9 then .cut .keyboardInterrupt else .written, n + 1), target := "2" }
    let events := (runs [asked, asked] { world := 0, state := { release := "1" } }).events
    events.filter (fun event => event.records [1] ≠ [1]) = [Event.recorded 1, .forgotten 1, .recorded 1] := by
  decide +kernel

end SwarmCloud.Upgrade
