import SwarmCloud.Upgrade.Run

/-! # What an upgrade does when

Runs of the upgrade follow each other, to whatever targets, and end at any call. What
they do to the deployment is looked at as one trace.
-/

namespace SwarmCloud.Upgrade

open Lib

/-! ## What the trace says -/

/-- Whether dispatch is paused, by the calls that were made. -/
def Event.pauses (before : Bool) : Event → Bool
  | .paused => true
  | .resuming => false
  | _ => before

/-- The release that infra was last applied at. -/
def Event.rolls (before : Option String) : Event → Option String
  | .applying release => some release
  | _ => before

/-- The target whose checks were green, since infra was last applied. -/
def Event.greens (before : Option String) : Event → Option String
  | .green target => some target
  | .applying _ => none
  | _ => before

/-- Whether the upgrade that was opened last has come to remove data. -/
def Event.cleans (before : Bool) : Event → Bool
  | .opened _ => false
  | .migrating _ migration => before || migration.phase = .removesData
  | _ => before

/-- Whether a roll back of the upgrade that was opened last was cut short. -/
def Event.breaks (before : Bool) : Event → Bool
  | .rollingBack _ => true
  | .rolledBack _ | .opened _ => false
  | _ => before

/-- The migrations that are on record. -/
def Event.records (before : List Nat) : Event → List Nat
  | .recorded number => before ++ [number]
  | .forgotten number => before.filter (· ≠ number)
  | _ => before

def pausedIn (events : List Event) : Bool := events.foldl Event.pauses false
def infraIn (events : List Event) : Option String := events.foldl Event.rolls none
def greenIn (events : List Event) : Option String := events.foldl Event.greens none
def cleanedIn (events : List Event) : Bool := events.foldl Event.cleans false
def brokenIn (events : List Event) : Bool := events.foldl Event.breaks false
def recordedIn (events : List Event) : List Nat := events.foldl Event.records []

/-- What must have gone before an event. -/
def Allowed (before : List Event) : Event → Prop
  | .acted _ | .applying _ => pausedIn before = true
  | .migrating target migration => pausedIn before = true ∧ migration.number ∉ recordedIn before ∧
      (migration.phase = .needsNewCode → infraIn before = some target) ∧
      (migration.phase = .removesData → greenIn before = some target ∧
        (infraIn before = some target ∨ brokenIn before = true))
  | .recorded number => number ∉ recordedIn before
  | .forgotten number => ∃ earlier, before = earlier ++ [Event.recorded number]
  | .rollingBack _ => pausedIn before = true ∧ cleanedIn before = false
  | .finished target => greenIn before = some target ∧ (infraIn before = some target ∨ brokenIn before = true)
  | .opened _ | .paused | .resuming | .green _ | .rolledBack _ => True

def Lawful (events : List Event) : Prop :=
  ∀ before event after, events = before ++ event :: after → Allowed before event

variable {events : List Event} {event : Event}

theorem Lawful.nil : Lawful [] := by
  intro before event after h
  simp at h

theorem Lawful.snoc (h : Lawful events) (hevent : Allowed events event) : Lawful (events ++ [event]) := by
  intro before other after heq
  rcases List.eq_nil_or_concat after with rfl | ⟨after, last, rfl⟩
  · obtain ⟨rfl, hlast⟩ := List.append_inj' heq rfl
    cases hlast
    exact hevent
  · rw [List.concat_eq_append, ← List.cons_append, ← List.append_assoc] at heq
    obtain ⟨rfl, -⟩ := List.append_inj' heq rfl
    exact h before other after rfl

section Trackers

variable (events event)

@[simp] theorem pausedIn_snoc : pausedIn (events ++ [event]) = event.pauses (pausedIn events) := by
  simp [pausedIn]

@[simp] theorem infraIn_snoc : infraIn (events ++ [event]) = event.rolls (infraIn events) := by
  simp [infraIn]

@[simp] theorem greenIn_snoc : greenIn (events ++ [event]) = event.greens (greenIn events) := by
  simp [greenIn]

@[simp] theorem cleanedIn_snoc : cleanedIn (events ++ [event]) = event.cleans (cleanedIn events) := by
  simp [cleanedIn]

@[simp] theorem brokenIn_snoc : brokenIn (events ++ [event]) = event.breaks (brokenIn events) := by
  simp [brokenIn]

@[simp] theorem recordedIn_snoc : recordedIn (events ++ [event]) = event.records (recordedIn events) := by
  simp [recordedIn]

end Trackers

/-! ## The progress and the trace -/

/-- `a` comes before `b` in `ORDER`. -/
def Before (a b : UpgradeStep) : Prop := order.idxOf a < order.idxOf b

instance (a b : UpgradeStep) : Decidable (Before a b) := inferInstanceAs (Decidable (_ < _))

/-- What `done` promises. -/
structure Kept (p : Progress) (events : List Event) : Prop where
  closed : ∀ a b, Before a b → b ∈ p.done → a = .drain ∨ a ∈ p.done
  paused : .drain ∈ p.done → pausedIn events = true ∨ ∀ s, s ≠ .resume → s ∈ p.done
  infra : .infra ∈ p.done → infraIn events = some p.target ∨ brokenIn events = true ∧ .migrationsNewCode ∈ p.done
  green : .verify ∈ p.done → greenIn events = some p.target
  cleaned : cleanedIn events = true → .verify ∈ p.done
  resumed : .resume ∈ p.done → .drain ∈ p.done ∧ pausedIn events = false

structure Tracked (s : Stored) (events : List Event) : Prop where
  lawful : Lawful events
  recorded : ∀ n ∈ recordedIn events, n ∈ s.migrations
  kept : ∀ p, s.upgrade = some p → Kept p events

/-- A run to the target is on, with these steps done. -/
structure Running (target : String) (done : List UpgradeStep) (s : Stored) (events : List Event) : Prop
    extends Tracked s events where
  current : ∃ p, s.upgrade = some p ∧ p.target = target ∧ p.done = done

variable {σ α : Type} {services : Services σ} {target : String} {done : List UpgradeStep} {s : Stored} {plan : Plan}

theorem Running.held (h : Running target done s events) :
    ∃ p, s.upgrade = some p ∧ p.target = target ∧ p.done = done ∧ Kept p events := by
  obtain ⟨p, hp, htarget, hdone⟩ := h.current
  exact ⟨p, hp, htarget, hdone, h.kept p hp⟩

/-- An event that is allowed and leaves the progress true. -/
theorem Running.snoc (h : Running target done s events) (hallowed : Allowed events event)
    (hrecorded : event.records (recordedIn events) = recordedIn events)
    (hkept : ∀ p, p.target = target → p.done = done → Kept p events → Kept p (events ++ [event])) :
    Running target done s (events ++ [event]) := by
  obtain ⟨p, hp, htarget, hdone, hold⟩ := h.held
  refine ⟨⟨h.lawful.snoc hallowed, fun n hn => ?_, fun q hq => ?_⟩, p, hp, htarget, hdone⟩
  · rw [recordedIn_snoc, hrecorded] at hn
    exact h.recorded n hn
  · obtain rfl : p = q := Option.some.inj (hp.symm.trans hq)
    exact hkept p htarget hdone hold

/-- An event that nothing is promised by. -/
theorem Kept.snoc {p : Progress} (h : Kept p events) (hpauses : ∀ b, event.pauses b = b) (hrolls : ∀ o, event.rolls o = o)
    (hgreens : ∀ o, event.greens o = o) (hcleans : ∀ b, event.cleans b = b) (hbreaks : ∀ b, event.breaks b = b) :
    Kept p (events ++ [event]) :=
  ⟨h.closed, by simpa [hpauses] using h.paused, by simpa [hrolls, hbreaks] using h.infra, by simpa [hgreens] using h.green,
    by simpa [hcleans] using h.cleaned, by simpa [hpauses] using h.resumed⟩

theorem Running.acted (h : Running target done s events) (hpaused : pausedIn events = true) (what : Act) :
    Running target done s (events ++ [Event.acted what]) :=
  h.snoc hpaused rfl fun _ _ _ hold => hold.snoc (fun _ => rfl) (fun _ => rfl) (fun _ => rfl) (fun _ => rfl) fun _ => rfl

theorem Running.paused (h : Running target done s events) (hdrain : .drain ∉ done) :
    Running target done s (events ++ [Event.paused]) :=
  h.snoc trivial rfl fun p _ hp hold =>
    ⟨hold.closed, fun _ => .inl (by simp [Event.pauses]), by simpa [Event.rolls, Event.breaks] using hold.infra,
      by simpa [Event.greens] using hold.green, by simpa [Event.cleans] using hold.cleaned,
      fun hmem => absurd (hp ▸ (hold.resumed hmem).1) hdrain⟩

theorem Running.resuming (h : Running target done s events) (hdone : .drain ∈ done → ∀ s, s ≠ .resume → s ∈ done) :
    Running target done s (events ++ [Event.resuming]) :=
  h.snoc trivial rfl fun p _ hp hold =>
    ⟨hold.closed, fun hdrain => .inr (hp ▸ hdone (hp ▸ hdrain)), by simpa [Event.rolls, Event.breaks] using hold.infra,
      by simpa [Event.greens] using hold.green, by simpa [Event.cleans] using hold.cleaned,
      fun hmem => ⟨(hold.resumed hmem).1, by simp [Event.pauses]⟩⟩

theorem Running.green (h : Running target done s events) : Running target done s (events ++ [Event.green target]) :=
  h.snoc trivial rfl fun p htarget _ hold =>
    ⟨hold.closed, by simpa [Event.pauses] using hold.paused, by simpa [Event.rolls, Event.breaks] using hold.infra,
      fun _ => by simp [Event.greens, htarget], by simpa [Event.cleans] using hold.cleaned,
      by simpa [Event.pauses] using hold.resumed⟩

theorem Running.rollingBack (h : Running target done s events) (hpaused : pausedIn events = true)
    (hverify : .verify ∉ done) (release : String) (hinfra : .infra ∈ done → .migrationsNewCode ∈ done) :
    Running target done s (events ++ [Event.rollingBack release]) := by
  obtain ⟨p, -, -, hp, hold⟩ := h.held
  have hclean : cleanedIn events = false := by
    rw [Bool.eq_false_iff]
    exact fun hcleaned => hverify (hp ▸ hold.cleaned hcleaned)
  exact h.snoc ⟨hpaused, hclean⟩ rfl fun p _ hp hold =>
    ⟨hold.closed, by simpa [Event.pauses] using hold.paused,
      fun hmem => .inr ⟨by simp [Event.breaks], hp ▸ hinfra (hp ▸ hmem)⟩,
      by simpa [Event.greens] using hold.green, by simpa [Event.cleans] using hold.cleaned,
      by simpa [Event.pauses] using hold.resumed⟩

/-- Infra is applied while nothing is promised of it. -/
theorem Running.applying (h : Running target done s events) (hpaused : pausedIn events = true)
    (hverify : .verify ∉ done) (release : String)
    (hinfra : .infra ∈ done → brokenIn events = true ∧ .migrationsNewCode ∈ done) :
    Running target done s (events ++ [Event.applying release]) :=
  h.snoc hpaused rfl fun p _ hp hold =>
    ⟨hold.closed, by simpa [Event.pauses] using hold.paused,
      fun hmem => .inr ⟨by simpa [Event.breaks] using (hinfra (hp ▸ hmem)).1, hp ▸ (hinfra (hp ▸ hmem)).2⟩,
      fun hmem => absurd (hp ▸ hmem) hverify, by simpa [Event.cleans] using hold.cleaned,
      by simpa [Event.pauses] using hold.resumed⟩

theorem Running.migrating (h : Running target done s events) (hpaused : pausedIn events = true) {migration : Migration}
    (hnew : migration.number ∉ s.migrations) (hcode : migration.phase = .needsNewCode → infraIn events = some target)
    (hdata : migration.phase = .removesData → .verify ∈ done ∧ .infra ∈ done) :
    Running target done s (events ++ [Event.migrating target migration]) := by
  obtain ⟨p, -, htarget, hp, hold⟩ := h.held
  have hgreen : migration.phase = .removesData →
      greenIn events = some target ∧ (infraIn events = some target ∨ brokenIn events = true) := by
    intro hphase
    obtain ⟨hverify, hinfra⟩ := hdata hphase
    rw [← htarget]
    exact ⟨hold.green (hp ▸ hverify), (hold.infra (hp ▸ hinfra)).imp_right And.left⟩
  refine h.snoc ⟨hpaused, fun hmem => hnew (h.recorded _ hmem), hcode, hgreen⟩ rfl fun p _ hp hold => ?_
  refine ⟨hold.closed, by simpa [Event.pauses] using hold.paused, by simpa [Event.rolls, Event.breaks] using hold.infra,
    by simpa [Event.greens] using hold.green, fun hcleaned => ?_, by simpa [Event.pauses] using hold.resumed⟩
  rw [cleanedIn_snoc, Event.cleans, Bool.or_eq_true, decide_eq_true_eq] at hcleaned
  exact hcleaned.elim hold.cleaned fun hphase => hp ▸ (hdata hphase).1

/-! ## Calls -/

/-- What the state and the trace are, whatever the store has for the state. -/
def Anyhow (P : Stored → List Event → Prop) (m : Machine σ) : Prop := P m.state m.events

/-- What the state and the trace are, where the store is not behind. -/
def On (P : Stored → List Event → Prop) (m : Machine σ) : Prop := m.copy = none ∧ P m.state m.events

variable {P Q : Stored → List Event → Prop} {m : Machine σ}

theorem On.imp (h : On P m) (hPQ : ∀ s events, P s events → Q s events) : On Q m := ⟨h.1, hPQ _ _ h.2⟩

theorem On.anyhow (h : On P m) (hPQ : ∀ s events, P s events → Q s events) : Anyhow Q m := hPQ _ _ h.2

theorem ask_spec (f : Call σ α) : Triple (On P) (ask f) (fun _ => On P) (fun _ => On P) := by
  intro m h
  rw [ask]
  cases f m.world with
  | mk result world =>
    cases result with
    | ok a => exact h
    | error exc => exact h

theorem reload_spec : Triple (On P) (reload services) (fun _ => On P) (fun _ => On P) :=
  Triple.bind (ask_spec _) fun _ => Triple.modify fun _ h => ⟨rfl, h.2⟩

theorem note_spec {event : Event} {E : Exc → Machine σ → Prop} (h : ∀ s events, P s events → Q s (events ++ [event])) :
    Triple (On P) (note event : Upgrading σ PUnit) (fun _ => On Q) E :=
  Triple.modify fun _ hP => ⟨hP.1, h _ _ hP.2⟩

theorem wrote_eq (h : m.copy = none) (change : Stored → Stored) (noted : List Event) (world : σ) (copy : Option Stored) :
    m.wrote change noted world copy = ⟨world, change m.state, m.events ++ noted, copy⟩ := by
  have hlost : m.state.migrations.filter (· ∉ m.state.migrations) = [] :=
    List.filter_eq_nil_iff.mpr fun n hn => by simpa using hn
  simp only [Machine.wrote, Machine.base, h, Option.getD_none, hlost, List.map_nil, List.append_nil]

theorem on_wrote (h : m.copy = none) {change : Stored → Stored} {noted : List Event} (world : σ)
    (hQ : Q (change m.state) (m.events ++ noted)) : On Q (m.wrote change noted world none) := by
  rw [wrote_eq h]
  exact ⟨rfl, hQ⟩

/-- A write that was cut, of what `P` says. -/
structure Cut (P : Stored → List Event → Prop) (change : Stored → Stored) (noted : List Event) (m : Machine σ) : Prop where
  before : ∃ s events, P s events ∧ m.copy = some s ∧ m.state = change s ∧ m.events = events ++ noted

theorem update_cut_spec {change : Stored → Stored} {noted : List Event} {E : Stored → List Event → Prop}
    (h : ∀ s events, P s events → Q (change s) (events ++ noted)) (hP : ∀ s events, P s events → E s events)
    (hQ : ∀ s events, Q s events → E s events) :
    Triple (On P) (update services change noted) (fun _ => On Q) (fun _ m => On E m ∨ Cut P change noted m) := by
  rintro m ⟨hcopy, hm⟩
  rw [update]
  cases services.save m.world with
  | mk saved world =>
    cases saved with
    | written => exact on_wrote hcopy world (h _ _ hm)
    | raised exc written =>
      cases written with
      | true => exact .inl (on_wrote hcopy world (hQ _ _ (h _ _ hm)))
      | false => exact .inl ⟨hcopy, hP _ _ hm⟩
    | cut exc =>
      have hbase : m.base = m.state := by rw [Machine.base, hcopy, Option.getD_none]
      refine .inr ⟨m.state, m.events, hm, ?_⟩
      rw [wrote_eq hcopy, hbase]
      exact ⟨rfl, rfl, rfl⟩

/-- A write: what it leads to holds where it came back, and one of the two where it did not. -/
theorem update_spec {change : Stored → Stored} {noted : List Event} {E : Stored → List Event → Prop}
    (h : ∀ s events, P s events → Q (change s) (events ++ noted)) (hP : ∀ s events, P s events → E s events)
    (hQ : ∀ s events, Q s events → E s events) :
    Triple (On P) (update services change noted) (fun _ => On Q) (fun _ => Anyhow E) := by
  refine (update_cut_spec h hP hQ).weaken (fun _ h => h) (fun _ _ h => h) ?_
  rintro _ m (hE | ⟨s, events, hP, -, hstate, hevents⟩)
  · exact hE.2
  · rw [Anyhow, hstate, hevents]
    exact hQ _ _ (h _ _ hP)

end SwarmCloud.Upgrade
