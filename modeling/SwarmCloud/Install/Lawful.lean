import SwarmCloud.Install.Engine

/-! # What the engine may do

Rules for each thing the engine does, by what it did before. They hold of every run,
whatever the steps, the store and the lease come to.
-/

namespace SwarmCloud.Install

open Common Lib

variable {σ : Type} (setup : Setup σ) (walked : List (Step σ))

/-- The entries of the steps found met. -/
def metIn (events : List Event) : List String :=
  events.flatMap fun
    | .marked step true => step.satisfies
    | _ => []

/-- Whether a step was met when it was last looked at. -/
def lastMark (events : List Event) (id : String) : Option Bool :=
  events.reverse.findSome? fun
    | .marked step met => if step.id = id then some met else none
    | _ => none

/-- Each entry the step needs was found met, or the step that owns it is done. -/
def DependenciesMet (events : List Event) (done : List String) (step : StepHeader) : Prop :=
  ∀ dep ∈ setup.needed step, dep ∈ metIn events ∨
    ∃ entry, setup.manifest.lookup dep = some entry ∧ entry.step ≠ "" ∧
      (lastMark events entry.step).getD (decide (entry.step ∈ done)) = true

def Leased (events : List Event) : Prop := Event.acquired ∈ events ∧ Event.released ∉ events

/-- A write is none of a dry run's, and is made with the lease. -/
def Writes (before : List Event) : Prop := setup.dryRun = false ∧ Leased before

/-- What goes before an apply: a check that was not met, the dependencies met, the plan, and the lease renewed. -/
def Prepared (before : List Event) (step : StepHeader) : Prop :=
  ∃ earlier status middle done timed, before =
      earlier ++ .checked step status :: middle ++ .marked step false :: .weighed step done :: .planned step ::
        (if setup.dryRun then [] else .renewed :: timed) ∧
    status ≠ .met ∧ (status = .unknown → step.kind = .wait ∨ setup.dryRun = true) ∧
    (middle = [] ∨ middle = [Event.recorded step .drift] ∨ middle = [Event.unrunnable step]) ∧
    (timed = [] ∨ timed = [Event.timed step]) ∧
    DependenciesMet setup (earlier ++ .checked step status :: middle ++ [Event.marked step false]) done step

def Allowed (before : List Event) : Event → Prop
  | .acquired => setup.dryRun = false ∧ Event.acquired ∉ before
  | .released => Leased before
  | .freed => ∃ earlier, before = earlier ++ [Event.released]
  | .renewed => Writes setup before
  | .checked _ _ => True
  | .verified step _ => setup.dryRun = false ∧ ∃ earlier, before = earlier ++ [Event.checked step .met] ∨
      ∃ status, before = earlier ++ [Event.checked step .met, Event.checked step status]
  | .unrunnable step =>
    setup.dryRun = true ∧ step.kind ≠ .wait ∧ ∃ earlier, before = earlier ++ [Event.checked step .unknown]
  | .marked step true => ∃ earlier, before = earlier ++ [Event.checked step .met] ∨
      before = earlier ++ [Event.verified step .met, Event.recorded step .done]
  | .marked step false => ∃ earlier status middle, before = earlier ++ .checked step status :: middle ∧ status ≠ .met ∧
      (middle = [] ∨ middle = [Event.recorded step .drift] ∨ middle = [Event.unrunnable step])
  | .weighed step _ => ∃ earlier, before = earlier ++ [Event.marked step false]
  | .planned step => ∃ earlier done, before = earlier ++ [Event.weighed step done]
  | .timed _ => Writes setup before ∧ ∃ earlier, before = earlier ++ [Event.renewed]
  | .applied step => step ∈ walked.map Step.header ∧ Prepared setup before step ∧
      if setup.dryRun then step.stage = 0 ∧ step.readOnly = true else Leased before
  | .recorded step .done => Writes setup before ∧ ∃ earlier, before = earlier ++ [Event.verified step .met]
  | .recorded step .drift =>
    Writes setup before ∧ ∃ earlier status, before = earlier ++ [Event.checked step status] ∧ status ≠ .met
  | .recorded step .paused => Writes setup before ∧ Event.applied step ∈ before
  | .recorded step .failed => Writes setup before ∧ (Event.applied step ∈ before ∨
      ∃ earlier status, before = earlier ++ [Event.verified step status] ∧ status ≠ .met)

def Lawful (events : List Event) : Prop :=
  ∀ before event after, events = before ++ event :: after → Allowed setup walked before event

/-- What the engine keeps, and what it goes by. -/
structure Inside (e : Engine σ) : Prop where
  lawful : Lawful setup walked e.events
  met : e.met = metIn e.events
  stepMet : ∀ id, e.stepMet.lookup id = lastMark e.events id
  unknown : ∀ step, Event.unrunnable step ∈ e.events → e.unknownInDryRun = true
  leased : setup.dryRun = false → Leased e.events

def At (events : List Event) (e : Engine σ) : Prop := e.events = events ∧ Inside setup walked e

def After (events : List Event) (e : Engine σ) : Prop := events <+: e.events ∧ Inside setup walked e

section Steps

variable {setup walked} {services : Services σ} {events : List Event} {event : Event} {e : Engine σ} {α : Type}
  {step : Step σ} {status : Status} {plan : Plan} {E : Exc → Engine σ → Prop}

theorem Lawful.snoc (h : Lawful setup walked events) (hevent : Allowed setup walked events event) :
    Lawful setup walked (events ++ [event]) := by
  intro before other after heq
  rcases List.eq_nil_or_concat after with rfl | ⟨after, last, rfl⟩
  · obtain ⟨rfl, hlast⟩ := List.append_inj' heq rfl
    cases hlast
    exact hevent
  · rw [List.concat_eq_append, ← List.cons_append, ← List.append_assoc] at heq
    obtain ⟨rfl, -⟩ := List.append_inj' heq rfl
    exact h before other after rfl

theorem At.after (h : At setup walked events e) : After setup walked events e := ⟨h.1 ▸ List.prefix_refl _, h.2⟩

theorem After.at (h : After setup walked events e) : At setup walked e.events e := ⟨rfl, h.2⟩

theorem After.of_append {more : List Event} (h : After setup walked (events ++ more) e) : After setup walked events e :=
  ⟨(List.prefix_append events more).trans h.1, h.2⟩

theorem After.mem (h : After setup walked events e) (hmem : event ∈ events) : event ∈ e.events := h.1.subset hmem

/-- An event of which nothing is kept but itself. -/
def Event.quiet : Event → Bool
  | .marked _ _ | .unrunnable _ | .released => false
  | _ => true

theorem metIn_snoc_quiet (hquiet : event.quiet = true) : metIn (events ++ [event]) = metIn events := by
  rw [metIn, List.flatMap_append]
  cases event
  case marked | unrunnable | released => cases hquiet
  all_goals simp [metIn]

theorem lastMark_snoc_quiet (hquiet : event.quiet = true) (id : String) :
    lastMark (events ++ [event]) id = lastMark events id := by
  rw [lastMark, List.reverse_append]
  cases event
  case marked | unrunnable | released => cases hquiet
  all_goals simp [lastMark]

theorem Leased.snoc (h : Leased events) (hevent : event ≠ .released) : Leased (events ++ [event]) := by
  refine ⟨List.mem_append_left _ h.1, fun hmem => ?_⟩
  obtain hmem | hmem := List.mem_append.mp hmem
  · exact h.2 hmem
  · exact hevent (List.mem_singleton.mp hmem).symm

theorem Inside.world (h : Inside setup walked e) (world : σ) : Inside setup walked { e with world } :=
  ⟨h.lawful, h.met, h.stepMet, h.unknown, h.leased⟩

theorem At.note (h : At setup walked events e) (hallowed : Allowed setup walked events event) (hquiet : event.quiet = true) :
    At setup walked (events ++ [event]) { e with events := e.events ++ [event] } := by
  obtain ⟨rfl, hinside⟩ := h
  refine ⟨rfl, hinside.lawful.snoc hallowed, ?_, fun id => ?_, fun step hmem => ?_, fun hdry => ?_⟩
  · rw [metIn_snoc_quiet hquiet]
    exact hinside.met
  · rw [lastMark_snoc_quiet hquiet]
    exact hinside.stepMet id
  · obtain hmem | hmem := List.mem_append.mp hmem
    · exact hinside.unknown step hmem
    · rw [← List.mem_singleton.mp hmem] at hquiet
      cases hquiet
  · refine (hinside.leased hdry).snoc ?_
    rintro rfl
    cases hquiet

theorem note_spec (hallowed : Allowed setup walked events event) (hquiet : event.quiet = true) :
    Triple (At setup walked events) (note event) (fun _ => At setup walked (events ++ [event])) E :=
  Triple.modify fun _ h => h.note hallowed hquiet

theorem call_spec {f : Call σ α} : Triple (At setup walked events) (call f) (fun _ => At setup walked events)
    (fun _ => At setup walked events) := by
  intro e h
  rw [Install.call]
  cases hf : f e.world with
  | mk result world =>
    cases result with
    | ok a => exact ⟨h.1, h.2.world world⟩
    | error exc => exact ⟨h.1, h.2.world world⟩

theorem poll_spec {what : Call σ Observation} : Triple (At setup walked events) (poll what)
    (fun _ => At setup walked events) (fun exc e => (∃ detail, exc = .checkFailed detail) ∧ At setup walked events e) := by
  intro e h
  rw [poll]
  split <;> rename_i hwhat
  · split at hwhat
    all_goals cases hwhat
    all_goals exact ⟨h.1, h.2.world _⟩
  · split at hwhat
    all_goals cases hwhat
    exact ⟨⟨_, rfl⟩, h.1, h.2.world _⟩

theorem observe_spec {what : Call σ Observation} :
    Triple (At setup walked events) (observe what) (fun _ => At setup walked events) E := by
  refine Triple.tryCatch poll_spec fun exc => ?_
  rintro e ⟨⟨detail, rfl⟩, h⟩
  exact h

theorem check_spec : Triple (At setup walked events) (check step)
    (fun seen => At setup walked (events ++ [Event.checked step.header seen.status])) E := by
  refine Triple.bind observe_spec fun seen => ?_
  exact Triple.bind (note_spec trivial rfl) fun _ => Triple.pure fun _ h => h

theorem metIn_mark (step : StepHeader) (met : Bool) :
    metIn (events ++ [Event.marked step met]) = if met then metIn events ++ step.satisfies else metIn events := by
  cases met <;> simp [metIn]

theorem lastMark_mark (step : StepHeader) (met : Bool) (id : String) :
    lastMark (events ++ [Event.marked step met]) id = if id = step.id then some met else lastMark events id := by
  by_cases heq : id = step.id
  · simp [lastMark, heq]
  · simp [lastMark, heq, Ne.symm heq]

theorem mark_spec {met : Bool} (hallowed : Allowed setup walked events (.marked step.header met)) :
    Triple (At setup walked events) (mark step met) (fun _ => At setup walked (events ++ [Event.marked step.header met])) E := by
  refine Triple.modify fun e h => ?_
  obtain ⟨rfl, hinside⟩ := h
  refine ⟨rfl, hinside.lawful.snoc hallowed, ?_, fun id => ?_, fun other hmem => ?_, fun hdry => ?_⟩
  · rw [metIn_mark, ← hinside.met]
  · rw [lastMark_mark, ← hinside.stepMet, Dict.lookup_set]
    rfl
  · refine hinside.unknown other ?_
    simpa using hmem
  · exact (hinside.leased hdry).snoc nofun

theorem record_spec {state : StepState} {plan : Option Plan} {outputs : Dict String Value} {detail : Option String}
    (hdry : setup.dryRun = false) (hallowed : Leased events → Allowed setup walked events (.recorded step.header state)) :
    Triple (At setup walked events) (record services setup step state plan outputs detail)
      (fun _ => At setup walked (events ++ [Event.recorded step.header state])) (fun _ => After setup walked events) := by
  unfold record
  rw [hdry]
  simp only [Bool.false_eq_true, ↓reduceIte]
  refine Triple.get_bind fun e h => ?_
  have hevent := hallowed (h.1 ▸ h.2.leased hdry)
  refine Triple.bind (Q := fun _ => At setup walked (events ++ [Event.recorded step.header state])) ?_ fun _ => ?_
  · rintro _ rfl
    exact h.note hevent rfl
  · exact call_spec.weaken (fun _ h => h) (fun _ _ h => h) fun _ _ h => h.after.of_append

/-- What holds wherever the engine is, holds after it too. -/
theorem After.triple {m : Engining σ α} {Q : α → Engine σ → Prop}
    (h : ∀ events', events <+: events' → Triple (At setup walked events') m Q E) : Triple (After setup walked events) m Q E :=
  fun e he => h e.events he.1 e he.at

theorem After.mono {events' : List Event} (hbegins : events <+: events') (h : After setup walked events' e) :
    After setup walked events e :=
  ⟨hbegins.trans h.1, h.2⟩

/-- The step was found met. -/
def Found (step : Step σ) (e : Engine σ) : Prop := Event.marked step.header true ∈ e.events

theorem At.found (h : At setup walked (events ++ [Event.marked step.header true]) e) :
    After setup walked events e ∧ Found step e := by
  refine ⟨h.after.of_append, ?_⟩
  rw [Found, h.1]
  simp

end Steps

end SwarmCloud.Install
