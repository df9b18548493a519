import SwarmCloud.Common.Pools
import SwarmCloud.Install.State
import SwarmCloud.Lib.Arranged
import SwarmCloud.Lib.Sorting

/-! # Steps of an install

The step protocol of `swarm_install/steps/__init__.py`, the manifest's entries as the
engine reads them, and the order the engine takes the steps in. What a step's own
functions do is anything: each is given the world and leaves another one.
-/

namespace SwarmCloud.Install

open Common Lib

inductive Status
  | met
  | unmet
  | unknown
  | waiting
deriving DecidableEq, Repr

structure Observation where
  status : Status
  detail : String := ""
  outputs : Dict String Value := []

structure Plan where
  summary : String
  actions : List String := []
deriving DecidableEq, Repr

inductive StepKind
  | engine
  | human
  | wait
deriving DecidableEq, Repr

/-- One bounded wait, as `__post_init__` lets it through. -/
structure WaitSpec where
  reason : String
  expected : String
  expectedS : Instant
  boundS : Instant
  intervalS : Instant := seconds 10
  interval_pos : 0 < intervalS := by decide
  interval_le : intervalS ≤ boundS := by decide
  expected_le : expectedS ≤ boundS := by decide
deriving DecidableEq, Repr

/-- How a run of the engine ended. -/
inductive Outcome
  | ok
  | failed
  | blocked
  | unknown
  | paused
  | refused
deriving DecidableEq, Repr

/-- The outcomes a `_Stop` ends a run with. -/
inductive Stopped
  | failed
  | blocked
  | unknown
  | paused
deriving DecidableEq, Repr

def Stopped.outcome : Stopped → Outcome
  | .failed => .failed
  | .blocked => .blocked
  | .unknown => .unknown
  | .paused => .paused

/-- What is raised. -/
inductive Exc
  | stop (stopped : Stopped) (step : String) (message : String)
  | waitGaveUp (message : String)
  | checkFailed (detail : String)
  | leaseHeld (message : String)
  | leaseRefused (message : String)
  | leaseLost (message : String)
  | stateConflict (message : String)
  | recordConflict (message : String)
  | other (name text : String)
deriving DecidableEq, Repr

/-- What a step declares. -/
structure StepHeader where
  id : String
  stage : Int
  satisfies : List String := []
  kind : StepKind := .engine
  wait : Option WaitSpec := none
  readOnly : Bool := false
  explain : String := ""
deriving DecidableEq, Repr

/-- A function of a step. -/
abbrev Call (σ α : Type) := σ → Except Exc α × σ

structure StepCalls (σ : Type) where
  check : Call σ Observation
  plan : Call σ (Option Plan)
  apply : Plan → Call σ Unit
  verify : Call σ Observation
  trigger : Call σ Bool
  /-- `deep_link` and `open_page`, which never raise here. -/
  openPage : Plan → σ → σ
  lookAt : σ → String

inductive Step (σ : Type)
  | mk (header : StepHeader) (calls : StepCalls σ) (triggered : List (Step σ))

namespace Step

variable {σ : Type}

def header : Step σ → StepHeader
  | .mk header _ _ => header

def calls : Step σ → StepCalls σ
  | .mk _ calls _ => calls

def triggered : Step σ → List (Step σ)
  | .mk _ _ triggered => triggered

def id (step : Step σ) : String := step.header.id

def stage (step : Step σ) : Int := step.header.stage

theorem sizeOf_append (steps steps' : List (Step σ)) : sizeOf (steps ++ steps') + 1 = sizeOf steps + sizeOf steps' := by
  induction steps with
  | nil => simp [Nat.add_comm]
  | cons step steps ih =>
    simp only [List.cons_append, List.cons.sizeOf_spec]
    omega

/-- The steps and those they trigger, in the order of a queue. -/
def walk : List (Step σ) → List (Step σ)
  | [] => []
  | .mk header calls triggered :: pending => .mk header calls triggered :: walk (pending ++ triggered)
termination_by pending => sizeOf pending
decreasing_by
  have happend := sizeOf_append pending triggered
  simp only [List.cons.sizeOf_spec, mk.sizeOf_spec]
  omega

end Step

inductive StepsError
  | sameId (id : String)
  | stageOutside (id : String) (stage : Int)
  | unbounded (id : String)
deriving DecidableEq, Repr

section Check

variable {σ : Type}

/-- The loop of `check_steps`, over the steps in its order. -/
def checkFrom : List (Step σ) → List String → Except StepsError Unit
  | [], _ => .ok ()
  | step :: pending, seen =>
    if step.id ∈ seen then .error (.sameId step.id)
    else if ¬(0 ≤ step.stage ∧ step.stage ≤ 15) then .error (.stageOutside step.id step.stage)
    else if step.header.kind = .wait ∧ step.header.wait = none then .error (.unbounded step.id)
    else checkFrom pending (step.id :: seen)

def checkSteps (steps : List (Step σ)) : Except StepsError Unit := checkFrom (Step.walk steps) []

theorem checkFrom_ok {pending : List (Step σ)} {seen : List String} (h : checkFrom pending seen = .ok ()) :
    (∀ step ∈ pending, step.id ∉ seen ∧ (step.header.kind = .wait → step.header.wait ≠ none)) ∧
      (pending.map Step.id).Nodup := by
  induction pending generalizing seen with
  | nil => simp
  | cons step pending ih =>
    rw [checkFrom] at h
    split at h
    · cases h
    split at h
    · cases h
    split at h
    · cases h
    rename_i hnew _ hbound
    obtain ⟨hrest, hnodup⟩ := ih h
    rw [not_and] at hbound
    constructor
    · intro other hother
      obtain rfl | hother := List.mem_cons.mp hother
      · exact ⟨hnew, hbound⟩
      · exact ⟨fun hseen => (hrest other hother).1 (List.mem_cons_of_mem _ hseen), (hrest other hother).2⟩
    · rw [List.map_cons, List.nodup_cons]
      refine ⟨fun hmem => ?_, hnodup⟩
      obtain ⟨other, hother, hid⟩ := List.mem_map.mp hmem
      exact (hrest other hother).1 (hid ▸ List.mem_cons_self)

theorem sublist_walk (steps : List (Step σ)) : steps.Sublist (Step.walk steps) := by
  induction steps using Step.walk.induct with
  | case1 => exact List.nil_sublist _
  | case2 header calls triggered pending ih =>
    rw [Step.walk]
    exact ((List.sublist_append_left pending triggered).trans ih).cons_cons _

end Check

/-- What the engine reads of an entry of the manifest. -/
structure ManifestEntry where
  dependsOn : List String := []
  step : String := ""
deriving DecidableEq, Repr

/-- `by_id`, or nothing without a manifest. -/
abbrev Manifest := Dict String ManifestEntry

/-- What an engine is made of. -/
structure Setup (σ : Type) where
  steps : List (Step σ)
  manifest : Manifest := []
  dryRun : Bool := false
  checked : checkSteps steps = .ok ()

namespace Setup

variable {σ : Type} (setup : Setup σ)

/-- `_owner` -/
def owner (entry : String) : Option (Step σ) := (Step.walk setup.steps).find? fun step => entry ∈ step.header.satisfies

/-- `_stage_of` -/
def stageOf (id : String) : Option Int := ((Step.walk setup.steps).find? fun step => step.id = id).map Step.stage

def dependsOn (entry : String) : List String := (setup.manifest.lookup entry).elim [] ManifestEntry.dependsOn

/-- The entries a step needs and does not satisfy itself. -/
def needed (step : StepHeader) : List String :=
  step.satisfies.flatMap fun entry => (setup.dependsOn entry).filter fun dep => dep ∉ step.satisfies

/-- Whether the candidate waits for another pending step. -/
def needs (candidate other : Step σ) : Bool :=
  (setup.needed candidate.header).any fun dep =>
    (setup.owner dep).any fun owner => owner.id = other.id && owner.id ≠ candidate.id

def stages : List Int := sortBy (fun stage => stage) (setup.steps.map Step.stage).dedup

def ordered : List (Step σ) :=
  setup.stages.flatMap fun stage => arranged setup.needs (setup.steps.filter fun step => step.stage = stage)

/-! ## The order -/

variable {setup}

theorem nodup_ids : (setup.steps.map Step.id).Nodup :=
  (checkFrom_ok setup.checked).2.sublist ((sublist_walk setup.steps).map _)

theorem nodup_stages : setup.stages.Nodup :=
  (sortBy_perm _ _).nodup_iff.mpr (List.nodup_dedup _)

theorem mem_stages {stage : Int} : stage ∈ setup.stages ↔ ∃ step ∈ setup.steps, step.stage = stage := by
  rw [stages, mem_sortBy, List.mem_dedup, List.mem_map]

theorem perm_flatMap_filter {stages : List Int} (hnodup : stages.Nodup) (steps : List (Step σ)) :
    (stages.flatMap fun stage => arranged setup.needs (steps.filter fun step => step.stage = stage)).Perm
      (steps.filter fun step => step.stage ∈ stages) := by
  induction stages with
  | nil => simp
  | cons stage stages ih =>
    obtain ⟨hnot, hnodup⟩ := List.nodup_cons.mp hnodup
    rw [List.flatMap_cons]
    have hsplit := List.filter_append_perm (fun step : Step σ => step.stage = stage)
      (steps.filter fun step => step.stage ∈ stage :: stages)
    refine List.Perm.trans ?_ hsplit
    rw [List.filter_filter, List.filter_filter]
    refine List.Perm.append ((arranged_perm _).trans (List.Perm.of_eq ?_)) ((ih hnodup).trans (List.Perm.of_eq ?_))
    · refine List.filter_congr fun step _ => ?_
      by_cases heq : step.stage = stage <;> simp [heq]
    · refine List.filter_congr fun step _ => ?_
      by_cases heq : step.stage = stage
      · simp [heq, hnot]
      · simp [heq]

theorem ordered_perm : setup.ordered.Perm setup.steps := by
  refine (perm_flatMap_filter nodup_stages setup.steps).trans (List.Perm.of_eq ?_)
  refine List.filter_eq_self.mpr fun step hstep => ?_
  simpa using mem_stages.mpr ⟨step, hstep, rfl⟩

theorem stage_of_mem_arranged {stage : Int} {step : Step σ}
    (h : step ∈ arranged setup.needs (setup.steps.filter fun step => step.stage = stage)) : step.stage = stage := by
  have hmem := (arranged_perm _).mem_iff.mp h
  simpa using (List.mem_filter.mp hmem).2

theorem ordered_stages : setup.ordered.Pairwise fun a b => a.stage ≤ b.stage := by
  rw [ordered, List.pairwise_flatMap]
  constructor
  · intro stage _
    refine List.Pairwise.imp_of_mem (fun ha hb _ => ?_) (List.pairwise_of_forall (R := fun _ _ => True) fun _ _ => trivial)
    rw [stage_of_mem_arranged ha, stage_of_mem_arranged hb]
  · refine (sortBy_pairwise _ _).imp fun hle a ha b hb => ?_
    rwa [stage_of_mem_arranged ha, stage_of_mem_arranged hb]

/-- The steps of one stage. -/
theorem filter_ordered {stage : Int} (h : stage ∈ setup.stages) :
    (setup.ordered.filter fun step => step.stage = stage) =
      arranged setup.needs (setup.steps.filter fun step => step.stage = stage) := by
  have hall : ∀ stages : List Int, stages.Nodup → stage ∈ stages →
      ((stages.flatMap fun stage => arranged setup.needs (setup.steps.filter fun step => step.stage = stage)).filter
        fun step => step.stage = stage) = arranged setup.needs (setup.steps.filter fun step => step.stage = stage) := by
    intro stages hnodup hmem
    obtain ⟨before, after, rfl⟩ := List.append_of_mem hmem
    have hother : ∀ rest : List Int, stage ∉ rest →
        ((rest.flatMap fun stage => arranged setup.needs (setup.steps.filter fun step => step.stage = stage)).filter
          fun step => step.stage = stage) = [] := by
      intro rest hnot
      refine List.filter_eq_nil_iff.mpr fun step hstep => ?_
      obtain ⟨other, hrest, hin⟩ := List.mem_flatMap.mp hstep
      rw [decide_eq_true_iff, stage_of_mem_arranged hin]
      rintro rfl
      exact hnot hrest
    rw [List.nodup_append, List.nodup_cons] at hnodup
    have hbefore : stage ∉ before := fun hin => hnodup.2.2 stage hin stage List.mem_cons_self rfl
    rw [List.flatMap_append, List.flatMap_cons, List.filter_append, List.filter_append, hother before hbefore,
      hother after hnodup.2.1.1, List.nil_append, List.append_nil]
    refine List.filter_eq_self.mpr fun step hstep => ?_
    simpa using stage_of_mem_arranged hstep
  exact hall setup.stages nodup_stages h

/-- A step of the same stage that was registered earlier. -/
def Earlier (setup : Setup σ) (a b : Step σ) : Prop :=
  (setup.steps.map Step.id).idxOf a.id < (setup.steps.map Step.id).idxOf b.id

theorem pairwise_earlier : setup.steps.Pairwise setup.Earlier := by
  have hnodup : (setup.steps.map Step.id).Nodup := nodup_ids
  have hids := List.pairwise_map.mp (List.nodup_iff_pairwise_ne.mp hnodup)
  rw [List.pairwise_iff_getElem] at hids ⊢
  intro i j hi hj hij
  have hindex : ∀ k (hk : k < setup.steps.length), (setup.steps.map Step.id).idxOf setup.steps[k].id = k := by
    intro k hk
    have hk' : k < (setup.steps.map Step.id).length := by simpa using hk
    have hget : (setup.steps.map Step.id)[k] = setup.steps[k].id := by simp
    rw [← hget, nodup_ids.idxOf_getElem]
  rw [Earlier, hindex i hi, hindex j hj]
  exact hij

/-- Same-stage steps that wait for each other. -/
def Waits (setup : Setup σ) (l : List (Step σ)) (a b : Step σ) : Prop :=
  a ∈ l ∧ b ∈ l ∧ a.stage = b.stage ∧ setup.needs a b = true

/-- The engine takes every step once and the stages in their order. Within a stage a step stands in front of one it
waits for only where the steps from there on wait in a circle, and in front of one registered earlier only where that
one waits for a step which is not in front either. -/
theorem ordered_spec : setup.ordered.Perm setup.steps ∧ (setup.ordered.Pairwise fun a b => a.stage ≤ b.stage) ∧
    ∀ before a after, setup.ordered = before ++ a :: after →
      (∀ b ∈ after, b.stage = a.stage → setup.needs a b = true →
        ∃ c ∈ a :: after, Relation.TransGen (setup.Waits (a :: after)) c c) ∧
      ∀ c ∈ after, c.stage = a.stage → setup.Earlier c a → ∃ d ∈ a :: after, setup.Waits (a :: after) c d := by
  refine ⟨ordered_perm, ordered_stages, fun before a after hordered => ?_⟩
  have hmem : a ∈ setup.steps := ordered_perm.mem_iff.mp (hordered ▸ List.mem_append_right before List.mem_cons_self)
  have hstage := filter_ordered (mem_stages.mpr ⟨a, hmem, rfl⟩)
  have hdecide : decide (a.stage = a.stage) = true := by simp
  rw [hordered, List.filter_append, List.filter_cons, if_pos hdecide] at hstage
  have hasymm : ∀ a b, setup.Earlier a b → ¬setup.Earlier b a := fun _ _ h h' => Nat.lt_asymm h h'
  obtain ⟨hblocked, hfirst⟩ :=
    arranged_next hasymm (pairwise_earlier.sublist List.filter_sublist) hstage.symm
  have hback : ∀ c ∈ a :: after.filter (fun step => step.stage = a.stage), c ∈ a :: after ∧ c.stage = a.stage := by
    intro c hc
    obtain rfl | hc := List.mem_cons.mp hc
    · exact ⟨List.mem_cons_self, rfl⟩
    · obtain ⟨hc, hsame⟩ := List.mem_filter.mp hc
      exact ⟨List.mem_cons_of_mem _ hc, of_decide_eq_true hsame⟩
  constructor
  · intro b hb hsame hneeds
    have hb' : b ∈ a :: after.filter fun step => step.stage = a.stage :=
      List.mem_cons_of_mem _ (List.mem_filter.mpr ⟨hb, decide_eq_true hsame⟩)
    obtain ⟨c, hc, hcircle⟩ := exists_circle (List.cons_ne_nil _ _) (hblocked b hb' hneeds)
    refine ⟨c, (hback c hc).1, Relation.TransGen.mono (fun x y hxy => ?_) c c hcircle⟩
    obtain ⟨hx, hxstage⟩ := hback x hxy.1
    obtain ⟨hy, hystage⟩ := hback y hxy.2.1
    exact ⟨hx, hy, hxstage.trans hystage.symm, hxy.2.2⟩
  · intro c hc hsame hearlier
    obtain ⟨d, hd, hneeds⟩ := hfirst c (List.mem_filter.mpr ⟨hc, decide_eq_true hsame⟩) hearlier
    obtain ⟨hd, hdstage⟩ := hback d hd
    exact ⟨d, hd, List.mem_cons_of_mem _ hc, hd, hsame.trans hdstage.symm, hneeds⟩

end Setup

end SwarmCloud.Install
