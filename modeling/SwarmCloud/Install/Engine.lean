import SwarmCloud.Install.Steps
import SwarmCloud.Lib.Triples

/-! # The install engine

`swarm_install/engine.py` and `wait_until`: the loop over the steps, what is recorded
of each, and the lease around it. What the steps, the store and the lease come to is
anything, exceptions included; the engine is judged by what it does and when.
-/

namespace SwarmCloud.Install

open Common Lib

/-! ## Timed passes -/

def truthy : Option Value → Bool
  | none | some .null | some (.bool false) | some (.num 0) | some (.text "") | some (.items []) | some (.dict []) => false
  | _ => true

def entriesOf : Option Value → Dict String Value
  | some (.dict items) => items
  | _ => []

def timedPasses : Dict String (List String) :=
  [("sign_in_pass", ["handoff.sign-in-bootstrap", "handoff.sign-in-infra"]), ("infra_pass_3", ["github.pass-3"])]

def passOf (stepId : String) : Option (String × List String) := timedPasses.find? fun item => stepId ∈ item.2

def passStarted (times : Dict String Value) (stepId : String) (now : Instant) : Option (Dict String Value) :=
  match passOf stepId with
  | none => none
  | some (name, steps) =>
    let current := entriesOf (times.lookup name)
    let running := truthy (current.lookup "started_at") && (current.lookup "ended_at").isNone
    if running && steps.head? ≠ some stepId then none else some (times.set name (.dict [("started_at", .num now)]))

def stateText : StepState → String
  | .done => "done"
  | .drift => "drift"
  | .failed => "failed"
  | .paused => "paused"

def passEnded (times : Dict String Value) (stepId : String) (state : StepState) (now : Instant) :
    Option (Dict String Value) :=
  match passOf stepId with
  | none => none
  | some (name, steps) =>
    let current := entriesOf (times.lookup name)
    match current.lookup "started_at" with
    | none => none
    | some started =>
      if !truthy (some started) || (current.lookup "ended_at").isSome then none
      else if state = .done ∧ steps.getLast? ≠ some stepId then none
      else some (times.set name (.dict
        [("started_at", started), ("ended_at", .num now), ("result", .text (stateText state))]))

/-- `PASS_TIMES` -/
def passTimes : String := "pass_times"

def updated (outputs items : Dict String Value) : Dict String Value := items.foldl (fun d item => d.set item.1 item.2) outputs

/-- What `_record` changes in the state. -/
def recordChange (stepId : String) (entry : StepRecord) (s : InstallState) : InstallState :=
  let outputs := updated s.outputs entry.outputs
  let ended := if entry.state = .drift then none else
    passEnded (entriesOf (outputs.lookup passTimes)) stepId entry.state entry.at_
  { s with
    steps := s.steps.set stepId entry
    outputs := ended.elim outputs fun times => outputs.set passTimes (.dict times) }

/-- What `_pass_starts` changes in the state. -/
def startChange (stepId : String) (now : Instant) (s : InstallState) : InstallState :=
  match passStarted (entriesOf (s.outputs.lookup passTimes)) stepId now with
  | none => s
  | some times => { s with outputs := s.outputs.set passTimes (.dict times) }

/-! ## The engine -/

/-- What the engine did, and what it saw. -/
inductive Event
  | acquired
  | renewed
  /-- `lease.release` is called. -/
  | released
  /-- `lease.release` came back. -/
  | freed
  | checked (step : StepHeader) (status : Status)
  | verified (step : StepHeader) (status : Status)
  /-- The check could not run. -/
  | unrunnable (step : StepHeader)
  | marked (step : StepHeader) (met : Bool)
  /-- The steps the state records as done, when the dependencies are looked at. -/
  | weighed (step : StepHeader) (done : List String)
  | planned (step : StepHeader)
  /-- A timed pass is written down. -/
  | timed (step : StepHeader)
  | applied (step : StepHeader)
  | recorded (step : StepHeader) (state : StepState)

/-- The store, the lease and the clock. -/
structure Services (σ : Type) where
  holder : String
  /-- `ctx.state` -/
  state : σ → InstallState
  now : σ → Instant
  sleep : Instant → σ → σ
  digest : Plan → String
  load : Call σ Unit
  /-- `store.update` and the mirror. -/
  save : (InstallState → InstallState) → Call σ Unit
  acquire : Call σ Unit
  renew : Call σ Unit
  heartbeatDue : σ → Bool
  mirror : Call σ Unit
  /-- The beats of an apply that has returned: they may have lost the lease. -/
  beaten : Call σ Unit
  release : Call σ Unit

structure Engine (σ : Type) where
  world : σ
  met : List String := []
  stepMet : Dict String Bool := []
  unknownInDryRun : Bool := false
  events : List Event := []

abbrev Engining (σ : Type) := EStateM Exc (Engine σ)

namespace Exc

/-- The type's name and the text. -/
def describe : Exc → String
  | .stop _ _ message => "_Stop: " ++ message
  | .waitGaveUp message => "WaitGaveUp: " ++ message
  | .checkFailed detail => "CheckFailed: " ++ detail
  | .leaseHeld message => "LeaseHeld: " ++ message
  | .leaseRefused message => "LeaseRefused: " ++ message
  | .leaseLost message => "LeaseLost: " ++ message
  | .stateConflict message => "StateConflict: " ++ message
  | .recordConflict message => "RecordConflict: " ++ message
  | .other name text => name ++ ": " ++ text

end Exc

def statusText : Status → String
  | .met => "met"
  | .unmet => "unmet"
  | .unknown => "unknown"
  | .waiting => "waiting"

section Loop

variable {σ α : Type}

def call (f : Call σ α) : Engining σ α := fun e =>
  match f e.world with
  | (.ok a, world) => .ok a { e with world }
  | (.error exc, world) => .error exc { e with world }

def note (event : Event) : Engining σ PUnit := modify fun e => { e with events := e.events ++ [event] }

/-- `_poll`: only a definite failure is raised on. -/
def poll (what : Call σ Observation) : Engining σ Observation := fun e =>
  match what e.world with
  | (.ok seen, world) => .ok seen { e with world }
  | (.error (.checkFailed detail), world) => .error (.checkFailed detail) { e with world }
  | (.error exc, world) => .ok ⟨.unknown, exc.describe, []⟩ { e with world }

/-- `_observe` -/
def observe (what : Call σ Observation) : Engining σ Observation :=
  tryCatch (poll what) fun
    | .checkFailed detail => return ⟨.unmet, detail, []⟩
    | exc => throw exc

def check (step : Step σ) : Engining σ Observation := do
  let seen ← observe step.calls.check
  note (.checked step.header seen.status)
  return seen

variable (services : Services σ) (setup : Setup σ)

def record (step : Step σ) (state : StepState) (plan : Option Plan) (outputs : Dict String Value) (detail : Option String) :
    Engining σ PUnit :=
  if setup.dryRun then return
  else do
    let e ← get
    note (.recorded step.header state)
    call (services.save (recordChange step.id
      ⟨state, services.now e.world, services.holder, plan.map services.digest, outputs, detail⟩))

def passStarts (step : Step σ) : Engining σ PUnit := do
  let e ← get
  let now := services.now e.world
  if setup.dryRun ∨
      passStarted (entriesOf ((services.state e.world).outputs.lookup passTimes)) step.id now = none then return
  else do
    note (.timed step.header)
    call (services.save (startChange step.id now))

def mark (step : Step σ) (met : Bool) : Engining σ PUnit :=
  modify fun e => { e with
    stepMet := e.stepMet.set step.id met
    met := if met then e.met ++ step.header.satisfies else e.met
    events := e.events ++ [Event.marked step.header met] }

def failed (step : Step σ) (why : String) : Exc :=
  .stop .failed step.id ("step " ++ step.id ++ " failed: " ++ why ++ ". " ++ step.header.explain ++
    " Fix it, then run swarm install again.")

def verify (step : Step σ) (plan : Option Plan) (outputs : Dict String Value) : Engining σ PUnit := do
  let seen ← observe step.calls.verify
  note (.verified step.header seen.status)
  if seen.status = .met then do
    record services setup step .done plan (updated outputs seen.outputs) none
    mark step true
  else do
    record services setup step .failed plan [] (some seen.detail)
    throw (failed step ("verify is " ++ statusText seen.status ++ ": " ++ seen.detail))

def heartbeat : Engining σ PUnit := do
  let e ← get
  if setup.dryRun ∨ services.heartbeatDue e.world = false then return
  else do
    call services.renew
    note .renewed
    call services.mirror

/-! ### Dependencies -/

/-- `_owning_step_done` -/
def owningStepDone (e : Engine σ) (dep : String) : Bool :=
  match setup.manifest.lookup dep with
  | none => false
  | some entry =>
    if entry.step = "" then false
    else (e.stepMet.lookup entry.step).getD ((services.state e.world).done entry.step)

def unmetDependencies (step : StepHeader) (e : Engine σ) : List String :=
  (setup.needed step).foldl (fun needed dep =>
    if dep ∈ e.met ∨ dep ∈ needed ∨ owningStepDone services setup e dep = true then needed else needed ++ [dep]) []

def refusal (dep : String) : String :=
  match setup.owner dep with
  | some owner => dep ++ " (satisfied by step " ++ owner.id ++ ", stage " ++ toString owner.stage ++ ")"
  | none =>
    match (setup.manifest.lookup dep).bind fun entry => (setup.stageOf entry.step).map fun stage => (entry.step, stage) with
    | some (id, stage) => dep ++ " (made by step " ++ id ++ ", stage " ++ toString stage ++ ")"
    | none => dep ++ " (no step in this release satisfies it)"

def refuseFor (step : Step σ) (unmet : List String) : Exc :=
  .stop .blocked step.id ("stage " ++ toString step.stage ++ " refuses: step " ++ step.id ++ " needs " ++
    ", ".intercalate (unmet.map (refusal setup)) ++ ", which is not met. Run swarm install from the earlier stage.")

def doneSteps (state : InstallState) : List String :=
  (state.steps.filter fun item => item.2.state = .done).map Prod.fst

/-- The dependencies are looked at before the plan is made. -/
def weigh (step : Step σ) : Engining σ (List String) := do
  let e ← get
  note (.weighed step.header (doneSteps (services.state e.world)))
  return unmetDependencies services setup step.header e

/-- `_plan` -/
def makePlan (step : Step σ) : Engining σ (Option Plan) := do
  note (.planned step.header)
  tryCatch (call step.calls.plan) fun exc =>
    if setup.dryRun then return some ⟨"(the plan could not be made: " ++ exc.describe ++ ")", []⟩
    else throw (failed step ("plan raised " ++ exc.describe))

/-! ### Waits -/

def humanWait : WaitSpec where
  reason := "a person finishing the step in a console"
  expected := "a few minutes"
  expectedS := seconds (5 * 60)
  boundS := seconds (30 * 60)

/-- `_status_and_detail` -/
def waitStatus (seen : Observation) : Except Exc (Status × String) :=
  if seen.status ≠ .met ∧ truthy (seen.outputs.lookup "wait_failed") then
    .error (.checkFailed (if seen.detail = "" then "its check failed" else seen.detail))
  else .ok (seen.status, seen.detail)

def gaveUp (step : Step σ) (spec : WaitSpec) (world : σ) (detail : String) : Exc :=
  .waitGaveUp (step.id ++ ": gave up waiting for " ++ spec.reason ++ " after " ++ toString (spec.boundS / seconds 1) ++
    " s." ++ (if detail = "" then "" else " Its last check said: " ++ detail ++ ".") ++ " Look at: " ++
    step.calls.lookAt world ++ ". Run swarm install again to resume.")

/-- The polls of a wait, as many as are left to look at; `onPoll` goes by what the polls before have done. -/
def waitUntil (step : Step σ) (spec : WaitSpec) (deadline : Instant) (onPoll : List String → Engining σ (List String)) :
    Nat → List String → Engining σ PUnit
  | 0, _ => throw (.other "still waiting" step.id)
  | left + 1, done => do
    let done ← onPoll done
    let seen ← poll step.calls.check
    note (.checked step.header seen.status)
    match waitStatus seen with
    | .error exc => throw exc
    | .ok (status, detail) => do
      let e ← get
      let now := services.now e.world
      if status = .met then return
      else if deadline ≤ now then throw (gaveUp step spec e.world detail)
      else do
        modify fun e => { e with world := services.sleep (min spec.intervalS (deadline - now)) e.world }
        waitUntil step spec deadline onPoll left done

/-- `_paused` -/
def paused (step : Step σ) (plan : Plan) (message : String) : Engining σ PUnit := do
  record services setup step .paused (some plan) [] (some message)
  throw (.stop .paused step.id message)

/-! ### One step -/

/-- Where the plan of a dry run ends. -/
def applyDry (step : Step σ) (unmet : List String) (plan : Option Plan) : Engining σ PUnit :=
  match plan with
  | none => return
  | some plan =>
    if step.stage = 0 ∧ step.header.readOnly = true ∧ unmet = [] then do
      note (.applied step.header)
      tryCatch (call (step.calls.apply plan)) fun exc => throw (failed step ("apply raised " ++ exc.describe))
      let seen ← check step
      if seen.status = .met then mark step true else return
    else return

def applyStep (step : Step σ) (plan : Plan) : Engining σ PUnit := do
  note (.applied step.header)
  tryCatch
    (do
      call (step.calls.apply plan)
      call services.beaten)
    fun
      | .stop stopped id message => throw (.stop stopped id message)
      | .waitGaveUp message => paused services setup step plan message
      | .leaseLost message => throw (.leaseLost message)
      | exc => do
        record services setup step .failed (some plan) [] (some exc.describe)
        throw (failed step ("apply raised " ++ exc.describe))

/-- The wait of a human or a wait step. -/
def waitFor (step : Step σ) (plan : Plan) (polls : Nat) (trigger : List String → Engining σ (List String)) :
    Engining σ PUnit := do
  let spec := step.header.wait.getD humanWait
  let e ← get
  tryCatch
    (waitUntil services step spec (services.now e.world + spec.boundS)
      (fun done => do
        heartbeat services setup
        trigger done) polls [])
    fun
      | .waitGaveUp message => paused services setup step plan message
      | .checkFailed detail => do
        record services setup step .failed (some plan) [] (some detail)
        throw (failed step detail)
      | exc => throw exc

def openPage (step : Step σ) (plan : Plan) : Engining σ PUnit :=
  if step.header.kind = .human then modify fun e => { e with world := step.calls.openPage plan e.world } else return

def finishStep (step : Step σ) (plan : Plan) (polls : Nat) (trigger : List String → Engining σ (List String)) :
    Engining σ PUnit := do
  openPage step plan
  if step.header.kind = .human ∨ step.header.kind = .wait then do
    waitFor services setup step plan polls trigger
    let seen ← check step
    verify services setup step (some plan) seen.outputs
  else do
    let seen ← check step
    if seen.status = .met then verify services setup step (some plan) seen.outputs
    else do
      record services setup step .failed (some plan) [] (some seen.detail)
      throw (failed step ("after apply its check is " ++ statusText seen.status ++ ": " ++ seen.detail))

/-- A step that is not met. -/
def engage (step : Step σ) (polls : Nat) (trigger : List String → Engining σ (List String)) : Engining σ PUnit := do
  mark step false
  let unmet ← weigh services setup step
  let plan ← makePlan setup step
  if setup.dryRun then applyDry step unmet plan
  else if unmet ≠ [] then throw (refuseFor setup step unmet)
  else
    match plan with
    | none => throw (failed step "its plan could not be made")
    | some plan => do
      call services.renew
      note .renewed
      passStarts services setup step
      applyStep services setup step plan
      finishStep services setup step plan polls trigger

def cannotRun (step : Step σ) (detail : String) : Exc :=
  .stop .unknown step.id ("step " ++ step.id ++ "'s check could not run: " ++ detail ++
    ". Nothing was applied; fix access, then run swarm install again.")

def drifted (step : Step σ) (wasDone : Bool) (detail : String) : Engining σ PUnit :=
  if wasDone then record services setup step .drift none [] (some detail) else return

/-- `run_step`, whose wait runs `trigger` on every poll. -/
def runStepWith (step : Step σ) (polls : Nat) (trigger : List String → Engining σ (List String)) : Engining σ PUnit := do
  let seen ← check step
  let e ← get
  let wasDone := (services.state e.world).done step.id
  if seen.status = .met then
    if wasDone ∨ setup.dryRun then mark step true
    else verify services setup step none seen.outputs
  else do
    drifted services setup step wasDone seen.detail
    if seen.status = .unknown ∧ step.header.kind ≠ .wait then
      if setup.dryRun then do
        modify fun e => { e with unknownInDryRun := true, events := e.events ++ [Event.unrunnable step.header] }
        engage services setup step polls trigger
      else throw (cannotRun step seen.detail)
    else engage services setup step polls trigger

/-- `_trigger_landed` -/
def triggerLanded (step : Step σ) : Engining σ Bool := tryCatch (call step.calls.trigger) fun _ => return false

/-- A triggered step that the state records as done and that is met has nothing to run. -/
def alreadyMet (step : Step σ) : Engining σ Bool := do
  let e ← get
  if (services.state e.world).done step.id then do
    let seen ← check step
    if seen.status = .met then do
      mark step true
      return true
    else return false
  else return false

variable (polls : Nat)

mutual

def runStep : Step σ → Engining σ PUnit
  | .mk header calls triggered =>
    runStepWith services setup (.mk header calls triggered) polls fun done => runTriggered triggered done

/-- `_run_triggered`: what has been run, after these too. -/
def runTriggered : List (Step σ) → List String → Engining σ (List String)
  | [], done => return done
  | step :: rest, done =>
    if step.id ∈ done then runTriggered rest done
    else do
      let already ← alreadyMet services step
      if already then runTriggered rest (done ++ [step.id])
      else do
        let landed ← triggerLanded step
        if landed then do
          runStep step
          runTriggered rest (done ++ [step.id])
        else runTriggered rest done

end

/-! ### The run -/

structure Result where
  outcome : Outcome
  step : Option String := none
  message : String := ""
deriving DecidableEq, Repr

/-- `OUTCOMES` -/
def exitCode : Outcome → Nat
  | .ok => 0
  | .failed | .blocked => 1
  | .unknown => 3
  | .paused => 4
  | .refused => 5

/-- What `run` makes of an exception; another one goes on. -/
def ending : Exc → Engining σ Result
  | .stop stopped step message => return ⟨stopped.outcome, some step, message⟩
  | .leaseHeld message => return ⟨.refused, none, message⟩
  | .leaseRefused message => return ⟨.refused, none, message⟩
  | .leaseLost message => return ⟨.failed, none, message ++ "; run swarm install again to resume"⟩
  | .stateConflict message => return ⟨.failed, none, message ++ "; run swarm install again to resume"⟩
  | .recordConflict message => return ⟨.failed, none, message ++ "; run swarm install again to resume"⟩
  | exc => throw exc

def observeOnly (step : Step σ) : Engining σ PUnit := do
  let seen ← check step
  mark step (seen.status = .met)

/-- The stages in scope, where not every one is. -/
abbrev Scope := Option (List Int)

def Scope.has (scope : Scope) (stage : Int) : Bool := scope.elim true fun stages => decide (stage ∈ stages)

def Scope.first : Scope → Int
  | some (stage :: stages) => stages.foldl min stage
  | _ => 0

def visit (scope : Scope) (step : Step σ) : Engining σ PUnit :=
  if scope.has step.stage then runStep services setup polls step
  else if step.stage < scope.first then observeOnly step
  else return

def loop (scope : Scope) : Engining σ Result := do
  setup.ordered.forM (visit services setup polls scope)
  let e ← get
  if setup.dryRun ∧ e.unknownInDryRun then
    return ⟨.unknown, none, "a check could not run; see the events above"⟩
  else return ⟨.ok, none, ""⟩

def give : Engining σ PUnit := do
  note .released
  call services.release
  note .freed

/-- The loop with the lease, which is given back however it ends. -/
def leased (scope : Scope) : Engining σ Result := do
  let result ← tryCatch (tryCatch (loop services setup polls scope) ending) fun exc => do
    give services
    throw exc
  give services
  return result

def run (scope : Scope) : Engining σ Result := do
  call services.load
  if setup.dryRun then tryCatch (loop services setup polls scope) ending
  else do
    let refused ← tryCatch
      (do
        call services.acquire
        note .acquired
        return none)
      fun exc => do
        let result ← ending exc
        return some result
    match refused with
    | some result => return result
    | none => leased services setup polls scope

end Loop

end SwarmCloud.Install
