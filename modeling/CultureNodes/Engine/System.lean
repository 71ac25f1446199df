import CultureNodes.Engine.HumanDecision
import CultureNodes.Engine.EventRoute
import CultureNodes.Library.Fallible
import CultureNodes.Library.Transition
import CultureNodes.Store.Lifecycle

/-!
Every interleaving of the transactions on one run: completions, decisions and expiries, pickups, the
API's cancellation, and the workers' own statements on work items, timers and subscriptions. Each
takes the run's lock or is one statement, so they commit one after another; a transaction that fails
writes nothing and is no step.
-/

namespace CultureNodes.Engine

open Store (WorkAction WorkSystem)

/-- The workers' and the scheduler's statements: those the engine's own transactions make are left
out. -/
def workerStatement : WorkAction → Bool
  | .enqueue _ _ _ | .completeWork _ _ | .reap _ | .endRun _ | .cancelRun => false
  | _ => true

namespace RunDb

variable (db : RunDb)

/-- The status a node run gets when its work item is parked, resumed or parked again. -/
def markNodeRun (id : Nat) (expected : NodeRunState → Bool) (state : NodeRunState) : RunDb :=
  { db with
    nodeRuns := Table.update db.nodeRuns (fun run => run.id = id && expected run.state)
      (fun run => { run with state := state })
    journal := (db.nodeRuns.filter fun run => run.id = id && expected run.state).map
      (fun run => Entry.wrote run.id state) ++ db.journal }

/-- The node-run write that goes with a statement on a claimed item. A park does not look at the
status it replaces. -/
def markFor (action : WorkAction) (nodeRun : Nat) : RunDb :=
  match action with
  | .startAsyncWait _ _ | .startDurableWait _ _ _ | .startDurableSignalWait _ _ _ =>
      db.markNodeRun nodeRun (fun _ => true) .waitingExternal
  | .resumeWaitingWork _ _ _ => db.markNodeRun nodeRun (· = .waitingExternal) .running
  | .reparkResumedWork _ => db.markNodeRun nodeRun (· = .running) .waitingExternal
  | _ => db

/-- A ticket freeze also puts the run into waiting. -/
def freeze (action : WorkAction) : RunDb :=
  match action with
  | .parkFrozen => { db with state := .waiting }
  | _ => db

def workStatement (wf : Workflow) (action : WorkAction) : Option RunDb :=
  if !workerStatement action then none
  else
    let isCode id := (db.nodeRun? id).any fun run => wf.kind? run.node = some .code
    match (WorkSystem.mk db.work db.state.terminal).act isCode action with
    | none => none
    | some next =>
        let moved := { db with work := next.tables }
        let marked :=
          match action.guard?.bind fun claim => db.work.nodeRunOf claim.work with
          | none => moved
          | some owner => moved.markFor action owner
        some (marked.freeze action)

/-- The API's cancellation, for a run that is still at `parkedAt` where that is asked. -/
def cancelRunGuarded (parkedAt : String) (detail : String) : Option RunDb :=
  if db.state.terminal then none
  else if parkedAt ≠ "" ∧ !(db.nodeRuns.any fun run => run.node = parkedAt && !run.state.terminal) then
    none
  else
    let lost := (db.nodeRuns.filter fun run => !run.state.terminal).map NodeRun.id
    let reaped := db.cancelNodeRuns lost
    some (RunDb.retireEventRoutes
      { reaped with
        state := .cancelled
        ending := some (.cancelled detail)
        tokens := Table.update db.tokens (·.active) (fun token => { token with active := false })
        work := db.work.cancelAll })

variable {db}

/-- What a cancel that goes through leaves. -/
theorem cancelRunGuarded_eq_some {parkedAt detail : String} {next : RunDb}
    (cancelled : db.cancelRunGuarded parkedAt detail = some next) :
    RunDb.retireEventRoutes
      { db.cancelNodeRuns ((db.nodeRuns.filter fun run => !run.state.terminal).map NodeRun.id) with
        state := .cancelled
        ending := some (.cancelled detail)
        tokens := Table.update db.tokens (·.active) (fun token => { token with active := false })
        work := db.work.cancelAll } = next := by
  unfold cancelRunGuarded at cancelled
  split at cancelled
  · contradiction
  · split at cancelled
    · contradiction
    · exact Option.some.inj cancelled

end RunDb

inductive Action where
  | complete (req : CompletionRequest) (now : Nat)
  | decide (req : DecisionRequest) (now : Nat)
  | pickUp (route : Nat) (event : PickupEvent) (now : Nat)
  | cancel (parkedAt : String) (detail : String)
  | work (action : WorkAction)
deriving DecidableEq, Repr

section

variable (env : Env) (wf : Workflow)

/-- What a completion or a decision is about to carry out. -/
def Action.prepare (db : RunDb) : Action → Option Prepared
  | .complete req now => (req.prepare env wf db now).toOption
  | .decide req now => (req.prepare wf db now).toOption
  | _ => none

/-- A delivery offers an event to the active routes that name it. -/
def pickUpRoute (db : RunDb) (route : Nat) (event : PickupEvent) (now : Nat) : Option RunDb :=
  match db.eventRoutes.find? (fun row => row.id = route && row.active && row.eventName = event.name) with
  | none => none
  | some row => (pickUpEvent env wf now db row event).toOption

def RunDb.act (db : RunDb) : Action → Option RunDb
  | .complete req now => (completeAttempt env wf now db req).toOption
  | .decide req now => (decideHumanTask env wf now db req).toOption
  | .pickUp route event now => pickUpRoute env wf db route event now
  | .cancel parkedAt detail => db.cancelRunGuarded parkedAt detail
  | .work action => db.workStatement wf action

def RunDb.step (db : RunDb) (action : Action) (next : RunDb) : Prop := db.act env wf action = some next

/-- The states of a run, from its creation on, by steps that all meet `allowed`. -/
def Reaches (allowed : RunDb → Action → Prop) (db : RunDb) : Prop :=
  ∃ input now created, createRun env wf input now = .ok created ∧
    Steps (RunDb.step env wf) allowed created db

/-- A new run, taken through a list of actions that each pass a check. -/
def replay (check : RunDb → Action → Bool) (actions : List Action) : Option RunDb :=
  (createRun env wf "null" 0).toOption.bind fun created =>
    Steps.ofList (fun db action => db.act env wf action) check created actions

variable {env wf}

theorem completeAttempt_ok {req : CompletionRequest} {now : Nat} {db next : RunDb}
    (done : completeAttempt env wf now db req = .ok next) :
    ∃ prepared, req.prepare env wf db now = .ok prepared ∧ prepared.carryOut env wf = .ok next := by
  unfold completeAttempt at done
  split at done
  · contradiction
  · exact ⟨_, ‹_›, done⟩

theorem decideHumanTask_ok {req : DecisionRequest} {now : Nat} {db next : RunDb}
    (done : decideHumanTask env wf now db req = .ok next) :
    ∃ prepared, req.prepare wf db now = .ok prepared ∧ prepared.carryOut env wf = .ok next := by
  unfold decideHumanTask at done
  split at done
  · contradiction
  · exact ⟨_, ‹_›, done⟩

theorem Reaches.of_replay {allowed : RunDb → Action → Prop} {check : RunDb → Action → Bool}
    {actions : List Action} {db : RunDb}
    (sound : ∀ db action, check db action = true → allowed db action)
    (ran : replay env wf check actions = some db) : Reaches env wf allowed db := by
  obtain ⟨created, made, onward⟩ := Option.bind_eq_some_iff.mp ran
  exact ⟨"null", 0, created, toOption_some made, Steps.of_ofList sound onward⟩

end

/-- Guards hold, contracts are met, deltas are accepted and bindings resolve. -/
def Env.permissive : Env where
  evaluateGuard _ _ _ _ := .ok true
  evaluatePickupGuard _ _ _ := .ok true
  validateInput _ := .ok ()
  validateOutcome _ _ _ := .ok ()
  validateOutput _ := .ok ()
  prepareDelta _ _ _ _ := none
  resolveBinding _ _ := .ok "null"

/-- A worker claims an item for the first time and reports that its node run succeeded. -/
def succeed (work : Nat) (outcome : String) : List Action :=
  [.work (.claim work "worker" true 0 1),
    .complete ⟨⟨work, "worker", 1, 1⟩, .succeeded, outcome, "", "", .unknown, "null"⟩ 0]

end CultureNodes.Engine
