import CultureNodes.Engine.Complete

/-!
Human decisions and expiries. Both finish the paused approval node run and route its outcome through
the same transition an attempt takes; a ledger that has moved rolls a decision back.
-/

namespace CultureNodes.Engine

def outcomeExpired : String := "expired"

/-- The outcomes a person may select. -/
def decidableOutcomes (outcomes : List String) : List String := outcomes.filter (· ≠ outcomeExpired)

structure DecisionRequest where
  task : Nat
  outcome : String
  response : Payload := "null"
  expiry : Bool := false
deriving DecidableEq, Repr

/-- An expiry resolves the task as `expired`, without a response. -/
def DecisionRequest.expire (task : Nat) : DecisionRequest :=
  { task := task, outcome := outcomeExpired, expiry := true }

namespace DecisionRequest

variable (req : DecisionRequest) (wf : Workflow)

def guard (db : RunDb) : Except EngineError (HumanTask × NodeRun) :=
  match db.humanTasks.find? (·.id = req.task) with
  | none => .error (.notFound "human task" req.task)
  | some task =>
      if task.status ≠ .pending then .error (.taskAlreadyDecided task.id task.status)
      else
        match db.nodeRun? task.nodeRun with
        | none => .error (.notFound "node run" task.nodeRun)
        | some run =>
            if run.state.terminal then .error (.terminalNodeRun run.id run.node run.state)
            else if run.state ≠ .waitingHuman then .error (.taskNotWaiting task.id run.id run.state)
            else if db.state.terminal then .error (.terminalRun db.state)
            else .ok (task, run)

/-- A person's answer is judged against what was shown, an expiry against the whole set. -/
def checkOutcome (task : HumanTask) : Except EngineError Unit :=
  let allowed := if req.expiry then task.allowedOutcomes else decidableOutcomes task.allowedOutcomes
  if allowed.contains req.outcome then .ok ()
  else .error (.outcomeNotAllowed task.id req.outcome allowed)

def resolveTask (db : RunDb) : RunDb :=
  { db with
    humanTasks := Table.update db.humanTasks (fun task => task.id = req.task && task.status = .pending)
      (fun task => { task with status := if req.expiry then .expired else .decided }) }

def prepare (db : RunDb) (now : Nat) : Except EngineError Prepared :=
  if req.outcome = "" then
    .error (.malformed "engine: DecideHumanTask requires the decision's domain outcome")
  else
    match req.guard db with
    | .error error => .error error
    | .ok (task, run) =>
        match loadWorkflow wf run with
        | .error error => .error error
        | .ok node =>
            match req.checkOutcome task with
            | .error error => .error error
            | .ok () =>
                .ok {
                  db := req.resolveTask db
                  mover := {
                    decision := true, nodeRun := run, node := node, state := .completed
                    outcome := req.outcome, output := req.response, now := now }
                  resolution := .transition req.outcome .completed }

end DecisionRequest

/-- `DecideHumanTask` and `ExpireHumanTask`. -/
def decideHumanTask (env : Env) (wf : Workflow) (now : Nat) (db : RunDb) (req : DecisionRequest) :
    Except EngineError RunDb :=
  match req.prepare wf db now with
  | .error error => .error error
  | .ok prepared => prepared.carryOut env wf

end CultureNodes.Engine
