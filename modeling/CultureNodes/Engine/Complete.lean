import CultureNodes.Engine.Parallel
import Mathlib.Algebra.Group.Int.Defs

/-!
The transition transaction: one attempt's report, or one human decision, becomes committed state or
nothing happens. Its writes to the ledger, its audit events and the subject queue it drains when it
ends the run touch no row of this run.
-/

namespace CultureNodes.Engine

open Compiler (quoted)

inductive TimeoutOrigin where
  | unknown
  | actor
  | deadline
deriving DecidableEq, Repr

structure CompletionRequest where
  claim : Store.Claim
  status : TechStatus
  outcome : String := ""
  refusalOutcome : String := ""
  retryRefusal : String := ""
  timeoutOrigin : TimeoutOrigin := .unknown
  output : Payload := "null"
deriving DecidableEq, Repr

/-- A delivered fact as a pickup sees it. -/
structure PickupEvent where
  id : String
  name : String
  emitter : String := ""
  payload : Payload := "null"
deriving DecidableEq, Repr

/-- What the engine asks of other packages: expression and schema evaluation, the ledger's judgement
of a proposed delta, and pointer resolution. Each answers from what it is given. -/
structure Env where
  evaluateGuard : Edge → Payload → Payload → String → Except String Bool
  evaluatePickupGuard : Edge → Payload → PickupEvent → Except String Bool
  validateInput : Payload → Except String Unit
  validateOutcome : Node → String → Payload → Except String Unit
  validateOutput : Payload → Except String Unit
  prepareDelta : Node → RunDb → NodeRun → CompletionRequest → Option String
  resolveBinding : RunDb → String → Except String Payload
  retryBase : Int := 0
  retryMax : Int := 0

/-- What the recorded status and the workflow decide about the node run that was attempted. -/
inductive Resolution where
  | transition (outcome : String) (state : NodeRunState)
  | cancel
  | retry (availableAt : Nat)
  | fail (failure : Failure)
deriving DecidableEq, Repr

/-- A transition ready to be carried out: the rows so far, the node run that moves and what is to
happen to it. -/
structure Prepared where
  db : RunDb
  mover : Mover
  resolution : Resolution
deriving DecidableEq, Repr

namespace CompletionRequest

variable (req : CompletionRequest)

def validate : Except EngineError Unit :=
  if req.claim.worker = "" then .error (.malformed "engine: CompleteAttempt requires a worker id")
  else if req.status = .succeeded ∧ req.outcome = "" then
    .error (.malformed
      "engine: CompleteAttempt: a succeeded attempt must name the domain outcome it produced")
  else if req.status = .succeeded ∧ req.refusalOutcome ≠ "" then
    .error (.malformed ("engine: CompleteAttempt: refusal outcome " ++ quoted req.refusalOutcome ++
      " on a succeeded attempt; a refusal is the control plane declining to dispatch, " ++
      "and a succeeded attempt was dispatched"))
  else .ok ()

/-- The veto over a retry the node's budget would allow; the empty string allows it. -/
def retryRefusedBy (status : TechStatus) : String :=
  if req.retryRefusal ≠ "" then req.retryRefusal
  else if status ≠ .timedOut then ""
  else
    match req.timeoutOrigin with
    | .actor => ""
    | .deadline =>
        "the deadline expired against a session the control plane has asked to stop but has not observed stop"
    | .unknown =>
        "the timeout names no origin, so whether the previous session stopped cannot be determined"

end CompletionRequest

/-- The delay before the attempt numbered `next`, in the 64-bit arithmetic of a duration. -/
def backoff (env : Env) (policy : RetryPolicy) (next : Nat) : Int :=
  let delay : Int :=
    match policy.backoff with
    | .none => 0
    | .fixed => env.retryBase
    | .linear => (env.retryBase * (max next 2 - 1 : Nat)).bmod (2 ^ 64)
    | .exponential => (env.retryBase * 2 ^ (max next 2 - 2)).bmod (2 ^ 64)
  if policy.backoff ≠ .none ∧ 0 < env.retryMax ∧ env.retryMax < delay then env.retryMax else delay

namespace Mover

variable (mover : Mover) (env : Env) (wf : Workflow)

/-- Fail the run: everything else still live is reaped in the same transaction. -/
def failRun (db : RunDb) (failure : Failure) : RunDb :=
  let finished := db.finishNodeRun mover.nodeRun mover.state mover.outcome
  (finished.reapRunState mover.nodeRun.id).updateRunState .failed none (.failed failure)

/-- Stop the run at a bound. The node run that moved is finished already. -/
def failBound (db : RunDb) (bound : BoundExceeded) (transitions : Nat) : RunDb :=
  (db.reapRunState mover.nodeRun.id).updateRunState .failed none (.bounded bound transitions)

/-- The end node's output binding, resolved and checked. -/
def resolveRunOutput (db : RunDb) (endNode : String) : Except String Payload :=
  let binding := ((wf.node? endNode).map Node.outputFrom).getD ""
  if binding = "" then .ok "null"
  else
    match env.resolveBinding db binding with
    | .error reason =>
        .error ("end node " ++ quoted endNode ++ " binds " ++ binding ++ ", which did not resolve: " ++
          reason)
    | .ok output =>
        match env.validateOutput output with
        | .error reason =>
            .error ("end node " ++ quoted endNode ++
              " produced a result that violates the workflow output contract: " ++ reason)
        | .ok () => .ok output

def completeRun (db : RunDb) (endNode : String) : RunDb :=
  if 0 < db.activeTokenCount then mover.failRun db (.siblings endNode db.activeTokenCount)
  else
    match resolveRunOutput env wf db endNode with
    | .error detail => mover.failRun db (.output detail)
    | .ok output => db.retireEventRoutes.updateRunState .completed (some output) (.completed endNode)

/-- The group the moved token continues in. A completed join hands its token to the enclosing group;
a decision keeps the group as it is. -/
def nextGroup (db : RunDb) : Except Halt (Option Nat) :=
  match db.token? mover.nodeRun.token with
  | none => .error (.abort (.notFound "token" mover.nodeRun.token))
  | some token =>
      if mover.decision = false ∧ mover.node.kind = .join then
        match token.group with
        | none => .ok none
        | some group =>
            match db.tokenGroup? group with
            | none => .error (.abort (.notFound "token group" group))
            | some row => .ok row.parent
      else .ok token.group

/-- A completed parallel node whose plan leaves its split outcome fans out; a decision never does. -/
def fansOut (target : Edge) : Bool :=
  !mover.decision && mover.node.kind = .parallel && target.fromOutcome = outcomeSplit

def follow (db : RunDb) (place : Option Nat) (target : Edge) : Except Halt RunDb :=
  match wf.node? target.target with
  | none => .error (.abort (undeclaredTarget target))
  | some next =>
      if next.kind = .join then mover.arriveAtJoin db next place target
      else if next.kind = .endNode then
        .ok (mover.completeRun env wf (db.reachEnd next (some mover.nodeRun.token) place) next.id)
      else .ok (db.startNode next (some mover.nodeRun.token) place none mover.now)

def advance (db : RunDb) (targets : List Edge) : Except Halt RunDb :=
  match targets with
  | [] => .ok db
  | target :: _ =>
      match mover.nextGroup db with
      | .error halt => .error halt
      | .ok place =>
          if mover.fansOut target then mover.fanOut wf db place targets
          else mover.follow env wf db place target

end Mover

namespace Prepared

variable (prepared : Prepared) (env : Env) (wf : Workflow)

/-- What edge selection reads for a transition. Only a split of an attempt reads the active tokens. -/
def input (outcome : String) : TransitionInput where
  workflow := wf
  node := prepared.mover.nodeRun.node
  outcome := outcome
  guard edge := env.evaluateGuard edge prepared.db.input prepared.mover.output outcome
  transitions := prepared.db.transitionCount
  visits := prepared.db.nodeVisits
  elapsed := prepared.mover.now - prepared.db.createdAt
  activeTokens :=
    if prepared.mover.decision = false ∧ splits prepared.mover.node outcome then
      prepared.db.activeTokenCount
    else 0

/-- The node run is finished whatever the plan is; then the plan is carried out. -/
def transition (outcome : String) (state : NodeRunState) : Except EngineError RunDb :=
  let finished := prepared.db.finishNodeRun prepared.mover.nodeRun state outcome
  match planTransition (prepared.input env wf outcome) with
  | .stop bound =>
      .ok (prepared.mover.failBound finished bound prepared.db.transitionCount)
  | .complete => .ok (prepared.mover.completeRun env wf finished prepared.mover.nodeRun.node)
  | .refuse diagnostic => .ok (prepared.mover.failRun finished (.noTarget diagnostic))
  | .follow targets =>
      match prepared.mover.advance env wf finished targets with
      | .ok advanced => .ok advanced
      | .error (.refuse reached failure) => .ok (prepared.mover.failRun reached failure)
      | .error (.abort error) => .error error

def cancel : RunDb :=
  let finished := prepared.db.finishNodeRun prepared.mover.nodeRun .cancelled ""
  (finished.reapRunState prepared.mover.nodeRun.id).updateRunState .cancelled none
    (.cancelled "the attempt reported technical status cancelled")

/-- The same node run is attempted again. -/
def scheduleRetry (availableAt : Nat) : RunDb :=
  (prepared.db.enqueueWork prepared.mover.nodeRun.id availableAt).updateNodeRun
    prepared.mover.nodeRun.id .ready ""

def carryOut : Except EngineError RunDb :=
  match prepared.resolution with
  | .transition outcome state => prepared.transition env wf outcome state
  | .cancel => .ok prepared.cancel
  | .retry availableAt => .ok (prepared.scheduleRetry availableAt)
  | .fail failure => .ok (prepared.mover.failRun prepared.db failure)

end Prepared

def loadWorkflow (wf : Workflow) (run : NodeRun) : Except EngineError Node :=
  match wf.node? run.node with
  | none =>
      .error (.workflow ("node run " ++ toString run.id ++ " names node " ++ quoted run.node ++
        ", which the pinned definition does not declare"))
  | some node => .ok node

namespace CompletionRequest

variable (req : CompletionRequest) (env : Env) (wf : Workflow)

/-- Verify the fencing tuple and the current state; the work item is completed. -/
def guard (db : RunDb) : Except EngineError (RunDb × NodeRun) :=
  match db.work.nodeRunOf req.claim.work with
  | none => .error (.notFound "work item" req.claim.work)
  | some owner =>
      match db.work.completeWork req.claim with
      | none => .error (.staleClaim req.claim.work)
      | some work =>
          match db.nodeRun? owner with
          | none => .error (.notFound "node run" owner)
          | some run =>
              if run.state.terminal then .error (.terminalNodeRun run.id run.node run.state)
              else if db.state.terminal then .error (.terminalRun db.state)
              else .ok ({ db with work := work }, run)

/-- Why a succeeded attempt's output is refused. -/
def checkOutput (node : Node) : Option String :=
  if !node.declaresOutcome req.outcome then
    some ("node " ++ quoted node.id ++ " does not declare outcome " ++ quoted req.outcome ++
      "; it declares " ++ bracketed node.outcomes)
  else
    match env.validateOutcome node req.outcome req.output with
    | .ok () => none
    | .error reason =>
        some ("output does not satisfy the contract of outcome " ++ quoted req.outcome ++ ": " ++ reason)

def rejection (node : Node) (db : RunDb) (run : NodeRun) : Option String :=
  (if req.status = .succeeded then req.checkOutput env node else none).or
    (env.prepareDelta node db run req)

/-- A technical failure: a refusal routes under its own name, then the retry budget is consulted,
then an edge from the status. -/
def failOrRetry (node : Node) (status : TechStatus) (number now : Nat)
    (rejected : Option String) : Resolution :=
  let budget := status.retryable && number < node.retry.maxAttempts
  let refusal := if budget then req.retryRefusedBy status else ""
  if req.refusalOutcome ≠ "" then
    if wf.hasEdgeFrom node.id req.refusalOutcome then .transition req.refusalOutcome .failed
    else .fail (.refused node.id status req.refusalOutcome)
  else if budget ∧ refusal = "" then .retry (now + backoff env node.retry (number + 1)).toNat
  else if wf.hasEdgeFrom node.id status.text then .transition status.text .failed
  else .fail (.unrouted node.id number status refusal rejected)

def resolve (node : Node) (status : TechStatus) (number now : Nat) (rejected : Option String) :
    Resolution :=
  match status with
  | .succeeded => .transition req.outcome .completed
  | .cancelled => .cancel
  | _ => req.failOrRetry env wf node status number now rejected

def endState (status : TechStatus) : NodeRunState :=
  match status with
  | .succeeded => .completed
  | .cancelled => .cancelled
  | _ => .failed

def prepare (db : RunDb) (now : Nat) : Except EngineError Prepared :=
  match req.validate with
  | .error error => .error error
  | .ok () =>
      match req.guard db with
      | .error error => .error error
      | .ok (held, run) =>
          match loadWorkflow wf run with
          | .error error => .error error
          | .ok node =>
              let rejected := req.rejection env node held run
              let status := if rejected.isSome then .contractRejected else req.status
              let number := held.nextAttemptNumber run.id
              .ok {
                db := held.insertAttempt run.id number status
                mover := {
                  decision := false, nodeRun := run, node := node, state := endState status
                  outcome := if status = .succeeded then req.outcome else ""
                  output := req.output, now := now }
                resolution := req.resolve env wf node status number now rejected }

end CompletionRequest

/-- `CompleteAttempt`: an error rolls the transaction back. -/
def completeAttempt (env : Env) (wf : Workflow) (now : Nat) (db : RunDb) (req : CompletionRequest) :
    Except EngineError RunDb :=
  match req.prepare env wf db now with
  | .error error => .error error
  | .ok prepared => prepared.carryOut env wf

end CultureNodes.Engine
