import CultureNodes.Engine.System

/-!
The audit stream of one run: the events that each transaction appends, in its order, as functions of the rows
it finds. The events of ledger records name no node and are left out; what other packages append without
touching a row of the run is an event of another type.
-/

namespace CultureNodes.Engine

inductive EventType where
  | runCreated
  | tokenEntered
  | nodeRunReady
  | attemptStarted
  | actorAccepted
  | attemptCompleted
  | contractRejected
  | tokenTransitioned
  | runWaiting
  | runCompleted
  | nodeRunFailed
  | attemptRetryScheduled
  | attemptRetryRefused
  | attemptWaiting
  | runFailed
  | runCancelled
  | runBounded
  | humanTaskCreated
  | humanTaskDecided
  | humanTaskExpired
  | tokenSplit
  | joinArrived
  | eventPickedUp
  | eventPickupRefused
  | branchCancelled
  | other (name : String)
deriving DecidableEq, Repr

/-- An event with the fields of its data that say which nodes it is about and what became of them. A text
that the data has not got is empty. -/
structure RunEvent where
  type : EventType
  nodeID : String := ""
  visit : Option Nat := none
  actorID : String := ""
  techStatus : String := ""
  outcome : String := ""
  fromNode : String := ""
  toNode : String := ""
  endNode : String := ""
deriving DecidableEq, Repr

/-- One event for each branch that is reaped; it names the node run only. -/
def branchesCancelled (lost : List Nat) : List RunEvent :=
  lost.map fun _ => { type := .branchCancelled }

namespace RunDb

variable (db : RunDb)

def visitOf (node : String) (nodeRun : Nat) : Nat :=
  db.nodeRuns.countP fun run => run.node = node && run.id ≤ nodeRun

/-- The node runs that a reap of the run cancels. -/
def liveBut (keep : Nat) : List Nat :=
  (db.nodeRuns.filter fun run => !run.state.terminal && run.id ≠ keep).map NodeRun.id

/-- The node runs that a barrier cancels that fires early. -/
def losers (group keep : Nat) : List Nat :=
  (db.nodeRuns.filter fun run => !run.state.terminal &&
    db.tokens.any fun token => token.id = run.token && db.losing group keep token).map NodeRun.id

/-- A node run that is dispatched: there is work to claim, or a person is asked. -/
def dispatched (node : Node) (visit : Nat) : RunEvent where
  type := if node.kind = .approval then .humanTaskCreated else .nodeRunReady
  nodeID := node.id
  visit := some visit

def settleEvents (join : Node) (barrier : NodeRun) (group now : Nat) : List RunEvent :=
  match db.tokenGroup? group with
  | none => []
  | some row =>
      let count := db.joinArrivalCount barrier.id
      let threshold := (join.joinThreshold row.cardinality).1
      if (join.joinThreshold row.cardinality).2 = false then []
      else if count < threshold then []
      else
        let ready : RunEvent :=
          { type := .nodeRunReady, nodeID := join.id, visit := some (db.visitOf join.id barrier.id) }
        let claimable := (db.updateNodeRun barrier.id .ready "").enqueueWork barrier.id now
        ready :: if count < row.cardinality then branchesCancelled (claimable.losers group barrier.token) else []

end RunDb

/-- A token that follows an edge to a new node run. -/
def transitioned (fromNode : String) (edge : Edge) (next : Node) (visit : Nat) : RunEvent where
  type := .tokenTransitioned
  outcome := edge.fromOutcome
  fromNode := fromNode
  toNode := next.id
  visit := some visit

namespace Mover

variable (mover : Mover) (env : Env) (wf : Workflow)

def failRunEvents (db : RunDb) : List RunEvent :=
  let finished := db.finishNodeRun mover.nodeRun mover.state mover.outcome
  branchesCancelled (finished.liveBut mover.nodeRun.id) ++
    [{ type := .runFailed, nodeID := mover.nodeRun.node }]

def failBoundEvents (db : RunDb) : List RunEvent :=
  branchesCancelled (db.liveBut mover.nodeRun.id) ++ [{ type := .runBounded, fromNode := mover.nodeRun.node }]

def completeRunEvents (db : RunDb) (endNode : String) : List RunEvent :=
  if 0 < db.activeTokenCount then mover.failRunEvents db
  else
    match resolveRunOutput env wf db endNode with
    | .error _ => mover.failRunEvents db
    | .ok _ => [{ type := .runCompleted, endNode := endNode }]

def joinArrived (join : Node) (edge : Edge) : RunEvent where
  type := .joinArrived
  nodeID := join.id
  fromNode := mover.nodeRun.node
  outcome := edge.fromOutcome

def arriveEvents (db : RunDb) (join : Node) (group : Option Nat) (edge : Edge) : List RunEvent :=
  match mover.recordArrival db join mover.nodeRun.token group edge with
  | .error _ => []
  | .ok (recorded, barrier) =>
      mover.joinArrived join edge :: recorded.settleEvents join barrier (group.getD 0) mover.now

/-- A token that goes on to the next node, and the dispatch there. -/
def enterEvents (db : RunDb) (edge : Edge) (next : Node) : List RunEvent :=
  [transitioned mover.nodeRun.node edge next (db.nodeVisits next.id + 1),
    RunDb.dispatched next (db.nodeVisits next.id + 1)]

def spreadBranchEvents (spread : Spread) (edge : Edge) : List RunEvent :=
  match wf.node? edge.target with
  | none => []
  | some next =>
      if next.kind = .join then [mover.joinArrived next edge] else mover.enterEvents spread.db edge next

def spreadEvents (group : Nat) : Spread → List Edge → List RunEvent
  | _, [] => []
  | spread, edge :: rest =>
      match mover.spreadBranch wf group spread edge with
      | .error _ => []
      | .ok next => mover.spreadBranchEvents wf spread edge ++ spreadEvents group next rest

def settlePendingEvents (group : Nat) : RunDb → List (Node × NodeRun) → List RunEvent
  | _, [] => []
  | db, (join, barrier) :: rest =>
      match db.settleBarrier join barrier group mover.now with
      | .error _ => []
      | .ok settled => db.settleEvents join barrier group mover.now ++ settlePendingEvents group settled rest

def fanOutEvents (db : RunDb) (place : Option Nat) (targets : List Edge) : List RunEvent :=
  let opened := db.insertTokenGroup mover.nodeRun.id place targets.length
  { type := .tokenSplit, nodeID := mover.nodeRun.node } ::
    (mover.spreadEvents wf db.nextID ⟨opened, []⟩ targets ++
      match mover.spreadBranches wf db.nextID ⟨opened, []⟩ targets with
      | .error _ => []
      | .ok spread => mover.settlePendingEvents db.nextID spread.db spread.pending)

def followEvents (db : RunDb) (place : Option Nat) (target : Edge) : List RunEvent :=
  match wf.node? target.target with
  | none => []
  | some next =>
      if next.kind = .join then mover.arriveEvents db next place target
      else if next.kind = .endNode then
        transitioned mover.nodeRun.node target next (db.nodeVisits next.id + 1) ::
          mover.completeRunEvents env wf (db.reachEnd next (some mover.nodeRun.token) place) next.id
      else mover.enterEvents db target next

def advanceEvents (db : RunDb) (targets : List Edge) : List RunEvent :=
  match targets with
  | [] => []
  | target :: _ =>
      match mover.nextGroup db with
      | .error _ => []
      | .ok place =>
          if mover.fansOut target then mover.fanOutEvents wf db place targets
          else mover.followEvents env wf db place target

end Mover

namespace Prepared

variable (prepared : Prepared) (env : Env) (wf : Workflow)

def transitionEvents (outcome : String) (state : NodeRunState) : List RunEvent :=
  let finished := prepared.db.finishNodeRun prepared.mover.nodeRun state outcome
  (if state = .failed then [{ type := .nodeRunFailed, nodeID := prepared.mover.nodeRun.node }] else []) ++
    match planTransition (prepared.input env wf outcome) with
    | .stop _ => prepared.mover.failBoundEvents finished
    | .complete => prepared.mover.completeRunEvents env wf finished prepared.mover.nodeRun.node
    | .refuse _ => prepared.mover.failRunEvents finished
    | .follow targets =>
        prepared.mover.advanceEvents env wf finished targets ++
          match prepared.mover.advance env wf finished targets with
          | .error (.refuse reached _) => prepared.mover.failRunEvents reached
          | _ => []

def carryOutEvents : List RunEvent :=
  match prepared.resolution with
  | .transition outcome state => prepared.transitionEvents env wf outcome state
  | .cancel =>
      let finished := prepared.db.finishNodeRun prepared.mover.nodeRun .cancelled ""
      branchesCancelled (finished.liveBut prepared.mover.nodeRun.id) ++
        [{ type := .runCancelled, nodeID := prepared.mover.nodeRun.node }]
  | .retry _ => [{ type := .attemptRetryScheduled, nodeID := prepared.mover.nodeRun.node }]
  | .fail _ => prepared.mover.failRunEvents prepared.db

end Prepared

namespace CompletionRequest

variable (req : CompletionRequest) (env : Env) (wf : Workflow)

/-- What is said of the attempt itself, before its node run moves. -/
def attemptEvents (run : NodeRun) (status : TechStatus) (rejected : Option String) : List RunEvent :=
  { type := .attemptCompleted, nodeID := run.node, techStatus := status.text
    outcome := if status = .succeeded then req.outcome else "" } ::
    if rejected.isSome then [{ type := .contractRejected, nodeID := run.node }] else []

/-- A retry that the node's budget would pay and that is refused. -/
def refusalEvents (node : Node) (status : TechStatus) (number : Nat) : List RunEvent :=
  if req.refusalOutcome = "" ∧ status.retryable = true ∧ number < node.retry.maxAttempts ∧
      req.retryRefusedBy status ≠ "" then
    [{ type := .attemptRetryRefused, nodeID := node.id, techStatus := status.text }]
  else []

def reportEvents (db : RunDb) : List RunEvent :=
  match req.guard db with
  | .error _ => []
  | .ok (held, run) =>
      match loadWorkflow wf run with
      | .error _ => []
      | .ok node =>
          let rejected := req.rejection env node held run
          let status := if rejected.isSome then .contractRejected else req.status
          req.attemptEvents run status rejected ++ req.refusalEvents node status (held.nextAttemptNumber run.id)

end CompletionRequest

namespace DecisionRequest

def events (req : DecisionRequest) (run : NodeRun) : RunEvent where
  type := if req.expiry then .humanTaskExpired else .humanTaskDecided
  nodeID := run.node
  outcome := req.outcome

end DecisionRequest

section

variable (env : Env) (wf : Workflow)

def pickUpEvents (db : RunDb) (route : Nat) (event : PickupEvent) : List RunEvent :=
  match db.eventRoutes.find? (fun row => row.id = route && row.active && row.eventName = event.name) with
  | none => []
  | some row =>
      let refused : RunEvent := { type := .eventPickupRefused, nodeID := row.targetNode }
      if db.state.terminal then [refused]
      else
        match wf.eventEdgeFor row, wf.node? row.targetNode with
        | some edge, some node =>
            if pickupRefused env wf db row edge event then [refused]
            else
              [{ type := .eventPickedUp, nodeID := node.id, visit := some (db.nodeVisits node.id + 1) },
                RunDb.dispatched node (db.nodeVisits node.id + 1)]
        | _, _ => []

/-- A park says so; a resumption and a second park say nothing. A frozen run names no node. -/
def workEvents (db : RunDb) (action : Store.WorkAction) : List RunEvent :=
  let owner := (action.guard?.bind fun claim => db.work.nodeRunOf claim.work).bind db.nodeRun?
  match action with
  | .startAsyncWait _ _ | .startDurableWait _ _ _ | .startDurableSignalWait _ _ _ =>
      [{ type := .attemptWaiting, nodeID := (owner.map NodeRun.node).getD "" }]
  | .parkFrozen => [{ type := .runWaiting }]
  | _ => []

/-- The events that a transaction appends to the run's stream. -/
def audit (db : RunDb) (action : Action) : List RunEvent :=
  match action with
  | .complete req now =>
      match req.prepare env wf db now with
      | .error _ => []
      | .ok prepared => req.reportEvents env wf db ++ prepared.carryOutEvents env wf
  | .decide req now =>
      match req.prepare wf db now with
      | .error _ => []
      | .ok prepared => req.events prepared.mover.nodeRun :: prepared.carryOutEvents env wf
  | .pickUp route event _ => pickUpEvents env wf db route event
  | .cancel _ _ => [{ type := .runCancelled }]
  | .work action => workEvents db action

def createEvents : List RunEvent :=
  match wf.node? wf.entry with
  | none => []
  | some entry => [{ type := .runCreated }, RunDb.dispatched entry 1]

end

end CultureNodes.Engine
