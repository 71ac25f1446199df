import CultureNodes.Engine.Plan
import CultureNodes.Library.Forest
import CultureNodes.Store.WorkItem

/-!
The rows of one run and the store's writes on them. Row ids are drawn from one counter, so a new row
is newer than every other. The audit stream is written and never read back here; of it only the event
that ends the run is kept. The journal is no table: it records, newest first, every write of a node
run's status, every enqueue and every barrier that fires.
-/

namespace CultureNodes.Engine

open Compiler (quoted)
open Store (WorkTables)

inductive RunState where
  | created
  | running
  | waiting
  | completed
  | failed
  | cancelled
deriving DecidableEq, Repr

def RunState.terminal : RunState → Bool
  | .completed | .failed | .cancelled => true
  | _ => false

inductive NodeRunState where
  | ready
  | leased
  | running
  | waitingExternal
  | waitingHuman
  | waitingJoin
  | completed
  | failed
  | cancelled
deriving DecidableEq, Repr

def NodeRunState.terminal : NodeRunState → Bool
  | .completed | .failed | .cancelled => true
  | _ => false

/-- A unit of control flow at a node, in the group of the split that made it. -/
structure Token where
  id : Nat
  node : String
  active : Bool := true
  parent : Option Nat := none
  group : Option Nat := none
  originEvent : Option String := none
deriving DecidableEq, Repr

/-- The fan-out set of one split; the cardinality is fixed when it is made. -/
structure TokenGroup where
  id : Nat
  splitNodeRun : Nat
  parent : Option Nat
  cardinality : Nat
deriving DecidableEq, Repr

structure NodeRun where
  id : Nat
  token : Nat
  node : String
  state : NodeRunState
  outcome : String := ""
deriving DecidableEq, Repr

structure JoinArrival where
  joinNodeRun : Nat
  group : Nat
  token : Nat
  fromNode : String
  outcome : String
  output : Payload
deriving DecidableEq, Repr

structure EventRoute where
  id : Nat
  eventName : String
  targetNode : String
  guard : String
  active : Bool := true
deriving DecidableEq, Repr

inductive HumanTaskStatus where
  | pending
  | decided
  | expired
deriving DecidableEq, Repr

structure HumanTask where
  id : Nat
  nodeRun : Nat
  allowedOutcomes : List String
  status : HumanTaskStatus := .pending
deriving DecidableEq, Repr

structure Attempt where
  nodeRun : Nat
  number : Nat
  status : TechStatus
deriving DecidableEq, Repr

/-- Why a run is failed; the text is what its `run.failed` event and its result carry. -/
inductive Failure where
  | noTarget (diagnostic : String)
  | siblings (endNode : String) (active : Nat)
  | output (detail : String)
  | noGroup (node join : String)
  | unsatisfiable (join : String) (threshold : Nat) (policy : String) (cardinality : Nat)
  | refused (node : String) (status : TechStatus) (name : String)
  | unrouted (node : String) (attempt : Nat) (status : TechStatus) (retryRefused : String)
      (rejection : Option String)
deriving DecidableEq, Repr

def Failure.text : Failure → String
  | .noTarget diagnostic => diagnostic
  | .siblings endNode active =>
      "end node " ++ quoted endNode ++ " was reached with " ++ toString active ++
        " sibling token(s) still active; a run must not complete while branches are live " ++
        "(parallel-tokens design D7)"
  | .output detail => "engine: run output does not satisfy its contract: " ++ detail
  | .noGroup node join =>
      "node " ++ quoted node ++ " routed into join node " ++ quoted join ++
        " with a token that belongs to no token group; a join can only reconvene a split's siblings"
  | .unsatisfiable join threshold policy cardinality =>
      "join node " ++ quoted join ++ " requires " ++ toString threshold ++
        " arrival(s) under policy " ++ quoted policy ++ " but the split realized only " ++
        toString cardinality ++ " branch(es); the barrier can never satisfy"
  | .refused node status name =>
      "node " ++ quoted node ++ " was refused before dispatch (" ++ status.text ++
        ") and the workflow declares no edge from " ++ quoted name
  | .unrouted node attempt status retryRefused rejection =>
      "node " ++ quoted node ++ " attempt " ++ toString attempt ++ " ended " ++ status.text ++
        " and the workflow declares no edge from that status" ++
        (if retryRefused = "" then ""
          else "; the remaining retry budget was refused (" ++ retryRefused ++ ")") ++
        (match rejection with | none => "" | some detail => " (" ++ detail ++ ")")

/-- The event that ends a run. -/
inductive Ending where
  | completed (endNode : String)
  | failed (failure : Failure)
  | bounded (bound : BoundExceeded) (transitions : Nat)
  | cancelled (detail : String)
deriving DecidableEq, Repr

inductive Entry where
  | wrote (nodeRun : Nat) (state : NodeRunState)
  | enqueued (nodeRun : Nat)
  | fired (barrier group : Nat)
deriving DecidableEq, Repr

/-- The rows of one run. Token groups stand newest first. -/
structure RunDb where
  state : RunState := .running
  input : Payload
  output : Option Payload := none
  createdAt : Nat
  ending : Option Ending := none
  tokens : List Token := []
  tokenGroups : List TokenGroup := []
  nodeRuns : List NodeRun := []
  joinArrivals : List JoinArrival := []
  work : WorkTables := {}
  humanTasks : List HumanTask := []
  attempts : List Attempt := []
  eventRoutes : List EventRoute := []
  nextID : Nat := 0
  journal : List Entry := []
deriving DecidableEq, Repr

namespace RunDb

variable (db : RunDb)

def token? (id : Nat) : Option Token := db.tokens.find? (·.id = id)

def nodeRun? (id : Nat) : Option NodeRun := db.nodeRuns.find? (·.id = id)

def tokenGroup? (id : Nat) : Option TokenGroup := db.tokenGroups.find? (·.id = id)

def groupTree : List (Nat × Option Nat) := db.tokenGroups.map fun group => (group.id, group.parent)

/-- Node runs created after the entry. -/
def transitionCount : Nat := db.nodeRuns.length - 1

def nodeVisits (node : String) : Nat := db.nodeRuns.countP (·.node = node)

def activeTokenCount : Nat := db.tokens.countP (·.active)

def joinArrivalCount (barrier : Nat) : Nat := db.joinArrivals.countP (·.joinNodeRun = barrier)

def nextAttemptNumber (nodeRun : Nat) : Nat :=
  ((db.attempts.filter (·.nodeRun = nodeRun)).map Attempt.number).foldl max 0 + 1

def openJoinBarrier (node : String) (group : Nat) : Option NodeRun :=
  db.nodeRuns.find? fun run => run.node = node && run.state = .waitingJoin &&
    db.tokens.any fun token => token.id = run.token && token.group = some group

def insertToken (node : String) (parent group : Option Nat) (originEvent : Option String) : RunDb :=
  { db with
    tokens := db.tokens ++ [⟨db.nextID, node, true, parent, group, originEvent⟩]
    nextID := db.nextID + 1 }

def consumeToken (id : Nat) : RunDb :=
  { db with
    tokens := Table.update db.tokens (fun token => token.id = id && token.active)
      (fun token => { token with active := false }) }

def insertNodeRun (token : Nat) (node : String) (state : NodeRunState) : RunDb :=
  { db with
    nodeRuns := db.nodeRuns ++ [{ id := db.nextID, token := token, node := node, state := state }]
    nextID := db.nextID + 1
    journal := .wrote db.nextID state :: db.journal }

/-- Move a node run to a state, with the outcome that got it there when there is one. The statement
does not look at the state the row has. -/
def updateNodeRun (id : Nat) (state : NodeRunState) (outcome : String) : RunDb :=
  { db with
    nodeRuns := Table.update db.nodeRuns (·.id = id) (fun run =>
      { run with state := state, outcome := if outcome = "" then run.outcome else outcome })
    journal := .wrote id state :: db.journal }

def insertTokenGroup (splitNodeRun : Nat) (parent : Option Nat) (cardinality : Nat) : RunDb :=
  { db with
    tokenGroups := ⟨db.nextID, splitNodeRun, parent, cardinality⟩ :: db.tokenGroups
    nextID := db.nextID + 1 }

def insertJoinArrival (arrival : JoinArrival) : RunDb :=
  { db with joinArrivals := db.joinArrivals ++ [arrival] }

def enqueueWork (nodeRun availableAt : Nat) : RunDb :=
  { db with
    work := db.work.enqueueWork db.nextID nodeRun availableAt
    nextID := db.nextID + 1
    journal := .enqueued nodeRun :: db.journal }

def insertHumanTask (nodeRun : Nat) (allowedOutcomes : List String) : RunDb :=
  { db with
    humanTasks := db.humanTasks ++
      [{ id := db.nextID, nodeRun := nodeRun, allowedOutcomes := allowedOutcomes }]
    nextID := db.nextID + 1 }

def insertAttempt (nodeRun number : Nat) (status : TechStatus) : RunDb :=
  { db with attempts := db.attempts ++ [⟨nodeRun, number, status⟩] }

def retireEventRoutes : RunDb :=
  { db with
    eventRoutes := Table.update db.eventRoutes (·.active) (fun route => { route with active := false }) }

/-- Cancel the given node runs with their work, timers and subscriptions. -/
def cancelNodeRuns (lost : List Nat) : RunDb :=
  { db with
    nodeRuns := Table.update db.nodeRuns (fun run => lost.contains run.id)
      (fun run => { run with state := .cancelled })
    work := db.work.reapNodeRunAppendages lost
    journal := lost.map (Entry.wrote · .cancelled) ++ db.journal }

/-- The token belongs to the group or to a group below it, and is not the one that is kept. -/
def losing (group keep : Nat) (token : Token) : Bool :=
  (match token.group with
    | none => false
    | some own => (Forest.subtree group db.groupTree).contains own) && token.id ≠ keep

/-- Retire what is still live in a group and below it, except the token of the barrier that fires. -/
def reapGroupBranches (group keep : Nat) : RunDb :=
  let lost := (db.nodeRuns.filter fun run => !run.state.terminal &&
    db.tokens.any fun token => token.id = run.token && db.losing group keep token).map NodeRun.id
  let reaped := db.cancelNodeRuns lost
  { reaped with
    tokens := Table.update db.tokens (fun token => token.active && db.losing group keep token)
      (fun token => { token with active := false }) }

/-- Retire everything still live in the run, except one node run. -/
def reapRunState (keep : Nat) : RunDb :=
  let lost := (db.nodeRuns.filter fun run => !run.state.terminal && run.id ≠ keep).map NodeRun.id
  let reaped := db.cancelNodeRuns lost
  RunDb.retireEventRoutes { reaped with
    tokens := Table.update db.tokens (·.active) (fun token => { token with active := false }) }

/-- An output that is not given leaves the one recorded earlier. -/
def updateRunState (state : RunState) (output : Option Payload) (ending : Ending) : RunDb :=
  { db with state := state, output := output.or db.output, ending := some ending }

end RunDb

def dispatchState (kind : NodeKind) : NodeRunState :=
  if kind = .approval then .waitingHuman else .ready

namespace RunDb

variable (db : RunDb)

def dispatchNode (node : Node) (nodeRun now : Nat) : RunDb :=
  if node.kind = .approval then db.insertHumanTask nodeRun node.outcomes
  else db.enqueueWork nodeRun now

def startNode (node : Node) (parent group : Option Nat) (originEvent : Option String) (now : Nat) :
    RunDb :=
  let placed := db.insertToken node.id parent group originEvent
  let entered := placed.insertNodeRun db.nextID node.id (dispatchState node.kind)
  entered.dispatchNode node placed.nextID now

def finishNodeRun (run : NodeRun) (state : NodeRunState) (outcome : String) : RunDb :=
  (db.updateNodeRun run.id state outcome).consumeToken run.token

def reachEnd (node : Node) (parent group : Option Nat) : RunDb :=
  let placed := db.insertToken node.id parent group none
  let entered := placed.insertNodeRun db.nextID node.id (dispatchState node.kind)
  (entered.updateNodeRun placed.nextID .completed "").consumeToken db.nextID

section

variable {db : RunDb} {node : Node} {run now : Nat} {parent group : Option Nat}
  {originEvent : Option String}

@[simp] theorem dispatchNode_state : (db.dispatchNode node run now).state = db.state := by
  unfold dispatchNode
  split <;> rfl

@[simp] theorem dispatchNode_tokens : (db.dispatchNode node run now).tokens = db.tokens := by
  unfold dispatchNode
  split <;> rfl

@[simp] theorem dispatchNode_tokenGroups :
    (db.dispatchNode node run now).tokenGroups = db.tokenGroups := by
  unfold dispatchNode
  split <;> rfl

@[simp] theorem dispatchNode_nodeRuns : (db.dispatchNode node run now).nodeRuns = db.nodeRuns := by
  unfold dispatchNode
  split <;> rfl

@[simp] theorem dispatchNode_joinArrivals :
    (db.dispatchNode node run now).joinArrivals = db.joinArrivals := by
  unfold dispatchNode
  split <;> rfl

@[simp] theorem dispatchNode_eventRoutes :
    (db.dispatchNode node run now).eventRoutes = db.eventRoutes := by
  unfold dispatchNode
  split <;> rfl

@[simp] theorem dispatchNode_nextID : (db.dispatchNode node run now).nextID = db.nextID + 1 := by
  unfold dispatchNode
  split <;> rfl

@[simp] theorem startNode_state :
    (db.startNode node parent group originEvent now).state = db.state := dispatchNode_state

@[simp] theorem startNode_tokenGroups :
    (db.startNode node parent group originEvent now).tokenGroups = db.tokenGroups :=
  dispatchNode_tokenGroups

@[simp] theorem startNode_joinArrivals :
    (db.startNode node parent group originEvent now).joinArrivals = db.joinArrivals :=
  dispatchNode_joinArrivals

@[simp] theorem startNode_eventRoutes :
    (db.startNode node parent group originEvent now).eventRoutes = db.eventRoutes :=
  dispatchNode_eventRoutes

@[simp] theorem startNode_tokens : (db.startNode node parent group originEvent now).tokens =
    db.tokens ++ [⟨db.nextID, node.id, true, parent, group, originEvent⟩] :=
  dispatchNode_tokens

@[simp] theorem startNode_nodeRuns : (db.startNode node parent group originEvent now).nodeRuns =
    db.nodeRuns ++ [⟨db.nextID + 1, db.nextID, node.id, dispatchState node.kind, ""⟩] :=
  dispatchNode_nodeRuns

@[simp] theorem startNode_nextID :
    (db.startNode node parent group originEvent now).nextID = db.nextID + 3 :=
  dispatchNode_nextID

end

end RunDb

end CultureNodes.Engine
