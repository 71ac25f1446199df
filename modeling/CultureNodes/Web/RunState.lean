import Mathlib.Data.String.Basic
import CultureNodes.Engine.Audit
import CultureNodes.Library.StableSort

/-!
The execution states that the run page shows. A snapshot gives each node the state of its newest node run, and
each committed event then moves the nodes it names. A state is only ever replaced, so what the events make of
one node is a fold over that node's state alone.
-/

namespace CultureNodes.Web

open Engine (NodeRunState TechStatus RunEvent EventType)

inductive NodeExecState where
  | idle
  | ready
  | active
  | waiting
  | completed
  | failed
  | policyDenied
  | cancelled
deriving DecidableEq, Repr

/-- An attempt as the run view carries it. -/
structure AttemptOut where
  status : TechStatus
  actorID : Option String := none
  startedAt : Option String := none
deriving DecidableEq, Repr

/-- A node run as the run view carries it, with its attempts. Times are texts. -/
structure NodeRunOut where
  id : Nat
  nodeID : String
  state : NodeRunState
  outcome : Option String := none
  visitCount : Nat
  createdAt : String
  attempts : List AttemptOut := []
deriving DecidableEq, Repr

structure NodeExecution where
  nodeID : String
  state : NodeExecState
  nodeRuns : List NodeRunOut := []
  attempts : List AttemptOut := []
  actorID : Option String := none
  outcome : Option String := none
  visits : Nat := 0
deriving DecidableEq, Repr

/-- The records of the nodes and the edges that were walked, each once. -/
structure RunGraphState where
  nodes : String → Option NodeExecution
  walkedEdges : List String := []

def idleExecution (nodeID : String) : NodeExecution :=
  { nodeID := nodeID, state := .idle }

def byCreatedAt (left right : NodeRunOut) : Prop := left.createdAt ≤ right.createdAt

instance byCreatedAt.decidable : DecidableRel byCreatedAt := fun left right =>
  inferInstanceAs (Decidable (left.createdAt ≤ right.createdAt))

def byStartedAt (left right : AttemptOut) : Prop := left.startedAt.getD "" ≤ right.startedAt.getD ""

instance byStartedAt.decidable : DecidableRel byStartedAt := fun left right =>
  inferInstanceAs (Decidable (left.startedAt.getD "" ≤ right.startedAt.getD ""))

/-- A run that waits for a person or for other branches has no state of its own here. -/
def stateFor (state : NodeRunState) (attempts : List AttemptOut) : NodeExecState :=
  match state with
  | .ready => .ready
  | .leased | .running => .active
  | .waitingExternal => .waiting
  | .completed => .completed
  | .cancelled => .cancelled
  | .failed =>
      if (attempts.getLast?.map AttemptOut.status) = some .policyDenied then .policyDenied else .failed
  | .waitingHuman | .waitingJoin => .idle

/-- A node's runs in the snapshot, oldest first. -/
def nodeRunsOf (view : List NodeRunOut) (nodeID : String) : List NodeRunOut :=
  (view.insertionSort byCreatedAt).filter (·.nodeID = nodeID)

/-- Every attempt of the node, whichever run made it. -/
def attemptsOf (view : List NodeRunOut) (nodeID : String) : List AttemptOut :=
  ((nodeRunsOf view nodeID).flatMap NodeRunOut.attempts).insertionSort byStartedAt

def executionFromRunView (view : List NodeRunOut) (nodeID : String) : Option NodeExecution :=
  match (nodeRunsOf view nodeID).getLast? with
  | none => none
  | some current =>
      let attempts := attemptsOf view nodeID
      some {
        nodeID := nodeID
        state := stateFor current.state attempts
        nodeRuns := nodeRunsOf view nodeID
        attempts := attempts
        actorID := attempts.getLast?.bind AttemptOut.actorID
        outcome := current.outcome
        visits := if current.visitCount = 0 then (nodeRunsOf view nodeID).length else current.visitCount }

/-- A text, where it is one and not empty. -/
def str (text : String) : Option String := if text = "" then none else some text

namespace RunGraphState

variable (prev : RunGraphState)

/-- Change a node's record, which is idle where there is none. -/
def touch (id : String) (patch : NodeExecution → NodeExecution) : RunGraphState :=
  { prev with
    nodes := fun other =>
      if other = id then some (patch ((prev.nodes id).getD (idleExecution id))) else prev.nodes other }

/-- Change the record of the node that an event names, if it names one. -/
def touchNamed (id : Option String) (patch : NodeExecution → NodeExecution) : RunGraphState :=
  match id with
  | none => prev
  | some id => prev.touch id patch

/-- A token has come to a node. -/
def enter (visit : Option Nat) (record : NodeExecution) : NodeExecution :=
  { record with state := .ready, visits := visit.getD (record.visits + 1) }

end RunGraphState

/-- The state an attempt leaves its node in, by the word for its technical status. -/
def completedState (tech : String) : NodeExecState :=
  if tech = "succeeded" then .completed
  else if tech = "policy_denied" then .policyDenied
  else if tech = "cancelled" then .cancelled
  else .failed

open RunGraphState in
def applyEvent (prev : RunGraphState) (event : RunEvent) : RunGraphState :=
  let nodeID := str event.nodeID
  match event.type with
  | .nodeRunReady | .tokenEntered => prev.touchNamed nodeID (enter event.visit)
  | .attemptStarted | .actorAccepted =>
      prev.touchNamed nodeID fun record => { record with state := .active, actorID := str event.actorID }
  | .attemptCompleted =>
      prev.touchNamed nodeID fun record =>
        { record with
          state := completedState event.techStatus
          outcome := str event.outcome
          actorID := (str event.actorID).or record.actorID }
  | .contractRejected => prev.touchNamed nodeID fun record => { record with state := .failed }
  | .tokenTransitioned =>
      match str event.fromNode, str event.toNode with
      | some origin, some target =>
          let edge := origin ++ "." ++ (str event.outcome).getD "" ++ "->" ++ target
          let known := ((prev.nodes origin).map NodeExecution.state).getD .completed
          let left := prev.touch origin fun record => { record with state := known }
          { left.touch target (enter event.visit) with walkedEdges := prev.walkedEdges.insert edge }
      | _, _ => prev
  | .runWaiting => prev.touchNamed nodeID fun record => { record with state := .waiting }
  | .runCompleted => prev.touchNamed (str event.endNode) fun record => { record with state := .completed }
  | _ => prev

/-- The state of a node's record, where there is one. -/
def RunGraphState.stateOf (graph : RunGraphState) (node : String) : Option NodeExecState :=
  (graph.nodes node).map NodeExecution.state

def tell (node : String) (known : Option NodeExecState) (event : RunEvent) : Option NodeExecState :=
  match event.type with
  | .nodeRunReady | .tokenEntered => if event.nodeID = node then some .ready else known
  | .attemptStarted | .actorAccepted => if event.nodeID = node then some .active else known
  | .attemptCompleted => if event.nodeID = node then some (completedState event.techStatus) else known
  | .contractRejected => if event.nodeID = node then some .failed else known
  | .tokenTransitioned =>
      if event.fromNode = "" then known
      else if event.toNode = node then some .ready
      else if event.toNode ≠ "" ∧ event.fromNode = node then some (known.getD .completed)
      else known
  | .runWaiting => if event.nodeID = node then some .waiting else known
  | .runCompleted => if event.endNode = node then some .completed else known
  | _ => known

theorem stateOf_touchNamed (graph : RunGraphState) {node id : String} (named : node ≠ "")
    {patch : NodeExecution → NodeExecution} {state : NodeExecState} (sets : ∀ record, (patch record).state = state) :
    (graph.touchNamed (str id) patch).stateOf node = if id = node then some state else graph.stateOf node := by
  by_cases missing : id = ""
  · have other : ¬ id = node := fun same => named (same ▸ missing)
    simp [str, missing, RunGraphState.touchNamed, Ne.symm named]
  · by_cases same : id = node
    · subst same
      simp [str, missing, RunGraphState.touchNamed, RunGraphState.touch, RunGraphState.stateOf, sets]
    · simp [str, missing, RunGraphState.touchNamed, RunGraphState.touch, RunGraphState.stateOf, same, Ne.symm same]

theorem stateOf_transitioned (graph : RunGraphState) {node : String} (named : node ≠ "") {event : RunEvent}
    (isMove : event.type = .tokenTransitioned) :
    (applyEvent graph event).stateOf node = tell node (graph.stateOf node) event := by
  simp only [applyEvent, tell, isMove]
  by_cases noOrigin : event.fromNode = ""
  · simp [str, noOrigin]
  · by_cases noTarget : event.toNode = ""
    · have other : ¬ "" = node := fun same => named same.symm
      simp [str, noOrigin, noTarget, other]
    · by_cases arrives : event.toNode = node
      · simp [str, noOrigin, arrives, RunGraphState.stateOf, RunGraphState.touch, RunGraphState.enter, named]
      · by_cases leaves : event.fromNode = node
        · simp [str, noTarget, arrives, leaves, RunGraphState.stateOf, RunGraphState.touch, Ne.symm arrives, named]
        · simp [str, noOrigin, noTarget, arrives, leaves, RunGraphState.stateOf, RunGraphState.touch,
            Ne.symm arrives, Ne.symm leaves]

theorem stateOf_applyEvent (graph : RunGraphState) {node : String} (named : node ≠ "") (event : RunEvent) :
    (applyEvent graph event).stateOf node = tell node (graph.stateOf node) event := by
  by_cases isMove : event.type = .tokenTransitioned
  · exact stateOf_transitioned graph named isMove
  · unfold applyEvent tell
    split
    all_goals first
      | exact stateOf_touchNamed graph named fun _ => rfl
      | exact absurd ‹event.type = .tokenTransitioned› isMove
      | rfl

theorem stateOf_foldl {node : String} (named : node ≠ "") (events : List RunEvent) (graph : RunGraphState) :
    (events.foldl applyEvent graph).stateOf node = events.foldl (tell node) (graph.stateOf node) := by
  induction events generalizing graph with
  | nil => rfl
  | cons event rest ih => rw [List.foldl_cons, ih, stateOf_applyEvent graph named, List.foldl_cons]

end CultureNodes.Web
