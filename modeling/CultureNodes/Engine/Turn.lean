import Mathlib.Logic.Relation
import CultureNodes.Engine.System

/-!
The token game. A transition transaction is a series of turns: a node run ends and its token is taken
in hand; the hand puts it down at the next node, sends it to a barrier, or parts it into the branches
of a group. Between two transactions the hand is empty. Two conditions can be asked of a series: that
it is strict, so that only a parked barrier ever fires, and that it is calm, so that a group whose
branches have all arrived has fired.
-/

namespace CultureNodes.Engine

/-- What a transaction under way holds: a token that follows one edge out of its group, a token about
to be split, the branches of a new group still to be made, barriers still to be settled, or the end
of the run. -/
inductive Hand where
  | idle
  | carrying (place : Option Nat) (edge : Edge)
  | parting (place : Option Nat) (edges : List Edge)
  | spreading (group : Nat) (edges : List Edge)
  | settling (group : Nat)
  | ending
deriving DecidableEq, Repr

namespace RunDb

variable (db : RunDb)

/-- How many branches of a group have arrived at any barrier. -/
def arrivedIn (group : Nat) : Nat := db.joinArrivals.countP (·.group = group)

/-- Whether a barrier of the group has fired. -/
def firedIn (group : Nat) : Bool := db.journal.any fun entry =>
  match entry with
  | .fired _ other => other = group
  | _ => false

def cardinalityOf (group : Nat) : Nat := ((db.tokenGroup? group).map TokenGroup.cardinality).getD 0

/-- Where a token of a node that ends goes on: a join hands it to the group around its own. -/
def outerPlace (node : Node) (token : Token) : Option Nat :=
  if node.kind = .join then
    token.group.bind fun group => (db.tokenGroup? group).bind TokenGroup.parent
  else token.group

def Parked (barrier : NodeRun) (group : Nat) : Prop :=
  ∃ run ∈ db.nodeRuns, run.id = barrier.id ∧ run.token = barrier.token ∧ run.state = .waitingJoin ∧
    ∃ token ∈ db.tokens, token.id = run.token ∧ token.group = some group

def AtJoin (wf : Workflow) (id : Nat) : Prop :=
  ∃ run ∈ db.nodeRuns, run.id = id ∧ wf.kind? run.node = some .join

/-- Record an arrival at a barrier of the group that is found or opened for it. -/
def gather (join : Node) (token group : Nat) (fromNode outcome : String) (output : Payload) : RunDb :=
  (db.joinBarrier join token group).1.insertJoinArrival
    { joinNodeRun := (db.joinBarrier join token group).2.id, group := group, token := token,
      fromNode := fromNode, outcome := outcome, output := output }

section

variable {db : RunDb} {join : Node} {token group : Nat} {fromNode outcome : String} {output : Payload}

@[simp] theorem gather_state :
    (db.gather join token group fromNode outcome output).state = db.state := joinBarrier_state

@[simp] theorem gather_tokenGroups :
    (db.gather join token group fromNode outcome output).tokenGroups = db.tokenGroups :=
  joinBarrier_tokenGroups

@[simp] theorem gather_eventRoutes :
    (db.gather join token group fromNode outcome output).eventRoutes = db.eventRoutes :=
  joinBarrier_eventRoutes

@[simp] theorem gather_work :
    (db.gather join token group fromNode outcome output).work = db.work := joinBarrier_work

@[simp] theorem gather_joinArrivals :
    (db.gather join token group fromNode outcome output).joinArrivals = db.joinArrivals ++
      [⟨(db.joinBarrier join token group).2.id, group, token, fromNode, outcome, output⟩] := by
  rw [gather, insertJoinArrival, joinBarrier_joinArrivals]

end

end RunDb

/-- What the hand may take up when the node run `own` ends with an outcome. -/
inductive Takes (wf : Workflow) (db : RunDb) (own : NodeRun) (outcome : String) : Hand → Prop where
  | ending : Takes wf db own outcome .ending
  | carrying {token : Token} {node : Node} {edge : Edge} :
      db.token? own.token = some token → wf.node? own.node = some node →
      splits node outcome = false → edge ∈ wf.edges → edge.fromNode = own.node →
      edge.fromOutcome = outcome → Within wf.limits db.transitionCount db.nodeVisits [edge] →
      Takes wf db own outcome (.carrying (db.outerPlace node token) edge)
  | parting {token : Token} {node : Node} {edges : List Edge} :
      db.token? own.token = some token → wf.node? own.node = some node →
      splits node outcome = true → edges ≠ [] →
      (∀ edge ∈ edges, edge ∈ wf.edges ∧ edge.fromNode = own.node ∧ edge.fromOutcome = outcome) →
      Within wf.limits db.transitionCount db.nodeVisits edges →
      (0 < wf.limits.maxParallelTokens →
        db.activeTokenCount + edges.length ≤ wf.limits.maxParallelTokens + 1) →
      Takes wf db own outcome (.parting token.group edges)

/-- What a node run keeps for good. -/
def NodeRun.stand (run : NodeRun) : Nat × Nat × String := (run.id, run.token, run.node)

/-- One turn. -/
inductive Turn (wf : Workflow) (strict calm : Prop) : Hand × RunDb → Hand × RunDb → Prop where
  | note {db : RunDb} (tasks : List HumanTask) (attempts : List Attempt) :
      Turn wf strict calm (.idle, db) (.idle, { db with humanTasks := tasks, attempts := attempts })
  | work {db next : RunDb} {action : Store.WorkAction} : db.workStatement wf action = some next →
      Turn wf strict calm (.idle, db) (.idle, next)
  | hold {db : RunDb} {claim : Store.Claim} {work : Store.WorkTables} :
      db.work.completeWork claim = some work → db.state.terminal = false →
      Turn wf strict calm (.idle, db) (.idle, { db with work := work })
  | retry {db : RunDb} {own : NodeRun} (availableAt : Nat) : own ∈ db.nodeRuns →
      own.state.terminal = false → db.state.terminal = false →
      (strict → own.state ≠ .waitingJoin ∧ own.state ≠ .waitingHuman ∧
        ∀ item ∈ db.work.items, item.nodeRun = own.id → item.live = false) →
      Turn wf strict calm (.idle, db)
        (.idle, (db.enqueueWork own.id availableAt).updateNodeRun own.id .ready "")
  | pickUp {db : RunDb} {edge : Edge} {next : Node} (event : String) (now : Nat) :
      db.state.terminal = false → edge ∈ wf.edges → edge.onEvent ≠ "" →
      wf.node? edge.target = some next → Within wf.limits db.transitionCount db.nodeVisits [edge] →
      (0 < wf.limits.maxParallelTokens →
        db.activeTokenCount + 1 ≤ wf.limits.maxParallelTokens) →
      Turn wf strict calm (.idle, db) (.idle, db.startNode next none none (some event) now)
  | cancel {db next : RunDb} {parkedAt detail : String} :
      db.cancelRunGuarded parkedAt detail = some next →
      Turn wf strict calm (.idle, db) (.idle, next)
  | finish {db : RunDb} {own : NodeRun} {state : NodeRunState} {outcome : String} {hand : Hand}
      (recorded : String) : own ∈ db.nodeRuns → own.state.terminal = false →
      db.state.terminal = false → state.terminal = true →
      (strict → own.state ≠ .waitingJoin ∧
        ∀ item ∈ db.work.items, item.nodeRun = own.id → item.live = false) →
      Takes wf db own outcome hand →
      Turn wf strict calm (.idle, db) (hand, db.finishNodeRun own state recorded)
  | put {db : RunDb} {place : Option Nat} {edge : Edge} {next : Node} (parent : Option Nat)
      (now : Nat) : wf.node? edge.target = some next → next.kind ≠ .join → next.kind ≠ .endNode →
      Turn wf strict calm (.carrying place edge, db) (.idle, db.startNode next parent place none now)
  | reachEnd {db : RunDb} {place : Option Nat} {edge : Edge} {next : Node} (parent : Option Nat) :
      wf.node? edge.target = some next → next.kind = .endNode →
      Turn wf strict calm (.carrying place edge, db) (.ending, db.reachEnd next parent place)
  | arrive {db : RunDb} {group : Nat} {edge : Edge} {join : Node} (token : Nat)
      (fromNode outcome : String) (output : Payload) : wf.node? edge.target = some join →
      join.kind = .join →
      Turn wf strict calm (.carrying (some group) edge, db)
        (.settling group, db.gather join token group fromNode outcome output)
  | split {db : RunDb} {place : Option Nat} {edges : List Edge} (nodeRun : Nat) :
      Turn wf strict calm (.parting place edges, db)
        (.spreading db.nextID edges, db.insertTokenGroup nodeRun place edges.length)
  | putBranch {db : RunDb} {group : Nat} {edge : Edge} {rest : List Edge} {next : Node}
      (parent : Option Nat) (now : Nat) : wf.node? edge.target = some next → next.kind ≠ .join →
      Turn wf strict calm (.spreading group (edge :: rest), db)
        (.spreading group rest, db.startNode next parent (some group) none now)
  | arriveBranch {db : RunDb} {group : Nat} {edge : Edge} {rest : List Edge} {join : Node}
      (parent : Option Nat) (fromNode outcome : String) (output : Payload) :
      wf.node? edge.target = some join → join.kind = .join →
      Turn wf strict calm (.spreading group (edge :: rest), db)
        (.spreading group rest,
          ((db.insertToken join.id parent (some group) none).consumeToken db.nextID).gather
            join db.nextID group fromNode outcome output)
  | spread {db : RunDb} {group : Nat} :
      Turn wf strict calm (.spreading group [], db) (.settling group, db)
  | fire {db : RunDb} {group : Nat} {barrier : NodeRun} {join : Node} {row : TokenGroup} (now : Nat) :
      db.tokenGroup? group = some row →
      join.fires row.cardinality (db.joinArrivalCount barrier.id) = true →
      barrier.id < db.nextID → (strict → db.Parked barrier group) → db.AtJoin wf barrier.id →
      Turn wf strict calm (.settling group, db)
        (.settling group, db.fireBarrier barrier group
          (decide (db.joinArrivalCount barrier.id < row.cardinality)) now)
  | settled {db : RunDb} {group : Nat} :
      (calm → db.firedIn group = true ∨ db.arrivedIn group < db.cardinalityOf group) →
      Turn wf strict calm (.settling group, db) (.idle, db)
  | abandon {db : RunDb} {hand : Hand} : hand ≠ .idle →
      Turn wf strict calm (hand, db) (.ending, db)
  | refinish {db : RunDb} {own : NodeRun} {state : NodeRunState} (recorded : String) :
      state.terminal = true → (∃ run ∈ db.nodeRuns, run.stand = own.stand) →
      (strict → ∃ run ∈ db.nodeRuns, run.id = own.id ∧ run.token = own.token ∧ run.state = state) →
      Turn wf strict calm (.ending, db) (.ending, db.finishNodeRun own state recorded)
  | reap {db : RunDb} (keep : Nat) :
      (∀ run ∈ db.nodeRuns, run.id = keep → run.state.terminal = true) →
      Turn wf strict calm (.ending, db) (.ending, db.reapRunState keep)
  | retire {db : RunDb} : Turn wf strict calm (.ending, db) (.ending, db.retireEventRoutes)
  | conclude {db : RunDb} {state : RunState} (output : Option Payload) (ending : Ending) :
      state.terminal = true → db.activeTokenCount = 0 →
      (∀ route ∈ db.eventRoutes, route.active = false) →
      Turn wf strict calm (.ending, db) (.idle, db.updateRunState state output ending)

/-- A series of turns. -/
abbrev Turns (wf : Workflow) (strict calm : Prop) : Hand × RunDb → Hand × RunDb → Prop :=
  Relation.ReflTransGen (Turn wf strict calm)

/-- No node run but `own` gets a new state, unless it is cancelled. -/
def RunDb.EndsOnly (own : Nat) (before after : RunDb) : Prop :=
  ∀ run ∈ after.nodeRuns, run.id ≠ own → run.state ≠ .cancelled →
    ∃ old ∈ before.nodeRuns, old.id = run.id ∧ old.state = run.state

theorem RunDb.EndsOnly.refl (own : Nat) (db : RunDb) : RunDb.EndsOnly own db db :=
  fun run member _ _ => ⟨run, member, rfl, rfl⟩

/-- A turn of a transaction under way that ends the node run `own`: the hand is not empty, and while it
ends the run it finishes no other node run. -/
structure Onward (wf : Workflow) (strict calm : Prop) (own : Nat) (here there : Hand × RunDb) : Prop where
  held : here.1 ≠ .idle
  turn : Turn wf strict calm here there
  spares : here.1 = .ending → there.1 = .ending → RunDb.EndsOnly own here.2 there.2

/-- The turns of a transaction under way. -/
abbrev Busy (wf : Workflow) (strict calm : Prop) (own : Nat) : Hand × RunDb → Hand × RunDb → Prop :=
  Relation.ReflTransGen (Onward wf strict calm own)

theorem Busy.turns {wf : Workflow} {strict calm : Prop} {own : Nat} {here there : Hand × RunDb}
    (busy : Busy wf strict calm own here there) : Turns wf strict calm here there := by
  induction busy with
  | refl => exact .refl
  | tail _ step ih => exact ih.tail step.turn

end CultureNodes.Engine
