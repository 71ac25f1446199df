import CultureNodes.Engine.Rows

/-!
Split fan-out and join barriers. Everything here runs inside one transition transaction under the
run's advisory lock, so it is a function of the rows it finds.
-/

namespace CultureNodes.Engine

open Compiler (quoted)

inductive EngineError where
  | malformed (detail : String)
  | notFound (what : String) (id : Nat)
  | staleClaim (work : Nat)
  | terminalNodeRun (nodeRun : Nat) (node : String) (state : NodeRunState)
  | terminalRun (state : RunState)
  | workflow (detail : String)
  | contract (detail : String)
  | duplicateArrival (barrier token : Nat)
  | taskAlreadyDecided (task : Nat) (status : HumanTaskStatus)
  | taskNotWaiting (task nodeRun : Nat) (state : NodeRunState)
  | outcomeNotAllowed (task : Nat) (outcome : String) (allowed : List String)
deriving DecidableEq, Repr

/-- Why a transition stops: the transaction rolls back, or the run it has come to is to be failed. -/
inductive Halt where
  | abort (error : EngineError)
  | refuse (db : RunDb) (failure : Failure)

/-- The slice of a transition transaction that routing needs: the node run that ends, what it ends
as, and whether a human decision or an attempt ends it. `outcome` is the outcome that is recorded. -/
structure Mover where
  decision : Bool
  nodeRun : NodeRun
  node : Node
  state : NodeRunState
  outcome : String
  output : Payload
  now : Nat
deriving DecidableEq, Repr

def Node.policyText (node : Node) : String := (node.joinPolicy.map JoinPolicy.text).getD ""

namespace RunDb

variable (db : RunDb)

/-- The barrier of a join for a group: the one that is open, or a new one, parked without work. -/
def joinBarrier (join : Node) (token group : Nat) : RunDb × NodeRun :=
  match db.openJoinBarrier join.id group with
  | some barrier => (db, barrier)
  | none =>
      let placed := db.insertToken join.id (some token) (some group) none
      (placed.insertNodeRun db.nextID join.id .waitingJoin,
        { id := placed.nextID, token := db.nextID, node := join.id, state := .waitingJoin })

def fireBarrier (barrier : NodeRun) (group : Nat) (early : Bool) (now : Nat) : RunDb :=
  let claimable := (db.updateNodeRun barrier.id .ready "").enqueueWork barrier.id now
  let marked := { claimable with journal := .fired barrier.id group :: claimable.journal }
  if early then marked.reapGroupBranches group barrier.token else marked

/-- Settle a barrier: fire it when its threshold is reached, refuse when it never can be. -/
def settleBarrier (join : Node) (barrier : NodeRun) (group now : Nat) : Except Halt RunDb :=
  match db.tokenGroup? group with
  | none => .error (.abort (.notFound "token group" group))
  | some row =>
      let count := db.joinArrivalCount barrier.id
      let threshold := (join.joinThreshold row.cardinality).1
      if (join.joinThreshold row.cardinality).2 = false then
        .error (.refuse db (.unsatisfiable join.id threshold join.policyText row.cardinality))
      else if count < threshold then .ok db
      else .ok (db.fireBarrier barrier group (decide (count < row.cardinality)) now)

section

variable {db : RunDb} {join : Node} {barrier : NodeRun} {token group now : Nat} {early : Bool}

@[simp] theorem joinBarrier_state : (db.joinBarrier join token group).1.state = db.state := by
  unfold joinBarrier
  split <;> rfl

@[simp] theorem joinBarrier_tokenGroups :
    (db.joinBarrier join token group).1.tokenGroups = db.tokenGroups := by
  unfold joinBarrier
  split <;> rfl

@[simp] theorem joinBarrier_joinArrivals :
    (db.joinBarrier join token group).1.joinArrivals = db.joinArrivals := by
  unfold joinBarrier
  split <;> rfl

@[simp] theorem joinBarrier_eventRoutes :
    (db.joinBarrier join token group).1.eventRoutes = db.eventRoutes := by
  unfold joinBarrier
  split <;> rfl

@[simp] theorem joinBarrier_work : (db.joinBarrier join token group).1.work = db.work := by
  unfold joinBarrier
  split <;> rfl

@[simp] theorem fireBarrier_state : (db.fireBarrier barrier group early now).state = db.state := by
  unfold fireBarrier
  cases early <;> rfl

@[simp] theorem fireBarrier_tokenGroups :
    (db.fireBarrier barrier group early now).tokenGroups = db.tokenGroups := by
  unfold fireBarrier
  cases early <;> rfl

@[simp] theorem fireBarrier_joinArrivals :
    (db.fireBarrier barrier group early now).joinArrivals = db.joinArrivals := by
  unfold fireBarrier
  cases early <;> rfl

@[simp] theorem fireBarrier_eventRoutes :
    (db.fireBarrier barrier group early now).eventRoutes = db.eventRoutes := by
  unfold fireBarrier
  cases early <;> rfl

end

end RunDb

def undeclaredTarget (edge : Edge) : EngineError :=
  .workflow ("edge " ++ quoted edge.source ++ " targets node " ++ quoted edge.target ++
    ", which the pinned definition does not declare")

namespace Mover

variable (mover : Mover) (wf : Workflow)

/-- Record one branch's arrival. A token may arrive at a barrier once. -/
def recordArrival (db : RunDb) (join : Node) (token : Nat) (group : Option Nat) (edge : Edge) :
    Except Halt (RunDb × NodeRun) :=
  match group with
  | none => .error (.refuse db (.noGroup mover.nodeRun.node join.id))
  | some group =>
      match db.tokenGroup? group with
      | none => .error (.abort (.notFound "token group" group))
      | some _ =>
          let gathered := db.joinBarrier join token group
          if gathered.1.joinArrivals.any
              (fun row => row.joinNodeRun = gathered.2.id && row.token = token) then
            .error (.abort (.duplicateArrival gathered.2.id token))
          else
            .ok (gathered.1.insertJoinArrival
              { joinNodeRun := gathered.2.id, group := group, token := token,
                fromNode := mover.nodeRun.node, outcome := edge.fromOutcome,
                output := mover.output }, gathered.2)

/-- The arrival outside a fan-out: record, then settle. -/
def arriveAtJoin (db : RunDb) (join : Node) (group : Option Nat) (edge : Edge) :
    Except Halt RunDb :=
  match mover.recordArrival db join mover.nodeRun.token group edge with
  | .error halt => .error halt
  | .ok (recorded, barrier) => recorded.settleBarrier join barrier (group.getD 0) mover.now

end Mover

/-- The branches made so far and the barriers that zero-node branches fed. -/
structure Spread where
  db : RunDb
  pending : List (Node × NodeRun) := []

def appendPendingBarrier (pending : List (Node × NodeRun)) (join : Node) (barrier : NodeRun) :
    List (Node × NodeRun) :=
  if pending.any (fun entry => entry.2.id = barrier.id) then pending else pending ++ [(join, barrier)]

namespace Mover

variable (mover : Mover) (wf : Workflow)

/-- One branch of a split. A branch that points straight at a join is made, consumed and recorded as
an arrival; its barrier is settled only after every branch exists. -/
def spreadBranch (group : Nat) (spread : Spread) (edge : Edge) : Except Halt Spread :=
  match wf.node? edge.target with
  | none => .error (.abort (undeclaredTarget edge))
  | some next =>
      if next.kind = .join then
        let token := spread.db.nextID
        let placed := spread.db.insertToken next.id (some mover.nodeRun.token) (some group) none
        match mover.recordArrival (placed.consumeToken token) next token (some group) edge with
        | .error halt => .error halt
        | .ok (recorded, barrier) =>
            .ok ⟨recorded, appendPendingBarrier spread.pending next barrier⟩
      else
        .ok ⟨spread.db.startNode next (some mover.nodeRun.token) (some group) none mover.now,
          spread.pending⟩

def settlePending (group : Nat) : RunDb → List (Node × NodeRun) → Except Halt RunDb
  | db, [] => .ok db
  | db, (join, barrier) :: rest =>
      match db.settleBarrier join barrier group mover.now with
      | .error halt => .error halt
      | .ok settled => settlePending group settled rest

def spreadBranches (group : Nat) : Spread → List Edge → Except Halt Spread
  | spread, [] => .ok spread
  | spread, edge :: rest =>
      match mover.spreadBranch wf group spread edge with
      | .error halt => .error halt
      | .ok next => spreadBranches group next rest

/-- A split: one group, one branch for each target, then the barriers the branches fed. -/
def fanOut (db : RunDb) (place : Option Nat) (targets : List Edge) : Except Halt RunDb :=
  let opened := db.insertTokenGroup mover.nodeRun.id place targets.length
  match mover.spreadBranches wf db.nextID ⟨opened, []⟩ targets with
  | .error halt => .error halt
  | .ok spread => mover.settlePending db.nextID spread.db spread.pending

end Mover
end CultureNodes.Engine
