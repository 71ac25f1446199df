import CultureNodes.Compiler.Document
import CultureNodes.Library.Worklist
import CultureNodes.Library.SplitGraph

/-!
The structural checks on parallel and join nodes. The reachability check walks states of a node and
an open-split depth; it is the worklist of `Worklist`, and the graph it walks is a `SplitGraph`.
-/

namespace CultureNodes.Compiler

open Worklist

namespace Document

variable (doc : Document)

def hasEdgeFromOutcome (id outcome : String) : Bool :=
  doc.edges.any fun edge => splitEdgeFrom edge.source = some (id, outcome)

def hasEdgeInto (id : String) : Bool := doc.edges.any fun edge => edge.target = id

/-- The value rules of a join block: it belongs to join nodes only, and a quorum accompanies exactly
the quorum policy. -/
def checkJoinConfig (base id : String) (node : Node) : List Diagnostic :=
  let misplaced : List Diagnostic :=
    if node.join.isSome ∧ node.kind ≠ .join then
      [⟨.error, base ++ "/join", "contract.join_on_non_join_node",
        "node " ++ quoted id ++ " declares a join block but is kind " ++ quoted node.kind.text ++
          "; a barrier policy is only meaningful on a join node",
        "remove the join block, or change the node's kind to join"⟩]
    else []
  if node.kind ≠ .join then misplaced
  else
    match node.join with
    | none =>
        misplaced ++ [⟨.error, base ++ "/join", "contract.join_policy_missing",
          "join node " ++ quoted id ++ " declares no barrier policy",
          "add a join block: \x7bpolicy: all | any | quorum\x7d"⟩]
    | some config =>
        match config.policy, config.quorum with
        | .quorum, none =>
            misplaced ++ [⟨.error, base ++ "/join/quorum", "contract.join_policy_invalid",
              "join node " ++ quoted id ++ " declares policy quorum without a quorum value",
              "add join.quorum (an integer >= 1): how many arrivals fire the barrier"⟩]
        | .quorum, some _ => misplaced
        | policy, some _ =>
            misplaced ++ [⟨.error, base ++ "/join/quorum", "contract.join_policy_invalid",
              "join node " ++ quoted id ++ " declares a quorum value under policy " ++
                quoted policy.text ++ ", which never reads one",
              "remove join.quorum, or change the policy to quorum"⟩]
        | _, none => misplaced

/-- The checks made of one node before the reachability walk. -/
def checkParallelJoinNode (id : String) (node : Node) : List Diagnostic :=
  let base := pointerJoin "/spec/nodes" id
  let router : List Diagnostic :=
    if (node.kind = .parallel ∨ node.kind = .join) ∧ node.contract.isSome then
      [⟨.error, base ++ "/contract", "contract.router_with_contract",
        "node " ++ quoted id ++ " is a " ++ node.kind.text ++ " node and carries a contract block; " ++
          "parallel and join nodes produce engine-shaped outputs, not domain contracts",
        "remove the contract block; route the branches' own outputs, or guard over the join's " ++
          "arrival array downstream"⟩]
    else []
  let structural : List Diagnostic :=
    match node.kind with
    | .parallel =>
        if doc.hasEdgeFromOutcome id "split" then []
        else
          [⟨.error, base, "graph.parallel_without_split_edge",
            "parallel node " ++ quoted id ++ " has no edge from " ++ id ++
              ".split, so it can never fan out",
            "add at least one edge with from: " ++ id ++ ".split"⟩]
    | .join =>
        if doc.hasEdgeInto id then []
        else
          [⟨.error, base, "graph.join_without_incoming_edge",
            "join node " ++ quoted id ++ " has no incoming edge, so no branch can ever arrive at it",
            "route at least one branch outcome into the join"⟩]
    | _ => []
  checkJoinConfig base id node ++ router ++ structural

/-- One point of the reachability walk: a node and the number of splits open on the way to it. -/
structure DepthState where
  node : String
  depth : Int
deriving DecidableEq, Repr

/-- The depth an edge adds: a `split` edge of a parallel node opens a split, and every edge leaving
a join closes the one its barrier counted. -/
def hopDelta (kind : NodeKind) (outcome : String) : Int :=
  if kind = .join then -1
  else if kind = .parallel ∧ outcome = "split" then 1
  else 0

/-- An edge as the walk reads it, when both its ends exist: its source node, its target and its
delta. -/
def hop? (edge : Edge) : Option (String × String × Int) :=
  match splitEdgeFrom edge.source with
  | none => none
  | some (fromNode, fromOutcome) =>
      match doc.kind? fromNode, doc.kind? edge.target with
      | some kind, some _ => some (fromNode, edge.target, hopDelta kind fromOutcome)
      | _, _ => none

def adjacency (id : String) : List (String × Int) :=
  (doc.edges.filterMap doc.hop?).filterMap fun hop => if hop.1 = id then some hop.2 else none

/-- The nodes the walk starts from at depth zero: the entry and the target of every event edge. -/
def walkRoots : List String :=
  match doc.kind? doc.entry with
  | none => []
  | some _ =>
      doc.entry :: (doc.edges.filter fun edge =>
        edge.onEvent ≠ "" ∧ (doc.kind? edge.target).isSome).map Edge.target

def parallelCount : Nat := doc.nodes.countP fun pair => pair.2.kind = .parallel

/-- The deepest state the walk keeps. -/
def maxDepth : Int := 1 + doc.parallelCount

def endInsideSplit (state : DepthState) : Bool :=
  doc.kind? state.node = some .endNode && decide (0 < state.depth)

def joinOutsideSplit (state : DepthState) : Bool :=
  doc.kind? state.node = some .join && decide (state.depth = 0)

/-- The states the walk enqueues from one state; a violating state is not expanded. -/
def depthSuccessors (state : DepthState) : List DepthState :=
  if doc.endInsideSplit state || doc.joinOutsideSplit state then []
  else
    (doc.adjacency state.node).filterMap fun hop =>
      let depth := state.depth + hop.2
      if depth < 0 ∨ doc.maxDepth < depth then none else some ⟨hop.1, depth⟩

/-- Fuel for the walk: one visit for each state there can be. -/
def walkFuel : Nat := doc.nodes.length * (doc.parallelCount + 2)

/-- The states the walk visits, in order. -/
def walk : List DepthState :=
  visit doc.depthSuccessors doc.walkFuel (start (doc.walkRoots.map fun id => ⟨id, 0⟩)) []

def checkSplitReachability : List Diagnostic :=
  let ends := doc.nodeIDs.filter fun id =>
    doc.walk.any fun state => state.node = id && doc.endInsideSplit state
  let joins := doc.nodeIDs.filter fun id =>
    doc.walk.any fun state => state.node = id && doc.joinOutsideSplit state
  (ends.map fun id =>
    ⟨.error, pointerJoin "/spec/nodes" id, "graph.end_inside_split",
      "end node " ++ quoted id ++ " is reachable from inside a split without passing through a " ++
        "join; completing the run there would strand the sibling tokens (design D7)",
      "route every split branch into a join node before any end node"⟩) ++
  joins.map fun id =>
    ⟨.error, pointerJoin "/spec/nodes" id, "graph.join_outside_split",
      "join node " ++ quoted id ++ " is reachable outside any split; a token that never passed a " ++
        "parallel node carries no group for the barrier to count against",
      "put a parallel node on every path into the join, or remove the join"⟩

def checkParallelJoin : List Diagnostic :=
  doc.nodes.flatMap (fun pair => doc.checkParallelJoinNode pair.1 pair.2) ++
    doc.checkSplitReachability

end Document
end CultureNodes.Compiler
