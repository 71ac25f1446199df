import Mathlib.Data.List.Sort
import CultureNodes.Compiler.Document

/-!
The workflow as the engine executes it: the normalized document, loaded. Payloads are JSON texts and
are never looked into here.
-/

namespace CultureNodes.Engine

abbrev Payload := String

/-- The loop bounds; zero means that a bound is not set. Durations are in any one unit. -/
structure Limits where
  maxDuration : Nat := 0
  maxTransitions : Nat := 64
  maxVisitsPerNode : Nat := 8
  maxParallelTokens : Nat := 1
deriving DecidableEq, Repr

inductive Backoff where
  | none
  | fixed
  | linear
  | exponential
deriving DecidableEq, Repr

structure RetryPolicy where
  maxAttempts : Nat := 1
  backoff : Backoff := .none
deriving DecidableEq, Repr

/-- A node prepared for execution. The empty string is an absent output binding. -/
structure Node where
  id : String
  kind : NodeKind
  outcomes : List String := []
  joinPolicy : Option JoinPolicy := none
  joinQuorum : Nat := 0
  retry : RetryPolicy := {}
  outputFrom : String := ""
deriving DecidableEq, Repr

/-- An edge with its source taken apart. An event edge names `onEvent` and has no source node. -/
structure Edge where
  source : String := ""
  fromNode : String := ""
  fromOutcome : String := ""
  onEvent : String := ""
  target : String
  guard : String := ""
deriving DecidableEq, Repr

structure Workflow where
  entry : String
  limits : Limits := {}
  nodes : List Node
  edges : List Edge
deriving DecidableEq, Repr

namespace Node

variable (node : Node)

/-- How many arrivals fire the barrier of a join for a group of this cardinality, and whether that
many can ever arrive. -/
def joinThreshold (cardinality : Nat) : Nat × Bool :=
  match node.joinPolicy with
  | some .any => (1, decide (1 ≤ cardinality))
  | some .quorum => (node.joinQuorum, decide (1 ≤ node.joinQuorum ∧ node.joinQuorum ≤ cardinality))
  | _ => (cardinality, decide (1 ≤ cardinality))

def declaresOutcome (name : String) : Bool := node.outcomes.contains name

/-- The threshold is reachable and `arrivals` reach it. -/
def fires (cardinality arrivals : Nat) : Bool :=
  (node.joinThreshold cardinality).2 && decide ((node.joinThreshold cardinality).1 ≤ arrivals)

end Node

namespace Workflow

variable (wf : Workflow)

def node? (id : String) : Option Node := wf.nodes.find? (·.id = id)

def kind? (id : String) : Option NodeKind := (wf.node? id).map Node.kind

def eventEdges : List Edge := wf.edges.filter (·.onEvent ≠ "")

/-- Whether any edge, guarded or not, leaves this outcome of this node. -/
def hasEdgeFrom (node outcome : String) : Bool :=
  wf.edges.any fun edge => edge.fromNode = node && edge.fromOutcome = outcome

theorem node?_id {id : String} {node : Node} (found : wf.node? id = some node) : node.id = id := by
  simpa using List.find?_some found

theorem kind?_of_node? {id : String} {node : Node} (found : wf.node? id = some node) :
    wf.kind? id = some node.kind := by
  simp [kind?, found]

theorem node?_declared {id : String} {node : Node} (found : wf.node? id = some node) :
    wf.kind? node.id = some node.kind :=
  wf.kind?_of_node? ((wf.node?_id found).symm ▸ found)

end Workflow

/-- The order of normalized edges: event edges last, then by source node, outcome, target and guard.
It is the order in which the engine tries them. -/
def Edge.before (left right : Edge) : Bool :=
  if left.onEvent ≠ right.onEvent then decide (left.onEvent < right.onEvent)
  else if left.fromNode ≠ right.fromNode then decide (left.fromNode < right.fromNode)
  else if left.fromOutcome ≠ right.fromOutcome then decide (left.fromOutcome < right.fromOutcome)
  else if left.target ≠ right.target then decide (left.target < right.target)
  else decide (left.guard < right.guard)

def decomposeEdge (edge : Compiler.Edge) : Edge :=
  let parts := (Compiler.splitEdgeFrom edge.source).getD ("", "")
  { source := edge.source, fromNode := parts.1, fromOutcome := parts.2, onEvent := edge.onEvent,
    target := edge.target, guard := edge.guard }

def normalizeEdges (edges : List Compiler.Edge) : List Edge :=
  (edges.map decomposeEdge).mergeSort fun left right => !right.before left

/-- What a node's normalized form says beyond the fields of the document modelled here. -/
structure NodeSettings where
  outcomes : List String := []
  retry : RetryPolicy := {}
  outputFrom : String := ""
deriving DecidableEq, Repr

def Workflow.load (doc : Compiler.Document) (limits : Limits) (settings : String → NodeSettings) :
    Workflow where
  entry := doc.entry
  limits := limits
  nodes := doc.nodes.map fun pair =>
    { id := pair.1, kind := pair.2.kind, outcomes := (settings pair.1).outcomes,
      joinPolicy := pair.2.join.map Compiler.JoinConfig.policy,
      joinQuorum := (pair.2.join.bind Compiler.JoinConfig.quorum).getD 0,
      retry := (settings pair.1).retry, outputFrom := (settings pair.1).outputFrom }
  edges := normalizeEdges doc.edges

theorem mem_normalizeEdges {edges : List Compiler.Edge} {edge : Edge} :
    edge ∈ normalizeEdges edges ↔ ∃ authored ∈ edges, decomposeEdge authored = edge := by
  simp [normalizeEdges, List.mem_mergeSort]

/-- Edges that are authored in order stay as they are. -/
theorem normalizeEdges_of_sorted {edges : List Compiler.Edge}
    (sorted : (edges.map decomposeEdge).Pairwise fun left right => !right.before left) :
    normalizeEdges edges = edges.map decomposeEdge :=
  List.mergeSort_of_pairwise sorted

namespace Workflow

variable (doc : Compiler.Document) (limits : Limits) (settings : String → NodeSettings)

theorem kind?_load (id : String) : (load doc limits settings).kind? id = doc.kind? id := by
  unfold kind? node? Compiler.Document.kind? Compiler.Document.node? load
  dsimp only
  induction doc.nodes with
  | nil => rfl
  | cons pair rest ih =>
      obtain ⟨key, node⟩ := pair
      by_cases same : id = key
      · subst same
        simp
      · have differs : ¬ key = id := fun reversed => same reversed.symm
        have unequal : (id == key) = false := by simpa using same
        simp only [List.map_cons, List.find?_cons, differs, decide_false, List.lookup_cons, unequal]
        exact ih

end Workflow

end CultureNodes.Engine
