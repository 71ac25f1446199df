import Mathlib.Data.List.Sort
import CultureNodes.Compiler.Contract
import CultureNodes.Library.Cycles
import CultureNodes.Library.Worklist

/-!
The graph level of the compiler: references exist, every node can be entered, an end can be reached, and a
loop is bounded by a declared policy. What can be entered is counted from the entry and from the target of
every event edge; a loop is looked for from the entry alone.
-/

namespace CultureNodes.Compiler

open Cycles (ClosedWalk CycleFrom)

/-- A node as the graph level reads it. `continue_` is the `onExhausted` of a continuation block. -/
structure GraphNode extends Node where
  select : List SelectPort := []
  continue_ : Option String := none
deriving DecidableEq, Repr

/-- The loop bounds of an authored limits block. -/
structure DeclaredLimits where
  maxTransitions : Option Nat := none
  maxVisitsPerNode : Option Nat := none
deriving DecidableEq, Repr

structure GraphDocument where
  entry : String
  nodes : List (String × GraphNode)
  edges : List Edge
  limits : Option DeclaredLimits := none
  nodesSorted : (nodes.map Prod.fst).Pairwise (· < ·)

/-- Whether the author declared any loop bound. -/
def bounded (limits : Option DeclaredLimits) : Bool :=
  match limits with
  | none => false
  | some declared => declared.maxTransitions.isSome || declared.maxVisitsPerNode.isSome

def technicalStatuses : List String :=
  ["cancelled", "contract_rejected", "failed", "policy_denied", "succeeded", "timed_out"]

/-- The names a dispatch that the control plane refused routes under. -/
def refusalOutcomes : List String := ["budget_exhausted", "preflight_unacknowledged"]

/-- The kinds whose dispatch the control plane can refuse. -/
def dispatchGuardedKinds : List NodeKind := [.agent, .actionHTTP]

def impliedOutcomes : NodeKind → List String
  | .approval => ["approved", "expired", "rejected"]
  | .wait => ["completed"]
  | .parallel => ["split"]
  | .join => ["joined"]
  | _ => []

def declaredOutcomes (node : GraphNode) : List String :=
  ((node.contract.getD [] ++ (node.select.map SelectPort.outcome).filter (· ≠ "") ++
    impliedOutcomes node.kind).dedup).insertionSort (· ≤ ·)

def commaJoin (names : List String) : String := ", ".intercalate names

namespace GraphDocument

variable (doc : GraphDocument)

def nodeIDs : List String := doc.nodes.map Prod.fst

def node? (id : String) : Option GraphNode := doc.nodes.lookup id

def entryUnknown : List Diagnostic :=
  match doc.node? doc.entry with
  | some _ => []
  | none =>
      [⟨.error, "/spec/entry", "graph.entry_unknown",
        "entry node " ++ quoteText doc.entry ++ " is not declared in spec.nodes",
        "set spec.entry to one of: " ++ commaJoin doc.nodeIDs⟩]

/-- An event edge needs a target that exists and does not end the run. -/
def checkEventEdge (base : String) (edge : Edge) : List Diagnostic :=
  match doc.node? edge.target with
  | none =>
      [⟨.error, base ++ "/to", "graph.edge_target_unknown",
        "event edge target " ++ quoteText edge.target ++ " is not declared in spec.nodes",
        "point the edge at one of: " ++ commaJoin doc.nodeIDs⟩]
  | some target =>
      if target.kind = .endNode then
        [⟨.error, base ++ "/to", "graph.event_edge_to_end",
          "event " ++ quoteText edge.onEvent ++ " routes to end node " ++ quoteText edge.target ++
            "; a run must not complete as a side effect of an event being delivered",
          "route the event at a working node and let the run reach its end node through the graph"⟩]
      else []

/-- Whether the node an edge leaves can produce the outcome it carries. -/
def checkOutcome (base fromNode outcome : String) (source : GraphNode) : List Diagnostic :=
  if source.kind = .endNode then
    [⟨.error, base ++ "/from", "graph.edge_from_end_node",
      "node " ++ quoteText fromNode ++
        " is an end node and produces the workflow result; it has no outgoing edges",
      "remove the edge, or change the node's kind if the run should continue"⟩]
  else if source.continue_ = some outcome then []
  else if outcome ∈ refusalOutcomes ∧ source.kind ∉ dispatchGuardedKinds then
    [⟨.error, base ++ "/from", "graph.outcome_undeclared",
      "node " ++ quoteText fromNode ++ " is kind " ++ quoted source.kind.text ++
        ", whose dispatch the control plane does not guard, so it can never produce outcome " ++
        quoteText outcome,
      "route " ++ quoteText outcome ++
        " only from an agent or action.http node; refusals are produced at the actor-dispatch site"⟩]
  else if outcome ∈ refusalOutcomes then []
  else if outcome ∉ technicalStatuses ∧ outcome ∉ declaredOutcomes source then
    [⟨.error, base ++ "/from", "graph.outcome_undeclared",
      "node " ++ quoteText fromNode ++ " does not declare outcome " ++ quoteText outcome,
      "declare it under the node's contract.outcomes, or route one of: " ++
        commaJoin (declaredOutcomes source ++ technicalStatuses)⟩]
  else []

def checkEdge (index : Nat) (edge : Edge) : List Diagnostic :=
  let base := "/spec/edges/" ++ toString index
  if edge.onEvent ≠ "" then doc.checkEventEdge base edge
  else
    match splitEdgeFrom edge.source with
    | none => []  -- the schema's pattern has refused it already
    | some (fromNode, outcome) =>
        (match doc.node? fromNode with
          | some _ => []
          | none =>
              [⟨.error, base ++ "/from", "graph.edge_source_unknown",
                "edge source names node " ++ quoteText fromNode ++ ", which is not declared in spec.nodes",
                "declare the node, or point the edge at an existing one"⟩]) ++
        (match doc.node? edge.target with
          | some _ => []
          | none =>
              [⟨.error, base ++ "/to", "graph.edge_target_unknown",
                "edge target " ++ quoteText edge.target ++ " is not declared in spec.nodes",
                "point the edge at one of: " ++ commaJoin doc.nodeIDs⟩]) ++
        (match doc.node? fromNode with
          | some source => checkOutcome base fromNode outcome source
          | none => [])

def checkEdges : List Diagnostic :=
  doc.edges.zipIdx.flatMap fun indexed => doc.checkEdge indexed.2 indexed.1

/-- Whether an edge carries this outcome of this node away. -/
def routed (id outcome : String) : Bool :=
  doc.edges.any fun edge => edge.onEvent = "" && splitEdgeFrom edge.source = some (id, outcome)

def checkExhausted (id : String) (node : GraphNode) : List Diagnostic :=
  match node.continue_ with
  | none => []
  | some outcome =>
      if outcome = "" ∨ doc.routed id outcome then []
      else
        [⟨.error, pointerJoin "/spec/nodes" id ++ "/continue/onExhausted",
          "graph.continuation_exhausted_unrouted",
          "node " ++ quoteText id ++ " declares onExhausted " ++ quoteText outcome ++
            " but no edge carries that outcome away, so a run that spends its continuation budget stops " ++
            "at the one state the declaration exists to handle",
          "add an edge from " ++ id ++ "." ++ outcome ++
            " to the node that should take over -- typically a human node (PRD §3.4)"⟩]

/-- The ends of a node's edge, where both exist. -/
def link? (edge : Edge) : Option (String × String) :=
  if edge.onEvent ≠ "" then none
  else
    match splitEdgeFrom edge.source with
    | none => none
    | some (fromNode, _) =>
        match doc.node? fromNode, doc.node? edge.target with
        | some _, some _ => some (fromNode, edge.target)
        | _, _ => none

def adjacency (id : String) : List String :=
  (doc.edges.filterMap doc.link?).filterMap fun link => if link.1 = id then some link.2 else none

/-- The nodes an event can create a token at. -/
def eventTargets : List String :=
  (doc.edges.filter fun edge =>
    edge.onEvent ≠ "" && (doc.node? edge.target).any fun target => target.kind ≠ .endNode).map Edge.target

def reachable : List String :=
  Worklist.visit doc.adjacency doc.nodes.length (Worklist.start (doc.entry :: doc.eventTargets)) []

def checkReachable : List Diagnostic :=
  (doc.nodeIDs.filter (· ∉ doc.reachable)).map fun id =>
    ⟨.error, pointerJoin "/spec/nodes" id, "graph.node_unreachable",
      "node " ++ quoteText id ++ " is not reachable from entry node " ++ quoteText doc.entry,
      "add an edge that reaches it, or remove the node"⟩

def checkTerminal : List Diagnostic :=
  if doc.reachable.any fun id => (doc.node? id).any fun node => node.kind = .endNode then []
  else
    [⟨.error, "/spec/nodes", "graph.no_end_reachable",
      "no end node is reachable from entry node " ++ quoteText doc.entry ++
        ", so no run can produce a result",
      "add a node of kind 'end' and an edge that reaches it"⟩]

/-- The successors of a node in the order in which a cycle is looked for. -/
def successors (id : String) : List String :=
  (doc.adjacency id).insertionSort (· ≤ ·)

def findCycle : Option (List String) := Cycles.findCycle doc.successors doc.nodes.length doc.entry

def cycleWarning (path : List String) : Diagnostic :=
  ⟨.warning, "/spec/limits", "graph.unbounded_cycle",
    "loop " ++ " -> ".intercalate path ++ " relies on compiler default bounds, not on a declared policy",
    "declare spec.limits.maxTransitions and spec.limits.maxVisitsPerNode; no loop may rely solely on an " ++
      "agent deciding when to stop (PRD §9.7)"⟩

def checkCycle : List Diagnostic :=
  match doc.findCycle with
  | none => []
  | some path => if bounded doc.limits then [] else [cycleWarning path]

def checkGraph : List Diagnostic :=
  let references := doc.entryUnknown ++ doc.checkEdges ++
    doc.nodes.flatMap fun pair => doc.checkExhausted pair.1 pair.2
  -- Without an entry there is nothing true to say about what it reaches.
  if (doc.node? doc.entry).isSome then
    references ++ doc.checkReachable ++ doc.checkTerminal ++ doc.checkCycle
  else references

/-- No diagnostic of the graph level blocks the document. -/
def Clean : Prop := ∀ diagnostic ∈ doc.checkGraph, diagnostic.level ≠ .error

/-- Some edge is declared between the two nodes. -/
def Link (id target : String) : Prop :=
  ∃ edge ∈ doc.edges, edge.onEvent = "" ∧ (∃ outcome, splitEdgeFrom edge.source = some (id, outcome)) ∧
    edge.target = target

def EventTarget (id : String) : Prop := ∃ edge ∈ doc.edges, edge.onEvent ≠ "" ∧ edge.target = id

variable {doc} {id target : String} {edge : Edge} {diagnostic : Diagnostic}

theorem mem_nodeIDs_of_node? {node : GraphNode} (found : doc.node? id = some node) : id ∈ doc.nodeIDs := by
  unfold node? at found
  unfold nodeIDs
  generalize doc.nodes = nodes at found ⊢
  induction nodes with
  | nil => simp at found
  | cons pair rest ih =>
      rw [List.lookup_cons] at found
      cases same : id == pair.1 with
      | true => simp [beq_iff_eq.mp same]
      | false =>
          rw [same] at found
          exact List.mem_cons_of_mem _ (ih found)

theorem mem_checkGraph_of_references
    (held : diagnostic ∈ doc.entryUnknown ++ doc.checkEdges ++
      doc.nodes.flatMap fun pair => doc.checkExhausted pair.1 pair.2) : diagnostic ∈ doc.checkGraph := by
  unfold checkGraph
  dsimp only
  split
  · simp only [List.mem_append] at held ⊢
    exact Or.inl (Or.inl (Or.inl held))
  · exact held

namespace Clean

variable (clean : doc.Clean)
include clean

theorem entry : (doc.node? doc.entry).isSome := by
  cases found : doc.node? doc.entry with
  | some _ => rfl
  | none =>
      have held : ∃ diagnostic ∈ doc.entryUnknown, diagnostic.level = .error := by simp [entryUnknown, found]
      obtain ⟨diagnostic, isEntry, isError⟩ := held
      have among : diagnostic ∈ doc.checkGraph :=
        mem_checkGraph_of_references (List.mem_append_left _ (List.mem_append_left _ isEntry))
      exact absurd isError (clean diagnostic among)

theorem edge_checked (declared : edge ∈ doc.edges) :
    ∃ index, ∀ diagnostic ∈ doc.checkEdge index edge, diagnostic.level ≠ .error := by
  obtain ⟨index, bound, isEdge⟩ := List.getElem_of_mem declared
  refine ⟨index, fun diagnostic held => clean diagnostic (mem_checkGraph_of_references ?_)⟩
  apply List.mem_append_left
  apply List.mem_append_right
  unfold checkEdges
  rw [List.mem_flatMap]
  refine ⟨(edge, index), ?_, held⟩
  rw [List.mem_zipIdx_iff_getElem?]
  simp [List.getElem?_eq_getElem bound, isEdge]

theorem ends (declared : edge ∈ doc.edges) (isNodeEdge : edge.onEvent = "") {outcome : String}
    (source : splitEdgeFrom edge.source = some (id, outcome)) :
    (doc.node? id).isSome ∧ (doc.node? edge.target).isSome := by
  obtain ⟨index, checked⟩ := clean.edge_checked declared
  unfold checkEdge at checked
  simp only [isNodeEdge, ne_eq, not_true_eq_false, if_false, source] at checked
  cases there : doc.node? id with
  | none => simp [there] at checked
  | some _ =>
      cases found : doc.node? edge.target with
      | none => simp [there, found] at checked
      | some _ => simp

theorem mem_adjacency_iff : target ∈ doc.adjacency id ↔ doc.Link id target := by
  unfold adjacency Link
  simp only [List.mem_filterMap]
  constructor
  · rintro ⟨link, ⟨edge, declared, isLink⟩, picked⟩
    split at picked
    · rename_i same
      cases picked
      unfold link? at isLink
      split at isLink
      · cases isLink
      · rename_i isNodeEdge
        split at isLink
        · cases isLink
        · rename_i fromNode outcome source
          split at isLink
          · cases isLink
            exact ⟨edge, declared, by simpa using isNodeEdge, ⟨outcome, by rw [← same]; exact source⟩, rfl⟩
          · cases isLink
    · cases picked
  · rintro ⟨edge, declared, isNodeEdge, ⟨outcome, source⟩, rfl⟩
    obtain ⟨here, there⟩ := clean.ends declared isNodeEdge source
    obtain ⟨_, foundHere⟩ := Option.isSome_iff_exists.mp here
    obtain ⟨_, foundThere⟩ := Option.isSome_iff_exists.mp there
    refine ⟨(id, edge.target), ⟨edge, declared, ?_⟩, by simp⟩
    simp [link?, isNodeEdge, source, foundHere, foundThere]

theorem link_successors : Cycles.Link doc.successors = doc.Link := by
  funext id target
  rw [← clean.mem_adjacency_iff]
  simp [Cycles.Link, successors, List.mem_insertionSort]

theorem successors_closed : ∀ id ∈ doc.nodeIDs, ∀ target ∈ doc.successors id, target ∈ doc.nodeIDs := by
  intro id _ target succ
  unfold successors at succ
  rw [List.mem_insertionSort, clean.mem_adjacency_iff] at succ
  obtain ⟨edge, declared, isNodeEdge, ⟨outcome, source⟩, rfl⟩ := succ
  obtain ⟨_, found⟩ := Option.isSome_iff_exists.mp (clean.ends declared isNodeEdge source).2
  exact mem_nodeIDs_of_node? found

/-- The search answers for the entry. -/
theorem findCycle_isSome_iff : doc.findCycle.isSome ↔ CycleFrom doc.Link doc.entry := by
  obtain ⟨_, found⟩ := Option.isSome_iff_exists.mp clean.entry
  rw [← clean.link_successors]
  exact Cycles.findCycle_isSome_iff clean.successors_closed (mem_nodeIDs_of_node? found)
    (by simp [nodeIDs])

end Clean

theorem checkOutcome_level {base fromNode outcome : String} {source : GraphNode}
    (held : diagnostic ∈ checkOutcome base fromNode outcome source) : diagnostic.level = .error := by
  unfold checkOutcome at held
  split_ifs at held
  · rw [List.mem_singleton.mp held]
  · cases held
  · rw [List.mem_singleton.mp held]
  · cases held
  · rw [List.mem_singleton.mp held]
  · cases held

theorem checkEdge_level {index : Nat} (held : diagnostic ∈ doc.checkEdge index edge) :
    diagnostic.level = .error := by
  unfold checkEdge at held
  dsimp only at held
  split at held
  · unfold checkEventEdge at held
    split at held
    · rw [List.mem_singleton.mp held]
    · split at held
      · rw [List.mem_singleton.mp held]
      · cases held
  · split at held
    · cases held
    · rename_i fromNode outcome _
      simp only [List.mem_append] at held
      rcases held with (held | held) | held
      · split at held
        · cases held
        · rw [List.mem_singleton.mp held]
      · split at held
        · cases held
        · rw [List.mem_singleton.mp held]
      · split at held
        · exact checkOutcome_level held
        · cases held

theorem mem_checkCycle_of_warning (held : diagnostic ∈ doc.checkGraph) (warns : diagnostic.level ≠ .error) :
    diagnostic ∈ doc.checkCycle := by
  have references : diagnostic ∉ doc.entryUnknown ++ doc.checkEdges ++
      doc.nodes.flatMap fun pair => doc.checkExhausted pair.1 pair.2 := by
    intro among
    simp only [List.mem_append, List.mem_flatMap] at among
    rcases among with (among | among) | ⟨pair, _, among⟩
    · unfold entryUnknown at among
      split at among
      · cases among
      · rw [List.mem_singleton.mp among] at warns
        exact warns rfl
    · unfold checkEdges at among
      obtain ⟨indexed, _, among⟩ := List.mem_flatMap.mp among
      exact warns (checkEdge_level among)
    · unfold checkExhausted at among
      split at among
      · cases among
      · split at among
        · cases among
        · rw [List.mem_singleton.mp among] at warns
          exact warns rfl
  have reachable : diagnostic ∉ doc.checkReachable := by
    intro among
    unfold checkReachable at among
    obtain ⟨id, _, rfl⟩ := List.mem_map.mp among
    exact warns rfl
  have terminal : diagnostic ∉ doc.checkTerminal := by
    intro among
    unfold checkTerminal at among
    split at among
    · cases among
    · rw [List.mem_singleton.mp among] at warns
      exact warns rfl
  unfold checkGraph at held
  dsimp only at held
  split at held
  · simp only [List.mem_append] at held references
    tauto
  · exact absurd held references

/-- The document is warned about a cycle without a declared bound. -/
def WarnsOfCycle (doc : GraphDocument) : Prop :=
  ∃ diagnostic ∈ doc.checkGraph, diagnostic.code = "graph.unbounded_cycle"

/-- Every path a warning reports is a closed walk along declared edges. -/
def ReportsClosedWalks (doc : GraphDocument) : Prop :=
  ∀ diagnostic ∈ doc.checkGraph, diagnostic.code = "graph.unbounded_cycle" →
    ∃ path, ClosedWalk doc.Link path ∧ diagnostic = cycleWarning path

theorem warnsOfCycle_iff (clean : doc.Clean) (undeclared : bounded doc.limits = false) :
    doc.WarnsOfCycle ↔ CycleFrom doc.Link doc.entry := by
  rw [← clean.findCycle_isSome_iff]
  constructor
  · rintro ⟨diagnostic, held, _⟩
    have among := mem_checkCycle_of_warning held (clean diagnostic held)
    unfold checkCycle at among
    split at among
    · cases among
    · rename_i found
      rw [found]
      rfl
  · intro found
    obtain ⟨path, isPath⟩ := Option.isSome_iff_exists.mp found
    refine ⟨cycleWarning path, ?_, rfl⟩
    unfold checkGraph
    rw [if_pos clean.entry]
    apply List.mem_append_right
    simp [checkCycle, isPath, undeclared]

theorem reportsClosedWalks (clean : doc.Clean) : doc.ReportsClosedWalks := by
  intro diagnostic held _
  have among := mem_checkCycle_of_warning held (clean diagnostic held)
  unfold checkCycle at among
  split at among
  · cases among
  · rename_i path found
    split at among
    · cases among
    · refine ⟨path, ?_, List.mem_singleton.mp among⟩
      rw [← clean.link_successors]
      exact (Cycles.findCycle_reported found).1

/-- Where the warning speaks for every node a token can enter at: a cycle that an event leads to has to come
with one that the entry leads to. -/
theorem unbounded_cycle_warning_iff (clean : doc.Clean) (undeclared : bounded doc.limits = false) :
    ((doc.WarnsOfCycle ↔ CycleFrom doc.Link doc.entry ∨ ∃ id, doc.EventTarget id ∧ CycleFrom doc.Link id) ∧
      doc.ReportsClosedWalks) ↔
    ((∃ id, doc.EventTarget id ∧ CycleFrom doc.Link id) → CycleFrom doc.Link doc.entry) := by
  rw [warnsOfCycle_iff clean undeclared]
  constructor
  · rintro ⟨exactly_, _⟩ fromEvent
    exact exactly_.mpr (Or.inr fromEvent)
  · intro covered
    refine ⟨⟨Or.inl, ?_⟩, reportsClosedWalks clean⟩
    rintro (fromEntry | fromEvent)
    · exact fromEntry
    · exact covered fromEvent

/-- A node that a failure sends back to itself, entered as the document says. -/
def selfLoop (entry : String) (edges : List Edge) : GraphDocument where
  entry := entry
  nodes := [("finish", ⟨⟨.endNode, none, none⟩, [], none⟩), ("fix", ⟨⟨.agent, none, none⟩, [], none⟩),
    ("start", ⟨⟨.agent, none, none⟩, [], none⟩)]
  edges := edges ++ [⟨"fix.failed", "", "fix", ""⟩, ⟨"fix.succeeded", "", "finish", ""⟩]
  nodesSorted := by decide +kernel

theorem selfLoop_link (entry : String) (edges : List Edge) : (selfLoop entry edges).Link "fix" "fix" :=
  ⟨⟨"fix.failed", "", "fix", ""⟩, by simp [selfLoop], rfl, ⟨"failed", by decide +kernel⟩, rfl⟩

/-- The node is entered from the start of the run. -/
def entryLoop : GraphDocument := selfLoop "start" [⟨"start.succeeded", "", "fix", ""⟩]

/-- The run ends at once, and the node is entered by an event. -/
def eventLoop : GraphDocument :=
  selfLoop "start" [⟨"start.succeeded", "", "finish", ""⟩, ⟨"", "ping", "fix", ""⟩]

theorem entryLoop_clean : entryLoop.Clean := by
  unfold Clean
  decide +kernel

theorem unbounded_cycle_warning_entryLoop :
    entryLoop.Clean ∧
    ((entryLoop.WarnsOfCycle ↔ CycleFrom entryLoop.Link entryLoop.entry ∨
        ∃ id, entryLoop.EventTarget id ∧ CycleFrom entryLoop.Link id) ∧ entryLoop.ReportsClosedWalks) := by
  refine ⟨entryLoop_clean, (unbounded_cycle_warning_iff entryLoop_clean rfl).mpr fun _ => ?_⟩
  have entered : entryLoop.Link "start" "fix" :=
    ⟨⟨"start.succeeded", "", "fix", ""⟩, by simp [entryLoop, selfLoop], rfl, ⟨"succeeded", by decide +kernel⟩, rfl⟩
  exact ⟨"fix", .single entered, .single (selfLoop_link _ _)⟩

theorem eventLoop_unwarned :
    eventLoop.Clean ∧ bounded eventLoop.limits = false ∧
    (∃ id, eventLoop.EventTarget id ∧ CycleFrom eventLoop.Link id) ∧ ¬eventLoop.WarnsOfCycle := by
  have silent : eventLoop.checkGraph = [] := by decide +kernel
  refine ⟨?_, rfl, ⟨"fix", ⟨⟨"", "ping", "fix", ""⟩, by simp [eventLoop, selfLoop], by decide, rfl⟩, "fix", .refl,
    .single (selfLoop_link _ _)⟩, ?_⟩
  · intro diagnostic held
    simp [silent] at held
  · rintro ⟨diagnostic, held, _⟩
    simp [silent] at held

end GraphDocument
end CultureNodes.Compiler
