import CultureNodes.Library.Breadth

/-!
The graph that the canvas draws of a workflow. Nodes are in breadth-first order from the entry, and an edge is
marked as a loop when it does not lead to a greater depth.
-/

namespace CultureNodes.Web

open Breadth (Search)

structure WorkflowIRNode where
  kind : Option String := none
  ownerRef : Option String := none
  uses : Option String := none
  outcomes : Option (List String) := none
  contractOutcomes : List String := []
deriving DecidableEq, Repr

/-- An edge that an event takes has no source. -/
structure WorkflowIREdge where
  origin : Option String
  target : String
  guard : Option String := none
deriving DecidableEq, Repr

/-- The intermediate representation. Where it has no nodes or edges, there is nothing in their place. -/
structure WorkflowIR where
  name : Option String := none
  version : Option String := none
  ownerRef : Option String := none
  entry : String
  nodes : Option (List (String × WorkflowIRNode))
  edges : List WorkflowIREdge
deriving DecidableEq, Repr

structure GraphNode where
  id : String
  kind : Option String
  ownerRef : Option String
  uses : Option String
  outcomes : List String
  depth : Nat
deriving DecidableEq, Repr

structure GraphEdge where
  id : String
  source : String
  target : String
  outcome : String
  guard : Option String
  loop : Bool
deriving DecidableEq, Repr

structure WorkflowGraph where
  name : String
  version : Option String
  ownerRef : Option String
  entry : String
  nodes : List GraphNode
  edges : List GraphEdge
deriving DecidableEq, Repr

/-- The node and the outcome of an edge's source, which its last dot parts. -/
def splitEdgeSource (origin : String) : String × String :=
  let outcome := (origin.toList.reverse.takeWhile (· ≠ '.')).reverse
  let node := (origin.toList.reverse.dropWhile (· ≠ '.')).reverse.dropLast
  if node = [] then (origin, "") else (String.ofList node, String.ofList outcome)

/-- The node an edge leaves. -/
def WorkflowIREdge.source? (edge : WorkflowIREdge) : Option String :=
  edge.origin.map fun origin => (splitEdgeSource origin).1

/-- The names that every object inherits. -/
def inherited : List String :=
  ["constructor", "__defineGetter__", "__defineSetter__", "hasOwnProperty", "__lookupGetter__",
    "__lookupSetter__", "isPrototypeOf", "propertyIsEnumerable", "toString", "valueOf", "__proto__",
    "toLocaleString"]

namespace WorkflowIR

variable (ir : WorkflowIR)

def nodeIds : List String := (ir.nodes.getD []).map Prod.fst

/-- What stands under an id among the nodes; a name that only an object inherits has none of a node's fields. -/
def node? (id : String) : Option WorkflowIRNode :=
  match ir.nodes with
  | none => none
  | some nodes =>
      match nodes.lookup id with
      | some node => some node
      | none => if id ∈ inherited then some {} else none

def has (id : String) : Bool := (ir.node? id).isSome

/-- The targets of a node's edges, in their order. -/
def adjacency (id : String) : List String :=
  (ir.edges.filter fun edge => edge.source? = some id).map WorkflowIREdge.target

/-- What a node's edges lead to from it. -/
def discover (level : Nat) (search : Search String) (next : String) : Search String :=
  if (search.depth next).isSome || !ir.has next then search else search.push level next

/-- Breadth-first from the queue. A node is queued once, so the edges bound how often one is taken. -/
def visit : Nat → Search String → Search String
  | 0, search => search
  | fuel + 1, search =>
      match search.queue with
      | [] => search
      | id :: rest =>
          visit fuel ((ir.adjacency id).foldl (ir.discover ((search.depth id).getD 0 + 1))
            { search with queue := rest, order := search.order ++ [id] })

def search : Search String :=
  if ir.entry ≠ "" ∧ ir.has ir.entry then
    ir.visit (ir.edges.length + 1) (Breadth.start ir.entry)
  else { queue := [], depth := fun _ => none, order := [] }

/-- Anything that the entry does not reach still renders, at depth zero. -/
def appendUnreached (search : Search String) (id : String) : Search String :=
  if (search.depth id).isSome then search
  else { search with depth := Function.update search.depth id (some 0), order := search.order ++ [id] }

def layout : Search String := ir.nodeIds.foldl appendUnreached ir.search

def depthOf (id : String) : Nat := (ir.layout.depth id).getD 0

def graphEdge (edge : WorkflowIREdge) (origin : String) : GraphEdge :=
  let (node, outcome) := splitEdgeSource origin
  { id := node ++ "." ++ outcome ++ "->" ++ edge.target
    source := node
    target := edge.target
    outcome
    guard := edge.guard
    loop := ir.depthOf edge.target ≤ ir.depthOf node }

def graph : WorkflowGraph where
  name := ir.name.getD "workflow"
  version := ir.version
  ownerRef := ir.ownerRef
  entry := ir.entry
  nodes := ir.layout.order.map fun id =>
    let raw := (ir.node? id).getD {}
    { id
      kind := raw.kind
      ownerRef := raw.ownerRef
      uses := raw.uses
      outcomes := raw.outcomes.getD raw.contractOutcomes
      depth := ir.depthOf id }
  edges := ir.edges.filterMap fun edge => edge.origin.map (ir.graphEdge edge)

def sourced : Bool := ir.edges.all fun edge => edge.origin.isSome

end WorkflowIR

/-- There is no graph where an edge has no source: splitting the source of such an edge is a type error. -/
def parseWorkflowGraph (ir : WorkflowIR) : Option WorkflowGraph := if ir.sourced then some ir.graph else none

/-- A step along an edge. -/
abbrev Link := String × String

/-- Steps that follow on each other and end where they begin. -/
def IsCycle (walk : List Link) : Prop :=
  walk.IsChain (fun one two => one.2 = two.1) ∧
    ∃ first last, walk.head? = some first ∧ walk.getLast? = some last ∧ last.2 = first.1

namespace WorkflowIR

variable (ir : WorkflowIR)

def links : List Link := ir.edges.filterMap fun edge => edge.source?.map fun node => (node, edge.target)

def OnCycle (link : Link) : Prop := ∃ walk, IsCycle walk ∧ (∀ step ∈ walk, step ∈ ir.links) ∧ link ∈ walk

/-- A way of so many edges from the entry, through nodes. -/
inductive Way : Nat → String → Prop where
  | entry (named : ir.entry ≠ "") (present : ir.has ir.entry = true) : Way 0 ir.entry
  | step {length : Nat} {id next : String} (way : Way length id) (linked : (id, next) ∈ ir.links)
      (present : ir.has next = true) : Way (length + 1) next

/-- The length of the shortest way, and zero where there is none. -/
noncomputable def distance (id : String) : Nat := sInf {length | ir.Way length id}

/-- An edge that lies on no cycle leads away from the entry. -/
def LeadsAway : Prop :=
  ∀ link ∈ ir.links, ¬ ir.OnCycle link → ir.distance link.1 < ir.distance link.2

end WorkflowIR

def GraphEdge.link (edge : GraphEdge) : Link := (edge.source, edge.target)

def MarksCycles (ir : WorkflowIR) (edges : List GraphEdge) : Prop :=
  (∀ edge ∈ edges, edge.loop = true → ir.OnCycle edge.link) ∧
    ∀ cycle : List GraphEdge, (∀ edge ∈ cycle, edge ∈ edges) → IsCycle (cycle.map GraphEdge.link) →
      ∃ edge ∈ cycle, edge.loop = true

namespace WorkflowIR

variable (ir : WorkflowIR)

/-- The nodes that a node's edges lead to. -/
def next (id : String) : List String := (ir.adjacency id).filter ir.has

theorem mem_adjacency {id target : String} : target ∈ ir.adjacency id ↔ (id, target) ∈ ir.links := by
  simp only [adjacency, links, List.mem_map, List.mem_filter, List.mem_filterMap, Option.map_eq_some_iff,
    decide_eq_true_eq, Prod.mk.injEq]
  constructor
  · rintro ⟨edge, ⟨held, leaves⟩, rfl⟩
    exact ⟨edge, held, id, leaves, rfl, rfl⟩
  · rintro ⟨edge, held, node, leaves, rfl, rfl⟩
    exact ⟨edge, ⟨held, leaves⟩, rfl⟩

theorem foldl_discover (level : Nat) (targets : List String) (search : Search String) :
    targets.foldl (ir.discover level) search = (targets.filter ir.has).foldl (Search.find level) search := by
  induction targets generalizing search with
  | nil => rfl
  | cons target rest ih =>
      rw [List.foldl_cons, ih, List.filter_cons]
      cases present : ir.has target with
      | true => simp [discover, present, Search.find]
      | false => simp [discover, present]

theorem visit_eq (fuel : Nat) (search : Search String) :
    ir.visit fuel search = Breadth.run ir.next fuel search := by
  induction fuel generalizing search with
  | zero => rfl
  | succ fuel ih =>
      unfold visit Breadth.run
      cases search.queue with
      | nil => rfl
      | cons id rest =>
          simp only
          rw [ih, foldl_discover]
          rfl

theorem drained : (Breadth.run ir.next (ir.edges.length + 1) (Breadth.start ir.entry)).queue = [] := by
  have inside : ∀ id, ∀ target ∈ ir.next id, target ∈ ir.edges.map WorkflowIREdge.target := by
    intro id target held
    obtain ⟨edge, isEdge, rfl⟩ := List.mem_map.mp (List.mem_filter.mp held).1
    exact List.mem_map_of_mem (List.mem_filter.mp isEdge).1
  have drains := Breadth.start_drains inside ir.entry
  rwa [List.length_map] at drains

theorem way_iff (named : ir.entry ≠ "") (present : ir.has ir.entry = true) (length : Nat) (id : String) :
    ir.Way length id ↔ Breadth.Walk ir.next ir.entry length id := by
  constructor
  · intro way
    induction way with
    | entry => exact .start
    | step _ linked present ih =>
        exact .step ih (List.mem_filter.mpr ⟨ir.mem_adjacency.mpr linked, present⟩)
  · intro walk
    induction walk with
    | start => exact .entry named present
    | step _ linked ih =>
        obtain ⟨inside, present⟩ := List.mem_filter.mp linked
        exact .step ih (ir.mem_adjacency.mp inside) present

theorem way_entry {length : Nat} {id : String} (way : ir.Way length id) :
    ir.entry ≠ "" ∧ ir.has ir.entry = true := by
  induction way with
  | entry named present => exact ⟨named, present⟩
  | step _ _ _ ih => exact ih

theorem search_depth (id : String) : (ir.search.depth id).getD 0 = ir.distance id := by
  unfold search distance
  by_cases valid : ir.entry ≠ "" ∧ ir.has ir.entry = true
  · rw [if_pos valid]
    have ways : {length | ir.Way length id} = {length | Breadth.Walk ir.next ir.entry length id} :=
      Set.ext fun length => ir.way_iff valid.1 valid.2 length id
    rw [ways, visit_eq]
    exact ((Breadth.layered_start ir.next ir.entry).run _).depth_eq ir.drained id
  · have nowhere : {length | ir.Way length id} = ∅ :=
      Set.eq_empty_of_forall_notMem fun length way => valid (ir.way_entry way)
    rw [if_neg valid, nowhere, Nat.sInf_empty]
    rfl

theorem appendUnreached_depth (search : Search String) (added id : String) :
    ((appendUnreached search added).depth id).getD 0 = (search.depth id).getD 0 := by
  unfold appendUnreached
  split
  · rfl
  · rename_i unknown
    by_cases same : id = added
    · subst same
      rw [Option.not_isSome_iff_eq_none] at unknown
      simp [unknown]
    · simp [Function.update_of_ne same]

theorem depthOf_eq (id : String) : ir.depthOf id = ir.distance id := by
  have kept (ids : List String) (search : Search String) :
      ((ids.foldl appendUnreached search).depth id).getD 0 = (search.depth id).getD 0 := by
    induction ids generalizing search with
    | nil => rfl
    | cons added rest ih => rw [List.foldl_cons, ih, appendUnreached_depth]
  rw [depthOf, layout, kept, search_depth]

end WorkflowIR

/-- Steps that each lead up cannot come back. -/
theorem rises {height : String → Nat} {walk : List Link} (chain : walk.IsChain fun one two => one.2 = two.1)
    (up : ∀ step ∈ walk, height step.1 < height step.2) {first last : Link} (begins : walk.head? = some first)
    (ends : walk.getLast? = some last) : height first.1 < height last.2 := by
  induction walk generalizing first with
  | nil => cases begins
  | cons step rest ih =>
      cases begins
      rw [List.forall_mem_cons] at up
      cases rest with
      | nil =>
          cases ends
          exact up.1
      | cons second more =>
          rw [List.isChain_cons_cons] at chain
          have onward := ih chain.2 up.2 rfl (by simpa using ends)
          rw [← chain.1] at onward
          exact Nat.lt_trans up.1 onward

theorem not_isCycle {height : String → Nat} {walk : List Link} (up : ∀ step ∈ walk, height step.1 < height step.2) :
    ¬ IsCycle walk := by
  rintro ⟨chain, first, last, begins, ends, closes⟩
  have higher := rises chain up begins ends
  rw [closes] at higher
  exact Nat.lt_irrefl _ higher

theorem mem_graph_edges {ir : WorkflowIR} {edge : GraphEdge} (held : edge ∈ ir.graph.edges) :
    edge.link ∈ ir.links ∧ (edge.loop = true ↔ ir.distance edge.target ≤ ir.distance edge.source) := by
  obtain ⟨original, isOriginal, drawn⟩ := List.mem_filterMap.mp held
  obtain ⟨origin, leaves, rfl⟩ := Option.map_eq_some_iff.mp drawn
  refine ⟨List.mem_filterMap.mpr ⟨original, isOriginal, ?_⟩, ?_⟩
  · rw [WorkflowIREdge.source?, leaves]
    rfl
  · simp only [WorkflowIR.graphEdge, WorkflowIR.depthOf_eq, decide_eq_true_eq]

theorem mem_links {ir : WorkflowIR} {link : Link} (held : link ∈ ir.links) :
    ∃ edge ∈ ir.graph.edges, edge.link = link := by
  obtain ⟨original, isOriginal, drawn⟩ := List.mem_filterMap.mp held
  obtain ⟨node, leaves, rfl⟩ := Option.map_eq_some_iff.mp drawn
  obtain ⟨origin, isOrigin, rfl⟩ := Option.map_eq_some_iff.mp leaves
  refine ⟨ir.graphEdge original origin, List.mem_filterMap.mpr ⟨original, isOriginal, ?_⟩, rfl⟩
  rw [isOrigin]
  rfl

/-- That every cycle has a marked edge holds of every graph; that only edges on cycles are marked holds exactly
where every edge that lies on none leads away from the entry. -/
theorem graph_marksCycles_iff (ir : WorkflowIR) : MarksCycles ir ir.graph.edges ↔ ir.LeadsAway := by
  constructor
  · rintro ⟨only, _⟩ link held offCycles
    by_contra notAway
    obtain ⟨edge, isEdge, rfl⟩ := mem_links held
    exact offCycles (only edge isEdge ((mem_graph_edges isEdge).2.mpr (Nat.le_of_not_lt notAway)))
  · intro away
    constructor
    · intro edge held marked
      by_contra offCycles
      have farther := away edge.link (mem_graph_edges held).1 offCycles
      exact absurd ((mem_graph_edges held).2.mp marked) (Nat.not_le_of_lt farther)
    · intro cycle inside isCycle
      by_contra unmarked
      push Not at unmarked
      refine @not_isCycle ir.distance _ ?_ isCycle
      intro step held
      obtain ⟨edge, isEdge, rfl⟩ := List.mem_map.mp held
      apply Nat.lt_of_not_le
      intro back
      exact unmarked edge isEdge ((mem_graph_edges (inside edge isEdge)).2.mpr back)

/-- There is a graph whose marks are just for cycles exactly where every edge has a source, and every edge that
lies on no cycle leads away from the entry. -/
theorem parse_marksCycles_iff (ir : WorkflowIR) :
    (∃ graph, parseWorkflowGraph ir = some graph ∧ MarksCycles ir graph.edges) ↔
      (∀ edge ∈ ir.edges, edge.origin ≠ none) ∧ ir.LeadsAway := by
  have sources : ir.sourced = true ↔ ∀ edge ∈ ir.edges, edge.origin ≠ none := by
    simp only [WorkflowIR.sourced, List.all_eq_true, Option.isSome_iff_ne_none]
  rw [← graph_marksCycles_iff, ← sources, parseWorkflowGraph]
  constructor
  · rintro ⟨graph, parsed, marks⟩
    split at parsed
    · rename_i sourced
      rw [← Option.some.inj parsed] at marks
      exact ⟨sourced, marks⟩
    · contradiction
  · rintro ⟨sourced, marks⟩
    exact ⟨ir.graph, if_pos sourced, marks⟩

/-- An edge that an event takes. -/
example : parseWorkflowGraph ⟨none, none, none, "a", some [("a", {})],
    [⟨some "a.again", "a", none⟩, ⟨none, "a", none⟩]⟩ = none := rfl

/-- A node with two ways to another, one of them over a third. -/
def shortcut : WorkflowIR where
  entry := "a"
  nodes := some [("a", {}), ("b", {}), ("c", {})]
  edges := [⟨some "a.long", "b", none⟩, ⟨some "a.short", "c", none⟩, ⟨some "b.done", "c", none⟩]

/-- How far along the long way a node is. -/
def rank (id : String) : Nat := if id = "a" then 0 else if id = "b" then 1 else 2

/-- The edge of the long way into the last node is marked, and there is no cycle at all. -/
theorem shortcut_marked : (∃ graph, parseWorkflowGraph shortcut = some graph ∧ ¬ MarksCycles shortcut graph.edges) ∧
    ∀ walk, (∀ step ∈ walk, step ∈ shortcut.links) → ¬ IsCycle walk := by
  have up : ∀ link ∈ shortcut.links, rank link.1 < rank link.2 := by decide
  have acyclic : ∀ walk, (∀ step ∈ walk, step ∈ shortcut.links) → ¬ IsCycle walk :=
    fun walk inside => @not_isCycle rank _ fun step held => up step (inside step held)
  refine ⟨⟨shortcut.graph, rfl, ?_⟩, acyclic⟩
  rintro ⟨only, _⟩
  have marked : shortcut.graph.edges[2]?.map GraphEdge.loop = some true := by decide +kernel
  obtain ⟨edge, found, loops⟩ := Option.map_eq_some_iff.mp marked
  obtain ⟨walk, isCycle, inside, _⟩ := only edge (List.mem_of_getElem? found) loops
  exact acyclic walk inside isCycle

end CultureNodes.Web
