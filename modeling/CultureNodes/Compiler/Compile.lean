import Mathlib.Data.Prod.Lex
import CultureNodes.Compiler.Graph
import CultureNodes.Compiler.Parallel
import CultureNodes.Contracts.Canonical
import CultureNodes.Engine.Plan

/-!
From a document to the version a run pins. The normalized form lists the edges in one order, so neither the
digest nor a transition depends on the order in which they were written.
-/

namespace CultureNodes.Compiler

open Engine (normalizeEdges decomposeEdge)

def lowerOrDigit (char : Char) : Bool := char.isLower || char.isDigit

/-- `^[a-z0-9][a-z0-9-]*$` -/
def isName (text : List Char) : Bool :=
  text.head?.any lowerOrDigit && text.all fun char => lowerOrDigit char || char == '-'

/-- `^[a-z][a-z0-9_]*$` -/
def isOutcomeName (text : List Char) : Bool :=
  text.head?.any Char.isLower && text.all fun char => lowerOrDigit char || char == '_'

/-- `^[a-z0-9][a-z0-9-]*\\.[a-z][a-z0-9_]*$`. No name holds a dot, so the first one is the separator. -/
def isEdgeSource (source : String) : Bool :=
  isName (source.toList.takeWhile (· ≠ '.')) &&
    match source.toList.dropWhile (· ≠ '.') with
    | [] => false
    | _ :: outcome => isOutcomeName outcome

/-- An edge has a source or an event, exactly one of the two, and a target. -/
def edgeShape (edge : Edge) : Bool :=
  (if edge.onEvent = "" then isEdgeSource edge.source else edge.source = "") && isName edge.target.toList

/-- A document with its fields beside the graph as normalization leaves them; none of them depends on the
edges. `head` and `spec` are the members of the normalized form other than the spec and other than the
edges. -/
structure Authored where
  graph : GraphDocument
  head : List (String × Json)
  spec : List (String × Json)
  limits : Engine.Limits
  settings : String → Engine.NodeSettings

def Authored.withEdges (doc : Authored) (edges : List Edge) : Authored :=
  { doc with graph := { doc.graph with edges := edges } }

/-- What the parallel and join checks read of the graph. -/
def GraphDocument.document (doc : GraphDocument) : Document where
  entry := doc.entry
  nodes := doc.nodes.map fun pair => (pair.1, pair.2.toNode)
  edges := doc.edges
  nodesSorted := by
    have same : (doc.nodes.map fun pair => (pair.1, pair.2.toNode)).map Prod.fst = doc.nodes.map Prod.fst := by
      rw [List.map_map]
      rfl
    rw [same]
    exact doc.nodesSorted

structure CompiledWorkflow where
  edges : List Engine.Edge
  normalized : List Char
  digest : String

/-- A member that is left out when it is empty. -/
def textMember (name text : String) : List (String × Json) :=
  if text = "" then [] else [(name, .string text)]

def edgeJson (edge : Engine.Edge) : Json :=
  .object (textMember "from" edge.source ++ textMember "fromNode" edge.fromNode ++
    textMember "fromOutcome" edge.fromOutcome ++ textMember "onEvent" edge.onEvent ++
    [("to", .string edge.target)] ++ textMember "when" edge.guard)

/-- The normalized form of a document. -/
def Authored.normalize (doc : Authored) (edges : List Engine.Edge) : Json :=
  .object (doc.head ++ [("spec", .object (doc.spec ++ [("edges", .array (edges.map edgeJson))]))])

section

-- The digest, the schema library's words, and the levels that look neither at edges nor at the graph.
variable (sha256 : List Char → String) (schemaMessage : Edge → String × String)
  (levels : Authored → List Diagnostic)

/-- The structure level, as far as it is about edges. -/
def checkEdgeShapes (doc : GraphDocument) : List Diagnostic :=
  doc.edges.zipIdx.filterMap fun indexed =>
    if edgeShape indexed.1 then none
    else some ⟨.error, "/spec/edges/" ++ toString indexed.2, "structure.schema", (schemaMessage indexed.1).1,
      "see " ++ (schemaMessage indexed.1).2 ++ " in the workflow schema"⟩

def diagnose (doc : Authored) : List Diagnostic :=
  checkEdgeShapes schemaMessage doc.graph ++ doc.graph.checkGraph ++ doc.graph.document.checkParallelJoin ++
    levels doc

def hasErrors (diagnostics : List Diagnostic) : Bool := diagnostics.any fun diagnostic => diagnostic.level = .error

def compile (doc : Authored) : Option CompiledWorkflow :=
  if hasErrors (diagnose schemaMessage levels doc) then none
  else
    let edges := normalizeEdges doc.graph.edges
    let normalized := Contracts.writeValue (Contracts.toMaps (doc.normalize edges))
    some ⟨edges, normalized, "sha256:" ++ sha256 normalized⟩

end

/-- The version as the engine loads it. -/
def Authored.load (doc : Authored) : Engine.Workflow :=
  Engine.Workflow.load doc.graph.document doc.limits doc.settings

/-- What the order of normalized edges compares. -/
def edgeKey (edge : Engine.Edge) : String ×ₗ String ×ₗ String ×ₗ String ×ₗ String :=
  toLex (edge.onEvent, toLex (edge.fromNode, toLex (edge.fromOutcome, toLex (edge.target, edge.guard))))

theorem before_iff (left right : Engine.Edge) : left.before right = true ↔ edgeKey left < edgeKey right := by
  simp only [Engine.Edge.before, edgeKey, Prod.Lex.toLex_lt_toLex]
  split_ifs with events nodes outcomes targets <;> simp_all

theorem not_before_iff (left right : Engine.Edge) :
    (!right.before left) = true ↔ edgeKey left ≤ edgeKey right := by
  rw [Bool.not_eq_true', ← not_lt, ← before_iff, Bool.not_eq_true]

theorem edgeKey_injective_parts {left right : Engine.Edge} (same : edgeKey left = edgeKey right) :
    left.onEvent = right.onEvent ∧ left.fromNode = right.fromNode ∧ left.fromOutcome = right.fromOutcome ∧
      left.target = right.target ∧ left.guard = right.guard := by
  simpa [edgeKey] using same

theorem toList_of_splitEdgeFrom {source node outcome : String}
    (split : splitEdgeFrom source = some (node, outcome)) :
    source.toList = node.toList ++ '.' :: outcome.toList := by
  unfold splitEdgeFrom at split
  dsimp only at split
  split at split
  · cases split
  · rename_i dot rest dropped
    split at split
    · cases split
    · have isDot : dot = '.' := by
        have stops := List.head?_dropWhile_not (· ≠ '.') source.toList
        rw [dropped] at stops
        simpa using stops
      simp only [Option.some.injEq, Prod.mk.injEq] at split
      rw [← split.1, ← split.2, String.toList_ofList, String.toList_ofList]
      have whole := List.takeWhile_append_dropWhile (p := (· ≠ '.')) (l := source.toList)
      rw [dropped, isDot] at whole
      exact whole.symm

theorem splitEdgeFrom_of_shape {source : String} (shape : isEdgeSource source = true) :
    ∃ node outcome, splitEdgeFrom source = some (node, outcome) := by
  unfold isEdgeSource at shape
  unfold splitEdgeFrom
  dsimp only
  cases dropped : source.toList.dropWhile (· ≠ '.') with
  | nil =>
      rw [dropped] at shape
      simp at shape
  | cons dot outcome =>
      rw [dropped] at shape
      simp only [Bool.and_eq_true] at shape
      have named : source.toList.takeWhile (· ≠ '.') ≠ [] := by
        intro empty
        rw [empty] at shape
        simp [isName] at shape
      have outcomeNamed : outcome ≠ [] := by
        intro empty
        simp [empty, isOutcomeName] at shape
      exact ⟨_, _, if_neg (not_or.mpr ⟨named, outcomeNamed⟩)⟩

/-- Among edges of the schema's shape the key tells them apart. -/
theorem decomposeEdge_eq_of_key {left right : Edge} (shape : edgeShape left = true)
    (shapeToo : edgeShape right = true)
    (same : edgeKey (decomposeEdge left) = edgeKey (decomposeEdge right)) :
    decomposeEdge left = decomposeEdge right := by
  obtain ⟨events, nodes, outcomes, targets, guards⟩ := edgeKey_injective_parts same
  have sources : left.source = right.source := by
    simp only [edgeShape, Bool.and_eq_true] at shape shapeToo
    simp only [decomposeEdge] at events nodes outcomes
    by_cases isNodeEdge : left.onEvent = ""
    · rw [if_pos isNodeEdge] at shape
      rw [if_pos (events ▸ isNodeEdge)] at shapeToo
      obtain ⟨node, outcome, split⟩ := splitEdgeFrom_of_shape shape.1
      obtain ⟨nodeToo, outcomeToo, splitToo⟩ := splitEdgeFrom_of_shape shapeToo.1
      rw [split, splitToo] at nodes outcomes
      simp only [Option.getD_some] at nodes outcomes
      apply String.toList_injective
      rw [toList_of_splitEdgeFrom split, toList_of_splitEdgeFrom splitToo, nodes, outcomes]
    · rw [if_neg isNodeEdge] at shape
      rw [if_neg (events ▸ isNodeEdge)] at shapeToo
      simp only [decide_eq_true_eq] at shape shapeToo
      rw [shape.1, shapeToo.1]
  simp only [decomposeEdge] at events targets guards ⊢
  rw [sources, events, targets, guards]

theorem normalizeEdges_perm {edges others : List Edge} (perm : others.Perm edges)
    (shaped : ∀ edge ∈ edges, edgeShape edge = true) : normalizeEdges others = normalizeEdges edges := by
  have sorted : ∀ list : List Edge, (normalizeEdges list).Pairwise fun left right => !right.before left := by
    intro list
    apply List.pairwise_mergeSort
    · intro first second third
      simp only [not_before_iff]
      exact le_trans
    · intro first second
      rw [Bool.or_eq_true, not_before_iff, not_before_iff]
      exact le_total _ _
  have same : (normalizeEdges others).Perm (normalizeEdges edges) :=
    (List.mergeSort_perm _ _).trans ((perm.map decomposeEdge).trans (List.mergeSort_perm _ _).symm)
  refine List.Perm.eq_of_pairwise ?_ (sorted others) (sorted edges) same
  intro left right among amongToo forward backward
  obtain ⟨authored, declared, rfl⟩ := Engine.mem_normalizeEdges.mp among
  obtain ⟨authoredToo, declaredToo, rfl⟩ := Engine.mem_normalizeEdges.mp amongToo
  rw [not_before_iff] at forward backward
  exact decomposeEdge_eq_of_key (shaped authored (perm.subset declared)) (shaped authoredToo declaredToo)
    (le_antisymm forward backward)

theorem shaped_of_compile {sha256 : List Char → String} {schemaMessage : Edge → String × String}
    {levels : Authored → List Diagnostic} {doc : Authored} {compiled : CompiledWorkflow}
    (accepted : compile sha256 schemaMessage levels doc = some compiled) :
    ∀ edge ∈ doc.graph.edges, edgeShape edge = true := by
  unfold compile at accepted
  split at accepted
  · cases accepted
  · rename_i clean
    intro edge declared
    by_contra misshapen
    obtain ⟨index, bound, isEdge⟩ := List.getElem_of_mem declared
    apply clean
    rw [hasErrors, List.any_eq_true]
    refine ⟨⟨.error, "/spec/edges/" ++ toString index, "structure.schema", (schemaMessage edge).1,
      "see " ++ (schemaMessage edge).2 ++ " in the workflow schema"⟩, ?_, rfl⟩
    simp only [diagnose, List.mem_append]
    left; left; left
    unfold checkEdgeShapes
    rw [List.mem_filterMap]
    refine ⟨(edge, index), ?_, if_neg misshapen⟩
    rw [List.mem_zipIdx_iff_getElem?]
    simp [List.getElem?_eq_getElem bound, isEdge]

theorem eq_of_compile {sha256 : List Char → String} {schemaMessage : Edge → String × String}
    {levels : Authored → List Diagnostic} {doc : Authored} {compiled : CompiledWorkflow}
    (accepted : compile sha256 schemaMessage levels doc = some compiled) :
    compiled = ⟨normalizeEdges doc.graph.edges,
      Contracts.writeValue (Contracts.toMaps (doc.normalize (normalizeEdges doc.graph.edges))), "sha256:" ++
        sha256 (Contracts.writeValue (Contracts.toMaps (doc.normalize (normalizeEdges doc.graph.edges))))⟩ := by
  unfold compile at accepted
  split at accepted
  · cases accepted
  · exact (Option.some.inj accepted).symm

theorem load_withEdges {doc : Authored} {edges : List Edge}
    (same : normalizeEdges edges = normalizeEdges doc.graph.edges) : (doc.withEdges edges).load = doc.load := by
  simp only [Authored.load, Engine.Workflow.load, Authored.withEdges, GraphDocument.document, same]

/-- Two accepted documents that list the same edges in different orders have one normalized form and one
digest, and the engine moves a run of the one as it moves a run of the other. -/
theorem compile_permuted {sha256 : List Char → String} {schemaMessage : Edge → String × String}
    {levels : Authored → List Diagnostic} {doc : Authored} {edges : List Edge}
    {first second : CompiledWorkflow} (perm : edges.Perm doc.graph.edges)
    (accepted : compile sha256 schemaMessage levels doc = some first)
    (acceptedToo : compile sha256 schemaMessage levels (doc.withEdges edges) = some second) :
    second.edges = first.edges ∧ second.digest = first.digest ∧
    ∀ (evaluate : Engine.Edge → Engine.Payload → Engine.Payload → String → Except String Bool)
      (runInput output : Engine.Payload) (node outcome : String) (transitions : Nat) (visits : String → Nat)
      (elapsed activeTokens : Nat),
      Engine.planTransition ⟨(doc.withEdges edges).load, node, outcome,
          fun edge => evaluate edge runInput output outcome, transitions, visits, elapsed, activeTokens⟩ =
        Engine.planTransition ⟨doc.load, node, outcome,
          fun edge => evaluate edge runInput output outcome, transitions, visits, elapsed, activeTokens⟩ := by
  have same := normalizeEdges_perm perm (shaped_of_compile accepted)
  have isFirst := eq_of_compile accepted
  have isSecond := eq_of_compile acceptedToo
  have normalized : (doc.withEdges edges).normalize (normalizeEdges (doc.withEdges edges).graph.edges) =
      doc.normalize (normalizeEdges doc.graph.edges) := by
    simp only [Authored.withEdges, same]
    rfl
  refine ⟨?_, ?_, ?_⟩
  · rw [isFirst, isSecond]
    exact same
  · rw [isFirst, isSecond, normalized]
  · intro evaluate runInput output node outcome transitions visits elapsed activeTokens
    rw [load_withEdges same]

/-- The document whose node loops, in the order it is written. -/
def loopDocument : Authored where
  graph := GraphDocument.entryLoop
  head := [("apiVersion", .string "nodes.culture.dev/v1alpha1"), ("kind", .string "Workflow"),
    ("metadata", .object [("name", .string "loop"), ("version", .string "1")])]
  spec := [("entry", .string GraphDocument.entryLoop.entry), ("limits", .object [("maxTransitions", .number "100")]),
    ("nodes", .object [("finish", .object [("kind", .string "end")]), ("fix", .object [("kind", .string "agent")]),
      ("start", .object [("kind", .string "agent")])])]
  limits := { maxTransitions := 100 }
  settings := fun _ => {}

/-- The SHA-256 digest of the normalized form of `loopDocument`. -/
def loopDigest (_ : List Char) : String :=
  "8ababedaa6c4db18d4508b34d6c1352dfae5499fb8f4a567d02832c28588a13d"

theorem compile_permuted_reversed :
    ∃ first second,
      compile loopDigest (fun _ => ("", "")) (fun _ => []) loopDocument = some first ∧
      compile loopDigest (fun _ => ("", "")) (fun _ => [])
        (loopDocument.withEdges loopDocument.graph.edges.reverse) = some second ∧
      second.edges = first.edges ∧ second.digest = first.digest := by
  obtain ⟨first, accepted⟩ := Option.isSome_iff_exists.mp
    (show (compile loopDigest (fun _ => ("", "")) (fun _ => []) loopDocument).isSome by decide +kernel)
  obtain ⟨second, acceptedToo⟩ := Option.isSome_iff_exists.mp
    (show (compile loopDigest (fun _ => ("", "")) (fun _ => [])
      (loopDocument.withEdges loopDocument.graph.edges.reverse)).isSome by decide +kernel)
  have permuted := compile_permuted (List.reverse_perm _) accepted acceptedToo
  exact ⟨first, second, accepted, acceptedToo, permuted.1, permuted.2.1⟩

end CultureNodes.Compiler
