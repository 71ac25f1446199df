import CultureNodes.Compiler.Compile
import CultureNodes.Engine.TriggerEvent

/-!
Loading a version. The engine decodes the normalized form once more before it starts a run: it parses the
durations, compiles the schemas and the expressions, and looks up the names that the graph uses. A definition that
does not decode starts no run.
-/

namespace CultureNodes.Engine

open Compiler (Authored quoted)

/-- What a normalized form holds beside its graph, as it decodes: the limits, the schemas of the workflow, each
node with its durations, schemas and conditions, the triggers, the affinity rules and the expressions. -/
structure Particulars where
  decodeLimits : Except String Unit
  inputSchema : Except String Unit
  outputSchema : Except String Unit
  decodeNode : String → Except String Unit
  triggers : List Trigger := []
  affinity : List AffinityRule := []
  compileGuard : String → Except String Unit

/-- The checks in order, up to the first that refuses. -/
def inOrder : List (Except String Unit) → Except String Unit
  | [] => .ok ()
  | .ok () :: rest => inOrder rest
  | .error detail :: _ => .error detail

theorem inOrder_ok {checks : List (Except String Unit)} (all : ∀ check ∈ checks, check = .ok ()) :
    inOrder checks = .ok () := by
  induction checks with
  | nil => rfl
  | cons check rest ih =>
      rw [List.forall_mem_cons] at all
      rw [all.1, inOrder, ih all.2]

namespace Particulars

variable (parts : Particulars) (wf : Workflow) (doc : Authored)

/-- An expression, where there is one. -/
def checkGuard (place guard : String) : Except String Unit :=
  if guard = "" then .ok () else (parts.compileGuard guard).mapError (place ++ ·)

def checkTrigger (index : Nat) (trigger : Trigger) : Except String Unit :=
  if trigger.onEvent = "" then .error ("trigger " ++ toString index ++ " declares no event name")
  else parts.checkGuard ("trigger " ++ toString index ++ " (onEvent " ++ quoted trigger.onEvent ++ ") condition: ")
    trigger.condition

def checkAffinity (index : Nat) (rule : AffinityRule) : Except String Unit :=
  if rule.node = "" ∨ rule.actor = "" then
    .error ("affinity rule " ++ toString index ++ " declares no node or no actor")
  else if (wf.node? rule.node).isNone then
    .error ("affinity rule " ++ toString index ++ " targets node " ++ quoted rule.node ++
      ", which the IR does not declare")
  else parts.checkGuard ("affinity rule " ++ toString index ++ " (node " ++ quoted rule.node ++ ") condition: ")
    rule.condition

def checkEdge (index : Nat) (edge : Edge) : Except String Unit :=
  if edge.onEvent ≠ "" ∧ (wf.node? edge.target).isNone then
    .error ("event edge " ++ toString index ++ " (onEvent " ++ quoted edge.onEvent ++ ") targets node " ++
      quoted edge.target ++ ", which the IR does not declare")
  else if edge.onEvent = "" ∧ (edge.fromNode = "" ∨ edge.fromOutcome = "") then
    .error ("edge " ++ toString index ++ " (" ++ quoted edge.source ++ ") is not decomposed into node and outcome")
  else parts.checkGuard ("edge " ++ toString index ++ " (" ++ quoted edge.source ++ ") guard: ") edge.guard

/-- The nodes stand in a map, whose order is any; the model takes them by their names. -/
def checks : List (Except String Unit) :=
  [if doc.graph.entry = "" then .error "normalized IR declares no entry node" else .ok (), parts.decodeLimits,
    parts.inputSchema.mapError ("workflow input contract: " ++ ·),
    parts.outputSchema.mapError ("workflow output contract: " ++ ·)] ++
  (doc.graph.nodes.map fun node =>
    (parts.decodeNode node.1).mapError ("node " ++ quoted node.1 ++ ": " ++ ·)) ++
  [if (doc.load.node? doc.load.entry).isNone then
      .error ("entry node " ++ quoted doc.load.entry ++ " is not declared in the IR") else .ok ()] ++
  (parts.triggers.zipIdx.map fun trigger => parts.checkTrigger trigger.2 trigger.1) ++
  (parts.affinity.zipIdx.map fun rule => parts.checkAffinity doc.load rule.2 rule.1) ++
  doc.load.edges.zipIdx.map fun edge => parts.checkEdge doc.load edge.2 edge.1

def loadWorkflow : Except String Workflow := (inOrder (parts.checks doc)).map fun _ => doc.load

/-- `CreateRun` from the version on. -/
def startRun (env : Env) (input : Payload) (now : Nat) : Except EngineError RunDb :=
  match parts.loadWorkflow doc with
  | .error detail => .error (.workflow detail)
  | .ok wf => createRun env wf input now

/-- Whatever is not the graph decodes. -/
structure Decodes : Prop where
  limits : parts.decodeLimits = .ok ()
  input : parts.inputSchema = .ok ()
  output : parts.outputSchema = .ok ()
  nodes : ∀ node ∈ doc.graph.nodes, parts.decodeNode node.1 = .ok ()
  triggers : ∀ trigger ∈ parts.triggers.zipIdx, parts.checkTrigger trigger.2 trigger.1 = .ok ()
  affinity : ∀ rule ∈ parts.affinity.zipIdx, parts.checkAffinity doc.load rule.2 rule.1 = .ok ()
  guards : ∀ edge ∈ doc.load.edges, edge.guard ≠ "" → parts.compileGuard edge.guard = .ok ()

variable {parts wf doc}

theorem loadWorkflow_eq (loaded : parts.loadWorkflow doc = .ok wf) : doc.load = wf := by
  unfold loadWorkflow at loaded
  cases checked : inOrder (parts.checks doc) with
  | ok _ =>
      rw [checked] at loaded
      exact Except.ok.inj loaded
  | error _ =>
      rw [checked] at loaded
      contradiction

theorem checkEdge_ok {edge : Edge} (index : Nat) (known : (wf.node? edge.target).isSome)
    (decomposed : edge.onEvent = "" → edge.fromNode ≠ "" ∧ edge.fromOutcome ≠ "")
    (guarded : edge.guard ≠ "" → parts.compileGuard edge.guard = .ok ()) :
    parts.checkEdge wf index edge = .ok () := by
  have present : ¬(wf.node? edge.target).isNone = true := by
    rw [Option.isNone_iff_eq_none]
    exact Option.isSome_iff_ne_none.mp known
  rw [checkEdge, if_neg fun both => present both.2, if_neg]
  · unfold checkGuard
    split
    · rfl
    · rename_i some
      rw [guarded some]
      rfl
  · rintro ⟨isNodeEdge, noNode | noOutcome⟩
    · exact (decomposed isNodeEdge).1 noNode
    · exact (decomposed isNodeEdge).2 noOutcome

/-- A definition whose graph is in order loads, once the rest of it decodes. -/
theorem loadWorkflow_ok (decodes : parts.Decodes doc) (named : doc.graph.entry ≠ "")
    (entry : (doc.load.node? doc.load.entry).isSome)
    (targets : ∀ edge ∈ doc.load.edges, (doc.load.node? edge.target).isSome)
    (decomposed : ∀ edge ∈ doc.load.edges, edge.onEvent = "" → edge.fromNode ≠ "" ∧ edge.fromOutcome ≠ "") :
    parts.loadWorkflow doc = .ok doc.load := by
  rw [loadWorkflow, inOrder_ok]
  · rfl
  · have declared : ¬(doc.load.node? doc.load.entry).isNone = true := by
      rw [Option.isNone_iff_eq_none]
      exact Option.isSome_iff_ne_none.mp entry
    simp only [checks, List.forall_mem_append, List.forall_mem_map, List.forall_mem_cons, List.not_mem_nil,
      false_imp_iff, implies_true, and_true, if_neg named, if_neg declared, decodes.limits, decodes.input,
      decodes.output, true_and]
    refine ⟨⟨⟨⟨⟨rfl, rfl⟩, fun node held => ?_⟩, decodes.triggers⟩, decodes.affinity⟩, fun edge held => ?_⟩
    · rw [decodes.nodes node held]
      rfl
    · have isEdge := List.fst_mem_of_mem_zipIdx held
      exact checkEdge_ok _ (targets _ isEdge) (decomposed _ isEdge) (decodes.guards _ isEdge)

end Particulars

end CultureNodes.Engine
