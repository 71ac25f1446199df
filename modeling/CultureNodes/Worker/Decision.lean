import CultureNodes.Compiler.Contract

/-!
Decision nodes in the worker. The worker compiles a node's ports again, in an environment of its own, and
answers with the first port whose condition holds. The environment declares fewer variables than the
compiler's, so a port can be published that no dispatch can compile.
-/

namespace CultureNodes.Worker

open Compiler (Cel SelectPort Spec SpecNode quoted)

/-- The variables of the worker's environment. -/
def decisionEnv : List String := ["input", "output", "outcome"]

/-- A decision node as the worker reads it from the published workflow. -/
structure DecisionNode where
  id : String
  select : List SelectPort
deriving DecidableEq, Repr

/-- The compiled ports of a node, each with its outcome. -/
abbrev DecisionPrograms (Program : Type) := List (String × Program)

/-- The compiled ports by workflow digest and node. -/
abbrev DecisionCache (Program : Type) := List (String × DecisionPrograms Program)

section

variable {Ast Program : Type} (cel : Cel Ast Program)

def portName (node : DecisionNode) (index : Nat) (outcome : String) : String :=
  "worker: node " ++ quoted node.id ++ " select[" ++ toString index ++ "] (" ++ outcome ++ ")"

def compilePort (node : DecisionNode) (entry : SelectPort × Nat) : Except String (String × Program) :=
  match cel.compile decisionEnv entry.1.when with
  | .error issues => .error (portName node entry.2 entry.1.outcome ++ ": " ++ issues)
  | .ok ast =>
      match cel.program ast with
      | .error reason => .error (portName node entry.2 entry.1.outcome ++ ": " ++ reason)
      | .ok program => .ok (entry.1.outcome, program)

/-- The ports in order, or the first that does not compile. -/
def compilePorts (node : DecisionNode) : List (SelectPort × Nat) →
    Except String (DecisionPrograms Program)
  | [] => .ok []
  | entry :: rest =>
      match compilePort cel node entry with
      | .error reason => .error reason
      | .ok compiled =>
          match compilePorts node rest with
          | .error reason => .error reason
          | .ok others => .ok (compiled :: others)

def cacheKey (digest : String) (node : DecisionNode) : String :=
  digest ++ "\x00" ++ node.id

/-- A node that does not compile is not remembered. -/
def programs (cache : DecisionCache Program) (digest : String) (node : DecisionNode) :
    Except String (DecisionPrograms Program) × DecisionCache Program :=
  match cache.lookup (cacheKey digest node) with
  | some cached => (.ok cached, cache)
  | none =>
      match compilePorts cel node node.select.zipIdx with
      | .error reason => (.error reason, cache)
      | .ok compiled => (.ok compiled, (cacheKey digest node, compiled) :: cache)

/-- An absent document is an empty map to a condition. -/
def decodeCELValue : Json → Json
  | .null => .object []
  | value => value

def isTrue : Json → Bool
  | .bool value => value
  | _ => false

/-- The first port whose condition holds; a condition that does not evaluate has said nothing. -/
def firstMatch (node : DecisionNode) (activation : List (String × Json)) :
    List ((String × Program) × Nat) → Except String (Option String)
  | [] => .ok none
  | (port, index) :: rest =>
      match cel.eval port.2 activation with
      | .error reason =>
          .error (portName node index port.1 ++ " did not evaluate: " ++ reason)
      | .ok value => if isTrue value then .ok (some port.1) else firstMatch node activation rest

def evaluateDecision (cache : DecisionCache Program) (digest : String) (node : DecisionNode)
    (runInput nodeInput : Json) : Except String (Option String) × DecisionCache Program :=
  match programs cel cache digest node with
  | (.error reason, cache) => (.error reason, cache)
  | (.ok compiled, cache) =>
      if compiled = [] then
        (.error ("worker: decision node " ++ quoted node.id ++ " declares no select ports"), cache)
      else
        let activation := [("input", decodeCELValue runInput), ("output", decodeCELValue nodeInput),
          ("outcome", .string "")]
        (firstMatch cel node activation compiled.zipIdx, cache)

end

variable {Ast Program : Type} {cel : Cel Ast Program} {spec : Spec}

/-- A node with a port that does not compile is refused at every dispatch: the refusal leaves the cache as
it was. -/
theorem evaluateDecision_refused {cache : DecisionCache Program} {digest reason : String}
    {node : DecisionNode} (fresh : cache.lookup (cacheKey digest node) = none)
    (failed : compilePorts cel node node.select.zipIdx = .error reason) (runInput nodeInput : Json) :
    evaluateDecision cel cache digest node runInput nodeInput = (.error reason, cache) := by
  simp [evaluateDecision, programs, fresh, failed]

/-- The ports of an accepted workflow all compile where they are dispatched exactly when none of them
speaks of an event, of the node or of the budget. -/
theorem ports_compile_iff (lawful : cel.Scoped) (accepted : Compiler.accepts cel spec = true) :
    (∀ id node, (id, node) ∈ spec.nodes → node.kind = .decision → ∀ port ∈ node.select,
      ∃ ast, cel.compile decisionEnv port.when = .ok ast) ↔
    ∀ id node, (id, node) ∈ spec.nodes → node.kind = .decision → ∀ port ∈ node.select,
      ∀ name ∈ ["event", "node", "budget"], name ∉ cel.freeVars port.when := by
  have declared : ∀ name ∈ Compiler.celEnv, name ∈ decisionEnv ∨ name ∈ ["event", "node", "budget"] := by
    decide
  have apart : ∀ name ∈ ["event", "node", "budget"], name ∉ decisionEnv := by
    decide
  constructor
  · intro compiles id node member decides port isPort name isOther free
    have both := (lawful decisionEnv port.when).mp (compiles id node member decides port isPort)
    exact apart name isOther (both.2 name free)
  · intro spared id node member decides port isPort
    obtain ⟨parses, known⟩ := (lawful Compiler.celEnv port.when).mp
      (Compiler.compile_of_accepts accepted member isPort)
    apply (lawful decisionEnv port.when).mpr
    refine ⟨parses, ?_⟩
    intro name free
    rcases declared name (known name free) with inner | other
    · exact inner
    · exact absurd free (spared id node member decides port isPort name other)

/-- Two expressions with their free variables. -/
def sampleVars : List (String × List String) :=
  [("output.score > 3", ["output"]), ("event.name == 'go'", ["event"])]

def sampleCel : Cel String String where
  parses expression := (sampleVars.lookup expression).isSome
  freeVars expression := (sampleVars.lookup expression).getD []
  compile declared expression :=
    match sampleVars.lookup expression with
    | none => .error "ERROR: <input>:1:1: Syntax error"
    | some names =>
        if ∀ name ∈ names, name ∈ declared then .ok expression
        else .error ("ERROR: <input>:1:1: undeclared reference to '" ++ names.headD "" ++
          "' (in container '')")
  outputType _ := "dyn"
  program ast := .ok ast
  eval _ _ := .ok (.bool true)

theorem sampleCel_scoped : sampleCel.Scoped := by
  intro declared expression
  simp only [sampleCel]
  cases found : sampleVars.lookup expression with
  | none => simp
  | some names =>
      by_cases all : ∀ name ∈ names, name ∈ declared
      · simpa [if_pos all] using all
      · simp [all]

/-- A workflow that decides by one port. -/
def sampleSpec (expression : String) : Spec where
  triggers := []
  nodes := [("done", { kind := .endNode }),
    ("gate", { kind := .decision, select := [⟨"go", expression⟩] })]
  edges := [""]
  nodesSorted := by
    have sorted : ["done", "gate"].Pairwise (· < ·) := by decide +kernel
    exact sorted

theorem ports_compile_iff_score :
    Compiler.accepts sampleCel (sampleSpec "output.score > 3") = true ∧
    ∀ id node, (id, node) ∈ (sampleSpec "output.score > 3").nodes → node.kind = .decision →
      ∀ port ∈ node.select, ∃ ast, sampleCel.compile decisionEnv port.when = .ok ast := by
  have accepted : Compiler.accepts sampleCel (sampleSpec "output.score > 3") = true := by decide +kernel
  refine ⟨accepted, ?_⟩
  apply (ports_compile_iff sampleCel_scoped accepted).mpr
  intro id node member decides port isPort
  simp only [sampleSpec, List.mem_cons, Prod.mk.injEq, List.not_mem_nil, or_false] at member
  rcases member with ⟨_, rfl⟩ | ⟨_, rfl⟩
  · cases decides
  · cases List.mem_singleton.mp isPort
    decide +kernel

/-- The compiler accepts the port, and no dispatch of its node, from the first on, gets past it. -/
theorem event_port_refused :
    Compiler.accepts sampleCel (sampleSpec "event.name == 'go'") = true ∧
    (¬∀ id node, (id, node) ∈ (sampleSpec "event.name == 'go'").nodes → node.kind = .decision →
      ∀ port ∈ node.select, ∃ ast, sampleCel.compile decisionEnv port.when = .ok ast) ∧
    ∀ digest runInput nodeInput,
      evaluateDecision sampleCel [] digest ⟨"gate", [⟨"go", "event.name == 'go'"⟩]⟩ runInput nodeInput =
        (.error ("worker: node \"gate\" select[0] (go): " ++
          "ERROR: <input>:1:1: undeclared reference to 'event' (in container '')"), []) := by
  have failed : compilePorts sampleCel ⟨"gate", [⟨"go", "event.name == 'go'"⟩]⟩
      [(⟨"go", "event.name == 'go'"⟩, 0)] = .error ("worker: node \"gate\" select[0] (go): " ++
        "ERROR: <input>:1:1: undeclared reference to 'event' (in container '')") := by
    decide +kernel
  refine ⟨by decide +kernel, ?_, ?_⟩
  · intro compiles
    have member : ("gate", { kind := .decision, select := [⟨"go", "event.name == 'go'"⟩] }) ∈
        (sampleSpec "event.name == 'go'").nodes := by
      simp [sampleSpec]
    obtain ⟨ast, compiled⟩ := compiles _ _ member rfl _ List.mem_cons_self
    have refused : (sampleCel.compile decisionEnv "event.name == 'go'").isOk = false := by
      decide +kernel
    rw [compiled] at refused
    cases refused
  · intro digest runInput nodeInput
    exact evaluateDecision_refused rfl failed runInput nodeInput

end CultureNodes.Worker
