import CultureNodes.Compiler.Document
import CultureNodes.Library.Json

/-!
The contract level of the compiler, and the ledger level's look at projection names: whether the outcomes
a node needs are declared, its bindings address data, and its CEL expressions compile. CEL itself is a
parameter. Schemas, hooks and affinity rules are checked elsewhere and do not bear on these.
-/

namespace CultureNodes.Compiler

/-- A text between quotation marks, with what would end it or break the line escaped. -/
def quoteText (text : String) : String :=
  "\"" ++ String.ofList (text.toList.flatMap fun char =>
    if char = '"' then ['\\', '"']
    else if char = '\\' then ['\\', '\\']
    else if char = '\n' then ['\\', 'n']
    else if char = '\r' then ['\\', 'r']
    else if char = '\t' then ['\\', 't']
    else [char]) ++ "\""

structure SelectPort where
  outcome : String
  when : String
deriving DecidableEq, Repr

/-- An entry of a node's bindings: a pointer, or a value written into the workflow. -/
inductive BindingValue where
  | pointer (pointer : String)
  | literal (value : Json)

/-- Where a node's input comes from. `source` is the whole-value move, the document's `from`. -/
structure InputBinding where
  source : String := ""
  bindings : List (String × BindingValue) := []

/-- What the contract level reads of a node. `outputFrom` is the document's `output.from`, and a text
that is not declared is empty. -/
structure SpecNode where
  kind : NodeKind
  outcomes : Option (List String) := none
  input : Option InputBinding := none
  outputFrom : String := ""
  workspaceRef : String := ""
  continueWhile : List String := []
  select : List SelectPort := []
  hasUntil : Bool := false

structure Spec where
  triggers : List String
  nodes : List (String × SpecNode)
  edges : List String
  nodesSorted : (nodes.map Prod.fst).Pairwise (· < ·)

def Spec.nodeIDs (spec : Spec) : List String := spec.nodes.map Prod.fst

/-- Undo the escapes of a reference token; a stray `~` is malformed. -/
def unescapePointerToken : List Char → Option (List Char)
  | [] => some []
  | '~' :: '0' :: rest => (unescapePointerToken rest).map ('~' :: ·)
  | '~' :: '1' :: rest => (unescapePointerToken rest).map ('/' :: ·)
  | char :: rest => if char = '~' then none else (unescapePointerToken rest).map (char :: ·)

def parsePointer (pointer : String) : Option (List String) :=
  match pointer.toList with
  | [] => some []
  | '/' :: rest => (rest.splitOn '/').mapM fun token => (unescapePointerToken token).map String.ofList
  | _ => none

/-- The node surfaces both resolvers answer, sorted. -/
def nodeBindingSurfaces : List String := ["evidence", "output"]

def deferredNodeBindingSurfaces : List String := ["artifacts", "error"]

def ledgerProjections : List String :=
  ["active_tasks", "confirmed_claims", "current_scope", "decision_history", "delivery_summary", "evidence",
    "open_assumptions", "open_questions", "ready_tasks", "verification_queue"]

def unresolvedBinding (path pointer why : String) : Diagnostic where
  level := .error
  path := path
  code := "contract.binding_unresolved"
  message := "binding " ++ quoteText pointer ++ " does not address any run, node, or ledger data"
  hint := why

/-- The check of a pointer into a node, by what follows `nodes`. -/
def checkNodePointer (spec : Spec) (path pointer : String) (allowDeferredSurfaces : Bool) :
    List String → List Diagnostic
  | [] => [unresolvedBinding path pointer "name a node, e.g. /nodes/<node>/output"]
  | node :: rest =>
      if node ∉ spec.nodeIDs then
        [{ level := .error
           path := path
           code := "contract.binding_node_unknown"
           message := "binding " ++ quoteText pointer ++ " references node " ++ quoteText node ++
             ", which is not declared in spec.nodes"
           hint := "bind to one of: " ++ ", ".intercalate spec.nodeIDs }]
      else
        match rest with
        | [] => [unresolvedBinding path pointer
            ("a node surface must be one of: " ++ ", ".intercalate nodeBindingSurfaces)]
        | surface :: _ =>
            if surface ∈ deferredNodeBindingSurfaces then
              if allowDeferredSurfaces then []
              else [unresolvedBinding path pointer
                ("surface " ++ quoteText surface ++ " is not resolvable by any runtime yet; bind one of: " ++
                  ", ".intercalate nodeBindingSurfaces)]
            else if surface ∈ nodeBindingSurfaces then []
            else [unresolvedBinding path pointer
              ("a node surface must be one of: " ++ ", ".intercalate nodeBindingSurfaces)]

def checkPointer (spec : Spec) (path pointer : String) (allowDeferredSurfaces : Bool) :
    List Diagnostic :=
  match parsePointer pointer with
  | none =>
      [{ level := .error
         path := path
         code := "contract.binding_malformed"
         message := quoteText pointer ++ " is not a valid JSON Pointer (RFC 6901)"
         hint := "start the pointer with '/' and escape '~' as '~0' and '/' as '~1'" }]
  | some [] => [unresolvedBinding path pointer "the empty pointer addresses the whole document"]
  | some (root :: rest) =>
      if root = "run" then
        if rest.head? = some "input" then []
        else [unresolvedBinding path pointer "the only run surface is /run/input"]
      else if root = "nodes" then checkNodePointer spec path pointer allowDeferredSurfaces rest
      else if root = "ledger" then
        if rest.head? = some "projections" ∧ 2 ≤ rest.length then []
        else [unresolvedBinding path pointer
          "the only ledger surface is /ledger/projections/<projection>"]
      else [unresolvedBinding path pointer "a binding must start at /run, /nodes, or /ledger"]

def checkBinding (spec : Spec) (path pointer : String) : List Diagnostic :=
  checkPointer spec path pointer false

def checkWorkspaceRef (spec : Spec) (path pointer : String) : List Diagnostic :=
  checkPointer spec path pointer true

/-- The pointers of a node's input, each with the path of its binding. -/
def inputPointers (base : String) (node : SpecNode) : List (String × String) :=
  match node.input with
  | none => []
  | some input =>
      (if input.source = "" then [] else [(base ++ "/input/from", input.source)]) ++
        input.bindings.filterMap fun entry =>
          match entry.2 with
          | .pointer pointer => some (pointerJoin (base ++ "/input/bindings") entry.1, pointer)
          | .literal _ => none

/-- The literals of a node are checked against its own input schema, which is left out here. -/
def checkNodeBindings (spec : Spec) (base : String) (node : SpecNode) : List Diagnostic :=
  (inputPointers base node).flatMap (fun entry => checkBinding spec entry.1 entry.2) ++
    (if node.outputFrom = "" then [] else checkBinding spec (base ++ "/output/from") node.outputFrom) ++
    (if node.workspaceRef = "" then []
      else checkWorkspaceRef spec (base ++ "/operation/workspaceRef") node.workspaceRef)

def checkProjectionPointer (path pointer : String) : List Diagnostic :=
  match parsePointer pointer with
  | some ("ledger" :: "projections" :: name :: _) =>
      if name ∈ ledgerProjections then []
      else
        [{ level := .error
           path := path
           code := "ledger.projection_unknown"
           message := "binding " ++ quoteText pointer ++ " names projection " ++ quoteText name ++
             ", which is not in the ledger vocabulary"
           hint := "use one of: " ++ ", ".intercalate ledgerProjections }]
  | _ => []

def checkProjectionBindings (base : String) (node : SpecNode) : List Diagnostic :=
  (inputPointers base node).flatMap fun entry => checkProjectionPointer entry.1 entry.2

/-- The expression language: an expression is checked against the variables an environment declares, all
of them of dynamic type, and the checked tree is planned into a program. -/
structure Cel (Ast Program : Type) where
  parses : String → Bool
  freeVars : String → List String
  compile : List String → String → Except String Ast
  outputType : Ast → String
  program : Ast → Except String Program
  eval : Program → List (String × Json) → Except String Json

/-- An expression type-checks exactly when it parses and its free variables are declared. -/
def Cel.Scoped {Ast Program : Type} (cel : Cel Ast Program) : Prop :=
  ∀ declared expression, (∃ ast, cel.compile declared expression = .ok ast) ↔
    cel.parses expression = true ∧ ∀ name ∈ cel.freeVars expression, name ∈ declared

/-- The variables of the compiler's environment. -/
def celEnv : List String := ["input", "output", "outcome", "event", "node", "budget"]

def trimPrefix (text head : List Char) : List Char :=
  if head.isPrefixOf text then text.drop head.length else text

def trimSpace (text : List Char) : List Char :=
  ((text.dropWhile Char.isWhitespace).reverse.dropWhile Char.isWhitespace).reverse

def firstIssueLine (issues : String) : String :=
  let line := issues.toList.takeWhile (· ≠ '\n')
  String.ofList (trimSpace (trimPrefix (trimPrefix line "ERROR: ".toList) "<input>:".toList))

section

variable {Ast Program : Type} (cel : Cel Ast Program)

def compileCEL (path expression : String) : Except Diagnostic Program :=
  match cel.compile celEnv expression with
  | .error issues => .error
      { level := .error
        path := path
        code := "contract.cel_invalid"
        message := "CEL expression does not compile: " ++ firstIssueLine issues
        hint := "fix the expression; the declared variables are input, output, outcome and event" }
  | .ok ast =>
      if cel.outputType ast ≠ "bool" ∧ cel.outputType ast ≠ "dyn" then .error
        { level := .error
          path := path
          code := "contract.cel_not_boolean"
          message := "CEL expression has type " ++ cel.outputType ast ++
            "; a guard must evaluate to bool"
          hint := "rewrite the expression as a predicate, e.g. `outcome == 'passed'`" }
      else
        match cel.program ast with
        | .error reason => .error
            { level := .error
              path := path
              code := "contract.cel_invalid"
              message := "CEL expression could not be planned: " ++ reason
              hint := "simplify the expression; it parsed and type-checked but could not be turned " ++
                "into a program" }
        | .ok program => .ok program

/-- What an optional expression is reported for. -/
def checkExpression (path expression : String) : List Diagnostic :=
  if expression = "" then []
  else
    match compileCEL cel path expression with
    | .ok _ => []
    | .error diagnostic => [diagnostic]

/-- Every condition of a continuation is compiled, an empty one too. -/
def checkCondition (path expression : String) : List Diagnostic :=
  match compileCEL cel path expression with
  | .ok _ => []
  | .error diagnostic => [diagnostic]

def checkNodeOutcomes (base id : String) (node : SpecNode) : List Diagnostic :=
  match node.kind with
  | .agent | .code | .actionHTTP =>
      if node.outcomes.getD [] = [] then
        [{ level := .error
           path := base ++ "/contract/outcomes"
           code := "contract.outcomes_missing"
           message := "node " ++ quoted id ++ " of kind " ++ quoted node.kind.text ++
             " declares no domain outcomes"
           hint := "declare one output schema per outcome under contract.outcomes (PRD §9.3)" }]
      else []
  | .decision =>
      if node.select = [] then
        [{ level := .error
           path := base ++ "/select"
           code := "contract.select_missing"
           message := "decision node " ++ quoted id ++ " declares no output ports"
           hint := "add a select list of \x7boutcome, when\x7d pairs (PRD §9.2)" }]
      else []
  | .wait =>
      if node.hasUntil then []
      else
        [{ level := .error
           path := base ++ "/until"
           code := "contract.until_missing"
           message := "wait node " ++ quoted id ++ " declares no resume condition"
           hint := "add an until block with a duration, timestamp, or signal (PRD §9.2)" }]
  | _ => []

def checkNode (spec : Spec) (id : String) (node : SpecNode) : List Diagnostic :=
  let base := pointerJoin "/spec/nodes" id
  checkNodeOutcomes base id node ++ checkNodeBindings spec base node ++
    (node.continueWhile.zipIdx.flatMap fun (expression, index) =>
      checkCondition cel (base ++ "/continue/while/" ++ toString index) expression) ++
    (node.select.zipIdx.flatMap fun (port, index) =>
      checkExpression cel (base ++ "/select/" ++ toString index ++ "/when") port.when)

def checkContracts (spec : Spec) : List Diagnostic :=
  (spec.triggers.zipIdx.flatMap fun (expression, index) =>
      checkExpression cel ("/spec/triggers/" ++ toString index ++ "/when") expression) ++
    (spec.nodes.flatMap fun (id, node) => checkNode cel spec id node) ++
    (spec.edges.zipIdx.flatMap fun (expression, index) =>
      checkExpression cel ("/spec/edges/" ++ toString index ++ "/when") expression)

def checkLedger (spec : Spec) : List Diagnostic :=
  spec.nodes.flatMap fun (id, node) => checkProjectionBindings (pointerJoin "/spec/nodes" id) node

/-- The schema's rule for decision ports: each names its condition. -/
def portsGuarded (spec : Spec) : Bool :=
  spec.nodes.all fun entry => entry.2.select.all fun port => port.when ≠ ""

/-- What an accepted workflow has passed here: the schema, and no error of either level. -/
def accepts (spec : Spec) : Bool :=
  portsGuarded spec && (checkContracts cel spec ++ checkLedger spec).all fun diagnostic =>
    diagnostic.level ≠ .error

end

variable {Ast Program : Type} {cel : Cel Ast Program} {spec : Spec} {id path pointer expression : String}
  {node : SpecNode}

theorem compileCEL_error {diagnostic : Diagnostic}
    (failed : compileCEL cel path expression = .error diagnostic) : diagnostic.level = .error := by
  unfold compileCEL at failed
  split at failed
  · cases failed
    rfl
  · split at failed
    · cases failed
      rfl
    · split at failed
      · cases failed
        rfl
      · cases failed

theorem compile_of_compileCEL {program : Program}
    (compiled : compileCEL cel path expression = .ok program) :
    ∃ ast, cel.compile celEnv expression = .ok ast := by
  unfold compileCEL at compiled
  split at compiled
  · cases compiled
  · rename_i ast checked
    exact ⟨ast, checked⟩

theorem compile_of_checkExpression (filled : expression ≠ "")
    (clean : ∀ diagnostic ∈ checkExpression cel path expression, diagnostic.level ≠ .error) :
    ∃ ast, cel.compile celEnv expression = .ok ast := by
  unfold checkExpression at clean
  rw [if_neg filled] at clean
  cases compiled : compileCEL cel path expression with
  | ok program => exact compile_of_compileCEL compiled
  | error diagnostic =>
      rw [compiled] at clean
      exact absurd (compileCEL_error compiled) (clean diagnostic List.mem_cons_self)

/-- What a data binding addresses once it has passed: the run's input, a surface of a declared node, or a
projection. -/
inductive Addresses (spec : Spec) : List String → Prop where
  | runInput (rest : List String) : Addresses spec ("run" :: "input" :: rest)
  | node {id surface : String} (rest : List String) (declared : id ∈ spec.nodeIDs)
      (answered : surface ∈ nodeBindingSurfaces) : Addresses spec ("nodes" :: id :: surface :: rest)
  | projection (name : String) (rest : List String) :
      Addresses spec ("ledger" :: "projections" :: name :: rest)

theorem addresses_of_checkNodePointer {rest : List String}
    (clean : ∀ diagnostic ∈ checkNodePointer spec path pointer false rest, diagnostic.level ≠ .error) :
    Addresses spec ("nodes" :: rest) := by
  cases rest with
  | nil => exact absurd rfl (clean _ List.mem_cons_self)
  | cons id rest =>
      dsimp only [checkNodePointer] at clean
      split at clean
      · exact absurd rfl (clean _ List.mem_cons_self)
      · rename_i declared
        rw [not_not] at declared
        cases rest with
        | nil => exact absurd rfl (clean _ List.mem_cons_self)
        | cons surface rest =>
            dsimp only at clean
            split at clean
            · exact absurd rfl (clean _ List.mem_cons_self)
            · split at clean
              · rename_i answered
                exact .node rest declared answered
              · exact absurd rfl (clean _ List.mem_cons_self)

theorem addresses_of_checkBinding
    (clean : ∀ diagnostic ∈ checkBinding spec path pointer, diagnostic.level ≠ .error) :
    ∃ tokens, parsePointer pointer = some tokens ∧ Addresses spec tokens := by
  unfold checkBinding checkPointer at clean
  cases parsed : parsePointer pointer with
  | none =>
      rw [parsed] at clean
      exact absurd rfl (clean _ List.mem_cons_self)
  | some tokens =>
      rw [parsed] at clean
      refine ⟨tokens, rfl, ?_⟩
      cases tokens with
      | nil => exact absurd rfl (clean _ List.mem_cons_self)
      | cons root rest =>
          dsimp only at clean
          split at clean
          · rename_i isRun
            subst isRun
            split at clean
            · rename_i isInput
              cases rest with
              | nil => cases isInput
              | cons first rest =>
                  cases isInput
                  exact .runInput rest
            · exact absurd rfl (clean _ List.mem_cons_self)
          · split at clean
            · rename_i isNodes
              subst isNodes
              exact addresses_of_checkNodePointer clean
            · split at clean
              · rename_i isLedger
                subst isLedger
                split at clean
                · rename_i isProjection
                  cases rest with
                  | nil => cases isProjection.1
                  | cons first rest =>
                      cases rest with
                      | nil => exact absurd isProjection.2 (by simp)
                      | cons name rest =>
                          cases isProjection.1
                          exact .projection name rest
                · exact absurd rfl (clean _ List.mem_cons_self)
              · exact absurd rfl (clean _ List.mem_cons_self)

theorem projection_of_checkProjectionPointer {name : String} {rest : List String}
    (parsed : parsePointer pointer = some ("ledger" :: "projections" :: name :: rest))
    (clean : ∀ diagnostic ∈ checkProjectionPointer path pointer, diagnostic.level ≠ .error) :
    name ∈ ledgerProjections := by
  unfold checkProjectionPointer at clean
  simp only [parsed] at clean
  split at clean
  · assumption
  · exact absurd rfl (clean _ List.mem_cons_self)

section Accepted

variable (accepted : accepts cel spec = true)
include accepted

theorem level_of_accepts {diagnostic : Diagnostic}
    (reported : diagnostic ∈ checkContracts cel spec ++ checkLedger spec) : diagnostic.level ≠ .error := by
  unfold accepts at accepted
  rw [Bool.and_eq_true, List.all_eq_true] at accepted
  exact of_decide_eq_true (accepted.2 diagnostic reported)

theorem level_of_checkNode (member : (id, node) ∈ spec.nodes) :
    ∀ diagnostic ∈ checkNode cel spec id node, diagnostic.level ≠ .error := by
  intro diagnostic reported
  apply level_of_accepts accepted
  unfold checkContracts
  simp only [List.mem_append]
  exact Or.inl (Or.inl (Or.inr (List.mem_flatMap.mpr ⟨(id, node), member, reported⟩)))

theorem compile_of_accepts (member : (id, node) ∈ spec.nodes) {port : SelectPort}
    (isPort : port ∈ node.select) : ∃ ast, cel.compile celEnv port.when = .ok ast := by
  have guarded : port.when ≠ "" := by
    have schema := accepted
    simp only [accepts, portsGuarded, Bool.and_eq_true, List.all_eq_true, decide_eq_true_eq] at schema
    exact schema.1 (id, node) member port isPort
  obtain ⟨index, here⟩ := List.mem_iff_getElem?.mp isPort
  have clean : ∀ diagnostic ∈ checkExpression cel
      (pointerJoin "/spec/nodes" id ++ "/select/" ++ toString index ++ "/when") port.when,
      diagnostic.level ≠ .error := by
    intro diagnostic reported
    apply level_of_checkNode accepted member
    unfold checkNode
    rw [List.mem_append]
    refine Or.inr (List.mem_flatMap.mpr ⟨(port, index), ?_, reported⟩)
    exact List.mem_zipIdx_iff_getElem?.mpr here
  exact compile_of_checkExpression guarded clean

theorem addresses_input (member : (id, node) ∈ spec.nodes)
    (isBinding : (path, pointer) ∈ inputPointers (pointerJoin "/spec/nodes" id) node) :
    ∃ tokens, parsePointer pointer = some tokens ∧ Addresses spec tokens ∧
      ∀ name rest, tokens = "ledger" :: "projections" :: name :: rest → name ∈ ledgerProjections := by
  have bound : ∀ diagnostic ∈ checkBinding spec path pointer, diagnostic.level ≠ .error := by
    intro diagnostic reported
    apply level_of_checkNode accepted member
    have among : diagnostic ∈ checkNodeBindings spec (pointerJoin "/spec/nodes" id) node := by
      unfold checkNodeBindings
      simp only [List.mem_append]
      exact Or.inl (Or.inl (List.mem_flatMap.mpr ⟨(path, pointer), isBinding, reported⟩))
    unfold checkNode
    simp only [List.mem_append]
    exact Or.inl (Or.inl (Or.inr among))
  have known : ∀ diagnostic ∈ checkProjectionPointer path pointer, diagnostic.level ≠ .error := by
    intro diagnostic reported
    apply level_of_accepts accepted
    have among : diagnostic ∈ checkProjectionBindings (pointerJoin "/spec/nodes" id) node :=
      List.mem_flatMap.mpr ⟨(path, pointer), isBinding, reported⟩
    exact List.mem_append_right _ (List.mem_flatMap.mpr ⟨(id, node), member, among⟩)
  obtain ⟨tokens, parsed, addresses⟩ := addresses_of_checkBinding bound
  refine ⟨tokens, parsed, addresses, ?_⟩
  rintro name rest rfl
  exact projection_of_checkProjectionPointer parsed known

theorem addresses_output (member : (id, node) ∈ spec.nodes) (declared : node.outputFrom ≠ "") :
    ∃ tokens, parsePointer node.outputFrom = some tokens ∧ Addresses spec tokens := by
  have bound : ∀ diagnostic ∈ checkBinding spec (pointerJoin "/spec/nodes" id ++ "/output/from")
      node.outputFrom, diagnostic.level ≠ .error := by
    intro diagnostic reported
    apply level_of_checkNode accepted member
    have among : diagnostic ∈ checkNodeBindings spec (pointerJoin "/spec/nodes" id) node := by
      unfold checkNodeBindings
      simp only [List.mem_append, if_neg declared]
      exact Or.inl (Or.inr reported)
    unfold checkNode
    simp only [List.mem_append]
    exact Or.inl (Or.inl (Or.inr among))
  exact addresses_of_checkBinding bound

end Accepted

end CultureNodes.Compiler
