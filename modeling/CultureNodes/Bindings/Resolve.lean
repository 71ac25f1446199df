import CultureNodes.Compiler.Contract

/-!
The two resolvers of binding pointers: the worker's, for the input of a node that is dispatched, and the
engine's, for the output of a run that ends. The compiler's check is the one gate before both. It answers
for the worker; for the engine it lets projections through, which only the worker reads.
-/

namespace CultureNodes.Bindings

open Compiler (Spec SpecNode Addresses BindingValue InputBinding quoteText)

/-- Replace every two-character escape. -/
def replaceAll (first second by_ : Char) : List Char → List Char
  | [] => []
  | [char] => [char]
  | char :: next :: rest =>
      if char = first ∧ next = second then by_ :: replaceAll first second by_ rest
      else char :: replaceAll first second by_ (next :: rest)

/-- The resolvers' way of undoing the escapes of a token: `~1` first, then `~0`. -/
def unescape (token : List Char) : List Char :=
  replaceAll '~' '0' '~' (replaceAll '~' '1' '/' token)

inductive BindingError where
  | notPointer (pointer : String)
  | emptyPointer
  | runSurface
  | nodeSurfaceMissing
  | nodeSurface (surface : String)
  | ledgerSurface
  | projectionName (name : String)
  | unknownRoot (root : String)
  | noOutput (node : String)
  | sourceFailed (reason : String)
  | absent (part : Json.Absent)
deriving DecidableEq, Repr

/-- The resolver has no such surface. -/
def BindingError.unsupported : BindingError → Bool
  | .noOutput _ | .sourceFailed _ | .absent _ => false
  | _ => true

def absentText : Json.Absent → String
  | .member token along => "no member " ++ quoteText token ++ " at /" ++ "/".intercalate along
  | .element token along => "no element " ++ quoteText token ++ " at /" ++ "/".intercalate along
  | .insideScalar token along =>
      "cannot address " ++ quoteText token ++ " inside a scalar at /" ++ "/".intercalate along

/-- The worker's words for a refusal. -/
def resolvableSurfaces : String :=
  "/run/input, /nodes/<node>/output, /nodes/<node>/evidence, /ledger/projections/<name>"

def BindingError.workerText : BindingError → String
  | .notPointer pointer => quoteText pointer ++ " is not a JSON Pointer: it must start with '/'"
  | .emptyPointer => "the empty pointer addresses the whole document; bind one of " ++ resolvableSurfaces
  | .runSurface => "the only run surface is /run/input"
  | .nodeSurfaceMissing => "a node binding names a node and a surface, e.g. /nodes/<node>/output"
  | .nodeSurface surface => "surface /nodes/<node>/" ++ surface ++ " is not resolvable; this worker resolves " ++
      resolvableSurfaces
  | .ledgerSurface => "the only ledger surface is /ledger/projections/<name>"
  | .projectionName name => "projection " ++ quoteText name ++ " is not one of PRD §10.9's projections"
  | .unknownRoot root => "binding root " ++ quoteText root ++ " is not resolvable; this worker resolves " ++
      resolvableSurfaces
  | .noOutput node => "node " ++ quoteText node ++ " has no succeeded attempt in this run, so it has no output"
  | .sourceFailed reason => reason
  | .absent part => absentText part

/-- The engine's words for a refusal. -/
def BindingError.engineText : BindingError → String
  | .emptyPointer => "the empty pointer addresses the whole document"
  | .nodeSurface surface => "surface " ++ quoteText surface ++ " is not resolvable; this engine resolves " ++
      "/run/input, /nodes/<node>/output, and /nodes/<node>/evidence"
  | .unknownRoot root => "binding root " ++ quoteText root ++ " is not resolvable yet; this engine resolves " ++
      "/run/input and /nodes/<node>/output"
  | refusal => refusal.workerText

/-- A projection over a run's ledger records. -/
inductive ProjectionKind where
  | currentScope
  | confirmedClaims
  | openAssumptions
  | readyTasks
  | activeTasks
  | verificationQueue
  | decisionHistory
  | evidenceFor
  | deliverySummary
deriving DecidableEq, Repr

/-- Where the resolvers read. The engine reads its transaction and has no projections. -/
structure BindingSources where
  runInput : Json
  nodeOutput : String → Except String (Option Json)
  nodeEvidence : String → Except String (List Json)
  projection : ProjectionKind → Except String Json

def parsePointer (pointer : String) : Except BindingError (List String) :=
  match pointer.toList with
  | [] => .ok []
  | '/' :: rest => .ok ((rest.splitOn '/').map fun token => String.ofList (unescape token))
  | _ => .error (.notPointer pointer)

def projectionKindFor (name : String) : Option ProjectionKind :=
  if name = "current_scope" then some .currentScope
  else if name = "confirmed_claims" then some .confirmedClaims
  else if name = "open_assumptions" ∨ name = "open_questions" then some .openAssumptions
  else if name = "ready_tasks" then some .readyTasks
  else if name = "active_tasks" then some .activeTasks
  else if name = "verification_queue" then some .verificationQueue
  else if name = "decision_history" then some .decisionHistory
  else if name = "evidence" then some .evidenceFor
  else if name = "delivery_summary" then some .deliverySummary
  else none

def traverse (document : Json) (tokens : List String) : Except BindingError Json :=
  match Json.walk [] document tokens with
  | .ok value => .ok value
  | .error part => .error (.absent part)

/-- The surfaces of a node, which both resolvers read alike. -/
def resolveNode (sources : BindingSources) : List String → Except BindingError Json
  | node :: surface :: rest =>
      if surface = "output" then
        match sources.nodeOutput node with
        | .error reason => .error (.sourceFailed reason)
        | .ok none => .error (.noOutput node)
        | .ok (some output) => traverse output rest
      else if surface = "evidence" then
        match sources.nodeEvidence node with
        | .error reason => .error (.sourceFailed reason)
        | .ok records => traverse (.array records) rest
      else .error (.nodeSurface surface)
  | _ => .error .nodeSurfaceMissing

def resolveRun (sources : BindingSources) : List String → Except BindingError Json
  | "input" :: rest => traverse sources.runInput rest
  | _ => .error .runSurface

def resolveLedger (sources : BindingSources) : List String → Except BindingError Json
  | "projections" :: name :: rest =>
      match projectionKindFor name with
      | none => .error (.projectionName name)
      | some kind =>
          match sources.projection kind with
          | .error reason => .error (.sourceFailed ("projection " ++ name ++ ": " ++ reason))
          | .ok projection => traverse projection rest
  | _ => .error .ledgerSurface

/-- The worker's resolver. -/
def resolvePointer (sources : BindingSources) (pointer : String) : Except BindingError Json :=
  match parsePointer pointer with
  | .error refusal => .error refusal
  | .ok [] => .error .emptyPointer
  | .ok (root :: rest) =>
      if root = "run" then resolveRun sources rest
      else if root = "nodes" then resolveNode sources rest
      else if root = "ledger" then resolveLedger sources rest
      else .error (.unknownRoot root)

/-- The engine's resolver. -/
def resolveBinding (sources : BindingSources) (pointer : String) : Except BindingError Json :=
  match parsePointer pointer with
  | .error refusal => .error refusal
  | .ok [] => .error .emptyPointer
  | .ok (root :: rest) =>
      if root = "run" then resolveRun sources rest
      else if root = "nodes" then resolveNode sources rest
      else .error (.unknownRoot root)

/-- The members of a named binding, in the order of their names; a failure names its binding. -/
def resolveMembers (sources : BindingSources) :
    List (String × BindingValue) → Except (String × BindingError) (List (String × Json))
  | [] => .ok []
  | (name, .literal value) :: rest => (resolveMembers sources rest).map ((name, value) :: ·)
  | (name, .pointer pointer) :: rest =>
      match resolvePointer sources pointer with
      | .error refusal => .error (name, refusal)
      | .ok value => (resolveMembers sources rest).map ((name, value) :: ·)

/-- The input a node is dispatched with; a failure of the whole-value move names no binding. -/
def resolveNodeInput (sources : BindingSources) (binding : Option InputBinding) :
    Except (String × BindingError) Json :=
  match binding with
  | none => .ok (.object [])
  | some input =>
      if input.source ≠ "" then
        match resolvePointer sources input.source with
        | .error refusal => .error ("", refusal)
        | .ok value => .ok value
      else
        match resolveMembers sources input.bindings with
        | .error refusal => .error refusal
        | .ok members => .ok (.object members)

variable {first second by_ char : Char} {rest token out : List Char} {pointer : String} {tokens : List String}
  {sources : BindingSources} {refusal : BindingError}

theorem replaceAll_cons_of_ne (differs : char ≠ first) :
    replaceAll first second by_ (char :: rest) = char :: replaceAll first second by_ rest := by
  cases rest with
  | nil => rfl
  | cons next rest =>
      rw [replaceAll, if_neg]
      rintro ⟨same, _⟩
      exact differs same

theorem replaceAll_cons_cons_of_ne (differs : char ≠ second) :
    replaceAll first second by_ (first :: char :: rest) =
      first :: replaceAll first second by_ (char :: rest) := by
  rw [replaceAll, if_neg]
  rintro ⟨_, same⟩
  exact differs same

/-- On a token with no stray `~`, two passes over the escapes give what one does. -/
theorem unescape_eq (checked : Compiler.unescapePointerToken token = some out) : unescape token = out := by
  induction token using Compiler.unescapePointerToken.induct generalizing out with
  | case1 =>
      cases checked
      rfl
  | case2 rest ih =>
      simp only [Compiler.unescapePointerToken, Option.map_eq_some_iff] at checked
      obtain ⟨tail, read, rfl⟩ := checked
      have onward := ih read
      have passed : replaceAll '~' '1' '/' ('~' :: '0' :: rest) =
          '~' :: '0' :: replaceAll '~' '1' '/' rest := by
        rw [replaceAll_cons_cons_of_ne (by decide), replaceAll_cons_of_ne (by decide)]
      unfold unescape at onward ⊢
      rw [passed, replaceAll, if_pos ⟨rfl, rfl⟩, onward]
  | case3 rest ih =>
      simp only [Compiler.unescapePointerToken, Option.map_eq_some_iff] at checked
      obtain ⟨tail, read, rfl⟩ := checked
      have onward := ih read
      unfold unescape at onward ⊢
      rw [replaceAll, if_pos ⟨rfl, rfl⟩, replaceAll_cons_of_ne (by decide), onward]
  | case4 rest notZero notOne =>
      have stray : Compiler.unescapePointerToken ('~' :: rest) = none := by
        rw [Compiler.unescapePointerToken, if_pos rfl]
        · exact notZero
        · exact notOne
      rw [stray] at checked
      cases checked
  | case5 char rest notZero notOne plain ih =>
      have here : Compiler.unescapePointerToken (char :: rest) =
          (Compiler.unescapePointerToken rest).map (char :: ·) := by
        rw [Compiler.unescapePointerToken, if_neg plain]
        · exact notZero
        · exact notOne
      rw [here, Option.map_eq_some_iff] at checked
      obtain ⟨tail, read, rfl⟩ := checked
      have onward := ih read
      unfold unescape at onward ⊢
      rw [replaceAll_cons_of_ne plain, replaceAll_cons_of_ne plain, onward]

theorem map_unescape {parts : List (List Char)}
    (checked : (parts.mapM fun token => (Compiler.unescapePointerToken token).map String.ofList) =
      some tokens) : (parts.map fun token => String.ofList (unescape token)) = tokens := by
  induction parts generalizing tokens with
  | nil =>
      cases checked
      rfl
  | cons part parts ih =>
      simp only [List.mapM_cons, Option.bind_eq_bind, Option.bind_eq_some_iff, Option.map_eq_some_iff,
        Option.pure_def, Option.some.injEq] at checked
      obtain ⟨_, ⟨plain, read, rfl⟩, others, onward, rfl⟩ := checked
      rw [List.map_cons, unescape_eq read, ih onward]

theorem parsePointer_eq (checked : Compiler.parsePointer pointer = some tokens) :
    parsePointer pointer = .ok tokens := by
  simp only [Compiler.parsePointer] at checked
  simp only [parsePointer]
  generalize pointer.toList = characters at checked ⊢
  split at checked
  · cases checked
    rfl
  · exact congrArg Except.ok (map_unescape checked)
  · cases checked

/-- Whatever the run holds, a refusal of the pointer is about the data it addresses. -/
def Supported (resolve : BindingSources → String → Except BindingError Json) (pointer : String) : Prop :=
  ∀ sources refusal, resolve sources pointer = .error refusal → refusal.unsupported = false

theorem traverse_refused {document : Json} (refused : traverse document tokens = .error refusal) :
    refusal.unsupported = false := by
  unfold traverse at refused
  split at refused
  · cases refused
  · cases refused
    rfl

theorem resolveNode_refused {node surface : String}
    (answered : surface ∈ Compiler.nodeBindingSurfaces)
    (refused : resolveNode sources (node :: surface :: tokens) = .error refusal) :
    refusal.unsupported = false := by
  simp only [resolveNode] at refused
  split at refused
  · split at refused
    · cases refused
      rfl
    · cases refused
      rfl
    · exact traverse_refused refused
  · rename_i notOutput
    have evidence : surface = "evidence" := by
      simpa [Compiler.nodeBindingSurfaces, notOutput] using answered
    rw [if_pos evidence] at refused
    split at refused
    · cases refused
      rfl
    · exact traverse_refused refused

/-- The compiler's vocabulary of projections is the worker's. -/
theorem projectionKindFor_isSome : ∀ name ∈ Compiler.ledgerProjections,
    (projectionKindFor name).isSome = true := by
  decide +kernel

theorem resolveLedger_refused {name : String} (known : name ∈ Compiler.ledgerProjections)
    (refused : resolveLedger sources ("projections" :: name :: tokens) = .error refusal) :
    refusal.unsupported = false := by
  obtain ⟨kind, named⟩ := Option.isSome_iff_exists.mp (projectionKindFor_isSome name known)
  simp only [resolveLedger, named] at refused
  split at refused
  · cases refused
    rfl
  · exact traverse_refused refused

theorem resolvePointer_supported {spec : Spec} (parsed : Compiler.parsePointer pointer = some tokens)
    (addresses : Addresses spec tokens)
    (known : ∀ name rest, tokens = "ledger" :: "projections" :: name :: rest →
      name ∈ Compiler.ledgerProjections) : Supported resolvePointer pointer := by
  intro sources refusal refused
  unfold resolvePointer at refused
  rw [parsePointer_eq parsed] at refused
  cases addresses with
  | runInput rest => exact traverse_refused refused
  | node rest declared answered => exact resolveNode_refused answered refused
  | projection name rest => exact resolveLedger_refused (known name rest rfl) refused

/-- The engine answers what the compiler lets through but for the projections. -/
theorem resolveBinding_supported_iff {spec : Spec} (parsed : Compiler.parsePointer pointer = some tokens)
    (addresses : Addresses spec tokens) :
    Supported resolveBinding pointer ↔ tokens.head? ≠ some "ledger" := by
  unfold Supported resolveBinding
  rw [parsePointer_eq parsed]
  cases addresses with
  | runInput rest =>
      refine ⟨fun _ => by simp, fun _ sources refusal refused => ?_⟩
      exact traverse_refused refused
  | node rest declared answered =>
      refine ⟨fun _ => by simp, fun _ sources refusal refused => ?_⟩
      exact resolveNode_refused answered refused
  | projection name rest =>
      refine ⟨fun supported => ?_, fun other => absurd rfl other⟩
      have refused := supported ⟨.null, fun _ => .ok none, fun _ => .ok [], fun _ => .ok .null⟩
        (.unknownRoot "ledger") rfl
      cases refused

section

variable {Ast Program : Type} {cel : Compiler.Cel Ast Program} {spec : Spec}

/-- The pointers of an accepted workflow: those of its inputs the worker supports, those of its end
nodes' outputs the engine supports. -/
def PointersSupported (spec : Spec) : Prop :=
  (∀ id node, (id, node) ∈ spec.nodes → ∀ path pointer,
    (path, pointer) ∈ Compiler.inputPointers (Compiler.pointerJoin "/spec/nodes" id) node →
      Supported resolvePointer pointer) ∧
  ∀ id node, (id, node) ∈ spec.nodes → node.kind = .endNode → node.outputFrom ≠ "" →
    Supported resolveBinding node.outputFrom

/-- The worker supports every pointer the compiler lets through; the engine does unless an end node
publishes from the ledger. -/
theorem pointersSupported_iff (accepted : Compiler.accepts cel spec = true) :
    PointersSupported spec ↔
      ∀ id node, (id, node) ∈ spec.nodes → node.kind = .endNode →
        ∀ rest, Compiler.parsePointer node.outputFrom ≠ some ("ledger" :: rest) := by
  constructor
  · rintro ⟨_, outputs⟩ id node member ends rest parsed
    have declared : node.outputFrom ≠ "" := by
      intro empty
      rw [empty] at parsed
      cases parsed
    obtain ⟨tokens, read, addresses⟩ := Compiler.addresses_output accepted member declared
    have supported := outputs id node member ends declared
    rw [resolveBinding_supported_iff read addresses] at supported
    rw [read] at parsed
    rw [Option.some.inj parsed] at supported
    exact supported rfl
  · intro spared
    constructor
    · intro id node member path pointer isBinding
      obtain ⟨tokens, read, addresses, known⟩ := Compiler.addresses_input accepted member isBinding
      exact resolvePointer_supported read addresses known
    · intro id node member ends declared
      obtain ⟨tokens, read, addresses⟩ := Compiler.addresses_output accepted member declared
      rw [resolveBinding_supported_iff read addresses]
      intro ledger
      obtain ⟨rest, rfl⟩ : ∃ rest, tokens = "ledger" :: rest := by
        cases tokens with
        | nil => cases ledger
        | cons root rest =>
            cases ledger
            exact ⟨rest, rfl⟩
      exact spared id node member ends rest read

end

/-- A language in which nothing is written. -/
def noCel : Compiler.Cel Unit Unit where
  parses _ := false
  freeVars _ := []
  compile _ _ := .error "ERROR: <input>:1:1: Syntax error"
  outputType _ := "dyn"
  program _ := .ok ()
  eval _ _ := .ok .null

/-- A workflow of one agent that ends with the given output. -/
def sampleSpec (outputFrom : String) : Spec where
  triggers := []
  nodes := [("done", { kind := .endNode, outputFrom := outputFrom }),
    ("draft", { kind := .agent, outcomes := some ["completed"], input := some { source := "/run/input" } })]
  edges := [""]
  nodesSorted := by
    have sorted : ["done", "draft"].Pairwise (· < ·) := by decide +kernel
    exact sorted

theorem pointersSupported_draft : PointersSupported (sampleSpec "/nodes/draft/output") := by
  have accepted : Compiler.accepts noCel (sampleSpec "/nodes/draft/output") = true := by decide +kernel
  have read : Compiler.parsePointer "/nodes/draft/output" = some ["nodes", "draft", "output"] := by
    decide +kernel
  apply (pointersSupported_iff accepted).mpr
  intro id node member ends rest parsed
  simp only [sampleSpec, List.mem_cons, Prod.mk.injEq, List.not_mem_nil, or_false] at member
  rcases member with ⟨_, rfl⟩ | ⟨_, rfl⟩
  · rw [read, Option.some.injEq, List.cons.injEq] at parsed
    exact absurd parsed.1 (by decide)
  · cases ends

/-- The compiler accepts an output from the ledger, and the engine has no such surface whatever the run
holds. -/
theorem ledger_output_unsupported :
    Compiler.accepts noCel (sampleSpec "/ledger/projections/delivery_summary") = true ∧
    ¬PointersSupported (sampleSpec "/ledger/projections/delivery_summary") ∧
    ∀ sources, resolveBinding sources "/ledger/projections/delivery_summary" =
      .error (.unknownRoot "ledger") := by
  have read : parsePointer "/ledger/projections/delivery_summary" =
      .ok ["ledger", "projections", "delivery_summary"] := by
    decide +kernel
  have refused (sources : BindingSources) :
      resolveBinding sources "/ledger/projections/delivery_summary" = .error (.unknownRoot "ledger") := by
    unfold resolveBinding
    rw [read]
    rfl
  refine ⟨by decide +kernel, ?_, refused⟩
  rintro ⟨_, outputs⟩
  have member : ("done", { kind := .endNode, outputFrom := "/ledger/projections/delivery_summary" }) ∈
      (sampleSpec "/ledger/projections/delivery_summary").nodes := List.mem_cons_self
  have supported := outputs _ _ member rfl (by decide)
    ⟨.null, fun _ => .ok none, fun _ => .ok [], fun _ => .ok .null⟩ _ (refused _)
  cases supported

end CultureNodes.Bindings
