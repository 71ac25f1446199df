import Mathlib.Data.List.Basic
import Mathlib.Data.List.Nodup
import Mathlib.Data.String.Basic

/-!
The authored workflow document as the compiler's structural checks read it, and the diagnostics they
report. A Go map keyed by node id is an association list sorted by key.
-/

namespace CultureNodes

inductive NodeKind where
  | agent
  | code
  | actionHTTP
  | decision
  | approval
  | wait
  | parallel
  | join
  | endNode
deriving DecidableEq, Repr

/-- The kind's spelling in the document. -/
def NodeKind.text : NodeKind → String
  | .agent => "agent"
  | .code => "code"
  | .actionHTTP => "action.http"
  | .decision => "decision"
  | .approval => "approval"
  | .wait => "wait"
  | .parallel => "parallel"
  | .join => "join"
  | .endNode => "end"

/-- The barrier policies the schema's enum admits. -/
inductive JoinPolicy where
  | all
  | any
  | quorum
deriving DecidableEq, Repr

def JoinPolicy.text : JoinPolicy → String
  | .all => "all"
  | .any => "any"
  | .quorum => "quorum"

namespace Compiler

structure JoinConfig where
  policy : JoinPolicy
  quorum : Option Nat
deriving DecidableEq, Repr

/-- A node of the document. Of the contract block only its declared outcomes matter here. -/
structure Node where
  kind : NodeKind
  contract : Option (List String) := none
  join : Option JoinConfig := none
deriving DecidableEq, Repr

/-- An edge leaves `source` (the document's `from`, spelled `<node>.<outcome>`) or is sourced by the
event `onEvent`; the field that is not used is the empty string. -/
structure Edge where
  source : String := ""
  onEvent : String := ""
  target : String
  guard : String := ""
deriving DecidableEq, Repr

structure Document where
  entry : String
  nodes : List (String × Node)
  edges : List Edge
  nodesSorted : (nodes.map Prod.fst).Pairwise (· < ·)

/-- Decompose an edge source of the form `<node>.<outcome>` at its first dot. -/
def splitEdgeFrom (source : String) : Option (String × String) :=
  let name := source.toList.takeWhile (· ≠ '.')
  match source.toList.dropWhile (· ≠ '.') with
  | [] => none
  | _ :: outcome =>
      if name = [] ∨ outcome = [] then none
      else some (String.ofList name, String.ofList outcome)

inductive Level where
  | error
  | warning
deriving DecidableEq, Repr

structure Diagnostic where
  level : Level
  path : String
  code : String
  message : String
  hint : String
deriving DecidableEq, Repr

def escapePointerToken (token : String) : String :=
  String.ofList (token.toList.flatMap fun c =>
    if c = '~' then ['~', '0'] else if c = '/' then ['~', '1'] else [c])

def pointerJoin (base token : String) : String := base ++ "/" ++ escapePointerToken token

/-- A node id between quotation marks. The schema admits only lower-case letters, digits and hyphens
in an id, so nothing in it is ever escaped. -/
def quoted (id : String) : String := "\"" ++ id ++ "\""

namespace Document

variable (doc : Document)

/-- The document's node ids in sorted order. -/
def nodeIDs : List String := doc.nodes.map Prod.fst

def node? (id : String) : Option Node := doc.nodes.lookup id

def kind? (id : String) : Option NodeKind := (doc.node? id).map Node.kind

theorem mem_nodes_of_node? {id : String} {node : Node} (found : doc.node? id = some node) :
    (id, node) ∈ doc.nodes := by
  unfold node? at found
  generalize doc.nodes = nodes at found
  induction nodes with
  | nil => simp at found
  | cons pair rest ih =>
      obtain ⟨key, value⟩ := pair
      rw [List.lookup_cons] at found
      by_cases same : id = key
      · subst same
        simp only [beq_self_eq_true, Option.some.injEq] at found
        simp [found]
      · have differs : (id == key) = false := by simpa using same
        simp only [differs] at found
        exact List.mem_cons_of_mem _ (ih found)

theorem kind?_mem {id : String} {kind : NodeKind} (found : doc.kind? id = some kind) :
    id ∈ doc.nodeIDs := by
  unfold kind? at found
  obtain ⟨node, here, _⟩ := Option.map_eq_some_iff.mp found
  exact List.mem_map_of_mem (doc.mem_nodes_of_node? here)

end Document
end Compiler
end CultureNodes
