import CultureNodes.Engine.Workflow

/-!
Edge selection and loop bounds: pure functions of the workflow and a few counters. The targets of a
plan are the edges it follows.
-/

namespace CultureNodes.Engine

open Compiler (quoted)

inductive TechStatus where
  | succeeded
  | failed
  | timedOut
  | cancelled
  | policyDenied
  | contractRejected
deriving DecidableEq, Repr

namespace TechStatus

def text : TechStatus → String
  | .succeeded => "succeeded"
  | .failed => "failed"
  | .timedOut => "timed_out"
  | .cancelled => "cancelled"
  | .policyDenied => "policy_denied"
  | .contractRejected => "contract_rejected"

def retryable : TechStatus → Bool
  | .failed | .timedOut | .contractRejected => true
  | _ => false

def all : List TechStatus :=
  [.succeeded, .failed, .timedOut, .cancelled, .policyDenied, .contractRejected]

end TechStatus

def technicalStatus (name : String) : Bool := TechStatus.all.any (·.text = name)

def outcomeSplit : String := "split"

inductive BoundKind where
  | transitions
  | visits
  | duration
  | parallelTokens
deriving DecidableEq, Repr

def BoundKind.text : BoundKind → String
  | .transitions => "max_transitions"
  | .visits => "max_visits_per_node"
  | .duration => "max_duration"
  | .parallelTokens => "max_parallel_tokens"

/-- The bound that stopped a run; its limit and the value that passed it are kept as numbers. -/
structure BoundExceeded where
  kind : BoundKind
  node : String
  limit : Nat
  actual : Nat
deriving DecidableEq, Repr

/-- What edge selection and the bounds read. `guard` evaluates an edge's guard on the run's input and
the completed node's output. -/
structure TransitionInput where
  workflow : Workflow
  node : String
  outcome : String
  guard : Edge → Except String Bool
  transitions : Nat
  visits : String → Nat
  elapsed : Nat
  activeTokens : Nat := 0

/-- What to do next: follow edges, stop at a bound, end the run, or fail it with a diagnostic. -/
inductive TransitionPlan where
  | follow (targets : List Edge)
  | stop (bound : BoundExceeded)
  | complete
  | refuse (diagnostic : String)
deriving DecidableEq, Repr

/-- The eligible edges, and the guards that failed to evaluate. A guard that fails does not match.
Without `collectAll` the first match ends the scan. -/
def matchEdges (input : TransitionInput) (collectAll : Bool) : List Edge → List Edge × List String
  | [] => ([], [])
  | edge :: rest =>
      if edge.fromNode ≠ input.node ∨ edge.fromOutcome ≠ input.outcome then
        matchEdges input collectAll rest
      else
        let verdict := if edge.guard = "" then .ok true else input.guard edge
        match verdict with
        | .ok true =>
            if collectAll then
              (edge :: (matchEdges input collectAll rest).1, (matchEdges input collectAll rest).2)
            else ([edge], [])
        | .ok false => matchEdges input collectAll rest
        | .error reason =>
            ((matchEdges input collectAll rest).1,
              (edge.source ++ " -> " ++ edge.target ++ ": " ++ reason) ::
                (matchEdges input collectAll rest).2)

/-- Charge each target one visit, on top of what its node has; the first node above the limit stops
the run. -/
def chargeVisits (limit : Nat) (visits : String → Nat) : List Edge → Option BoundExceeded
  | [] => none
  | edge :: rest =>
      if limit < visits edge.target + 1 then
        some ⟨.visits, edge.target, limit, visits edge.target + 1⟩
      else
        chargeVisits limit
          (fun node => if node = edge.target then visits node + 1 else visits node) rest

/-- A split selects a set; every other outcome takes its first match. -/
def splits (node : Node) (outcome : String) : Bool := node.kind = .parallel && outcome = outcomeSplit

def checkBounds (input : TransitionInput) (node : Node) (targets : List Edge) :
    Option BoundExceeded :=
  let limits := input.workflow.limits
  let first := (targets.head?.map Edge.target).getD ""
  if 0 < limits.maxTransitions ∧ limits.maxTransitions < input.transitions + targets.length then
    some ⟨.transitions, first, limits.maxTransitions, input.transitions + targets.length⟩
  else
    match if 0 < limits.maxVisitsPerNode then
        chargeVisits limits.maxVisitsPerNode input.visits targets else none with
    | some bound => some bound
    | none =>
        if 0 < limits.maxDuration ∧ limits.maxDuration < input.elapsed then
          some ⟨.duration, first, limits.maxDuration, input.elapsed⟩
        else if splits node input.outcome ∧ 0 < limits.maxParallelTokens ∧
            limits.maxParallelTokens + 1 < input.activeTokens + targets.length then
          -- The source token is consumed in the same transaction: active tokens - 1 + targets.
          some ⟨.parallelTokens, input.node, limits.maxParallelTokens,
            input.activeTokens + targets.length - 1⟩
        else none

def bracketed (texts : List String) : String := "[" ++ String.intercalate " " texts ++ "]"

def noEligibleEdgeDiagnostic (input : TransitionInput) (node : Node) (failures : List String) :
    String :=
  let detail := "node " ++ quoted input.node ++ " produced outcome " ++ quoted input.outcome ++
    " and no edge is eligible"
  if !node.declaresOutcome input.outcome && !technicalStatus input.outcome then
    detail ++ "; the node declares " ++ bracketed node.outcomes
  else if failures ≠ [] then
    detail ++ "; every candidate edge's guard declined or failed: " ++ bracketed failures
  else detail ++ "; the workflow declares no edge from this outcome"

def planTransition (input : TransitionInput) : TransitionPlan :=
  match input.workflow.node? input.node with
  | none => .refuse ("node " ++ quoted input.node ++ " is not declared in the pinned workflow")
  | some node =>
      let found := matchEdges input (splits node input.outcome) input.workflow.edges
      if found.1 = [] then
        if node.kind = .endNode then .complete
        else .refuse (noEligibleEdgeDiagnostic input node found.2)
      else
        match checkBounds input node found.1 with
        | some bound => .stop bound
        | none => .follow found.1

/-- A pickup creates one token and consumes none. -/
def checkPickupBounds (limits : Limits) (target : String) (transitions visits activeTokens : Nat) :
    Option BoundExceeded :=
  if 0 < limits.maxTransitions ∧ limits.maxTransitions < transitions + 1 then
    some ⟨.transitions, target, limits.maxTransitions, transitions + 1⟩
  else if 0 < limits.maxVisitsPerNode ∧ limits.maxVisitsPerNode < visits + 1 then
    some ⟨.visits, target, limits.maxVisitsPerNode, visits + 1⟩
  else if 0 < limits.maxParallelTokens ∧ limits.maxParallelTokens < activeTokens + 1 then
    some ⟨.parallelTokens, target, limits.maxParallelTokens, activeTokens + 1⟩
  else none

section

variable {input : TransitionInput} {node : Node}

theorem mem_matchEdges {collectAll : Bool} {edges : List Edge} {edge : Edge}
    (matched : edge ∈ (matchEdges input collectAll edges).1) :
    edge ∈ edges ∧ edge.fromNode = input.node ∧ edge.fromOutcome = input.outcome := by
  induction edges with
  | nil => simp [matchEdges] at matched
  | cons first rest ih =>
      simp only [matchEdges] at matched
      split at matched
      · exact ⟨List.mem_cons_of_mem _ (ih matched).1, (ih matched).2⟩
      · rename_i here
        rw [not_or, not_not, not_not] at here
        split at matched
        · split at matched
          · rcases List.mem_cons.mp matched with rfl | later
            · exact ⟨List.mem_cons_self, here⟩
            · exact ⟨List.mem_cons_of_mem _ (ih later).1, (ih later).2⟩
          · rw [List.mem_singleton] at matched
            subst matched
            exact ⟨List.mem_cons_self, here⟩
        · exact ⟨List.mem_cons_of_mem _ (ih matched).1, (ih matched).2⟩
        · exact ⟨List.mem_cons_of_mem _ (ih matched).1, (ih matched).2⟩

/-- Without a split there is at most one target. -/
theorem matchEdges_single {edges : List Edge} :
    (matchEdges input false edges).1.length ≤ 1 := by
  induction edges with
  | nil => simp [matchEdges]
  | cons first rest ih =>
      simp only [matchEdges]
      split
      · exact ih
      · split
        · simp
        · exact ih
        · exact ih

theorem chargeVisits_eq_none {limit : Nat} {visits : String → Nat} {targets : List Edge} :
    chargeVisits limit visits targets = none ↔
      ∀ name ∈ targets.map Edge.target,
        visits name + (targets.map Edge.target).count name ≤ limit := by
  induction targets generalizing visits with
  | nil => simp [chargeVisits]
  | cons edge rest ih =>
      simp only [chargeVisits]
      split
      · rename_i above
        simp only [reduceCtorEq, List.map_cons, false_iff, not_forall, Nat.not_le]
        refine ⟨edge.target, List.mem_cons_self, ?_⟩
        rw [List.count_cons_self]
        omega
      · rename_i room
        rw [ih]
        refine ⟨fun later name member => ?_, fun all name member => ?_⟩
        · rw [List.map_cons, List.count_cons]
          by_cases same : name = edge.target
          · subst same
            by_cases again : edge.target ∈ rest.map Edge.target
            · have bound := later _ again
              simp only [if_true] at bound
              simp only [beq_self_eq_true, if_true]
              omega
            · simp only [beq_self_eq_true, if_true, List.count_eq_zero_of_not_mem again]
              omega
          · have inRest : name ∈ rest.map Edge.target := by
              rcases List.mem_cons.mp member with here | there
              · exact absurd here same
              · exact there
            have bound := later name inRest
            rw [if_neg same] at bound
            have differs : (edge.target == name) = false := by
              simpa using fun equal : edge.target = name => same equal.symm
            rw [differs]
            simpa using bound
        · have bound := all name (List.mem_cons_of_mem _ member)
          rw [List.map_cons, List.count_cons] at bound
          by_cases same : name = edge.target
          · subst same
            simp only [beq_self_eq_true, if_true] at bound ⊢
            omega
          · rw [if_neg same]
            omega

end

/-- A plan that is followed leaves room for one node run at each of its targets. -/
structure Within (limits : Limits) (transitions : Nat) (visits : String → Nat) (targets : List Edge) :
    Prop where
  transitions : 0 < limits.maxTransitions → transitions + targets.length ≤ limits.maxTransitions
  visits : 0 < limits.maxVisitsPerNode → ∀ name ∈ targets.map Edge.target,
    visits name + (targets.map Edge.target).count name ≤ limits.maxVisitsPerNode

/-- What a followed plan says of its targets. -/
structure Follows (input : TransitionInput) (node : Node) (targets : List Edge) : Prop where
  found : input.workflow.node? input.node = some node
  nonempty : targets ≠ []
  edges : ∀ edge ∈ targets, edge ∈ input.workflow.edges ∧ edge.fromNode = input.node ∧
    edge.fromOutcome = input.outcome
  single : splits node input.outcome = false → targets.length ≤ 1
  within : Within input.workflow.limits input.transitions input.visits targets
  parallel : splits node input.outcome = true → 0 < input.workflow.limits.maxParallelTokens →
    input.activeTokens + targets.length ≤ input.workflow.limits.maxParallelTokens + 1

section

variable {input : TransitionInput} {node : Node} {targets : List Edge}

theorem checkBounds_eq_none (passed : checkBounds input node targets = none) :
    Within input.workflow.limits input.transitions input.visits targets ∧
      (splits node input.outcome = true → 0 < input.workflow.limits.maxParallelTokens →
        input.activeTokens + targets.length ≤ input.workflow.limits.maxParallelTokens + 1) := by
  unfold checkBounds at passed
  dsimp only at passed
  split at passed
  · contradiction
  · rename_i transitionRoom
    split at passed
    · contradiction
    · rename_i visitRoom
      split at passed
      · contradiction
      · split at passed
        · contradiction
        · rename_i tokenRoom
          refine ⟨⟨fun isSet => ?_, fun isSet => ?_⟩, fun isSplit isSet => ?_⟩
          · by_contra above
            exact transitionRoom ⟨isSet, Nat.lt_of_not_le above⟩
          · rw [if_pos isSet] at visitRoom
            exact chargeVisits_eq_none.mp visitRoom
          · by_contra above
            exact tokenRoom ⟨isSplit, isSet, Nat.lt_of_not_le above⟩

/-- Only an end without an eligible edge completes the run. -/
theorem planTransition_complete (found : input.workflow.node? input.node = some node)
    (planned : planTransition input = .complete) : node.kind = .endNode := by
  unfold planTransition at planned
  rw [found] at planned
  dsimp only at planned
  split at planned
  · split at planned
    · assumption
    · contradiction
  · split at planned <;> contradiction

theorem planTransition_follow (planned : planTransition input = .follow targets) :
    ∃ node, Follows input node targets := by
  unfold planTransition at planned
  split at planned
  · contradiction
  · rename_i node found
    dsimp only at planned
    split at planned
    · split at planned <;> contradiction
    · rename_i nonempty
      split at planned
      · contradiction
      · rename_i passed
        have isMatched := TransitionPlan.follow.inj planned
        subst isMatched
        obtain ⟨within, parallel⟩ := checkBounds_eq_none passed
        refine ⟨node, found, nonempty, fun edge => mem_matchEdges, fun notSplit => ?_, within,
          parallel⟩
        rw [notSplit]
        exact matchEdges_single

end

end CultureNodes.Engine
