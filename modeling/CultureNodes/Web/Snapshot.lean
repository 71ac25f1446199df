import CultureNodes.Engine.Newest
import CultureNodes.Web.RunState

/-!
The history of one run as the run page can see it: the rows at each committed point, with the times that the
run view orders them by, and the stream of events that led there. A time is shown as a text, and what it is
written as is left open.
-/

namespace CultureNodes.Web

open Engine

/-- What the attempts table keeps of an attempt beside its number and its status. -/
structure AttemptNote where
  actorID : Option String := none
  startedAt : Option Nat := none
deriving DecidableEq, Repr

/-- A committed point: the rows, when each node run was created, the notes of the attempts and the stream. -/
structure Point where
  db : RunDb
  createdAt : Nat → Nat
  notes : Nat → Nat → AttemptNote
  events : List RunEvent

/-- A transaction of the engine, a late report that adds an attempt, or an event of another package. -/
inductive Deed where
  | engine (action : Action) (note : AttemptNote)
  | late (nodeRun : Nat) (status : TechStatus) (note : AttemptNote)
  | other (name node : String)
deriving DecidableEq, Repr

/-- When an action of the engine takes place; those that have no time create no node run. -/
def actionTime : Action → Nat
  | .complete _ now | .decide _ now | .pickUp _ _ now => now
  | .cancel _ _ | .work _ => 0

namespace Point

section

variable (written : Nat → String) (p : Point)

def attemptOut (attempt : Engine.Attempt) : AttemptOut where
  status := attempt.status
  actorID := (p.notes attempt.nodeRun attempt.number).actorID
  startedAt := (p.notes attempt.nodeRun attempt.number).startedAt.map written

def attemptsFor (nodeRun : Nat) : List AttemptOut :=
  ((p.db.attempts.filter (·.nodeRun = nodeRun)).insertionSort fun left right => left.number ≤ right.number).map
    (p.attemptOut written)

def nodeRunOut (run : NodeRun) : NodeRunOut where
  id := run.id
  nodeID := run.node
  state := run.state
  outcome := str run.outcome
  visitCount := p.db.visitOf run.node run.id
  createdAt := written (p.createdAt run.id)
  attempts := p.attemptsFor written run.id

def rowOrder (left right : NodeRun) : Prop :=
  p.createdAt left.id < p.createdAt right.id ∨ p.createdAt left.id = p.createdAt right.id ∧ left.id ≤ right.id

instance rowOrder.decidable : DecidableRel p.rowOrder := fun _ _ => inferInstanceAs (Decidable (_ ∨ _))

/-- `runNodeRuns`: the node runs of the run view. -/
def view : List NodeRunOut := (p.db.nodeRuns.insertionSort p.rowOrder).map (p.nodeRunOut written)

/-- The records of a fresh snapshot. -/
def graph : RunGraphState := { nodes := executionFromRunView (p.view written) }

end

variable (env : Env) (wf : Workflow)

def noted (p : Point) (note : AttemptNote) (nodeRun number : Nat) : AttemptNote :=
  if number < p.db.nextAttemptNumber nodeRun then p.notes nodeRun number else note

def act (p : Point) : Deed → Option Point
  | .engine action note =>
      (p.db.act env wf action).map fun next =>
        { db := next
          createdAt := fun id => if id < p.db.nextID then p.createdAt id else actionTime action
          notes := p.noted note
          events := p.events ++ audit env wf p.db action }
  | .late nodeRun status note =>
      some { p with
        db := p.db.insertAttempt nodeRun (p.db.nextAttemptNumber nodeRun) status
        notes := p.noted note
        events := p.events ++ [{ type := .other "actor.callback-late" }] }
  | .other name node => some { p with events := p.events ++ [{ type := .other name, nodeID := node }] }

def step (p : Point) (deed : Deed) (q : Point) : Prop := p.act env wf deed = some q

def created (input : Payload) (now : Nat) : Option Point :=
  (createRun env wf input now).toOption.map fun db =>
    { db := db, createdAt := fun _ => now, notes := fun _ _ => {}, events := createEvents wf }

/-- The points of a run's history whose steps all meet `allowed`. -/
def Reaches (allowed : Point → Deed → Prop) (p : Point) : Prop :=
  ∃ input now start, created env wf input now = some start ∧ Steps (step env wf) allowed start p

end Point

theorem lt_nextAttemptNumber {db : RunDb} {attempt : Engine.Attempt} (held : attempt ∈ db.attempts) :
    attempt.number < db.nextAttemptNumber attempt.nodeRun := by
  have bound : ∀ (numbers : List Nat) (start : Nat), start ≤ numbers.foldl max start ∧
      ∀ number ∈ numbers, number ≤ numbers.foldl max start := by
    intro numbers
    induction numbers with
    | nil => simp
    | cons first rest ih =>
        intro start
        obtain ⟨least, each⟩ := ih (max start first)
        refine ⟨Nat.le_trans (Nat.le_max_left _ _) least, fun number among => ?_⟩
        obtain rfl | later := List.mem_cons.mp among
        · exact Nat.le_trans (Nat.le_max_right _ _) least
        · exact each number later
  exact Nat.lt_succ_of_le ((bound _ 0).2 _ (List.mem_map_of_mem (List.mem_filter.mpr ⟨held, by simp⟩)))

/-- The ids of the runs of a node, oldest first. -/
def idsOf (db : RunDb) (node : String) : List Nat := (db.rowsOf node).map NodeRun.id

theorem idsOf_eq (db : RunDb) (node : String) :
    idsOf db node = ((db.nodeRuns.map NodeRun.stand).filter (·.2.2 = node)).map Prod.fst := by
  rw [idsOf, RunDb.rowsOf, List.filter_map, List.map_map]
  rfl

theorem idsOf_grown {db next : RunDb} (grown : Grown db next) (node : String) :
    ∃ fresh, idsOf next node = idsOf db node ++ fresh ∧ fresh.Pairwise (· < ·) ∧
      ∀ id ∈ fresh, db.nextID ≤ id := by
  obtain ⟨⟨fresh, rows, ordered, bounds⟩, -⟩ := grown
  refine ⟨(fresh.filter (·.2.2 = node)).map Prod.fst, ?_, ?_, ?_⟩
  · rw [idsOf_eq, idsOf_eq, rows, List.filter_append, List.map_append]
  · exact ordered.sublist (List.filter_sublist.map _)
  · intro id held
    obtain ⟨stand, standHeld, rfl⟩ := List.mem_map.mp held
    exact (bounds stand (List.mem_of_mem_filter standHeld)).1

section

variable (written : Nat → String)

/-- The runs of the node were created in the order of their rows, and their times are written so. -/
def Clocked (node : String) (p : Point) : Prop :=
  (idsOf p.db node).Pairwise fun older newer => older < newer ∧ p.createdAt older ≤ p.createdAt newer ∧
    written (p.createdAt older) ≤ written (p.createdAt newer)

/-- A run that the step makes of the node is not created before the node's other runs, nor written so. -/
def OnTime (env : Env) (wf : Workflow) (node : String) (p : Point) (deed : Deed) : Prop :=
  ∀ q ∈ p.act env wf deed, ∀ id ∈ idsOf q.db node, p.db.nextID ≤ id → ∀ older ∈ idsOf p.db node,
    p.createdAt older ≤ q.createdAt id ∧ written (p.createdAt older) ≤ written (q.createdAt id)

end

section

variable {written : Nat → String} {node : String} {p : Point}

theorem Clocked.nodeRunsOf_view (clocked : Clocked written node p) :
    nodeRunsOf (p.view written) node = (p.db.rowsOf node).map (p.nodeRunOut written) := by
  have pairs : (p.db.rowsOf node).Pairwise fun older newer => older.id < newer.id ∧
      p.createdAt older.id ≤ p.createdAt newer.id ∧
        written (p.createdAt older.id) ≤ written (p.createdAt newer.id) := List.pairwise_map.mp clocked
  have listed : (p.db.nodeRuns.insertionSort p.rowOrder).filter (·.node = node) = p.db.rowsOf node := by
    refine StableSort.filter_insertionSort (pairs.imp fun ordered => ?_)
    obtain earlier | same := Nat.lt_or_eq_of_le ordered.2.1
    · exact Or.inl earlier
    · exact Or.inr ⟨same, Nat.le_of_lt ordered.1⟩
  have shownRows : (p.view written).filter (·.nodeID = node) =
      (p.db.rowsOf node).map (p.nodeRunOut written) := by
    rw [Point.view, List.filter_map, ← listed]
    rfl
  rw [nodeRunsOf, StableSort.filter_insertionSort, shownRows]
  rw [shownRows, List.pairwise_map]
  exact pairs.imp fun ordered => ordered.2.2

theorem Clocked.attemptsOf_view (clocked : Clocked written node p) :
    attemptsOf (p.view written) node =
      ((idsOf p.db node).flatMap (p.attemptsFor written)).insertionSort byStartedAt := by
  rw [attemptsOf, clocked.nodeRunsOf_view, idsOf, List.flatMap_map, List.flatMap_map]
  rfl

end

/-- The state a node run is shown in, given whether the node's last attempt was denied by a policy. -/
def look (denied : Bool) (state : NodeRunState) : NodeExecState :=
  match state with
  | .failed => if denied then .policyDenied else .failed
  | state => stateFor state []

def Point.denied (written : Nat → String) (p : Point) (node : String) : Bool :=
  (attemptsOf (p.view written) node).getLast?.map AttemptOut.status = some .policyDenied

theorem Clocked.stateOf_graph {written : Nat → String} {node : String} {p : Point}
    (clocked : Clocked written node p) : (p.graph written).stateOf node =
      (p.db.newest node).map fun row => look (p.denied written node) row.2 := by
  rw [RunGraphState.stateOf, Point.graph, RunDb.newest, Option.map_map]
  dsimp only
  rw [executionFromRunView, clocked.nodeRunsOf_view, List.getLast?_map]
  cases (p.db.rowsOf node).getLast? with
  | none => rfl
  | some run =>
      simp only [Option.map_some, Function.comp_apply, Point.nodeRunOut, Option.some.injEq]
      cases run.state <;> simp [look, stateFor, Point.denied]

end CultureNodes.Web
