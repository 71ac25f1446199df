import CultureNodes.Engine.DecisionRoute

/-!
A decision beside the completion of an attempt. The two transactions are compared on one run, which
waits for a person in the one and is under an attempt in the other, with the same edges to follow. They
leave it alike but where the run ends at an end node that reads the output of the node itself: the
completion has recorded its attempt, and a decision records none.
-/

namespace CultureNodes.Engine

open Table (OneMore)

/-- The runs are the same but for what the attempt and the decision themselves leave: attempts, human
tasks, the work item of the attempt with its timers, and the events. -/
def Alike (work : Nat) (db other : RunDb) : Prop :=
  ∃ tables attempts tasks journal ending,
    other = { db with
      work := tables, attempts := attempts, humanTasks := tasks, journal := journal, ending := ending } ∧
    OneMore (·.id = work) db.work.items tables.items

namespace Alike

variable {work : Nat} {db other : RunDb}

section

variable (alike : Alike work db other)

include alike

theorem state_eq : other.state = db.state := by
  obtain ⟨_, _, _, _, _, rfl, _⟩ := alike
  rfl

theorem output_eq : other.output = db.output := by
  obtain ⟨_, _, _, _, _, rfl, _⟩ := alike
  rfl

theorem input_eq : other.input = db.input := by
  obtain ⟨_, _, _, _, _, rfl, _⟩ := alike
  rfl

theorem nodeRuns_eq : other.nodeRuns = db.nodeRuns := by
  obtain ⟨_, _, _, _, _, rfl, _⟩ := alike
  rfl

theorem nextID_eq : other.nextID = db.nextID := by
  obtain ⟨_, _, _, _, _, rfl, _⟩ := alike
  rfl

theorem token?_eq (id : Nat) : other.token? id = db.token? id := by
  obtain ⟨_, _, _, _, _, rfl, _⟩ := alike
  rfl

theorem tokenGroup?_eq (id : Nat) : other.tokenGroup? id = db.tokenGroup? id := by
  obtain ⟨_, _, _, _, _, rfl, _⟩ := alike
  rfl

theorem activeTokenCount_eq : other.activeTokenCount = db.activeTokenCount := by
  obtain ⟨_, _, _, _, _, rfl, _⟩ := alike
  rfl

theorem joinArrivals_eq : other.joinArrivals = db.joinArrivals := by
  obtain ⟨_, _, _, _, _, rfl, _⟩ := alike
  rfl

theorem openJoinBarrier_eq (node : String) (group : Nat) :
    other.openJoinBarrier node group = db.openJoinBarrier node group := by
  obtain ⟨_, _, _, _, _, rfl, _⟩ := alike
  rfl

theorem insertToken (node : String) (parent group : Option Nat) (origin : Option String) :
    Alike work (db.insertToken node parent group origin) (other.insertToken node parent group origin) := by
  obtain ⟨tables, attempts, tasks, journal, ending, rfl, more⟩ := alike
  exact ⟨tables, attempts, tasks, journal, ending, rfl, more⟩

theorem consumeToken (id : Nat) : Alike work (db.consumeToken id) (other.consumeToken id) := by
  obtain ⟨tables, attempts, tasks, journal, ending, rfl, more⟩ := alike
  exact ⟨tables, attempts, tasks, journal, ending, rfl, more⟩

theorem insertNodeRun (token : Nat) (node : String) (state : NodeRunState) :
    Alike work (db.insertNodeRun token node state) (other.insertNodeRun token node state) := by
  obtain ⟨tables, attempts, tasks, journal, ending, rfl, more⟩ := alike
  exact ⟨tables, attempts, tasks, _, ending, rfl, more⟩

theorem updateNodeRun (id : Nat) (state : NodeRunState) (outcome : String) :
    Alike work (db.updateNodeRun id state outcome) (other.updateNodeRun id state outcome) := by
  obtain ⟨tables, attempts, tasks, journal, ending, rfl, more⟩ := alike
  exact ⟨tables, attempts, tasks, _, ending, rfl, more⟩

theorem insertJoinArrival (arrival : JoinArrival) :
    Alike work (db.insertJoinArrival arrival) (other.insertJoinArrival arrival) := by
  obtain ⟨tables, attempts, tasks, journal, ending, rfl, more⟩ := alike
  exact ⟨tables, attempts, tasks, journal, ending, rfl, more⟩

theorem enqueueWork (nodeRun now : Nat) :
    Alike work (db.enqueueWork nodeRun now) (other.enqueueWork nodeRun now) := by
  obtain ⟨tables, attempts, tasks, journal, ending, rfl, more⟩ := alike
  exact ⟨tables.enqueueWork db.nextID nodeRun now, attempts, tasks, _, ending, rfl, more.append _⟩

theorem insertHumanTask (nodeRun : Nat) (outcomes : List String) :
    Alike work (db.insertHumanTask nodeRun outcomes) (other.insertHumanTask nodeRun outcomes) := by
  obtain ⟨tables, attempts, tasks, journal, ending, rfl, more⟩ := alike
  exact ⟨tables, attempts, _, journal, ending, rfl, more⟩

theorem retireEventRoutes : Alike work db.retireEventRoutes other.retireEventRoutes := by
  obtain ⟨tables, attempts, tasks, journal, ending, rfl, more⟩ := alike
  exact ⟨tables, attempts, tasks, journal, ending, rfl, more⟩

theorem updateRunState (state : RunState) (output : Option Payload) (mine theirs : Ending) :
    Alike work (db.updateRunState state output mine) (other.updateRunState state output theirs) := by
  obtain ⟨tables, attempts, tasks, journal, ending, rfl, more⟩ := alike
  exact ⟨tables, attempts, tasks, journal, some theirs, rfl, more⟩

theorem reapRunState (keep : Nat) : Alike work (db.reapRunState keep) (other.reapRunState keep) := by
  obtain ⟨tables, attempts, tasks, journal, ending, rfl, more⟩ := alike
  exact ⟨tables.reapNodeRunAppendages _, attempts, tasks, _, ending, rfl, more.update _ fun _ mine => mine⟩

theorem reapGroupBranches (group keep : Nat) :
    Alike work (db.reapGroupBranches group keep) (other.reapGroupBranches group keep) := by
  obtain ⟨tables, attempts, tasks, journal, ending, rfl, more⟩ := alike
  exact ⟨tables.reapNodeRunAppendages _, attempts, tasks, _, ending, rfl, more.update _ fun _ mine => mine⟩

theorem dispatchNode (node : Node) (nodeRun now : Nat) :
    Alike work (db.dispatchNode node nodeRun now) (other.dispatchNode node nodeRun now) := by
  unfold RunDb.dispatchNode
  split
  · exact alike.insertHumanTask _ _
  · exact alike.enqueueWork _ _

theorem startNode (node : Node) (parent group : Option Nat) (now : Nat) :
    Alike work (db.startNode node parent group none now) (other.startNode node parent group none now) := by
  have placed := alike.insertToken node.id parent group none
  have entered := placed.insertNodeRun db.nextID node.id (dispatchState node.kind)
  have dispatched := entered.dispatchNode node (db.insertToken node.id parent group none).nextID now
  unfold RunDb.startNode
  dsimp only
  rw [placed.nextID_eq, alike.nextID_eq]
  exact dispatched

theorem reachEnd (node : Node) (parent group : Option Nat) :
    Alike work (db.reachEnd node parent group) (other.reachEnd node parent group) := by
  have placed := alike.insertToken node.id parent group none
  have entered := placed.insertNodeRun db.nextID node.id (dispatchState node.kind)
  have ended := entered.updateNodeRun (db.insertToken node.id parent group none).nextID .completed ""
  unfold RunDb.reachEnd
  dsimp only
  rw [placed.nextID_eq, alike.nextID_eq]
  exact ended.consumeToken db.nextID

theorem fireBarrier (barrier : NodeRun) (group : Nat) (early : Bool) (now : Nat) :
    Alike work (db.fireBarrier barrier group early now) (other.fireBarrier barrier group early now) := by
  have claimable := (alike.updateNodeRun barrier.id .ready "").enqueueWork barrier.id now
  have marked : Alike work
      { (db.updateNodeRun barrier.id .ready "").enqueueWork barrier.id now with
        journal := .fired barrier.id group ::
          ((db.updateNodeRun barrier.id .ready "").enqueueWork barrier.id now).journal }
      { (other.updateNodeRun barrier.id .ready "").enqueueWork barrier.id now with
        journal := .fired barrier.id group ::
          ((other.updateNodeRun barrier.id .ready "").enqueueWork barrier.id now).journal } := by
    obtain ⟨tables, attempts, tasks, journal, ending, same, more⟩ := claimable
    rw [same]
    exact ⟨tables, attempts, tasks, _, ending, rfl, more⟩
  cases early with
  | false => exact marked
  | true => exact marked.reapGroupBranches group barrier.token

/-- Both find the same barrier, or make the same one. -/
theorem joinBarrier (join : Node) (token group : Nat) :
    Alike work (db.joinBarrier join token group).1 (other.joinBarrier join token group).1 ∧
      (other.joinBarrier join token group).2 = (db.joinBarrier join token group).2 := by
  unfold RunDb.joinBarrier
  rw [alike.openJoinBarrier_eq]
  cases db.openJoinBarrier join.id group with
  | some barrier => exact ⟨alike, rfl⟩
  | none =>
      have placed := alike.insertToken join.id (some token) (some group) none
      dsimp only
      rw [placed.nextID_eq, alike.nextID_eq]
      exact ⟨placed.insertNodeRun _ _ _, rfl⟩

end

end Alike

/-- Two ways through a plan that come to the same: alike runs, runs that are alike and are to be failed,
or two errors. -/
inductive Routed (work : Nat) : Except Halt RunDb → Except Halt RunDb → Prop where
  | ok {db other : RunDb} (alike : Alike work db other) : Routed work (.ok db) (.ok other)
  | refuse {db other : RunDb} (alike : Alike work db other) (mine theirs : Failure) :
      Routed work (.error (.refuse db mine)) (.error (.refuse other theirs))
  | abort (mine theirs : EngineError) : Routed work (.error (.abort mine)) (.error (.abort theirs))

/-- The movers end the same node run the same way; only one of them is a decision. -/
structure Mover.Twin (mover other : Mover) : Prop where
  id : other.nodeRun.id = mover.nodeRun.id
  token : other.nodeRun.token = mover.nodeRun.token
  node : other.nodeRun.node = mover.nodeRun.node
  state : other.state = mover.state
  outcome : other.outcome = mover.outcome
  output : other.output = mover.output
  now : other.now = mover.now

section

variable {work : Nat} {db other : RunDb} {mover theirs : Mover}

theorem Alike.settleBarrier (alike : Alike work db other) (join : Node) (barrier : NodeRun)
    (group now : Nat) : Routed work (db.settleBarrier join barrier group now)
      (other.settleBarrier join barrier group now) := by
  unfold RunDb.settleBarrier RunDb.joinArrivalCount
  rw [alike.tokenGroup?_eq, alike.joinArrivals_eq]
  cases db.tokenGroup? group with
  | none => exact .abort _ _
  | some row =>
      dsimp only
      split
      · exact .refuse alike _ _
      · split
        · exact .ok alike
        · exact .ok (alike.fireBarrier _ _ _ _)

namespace Mover.Twin

variable (twin : mover.Twin theirs) (alike : Alike work db other)

include twin alike

theorem failRun (mine others : Failure) :
    Alike work (mover.failRun db mine) (theirs.failRun other others) := by
  unfold Mover.failRun RunDb.finishNodeRun
  rw [twin.id, twin.token, twin.state, twin.outcome]
  exact (((alike.updateNodeRun _ _ _).consumeToken _).reapRunState _).updateRunState _ _ _ _

theorem failBound (bound : BoundExceeded) (transitions : Nat) :
    Alike work (mover.failBound db bound transitions) (theirs.failBound other bound transitions) := by
  unfold Mover.failBound
  rw [twin.id]
  exact (alike.reapRunState _).updateRunState _ _ _ _

theorem arriveAtJoin (join : Node) (group : Option Nat) (edge : Edge) :
    Routed work (mover.arriveAtJoin db join group edge) (theirs.arriveAtJoin other join group edge) := by
  cases group with
  | none => exact .refuse alike _ _
  | some group =>
      have gathered := alike.joinBarrier join mover.nodeRun.token group
      unfold Mover.arriveAtJoin Mover.recordArrival
      rw [twin.token, twin.node, twin.output, twin.now]
      dsimp only
      rw [alike.tokenGroup?_eq]
      cases db.tokenGroup? group with
      | none => exact .abort _ _
      | some row =>
          dsimp only
          rw [gathered.1.joinArrivals_eq, gathered.2]
          by_cases twice : ((db.joinBarrier join mover.nodeRun.token group).1.joinArrivals.any fun row =>
              row.joinNodeRun = (db.joinBarrier join mover.nodeRun.token group).2.id &&
                row.token = mover.nodeRun.token) = true
          · rw [if_pos twice, if_pos twice]
            exact .abort _ _
          · rw [if_neg twice, if_neg twice]
            exact (gathered.1.insertJoinArrival _).settleBarrier join _ _ _

variable {env env' : Env} {wf wf' : Workflow}

/-- The run completes, or fails, in both; what they read for its output decides whether they agree. -/
theorem completeRun_iff (endNode : String) :
    Alike work (mover.completeRun env wf db endNode) (theirs.completeRun env' wf' other endNode) ↔
      (db.activeTokenCount = 0 → (Mover.resolveRunOutput env wf db endNode).toOption =
        (Mover.resolveRunOutput env' wf' other endNode).toOption) := by
  unfold Mover.completeRun
  rw [alike.activeTokenCount_eq]
  by_cases busy : 0 < db.activeTokenCount
  · rw [if_pos busy, if_pos busy]
    exact ⟨fun _ idle => absurd idle (Nat.ne_of_gt busy), fun _ => twin.failRun alike _ _⟩
  · rw [if_neg busy, if_neg busy]
    have idle : db.activeTokenCount = 0 := Nat.eq_zero_of_not_pos busy
    cases Mover.resolveRunOutput env wf db endNode with
    | error mine =>
        cases Mover.resolveRunOutput env' wf' other endNode with
        | error others => exact ⟨fun _ _ => rfl, fun _ => twin.failRun alike _ _⟩
        | ok value =>
            constructor
            · intro same
              cases same.state_eq
            · intro reads
              cases reads idle
    | ok output =>
        cases Mover.resolveRunOutput env' wf' other endNode with
        | error others =>
            constructor
            · intro same
              cases same.state_eq
            · intro reads
              cases reads idle
        | ok value =>
            constructor
            · intro same _
              exact same.output_eq.symm
            · intro reads
              rw [Option.some.inj (reads idle)]
              exact alike.retireEventRoutes.updateRunState _ _ _ _

omit alike in
/-- Once the plan is followed, the movers fail the same runs. -/
theorem conclude {mine others : Except Halt RunDb} (routed : Routed work mine others) :
    Option.Rel (Alike work) (mover.conclude mine).toOption (theirs.conclude others).toOption := by
  cases routed with
  | ok alike => exact .some alike
  | refuse alike _ _ => exact .some (twin.failRun alike _ _)
  | abort _ _ => exact .none

end Mover.Twin

end

/-- The mover is not a completed split or join: it follows one edge, in its own group. -/
def Mover.Plain (mover : Mover) : Prop :=
  mover.decision = true ∨ (mover.node.kind ≠ .parallel ∧ mover.node.kind ≠ .join)

section

variable {work : Nat} {db other : RunDb} {mover theirs : Mover} {env env' : Env} {wf wf' : Workflow}
  {target : Edge} {rest : List Edge} {token : Token}

theorem Mover.Plain.advance (plain : mover.Plain) (found : db.token? mover.nodeRun.token = some token) :
    mover.advance env wf db (target :: rest) = mover.follow env wf db token.group target := by
  have group : mover.nextGroup db = .ok token.group := by
    unfold Mover.nextGroup
    rw [found]
    dsimp only
    rw [if_neg]
    rintro ⟨attempted, joins⟩
    rcases plain with decided | ⟨_, noJoin⟩
    · simp [attempted] at decided
    · exact noJoin joins
  have single : mover.fansOut target = false := by
    rcases plain with decided | ⟨noSplit, _⟩
    · simp [Mover.fansOut, decided]
    · simp [Mover.fansOut, noSplit]
  simp only [Mover.advance, group, single, Bool.false_eq_true, if_false]

/-- Past the edge the two can differ only where it leads to an end node. -/
theorem Mover.Twin.advance_iff (twin : mover.Twin theirs) (plain : mover.Plain) (plainThere : theirs.Plain)
    (alike : Alike work db other) (found : db.token? mover.nodeRun.token = some token)
    (sameTarget : wf'.node? target.target = wf.node? target.target) :
    Option.Rel (Alike work) (mover.conclude (mover.advance env wf db (target :: rest))).toOption
        (theirs.conclude (theirs.advance env' wf' other (target :: rest))).toOption ↔
      ∀ next, wf.node? target.target = some next → next.kind = .endNode →
        Alike work
          (mover.completeRun env wf (db.reachEnd next (some mover.nodeRun.token) token.group) next.id)
          (theirs.completeRun env' wf' (other.reachEnd next (some mover.nodeRun.token) token.group) next.id) := by
  have foundThere : other.token? theirs.nodeRun.token = some token := by
    rw [twin.token, alike.token?_eq, found]
  rw [plain.advance found, plainThere.advance foundThere]
  simp only [Mover.follow, sameTarget, twin.token, twin.now]
  cases declared : wf.node? target.target with
  | none =>
      refine ⟨fun _ next isNext => ?_, fun _ => twin.conclude (.abort _ _)⟩
      cases isNext
  | some next =>
      by_cases joins : next.kind = .join
      · simp only [joins, if_true]
        refine ⟨fun _ other isNext ends => ?_, fun _ => twin.conclude (twin.arriveAtJoin alike _ _ _)⟩
        rw [← Option.some.inj isNext, joins] at ends
        cases ends
      · by_cases ends : next.kind = .endNode
        · simp only [Option.some.injEq, forall_eq', ends, true_imp_iff]
          constructor
          · intro rel
            cases rel with
            | some same => exact same
          · exact .some
        · simp only [if_neg joins, if_neg ends]
          refine ⟨fun _ other isNext isEnd => ?_, fun _ => twin.conclude (.ok (alike.startNode _ _ _ _))⟩
          rw [← Option.some.inj isNext] at isEnd
          exact absurd isEnd ends

end

/-- In `other` the node of this name can be attempted. Its edges and where they lead are the same. -/
structure Workflow.Counterpart (wf other : Workflow) (node : String) : Prop where
  limits : other.limits = wf.limits
  edges : other.edges.filter (·.fromNode = node) = wf.edges.filter (·.fromNode = node)
  targets : ∀ edge ∈ wf.edges, edge.fromNode = node → other.node? edge.target = wf.node? edge.target
  attempted : ∃ found, other.node? node = some found ∧
    found.kind ≠ .parallel ∧ found.kind ≠ .join ∧ found.kind ≠ .endNode

/-- The same plan, or two that refuse, each in its own words. -/
inductive TransitionPlan.Twin : TransitionPlan → TransitionPlan → Prop where
  | follow (targets : List Edge) : TransitionPlan.Twin (.follow targets) (.follow targets)
  | stop (bound : BoundExceeded) : TransitionPlan.Twin (.stop bound) (.stop bound)
  | refuse (mine theirs : String) : TransitionPlan.Twin (.refuse mine) (.refuse theirs)

section

variable {input : TransitionInput} {wf : Workflow}

theorem matchEdges_filter (input : TransitionInput) (collectAll : Bool) (edges : List Edge) :
    matchEdges input collectAll (edges.filter (·.fromNode = input.node)) =
      matchEdges input collectAll edges := by
  induction edges with
  | nil => rfl
  | cons edge rest ih =>
      by_cases leaves : edge.fromNode = input.node
      · rw [List.filter_cons_of_pos (by simpa using leaves)]
        simp only [matchEdges, ih]
      · rw [List.filter_cons_of_neg (by simpa using leaves), ih]
        simp only [matchEdges, if_pos (Or.inl leaves : edge.fromNode ≠ input.node ∨
          edge.fromOutcome ≠ input.outcome)]

theorem matchEdges_workflow (other : Workflow) (collectAll : Bool) (edges : List Edge) :
    matchEdges { input with workflow := other } collectAll edges = matchEdges input collectAll edges := by
  induction edges with
  | nil => rfl
  | cons edge rest ih => simp only [matchEdges, ih]

/-- A node that neither splits nor ends takes the first edge out of it, whatever its kind is. -/
theorem Workflow.Counterpart.plan (pair : input.workflow.Counterpart wf input.node) {node : Node}
    (found : input.workflow.node? input.node = some node) (approval : node.kind = .approval) :
    (planTransition input).Twin (planTransition { input with workflow := wf }) := by
  obtain ⟨attempted, foundThere, noSplit, _, noEnd⟩ := pair.attempted
  have single : splits node input.outcome = false := by simp [splits, approval]
  have singleThere : splits attempted input.outcome = false := by simp [splits, noSplit]
  have sameMatch : matchEdges { input with workflow := wf } false wf.edges =
      matchEdges input false input.workflow.edges := by
    rw [matchEdges_workflow, ← matchEdges_filter input false wf.edges, pair.edges, matchEdges_filter]
  have sameBounds : ∀ targets, checkBounds { input with workflow := wf } attempted targets =
      checkBounds input node targets := by
    intro targets
    simp only [checkBounds, pair.limits, single, singleThere]
  simp only [planTransition, found, foundThere, single, singleThere, sameMatch, sameBounds, noEnd,
    approval]
  by_cases none : (matchEdges input false input.workflow.edges).1 = []
  · rw [if_pos none, if_pos none]
    exact .refuse _ _
  · rw [if_neg none, if_neg none]
    cases checkBounds input node (matchEdges input false input.workflow.edges).1 with
    | none => exact .follow _
    | some bound => exact .stop bound

end

section

variable {env : Env} {wf : Workflow} {db : RunDb} {now : Nat} {prepared : Prepared}

theorem CompletionRequest.prepare_completed {req : CompletionRequest} {outcome : String}
    (isPrepared : req.prepare env wf db now = .ok prepared)
    (completes : prepared.resolution = .transition outcome .completed) :
    ∃ work run node, db.work.completeWork req.claim = some work ∧
      db.work.nodeRunOf req.claim.work = some run.id ∧ run ∈ db.nodeRuns ∧
      wf.node? run.node = some node ∧
      prepared = ⟨RunDb.insertAttempt { db with work := work } run.id (db.nextAttemptNumber run.id) .succeeded,
        ⟨false, run, node, .completed, req.outcome, req.output, now⟩, .transition req.outcome .completed⟩ := by
  obtain ⟨work, run, node, status, rejected, completed, named, member, _, _, found, rfl⟩ :=
    CompletionRequest.prepare_ok isPrepared
  obtain rfl : status = .succeeded := by
    have ended := CompletionRequest.resolve_transition completes
    cases status with
    | succeeded => rfl
    | failed | timedOut | cancelled | policyDenied | contractRejected => contradiction
  exact ⟨work, run, node, completed, named, member, found, rfl⟩

end

/-- The same rows with the node run under an attempt: its work item stands beside the others, and what
was recorded of attempts and of human tasks may be anything. -/
def UnderAttempt (own work : Nat) (db other : RunDb) : Prop :=
  ∃ state tables attempts tasks journal,
    other = { db with
      nodeRuns := Table.update db.nodeRuns (·.id = own) fun run => { run with state := state }
      work := tables, attempts := attempts, humanTasks := tasks, journal := journal } ∧
    OneMore (fun item => item.id = work ∧ item.nodeRun = own) db.work.items tables.items ∧
    ∀ item ∈ db.work.items, item.id ≠ work

namespace UnderAttempt

variable {own : Nat} {claim : Store.Claim} {db other : RunDb} (under : UnderAttempt own claim.work db other)

include under

theorem input_eq : other.input = db.input := by
  obtain ⟨_, _, _, _, _, rfl, _⟩ := under
  rfl

theorem createdAt_eq : other.createdAt = db.createdAt := by
  obtain ⟨_, _, _, _, _, rfl, _⟩ := under
  rfl

theorem transitionCount_eq : other.transitionCount = db.transitionCount := by
  obtain ⟨_, _, _, _, _, rfl, _⟩ := under
  simp [RunDb.transitionCount, Table.update]

theorem nodeVisits_eq : other.nodeVisits = db.nodeVisits := by
  obtain ⟨state, _, _, _, _, rfl, _⟩ := under
  funext node
  simp only [RunDb.nodeVisits, Table.update, List.countP_map]
  apply List.countP_congr
  intro run _
  simp only [Function.comp_apply]
  split <;> rfl

theorem nodeRunOf_eq : other.work.nodeRunOf claim.work = some own := by
  obtain ⟨_, tables, _, _, _, rfl, ⟨front, back, extra, ⟨isWork, isOwn⟩, same, more⟩, alone⟩ := under
  have absent : front.find? (·.id = claim.work) = none := by
    rw [List.find?_eq_none]
    intro item member
    simpa using alone item (same ▸ List.mem_append_left _ member)
  simp only [Store.WorkTables.nodeRunOf, more, List.find?_append, absent, Option.none_or, List.find?_cons,
    isWork, decide_true, Option.map_some, isOwn]

theorem nodeRun_eq {wf : Workflow} (keyed : Keyed wf db) {run there : NodeRun} (member : run ∈ db.nodeRuns)
    (isOwn : run.id = own) (memberThere : there ∈ other.nodeRuns) (isThere : there.id = own) :
    there.token = run.token ∧ there.node = run.node := by
  obtain ⟨state, _, _, _, _, rfl, _⟩ := under
  obtain ⟨old, oldMember, rfl⟩ := Table.mem_update.mp memberThere
  have sameID : old.id = own := by
    split at isThere
    · exact isThere
    · exact isThere
  rw [keyed.run_eq oldMember member (sameID.trans isOwn.symm)]
  split
  · exact ⟨rfl, rfl⟩
  · exact ⟨rfl, rfl⟩

theorem finished {run there : NodeRun} {work : Store.WorkTables} (isOwn : run.id = own)
    (isThere : there.id = own) (sameToken : there.token = run.token)
    (completed : other.work.completeWork claim = some work) (req : DecisionRequest) (number : Nat)
    (status : TechStatus) (state : NodeRunState) (outcome : String) :
    Alike claim.work ((req.resolveTask db).finishNodeRun run state outcome)
      ((RunDb.insertAttempt { other with work := work } there.id number status).finishNodeRun there state
        outcome) := by
  obtain ⟨held, tables, attempts, tasks, journal, rfl, more, alone⟩ := under
  have rewritten : Table.update (Table.update db.nodeRuns (·.id = own) fun row => { row with state := held })
      (·.id = own) (fun row =>
        { row with state := state, outcome := if outcome = "" then row.outcome else outcome }) =
      Table.update db.nodeRuns (·.id = own) (fun row =>
        { row with state := state, outcome := if outcome = "" then row.outcome else outcome }) := by
    simp only [Table.update, List.map_map]
    apply List.map_congr_left
    intro row _
    by_cases hit : row.id = own <;> simp [hit]
  have unheld : Table.update db.work.items (·.heldBy claim) (·.finished) = db.work.items := by
    have plain : ∀ item ∈ db.work.items,
        (if item.heldBy claim then item.finished else item) = id item := by
      intro item member
      simp [Store.WorkItem.heldBy, alone item member]
    rw [Table.update, List.map_congr_left plain, List.map_id]
  have settled : work = { tables with items := Table.update tables.items (·.heldBy claim) (·.finished) } := by
    simp only [Store.WorkTables.completeWork, Store.WorkTables.updateItems?] at completed
    split at completed
    · exact (Option.some.inj completed).symm
    · contradiction
  have oneMore : OneMore (·.id = claim.work) db.work.items work.items := by
    obtain ⟨front, back, extra, ⟨isWork, _⟩, same, beside⟩ := more
    have marked : OneMore (·.id = claim.work) db.work.items tables.items :=
      ⟨front, back, extra, isWork, same, beside⟩
    rw [settled, ← unheld]
    exact marked.update _ fun _ mine => mine
  refine ⟨work, attempts ++ [⟨there.id, number, status⟩], tasks, .wrote there.id state :: journal, db.ending, ?_,
    oneMore⟩
  simp only [RunDb.finishNodeRun, RunDb.updateNodeRun, RunDb.consumeToken, RunDb.insertAttempt,
    DecisionRequest.resolveTask, isOwn, isThere, sameToken, rewritten]

end UnderAttempt

/-- The namespaces are the same but for the rows of one run, which are alike. -/
structure Hosted.Beside (id work : Nat) (hosted other : Hosted) : Prop where
  deferred : other.deferred = hosted.deferred
  attached : other.attached = hosted.attached
  nextID : other.nextID = hosted.nextID
  runs : List.Forall₂ (fun mine theirs => theirs = mine ∨ mine.id = id ∧
    ∃ rows, Alike work mine.rows rows ∧ theirs = { mine with rows := rows }) hosted.runs other.runs

section

variable {work now : Nat} {hosted other : Hosted} {tenv : TriggerEnv} {oldest : OldestQuery}
  {definition definition' : Definition}

theorem Hosted.setRows_beside {rows others : RunDb} (hosted : Hosted) (id : Nat) (earlier : RunDb)
    (alike : Alike work rows others) :
    (hosted.setRows id rows).Beside id work ((hosted.setRows id earlier).setRows id others) := by
  refine ⟨rfl, rfl, rfl, ?_⟩
  simp only [Hosted.setRows, Table.update, List.map_map, List.forall₂_map_left_iff,
    List.forall₂_map_right_iff, List.forall₂_same]
  intro run _
  by_cases isRun : run.id = id
  · simp only [Function.comp_apply, isRun, decide_true, if_true]
    exact Or.inr ⟨trivial, others, alike, rfl⟩
  · simp only [Function.comp_apply, isRun, decide_false, Bool.false_eq_true, if_false]
    exact Or.inl trivial

theorem createTriggeredRun_beside {id : Nat} (beside : hosted.Beside id work other) (pinned : Definition)
    (version : TriggerWorkflow) (fact : TriggerFact) :
    Option.Rel (Hosted.Beside id work)
      ((createTriggeredRun tenv now hosted pinned version fact).map Prod.fst).toOption
      ((createTriggeredRun tenv now other pinned version fact).map Prod.fst).toOption := by
  unfold createTriggeredRun
  cases resolveAffinity tenv pinned fact.toPickupEvent with
  | error reason => exact .none
  | ok affinity =>
      dsimp only
      split
      · exact .none
      · split
        · exact .none
        · cases createRun Env.permissive pinned.workflow fact.payload now with
          | error error => exact .none
          | ok rows =>
              rw [beside.nextID]
              refine .some ⟨beside.deferred, beside.attached, rfl, ?_⟩
              exact List.rel_append beside.runs (.cons (Or.inl rfl) .nil)

theorem drainSubjectTriggerQueue_beside {id : Nat} (beside : hosted.Beside id work other)
    (ceiling : definition'.maxConcurrentSubjectRuns = definition.maxConcurrentSubjectRuns)
    (key subject : String) :
    Option.Rel (Hosted.Beside id work)
      (drainSubjectTriggerQueue tenv oldest now definition key subject hosted).toOption
      (drainSubjectTriggerQueue tenv oldest now definition' key subject other).toOption := by
  unfold drainSubjectTriggerQueue
  rw [ceiling, beside.deferred]
  split
  · exact .some beside
  · cases oldest.row (hosted.deferred.filter (·.version.key = key)) with
    | none => exact .some beside
    | some entry =>
        dsimp only
        cases tenv.load entry.version with
        | error reason => exact .none
        | ok pinned =>
            have popped : Hosted.Beside id work
                { hosted with deferred := hosted.deferred.filter (·.id ≠ entry.id) }
                { other with deferred := hosted.deferred.filter (·.id ≠ entry.id) } :=
              ⟨rfl, beside.attached, beside.nextID, beside.runs⟩
            exact createTriggeredRun_beside popped _ _ _

variable {id : Nat} {run there : HostedRun} {mine theirs : Except EngineError RunDb}

theorem drainSubjectTriggerQueue_setRows (rows : RunDb)
    (ceiling : definition'.maxConcurrentSubjectRuns = definition.maxConcurrentSubjectRuns)
    (key subject : String) :
    (drainSubjectTriggerQueue tenv oldest now definition' key subject (hosted.setRows id rows)).isOk =
      (drainSubjectTriggerQueue tenv oldest now definition key subject hosted).isOk := by
  rw [Bool.eq_iff_iff, drainSubjectTriggerQueue_isOk, drainSubjectTriggerQueue_isOk, ceiling]
  rfl

/-- Transactions that leave alike runs, or that both fail, leave alike namespaces. -/
theorem Hosted.settle_rel (earlier : RunDb)
    (ceiling : definition'.maxConcurrentSubjectRuns = definition.maxConcurrentSubjectRuns)
    (rel : Option.Rel (Alike work) mine.toOption theirs.toOption) :
    Option.Rel (fun here there => Alike work here.1 there.1 ∧ Hosted.Beside run.id work here.2 there.2)
      (hosted.settle tenv oldest now definition run mine).toOption
      ((hosted.setRows run.id earlier).settle tenv oldest now definition' { run with rows := earlier }
        theirs).toOption := by
  cases mine with
  | error _ =>
      cases theirs with
      | error _ => exact .none
      | ok _ => cases rel
  | ok rows =>
      cases theirs with
      | error _ => cases rel
      | ok others =>
          cases rel with
          | some alike =>
              have beside := hosted.setRows_beside run.id earlier alike
              simp only [Hosted.settle, alike.state_eq]
              by_cases ends : rows.state.terminal = true
              · rw [if_pos ends, if_pos ends]
                exact rel_map (drainSubjectTriggerQueue_beside beside ceiling run.key run.subject)
                  fun _ _ drained => ⟨alike, drained⟩
              · rw [if_neg ends, if_neg ends]
                exact .some ⟨alike, beside⟩

theorem Hosted.settle_ok {rows : RunDb} (drains : (drainSubjectTriggerQueue tenv oldest now definition run.key
    run.subject (hosted.setRows run.id rows)).isOk = true) :
    ∃ after, hosted.settle tenv oldest now definition run (.ok rows) = .ok (rows, after) := by
  obtain ⟨drained, went⟩ := isOk_iff.mp drains
  simp only [Hosted.settle]
  split
  · rw [went]
    exact ⟨drained, rfl⟩
  · exact ⟨_, rfl⟩

theorem Hosted.settle_stuck {rows : RunDb} (ends : rows.state.terminal = true)
    (stuck : (drainSubjectTriggerQueue tenv oldest now definition run.key run.subject
      (hosted.setRows run.id rows)).isOk = false) :
    (hosted.settle tenv oldest now definition run (.ok rows)).toOption = none := by
  simp only [Hosted.settle, if_pos ends]
  cases drained : drainSubjectTriggerQueue tenv oldest now definition run.key run.subject
      (hosted.setRows run.id rows) with
  | error _ => rfl
  | ok _ =>
      rw [drained] at stuck
      contradiction

theorem Hosted.rel_of_settle {earlier : RunDb} {beside : Hosted → Hosted → Prop}
    (ceiling : definition'.maxConcurrentSubjectRuns = definition.maxConcurrentSubjectRuns)
    (drains : (drainSubjectTriggerQueue tenv oldest now definition run.key run.subject hosted).isOk = true)
    (rel : Option.Rel (fun here there => Alike work here.1 there.1 ∧ beside here.2 there.2)
      (hosted.settle tenv oldest now definition run mine).toOption
      ((hosted.setRows run.id earlier).settle tenv oldest now definition' { run with rows := earlier }
        theirs).toOption) : Option.Rel (Alike work) mine.toOption theirs.toOption := by
  have settles : ∀ rows, ∃ after,
      hosted.settle tenv oldest now definition run (.ok rows) = .ok (rows, after) := fun rows =>
    Hosted.settle_ok ((drainSubjectTriggerQueue_setRows rows rfl _ _).trans drains)
  have settlesThere : ∀ rows, ∃ after, (hosted.setRows run.id earlier).settle tenv oldest now definition'
      { run with rows := earlier } (.ok rows) = .ok (rows, after) := fun rows =>
    Hosted.settle_ok ((drainSubjectTriggerQueue_setRows rows rfl _ _).trans
      ((drainSubjectTriggerQueue_setRows earlier ceiling _ _).trans drains))
  cases mine with
  | error _ =>
      cases theirs with
      | error _ => exact .none
      | ok others =>
          obtain ⟨after, settled⟩ := settlesThere others
          rw [settled] at rel
          cases rel
  | ok rows =>
      obtain ⟨after, settled⟩ := settles rows
      rw [settled] at rel
      cases theirs with
      | error _ => cases rel
      | ok others =>
          obtain ⟨afterThere, settledThere⟩ := settlesThere others
          rw [settledThere] at rel
          cases rel with
          | some both => exact .some both.1

end

section

variable {wf : Workflow} {db : RunDb} {own : NodeRun} {state : NodeRunState} {outcome : String} {next : Node}
  {parent group : Option Nat} {rows : List AttemptRow}

theorem ended_stands : (((db.finishNodeRun own state outcome).reachEnd next parent group).nodeRuns.map
    NodeRun.stand) = db.nodeRuns.map NodeRun.stand ++ [(db.nextID + 1, db.nextID, next.id)] := by
  have finished : ((db.finishNodeRun own state outcome).nodeRuns).map NodeRun.stand =
      db.nodeRuns.map NodeRun.stand := Table.update_keys fun _ => rfl
  have ended : ((db.finishNodeRun own state outcome).reachEnd next parent group).nodeRuns.map NodeRun.stand =
      ((db.finishNodeRun own state outcome).nodeRuns ++
        [(⟨db.nextID + 1, db.nextID, next.id, dispatchState next.kind, ""⟩ : NodeRun)]).map NodeRun.stand :=
    Table.update_keys fun _ => rfl
  rw [ended, List.map_append, finished]
  rfl

/-- No token is left exactly when the one that was consumed was the last. -/
theorem ended_idle_iff (keyed : Keyed wf db) :
    ((db.finishNodeRun own state outcome).reachEnd next parent group).activeTokenCount = 0 ↔
      ∀ token ∈ db.tokens, token.active = true → token.id = own.token := by
  rw [RunDb.activeTokenCount, List.countP_eq_zero]
  constructor
  · intro idle token member active
    by_contra differs
    have old := keyed.tokensOld token member
    refine idle token ?_ active
    refine Table.mem_update.mpr ⟨token, List.mem_append_left _ (Table.mem_update.mpr ⟨token, member, ?_⟩), ?_⟩
    · simp [differs]
    · have notNew : token.id ≠ (db.finishNodeRun own state outcome).nextID := Nat.ne_of_lt old
      simp [notNew]
  · intro last token member active
    obtain ⟨middle, middleMember, rfl⟩ := Table.mem_update.mp member
    rcases List.mem_append.mp middleMember with earlier | added
    · obtain ⟨old, oldMember, rfl⟩ := Table.mem_update.mp earlier
      by_cases isActive : old.active = true
      · simp [isActive, last old oldMember isActive] at active
      · simp [isActive] at active
    · rw [List.mem_singleton.mp added] at active
      simp at active

theorem AttemptRow.isAt_eq (row : AttemptRow) (nodeRuns : List NodeRun) (node : String) :
    row.isAt nodeRuns node =
      (nodeRuns.map NodeRun.stand).any fun stand => stand.1 = row.nodeRun && stand.2.2 = node := by
  rw [List.any_map]
  rfl

theorem ended_nodeOutput (old : ∀ row ∈ rows, row.nodeRun < db.nextID) (node : String) :
    EngineQueries.nodeOutput ((db.finishNodeRun own state outcome).reachEnd next parent group).nodeRuns rows
      node = EngineQueries.nodeOutput db.nodeRuns rows node := by
  have same : ∀ row ∈ rows,
      (row.status = .succeeded && row.isAt
        ((db.finishNodeRun own state outcome).reachEnd next parent group).nodeRuns node) =
      (row.status = .succeeded && row.isAt db.nodeRuns node) := by
    intro row member
    have differs : ¬ db.nextID + 1 = row.nodeRun := by
      have isOld := old row member
      omega
    rw [AttemptRow.isAt_eq, AttemptRow.isAt_eq, ended_stands, List.any_append]
    simp [differs]
  unfold EngineQueries.nodeOutput latestOutput
  rw [List.filter_congr same]

theorem nodeOutput_concat (keyed : Keyed wf db) (member : own ∈ db.nodeRuns) {row : AttemptRow}
    (isOwn : row.nodeRun = own.id) {node : String} (differs : node ≠ own.node) :
    EngineQueries.nodeOutput db.nodeRuns (rows ++ [row]) node =
      EngineQueries.nodeOutput db.nodeRuns rows node := by
  have elsewhere : row.isAt db.nodeRuns node = false := by
    rw [AttemptRow.isAt, List.any_eq_false]
    intro run runMember
    simp only [Bool.and_eq_true, decide_eq_true_eq, not_and]
    intro sameID isNode
    rw [keyed.run_eq runMember member (sameID.trans isOwn)] at isNode
    exact differs isNode.symm
  unfold EngineQueries.nodeOutput latestOutput
  rw [List.filter_append, List.filter_singleton]
  simp [elsewhere]

theorem reads_iff {wf' : Workflow} {work : Nat} {ended other : RunDb} {env : Env} {reader : BindingReader}
    {row : AttemptRow} (keyed : Keyed wf db) (member : own ∈ db.nodeRuns)
    (old : ∀ row ∈ rows, row.nodeRun < db.nextID) (isOwn : row.nodeRun = own.id)
    (isEnded : ended = (db.finishNodeRun own state outcome).reachEnd next parent group)
    (alike : Alike work ended other) (found : wf.node? next.id = some next)
    (foundThere : wf'.node? next.id = some next) :
    (Mover.resolveRunOutput (env.reading reader rows) wf ended next.id).toOption =
        (Mover.resolveRunOutput (env.reading reader (rows ++ [row])) wf' other next.id).toOption ↔
      ∀ path, outputPath next.outputFrom own.node = some path →
        reader.read env db.nodeRuns rows own.node path =
          reader.read env db.nodeRuns (rows ++ [row]) own.node path := by
  have oldRows : ∀ each ∈ rows ++ [row], each.nodeRun < db.nextID := by
    intro each eachMember
    rcases List.mem_append.mp eachMember with earlier | added
    · exact old each earlier
    · rw [List.mem_singleton.mp added, isOwn]
      exact keyed.runsOld own member
  have mine : ∀ name, EngineQueries.nodeOutput ended.nodeRuns rows name =
      EngineQueries.nodeOutput db.nodeRuns rows name := fun name => isEnded ▸ ended_nodeOutput old name
  have theirs : ∀ name, EngineQueries.nodeOutput other.nodeRuns (rows ++ [row]) name =
      EngineQueries.nodeOutput db.nodeRuns (rows ++ [row]) name := by
    intro name
    rw [alike.nodeRuns_eq, isEnded]
    exact ended_nodeOutput oldRows name
  cases addressed : outputPath next.outputFrom own.node with
  | none =>
      refine ⟨fun _ _ isPath => absurd isPath.symm (Option.some_ne_none _), fun _ => ?_⟩
      refine (resolveRunOutput_elsewhere found foundThere addressed alike.input_eq fun name differs => ?_).symm
      rw [theirs, mine, nodeOutput_concat keyed member isOwn differs]
  | some path =>
      rw [resolveRunOutput_own found addressed, resolveRunOutput_own foundThere addressed]
      simp only [BindingReader.read, mine, theirs, Option.some.injEq, forall_eq']

end

/-- A decision of a human task and, on the same run, a succeeded attempt with the same outcome and output
at a node with the same outgoing edges. `rows` are the attempts recorded before. The completion proposes no
evidence, so that both read the same. -/
structure Pairing where
  env : Env
  reader : BindingReader
  tenv : TriggerEnv
  oldest : OldestQuery
  hosted : Hosted
  run : HostedRun
  definition : Definition
  nodeRun : NodeRun
  request : DecisionRequest
  attempted : RunDb
  other : Definition
  completion : CompletionRequest
  rows : List AttemptRow
  attemptID : Nat
  startedAt : Option Nat
  now : Nat
  keyed : Keyed definition.workflow run.rows
  rowsOld : ∀ row ∈ rows, row.nodeRun < run.rows.nextID
  counterpart : definition.workflow.Counterpart other.workflow nodeRun.node
  ceiling : other.maxConcurrentSubjectRuns = definition.maxConcurrentSubjectRuns
  under : UnderAttempt nodeRun.id completion.claim.work run.rows attempted
  sameOutcome : completion.outcome = request.outcome
  sameOutput : completion.output = request.response
  decides : ∃ prepared, request.prepare definition.workflow run.rows now = .ok prepared ∧
    prepared.mover.nodeRun = nodeRun
  succeeds : ∃ prepared, completion.prepare env other.workflow attempted now = .ok prepared ∧
    prepared.resolution = .transition completion.outcome .completed

namespace Pairing

variable (pair : Pairing)

/-- The row that the completion records. -/
def attemptRow : AttemptRow :=
  pair.completion.attemptRow pair.attemptID pair.startedAt pair.now
    ⟨pair.nodeRun.id, pair.attempted.nextAttemptNumber pair.nodeRun.id, .succeeded⟩

/-- The namespace after the decision. -/
def decided : Except EngineError (RunDb × Hosted) :=
  pair.hosted.settle pair.tenv pair.oldest pair.now pair.definition pair.run
    (pair.request.decide (pair.env.reading pair.reader pair.rows) pair.definition.workflow pair.now
      pair.run.rows)

def completed : Except EngineError (RunDb × Hosted) :=
  (pair.hosted.setRows pair.run.id pair.attempted).commit pair.tenv pair.oldest
    (pair.env.reading pair.reader (pair.rows ++ [pair.attemptRow])) pair.now pair.other
    { pair.run with rows := pair.attempted } (.complete pair.completion)

/-- Both are rolled back, or they leave the same. -/
def Parity : Prop :=
  Option.Rel (fun mine theirs => Alike pair.completion.claim.work mine.1 theirs.1 ∧
      mine.2.Beside pair.run.id pair.completion.claim.work theirs.2)
    pair.decided.toOption pair.completed.toOption

/-- What edge selection reads of the state before. -/
def input : TransitionInput where
  workflow := pair.definition.workflow
  node := pair.nodeRun.node
  outcome := pair.request.outcome
  guard edge := pair.env.evaluateGuard edge pair.run.rows.input pair.request.response pair.request.outcome
  transitions := pair.run.rows.transitionCount
  visits := pair.run.rows.nodeVisits
  elapsed := pair.now - pair.run.rows.createdAt

/-- Where the outcome leads. -/
def plan : TransitionPlan := planTransition pair.input

/-- Where the run is to end at an end node that binds the output of the node that is decided, what the
binding reads from the attempts recorded before is what it reads with the new one. -/
def Indifferent : Prop :=
  ∀ target rest next path, pair.plan = .follow (target :: rest) →
    pair.definition.workflow.node? target.target = some next → next.kind = .endNode →
    (∀ token ∈ pair.run.rows.tokens, token.active = true → token.id = pair.nodeRun.token) →
    outputPath next.outputFrom pair.nodeRun.node = some path →
    pair.reader.read pair.env pair.run.rows.nodeRuns pair.rows pair.nodeRun.node path =
      pair.reader.read pair.env pair.run.rows.nodeRuns (pair.rows ++ [pair.attemptRow]) pair.nodeRun.node path

/-- The subject's queue can be drained should the run end. -/
def drains : Bool :=
  (drainSubjectTriggerQueue pair.tenv pair.oldest pair.now pair.definition pair.run.key pair.run.subject
    pair.hosted).isOk

/-- What the two transactions have found before they follow an edge. -/
structure Found (prepared attempt : Prepared) : Prop where
  decided : pair.request.prepare pair.definition.workflow pair.run.rows pair.now = .ok prepared
  attempted : pair.completion.prepare pair.env pair.other.workflow pair.attempted pair.now = .ok attempt
  resolves : prepared.resolution = .transition pair.request.outcome .completed
  resolvesThere : attempt.resolution = .transition pair.request.outcome .completed
  nodeRun : prepared.mover.nodeRun = pair.nodeRun
  member : pair.nodeRun ∈ pair.run.rows.nodeRuns
  rows : prepared.db = pair.request.resolveTask pair.run.rows
  twin : prepared.mover.Twin attempt.mover
  plain : prepared.mover.Plain
  plainThere : attempt.mover.Plain
  alike : Alike pair.completion.claim.work
    (prepared.db.finishNodeRun prepared.mover.nodeRun .completed pair.request.outcome)
    (attempt.db.finishNodeRun attempt.mover.nodeRun .completed pair.request.outcome)
  planned : ∀ env, planTransition (prepared.input (pair.env.reading pair.reader env) pair.definition.workflow
    pair.request.outcome) = pair.plan
  plans : ∀ env, pair.plan.Twin (planTransition (attempt.input (pair.env.reading pair.reader env)
    pair.other.workflow pair.request.outcome))
  transitions : attempt.db.transitionCount = prepared.db.transitionCount

theorem found : ∃ prepared attempt, pair.Found prepared attempt := by
  obtain ⟨prepared, isPrepared, isRun⟩ := pair.decides
  obtain ⟨_, own, node, _, _, _, member, waits, _, found, rfl⟩ := DecisionRequest.prepare_ok isPrepared
  obtain ⟨attempt, isAttempt, completes⟩ := pair.succeeds
  obtain ⟨work, there, nodeThere, completedWork, named, memberThere, foundThere, rfl⟩ :=
    CompletionRequest.prepare_completed isAttempt completes
  obtain rfl : own = pair.nodeRun := isRun
  have isThere : there.id = pair.nodeRun.id := Option.some.inj (named.symm.trans pair.under.nodeRunOf_eq)
  obtain ⟨sameToken, sameNode⟩ := pair.under.nodeRun_eq pair.keyed member rfl memberThere isThere
  have approval : node.kind = .approval := by
    have kind := pair.keyed.human pair.nodeRun member waits
    rw [pair.definition.workflow.kind?_of_node? found] at kind
    exact Option.some.inj kind
  obtain ⟨attempted, isAttempted, noSplit, noJoin, _⟩ := pair.counterpart.attempted
  obtain rfl : nodeThere = attempted := by
    rw [← sameNode, foundThere] at isAttempted
    exact Option.some.inj isAttempted
  have singleThere : splits nodeThere pair.request.outcome = false := by simp [splits, noSplit]
  refine ⟨_, _, {
    decided := isPrepared
    attempted := isAttempt
    resolves := rfl
    resolvesThere := by rw [pair.sameOutcome]
    nodeRun := rfl
    member := member
    rows := rfl
    twin := ⟨isThere, sameToken, sameNode, rfl, pair.sameOutcome, pair.sameOutput, rfl⟩
    plain := Or.inl rfl
    plainThere := Or.inr ⟨noSplit, noJoin⟩
    alike := pair.under.finished rfl isThere sameToken completedWork pair.request _ _ _ _
    planned := fun _ => rfl
    plans := fun rows => ?_
    transitions := pair.under.transitionCount_eq }⟩
  have sameInput : Prepared.input
      ⟨RunDb.insertAttempt { pair.attempted with work := work } there.id
          (pair.attempted.nextAttemptNumber there.id) .succeeded,
        ⟨false, there, nodeThere, .completed, pair.completion.outcome, pair.completion.output, pair.now⟩,
        .transition pair.completion.outcome .completed⟩
      (pair.env.reading pair.reader rows) pair.other.workflow pair.request.outcome =
      { pair.input with workflow := pair.other.workflow } := by
    change TransitionInput.mk pair.other.workflow there.node pair.request.outcome
      (fun edge => pair.env.evaluateGuard edge pair.attempted.input pair.completion.output pair.request.outcome)
      pair.attempted.transitionCount pair.attempted.nodeVisits (pair.now - pair.attempted.createdAt)
      (if false = false ∧ splits nodeThere pair.request.outcome = true then pair.attempted.activeTokenCount else 0)
      = _
    rw [sameNode, pair.under.input_eq, pair.sameOutput, pair.under.transitionCount_eq, pair.under.nodeVisits_eq,
      pair.under.createdAt_eq, singleThere]
    rfl
  rw [sameInput]
  exact Workflow.Counterpart.plan pair.counterpart found approval

variable {pair}

/-- Both end the run at `next`; they leave the same unless the binding tells them apart. -/
theorem Found.completeRun_iff {prepared attempt : Prepared} (found : pair.Found prepared attempt)
    {next : Node} (group : Option Nat) (declared : pair.definition.workflow.node? next.id = some next)
    (declaredThere : pair.other.workflow.node? next.id = some next) :
    Alike pair.completion.claim.work
        (prepared.mover.completeRun (pair.env.reading pair.reader pair.rows) pair.definition.workflow
          ((prepared.db.finishNodeRun prepared.mover.nodeRun .completed pair.request.outcome).reachEnd next
            (some prepared.mover.nodeRun.token) group) next.id)
        (attempt.mover.completeRun (pair.env.reading pair.reader (pair.rows ++ [pair.attemptRow]))
          pair.other.workflow
          ((attempt.db.finishNodeRun attempt.mover.nodeRun .completed pair.request.outcome).reachEnd next
            (some prepared.mover.nodeRun.token) group) next.id) ↔
      ((∀ token ∈ pair.run.rows.tokens, token.active = true → token.id = pair.nodeRun.token) →
        ∀ path, outputPath next.outputFrom pair.nodeRun.node = some path →
          pair.reader.read pair.env pair.run.rows.nodeRuns pair.rows pair.nodeRun.node path =
            pair.reader.read pair.env pair.run.rows.nodeRuns (pair.rows ++ [pair.attemptRow]) pair.nodeRun.node
              path) := by
  have ended := found.alike.reachEnd next (some prepared.mover.nodeRun.token) group
  have keyed : Keyed pair.definition.workflow (pair.request.resolveTask pair.run.rows) := { pair.keyed with }
  have isEnded : (prepared.db.finishNodeRun prepared.mover.nodeRun .completed pair.request.outcome).reachEnd next
      (some prepared.mover.nodeRun.token) group =
      ((pair.request.resolveTask pair.run.rows).finishNodeRun pair.nodeRun .completed
        pair.request.outcome).reachEnd next (some prepared.mover.nodeRun.token) group := by
    rw [found.rows, found.nodeRun]
  have idle : ((prepared.db.finishNodeRun prepared.mover.nodeRun .completed pair.request.outcome).reachEnd next
      (some prepared.mover.nodeRun.token) group).activeTokenCount = 0 ↔
      ∀ token ∈ pair.run.rows.tokens, token.active = true → token.id = pair.nodeRun.token := by
    rw [isEnded]
    exact ended_idle_iff keyed
  have sameRuns : pair.run.rows.nodeRuns = (pair.request.resolveTask pair.run.rows).nodeRuns := rfl
  have member : pair.nodeRun ∈ (pair.request.resolveTask pair.run.rows).nodeRuns := found.member
  have old : ∀ row ∈ pair.rows, row.nodeRun < (pair.request.resolveTask pair.run.rows).nextID := pair.rowsOld
  have isOwn : pair.attemptRow.nodeRun = pair.nodeRun.id := rfl
  rw [found.twin.completeRun_iff ended, idle, sameRuns]
  exact imp_congr_right fun _ => reads_iff keyed member old isOwn isEnded ended declared declaredThere

/-- The moved token is still there when the plan is followed. -/
theorem Found.token {prepared attempt : Prepared} (found : pair.Found prepared attempt) :
    ∃ token, (prepared.db.finishNodeRun prepared.mover.nodeRun .completed pair.request.outcome).token?
      prepared.mover.nodeRun.token = some token := by
  obtain ⟨standing, standingMember, stands, _⟩ := pair.keyed.placed pair.nodeRun found.member
  have tokens : (prepared.db.finishNodeRun prepared.mover.nodeRun .completed
      pair.request.outcome).tokens.map Token.id = pair.run.rows.tokens.map Token.id := by
    rw [found.rows]
    exact Table.update_keys fun _ => rfl
  obtain ⟨moved, movedMember, sameID⟩ := Table.exists_of_keys_eq tokens.symm standingMember
  rw [RunDb.token?, ← Option.isSome_iff_exists, List.find?_isSome]
  exact ⟨moved, movedMember, by simpa [found.nodeRun, ← stands] using sameID⟩

variable (pair)

/-- The decision's transaction on the run. -/
def transactedMine : Except EngineError RunDb :=
  decideHumanTask (pair.env.reading pair.reader pair.rows) pair.definition.workflow pair.now pair.run.rows
    pair.request

/-- The completion's. -/
def transactedTheirs : Except EngineError RunDb :=
  completeAttempt (pair.env.reading pair.reader (pair.rows ++ [pair.attemptRow])) pair.other.workflow pair.now
    pair.attempted pair.completion

variable {pair}

section

variable {prepared attempt : Prepared} (found : pair.Found prepared attempt)

include found

theorem Found.transactedMine_eq : pair.transactedMine =
    prepared.transition (pair.env.reading pair.reader pair.rows) pair.definition.workflow pair.request.outcome
      .completed := by
  simp only [transactedMine, decideHumanTask, found.decided, Prepared.carryOut, found.resolves]

theorem Found.transactedTheirs_eq : pair.transactedTheirs =
    attempt.transition (pair.env.reading pair.reader (pair.rows ++ [pair.attemptRow])) pair.other.workflow
      pair.request.outcome .completed := by
  have again : pair.completion.prepare (pair.env.reading pair.reader (pair.rows ++ [pair.attemptRow]))
      pair.other.workflow pair.attempted pair.now = .ok attempt := found.attempted
  simp only [transactedTheirs, completeAttempt, again, Prepared.carryOut, found.resolvesThere]

theorem Found.follows {target : Edge} {rest : List Edge} (isPlan : pair.plan = .follow (target :: rest)) :
    pair.other.workflow.node? target.target = pair.definition.workflow.node? target.target ∧
    pair.transactedMine = prepared.mover.conclude (prepared.mover.advance
      (pair.env.reading pair.reader pair.rows) pair.definition.workflow
      (prepared.db.finishNodeRun prepared.mover.nodeRun .completed pair.request.outcome) (target :: rest)) ∧
    pair.transactedTheirs = attempt.mover.conclude (attempt.mover.advance
      (pair.env.reading pair.reader (pair.rows ++ [pair.attemptRow])) pair.other.workflow
      (attempt.db.finishNodeRun attempt.mover.nodeRun .completed pair.request.outcome) (target :: rest)) := by
  obtain ⟨_, follows⟩ := planTransition_follow isPlan
  obtain ⟨isEdge, leaves, _⟩ := follows.edges target List.mem_cons_self
  have plans := found.plans (pair.rows ++ [pair.attemptRow])
  generalize isThere : planTransition (attempt.input (pair.env.reading pair.reader
    (pair.rows ++ [pair.attemptRow])) pair.other.workflow pair.request.outcome) = planThere at plans
  rw [isPlan] at plans
  cases plans with
  | follow =>
      refine ⟨pair.counterpart.targets target isEdge leaves, ?_, ?_⟩
      · rw [found.transactedMine_eq, Prepared.transition_follow _ ((found.planned _).trans isPlan)]
      · rw [found.transactedTheirs_eq, Prepared.transition_follow _ isThere]

end

theorem completeRun_terminal {mover : Mover} {env : Env} {wf : Workflow} {db : RunDb} (endNode : String) :
    (mover.completeRun env wf db endNode).state.terminal = true := by
  unfold Mover.completeRun
  split
  · rfl
  · split
    · rfl
    · rfl

variable (pair)

/-- On the run alone, the two agree exactly where the binding does not tell them apart. -/
theorem transacted_iff : Option.Rel (Alike pair.completion.claim.work) pair.transactedMine.toOption
    pair.transactedTheirs.toOption ↔ pair.Indifferent := by
  obtain ⟨prepared, attempt, found⟩ := pair.found
  have planned := found.planned pair.rows
  have plans := found.plans (pair.rows ++ [pair.attemptRow])
  generalize isThere : planTransition (attempt.input (pair.env.reading pair.reader
    (pair.rows ++ [pair.attemptRow])) pair.other.workflow pair.request.outcome) = planThere at plans
  generalize isPlan : pair.plan = plan at planned plans
  cases plans with
  | stop bound =>
      refine ⟨fun _ _ _ _ _ follows => ?_, fun _ => ?_⟩
      · rw [isPlan] at follows
        cases follows
      · simp only [found.transactedMine_eq, found.transactedTheirs_eq, Prepared.transition, planned, isThere,
          found.transitions]
        exact .some (found.twin.failBound found.alike _ _)
  | refuse _ _ =>
      refine ⟨fun _ _ _ _ _ follows => ?_, fun _ => ?_⟩
      · rw [isPlan] at follows
        cases follows
      · simp only [found.transactedMine_eq, found.transactedTheirs_eq, Prepared.transition, planned, isThere]
        exact .some (found.twin.failRun found.alike _ _)
  | follow targets =>
      cases targets with
      | nil =>
          obtain ⟨_, follows⟩ := planTransition_follow isPlan
          exact absurd rfl follows.nonempty
      | cons target rest =>
          obtain ⟨sameTarget, mine, theirs⟩ := found.follows isPlan
          obtain ⟨token, tokenFound⟩ := found.token
          rw [mine, theirs, found.twin.advance_iff found.plain found.plainThere found.alike tokenFound sameTarget]
          constructor
          · intro agree other others next path isFollow isNext ends last addressed
            obtain ⟨rfl, rfl⟩ := List.cons.inj (TransitionPlan.follow.inj (isPlan.symm.trans isFollow))
            have named := pair.definition.workflow.node?_id isNext
            rw [← named] at isNext sameTarget
            exact (found.completeRun_iff token.group isNext (sameTarget.trans isNext)).mp
              (agree next (named ▸ isNext) ends) last path addressed
          · intro indifferent next isNext ends
            have named := pair.definition.workflow.node?_id isNext
            refine (found.completeRun_iff token.group (named ▸ isNext)
              (named ▸ sameTarget.trans isNext)).mpr fun last path addressed => ?_
            exact indifferent target rest next path isPlan isNext ends last addressed

/-- Where the plan leads to an end node, both end the run. -/
theorem ends_of_not_indifferent (told : ¬ pair.Indifferent) :
    ∃ rows others, pair.transactedMine = .ok rows ∧ rows.state.terminal = true ∧
      pair.transactedTheirs = .ok others ∧ others.state.terminal = true := by
  obtain ⟨prepared, attempt, found⟩ := pair.found
  unfold Indifferent at told
  push Not at told
  obtain ⟨target, rest, next, _, isPlan, isNext, ends, _⟩ := told
  obtain ⟨sameTarget, mine, theirs⟩ := found.follows isPlan
  obtain ⟨token, tokenFound⟩ := found.token
  have foundThere : (attempt.db.finishNodeRun attempt.mover.nodeRun .completed pair.request.outcome).token?
      attempt.mover.nodeRun.token = some token := by
    rw [found.twin.token, found.alike.token?_eq, tokenFound]
  rw [found.plain.advance tokenFound, Mover.follow, isNext] at mine
  rw [found.plainThere.advance foundThere, Mover.follow, sameTarget, isNext] at theirs
  simp only [ends, reduceCtorEq, if_false, if_true] at mine theirs
  exact ⟨_, _, mine, completeRun_terminal _, theirs, completeRun_terminal _⟩

/-- A decision leaves the run, and the queue it drains, as the completion of an attempt does, exactly when
no end node reads the missing attempt, or when the drain rolls both back. -/
theorem parity_iff : pair.Parity ↔ pair.Indifferent ∨ pair.drains = false := by
  have decides : (pair.request.decide (pair.env.reading pair.reader pair.rows) pair.definition.workflow pair.now
      pair.run.rows).toOption = pair.transactedMine.toOption := decide_eq_decideHumanTask _ _ _ _ _
  have commits : pair.completed = (pair.hosted.setRows pair.run.id pair.attempted).settle pair.tenv pair.oldest
      pair.now pair.other { pair.run with rows := pair.attempted } pair.transactedTheirs :=
    Hosted.commit_eq_settle _ _ _ _ _ _ _ _
  unfold Parity decided
  rw [commits]
  constructor
  · intro parity
    by_cases drains : pair.drains = true
    · refine Or.inl (pair.transacted_iff.mp ?_)
      rw [← decides]
      exact Hosted.rel_of_settle pair.ceiling drains parity
    · exact Or.inr (by simpa using drains)
  · intro either
    by_cases indifferent : pair.Indifferent
    · refine Hosted.settle_rel pair.attempted pair.ceiling ?_
      rw [decides]
      exact pair.transacted_iff.mpr indifferent
    · have stuck := either.resolve_left indifferent
      obtain ⟨rows, others, mine, endsMine, theirs, endsTheirs⟩ := pair.ends_of_not_indifferent indifferent
      have decided := toOption_some (decides.trans (congrArg Except.toOption mine))
      have stuckThere : (drainSubjectTriggerQueue pair.tenv pair.oldest pair.now pair.other pair.run.key
          pair.run.subject (pair.hosted.setRows pair.run.id pair.attempted)).isOk = false :=
        (drainSubjectTriggerQueue_setRows pair.attempted pair.ceiling _ _).trans stuck
      have rolledBack : (pair.hosted.settle pair.tenv pair.oldest pair.now pair.definition pair.run
          (.ok rows)).toOption = none :=
        Hosted.settle_stuck endsMine ((drainSubjectTriggerQueue_setRows rows rfl _ _).trans stuck)
      have rolledBackThere : ((pair.hosted.setRows pair.run.id pair.attempted).settle pair.tenv pair.oldest pair.now
          pair.other { pair.run with rows := pair.attempted } (.ok others)).toOption = none :=
        Hosted.settle_stuck endsTheirs ((drainSubjectTriggerQueue_setRows others rfl _ _).trans stuckThere)
      rw [decided, theirs, rolledBack, rolledBackThere]
      exact .none

end Pairing

/-- A review and the end it leads to, whose output is bound. -/
def reviewing (kind : NodeKind) (binding : String) : Definition where
  workflow :=
    { entry := "review"
      nodes := [{ id := "review", kind := kind, outcomes := ["approved"] },
        { id := "done", kind := .endNode, outputFrom := binding }]
      edges := [{ fromNode := "review", fromOutcome := "approved", target := "done" }] }
  entryDeclared := rfl

def awaiting : RunDb where
  input := "null"
  createdAt := 0
  tokens := [{ id := 0, node := "review" }]
  nodeRuns := [{ id := 1, token := 0, node := "review", state := .waitingHuman }]
  humanTasks := [{ id := 2, nodeRun := 1, allowedOutcomes := ["approved"] }]
  nextID := 3
  journal := [.wrote 1 .waitingHuman]

def reviewedByWorker : RunDb :=
  { awaiting with
    nodeRuns := [{ id := 1, token := 0, node := "review", state := .running }]
    work := { items := [{ id := 2, nodeRun := 1, state := .leased, leaseOwner := some "worker",
                          leaseExpiresAt := some 1, fencingToken := 1, attempt := 1, availableAt := 0,
                          stateVersion := 1 }] }
    humanTasks := []
    journal := [.wrote 1 .running, .enqueued 1, .wrote 1 .ready] }

theorem awaiting_created (binding : String) :
    createRun Env.permissive (reviewing .approval binding).workflow "null" 0 = .ok awaiting := rfl

theorem reviewing_counterpart (binding : String) :
    (reviewing .approval binding).workflow.Counterpart (reviewing .agent binding).workflow "review" where
  limits := rfl
  edges := rfl
  targets := by
    intro edge member _
    rw [List.mem_singleton.mp member]
    rfl
  attempted := ⟨_, rfl, by decide, by decide, by decide⟩

theorem awaiting_underAttempt : UnderAttempt 1 2 awaiting reviewedByWorker :=
  ⟨.running, _, _, _, _, rfl, ⟨[], [], _, ⟨rfl, rfl⟩, rfl, rfl⟩, by simp [awaiting]⟩

/-- The walk to the whole document, the only one these bindings take. -/
def wholeDocument : BindingReader where
  traverse document path := if path = [] then .ok (jsonOrNull document) else .error "no such member"
  evidence _ := .ok "[]"

/-- The review is approved, by a person and by a worker, with the same answer. -/
def reviewPair (binding : String) : Pairing where
  env := Env.permissive
  reader := wholeDocument
  tenv := tiered
  oldest := .first
  hosted := { runs := [{ id := 0, key := "flow", digest := "digest", rows := awaiting }], nextID := 1 }
  run := { id := 0, key := "flow", digest := "digest", rows := awaiting }
  definition := reviewing .approval binding
  nodeRun := { id := 1, token := 0, node := "review", state := .waitingHuman }
  request := { task := 2, outcome := "approved", response := "true" }
  attempted := reviewedByWorker
  other := reviewing .agent binding
  completion :=
    { claim := ⟨2, "worker", 1, 1⟩, status := .succeeded, outcome := "approved", output := "true" }
  rows := []
  attemptID := 4
  startedAt := none
  now := 0
  keyed := (createRun_created (awaiting_created binding)).standing.keyed
  rowsOld := by simp
  counterpart := reviewing_counterpart binding
  ceiling := rfl
  under := awaiting_underAttempt
  sameOutcome := rfl
  sameOutput := rfl
  decides := ⟨_, rfl, rfl⟩
  succeeds := ⟨_, rfl, rfl⟩

/-- An end that binds the run's input reads no attempt. -/
theorem parity_unbound : (reviewPair "/run/input").Parity := by
  refine (reviewPair "/run/input").parity_iff.mpr (Or.inl ?_)
  intro target rest next path planned declared _ _ addressed
  have isPlan : (reviewPair "/run/input").plan =
      .follow [{ fromNode := "review", fromOutcome := "approved", target := "done" }] := by
    decide +kernel
  have isTarget := (List.cons.inj (TransitionPlan.follow.inj (isPlan.symm.trans planned))).1
  have isDone : (reviewPair "/run/input").definition.workflow.node? "done" =
      some { id := "done", kind := .endNode, outputFrom := "/run/input" } := rfl
  rw [← isTarget, isDone] at declared
  have elsewhere : outputPath "/run/input" "review" = none := by decide +kernel
  rw [← Option.some.inj declared] at addressed
  cases elsewhere.symm.trans addressed

/-- An end that binds the review's output: the worker's approval completes the run with it, the person's
finds no attempt of the review and fails the run. -/
theorem approved_review_fails_run : ¬ ∀ pair : Pairing, pair.Parity := by
  intro always
  have parity := always (reviewPair "/nodes/review/output")
  have mine : (reviewPair "/nodes/review/output").decided.toOption.map (·.1.state) = some .failed := by
    decide +kernel
  have theirs : (reviewPair "/nodes/review/output").completed.toOption.map (·.1.state) = some .completed := by
    decide +kernel
  obtain ⟨rows, isDecided, failed⟩ := Option.map_eq_some_iff.mp mine
  obtain ⟨others, isCompleted, completed⟩ := Option.map_eq_some_iff.mp theirs
  rw [Pairing.Parity, isDecided, isCompleted] at parity
  cases parity with
  | some both =>
      have same := both.1.state_eq
      rw [failed, completed] at same
      cases same

end CultureNodes.Engine
