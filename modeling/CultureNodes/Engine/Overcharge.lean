import CultureNodes.Engine.Ending

/-!
What the loop bounds charge and what a transition creates. Every planned edge is charged a node run;
an arrival at a barrier that is open creates none. A run is stopped at a bound it would not have passed
where such arrivals alone make the difference.
-/

namespace CultureNodes.Engine

/-- The nodes that the edges of a split enter with a node run of their own, behind the edges `done`: a
join that an earlier edge points at has its barrier already. -/
def Workflow.branchEntries (wf : Workflow) (done : List Edge) : List Edge → List String
  | [] => []
  | edge :: rest =>
      (if wf.toJoin edge && done.any (·.target = edge.target) then [] else [edge.target]) ++
        wf.branchEntries (done ++ [edge]) rest

namespace Mover

variable (mover : Mover) (wf : Workflow)

/-- The nodes that following the edges enters with a new node run. -/
def entries (db : RunDb) (targets : List Edge) : List String :=
  match targets, mover.nextGroup db with
  | [], _ | _, .error _ => []
  | target :: _, .ok place =>
      if mover.fansOut target then wf.branchEntries [] targets
      else if wf.toJoin target then
        match place with
        | none => []
        | some group => if (db.openJoinBarrier target.target group).isSome then [] else [target.target]
      else [target.target]

end Mover

/-- The rows that routing leaves: those of the next state, or those on which the run is failed. -/
def Commits (result : Except Halt RunDb) (rows : RunDb) : Prop :=
  result = .ok rows ∨ ∃ failure, result = .error (.refuse rows failure)

namespace RunDb

variable {db : RunDb}

theorem settleBarrier_visited {join : Node} {barrier : NodeRun} {group now : Nat} {rows : RunDb}
    (commits : Commits (db.settleBarrier join barrier group now) rows) : rows.visited = db.visited := by
  unfold settleBarrier at commits
  split at commits
  · rcases commits with done | ⟨failure, refused⟩
    · contradiction
    · simp at refused
  · dsimp only at commits
    split at commits
    · rcases commits with done | ⟨failure, refused⟩
      · contradiction
      · obtain ⟨rfl, _⟩ := Halt.refuse.inj (Except.error.inj refused)
        rfl
    · split at commits
      · rcases commits with done | ⟨failure, refused⟩
        · rw [Except.ok.inj done]
        · contradiction
      · rcases commits with done | ⟨failure, refused⟩
        · rw [← Except.ok.inj done, fireBarrier_visited]
        · contradiction

theorem gather_visited_eq (join : Node) (token group : Nat) (fromNode outcome : String)
    (output : Payload) : (db.gather join token group fromNode outcome output).visited =
      db.visited ++ if (db.openJoinBarrier join.id group).isSome then [] else [join.id] := by
  unfold gather joinBarrier
  cases db.openJoinBarrier join.id group with
  | some barrier => exact (List.append_nil _).symm
  | none => exact List.map_append

end RunDb

section

variable {wf : Workflow} {mover : Mover} {group : Nat} {done : List Edge} {spread : Spread}

/-- In a split a barrier is open once an edge has pointed at it. -/
theorem Gathered.open_eq (gathered : Gathered wf group done spread) (keyed : Keyed wf spread.db)
    {name : String} {join : Node} (found : wf.node? name = some join) (isJoin : join.kind = .join) :
    (spread.db.openJoinBarrier join.id group).isSome = done.any (·.target = join.id) := by
  have sameName : join.id = name := wf.node?_id found
  rw [Bool.eq_iff_iff, List.any_eq_true]
  constructor
  · intro isOpen
    obtain ⟨barrier, isBarrier⟩ := Option.isSome_iff_exists.mp isOpen
    obtain ⟨member, sameNode, waits, inGroup⟩ := Keyed.openJoinBarrier_eq_some isBarrier
    obtain ⟨entry, entryMember, sameID⟩ := gathered.found barrier member waits inGroup
    obtain ⟨run, runMember, runID, runNode⟩ := gathered.stands entry entryMember
    have isRun := keyed.run_eq runMember member (runID.trans sameID)
    have isStraight : entry.1 ∈ wf.straightJoins done := gathered.joins ▸ List.mem_map_of_mem entryMember
    obtain ⟨edge, edgeMember, isTarget, _⟩ := Workflow.mem_straightJoins isStraight
    refine ⟨edge, edgeMember, decide_eq_true ?_⟩
    rw [← wf.node?_id isTarget, ← runNode, isRun, sameNode]
  · rintro ⟨edge, edgeMember, target⟩
    have target : edge.target = join.id := of_decide_eq_true target
    have straight : wf.toJoin edge = true := by
      simp [Workflow.toJoin, target, sameName, wf.kind?_of_node? found, isJoin]
    obtain ⟨entry, entryMember, sameEntry⟩ := gathered.fed edge edgeMember straight
    obtain ⟨run, runMember, runID, _, waits, token, tokenMember, owns, inGroup⟩ :=
      gathered.parked entry entryMember
    obtain ⟨row, rowMember, rowID, rowNode⟩ := gathered.stands entry entryMember
    have sameNode : run.node = join.id := by
      rw [← keyed.run_eq rowMember runMember (rowID.trans runID.symm), rowNode, sameEntry, target]
    refine List.find?_isSome.mpr ⟨run, runMember, ?_⟩
    simp only [sameNode, waits, Bool.and_eq_true, decide_true, true_and, List.any_eq_true,
      decide_eq_true_eq]
    exact ⟨token, tokenMember, owns, inGroup⟩

/-- The branches of a split enter the nodes that the edges say. -/
theorem Mover.spreadBranches_visited {edges : List Edge} {next : Spread}
    (standing : Standing wf (.spreading group edges, spread.db))
    (gathered : Gathered wf group done spread)
    (ran : mover.spreadBranches wf group spread edges = .ok next) :
    next.db.visited = spread.db.visited ++ wf.branchEntries done edges := by
  induction edges generalizing done spread with
  | nil =>
      rw [← Except.ok.inj ran]
      exact (List.append_nil _).symm
  | cons edge rest ih =>
      rw [Mover.spreadBranches] at ran
      split at ran
      · contradiction
      · rename_i middle branched
        obtain ⟨turn, middleGathered, _⟩ : Turn wf False False _ _ ∧ _ ∧ _ :=
          Mover.spreadBranch_turn standing gathered branched
        have onward := ih (turn.standing standing) middleGathered ran
        rw [onward, Workflow.branchEntries, ← List.append_assoc]
        congr 1
        obtain ⟨keyed, lies, _⟩ := standing
        unfold Mover.spreadBranch at branched
        split at branched
        · contradiction
        · rename_i target found
          have sameTarget : target.id = edge.target := wf.node?_id found
          split at branched
          · rename_i isJoin
            have straight : wf.toJoin edge = true := by
              simp [Workflow.toJoin, wf.kind?_of_node? found, isJoin]
            dsimp only at branched
            split at branched
            · contradiction
            · rename_i recorded barrier arrived
              obtain ⟨own, isGroup, pair⟩ := Mover.recordArrival_ok arrived
              obtain rfl := Option.some.inj isGroup
              obtain ⟨rfl, rfl⟩ := Prod.mk.inj pair
              rw [← Except.ok.inj branched]
              have placed : Keyed wf ((spread.db.insertToken target.id (some mover.nodeRun.token)
                  (some group) none).consumeToken spread.db.nextID) :=
                (keyed.insertToken lies).consumeToken _
              have consumed : Gathered wf group done ⟨(spread.db.insertToken target.id
                  (some mover.nodeRun.token) (some group) none).consumeToken spread.db.nextID,
                  spread.pending⟩ := gathered.insertConsumed keyed
              have isOpen := consumed.open_eq placed found isJoin
              dsimp only
              rw [RunDb.gather_visited_eq, isOpen, straight, Bool.true_and, sameTarget]
              rfl
          · rename_i notJoin
            have bent : wf.toJoin edge = false := by
              simpa [Workflow.toJoin, wf.kind?_of_node? found] using notJoin
            rw [← Except.ok.inj branched]
            dsimp only
            rw [RunDb.startNode_visited, bent, Bool.false_and, if_neg Bool.false_ne_true, sameTarget]

theorem Mover.settlePending_visited {db rows : RunDb} {pending : List (Node × NodeRun)}
    (commits : Commits (mover.settlePending group db pending) rows) : rows.visited = db.visited := by
  induction pending generalizing db with
  | nil =>
      rcases commits with done | ⟨failure, refused⟩
      · rw [Except.ok.inj done]
      · contradiction
  | cons entry rest ih =>
      obtain ⟨join, barrier⟩ := entry
      unfold Mover.settlePending at commits
      cases settled : db.settleBarrier join barrier group mover.now with
      | error halt =>
          rw [settled] at commits
          rcases commits with done | ⟨failure, refused⟩
          · contradiction
          · have isHalt : halt = .refuse rows failure := Except.error.inj refused
            exact RunDb.settleBarrier_visited (Or.inr ⟨failure, settled.trans (congrArg _ isHalt)⟩)
      | ok next =>
          rw [settled] at commits
          exact (ih commits).trans (RunDb.settleBarrier_visited (Or.inl settled))

end

section

variable {env : Env} {wf : Workflow} {mover : Mover} {db rows : RunDb}

theorem Mover.completeRun_visited (endNode : String) :
    (mover.completeRun env wf db endNode).visited = db.visited := by
  have failed : ∀ failure, (mover.failRun db failure).visited = db.visited := by
    intro failure
    have finished : (db.finishNodeRun mover.nodeRun mover.state mover.outcome).visited = db.visited :=
      RunDb.visited_update rfl fun _ => rfl
    have reaped : (mover.failRun db failure).visited =
        (db.finishNodeRun mover.nodeRun mover.state mover.outcome).visited :=
      RunDb.visited_update rfl fun _ => rfl
    exact reaped.trans finished
  unfold Mover.completeRun
  split
  · exact failed _
  · split
    · exact failed _
    · rfl

/-- Routing enters the nodes that `entries` names. -/
theorem Mover.advance_visited {targets : List Edge}
    (keyed : Keyed wf db) (lies : ∀ place, mover.nextGroup db = .ok place → Forest.Valid db.groupTree place)
    (running : db.state.terminal = false) (commits : Commits (mover.advance env wf db targets) rows) :
    rows.visited = db.visited ++ mover.entries wf db targets := by
  unfold Mover.advance at commits
  cases targets with
  | nil =>
      rcases commits with done | ⟨failure, refused⟩
      · rw [Except.ok.inj done]
        exact (List.append_nil _).symm
      · contradiction
  | cons target rest =>
      dsimp only at commits
      unfold Mover.entries
      cases onward : mover.nextGroup db with
      | error halt =>
          rw [onward] at commits
          rcases commits with done | ⟨failure, refused⟩
          · contradiction
          · obtain ⟨error, aborted⟩ := Mover.nextGroup_error onward
            rw [aborted] at refused
            simp at refused
      | ok place =>
          rw [onward] at commits
          dsimp only at commits ⊢
          split at commits
          · rename_i fans
            rw [if_pos fans]
            unfold Mover.fanOut at commits
            dsimp only at commits
            split at commits
            · rename_i halt halted
              obtain ⟨error, aborted⟩ := Mover.spreadBranches_error halted
              rw [aborted] at commits
              rcases commits with done | ⟨failure, refused⟩
              · contradiction
              · simp at refused
            · rename_i spread spreadOk
              have parting : Standing wf (.parting place (target :: rest), db) :=
                ⟨keyed, lies place onward, fun _ => running⟩
              have turn : Turn wf False False (.parting place (target :: rest), db)
                  (.spreading db.nextID (target :: rest),
                    db.insertTokenGroup mover.nodeRun.id place (target :: rest).length) :=
                .split mover.nodeRun.id
              have spreading := Mover.spreadBranches_visited (turn.standing parting)
                (.opened keyed mover.nodeRun.id (target :: rest).length place) spreadOk
              exact (Mover.settlePending_visited commits).trans spreading
          · rename_i notFanned
            rw [if_neg notFanned]
            unfold Mover.follow at commits
            split at commits
            · rcases commits with done | ⟨failure, refused⟩
              · contradiction
              · simp at refused
            · rename_i node found
              have sameTarget : node.id = target.target := wf.node?_id found
              split at commits
              · rename_i isJoin
                have straight : wf.toJoin target = true := by
                  simp [Workflow.toJoin, wf.kind?_of_node? found, isJoin]
                rw [if_pos straight]
                unfold Mover.arriveAtJoin at commits
                split at commits
                · rename_i halt halted
                  rcases commits with done | ⟨failure, refused⟩
                  · contradiction
                  · cases place with
                    | none =>
                        have isHalt : halt = .refuse db (.noGroup mover.nodeRun.node node.id) :=
                          (Except.error.inj halted).symm
                        rw [isHalt] at refused
                        obtain ⟨rfl, _⟩ := Halt.refuse.inj (Except.error.inj refused)
                        exact (List.append_nil _).symm
                    | some group =>
                        obtain ⟨error, aborted⟩ := Mover.recordArrival_error halted
                        rw [aborted] at refused
                        simp at refused
                · rename_i recorded barrier arrived
                  obtain ⟨group, rfl, pair⟩ := Mover.recordArrival_ok arrived
                  obtain ⟨rfl, rfl⟩ := Prod.mk.inj pair
                  rw [RunDb.settleBarrier_visited commits, RunDb.gather_visited_eq, sameTarget]
              · rename_i notJoin
                have bent : wf.toJoin target = false := by
                  simpa [Workflow.toJoin, wf.kind?_of_node? found] using notJoin
                rw [bent, if_neg Bool.false_ne_true]
                split at commits
                · rcases commits with done | ⟨failure, refused⟩
                  · rw [← Except.ok.inj done, Mover.completeRun_visited, RunDb.reachEnd_visited, sameTarget]
                  · contradiction
                · rcases commits with done | ⟨failure, refused⟩
                  · rw [← Except.ok.inj done, RunDb.startNode_visited, sameTarget]
                  · contradiction

end

/-- Entering the nodes passes the transition bound, or the visit bound of a target. -/
def RunDb.passes (db : RunDb) (limits : Limits) (targets : List Edge) (names : List String) : Prop :=
  (0 < limits.maxTransitions ∧ limits.maxTransitions < db.transitionCount + names.length) ∨
  0 < limits.maxVisitsPerNode ∧ ∃ target ∈ targets,
    limits.maxVisitsPerNode < db.nodeVisits target.target + names.count target.target

theorem chargeVisits_kind {limit : Nat} {visits : String → Nat} {targets : List Edge}
    {bound : BoundExceeded} (stopped : chargeVisits limit visits targets = some bound) :
    bound.kind = .visits := by
  induction targets generalizing visits with
  | nil => contradiction
  | cons edge rest ih =>
      unfold chargeVisits at stopped
      split at stopped
      · rw [← Option.some.inj stopped]
      · exact ih stopped

theorem checkBounds_iff (input : TransitionInput) (node : Node) (targets : List Edge) :
    (∃ bound, checkBounds input node targets = some bound ∧
      (bound.kind = .transitions ∨ bound.kind = .visits)) ↔
    (0 < input.workflow.limits.maxTransitions ∧
      input.workflow.limits.maxTransitions < input.transitions + targets.length) ∨
    0 < input.workflow.limits.maxVisitsPerNode ∧ ∃ target ∈ targets,
      input.workflow.limits.maxVisitsPerNode <
        input.visits target.target + (targets.map Edge.target).count target.target := by
  unfold checkBounds
  dsimp only
  split
  · rename_i transitions
    exact ⟨fun _ => Or.inl transitions, fun _ => ⟨_, rfl, Or.inl rfl⟩⟩
  · rename_i transitionRoom
    have charged : ∀ {limit : Nat}, chargeVisits limit input.visits targets = none ↔
        ¬ ∃ target ∈ targets,
          limit < input.visits target.target + (targets.map Edge.target).count target.target := by
      intro limit
      rw [chargeVisits_eq_none]
      simp only [List.mem_map, forall_exists_index, and_imp, forall_apply_eq_imp_iff₂, not_exists,
        not_and, Nat.not_lt]
    split
    · rename_i bound stopped
      split at stopped
      · rename_i isSet
        refine ⟨fun _ => Or.inr ⟨isSet, ?_⟩, fun _ => ⟨bound, rfl, Or.inr (chargeVisits_kind stopped)⟩⟩
        by_contra room
        rw [charged.mpr room] at stopped
        contradiction
      · contradiction
    · rename_i visitRoom
      have within : ¬ (0 < input.workflow.limits.maxVisitsPerNode ∧ ∃ target ∈ targets,
          input.workflow.limits.maxVisitsPerNode <
            input.visits target.target + (targets.map Edge.target).count target.target) := by
        rintro ⟨isSet, above⟩
        rw [if_pos isSet] at visitRoom
        exact charged.mp visitRoom above
      constructor
      · rintro ⟨bound, stopped, kind⟩
        split at stopped
        · rw [← Option.some.inj stopped] at kind
          rcases kind with kind | kind <;> contradiction
        · split at stopped
          · rw [← Option.some.inj stopped] at kind
            rcases kind with kind | kind <;> contradiction
          · contradiction
      · rintro (transitions | visits)
        · exact absurd transitions transitionRoom
        · exact absurd visits within

namespace Prepared

variable (prepared : Prepared) (env : Env) (wf : Workflow)

/-- The edges that a transition with an outcome plans to follow. -/
def matched (outcome : String) : List Edge :=
  (matchEdges (prepared.input env wf outcome) (splits prepared.mover.node outcome) wf.edges).1

/-- Where the transition or the visit bound stops the run, following the planned edges would have
passed it. -/
def StopsRightly (outcome : String) (state : NodeRunState) : Prop :=
  ∀ bound, planTransition (prepared.input env wf outcome) = .stop bound →
    bound.kind = .transitions ∨ bound.kind = .visits →
    ∀ rows, Commits (prepared.mover.advance env wf
        (prepared.db.finishNodeRun prepared.mover.nodeRun state outcome)
        (prepared.matched env wf outcome)) rows →
      (0 < wf.limits.maxTransitions ∧ wf.limits.maxTransitions < rows.nodeRuns.length - 1) ∨
      0 < wf.limits.maxVisitsPerNode ∧ ∃ target ∈ prepared.matched env wf outcome,
        wf.limits.maxVisitsPerNode < rows.nodeVisits target.target

end Prepared

section

variable {env : Env} {wf : Workflow} {strict : Prop} {prepared : Prepared} {outcome : String}
  {state : NodeRunState}

theorem Prepared.Ready.stops_iff (ready : prepared.Ready wf strict) :
    (∃ bound, planTransition (prepared.input env wf outcome) = .stop bound ∧
      (bound.kind = .transitions ∨ bound.kind = .visits)) ↔
    prepared.matched env wf outcome ≠ [] ∧
      prepared.db.passes wf.limits (prepared.matched env wf outcome)
        ((prepared.matched env wf outcome).map Edge.target) := by
  have found : (prepared.input env wf outcome).workflow.node? (prepared.input env wf outcome).node =
      some prepared.mover.node := ready.node
  have planned : ∀ bound, planTransition (prepared.input env wf outcome) = .stop bound ↔
      prepared.matched env wf outcome ≠ [] ∧
        checkBounds (prepared.input env wf outcome) prepared.mover.node
          (prepared.matched env wf outcome) = some bound := by
    intro bound
    unfold planTransition
    rw [found]
    dsimp only
    constructor
    · intro stopped
      split at stopped
      · split at stopped <;> contradiction
      · rename_i nonempty
        split at stopped
        · rename_i other bounded
          exact ⟨nonempty, bounded.trans (congrArg some (TransitionPlan.stop.inj stopped))⟩
        · contradiction
    · rintro ⟨nonempty, bounded⟩
      refine (if_neg nonempty).trans ?_
      change checkBounds (prepared.input env wf outcome) prepared.mover.node
        (matchEdges _ _ _).1 = _ at bounded
      split
      · rename_i other again
        exact congrArg TransitionPlan.stop (Option.some.inj (again.symm.trans bounded))
      · rename_i unbounded
        exact absurd (unbounded.symm.trans bounded) (Option.some_ne_none bound).symm
  have charged : (0 < wf.limits.maxTransitions ∧ wf.limits.maxTransitions <
        prepared.db.transitionCount + (prepared.matched env wf outcome).length) ∨
      (0 < wf.limits.maxVisitsPerNode ∧ ∃ target ∈ prepared.matched env wf outcome,
        wf.limits.maxVisitsPerNode < prepared.db.nodeVisits target.target +
          ((prepared.matched env wf outcome).map Edge.target).count target.target) ↔
      prepared.db.passes wf.limits (prepared.matched env wf outcome)
        ((prepared.matched env wf outcome).map Edge.target) := by
    rw [RunDb.passes, List.length_map]
  have checked : _ ↔ _ := checkBounds_iff (prepared.input env wf outcome) prepared.mover.node
    (prepared.matched env wf outcome)
  rw [← charged]
  constructor
  · rintro ⟨bound, stopped, kind⟩
    obtain ⟨nonempty, bounded⟩ := (planned bound).mp stopped
    exact ⟨nonempty, checked.mp ⟨bound, bounded, kind⟩⟩
  · rintro ⟨nonempty, above⟩
    obtain ⟨bound, bounded, kind⟩ := checked.mpr above
    exact ⟨bound, (planned bound).mpr ⟨nonempty, bounded⟩, kind⟩

variable {db : RunDb} {action : Action}

/-- A run is stopped rightly at the transition and visit bounds exactly where leaving out the arrivals
that create no node run does not bring the planned edges under the bounds. -/
theorem stops_rightly_iff (reaches : Reaches env wf anyAction db)
    (isPrepared : action.prepare env wf db = some prepared)
    (resolution : prepared.resolution = .transition outcome state) :
    prepared.StopsRightly env wf outcome state ↔
      ((∃ rows, Commits (prepared.mover.advance env wf
          (prepared.db.finishNodeRun prepared.mover.nodeRun state outcome)
          (prepared.matched env wf outcome)) rows) →
        prepared.db.passes wf.limits (prepared.matched env wf outcome)
          ((prepared.matched env wf outcome).map Edge.target) →
        prepared.db.passes wf.limits (prepared.matched env wf outcome)
          (prepared.mover.entries wf
            (prepared.db.finishNodeRun prepared.mover.nodeRun state outcome)
            (prepared.matched env wf outcome))) := by
  obtain ⟨created, initial, earlier⟩ := reaches.turns False False False.elim False.elim
  obtain ⟨later, ready⟩ : Turns wf False False (.idle, db) (.idle, prepared.db) ∧
      prepared.Ready wf False :=
    action.prepare_ready (Turns.standing earlier initial.standing).keyed False.elim isPrepared
  have turns := earlier.trans later
  have standing := Turns.standing turns initial.standing
  have charged : Charged wf (.idle, prepared.db) := Turns.charged turns initial.charged
  have keyed : Keyed wf prepared.db := standing.keyed
  have terminal : state.terminal = true := (ready.resolved outcome state resolution).symm ▸ ready.ended
  have finished : Keyed wf (prepared.db.finishNodeRun prepared.mover.nodeRun state outcome) :=
    keyed.finishNodeRun outcome (keyed.runsOld _ ready.member) terminal
  have lies : ∀ place, prepared.mover.nextGroup
      (prepared.db.finishNodeRun prepared.mover.nodeRun state outcome) = .ok place →
      Forest.Valid prepared.db.groupTree place := by
    intro place onward
    obtain ⟨token, found⟩ := ready.token standing
    have sameNext : prepared.mover.nextGroup
        (prepared.db.finishNodeRun prepared.mover.nodeRun state outcome) =
          prepared.mover.nextGroup prepared.db :=
      Mover.nextGroup_congr (RunDb.finishNodeRun_token? _) rfl
    rw [sameNext] at onward
    rcases Mover.nextGroup_cases found ready.human with ⟨error, failed⟩ | next
    · rw [failed] at onward
      contradiction
    · rw [next] at onward
      rw [← Except.ok.inj onward]
      exact keyed.outerPlace_valid (List.mem_of_find?_eq_some found) _
  -- What routing leaves has the node runs there were and those it enters.
  have left : ∀ rows, Commits (prepared.mover.advance env wf
      (prepared.db.finishNodeRun prepared.mover.nodeRun state outcome)
      (prepared.matched env wf outcome)) rows →
      (((0 < wf.limits.maxTransitions ∧ wf.limits.maxTransitions < rows.nodeRuns.length - 1) ∨
        (0 < wf.limits.maxVisitsPerNode ∧ ∃ target ∈ prepared.matched env wf outcome,
          wf.limits.maxVisitsPerNode < rows.nodeVisits target.target)) ↔
      prepared.db.passes wf.limits (prepared.matched env wf outcome)
        (prepared.mover.entries wf
          (prepared.db.finishNodeRun prepared.mover.nodeRun state outcome)
          (prepared.matched env wf outcome))) := by
    intro rows committed
    have same : (prepared.db.finishNodeRun prepared.mover.nodeRun state outcome).visited =
        prepared.db.visited := RunDb.visited_update rfl fun _ => rfl
    have visited := Mover.advance_visited finished lies ready.running committed
    rw [same] at visited
    have positive : 0 < prepared.db.nodeRuns.length := List.length_pos_iff.mpr charged.entered
    have length : rows.nodeRuns.length - 1 = prepared.db.transitionCount + (prepared.mover.entries wf
        (prepared.db.finishNodeRun prepared.mover.nodeRun state outcome)
        (prepared.matched env wf outcome)).length := by
      rw [← RunDb.visited_length, visited, List.length_append, RunDb.visited_length,
        RunDb.transitionCount]
      omega
    have visits : ∀ name, rows.nodeVisits name = prepared.db.nodeVisits name +
        (prepared.mover.entries wf
          (prepared.db.finishNodeRun prepared.mover.nodeRun state outcome)
          (prepared.matched env wf outcome)).count name := by
      intro name
      rw [RunDb.nodeVisits_eq, visited, List.count_append, ← RunDb.nodeVisits_eq]
    simp only [length, visits, RunDb.passes]
  constructor
  · rintro rightly ⟨rows, committed⟩ above
    have nonempty : prepared.matched env wf outcome ≠ [] := by
      intro empty
      rw [empty] at above
      rcases above with ⟨isSet, above⟩ | ⟨_, target, member, _⟩
      · have room := charged.transitions isSet
        have planned : (planned (.idle, prepared.db)).length = prepared.db.nodeRuns.length := by
          rw [planned, Hand.edges, List.map_nil, List.append_nil, RunDb.visited_length]
        rw [List.map_nil, List.length_nil, RunDb.transitionCount] at above
        omega
      · contradiction
    obtain ⟨bound, stopped, kind⟩ := ready.stops_iff.mpr ⟨nonempty, above⟩
    exact (left rows committed).mp (rightly bound stopped kind rows committed)
  · intro leaves bound stopped kind rows committed
    obtain ⟨_, above⟩ := ready.stops_iff.mp ⟨bound, stopped, kind⟩
    exact (left rows committed).mpr (leaves ⟨rows, committed⟩ above)

end

/-- Both branches of a split come to one join. -/
def meeting : Compiler.Document where
  entry := "fan"
  nodes :=
    [("done", { kind := .endNode }),
     ("fan", { kind := .parallel }),
     ("left", { kind := .code, contract := some ["built"] }),
     ("meet", { kind := .join, join := some ⟨.all, none⟩ }),
     ("right", { kind := .code, contract := some ["built"] })]
  edges :=
    [{ source := "fan.split", target := "left" },
     { source := "fan.split", target := "right" },
     { source := "left.built", target := "meet" },
     { source := "meet.joined", target := "done" },
     { source := "right.built", target := "meet" }]
  nodesSorted := by decide

def meetingLoaded (limits : Limits) : Workflow where
  entry := "fan"
  limits := limits
  nodes := [
    { id := "done", kind := .endNode },
    { id := "fan", kind := .parallel, outcomes := ["split"] },
    { id := "left", kind := .code, outcomes := ["built"] },
    { id := "meet", kind := .join, outcomes := ["joined"], joinPolicy := some .all },
    { id := "right", kind := .code, outcomes := ["built"] }]
  edges := [
    { source := "fan.split", fromNode := "fan", fromOutcome := "split", target := "left" },
    { source := "fan.split", fromNode := "fan", fromOutcome := "split", target := "right" },
    { source := "left.built", fromNode := "left", fromOutcome := "built", target := "meet" },
    { source := "meet.joined", fromNode := "meet", fromOutcome := "joined", target := "done" },
    { source := "right.built", fromNode := "right", fromOutcome := "built", target := "meet" }]

def oneVisit : Limits := { maxVisitsPerNode := 1, maxParallelTokens := 2 }

def twoTransitions : Limits := { maxTransitions := 2, maxParallelTokens := 2 }

theorem meeting_load :
    Workflow.load meeting oneVisit (fixedOutcomes meeting) = meetingLoaded oneVisit := by
  rw [Workflow.load, normalizeEdges_of_sorted (by decide)]
  decide

/-- A branch that comes to the join. -/
def arrive (work : Nat) : Action :=
  .complete ⟨⟨work, "worker", 1, 1⟩, .succeeded, "built", "", "", .unknown, "null"⟩ 0

/-- The first arrival opens the barrier and would be the third transition of a run that is allowed two. -/
theorem stops_rightly_iff_meeting : ∃ db prepared,
    Reaches Env.permissive (meetingLoaded twoTransitions) anyAction db ∧
    (arrive 6).prepare Env.permissive (meetingLoaded twoTransitions) db = some prepared ∧
    planTransition (prepared.input Env.permissive (meetingLoaded twoTransitions) "built") =
      .stop ⟨.transitions, "meet", 2, 3⟩ ∧
    prepared.StopsRightly Env.permissive (meetingLoaded twoTransitions) "built" .completed := by
  have ran : ((replay Env.permissive (meetingLoaded twoTransitions) (fun _ _ => true)
      (succeed 2 "split" ++ (succeed 6 "built").take 1)).bind fun db =>
        ((arrive 6).prepare Env.permissive (meetingLoaded twoTransitions) db).map fun prepared =>
          decide (prepared.resolution = .transition "built" .completed ∧
            planTransition (prepared.input Env.permissive (meetingLoaded twoTransitions) "built") =
              .stop ⟨.transitions, "meet", 2, 3⟩ ∧
            prepared.db.transitionCount = 2 ∧
            prepared.mover.entries (meetingLoaded twoTransitions)
              (prepared.db.finishNodeRun prepared.mover.nodeRun .completed "built")
              (prepared.matched Env.permissive (meetingLoaded twoTransitions) "built") =
                ["meet"])) = some true := by
    decide +kernel
  obtain ⟨db, reached, onward⟩ := Option.bind_eq_some_iff.mp ran
  obtain ⟨prepared, isPrepared, checked⟩ := Option.map_eq_some_iff.mp onward
  obtain ⟨resolution, stopped, spent, enters⟩ := of_decide_eq_true checked
  have reaches : Reaches Env.permissive (meetingLoaded twoTransitions) anyAction db :=
    Reaches.of_replay (fun _ _ _ => trivial) reached
  refine ⟨db, prepared, reaches, isPrepared, stopped,
    (stops_rightly_iff reaches isPrepared resolution).mpr fun _ _ => Or.inl ⟨by decide, ?_⟩⟩
  rw [spent, enters]
  decide

/-- The barrier is open and the arrival would create no node run, yet it is charged a second visit and
the run is stopped. -/
theorem meeting_arrival_refused : ∃ db prepared, meeting.checkParallelJoin = [] ∧
    Reaches Env.permissive (Workflow.load meeting oneVisit (fixedOutcomes meeting)) anyAction db ∧
    (arrive 9).prepare Env.permissive (Workflow.load meeting oneVisit (fixedOutcomes meeting)) db =
      some prepared ∧
    prepared.resolution = .transition "built" .completed ∧
    ¬ prepared.StopsRightly Env.permissive (Workflow.load meeting oneVisit (fixedOutcomes meeting))
      "built" .completed := by
  rw [meeting_load]
  have ran : ((replay Env.permissive (meetingLoaded oneVisit) (fun _ _ => true)
      (succeed 2 "split" ++ succeed 6 "built" ++ (succeed 9 "built").take 1)).bind fun db =>
        ((arrive 9).prepare Env.permissive (meetingLoaded oneVisit) db).map fun prepared =>
          decide (prepared.resolution = .transition "built" .completed ∧
            planTransition (prepared.input Env.permissive (meetingLoaded oneVisit) "built") =
              .stop ⟨.visits, "meet", 1, 2⟩ ∧
            ((prepared.mover.advance Env.permissive (meetingLoaded oneVisit)
              (prepared.db.finishNodeRun prepared.mover.nodeRun .completed "built")
              (prepared.matched Env.permissive (meetingLoaded oneVisit) "built")).toOption.map
                fun rows => decide (rows.nodeRuns.length = 4 ∧
                  ∀ name ∈ rows.visited, rows.nodeVisits name = 1)) = some true)) = some true := by
    decide +kernel
  obtain ⟨db, reached, onward⟩ := Option.bind_eq_some_iff.mp ran
  obtain ⟨prepared, isPrepared, checked⟩ := Option.map_eq_some_iff.mp onward
  obtain ⟨resolution, stopped, left⟩ := of_decide_eq_true checked
  obtain ⟨rows, isRows, counted⟩ := Option.map_eq_some_iff.mp left
  obtain ⟨short, once⟩ := of_decide_eq_true counted
  refine ⟨db, prepared, by decide +kernel, Reaches.of_replay (fun _ _ _ => trivial) reached, isPrepared,
    resolution, fun rightly => ?_⟩
  rcases rightly _ stopped (Or.inr rfl) rows (Or.inl (toOption_some isRows)) with
    ⟨_, above⟩ | ⟨_, target, _, above⟩
  · rw [short] at above
    exact absurd above (by decide)
  · by_cases isVisited : target.target ∈ rows.visited
    · rw [once _ isVisited] at above
      exact absurd above (by decide)
    · rw [RunDb.nodeVisits_eq, List.count_eq_zero_of_not_mem isVisited] at above
      exact absurd above (by decide)

end CultureNodes.Engine
