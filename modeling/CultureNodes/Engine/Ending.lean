import CultureNodes.Engine.Depth

/-!
How runs end. Two failures say that the structure of the splits is broken: a branch that comes to a
join without a group, and an end that is reached beside live branches. The first never happens where
the compiler's walk finds nothing; the second neither, without event edges and with splits that feed
one join at most straight away.
-/

namespace CultureNodes.Engine

/-- A failure that a sound structure of splits rules out. -/
def Failure.structural : Failure → Bool
  | .siblings _ _ | .noGroup _ _ => true
  | _ => false

/-- A result of routing that leaves the run going, or refuses it for a barrier at most. -/
structure Ongoing (ending : Option Ending) (result : Except Halt RunDb) : Prop where
  kept : ∀ db, result = .ok db → db.ending = ending
  refused : ∀ db failure, result = .error (.refuse db failure) → failure.structural = false

namespace RunDb

variable {db : RunDb}

@[simp] theorem startNode_ending (node : Node) (parent place : Option Nat)
    (originEvent : Option String) (now : Nat) :
    (db.startNode node parent place originEvent now).ending = db.ending := by
  unfold startNode dispatchNode
  dsimp only
  split <;> rfl

@[simp] theorem joinBarrier_ending (join : Node) (token group : Nat) :
    (db.joinBarrier join token group).1.ending = db.ending := by
  unfold joinBarrier
  split <;> rfl

@[simp] theorem fireBarrier_ending (barrier : NodeRun) (group : Nat) (early : Bool) (now : Nat) :
    (db.fireBarrier barrier group early now).ending = db.ending := by
  unfold fireBarrier
  cases early <;> rfl

theorem settleBarrier_ongoing (join : Node) (barrier : NodeRun) (group now : Nat) :
    Ongoing db.ending (db.settleBarrier join barrier group now) := by
  unfold settleBarrier
  split
  · exact ⟨fun _ done => by contradiction, fun _ _ failed => by simp at failed⟩
  · dsimp only
    split
    · refine ⟨fun _ done => by contradiction, fun reached failure failed => ?_⟩
      obtain ⟨_, rfl⟩ := Halt.refuse.inj (Except.error.inj failed)
      rfl
    · split
      · exact ⟨fun _ done => by rw [Except.ok.inj done], fun _ _ failed => by contradiction⟩
      · refine ⟨fun settled done => ?_, fun _ _ failed => by contradiction⟩
        rw [← Except.ok.inj done, fireBarrier_ending]

end RunDb

namespace Mover

variable (mover : Mover) (wf : Workflow)

theorem settlePending_ongoing (db : RunDb) (group : Nat) (pending : List (Node × NodeRun)) :
    Ongoing db.ending (mover.settlePending group db pending) := by
  induction pending generalizing db with
  | nil => exact ⟨fun _ done => by rw [Except.ok.inj done], fun _ _ failed => by contradiction⟩
  | cons entry rest ih =>
      obtain ⟨join, barrier⟩ := entry
      have first := db.settleBarrier_ongoing join barrier group mover.now
      unfold settlePending
      cases settled : db.settleBarrier join barrier group mover.now with
      | error halt =>
          refine ⟨fun _ done => by contradiction, fun reached failure failed => ?_⟩
          exact first.refused reached failure (settled.trans failed)
      | ok next =>
          have same := first.kept next settled
          rw [← same]
          exact ih next

theorem recordArrival_ongoing (db : RunDb) (join : Node) (token group : Nat) (edge : Edge) :
    (∀ recorded, mover.recordArrival db join token (some group) edge = .ok recorded →
      recorded.1.ending = db.ending) ∧
    ∀ reached failure, mover.recordArrival db join token (some group) edge ≠
      .error (.refuse reached failure) := by
  unfold recordArrival
  dsimp only
  split
  · exact ⟨fun _ done => by contradiction, fun _ _ failed => by simp at failed⟩
  · split
    · exact ⟨fun _ done => by contradiction, fun _ _ failed => by simp at failed⟩
    · refine ⟨fun recorded done => ?_, fun _ _ failed => by contradiction⟩
      rw [← Except.ok.inj done]
      exact RunDb.joinBarrier_ending join token group

theorem spreadBranch_ongoing (group : Nat) (spread : Spread) (edge : Edge) :
    (∀ next, mover.spreadBranch wf group spread edge = .ok next →
      next.db.ending = spread.db.ending) ∧
    ∀ reached failure, mover.spreadBranch wf group spread edge ≠ .error (.refuse reached failure) := by
  unfold spreadBranch
  split
  · exact ⟨fun _ done => by contradiction, fun _ _ failed => by simp at failed⟩
  · rename_i target _
    split
    · dsimp only
      obtain ⟨kept, refused⟩ := mover.recordArrival_ongoing
        ((spread.db.insertToken target.id (some mover.nodeRun.token) (some group) none).consumeToken
          spread.db.nextID) target spread.db.nextID group edge
      split
      · rename_i halt halted
        refine ⟨fun _ done => by contradiction, fun reached failure failed => ?_⟩
        rw [Except.error.inj failed] at halted
        exact refused reached failure halted
      · rename_i recorded barrier recordedOk
        refine ⟨fun next done => ?_, fun _ _ failed => by contradiction⟩
        rw [← Except.ok.inj done]
        exact kept (recorded, barrier) recordedOk
    · refine ⟨fun next done => ?_, fun _ _ failed => by contradiction⟩
      rw [← Except.ok.inj done]
      exact RunDb.startNode_ending _ _ _ _ _

theorem spreadBranches_ongoing (group : Nat) (edges : List Edge) (spread : Spread) :
    (∀ next, mover.spreadBranches wf group spread edges = .ok next →
      next.db.ending = spread.db.ending) ∧
    ∀ reached failure, mover.spreadBranches wf group spread edges ≠ .error (.refuse reached failure) := by
  induction edges generalizing spread with
  | nil =>
      exact ⟨fun _ done => by rw [Except.ok.inj done], fun _ _ failed => by contradiction⟩
  | cons edge rest ih =>
      obtain ⟨kept, refused⟩ := mover.spreadBranch_ongoing wf group spread edge
      unfold spreadBranches
      cases made : mover.spreadBranch wf group spread edge with
      | error halt =>
          refine ⟨fun _ done => by contradiction, fun reached failure failed => ?_⟩
          exact refused reached failure (made.trans failed)
      | ok next =>
          obtain ⟨keptRest, refusedRest⟩ := ih next
          exact ⟨fun last done => (keptRest last done).trans (kept next made), refusedRest⟩

theorem fanOut_ongoing (db : RunDb) (place : Option Nat) (targets : List Edge) :
    Ongoing db.ending (mover.fanOut wf db place targets) := by
  obtain ⟨kept, refused⟩ := mover.spreadBranches_ongoing wf db.nextID targets
    ⟨db.insertTokenGroup mover.nodeRun.id place targets.length, []⟩
  unfold fanOut
  dsimp only
  split
  · rename_i halt halted
    refine ⟨fun _ done => by contradiction, fun reached failure failed => ?_⟩
    rw [Except.error.inj failed] at halted
    exact absurd halted (refused reached failure)
  · rename_i spread spreadOk
    have same : spread.db.ending = db.ending := kept spread spreadOk
    rw [← same]
    exact mover.settlePending_ongoing _ _ _

end Mover

/-- What goes before a structural failure: an end beside live branches, whether the node run that ends
is at it or comes to it, or a join without a group. -/
inductive Fault (wf : Workflow) (mover : Mover) (finished : RunDb) (plan : TransitionPlan) :
    Failure → Prop where
  | ended {endNode : String} {active : Nat} : plan = .complete → 0 < finished.activeTokenCount →
      Fault wf mover finished plan (.siblings endNode active)
  | reached {endNode : String} {active : Nat} {target : Edge} {rest : List Edge} {place : Option Nat}
      {next : Node} : plan = .follow (target :: rest) → mover.fansOut target = false →
      mover.nextGroup finished = .ok place → wf.node? target.target = some next →
      next.kind = .endNode →
      0 < (finished.reachEnd next (some mover.nodeRun.token) place).activeTokenCount →
      Fault wf mover finished plan (.siblings endNode active)
  | stray {node join : String} {target : Edge} {rest : List Edge} {next : Node} :
      plan = .follow (target :: rest) → mover.fansOut target = false →
      mover.nextGroup finished = .ok none → wf.node? target.target = some next → next.kind = .join →
      Fault wf mover finished plan (.noGroup node join)

section

variable {env : Env} {wf : Workflow} {prepared : Prepared} {db next : RunDb}

theorem Mover.completeRun_structural {mover : Mover} {endNode : String} {failure : Failure}
    (structural : failure.structural = true)
    (failed : (mover.completeRun env wf db endNode).ending = some (.failed failure)) :
    0 < db.activeTokenCount ∧ ∃ active, failure = .siblings endNode active := by
  unfold Mover.completeRun at failed
  split at failed
  · rename_i live
    have isFailure := Ending.failed.inj (Option.some.inj failed)
    exact ⟨live, _, isFailure.symm⟩
  · split at failed
    · have isFailure := Ending.failed.inj (Option.some.inj failed)
      rw [← isFailure] at structural
      contradiction
    · have isEnding := Option.some.inj failed
      contradiction

/-- The group of a token is never refused: it is found, or the transaction rolls back. -/
theorem Mover.nextGroup_error {mover : Mover} {halt : Halt} (halted : mover.nextGroup db = .error halt) :
    ∃ error, halt = .abort error := by
  unfold Mover.nextGroup at halted
  split at halted
  · exact ⟨_, (Except.error.inj halted).symm⟩
  · split at halted
    · split at halted
      · contradiction
      · split at halted
        · exact ⟨_, (Except.error.inj halted).symm⟩
        · contradiction
    · contradiction

theorem Mover.advance_fault (env : Env) {mover : Mover} {targets : List Edge} {failure : Failure}
    (unended : db.ending = none) (structural : failure.structural = true)
    (failed : (∃ next, mover.advance env wf db targets = .ok next ∧ next.ending = some (.failed failure)) ∨
      ∃ reached, mover.advance env wf db targets = .error (.refuse reached failure)) :
    Fault wf mover db (.follow targets) failure := by
  have unfailed : db.ending ≠ some (.failed failure) := by
    rw [unended]
    exact (Option.some_ne_none _).symm
  have ongoing : ∀ {result : Except Halt RunDb}, Ongoing db.ending result →
      ¬ ((∃ next, result = .ok next ∧ next.ending = some (.failed failure)) ∨
        ∃ reached, result = .error (.refuse reached failure)) := by
    rintro result going (⟨next, done, ended⟩ | ⟨reached, refused⟩)
    · exact unfailed ((going.kept next done).symm.trans ended)
    · rw [going.refused reached failure refused] at structural
      contradiction
  unfold Mover.advance at failed
  split at failed
  · refine absurd failed (ongoing ⟨fun next done => ?_, fun _ _ refused => by contradiction⟩)
    rw [Except.ok.inj done]
  · rename_i target rest
    split at failed
    · rename_i halt halted
      rcases failed with ⟨next, done, _⟩ | ⟨reached, refused⟩
      · contradiction
      · obtain ⟨error, aborted⟩ := Mover.nextGroup_error halted
        rw [aborted] at refused
        simp at refused
    · rename_i place onward
      split at failed
      · exact absurd failed (ongoing (mover.fanOut_ongoing wf db place (target :: rest)))
      · rename_i notFanned
        have notFanned : mover.fansOut target = false := by simpa using notFanned
        unfold Mover.follow at failed
        split at failed
        · rcases failed with ⟨next, done, _⟩ | ⟨reached, refused⟩
          · contradiction
          · simp at refused
        · rename_i node found
          split at failed
          · rename_i isJoin
            unfold Mover.arriveAtJoin at failed
            cases place with
            | none =>
                have refusal : mover.recordArrival db node mover.nodeRun.token none target =
                    .error (.refuse db (.noGroup mover.nodeRun.node node.id)) := rfl
                rw [refusal] at failed
                rcases failed with ⟨next, done, _⟩ | ⟨reached, refused⟩
                · contradiction
                · obtain ⟨_, rfl⟩ := Halt.refuse.inj (Except.error.inj refused)
                  exact .stray rfl notFanned onward found isJoin
            | some group =>
                obtain ⟨kept, never⟩ :=
                  mover.recordArrival_ongoing db node mover.nodeRun.token group target
                refine absurd failed (ongoing ?_)
                split
                · rename_i halt halted
                  refine ⟨fun _ done => by contradiction, fun reached other refused => ?_⟩
                  rw [Except.error.inj refused] at halted
                  exact absurd halted (never reached other)
                · rename_i recorded barrier recordedOk
                  rw [← kept (recorded, barrier) recordedOk]
                  exact recorded.settleBarrier_ongoing _ _ _ _
          · split at failed
            · rename_i isEnd
              rcases failed with ⟨next, done, ended⟩ | ⟨reached, refused⟩
              · rw [← Except.ok.inj done] at ended
                obtain ⟨live, active, rfl⟩ := Mover.completeRun_structural structural ended
                exact .reached rfl notFanned onward found isEnd live
              · contradiction
            · refine absurd failed (ongoing ⟨fun next done => ?_, fun _ _ refused => by contradiction⟩)
              rw [← Except.ok.inj done]
              exact RunDb.startNode_ending _ _ _ _ _

theorem Prepared.transition_fault {outcome : String} {state : NodeRunState} {failure : Failure}
    (unended : prepared.db.ending = none) (structural : failure.structural = true)
    (carried : prepared.transition env wf outcome state = .ok next)
    (failed : next.ending = some (.failed failure)) :
    Fault wf prepared.mover (prepared.db.finishNodeRun prepared.mover.nodeRun state outcome)
      (planTransition (prepared.input env wf outcome)) failure := by
  unfold Prepared.transition at carried
  dsimp only at carried
  split at carried
  · rw [← Except.ok.inj carried] at failed
    have isEnding := Option.some.inj failed
    contradiction
  · rename_i plan
    rw [← Except.ok.inj carried] at failed
    obtain ⟨live, active, rfl⟩ := Mover.completeRun_structural structural failed
    exact .ended plan live
  · rw [← Except.ok.inj carried] at failed
    have isFailure := Ending.failed.inj (Option.some.inj failed)
    rw [← isFailure] at structural
    contradiction
  · rename_i targets plan
    rw [plan]
    refine Mover.advance_fault env unended structural ?_
    split at carried
    · rename_i advanced done
      rw [Except.ok.inj carried] at done
      exact Or.inl ⟨next, done, failed⟩
    · rename_i reached refusal refused
      rw [← Except.ok.inj carried] at failed
      have isFailure : refusal = failure := Ending.failed.inj (Option.some.inj failed)
      exact Or.inr ⟨reached, isFailure ▸ refused⟩
    · contradiction

end

section

variable {env : Env} {wf : Workflow} {strict calm : Prop} {db next : RunDb}

theorem Action.prepare_ready {action : Action} {prepared : Prepared} (keyed : Keyed wf db)
    (lawful : strict → Linked db ∧ Recorded db) (isPrepared : action.prepare env wf db = some prepared) :
    Turns wf strict calm (.idle, db) (.idle, prepared.db) ∧ prepared.Ready wf strict := by
  cases action with
  | complete req now => exact CompletionRequest.prepare_ready keyed lawful (toOption_some isPrepared)
  | decide req now => exact DecisionRequest.prepare_ready keyed lawful (toOption_some isPrepared)
  | pickUp route event now => contradiction
  | cancel parkedAt detail => contradiction
  | work action => contradiction

theorem CompletionRequest.resolve_fail {req : CompletionRequest} {node : Node} {status : TechStatus}
    {number now : Nat} {rejected : Option String} {failure : Failure}
    (resolved : req.resolve env wf node status number now rejected = .fail failure) :
    failure.structural = false := by
  have failed : req.failOrRetry env wf node status number now rejected = .fail failure →
      failure.structural = false := by
    intro failing
    unfold CompletionRequest.failOrRetry at failing
    extract_lets budget refusal at failing
    split at failing
    · split at failing
      · contradiction
      · rw [← Resolution.fail.inj failing]
        rfl
    · split at failing
      · contradiction
      · split at failing
        · contradiction
        · rw [← Resolution.fail.inj failing]
          rfl
  cases status with
  | succeeded => contradiction
  | cancelled => contradiction
  | failed => exact failed resolved
  | timedOut => exact failed resolved
  | policyDenied => exact failed resolved
  | contractRejected => exact failed resolved

theorem Action.prepare_fail {action : Action} {prepared : Prepared} {failure : Failure}
    (isPrepared : action.prepare env wf db = some prepared)
    (resolution : prepared.resolution = .fail failure) : failure.structural = false := by
  cases action with
  | complete req now =>
      obtain ⟨_, _, _, _, _, _, _, _, _, _, _, rfl⟩ :=
        CompletionRequest.prepare_ok (toOption_some isPrepared)
      exact CompletionRequest.resolve_fail resolution
  | decide req now =>
      obtain ⟨_, _, _, _, _, _, _, _, _, _, rfl⟩ := DecisionRequest.prepare_ok (toOption_some isPrepared)
      contradiction
  | pickUp route event now => contradiction
  | cancel parkedAt detail => contradiction
  | work action => contradiction

theorem RunDb.workStatement_ending {action : Store.WorkAction}
    (acted : db.workStatement wf action = some next) : next.ending = db.ending := by
  obtain ⟨_, after, _, _, cases_⟩ := RunDb.workStatement_eq_some acted
  have frozen : ∀ rows : RunDb, (rows.freeze action).ending = rows.ending := by
    intro rows
    unfold RunDb.freeze
    split <;> rfl
  rcases cases_ with ⟨_, rfl⟩ | ⟨owner, _, rfl⟩
  · exact frozen _
  · rw [frozen]
    unfold RunDb.markFor
    split <;> rfl

theorem act_fault {action : Action} {failure : Failure} (structural : failure.structural = true)
    (unended : ∀ prepared, action.prepare env wf db = some prepared → prepared.db.ending = none)
    (acted : db.act env wf action = some next) (failed : next.ending = some (.failed failure)) :
    db.ending = some (.failed failure) ∨
      ∃ prepared outcome state, action.prepare env wf db = some prepared ∧
        prepared.resolution = .transition outcome state ∧
        Fault wf prepared.mover (prepared.db.finishNodeRun prepared.mover.nodeRun state outcome)
          (planTransition (prepared.input env wf outcome)) failure := by
  have carried : ∀ prepared, action.prepare env wf db = some prepared →
      prepared.carryOut env wf = .ok next →
      ∃ prepared outcome state, action.prepare env wf db = some prepared ∧
        prepared.resolution = .transition outcome state ∧
        Fault wf prepared.mover (prepared.db.finishNodeRun prepared.mover.nodeRun state outcome)
          (planTransition (prepared.input env wf outcome)) failure := by
    intro prepared isPrepared carried
    have going := unended prepared isPrepared
    unfold Prepared.carryOut at carried
    split at carried
    · rename_i outcome state resolution
      exact ⟨prepared, outcome, state, isPrepared, resolution,
        Prepared.transition_fault going structural carried failed⟩
    · rw [← Except.ok.inj carried] at failed
      have isEnding := Option.some.inj failed
      contradiction
    · rw [← Except.ok.inj carried] at failed
      have same : prepared.db.ending = some (.failed failure) := failed
      rw [going] at same
      contradiction
    · rename_i other resolution
      rw [← Except.ok.inj carried] at failed
      have isFailure : other = failure := Ending.failed.inj (Option.some.inj failed)
      have harmless := Action.prepare_fail isPrepared resolution
      rw [isFailure, structural] at harmless
      contradiction
  cases action with
  | complete req now =>
      obtain ⟨prepared, isPrepared, done⟩ := completeAttempt_ok (toOption_some acted)
      exact Or.inr (carried prepared (congrArg Except.toOption isPrepared) done)
  | decide req now =>
      obtain ⟨prepared, isPrepared, done⟩ := decideHumanTask_ok (toOption_some acted)
      exact Or.inr (carried prepared (congrArg Except.toOption isPrepared) done)
  | pickUp route event now =>
      refine Or.inl ?_
      rw [← failed]
      simp only [RunDb.act, pickUpRoute] at acted
      split at acted
      · contradiction
      · have done := toOption_some acted
        unfold pickUpEvent at done
        split at done
        · rw [Except.ok.inj done]
        · split at done
          · contradiction
          · split at done
            · contradiction
            · split at done
              · rw [Except.ok.inj done]
              · rw [← Except.ok.inj done, RunDb.startNode_ending]
  | cancel parkedAt detail =>
      simp only [RunDb.act] at acted
      rw [← RunDb.cancelRunGuarded_eq_some acted] at failed
      have isEnding := Option.some.inj failed
      contradiction
  | work action => exact Or.inl ((RunDb.workStatement_ending acted).symm.trans failed)

end

section

variable {env : Env} {wf : Workflow} {strict calm : Prop} {db : RunDb} {here there : Hand × RunDb}

/-- A run that goes on has no ending yet. -/
def Unended (here : Hand × RunDb) : Prop := here.2.state.terminal = false → here.2.ending = none

theorem Turn.unended (turn : Turn wf strict calm here there) (standing : Standing wf here)
    (unended : Unended here) : Unended there := by
  intro running
  have busy : here.1 ≠ .idle → here.2.ending = none := fun isBusy => unended (standing.busy isBusy)
  cases turn with
  | note tasks attempts => exact unended running
  | work acted =>
      rw [RunDb.workStatement_ending acted]
      exact unended ((workStatement_tokens acted).2.2.2 running)
  | hold _ wasRunning => exact unended wasRunning
  | retry availableAt _ _ wasRunning _ => exact unended wasRunning
  | pickUp event now wasRunning _ _ _ _ _ =>
      exact (RunDb.startNode_ending _ _ _ _ _).trans (unended wasRunning)
  | cancel cancelled =>
      rw [(RunDb.cancelRunGuarded_firedGroups cancelled).2] at running
      contradiction
  | finish recorded _ _ wasRunning _ _ _ => exact unended wasRunning
  | put parent now _ _ _ => exact (RunDb.startNode_ending _ _ _ _ _).trans (busy Hand.noConfusion)
  | reachEnd parent _ _ => exact busy Hand.noConfusion
  | arrive token fromNode outcome output _ _ =>
      exact (RunDb.joinBarrier_ending _ _ _).trans (busy Hand.noConfusion)
  | split nodeRun => exact busy Hand.noConfusion
  | putBranch parent now _ _ => exact (RunDb.startNode_ending _ _ _ _ _).trans (busy Hand.noConfusion)
  | arriveBranch parent fromNode outcome output _ _ =>
      exact (RunDb.joinBarrier_ending _ _ _).trans (busy Hand.noConfusion)
  | spread => exact busy Hand.noConfusion
  | fire now _ _ _ _ => exact (RunDb.fireBarrier_ending _ _ _ _).trans (busy Hand.noConfusion)
  | settled _ => exact busy Hand.noConfusion
  | abandon isBusy => exact busy isBusy
  | refinish recorded _ _ _ => exact busy Hand.noConfusion
  | reap keep _ => exact busy Hand.noConfusion
  | retire => exact busy Hand.noConfusion
  | @conclude db state output ending terminal _ _ =>
      rw [show (db.updateRunState state output ending).state = state from rfl, terminal] at running
      contradiction

theorem Turns.unended (turns : Turns wf strict calm here there) (standing : Standing wf here)
    (unended : Unended here) : Unended there := by
  induction turns with
  | refl => exact unended
  | tail earlier turn ih => exact turn.unended (Turns.standing earlier standing) ih

theorem Game.single {hand : Hand} (game : Game wf (hand, db)) (noEvents : wf.eventEdges = [])
    (thread : 0 < (nest wf hand db).threads none) :
    db.activeTokenCount + hand.holds none = 1 := by
  have alone := game.alone noEvents
  have childless : (nest wf hand db).children none = 0 := by
    simp only [Nest.live] at alone
    omega
  have single : db.activeCount (wf.branchIn none) + hand.holds none = 1 := by
    simp only [Nest.live, childless, Nat.add_zero] at alone
    exact alone
  have outside : db.activeTokenCount = db.activeCount (wf.branchIn none) := by
    refine List.countP_congr fun token member => ?_
    cases active : token.active with
    | false => simp
    | true =>
        have occupied : (nest wf hand db).Occupied token.group := by
          cases isBarrier : wf.barrierAt token.stand with
          | true =>
              obtain ⟨group, inGroup⟩ : ∃ group, token.group = some group :=
                Option.isSome_iff_exists.mp (Bool.and_eq_true_iff.mp isBarrier).2
              rw [inGroup]
              refine Nest.occupied_barrier (RunDb.activeCount_pos member active ?_)
              rw [Workflow.barrierIn, isBarrier, Bool.and_true]
              exact decide_eq_true inGroup
          | false =>
              refine Nest.occupied_threads (Nat.lt_of_lt_of_le
                (RunDb.activeCount_pos member active ?_) (Nat.le_add_right _ _))
              rw [Workflow.branchIn, isBarrier]
              simp [Token.stand]
        have atRoot := game.sound.only_root childless occupied
        simp [Workflow.branchIn, Workflow.barrierAt, Token.stand, atRoot]
  rw [outside]
  exact single

end

section

variable {env : Env} {wf : Workflow} {reach : String → Nat → Prop} {strict : Prop}
  {prepared : Prepared} {outcome : String} {state : NodeRunState} {plan : TransitionPlan}
  {failure : Failure}

theorem Prepared.Ready.carries {target : Edge} {rest : List Edge} {place : Option Nat}
    (ready : prepared.Ready wf strict) (standing : Standing wf (.idle, prepared.db))
    (planned : planTransition (prepared.input env wf outcome) = .follow (target :: rest))
    (notFanned : prepared.mover.fansOut target = false)
    (onward : prepared.mover.nextGroup
      (prepared.db.finishNodeRun prepared.mover.nodeRun state outcome) = .ok place) :
    Takes wf prepared.db prepared.mover.nodeRun outcome (.carrying place target) := by
  obtain ⟨node, follows⟩ := planTransition_follow planned
  obtain rfl : prepared.mover.node = node := Option.some.inj (ready.node.symm.trans follows.found)
  obtain ⟨token, found⟩ := ready.token standing
  obtain ⟨edge, fromNode, fromOutcome⟩ := follows.edges target List.mem_cons_self
  have notSplit : splits prepared.mover.node outcome = false :=
    (ready.fansOut_eq fromOutcome).symm.trans notFanned
  have single : rest = [] := by
    have short := follows.single notSplit
    exact List.eq_nil_of_length_eq_zero (by simpa using short)
  have sameNext : prepared.mover.nextGroup
      (prepared.db.finishNodeRun prepared.mover.nodeRun state outcome) =
        prepared.mover.nextGroup prepared.db :=
    Mover.nextGroup_congr (RunDb.finishNodeRun_token? _) rfl
  rcases Mover.nextGroup_cases found ready.human with ⟨error, failed⟩ | next
  · rw [sameNext, failed] at onward
    contradiction
  · rw [sameNext, next] at onward
    rw [← Except.ok.inj onward]
    exact .carrying found ready.node notSplit edge fromNode fromOutcome (single ▸ follows.within)

theorem Fault.not_stray (law : DepthLaw wf reach) (ready : prepared.Ready wf strict)
    (standing : Standing wf (.idle, prepared.db)) (nested : Nested wf reach (.idle, prepared.db))
    {node join : String} : ¬ Fault wf prepared.mover
      (prepared.db.finishNodeRun prepared.mover.nodeRun state outcome)
      (planTransition (prepared.input env wf outcome)) (.noGroup node join) := by
  rintro (_ | _ | ⟨planned, notFanned, onward, found, isJoin⟩)
  have takes := ready.carries standing planned notFanned onward
  have kind := isJoin ▸ wf.kind?_of_node? found
  have reached := takes.enters law standing.keyed nested ready.member (by rw [kind]; rfl)
  rw [RunDb.depth, Forest.chain_none] at reached
  exact law.inside _ kind reached

theorem Keyed.place_none {db : RunDb} {place : Option Nat} (valid : Forest.Valid db.groupTree place)
    (shallow : db.depth place = 0) : place = none := by
  cases place with
  | none => rfl
  | some group =>
      have inside := Forest.self_mem_chain (valid group rfl)
      rw [List.eq_nil_of_length_eq_zero shallow] at inside
      contradiction

/-- A run on its way to an end, with nothing else live. -/
theorem Prepared.Ready.alone {target : Edge} {place : Option Nat} (law : DepthLaw wf reach)
    (ready : prepared.Ready wf strict) (isStrict : strict)
    (standing : Standing wf (.idle, prepared.db)) (linked : Linked prepared.db)
    (nested : Nested wf reach (.idle, prepared.db)) (game : Game wf (.idle, prepared.db))
    (noEvents : wf.eventEdges = []) (terminal : state.terminal = true)
    (takes : Takes wf prepared.db prepared.mover.nodeRun outcome (.carrying place target))
    (isEnd : wf.kind? target.target = some .endNode) :
    place = none ∧
      (prepared.db.finishNodeRun prepared.mover.nodeRun state outcome).activeTokenCount = 0 := by
  have reached := takes.enters law standing.keyed nested ready.member (by rw [isEnd]; rfl)
  have atRoot : place = none :=
    Keyed.place_none (takes.lies standing.keyed) (law.outside _ isEnd _ reached)
  subst atRoot
  have moved := game.finish outcome standing.keyed linked ready.member ready.isOpen
    (ready.idle isStrict).1 terminal takes Hand.noConfusion
  have thread : 0 < (nest wf (.carrying none target)
      (prepared.db.finishNodeRun prepared.mover.nodeRun state outcome)).threads none := by
    simp [nest, Hand.holds]
  have single := moved.single noEvents thread
  refine ⟨rfl, ?_⟩
  simp only [Hand.holds, if_true] at single
  omega

/-- Where the depths are lawful and the counts sound, nothing else is live when an edge into an end is
followed. -/
theorem Prepared.Ready.ends_alone {target : Edge} (law : DepthLaw wf reach)
    (ready : prepared.Ready wf strict) (isStrict : strict)
    (standing : Standing wf (.idle, prepared.db)) (linked : Linked prepared.db)
    (nested : Nested wf reach (.idle, prepared.db)) (game : Game wf (.idle, prepared.db))
    (noEvents : wf.eventEdges = []) (planned : target ∈ prepared.targets env wf)
    (isEnd : wf.kind? target.target = some .endNode) :
    ∀ token ∈ prepared.db.tokens, token.active = true → token.id = prepared.mover.nodeRun.token := by
  have keyed : Keyed wf prepared.db := standing.keyed
  unfold Prepared.targets at planned
  split at planned
  · rename_i outcome state resolution
    split at planned
    · rename_i targets plan
      have terminal : state.terminal = true := (ready.resolved outcome state resolution).symm ▸ ready.ended
      obtain ⟨node, follows⟩ := planTransition_follow plan
      obtain rfl : prepared.mover.node = node := Option.some.inj (ready.node.symm.trans follows.found)
      obtain ⟨own, found⟩ := ready.token standing
      obtain ⟨edge, fromNode, fromOutcome⟩ := follows.edges target planned
      cases isSplit : splits prepared.mover.node outcome with
      | true =>
          -- An end straight behind a split would be entered inside a group.
          obtain ⟨mate, mateMember, _, sameNode⟩ := keyed.placed _ ready.member
          have reached := nested.tokens mate mateMember
          have hops := law.hop target edge prepared.mover.node (fromNode ▸ ready.node) (by rw [isEnd]; rfl)
            _ ((sameNode.trans fromNode.symm) ▸ reached)
          have notJoin : prepared.mover.node.kind ≠ .join := by
            intro isJoin
            simp [splits, isJoin] at isSplit
          have sameOutcome : target.fromOutcome = outcome := fromOutcome
          rw [if_neg notJoin, sameOutcome, if_pos isSplit] at hops
          exact absurd (law.outside _ isEnd _ hops) (Nat.succ_ne_zero _)
      | false =>
          have single : targets = [target] := by
            have short := follows.single isSplit
            rcases targets with _ | ⟨only, _ | ⟨second, rest⟩⟩
            · contradiction
            · rw [List.mem_singleton.mp planned]
            · simp at short
          have takes : Takes wf prepared.db prepared.mover.nodeRun outcome
              (.carrying (prepared.db.outerPlace prepared.mover.node own) target) :=
            .carrying found ready.node isSplit edge fromNode fromOutcome (single ▸ follows.within)
          obtain ⟨_, quiet⟩ :=
            ready.alone law isStrict standing linked nested game noEvents terminal takes isEnd
          intro token member active
          by_contra other
          have kept := Table.mem_update_of_mem
            (fun row : Token => row.id = prepared.mover.nodeRun.token && row.active)
            (fun row => { row with active := false }) member
          rw [if_neg (by simp [other])] at kept
          exact absurd active (List.countP_eq_zero.mp quiet token kept)
    · simp at planned
  · simp at planned

theorem Fault.not_crowded (law : DepthLaw wf reach) (ready : prepared.Ready wf strict)
    (isStrict : strict) (standing : Standing wf (.idle, prepared.db)) (linked : Linked prepared.db)
    (nested : Nested wf reach (.idle, prepared.db)) (game : Game wf (.idle, prepared.db))
    (noEvents : wf.eventEdges = []) (terminal : state.terminal = true) {endNode : String}
    {active : Nat} : ¬ Fault wf prepared.mover
      (prepared.db.finishNodeRun prepared.mover.nodeRun state outcome)
      (planTransition (prepared.input env wf outcome)) (.siblings endNode active) := by
  have keyed : Keyed wf prepared.db := standing.keyed
  rintro (⟨planned, live⟩ | @⟨_, _, _, _, place, next, planned, notFanned, onward, found, isEnd, live⟩ | _)
  · have isEnd : prepared.mover.node.kind = .endNode := planTransition_complete ready.node planned
    obtain ⟨token, member, owns, sameNode⟩ := keyed.placed _ ready.member
    have kind : wf.kind? token.node = some .endNode :=
      sameNode ▸ isEnd ▸ wf.kind?_of_node? ready.node
    have atRoot : token.group = none :=
      Keyed.place_none (keyed.grouped token member) (law.outside _ kind _ (nested.tokens token member))
    have activeToken : token.active = true := by
      rw [linked.paired.mirrored _ ready.member token member owns, ready.isOpen]
      rfl
    have thread : 0 < (nest wf .idle prepared.db).threads none := by
      refine Nat.lt_of_lt_of_le (RunDb.activeCount_pos member activeToken ?_) (Nat.le_add_right _ _)
      simp [Workflow.branchIn, Workflow.barrierAt, Token.stand, atRoot]
    have single := game.single noEvents thread
    have given := RunDb.finishNodeRun_activeTokenCount keyed linked ready.member ready.isOpen state
      outcome
    simp only [Hand.holds] at single
    omega
  · have takes := ready.carries standing planned notFanned onward
    obtain ⟨_, quiet⟩ := ready.alone law isStrict standing linked nested game noEvents terminal takes
      (isEnd ▸ wf.kind?_of_node? found)
    have finished := keyed.finishNodeRun outcome (keyed.runsOld _ ready.member) terminal
    have consumed : ((prepared.db.finishNodeRun prepared.mover.nodeRun state outcome).reachEnd next
        (some prepared.mover.nodeRun.token) place).activeTokenCount = _ :=
      RunDb.insertConsumed_activeTokenCount finished next.id _ place none
    omega

end

section

variable {env : Env} {wf : Workflow} {reach : String → Nat → Prop} {allowed : RunDb → Action → Prop}
  {db : RunDb}

theorem createRun_entry {input : Payload} {now : Nat} (made : createRun env wf input now = .ok db) :
    (wf.kind? wf.entry).isSome = true := by
  obtain ⟨entry, _, _, found, _⟩ := createRun_ok made
  rw [wf.kind?_of_node? found]
  rfl

theorem Reaches.entry (reaches : Reaches env wf allowed db) : (wf.kind? wf.entry).isSome = true := by
  obtain ⟨_, _, _, made, _⟩ := reaches
  exact createRun_entry made

theorem Reaches.nested (law : DepthLaw wf reach) (reaches : Reaches env wf allowed db) :
    Nested wf reach (.idle, db) := by
  obtain ⟨created, initial, turns⟩ := reaches.turns False False False.elim False.elim
  exact Turns.nested law turns initial.standing (initial.nested law reaches.entry)

theorem Reaches.readied {action : Action} {prepared : Prepared} (strict : Prop)
    (reaches : Reaches env wf allowed db)
    (safe : strict → ∀ db action, allowed db action → FanOutSafe env wf db action)
    (law : DepthLaw wf reach) (isPrepared : action.prepare env wf db = some prepared) :
    prepared.Ready wf strict ∧ Standing wf (.idle, prepared.db) ∧
      Nested wf reach (.idle, prepared.db) ∧ prepared.db.ending = none ∧
      (strict → Linked prepared.db ∧ Game wf (.idle, prepared.db)) := by
  obtain ⟨created, initial, earlier⟩ := reaches.turns strict False safe False.elim
  have lawful : strict → Linked db ∧ Recorded db := fun isStrict =>
    Turns.linked earlier isStrict initial.standing initial.linked initial.recorded
  obtain ⟨later, ready⟩ : Turns wf strict False (.idle, db) (.idle, prepared.db) ∧
      prepared.Ready wf strict :=
    action.prepare_ready (Turns.standing earlier initial.standing).keyed lawful isPrepared
  have turns := earlier.trans later
  refine ⟨ready, Turns.standing turns initial.standing,
    Turns.nested law turns initial.standing (initial.nested law reaches.entry),
    Turns.unended turns initial.standing (fun _ => initial.ending) ready.running, fun isStrict => ?_⟩
  refine ⟨(Turns.linked turns isStrict initial.standing initial.linked initial.recorded).1, ?_⟩
  exact (Turns.counted turns isStrict initial.standing initial.linked initial.recorded
    initial.counted).game Hand.noConfusion ready.running

theorem Reaches.never_fails {failure : Failure} (law : DepthLaw wf reach)
    (structural : failure.structural = true)
    (faultless : ∀ (db : RunDb) (action : Action) (prepared : Prepared) (outcome : String)
      (state : NodeRunState), Reaches env wf allowed db → action.prepare env wf db = some prepared →
      prepared.resolution = .transition outcome state → ¬ Fault wf prepared.mover
        (prepared.db.finishNodeRun prepared.mover.nodeRun state outcome)
        (planTransition (prepared.input env wf outcome)) failure)
    (reaches : Reaches env wf allowed db) : db.ending ≠ some (.failed failure) := by
  obtain ⟨input, now, created, made, steps⟩ := reaches
  have both : Reaches env wf allowed db ∧ db.ending ≠ some (.failed failure) := by
    refine steps.invariant
      (fun db => Reaches env wf allowed db ∧ db.ending ≠ some (.failed failure)) ?_ ?_
    · refine ⟨⟨input, now, created, made, .refl⟩, ?_⟩
      rw [(createRun_created made).ending]
      exact (Option.some_ne_none _).symm
    · rintro here action there ⟨⟨input, now, created, made, steps⟩, unfailed⟩ isAllowed stepped
      refine ⟨⟨input, now, created, made, .tail steps isAllowed stepped⟩, fun failed => ?_⟩
      have hereReaches : Reaches env wf allowed here := ⟨input, now, created, made, steps⟩
      have unended : ∀ prepared, action.prepare env wf here = some prepared →
          prepared.db.ending = none := fun prepared isPrepared =>
        (hereReaches.readied False False.elim law isPrepared).2.2.2.1
      rcases act_fault structural unended stepped failed with before | ⟨prepared, outcome, state,
        isPrepared, resolution, fault⟩
      · exact unfailed before
      · exact faultless here action prepared outcome state hereReaches isPrepared resolution fault
  exact both.2

end

section

variable {env : Env} {doc : Compiler.Document} {limits : Limits} {settings : String → NodeSettings}
  {db : RunDb}

/-- The walk and the run agree. Node ids are never empty. -/
theorem depths_walked (named : doc.kind? "" = none) (lawful : ¬ doc.splitGraph.Sees none)
    (reaches : Reaches env (Workflow.load doc limits settings) anyAction db) :
    (∀ token ∈ db.tokens, token.active = true → ∃ hops,
      doc.splitGraph.Enters none hops token.node (Forest.chain db.groupTree token.group).length) ∧
    (∀ node join, db.ending ≠ some (.failed (.noGroup node join))) ∧
    ((Workflow.load doc limits settings).eventEdges = [] →
      (Workflow.load doc limits settings).SingleJoinSplits →
      (∀ (action : Action) (prepared : Prepared),
        action.prepare env (Workflow.load doc limits settings) db = some prepared →
        ∀ target ∈ prepared.targets env (Workflow.load doc limits settings),
          doc.kind? target.target = some .endNode → ∀ token ∈ prepared.db.tokens,
            token.active = true → token.id = prepared.mover.nodeRun.token) ∧
      ∀ endNode active, db.ending ≠ some (.failed (.siblings endNode active))) := by
  have begins : (doc.kind? doc.entry).isSome = true := by
    rw [← Workflow.kind?_load doc limits settings]
    exact reaches.entry
  have law : DepthLaw (Workflow.load doc limits settings) (walked doc) :=
    depthLaw_load named begins lawful
  refine ⟨fun token member _ => (reaches.nested law).tokens token member, fun node join => ?_,
    fun noEvents single => ⟨fun action prepared isPrepared target planned isEnd => ?_,
      fun endNode active => ?_⟩⟩
  · refine Reaches.never_fails law rfl (fun db action prepared outcome state here isPrepared _ => ?_)
      reaches
    obtain ⟨ready, standing, nested, _⟩ := here.readied False False.elim law isPrepared
    exact Fault.not_stray law ready standing nested
  · obtain ⟨ready, standing, nested, _, strictly⟩ :=
      reaches.readied True (fun _ db action _ => single.fanOutSafe db action) law isPrepared
    obtain ⟨linked, game⟩ := strictly trivial
    rw [← Workflow.kind?_load doc limits settings] at isEnd
    exact ready.ends_alone law trivial standing linked nested game noEvents planned isEnd
  · refine Reaches.never_fails law rfl
      (fun db action prepared outcome state here isPrepared resolution => ?_) reaches
    obtain ⟨ready, standing, nested, _, strictly⟩ :=
      here.readied True (fun _ db action _ => single.fanOutSafe db action) law isPrepared
    obtain ⟨linked, game⟩ := strictly trivial
    exact Fault.not_crowded law ready trivial standing linked nested game noEvents
      ((ready.resolved outcome state resolution).symm ▸ ready.ended)

end

/-- The document of `shortcut`. -/
def shortcutDocument : Compiler.Document where
  entry := "fan"
  nodes :=
    [("done", { kind := .endNode }),
     ("fan", { kind := .parallel }),
     ("meet", { kind := .join, join := some ⟨.any, none⟩ }),
     ("work", { kind := .code, contract := some ["built"] })]
  edges :=
    [{ source := "fan.split", target := "meet" },
     { source := "fan.split", target := "work" },
     { source := "meet.joined", target := "done" },
     { source := "work.built", target := "meet" }]
  nodesSorted := by decide

theorem shortcutDocument_load :
    Workflow.load shortcutDocument { maxParallelTokens := 2 } (fixedOutcomes shortcutDocument) =
      shortcut := by
  rw [Workflow.load, normalizeEdges_of_sorted (by decide)]
  decide

/-- Every state the walk enters is one of four, and none is a violation. -/
theorem shortcutDocument_lawful : ¬ shortcutDocument.splitGraph.Sees none := by
  have entered : ∀ {hops : Nat} {name : String} {depth : Int},
      shortcutDocument.splitGraph.Enters none hops name depth →
      (name, depth) ∈ [("fan", (0 : Int)), ("meet", 1), ("work", 1), ("done", 0)] := by
    intro hops name depth walk
    induction walk with
    | root member =>
        have isFan : shortcutDocument.walkRoots = ["fan"] := by decide
        have member : _ ∈ shortcutDocument.walkRoots := member
        rw [isFan, List.mem_singleton] at member
        simp [member]
    | @hop n v w d δ _ _ hop _ ih =>
        have onward : ∀ state ∈ [("fan", (0 : Int)), ("meet", 1), ("work", 1), ("done", 0)],
            ∀ step ∈ shortcutDocument.adjacency state.1, (step.1, state.2 + step.2) ∈
              [("fan", (0 : Int)), ("meet", 1), ("work", 1), ("done", 0)] := by decide
        exact onward (v, d) ih (w, δ) hop
  rintro ⟨hops, name, depth, walk, violated⟩
  have sound : ∀ state ∈ [("fan", (0 : Int)), ("meet", 1), ("work", 1), ("done", 0)],
      shortcutDocument.splitGraph.violates state.1 state.2 = false := by decide
  have kept := sound (name, depth) (entered walk)
  exact absurd (kept.symm.trans violated) Bool.false_ne_true

theorem depths_walked_shortcut : ∃ db, Reaches Env.permissive
    (Workflow.load shortcutDocument { maxParallelTokens := 2 } (fixedOutcomes shortcutDocument))
      anyAction db ∧
    db.activeTokenCount = 1 ∧
    (∀ token ∈ db.tokens, token.active = true → ∃ hops, shortcutDocument.splitGraph.Enters none hops
      token.node (Forest.chain db.groupTree token.group).length) ∧
    ∀ endNode active, db.ending ≠ some (.failed (.siblings endNode active)) := by
  have ran : (replay Env.permissive shortcut (fun _ _ => true) (succeed 2 "split")).map
      RunDb.activeTokenCount = some 1 := by decide
  obtain ⟨db, reached, single⟩ := Option.map_eq_some_iff.mp ran
  have reaches : Reaches Env.permissive
      (Workflow.load shortcutDocument { maxParallelTokens := 2 } (fixedOutcomes shortcutDocument))
      anyAction db := by
    rw [shortcutDocument_load]
    exact Reaches.of_replay (fun _ _ _ => trivial) reached
  obtain ⟨walks, _, structured⟩ := depths_walked (by decide) shortcutDocument_lawful reaches
  refine ⟨db, reaches, single, walks, (structured ?_ ?_).2⟩
  · rw [shortcutDocument_load]
    decide
  · rw [shortcutDocument_load]
    decide

end CultureNodes.Engine
