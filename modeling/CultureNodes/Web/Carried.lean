import CultureNodes.Web.Transit

/-!
A whole transition and what it tells of one node. Beside the turns that its pieces take, it may reach an end
node, close the run at the end node it set out from, or leave the node run to be attempted again.
-/

namespace CultureNodes.Web

open Engine

/-- A transition that may have reached the end of the run. -/
inductive Ends (mover : Mover) (node : String) (db : RunDb) (events : List RunEvent) (next : RunDb) : Prop where
  | turned : Turned mover node True db events next → Ends mover node db events next
  | reached {id : Nat} : next.newest node = some (id, .completed) → id ≠ mover.nodeRun.id →
      .wrote id .completed ∈ news db next → (next.state = .completed → Tells node events .completed) →
      Ends mover node db events next

/-- A transition comes to these rows, or to the rows at which it is refused. -/
def Comes (mover : Mover) (node : String) (db : RunDb) (events : List RunEvent) : Except Halt RunDb → Prop
  | .ok next => Ends mover node db events next ∧ Grown db next
  | .error (.refuse next _) => Piece mover node True db events next
  | .error (.abort _) => True

section

variable {mover : Mover} {node : String} {opens : Prop} {db middle next : RunDb} {events more : List RunEvent}

theorem Goes.comes {result : Except Halt RunDb} (goes : Goes mover node opens db events result) :
    Comes mover node db events result := by
  cases result with
  | ok next =>
      have piece : Piece mover node opens db events next := goes
      exact ⟨.turned (piece.turned.mono fun _ => trivial), piece.grown⟩
  | error halt =>
      cases halt with
      | abort error => trivial
      | refuse next failure => exact Piece.mono goes fun _ => trivial

theorem Ends.after (first : Piece mover node True db events middle) (second : Ends mover node middle more next)
    (grown : Grown middle next) (quiet : Silent node mover.nodeRun.node events) :
    Ends mover node db (events ++ more) next := by
  cases second with
  | turned second => exact .turned (first.turned.trans second first.grown grown fun _ => ⟨trivial, quiet⟩)
  | reached after other wrote told =>
      refine .reached after other ?_ fun isCompleted => (told isCompleted).after events
      rw [first.grown.news_trans grown]
      exact List.mem_append_left _ wrote

theorem completeRun_cases (mover : Mover) (env : Env) (wf : Workflow) (db : RunDb) (endNode : String) :
    (∃ failure, mover.completeRun env wf db endNode = mover.failRun db failure ∧
      mover.completeRunEvents env wf db endNode = mover.failRunEvents db) ∨
    (∃ output, mover.completeRun env wf db endNode =
        db.retireEventRoutes.updateRunState .completed (some output) (.completed endNode) ∧
      mover.completeRunEvents env wf db endNode = [{ type := .runCompleted, endNode := endNode }]) := by
  unfold Mover.completeRun Mover.completeRunEvents
  by_cases crowded : 0 < db.activeTokenCount
  · rw [if_pos crowded, if_pos crowded]
    exact Or.inl ⟨_, rfl, rfl⟩
  · rw [if_neg crowded, if_neg crowded]
    cases Mover.resolveRunOutput env wf db endNode with
    | error detail => exact Or.inl ⟨_, rfl, rfl⟩
    | ok output => exact Or.inr ⟨output, rfl, rfl⟩

theorem Grown.failRun (mover : Mover) (db : RunDb) (failure : Failure) : Grown db (mover.failRun db failure) :=
  ((Grown.finishNodeRun _ _ _).trans (Grown.reapRunState _)).trans (Grown.congr rfl (Nat.le_refl _) rfl)

theorem newest_reachEnd (serial : Serial db) (entered : Node) (parent group : Option Nat) :
    (db.reachEnd entered parent group).newest node =
      if entered.id = node then some (db.nextID + 1, .completed) else db.newest node := by
  have placed : ((db.insertToken entered.id parent group none).insertNodeRun db.nextID entered.id
      (dispatchState entered.kind)).newest node =
        if entered.id = node then some (db.nextID + 1, dispatchState entered.kind) else db.newest node :=
    @RunDb.newest_concat db node _ ⟨db.nextID + 1, db.nextID, entered.id, dispatchState entered.kind, ""⟩ rfl
  have ended : (db.reachEnd entered parent group).newest node = (((db.insertToken entered.id parent group
      none).insertNodeRun db.nextID entered.id (dispatchState entered.kind)).newest node).map fun row =>
        if decide (row.1 = db.nextID + 1) then (row.1, .completed) else row :=
    @RunDb.newest_update _ _ _ (fun id _ => decide (id = db.nextID + 1)) _ _ rfl fun _ => ⟨rfl, rfl, rfl⟩
  rw [ended, placed]
  by_cases here : entered.id = node
  · simp [here]
  · rw [if_neg here, if_neg here]
    cases found : db.newest node with
    | none => rfl
    | some row =>
        obtain ⟨run, held, sameID, -⟩ := RunDb.mem_of_newest found
        have older : row.1 ≠ db.nextID + 1 := by
          have old := serial.old run held
          omega
        simp [older]

theorem Ends.failRun {id : Nat} (grown : Grown db middle) (found : middle.newest node = some (id, .completed))
    (other : id ≠ mover.nodeRun.id) (wrote : .wrote id .completed ∈ news db middle) (failure : Failure) :
    Ends mover node db (events ++ mover.failRunEvents middle) (mover.failRun middle failure) := by
  have failed : Turned mover node False middle (mover.failRunEvents middle) (mover.failRun middle failure) :=
    Turned.failRun failure
  have late : ∀ {entry}, entry ∈ news middle (mover.failRun middle failure) →
      entry ∈ news db (mover.failRun middle failure) := fun held => by
    rw [grown.news_trans (Grown.failRun mover middle failure)]
    exact List.mem_append_left _ held
  cases failed with
  | kept same silent =>
      refine .reached ?_ other ?_ fun isCompleted => absurd isCompleted RunState.noConfusion
      · rw [same, found, Option.map_some, ended, if_neg other]
      · rw [grown.news_trans (Grown.failRun mover middle failure)]
        exact List.mem_append_right _ wrote
  | ready after own told => exact .turned (.ready after own (told.after _))
  | lost after own cancelled => exact .turned (.lost after own (late cancelled))
  | parked never => exact never.elim
  | human after own asked => exact .turned (.human after own (late asked))
  | fired ready at_ told => exact .turned (.fired (late ready) at_ (told.after _))

theorem Ends.reachEnd (afoot : Afoot mover db) (env : Env) (wf : Workflow) (edge : Edge) (entered : Node)
    (place : Option Nat) (visit : Nat) :
    Ends mover node db (transitioned mover.nodeRun.node edge entered visit ::
        mover.completeRunEvents env wf (db.reachEnd entered (some mover.nodeRun.token) place) entered.id)
      (mover.completeRun env wf (db.reachEnd entered (some mover.nodeRun.token) place) entered.id) := by
  have grown : Grown db (db.reachEnd entered (some mover.nodeRun.token) place) := Grown.reachEnd _ _ _
  have after := @newest_reachEnd node db afoot.serial entered (some mover.nodeRun.token) place
  have last := completeRun_cases mover env wf (db.reachEnd entered (some mover.nodeRun.token) place) entered.id
  by_cases here : entered.id = node
  · rw [if_pos here] at after
    have old := afoot.old
    have other : db.nextID + 1 ≠ mover.nodeRun.id := by omega
    have wrote : .wrote (db.nextID + 1) .completed ∈
        news db (db.reachEnd entered (some mover.nodeRun.token) place) := by
      rw [@news_of_append _ _ [.wrote (db.nextID + 1) .completed,
        .wrote (db.nextID + 1) (dispatchState entered.kind)] rfl]
      exact List.mem_cons_self
    obtain ⟨failure, isFailed, said⟩ | ⟨output, isCompleted, said⟩ := last
    · rw [isFailed, said]
      exact @Ends.failRun _ _ _ _ [transitioned mover.nodeRun.node edge entered visit] _ grown after other wrote
        failure
    · rw [isCompleted, said]
      refine .reached ((RunDb.newest_congr rfl).trans after) other wrote fun _ known => ?_
      simp [tell, here]
  · rw [if_neg here] at after
    have entering : Turned mover node True db [transitioned mover.nodeRun.node edge entered visit]
        (db.reachEnd entered (some mover.nodeRun.token) place) := .still afoot.ended after (silent_transitioned here)
    obtain ⟨failure, isFailed, said⟩ | ⟨output, isCompleted, said⟩ := last
    · rw [isFailed, said]
      have failed : Turned mover node False (db.reachEnd entered (some mover.nodeRun.token) place) _
          (mover.failRun (db.reachEnd entered (some mover.nodeRun.token) place) failure) := Turned.failRun failure
      exact .turned (entering.trans failed grown (Grown.failRun mover _ failure) False.elim)
    · rw [isCompleted, said]
      have silent : Silent node mover.nodeRun.node [{ type := .runCompleted, endNode := entered.id }] :=
        Silent.cons (fun known _ => by simp [tell, here]) Silent.nil
      exact .turned (.still afoot.ended ((RunDb.newest_congr rfl).trans after) ((silent_transitioned here).append silent))

variable {env : Env} {wf : Workflow}

theorem Comes.follow (afoot : Afoot mover db) (place : Option Nat) (target : Edge) :
    Comes mover node db (mover.followEvents env wf db place target) (mover.follow env wf db place target) := by
  unfold Mover.followEvents Mover.follow
  cases wf.node? target.target with
  | none => trivial
  | some entered =>
      dsimp only
      by_cases isJoin : entered.kind = .join
      · rw [if_pos isJoin, if_pos isJoin]
        exact (Goes.arrive afoot place target).comes
      · rw [if_neg isJoin, if_neg isJoin]
        by_cases isEnd : entered.kind = .endNode
        · rw [if_pos isEnd, if_pos isEnd]
          have grown : Grown db (db.reachEnd entered (some mover.nodeRun.token) place) := Grown.reachEnd _ _ _
          refine ⟨Ends.reachEnd afoot env wf target entered place _, grown.trans ?_⟩
          obtain ⟨failure, isFailed, -⟩ | ⟨output, isCompleted, -⟩ := completeRun_cases mover env wf
            (db.reachEnd entered (some mover.nodeRun.token) place) entered.id
          · exact isFailed ▸ Grown.failRun mover _ failure
          · exact isCompleted ▸ Grown.congr rfl (Nat.le_refl _) rfl
        · rw [if_neg isEnd, if_neg isEnd]
          have started : Piece mover node False db (mover.enterEvents db target entered)
              (db.startNode entered (some mover.nodeRun.token) place none mover.now) := Piece.startNode afoot
          exact ⟨.turned (started.turned.mono False.elim), started.grown⟩

theorem nextGroup_error {halt : Halt} (failed : mover.nextGroup db = .error halt) : ∃ error, halt = .abort error := by
  unfold Mover.nextGroup at failed
  split at failed
  · exact ⟨_, (Except.error.inj failed).symm⟩
  · split at failed
    · split at failed
      · contradiction
      · split at failed
        · exact ⟨_, (Except.error.inj failed).symm⟩
        · contradiction
    · contradiction

theorem Comes.advance (afoot : Afoot mover db) (targets : List Edge) :
    Comes mover node db (mover.advanceEvents env wf db targets) (mover.advance env wf db targets) := by
  unfold Mover.advanceEvents Mover.advance
  cases targets with
  | nil => exact ⟨.turned (.still afoot.ended rfl Silent.nil), Grown.refl db⟩
  | cons target rest =>
      dsimp only
      cases onward : mover.nextGroup db with
      | error halt =>
          obtain ⟨error, rfl⟩ := nextGroup_error onward
          trivial
      | ok place =>
          dsimp only
          split
          · exact (Goes.fanOut afoot place (target :: rest)).comes
          · exact Comes.follow afoot place target

end

/-- All that a transition can do to the newest run of a node, and tell of it. -/
inductive Carried (prepared : Prepared) (node : String) (events : List RunEvent) (next : RunDb) : Prop where
  | ends : Ends prepared.mover node prepared.db events next → Carried prepared node events next
  | closed : prepared.mover.nodeRun.node = node → prepared.mover.node.kind = .endNode → next.state = .completed →
      next.newest node = (prepared.db.newest node).map (ended prepared.mover) →
      Tells node events .completed → Carried prepared node events next
  | again {availableAt : Nat} : prepared.resolution = .retry availableAt → prepared.mover.nodeRun.node = node →
      Carried prepared node events next

namespace Carried

variable {prepared : Prepared} {node : String} {env : Env} {wf : Workflow} {next : RunDb}
  (ready : prepared.Ready wf False) (serial : Serial prepared.db)

include ready serial

theorem transition {outcome : String} {state : NodeRunState}
    (resolution : prepared.resolution = .transition outcome state)
    (done : prepared.transition env wf outcome state = .ok next) :
    Carried prepared node (prepared.transitionEvents env wf outcome state) next := by
  obtain rfl := ready.resolved outcome state resolution
  have home : prepared.db.At prepared.mover.nodeRun.node prepared.mover.nodeRun.id :=
    ⟨_, ready.member, rfl, rfl⟩
  have quiet : Silent node prepared.mover.nodeRun.node (if prepared.mover.state = .failed then
      [{ type := .nodeRunFailed, nodeID := prepared.mover.nodeRun.node }] else []) := by
    split
    · exact Silent.cons (fun _ _ => rfl) Silent.nil
    · exact Silent.nil
  have finished : Piece prepared.mover node True prepared.db []
      (prepared.db.finishNodeRun prepared.mover.nodeRun prepared.mover.state outcome) :=
    Piece.finish serial home ready.ended outcome
  have setOut := finished.trans (Piece.congr finished.afoot rfl (Nat.le_refl _) rfl quiet) fun _ : True =>
    ⟨trivial, Silent.nil⟩
  unfold Prepared.transition at done
  unfold Prepared.transitionEvents
  dsimp only at done ⊢
  cases planned : planTransition (prepared.input env wf outcome) with
  | stop bound =>
      rw [planned] at done
      rw [← Except.ok.inj done]
      refine .ends (Ends.after setOut (.turned (Turned.failBound setOut.afoot.ended bound _)) ?_ quiet)
      exact (Grown.reapRunState _).trans (Grown.congr rfl (Nat.le_refl _) rfl)
  | complete =>
      rw [planned] at done
      rw [← Except.ok.inj done]
      dsimp only
      obtain ⟨failure, isFailed, said⟩ | ⟨output, isCompleted, said⟩ := completeRun_cases prepared.mover env wf
        (prepared.db.finishNodeRun prepared.mover.nodeRun prepared.mover.state outcome) prepared.mover.nodeRun.node
      · rw [isFailed, said]
        exact .ends (Ends.after setOut (.turned (Turned.failRun failure))
          (Grown.failRun _ _ failure) quiet)
      · rw [isCompleted, said]
        by_cases here : prepared.mover.nodeRun.node = node
        · refine .closed here (planTransition_complete ready.node planned) rfl ?_ (Tells.after _ fun known => ?_)
          · exact (RunDb.newest_congr rfl).trans Turned.newest_finish
          · simp [tell, here]
        · refine .ends (Ends.after setOut (.turned (Turned.congr setOut.afoot.ended rfl ?_)) (Grown.congr rfl (Nat.le_refl _) rfl) quiet)
          exact Silent.cons (fun known _ => by simp [tell, here]) Silent.nil
  | refuse diagnostic =>
      rw [planned] at done
      rw [← Except.ok.inj done]
      exact .ends (Ends.after setOut (.turned (Turned.failRun _)) (Grown.failRun _ _ _) quiet)
  | follow targets =>
      rw [planned] at done
      dsimp only at done ⊢
      have comes : Comes prepared.mover node _ (prepared.mover.advanceEvents env wf _ targets)
        (prepared.mover.advance env wf _ targets) := Comes.advance setOut.afoot targets
      cases ran : prepared.mover.advance env wf
          (prepared.db.finishNodeRun prepared.mover.nodeRun prepared.mover.state outcome) targets with
      | ok advanced =>
          rw [ran] at done comes
          rw [← Except.ok.inj done, List.append_nil]
          exact .ends (Ends.after setOut comes.1 comes.2 quiet)
      | error halt =>
          rw [ran] at done comes
          cases halt with
          | abort error => contradiction
          | refuse reached failure =>
              rw [← Except.ok.inj done]
              have piece : Piece prepared.mover node True _ _ reached := comes
              have failed : Turned prepared.mover node False reached _ (prepared.mover.failRun reached failure) :=
                Turned.failRun failure
              exact .ends (Ends.after setOut (.turned (piece.turned.trans failed piece.grown
                (Grown.failRun _ _ failure) False.elim)) (piece.grown.trans (Grown.failRun _ _ failure)) quiet)

theorem scheduleRetry (elsewhere : prepared.mover.nodeRun.node ≠ node) (availableAt : Nat) :
    (prepared.scheduleRetry availableAt).newest node = (prepared.db.newest node).map (ended prepared.mover) := by
  have home : prepared.db.At prepared.mover.nodeRun.node prepared.mover.nodeRun.id :=
    ⟨_, ready.member, rfl, rfl⟩
  have after : (prepared.scheduleRetry availableAt).newest node = (prepared.db.newest node).map fun row =>
      if decide (row.1 = prepared.mover.nodeRun.id) then (row.1, .ready) else row :=
    @RunDb.newest_update _ _ _ (fun id _ => decide (id = prepared.mover.nodeRun.id)) _ _ rfl fun _ => ⟨rfl, rfl, rfl⟩
  rw [after]
  cases found : prepared.db.newest node with
  | none => rfl
  | some row =>
      have other : row.1 ≠ prepared.mover.nodeRun.id := fun own =>
        elsewhere (serial.node_eq (own.symm ▸ home) found)
      simp [ended, other]

theorem carryOut (cancels : prepared.resolution = .cancel → prepared.mover.state = .cancelled)
    (done : prepared.carryOut env wf = .ok next) :
    Carried prepared node (prepared.carryOutEvents env wf) next := by
  unfold Prepared.carryOut at done
  unfold Prepared.carryOutEvents
  cases resolution : prepared.resolution with
  | transition outcome state =>
      rw [resolution] at done
      exact transition ready serial resolution done
  | cancel =>
      rw [resolution] at done
      rw [← Except.ok.inj done]
      exact .ends (.turned (Turned.cancelRun (cancels resolution)))
  | retry availableAt =>
      rw [resolution] at done
      rw [← Except.ok.inj done]
      by_cases here : prepared.mover.nodeRun.node = node
      · exact .again resolution here
      · exact .ends (.turned (.kept (scheduleRetry ready serial here availableAt)
          (Silent.cons (fun _ _ => rfl) Silent.nil)))
  | fail failure =>
      rw [resolution] at done
      rw [← Except.ok.inj done]
      exact .ends (.turned (Turned.failRun failure))

end Carried

end CultureNodes.Web
