import CultureNodes.Engine.FanOut

/-!
Every transaction on a run is a series of turns from an empty hand to an empty hand. It is strict
where a split fires one barrier at most, and calm where the last branch of a group to arrive fires
the barrier it arrives at.
-/

namespace CultureNodes.Engine

namespace RunDb

variable {db : RunDb} {own : NodeRun} {state : NodeRunState} {outcome : String}

theorem reapRunState_activeTokenCount (keep : Nat) : (db.reapRunState keep).activeTokenCount = 0 := by
  refine List.countP_eq_zero.mpr fun token member => ?_
  obtain ⟨old, _, rfl⟩ := Table.mem_update.mp member
  cases active : old.active <;> simp [active]

theorem retireEventRoutes_inactive : ∀ route ∈ db.retireEventRoutes.eventRoutes, route.active = false := by
  intro route member
  obtain ⟨old, _, rfl⟩ := Table.mem_update.mp member
  cases active : old.active <;> simp [active]

theorem finishNodeRun_state_eq : ∀ run ∈ (db.finishNodeRun own state outcome).nodeRuns,
    run.id = own.id → run.state = state := by
  intro run member same
  obtain ⟨old, _, rfl⟩ := Table.mem_update.mp member
  split at same
  · rename_i hit
    rw [if_pos hit]
  · rename_i missed
    exact absurd (decide_eq_true same) missed

theorem finishNodeRun_endsOnly : db.EndsOnly own.id (db.finishNodeRun own state outcome) := by
  intro run member other _
  obtain ⟨old, oldMember, rfl⟩ := Table.mem_update.mp member
  by_cases hit : decide (old.id = own.id) = true
  · rw [if_pos hit] at other
    exact absurd (of_decide_eq_true hit) other
  · rw [if_neg hit]
    exact ⟨old, oldMember, rfl, rfl⟩

theorem reapRunState_endsOnly {keep own : Nat} : db.EndsOnly own (db.reapRunState keep) := by
  intro run member _ notCancelled
  obtain ⟨old, oldMember, rfl⟩ := Table.mem_update.mp member
  split at notCancelled
  · exact absurd rfl notCancelled
  · rename_i spared
    rw [if_neg spared]
    exact ⟨old, oldMember, rfl, rfl⟩

theorem finishNodeRun_openJoinBarrier {wf : Workflow} (keyed : Keyed wf db) (member : own ∈ db.nodeRuns)
    (terminal : state.terminal = true) (notParked : own.state ≠ .waitingJoin) (node : String)
    (group : Nat) :
    (db.finishNodeRun own state outcome).openJoinBarrier node group = db.openJoinBarrier node group := by
  have sameTokens : ∀ run : NodeRun, ((db.finishNodeRun own state outcome).tokens.any fun token =>
      token.id = run.token && token.group = some group) =
        db.tokens.any fun token => token.id = run.token && token.group = some group := fun run =>
    Table.any_update fun _ => rfl
  unfold openJoinBarrier
  simp only [sameTokens]
  refine Table.find?_update fun run runMember hit => ?_
  have isOwn := keyed.run_eq runMember member (of_decide_eq_true hit)
  have notJoin : state ≠ .waitingJoin := by
    rintro rfl
    contradiction
  simp [isOwn, notParked, notJoin]

/-- The token is consumed and stays where it is. -/
theorem finishNodeRun_token? (id : Nat) : ((db.finishNodeRun own state outcome).token? id).map Token.group =
    (db.token? id).map Token.group := by
  unfold token? finishNodeRun consumeToken updateNodeRun Table.update
  dsimp only
  rw [List.find?_map, Option.map_map]
  have sameKey : ((fun token : Token => decide (token.id = id)) ∘ fun token : Token =>
      if (token.id = own.token && token.active) = true then { token with active := false } else token) =
      fun token => decide (token.id = id) := by
    funext token
    simp only [Function.comp_apply]
    split <;> rfl
  rw [sameKey]
  cases List.find? (fun token : Token => decide (token.id = id)) db.tokens with
  | none => rfl
  | some token =>
      simp only [Option.map_some, Function.comp_apply]
      split <;> rfl

end RunDb

namespace Mover

variable {env : Env} {wf : Workflow} {strict calm : Prop} {mover : Mover} {db : RunDb} {hand : Hand}

/-- What is known of the node run that moved, for the rest of its transaction. -/
structure Moved (wf : Workflow) (strict : Prop) (mover : Mover) (here : Hand × RunDb) : Prop where
  standing : Standing wf here
  ended : mover.state.terminal = true
  row : ∃ run ∈ here.2.nodeRuns, run.stand = mover.nodeRun.stand
  lawful : strict → Linked here.2 ∧ Recorded here.2
  kept : strict → ∃ run ∈ here.2.nodeRuns, run.stand = mover.nodeRun.stand ∧ run.state = mover.state

theorem Moved.turns {here there : Hand × RunDb} (moved : Moved wf strict mover here)
    (turns : Turns wf strict calm here there) : Moved wf strict mover there := by
  have lawful : strict → Linked there.2 ∧ Recorded there.2 := fun isStrict =>
    Turns.linked turns isStrict moved.standing (moved.lawful isStrict).1 (moved.lawful isStrict).2
  refine ⟨Turns.standing turns moved.standing, moved.ended, ?_, lawful, fun isStrict => ?_⟩
  · obtain ⟨run, member, stands⟩ := moved.row
    obtain ⟨later, laterMember, same⟩ := (Turns.extends turns).runs run member
    exact ⟨later, laterMember, same.trans stands⟩
  · obtain ⟨run, member, stands, sameState⟩ := moved.kept isStrict
    obtain ⟨later, laterMember, same, laterState⟩ := (moved.lawful isStrict).2.ended_stays
      (lawful isStrict).2 (Turns.extends turns) member (sameState ▸ moved.ended)
    exact ⟨later, laterMember, same.trans stands, laterState.trans sameState⟩

theorem failRun_turns (failure : Failure) (held : hand ≠ .idle)
    (moved : Moved wf strict mover (hand, db)) :
    Busy wf strict calm mover.nodeRun.id (hand, db) (.idle, mover.failRun db failure) := by
  have terminal := moved.ended
  have kept : strict → ∃ run ∈ db.nodeRuns, run.id = mover.nodeRun.id ∧
      run.token = mover.nodeRun.token ∧ run.state = mover.state := by
    intro isStrict
    obtain ⟨run, member, stands, sameState⟩ := moved.kept isStrict
    exact ⟨run, member, congrArg Prod.fst stands, congrArg (fun s => s.2.1) stands, sameState⟩
  have finished : Turn wf strict calm (.ending, db)
      (.ending, db.finishNodeRun mover.nodeRun mover.state mover.outcome) :=
    .refinish mover.outcome terminal moved.row kept
  have reaped : Turn wf strict calm (.ending, db.finishNodeRun mover.nodeRun mover.state mover.outcome)
      (.ending, (db.finishNodeRun mover.nodeRun mover.state mover.outcome).reapRunState
        mover.nodeRun.id) := by
    refine .reap mover.nodeRun.id fun run member same => ?_
    rw [RunDb.finishNodeRun_state_eq run member same]
    exact terminal
  refine .head ⟨held, .abandon held, fun _ _ => .refl _ _⟩ (.head ⟨Hand.noConfusion, finished,
    fun _ _ => RunDb.finishNodeRun_endsOnly⟩ (.head ⟨Hand.noConfusion, reaped,
      fun _ _ => RunDb.reapRunState_endsOnly⟩ (.single ⟨Hand.noConfusion, ?_, fun _ same => absurd same Hand.noConfusion⟩)))
  exact .conclude none (.failed failure) rfl (RunDb.reapRunState_activeTokenCount _)
    RunDb.retireEventRoutes_inactive

theorem failBound_turns (bound : BoundExceeded) (transitions : Nat)
    (ended : ∀ run ∈ db.nodeRuns, run.id = mover.nodeRun.id → run.state.terminal = true) :
    Busy wf strict calm mover.nodeRun.id (.ending, db) (.idle, mover.failBound db bound transitions) := by
  have reaped : Turn wf strict calm (.ending, db) (.ending, db.reapRunState mover.nodeRun.id) :=
    .reap mover.nodeRun.id ended
  refine .head ⟨Hand.noConfusion, reaped, fun _ _ => RunDb.reapRunState_endsOnly⟩
    (.single ⟨Hand.noConfusion, ?_, fun _ same => absurd same Hand.noConfusion⟩)
  exact .conclude none (.bounded bound transitions) rfl (RunDb.reapRunState_activeTokenCount _)
    RunDb.retireEventRoutes_inactive

theorem completeRun_turns (endNode : String) (moved : Moved wf strict mover (.ending, db)) :
    Busy wf strict calm mover.nodeRun.id (.ending, db) (.idle, mover.completeRun env wf db endNode) := by
  unfold completeRun
  split
  · exact failRun_turns _ Hand.noConfusion moved
  · rename_i alone
    split
    · exact failRun_turns _ Hand.noConfusion moved
    · rename_i output _
      refine .head ⟨Hand.noConfusion, .retire, fun _ _ => .refl _ _⟩
        (.single ⟨Hand.noConfusion, ?_, fun _ same => absurd same Hand.noConfusion⟩)
      exact .conclude (some output) (.completed endNode) rfl (Nat.eq_zero_of_not_pos alone)
        RunDb.retireEventRoutes_inactive

end Mover

namespace RunDb

variable (db : RunDb)

/-- How many branches have arrived at the barrier that one more arrival would find. -/
def openArrivals (join : String) (group : Nat) : Nat :=
  match db.openJoinBarrier join group with
  | none => 0
  | some barrier => db.joinArrivalCount barrier.id

/-- An arrival that leaves its group waiting for someone: other branches are still to come, or it
fires the barrier, or the barrier never can fire and the run is failed. -/
def settlesArrival (join : Node) (group : Nat) : Bool :=
  decide (db.arrivedIn group + 1 < db.cardinalityOf group) ||
    !join.satisfiable (db.cardinalityOf group) ||
    join.fires (db.cardinalityOf group) (db.openArrivals join.id group + 1)

variable {db}

theorem gather_arrivedIn (join : Node) (token group : Nat) (fromNode outcome : String)
    (output : Payload) :
    (db.gather join token group fromNode outcome output).arrivedIn group = db.arrivedIn group + 1 := by
  simp [arrivedIn]

theorem gather_joinArrivalCount {wf : Workflow} (keyed : Keyed wf db) (join : Node) (token group : Nat)
    (fromNode outcome : String) (output : Payload) :
    (db.gather join token group fromNode outcome output).joinArrivalCount
      (db.joinBarrier join token group).2.id = db.openArrivals join.id group + 1 := by
  rw [joinArrivalCount, gather_joinArrivals, List.countP_append, List.countP_singleton, if_pos (by simp)]
  unfold openArrivals joinBarrier
  cases db.openJoinBarrier join.id group with
  | some barrier => rfl
  | none =>
      rw [Nat.add_right_cancel_iff]
      refine List.countP_eq_zero.mpr fun arrival member isNew => ?_
      have older := (keyed.arrivalsOld arrival member).1
      have newer : arrival.joinNodeRun = db.nextID + 1 := of_decide_eq_true isNew
      omega

theorem cardinalityOf_eq {group : Nat} {row : TokenGroup} (found : db.tokenGroup? group = some row) :
    db.cardinalityOf group = row.cardinality := by
  rw [cardinalityOf, found]
  rfl

end RunDb

/-- A split that leaves its group waiting for someone. -/
def Workflow.settlesSplit (wf : Workflow) (targets : List Edge) : Bool :=
  !targets.all wf.toJoin || (wf.straightJoins targets).any fun join =>
    !join.satisfiable targets.length ||
      join.fires targets.length (targets.countP (·.target = join.id))

namespace Mover

variable {env : Env} {wf : Workflow} {strict calm : Prop} {mover : Mover} {db : RunDb}

theorem arriveAtJoin_leads {place : Option Nat} {edge : Edge} {join : Node}
    (standing : Standing wf (.carrying place edge, db)) (found : wf.node? edge.target = some join)
    (isJoin : join.kind = .join)
    (settles : calm → ∀ group ∈ place, db.settlesArrival join group = true) :
    Leads wf strict calm mover.nodeRun.id (.carrying place edge, db) (mover.arriveAtJoin db join place edge) := by
  unfold arriveAtJoin
  cases place with
  | none => exact ⟨.carrying none edge, Hand.noConfusion, .refl⟩
  | some group =>
      cases recorded : mover.recordArrival db join mover.nodeRun.token (some group) edge with
      | error halt =>
          obtain ⟨error, rfl⟩ := recordArrival_error recorded
          trivial
      | ok next =>
          obtain ⟨own, isGroup, rfl⟩ := recordArrival_ok recorded
          obtain rfl := Option.some.inj isGroup
          dsimp only [Option.getD_some]
          have arrived : Turn wf strict calm (.carrying (some group) edge, db)
              (.settling group, db.gather join mover.nodeRun.token group mover.nodeRun.node
                edge.fromOutcome mover.output) :=
            .arrive mover.nodeRun.token mover.nodeRun.node edge.fromOutcome mover.output found isJoin
          refine Leads.after (.single ⟨Hand.noConfusion, arrived, (absurd · Hand.noConfusion)⟩) ?_
          have reached := arrived.standing standing
          have parked : (db.gather join mover.nodeRun.token group mover.nodeRun.node edge.fromOutcome
              mover.output).Parked (db.joinBarrier join mover.nodeRun.token group).2 group :=
            (Keyed.joinBarrier_parked join mover.nodeRun.token group).extend (fun _ member => member)
              (fun _ member => member)
          have sameRow : (db.gather join mover.nodeRun.token group mover.nodeRun.node edge.fromOutcome
              mover.output).tokenGroup? group = db.tokenGroup? group :=
            RunDb.tokenGroup?_congr RunDb.gather_tokenGroups
          cases groupRow : db.tokenGroup? group with
          | none =>
              rw [RunDb.settleBarrier, sameRow, groupRow]
              trivial
          | some row =>
              rw [← mover.settlePending_singleton]
              refine settlePending_leads (sameRow.trans groupRow) ?_ ?_ ?_ ?_
              · intro entry member
                rw [List.mem_singleton.mp member]
                exact reached.keyed.parked_old parked
              · intro entry member
                rw [List.mem_singleton.mp member]
                exact reached.keyed.parked_atJoin parked
              · intro _
                refine Or.inl ⟨fun entry member => ?_, ?_⟩
                · rw [List.mem_singleton.mp member]
                  exact parked
                · exact Nat.le_trans List.countP_le_length (List.takeWhile_prefix _).length_le
              · intro isCalm
                have settled := settles isCalm group rfl
                rw [RunDb.settlesArrival, Bool.or_eq_true, Bool.or_eq_true, decide_eq_true_eq,
                  Bool.not_eq_true', RunDb.cardinalityOf_eq groupRow] at settled
                rcases settled with (few | never) | fires
                · refine Or.inl (Or.inr ?_)
                  rw [RunDb.gather_arrivedIn, RunDb.cardinalityOf_eq (sameRow.trans groupRow)]
                  exact few
                · exact Or.inr ⟨_, List.mem_singleton.mpr rfl, Or.inl never⟩
                · refine Or.inr ⟨_, List.mem_singleton.mpr rfl, Or.inr ?_⟩
                  rw [RunDb.gather_joinArrivalCount standing.keyed]
                  exact fires

end Mover

namespace Mover

variable {env : Env} {wf : Workflow} {strict calm : Prop} {mover : Mover} {db : RunDb}

theorem follow_leads {place : Option Nat} {edge : Edge}
    (moved : Moved wf strict mover (.carrying place edge, db))
    (settles : calm → ∀ join, wf.node? edge.target = some join → join.kind = .join →
      ∀ group ∈ place, db.settlesArrival join group = true) :
    Leads wf strict calm mover.nodeRun.id (.carrying place edge, db) (mover.follow env wf db place edge) := by
  unfold follow
  split
  · trivial
  · rename_i next found
    split
    · rename_i isJoin
      exact arriveAtJoin_leads moved.standing found isJoin fun isCalm => settles isCalm next found isJoin
    · rename_i notJoin
      split
      · rename_i isEnd
        have reached : Turn wf strict calm (.carrying place edge, db)
            (.ending, db.reachEnd next (some mover.nodeRun.token) place) :=
          .reachEnd (some mover.nodeRun.token) found isEnd
        have ended : Busy wf strict calm mover.nodeRun.id (.ending, db.reachEnd next (some mover.nodeRun.token) place)
            (.idle, mover.completeRun env wf
              (db.reachEnd next (some mover.nodeRun.token) place) next.id) :=
          completeRun_turns next.id (moved.turns (.single reached))
        exact .head ⟨Hand.noConfusion, reached, (absurd · Hand.noConfusion)⟩ ended
      · rename_i notEnd
        exact .single ⟨Hand.noConfusion,
          .put (some mover.nodeRun.token) mover.now found notJoin notEnd, (absurd · Hand.noConfusion)⟩

end Mover

namespace Mover

variable {mover : Mover} {db next : RunDb}

theorem nextGroup_congr (sameGroup : (next.token? mover.nodeRun.token).map Token.group =
      (db.token? mover.nodeRun.token).map Token.group)
    (sameGroups : next.tokenGroups = db.tokenGroups) : mover.nextGroup next = mover.nextGroup db := by
  unfold nextGroup
  simp only [RunDb.tokenGroup?_congr sameGroups]
  cases before : db.token? mover.nodeRun.token with
  | none =>
      cases after : next.token? mover.nodeRun.token with
      | none => rfl
      | some token => simp [before, after] at sameGroup
  | some token =>
      cases after : next.token? mover.nodeRun.token with
      | none => simp [before, after] at sameGroup
      | some other =>
          have same : other.group = token.group := by simpa [before, after] using sameGroup
          simp only [same]

theorem nextGroup_cases {token : Token} (found : db.token? mover.nodeRun.token = some token)
    (human : mover.decision = true → mover.node.kind = .approval) :
    (∃ error, mover.nextGroup db = .error (.abort error)) ∨
      mover.nextGroup db = .ok (db.outerPlace mover.node token) := by
  unfold nextGroup RunDb.outerPlace
  rw [found]
  dsimp only
  by_cases isJoin : mover.node.kind = .join
  · have attempt : mover.decision = false := by
      cases decided : mover.decision with
      | false => rfl
      | true =>
          rw [human decided] at isJoin
          contradiction
    rw [if_pos ⟨attempt, isJoin⟩, if_pos isJoin]
    cases token.group with
    | none => exact Or.inr rfl
    | some group =>
        cases row : db.tokenGroup? group with
        | none => exact Or.inl ⟨.notFound "token group" group, by simp only [row]⟩
        | some groupRow =>
            right
            simp only [row, Option.bind_some]
  · rw [if_neg fun both => isJoin both.2, if_neg isJoin]
    exact Or.inr rfl

end Mover

namespace Prepared

variable (prepared : Prepared) (env : Env) (wf : Workflow)

/-- The edges a prepared transition is about to follow. -/
def targets : List Edge :=
  match prepared.resolution with
  | .transition outcome _ =>
      match planTransition (prepared.input env wf outcome) with
      | .follow targets => targets
      | _ => []
  | _ => []

/-- Of the barriers that a split feeds as it is made, one fires at most. -/
def firesOnce : Bool := decide (wf.straightFirings (prepared.targets env wf) ≤ 1)

/-- The transition leaves no group waiting for nobody. -/
def settles : Bool :=
  match prepared.targets env wf with
  | [] => true
  | target :: rest =>
      if prepared.mover.fansOut target then wf.settlesSplit (target :: rest)
      else
        match wf.node? target.target, prepared.mover.nextGroup prepared.db with
        | some join, .ok (some group) => join.kind ≠ .join || prepared.db.settlesArrival join group
        | _, _ => true

/-- What has been checked of a transition that is about to be carried out. -/
structure Ready (strict : Prop) : Prop where
  member : prepared.mover.nodeRun ∈ prepared.db.nodeRuns
  isOpen : prepared.mover.nodeRun.state.terminal = false
  running : prepared.db.state.terminal = false
  node : wf.node? prepared.mover.nodeRun.node = some prepared.mover.node
  human : prepared.mover.decision = true → prepared.mover.node.kind = .approval
  ended : prepared.mover.state.terminal = true
  idle : strict → prepared.mover.nodeRun.state ≠ .waitingJoin ∧
    ∀ item ∈ prepared.db.work.items, item.nodeRun = prepared.mover.nodeRun.id → item.live = false
  resolved : ∀ outcome state, prepared.resolution = .transition outcome state →
    state = prepared.mover.state
  again : ∀ availableAt, prepared.resolution = .retry availableAt → strict →
    prepared.mover.nodeRun.state ≠ .waitingHuman

/-- The node run of the transition ends, and turns carry on what the hand took up. -/
structure Ends (strict calm : Prop) (next : RunDb) : Prop where
  carried : ∃ hand state recorded, hand ≠ .idle ∧ state.terminal = true ∧
    Turn wf strict calm (.idle, prepared.db)
      (hand, prepared.db.finishNodeRun prepared.mover.nodeRun state recorded) ∧
    Busy wf strict calm prepared.mover.nodeRun.id (hand, prepared.db.finishNodeRun prepared.mover.nodeRun state recorded)
      (.idle, next)

variable {prepared wf} in
theorem Ends.turns {strict calm : Prop} {next : RunDb} (ends : prepared.Ends wf strict calm next) :
    Turns wf strict calm (.idle, prepared.db) (.idle, next) := by
  obtain ⟨_, _, _, _, _, turn, busy⟩ := ends.carried
  exact .head turn (Busy.turns busy)

end Prepared

/-- A transition fans out exactly where its node splits: a person decides at no parallel node. -/
theorem Prepared.Ready.fansOut_eq {prepared : Prepared} {wf : Workflow} {strict : Prop}
    (ready : prepared.Ready wf strict) {target : Edge} {outcome : String}
    (sameOutcome : target.fromOutcome = outcome) :
    prepared.mover.fansOut target = splits prepared.mover.node outcome := by
  cases decided : prepared.mover.decision with
  | false => simp [Mover.fansOut, splits, decided, sameOutcome]
  | true => simp [Mover.fansOut, splits, decided, ready.human decided]

namespace Prepared.Ready

variable {prepared : Prepared} {env : Env} {wf : Workflow} {strict calm : Prop}
  (ready : prepared.Ready wf strict) (standing : Standing wf (.idle, prepared.db))
  (lawful : strict → Linked prepared.db ∧ Recorded prepared.db)

include ready standing

theorem token : ∃ token, prepared.db.token? prepared.mover.nodeRun.token = some token := by
  obtain ⟨token, member, sameID, _⟩ := standing.keyed.placed _ ready.member
  exact ⟨token, sameID ▸ standing.keyed.token?_eq member⟩

section

include lawful

theorem finish {outcome recorded : String} {state : NodeRunState} {hand : Hand}
    (terminal : state.terminal = true)
    (takes : Takes wf prepared.db prepared.mover.nodeRun outcome hand) :
    Turn wf strict calm (.idle, prepared.db)
        (hand, prepared.db.finishNodeRun prepared.mover.nodeRun state recorded) ∧
      (state = prepared.mover.state → Mover.Moved wf strict prepared.mover
        (hand, prepared.db.finishNodeRun prepared.mover.nodeRun state recorded)) := by
  have turn : Turn wf strict calm (.idle, prepared.db)
      (hand, prepared.db.finishNodeRun prepared.mover.nodeRun state recorded) :=
    .finish recorded ready.member ready.isOpen ready.running terminal ready.idle takes
  refine ⟨turn, ?_⟩
  rintro rfl
  have row : ∃ run ∈ (prepared.db.finishNodeRun prepared.mover.nodeRun prepared.mover.state
      recorded).nodeRuns, run.stand = prepared.mover.nodeRun.stand ∧
        run.state = prepared.mover.state := by
    have updated := Table.mem_update_of_mem
      (fun run : NodeRun => decide (run.id = prepared.mover.nodeRun.id))
      (fun run => { run with
        state := prepared.mover.state, outcome := if recorded = "" then run.outcome else recorded })
      ready.member
    rw [if_pos (decide_eq_true rfl)] at updated
    exact ⟨_, updated, rfl, rfl⟩
  obtain ⟨run, member, stands, sameState⟩ := row
  refine ⟨turn.standing standing, ready.ended, ⟨run, member, stands⟩, fun isStrict => ?_,
    fun _ => ⟨run, member, stands, sameState⟩⟩
  exact ⟨turn.linked isStrict standing (lawful isStrict).1,
    turn.recorded isStrict standing (lawful isStrict).1 (lawful isStrict).2⟩

end

theorem advance_leads {outcome : String} {state : NodeRunState} {targets : List Edge}
    (resolution : prepared.resolution = .transition outcome state)
    (planned : planTransition (prepared.input env wf outcome) = .follow targets)
    (terminal : state.terminal = true) (once : strict → prepared.firesOnce env wf = true)
    (settles : calm → strict ∧ prepared.settles env wf = true) :
    ∃ hand, hand ≠ .idle ∧ Takes wf prepared.db prepared.mover.nodeRun outcome hand ∧
      (Mover.Moved wf strict prepared.mover
          (hand, prepared.db.finishNodeRun prepared.mover.nodeRun state outcome) →
        Leads wf strict calm prepared.mover.nodeRun.id (hand, prepared.db.finishNodeRun prepared.mover.nodeRun state outcome)
          (prepared.mover.advance env wf
            (prepared.db.finishNodeRun prepared.mover.nodeRun state outcome) targets)) := by
  obtain ⟨node, follows⟩ := planTransition_follow planned
  obtain rfl : prepared.mover.node = node := Option.some.inj (ready.node.symm.trans follows.found)
  obtain ⟨token, tokenFound⟩ := ready.token standing
  have isTargets : prepared.targets env wf = targets := by
    unfold Prepared.targets
    rw [resolution]
    dsimp only
    rw [planned]
  have onward := Mover.nextGroup_cases tokenFound ready.human
  have sameNext : prepared.mover.nextGroup
      (prepared.db.finishNodeRun prepared.mover.nodeRun state outcome) =
        prepared.mover.nextGroup prepared.db :=
    Mover.nextGroup_congr (RunDb.finishNodeRun_token? _) rfl
  cases targets with
  | nil => exact absurd rfl follows.nonempty
  | cons target rest =>
      obtain ⟨edge, fromNode, fromOutcome⟩ := follows.edges target List.mem_cons_self
      have fans : prepared.mover.fansOut target = splits prepared.mover.node outcome :=
        ready.fansOut_eq fromOutcome
      cases isSplit : splits prepared.mover.node outcome with
      | true =>
          rw [isSplit] at fans
          obtain ⟨⟨attempt, isParallel⟩, _⟩ : (prepared.mover.decision = false ∧
              prepared.mover.node.kind = .parallel) ∧ target.fromOutcome = outcomeSplit := by
            simpa [Mover.fansOut] using fans
          have stays : prepared.db.outerPlace prepared.mover.node token = token.group := by
            rw [RunDb.outerPlace, if_neg]
            rw [isParallel]
            exact NodeKind.noConfusion
          rw [stays] at onward
          refine ⟨.parting token.group (target :: rest), Hand.noConfusion, ?_, fun moved => ?_⟩
          · refine .parting tokenFound ready.node isSplit follows.nonempty follows.edges follows.within ?_
            have active : (prepared.input env wf outcome).activeTokens =
                prepared.db.activeTokenCount := if_pos ⟨attempt, isSplit⟩
            exact active ▸ follows.parallel isSplit
          · unfold Mover.advance
            dsimp only
            rw [sameNext]
            rcases onward with ⟨error, failed⟩ | next
            · rw [failed]
              trivial
            · rw [next]
              dsimp only
              rw [if_pos fans]
              refine Mover.fanOut_leads moved.standing (fun isStrict => ?_) (fun isCalm straight => ?_)
              · have fires := once isStrict
                rw [Prepared.firesOnce, isTargets] at fires
                exact of_decide_eq_true fires
              · have settled := (settles isCalm).2
                simp only [Prepared.settles, isTargets, fans, if_true, Workflow.settlesSplit, straight,
                  Bool.not_true, Bool.false_or, List.any_eq_true, Bool.or_eq_true,
                  Bool.not_eq_true'] at settled
                exact settled
      | false =>
          obtain rfl : rest = [] := by
            have short := follows.single isSplit
            exact List.eq_nil_of_length_eq_zero (by simpa using short)
          rw [isSplit] at fans
          refine ⟨.carrying (prepared.db.outerPlace prepared.mover.node token) target,
            Hand.noConfusion, ?_, fun moved => ?_⟩
          · exact .carrying tokenFound ready.node isSplit edge fromNode fromOutcome follows.within
          · unfold Mover.advance
            dsimp only
            rw [sameNext]
            rcases onward with ⟨error, failed⟩ | next
            · rw [failed]
              trivial
            · rw [next]
              dsimp only
              rw [fans, if_neg Bool.false_ne_true]
              refine Mover.follow_leads moved fun isCalm join found isJoin group isPlace => ?_
              obtain ⟨isStrict, settled⟩ := settles isCalm
              rw [isPlace] at next
              simp only [Prepared.settles, isTargets, fans, Bool.false_eq_true, if_false, found, next,
                isJoin, ne_eq, not_true_eq_false, decide_false, Bool.false_or] at settled
              unfold RunDb.settlesArrival RunDb.openArrivals at settled ⊢
              rw [RunDb.finishNodeRun_openJoinBarrier standing.keyed ready.member terminal
                (ready.idle isStrict).1]
              exact settled

include lawful

theorem transition_ends {outcome : String} {state : NodeRunState} {next : RunDb}
    (resolution : prepared.resolution = .transition outcome state)
    (once : strict → prepared.firesOnce env wf = true)
    (settles : calm → strict ∧ prepared.settles env wf = true)
    (carried : prepared.transition env wf outcome state = .ok next) :
    prepared.Ends wf strict calm next := by
  have sameState := ready.resolved outcome state resolution
  have terminal : state.terminal = true := sameState ▸ ready.ended
  have lastTake : Takes wf prepared.db prepared.mover.nodeRun outcome .ending := .ending
  obtain ⟨ends, endsMoved⟩ := ready.finish standing lawful terminal lastTake
  unfold Prepared.transition at carried
  dsimp only at carried
  split at carried
  · rw [← Except.ok.inj carried]
    have ended : ∀ run ∈ (prepared.db.finishNodeRun prepared.mover.nodeRun state outcome).nodeRuns,
        run.id = prepared.mover.nodeRun.id → run.state.terminal = true := by
      intro run member same
      rw [RunDb.finishNodeRun_state_eq run member same]
      exact terminal
    exact ⟨.ending, state, outcome, Hand.noConfusion, terminal, ends, Mover.failBound_turns _ _ ended⟩
  · rw [← Except.ok.inj carried]
    exact ⟨.ending, state, outcome, Hand.noConfusion, terminal, ends,
      Mover.completeRun_turns _ (endsMoved sameState)⟩
  · rw [← Except.ok.inj carried]
    exact ⟨.ending, state, outcome, Hand.noConfusion, terminal, ends,
      Mover.failRun_turns _ Hand.noConfusion (endsMoved sameState)⟩
  · rename_i targets planned
    obtain ⟨hand, held, takes, leads⟩ := ready.advance_leads standing resolution planned terminal once
      settles
    obtain ⟨turn, moved⟩ := ready.finish standing lawful terminal takes
    have led := leads (moved sameState)
    split at carried
    · rename_i advanced ran
      rw [ran] at led
      rw [← Except.ok.inj carried]
      exact ⟨hand, state, outcome, held, terminal, turn, led⟩
    · rename_i reached failure ran
      rw [ran] at led
      obtain ⟨later, stillHeld, turns⟩ := led
      rw [← Except.ok.inj carried]
      have failed : Busy wf strict calm prepared.mover.nodeRun.id (later, reached) (.idle, prepared.mover.failRun reached failure) :=
        Mover.failRun_turns failure stillHeld ((moved sameState).turns (Busy.turns turns))
      exact ⟨hand, state, outcome, held, terminal, turn, turns.trans failed⟩
    · contradiction

theorem endRun_ends {state : NodeRunState} (recorded : String) {ended : RunState} (ending : Ending)
    (terminal : state.terminal = true) (isEnded : ended.terminal = true) :
    prepared.Ends wf strict calm (
      ((prepared.db.finishNodeRun prepared.mover.nodeRun state recorded).reapRunState
        prepared.mover.nodeRun.id).updateRunState ended none ending) := by
  have lastTake : Takes wf prepared.db prepared.mover.nodeRun "" .ending := .ending
  obtain ⟨finished, _⟩ := ready.finish standing lawful terminal lastTake
  have reaped : Turn wf strict calm
      (.ending, prepared.db.finishNodeRun prepared.mover.nodeRun state recorded)
      (.ending, (prepared.db.finishNodeRun prepared.mover.nodeRun state recorded).reapRunState
        prepared.mover.nodeRun.id) := by
    refine .reap _ fun run member same => ?_
    rw [RunDb.finishNodeRun_state_eq run member same]
    exact terminal
  refine ⟨.ending, state, recorded, Hand.noConfusion, terminal, finished,
    .head ⟨Hand.noConfusion, reaped, fun _ _ => RunDb.reapRunState_endsOnly⟩
      (.single ⟨Hand.noConfusion, ?_, fun _ same => absurd same Hand.noConfusion⟩)⟩
  exact .conclude none ending isEnded (RunDb.reapRunState_activeTokenCount _)
    RunDb.retireEventRoutes_inactive

theorem carryOut_ends {next : RunDb} (once : strict → prepared.firesOnce env wf = true)
    (settles : calm → strict ∧ prepared.settles env wf = true)
    (carried : prepared.carryOut env wf = .ok next) :
    prepared.Ends wf strict calm next ∨ ∃ availableAt, prepared.resolution = .retry availableAt ∧
      next = prepared.scheduleRetry availableAt := by
  unfold Prepared.carryOut at carried
  split at carried
  · rename_i outcome state resolution
    exact Or.inl (ready.transition_ends standing lawful resolution once settles carried)
  · rw [← Except.ok.inj carried]
    exact Or.inl (ready.endRun_ends standing lawful "" _ rfl rfl)
  · rename_i availableAt resolution
    exact Or.inr ⟨availableAt, resolution, (Except.ok.inj carried).symm⟩
  · rw [← Except.ok.inj carried]
    exact Or.inl (ready.endRun_ends standing lawful prepared.mover.outcome _ ready.ended rfl)

theorem carryOut_turns {next : RunDb} (once : strict → prepared.firesOnce env wf = true)
    (settles : calm → strict ∧ prepared.settles env wf = true)
    (carried : prepared.carryOut env wf = .ok next) :
    Turns wf strict calm (.idle, prepared.db) (.idle, next) := by
  rcases ready.carryOut_ends standing lawful once settles carried with ends | ⟨availableAt, resolution, rfl⟩
  · exact ends.turns
  · refine .single (.retry availableAt ready.member ready.isOpen ready.running fun isStrict => ?_)
    obtain ⟨notJoin, idle⟩ := ready.idle isStrict
    exact ⟨notJoin, ready.again availableAt resolution isStrict, idle⟩

end Prepared.Ready

theorem loadWorkflow_ok {wf : Workflow} {run : NodeRun} {node : Node}
    (loaded : loadWorkflow wf run = .ok node) : wf.node? run.node = some node := by
  unfold loadWorkflow at loaded
  split at loaded
  · contradiction
  · rename_i found
    rw [found, Except.ok.inj loaded]

theorem nodeRun?_some {db : RunDb} {id : Nat} {run : NodeRun} (found : db.nodeRun? id = some run) :
    run ∈ db.nodeRuns ∧ run.id = id :=
  ⟨List.mem_of_find?_eq_some found, by simpa using List.find?_some found⟩

section

variable {env : Env} {wf : Workflow} {strict calm : Prop} {db : RunDb} {now : Nat}

theorem CompletionRequest.guard_ok {req : CompletionRequest} {held : RunDb} {run : NodeRun}
    (guarded : req.guard db = .ok (held, run)) :
    ∃ work, db.work.completeWork req.claim = some work ∧
      db.work.nodeRunOf req.claim.work = some run.id ∧ held = { db with work := work } ∧
      run ∈ db.nodeRuns ∧ run.state.terminal = false ∧ db.state.terminal = false := by
  unfold CompletionRequest.guard at guarded
  split at guarded
  · contradiction
  · rename_i owner named
    split at guarded
    · contradiction
    · rename_i work completed
      split at guarded
      · contradiction
      · rename_i row found
        split at guarded
        · contradiction
        · rename_i isOpen
          split at guarded
          · contradiction
          · rename_i running
            obtain ⟨isHeld, isRun⟩ := Prod.mk.inj (Except.ok.inj guarded)
            obtain ⟨member, sameID⟩ := nodeRun?_some found
            rw [← isRun]
            refine ⟨work, completed, sameID ▸ named, isHeld.symm, member, ?_, ?_⟩
            · simpa using isOpen
            · simpa using running

theorem CompletionRequest.prepare_ok {req : CompletionRequest} {prepared : Prepared}
    (isPrepared : req.prepare env wf db now = .ok prepared) :
    ∃ work run node status rejected, db.work.completeWork req.claim = some work ∧
      db.work.nodeRunOf req.claim.work = some run.id ∧ run ∈ db.nodeRuns ∧ run.state.terminal = false ∧
      db.state.terminal = false ∧ wf.node? run.node = some node ∧
      prepared = ⟨RunDb.insertAttempt { db with work := work } run.id (db.nextAttemptNumber run.id) status,
        ⟨false, run, node, CompletionRequest.endState status,
          if status = .succeeded then req.outcome else "", req.output, now⟩,
        req.resolve env wf node status (db.nextAttemptNumber run.id) now rejected⟩ := by
  unfold CompletionRequest.prepare at isPrepared
  split at isPrepared
  · contradiction
  · split at isPrepared
    · contradiction
    · rename_i held run guarded
      split at isPrepared
      · contradiction
      · rename_i node loaded
        obtain ⟨work, completed, named, rfl, member, isOpen, running⟩ := CompletionRequest.guard_ok guarded
        exact ⟨work, run, node, _, _, completed, named, member, isOpen, running, loadWorkflow_ok loaded,
          (Except.ok.inj isPrepared).symm⟩

theorem CompletionRequest.endState_terminal (status : TechStatus) :
    (CompletionRequest.endState status).terminal = true := by
  cases status <;> rfl

theorem CompletionRequest.resolve_transition {req : CompletionRequest} {node : Node}
    {status : TechStatus} {number : Nat} {rejected : Option String} {outcome : String}
    {state : NodeRunState}
    (resolved : req.resolve env wf node status number now rejected = .transition outcome state) :
    state = CompletionRequest.endState status := by
  have failed : req.failOrRetry env wf node status number now rejected = .transition outcome state →
      state = .failed := by
    intro failing
    unfold CompletionRequest.failOrRetry at failing
    extract_lets budget refusal at failing
    split at failing
    · split at failing
      · exact (Resolution.transition.inj failing).2.symm
      · contradiction
    · split at failing
      · contradiction
      · split at failing
        · exact (Resolution.transition.inj failing).2.symm
        · contradiction
  cases status with
  | succeeded => exact (Resolution.transition.inj resolved).2.symm
  | cancelled => exact absurd resolved Resolution.noConfusion
  | failed => exact failed resolved
  | timedOut => exact failed resolved
  | policyDenied => exact failed resolved
  | contractRejected => exact failed resolved

/-- An attempt's report has found a node run that is out for dispatch and holds its only item. -/
theorem CompletionRequest.prepare_ready {req : CompletionRequest} {prepared : Prepared}
    (keyed : Keyed wf db) (lawful : strict → Linked db ∧ Recorded db)
    (isPrepared : req.prepare env wf db now = .ok prepared) :
    Turns wf strict calm (.idle, db) (.idle, prepared.db) ∧ prepared.Ready wf strict := by
  obtain ⟨work, run, node, status, rejected, completed, named, member, isOpen, running, found, rfl⟩ :=
    CompletionRequest.prepare_ok isPrepared
  have isHeld : Turn wf strict calm (.idle, db) (.idle, { db with work := work }) :=
    .hold completed running
  have out : strict → run.state.dispatched = true ∧
      ∀ item ∈ work.items, item.nodeRun = run.id → item.live = false := by
    intro isStrict
    obtain ⟨⟨row, rowMember, sameID, isOut⟩, idle⟩ := (lawful isStrict).1.hold_owner completed named
    exact ⟨keyed.run_eq rowMember member sameID ▸ isOut, idle⟩
  refine ⟨.head isHeld (.single (.note _ _)), ?_⟩
  refine ⟨member, isOpen, running, found, ?_, CompletionRequest.endState_terminal _, ?_, ?_, ?_⟩
  · exact fun decided => absurd decided Bool.false_ne_true
  · intro isStrict
    refine ⟨fun waits => ?_, (out isStrict).2⟩
    have isOut := (out isStrict).1
    rw [waits] at isOut
    contradiction
  · exact fun _ _ resolved => CompletionRequest.resolve_transition resolved
  · intro _ _ isStrict waits
    have isOut := (out isStrict).1
    rw [waits] at isOut
    contradiction

theorem DecisionRequest.guard_ok {req : DecisionRequest} {task : HumanTask} {run : NodeRun}
    (guarded : req.guard db = .ok (task, run)) :
    run ∈ db.nodeRuns ∧ run.state = .waitingHuman ∧ db.state.terminal = false ∧
      task ∈ db.humanTasks ∧ task.id = req.task ∧ run.id = task.nodeRun := by
  unfold DecisionRequest.guard at guarded
  split at guarded
  · contradiction
  · rename_i asked isAsked
    split at guarded
    · contradiction
    · split at guarded
      · contradiction
      · rename_i row found
        split at guarded
        · contradiction
        · split at guarded
          · contradiction
          · rename_i waits
            split at guarded
            · contradiction
            · rename_i running
              obtain ⟨rfl, rfl⟩ := Prod.mk.inj (Except.ok.inj guarded)
              obtain ⟨member, sameID⟩ := nodeRun?_some found
              exact ⟨member, not_not.mp waits, by simpa using running,
                List.mem_of_find?_eq_some isAsked, by simpa using List.find?_some isAsked, sameID⟩

theorem DecisionRequest.prepare_ok {req : DecisionRequest} {prepared : Prepared}
    (isPrepared : req.prepare wf db now = .ok prepared) :
    ∃ task run node, task ∈ db.humanTasks ∧ task.id = req.task ∧ run.id = task.nodeRun ∧
      run ∈ db.nodeRuns ∧ run.state = .waitingHuman ∧ db.state.terminal = false ∧
      wf.node? run.node = some node ∧
      prepared = ⟨req.resolveTask db, ⟨true, run, node, .completed, req.outcome, req.response, now⟩,
        .transition req.outcome .completed⟩ := by
  unfold DecisionRequest.prepare at isPrepared
  split at isPrepared
  · contradiction
  · split at isPrepared
    · contradiction
    · rename_i task run guarded
      split at isPrepared
      · contradiction
      · rename_i node loaded
        split at isPrepared
        · contradiction
        · obtain ⟨member, waits, running, asked, named, owns⟩ := DecisionRequest.guard_ok guarded
          exact ⟨task, run, node, asked, named, owns, member, waits, running, loadWorkflow_ok loaded,
            (Except.ok.inj isPrepared).symm⟩

/-- A decision has found an approval node that waits for a person. -/
theorem DecisionRequest.prepare_ready {req : DecisionRequest} {prepared : Prepared}
    (keyed : Keyed wf db) (lawful : strict → Linked db ∧ Recorded db)
    (isPrepared : req.prepare wf db now = .ok prepared) :
    Turns wf strict calm (.idle, db) (.idle, prepared.db) ∧ prepared.Ready wf strict := by
  obtain ⟨_, run, node, _, _, _, member, waits, running, found, rfl⟩ :=
    DecisionRequest.prepare_ok isPrepared
  have isApproval : node.kind = .approval := by
    have kind := keyed.human run member waits
    rw [wf.kind?_of_node? found] at kind
    exact Option.some.inj kind
  refine ⟨.single (.note _ _), ?_⟩
  refine ⟨member, ?_, running, found, fun _ => isApproval, rfl, fun isStrict => ⟨?_, ?_⟩, ?_, ?_⟩
  · simp [waits, NodeRunState.terminal]
  · simp [waits]
  · refine (lawful isStrict).1.worked.idle_of_not_dispatched keyed member ?_
    simp [waits, NodeRunState.dispatched]
  · exact fun _ _ resolved => (Resolution.transition.inj resolved).2.symm
  · exact fun _ resolved => absurd resolved Resolution.noConfusion

end

/-- The condition under which a step is strict: a split that it makes fires one barrier at most. -/
def FanOutSafe (env : Env) (wf : Workflow) (db : RunDb) (action : Action) : Prop :=
  ∀ prepared ∈ action.prepare env wf db, prepared.firesOnce env wf = true

/-- The condition under which a step is calm: the last branch of a group to arrive fires the barrier
it arrives at, or the run is failed. -/
def GroupsSettle (env : Env) (wf : Workflow) (db : RunDb) (action : Action) : Prop :=
  ∀ prepared ∈ action.prepare env wf db, prepared.settles env wf = true

section

variable {env : Env} {wf : Workflow} {strict calm : Prop} {db next : RunDb}

theorem checkPickupBounds_none {limits : Limits} {target : String} {transitions visits active : Nat}
    (passed : checkPickupBounds limits target transitions visits active = none) :
    (0 < limits.maxTransitions → transitions + 1 ≤ limits.maxTransitions) ∧
      (0 < limits.maxVisitsPerNode → visits + 1 ≤ limits.maxVisitsPerNode) ∧
      (0 < limits.maxParallelTokens → active + 1 ≤ limits.maxParallelTokens) := by
  unfold checkPickupBounds at passed
  split at passed
  · contradiction
  · split at passed
    · contradiction
    · split at passed
      · contradiction
      · omega

/-- A pickup puts a token at the target of an event edge, or leaves the rows alone. -/
theorem pickUpRoute_turns {route now : Nat} {event : PickupEvent} (keyed : Keyed wf db)
    (picked : pickUpRoute env wf db route event now = some next) :
    Turns wf strict calm (.idle, db) (.idle, next) := by
  unfold pickUpRoute at picked
  split at picked
  · contradiction
  · rename_i row found
    have done := toOption_some picked
    unfold pickUpEvent at done
    split at done
    · rw [Except.ok.inj done]
    · rename_i running
      split at done
      · contradiction
      · rename_i edge isEdge
        split at done
        · contradiction
        · rename_i node target
          split at done
          · rw [Except.ok.inj done]
          · rename_i allowed
            rw [← Except.ok.inj done]
            have matched := List.find?_some isEdge
            simp only [Bool.and_eq_true, decide_eq_true_eq] at matched
            have named := keyed.routes row (List.mem_of_find?_eq_some found)
            simp only [pickupRefused, Bool.or_eq_true, not_or, Bool.not_eq_true,
              Option.isSome_eq_false_iff, Option.isNone_iff_eq_none] at allowed
            obtain ⟨transitions, visits, active⟩ := checkPickupBounds_none allowed.2
            refine .single (.pickUp event.id now (by simpa using running)
              (List.mem_of_find?_eq_some isEdge) (matched.1.1.symm ▸ named)
              (matched.1.2.symm ▸ target) ⟨fun isSet => transitions isSet, fun isSet name member => ?_⟩
              active)
            rw [List.map_singleton, List.mem_singleton] at member
            rw [member, List.map_singleton, List.count_singleton_self, matched.1.2]
            exact visits isSet

/-- Every action on a run is a series of turns. -/
theorem act_turns {action : Action} (standing : Standing wf (.idle, db))
    (lawful : strict → Linked db ∧ Recorded db) (once : strict → FanOutSafe env wf db action)
    (settles : calm → strict ∧ GroupsSettle env wf db action)
    (acted : db.act env wf action = some next) : Turns wf strict calm (.idle, db) (.idle, next) := by
  have carried : ∀ {prepared : Prepared}, action.prepare env wf db = some prepared →
      (Turns wf strict calm (.idle, db) (.idle, prepared.db) ∧ prepared.Ready wf strict) →
      prepared.carryOut env wf = .ok next → Turns wf strict calm (.idle, db) (.idle, next) := by
    intro prepared isPrepared both done
    obtain ⟨turns, ready⟩ := both
    refine turns.trans (ready.carryOut_turns (Turns.standing turns standing) (fun isStrict => ?_)
      (fun isStrict => once isStrict prepared isPrepared)
      (fun isCalm => ⟨(settles isCalm).1, (settles isCalm).2 prepared isPrepared⟩) done)
    exact Turns.linked turns isStrict standing (lawful isStrict).1 (lawful isStrict).2
  cases action with
  | complete req now =>
      obtain ⟨prepared, isPrepared, done⟩ := completeAttempt_ok (toOption_some acted)
      exact carried (congrArg Except.toOption isPrepared)
        (CompletionRequest.prepare_ready standing.keyed lawful isPrepared) done
  | decide req now =>
      obtain ⟨prepared, isPrepared, done⟩ := decideHumanTask_ok (toOption_some acted)
      exact carried (congrArg Except.toOption isPrepared)
        (DecisionRequest.prepare_ready standing.keyed lawful isPrepared) done
  | pickUp route event now => exact pickUpRoute_turns standing.keyed acted
  | cancel parkedAt detail => exact .single (.cancel acted)
  | work action => exact .single (.work acted)

end

/-- A run as it is created: one token at the entry node. -/
structure Created (wf : Workflow) (db : RunDb) : Prop where
  standing : Standing wf (.idle, db)
  linked : Linked db
  recorded : Recorded db
  state : db.state = .running
  ending : db.ending = none
  tokens : db.tokens = [⟨0, wf.entry, true, none, none, none⟩]
  entered : ∃ state, db.nodeRuns = [⟨1, 0, wf.entry, state, ""⟩]
  tokenGroups : db.tokenGroups = []
  joinArrivals : db.joinArrivals = []
  unfired : ∀ group, db.firedIn group = false

/-- The routes are added to the rows, and nothing else changes but the counter. -/
theorem RunDb.materializeEventRoutes_eq (db : RunDb) (edges : List Edge) :
    ∃ routes limit, db.materializeEventRoutes edges =
        { db with eventRoutes := db.eventRoutes ++ routes, nextID := limit } ∧
      db.nextID ≤ limit ∧ ∀ route ∈ routes, ∃ edge ∈ edges,
        (edge.onEvent, edge.target, edge.guard) = (route.eventName, route.targetNode, route.guard) := by
  induction edges generalizing db with
  | nil => exact ⟨[], db.nextID, by simp [materializeEventRoutes], Nat.le_refl _, by simp⟩
  | cons edge rest ih =>
      obtain ⟨routes, limit, isSame, grows, named⟩ := ih
        { db with
          eventRoutes := db.eventRoutes ++
            [{ id := db.nextID, eventName := edge.onEvent, targetNode := edge.target,
               guard := edge.guard }]
          nextID := db.nextID + 1 }
      refine ⟨⟨db.nextID, edge.onEvent, edge.target, edge.guard, true⟩ :: routes, limit, ?_, ?_, ?_⟩
      · rw [materializeEventRoutes, isSame]
        simp
      · exact Nat.le_of_succ_le grows
      · intro route member
        rcases List.mem_cons.mp member with rfl | later
        · exact ⟨edge, List.mem_cons_self, rfl⟩
        · obtain ⟨source, sourceMember, same⟩ := named route later
          exact ⟨source, List.mem_cons_of_mem _ sourceMember, same⟩

/-- A run that is created: its entry node is entered and dispatched, and a route stands for each event
edge. -/
theorem createRun_ok {env : Env} {wf : Workflow} {input : Payload} {now : Nat} {db : RunDb}
    (made : createRun env wf input now = .ok db) :
    ∃ entry routes limit, wf.node? wf.entry = some entry ∧ 2 ≤ limit ∧
      (∀ route ∈ routes, ∃ edge ∈ wf.eventEdges,
        (edge.onEvent, edge.target, edge.guard) = (route.eventName, route.targetNode, route.guard)) ∧
      db = RunDb.dispatchNode
        { RunDb.insertNodeRun (RunDb.insertToken { input := input, createdAt := now } wf.entry none none none)
            0 wf.entry (dispatchState entry.kind) with eventRoutes := routes, nextID := limit } entry 1 now := by
  unfold createRun at made
  split at made
  · contradiction
  · split at made
    · contradiction
    · rename_i entry found
      obtain ⟨routes, limit, isSame, grows, named⟩ := RunDb.materializeEventRoutes_eq
        (RunDb.insertNodeRun (RunDb.insertToken { input := input, createdAt := now } wf.entry none none none)
          0 wf.entry (dispatchState entry.kind)) wf.eventEdges
      refine ⟨entry, routes, limit, found, grows, named, ?_⟩
      rw [← Except.ok.inj made]
      exact congrArg (fun rows => RunDb.dispatchNode rows entry 1 now) isSame

theorem createRun_created {env : Env} {wf : Workflow} {input : Payload} {now : Nat} {db : RunDb}
    (made : createRun env wf input now = .ok db) : Created wf db := by
  obtain ⟨entry, routes, limit, found, grows, named, isMade⟩ := createRun_ok made
  let empty : RunDb := { input := input, createdAt := now }
  have emptyKeyed : Keyed wf empty := by
    constructor <;> simp [empty, RunDb.groupTree]
    exact .nil
  have emptyLinked : Linked empty := by
    refine ⟨⟨by simp [empty], by simp [empty], fun ended => absurd ended Bool.false_ne_true⟩,
      ⟨⟨by simp [empty], by simp [empty]⟩, by simp [empty], by simp [empty], by simp [empty]⟩⟩
  have emptyRecorded : Recorded empty := ⟨by simp [empty], by simp [empty], by simp [empty]⟩
  have noPlace : Forest.Valid empty.groupTree none := fun key isKey => by simp at isKey
  let entered := (empty.insertToken wf.entry none none none).insertNodeRun empty.nextID wf.entry
    (dispatchState entry.kind)
  have declared : wf.kind? entry.id = some entry.kind := wf.node?_declared found
  have sameEntry : entry.id = wf.entry := wf.node?_id found
  have enteredKeyed : Keyed wf entered := by
    refine emptyKeyed.insertPair noPlace (fun waits => ?_) fun waits => ?_
    · exact sameEntry ▸ Keyed.human_of_dispatchState declared waits
    · exact absurd waits Keyed.dispatchState_ne_waitingJoin
  have enteredLinked : Linked entered :=
    emptyLinked.insertPair emptyKeyed rfl Linked.dispatchState_open
  have enteredRecorded : Recorded entered := emptyRecorded.insertPair emptyKeyed noPlace
  let routed : RunDb := { entered with eventRoutes := routes, nextID := limit }
  have routedKeyed : Keyed wf routed := by
    refine { enteredKeyed.advanceID grows with routes := fun route member => ?_ }
    obtain ⟨edge, edgeMember, same⟩ := named route member
    rw [← (Prod.mk.inj same).1]
    simpa using (List.mem_filter.mp edgeMember).2
  have routedLinked : Linked routed :=
    ⟨⟨enteredLinked.paired.mirrored, enteredLinked.paired.manned,
      fun ended => absurd ended Bool.false_ne_true⟩, enteredLinked.worked.congr rfl rfl⟩
  have routedRecorded : Recorded routed := enteredRecorded.congr rfl rfl
  let first : NodeRun := ⟨1, 0, wf.entry, dispatchState entry.kind, ""⟩
  have firstMember : first ∈ routed.nodeRuns := List.mem_singleton.mpr rfl
  have linked : Linked (routed.dispatchNode entry first.id now) := by
    unfold RunDb.dispatchNode
    split
    · exact routedLinked.congr rfl rfl rfl rfl rfl
    · rename_i notApproval
      refine ⟨routedLinked.paired.congr rfl rfl rfl rfl,
        routedLinked.worked.enqueueWork routedKeyed now firstMember ?_ ?_⟩
      · simp [first, dispatchState, notApproval, NodeRunState.dispatched]
      · intro item member
        simp [routed, entered, empty, RunDb.insertNodeRun, RunDb.insertToken] at member
  rw [isMade]
  refine ⟨⟨routedKeyed.dispatchNode entry now ?_, trivial, fun held => absurd rfl held⟩, linked,
    routedRecorded.dispatchNode first entry now firstMember Linked.dispatchState_open, ?_, ?_, ?_, ?_,
    ?_, ?_, ?_⟩
  · exact Nat.lt_of_lt_of_le (Nat.lt_succ_self 1) grows
  · exact RunDb.dispatchNode_state
  · unfold RunDb.dispatchNode
    split <;> rfl
  · exact RunDb.dispatchNode_tokens
  · exact ⟨_, RunDb.dispatchNode_nodeRuns⟩
  · exact RunDb.dispatchNode_tokenGroups
  · exact RunDb.dispatchNode_joinArrivals
  · intro group
    unfold RunDb.dispatchNode
    split <;> rfl

/-- A run is a series of turns from its creation, strict and calm where its steps meet the
conditions. -/
theorem Reaches.turns {env : Env} {wf : Workflow} {allowed : RunDb → Action → Prop} {db : RunDb}
    (strict calm : Prop) (reaches : Reaches env wf allowed db)
    (once : strict → ∀ db action, allowed db action → FanOutSafe env wf db action)
    (settles : calm → strict ∧ ∀ db action, allowed db action → GroupsSettle env wf db action) :
    ∃ created, Created wf created ∧ Turns wf strict calm (.idle, created) (.idle, db) := by
  obtain ⟨input, now, created, made, steps⟩ := reaches
  have initial := createRun_created made
  refine ⟨created, initial, ?_⟩
  refine steps.invariant (fun db => Turns wf strict calm (.idle, created) (.idle, db)) .refl ?_
  intro here action next turns isAllowed stepped
  refine turns.trans (act_turns (Turns.standing turns initial.standing) (fun isStrict => ?_)
    (fun isStrict => once isStrict here action isAllowed)
    (fun isCalm => ⟨(settles isCalm).1, (settles isCalm).2 here action isAllowed⟩) stepped)
  exact Turns.linked turns isStrict initial.standing initial.linked initial.recorded

end CultureNodes.Engine
