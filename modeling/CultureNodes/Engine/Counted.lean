import CultureNodes.Engine.Count

/-!
What every run keeps, seen as a nest: a group fires once, and while the run goes on its counts are
sound. Without event edges the entry's token, or what became of it, is all there is outside groups.
-/

namespace CultureNodes.Engine

/-- The counts of a run, as far as it has not ended, and that each group has fired once at most. -/
structure Counted (wf : Workflow) (here : Hand × RunDb) : Prop where
  once : here.2.firedGroups.Nodup
  parts : ∀ place edges, here.1 = .parting place edges → edges ≠ []
  game : here.1 ≠ .ending → here.2.state.terminal = false → Game wf here

section

variable {wf : Workflow} {db next : RunDb}

theorem workStatement_tokens {action : Store.WorkAction} (acted : db.workStatement wf action = some next) :
    next.tokens = db.tokens ∧ next.tokenGroups = db.tokenGroups ∧
      next.joinArrivals = db.joinArrivals ∧
      (next.state.terminal = false → db.state.terminal = false) := by
  obtain ⟨_, after, _, performed, cases_⟩ := RunDb.workStatement_eq_some acted
  have frozen : ∀ rows : RunDb, (rows.freeze action).tokens = rows.tokens ∧
      (rows.freeze action).tokenGroups = rows.tokenGroups ∧
      (rows.freeze action).joinArrivals = rows.joinArrivals := by
    intro rows
    unfold RunDb.freeze
    split <;> exact ⟨rfl, rfl, rfl⟩
  have marked : ∀ (rows : RunDb) (owner : Nat), (rows.markFor action owner).tokens = rows.tokens ∧
      (rows.markFor action owner).tokenGroups = rows.tokenGroups ∧
      (rows.markFor action owner).joinArrivals = rows.joinArrivals ∧
      (rows.markFor action owner).state = rows.state := by
    intro rows owner
    unfold RunDb.markFor
    split <;> exact ⟨rfl, rfl, rfl, rfl⟩
  have running : ∀ rows : RunDb, rows.state = db.state →
      (rows.freeze action).state.terminal = false → db.state.terminal = false := by
    intro rows same
    unfold RunDb.freeze
    split
    · -- A freeze is refused on a run that has ended.
      intro _
      rename_i isFreeze
      simp only [Store.WorkSystem.act] at performed
      split at performed
      · contradiction
      · rename_i notEnded
        simpa using notEnded
    · rw [same]
      exact id
  rcases cases_ with ⟨_, rfl⟩ | ⟨owner, _, rfl⟩
  · obtain ⟨tokens, groups, arrivals⟩ := frozen { db with work := after.tables }
    exact ⟨tokens, groups, arrivals, running _ rfl⟩
  · obtain ⟨tokens, groups, arrivals⟩ := frozen (RunDb.markFor { db with work := after.tables } action owner)
    obtain ⟨sameTokens, sameGroups, sameArrivals, sameState⟩ :=
      marked { db with work := after.tables } owner
    exact ⟨tokens.trans sameTokens, groups.trans sameGroups, arrivals.trans sameArrivals,
      running _ sameState⟩

theorem Barriers.workStatement (barriers : Barriers wf db) (keyed : Keyed wf db) (linked : Linked db)
    {action : Store.WorkAction} (acted : db.workStatement wf action = some next) :
    Barriers wf next := by
  obtain ⟨tokens, _, arrivals, _⟩ := workStatement_tokens acted
  have fired := RunDb.workStatement_firedGroups acted
  obtain ⟨isCode, after, worker, performed, cases_⟩ := RunDb.workStatement_eq_some acted
  have frozen : ∀ rows : RunDb, (rows.freeze action).nodeRuns = rows.nodeRuns := by
    intro rows
    unfold RunDb.freeze
    split <;> rfl
  rcases cases_ with ⟨_, rfl⟩ | ⟨owner, named, rfl⟩
  · exact barriers.congr (frozen _) (congrArg (List.map Token.stand) tokens) arrivals fired
  · obtain ⟨row, rowMember, isOwner, isOut⟩ := linked.owner_dispatched performed named
    have openRow : ∀ run ∈ db.nodeRuns, run.id = owner → run.state.terminal = false ∧
        run.state ≠ .waitingJoin := by
      intro run member same
      rw [keyed.run_eq member rowMember (same.trans isOwner.symm)]
      refine ⟨NodeRunState.not_terminal_of_dispatched isOut, fun waits => ?_⟩
      rw [waits] at isOut
      contradiction
    have marks : ∀ (expected : NodeRunState → Bool) (state : NodeRunState), state.dispatched = true →
        (RunDb.markFor { db with work := after.tables } action owner).nodeRuns =
          (RunDb.markNodeRun { db with work := after.tables } owner expected state).nodeRuns →
        Barriers wf ((RunDb.markFor { db with work := after.tables } action owner).freeze action) := by
      intro expected state dispatched same
      refine barriers.rewriteRuns ((frozen _).trans same) (fun _ => rfl) (fun run member hit => ?_)
        (congrArg (List.map Token.stand) tokens) arrivals fired
      simp only [Bool.and_eq_true, decide_eq_true_eq] at hit
      obtain ⟨isOpen, notParked⟩ := openRow run member hit.1
      refine Or.inr ⟨isOpen, notParked, fun waits => ?_⟩
      have isWaiting : state = .waitingJoin := waits
      rw [isWaiting] at dispatched
      contradiction
    have unmarked : (RunDb.markFor { db with work := after.tables } action owner).nodeRuns =
        db.nodeRuns →
        Barriers wf ((RunDb.markFor { db with work := after.tables } action owner).freeze action) :=
      fun same => barriers.congr ((frozen _).trans same) (congrArg (List.map Token.stand) tokens)
        arrivals fired
    cases action with
    | startAsyncWait _ _ => exact marks (fun _ => true) .waitingExternal rfl rfl
    | startDurableWait _ _ _ => exact marks (fun _ => true) .waitingExternal rfl rfl
    | startDurableSignalWait _ _ _ => exact marks (fun _ => true) .waitingExternal rfl rfl
    | resumeWaitingWork _ _ _ => exact marks (· = .waitingExternal) .running rfl rfl
    | reparkResumedWork _ => exact marks (· = .running) .waitingExternal rfl rfl
    | _ => exact unmarked rfl

end

section

variable {wf : Workflow} {strict calm : Prop} {db : RunDb} {here there : Hand × RunDb}

theorem Workflow.barrierAt_of_ne {node : Node} {name : String} (id : Nat) (place : Option Nat)
    (found : wf.node? name = some node) (notJoin : node.kind ≠ .join) :
    wf.barrierAt (id, node.id, place) = false := by
  have declared := wf.node?_declared found
  simp [barrierAt, declared, notJoin]

theorem Hand.spreading_holds (group : Nat) (edge : Edge) (rest : List Edge) (other : Option Nat) :
    (Hand.spreading group (edge :: rest)).holds other =
      (Hand.spreading group rest).holds other + if other = some group then 1 else 0 := by
  by_cases same : other = some group
  · simp [holds, same]
  · simp [holds, same]

/-- A token that is made and consumed at once counts nowhere. -/
theorem nest_insertConsumed (keyed : Keyed wf db) (hand : Hand) (node : String)
    (parent group : Option Nat) (originEvent : Option String) :
    nest wf hand ((db.insertToken node parent group originEvent).consumeToken db.nextID) =
      nest wf hand db := by
  have counts : ∀ holds,
      ((db.insertToken node parent group originEvent).consumeToken db.nextID).activeCount holds =
        db.activeCount holds := by
    intro holds
    rw [RunDb.activeCount_append keyed.insertConsumed_tokens]
    rfl
  exact nest_congr rfl rfl rfl (fun place => by rw [counts]) fun key => counts _

/-- An event brings a token of its own into the run. -/
theorem nest_pickUp {node : Node} (event : String) (now : Nat) :
    nest wf .idle (db.startNode node none none (some event) now) = (nest wf .idle db).enter := by
  have noBarrier : wf.barrierAt (db.nextID, node.id, none) = false := by simp [Workflow.barrierAt]
  ext1
  · simp [nest, Nest.enter, RunDb.groupTree]
  · funext group
    simp [nest, Nest.enter, RunDb.cardinalityOf, RunDb.tokenGroup?]
  · funext group
    simp [nest, Nest.enter, RunDb.arrivedIn]
  · funext group
    simp [nest, Nest.enter, RunDb.firedIn_eq]
  · funext place
    simp only [nest]
    rw [RunDb.activeCount_append RunDb.startNode_tokens]
    by_cases isNone : place = none
    · subst isNone
      simp [Nest.enter, Workflow.branchIn, Token.stand, noBarrier]
      rfl
    · have elsewhere : ¬ none = place := fun same => isNone same.symm
      simp [Nest.enter, Workflow.branchIn, Token.stand, isNone, elsewhere]
  · funext group
    simp only [nest, Nest.enter]
    rw [RunDb.activeCount_append RunDb.startNode_tokens]
    simp [Workflow.barrierIn, Token.stand]

theorem Turn.counted (turn : Turn wf strict calm here there) (isStrict : strict)
    (standing : Standing wf here) (linked : Linked here.2) (counted : Counted wf here) :
    Counted wf there := by
  obtain ⟨keyed, lies, busy⟩ := standing
  obtain ⟨once, parts, game⟩ := counted
  cases turn with
  | @note db tasks attempts =>
      exact ⟨once, parts, fun held running =>
        (game held running).congr ((game held running).barriers.congr rfl rfl rfl rfl) rfl⟩
  | @work db next action acted =>
      obtain ⟨tokens, groups, arrivals, wasRunning⟩ := workStatement_tokens acted
      have fired := RunDb.workStatement_firedGroups acted
      refine ⟨fired ▸ once, parts, fun held running => ?_⟩
      have before := game held (wasRunning running)
      refine before.congr (before.barriers.workStatement keyed linked acted) ?_
      exact nest_congr groups arrivals fired (fun place => by rw [RunDb.activeCount_congr tokens])
        fun group => RunDb.activeCount_congr tokens
  | @hold db claim work _ running =>
      have before := game Hand.noConfusion running
      exact ⟨once, parts, fun _ _ => before.congr (before.barriers.congr rfl rfl rfl rfl) rfl⟩
  | @retry db own availableAt member isOpen running idle =>
      have before := game Hand.noConfusion running
      refine ⟨once, parts, fun _ _ => before.congr ?_ rfl⟩
      refine before.barriers.rewriteRuns rfl (fun _ => rfl) (fun run runMember hit => ?_) rfl rfl rfl
      rw [keyed.run_eq runMember member (of_decide_eq_true hit)]
      exact Or.inr ⟨isOpen, (idle isStrict).1, NodeRunState.noConfusion⟩
  | @pickUp db edge next event now running member named found _ _ =>
      have before := game Hand.noConfusion running
      refine ⟨?_, parts, fun _ _ => ⟨?_, ?_, fun noEvents => ?_⟩⟩
      · rw [RunDb.startNode_firedGroups]
        exact once
      · exact nest_pickUp event now ▸ before.sound.enter
      · exact before.barriers.startNode keyed none none (some event) now (by simp [Workflow.barrierAt])
      · have isEvent : edge ∈ wf.eventEdges :=
          List.mem_filter.mpr ⟨member, decide_eq_true named⟩
        rw [noEvents] at isEvent
        contradiction
  | @cancel db next parkedAt detail cancelled =>
      obtain ⟨fired, terminal⟩ := RunDb.cancelRunGuarded_firedGroups cancelled
      refine ⟨fired ▸ once, parts, fun _ running => ?_⟩
      rw [terminal] at running
      contradiction
  | @finish db own state outcome hand recorded member isOpen running terminal idle takes =>
      refine ⟨once, ?_, fun held _ => ?_⟩
      · intro place edges isParting
        cases takes with
        | ending => contradiction
        | carrying _ _ _ _ _ _ _ => contradiction
        | parting _ _ _ nonempty _ _ _ =>
            cases isParting
            exact nonempty
      · exact (game Hand.noConfusion running).finish recorded keyed linked member isOpen
          (idle isStrict).1 terminal takes held
  | @put db place edge next parent now found notJoin _ =>
      have before := game Hand.noConfusion (busy Hand.noConfusion)
      have noBarrier := Workflow.barrierAt_of_ne db.nextID place found notJoin
      refine ⟨?_, fun _ _ => Hand.noConfusion, fun _ _ => ?_⟩
      · rw [RunDb.startNode_firedGroups]
        exact once
      · refine before.congr (before.barriers.startNode keyed parent place none now noBarrier) ?_
        exact nest_startNode parent none now noBarrier fun other => (Nat.zero_add _).symm
  | @reachEnd db place edge next parent found isEnd =>
      exact ⟨once, fun _ _ => Hand.noConfusion, fun held _ => absurd rfl held⟩
  | @arrive db group edge join token fromNode outcome output found isJoin =>
      have before := game Hand.noConfusion (busy Hand.noConfusion)
      refine ⟨?_, fun _ _ => Hand.noConfusion, fun _ _ => ?_⟩
      · rw [RunDb.gather_firedGroups]
        exact once
      · exact before.gather keyed linked (isJoin ▸ wf.node?_declared found) lies
          fun other => (Nat.zero_add _).symm
  | @split db place edges nodeRun =>
      have before := game Hand.noConfusion (busy Hand.noConfusion)
      exact ⟨once, fun _ _ => Hand.noConfusion, fun _ _ =>
        before.split nodeRun keyed lies (parts place edges rfl)⟩
  | @putBranch db group edge rest next parent now found notJoin =>
      have before := game Hand.noConfusion (busy Hand.noConfusion)
      have noBarrier := Workflow.barrierAt_of_ne db.nextID (some group) found notJoin
      refine ⟨?_, fun _ _ => Hand.noConfusion, fun _ _ => ?_⟩
      · rw [RunDb.startNode_firedGroups]
        exact once
      · refine before.congr (before.barriers.startNode keyed parent (some group) none now noBarrier) ?_
        exact nest_startNode parent none now noBarrier (Hand.spreading_holds group edge rest)
  | @arriveBranch db group edge rest join parent fromNode outcome output found isJoin =>
      have before := game Hand.noConfusion (busy Hand.noConfusion)
      have consumedKeyed :
          Keyed wf ((db.insertToken join.id parent (some group) none).consumeToken db.nextID) :=
        (keyed.insertToken lies).consumeToken _
      have consumed : Game wf (.spreading group (edge :: rest),
          (db.insertToken join.id parent (some group) none).consumeToken db.nextID) :=
        before.congr (before.barriers.addToken keyed rfl rfl keyed.insertConsumed_tokens rfl rfl)
          (nest_insertConsumed keyed _ join.id parent (some group) none)
      refine ⟨?_, fun _ _ => Hand.noConfusion, fun _ _ => ?_⟩
      · rw [RunDb.gather_firedGroups]
        exact once
      · exact consumed.gather consumedKeyed (linked.insertConsumed keyed)
          (isJoin ▸ wf.node?_declared found) lies (Hand.spreading_holds group edge rest)
  | @spread db group =>
      have before := game Hand.noConfusion (busy Hand.noConfusion)
      exact ⟨once, fun _ _ => Hand.noConfusion, fun _ _ =>
        before.congr before.barriers (nest_congr rfl rfl rfl (fun place => by simp [Hand.holds])
          fun _ => rfl)⟩
  | @fire db group barrier join row now found fires known parked =>
      have before := game Hand.noConfusion (busy Hand.noConfusion)
      obtain ⟨after, unfired⟩ := before.fire now keyed linked (parked isStrict) found
      refine ⟨?_, fun _ _ => Hand.noConfusion, fun _ _ => after⟩
      rw [RunDb.fireBarrier_firedGroups]
      refine List.nodup_cons.mpr ⟨fun again => ?_, once⟩
      rw [RunDb.firedIn_eq, List.contains_iff_mem.mpr again] at unfired
      contradiction
  | @settled db group _ =>
      have before := game Hand.noConfusion (busy Hand.noConfusion)
      exact ⟨once, fun _ _ => Hand.noConfusion, fun _ _ =>
        before.congr before.barriers (nest_congr rfl rfl rfl (fun _ => rfl) fun _ => rfl)⟩
  | @abandon db hand _ => exact ⟨once, fun _ _ => Hand.noConfusion, fun held _ => absurd rfl held⟩
  | @refinish db own state recorded _ _ _ =>
      exact ⟨once, fun _ _ => Hand.noConfusion, fun held _ => absurd rfl held⟩
  | @reap db keep _ =>
      refine ⟨?_, fun _ _ => Hand.noConfusion, fun held _ => absurd rfl held⟩
      rw [RunDb.reapRunState_firedGroups]
      exact once
  | @retire db => exact ⟨once, fun _ _ => Hand.noConfusion, fun held _ => absurd rfl held⟩
  | @conclude db state output ending terminal _ _ =>
      refine ⟨once, fun _ _ => Hand.noConfusion, fun _ running => ?_⟩
      rw [show (db.updateRunState state output ending).state = state from rfl, terminal] at running
      contradiction

/-- A run is created with one token, outside every group. -/
theorem Created.counted (created : Created wf db) : Counted wf (.idle, db) := by
  have unfired : db.firedGroups = [] := by
    cases fired : db.firedGroups with
    | nil => rfl
    | cons group rest =>
        have isFired := created.unfired group
        rw [RunDb.firedIn_eq, fired] at isFired
        simp at isFired
  have noTree : db.groupTree = [] := by rw [RunDb.groupTree, created.tokenGroups]; rfl
  have entry : db.activeCount (wf.branchIn none) = 1 := by
    rw [RunDb.activeCount, created.tokens]
    simp [Workflow.branchIn, Workflow.barrierAt, Token.stand]
  have ungrouped : ∀ token ∈ db.tokens, token.group = none := by
    rw [created.tokens]
    simp
  have noBranch : ∀ group, db.activeCount (wf.branchIn (some group)) = 0 := by
    intro group
    refine List.countP_eq_zero.mpr fun token member counted => ?_
    simp [Workflow.branchIn, Token.stand, ungrouped token member] at counted
  have noBarrier : ∀ group, db.activeCount (wf.barrierIn group) = 0 := by
    intro group
    refine List.countP_eq_zero.mpr fun token member counted => ?_
    simp [Workflow.barrierIn, Token.stand, ungrouped token member] at counted
  refine ⟨by rw [unfired]; exact List.nodup_nil, fun _ _ => Hand.noConfusion, fun _ _ => ⟨?_, ?_, ?_⟩⟩
  · refine ⟨?_, ?_, ?_, ?_⟩
    · exact created.standing.keyed.grown
    · intro place occupied key isKey
      rw [isKey] at occupied
      rcases occupied with thread | ⟨barrier, _, some⟩
      · have counted : 0 < db.activeCount (wf.branchIn (some key)) := thread
        rw [noBranch] at counted
        contradiction
      · have counted : 0 < db.activeCount (wf.barrierIn barrier) := some
        rw [noBarrier] at counted
        contradiction
    · intro group known
      rw [show (nest wf .idle db).tree = [] from noTree] at known
      contradiction
    · intro group fired
      exact absurd ((created.unfired group).symm.trans fired) Bool.false_ne_true
  · refine ⟨?_, ?_, ?_⟩
    · intro run _ token member _ isBarrier
      simp [Workflow.barrierAt, Token.stand, ungrouped token member] at isBarrier
    · intro run _ token member _ isBarrier
      simp [Workflow.barrierAt, Token.stand, ungrouped token member] at isBarrier
    · intro arrival member
      rw [created.joinArrivals] at member
      contradiction
  · intro _
    have childless : (nest wf .idle db).children none = 0 := by
      unfold Nest.children
      rw [show (nest wf .idle db).tree = [] from noTree]
      rfl
    have single : (nest wf .idle db).threads none = 1 := by
      simp [nest, entry, Hand.holds]
    rw [Nest.live, childless, single]

theorem Turns.counted (turns : Turns wf strict calm here there) (isStrict : strict)
    (standing : Standing wf here) (linked : Linked here.2) (recorded : Recorded here.2)
    (counted : Counted wf here) : Counted wf there := by
  induction turns with
  | refl => exact counted
  | tail earlier turn ih =>
      exact turn.counted isStrict (Turns.standing earlier standing)
        (Turns.linked earlier isStrict standing linked recorded).1 ih

end

end CultureNodes.Engine
