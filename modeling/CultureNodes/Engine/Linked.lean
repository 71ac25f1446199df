import CultureNodes.Engine.Paired
import CultureNodes.Store.Fencing

/-!
Work items and node runs, linked: a live item belongs to a node run that is out for dispatch, a node
run has one live item at most, and a cancelled item belongs to a node run that has ended. With the
pairing of tokens and node runs this is kept by every strict turn.
-/

namespace CultureNodes.Engine

open Store (WorkTables WorkItem WorkAction WorkSystem WorkInvariant Statement Claim)

/-- The states of a node run that has, or may have, a live work item. -/
def NodeRunState.dispatched : NodeRunState → Bool
  | .ready | .leased | .running | .waitingExternal => true
  | _ => false

theorem NodeRunState.not_terminal_of_dispatched {state : NodeRunState}
    (dispatched : state.dispatched = true) : state.terminal = false := by
  cases state <;> simp_all [NodeRunState.dispatched, NodeRunState.terminal]

structure Worked (db : RunDb) : Prop where
  sound : WorkInvariant db.work
  dispatched : ∀ item ∈ db.work.items, item.live = true →
    ∃ run ∈ db.nodeRuns, run.id = item.nodeRun ∧ run.state.dispatched = true
  single : ∀ left ∈ db.work.items, ∀ right ∈ db.work.items, left.live = true → right.live = true →
    left.nodeRun = right.nodeRun → left = right
  retired : ∀ item ∈ db.work.items, item.state = .cancelled →
    ∀ run ∈ db.nodeRuns, run.id = item.nodeRun → run.state.terminal = true

theorem WorkItem.not_live_of_cancelled {item : WorkItem} (cancelled : item.state = .cancelled) :
    item.live = false := by
  simp [WorkItem.live, cancelled]

namespace Worked

variable {wf : Workflow} {db next : RunDb}

theorem congr (worked : Worked db) (sameRuns : next.nodeRuns = db.nodeRuns)
    (sameWork : next.work = db.work) : Worked next := by
  refine ⟨?_, ?_, ?_, ?_⟩
  · rw [sameWork]
    exact worked.sound
  · rw [sameWork, sameRuns]
    exact worked.dispatched
  · rw [sameWork]
    exact worked.single
  · rw [sameWork, sameRuns]
    exact worked.retired

theorem addNodeRun (worked : Worked db) (keyed : Keyed wf db) {run : NodeRun}
    (fresh : db.nextID ≤ run.id) (sameRuns : next.nodeRuns = db.nodeRuns ++ [run])
    (sameWork : next.work = db.work) : Worked next := by
  refine ⟨sameWork ▸ worked.sound, ?_, sameWork ▸ worked.single, ?_⟩
  · rw [sameWork, sameRuns]
    intro item member live
    obtain ⟨owner, ownerMember, owns⟩ := worked.dispatched item member live
    exact ⟨owner, List.mem_append_left _ ownerMember, owns⟩
  · rw [sameWork, sameRuns]
    intro item member isCancelled owner ownerMember owns
    rcases List.mem_append.mp ownerMember with old | new
    · exact worked.retired item member isCancelled owner old owns
    · have older := (keyed.itemsOld item member).2
      rw [List.mem_singleton.mp new] at owns
      omega

/-- Node runs change state. Those out for dispatch stay so unless they have no live item, and those
that have ended stay ended unless they have no cancelled one. -/
theorem rewrite (worked : Worked db) {hits : NodeRun → Bool} {write : NodeRun → NodeRun}
    (sameRuns : next.nodeRuns = Table.update db.nodeRuns hits write)
    (sameWork : next.work = db.work) (keeps : ∀ run, (write run).id = run.id)
    (stays : ∀ run ∈ db.nodeRuns, hits run = true → (write run).state.dispatched = true ∨
      ∀ item ∈ db.work.items, item.nodeRun = run.id → item.live = false)
    (ends : ∀ run ∈ db.nodeRuns, hits run = true → (write run).state.terminal = true ∨
      run.state.terminal = false) : Worked next := by
  refine ⟨sameWork ▸ worked.sound, ?_, sameWork ▸ worked.single, ?_⟩
  · rw [sameWork, sameRuns]
    intro item member live
    obtain ⟨run, runMember, owns, isOut⟩ := worked.dispatched item member live
    refine ⟨_, Table.mem_update_of_mem _ _ runMember, ?_⟩
    split
    · rename_i hit
      refine ⟨(keeps run).trans owns, ?_⟩
      rcases stays run runMember hit with out | idle
      · exact out
      · rw [idle item member owns.symm] at live
        contradiction
    · exact ⟨owns, isOut⟩
  · rw [sameWork, sameRuns]
    intro item member isCancelled run runMember owns
    obtain ⟨old, oldMember, rfl⟩ := Table.mem_update.mp runMember
    split at owns
    · rename_i hit
      have ended := worked.retired item member isCancelled old oldMember ((keeps old).symm.trans owns)
      rw [if_pos hit]
      rcases ends old oldMember hit with isEnded | isOpen
      · exact isEnded
      · rw [ended] at isOpen
        contradiction
    · rename_i missed
      rw [if_neg missed]
      exact worked.retired item member isCancelled old oldMember owns

/-- The items change, each staying with its node run; nothing comes to life and nothing is newly
cancelled. -/
theorem evolve (worked : Worked db) (sound : WorkInvariant next.work)
    (sameRuns : next.nodeRuns = db.nodeRuns)
    (origin : ∀ item ∈ next.work.items, ∃ old ∈ db.work.items, old.id = item.id ∧
      old.nodeRun = item.nodeRun ∧ (item.live = true → old.live = true) ∧
      (item.state = .cancelled → old.state = .cancelled)) : Worked next := by
  refine ⟨sound, ?_, ?_, ?_⟩
  · rw [sameRuns]
    intro item member live
    obtain ⟨old, oldMember, _, sameRun, wasLive, _⟩ := origin item member
    rw [← sameRun]
    exact worked.dispatched old oldMember (wasLive live)
  · intro left leftMember right rightMember leftLive rightLive same
    obtain ⟨oldLeft, oldLeftMember, leftID, leftRun, leftWas, _⟩ := origin left leftMember
    obtain ⟨oldRight, oldRightMember, rightID, rightRun, rightWas, _⟩ := origin right rightMember
    have sameOld := worked.single oldLeft oldLeftMember oldRight oldRightMember (leftWas leftLive)
      (rightWas rightLive) (leftRun.trans (same.trans rightRun.symm))
    exact Table.eq_of_key sound.distinct leftMember rightMember
      (leftID.symm.trans ((congrArg WorkItem.id sameOld).trans rightID))
  · rw [sameRuns]
    intro item member isCancelled run runMember owns
    obtain ⟨old, oldMember, _, sameRun, _, wasCancelled⟩ := origin item member
    exact worked.retired old oldMember (wasCancelled isCancelled) run runMember
      (owns.trans sameRun.symm)

theorem enqueueWork (worked : Worked db) (keyed : Keyed wf db) {run : NodeRun} (availableAt : Nat)
    (member : run ∈ db.nodeRuns) (isOut : run.state.dispatched = true)
    (idle : ∀ item ∈ db.work.items, item.nodeRun = run.id → item.live = false) :
    Worked (db.enqueueWork run.id availableAt) := by
  have isOpen := NodeRunState.not_terminal_of_dispatched isOut
  have untouched : ∀ item ∈ db.work.items, item.nodeRun = run.id → item.state ≠ .cancelled := by
    intro item itemMember owns isCancelled
    rw [worked.retired item itemMember isCancelled run member owns.symm] at isOpen
    contradiction
  have freshID : db.nextID ∉ db.work.items.map WorkItem.id := by
    intro known
    obtain ⟨item, itemMember, same⟩ := List.mem_map.mp known
    have older := (keyed.itemsOld item itemMember).1
    omega
  have statement : Statement db.work (db.enqueueWork run.id availableAt).work :=
    (Statement.refl worked.sound).append rfl rfl rfl freshID untouched fun row rowMember _ => rowMember
  refine ⟨statement.preserves worked.sound, ?_, ?_, ?_⟩
  · intro item itemMember live
    rcases List.mem_append.mp itemMember with old | new
    · exact worked.dispatched item old live
    · rw [List.mem_singleton.mp new]
      exact ⟨run, member, rfl, isOut⟩
  · intro left leftMember right rightMember leftLive rightLive same
    rcases List.mem_append.mp leftMember with leftOld | leftNew <;>
      rcases List.mem_append.mp rightMember with rightOld | rightNew
    · exact worked.single left leftOld right rightOld leftLive rightLive same
    · rw [List.mem_singleton.mp rightNew] at same
      rw [idle left leftOld same] at leftLive
      contradiction
    · rw [List.mem_singleton.mp leftNew] at same
      rw [idle right rightOld same.symm] at rightLive
      contradiction
    · rw [List.mem_singleton.mp leftNew, List.mem_singleton.mp rightNew]
  · intro item itemMember isCancelled
    rcases List.mem_append.mp itemMember with old | new
    · exact worked.retired item old isCancelled
    · rw [List.mem_singleton.mp new] at isCancelled
      contradiction

theorem cancelTogether (worked : Worked db) {lost : Nat → Bool}
    (sameRuns : next.nodeRuns = Table.update db.nodeRuns (fun run => lost run.id)
      (fun run => { run with state := .cancelled }))
    (items : next.work.items = Table.update db.work.items
      (fun item => item.live && lost item.nodeRun) (·.cancelled))
    (sound : WorkInvariant next.work) : Worked next := by
  have origin : ∀ item ∈ next.work.items, item ∈ db.work.items ∧
      (item.live = true → lost item.nodeRun = false) ∨
      ∃ old ∈ db.work.items, lost old.nodeRun = true ∧ item = old.cancelled := by
    intro item member
    rw [items] at member
    obtain ⟨old, oldMember, rfl⟩ := Table.mem_update.mp member
    by_cases hit : (old.live && lost old.nodeRun) = true
    · rw [if_pos hit]
      exact Or.inr ⟨old, oldMember, (Bool.and_eq_true_iff.mp hit).2, rfl⟩
    · rw [if_neg hit]
      exact Or.inl ⟨oldMember, fun live => by simpa [live] using hit⟩
  refine ⟨sound, ?_, ?_, ?_⟩
  · intro item member live
    rcases origin item member with ⟨old, spared⟩ | ⟨old, _, _, rfl⟩
    · obtain ⟨run, runMember, owns, isOut⟩ := worked.dispatched item old live
      rw [sameRuns]
      refine ⟨_, Table.mem_update_of_mem _ _ runMember, ?_⟩
      rw [owns, spared live]
      exact ⟨owns, isOut⟩
    · simp [WorkItem.live, WorkItem.cancelled] at live
  · intro left leftMember right rightMember leftLive rightLive same
    rcases origin left leftMember with ⟨leftOld, _⟩ | ⟨old, _, _, rfl⟩
    · rcases origin right rightMember with ⟨rightOld, _⟩ | ⟨old, _, _, rfl⟩
      · exact worked.single left leftOld right rightOld leftLive rightLive same
      · simp [WorkItem.live, WorkItem.cancelled] at rightLive
    · simp [WorkItem.live, WorkItem.cancelled] at leftLive
  · intro item member isCancelled run runMember owns
    rw [sameRuns] at runMember
    obtain ⟨old, oldMember, rfl⟩ := Table.mem_update.mp runMember
    by_cases hit : lost old.id = true
    · rw [if_pos hit]
      rfl
    · rw [if_neg hit] at owns ⊢
      rcases origin item member with ⟨kept, _⟩ | ⟨earlier, _, isLost, rfl⟩
      · exact worked.retired item kept isCancelled old oldMember owns
      · have sameRun : old.id = earlier.nodeRun := owns
        rw [← sameRun] at isLost
        exact absurd isLost hit

theorem cancelNodeRuns (worked : Worked db) (lost : List Nat) : Worked (db.cancelNodeRuns lost) :=
  worked.cancelTogether rfl rfl
    ((Statement.retire lost.contains worked.sound rfl rfl).preserves worked.sound)

theorem idle_of_not_dispatched (worked : Worked db) (keyed : Keyed wf db) {run : NodeRun}
    (member : run ∈ db.nodeRuns) (notOut : run.state.dispatched = false) :
    ∀ item ∈ db.work.items, item.nodeRun = run.id → item.live = false := by
  intro item itemMember owns
  cases live : item.live with
  | false => rfl
  | true =>
      obtain ⟨owner, ownerMember, sameID, isOut⟩ := worked.dispatched item itemMember live
      rw [keyed.run_eq ownerMember member (sameID.trans owns), notOut] at isOut
      contradiction

end Worked

structure Linked (db : RunDb) : Prop where
  paired : Paired db
  worked : Worked db

namespace Linked

variable {wf : Workflow} {db next : RunDb}

theorem congr (linked : Linked db) (sameRuns : next.nodeRuns = db.nodeRuns)
    (sameTokens : next.tokens = db.tokens) (sameState : next.state = db.state)
    (sameRoutes : next.eventRoutes = db.eventRoutes) (sameWork : next.work = db.work) : Linked next :=
  ⟨linked.paired.congr sameRuns sameTokens sameState sameRoutes,
    linked.worked.congr sameRuns sameWork⟩

theorem insertPair (linked : Linked db) (keyed : Keyed wf db) {node : String}
    {parent group : Option Nat} {originEvent : Option String} {state : NodeRunState}
    (running : db.state.terminal = false) (isOpen : state.terminal = false) :
    Linked ((db.insertToken node parent group originEvent).insertNodeRun db.nextID node state) :=
  ⟨linked.paired.add keyed rfl rfl (by simp [isOpen]) running rfl rfl rfl,
    linked.worked.addNodeRun keyed (Nat.le_succ _) rfl rfl⟩

theorem dispatchState_open {kind : NodeKind} : (dispatchState kind).terminal = false := by
  unfold dispatchState
  split <;> rfl

theorem startNode (linked : Linked db) (keyed : Keyed wf db) {node : Node} {group : Option Nat}
    (parent : Option Nat) (originEvent : Option String) (now : Nat)
    (declared : wf.kind? node.id = some node.kind) (valid : Forest.Valid db.groupTree group)
    (running : db.state.terminal = false) :
    Linked (db.startNode node parent group originEvent now) := by
  have pair : Linked ((db.insertToken node.id parent group originEvent).insertNodeRun db.nextID
      node.id (dispatchState node.kind)) := linked.insertPair keyed running dispatchState_open
  refine ⟨pair.paired.congr (by simp [RunDb.startNode]) (by simp [RunDb.startNode])
    (by simp [RunDb.startNode]) (by simp [RunDb.startNode]), ?_⟩
  unfold RunDb.startNode RunDb.dispatchNode
  dsimp only
  split
  · exact pair.worked.congr rfl rfl
  · rename_i notApproval
    have pairKeyed : Keyed wf ((db.insertToken node.id parent group originEvent).insertNodeRun
        db.nextID node.id (dispatchState node.kind)) :=
      keyed.insertPair valid (Keyed.human_of_dispatchState declared) fun waits =>
        absurd waits Keyed.dispatchState_ne_waitingJoin
    refine pair.worked.enqueueWork pairKeyed now
      (List.mem_append_right _ (List.mem_singleton.mpr rfl)) ?_ ?_
    · simp [dispatchState, notApproval, NodeRunState.dispatched]
    · intro item member owns
      have older := (keyed.itemsOld item member).2
      have newer : item.nodeRun = db.nextID + 1 := owns
      omega

theorem finish (linked : Linked db) (keyed : Keyed wf db) {own : NodeRun} {state : NodeRunState}
    (outcome : String) (known : ∃ run ∈ db.nodeRuns, run.id = own.id ∧ run.token = own.token)
    (terminal : state.terminal = true)
    (idle : ∀ item ∈ db.work.items, item.nodeRun = own.id → item.live = false) :
    Linked (db.finishNodeRun own state outcome) := by
  refine ⟨linked.paired.finish keyed outcome known terminal,
    linked.worked.rewrite rfl rfl (fun _ => rfl) ?_ ?_⟩
  · intro run _ hit
    have isOwn : run.id = own.id := by simpa using hit
    exact Or.inr fun item member owns => idle item member (owns.trans isOwn)
  · exact fun run _ _ => Or.inl terminal

theorem reachEnd (linked : Linked db) (keyed : Keyed wf db) {node : Node} {group : Option Nat}
    (parent : Option Nat) (declared : wf.kind? node.id = some node.kind)
    (valid : Forest.Valid db.groupTree group) (running : db.state.terminal = false) :
    Linked (db.reachEnd node parent group) := by
  have pair : Linked ((db.insertToken node.id parent group none).insertNodeRun db.nextID node.id
      (dispatchState node.kind)) := linked.insertPair keyed running dispatchState_open
  have pairKeyed : Keyed wf ((db.insertToken node.id parent group none).insertNodeRun db.nextID
      node.id (dispatchState node.kind)) :=
    keyed.insertPair valid (Keyed.human_of_dispatchState declared) fun waits =>
      absurd waits Keyed.dispatchState_ne_waitingJoin
  let own : NodeRun := ⟨db.nextID + 1, db.nextID, node.id, dispatchState node.kind, ""⟩
  refine Linked.finish pair pairKeyed "" ⟨own, ?_, rfl, rfl⟩ rfl ?_
  · exact List.mem_append_right _ (List.mem_singleton.mpr rfl)
  · intro item member owns
    have older := (keyed.itemsOld item member).2
    have newer : item.nodeRun = db.nextID + 1 := owns
    omega

theorem joinBarrier (linked : Linked db) (keyed : Keyed wf db) (join : Node) (token group : Nat)
    (running : db.state.terminal = false) : Linked (db.joinBarrier join token group).1 := by
  unfold RunDb.joinBarrier
  split
  · exact linked
  · exact linked.insertPair keyed running rfl

theorem gather (linked : Linked db) (keyed : Keyed wf db) (join : Node) (token group : Nat)
    (fromNode outcome : String) (output : Payload) (running : db.state.terminal = false) :
    Linked (db.gather join token group fromNode outcome output) :=
  (linked.joinBarrier keyed join token group running).congr rfl rfl rfl rfl rfl

theorem insertConsumed (linked : Linked db) (keyed : Keyed wf db) {node : String}
    {parent group : Option Nat} {originEvent : Option String} :
    Linked ((db.insertToken node parent group originEvent).consumeToken db.nextID) := by
  exact ⟨linked.paired.addConsumed keyed rfl rfl rfl keyed.insertConsumed_tokens rfl rfl,
    linked.worked.congr rfl rfl⟩

theorem reapGroupBranches (linked : Linked db) (keyed : Keyed wf db) (group keep : Nat) :
    Linked (db.reapGroupBranches group keep) :=
  ⟨linked.paired.reapGroupBranches keyed group keep,
    (linked.worked.cancelNodeRuns _).congr rfl rfl⟩

theorem reapRunState (linked : Linked db) (keyed : Keyed wf db) {keep : Nat}
    (kept : ∀ run ∈ db.nodeRuns, run.id = keep → run.state.terminal = true) :
    Linked (db.reapRunState keep) :=
  ⟨linked.paired.reapRunState keyed kept, (linked.worked.cancelNodeRuns _).congr rfl rfl⟩

theorem fireBarrier (linked : Linked db) (keyed : Keyed wf db) {barrier : NodeRun} {group : Nat}
    (early : Bool) (now : Nat) (groupKnown : group < db.nextID) (parked : db.Parked barrier group) :
    Linked (db.fireBarrier barrier group early now) := by
  have known := keyed.parked_old parked
  obtain ⟨row, rowMember, sameID, _, waits, _⟩ := parked
  have isRow : ∀ run ∈ db.nodeRuns, decide (run.id = barrier.id) = true → run = row :=
    fun run runMember hit =>
      keyed.run_eq runMember rowMember ((of_decide_eq_true hit).trans sameID.symm)
  have idle := linked.worked.idle_of_not_dispatched keyed rowMember (by simp [waits, NodeRunState.dispatched])
  have readyPaired : Paired (db.updateNodeRun barrier.id .ready "") := by
    refine linked.paired.reopen rfl rfl rfl rfl (fun _ => rfl) fun run runMember hit => ?_
    rw [isRow run runMember hit, waits]
    exact ⟨rfl, rfl⟩
  have readyWorked : Worked (db.updateNodeRun barrier.id .ready "") := by
    refine linked.worked.rewrite rfl rfl (fun _ => rfl) (fun _ _ _ => Or.inl rfl)
      fun run runMember hit => Or.inr ?_
    rw [isRow run runMember hit, waits]
    rfl
  have readyKeyed : Keyed wf (db.updateNodeRun barrier.id .ready "") := keyed.updateNodeRun known rfl
  have readyRow : { row with state := .ready, outcome := if "" = "" then row.outcome else "" } ∈
      (db.updateNodeRun barrier.id .ready "").nodeRuns := by
    have updated := Table.mem_update_of_mem (fun run : NodeRun => decide (run.id = barrier.id))
      (fun run => { run with state := .ready, outcome := if "" = "" then run.outcome else "" })
      rowMember
    rwa [if_pos (decide_eq_true sameID)] at updated
  have claimable : Linked ((db.updateNodeRun barrier.id .ready "").enqueueWork barrier.id now) := by
    refine ⟨readyPaired.congr rfl rfl rfl rfl, ?_⟩
    have enqueued := readyWorked.enqueueWork readyKeyed now readyRow rfl idle
    rw [← sameID]
    exact sameID ▸ enqueued
  have claimableKeyed : Keyed wf ((db.updateNodeRun barrier.id .ready "").enqueueWork barrier.id now) :=
    readyKeyed.enqueueWork now known
  unfold RunDb.fireBarrier
  dsimp only
  split
  · have marked := claimableKeyed.addEntry (.fired barrier.id group)
      ⟨Nat.lt_succ_of_lt known, Nat.lt_succ_of_lt groupKnown⟩
    refine Linked.reapGroupBranches ?_ marked _ _
    exact claimable.congr rfl rfl rfl rfl rfl
  · exact claimable.congr rfl rfl rfl rfl rfl

theorem hold (linked : Linked db) {claim : Claim} {work : WorkTables}
    (completed : db.work.completeWork claim = some work) : Linked { db with work := work } := by
  have statement : Statement db.work work :=
    Store.guarded_statement linked.worked.sound completed (fun _ => WorkItem.heldBy_live)
      (fun _ => ⟨rfl, rfl, rfl⟩) (fun _ _ => Store.WorkState.noConfusion)
  obtain ⟨_, rfl⟩ := Store.updateItems?_eq_some completed
  refine ⟨linked.paired.congr rfl rfl rfl rfl,
    linked.worked.evolve (statement.preserves linked.worked.sound) rfl fun item member => ?_⟩
  obtain ⟨old, oldMember, rfl⟩ := Table.mem_update.mp member
  refine ⟨old, oldMember, ?_⟩
  split
  · exact ⟨rfl, rfl, fun live => by simp [WorkItem.live, WorkItem.finished] at live,
      fun isCancelled => absurd isCancelled Store.WorkState.noConfusion⟩
  · exact ⟨rfl, rfl, id, id⟩

theorem hold_owner (linked : Linked db) {claim : Claim} {work : WorkTables} {owner : Nat}
    (completed : db.work.completeWork claim = some work)
    (named : db.work.nodeRunOf claim.work = some owner) :
    (∃ run ∈ db.nodeRuns, run.id = owner ∧ run.state.dispatched = true) ∧
      ∀ item ∈ work.items, item.nodeRun = owner → item.live = false := by
  obtain ⟨⟨held, heldMember, isHeld⟩, rfl⟩ := Store.updateItems?_eq_some completed
  have live := WorkItem.heldBy_live isHeld
  obtain ⟨other, foundOther, isOwner⟩ := Option.map_eq_some_iff.mp named
  have sameWork : held.id = claim.work := by
    simp only [WorkItem.heldBy, Bool.and_eq_true, decide_eq_true_eq] at isHeld
    exact isHeld.1.1.1.1
  have otherWork : other.id = claim.work := by simpa using List.find?_some foundOther
  have isItem := Table.eq_of_key linked.worked.sound.distinct (List.mem_of_find?_eq_some foundOther)
    heldMember (otherWork.trans sameWork.symm)
  have heldOwner : held.nodeRun = owner := isItem ▸ isOwner
  constructor
  · obtain ⟨run, runMember, owns, isOut⟩ := linked.worked.dispatched held heldMember live
    exact ⟨run, runMember, owns.trans heldOwner, isOut⟩
  · intro item member owned
    obtain ⟨old, oldMember, rfl⟩ := Table.mem_update.mp member
    split
    · rfl
    · rename_i missed
      rw [if_neg missed] at owned
      cases oldLive : old.live with
      | false => rfl
      | true =>
          have same := linked.worked.single old oldMember held heldMember oldLive live
            (owned.trans heldOwner.symm)
          exact absurd isHeld (same ▸ missed)

theorem owner_dispatched (linked : Linked db) {isCode : Nat → Bool} {after : WorkSystem}
    {action : WorkAction} {owner : Nat}
    (performed : (WorkSystem.mk db.work db.state.terminal).act isCode action = some after)
    (named : (action.guard?.bind fun claim => db.work.nodeRunOf claim.work) = some owner) :
    ∃ run ∈ db.nodeRuns, run.id = owner ∧ run.state.dispatched = true := by
  obtain ⟨claim, guarded, found⟩ := Option.bind_eq_some_iff.mp named
  obtain ⟨item, member, isWork, _, live⟩ := WorkSystem.act_guarded guarded performed
  obtain ⟨other, foundOther, rfl⟩ := Option.map_eq_some_iff.mp found
  have sameID : other.id = claim.work := by simpa using List.find?_some foundOther
  have isItem := Table.eq_of_key linked.worked.sound.distinct (List.mem_of_find?_eq_some foundOther)
    member (sameID.trans isWork.symm)
  obtain ⟨run, runMember, owns, isOut⟩ := linked.worked.dispatched item member live
  exact ⟨run, runMember, owns.trans (congrArg WorkItem.nodeRun isItem).symm, isOut⟩

theorem setWork (linked : Linked db) {isCode : Nat → Bool} {after : WorkSystem} {action : WorkAction}
    (worker : workerStatement action = true)
    (performed : (WorkSystem.mk db.work db.state.terminal).act isCode action = some after) :
    Linked { db with work := after.tables } := by
  have statement : Statement db.work after.tables :=
    WorkSystem.act_statement linked.worked.sound performed
  obtain ⟨guard, write, isUpdate, keeps, live⟩ := workerStatement_update worker performed
  refine ⟨linked.paired.congr rfl rfl rfl rfl,
    linked.worked.evolve (statement.preserves linked.worked.sound) rfl fun item member => ?_⟩
  have member : item ∈ after.tables.items := member
  rw [isUpdate] at member
  obtain ⟨old, oldMember, rfl⟩ := Table.mem_update.mp member
  refine ⟨old, oldMember, ?_⟩
  split
  · rename_i hit
    have isLive := live old hit
    refine ⟨(keeps old).1.symm, (keeps old).2.symm, fun _ => ?_, fun isCancelled => ?_⟩
    · -- A statement writes only to what was live: a cancelled or completed row is never matched.
      obtain ⟨next, nextMember, evolved⟩ := statement.carried old oldMember
      have isWritten : next = write old := by
        refine Table.eq_of_key statement.distinct nextMember ?_ (evolved.id_eq.trans (keeps old).1.symm)
        rw [isUpdate]
        have updated := Table.mem_update_of_mem guard write oldMember
        rwa [if_pos hit] at updated
      cases wasLive : old.live with
      | true => rfl
      | false =>
          have unchanged := evolved.eq_of_not_live wasLive
          rw [← isWritten, unchanged, wasLive] at isLive
          contradiction
    · rw [WorkItem.not_live_of_cancelled isCancelled] at isLive
      contradiction
  · exact ⟨rfl, rfl, id, id⟩

theorem markNodeRun (linked : Linked db) (keyed : Keyed wf db) {owner : Nat}
    {expected : NodeRunState → Bool} {state : NodeRunState} (isOut : state.dispatched = true)
    (wasOut : ∃ run ∈ db.nodeRuns, run.id = owner ∧ run.state.dispatched = true) :
    Linked (db.markNodeRun owner expected state) := by
  obtain ⟨row, rowMember, isOwner, rowOut⟩ := wasOut
  have openRow : ∀ run ∈ db.nodeRuns, (run.id = owner && expected run.state) = true →
      run.state.terminal = false := by
    intro run runMember hit
    simp only [Bool.and_eq_true, decide_eq_true_eq] at hit
    rw [keyed.run_eq runMember rowMember (hit.1.trans isOwner.symm)]
    exact NodeRunState.not_terminal_of_dispatched rowOut
  refine ⟨linked.paired.reopen rfl rfl rfl rfl (fun _ => rfl) fun run runMember hit =>
      ⟨openRow run runMember hit, NodeRunState.not_terminal_of_dispatched isOut⟩,
    linked.worked.rewrite rfl rfl (fun _ => rfl) (fun _ _ _ => Or.inl isOut)
      fun run runMember hit => Or.inr (openRow run runMember hit)⟩

theorem markFor (linked : Linked db) (keyed : Keyed wf db) {action : WorkAction} {owner : Nat}
    (wasOut : ∃ run ∈ db.nodeRuns, run.id = owner ∧ run.state.dispatched = true) :
    Linked (db.markFor action owner) := by
  unfold RunDb.markFor
  split
  · exact linked.markNodeRun keyed rfl wasOut
  · exact linked.markNodeRun keyed rfl wasOut
  · exact linked.markNodeRun keyed rfl wasOut
  · exact linked.markNodeRun keyed rfl wasOut
  · exact linked.markNodeRun keyed rfl wasOut
  · exact linked

theorem freeze (linked : Linked db) (action : WorkAction) : Linked (db.freeze action) := by
  unfold RunDb.freeze
  split
  · refine ⟨⟨linked.paired.mirrored, linked.paired.manned, fun ended => ?_⟩,
      linked.worked.congr rfl rfl⟩
    have frozen : RunState.terminal .waiting = true := ended
    contradiction
  · exact linked

theorem workStatement (linked : Linked db) (keyed : Keyed wf db) {action : WorkAction}
    (acted : db.workStatement wf action = some next) : Linked next := by
  obtain ⟨isCode, after, worker, performed, cases_⟩ := RunDb.workStatement_eq_some acted
  have moved := linked.setWork worker performed
  have movedKeyed := keyed.setWork after.tables (workerStatement_update worker performed).keys
  rcases cases_ with ⟨_, rfl⟩ | ⟨owner, named, rfl⟩
  · exact moved.freeze action
  · exact (moved.markFor movedKeyed (linked.owner_dispatched performed named)).freeze action

theorem retry (linked : Linked db) (keyed : Keyed wf db) {own : NodeRun} (availableAt : Nat)
    (member : own ∈ db.nodeRuns) (isOut : own.state.dispatched = true)
    (idle : ∀ item ∈ db.work.items, item.nodeRun = own.id → item.live = false) :
    Linked ((db.enqueueWork own.id availableAt).updateNodeRun own.id .ready "") := by
  have enqueued := linked.worked.enqueueWork keyed availableAt member isOut idle
  have openRow : ∀ run ∈ db.nodeRuns, decide (run.id = own.id) = true → run.state.terminal = false := by
    intro run runMember hit
    rw [keyed.run_eq runMember member (of_decide_eq_true hit)]
    exact NodeRunState.not_terminal_of_dispatched isOut
  refine ⟨linked.paired.reopen rfl rfl rfl rfl (fun _ => rfl) fun run runMember hit =>
      ⟨openRow run runMember hit, rfl⟩,
    enqueued.rewrite rfl rfl (fun _ => rfl) (fun _ _ _ => Or.inl rfl)
      fun run runMember hit => Or.inr (openRow run runMember hit)⟩

theorem retireEventRoutes (linked : Linked db) : Linked db.retireEventRoutes := by
  refine ⟨⟨linked.paired.mirrored, linked.paired.manned, fun ended => ?_⟩,
    linked.worked.congr rfl rfl⟩
  refine ⟨(linked.paired.quiet ended).1, fun route member => ?_⟩
  obtain ⟨old, _, rfl⟩ := Table.mem_update.mp member
  split
  · rfl
  · rename_i inactive
    simpa using inactive

theorem conclude (linked : Linked db) {state : RunState} (output : Option Payload) (ending : Ending)
    (noToken : db.activeTokenCount = 0) (noRoute : ∀ route ∈ db.eventRoutes, route.active = false) :
    Linked (db.updateRunState state output ending) := by
  refine ⟨⟨linked.paired.mirrored, linked.paired.manned, fun _ => ⟨fun token member => ?_, noRoute⟩⟩,
    linked.worked.congr rfl rfl⟩
  simpa using List.countP_eq_zero.mp noToken token member

theorem cancelRunGuarded (linked : Linked db) (keyed : Keyed wf db) {parkedAt detail : String}
    (cancelled : db.cancelRunGuarded parkedAt detail = some next) : Linked next := by
  rw [← RunDb.cancelRunGuarded_eq_some cancelled]
  have everyRun : ∀ run ∈ db.nodeRuns,
      ((db.nodeRuns.filter fun run => !run.state.terminal).map NodeRun.id).contains run.id =
        !run.state.terminal := fun run member =>
    Table.contains_filter_keys keyed.runIDs member _
  have ended : ∀ run ∈ db.nodeRuns, (if ((db.nodeRuns.filter fun run =>
      !run.state.terminal).map NodeRun.id).contains run.id = true then
      { run with state := .cancelled } else run).state.terminal = true := by
    intro run member
    rw [everyRun run member]
    cases terminal : run.state.terminal <;> simp [terminal]
    rfl
  refine ⟨⟨?_, ?_, fun _ => ⟨?_, ?_⟩⟩, ?_⟩
  · intro run runMember token tokenMember owns
    obtain ⟨oldRun, oldRunMember, rfl⟩ := Table.mem_update.mp runMember
    obtain ⟨oldToken, oldTokenMember, rfl⟩ := Table.mem_update.mp tokenMember
    rw [ended oldRun oldRunMember]
    cases active : oldToken.active <;> simp [active]
  · intro token tokenMember active
    obtain ⟨oldToken, oldTokenMember, rfl⟩ := Table.mem_update.mp tokenMember
    cases wasActive : oldToken.active <;> simp [wasActive] at active
  · intro token tokenMember
    obtain ⟨oldToken, oldTokenMember, rfl⟩ := Table.mem_update.mp tokenMember
    cases wasActive : oldToken.active <;> simp [wasActive]
  · intro route routeMember
    obtain ⟨old, _, rfl⟩ := Table.mem_update.mp routeMember
    cases wasActive : old.active <;> simp [wasActive]
  · have sound : WorkInvariant db.work.cancelAll :=
      (Statement.retire (fun _ => true) linked.worked.sound (by simp [WorkTables.cancelAll])
        (by simp [WorkTables.cancelAll])).preserves linked.worked.sound
    have spent : ∀ item ∈ db.work.cancelAll.items, item.live = false := by
      intro item member
      obtain ⟨old, _, rfl⟩ := Table.mem_update.mp member
      cases live : old.live <;> simp [WorkItem.live, WorkItem.cancelled]
      simpa [WorkItem.live] using live
    refine ⟨sound, ?_, ?_, ?_⟩
    · intro item member live
      rw [spent item member] at live
      contradiction
    · intro left leftMember right _ live
      rw [spent left leftMember] at live
      contradiction
    · intro item _ _ run runMember _
      obtain ⟨old, oldMember, rfl⟩ := Table.mem_update.mp runMember
      exact ended old oldMember

end Linked

theorem Turn.linked {wf : Workflow} {strict calm : Prop} {here there : Hand × RunDb}
    (turn : Turn wf strict calm here there) (isStrict : strict) (standing : Standing wf here)
    (linked : Linked here.2) : Linked there.2 := by
  obtain ⟨keyed, lies, busy⟩ := standing
  cases turn with
  | note tasks attempts => exact linked.congr rfl rfl rfl rfl rfl
  | work acted => exact linked.workStatement keyed acted
  | hold completed _ => exact linked.hold completed
  | @retry db own availableAt member isOpen _ idle =>
      obtain ⟨notJoin, notHuman, idle⟩ := idle isStrict
      refine linked.retry keyed availableAt member ?_ idle
      cases state : own.state <;> simp_all [NodeRunState.terminal, NodeRunState.dispatched]
  | pickUp event now running _ _ found _ _ =>
      exact linked.startNode keyed none (some event) now (wf.node?_declared found)
        (fun key isKey => by simp at isKey) running
  | cancel cancelled => exact linked.cancelRunGuarded keyed cancelled
  | finish recorded member _ _ terminal idle _ =>
      exact linked.finish keyed recorded ⟨_, member, rfl, rfl⟩ terminal (idle isStrict).2
  | put parent now found _ _ =>
      exact linked.startNode keyed parent none now (wf.node?_declared found) lies (busy Hand.noConfusion)
  | reachEnd parent found _ =>
      exact linked.reachEnd keyed parent (wf.node?_declared found) lies (busy Hand.noConfusion)
  | arrive token fromNode outcome output _ _ =>
      exact linked.gather keyed _ token _ fromNode outcome output (busy Hand.noConfusion)
  | split nodeRun => exact linked.congr rfl rfl rfl rfl rfl
  | putBranch parent now found _ =>
      exact linked.startNode keyed parent none now (wf.node?_declared found) lies (busy Hand.noConfusion)
  | @arriveBranch db group edge rest join parent fromNode outcome output found isJoin =>
      have consumed : Linked ((db.insertToken join.id parent (some group) none).consumeToken db.nextID) :=
        linked.insertConsumed keyed
      have consumedKeyed :
          Keyed wf ((db.insertToken join.id parent (some group) none).consumeToken db.nextID) :=
        (keyed.insertToken lies).consumeToken _
      exact consumed.gather consumedKeyed join _ group fromNode outcome output (busy Hand.noConfusion)
  | spread => exact linked
  | fire now _ _ _ parked =>
      exact linked.fireBarrier keyed _ now (keyed.groupsOld _ (lies _ rfl)) (parked isStrict)
  | settled _ => exact linked
  | abandon _ => exact linked
  | @refinish db own state recorded terminal _ known =>
      obtain ⟨run, member, sameID, sameToken, sameState⟩ := known isStrict
      refine linked.finish keyed recorded ⟨run, member, sameID, sameToken⟩ terminal ?_
      have notOut : run.state.dispatched = false := by
        rw [sameState]
        cases state <;> simp_all [NodeRunState.terminal, NodeRunState.dispatched]
      exact sameID ▸ linked.worked.idle_of_not_dispatched keyed member notOut
  | reap keep kept => exact linked.reapRunState keyed kept
  | retire => exact linked.retireEventRoutes
  | conclude output ending _ noToken noRoute => exact linked.conclude output ending noToken noRoute

end CultureNodes.Engine
