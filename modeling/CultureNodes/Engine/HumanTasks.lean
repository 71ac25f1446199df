import CultureNodes.Engine.Awaited

/-!
Human tasks and the node runs they pause. An approval node run never owns a work item, so a decision
or an expiry of its task is the only transition that ends it; every other way out of `waiting_human`
cancels it and leaves the task as it is. A run in which no approval node run is cancelled therefore has a
pending task exactly for each node run that waits.
-/

namespace CultureNodes.Engine

open Store (WorkAction WorkTables)

def RunDb.Unanswered (db : RunDb) (nodeRun : Nat) : Prop :=
  ∃ task ∈ db.humanTasks, task.nodeRun = nodeRun ∧ task.status = .pending

theorem NodeRunState.completed_terminal : NodeRunState.completed.terminal = true := rfl

/-- What ties the tasks of a run to its node runs. -/
structure Tasked (wf : Workflow) (db : RunDb) : Prop where
  taskIDs : (db.humanTasks.map HumanTask.id).Nodup
  tasksOld : ∀ task ∈ db.humanTasks, task.id < db.nextID
  single : (db.humanTasks.map HumanTask.nodeRun).Nodup
  owned : ∀ task ∈ db.humanTasks, ∃ run ∈ db.nodeRuns, run.id = task.nodeRun ∧
    wf.kind? run.node = some .approval
  pending : ∀ run ∈ db.nodeRuns, db.Unanswered run.id →
    run.state = .waitingHuman ∨ run.state = .cancelled
  asked : ∀ run ∈ db.nodeRuns, run.state = .waitingHuman → db.Unanswered run.id
  worked : ∀ item ∈ db.work.items, ∀ run ∈ db.nodeRuns, run.id = item.nodeRun →
    wf.kind? run.node ≠ some .approval

namespace Tasked

variable {wf : Workflow} {db next : RunDb}

section

variable (tasked : Tasked wf db)

include tasked

theorem congr (tasks : next.humanTasks = db.humanTasks) (runs : next.nodeRuns = db.nodeRuns)
    (items : next.work.items = db.work.items) (grows : db.nextID ≤ next.nextID) : Tasked wf next := by
  have same : ∀ nodeRun, next.Unanswered nodeRun ↔ db.Unanswered nodeRun := fun nodeRun => by
    rw [RunDb.Unanswered, RunDb.Unanswered, tasks]
  refine ⟨tasks ▸ tasked.taskIDs, fun task member => ?_, tasks ▸ tasked.single, ?_, ?_, ?_, ?_⟩
  · exact Nat.lt_of_lt_of_le (tasked.tasksOld task (tasks ▸ member)) grows
  · rw [tasks, runs]
    exact tasked.owned
  · rw [runs]
    exact fun run member unanswered => tasked.pending run member ((same run.id).mp unanswered)
  · rw [runs]
    exact fun run member waits => (same run.id).mpr (tasked.asked run member waits)
  · rw [items, runs]
    exact tasked.worked

theorem update (guard : NodeRun → Bool) (write : NodeRun → NodeRun)
    (stands : ∀ run, (write run).stand = run.stand)
    (wakes : ∀ run, (write run).state ≠ .waitingHuman)
    (apart : ∀ run ∈ db.nodeRuns, guard run = true → (write run).state = .cancelled ∨
      ¬ db.Unanswered run.id) :
    Tasked wf { db with nodeRuns := Table.update db.nodeRuns guard write } := by
  refine { tasked with owned := ?_, pending := ?_, asked := ?_, worked := ?_ }
  · intro task member
    obtain ⟨run, runMember, same, kind⟩ := tasked.owned task member
    refine ⟨_, Table.mem_update_of_mem guard write runMember, ?_⟩
    split
    · have sameID : (write run).id = run.id := congrArg Prod.fst (stands run)
      have sameNode : (write run).node = run.node := congrArg (fun stand => stand.2.2) (stands run)
      exact ⟨sameID.trans same, sameNode ▸ kind⟩
    · exact ⟨same, kind⟩
  · intro run member unanswered
    obtain ⟨old, oldMember, rfl⟩ := Table.mem_update.mp member
    by_cases hit : guard old = true
    · rw [if_pos hit] at unanswered ⊢
      have sameID : (write old).id = old.id := congrArg Prod.fst (stands old)
      rcases apart old oldMember hit with cancelled | answered
      · exact Or.inr cancelled
      · exact absurd (sameID ▸ unanswered) answered
    · rw [if_neg hit] at unanswered ⊢
      exact tasked.pending old oldMember unanswered
  · intro run member waits
    obtain ⟨old, oldMember, rfl⟩ := Table.mem_update.mp member
    by_cases hit : guard old = true
    · rw [if_pos hit] at waits
      exact absurd waits (wakes old)
    · rw [if_neg hit] at waits ⊢
      exact tasked.asked old oldMember waits
  · intro item itemMember run member same
    obtain ⟨old, oldMember, rfl⟩ := Table.mem_update.mp member
    have stand : (if guard old = true then write old else old).stand = old.stand := by
      split
      · exact stands old
      · rfl
    have sameID := congrArg Prod.fst stand
    have sameNode := congrArg (fun stand : Nat × Nat × String => stand.2.2) stand
    rw [show (if guard old = true then write old else old).node = old.node from sameNode]
    exact tasked.worked item itemMember old oldMember (sameID.symm.trans same)

theorem setWork (work : WorkTables)
    (same : work.items.map (fun item => (item.id, item.nodeRun)) =
      db.work.items.map (fun item => (item.id, item.nodeRun))) : Tasked wf { db with work := work } := by
  refine { tasked with worked := fun item member => ?_ }
  obtain ⟨old, oldMember, sameKey⟩ := Table.exists_of_keys_eq same member
  have sameRun : old.nodeRun = item.nodeRun := congrArg Prod.snd sameKey
  exact sameRun ▸ tasked.worked old oldMember

theorem enqueueWork {nodeRun : Nat} (availableAt : Nat)
    (other : ∀ run ∈ db.nodeRuns, run.id = nodeRun → wf.kind? run.node ≠ some .approval) :
    Tasked wf (db.enqueueWork nodeRun availableAt) := by
  have later : Tasked wf { db with nextID := db.nextID + 1 } := tasked.congr rfl rfl rfl (Nat.le_succ _)
  refine { later with worked := fun item member run runMember same => ?_ }
  rcases List.mem_append.mp member with old | new
  · exact tasked.worked item old run runMember same
  · rw [List.mem_singleton.mp new] at same
    exact other run runMember same

theorem updateNodeRun {id : Nat} {state : NodeRunState} (outcome : String)
    (wakes : state ≠ .waitingHuman) (apart : state = .cancelled ∨ ¬ db.Unanswered id) :
    Tasked wf (db.updateNodeRun id state outcome) := by
  refine (tasked.update (·.id = id)
    (fun run => { run with state := state, outcome := if outcome = "" then run.outcome else outcome })
    (fun _ => rfl) (fun _ => wakes) fun run _ hit => ?_).congr rfl rfl rfl (Nat.le_refl _)
  rw [decide_eq_true_eq] at hit
  exact hit ▸ apart

theorem finishNodeRun {run : NodeRun} {state : NodeRunState} (outcome : String)
    (terminal : state.terminal = true) (apart : state = .cancelled ∨ ¬ db.Unanswered run.id) :
    Tasked wf (db.finishNodeRun run state outcome) := by
  refine (tasked.updateNodeRun outcome (fun waits => ?_) apart).congr rfl rfl rfl (Nat.le_refl _)
  rw [waits] at terminal
  contradiction

theorem cancelNodeRuns (lost : List Nat) : Tasked wf (db.cancelNodeRuns lost) := by
  have runs := tasked.update (fun run => lost.contains run.id)
    (fun run => { run with state := .cancelled }) (fun _ => rfl) (fun _ => NodeRunState.noConfusion)
    (fun _ _ _ => Or.inl rfl)
  have work := runs.setWork (db.work.reapNodeRunAppendages lost) (Table.update_keys fun _ => rfl)
  exact work.congr rfl rfl rfl (Nat.le_refl _)

theorem reapGroupBranches (group keep : Nat) : Tasked wf (db.reapGroupBranches group keep) :=
  (tasked.cancelNodeRuns _).congr rfl rfl rfl (Nat.le_refl _)

theorem reapRunState (keep : Nat) : Tasked wf (db.reapRunState keep) :=
  (tasked.cancelNodeRuns _).congr rfl rfl rfl (Nat.le_refl _)

end

section

variable (tasked : Tasked wf db) (keyed : Keyed wf db)

include tasked keyed

theorem owner_old {task : HumanTask} (member : task ∈ db.humanTasks) : task.nodeRun < db.nextID := by
  obtain ⟨run, runMember, same, _⟩ := tasked.owned task member
  exact same ▸ keyed.runsOld run runMember

theorem fresh {nodeRun : Nat} (new : db.nextID ≤ nodeRun) : ¬ db.Unanswered nodeRun := by
  rintro ⟨task, member, rfl, _⟩
  have older := tasked.owner_old keyed member
  omega

theorem not_unanswered {run : NodeRun} (member : run ∈ db.nodeRuns)
    (other : wf.kind? run.node ≠ some .approval) : ¬ db.Unanswered run.id := by
  rintro ⟨task, taskMember, same, _⟩
  obtain ⟨owner, ownerMember, sameOwner, kind⟩ := tasked.owned task taskMember
  rw [keyed.run_eq ownerMember member (sameOwner.trans same)] at kind
  exact other kind

theorem insertPair {node : String} {parent group : Option Nat} {originEvent : Option String}
    {state : NodeRunState} (wakes : state ≠ .waitingHuman) :
    Tasked wf ((db.insertToken node parent group originEvent).insertNodeRun db.nextID node state) := by
  have later : Tasked wf { db with nextID := db.nextID + 2 } :=
    tasked.congr rfl rfl rfl (Nat.le_add_right _ _)
  refine { later with owned := ?_, pending := ?_, asked := ?_, worked := ?_ }
  · intro task member
    obtain ⟨run, runMember, same⟩ := tasked.owned task member
    exact ⟨run, List.mem_append_left _ runMember, same⟩
  · intro run member unanswered
    rcases List.mem_append.mp member with old | new
    · exact tasked.pending run old unanswered
    · rw [List.mem_singleton.mp new] at unanswered
      exact absurd unanswered (tasked.fresh keyed (Nat.le_succ _))
  · intro run member waits
    rcases List.mem_append.mp member with old | new
    · exact tasked.asked run old waits
    · rw [List.mem_singleton.mp new] at waits
      exact absurd waits wakes
  · intro item itemMember run member same
    rcases List.mem_append.mp member with old | new
    · exact tasked.worked item itemMember run old same
    · have older := (keyed.itemsOld item itemMember).2
      have newer : run.id = db.nextID + 1 := by rw [List.mem_singleton.mp new]; rfl
      omega

theorem startApproval {node : Node} {parent group : Option Nat} {originEvent : Option String}
    (approval : wf.kind? node.id = some .approval) :
    Tasked wf (((db.insertToken node.id parent group originEvent).insertNodeRun db.nextID node.id
      .waitingHuman).insertHumanTask (db.nextID + 1) node.outcomes) := by
  refine ⟨?_, ?_, ?_, ?_, ?_, ?_, ?_⟩
  · refine Table.keys_append_nodup tasked.taskIDs fun member => ?_
    obtain ⟨task, taskMember, same⟩ := List.mem_map.mp member
    have older := tasked.tasksOld task taskMember
    have newer : task.id = db.nextID + 2 := same
    omega
  · intro task member
    rcases List.mem_append.mp member with old | new
    · exact Nat.lt_of_lt_of_le (tasked.tasksOld task old) (Nat.le_add_right _ 3)
    · rw [List.mem_singleton.mp new]
      exact Nat.lt_succ_self _
  · refine Table.keys_append_nodup tasked.single fun member => ?_
    obtain ⟨task, taskMember, same⟩ := List.mem_map.mp member
    have older := tasked.owner_old keyed taskMember
    have newer : task.nodeRun = db.nextID + 1 := same
    omega
  · intro task member
    rcases List.mem_append.mp member with old | new
    · obtain ⟨run, runMember, same⟩ := tasked.owned task old
      exact ⟨run, List.mem_append_left _ runMember, same⟩
    · rw [List.mem_singleton.mp new]
      exact ⟨_, List.mem_append_right _ (List.mem_singleton.mpr rfl), rfl, approval⟩
  · intro run member unanswered
    rcases List.mem_append.mp member with old | new
    · obtain ⟨task, taskMember, same, isPending⟩ := unanswered
      rcases List.mem_append.mp taskMember with oldTask | newTask
      · exact tasked.pending run old ⟨task, oldTask, same, isPending⟩
      · have older := keyed.runsOld run old
        have newer : db.nextID + 1 = run.id := by rw [← same, List.mem_singleton.mp newTask]
        omega
    · rw [List.mem_singleton.mp new]
      exact Or.inl rfl
  · intro run member waits
    rcases List.mem_append.mp member with old | new
    · obtain ⟨task, taskMember, same⟩ := tasked.asked run old waits
      exact ⟨task, List.mem_append_left _ taskMember, same⟩
    · rw [List.mem_singleton.mp new]
      exact ⟨_, List.mem_append_right _ (List.mem_singleton.mpr rfl), rfl, rfl⟩
  · intro item itemMember run member same
    rcases List.mem_append.mp member with old | new
    · exact tasked.worked item itemMember run old same
    · have older := (keyed.itemsOld item itemMember).2
      have newer : run.id = db.nextID + 1 := by rw [List.mem_singleton.mp new]; rfl
      omega

theorem startNode {node : Node} (parent group : Option Nat) (originEvent : Option String) (now : Nat)
    (declared : wf.kind? node.id = some node.kind) :
    Tasked wf (db.startNode node parent group originEvent now) := by
  unfold RunDb.startNode RunDb.dispatchNode dispatchState
  by_cases approval : node.kind = .approval
  · simp only [approval, if_true]
    exact tasked.startApproval keyed (approval ▸ declared)
  · simp only [approval, if_false]
    refine (tasked.insertPair keyed NodeRunState.noConfusion).enqueueWork now fun run member same => ?_
    rcases List.mem_append.mp member with old | new
    · have older := keyed.runsOld run old
      have newer : run.id = db.nextID + 1 := same
      omega
    · rw [List.mem_singleton.mp new, declared]
      exact fun isApproval => approval (Option.some.inj isApproval)

theorem reachEnd {node : Node} (parent group : Option Nat) (isEnd : node.kind = .endNode) :
    Tasked wf (db.reachEnd node parent group) := by
  have wakes : dispatchState node.kind ≠ .waitingHuman := by simp [dispatchState, isEnd]
  have entered : Tasked wf ((db.insertToken node.id parent group none).insertNodeRun db.nextID node.id
      (dispatchState node.kind)) := tasked.insertPair keyed wakes
  refine (entered.updateNodeRun "" NodeRunState.noConfusion (Or.inr ?_)).congr rfl rfl rfl (Nat.le_refl _)
  exact tasked.fresh keyed (Nat.le_succ _)

theorem gather (join : Node) (token group : Nat) (fromNode outcome : String) (output : Payload) :
    Tasked wf (db.gather join token group fromNode outcome output) := by
  have gathered : Tasked wf (db.joinBarrier join token group).1 := by
    unfold RunDb.joinBarrier
    split
    · exact tasked
    · exact tasked.insertPair keyed NodeRunState.noConfusion
  exact gathered.congr rfl rfl rfl (Nat.le_refl _)

theorem fireBarrier {barrier : NodeRun} (group : Nat) (early : Bool) (now : Nat)
    (atJoin : db.AtJoin wf barrier.id) : Tasked wf (db.fireBarrier barrier group early now) := by
  obtain ⟨run, member, same, kind⟩ := atJoin
  have other : wf.kind? run.node ≠ some .approval := by simp [kind]
  have ready : Tasked wf (db.updateNodeRun barrier.id .ready "") :=
    tasked.updateNodeRun "" NodeRunState.noConfusion
      (Or.inr (same ▸ tasked.not_unanswered keyed member other))
  have claimable : Tasked wf ((db.updateNodeRun barrier.id .ready "").enqueueWork barrier.id now) := by
    refine ready.enqueueWork now fun moved movedMember sameID => ?_
    obtain ⟨old, oldMember, stands⟩ := Table.exists_of_keys_eq
      (Table.update_keys fun _ => rfl : (Table.update db.nodeRuns (·.id = barrier.id) fun run =>
        { run with state := .ready, outcome := if "" = "" then run.outcome else "" }).map NodeRun.stand =
          db.nodeRuns.map NodeRun.stand) movedMember
    have oldID : old.id = moved.id := congrArg Prod.fst stands
    have oldNode : old.node = moved.node := congrArg (fun stand => stand.2.2) stands
    rw [← oldNode, keyed.run_eq oldMember member (oldID.trans (sameID.trans same.symm))]
    exact other
  have marked : Tasked wf { (db.updateNodeRun barrier.id .ready "").enqueueWork barrier.id now with
      journal := .fired barrier.id group ::
        ((db.updateNodeRun barrier.id .ready "").enqueueWork barrier.id now).journal } :=
    claimable.congr rfl rfl rfl (Nat.le_refl _)
  unfold RunDb.fireBarrier
  cases early with
  | true => exact marked.reapGroupBranches group barrier.token
  | false => exact marked

end

end Tasked

namespace RunDb

variable {db : RunDb}

def AddsTasks (before after : RunDb) : Prop :=
  ∃ added, after.humanTasks = before.humanTasks ++ added ∧ ∀ task ∈ added, before.nextID ≤ task.nodeRun

theorem AddsTasks.of_eq {after : RunDb} (same : after.humanTasks = db.humanTasks) :
    AddsTasks db after :=
  ⟨[], by rw [same, List.append_nil], by simp⟩

theorem AddsTasks.not_unanswered {after : RunDb} (adds : AddsTasks db after) {nodeRun : Nat}
    (known : nodeRun < db.nextID) (answered : ¬ db.Unanswered nodeRun) :
    ¬ after.Unanswered nodeRun := by
  rintro ⟨task, member, same, isPending⟩
  obtain ⟨added, isAdded, newer⟩ := adds
  rw [isAdded] at member
  rcases List.mem_append.mp member with old | new
  · exact answered ⟨task, old, same, isPending⟩
  · have new := newer task new
    omega

theorem startNode_addsTasks (node : Node) (parent group : Option Nat) (originEvent : Option String)
    (now : Nat) : AddsTasks db (db.startNode node parent group originEvent now) := by
  unfold startNode dispatchNode
  dsimp only
  split
  · exact ⟨[_], rfl, fun task member => by rw [List.mem_singleton.mp member]; exact Nat.le_succ _⟩
  · exact .of_eq rfl

theorem gather_humanTasks (join : Node) (token group : Nat) (fromNode outcome : String)
    (output : Payload) :
    (db.gather join token group fromNode outcome output).humanTasks = db.humanTasks := by
  unfold gather joinBarrier
  split <;> rfl

theorem fireBarrier_humanTasks (barrier : NodeRun) (group : Nat) (early : Bool) (now : Nat) :
    (db.fireBarrier barrier group early now).humanTasks = db.humanTasks := by
  unfold fireBarrier
  cases early <;> rfl

end RunDb

section

variable {wf : Workflow} {strict calm : Prop} {own : Nat} {here there : Hand × RunDb}

theorem Onward.addsTasks (step : Onward wf strict calm own here there) :
    RunDb.AddsTasks here.2 there.2 := by
  obtain ⟨held, turn, _⟩ := step
  cases turn with
  | note | work | hold | retry | pickUp | cancel | finish => exact absurd rfl held
  | put | putBranch => exact RunDb.startNode_addsTasks _ _ _ _ _
  | arrive => exact .of_eq (RunDb.gather_humanTasks _ _ _ _ _ _)
  | arriveBranch => exact .of_eq (RunDb.gather_humanTasks _ _ _ _ _ _)
  | fire => exact .of_eq (RunDb.fireBarrier_humanTasks _ _ _ _)
  | reachEnd | split | spread | settled | abandon | refinish | reap | retire | conclude => exact .of_eq rfl

/-- The rest of a transaction, whose own node run waits for nobody, keeps tasks and node runs tied. -/
theorem Onward.tasked (step : Onward wf strict calm own here there) (standing : Standing wf here)
    (tasked : Tasked wf here.2) (answered : ¬ here.2.Unanswered own) : Tasked wf there.2 := by
  obtain ⟨held, turn, spares⟩ := step
  have keyed := standing.keyed
  cases turn with
  | note | work | hold | retry | pickUp | cancel | finish => exact absurd rfl held
  | put parent now found _ _ => exact tasked.startNode keyed _ _ _ _ (wf.node?_declared found)
  | putBranch parent now found _ => exact tasked.startNode keyed _ _ _ _ (wf.node?_declared found)
  | reachEnd parent _ isEnd => exact tasked.reachEnd keyed _ _ isEnd
  | arrive token fromNode outcome output _ _ => exact tasked.gather keyed _ _ _ _ _ _
  | split nodeRun => exact tasked.congr rfl rfl rfl (Nat.le_succ _)
  | @arriveBranch db group edge rest join parent fromNode outcome output found isJoin =>
      have placed : Keyed wf ((db.insertToken join.id parent (some group) none).consumeToken db.nextID) :=
        (keyed.insertToken standing.lies).consumeToken _
      have tied : Tasked wf ((db.insertToken join.id parent (some group) none).consumeToken db.nextID) :=
        tasked.congr rfl rfl rfl (Nat.le_succ _)
      exact tied.gather placed _ _ _ _ _ _
  | spread => exact tasked
  | fire now _ _ _ _ atJoin => exact tasked.fireBarrier keyed _ _ now atJoin
  | settled _ => exact tasked
  | abandon _ => exact tasked
  | @refinish db other state recorded terminal _ _ =>
      refine tasked.finishNodeRun recorded terminal ?_
      -- the node run that is finished again is `own`, or it has this state already
      by_cases cancelled : state = .cancelled
      · exact Or.inl cancelled
      · refine Or.inr fun unanswered => ?_
        obtain ⟨task, taskMember, sameTask, isPending⟩ := unanswered
        obtain ⟨run, member, sameRun, _⟩ := tasked.owned task taskMember
        have moved := Table.mem_update_of_mem (fun run : NodeRun => decide (run.id = other.id))
          (fun run => { run with
            state := state, outcome := if recorded = "" then run.outcome else recorded }) member
        rw [if_pos (decide_eq_true (sameRun.trans sameTask))] at moved
        have isOther : other.id ≠ own := fun same =>
          answered ⟨task, taskMember, sameTask.trans same, isPending⟩
        obtain ⟨old, oldMember, oldID, oldState⟩ := spares rfl rfl _ moved
          (fun same => isOther ((sameRun.trans sameTask).symm.trans same)) cancelled
        have waits := tasked.pending old oldMember
          ⟨task, taskMember, sameRun.symm.trans oldID.symm, isPending⟩
        rw [show old.state = state from oldState] at waits
        rcases waits with waiting | isCancelled
        · rw [waiting] at terminal
          contradiction
        · exact cancelled isCancelled
  | reap keep _ => exact tasked.reapRunState keep
  | retire => exact tasked.congr rfl rfl rfl (Nat.le_refl _)
  | conclude output ending _ _ _ => exact tasked.congr rfl rfl rfl (Nat.le_refl _)

theorem Onward.known (step : Onward wf strict calm own here there)
    (known : ∃ run ∈ here.2.nodeRuns, run.id = own) : ∃ run ∈ there.2.nodeRuns, run.id = own := by
  obtain ⟨run, member, same⟩ := known
  obtain ⟨later, laterMember, stands⟩ := (Turns.extends (.single step.turn)).runs run member
  exact ⟨later, laterMember, (congrArg Prod.fst stands).trans same⟩

theorem Busy.tasked (busy : Busy wf strict calm own here there) (standing : Standing wf here)
    (tasked : Tasked wf here.2) (known : ∃ run ∈ here.2.nodeRuns, run.id = own)
    (answered : ¬ here.2.Unanswered own) :
    Tasked wf there.2 ∧ ∃ added, there.2.humanTasks = here.2.humanTasks ++ added := by
  have all : Standing wf there ∧ Tasked wf there.2 ∧ (∃ run ∈ there.2.nodeRuns, run.id = own) ∧
      ¬ there.2.Unanswered own ∧ ∃ added, there.2.humanTasks = here.2.humanTasks ++ added := by
    induction busy with
    | refl => exact ⟨standing, tasked, known, answered, [], by simp⟩
    | @tail middle last _ step ih =>
        obtain ⟨stands, tied, isKnown, isAnswered, added, isAdded⟩ := ih
        obtain ⟨run, member, same⟩ := isKnown
        refine ⟨step.turn.standing stands, step.tasked stands tied isAnswered,
          step.known ⟨run, member, same⟩, ?_, ?_⟩
        · exact step.addsTasks.not_unanswered (same ▸ stands.keyed.runsOld run member) isAnswered
        · obtain ⟨more, isMore, _⟩ := step.addsTasks
          exact ⟨added ++ more, by rw [isMore, isAdded, List.append_assoc]⟩
  obtain ⟨_, tied, _, _, added⟩ := all
  exact ⟨tied, added⟩

end

theorem DecisionRequest.mem_resolveTask (req : DecisionRequest) {db : RunDb} {task : HumanTask}
    (member : task ∈ db.humanTasks) (spared : task.id = req.task → task.status ≠ .pending) :
    task ∈ (req.resolveTask db).humanTasks := by
  refine Table.mem_update.mpr ⟨task, member, ?_⟩
  rw [if_neg]
  intro hit
  simp only [Bool.and_eq_true, decide_eq_true_eq] at hit
  exact spared hit.1 hit.2

namespace Tasked

variable {env : Env} {wf : Workflow} {db next : RunDb} (tasked : Tasked wf db)

include tasked

theorem resolveTask (req : DecisionRequest)
    (asleep : ∀ task ∈ db.humanTasks, task.id = req.task → ∀ run ∈ db.nodeRuns, run.id = task.nodeRun →
      run.state ≠ .waitingHuman) : Tasked wf (req.resolveTask db) := by
  refine { tasked with
    taskIDs := ?_, tasksOld := ?_, single := ?_, owned := ?_, pending := ?_, asked := ?_ }
  · have same : (req.resolveTask db).humanTasks.map HumanTask.id = db.humanTasks.map HumanTask.id :=
      Table.update_keys fun _ => rfl
    exact same ▸ tasked.taskIDs
  · intro task member
    obtain ⟨old, oldMember, rfl⟩ := Table.mem_update.mp member
    split
    · exact tasked.tasksOld old oldMember
    · exact tasked.tasksOld old oldMember
  · have same : (req.resolveTask db).humanTasks.map HumanTask.nodeRun =
        db.humanTasks.map HumanTask.nodeRun := Table.update_keys fun _ => rfl
    exact same ▸ tasked.single
  · intro task member
    obtain ⟨old, oldMember, rfl⟩ := Table.mem_update.mp member
    split
    · exact tasked.owned old oldMember
    · exact tasked.owned old oldMember
  · rintro run member ⟨task, taskMember, same, isPending⟩
    obtain ⟨old, oldMember, rfl⟩ := Table.mem_update.mp taskMember
    refine tasked.pending run member ⟨old, oldMember, ?_⟩
    split at same
    · rename_i hit
      rw [if_pos hit] at isPending
      cases expires : req.expiry <;> simp [expires] at isPending
    · rename_i missed
      rw [if_neg missed] at isPending
      exact ⟨same, isPending⟩
  · intro run member waits
    obtain ⟨task, taskMember, same, isPending⟩ := tasked.asked run member waits
    have other : task.id ≠ req.task := fun isTask =>
      asleep task taskMember isTask run member same.symm waits
    exact ⟨task, req.mem_resolveTask taskMember fun isTask => absurd isTask other, same, isPending⟩

theorem decided {req : DecisionRequest} {task : HumanTask} {run : NodeRun} {state : NodeRunState}
    (recorded : String) (taskMember : task ∈ db.humanTasks) (isTask : task.id = req.task)
    (isRun : run.id = task.nodeRun) (terminal : state.terminal = true) :
    Tasked wf ((req.resolveTask db).finishNodeRun run state recorded) ∧
      ¬ ((req.resolveTask db).finishNodeRun run state recorded).Unanswered run.id := by
  have answered : ¬ (req.resolveTask db).Unanswered run.id := by
    rintro ⟨other, otherMember, same, isPending⟩
    obtain ⟨old, oldMember, rfl⟩ := Table.mem_update.mp otherMember
    have sameRun : old.nodeRun = task.nodeRun := by
      rw [← isRun, ← same]
      split <;> rfl
    obtain rfl := Table.eq_of_key tasked.single oldMember taskMember sameRun
    by_cases hit : (old.id = req.task && old.status = .pending) = true
    · rw [if_pos hit] at isPending
      cases expires : req.expiry <;> simp [expires] at isPending
    · rw [if_neg hit] at isPending
      simp [isTask, isPending] at hit
  refine ⟨?_, answered⟩
  -- the node run may be taken out of `waiting_human` first, whatever its task says
  have cancelled : Tasked wf (db.updateNodeRun run.id .cancelled "") :=
    tasked.updateNodeRun "" NodeRunState.noConfusion (Or.inl rfl)
  have resolved : Tasked wf (req.resolveTask (db.updateNodeRun run.id .cancelled "")) := by
    refine cancelled.resolveTask req fun other otherMember isOther moved member sameRun waits => ?_
    obtain rfl := Table.eq_of_key tasked.taskIDs otherMember taskMember (isOther.trans isTask.symm)
    obtain ⟨old, oldMember, rfl⟩ := Table.mem_update.mp member
    by_cases hit : decide (old.id = run.id) = true
    · rw [if_pos hit] at waits
      contradiction
    · rw [if_neg hit] at sameRun
      exact hit (decide_eq_true (sameRun.trans isRun.symm))
  have finished : Tasked wf ((req.resolveTask (db.updateNodeRun run.id .cancelled "")).finishNodeRun run
      state recorded) := resolved.finishNodeRun recorded terminal (Or.inr answered)
  refine finished.congr rfl ?_ rfl (Nat.le_refl _)
  simp only [RunDb.finishNodeRun, RunDb.updateNodeRun, DecisionRequest.resolveTask, RunDb.consumeToken,
    Table.update, List.map_map]
  refine List.map_congr_left fun old _ => ?_
  by_cases hit : old.id = run.id <;> simp [hit]

end Tasked

/-- What an action does to the tasks: each stays as it is, unless it is pending and the action decides
or expires it while its node run waits for it. -/
def RunDb.Resolves (before : RunDb) (action : Action) (after : RunDb) : Prop :=
  ∀ task ∈ before.humanTasks, task ∈ after.humanTasks ∨
    (task.status = .pending ∧ ∃ req now, action = .decide req now ∧ req.task = task.id ∧
      { task with status := if req.expiry then HumanTaskStatus.expired else .decided } ∈ after.humanTasks ∧
      ∃ run ∈ before.nodeRuns, run.id = task.nodeRun ∧ run.state = .waitingHuman)

section

variable {env : Env} {wf : Workflow} {db next : RunDb}

theorem RunDb.Resolves.of_append {action : Action} {added : List HumanTask}
    (isAdded : next.humanTasks = db.humanTasks ++ added) : RunDb.Resolves db action next :=
  fun _ member => Or.inl (isAdded ▸ List.mem_append_left _ member)

theorem RunDb.Resolves.of_eq {action : Action} (same : next.humanTasks = db.humanTasks) :
    RunDb.Resolves db action next :=
  fun _ member => Or.inl (same ▸ member)

theorem RunDb.Resolves.of_decision {req : DecisionRequest} {now : Nat} {task : HumanTask} {run : NodeRun}
    {added : List HumanTask} (single : (db.humanTasks.map HumanTask.id).Nodup)
    (member : task ∈ db.humanTasks) (isTask : task.id = req.task) (runMember : run ∈ db.nodeRuns)
    (isRun : run.id = task.nodeRun) (waits : run.state = .waitingHuman)
    (isAdded : next.humanTasks = (req.resolveTask db).humanTasks ++ added) :
    RunDb.Resolves db (.decide req now) next := by
  intro other otherMember
  rw [isAdded]
  by_cases hit : other.id = req.task ∧ other.status = .pending
  · obtain rfl := Table.eq_of_key single otherMember member (hit.1.trans isTask.symm)
    refine Or.inr ⟨hit.2, req, now, rfl, isTask.symm, List.mem_append_left _ ?_, run, runMember, isRun, waits⟩
    have marked : (other.id = req.task && other.status = .pending) = true := by simp [hit.2, isTask]
    exact Table.mem_update.mpr ⟨other, member, by rw [if_pos marked]⟩
  · refine Or.inl (List.mem_append_left _ (req.mem_resolveTask otherMember fun same isPending => ?_))
    exact hit ⟨same, isPending⟩

theorem DecisionRequest.prepare_task {req : DecisionRequest} {now : Nat} {prepared : Prepared}
    (isPrepared : req.prepare wf db now = .ok prepared) :
    ∃ task ∈ db.humanTasks, task.id = req.task ∧ prepared.mover.nodeRun.id = task.nodeRun ∧
      prepared.mover.nodeRun ∈ db.nodeRuns ∧ prepared.mover.nodeRun.state = .waitingHuman ∧
      prepared.db = req.resolveTask db ∧ prepared.resolution = .transition req.outcome .completed := by
  obtain ⟨task, run, node, asked, named, owns, member, waits, _, _, rfl⟩ :=
    DecisionRequest.prepare_ok isPrepared
  exact ⟨task, asked, named, owns, member, waits, rfl, rfl⟩

namespace Tasked

variable (tasked : Tasked wf db)

include tasked

theorem markNodeRun {id : Nat} {expected : NodeRunState → Bool} {state : NodeRunState}
    (wakes : state ≠ .waitingHuman) (answered : ¬ db.Unanswered id) :
    Tasked wf (db.markNodeRun id expected state) := by
  refine (tasked.update (fun run => run.id = id && expected run.state)
    (fun run => { run with state := state }) (fun _ => rfl) (fun _ => wakes) fun run _ hit => ?_).congr
      rfl rfl rfl (Nat.le_refl _)
  simp only [Bool.and_eq_true, decide_eq_true_eq] at hit
  exact Or.inr (hit.1 ▸ answered)

theorem markFor {action : WorkAction} {owner : Nat} (answered : ¬ db.Unanswered owner) :
    Tasked wf (db.markFor action owner) := by
  unfold RunDb.markFor
  split
  · exact tasked.markNodeRun NodeRunState.noConfusion answered
  · exact tasked.markNodeRun NodeRunState.noConfusion answered
  · exact tasked.markNodeRun NodeRunState.noConfusion answered
  · exact tasked.markNodeRun NodeRunState.noConfusion answered
  · exact tasked.markNodeRun NodeRunState.noConfusion answered
  · exact tasked

theorem freeze (action : WorkAction) : Tasked wf (db.freeze action) := by
  unfold RunDb.freeze
  split
  · exact tasked.congr rfl rfl rfl (Nat.le_refl _)
  · exact tasked

theorem owner_answered {work owner : Nat}
    (named : db.work.nodeRunOf work = some owner) : ¬ db.Unanswered owner := by
  obtain ⟨item, found, rfl⟩ := Option.map_eq_some_iff.mp named
  rintro ⟨task, taskMember, same, _⟩
  obtain ⟨run, member, sameRun, kind⟩ := tasked.owned task taskMember
  exact tasked.worked item (List.mem_of_find?_eq_some found) run member (sameRun.trans same) kind

theorem workStatement {action : WorkAction}
    (acted : db.workStatement wf action = some next) : Tasked wf next := by
  obtain ⟨isCode, after, worker, performed, cases_⟩ := RunDb.workStatement_eq_some acted
  have moved := tasked.setWork after.tables (workerStatement_update worker performed).keys
  rcases cases_ with ⟨_, rfl⟩ | ⟨owner, owns, rfl⟩
  · exact moved.freeze action
  · obtain ⟨claim, _, named⟩ := Option.bind_eq_some_iff.mp owns
    exact (moved.markFor (tasked.owner_answered named)).freeze action

theorem cancelRunGuarded {parkedAt detail : String}
    (cancelled : db.cancelRunGuarded parkedAt detail = some next) : Tasked wf next := by
  rw [← RunDb.cancelRunGuarded_eq_some cancelled]
  have runs := tasked.update (fun run =>
      ((db.nodeRuns.filter fun run => !run.state.terminal).map NodeRun.id).contains run.id)
    (fun run => { run with state := .cancelled }) (fun _ => rfl) (fun _ => NodeRunState.noConfusion)
    (fun _ _ _ => Or.inl rfl)
  have work := runs.setWork db.work.cancelAll (Table.update_keys fun _ => rfl)
  exact work.congr rfl rfl rfl (Nat.le_refl _)

theorem prepared {req : CompletionRequest} {now : Nat} {prepared : Prepared}
    (isPrepared : req.prepare env wf db now = .ok prepared) :
    Tasked wf prepared.db ∧ prepared.db.humanTasks = db.humanTasks ∧
      ¬ prepared.db.Unanswered prepared.mover.nodeRun.id ∧
      ∀ run ∈ prepared.db.nodeRuns, run.id = prepared.mover.nodeRun.id →
        wf.kind? run.node ≠ some .approval := by
  obtain ⟨work, _, _, _, _, completed, named, _, _, _, _, rfl⟩ := CompletionRequest.prepare_ok isPrepared
  have keys : work.items.map (fun item => (item.id, item.nodeRun)) =
      db.work.items.map (fun item => (item.id, item.nodeRun)) := by
    obtain ⟨_, rfl⟩ := Store.updateItems?_eq_some completed
    exact Table.update_keys fun _ => rfl
  refine ⟨(tasked.setWork _ keys).congr rfl rfl rfl (Nat.le_refl _), rfl, tasked.owner_answered named, ?_⟩
  obtain ⟨item, found, isOwner⟩ := Option.map_eq_some_iff.mp named
  intro run member same
  exact tasked.worked item (List.mem_of_find?_eq_some found) run member (same.trans isOwner.symm)

theorem pickUpRoute (keyed : Keyed wf db) {route now : Nat} {event : PickupEvent}
    (picked : pickUpRoute env wf db route event now = some next) :
    Tasked wf next ∧ ∃ added, next.humanTasks = db.humanTasks ++ added := by
  unfold Engine.pickUpRoute at picked
  split at picked
  · contradiction
  · have done := toOption_some picked
    unfold pickUpEvent at done
    split at done
    · rw [← Except.ok.inj done]
      exact ⟨tasked, [], by simp⟩
    · split at done
      · contradiction
      · split at done
        · contradiction
        · rename_i node target
          split at done
          · rw [← Except.ok.inj done]
            exact ⟨tasked, [], by simp⟩
          · rw [← Except.ok.inj done]
            obtain ⟨added, isAdded, _⟩ := db.startNode_addsTasks node none none (some event.id) now
            exact ⟨tasked.startNode keyed _ _ _ _ (wf.node?_declared target), added, isAdded⟩

end Tasked

theorem RunDb.workStatement_humanTasks {action : WorkAction}
    (done : db.workStatement wf action = some next) : next.humanTasks = db.humanTasks := by
  obtain ⟨isCode, after, _, _, cases_⟩ := RunDb.workStatement_eq_some done
  have frozen : ∀ other : RunDb, (other.freeze action).humanTasks = other.humanTasks := by
    intro other
    unfold RunDb.freeze
    split <;> rfl
  rcases cases_ with ⟨_, rfl⟩ | ⟨owner, _, rfl⟩
  · exact frozen _
  · rw [frozen]
    unfold RunDb.markFor
    split <;> rfl

theorem RunDb.cancelRunGuarded_humanTasks {parkedAt detail : String}
    (done : db.cancelRunGuarded parkedAt detail = some next) : next.humanTasks = db.humanTasks := by
  rw [← RunDb.cancelRunGuarded_eq_some done]
  rfl

/-- A transition whose node run waits for nobody once it has ended. -/
theorem Prepared.Ends.tasked {prepared : Prepared} (ends : prepared.Ends wf False False next)
    (standing : Standing wf (.idle, prepared.db)) (member : prepared.mover.nodeRun ∈ prepared.db.nodeRuns)
    (answered : ¬ prepared.db.Unanswered prepared.mover.nodeRun.id)
    (finished : ∀ state recorded, state.terminal = true →
      Tasked wf (prepared.db.finishNodeRun prepared.mover.nodeRun state recorded)) :
    Tasked wf next ∧ ∃ added, next.humanTasks = prepared.db.humanTasks ++ added := by
  obtain ⟨hand, state, recorded, _, terminal, turn, busy⟩ := ends.carried
  obtain ⟨later, laterMember, same⟩ := (Turns.extends (.single turn)).runs _ member
  exact Busy.tasked busy (turn.standing standing) (finished state recorded terminal)
    ⟨later, laterMember, congrArg Prod.fst same⟩ answered

theorem Tasked.act {action : Action} (tasked : Tasked wf db) (standing : Standing wf (.idle, db))
    (acted : db.act env wf action = some next) : Tasked wf next ∧ RunDb.Resolves db action next := by
  cases action with
  | complete req now =>
      obtain ⟨prepared, isPrepared, done⟩ := completeAttempt_ok (toOption_some acted)
      obtain ⟨turns, ready⟩ : Turns wf False False (.idle, db) (.idle, prepared.db) ∧
          prepared.Ready wf False :=
        CompletionRequest.prepare_ready standing.keyed False.elim isPrepared
      obtain ⟨held, sameTasks, answered, other⟩ := tasked.prepared isPrepared
      have stands := Turns.standing turns standing
      rcases ready.carryOut_ends stands False.elim False.elim False.elim done with
        ends | ⟨availableAt, _, rfl⟩
      · obtain ⟨tied, added, isAdded⟩ := Prepared.Ends.tasked ends stands ready.member answered
          fun state recorded terminal => held.finishNodeRun recorded terminal (Or.inr answered)
        exact ⟨tied, .of_append (sameTasks ▸ isAdded)⟩
      · have queued := held.enqueueWork availableAt other
        exact ⟨queued.updateNodeRun "" NodeRunState.noConfusion (Or.inr answered), .of_eq sameTasks⟩
  | decide req now =>
      obtain ⟨prepared, isPrepared, done⟩ := decideHumanTask_ok (toOption_some acted)
      obtain ⟨turns, ready⟩ : Turns wf False False (.idle, db) (.idle, prepared.db) ∧
          prepared.Ready wf False :=
        DecisionRequest.prepare_ready standing.keyed False.elim isPrepared
      obtain ⟨task, taskMember, isTask, isRun, member, waits, isResolved, resolution⟩ :=
        DecisionRequest.prepare_task isPrepared
      rcases ready.carryOut_ends (Turns.standing turns standing) False.elim False.elim False.elim done
        with ends | ⟨availableAt, isRetry, _⟩
      · have finished : ∀ state recorded, state.terminal = true →
            Tasked wf (prepared.db.finishNodeRun prepared.mover.nodeRun state recorded) := by
          intro state recorded terminal
          rw [isResolved]
          exact (tasked.decided recorded taskMember isTask isRun terminal).1
        have answered : ¬ prepared.db.Unanswered prepared.mover.nodeRun.id := by
          rw [isResolved]
          exact (tasked.decided "" taskMember isTask isRun NodeRunState.completed_terminal).2
        obtain ⟨tied, added, isAdded⟩ := Prepared.Ends.tasked ends (Turns.standing turns standing)
          ready.member answered finished
        rw [isResolved] at isAdded
        exact ⟨tied, .of_decision tasked.taskIDs taskMember isTask member isRun waits isAdded⟩
      · rw [resolution] at isRetry
        contradiction
  | pickUp route event now =>
      obtain ⟨tied, added, isAdded⟩ := tasked.pickUpRoute standing.keyed acted
      exact ⟨tied, .of_append isAdded⟩
  | cancel parkedAt detail =>
      exact ⟨tasked.cancelRunGuarded acted, .of_eq (RunDb.cancelRunGuarded_humanTasks acted)⟩
  | work action => exact ⟨tasked.workStatement acted, .of_eq (RunDb.workStatement_humanTasks acted)⟩

theorem createRun_tasked {input : Payload} {now : Nat} (made : createRun env wf input now = .ok db) :
    Tasked wf db ∧ ∀ run ∈ db.nodeRuns, run.state ≠ .cancelled := by
  obtain ⟨entry, routes, limit, found, _, _, rfl⟩ := createRun_ok made
  have declared : wf.kind? wf.entry = some entry.kind := wf.node?_id found ▸ wf.node?_declared found
  unfold RunDb.dispatchNode
  by_cases approval : entry.kind = .approval
  · rw [if_pos approval]
    refine ⟨?_, by simp [RunDb.insertHumanTask, RunDb.insertNodeRun, RunDb.insertToken, dispatchState,
      approval]⟩
    constructor <;> simp [RunDb.insertHumanTask, RunDb.insertNodeRun, RunDb.insertToken, RunDb.Unanswered,
      dispatchState, approval, declared]
  · rw [if_neg approval]
    refine ⟨?_, by simp [RunDb.enqueueWork, RunDb.insertNodeRun, RunDb.insertToken, dispatchState,
      approval]⟩
    constructor <;> simp [RunDb.enqueueWork, Store.WorkTables.enqueueWork, RunDb.insertNodeRun,
      RunDb.insertToken, RunDb.Unanswered, dispatchState, approval, declared]

theorem Reaches.tasked (reaches : Reaches env wf anyAction db) :
    Standing wf (.idle, db) ∧ Tasked wf db := by
  obtain ⟨input, now, created, made, steps⟩ := reaches
  refine steps.invariant (fun db => Standing wf (.idle, db) ∧ Tasked wf db)
    ⟨(createRun_created made).standing, (createRun_tasked made).1⟩ ?_
  rintro here action there ⟨standing, tasked⟩ _ acted
  have turns : Turns wf False False (.idle, here) (.idle, there) :=
    act_turns standing False.elim False.elim False.elim acted
  exact ⟨Turns.standing turns standing, (tasked.act standing acted).1⟩

theorem decideHumanTask_refused (tasked : Tasked wf db) {req : DecisionRequest} {now : Nat}
    {task : HumanTask} (member : task ∈ db.humanTasks) (isTask : task.id = req.task)
    (asleep : ∀ run ∈ db.nodeRuns, run.id = task.nodeRun → run.state ≠ .waitingHuman) :
    ∃ error, decideHumanTask env wf now db req = .error error := by
  unfold decideHumanTask
  cases isPrepared : req.prepare wf db now with
  | error error => exact ⟨error, rfl⟩
  | ok prepared =>
      obtain ⟨other, otherMember, isOther, isRun, runMember, waits, _⟩ :=
        DecisionRequest.prepare_task isPrepared
      obtain rfl := Table.eq_of_key tasked.taskIDs otherMember member (isOther.trans isTask.symm)
      exact absurd waits (asleep _ runMember isRun)

/-- In every state that a run can reach: a node run that waits for a person has exactly one task, and it
is pending; a pending task's node run waits for it or is cancelled, and then no decision and no expiry
of it goes through; and a task is resolved at most once, by a decision or an expiry that finds its node
run waiting. -/
theorem tasks_tied_and_resolved_once (reaches : Reaches env wf anyAction db) :
    (∀ run ∈ db.nodeRuns, run.state = .waitingHuman → ∃ task ∈ db.humanTasks, task.nodeRun = run.id ∧
        task.status = .pending ∧ ∀ other ∈ db.humanTasks, other.nodeRun = run.id → other = task) ∧
      (∀ task ∈ db.humanTasks, task.status = .pending → ∃ run ∈ db.nodeRuns, run.id = task.nodeRun ∧
        (run.state = .waitingHuman ∨ (run.state = .cancelled ∧ ∀ req now, req.task = task.id →
          ∃ error, decideHumanTask env wf now db req = .error error))) ∧
      (∀ action next, db.act env wf action = some next → RunDb.Resolves db action next) ∧
      ∀ later, Steps (RunDb.step env wf) anyAction db later → ∀ task ∈ db.humanTasks,
        task.status ≠ .pending → task ∈ later.humanTasks := by
  obtain ⟨standing, tasked⟩ := reaches.tasked
  refine ⟨fun run member waits => ?_, fun task member isPending => ?_,
    fun action next acted => (tasked.act standing acted).2, fun later steps task member resolved => ?_⟩
  · obtain ⟨task, taskMember, same, isPending⟩ := tasked.asked run member waits
    refine ⟨task, taskMember, same, isPending, fun other otherMember sameOther => ?_⟩
    exact Table.eq_of_key tasked.single otherMember taskMember (sameOther.trans same.symm)
  · obtain ⟨run, runMember, same, _⟩ := tasked.owned task member
    refine ⟨run, runMember, same, ?_⟩
    rcases tasked.pending run runMember ⟨task, member, same.symm, isPending⟩ with waits | cancelled
    · exact Or.inl waits
    · refine Or.inr ⟨cancelled, fun req now isTask => ?_⟩
      refine decideHumanTask_refused tasked member isTask.symm fun other otherMember sameOther waits => ?_
      rw [standing.keyed.run_eq otherMember runMember (sameOther.trans same.symm), cancelled] at waits
      contradiction
  · induction steps with
    | refl => exact member
    | @tail here there action earlier _ acted ih =>
        have along : Reaches env wf anyAction here := by
          obtain ⟨input, now, created, made, first⟩ := reaches
          exact ⟨input, now, created, made, first.trans earlier⟩
        obtain ⟨stands, tied⟩ := along.tasked
        rcases (tied.act stands acted).2 task ih with kept | ⟨isPending, _⟩
        · exact kept
        · exact absurd isPending resolved

/-- The step cancels no approval node run, be it one that waits or one the step itself has started. -/
def spares (env : Env) (wf : Workflow) (db : RunDb) (action : Action) : Bool :=
  (db.act env wf action).all fun next => next.nodeRuns.all fun run =>
    run.state ≠ .cancelled || wf.kind? run.node ≠ some .approval ||
      db.nodeRuns.any fun old => old.id = run.id && old.state = .cancelled

def Spares (env : Env) (wf : Workflow) (db : RunDb) (action : Action) : Prop := spares env wf db action = true

def RunDb.Spared (wf : Workflow) (db : RunDb) : Prop :=
  ∀ run ∈ db.nodeRuns, run.state = .cancelled → wf.kind? run.node ≠ some .approval

theorem RunDb.Spared.act {action : Action} (spared : db.Spared wf) (spares : Spares env wf db action)
    (turns : Turns wf False False (.idle, db) (.idle, next)) (keyed : Keyed wf next)
    (acted : db.act env wf action = some next) : next.Spared wf := by
  intro run member cancelled approval
  rw [Spares, Engine.spares, acted, Option.all_some, List.all_eq_true] at spares
  have before := spares run member
  simp only [cancelled, approval, ne_eq, not_true_eq_false, decide_false, Bool.false_or, List.any_eq_true,
    Bool.and_eq_true, decide_eq_true_eq] at before
  obtain ⟨old, oldMember, sameID, wasCancelled⟩ := before
  obtain ⟨later, laterMember, stands⟩ := (Turns.extends turns).runs old oldMember
  obtain rfl := keyed.run_eq laterMember member ((congrArg Prod.fst stands).trans sameID)
  have sameNode : later.node = old.node := congrArg (fun stand => stand.2.2) stands
  exact spared old oldMember wasCancelled (sameNode ▸ approval)

theorem Reaches.spared (reaches : Reaches env wf (Spares env wf) db) : Awaited db ∧ db.Spared wf := by
  obtain ⟨input, now, created, made, steps⟩ := reaches
  have isCreated := createRun_created made
  have manned : Awaited created := by
    obtain ⟨state, entered⟩ := isCreated.entered
    refine ⟨fun run member _ => ⟨_, isCreated.tokens ▸ List.mem_singleton_self _, ?_⟩, fun ended => ?_⟩
    · rw [entered] at member
      rw [List.mem_singleton.mp member]
      exact ⟨rfl, rfl⟩
    · rw [isCreated.state] at ended
      contradiction
  have initial : Standing wf (.idle, created) ∧ Awaited created ∧ created.Spared wf :=
    ⟨isCreated.standing, manned, fun run member cancelled =>
      absurd cancelled ((createRun_tasked made).2 run member)⟩
  refine (steps.invariant (fun db => Standing wf (.idle, db) ∧ Awaited db ∧ db.Spared wf) initial ?_).2
  rintro here action there ⟨standing, awaited, spared⟩ spares acted
  have turns : Turns wf False False (.idle, here) (.idle, there) :=
    act_turns standing False.elim False.elim False.elim acted
  have stands := Turns.standing turns standing
  exact ⟨stands, Turns.awaited turns standing awaited, spared.act spares turns stands.keyed acted⟩

/-- In every state of a run whose steps cancel no approval node run: every task belongs to one node run of
the run, is pending exactly while that node run waits for a person, and is not pending once the run has ended;
a node run that waits has exactly one task; and a task is resolved at most once, by a decision or an expiry of
it, and is then kept whatever follows. -/
theorem tasks_pending_exactly_while_waiting (reaches : Reaches env wf (Spares env wf) db) :
    (∀ task ∈ db.humanTasks, ∃ run ∈ db.nodeRuns, run.id = task.nodeRun ∧
        (∀ other ∈ db.nodeRuns, other.id = task.nodeRun → other = run) ∧
        (task.status = .pending ↔ run.state = .waitingHuman) ∧
        (task.status = .pending → db.state.terminal = false)) ∧
      (∀ run ∈ db.nodeRuns, run.state = .waitingHuman → ∃ task ∈ db.humanTasks, task.nodeRun = run.id ∧
        ∀ other ∈ db.humanTasks, other.nodeRun = run.id → other = task) ∧
      (∀ action next, db.act env wf action = some next → RunDb.Resolves db action next) ∧
      ∀ later, Steps (RunDb.step env wf) anyAction db later → ∀ task ∈ db.humanTasks,
        task.status ≠ .pending → task ∈ later.humanTasks := by
  have anywhere : Reaches env wf anyAction db := by
    obtain ⟨input, now, created, made, steps⟩ := reaches
    exact ⟨input, now, created, made, steps.mono fun _ _ _ => trivial⟩
  obtain ⟨awaited, spared⟩ := reaches.spared
  obtain ⟨standing, tasked⟩ := anywhere.tasked
  obtain ⟨alone, _, resolves, final⟩ := tasks_tied_and_resolved_once anywhere
  refine ⟨fun task member => ?_, fun run member waits => ?_, resolves, final⟩
  · obtain ⟨run, runMember, same, approval⟩ := tasked.owned task member
    have only : ∀ other ∈ db.nodeRuns, other.id = task.nodeRun → other = run := fun other otherMember isOther =>
      standing.keyed.run_eq otherMember runMember (isOther.trans same.symm)
    have waits : task.status = .pending → run.state = .waitingHuman := by
      intro isPending
      rcases tasked.pending run runMember ⟨task, member, same.symm, isPending⟩ with waits | cancelled
      · exact waits
      · exact absurd approval (spared run runMember cancelled)
    refine ⟨run, runMember, same, only, ⟨waits, fun isWaiting => ?_⟩, fun isPending => ?_⟩
    · obtain ⟨its, _, _, isPending, single⟩ := alone run runMember isWaiting
      rw [single task member same.symm]
      exact isPending
    · refine Bool.eq_false_iff.mpr fun ended => ?_
      exact awaited.quiet ended run runMember (waits isPending)
  · obtain ⟨task, taskMember, same, _, single⟩ := alone run member waits
    exact ⟨task, taskMember, same, single⟩

end

def approvalChain : Workflow where
  entry := "review"
  nodes := [{ id := "review", kind := .approval, outcomes := ["approved", "expired"] },
    { id := "sign", kind := .approval, outcomes := ["approved", "expired"] }]
  edges := [{ fromNode := "review", fromOutcome := "approved", target := "sign" }]

theorem tasks_pending_chain : ∃ db first second,
    Reaches Env.permissive approvalChain (Spares Env.permissive approvalChain) db ∧
    db.humanTasks = [first, second] ∧ first.status = .decided ∧ second.status = .pending ∧
    ∃ run ∈ db.nodeRuns, run.id = second.nodeRun ∧ run.state = .waitingHuman := by
  have ran : (replay Env.permissive approvalChain (spares Env.permissive approvalChain)
      [.decide { task := 2, outcome := "approved" } 1]).map RunDb.humanTasks =
        some [⟨2, 1, ["approved", "expired"], .decided⟩, ⟨5, 4, ["approved", "expired"], .pending⟩] := by decide
  obtain ⟨db, reached, tasks⟩ := Option.map_eq_some_iff.mp ran
  have reaches : Reaches Env.permissive approvalChain (Spares Env.permissive approvalChain) db :=
    Reaches.of_replay (fun _ _ passes => passes) reached
  have member : ⟨5, 4, ["approved", "expired"], .pending⟩ ∈ db.humanTasks :=
    tasks ▸ List.mem_cons_of_mem _ (List.mem_singleton_self _)
  obtain ⟨run, runMember, same, _, waits, _⟩ := (tasks_pending_exactly_while_waiting reaches).1 _ member
  exact ⟨db, _, _, reaches, tasks, rfl, rfl, run, runMember, same, waits.mp rfl⟩

/-- One node that waits for a person. -/
def approvalOnly : Workflow where
  entry := "review"
  nodes := [{ id := "review", kind := .approval, outcomes := ["approved", "rejected", "expired"] }]
  edges := []

/-- A cancelled run keeps its task pending. -/
theorem cancelled_keeps_task_pending : ∃ db, Reaches Env.permissive approvalOnly anyAction db ∧
    db.state = .cancelled ∧ db.nodeRuns = [⟨1, 0, "review", .cancelled, ""⟩] ∧
    db.humanTasks = [⟨2, 1, ["approved", "rejected", "expired"], .pending⟩] := by
  have ran : (replay Env.permissive approvalOnly (fun _ _ => true) [.cancel "" "stop"]).map
      (fun db => (db.state, db.nodeRuns, db.humanTasks)) = some (.cancelled,
        [⟨1, 0, "review", .cancelled, ""⟩], [⟨2, 1, ["approved", "rejected", "expired"], .pending⟩]) := by
    decide
  obtain ⟨db, reached, facts⟩ := Option.map_eq_some_iff.mp ran
  simp only [Prod.mk.injEq] at facts
  exact ⟨db, Reaches.of_replay (fun _ _ _ => trivial) reached, facts⟩

end CultureNodes.Engine
