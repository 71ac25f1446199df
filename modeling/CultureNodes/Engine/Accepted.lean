import CultureNodes.Engine.HumanTasks
import CultureNodes.Engine.Loading

/-!
What acceptance is worth. The compiler reports an entry or an edge that names a node the document does not
declare; the engine looks the same names up again while a run is under way, where a name that is not found
rolls the transaction back for good. Runs of accepted documents never come to that.
-/

namespace CultureNodes.Engine

open Store (WorkTables WorkItem WorkAction)

/-- The transaction found its own rows, or the pinned definition, broken; no other request would do better. -/
def EngineError.internal : EngineError → Bool
  | .workflow _ => true
  | .notFound what _ => what ≠ "work item" && what ≠ "human task"
  | _ => false

/-- Every node the workflow names is one of its nodes. -/
structure Workflow.Closed (wf : Workflow) : Prop where
  entry : (wf.node? wf.entry).isSome
  targets : ∀ edge ∈ wf.edges, (wf.node? edge.target).isSome

/-- What a route keeps of the edge it was made from. -/
def EventRoute.source (route : EventRoute) : String × String × String :=
  (route.eventName, route.targetNode, route.guard)

structure Declared (wf : Workflow) (db : RunDb) : Prop where
  nodes : ∀ run ∈ db.nodeRuns, (wf.node? run.node).isSome
  items : ∀ item ∈ db.work.items, ∃ run ∈ db.nodeRuns, run.id = item.nodeRun
  routes : ∀ route ∈ db.eventRoutes, ∃ edge ∈ wf.edges,
    (edge.onEvent, edge.target, edge.guard) = route.source

namespace Declared

variable {wf : Workflow} {db next : RunDb}

section

variable (declared : Declared wf db)

include declared

/-- Rows may change in everything but the names they hold. -/
theorem congr (runs : next.nodeRuns.map NodeRun.stand = db.nodeRuns.map NodeRun.stand)
    (items : next.work.items.map WorkItem.nodeRun = db.work.items.map WorkItem.nodeRun)
    (routes : next.eventRoutes.map EventRoute.source = db.eventRoutes.map EventRoute.source) :
    Declared wf next := by
  refine ⟨fun run member => ?_, fun item member => ?_, fun route member => ?_⟩
  · obtain ⟨old, oldMember, stands⟩ := Table.exists_of_keys_eq runs member
    have sameNode : old.node = run.node := congrArg (fun stand => stand.2.2) stands
    exact sameNode ▸ declared.nodes old oldMember
  · obtain ⟨old, oldMember, sameOwner⟩ := Table.exists_of_keys_eq items member
    obtain ⟨run, runMember, owns⟩ := declared.items old oldMember
    obtain ⟨later, laterMember, stands⟩ := Table.exists_of_keys_eq runs.symm runMember
    exact ⟨later, laterMember, (congrArg Prod.fst stands).trans (owns.trans sameOwner)⟩
  · obtain ⟨old, oldMember, sameSource⟩ := Table.exists_of_keys_eq routes member
    obtain ⟨edge, isEdge, same⟩ := declared.routes old oldMember
    exact ⟨edge, isEdge, same.trans sameSource⟩

theorem insertNodeRun {node : String} (known : (wf.node? node).isSome) (token : Nat) (state : NodeRunState) :
    Declared wf (db.insertNodeRun token node state) := by
  refine { declared with nodes := fun run member => ?_, items := fun item member => ?_ }
  · rcases List.mem_append.mp member with old | new
    · exact declared.nodes run old
    · rw [List.mem_singleton.mp new]
      exact known
  · obtain ⟨run, runMember, owns⟩ := declared.items item member
    exact ⟨run, List.mem_append_left _ runMember, owns⟩

theorem enqueueWork {nodeRun : Nat} (owned : ∃ run ∈ db.nodeRuns, run.id = nodeRun) (availableAt : Nat) :
    Declared wf (db.enqueueWork nodeRun availableAt) := by
  refine { declared with items := fun item member => ?_ }
  rcases List.mem_append.mp member with old | new
  · exact declared.items item old
  · rw [List.mem_singleton.mp new]
    exact owned

theorem updateNodeRun (id : Nat) (state : NodeRunState) (outcome : String) :
    Declared wf (db.updateNodeRun id state outcome) :=
  declared.congr (Table.update_keys fun _ => rfl) rfl rfl

theorem finishNodeRun (run : NodeRun) (state : NodeRunState) (outcome : String) :
    Declared wf (db.finishNodeRun run state outcome) :=
  declared.congr (Table.update_keys fun _ => rfl) rfl rfl

theorem cancelNodeRuns (lost : List Nat) : Declared wf (db.cancelNodeRuns lost) :=
  declared.congr (Table.update_keys fun _ => rfl) (Table.update_keys fun _ => rfl) rfl

theorem retireEventRoutes : Declared wf db.retireEventRoutes :=
  declared.congr rfl rfl (Table.update_keys fun _ => rfl)

theorem reapRunState (keep : Nat) : Declared wf (db.reapRunState keep) :=
  Declared.retireEventRoutes ((declared.cancelNodeRuns _).congr rfl rfl rfl)

theorem reapGroupBranches (group keep : Nat) : Declared wf (db.reapGroupBranches group keep) :=
  (declared.cancelNodeRuns _).congr rfl rfl rfl

theorem dispatchNode {nodeRun : Nat} (owned : ∃ run ∈ db.nodeRuns, run.id = nodeRun) (node : Node) (now : Nat) :
    Declared wf (db.dispatchNode node nodeRun now) := by
  unfold RunDb.dispatchNode
  split
  · exact declared.congr rfl rfl rfl
  · exact declared.enqueueWork owned now

theorem insertPair {node : String} (known : (wf.node? node).isSome) (parent group : Option Nat)
    (originEvent : Option String) (state : NodeRunState) :
    Declared wf ((db.insertToken node parent group originEvent).insertNodeRun db.nextID node state) :=
  (@congr wf db (db.insertToken node parent group originEvent) declared rfl rfl rfl).insertNodeRun known _ _

theorem startNode {id : String} {node : Node} (found : wf.node? id = some node) (parent group : Option Nat)
    (originEvent : Option String) (now : Nat) : Declared wf (db.startNode node parent group originEvent now) := by
  have known : (wf.node? node.id).isSome := by rw [wf.node?_id found, found]; rfl
  refine (declared.insertPair known parent group originEvent _).dispatchNode ?_ node now
  exact ⟨_, List.mem_append_right _ (List.mem_singleton.mpr rfl), rfl⟩

theorem reachEnd {id : String} {node : Node} (found : wf.node? id = some node) (parent group : Option Nat) :
    Declared wf (db.reachEnd node parent group) := by
  have known : (wf.node? node.id).isSome := by rw [wf.node?_id found, found]; rfl
  exact ((declared.insertPair known parent group none _).updateNodeRun _ _ _).congr rfl rfl rfl

theorem gather {id : String} {join : Node} (found : wf.node? id = some join) (token group : Nat)
    (fromNode outcome : String) (output : Payload) :
    Declared wf (db.gather join token group fromNode outcome output) := by
  have known : (wf.node? join.id).isSome := by rw [wf.node?_id found, found]; rfl
  have gathered : Declared wf (db.joinBarrier join token group).1 := by
    unfold RunDb.joinBarrier
    split
    · exact declared
    · exact declared.insertPair known (some token) (some group) none _
  exact gathered.congr rfl rfl rfl

theorem fireBarrier {barrier : NodeRun} (owned : ∃ run ∈ db.nodeRuns, run.id = barrier.id) (group : Nat)
    (early : Bool) (now : Nat) : Declared wf (db.fireBarrier barrier group early now) := by
  have awake : ∃ run ∈ (db.updateNodeRun barrier.id .ready "").nodeRuns, run.id = barrier.id := by
    obtain ⟨run, member, same⟩ := owned
    refine ⟨_, Table.mem_update_of_mem _ _ member, ?_⟩
    split <;> exact same
  have marked : Declared wf { (db.updateNodeRun barrier.id .ready "").enqueueWork barrier.id now with
      journal := .fired barrier.id group ::
        ((db.updateNodeRun barrier.id .ready "").enqueueWork barrier.id now).journal } :=
    ((declared.updateNodeRun barrier.id .ready "").enqueueWork awake now).congr rfl rfl rfl
  unfold RunDb.fireBarrier
  dsimp only
  split
  · exact marked.reapGroupBranches group _
  · exact marked

theorem markFor (action : WorkAction) (owner : Nat) : Declared wf (db.markFor action owner) := by
  have marked : ∀ expected state, Declared wf (db.markNodeRun owner expected state) := fun _ _ =>
    declared.congr (Table.update_keys fun _ => rfl) rfl rfl
  unfold RunDb.markFor
  split
  all_goals first | exact marked _ _ | exact declared

theorem freeze (action : WorkAction) : Declared wf (db.freeze action) := by
  unfold RunDb.freeze
  split
  · exact declared.congr rfl rfl rfl
  · exact declared

theorem workStatement {action : WorkAction} (acted : db.workStatement wf action = some next) :
    Declared wf next := by
  obtain ⟨isCode, after, worker, performed, cases_⟩ := RunDb.workStatement_eq_some acted
  have moved : Declared wf { db with work := after.tables } :=
    declared.congr rfl (Table.keys_eq_map Prod.snd (workerStatement_update worker performed).keys) rfl
  rcases cases_ with ⟨_, rfl⟩ | ⟨owner, _, rfl⟩
  · exact moved.freeze action
  · exact (moved.markFor action owner).freeze action

theorem cancelRunGuarded {parkedAt detail : String}
    (cancelled : db.cancelRunGuarded parkedAt detail = some next) : Declared wf next := by
  rw [← RunDb.cancelRunGuarded_eq_some cancelled]
  exact declared.congr (Table.update_keys fun _ => rfl) (Table.update_keys fun _ => rfl)
    (Table.update_keys fun _ => rfl)

end

end Declared

section

variable {env : Env} {wf : Workflow} {strict calm : Prop} {db : RunDb} {here there : Hand × RunDb}

theorem Turn.declared (turn : Turn wf strict calm here there) (declared : Declared wf here.2) :
    Declared wf there.2 := by
  cases turn with
  | note tasks attempts => exact declared.congr rfl rfl rfl
  | work acted => exact declared.workStatement acted
  | hold completed _ =>
      obtain ⟨_, rfl⟩ := Store.updateItems?_eq_some completed
      exact declared.congr rfl (Table.update_keys fun _ => rfl) rfl
  | retry availableAt member _ _ _ =>
      exact (declared.enqueueWork ⟨_, member, rfl⟩ availableAt).updateNodeRun _ _ _
  | pickUp event now _ _ _ found _ _ => exact declared.startNode found _ _ _ _
  | cancel cancelled => exact declared.cancelRunGuarded cancelled
  | finish recorded _ _ _ _ _ _ => exact declared.finishNodeRun _ _ _
  | put parent now found _ _ => exact declared.startNode found _ _ _ _
  | reachEnd parent found _ => exact declared.reachEnd found _ _
  | arrive token fromNode outcome output found _ => exact declared.gather found _ _ _ _ _
  | split nodeRun => exact declared.congr rfl rfl rfl
  | putBranch parent now found _ => exact declared.startNode found _ _ _ _
  | @arriveBranch db group edge rest join parent fromNode outcome output found _ =>
      have placed : Declared wf ((db.insertToken join.id parent (some group) none).consumeToken db.nextID) :=
        declared.congr rfl rfl rfl
      exact placed.gather found _ _ _ _ _
  | spread => exact declared
  | fire now _ _ _ _ atJoin =>
      obtain ⟨run, member, same, _⟩ := atJoin
      exact declared.fireBarrier ⟨run, member, same⟩ _ _ _
  | settled _ => exact declared
  | abandon _ => exact declared
  | refinish recorded _ _ _ => exact declared.finishNodeRun _ _ _
  | reap keep _ => exact declared.reapRunState keep
  | retire => exact declared.retireEventRoutes
  | conclude output ending _ _ _ => exact declared.congr rfl rfl rfl

theorem Turns.declared (turns : Turns wf strict calm here there) (declared : Declared wf here.2) :
    Declared wf there.2 := by
  induction turns with
  | refl => exact declared
  | tail _ turn ih => exact turn.declared ih

theorem createRun_declared {input : Payload} {now : Nat} (made : createRun env wf input now = .ok db) :
    Declared wf db := by
  obtain ⟨entry, routes, limit, found, _, named, rfl⟩ := createRun_ok made
  let empty : RunDb := { input := input, createdAt := now }
  have nothing : Declared wf empty := by constructor <;> simp [empty]
  have alone : Declared wf ((empty.insertToken wf.entry none none none).insertNodeRun 0 wf.entry
      (dispatchState entry.kind)) :=
    nothing.insertPair (Option.isSome_iff_exists.mpr ⟨entry, found⟩) none none none _
  have routed : Declared wf { (empty.insertToken wf.entry none none none).insertNodeRun 0 wf.entry
      (dispatchState entry.kind) with eventRoutes := routes, nextID := limit } := by
    refine { alone with routes := fun route member => ?_ }
    obtain ⟨edge, isEdge, same⟩ := named route member
    exact ⟨edge, List.mem_of_mem_filter isEdge, same⟩
  exact routed.dispatchNode
    ⟨⟨1, 0, wf.entry, dispatchState entry.kind, ""⟩, List.mem_singleton.mpr rfl, rfl⟩ entry now

theorem Reaches.declared (reaches : Reaches env wf anyAction db) :
    Standing wf (.idle, db) ∧ Declared wf db := by
  obtain ⟨input, now, created, made, steps⟩ := reaches
  refine steps.invariant (fun db => Standing wf (.idle, db) ∧ Declared wf db)
    ⟨(createRun_created made).standing, createRun_declared made⟩ ?_
  rintro here action there ⟨standing, declared⟩ _ acted
  have turns : Turns wf False False (.idle, here) (.idle, there) :=
    act_turns standing False.elim False.elim False.elim acted
  exact ⟨Turns.standing turns standing, Turns.declared turns declared⟩

end

/-- The transaction is not rolled back for what it finds in its own rows. -/
def Halt.Sane : Halt → Prop
  | .abort error => error.internal = false
  | .refuse _ _ => True

section

variable {env : Env} {wf : Workflow} {db : RunDb} {mover : Mover}

theorem tokenGroup?_of_valid {group : Nat} (valid : Forest.Valid db.groupTree (some group)) :
    ∃ row, db.tokenGroup? group = some row := by
  obtain ⟨pair, pairMember, sameKey⟩ := List.mem_map.mp (valid group rfl)
  obtain ⟨row, rowMember, rfl⟩ := List.mem_map.mp pairMember
  exact Option.isSome_iff_exists.mp (List.find?_isSome.mpr ⟨row, rowMember, decide_eq_true sameKey⟩)

theorem valid_of_tokenGroups {next : RunDb} {place : Option Nat} (same : next.tokenGroups = db.tokenGroups)
    (valid : Forest.Valid db.groupTree place) : Forest.Valid next.groupTree place := by
  rw [RunDb.groupTree, same]
  exact valid

theorem RunDb.settleBarrier_sane {join : Node} {barrier : NodeRun} {group now : Nat}
    (valid : Forest.Valid db.groupTree (some group)) :
    (∀ halt, db.settleBarrier join barrier group now = .error halt → halt.Sane) ∧
      ∀ settled, db.settleBarrier join barrier group now = .ok settled → settled.tokenGroups = db.tokenGroups := by
  obtain ⟨row, found⟩ := tokenGroup?_of_valid valid
  unfold RunDb.settleBarrier
  rw [found]
  dsimp only
  split
  · exact ⟨fun halt isHalt => Except.error.inj isHalt ▸ trivial, fun _ isOk => by contradiction⟩
  · split
    · exact ⟨fun _ isHalt => by contradiction, fun _ isOk => by rw [← Except.ok.inj isOk]⟩
    · exact ⟨fun _ isHalt => by contradiction, fun _ isOk => by
        rw [← Except.ok.inj isOk, RunDb.fireBarrier_tokenGroups]⟩

namespace Mover

theorem recordArrival_sane {join : Node} {token : Nat} {group : Option Nat} {edge : Edge}
    (valid : Forest.Valid db.groupTree group) :
    (∀ halt, mover.recordArrival db join token group edge = .error halt → halt.Sane) ∧
      ∀ recorded, mover.recordArrival db join token group edge = .ok recorded →
        group.isSome ∧ recorded.1.tokenGroups = db.tokenGroups := by
  cases group with
  | none => exact ⟨fun halt isHalt => Except.error.inj isHalt ▸ trivial, fun _ isOk => by contradiction⟩
  | some group =>
      obtain ⟨row, found⟩ := tokenGroup?_of_valid valid
      unfold recordArrival
      simp only [found]
      split
      · exact ⟨fun halt isHalt => Except.error.inj isHalt ▸ rfl, fun _ isOk => by contradiction⟩
      · refine ⟨fun _ isHalt => by contradiction, fun recorded isOk => ⟨rfl, ?_⟩⟩
        rw [← Except.ok.inj isOk]
        exact RunDb.joinBarrier_tokenGroups

theorem arriveAtJoin_sane {join : Node} {group : Option Nat} {edge : Edge} {halt : Halt}
    (valid : Forest.Valid db.groupTree group) (halted : mover.arriveAtJoin db join group edge = .error halt) :
    halt.Sane := by
  unfold arriveAtJoin at halted
  have recording := @recordArrival_sane db mover join mover.nodeRun.token group edge valid
  cases arrived : mover.recordArrival db join mover.nodeRun.token group edge with
  | error other =>
      rw [arrived] at halted
      exact Except.error.inj halted ▸ recording.1 other arrived
  | ok recorded =>
      rw [arrived] at halted
      obtain ⟨inGroup, same⟩ := recording.2 recorded arrived
      obtain ⟨group, rfl⟩ := Option.isSome_iff_exists.mp inGroup
      exact (RunDb.settleBarrier_sane (valid_of_tokenGroups same valid)).1 halt halted

theorem follow_sane {place : Option Nat} {target : Edge} {halt : Halt} (closed : (wf.node? target.target).isSome)
    (valid : Forest.Valid db.groupTree place) (halted : mover.follow env wf db place target = .error halt) :
    halt.Sane := by
  obtain ⟨next, found⟩ := Option.isSome_iff_exists.mp closed
  unfold follow at halted
  rw [found] at halted
  dsimp only at halted
  split at halted
  · exact arriveAtJoin_sane valid halted
  · split at halted <;> contradiction

theorem spreadBranch_sane {group : Nat} {spread : Spread} {edge : Edge}
    (closed : (wf.node? edge.target).isSome) (valid : Forest.Valid spread.db.groupTree (some group)) :
    (∀ halt, mover.spreadBranch wf group spread edge = .error halt → halt.Sane) ∧
      ∀ next, mover.spreadBranch wf group spread edge = .ok next →
        next.db.tokenGroups = spread.db.tokenGroups := by
  obtain ⟨node, found⟩ := Option.isSome_iff_exists.mp closed
  unfold spreadBranch
  rw [found]
  dsimp only
  split
  · have recording := @recordArrival_sane ((spread.db.insertToken node.id (some mover.nodeRun.token) (some group)
      none).consumeToken spread.db.nextID) mover node spread.db.nextID (some group) edge valid
    split
    · rename_i halt halted
      exact ⟨fun other isOther => Except.error.inj isOther ▸ recording.1 halt halted, fun _ isOk => by contradiction⟩
    · rename_i recorded barrier arrived
      refine ⟨fun _ isHalt => by contradiction, fun next isNext => ?_⟩
      rw [← Except.ok.inj isNext]
      exact (recording.2 _ arrived).2
  · refine ⟨fun _ isHalt => by contradiction, fun next isNext => ?_⟩
    rw [← Except.ok.inj isNext]
    exact RunDb.startNode_tokenGroups

theorem spreadBranches_sane {group : Nat} {edges : List Edge} {spread : Spread}
    (closed : ∀ edge ∈ edges, (wf.node? edge.target).isSome)
    (valid : Forest.Valid spread.db.groupTree (some group)) :
    (∀ halt, mover.spreadBranches wf group spread edges = .error halt → halt.Sane) ∧
      ∀ last, mover.spreadBranches wf group spread edges = .ok last →
        last.db.tokenGroups = spread.db.tokenGroups := by
  induction edges generalizing spread with
  | nil => exact ⟨fun _ isHalt => by contradiction, fun last isLast => by rw [← Except.ok.inj isLast]⟩
  | cons edge rest ih =>
      obtain ⟨sane, same⟩ := @spreadBranch_sane wf mover group spread edge (closed edge List.mem_cons_self) valid
      unfold spreadBranches
      cases spreads : mover.spreadBranch wf group spread edge with
      | error halt => exact ⟨fun other isOther => Except.error.inj isOther ▸ sane halt spreads,
          fun _ isOk => by contradiction⟩
      | ok next =>
          obtain ⟨onward, kept⟩ := @ih next (fun later isLater => closed later (List.mem_cons_of_mem _ isLater))
            (valid_of_tokenGroups (same next spreads) valid)
          exact ⟨onward, fun last isLast => (kept last isLast).trans (same next spreads)⟩

theorem settlePending_sane {group : Nat} {pending : List (Node × NodeRun)} {halt : Halt}
    (valid : Forest.Valid db.groupTree (some group))
    (halted : mover.settlePending group db pending = .error halt) : halt.Sane := by
  induction pending generalizing db with
  | nil => contradiction
  | cons entry rest ih =>
      obtain ⟨join, barrier⟩ := entry
      obtain ⟨sane, same⟩ := @RunDb.settleBarrier_sane db join barrier group mover.now valid
      unfold settlePending at halted
      cases settles : db.settleBarrier join barrier group mover.now with
      | error other =>
          rw [settles] at halted
          exact Except.error.inj halted ▸ sane other settles
      | ok settled =>
          rw [settles] at halted
          exact ih (valid_of_tokenGroups (same settled settles) valid) halted

theorem fanOut_sane {place : Option Nat} {targets : List Edge} {halt : Halt}
    (closed : ∀ edge ∈ targets, (wf.node? edge.target).isSome)
    (halted : mover.fanOut wf db place targets = .error halt) : halt.Sane := by
  have valid : Forest.Valid (db.insertTokenGroup mover.nodeRun.id place targets.length).groupTree
      (some db.nextID) := by
    intro key isKey
    rw [← Option.some.inj isKey]
    exact List.mem_cons_self
  obtain ⟨sane, same⟩ := @spreadBranches_sane wf mover db.nextID targets
    ⟨db.insertTokenGroup mover.nodeRun.id place targets.length, []⟩ closed valid
  unfold fanOut at halted
  dsimp only at halted
  split at halted
  · rename_i other spreads
    exact Except.error.inj halted ▸ sane other spreads
  · rename_i spread spreads
    exact settlePending_sane (valid_of_tokenGroups (same spread spreads) valid) halted

theorem nextGroup_valid {token : Token} (keyed : Keyed wf db) (found : db.token? mover.nodeRun.token = some token) :
    ∃ place, mover.nextGroup db = .ok place ∧ Forest.Valid db.groupTree place := by
  have within := keyed.grouped token (List.mem_of_find?_eq_some found)
  unfold nextGroup
  rw [found]
  dsimp only
  split
  · cases inGroup : token.group with
    | none => exact ⟨none, rfl, inGroup ▸ within⟩
    | some group =>
        obtain ⟨row, isRow⟩ := tokenGroup?_of_valid (inGroup ▸ within)
        simp only [isRow]
        exact ⟨row.parent, rfl, keyed.grown.parent_valid (tokenGroup?_valid isRow)⟩
  · exact ⟨token.group, rfl, within⟩

theorem advance_sane {targets : List Edge} {place : Option Nat} {halt : Halt}
    (closed : ∀ edge ∈ targets, (wf.node? edge.target).isSome) (onward : mover.nextGroup db = .ok place)
    (valid : Forest.Valid db.groupTree place) (halted : mover.advance env wf db targets = .error halt) :
    halt.Sane := by
  cases targets with
  | nil => contradiction
  | cons target rest =>
      unfold advance at halted
      rw [onward] at halted
      dsimp only at halted
      split at halted
      · exact fanOut_sane closed halted
      · exact follow_sane (closed target List.mem_cons_self) valid halted

end Mover

namespace Prepared.Ready

variable {prepared : Prepared} {error : EngineError} (ready : prepared.Ready wf False)
  (standing : Standing wf (.idle, prepared.db)) (closed : wf.Closed)

include ready standing closed

theorem transition_sane {outcome : String} {state : NodeRunState}
    (failed : prepared.transition env wf outcome state = .error error) : error.internal = false := by
  obtain ⟨token, found⟩ := ready.token standing
  obtain ⟨place, onward, valid⟩ := Mover.nextGroup_valid standing.keyed found
  unfold Prepared.transition at failed
  dsimp only at failed
  split at failed
  · contradiction
  · contradiction
  · contradiction
  · rename_i targets planned
    obtain ⟨node, follows⟩ := planTransition_follow planned
    have declared : ∀ edge ∈ targets, (wf.node? edge.target).isSome := fun edge isTarget =>
      closed.targets edge (follows.edges edge isTarget).1
    -- the node run is finished by now, which moves no token to another group
    have onwardToo : prepared.mover.nextGroup (prepared.db.finishNodeRun prepared.mover.nodeRun state outcome) =
        .ok place := (Mover.nextGroup_congr (RunDb.finishNodeRun_token? _) rfl).trans onward
    split at failed
    · contradiction
    · contradiction
    · rename_i other halted
      rw [← Except.error.inj failed]
      exact Mover.advance_sane declared onwardToo valid halted

theorem carryOut_sane (failed : prepared.carryOut env wf = .error error) : error.internal = false := by
  unfold Prepared.carryOut at failed
  split at failed
  · exact ready.transition_sane standing closed failed
  · contradiction
  · contradiction
  · contradiction

end Prepared.Ready

theorem nodeRun?_of_mem {id : Nat} (owned : ∃ run ∈ db.nodeRuns, run.id = id) :
    ∃ run ∈ db.nodeRuns, db.nodeRun? id = some run := by
  obtain ⟨run, member, same⟩ := owned
  obtain ⟨found, isFound⟩ := Option.isSome_iff_exists.mp
    (show (db.nodeRun? id).isSome from List.find?_isSome.mpr ⟨run, member, decide_eq_true same⟩)
  exact ⟨found, (nodeRun?_some isFound).1, isFound⟩

theorem loadWorkflow_of_declared {run : NodeRun} (declared : Declared wf db) (member : run ∈ db.nodeRuns) :
    ∃ node, loadWorkflow wf run = .ok node := by
  obtain ⟨node, found⟩ := Option.isSome_iff_exists.mp (declared.nodes run member)
  exact ⟨node, by rw [loadWorkflow, found]⟩

theorem CompletionRequest.guard_sane {req : CompletionRequest} {error : EngineError} (declared : Declared wf db)
    (failed : req.guard db = .error error) : error.internal = false := by
  unfold CompletionRequest.guard at failed
  split at failed
  · exact Except.error.inj failed ▸ rfl
  · rename_i owner named
    split at failed
    · exact Except.error.inj failed ▸ rfl
    · obtain ⟨item, isItem, isOwner⟩ := Option.map_eq_some_iff.mp named
      have owned := declared.items item (List.mem_of_find?_eq_some isItem)
      obtain ⟨run, _, found⟩ := nodeRun?_of_mem (isOwner ▸ owned)
      rw [found] at failed
      dsimp only at failed
      split at failed
      · exact Except.error.inj failed ▸ rfl
      · split at failed
        · exact Except.error.inj failed ▸ rfl
        · contradiction

theorem CompletionRequest.prepare_sane {req : CompletionRequest} {now : Nat} {error : EngineError}
    (declared : Declared wf db) (failed : req.prepare env wf db now = .error error) : error.internal = false := by
  unfold CompletionRequest.prepare at failed
  split at failed
  · rename_i malformed
    rw [← Except.error.inj failed]
    unfold CompletionRequest.validate at malformed
    split_ifs at malformed <;> exact Except.error.inj malformed ▸ rfl
  · split at failed
    · rename_i guarded
      exact Except.error.inj failed ▸ CompletionRequest.guard_sane declared guarded
    · rename_i held run guarded
      obtain ⟨_, _, _, _, member, _⟩ := CompletionRequest.guard_ok guarded
      obtain ⟨node, loaded⟩ := loadWorkflow_of_declared declared member
      rw [loaded] at failed
      contradiction

theorem DecisionRequest.guard_sane {req : DecisionRequest} {error : EngineError} (tasked : Tasked wf db)
    (failed : req.guard db = .error error) : error.internal = false := by
  unfold DecisionRequest.guard at failed
  split at failed
  · exact Except.error.inj failed ▸ rfl
  · rename_i task isTask
    split at failed
    · exact Except.error.inj failed ▸ rfl
    · obtain ⟨owner, member, owns, _⟩ := tasked.owned task (List.mem_of_find?_eq_some isTask)
      obtain ⟨run, _, found⟩ := nodeRun?_of_mem ⟨owner, member, owns⟩
      rw [found] at failed
      dsimp only at failed
      split_ifs at failed <;> exact Except.error.inj failed ▸ rfl

theorem DecisionRequest.prepare_sane {req : DecisionRequest} {now : Nat} {error : EngineError}
    (declared : Declared wf db) (tasked : Tasked wf db) (failed : req.prepare wf db now = .error error) :
    error.internal = false := by
  unfold DecisionRequest.prepare at failed
  split at failed
  · exact Except.error.inj failed ▸ rfl
  · split at failed
    · rename_i guarded
      exact Except.error.inj failed ▸ DecisionRequest.guard_sane tasked guarded
    · rename_i task run guarded
      obtain ⟨node, loaded⟩ := loadWorkflow_of_declared declared (DecisionRequest.guard_ok guarded).1
      rw [loaded] at failed
      dsimp only at failed
      split at failed
      · rename_i judged
        rw [← Except.error.inj failed]
        unfold DecisionRequest.checkOutcome at judged
        extract_lets allowed at judged
        split at judged
        · contradiction
        · exact Except.error.inj judged ▸ rfl
      · contradiction

theorem pickUpEvent_ok {route : EventRoute} (closed : wf.Closed) (declared : Declared wf db)
    (member : route ∈ db.eventRoutes) (event : PickupEvent) (now : Nat) :
    ∃ next, pickUpEvent env wf now db route event = .ok next := by
  obtain ⟨edge, isEdge, same⟩ := declared.routes route member
  obtain ⟨sameName, sameTarget, sameGuard⟩ : edge.onEvent = route.eventName ∧ edge.target = route.targetNode ∧
      edge.guard = route.guard := by simpa [EventRoute.source] using same
  obtain ⟨found, isFound⟩ := Option.isSome_iff_exists.mp (show (wf.eventEdgeFor route).isSome from
    List.find?_isSome.mpr ⟨edge, isEdge, by simp [sameName, sameTarget, sameGuard]⟩)
  obtain ⟨node, isNode⟩ := Option.isSome_iff_exists.mp (sameTarget ▸ closed.targets edge isEdge)
  unfold pickUpEvent
  rw [isFound, isNode]
  dsimp only
  split
  · exact ⟨db, rfl⟩
  · split
    · exact ⟨db, rfl⟩
    · exact ⟨_, rfl⟩

end

section

open Compiler (Authored Diagnostic GraphDocument compile)

variable {sha256 : List Char → String} {schemaMessage : Compiler.Edge → String × String}
  {levels : Authored → List Diagnostic} {doc : Authored} {compiled : Compiler.CompiledWorkflow}

theorem clean_of_compile (accepted : compile sha256 schemaMessage levels doc = some compiled) : doc.graph.Clean := by
  intro diagnostic held isError
  unfold Compiler.compile at accepted
  rw [if_pos] at accepted
  · contradiction
  · refine List.any_eq_true.mpr ⟨diagnostic, ?_, decide_eq_true isError⟩
    exact List.mem_append_left _ (List.mem_append_left _ (List.mem_append_right _ held))

/-- The engine finds the nodes that the compiler found. -/
theorem node?_load_isSome {id : String} (declared : (doc.graph.node? id).isSome) : (doc.load.node? id).isSome := by
  have kinds : doc.load.kind? id = doc.graph.document.kind? id := Workflow.kind?_load _ _ _ _
  have found : doc.graph.document.node? id = (doc.graph.node? id).map Compiler.GraphNode.toNode := by
    unfold Compiler.Document.node? GraphDocument.node?
    rw [show doc.graph.document.nodes = doc.graph.nodes.map fun pair => (pair.1, pair.2.toNode) from rfl]
    induction doc.graph.nodes with
    | nil => rfl
    | cons pair rest ih =>
        rw [List.map_cons, List.lookup_cons, List.lookup_cons, ih]
        cases id == pair.1 <;> rfl
  rw [Workflow.kind?, Compiler.Document.kind?, found] at kinds
  have isSome := congrArg Option.isSome kinds
  simpa [declared] using isSome

theorem closed_of_compile (accepted : compile sha256 schemaMessage levels doc = some compiled) :
    doc.load.Closed := by
  have clean := clean_of_compile accepted
  refine ⟨node?_load_isSome clean.entry, fun edge isEdge => node?_load_isSome ?_⟩
  obtain ⟨authored, isAuthored, rfl⟩ := mem_normalizeEdges.mp isEdge
  have declared : authored ∈ doc.graph.edges := isAuthored
  by_cases isNodeEdge : authored.onEvent = ""
  · have shape := Compiler.shaped_of_compile accepted authored declared
    simp only [Compiler.edgeShape, isNodeEdge, if_true, Bool.and_eq_true] at shape
    obtain ⟨node, outcome, split⟩ := Compiler.splitEdgeFrom_of_shape shape.1
    exact (clean.ends declared isNodeEdge split).2
  · obtain ⟨index, checked⟩ := clean.edge_checked declared
    rw [GraphDocument.checkEdge, if_pos isNodeEdge, GraphDocument.checkEventEdge] at checked
    cases found : doc.graph.node? authored.target with
    | none =>
        rw [found] at checked
        exact absurd rfl (checked _ (List.mem_singleton.mpr rfl))
    | some node => simp [decomposeEdge, found]

theorem named_of_splitEdgeFrom {source node outcome : String}
    (split : Compiler.splitEdgeFrom source = some (node, outcome)) : node ≠ "" ∧ outcome ≠ "" := by
  unfold Compiler.splitEdgeFrom at split
  dsimp only at split
  split at split
  · contradiction
  · split at split
    · contradiction
    · rename_i both
      obtain ⟨rfl, rfl⟩ := Prod.mk.inj (Option.some.inj split)
      rw [not_or] at both
      simpa using both

theorem decomposed_of_compile (accepted : compile sha256 schemaMessage levels doc = some compiled) :
    ∀ edge ∈ doc.load.edges, edge.onEvent = "" → edge.fromNode ≠ "" ∧ edge.fromOutcome ≠ "" := by
  intro edge isEdge isNodeEdge
  obtain ⟨authored, isAuthored, rfl⟩ := mem_normalizeEdges.mp isEdge
  have shape := Compiler.shaped_of_compile accepted authored isAuthored
  have source : authored.onEvent = "" := isNodeEdge
  simp only [Compiler.edgeShape, source, if_true, Bool.and_eq_true] at shape
  obtain ⟨node, outcome, split⟩ := Compiler.splitEdgeFrom_of_shape shape.1
  have both := named_of_splitEdgeFrom split
  simp only [decomposeEdge, split, Option.getD_some]
  exact both

/-- A run of an accepted document is refused at the start only for its input, once the rest of the definition
decodes; and whatever a run of it has come to, no completion, decision or pickup of it fails for what the engine
looks up in the pinned definition or in the run's own rows. -/
theorem accepted_finds_everything {env : Env} {parts : Particulars}
    (accepted : compile sha256 schemaMessage levels doc = some compiled)
    (named : Compiler.isName doc.graph.entry.toList = true) :
    (parts.Decodes doc → ∀ input now error, parts.startRun doc env input now = .error error →
      ∃ detail, error = .contract detail) ∧
    ∀ wf db, parts.loadWorkflow doc = .ok wf → Reaches env wf anyAction db →
      (∀ req now error, completeAttempt env wf now db req = .error error → error.internal = false) ∧
      (∀ req now error, decideHumanTask env wf now db req = .error error → error.internal = false) ∧
      ∀ route ∈ db.eventRoutes, ∀ event now, ∃ next, pickUpEvent env wf now db route event = .ok next := by
  have closed := closed_of_compile accepted
  refine ⟨fun decodes input now error failed => ?_, fun wf db loaded reaches => ?_⟩
  · have entryNamed : doc.graph.entry ≠ "" := by
      intro empty
      rw [empty] at named
      contradiction
    rw [Particulars.startRun, Particulars.loadWorkflow_ok decodes entryNamed closed.entry closed.targets
      (decomposed_of_compile accepted)] at failed
    obtain ⟨entry, found⟩ := Option.isSome_iff_exists.mp closed.entry
    unfold createRun at failed
    dsimp only at failed
    rw [found] at failed
    split at failed
    · exact ⟨_, (Except.error.inj failed).symm⟩
    · contradiction
  · obtain rfl := Particulars.loadWorkflow_eq loaded
    obtain ⟨standing, declared⟩ := reaches.declared
    have tasked := reaches.tasked.2
    refine ⟨fun req now error failed => ?_, fun req now error failed => ?_,
      fun route member event now => pickUpEvent_ok closed declared member event now⟩
    · unfold completeAttempt at failed
      split at failed
      · rename_i refused
        exact Except.error.inj failed ▸ CompletionRequest.prepare_sane declared refused
      · rename_i prepared isPrepared
        obtain ⟨turns, ready⟩ := @CompletionRequest.prepare_ready env doc.load False False db now req prepared
          standing.keyed False.elim isPrepared
        exact ready.carryOut_sane (Turns.standing turns standing) closed failed
    · unfold decideHumanTask at failed
      split at failed
      · rename_i refused
        exact Except.error.inj failed ▸ DecisionRequest.prepare_sane declared tasked refused
      · rename_i prepared isPrepared
        obtain ⟨turns, ready⟩ := @DecisionRequest.prepare_ready doc.load False False db now req prepared
          standing.keyed False.elim isPrepared
        exact ready.carryOut_sane (Turns.standing turns standing) closed failed

end

/-- A split whose branches come together again, beside a node that an event enters. -/
def pairGraph : Compiler.GraphDocument where
  entry := "fork"
  nodes := [("done", ⟨⟨.endNode, none, none⟩, [], none⟩), ("fork", ⟨⟨.parallel, none, none⟩, [], none⟩),
    ("gather", ⟨⟨.join, none, some ⟨.all, none⟩⟩, [], none⟩), ("left", ⟨⟨.agent, some ["ready"], none⟩, [], none⟩),
    ("note", ⟨⟨.agent, some ["ready"], none⟩, [], none⟩), ("right", ⟨⟨.agent, some ["ready"], none⟩, [], none⟩)]
  edges := [⟨"fork.split", "", "left", ""⟩, ⟨"fork.split", "", "right", ""⟩, ⟨"gather.joined", "", "done", ""⟩,
    ⟨"left.ready", "", "gather", ""⟩, ⟨"note.ready", "", "done", ""⟩, ⟨"right.ready", "", "gather", ""⟩,
    ⟨"", "pr.opened", "note", ""⟩]
  nodesSorted := by decide +kernel

def pairDocument : Compiler.Authored where
  graph := pairGraph
  head := [("apiVersion", .string "nodes.culture.dev/v1alpha1"), ("kind", .string "Workflow")]
  spec := []
  limits := { maxParallelTokens := 4 }
  settings := fun id => { outcomes := (pairGraph.node? id).elim [] Compiler.declaredOutcomes }

/-- The SHA-256 digest of the normalized form of `pairDocument`. -/
def pairDigest (_ : List Char) : String :=
  "1557b5f915d9e66523f04a6b0bc0fc9a19e0db38f63029a6af3e663936782fc3"

/-- Everything beside the graph decodes. -/
def pairParticulars : Particulars where
  decodeLimits := .ok ()
  inputSchema := .ok ()
  outputSchema := .ok ()
  decodeNode _ := .ok ()
  compileGuard _ := .ok ()

/-- The version loads, and one branch has arrived; its report, made again, is refused as a stale claim and nothing
worse. -/
theorem accepted_finds_everything_at_join : ∃ db, Reaches Env.permissive pairDocument.load anyAction db ∧
    db.joinArrivals.length = 1 ∧ (∀ error, completeAttempt Env.permissive pairDocument.load 0 db
      ⟨⟨7, "worker", 1, 1⟩, .succeeded, "ready", "", "", .unknown, "null"⟩ = .error error →
        error.internal = false) ∧
    ∀ error, pairParticulars.startRun pairDocument Env.permissive "null" 0 = .error error →
      ∃ detail, error = .contract detail := by
  have ran : (replay Env.permissive pairDocument.load (fun _ _ => true) (succeed 3 "split" ++
      succeed 7 "ready")).map (fun db => db.joinArrivals.length) = some 1 := by
    rw [Compiler.Authored.load, Workflow.load, normalizeEdges_of_sorted (by decide +kernel)]
    decide +kernel
  obtain ⟨db, reached, arrived⟩ := Option.map_eq_some_iff.mp ran
  have reaches : Reaches Env.permissive pairDocument.load anyAction db :=
    Reaches.of_replay (fun _ _ _ => trivial) reached
  obtain ⟨compiled, accepted⟩ := Option.isSome_iff_exists.mp (show (Compiler.compile pairDigest
    (fun _ => ("", "")) (fun _ => []) pairDocument).isSome by decide +kernel)
  have decodes : pairParticulars.Decodes pairDocument :=
    ⟨rfl, rfl, rfl, fun _ _ => rfl, fun _ absent => absurd absent List.not_mem_nil,
      fun _ absent => absurd absent List.not_mem_nil, fun _ _ _ => rfl⟩
  have closed := closed_of_compile accepted
  have loads : pairParticulars.loadWorkflow pairDocument = .ok pairDocument.load :=
    Particulars.loadWorkflow_ok decodes (by decide) closed.entry closed.targets (decomposed_of_compile accepted)
  obtain ⟨starts, finds⟩ := accepted_finds_everything accepted (by decide +kernel)
  exact ⟨db, reaches, arrived, (finds _ db loads reaches).1 _ _, starts decodes _ _⟩

end CultureNodes.Engine
