import CultureNodes.Engine.Linked

/-!
The journal under strict turns: once a node run has ended, nothing writes another state to it and
nothing is enqueued for it, within a transaction or after it.
-/

namespace CultureNodes.Engine

open Store (WorkAction)

/-- What an entry leaves to be written after it. -/
def Entry.allows : Entry → Entry → Bool
  | .wrote run state, .wrote other next => !(decide (other = run) && state.terminal) || decide (next = state)
  | .wrote run state, .enqueued other => !(decide (other = run) && state.terminal)
  | _, _ => true

structure Recorded (db : RunDb) : Prop where
  written : ∀ run ∈ db.nodeRuns, Entry.wrote run.id run.state ∈ db.journal
  kept : ∀ run ∈ db.nodeRuns, ∀ state, Entry.wrote run.id state ∈ db.journal → state.terminal = true →
    run.state = state
  final : db.journal.Pairwise fun newer older => older.allows newer = true

namespace Recorded

variable {wf : Workflow} {db next : RunDb}

theorem congr (recorded : Recorded db) (sameRuns : next.nodeRuns = db.nodeRuns)
    (sameJournal : next.journal = db.journal) : Recorded next := by
  refine ⟨?_, ?_, ?_⟩
  · rw [sameRuns, sameJournal]
    exact recorded.written
  · rw [sameRuns, sameJournal]
    exact recorded.kept
  · rw [sameJournal]
    exact recorded.final

theorem addFired (recorded : Recorded db) (barrier group : Nat) :
    Recorded { db with journal := .fired barrier group :: db.journal } := by
  refine ⟨fun run member => List.mem_cons_of_mem _ (recorded.written run member), ?_, ?_⟩
  · intro run member state entry terminal
    refine recorded.kept run member state ?_ terminal
    simpa using entry
  · refine List.pairwise_cons.mpr ⟨fun older _ => ?_, recorded.final⟩
    cases older <;> rfl

theorem enqueueWork (recorded : Recorded db) {run : NodeRun} (availableAt : Nat)
    (member : run ∈ db.nodeRuns) (isOpen : run.state.terminal = false) :
    Recorded (db.enqueueWork run.id availableAt) := by
  refine ⟨fun other otherMember => List.mem_cons_of_mem _ (recorded.written other otherMember), ?_, ?_⟩
  · intro other otherMember state entry terminal
    refine recorded.kept other otherMember state ?_ terminal
    simpa [RunDb.enqueueWork] using entry
  · refine List.pairwise_cons.mpr ⟨fun older isOlder => ?_, recorded.final⟩
    cases older with
    | wrote id state =>
        cases terminal : state.terminal with
        | false => simp [Entry.allows, terminal]
        | true =>
            have differs : run.id ≠ id := by
              rintro rfl
              rw [recorded.kept run member state isOlder terminal, terminal] at isOpen
              contradiction
            simp [Entry.allows, differs]
    | enqueued id => rfl
    | fired barrier group => rfl

theorem insertNodeRun (recorded : Recorded db) (keyed : Keyed wf db) (token : Nat) (node : String)
    (state : NodeRunState) : Recorded (db.insertNodeRun token node state) := by
  have unheard : ∀ other, Entry.wrote db.nextID other ∉ db.journal := fun other entry =>
    Nat.lt_irrefl _ (keyed.journalOld _ entry)
  refine ⟨?_, ?_, ?_⟩
  · intro run member
    rcases List.mem_append.mp member with old | new
    · exact List.mem_cons_of_mem _ (recorded.written run old)
    · rw [List.mem_singleton.mp new]
      exact List.mem_cons_self
  · intro run member other entry terminal
    rcases List.mem_append.mp member with old | new
    · have older := keyed.runsOld run old
      rcases List.mem_cons.mp entry with first | later
      · have sameID : run.id = db.nextID := by injection first
        omega
      · exact recorded.kept run old other later terminal
    · rw [List.mem_singleton.mp new] at entry ⊢
      rcases List.mem_cons.mp entry with first | later
      · injection first with _ sameState
        exact sameState.symm
      · exact absurd later (unheard other)
  · refine List.pairwise_cons.mpr ⟨fun older isOlder => ?_, recorded.final⟩
    cases older with
    | wrote id other =>
        have differs : db.nextID ≠ id := by
          rintro rfl
          exact unheard other isOlder
        simp [Entry.allows, differs]
    | enqueued id => rfl
    | fired barrier group => rfl

/-- One statement writes a state to the node runs with the given ids, none of which has ended in
another. -/
theorem write (recorded : Recorded db) (keyed : Keyed wf db) (ids : List Nat) {state : NodeRunState}
    {hits : NodeRun → Bool} {write : NodeRun → NodeRun}
    (sameRuns : next.nodeRuns = Table.update db.nodeRuns hits write)
    (sameJournal : next.journal = ids.map (Entry.wrote · state) ++ db.journal)
    (writes : ∀ run, (write run).id = run.id ∧ (write run).state = state)
    (known : ∀ id ∈ ids, ∃ run ∈ db.nodeRuns, run.id = id ∧ hits run = true)
    (named : ∀ run ∈ db.nodeRuns, hits run = true → run.id ∈ ids)
    (lawful : ∀ run ∈ db.nodeRuns, hits run = true → run.state.terminal = false ∨ run.state = state) :
    Recorded next := by
  have settled : ∀ run ∈ db.nodeRuns, hits run = true → ∀ other, Entry.wrote run.id other ∈ db.journal →
      other.terminal = true → other = state := by
    intro run member hit other entry terminal
    have same := recorded.kept run member other entry terminal
    rcases lawful run member hit with isOpen | isState
    · rw [same, terminal] at isOpen
      contradiction
    · exact same.symm.trans isState
  refine ⟨?_, ?_, ?_⟩
  · rw [sameRuns, sameJournal]
    intro run member
    obtain ⟨old, oldMember, rfl⟩ := Table.mem_update.mp member
    split
    · rename_i hit
      rw [(writes old).1, (writes old).2]
      exact List.mem_append_left _ (List.mem_map_of_mem (named old oldMember hit))
    · exact List.mem_append_right _ (recorded.written old oldMember)
  · rw [sameRuns, sameJournal]
    intro run member other entry terminal
    obtain ⟨old, oldMember, rfl⟩ := Table.mem_update.mp member
    by_cases hit : hits old = true
    · rw [if_pos hit] at entry ⊢
      rw [(writes old).1] at entry
      rw [(writes old).2]
      rcases List.mem_append.mp entry with new | older
      · obtain ⟨id, _, same⟩ := List.mem_map.mp new
        injection same
      · exact (settled old oldMember hit other older terminal).symm
    · rw [if_neg hit] at entry ⊢
      rcases List.mem_append.mp entry with new | older
      · obtain ⟨id, isNamed, same⟩ := List.mem_map.mp new
        obtain ⟨row, rowMember, rowID, rowHit⟩ := known id isNamed
        have sameID : id = old.id := by injection same
        rw [keyed.run_eq rowMember oldMember (rowID.trans sameID)] at rowHit
        exact absurd rowHit hit
      · exact recorded.kept old oldMember other older terminal
  · rw [sameJournal]
    refine List.pairwise_append.mpr ⟨?_, recorded.final, ?_⟩
    · rw [List.pairwise_map]
      exact List.pairwise_of_forall fun left right => by simp [Entry.allows]
    · intro newer isNewer older isOlder
      obtain ⟨id, isNamed, rfl⟩ := List.mem_map.mp isNewer
      cases older with
      | wrote other old =>
          by_cases sameID : id = other
          · subst sameID
            obtain ⟨row, rowMember, rfl, rowHit⟩ := known id isNamed
            cases terminal : old.terminal with
            | false => simp [Entry.allows, terminal]
            | true => simp [Entry.allows, settled row rowMember rowHit old isOlder terminal]
          · simp [Entry.allows, sameID]
      | enqueued other => rfl
      | fired barrier group => rfl

theorem updateNodeRun (recorded : Recorded db) (keyed : Keyed wf db) {run : NodeRun}
    {state : NodeRunState} (outcome : String) (member : run ∈ db.nodeRuns)
    (lawful : run.state.terminal = false ∨ run.state = state) :
    Recorded (db.updateNodeRun run.id state outcome) := by
  refine recorded.write keyed [run.id] rfl rfl (fun _ => ⟨rfl, rfl⟩) ?_ ?_ ?_
  · intro id isNamed
    exact ⟨run, member, (List.mem_singleton.mp isNamed).symm, by simp⟩
  · intro other _ hit
    exact List.mem_singleton.mpr (of_decide_eq_true hit)
  · intro other otherMember hit
    rw [keyed.run_eq otherMember member (of_decide_eq_true hit)]
    exact lawful

theorem cancelled (recorded : Recorded db) (keyed : Keyed wf db) {lost : NodeRun → Bool}
    (sameRuns : next.nodeRuns = Table.update db.nodeRuns
      (fun run => ((db.nodeRuns.filter lost).map NodeRun.id).contains run.id)
      (fun run => { run with state := .cancelled }))
    (sameJournal : next.journal =
      ((db.nodeRuns.filter lost).map NodeRun.id).map (Entry.wrote · .cancelled) ++ db.journal)
    (live : ∀ run, lost run = true → run.state.terminal = false) : Recorded next := by
  have selected := fun (run : NodeRun) (member : run ∈ db.nodeRuns) =>
    Table.contains_filter_keys keyed.runIDs member lost
  refine recorded.write keyed _ sameRuns sameJournal (fun _ => ⟨rfl, rfl⟩) ?_ ?_ ?_
  · intro id isNamed
    obtain ⟨run, isKept, rfl⟩ := List.mem_map.mp isNamed
    exact ⟨run, List.mem_of_mem_filter isKept, rfl, List.contains_iff_mem.mpr isNamed⟩
  · intro run _ hit
    exact List.contains_iff_mem.mp hit
  · intro run member hit
    rw [selected run member] at hit
    exact Or.inl (live run hit)

theorem reapGroupBranches (recorded : Recorded db) (keyed : Keyed wf db) (group keep : Nat) :
    Recorded (db.reapGroupBranches group keep) := by
  refine recorded.cancelled keyed rfl rfl fun run lost => ?_
  simp only [Bool.and_eq_true, Bool.not_eq_true'] at lost
  exact lost.1

theorem reapRunState (recorded : Recorded db) (keyed : Keyed wf db) (keep : Nat) :
    Recorded (db.reapRunState keep) := by
  refine recorded.cancelled keyed rfl rfl fun run lost => ?_
  simp only [Bool.and_eq_true, Bool.not_eq_true'] at lost
  exact lost.1

theorem cancelRunGuarded (recorded : Recorded db) (keyed : Keyed wf db) {parkedAt detail : String}
    (cancelled : db.cancelRunGuarded parkedAt detail = some next) : Recorded next := by
  rw [← RunDb.cancelRunGuarded_eq_some cancelled]
  exact recorded.cancelled keyed rfl rfl fun run lost => by simpa using lost

theorem dispatchNode (recorded : Recorded db) (run : NodeRun) (node : Node) (now : Nat)
    (member : run ∈ db.nodeRuns) (isOpen : run.state.terminal = false) :
    Recorded (db.dispatchNode node run.id now) := by
  unfold RunDb.dispatchNode
  split
  · exact recorded.congr rfl rfl
  · exact recorded.enqueueWork now member isOpen

theorem insertPair (recorded : Recorded db) (keyed : Keyed wf db) {node : String}
    {parent group : Option Nat} {originEvent : Option String} {state : NodeRunState}
    (valid : Forest.Valid db.groupTree group) :
    Recorded ((db.insertToken node parent group originEvent).insertNodeRun db.nextID node state) := by
  have placed : Recorded (db.insertToken node parent group originEvent) := recorded.congr rfl rfl
  exact placed.insertNodeRun (keyed.insertToken valid) db.nextID node state

theorem startNode (recorded : Recorded db) (keyed : Keyed wf db) {node : Node} {group : Option Nat}
    (parent : Option Nat) (originEvent : Option String) (now : Nat)
    (valid : Forest.Valid db.groupTree group) :
    Recorded (db.startNode node parent group originEvent now) := by
  have pair : Recorded ((db.insertToken node.id parent group originEvent).insertNodeRun db.nextID
      node.id (dispatchState node.kind)) := recorded.insertPair keyed valid
  let own : NodeRun := ⟨db.nextID + 1, db.nextID, node.id, dispatchState node.kind, ""⟩
  exact pair.dispatchNode own node now
    (List.mem_append_right _ (List.mem_singleton.mpr rfl)) Linked.dispatchState_open

theorem finishNodeRun (recorded : Recorded db) (keyed : Keyed wf db) {own run : NodeRun}
    {state : NodeRunState} (outcome : String) (member : run ∈ db.nodeRuns) (sameID : run.id = own.id)
    (lawful : run.state.terminal = false ∨ run.state = state) :
    Recorded (db.finishNodeRun own state outcome) := by
  have updated := recorded.updateNodeRun keyed outcome member lawful
  rw [sameID] at updated
  exact updated.congr rfl rfl

theorem reachEnd (recorded : Recorded db) (keyed : Keyed wf db) {node : Node} {group : Option Nat}
    (parent : Option Nat) (declared : wf.kind? node.id = some node.kind)
    (valid : Forest.Valid db.groupTree group) : Recorded (db.reachEnd node parent group) := by
  have pair : Recorded ((db.insertToken node.id parent group none).insertNodeRun db.nextID node.id
      (dispatchState node.kind)) := recorded.insertPair keyed valid
  have pairKeyed : Keyed wf ((db.insertToken node.id parent group none).insertNodeRun db.nextID
      node.id (dispatchState node.kind)) :=
    keyed.insertPair valid (Keyed.human_of_dispatchState declared) fun waits =>
      absurd waits Keyed.dispatchState_ne_waitingJoin
  let own : NodeRun := ⟨db.nextID + 1, db.nextID, node.id, dispatchState node.kind, ""⟩
  have member : own ∈ ((db.insertToken node.id parent group none).insertNodeRun db.nextID node.id
      (dispatchState node.kind)).nodeRuns := List.mem_append_right _ (List.mem_singleton.mpr rfl)
  exact Recorded.finishNodeRun pair pairKeyed "" member rfl (Or.inl Linked.dispatchState_open)

theorem gather (recorded : Recorded db) (keyed : Keyed wf db) (join : Node) (token group : Nat)
    (fromNode outcome : String) (output : Payload) (valid : Forest.Valid db.groupTree (some group)) :
    Recorded (db.gather join token group fromNode outcome output) := by
  have found : Recorded (db.joinBarrier join token group).1 := by
    unfold RunDb.joinBarrier
    split
    · exact recorded
    · exact recorded.insertPair keyed valid
  exact found.congr rfl rfl

theorem fireBarrier (recorded : Recorded db) (keyed : Keyed wf db) {barrier : NodeRun} {group : Nat}
    (early : Bool) (now : Nat) (groupKnown : group < db.nextID) (parked : db.Parked barrier group) :
    Recorded (db.fireBarrier barrier group early now) := by
  have known := keyed.parked_old parked
  obtain ⟨row, rowMember, sameID, _, waits, _⟩ := parked
  have ready : Recorded (db.updateNodeRun barrier.id .ready "") :=
    sameID ▸ recorded.updateNodeRun keyed "" rowMember (Or.inl (by rw [waits]; rfl))
  have readyKeyed : Keyed wf (db.updateNodeRun barrier.id .ready "") := keyed.updateNodeRun known rfl
  have readyRow := Table.mem_update_of_mem (fun run : NodeRun => decide (run.id = barrier.id))
    (fun run => { run with state := .ready, outcome := if "" = "" then run.outcome else "" }) rowMember
  rw [if_pos (decide_eq_true sameID)] at readyRow
  have claimable : Recorded ((db.updateNodeRun barrier.id .ready "").enqueueWork barrier.id now) :=
    sameID ▸ ready.enqueueWork now readyRow rfl
  have claimableKeyed : Keyed wf ((db.updateNodeRun barrier.id .ready "").enqueueWork barrier.id now) :=
    readyKeyed.enqueueWork now known
  have marked := claimable.addFired barrier.id group
  have markedKeyed := claimableKeyed.addEntry (.fired barrier.id group)
    ⟨Nat.lt_succ_of_lt known, Nat.lt_succ_of_lt groupKnown⟩
  unfold RunDb.fireBarrier
  dsimp only
  split
  · exact marked.reapGroupBranches markedKeyed _ _
  · exact marked

theorem markNodeRun (recorded : Recorded db) (keyed : Keyed wf db) {owner : Nat}
    (expected : NodeRunState → Bool) (state : NodeRunState)
    (wasOut : ∃ run ∈ db.nodeRuns, run.id = owner ∧ run.state.dispatched = true) :
    Recorded (db.markNodeRun owner expected state) := by
  obtain ⟨row, rowMember, isOwner, rowOut⟩ := wasOut
  refine recorded.write keyed
    ((db.nodeRuns.filter fun run => run.id = owner && expected run.state).map NodeRun.id) rfl ?_ (fun _ => ⟨rfl, rfl⟩) ?_ ?_ ?_
  · rw [List.map_map]
    rfl
  · intro id isNamed
    obtain ⟨run, isKept, rfl⟩ := List.mem_map.mp isNamed
    exact ⟨run, List.mem_of_mem_filter isKept, rfl, (List.mem_filter.mp isKept).2⟩
  · intro run member hit
    exact List.mem_map_of_mem (List.mem_filter.mpr ⟨member, hit⟩)
  · intro run member hit
    simp only [Bool.and_eq_true, decide_eq_true_eq] at hit
    rw [keyed.run_eq member rowMember (hit.1.trans isOwner.symm)]
    exact Or.inl (NodeRunState.not_terminal_of_dispatched rowOut)

theorem markFor (recorded : Recorded db) (keyed : Keyed wf db) (action : WorkAction) {owner : Nat}
    (wasOut : ∃ run ∈ db.nodeRuns, run.id = owner ∧ run.state.dispatched = true) :
    Recorded (db.markFor action owner) := by
  unfold RunDb.markFor
  split
  · exact recorded.markNodeRun keyed _ _ wasOut
  · exact recorded.markNodeRun keyed _ _ wasOut
  · exact recorded.markNodeRun keyed _ _ wasOut
  · exact recorded.markNodeRun keyed _ _ wasOut
  · exact recorded.markNodeRun keyed _ _ wasOut
  · exact recorded

theorem freeze (recorded : Recorded db) (action : WorkAction) : Recorded (db.freeze action) := by
  unfold RunDb.freeze
  split
  · exact recorded.congr rfl rfl
  · exact recorded

theorem workStatement (recorded : Recorded db) (keyed : Keyed wf db) (linked : Linked db)
    {action : WorkAction} (acted : db.workStatement wf action = some next) : Recorded next := by
  obtain ⟨isCode, after, worker, performed, cases_⟩ := RunDb.workStatement_eq_some acted
  have moved : Recorded { db with work := after.tables } := recorded.congr rfl rfl
  have movedKeyed := keyed.setWork after.tables (workerStatement_update worker performed).keys
  rcases cases_ with ⟨_, rfl⟩ | ⟨owner, named, rfl⟩
  · exact moved.freeze action
  · exact (moved.markFor movedKeyed action (linked.owner_dispatched performed named)).freeze action

end Recorded

theorem Turn.recorded {wf : Workflow} {strict calm : Prop} {here there : Hand × RunDb}
    (turn : Turn wf strict calm here there) (isStrict : strict) (standing : Standing wf here)
    (linked : Linked here.2) (recorded : Recorded here.2) : Recorded there.2 := by
  obtain ⟨keyed, lies, _⟩ := standing
  cases turn with
  | note tasks attempts => exact recorded.congr rfl rfl
  | work acted => exact recorded.workStatement keyed linked acted
  | hold _ _ => exact recorded.congr rfl rfl
  | retry availableAt member isOpen _ _ =>
      have enqueued := recorded.enqueueWork availableAt member isOpen
      exact enqueued.updateNodeRun (keyed.enqueueWork availableAt (keyed.runsOld _ member)) "" member
        (Or.inl isOpen)
  | pickUp event now _ _ _ _ _ _ =>
      exact recorded.startNode keyed none (some event) now (fun key isKey => by simp at isKey)
  | cancel cancelled => exact recorded.cancelRunGuarded keyed cancelled
  | finish outcome member isOpen _ _ _ _ =>
      exact recorded.finishNodeRun keyed outcome member rfl (Or.inl isOpen)
  | put parent now _ _ _ => exact recorded.startNode keyed parent none now lies
  | reachEnd parent found _ => exact recorded.reachEnd keyed parent (wf.node?_declared found) lies
  | arrive token fromNode outcome output _ _ =>
      exact recorded.gather keyed _ token _ fromNode outcome output lies
  | split nodeRun => exact recorded.congr rfl rfl
  | putBranch parent now _ _ => exact recorded.startNode keyed parent none now lies
  | @arriveBranch db group edge rest join parent fromNode outcome output _ _ =>
      have consumed :
          Recorded ((db.insertToken join.id parent (some group) none).consumeToken db.nextID) :=
        recorded.congr rfl rfl
      have consumedKeyed :
          Keyed wf ((db.insertToken join.id parent (some group) none).consumeToken db.nextID) :=
        (keyed.insertToken lies).consumeToken _
      exact consumed.gather consumedKeyed join _ group fromNode outcome output lies
  | spread => exact recorded
  | fire now _ _ _ parked =>
      exact recorded.fireBarrier keyed _ now (keyed.groupsOld _ (lies _ rfl)) (parked isStrict)
  | settled _ => exact recorded
  | abandon _ => exact recorded
  | refinish outcome _ _ known =>
      obtain ⟨run, member, sameID, _, sameState⟩ := known isStrict
      exact recorded.finishNodeRun keyed outcome member sameID (Or.inr sameState)
  | reap keep _ => exact recorded.reapRunState keyed keep
  | retire => exact recorded.congr rfl rfl
  | conclude output ending _ _ _ => exact recorded.congr rfl rfl

/-- No node run is deleted and no entry of the journal is taken back. -/
structure Extends (before after : RunDb) : Prop where
  runs : ∀ run ∈ before.nodeRuns, ∃ later ∈ after.nodeRuns, later.stand = run.stand
  journal : ∀ entry ∈ before.journal, entry ∈ after.journal

namespace Extends

variable {wf : Workflow} {db next : RunDb}

theorem of_eq (sameRuns : next.nodeRuns = db.nodeRuns) (sameJournal : next.journal = db.journal) :
    Extends db next :=
  ⟨fun run member => ⟨run, sameRuns ▸ member, rfl⟩, fun _ member => sameJournal ▸ member⟩

theorem trans {first second third : RunDb} (left : Extends first second)
    (right : Extends second third) : Extends first third := by
  refine ⟨fun run member => ?_, fun entry member => right.journal entry (left.journal entry member)⟩
  obtain ⟨middle, middleMember, same⟩ := left.runs run member
  obtain ⟨later, laterMember, sameLater⟩ := right.runs middle middleMember
  exact ⟨later, laterMember, sameLater.trans same⟩

theorem insertNodeRun (token : Nat) (node : String) (state : NodeRunState) :
    Extends db (db.insertNodeRun token node state) :=
  ⟨fun run member => ⟨run, List.mem_append_left _ member, rfl⟩,
    fun _ member => List.mem_cons_of_mem _ member⟩

theorem rewrite {hits : NodeRun → Bool} {write : NodeRun → NodeRun} (entries : List Entry)
    (sameRuns : next.nodeRuns = Table.update db.nodeRuns hits write)
    (sameJournal : next.journal = entries ++ db.journal)
    (stands : ∀ run, (write run).stand = run.stand) : Extends db next := by
  refine ⟨fun run member => ?_, fun entry member => ?_⟩
  · rw [sameRuns]
    refine ⟨_, Table.mem_update_of_mem hits write member, ?_⟩
    split
    · exact stands run
    · rfl
  · rw [sameJournal]
    exact List.mem_append_right _ member

theorem updateNodeRun (id : Nat) (state : NodeRunState) (outcome : String) :
    Extends db (db.updateNodeRun id state outcome) :=
  rewrite [.wrote id state] rfl rfl fun _ => rfl

theorem addEntry (entry : Entry) : Extends db { db with journal := entry :: db.journal } :=
  ⟨fun run member => ⟨run, member, rfl⟩, fun _ member => List.mem_cons_of_mem _ member⟩

theorem enqueueWork (nodeRun availableAt : Nat) : Extends db (db.enqueueWork nodeRun availableAt) :=
  ⟨fun run member => ⟨run, member, rfl⟩, fun _ member => List.mem_cons_of_mem _ member⟩

theorem cancelNodeRuns (lost : List Nat) : Extends db (db.cancelNodeRuns lost) :=
  rewrite _ rfl rfl fun _ => rfl

theorem dispatchNode (node : Node) (nodeRun now : Nat) :
    Extends db (db.dispatchNode node nodeRun now) := by
  unfold RunDb.dispatchNode
  split
  · exact of_eq rfl rfl
  · exact enqueueWork _ _

theorem insertPair (node : String) (parent group : Option Nat) (originEvent : Option String)
    (state : NodeRunState) :
    Extends db ((db.insertToken node parent group originEvent).insertNodeRun db.nextID node state) := by
  have placed : Extends db (db.insertToken node parent group originEvent) := of_eq rfl rfl
  exact placed.trans (insertNodeRun db.nextID node state)

theorem startNode (node : Node) (parent group : Option Nat) (originEvent : Option String) (now : Nat) :
    Extends db (db.startNode node parent group originEvent now) :=
  (insertPair node.id parent group originEvent (dispatchState node.kind)).trans (dispatchNode _ _ _)

theorem finishNodeRun (run : NodeRun) (state : NodeRunState) (outcome : String) :
    Extends db (db.finishNodeRun run state outcome) :=
  (updateNodeRun run.id state outcome).trans (of_eq rfl rfl)

theorem reachEnd (node : Node) (parent group : Option Nat) :
    Extends db (db.reachEnd node parent group) :=
  (insertPair node.id parent group none (dispatchState node.kind)).trans
    ((updateNodeRun _ _ _).trans (of_eq rfl rfl))

theorem gather (join : Node) (token group : Nat) (fromNode outcome : String) (output : Payload) :
    Extends db (db.gather join token group fromNode outcome output) := by
  unfold RunDb.gather RunDb.joinBarrier
  split
  · exact of_eq rfl rfl
  · exact (insertPair join.id (some token) (some group) none .waitingJoin).trans (of_eq rfl rfl)

theorem reapGroupBranches (group keep : Nat) : Extends db (db.reapGroupBranches group keep) :=
  (cancelNodeRuns _).trans (of_eq rfl rfl)

theorem reapRunState (keep : Nat) : Extends db (db.reapRunState keep) :=
  (cancelNodeRuns _).trans (of_eq rfl rfl)

theorem fireBarrier (barrier : NodeRun) (group : Nat) (early : Bool) (now : Nat) :
    Extends db (db.fireBarrier barrier group early now) := by
  have claimable : Extends db ((db.updateNodeRun barrier.id .ready "").enqueueWork barrier.id now) :=
    (updateNodeRun barrier.id .ready "").trans (enqueueWork barrier.id now)
  have marked := claimable.trans (addEntry (.fired barrier.id group))
  unfold RunDb.fireBarrier
  dsimp only
  split
  · exact marked.trans (reapGroupBranches group barrier.token)
  · exact marked

theorem markNodeRun (id : Nat) (expected : NodeRunState → Bool) (state : NodeRunState) :
    Extends db (db.markNodeRun id expected state) :=
  rewrite _ rfl rfl fun _ => rfl

theorem markFor (action : WorkAction) (owner : Nat) : Extends db (db.markFor action owner) := by
  unfold RunDb.markFor
  split
  · exact markNodeRun _ _ _
  · exact markNodeRun _ _ _
  · exact markNodeRun _ _ _
  · exact markNodeRun _ _ _
  · exact markNodeRun _ _ _
  · exact of_eq rfl rfl

theorem freeze (action : WorkAction) : Extends db (db.freeze action) := by
  unfold RunDb.freeze
  split <;> exact of_eq rfl rfl

theorem workStatement {action : WorkAction} (acted : db.workStatement wf action = some next) :
    Extends db next := by
  obtain ⟨_, after, _, _, cases_⟩ := RunDb.workStatement_eq_some acted
  have moved : Extends db { db with work := after.tables } := of_eq rfl rfl
  rcases cases_ with ⟨_, rfl⟩ | ⟨owner, _, rfl⟩
  · exact moved.trans (freeze action)
  · exact (moved.trans (markFor action owner)).trans (freeze action)

theorem cancelRunGuarded {parkedAt detail : String}
    (cancelled : db.cancelRunGuarded parkedAt detail = some next) : Extends db next := by
  rw [← RunDb.cancelRunGuarded_eq_some cancelled]
  exact (cancelNodeRuns _).trans (of_eq rfl rfl)

end Extends

theorem Turn.extends {wf : Workflow} {strict calm : Prop} {here there : Hand × RunDb}
    (turn : Turn wf strict calm here there) : Extends here.2 there.2 := by
  cases turn with
  | note tasks attempts => exact .of_eq rfl rfl
  | work acted => exact .workStatement acted
  | hold _ _ => exact .of_eq rfl rfl
  | retry availableAt _ _ _ _ =>
      exact (Extends.enqueueWork _ availableAt).trans (.updateNodeRun _ _ _)
  | pickUp event now _ _ _ _ _ _ => exact .startNode _ _ _ _ _
  | cancel cancelled => exact .cancelRunGuarded cancelled
  | finish outcome _ _ _ _ _ _ => exact .finishNodeRun _ _ _
  | put parent now _ _ _ => exact .startNode _ _ _ _ _
  | reachEnd parent _ _ => exact .reachEnd _ _ _
  | arrive token fromNode outcome output _ _ => exact .gather _ _ _ _ _ _
  | split nodeRun => exact .of_eq rfl rfl
  | putBranch parent now _ _ => exact .startNode _ _ _ _ _
  | @arriveBranch db group edge rest join parent fromNode outcome output _ _ =>
      have consumed :
          Extends db ((db.insertToken join.id parent (some group) none).consumeToken db.nextID) :=
        .of_eq rfl rfl
      exact consumed.trans (.gather _ _ _ _ _ _)
  | spread => exact .of_eq rfl rfl
  | fire now _ _ _ _ => exact .fireBarrier _ _ _ _
  | settled _ => exact .of_eq rfl rfl
  | abandon _ => exact .of_eq rfl rfl
  | refinish outcome _ _ _ => exact .finishNodeRun _ _ _
  | reap keep _ => exact .reapRunState _
  | retire => exact .of_eq rfl rfl
  | conclude output ending _ _ _ => exact .of_eq rfl rfl

section

variable {wf : Workflow} {strict calm : Prop} {here there : Hand × RunDb}

theorem Turns.extends (turns : Turns wf strict calm here there) : Extends here.2 there.2 := by
  induction turns with
  | refl => exact .of_eq rfl rfl
  | tail _ turn ih => exact ih.trans turn.extends

/-- Strict turns keep rows and journal in order. -/
theorem Turns.linked (turns : Turns wf strict calm here there) (isStrict : strict)
    (standing : Standing wf here) (linked : Linked here.2) (recorded : Recorded here.2) :
    Linked there.2 ∧ Recorded there.2 := by
  induction turns with
  | refl => exact ⟨linked, recorded⟩
  | tail earlier turn ih =>
      have middle := Turns.standing earlier standing
      exact ⟨turn.linked isStrict middle ih.1, turn.recorded isStrict middle ih.1 ih.2⟩

theorem Recorded.ended_stays {before after : RunDb} {run : NodeRun} (recorded : Recorded before)
    (later : Recorded after) (grown : Extends before after) (member : run ∈ before.nodeRuns)
    (terminal : run.state.terminal = true) :
    ∃ kept ∈ after.nodeRuns, kept.stand = run.stand ∧ kept.state = run.state := by
  obtain ⟨kept, keptMember, stands⟩ := grown.runs run member
  have entry := grown.journal _ (recorded.written run member)
  have sameID : kept.id = run.id := congrArg Prod.fst stands
  exact ⟨kept, keptMember, stands, later.kept kept keptMember run.state (sameID ▸ entry) terminal⟩

end

end CultureNodes.Engine
