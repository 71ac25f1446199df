import CultureNodes.Engine.Turn

/-!
What the rows look like whatever the turns are: ids are distinct and older than the counter, a node
run stands where its token stands, groups form a forest and tokens lie in it.
-/

namespace CultureNodes.Engine

open Store (WorkTables WorkItem WorkAction WorkSystem)

/-- The ids a journal entry names are older than the counter. -/
def Entry.Old (limit : Nat) : Entry → Prop
  | .wrote run _ => run < limit
  | .enqueued run => run < limit
  | .fired barrier group => barrier < limit ∧ group < limit

theorem Entry.Old.mono {limit wider : Nat} {entry : Entry} (old : entry.Old limit)
    (grows : limit ≤ wider) : entry.Old wider := by
  cases entry with
  | wrote run state => exact Nat.lt_of_lt_of_le old grows
  | enqueued run => exact Nat.lt_of_lt_of_le old grows
  | fired barrier group =>
      exact ⟨Nat.lt_of_lt_of_le old.1 grows, Nat.lt_of_lt_of_le old.2 grows⟩

/-- Where a token stands, whether or not it is active. -/
def Token.stand (token : Token) : Nat × String × Option Nat := (token.id, token.node, token.group)

/-- A state in which a node run waits for a person or for the other branches of its group. -/
def NodeRunState.waits (state : NodeRunState) : Bool :=
  state = .waitingHuman || state = .waitingJoin

structure Keyed (wf : Workflow) (db : RunDb) : Prop where
  tokenIDs : (db.tokens.map Token.id).Nodup
  tokensOld : ∀ token ∈ db.tokens, token.id < db.nextID
  runIDs : (db.nodeRuns.map NodeRun.id).Nodup
  runsOld : ∀ run ∈ db.nodeRuns, run.id < db.nextID
  owners : (db.nodeRuns.map NodeRun.token).Nodup
  placed : ∀ run ∈ db.nodeRuns, ∃ token ∈ db.tokens, token.id = run.token ∧ token.node = run.node
  groupsOld : ∀ key ∈ db.groupTree.map Prod.fst, key < db.nextID
  grown : Forest.Grown db.groupTree
  grouped : ∀ token ∈ db.tokens, Forest.Valid db.groupTree token.group
  human : ∀ run ∈ db.nodeRuns, run.state = .waitingHuman → wf.kind? run.node = some .approval
  parked : ∀ run ∈ db.nodeRuns, run.state = .waitingJoin → wf.kind? run.node = some .join ∧
    ∃ token ∈ db.tokens, token.id = run.token ∧ token.group.isSome = true
  routes : ∀ route ∈ db.eventRoutes, route.eventName ≠ ""
  arrivalsOld : ∀ arrival ∈ db.joinArrivals, arrival.joinNodeRun < db.nextID ∧
    arrival.group < db.nextID
  journalOld : ∀ entry ∈ db.journal, entry.Old db.nextID
  itemsOld : ∀ item ∈ db.work.items, item.id < db.nextID ∧ item.nodeRun < db.nextID

namespace Keyed

variable {wf : Workflow} {db : RunDb}

section

variable (keyed : Keyed wf db)

include keyed

theorem token_eq {left right : Token} (leftMember : left ∈ db.tokens) (rightMember : right ∈ db.tokens)
    (same : left.id = right.id) : left = right :=
  Table.eq_of_key keyed.tokenIDs leftMember rightMember same

theorem run_eq {left right : NodeRun} (leftMember : left ∈ db.nodeRuns)
    (rightMember : right ∈ db.nodeRuns) (same : left.id = right.id) : left = right :=
  Table.eq_of_key keyed.runIDs leftMember rightMember same

theorem owner_eq {left right : NodeRun} (leftMember : left ∈ db.nodeRuns)
    (rightMember : right ∈ db.nodeRuns) (same : left.token = right.token) : left = right :=
  Table.eq_of_key keyed.owners leftMember rightMember same

theorem token?_eq {token : Token} (member : token ∈ db.tokens) : db.token? token.id = some token := by
  cases found : db.token? token.id with
  | none =>
      have absent := List.find?_eq_none.mp found token member
      simp at absent
  | some other =>
      have sameID : other.id = token.id := by simpa using List.find?_some found
      rw [keyed.token_eq (List.mem_of_find?_eq_some found) member sameID]

/-- The token rows may change as long as each stays where it stands. -/
theorem setTokens (tokens : List Token)
    (same : tokens.map Token.stand = db.tokens.map Token.stand) :
    Keyed wf { db with tokens := tokens } := by
  have back : ∀ token ∈ db.tokens, ∃ moved ∈ tokens, moved.stand = token.stand := fun token member =>
    Table.exists_of_keys_eq same.symm member
  have forth : ∀ moved ∈ tokens, ∃ token ∈ db.tokens, token.stand = moved.stand := fun moved member =>
    Table.exists_of_keys_eq same member
  refine { keyed with tokenIDs := ?_, tokensOld := ?_, placed := ?_, grouped := ?_, parked := ?_ }
  · have ids : tokens.map Token.id = db.tokens.map Token.id := Table.keys_eq_map Prod.fst same
    exact ids ▸ keyed.tokenIDs
  · intro moved member
    obtain ⟨token, tokenMember, stands⟩ := forth moved member
    have sameID : token.id = moved.id := congrArg Prod.fst stands
    exact sameID ▸ keyed.tokensOld token tokenMember
  · intro run member
    obtain ⟨token, tokenMember, sameID, sameNode⟩ := keyed.placed run member
    obtain ⟨moved, movedMember, stands⟩ := back token tokenMember
    have movedID : moved.id = token.id := congrArg Prod.fst stands
    have movedNode : moved.node = token.node := congrArg (fun s => s.2.1) stands
    exact ⟨moved, movedMember, movedID.trans sameID, movedNode.trans sameNode⟩
  · intro moved member
    obtain ⟨token, tokenMember, stands⟩ := forth moved member
    have sameGroup : token.group = moved.group := congrArg (fun s => s.2.2) stands
    exact sameGroup ▸ keyed.grouped token tokenMember
  · intro run member waits
    obtain ⟨isJoin, token, tokenMember, sameID, inGroup⟩ := keyed.parked run member waits
    obtain ⟨moved, movedMember, stands⟩ := back token tokenMember
    have movedID : moved.id = token.id := congrArg Prod.fst stands
    have movedGroup : moved.group = token.group := congrArg (fun s => s.2.2) stands
    exact ⟨isJoin, moved, movedMember, movedID.trans sameID, movedGroup ▸ inGroup⟩

theorem setNodeRuns {runs : List NodeRun}
    (same : runs.map NodeRun.stand = db.nodeRuns.map NodeRun.stand)
    (waits : ∀ run ∈ runs, run.state.waits = true → ∃ old ∈ db.nodeRuns, old.stand = run.stand ∧
      old.state = run.state) : Keyed wf { db with nodeRuns := runs } := by
  have forth : ∀ run ∈ runs, ∃ old ∈ db.nodeRuns, old.stand = run.stand := fun run member =>
    Table.exists_of_keys_eq same member
  refine { keyed with
    runIDs := ?_, runsOld := ?_, owners := ?_, placed := ?_, human := ?_, parked := ?_ }
  · have ids : runs.map NodeRun.id = db.nodeRuns.map NodeRun.id := Table.keys_eq_map Prod.fst same
    exact ids ▸ keyed.runIDs
  · intro run member
    obtain ⟨old, oldMember, stands⟩ := forth run member
    have sameID : old.id = run.id := congrArg Prod.fst stands
    exact sameID ▸ keyed.runsOld old oldMember
  · have tokens : runs.map NodeRun.token = db.nodeRuns.map NodeRun.token :=
      Table.keys_eq_map (fun stand : Nat × Nat × String => stand.2.1) same
    exact tokens ▸ keyed.owners
  · intro run member
    obtain ⟨old, oldMember, stands⟩ := forth run member
    have sameToken : old.token = run.token := congrArg (fun s => s.2.1) stands
    have sameNode : old.node = run.node := congrArg (fun s => s.2.2) stands
    obtain ⟨token, tokenMember, sameID, tokenNode⟩ := keyed.placed old oldMember
    exact ⟨token, tokenMember, sameID.trans sameToken, tokenNode.trans sameNode⟩
  · intro run member isHuman
    obtain ⟨old, oldMember, stands, sameState⟩ :=
      waits run member (by simp [NodeRunState.waits, isHuman])
    have sameNode : old.node = run.node := congrArg (fun s => s.2.2) stands
    exact sameNode ▸ keyed.human old oldMember (sameState.trans isHuman)
  · intro run member isParked
    obtain ⟨old, oldMember, stands, sameState⟩ :=
      waits run member (by simp [NodeRunState.waits, isParked])
    have sameNode : old.node = run.node := congrArg (fun s => s.2.2) stands
    have sameToken : old.token = run.token := congrArg (fun s => s.2.1) stands
    rw [← sameNode, ← sameToken]
    exact keyed.parked old oldMember (sameState.trans isParked)

theorem setJournal {journal : List Entry} (old : ∀ entry ∈ journal, entry.Old db.nextID) :
    Keyed wf { db with journal := journal } :=
  { keyed with journalOld := old }

theorem addEntry (entry : Entry) (old : entry.Old db.nextID) :
    Keyed wf { db with journal := entry :: db.journal } :=
  keyed.setJournal fun other member => by
    rcases List.mem_cons.mp member with rfl | later
    · exact old
    · exact keyed.journalOld other later

theorem setWork (work : WorkTables)
    (same : work.items.map (fun item => (item.id, item.nodeRun)) =
      db.work.items.map (fun item => (item.id, item.nodeRun))) : Keyed wf { db with work := work } := by
  refine { keyed with itemsOld := fun item member => ?_ }
  obtain ⟨old, oldMember, sameKey⟩ := Table.exists_of_keys_eq same member
  have sameID : old.id = item.id := congrArg Prod.fst sameKey
  have sameRun : old.nodeRun = item.nodeRun := congrArg Prod.snd sameKey
  exact sameID ▸ sameRun ▸ keyed.itemsOld old oldMember

/-- The counter may move on. -/
theorem advanceID {limit : Nat} (grows : db.nextID ≤ limit) : Keyed wf { db with nextID := limit } :=
  { keyed with
    tokensOld := fun token member => Nat.lt_of_lt_of_le (keyed.tokensOld token member) grows
    runsOld := fun run member => Nat.lt_of_lt_of_le (keyed.runsOld run member) grows
    groupsOld := fun key member => Nat.lt_of_lt_of_le (keyed.groupsOld key member) grows
    arrivalsOld := fun arrival member =>
      ⟨Nat.lt_of_lt_of_le (keyed.arrivalsOld arrival member).1 grows,
        Nat.lt_of_lt_of_le (keyed.arrivalsOld arrival member).2 grows⟩
    journalOld := fun entry member => (keyed.journalOld entry member).mono grows
    itemsOld := fun item member =>
      ⟨Nat.lt_of_lt_of_le (keyed.itemsOld item member).1 grows,
        Nat.lt_of_lt_of_le (keyed.itemsOld item member).2 grows⟩ }

end

theorem insertToken (keyed : Keyed wf db) {node : String} {parent group : Option Nat}
    {originEvent : Option String} (valid : Forest.Valid db.groupTree group) :
    Keyed wf (db.insertToken node parent group originEvent) := by
  have later := keyed.advanceID (Nat.le_succ db.nextID)
  refine { later with tokenIDs := ?_, tokensOld := ?_, placed := ?_, grouped := ?_, parked := ?_ }
  · refine Table.keys_append_nodup keyed.tokenIDs fun member => ?_
    obtain ⟨token, tokenMember, sameID⟩ := List.mem_map.mp member
    exact absurd (keyed.tokensOld token tokenMember) (by rw [sameID]; exact Nat.lt_irrefl _)
  · intro token member
    rcases List.mem_append.mp member with old | new
    · exact later.tokensOld token old
    · rw [List.mem_singleton.mp new]
      exact Nat.lt_succ_self _
  · intro run member
    obtain ⟨token, tokenMember, same⟩ := keyed.placed run member
    exact ⟨token, List.mem_append_left _ tokenMember, same⟩
  · intro token member
    rcases List.mem_append.mp member with old | new
    · exact keyed.grouped token old
    · rw [List.mem_singleton.mp new]
      exact valid
  · intro run member waits
    obtain ⟨isJoin, token, tokenMember, same⟩ := keyed.parked run member waits
    exact ⟨isJoin, token, List.mem_append_left _ tokenMember, same⟩

theorem consumeToken (keyed : Keyed wf db) (id : Nat) : Keyed wf (db.consumeToken id) :=
  keyed.setTokens _ (Table.update_keys fun _ => rfl)

theorem insertNodeRun (keyed : Keyed wf db) {token : Token} {node : String} {state : NodeRunState}
    (member : token ∈ db.tokens) (sameNode : token.node = node)
    (unowned : ∀ run ∈ db.nodeRuns, run.token ≠ token.id)
    (human : state = .waitingHuman → wf.kind? node = some .approval)
    (parked : state = .waitingJoin → wf.kind? node = some .join ∧ token.group.isSome = true) :
    Keyed wf (db.insertNodeRun token.id node state) := by
  have later := (keyed.advanceID (Nat.le_succ db.nextID)).addEntry
    (.wrote db.nextID state) (Nat.lt_succ_self _)
  refine { later with
    runIDs := ?_, runsOld := ?_, owners := ?_, placed := ?_, human := ?_, parked := ?_ }
  · refine Table.keys_append_nodup keyed.runIDs fun runMember => ?_
    obtain ⟨run, runMember, sameID⟩ := List.mem_map.mp runMember
    exact absurd (keyed.runsOld run runMember) (by rw [sameID]; exact Nat.lt_irrefl _)
  · intro run runMember
    rcases List.mem_append.mp runMember with old | new
    · exact later.runsOld run old
    · rw [List.mem_singleton.mp new]
      exact Nat.lt_succ_self _
  · refine Table.keys_append_nodup keyed.owners fun runMember => ?_
    obtain ⟨run, runMember, sameToken⟩ := List.mem_map.mp runMember
    exact unowned run runMember sameToken
  · intro run runMember
    rcases List.mem_append.mp runMember with old | new
    · exact keyed.placed run old
    · rw [List.mem_singleton.mp new]
      exact ⟨token, member, rfl, sameNode⟩
  · intro run runMember isHuman
    rcases List.mem_append.mp runMember with old | new
    · exact keyed.human run old isHuman
    · rw [List.mem_singleton.mp new] at isHuman ⊢
      exact human isHuman
  · intro run runMember isParked
    rcases List.mem_append.mp runMember with old | new
    · exact keyed.parked run old isParked
    · rw [List.mem_singleton.mp new] at isParked ⊢
      exact ⟨(parked isParked).1, token, member, rfl, (parked isParked).2⟩

theorem updateNodeRuns (keyed : Keyed wf db) (guard : NodeRun → Bool) (write : NodeRun → NodeRun)
    (stands : ∀ run, (write run).stand = run.stand)
    (wakes : ∀ run, (write run).state.waits = false) :
    Keyed wf { db with nodeRuns := Table.update db.nodeRuns guard write } := by
  refine keyed.setNodeRuns (Table.update_keys stands) fun run member waits => ?_
  obtain ⟨old, oldMember, rfl⟩ := Table.mem_update.mp member
  by_cases hit : guard old = true
  · rw [if_pos hit, wakes] at waits
    contradiction
  · rw [if_neg hit]
    exact ⟨old, oldMember, rfl, rfl⟩

theorem updateNodeRun (keyed : Keyed wf db) {id : Nat} {state : NodeRunState} {outcome : String}
    (known : id < db.nextID) (wakes : state.waits = false) :
    Keyed wf (db.updateNodeRun id state outcome) :=
  (keyed.updateNodeRuns (·.id = id)
    (fun run => { run with state := state, outcome := if outcome = "" then run.outcome else outcome })
    (fun _ => rfl) (fun _ => wakes)).addEntry (.wrote id state) known

theorem insertTokenGroup (keyed : Keyed wf db) {nodeRun cardinality : Nat} {parent : Option Nat}
    (valid : Forest.Valid db.groupTree parent) :
    Keyed wf (db.insertTokenGroup nodeRun parent cardinality) := by
  have later := keyed.advanceID (Nat.le_succ db.nextID)
  refine { later with groupsOld := ?_, grown := ?_, grouped := ?_ }
  · intro key member
    rcases List.mem_cons.mp member with rfl | old
    · exact Nat.lt_succ_self _
    · exact later.groupsOld key old
  · exact .cons keyed.grown
      (fun member => Nat.lt_irrefl _ (keyed.groupsOld db.nextID member)) valid
  · exact fun token member key isKey => List.mem_cons_of_mem _ (keyed.grouped token member key isKey)

theorem insertJoinArrival (keyed : Keyed wf db) {arrival : JoinArrival}
    (barrier : arrival.joinNodeRun < db.nextID) (group : arrival.group < db.nextID) :
    Keyed wf (db.insertJoinArrival arrival) := by
  refine { keyed with arrivalsOld := fun other member => ?_ }
  rcases List.mem_append.mp member with old | new
  · exact keyed.arrivalsOld other old
  · rw [List.mem_singleton.mp new]
    exact ⟨barrier, group⟩

theorem enqueueWork (keyed : Keyed wf db) {nodeRun : Nat} (availableAt : Nat)
    (known : nodeRun < db.nextID) : Keyed wf (db.enqueueWork nodeRun availableAt) := by
  have later := (keyed.advanceID (Nat.le_succ db.nextID)).addEntry
    (.enqueued nodeRun) (Nat.lt_succ_of_lt known)
  refine { later with itemsOld := fun item member => ?_ }
  rcases List.mem_append.mp member with old | new
  · exact later.itemsOld item old
  · rw [List.mem_singleton.mp new]
    exact ⟨Nat.lt_succ_self _, Nat.lt_succ_of_lt known⟩

theorem insertHumanTask (keyed : Keyed wf db) (nodeRun : Nat) (outcomes : List String) :
    Keyed wf (db.insertHumanTask nodeRun outcomes) :=
  { keyed.advanceID (Nat.le_succ db.nextID) with }

theorem dispatchNode (keyed : Keyed wf db) {nodeRun : Nat} (node : Node) (now : Nat)
    (known : nodeRun < db.nextID) : Keyed wf (db.dispatchNode node nodeRun now) := by
  unfold RunDb.dispatchNode
  split
  · exact keyed.insertHumanTask _ _
  · exact keyed.enqueueWork _ known

theorem retireEventRoutes (keyed : Keyed wf db) : Keyed wf db.retireEventRoutes := by
  refine { keyed with routes := fun route member => ?_ }
  obtain ⟨old, oldMember, rfl⟩ := Table.mem_update.mp member
  split
  · exact keyed.routes old oldMember
  · exact keyed.routes old oldMember

theorem cancelled_old (keyed : Keyed wf db) {lost : List Nat} (known : ∀ id ∈ lost, id < db.nextID) :
    ∀ entry ∈ lost.map (Entry.wrote · .cancelled) ++ db.journal, entry.Old db.nextID := by
  intro entry member
  rcases List.mem_append.mp member with new | old
  · obtain ⟨id, isLost, rfl⟩ := List.mem_map.mp new
    exact known id isLost
  · exact keyed.journalOld entry old

theorem cancelNodeRuns (keyed : Keyed wf db) {lost : List Nat} (known : ∀ id ∈ lost, id < db.nextID) :
    Keyed wf (db.cancelNodeRuns lost) := by
  have runs := keyed.updateNodeRuns (fun run => lost.contains run.id)
    (fun run => { run with state := .cancelled }) (fun _ => rfl) (fun _ => rfl)
  have work := runs.setWork (db.work.reapNodeRunAppendages lost) (Table.update_keys fun _ => rfl)
  exact work.setJournal (keyed.cancelled_old known)

theorem filtered_old (keyed : Keyed wf db) (chosen : NodeRun → Bool) :
    ∀ id ∈ (db.nodeRuns.filter chosen).map NodeRun.id, id < db.nextID := by
  intro id member
  obtain ⟨run, kept, rfl⟩ := List.mem_map.mp member
  exact keyed.runsOld run (List.mem_of_mem_filter kept)

theorem reapGroupBranches (keyed : Keyed wf db) (group keep : Nat) :
    Keyed wf (db.reapGroupBranches group keep) :=
  (keyed.cancelNodeRuns (keyed.filtered_old _)).setTokens _ (Table.update_keys fun _ => rfl)

theorem reapRunState (keyed : Keyed wf db) (keep : Nat) : Keyed wf (db.reapRunState keep) := by
  unfold RunDb.reapRunState
  apply retireEventRoutes
  exact (keyed.cancelNodeRuns (keyed.filtered_old _)).setTokens _ (Table.update_keys fun _ => rfl)

theorem updateRunState (keyed : Keyed wf db) (state : RunState) (output : Option Payload)
    (ending : Ending) : Keyed wf (db.updateRunState state output ending) :=
  { keyed with }

theorem finishNodeRun (keyed : Keyed wf db) {run : NodeRun} {state : NodeRunState}
    (outcome : String) (known : run.id < db.nextID) (terminal : state.terminal = true) :
    Keyed wf (db.finishNodeRun run state outcome) := by
  refine (keyed.updateNodeRun known ?_).consumeToken _
  cases state <;> simp_all [NodeRunState.terminal, NodeRunState.waits]

theorem fresh_token (keyed : Keyed wf db) : ∀ run ∈ db.nodeRuns, run.token ≠ db.nextID := by
  intro run member same
  obtain ⟨token, tokenMember, sameID, _⟩ := keyed.placed run member
  exact absurd (keyed.tokensOld token tokenMember) (by rw [sameID, same]; exact Nat.lt_irrefl _)

/-- A token that is made and consumed at once leaves the others alone. -/
theorem insertConsumed_tokens (keyed : Keyed wf db) {node : String} {parent group : Option Nat}
    {originEvent : Option String} :
    ((db.insertToken node parent group originEvent).consumeToken db.nextID).tokens =
      db.tokens ++ [⟨db.nextID, node, false, parent, group, originEvent⟩] := by
  have others : db.tokens.map (fun token => if (token.id = db.nextID && token.active) = true then
      { token with active := false } else token) = db.tokens := by
    refine (List.map_congr_left fun token member => ?_).trans (List.map_id db.tokens)
    have older := keyed.tokensOld token member
    have differs : ¬ token.id = db.nextID := by omega
    simp [differs]
  simp only [RunDb.consumeToken, RunDb.insertToken, Table.update, List.map_append, others]
  simp

theorem insertPair (keyed : Keyed wf db) {node : String} {parent group : Option Nat}
    {originEvent : Option String} {state : NodeRunState} (valid : Forest.Valid db.groupTree group)
    (human : state = .waitingHuman → wf.kind? node = some .approval)
    (parked : state = .waitingJoin → wf.kind? node = some .join ∧ group.isSome = true) :
    Keyed wf ((db.insertToken node parent group originEvent).insertNodeRun db.nextID node state) :=
  let token : Token := ⟨db.nextID, node, true, parent, group, originEvent⟩
  have member : token ∈ (db.insertToken node parent group originEvent).tokens :=
    List.mem_append_right _ (List.mem_singleton.mpr rfl)
  (keyed.insertToken valid).insertNodeRun member rfl keyed.fresh_token human parked

theorem human_of_dispatchState {node : Node} (declared : wf.kind? node.id = some node.kind)
    (waits : dispatchState node.kind = .waitingHuman) : wf.kind? node.id = some .approval := by
  unfold dispatchState at waits
  split at waits
  · rename_i isApproval
    rw [declared, isApproval]
  · contradiction

theorem dispatchState_ne_waitingJoin {kind : NodeKind} : dispatchState kind ≠ .waitingJoin := by
  unfold dispatchState
  split <;> exact NodeRunState.noConfusion

theorem startNode (keyed : Keyed wf db) {node : Node} {group : Option Nat} (parent : Option Nat)
    (originEvent : Option String) (now : Nat) (declared : wf.kind? node.id = some node.kind)
    (valid : Forest.Valid db.groupTree group) :
    Keyed wf (db.startNode node parent group originEvent now) := by
  refine (keyed.insertPair valid (human_of_dispatchState declared) fun waits => ?_).dispatchNode node
    now (Nat.lt_succ_self _)
  exact absurd waits dispatchState_ne_waitingJoin

theorem reachEnd (keyed : Keyed wf db) {node : Node} {group : Option Nat} (parent : Option Nat)
    (declared : wf.kind? node.id = some node.kind) (valid : Forest.Valid db.groupTree group) :
    Keyed wf (db.reachEnd node parent group) := by
  have pair : Keyed wf ((db.insertToken node.id parent group none).insertNodeRun db.nextID node.id
      (dispatchState node.kind)) :=
    keyed.insertPair valid (human_of_dispatchState declared) fun waits =>
      absurd waits dispatchState_ne_waitingJoin
  exact (pair.updateNodeRun (Nat.lt_succ_self _) rfl).consumeToken _

theorem openJoinBarrier_eq_some {node : String} {group : Nat} {barrier : NodeRun}
    (found : db.openJoinBarrier node group = some barrier) :
    barrier ∈ db.nodeRuns ∧ barrier.node = node ∧ barrier.state = .waitingJoin ∧
      ∃ token ∈ db.tokens, token.id = barrier.token ∧ token.group = some group := by
  have matched := List.find?_some found
  simp only [Bool.and_eq_true, decide_eq_true_eq, List.any_eq_true] at matched
  exact ⟨List.mem_of_find?_eq_some found, matched.1.1, matched.1.2, matched.2⟩

theorem joinBarrier_parked (join : Node) (token group : Nat) :
    (db.joinBarrier join token group).1.Parked (db.joinBarrier join token group).2 group := by
  unfold RunDb.joinBarrier
  split
  · rename_i barrier found
    obtain ⟨member, _, waits, inGroup⟩ := openJoinBarrier_eq_some found
    exact ⟨barrier, member, rfl, rfl, waits, inGroup⟩
  · refine ⟨_, List.mem_append_right _ (List.mem_singleton.mpr rfl), rfl, rfl, rfl, ?_⟩
    exact ⟨_, List.mem_append_right _ (List.mem_singleton.mpr rfl), rfl, rfl⟩

theorem joinBarrier (keyed : Keyed wf db) {join : Node} {token group : Nat}
    (declared : wf.kind? join.id = some .join) (valid : Forest.Valid db.groupTree (some group)) :
    Keyed wf (db.joinBarrier join token group).1 := by
  unfold RunDb.joinBarrier
  split
  · exact keyed
  · exact keyed.insertPair valid (fun waits => absurd waits NodeRunState.noConfusion)
      (fun _ => ⟨declared, rfl⟩)

theorem parked_old (keyed : Keyed wf db) {barrier : NodeRun} {group : Nat}
    (parked : db.Parked barrier group) : barrier.id < db.nextID := by
  obtain ⟨run, member, sameID, _⟩ := parked
  exact sameID ▸ keyed.runsOld run member

theorem parked_atJoin (keyed : Keyed wf db) {barrier : NodeRun} {group : Nat}
    (parked : db.Parked barrier group) : db.AtJoin wf barrier.id := by
  obtain ⟨run, member, sameID, _, waits, _⟩ := parked
  exact ⟨run, member, sameID, (keyed.parked run member waits).1⟩

theorem joinBarrier_nextID (join : Node) (token group : Nat) :
    db.nextID ≤ (db.joinBarrier join token group).1.nextID := by
  unfold RunDb.joinBarrier
  split
  · exact Nat.le_refl _
  · exact Nat.le_add_right db.nextID 2

theorem gather (keyed : Keyed wf db) {join : Node} {token group : Nat} (fromNode outcome : String)
    (output : Payload) (declared : wf.kind? join.id = some .join)
    (valid : Forest.Valid db.groupTree (some group)) :
    Keyed wf (db.gather join token group fromNode outcome output) := by
  have gathered : Keyed wf (db.joinBarrier join token group).1 := keyed.joinBarrier declared valid
  refine gathered.insertJoinArrival (gathered.parked_old (joinBarrier_parked join token group)) ?_
  exact Nat.lt_of_lt_of_le (keyed.groupsOld group (valid group rfl)) (joinBarrier_nextID join token group)

theorem fireBarrier (keyed : Keyed wf db) {barrier : NodeRun} {group : Nat} (early : Bool) (now : Nat)
    (known : barrier.id < db.nextID) (groupKnown : group < db.nextID) :
    Keyed wf (db.fireBarrier barrier group early now) := by
  have claimable : Keyed wf ((db.updateNodeRun barrier.id .ready "").enqueueWork barrier.id now) :=
    (keyed.updateNodeRun known rfl).enqueueWork now known
  have marked := claimable.addEntry (.fired barrier.id group)
    ⟨Nat.lt_succ_of_lt known, Nat.lt_succ_of_lt groupKnown⟩
  unfold RunDb.fireBarrier
  dsimp only
  split
  · exact marked.reapGroupBranches _ _
  · exact marked

end Keyed

/-- The items after a statement are an update of the items before it, and what it writes is live. -/
def LiveUpdate (before after : WorkTables) : Prop :=
  ∃ (guard : WorkItem → Bool) (write : WorkItem → WorkItem),
    after.items = Table.update before.items guard write ∧
    (∀ item, (write item).id = item.id ∧ (write item).nodeRun = item.nodeRun) ∧
    ∀ item, guard item = true → (write item).live = true

namespace LiveUpdate

variable {before after : WorkTables}

theorem same (items : after.items = before.items) : LiveUpdate before after :=
  ⟨fun _ => false, id, by rw [Table.update_false, items], fun _ => ⟨rfl, rfl⟩,
    fun _ never => by contradiction⟩

theorem of_update? {guard : WorkItem → Bool} {write : WorkItem → WorkItem}
    (done : before.updateItems? guard write = some after)
    (keeps : ∀ item, (write item).id = item.id ∧ (write item).nodeRun = item.nodeRun)
    (live : ∀ item, guard item = true → (write item).live = true) : LiveUpdate before after := by
  obtain ⟨_, rfl⟩ := Store.updateItems?_eq_some done
  exact ⟨guard, write, rfl, keeps, live⟩

theorem congr {other : WorkTables} (updated : LiveUpdate before other)
    (items : after.items = other.items) : LiveUpdate before after := by
  obtain ⟨guard, write, isUpdate, keeps, live⟩ := updated
  exact ⟨guard, write, items.trans isUpdate, keeps, live⟩

theorem keys (updated : LiveUpdate before after) :
    after.items.map (fun item => (item.id, item.nodeRun)) =
      before.items.map (fun item => (item.id, item.nodeRun)) := by
  obtain ⟨guard, write, isUpdate, keeps, _⟩ := updated
  rw [isUpdate]
  exact Table.update_keys fun item => by rw [(keeps item).1, (keeps item).2]

end LiveUpdate

/-- A worker's statement adds no work item, takes none away and cancels none. -/
theorem workerStatement_update {isCode : Nat → Bool} {system next : WorkSystem} {action : WorkAction}
    (worker : workerStatement action = true) (acted : system.act isCode action = some next) :
    LiveUpdate system.tables next.tables := by
  cases action with
  | enqueue id nodeRun availableAt => simp [workerStatement] at worker
  | completeWork claim retry => simp [workerStatement] at worker
  | reap nodeRuns => simp [workerStatement] at worker
  | endRun nodeRuns => simp [workerStatement] at worker
  | cancelRun => simp [workerStatement] at worker
  | claim id name claimCode now lease =>
      obtain ⟨tables, done, rfl⟩ := Option.map_eq_some_iff.mp acted
      exact .of_update? done (fun _ => ⟨rfl, rfl⟩) (fun _ _ => rfl)
  | reclaimExpired now =>
      rw [← Option.some.inj acted]
      exact ⟨_, _, rfl, fun _ => ⟨rfl, rfl⟩, fun _ _ => rfl⟩
  | extendLease claim now lease =>
      obtain ⟨tables, done, rfl⟩ := Option.map_eq_some_iff.mp acted
      exact .of_update? done (fun _ => ⟨rfl, rfl⟩) (fun _ leased => WorkItem.leasedBy_live leased)
  | deferWork claim availableAt =>
      obtain ⟨tables, done, rfl⟩ := Option.map_eq_some_iff.mp acted
      exact .of_update? done (fun _ => ⟨rfl, rfl⟩) (fun _ _ => rfl)
  | startAsyncWait claim deadline =>
      obtain ⟨tables, done, rfl⟩ := Option.map_eq_some_iff.mp acted
      obtain ⟨parked, released, onward⟩ := Option.bind_eq_some_iff.mp done
      obtain ⟨nodeRun, _, final⟩ := Option.bind_eq_some_iff.mp onward
      refine (LiveUpdate.of_update? released (fun _ => ⟨rfl, rfl⟩) (fun _ _ => rfl)).congr ?_
      split at final
      · rw [← Option.some.inj final]
      · split at final
        · contradiction
        · rw [← Option.some.inj final]
  | startDurableWait claim timer fireAt =>
      obtain ⟨tables, done, rfl⟩ := Option.map_eq_some_iff.mp acted
      obtain ⟨parked, released, onward⟩ := Option.bind_eq_some_iff.mp done
      obtain ⟨nodeRun, _, final⟩ := Option.bind_eq_some_iff.mp onward
      refine (LiveUpdate.of_update? released (fun _ => ⟨rfl, rfl⟩) (fun _ _ => rfl)).congr ?_
      split at final <;> rw [← Option.some.inj final]
  | startDurableSignalWait claim subscription eventName =>
      obtain ⟨tables, done, rfl⟩ := Option.map_eq_some_iff.mp acted
      obtain ⟨parked, released, onward⟩ := Option.bind_eq_some_iff.mp done
      obtain ⟨nodeRun, _, final⟩ := Option.bind_eq_some_iff.mp onward
      refine (LiveUpdate.of_update? released (fun _ => ⟨rfl, rfl⟩) (fun _ _ => rfl)).congr ?_
      split at final <;> rw [← Option.some.inj final]
  | resumeWaitingWork claim now lease =>
      obtain ⟨tables, done, rfl⟩ := Option.map_eq_some_iff.mp acted
      exact .of_update? done (fun _ => ⟨rfl, rfl⟩) (fun _ _ => rfl)
  | reparkResumedWork claim =>
      obtain ⟨tables, done, rfl⟩ := Option.map_eq_some_iff.mp acted
      exact .of_update? done (fun _ => ⟨rfl, rfl⟩) (fun _ _ => rfl)
  | fireSubscription id now =>
      obtain ⟨tables, done, rfl⟩ := Option.map_eq_some_iff.mp acted
      unfold WorkTables.fireSubscription at done
      split at done
      · contradiction
      · rw [← Option.some.inj done]
        exact ⟨_, _, rfl, fun _ => ⟨rfl, rfl⟩, fun _ _ => rfl⟩
  | claimTimer id owner now =>
      rw [← Option.some.inj acted]
      exact .same rfl
  | fireTimer id owner now =>
      obtain ⟨tables, done, rfl⟩ := Option.map_eq_some_iff.mp acted
      unfold WorkTables.fireTimer at done
      split at done
      · contradiction
      · rename_i timer _
        rw [← Option.some.inj done]
        cases timer.wakes with
        | true => exact ⟨_, _, rfl, fun _ => ⟨rfl, rfl⟩, fun _ _ => rfl⟩
        | false => exact .same rfl
  | rearmDeadline id nodeRun fireAt =>
      obtain ⟨tables, done, rfl⟩ := Option.map_eq_some_iff.mp acted
      unfold WorkTables.rearmDeadline at done
      split at done
      · contradiction
      · rw [← Option.some.inj done]
        exact .same rfl
  | cancelTimer id =>
      rw [← Option.some.inj acted]
      exact .same rfl
  | parkFrozen =>
      simp only [WorkSystem.act] at acted
      split at acted
      · contradiction
      · rw [← Option.some.inj acted]
        exact ⟨_, _, rfl, fun _ => ⟨rfl, rfl⟩, fun _ _ => rfl⟩

namespace Keyed

variable {wf : Workflow} {db : RunDb}

theorem markNodeRun (keyed : Keyed wf db) {id : Nat} {expected : NodeRunState → Bool}
    {state : NodeRunState} (wakes : state.waits = false) :
    Keyed wf (db.markNodeRun id expected state) := by
  refine (keyed.updateNodeRuns (fun run => run.id = id && expected run.state)
    (fun run => { run with state := state }) (fun _ => rfl) (fun _ => wakes)).setJournal
      fun entry member => ?_
  rcases List.mem_append.mp member with new | old
  · obtain ⟨run, kept, rfl⟩ := List.mem_map.mp new
    exact keyed.runsOld run (List.mem_of_mem_filter kept)
  · exact keyed.journalOld entry old

theorem markFor (keyed : Keyed wf db) (action : WorkAction) (owner : Nat) :
    Keyed wf (db.markFor action owner) := by
  unfold RunDb.markFor
  split
  · exact keyed.markNodeRun rfl
  · exact keyed.markNodeRun rfl
  · exact keyed.markNodeRun rfl
  · exact keyed.markNodeRun rfl
  · exact keyed.markNodeRun rfl
  · exact keyed

theorem freeze (keyed : Keyed wf db) (action : WorkAction) : Keyed wf (db.freeze action) := by
  unfold RunDb.freeze
  split
  · exact { keyed with }
  · exact keyed

end Keyed

theorem RunDb.workStatement_eq_some {wf : Workflow} {db next : RunDb} {action : WorkAction}
    (acted : db.workStatement wf action = some next) :
    ∃ (isCode : Nat → Bool) (after : WorkSystem), workerStatement action = true ∧
      (WorkSystem.mk db.work db.state.terminal).act isCode action = some after ∧
      ((action.guard?.bind fun claim => db.work.nodeRunOf claim.work) = none ∧
          next = RunDb.freeze { db with work := after.tables } action ∨
        ∃ owner, (action.guard?.bind fun claim => db.work.nodeRunOf claim.work) = some owner ∧
          next = (RunDb.markFor { db with work := after.tables } action owner).freeze action) := by
  unfold RunDb.workStatement at acted
  split at acted
  · contradiction
  · rename_i worker
    rw [Bool.not_eq_true, Bool.not_eq_false'] at worker
    dsimp only at acted
    split at acted
    · contradiction
    · rename_i after performed
      refine ⟨_, after, worker, performed, ?_⟩
      rw [← Option.some.inj acted]
      cases owner : action.guard?.bind fun claim => db.work.nodeRunOf claim.work with
      | none => exact Or.inl ⟨rfl, rfl⟩
      | some id => exact Or.inr ⟨id, rfl, rfl⟩

namespace Keyed

variable {wf : Workflow} {db next : RunDb}

theorem workStatement (keyed : Keyed wf db) {action : WorkAction}
    (acted : db.workStatement wf action = some next) : Keyed wf next := by
  obtain ⟨isCode, after, worker, performed, cases_⟩ := RunDb.workStatement_eq_some acted
  have moved := keyed.setWork after.tables (workerStatement_update worker performed).keys
  rcases cases_ with ⟨_, rfl⟩ | ⟨owner, _, rfl⟩
  · exact moved.freeze action
  · exact (moved.markFor action owner).freeze action

theorem cancelRunGuarded (keyed : Keyed wf db) {parkedAt detail : String}
    (cancelled : db.cancelRunGuarded parkedAt detail = some next) : Keyed wf next := by
  rw [← RunDb.cancelRunGuarded_eq_some cancelled]
  have runs := keyed.updateNodeRuns (fun run =>
      ((db.nodeRuns.filter fun run => !run.state.terminal).map NodeRun.id).contains run.id)
    (fun run => { run with state := .cancelled }) (fun _ => rfl) (fun _ => rfl)
  have work := runs.setWork db.work.cancelAll (Table.update_keys fun _ => rfl)
  have noted := work.setJournal
    (keyed.cancelled_old (keyed.filtered_old fun run => !run.state.terminal))
  have consumed := noted.setTokens
    (Table.update db.tokens (·.active) fun token => { token with active := false })
    (Table.update_keys fun _ => rfl)
  exact Keyed.retireEventRoutes { consumed with }

end Keyed
def Hand.Lies (db : RunDb) : Hand → Prop
  | .carrying place _ => Forest.Valid db.groupTree place
  | .parting place _ => Forest.Valid db.groupTree place
  | .spreading group _ => Forest.Valid db.groupTree (some group)
  | .settling group => Forest.Valid db.groupTree (some group)
  | .idle => True
  | .ending => True

/-- The rows are keyed and the hand lies among them; a run that has ended leaves the hand empty. -/
structure Standing (wf : Workflow) (here : Hand × RunDb) : Prop where
  keyed : Keyed wf here.2
  lies : here.1.Lies here.2
  busy : here.1 ≠ .idle → here.2.state.terminal = false

section

variable {wf : Workflow} {strict calm : Prop} {db : RunDb}

theorem tokenGroup?_valid {group : Nat} {row : TokenGroup} (found : db.tokenGroup? group = some row) :
    (group, row.parent) ∈ db.groupTree := by
  have sameID : row.id = group := by simpa using List.find?_some found
  exact sameID ▸ List.mem_map_of_mem (List.mem_of_find?_eq_some found)

theorem Keyed.outerPlace_valid (keyed : Keyed wf db) {token : Token} (member : token ∈ db.tokens)
    (node : Node) : Forest.Valid db.groupTree (db.outerPlace node token) := by
  unfold RunDb.outerPlace
  split
  · cases inGroup : token.group with
    | none => exact fun key isKey => by simp at isKey
    | some group =>
        cases found : db.tokenGroup? group with
        | none => exact fun key isKey => by simp [found] at isKey
        | some row =>
            have valid := keyed.grown.parent_valid (tokenGroup?_valid found)
            simpa [found] using valid
  · exact keyed.grouped token member

theorem Keyed.outerPlace_join (keyed : Keyed wf db) {token : Token} {node : Node} {group : Nat}
    (member : token ∈ db.tokens) (inGroup : token.group = some group) (isJoin : node.kind = .join) :
    ∃ row, db.tokenGroup? group = some row ∧ db.outerPlace node token = row.parent := by
  obtain ⟨pair, pairMember, sameKey⟩ := List.mem_map.mp (keyed.grouped token member group inGroup)
  obtain ⟨row, rowMember, rfl⟩ := List.mem_map.mp pairMember
  have some : (db.tokenGroup? group).isSome = true :=
    List.find?_isSome.mpr ⟨row, rowMember, decide_eq_true sameKey⟩
  obtain ⟨found, isFound⟩ := Option.isSome_iff_exists.mp some
  refine ⟨found, isFound, ?_⟩
  rw [RunDb.outerPlace, if_pos isJoin, inGroup]
  simp [isFound]

theorem Takes.lies {own : NodeRun} {outcome : String} {hand : Hand} (keyed : Keyed wf db)
    (takes : Takes wf db own outcome hand) : hand.Lies db := by
  cases takes with
  | ending => trivial
  | carrying found _ _ _ _ _ _ =>
      exact keyed.outerPlace_valid (List.mem_of_find?_eq_some found) _
  | parting found _ _ _ _ _ _ => exact keyed.grouped _ (List.mem_of_find?_eq_some found)

theorem Hand.Lies.congr (hand : Hand) {next : RunDb} (lies : hand.Lies db)
    (same : next.tokenGroups = db.tokenGroups) : hand.Lies next := by
  have sameTree : next.groupTree = db.groupTree := by rw [RunDb.groupTree, same]; rfl
  cases hand <;> simp only [Hand.Lies, sameTree] at lies ⊢ <;> exact lies

theorem Turn.standing {here there : Hand × RunDb} (turn : Turn wf strict calm here there)
    (standing : Standing wf here) : Standing wf there := by
  obtain ⟨keyed, lies, busy⟩ := standing
  cases turn with
  | note tasks attempts => exact ⟨{ keyed with }, trivial, fun held => absurd rfl held⟩
  | work acted => exact ⟨keyed.workStatement acted, trivial, fun held => absurd rfl held⟩
  | hold completed _ =>
      obtain ⟨_, rfl⟩ := Store.updateItems?_eq_some completed
      exact ⟨keyed.setWork _ (Table.update_keys fun _ => rfl), trivial, fun held => absurd rfl held⟩
  | retry availableAt member _ _ _ =>
      have known := keyed.runsOld _ member
      exact ⟨(keyed.enqueueWork availableAt known).updateNodeRun (Nat.lt_succ_of_lt known) rfl, trivial,
        fun held => absurd rfl held⟩
  | pickUp event now _ _ _ found _ _ =>
      exact ⟨keyed.startNode none (some event) now (wf.node?_declared found)
        (fun key isKey => by simp at isKey), trivial, fun held => absurd rfl held⟩
  | cancel cancelled => exact ⟨keyed.cancelRunGuarded cancelled, trivial, fun held => absurd rfl held⟩
  | finish recorded member _ running terminal _ takes =>
      exact ⟨keyed.finishNodeRun recorded (keyed.runsOld _ member) terminal,
        Hand.Lies.congr _ (takes.lies keyed) rfl, fun _ => running⟩
  | put parent now found _ _ =>
      exact ⟨keyed.startNode parent none now (wf.node?_declared found) lies, trivial,
        fun held => absurd rfl held⟩
  | reachEnd parent found _ =>
      exact ⟨keyed.reachEnd parent (wf.node?_declared found) lies, trivial, fun _ => busy Hand.noConfusion⟩
  | arrive token fromNode outcome output found isJoin =>
      refine ⟨keyed.gather fromNode outcome output (isJoin ▸ wf.node?_declared found) lies, ?_, fun _ => ?_⟩
      · exact Hand.Lies.congr (.settling _) lies RunDb.gather_tokenGroups
      · rw [RunDb.gather_state]
        exact busy Hand.noConfusion
  | split nodeRun =>
      refine ⟨keyed.insertTokenGroup lies, fun key isKey => ?_, fun _ => busy Hand.noConfusion⟩
      rw [← Option.some.inj isKey]
      exact List.mem_cons_self
  | putBranch parent now found _ =>
      refine ⟨keyed.startNode parent none now (wf.node?_declared found) lies, ?_, fun _ => ?_⟩
      · exact Hand.Lies.congr (.spreading _ _) lies (by simp)
      · simpa using busy Hand.noConfusion
  | @arriveBranch db group edge rest join parent fromNode outcome output found isJoin =>
      have placed : Keyed wf ((db.insertToken join.id parent (some group) none).consumeToken db.nextID) :=
        (keyed.insertToken lies).consumeToken _
      refine ⟨placed.gather fromNode outcome output (isJoin ▸ wf.node?_declared found) lies, ?_, fun _ => ?_⟩
      · exact Hand.Lies.congr (.spreading _ _) lies RunDb.gather_tokenGroups
      · rw [RunDb.gather_state]
        exact busy Hand.noConfusion
  | spread => exact ⟨keyed, lies, fun _ => busy Hand.noConfusion⟩
  | fire now found _ known _ =>
      refine ⟨keyed.fireBarrier _ now known (keyed.groupsOld _ (lies _ rfl)), ?_, fun _ => ?_⟩
      · exact Hand.Lies.congr (.settling _) lies (by simp)
      · simpa using busy Hand.noConfusion
  | settled _ => exact ⟨keyed, trivial, fun held => absurd rfl held⟩
  | abandon held => exact ⟨keyed, trivial, fun _ => busy held⟩
  | refinish recorded terminal known _ =>
      obtain ⟨run, member, stands⟩ := known
      have old := keyed.runsOld run member
      rw [show run.id = _ from congrArg Prod.fst stands] at old
      exact ⟨keyed.finishNodeRun recorded old terminal, trivial, fun _ => busy Hand.noConfusion⟩
  | reap keep _ => exact ⟨keyed.reapRunState keep, trivial, fun _ => busy Hand.noConfusion⟩
  | retire => exact ⟨keyed.retireEventRoutes, trivial, fun _ => busy Hand.noConfusion⟩
  | conclude output ending _ _ _ =>
      exact ⟨keyed.updateRunState _ output ending, trivial, fun held => absurd rfl held⟩

theorem Turns.standing {here there : Hand × RunDb} (turns : Turns wf strict calm here there)
    (standing : Standing wf here) : Standing wf there := by
  induction turns with
  | refl => exact standing
  | tail _ turn ih => exact turn.standing ih

end

end CultureNodes.Engine
