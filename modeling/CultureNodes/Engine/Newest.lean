import CultureNodes.Engine.Refine

/-!
The newest run of a node. Node runs are only ever added at the end, under ids that nothing had before, and what
is written to one keeps its id and its node; so the newest run of a node is the last of its rows.
-/

namespace CultureNodes.Engine

namespace RunDb

variable (db : RunDb) (node : String)

/-- The runs of a node, oldest first. -/
def rowsOf : List NodeRun := db.nodeRuns.filter (·.node = node)

def newest : Option (Nat × NodeRunState) := (db.rowsOf node).getLast?.map fun run => (run.id, run.state)

def At (id : Nat) : Prop := ∃ run ∈ db.nodeRuns, run.id = id ∧ run.node = node

variable {db node} {next : RunDb}

theorem newest_congr (same : next.nodeRuns = db.nodeRuns) : next.newest node = db.newest node := by
  rw [newest, newest, rowsOf, rowsOf, same]

theorem newest_concat {run : NodeRun} (added : next.nodeRuns = db.nodeRuns ++ [run]) :
    next.newest node = if run.node = node then some (run.id, run.state) else db.newest node := by
  rw [newest, newest, rowsOf, rowsOf, added, List.filter_append]
  by_cases here : run.node = node
  · simp [here]
  · simp [here]

theorem newest_update {hits : Nat → NodeRunState → Bool} {write : NodeRun → NodeRun} {state : NodeRunState}
    (same : next.nodeRuns = Table.update db.nodeRuns (fun run => hits run.id run.state) write)
    (keeps : ∀ run, (write run).id = run.id ∧ (write run).node = run.node ∧ (write run).state = state) :
    next.newest node = (db.newest node).map fun row => if hits row.1 row.2 then (row.1, state) else row := by
  have rows : next.rowsOf node =
      (db.rowsOf node).map fun run => if hits run.id run.state then write run else run := by
    rw [rowsOf, rowsOf, same, Table.update, List.filter_map]
    congr 1
    apply List.filter_congr
    intro run _
    simp only [Function.comp_apply]
    split
    · rw [(keeps run).2.1]
    · rfl
  rw [newest, newest, rows, List.getLast?_map, Option.map_map, Option.map_map]
  congr 1
  funext run
  simp only [Function.comp_apply]
  split
  · rw [(keeps run).1, (keeps run).2.2]
  · rfl

theorem mem_of_newest {id : Nat} {state : NodeRunState} (found : db.newest node = some (id, state)) :
    ∃ run ∈ db.nodeRuns, run.id = id ∧ run.state = state ∧ run.node = node := by
  obtain ⟨run, last, same⟩ := Option.map_eq_some_iff.mp found
  have held := List.mem_filter.mp (List.mem_of_getLast? last)
  rw [Prod.mk.injEq] at same
  exact ⟨run, held.1, same.1, same.2, by simpa using held.2⟩

end RunDb

/-- The entries that a series of writes has added to the journal. -/
def news (before after : RunDb) : List Entry :=
  after.journal.take (after.journal.length - before.journal.length)

theorem news_of_append {before after : RunDb} {added : List Entry}
    (journal : after.journal = added ++ before.journal) : news before after = added := by
  have length : after.journal.length - before.journal.length = added.length := by
    rw [journal, List.length_append]
    omega
  rw [news, length, journal, List.take_left]

namespace RunDb

variable {db next : RunDb} {node : String}

theorem newest_or_wrote {hits : Nat → NodeRunState → Bool} {write : NodeRun → NodeRun} {state : NodeRunState}
    {added : List Entry} (same : next.nodeRuns = Table.update db.nodeRuns (fun run => hits run.id run.state) write)
    (keeps : ∀ run, (write run).id = run.id ∧ (write run).node = run.node ∧ (write run).state = state)
    (journal : next.journal = added ++ db.journal)
    (recorded : ∀ run ∈ db.nodeRuns, hits run.id run.state = true → .wrote run.id state ∈ added) :
    next.newest node = db.newest node ∨
      ∃ id, next.newest node = some (id, state) ∧ .wrote id state ∈ news db next := by
  have after := @newest_update db node next hits write state same keeps
  cases found : db.newest node with
  | none => exact Or.inl (by rw [after, found, Option.map_none])
  | some row =>
      rw [found, Option.map_some] at after
      by_cases hit : hits row.1 row.2 = true
      · obtain ⟨run, held, sameID, sameState, -⟩ := mem_of_newest found
        refine Or.inr ⟨row.1, by rw [after, if_pos hit], ?_⟩
        rw [news_of_append journal, ← sameID]
        exact recorded run held (by rw [sameID, sameState, hit])
      · exact Or.inl (by rw [after, if_neg hit])

/-- A worker's statement parks the newest run of a node or resumes it, or leaves it. -/
theorem workStatement_newest {wf : Workflow} {action : Store.WorkAction}
    (performed : db.workStatement wf action = some next) :
    next.newest node = db.newest node ∨ ∃ id state, (state = .waitingExternal ∨ state = .running) ∧
      next.newest node = some (id, state) ∧ .wrote id state ∈ news db next := by
  have frozen : ∀ moved : RunDb, (moved.freeze action).newest node = moved.newest node ∧
      news db (moved.freeze action) = news db moved := by
    intro moved
    unfold freeze
    split
    · exact ⟨newest_congr rfl, rfl⟩
    · exact ⟨rfl, rfl⟩
  have marks : ∀ (owner : Nat) (expected : NodeRunState → Bool) (state : NodeRunState) (work : Store.WorkTables),
      (state = .waitingExternal ∨ state = .running) →
      (RunDb.markNodeRun { db with work := work } owner expected state).newest node = db.newest node ∨
        ∃ id state', (state' = .waitingExternal ∨ state' = .running) ∧
          (RunDb.markNodeRun { db with work := work } owner expected state).newest node = some (id, state') ∧
          .wrote id state' ∈ news db (RunDb.markNodeRun { db with work := work } owner expected state) := by
    intro owner expected state work isParked
    obtain same | ⟨id, found, wrote⟩ := @newest_or_wrote db (RunDb.markNodeRun { db with work := work } owner
      expected state) node (fun id state => id = owner && expected state) _ state _ rfl (fun _ => ⟨rfl, rfl, rfl⟩) rfl
      fun run held hit => List.mem_map.mpr ⟨run, List.mem_filter.mpr ⟨held, hit⟩, rfl⟩
    · exact Or.inl same
    · exact Or.inr ⟨id, state, isParked, found, wrote⟩
  unfold workStatement at performed
  split at performed
  · contradiction
  · dsimp only at performed
    split at performed
    · contradiction
    · rename_i system _
      rw [← Option.some.inj performed, (frozen _).1, (frozen _).2]
      split
      · exact Or.inl (newest_congr rfl)
      · unfold markFor
        split
        all_goals first
          | exact marks _ _ _ _ (Or.inl rfl)
          | exact marks _ _ _ _ (Or.inr rfl)
          | exact Or.inl (newest_congr rfl)

end RunDb

/-- Rows and entries are added, and what was there keeps its place. -/
structure Grown (before after : RunDb) : Prop where
  runs : ∃ fresh, after.nodeRuns.map NodeRun.stand = before.nodeRuns.map NodeRun.stand ++ fresh ∧
    (fresh.map Prod.fst).Pairwise (· < ·) ∧ ∀ stand ∈ fresh, before.nextID ≤ stand.1 ∧ stand.1 < after.nextID
  ids : before.nextID ≤ after.nextID
  journal : ∃ added, after.journal = added ++ before.journal

namespace Grown

variable {before middle after db : RunDb}

theorem of_stands {added : List Entry} (same : after.nodeRuns.map NodeRun.stand = before.nodeRuns.map NodeRun.stand)
    (ids : before.nextID ≤ after.nextID) (journal : after.journal = added ++ before.journal) :
    Grown before after :=
  ⟨⟨[], by simp [same], by simp, by simp⟩, ids, added, journal⟩

theorem refl (db : RunDb) : Grown db db := of_stands rfl (Nat.le_refl _) (List.nil_append _).symm

theorem trans (first : Grown before middle) (second : Grown middle after) : Grown before after := by
  obtain ⟨⟨fresh, rows, ordered, bounds⟩, ids, added, journal⟩ := first
  obtain ⟨⟨later, laterRows, laterOrdered, laterBounds⟩, laterIDs, more, laterJournal⟩ := second
  refine ⟨⟨fresh ++ later, ?_, ?_, ?_⟩, Nat.le_trans ids laterIDs, more ++ added, ?_⟩
  · rw [laterRows, rows, List.append_assoc]
  · rw [List.map_append, List.pairwise_append]
    refine ⟨ordered, laterOrdered, fun left leftHeld right rightHeld => ?_⟩
    obtain ⟨early, earlyHeld, rfl⟩ := List.mem_map.mp leftHeld
    obtain ⟨late, lateHeld, rfl⟩ := List.mem_map.mp rightHeld
    exact Nat.lt_of_lt_of_le (bounds early earlyHeld).2 (laterBounds late lateHeld).1
  · intro stand held
    obtain early | late := List.mem_append.mp held
    · exact ⟨(bounds stand early).1, Nat.lt_of_lt_of_le (bounds stand early).2 laterIDs⟩
    · exact ⟨Nat.le_trans ids (laterBounds stand late).1, (laterBounds stand late).2⟩
  · rw [laterJournal, journal, List.append_assoc]

theorem news_eq (grown : Grown before after) : after.journal = news before after ++ before.journal := by
  obtain ⟨added, journal⟩ := grown.journal
  rw [news_of_append journal, journal]

theorem news_trans (first : Grown before middle) (second : Grown middle after) :
    news before after = news middle after ++ news before middle := by
  have whole := (first.trans second).news_eq
  rw [second.news_eq, first.news_eq, ← List.append_assoc] at whole
  exact (List.append_cancel_right whole).symm

theorem congr (rows : after.nodeRuns = before.nodeRuns) (ids : before.nextID ≤ after.nextID)
    (journal : after.journal = before.journal) : Grown before after :=
  of_stands (by rw [rows]) ids (journal.trans (List.nil_append _).symm)

theorem insertToken (node : String) (parent group : Option Nat) (originEvent : Option String) :
    Grown db (db.insertToken node parent group originEvent) :=
  congr rfl (Nat.le_succ _) rfl

theorem consumeToken (id : Nat) : Grown db (db.consumeToken id) :=
  congr rfl (Nat.le_refl _) rfl

theorem insertNodeRun (token : Nat) (node : String) (state : NodeRunState) :
    Grown db (db.insertNodeRun token node state) := by
  refine ⟨⟨[(db.nextID, token, node)], ?_, by simp, ?_⟩, Nat.le_succ _, [.wrote db.nextID state], rfl⟩
  · simp [RunDb.insertNodeRun, NodeRun.stand]
  · intro stand held
    rw [List.mem_singleton.mp held]
    exact ⟨Nat.le_refl _, Nat.lt_succ_self _⟩

theorem update {hits : NodeRun → Bool} {write : NodeRun → NodeRun} {added : List Entry}
    (rows : after.nodeRuns = Table.update before.nodeRuns hits write)
    (stands : ∀ run, (write run).stand = run.stand) (ids : before.nextID ≤ after.nextID)
    (journal : after.journal = added ++ before.journal) : Grown before after :=
  of_stands (by rw [rows]; exact Table.update_keys stands) ids journal

theorem updateNodeRun (id : Nat) (state : NodeRunState) (outcome : String) :
    Grown db (db.updateNodeRun id state outcome) :=
  @update _ _ _ _ [.wrote id state] rfl (fun _ => rfl) (Nat.le_refl _) rfl

theorem enqueueWork (nodeRun availableAt : Nat) : Grown db (db.enqueueWork nodeRun availableAt) :=
  @of_stands _ _ [.enqueued nodeRun] rfl (Nat.le_succ _) rfl

theorem dispatchNode (node : Node) (nodeRun now : Nat) : Grown db (db.dispatchNode node nodeRun now) := by
  unfold RunDb.dispatchNode
  split
  · exact congr rfl (Nat.le_succ _) rfl
  · exact enqueueWork nodeRun now

theorem startNode (node : Node) (parent group : Option Nat) (originEvent : Option String) (now : Nat) :
    Grown db (db.startNode node parent group originEvent now) :=
  ((insertToken node.id parent group originEvent).trans (insertNodeRun _ _ _)).trans (dispatchNode _ _ _)

theorem finishNodeRun (run : NodeRun) (state : NodeRunState) (outcome : String) :
    Grown db (db.finishNodeRun run state outcome) :=
  (updateNodeRun run.id state outcome).trans (consumeToken run.token)

theorem reachEnd (node : Node) (parent group : Option Nat) : Grown db (db.reachEnd node parent group) :=
  (((insertToken node.id parent group none).trans (insertNodeRun _ _ _)).trans (updateNodeRun _ _ _)).trans
    (consumeToken db.nextID)

theorem cancelNodeRuns (lost : List Nat) : Grown db (db.cancelNodeRuns lost) :=
  update rfl (fun _ => rfl) (Nat.le_refl _) rfl

theorem reapRunState (keep : Nat) : Grown db (db.reapRunState keep) :=
  (cancelNodeRuns _).trans (congr rfl (Nat.le_refl _) rfl)

theorem reapGroupBranches (group keep : Nat) : Grown db (db.reapGroupBranches group keep) :=
  (cancelNodeRuns _).trans (congr rfl (Nat.le_refl _) rfl)

theorem joinBarrier (join : Node) (token group : Nat) : Grown db (db.joinBarrier join token group).1 := by
  unfold RunDb.joinBarrier
  split
  · exact refl db
  · exact (insertToken join.id (some token) (some group) none).trans (insertNodeRun _ _ _)

theorem gather (join : Node) (token group : Nat) (fromNode outcome : String) (output : Payload) :
    Grown db (db.gather join token group fromNode outcome output) :=
  (joinBarrier join token group).trans (congr rfl (Nat.le_refl _) rfl)

theorem addEntry (entry : Entry) : Grown db { db with journal := entry :: db.journal } :=
  @of_stands _ _ [entry] rfl (Nat.le_refl _) rfl

theorem fireBarrier (barrier : NodeRun) (group : Nat) (early : Bool) (now : Nat) :
    Grown db (db.fireBarrier barrier group early now) := by
  have claimable : Grown db (db.updateNodeRun barrier.id .ready "") := updateNodeRun _ _ _
  have marked := (claimable.trans (enqueueWork barrier.id now)).trans (addEntry (.fired barrier.id group))
  unfold RunDb.fireBarrier
  cases early
  · exact marked
  · exact marked.trans (reapGroupBranches group barrier.token)

theorem markNodeRun (id : Nat) (expected : NodeRunState → Bool) (state : NodeRunState) :
    Grown db (db.markNodeRun id expected state) :=
  update rfl (fun _ => rfl) (Nat.le_refl _) rfl

theorem cancelRunGuarded {parkedAt detail : String} (cancelled : db.cancelRunGuarded parkedAt detail = some after) :
    Grown db after := by
  rw [← RunDb.cancelRunGuarded_eq_some cancelled]
  exact (cancelNodeRuns _).trans (congr rfl (Nat.le_refl _) rfl)

theorem workStatement {wf : Workflow} {action : Store.WorkAction}
    (performed : db.workStatement wf action = some after) : Grown db after := by
  have marks : ∀ (owner : Nat) (moved : RunDb), Grown moved (moved.markFor action owner) := by
    intro owner moved
    unfold RunDb.markFor
    split
    all_goals first
      | exact markNodeRun _ _ _
      | exact refl _
  have freezes : ∀ moved : RunDb, Grown moved (moved.freeze action) := by
    intro moved
    unfold RunDb.freeze
    split
    · exact congr rfl (Nat.le_refl _) rfl
    · exact refl _
  unfold RunDb.workStatement at performed
  split at performed
  · contradiction
  · dsimp only at performed
    split at performed
    · contradiction
    · rename_i system _
      rw [← Option.some.inj performed]
      have moved : Grown db { db with work := system.tables } := congr rfl (Nat.le_refl _) rfl
      split
      · exact moved.trans (freezes _)
      · exact (moved.trans (marks _ _)).trans (freezes _)

theorem turn {wf : Workflow} {strict calm : Prop} {here there : Hand × RunDb}
    (turn : Turn wf strict calm here there) : Grown here.2 there.2 := by
  cases turn with
  | note tasks attempts => exact congr rfl (Nat.le_refl _) rfl
  | work performed => exact workStatement performed
  | hold => exact congr rfl (Nat.le_refl _) rfl
  | retry => exact (enqueueWork _ _).trans (updateNodeRun _ _ _)
  | pickUp => exact startNode _ _ _ _ _
  | cancel cancelled => exact cancelRunGuarded cancelled
  | finish => exact finishNodeRun _ _ _
  | put => exact startNode _ _ _ _ _
  | reachEnd => exact reachEnd _ _ _
  | arrive => exact gather _ _ _ _ _ _
  | split => exact congr rfl (Nat.le_succ _) rfl
  | putBranch => exact startNode _ _ _ _ _
  | arriveBranch => exact (insertToken _ _ _ _).trans ((consumeToken _).trans (gather _ _ _ _ _ _))
  | spread => exact refl _
  | fire => exact fireBarrier _ _ _ _
  | settled => exact refl _
  | abandon => exact refl _
  | refinish => exact finishNodeRun _ _ _
  | reap => exact reapRunState _
  | retire => exact congr rfl (Nat.le_refl _) rfl
  | conclude => exact congr rfl (Nat.le_refl _) rfl

theorem act {env : Env} {wf : Workflow} {action : Action} (standing : Standing wf (.idle, before))
    (acted : before.act env wf action = some after) : Grown before after := by
  have turns : Turns wf False False (.idle, before) (.idle, after) :=
    act_turns standing False.elim False.elim False.elim acted
  have whole : ∀ there, Turns wf False False (.idle, before) there → Grown before there.2 := by
    intro there series
    induction series with
    | refl => exact refl _
    | tail _ last ih => exact ih.trans (turn last)
  exact whole _ turns

end Grown

/-- Ids are distinct and older than the counter. -/
structure Serial (db : RunDb) : Prop where
  ids : (db.nodeRuns.map NodeRun.id).Nodup
  old : ∀ run ∈ db.nodeRuns, run.id < db.nextID

theorem Keyed.serial {wf : Workflow} {db : RunDb} (keyed : Keyed wf db) : Serial db :=
  ⟨keyed.runIDs, keyed.runsOld⟩

namespace Serial

variable {db next : RunDb} {node : String} {id : Nat} {state : NodeRunState}

theorem ids_eq (db : RunDb) : db.nodeRuns.map NodeRun.id = (db.nodeRuns.map NodeRun.stand).map Prod.fst := by
  rw [List.map_map]
  rfl

theorem grown (serial : Serial db) (grown : Grown db next) : Serial next := by
  obtain ⟨⟨fresh, rows, ordered, bounds⟩, ids, -⟩ := grown
  constructor
  · rw [ids_eq, rows, List.map_append, ← ids_eq, List.nodup_append]
    refine ⟨serial.ids, ordered.imp fun less => Nat.ne_of_lt less, fun left leftHeld right rightHeld => ?_⟩
    obtain ⟨run, held, rfl⟩ := List.mem_map.mp leftHeld
    obtain ⟨stand, standHeld, rfl⟩ := List.mem_map.mp rightHeld
    exact Nat.ne_of_lt (Nat.lt_of_lt_of_le (serial.old run held) (bounds stand standHeld).1)
  · intro run held
    have stands : run.stand ∈ next.nodeRuns.map NodeRun.stand := List.mem_map_of_mem held
    rw [rows, List.mem_append] at stands
    obtain early | late := stands
    · obtain ⟨old, oldHeld, same⟩ := List.mem_map.mp early
      have sameID : old.id = run.id := congrArg Prod.fst same
      exact Nat.lt_of_lt_of_le (sameID ▸ serial.old old oldHeld) ids
    · exact (bounds _ late).2

theorem node_eq (serial : Serial db) {other : String} (at_ : db.At other id)
    (found : db.newest node = some (id, state)) : other = node := by
  obtain ⟨run, held, sameID, rfl⟩ := at_
  obtain ⟨row, rowHeld, rowID, _, rfl⟩ := RunDb.mem_of_newest found
  rw [Table.eq_of_key serial.ids held rowHeld (sameID.trans rowID.symm)]

end Serial

theorem RunDb.At.grown {db next : RunDb} {node : String} {id : Nat} (at_ : db.At node id) (grown : Grown db next) :
    next.At node id := by
  obtain ⟨run, held, sameID, sameNode⟩ := at_
  obtain ⟨⟨fresh, rows, -⟩, -⟩ := grown
  have stands : run.stand ∈ next.nodeRuns.map NodeRun.stand := by
    rw [rows]
    exact List.mem_append_left _ (List.mem_map_of_mem held)
  obtain ⟨later, laterHeld, same⟩ := List.mem_map.mp stands
  exact ⟨later, laterHeld, (congrArg Prod.fst same).trans sameID, (congrArg (fun s => s.2.2) same).trans sameNode⟩

end CultureNodes.Engine
