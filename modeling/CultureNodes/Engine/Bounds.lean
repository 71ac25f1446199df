import CultureNodes.Engine.Firing

/-!
The loop bounds over whole runs. The node runs there are, with those the hand is about to make, stay
within the transition and visit bounds on every turn. The bound on parallel tokens also needs that a
node run that ends gives its token back, and that is what a strict turn adds.
-/

namespace CultureNodes.Engine

/-- The edges a transaction under way still follows. -/
def Hand.edges : Hand → List Edge
  | .carrying _ edge => [edge]
  | .parting _ edges | .spreading _ edges => edges
  | .idle | .settling _ | .ending => []

/-- The nodes of the node runs, in the order they were created. -/
def RunDb.visited (db : RunDb) : List String := db.nodeRuns.map NodeRun.node

/-- The nodes entered so far, and those the hand is about to enter. -/
def planned (here : Hand × RunDb) : List String := here.2.visited ++ here.1.edges.map Edge.target

namespace RunDb

variable {wf : Workflow} {db next : RunDb}

theorem nodeVisits_eq (name : String) : db.nodeVisits name = db.visited.count name := by
  rw [nodeVisits, visited, List.count, List.countP_map]
  refine List.countP_congr fun run _ => ?_
  simp

theorem visited_length : db.visited.length = db.nodeRuns.length := List.length_map _

theorem visited_update {hits : NodeRun → Bool} {write : NodeRun → NodeRun}
    (same : next.nodeRuns = Table.update db.nodeRuns hits write)
    (stands : ∀ run, (write run).node = run.node) : next.visited = db.visited := by
  rw [visited, same, Table.update_keys stands]
  rfl

@[simp] theorem startNode_visited (node : Node) (parent place : Option Nat)
    (originEvent : Option String) (now : Nat) :
    (db.startNode node parent place originEvent now).visited = db.visited ++ [node.id] := by
  rw [visited, startNode_nodeRuns, List.map_append]
  rfl

theorem gather_visited (join : Node) (token group : Nat) (fromNode outcome : String) (output : Payload) :
    (db.gather join token group fromNode outcome output).visited = db.visited ∨
      (db.gather join token group fromNode outcome output).visited = db.visited ++ [join.id] := by
  unfold gather joinBarrier
  cases db.openJoinBarrier join.id group with
  | some barrier => exact Or.inl rfl
  | none => exact Or.inr List.map_append

theorem reachEnd_visited (node : Node) (parent place : Option Nat) :
    (db.reachEnd node parent place).visited = db.visited ++ [node.id] := by
  have entered : (db.reachEnd node parent place).visited =
      ((db.insertToken node.id parent place none).insertNodeRun db.nextID node.id
        (dispatchState node.kind)).visited := visited_update rfl fun _ => rfl
  rw [entered]
  exact List.map_append

@[simp] theorem fireBarrier_visited (barrier : NodeRun) (group : Nat) (early : Bool) (now : Nat) :
    (db.fireBarrier barrier group early now).visited = db.visited := by
  have ready : (db.claimable barrier group now).visited = db.visited := visited_update rfl fun _ => rfl
  rw [fireBarrier_eq]
  cases early with
  | false => exact ready
  | true =>
      have reaped : ((db.claimable barrier group now).reapGroupBranches group barrier.token).visited =
          (db.claimable barrier group now).visited := visited_update rfl fun _ => rfl
      exact reaped.trans ready

theorem workStatement_visited {action : Store.WorkAction}
    (acted : db.workStatement wf action = some next) : next.visited = db.visited := by
  obtain ⟨_, after, _, _, cases_⟩ := workStatement_eq_some acted
  have frozen : ∀ rows : RunDb, (rows.freeze action).visited = rows.visited := by
    intro rows
    unfold freeze
    split <;> rfl
  rcases cases_ with ⟨_, rfl⟩ | ⟨owner, _, rfl⟩
  · exact frozen _
  · rw [frozen]
    unfold markFor
    split <;> first | exact visited_update rfl fun _ => rfl | rfl

theorem cancelRunGuarded_visited {parkedAt detail : String}
    (cancelled : db.cancelRunGuarded parkedAt detail = some next) : next.visited = db.visited := by
  rw [← cancelRunGuarded_eq_some cancelled]
  exact visited_update rfl fun _ => rfl

end RunDb

section

variable {wf : Workflow} {strict calm : Prop} {db : RunDb} {here there : Hand × RunDb}

theorem Takes.within {own : NodeRun} {outcome : String} {hand : Hand}
    (takes : Takes wf db own outcome hand) : hand = .ending ∨
      Within wf.limits db.transitionCount db.nodeVisits hand.edges := by
  cases takes with
  | ending => exact Or.inl rfl
  | carrying _ _ _ _ _ _ within => exact Or.inr within
  | parting _ _ _ _ _ within _ => exact Or.inr within

theorem Turn.planned (turn : Turn wf strict calm here there) :
    (planned there).Sublist (planned here) ∨
      ∃ targets, Within wf.limits here.2.transitionCount here.2.nodeVisits targets ∧
        planned there = here.2.visited ++ targets.map Edge.target := by
  have stays : ∀ {left right : List String}, left = right → left.Sublist right :=
    fun same => same ▸ List.Sublist.refl _
  have put : ∀ {db : RunDb} {place : Option Nat} {edge : Edge} {node : Node},
      wf.node? edge.target = some node →
      db.visited ++ [node.id] = Engine.planned (.carrying place edge, db) := by
    intro db place edge node found
    rw [wf.node?_id found]
    rfl
  cases turn with
  | note tasks attempts => exact Or.inl (List.Sublist.refl _)
  | work acted =>
      refine Or.inl (stays ?_)
      simp only [Engine.planned, RunDb.workStatement_visited acted]
  | hold _ _ => exact Or.inl (List.Sublist.refl _)
  | retry availableAt _ _ _ _ =>
      refine Or.inl (stays ?_)
      exact congrArg (· ++ _) (RunDb.visited_update rfl fun _ => rfl)
  | @pickUp db edge next event now _ _ _ found within _ =>
      refine Or.inr ⟨[edge], within, ?_⟩
      rw [Engine.planned, RunDb.startNode_visited, wf.node?_id found]
      exact List.append_nil _
  | cancel cancelled =>
      refine Or.inl (stays ?_)
      simp only [Engine.planned, RunDb.cancelRunGuarded_visited cancelled]
  | @finish db own state outcome hand recorded _ _ _ _ _ takes =>
      have same : (db.finishNodeRun own state recorded).visited = db.visited :=
        RunDb.visited_update rfl fun _ => rfl
      rcases takes.within with rfl | within
      · refine Or.inl (stays ?_)
        simp only [Engine.planned, same]
        rfl
      · refine Or.inr ⟨hand.edges, within, ?_⟩
        simp only [Engine.planned, same]
  | put parent now found _ _ =>
      refine Or.inl (stays ?_)
      rw [← put found, Engine.planned, RunDb.startNode_visited]
      exact List.append_nil _
  | reachEnd parent found _ =>
      refine Or.inl (stays ?_)
      rw [← put found, Engine.planned, RunDb.reachEnd_visited]
      exact List.append_nil _
  | @arrive db group edge join token fromNode outcome output found _ =>
      refine Or.inl ?_
      rw [← put found, Engine.planned]
      rcases db.gather_visited join token group fromNode outcome output with same | opened
      · rw [same]
        simp [Hand.edges]
      · rw [opened]
        simp [Hand.edges]
  | split nodeRun => exact Or.inl (List.Sublist.refl _)
  | @putBranch db group edge rest next parent now found _ =>
      refine Or.inl (stays ?_)
      simp [Engine.planned, Hand.edges, wf.node?_id found]
  | @arriveBranch db group edge rest join parent fromNode outcome output found _ =>
      refine Or.inl ?_
      have kept : ((db.insertToken join.id parent (some group) none).consumeToken db.nextID).visited =
          db.visited := rfl
      rcases ((db.insertToken join.id parent (some group) none).consumeToken db.nextID).gather_visited
        join db.nextID group fromNode outcome output with same | opened
      · simp only [Engine.planned, same, kept]
        simp [Hand.edges]
      · simp only [Engine.planned, opened, kept]
        simp [Hand.edges, wf.node?_id found]
  | spread => exact Or.inl (List.Sublist.refl _)
  | fire now _ _ _ _ =>
      refine Or.inl (stays ?_)
      simp [Engine.planned]
  | settled _ => exact Or.inl (List.Sublist.refl _)
  | abandon _ =>
      refine Or.inl ?_
      simp [Engine.planned, Hand.edges]
  | refinish recorded _ _ _ =>
      refine Or.inl (stays ?_)
      exact congrArg (· ++ _) (RunDb.visited_update rfl fun _ => rfl)
  | reap keep _ =>
      refine Or.inl (stays ?_)
      exact congrArg (· ++ _) (RunDb.visited_update rfl fun _ => rfl)
  | retire => exact Or.inl (List.Sublist.refl _)
  | conclude output ending _ _ _ => exact Or.inl (List.Sublist.refl _)

/-- The transition and visit bounds, with what the hand still has to enter. -/
structure Charged (wf : Workflow) (here : Hand × RunDb) : Prop where
  entered : here.2.nodeRuns ≠ []
  transitions : 0 < wf.limits.maxTransitions → (planned here).length ≤ wf.limits.maxTransitions + 1
  visits : 0 < wf.limits.maxVisitsPerNode → ∀ name, (planned here).count name ≤ wf.limits.maxVisitsPerNode

theorem Turn.charged (turn : Turn wf strict calm here there) (charged : Charged wf here) :
    Charged wf there := by
  have entered : there.2.nodeRuns ≠ [] := by
    obtain ⟨run, member⟩ := List.exists_mem_of_ne_nil _ charged.entered
    obtain ⟨later, laterMember, _⟩ := turn.extends.runs run member
    exact List.ne_nil_of_mem laterMember
  rcases turn.planned with fewer | ⟨targets, within, more⟩
  · exact ⟨entered, fun isSet => fewer.length_le.trans (charged.transitions isSet),
      fun isSet name => (fewer.count_le name).trans (charged.visits isSet name)⟩
  · refine ⟨entered, fun isSet => ?_, fun isSet name => ?_⟩
    · have room := within.transitions isSet
      have positive : 0 < here.2.nodeRuns.length := List.length_pos_iff.mpr charged.entered
      rw [RunDb.transitionCount] at room
      rw [more, List.length_append, RunDb.visited_length, List.length_map]
      omega
    · rw [more, List.count_append]
      by_cases isTarget : name ∈ targets.map Edge.target
      · rw [← RunDb.nodeVisits_eq]
        exact within.visits isSet name isTarget
      · rw [List.count_eq_zero_of_not_mem isTarget, Nat.add_zero]
        exact ((List.sublist_append_left _ _).count_le name).trans (charged.visits isSet name)

theorem Turns.charged (turns : Turns wf strict calm here there) (charged : Charged wf here) :
    Charged wf there := by
  induction turns with
  | refl => exact charged
  | tail _ turn ih => exact turn.charged ih

theorem Created.charged (created : Created wf db) : Charged wf (.idle, db) := by
  obtain ⟨state, isEntry⟩ := created.entered
  have alone : planned (.idle, db) = [wf.entry] := by
    simp [planned, RunDb.visited, isEntry, Hand.edges]
  refine ⟨by simp [isEntry], fun _ => by simp [alone], fun isSet name => ?_⟩
  rw [alone]
  exact List.count_le_length.trans isSet

end

namespace RunDb

variable {wf : Workflow} {db next : RunDb}

theorem activeTokenCount_append {token : Token} (same : next.tokens = db.tokens ++ [token]) :
    next.activeTokenCount ≤ db.activeTokenCount + 1 := by
  rw [activeTokenCount, same, List.countP_append]
  exact Nat.add_le_add_left List.countP_le_length _

theorem activeTokenCount_update {hits : Token → Bool} (same : next.tokens =
    Table.update db.tokens hits (fun token => { token with active := false })) :
    next.activeTokenCount ≤ db.activeTokenCount := by
  rw [activeTokenCount, same, Table.countP_update]
  refine List.countP_mono_left fun token _ active => ?_
  split at active
  · contradiction
  · exact active

theorem gather_activeTokenCount (join : Node) (token group : Nat) (fromNode outcome : String)
    (output : Payload) : (db.gather join token group fromNode outcome output).activeTokenCount ≤
      db.activeTokenCount + 1 := by
  unfold gather joinBarrier
  cases db.openJoinBarrier join.id group with
  | some barrier => exact Nat.le_succ _
  | none => exact activeTokenCount_append rfl

theorem fireBarrier_activeTokenCount (barrier : NodeRun) (group : Nat) (early : Bool) (now : Nat) :
    (db.fireBarrier barrier group early now).activeTokenCount ≤ db.activeTokenCount := by
  rw [fireBarrier_eq]
  cases early with
  | false => exact Nat.le_refl _
  | true => exact activeTokenCount_update rfl

theorem reachEnd_activeTokenCount (node : Node) (parent place : Option Nat) :
    (db.reachEnd node parent place).activeTokenCount ≤ db.activeTokenCount + 1 := by
  have placed : (db.insertToken node.id parent place none).activeTokenCount ≤ db.activeTokenCount + 1 :=
    activeTokenCount_append rfl
  have consumed : (db.reachEnd node parent place).activeTokenCount ≤
      (db.insertToken node.id parent place none).activeTokenCount := activeTokenCount_update rfl
  exact consumed.trans placed

theorem startNode_activeTokenCount (node : Node) (parent place : Option Nat) (originEvent : Option String)
    (now : Nat) :
    (db.startNode node parent place originEvent now).activeTokenCount ≤ db.activeTokenCount + 1 :=
  activeTokenCount_append startNode_tokens

theorem insertConsumed_activeTokenCount (keyed : Keyed wf db) (node : String)
    (parent group : Option Nat) (originEvent : Option String) :
    ((db.insertToken node parent group originEvent).consumeToken db.nextID).activeTokenCount =
      db.activeTokenCount := by
  rw [activeTokenCount, keyed.insertConsumed_tokens, List.countP_append]
  rfl

theorem cancelRunGuarded_activeTokenCount {parkedAt detail : String}
    (cancelled : db.cancelRunGuarded parkedAt detail = some next) :
    next.activeTokenCount ≤ db.activeTokenCount := by
  rw [← cancelRunGuarded_eq_some cancelled]
  exact activeTokenCount_update rfl

theorem finishNodeRun_activeTokenCount (keyed : Keyed wf db) (linked : Linked db) {own : NodeRun}
    (member : own ∈ db.nodeRuns) (isOpen : own.state.terminal = false) (state : NodeRunState)
    (recorded : String) :
    db.activeTokenCount = (db.finishNodeRun own state recorded).activeTokenCount + 1 := by
  obtain ⟨token, tokenMember, owns, _⟩ := keyed.placed own member
  have active : token.active = true := by
    rw [linked.paired.mirrored own member token tokenMember owns, isOpen]
    rfl
  rw [← activeCount_true, ← activeCount_true]
  exact activeCount_consume keyed tokenMember active (by rw [owns]; rfl)

end RunDb

section

variable {wf : Workflow} {strict calm : Prop} {db : RunDb} {here there : Hand × RunDb}

def Hand.roomy (wf : Workflow) (here : Hand × RunDb) : Prop :=
  0 < wf.limits.maxParallelTokens →
    here.2.activeTokenCount + here.1.edges.length ≤ wf.limits.maxParallelTokens

theorem Takes.roomy {own : NodeRun} {outcome : String} {hand : Hand}
    (takes : Takes wf db own outcome hand) (isSet : 0 < wf.limits.maxParallelTokens)
    (room : db.activeTokenCount ≤ wf.limits.maxParallelTokens) :
    db.activeTokenCount + hand.edges.length ≤ wf.limits.maxParallelTokens + 1 := by
  cases takes with
  | ending => exact Nat.le_succ_of_le room
  | carrying _ _ _ _ _ _ _ => exact Nat.succ_le_succ room
  | parting _ _ _ _ _ _ parallel => exact parallel isSet

/-- Where node runs and tokens are linked, a turn leaves room for what the hand holds. -/
theorem Turn.roomy (turn : Turn wf strict calm here there) (standing : Standing wf here)
    (linked : Linked here.2) (roomy : Hand.roomy wf here) : Hand.roomy wf there := by
  intro isSet
  have room := roomy isSet
  have keyed := standing.keyed
  cases turn with
  | note tasks attempts => exact room
  | work acted =>
      obtain ⟨tokens, _⟩ := workStatement_tokens acted
      simp only [RunDb.activeTokenCount, tokens]
      exact room
  | hold _ _ => exact room
  | retry availableAt _ _ _ _ => exact room
  | @pickUp db edge next event now _ _ _ _ _ parallel =>
      have started := db.startNode_activeTokenCount next none none (some event) now
      exact started.trans (parallel isSet)
  | cancel cancelled =>
      have fewer := RunDb.cancelRunGuarded_activeTokenCount cancelled
      exact (Nat.add_le_add_right fewer _).trans room
  | @finish db own state outcome hand recorded member isOpen _ _ _ takes =>
      have given := RunDb.finishNodeRun_activeTokenCount keyed linked member isOpen state recorded
      have taken := takes.roomy isSet room
      simp only at given taken ⊢
      omega
  | @put db place edge next parent now _ _ _ =>
      exact (db.startNode_activeTokenCount next parent place none now).trans room
  | @reachEnd db place edge next parent _ _ =>
      exact (db.reachEnd_activeTokenCount next parent place).trans room
  | @arrive db group edge join token fromNode outcome output _ _ =>
      exact (db.gather_activeTokenCount join token group fromNode outcome output).trans room
  | split nodeRun => exact room
  | @putBranch db group edge rest next parent now _ _ =>
      have started := db.startNode_activeTokenCount next parent (some group) none now
      simp only [Hand.edges, List.length_cons] at room ⊢
      omega
  | @arriveBranch db group edge rest join parent fromNode outcome output _ _ =>
      have consumed := RunDb.insertConsumed_activeTokenCount keyed join.id parent (some group) none
      have gathered := ((db.insertToken join.id parent (some group) none).consumeToken
        db.nextID).gather_activeTokenCount join db.nextID group fromNode outcome output
      simp only [Hand.edges, List.length_cons] at room consumed ⊢
      omega
  | spread => exact room
  | @fire db group barrier join row now _ _ _ _ =>
      exact (db.fireBarrier_activeTokenCount barrier group _ now).trans room
  | settled _ => exact room
  | abandon _ => exact (Nat.le_add_right _ _).trans room
  | @refinish db own state recorded _ _ _ =>
      have consumed : (db.finishNodeRun own state recorded).activeTokenCount ≤ db.activeTokenCount :=
        RunDb.activeTokenCount_update rfl
      exact consumed.trans room
  | @reap db keep _ =>
      have reaped : (db.reapRunState keep).activeTokenCount = 0 := RunDb.reapRunState_activeTokenCount keep
      exact reaped.trans_le (Nat.zero_le _)
  | retire => exact room
  | conclude output ending _ _ _ => exact room

theorem Turns.roomy (turns : Turns wf strict calm here there) (isStrict : strict)
    (standing : Standing wf here) (linked : Linked here.2) (recorded : Recorded here.2)
    (roomy : Hand.roomy wf here) : Hand.roomy wf there := by
  induction turns with
  | refl => exact roomy
  | tail earlier turn ih =>
      exact turn.roomy (Turns.standing earlier standing)
        (Turns.linked earlier isStrict standing linked recorded).1 ih

theorem Created.roomy (created : Created wf db) : Hand.roomy wf (.idle, db) := by
  intro isSet
  have single : db.activeTokenCount = 1 := by
    rw [RunDb.activeTokenCount, created.tokens]
    rfl
  exact single.trans_le isSet

end

section

variable {env : Env} {wf : Workflow} {allowed : RunDb → Action → Prop} {db : RunDb}

/-- Positive limits are kept in every state of every run; for the tokens this asks that every step's
split fires one barrier at most. -/
theorem limits_kept (transitions : 0 < wf.limits.maxTransitions)
    (visits : 0 < wf.limits.maxVisitsPerNode) (parallel : 0 < wf.limits.maxParallelTokens)
    (reaches : Reaches env wf allowed db) :
    db.nodeRuns.length - 1 ≤ wf.limits.maxTransitions ∧
    (∀ name, db.nodeVisits name ≤ wf.limits.maxVisitsPerNode) ∧
    ((∀ db action, allowed db action → FanOutSafe env wf db action) →
      db.activeTokenCount ≤ wf.limits.maxParallelTokens) := by
  have charged : Charged wf (.idle, db) := by
    obtain ⟨created, initial, turns⟩ := reaches.turns False False False.elim False.elim
    exact Turns.charged turns initial.charged
  have entered : planned (.idle, db) = db.visited := List.append_nil _
  refine ⟨?_, fun name => ?_, fun safe => ?_⟩
  · have within := charged.transitions transitions
    rw [entered, RunDb.visited_length] at within
    omega
  · have within := charged.visits visits name
    rw [entered, ← RunDb.nodeVisits_eq] at within
    exact within
  · obtain ⟨created, initial, turns⟩ := reaches.turns True False (fun _ => safe) False.elim
    exact Turns.roomy turns trivial initial.standing initial.linked initial.recorded initial.roomy
      parallel

end

theorem limits_kept_shortcut : ∃ db, Reaches Env.permissive shortcut anyAction db ∧
    db.nodeRuns.length - 1 ≤ 64 ∧ db.activeTokenCount = 1 ∧ db.activeTokenCount ≤ 2 := by
  have ran : (replay Env.permissive shortcut (fun _ _ => true) (succeed 2 "split")).map
      RunDb.activeTokenCount = some 1 := by decide
  obtain ⟨db, reached, single⟩ := Option.map_eq_some_iff.mp ran
  have reaches : Reaches Env.permissive shortcut anyAction db :=
    Reaches.of_replay (fun _ _ _ => trivial) reached
  have one : shortcut.SingleJoinSplits := by decide
  obtain ⟨transitions, _, tokens⟩ := limits_kept (by decide) (by decide) (by decide) reaches
  exact ⟨db, reaches, transitions, single, tokens fun db action _ => one.fanOutSafe db action⟩

/-- The doors of `twoDoors` lead to one more node, and an event starts a branch of its own. -/
def lateDoor : Compiler.Document where
  entry := "fan"
  nodes :=
    [("after", { kind := .code, contract := some ["built"] }),
     ("done", { kind := .endNode }),
     ("east", { kind := .join, join := some ⟨.any, none⟩ }),
     ("fan", { kind := .parallel }),
     ("note", { kind := .code, contract := some ["built"] }),
     ("west", { kind := .join, join := some ⟨.any, none⟩ })]
  edges :=
    [{ source := "after.built", target := "done" },
     { source := "east.joined", target := "after" },
     { source := "fan.split", target := "east" },
     { source := "fan.split", target := "west" },
     { source := "note.built", target := "done" },
     { source := "west.joined", target := "after" },
     { onEvent := "ping", target := "note" }]
  nodesSorted := by decide

def lateDoorLoaded : Workflow where
  entry := "fan"
  limits := { maxParallelTokens := 2 }
  nodes := [
    { id := "after", kind := .code, outcomes := ["built"] },
    { id := "done", kind := .endNode },
    { id := "east", kind := .join, outcomes := ["joined"], joinPolicy := some .any },
    { id := "fan", kind := .parallel, outcomes := ["split"] },
    { id := "note", kind := .code, outcomes := ["built"] },
    { id := "west", kind := .join, outcomes := ["joined"], joinPolicy := some .any }]
  edges := [
    { source := "after.built", fromNode := "after", fromOutcome := "built", target := "done" },
    { source := "east.joined", fromNode := "east", fromOutcome := "joined", target := "after" },
    { source := "fan.split", fromNode := "fan", fromOutcome := "split", target := "east" },
    { source := "fan.split", fromNode := "fan", fromOutcome := "split", target := "west" },
    { source := "note.built", fromNode := "note", fromOutcome := "built", target := "done" },
    { source := "west.joined", fromNode := "west", fromOutcome := "joined", target := "after" },
    { onEvent := "ping", target := "note" }]

theorem lateDoor_load :
    Workflow.load lateDoor { maxParallelTokens := 2 } (fixedOutcomes lateDoor) = lateDoorLoaded := by
  rw [Workflow.load, normalizeEdges_of_sorted (by decide)]
  decide

/-- The barrier that is fired after it was reaped has no active token, so two events find room, and the
barrier's own continuation is the third. -/
theorem lateDoor_tokens_above_limit : ∃ db, lateDoor.checkParallelJoin = [] ∧
    Reaches Env.permissive
      (Workflow.load lateDoor { maxParallelTokens := 2 } (fixedOutcomes lateDoor)) anyAction db ∧
    db.activeTokenCount = 3 := by
  have ran : (replay Env.permissive lateDoorLoaded (fun _ _ => true)
      (succeed 3 "split" ++ [Action.pickUp 2 ⟨"first", "ping", "", "null"⟩ 0,
        .pickUp 2 ⟨"second", "ping", "", "null"⟩ 0] ++ succeed 12 "joined")).map
      RunDb.activeTokenCount = some 3 := by decide +kernel
  obtain ⟨db, reached, three⟩ := Option.map_eq_some_iff.mp ran
  rw [lateDoor_load]
  exact ⟨db, by decide +kernel, Reaches.of_replay (fun _ _ _ => trivial) reached, three⟩

end CultureNodes.Engine
