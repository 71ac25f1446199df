import CultureNodes.Engine.Firing
import CultureNodes.Engine.Bounds
import CultureNodes.Compiler.SplitDepth

/-!
The compiler's walk and the groups of a run. A token stands in as many groups as splits are open on
a walk to its node, so where the walk finds nothing wrong no token comes to a join outside every
group, and one that comes to an end is outside every group. Without event edges it is then the only
one.
-/

namespace CultureNodes.Engine

/-- How many groups a place lies in. -/
def RunDb.depth (db : RunDb) (place : Option Nat) : Nat := (Forest.chain db.groupTree place).length

/-- Depths at which nodes may be entered: those of the entry and of event targets, and what each edge
makes of the depth of its source. No join is entered outside every group and no end inside one. -/
structure DepthLaw (wf : Workflow) (reach : String → Nat → Prop) : Prop where
  entry : (wf.kind? wf.entry).isSome = true → reach wf.entry 0
  event : ∀ edge ∈ wf.edges, edge.onEvent ≠ "" → (wf.kind? edge.target).isSome = true →
    reach edge.target 0
  hop : ∀ edge ∈ wf.edges, ∀ node, wf.node? edge.fromNode = some node →
    (wf.kind? edge.target).isSome = true → ∀ depth, reach edge.fromNode depth →
    if node.kind = .join then ∀ outer, depth = outer + 1 → reach edge.target outer
    else if splits node edge.fromOutcome = true then reach edge.target (depth + 1)
    else reach edge.target depth
  inside : ∀ name, wf.kind? name = some .join → ¬ reach name 0
  outside : ∀ name, wf.kind? name = some .endNode → ∀ depth, reach name depth → depth = 0

/-- The targets of what the hand holds may be entered where the hand puts them. -/
def Hand.enters (wf : Workflow) (reach : String → Nat → Prop) (db : RunDb) : Hand → Prop
  | .carrying place edge => (wf.kind? edge.target).isSome = true → reach edge.target (db.depth place)
  | .parting place edges => ∀ edge ∈ edges, (wf.kind? edge.target).isSome = true →
      reach edge.target (db.depth place + 1)
  | .spreading group edges => ∀ edge ∈ edges, (wf.kind? edge.target).isSome = true →
      reach edge.target (db.depth (some group))
  | .idle | .settling _ | .ending => True

/-- Every token stands at a depth at which its node may be entered. -/
structure Nested (wf : Workflow) (reach : String → Nat → Prop) (here : Hand × RunDb) : Prop where
  tokens : ∀ token ∈ here.2.tokens, reach token.node (here.2.depth token.group)
  hand : here.1.enters wf reach here.2

section

variable {wf : Workflow} {reach : String → Nat → Prop} {strict calm : Prop} {db next : RunDb}
  {hand after : Hand} {here there : Hand × RunDb}

theorem RunDb.depth_congr (same : next.tokenGroups = db.tokenGroups) (place : Option Nat) :
    next.depth place = db.depth place := by
  rw [depth, groupTree, same]
  rfl

theorem Hand.enters_congr (same : next.tokenGroups = db.tokenGroups)
    (enters : hand.enters wf reach db) : hand.enters wf reach next := by
  cases hand <;> simp only [Hand.enters, RunDb.depth_congr same] at enters ⊢ <;> exact enters

theorem Nested.step (nested : Nested wf reach (hand, db)) (same : next.tokenGroups = db.tokenGroups)
    (tokens : ∀ token ∈ next.tokens, (∃ old ∈ db.tokens, old.stand = token.stand) ∨
      reach token.node (db.depth token.group))
    (enters : after.enters wf reach db) : Nested wf reach (after, next) := by
  refine ⟨fun token member => ?_, Hand.enters_congr same enters⟩
  show reach token.node (next.depth token.group)
  rw [RunDb.depth_congr same]
  rcases tokens token member with ⟨old, oldMember, stands⟩ | placed
  · have sameNode : old.node = token.node := congrArg (fun s => s.2.1) stands
    have sameGroup : old.group = token.group := congrArg (fun s => s.2.2) stands
    exact sameNode ▸ sameGroup ▸ nested.tokens old oldMember
  · exact placed

theorem Nested.rewrite (nested : Nested wf reach (hand, db)) (same : next.tokenGroups = db.tokenGroups)
    (stands : next.tokens.map Token.stand = db.tokens.map Token.stand)
    (enters : after.enters wf reach db) : Nested wf reach (after, next) :=
  nested.step same (fun _ member => Or.inl (Table.exists_of_keys_eq stands member)) enters

theorem Nested.add (nested : Nested wf reach (hand, db)) (token : Token)
    (same : next.tokenGroups = db.tokenGroups) (stands : next.tokens.map Token.stand =
      (db.tokens ++ [token]).map Token.stand) (placed : reach token.node (db.depth token.group))
    (enters : after.enters wf reach db) : Nested wf reach (after, next) := by
  refine nested.step same (fun other member => ?_) enters
  obtain ⟨old, oldMember, sameStand⟩ := Table.exists_of_keys_eq stands member
  rcases List.mem_append.mp oldMember with older | newest
  · exact Or.inl ⟨old, older, sameStand⟩
  · have sameNode : old.node = other.node := congrArg (fun s => s.2.1) sameStand
    have sameGroup : old.group = other.group := congrArg (fun s => s.2.2) sameStand
    rw [List.mem_singleton.mp newest] at sameNode sameGroup
    exact Or.inr (sameNode ▸ sameGroup ▸ placed)

theorem Takes.enters {own : NodeRun} {outcome : String} (law : DepthLaw wf reach) (keyed : Keyed wf db)
    (nested : Nested wf reach (.idle, db)) (member : own ∈ db.nodeRuns)
    (takes : Takes wf db own outcome hand) : hand.enters wf reach db := by
  have stood : ∀ token, db.token? own.token = some token → token ∈ db.tokens ∧
      reach own.node (db.depth token.group) := by
    intro token found
    obtain ⟨mate, mateMember, mateOwns, sameNode⟩ := keyed.placed own member
    have isMate := Option.some.inj ((keyed.token?_eq mateMember).symm.trans (mateOwns ▸ found))
    subst isMate
    exact ⟨mateMember, sameNode ▸ nested.tokens mate mateMember⟩
  cases takes with
  | ending => trivial
  | @carrying token node edge found isNode notSplit edgeMember fromNode fromOutcome _ =>
      intro declared
      obtain ⟨tokenMember, reached⟩ := stood token found
      have hops := law.hop edge edgeMember node (fromNode ▸ isNode) declared _ (fromNode ▸ reached)
      by_cases isJoin : node.kind = .join
      · rw [if_pos isJoin] at hops
        have kind : wf.kind? own.node = some .join := isJoin ▸ wf.kind?_of_node? isNode
        cases inGroup : token.group with
        | none =>
            rw [inGroup, RunDb.depth, Forest.chain_none] at reached
            exact absurd reached (law.inside own.node kind)
        | some group =>
            obtain ⟨row, isRow, outer⟩ := keyed.outerPlace_join tokenMember inGroup isJoin
            rw [outer]
            refine hops _ ?_
            rw [RunDb.depth, inGroup, Forest.chain_unfold keyed.grown (tokenGroup?_valid isRow)]
            rfl
      · rw [if_neg isJoin, fromOutcome, notSplit, if_neg Bool.false_ne_true] at hops
        rw [RunDb.outerPlace, if_neg isJoin]
        exact hops
  | @parting token node edges found isNode isSplit _ followed _ _ =>
      intro edge edgeMember declared
      obtain ⟨inWorkflow, fromNode, fromOutcome⟩ := followed edge edgeMember
      obtain ⟨_, reached⟩ := stood token found
      have hops := law.hop edge inWorkflow node (fromNode ▸ isNode) declared _ (fromNode ▸ reached)
      have notJoin : node.kind ≠ .join := by
        intro isJoin
        simp [splits, isJoin] at isSplit
      rw [if_neg notJoin, fromOutcome, if_pos isSplit] at hops
      exact hops

theorem Nested.startNode {node : Node} {name : String} {place : Option Nat}
    (nested : Nested wf reach (hand, db)) (parent : Option Nat) (originEvent : Option String) (now : Nat)
    (found : wf.node? name = some node) (placed : reach name (db.depth place))
    (enters : after.enters wf reach db) :
    Nested wf reach (after, db.startNode node parent place originEvent now) := by
  refine nested.add _ RunDb.startNode_tokenGroups (congrArg _ RunDb.startNode_tokens) ?_ enters
  rw [wf.node?_id found]
  exact placed

/-- The barrier that an arrival opens stands in the group of the branch. -/
theorem Nested.gather {join : Node} {name : String} {token group : Nat} {fromNode outcome : String}
    {output : Payload} (nested : Nested wf reach (hand, db)) (found : wf.node? name = some join)
    (placed : reach name (db.depth (some group))) (enters : after.enters wf reach db) :
    Nested wf reach (after, db.gather join token group fromNode outcome output) := by
  unfold RunDb.gather RunDb.joinBarrier
  cases db.openJoinBarrier join.id group with
  | some barrier => exact nested.rewrite rfl rfl enters
  | none =>
      refine nested.add (⟨db.nextID, join.id, true, some token, some group, none⟩) rfl rfl ?_
        enters
      rw [wf.node?_id found]
      exact placed

/-- One turn keeps every token at a depth its node is entered at. -/
theorem Turn.nested (law : DepthLaw wf reach) (turn : Turn wf strict calm here there)
    (standing : Standing wf here) (nested : Nested wf reach here) : Nested wf reach there := by
  have keyed := standing.keyed
  have declared : ∀ {name : String} {node : Node}, wf.node? name = some node →
      (wf.kind? name).isSome = true := by
    intro name node found
    rw [wf.kind?_of_node? found]
    rfl
  cases turn with
  | note tasks attempts => exact nested.rewrite rfl rfl trivial
  | work acted =>
      obtain ⟨tokens, groups, _⟩ := workStatement_tokens acted
      exact nested.rewrite groups (congrArg _ tokens) trivial
  | hold _ _ => exact nested.rewrite rfl rfl trivial
  | retry availableAt _ _ _ _ => exact nested.rewrite rfl rfl trivial
  | pickUp event now _ member named found _ _ =>
      refine nested.startNode none (some event) now found ?_ trivial
      rw [RunDb.depth, Forest.chain_none]
      exact law.event _ member named (declared found)
  | @cancel db next parkedAt detail cancelled =>
      rw [← RunDb.cancelRunGuarded_eq_some cancelled]
      exact nested.rewrite rfl (Table.update_keys fun _ => rfl) trivial
  | finish recorded member _ _ _ _ takes =>
      exact nested.rewrite rfl (Table.update_keys fun _ => rfl) (takes.enters law keyed nested member)
  | put parent now found _ _ =>
      exact nested.startNode parent none now found (nested.hand (declared found)) trivial
  | @reachEnd db place edge next parent found _ =>
      refine nested.add (⟨db.nextID, next.id, true, parent, place, none⟩) rfl
        (Table.update_keys fun _ => rfl) ?_ trivial
      rw [wf.node?_id found]
      exact nested.hand (declared found)
  | arrive token fromNode outcome output found _ =>
      exact nested.gather found (nested.hand (declared found)) trivial
  | @split db place edges nodeRun =>
      have fresh := keyed.group_fresh
      refine ⟨fun token member => ?_, fun edge member isDeclared => ?_⟩
      · have deep : (db.insertTokenGroup nodeRun place edges.length).depth token.group =
            db.depth token.group :=
          congrArg List.length (Forest.chain_cons_of_valid fresh (keyed.grouped token member))
        show reach token.node ((db.insertTokenGroup nodeRun place edges.length).depth token.group)
        rw [deep]
        exact nested.tokens token member
      · have deeper : (db.insertTokenGroup nodeRun place edges.length).depth (some db.nextID) =
            db.depth place + 1 := congrArg List.length Forest.chain_cons_self
        rw [deeper]
        exact nested.hand edge member isDeclared
  | putBranch parent now found _ =>
      refine nested.startNode parent none now found
        (nested.hand _ List.mem_cons_self (declared found)) ?_
      exact fun edge member => nested.hand edge (List.mem_cons_of_mem _ member)
  | @arriveBranch db group edge rest join parent fromNode outcome output found _ =>
      have entered : reach edge.target (db.depth (some group)) :=
        nested.hand edge List.mem_cons_self (declared found)
      have placed : Nested wf reach (.spreading group (edge :: rest),
          (db.insertToken join.id parent (some group) none).consumeToken db.nextID) := by
        refine nested.add (⟨db.nextID, join.id, true, parent, some group, none⟩) rfl
          (Table.update_keys fun _ => rfl) ?_ nested.hand
        rw [wf.node?_id found]
        exact entered
      refine placed.gather found entered ?_
      exact fun edge member => nested.hand edge (List.mem_cons_of_mem _ member)
  | spread => exact nested.rewrite rfl rfl trivial
  | fire now _ _ _ _ =>
      exact nested.rewrite RunDb.fireBarrier_tokenGroups (fireBarrier_stands _) trivial
  | settled _ => exact nested.rewrite rfl rfl trivial
  | abandon _ => exact nested.rewrite rfl rfl trivial
  | refinish recorded _ _ _ => exact nested.rewrite rfl (Table.update_keys fun _ => rfl) trivial
  | reap keep _ => exact nested.rewrite rfl (Table.update_keys fun _ => rfl) trivial
  | retire => exact nested.rewrite rfl rfl trivial
  | conclude output ending _ _ _ => exact nested.rewrite rfl rfl trivial

theorem Turns.nested (law : DepthLaw wf reach) (turns : Turns wf strict calm here there)
    (standing : Standing wf here) (nested : Nested wf reach here) : Nested wf reach there := by
  induction turns with
  | refl => exact nested
  | tail earlier turn ih => exact turn.nested law (Turns.standing earlier standing) ih

theorem Created.nested (law : DepthLaw wf reach) (created : Created wf db)
    (declared : (wf.kind? wf.entry).isSome = true) : Nested wf reach (.idle, db) := by
  refine ⟨fun token member => ?_, trivial⟩
  rw [created.tokens, List.mem_singleton] at member
  rw [member, RunDb.depth, Forest.chain_none]
  exact law.entry declared

end

section

variable {doc : Compiler.Document} {limits : Limits} {settings : String → NodeSettings}

/-- The depths at which the walk without a cap enters a node. -/
def walked (doc : Compiler.Document) (name : String) (depth : Nat) : Prop :=
  ∃ hops, doc.splitGraph.Enters none hops name depth

theorem load_edge {edge : Edge} (member : edge ∈ (Workflow.load doc limits settings).edges) :
    ∃ authored ∈ doc.edges, authored.onEvent = edge.onEvent ∧ authored.target = edge.target ∧
      (Compiler.splitEdgeFrom authored.source).getD ("", "") = (edge.fromNode, edge.fromOutcome) := by
  obtain ⟨authored, authoredMember, rfl⟩ := mem_normalizeEdges.mp member
  exact ⟨authored, authoredMember, rfl, rfl, rfl⟩

theorem load_hop (named : doc.kind? "" = none) {edge : Edge} {kind : NodeKind}
    (member : edge ∈ (Workflow.load doc limits settings).edges)
    (source : doc.kind? edge.fromNode = some kind) (declared : (doc.kind? edge.target).isSome = true) :
    (edge.target, Compiler.Document.hopDelta kind edge.fromOutcome) ∈ doc.adjacency edge.fromNode := by
  obtain ⟨authored, authoredMember, _, sameTarget, parts⟩ := load_edge member
  have decomposed : Compiler.splitEdgeFrom authored.source = some (edge.fromNode, edge.fromOutcome) := by
    cases found : Compiler.splitEdgeFrom authored.source with
    | some pair =>
        rw [found] at parts
        exact congrArg some parts
    | none =>
        rw [found] at parts
        have empty : edge.fromNode = "" := (congrArg Prod.fst parts).symm
        rw [empty, named] at source
        contradiction
  obtain ⟨targetKind, isTarget⟩ := Option.isSome_iff_exists.mp declared
  refine doc.mem_adjacency.mpr ⟨authored, authoredMember, ?_⟩
  simp only [Compiler.Document.hop?, decomposed, source, sameTarget, isTarget]

theorem depthLaw_load (named : doc.kind? "" = none) (begins : (doc.kind? doc.entry).isSome = true)
    (lawful : ¬ doc.splitGraph.Sees none) : DepthLaw (Workflow.load doc limits settings) (walked doc) := by
  have roots : ∀ {name : String}, name ∈ doc.walkRoots → walked doc name 0 := fun root =>
    ⟨0, .root root⟩
  have lawfully : ∀ {hops : Nat} {name : String} {depth : Int},
      doc.splitGraph.Enters none hops name depth → doc.splitGraph.violates name depth = false := by
    intro hops name depth entered
    cases violated : doc.splitGraph.violates name depth with
    | false => rfl
    | true => exact absurd ⟨hops, name, depth, entered, violated⟩ lawful
  obtain ⟨entryKind, isEntry⟩ := Option.isSome_iff_exists.mp begins
  refine ⟨fun _ => ?_, fun edge member isEvent declared => ?_, ?_, fun name isJoin reached => ?_,
    fun name isEnd depth reached => ?_⟩
  · refine roots ?_
    rw [Compiler.Document.walkRoots, isEntry]
    exact List.mem_cons_self
  · obtain ⟨authored, authoredMember, sameEvent, sameTarget, _⟩ := load_edge member
    rw [Workflow.kind?_load, ← sameTarget] at declared
    rw [← sameEvent] at isEvent
    refine roots ?_
    rw [Compiler.Document.walkRoots, isEntry, ← sameTarget]
    exact List.mem_cons_of_mem _ (List.mem_map_of_mem
      (List.mem_filter.mpr ⟨authoredMember, decide_eq_true ⟨isEvent, declared⟩⟩))
  · intro edge member node found declared depth reached
    obtain ⟨hops, entered⟩ := reached
    have source : doc.kind? edge.fromNode = some node.kind := by
      rw [← Workflow.kind?_load doc limits settings]
      exact Workflow.kind?_of_node? _ found
    rw [Workflow.kind?_load] at declared
    have hop := load_hop named member source declared
    have nonneg := SplitGraph.hop_depth_nonneg (G := doc.splitGraph) hop (lawfully entered) entered.nonneg
    have next : doc.splitGraph.Enters none (hops + 1) edge.target
        (depth + Compiler.Document.hopDelta node.kind edge.fromOutcome) :=
      .hop entered (lawfully entered) hop ⟨nonneg, by simp⟩
    split
    · rename_i isJoin
      rintro outer rfl
      refine ⟨hops + 1, ?_⟩
      simpa [Compiler.Document.hopDelta, isJoin] using next
    · rename_i notJoin
      split
      · rename_i isSplit
        have both : node.kind = .parallel ∧ edge.fromOutcome = outcomeSplit := by
          simpa [splits] using isSplit
        refine ⟨hops + 1, ?_⟩
        simpa [Compiler.Document.hopDelta, both.1, show edge.fromOutcome = "split" from both.2] using next
      · rename_i notSplit
        have neither : ¬ (node.kind = .parallel ∧ edge.fromOutcome = outcomeSplit) := by
          simpa [splits] using notSplit
        have level : Compiler.Document.hopDelta node.kind edge.fromOutcome = 0 := by
          rw [Compiler.Document.hopDelta, if_neg notJoin]
          exact if_neg neither
        rw [level, Int.add_zero] at next
        exact ⟨hops + 1, next⟩
  · rw [Workflow.kind?_load] at isJoin
    obtain ⟨hops, entered⟩ := reached
    have violated : doc.splitGraph.violates name 0 = true := by
      simp [SplitGraph.violates, Compiler.Document.splitGraph, isJoin]
    exact absurd ((lawfully entered).symm.trans violated) Bool.false_ne_true
  · rw [Workflow.kind?_load] at isEnd
    obtain ⟨hops, entered⟩ := reached
    have kept := lawfully entered
    simp only [SplitGraph.violates, Compiler.Document.splitGraph, isEnd, decide_true, Bool.true_and,
      Bool.or_eq_false_iff, decide_eq_false_iff_not] at kept
    omega

end

end CultureNodes.Engine
