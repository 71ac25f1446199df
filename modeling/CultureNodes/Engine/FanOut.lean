import CultureNodes.Engine.Journal

/-!
A fan-out, turn by turn. The branches that point straight at joins feed barriers of the new group,
one for each join, and these are settled in the order in which they were first fed.
-/

namespace CultureNodes.Engine

/-- A transaction at `here` goes on by turns to what the code returns: the rows with an empty hand,
or the rows it is refused at. -/
def Leads (wf : Workflow) (strict calm : Prop) (own : Nat) (here : Hand × RunDb) :
    Except Halt RunDb → Prop
  | .ok db => Busy wf strict calm own here (.idle, db)
  | .error (.refuse db _) => ∃ hand, hand ≠ .idle ∧ Busy wf strict calm own here (hand, db)
  | .error (.abort _) => True

theorem Leads.after {wf : Workflow} {strict calm : Prop} {own : Nat} {here there : Hand × RunDb}
    {result : Except Halt RunDb} (turns : Busy wf strict calm own here there)
    (leads : Leads wf strict calm own there result) : Leads wf strict calm own here result := by
  cases result with
  | ok db => exact turns.trans leads
  | error halt =>
      cases halt with
      | abort error => trivial
      | refuse db failure =>
          obtain ⟨hand, held, onward⟩ := leads
          exact ⟨hand, held, turns.trans onward⟩

/-- The join's policy can be met in a group of this cardinality. -/
def Node.satisfiable (join : Node) (cardinality : Nat) : Bool := (join.joinThreshold cardinality).2

namespace RunDb

variable {db : RunDb} {join : Node} {barrier : NodeRun} {group now : Nat} {early : Bool}

theorem settleBarrier_eq {row : TokenGroup} (found : db.tokenGroup? group = some row) :
    db.settleBarrier join barrier group now =
      if join.satisfiable row.cardinality = false then
        .error (.refuse db (.unsatisfiable join.id (join.joinThreshold row.cardinality).1
          join.policyText row.cardinality))
      else if join.fires row.cardinality (db.joinArrivalCount barrier.id) = true then
        .ok (db.fireBarrier barrier group
          (decide (db.joinArrivalCount barrier.id < row.cardinality)) now)
      else .ok db := by
  unfold settleBarrier Node.satisfiable
  rw [found]
  dsimp only
  by_cases satisfiable : (join.joinThreshold row.cardinality).2 = false
  · rw [if_pos satisfiable, if_pos satisfiable]
  · rw [if_neg satisfiable, if_neg satisfiable]
    rw [Bool.not_eq_false] at satisfiable
    by_cases short : db.joinArrivalCount barrier.id < (join.joinThreshold row.cardinality).1
    · rw [if_pos short, if_neg]
      simpa [Node.fires] using fun _ => short
    · rw [if_neg short, if_pos]
      rw [Node.fires, Bool.and_eq_true, decide_eq_true_eq]
      exact ⟨satisfiable, Nat.le_of_not_lt short⟩

theorem tokenGroup?_congr {next : RunDb} (same : next.tokenGroups = db.tokenGroups) :
    next.tokenGroup? group = db.tokenGroup? group := by
  rw [tokenGroup?, same]
  rfl

theorem Parked.extend {next : RunDb} (parked : db.Parked barrier group)
    (runs : ∀ run ∈ db.nodeRuns, run ∈ next.nodeRuns)
    (tokens : ∀ token ∈ db.tokens, token ∈ next.tokens) : next.Parked barrier group := by
  obtain ⟨run, runMember, sameID, sameToken, waits, token, tokenMember, owns⟩ := parked
  exact ⟨run, runs run runMember, sameID, sameToken, waits, token, tokens token tokenMember, owns⟩

@[simp] theorem fireBarrier_nextID :
    (db.fireBarrier barrier group early now).nextID = db.nextID + 1 := by
  unfold fireBarrier
  cases early <;> rfl

theorem AtJoin.fireBarrier {wf : Workflow} {id : Nat} (atJoin : db.AtJoin wf id) :
    (db.fireBarrier barrier group early now).AtJoin wf id := by
  obtain ⟨run, member, sameID, kind⟩ := atJoin
  obtain ⟨later, laterMember, stands⟩ := (Extends.fireBarrier _ _ _ _).runs run member
  have sameNode : later.node = run.node := congrArg (fun stand => stand.2.2) stands
  exact ⟨later, laterMember, (congrArg Prod.fst stands).trans sameID, sameNode ▸ kind⟩

theorem fireBarrier_firedIn : (db.fireBarrier barrier group early now).firedIn group = true := by
  unfold fireBarrier firedIn
  cases early
  · simp [enqueueWork]
  · simp [reapGroupBranches, cancelNodeRuns]

end RunDb

/-- How many of the barriers fire, were each settled on its own, up to the first that never can. -/
def firings (cardinality : Nat) (arrivals : Node × NodeRun → Nat) (pending : List (Node × NodeRun)) : Nat :=
  (pending.takeWhile (·.1.satisfiable cardinality)).countP fun entry =>
    entry.1.fires cardinality (arrivals entry)

theorem firings_cons {cardinality : Nat} {entry : Node × NodeRun} (rest : List (Node × NodeRun))
    (arrivals : Node × NodeRun → Nat) (satisfiable : entry.1.satisfiable cardinality = true) :
    firings cardinality arrivals (entry :: rest) = firings cardinality arrivals rest +
      if entry.1.fires cardinality (arrivals entry) = true then 1 else 0 := by
  simp only [firings, List.takeWhile_cons, satisfiable, if_true, List.countP_cons]

namespace Mover

variable {wf : Workflow} {strict calm : Prop} {mover : Mover} {db : RunDb} {group : Nat}

theorem settlePending_singleton (mover : Mover) (db : RunDb) (group : Nat) (join : Node) (barrier : NodeRun) :
    mover.settlePending group db [(join, barrier)] = db.settleBarrier join barrier group mover.now := by
  rw [settlePending]
  cases db.settleBarrier join barrier group mover.now <;> rfl

/-- The settle loop. It is strict where one parked barrier fires at most, for firing one takes the
others away; it is calm where one fires unless branches are still to come. -/
theorem settlePending_leads {row : TokenGroup} {pending : List (Node × NodeRun)}
    (found : db.tokenGroup? group = some row) (known : ∀ entry ∈ pending, entry.2.id < db.nextID)
    (joins : ∀ entry ∈ pending, db.AtJoin wf entry.2.id)
    (once : strict →
      (∀ entry ∈ pending, db.Parked entry.2 group) ∧
        firings row.cardinality (fun entry => db.joinArrivalCount entry.2.id) pending ≤ 1 ∨
      firings row.cardinality (fun entry => db.joinArrivalCount entry.2.id) pending = 0)
    (settles : calm → (db.firedIn group = true ∨ db.arrivedIn group < db.cardinalityOf group) ∨
      ∃ entry ∈ pending, entry.1.satisfiable row.cardinality = false ∨
        entry.1.fires row.cardinality (db.joinArrivalCount entry.2.id) = true) :
    Leads wf strict calm mover.nodeRun.id (.settling group, db) (mover.settlePending group db pending) := by
  induction pending generalizing db with
  | nil =>
      refine Relation.ReflTransGen.single ⟨Hand.noConfusion, .settled fun isCalm => ?_, (absurd · Hand.noConfusion)⟩
      rcases settles isCalm with settled | ⟨entry, member, _⟩
      · exact settled
      · simp at member
  | cons entry rest ih =>
      obtain ⟨join, barrier⟩ := entry
      have later : ∀ entry ∈ rest, entry.2.id < db.nextID := fun entry member =>
        known entry (List.mem_cons_of_mem _ member)
      rw [settlePending, RunDb.settleBarrier_eq found]
      by_cases satisfiable : join.satisfiable row.cardinality = false
      · rw [if_pos satisfiable]
        exact ⟨.settling group, Hand.noConfusion, .refl⟩
      · rw [if_neg satisfiable]
        rw [Bool.not_eq_false] at satisfiable
        have counted : ∀ arrivals, firings row.cardinality arrivals ((join, barrier) :: rest) = _ :=
          fun arrivals => firings_cons rest arrivals satisfiable
        by_cases fires : join.fires row.cardinality (db.joinArrivalCount barrier.id) = true
        · rw [if_pos fires]
          dsimp only
          have fired : Turn wf strict calm (.settling group, db) (.settling group,
              db.fireBarrier barrier group
                (decide (db.joinArrivalCount barrier.id < row.cardinality)) mover.now) := by
            refine .fire mover.now found fires (known _ List.mem_cons_self) (fun isStrict => ?_)
              (joins _ List.mem_cons_self)
            rcases once isStrict with ⟨parked, _⟩ | none
            · exact parked _ List.mem_cons_self
            · rw [counted, if_pos fires] at none
              omega
          refine Leads.after (.single ⟨Hand.noConfusion, fired, (absurd · Hand.noConfusion)⟩) (ih ?_ ?_ ?_ ?_ ?_)
          · exact (RunDb.tokenGroup?_congr RunDb.fireBarrier_tokenGroups).trans found
          · intro other member
            rw [RunDb.fireBarrier_nextID]
            exact Nat.lt_succ_of_lt (later other member)
          · intro other member
            exact (joins other (List.mem_cons_of_mem _ member)).fireBarrier
          · intro isStrict
            have sameCount : ∀ id, (db.fireBarrier barrier group
                (decide (db.joinArrivalCount barrier.id < row.cardinality)) mover.now).joinArrivalCount id =
                  db.joinArrivalCount id := fun id => by simp [RunDb.joinArrivalCount]
            simp only [sameCount]
            right
            rcases once isStrict with ⟨_, atMost⟩ | none
            · rw [counted, if_pos fires] at atMost
              omega
            · rw [counted, if_pos fires] at none
              omega
          · exact fun _ => Or.inl (Or.inl RunDb.fireBarrier_firedIn)
        · rw [if_neg fires]
          refine ih found later (fun entry member => joins entry (List.mem_cons_of_mem _ member))
            (fun isStrict => ?_) (fun isCalm => ?_)
          · have same := counted fun entry => db.joinArrivalCount entry.2.id
            rw [if_neg fires, Nat.add_zero] at same
            rw [← same]
            rcases once isStrict with ⟨parked, atMost⟩ | none
            · exact Or.inl ⟨fun entry member => parked entry (List.mem_cons_of_mem _ member), atMost⟩
            · exact Or.inr none
          · rcases settles isCalm with settled | ⟨entry, member, moves⟩
            · exact Or.inl settled
            · rcases List.mem_cons.mp member with rfl | inRest
              · rcases moves with never | now
                · rw [satisfiable] at never
                  contradiction
                · exact absurd now fires
              · exact Or.inr ⟨entry, inRest, moves⟩

end Mover

namespace Workflow

variable (wf : Workflow)

/-- Whether an edge points straight at a join. -/
def toJoin (edge : Edge) : Bool := wf.kind? edge.target = some .join

def addJoin (joins : List Node) (edge : Edge) : List Node :=
  match wf.node? edge.target with
  | none => joins
  | some next =>
      if next.kind = .join && !joins.any (·.id = next.id) then joins ++ [next] else joins

/-- The joins that the edges of a split point straight at, each once, in the order of the edges. -/
def straightJoins (edges : List Edge) : List Node := edges.foldl wf.addJoin []

theorem straightJoins_append (done : List Edge) (edge : Edge) :
    wf.straightJoins (done ++ [edge]) = wf.addJoin (wf.straightJoins done) edge := by
  simp [straightJoins]

/-- The joins of a split that fire as soon as it is made, up to the first that never can. -/
def straightFirings (edges : List Edge) : Nat :=
  ((wf.straightJoins edges).takeWhile (·.satisfiable edges.length)).countP fun join =>
    join.fires edges.length (edges.countP (·.target = join.id))

end Workflow

/-- The barriers of a new group, after the edges `done` of its split. -/
structure Gathered (wf : Workflow) (group : Nat) (done : List Edge) (spread : Spread) : Prop where
  joins : spread.pending.map Prod.fst = wf.straightJoins done
  declared : ∀ entry ∈ spread.pending, wf.node? entry.1.id = some entry.1 ∧ entry.1.kind = .join
  parked : ∀ entry ∈ spread.pending, spread.db.Parked entry.2 group
  stands : ∀ entry ∈ spread.pending, ∃ run ∈ spread.db.nodeRuns, run.id = entry.2.id ∧
    run.node = entry.1.id
  found : ∀ run ∈ spread.db.nodeRuns, run.state = .waitingJoin →
    (∃ token ∈ spread.db.tokens, token.id = run.token ∧ token.group = some group) →
    ∃ entry ∈ spread.pending, entry.2.id = run.id
  fed : ∀ edge ∈ done, wf.toJoin edge = true → ∃ entry ∈ spread.pending, entry.1.id = edge.target
  apart : ∀ left ∈ spread.pending, ∀ right ∈ spread.pending, left.1.id = right.1.id →
    left.2.id = right.2.id
  counts : ∀ entry ∈ spread.pending,
    spread.db.joinArrivalCount entry.2.id = done.countP (·.target = entry.1.id)
  arrived : spread.db.arrivedIn group = done.countP wf.toJoin

namespace Gathered

variable {wf : Workflow} {group : Nat} {done : List Edge} {spread : Spread} {edge : Edge}

theorem opened {db : RunDb} (keyed : Keyed wf db) (nodeRun cardinality : Nat) (place : Option Nat) :
    Gathered wf db.nextID [] ⟨db.insertTokenGroup nodeRun place cardinality, []⟩ := by
  refine ⟨rfl, ?_, ?_, ?_, ?_, ?_, ?_, ?_, ?_⟩
  · intro entry member
    simp at member
  · intro entry member
    simp at member
  · intro entry member
    simp at member
  · rintro run _ _ ⟨token, member, _, inGroup⟩
    have older := keyed.groupsOld _ (keyed.grouped token member _ inGroup)
    omega
  · intro edge member
    simp at member
  · intro left member
    simp at member
  · intro entry member
    simp at member
  · refine List.countP_eq_zero.mpr fun arrival member => ?_
    have older := (keyed.arrivalsOld arrival member).2
    simp only [decide_eq_true_eq]
    omega

theorem startNode (gathered : Gathered wf group done spread) (keyed : Keyed wf spread.db) {next : Node}
    (parent : Option Nat) (now : Nat) (found : wf.node? edge.target = some next)
    (notJoin : next.kind ≠ .join) :
    Gathered wf group (done ++ [edge])
      ⟨spread.db.startNode next parent (some group) none now, spread.pending⟩ := by
  have notStraight : wf.toJoin edge = false := by
    simpa [Workflow.toJoin, wf.kind?_of_node? found] using notJoin
  refine ⟨?_, gathered.declared, ?_, ?_, ?_, ?_, gathered.apart, ?_, ?_⟩
  · rw [wf.straightJoins_append, gathered.joins, Workflow.addJoin, found]
    simp [notJoin]
  · intro entry member
    exact (gathered.parked entry member).extend (fun run old => by simp [old])
      (fun token old => by simp [old])
  · intro entry member
    obtain ⟨run, runMember, same⟩ := gathered.stands entry member
    exact ⟨run, by simp [runMember], same⟩
  · intro run runMember waits inGroup
    rw [RunDb.startNode_nodeRuns] at runMember
    rcases List.mem_append.mp runMember with old | new
    · refine gathered.found run old waits ?_
      obtain ⟨token, tokenMember, owns, sameGroup⟩ := inGroup
      rw [RunDb.startNode_tokens] at tokenMember
      rcases List.mem_append.mp tokenMember with oldToken | newToken
      · exact ⟨token, oldToken, owns, sameGroup⟩
      · rw [List.mem_singleton.mp newToken] at owns
        exact absurd owns.symm (keyed.fresh_token run old)
    · rw [List.mem_singleton.mp new] at waits
      exact absurd waits Keyed.dispatchState_ne_waitingJoin
  · intro other member straight
    rcases List.mem_append.mp member with old | new
    · exact gathered.fed other old straight
    · rw [List.mem_singleton.mp new, notStraight] at straight
      contradiction
  · intro entry member
    have differs : edge.target ≠ entry.1.id := by
      intro same
      rw [same, (gathered.declared entry member).1] at found
      exact notJoin (Option.some.inj found ▸ (gathered.declared entry member).2)
    rw [List.countP_append, ← gathered.counts entry member]
    simp [RunDb.joinArrivalCount, differs]
  · rw [List.countP_append, ← gathered.arrived]
    simp [RunDb.arrivedIn, notStraight]

/-- A branch that points straight at a join: its token is made and consumed at once. -/
theorem insertConsumed (gathered : Gathered wf group done spread) (keyed : Keyed wf spread.db)
    {node : String} {parent place : Option Nat} :
    Gathered wf group done
      ⟨(spread.db.insertToken node parent place none).consumeToken spread.db.nextID, spread.pending⟩ := by
  have tokens : ((spread.db.insertToken node parent place none).consumeToken
      spread.db.nextID).tokens = _ := keyed.insertConsumed_tokens
  refine { gathered with parked := ?_, found := ?_ }
  · intro entry member
    refine (gathered.parked entry member).extend (fun run old => old) fun token old => ?_
    rw [tokens]
    exact List.mem_append_left _ old
  · rintro run member waits ⟨token, tokenMember, owns, inGroup⟩
    rw [tokens] at tokenMember
    rcases List.mem_append.mp tokenMember with old | new
    · exact gathered.found run member waits ⟨token, old, owns, inGroup⟩
    · rw [List.mem_singleton.mp new] at owns
      exact absurd owns.symm (keyed.fresh_token run member)

section

variable {join : Node} {token : Nat} {fromNode outcome : String} {output : Payload}

theorem gatherOpen (gathered : Gathered wf group done spread) (keyed : Keyed wf spread.db)
    {barrier : NodeRun} (found : wf.node? edge.target = some join) (isJoin : join.kind = .join)
    (isOpen : spread.db.openJoinBarrier join.id group = some barrier) :
    Gathered wf group (done ++ [edge])
      ⟨spread.db.insertJoinArrival ⟨barrier.id, group, token, fromNode, outcome, output⟩,
        appendPendingBarrier spread.pending join barrier⟩ := by
  obtain ⟨member, sameNode, waits, inGroup⟩ := Keyed.openJoinBarrier_eq_some isOpen
  have target : edge.target = join.id := (wf.node?_id found).symm
  have straight : wf.toJoin edge = true := by
    simp [Workflow.toJoin, wf.kind?_of_node? found, isJoin]
  obtain ⟨own, ownMember, ownID⟩ := gathered.found barrier member waits inGroup
  have nodeOf : ∀ entry ∈ spread.pending, entry.2.id = barrier.id → entry.1.id = join.id := by
    intro entry entryMember sameID
    obtain ⟨run, runMember, runID, runNode⟩ := gathered.stands entry entryMember
    rw [keyed.run_eq runMember member (runID.trans sameID), sameNode] at runNode
    exact runNode.symm
  have ownNode := nodeOf own ownMember ownID
  have unchanged : appendPendingBarrier spread.pending join barrier = spread.pending := by
    unfold appendPendingBarrier
    rw [if_pos]
    exact List.any_eq_true.mpr ⟨own, ownMember, decide_eq_true ownID⟩
  rw [unchanged]
  refine { gathered with joins := ?_, fed := ?_, counts := ?_, arrived := ?_ }
  · have seen : (wf.straightJoins done).any (·.id = join.id) = true := by
      rw [← gathered.joins]
      exact List.any_eq_true.mpr ⟨own.1, List.mem_map_of_mem ownMember, decide_eq_true ownNode⟩
    rw [wf.straightJoins_append, gathered.joins, Workflow.addJoin, found]
    simp [seen]
  · intro other otherMember isStraight
    rcases List.mem_append.mp otherMember with old | new
    · exact gathered.fed other old isStraight
    · rw [List.mem_singleton.mp new, target]
      exact ⟨own, ownMember, ownNode⟩
  · intro entry entryMember
    have same : barrier.id = entry.2.id ↔ edge.target = entry.1.id := by
      rw [target]
      refine ⟨fun sameID => (nodeOf entry entryMember sameID.symm).symm, fun sameJoin => ?_⟩
      have sameEntry := gathered.apart own ownMember entry entryMember (ownNode.trans sameJoin)
      exact ownID.symm.trans sameEntry
    rw [List.countP_append, ← gathered.counts entry entryMember]
    simp [RunDb.joinArrivalCount, RunDb.insertJoinArrival, same]
  · rw [List.countP_append, ← gathered.arrived]
    simp [RunDb.arrivedIn, RunDb.insertJoinArrival, straight]

/-- The spread after an arrival that opens its barrier. -/
def fresh (spread : Spread) (join : Node) (group token : Nat) (fromNode outcome : String) (output : Payload) :
    Spread :=
  ⟨((spread.db.insertToken join.id (some token) (some group) none).insertNodeRun spread.db.nextID
      join.id .waitingJoin).insertJoinArrival
    ⟨spread.db.nextID + 1, group, token, fromNode, outcome, output⟩,
    spread.pending ++ [(join, ⟨spread.db.nextID + 1, spread.db.nextID, join.id, .waitingJoin, ""⟩)]⟩

theorem mem_fresh {entry : Node × NodeRun}
    (member : entry ∈ (fresh spread join group token fromNode outcome output).pending) :
    entry ∈ spread.pending ∨
      entry = (join, ⟨spread.db.nextID + 1, spread.db.nextID, join.id, .waitingJoin, ""⟩) := by
  rcases List.mem_append.mp member with old | new
  · exact Or.inl old
  · exact Or.inr (List.mem_singleton.mp new)

theorem older (gathered : Gathered wf group done spread) (keyed : Keyed wf spread.db)
    {entry : Node × NodeRun} (member : entry ∈ spread.pending) : entry.2.id < spread.db.nextID :=
  keyed.parked_old (gathered.parked entry member)

theorem unseen (gathered : Gathered wf group done spread) (keyed : Keyed wf spread.db)
    (closed : spread.db.openJoinBarrier join.id group = none) {entry : Node × NodeRun}
    (member : entry ∈ spread.pending) : entry.1.id ≠ join.id := by
  intro same
  obtain ⟨run, runMember, runID, _, waits, mate, mateMember, owns, inGroup⟩ :=
    gathered.parked entry member
  obtain ⟨row, rowMember, rowID, rowNode⟩ := gathered.stands entry member
  rw [keyed.run_eq rowMember runMember (rowID.trans runID.symm)] at rowNode
  have missed := List.find?_eq_none.mp closed run runMember
  simp only [Bool.and_eq_true, decide_eq_true_eq, List.any_eq_true] at missed
  exact missed ⟨⟨rowNode.trans same, waits⟩, mate, mateMember, owns, inGroup⟩

theorem fresh_joins (gathered : Gathered wf group done spread) (keyed : Keyed wf spread.db)
    (found : wf.node? edge.target = some join) (isJoin : join.kind = .join)
    (closed : spread.db.openJoinBarrier join.id group = none) :
    (fresh spread join group token fromNode outcome output).pending.map Prod.fst =
      wf.straightJoins (done ++ [edge]) := by
  have first : (wf.straightJoins done).any (·.id = join.id) = false := by
    rw [← gathered.joins, List.any_eq_false]
    intro other otherMember
    obtain ⟨entry, member, rfl⟩ := List.mem_map.mp otherMember
    simpa using gathered.unseen keyed closed member
  rw [fresh, wf.straightJoins_append, List.map_append, gathered.joins, Workflow.addJoin, found]
  simp [first, isJoin]

theorem fresh_parked (gathered : Gathered wf group done spread) {entry : Node × NodeRun}
    (member : entry ∈ (fresh spread join group token fromNode outcome output).pending) :
    (fresh spread join group token fromNode outcome output).db.Parked entry.2 group := by
  rcases mem_fresh member with old | rfl
  · exact (gathered.parked entry old).extend (fun run isRun => List.mem_append_left _ isRun)
      (fun token isToken => List.mem_append_left _ isToken)
  · refine ⟨_, List.mem_append_right _ (List.mem_singleton.mpr rfl), rfl, rfl, rfl, ?_⟩
    exact ⟨_, List.mem_append_right _ (List.mem_singleton.mpr rfl), rfl, rfl⟩

theorem fresh_stands (gathered : Gathered wf group done spread) {entry : Node × NodeRun}
    (member : entry ∈ (fresh spread join group token fromNode outcome output).pending) :
    ∃ run ∈ (fresh spread join group token fromNode outcome output).db.nodeRuns,
      run.id = entry.2.id ∧ run.node = entry.1.id := by
  rcases mem_fresh member with old | rfl
  · obtain ⟨run, runMember, same⟩ := gathered.stands entry old
    exact ⟨run, List.mem_append_left _ runMember, same⟩
  · exact ⟨_, List.mem_append_right _ (List.mem_singleton.mpr rfl), rfl, rfl⟩

theorem fresh_found (gathered : Gathered wf group done spread) (keyed : Keyed wf spread.db) {run : NodeRun}
    (member : run ∈ (fresh spread join group token fromNode outcome output).db.nodeRuns)
    (waits : run.state = .waitingJoin)
    (placed : ∃ mate ∈ (fresh spread join group token fromNode outcome output).db.tokens,
      mate.id = run.token ∧ mate.group = some group) :
    ∃ entry ∈ (fresh spread join group token fromNode outcome output).pending, entry.2.id = run.id := by
  obtain ⟨mate, mateMember, owns, inGroup⟩ := placed
  rcases List.mem_append.mp member with old | new
  · rcases List.mem_append.mp mateMember with oldMate | newMate
    · obtain ⟨entry, entryMember, same⟩ :=
        gathered.found run old waits ⟨mate, oldMate, owns, inGroup⟩
      exact ⟨entry, List.mem_append_left _ entryMember, same⟩
    · rw [List.mem_singleton.mp newMate] at owns
      exact absurd owns.symm (keyed.fresh_token run old)
  · rw [List.mem_singleton.mp new]
    exact ⟨_, List.mem_append_right _ (List.mem_singleton.mpr rfl), rfl⟩

theorem fresh_fed (gathered : Gathered wf group done spread) (target : edge.target = join.id) {other : Edge}
    (member : other ∈ done ++ [edge]) (straight : wf.toJoin other = true) :
    ∃ entry ∈ (fresh spread join group token fromNode outcome output).pending, entry.1.id = other.target := by
  rcases List.mem_append.mp member with old | new
  · obtain ⟨entry, entryMember, same⟩ := gathered.fed other old straight
    exact ⟨entry, List.mem_append_left _ entryMember, same⟩
  · rw [List.mem_singleton.mp new, target]
    exact ⟨_, List.mem_append_right _ (List.mem_singleton.mpr rfl), rfl⟩

theorem fresh_apart (gathered : Gathered wf group done spread) (keyed : Keyed wf spread.db)
    (closed : spread.db.openJoinBarrier join.id group = none) {left right : Node × NodeRun}
    (leftMember : left ∈ (fresh spread join group token fromNode outcome output).pending)
    (rightMember : right ∈ (fresh spread join group token fromNode outcome output).pending)
    (same : left.1.id = right.1.id) : left.2.id = right.2.id := by
  rcases mem_fresh leftMember with leftOld | rfl <;> rcases mem_fresh rightMember with rightOld | rfl
  · exact gathered.apart left leftOld right rightOld same
  · exact absurd same (gathered.unseen keyed closed leftOld)
  · exact absurd same.symm (gathered.unseen keyed closed rightOld)
  · rfl

theorem fresh_counts (gathered : Gathered wf group done spread) (keyed : Keyed wf spread.db)
    (target : edge.target = join.id) (straight : wf.toJoin edge = true)
    (closed : spread.db.openJoinBarrier join.id group = none) {entry : Node × NodeRun}
    (member : entry ∈ (fresh spread join group token fromNode outcome output).pending) :
    (fresh spread join group token fromNode outcome output).db.joinArrivalCount entry.2.id =
      (done ++ [edge]).countP (·.target = entry.1.id) := by
  rw [List.countP_append]
  rcases mem_fresh member with old | rfl
  · have notNew : spread.db.nextID + 1 ≠ entry.2.id := by
      have isOld := gathered.older keyed old
      omega
    have otherTarget : edge.target ≠ entry.1.id := fun same =>
      gathered.unseen keyed closed old (same.symm.trans target)
    rw [← gathered.counts entry old]
    simp [fresh, RunDb.joinArrivalCount, RunDb.insertJoinArrival, RunDb.insertNodeRun, RunDb.insertToken,
      notNew, otherTarget]
  · have noArrival : spread.db.joinArrivals.countP (·.joinNodeRun = spread.db.nextID + 1) = 0 := by
      refine List.countP_eq_zero.mpr fun arrival arrivalMember => ?_
      have isOld := (keyed.arrivalsOld arrival arrivalMember).1
      simp only [decide_eq_true_eq]
      omega
    have noEdge : done.countP (·.target = join.id) = 0 := by
      refine List.countP_eq_zero.mpr fun other otherMember sameTarget => ?_
      have sameTarget : other.target = join.id := of_decide_eq_true sameTarget
      have isStraight : wf.toJoin other = true := by
        rw [Workflow.toJoin, sameTarget, ← target]
        exact straight
      obtain ⟨entry, entryMember, same⟩ := gathered.fed other otherMember isStraight
      exact gathered.unseen keyed closed entryMember (same.trans sameTarget)
    rw [noEdge]
    simp [fresh, RunDb.joinArrivalCount, RunDb.insertJoinArrival, RunDb.insertNodeRun, RunDb.insertToken,
      noArrival, target]

theorem gatherFresh (gathered : Gathered wf group done spread) (keyed : Keyed wf spread.db)
    (found : wf.node? edge.target = some join) (isJoin : join.kind = .join)
    (closed : spread.db.openJoinBarrier join.id group = none) :
    Gathered wf group (done ++ [edge])
      ⟨((spread.db.insertToken join.id (some token) (some group) none).insertNodeRun spread.db.nextID
          join.id .waitingJoin).insertJoinArrival
        ⟨spread.db.nextID + 1, group, token, fromNode, outcome, output⟩,
        appendPendingBarrier spread.pending join
          ⟨spread.db.nextID + 1, spread.db.nextID, join.id, .waitingJoin, ""⟩⟩ := by
  have target : edge.target = join.id := (wf.node?_id found).symm
  have straight : wf.toJoin edge = true := by
    simp [Workflow.toJoin, wf.kind?_of_node? found, isJoin]
  have unknown : ¬ (spread.pending.any (·.2.id = spread.db.nextID + 1)) = true := by
    intro known
    obtain ⟨entry, member, same⟩ := List.any_eq_true.mp known
    have old := gathered.older keyed member
    have isNew : entry.2.id = spread.db.nextID + 1 := by simpa using same
    omega
  rw [appendPendingBarrier, if_neg unknown]
  exact {
    joins := gathered.fresh_joins keyed found isJoin closed
    declared := fun entry member => by
      rcases mem_fresh member with old | rfl
      · exact gathered.declared entry old
      · exact ⟨target ▸ found, isJoin⟩
    parked := fun _ member => gathered.fresh_parked member
    stands := fun _ member => gathered.fresh_stands member
    found := fun _ member waits placed => gathered.fresh_found keyed member waits placed
    fed := fun _ member isStraight => gathered.fresh_fed target member isStraight
    apart := fun _ left _ right same => gathered.fresh_apart keyed closed left right same
    counts := fun _ member => gathered.fresh_counts keyed target straight closed member
    arrived := by
      rw [List.countP_append, ← gathered.arrived]
      simp [RunDb.arrivedIn, RunDb.insertJoinArrival, RunDb.insertNodeRun, RunDb.insertToken, straight] }

theorem gather (gathered : Gathered wf group done spread) (keyed : Keyed wf spread.db)
    (found : wf.node? edge.target = some join) (isJoin : join.kind = .join) :
    Gathered wf group (done ++ [edge])
      ⟨spread.db.gather join token group fromNode outcome output,
        appendPendingBarrier spread.pending join (spread.db.joinBarrier join token group).2⟩ := by
  unfold RunDb.gather RunDb.joinBarrier
  cases barrier : spread.db.openJoinBarrier join.id group with
  | some run => exact gathered.gatherOpen keyed found isJoin barrier
  | none => exact gathered.gatherFresh keyed found isJoin barrier

end

end Gathered

/-- Once every branch is made, the barriers fire as the edges say. -/
theorem Gathered.firings {wf : Workflow} {group : Nat} {edges : List Edge} {spread : Spread}
    (gathered : Gathered wf group edges spread) :
    firings edges.length (fun entry => spread.db.joinArrivalCount entry.2.id) spread.pending =
      wf.straightFirings edges := by
  rw [Workflow.straightFirings, ← gathered.joins, List.takeWhile_map, List.countP_map]
  refine List.countP_congr fun entry member => ?_
  have counted := gathered.counts entry ((List.takeWhile_prefix _).subset member)
  dsimp only [Function.comp_apply]
  rw [counted]

namespace Mover

variable {wf : Workflow} {strict calm : Prop} {mover : Mover} {db : RunDb} {group : Nat}

theorem recordArrival_ok {join : Node} {token : Nat} {place : Option Nat} {edge : Edge}
    {next : RunDb × NodeRun} (recorded : mover.recordArrival db join token place edge = .ok next) :
    ∃ group, place = some group ∧
      next = (db.gather join token group mover.nodeRun.node edge.fromOutcome mover.output,
        (db.joinBarrier join token group).2) := by
  unfold recordArrival at recorded
  split at recorded
  · contradiction
  · rename_i group
    split at recorded
    · contradiction
    · dsimp only at recorded
      split at recorded
      · contradiction
      · exact ⟨group, rfl, (Except.ok.inj recorded).symm⟩

theorem recordArrival_error {join : Node} {token group : Nat} {edge : Edge} {halt : Halt}
    (recorded : mover.recordArrival db join token (some group) edge = .error halt) :
    ∃ error, halt = .abort error := by
  unfold recordArrival at recorded
  dsimp only at recorded
  split at recorded
  · exact ⟨_, (Except.error.inj recorded).symm⟩
  · split at recorded
    · exact ⟨_, (Except.error.inj recorded).symm⟩
    · contradiction

theorem spreadBranch_error {spread : Spread} {edge : Edge} {halt : Halt}
    (ran : mover.spreadBranch wf group spread edge = .error halt) : ∃ error, halt = .abort error := by
  unfold spreadBranch at ran
  split at ran
  · exact ⟨_, (Except.error.inj ran).symm⟩
  · split at ran
    · dsimp only at ran
      split at ran
      · rename_i failed
        exact Except.error.inj ran ▸ recordArrival_error failed
      · contradiction
    · contradiction

theorem spreadBranch_turn {done rest : List Edge} {edge : Edge} {spread next : Spread}
    (standing : Standing wf (.spreading group (edge :: rest), spread.db))
    (gathered : Gathered wf group done spread)
    (ran : mover.spreadBranch wf group spread edge = .ok next) :
    Turn wf strict calm (.spreading group (edge :: rest), spread.db)
        (.spreading group rest, next.db) ∧ Gathered wf group (done ++ [edge]) next ∧
      next.db.tokenGroups = spread.db.tokenGroups := by
  obtain ⟨keyed, lies, _⟩ := standing
  unfold spreadBranch at ran
  split at ran
  · contradiction
  · rename_i target found
    split at ran
    · rename_i isJoin
      dsimp only at ran
      split at ran
      · contradiction
      · rename_i recorded barrier arrived
        obtain ⟨own, isGroup, pair⟩ := recordArrival_ok arrived
        obtain rfl := Option.some.inj isGroup
        obtain ⟨rfl, rfl⟩ := Prod.mk.inj pair
        rw [← Except.ok.inj ran]
        have placed : Keyed wf ((spread.db.insertToken target.id (some mover.nodeRun.token)
            (some group) none).consumeToken spread.db.nextID) :=
          (keyed.insertToken lies).consumeToken _
        exact ⟨.arriveBranch _ _ _ _ found isJoin,
          (gathered.insertConsumed keyed).gather placed found isJoin, RunDb.gather_tokenGroups⟩
    · rename_i notJoin
      rw [← Except.ok.inj ran]
      exact ⟨.putBranch _ _ found notJoin, gathered.startNode keyed _ _ found notJoin, by simp⟩

theorem spreadBranches_error {edges : List Edge} {spread : Spread} {halt : Halt}
    (ran : mover.spreadBranches wf group spread edges = .error halt) : ∃ error, halt = .abort error := by
  induction edges generalizing spread with
  | nil => contradiction
  | cons edge rest ih =>
      rw [spreadBranches] at ran
      split at ran
      · rename_i failed
        exact Except.error.inj ran ▸ spreadBranch_error failed
      · exact ih ran

theorem spreadBranches_turns {done edges : List Edge} {spread next : Spread}
    (standing : Standing wf (.spreading group edges, spread.db))
    (gathered : Gathered wf group done spread)
    (ran : mover.spreadBranches wf group spread edges = .ok next) :
    Busy wf strict calm mover.nodeRun.id (.spreading group edges, spread.db) (.spreading group [], next.db) ∧
      Gathered wf group (done ++ edges) next ∧ next.db.tokenGroups = spread.db.tokenGroups := by
  induction edges generalizing done spread with
  | nil =>
      rw [← Except.ok.inj ran, List.append_nil]
      exact ⟨.refl, gathered, rfl⟩
  | cons edge rest ih =>
      rw [spreadBranches] at ran
      split at ran
      · contradiction
      · rename_i middle branched
        obtain ⟨turn, middleGathered, middleGroups⟩ := spreadBranch_turn standing gathered branched
        obtain ⟨turns, nextGathered, nextGroups⟩ := ih (turn.standing standing) middleGathered ran
        refine ⟨.head ⟨Hand.noConfusion, turn, (absurd · Hand.noConfusion)⟩ turns, ?_, nextGroups.trans middleGroups⟩
        simpa using nextGathered

/-- A split. -/
theorem fanOut_leads {place : Option Nat} {targets : List Edge}
    (standing : Standing wf (.parting place targets, db))
    (once : strict → wf.straightFirings targets ≤ 1)
    (settles : calm → targets.all wf.toJoin = true → ∃ join ∈ wf.straightJoins targets,
      join.satisfiable targets.length = false ∨
        join.fires targets.length (targets.countP (·.target = join.id)) = true) :
    Leads wf strict calm mover.nodeRun.id (.parting place targets, db) (mover.fanOut wf db place targets) := by
  have split : Turn wf strict calm (.parting place targets, db)
      (.spreading db.nextID targets, db.insertTokenGroup mover.nodeRun.id place targets.length) :=
    .split mover.nodeRun.id
  unfold fanOut
  dsimp only
  cases ran : mover.spreadBranches wf db.nextID
      ⟨db.insertTokenGroup mover.nodeRun.id place targets.length, []⟩ targets with
  | error halt =>
      obtain ⟨error, rfl⟩ := spreadBranches_error ran
      trivial
  | ok spread =>
      dsimp only
      obtain ⟨turns, gathered, sameGroups⟩ :=
        spreadBranches_turns (split.standing standing) (Gathered.opened standing.keyed _ _ _) ran
      have found : spread.db.tokenGroup? db.nextID =
          some ⟨db.nextID, mover.nodeRun.id, place, targets.length⟩ := by
        rw [RunDb.tokenGroup?_congr sameGroups]
        simp [RunDb.tokenGroup?, RunDb.insertTokenGroup]
      have reached : Standing wf (.spreading db.nextID [], spread.db) :=
        Turns.standing (Busy.turns turns) (split.standing standing)
      rw [List.nil_append] at gathered
      have branched : Busy wf strict calm mover.nodeRun.id (.parting place targets, db)
          (.settling db.nextID, spread.db) :=
        .head ⟨Hand.noConfusion, split, (absurd · Hand.noConfusion)⟩ (turns.tail ⟨Hand.noConfusion, .spread, (absurd · Hand.noConfusion)⟩)
      refine Leads.after branched (settlePending_leads found ?_ ?_ ?_ ?_)
      · intro entry member
        exact reached.keyed.parked_old (gathered.parked entry member)
      · intro entry member
        exact reached.keyed.parked_atJoin (gathered.parked entry member)
      · intro isStrict
        refine Or.inl ⟨gathered.parked, ?_⟩
        rw [gathered.firings]
        exact once isStrict
      · intro isCalm
        cases straight : targets.all wf.toJoin with
        | false =>
            have fewer : targets.countP wf.toJoin < targets.length := by
              refine Nat.lt_of_le_of_ne List.countP_le_length fun all => ?_
              rw [List.countP_eq_length, ← List.all_eq_true, straight] at all
              contradiction
            refine Or.inl (Or.inr ?_)
            rw [gathered.arrived, RunDb.cardinalityOf, found]
            exact fewer
        | true =>
            obtain ⟨join, isStraight, moves⟩ := settles isCalm straight
            rw [← gathered.joins] at isStraight
            obtain ⟨entry, member, rfl⟩ := List.mem_map.mp isStraight
            refine Or.inr ⟨entry, member, ?_⟩
            rw [gathered.counts entry member]
            exact moves

end Mover

end CultureNodes.Engine
