import CultureNodes.Web.Announce

/-!
A transition on its way, piece by piece: a token enters a node, arrives at a join, fires a barrier or spreads
over the branches of a split. After each piece the run that the transition set out from has ended, ids are as
they were given out, and what was told of a node is what became of its newest run.
-/

namespace CultureNodes.Web

open Engine

/-- A transition is on its way: the run that it sets out from has ended. -/
structure Afoot (mover : Mover) (db : RunDb) : Prop where
  serial : Serial db
  home : db.At mover.nodeRun.node mover.nodeRun.id
  terminal : mover.state.terminal = true
  ended : HasEnded mover db

/-- A piece of a transition, which leaves it on its way. -/
structure Piece (mover : Mover) (node : String) (opens : Prop) (db : RunDb) (events : List RunEvent)
    (next : RunDb) : Prop where
  turned : Turned mover node opens db events next
  grown : Grown db next
  afoot : Afoot mover next

/-- A barrier stands at its join and is not the run that the transition sets out from. -/
structure Placed (mover : Mover) (db : RunDb) (join : Node) (barrier : NodeRun) : Prop where
  at_ : db.At join.id barrier.id
  other : barrier.id ≠ mover.nodeRun.id

/-- A transition comes to these rows, or to the rows at which it is refused. -/
def Goes (mover : Mover) (node : String) (opens : Prop) (db : RunDb) (events : List RunEvent) :
    Except Halt RunDb → Prop
  | .ok next | .error (.refuse next _) => Piece mover node opens db events next
  | .error (.abort _) => True

section

variable {mover : Mover} {node : String} {opens later : Prop} {db middle next : RunDb}
  {events more : List RunEvent} {join : Node} {barrier : NodeRun}

theorem Afoot.old (afoot : Afoot mover db) : mover.nodeRun.id < db.nextID := by
  obtain ⟨run, held, same, -⟩ := afoot.home
  exact same ▸ afoot.serial.old run held

theorem Afoot.onward (afoot : Afoot mover db) (grown : Grown db next)
    (keeps : ∀ run ∈ next.nodeRuns, run.id = mover.nodeRun.id → run ∈ db.nodeRuns) : Afoot mover next :=
  ⟨afoot.serial.grown grown, afoot.home.grown grown, afoot.terminal, fun run held own =>
    afoot.ended run (keeps run held own) own⟩

theorem Afoot.spared (afoot : Afoot mover db) {chosen : NodeRun → Bool} :
    mover.nodeRun.id ∉ (db.nodeRuns.filter fun run => !run.state.terminal && chosen run).map NodeRun.id := by
  intro held
  obtain ⟨run, among, same⟩ := List.mem_map.mp held
  have live := (List.mem_filter.mp among).2
  rw [afoot.ended run (List.mem_filter.mp among).1 same, afoot.terminal] at live
  contradiction

theorem Placed.grown (placed : Placed mover db join barrier) (grown : Grown db next) :
    Placed mover next join barrier :=
  ⟨placed.at_.grown grown, placed.other⟩

namespace Piece

theorem mono {wider : Prop} (piece : Piece mover node opens db events next) (weaker : opens → wider) :
    Piece mover node wider db events next :=
  ⟨piece.turned.mono weaker, piece.grown, piece.afoot⟩

theorem trans (first : Piece mover node opens db events middle) (second : Piece mover node later middle more next)
    (quiet : later → opens ∧ Silent node mover.nodeRun.node events) :
    Piece mover node opens db (events ++ more) next :=
  ⟨first.turned.trans second.turned first.grown second.grown quiet, first.grown.trans second.grown, second.afoot⟩

theorem congr (afoot : Afoot mover db) (rows : next.nodeRuns = db.nodeRuns) (ids : db.nextID ≤ next.nextID)
    (journal : next.journal = db.journal) (silent : Silent node mover.nodeRun.node events) :
    Piece mover node opens db events next := by
  have grown : Grown db next := Grown.congr rows ids journal
  exact ⟨Turned.congr afoot.ended rows silent, grown, afoot.onward grown fun run held _ => rows ▸ held⟩

theorem refl (afoot : Afoot mover db) : Piece mover node opens db [] db :=
  congr afoot rfl (Nat.le_refl _) rfl Silent.nil

theorem finish (serial : Serial db) (home : db.At mover.nodeRun.node mover.nodeRun.id)
    (ended : mover.state.terminal = true) (outcome : String) :
    Piece mover node opens db [] (db.finishNodeRun mover.nodeRun mover.state outcome) := by
  have grown : Grown db (db.finishNodeRun mover.nodeRun mover.state outcome) := Grown.finishNodeRun _ _ _
  exact ⟨Turned.finish outcome, grown, serial.grown grown, home.grown grown, ended, HasEnded.finish⟩

theorem added (afoot : Afoot mover db) (grown : Grown db next) {run : NodeRun}
    (rows : next.nodeRuns = db.nodeRuns ++ [run]) (fresh : db.nextID ≤ run.id)
    (turned : Turned mover node opens db events next) : Piece mover node opens db events next := by
  refine ⟨turned, grown, afoot.onward grown fun row held same => ?_⟩
  rw [rows, List.mem_append, List.mem_singleton] at held
  obtain old | rfl := held
  · exact old
  · exact absurd same (Nat.ne_of_gt (Nat.lt_of_lt_of_le afoot.old fresh))

end Piece

theorem silent_transitioned {home : String} {edge : Edge} {entered : Node} {visit : Nat}
    (elsewhere : entered.id ≠ node) : Silent node home [transitioned home edge entered visit] := by
  refine Silent.cons (fun known isKnown => ?_) Silent.nil
  change (if home = "" then known else if entered.id = node then some NodeExecState.ready
    else if entered.id ≠ "" ∧ home = node then some (known.getD .completed) else known) = known
  by_cases unnamed : home = ""
  · rw [if_pos unnamed]
  · rw [if_neg unnamed, if_neg elsewhere]
    by_cases leaves : entered.id ≠ "" ∧ home = node
    · obtain ⟨state, isState⟩ := Option.ne_none_iff_exists'.mp (isKnown leaves.2)
      rw [if_pos leaves, isState]
      rfl
    · rw [if_neg leaves]

theorem silent_dispatched {home : String} {entered : Node} {visit : Nat} (elsewhere : entered.id ≠ node) :
    Silent node home [RunDb.dispatched entered visit] := by
  refine Silent.cons (fun known _ => ?_) Silent.nil
  by_cases human : entered.kind = .approval
  · simp [tell, RunDb.dispatched, human]
  · simp [tell, RunDb.dispatched, human, elsewhere]

/-- A token goes on to a node that is dispatched. -/
theorem Piece.startNode (afoot : Afoot mover db) {edge : Edge} {entered : Node} {parent group : Option Nat}
    {originEvent : Option String} {now : Nat} :
    Piece mover node False db (mover.enterEvents db edge entered)
      (db.startNode entered parent group originEvent now) := by
  have grown : Grown db (db.startNode entered parent group originEvent now) := Grown.startNode _ _ _ _ _
  refine added afoot grown RunDb.startNode_nodeRuns (Nat.le_succ _) ?_
  have after := @RunDb.newest_concat db node _ _ (@RunDb.startNode_nodeRuns db entered now parent group originEvent)
  have other : db.nextID + 1 ≠ mover.nodeRun.id := by
    have old := afoot.old
    omega
  dsimp only at after
  by_cases here : entered.id = node
  · rw [if_pos here] at after
    by_cases human : entered.kind = .approval
    · rw [dispatchState, if_pos human] at after
      refine Turned.human after other ?_
      have journal : (db.startNode entered parent group originEvent now).journal =
          [.wrote (db.nextID + 1) .waitingHuman] ++ db.journal := by
        simp [RunDb.startNode, RunDb.dispatchNode, human, RunDb.insertHumanTask, RunDb.insertNodeRun,
          RunDb.insertToken, dispatchState]
      rw [news_of_append journal]
      exact List.mem_singleton.mpr rfl
    · rw [dispatchState, if_neg human] at after
      refine Turned.ready after other fun known => ?_
      simp [Mover.enterEvents, tell, RunDb.dispatched, human, here]
  · rw [if_neg here] at after
    exact Turned.still afoot.ended after ((silent_transitioned here).append (silent_dispatched here))

theorem silent_joinArrived {home : String} (edge : Edge) : Silent node home [mover.joinArrived join edge] :=
  Silent.cons (fun _ _ => rfl) Silent.nil

theorem Piece.gather (afoot : Afoot mover db) (edge : Edge) (token group : Nat) (fromNode outcome : String)
    (output : Payload) :
    Piece mover node (join.id = node) db [mover.joinArrived join edge]
        (db.gather join token group fromNode outcome output) ∧
      Placed mover (db.gather join token group fromNode outcome output) join (db.joinBarrier join token group).2 := by
  unfold RunDb.gather RunDb.joinBarrier
  cases isOpen : db.openJoinBarrier join.id group with
  | some barrier =>
      obtain ⟨held, sameNode, waits, -⟩ := Keyed.openJoinBarrier_eq_some isOpen
      refine ⟨congr afoot rfl (Nat.le_refl _) rfl (silent_joinArrived edge), ⟨barrier, held, rfl, sameNode⟩, ?_⟩
      intro own
      have terminal := afoot.terminal
      rw [← afoot.ended barrier held own, waits] at terminal
      contradiction
  | none =>
      have old := afoot.old
      have other : db.nextID + 1 ≠ mover.nodeRun.id := by omega
      refine ⟨?_, ⟨_, List.mem_append_right _ (List.mem_singleton.mpr rfl), rfl, rfl⟩, other⟩
      have grown : Grown db ((db.insertToken join.id (some token) (some group) none).insertNodeRun db.nextID join.id
          .waitingJoin) := (Grown.insertToken _ _ _ _).trans (Grown.insertNodeRun _ _ _)
      refine added afoot (grown.trans (Grown.congr rfl (Nat.le_refl _) rfl)) rfl (Nat.le_succ _) ?_
      by_cases here : join.id = node
      · refine Turned.parked here ?_ other ?_ (silent_joinArrived edge)
        · exact (RunDb.newest_concat rfl).trans (if_pos here)
        · rw [@news_of_append _ _ [.wrote (db.nextID + 1) .waitingJoin] rfl]
          exact List.mem_singleton.mpr rfl
      · exact Turned.still afoot.ended ((RunDb.newest_concat rfl).trans (if_neg here)) (silent_joinArrived edge)

section

variable {group now : Nat} {early : Bool}

theorem Piece.mark (afoot : Afoot mover db) (placed : Placed mover db join barrier) (visit : Option Nat) :
    Piece mover node False db [{ type := .nodeRunReady, nodeID := join.id, visit := visit }]
      (db.fireBarrier barrier group false now) := by
  have grown : Grown db (db.fireBarrier barrier group false now) := Grown.fireBarrier _ _ _ _
  have after : (db.fireBarrier barrier group false now).newest node = (db.newest node).map fun row =>
      if decide (row.1 = barrier.id) then (row.1, .ready) else row :=
    @RunDb.newest_update _ _ _ (fun id _ => decide (id = barrier.id)) _ _ rfl fun _ => ⟨rfl, rfl, rfl⟩
  refine ⟨?_, grown, afoot.onward grown fun run held same => ?_⟩
  · by_cases here : join.id = node
    · refine @Turned.fired _ _ _ _ _ _ barrier.id group ?_ (here ▸ placed.at_.grown grown) fun known => ?_
      · rw [@news_of_append _ _ [.fired barrier.id group, .enqueued barrier.id, .wrote barrier.id .ready] rfl]
        exact List.mem_cons_self
      · simp [tell, here]
    · refine Turned.still afoot.ended ?_ (Silent.cons (fun known _ => by simp [tell, here]) Silent.nil)
      rw [after]
      cases found : db.newest node with
      | none => rfl
      | some row =>
          have other : row.1 ≠ barrier.id := fun same => here (afoot.serial.node_eq (same ▸ placed.at_) found)
          simp [other]
  · obtain ⟨old, oldHeld, rfl⟩ := Table.mem_update.mp held
    by_cases hit : decide (old.id = barrier.id) = true
    · rw [if_pos hit] at same
      exact absurd ((of_decide_eq_true hit).symm.trans same) placed.other
    · rw [if_neg hit]
      exact oldHeld

theorem Piece.fire (afoot : Afoot mover db) (placed : Placed mover db join barrier) (visit : Option Nat)
    {tail : List RunEvent} (quiet : Silent node mover.nodeRun.node tail) :
    Piece mover node False db ({ type := .nodeRunReady, nodeID := join.id, visit := visit } :: tail)
      (db.fireBarrier barrier group early now) := by
  have marked : Piece mover node False db [{ type := .nodeRunReady, nodeID := join.id, visit := visit }]
      (db.fireBarrier barrier group false now) := mark afoot placed visit
  cases early with
  | false =>
      exact marked.trans (congr marked.afoot rfl (Nat.le_refl _) rfl quiet) False.elim
  | true =>
      have grown : Grown (db.fireBarrier barrier group false now) (db.fireBarrier barrier group true now) :=
        Grown.reapGroupBranches _ _
      have afterwards : Afoot mover (db.fireBarrier barrier group true now) :=
        ⟨marked.afoot.serial.grown grown, marked.afoot.home.grown grown, marked.afoot.terminal,
          marked.afoot.ended.cancel marked.afoot.spared rfl⟩
      refine marked.trans ⟨?_, grown, afterwards⟩ False.elim
      exact Turned.cancel marked.afoot.ended marked.afoot.spared rfl rfl quiet

end

namespace Goes

variable {group : Nat}

theorem after {result : Except Halt RunDb} (first : Piece mover node opens db events middle)
    (second : Goes mover node later middle more result)
    (quiet : later → opens ∧ Silent node mover.nodeRun.node events) :
    Goes mover node opens db (events ++ more) result := by
  cases result with
  | ok next => exact first.trans second quiet
  | error halt =>
      cases halt with
      | abort error => trivial
      | refuse next failure => exact first.trans second quiet

theorem mono {wider : Prop} {result : Except Halt RunDb} (goes : Goes mover node opens db events result)
    (weaker : opens → wider) : Goes mover node wider db events result := by
  cases result with
  | ok next => exact Piece.mono goes weaker
  | error halt =>
      cases halt with
      | abort error => trivial
      | refuse next failure => exact Piece.mono goes weaker

theorem settleBarrier (afoot : Afoot mover db) (placed : Placed mover db join barrier) (group now : Nat) :
    Goes mover node False db (db.settleEvents join barrier group now) (db.settleBarrier join barrier group now) := by
  unfold RunDb.settleEvents RunDb.settleBarrier
  cases db.tokenGroup? group with
  | none => trivial
  | some row =>
      dsimp only
      by_cases never : (join.joinThreshold row.cardinality).2 = false
      · rw [if_pos never, if_pos never]
        exact Piece.refl afoot
      · rw [if_neg never, if_neg never]
        by_cases short : db.joinArrivalCount barrier.id < (join.joinThreshold row.cardinality).1
        · rw [if_pos short, if_pos short]
          exact Piece.refl afoot
        · rw [if_neg short, if_neg short]
          refine Piece.fire afoot placed _ ?_
          split
          · exact silent_branchesCancelled _
          · exact Silent.nil

/-- A branch that arrives outside a split. -/
theorem arrive (afoot : Afoot mover db) (place : Option Nat) (edge : Edge) :
    Goes mover node (join.id = node) db (mover.arriveEvents db join place edge)
      (mover.arriveAtJoin db join place edge) := by
  unfold Mover.arriveEvents Mover.arriveAtJoin
  cases place with
  | none => exact Piece.refl afoot
  | some group =>
      cases recorded : mover.recordArrival db join mover.nodeRun.token (some group) edge with
      | error halt =>
          obtain ⟨error, rfl⟩ := Mover.recordArrival_error recorded
          trivial
      | ok next =>
          obtain ⟨own, isGroup, rfl⟩ := Mover.recordArrival_ok recorded
          obtain rfl := Option.some.inj isGroup
          obtain ⟨gathered, placed⟩ := Piece.gather afoot edge mover.nodeRun.token group mover.nodeRun.node
            edge.fromOutcome mover.output
          exact after gathered (settleBarrier gathered.afoot placed group mover.now) False.elim

theorem settleBarrier_refuse {reached : RunDb} {failure : Failure} {now : Nat}
    (ran : db.settleBarrier join barrier group now = .error (.refuse reached failure)) : reached = db := by
  unfold RunDb.settleBarrier at ran
  split at ran
  · exact absurd (Except.error.inj ran) Halt.noConfusion
  · dsimp only at ran
    split at ran
    · exact (Halt.refuse.inj (Except.error.inj ran)).1.symm
    · split at ran
      · contradiction
      · contradiction

/-- The barriers that a split has fed. -/
theorem settlePending {pending : List (Node × NodeRun)} (afoot : Afoot mover db)
    (placed : ∀ entry ∈ pending, Placed mover db entry.1 entry.2) :
    Goes mover node False db (mover.settlePendingEvents group db pending)
      (mover.settlePending group db pending) := by
  induction pending generalizing db with
  | nil => exact Piece.refl afoot
  | cons entry rest ih =>
      obtain ⟨join, barrier⟩ := entry
      have settles : Goes mover node False db _ _ :=
        settleBarrier afoot (placed _ List.mem_cons_self) group mover.now
      rw [Mover.settlePending, Mover.settlePendingEvents]
      cases ran : db.settleBarrier join barrier group mover.now with
      | error halt =>
          cases halt with
          | abort error => trivial
          | refuse reached failure =>
              rw [settleBarrier_refuse ran]
              exact Piece.refl afoot
      | ok settled =>
          rw [ran] at settles
          have first : Piece mover node False db _ settled := settles
          refine after first (ih first.afoot fun entry held => ?_) False.elim
          exact (placed entry (List.mem_cons_of_mem _ held)).grown first.grown

end Goes

section

variable {wf : Workflow} {group : Nat} {edge : Edge} {edges : List Edge} {spread branched : Spread}

theorem Piece.spreadBranch (afoot : Afoot mover spread.db)
    (placed : ∀ entry ∈ spread.pending, Placed mover spread.db entry.1 entry.2)
    (ran : mover.spreadBranch wf group spread edge = .ok branched) :
    Piece mover node (wf.kind? node = some .join) spread.db (mover.spreadBranchEvents wf spread edge) branched.db ∧
      (wf.kind? node = some .join → Silent node mover.nodeRun.node (mover.spreadBranchEvents wf spread edge)) ∧
      ∀ entry ∈ branched.pending, Placed mover branched.db entry.1 entry.2 := by
  unfold Mover.spreadBranch at ran
  split at ran
  · contradiction
  · rename_i entered found
    have declared : wf.kind? entered.id = some entered.kind := wf.node?_declared found
    rw [Mover.spreadBranchEvents, found]
    dsimp only
    split at ran
    · rename_i isJoin
      rw [if_pos isJoin]
      dsimp only at ran
      split at ran
      · contradiction
      · rename_i recorded barrier arrived
        obtain ⟨own, isGroup, pair⟩ := Mover.recordArrival_ok arrived
        obtain rfl := Option.some.inj isGroup
        obtain ⟨rfl, rfl⟩ := Prod.mk.inj pair
        rw [← Except.ok.inj ran]
        have moved : Piece mover node (wf.kind? node = some .join) spread.db [] ((spread.db.insertToken entered.id
            (some mover.nodeRun.token) (some group) none).consumeToken spread.db.nextID) :=
          congr afoot rfl (Nat.le_succ _) rfl Silent.nil
        obtain ⟨gathered, stands⟩ := Piece.gather moved.afoot edge spread.db.nextID group mover.nodeRun.node
          edge.fromOutcome mover.output
        have whole := moved.trans gathered fun here => ⟨by rw [← here, declared, isJoin], Silent.nil⟩
        refine ⟨whole, fun _ => silent_joinArrived edge, fun entry held => ?_⟩
        unfold appendPendingBarrier at held
        split at held
        · exact (placed entry held).grown whole.grown
        · obtain old | new := List.mem_append.mp held
          · exact (placed entry old).grown whole.grown
          · rw [List.mem_singleton.mp new]
            exact stands
    · rename_i notJoin
      rw [if_neg notJoin, ← Except.ok.inj ran]
      have started : Piece mover node False spread.db (mover.enterEvents spread.db edge entered)
          (spread.db.startNode entered (some mover.nodeRun.token) (some group) none mover.now) := startNode afoot
      refine ⟨started.mono False.elim, fun isJoin => ?_, fun entry held =>
        (placed entry held).grown started.grown⟩
      have elsewhere : entered.id ≠ node := fun here => by
        rw [← here, declared] at isJoin
        exact notJoin (Option.some.inj isJoin)
      exact (silent_transitioned elsewhere).append (silent_dispatched elsewhere)

theorem Piece.spreadBranches (afoot : Afoot mover spread.db)
    (placed : ∀ entry ∈ spread.pending, Placed mover spread.db entry.1 entry.2)
    (ran : mover.spreadBranches wf group spread edges = .ok branched) :
    Piece mover node (wf.kind? node = some .join) spread.db (mover.spreadEvents wf group spread edges) branched.db ∧
      (wf.kind? node = some .join → Silent node mover.nodeRun.node (mover.spreadEvents wf group spread edges)) ∧
      ∀ entry ∈ branched.pending, Placed mover branched.db entry.1 entry.2 := by
  induction edges generalizing spread with
  | nil =>
      rw [← Except.ok.inj ran]
      exact ⟨refl afoot, fun _ => Silent.nil, placed⟩
  | cons edge rest ih =>
      rw [Mover.spreadBranches] at ran
      rw [Mover.spreadEvents]
      cases first : mover.spreadBranch wf group spread edge with
      | error halt =>
          rw [first] at ran
          contradiction
      | ok middle =>
          rw [first] at ran
          obtain ⟨piece, silent, stand⟩ := @Piece.spreadBranch mover node wf group edge spread middle afoot placed first
          obtain ⟨onward, unsaid, all⟩ := ih piece.afoot stand ran
          exact ⟨piece.trans onward fun isJoin => ⟨isJoin, silent isJoin⟩, fun isJoin =>
            (silent isJoin).append (unsaid isJoin), all⟩

/-- A split. -/
theorem Goes.fanOut (afoot : Afoot mover db) (place : Option Nat) (targets : List Edge) :
    Goes mover node (wf.kind? node = some .join) db (mover.fanOutEvents wf db place targets)
      (mover.fanOut wf db place targets) := by
  have opened : Piece mover node (wf.kind? node = some .join) db [{ type := .tokenSplit, nodeID := mover.nodeRun.node }]
      (db.insertTokenGroup mover.nodeRun.id place targets.length) :=
    Piece.congr afoot rfl (Nat.le_succ _) rfl (Silent.cons (fun _ _ => rfl) Silent.nil)
  unfold Mover.fanOutEvents Mover.fanOut
  dsimp only
  cases ran : mover.spreadBranches wf db.nextID
      ⟨db.insertTokenGroup mover.nodeRun.id place targets.length, []⟩ targets with
  | error halt =>
      obtain ⟨error, rfl⟩ := Mover.spreadBranches_error ran
      trivial
  | ok branched =>
      obtain ⟨piece, -, stand⟩ := @Piece.spreadBranches mover node wf _ _ _ _ opened.afoot (by simp) ran
      have first := opened.trans piece fun isJoin => ⟨isJoin, Silent.cons (fun _ _ => rfl) Silent.nil⟩
      exact after first (settlePending first.afoot stand) False.elim

end

end

end CultureNodes.Web
