import CultureNodes.Engine.Refine

/-!
Node runs that wait for a person. Each has an active token for as long as it waits, so none is left when a run
ends: a run completes when no token is active, and every other end cancels what is still open.
-/

namespace CultureNodes.Engine

/-- A node run that waits for a person has an active token, and in a run that has ended none waits. -/
structure Awaited (db : RunDb) : Prop where
  manned : ∀ run ∈ db.nodeRuns, run.state = .waitingHuman →
    ∃ token ∈ db.tokens, token.id = run.token ∧ token.active = true
  quiet : db.state.terminal = true → ∀ run ∈ db.nodeRuns, run.state ≠ .waitingHuman

namespace Awaited

variable {wf : Workflow} {db next : RunDb}

theorem of_none (none : ∀ run ∈ next.nodeRuns, run.state ≠ .waitingHuman) : Awaited next :=
  ⟨fun run member waits => absurd waits (none run member), fun _ => none⟩

theorem congr (awaited : Awaited db) (sameRuns : next.nodeRuns = db.nodeRuns) (sameTokens : next.tokens = db.tokens)
    (sameState : next.state.terminal = true → db.state.terminal = true) : Awaited next := by
  refine ⟨?_, fun ended => ?_⟩
  · rw [sameRuns, sameTokens]
    exact awaited.manned
  · rw [sameRuns]
    exact awaited.quiet (sameState ended)

theorem add (awaited : Awaited db) {token : Token} {run : NodeRun} (owned : run.token = token.id)
    (active : token.active = true) (sameRuns : next.nodeRuns = db.nodeRuns ++ [run])
    (sameTokens : next.tokens = db.tokens ++ [token]) (running : next.state.terminal = false) : Awaited next := by
  refine ⟨?_, fun ended => absurd ended (by rw [running]; exact Bool.false_ne_true)⟩
  rw [sameRuns, sameTokens]
  intro other member waits
  rcases List.mem_append.mp member with old | new
  · obtain ⟨mate, mateMember, owns⟩ := awaited.manned other old waits
    exact ⟨mate, List.mem_append_left _ mateMember, owns⟩
  · rw [List.mem_singleton.mp new]
    exact ⟨token, List.mem_append_right _ (List.mem_singleton_self token), owned.symm, active⟩

theorem rewrite (awaited : Awaited db) {changes : NodeRun → Bool} {write : NodeRun → NodeRun}
    {consumes : Token → Bool} (sameRuns : next.nodeRuns = Table.update db.nodeRuns changes write)
    (sameTokens : next.tokens = Table.update db.tokens consumes (fun token => { token with active := false }))
    (sameState : next.state.terminal = true → db.state.terminal = true)
    (wakes : ∀ run, (write run).state ≠ .waitingHuman)
    (spares : ∀ run ∈ db.nodeRuns, run.state = .waitingHuman → changes run = false →
      ∀ token ∈ db.tokens, token.id = run.token → consumes token = false) : Awaited next := by
  have stays : ∀ run ∈ next.nodeRuns, run.state = .waitingHuman → run ∈ db.nodeRuns ∧ changes run = false := by
    intro run member waits
    rw [sameRuns] at member
    obtain ⟨old, oldMember, rfl⟩ := Table.mem_update.mp member
    by_cases hit : changes old = true
    · rw [if_pos hit] at waits
      exact absurd waits (wakes old)
    · rw [if_neg hit]
      exact ⟨oldMember, Bool.eq_false_iff.mpr hit⟩
  refine ⟨fun run member waits => ?_, fun ended run member waits => ?_⟩
  · obtain ⟨held, unchanged⟩ := stays run member waits
    obtain ⟨token, tokenMember, owns, active⟩ := awaited.manned run held waits
    have kept := Table.mem_update_of_mem consumes (fun token : Token => { token with active := false }) tokenMember
    rw [spares run held waits unchanged token tokenMember owns] at kept
    exact ⟨token, sameTokens ▸ kept, owns, active⟩
  · exact awaited.quiet (sameState ended) run (stays run member waits).1 waits

theorem mark (awaited : Awaited db) {changes : NodeRun → Bool} {write : NodeRun → NodeRun}
    (sameRuns : next.nodeRuns = Table.update db.nodeRuns changes write) (sameTokens : next.tokens = db.tokens)
    (sameState : next.state.terminal = true → db.state.terminal = true)
    (wakes : ∀ run, (write run).state ≠ .waitingHuman) : Awaited next :=
  awaited.rewrite sameRuns (sameTokens.trans Table.update_false.symm) sameState wakes fun _ _ _ _ _ _ _ => rfl

theorem startNode (awaited : Awaited db) (node : Node) (parent group : Option Nat) (originEvent : Option String)
    (now : Nat) (running : db.state.terminal = false) : Awaited (db.startNode node parent group originEvent now) :=
  awaited.add rfl rfl RunDb.startNode_nodeRuns RunDb.startNode_tokens (by rw [RunDb.startNode_state, running])

theorem finishNodeRun (awaited : Awaited db) (keyed : Keyed wf db) {own : NodeRun} {state : NodeRunState}
    (outcome : String) (known : ∃ run ∈ db.nodeRuns, run.stand = own.stand) (terminal : state.terminal = true) :
    Awaited (db.finishNodeRun own state outcome) := by
  obtain ⟨row, rowMember, stands⟩ := known
  have sameID : row.id = own.id := congrArg Prod.fst stands
  have sameToken : row.token = own.token := congrArg (fun stand => stand.2.1) stands
  refine awaited.rewrite rfl rfl id (fun run waits => ?_) fun run member _ unchanged token _ owns => ?_
  · rw [show state = .waitingHuman from waits] at terminal
    contradiction
  · rw [Bool.and_eq_false_iff]
    refine Or.inl (decide_eq_false fun isOwn => ?_)
    have isRow := keyed.owner_eq member rowMember (owns.symm.trans (isOwn.trans sameToken.symm))
    rw [isRow, sameID] at unchanged
    simp at unchanged

theorem reachEnd (awaited : Awaited db) (keyed : Keyed wf db) (node : Node) (parent group : Option Nat)
    (running : db.state.terminal = false) : Awaited (db.reachEnd node parent group) := by
  have entered : Awaited ((db.insertToken node.id parent group none).insertNodeRun db.nextID node.id
      (dispatchState node.kind)) := awaited.add rfl rfl rfl rfl running
  refine entered.rewrite rfl rfl id (fun _ => NodeRunState.noConfusion) fun run member _ unchanged token _ owns => ?_
  rcases List.mem_append.mp member with old | new
  · rw [Bool.and_eq_false_iff]
    refine Or.inl (decide_eq_false fun isNew => ?_)
    exact keyed.fresh_token run old (owns.symm.trans isNew)
  · rw [List.mem_singleton.mp new] at unchanged
    simp [RunDb.insertToken] at unchanged

theorem gather (awaited : Awaited db) (join : Node) (token group : Nat) (fromNode outcome : String)
    (output : Payload) (running : db.state.terminal = false) :
    Awaited (db.gather join token group fromNode outcome output) := by
  have parked : Awaited (db.joinBarrier join token group).1 := by
    unfold RunDb.joinBarrier
    split
    · exact awaited
    · exact awaited.add rfl rfl rfl rfl running
  exact parked.congr rfl rfl id

/-- A branch is cancelled with its token. -/
theorem fireBarrier (awaited : Awaited db) (barrier : NodeRun) (group : Nat) (early : Bool)
    (now : Nat) : Awaited (db.fireBarrier barrier group early now) := by
  let marked : RunDb :=
    { (db.updateNodeRun barrier.id .ready "").enqueueWork barrier.id now with
      journal := .fired barrier.id group ::
        ((db.updateNodeRun barrier.id .ready "").enqueueWork barrier.id now).journal }
  have ready : Awaited marked := awaited.mark rfl rfl id fun _ => NodeRunState.noConfusion
  cases early with
  | false => exact ready
  | true =>
      refine ready.rewrite rfl rfl id (fun _ => NodeRunState.noConfusion)
        fun run member waits kept token held owns => ?_
      rw [Bool.and_eq_false_iff]
      refine Or.inr (Bool.eq_false_iff.mpr fun losing => ?_)
      refine Bool.eq_false_iff.mp kept (List.contains_iff_mem.mpr (List.mem_map_of_mem ?_))
      refine List.mem_filter.mpr ⟨member, ?_⟩
      simp only [waits, NodeRunState.terminal, Bool.not_false, Bool.true_and]
      exact List.any_eq_true.mpr ⟨token, held, by simp [owns, losing]⟩

end Awaited

section

variable {env : Env} {wf : Workflow} {strict calm : Prop} {db next : RunDb} {here there : Hand × RunDb}

theorem none_waits_of_cancelled {chosen : NodeRun → Bool}
    (others : ∀ run ∈ db.nodeRuns, run.state = .waitingHuman → chosen run = true)
    (sameRuns : next.nodeRuns = Table.update db.nodeRuns
      (fun run => ((db.nodeRuns.filter fun run => !run.state.terminal && chosen run).map
        NodeRun.id).contains run.id) (fun run => { run with state := .cancelled })) :
    ∀ run ∈ next.nodeRuns, run.state ≠ .waitingHuman := by
  intro run member waits
  rw [sameRuns] at member
  obtain ⟨old, oldMember, rfl⟩ := Table.mem_update.mp member
  split at waits
  · contradiction
  · rename_i missed
    refine missed (List.contains_iff_mem.mpr (List.mem_map_of_mem (List.mem_filter.mpr ⟨oldMember, ?_⟩)))
    simp [waits, NodeRunState.terminal, others old oldMember waits]

theorem Awaited.workStatement {action : Store.WorkAction} (awaited : Awaited db)
    (stated : db.workStatement wf action = some next) : Awaited next := by
  unfold RunDb.workStatement at stated
  split at stated
  · contradiction
  · dsimp only at stated
    split at stated
    · contradiction
    · rename_i after _
      have moved : Awaited { db with work := after.tables } := awaited.congr rfl rfl id
      have frozen : ∀ {rows : RunDb}, Awaited rows → Awaited (rows.freeze action) := by
        intro rows held
        unfold RunDb.freeze
        split
        · exact held.congr rfl rfl fun ended => Bool.noConfusion ended
        · exact held
      rw [← Option.some.inj stated]
      apply frozen
      split
      · exact moved
      · unfold RunDb.markFor
        split
        · exact moved.mark rfl rfl id fun _ => NodeRunState.noConfusion
        · exact moved.mark rfl rfl id fun _ => NodeRunState.noConfusion
        · exact moved.mark rfl rfl id fun _ => NodeRunState.noConfusion
        · exact moved.mark rfl rfl id fun _ => NodeRunState.noConfusion
        · exact moved.mark rfl rfl id fun _ => NodeRunState.noConfusion
        · exact moved

theorem Turn.awaited (turn : Turn wf strict calm here there) (standing : Standing wf here)
    (awaited : Awaited here.2) : Awaited there.2 := by
  obtain ⟨keyed, lies, busy⟩ := standing
  cases turn with
  | note tasks attempts => exact awaited.congr rfl rfl id
  | work stated => exact awaited.workStatement stated
  | hold _ _ => exact awaited.congr rfl rfl id
  | retry availableAt _ _ _ _ => exact awaited.mark rfl rfl id fun _ => NodeRunState.noConfusion
  | pickUp event now running _ _ _ _ _ => exact awaited.startNode _ _ _ _ _ running
  | @cancel db next parkedAt detail cancelled =>
      rw [← RunDb.cancelRunGuarded_eq_some cancelled]
      refine .of_none (@none_waits_of_cancelled db _ (fun _ => true) (fun _ _ _ => rfl) ?_)
      simp only [Bool.and_true]
      rfl
  | finish recorded member _ _ terminal _ _ => exact awaited.finishNodeRun keyed recorded ⟨_, member, rfl⟩ terminal
  | put parent now _ _ _ => exact awaited.startNode _ _ _ _ _ (busy Hand.noConfusion)
  | reachEnd parent _ _ => exact awaited.reachEnd keyed _ _ _ (busy Hand.noConfusion)
  | arrive token fromNode outcome output _ _ => exact awaited.gather _ _ _ _ _ _ (busy Hand.noConfusion)
  | split nodeRun => exact awaited.congr rfl rfl id
  | putBranch parent now _ _ => exact awaited.startNode _ _ _ _ _ (busy Hand.noConfusion)
  | @arriveBranch db group edge rest join parent fromNode outcome output _ _ =>
      have running : db.state.terminal = false := busy Hand.noConfusion
      have placed : Awaited ((db.insertToken join.id parent (some group) none).consumeToken db.nextID) := by
        refine ⟨fun run member waits => ?_, fun ended => absurd ended (by
          rw [show ((db.insertToken join.id parent (some group) none).consumeToken db.nextID).state = db.state from rfl,
            running]
          exact Bool.false_ne_true)⟩
        obtain ⟨token, held, owns, active⟩ := awaited.manned run member waits
        have kept := Table.mem_update_of_mem (fun token : Token => token.id = db.nextID && token.active)
          (fun token => { token with active := false }) (List.mem_append_left
            [(⟨db.nextID, join.id, true, parent, some group, none⟩ : Token)] held)
        have old : ¬token.id = db.nextID := Nat.ne_of_lt (keyed.tokensOld token held)
        rw [if_neg (by simp [old])] at kept
        exact ⟨token, kept, owns, active⟩
      exact placed.gather _ _ _ _ _ _ running
  | spread => exact awaited
  | fire now _ _ _ _ _ => exact awaited.fireBarrier _ _ _ _
  | settled _ => exact awaited
  | abandon _ => exact awaited
  | refinish recorded terminal known _ => exact awaited.finishNodeRun keyed recorded known terminal
  | reap keep kept =>
      refine .of_none (none_waits_of_cancelled (fun run member waits => ?_) rfl)
      refine decide_eq_true fun isKept => ?_
      have ended := kept run member isKept
      rw [waits] at ended
      contradiction
  | retire => exact awaited.congr rfl rfl id
  | @conclude db state output ending _ idle _ =>
      refine .of_none fun run member waits => ?_
      obtain ⟨token, held, _, active⟩ := awaited.manned run member waits
      exact List.countP_eq_zero.mp idle token held active

theorem Turns.awaited (turns : Turns wf strict calm here there) (standing : Standing wf here)
    (awaited : Awaited here.2) : Awaited there.2 := by
  have both : Standing wf there ∧ Awaited there.2 := by
    induction turns with
    | refl => exact ⟨standing, awaited⟩
    | tail _ turn ih => exact ⟨turn.standing ih.1, turn.awaited ih.1 ih.2⟩
  exact both.2

end

end CultureNodes.Engine
