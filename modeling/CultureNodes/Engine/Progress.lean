import CultureNodes.Engine.Firing

/-!
No run hangs at its barriers. The condition is on each step: the last branch of a group to arrive
fires the barrier it arrives at, or the run is failed. Where it is not met, the branches of a group
wait at different barriers for one another.
-/

namespace CultureNodes.Engine

/-- The group whose barriers the hand still has to settle. -/
def Hand.group? : Hand → Option Nat
  | .spreading group _ | .settling group => some group
  | _ => none

/-- Every group that has not fired, and is not being settled, still waits for a branch. -/
structure Patient (here : Hand × RunDb) : Prop where
  waits : ∀ group ∈ here.2.groupTree.map Prod.fst, here.2.firedIn group = false →
    here.1.group? ≠ some group → here.2.arrivedIn group < here.2.cardinalityOf group

section

variable {wf : Workflow} {strict calm : Prop} {db next : RunDb} {hand after : Hand}
  {here there : Hand × RunDb}

theorem Patient.congr (patient : Patient (hand, db)) (groups : next.tokenGroups = db.tokenGroups)
    (arrivals : next.joinArrivals = db.joinArrivals) (fired : next.firedGroups = db.firedGroups)
    (sameHand : hand.group? = none ∨ after.group? = hand.group?) : Patient (after, next) := by
  refine ⟨fun group known unfired apart => ?_⟩
  simp only [RunDb.arrivedIn, RunDb.cardinalityOf, RunDb.groupTree, arrivals, groups,
    RunDb.tokenGroup?_congr groups, RunDb.firedIn_eq, fired] at known unfired ⊢
  refine patient.waits group known (RunDb.firedIn_eq.trans unfired) ?_
  rcases sameHand with isFree | same
  · simp [isFree]
  · exact same ▸ apart

theorem Patient.gather (patient : Patient (hand, db)) {join : Node} {token group : Nat}
    {fromNode outcome : String} {output : Payload}
    (settles : after.group? = some group) (held : hand.group? = none ∨ hand.group? = some group) :
    Patient (after, db.gather join token group fromNode outcome output) := by
  refine ⟨fun other known unfired apart => ?_⟩
  have different : ¬ group = other := fun same => apart (same ▸ settles)
  have sameArrived : (db.gather join token group fromNode outcome output).arrivedIn other =
      db.arrivedIn other := by
    simp [RunDb.arrivedIn, different]
  have sameCard : (db.gather join token group fromNode outcome output).cardinalityOf other =
      db.cardinalityOf other := by
    simp [RunDb.cardinalityOf, RunDb.tokenGroup?_congr RunDb.gather_tokenGroups]
  have sameTree : (db.gather join token group fromNode outcome output).groupTree = db.groupTree := by
    simp [RunDb.groupTree]
  rw [sameArrived, sameCard]
  refine patient.waits other (sameTree ▸ known) ?_ ?_
  · rw [RunDb.firedIn_eq, RunDb.gather_firedGroups, ← RunDb.firedIn_eq] at unfired
    exact unfired
  · rcases held with isFree | isGroup
    · simp [isFree]
    · intro same
      exact different (Option.some.inj (isGroup.symm.trans same))

/-- A calm turn leaves every group waiting for someone, unless it is being settled or the run ends. -/
theorem Turn.patient (turn : Turn wf strict calm here there) (isCalm : calm)
    (standing : Standing wf here)
    (patient : here.1 ≠ .ending → here.2.state.terminal = false → Patient here) :
    there.1 ≠ .ending → there.2.state.terminal = false → Patient there := by
  intro held running
  have busy : here.1 ≠ .idle → here.1 ≠ .ending → Patient here := fun isBusy isHeld =>
    patient isHeld (standing.busy isBusy)
  cases turn with
  | note tasks attempts =>
      exact (patient Hand.noConfusion running).congr rfl rfl rfl (Or.inl rfl)
  | work acted =>
      obtain ⟨_, groups, arrivals, wasRunning⟩ := workStatement_tokens acted
      exact (patient Hand.noConfusion (wasRunning running)).congr groups arrivals
        (RunDb.workStatement_firedGroups acted) (Or.inl rfl)
  | hold _ wasRunning => exact (patient Hand.noConfusion wasRunning).congr rfl rfl rfl (Or.inl rfl)
  | retry availableAt _ _ wasRunning _ =>
      exact (patient Hand.noConfusion wasRunning).congr rfl rfl rfl (Or.inl rfl)
  | pickUp event now wasRunning _ _ _ _ _ =>
      exact (patient Hand.noConfusion wasRunning).congr RunDb.startNode_tokenGroups
        RunDb.startNode_joinArrivals (RunDb.startNode_firedGroups _ _ _ _ _) (Or.inl rfl)
  | cancel cancelled =>
      rw [(RunDb.cancelRunGuarded_firedGroups cancelled).2] at running
      contradiction
  | finish recorded _ _ wasRunning _ _ _ =>
      exact (patient Hand.noConfusion wasRunning).congr rfl rfl rfl (Or.inl rfl)
  | put parent now _ _ _ =>
      exact (busy Hand.noConfusion Hand.noConfusion).congr RunDb.startNode_tokenGroups
        RunDb.startNode_joinArrivals (RunDb.startNode_firedGroups _ _ _ _ _) (Or.inl rfl)
  | reachEnd parent _ _ => exact absurd rfl held
  | arrive token fromNode outcome output _ _ =>
      exact (busy Hand.noConfusion Hand.noConfusion).gather rfl (Or.inl rfl)
  | @split db place edges nodeRun =>
      refine ⟨fun group known unfired apart => ?_⟩
      have different : group ≠ db.nextID := fun same => apart (same ▸ rfl)
      have reversed : ¬ db.nextID = group := fun same => different same.symm
      have older : group ∈ db.groupTree.map Prod.fst := by
        rcases List.mem_cons.mp known with isNew | old
        · exact absurd isNew different
        · exact old
      have sameCard : (db.insertTokenGroup nodeRun place edges.length).cardinalityOf group =
          db.cardinalityOf group := by
        simp [RunDb.cardinalityOf, RunDb.tokenGroup?, RunDb.insertTokenGroup, reversed]
      rw [sameCard]
      exact (busy Hand.noConfusion Hand.noConfusion).waits group older unfired
        (Option.some_ne_none group).symm
  | putBranch parent now _ _ =>
      exact (busy Hand.noConfusion Hand.noConfusion).congr RunDb.startNode_tokenGroups
        RunDb.startNode_joinArrivals (RunDb.startNode_firedGroups _ _ _ _ _) (Or.inr rfl)
  | @arriveBranch db group edge rest join parent fromNode outcome output _ _ =>
      have placed : Patient (.spreading group (edge :: rest),
          (db.insertToken join.id parent (some group) none).consumeToken db.nextID) :=
        (busy Hand.noConfusion Hand.noConfusion).congr rfl rfl rfl (Or.inr rfl)
      exact placed.gather rfl (Or.inr rfl)
  | spread => exact (busy Hand.noConfusion Hand.noConfusion).congr rfl rfl rfl (Or.inr rfl)
  | @fire db group barrier join row now _ _ _ _ =>
      refine ⟨fun other known unfired apart => ?_⟩
      have different : other ≠ group := fun same => apart (same ▸ rfl)
      rw [fireBarrier_firedIn_eq, Function.update_of_ne different] at unfired
      simp only [RunDb.arrivedIn, RunDb.cardinalityOf, RunDb.groupTree, RunDb.fireBarrier_joinArrivals,
        RunDb.fireBarrier_tokenGroups, RunDb.tokenGroup?_congr RunDb.fireBarrier_tokenGroups] at known ⊢
      exact (busy Hand.noConfusion Hand.noConfusion).waits other known unfired apart
  | @settled db group settled =>
      refine ⟨fun other known unfired _ => ?_⟩
      by_cases isGroup : other = group
      · rcases settled isCalm with fired | waits
        · rw [isGroup, fired] at unfired
          contradiction
        · exact isGroup ▸ waits
      · exact (busy Hand.noConfusion Hand.noConfusion).waits other known unfired
          fun same => isGroup (Option.some.inj same).symm
  | abandon _ => exact absurd rfl held
  | refinish recorded _ _ _ => exact absurd rfl held
  | reap keep _ => exact absurd rfl held
  | retire => exact absurd rfl held
  | @conclude db state output ending terminal _ _ =>
      rw [show (db.updateRunState state output ending).state = state from rfl, terminal] at running
      contradiction

theorem Turns.patient (turns : Turns wf strict calm here there) (isCalm : calm)
    (standing : Standing wf here) (patient : Patient here) :
    there.1 ≠ .ending → there.2.state.terminal = false → Patient there := by
  induction turns with
  | refl => exact fun _ _ => patient
  | tail earlier turn ih => exact turn.patient isCalm (Turns.standing earlier standing) ih

theorem Created.patient (created : Created wf db) : Patient (.idle, db) := by
  refine ⟨fun group known => ?_⟩
  rw [RunDb.groupTree, created.tokenGroups] at known
  contradiction

theorem Game.moving (game : Game wf (.idle, db)) (keyed : Keyed wf db) (linked : Linked db)
    {place : Option Nat}
    (moves : 0 < (nest wf .idle db).threads place ∨ ∃ group ∈ place,
      (nest wf .idle db).fired group = true ∧ 0 < (nest wf .idle db).barriers group) :
    ∃ run ∈ db.nodeRuns, run.state.terminal = false ∧ run.state ≠ .waitingJoin ∧
      ∃ token ∈ db.tokens, token.id = run.token ∧ token.group = place := by
  have owner : ∀ token ∈ db.tokens, token.active = true → ∃ run ∈ db.nodeRuns,
      run.token = token.id ∧ run.state.terminal = false := by
    intro token member active
    obtain ⟨run, runMember, owns⟩ := linked.paired.manned token member active
    have mirrored := linked.paired.mirrored run runMember token member owns.symm
    rw [active] at mirrored
    exact ⟨run, runMember, owns, by simpa using mirrored.symm⟩
  rcases moves with thread | ⟨group, isPlace, fired, barrier⟩
  · obtain ⟨token, member, active, counted⟩ := RunDb.exists_of_activeCount_pos thread
    obtain ⟨run, runMember, owns, isOpen⟩ := owner token member active
    obtain ⟨inPlace, notBarrier⟩ := Bool.and_eq_true_iff.mp counted
    refine ⟨run, runMember, isOpen, fun waits => ?_, token, member, owns.symm,
      of_decide_eq_true inPlace⟩
    obtain ⟨_, mate, mateMember, mateOwns, grouped⟩ := keyed.parked run runMember waits
    obtain ⟨group, inGroup⟩ := Option.isSome_iff_exists.mp grouped
    obtain ⟨_, _, isBarrier⟩ :=
      linked.barrier_counted keyed runMember mateMember mateOwns inGroup waits
    rw [← keyed.token_eq mateMember member (mateOwns.trans owns), isBarrier] at notBarrier
    contradiction
  · obtain ⟨token, member, active, counted⟩ := RunDb.exists_of_activeCount_pos barrier
    obtain ⟨run, runMember, owns, isOpen⟩ := owner token member active
    obtain ⟨inGroup, isBarrier⟩ := Bool.and_eq_true_iff.mp counted
    have tokenGroup : token.group = some group := of_decide_eq_true inGroup
    refine ⟨run, runMember, isOpen, fun waits => ?_, token, member, owns.symm,
      tokenGroup.trans isPlace.symm⟩
    have unfired := (game.barriers.waits run runMember token member owns.symm isBarrier isOpen group
      tokenGroup).mp waits
    rw [show db.firedIn group = true from fired] at unfired
    contradiction

end

/-- The conditions under which a step leaves nobody waiting for nobody. -/
def StepSettles (env : Env) (wf : Workflow) (db : RunDb) (action : Action) : Prop :=
  FanOutSafe env wf db action ∧ GroupsSettle env wf db action

/-- The same as a check. -/
def stepSettles (env : Env) (wf : Workflow) (db : RunDb) (action : Action) : Bool :=
  (action.prepare env wf db).all fun prepared => prepared.firesOnce env wf && prepared.settles env wf

theorem StepSettles.of_check {env : Env} {wf : Workflow} {db : RunDb} {action : Action}
    (passes : stepSettles env wf db action = true) : StepSettles env wf db action := by
  have both : ∀ prepared ∈ action.prepare env wf db,
      prepared.firesOnce env wf = true ∧ prepared.settles env wf = true := by
    intro prepared isPrepared
    rw [stepSettles, Option.mem_def.mp isPrepared] at passes
    exact Bool.and_eq_true_iff.mp passes
  exact ⟨fun prepared isPrepared => (both prepared isPrepared).1,
    fun prepared isPrepared => (both prepared isPrepared).2⟩

section

variable {env : Env} {wf : Workflow} {db : RunDb}

/-- Some node run of a run that goes on is not held up at a barrier, and behind every barrier that
waits there is one in the barrier's own group or below it. -/
theorem never_only_waiting (noEvents : wf.eventEdges = []) (reaches : Reaches env wf (StepSettles env wf) db)
    (running : db.state.terminal = false) :
    (∃ run ∈ db.nodeRuns, run.state.terminal = false ∧ run.state ≠ .waitingJoin) ∧
    ∀ barrier ∈ db.nodeRuns, barrier.state = .waitingJoin →
      ∃ token ∈ db.tokens, token.id = barrier.token ∧ ∃ group ∈ token.group,
        ∃ run ∈ db.nodeRuns, run.state.terminal = false ∧ run.state ≠ .waitingJoin ∧
          ∃ branch ∈ db.tokens, branch.id = run.token ∧
            group ∈ Forest.chain db.groupTree branch.group := by
  have safe : ∀ db action, StepSettles env wf db action → FanOutSafe env wf db action :=
    fun _ _ both => both.1
  obtain ⟨keyed, linked, _⟩ := reaches.linked safe
  have game : Game wf (.idle, db) := (reaches.counted safe).game Hand.noConfusion running
  have patient : Patient (.idle, db) := by
    obtain ⟨created, initial, turns⟩ := reaches.turns True True (fun _ => safe)
      fun _ => ⟨trivial, fun _ _ both => both.2⟩
    exact Turns.patient turns trivial initial.standing initial.patient Hand.noConfusion running
  have waits : ∀ group, (nest wf .idle db).fired group = false → (nest wf .idle db).Open group →
      (nest wf .idle db).arrived group < (nest wf .idle db).card group := by
    intro group unfired isOpen
    obtain ⟨place, _, within⟩ := isOpen
    exact patient.waits group (Forest.mem_keys_of_mem_chain within) unfired
      (Option.some_ne_none group).symm
  constructor
  · have alive : 0 < (nest wf .idle db).live none := by
      rw [game.alone noEvents]
      exact Nat.one_pos
    obtain ⟨below, _, moves⟩ := game.sound.progress waits alive fun key isKey => by simp at isKey
    obtain ⟨run, member, isOpen, notWaiting, _⟩ := game.moving keyed linked moves
    exact ⟨run, member, isOpen, notWaiting⟩
  · intro barrier member isWaiting
    obtain ⟨_, mate, mateMember, owns, grouped⟩ := keyed.parked barrier member isWaiting
    obtain ⟨group, inGroup⟩ := Option.isSome_iff_exists.mp grouped
    obtain ⟨active, isIn, isBarrier⟩ :=
      linked.barrier_counted keyed member mateMember owns inGroup isWaiting
    have unfired : db.firedIn group = false :=
      (game.barriers.waits barrier member mate mateMember owns isBarrier (by rw [isWaiting]; rfl) group
        inGroup).mp isWaiting
    have known := keyed.grouped mate mateMember group inGroup
    have isOpen : (nest wf .idle db).Open group :=
      ⟨some group, Nest.occupied_barrier (RunDb.activeCount_pos mateMember active isIn),
        Forest.self_mem_chain known⟩
    have alive : 0 < (nest wf .idle db).live (some group) := by
      have counted := game.sound.counted group known unfired isOpen
      have missing := waits group unfired isOpen
      simp only at counted
      omega
    obtain ⟨below, within, moves⟩ :=
      game.sound.progress waits alive fun key isKey => Option.some.inj isKey ▸ known
    obtain ⟨run, runMember, runOpen, notWaiting, branch, branchMember, branchOwns, inPlace⟩ :=
      game.moving keyed linked moves
    exact ⟨mate, mateMember, owns, group, inGroup, run, runMember, runOpen, notWaiting, branch,
      branchMember, branchOwns, inPlace ▸ within group rfl⟩

end

/-- The two branches of a split meet at different barriers, each of which waits for both. -/
def crossed : Compiler.Document where
  entry := "fan"
  nodes :=
    [("done", { kind := .endNode }),
     ("east", { kind := .join, join := some ⟨.all, none⟩ }),
     ("fan", { kind := .parallel }),
     ("left", { kind := .code, contract := some ["built"] }),
     ("right", { kind := .code, contract := some ["built"] }),
     ("west", { kind := .join, join := some ⟨.all, none⟩ })]
  edges :=
    [{ source := "east.joined", target := "done" },
     { source := "fan.split", target := "left" },
     { source := "fan.split", target := "right" },
     { source := "left.built", target := "west" },
     { source := "right.built", target := "east" },
     { source := "west.joined", target := "done" }]
  nodesSorted := by decide

def crossedLoaded : Workflow where
  entry := "fan"
  limits := { maxParallelTokens := 2 }
  nodes := [
    { id := "done", kind := .endNode },
    { id := "east", kind := .join, outcomes := ["joined"], joinPolicy := some .all },
    { id := "fan", kind := .parallel, outcomes := ["split"] },
    { id := "left", kind := .code, outcomes := ["built"] },
    { id := "right", kind := .code, outcomes := ["built"] },
    { id := "west", kind := .join, outcomes := ["joined"], joinPolicy := some .all }]
  edges := [
    { source := "east.joined", fromNode := "east", fromOutcome := "joined", target := "done" },
    { source := "fan.split", fromNode := "fan", fromOutcome := "split", target := "left" },
    { source := "fan.split", fromNode := "fan", fromOutcome := "split", target := "right" },
    { source := "left.built", fromNode := "left", fromOutcome := "built", target := "west" },
    { source := "right.built", fromNode := "right", fromOutcome := "built", target := "east" },
    { source := "west.joined", fromNode := "west", fromOutcome := "joined", target := "done" }]

theorem crossed_load :
    Workflow.load crossed { maxParallelTokens := 2 } (fixedOutcomes crossed) = crossedLoaded := by
  rw [Workflow.load, normalizeEdges_of_sorted (by decide)]
  decide

theorem never_only_waiting_crossed : ∃ db,
    Reaches Env.permissive crossedLoaded (StepSettles Env.permissive crossedLoaded) db ∧
    db.state = .running ∧ (∃ run ∈ db.nodeRuns, run.state = .waitingJoin) ∧
    ∃ run ∈ db.nodeRuns, run.state.terminal = false ∧ run.state ≠ .waitingJoin := by
  have ran : (replay Env.permissive crossedLoaded (stepSettles Env.permissive crossedLoaded)
      (succeed 2 "split" ++ succeed 6 "built")).map (fun db =>
        decide (db.state = .running ∧ ∃ run ∈ db.nodeRuns, run.state = .waitingJoin)) = some true := by
    decide +kernel
  obtain ⟨db, reached, isWaiting⟩ := Option.map_eq_some_iff.mp ran
  obtain ⟨running, barrier⟩ := of_decide_eq_true isWaiting
  have reaches : Reaches Env.permissive crossedLoaded (StepSettles Env.permissive crossedLoaded) db :=
    Reaches.of_replay (fun _ _ => StepSettles.of_check) reached
  exact ⟨db, reaches, running, barrier,
    (never_only_waiting (by decide) reaches (by rw [running]; rfl)).1⟩

/-- Both branches have arrived, at a barrier each, and nothing can happen any more. -/
theorem crossed_hangs : ∃ db, crossed.checkParallelJoin = [] ∧
    Reaches Env.permissive
      (Workflow.load crossed { maxParallelTokens := 2 } (fixedOutcomes crossed)) anyAction db ∧
    (Workflow.load crossed { maxParallelTokens := 2 } (fixedOutcomes crossed)).eventEdges = [] ∧
    db.state = .running ∧
    ∀ run ∈ db.nodeRuns, run.state.terminal = false → run.state = .waitingJoin := by
  have ran : (replay Env.permissive crossedLoaded (fun _ _ => true)
      (succeed 2 "split" ++ succeed 6 "built" ++ succeed 9 "built")).map (fun db =>
        decide (db.state = .running ∧
          ∀ run ∈ db.nodeRuns, run.state.terminal = false → run.state = .waitingJoin)) = some true := by
    decide +kernel
  obtain ⟨db, reached, hangs⟩ := Option.map_eq_some_iff.mp ran
  obtain ⟨running, waiting⟩ := of_decide_eq_true hangs
  rw [crossed_load]
  exact ⟨db, by decide +kernel, Reaches.of_replay (fun _ _ _ => trivial) reached, by decide, running,
    waiting⟩

end CultureNodes.Engine
