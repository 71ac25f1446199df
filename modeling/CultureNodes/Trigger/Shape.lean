import CultureNodes.Trigger.Delivery

/-!
What every transaction in flight has written and which locks it holds, by where its program stands.
This holds under every action, cancellation through the API included.
-/

namespace CultureNodes.Trigger

namespace TriggerDb

variable {db : TriggerDb}

/-- The run `id` is among the active ones. -/
def Active (db : TriggerDb) (id : Nat) : Prop := ∃ run ∈ db.activeRuns, run.id = id

theorem activeRuns_insertRun (run : SubjectRun) :
    (db.apply (.insertRun run)).activeRuns =
      db.activeRuns ++ if run.active = true then [run] else [] := by
  simp only [activeRuns, apply, List.filter_append]
  cases active : run.active <;> simp [active]

theorem activeRuns_endRun (id : Nat) :
    (db.apply (.endRun id)).activeRuns = db.activeRuns.filter (·.id ≠ id) := by
  simp only [activeRuns, apply, Table.update]
  induction db.runs with
  | nil => rfl
  | cons run rest ih =>
      simp only [List.map_cons, List.filter_cons]
      by_cases same : run.id = id
      · cases run.active <;> simpa [same] using ih
      · cases active : run.active <;> simpa [same, active] using ih

theorem mem_activeRuns_endRun {id : Nat} {run : SubjectRun} :
    run ∈ (db.apply (.endRun id)).activeRuns ↔ run ∈ db.activeRuns ∧ run.id ≠ id := by
  rw [activeRuns_endRun]
  simp

theorem Active.endRun {id other : Nat} (active : db.Active other) (different : other ≠ id) :
    (db.apply (.endRun id)).Active other := by
  obtain ⟨run, member, same⟩ := active
  exact ⟨run, mem_activeRuns_endRun.mpr ⟨member, by rw [same]; exact different⟩, same⟩

theorem Active.apply {id : Nat} {write : Write} (active : db.Active id)
    (notEnded : write ≠ .endRun id) : (db.apply write).Active id := by
  cases write with
  | endRun other =>
      refine active.endRun fun same => notEnded (by rw [same])
  | insertRun run =>
      obtain ⟨row, member, same⟩ := active
      refine ⟨row, ?_, same⟩
      rw [activeRuns_insertRun]
      exact List.mem_append_left _ member
  | attachEvent run event => exact active
  | insertDeferred row => exact active
  | touchDeferred row event => exact active
  | deleteDeferred row => exact active

theorem Active.applyAll {id : Nat} {writes : List Write} (active : db.Active id)
    (notEnded : Write.endRun id ∉ writes) : (writes.foldl TriggerDb.apply db).Active id := by
  induction writes generalizing db with
  | nil => exact active
  | cons write rest ih =>
      rw [List.mem_cons, not_or] at notEnded
      exact ih (active.apply (Ne.symm notEnded.1)) notEnded.2

end TriggerDb

open TriggerDb

/-- A terminal transition that has ended its run but not committed: it holds the run's lock, and for
everyone else the run is still active. -/
structure Ending (s : TriggerState) (id run : Nat) : Prop where
  lock : s.holder (.run run) = some id
  active : s.db.Active run

/-- Past the workflow lock, with an entry picked from the queue. -/
structure Draining (s : TriggerState) (id run : Nat) (entry : DeferredTrigger) : Prop
    extends Ending s id run where
  workflow : s.holder .workflow = some id
  oldest : s.db.isOldest entry = true

def TerminalShape (s : TriggerState) (id : Nat) (writes : List Write) (run : Nat) :
    TerminalPhase → Prop
  | .lockRun => writes = []
  | .readRun => writes = [] ∧ s.holder (.run run) = some id
  | .lockWorkflow => writes = [.endRun run] ∧ Ending s id run
  | .readOldest => writes = [.endRun run] ∧ Ending s id run ∧ s.holder .workflow = some id
  | .delete entry => writes = [.endRun run] ∧ Draining s id run entry
  | .lockSubject entry => writes = [.endRun run, .deleteDeferred entry.id] ∧ Draining s id run entry
  | .create entry => writes = [.endRun run, .deleteDeferred entry.id] ∧ Draining s id run entry
  | .done =>
      (writes = [.endRun run] ∧ Ending s id run ∧ s.holder .workflow = some id ∧
        s.db.deferred = []) ∨
      ∃ entry fresh, writes = [.endRun run, .deleteDeferred entry.id,
          .insertRun { id := fresh, subject := entry.subject, event := entry.event,
                       origin := some entry.id }] ∧
        Draining s id run entry ∧ (∀ row ∈ s.db.runs, row.id < fresh) ∧ fresh < s.nextID

/-- A delivery past the workflow lock ends no run and deletes no queue entry, and the match it works
on has a subject; before the lock it has written nothing. -/
def DeliveryShape (s : TriggerState) (id : Nat) (writes : List Write) (pending : List Match)
    (phase : DeliveryPhase) : Prop :=
  (s.holder .workflow = some id ∧ (∀ run, Write.endRun run ∉ writes) ∧
    (∀ run, Write.insertRun run ∈ writes → run.id < s.nextID) ∧
    (phase ≠ .lockWorkflow → ∃ m rest, pending = m :: rest ∧ m.subject ≠ "")) ∨
  (s.holder .workflow ≠ some id ∧ writes = [] ∧ phase = .lockWorkflow)

def TxnShape (s : TriggerState) (id : Nat) (txn : Txn Write Body) : Prop :=
  match txn.body with
  | .delivery _ pending phase => DeliveryShape s id txn.writes pending phase
  | .terminal run phase => TerminalShape s id txn.writes run phase

structure Shape (s : TriggerState) : Prop where
  owned : ∀ key id, s.holder key = some id → (s.txns id).isSome
  txn : ∀ id txn, s.txns id = some txn → TxnShape s id txn
  ids : ∀ row ∈ s.db.runs, row.id < s.nextID

/-- What a transaction's shape depends on: the locks it holds, the activity of the run whose lock it
holds and, while it holds the workflow lock, the queue and the run rows. -/
structure Unmoved (s t : TriggerState) (id : Nat) : Prop where
  locks : ∀ key, t.holder key = some id ↔ s.holder key = some id
  active : ∀ run, s.holder (.run run) = some id → s.db.Active run → t.db.Active run
  queue : s.holder .workflow = some id → t.db.deferred = s.db.deferred
  rows : s.holder .workflow = some id → t.db.runs.map SubjectRun.id = s.db.runs.map SubjectRun.id
  nextID : s.nextID ≤ t.nextID

theorem Ending.carry {s t : TriggerState} {id run : Nat} (ending : Ending s id run)
    (unmoved : Unmoved s t id) : Ending t id run :=
  ⟨(unmoved.locks _).mpr ending.lock, unmoved.active run ending.lock ending.active⟩

theorem Draining.carry {s t : TriggerState} {id run : Nat} {entry : DeferredTrigger}
    (draining : Draining s id run entry) (unmoved : Unmoved s t id) : Draining t id run entry := by
  refine ⟨draining.toEnding.carry unmoved, (unmoved.locks _).mpr draining.workflow, ?_⟩
  have oldest := draining.oldest
  unfold isOldest at oldest ⊢
  rw [unmoved.queue draining.workflow]
  exact oldest

theorem TerminalShape.carry {s t : TriggerState} {id run : Nat} {writes : List Write}
    {phase : TerminalPhase} (shape : TerminalShape s id writes run phase)
    (unmoved : Unmoved s t id) : TerminalShape t id writes run phase := by
  cases phase with
  | lockRun => exact shape
  | readRun => exact ⟨shape.1, (unmoved.locks _).mpr shape.2⟩
  | lockWorkflow => exact ⟨shape.1, shape.2.carry unmoved⟩
  | readOldest => exact ⟨shape.1, shape.2.1.carry unmoved, (unmoved.locks _).mpr shape.2.2⟩
  | delete entry => exact ⟨shape.1, shape.2.carry unmoved⟩
  | lockSubject entry => exact ⟨shape.1, shape.2.carry unmoved⟩
  | create entry => exact ⟨shape.1, shape.2.carry unmoved⟩
  | done =>
      rcases shape with ⟨written, ending, workflow, empty⟩ |
        ⟨entry, fresh, written, draining, new, small⟩
      · exact Or.inl ⟨written, ending.carry unmoved, (unmoved.locks _).mpr workflow,
          (unmoved.queue workflow).trans empty⟩
      · refine Or.inr ⟨entry, fresh, written, draining.carry unmoved, fun row member => ?_,
          Nat.lt_of_lt_of_le small unmoved.nextID⟩
        have known : row.id ∈ s.db.runs.map SubjectRun.id := by
          rw [← unmoved.rows draining.workflow]
          exact List.mem_map_of_mem member
        obtain ⟨old, oldMember, same⟩ := List.mem_map.mp known
        rw [← same]
        exact new old oldMember

theorem TxnShape.carry {s t : TriggerState} {id : Nat} {txn : Txn Write Body}
    (shape : TxnShape s id txn) (unmoved : Unmoved s t id) : TxnShape t id txn := by
  unfold TxnShape at shape ⊢
  cases body : txn.body with
  | delivery startedAt pending phase =>
      simp only [body] at shape ⊢
      rcases shape with ⟨workflow, noEnd, small, rest⟩ | ⟨free, rest⟩
      · exact Or.inl ⟨(unmoved.locks _).mpr workflow, noEnd,
          fun run inserted => Nat.lt_of_lt_of_le (small run inserted) unmoved.nextID, rest⟩
      · exact Or.inr ⟨fun held => free ((unmoved.locks _).mp held), rest⟩
  | terminal run phase =>
      simp only [body] at shape ⊢
      exact shape.carry unmoved

/-- What one statement of transaction `id` leaves alone. -/
structure Moves (s t : TriggerState) (id : Nat) : Prop where
  db : t.db = s.db
  others : ∀ other, other ≠ id → t.txns other = s.txns other
  locks : ∀ other, other ≠ id → ∀ key, t.holder key = some other ↔ s.holder key = some other
  keeps : ∀ key, s.holder key = some id → t.holder key = some id
  mine : (t.txns id).isSome
  nextID : s.nextID ≤ t.nextID

theorem put_moves (s : TriggerState) (id : Nat) (writes : List Write) (body : Body) (n : Nat)
    (grown : s.nextID ≤ n) : Moves s { s.put id writes body with nextID := n } id where
  db := rfl
  others other different := Function.update_of_ne different ..
  locks _ _ _ := Iff.rfl
  keeps _ held := held
  mine := by simp [TriggerState.put, World.setTxn]
  nextID := grown

theorem lockThen_eq_some {s t : TriggerState} {id : Nat} {key : LockKey} {writes : List Write}
    {body : Body} (locked : s.lockThen id key writes body = some t) :
    Moves s t id ∧ t.holder key = some id ∧ t.txns id = some ⟨writes, body⟩ ∧
      (∀ other, other ≠ key → t.holder other = s.holder other) := by
  obtain ⟨world, taken, rfl⟩ := Option.map_eq_some_iff.mp locked
  have others := fun (other : Nat) (different : other ≠ id) => World.acquire_other taken different
  have kept : ∀ any, s.holder any = some id → world.holder any = some id :=
    fun _ held => World.acquire_keeps taken held
  have mine := World.acquire_holds taken
  obtain ⟨_, rfl⟩ := World.acquire_eq_some taken
  refine ⟨⟨rfl, ?_, others, kept, ?_, Nat.le_refl _⟩, mine, ?_, ?_⟩
  · exact fun other different => Function.update_of_ne different ..
  · simp [World.setTxn]
  · simp [World.setTxn]
  · exact fun other different => Function.update_of_ne different ..

theorem Moves.shape {s t : TriggerState} {id : Nat} (moves : Moves s t id) (shape : Shape s)
    (mine : ∀ txn, t.txns id = some txn → TxnShape t id txn) :
    Shape t := by
  refine ⟨fun key owner held => ?_, fun other txn found => ?_, fun row member => ?_⟩
  · by_cases same : owner = id
    · rw [same]
      exact moves.mine
    · rw [moves.others owner same]
      exact shape.owned key owner ((moves.locks owner same key).mp held)
  · by_cases same : other = id
    · subst same
      exact mine txn found
    · rw [moves.others other same] at found
      refine (shape.txn other txn found).carry ⟨moves.locks other same, ?_, ?_, ?_, moves.nextID⟩
      · exact fun run _ active => moves.db ▸ active
      · exact fun _ => by rw [moves.db]
      · exact fun _ => by rw [moves.db]
  · rw [moves.db] at member
    exact Nat.lt_of_lt_of_le (shape.ids row member) moves.nextID

theorem put_shape {s : TriggerState} {id : Nat} {writes : List Write} {body : Body} (n : Nat)
    (grown : s.nextID ≤ n) (shape : Shape s)
    (mine : TxnShape { s.put id writes body with nextID := n } id ⟨writes, body⟩) :
    Shape { s.put id writes body with nextID := n } := by
  refine (put_moves s id writes body n grown).shape shape fun txn found => ?_
  have same : txn = ⟨writes, body⟩ := by
    simpa [TriggerState.put, World.setTxn] using found.symm
  rw [same]
  exact mine

theorem lockThen_shape {s t : TriggerState} {id : Nat} {key : LockKey} {writes : List Write}
    {body : Body} (locked : s.lockThen id key writes body = some t) (shape : Shape s)
    (mine : TxnShape t id ⟨writes, body⟩) : Shape t := by
  obtain ⟨moves, _, set, _⟩ := lockThen_eq_some locked
  refine moves.shape shape fun txn found => ?_
  have same : txn = ⟨writes, body⟩ := Option.some.inj (found.symm.trans set)
  rw [same]
  exact mine

section

variable {s t : TriggerState} {limit id : Nat} {txn : Txn Write Body}

theorem DeliveryShape.further {pending later : List Match} {phase next : DeliveryPhase}
    {writes : List Write} (moves : Moves s t id) (workflow : s.holder .workflow = some id)
    (mine : DeliveryShape s id writes pending phase)
    (named : next ≠ .lockWorkflow → ∃ m rest, later = m :: rest ∧ m.subject ≠ "") :
    DeliveryShape t id writes later next := by
  rcases mine with ⟨_, noEnd, small, _⟩ | ⟨free, _⟩
  · exact Or.inl ⟨moves.keeps _ workflow, noEnd,
      fun run inserted => Nat.lt_of_lt_of_le (small run inserted) moves.nextID, named⟩
  · exact absurd workflow free

theorem DeliveryShape.append {pending rest : List Match} {phase : DeliveryPhase} {write : Write}
    {writes : List Write} (moves : Moves s t id) (workflow : s.holder .workflow = some id)
    (mine : DeliveryShape s id writes pending phase) (notEnd : ∀ run, write ≠ .endRun run)
    (fresh : ∀ run, write = .insertRun run → run.id < t.nextID) :
    DeliveryShape t id (writes ++ [write]) rest .lockWorkflow := by
  rcases mine with ⟨_, noEnd, small, _⟩ | ⟨free, _⟩
  · refine Or.inl ⟨moves.keeps _ workflow, fun run member => ?_, fun run member => ?_,
      fun moved => absurd rfl moved⟩
    · rcases List.mem_append.mp member with old | new
      · exact noEnd run old
      · exact notEnd run (List.mem_singleton.mp new).symm
    · rcases List.mem_append.mp member with old | new
      · exact Nat.lt_of_lt_of_le (small run old) moves.nextID
      · exact fresh run (List.mem_singleton.mp new).symm
  · exact absurd workflow free

theorem DeliveryShape.past {pending : List Match} {phase : DeliveryPhase} {writes : List Write}
    (mine : DeliveryShape s id writes pending phase) (moved : phase ≠ .lockWorkflow) :
    s.holder .workflow = some id ∧ ∃ m rest, pending = m :: rest ∧ m.subject ≠ "" := by
  rcases mine with ⟨workflow, _, _, named⟩ | ⟨_, _, atStart⟩
  · exact ⟨workflow, named moved⟩
  · exact absurd atStart moved

theorem stepDelivery_shape {startedAt : Nat} {m : Match} {rest : List Match} {phase : DeliveryPhase}
    (positive : 0 < limit) (shape : Shape s)
    (mine : DeliveryShape s id txn.writes (m :: rest) phase)
    (taken : s.stepDelivery limit id txn startedAt m rest phase = some t) : Shape t := by
  have same := fun writes body => put_moves s id writes body s.nextID (Nat.le_refl _)
  have grown := fun writes body => put_moves s id writes body (s.nextID + 1) (Nat.le_succ _)
  cases phase with
  | lockWorkflow =>
      simp only [TriggerState.stepDelivery] at taken
      split at taken
      · rw [← Option.some.inj taken]
        refine put_shape s.nextID (Nat.le_refl _) shape ?_
        rcases mine with ⟨workflow, noEnd, small, _⟩ | ⟨free, empty, _⟩
        · exact Or.inl ⟨workflow, noEnd, small, fun moved => absurd rfl moved⟩
        · exact Or.inr ⟨free, empty, rfl⟩
      · rename_i named
        obtain ⟨moves, workflow, _, _⟩ := lockThen_eq_some taken
        refine lockThen_shape taken shape ?_
        rcases mine with ⟨_, noEnd, small, _⟩ | ⟨_, empty, _⟩
        · exact Or.inl ⟨workflow, noEnd,
            fun run inserted => Nat.lt_of_lt_of_le (small run inserted) moves.nextID,
            fun _ => ⟨m, rest, rfl, named⟩⟩
        · refine Or.inl ⟨workflow, ?_, ?_, fun _ => ⟨m, rest, rfl, named⟩⟩ <;>
            simp [empty]
  | lockSubject =>
      obtain ⟨workflow, named⟩ := mine.past DeliveryPhase.noConfusion
      obtain ⟨moves, _, _, _⟩ := lockThen_eq_some taken
      exact lockThen_shape taken shape (mine.further moves workflow fun _ => named)
  | readActive =>
      obtain ⟨workflow, named⟩ := mine.past DeliveryPhase.noConfusion
      simp only [TriggerState.stepDelivery] at taken
      split at taken
      · rw [← Option.some.inj taken]
        exact put_shape s.nextID (Nat.le_refl _) shape
          (mine.append (same _ _) workflow (fun _ => Write.noConfusion) (fun _ => Write.noConfusion))
      · rw [if_pos positive] at taken
        rw [← Option.some.inj taken]
        exact put_shape s.nextID (Nat.le_refl _) shape
          (mine.further (same _ _) workflow fun _ => named)
  | readQueue =>
      obtain ⟨workflow, named⟩ := mine.past DeliveryPhase.noConfusion
      simp only [TriggerState.stepDelivery] at taken
      split at taken
      · rw [← Option.some.inj taken]
        exact put_shape s.nextID (Nat.le_refl _) shape
          (mine.append (same _ _) workflow (fun _ => Write.noConfusion) (fun _ => Write.noConfusion))
      · rw [← Option.some.inj taken]
        exact put_shape s.nextID (Nat.le_refl _) shape
          (mine.further (same _ _) workflow fun _ => named)
  | readCount =>
      obtain ⟨workflow, named⟩ := mine.past DeliveryPhase.noConfusion
      simp only [TriggerState.stepDelivery] at taken
      split at taken
      · rw [← Option.some.inj taken]
        exact put_shape s.nextID (Nat.le_refl _) shape
          (mine.further (same _ _) workflow fun _ => named)
      · rw [← Option.some.inj taken]
        exact put_shape s.nextID (Nat.le_refl _) shape
          (mine.further (same _ _) workflow fun _ => named)
  | insert =>
      obtain ⟨workflow, named⟩ := mine.past DeliveryPhase.noConfusion
      rw [← Option.some.inj taken]
      exact put_shape (s.nextID + 1) (Nat.le_succ _) shape
        (mine.append (grown _ _) workflow (fun _ => Write.noConfusion) (fun _ => Write.noConfusion))
  | create =>
      obtain ⟨workflow, named⟩ := mine.past DeliveryPhase.noConfusion
      rw [← Option.some.inj taken]
      refine put_shape (s.nextID + 1) (Nat.le_succ _) shape
        (mine.append (grown _ _) workflow (fun _ => Write.noConfusion) fun run isRun => ?_)
      rw [← Write.insertRun.inj isRun]
      exact Nat.lt_succ_self _

theorem Moves.ending {run : Nat} (moves : Moves s t id) (ending : Ending s id run) :
    Ending t id run := ⟨moves.keeps _ ending.lock, moves.db ▸ ending.active⟩

theorem Moves.draining {run : Nat} {entry : DeferredTrigger} (moves : Moves s t id)
    (draining : Draining s id run entry) : Draining t id run entry :=
  ⟨moves.ending draining.toEnding, moves.keeps _ draining.workflow, moves.db ▸ draining.oldest⟩

theorem stepTerminal_shape {run : Nat} {oldest : Option DeferredTrigger} {phase : TerminalPhase}
    (positive : 0 < limit) (shape : Shape s)
    (mine : TerminalShape s id txn.writes run phase)
    (taken : s.stepTerminal limit id txn run oldest phase = some t) : Shape t := by
  cases phase with
  | lockRun =>
      obtain ⟨_, lock, _, _⟩ := lockThen_eq_some taken
      exact lockThen_shape taken shape ⟨mine, lock⟩
  | readRun =>
      simp only [TriggerState.stepTerminal] at taken
      split at taken
      · rename_i found
        rw [← Option.some.inj taken]
        refine put_shape s.nextID (Nat.le_refl _) shape ⟨?_, mine.2, ?_⟩
        · dsimp only
          rw [mine.1]
          rfl
        · obtain ⟨row, member, same⟩ := List.any_eq_true.mp found
          have unread : s.read txn = s.db := by
            unfold TriggerState.read World.view
            rw [mine.1]
            rfl
          rw [unread] at member
          exact ⟨row, member, by simpa using same⟩
      · contradiction
  | lockWorkflow =>
      obtain ⟨moves, workflow, _, _⟩ := lockThen_eq_some taken
      exact lockThen_shape taken shape ⟨mine.1, moves.ending mine.2, workflow⟩
  | readOldest =>
      have unread : (s.read txn).deferred = s.db.deferred := by
        unfold TriggerState.read World.view
        rw [mine.1]
        rfl
      simp only [TriggerState.stepTerminal] at taken
      split at taken
      · split at taken
        · rename_i empty
          rw [← Option.some.inj taken]
          exact put_shape s.nextID (Nat.le_refl _) shape
            (Or.inl ⟨mine.1, (put_moves s id _ _ s.nextID (Nat.le_refl _)).ending mine.2.1,
              mine.2.2, unread.symm.trans empty⟩)
        · contradiction
      · split at taken
        · rename_i entry isOldest
          rw [← Option.some.inj taken]
          refine put_shape s.nextID (Nat.le_refl _) shape ⟨mine.1,
            (put_moves s id _ _ s.nextID (Nat.le_refl _)).ending mine.2.1, mine.2.2, ?_⟩
          unfold TriggerDb.isOldest at isOldest ⊢
          rw [unread] at isOldest
          exact isOldest
        · contradiction
  | delete entry =>
      rw [← Option.some.inj taken]
      refine put_shape s.nextID (Nat.le_refl _) shape
        ⟨?_, (put_moves s id _ _ s.nextID (Nat.le_refl _)).draining mine.2⟩
      dsimp only
      rw [mine.1]
      rfl
  | lockSubject entry =>
      obtain ⟨moves, _, _, _⟩ := lockThen_eq_some taken
      exact lockThen_shape taken shape ⟨mine.1, moves.draining mine.2⟩
  | create entry =>
      rw [← Option.some.inj taken]
      refine put_shape (s.nextID + 1) (Nat.le_succ _) shape (Or.inr ⟨entry, s.nextID, ?_,
        (put_moves s id _ _ (s.nextID + 1) (Nat.le_succ _)).draining mine.2, shape.ids,
        Nat.lt_succ_self _⟩)
      dsimp only
      rw [mine.1]
      rfl
  | done => contradiction

/-- A finished transaction holds the workflow lock or has written nothing, and ends no run whose lock
another transaction holds. -/
theorem TxnShape.ended (mine : TxnShape s id txn) (isEnded : TriggerState.ended txn.body = true) :
    (s.holder .workflow = some id ∨ txn.writes = []) ∧
      ∀ other run, other ≠ id → s.holder (.run run) = some other →
        Write.endRun run ∉ txn.writes := by
  unfold TxnShape at mine
  cases body : txn.body with
  | delivery startedAt pending phase =>
      simp only [body] at mine
      rcases mine with ⟨workflow, noEnd, _⟩ | ⟨_, empty, _⟩
      · exact ⟨Or.inl workflow, fun _ run _ _ => noEnd run⟩
      · exact ⟨Or.inr empty, fun _ _ _ _ => by simp [empty]⟩
  | terminal own phase =>
      have isDone : phase = .done := by simpa [TriggerState.ended, body] using isEnded
      subst isDone
      simp only [body] at mine
      have foreign : Ending s id own → ∀ other run, other ≠ id →
          s.holder (.run run) = some other → own ≠ run := by
        intro ending other run different held same
        rw [same] at ending
        exact different (Option.some.inj (held.symm.trans ending.lock))
      rcases mine with ⟨written, ending, workflow, _⟩ | ⟨entry, fresh, written, draining, _⟩
      · refine ⟨Or.inl workflow, fun other run different held => ?_⟩
        simp [written, Ne.symm (foreign ending other run different held)]
      · refine ⟨Or.inl draining.workflow, fun other run different held => ?_⟩
        simp [written, Ne.symm (foreign draining.toEnding other run different held)]

theorem applyAll_ids {db : TriggerDb} {writes : List Write} {row : SubjectRun}
    (member : row ∈ (writes.foldl TriggerDb.apply db).runs) :
    (∃ old ∈ db.runs, old.id = row.id) ∨ ∃ run, Write.insertRun run ∈ writes ∧ run.id = row.id := by
  induction writes generalizing db with
  | nil => exact Or.inl ⟨row, member, rfl⟩
  | cons write rest ih =>
      rcases ih member with ⟨old, oldMember, same⟩ | ⟨run, runMember, same⟩
      · cases write with
        | insertRun run =>
            rcases List.mem_append.mp oldMember with earlier | new
            · exact Or.inl ⟨old, earlier, same⟩
            · rw [List.mem_singleton] at new
              exact Or.inr ⟨run, List.mem_cons_self, by rw [← new, same]⟩
        | endRun run =>
            obtain ⟨earlier, earlierMember, rfl⟩ := Table.mem_update.mp oldMember
            refine Or.inl ⟨earlier, earlierMember, ?_⟩
            rw [← same]
            split <;> rfl
        | attachEvent run event => exact Or.inl ⟨old, oldMember, same⟩
        | insertDeferred entry => exact Or.inl ⟨old, oldMember, same⟩
        | touchDeferred entry event => exact Or.inl ⟨old, oldMember, same⟩
        | deleteDeferred entry => exact Or.inl ⟨old, oldMember, same⟩
      · exact Or.inr ⟨run, List.mem_cons_of_mem _ runMember, same⟩

theorem TxnShape.insertedIDs {run : SubjectRun} (mine : TxnShape s id txn)
    (isEnded : TriggerState.ended txn.body = true) (inserted : Write.insertRun run ∈ txn.writes) :
    run.id < s.nextID := by
  unfold TxnShape at mine
  cases body : txn.body with
  | delivery startedAt pending phase =>
      simp only [body] at mine
      rcases mine with ⟨_, _, small, _⟩ | ⟨_, empty, _⟩
      · exact small run inserted
      · simp [empty] at inserted
  | terminal own phase =>
      have isDone : phase = .done := by simpa [TriggerState.ended, body] using isEnded
      subst isDone
      simp only [body] at mine
      rcases mine with ⟨written, _⟩ | ⟨entry, fresh, written, _, _, small⟩
      · simp [written] at inserted
      · simp only [written, List.mem_cons, List.not_mem_nil, or_false, reduceCtorEq, false_or,
          Write.insertRun.injEq] at inserted
        rw [inserted]
        exact small

theorem commit_unmoved {other : Nat} (mine : TxnShape s id txn)
    (isEnded : TriggerState.ended txn.body = true) (different : other ≠ id) :
    Unmoved s { s with toWorld := s.toWorld.commit TriggerDb.apply id txn } other := by
  have untouched : s.holder .workflow = some other →
      s.toWorld.view TriggerDb.apply txn = s.db := by
    intro workflow
    rcases (mine.ended isEnded).1 with own | empty
    · exact absurd (Option.some.inj (workflow.symm.trans own)) different
    · unfold World.view
      rw [empty]
      rfl
  refine ⟨World.finish_other different, fun run held active => ?_, ?_, ?_, Nat.le_refl _⟩
  · exact active.applyAll ((mine.ended isEnded).2 other run different held)
  · exact fun workflow => congrArg TriggerDb.deferred (untouched workflow)
  · exact fun workflow => congrArg (fun db => db.runs.map SubjectRun.id) (untouched workflow)

theorem finish_unmoved {other : Nat} (different : other ≠ id) :
    Unmoved s { s with toWorld := s.toWorld.finish id } other :=
  ⟨World.finish_other different, fun _ _ active => active, fun _ => rfl, fun _ => rfl, Nat.le_refl _⟩

theorem cancel_unmoved {run other : Nat} (free : s.holder (.run run) = none) :
    Unmoved s { s with db := s.db.apply (.endRun run) } other := by
  refine ⟨fun _ => Iff.rfl, fun own held active => active.endRun ?_, fun _ => rfl, fun _ => ?_,
    Nat.le_refl _⟩
  · intro same
    rw [same, free] at held
    contradiction
  · exact Table.update_keys fun _ => rfl

/-- A step that only ends transaction `id`, leaving the others unmoved. -/
theorem Shape.leave (shape : Shape s) (txns : t.txns = Function.update s.txns id none)
    (locks : ∀ key, t.holder key ≠ some id)
    (unmoved : ∀ other, other ≠ id → Unmoved s t other)
    (ids : ∀ row ∈ t.db.runs, row.id < t.nextID) : Shape t := by
  refine ⟨fun key owner held => ?_, fun other txn found => ?_, ids⟩
  · have different : owner ≠ id := fun same => locks key (same ▸ held)
    rw [txns, Function.update_of_ne different]
    exact shape.owned key owner (((unmoved owner different).locks key).mp held)
  · rw [txns] at found
    obtain ⟨different, before⟩ := World.inFlight_ended found
    exact (shape.txn other txn before).carry (unmoved other different)

theorem act_shape {action : Action} (positive : 0 < limit) (shape : Shape s)
    (acted : s.act limit action = some t) : Shape t := by
  cases action with
  | tick =>
      rw [← Option.some.inj acted]
      exact ⟨shape.owned, fun id txn found => (shape.txn id txn found).carry
        ⟨fun _ => Iff.rfl, fun _ _ active => active, fun _ => rfl, fun _ => rfl, Nat.le_refl _⟩,
        shape.ids⟩
  | beginDelivery id matches_ =>
      simp only [TriggerState.act] at acted
      split at acted
      · contradiction
      · rename_i unused
        rw [← Option.some.inj acted]
        refine put_shape s.nextID (Nat.le_refl _) shape (Or.inr ⟨fun held => ?_, rfl, rfl⟩)
        have owned := shape.owned _ _ held
        simp [unused] at owned
  | beginTerminal id run =>
      simp only [TriggerState.act] at acted
      split at acted
      · contradiction
      · rw [← Option.some.inj acted]
        exact put_shape s.nextID (Nat.le_refl _) shape rfl
  | advance id oldest =>
      simp only [TriggerState.act] at acted
      split at acted
      · contradiction
      · rename_i txn found
        have mine := shape.txn id txn found
        unfold TxnShape at mine
        split at acted
        · contradiction
        · rename_i startedAt m rest phase body
          simp only [body] at mine
          exact stepDelivery_shape positive shape mine acted
        · rename_i run phase body
          simp only [body] at mine
          exact stepTerminal_shape positive shape mine acted
  | commit id =>
      simp only [TriggerState.act] at acted
      split at acted
      · contradiction
      · rename_i txn found
        split at acted
        · rename_i isEnded
          have mine := shape.txn id txn found
          rw [← Option.some.inj acted]
          refine shape.leave rfl World.finish_self (fun other => commit_unmoved mine isEnded) ?_
          intro row member
          rcases applyAll_ids member with ⟨old, oldMember, same⟩ | ⟨run, inserted, same⟩
          · exact same ▸ shape.ids old oldMember
          · exact same ▸ mine.insertedIDs isEnded inserted
        · contradiction
  | abort id =>
      simp only [TriggerState.act] at acted
      split at acted
      · contradiction
      · rw [← Option.some.inj acted]
        exact shape.leave rfl World.finish_self (fun other => finish_unmoved) shape.ids
  | apiCancel run =>
      simp only [TriggerState.act] at acted
      split at acted
      · rename_i conditions
        rw [← Option.some.inj acted]
        refine ⟨shape.owned, fun id txn found => (shape.txn id txn found).carry
          (cancel_unmoved conditions.1), fun row member => ?_⟩
        obtain ⟨old, oldMember, rfl⟩ := Table.mem_update.mp member
        have small := shape.ids old oldMember
        split <;> exact small
      · contradiction

theorem initial_shape : Shape TriggerState.initial :=
  ⟨fun _ _ held => by simp [TriggerState.initial] at held,
    fun _ _ found => by simp [TriggerState.initial] at found,
    fun _ member => by simp [TriggerState.initial] at member⟩

end

end CultureNodes.Trigger
