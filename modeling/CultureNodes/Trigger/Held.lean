import CultureNodes.Trigger.Shape

/-!
Properties that hold of the committed rows and of what a delivery past the workflow lock reads. Every
such property is kept by the same argument: only the holder of the workflow lock changes the rows, so
what the holder has read stays true until it commits.
-/

namespace CultureNodes.Trigger

open TriggerDb

section

variable {limit : Nat} {s t : TriggerState}

theorem read_eq_of_db {txn : Txn Write Body} (same : t.db = s.db) : t.read txn = s.read txn := by
  unfold TriggerState.read World.view
  rw [same]

theorem read_append (writes : List Write) (write : Write) (body body' : Body) :
    s.read ⟨writes ++ [write], body⟩ = (s.read ⟨writes, body'⟩).apply write := by
  simp [TriggerState.read, World.view, List.foldl_append]

end

/-- `committed` holds of the committed rows and `reading` of what a delivery holding the workflow
lock reads, at the match and the phase it has reached. Both may bound the ids by the next one. -/
structure Held (committed : Nat → TriggerDb → Prop)
    (reading : Nat → TriggerDb → List Match → DeliveryPhase → Prop) (s : TriggerState) : Prop where
  shape : Shape s
  rows : committed s.nextID s.db
  delivery : ∀ id writes startedAt pending phase,
    s.txns id = some ⟨writes, .delivery startedAt pending phase⟩ → s.holder .workflow = some id →
    reading s.nextID (s.read ⟨writes, .delivery startedAt pending phase⟩) pending phase

/-- The part of `Held` about one transaction. -/
def Reads (reading : Nat → TriggerDb → List Match → DeliveryPhase → Prop) (s : TriggerState)
    (id : Nat) : Prop :=
  ∀ writes startedAt pending phase,
    s.txns id = some ⟨writes, .delivery startedAt pending phase⟩ → s.holder .workflow = some id →
    reading s.nextID (s.read ⟨writes, .delivery startedAt pending phase⟩) pending phase

section

variable {limit : Nat} {s t : TriggerState} {committed : Nat → TriggerDb → Prop}
  {reading : Nat → TriggerDb → List Match → DeliveryPhase → Prop}

theorem put_reads {id n : Nat} {writes : List Write} {startedAt : Nat} {pending : List Match}
    {phase : DeliveryPhase} (mine : s.holder .workflow = some id →
      reading n (s.read ⟨writes, .delivery startedAt pending phase⟩) pending phase) :
    Reads reading { s.put id writes (.delivery startedAt pending phase) with nextID := n } id := by
  intro written started waiting at_ found held
  have same : (⟨writes, .delivery startedAt pending phase⟩ : Txn Write Body) =
      ⟨written, .delivery started waiting at_⟩ := by
    simpa [TriggerState.put, World.setTxn] using found
  obtain ⟨rfl, bodies⟩ := Txn.mk.inj same
  obtain ⟨rfl, rfl, rfl⟩ := Body.delivery.inj bodies
  exact mine held

theorem lockThen_reads {id : Nat} {key : LockKey} {writes : List Write} {startedAt : Nat}
    {pending : List Match} {phase : DeliveryPhase}
    (locked : s.lockThen id key writes (.delivery startedAt pending phase) = some t)
    (mine : reading t.nextID (s.read ⟨writes, .delivery startedAt pending phase⟩) pending phase) :
    Reads reading t id := by
  obtain ⟨moves, _, set, _⟩ := lockThen_eq_some locked
  intro written started waiting at_ found held
  have same := Option.some.inj (set.symm.trans found)
  obtain ⟨rfl, bodies⟩ := Txn.mk.inj same
  obtain ⟨rfl, rfl, rfl⟩ := Body.delivery.inj bodies
  rw [read_eq_of_db moves.db]
  exact mine

/-- The statements of the trigger loop touch neither the committed rows nor another transaction. -/
theorem stepDelivery_moves {id startedAt : Nat} {txn : Txn Write Body} {m : Match}
    {rest : List Match} {phase : DeliveryPhase}
    (taken : s.stepDelivery limit id txn startedAt m rest phase = some t) : Moves s t id := by
  have same := fun writes body => put_moves s id writes body s.nextID (Nat.le_refl _)
  have grown := fun writes body => put_moves s id writes body (s.nextID + 1) (Nat.le_succ _)
  cases phase with
  | lockWorkflow =>
      simp only [TriggerState.stepDelivery] at taken
      split at taken
      · rw [← Option.some.inj taken]
        exact same _ _
      · split at taken
        · exact (lockThen_eq_some taken).1
        · rw [← Option.some.inj taken]
          exact same _ _
  | lockSubject => exact (lockThen_eq_some taken).1
  | readActive =>
      simp only [TriggerState.stepDelivery] at taken
      split at taken
      · rw [← Option.some.inj taken]
        exact same _ _
      · split at taken
        · rw [← Option.some.inj taken]
          exact same _ _
        · rw [← Option.some.inj taken]
          exact same _ _
  | readQueue =>
      simp only [TriggerState.stepDelivery] at taken
      split at taken
      · rw [← Option.some.inj taken]
        exact same _ _
      · rw [← Option.some.inj taken]
        exact same _ _
  | readCount =>
      simp only [TriggerState.stepDelivery] at taken
      split at taken
      · rw [← Option.some.inj taken]
        exact same _ _
      · rw [← Option.some.inj taken]
        exact same _ _
  | insert =>
      rw [← Option.some.inj taken]
      exact grown _ _
  | create =>
      rw [← Option.some.inj taken]
      exact grown _ _

/-- The statements of a terminal transition touch neither the committed rows nor a delivery. -/
theorem stepTerminal_moves {id run : Nat} {txn : Txn Write Body} {oldest : Option DeferredTrigger}
    {phase : TerminalPhase} (taken : s.stepTerminal limit id txn run oldest phase = some t) :
    Moves s t id ∧ ∃ writes next, t.txns id = some ⟨writes, .terminal run next⟩ := by
  have put : ∀ (writes : List Write) (next : TerminalPhase) (n : Nat), s.nextID ≤ n →
      Moves s { s.put id writes (.terminal run next) with nextID := n } id ∧
        ∃ written at_, (s.put id writes (.terminal run next)).txns id =
          some ⟨written, .terminal run at_⟩ := fun writes next n grown =>
    ⟨put_moves s id writes _ n grown, writes, next, Function.update_self ..⟩
  cases phase with
  | lockRun =>
      obtain ⟨moves, _, set, _⟩ := lockThen_eq_some taken
      exact ⟨moves, _, _, set⟩
  | readRun =>
      simp only [TriggerState.stepTerminal] at taken
      split at taken
      · rw [← Option.some.inj taken]
        exact put _ _ s.nextID (Nat.le_refl _)
      · contradiction
  | lockWorkflow =>
      obtain ⟨moves, _, set, _⟩ := lockThen_eq_some taken
      exact ⟨moves, _, _, set⟩
  | readOldest =>
      simp only [TriggerState.stepTerminal] at taken
      split at taken
      · split at taken
        · rw [← Option.some.inj taken]
          exact put _ _ s.nextID (Nat.le_refl _)
        · contradiction
      · split at taken
        · rw [← Option.some.inj taken]
          exact put _ _ s.nextID (Nat.le_refl _)
        · contradiction
  | delete entry =>
      rw [← Option.some.inj taken]
      exact put _ _ s.nextID (Nat.le_refl _)
  | lockSubject entry =>
      obtain ⟨moves, _, set, _⟩ := lockThen_eq_some taken
      exact ⟨moves, _, _, set⟩
  | create entry =>
      rw [← Option.some.inj taken]
      exact put _ _ (s.nextID + 1) (Nat.le_succ _)
  | done => contradiction

/-- Whoever holds the workflow lock after a transaction has left held it before. -/
theorem finish_bystander {id other : Nat} {txn : Txn Write Body}
    (found : (s.toWorld.finish id).txns other = some txn)
    (held : (s.toWorld.finish id).holder .workflow = some other) :
    s.txns other = some txn ∧ s.holder .workflow = some other := by
  obtain ⟨different, before⟩ := World.inFlight_ended found
  exact ⟨before, (World.finish_other different LockKey.workflow).mp held⟩

theorem commit_bystander {id other : Nat} {txn otherTxn : Txn Write Body} (mine : TxnShape s id txn)
    (isEnded : TriggerState.ended txn.body = true)
    (found : (s.toWorld.finish id).txns other = some otherTxn)
    (held : (s.toWorld.finish id).holder .workflow = some other) :
    s.txns other = some otherTxn ∧ s.holder .workflow = some other ∧
      s.toWorld.view TriggerDb.apply txn = s.db := by
  have different : other ≠ id := fun same => World.finish_self LockKey.workflow (same ▸ held)
  obtain ⟨stillThere, heldBefore⟩ := finish_bystander found held
  refine ⟨stillThere, heldBefore, ?_⟩
  rcases (mine.ended isEnded).1 with own | empty
  · exact absurd (Option.some.inj (heldBefore.symm.trans own)) different
  · unfold World.view
    rw [empty]
    rfl

/-- A statement of one transaction keeps the property once that transaction's own part is shown. -/
theorem Moves.held {id : Nat} (moves : Moves s t id) (inv : Held committed reading s)
    (shape : Shape t) (rows : ∀ n m db, n ≤ m → committed n db → committed m db)
    (reads : ∀ n m db pending phase, n ≤ m → reading n db pending phase → reading m db pending phase)
    (mine : Reads reading t id) : Held committed reading t := by
  refine ⟨shape, ?_, ?_⟩
  · rw [moves.db]
    exact rows _ _ _ moves.nextID inv.rows
  · intro other writes startedAt pending phase found held
    by_cases same : other = id
    · subst same
      exact mine writes startedAt pending phase found held
    · rw [moves.others other same] at found
      rw [read_eq_of_db moves.db]
      exact reads _ _ _ _ _ moves.nextID (inv.delivery other writes startedAt pending phase found
        ((moves.locks other same _).mp held))

/-- Everything but cancellation through the API keeps the property, given what the trigger loop's
statements do to the delivery's own reading and what a finished transaction commits. -/
theorem Held.act {action : Action} (positive : 0 < limit) (inv : Held committed reading s)
    (engine : ∀ run, action ≠ .apiCancel run)
    (rows : ∀ n m db, n ≤ m → committed n db → committed m db)
    (reads : ∀ n m db pending phase, n ≤ m → reading n db pending phase → reading m db pending phase)
    (loop : ∀ id oldest writes startedAt m rest phase, action = .advance id oldest →
      s.txns id = some ⟨writes, .delivery startedAt (m :: rest) phase⟩ →
      s.stepDelivery limit id ⟨writes, .delivery startedAt (m :: rest) phase⟩ startedAt m rest phase =
        some t → Reads reading t id)
    (commits : ∀ id txn, s.txns id = some txn → TriggerState.ended txn.body = true →
      committed s.nextID (s.toWorld.view TriggerDb.apply txn))
    (acted : s.act limit action = some t) : Held committed reading t := by
  have shape := act_shape positive inv.shape acted
  cases action with
  | tick =>
      rw [← Option.some.inj acted] at shape ⊢
      exact ⟨shape, inv.rows, inv.delivery⟩
  | beginDelivery id matches_ =>
      simp only [TriggerState.act] at acted
      split at acted
      · contradiction
      · rename_i unused
        rw [← Option.some.inj acted] at shape ⊢
        refine (put_moves s id _ _ s.nextID (Nat.le_refl _)).held inv shape rows reads
          (put_reads fun held => ?_)
        have owned := inv.shape.owned _ _ held
        simp [unused] at owned
  | beginTerminal id run =>
      simp only [TriggerState.act] at acted
      split at acted
      · contradiction
      · rw [← Option.some.inj acted] at shape ⊢
        refine (put_moves s id _ _ s.nextID (Nat.le_refl _)).held inv shape rows reads ?_
        intro writes startedAt pending phase found
        simp [TriggerState.put, World.setTxn] at found
  | advance id oldest =>
      have own := loop id oldest
      simp only [TriggerState.act] at acted
      split at acted
      · contradiction
      · rename_i txn found
        obtain ⟨writes, body⟩ := txn
        cases body with
        | delivery startedAt pending phase =>
            cases pending with
            | nil => contradiction
            | cons m rest =>
                exact (stepDelivery_moves acted).held inv shape rows reads
                  (own writes startedAt m rest phase rfl found acted)
        | terminal run phase =>
            obtain ⟨moves, written, next, set⟩ := stepTerminal_moves acted
            refine moves.held inv shape rows reads ?_
            intro writes startedAt pending phase isDelivery
            rw [set] at isDelivery
            simp at isDelivery
  | commit id =>
      simp only [TriggerState.act] at acted
      split at acted
      · contradiction
      · rename_i txn found
        split at acted
        · rename_i isEnded
          have mine := inv.shape.txn id txn found
          have committedRows := commits id txn found isEnded
          rw [← Option.some.inj acted] at shape ⊢
          refine ⟨shape, committedRows, fun other writes startedAt pending phase others held => ?_⟩
          obtain ⟨stillThere, heldBefore, unchanged⟩ := commit_bystander mine isEnded others held
          have sameRead : ({ s with toWorld := s.toWorld.commit TriggerDb.apply id txn } :
              TriggerState).read ⟨writes, .delivery startedAt pending phase⟩ =
              s.read ⟨writes, .delivery startedAt pending phase⟩ := read_eq_of_db unchanged
          rw [sameRead]
          exact inv.delivery other writes startedAt pending phase stillThere heldBefore
        · contradiction
  | abort id =>
      simp only [TriggerState.act] at acted
      split at acted
      · contradiction
      · rw [← Option.some.inj acted] at shape ⊢
        refine ⟨shape, inv.rows, fun other writes startedAt pending phase others held => ?_⟩
        obtain ⟨stillThere, heldBefore⟩ := finish_bystander others held
        exact inv.delivery other writes startedAt pending phase stillThere heldBefore
  | apiCancel run => exact absurd rfl (engine run)

end

end CultureNodes.Trigger
