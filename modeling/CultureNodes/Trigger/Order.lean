import CultureNodes.Trigger.Ceiling

/-!
The order in which queued triggers become runs. An entry's creation time is the start of the
transaction that queued it, not the moment it was queued, so first come is first served only where
no transaction queues behind an entry of a later start.
-/

namespace CultureNodes.Trigger

open TriggerDb

/-- The queue is in creation order, and the entries that became runs are the first ones queued. -/
structure Ordered (db : TriggerDb) : Prop where
  sorted : db.deferred.Pairwise fun first second => first.createdAt < second.createdAt
  served : db.history = db.drained ++ db.deferred.map DeferredTrigger.id

namespace Ordered

variable {db : TriggerDb}

theorem touchDeferred (ordered : Ordered db) (id event : Nat) :
    Ordered (db.apply (.touchDeferred id event)) := by
  have ids : (db.apply (.touchDeferred id event)).deferred.map DeferredTrigger.id =
      db.deferred.map DeferredTrigger.id := Table.update_keys fun _ => rfl
  have times : (db.apply (.touchDeferred id event)).deferred.map DeferredTrigger.createdAt =
      db.deferred.map DeferredTrigger.createdAt := Table.update_keys fun _ => rfl
  refine ⟨?_, ?_⟩
  · have sorted := List.pairwise_map.mpr ordered.sorted
    rw [← times] at sorted
    exact List.pairwise_map.mp sorted
  · rw [ids]
    exact ordered.served

theorem drained_endRun (run : Nat) : (db.apply (.endRun run)).drained = db.drained := by
  simp only [drained, apply, Table.update, List.filterMap_map]
  congr 1
  funext row
  simp only [Function.comp_apply]
  split <;> rfl

theorem drained_insertRun (run : SubjectRun) :
    (db.apply (.insertRun run)).drained = db.drained ++ run.origin.toList := by
  cases origin : run.origin <;> simp [drained, apply, List.filterMap_append, origin]

theorem endRun (ordered : Ordered db) (run : Nat) : Ordered (db.apply (.endRun run)) :=
  ⟨ordered.sorted, (drained_endRun run).symm ▸ ordered.served⟩

/-- A run that was not drained from the queue leaves the order alone. -/
theorem insertRun {run : SubjectRun} (ordered : Ordered db) (direct : run.origin = none) :
    Ordered (db.apply (.insertRun run)) := by
  refine ⟨ordered.sorted, ?_⟩
  rw [drained_insertRun, direct, Option.toList_none, List.append_nil]
  exact ordered.served

theorem insertDeferred {row : DeferredTrigger} (ordered : Ordered db)
    (late : ∀ earlier ∈ db.deferred, earlier.createdAt < row.createdAt) :
    Ordered (db.apply (.insertDeferred row)) := by
  refine ⟨?_, ?_⟩
  · refine List.pairwise_append.mpr ⟨ordered.sorted, List.pairwise_singleton .., ?_⟩
    intro first firstMember second secondMember
    rw [List.mem_singleton.mp secondMember]
    exact late first firstMember
  · have history : (db.apply (.insertDeferred row)).history = db.history ++ [row.id] := rfl
    rw [history, ordered.served, List.append_assoc]
    simp [apply, drained]

theorem oldest_head (ordered : Ordered db) {entry : DeferredTrigger}
    (isOldest : db.isOldest entry = true) : ∃ rest, db.deferred = entry :: rest := by
  simp only [TriggerDb.isOldest, Bool.and_eq_true, List.contains_iff_mem, List.all_eq_true,
    decide_eq_true_eq] at isOldest
  obtain ⟨member, least⟩ := isOldest
  have sorted := ordered.sorted
  cases queue : db.deferred with
  | nil => simp [queue] at member
  | cons head rest =>
      rw [queue] at member least sorted
      rcases List.mem_cons.mp member with rfl | later
      · exact ⟨rest, rfl⟩
      · have earlier := (List.pairwise_cons.mp sorted).1 entry later
        have notLater := least head List.mem_cons_self
        omega

theorem drain {limit n run fresh : Nat} {entry : DeferredTrigger} (ordered : Ordered db)
    (good : Good limit n db) (isOldest : db.isOldest entry = true) :
    Ordered (((db.apply (.endRun run)).apply (.deleteDeferred entry.id)).apply
      (.insertRun { id := fresh, subject := entry.subject, event := entry.event,
                    origin := some entry.id })) := by
  obtain ⟨rest, queue⟩ := ordered.oldest_head isOldest
  have distinct := good.rowIDs
  have sorted := ordered.sorted
  rw [queue, List.map_cons, List.nodup_cons] at distinct
  rw [queue] at sorted
  have remaining : db.deferred.filter (·.id ≠ entry.id) = rest := by
    rw [queue, List.filter_cons_of_neg (by simp)]
    refine List.filter_eq_self.mpr fun row member => ?_
    have differs : row.id ≠ entry.id := fun same => distinct.1 (same ▸ List.mem_map_of_mem member)
    simpa using differs
  refine ⟨?_, ?_⟩
  · change (db.deferred.filter (·.id ≠ entry.id)).Pairwise _
    rw [remaining]
    exact (List.pairwise_cons.mp sorted).2
  · have drained : (((db.apply (.endRun run)).apply (.deleteDeferred entry.id)).apply
        (.insertRun { id := fresh, subject := entry.subject, event := entry.event,
                      origin := some entry.id })).drained = db.drained ++ [entry.id] := by
      rw [drained_insertRun]
      exact congrArg (· ++ [entry.id]) (drained_endRun run)
    rw [drained]
    change db.history = _ ++ (db.deferred.filter (·.id ≠ entry.id)).map DeferredTrigger.id
    rw [remaining, ordered.served, queue]
    simp

end Ordered

/-- Where first come is first served: an entry is queued by a transaction that started after the
creation of every entry queued before it, and no run is cancelled through the API. -/
def onTime (s : TriggerState) (action : Action) : Prop :=
  engineOnly s action ∧ ∀ id oldest writes startedAt m rest, action = .advance id oldest →
    s.txns id = some ⟨writes, .delivery startedAt (m :: rest) .insert⟩ →
    ∀ row ∈ (s.read ⟨writes, .delivery startedAt (m :: rest) .insert⟩).deferred,
      row.createdAt < startedAt

/-- The ceiling's invariant, and order in every reading. -/
structure InOrder (limit : Nat) (s : TriggerState) : Prop where
  ceiling : Ceiling limit s
  order : Held (fun _ db => Ordered db) (fun _ db _ _ => Ordered db) s

section

variable {limit : Nat} {s t : TriggerState}

theorem stepDelivery_ordered {id startedAt : Nat} {writes : List Write} {m : Match}
    {rest : List Match} {phase : DeliveryPhase} (positive : 0 < limit)
    (inv : Held (fun _ db => Ordered db) (fun _ db _ _ => Ordered db) s)
    (found : s.txns id = some ⟨writes, .delivery startedAt (m :: rest) phase⟩)
    (late : phase = .insert →
      ∀ row ∈ (s.read ⟨writes, .delivery startedAt (m :: rest) .insert⟩).deferred,
        row.createdAt < startedAt)
    (taken : s.stepDelivery limit id ⟨writes, .delivery startedAt (m :: rest) phase⟩ startedAt m rest
      phase = some t) : Reads (fun _ db _ _ => Ordered db) t id := by
  have mine : DeliveryShape s id writes (m :: rest) phase := inv.shape.txn id _ found
  have past := fun moved : phase ≠ .lockWorkflow =>
    inv.delivery id writes startedAt (m :: rest) phase found (mine.past moved).1
  cases phase with
  | lockWorkflow =>
      simp only [TriggerState.stepDelivery] at taken
      split at taken
      · rw [← Option.some.inj taken]
        exact put_reads (inv.delivery id writes startedAt (m :: rest) .lockWorkflow found)
      · refine lockThen_reads taken ?_
        rcases mine with ⟨held, _⟩ | ⟨_, empty, _⟩
        · exact inv.delivery id writes startedAt (m :: rest) .lockWorkflow found held
        · subst empty
          exact inv.rows
  | lockSubject => exact lockThen_reads taken (past DeliveryPhase.noConfusion)
  | readActive =>
      have ordered := past DeliveryPhase.noConfusion
      simp only [TriggerState.stepDelivery] at taken
      split at taken
      · rw [← Option.some.inj taken]
        refine put_reads fun _ => ?_
        rw [read_append writes _ _ (.delivery startedAt (m :: rest) .readActive)]
        exact ⟨ordered.sorted, ordered.served⟩
      · rw [if_pos positive] at taken
        rw [← Option.some.inj taken]
        exact put_reads fun _ => ordered
  | readQueue =>
      have ordered := past DeliveryPhase.noConfusion
      simp only [TriggerState.stepDelivery] at taken
      split at taken
      · rename_i row _
        rw [← Option.some.inj taken]
        refine put_reads fun _ => ?_
        rw [read_append writes _ _ (.delivery startedAt (m :: rest) .readQueue)]
        exact ordered.touchDeferred row.id m.event
      · rw [← Option.some.inj taken]
        exact put_reads fun _ => ordered
  | readCount =>
      have ordered := past DeliveryPhase.noConfusion
      simp only [TriggerState.stepDelivery] at taken
      split at taken
      · rw [← Option.some.inj taken]
        exact put_reads fun _ => ordered
      · rw [← Option.some.inj taken]
        exact put_reads fun _ => ordered
  | insert =>
      have ordered := past DeliveryPhase.noConfusion
      rw [← Option.some.inj taken]
      refine put_reads fun _ => ?_
      rw [read_append writes _ _ (.delivery startedAt (m :: rest) .insert)]
      exact ordered.insertDeferred (late rfl)
  | create =>
      have ordered := past DeliveryPhase.noConfusion
      rw [← Option.some.inj taken]
      refine put_reads fun _ => ?_
      rw [read_append writes _ _ (.delivery startedAt (m :: rest) .create)]
      exact ordered.insertRun rfl

theorem commit_ordered {id : Nat} {txn : Txn Write Body} (inv : InOrder limit s)
    (found : s.txns id = some txn) (isEnded : TriggerState.ended txn.body = true) :
    Ordered (s.toWorld.view TriggerDb.apply txn) := by
  obtain ⟨writes, body⟩ := txn
  have mine := inv.order.shape.txn id _ found
  cases body with
  | delivery startedAt pending phase =>
      rcases mine with ⟨held, _⟩ | ⟨_, empty, _⟩
      · exact inv.order.delivery id writes startedAt pending phase found held
      · have unwritten : writes = [] := empty
        subst unwritten
        exact inv.order.rows
  | terminal run phase =>
      have isDone : phase = .done := by simpa [TriggerState.ended] using isEnded
      subst isDone
      rcases mine with ⟨written, _, _, _⟩ | ⟨entry, fresh, written, draining, _, _⟩
      · have isEndRun : writes = [.endRun run] := written
        subst isEndRun
        exact inv.order.rows.endRun run
      · have isDrain : writes = _ := written
        subst isDrain
        exact inv.order.rows.drain inv.ceiling.rows draining.oldest

theorem act_inOrder {action : Action} (positive : 0 < limit) (inv : InOrder limit s)
    (allowed : onTime s action) (acted : s.act limit action = some t) : InOrder limit t := by
  refine ⟨act_ceiling positive inv.ceiling allowed.1 acted, Held.act positive inv.order allowed.1
    (fun _ _ _ _ ordered => ordered) (fun _ _ _ _ _ _ ordered => ordered) ?_ ?_ acted⟩
  · intro id oldest writes startedAt m rest phase isAdvance found taken
    refine stepDelivery_ordered positive inv.order found (fun isInsert => ?_) taken
    subst isInsert
    exact allowed.2 id oldest writes startedAt m rest isAdvance found
  · exact fun _ _ found isEnded => commit_ordered inv found isEnded

theorem initial_inOrder : InOrder limit TriggerState.initial :=
  ⟨initial_ceiling, initial_shape, ⟨.nil, rfl⟩,
    fun _ _ _ _ _ found => by simp [TriggerState.initial] at found⟩

theorem run_inOrder (positive : 0 < limit)
    (run : Steps (TriggerState.step limit) onTime .initial s) : InOrder limit s :=
  run.invariant (InOrder limit) initial_inOrder fun _ _ _ inv allowed taken =>
    act_inOrder positive inv allowed taken

end

/-- What the ceiling promises of the committed rows. -/
def Bounded (limit : Nat) (db : TriggerDb) : Prop :=
  (∀ subject, (db.activeRuns.filter (·.subject = subject)).length ≤ 1) ∧
    db.activeSubjectRunCount ≤ limit ∧
    (∀ row ∈ db.deferred, db.activeRunBySubject row.subject = none) ∧
    (∀ subject, (db.deferred.filter (·.subject = subject)).length ≤ 1) ∧
    (db.deferred ≠ [] → db.activeSubjectRunCount = limit)

theorem filter_key_length {ρ : Type} {rows : List ρ} {key : ρ → String}
    (distinct : (rows.map key).Nodup) (name : String) :
    (rows.filter (key · = name)).length ≤ 1 := by
  have counted : (rows.filter (key · = name)).length = (rows.map key).count name := by
    rw [List.count, List.countP_map, List.countP_eq_length_filter]
    congr 1
  rw [counted]
  exact List.nodup_iff_count_le_one.mp distinct name

theorem Good.bounded {limit n : Nat} {db : TriggerDb} (good : Good limit n db) : Bounded limit db := by
  refine ⟨filter_key_length good.oneActive, good.ceiling, fun row member => ?_,
    filter_key_length good.oneQueued, good.full⟩
  refine List.find?_eq_none.mpr fun run active => ?_
  simpa using good.disjoint row member run active

/-- Every committed state of every interleaving of deliveries and terminal transitions keeps the
ceiling's promises; and in every interleaving whose queue insertions are on time, the entries that
became runs are, in order, the first ones queued. -/
theorem ceiling_and_queue_order (limit : Nat) (positive : 0 < limit) :
    (∀ s, Steps (TriggerState.step limit) engineOnly .initial s → Bounded limit s.db) ∧
      ∀ s, Steps (TriggerState.step limit) onTime .initial s → s.db.drained <+: s.db.history := by
  refine ⟨fun s run => (run_ceiling positive run).rows.bounded, fun s run => ?_⟩
  rw [(run_inOrder positive run).order.rows.served]
  exact List.prefix_append ..

/-- `onTime` as a check on the state and the action. -/
def onTimeCheck (s : TriggerState) : Action → Bool
  | .apiCancel _ => false
  | .advance id _ =>
      match s.txns id with
      | some ⟨writes, .delivery startedAt (m :: rest) .insert⟩ =>
          (s.read ⟨writes, .delivery startedAt (m :: rest) .insert⟩).deferred.all
            fun row => decide (row.createdAt < startedAt)
      | _ => true
  | _ => true

theorem onTimeCheck_sound (s : TriggerState) (action : Action) (passes : onTimeCheck s action = true) :
    onTime s action := by
  refine ⟨?_, ?_⟩
  · intro run isCancel
    subst isCancel
    simp [onTimeCheck] at passes
  · intro id oldest writes startedAt m rest isAdvance found row member
    subst isAdvance
    simp only [onTimeCheck, found, List.all_eq_true, decide_eq_true_eq] at passes
    exact passes row member

/-- A delivery of one match, run from its start to its commit without a pause. -/
def deliver (txn : Nat) : List Action := List.replicate 6 (.advance txn none) ++ [.commit txn]

/-- A terminal transition of `run` that drains `oldest`, run without a pause. -/
def terminate (txn run : Nat) (oldest : DeferredTrigger) : List Action :=
  .beginTerminal txn run :: List.replicate 7 (.advance txn (some oldest)) ++ [.commit txn]

/-- Under a ceiling of one, `b` waits behind `a` and gets its run when `a`'s ends. -/
theorem ceiling_and_queue_order_served :
    ∃ s : TriggerState,
      s.db.runs = [{ id := 0, subject := "a", event := 10, active := false },
        { id := 2, subject := "b", event := 11, origin := some 1 }] ∧
      Bounded 1 s.db ∧ s.db.drained <+: s.db.history := by
  have ran : (Steps.ofList (fun s => TriggerState.act s 1) onTimeCheck .initial
      ([Action.beginDelivery 0 [⟨"a", 10⟩]] ++ deliver 0 ++ [Action.tick, .beginDelivery 1 [⟨"b", 11⟩]] ++
        deliver 1 ++ terminate 2 0 { id := 1, subject := "b", event := 11, createdAt := 1 })).map
        (·.db.runs) = some [{ id := 0, subject := "a", event := 10, active := false },
          { id := 2, subject := "b", event := 11, origin := some 1 }] := by decide +kernel
  obtain ⟨s, reached, runs⟩ := Option.map_eq_some_iff.mp ran
  have run : Steps (TriggerState.step 1) onTime .initial s :=
    Steps.of_ofList onTimeCheck_sound reached
  exact ⟨s, runs, (ceiling_and_queue_order 1 (by decide)).1 s (run.mono fun _ _ allowed => allowed.1),
    (ceiling_and_queue_order 1 (by decide)).2 s run⟩

/-- `engineOnly` as a check on the action. -/
def engineOnlyCheck (_ : TriggerState) : Action → Bool
  | .apiCancel _ => false
  | _ => true

/-- The delivery of `b` starts before the delivery of `c` but takes the workflow lock after it: `c`
is queued first, and the drain serves `b`. -/
theorem later_queued_served_first :
    ¬ ∀ s, Steps (TriggerState.step 1) engineOnly .initial s →
      Bounded 1 s.db ∧ s.db.drained <+: s.db.history := by
  intro always
  have ran : (Steps.ofList (fun s => TriggerState.act s 1) engineOnlyCheck .initial
      ([Action.beginDelivery 0 [⟨"a", 10⟩]] ++ deliver 0 ++
        [Action.tick, .beginDelivery 1 [⟨"b", 11⟩], .tick, .beginDelivery 2 [⟨"c", 12⟩]] ++
        deliver 2 ++ deliver 1 ++
        terminate 3 0 { id := 2, subject := "b", event := 11, createdAt := 1 })).map
        (fun s => (s.db.drained, s.db.history)) = some ([2], [1, 2]) := by decide +kernel
  obtain ⟨s, reached, order⟩ := Option.map_eq_some_iff.mp ran
  have run : Steps (TriggerState.step 1) engineOnly .initial s := by
    refine Steps.of_ofList (fun _ action passes other isCancel => ?_) reached
    subst isCancel
    contradiction
  have served := (always s run).2
  rw [Prod.mk.injEq] at order
  rw [order.1, order.2] at served
  exact absurd served (by decide)

end CultureNodes.Trigger
