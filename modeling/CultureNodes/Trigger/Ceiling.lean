import CultureNodes.Trigger.Held

/-!
The ceiling on active subject runs and the queue behind it, under deliveries and terminal
transitions. The invariant is stated of a database and holds of the committed one and of what a
delivery past the workflow lock reads.
-/

namespace CultureNodes.Trigger

open TriggerDb

/-- The ceiling's invariant, with every id below `n`. -/
structure Good (limit n : Nat) (db : TriggerDb) : Prop where
  runIDs : (db.activeRuns.map SubjectRun.id).Nodup
  oneActive : (db.activeRuns.map SubjectRun.subject).Nodup
  ceiling : db.activeRuns.length ≤ limit
  disjoint : ∀ row ∈ db.deferred, ∀ run ∈ db.activeRuns, run.subject ≠ row.subject
  rowIDs : (db.deferred.map DeferredTrigger.id).Nodup
  oneQueued : (db.deferred.map DeferredTrigger.subject).Nodup
  full : db.deferred ≠ [] → db.activeRuns.length = limit
  runsBelow : ∀ run ∈ db.runs, run.id < n
  rowsBelow : ∀ row ∈ db.deferred, row.id < n

namespace Good

variable {limit n : Nat} {db : TriggerDb}

theorem mono {m : Nat} (good : Good limit n db) (grown : n ≤ m) : Good limit m db :=
  { good with
    runsBelow := fun run member => Nat.lt_of_lt_of_le (good.runsBelow run member) grown
    rowsBelow := fun row member => Nat.lt_of_lt_of_le (good.rowsBelow row member) grown }

theorem attachEvent (good : Good limit n db) (run event : Nat) :
    Good limit n (db.apply (.attachEvent run event)) :=
  ⟨good.runIDs, good.oneActive, good.ceiling, good.disjoint, good.rowIDs, good.oneQueued, good.full,
    good.runsBelow, good.rowsBelow⟩

/-- A refreshed entry keeps its subject, its id and its place. -/
theorem touchDeferred (good : Good limit n db) (id event : Nat) :
    Good limit n (db.apply (.touchDeferred id event)) := by
  have rowIDs : (db.apply (.touchDeferred id event)).deferred.map DeferredTrigger.id =
      db.deferred.map DeferredTrigger.id := Table.update_keys fun _ => rfl
  have subjects : (db.apply (.touchDeferred id event)).deferred.map DeferredTrigger.subject =
      db.deferred.map DeferredTrigger.subject := Table.update_keys fun _ => rfl
  refine ⟨good.runIDs, good.oneActive, good.ceiling, fun row member run active => ?_,
    rowIDs ▸ good.rowIDs, subjects ▸ good.oneQueued, fun nonempty => good.full ?_, good.runsBelow,
    fun row member => ?_⟩
  · have named : row.subject ∈ db.deferred.map DeferredTrigger.subject :=
      subjects ▸ List.mem_map_of_mem member
    obtain ⟨old, oldMember, same⟩ := List.mem_map.mp named
    exact same ▸ good.disjoint old oldMember run active
  · intro empty
    refine nonempty ?_
    simp only [apply, Table.update, empty, List.map_nil]
  · have numbered : row.id ∈ db.deferred.map DeferredTrigger.id :=
      rowIDs ▸ List.mem_map_of_mem member
    obtain ⟨old, oldMember, same⟩ := List.mem_map.mp numbered
    exact same ▸ good.rowsBelow old oldMember

theorem insertRun {run : SubjectRun} (good : Good limit n db) (isActive : run.active = true)
    (isNew : run.id = n) (notActive : ∀ other ∈ db.activeRuns, other.subject ≠ run.subject)
    (headroom : db.activeRuns.length < limit) :
    Good limit (n + 1) (db.apply (.insertRun run)) := by
  have active : (db.apply (.insertRun run)).activeRuns = db.activeRuns ++ [run] := by
    rw [activeRuns_insertRun, if_pos isActive]
  have empty : db.deferred = [] := by
    by_contra queued
    have full := good.full queued
    omega
  refine ⟨?_, ?_, ?_, ?_, good.rowIDs, good.oneQueued, ?_, ?_, ?_⟩
  · rw [active]
    refine Table.keys_append_nodup good.runIDs fun member => ?_
    obtain ⟨old, oldMember, same⟩ := List.mem_map.mp member
    have below := good.runsBelow old (List.mem_of_mem_filter oldMember)
    omega
  · rw [active]
    refine Table.keys_append_nodup good.oneActive fun member => ?_
    obtain ⟨old, oldMember, same⟩ := List.mem_map.mp member
    exact notActive old oldMember same
  · rw [active, List.length_append, List.length_singleton]
    omega
  · intro row member
    change row ∈ db.deferred at member
    simp [empty] at member
  · exact fun queued => absurd empty queued
  · intro row member
    rcases List.mem_append.mp member with old | new
    · exact Nat.lt_succ_of_lt (good.runsBelow row old)
    · rw [List.mem_singleton.mp new, isNew]
      exact Nat.lt_succ_self n
  · exact fun row member => Nat.lt_succ_of_lt (good.rowsBelow row member)

theorem insertDeferred {row : DeferredTrigger} (good : Good limit n db) (isNew : row.id = n)
    (notActive : ∀ run ∈ db.activeRuns, run.subject ≠ row.subject)
    (notQueued : ∀ other ∈ db.deferred, other.subject ≠ row.subject)
    (none : limit ≤ db.activeRuns.length) :
    Good limit (n + 1) (db.apply (.insertDeferred row)) := by
  refine ⟨good.runIDs, good.oneActive, good.ceiling, fun other member run active => ?_, ?_, ?_, ?_,
    fun run member => Nat.lt_succ_of_lt (good.runsBelow run member), fun other member => ?_⟩
  · rcases List.mem_append.mp member with old | new
    · exact good.disjoint other old run active
    · rw [List.mem_singleton.mp new]
      exact notActive run active
  · refine Table.keys_append_nodup good.rowIDs fun member => ?_
    obtain ⟨old, oldMember, same⟩ := List.mem_map.mp member
    have below := good.rowsBelow old oldMember
    omega
  · refine Table.keys_append_nodup good.oneQueued fun member => ?_
    obtain ⟨old, oldMember, same⟩ := List.mem_map.mp member
    exact notQueued old oldMember same
  · intro _
    exact Nat.le_antisymm good.ceiling none
  · rcases List.mem_append.mp member with old | new
    · exact Nat.lt_succ_of_lt (good.rowsBelow other old)
    · rw [List.mem_singleton.mp new, isNew]
      exact Nat.lt_succ_self n

theorem length_endRun {run : Nat} (good : Good limit n db) (active : db.Active run) :
    (db.apply (.endRun run)).activeRuns.length + 1 = db.activeRuns.length := by
  rw [activeRuns_endRun]
  obtain ⟨row, member, rfl⟩ := active
  have distinct := good.runIDs
  generalize db.activeRuns = runs at member distinct
  induction runs with
  | nil => simp at member
  | cons head rest ih =>
      rw [List.map_cons, List.nodup_cons] at distinct
      rcases List.mem_cons.mp member with rfl | later
      · have others : rest.filter (·.id ≠ row.id) = rest := by
          refine List.filter_eq_self.mpr fun other inRest => ?_
          have differs : other.id ≠ row.id := fun same =>
            distinct.1 (same ▸ List.mem_map_of_mem inRest)
          simpa using differs
        rw [List.filter_cons_of_neg (by simp), others, List.length_cons]
      · have differs : head.id ≠ row.id := fun same =>
          distinct.1 (same ▸ List.mem_map_of_mem later)
        rw [List.filter_cons_of_pos (by simpa using differs), List.length_cons, List.length_cons,
          ih later distinct.2]

theorem sublist_endRun (run : Nat) :
    (db.apply (.endRun run)).activeRuns.Sublist db.activeRuns := by
  rw [activeRuns_endRun]
  exact List.filter_sublist

theorem endRun {run : Nat} (good : Good limit n db) (empty : db.deferred = []) :
    Good limit n (db.apply (.endRun run)) := by
  refine ⟨?_, ?_, ?_, ?_, good.rowIDs, good.oneQueued, fun queued => absurd empty queued, ?_,
    good.rowsBelow⟩
  · exact ((sublist_endRun run).map _).nodup good.runIDs
  · exact ((sublist_endRun run).map _).nodup good.oneActive
  · exact Nat.le_trans (sublist_endRun run).length_le good.ceiling
  · exact fun row member other active =>
      good.disjoint row member other ((sublist_endRun run).subset active)
  · intro row member
    obtain ⟨old, oldMember, rfl⟩ := Table.mem_update.mp member
    have below := good.runsBelow old oldMember
    split <;> exact below

/-- A run that ends and hands its slot to a queued entry: the entry leaves the queue and its subject
becomes active, so the count of active runs is what it was. -/
theorem drain {run fresh : Nat} {entry : DeferredTrigger} (good : Good limit n db)
    (active : db.Active run) (queued : entry ∈ db.deferred) (isNew : ∀ row ∈ db.runs, row.id < fresh)
    (below : fresh < n) :
    Good limit n (((db.apply (.endRun run)).apply (.deleteDeferred entry.id)).apply
      (.insertRun { id := fresh, subject := entry.subject, event := entry.event,
                    origin := some entry.id })) := by
  have activeRuns : (((db.apply (.endRun run)).apply (.deleteDeferred entry.id)).apply
      (.insertRun { id := fresh, subject := entry.subject, event := entry.event,
                    origin := some entry.id })).activeRuns =
      (db.apply (.endRun run)).activeRuns ++
        [{ id := fresh, subject := entry.subject, event := entry.event, origin := some entry.id }] :=
    activeRuns_insertRun _
  have kept := fun (other : SubjectRun) (member : other ∈ (db.apply (.endRun run)).activeRuns) =>
    (sublist_endRun run).subset member
  have counted := good.length_endRun active
  have full := good.full (List.ne_nil_of_mem queued)
  refine ⟨?_, ?_, ?_, ?_, ?_, ?_, ?_, ?_, ?_⟩
  · rw [activeRuns]
    refine Table.keys_append_nodup (((sublist_endRun run).map _).nodup good.runIDs) fun member => ?_
    obtain ⟨old, oldMember, same⟩ := List.mem_map.mp member
    have small := isNew old (List.mem_of_mem_filter (kept old oldMember))
    dsimp only at same
    omega
  · rw [activeRuns]
    refine Table.keys_append_nodup (((sublist_endRun run).map _).nodup good.oneActive)
      fun member => ?_
    obtain ⟨old, oldMember, same⟩ := List.mem_map.mp member
    exact good.disjoint entry queued old (kept old oldMember) same
  · rw [activeRuns, List.length_append, List.length_singleton]
    omega
  · intro row member other isActive
    rw [activeRuns] at isActive
    have rowMember : row ∈ db.deferred.filter (·.id ≠ entry.id) := member
    rw [List.mem_filter] at rowMember
    rcases List.mem_append.mp isActive with old | new
    · exact good.disjoint row rowMember.1 other (kept other old)
    · rw [List.mem_singleton.mp new]
      intro same
      have sameRow := Table.eq_of_key good.oneQueued queued rowMember.1 same
      simp [sameRow] at rowMember
  · exact (List.filter_sublist.map _).nodup good.rowIDs
  · exact (List.filter_sublist.map _).nodup good.oneQueued
  · intro _
    rw [activeRuns, List.length_append, List.length_singleton]
    omega
  · intro row member
    rcases List.mem_append.mp member with old | new
    · obtain ⟨earlier, earlierMember, rfl⟩ := Table.mem_update.mp old
      have small := good.runsBelow earlier earlierMember
      split <;> exact small
    · rw [List.mem_singleton.mp new]
      exact below
  · intro row member
    exact good.rowsBelow row (List.mem_of_mem_filter member)

end Good

/-- What a delivery past the workflow lock has learned about the match it is at. -/
def Known (limit : Nat) (db : TriggerDb) : List Match → DeliveryPhase → Prop
  | m :: _, .readQueue => ∀ run ∈ db.activeRuns, run.subject ≠ m.subject
  | m :: _, .readCount => (∀ run ∈ db.activeRuns, run.subject ≠ m.subject) ∧
      ∀ row ∈ db.deferred, row.subject ≠ m.subject
  | m :: _, .insert => ((∀ run ∈ db.activeRuns, run.subject ≠ m.subject) ∧
      ∀ row ∈ db.deferred, row.subject ≠ m.subject) ∧ limit ≤ db.activeRuns.length
  | m :: _, .create => ((∀ run ∈ db.activeRuns, run.subject ≠ m.subject) ∧
      ∀ row ∈ db.deferred, row.subject ≠ m.subject) ∧ db.activeRuns.length < limit
  | _, _ => True

/-- The ceiling's invariant of the whole system. -/
def Ceiling (limit : Nat) : TriggerState → Prop :=
  Held (Good limit) fun n db pending phase => Good limit n db ∧ Known limit db pending phase

section

variable {limit : Nat} {s t : TriggerState}

theorem find?_subject_none {runs : List SubjectRun} {subject : String}
    (absent : runs.find? (·.subject = subject) = none) : ∀ run ∈ runs, run.subject ≠ subject := by
  intro run member same
  have noMatch := List.find?_eq_none.mp absent run member
  simp [same] at noMatch

theorem find?_row_none {rows : List DeferredTrigger} {subject : String}
    (absent : rows.find? (·.subject = subject) = none) : ∀ row ∈ rows, row.subject ≠ subject := by
  intro row member same
  have noMatch := List.find?_eq_none.mp absent row member
  simp [same] at noMatch

theorem stepDelivery_ceiling {id startedAt : Nat} {writes : List Write} {m : Match}
    {rest : List Match} {phase : DeliveryPhase} (positive : 0 < limit) (inv : Ceiling limit s)
    (found : s.txns id = some ⟨writes, .delivery startedAt (m :: rest) phase⟩)
    (taken : s.stepDelivery limit id ⟨writes, .delivery startedAt (m :: rest) phase⟩ startedAt m rest
      phase = some t) :
    Reads (fun n db pending phase => Good limit n db ∧ Known limit db pending phase) t id := by
  have mine : DeliveryShape s id writes (m :: rest) phase := inv.shape.txn id _ found
  have past := fun moved : phase ≠ .lockWorkflow =>
    inv.delivery id writes startedAt (m :: rest) phase found (mine.past moved).1
  cases phase with
  | lockWorkflow =>
      simp only [TriggerState.stepDelivery] at taken
      split at taken
      · rw [← Option.some.inj taken]
        exact put_reads fun held =>
          ⟨(inv.delivery id writes startedAt (m :: rest) .lockWorkflow found held).1, by
            cases rest <;> trivial⟩
      · have grown := (lockThen_eq_some taken).1.nextID
        refine lockThen_reads taken ⟨?_, trivial⟩
        rcases mine with ⟨held, _⟩ | ⟨_, empty, _⟩
        · exact (inv.delivery id writes startedAt (m :: rest) .lockWorkflow found held).1.mono grown
        · subst empty
          exact inv.rows.mono grown
  | lockSubject =>
      obtain ⟨good, _⟩ := past DeliveryPhase.noConfusion
      exact lockThen_reads taken ⟨good.mono (stepDelivery_moves taken).nextID, trivial⟩
  | readActive =>
      obtain ⟨good, _⟩ := past DeliveryPhase.noConfusion
      simp only [TriggerState.stepDelivery] at taken
      split at taken
      · rename_i run _
        rw [← Option.some.inj taken]
        refine put_reads fun _ => ⟨?_, by cases rest <;> trivial⟩
        rw [read_append writes _ _ (.delivery startedAt (m :: rest) .readActive)]
        exact good.attachEvent run.id m.event
      · rename_i absent
        rw [if_pos positive] at taken
        rw [← Option.some.inj taken]
        exact put_reads fun _ => ⟨good, find?_subject_none absent⟩
  | readQueue =>
      obtain ⟨good, known⟩ := past DeliveryPhase.noConfusion
      simp only [TriggerState.stepDelivery] at taken
      split at taken
      · rename_i row _
        rw [← Option.some.inj taken]
        refine put_reads fun _ => ⟨?_, by cases rest <;> trivial⟩
        rw [read_append writes _ _ (.delivery startedAt (m :: rest) .readQueue)]
        exact good.touchDeferred row.id m.event
      · rename_i absent
        rw [← Option.some.inj taken]
        exact put_reads fun _ => ⟨good, known, find?_row_none absent⟩
  | readCount =>
      obtain ⟨good, known⟩ := past DeliveryPhase.noConfusion
      simp only [TriggerState.stepDelivery] at taken
      split at taken
      · rename_i noRoom
        rw [← Option.some.inj taken]
        exact put_reads fun _ => ⟨good, known, noRoom⟩
      · rename_i room
        rw [← Option.some.inj taken]
        exact put_reads fun _ => ⟨good, known, Nat.lt_of_not_le room⟩
  | insert =>
      obtain ⟨good, known⟩ := past DeliveryPhase.noConfusion
      rw [← Option.some.inj taken]
      refine put_reads fun _ => ⟨?_, by cases rest <;> trivial⟩
      rw [read_append writes _ _ (.delivery startedAt (m :: rest) .insert)]
      exact good.insertDeferred rfl known.1.1 known.1.2 known.2
  | create =>
      obtain ⟨good, known⟩ := past DeliveryPhase.noConfusion
      rw [← Option.some.inj taken]
      refine put_reads fun _ => ⟨?_, by cases rest <;> trivial⟩
      rw [read_append writes _ _ (.delivery startedAt (m :: rest) .create)]
      exact good.insertRun rfl rfl known.1.1 known.2

/-- What a finished transaction commits. -/
theorem commit_good {id : Nat} {txn : Txn Write Body} (inv : Ceiling limit s)
    (found : s.txns id = some txn) (isEnded : TriggerState.ended txn.body = true) :
    Good limit s.nextID (s.toWorld.view TriggerDb.apply txn) := by
  obtain ⟨writes, body⟩ := txn
  have mine := inv.shape.txn id _ found
  cases body with
  | delivery startedAt pending phase =>
      rcases mine with ⟨held, _⟩ | ⟨_, empty, _⟩
      · exact (inv.delivery id writes startedAt pending phase found held).1
      · have unwritten : writes = [] := empty
        subst unwritten
        exact inv.rows
  | terminal run phase =>
      have isDone : phase = .done := by simpa [TriggerState.ended] using isEnded
      subst isDone
      rcases mine with ⟨written, ending, _, empty⟩ | ⟨entry, fresh, written, draining, isNew, below⟩
      · have isEndRun : writes = [.endRun run] := written
        subst isEndRun
        exact inv.rows.endRun empty
      · have isDrain : writes = _ := written
        subst isDrain
        have queued : entry ∈ s.db.deferred := by
          have oldest := draining.oldest
          simp only [isOldest, Bool.and_eq_true, List.contains_iff_mem] at oldest
          exact oldest.1
        exact inv.rows.drain draining.active queued isNew below

/-- Deliveries and the engine's terminal transitions: everything but cancellation through the API. -/
def engineOnly (_ : TriggerState) (action : Action) : Prop := ∀ run, action ≠ .apiCancel run

theorem act_ceiling {action : Action} (positive : 0 < limit) (inv : Ceiling limit s)
    (allowed : engineOnly s action) (acted : s.act limit action = some t) : Ceiling limit t := by
  refine Held.act positive inv allowed (fun _ _ _ grown good => good.mono grown)
    (fun _ _ _ _ _ grown own => ⟨own.1.mono grown, own.2⟩) ?_ ?_ acted
  · exact fun _ _ _ _ _ _ _ _ found taken => stepDelivery_ceiling positive inv found taken
  · exact fun _ _ found isEnded => commit_good inv found isEnded

theorem initial_ceiling : Ceiling limit TriggerState.initial := by
  refine ⟨initial_shape, ⟨?_, ?_, ?_, ?_, ?_, ?_, ?_, ?_, ?_⟩, ?_⟩ <;>
    simp [TriggerState.initial, activeRuns]

theorem run_ceiling (positive : 0 < limit)
    (run : Steps (TriggerState.step limit) engineOnly .initial s) : Ceiling limit s :=
  run.invariant (Ceiling limit) initial_ceiling fun _ _ _ inv allowed taken =>
    act_ceiling positive inv allowed taken

end

end CultureNodes.Trigger
