import CultureNodes.Trigger.Ceiling

/-!
Deliveries and terminal transitions while the workflow is republished. Every event is matched against
the version that is the newest when it is delivered, and a queue entry and a run keep the version of
the event they come from, so an event determines the ceiling its transactions work under: `limitOf`
gives it, zero where that version declares none. A version without a ceiling takes no workflow lock
and never looks at the queue.
-/

namespace CultureNodes.Trigger

namespace TriggerState

/-- The ceiling of the version that the transaction of an action works under: a delivery's newest
version, a terminal transition's run's own. -/
def limitAt (s : TriggerState) (limitOf : Nat → Nat) : Action → Nat
  | .advance id _ =>
      match s.txns id with
      | some ⟨_, .delivery _ (m :: _) _⟩ => limitOf m.event
      | some ⟨_, .terminal run _⟩ =>
          match s.db.runs.find? (·.id = run) with
          | some row => limitOf row.event
          | none => 0
      | _ => 0
  | _ => 0

def actUnder (limitOf : Nat → Nat) (s : TriggerState) (action : Action) : Option TriggerState :=
  s.act (s.limitAt limitOf action) action

def stepUnder (limitOf : Nat → Nat) (s : TriggerState) (action : Action) (next : TriggerState) : Prop :=
  s.actUnder limitOf action = some next

/-- Under a version without a ceiling, a delivery creates no run for a subject that has an entry in
the queue. An entry counts until its deletion is committed. -/
def sparesQueued (limitOf : Nat → Nat) (s : TriggerState) : Action → Bool
  | .advance id _ =>
      match s.txns id with
      | some ⟨writes, .delivery startedAt (m :: rest) .create⟩ =>
          decide (0 < limitOf m.event) ||
            !(s.db.deferred ++ (s.read ⟨writes, .delivery startedAt (m :: rest) .create⟩).deferred).any
              (·.subject = m.subject)
      | _ => true
  | _ => true

end TriggerState

/-- The subject an insert claims. -/
def Write.subject? : Write → Option String
  | .insertRun run => some run.subject
  | .insertDeferred row => some row.subject
  | _ => none

def Write.queues : Write → Bool
  | .insertDeferred _ | .touchDeferred _ _ | .deleteDeferred _ => true
  | _ => false

/-- The writes a delivery makes: it ends no run and deletes no entry. -/
def Write.delivers : Write → Bool
  | .insertRun run => run.active
  | .endRun _ | .deleteDeferred _ => false
  | _ => true

/-- The subjects a transaction's inserts claim. -/
def claimed (writes : List Write) : List String := writes.filterMap Write.subject?

theorem mem_claimed {writes : List Write} {write : Write} {subject : String} (member : write ∈ writes)
    (claims : write.subject? = some subject) : subject ∈ claimed writes :=
  List.mem_filterMap.mpr ⟨write, member, claims⟩

theorem claimed_append {writes : List Write} {write : Write} :
    claimed (writes ++ [write]) = claimed writes ++ write.subject?.toList := by
  simp only [claimed, List.filterMap_append, List.filterMap_cons, List.filterMap_nil]
  cases write.subject? <;> rfl

namespace TriggerDb

variable {db : TriggerDb} {write : Write} {writes : List Write} {subject : String}

def Idle (db : TriggerDb) (subject : String) : Prop := ∀ run ∈ db.activeRuns, run.subject ≠ subject

def Unqueued (db : TriggerDb) (subject : String) : Prop := ∀ row ∈ db.deferred, row.subject ≠ subject

theorem Idle.apply (idle : db.Idle subject) (other : write.subject? ≠ some subject) :
    (db.apply write).Idle subject := by
  cases write with
  | insertRun run =>
      intro row member
      rw [activeRuns_insertRun] at member
      rcases List.mem_append.mp member with old | new
      · exact idle row old
      · split at new
        · rw [List.mem_singleton.mp new]
          exact fun same => other (congrArg some same)
        · contradiction
  | endRun id => exact fun row member => idle row (mem_activeRuns_endRun.mp member).1
  | attachEvent run event => exact idle
  | insertDeferred row => exact idle
  | touchDeferred row event => exact idle
  | deleteDeferred row => exact idle

theorem Unqueued.apply (unqueued : db.Unqueued subject) (other : write.subject? ≠ some subject) :
    (db.apply write).Unqueued subject := by
  cases write with
  | insertDeferred entry =>
      intro row member
      rcases List.mem_append.mp member with old | new
      · exact unqueued row old
      · rw [List.mem_singleton.mp new]
        exact fun same => other (congrArg some same)
  | touchDeferred entry event =>
      intro row member
      obtain ⟨old, oldMember, rfl⟩ := Table.mem_update.mp member
      have kept := unqueued old oldMember
      split <;> exact kept
  | deleteDeferred entry => exact fun row member => unqueued row (List.mem_of_mem_filter member)
  | insertRun run => exact unqueued
  | endRun id => exact unqueued
  | attachEvent run event => exact unqueued

theorem unclaimed_applyAll (unclaimed : subject ∉ claimed writes) :
    (db.Idle subject → (writes.foldl TriggerDb.apply db).Idle subject) ∧
      (db.Unqueued subject → (writes.foldl TriggerDb.apply db).Unqueued subject) := by
  induction writes generalizing db with
  | nil => exact ⟨id, id⟩
  | cons write rest ih =>
      have other : write.subject? ≠ some subject := fun claims =>
        unclaimed (mem_claimed List.mem_cons_self claims)
      have notLater : subject ∉ claimed rest := by
        intro member
        obtain ⟨later, laterMember, claims⟩ := List.mem_filterMap.mp member
        exact unclaimed (mem_claimed (List.mem_cons_of_mem _ laterMember) claims)
      have later := @ih (db.apply write) notLater
      exact ⟨fun idle => later.1 (idle.apply other), fun unqueued => later.2 (unqueued.apply other)⟩

theorem deferred_applyAll_silent (silent : ∀ write ∈ writes, write.queues = false) :
    (writes.foldl TriggerDb.apply db).deferred = db.deferred := by
  induction writes generalizing db with
  | nil => rfl
  | cons write rest ih =>
      rw [List.foldl_cons, ih fun later member => silent later (List.mem_cons_of_mem _ member)]
      have quiet := silent write List.mem_cons_self
      cases write <;> first | rfl | contradiction

theorem shown_applyAll (plain : ∀ write ∈ writes, write.delivers = true) :
    ((writes.foldl TriggerDb.apply db).Idle subject → db.Idle subject ∧
      ∀ run, Write.insertRun run ∈ writes → run.subject ≠ subject) ∧
    ((writes.foldl TriggerDb.apply db).Unqueued subject → db.Unqueued subject ∧
      ∀ row, Write.insertDeferred row ∈ writes → row.subject ≠ subject) := by
  induction writes generalizing db with
  | nil => simp
  | cons write rest ih =>
      obtain ⟨idleLater, unqueuedLater⟩ :=
        @ih (db.apply write) fun later member => plain later (List.mem_cons_of_mem _ member)
      have isPlain := plain write List.mem_cons_self
      constructor
      · intro idle
        obtain ⟨first, others⟩ := idleLater idle
        refine ⟨fun run member => ?_, fun run member => ?_⟩
        · cases write with
          | insertRun new =>
              refine first run ?_
              rw [activeRuns_insertRun]
              exact List.mem_append_left _ member
          | endRun id => contradiction
          | deleteDeferred id => contradiction
          | attachEvent id event => exact first run member
          | insertDeferred row => exact first run member
          | touchDeferred id event => exact first run member
        · rcases List.mem_cons.mp member with rfl | later
          · refine first run ?_
            have isActive : run.active = true := isPlain
            rw [activeRuns_insertRun, if_pos isActive]
            exact List.mem_append_right _ (List.mem_singleton_self run)
          · exact others run later
      · intro unqueued
        obtain ⟨first, others⟩ := unqueuedLater unqueued
        refine ⟨fun row member => ?_, fun row member => ?_⟩
        · cases write with
          | insertRun new => exact first row member
          | endRun id => contradiction
          | deleteDeferred id => contradiction
          | attachEvent id event => exact first row member
          | insertDeferred new => exact first row (List.mem_append_left _ member)
          | touchDeferred id event =>
              have kept := first _ (Table.mem_update_of_mem _ _ member)
              split at kept <;> exact kept
        · rcases List.mem_cons.mp member with rfl | later
          · exact first row (List.mem_append_right _ (List.mem_singleton_self row))
          · exact others row later

/-- At most one active run and at most one queue entry for a subject, and never both. -/
structure Exclusive (db : TriggerDb) : Prop where
  oneActive : (db.activeRuns.map SubjectRun.subject).Nodup
  oneQueued : (db.deferred.map DeferredTrigger.subject).Nodup
  disjoint : ∀ row ∈ db.deferred, db.Idle row.subject

namespace Exclusive

theorem endRun (exclusive : db.Exclusive) (id : Nat) : (db.apply (.endRun id)).Exclusive := by
  refine ⟨?_, exclusive.oneQueued, fun row member => (exclusive.disjoint row member).apply (by rintro ⟨⟩)⟩
  rw [activeRuns_endRun]
  exact (List.filter_sublist.map _).nodup exclusive.oneActive

theorem deleteDeferred (exclusive : db.Exclusive) (id : Nat) :
    (db.apply (.deleteDeferred id)).Exclusive :=
  ⟨exclusive.oneActive, (List.filter_sublist.map _).nodup exclusive.oneQueued,
    fun row member => exclusive.disjoint row (List.mem_of_mem_filter member)⟩

theorem insertRun {run : SubjectRun} (exclusive : db.Exclusive) (idle : db.Idle run.subject)
    (unqueued : db.Unqueued run.subject) : (db.apply (.insertRun run)).Exclusive := by
  refine ⟨?_, exclusive.oneQueued, fun row member => ?_⟩
  · rw [activeRuns_insertRun]
    split
    · refine Table.keys_append_nodup exclusive.oneActive fun member => ?_
      obtain ⟨old, oldMember, same⟩ := List.mem_map.mp member
      exact idle old oldMember same
    · rw [List.append_nil]
      exact exclusive.oneActive
  · exact (exclusive.disjoint row member).apply fun claims =>
      unqueued row member (Option.some.inj claims).symm

theorem insertDeferred {row : DeferredTrigger} (exclusive : db.Exclusive) (idle : db.Idle row.subject)
    (unqueued : db.Unqueued row.subject) : (db.apply (.insertDeferred row)).Exclusive := by
  refine ⟨exclusive.oneActive, Table.keys_append_nodup exclusive.oneQueued fun member => ?_,
    fun other member => ?_⟩
  · obtain ⟨old, oldMember, same⟩ := List.mem_map.mp member
    exact unqueued old oldMember same
  · rcases List.mem_append.mp member with old | new
    · exact exclusive.disjoint other old
    · rw [List.mem_singleton.mp new]
      exact idle

theorem touchDeferred (exclusive : db.Exclusive) (id event : Nat) :
    (db.apply (.touchDeferred id event)).Exclusive := by
  refine ⟨exclusive.oneActive, ?_, fun row member => ?_⟩
  · have kept : (db.apply (.touchDeferred id event)).deferred.map DeferredTrigger.subject =
        db.deferred.map DeferredTrigger.subject := Table.update_keys fun _ => rfl
    rw [kept]
    exact exclusive.oneQueued
  · obtain ⟨old, oldMember, rfl⟩ := Table.mem_update.mp member
    have kept := exclusive.disjoint old oldMember
    split <;> exact kept

theorem apply (exclusive : db.Exclusive)
    (fresh : ∀ subject, write.subject? = some subject → db.Idle subject ∧ db.Unqueued subject) :
    (db.apply write).Exclusive := by
  cases write with
  | insertRun run => exact exclusive.insertRun (fresh _ rfl).1 (fresh _ rfl).2
  | insertDeferred row => exact exclusive.insertDeferred (fresh _ rfl).1 (fresh _ rfl).2
  | endRun id => exact exclusive.endRun id
  | deleteDeferred id => exact exclusive.deleteDeferred id
  | touchDeferred id event => exact exclusive.touchDeferred id event
  | attachEvent run event => exact ⟨exclusive.oneActive, exclusive.oneQueued, exclusive.disjoint⟩

theorem applyAll (exclusive : db.Exclusive) (distinct : (claimed writes).Nodup)
    (fresh : ∀ subject ∈ claimed writes, db.Idle subject ∧ db.Unqueued subject) :
    (writes.foldl TriggerDb.apply db).Exclusive := by
  induction writes generalizing db with
  | nil => exact exclusive
  | cons write rest ih =>
      have split : claimed (write :: rest) = write.subject?.toList ++ claimed rest := by
        simp only [claimed, List.filterMap_cons]
        cases write.subject? <;> rfl
      rw [split] at distinct fresh
      obtain ⟨_, later, apart⟩ := List.nodup_append.mp distinct
      refine ih (exclusive.apply fun subject claims => fresh subject ?_) later fun subject member => ?_
      · rw [claims]
        exact List.mem_append_left _ (List.mem_singleton_self subject)
      · obtain ⟨idle, unqueued⟩ := fresh subject (List.mem_append_right _ member)
        have other : write.subject? ≠ some subject := by
          intro claims
          refine apart subject ?_ subject member rfl
          rw [claims]
          exact List.mem_singleton_self subject
        exact ⟨idle.apply other, unqueued.apply other⟩

theorem drain {run fresh : Nat} {entry : DeferredTrigger} (exclusive : db.Exclusive)
    (queued : entry ∈ db.deferred) :
    (((db.apply (.endRun run)).apply (.deleteDeferred entry.id)).apply
      (.insertRun { id := fresh, subject := entry.subject, event := entry.event,
                    origin := some entry.id })).Exclusive := by
  refine ((exclusive.endRun run).deleteDeferred entry.id).insertRun ?_ fun row member same => ?_
  · have idle : (db.apply (.endRun run)).Idle entry.subject :=
      (exclusive.disjoint entry queued).apply (by rintro ⟨⟩)
    exact idle.apply (by rintro ⟨⟩)
  · obtain ⟨rowMember, other⟩ := List.mem_filter.mp member
    obtain rfl := Table.eq_of_key exclusive.oneQueued rowMember queued same
    simp at other

end Exclusive
end TriggerDb

open TriggerDb

/-- What holds of a delivery wherever it stands: the subjects it has claimed are locked by it, and
neither active nor queued for anyone else. -/
structure Delivering (s : TriggerState) (id : Nat) (writes : List Write) : Prop where
  plain : ∀ write ∈ writes, write.delivers = true
  distinct : (claimed writes).Nodup
  locked : ∀ subject ∈ claimed writes, s.holder (.subject subject) = some id
  fresh : ∀ subject ∈ claimed writes, s.db.Idle subject ∧ s.db.Unqueued subject
  queueing : ∀ write ∈ writes, write.queues = true → s.holder .workflow = some id

/-- No committed run of the subject is active, and the transaction has inserted none. -/
def Absent (s : TriggerState) (writes : List Write) (subject : String) : Prop :=
  s.db.Idle subject ∧ ∀ run, Write.insertRun run ∈ writes → run.subject ≠ subject

/-- ... and there is no queue entry of the subject either. -/
def Unclaimed (s : TriggerState) (writes : List Write) (subject : String) : Prop :=
  s.db.Idle subject ∧ s.db.Unqueued subject ∧ subject ∉ claimed writes

def Learned (limitOf : Nat → Nat) (s : TriggerState) (id : Nat) (writes : List Write) :
    List Match → DeliveryPhase → Prop
  | [], _ | _, .lockWorkflow => True
  | m :: _, .lockSubject => 0 < limitOf m.event → s.holder .workflow = some id
  | m :: _, .readActive => (0 < limitOf m.event → s.holder .workflow = some id) ∧
      s.holder (.subject m.subject) = some id
  | m :: _, .readQueue => s.holder .workflow = some id ∧ s.holder (.subject m.subject) = some id ∧
      Absent s writes m.subject
  | m :: _, .readCount | m :: _, .insert => s.holder .workflow = some id ∧
      s.holder (.subject m.subject) = some id ∧ Unclaimed s writes m.subject
  | m :: _, .create => s.holder (.subject m.subject) = some id ∧ Absent s writes m.subject ∧
      (0 < limitOf m.event → Unclaimed s writes m.subject)

/-- A terminal transition with an entry picked: the entry stays in the queue for everyone else. -/
structure Picked (s : TriggerState) (id : Nat) (entry : DeferredTrigger) : Prop where
  workflow : s.holder .workflow = some id
  queued : entry ∈ s.db.deferred

def Terminating (s : TriggerState) (id : Nat) (writes : List Write) (run : Nat) :
    TerminalPhase → Prop
  | .lockRun | .readRun => writes = []
  | .lockWorkflow => writes = [.endRun run]
  | .readOldest => writes = [.endRun run] ∧ s.holder .workflow = some id
  | .delete entry => writes = [.endRun run] ∧ Picked s id entry
  | .lockSubject entry => writes = [.endRun run, .deleteDeferred entry.id] ∧ Picked s id entry
  | .create entry => writes = [.endRun run, .deleteDeferred entry.id] ∧ Picked s id entry ∧
      s.holder (.subject entry.subject) = some id
  | .done => writes = [.endRun run] ∨
      ∃ entry fresh, writes = [.endRun run, .deleteDeferred entry.id,
          .insertRun { id := fresh, subject := entry.subject, event := entry.event,
                       origin := some entry.id }] ∧
        Picked s id entry ∧ s.holder (.subject entry.subject) = some id

def TxnStanding (limitOf : Nat → Nat) (s : TriggerState) (id : Nat) (txn : Txn Write Body) : Prop :=
  match txn.body with
  | .delivery _ pending phase => Delivering s id txn.writes ∧ Learned limitOf s id txn.writes pending phase
  | .terminal run phase => Terminating s id txn.writes run phase

structure Single (limitOf : Nat → Nat) (s : TriggerState) : Prop where
  rows : s.db.Exclusive
  txn : ∀ id txn, s.txns id = some txn → TxnStanding limitOf s id txn

/-- What the standing of a transaction depends on: its locks, the subjects it has locked and, while it
holds the workflow lock, the queue. -/
structure Steady (s t : TriggerState) (id : Nat) : Prop where
  locks : ∀ key, s.holder key = some id → t.holder key = some id
  idle : ∀ subject, s.holder (.subject subject) = some id → s.db.Idle subject → t.db.Idle subject
  unqueued : ∀ subject, s.holder (.subject subject) = some id → s.db.Unqueued subject →
    t.db.Unqueued subject
  queue : s.holder .workflow = some id → t.db.deferred = s.db.deferred

section

variable {limitOf : Nat → Nat} {s t : TriggerState} {id : Nat} {txn : Txn Write Body}

theorem Steady.of_db (locks : ∀ key, s.holder key = some id → t.holder key = some id)
    (same : t.db = s.db) : Steady s t id :=
  ⟨locks, fun _ _ idle => same ▸ idle, fun _ _ unqueued => same ▸ unqueued, fun _ => by rw [same]⟩

theorem Delivering.carry {writes : List Write} (delivering : Delivering s id writes)
    (steady : Steady s t id) : Delivering t id writes where
  plain := delivering.plain
  distinct := delivering.distinct
  locked subject member := steady.locks _ (delivering.locked subject member)
  fresh subject member := by
    have lock := delivering.locked subject member
    obtain ⟨idle, unqueued⟩ := delivering.fresh subject member
    exact ⟨steady.idle subject lock idle, steady.unqueued subject lock unqueued⟩
  queueing write member queues := steady.locks _ (delivering.queueing write member queues)

theorem Absent.carry {writes : List Write} {subject : String} (absent : Absent s writes subject)
    (steady : Steady s t id) (lock : s.holder (.subject subject) = some id) : Absent t writes subject :=
  ⟨steady.idle subject lock absent.1, absent.2⟩

theorem Unclaimed.carry {writes : List Write} {subject : String}
    (unclaimed : Unclaimed s writes subject) (steady : Steady s t id)
    (lock : s.holder (.subject subject) = some id) : Unclaimed t writes subject :=
  ⟨steady.idle subject lock unclaimed.1, steady.unqueued subject lock unclaimed.2.1, unclaimed.2.2⟩

theorem Learned.carry {writes : List Write} {pending : List Match} {phase : DeliveryPhase}
    (learned : Learned limitOf s id writes pending phase) (steady : Steady s t id) :
    Learned limitOf t id writes pending phase := by
  cases pending with
  | nil => cases phase <;> trivial
  | cons m rest =>
      cases phase with
      | lockWorkflow => trivial
      | lockSubject => exact fun ceiling => steady.locks _ (learned ceiling)
      | readActive =>
          exact ⟨fun ceiling => steady.locks _ (learned.1 ceiling), steady.locks _ learned.2⟩
      | readQueue =>
          obtain ⟨workflow, lock, absent⟩ := learned
          exact ⟨steady.locks _ workflow, steady.locks _ lock, absent.carry steady lock⟩
      | readCount =>
          obtain ⟨workflow, lock, unclaimed⟩ := learned
          exact ⟨steady.locks _ workflow, steady.locks _ lock, unclaimed.carry steady lock⟩
      | insert =>
          obtain ⟨workflow, lock, unclaimed⟩ := learned
          exact ⟨steady.locks _ workflow, steady.locks _ lock, unclaimed.carry steady lock⟩
      | create =>
          obtain ⟨lock, absent, unclaimed⟩ := learned
          exact ⟨steady.locks _ lock, absent.carry steady lock,
            fun ceiling => (unclaimed ceiling).carry steady lock⟩

theorem Picked.carry {entry : DeferredTrigger} (picked : Picked s id entry) (steady : Steady s t id) :
    Picked t id entry := by
  refine ⟨steady.locks _ picked.workflow, ?_⟩
  rw [steady.queue picked.workflow]
  exact picked.queued

theorem Terminating.carry {writes : List Write} {run : Nat} {phase : TerminalPhase}
    (terminating : Terminating s id writes run phase) (steady : Steady s t id) :
    Terminating t id writes run phase := by
  cases phase with
  | lockRun => exact terminating
  | readRun => exact terminating
  | lockWorkflow => exact terminating
  | readOldest => exact ⟨terminating.1, steady.locks _ terminating.2⟩
  | delete entry => exact ⟨terminating.1, terminating.2.carry steady⟩
  | lockSubject entry => exact ⟨terminating.1, terminating.2.carry steady⟩
  | create entry =>
      obtain ⟨written, picked, lock⟩ := terminating
      exact ⟨written, picked.carry steady, steady.locks _ lock⟩
  | done =>
      rcases terminating with written | ⟨entry, fresh, written, picked, lock⟩
      · exact Or.inl written
      · exact Or.inr ⟨entry, fresh, written, picked.carry steady, steady.locks _ lock⟩

theorem TxnStanding.carry (standing : TxnStanding limitOf s id txn) (steady : Steady s t id) :
    TxnStanding limitOf t id txn := by
  unfold TxnStanding at standing ⊢
  cases body : txn.body with
  | delivery startedAt pending phase =>
      simp only [body] at standing ⊢
      exact ⟨standing.1.carry steady, standing.2.carry steady⟩
  | terminal run phase =>
      simp only [body] at standing ⊢
      exact standing.carry steady

/-- Whatever a transaction is, it has locked the subjects it claims, and it writes the queue only
under the workflow lock. -/
theorem TxnStanding.locked (standing : TxnStanding limitOf s id txn) :
    (∀ subject ∈ claimed txn.writes, s.holder (.subject subject) = some id) ∧
      ∀ write ∈ txn.writes, write.queues = true → s.holder .workflow = some id := by
  obtain ⟨writes, body⟩ := txn
  cases body with
  | delivery startedAt pending phase => exact ⟨standing.1.locked, standing.1.queueing⟩
  | terminal run phase =>
      have ends : writes = [.endRun run] →
          (∀ subject ∈ claimed writes, s.holder (.subject subject) = some id) ∧
            ∀ write ∈ writes, write.queues = true → s.holder .workflow = some id := by
        rintro rfl
        simp [claimed, Write.subject?, Write.queues]
      have deletes : ∀ entry, writes = [.endRun run, .deleteDeferred entry.id] → Picked s id entry →
          (∀ subject ∈ claimed writes, s.holder (.subject subject) = some id) ∧
            ∀ write ∈ writes, write.queues = true → s.holder .workflow = some id := by
        rintro entry rfl picked
        exact ⟨by simp [claimed, Write.subject?], fun _ _ _ => picked.workflow⟩
      cases phase with
      | lockRun =>
          have empty : writes = [] := standing
          simp [empty, claimed]
      | readRun =>
          have empty : writes = [] := standing
          simp [empty, claimed]
      | lockWorkflow => exact ends standing
      | readOldest => exact ends standing.1
      | delete entry => exact ends standing.1
      | lockSubject entry => exact deletes entry standing.1 standing.2
      | create entry => exact deletes entry standing.1 standing.2.1
      | done =>
          rcases standing with written | ⟨entry, fresh, written, picked, lock⟩
          · exact ends written
          · have isDrain : writes = _ := written
            subst isDrain
            refine ⟨fun subject member => ?_, fun _ _ _ => picked.workflow⟩
            have isEntry : entry.subject = subject := by
              simpa [claimed, Write.subject?] using member
            rw [← isEntry]
            exact lock

theorem Moves.single (moves : Moves s t id) (single : Single limitOf s)
    (mine : ∀ txn, t.txns id = some txn → TxnStanding limitOf t id txn) : Single limitOf t := by
  refine ⟨moves.db ▸ single.rows, fun other txn found => ?_⟩
  by_cases same : other = id
  · subst same
    exact mine txn found
  · rw [moves.others other same] at found
    exact (single.txn other txn found).carry
      (.of_db (fun key => (moves.locks other same key).mpr) moves.db)

theorem put_single {writes : List Write} {body : Body} (n : Nat) (grown : s.nextID ≤ n)
    (single : Single limitOf s) (mine : TxnStanding limitOf s id ⟨writes, body⟩) :
    Single limitOf { s.put id writes body with nextID := n } := by
  refine (put_moves s id writes body n grown).single single fun txn found => ?_
  have same : txn = ⟨writes, body⟩ := by
    simpa [TriggerState.put, World.setTxn] using found.symm
  rw [same]
  exact mine.carry (.of_db (fun _ held => held) rfl)

theorem lockThen_single {key : LockKey} {writes : List Write} {body : Body}
    (locked : s.lockThen id key writes body = some t) (single : Single limitOf s)
    (mine : Steady s t id → t.holder key = some id → TxnStanding limitOf t id ⟨writes, body⟩) :
    Single limitOf t := by
  obtain ⟨moves, lock, set, _⟩ := lockThen_eq_some locked
  refine moves.single single fun txn found => ?_
  have same : txn = ⟨writes, body⟩ := Option.some.inj (found.symm.trans set)
  rw [same]
  exact mine (.of_db moves.keeps moves.db) lock

theorem learned_lockWorkflow {writes : List Write} {pending : List Match} :
    Learned limitOf s id writes pending .lockWorkflow := by
  cases pending <;> trivial

theorem Delivering.append {writes : List Write} {write : Write} (delivering : Delivering s id writes)
    (delivers : write.delivers = true)
    (claims : ∀ subject, write.subject? = some subject →
      s.holder (.subject subject) = some id ∧ Unclaimed s writes subject)
    (queueing : write.queues = true → s.holder .workflow = some id) :
    Delivering s id (writes ++ [write]) := by
  have member : ∀ subject ∈ claimed (writes ++ [write]),
      subject ∈ claimed writes ∨ write.subject? = some subject := by
    intro subject isClaimed
    rw [claimed_append] at isClaimed
    simpa using isClaimed
  refine ⟨fun other isWritten => ?_, ?_, fun subject isClaimed => ?_, fun subject isClaimed => ?_,
    fun other isWritten queues => ?_⟩
  · rcases List.mem_append.mp isWritten with old | new
    · exact delivering.plain other old
    · rw [List.mem_singleton.mp new]
      exact delivers
  · rw [claimed_append]
    cases claim : write.subject? with
    | none =>
        rw [Option.toList_none, List.append_nil]
        exact delivering.distinct
    | some subject =>
        refine List.nodup_append.mpr ⟨delivering.distinct, List.nodup_singleton _, ?_⟩
        rintro old oldMember new newMember rfl
        rw [Option.toList_some, List.mem_singleton] at newMember
        exact (claims subject claim).2.2.2 (newMember ▸ oldMember)
  · rcases member subject isClaimed with old | new
    · exact delivering.locked subject old
    · exact (claims subject new).1
  · rcases member subject isClaimed with old | new
    · exact delivering.fresh subject old
    · exact ⟨(claims subject new).2.1, (claims subject new).2.2.1⟩
  · rcases List.mem_append.mp isWritten with old | new
    · exact delivering.queueing other old queues
    · rw [List.mem_singleton.mp new] at queues
      exact queueing queues

/-- A subject that the delivery sees neither active nor queued is unclaimed. -/
theorem Absent.unclaimed {writes : List Write} {subject : String} (absent : Absent s writes subject)
    (unqueued : s.db.Unqueued subject)
    (others : ∀ row, Write.insertDeferred row ∈ writes → row.subject ≠ subject) :
    Unclaimed s writes subject := by
  refine ⟨absent.1, unqueued, fun member => ?_⟩
  obtain ⟨write, isWritten, claims⟩ := List.mem_filterMap.mp member
  cases write with
  | insertRun run => exact absent.2 run isWritten (Option.some.inj claims)
  | insertDeferred row => exact others row isWritten (Option.some.inj claims)
  | endRun run => contradiction
  | attachEvent run event => contradiction
  | touchDeferred row event => contradiction
  | deleteDeferred row => contradiction

theorem Unclaimed.absent {writes : List Write} {subject : String}
    (unclaimed : Unclaimed s writes subject) : Absent s writes subject := by
  refine ⟨unclaimed.1, fun run inserted same => unclaimed.2.2 ?_⟩
  exact mem_claimed inserted (congrArg some same)

/-- One statement of the trigger loop. Only a creation without a ceiling has to be told that its
subject is not queued. -/
theorem stepDelivery_single {startedAt : Nat} {writes : List Write} {m : Match} {rest : List Match}
    {phase : DeliveryPhase} (single : Single limitOf s)
    (found : s.txns id = some ⟨writes, .delivery startedAt (m :: rest) phase⟩)
    (spares : phase = .create → 0 < limitOf m.event ∨ (s.db.Unqueued m.subject ∧
      (s.read ⟨writes, .delivery startedAt (m :: rest) phase⟩).Unqueued m.subject))
    (taken : s.stepDelivery (limitOf m.event) id ⟨writes, .delivery startedAt (m :: rest) phase⟩
      startedAt m rest phase = some t) : Single limitOf t := by
  obtain ⟨delivering, learned⟩ : Delivering s id writes ∧
    Learned limitOf s id writes (m :: rest) phase := single.txn id _ found
  have shown := @shown_applyAll s.db writes m.subject delivering.plain
  cases phase with
  | lockWorkflow =>
      simp only [TriggerState.stepDelivery] at taken
      split at taken
      · rw [← Option.some.inj taken]
        exact put_single s.nextID (Nat.le_refl _) single ⟨delivering, learned_lockWorkflow⟩
      · split at taken
        · exact lockThen_single taken single fun steady lock =>
            ⟨delivering.carry steady, fun _ => lock⟩
        · rename_i none
          rw [← Option.some.inj taken]
          exact put_single s.nextID (Nat.le_refl _) single
            ⟨delivering, fun ceiling => absurd ceiling none⟩
  | lockSubject =>
      exact lockThen_single taken single fun steady lock =>
        ⟨delivering.carry steady, fun ceiling => steady.locks _ (learned ceiling), lock⟩
  | readActive =>
      simp only [TriggerState.stepDelivery] at taken
      split at taken
      · rw [← Option.some.inj taken]
        refine put_single s.nextID (Nat.le_refl _) single ⟨?_, learned_lockWorkflow⟩
        exact delivering.append rfl (by rintro _ ⟨⟩) (by rintro ⟨⟩)
      · rename_i inactive
        have absent : Absent s writes m.subject := shown.1 (find?_subject_none inactive)
        split at taken
        · rename_i ceiling
          rw [← Option.some.inj taken]
          exact put_single s.nextID (Nat.le_refl _) single
            ⟨delivering, learned.1 ceiling, learned.2, absent⟩
        · rename_i none
          rw [← Option.some.inj taken]
          exact put_single s.nextID (Nat.le_refl _) single
            ⟨delivering, learned.2, absent, fun ceiling => absurd ceiling none⟩
  | readQueue =>
      obtain ⟨workflow, lock, absent⟩ := learned
      simp only [TriggerState.stepDelivery] at taken
      split at taken
      · rw [← Option.some.inj taken]
        refine put_single s.nextID (Nat.le_refl _) single ⟨?_, learned_lockWorkflow⟩
        exact delivering.append rfl (by rintro _ ⟨⟩) fun _ => workflow
      · rename_i unqueued
        obtain ⟨committed, own⟩ := shown.2 (find?_row_none unqueued)
        rw [← Option.some.inj taken]
        exact put_single s.nextID (Nat.le_refl _) single
          ⟨delivering, workflow, lock, absent.unclaimed committed own⟩
  | readCount =>
      obtain ⟨workflow, lock, unclaimed⟩ := learned
      simp only [TriggerState.stepDelivery] at taken
      split at taken
      · rw [← Option.some.inj taken]
        exact put_single s.nextID (Nat.le_refl _) single ⟨delivering, workflow, lock, unclaimed⟩
      · rw [← Option.some.inj taken]
        exact put_single s.nextID (Nat.le_refl _) single
          ⟨delivering, lock, unclaimed.absent, fun _ => unclaimed⟩
  | insert =>
      obtain ⟨workflow, lock, unclaimed⟩ := learned
      rw [← Option.some.inj taken]
      refine put_single (s.nextID + 1) (Nat.le_succ _) single ⟨?_, learned_lockWorkflow⟩
      refine delivering.append rfl (fun subject claims => ?_) fun _ => workflow
      rw [← Option.some.inj claims]
      exact ⟨lock, unclaimed⟩
  | create =>
      obtain ⟨lock, absent, underCeiling⟩ := learned
      have unclaimed : Unclaimed s writes m.subject := by
        rcases spares rfl with ceiling | ⟨committed, own⟩
        · exact underCeiling ceiling
        · exact absent.unclaimed committed (shown.2 own).2
      rw [← Option.some.inj taken]
      refine put_single (s.nextID + 1) (Nat.le_succ _) single ⟨?_, learned_lockWorkflow⟩
      refine delivering.append rfl (fun subject claims => ?_) (by rintro ⟨⟩)
      rw [← Option.some.inj claims]
      exact ⟨lock, unclaimed⟩

theorem stepTerminal_single {limit run : Nat} {writes : List Write} {oldest : Option DeferredTrigger}
    {phase : TerminalPhase} (single : Single limitOf s)
    (found : s.txns id = some ⟨writes, .terminal run phase⟩)
    (taken : s.stepTerminal limit id ⟨writes, .terminal run phase⟩ run oldest phase = some t) :
    Single limitOf t := by
  have standing : Terminating s id writes run phase := single.txn id _ found
  cases phase with
  | lockRun => exact lockThen_single taken single fun _ _ => standing
  | readRun =>
      have empty : writes = [] := standing
      subst empty
      simp only [TriggerState.stepTerminal] at taken
      split at taken
      · rw [← Option.some.inj taken]
        refine put_single s.nextID (Nat.le_refl _) single ?_
        split
        · exact rfl
        · exact Or.inl rfl
      · contradiction
  | lockWorkflow => exact lockThen_single taken single fun _ lock => ⟨standing, lock⟩
  | readOldest =>
      obtain ⟨written, workflow⟩ := standing
      simp only [TriggerState.stepTerminal] at taken
      split at taken
      · split at taken
        · rw [← Option.some.inj taken]
          exact put_single s.nextID (Nat.le_refl _) single (Or.inl written)
        · contradiction
      · split at taken
        · rename_i entry isOldest
          rw [← Option.some.inj taken]
          refine put_single s.nextID (Nat.le_refl _) single ⟨written, workflow, ?_⟩
          subst written
          simp only [TriggerDb.isOldest, Bool.and_eq_true, List.contains_iff_mem] at isOldest
          exact isOldest.1
        · contradiction
  | delete entry =>
      obtain ⟨written, picked⟩ := standing
      rw [← Option.some.inj taken]
      refine put_single s.nextID (Nat.le_refl _) single ⟨?_, picked⟩
      rw [written]
      rfl
  | lockSubject entry =>
      exact lockThen_single taken single fun steady lock =>
        ⟨standing.1, standing.2.carry steady, lock⟩
  | create entry =>
      obtain ⟨written, picked, lock⟩ := standing
      rw [← Option.some.inj taken]
      refine put_single (s.nextID + 1) (Nat.le_succ _) single (Or.inr ⟨entry, s.nextID, ?_, picked, lock⟩)
      rw [written]
      rfl
  | done => contradiction

/-- What a finished transaction commits. -/
theorem TxnStanding.commits (standing : TxnStanding limitOf s id txn) (rows : s.db.Exclusive)
    (isEnded : TriggerState.ended txn.body = true) :
    (s.toWorld.view TriggerDb.apply txn).Exclusive := by
  obtain ⟨writes, body⟩ := txn
  cases body with
  | delivery startedAt pending phase => exact rows.applyAll standing.1.distinct standing.1.fresh
  | terminal run phase =>
      have isDone : phase = .done := by simpa [TriggerState.ended] using isEnded
      subst isDone
      rcases standing with written | ⟨entry, fresh, written, picked, _⟩
      · have isEnd : writes = _ := written
        subst isEnd
        exact rows.endRun run
      · have isDrain : writes = _ := written
        subst isDrain
        exact rows.drain picked.queued

theorem commit_steady {other : Nat} (standing : TxnStanding limitOf s id txn) (different : other ≠ id) :
    Steady s { s with toWorld := s.toWorld.commit TriggerDb.apply id txn } other := by
  obtain ⟨locked, queueing⟩ := standing.locked
  have unclaimed : ∀ subject, s.holder (.subject subject) = some other → subject ∉ claimed txn.writes :=
    fun subject held member => different (Option.some.inj (held.symm.trans (locked subject member)))
  refine ⟨fun key => (World.finish_other different key).mpr, fun subject held =>
    (unclaimed_applyAll (unclaimed subject held)).1, fun subject held =>
    (unclaimed_applyAll (unclaimed subject held)).2, fun held => ?_⟩
  refine deferred_applyAll_silent fun write member => Bool.eq_false_iff.mpr fun queues => ?_
  exact different (Option.some.inj (held.symm.trans (queueing write member queues)))

theorem finish_steady {other : Nat} (different : other ≠ id) :
    Steady s { s with toWorld := s.toWorld.finish id } other :=
  .of_db (fun key => (World.finish_other different key).mpr) rfl

/-- A step that ends transaction `id` and leaves the others steady. -/
theorem Single.leave (single : Single limitOf s) (rows : t.db.Exclusive)
    (txns : t.txns = Function.update s.txns id none)
    (steady : ∀ other, other ≠ id → Steady s t other) : Single limitOf t := by
  refine ⟨rows, fun other txn found => ?_⟩
  rw [txns] at found
  obtain ⟨different, before⟩ := World.inFlight_ended found
  exact (single.txn other txn before).carry (steady other different)

theorem actUnder_single {action : Action} (single : Single limitOf s)
    (spares : s.sparesQueued limitOf action = true) (acted : s.actUnder limitOf action = some t) :
    Single limitOf t := by
  cases action with
  | tick =>
      rw [← Option.some.inj acted]
      exact ⟨single.rows, fun id txn found => (single.txn id txn found).carry
        (.of_db (fun _ held => held) rfl)⟩
  | beginDelivery id matches_ =>
      simp only [TriggerState.actUnder, TriggerState.act] at acted
      split at acted
      · contradiction
      · rw [← Option.some.inj acted]
        refine put_single s.nextID (Nat.le_refl _) single ⟨⟨?_, ?_, ?_, ?_, ?_⟩, learned_lockWorkflow⟩ <;>
          simp [claimed]
  | beginTerminal id run =>
      simp only [TriggerState.actUnder, TriggerState.act] at acted
      split at acted
      · contradiction
      · rw [← Option.some.inj acted]
        exact put_single s.nextID (Nat.le_refl _) single rfl
  | advance id oldest =>
      cases found : s.txns id with
      | none => simp [TriggerState.actUnder, TriggerState.act, found] at acted
      | some txn =>
          obtain ⟨writes, body⟩ := txn
          cases body with
          | delivery startedAt pending phase =>
              cases pending with
              | nil => simp [TriggerState.actUnder, TriggerState.act, found] at acted
              | cons m rest =>
                  simp only [TriggerState.actUnder, TriggerState.act, TriggerState.limitAt, found]
                    at acted
                  refine stepDelivery_single single found ?_ acted
                  rintro rfl
                  simp only [TriggerState.sparesQueued, found, Bool.or_eq_true, decide_eq_true_eq,
                    Bool.not_eq_true', List.any_eq_false, List.mem_append] at spares
                  refine spares.imp_right fun absent => ⟨fun row member => ?_, fun row member => ?_⟩
                  · exact absent row (Or.inl member)
                  · exact absent row (Or.inr member)
          | terminal run phase =>
              simp only [TriggerState.actUnder, TriggerState.act, found] at acted
              exact stepTerminal_single single found acted
  | commit id =>
      simp only [TriggerState.actUnder, TriggerState.act] at acted
      split at acted
      · contradiction
      · rename_i txn found
        split at acted
        · rename_i isEnded
          have standing := single.txn id txn found
          rw [← Option.some.inj acted]
          exact single.leave (standing.commits single.rows isEnded) rfl fun other => commit_steady standing
        · contradiction
  | abort id =>
      simp only [TriggerState.actUnder, TriggerState.act] at acted
      split at acted
      · contradiction
      · rw [← Option.some.inj acted]
        exact single.leave single.rows rfl fun other => finish_steady
  | apiCancel run =>
      simp only [TriggerState.actUnder, TriggerState.act] at acted
      split at acted
      · rw [← Option.some.inj acted]
        refine ⟨single.rows.endRun run, fun id txn found => (single.txn id txn found).carry ?_⟩
        exact ⟨fun _ held => held, fun _ _ idle => idle.apply (by rintro ⟨⟩),
          fun _ _ unqueued => unqueued.apply (by rintro ⟨⟩), fun _ => rfl⟩
      · contradiction

theorem initial_single : Single limitOf TriggerState.initial := by
  refine ⟨⟨?_, ?_, ?_⟩, ?_⟩ <;> simp [TriggerState.initial, activeRuns]

/-- However the workflow is republished, a subject has at most one active run, in every state of every
run in which no version without a ceiling creates a run for a queued subject. -/
theorem one_active_run_across_versions (limitOf : Nat → Nat)
    (run : Steps (TriggerState.stepUnder limitOf)
      (fun s action => s.sparesQueued limitOf action = true) .initial s) (subject : String) :
    (s.db.activeRuns.filter (·.subject = subject)).length ≤ 1 := by
  have single := run.invariant (Single limitOf) initial_single fun _ _ _ single spares acted =>
    actUnder_single single spares acted
  have once := List.nodup_iff_count_le_one.mp single.rows.oneActive subject
  rw [List.count_eq_countP, List.countP_map, List.countP_eq_length_filter] at once
  simpa [Function.comp_def, beq_eq_decide] using once

end

/-- The first two events are matched under a ceiling of one, the later ones under a version that has
dropped it. -/
def dropped (event : Nat) : Nat := if event ≤ 1 then 1 else 0

def deliverUnder (txn : Nat) (m : Match) (statements : Nat) : List Action :=
  [.beginDelivery txn [m]] ++ List.replicate statements (.advance txn none) ++ [.commit txn]

/-- Subject `a` runs, subject `b` is queued behind it. -/
def queuedBehind : List Action :=
  deliverUnder 0 ⟨"a", 0⟩ 6 ++ deliverUnder 1 ⟨"b", 1⟩ 6

/-- The run of `a` ends and its drain takes the entry of `b`. -/
def drainsQueued (entry : DeferredTrigger) : List Action :=
  [.beginTerminal 3 0, .advance 3 none, .advance 3 none, .advance 3 none, .advance 3 (some entry),
    .advance 3 none, .advance 3 none, .advance 3 none, .commit 3]

/-- A subject that is not queued starts under the later version, and the queue is drained after it. -/
theorem one_active_run_across_versions_drained : ∃ s : TriggerState,
    (s.db.activeRuns.map SubjectRun.subject = ["c", "b"]) ∧
    (s.db.activeRuns.filter (·.subject = "b")).length ≤ 1 := by
  have ran : (Steps.ofList (TriggerState.actUnder dropped) (TriggerState.sparesQueued dropped) .initial
      (queuedBehind ++ deliverUnder 2 ⟨"c", 2⟩ 4 ++
        drainsQueued { id := 1, subject := "b", event := 1, createdAt := 0 })).map
        (fun s => s.db.activeRuns.map SubjectRun.subject) = some ["c", "b"] := by decide
  obtain ⟨s, reached, subjects⟩ := Option.map_eq_some_iff.mp ran
  exact ⟨s, subjects, one_active_run_across_versions dropped
    (Steps.of_ofList (fun _ _ checked => checked) reached) "b"⟩

/-- Subject `b` is queued under the ceiling, then started under the version without one, and its
entry is drained into a second run. -/
theorem two_active_runs_across_versions : ¬ ∀ (limitOf : Nat → Nat) (s : TriggerState),
    Steps (TriggerState.stepUnder limitOf) anyAction .initial s → ∀ subject,
      (s.db.activeRuns.filter (·.subject = subject)).length ≤ 1 := by
  intro always
  have ran : (Steps.ofList (TriggerState.actUnder dropped) (fun _ _ => true) .initial
      (queuedBehind ++ deliverUnder 2 ⟨"b", 2⟩ 4 ++
        drainsQueued { id := 1, subject := "b", event := 1, createdAt := 0 })).map
        (fun s => (s.db.activeRuns.filter (·.subject = "b")).length) = some 2 := by decide
  obtain ⟨s, reached, two⟩ := Option.map_eq_some_iff.mp ran
  have once := always dropped s (Steps.of_ofList (fun _ _ _ => trivial) reached) "b"
  omega

end CultureNodes.Trigger
