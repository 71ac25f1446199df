import Mathlib.Data.List.Induction
import CultureNodes.Trigger.Held

/-!
Whether a queued trigger always has an active run whose end will drain the queue. Every terminal
transition of the engine drains; cancellation through the API does not, so it may end the last run
while a trigger waits behind it.
-/

namespace CultureNodes.Trigger

open TriggerDb

/-- A queued entry has an active run in front of it. -/
def Attended (db : TriggerDb) : Prop := db.deferred ≠ [] → db.activeRuns ≠ []

/-- What a delivery holding the workflow lock reads; it may have decided to queue its match. -/
def AttendedAt (db : TriggerDb) (phase : DeliveryPhase) : Prop :=
  db.deferred ≠ [] ∨ phase = .insert → db.activeRuns ≠ []

theorem AttendedAt.moved {db : TriggerDb} {phase next : DeliveryPhase}
    (attended : AttendedAt db phase) (notInsert : next ≠ .insert) : AttendedAt db next :=
  fun queued => attended (Or.inl (queued.resolve_right notInsert))

/-- Some run other than `run` is active. -/
def OtherActive (db : TriggerDb) (run : Nat) : Prop := ∃ other, other ≠ run ∧ db.Active other

/-- Where cancelling through the API strands nothing: if an entry is queued, in the committed rows or
in what a delivery in flight past the workflow lock has written or decided to write, then the run
cancelled is not the only active one there. -/
def cancelSafe (s : TriggerState) (action : Action) : Prop :=
  ∀ run, action = .apiCancel run →
    (s.db.deferred ≠ [] → OtherActive s.db run) ∧
      ∀ id writes startedAt pending phase,
        s.txns id = some ⟨writes, .delivery startedAt pending phase⟩ →
        s.holder .workflow = some id →
        (s.read ⟨writes, .delivery startedAt pending phase⟩).deferred ≠ [] ∨ phase = .insert →
        OtherActive (s.read ⟨writes, .delivery startedAt pending phase⟩) run

/-- The invariant of the whole system. -/
def Drains : TriggerState → Prop :=
  Held (fun _ db => Attended db) fun _ db _ phase => AttendedAt db phase

namespace TriggerDb

variable {db : TriggerDb}

theorem Active.ne_nil {id : Nat} (active : db.Active id) : db.activeRuns ≠ [] := by
  obtain ⟨run, member, _⟩ := active
  exact List.ne_nil_of_mem member

theorem activeRuns_ne_nil : db.activeRuns ≠ [] ↔ ∃ id, db.Active id := by
  refine ⟨fun nonempty => ?_, by rintro ⟨_, active⟩; exact active.ne_nil⟩
  obtain ⟨run, member⟩ := List.exists_mem_of_ne_nil _ nonempty
  exact ⟨run.id, run, member, rfl⟩

theorem activeRuns_apply {write : Write} (nonempty : db.activeRuns ≠ [])
    (notEnd : ∀ run, write ≠ .endRun run) : (db.apply write).activeRuns ≠ [] := by
  obtain ⟨id, active⟩ := activeRuns_ne_nil.mp nonempty
  exact (active.apply (notEnd id)).ne_nil

theorem activeRuns_endRun_ne_nil {run : Nat} (other : OtherActive db run) :
    (db.apply (.endRun run)).activeRuns ≠ [] := by
  obtain ⟨id, different, active⟩ := other
  exact (active.endRun different).ne_nil

/-- Writes that end no run read the same queue whether or not a run was cancelled meanwhile. -/
theorem deferred_applyAll {writes : List Write} {other : TriggerDb}
    (same : other.deferred = db.deferred) :
    (writes.foldl TriggerDb.apply other).deferred = (writes.foldl TriggerDb.apply db).deferred := by
  induction writes generalizing db other with
  | nil => exact same
  | cons write rest ih =>
      apply ih
      cases write <;> simp [TriggerDb.apply, same]

/-- ... and every run they read as active stays so, the cancelled one apart. -/
theorem active_applyAll_endRun {writes : List Write} {run other : Nat} (different : other ≠ run)
    (noEnd : ∀ id, Write.endRun id ∉ writes)
    (active : (writes.foldl TriggerDb.apply db).Active other) :
    (writes.foldl TriggerDb.apply (db.apply (.endRun run))).Active other := by
  induction writes using List.reverseRecOn with
  | nil => exact active.endRun different
  | append_singleton earlier write ih =>
      rw [List.foldl_append] at active ⊢
      have ih := ih fun id member => noEnd id (List.mem_append_left _ member)
      have last : ∀ id, write ≠ .endRun id := fun id same =>
        noEnd id (List.mem_append_right _ (List.mem_singleton.mpr same.symm))
      cases write with
      | insertRun row =>
          obtain ⟨found, member, same⟩ := active
          simp only [List.foldl_cons, List.foldl_nil, activeRuns_insertRun] at member
          rcases List.mem_append.mp member with old | new
          · exact (ih ⟨found, old, same⟩).apply (last other)
          · refine ⟨found, ?_, same⟩
            simp only [List.foldl_cons, List.foldl_nil, activeRuns_insertRun]
            exact List.mem_append_right _ new
      | endRun id => exact absurd rfl (last id)
      | attachEvent id event => exact ih active
      | insertDeferred row => exact ih active
      | touchDeferred id event => exact ih active
      | deleteDeferred id => exact ih active

end TriggerDb

section

variable {limit : Nat} {s t : TriggerState}

theorem stepDelivery_drains {id startedAt : Nat} {writes : List Write} {m : Match}
    {rest : List Match} {phase : DeliveryPhase} (positive : 0 < limit) (inv : Drains s)
    (found : s.txns id = some ⟨writes, .delivery startedAt (m :: rest) phase⟩)
    (taken : s.stepDelivery limit id ⟨writes, .delivery startedAt (m :: rest) phase⟩ startedAt m rest
      phase = some t) :
    Reads (fun _ db _ phase => AttendedAt db phase) t id := by
  have mine : DeliveryShape s id writes (m :: rest) phase := inv.shape.txn id _ found
  have past := fun moved : phase ≠ .lockWorkflow =>
    inv.delivery id writes startedAt (m :: rest) phase found (mine.past moved).1
  cases phase with
  | lockWorkflow =>
      simp only [TriggerState.stepDelivery] at taken
      split at taken
      · rw [← Option.some.inj taken]
        exact put_reads (inv.delivery id writes startedAt (m :: rest) .lockWorkflow found)
      · refine lockThen_reads taken ?_
        rcases mine with ⟨held, _⟩ | ⟨_, empty, _⟩
        · have attended := inv.delivery id writes startedAt (m :: rest) .lockWorkflow found held
          exact attended.moved DeliveryPhase.noConfusion
        · subst empty
          exact fun queued => inv.rows (queued.resolve_right DeliveryPhase.noConfusion)
  | lockSubject =>
      have attended := past DeliveryPhase.noConfusion
      exact lockThen_reads taken (attended.moved DeliveryPhase.noConfusion)
  | readActive =>
      have attended := past DeliveryPhase.noConfusion
      simp only [TriggerState.stepDelivery] at taken
      split at taken
      · rw [← Option.some.inj taken]
        refine put_reads fun _ => ?_
        rw [read_append writes _ _ (.delivery startedAt (m :: rest) .readActive)]
        exact attended.moved DeliveryPhase.noConfusion
      · rw [if_pos positive] at taken
        rw [← Option.some.inj taken]
        exact put_reads fun _ => attended.moved DeliveryPhase.noConfusion
  | readQueue =>
      have attended := past DeliveryPhase.noConfusion
      simp only [TriggerState.stepDelivery] at taken
      split at taken
      · rename_i row isQueued
        rw [← Option.some.inj taken]
        refine put_reads fun _ _ => ?_
        rw [read_append writes _ _ (.delivery startedAt (m :: rest) .readQueue)]
        have queued := List.ne_nil_of_mem (List.mem_of_find?_eq_some isQueued)
        exact activeRuns_apply (attended (Or.inl queued)) fun _ => Write.noConfusion
      · rw [← Option.some.inj taken]
        exact put_reads fun _ => attended.moved DeliveryPhase.noConfusion
  | readCount =>
      have attended := past DeliveryPhase.noConfusion
      simp only [TriggerState.stepDelivery] at taken
      split at taken
      · rename_i full
        rw [← Option.some.inj taken]
        refine put_reads fun _ _ => ?_
        exact List.length_pos_iff.mp (Nat.lt_of_lt_of_le positive full)
      · rw [← Option.some.inj taken]
        exact put_reads fun _ => attended.moved DeliveryPhase.noConfusion
  | insert =>
      have attended := past DeliveryPhase.noConfusion
      rw [← Option.some.inj taken]
      refine put_reads fun _ _ => ?_
      rw [read_append writes _ _ (.delivery startedAt (m :: rest) .insert)]
      exact activeRuns_apply (attended (Or.inr rfl)) fun _ => Write.noConfusion
  | create =>
      rw [← Option.some.inj taken]
      refine put_reads fun _ _ => ?_
      rw [read_append writes _ _ (.delivery startedAt (m :: rest) .create), activeRuns_insertRun]
      simp

theorem commit_attended {id : Nat} {txn : Txn Write Body} (inv : Drains s)
    (found : s.txns id = some txn) (isEnded : TriggerState.ended txn.body = true) :
    Attended (s.toWorld.view TriggerDb.apply txn) := by
  obtain ⟨writes, body⟩ := txn
  have mine := inv.shape.txn id _ found
  cases body with
  | delivery startedAt pending phase =>
      rcases mine with ⟨held, _⟩ | ⟨_, empty, _⟩
      · exact fun queued =>
          inv.delivery id writes startedAt pending phase found held (Or.inl queued)
      · have unwritten : writes = [] := empty
        subst unwritten
        exact inv.rows
  | terminal run phase =>
      have isDone : phase = .done := by simpa [TriggerState.ended] using isEnded
      subst isDone
      rcases mine with ⟨written, _, _, empty⟩ | ⟨entry, fresh, written, _⟩
      · have isEndRun : writes = [.endRun run] := written
        subst isEndRun
        exact fun queued => absurd empty queued
      · have isDrain : writes = _ := written
        subst isDrain
        intro _
        simp [World.view, activeRuns_insertRun]

/-- A cancellation that meets its condition leaves another active run wherever an entry is queued. -/
theorem apiCancel_drains {run : Nat} (positive : 0 < limit) (inv : Drains s)
    (allowed : cancelSafe s (.apiCancel run)) (acted : s.act limit (.apiCancel run) = some t) :
    Drains t := by
  have shape := act_shape positive inv.shape acted
  obtain ⟨committed, reading⟩ := allowed run rfl
  simp only [TriggerState.act] at acted
  split at acted
  · rw [← Option.some.inj acted] at shape ⊢
    refine ⟨shape, fun queued => activeRuns_endRun_ne_nil (committed queued), ?_⟩
    intro id writes startedAt pending phase found held queued
    have mine : DeliveryShape s id writes pending phase := inv.shape.txn id _ found
    have sameQueue : (writes.foldl TriggerDb.apply (s.db.apply (.endRun run))).deferred =
        (writes.foldl TriggerDb.apply s.db).deferred := deferred_applyAll rfl
    rcases mine with ⟨_, noEnd, _⟩ | ⟨free, _⟩
    · rw [TriggerState.read, World.view, sameQueue] at queued
      obtain ⟨other, different, active⟩ :=
        reading id writes startedAt pending phase found held queued
      exact (active_applyAll_endRun different noEnd active).ne_nil
    · exact absurd held free
  · contradiction

theorem act_drains {action : Action} (positive : 0 < limit) (inv : Drains s)
    (allowed : cancelSafe s action) (acted : s.act limit action = some t) : Drains t := by
  by_cases isCancel : ∃ run, action = .apiCancel run
  · obtain ⟨run, rfl⟩ := isCancel
    exact apiCancel_drains positive inv allowed acted
  · refine Held.act positive inv (fun run same => isCancel ⟨run, same⟩)
      (fun _ _ _ _ attended => attended) (fun _ _ _ _ _ _ attended => attended) ?_ ?_ acted
    · exact fun _ _ _ _ _ _ _ _ found taken => stepDelivery_drains positive inv found taken
    · exact fun _ _ found isEnded => commit_attended inv found isEnded

theorem initial_drains : Drains TriggerState.initial :=
  ⟨initial_shape, fun queued => absurd rfl queued,
    fun _ _ _ _ _ found => by simp [TriggerState.initial] at found⟩

end

/-- In every interleaving whose cancellations through the API are safe, a queued trigger has an active
run of its workflow in front of it. -/
theorem queued_has_active_run (limit : Nat) (positive : 0 < limit) (s : TriggerState)
    (run : Steps (TriggerState.step limit) cancelSafe .initial s) (queued : s.db.deferred ≠ []) :
    0 < s.db.activeSubjectRunCount := by
  have inv := run.invariant Drains initial_drains fun _ _ _ inv allowed taken =>
    act_drains positive inv allowed taken
  exact List.length_pos_iff.mpr (inv.rows queued)

/-- A check that a cancellation is safe: no delivery is past the workflow lock. -/
def cancelSafeCheck (s : TriggerState) : Action → Bool
  | .apiCancel run =>
      s.holder .workflow = none ∧ (s.db.deferred = [] ∨ s.db.activeRuns.any (·.id ≠ run) = true)
  | _ => true

theorem cancelSafeCheck_sound (s : TriggerState) (action : Action)
    (passes : cancelSafeCheck s action = true) : cancelSafe s action := by
  intro run isCancel
  subst isCancel
  obtain ⟨free, safe⟩ := of_decide_eq_true passes
  refine ⟨fun queued => ?_, fun id _ _ _ _ _ held => ?_⟩
  · obtain ⟨other, member, different⟩ := List.any_eq_true.mp (safe.resolve_left queued)
    exact ⟨other.id, by simpa using different, other, member, rfl⟩
  · rw [free] at held
    contradiction

/-- A delivery of one match that is queued or creates its run, from its start to its commit. -/
def deliverOne (txn : Nat) (m : Match) : List Action :=
  .beginDelivery txn [m] :: List.replicate 6 (.advance txn none) ++ [.commit txn]

/-- Under a ceiling of two, `a` is cancelled while `c` waits: `b` is still there to drain it. -/
theorem queued_has_active_run_behind_other :
    ∃ s : TriggerState, s.db.deferred ≠ [] ∧ 0 < s.db.activeSubjectRunCount := by
  have ran : (Steps.ofList (fun s => TriggerState.act s 2) cancelSafeCheck .initial
      (deliverOne 0 ⟨"a", 10⟩ ++ deliverOne 1 ⟨"b", 11⟩ ++ deliverOne 2 ⟨"c", 12⟩ ++
        [Action.apiCancel 0])).map (fun s => (s.db.deferred.map (·.subject), s.db.activeRuns.map (·.subject)))
        = some (["c"], ["b"]) := by decide +kernel
  obtain ⟨s, reached, rows⟩ := Option.map_eq_some_iff.mp ran
  have run : Steps (TriggerState.step 2) cancelSafe .initial s :=
    Steps.of_ofList cancelSafeCheck_sound reached
  have queued : s.db.deferred ≠ [] := by
    intro empty
    simp [empty] at rows
  exact ⟨s, queued, queued_has_active_run 2 (by decide) s run queued⟩

/-- Under a ceiling of one, cancelling `a` through the API leaves `b` queued with no active run. -/
theorem cancelled_last_run_strands_queue :
    ¬ ∀ s, Steps (TriggerState.step 1) anyAction .initial s → s.db.deferred ≠ [] →
      0 < s.db.activeSubjectRunCount := by
  intro always
  have ran : (Steps.ofList (fun s => TriggerState.act s 1) (fun _ _ => true) .initial
      (deliverOne 0 ⟨"a", 10⟩ ++ deliverOne 1 ⟨"b", 11⟩ ++ [Action.apiCancel 0])).map
        (fun s => (s.db.deferred.map (·.subject), s.db.activeSubjectRunCount)) =
        some (["b"], 0) := by decide +kernel
  obtain ⟨s, reached, rows⟩ := Option.map_eq_some_iff.mp ran
  have run : Steps (TriggerState.step 1) anyAction .initial s :=
    Steps.of_ofList (fun _ _ _ => trivial) reached
  rw [Prod.mk.injEq] at rows
  have queued : s.db.deferred ≠ [] := by
    intro empty
    simp [empty] at rows
  have served := always s run queued
  omega

end CultureNodes.Trigger
