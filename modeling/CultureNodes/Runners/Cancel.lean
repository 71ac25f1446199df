import CultureNodes.Runners.Once

/-!
Which cancel ends an operation that was not started. A cancel handler reads the record without the lock
and sets its flag under it, and only a commit takes the flag back; so a flag may be set for an operation
that is over, and stay for the next one with its id. Where no handler sets its flag after the record it
read was removed, and no record is created while its id is flagged, an operation is ended so only after a
cancel that came since its record was created.
-/

namespace CultureNodes.Runners

variable {cfg : Config}

def Since (log : List Moment) (operationID : String) : Prop :=
  ∃ early late, log = early ++ Moment.created operationID :: late ∧ Moment.created operationID ∉ late ∧
    Moment.cancelReceived operationID ∈ late

theorem Since.append {log moments : List Moment} {operationID : String} (since : Since log operationID)
    (still : Moment.created operationID ∉ moments) : Since (log ++ moments) operationID := by
  obtain ⟨early, late, rfl, last, received⟩ := since
  refine ⟨early, late ++ moments, by rw [List.append_assoc, List.cons_append], ?_,
    List.mem_append_left _ received⟩
  rw [List.mem_append]
  exact fun either => either.elim last still

theorem since_received {log : List Moment} {operationID : String} (created : Moment.created operationID ∈ log) :
    Since (log ++ [Moment.cancelReceived operationID]) operationID := by
  induction log with
  | nil => cases created
  | cons first rest ih =>
      by_cases later : Moment.created operationID ∈ rest
      · obtain ⟨early, late, split, last, received⟩ := ih later
        exact ⟨first :: early, late, by rw [List.cons_append, split, List.cons_append], last, received⟩
      · rcases List.mem_cons.mp created with rfl | inRest
        · refine ⟨[], rest ++ [Moment.cancelReceived operationID], rfl, ?_, by simp⟩
          simpa using later
        · exact absurd inRest later

namespace ServiceState

/-- The flag of a cancel is set while the record it was read from is still there, and none is left over
when a record is created. -/
def timely (s : ServiceState) : Action → Bool
  | .enqueue =>
      match s.memory.admission with
      | some (.storing op _ _) => !s.memory.cancelled.contains op.operationID
      | some (.queueing _ _ _) | none => true
  | .cancel handler => (s.memory.cancels handler).all fun read => read.record.terminal ||
      !(s.log.drop read.since).contains (.removed read.record.operationID)
  | _ => true

variable {s next : ServiceState} {action : Action}

/-- Whoever has been flagged, or is about to be ended so, had a cancel since its record was created. -/
structure Heeds (s : ServiceState) : Prop where
  created : ∀ name record, s.records.get name = some record → Moment.created name ∈ s.log
  handlers : ∀ handler read, s.memory.cancels handler = some read → read.since ≤ s.log.length ∧
    (Moment.removed read.record.operationID ∈ s.log.drop read.since ∨
      (∃ record, s.records.get read.record.operationID = some record) ∧
        Since s.log read.record.operationID)
  flags : ∀ name ∈ s.memory.cancelled, Since s.log name
  ends : ∀ place name, (s.memory.workers place).cancelling = some name → Since s.log name
  told : ∀ name before after, s.log = before ++ Moment.cancelledUnstarted name :: after → Since before name

theorem drop_append {log moments : List Moment} {since : Nat} (earlier : since ≤ log.length) :
    (log ++ moments).drop since = log.drop since ++ moments :=
  List.drop_append_of_le_length earlier

theorem heeds_step (inv : Inv cfg s) (heeds : Heeds s) (inTime : s.timely action = true)
    (taken : s.act cfg action = some next) : Heeds next := by
  have effect := act_effect inv taken
  obtain ⟨moments, log, ended, created, _⟩ := effect.log
  have same : ∀ more, next.log = s.log ++ more → more = moments := fun more isLog =>
    List.append_cancel_left (isLog.symm.trans log)
  have absent : ∀ name record, s.records.get name = some record → Moment.created name ∉ moments := by
    intro name record found isCreated
    obtain ⟨_, op, callback, new, admitting, rfl⟩ := created name isCreated
    have gone := (inv.admission _ admitting).2.2.2
    rw [found] at gone
    contradiction
  have unflagged : ∀ name ∈ s.memory.cancelled, Moment.created name ∉ moments := by
    intro name flagged isCreated
    obtain ⟨rfl, op, callback, new, admitting, rfl⟩ := created name isCreated
    simp only [timely, admitting, Bool.not_eq_true', ← Bool.not_eq_true, List.contains_iff_mem] at inTime
    exact inTime flagged
  have owned : ∀ place name, (s.memory.workers place).operation = some name →
      Moment.created name ∉ moments := by
    intro place name holds
    obtain ⟨record, found, _⟩ := inv.live (.worker place) name holds
    exact absent name record found
  constructor
  · intro name record found
    rw [log]
    rcases effect.store.was_there found with ⟨before, isBefore⟩ | ⟨more, isLog, isNew⟩
    · exact List.mem_append_left _ (heeds.created name before isBefore)
    · exact List.mem_append_right _ (same more isLog ▸ isNew)
  · intro handler read held
    rcases effect.handlers handler read held with before | ⟨isLength, found, isLog⟩
    · obtain ⟨earlier, known⟩ := heeds.handlers handler read before
      rw [log, drop_append earlier]
      refine ⟨?_, ?_⟩
      · rw [List.length_append]
        omega
      · rcases known with gone | ⟨⟨record, found⟩, since⟩
        · exact Or.inl (List.mem_append_left _ gone)
        · rcases effect.store.stays_there found with stays | ⟨more, isLog, gone⟩
          · exact Or.inr ⟨stays, since.append (absent _ record found)⟩
          · exact Or.inl (List.mem_append_right _ (same more isLog ▸ gone))
    · have received := since_received (heeds.created _ _ found)
      rw [isLength, isLog]
      refine ⟨by simp, Or.inr ⟨?_, received⟩⟩
      rcases effect.store.stays_there found with stays | ⟨more, isMore, gone⟩
      · exact stays
      · rw [List.append_cancel_left (isMore.symm.trans isLog)] at gone
        simp at gone
  · intro name flagged
    rw [log]
    rcases effect.flags name flagged with before | ⟨handler, read, rfl, held, pending, rfl⟩
    · exact (heeds.flags name before).append (unflagged name before)
    · simp only [timely, held, Option.all_some, pending, Bool.false_or, Bool.not_eq_true',
        ← Bool.not_eq_true, List.contains_iff_mem] at inTime
      obtain ⟨⟨record, found⟩, since⟩ := (heeds.handlers handler read held).2.resolve_left inTime
      exact since.append (absent _ record found)
  · intro place name cancelling
    rw [log]
    rcases effect.ends place name cancelling with before | ⟨flagged, holds⟩
    · have holds := Worker.operation_of_cancelling before
      exact (heeds.ends place name before).append (owned place name holds)
    · exact (heeds.flags name flagged).append (owned place name holds)
  · intro name before after split
    rw [log] at split
    rcases ended name with quiet | ⟨rfl, place, cancelling⟩
    · obtain ⟨rest, isLog, _⟩ := split_before split quiet
      exact heeds.told name before rest isLog
    · rcases split_last split with rfl | ⟨rest, isLog⟩
      · exact heeds.ends place name cancelling
      · exact heeds.told name before rest isLog

theorem initial_heeds : Heeds {} where
  created name record found := by cases found
  handlers handler read held := by cases held
  flags name flagged := by cases flagged
  ends place name cancelling := by cases cancelling
  told name before after split := by simp at split

/-- Where every cancel is in time, an operation is ended as cancelled before it was started only after a
cancel that was received since its record was created. -/
theorem cancelled_in_time (ran : Steps (step cfg) (fun s action => s.timely action = true) {} s)
    (operationID : String) : ∀ before after,
      s.log = before ++ Moment.cancelledUnstarted operationID :: after →
        ∃ early late, before = early ++ Moment.created operationID :: late ∧
          Moment.created operationID ∉ late ∧ Moment.cancelReceived operationID ∈ late := by
  have both : Inv cfg s ∧ Heeds s := by
    refine Steps.invariant (fun s => Inv cfg s ∧ Heeds s) ⟨initial_inv, initial_heeds⟩ ?_ ran
    intro t action u held inTime taken
    exact ⟨act_inv held.1 taken, heeds_step held.1 held.2 inTime taken⟩
  exact both.2.told operationID

/-- The worker takes the operation and ends it without starting it. -/
def refuseActions : List Action := [.take (.pool 0), .work (.pool 0), .work (.pool 0), .work (.pool 0)]

/-- The cancel comes while the operation is queued. -/
def queuedActions : List Action :=
  startActions ++ acceptActions ++ [Action.readCancel "op", .cancel 0] ++ refuseActions

theorem cancelled_in_time_queued : ∃ s before after,
    Steps (step oneWorker) (fun s action => s.timely action = true) {} s ∧
      s.log = before ++ Moment.cancelledUnstarted "op" :: after ∧
      ∃ early late, before = early ++ Moment.created "op" :: late ∧
        Moment.created "op" ∉ late ∧ Moment.cancelReceived "op" ∈ late := by
  have ran : (Steps.ofList (act oneWorker) timely {} queuedActions).map (fun s => s.log.getLast?) =
      some (some (.cancelledUnstarted "op")) := by
    decide +kernel
  obtain ⟨s, reached, seen⟩ := Steps.reaches_of_ofList (fun _ _ passes => passes) ran
  obtain ⟨before, isLog⟩ := List.getLast?_eq_some_iff.mp seen
  exact ⟨s, before, [], reached, isLog, cancelled_in_time reached "op" before [] isLog⟩

/-- The cancel reads the record of a running operation and sets its flag when that operation is over; a
later one with the same id finds the flag. -/
def lateActions : List Action :=
  startActions ++ acceptActions ++ runActions ++ [Action.readCancel "op"] ++ endActions ++
    [Action.cancel 0] ++ sweepActions ++ acceptActions ++ refuseActions

theorem late_cancel_ends_the_next : ¬∀ (cfg : Config) (s : ServiceState), Reachable cfg s →
    ∀ operationID before after, s.log = before ++ Moment.cancelledUnstarted operationID :: after →
      ∃ early late, before = early ++ Moment.created operationID :: late ∧
        Moment.created operationID ∉ late ∧ Moment.cancelReceived operationID ∈ late := by
  intro always
  have ran : (Steps.ofList (act oneWorker) (fun _ _ => true) {} lateActions).map (fun s => s.log) =
      some ([Moment.created "op", acceptedOp, .executed "op", .cancelReceived "op", .removed "op"] ++
        [Moment.created "op"] ++ [acceptedOp] ++ [Moment.cancelledUnstarted "op"]) := by
    decide +kernel
  obtain ⟨s, reached, isLog⟩ := Steps.reaches_of_ofList (fun _ _ _ => trivial) ran
  obtain ⟨early, late, split, last, received⟩ := always oneWorker s reached "op" _ [] isLog
  obtain ⟨rest, isBefore, rfl⟩ := split_before split (by decide)
  rcases split_last isBefore with rfl | ⟨middle, isFirst⟩
  · obtain ⟨_, rfl⟩ := List.cons.inj (List.append_cancel_left isBefore)
    simp [acceptedOp] at received
  · rw [isFirst, List.append_assoc] at isBefore
    have created := List.append_cancel_left isBefore
    obtain ⟨_, rfl⟩ := List.cons.inj created
    exact last (by simp)

end ServiceState
end CultureNodes.Runners
