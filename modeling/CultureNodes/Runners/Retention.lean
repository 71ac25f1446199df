import CultureNodes.Runners.Once

/-!
How long a status can be read. Admission asks whether a record is there, a status read whether it is there
and has not expired, and the sweep removes what has expired; between the expiry and the sweep the three
differ. An acceptance is found by status requests, then and until the declared retention has elapsed after
the operation ended, exactly when the record it was issued for had not expired.
-/

namespace CultureNodes.Runners

variable {cfg : Config}

namespace ServiceState

/-- A status request finds the operation. -/
def Found (s : ServiceState) (operationID : String) : Prop :=
  ∃ status, s.handleStatus operationID = .ok status

/-- The operation has ended, and the retention its acceptance declares has passed since by the latest
reading of the clock, which is its reading unless it was set back. -/
def Elapsed (s : ServiceState) (operationID : String) : Prop :=
  ∃ record finished, s.records.get operationID = some record ∧ record.finishedAt = some finished ∧
    finished + record.acceptance.statusRetentionSeconds * second < s.latest

/-- An execute request that finds a record finds one that has not expired. -/
def unexpired (s : ServiceState) : Action → Bool
  | .execute op _ _ => (s.records.get op.operationID).all fun existing => !existing.expired s.clock
  | _ => true

variable {s next : ServiceState} {place : Place} {worker : Worker} {operationID : String} {action : Action}

theorem found_iff : s.Found operationID ↔
    ∃ record, s.records.get operationID = some record ∧ record.expired s.clock = false := by
  unfold Found handleStatus
  cases s.records.get operationID with
  | none => simp
  | some record =>
      simp only [Option.some.injEq, exists_eq_left']
      cases expired : record.expired s.clock with
      | false => simp
      | true => simp

theorem declared_le {record : Record} (sound : record.Sound cfg) :
    record.acceptance.statusRetentionSeconds * second ≤ cfg.retention := by
  rw [sound.declared]
  exact Nat.div_mul_le_self _ _

theorem elapsed_of_expired {record : Record} {now : Nat} (inv : Inv cfg s)
    (found : s.records.get operationID = some record) (expired : record.expired now = true)
    (read : now ≤ s.latest) : s.Elapsed operationID := by
  have sound := inv.sound record (Keyed.mem_of_get found)
  obtain ⟨finished, isFinished, expires⟩ := sound.ended (sound.terminal_of_expired expired)
  have past : finished + cfg.retention < now := by
    rw [Record.expired, expires] at expired
    exact of_decide_eq_true expired
  refine ⟨record, finished, found, isFinished, ?_⟩
  have declared := declared_le sound
  omega

/-- The status of the operation is there, and no request is about to take it back. -/
def Kept (s : ServiceState) (operationID : String) : Prop :=
  (∃ record, s.records.get operationID = some record) ∧ ¬s.memory.Owns .admission operationID

theorem found_of_kept (inv : Inv cfg s) (kept : s.Kept operationID) (early : ¬s.Elapsed operationID) :
    s.Found operationID := by
  obtain ⟨⟨record, found⟩, _⟩ := kept
  refine found_iff.mpr ⟨record, found, ?_⟩
  cases expired : record.expired s.clock with
  | false => rfl
  | true => exact absurd (elapsed_of_expired inv found expired inv.reading) early

/-- A process that goes on keeps the record until its time has elapsed. -/
theorem kept_step (inv : Inv cfg s) (kept : s.Kept operationID) (early : ¬s.Elapsed operationID)
    (taken : s.act cfg action = some next) (serves : next.serving = true) : next.Kept operationID := by
  obtain ⟨⟨record, found⟩, unowned⟩ := kept
  have effect := act_effect inv taken
  have put : ∀ new : Record, ∃ after, (s.records.put new).get operationID = some after := fun new =>
    Keyed.get_put_some found
  refine ⟨?_, fun owns => ?_⟩
  · cases effect.store with
    | quiet moments log plain records unstarted => exact ⟨record, records ▸ found⟩
    | created new log absent records unstarted => exact records ▸ put new
    | executed name log records live waiting unstarted => exact ⟨record, records ▸ found⟩
    | written new moments log plain live records unstarted => exact records ▸ put new
    | removed name moments log plain why records unstarted =>
        have different : operationID ≠ name := by
          rintro rfl
          rcases why with owns | ⟨old, now, isOld, expired, read⟩
          · exact unowned owns
          · exact early (elapsed_of_expired inv isOld expired read)
        rw [records]
        exact ⟨record, (Records.get_delete_other different).trans found⟩
    | forgotten log records down unstarted =>
        rw [serving, down] at serves
        contradiction
  · rcases effect.admission operationID owns with before | ⟨_, op, callback, new, storing, rfl⟩
    · exact unowned before
    · have absent := (inv.admission _ storing).2.2.2
      rw [found] at absent
      contradiction

theorem kept_until {t : ServiceState} (inv : Inv cfg s) (kept : s.Kept operationID)
    (ran : Steps (step cfg) (fun u _ => u.serving = true ∧ ¬u.Elapsed operationID) s t) :
    Inv cfg t ∧ (t.serving = true → t.Kept operationID) := by
  refine Steps.invariant (fun u => Inv cfg u ∧ (u.serving = true → u.Kept operationID))
    ⟨inv, fun _ => kept⟩ ?_ ran
  intro u action v held permitted taken
  refine ⟨act_inv held.1 taken, fun serves => ?_⟩
  exact kept_step held.1 (held.2 permitted.1) permitted.2 taken serves

theorem accept_accepted {op : Operation} {digest : String} {callback : Option CallbackTarget}
    {acceptance : Acceptance} (taken : s.accept cfg op digest callback = some next)
    (accepted : next.log = s.log ++ [Moment.answered operationID (.ok acceptance)]) :
    op.operationID = operationID ∧ s.memory.admission = none ∧
      (∃ existing, s.records.get operationID = some existing) ∧
      next = s.note [.answered operationID (.ok acceptance)] := by
  have same : ∀ answer, (s.answered op.operationID answer).log =
      s.log ++ [Moment.answered operationID (.ok acceptance)] →
        op.operationID = operationID ∧ answer = .ok acceptance := by
    intro answer isLog
    have answers := List.singleton_inj.mp (List.append_cancel_left isLog)
    exact Moment.answered.inj answers
  unfold accept at taken
  split at taken
  · rename_i unlocked
    split at taken
    · cases taken
      cases (same _ accepted).2
    · split at taken
      · rename_i existing found
        split at taken
        · cases taken
          obtain ⟨named, isAcceptance⟩ := same _ accepted
          refine ⟨named, (unlocked_iff.mp unlocked).2, ⟨existing, named ▸ found⟩, ?_⟩
          rw [← isAcceptance, ← named]
          rfl
        · cases taken
          cases (same _ accepted).2
      · split at taken
        · cases taken
          cases (same _ accepted).2
        · cases taken
          have longer := congrArg List.length accepted
          simp at longer
  · cases taken

/-- The rest of it answers so when the operation has got its place in the queue. -/
theorem enqueue_accepted {acceptance : Acceptance} (inv : Inv cfg s) (taken : s.enqueue cfg = some next)
    (accepted : next.log = s.log ++ [Moment.answered operationID (.ok acceptance)]) :
    next.memory.admission = none ∧ next.records = s.records ∧ s.records.Live operationID := by
  unfold enqueue at taken
  split at taken
  · cases taken
  · cases taken
    have created := List.singleton_inj.mp (List.append_cancel_left accepted)
    cases created
  · rename_i op callback record admitting
    have owned : s.memory.Owns .admission op.operationID := by
      rw [Memory.Owns, admitting]
      rfl
    split at taken
    · cases taken
      have answers := List.singleton_inj.mp (List.append_cancel_left accepted)
      rw [← (Moment.answered.inj answers).1]
      exact ⟨rfl, rfl, inv.live .admission _ owned⟩
    · cases taken
      obtain ⟨existing, found, _⟩ := inv.live .admission _ owned
      rw [answered_removed_log found] at accepted
      have longer := congrArg List.length (List.append_cancel_left accepted)
      simp at longer

/-- An acceptance is for a record that is kept, and status requests find it when it has not expired. -/
theorem act_accepted {acceptance : Acceptance} (inv : Inv cfg s) (taken : s.act cfg action = some next)
    (accepted : next.log = s.log ++ [Moment.answered operationID (.ok acceptance)]) :
    next.Kept operationID ∧ (next.Found operationID ↔ s.unexpired action = true) := by
  obtain ⟨moments, log, _, _, answers⟩ := (act_effect inv taken).log
  have requests : action.requests = true := by
    refine answers operationID (.ok acceptance) ?_
    rw [← List.append_cancel_left (accepted.symm.trans log)]
    exact List.mem_cons_self
  cases action with
  | execute op digest callback =>
      obtain ⟨rfl, free, ⟨existing, found⟩, rfl⟩ := accept_accepted taken accepted
      refine ⟨⟨⟨existing, found⟩, fun owns => ?_⟩, found_iff.trans ?_⟩
      · rw [Memory.Owns, note, free] at owns
        cases owns
      · simp [note, unexpired, found]
  | enqueue =>
      obtain ⟨free, records, record, found, pending⟩ := enqueue_accepted inv taken accepted
      rw [← records] at found
      refine ⟨⟨⟨record, found⟩, fun owns => ?_⟩, fun _ => rfl, fun _ => found_iff.mpr ⟨record, found, ?_⟩⟩
      · rw [Memory.Owns, free] at owns
        cases owns
      · have sound := inv.sound record (Keyed.mem_of_get (records ▸ found))
        rw [Record.expired, (sound.pending pending).2]
        rfl
  | readCancel | cancel | take | work | answer | exit | sweep | exitSweeper | close | crash | restart
  | recover | clock => cases requests

/-- An acceptance is found by status requests, at that instant and while the process serves until the
declared retention has elapsed after the end, exactly when the execute request has found no record or one
that has not expired. -/
theorem accepted_found_until_elapsed {acceptance : Acceptance} (reached : Reachable cfg s)
    (taken : s.act cfg action = some next)
    (accepted : next.log = s.log ++ [Moment.answered operationID (.ok acceptance)]) :
    (next.Found operationID ∧
      ∀ t, Steps (step cfg) (fun u _ => u.serving = true ∧ ¬u.Elapsed operationID) next t →
        t.serving = true → ¬t.Elapsed operationID → t.Found operationID) ↔
      s.unexpired action = true := by
  obtain ⟨kept, foundIff⟩ := act_accepted reached.inv taken accepted
  refine ⟨fun holds => foundIff.mp holds.1, fun fresh => ⟨foundIff.mpr fresh, ?_⟩⟩
  intro t ran serves early
  obtain ⟨inv, stays⟩ := kept_until (act_inv reached.inv taken) kept ran
  exact found_of_kept inv (stays serves) early

/-- The operation is over, and the same request comes again at the time given. -/
def againActions (now : Nat) : List Action :=
  startActions ++ acceptActions ++ runActions ++ endActions ++ [Action.clock now]

def again : Action := .execute firstOp "sha256:document" none

theorem again_accepted (now : Nat) (fresh : Bool)
    (ran : (Steps.ofList (act oneWorker) (fun _ _ => true) {} (againActions now)).map (fun s =>
      ((s.act oneWorker again).any fun next => next.log = s.log ++ [acceptedOp], s.unexpired again)) =
        some (true, fresh)) :
    ∃ s next, Reachable oneWorker s ∧ s.act oneWorker again = some next ∧
      next.log = s.log ++ [acceptedOp] ∧ s.unexpired again = fresh := by
  obtain ⟨s, reached, seen⟩ := Steps.reaches_of_ofList (fun _ _ _ => trivial) ran
  obtain ⟨answers, isFresh⟩ := Prod.mk.inj seen
  obtain ⟨next, taken, isLog⟩ := (Option.any_eq_true _ _).mp answers
  exact ⟨s, next, reached, taken, of_decide_eq_true isLog, isFresh⟩

theorem accepted_found_until_elapsed_again : ∃ s next, Reachable oneWorker s ∧
    s.act oneWorker again = some next ∧ next.log = s.log ++ [acceptedOp] ∧ next.Found "op" ∧
    ∀ t, Steps (step oneWorker) (fun u _ => u.serving = true ∧ ¬u.Elapsed "op") next t →
      t.serving = true → ¬t.Elapsed "op" → t.Found "op" := by
  obtain ⟨s, next, reached, taken, isLog, fresh⟩ :=
    again_accepted minStatusRetention true (by decide +kernel)
  exact ⟨s, next, reached, taken, isLog, (accepted_found_until_elapsed reached taken isLog).mpr fresh⟩

/-- The retention has elapsed and no sweep has come by: the request is accepted again, and a status request
finds nothing. -/
theorem expired_accepted : ¬∀ (cfg : Config) (s next : ServiceState) (action : Action)
    (operationID : String) (acceptance : Acceptance), Reachable cfg s → s.act cfg action = some next →
    next.log = s.log ++ [Moment.answered operationID (.ok acceptance)] →
      next.Found operationID ∧
        ∀ t, Steps (step cfg) (fun u _ => u.serving = true ∧ ¬u.Elapsed operationID) next t →
          t.serving = true → ¬t.Elapsed operationID → t.Found operationID := by
  intro always
  obtain ⟨s, next, reached, taken, isLog, expired⟩ :=
    again_accepted (minStatusRetention + 1) false (by decide +kernel)
  have found := (always oneWorker s next again "op" _ reached taken isLog).1
  rw [(act_accepted reached.inv taken isLog).2, expired] at found
  contradiction

end ServiceState
end CultureNodes.Runners
