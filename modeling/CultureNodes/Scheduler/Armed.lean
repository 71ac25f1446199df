import CultureNodes.Scheduler.Deadline

/-!
Whether a waiting invocation keeps a deadline that can still fail it. The row names the timer it was
started with for good, so the deadline is lost with that timer: when the timer is marked fired without
the attempt having been failed, or when it is retired with the row left waiting.
-/

namespace CultureNodes.Store

/-- The statement retires the timer if it is pending. -/
def WorkAction.retires : WorkAction → Timer → Bool
  | .cancelTimer id, timer => timer.id = id
  | .reap nodeRuns, timer | .endRun nodeRuns, timer => nodeRuns.contains timer.nodeRun
  | .cancelRun, _ => true
  | _, _ => false

/-- The statement writes no timer. -/
def WorkAction.sparesTimers : WorkAction → Bool
  | .startAsyncWait _ _ | .startDurableWait _ _ _ | .claimTimer _ _ _ | .fireTimer _ _ _ => false
  | .rearmDeadline _ _ _ | .cancelTimer _ | .reap _ | .endRun _ | .cancelRun => false
  | _ => true

/-- Every timer keeps its row, and the pending deadlines that are not retired stay pending. -/
def DeadlinesKept (retired : Timer → Bool) (before after : List Timer) : Prop :=
  ∀ timer ∈ before, ∃ next ∈ after, next.id = timer.id ∧
    (timer.kind = .deadline → timer.status = .pending → retired timer = false →
      next.kind = .deadline ∧ next.status = .pending)

namespace DeadlinesKept

variable {retired : Timer → Bool} {before after : List Timer}

theorem refl : DeadlinesKept retired before before := by
  intro timer member
  exact ⟨timer, member, rfl, fun isDeadline pending _ => ⟨isDeadline, pending⟩⟩

theorem append (added : List Timer) : DeadlinesKept retired before (before ++ added) := by
  intro timer member
  exact ⟨timer, List.mem_append_left _ member, rfl, fun isDeadline pending _ => ⟨isDeadline, pending⟩⟩

theorem present (kept : DeadlinesKept retired before after) {id : Nat}
    (known : ∃ row ∈ before, row.id = id) : ∃ row ∈ after, row.id = id := by
  obtain ⟨row, rowMember, isRow⟩ := known
  obtain ⟨next, nextMember, sameID, _⟩ := kept row rowMember
  exact ⟨next, nextMember, sameID.trans isRow⟩

/-- An update that keeps ids and kinds, and takes nothing out of `pending` that is not retired. -/
theorem update {guard : Timer → Bool} {write : Timer → Timer}
    (kept : ∀ timer, (write timer).id = timer.id ∧ (write timer).kind = timer.kind)
    (spares : ∀ timer ∈ before, guard timer = true → timer.kind = .deadline →
      retired timer = false → (write timer).status = timer.status) :
    DeadlinesKept retired before (Table.update before guard write) := by
  intro timer member
  refine ⟨_, Table.mem_update_of_mem guard write member, ?_⟩
  by_cases hit : guard timer = true
  · rw [if_pos hit]
    refine ⟨(kept timer).1, fun isDeadline pending notRetired => ?_⟩
    rw [(kept timer).2, spares timer member hit isDeadline notRetired]
    exact ⟨isDeadline, pending⟩
  · rw [if_neg hit]
    exact ⟨rfl, fun isDeadline pending _ => ⟨isDeadline, pending⟩⟩

end DeadlinesKept

namespace WorkTables

variable {tables next : WorkTables} {claim : Claim} {deadline : Option (Nat × Nat)}

theorem updateItems?_timers {guard : WorkItem → Bool} {write : WorkItem → WorkItem}
    (ran : tables.updateItems? guard write = some next) : next.timers = tables.timers := by
  obtain ⟨_, rfl⟩ := updateItems?_eq_some ran
  rfl

theorem startAsyncWait_timers (ran : tables.startAsyncWait claim deadline = some next) :
    ∃ added, next.timers = tables.timers ++ added ∧
      ∀ timer fireAt, deadline = some (timer, fireAt) →
        (∀ row ∈ tables.timers, row.id ≠ timer) ∧
        ∃ row ∈ added, row.id = timer ∧ row.kind = .deadline ∧ row.status = .pending := by
  simp only [startAsyncWait, Option.bind_eq_bind, Option.bind_eq_some_iff] at ran
  obtain ⟨parked, park, nodeRun, _, ran⟩ := ran
  have same := updateItems?_timers park
  cases deadline with
  | none =>
      rw [← Option.some.inj ran, same]
      refine ⟨[], (List.append_nil _).symm, fun _ _ given => ?_⟩
      contradiction
  | some given =>
      obtain ⟨timer, fireAt⟩ := given
      simp only at ran
      split at ran
      · contradiction
      · rename_i fresh
        rw [← Option.some.inj ran, same]
        refine ⟨_, rfl, fun other _ given => ?_⟩
        obtain rfl : timer = other := congrArg Prod.fst (Option.some.inj given)
        refine ⟨fun row member isRow => fresh ?_, _, List.mem_singleton_self _, rfl, rfl, rfl⟩
        rw [same]
        exact List.any_eq_true.mpr ⟨row, member, decide_eq_true isRow⟩

theorem rearmDeadline_timers {id nodeRun fireAt : Nat}
    (ran : tables.rearmDeadline id nodeRun fireAt = some next) :
    ∃ added, next.timers = tables.timers ++ added := by
  unfold rearmDeadline at ran
  split at ran
  · contradiction
  · rw [← Option.some.inj ran]
    exact ⟨_, rfl⟩

theorem fireTimer_timers {id now : Nat} {owner : String}
    (ran : tables.fireTimer id owner now = some next) :
    next.timers = Table.update tables.timers
      (fun row => row.id = id && row.claimedBy = some owner && row.status = .pending)
      (fun row => { row with status := .fired }) := by
  unfold fireTimer at ran
  split at ran
  · contradiction
  · rw [← Option.some.inj ran]

theorem claimTimer_kept {id now : Nat} {owner : String} {retired : Timer → Bool} :
    DeadlinesKept retired tables.timers (tables.claimTimer id owner now).timers :=
  .update (fun _ => ⟨rfl, rfl⟩) fun _ _ _ _ _ => rfl

theorem fireTimer_kept {id now : Nat} {owner : String} {retired : Timer → Bool}
    (ran : tables.fireTimer id owner now = some next)
    (spares : ∀ timer ∈ tables.timers, timer.kind = .deadline → retired timer = false →
      timer.id ≠ id) : DeadlinesKept retired tables.timers next.timers := by
  rw [fireTimer_timers ran]
  refine .update (fun _ => ⟨rfl, rfl⟩) fun timer member hit isDeadline notRetired => ?_
  simp only [Bool.and_eq_true, decide_eq_true_eq] at hit
  exact absurd hit.1.1 (spares timer member isDeadline notRetired)

end WorkTables

theorem WorkSystem.completeWork_timers {tables next : WorkTables} {claim : Claim}
    {retry : Option (Nat × Nat)} (ran : WorkSystem.completeWork tables claim retry = some next) :
    next.timers = tables.timers := by
  simp only [WorkSystem.completeWork, Option.bind_eq_bind, Option.bind_eq_some_iff] at ran
  obtain ⟨done, finish, nodeRun, _, ran⟩ := ran
  have same := WorkTables.updateItems?_timers finish
  cases retry with
  | none => rw [← Option.some.inj ran, same]
  | some given =>
      simp only at ran
      split at ran
      · contradiction
      · rw [← Option.some.inj ran]
        exact same

namespace WorkSystem

variable {isCode : Nat → Bool} {system next : WorkSystem} {action : WorkAction}

theorem act_timers (spares : action.sparesTimers = true) (acted : system.act isCode action = some next) :
    next.tables.timers = system.tables.timers := by
  cases action with
  | claim | extendLease | deferWork | resumeWaitingWork | reparkResumedWork =>
      obtain ⟨tables, done, rfl⟩ := Option.map_eq_some_iff.mp acted
      exact WorkTables.updateItems?_timers done
  | completeWork =>
      obtain ⟨tables, done, rfl⟩ := Option.map_eq_some_iff.mp acted
      exact completeWork_timers done
  | startDurableSignalWait =>
      obtain ⟨tables, done, rfl⟩ := Option.map_eq_some_iff.mp acted
      simp only [WorkTables.startDurableSignalWait, Option.bind_eq_bind, Option.bind_eq_some_iff]
        at done
      obtain ⟨parked, park, nodeRun, _, done⟩ := done
      rw [← WorkTables.updateItems?_timers park]
      split at done <;> rw [← Option.some.inj done]
  | fireSubscription =>
      obtain ⟨tables, done, rfl⟩ := Option.map_eq_some_iff.mp acted
      unfold WorkTables.fireSubscription at done
      split at done
      · contradiction
      · rw [← Option.some.inj done]
        rfl
  | enqueue | parkFrozen =>
      simp only [act, Option.ite_none_left_eq_some, Option.some.injEq] at acted
      rw [← acted.2]
      rfl
  | reclaimExpired =>
      rw [← Option.some.inj acted]
      rfl
  | _ => contradiction

/-- What a statement on the run's work does to the deadlines. Only the mark of a deadline's own firing
turns it `fired`. -/
theorem act_deadlines (acted : system.act isCode action = some next)
    (spares : ∀ id owner now, action = .fireTimer id owner now →
      ∀ timer ∈ system.tables.timers, timer.kind = .deadline → timer.id ≠ id) :
    DeadlinesKept action.retires system.tables.timers next.tables.timers := by
  cases action with
  | startAsyncWait claim deadline =>
      obtain ⟨tables, done, rfl⟩ := Option.map_eq_some_iff.mp acted
      obtain ⟨added, grown, _⟩ := WorkTables.startAsyncWait_timers done
      rw [grown]
      exact .append added
  | startDurableWait claim timer fireAt =>
      obtain ⟨tables, done, rfl⟩ := Option.map_eq_some_iff.mp acted
      simp only [WorkTables.startDurableWait, Option.bind_eq_bind, Option.bind_eq_some_iff] at done
      obtain ⟨parked, park, nodeRun, _, done⟩ := done
      rw [← WorkTables.updateItems?_timers park]
      split at done
      · rw [← Option.some.inj done]
        exact .refl
      · rw [← Option.some.inj done]
        exact .append _
  | claimTimer id owner now =>
      rw [← Option.some.inj acted]
      exact WorkTables.claimTimer_kept
  | fireTimer id owner now =>
      obtain ⟨tables, done, rfl⟩ := Option.map_eq_some_iff.mp acted
      exact WorkTables.fireTimer_kept done fun timer member isDeadline _ =>
        spares id owner now rfl timer member isDeadline
  | rearmDeadline id nodeRun fireAt =>
      obtain ⟨tables, done, rfl⟩ := Option.map_eq_some_iff.mp acted
      obtain ⟨added, grown⟩ := WorkTables.rearmDeadline_timers done
      rw [grown]
      exact .append added
  | cancelTimer id =>
      rw [← Option.some.inj acted]
      refine .update (fun _ => ⟨rfl, rfl⟩) fun timer _ hit _ notRetired => ?_
      simp only [WorkAction.retires, Bool.and_eq_true] at hit notRetired
      rw [hit.1] at notRetired
      contradiction
  | reap nodeRuns | endRun nodeRuns =>
      rw [← Option.some.inj acted]
      refine .update (fun _ => ⟨rfl, rfl⟩) fun timer _ hit _ notRetired => ?_
      simp only [WorkAction.retires, Bool.and_eq_true] at hit notRetired
      rw [hit.2] at notRetired
      contradiction
  | cancelRun =>
      simp only [act] at acted
      split at acted
      · contradiction
      · rw [← Option.some.inj acted]
        refine .update (fun _ => ⟨rfl, rfl⟩) fun timer _ _ _ notRetired => ?_
        contradiction
  | _ =>
      rw [act_timers rfl acted]
      exact .refl

end WorkSystem
end CultureNodes.Store

namespace CultureNodes.Scheduler

open CultureNodes.Store

namespace State

variable (s : State)

/-- Every waiting invocation that was started with a deadline has a pending deadline timer that
resolves to it. -/
def Deadlined : Prop :=
  ∀ inv ∈ s.invocations, inv.waiting = true → inv.deadlineTimer.isSome = true →
    ∃ timer ∈ s.work.tables.timers, timer.kind = .deadline ∧ timer.status = .pending ∧
      s.invocationByDeadlineTimer timer.id = some inv

instance : Decidable s.Deadlined := by
  unfold Deadlined
  infer_instance

def settled (timer : Nat) : Bool :=
  s.invocations.all fun inv => !(inv.deadlineTimer = some timer && inv.waiting)

variable (declared : Nat → Option Continuation) (created : Nat → Nat)

/-- The firing is about to leave the attempt alone and mark its timer all the same: the continuation
pauses it, or the work is found to have moved on. -/
def leaves (answers : Answers) : Phase → Bool
  | .decide _ inv => answers.stored &&
      (deadlineContinuationHolds (declared inv.nodeRun) (created inv.nodeRun) answers.now
        answers.sessions answers.status).isSome
  | .resume _ inv => answers.stored &&
      (s.work.tables.resumeWaitingWork inv.claim answers.now answers.lease).isNone
  | .complete _ inv =>
      match answers.complete with
      | .failed => false
      | .refused => true
      | .committed => (WorkSystem.completeWork s.work.tables inv.claim answers.retry).isNone
  | _ => false

/-- The step takes no deadline from a waiting invocation: it retires no timer that one names, and no
firing leaves such an invocation alone. -/
def timely : Action → Bool
  | .work action => s.work.tables.timers.all fun timer => !action.retires timer || s.settled timer.id
  | .fire firing answers =>
      match s.firings[firing]? with
      | none => true
      | some current => !s.leaves declared created answers current.phase || s.settled current.timer.id
  | _ => true

/-- The record a firing works on is the only one its timer resolves to. -/
def Resolved (timer : Nat) : Record → Invocation → Prop
  | .actor, inv => ∀ row ∈ s.invocations, row.deadlineTimer = some timer →
      row.attemptID = inv.attemptID
  | .runner, _ => s.settled timer = true

/-- What a firing may rely on where it stands. A firing that is to mark its timer has no waiting
invocation behind it. -/
def Standing (timer : Nat) : Phase → Prop
  | .load | .ended => True
  | .decide record inv | .resume record inv | .complete record inv | .close record inv =>
      s.Resolved timer record inv
  | .rearm _ _ | .mark => s.settled timer = true

structure Guarded : Prop where
  named : ∀ inv ∈ s.invocations, ∀ timer, inv.deadlineTimer = some timer →
    ∃ row ∈ s.work.tables.timers, row.id = timer
  unique : ∀ inv ∈ s.invocations, ∀ other ∈ s.invocations, ∀ timer,
    inv.deadlineTimer = some timer → other.deadlineTimer = some timer → inv = other
  armed : ∀ inv ∈ s.invocations, inv.waiting = true → ∀ timer, inv.deadlineTimer = some timer →
    ∃ row ∈ s.work.tables.timers, row.id = timer ∧ row.kind = .deadline ∧ row.status = .pending
  fired : ∀ firing ∈ s.firings, (∃ row ∈ s.work.tables.timers, row.id = firing.timer.id) ∧
    s.Standing firing.timer.id firing.phase

variable {s}

theorem settled_iff {timer : Nat} : s.settled timer = true ↔
    ∀ inv ∈ s.invocations, inv.deadlineTimer = some timer → inv.waiting = false := by
  simp [settled, imp_iff_not_or]

theorem Guarded.deadlined (guarded : s.Guarded) : s.Deadlined := by
  intro inv member waits bounded
  obtain ⟨timer, named⟩ := Option.isSome_iff_exists.mp bounded
  obtain ⟨row, rowMember, isRow, isDeadline, pending⟩ := guarded.armed inv member waits timer named
  refine ⟨row, rowMember, isDeadline, pending, ?_⟩
  rw [isRow]
  unfold invocationByDeadlineTimer
  cases found : s.invocations.find? (·.deadlineTimer = some timer) with
  | none =>
      have unnamed := List.find?_eq_none.mp found inv member
      exact absurd (decide_eq_true named) unnamed
  | some other =>
      have otherNamed : other.deadlineTimer = some timer := by simpa using List.find?_some found
      rw [guarded.unique inv member other (List.mem_of_find?_eq_some found) timer named otherNamed]

theorem Guarded.initial : (({} : State)).Guarded where
  named := fun _ member => absurd member List.not_mem_nil
  unique := fun _ member => absurd member List.not_mem_nil
  armed := fun _ member => absurd member List.not_mem_nil
  fired := fun _ member => absurd member List.not_mem_nil

/-- The tables may change as long as no waiting invocation loses its timer. -/
theorem Guarded.setWork (guarded : s.Guarded) {work : WorkSystem} {retired : Timer → Bool}
    (kept : DeadlinesKept retired s.work.tables.timers work.tables.timers)
    (spares : ∀ timer ∈ s.work.tables.timers, retired timer = true → s.settled timer.id = true) :
    ({ s with work := work } : State).Guarded where
  named inv member timer names := kept.present (guarded.named inv member timer names)
  unique := guarded.unique
  armed inv member waits timer names := by
    obtain ⟨row, rowMember, isRow, isDeadline, pending⟩ := guarded.armed inv member waits timer names
    obtain ⟨next, nextMember, sameID, stays⟩ := kept row rowMember
    have notRetired : retired row = false := by
      rw [Bool.eq_false_iff]
      intro isRetired
      have closed := settled_iff.mp (spares row rowMember isRetired) inv member (isRow ▸ names)
      rw [waits] at closed
      contradiction
    exact ⟨next, nextMember, sameID.trans isRow, stays isDeadline pending notRetired⟩
  fired firing member := by
    obtain ⟨known, standing⟩ := guarded.fired firing member
    exact ⟨kept.present known, standing⟩

theorem Guarded.setTimers (guarded : s.Guarded) {tables : WorkTables}
    (kept : DeadlinesKept (fun _ => false) s.work.tables.timers tables.timers) :
    (s.setTables tables).Guarded :=
  guarded.setWork kept fun _ _ absurdly => Bool.noConfusion absurdly

theorem Guarded.put (guarded : s.Guarded) {firing : Nat} {timer : Timer} {owner : String}
    {phase : Phase} (present : ∃ row ∈ s.work.tables.timers, row.id = timer.id)
    (standing : s.Standing timer.id phase) : (s.put firing timer owner phase).Guarded where
  named := guarded.named
  unique := guarded.unique
  armed := guarded.armed
  fired other member := by
    rcases List.mem_or_eq_of_mem_set member with old | rfl
    · exact guarded.fired other old
    · exact ⟨present, standing⟩

/-- A firing moves on with a write that keeps the pending deadlines. -/
theorem Guarded.moved (guarded : s.Guarded) {tables : WorkTables} {firing : Nat} {timer : Timer}
    {owner : String} {phase : Phase}
    (kept : DeadlinesKept (fun _ => false) s.work.tables.timers tables.timers)
    (present : ∃ row ∈ s.work.tables.timers, row.id = timer.id) (standing : s.Standing timer.id phase) :
    ((s.setTables tables).put firing timer owner phase).Guarded :=
  (guarded.setTimers kept).put (kept.present present) standing

end State

theorem mem_closeRecord {records : List Invocation} {attemptID : String} {state : InvocationState}
    {row : Invocation} (left : state ≠ .waitingExternal)
    (member : row ∈ closeRecord records attemptID state) :
    ∃ old ∈ records, row.attemptID = old.attemptID ∧ row.deadlineTimer = old.deadlineTimer ∧
      (row.waiting = true → row = old ∧ old.attemptID ≠ attemptID) := by
  obtain ⟨old, oldMember, rfl⟩ := Table.mem_update.mp member
  refine ⟨old, oldMember, ?_⟩
  by_cases hit : (decide (old.attemptID = attemptID) && old.waiting) = true
  · rw [if_pos hit]
    refine ⟨rfl, rfl, fun waits => ?_⟩
    exact absurd (of_decide_eq_true waits) left
  · rw [if_neg hit]
    refine ⟨rfl, rfl, fun waits => ⟨rfl, fun same => hit ?_⟩⟩
    rw [Bool.and_eq_true]
    exact ⟨decide_eq_true same, waits⟩

namespace State

variable {s : State} {attemptID : String} {state : InvocationState}

/-- What a firing relies on lasts as long as the rows that name its timer come from such rows, and
none of them starts to wait. -/
theorem Standing.of_rows {timer : Nat} {phase : Phase} {next : State} (standing : s.Standing timer phase)
    (rows : ∀ row ∈ next.invocations, row.deadlineTimer = some timer →
      ∃ old ∈ s.invocations, old.deadlineTimer = some timer ∧ row.attemptID = old.attemptID ∧
        (row.waiting = true → old.waiting = true)) : next.Standing timer phase := by
  have settles : s.settled timer = true → next.settled timer = true := by
    intro settled
    rw [settled_iff] at settled ⊢
    intro row member names
    obtain ⟨old, oldMember, oldNames, _, waits⟩ := rows row member names
    rw [Bool.eq_false_iff]
    intro rowWaits
    have oldWaits := waits rowWaits
    rw [settled old oldMember oldNames] at oldWaits
    contradiction
  have resolves : ∀ record inv, s.Resolved timer record inv → next.Resolved timer record inv := by
    intro record inv resolved
    cases record with
    | actor =>
        intro row member names
        obtain ⟨old, oldMember, oldNames, sameAttempt, _⟩ := rows row member names
        exact sameAttempt.trans (resolved old oldMember oldNames)
    | runner => exact settles resolved
  cases phase with
  | load => trivial
  | ended => trivial
  | decide record inv => exact resolves record inv standing
  | resume record inv => exact resolves record inv standing
  | complete record inv => exact resolves record inv standing
  | close record inv => exact resolves record inv standing
  | rearm inv fireAt => exact settles standing
  | mark => exact settles standing

theorem Guarded.closeInvocation (guarded : s.Guarded) (left : state ≠ .waitingExternal) :
    (s.closeInvocation attemptID state).Guarded where
  named row member timer names := by
    obtain ⟨old, oldMember, _, sameTimer, _⟩ := mem_closeRecord left member
    exact guarded.named old oldMember timer (sameTimer ▸ names)
  unique row member other otherMember timer names otherNames := by
    obtain ⟨old, oldMember, rfl⟩ := Table.mem_update.mp member
    obtain ⟨oldOther, oldOtherMember, rfl⟩ := Table.mem_update.mp otherMember
    have keeps : ∀ inv : Invocation, (if (decide (inv.attemptID = attemptID) && inv.waiting) = true
        then { inv with state := state } else inv).deadlineTimer = inv.deadlineTimer := by
      intro inv
      split <;> rfl
    rw [keeps] at names otherNames
    rw [guarded.unique old oldMember oldOther oldOtherMember timer names otherNames]
  armed row member waits timer names := by
    obtain ⟨old, oldMember, _, _, stillOpen⟩ := mem_closeRecord left member
    obtain ⟨rfl, _⟩ := stillOpen waits
    exact guarded.armed row oldMember waits timer names
  fired firing member := by
    obtain ⟨present, standing⟩ := guarded.fired firing member
    refine ⟨present, standing.of_rows fun row rowMember names => ?_⟩
    obtain ⟨old, oldMember, sameAttempt, sameTimer, stillOpen⟩ := mem_closeRecord left rowMember
    exact ⟨old, oldMember, sameTimer ▸ names, sameAttempt, fun waits => (stillOpen waits).1 ▸ waits⟩

theorem settled_closeWait {timer : Nat} {record : Record} {inv : Invocation}
    (resolved : s.Resolved timer record inv) :
    (s.closeWait record inv.attemptID).settled timer = true := by
  cases record with
  | runner => exact resolved
  | actor =>
      rw [settled_iff]
      intro row member names
      obtain ⟨old, oldMember, _, sameTimer, stillOpen⟩ := mem_closeRecord InvocationState.noConfusion member
      rw [Bool.eq_false_iff]
      intro waits
      obtain ⟨rfl, notClosed⟩ := stillOpen waits
      exact notClosed (resolved row oldMember names)

theorem Guarded.closeWait (guarded : s.Guarded) (record : Record) :
    (s.closeWait record attemptID).Guarded := by
  cases record with
  | actor => exact guarded.closeInvocation InvocationState.noConfusion
  | runner => exact ⟨guarded.named, guarded.unique, guarded.armed, guarded.fired⟩

/-- A new row names a timer that no firing and no other row can name. -/
theorem Guarded.startAsyncWait (guarded : s.Guarded) {claim : Claim} {deadline : Option (Nat × Nat)}
    {next : State} (ran : s.startAsyncWait attemptID claim deadline = some next) : next.Guarded := by
  obtain ⟨⟨tables, inv⟩, started, rfl⟩ := Option.map_eq_some_iff.mp ran
  obtain ⟨park, _, nodeRun, rfl⟩ := startWait_eq_some started
  obtain ⟨added, grown, fresh⟩ := WorkTables.startAsyncWait_timers park
  have before : (s.setTables tables).Guarded := guarded.setTimers (grown ▸ .append added)
  have stamped : ∀ timer, deadline.map Prod.fst = some timer →
      (∀ row ∈ s.work.tables.timers, row.id ≠ timer) ∧
      ∃ row ∈ tables.timers, row.id = timer ∧ row.kind = .deadline ∧ row.status = .pending := by
    intro timer names
    obtain ⟨⟨other, fireAt⟩, given, rfl⟩ := Option.map_eq_some_iff.mp names
    obtain ⟨absent, row, rowMember, facts⟩ := fresh other fireAt given
    exact ⟨absent, row, grown ▸ List.mem_append_right _ rowMember, facts⟩
  refine ⟨?_, ?_, ?_, ?_⟩
  · intro row member timer names
    rcases List.mem_append.mp member with old | new
    · exact before.named row old timer names
    · rw [List.mem_singleton] at new
      subst new
      obtain ⟨_, stamp, stampMember, isStamp, _⟩ := stamped timer names
      exact ⟨stamp, stampMember, isStamp⟩
  · intro row member other otherMember timer names otherNames
    rcases List.mem_append.mp member with old | new <;>
      rcases List.mem_append.mp otherMember with oldOther | newOther
    · exact guarded.unique row old other oldOther timer names otherNames
    · rw [List.mem_singleton] at newOther
      subst newOther
      obtain ⟨known, knownMember, isKnown⟩ := guarded.named row old timer names
      exact absurd isKnown ((stamped timer otherNames).1 known knownMember)
    · rw [List.mem_singleton] at new
      subst new
      obtain ⟨known, knownMember, isKnown⟩ := guarded.named other oldOther timer otherNames
      exact absurd isKnown ((stamped timer names).1 known knownMember)
    · rw [List.mem_singleton] at new newOther
      rw [new, newOther]
  · intro row member waits timer names
    rcases List.mem_append.mp member with old | new
    · exact before.armed row old waits timer names
    · rw [List.mem_singleton] at new
      subst new
      exact (stamped timer names).2
  · intro firing member
    obtain ⟨present, standing⟩ := before.fired firing member
    refine ⟨present, standing.of_rows fun row rowMember names => ?_⟩
    rcases List.mem_append.mp rowMember with old | new
    · exact ⟨row, old, names, rfl, fun waits => waits⟩
    · rw [List.mem_singleton] at new
      subst new
      obtain ⟨⟨known, knownMember, isKnown⟩, _⟩ := guarded.fired firing member
      exact absurd isKnown ((stamped _ names).1 known knownMember)

variable {next : State} {declared : Nat → Option Continuation} {created : Nat → Nat}

theorem Guarded.startRunnerWait (guarded : s.Guarded) {claim : Claim} {deadline : Option (Nat × Nat)}
    (ran : s.startRunnerWait attemptID claim deadline = some next) : next.Guarded := by
  obtain ⟨⟨tables, op⟩, started, rfl⟩ := Option.map_eq_some_iff.mp ran
  obtain ⟨added, grown, _⟩ := WorkTables.startAsyncWait_timers (startWait_eq_some started).1
  have before : (s.setTables tables).Guarded := guarded.setTimers (grown ▸ .append added)
  exact ⟨before.named, before.unique, before.armed, before.fired⟩

theorem Guarded.claimDue (guarded : s.Guarded) {timer now : Nat} {owner : String}
    (ran : s.claimDue timer owner now = some next) : next.Guarded := by
  unfold State.claimDue at ran
  split at ran
  · contradiction
  rename_i row found
  have kept : DeadlinesKept (fun _ => false) s.work.tables.timers
      (s.work.tables.claimTimer timer owner now).timers := WorkTables.claimTimer_kept
  have before := guarded.setTimers kept
  rw [← Option.some.inj ran]
  refine ⟨before.named, before.unique, before.armed, fun firing member => ?_⟩
  rcases List.mem_append.mp member with old | new
  · exact before.fired firing old
  · rw [List.mem_singleton] at new
    subst new
    exact ⟨kept.present ⟨row, List.mem_of_find?_eq_some found, rfl⟩, trivial⟩

theorem Guarded.resolved (guarded : s.Guarded) {timer : Nat} {record : Record} {inv : Invocation}
    (found : s.waitForDeadlineTimer timer = some (record, inv)) : s.Resolved timer record inv := by
  unfold waitForDeadlineTimer at found
  split at found
  · rename_i first isFirst
    obtain ⟨rfl, rfl⟩ := Prod.mk.inj (Option.some.inj found)
    intro row member names
    have firstNames : first.deadlineTimer = some timer := by simpa using List.find?_some isFirst
    rw [guarded.unique row member first (List.mem_of_find?_eq_some isFirst) timer names firstNames]
  · rename_i absent
    obtain ⟨op, _, same⟩ := Option.map_eq_some_iff.mp found
    obtain ⟨rfl, rfl⟩ := Prod.mk.inj same
    exact settled_iff.mpr fun row member names =>
      absurd (decide_eq_true names) (List.find?_eq_none.mp absent row member)

theorem Guarded.settled_of_load (guarded : s.Guarded) {timer : Nat}
    (idle : ∀ record inv, s.waitForDeadlineTimer timer = some (record, inv) → inv.waiting = false) :
    s.settled timer = true := by
  rw [settled_iff]
  intro row member names
  cases found : s.invocationByDeadlineTimer timer with
  | none => exact absurd (decide_eq_true names) (List.find?_eq_none.mp found row member)
  | some first =>
      have firstNames : first.deadlineTimer = some timer := by simpa using List.find?_some found
      rw [guarded.unique row member first (List.mem_of_find?_eq_some found) timer names firstNames]
      exact idle .actor first (by rw [waitForDeadlineTimer, found])

/-- A firing that finds nothing to fail marks its timer, which is settled then. -/
theorem Guarded.load (guarded : s.Guarded) {firing : Nat} {timer : Timer} {owner : String}
    {answers : Answers} (present : ∃ row ∈ s.work.tables.timers, row.id = timer.id)
    (ran : s.advance declared created firing timer owner answers .load = some next) : next.Guarded := by
  simp only [State.advance] at ran
  split at ran
  · exact Option.some.inj ran ▸ guarded.put present trivial
  · split at ran
    · rename_i absent
      rw [← Option.some.inj ran]
      refine guarded.put present (guarded.settled_of_load fun record inv found => ?_)
      rw [absent] at found
      contradiction
    · rename_i record inv found
      split at ran
      · rw [← Option.some.inj ran]
        exact guarded.put present (guarded.resolved found)
      · rename_i idle
        rw [← Option.some.inj ran]
        refine guarded.put present (guarded.settled_of_load fun other otherInv otherFound => ?_)
        rw [found] at otherFound
        obtain ⟨_, rfl⟩ := Prod.mk.inj (Option.some.inj otherFound)
        exact Bool.eq_false_iff.mpr idle

/-- The mark takes its own timer out of `pending`, which nothing waits for any more. -/
theorem Guarded.mark (guarded : s.Guarded) {firing : Nat} {timer : Timer} {owner : String}
    {answers : Answers} (present : ∃ row ∈ s.work.tables.timers, row.id = timer.id)
    (settled : s.settled timer.id = true)
    (ran : s.advance declared created firing timer owner answers .mark = some next) : next.Guarded := by
  simp only [State.advance] at ran
  split at ran
  · exact Option.some.inj ran ▸ guarded.put present trivial
  · split at ran
    · exact Option.some.inj ran ▸ guarded.put present trivial
    · rename_i fired marked
      have kept : DeadlinesKept (fun row => row.id = timer.id) s.work.tables.timers fired.timers :=
        WorkTables.fireTimer_kept marked fun row _ _ other => of_decide_eq_false other
      have after : (s.setTables fired).Guarded := by
        refine guarded.setWork kept fun row _ isTimer => ?_
        rw [of_decide_eq_true isTimer]
        exact settled
      rw [← Option.some.inj ran]
      exact after.put (kept.present present) trivial

/-- One commit of a firing. The mark is the only one that takes a timer out of `pending`, and by then
the timer is settled: the attempt was failed and its row closed, or there was nothing to fail. -/
theorem Guarded.advance (guarded : s.Guarded) {firing : Nat} {timer : Timer} {owner : String}
    {answers : Answers} {phase : Phase} (present : ∃ row ∈ s.work.tables.timers, row.id = timer.id)
    (standing : s.Standing timer.id phase)
    (timely : s.leaves declared created answers phase = true → s.settled timer.id = true)
    (ran : s.advance declared created firing timer owner answers phase = some next) :
    next.Guarded := by
  have ended : (s.put firing timer owner .ended).Guarded := guarded.put present trivial
  have marks : s.settled timer.id = true → (s.put firing timer owner .mark).Guarded :=
    fun settled => guarded.put present settled
  cases phase with
  | load => exact guarded.load present ran
  | decide record inv =>
      simp only [State.advance] at ran
      split at ran
      · exact Option.some.inj ran ▸ ended
      · rename_i stored
        split at ran
        · rename_i nextCheck paused
          rw [← Option.some.inj ran]
          refine guarded.put present (timely ?_)
          simp only [leaves, paused, Option.isSome_some, Bool.and_true]
          simpa using stored
        · rw [← Option.some.inj ran]
          exact guarded.put present standing
  | rearm inv fireAt =>
      simp only [State.advance] at ran
      split at ran
      · exact Option.some.inj ran ▸ ended
      · split at ran
        · exact Option.some.inj ran ▸ ended
        · rename_i armed rearmed
          obtain ⟨added, grown⟩ := WorkTables.rearmDeadline_timers rearmed
          rw [← Option.some.inj ran]
          exact guarded.moved (grown ▸ .append added) present standing
  | resume record inv =>
      simp only [State.advance] at ran
      split at ran
      · exact Option.some.inj ran ▸ ended
      · rename_i stored
        split at ran
        · rename_i refused
          rw [← Option.some.inj ran]
          refine marks (timely ?_)
          simp only [leaves, refused, Option.isNone_none, Bool.and_true]
          simpa using stored
        · rename_i resumed moved
          rw [← Option.some.inj ran]
          exact guarded.moved (WorkTables.updateItems?_timers moved ▸ .refl) present standing
  | complete record inv =>
      simp only [State.advance] at ran
      split at ran
      · exact Option.some.inj ran ▸ ended
      · rename_i refused
        rw [← Option.some.inj ran]
        exact marks (timely (by simp only [leaves, refused]))
      · rename_i committed
        split at ran
        · rename_i stale
          rw [← Option.some.inj ran]
          exact marks (timely (by simp only [leaves, committed, stale, Option.isNone_none]))
        · rename_i done completed
          rw [← Option.some.inj ran]
          exact guarded.moved (WorkSystem.completeWork_timers completed ▸ .refl) present standing
  | close record inv =>
      simp only [State.advance] at ran
      split at ran
      · exact Option.some.inj ran ▸ ended
      · rw [← Option.some.inj ran]
        refine (guarded.closeWait record).put ?_ (settled_closeWait standing)
        cases record <;> exact present
  | mark => exact guarded.mark present standing ran
  | ended => contradiction

theorem Guarded.act (guarded : s.Guarded) {isCode : Nat → Bool} {action : Action}
    (timely : s.timely declared created action = true)
    (ran : s.act declared created isCode action = some next) : next.Guarded := by
  cases action with
  | work action =>
      simp only [State.act] at ran
      split at ran
      · rename_i only
        obtain ⟨work, acted, rfl⟩ := Option.map_eq_some_iff.mp ran
        refine guarded.setWork (WorkSystem.act_deadlines acted ?_) fun timer member retired => ?_
        · rintro id owner now rfl timer member isDeadline rfl
          simp only [workOnly, Bool.not_eq_true', List.any_eq_false] at only
          exact only timer member (by simp [isDeadline])
        · have spared := List.all_eq_true.mp timely timer member
          rwa [retired, Bool.not_true, Bool.false_or] at spared
      · contradiction
  | startAsyncWait attemptID claim deadline => exact guarded.startAsyncWait ran
  | startRunnerWait attemptID claim deadline => exact guarded.startRunnerWait ran
  | closeInvocation attemptID state =>
      simp only [State.act] at ran
      split at ran
      · contradiction
      · rename_i left
        exact Option.some.inj ran ▸ guarded.closeInvocation left
  | closeRunnerOperation attemptID state =>
      simp only [State.act] at ran
      split at ran
      · contradiction
      · rw [← Option.some.inj ran]
        exact ⟨guarded.named, guarded.unique, guarded.armed, guarded.fired⟩
  | claimDue timer owner now => exact guarded.claimDue ran
  | fire firing answers =>
      simp only [State.act] at ran
      split at ran
      · contradiction
      · rename_i timer owner phase found
        obtain ⟨present, standing⟩ := guarded.fired _ (List.mem_of_getElem? found)
        refine guarded.advance present standing (fun isLeft => ?_) ran
        simp only [State.timely, found, isLeft, Bool.not_true, Bool.false_or] at timely
        exact timely

/-- In every run that takes no deadline from a waiting invocation, every waiting invocation with a
deadline has a pending timer that resolves to it. -/
theorem deadlined_of_timely {isCode : Nat → Bool}
    (run : Steps (State.step declared created isCode)
      (fun s action => s.timely declared created action = true) {} s) : s.Deadlined :=
  (run.invariant State.Guarded .initial fun _ _ _ guarded timely ran => guarded.act timely ran).deadlined

end State

def dispatch : Claim := ⟨1, "worker", 1, 1⟩

/-- A dispatched work item is parked behind an actor, with a deadline. -/
def parkedWithDeadline : List Action :=
  [.work (.enqueue 1 1 0), .work (.claim 1 "worker" false 0 60),
    .startAsyncWait "attempt" dispatch (some (10, 5))]

/-- The session continues while the node is incomplete, up to a bound on time. -/
def warm : Continuation where
  conditions := [fun state => some (state.nodeState = "incomplete")]
  maxContinuations := 3
  maxWallClock := 7200
  maxSessions := 4
  onExhausted := "timed_out"

/-- The deadline is due and its firing has found the waiting invocation. -/
theorem deadlined_of_timely_due : ∃ s : State, s.Deadlined ∧ s.firings ≠ [] ∧
    s.invocations = [⟨"attempt", 1, dispatch, some 10, .waitingExternal⟩] := by
  have ran : (Steps.ofList (State.act · (fun _ => none) (fun _ => 0) fun _ => false)
      (State.timely · (fun _ => none) fun _ => 0) ({} : State)
      (parkedWithDeadline ++ [Action.claimDue 10 "scheduler" 5, .fire 0 {}, .fire 0 {}])).map
        (fun s => (s.firings.isEmpty, s.invocations)) =
      some (false, [⟨"attempt", 1, dispatch, some 10, .waitingExternal⟩]) := by decide
  obtain ⟨s, reached, facts⟩ := Option.map_eq_some_iff.mp ran
  obtain ⟨firing, invocations⟩ := Prod.mk.inj facts
  refine ⟨s, State.deadlined_of_timely (Steps.of_ofList (fun _ _ checked => checked) reached), ?_,
    invocations⟩
  rintro none
  rw [none] at firing
  contradiction

/-- The continuation pauses the deadline once: its timer fires, and the timer that replaces it resolves
to nothing. -/
theorem paused_deadline_lost : ¬ ∀ (declared : Nat → Option Continuation) (created : Nat → Nat)
    (isCode : Nat → Bool) (s : State),
    Steps (State.step declared created isCode) anyAction {} s → s.Deadlined := by
  intro always
  have ran : (Steps.ofList (State.act · (fun _ => some warm) (fun _ => 0) fun _ => false)
      (fun _ _ => true) ({} : State) (parkedWithDeadline ++ [Action.claimDue 10 "scheduler" 5, .fire 0 {}, .fire 0 {},
        .fire 0 { timer := 11 }, .fire 0 {}])).map (fun s => decide s.Deadlined) = some false := by decide
  obtain ⟨s, reached, lost⟩ := Option.map_eq_some_iff.mp ran
  exact of_decide_eq_false lost (always _ _ _ s (Steps.of_ofList (fun _ _ _ => trivial) reached))

end CultureNodes.Scheduler
