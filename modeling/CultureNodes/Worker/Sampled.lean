import CultureNodes.Store.Fencing
import CultureNodes.Worker.Sampling

/-!
What sampling passes commit. A completion is committed under the fencing tuple of the dispatch, so an item
is completed once whoever gets there first; and what is committed is what the runner service, asked about
that operation, answered with.
-/

namespace CultureNodes.Scheduler

open CultureNodes.Store

namespace State

def Done (s : State) (work : Nat) : Prop :=
  ∃ item ∈ s.work.tables.items, item.id = work ∧ item.state = .completed

/-- There is a row of the runner operation, and it was parked under the same claim. -/
def Known (s : State) (inv : Invocation) : Prop :=
  ∃ row ∈ s.operations, row.attemptID = inv.attemptID ∧ row.claim = inv.claim

/-- A firing that has come to fail a runner operation knows its row, and has failed it before it closes it. -/
def Rests (s : State) : Phase → Prop
  | .decide .runner inv | .resume .runner inv | .complete .runner inv => s.Known inv
  | .close .runner inv => s.Known inv ∧ s.Done inv.claim.work
  | _ => True

/-- The rows of runner operations, as deadlines and passes leave them. -/
structure Settled (s : State) : Prop where
  sound : WorkSystem.Sound s.work
  keyed : (s.operations.map Invocation.attemptID).Nodup
  closed : ∀ row ∈ s.operations, row.state = .completed → s.Done row.claim.work
  fires : ∀ firing ∈ s.firings, s.Rests firing.phase

/-- What lasts of one state in a later one. -/
structure Lasts (s next : State) : Prop where
  done : ∀ work, s.Done work → next.Done work
  known : ∀ inv, s.Known inv → next.Known inv

variable {s next : State} {isCode : Nat → Bool} {declared : Nat → Option Continuation} {created : Nat → Nat}

theorem Lasts.rests (lasts : s.Lasts next) {phase : Phase} (rests : s.Rests phase) : next.Rests phase := by
  cases phase with
  | decide record inv | resume record inv | complete record inv =>
      cases record with
      | actor => trivial
      | runner => exact lasts.known inv rests
  | close record inv =>
      cases record with
      | actor => trivial
      | runner => exact ⟨lasts.known inv rests.1, lasts.done _ rests.2⟩
  | load | rearm | mark | ended => trivial

theorem Lasts.refl : s.Lasts s := ⟨fun _ done => done, fun _ known => known⟩

theorem Lasts.trans {last : State} (early : s.Lasts next) (late : next.Lasts last) : s.Lasts last :=
  ⟨fun work done => late.done work (early.done work done), fun inv known => late.known inv (early.known inv known)⟩

/-- A statement on the run's work leaves the rows of runner operations alone. -/
theorem Settled.setWork (settled : s.Settled) {taken : WorkAction} {work : WorkSystem}
    (acted : s.work.act isCode taken = some work) :
    ({ s with work := work } : State).Settled ∧ s.Lasts { s with work := work } := by
  have lasts : s.Lasts { s with work := work } := by
    refine ⟨fun id done => ?_, fun _ known => known⟩
    obtain ⟨item, member, isItem, completed⟩ := done
    refine ⟨item, ?_, isItem, completed⟩
    exact WorkSystem.run_final settled.sound (.tail .refl trivial acted) member (Or.inl completed)
  refine ⟨⟨WorkSystem.step_preserves _ _ _ settled.sound trivial acted, settled.keyed, ?_, ?_⟩, lasts⟩
  · exact fun row member isClosed => lasts.done _ (settled.closed row member isClosed)
  · exact fun firing member => lasts.rests (settled.fires firing member)

theorem Settled.setFiring (settled : s.Settled) {index : Nat} {timer : Timer} {owner : String} {phase : Phase}
    (rests : s.Rests phase) : (s.put index timer owner phase).Settled := by
  refine ⟨settled.sound, settled.keyed, settled.closed, fun firing member => ?_⟩
  rcases List.mem_or_eq_of_mem_set member with old | rfl
  · exact settled.fires firing old
  · exact rests

/-- A row after a close is a row before it under the same attempt and the same claim, and it has the given
state or the one it had. -/
theorem mem_closed {records : List Invocation} {attemptID : String} {state : InvocationState} {row : Invocation}
    (member : row ∈ closeRecord records attemptID state) :
    ∃ old ∈ records, row.attemptID = old.attemptID ∧ row.claim = old.claim ∧
      (row.state = old.state ∨ row.state = state ∧ old.attemptID = attemptID) := by
  obtain ⟨old, oldMember, rfl⟩ := Table.mem_update.mp member
  refine ⟨old, oldMember, ?_⟩
  split
  · rename_i hit
    rw [Bool.and_eq_true, decide_eq_true_eq] at hit
    exact ⟨rfl, rfl, Or.inr ⟨rfl, hit.1⟩⟩
  · exact ⟨rfl, rfl, Or.inl rfl⟩

theorem Settled.closeRunnerOperation (settled : s.Settled) {inv : Invocation} {state : InvocationState}
    (known : s.Known inv) (done : state = .completed → s.Done inv.claim.work) :
    (s.closeRunnerOperation inv.attemptID state).Settled ∧
      s.Lasts (s.closeRunnerOperation inv.attemptID state) := by
  have keys : (closeRecord s.operations inv.attemptID state).map Invocation.attemptID =
      s.operations.map Invocation.attemptID := Table.update_keys fun _ => rfl
  have lasts : s.Lasts (s.closeRunnerOperation inv.attemptID state) := by
    refine ⟨fun _ done => done, fun other isKnown => ?_⟩
    obtain ⟨row, member, isAttempt, isClaim⟩ := isKnown
    have kept := Table.mem_update_of_mem (fun inv' => inv'.attemptID = inv.attemptID && inv'.waiting)
      (fun inv' => { inv' with state := state }) member
    refine ⟨_, kept, ?_, ?_⟩ <;> split
    · exact isAttempt
    · exact isAttempt
    · exact isClaim
    · exact isClaim
  refine ⟨⟨settled.sound, keys ▸ settled.keyed, ?_, fun firing member => lasts.rests (settled.fires firing member)⟩,
    lasts⟩
  intro row member completed
  obtain ⟨old, oldMember, _, isClaim, same | ⟨isState, isAttempt⟩⟩ := mem_closed member
  · rw [isClaim]
    exact settled.closed old oldMember (same ▸ completed)
  · obtain ⟨named, namedMember, isNamed, isTuple⟩ := known
    have sameRow : old = named := Table.eq_of_key settled.keyed oldMember namedMember
      (isAttempt.trans isNamed.symm)
    rw [isClaim, sameRow, isTuple]
    exact done (isState ▸ completed)

theorem startWait_parked (isCode : Nat → Bool) {records : List Invocation} {attemptID : String} {claim : Claim}
    {deadline : Option (Nat × Nat)} {parked : WorkTables} {inv : Invocation}
    (started : s.startWait records attemptID claim deadline = some (parked, inv)) :
    s.work.act isCode (.startAsyncWait claim deadline) = some { s.work with tables := parked } ∧
      inv.attemptID = attemptID ∧ inv.claim = claim ∧ inv.state = .waitingExternal ∧
      attemptID ∉ records.map Invocation.attemptID := by
  obtain ⟨park, fresh, nodeRun, rfl⟩ := startWait_eq_some started
  exact ⟨by simp only [WorkSystem.act, park, Option.map_some], rfl, rfl, rfl, fresh⟩

theorem Settled.startRunnerWait (settled : s.Settled) {attemptID : String} {claim : Claim}
    {deadline : Option (Nat × Nat)} (ran : s.startRunnerWait attemptID claim deadline = some next) :
    next.Settled ∧ s.Lasts next := by
  obtain ⟨⟨parked, op⟩, started, rfl⟩ := Option.map_eq_some_iff.mp ran
  obtain ⟨acted, isAttempt, _, waits, fresh⟩ := startWait_parked (fun _ => false) started
  obtain ⟨before, early⟩ := settled.setWork acted
  have late : ({ s with work := { s.work with tables := parked } } : State).Lasts
      { s.setTables parked with operations := s.operations ++ [op] } := by
    refine ⟨fun _ done => done, fun inv known => ?_⟩
    obtain ⟨row, member, facts⟩ := known
    exact ⟨row, List.mem_append_left _ member, facts⟩
  refine ⟨⟨before.sound, Table.keys_append_nodup settled.keyed (isAttempt ▸ fresh), ?_, ?_⟩, early.trans late⟩
  · intro row member completed
    rcases List.mem_append.mp member with old | new
    · exact late.done _ (before.closed row old completed)
    · rw [List.mem_singleton.mp new, waits] at completed
      contradiction
  · exact fun firing member => late.rests (before.fires firing member)

theorem Settled.startAsyncWait (settled : s.Settled) {attemptID : String} {claim : Claim}
    {deadline : Option (Nat × Nat)} (ran : s.startAsyncWait attemptID claim deadline = some next) :
    next.Settled ∧ s.Lasts next := by
  obtain ⟨⟨parked, inv⟩, started, rfl⟩ := Option.map_eq_some_iff.mp ran
  obtain ⟨before, lasts⟩ := settled.setWork (startWait_parked (fun _ => false) started).1
  exact ⟨⟨before.sound, before.keyed, before.closed, before.fires⟩, lasts.done, lasts.known⟩

theorem Lasts.put {index : Nat} {timer : Timer} {owner : String} {phase : Phase} :
    s.Lasts (s.put index timer owner phase) := ⟨fun _ done => done, fun _ known => known⟩

/-- A firing moves on without a write. -/
theorem Settled.moves (settled : s.Settled) {index : Nat} {timer : Timer} {owner : String} {phase : Phase}
    (moved : some (s.put index timer owner phase) = some next) (rests : s.Rests phase) :
    next.Settled ∧ s.Lasts next :=
  Option.some.inj moved ▸ ⟨settled.setFiring rests, .put⟩

theorem Settled.writes (settled : s.Settled) {index : Nat} {timer : Timer} {owner : String} {phase : Phase}
    {taken : WorkAction} {tables : WorkTables}
    (acted : s.work.act isCode taken = some { s.work with tables := tables })
    (moved : some ((s.setTables tables).put index timer owner phase) = some next)
    (rests : (s.setTables tables).Rests phase) :
    next.Settled ∧ s.Lasts next := by
  obtain ⟨before, lasts⟩ := settled.setWork acted
  rw [← Option.some.inj moved]
  exact ⟨Settled.setFiring before rests, lasts.trans .put⟩

theorem known_of_timer {timer : Nat} {inv : Invocation}
    (found : s.runnerOperationByDeadlineTimer timer = some inv) : s.Known inv :=
  ⟨inv, List.mem_of_find?_eq_some found, rfl, rfl⟩

theorem rests_decide {timer : Nat} {record : Record} {inv : Invocation}
    (found : s.waitForDeadlineTimer timer = some (record, inv)) : s.Rests (.decide record inv) := by
  unfold waitForDeadlineTimer at found
  split at found
  · obtain ⟨rfl, rfl⟩ := Prod.mk.inj (Option.some.inj found)
    trivial
  · obtain ⟨op, isOp, same⟩ := Option.map_eq_some_iff.mp found
    obtain ⟨rfl, rfl⟩ := Prod.mk.inj same
    exact known_of_timer isOp

theorem Settled.advance (settled : s.Settled) {firing : Nat} {timer : Timer} {owner : String} {answers : Answers}
    {phase : Phase} (rests : s.Rests phase)
    (ran : s.advance declared created firing timer owner answers phase = some next) :
    next.Settled ∧ s.Lasts next := by
  cases phase with
  | load =>
      simp only [State.advance] at ran
      split at ran
      · exact settled.moves ran trivial
      · split at ran
        · exact settled.moves ran trivial
        · rename_i record inv found
          split at ran
          · exact settled.moves ran (rests_decide found)
          · exact settled.moves ran trivial
  | decide record inv =>
      simp only [State.advance] at ran
      split at ran
      · exact settled.moves ran trivial
      · split at ran
        · exact settled.moves ran trivial
        · refine settled.moves ran ?_
          cases record with
          | actor => trivial
          | runner => exact rests
  | rearm inv fireAt =>
      simp only [State.advance] at ran
      split at ran
      · exact settled.moves ran trivial
      · split at ran
        · exact settled.moves ran trivial
        · rename_i armed rearmed
          have acted : s.work.act (fun _ => false) (.rearmDeadline answers.timer timer.nodeRun fireAt) =
              some { s.work with tables := armed } := by
            simp only [WorkSystem.act, rearmed, Option.map_some]
          exact settled.writes acted ran trivial
  | resume record inv =>
      simp only [State.advance] at ran
      split at ran
      · exact settled.moves ran trivial
      · split at ran
        · exact settled.moves ran trivial
        · rename_i resumed isResumed
          have acted : s.work.act (fun _ => false) (.resumeWaitingWork inv.claim answers.now answers.lease) =
              some { s.work with tables := resumed } := by
            simp only [WorkSystem.act, isResumed, Option.map_some]
          refine settled.writes acted ran ?_
          cases record with
          | actor => trivial
          | runner => exact rests
  | complete record inv =>
      simp only [State.advance] at ran
      split at ran
      · exact settled.moves ran trivial
      · exact settled.moves ran trivial
      · split at ran
        · exact settled.moves ran trivial
        · rename_i done isDone
          have acted : s.work.act (fun _ => false) (.completeWork inv.claim answers.retry) =
              some { s.work with tables := done } := by
            simp only [WorkSystem.act, isDone, Option.map_some]
          refine settled.writes acted ran ?_
          cases record with
          | actor => trivial
          | runner => exact ⟨rests, WorkSystem.completed_after_act acted⟩
  | close record inv =>
      simp only [State.advance] at ran
      split at ran
      · exact settled.moves ran trivial
      · rw [← Option.some.inj ran]
        cases record with
        | actor =>
            have before : (s.closeInvocation inv.attemptID .completed).Settled :=
              ⟨settled.sound, settled.keyed, settled.closed, settled.fires⟩
            exact ⟨before.setFiring trivial, ⟨fun _ done => done, fun _ known => known⟩⟩
        | runner =>
            obtain ⟨before, lasts⟩ := settled.closeRunnerOperation rests.1 fun _ => rests.2
            exact ⟨Settled.setFiring before trivial, lasts.trans .put⟩
  | mark =>
      simp only [State.advance] at ran
      split at ran
      · exact settled.moves ran trivial
      · split at ran
        · exact settled.moves ran trivial
        · rename_i fired isFired
          have acted : s.work.act (fun _ => false) (.fireTimer timer.id owner answers.now) =
              some { s.work with tables := fired } := by
            simp only [WorkSystem.act, isFired, Option.map_some]
          exact settled.writes acted ran trivial
  | ended => simp only [State.advance, reduceCtorEq] at ran

theorem Settled.claimDue (settled : s.Settled) {timer now : Nat} {owner : String}
    (ran : s.claimDue timer owner now = some next) : next.Settled ∧ s.Lasts next := by
  unfold State.claimDue at ran
  split at ran
  · contradiction
  · have acted : s.work.act (fun _ => false) (.claimTimer timer owner now) =
        some { s.work with tables := s.work.tables.claimTimer timer owner now } := rfl
    obtain ⟨before, lasts⟩ := settled.setWork acted
    rw [← Option.some.inj ran]
    refine ⟨⟨before.sound, before.keyed, before.closed, fun firing member => ?_⟩, lasts.done, lasts.known⟩
    rcases List.mem_append.mp member with old | new
    · exact before.fires firing old
    · rw [List.mem_singleton.mp new]
      trivial

/-- Deadlines close a runner operation as completed only once they have completed its item. -/
theorem Settled.act (settled : s.Settled) {action : Action} (only : Sampling.State.baseOnly action = true)
    (acted : s.act declared created isCode action = some next) : next.Settled ∧ s.Lasts next := by
  cases action with
  | work action =>
      simp only [State.act] at acted
      split at acted
      · obtain ⟨work, taken, rfl⟩ := Option.map_eq_some_iff.mp acted
        exact settled.setWork taken
      · contradiction
  | startAsyncWait attemptID claim deadline => exact settled.startAsyncWait acted
  | closeInvocation attemptID state =>
      simp only [State.act] at acted
      split at acted
      · contradiction
      · rw [← Option.some.inj acted]
        exact ⟨⟨settled.sound, settled.keyed, settled.closed, settled.fires⟩,
          ⟨fun _ done => done, fun _ known => known⟩⟩
  | claimDue timer owner now => exact settled.claimDue acted
  | fire firing answers =>
      simp only [State.act] at acted
      split at acted
      · contradiction
      · rename_i timer owner phase isFiring
        exact settled.advance (settled.fires _ (List.mem_of_getElem? isFiring)) acted
  | startRunnerWait | closeRunnerOperation => exact absurd only Bool.false_ne_true

end State
end CultureNodes.Scheduler

namespace CultureNodes.Sampling

open CultureNodes.Store
open CultureNodes.Runners (ServiceState OperationStatus Result Moment)

variable {d : Deployment}

theorem record_of_status {service : ServiceState} {operationID : String} {answer : OperationStatus} {result : Result}
    (read : status service operationID = some answer) (carries : answer.result = some result) :
    ∃ record, service.records.get operationID = some record ∧ record.terminal = true ∧
      record.result = some result ∧ result.state = record.state := by
  unfold status at read
  split at read
  · contradiction
  · unfold ServiceState.handleStatus at read
    split at read
    · contradiction
    · rename_i served handled
      split at handled
      · contradiction
      · rename_i record found
        split at handled
        · contradiction
        · split at read
          · rename_i passes
            rw [← Option.some.inj read, ← Except.ok.inj handled] at carries
            rw [← Except.ok.inj handled] at passes
            simp only at carries
            simp only [validate, carries, Bool.and_eq_true, decide_eq_true_eq] at passes
            exact ⟨record, found, passes.1.2.1.1, carries, passes.1.2.1.2⟩
          · contradiction

namespace State

def Learned (d : Deployment) (s : State) (op : RunnerOperation) (result : Result) : Prop :=
  ∃ service answer, ServiceState.Reachable (d.services op.poll.endpoint) service ∧
    Steps (ServiceState.step (d.services op.poll.endpoint)) anyAction service (s.services op.poll.endpoint) ∧
    status service op.poll.operationID = some answer ∧ answer.result = some result

/-- The operation is a row of the table, with the claim, the endpoint and the operation id it was parked with. -/
def Recorded (s : State) (op : RunnerOperation) : Prop :=
  s.base.Known op.inv ∧ ∃ poll ∈ s.polls, poll.attemptID = op.inv.attemptID ∧
    poll.endpoint = op.poll.endpoint ∧ poll.operationID = op.poll.operationID

/-- What a pass relies on where it stands. -/
def Stands (d : Deployment) (s : State) : Phase → Prop
  | .between => True
  | .reading op | .rescheduling op => s.Recorded op
  | .resuming op result | .completing op result => s.Recorded op ∧ s.Learned d op result
  | .closing op state => s.Recorded op ∧ (state = .completed → s.base.Done op.inv.claim.work)

structure Kept (d : Deployment) (s : State) : Prop where
  base : s.base.Settled
  services : ∀ endpoint, ServiceState.Reachable (d.services endpoint) (s.services endpoint)
  passes : ∀ pass ∈ s.passes, (∀ op ∈ pass.rest, s.Recorded op) ∧ s.Stands d pass.phase
  commits : ∀ commit ∈ s.commits, s.Recorded commit.op ∧ s.base.Done commit.op.inv.claim.work ∧
    s.Learned d commit.op commit.result
  once : (s.commits.map (·.op.inv.claim.work)).Nodup

/-- What lasts of one state in a later one. -/
structure Lasts (d : Deployment) (s next : State) : Prop where
  base : s.base.Lasts next.base
  polls : ∀ poll ∈ s.polls, ∃ after ∈ next.polls, after.attemptID = poll.attemptID ∧
    after.endpoint = poll.endpoint ∧ after.operationID = poll.operationID
  services : ∀ endpoint,
    Steps (ServiceState.step (d.services endpoint)) anyAction (s.services endpoint) (next.services endpoint)

variable {s next : State}

namespace Lasts

theorem recorded (lasts : s.Lasts d next) {op : RunnerOperation} (isRecorded : s.Recorded op) :
    next.Recorded op := by
  obtain ⟨known, poll, member, isAttempt, isEndpoint, isOperation⟩ := isRecorded
  obtain ⟨after, afterMember, sameAttempt, sameEndpoint, sameOperation⟩ := lasts.polls poll member
  exact ⟨lasts.base.known _ known, after, afterMember, sameAttempt.trans isAttempt,
    sameEndpoint.trans isEndpoint, sameOperation.trans isOperation⟩

theorem learned (lasts : s.Lasts d next) {op : RunnerOperation} {result : Result}
    (isLearned : s.Learned d op result) : next.Learned d op result := by
  obtain ⟨service, answer, reachable, since, read⟩ := isLearned
  exact ⟨service, answer, reachable, since.trans (lasts.services _), read⟩

theorem stands (lasts : s.Lasts d next) {phase : Phase} (standing : s.Stands d phase) : next.Stands d phase := by
  cases phase with
  | between => trivial
  | reading op | rescheduling op => exact lasts.recorded standing
  | resuming op result | completing op result =>
      exact ⟨lasts.recorded standing.1, lasts.learned standing.2⟩
  | closing op state => exact ⟨lasts.recorded standing.1, fun done => lasts.base.done _ (standing.2 done)⟩

end Lasts

/-- A step that leaves the passes and the history alone. -/
theorem Kept.later (kept : s.Kept d) (lasts : s.Lasts d next) (settled : next.base.Settled)
    (samePasses : next.passes = s.passes) (sameCommits : next.commits = s.commits) : next.Kept d where
  base := settled
  services := fun endpoint => (kept.services endpoint).trans (lasts.services endpoint)
  passes := by
    rw [samePasses]
    intro pass member
    obtain ⟨rest, standing⟩ := kept.passes pass member
    exact ⟨fun op isRest => lasts.recorded (rest op isRest), lasts.stands standing⟩
  commits := by
    rw [sameCommits]
    intro commit member
    obtain ⟨isRecorded, done, isLearned⟩ := kept.commits commit member
    exact ⟨lasts.recorded isRecorded, lasts.base.done _ done, lasts.learned isLearned⟩
  once := sameCommits ▸ kept.once

/-- A pass moves on without a write. -/
theorem Kept.put (kept : s.Kept d) {index : Nat} {options : RunnerServiceOptions} {rest : List RunnerOperation}
    {phase : Phase} (recorded : ∀ op ∈ rest, s.Recorded op) (standing : s.Stands d phase) :
    (s.put index options rest phase).Kept d := by
  refine ⟨kept.base, kept.services, fun pass member => ?_, kept.commits, kept.once⟩
  rcases List.mem_or_eq_of_mem_set member with old | rfl
  · exact kept.passes pass old
  · exact ⟨recorded, standing⟩

/-- What lasts when only the deadlines, the waits and the run's work have moved. -/
theorem Lasts.ofBase (lasts : s.base.Lasts next.base) (samePolls : next.polls = s.polls)
    (sameServices : next.services = s.services) : s.Lasts d next where
  base := lasts
  polls := fun poll member => ⟨poll, samePolls ▸ member, rfl, rfl, rfl⟩
  services := fun _ => sameServices ▸ .refl

theorem Lasts.ofPolls {guard : RunnerPoll → Bool} {write : RunnerPoll → RunnerPoll}
    (written : next.polls = Table.update s.polls guard write)
    (keeps : ∀ poll, (write poll).attemptID = poll.attemptID ∧ (write poll).endpoint = poll.endpoint ∧
      (write poll).operationID = poll.operationID)
    (sameBase : next.base = s.base) (sameServices : next.services = s.services) : s.Lasts d next where
  base := sameBase ▸ .refl
  polls := by
    intro poll member
    refine ⟨_, written ▸ Table.mem_update_of_mem guard write member, ?_⟩
    split
    · exact keeps poll
    · exact ⟨rfl, rfl, rfl⟩
  services := fun _ => sameServices ▸ .refl

theorem Kept.dispatchRunnerService (kept : s.Kept d) {options : RunnerServiceOptions} {wait : RunnerWait}
    {now : Nat} (ran : s.dispatchRunnerService options wait now = some next) : next.Kept d := by
  unfold State.dispatchRunnerService State.startRunnerWait at ran
  split at ran
  · contradiction
  · obtain ⟨parked, started, rfl⟩ := Option.map_eq_some_iff.mp ran
    obtain ⟨settled, lasts⟩ := kept.base.startRunnerWait started
    refine kept.later ⟨lasts, fun poll member => ?_, fun _ => .refl⟩ settled rfl rfl
    exact ⟨poll, List.mem_append_left _ member, rfl, rfl, rfl⟩

theorem Kept.handleRunnerCallback (kept : s.Kept d) {attemptID operationID : String} {now : Nat}
    (ran : s.handleRunnerCallback attemptID operationID now = some next) : next.Kept d := by
  unfold State.handleRunnerCallback at ran
  split at ran
  · contradiction
  · split at ran
    · rw [← Option.some.inj ran]
      exact kept.later (.ofPolls rfl (fun _ => ⟨rfl, rfl, rfl⟩) rfl rfl) kept.base rfl rfl
    · contradiction

theorem Kept.rescheduleRunnerPoll (kept : s.Kept d) (attemptID : String) (time : Nat) :
    (s.rescheduleRunnerPoll attemptID time).Kept d ∧ s.Lasts d (s.rescheduleRunnerPoll attemptID time) := by
  have lasts : s.Lasts d (s.rescheduleRunnerPoll attemptID time) :=
    .ofPolls rfl (fun _ => ⟨rfl, rfl, rfl⟩) rfl rfl
  exact ⟨kept.later lasts kept.base rfl rfl, lasts⟩

/-- A claim returns rows of the table. -/
theorem recorded_of_claimed {locked : List String} {now limit backoff : Nat} {op : RunnerOperation}
    (member : op ∈ (s.claimDueRunnerOperations locked now limit backoff).2) : s.Recorded op := by
  obtain ⟨poll, isChosen, isOp⟩ := List.mem_filterMap.mp member
  obtain ⟨row, found, rfl⟩ := Option.map_eq_some_iff.mp isOp
  have isPoll : poll ∈ s.polls := by
    have isDue := List.mem_of_mem_take isChosen
    rw [due, List.mem_insertionSort] at isDue
    exact (List.mem_filter.mp isDue).1
  have isAttempt := List.find?_some found
  rw [decide_eq_true_eq] at isAttempt
  exact ⟨⟨row, List.mem_of_find?_eq_some found, rfl, rfl⟩, poll, isPoll, isAttempt.symm, rfl, rfl⟩

theorem Kept.sampleRunnerOperations (kept : s.Kept d) (options : RunnerServiceOptions) (locked : List String)
    (now : Nat) : (s.sampleRunnerOperations options locked now).Kept d := by
  have lasts : s.Lasts d (s.sampleRunnerOperations options locked now) :=
    .ofPolls rfl (fun _ => ⟨rfl, rfl, rfl⟩) rfl rfl
  refine ⟨kept.base, kept.services, fun pass member => ?_, fun commit member => ?_, kept.once⟩
  · rcases List.mem_append.mp member with old | new
    · obtain ⟨rest, standing⟩ := kept.passes pass old
      exact ⟨fun op isRest => lasts.recorded (rest op isRest), lasts.stands standing⟩
    · rw [List.mem_singleton.mp new]
      exact ⟨fun op isRest => lasts.recorded (recorded_of_claimed isRest), trivial⟩
  · obtain ⟨isRecorded, done, isLearned⟩ := kept.commits commit member
    exact ⟨lasts.recorded isRecorded, done, lasts.learned isLearned⟩

theorem not_done_of_completeWork (settled : s.base.Settled) {claim : Claim} {retry : Option (Nat × Nat)}
    {tables : WorkTables} (completed : WorkSystem.completeWork s.base.work.tables claim retry = some tables) :
    ¬s.base.Done claim.work := by
  rintro ⟨done, doneMember, isDone, isCompleted⟩
  have acted : s.base.work.act (fun _ => false) (.completeWork claim retry) =
      some { s.base.work with tables := tables } := by
    simp only [WorkSystem.act, completed, Option.map_some]
  obtain ⟨item, member, isItem, _, live⟩ := WorkSystem.act_guarded rfl acted
  have same : item = done := Table.eq_of_key settled.sound.distinct member doneMember (isItem.trans isDone.symm)
  rw [same] at live
  simp [WorkItem.live, isCompleted] at live

theorem Kept.commit (kept : s.Kept d) {op : RunnerOperation} {result : Result} {retry : Option (Nat × Nat)}
    {tables : WorkTables} (isRecorded : s.Recorded op) (isLearned : s.Learned d op result)
    (completed : WorkSystem.completeWork s.base.work.tables op.inv.claim retry = some tables) :
    (s.commit tables op result).Kept d ∧ s.Lasts d (s.commit tables op result) ∧
      (s.commit tables op result).base.Done op.inv.claim.work := by
  have acted : s.base.work.act (fun _ => false) (.completeWork op.inv.claim retry) =
      some { s.base.work with tables := tables } := by
    simp only [WorkSystem.act, completed, Option.map_some]
  obtain ⟨settled, baseLasts⟩ := kept.base.setWork acted
  have lasts : s.Lasts d (s.commit tables op result) := .ofBase baseLasts rfl rfl
  have done : (s.commit tables op result).base.Done op.inv.claim.work := WorkSystem.completed_after_act acted
  have before : (s.setTables tables).Kept d := kept.later (.ofBase baseLasts rfl rfl) settled rfl rfl
  refine ⟨⟨before.base, before.services, before.passes, fun commit member => ?_, ?_⟩, lasts, done⟩
  · rcases List.mem_append.mp member with old | new
    · exact before.commits commit old
    · rw [List.mem_singleton.mp new]
      exact ⟨lasts.recorded isRecorded, done, lasts.learned isLearned⟩
  · refine Table.keys_append_nodup kept.once fun again => ?_
    obtain ⟨commit, member, sameWork⟩ := List.mem_map.mp again
    exact not_done_of_completeWork kept.base completed (sameWork ▸ (kept.commits commit member).2.1)

theorem Kept.advance (kept : s.Kept d) {index : Nat} {options : RunnerServiceOptions} {rest : List RunnerOperation}
    {answers : Answers} {phase : Phase} (recorded : ∀ op ∈ rest, s.Recorded op) (standing : s.Stands d phase)
    (ran : s.advance index options rest answers phase = some next) : next.Kept d := by
  cases phase with
  | between =>
      simp only [State.advance] at ran
      split at ran
      · contradiction
      · rename_i op found
        have isRecorded := recorded op (List.mem_of_find?_eq_some found)
        have others : ∀ other ∈ rest.filter (·.poll.attemptID ≠ answers.attempt), s.Recorded other :=
          fun other member => recorded other (List.mem_of_mem_filter member)
        split at ran
        · exact Option.some.inj ran ▸ kept.put others isRecorded
        · exact Option.some.inj ran ▸ kept.put others isRecorded
  | reading op =>
      have asked : (s.request op).Kept d := kept.later (.ofBase .refl rfl rfl) kept.base rfl rfl
      simp only [State.advance] at ran
      split at ran
      · exact Option.some.inj ran ▸ asked.put recorded standing
      · split at ran
        · exact Option.some.inj ran ▸ asked.put recorded standing
        · rename_i answer read
          split at ran
          · exact Option.some.inj ran ▸ asked.put recorded standing
          · rename_i result carries
            refine Option.some.inj ran ▸ asked.put recorded ⟨standing, ?_⟩
            exact ⟨_, answer, kept.services _, .refl, read, carries⟩
  | rescheduling op =>
      simp only [State.advance] at ran
      split at ran
      · exact Option.some.inj ran ▸ kept.put recorded trivial
      · obtain ⟨after, lasts⟩ := kept.rescheduleRunnerPoll op.poll.attemptID
          (answers.now + options.runnerSampleInterval op.poll.pollAfterSeconds)
        rw [← Option.some.inj ran]
        exact after.put (fun other member => lasts.recorded (recorded other member)) trivial
  | resuming op result =>
      simp only [State.advance] at ran
      split at ran
      · exact Option.some.inj ran ▸ kept.put recorded trivial
      · split at ran
        · exact Option.some.inj ran ▸ kept.put recorded ⟨standing.1, Scheduler.InvocationState.noConfusion⟩
        · rename_i resumed isResumed
          have acted : s.base.work.act (fun _ => false)
              (.resumeWaitingWork op.inv.claim answers.now answers.lease) =
              some { s.base.work with tables := resumed } := by
            simp only [WorkSystem.act, isResumed, Option.map_some]
          obtain ⟨settled, baseLasts⟩ := kept.base.setWork acted
          have lasts : s.Lasts d (s.setTables resumed) := .ofBase baseLasts rfl rfl
          rw [← Option.some.inj ran]
          exact Kept.put (kept.later lasts settled rfl rfl)
            (fun other member => lasts.recorded (recorded other member)) (lasts.stands standing)
  | completing op result =>
      simp only [State.advance] at ran
      split at ran
      · exact Option.some.inj ran ▸ kept.put recorded trivial
      · exact Option.some.inj ran ▸ kept.put recorded ⟨standing.1, Scheduler.InvocationState.noConfusion⟩
      · split at ran
        · exact Option.some.inj ran ▸ kept.put recorded ⟨standing.1, Scheduler.InvocationState.noConfusion⟩
        · rename_i tables completed
          obtain ⟨after, lasts, done⟩ := kept.commit standing.1 standing.2 completed
          rw [← Option.some.inj ran]
          exact after.put (fun other member => lasts.recorded (recorded other member))
            ⟨lasts.recorded standing.1, fun _ => done⟩
  | closing op state =>
      simp only [State.advance] at ran
      split at ran
      · exact Option.some.inj ran ▸ kept.put recorded trivial
      · obtain ⟨settled, baseLasts⟩ := kept.base.closeRunnerOperation standing.1.1 standing.2
        have lasts : s.Lasts d { s with base := s.base.closeRunnerOperation op.inv.attemptID state } :=
          .ofBase baseLasts rfl rfl
        rw [← Option.some.inj ran]
        exact Kept.put (kept.later lasts settled rfl rfl)
          (fun other member => lasts.recorded (recorded other member)) trivial

theorem Kept.act (kept : s.Kept d) {action : Action} (acted : s.act d action = some next) : next.Kept d := by
  cases action with
  | base action =>
      simp only [State.act] at acted
      split at acted
      · rename_i only
        obtain ⟨base, taken, rfl⟩ := Option.map_eq_some_iff.mp acted
        obtain ⟨settled, lasts⟩ := kept.base.act only taken
        exact kept.later (.ofBase lasts rfl rfl) settled rfl rfl
      · contradiction
  | service endpoint action =>
      obtain ⟨service, taken, rfl⟩ := Option.map_eq_some_iff.mp acted
      refine kept.later ⟨.refl, fun poll member => ⟨poll, member, rfl, rfl, rfl⟩, fun other => ?_⟩ kept.base rfl rfl
      by_cases same : other = endpoint
      · subst same
        simp only [Function.update_self]
        exact .tail .refl trivial taken
      · simp only [Function.update_of_ne same]
        exact .refl
  | register runnerRef endpoint =>
      exact Option.some.inj acted ▸ kept.later (.ofBase .refl rfl rfl) kept.base rfl rfl
  | dispatch options wait now => exact kept.dispatchRunnerService acted
  | callback attemptID operationID now => exact kept.handleRunnerCallback acted
  | claimDue options locked now => exact Option.some.inj acted ▸ kept.sampleRunnerOperations options locked now
  | sample pass answers =>
      simp only [State.act] at acted
      split at acted
      · contradiction
      · rename_i options rest phase isPass
        obtain ⟨recorded, standing⟩ := kept.passes _ (List.mem_of_getElem? isPass)
        exact kept.advance recorded standing acted

theorem Kept.initial : ({} : State).Kept d where
  base := ⟨WorkSystem.initial_invariant, List.nodup_nil, fun _ member => absurd member List.not_mem_nil,
    fun _ member => absurd member List.not_mem_nil⟩
  services := fun _ => .refl
  passes := fun _ member => absurd member List.not_mem_nil
  commits := fun _ member => absurd member List.not_mem_nil
  once := List.nodup_nil

theorem Reachable.kept (reached : Reachable d s) : s.Kept d :=
  reached.invariant (Kept d) .initial fun _ _ _ kept _ taken => kept.act taken

/-- Whatever passes, deadlines, callbacks and the run's work do, and wherever passes stop: an item is completed
by at most one pass, and by nobody else after it; what was committed is the result of the record that the
service at the operation's own endpoint held for it, which stays until it is removed; and a row is closed as
completed only when its item is completed. -/
theorem samples_commit_once (reached : Reachable d s) :
    (s.commits.map (·.op.inv.claim.work)).Nodup ∧
    (∀ row ∈ s.base.operations, row.state = .completed → s.base.Done row.claim.work) ∧
    ∀ commit ∈ s.commits,
      (∀ claim retry, claim.work = commit.op.inv.claim.work →
        WorkSystem.completeWork s.base.work.tables claim retry = none) ∧
      s.Recorded commit.op ∧
      ∃ service record, ServiceState.Reachable (d.services commit.op.poll.endpoint) service ∧
        service.records.get commit.op.poll.operationID = some record ∧ record.terminal = true ∧
        record.result = some commit.result ∧
        ((s.services commit.op.poll.endpoint).records.get commit.op.poll.operationID = some record ∨
          Moment.removed commit.op.poll.operationID ∈ (s.services commit.op.poll.endpoint).log) := by
  have kept := reached.kept
  refine ⟨kept.once, kept.base.closed, fun commit member => ?_⟩
  obtain ⟨isRecorded, done, service, answer, served, since, read, carries⟩ := kept.commits commit member
  refine ⟨fun claim retry sameWork => ?_, isRecorded, service, ?_⟩
  · cases completed : WorkSystem.completeWork s.base.work.tables claim retry with
    | none => rfl
    | some tables => exact absurd (sameWork ▸ done) (not_done_of_completeWork kept.base completed)
  · obtain ⟨record, found, terminal, isResult, _⟩ := record_of_status read carries
    obtain ⟨moments, log, stays⟩ := ServiceState.terminal_stays served since found terminal
    refine ⟨record, served, found, terminal, isResult, stays.symm.imp_right fun gone => ?_⟩
    rw [log]
    exact List.mem_append_right _ gone

def small : Deployment where
  declared := fun _ => none
  created := fun _ => 0
  isCode := fun _ => true
  services := fun _ => Runners.ServiceState.oneWorker

def smallWait : RunnerWait where
  attemptID := "op"
  claim := ⟨1, "worker", 1, 1⟩
  runnerRef := "runner"
  endpoint := "http://runner"
  pollAfterSeconds := 0
  deadline := (9, 3600 * Runners.second)

/-- The item is claimed, the runner accepts its operation, and the wait is parked. -/
def parkActions : List Action :=
  [.base (.work (.enqueue 1 7 0)), .base (.work (.claim 1 "worker" true 0 100)),
    .register "runner" (some "http://runner")] ++
  (ServiceState.startActions ++ ServiceState.acceptActions).map (.service "http://runner") ++
  [.dispatch {} smallWait 0]

/-- The runner comes to an end. -/
def finishActions : List Action :=
  (ServiceState.runActions ++ ServiceState.endActions).map (.service "http://runner")

/-- A pass claims the operation, and before it has come to anything a callback lets another claim it too; both
read the result, and the first to resume commits it. -/
def raceActions : List Action :=
  [.claimDue {} [] (5 * Runners.second), .callback "op" "op" (6 * Runners.second),
    .claimDue {} [] (6 * Runners.second)] ++
  [.sample 0 { attempt := "op" }, .sample 1 { attempt := "op" }, .sample 0 {}, .sample 1 {}] ++
  [.sample 1 {}, .sample 0 {}, .sample 1 {}, .sample 1 {}, .sample 0 {}]

theorem samples_commit_once_raced : ∃ s commit, Reachable small s ∧ s.commits = [commit] ∧
    s.base.operations.map (·.state) = [.completed] ∧ s.polls.map (·.pollCount) = [2] ∧
    ∃ record, record.result = some commit.result ∧
      (s.services "http://runner").records.get "op" = some record := by
  have ran : (Steps.ofList (fun s => act s small) (fun _ _ => true) {}
      (parkActions ++ finishActions ++ raceActions)).map (fun s =>
        (s.commits.map (fun commit => (commit.op.poll.operationID, commit.op.poll.endpoint)),
          s.base.operations.map (·.state), s.polls.map (·.pollCount),
          (s.services "http://runner").log.contains (.removed "op"))) =
      some ([("op", "http://runner")], [.completed], [2], false) := by
    decide +kernel
  obtain ⟨s, reached, seen⟩ := Steps.reaches_of_ofList (fun _ _ _ => trivial) ran
  simp only [Prod.mk.injEq] at seen
  obtain ⟨committed, states, counts, stays⟩ := seen
  obtain ⟨commit, isCommit, same⟩ := List.map_eq_singleton_iff.mp committed
  obtain ⟨isOperation, isEndpoint⟩ := Prod.mk.inj same
  obtain ⟨_, _, all⟩ := samples_commit_once reached
  obtain ⟨_, _, _, record, _, _, _, isResult, kept⟩ := all commit (isCommit ▸ List.mem_cons_self)
  rw [isOperation, isEndpoint] at kept
  refine ⟨s, commit, reached, isCommit, states, counts, record, isResult, kept.resolve_right fun gone => ?_⟩
  rw [List.contains_iff_mem.mpr gone] at stays
  contradiction

end State
end CultureNodes.Sampling
