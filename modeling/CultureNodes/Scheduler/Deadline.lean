import CultureNodes.Engine.Rows
import CultureNodes.Store.Lifecycle

/-!
The scheduler's deadline timers. A deadline bounds an asynchronous invocation: when its timer fires
while the invocation still waits, the attempt is failed, unless the node's continuation says to keep
the session going. Firing a timer is a sequence of separate commits, and everything else the store
does on the run's work interleaves between them. A timer's payload is copied and never read.
-/

namespace CultureNodes.Scheduler

open CultureNodes.Store

inductive InvocationState where
  | waitingExternal
  | completed
  | superseded
  | cancelled
deriving DecidableEq, Repr

/-- A row of `actor_invocations`, or of `runner_invocations`: the same columns as far as a deadline
reads them. -/
structure Invocation where
  attemptID : String
  nodeRun : Nat
  claim : Claim
  deadlineTimer : Option Nat
  state : InvocationState := .waitingExternal
deriving DecidableEq, Repr

def Invocation.waiting (inv : Invocation) : Bool := inv.state = .waitingExternal

structure ContinuationState where
  nodeState : String
  remainingSessions : Nat
  continuations : Nat
  sessions : Nat
  wallClock : Nat

/-- A node's `continue` block. A condition is undecidable where it has no value; a bound of zero is
not declared. -/
structure Continuation where
  conditions : List (ContinuationState → Option Bool)
  maxContinuations : Nat
  maxWallClock : Nat
  maxSessions : Nat
  onExhausted : String

structure ContinuationDecision where
  continues : Bool := false
  outcome : String := ""
deriving DecidableEq, Repr

def continuationNodeState (status : Engine.NodeRunState) : String :=
  if status.terminal then "complete" else "incomplete"

/-- The conditions hold one after another; `none` when one is undecidable. -/
def conditionsHold (state : ContinuationState) : List (ContinuationState → Option Bool) → Option Bool
  | [] => some true
  | condition :: rest =>
      match condition state with
      | none => none
      | some false => some false
      | some true => conditionsHold state rest

/-- `none` is `ErrContinuationUndecidable`. -/
def decideContinuation (declared : Continuation) (state : ContinuationState) :
    Option ContinuationDecision :=
  if (0 < declared.maxContinuations ∧ declared.maxContinuations ≤ state.continuations) ∨
      (0 < declared.maxWallClock ∧ declared.maxWallClock ≤ state.wallClock) ∨
      (0 < declared.maxSessions ∧ declared.maxSessions ≤ state.sessions) then
    some { outcome := declared.onExhausted }
  else (conditionsHold state declared.conditions).map ({ continues := · })

/-- Whether a due deadline is paused, and when it is to be looked at again. An undecidable condition
and a declaration without a bound on time do not pause. -/
def deadlineContinuationHolds (declared : Option Continuation) (created now sessions : Nat)
    (status : Engine.NodeRunState) : Option Nat :=
  match declared with
  | none => none
  | some continuation =>
      let state : ContinuationState :=
        { nodeState := continuationNodeState status
          remainingSessions := continuation.maxSessions - sessions
          continuations := sessions - 1
          sessions := sessions
          wallClock := now - created }
      match decideContinuation continuation state with
      | none => none
      | some decision =>
          if decision.continues ∧ 0 < continuation.maxWallClock then
            some (created + continuation.maxWallClock)
          else none

/-- Which of the two tables a deadline timer resolved to. -/
inductive Record where
  | actor
  | runner
deriving DecidableEq, Repr

/-- Where the firing of a claimed deadline timer stands. -/
inductive Phase where
  | load
  | decide (record : Record) (inv : Invocation)
  | rearm (inv : Invocation) (fireAt : Nat)
  | resume (record : Record) (inv : Invocation)
  | complete (record : Record) (inv : Invocation)
  | close (record : Record) (inv : Invocation)
  | mark
  | ended
deriving DecidableEq, Repr

structure Firing where
  timer : Timer
  owner : String
  phase : Phase := .load
deriving DecidableEq, Repr

inductive Completion where
  | committed
  | refused
  | failed
deriving DecidableEq, Repr

/-- What the calls of one step of a firing answer: `stored` is false where the call fails, `sessions`,
`status` and `now` are what the continuation is decided on, `timer` is the id a re-armed deadline
gets, and `retry` the work item a completion enqueues. -/
structure Answers where
  stored : Bool := true
  sessions : Nat := 0
  status : Engine.NodeRunState := .waitingExternal
  now : Nat := 0
  lease : Nat := 0
  timer : Nat := 0
  complete : Completion := .committed
  retry : Option (Nat × Nat) := none
deriving DecidableEq, Repr

/-- The work of one run, its asynchronous records, and the deadline timers that are being fired. -/
structure State where
  work : WorkSystem := .initial
  invocations : List Invocation := []
  operations : List Invocation := []
  firings : List Firing := []
deriving DecidableEq, Repr

inductive Action where
  | work (action : WorkAction)
  | startAsyncWait (attemptID : String) (claim : Claim) (deadline : Option (Nat × Nat))
  | startRunnerWait (attemptID : String) (claim : Claim) (deadline : Option (Nat × Nat))
  | closeInvocation (attemptID : String) (state : InvocationState)
  | closeRunnerOperation (attemptID : String) (state : InvocationState)
  | claimDue (timer : Nat) (owner : String) (now : Nat)
  | fire (firing : Nat) (answers : Answers)
deriving DecidableEq, Repr

namespace State

variable (s : State)

def invocationByDeadlineTimer (timer : Nat) : Option Invocation :=
  s.invocations.find? (·.deadlineTimer = some timer)

def runnerOperationByDeadlineTimer (timer : Nat) : Option Invocation :=
  s.operations.find? (·.deadlineTimer = some timer)

/-- The actor table is consulted first. -/
def waitForDeadlineTimer (timer : Nat) : Option (Record × Invocation) :=
  match s.invocationByDeadlineTimer timer with
  | some inv => some (.actor, inv)
  | none => (s.runnerOperationByDeadlineTimer timer).map (.runner, ·)

end State

/-- Retiring a record that is no longer waiting changes nothing. -/
def closeRecord (records : List Invocation) (attemptID : String) (state : InvocationState) :
    List Invocation :=
  Table.update records (fun inv => inv.attemptID = attemptID && inv.waiting)
    (fun inv => { inv with state := state })

namespace State

variable (s : State)

def setTables (tables : WorkTables) : State := { s with work := { s.work with tables := tables } }

def closeInvocation (attemptID : String) (state : InvocationState) : State :=
  { s with invocations := closeRecord s.invocations attemptID state }

def closeRunnerOperation (attemptID : String) (state : InvocationState) : State :=
  { s with operations := closeRecord s.operations attemptID state }

def closeWait (record : Record) (attemptID : String) : State :=
  match record with
  | .actor => s.closeInvocation attemptID .completed
  | .runner => s.closeRunnerOperation attemptID .completed

/-- The row a wait inserts, when the parking goes through and the attempt has no row yet. -/
def startWait (records : List Invocation) (attemptID : String) (claim : Claim)
    (deadline : Option (Nat × Nat)) : Option (WorkTables × Invocation) := do
  let parked ← s.work.tables.startAsyncWait claim deadline
  let nodeRun ← s.work.tables.nodeRunOf claim.work
  if records.any (·.attemptID = attemptID) then none
  else some (parked, { attemptID, nodeRun, claim, deadlineTimer := deadline.map Prod.fst })

variable {s} in
theorem startWait_eq_some {records : List Invocation} {attemptID : String} {claim : Claim}
    {deadline : Option (Nat × Nat)} {parked : WorkTables} {inv : Invocation}
    (started : s.startWait records attemptID claim deadline = some (parked, inv)) :
    s.work.tables.startAsyncWait claim deadline = some parked ∧
      attemptID ∉ records.map Invocation.attemptID ∧
      ∃ nodeRun, inv = { attemptID, nodeRun, claim, deadlineTimer := deadline.map Prod.fst } := by
  simp only [startWait, Option.bind_eq_bind, Option.bind_eq_some_iff] at started
  obtain ⟨tables, park, nodeRun, _, started⟩ := started
  split at started
  · contradiction
  rename_i fresh
  obtain ⟨rfl, rfl⟩ := Prod.mk.inj (Option.some.inj started)
  refine ⟨park, fun taken => fresh ?_, nodeRun, rfl⟩
  obtain ⟨row, member, isAttempt⟩ := List.mem_map.mp taken
  exact List.any_eq_true.mpr ⟨row, member, decide_eq_true isAttempt⟩

def startAsyncWait (attemptID : String) (claim : Claim) (deadline : Option (Nat × Nat)) :
    Option State :=
  (s.startWait s.invocations attemptID claim deadline).map fun (parked, inv) =>
    { s.setTables parked with invocations := s.invocations ++ [inv] }

def startRunnerWait (attemptID : String) (claim : Claim) (deadline : Option (Nat × Nat)) :
    Option State :=
  (s.startWait s.operations attemptID claim deadline).map fun (parked, op) =>
    { s.setTables parked with operations := s.operations ++ [op] }

def claimDue (timer : Nat) (owner : String) (now : Nat) : Option State :=
  match s.work.tables.timers.find? (fun row => row.id = timer && row.kind = .deadline &&
      row.status = .pending && decide (row.fireAt ≤ now)) with
  | none => none
  | some row =>
      some { s.setTables (s.work.tables.claimTimer timer owner now) with
        firings := s.firings ++ [⟨{ row with claimedBy := some owner }, owner, .load⟩] }

def put (firing : Nat) (timer : Timer) (owner : String) (phase : Phase) : State :=
  { s with firings := s.firings.set firing ⟨timer, owner, phase⟩ }

variable (declared : Nat → Option Continuation) (created : Nat → Nat)

/-- The next commit of a firing. A call that fails ends it, and leaves the timer pending for a later
claim; finding nothing to fail marks the timer fired all the same. -/
def advance (firing : Nat) (timer : Timer) (owner : String) (answers : Answers) :
    Phase → Option State
  | .load =>
      if !answers.stored then some (s.put firing timer owner .ended)
      else
        match s.waitForDeadlineTimer timer.id with
        | none => some (s.put firing timer owner .mark)
        | some (record, inv) =>
            if inv.waiting then some (s.put firing timer owner (.decide record inv))
            else some (s.put firing timer owner .mark)
  | .decide record inv =>
      if !answers.stored then some (s.put firing timer owner .ended)
      else
        match deadlineContinuationHolds (declared inv.nodeRun) (created inv.nodeRun) answers.now
            answers.sessions answers.status with
        | some nextCheck => some (s.put firing timer owner (.rearm inv nextCheck))
        | none => some (s.put firing timer owner (.resume record inv))
  | .rearm _ fireAt =>
      if !answers.stored then some (s.put firing timer owner .ended)
      else
        match s.work.tables.rearmDeadline answers.timer timer.nodeRun fireAt with
        | none => some (s.put firing timer owner .ended)
        | some armed => some ((s.setTables armed).put firing timer owner .mark)
  | .resume record inv =>
      if !answers.stored then some (s.put firing timer owner .ended)
      else
        match s.work.tables.resumeWaitingWork inv.claim answers.now answers.lease with
        | none => some (s.put firing timer owner .mark)
        | some resumed => some ((s.setTables resumed).put firing timer owner (.complete record inv))
  | .complete record inv =>
      match answers.complete with
      | .failed => some (s.put firing timer owner .ended)
      | .refused => some (s.put firing timer owner .mark)
      | .committed =>
          match WorkSystem.completeWork s.work.tables inv.claim answers.retry with
          | none => some (s.put firing timer owner .mark)
          | some done => some ((s.setTables done).put firing timer owner (.close record inv))
  | .close record inv =>
      if !answers.stored then some (s.put firing timer owner .ended)
      else some ((s.closeWait record inv.attemptID).put firing timer owner .mark)
  | .mark =>
      if !answers.stored then some (s.put firing timer owner .ended)
      else
        match s.work.tables.fireTimer timer.id owner answers.now with
        | none => some (s.put firing timer owner .ended)
        | some fired => some ((s.setTables fired).put firing timer owner .ended)
  | .ended => none

/-- The statements on the run's work that are no part of a wait's start or a deadline's firing. -/
def workOnly (action : WorkAction) : Bool :=
  match action with
  | .startAsyncWait _ _ | .rearmDeadline _ _ _ => false
  | .fireTimer id _ _ => !s.work.tables.timers.any (fun timer => timer.id = id && timer.kind = .deadline)
  | _ => true

variable (isCode : Nat → Bool)

def act : Action → Option State
  | .work action =>
      if s.workOnly action then (s.work.act isCode action).map ({ s with work := · }) else none
  | .startAsyncWait attemptID claim deadline => s.startAsyncWait attemptID claim deadline
  | .startRunnerWait attemptID claim deadline => s.startRunnerWait attemptID claim deadline
  | .closeInvocation attemptID state =>
      if state = .waitingExternal then none else some (s.closeInvocation attemptID state)
  | .closeRunnerOperation attemptID state =>
      if state = .waitingExternal then none else some (s.closeRunnerOperation attemptID state)
  | .claimDue timer owner now => s.claimDue timer owner now
  | .fire firing answers =>
      match s.firings[firing]? with
      | none => none
      | some ⟨timer, owner, phase⟩ => s.advance declared created firing timer owner answers phase

def step (s : State) (action : Action) (next : State) : Prop :=
  s.act declared created isCode action = some next

end State
end CultureNodes.Scheduler
