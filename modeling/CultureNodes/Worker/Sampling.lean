import CultureNodes.Runners.Once
import CultureNodes.Scheduler.Deadline

/-!
Operations that are parked on a runner service. A worker that sent one holds nothing: the fencing tuple and
the time of the next status read are in a row, and any worker's sampling pass reads what is due and commits
what has ended. A pass is a sequence of separate commits and requests. Between them everything else goes
on: other passes, the deadlines, the run's work, callbacks, the runner services and changes of the
registry. A pass that takes no further step is one whose worker has died. Times are nanoseconds.
-/

namespace CultureNodes.Sampling

open CultureNodes.Store
open CultureNodes.Scheduler (Invocation InvocationState Completion Continuation)
open CultureNodes.Runners (ServiceState OperationStatus Result second)

def defaultRunnerSampleInterval : Nat := 5 * second

def defaultRunnerSampleBatch : Nat := 16

/-- A worker's `RunnerServiceOptions`, as far as sampling reads them; zero is not set. -/
structure RunnerServiceOptions where
  pollInterval : Nat := 0
  sampleBatch : Nat := 0
deriving DecidableEq, Repr

namespace RunnerServiceOptions

variable (options : RunnerServiceOptions)

def interval : Nat := if 0 < options.pollInterval then options.pollInterval else defaultRunnerSampleInterval

def batch : Nat := if 0 < options.sampleBatch then options.sampleBatch else defaultRunnerSampleBatch

/-- A runner's own request only makes the interval longer. -/
def runnerSampleInterval (pollAfterSeconds : Nat) : Nat :=
  if options.interval < pollAfterSeconds * second then pollAfterSeconds * second else options.interval

end RunnerServiceOptions

/-- The columns of a `runner_invocations` row that sampling reads and writes. The fencing tuple, the state
and the deadline timer are in the invocation with the same attempt. `hints` counts the callbacks that
brought a sample forward; nothing reads it. -/
structure RunnerPoll where
  attemptID : String
  runnerRef : String
  endpoint : String
  operationID : String
  pollAfterSeconds : Nat
  nextPollAt : Nat
  pollCount : Nat := 0
  lastSampledAt : Option Nat := none
  createdAt : Nat
  hints : Nat := 0
deriving DecidableEq, Repr

namespace RunnerPoll

variable (poll : RunnerPoll)

/-- The order in which due operations are claimed. -/
def before (other : RunnerPoll) : Prop :=
  poll.nextPollAt < other.nextPollAt ∨
    poll.nextPollAt = other.nextPollAt ∧ poll.attemptID ≤ other.attemptID

instance : DecidableRel before := fun poll other => by unfold before; exact inferInstance

/-- What a claim writes: claiming an operation is scheduling its next sample. -/
def claimed (now backoff : Nat) : RunnerPoll :=
  { poll with nextPollAt := now + backoff, pollCount := poll.pollCount + 1, lastSampledAt := some now }

def rescheduled (nextPollAt : Nat) : RunnerPoll := { poll with nextPollAt := nextPollAt }

def tightened (time : Nat) : RunnerPoll := { poll with nextPollAt := time, hints := poll.hints + 1 }

end RunnerPoll

/-- The row a claim returned. -/
structure RunnerOperation where
  inv : Invocation
  poll : RunnerPoll
deriving DecidableEq, Repr

/-- What a status document has to satisfy before anything is read out of it. -/
def validate (status : OperationStatus) : Bool :=
  status.operationID ≠ "" &&
    (status.state.terminal || status.state = .accepted || status.state = .running) &&
    match status.result with
    | none => !status.state.terminal
    | some result => status.state.terminal && result.state = status.state &&
        (result.operationID = "" || result.operationID = status.operationID)

/-- `ProtocolClient.Status`, of a service that can be reached. A refusal, a document that does not pass and
one about another operation tell nothing. -/
def status (service : ServiceState) (operationID : String) : Option OperationStatus :=
  if operationID = "" || !service.serving then none
  else
    match service.handleStatus operationID with
    | .error _ => none
    | .ok status => if validate status && status.operationID = operationID then some status else none

/-- Where a pass stands with the operation it has taken up. -/
inductive Phase where
  | between
  | reading (op : RunnerOperation)
  | rescheduling (op : RunnerOperation)
  | resuming (op : RunnerOperation) (result : Result)
  | completing (op : RunnerOperation) (result : Result)
  | closing (op : RunnerOperation) (state : InvocationState)
deriving DecidableEq, Repr

structure Pass where
  options : RunnerServiceOptions
  rest : List RunnerOperation
  phase : Phase := .between
deriving DecidableEq, Repr

/-- What the calls of one step of a pass answer: the operation it takes up next, whether the store and the
service answer at all, and what the completion comes to. -/
structure Answers where
  attempt : String := ""
  stored : Bool := true
  reached : Bool := true
  now : Nat := 0
  lease : Nat := 0
  complete : Completion := .committed
  retry : Option (Nat × Nat) := none
deriving DecidableEq, Repr

/-- A completion a pass has committed. -/
structure Commit where
  op : RunnerOperation
  result : Result
deriving DecidableEq, Repr

/-- The runtime and its runner services, by endpoint. The registry gives the endpoint of each registered
runner service. `commits` is the history of what passes have committed, and `requests` the attempts whose
status passes have asked for; nothing reads them. -/
structure State where
  base : Scheduler.State := {}
  polls : List RunnerPoll := []
  registry : String → Option String := fun _ => none
  services : String → ServiceState := fun _ => {}
  passes : List Pass := []
  commits : List Commit := []
  requests : List String := []

/-- What a worker that was answered 202 parks: the attempt names the operation too. -/
structure RunnerWait where
  attemptID : String
  claim : Claim
  runnerRef : String
  endpoint : String
  pollAfterSeconds : Nat
  deadline : Nat × Nat
deriving DecidableEq, Repr

inductive Action where
  | base (action : Scheduler.Action)
  | service (endpoint : String) (action : Runners.Action)
  | register (runnerRef : String) (endpoint : Option String)
  | dispatch (options : RunnerServiceOptions) (wait : RunnerWait) (now : Nat)
  | callback (attemptID operationID : String) (now : Nat)
  | claimDue (options : RunnerServiceOptions) (locked : List String) (now : Nat)
  | sample (pass : Nat) (answers : Answers)

/-- What a deployment fixes: the workflow's continuations, the times its node runs were created, its code
nodes, and the configuration of each runner service. -/
structure Deployment where
  declared : Nat → Option Continuation
  created : Nat → Nat
  isCode : Nat → Bool
  services : String → Runners.Config

namespace State

variable (s : State)

def waits (attemptID : String) : Bool :=
  s.base.operations.any fun op => op.attemptID = attemptID && op.waiting

def startRunnerWait (wait : RunnerWait) (now nextPollAt : Nat) : Option State :=
  if wait.claim.worker = "" || wait.attemptID = "" || wait.endpoint = "" then none
  else
    (s.base.startRunnerWait wait.attemptID wait.claim (some wait.deadline)).map fun parked =>
      { s with
        base := parked
        polls := s.polls ++
          [{ attemptID := wait.attemptID
             runnerRef := wait.runnerRef
             endpoint := wait.endpoint
             operationID := wait.attemptID
             pollAfterSeconds := wait.pollAfterSeconds
             nextPollAt := nextPollAt
             createdAt := now }] }

/-- The end of `dispatchRunnerService`; the first sample is one interval away. -/
def dispatchRunnerService (options : RunnerServiceOptions) (wait : RunnerWait) (now : Nat) : Option State :=
  s.startRunnerWait wait now (now + options.runnerSampleInterval wait.pollAfterSeconds)

/-- The waiting operations whose next sample is due and whose row nobody has locked, in order. -/
def due (locked : List String) (now : Nat) : List RunnerPoll :=
  (s.polls.filter fun poll => s.waits poll.attemptID && decide (poll.nextPollAt ≤ now) &&
    !locked.contains poll.attemptID).insertionSort RunnerPoll.before

def claimDueRunnerOperations (locked : List String) (now limit backoff : Nat) :
    State × List RunnerOperation :=
  let chosen := (s.due locked now).take limit
  let polls := Table.update s.polls (fun poll => chosen.any (·.attemptID = poll.attemptID))
    (·.claimed now backoff)
  ({ s with polls := polls },
    chosen.filterMap fun poll => (s.base.operations.find? (·.attemptID = poll.attemptID)).map
      (⟨·, poll.claimed now backoff⟩))

def rescheduleRunnerPoll (attemptID : String) (nextPollAt : Nat) : State :=
  { s with
    polls := Table.update s.polls (fun poll => poll.attemptID = attemptID && s.waits attemptID)
      (·.rescheduled nextPollAt) }

/-- A callback can bring a sample forward and nothing else. -/
def tightenRunnerPoll (attemptID : String) (time : Nat) : State :=
  { s with
    polls := Table.update s.polls
      (fun poll => poll.attemptID = attemptID && s.waits attemptID && decide (time < poll.nextPollAt))
      (·.tightened time) }

/-- The token of a callback names the attempt; its body has to name the attempt's operation. -/
def handleRunnerCallback (attemptID operationID : String) (now : Nat) : Option State :=
  match s.polls.find? (·.attemptID = attemptID) with
  | none => none
  | some poll => if poll.operationID = operationID then some (s.tightenRunnerPoll attemptID now) else none

def setTables (tables : WorkTables) : State := { s with base := s.base.setTables tables }

def commit (tables : WorkTables) (op : RunnerOperation) (result : Result) : State :=
  { s.setTables tables with commits := s.commits ++ [⟨op, result⟩] }

def request (op : RunnerOperation) : State := { s with requests := s.requests ++ [op.poll.attemptID] }

def put (index : Nat) (options : RunnerServiceOptions) (rest : List RunnerOperation) (phase : Phase) : State :=
  { s with passes := s.passes.set index ⟨options, rest, phase⟩ }

def sampleRunnerOperations (options : RunnerServiceOptions) (locked : List String) (now : Nat) : State :=
  let (claimed, due) := s.claimDueRunnerOperations locked now options.batch options.interval
  { claimed with passes := s.passes ++ [{ options := options, rest := due }] }

/-- The registry and not the row says whether a runner may still be asked; a runner that points elsewhere
by now is not. -/
def identityForSample (op : RunnerOperation) : Bool := s.registry op.poll.runnerRef = some op.poll.endpoint

/-- The next commit or request of a pass. A call that fails leaves the operation to a later pass. -/
def advance (index : Nat) (options : RunnerServiceOptions) (rest : List RunnerOperation)
    (answers : Answers) : Phase → Option State
  | .between =>
      match rest.find? (·.poll.attemptID = answers.attempt) with
      | none => none
      | some op =>
          let others := rest.filter (·.poll.attemptID ≠ answers.attempt)
          if s.identityForSample op then some (s.put index options others (.reading op))
          else some (s.put index options others (.rescheduling op))
  | .reading op =>
      if !answers.reached then some ((s.request op).put index options rest (.rescheduling op))
      else
        match status (s.services op.poll.endpoint) op.poll.operationID with
        | none => some ((s.request op).put index options rest (.rescheduling op))
        | some status =>
            -- A status that passes carries a result exactly when it is terminal.
            match status.result with
            | none => some ((s.request op).put index options rest (.rescheduling op))
            | some result => some ((s.request op).put index options rest (.resuming op result))
  | .rescheduling op =>
      if !answers.stored then some (s.put index options rest .between)
      else some ((s.rescheduleRunnerPoll op.poll.attemptID
        (answers.now + options.runnerSampleInterval op.poll.pollAfterSeconds)).put index options rest .between)
  | .resuming op result =>
      if !answers.stored then some (s.put index options rest .between)
      else
        match s.base.work.tables.resumeWaitingWork op.inv.claim answers.now answers.lease with
        | none => some (s.put index options rest (.closing op .superseded))
        | some resumed => some ((s.setTables resumed).put index options rest (.completing op result))
  | .completing op result =>
      match answers.complete with
      | .failed => some (s.put index options rest .between)
      | .refused => some (s.put index options rest (.closing op .superseded))
      | .committed =>
          match WorkSystem.completeWork s.base.work.tables op.inv.claim answers.retry with
          | none => some (s.put index options rest (.closing op .superseded))
          | some done => some ((s.commit done op result).put index options rest (.closing op .completed))
  | .closing op state =>
      if !answers.stored then some (s.put index options rest .between)
      else some ({ s with base := s.base.closeRunnerOperation op.inv.attemptID state }.put index options rest
        .between)

/-- The deadlines, the actors' waits and the run's work; the rows of runner operations are inserted by a
dispatch, and closed by a pass or a deadline. -/
def baseOnly : Scheduler.Action → Bool
  | .startRunnerWait _ _ _ | .closeRunnerOperation _ _ => false
  | _ => true

variable (d : Deployment)

def act : Action → Option State
  | .base action =>
      if baseOnly action then (s.base.act d.declared d.created d.isCode action).map ({ s with base := · })
      else none
  | .service endpoint action =>
      ((s.services endpoint).act (d.services endpoint) action).map fun service =>
        { s with services := Function.update s.services endpoint service }
  | .register runnerRef endpoint =>
      some { s with registry := Function.update s.registry runnerRef endpoint }
  | .dispatch options wait now => s.dispatchRunnerService options wait now
  | .callback attemptID operationID now => s.handleRunnerCallback attemptID operationID now
  | .claimDue options locked now => some (s.sampleRunnerOperations options locked now)
  | .sample pass answers =>
      match s.passes[pass]? with
      | none => none
      | some ⟨options, rest, phase⟩ => s.advance pass options rest answers phase

def step (s : State) (action : Action) (next : State) : Prop := s.act d action = some next

/-- The states of the runtime and its runner services, from empty tables and stores. -/
def Reachable (s : State) : Prop := Steps (step d) anyAction {} s

end State
end CultureNodes.Sampling
