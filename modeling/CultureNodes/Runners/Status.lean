import Mathlib.Data.List.Sort
import CultureNodes.Library.Json
import CultureNodes.Library.Keyed

/-!
The status a runner service holds for an operation: what is written when it is accepted, started and
ended, the results the service makes itself, and the store of the records. Times are nanoseconds.
-/

namespace CultureNodes.Runners

inductive State where
  | accepted
  | running
  | completed
  | failed
  | timedOut
  | cancelled
  | rejected
  | other (name : String)
deriving DecidableEq, Repr

namespace State

def terminal : State → Bool
  | .completed | .failed | .timedOut | .cancelled | .rejected => true
  | .accepted | .running | .other _ => false

def text : State → String
  | .accepted => "accepted"
  | .running => "running"
  | .completed => "completed"
  | .failed => "failed"
  | .timedOut => "timed_out"
  | .cancelled => "cancelled"
  | .rejected => "rejected"
  | .other name => name

end State

inductive ErrorKind where
  | retryableTransport
  | rateLimited
  | runnerUnavailable
  | rejectedInput
  | authOrPolicy
  | contractFailure
  | executionFailure
  | timeout
  | cancellation
  | other (name : String)
deriving DecidableEq, Repr

def ErrorKind.retryable : ErrorKind → Bool
  | .retryableTransport | .rateLimited | .runnerUnavailable => true
  | _ => false

structure Timing where
  startedAt : Nat
  finishedAt : Nat
  durationMs : Nat
deriving DecidableEq, Repr

/-- The digests read off the operation document. -/
structure Replay where
  runnerRevision : String
  imageDigest : String
  policyDigest : String
  inputDigest : Option String
deriving DecidableEq, Repr

structure Observation where
  measured : Bool
  complete : Bool
  note : String
deriving DecidableEq, Repr

structure Observations where
  exitStatus : Observation
  changedPaths : Observation
  logs : Observation
  resourceUsage : Observation
deriving DecidableEq, Repr

structure ResultError where
  kind : ErrorKind
  retryable : Bool
  message : String
deriving DecidableEq, Repr

structure Result where
  operationID : String
  state : State
  timing : Timing
  environment : Replay
  changesComplete : Bool
  observations : Observations
  error : Option ResultError
deriving DecidableEq, Repr

/-- What `Runner.Execute` fails with: a classified refusal, or anything else. -/
inductive RunnerError where
  | dispatch (kind : ErrorKind) (message : String)
  | unclassified (message : String)
deriving DecidableEq, Repr

structure Acceptance where
  operationID : String
  pollAfterSeconds : Nat
  statusRetentionSeconds : Nat
  supportsCancellation : Bool
  supportsCallback : Bool
deriving DecidableEq, Repr

structure Operation where
  operationID : String
  runnerRevision : String
  imageDigest : String
  policy : Json
  sourceDigest : Option String

structure Record where
  operationID : String
  state : State
  result : Option Result := none
  documentDigest : String
  acceptance : Acceptance
  replay : Replay
  acceptedAt : Nat
  startedAt : Option Nat := none
  finishedAt : Option Nat := none
  expiresAt : Option Nat := none
deriving DecidableEq, Repr

def second : Nat := 1000000000

def minStatusRetention : Nat := 3600 * second

/-- A configuration that `New` takes: it refuses a retention below the protocol's minimum. -/
structure Config where
  concurrency : Nat
  queueDepth : Nat
  pollAfter : Nat
  retention : Nat
  durable : Bool
  digestValue : Json → Except String String
  enough : minStatusRetention ≤ retention

def durationMs (started finished : Nat) : Nat := (finished - started) / 1000000

/-- A terminal result for an operation the service did not observe executing. -/
def unmeasuredResult (record : Record) (state : State) (kind : ErrorKind) (message note : String)
    (started finished : Nat) : Result :=
  let observation : Observation := { measured := false, complete := false, note := note }
  { operationID := record.operationID
    state := state
    timing := { startedAt := started, finishedAt := finished, durationMs := durationMs started finished }
    environment := record.replay
    changesComplete := false
    observations :=
      { exitStatus := observation, changedPaths := observation, logs := observation,
        resourceUsage := observation }
    error := some { kind := kind, retryable := kind.retryable, message := message } }

def stateForErrorKind : ErrorKind → State
  | .timeout => .timedOut
  | .cancellation => .cancelled
  | .rejectedInput | .authOrPolicy | .contractFailure => .rejected
  | _ => .failed

def refusalResult (record : Record) (error : RunnerError) (started finished : Nat) : State × Result :=
  match error with
  | .unclassified message =>
      (.failed, unmeasuredResult record .failed .runnerUnavailable
        ("the runner returned an unclassified error: " ++ message)
        ("the runner returned neither a result nor a classified dispatch error, so nothing about this " ++
          "operation's execution was observed") started finished)
  | .dispatch kind message =>
      (stateForErrorKind kind, unmeasuredResult record (stateForErrorKind kind) kind message
        "the runner refused or failed the operation after it had been accepted; no execution was observed"
        started finished)

def interruptedResult (record : Record) (now : Nat) : State × Result :=
  (.failed, unmeasuredResult record .failed .runnerUnavailable
    "the runner service restarted while this operation was in flight; its outcome was never observed"
    ("the runner service stopped holding this operation when its process ended, and finished_at is the " ++
      "instant that loss was recorded, not an instant anything was measured. Side effects of a partially " ++
      "executed operation may still have occurred") (record.startedAt.getD record.acceptedAt) now)

def replayOf (digestValue : Json → Except String String) (op : Operation) : Except String Replay :=
  match digestValue op.policy with
  | .error detail => .error detail
  | .ok policyDigest => .ok
      { runnerRevision := op.runnerRevision
        imageDigest := op.imageDigest
        policyDigest := policyDigest
        inputDigest := op.sourceDigest }

/-- Seconds are rounded down here; the source takes them from a double, which comes to the same for whole seconds
and below `2^24` of them. -/
def acceptanceFor (cfg : Config) (operationID : String) : Acceptance where
  operationID := operationID
  pollAfterSeconds := cfg.pollAfter / second
  statusRetentionSeconds := cfg.retention / second
  supportsCancellation := true
  supportsCallback := true

namespace Record

def terminal (record : Record) : Bool := record.state.terminal

/-- The retention of the record has elapsed. -/
def expired (record : Record) (now : Nat) : Bool := record.expiresAt.any fun expires => expires < now

/-- What `markRunning` writes. -/
def marked (record : Record) (started : Nat) : Record :=
  { record with state := .running, startedAt := some started }

/-- What `commit` writes; the retention is counted from here. -/
def committed (record : Record) (retention : Nat) (state : State) (result : Result) (finished : Nat) :
    Record :=
  { record with
    state := state
    result := some result
    finishedAt := some finished
    expiresAt := some (finished + retention) }

/-- What `finish` writes for what the runner has answered. -/
def finish (record : Record) (retention : Nat) (answer : Except RunnerError Result)
    (started finished : Nat) : Record :=
  match answer with
  | .error error =>
      let refusal := refusalResult record error started finished
      record.committed retention refusal.1 refusal.2 finished
  | .ok result =>
      if result.state.terminal then
        let named :=
          if result.operationID = "" then { result with operationID := record.operationID } else result
        record.committed retention result.state named finished
      else
        -- A runner that reports no terminal state has told the service nothing.
        record.committed retention .failed (unmeasuredResult record .failed .contractFailure
          ("the runner returned the non-terminal state " ++ result.state.text)
          ("the runner's result did not report a terminal state, so nothing it said about the execution " ++
            "could be recorded") started finished) finished

/-- What `recoverInterrupted` writes. -/
def interrupted (record : Record) (retention now : Nat) : Record :=
  let lost := interruptedResult record now
  record.committed retention lost.1 lost.2 now

end Record

/-- Why an operation was ended without being started. -/
inductive NeverRan where
  | cancelled
  | shutDown
deriving DecidableEq, Repr

namespace NeverRan

def message : NeverRan → String
  | .cancelled => "the operation was cancelled before it started"
  | .shutDown => "the runner service shut down before this operation started"

def note : NeverRan → String
  | .cancelled =>
      "the cancel arrived while the operation was still queued, so nothing about it was observed"
  | .shutDown =>
      "the operation was accepted and queued but never started, so nothing about it was observed"

end NeverRan

/-- What `finishNeverRan` writes. -/
def Record.finishNeverRan (record : Record) (retention : Nat) (reason : NeverRan) (now : Nat) : Record :=
  record.committed retention .cancelled (unmeasuredResult record .cancelled .cancellation reason.message
    reason.note record.acceptedAt now) now

/-- The records a store holds, one for each operation. -/
abbrev Records := List Record

namespace Records

def get (records : Records) (operationID : String) : Option Record :=
  Keyed.get Record.operationID records operationID

def put (records : Records) (record : Record) : Records := Keyed.put Record.operationID records record

def delete (records : Records) (operationID : String) : Records :=
  Keyed.delete Record.operationID records operationID

/-- The records in the order of their operations. -/
def list (records : Records) : List Record :=
  records.insertionSort fun first other => first.operationID ≤ other.operationID

end Records
end CultureNodes.Runners
