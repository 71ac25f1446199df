import Mathlib.Logic.Function.Basic
import CultureNodes.Library.Transition
import CultureNodes.Runners.Status

/-!
The runner service, statement by statement: requests, workers, the sweep, the shutdown and the recovery
of one process after another over a store whose calls do not fail. Only `accept`, the flag of a cancel and
the bookkeeping around an execution take the service's lock; the statements that read and write a record
interleave in every way. The clock may be set to anything, and a runner may answer anything.
-/

namespace CultureNodes.Runners

structure CallbackTarget where
  url : String
  token : String
deriving DecidableEq, Repr

/-- What a request is refused with. -/
structure Refusal where
  code : Nat
  message : String
deriving DecidableEq, Repr

structure OperationStatus where
  operationID : String
  state : State
  result : Option Result
deriving DecidableEq, Repr

/-- Who takes operations off the queue: a worker of the pool, or `Close` once they have all left. -/
inductive Place where
  | pool (index : Nat)
  | closer
deriving DecidableEq, Repr

/-- Where `accept` stands with the lock it holds. -/
inductive Admission where
  | storing (op : Operation) (callback : Option CallbackTarget) (record : Record)
  | queueing (op : Operation) (callback : Option CallbackTarget) (record : Record)

/-- The end of an operation: the read of `finishNeverRan`, then the write of `commit` and what it clears
under the lock. -/
inductive Ending where
  | read (operationID : String) (reason : NeverRan)
  | write (record : Record) (reason : Option NeverRan)
  | clear (operationID : String) (state : State)

inductive Worker where
  | idle
  | exited
  | taken (op : Operation)
  | starting (op : Operation)
  | marking (op : Operation) (started : Nat) (read : Option Record)
  | ready (op : Operation) (started : Nat)
  | executing (op : Operation) (started : Nat)
  | returned (op : Operation) (started finished : Nat) (answer : Except RunnerError Result)
  | ending (ending : Ending) (inflight : Bool)
  | releasing (operationID : String)

inductive Sweeper where
  | idle
  | listing (now : Nat)
  | deleting (now : Nat) (remaining : List Record)
  | exited

inductive Closing where
  | serving
  | stopping
  | waiting
  | draining
  | ended
deriving DecidableEq, Repr

inductive Mode where
  | down
  | recovering (now : Nat) (remaining : List Record)
  | up

/-- The record a cancel handler has read; `since` is how long the history was then, which nothing reads. -/
structure CancelRead where
  record : Record
  since : Nat

/-- What a process holds in memory. -/
structure Memory where
  closed : Bool := false
  stopped : Bool := false
  closing : Closing := .serving
  queue : List Operation := []
  inflight : List String := []
  cancelled : List String := []
  callbacks : List (String × CallbackTarget) := []
  admission : Option Admission := none
  cancels : Nat → Option CancelRead := fun _ => none
  nextCancel : Nat := 0
  workers : Place → Worker := fun _ => .idle
  sweeper : Sweeper := .idle

/-- What has happened, in its order. -/
inductive Moment where
  | created (operationID : String)
  | removed (operationID : String)
  | executed (operationID : String)
  | cancelReceived (operationID : String)
  | stopRequested (operationID : String)
  | cancelledUnstarted (operationID : String)
  | notified (target : CallbackTarget) (operationID : String) (state : State)
  | answered (operationID : String) (answer : Except Refusal Acceptance)
deriving DecidableEq

/-- `latest` is the latest reading of the clock and `log` the history of the service; nothing reads
them. -/
structure ServiceState where
  records : Records := []
  clock : Nat := 0
  latest : Nat := 0
  mode : Mode := .down
  memory : Memory := {}
  log : List Moment := []

inductive Action where
  | execute (op : Operation) (digest : String) (callback : Option CallbackTarget)
  | enqueue
  | readCancel (operationID : String)
  | cancel (handler : Nat)
  | take (place : Place)
  | work (place : Place)
  | answer (index : Nat) (answer : Except RunnerError Result)
  | exit (index : Nat)
  | sweep
  | exitSweeper
  | close
  | crash
  | restart
  | recover
  | clock (now : Nat)

namespace ServiceState

variable (cfg : Config) (s : ServiceState)

def note (moments : List Moment) : ServiceState := { s with log := s.log ++ moments }

def setWorker (place : Place) (worker : Worker) : ServiceState :=
  { s with memory := { s.memory with workers := Function.update s.memory.workers place worker } }

/-- The process serves requests. -/
def serving : Bool :=
  match s.mode with
  | .up => true
  | .down | .recovering _ _ => false

/-- The service's lock can be taken. -/
def unlocked : Bool := s.serving && s.memory.admission.isNone

def answered (operationID : String) (answer : Except Refusal Acceptance) : ServiceState :=
  s.note [.answered operationID answer]

def remove (operationID : String) : ServiceState :=
  { s with records := s.records.delete operationID }.note
    (if (s.records.get operationID).isSome then [.removed operationID] else [])

def newRecord (op : Operation) (digest : String) (replay : Replay) : Record where
  operationID := op.operationID
  state := .accepted
  documentDigest := digest
  acceptance := acceptanceFor cfg op.operationID
  replay := replay
  acceptedAt := s.clock

/-- `accept` up to its write: the lock is taken and the store is read. -/
def accept (op : Operation) (digest : String) (callback : Option CallbackTarget) :
    Option ServiceState :=
  if s.unlocked then
    if s.memory.closed then
      some (s.answered op.operationID (.error ⟨503, "this runner service is shutting down"⟩))
    else
      match s.records.get op.operationID with
      | some existing =>
          if existing.documentDigest = digest then
            some (s.answered op.operationID (.ok existing.acceptance))
          else
            some (s.answered op.operationID (.error ⟨409, "operation " ++ op.operationID ++
              " was already accepted with a different document; an idempotency key names one piece of " ++
              "work, not one name for several"⟩))
      | none =>
          match replayOf cfg.digestValue op with
          | .error detail => some (s.answered op.operationID
              (.error ⟨400, "the operation's policy could not be digested: " ++ detail⟩))
          | .ok replay => some { s with memory := { s.memory with
              admission := some (.storing op callback (s.newRecord cfg op digest replay)) } }
  else none

/-- The rest of `accept`: the write, then the place in the queue. -/
def enqueue : Option ServiceState :=
  match s.memory.admission with
  | none => none
  | some (.storing op callback record) =>
      some ({ s with
        records := s.records.put record
        memory := { s.memory with admission := some (.queueing op callback record) } }.note
          [.created op.operationID])
  | some (.queueing op callback record) =>
      if s.memory.queue.length < cfg.queueDepth then
        some ({ s with memory := { s.memory with
          admission := none
          queue := s.memory.queue ++ [op]
          callbacks := match callback with
            | none => s.memory.callbacks
            | some target => Keyed.put Prod.fst s.memory.callbacks (op.operationID, target) } }.answered
              op.operationID (.ok record.acceptance))
      else
        -- Nothing was started, so the record is taken back.
        some (({ s with memory := { s.memory with admission := none } }.remove op.operationID).answered
          op.operationID (.error ⟨429, "this runner's work queue is full; retry after 5s"⟩))

def handleStatus (operationID : String) : Except Refusal OperationStatus :=
  match s.records.get operationID with
  | none => .error ⟨404, "this runner holds no status for operation " ++ operationID⟩
  | some record =>
      if record.expired s.clock then
        .error ⟨404, "this runner holds no status for operation " ++ operationID⟩
      else .ok ⟨record.operationID, record.state, record.result⟩

/-- `handleCancel` reads the record, without the lock. -/
def readCancel (operationID : String) : Option ServiceState :=
  if s.serving then
    match s.records.get operationID with
    | none => some s
    | some record =>
        if record.expired s.clock then some s
        else some ({ s with memory := { s.memory with
          cancels := Function.update s.memory.cancels s.memory.nextCancel (some ⟨record, s.log.length⟩)
          nextCancel := s.memory.nextCancel + 1 } }.note [.cancelReceived operationID])
  else none

/-- `handleCancel` sets its flag, under the lock; what is in flight is told to stop. -/
def cancel (handler : Nat) : Option ServiceState :=
  if s.unlocked then
    (s.memory.cancels handler).map fun read =>
      let memory := { s.memory with cancels := Function.update s.memory.cancels handler none }
      if read.record.terminal then { s with memory := memory }
      else
        { s with memory := { memory with
          cancelled := s.memory.cancelled.insert read.record.operationID } }.note
            (if s.memory.inflight.contains read.record.operationID then
              [.stopRequested read.record.operationID] else [])
  else none

/-- An operation leaves the queue: to a worker, or to `Close`, which ends it. -/
def take (place : Place) : Option ServiceState :=
  match s.memory.workers place, s.memory.queue with
  | .idle, op :: rest =>
      let taken := { s with memory := { s.memory with queue := rest } }
      match place with
      | .pool index =>
          if s.serving && decide (index < cfg.concurrency) then
            some (taken.setWorker place (.taken op))
          else none
      | .closer =>
          if s.memory.closing = .draining then
            some (taken.setWorker place (.ending (.read op.operationID .shutDown) false))
          else none
  | _, _ => none

def through (place : Place) (operationID : String) (inflight : Bool) : ServiceState :=
  s.setWorker place (if inflight then .releasing operationID else .idle)

/-- One statement of `finishNeverRan` or `commit`. -/
def stepEnding (place : Place) (inflight : Bool) : Ending → Option ServiceState
  | .read operationID reason =>
      match s.records.get operationID with
      | none => some (s.through place operationID inflight)
      | some record => some (s.setWorker place
          (.ending (.write (record.finishNeverRan cfg.retention reason s.clock) (some reason)) inflight))
  | .write record reason =>
      some (({ s with records := s.records.put record }.note
        (if reason = some NeverRan.cancelled then [.cancelledUnstarted record.operationID] else [])).setWorker
          place (.ending (.clear record.operationID record.state) inflight))
  | .clear operationID state =>
      if s.unlocked then
        some (({ s with memory := { s.memory with
          callbacks := Keyed.delete Prod.fst s.memory.callbacks operationID
          cancelled := s.memory.cancelled.erase operationID } }.note
            (match Keyed.get Prod.fst s.memory.callbacks operationID with
              | none => []
              | some (_, target) => [.notified target operationID state])).through
                place operationID inflight)
      else none

/-- One statement of `execute`. -/
def stepWorker (place : Place) : Worker → Option ServiceState
  | .taken op =>
      if s.unlocked then
        if s.memory.cancelled.contains op.operationID then
          some (s.setWorker place (.ending (.read op.operationID .cancelled) false))
        else
          some ({ s with memory := { s.memory with
            inflight := s.memory.inflight.insert op.operationID } }.setWorker place (.starting op))
      else none
  | .starting op =>
      some (s.setWorker place (.marking op s.clock (s.records.get op.operationID)))
  | .marking op started read =>
      match read with
      | none => some (s.setWorker place (.ready op started))
      | some record =>
          some ({ s with records := s.records.put (record.marked started) }.setWorker place
            (.ready op started))
  | .ready op started =>
      some ((s.note [.executed op.operationID]).setWorker place (.executing op started))
  | .returned op started finished answer =>
      match s.records.get op.operationID with
      | none => some (s.setWorker place (.releasing op.operationID))
      | some record => some (s.setWorker place
          (.ending (.write (record.finish cfg.retention answer started finished) none) true))
  | .ending ending inflight => s.stepEnding cfg place inflight ending
  | .releasing operationID =>
      if s.unlocked then
        some ({ s with memory := { s.memory with
          inflight := s.memory.inflight.erase operationID } }.setWorker place .idle)
      else none
  | .idle | .exited | .executing _ _ => none

/-- `Runner.Execute` returns. -/
def runnerAnswers (index : Nat) (answer : Except RunnerError Result) : Option ServiceState :=
  match s.memory.workers (.pool index) with
  | .executing op started => some (s.setWorker (.pool index) (.returned op started s.clock answer))
  | _ => none

def exitWorker (index : Nat) : Option ServiceState :=
  match s.memory.workers (.pool index) with
  | .idle => if s.memory.stopped then some (s.setWorker (.pool index) .exited) else none
  | _ => none

def setSweeper (sweeper : Sweeper) : ServiceState :=
  { s with memory := { s.memory with sweeper := sweeper } }

def sweep : Option ServiceState :=
  if s.serving then
    match s.memory.sweeper with
    | .idle => some (s.setSweeper (.listing s.clock))
    | .listing now => some (s.setSweeper (.deleting now s.records.list))
    | .deleting _ [] => some (s.setSweeper .idle)
    | .deleting now (record :: rest) =>
        if record.expired now then
          some ((s.remove record.operationID).setSweeper (.deleting now rest))
        else some (s.setSweeper (.deleting now rest))
    | .exited => none
  else none

def exitSweeper : Option ServiceState :=
  match s.memory.sweeper with
  | .idle => if s.memory.stopped then some (s.setSweeper .exited) else none
  | _ => none

def exited : Worker → Bool
  | .exited => true
  | _ => false

/-- The pool and the sweeper have left. -/
def drained : Bool :=
  (match s.memory.sweeper with
    | .exited => true
    | _ => false) &&
  (List.range cfg.concurrency).all fun index => exited (s.memory.workers (.pool index))

def setClosing (closing : Closing) : ServiceState :=
  { s with memory := { s.memory with closing := closing } }

/-- One statement of `Close`; the queue is drained by taking from it. -/
def close : Option ServiceState :=
  match s.memory.closing with
  | .serving =>
      if s.unlocked then
        some ({ s with memory := { s.memory with closed := true } }.setClosing .stopping)
      else none
  | .stopping => some ({ s with memory := { s.memory with stopped := true } }.setClosing .waiting)
  | .waiting => if s.drained cfg then some (s.setClosing .draining) else none
  | .draining =>
      match s.memory.workers .closer, s.memory.queue with
      | .idle, [] => some (s.setClosing .ended)
      | _, _ => none
  | .ended => none

/-- The process is gone; a store that is not durable forgets its records. -/
def crash : ServiceState :=
  { s with
    mode := .down
    memory := {}
    records := if cfg.durable then s.records else []
    log := s.log ++ if cfg.durable then [] else s.records.map fun record => .removed record.operationID }

def restart : Option ServiceState :=
  match s.mode with
  | .down => some { s with mode := .recovering s.clock s.records.list }
  | .recovering _ _ | .up => none

/-- One record of `recoverInterrupted`; the pool starts when there is none left. -/
def recover : Option ServiceState :=
  match s.mode with
  | .recovering _ [] => some { s with mode := .up }
  | .recovering now (record :: rest) =>
      some { s with
        mode := .recovering now rest
        records := if record.terminal then s.records
          else s.records.put (record.interrupted cfg.retention now) }
  | .down | .up => none

def act : Action → Option ServiceState
  | .execute op digest callback => s.accept cfg op digest callback
  | .enqueue => s.enqueue cfg
  | .readCancel operationID => s.readCancel operationID
  | .cancel handler => s.cancel handler
  | .take place => s.take cfg place
  | .work place => s.stepWorker cfg place (s.memory.workers place)
  | .answer index answer => s.runnerAnswers index answer
  | .exit index => s.exitWorker index
  | .sweep => s.sweep
  | .exitSweeper => s.exitSweeper
  | .close => s.close cfg
  | .crash => some (s.crash cfg)
  | .restart => s.restart
  | .recover => s.recover cfg
  | .clock now => some { s with clock := now, latest := max s.latest now }

def step (s : ServiceState) (action : Action) (next : ServiceState) : Prop :=
  s.act cfg action = some next

/-- The states of the service, from a store that is empty. -/
def Reachable (s : ServiceState) : Prop := Steps (step cfg) anyAction {} s

end ServiceState
end CultureNodes.Runners
