import Mathlib.Data.List.Basic
import CultureNodes.Library.Table
import CultureNodes.Library.Transaction
import CultureNodes.Library.Transition

/-!
Deliveries that trigger runs of one workflow definition, terminal transitions that drain its queue of
deferred triggers, and run cancellation through the API, statement by statement. Only the
subject-bearing runs of the workflow are rows here: a run without a subject is never counted, never
queued and takes none of these locks.
-/

namespace CultureNodes.Trigger

/-- A subject-bearing run; `origin` is the queue entry it was drained from, if any. -/
structure SubjectRun where
  id : Nat
  subject : String
  event : Nat
  active : Bool := true
  origin : Option Nat := none
deriving DecidableEq, Repr

/-- A row of `deferred_triggers`. Its `createdAt` is the column's default, the start time of the
transaction that inserted it. -/
structure DeferredTrigger where
  id : Nat
  subject : String
  event : Nat
  attempts : Nat := 1
  createdAt : Nat
deriving DecidableEq, Repr

/-- The committed rows. `attached` records the events appended to runs already in flight, `history`
the queue entries in the order they were first queued. -/
structure TriggerDb where
  runs : List SubjectRun := []
  deferred : List DeferredTrigger := []
  attached : List (Nat × Nat) := []
  history : List Nat := []
deriving DecidableEq, Repr

inductive Write where
  | insertRun (run : SubjectRun)
  | endRun (id : Nat)
  | attachEvent (run event : Nat)
  | insertDeferred (row : DeferredTrigger)
  | touchDeferred (id event : Nat)
  | deleteDeferred (id : Nat)
deriving DecidableEq, Repr

inductive LockKey where
  | workflow
  | subject (name : String)
  | run (id : Nat)
deriving DecidableEq, Repr

/-- One match of a delivered event against a trigger of the workflow; the empty subject is the event
that carries none. -/
structure Match where
  subject : String
  event : Nat
deriving DecidableEq, Repr

/-- Where the trigger loop stands with the match it is at. -/
inductive DeliveryPhase where
  | lockWorkflow
  | lockSubject
  | readActive
  | readQueue
  | readCount
  | insert
  | create
deriving DecidableEq, Repr

/-- Where a terminal transition stands. -/
inductive TerminalPhase where
  | lockRun
  | readRun
  | lockWorkflow
  | readOldest
  | delete (entry : DeferredTrigger)
  | lockSubject (entry : DeferredTrigger)
  | create (entry : DeferredTrigger)
  | done
deriving DecidableEq, Repr

inductive Body where
  | delivery (startedAt : Nat) (pending : List Match) (phase : DeliveryPhase)
  | terminal (run : Nat) (phase : TerminalPhase)
deriving DecidableEq, Repr

namespace TriggerDb

variable (db : TriggerDb)

def apply : Write → TriggerDb
  | .insertRun run => { db with runs := db.runs ++ [run] }
  | .endRun id =>
      { db with runs := Table.update db.runs (·.id = id) fun run => { run with active := false } }
  | .attachEvent run event => { db with attached := db.attached ++ [(run, event)] }
  | .insertDeferred row =>
      { db with deferred := db.deferred ++ [row], history := db.history ++ [row.id] }
  | .touchDeferred id event =>
      { db with
        deferred := Table.update db.deferred (·.id = id) fun row =>
          { row with event := event, attempts := row.attempts + 1 } }
  | .deleteDeferred id => { db with deferred := db.deferred.filter (·.id ≠ id) }

def activeRuns : List SubjectRun := db.runs.filter (·.active)

def activeSubjectRunCount : Nat := db.activeRuns.length

def activeRunBySubject (subject : String) : Option SubjectRun :=
  db.activeRuns.find? (·.subject = subject)

def findDeferredTrigger (subject : String) : Option DeferredTrigger :=
  db.deferred.find? (·.subject = subject)

/-- An entry no other entry was created before. The query orders by the creation time alone, so
among entries of one creation time any may be returned. -/
def isOldest (entry : DeferredTrigger) : Bool :=
  db.deferred.contains entry && db.deferred.all fun other => decide (entry.createdAt ≤ other.createdAt)

/-- The queue entries that became runs, in the order they did. -/
def drained : List Nat := db.runs.filterMap SubjectRun.origin

end TriggerDb

structure TriggerState extends World TriggerDb Write LockKey Body where
  nextID : Nat
  clock : Nat

inductive Action where
  | tick
  | beginDelivery (txn : Nat) (matches_ : List Match)
  | beginTerminal (txn run : Nat)
  | advance (txn : Nat) (oldest : Option DeferredTrigger)
  | commit (txn : Nat)
  | abort (txn : Nat)
  | apiCancel (run : Nat)
deriving DecidableEq, Repr

namespace TriggerState

variable (s : TriggerState)

def initial : TriggerState :=
  { db := {}, txns := fun _ => none, holder := fun _ => none, nextID := 0, clock := 0 }

def read (txn : Txn Write Body) : TriggerDb := s.toWorld.view TriggerDb.apply txn

def put (id : Nat) (writes : List Write) (body : Body) : TriggerState :=
  { s with toWorld := s.toWorld.setTxn id ⟨writes, body⟩ }

/-- Take a lock, then go on; the statement waits while another transaction holds the lock. -/
def lockThen (id : Nat) (key : LockKey) (writes : List Write) (body : Body) : Option TriggerState :=
  (s.toWorld.acquire id key).map fun world => { s with toWorld := world.setTxn id ⟨writes, body⟩ }

/-- One statement of the trigger loop, at the match `m`. -/
def stepDelivery (limit id : Nat) (txn : Txn Write Body) (startedAt : Nat) (m : Match)
    (rest : List Match) : DeliveryPhase → Option TriggerState
  | .lockWorkflow =>
      -- An event without a subject creates its run here; that run is not a row of this model.
      if m.subject = "" then some (s.put id txn.writes (.delivery startedAt rest .lockWorkflow))
      else if 0 < limit then
        s.lockThen id .workflow txn.writes (.delivery startedAt (m :: rest) .lockSubject)
      else some (s.put id txn.writes (.delivery startedAt (m :: rest) .lockSubject))
  | .lockSubject =>
      s.lockThen id (.subject m.subject) txn.writes (.delivery startedAt (m :: rest) .readActive)
  | .readActive =>
      match (s.read txn).activeRunBySubject m.subject with
      | some run =>
          some (s.put id (txn.writes ++ [.attachEvent run.id m.event])
            (.delivery startedAt rest .lockWorkflow))
      | none =>
          if 0 < limit then some (s.put id txn.writes (.delivery startedAt (m :: rest) .readQueue))
          else some (s.put id txn.writes (.delivery startedAt (m :: rest) .create))
  | .readQueue =>
      match (s.read txn).findDeferredTrigger m.subject with
      | some row =>
          some (s.put id (txn.writes ++ [.touchDeferred row.id m.event])
            (.delivery startedAt rest .lockWorkflow))
      | none => some (s.put id txn.writes (.delivery startedAt (m :: rest) .readCount))
  | .readCount =>
      if limit ≤ (s.read txn).activeSubjectRunCount then
        some (s.put id txn.writes (.delivery startedAt (m :: rest) .insert))
      else some (s.put id txn.writes (.delivery startedAt (m :: rest) .create))
  | .insert =>
      some { s.put id (txn.writes ++ [.insertDeferred { id := s.nextID, subject := m.subject,
                                                        event := m.event, createdAt := startedAt }])
          (.delivery startedAt rest .lockWorkflow) with nextID := s.nextID + 1 }
  | .create =>
      some { s.put id (txn.writes ++ [.insertRun { id := s.nextID, subject := m.subject,
                                                   event := m.event }])
          (.delivery startedAt rest .lockWorkflow) with nextID := s.nextID + 1 }

/-- One statement of a terminal transition of a subject-bearing run, up to its drain of the queue.
`oldest` is the row the query for the oldest entry returned. -/
def stepTerminal (limit id : Nat) (txn : Txn Write Body) (run : Nat)
    (oldest : Option DeferredTrigger) : TerminalPhase → Option TriggerState
  | .lockRun => s.lockThen id (.run run) txn.writes (.terminal run .readRun)
  | .readRun =>
      if (s.read txn).activeRuns.any (·.id = run) then
        some (s.put id (txn.writes ++ [.endRun run])
          (.terminal run (if 0 < limit then .lockWorkflow else .done)))
      else none
  | .lockWorkflow => s.lockThen id .workflow txn.writes (.terminal run .readOldest)
  | .readOldest =>
      match oldest with
      | none =>
          if (s.read txn).deferred = [] then some (s.put id txn.writes (.terminal run .done)) else none
      | some entry =>
          if (s.read txn).isOldest entry then
            some (s.put id txn.writes (.terminal run (.delete entry)))
          else none
  | .delete entry =>
      some (s.put id (txn.writes ++ [.deleteDeferred entry.id]) (.terminal run (.lockSubject entry)))
  | .lockSubject entry =>
      s.lockThen id (.subject entry.subject) txn.writes (.terminal run (.create entry))
  | .create entry =>
      some { s.put id (txn.writes ++ [.insertRun { id := s.nextID, subject := entry.subject,
                                                   event := entry.event, origin := some entry.id }])
          (.terminal run .done) with nextID := s.nextID + 1 }
  | .done => none

/-- A transaction may commit once its program has run to its end. -/
def ended : Body → Bool
  | .delivery _ pending _ => pending.isEmpty
  | .terminal _ phase => phase = .done

def act (limit : Nat) : Action → Option TriggerState
  | .tick => some { s with clock := s.clock + 1 }
  | .beginDelivery id matches_ =>
      match s.txns id with
      | some _ => none
      | none => some (s.put id [] (.delivery s.clock matches_ .lockWorkflow))
  | .beginTerminal id run =>
      match s.txns id with
      | some _ => none
      | none => some (s.put id [] (.terminal run .lockRun))
  | .advance id oldest =>
      match s.txns id with
      | none => none
      | some txn =>
          match txn.body with
          | .delivery _ [] _ => none
          | .delivery startedAt (m :: rest) phase => s.stepDelivery limit id txn startedAt m rest phase
          | .terminal run phase => s.stepTerminal limit id txn run oldest phase
  | .commit id =>
      match s.txns id with
      | none => none
      | some txn =>
          if ended txn.body then some { s with toWorld := s.toWorld.commit TriggerDb.apply id txn }
          else none
  | .abort id =>
      match s.txns id with
      | none => none
      | some _ => some { s with toWorld := s.toWorld.finish id }
  | .apiCancel run =>
      -- Takes the run's lock for one transaction, and neither the workflow lock nor a queue entry.
      if s.holder (.run run) = none ∧ s.db.activeRuns.any (·.id = run) = true then
        some { s with db := s.db.apply (.endRun run) }
      else none

def step (limit : Nat) (s : TriggerState) (action : Action) (next : TriggerState) : Prop :=
  s.act limit action = some next

end TriggerState
end CultureNodes.Trigger
