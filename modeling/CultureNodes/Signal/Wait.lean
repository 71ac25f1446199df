import Mathlib.Data.List.MinMax
import Mathlib.Data.Prod.Lex
import CultureNodes.Events.Append
import CultureNodes.Store.WorkItem

/-!
The dispatch of signal waits beside the deliveries of events, statement by statement. A dispatch looks
its subscription up, probes for a fact that is there already, and parks, each in a transaction of its
own; the last two hold the run's lock. A delivery reads without a lock which runs may be waiting, takes
their locks, reads again what is pending in them, and appends its fact. Which runs have routes for an
event, and what claims, leases and completions do to the work items, is left open. A delivery that is
found to be a duplicate or is suppressed ends before it reads a subscription, as one that is aborted.
-/

namespace CultureNodes.Signal

open Events (sortedRunIDs)
open Store (Claim SubscriptionStatus WorkItem)

structure Run where
  namespaceID : String
  createdAt : Nat
deriving DecidableEq, Repr

/-- The node run of a wait node, with the signal of its `until` block. -/
structure SignalWait where
  run : Nat
  eventName : String
deriving DecidableEq, Repr

/-- What a dispatch reads of the runs and their node runs; none of it is written again. -/
structure WaitRows where
  run : Nat → Run
  wait : Nat → SignalWait

/-- A row of `signal_events`; an event without a run is for all runs of the namespace. -/
structure SignalEvent where
  id : Nat
  namespaceID : String
  run : Option Nat := none
  name : String
  payload : String := "{}"
  emitter : String
  createdAt : Nat
deriving DecidableEq, Repr

/-- A row of `signal_subscriptions`. -/
structure SignalSubscription where
  id : String
  namespaceID : String
  run : Nat
  nodeRun : Nat
  eventName : String
  status : SubscriptionStatus := .pending
  firedEvent : Option Nat := none
deriving DecidableEq, Repr

structure SignalDb where
  events : List SignalEvent := []
  subscriptions : List SignalSubscription := []
  items : List WorkItem := []
deriving DecidableEq, Repr

inductive Write where
  | insertEvent (event : SignalEvent)
  | insertSubscription (row : SignalSubscription)
  | fireSubscription (id : String) (nodeRun event now : Nat)
  | parkWork (claim : Claim)
  | retire (run : Nat) (nodeRuns : Option (List Nat))
deriving DecidableEq, Repr

/-- The facts in the order they are consumed in. -/
def SignalEvent.order (event : SignalEvent) : Nat ×ₗ Nat := toLex (event.createdAt, event.id)

/-- A dispatch that comes again finds the subscription of the one before it. -/
def signalSubscriptionID (nodeRun : Nat) : String := "signal-" ++ toString nodeRun

def WaitRows.subscription (rows : WaitRows) (nodeRun : Nat) (status : SubscriptionStatus)
    (firedEvent : Option Nat) : SignalSubscription where
  id := signalSubscriptionID nodeRun
  namespaceID := (rows.run (rows.wait nodeRun).run).namespaceID
  run := (rows.wait nodeRun).run
  nodeRun := nodeRun
  eventName := (rows.wait nodeRun).eventName
  status := status
  firedEvent := firedEvent

structure DeliverSignalEventInput where
  namespaceID : String
  name : String
  payload : String := ""
  emitter : String
  run : Option Nat := none
deriving DecidableEq, Repr

namespace DeliverSignalEventInput

variable (input : DeliverSignalEventInput)

/-- The guard of both reads of the subscriptions an event may resume. -/
def resumes (row : SignalSubscription) : Bool :=
  row.namespaceID = input.namespaceID && row.eventName = input.name && row.status = .pending &&
    input.run.all (· = row.run)

def event (id now : Nat) : SignalEvent where
  id := id
  namespaceID := input.namespaceID
  run := input.run
  name := input.name
  payload := if input.payload = "" then "{}" else input.payload
  emitter := input.emitter
  createdAt := now

end DeliverSignalEventInput

namespace SignalDb

variable (rows : WaitRows) (db : SignalDb)

/-- Whether a cancellation of the run, or of some of its node runs, reaches a node run. -/
def retires (run : Nat) (nodeRuns : Option (List Nat)) (nodeRun : Nat) : Bool :=
  (rows.wait nodeRun).run = run && nodeRuns.all (·.contains nodeRun)

def apply : Write → SignalDb
  | .insertEvent event => { db with events := db.events ++ [event] }
  | .insertSubscription row =>
      -- On a conflict the row that is there stays as it is.
      if db.subscriptions.any (·.id = row.id) then db
      else { db with subscriptions := db.subscriptions ++ [row] }
  | .fireSubscription id nodeRun event now =>
      { db with
        subscriptions := Table.update db.subscriptions
          (fun row => row.id = id && row.status = .pending)
          (fun row => { row with status := .fired, firedEvent := some event })
        items := Table.update db.items
          (fun item => item.nodeRun = nodeRun && item.state = .waiting) (·.woken now) }
  | .parkWork claim => { db with items := Table.update db.items (·.heldBy claim) (·.parked) }
  | .retire run nodeRuns =>
      { db with
        subscriptions := Table.update db.subscriptions
          (fun row => retires rows run nodeRuns row.nodeRun && row.status = .pending)
          (fun row => { row with status := .canceled })
        items := Table.update db.items
          (fun item => retires rows run nodeRuns item.nodeRun && item.live) (·.cancelled) }

def subscriptionByID (id : String) : Option SignalSubscription :=
  db.subscriptions.find? (·.id = id)

def eventByID (id : Nat) : Option SignalEvent := db.events.find? (·.id = id)

def firedWith (run : Nat) (name : String) : List SignalEvent :=
  (db.subscriptions.filter fun row =>
    row.run = run && row.eventName = name && row.status = .fired).flatMap fun row =>
      db.events.filter fun event => row.firedEvent = some event.id

/-- The newest of them. -/
def cursor (run : Nat) (name : String) : Option SignalEvent :=
  (db.firedWith run name).argmax SignalEvent.order

/-- The conditions of the catch-up probe. -/
def replayable (wait : SignalWait) (event : SignalEvent) : Bool :=
  event.namespaceID = (rows.run wait.run).namespaceID && event.name = wait.eventName &&
    event.run.all (· = wait.run) && decide ((rows.run wait.run).createdAt ≤ event.createdAt) &&
    (db.cursor wait.run wait.eventName).all fun newest => decide (newest.order < event.order)

/-- The oldest fact the wait can catch up on. -/
def scanReplayCandidate (wait : SignalWait) : Option SignalEvent :=
  (db.events.filter (db.replayable rows wait)).argmin SignalEvent.order

def resumedBy (row : SignalSubscription) : Option SignalEvent :=
  if row.status = .fired then row.firedEvent.bind db.eventByID else none

def selectCandidateSubscriptions (input : DeliverSignalEventInput) : List SignalSubscription :=
  db.subscriptions.filter input.resumes

def selectLockedSubscriptions (input : DeliverSignalEventInput) (runs : List Nat) :
    List SignalSubscription :=
  db.subscriptions.filter fun row => input.resumes row && runs.contains row.run

end SignalDb

/-- Where a dispatch stands. -/
inductive DispatchPhase where
  | lookup
  | lockReplay
  | probe
  | arm (event : SignalEvent)
  | replayed (event : SignalEvent)
  | lockPark
  | park
  | parked
deriving DecidableEq, Repr

/-- Where a delivery stands with the runs it has found. -/
inductive DeliveryPhase where
  | candidates
  | lockRuns (remaining : List Nat)
  | matched (fired : List SignalSubscription)
  | appended (event : SignalEvent) (fired : List SignalSubscription) (firedAt : Nat)
deriving DecidableEq, Repr

inductive RetirePhase where
  | lock
  | write
  | written
deriving DecidableEq, Repr

/-- The `now` of a delivery is the time its transaction began. -/
inductive Process where
  | dispatch (nodeRun : Nat) (claim : Claim) (phase : DispatchPhase)
  | delivery (input : DeliverSignalEventInput) (now : Nat) (runs : List Nat) (phase : DeliveryPhase)
  | retire (run : Nat) (nodeRuns : Option (List Nat)) (phase : RetirePhase)
deriving DecidableEq, Repr

/-- What the processes have come to, in the order it happened. -/
inductive Moment where
  | probed (dispatch nodeRun : Nat)
  | armed (dispatch nodeRun : Nat)
  | completed (dispatch nodeRun event : Nat)
  | matched (delivery : Nat) (runs : List Nat)
  | appended (delivery event : Nat)
deriving DecidableEq, Repr

inductive Action where
  | dispatch (nodeRun : Nat) (claim : Claim)
  | deliver (input : DeliverSignalEventInput) (now : Nat)
  | cancel (run : Nat) (nodeRuns : Option (List Nat))
  | advance (process : Nat)
  | readCandidates (process : Nat) (routeRuns : List Nat)
  | append (process event firedAt : Nat)
  | commit (process : Nat)
  | abort (process : Nat)
  | work (items : List WorkItem)
deriving DecidableEq, Repr

/-- `issued` are the event ids that have been made; `log` is the history of the run, which nothing
reads. -/
structure SignalState extends World SignalDb Write Nat Process where
  nextID : Nat
  issued : List Nat := []
  log : List Moment := []

namespace SignalState

variable (rows : WaitRows) (s : SignalState)

def initial : SignalState :=
  { db := {}, txns := fun _ => none, holder := fun _ => none, nextID := 0 }

def put (id : Nat) (writes : List Write) (process : Process) : SignalState :=
  { s with toWorld := s.toWorld.setTxn id ⟨writes, process⟩ }

def record (moments : List Moment) : SignalState := { s with log := s.log ++ moments }

/-- A process begins. -/
def start (process : Process) : SignalState :=
  { s.put s.nextID [] process with nextID := s.nextID + 1 }

/-- Take the lock of a run, then go on; the statement waits while another process holds it. -/
def lockThen (id run : Nat) (process : Process) : Option SignalState :=
  (s.toWorld.acquire id run).map fun world =>
    { s with toWorld := world.setTxn id ⟨[], process⟩ }

/-- The transaction ends without a write, and the process with it. -/
def leave (id : Nat) : SignalState := { s with toWorld := s.toWorld.finish id }

/-- The transaction ends without a write, and the dispatch goes on to park. -/
def goPark (id nodeRun : Nat) (claim : Claim) : SignalState :=
  (s.leave id).put id [] (.dispatch nodeRun claim .lockPark)

/-- One statement of `dispatchSignalWait`, `ReplaySignalEvent` or `StartDurableSignalWait`. -/
def stepDispatch (id nodeRun : Nat) (claim : Claim) : DispatchPhase → Option SignalState
  | .lookup =>
      match s.db.subscriptionByID (signalSubscriptionID nodeRun) with
      | none => some (s.put id [] (.dispatch nodeRun claim .lockReplay))
      | some row =>
          match row.status with
          | .fired =>
              -- Without its event the fired row cannot be read, and the dispatch fails.
              match s.db.resumedBy row with
              | some event => some ((s.leave id).record [.completed id nodeRun event.id])
              | none => some (s.leave id)
          | .canceled => some (s.leave id)
          | .pending => some (s.put id [] (.dispatch nodeRun claim .lockPark))
  | .lockReplay => s.lockThen id (rows.wait nodeRun).run (.dispatch nodeRun claim .probe)
  | .probe =>
      match s.db.scanReplayCandidate rows (rows.wait nodeRun) with
      | none => some ((s.goPark id nodeRun claim).record [.probed id nodeRun])
      | some event => some (s.put id [] (.dispatch nodeRun claim (.arm event)))
  | .arm event =>
      match s.db.subscriptionByID (signalSubscriptionID nodeRun) with
      | none =>
          some (s.put id [.insertSubscription (rows.subscription nodeRun .fired (some event.id))]
            (.dispatch nodeRun claim (.replayed event)))
      | some row =>
          -- Another dispatch of the node run was first, and its answer is adopted.
          match s.db.resumedBy row with
          | some adopted => some ((s.leave id).record [.completed id nodeRun adopted.id])
          | none => some (s.goPark id nodeRun claim)
  | .lockPark => s.lockThen id (rows.wait nodeRun).run (.dispatch nodeRun claim .park)
  | .park =>
      if s.db.items.any (·.heldBy claim) then
        some (s.put id
          [.parkWork claim, .insertSubscription (rows.subscription nodeRun .pending none)]
          (.dispatch nodeRun claim .parked))
      else some (s.leave id)
  | .replayed _ | .parked => none

/-- One statement of a delivery between its candidate read and its append. -/
def stepDelivery (id : Nat) (input : DeliverSignalEventInput) (now : Nat) (runs : List Nat) :
    DeliveryPhase → Option SignalState
  | .lockRuns (run :: rest) => s.lockThen id run (.delivery input now runs (.lockRuns rest))
  | .lockRuns [] =>
      some (s.put id []
        (.delivery input now runs (.matched (s.db.selectLockedSubscriptions input runs))))
  | .candidates | .matched _ | .appended _ _ _ => none

def stepRetire (id run : Nat) (nodeRuns : Option (List Nat)) : RetirePhase → Option SignalState
  | .lock => s.lockThen id run (.retire run nodeRuns .write)
  | .write => some (s.put id [.retire run nodeRuns] (.retire run nodeRuns .written))
  | .written => none

def advance (id : Nat) : Process → Option SignalState
  | .dispatch nodeRun claim phase => s.stepDispatch rows id nodeRun claim phase
  | .delivery input now runs phase => s.stepDelivery id input now runs phase
  | .retire run nodeRuns phase => s.stepRetire id run nodeRuns phase

/-- The read that takes no lock. -/
def readCandidates (id : Nat) (routeRuns : List Nat) : Process → Option SignalState
  | .delivery input now _ .candidates =>
      let runs := sortedRunIDs
        ((s.db.selectCandidateSubscriptions input).map SignalSubscription.run ++ routeRuns)
      some ((s.put id [] (.delivery input now runs (.lockRuns runs))).record [.matched id runs])
  | _ => none

/-- The fact and the subscriptions it fires. -/
def deliveryWrites (event : SignalEvent) (fired : List SignalSubscription) (firedAt : Nat) :
    List Write :=
  .insertEvent event ::
    fired.map fun row => .fireSubscription row.id row.nodeRun event.id firedAt

def append (id ulid firedAt : Nat) : Process → Option SignalState
  | .delivery input now runs (.matched fired) =>
      if ulid ∈ s.issued then none
      else
        let event := input.event ulid now
        some { s.put id (deliveryWrites event fired firedAt)
            (.delivery input now runs (.appended event fired firedAt)) with
          issued := s.issued ++ [ulid] }
  | _ => none

/-- What a process has come to when it commits where it stands. -/
def moments (id : Nat) : Process → Option (List Moment)
  | .dispatch nodeRun _ (.replayed event) => some [.completed id nodeRun event.id]
  | .dispatch nodeRun _ .parked =>
      some (if s.db.subscriptions.any (·.id = signalSubscriptionID nodeRun) then []
        else [.armed id nodeRun])
  | .delivery _ _ _ (.appended event _ _) => some [.appended id event.id]
  | .retire _ _ .written => some []
  | _ => none

def act : Action → Option SignalState
  | .dispatch nodeRun claim => some (s.start (.dispatch nodeRun claim .lookup))
  | .deliver input now =>
      if input.namespaceID = "" ∨ input.name = "" ∨ input.emitter = "" then none
      else some (s.start (.delivery input now [] .candidates))
  | .cancel run nodeRuns => some (s.start (.retire run nodeRuns .lock))
  | .advance id => (s.txns id).bind fun txn => s.advance rows id txn.body
  | .readCandidates id routeRuns => (s.txns id).bind fun txn => s.readCandidates id routeRuns txn.body
  | .append id ulid firedAt => (s.txns id).bind fun txn => s.append id ulid firedAt txn.body
  | .commit id => (s.txns id).bind fun txn => (s.moments id txn.body).map fun moments =>
      { s with
        toWorld := s.toWorld.commit (SignalDb.apply rows) id txn
        log := s.log ++ moments }
  | .abort id => (s.txns id).map fun _ => s.leave id
  | .work items => some { s with db := { s.db with items := items } }

def step (s : SignalState) (action : Action) (next : SignalState) : Prop :=
  s.act rows action = some next

/-- The states the protocol reaches. -/
def Reachable (s : SignalState) : Prop := Steps (step rows) anyAction initial s

/-- Every process that has begun is over. -/
def Quiescent : Prop := ∀ id < s.nextID, s.txns id = none

end SignalState
end CultureNodes.Signal
