import Mathlib.Data.List.Sort
import CultureNodes.Library.Streams
import CultureNodes.Library.Table
import CultureNodes.Library.Transaction
import CultureNodes.Library.Transition

/-!
Appends to the event streams of runs, statement by statement. A completion or a decision locks its run
and appends to it; a run that ends may drain a deferred trigger into a new run. A delivery locks the
runs whose subscriptions and routes it matches, appends to them, and then offers the event to the
published workflows, which create a run or attach the event to one in flight. How many events a
transaction appends where it may append is left open.
-/

namespace CultureNodes.Events

structure StreamRun where
  id : Nat
  workflow : String
  subject : String := ""
  active : Bool := true
deriving DecidableEq, Repr

/-- The committed rows; an event is its run and its sequence. -/
structure StreamDb where
  runs : List StreamRun := []
  events : List (Nat × Nat) := []
deriving DecidableEq, Repr

inductive Write where
  | insertRun (run : StreamRun)
  | endRun (id : Nat)
  | insertEvent (row : Nat × Nat)
deriving DecidableEq, Repr

inductive LockKey where
  | run (id : Nat)
  | workflow (key : String)
  | subject (key subject : String)
deriving DecidableEq, Repr

/-- One match of the event against a trigger; `ceiling` is whether its workflow limits the subjects
that run at once. -/
structure Match where
  workflow : String
  subject : String
  ceiling : Bool
deriving DecidableEq, Repr

/-- Where a completion or a decision stands. -/
inductive TurnPhase where
  | lockRun
  | readRun
  | writing
  | lockWorkflow
  | readOldest
  | lockSubject (subject : String)
  | create (subject : String)
  | lockNew (run : Nat)
  | started (run : Nat)
  | ended
deriving DecidableEq, Repr

/-- Where a delivery stands: with the candidate runs, or with the first of the matches left. -/
inductive DeliveryPhase where
  | lockRuns (remaining : List Nat)
  | offering
  | lockWorkflow
  | lockSubject
  | readActive
  | attach (run : Nat)
  | unplaced
  | create
  | lockNew (run : Nat)
  | started (run : Nat)
deriving DecidableEq, Repr

inductive Body where
  | turn (run : StreamRun) (phase : TurnPhase)
  | delivery (candidates : List Nat) (pending : List Match) (phase : DeliveryPhase)
deriving DecidableEq, Repr

/-- A transaction between statements; `appending` is the row of an append whose number has been read and
that is still to be inserted. -/
structure Program where
  body : Body
  appending : Option (Nat × Nat) := none
deriving DecidableEq, Repr

/-- The runs a transaction appends to where it stands: its own run, the runs it fires subscriptions and
picks up routes of, the run it attaches an event to, and the run it created. -/
def Body.targets : Body → List Nat
  | .turn run .writing | .turn run .ended => [run.id]
  | .turn _ (.started run) => [run]
  | .delivery candidates _ .offering => candidates
  | .delivery _ _ (.attach run) | .delivery _ _ (.started run) => [run]
  | _ => []

/-- One attached event completes a match. -/
def Body.appended : Body → Body
  | .delivery candidates (_ :: rest) (.attach _) => .delivery candidates rest .lockWorkflow
  | body => body

/-- The transaction may commit where it stands. -/
def Body.finished : Body → Bool
  | .turn _ .writing | .turn _ .ended => true
  | .delivery _ [] .lockWorkflow => true
  | _ => false

namespace StreamDb

variable (db : StreamDb)

def apply : Write → StreamDb
  | .insertRun run => { db with runs := db.runs ++ [run] }
  | .endRun id =>
      { db with runs := Table.update db.runs (·.id = id) fun run => { run with active := false } }
  | .insertEvent row => { db with events := db.events ++ [row] }

def activeRunBySubject (workflow subject : String) : Option StreamRun :=
  db.runs.find? fun run => run.workflow = workflow && run.subject = subject && run.active

end StreamDb

/-- What a read outside the streams answers: that the run ends and whether its workflow drains a queue,
the subject of the oldest entry of the queue, or that a match has to wait. -/
inductive Answer where
  | proceed
  | ends (drains : Bool)
  | oldest (subject : String)
  | waits
deriving DecidableEq, Repr

inductive Action where
  | beginTurn (txn run : Nat)
  | beginDelivery (txn : Nat) (matched : List Nat) (triggers : List Match)
  | advance (txn : Nat) (answer : Answer)
  | readMax (txn run : Nat)
  | insert (txn : Nat)
  | commit (txn : Nat)
  | abort (txn : Nat)
deriving DecidableEq, Repr

/-- The unique index on run and sequence also holds the rows that are not committed yet, here each with
its transaction. -/
structure StreamState extends World StreamDb Write LockKey Program where
  index : List (Nat × (Nat × Nat)) := []
  nextID : Nat

/-- The runs a delivery locks, in the order all deliveries share. -/
def sortedRunIDs (matched : List Nat) : List Nat := matched.dedup.insertionSort (· ≤ ·)

namespace StreamState

variable (s : StreamState)

def initial : StreamState :=
  { db := {}, txns := fun _ => none, holder := fun _ => none, nextID := 0 }

/-- What a transaction reads: the committed rows with its own writes. -/
def read (writes : List Write) : StreamDb := writes.foldl StreamDb.apply s.db

def put (id : Nat) (writes : List Write) (program : Program) : StreamState :=
  { s with toWorld := s.toWorld.setTxn id ⟨writes, program⟩ }

/-- Take a lock, then go on; the statement waits while another transaction holds the lock. -/
def lockThen (id : Nat) (key : LockKey) (writes : List Write) (body : Body) : Option StreamState :=
  (s.toWorld.acquire id key).map fun world =>
    { s with toWorld := world.setTxn id ⟨writes, { body := body }⟩ }

/-- Insert a new run, before its lock is taken. -/
def insertRun (id : Nat) (writes : List Write) (workflow subject : String) (body : Nat → Body) :
    StreamState :=
  { s.put id (writes ++ [.insertRun { id := s.nextID, workflow := workflow, subject := subject }])
      { body := body s.nextID } with nextID := s.nextID + 1 }

/-- One statement of a completion or a decision, its appends apart. -/
def stepTurn (id : Nat) (writes : List Write) (run : StreamRun) (answer : Answer) :
    TurnPhase → Option StreamState
  | .lockRun => s.lockThen id (.run run.id) writes (.turn run .readRun)
  | .readRun =>
      if (s.read writes).runs.any fun row => row.id = run.id && row.active then
        some (s.put id writes { body := .turn run .writing })
      else none
  | .writing =>
      match answer with
      | .ends drains =>
          some (s.put id (writes ++ [.endRun run.id])
            { body := .turn run (if run.subject ≠ "" ∧ drains then .lockWorkflow else .ended) })
      | _ => none
  | .lockWorkflow => s.lockThen id (.workflow run.workflow) writes (.turn run .readOldest)
  | .readOldest =>
      match answer with
      | .oldest subject => some (s.put id writes { body := .turn run (.lockSubject subject) })
      | _ => some (s.put id writes { body := .turn run .ended })
  | .lockSubject subject =>
      s.lockThen id (.subject run.workflow subject) writes (.turn run (.create subject))
  | .create subject =>
      some (s.insertRun id writes run.workflow subject fun new => .turn run (.lockNew new))
  | .lockNew new => s.lockThen id (.run new) writes (.turn run (.started new))
  | .started _ => some (s.put id writes { body := .turn run .ended })
  | .ended => none

/-- One statement of the trigger loop at the match `m`, the append of an attached event apart. -/
def stepMatch (id : Nat) (writes : List Write) (candidates : List Nat) (m : Match) (rest : List Match)
    (answer : Answer) : DeliveryPhase → Option StreamState
  | .lockWorkflow =>
      if m.subject = "" then some (s.put id writes { body := .delivery candidates (m :: rest) .create })
      else if m.ceiling then
        s.lockThen id (.workflow m.workflow) writes (.delivery candidates (m :: rest) .lockSubject)
      else some (s.put id writes { body := .delivery candidates (m :: rest) .lockSubject })
  | .lockSubject =>
      s.lockThen id (.subject m.workflow m.subject) writes
        (.delivery candidates (m :: rest) .readActive)
  | .readActive =>
      match (s.read writes).activeRunBySubject m.workflow m.subject with
      | some run =>
          some (s.put id writes { body := .delivery candidates (m :: rest) (.attach run.id) })
      | none => some (s.put id writes { body := .delivery candidates (m :: rest) .unplaced })
  | .unplaced =>
      -- Behind a ceiling the match may be deferred, which appends to no run.
      if m.ceiling ∧ answer = .waits then
        some (s.put id writes { body := .delivery candidates rest .lockWorkflow })
      else some (s.put id writes { body := .delivery candidates (m :: rest) .create })
  | .create =>
      some (s.insertRun id writes m.workflow m.subject fun new =>
        .delivery candidates (m :: rest) (.lockNew new))
  | .lockNew new =>
      s.lockThen id (.run new) writes (.delivery candidates (m :: rest) (.started new))
  | .started _ => some (s.put id writes { body := .delivery candidates rest .lockWorkflow })
  | .lockRuns _ | .offering | .attach _ => none

/-- One statement of a delivery, its appends apart. -/
def stepDelivery (id : Nat) (writes : List Write) (candidates : List Nat) (pending : List Match)
    (answer : Answer) (phase : DeliveryPhase) : Option StreamState :=
  match phase, pending with
  | .lockRuns [], _ => some (s.put id writes { body := .delivery candidates pending .offering })
  | .lockRuns (run :: rest), _ =>
      s.lockThen id (.run run) writes (.delivery candidates pending (.lockRuns rest))
  | .offering, _ => some (s.put id writes { body := .delivery candidates pending .lockWorkflow })
  | _, [] => none
  | _, m :: rest => s.stepMatch id writes candidates m rest answer phase

/-- The statements between appends. -/
def advance (id : Nat) (txn : Txn Write Program) (answer : Answer) : Option StreamState :=
  if txn.body.appending ≠ none then none
  else
    match txn.body.body with
    | .turn run phase => s.stepTurn id txn.writes run answer phase
    | .delivery candidates pending phase =>
        s.stepDelivery id txn.writes candidates pending answer phase

/-- The first statement of an append: the number after the highest that is visible. -/
def readMax (id : Nat) (txn : Txn Write Program) (run : Nat) : Option StreamState :=
  if txn.body.appending = none ∧ run ∈ txn.body.body.targets then
    some (s.put id txn.writes
      { txn.body with appending := some (run, Streams.next (s.read txn.writes).events run) })
  else none

/-- The second statement. It fails on a committed row of the same number, and the transaction with it;
on a row that is not committed yet it waits. -/
def insert (id : Nat) (txn : Txn Write Program) : Option StreamState :=
  match txn.body.appending with
  | none => none
  | some row =>
      if row ∈ s.db.events ∨ (s.index.any fun entry => entry.2 = row && entry.1 ≠ id) = true then none
      else
        some { s.put id (txn.writes ++ [.insertEvent row]) { body := txn.body.body.appended } with
          index := s.index ++ [(id, row)] }

/-- A transaction leaves with its locks and its entries in the index. -/
def leave (id : Nat) (world : World StreamDb Write LockKey Program) : StreamState :=
  { s with toWorld := world, index := s.index.filter (·.1 ≠ id) }

def act : Action → Option StreamState
  | .beginTurn id run =>
      match s.txns id, s.db.runs.find? (·.id = run) with
      | none, some row => some (s.put id [] { body := .turn row .lockRun })
      | _, _ => none
  | .beginDelivery id matched triggers =>
      -- The candidate read takes no lock; the runs it finds are committed ones.
      match s.txns id with
      | some _ => none
      | none =>
          if matched.all fun run => s.db.runs.any (·.id = run) then
            let candidates := sortedRunIDs matched
            some (s.put id [] { body := .delivery candidates triggers (.lockRuns candidates) })
          else none
  | .advance id answer => (s.txns id).bind fun txn => s.advance id txn answer
  | .readMax id run => (s.txns id).bind fun txn => s.readMax id txn run
  | .insert id => (s.txns id).bind fun txn => s.insert id txn
  | .commit id => (s.txns id).bind fun txn =>
      if txn.body.appending = none ∧ txn.body.body.finished then
        some (s.leave id (s.toWorld.commit StreamDb.apply id txn))
      else none
  | .abort id => (s.txns id).bind fun _ => some (s.leave id (s.toWorld.finish id))

def step (s : StreamState) (action : Action) (next : StreamState) : Prop := s.act action = some next

end StreamState
end CultureNodes.Events
