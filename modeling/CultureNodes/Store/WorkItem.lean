import CultureNodes.Compiler.Document
import CultureNodes.Library.Table

/-!
Work items, durable timers and signal subscriptions, and the store's statements on them. A statement
that other code relies on having matched a row returns `none` when it matches none; its transaction
is then rolled back, so nothing is written. Times are counted in any unit from any origin.
-/

namespace CultureNodes.Store

inductive WorkState where
  | ready
  | leased
  | waiting
  | completed
  | cancelled
deriving DecidableEq, Repr

/-- A row of `work_items`. -/
structure WorkItem where
  id : Nat
  nodeRun : Nat
  state : WorkState := .ready
  leaseOwner : Option String := none
  leaseExpiresAt : Option Nat := none
  fencingToken : Nat := 0
  attempt : Nat := 0
  availableAt : Nat
  stateVersion : Nat := 0
deriving DecidableEq, Repr

inductive TimerKind where
  | wait
  | retry
  | deadline
  | leaseRecovery
deriving DecidableEq, Repr

inductive TimerStatus where
  | pending
  | fired
  | canceled
deriving DecidableEq, Repr

structure Timer where
  id : Nat
  nodeRun : Nat
  kind : TimerKind
  fireAt : Nat
  status : TimerStatus := .pending
  claimedBy : Option String := none
deriving DecidableEq, Repr

inductive SubscriptionStatus where
  | pending
  | fired
  | canceled
deriving DecidableEq, Repr

structure Subscription where
  id : Nat
  nodeRun : Nat
  eventName : String
  status : SubscriptionStatus := .pending
deriving DecidableEq, Repr

structure WorkTables where
  items : List WorkItem := []
  timers : List Timer := []
  subscriptions : List Subscription := []
deriving DecidableEq, Repr

/-- The fencing tuple a claim hands out; guarded statements match it against the row. -/
structure Claim where
  work : Nat
  worker : String
  fencingToken : Nat
  attempt : Nat
deriving DecidableEq, Repr

namespace WorkItem

variable (item : WorkItem)

def live : Bool := item.state = .ready || item.state = .leased || item.state = .waiting

def heldBy (claim : Claim) : Bool :=
  item.id = claim.work && item.state = .leased && item.leaseOwner = some claim.worker &&
    item.fencingToken = claim.fencingToken && item.attempt = claim.attempt

/-- The guard of a heartbeat, which does not state the attempt. -/
def leasedBy (claim : Claim) : Bool :=
  item.id = claim.work && item.state = .leased && item.leaseOwner = some claim.worker &&
    item.fencingToken = claim.fencingToken

/-- The guard of a callback's resume: parked, unowned, and still the tuple the dispatch held. -/
def parkedFor (claim : Claim) : Bool :=
  item.id = claim.work && item.state = .waiting && item.leaseOwner = none &&
    item.fencingToken = claim.fencingToken && item.attempt = claim.attempt

def claimed (worker : String) (now lease : Nat) : WorkItem :=
  { item with state := .leased, leaseOwner := some worker, leaseExpiresAt := some (now + lease),
              fencingToken := item.fencingToken + 1, attempt := item.attempt + 1,
              stateVersion := item.stateVersion + 1 }

def reclaimed (now : Nat) : WorkItem :=
  { item with state := .ready, leaseOwner := none, leaseExpiresAt := none, availableAt := now,
              stateVersion := item.stateVersion + 1 }

def extended (now lease : Nat) : WorkItem := { item with leaseExpiresAt := some (now + lease) }

/-- A deferral gives the attempt back; nothing was dispatched under the claim. -/
def deferred (availableAt : Nat) : WorkItem :=
  { item with state := .ready, leaseOwner := none, leaseExpiresAt := none,
              availableAt := availableAt, attempt := item.attempt - 1,
              stateVersion := item.stateVersion + 1 }

def parked : WorkItem :=
  { item with state := .waiting, leaseOwner := none, leaseExpiresAt := none,
              stateVersion := item.stateVersion + 1 }

def resumed (worker : String) (now lease : Nat) : WorkItem :=
  { item with state := .leased, leaseOwner := some worker, leaseExpiresAt := some (now + lease),
              stateVersion := item.stateVersion + 1 }

def finished : WorkItem :=
  { item with state := .completed, leaseOwner := none, leaseExpiresAt := none,
              stateVersion := item.stateVersion + 1 }

/-- A wake-up makes the item available again. It does not touch the lease columns. -/
def woken (now : Nat) : WorkItem :=
  { item with state := .ready, availableAt := now, stateVersion := item.stateVersion + 1 }

def cancelled : WorkItem := { item with state := .cancelled }

end WorkItem

/-- The wait and retry timers, whose effect makes the work of their node run available again. -/
def Timer.wakes (timer : Timer) : Bool := timer.kind = .wait || timer.kind = .retry

namespace WorkTables

variable (tables : WorkTables)

def updateItems (guard : WorkItem → Bool) (write : WorkItem → WorkItem) : WorkTables :=
  { tables with items := Table.update tables.items guard write }

/-- A statement whose caller rolls back when it matches no row. -/
def updateItems? (guard : WorkItem → Bool) (write : WorkItem → WorkItem) : Option WorkTables :=
  if tables.items.any guard then some (tables.updateItems guard write) else none

def enqueueWork (id nodeRun availableAt : Nat) : WorkTables :=
  { tables with items := tables.items ++ [{ id := id, nodeRun := nodeRun, availableAt := availableAt }] }

/-- Claim one ready and due item. `runTerminal` says whether the item's run has ended, `isCode`
whether its node is a code node. -/
def claimWork (runTerminal : Bool) (isCode : Nat → Bool) (id : Nat) (worker : String)
    (claimCode : Bool) (now lease : Nat) : Option WorkTables :=
  tables.updateItems?
    (fun item => item.id = id && item.state = .ready && decide (item.availableAt ≤ now) &&
      !runTerminal && (claimCode || !isCode item.nodeRun))
    (fun item => item.claimed worker now lease)

def reclaimExpired (runTerminal : Bool) (now : Nat) : WorkTables :=
  tables.updateItems
    (fun item => item.state = .leased &&
      (match item.leaseExpiresAt with | some expiry => decide (expiry ≤ now) | none => false) &&
      !runTerminal)
    (fun item => item.reclaimed now)

def completeWork (claim : Claim) : Option WorkTables :=
  tables.updateItems? (·.heldBy claim) (·.finished)

def deferWork (claim : Claim) (availableAt : Nat) : Option WorkTables :=
  tables.updateItems? (·.heldBy claim) (·.deferred availableAt)

def extendLease (claim : Claim) (now lease : Nat) : Option WorkTables :=
  tables.updateItems? (·.leasedBy claim) (·.extended now lease)

/-- The statement every park and the re-park share. -/
def parkWork (claim : Claim) : Option WorkTables :=
  tables.updateItems? (·.heldBy claim) (·.parked)

/-- The node run a claimed work item belongs to. -/
def nodeRunOf (work : Nat) : Option Nat :=
  (tables.items.find? (·.id = work)).map WorkItem.nodeRun

/-- Park behind an asynchronous actor or runner, with a deadline timer when the wait has one. -/
def startAsyncWait (claim : Claim) (deadline : Option (Nat × Nat)) : Option WorkTables := do
  let parked ← tables.parkWork claim
  let nodeRun ← tables.nodeRunOf claim.work
  match deadline with
  | none => some parked
  | some (timer, fireAt) =>
      if parked.timers.any (·.id = timer) then none
      else some { parked with
        timers := parked.timers ++ [{ id := timer, nodeRun := nodeRun, kind := .deadline, fireAt := fireAt }] }

/-- Park behind a wait timer. A timer row that exists already keeps its status and its fire time. -/
def startDurableWait (claim : Claim) (timer fireAt : Nat) : Option WorkTables := do
  let parked ← tables.parkWork claim
  let nodeRun ← tables.nodeRunOf claim.work
  if parked.timers.any (·.id = timer) then some parked
  else some { parked with
    timers := parked.timers ++ [{ id := timer, nodeRun := nodeRun, kind := .wait, fireAt := fireAt }] }

def startDurableSignalWait (claim : Claim) (subscription : Nat) (eventName : String) :
    Option WorkTables := do
  let parked ← tables.parkWork claim
  let nodeRun ← tables.nodeRunOf claim.work
  if parked.subscriptions.any (·.id = subscription) then some parked
  else some { parked with
    subscriptions := parked.subscriptions ++
      [{ id := subscription, nodeRun := nodeRun, eventName := eventName }] }

def resumeWaitingWork (claim : Claim) (now lease : Nat) : Option WorkTables :=
  tables.updateItems? (·.parkedFor claim) (·.resumed claim.worker now lease)

/-- A delivered signal retires its subscription and wakes the node run's waiting work. -/
def fireSubscription (id now : Nat) : Option WorkTables :=
  match tables.subscriptions.find? (fun sub => sub.id = id && sub.status = .pending) with
  | none => none
  | some sub =>
      let woken := tables.updateItems
        (fun item => item.nodeRun = sub.nodeRun && item.state = .waiting) (·.woken now)
      some { woken with
        subscriptions := Table.update tables.subscriptions
          (fun row => row.id = id && row.status = .pending) (fun row => { row with status := .fired }) }

def claimTimer (id : Nat) (owner : String) (now : Nat) : WorkTables :=
  { tables with
    timers := Table.update tables.timers
      (fun timer => timer.id = id && timer.status = .pending && decide (timer.fireAt ≤ now))
      (fun timer => { timer with claimedBy := some owner }) }

/-- A due timer fires: its effect and the mark that it fired commit together, and only under the
claim the scheduler still holds. The effect of a wait or retry timer reaches every work item of its
node run that is not completed; the effects of the other kinds commit on their own, through a
resume and a completion or through `reclaimExpired`. -/
def fireTimer (id : Nat) (owner : String) (now : Nat) : Option WorkTables :=
  match tables.timers.find?
      (fun timer => timer.id = id && timer.claimedBy = some owner && timer.status = .pending) with
  | none => none
  | some timer =>
      let effect :=
        if timer.wakes then
          tables.updateItems
            (fun item => item.nodeRun = timer.nodeRun && item.state ≠ .completed) (·.woken now)
        else tables
      some { effect with
        timers := Table.update tables.timers
          (fun row => row.id = id && row.claimedBy = some owner && row.status = .pending)
          (fun row => { row with status := .fired }) }

/-- A deadline that is re-armed after a pause gets a timer row of its own. -/
def rearmDeadline (id nodeRun fireAt : Nat) : Option WorkTables :=
  if tables.timers.any (·.id = id) then none
  else some { tables with
    timers := tables.timers ++ [{ id := id, nodeRun := nodeRun, kind := .deadline, fireAt := fireAt }] }

def cancelTimer (id : Nat) : WorkTables :=
  { tables with
    timers := Table.update tables.timers (fun timer => timer.id = id && timer.status = .pending)
      (fun timer => { timer with status := .canceled }) }

def reapNodeRunAppendages (nodeRuns : List Nat) : WorkTables where
  items := Table.update tables.items
    (fun item => item.live && nodeRuns.contains item.nodeRun) (·.cancelled)
  timers := Table.update tables.timers
    (fun timer => timer.status = .pending && nodeRuns.contains timer.nodeRun)
    (fun timer => { timer with status := .canceled })
  subscriptions := Table.update tables.subscriptions
    (fun sub => sub.status = .pending && nodeRuns.contains sub.nodeRun)
    (fun sub => { sub with status := .canceled })

/-- What cancelling a run does to its work: everything live, pending or due is retired. -/
def cancelAll : WorkTables where
  items := Table.update tables.items (·.live) (·.cancelled)
  timers := Table.update tables.timers (·.status = .pending)
    (fun timer => { timer with status := .canceled })
  subscriptions := Table.update tables.subscriptions (·.status = .pending)
    (fun sub => { sub with status := .canceled })

/-- A ticket freeze parks ready and leased items; their timers and subscriptions stay. -/
def parkFrozen : WorkTables :=
  tables.updateItems (fun item => item.state = .ready || item.state = .leased) (·.parked)

end WorkTables
end CultureNodes.Store
