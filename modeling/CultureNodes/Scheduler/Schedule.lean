import CultureNodes.Library.Duration
import CultureNodes.Library.Table
import CultureNodes.Engine.Rows
import Mathlib.Data.List.MinMax
import Mathlib.Data.Prod.Lex

/-!
One schedule: the cadence at which it appends its event, the runs its events mint, and the streak of
identical failures that holds its cadence back. A scheduled event has no subject, so a trigger that
matches it always creates a run. A re-mint of a run belongs to another package.
-/

namespace CultureNodes.Engine

def RunState.text : RunState → String
  | .created => "created"
  | .running => "running"
  | .waiting => "waiting"
  | .completed => "completed"
  | .failed => "failed"
  | .cancelled => "cancelled"

end CultureNodes.Engine

namespace CultureNodes.Scheduler

open Duration
open Engine (RunState Payload)

inductive ScheduleCatchUp where
  | fireOnce
  | skip
deriving DecidableEq, Repr

/-- A declared interval, a positive whole number of seconds. -/
structure Interval where
  seconds : Nat
  positive : 0 < seconds
  fits : seconds * 1000000000 < 9223372036854775808
deriving DecidableEq, Repr

def Interval.nanos (interval : Interval) : Int := interval.seconds * second

/-- A row of `schedules`. -/
structure Schedule where
  name : String
  eventName : String
  emitter : String
  payload : Payload := "{}"
  interval : Interval
  catchUp : ScheduleCatchUp := .fireOnce
  enabled : Bool := true
  nextFireAt : Int
  lastFiredAt : Option Int := none
  lastEventID : Option Nat := none
  fireCount : Nat := 0
  skipCount : Nat := 0
  suppressedCount : Nat := 0
  consecutiveFailures : Nat := 0
  lastFailureDetail : String := ""
  lastAssessedRunID : Option Nat := none
  failureTaskID : Option Nat := none
deriving DecidableEq, Repr

/-- What an operator declares; a policy that is not given is the default. -/
structure CreateScheduleInput where
  name : String
  eventName : String
  emitter : String := ""
  payload : Payload := ""
  interval : Int
  isDuration : interval < 9223372036854775808
  catchUp : String := ""
  disabled : Bool := false
  firstFireAt : Option Int := none

def parseCatchUp (policy : String) : Except String ScheduleCatchUp :=
  if policy = "" ∨ policy = "fire-once" then .ok .fireOnce
  else if policy = "skip" then .ok .skip
  else
    .error ("postgres: CreateSchedule: unknown catch-up policy " ++ Compiler.quoted policy ++
      " (want \"fire-once\" or \"skip\")")

/-- `CreateSchedule` in one namespace. -/
def createSchedule (input : CreateScheduleInput) (now : Int) : Except String Schedule :=
  if input.name = "" then .error "postgres: CreateSchedule: name is required"
  else if input.eventName = "" then .error "postgres: CreateSchedule: eventName is required"
  else if positive : input.interval ≤ 0 then
    .error "postgres: CreateSchedule: interval must be positive"
  else if whole : input.interval % 1000000000 ≠ 0 then
    .error "postgres: CreateSchedule: interval must be a whole number of seconds"
  else
    match parseCatchUp input.catchUp with
    | .error reason => .error reason
    | .ok catchUp =>
        .ok {
          name := input.name
          eventName := input.eventName
          emitter := if input.emitter = "" then "schedule:" ++ input.name else input.emitter
          payload := if input.payload = "" then "{}" else input.payload
          interval := {
            seconds := (input.interval / 1000000000).toNat
            positive := by omega
            fits := by have := input.isDuration; omega }
          catchUp := catchUp
          enabled := !input.disabled
          nextFireAt := stored (input.firstFireAt.getD (now + input.interval)) }

/-- The columns of a run that an assessment reads; the last two are of its last attempt, and empty
where that has none. -/
structure ScheduledRun where
  id : Nat
  triggerEvent : Nat
  status : RunState := .running
  completedAt : Option Int := none
  errorDetail : String := ""
  attemptStatus : String := ""
deriving DecidableEq, Repr

namespace ScheduledRun

variable (run : ScheduledRun)

/-- The reason of a failure: the error the last attempt reported, its status, or the run's own. -/
def detail : String :=
  if run.errorDetail ≠ "" then run.errorDetail
  else if run.attemptStatus ≠ "" then run.attemptStatus
  else run.status.text

def ended : Bool := run.completedAt.isSome

def order : Int ×ₗ Nat := toLex (run.completedAt.getD 0, run.id)

end ScheduledRun

/-- A `schedule_failing` human task. -/
structure FailingTask where
  id : Nat
  run : Nat
  reason : String
  consecutiveFailures : Nat
  pending : Bool := true
deriving DecidableEq, Repr

/-- The schedule's row, which its deletion removes, the runs of its events in the order of their mint
and the questions asked about it. -/
structure ScheduleDb where
  schedule : Option Schedule
  runs : List ScheduledRun := []
  tasks : List FailingTask := []
  skipped : List Int := []
  nextID : Nat := 0
deriving DecidableEq, Repr

/-- `scheduleOutcomeSQL`: of the runs of one event that have ended, the one that ended last. -/
def scheduleOutcome (event : Nat) (runs : List ScheduledRun) : Option ScheduledRun :=
  (runs.filter fun run => run.triggerEvent = event && run.ended).argmax ScheduledRun.order

def defaultScheduleProbeInterval : Int := 1800 * second

def defaultSweepFailureAlertAfter : Int := 3

def scheduleSuppressAfter : Nat := 2

/-- A zero or negative probe interval selects the default; a zero `alertAfter` does, and a negative
one asks nobody. -/
structure FireScheduleInput where
  now : Int
  probeInterval : Int := 0
  alertAfter : Int := 0
deriving DecidableEq, Repr

namespace Schedule

variable (sc : Schedule)

/-- Fold the outcome of a run into the streak. -/
def fold (run : ScheduledRun) : Schedule :=
  let counted :=
    if run.status = .completed then { sc with consecutiveFailures := 0, lastFailureDetail := "" }
    else if run.detail = sc.lastFailureDetail then
      { sc with consecutiveFailures := sc.consecutiveFailures + 1 }
    else { sc with consecutiveFailures := 1, lastFailureDetail := run.detail }
  { counted with lastAssessedRunID := some run.id }

def unassessed (runs : List ScheduledRun) : Option ScheduledRun :=
  match sc.lastEventID with
  | none => none
  | some event =>
      match scheduleOutcome event runs with
      | none => none
      | some run => if sc.lastAssessedRunID = some run.id then none else some run

/-- Whether the streak is long enough to ask, and no earlier question waits for its answer. -/
def asks (alertAfter : Int) (tasks : List FailingTask) : Bool :=
  decide (0 ≤ alertAfter) &&
    decide ((if alertAfter = 0 then defaultSweepFailureAlertAfter else alertAfter) ≤
      sc.consecutiveFailures) &&
    !tasks.any fun task => some task.id = sc.failureTaskID && task.pending

/-- `assessScheduleOutcomeTx`: the schedule after it, and the task it raised. -/
def assess (runs : List ScheduledRun) (tasks : List FailingTask) (alertAfter : Int) (taskID : Nat) :
    Schedule × Option FailingTask :=
  match sc.unassessed runs with
  | none => (sc, none)
  | some run =>
      let folded := sc.fold run
      if folded.asks alertAfter tasks then
        ({ folded with failureTaskID := some taskID },
          some { id := taskID, run := run.id, reason := folded.lastFailureDetail,
                 consecutiveFailures := folded.consecutiveFailures })
      else (folded, none)

def scheduleIsSuppressed (probeInterval now : Int) : Bool :=
  if sc.consecutiveFailures < scheduleSuppressAfter then false
  else
    match sc.lastFiredAt with
    | none => false
    | some firedAt =>
        decide (between now firedAt <
          if probeInterval ≤ 0 then defaultScheduleProbeInterval else probeInterval)

/-- The whole intervals that have passed since the due instant. -/
def missed (now : Int) : Int := (between now sc.nextFireAt).tdiv sc.interval.nanos

end Schedule

def advanceCadence (due interval now : Int) : Int :=
  if interval ≤ 0 then now + second
  else
    let steps := wrap ((between now due).tdiv interval + 1)
    due + wrap (steps * interval)

/-- What a due occurrence comes to. -/
inductive Occurrence where
  | suppressed
  | skipped
  | fired
deriving DecidableEq, Repr

namespace Schedule

variable (sc : Schedule)

def occurrence (input : FireScheduleInput) : Occurrence :=
  if sc.scheduleIsSuppressed input.probeInterval input.now then .suppressed
  else if sc.catchUp = .skip ∧ 0 < sc.missed input.now then .skipped
  else .fired

/-- Where the cadence goes on after the occurrence that is due. -/
def next (now : Int) : Int := advanceCadence sc.nextFireAt sc.interval.nanos now

/-- The row after its due occurrence is spent; `event` is the fact a fire appends. -/
def spend (input : FireScheduleInput) (event : Nat) : Schedule :=
  let moved := { sc with nextFireAt := stored (sc.next input.now) }
  match sc.occurrence input with
  | .suppressed => { moved with suppressedCount := sc.suppressedCount + 1 }
  | .skipped => { moved with skipCount := sc.skipCount + 1 }
  | .fired =>
      { moved with
        lastFiredAt := some (stored input.now)
        lastEventID := some event
        fireCount := sc.fireCount + 1 }

end Schedule

/-- A `FireSchedule` call that holds the row's lock: what it read under the lock, and after its
assessment the row it goes on with, the task that raised and the runs the assessment read. -/
structure Call where
  input : FireScheduleInput
  row : Schedule
  began : List ScheduledRun
  assessed : Option (Schedule × Option FailingTask × List ScheduledRun) := none
deriving DecidableEq, Repr

/-- An occurrence that was spent, with the clock reading it was spent at. -/
structure Spent where
  due : Int
  now : Int
deriving DecidableEq, Repr

/-- The committed rows and the call in flight: a second call finds the row locked and returns at once.
`spent` is no table; it records every occurrence that was spent, oldest first. -/
structure ScheduleWorld where
  db : ScheduleDb
  call : Option (Nat × Call) := none
  spent : List Spent := []
deriving DecidableEq, Repr

inductive ScheduleAction where
  | lockRow (scheduler : Nat) (input : FireScheduleInput)
  | assess (scheduler : Nat)
  | finish (scheduler : Nat) (minted : Nat)
  | abandon (scheduler : Nat)
  | setEnabled (enabled : Bool)
  | delete
  | terminate (run : Nat) (status : RunState) (at_ : Int) (errorDetail attemptStatus : String)
  | decideTask (task : Nat)
deriving DecidableEq, Repr

namespace ScheduleDb

variable (db : ScheduleDb)

def mint (event count : Nat) : List ScheduledRun :=
  (List.range count).map fun index => { id := event + 1 + index, triggerEvent := event }

/-- The commit of a call that spends the due occurrence. -/
def spend (input : FireScheduleInput) (sc : Schedule) (task : Option FailingTask) (minted : Nat) :
    ScheduleDb :=
  let asked := { db with
    schedule := some (sc.spend input db.nextID), tasks := db.tasks ++ task.toList }
  match sc.occurrence input with
  | .suppressed => { asked with nextID := db.nextID + 1 }
  | .skipped =>
      { asked with skipped := db.skipped ++ [sc.missed input.now], nextID := db.nextID + 1 }
  | .fired =>
      { asked with runs := db.runs ++ mint db.nextID minted, nextID := db.nextID + 1 + minted }

/-- A run ends once. -/
def terminate (run : Nat) (status : RunState) (at_ : Int) (errorDetail attemptStatus : String) :
    ScheduleDb :=
  { db with
    runs := Table.update db.runs (fun row => row.id = run && !row.ended) fun row =>
      { row with status := status, completedAt := some at_, errorDetail := errorDetail,
                 attemptStatus := attemptStatus } }

end ScheduleDb

namespace ScheduleWorld

variable (world : ScheduleWorld)

/-- A call that finds the row locked, gone, disabled or not due yet does nothing. What a call has
written is not seen before it commits, and a call that fails leaves the row as it was. -/
def act : ScheduleAction → Option ScheduleWorld
  | .lockRow scheduler input =>
      match world.call, world.db.schedule with
      | none, some row =>
          if !row.enabled ∨ input.now < row.nextFireAt then none
          else some { world with call := some (scheduler, ⟨input, row, world.db.runs, none⟩) }
      | _, _ => none
  | .assess scheduler =>
      match world.call with
      | some (holder, ⟨input, row, began, none⟩) =>
          if holder ≠ scheduler then none
          else
            let assessed := row.assess world.db.runs world.db.tasks input.alertAfter world.db.nextID
            some { world with
              db := { world.db with nextID := world.db.nextID + 1 }
              call := some (holder, ⟨input, row, began, some (assessed.1, assessed.2, world.db.runs)⟩) }
      | _ => none
  | .finish scheduler minted =>
      match world.call with
      | some (holder, ⟨input, row, _, some (sc, task, _)⟩) =>
          if holder ≠ scheduler then none
          else some {
            db := world.db.spend input sc task minted
            call := none
            spent := world.spent ++ [⟨row.nextFireAt, input.now⟩] }
      | _ => none
  | .abandon scheduler =>
      match world.call with
      | some (holder, _) => if holder ≠ scheduler then none else some { world with call := none }
      | none => none
  | .setEnabled enabled =>
      match world.call, world.db.schedule with
      | none, some row =>
          some { world with db := { world.db with schedule := some { row with enabled := enabled } } }
      | _, _ => none
  | .delete =>
      match world.call with
      | none => some { world with db := { world.db with schedule := none } }
      | some _ => none
  | .terminate run status at_ errorDetail attemptStatus =>
      if status.terminal then
        some { world with db := world.db.terminate run status at_ errorDetail attemptStatus }
      else none
  | .decideTask task =>
      some { world with db := { world.db with
        tasks := Table.update world.db.tasks (·.id = task) fun row => { row with pending := false } } }

def step (world : ScheduleWorld) (action : ScheduleAction) (next : ScheduleWorld) : Prop :=
  world.act action = some next

def declared (row : Schedule) : ScheduleWorld where
  db := { schedule := some row }

end ScheduleWorld

end CultureNodes.Scheduler
