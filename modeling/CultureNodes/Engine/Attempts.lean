import Mathlib.Data.Prod.Lex
import CultureNodes.Engine.Rows

/-!
The attempts table and the reconciliation of late callbacks. A completion records one row. A terminal
report that came too late is recorded as one more row, which names the row it corrects. Ids are drawn
in the order in which they are minted.
-/

namespace CultureNodes.Engine

open Compiler (quoted)

/-- A row of the attempts table. A correction carries the delivery of the report it records: the
protocol attempt and the callback event. -/
structure AttemptRow where
  id : Nat
  nodeRun : Nat
  number : Nat
  actor : Option String := none
  status : TechStatus
  fencingToken : Nat
  result : Option Payload := none
  startedAt : Option Nat := none
  completedAt : Nat
  supersedes : Option Nat := none
  delivery : Option (String × String) := none
deriving DecidableEq, Repr

namespace AttemptRow

variable (row : AttemptRow)

/-- Rows are read by the time they were completed at, then by id. -/
def order : Nat ×ₗ Nat := toLex (row.completedAt, row.id)

def isAt (nodeRuns : List NodeRun) (node : String) : Bool :=
  nodeRuns.any fun run => run.id = row.nodeRun && run.node = node

end AttemptRow

def latestOutput (nodeRuns : List NodeRun) (rows : List AttemptRow) (node : String) : Option Payload :=
  ((rows.filter fun row => row.status = .succeeded && row.isAt nodeRuns node).argmax
    AttemptRow.order).bind AttemptRow.result

/-- What `/nodes/<id>/output` resolves to inside an engine transaction. -/
def EngineQueries.nodeOutput (nodeRuns : List NodeRun) (rows : List AttemptRow) (node : String) :
    Option Payload := latestOutput nodeRuns rows node

/-- What it resolves to for a worker, outside one: the same statement. -/
def Worker.nodeOutput (nodeRuns : List NodeRun) (rows : List AttemptRow) (node : String) :
    Option Payload := latestOutput nodeRuns rows node

def nextNumber (rows : List AttemptRow) (nodeRun : Nat) : Nat :=
  ((rows.filter (·.nodeRun = nodeRun)).map AttemptRow.number).foldl max 0 + 1

/-- Of a durable invocation, what a late report of it is recorded with. -/
structure PendingInvocation where
  attemptID : String
  nodeRun : Nat
  fencingToken : Nat
  actorID : String := ""
deriving DecidableEq, Repr

/-- A terminal callback that may not complete its attempt any more. -/
structure LateReport where
  invocation : PendingInvocation
  eventID : String
  status : Option TechStatus := none
  output : Payload := ""
deriving DecidableEq, Repr

/-- The record a late report is answered with. -/
structure SupersedingAttempt where
  id : Nat
  number : Nat
  supersedes : Option Nat
deriving DecidableEq, Repr

def AttemptRow.superseding (row : AttemptRow) (supersedes : Option Nat) : SupersedingAttempt :=
  ⟨row.id, row.number, supersedes⟩

/-- How often a lost attempt number is minted again. -/
def recordSupersedingAttemptRetries : Nat := 3

def uniqueViolation (constraint : String) : String :=
  "postgres: RecordSupersedingAttempt: ERROR: duplicate key value violates unique constraint " ++
    quoted constraint ++ " (SQLSTATE 23505)"

def existingCorrection (superseded : Option AttemptRow) (rows : List AttemptRow) : Option AttemptRow :=
  match superseded with
  | none => none
  | some attempt => rows.find? fun row => row.supersedes = some attempt.id

namespace LateReport

variable (report : LateReport)

/-- The attempt a report corrects: the last one recorded under the claim of its dispatch. -/
def supersededCandidate (rows : List AttemptRow) : Option AttemptRow :=
  (rows.filter fun row => row.nodeRun = report.invocation.nodeRun &&
    row.fencingToken = report.invocation.fencingToken).argmax AttemptRow.number

def delivery : String × String := (report.invocation.attemptID, report.eventID)

def recordedStatus : TechStatus := report.status.getD .failed

def correction (superseded : Option AttemptRow) (rows : List AttemptRow) (id now : Nat) : AttemptRow where
  id := id
  nodeRun := report.invocation.nodeRun
  number := nextNumber rows report.invocation.nodeRun
  actor := if report.invocation.actorID = "" then none else some report.invocation.actorID
  status := report.recordedStatus
  fencingToken := report.invocation.fencingToken
  result := if report.output = "" then none else some report.output
  startedAt := some ((superseded.bind AttemptRow.startedAt).getD now)
  completedAt := now
  supersedes := superseded.map AttemptRow.id
  delivery := some report.delivery

/-- The row an earlier pass over the same delivery left. -/
def delivered (rows : List AttemptRow) : Option AttemptRow :=
  rows.find? fun row => row.delivery = some report.delivery

/-- `RecordSupersedingAttempt`. The attempt to correct is looked up in `seen`; the statement that
decides finds `rows`, after `raced` earlier ones have lost their number to another completion. -/
def recordSupersedingAttempt (seen rows : List AttemptRow) (id now raced : Nat) :
    Except String (SupersedingAttempt × List AttemptRow) :=
  if report.eventID = "" then
    .error "postgres: RecordSupersedingAttempt: a callback event id is required to record a late report idempotently"
  else if recordSupersedingAttemptRetries < raced then
    .error (uniqueViolation "attempts_node_run_attempt_number_key")
  else
    let superseded := report.supersededCandidate seen
    match report.delivered rows with
    | some row => .ok (row.superseding row.supersedes, rows)
    | none =>
        if rows.any (·.id = id) then .error (uniqueViolation "attempts_pkey")
        else
          match existingCorrection superseded rows with
          | some row => .ok (row.superseding (superseded.map AttemptRow.id), rows)
          | none =>
              let row := report.correction superseded rows id now
              .ok (row.superseding row.supersedes, rows ++ [row])

end LateReport

section

variable {nodeRuns started : List NodeRun} {rows later : List AttemptRow} {node : String}
  {row : AttemptRow}

/-- The attempt counts for a node's output. -/
def AttemptRow.answers (row : AttemptRow) (nodeRuns : List NodeRun) (node : String) : Bool :=
  row.status = .succeeded && row.isAt nodeRuns node

/-- An attempt under an id that is still free could be recorded as newer than every other that counts for the
node, and older than this one. -/
def AttemptRow.Shadows (row : AttemptRow) (nodeRuns : List NodeRun) (rows : List AttemptRow) (node : String) : Prop :=
  ∃ completedAt id, id ≠ row.id ∧ (∀ old ∈ rows, old.id ≠ id) ∧ toLex (completedAt, id) < row.order ∧
    ∀ old ∈ rows, old.answers nodeRuns node = true → old.order < toLex (completedAt, id)

end

namespace LateReport

variable (report : LateReport)

/-- The report moves no output: it is recorded already or its attempt is corrected already, or it does
not report success, or at its node a newer attempt succeeded, or it says what the node already said and no
attempt can be recorded between the two. -/
def Harmless (nodeRuns : List NodeRun) (seen rows : List AttemptRow) (id now : Nat) : Prop :=
  let superseded := report.supersededCandidate seen
  let row := report.correction superseded rows id now
  (report.delivered rows).isSome = true ∨ (existingCorrection superseded rows).isSome = true ∨
    report.recordedStatus ≠ .succeeded ∨
    ∀ node, row.isAt nodeRuns node = true →
      (∃ old ∈ rows, old.answers nodeRuns node = true ∧ row.order < old.order) ∨
        (latestOutput nodeRuns rows node = row.result ∧ ¬row.Shadows nodeRuns rows node)

variable {report} {nodeRuns : List NodeRun} {seen rows after : List AttemptRow} {id now raced : Nat}
  {answer : SupersedingAttempt}

theorem recordSupersedingAttempt_ok
    (recorded : report.recordSupersedingAttempt seen rows id now raced = .ok (answer, after)) :
    (after = rows ∧ ((report.delivered rows).isSome = true ∨
        (existingCorrection (report.supersededCandidate seen) rows).isSome = true)) ∨
      (after = rows ++ [report.correction (report.supersededCandidate seen) rows id now] ∧
        report.delivered rows = none ∧
        existingCorrection (report.supersededCandidate seen) rows = none ∧
        ∀ row ∈ rows, row.id ≠ id) := by
  unfold recordSupersedingAttempt at recorded
  split at recorded
  · contradiction
  · split at recorded
    · contradiction
    · dsimp only at recorded
      split at recorded
      · rename_i row found
        exact Or.inl ⟨(Prod.mk.inj (Except.ok.inj recorded)).2.symm, Or.inl (by simp [found])⟩
      · rename_i missing
        split at recorded
        · contradiction
        · rename_i fresh
          split at recorded
          · rename_i row found
            exact Or.inl ⟨(Prod.mk.inj (Except.ok.inj recorded)).2.symm, Or.inr (by simp [found])⟩
          · rename_i uncorrected
            refine Or.inr ⟨(Prod.mk.inj (Except.ok.inj recorded)).2.symm, missing, uncorrected, ?_⟩
            simpa using fresh

section

variable {row : AttemptRow} {node : String}

end

end LateReport

end CultureNodes.Engine
