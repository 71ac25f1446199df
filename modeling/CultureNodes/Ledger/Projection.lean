import Mathlib.Data.List.Sort
import Mathlib.Data.String.Basic
import CultureNodes.Ledger.Tx

/-!
Projections of a run's records: what is live, what the reviews have decided, the confirmed claims and
the counts of a delivery summary. They are functions of the records alone, which they read in the order
of their ids.
-/

namespace CultureNodes.Ledger

/-- The records that no record of the list names as the one it replaces, as they come. -/
def unreplaced (records : List Record) : List Record :=
  records.filter fun rec => !records.any fun other => other.supersedes ≠ "" && other.supersedes = rec.id

def live (records : List Record) : List Record :=
  orderByID (unreplaced records)

/-- What the review records say of each record, the last of them where there are several. -/
def reviewDecisions (live : List Record) : String → Option Authority :=
  live.foldl
    (fun out rec =>
      if rec.recordType ≠ .review then out
      else if rec.subjectRef = "" then out
      else
        match rec.authority with
        | .confirmed | .rejected => Function.update out rec.subjectRef (some rec.authority)
        | _ => out)
    fun _ => none

def claimsConfirmed (decisions : String → Option Authority) (live : List Record) : List Record :=
  orderByID (live.filter fun rec => rec.recordType = .claim && decisions rec.id = some .confirmed)

def confirmedClaims (records : List Record) : List Record :=
  claimsConfirmed (reviewDecisions (live records)) (live records)

structure DeliveryCounts where
  runID : String
  liveRecords : Nat
  supersededRecords : Nat
  tasksByStatus : String → Nat := fun _ => 0
  tasksByAssurance : String → Nat := fun _ => 0
  completedUnverifiedTasks : Nat := 0
  confirmedClaims : Nat := 0
  rejectedClaims : Nat := 0
  undecidedClaims : Nat := 0
  openAssumptions : Nat := 0
  openQuestions : Nat := 0
  blockingOpenQuestions : Nat := 0
  evidenceRecords : Nat := 0
  evidenceByCompleteness : String → Nat := fun _ => 0
  resultsAwaitingReview : Nat := 0

/-- The run that every record with a run belongs to; empty when there are several. -/
def singleRunID (records : List Record) : String :=
  match (records.map Record.runID).filter fun runID => runID ≠ "" with
  | [] => ""
  | runID :: rest => if rest.all fun other => other = runID then runID else ""

def dataString (data : List (String × Json)) (key : String) : String :=
  ((Json.object data).text? key).getD ""

def dataBool (data : List (String × Json)) (key : String) : Bool :=
  match (Json.object data).member? key with
  | some (.bool value) => value
  | _ => false

def orUnstated (text : String) : String :=
  if text = "" then "unstated" else text

def countOne (counts : String → Nat) (key : String) : String → Nat :=
  Function.update counts key (counts key + 1)

def summarizeTask (summary : DeliveryCounts) (data : List (String × Json)) : DeliveryCounts :=
  let status := orUnstated (dataString data "status")
  let assurance := orUnstated (dataString data "assurance_state")
  { summary with
    tasksByStatus := countOne summary.tasksByStatus status
    tasksByAssurance := countOne summary.tasksByAssurance assurance
    completedUnverifiedTasks :=
      if status = "completed" ∧ assurance ≠ "verified" then summary.completedUnverifiedTasks + 1
      else summary.completedUnverifiedTasks }

/-- One live record in the summary; a payload that does not decode ends it. -/
def summarizeRecord (decisions : String → Option Authority) (summary : DeliveryCounts) (rec : Record) :
    Option DeliveryCounts :=
  rec.dataMap.map fun data =>
    match rec.recordType with
    | .task => summarizeTask summary data
    | .claim =>
        match decisions rec.id with
        | some .confirmed => { summary with confirmedClaims := summary.confirmedClaims + 1 }
        | some .rejected => { summary with rejectedClaims := summary.rejectedClaims + 1 }
        | _ => { summary with undecidedClaims := summary.undecidedClaims + 1 }
    | .assumption =>
        if (decisions rec.id).isSome then summary
        else { summary with openAssumptions := summary.openAssumptions + 1 }
    | .question =>
        if (decisions rec.id).isSome ∨ dataString data "answer" ≠ "" then summary
        else
          { summary with
            openQuestions := summary.openQuestions + 1
            blockingOpenQuestions :=
              if dataBool data "blocking" then summary.blockingOpenQuestions + 1
              else summary.blockingOpenQuestions }
    | .evidence =>
        { summary with
          evidenceRecords := summary.evidenceRecords + 1
          evidenceByCompleteness :=
            countOne summary.evidenceByCompleteness (orUnstated (dataString data "completeness")) }
    | .result =>
        if (decisions rec.id).isSome then summary
        else { summary with resultsAwaitingReview := summary.resultsAwaitingReview + 1 }
    | _ => summary

def summarize (decisions : String → Option Authority) (records : List Record) : Option DeliveryCounts :=
  (live records).foldlM (summarizeRecord decisions)
    { runID := singleRunID records
      liveRecords := (live records).length
      supersededRecords := records.length - (live records).length }

def deliverySummary (records : List Record) : Option DeliveryCounts :=
  summarize (reviewDecisions (live records)) records

def Record.decidesOn (target : String) (rec : Record) : Bool :=
  rec.recordType = .review && rec.subjectRef = target && target ≠ "" &&
    (rec.authority = .confirmed || rec.authority = .rejected)

/-- What the last of the live reviews of a target says, in the order they were committed in. -/
def lastDecision (records : List Record) (target : String) : Option Authority :=
  ((unreplaced records).filter (Record.decidesOn target)).getLast?.map Record.authority

variable {records more : List Record} {target : String}

theorem reviewDecisions_append (records : List Record) (rec : Record) (target : String) :
    reviewDecisions (records ++ [rec]) target =
      if rec.decidesOn target then some rec.authority else reviewDecisions records target := by
  simp only [reviewDecisions, List.foldl_append, List.foldl_cons, List.foldl_nil]
  by_cases reviews : rec.recordType = .review
  · by_cases named : rec.subjectRef = ""
    · rw [if_neg (not_not.mpr reviews), if_pos named, if_neg]
      simp only [Record.decidesOn, named]
      intro decides
      simp only [Bool.and_eq_true, decide_eq_true_eq] at decides
      exact decides.1.2 decides.1.1.2.symm
    · rw [if_neg (not_not.mpr reviews), if_neg named]
      by_cases isTarget : rec.subjectRef = target
      · subst isTarget
        cases claimed : rec.authority <;> simp [Record.decidesOn, reviews, named, claimed]
      · have elsewhere : rec.decidesOn target = false := by
          simp [Record.decidesOn, isTarget]
        rw [elsewhere]
        cases rec.authority <;> simp [Function.update_of_ne (Ne.symm isTarget)]
  · rw [if_pos reviews, if_neg]
    simp [Record.decidesOn, reviews]

theorem reviewDecisions_eq (records : List Record) (target : String) :
    reviewDecisions records target =
      (records.filter (Record.decidesOn target)).getLast?.map Record.authority := by
  induction records using List.reverseRecOn with
  | nil => rfl
  | append_singleton records rec ih =>
      rw [reviewDecisions_append, List.filter_append]
      by_cases decides : rec.decidesOn target = true
      · simp [decides]
      · simp [decides, ih]

theorem orderByID_perm (records : List Record) : (orderByID records).Perm records :=
  List.mergeSort_perm _ _

theorem orderByID_sorted (records : List Record) :
    (orderByID records).Pairwise fun left right => left.id ≤ right.id := by
  have sorted : (orderByID records).Pairwise fun left right => decide (left.id ≤ right.id) = true := by
    apply List.pairwise_mergeSort
    · intro first second third one two
      simp only [decide_eq_true_eq] at one two ⊢
      exact one.trans two
    · intro first second
      simp only [Bool.or_eq_true, decide_eq_true_eq]
      exact le_total first.id second.id
  simpa only [decide_eq_true_eq] using sorted

/-- Two lists of records in the order of their ids are one if they have the same records. -/
theorem eq_of_sorted (distinct : (records.map Record.id).Nodup) (same : more.Perm records)
    (sorted : records.Pairwise fun left right => left.id ≤ right.id)
    (sortedToo : more.Pairwise fun left right => left.id ≤ right.id) : more = records := by
  apply List.Perm.eq_of_pairwise _ sortedToo sorted same
  intro left right isLeft isRight one two
  exact List.inj_on_of_nodup_map distinct (same.mem_iff.mp isLeft) isRight (le_antisymm one two)

/-- The deciding reviews in the order of their ids depend only on which they are. -/
theorem filter_orderByID {other : List Record} {keep : Record → Bool}
    (distinct : ((records.filter keep).map Record.id).Nodup)
    (same : (other.filter keep).Perm (records.filter keep)) :
    (orderByID other).filter keep = (orderByID records).filter keep := by
  have perm (any : List Record) : ((orderByID any).filter keep).Perm (any.filter keep) :=
    (orderByID_perm any).filter keep
  have distinctToo : (((orderByID records).filter keep).map Record.id).Nodup :=
    ((perm records).map Record.id).nodup_iff.mpr distinct
  apply eq_of_sorted distinctToo
  · exact (perm other).trans (same.trans (perm records).symm)
  · exact (orderByID_sorted records).filter keep
  · exact (orderByID_sorted other).filter keep

/-- Where later reviews of a target have higher ids, the projections go by the last one. -/
theorem reviewDecisions_live
    (growing : ((unreplaced records).filter (Record.decidesOn target)).Pairwise fun left right =>
      left.id < right.id) :
    reviewDecisions (live records) target = lastDecision records target := by
  have distinct : (((unreplaced records).filter (Record.decidesOn target)).map Record.id).Nodup := by
    rw [List.Nodup, List.pairwise_map]
    exact growing.imp fun less => ne_of_lt less
  rw [reviewDecisions_eq, lastDecision, live]
  rw [eq_of_sorted distinct ((orderByID_perm _).filter _) (growing.imp fun less => le_of_lt less)
    ((orderByID_sorted _).filter _)]

end CultureNodes.Ledger
