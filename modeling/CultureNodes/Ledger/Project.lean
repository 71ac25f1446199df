import CultureNodes.Library.Fallible
import CultureNodes.Ledger.Projection

/-!
The nine standard projections of a set of records. A projection reads the live records in the order of
their ids, so what it answers does not depend on the order the store listed them in. The digest over a
projection's canonical form is a parameter.
-/

namespace CultureNodes.Ledger

inductive ProjectionKind where
  | currentScope
  | confirmedClaims
  | openAssumptions
  | readyTasks
  | activeTasks
  | verificationQ
  | decisionHistory
  | evidenceFor
  | deliverySummary
  | other (text : String)
deriving DecidableEq, Repr

def ProjectionKind.text : ProjectionKind → String
  | .currentScope => "current_scope"
  | .confirmedClaims => "confirmed_claims"
  | .openAssumptions => "open_assumptions_and_questions"
  | .readyTasks => "ready_tasks"
  | .activeTasks => "active_tasks"
  | .verificationQ => "verification_queue"
  | .decisionHistory => "decision_history"
  | .evidenceFor => "evidence_for_subject"
  | .deliverySummary => "delivery_summary"
  | .other text => text

structure Projection where
  kind : ProjectionKind
  subject : String := ""
  items : List Record
  summary : Option DeliveryCounts := none
  digest : String := ""

/-- The records that some record of the list names as the one it replaces. -/
def superseded (records : List Record) : List Record :=
  orderByID
    (records.filter fun rec => records.any fun other => other.supersedes ≠ "" && other.supersedes = rec.id)

/-- What the decoder calls a value that is no object. -/
def jsonKind : Json → String
  | .null => "null"
  | .bool _ => "bool"
  | .number _ => "number"
  | .string _ => "string"
  | .array _ => "array"
  | .object _ => "object"

/-- The members of the payload, or the error that names the record. -/
def Record.decode (rec : Record) : Except String (List (String × Json)) :=
  match rec.dataMap with
  | some data => .ok data
  | none =>
      .error ("ledger: decode data of record " ++ rec.id ++ ": json: cannot unmarshal " ++
        jsonKind (rec.data.getD .null) ++ " into Go value of type map[string]interface \x7b\x7d")

/-- The records a loop keeps; the first record that cannot be judged ends it. -/
def select (keep : Record → Except String Bool) : List Record → Except String (List Record)
  | [] => .ok []
  | rec :: rest =>
      match keep rec with
      | .error cause => .error cause
      | .ok kept => (select keep rest).map fun more => if kept then rec :: more else more

def selectType (records : List Record) (recordType : RecordType) : List Record :=
  orderByID (records.filter fun rec => rec.recordType = recordType)

def questionIsAnswered (rec : Record) : Except String Bool :=
  rec.decode.map fun data => dataString data "answer" ≠ ""

/-- An assumption or question no review has decided, and a question only while it has no answer. -/
def isOpen (decisions : String → Option Authority) (rec : Record) : Except String Bool :=
  if rec.recordType ≠ .assumption ∧ rec.recordType ≠ .question then .ok false
  else if (decisions rec.id).isSome then .ok false
  else if rec.recordType = .question then (questionIsAnswered rec).map fun answered => !answered
  else .ok true

def hasStatus (statuses : List String) (rec : Record) : Except String Bool :=
  if rec.recordType ≠ .task then .ok false
  else rec.decode.map fun data => dataString data "status" ∈ statuses

def tasksWithStatus (records : List Record) (statuses : List String) : Except String (List Record) :=
  (select (hasStatus statuses) (live records)).map orderByID

/-- A completed task that is neither verified nor rejected, or a result that no review has decided. -/
def awaitsVerification (decisions : String → Option Authority) (rec : Record) : Except String Bool :=
  match rec.recordType with
  | .task =>
      rec.decode.map fun data =>
        dataString data "status" = "completed" && dataString data "assurance_state" ≠ "verified" &&
          dataString data "assurance_state" ≠ "rejected"
  | .result => .ok (decisions rec.id).isNone
  | _ => .ok false

/-- Evidence on a reference: about it, or naming it in its provenance. Any evidence bears on no
reference. -/
def isEvidenceFor (ref : String) (rec : Record) : Bool :=
  rec.recordType = .evidence && (ref = "" || rec.subjectRef = ref || ref ∈ rec.provenanceRefs)

def countRecord (decisions : String → Option Authority) (summary : DeliveryCounts) (rec : Record) :
    Except String DeliveryCounts :=
  match rec.decode with
  | .error cause => .error cause
  | .ok _ => .ok ((summarizeRecord decisions summary rec).getD summary)

def countRecords (decisions : String → Option Authority) :
    DeliveryCounts → List Record → Except String DeliveryCounts
  | summary, [] => .ok summary
  | summary, rec :: rest =>
      match countRecord decisions summary rec with
      | .error cause => .error cause
      | .ok next => countRecords decisions next rest

namespace Projection

variable (digestValue : Projection → Except String String)

/-- The digest covers every field but itself. -/
def computeDigest (p : Projection) : Except String String :=
  match digestValue { p with digest := "" } with
  | .ok digest => .ok digest
  | .error cause => .error ("ledger: digest " ++ p.kind.text ++ " projection: " ++ cause)

def finish (p : Projection) : Except String Projection :=
  (computeDigest digestValue p).map fun digest => { p with digest := digest }

def finishItems (kind : ProjectionKind) (items : Except String (List Record)) :
    Except String Projection :=
  match items with
  | .error cause => .error cause
  | .ok selected => finish digestValue { kind := kind, items := selected }

def currentScope (records : List Record) : Except String Projection :=
  finish digestValue { kind := .currentScope, items := selectType (live records) .announcement }

def confirmedClaims (records : List Record) : Except String Projection :=
  finish digestValue { kind := .confirmedClaims, items := Ledger.confirmedClaims records }

def openAssumptionsAndQuestions (records : List Record) : Except String Projection :=
  finishItems digestValue .openAssumptions
    ((select (isOpen (reviewDecisions (live records))) (live records)).map orderByID)

def readyTasks (records : List Record) : Except String Projection :=
  finishItems digestValue .readyTasks (tasksWithStatus records ["ready"])

def activeTasks (records : List Record) : Except String Projection :=
  finishItems digestValue .activeTasks (tasksWithStatus records ["claimed", "running"])

def verificationQueue (records : List Record) : Except String Projection :=
  finishItems digestValue .verificationQ
    ((select (awaitsVerification (reviewDecisions (live records))) (live records)).map orderByID)

def decisionHistory (records : List Record) : Except String Projection :=
  finish digestValue { kind := .decisionHistory, items := selectType (live records) .decision }

def evidenceForSubject (records : List Record) (ref : String) : Except String Projection :=
  finish digestValue
    { kind := .evidenceFor, subject := ref, items := orderByID ((live records).filter (isEvidenceFor ref)) }

def deliverySummary (records : List Record) : Except String Projection :=
  match countRecords (reviewDecisions (live records))
      { runID := singleRunID records
        liveRecords := (live records).length
        supersededRecords := records.length - (live records).length } (live records) with
  | .error cause => .error cause
  | .ok counts => finish digestValue { kind := .deliverySummary, items := [], summary := some counts }

def project (records : List Record) (kind : ProjectionKind) (subject : String) :
    Except String Projection :=
  match kind with
  | .currentScope => currentScope digestValue records
  | .confirmedClaims => confirmedClaims digestValue records
  | .openAssumptions => openAssumptionsAndQuestions digestValue records
  | .readyTasks => readyTasks digestValue records
  | .activeTasks => activeTasks digestValue records
  | .verificationQ => verificationQueue digestValue records
  | .decisionHistory => decisionHistory digestValue records
  | .evidenceFor => evidenceForSubject digestValue records subject
  | .deliverySummary => deliverySummary digestValue records
  | .other text => .error ("ledger: unknown projection " ++ Compiler.quoteText text)

end Projection

section Order

variable {records shuffled : List Record}

theorem orderByID_of_perm (distinct : (records.map Record.id).Nodup) (same : shuffled.Perm records) :
    orderByID shuffled = orderByID records := by
  have sameIDs : ((orderByID records).map Record.id).Perm (records.map Record.id) :=
    (orderByID_perm records).map Record.id
  apply eq_of_sorted (sameIDs.nodup_iff.mpr distinct)
  · exact (orderByID_perm shuffled).trans (same.trans (orderByID_perm records).symm)
  · exact orderByID_sorted records
  · exact orderByID_sorted shuffled

theorem any_of_perm (same : shuffled.Perm records) (test : Record → Bool) :
    shuffled.any test = records.any test := by
  rw [Bool.eq_iff_iff, List.any_eq_true, List.any_eq_true]
  simp only [same.mem_iff]

theorem orderByID_filter_of_perm {keep keepToo : Record → Bool}
    (distinct : (records.map Record.id).Nodup) (same : shuffled.Perm records)
    (agree : ∀ rec, keepToo rec = keep rec) :
    orderByID (shuffled.filter keepToo) = orderByID (records.filter keep) := by
  have agreed : keepToo = keep := funext agree
  rw [agreed]
  apply orderByID_of_perm
  · exact (List.filter_sublist.map Record.id).nodup distinct
  · exact same.filter keep

theorem live_of_perm (distinct : (records.map Record.id).Nodup) (same : shuffled.Perm records) :
    live shuffled = live records := by
  apply orderByID_filter_of_perm distinct same
  intro rec
  rw [any_of_perm same]

theorem superseded_of_perm (distinct : (records.map Record.id).Nodup) (same : shuffled.Perm records) :
    superseded shuffled = superseded records := by
  apply orderByID_filter_of_perm distinct same
  intro rec
  exact any_of_perm same _

theorem singleRunID_of_perm (same : shuffled.Perm records) :
    singleRunID shuffled = singleRunID records := by
  have sameRuns := (same.map Record.runID).filter fun runID => runID ≠ ""
  simp only [singleRunID]
  generalize (shuffled.map Record.runID).filter _ = left at sameRuns ⊢
  generalize (records.map Record.runID).filter _ = right at sameRuns ⊢
  cases left with
  | nil => rw [List.nil_perm.mp sameRuns]
  | cons first rest =>
      cases right with
      | nil => exact absurd sameRuns.symm (List.nil_perm.not.mpr (List.cons_ne_nil first rest))
      | cons firstToo restToo =>
          have named (list : List String) (head : String) : (list.all fun other => other = head) = true ↔
              ∀ runID ∈ head :: list, runID = head := by
            simp [List.all_eq_true]
          dsimp only
          by_cases one : ∀ runID ∈ first :: rest, runID = first
          · have isFirst : firstToo = first := one firstToo (sameRuns.mem_iff.mpr List.mem_cons_self)
            subst isFirst
            have oneToo : ∀ runID ∈ firstToo :: restToo, runID = firstToo := by
              intro runID listed
              exact one runID (sameRuns.mem_iff.mpr listed)
            rw [if_pos ((named rest firstToo).mpr one), if_pos ((named restToo firstToo).mpr oneToo)]
          · have notOneToo : ¬ ∀ runID ∈ firstToo :: restToo, runID = firstToo := by
              intro oneToo
              apply one
              intro runID listed
              have isToo := oneToo runID (sameRuns.mem_iff.mp listed)
              have firstIsToo := oneToo first (sameRuns.mem_iff.mp List.mem_cons_self)
              rw [isToo, firstIsToo]
            rw [if_neg ((named rest first).not.mpr one), if_neg ((named restToo firstToo).not.mpr notOneToo)]

theorem live_append_superseded (records : List Record) :
    (live records ++ superseded records).Perm records := by
  have split := List.filter_append_perm
    (fun rec => !records.any fun other => other.supersedes ≠ "" && other.supersedes = rec.id) records
  simp only [Bool.not_not] at split
  exact ((orderByID_perm _).append (orderByID_perm _)).trans split

theorem project_congr (digestValue : Projection → Except String String)
    (sameLive : live shuffled = live records) (sameLength : shuffled.length = records.length)
    (sameRun : singleRunID shuffled = singleRunID records) (kind : ProjectionKind) (subject : String) :
    Projection.project digestValue shuffled kind subject =
      Projection.project digestValue records kind subject := by
  cases kind with
  | currentScope => simp only [Projection.project, Projection.currentScope, sameLive]
  | confirmedClaims =>
      simp only [Projection.project, Projection.confirmedClaims, confirmedClaims, sameLive]
  | openAssumptions =>
      simp only [Projection.project, Projection.openAssumptionsAndQuestions, sameLive]
  | readyTasks => simp only [Projection.project, Projection.readyTasks, tasksWithStatus, sameLive]
  | activeTasks => simp only [Projection.project, Projection.activeTasks, tasksWithStatus, sameLive]
  | verificationQ => simp only [Projection.project, Projection.verificationQueue, sameLive]
  | decisionHistory => simp only [Projection.project, Projection.decisionHistory, sameLive]
  | evidenceFor => simp only [Projection.project, Projection.evidenceForSubject, sameLive]
  | deliverySummary =>
      simp only [Projection.project, Projection.deliverySummary, sameLive, sameLength, sameRun]
  | other text => rfl

end Order

section Counts

variable {decisions : String → Option Authority} {summary counted : DeliveryCounts} {rec : Record}

/-- A measure of the summary that grows by one with the records a test keeps. -/
def Counts (decisions : String → Option Authority) (measure : DeliveryCounts → Nat)
    (keep : Record → Except String Bool) : Prop :=
  ∀ summary rec next, countRecord decisions summary rec = .ok next →
    ∃ kept, keep rec = .ok kept ∧ measure next = measure summary + kept.toNat

theorem Counts.records {measure : DeliveryCounts → Nat} {keep : Record → Except String Bool}
    (counts : Counts decisions measure keep) :
    ∀ (records : List Record) (summary : DeliveryCounts),
      countRecords decisions summary records = .ok counted →
        ∃ items, select keep records = .ok items ∧ measure counted = measure summary + items.length := by
  intro records
  induction records with
  | nil =>
      intro summary ran
      simp only [countRecords, Except.ok.injEq] at ran
      exact ⟨[], rfl, by rw [ran]; rfl⟩
  | cons rec rest ih =>
      intro summary ran
      simp only [countRecords] at ran
      cases stepped : countRecord decisions summary rec with
      | error cause => simp [stepped] at ran
      | ok next =>
          simp only [stepped] at ran
          obtain ⟨kept, judged, grew⟩ := counts summary rec next stepped
          obtain ⟨items, selected, total⟩ := ih next ran
          refine ⟨if kept then rec :: items else items, ?_, ?_⟩
          · simp only [select, judged, selected, Except.map]
          · cases kept with
            | false => simpa [grew] using total
            | true =>
                simp only [grew, Bool.toNat_true] at total
                simp only [if_true, List.length_cons]
                omega

/-- A record the summary takes decodes, and changes it as `summarizeRecord` says. -/
theorem countRecord_ok {next : DeliveryCounts} (counted : countRecord decisions summary rec = .ok next) :
    ∃ data, rec.dataMap = some data ∧ summarizeRecord decisions summary rec = some next := by
  simp only [countRecord, Record.decode] at counted
  cases decoded : rec.dataMap with
  | none => simp [decoded] at counted
  | some data =>
      simp only [decoded, Except.ok.injEq] at counted
      refine ⟨data, rfl, ?_⟩
      rw [← counted]
      simp [summarizeRecord, decoded]

theorem select_pure (keep : Record → Bool) (records : List Record) :
    select (fun rec => .ok (keep rec)) records = .ok (records.filter keep) := by
  induction records with
  | nil => rfl
  | cons rec rest ih =>
      simp only [select, ih, Except.map, List.filter_cons]

theorem counts_confirmed (decisions : String → Option Authority) :
    Counts decisions DeliveryCounts.confirmedClaims fun rec =>
      .ok (rec.recordType = .claim && decisions rec.id = some .confirmed) := by
  intro summary rec next counted
  obtain ⟨data, decoded, changed⟩ := countRecord_ok counted
  refine ⟨_, rfl, ?_⟩
  simp only [summarizeRecord, decoded, Option.map_some, Option.some.injEq] at changed
  rw [← changed]
  cases typed : rec.recordType with
  | claim =>
      cases decided : decisions rec.id with
      | none => simp
      | some authority => cases authority <;> simp
  | assumption => cases (decisions rec.id).isSome <;> simp
  | question => simp only; split <;> simp
  | result => cases (decisions rec.id).isSome <;> simp
  | _ => simp [summarizeTask]

theorem counts_open (decisions : String → Option Authority) :
    Counts decisions (fun counts => counts.openAssumptions + counts.openQuestions) (isOpen decisions) := by
  intro summary rec next counted
  obtain ⟨data, decoded, changed⟩ := countRecord_ok counted
  simp only [summarizeRecord, decoded, Option.map_some, Option.some.injEq] at changed
  rw [← changed]
  cases typed : rec.recordType with
  | assumption =>
      cases decided : (decisions rec.id).isSome with
      | true => exact ⟨false, by simp [isOpen, typed, decided], by simp⟩
      | false =>
          refine ⟨true, by simp [isOpen, typed, decided], ?_⟩
          simp only [Bool.false_eq_true, if_false, Bool.toNat_true]
          omega
  | question =>
      cases decided : (decisions rec.id).isSome with
      | true => exact ⟨false, by simp [isOpen, typed, decided], by simp⟩
      | false =>
          by_cases answered : dataString data "answer" = ""
          · refine ⟨true, ?_, ?_⟩
            · simp [isOpen, typed, decided, questionIsAnswered, Record.decode, decoded, Except.map, answered]
            · simp only [answered, Bool.false_eq_true, ne_eq, not_true_eq_false, or_self, if_false,
                Bool.toNat_true]
              omega
          · refine ⟨false, ?_, ?_⟩
            · simp [isOpen, typed, decided, questionIsAnswered, Record.decode, decoded, Except.map, answered]
            · simp [answered]
  | claim =>
      refine ⟨false, by simp [isOpen, typed], ?_⟩
      cases decided : decisions rec.id with
      | none => simp
      | some authority => cases authority <;> simp
  | result =>
      refine ⟨false, by simp [isOpen, typed], ?_⟩
      cases (decisions rec.id).isSome <;> simp
  | _ => exact ⟨false, by simp [isOpen, typed], by simp [summarizeTask]⟩

theorem counts_evidence (decisions : String → Option Authority) :
    Counts decisions DeliveryCounts.evidenceRecords fun rec => .ok (isEvidenceFor "" rec) := by
  intro summary rec next counted
  obtain ⟨data, decoded, changed⟩ := countRecord_ok counted
  refine ⟨_, rfl, ?_⟩
  simp only [summarizeRecord, decoded, Option.map_some, Option.some.injEq] at changed
  rw [← changed]
  cases typed : rec.recordType with
  | claim =>
      cases decided : decisions rec.id with
      | none => simp [isEvidenceFor, typed]
      | some authority => cases authority <;> simp [isEvidenceFor, typed]
  | assumption => cases (decisions rec.id).isSome <;> simp [isEvidenceFor, typed]
  | question => simp only; split <;> simp [isEvidenceFor, typed]
  | result => cases (decisions rec.id).isSome <;> simp [isEvidenceFor, typed]
  | _ => simp [summarizeTask, isEvidenceFor, typed]

end Counts

/-- The outcome finishes a projection of so many items: it fails only where the digest does. -/
def FinishesWith (digestValue : Projection → Except String String) (size : Nat)
    (outcome : Except String Projection) : Prop :=
  ∃ p : Projection, p.items.length = size ∧ outcome = Projection.finish digestValue p

/-- What a delivery summary counts is what the projections of the same records list. -/
structure Agrees (digestValue : Projection → Except String String) (records : List Record)
    (counts : DeliveryCounts) : Prop where
  confirmed :
    FinishesWith digestValue counts.confirmedClaims (Projection.confirmedClaims digestValue records)
  opened :
    FinishesWith digestValue (counts.openAssumptions + counts.openQuestions)
      (Projection.openAssumptionsAndQuestions digestValue records)
  evidence :
    FinishesWith digestValue counts.evidenceRecords (Projection.evidenceForSubject digestValue records "")

theorem deliverySummary_ok {digestValue : Projection → Except String String} {records : List Record}
    {out : Projection} (returned : Projection.deliverySummary digestValue records = .ok out) :
    ∃ counts, out.summary = some counts ∧
      countRecords (reviewDecisions (live records))
        { runID := singleRunID records
          liveRecords := (live records).length
          supersededRecords := records.length - (live records).length } (live records) = .ok counts := by
  simp only [Projection.deliverySummary] at returned
  split at returned
  · contradiction
  · rename_i counts ran
    obtain ⟨digest, _, rfl⟩ := map_eq_ok returned
    exact ⟨counts, rfl, ran⟩

/-- Counting with the errors of decoding left out. -/
theorem countRecords_toOption (decisions : String → Option Authority) (summary : DeliveryCounts)
    (records : List Record) :
    (countRecords decisions summary records).toOption = records.foldlM (summarizeRecord decisions) summary := by
  induction records generalizing summary with
  | nil => rfl
  | cons rec rest ih =>
      rw [List.foldlM_cons, countRecords, countRecord, Record.decode]
      cases decoded : rec.dataMap with
      | none =>
          rw [summarizeRecord, decoded]
          rfl
      | some data =>
          have counted : summarizeRecord decisions summary rec =
              some ((summarizeRecord decisions summary rec).getD summary) := by
            rw [summarizeRecord, decoded]
            rfl
          dsimp only
          rw [ih, counted]
          rfl

theorem summary_of_deliverySummary {digestValue : Projection → Except String String} {records : List Record}
    {out : Projection} (returned : Projection.deliverySummary digestValue records = .ok out) :
    out.summary = deliverySummary records := by
  obtain ⟨counts, summarized, ran⟩ := deliverySummary_ok returned
  rw [summarized, deliverySummary, summarize, ← countRecords_toOption, ran]
  rfl

theorem agrees_of_summary {digestValue : Projection → Except String String} {records : List Record}
    {counts : DeliveryCounts}
    (ran : countRecords (reviewDecisions (live records))
      { runID := singleRunID records
        liveRecords := (live records).length
        supersededRecords := records.length - (live records).length } (live records) = .ok counts) :
    Agrees digestValue records counts where
  confirmed := by
    obtain ⟨items, selected, total⟩ := (counts_confirmed _).records _ _ ran
    rw [select_pure, Except.ok.injEq] at selected
    refine ⟨_, ?_, rfl⟩
    simp only [confirmedClaims, claimsConfirmed, (orderByID_perm _).length_eq, selected]
    simpa using total.symm
  opened := by
    obtain ⟨items, selected, total⟩ := (counts_open _).records _ _ ran
    refine ⟨{ kind := .openAssumptions, items := orderByID items }, ?_, ?_⟩
    · simpa [(orderByID_perm items).length_eq] using total.symm
    · simp only [Projection.openAssumptionsAndQuestions, selected, Except.map, Projection.finishItems]
  evidence := by
    obtain ⟨items, selected, total⟩ := (counts_evidence _).records _ _ ran
    rw [select_pure, Except.ok.injEq] at selected
    refine ⟨_, ?_, rfl⟩
    simp only [(orderByID_perm _).length_eq, selected]
    simpa using total.symm

/-- The projections of a set of records do not depend on the order it is listed in, what is live and
what is superseded make up the set, and the summary's counts are the sizes of the projections. -/
theorem projections_of_perm (digestValue : Projection → Except String String)
    {records shuffled : List Record} (distinct : (records.map Record.id).Nodup)
    (same : shuffled.Perm records) :
    (∀ kind subject, Projection.project digestValue shuffled kind subject =
      Projection.project digestValue records kind subject) ∧
    (live shuffled = live records ∧ superseded shuffled = superseded records ∧
      (live records ++ superseded records).Perm records ∧
      ∀ rec ∈ live records, rec ∉ superseded records) ∧
    ∀ out, Projection.deliverySummary digestValue records = .ok out →
      ∃ counts, out.summary = some counts ∧ Agrees digestValue records counts := by
  have sameLive := live_of_perm distinct same
  have apart : ((live records ++ superseded records).map Record.id).Nodup :=
    ((live_append_superseded records).map Record.id).nodup_iff.mpr distinct
  have nodup : (live records ++ superseded records).Nodup := List.Nodup.of_map Record.id apart
  refine ⟨?_, ⟨sameLive, superseded_of_perm distinct same, live_append_superseded records, ?_⟩, ?_⟩
  · exact project_congr digestValue sameLive same.length_eq (singleRunID_of_perm same)
  · intro rec isLive isSuperseded
    exact List.disjoint_of_nodup_append nodup isLive isSuperseded
  · intro out returned
    obtain ⟨counts, summarized, ran⟩ := deliverySummary_ok returned
    exact ⟨counts, summarized, agrees_of_summary ran⟩

/-- A question, and the record that replaces it with another one. -/
def question : Record :=
  { id := "ledger_1", recordType := .question, origin := { kind := .agent, actorID := "writer" } }

def rephrased : Record :=
  { id := "ledger_2", recordType := .question, origin := { kind := .agent, actorID := "writer" }
    supersedes := "ledger_1" }

def kindDigest (p : Projection) : Except String String :=
  .ok ("sha256:" ++ p.kind.text)

theorem projections_of_rephrased :
    Projection.project kindDigest [rephrased, question] .openAssumptions "" =
      Projection.project kindDigest [question, rephrased] .openAssumptions "" ∧
    ∃ out counts, Projection.deliverySummary kindDigest [question, rephrased] = .ok out ∧
      out.summary = some counts ∧ Agrees kindDigest [question, rephrased] counts := by
  have swapped : [rephrased, question].Perm [question, rephrased] := List.Perm.swap _ _ _
  have both := projections_of_perm kindDigest (by decide) swapped
  have returns : (Projection.deliverySummary kindDigest [question, rephrased]).isOk = true := by
    decide +kernel
  obtain ⟨out, returned⟩ := isOk_iff.mp returns
  obtain ⟨counts, summarized, agrees⟩ := both.2.2 out returned
  exact ⟨both.1 .openAssumptions "", out, counts, returned, summarized, agrees⟩

end CultureNodes.Ledger
