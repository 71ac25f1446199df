import CultureNodes.Compiler.Graph
import CultureNodes.Repair.Route

/-!
The findings of a merge gate. A gate that ran says its exit code, one that measured nothing says why; the outcome
is computed over all of them and never taken from the caller.
-/

namespace CultureNodes.Handover

open Compiler (quoteText commaJoin)
open Repair (trimSpace)

inductive GateStatus where
  | passed
  | failed
  | notApplicable
deriving DecidableEq, Repr

def outcomeGatesPassed : String := "gates_passed"

def outcomeChangesRequired : String := "changes_required"

def outcomeMeasurementIncomplete : String := "measurement_incomplete"

def reasonInstrumentNotReachingTree : String := "instrument_not_reaching_tree"

def reasonNoTestInstrument : String := "no_test_instrument"

def reasonInstrumentUnavailable : String := "instrument_unavailable"

def reasonNoSourceFiles : String := "no_source_files"

def reasonNoTestsExecuted : String := "no_tests_executed"

/-- The reasons a gate may give, sorted, and whether one may leave the uncovered paths out. -/
def notApplicableReasons : List (String × Bool) :=
  [(reasonInstrumentNotReachingTree, false), (reasonInstrumentUnavailable, false), (reasonNoSourceFiles, true),
    (reasonNoTestInstrument, false), (reasonNoTestsExecuted, false)]

structure VerdictError where
  field : String
  detail : String
deriving DecidableEq, Repr

def VerdictError.text (error : VerdictError) : String :=
  "handover: " ++ String.ofList (Compiler.trimPrefix error.field.toList ['/']) ++ ": " ++ error.detail

def blank (text : String) : Bool := trimSpace text.toList = []

def hexDigit (char : Char) : Bool := char.isDigit || ('a' ≤ char && char ≤ 'f')

/-- `^[0-9a-f]{40}$` -/
def isCommit (sha : String) : Bool := sha.toList.length = 40 && sha.toList.all hexDigit

def quoteRune (char : Char) : String := "'" ++ String.ofList [char] ++ "'"

def validateFullSHA (sha : String) : Except VerdictError Unit :=
  let fail detail : Except VerdictError Unit := .error ⟨"/commit_sha", detail ++
    "; a verdict that does not name what it tested is not evidence (give the full 40-character lowercase hex " ++
    "commit id)"⟩
  if sha = "" then fail "no commit was named"
  else if sha.utf8ByteSize ≠ 40 then fail (quoteText sha ++ " is " ++ toString sha.utf8ByteSize ++ " characters")
  else
    match sha.toList.find? fun char => !hexDigit char with
    | some char => fail (quoteText sha ++ " contains " ++ quoteRune char ++ ", which is not lowercase hex")
    | none => .ok ()

def containsText (part text : List Char) : Bool := text.tails.any part.isPrefixOf

def refNamespace : String := "refs/culture-nodes/"

def refChar (char : Char) : Bool :=
  ('a' ≤ char && char ≤ 'z') || ('A' ≤ char && char ≤ 'Z') || char.isDigit || char ∈ ['/', '.', '_', '-']

/-- The fence of the handover refs; `none` admits the ref. -/
def validateRef (ref : String) : Option String :=
  if ref = "" then some "handover: no ref was claimed"
  else if !refNamespace.toList.isPrefixOf ref.toList then
    some ("handover: ref " ++ quoteText ref ++ " is outside " ++ refNamespace ++
      "; the control plane fetches only the namespace the handover fence covers")
  else if 512 < ref.utf8ByteSize then
    some ("handover: ref " ++ quoteText ref ++ " is longer than a ref this package will fetch")
  else
    match ref.toList.find? fun char => !refChar char with
    | some char =>
        some ("handover: ref " ++ quoteText ref ++ " contains " ++ quoteRune char ++
          ", which is not a character a handover ref is minted with")
    | none =>
        if containsText "..".toList ref.toList || containsText "//".toList ref.toList ||
            "/".toList.isSuffixOf ref.toList || ".lock".toList.isSuffixOf ref.toList then
          some ("handover: ref " ++ quoteText ref ++ " is not a well-formed ref name")
        else
          ((ref.toList.splitOn '/').find? fun part => part.head?.all fun first => first = '-' || first = '.').map
            fun part => "handover: ref " ++ quoteText ref ++ " has a component git would not accept (" ++
              quoteText (String.ofList part) ++ ")"

/-- The commit, and the ref where one is named. -/
def validateSubject (commitSHA ref : String) : Except VerdictError Unit :=
  match validateFullSHA commitSHA with
  | .error error => .error error
  | .ok () =>
      match if ref = "" then none else validateRef ref with
      | some detail => .error ⟨"/ref", detail⟩
      | none => .ok ()

def anonymousValidator : VerdictError :=
  ⟨"/validator_actor_id", "a derived record needs an identified deterministic producer (PRD §10.4); " ++
    "an anonymous validator attests to nothing"⟩

/-- Why a gate measured nothing, and what it left uncovered. -/
structure NotApplicable where
  reason : String
  uncoveredPaths : List String := []
deriving DecidableEq, Repr

/-- One declared gate's finding, as it is posted. -/
structure GateReportEntry where
  gate : String
  suite : String := ""
  exitCode : Option Int := none
  notApplicable : Option NotApplicable := none
deriving DecidableEq, Repr

structure GateReportRequest where
  runID : String
  commitSHA : String
  packageCommitSHA : String := ""
  ref : String := ""
  validatorActorID : String
  gates : List GateReportEntry
deriving DecidableEq, Repr

structure GateResult where
  gate : String
  status : GateStatus
  reason : String := ""
deriving DecidableEq, Repr

structure GateCounts where
  declared : Nat
  applicable : Nat
  passed : Nat
  failed : Nat
  notApplicable : Nat
deriving DecidableEq, Repr

namespace GateReportEntry

variable (entry : GateReportEntry) (req : GateReportRequest)

def suiteName : String := if entry.suite ≠ "" then entry.suite else entry.gate

/-- `SuiteVerdict.Validate` -/
def validateVerdict : Except VerdictError Unit :=
  if blank req.runID then .error ⟨"/run_id", "a verdict must name the run whose handover it judged"⟩
  else if blank entry.suiteName then
    .error ⟨"/suite", "a verdict must name the suite that produced it; an unnamed suite cannot be re-run by a reader"⟩
  else if blank req.validatorActorID then .error anonymousValidator
  else validateSubject req.commitSHA req.ref

/-- `GateNotApplicable.Validate` -/
def validateNotApplicable (why : NotApplicable) : Except VerdictError Unit :=
  if blank req.runID then .error ⟨"/run_id", "a gate result must name the run whose handover it judged"⟩
  else if blank entry.gate then
    .error ⟨"/gate", "a gate result must name the declared gate it is about; an unnamed gate cannot be counted"⟩
  else if blank req.validatorActorID then .error anonymousValidator
  else
    match notApplicableReasons.lookup why.reason with
    | none =>
        .error ⟨"/reason", quoteText why.reason ++ " is not one of the recorded not-applicable reasons (" ++
          commaJoin (notApplicableReasons.map Prod.fst) ++
          "); a free-text reason is one no later query can group on"⟩
    | some allowEmpty =>
        if allowEmpty = false ∧ why.uncoveredPaths = [] then
          .error ⟨"/uncovered_paths", "reason " ++ quoteText why.reason ++
            " must name the changed files the instrument did not cover; a not-applicable gate that names nothing " ++
            "is indistinguishable from a gate nobody ran, and would read as a pass by omission"⟩
        else validateSubject req.commitSHA req.ref

/-- The status of one gate, or why the whole report is refused. -/
def compose (index : Nat) : Except String GateResult :=
  match entry.exitCode, entry.notApplicable with
  | some _, some _ =>
      .error ("gates[" ++ toString index ++ "] (" ++ quoteText entry.gate ++
        ") names an exit code AND a not-applicable reason: one of the two is not true, " ++
        "and a record carrying both would let a reader take whichever they preferred")
  | none, none =>
      .error ("gates[" ++ toString index ++ "] (" ++ quoteText entry.gate ++
        ") names neither an exit code nor a not-applicable reason, so it records no finding at all — and a gate " ++
        "with no finding counted among the passes is the false green this endpoint exists to prevent")
  | some code, none =>
      match entry.validateVerdict req with
      | .error error => .error error.text
      | .ok () => .ok ⟨entry.gate, if code ≠ 0 then .failed else .passed, ""⟩
  | none, some why =>
      match entry.validateNotApplicable req why with
      | .error error => .error error.text
      | .ok () => .ok ⟨entry.gate, .notApplicable, why.reason⟩

end GateReportEntry

/-- The results of the gates in order; the first that cannot be composed refuses all. -/
def composeGateRecords (req : GateReportRequest) : Nat → List GateReportEntry → Except String (List GateResult)
  | _, [] => .ok []
  | index, entry :: rest =>
      match entry.compose req index with
      | .error error => .error error
      | .ok result =>
          match composeGateRecords req (index + 1) rest with
          | .error error => .error error
          | .ok results => .ok (result :: results)

namespace GateResults

variable (results : List GateResult)

def counts : GateCounts :=
  let passed := results.countP (·.status = .passed)
  let failed := results.countP (·.status = .failed)
  ⟨results.length, passed + failed, passed, failed, results.countP (·.status = .notApplicable)⟩

def outcome : String :=
  if 0 < (counts results).failed then outcomeChangesRequired
  else if results.any fun result => result.status = .notApplicable &&
      (result.reason = reasonInstrumentUnavailable || result.reason = reasonNoTestsExecuted) then
    outcomeMeasurementIncomplete
  else if (counts results).applicable = 0 then outcomeMeasurementIncomplete
  else outcomeGatesPassed

/-- `GateAggregate.Validate`. A result has one of the three statuses here by its type. -/
def validate (req : GateReportRequest) : Except VerdictError Unit :=
  if blank req.runID then .error ⟨"/run_id", "an aggregate must name the run whose gates it summarises"⟩
  else if results = [] then
    .error ⟨"/gates", "an aggregate over zero gates is not a finding; a gate report must carry at least one " ++
      "declared gate, or there is nothing for the counts to be counts OF"⟩
  else if blank req.validatorActorID then .error anonymousValidator
  else
    match results.zipIdx.find? fun indexed => blank indexed.1.gate with
    | some indexed =>
        .error ⟨"/gates/" ++ toString indexed.2 ++ "/gate",
          "every counted gate must be named, or the counts cannot be checked against the report"⟩
    | none => validateSubject req.commitSHA req.ref

end GateResults

def gateExitCode (outcome : String) : Nat :=
  if outcome = outcomeChangesRequired then 1 else if outcome = outcomeMeasurementIncomplete then 2 else 0

structure GateReportResult where
  gates : List GateResult
  counts : GateCounts
  outcome : String
  exitCode : Nat
  commitSHA : String
deriving DecidableEq, Repr

/-- `POST gate-reports` of a run whose handover was measured at a commit, or has none. -/
def createGateReport (measured : String) (req : GateReportRequest) : Except String GateReportResult :=
  let measuredSubject := if req.packageCommitSHA ≠ "" then req.packageCommitSHA else req.commitSHA
  if req.gates = [] then
    .error ("gates is empty: a report over zero gates has no counts to be counts of, and a merge decided on " ++
      "one would be decided on nothing")
  else if measured ≠ "" ∧ measured ≠ measuredSubject then
    .error ("this run's handover was measured at commit " ++ measured ++ ", but the gate report names " ++
      measuredSubject ++ ": the gates ran against something other than what this run handed over")
  else
    match composeGateRecords req 0 req.gates with
    | .error error => .error error
    | .ok results =>
        match GateResults.validate results req with
        | .error error => .error error.text
        | .ok () =>
            .ok ⟨results, GateResults.counts results, GateResults.outcome results,
              gateExitCode (GateResults.outcome results), req.commitSHA⟩

/-- The reasons that leave a report whole: the instrument is known not to reach the change. -/
def toleratedReasons : List String := [reasonInstrumentNotReachingTree, reasonNoTestInstrument, reasonNoSourceFiles]

/-- The gate ran and passed, or says which files it is known not to cover. -/
def GateReportEntry.Holds (entry : GateReportEntry) : Prop :=
  entry.exitCode = some 0 ∧ entry.notApplicable = none ∨
    entry.exitCode = none ∧ ∃ why, entry.notApplicable = some why ∧ why.reason ∈ toleratedReasons ∧
      (why.uncoveredPaths = [] → why.reason = reasonNoSourceFiles)

theorem outcome_passed_iff {results : List GateResult} : GateResults.outcome results = outcomeGatesPassed ↔
    (∃ result ∈ results, result.status = .passed) ∧ ∀ result ∈ results, result.status ≠ .failed ∧
      (result.status = .notApplicable → result.reason ≠ reasonInstrumentUnavailable ∧
        result.reason ≠ reasonNoTestsExecuted) := by
  have anyFailed : 0 < (GateResults.counts results).failed ↔ ∃ result ∈ results, result.status = .failed := by
    simp [GateResults.counts, List.countP_pos_iff]
  have anyPassed : 0 < results.countP (·.status = .passed) ↔ ∃ result ∈ results, result.status = .passed := by
    simp [List.countP_pos_iff]
  unfold GateResults.outcome
  split
  · rename_i failing
    refine ⟨fun same => absurd same (by decide), fun ⟨_, fine⟩ => ?_⟩
    obtain ⟨result, member, failed⟩ := anyFailed.mp failing
    exact absurd failed (fine result member).1
  · rename_i none
    have unfailed : ∀ result ∈ results, result.status ≠ .failed := fun result member failed =>
      none (anyFailed.mpr ⟨result, member, failed⟩)
    split
    · rename_i missing
      refine ⟨fun same => absurd same (by decide), fun ⟨_, fine⟩ => ?_⟩
      obtain ⟨result, member, isMissing⟩ := List.any_eq_true.mp missing
      simp only [Bool.and_eq_true, Bool.or_eq_true, decide_eq_true_eq] at isMissing
      have known := (fine result member).2 isMissing.1
      rcases isMissing.2 with same | same
      · exact absurd same known.1
      · exact absurd same known.2
    · rename_i complete
      have measuring : ∀ result ∈ results, result.status = .notApplicable →
          result.reason ≠ reasonInstrumentUnavailable ∧ result.reason ≠ reasonNoTestsExecuted := by
        intro result member skipped
        by_contra missing
        apply complete
        refine List.any_eq_true.mpr ⟨result, member, ?_⟩
        simp only [Bool.and_eq_true, Bool.or_eq_true, decide_eq_true_eq]
        exact ⟨skipped, by tauto⟩
      have nonePassed : (GateResults.counts results).applicable = 0 ↔ ¬ ∃ result ∈ results, result.status = .passed := by
        have zero : (GateResults.counts results).failed = 0 := Nat.eq_zero_of_not_pos none
        have sum : (GateResults.counts results).applicable = results.countP (·.status = .passed) +
            (GateResults.counts results).failed := rfl
        rw [← anyPassed, sum, zero, Nat.add_zero, Nat.pos_iff_ne_zero, not_not]
      split
      · rename_i empty
        exact ⟨fun same => absurd same (by decide), fun ⟨passed, _⟩ => absurd passed (nonePassed.mp empty)⟩
      · rename_i measured
        refine ⟨fun _ => ⟨?_, fun result member => ⟨unfailed result member, measuring result member⟩⟩, fun _ => rfl⟩
        by_contra nothing
        exact measured (nonePassed.mpr nothing)

/-- Gates and results belong together, in both directions. -/
theorem mem_composeGateRecords {req : GateReportRequest} {entries : List GateReportEntry} {index : Nat}
    {results : List GateResult} (composed : composeGateRecords req index entries = .ok results) :
    (∀ entry ∈ entries, ∃ result ∈ results, ∃ place, entry.compose req place = .ok result) ∧
      ∀ result ∈ results, ∃ entry ∈ entries, ∃ place, entry.compose req place = .ok result := by
  induction entries generalizing index results with
  | nil =>
      cases composed
      exact ⟨fun _ member => absurd member List.not_mem_nil, fun _ member => absurd member List.not_mem_nil⟩
  | cons entry rest ih =>
      rw [composeGateRecords] at composed
      cases first : entry.compose req index with
      | error error => simp [first] at composed
      | ok result =>
          cases others : composeGateRecords req (index + 1) rest with
          | error error => simp [first, others] at composed
          | ok more =>
              simp only [first, others, Except.ok.injEq] at composed
              subst composed
              obtain ⟨forth, back⟩ := ih others
              refine ⟨fun one isOne => ?_, fun one isOne => ?_⟩
              · rcases List.mem_cons.mp isOne with rfl | later
                · exact ⟨result, List.mem_cons_self, index, first⟩
                · obtain ⟨found, isFound, made⟩ := forth one later
                  exact ⟨found, List.mem_cons_of_mem _ isFound, made⟩
              · rcases List.mem_cons.mp isOne with rfl | later
                · exact ⟨entry, List.mem_cons_self, index, first⟩
                · obtain ⟨found, isFound, made⟩ := back one later
                  exact ⟨found, List.mem_cons_of_mem _ isFound, made⟩

theorem NotApplicable.tolerated_of_valid {why : NotApplicable} {entry : GateReportEntry} {req : GateReportRequest}
    (valid : entry.validateNotApplicable req why = .ok ()) (available : why.reason ≠ reasonInstrumentUnavailable)
    (executed : why.reason ≠ reasonNoTestsExecuted) :
    why.reason ∈ toleratedReasons ∧ (why.uncoveredPaths = [] → why.reason = reasonNoSourceFiles) := by
  unfold GateReportEntry.validateNotApplicable at valid
  split_ifs at valid
  cases found : notApplicableReasons.lookup why.reason with
  | none => simp [found] at valid
  | some allowEmpty =>
      simp only [found] at valid
      split at valid
      · contradiction
      · rename_i named
        obtain ⟨before, after, listed⟩ := List.lookup_eq_some_iff.mp found
        have member : (why.reason, allowEmpty) ∈ notApplicableReasons := by simp [listed]
        simp only [notApplicableReasons, List.mem_cons, Prod.mk.injEq, List.not_mem_nil, or_false] at member
        rcases member with ⟨same, rfl⟩ | ⟨same, _⟩ | ⟨same, _⟩ | ⟨same, rfl⟩ | ⟨same, _⟩
        · exact ⟨by simp [toleratedReasons, same], fun empty => absurd ⟨rfl, empty⟩ named⟩
        · exact absurd same available
        · exact ⟨by simp [toleratedReasons, same], fun _ => same⟩
        · exact ⟨by simp [toleratedReasons, same], fun empty => absurd ⟨rfl, empty⟩ named⟩
        · exact absurd same executed

theorem GateReportEntry.holds_of_compose {entry : GateReportEntry} {req : GateReportRequest} {index : Nat}
    {result : GateResult} (composed : entry.compose req index = .ok result) (unfailed : result.status ≠ .failed)
    (measuring : result.status = .notApplicable → result.reason ≠ reasonInstrumentUnavailable ∧
      result.reason ≠ reasonNoTestsExecuted) :
    entry.Holds ∧ (result.status = .passed → entry.exitCode = some 0) := by
  unfold GateReportEntry.compose at composed
  cases code : entry.exitCode with
  | some exitCode =>
      cases skipped : entry.notApplicable with
      | some why => simp [code, skipped] at composed
      | none =>
          simp only [code, skipped] at composed
          cases valid : entry.validateVerdict req with
          | error error => simp [valid] at composed
          | ok =>
              simp only [valid, Except.ok.injEq] at composed
              subst composed
              by_cases zero : exitCode = 0
              · subst zero
                exact ⟨Or.inl ⟨code, skipped⟩, fun _ => rfl⟩
              · exact absurd (if_pos zero) unfailed
  | none =>
      cases skipped : entry.notApplicable with
      | none => simp [code, skipped] at composed
      | some why =>
          simp only [code, skipped] at composed
          cases valid : entry.validateNotApplicable req why with
          | error error => simp [valid] at composed
          | ok =>
              simp only [valid, Except.ok.injEq] at composed
              subst composed
              refine ⟨Or.inr ⟨code, why, skipped, ?_⟩, fun same => GateStatus.noConfusion same⟩
              exact why.tolerated_of_valid valid (measuring rfl).1 (measuring rfl).2

/-- In an accepted report that passed, some gate ran, and each one passed or says which files it is known not to
cover. -/
theorem holds_of_createGateReport {measured : String} {req : GateReportRequest} {result : GateReportResult}
    (accepted : createGateReport measured req = .ok result) (passed : result.outcome = outcomeGatesPassed) :
    result.commitSHA = req.commitSHA ∧ (∃ entry ∈ req.gates, entry.exitCode = some 0) ∧
      ∀ entry ∈ req.gates, entry.Holds := by
  unfold createGateReport at accepted
  extract_lets measuredSubject at accepted
  split at accepted
  · contradiction
  · split at accepted
    · contradiction
    · cases composed : composeGateRecords req 0 req.gates with
      | error error => simp [composed] at accepted
      | ok results =>
          cases valid : GateResults.validate results req with
          | error error => simp [composed, valid] at accepted
          | ok =>
              simp only [composed, valid, Except.ok.injEq] at accepted
              subst accepted
              obtain ⟨⟨one, isOne, onePassed⟩, fine⟩ := outcome_passed_iff.mp passed
              obtain ⟨forth, back⟩ := mem_composeGateRecords composed
              refine ⟨rfl, ?_, fun entry isEntry => ?_⟩
              · obtain ⟨entry, isEntry, place, made⟩ := back one isOne
                exact ⟨entry, isEntry, (entry.holds_of_compose made (fine one isOne).1 (fine one isOne).2).2 onePassed⟩
              · obtain ⟨result, isResult, place, made⟩ := forth entry isEntry
                exact (entry.holds_of_compose made (fine result isResult).1 (fine result isResult).2).1

end CultureNodes.Handover
