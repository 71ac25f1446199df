import CultureNodes.Ledger.Record

/-!
Who may append what: the producer and authority matrix. It is applied to each record alone, at append.
Only a review transaction may set `reviewTransaction`.
-/

namespace CultureNodes.Ledger

open Compiler (quoteText)

inductive Rule where
  | agentProposesOnly
  | humanReviewOnly
  | humanAuthorityLimited
  | reviewRecordOnly
  | runnerEvidenceOnly
  | runnerObservedOnly
  | runnerManifestRequired
  | runnerActorMismatch
  | runnerFieldNotDeclared
  | deterministicDerivedOnly
  | unknownOrigin
  | supersededNotAppendable
  | invalidAuthority
  | gradeNeverObservedOrDerived
  | preflightDerivedOnly
  | acknowledgementNeverDerived
  | noSelfGrade
  | reviewerNotHuman
deriving DecidableEq, Repr

def Rule.text : Rule → String
  | .agentProposesOnly => "agent_proposes_only"
  | .humanReviewOnly => "human_confirms_only_through_review"
  | .humanAuthorityLimited => "human_authority_limited"
  | .reviewRecordOnly => "review_authority_requires_review_record"
  | .runnerEvidenceOnly => "runner_produces_evidence_only"
  | .runnerObservedOnly => "runner_authority_observed_only"
  | .runnerManifestRequired => "runner_manifest_required"
  | .runnerActorMismatch => "runner_manifest_actor_mismatch"
  | .runnerFieldNotDeclared => "runner_field_not_declared"
  | .deterministicDerivedOnly => "deterministic_producer_derives_only"
  | .unknownOrigin => "no_producer_rule_for_origin"
  | .supersededNotAppendable => "superseded_is_not_appendable"
  | .invalidAuthority => "authority_not_recognised"
  | .gradeNeverObservedOrDerived => "grade_never_observed_or_derived"
  | .preflightDerivedOnly => "preflight_derived_only"
  | .acknowledgementNeverDerived => "acknowledgement_never_derived"
  | .noSelfGrade => "no_self_grade"
  | .reviewerNotHuman => "reviewer_must_be_human"

structure AuthorityError where
  rule : Rule
  recordID : String := ""
  origin : OriginKind
  actorID : String
  authority : Authority
  recordType : RecordType
  field : String := ""
  detail : String
deriving DecidableEq, Repr

/-- What a runner directly measures, as pointers into the payload of its evidence. -/
structure RunnerManifest where
  actorID : String
  observableFields : List String
deriving DecidableEq, Repr

/-- A declared pointer covers itself and everything beneath it; the empty one covers the whole payload. -/
def RunnerManifest.covers (manifest : RunnerManifest) (pointer : String) : Bool :=
  manifest.observableFields.any fun declared =>
    declared = "" || pointer = declared || (declared ++ "/").toList.isPrefixOf pointer.toList

structure AppendOptions where
  manifest : Option RunnerManifest := none
  reviewTransaction : Bool := false
deriving DecidableEq, Repr

/-- A refusal of the record. -/
def fail (rec : Record) (rule : Rule) (detail : String) : AuthorityError where
  rule := rule
  recordID := rec.id
  origin := rec.origin.kind
  actorID := rec.origin.actorID
  authority := rec.authority
  recordType := rec.recordType
  detail := detail

def preflightDerivedOnlyDetail : String :=
  "a dispatch preflight is composed deterministically from advertised host state and the task " ++
    "declaration; asserting one is not composing one, and a producer that proposes its own briefing is " ++
    "the actor promoting its own claim"

def acknowledgementNeverDerivedDetail : String :=
  "an acknowledgement is the actor's own claim to have been told and understood; deriving one would " ++
    "manufacture the evidence the gate exists to create"

def checkAgentAuthority (rec : Record) : Except AuthorityError Unit :=
  if rec.recordType = .dispatchPreflight then
    .error (fail rec .preflightDerivedOnly preflightDerivedOnlyDetail)
  else if rec.authority ≠ .proposed then
    .error (fail rec .agentProposesOnly ("agents may only propose; an agent saying it is done creates " ++
      "a completion claim, not verified evidence"))
  else .ok ()

/-- Confirmation and rejection outside and inside a review transaction. -/
def checkReviewAuthority (rec : Record) (options : AppendOptions) : Except AuthorityError Unit :=
  if options.reviewTransaction = false then
    .error (fail rec .humanReviewOnly
      "confirmation and rejection are review transactions (PRD §10.8), not ordinary appends")
  else if rec.recordType ≠ .review then
    .error (fail rec .reviewRecordOnly
      "a review transaction appends review records referencing their targets; it never rewrites a target")
  else .ok ()

def checkHumanAuthority (rec : Record) (options : AppendOptions) : Except AuthorityError Unit :=
  if rec.recordType = .dispatchPreflight then
    .error (fail rec .preflightDerivedOnly preflightDerivedOnlyDetail)
  else
    match rec.authority with
    | .proposed => .ok ()
    | .confirmed =>
        -- A person's grade is an opinion of their own, which nobody else has to ratify.
        if rec.recordType = .grade ∧ options.reviewTransaction = false then .ok ()
        else checkReviewAuthority rec options
    | .rejected => checkReviewAuthority rec options
    | _ => .error (fail rec .humanAuthorityLimited
        ("observed belongs to a measuring runner and derived to deterministic computation; a person " ++
          "asserting either would be claiming coverage nobody measured"))

def checkRunnerAuthority (rec : Record) (options : AppendOptions) : Except AuthorityError Unit :=
  if rec.recordType ≠ .evidence then
    .error (fail rec .runnerEvidenceOnly ("a runner reports observations; claims, results, and " ++
      "decisions about them belong to other producers"))
  else if rec.authority ≠ .observed then
    .error (fail rec .runnerObservedOnly "a runner has no standing to propose, confirm, or derive")
  else
    match options.manifest with
    | none => .error (fail rec .runnerManifestRequired ("observed evidence must name the manifest " ++
        "declaring which fields the runner directly measured"))
    | some manifest =>
        if manifest.actorID = "" ∨ manifest.actorID ≠ rec.origin.actorID then
          .error (fail rec .runnerActorMismatch ("manifest belongs to actor " ++
            quoteText manifest.actorID ++ ", record origin is actor " ++ quoteText rec.origin.actorID))
        else
          match (dataLeafPointers rec.data).find? fun pointer => !manifest.covers pointer with
          | none => .ok ()
          | some pointer => .error
              { fail rec .runnerFieldNotDeclared ("the runner's manifest does not declare this field as " ++
                  "directly measured, so it is process-reported content, not an observation") with
                field := pointer }

def checkDeterministicAuthority (rec : Record) : Except AuthorityError Unit :=
  if rec.authority ≠ .derived then
    .error (fail rec .deterministicDerivedOnly ("deterministic producers compute derived records from " ++
      "referenced confirmed or observed records"))
  else if rec.recordType = .grade then
    .error (fail rec .gradeNeverObservedOrDerived ("a grade is an opinion record: a rating and " ++
      "rationale, never a value a deterministic producer derived"))
  else if rec.recordType = .dispatchAcknowledgement then
    .error (fail rec .acknowledgementNeverDerived acknowledgementNeverDerivedDetail)
  else .ok ()

def checkOriginAuthority (rec : Record) (options : AppendOptions) : Except AuthorityError Unit :=
  match rec.origin.kind with
  | .agent => checkAgentAuthority rec
  | .human => checkHumanAuthority rec options
  | .runner => checkRunnerAuthority rec options
  | .engine | .validator => checkDeterministicAuthority rec
  | .service => .error (fail rec .unknownOrigin "PRD §10.4 states no producer rule for origin kind \"service\"")
  | .other text => .error (fail rec .unknownOrigin
      ("origin kind " ++ quoteText text ++ " is not one the ledger envelope admits"))

def checkAuthority (rec : Record) (options : AppendOptions) : Except AuthorityError Unit :=
  if rec.authority.valid = false then
    .error (fail rec .invalidAuthority "authority is not one of the core values in PRD §10.4")
  else if rec.authority = .superseded then
    .error (fail rec .supersededNotAppendable ("a record is superseded by a later record naming it in " ++
      "`supersedes`, never by declaring itself so"))
  else if rec.gradeEvaluatedActorID ≠ "" ∧ rec.gradeEvaluatedActorID = rec.origin.actorID then
    .error { fail rec .noSelfGrade ("a grade whose grading actor equals the evaluated actor would be an " ++
        "actor grading its own work — the self-promotion rule (PRD §10.4) extended to opinion records") with
      field := "/data/evaluated_actor_id" }
  else checkOriginAuthority rec options

/-- The records the matrix lets through, by producer. -/
inductive Admitted (rec : Record) (options : AppendOptions) : Prop where
  | proposedByAgent (kind : rec.origin.kind = .agent) (proposes : rec.authority = .proposed)
  | proposedByHuman (kind : rec.origin.kind = .human) (proposes : rec.authority = .proposed)
  | graded (kind : rec.origin.kind = .human) (grades : rec.recordType = .grade)
      (confirms : rec.authority = .confirmed)
  | reviewed (kind : rec.origin.kind = .human) (reviews : rec.recordType = .review)
      (decides : rec.authority = .confirmed ∨ rec.authority = .rejected)
      (inReview : options.reviewTransaction = true)
  | observed (kind : rec.origin.kind = .runner) (evidences : rec.recordType = .evidence)
      (observes : rec.authority = .observed) {manifest : RunnerManifest}
      (declared : options.manifest = some manifest) (own : manifest.actorID = rec.origin.actorID)
      (covered : ∀ pointer ∈ dataLeafPointers rec.data, manifest.covers pointer = true)
  | derived (kind : rec.origin.kind = .engine ∨ rec.origin.kind = .validator)
      (derives : rec.authority = .derived)

variable {rec : Record} {options : AppendOptions}

theorem checkReviewAuthority_ok (accepted : checkReviewAuthority rec options = .ok ()) :
    options.reviewTransaction = true ∧ rec.recordType = .review := by
  by_cases outside : options.reviewTransaction = false
  · simp [checkReviewAuthority, outside] at accepted
  · by_cases reviews : rec.recordType = .review
    · exact ⟨by simpa using outside, reviews⟩
    · simp [checkReviewAuthority, outside, reviews] at accepted

theorem checkHumanAuthority_ok (kind : rec.origin.kind = .human)
    (accepted : checkHumanAuthority rec options = .ok ()) : Admitted rec options := by
  by_cases briefs : rec.recordType = .dispatchPreflight
  · simp [checkHumanAuthority, briefs] at accepted
  · simp only [checkHumanAuthority, briefs, if_false] at accepted
    cases claimed : rec.authority with
    | proposed => exact .proposedByHuman kind claimed
    | confirmed =>
        simp only [claimed] at accepted
        by_cases grades : rec.recordType = .grade ∧ options.reviewTransaction = false
        · exact .graded kind grades.1 claimed
        · simp only [grades, if_false] at accepted
          obtain ⟨inReview, reviews⟩ := checkReviewAuthority_ok accepted
          exact .reviewed kind reviews (Or.inl claimed) inReview
    | rejected =>
        simp only [claimed] at accepted
        obtain ⟨inReview, reviews⟩ := checkReviewAuthority_ok accepted
        exact .reviewed kind reviews (Or.inr claimed) inReview
    | observed => simp [claimed] at accepted
    | derived => simp [claimed] at accepted
    | superseded => simp [claimed] at accepted
    | other text => simp [claimed] at accepted

theorem checkRunnerAuthority_ok (kind : rec.origin.kind = .runner)
    (accepted : checkRunnerAuthority rec options = .ok ()) : Admitted rec options := by
  by_cases evidences : rec.recordType = .evidence
  · by_cases observes : rec.authority = .observed
    · cases declared : options.manifest with
      | none => simp [checkRunnerAuthority, evidences, observes, declared] at accepted
      | some manifest =>
          by_cases foreign : manifest.actorID = "" ∨ manifest.actorID ≠ rec.origin.actorID
          · simp [checkRunnerAuthority, evidences, observes, declared, foreign] at accepted
          · have own : manifest.actorID = rec.origin.actorID := by
              simpa using (not_or.mp foreign).2
            cases missing : (dataLeafPointers rec.data).find? fun pointer => !manifest.covers pointer with
            | none =>
                refine .observed kind evidences observes declared own ?_
                simpa using List.find?_eq_none.mp missing
            | some pointer =>
                simp [checkRunnerAuthority, evidences, observes, declared, foreign, missing] at accepted
    · simp [checkRunnerAuthority, evidences, observes] at accepted
  · simp [checkRunnerAuthority, evidences] at accepted

theorem checkAgentAuthority_ok (accepted : checkAgentAuthority rec = .ok ()) :
    rec.authority = .proposed := by
  by_cases briefs : rec.recordType = .dispatchPreflight
  · simp [checkAgentAuthority, briefs] at accepted
  · by_cases proposes : rec.authority = .proposed
    · exact proposes
    · simp [checkAgentAuthority, briefs, proposes] at accepted

theorem checkDeterministicAuthority_ok (accepted : checkDeterministicAuthority rec = .ok ()) :
    rec.authority = .derived := by
  by_cases derives : rec.authority = .derived
  · exact derives
  · simp [checkDeterministicAuthority, derives] at accepted

theorem checkOriginAuthority_ok (accepted : checkOriginAuthority rec options = .ok ()) :
    Admitted rec options := by
  simp only [checkOriginAuthority] at accepted
  cases kind : rec.origin.kind with
  | agent =>
      simp only [kind] at accepted
      exact .proposedByAgent kind (checkAgentAuthority_ok accepted)
  | human =>
      simp only [kind] at accepted
      exact checkHumanAuthority_ok kind accepted
  | runner =>
      simp only [kind] at accepted
      exact checkRunnerAuthority_ok kind accepted
  | engine =>
      simp only [kind] at accepted
      exact .derived (Or.inl kind) (checkDeterministicAuthority_ok accepted)
  | validator =>
      simp only [kind] at accepted
      exact .derived (Or.inr kind) (checkDeterministicAuthority_ok accepted)
  | service => simp [kind] at accepted
  | other text => simp [kind] at accepted

/-- All that the matrix says of a record it lets through. -/
theorem checkAuthority_ok (accepted : checkAuthority rec options = .ok ()) :
    Admitted rec options ∧
      (rec.gradeEvaluatedActorID = "" ∨ rec.gradeEvaluatedActorID ≠ rec.origin.actorID) := by
  by_cases valid : rec.authority.valid = false
  · rw [checkAuthority, if_pos valid] at accepted
    cases accepted
  · by_cases gone : rec.authority = .superseded
    · rw [checkAuthority, if_neg valid, if_pos gone] at accepted
      cases accepted
    · by_cases selfGrade : rec.gradeEvaluatedActorID ≠ "" ∧ rec.gradeEvaluatedActorID = rec.origin.actorID
      · rw [checkAuthority, if_neg valid, if_neg gone, if_pos selfGrade] at accepted
        cases accepted
      · rw [checkAuthority, if_neg valid, if_neg gone, if_neg selfGrade] at accepted
        refine ⟨checkOriginAuthority_ok accepted, ?_⟩
        rw [not_and_or, not_not] at selfGrade
        exact selfGrade

end CultureNodes.Ledger
