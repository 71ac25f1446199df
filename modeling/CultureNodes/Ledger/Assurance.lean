import CultureNodes.Ledger.History

/-!
What the ledger assures of its records whatever was asked of it and in whatever order: each carries no
more authority than its producer has, and a review decides what its reviewer was shown, once.
-/

namespace CultureNodes.Ledger

variable {store : Store} {s next : LedgerState}

/-- The rules of the producers, for a record that stands in the ledger. -/
structure Produced (s : LedgerState) (rec : Record) : Prop where
  decided : rec.authority = .confirmed ∨ rec.authority = .rejected →
    (rec.origin.kind = .human ∧ rec.recordType = .grade) ∨
    (rec.recordType = .review ∧ s.db.actorKind rec.origin.actorID = some "human" ∧
      ∃ entry ∈ s.log, rec ∈ entry.result.records ∧ entry.call.HumanReviewer entry.before rec)
  agent : rec.origin.kind = .agent → rec.authority = .proposed
  runner : rec.origin.kind = .runner → rec.recordType = .evidence ∧ rec.authority = .observed ∧
    ∃ entry ∈ s.log, rec ∈ entry.result.records ∧ ∃ manifest,
      entry.call.options.manifest = some manifest ∧ manifest.actorID = rec.origin.actorID ∧
        ∀ pointer ∈ dataLeafPointers rec.data, manifest.covers pointer = true
  deterministic : rec.origin.kind = .engine ∨ rec.origin.kind = .validator → rec.authority = .derived
  grade : rec.gradeEvaluatedActorID ≠ "" → rec.gradeEvaluatedActorID ≠ rec.origin.actorID

theorem Call.HumanReviewer.actorKind {call : Call} {db : LedgerDb} {rec : Record}
    (reviewed : call.HumanReviewer db rec) : db.actorKind rec.origin.actorID = some "human" := by
  cases call with
  | commitReview stamps reviewID decisions expected rationale =>
      obtain ⟨req, _, _, author, human⟩ := reviewed
      rw [author]
      exact human
  | append entries manifest => cases reviewed
  | appendSuperseding stamp rec supersedesID manifest => cases reviewed
  | createReviewRequest stamp runID recordIDs version reviewer => cases reviewed

theorem Entered.produced {entry : Success} {rec : Record} (entered : Entered entry rec)
    (listed : entry ∈ s.log) (later : entry.before.Later s.db) : Produced s rec := by
  obtain ⟨admitted, noSelfGrade⟩ := checkAuthority_ok entered.admitted
  have grade : rec.gradeEvaluatedActorID ≠ "" → rec.gradeEvaluatedActorID ≠ rec.origin.actorID :=
    noSelfGrade.resolve_left
  cases admitted with
  | proposedByAgent kind proposes => exact ⟨by simp [proposes], fun _ => proposes, by simp [kind], by simp [kind], grade⟩
  | proposedByHuman kind proposes => exact ⟨by simp [proposes], fun _ => proposes, by simp [kind], by simp [kind], grade⟩
  | graded kind grades confirms =>
      exact ⟨fun _ => Or.inl ⟨kind, grades⟩, by simp [kind], by simp [kind], by simp [kind], grade⟩
  | reviewed kind reviews decides inReview =>
      have reviewer := (entered.reviewer inReview).2
      refine ⟨fun _ => Or.inr ⟨reviews, ?_, entry, listed, entered.among, reviewer⟩, by simp [kind],
        by simp [kind], by simp [kind], grade⟩
      exact later.actorKind reviewer.actorKind
  | observed kind evidences observes declared own covered =>
      refine ⟨by simp [observes], by simp [kind], fun _ => ⟨evidences, observes, ?_⟩, by simp [kind], grade⟩
      exact ⟨entry, listed, entered.among, _, declared, own, covered⟩
  | derived kind derives =>
      refine ⟨by simp [derives], ?_, ?_, fun _ => derives, grade⟩
      · intro isAgent
        simp [isAgent] at kind
      · intro isRunner
        simp [isRunner] at kind

/-- In every reachable ledger each record keeps to the rules of its producer. -/
theorem produced_of_reachable (reached : s.Reachable store) : ∀ rec ∈ s.db.records, Produced s rec := by
  intro rec member
  have history := History.of_reachable reached
  obtain ⟨entry, listed, among⟩ := history.records rec member
  have holds := history.holds entry listed
  exact (holds.entered rec among).produced listed (holds.later.trans (history.kept entry listed))

/-- A call from its start to its commit, with nothing in between. -/
def wholeCall (txn : Nat) (call : Call) (statements : Nat) : List Action :=
  .start txn call :: List.replicate statements (.advance txn) ++ [.finish txn]

/-- A claim is proposed, a person is asked about it, and confirms it. -/
def confirmedClaim : List Action :=
  [.register ⟨"actor_writer", "writer", "agent"⟩, .register ⟨"actor_reader", "reader", "human"⟩] ++
    wholeCall 0 (.append
      [(firstStamp,
        { recordType := .claim, runID := "run_1", authority := .proposed
          origin := { kind := .agent, actorID := "actor_writer" } })] none) 2 ++
    wholeCall 1 (.createReviewRequest secondStamp "run_1" ["ledger_1"] 1
      "actor_reader") 4 ++
    wholeCall 2 (.commitReview (fun _ => thirdStamp) "review_2"
      [("ledger_1", .confirm)] 1 "") 9

theorem produced_of_reachable_confirmedClaim :
    ∃ s : LedgerState, s.Reachable openStore ∧
      s.db.records.map (fun rec => (rec.id, rec.authority)) =
        [("ledger_1", .proposed), ("ledger_3", .confirmed)] ∧
      ∀ rec ∈ s.db.records, Produced s rec := by
  have ran : (Steps.ofList (LedgerState.act openStore) (fun _ _ => true) LedgerState.init
      confirmedClaim).map (fun s => s.db.records.map fun rec => (rec.id, rec.authority)) =
        some [("ledger_1", .proposed), ("ledger_3", .confirmed)] := by
    decide +kernel
  obtain ⟨s, run, records⟩ := Steps.reaches_of_ofList (fun _ _ _ => trivial) ran
  have reached : s.Reachable openStore := run
  exact ⟨s, reached, records, produced_of_reachable reached⟩

/-- A step of a call that does not commit it: one of its statements, its failure or its end halfway. -/
inductive Uncommitted (s : LedgerState) : Action → Prop where
  | advance (id : Nat) : Uncommitted s (.advance id)
  | abort (id : Nat) : Uncommitted s (.abort id)
  | fail {id : Nat} {txn : Txn Write Session} {refusal : LedgerError} (inFlight : s.txns id = some txn)
      (failed : txn.body.rest = .done (.error refusal)) : Uncommitted s (.finish id)

/-- A call that does not commit leaves the ledger as it is. -/
theorem uncommitted_unchanged {action : Action} (uncommitted : Uncommitted s action)
    (taken : s.act store action = some next) : next.db = s.db ∧ next.log = s.log := by
  cases moved_of_act taken with
  | started free moved => cases uncommitted
  | answered inFlight rest sameDb sameLog txns held others => exact ⟨sameDb, sameLog⟩
  | ended inFlight kind moved =>
      subst moved
      exact ⟨rfl, rfl⟩
  | committed inFlight rest moved =>
      cases uncommitted with
      | fail failing failed =>
          rw [inFlight] at failing
          cases failing
          rw [rest] at failed
          cases failed
  | registered moved => cases uncommitted

/-- A review request is committed at most once; a commit finds its run as the request left it and adds
one review for each requested record; and a call that fails changes nothing. -/
theorem reviews_of_reachable (reached : s.Reachable store) :
    s.committedReviews.Nodup ∧
      (∀ entry ∈ s.log, ∀ reviewID records version, entry.result = .reviewed reviewID records version →
        ∃ created req, [created, entry].Sublist s.log ∧ req.id = reviewID ∧
          Answers created entry req records) ∧
      ∀ action next, Uncommitted s action → s.act store action = some next →
        next.db = s.db ∧ next.log = s.log := by
  have history := History.of_reachable reached
  exact ⟨history.once, history.answers, fun _ _ => uncommitted_unchanged⟩

theorem reviews_of_reachable_confirmedClaim :
    ∃ s : LedgerState, s.Reachable openStore ∧ s.committedReviews = ["review_2"] ∧
      ∃ created entry req records, [created, entry].Sublist s.log ∧ req.id = "review_2" ∧
        Answers created entry req records := by
  have ran : (Steps.ofList (LedgerState.act openStore) (fun _ _ => true) LedgerState.init
      confirmedClaim).map LedgerState.committedReviews = some ["review_2"] := by
    decide +kernel
  obtain ⟨s, run, committed⟩ := Steps.reaches_of_ofList (fun _ _ _ => trivial) ran
  have reached : s.Reachable openStore := run
  have member : "review_2" ∈ s.committedReviews := by
    rw [committed]
    exact List.mem_cons_self
  obtain ⟨entry, listed, isReviewed⟩ := List.mem_filterMap.mp member
  cases result : entry.result with
  | reviewed reviewID records version =>
      rw [result] at isReviewed
      cases isReviewed
      obtain ⟨created, req, order, named, answers⟩ :=
        (reviews_of_reachable reached).2.1 entry listed _ records version result
      exact ⟨s, reached, committed, created, entry, req, records, order, named, answers⟩
  | appended records =>
      rw [result] at isReviewed
      cases isReviewed
  | requested req =>
      rw [result] at isReviewed
      cases isReviewed

end CultureNodes.Ledger
