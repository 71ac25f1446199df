import CultureNodes.Ledger.Reachable

/-!
What the committed calls have left in the ledger. Every record and every review request in a reachable
state is the work of a call in its log, and what such a call knew when it committed is kept beside it.
-/

namespace CultureNodes.Ledger

/-- The records a call has appended. -/
def LedgerResult.records : LedgerResult → List Record
  | .appended records | .reviewed _ records _ => records
  | .requested _ => []

/-- The review request a call has committed. -/
def LedgerResult.reviewed? : LedgerResult → Option String
  | .reviewed reviewID _ _ => some reviewID
  | _ => none

/-- The call commits a review that was asked of the record's author, and the registry lists that actor
as a person. -/
def Call.HumanReviewer (db : LedgerDb) (rec : Record) : Call → Prop
  | .commitReview _ reviewID _ _ _ => ∃ req, db.Known req ∧ req.id = reviewID ∧
      rec.origin.actorID = req.reviewerActorID ∧ db.actorKind req.reviewerActorID = some "human"
  | _ => False

/-- How a record has come into the ledger. -/
structure Entered (entry : Success) (rec : Record) : Prop where
  among : rec ∈ entry.result.records
  admitted : checkAuthority rec entry.call.options = .ok ()
  reviewer : entry.call.options.reviewTransaction = true →
    rec.origin.kind = .human ∧ entry.call.HumanReviewer entry.before rec

/-- The request that a commit is about, as the commit found it. -/
structure Decided (entry : Success) (req : ReviewRequest) (records : List Record) : Prop where
  known : entry.before.Known req
  current : entry.before.ledgerVersion req.runID = req.ledgerVersion
  targets : records.map Record.subjectRef = req.recordIDs
  reviews : ∀ rec ∈ records, rec.recordType = .review ∧ rec.runID = req.runID

/-- What a call has done when it commits. -/
structure Success.Holds (entry : Success) : Prop where
  later : entry.before.Later entry.after
  records : entry.after.records = entry.before.records ++ entry.result.records
  entered : ∀ rec ∈ entry.result.records, Entered entry rec
  requested : ∀ req, entry.result = .requested req →
    entry.before.ledgerVersion req.runID = req.ledgerVersion ∧ req.recordIDs.Nodup
  reviewed : ∀ reviewID records version, entry.result = .reviewed reviewID records version →
    ∃ req, req.id = reviewID ∧ Decided entry req records

variable {store : Store} {s next : LedgerState} {id : Nat} {txn : Txn Write Session}

section Commit

variable {result : LedgerResult} (sound : Sound store s id txn)
  (rest : txn.body.rest = .done (.ok result))
include sound rest

theorem Sound.result_records : recordsOf txn.writes = result.records := by
  have ended := sound.ended rest
  rw [sound.writes]
  cases result with
  | appended records =>
      rw [show txn.body.seen.writes = records.map Write.record from ended, recordsOf_map]
      rfl
  | requested req =>
      rw [show txn.body.seen.writes = [.request req] from ended]
      rfl
  | reviewed reviewID records version =>
      rw [ended.1]
      simp [LedgerResult.records]

omit rest in
theorem Sound.brought_reviewer {rec : Record} (brought : Brought store txn.body rec)
    (inReview : txn.body.call.options.reviewTransaction = true) :
    rec.origin.kind = .human ∧ txn.body.call.HumanReviewer s.db rec := by
  have brings := brought.brings
  obtain ⟨stamps, reviewID, decisions, expected, rationale, called⟩ := Call.commitReview_of_inReview inReview
  rw [called] at brings ⊢
  obtain ⟨req, asked, human, reviews, sameRun, reviewer, plain, found⟩ := brings
  obtain ⟨named, known⟩ := sound.requests _ asked
  exact ⟨by rw [reviewer], req, known, named, by rw [reviewer], sound.kinds _ human⟩

theorem Sound.holds :
    Success.Holds ⟨txn.body.call, result, s.db, s.view LedgerDb.apply txn⟩ := by
  have ended := sound.ended rest
  have records := sound.result_records rest
  have versionOf {runID : String} {version : Nat}
      (member : (runID, version, []) ∈ txn.body.seen.versions) :
      s.db.ledgerVersion runID = version := (sound.versions _ member).2.symm
  constructor
  · exact LedgerDb.later_foldl s.db txn.writes
  · rw [← records]
    exact view_records
  · intro rec member
    have written : rec ∈ recordsOf txn.writes := by
      rw [records]
      exact member
    have brought := sound.brought rec written
    exact ⟨member, brought.admitted, sound.brought_reviewer brought⟩
  · intro req isResult
    cases isResult
    have wrote : .request req ∈ txn.writes := by
      rw [sound.writes, show txn.body.seen.writes = [.request req] from ended]
      exact List.mem_cons_self
    have opened := sound.opened req wrote
    exact ⟨versionOf opened.current, opened.distinct⟩
  · intro reviewID reviews version isResult
    cases isResult
    obtain ⟨_, asked, req, member, named, _, current, targets, all⟩ := ended
    exact ⟨req, named, (sound.requests _ member).2, versionOf current, targets, all⟩

end Commit

def LedgerState.committedReviews (s : LedgerState) : List String :=
  s.log.filterMap fun entry => entry.result.reviewed?

/-- A commit and the call that opened its request: nothing has been added to the run in between, and
there is one review for each requested record. -/
structure Answers (created entry : Success) (req : ReviewRequest) (records : List Record) : Prop where
  opened : created.result = .requested req
  version : created.before.ledgerVersion req.runID = req.ledgerVersion
  unchanged : entry.before.runRecords req.runID = created.before.runRecords req.runID
  appended : entry.after.records = entry.before.records ++ records
  distinct : req.recordIDs.Nodup
  targets : records.map Record.subjectRef = req.recordIDs
  reviews : ∀ rec ∈ records, rec.recordType = .review ∧ rec.runID = req.runID

/-- The log accounts for all that the ledger holds. -/
structure History (s : LedgerState) : Prop where
  holds : ∀ entry ∈ s.log, entry.Holds
  kept : ∀ entry ∈ s.log, entry.after.Later s.db
  records : ∀ rec ∈ s.db.records, ∃ entry ∈ s.log, rec ∈ entry.result.records
  requests : ∀ row ∈ s.db.reviews, ∃ entry ∈ s.log, ∃ req,
    entry.result = .requested req ∧ req.asked = row.asked
  committed : ∀ review ∈ s.committedReviews, ∃ row ∈ s.db.reviews, row.id = review ∧ row.status = .committed
  once : s.committedReviews.Nodup
  answers : ∀ entry ∈ s.log, ∀ reviewID records version,
    entry.result = .reviewed reviewID records version →
      ∃ created req, [created, entry].Sublist s.log ∧ req.id = reviewID ∧ Answers created entry req records

theorem ReviewRequest.eq_of_asked {left right : ReviewRequest} (same : left.asked = right.asked) :
    left.id = right.id ∧ left.runID = right.runID ∧ left.ledgerVersion = right.ledgerVersion ∧
      left.recordIDs = right.recordIDs := by
  simp only [asked, ReviewRequest.mk.injEq] at same
  obtain ⟨id, runID, _, version, _, _, recordIDs, _⟩ := same
  exact ⟨id, runID, version, recordIDs⟩

theorem LedgerDb.Later.runRecords {db after : LedgerDb} (later : db.Later after) {runID : String}
    (sameVersion : after.ledgerVersion runID = db.ledgerVersion runID) :
    after.runRecords runID = db.runRecords runID := by
  obtain ⟨added, same⟩ := later.records
  have split : after.runRecords runID =
      db.runRecords runID ++ added.filter fun rec => rec.runID = runID := by
    rw [LedgerDb.runRecords, same, List.filter_append]
    rfl
  have none : (added.filter fun rec => rec.runID = runID).length = 0 := by
    rw [LedgerDb.ledgerVersion, split, List.length_append, LedgerDb.ledgerVersion] at sameVersion
    omega
  rw [split, List.length_eq_zero_iff.mp none, List.append_nil]

namespace History

theorem init : History LedgerState.init where
  holds _ member := by cases member
  kept _ member := by cases member
  records _ member := by cases member
  requests _ member := by cases member
  committed _ member := by cases member
  once := List.nodup_nil
  answers _ member := by cases member

theorem of_same (history : History s) (sameLog : next.log = s.log)
    (records : next.db.records = s.db.records) (reviews : next.db.reviews = s.db.reviews)
    (later : s.db.Later next.db) : History next := by
  have sameCommitted : next.committedReviews = s.committedReviews := by
    rw [LedgerState.committedReviews, sameLog]
    rfl
  constructor
  · rw [sameLog]
    exact history.holds
  · rw [sameLog]
    exact fun entry member => (history.kept entry member).trans later
  · rw [sameLog, records]
    exact history.records
  · rw [sameLog, reviews]
    exact history.requests
  · rw [sameCommitted, reviews]
    exact history.committed
  · rw [sameCommitted]
    exact history.once
  · rw [sameLog]
    exact history.answers

section Commit

variable {result : LedgerResult} {entry : Success}

theorem fresh_commit (history : History s) (inv : Inv store s) (inFlight : s.txns id = some txn)
    {review : String} (marks : .committed review ∈ txn.writes) : review ∉ s.committedReviews := by
  intro already
  obtain ⟨_, row, isRow, named, open_⟩ := (inv.sound id txn inFlight).marked review marks
  obtain ⟨other, isOther, sameName, closed⟩ := history.committed review already
  have same : row = other :=
    List.inj_on_of_nodup_map inv.requests isRow isOther (named.trans sameName.symm)
  rw [same, closed] at open_
  cases open_

/-- The request of a commit was opened by an earlier call. -/
theorem answers_commit (history : History s) (holds : entry.Holds) (before : entry.before = s.db)
    {reviewID : String} {records : List Record} {version : Nat}
    (isReviewed : entry.result = .reviewed reviewID records version) :
    ∃ created req, created ∈ s.log ∧ req.id = reviewID ∧ Answers created entry req records := by
  obtain ⟨req, named, decided⟩ := holds.reviewed reviewID records version isReviewed
  have known := decided.known
  rw [before] at known
  obtain ⟨row, isRow, sameRow⟩ := known
  obtain ⟨created, isCreated, asked, opened, sameAsked⟩ := history.requests row isRow
  have same : asked.asked = req.asked := sameAsked.trans sameRow
  obtain ⟨sameID, sameRun, sameVersion, sameTargets⟩ := ReviewRequest.eq_of_asked same
  have createdHolds := history.holds created isCreated
  obtain ⟨current, distinct⟩ := createdHolds.requested asked opened
  have later : created.before.Later entry.before := by
    rw [before]
    exact createdHolds.later.trans (history.kept created isCreated)
  refine ⟨created, asked, isCreated, sameID.trans named, opened, current, ?_, ?_, distinct, ?_, ?_⟩
  · apply later.runRecords
    rw [current, sameRun, sameVersion]
    exact decided.current
  · rw [holds.records, isReviewed]
    rfl
  · rw [sameTargets]
    exact decided.targets
  · rw [sameRun]
    exact decided.reviews

theorem commit (history : History s) (inv : Inv store s) (inFlight : s.txns id = some txn)
    (rest : txn.body.rest = .done (.ok result)) (db : next.db = s.view LedgerDb.apply txn)
    (log : next.log = s.log ++ [⟨txn.body.call, result, s.db, s.view LedgerDb.apply txn⟩]) :
    History next := by
  have sound := inv.sound id txn inFlight
  have holds := sound.holds rest
  have later : s.db.Later next.db := by
    rw [db]
    exact holds.later
  have grown : ∀ entry ∈ s.log, entry ∈ next.log := by
    intro entry member
    rw [log]
    exact List.mem_append_left _ member
  have latest : (⟨txn.body.call, result, s.db, s.view LedgerDb.apply txn⟩ : Success) ∈ next.log := by
    rw [log]
    exact List.mem_append_right _ List.mem_cons_self
  have committedReviews : next.committedReviews = s.committedReviews ++ result.reviewed?.toList := by
    rw [LedgerState.committedReviews, log, List.filterMap_append]
    cases result <;> rfl
  constructor
  · intro entry member
    rw [log, List.mem_append, List.mem_singleton] at member
    rcases member with before | rfl
    · exact history.holds entry before
    · exact holds
  · intro entry member
    rw [log, List.mem_append, List.mem_singleton] at member
    rcases member with before | rfl
    · exact (history.kept entry before).trans later
    · rw [db]
      exact .refl _
  · intro rec member
    rw [db, holds.records, List.mem_append] at member
    rcases member with before | new
    · obtain ⟨entry, isEntry, among⟩ := history.records rec before
      exact ⟨entry, grown entry isEntry, among⟩
    · exact ⟨_, latest, new⟩
  · intro row member
    rw [db] at member
    have old (isOld : ∃ old ∈ s.db.reviews, row.asked = old.asked) : ∃ entry ∈ next.log, ∃ req,
        entry.result = .requested req ∧ req.asked = row.asked := by
      obtain ⟨old, isOld, same⟩ := isOld
      obtain ⟨entry, isEntry, req, opened, asked⟩ := history.requests old isOld
      exact ⟨entry, grown entry isEntry, req, opened, asked.trans same.symm⟩
    rcases sound.commit_reviews rest with ⟨_, _, same⟩ | ⟨req, isResult, _, same⟩ | ⟨review, _, _, _, _, same⟩
    · rw [same] at member
      exact old ⟨row, member, rfl⟩
    · rw [same, List.mem_append, List.mem_singleton] at member
      rcases member with before | rfl
      · exact old ⟨row, before, rfl⟩
      · exact ⟨_, latest, row, isResult, rfl⟩
    · rw [same, Table.mem_update] at member
      obtain ⟨before, isBefore, written⟩ := member
      refine old ⟨before, isBefore, ?_⟩
      rw [written]
      split <;> rfl
  · intro review member
    rw [committedReviews, List.mem_append, Option.mem_toList] at member
    rw [db]
    rcases member with before | new
    · obtain ⟨row, isRow, named, closed⟩ := history.committed review before
      rcases sound.commit_reviews rest with ⟨_, _, same⟩ | ⟨req, _, _, same⟩ | ⟨other, _, _, _, _, same⟩
      · rw [same]
        exact ⟨row, isRow, named, closed⟩
      · rw [same]
        exact ⟨row, List.mem_append_left _ isRow, named, closed⟩
      · rw [same]
        have kept := Table.mem_update_of_mem (LedgerDb.isOpen other)
          (fun req => { req with status := .committed }) isRow
        rw [if_neg (by simp [LedgerDb.isOpen, closed])] at kept
        exact ⟨row, kept, named, closed⟩
    · rcases sound.commit_reviews rest with ⟨_, rfl, _⟩ | ⟨_, rfl, _⟩ | ⟨other, _, _, rfl, marks, same⟩
      · cases new
      · cases new
      · cases new
        obtain ⟨_, row, isRow, named, open_⟩ := sound.marked review marks
        have closes := Table.mem_update_of_mem (LedgerDb.isOpen review)
          (fun req => { req with status := .committed }) isRow
        rw [if_pos (by simp [LedgerDb.isOpen, named, open_])] at closes
        rw [same]
        exact ⟨_, closes, named, rfl⟩
  · rw [committedReviews, List.nodup_append]
    refine ⟨history.once, by cases result.reviewed? <;> simp, ?_⟩
    intro review before other new same
    subst same
    rcases sound.commit_reviews rest with ⟨_, rfl, _⟩ | ⟨_, rfl, _⟩ | ⟨_, _, _, rfl, marks, _⟩
    · cases new
    · cases new
    · cases List.mem_singleton.mp new
      exact history.fresh_commit inv inFlight marks before
  · intro entry member reviewID records version isReviewed
    rw [log, List.mem_append, List.mem_singleton] at member
    rw [log]
    rcases member with before | rfl
    · obtain ⟨created, req, order, named, answers⟩ :=
        history.answers entry before reviewID records version isReviewed
      exact ⟨created, req, order.trans (List.sublist_append_left _ _), named, answers⟩
    · obtain ⟨created, req, isCreated, named, answers⟩ := history.answers_commit holds rfl isReviewed
      exact ⟨created, req, (List.singleton_sublist.mpr isCreated).append (List.Sublist.refl _), named, answers⟩

end Commit

theorem act {action : Action} (history : History s) (inv : Inv store s)
    (taken : s.act store action = some next) : History next := by
  cases moved_of_act taken with
  | started free moved =>
      subst moved
      exact history.of_same rfl rfl rfl (.refl _)
  | answered inFlight rest sameDb sameLog txns held others =>
      apply history.of_same sameLog
      · rw [sameDb]
      · rw [sameDb]
      · rw [sameDb]
        exact .refl _
  | ended inFlight kind moved =>
      subst moved
      exact history.of_same rfl rfl rfl (.refl _)
  | committed inFlight rest moved =>
      subst moved
      exact history.commit inv inFlight rest rfl rfl
  | registered moved =>
      rename_i actor
      subst moved
      exact history.of_same rfl rfl rfl
        ⟨⟨[], by simp⟩, fun row member => ⟨row, member, rfl⟩, ⟨[actor], rfl⟩⟩

theorem of_reachable (reached : s.Reachable store) : History s := by
  have both : Inv store s ∧ History s := by
    apply reached.invariant (fun s => Inv store s ∧ History s) ⟨inv_init, init⟩
    intro before action after held _ taken
    exact ⟨held.1.act taken, held.2.act held.1 taken⟩
  exact both.2

end History

end CultureNodes.Ledger
