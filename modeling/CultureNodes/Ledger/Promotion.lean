import CultureNodes.Ledger.Projection
import CultureNodes.Ledger.Supersede

/-!
What an agent can do to the standing of other records. The producer matrix looks at the new record
alone, so an agent's proposal may name any record in `supersedes`; the decisions and the measurements of
a run are safe from it exactly where it does not name a live one.
-/

namespace CultureNodes.Ledger

variable {store : Store} {s next : LedgerState} {db : LedgerDb} {rec : Record} {id : Nat}
  {txn : Txn Write Session} {records : List Record} {target : String}

theorem mem_unreplaced : rec ∈ unreplaced records ↔
    rec ∈ records ∧ ∀ other ∈ records, ¬ other.Replaces rec.id := by
  simp [unreplaced, Record.Replaces]

theorem mem_live : rec ∈ live records ↔ rec ∈ records ∧ ∀ other ∈ records, ¬ other.Replaces rec.id := by
  rw [live, (orderByID_perm _).mem_iff, mem_unreplaced]

/-- The record is a decision, or says what was measured or computed. -/
def Record.Settled (rec : Record) : Prop :=
  rec.recordType = .review ∨ rec.authority = .observed ∨ rec.authority = .derived

theorem Record.decidesOn_iff : rec.decidesOn target = true ↔ rec.recordType = .review ∧
    rec.subjectRef = target ∧ target ≠ "" ∧ (rec.authority = .confirmed ∨ rec.authority = .rejected) := by
  simp [decidesOn, and_assoc]

/-- No claim is newly confirmed, no rejected claim is anything else, and no decision, measurement or
computation is gone. -/
structure Unpromoted (before after : List Record) : Prop where
  confirmed : ∀ claim ∈ confirmedClaims after, claim ∈ confirmedClaims before
  rejected : ∀ claim ∈ before, claim.recordType = .claim →
    reviewDecisions (live before) claim.id = some .rejected →
      reviewDecisions (live after) claim.id = some .rejected
  settled : ∀ rec ∈ live before, rec.Settled → rec ∈ live after

theorem Unpromoted.refl (records : List Record) : Unpromoted records records :=
  ⟨fun _ member => member, fun _ _ _ rejected => rejected, fun _ member _ => member⟩

/-- The new record replaces nothing that is settled. -/
def Harmless (records : List Record) (rec : Record) : Prop :=
  ∀ target ∈ live records, target.Settled → ¬ rec.Replaces target.id

section Add

variable (harmless : Harmless records rec) (proposes : rec.authority = .proposed)
include harmless proposes

theorem deciding_append (target : String) :
    (unreplaced (records ++ [rec])).filter (Record.decidesOn target) =
      (unreplaced records).filter (Record.decidesOn target) := by
  have undecided : rec.decidesOn target = false := by
    simp [Record.decidesOn, proposes]
  rw [unreplaced, unreplaced, List.filter_filter, List.filter_filter, List.filter_append,
    List.filter_singleton, undecided, Bool.false_and, cond_false, List.append_nil]
  apply List.filter_congr
  intro old isOld
  by_cases decides : old.decidesOn target = true
  · have settled : old.Settled := Or.inl (Record.decidesOn_iff.mp decides).1
    have same : ((records ++ [rec]).any fun other => other.supersedes ≠ "" && other.supersedes = old.id) =
        records.any fun other => other.supersedes ≠ "" && other.supersedes = old.id := by
      rw [List.any_append]
      by_cases replaces : rec.Replaces old.id
      · have gone : (records.any fun other => other.supersedes ≠ "" && other.supersedes = old.id) = true := by
          by_contra kept
          have isLive : old ∈ live records := mem_live.mpr ⟨isOld, by simpa [Record.Replaces] using kept⟩
          exact harmless old isLive settled replaces
        rw [gone, Bool.true_or]
      · have elsewhere : ([rec].any fun other => other.supersedes ≠ "" && other.supersedes = old.id) = false := by
          simpa [Record.Replaces] using replaces
        rw [elsewhere, Bool.or_false]
    rw [same]
  · simp [decides]

theorem reviewDecisions_append_harmless (distinct : (records.map Record.id).Nodup) (target : String) :
    reviewDecisions (live (records ++ [rec])) target = reviewDecisions (live records) target := by
  have deciding := deciding_append harmless proposes target
  have among : (((unreplaced records).filter (Record.decidesOn target)).map Record.id).Sublist
      (records.map Record.id) := (List.filter_sublist.trans List.filter_sublist).map Record.id
  have distinctToo : (((unreplaced records).filter (Record.decidesOn target)).map Record.id).Nodup :=
    List.Nodup.sublist among distinct
  rw [reviewDecisions_eq, reviewDecisions_eq, live, live, filter_orderByID distinctToo]
  rw [deciding]

theorem unpromoted_append (distinct : (records.map Record.id).Nodup)
    (unreviewed : ∀ old ∈ records, old.decidesOn rec.id = false) :
    Unpromoted records (records ++ [rec]) := by
  have decisions := reviewDecisions_append_harmless harmless proposes distinct
  constructor
  · intro claim member
    simp only [confirmedClaims, claimsConfirmed, (orderByID_perm _).mem_iff, List.mem_filter,
      Bool.and_eq_true, decide_eq_true_eq, decisions] at member ⊢
    obtain ⟨isLive, isClaim, confirmed⟩ := member
    refine ⟨?_, isClaim, confirmed⟩
    obtain ⟨among, unreplaced⟩ := mem_live.mp isLive
    rcases List.mem_append.mp among with before | new
    · exact mem_live.mpr ⟨before, fun other isOther => unreplaced other (List.mem_append_left _ isOther)⟩
    · -- The new record cannot have been reviewed before it was there.
      cases List.mem_singleton.mp new
      rw [reviewDecisions_eq, Option.map_eq_some_iff] at confirmed
      obtain ⟨review, isLast, _⟩ := confirmed
      have decides := List.mem_of_getLast? isLast
      rw [List.mem_filter, mem_live] at decides
      rw [unreviewed review decides.1.1] at decides
      cases decides.2
  · intro claim _ _ rejected
    rw [decisions]
    exact rejected
  · intro old isLive settled
    obtain ⟨among, unreplaced⟩ := mem_live.mp isLive
    refine mem_live.mpr ⟨List.mem_append_left _ among, ?_⟩
    intro other isOther
    rcases List.mem_append.mp isOther with before | new
    · exact unreplaced other before
    · cases List.mem_singleton.mp new
      exact harmless old isLive settled

end Add

theorem Unpromoted.harmless (kept : Unpromoted records (records ++ [rec])) : Harmless records rec := by
  intro target isLive settled replaces
  have still := kept.settled target isLive settled
  exact (mem_live.mp still).2 rec (List.mem_append_right _ List.mem_cons_self) replaces

def Grounded (db : LedgerDb) : Prop :=
  ∀ review ∈ db.records, ∀ target, review.decidesOn target = true → ∃ rec ∈ db.records, rec.id = target

structure Rooted (s : LedgerState) : Prop where
  grounded : Grounded s.db
  earlier : ∀ entry ∈ s.log, Grounded entry.before

theorem in_review_of_decides {options : AppendOptions} (admitted : checkAuthority rec options = .ok ())
    (decides : rec.decidesOn target = true) : options.reviewTransaction = true := by
  obtain ⟨reviews, _, _, decided⟩ := Record.decidesOn_iff.mp decides
  cases (checkAuthority_ok admitted).1 with
  | reviewed kind isReview decides inReview => exact inReview
  | proposedByAgent kind proposes => simp [proposes] at decided
  | proposedByHuman kind proposes => simp [proposes] at decided
  | graded kind grades confirms => simp [grades] at reviews
  | observed kind evidences observes declared own covered => simp [observes] at decided
  | derived kind derives => simp [derives] at decided

theorem Sound.reviewed_target (sound : Sound store s id txn) (member : rec ∈ recordsOf txn.writes)
    (decides : rec.decidesOn target = true) :
    ∃ other ∈ s.db.records ++ recordsOf txn.writes, other.id = target := by
  have brought := sound.brought rec member
  have inReview := in_review_of_decides brought.admitted decides
  have brings := brought.brings
  obtain ⟨stamps, reviewID, decisions, expected, rationale, called⟩ := Call.commitReview_of_inReview inReview
  rw [called] at brings
  obtain ⟨_, _, _, _, _, _, _, other, found⟩ := brings
  obtain ⟨named, there⟩ := sound.found _ found
  exact ⟨other, there, named.trans (Record.decidesOn_iff.mp decides).2.1⟩

theorem Rooted.act {action : Action} (rooted : Rooted s) (inv : Inv store s)
    (taken : s.act store action = some next) : Rooted next := by
  cases moved_of_act taken with
  | started free moved =>
      subst moved
      exact ⟨rooted.grounded, rooted.earlier⟩
  | answered inFlight rest sameDb sameLog txns held others =>
      exact ⟨by rw [sameDb]; exact rooted.grounded, by rw [sameLog]; exact rooted.earlier⟩
  | ended inFlight kind moved =>
      subst moved
      exact ⟨rooted.grounded, rooted.earlier⟩
  | committed inFlight rest moved =>
      rename_i id txn result
      subst moved
      constructor
      · intro review member target decides
        simp only [World.commit, view_records, List.mem_append] at member ⊢
        rcases member with before | new
        · obtain ⟨rec, isRec, named⟩ := rooted.grounded review before target decides
          exact ⟨rec, Or.inl isRec, named⟩
        · obtain ⟨other, there, named⟩ := (inv.sound id txn inFlight).reviewed_target new decides
          exact ⟨other, List.mem_append.mp there, named⟩
      · intro entry member
        rcases List.mem_append.mp member with before | new
        · exact rooted.earlier entry before
        · cases List.mem_singleton.mp new
          exact rooted.grounded
  | registered moved =>
      subst moved
      exact ⟨rooted.grounded, rooted.earlier⟩

theorem rooted_of_reachable (reached : s.Reachable store) : Rooted s := by
  have both : Inv store s ∧ Rooted s := by
    apply reached.invariant (fun s => Inv store s ∧ Rooted s)
    · refine ⟨inv_init, ⟨?_, ?_⟩⟩
      · intro review member
        cases member
      · intro entry member
        cases member
    · intro before action after held _ taken
      exact ⟨held.1.act taken, held.2.act held.1 taken⟩
  exact both.2

def LedgerDb.addAll (db : LedgerDb) (records : List Record) : LedgerDb :=
  { db with records := db.records ++ records }

theorem LedgerDb.runRecords_add (db : LedgerDb) (rec : Record) (runID : String) :
    (db.add rec).runRecords runID =
      if rec.runID = runID then db.runRecords runID ++ [rec] else db.runRecords runID := by
  by_cases same : rec.runID = runID <;> simp [runRecords, add, apply, same]

section Agent

variable {entry : Success} {earlier rest : List Record}
  (split : entry.result.records = earlier ++ rec :: rest) (agent : rec.origin.kind = .agent)
include split agent

theorem agent_proposes (holds : entry.Holds) : rec.authority = .proposed := by
  have among : rec ∈ entry.result.records := by
    rw [split]
    simp
  cases (checkAuthority_ok (holds.entered rec among).admitted).1 with
  | proposedByAgent kind proposes => exact proposes
  | proposedByHuman kind proposes => exact proposes
  | graded kind grades confirms => simp [agent] at kind
  | reviewed kind reviews decides inReview => simp [agent] at kind
  | observed kind evidences observes declared own covered => simp [agent] at kind
  | derived kind derives => simp [agent] at kind

/-- None of the records before an agent's decides on it: those of other calls are of records that were
there, and those of its own call decide nothing. -/
theorem agent_unreviewed (holds : entry.Holds) (grounded : Grounded entry.before)
    (distinct : (entry.after.records.map Record.id).Nodup) :
    ∀ old ∈ (entry.before.addAll earlier).records, old.decidesOn rec.id = false := by
  have among : rec ∈ entry.result.records := by
    rw [split]
    simp
  intro old isOld
  by_contra decides
  rw [Bool.not_eq_false] at decides
  rcases List.mem_append.mp isOld with before | own
  · obtain ⟨other, isOther, named⟩ := grounded old before rec.id decides
    rw [holds.records, List.map_append, List.nodup_append] at distinct
    exact distinct.2.2 other.id (List.mem_map_of_mem isOther) rec.id (List.mem_map_of_mem among) named
  · have oldAmong : old ∈ entry.result.records := by
      rw [split]
      exact List.mem_append_left _ own
    have inReview := in_review_of_decides (holds.entered old oldAmong).admitted decides
    have human := ((holds.entered rec among).reviewer inReview).1
    rw [agent] at human
    cases human

end Agent

theorem distinct_of_listed {entry : Success} (reached : s.Reachable store) (listed : entry ∈ s.log) :
    (entry.after.records.map Record.id).Nodup := by
  obtain ⟨added, same⟩ := ((History.of_reachable reached).kept entry listed).records
  have distinct := (inv_of_reachable reached).distinct
  rw [same, List.map_append] at distinct
  exact distinct.of_append_left

/-- An agent's record, appended by itself or after others of its delta, promotes nothing and undoes
nothing exactly when it does not replace a live decision, measurement or computation of its run. -/
theorem unpromoted_iff (reached : s.Reachable store) {entry : Success} (listed : entry ∈ s.log)
    {earlier rest : List Record} (split : entry.result.records = earlier ++ rec :: rest)
    (agent : rec.origin.kind = .agent) :
    (∀ runID, Unpromoted ((entry.before.addAll earlier).runRecords runID)
        (((entry.before.addAll earlier).add rec).runRecords runID)) ↔
      Harmless ((entry.before.addAll earlier).runRecords rec.runID) rec := by
  have holds := (History.of_reachable reached).holds entry listed
  have distinct := distinct_of_listed reached listed
  constructor
  · intro kept
    have here := kept rec.runID
    rw [LedgerDb.runRecords_add, if_pos rfl] at here
    exact here.harmless
  · intro harmless runID
    rw [LedgerDb.runRecords_add]
    by_cases same : rec.runID = runID
    · subst same
      rw [if_pos rfl]
      apply unpromoted_append harmless (agent_proposes split agent holds)
      · have sublist : ((entry.before.addAll earlier).runRecords rec.runID).Sublist entry.after.records := by
          rw [holds.records, split]
          exact List.filter_sublist.trans
            ((List.Sublist.refl _).append (List.sublist_append_left earlier (rec :: rest)))
        exact List.Nodup.sublist (sublist.map Record.id) distinct
      · intro old isOld
        have grounded := (rooted_of_reachable reached).earlier entry listed
        exact agent_unreviewed split agent holds grounded distinct old (List.mem_of_mem_filter isOld)
    · rw [if_neg same]
      exact Unpromoted.refl _

instance (rec : Record) : Decidable rec.Settled :=
  inferInstanceAs (Decidable (_ ∨ _ ∨ _))

instance (rec : Record) (target : String) : Decidable (rec.Replaces target) :=
  inferInstanceAs (Decidable (_ ∧ _))

theorem harmless_iff : (∀ target ∈ unreplaced records, target.Settled → ¬ rec.Replaces target.id) ↔
    Harmless records rec := by
  simp only [Harmless, mem_live, mem_unreplaced]

instance (records : List Record) (rec : Record) : Decidable (Harmless records rec) :=
  decidable_of_iff _ harmless_iff

/-- A person decides on an agent's claim, and the agent then replaces the record named. -/
def decidedThenReplaced (verdict : Verdict) (supersedes : String) : List Action :=
  [.register ⟨"actor_writer", "writer", "agent"⟩, .register ⟨"actor_reader", "reader", "human"⟩] ++
    wholeCall 0 (.append
      [(firstStamp,
        { recordType := .claim, runID := "run_1", authority := .proposed
          origin := { kind := .agent, actorID := "actor_writer" } })] none) 2 ++
    wholeCall 1 (.createReviewRequest secondStamp "run_1" ["ledger_1"] 1
      "actor_reader") 4 ++
    wholeCall 2 (.commitReview (fun _ => thirdStamp) "review_2"
      [("ledger_1", verdict)] 1 "") 9 ++
    wholeCall 3 (.append
      [(fourthStamp,
        { recordType := .claim, runID := "run_1", authority := .proposed, supersedes := supersedes
          origin := { kind := .agent, actorID := "actor_writer" } })] none) 2

/-- The last call of the log has appended one record, an agent's, that replaces something settled or
does not, as asked. -/
def lastAgentAppend (harmless : Bool) (s : LedgerState) : Bool :=
  s.log.getLast?.any fun entry =>
    match entry.result.records with
    | [rec] => rec.origin.kind = .agent &&
        decide (Harmless ((entry.before.addAll []).runRecords rec.runID) rec) = harmless
    | _ => false

theorem lastAgentAppend_eq {harmless : Bool} (isLast : lastAgentAppend harmless s = true) :
    ∃ entry ∈ s.log, ∃ rec, entry.result.records = [] ++ rec :: [] ∧ rec.origin.kind = .agent ∧
      decide (Harmless ((entry.before.addAll []).runRecords rec.runID) rec) = harmless := by
  rw [lastAgentAppend, Option.any_eq_true] at isLast
  obtain ⟨entry, last, appended⟩ := isLast
  refine ⟨entry, List.mem_of_getLast? last, ?_⟩
  split at appended
  · rename_i rec single
    simp only [Bool.and_eq_true, decide_eq_true_eq] at appended
    exact ⟨rec, single, appended⟩
  · cases appended

theorem unpromoted_iff_revisedClaim :
    ∃ (s : LedgerState) (entry : Success) (rec : Record), s.Reachable openStore ∧ entry ∈ s.log ∧
      entry.result.records = [] ++ rec :: [] ∧ rec.origin.kind = .agent ∧
      ∀ runID, Unpromoted ((entry.before.addAll []).runRecords runID)
        (((entry.before.addAll []).add rec).runRecords runID) := by
  have ran : (Steps.ofList (LedgerState.act openStore) (fun _ _ => true) LedgerState.init
      (decidedThenReplaced .confirm "ledger_1")).map (lastAgentAppend true) = some true := by
    decide +kernel
  obtain ⟨s, run, isLast⟩ := Steps.reaches_of_ofList (fun _ _ _ => trivial) ran
  have reached : s.Reachable openStore := run
  obtain ⟨entry, listed, rec, split, agent, harmless⟩ := lastAgentAppend_eq isLast
  exact ⟨s, entry, rec, reached, listed, split, agent,
    (unpromoted_iff reached listed split agent).mpr (of_decide_eq_true harmless)⟩

/-- An agent replaces the review that rejected its claim, and the claim is undecided again. -/
theorem agent_undoes_rejection :
    ¬ ∀ (store : Store) (s : LedgerState) (entry : Success) (earlier rest : List Record) (rec : Record),
      s.Reachable store → entry ∈ s.log → entry.result.records = earlier ++ rec :: rest →
      rec.origin.kind = .agent →
        ∀ runID, Unpromoted ((entry.before.addAll earlier).runRecords runID)
          (((entry.before.addAll earlier).add rec).runRecords runID) := by
  intro always
  have ran : (Steps.ofList (LedgerState.act openStore) (fun _ _ => true) LedgerState.init
      (decidedThenReplaced .reject "ledger_3")).map (lastAgentAppend false) = some true := by
    decide +kernel
  obtain ⟨s, run, isLast⟩ := Steps.reaches_of_ofList (fun _ _ _ => trivial) ran
  have reached : s.Reachable openStore := run
  obtain ⟨entry, listed, rec, split, agent, harmful⟩ := lastAgentAppend_eq isLast
  have kept := always openStore s entry [] [] rec reached listed split agent rec.runID
  rw [LedgerDb.runRecords_add, if_pos rfl] at kept
  exact of_decide_eq_false harmful kept.harmless

end CultureNodes.Ledger
