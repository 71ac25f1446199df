import CultureNodes.Ledger.Promotion
import CultureNodes.Store.Ulid

/-!
Which of several reviews counts. The projections take the one with the highest id, and ids are minted by
processes with clocks of their own. A call of the ledger carries the ids it will draw; here the id of a
review is the one that a process mints at the step that inserts it.
-/

namespace CultureNodes.Ledger

open CultureNodes.Store (Ulid UlidState Tick newULID MintsAfter)

variable {store : Store} {s next : LedgerState} {rec : Record} {id : Nat} {txn : Txn Write Session}
  {records : List Record} {target : String}

def ledgerID (ulid : Ulid) : String := "ledger_" ++ ulid.text

theorem ledgerID_lt {first second : Ulid} : ledgerID first < ledgerID second ↔ first.Before second := by
  rw [← Ulid.text_lt_iff, ledgerID, ledgerID, String.lt_iff_toList_lt, String.lt_iff_toList_lt,
    String.toList_append, String.toList_append]
  simp

def Session.nextReview (body : Session) : Option Record :=
  match body.call, body.rest with
  | .commitReview .., .call (.insertRecord rec) _ => some rec
  | _, _ => none

def LedgerState.nextReview (s : LedgerState) : Action → Option Record
  | .advance id => (s.txns id).bind fun txn => txn.body.nextReview
  | _ => none

structure ClockedState where
  ledger : LedgerState
  processes : Nat → UlidState

inductive ClockedAction where
  | call (action : Action)
  | mint (process : Nat) (tick : Tick)
  | review (process : Nat) (tick : Tick) (txn : Nat)

namespace ClockedState

def init : ClockedState := ⟨.init, fun _ => {}⟩

variable (store : Store) (s : ClockedState)

/-- A step of the ledger that inserts no review. -/
def call (action : Action) : Option ClockedState :=
  match s.ledger.nextReview action with
  | some _ => none
  | none => (s.ledger.act store action).map fun ledger => { s with ledger := ledger }

/-- A process mints an id for something else. -/
def mint (process : Nat) (tick : Tick) : ClockedState :=
  { s with processes := Function.update s.processes process (newULID (s.processes process) tick).1 }

def review (process : Nat) (tick : Tick) (txn : Nat) : Option ClockedState :=
  match s.ledger.nextReview (.advance txn) with
  | none => none
  | some rec =>
      if rec.id = ledgerID (newULID (s.processes process) tick).2 then
        (s.ledger.act store (.advance txn)).map fun ledger => { s.mint process tick with ledger := ledger }
      else none

def act : ClockedAction → Option ClockedState
  | .call action => s.call store action
  | .mint process tick => some (s.mint process tick)
  | .review process tick txn => s.review store process tick txn

end ClockedState

def Ahead (s : ClockedState) : ClockedAction → Prop
  | .review process tick id => ∀ txn rec, s.ledger.txns id = some txn → txn.body.nextReview = some rec →
      ∀ old ∈ (s.ledger.view LedgerDb.apply txn).records, old.runID = rec.runID →
        old.decidesOn rec.subjectRef = true → ∀ ulid, old.id = ledgerID ulid →
          MintsAfter (s.processes process) tick ulid
  | _ => True

/-- Later reviews of a record have higher ids. -/
def Growing (records : List Record) : Prop :=
  records.Pairwise fun old new => old.runID = new.runID →
    ∀ target, old.decidesOn target = true → new.decidesOn target = true → old.id < new.id

def Minted (records : List Record) : Prop :=
  ∀ rec ∈ records, ∀ target, rec.decidesOn target = true → ∃ ulid, rec.id = ledgerID ulid

structure Recent (s : LedgerState) : Prop where
  growing : Growing s.db.records
  minted : Minted s.db.records
  pending : ∀ id txn, s.txns id = some txn →
    Growing (s.db.records ++ recordsOf txn.writes) ∧ Minted (recordsOf txn.writes)

/-- A review that a statement inserts is minted, after those it can see. -/
def Fresh (s : LedgerState) (action : Action) : Prop :=
  ∀ id txn rec onward, action = .advance id → s.txns id = some txn →
    txn.body.rest = .call (.insertRecord rec) onward → ∀ target, rec.decidesOn target = true →
      (∃ ulid, rec.id = ledgerID ulid) ∧ ∀ old ∈ (s.view LedgerDb.apply txn).records,
        old.runID = rec.runID → old.decidesOn target = true → old.id < rec.id

theorem Recent.answered {statement : Statement} {onward : Answer statement → Script} (recent : Recent s)
    (inFlight : s.txns id = some txn) (rest : txn.body.rest = .call statement onward)
    (fresh : Fresh s (.advance id)) :
    Growing (s.db.records ++ recordsOf (s.answered store txn statement onward).writes) ∧
      Minted (recordsOf (s.answered store txn statement onward).writes) := by
  obtain ⟨growing, minted⟩ := recent.pending id txn inFlight
  have written := wrote store (s.view LedgerDb.apply txn) statement
  simp only [LedgerState.answered, recordsOf_append, ← List.append_assoc]
  generalize writesOf statement ((s.view LedgerDb.apply txn).answer store statement) = news at written
  cases written with
  | nothing => simpa using ⟨growing, minted⟩
  | request taken => simpa using ⟨growing, minted⟩
  | committed opened => simpa using ⟨growing, minted⟩
  | record taken =>
      rename_i rec
      have isFresh := fresh id txn rec onward rfl inFlight rest
      constructor
      · rw [← view_records] at growing ⊢
        refine List.pairwise_append.mpr ⟨growing, List.pairwise_singleton _ _, ?_⟩
        intro old isOld new isNew sameRun target oldDecides newDecides
        cases List.mem_singleton.mp isNew
        exact (isFresh target newDecides).2 old isOld sameRun oldDecides
      · intro new member target decides
        rcases List.mem_append.mp member with before | isNew
        · exact minted new before target decides
        · cases List.mem_singleton.mp isNew
          exact (isFresh target decides).1

theorem Recent.of_same (recent : Recent s) (records : next.db.records = s.db.records)
    (pending : ∀ id txn, next.txns id = some txn →
      Growing (s.db.records ++ recordsOf txn.writes) ∧ Minted (recordsOf txn.writes)) : Recent next where
  growing := by
    rw [records]
    exact recent.growing
  minted := by
    rw [records]
    exact recent.minted
  pending := by
    rw [records]
    exact pending

theorem Recent.act {action : Action} (recent : Recent s) (inv : Inv store s) (fresh : Fresh s action)
    (taken : s.act store action = some next) : Recent next := by
  cases moved_of_act taken with
  | started free moved =>
      rename_i id call
      subst moved
      apply recent.of_same
      · rfl
      intro other rival inFlight
      rcases World.inFlight_update inFlight with ⟨rfl, rfl⟩ | ⟨_, before⟩
      · simpa [Minted] using recent.growing
      · exact recent.pending other rival before
  | answered inFlight rest sameDb sameLog txns held others =>
      rename_i id txn statement onward
      apply recent.of_same (by rw [sameDb])
      intro other rival rivalInFlight
      rw [txns] at rivalInFlight
      rcases World.inFlight_update rivalInFlight with ⟨rfl, rfl⟩ | ⟨_, before⟩
      · exact recent.answered inFlight rest fresh
      · exact recent.pending other rival before
  | ended inFlight kind moved =>
      rename_i id txn
      subst moved
      apply recent.of_same
      · rfl
      intro other rival rivalInFlight
      exact recent.pending other rival (World.inFlight_ended rivalInFlight).2
  | committed inFlight rest moved =>
      rename_i id txn result
      subst moved
      obtain ⟨growing, minted⟩ := recent.pending id txn inFlight
      have sound := inv.sound id txn inFlight
      constructor
      · simp only [World.commit, view_records]
        exact growing
      · intro rec member
        simp only [World.commit, view_records, List.mem_append] at member
        rcases member with before | new
        · exact recent.minted rec before
        · exact minted rec new
      · intro other rival rivalInFlight
        obtain ⟨different, before⟩ := World.inFlight_ended rivalInFlight
        obtain ⟨theirs, theirsMinted⟩ := recent.pending other rival before
        refine ⟨?_, theirsMinted⟩
        simp only [World.commit, view_records]
        apply pairwise_append_append growing theirs
        -- Both calls hold the lock of the run they write to.
        intro mine isMine theirs isTheirs sameRun
        have locked := sound.held _ (sound.brought mine isMine).run
        have rivalSound := inv.sound other rival before
        have lockedToo := rivalSound.held _ (rivalSound.brought theirs isTheirs).run
        rw [sameRun, lockedToo] at locked
        exact absurd (Option.some.inj locked) different
  | registered moved =>
      subst moved
      exact recent.of_same rfl recent.pending

/-- A step that inserts no review of a commit inserts no review that decides. -/
theorem fresh_of_call {action : Action} (inv : Inv store s) (none : s.nextReview action = none) :
    Fresh s action := by
  intro id txn rec onward isAdvance inFlight rest target decides
  subst isAdvance
  have keeps := (inv.sound id txn inFlight).keeps
  rw [rest] at keeps
  obtain ⟨_, _, admitted, _, _⟩ := keeps.1
  have inReview := in_review_of_decides admitted decides
  obtain ⟨stamps, reviewID, decisions, expected, rationale, called⟩ := Call.commitReview_of_inReview inReview
  have isNext : s.nextReview (.advance id) = some rec := by
    rw [LedgerState.nextReview, inFlight, Option.bind_some, Session.nextReview, called, rest]
  rw [isNext] at none
  contradiction

theorem Session.nextReview_eq {body : Session} {rec : Record} {onward : Answer (.insertRecord rec) → Script}
    {review : Record} (isNext : body.nextReview = some review)
    (rest : body.rest = .call (.insertRecord rec) onward) : review = rec := by
  obtain ⟨call, seen, script⟩ := body
  cases rest
  cases call with
  | commitReview stamps reviewID decisions expected rationale =>
      cases isNext
      rfl
  | append entries manifest => cases isNext
  | appendSuperseding stamp given supersedesID manifest => cases isNext
  | createReviewRequest stamp runID recordIDs version reviewer => cases isNext

theorem fresh_of_review {c : ClockedState} {process : Nat} {tick : Tick} (recent : Recent c.ledger)
    (ahead : Ahead c (.review process tick id)) {review : Record}
    (isNext : c.ledger.nextReview (.advance id) = some review)
    (minted : review.id = ledgerID (newULID (c.processes process) tick).2) :
    Fresh c.ledger (.advance id) := by
  intro other txn rec onward isAdvance inFlight rest target decides
  cases isAdvance
  have isReview : txn.body.nextReview = some review := by
    simpa [LedgerState.nextReview, inFlight] using isNext
  cases Session.nextReview_eq isReview rest
  refine ⟨⟨_, minted⟩, ?_⟩
  intro old isOld sameRun oldDecides
  obtain ⟨ulid, named⟩ : ∃ ulid, old.id = ledgerID ulid := by
    rcases List.mem_append.mp (view_records ▸ isOld) with before | own
    · exact recent.minted old before target oldDecides
    · exact (recent.pending id txn inFlight).2 old own target oldDecides
  have sameTarget := (Record.decidesOn_iff.mp decides).2.1
  rw [← sameTarget] at oldDecides
  have after := ahead txn review inFlight isReview old isOld sameRun oldDecides ulid named
  rw [named, minted]
  exact ledgerID_lt.mpr after.before

theorem Growing.deciding (growing : Growing s.db.records) (runID target : String) :
    ((unreplaced (s.db.runRecords runID)).filter (Record.decidesOn target)).Pairwise fun old new =>
      old.id < new.id := by
  have among : ((unreplaced (s.db.runRecords runID)).filter (Record.decidesOn target)).Sublist
      s.db.records :=
    (List.filter_sublist.trans List.filter_sublist).trans List.filter_sublist
  refine (growing.sublist among).imp_of_mem ?_
  intro old new isOld isNew grows
  have facts {rec : Record}
      (member : rec ∈ (unreplaced (s.db.runRecords runID)).filter (Record.decidesOn target)) :
      rec.runID = runID ∧ rec.decidesOn target = true := by
    obtain ⟨isUnreplaced, decides⟩ := List.mem_filter.mp member
    have isOfRun := (List.mem_filter.mp (mem_unreplaced.mp isUnreplaced).1).2
    exact ⟨of_decide_eq_true isOfRun, decides⟩
  exact grows ((facts isOld).1.trans (facts isNew).1.symm) target (facts isOld).2 (facts isNew).2

/-- The invariant of a run with clocks: the one of the ledger, and ids that grow with the reviews. -/
theorem recent_act {c after : ClockedState} {action : ClockedAction}
    (held : Inv store c.ledger ∧ Recent c.ledger) (ahead : Ahead c action)
    (taken : c.act store action = some after) : Inv store after.ledger ∧ Recent after.ledger := by
  obtain ⟨inv, recent⟩ := held
  cases action with
  | call action =>
      simp only [ClockedState.act, ClockedState.call] at taken
      cases isNext : c.ledger.nextReview action with
      | some review =>
          rw [isNext] at taken
          cases taken
      | none =>
          rw [isNext] at taken
          obtain ⟨ledger, stepped, rfl⟩ := Option.map_eq_some_iff.mp taken
          exact ⟨inv.act stepped, recent.act inv (fresh_of_call inv isNext) stepped⟩
  | mint process tick =>
      cases taken
      exact ⟨inv, recent⟩
  | review process tick id =>
      simp only [ClockedState.act, ClockedState.review] at taken
      cases isNext : c.ledger.nextReview (.advance id) with
      | none =>
          rw [isNext] at taken
          cases taken
      | some review =>
          rw [isNext] at taken
          dsimp only at taken
          split at taken
          · rename_i minted
            obtain ⟨ledger, stepped, rfl⟩ := Option.map_eq_some_iff.mp taken
            exact ⟨inv.act stepped, recent.act inv (fresh_of_review recent ahead isNext minted) stepped⟩
          · cases taken

/-- Where each review is minted after the earlier ones of its record, the projections of a run go by the
review that was committed last. -/
theorem decisions_recent {c : ClockedState}
    (run : Steps (fun s action next => s.act store action = some next) Ahead ClockedState.init c)
    (runID : String) :
    reviewDecisions (live (c.ledger.db.runRecords runID)) = lastDecision (c.ledger.db.runRecords runID) ∧
      confirmedClaims (c.ledger.db.runRecords runID) =
        claimsConfirmed (lastDecision (c.ledger.db.runRecords runID)) (live (c.ledger.db.runRecords runID)) ∧
      deliverySummary (c.ledger.db.runRecords runID) =
        summarize (lastDecision (c.ledger.db.runRecords runID)) (c.ledger.db.runRecords runID) := by
  have both : Inv store c.ledger ∧ Recent c.ledger := by
    apply run.invariant fun c => Inv store c.ledger ∧ Recent c.ledger
    · refine ⟨inv_init, List.Pairwise.nil, ?_, ?_⟩
      · intro rec member
        cases member
      · intro id txn inFlight
        cases inFlight
    · intro before action after held ahead taken
      exact recent_act held ahead taken
  have same : reviewDecisions (live (c.ledger.db.runRecords runID)) =
      lastDecision (c.ledger.db.runRecords runID) := by
    funext target
    exact reviewDecisions_live (both.2.growing.deciding runID target)
  exact ⟨same, by rw [confirmedClaims, same], by rw [deliverySummary, same]⟩

/-- The millisecond of the next review is later than those of the reviews of its record. -/
def ahead (c : ClockedState) : ClockedAction → Bool
  | .review _ tick id =>
      (c.ledger.txns id).all fun txn => txn.body.nextReview.all fun rec =>
        (c.ledger.view LedgerDb.apply txn).records.all fun old =>
          old.runID ≠ rec.runID || !old.decidesOn rec.subjectRef ||
            old.id < ledgerID ⟨BitVec.ofInt 48 tick.ms, 0⟩
  | _ => true

theorem ahead_sound {c : ClockedState} {action : ClockedAction} (passes : ahead c action = true) :
    Ahead c action := by
  cases action with
  | call action => trivial
  | mint process tick => trivial
  | review process tick id =>
      intro txn rec inFlight isNext old isOld sameRun decides ulid named
      simp only [ahead, inFlight, Option.all_some, isNext, List.all_eq_true] at passes
      have earlier := passes old isOld
      simp only [sameRun, decides, named, ne_eq, not_true_eq_false, decide_false, Bool.not_true, Bool.or_self,
        Bool.false_or, decide_eq_true_eq, ledgerID_lt] at earlier
      rcases earlier with less | ⟨_, below⟩
      · exact Or.inl less
      · exact absurd below (BitVec.not_lt_zero)

theorem ledgerID_ne_empty (ulid : Ulid) : ledgerID ulid ≠ "" := by
  simp [ledgerID]

/-- A person's review of `ledger_1`, the id of its record minted by the process at the tick. -/
def reviewRound (txn process : Nat) (tick : Tick) (asked : String) (version : Nat) (verdict : Verdict)
    (named : "ledger_" ++ asked ≠ "") : List ClockedAction :=
  (wholeCall txn (.createReviewRequest ⟨"ledger_" ++ asked, 2000, named, secondStamp.dated⟩ "run_1"
      ["ledger_1"] version "actor_reader") 4).map .call ++
    .call (.start (txn + 1) (.commitReview
      (fun _ => ⟨ledgerID (newULID {} tick).2, 3000, ledgerID_ne_empty _, thirdStamp.dated⟩)
      ("review_" ++ asked) [("ledger_1", verdict)] version "")) ::
    List.replicate 6 (.call (.advance (txn + 1))) ++
    [.review process tick (txn + 1), .call (.advance (txn + 1)), .call (.advance (txn + 1)),
      .call (.finish (txn + 1))]

/-- A claim is confirmed through one process and then rejected through another. -/
def confirmedThenRejected (first second : Tick) : List ClockedAction :=
  ([Action.register ⟨"actor_writer", "writer", "agent"⟩, .register ⟨"actor_reader", "reader", "human"⟩] ++
    wholeCall 0 (.append
      [(firstStamp,
        { recordType := .claim, runID := "run_1", authority := .proposed
          origin := { kind := .agent, actorID := "actor_writer" } })] none) 2).map .call ++
    reviewRound 1 0 first "a" 1 .confirm (by decide) ++
    reviewRound 3 1 second "b" 2 .reject (by decide)

/-- What the live reviews of the claim say, in the order they were committed in. -/
def claimReviews (c : ClockedState) : List (String × Authority) :=
  ((unreplaced (c.ledger.db.runRecords "run_1")).filter (Record.decidesOn "ledger_1")).map fun rec =>
    (rec.id, rec.authority)

theorem lastDecision_claimReviews (c : ClockedState) :
    lastDecision (c.ledger.db.runRecords "run_1") "ledger_1" = (claimReviews c).getLast?.map Prod.snd := by
  rw [lastDecision, claimReviews, List.getLast?_map, Option.map_map]
  rfl

theorem decisions_recent_confirmedThenRejected :
    ∃ c : ClockedState,
      Steps (fun s action next => s.act openStore action = some next) Ahead ClockedState.init c ∧
      lastDecision (c.ledger.db.runRecords "run_1") "ledger_1" = some .rejected ∧
      reviewDecisions (live (c.ledger.db.runRecords "run_1")) =
        lastDecision (c.ledger.db.runRecords "run_1") := by
  have ran : (Steps.ofList (ClockedState.act openStore) ahead ClockedState.init
      (confirmedThenRejected ⟨1, 7⟩ ⟨2, 5⟩)).map (fun c => (claimReviews c).getLast?.map Prod.snd) =
        some (some .rejected) := by
    decide +kernel
  obtain ⟨c, run, last⟩ := Steps.reaches_of_ofList (fun _ _ => ahead_sound) ran
  refine ⟨c, run, ?_, (decisions_recent run "run_1").1⟩
  rw [lastDecision_claimReviews]
  exact last

theorem reviewDecisions_two {first second : Record}
    (deciding : (unreplaced records).filter (Record.decidesOn target) = [first, second])
    (less : second.id < first.id) : reviewDecisions (live records) target = some first.authority := by
  have inOrder : (orderByID (unreplaced records)).filter (Record.decidesOn target) = [second, first] := by
    apply eq_of_sorted
    · simpa using ne_of_lt less
    · refine ((orderByID_perm _).filter _).trans ?_
      rw [deciding]
      exact List.Perm.swap second first []
    · simpa using le_of_lt less
    · exact (orderByID_sorted _).filter _
  rw [reviewDecisions_eq, live, inOrder]
  rfl

/-- The second process's clock is behind, and the rejection does not count. -/
theorem rejection_overlooked :
    ¬ ∀ (store : Store) (c : ClockedState),
      Steps (fun s action next => s.act store action = some next) anyAction ClockedState.init c →
      ∀ runID,
        reviewDecisions (live (c.ledger.db.runRecords runID)) = lastDecision (c.ledger.db.runRecords runID) ∧
          confirmedClaims (c.ledger.db.runRecords runID) = claimsConfirmed
            (lastDecision (c.ledger.db.runRecords runID)) (live (c.ledger.db.runRecords runID)) ∧
          deliverySummary (c.ledger.db.runRecords runID) =
            summarize (lastDecision (c.ledger.db.runRecords runID)) (c.ledger.db.runRecords runID) := by
  intro always
  have ran : (Steps.ofList (ClockedState.act openStore) (fun _ _ => true) ClockedState.init
      (confirmedThenRejected ⟨2, 7⟩ ⟨1, 5⟩)).map claimReviews =
        some [(ledgerID ⟨2, 7⟩, .confirmed), (ledgerID ⟨1, 5⟩, .rejected)] := by
    decide +kernel
  obtain ⟨c, run, reviews⟩ := Steps.reaches_of_ofList (fun _ _ _ => trivial) ran
  have recent := congrFun (always openStore c run "run_1").1 "ledger_1"
  rw [lastDecision_claimReviews, reviews] at recent
  obtain ⟨first, rest, deciding, isFirst, isRest⟩ := List.map_eq_cons_iff.mp reviews
  obtain ⟨second, none, isPair, isSecond, isNone⟩ := List.map_eq_cons_iff.mp isRest
  rw [List.map_eq_nil_iff] at isNone
  rw [isPair, isNone] at deciding
  obtain ⟨firstID, confirmed⟩ := Prod.mk.inj isFirst
  have less : second.id < first.id := by
    rw [firstID, (Prod.mk.inj isSecond).1]
    exact ledgerID_lt.mpr (Or.inl (by decide))
  rw [reviewDecisions_two deciding less, confirmed] at recent
  cases recent

end CultureNodes.Ledger
