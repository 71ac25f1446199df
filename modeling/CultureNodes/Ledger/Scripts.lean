import CultureNodes.Ledger.Tx

/-!
What the ledger's transactions do along every path: under which locks and after which answers each of
them writes, and what it has written when it ends. These are facts about the text of the entry points,
whatever the statements answer.
-/

namespace CultureNodes.Ledger

/-- An entry point with its arguments. -/
inductive Call where
  | append (entries : List (Stamp × Record)) (manifest : Option RunnerManifest)
  | appendSuperseding (stamp : Stamp) (rec : Record) (supersedesID : String)
      (manifest : Option RunnerManifest)
  | createReviewRequest (stamp : Stamp) (runID : String) (recordIDs : List String) (ledgerVersion : Nat)
      (reviewer : String)
  | commitReview (stamps : Nat → Stamp) (reviewID : String) (decisions : List (String × Verdict))
      (expected : Nat) (rationale : String)

namespace Call

def script (store : Store) : Call → Script
  | .append entries manifest => appendAll store manifest entries []
  | .appendSuperseding stamp rec supersedesID manifest =>
      Ledger.appendSuperseding store stamp rec supersedesID manifest
  | .createReviewRequest stamp runID recordIDs ledgerVersion reviewer =>
      Ledger.createReviewRequest store stamp runID recordIDs ledgerVersion reviewer
  | .commitReview stamps reviewID decisions expected rationale =>
      Ledger.commitReview store stamps reviewID decisions expected rationale

/-- The record that the call replaces, once it has made sure that it may. -/
def corrects : Call → Option String
  | .appendSuperseding _ _ supersedesID _ => some supersedesID
  | _ => none

def options : Call → AppendOptions
  | .append _ manifest | .appendSuperseding _ _ _ manifest => { manifest := manifest }
  | .createReviewRequest .. => {}
  | .commitReview .. => { reviewTransaction := true }

theorem commitReview_of_inReview {call : Call} (inReview : call.options.reviewTransaction = true) :
    ∃ stamps reviewID decisions expected rationale,
      call = .commitReview stamps reviewID decisions expected rationale := by
  cases call with
  | append | appendSuperseding | createReviewRequest => cases inReview
  | commitReview stamps reviewID decisions expected rationale => exact ⟨_, _, _, _, _, rfl⟩

end Call

/-- The key a statement takes before it answers. -/
def Statement.key? : Statement → Option LockKey
  | .lock key => some key
  | .insertRecord rec => some (.record rec.id)
  | .insertReviewRequest req => some (.review req.id)
  | .markReviewCommitted id => some (.review id)
  | _ => none

/-- What a transaction has learnt so far. A version counts once its run is locked; with it stands what
had been written when it was read. -/
structure Seen where
  locks : List LockKey := []
  found : List (String × Record) := []
  unreplaced : List String := []
  requests : List (String × ReviewRequest) := []
  kinds : List (String × String) := []
  versions : List (String × Nat × List Write) := []
  writes : List Write := []

namespace Seen

/-- What one answered statement adds. -/
def learn (seen : Seen) : (statement : Statement) → Answer statement → Seen
  | .getRecord id, some rec => { seen with found := (id, rec) :: seen.found }
  | .liveSupersessors id, [] => { seen with unreplaced := id :: seen.unreplaced }
  | .getReviewRequest id, some req => { seen with requests := (id, req) :: seen.requests }
  | .actorKind id, some kind => { seen with kinds := (id, kind) :: seen.kinds }
  | .ledgerVersion runID, version =>
      if .run runID ∈ seen.locks then
        { seen with versions := (runID, version, seen.writes) :: seen.versions }
      else seen
  | _, _ => seen

def after (seen : Seen) (statement : Statement) (answer : Answer statement) : Seen :=
  { seen.learn statement answer with
    locks := statement.key?.toList ++ seen.locks
    writes := seen.writes ++ writesOf statement answer }

end Seen

/-- Where a record to be inserted comes from. -/
def Call.Brings (store : Store) (seen : Seen) (rec : Record) : Call → Prop
  | .append entries _ => ∃ entry ∈ entries, digested store (normalize entry.1 entry.2) = .ok rec
  | .appendSuperseding _ _ supersedesID _ =>
      supersedesID ≠ "" ∧ rec.supersedes = supersedesID ∧ .supersede supersedesID ∈ seen.locks ∧
        supersedesID ∈ seen.unreplaced ∧ ∃ target, (supersedesID, target) ∈ seen.found ∧
          target.runID = rec.runID
  | .createReviewRequest .. => False
  | .commitReview _ reviewID _ _ _ =>
      ∃ req, (reviewID, req) ∈ seen.requests ∧ (req.reviewerActorID, "human") ∈ seen.kinds ∧
        rec.recordType = .review ∧ rec.runID = req.runID ∧
        rec.origin = { kind := .human, actorID := req.reviewerActorID } ∧
        rec.supersedes = "" ∧ ∃ target, (rec.subjectRef, target) ∈ seen.found

/-- What a request to be inserted has been made from. -/
structure Call.Requests (seen : Seen) (req : ReviewRequest) (call : Call) : Prop where
  opens : req.status = .requested
  alone : seen.writes = []
  locked : .run req.runID ∈ seen.locks
  current : (req.runID, req.ledgerVersion, []) ∈ seen.versions
  distinct : req.recordIDs.Nodup

/-- Nothing but records has been written. -/
def Seen.OnlyRecords (seen : Seen) : Prop :=
  ∃ records : List Record, seen.writes = records.map Write.record

/-- The statements a call may issue with what it has learnt. -/
def Allowed (store : Store) (call : Call) (seen : Seen) : Statement → Prop
  | .insertRecord rec => seen.OnlyRecords ∧ .run rec.runID ∈ seen.locks ∧
      checkAuthority rec call.options = .ok () ∧ call.Brings store seen rec ∧
      (call.corrects.isSome = true → seen.writes = [])
  | .insertReviewRequest req => call.Requests seen req
  | .markReviewCommitted id => seen.OnlyRecords ∧
      ∃ asked req, (asked, req) ∈ seen.requests ∧ req.id = id ∧ .run req.runID ∈ seen.locks
  | .getReviewRequest _ => seen.writes = []
  | .liveSupersessors id => seen.writes = [] ∧ (call.corrects = some id → .supersede id ∈ seen.locks)
  | _ => True

/-- What a call that has ended with the result has done. -/
def Ended (seen : Seen) : Except LedgerError LedgerResult → Prop
  | .error _ => True
  | .ok (.appended records) => seen.writes = records.map Write.record
  | .ok (.requested req) => seen.writes = [.request req]
  | .ok (.reviewed reviewID records _) =>
      seen.writes = records.map Write.record ++ [.committed reviewID] ∧
        ∃ asked req, (asked, req) ∈ seen.requests ∧ req.id = reviewID ∧ .run req.runID ∈ seen.locks ∧
          (req.runID, req.ledgerVersion, []) ∈ seen.versions ∧
          records.map Record.subjectRef = req.recordIDs ∧
          ∀ rec ∈ records, rec.recordType = .review ∧ rec.runID = req.runID

/-- The script of a call keeps to what the call may do, from what it has learnt. -/
abbrev Keeps (store : Store) (call : Call) (seen : Seen) (script : Script) : Prop :=
  Program.Follows (Allowed store call) Seen.after Ended seen script

theorem LedgerDb.getRecord_eq_none {db : LedgerDb} {id : String} :
    db.getRecord id = none ↔ id ∉ db.records.map Record.id := by
  simp [LedgerDb.getRecord]

/-- When the table takes a new record. -/
theorem LedgerDb.insertRecord_ok_iff {store : Store} {db : LedgerDb} {rec : Record} :
    db.insertRecord store rec = .ok () ↔
      store.storable rec = true ∧ rec.id ∉ db.records.map Record.id ∧
        (rec.supersedes = "" ∨ rec.supersedes = rec.id ∨ rec.supersedes ∈ db.records.map Record.id) ∧
        (rec.origin.actorID = "" ∨ db.hasActor rec.origin.actorID = true) := by
  have known : (db.records.any fun old => old.id = rec.id) = true ↔ rec.id ∈ db.records.map Record.id := by
    simp
  have dangling : (rec.supersedes ≠ "" ∧ rec.supersedes ≠ rec.id ∧ db.getRecord rec.supersedes = none) ↔
      ¬ (rec.supersedes = "" ∨ rec.supersedes = rec.id ∨ rec.supersedes ∈ db.records.map Record.id) := by
    rw [LedgerDb.getRecord_eq_none]
    tauto
  have unregistered : (rec.origin.actorID ≠ "" ∧ db.hasActor rec.origin.actorID = false) ↔
      ¬ (rec.origin.actorID = "" ∨ db.hasActor rec.origin.actorID = true) := by
    rw [not_or, Bool.not_eq_true]
  by_cases fits : store.storable rec = false
  · rw [LedgerDb.insertRecord, if_pos fits]
    simp [fits]
  · rw [LedgerDb.insertRecord, if_neg fits]
    rw [Bool.not_eq_false] at fits
    by_cases taken : rec.id ∈ db.records.map Record.id
    · rw [if_pos (known.mpr taken)]
      simp [taken]
    · rw [if_neg (mt known.mp taken)]
      by_cases names : rec.supersedes = "" ∨ rec.supersedes = rec.id ∨
          rec.supersedes ∈ db.records.map Record.id
      · rw [if_neg (fun apart => dangling.mp apart names)]
        by_cases author : rec.origin.actorID = "" ∨ db.hasActor rec.origin.actorID = true
        · rw [if_neg (fun apart => unregistered.mp apart author)]
          exact ⟨fun _ => ⟨fits, taken, names, author⟩, fun _ => rfl⟩
        · rw [if_pos (unregistered.mpr author)]
          exact ⟨fun ok => (by cases ok), fun all => absurd all.2.2.2 author⟩
      · rw [if_pos (dangling.mpr names)]
        exact ⟨fun ok => (by cases ok), fun all => absurd all.2.2.1 names⟩

variable {store : Store} {call : Call} {seen : Seen} {stamp : Stamp} {rec ready : Record}
  {options : AppendOptions}

theorem digested_ok (made : digested store rec = .ok ready) :
    ∃ digest, ready = { rec with contentDigest := digest } := by
  simp only [digested] at made
  cases computed : store.computeDigest rec with
  | error detail =>
      rw [computed] at made
      cases made
  | ok digest =>
      rw [computed] at made
      cases made
      exact ⟨digest, rfl⟩

theorem checked_ok (passed : checked store options rec = .ok ready) :
    ready = rec ∧ checkAuthority rec options = .ok () := by
  simp only [checked] at passed
  cases valid : store.validate rec with
  | error detail =>
      rw [valid] at passed
      cases passed
  | ok =>
      cases admitted : checkAuthority rec options with
      | error refusal =>
          rw [valid] at passed
          simp only [admitted] at passed
          cases passed
      | ok =>
          rw [valid] at passed
          simp only [admitted] at passed
          cases passed
          exact ⟨rfl, rfl⟩

/-- What an append hands to the table: the record as stamped and digested, and admitted. -/
structure Ready (store : Store) (options : AppendOptions) (stamp : Stamp) (rec ready : Record) : Prop where
  made : digested store (normalize stamp rec) = .ok ready
  admitted : checkAuthority ready options = .ok ()

theorem Ready.of_bind
    (prepared : (digested store (normalize stamp rec)).bind (checked store options) = .ok ready) :
    Ready store options stamp rec ready := by
  cases made : digested store (normalize stamp rec) with
  | error refusal =>
      rw [made] at prepared
      cases prepared
  | ok stamped =>
      rw [made] at prepared
      obtain ⟨rfl, admitted⟩ := checked_ok prepared
      exact ⟨made, admitted⟩

namespace Ready

variable (isReady : Ready store options stamp rec ready)
include isReady

theorem runID : ready.runID = rec.runID := by
  obtain ⟨digest, rfl⟩ := digested_ok isReady.made
  rfl

theorem supersedes : ready.supersedes = rec.supersedes := by
  obtain ⟨digest, rfl⟩ := digested_ok isReady.made
  rfl

theorem origin : ready.origin = rec.origin := by
  obtain ⟨digest, rfl⟩ := digested_ok isReady.made
  rfl

theorem recordType : ready.recordType = rec.recordType := by
  obtain ⟨digest, rfl⟩ := digested_ok isReady.made
  rfl

theorem subjectRef : ready.subjectRef = rec.subjectRef := by
  obtain ⟨digest, rfl⟩ := digested_ok isReady.made
  rfl

end Ready

namespace Seen

/-- The transaction after it has inserted a record. -/
def insert (seen : Seen) (rec : Record) : Seen :=
  { seen with locks := .record rec.id :: seen.locks, writes := seen.writes ++ [.record rec] }

@[simp] theorem after_insertRecord : seen.after (.insertRecord rec) (.ok ()) = seen.insert rec := rfl

@[simp] theorem after_lock (key : LockKey) (answer : Answer (.lock key)) :
    seen.after (.lock key) answer = { seen with locks := key :: seen.locks } := by
  simp [after, learn, Statement.key?, writesOf]

theorem after_ledgerVersion {runID : String} (locked : .run runID ∈ seen.locks) (version : Nat) :
    seen.after (.ledgerVersion runID) version =
      { seen with versions := (runID, version, seen.writes) :: seen.versions } := by
  simp [after, learn, locked, Statement.key?, writesOf]

end Seen

theorem keeps_appendThrough {next : Record → Script}
    (onward : ∀ ready, Ready store options stamp rec ready →
      Allowed store call seen (.insertRecord ready) ∧ Keeps store call (seen.insert ready) (next ready)) :
    Keeps store call seen (appendThrough store stamp rec options next) := by
  simp only [appendThrough]
  cases prepared : (digested store (normalize stamp rec)).bind (checked store options) with
  | error refusal => trivial
  | ok ready =>
      have isReady := Ready.of_bind prepared
      refine ⟨(onward ready isReady).1, ?_⟩
      intro answer
      cases answer with
      | error failure => trivial
      | ok => exact (onward ready isReady).2

theorem keeps_appendAll {manifest : Option RunnerManifest} {entries rest : List (Stamp × Record)}
    {appended : List Record} (among : ∀ entry ∈ rest, entry ∈ entries)
    (wrote : seen.writes = appended.map Write.record) :
    Keeps store (.append entries manifest) seen (appendAll store manifest rest appended) := by
  induction rest generalizing seen appended with
  | nil => exact wrote
  | cons entry rest ih =>
      rw [List.forall_mem_cons] at among
      refine ⟨trivial, fun answer => ?_⟩
      rw [Seen.after_lock]
      apply keeps_appendThrough
      intro ready isReady
      refine ⟨⟨⟨appended, wrote⟩, ?_, isReady.admitted, ⟨entry, among.1, isReady.made⟩,
        by simp [Call.corrects]⟩, ?_⟩
      · rw [isReady.runID]
        exact List.mem_cons_self
      · apply ih among.2
        simp [Seen.insert, wrote]

theorem keeps_appendSuperseding {supersedesID : String} {manifest : Option RunnerManifest}
    (fresh : seen.writes = []) :
    Keeps store (.appendSuperseding stamp rec supersedesID manifest) seen
      (appendSuperseding store stamp rec supersedesID manifest) := by
  by_cases unnamed : supersedesID = ""
  · simp only [appendSuperseding, unnamed, if_true]
    trivial
  · simp only [appendSuperseding, unnamed, if_false]
    refine ⟨trivial, fun _ => ⟨trivial, fun found => ?_⟩⟩
    cases found with
    | none => trivial
    | some target =>
        have locked : .supersede supersedesID ∈ ((seen.after (.lock (.supersede supersedesID)) ()).after
            (.getRecord supersedesID) (some target)).locks := by
          simp [Seen.after, Seen.learn, Statement.key?]
        refine ⟨⟨by simp [Seen.after, Seen.learn, writesOf, fresh], fun _ => locked⟩, fun live => ?_⟩
        cases live with
        | cons by_ rest => trivial
        | nil =>
            dsimp only
            split
            · trivial
            · refine ⟨trivial, fun _ => ?_⟩
              apply keeps_appendThrough
              intro ready isReady
              have unwritten : (((((seen.after (.lock (.supersede supersedesID)) ()).after
                  (.getRecord supersedesID) (some target)).after (.liveSupersessors supersedesID) []).after
                  (.lock (.run target.runID)) ()).writes) = [] := by
                simp [Seen.after, Seen.learn, writesOf, fresh]
              refine ⟨⟨⟨[], unwritten⟩, ?_, isReady.admitted, ?_, fun _ => unwritten⟩, ?_⟩
              · rw [isReady.runID]
                exact List.mem_cons_self
              · refine ⟨unnamed, isReady.supersedes, ?_, ?_, target, ?_, isReady.runID.symm⟩
                · simp [Seen.after, Seen.learn, Statement.key?]
                · simp [Seen.after, Seen.learn]
                · simp [Seen.after, Seen.learn]
              · simp [Program.Follows, Ended, Seen.insert, Seen.after, Seen.learn, writesOf, fresh]

/-- What the reads of a review leave as it was. -/
structure Seen.Same (seen later : Seen) : Prop where
  locks : later.locks = seen.locks
  requests : later.requests = seen.requests
  kinds : later.kinds = seen.kinds
  versions : later.versions = seen.versions
  writes : later.writes = seen.writes

theorem Seen.Same.refl (seen : Seen) : seen.Same seen := ⟨rfl, rfl, rfl, rfl, rfl⟩

theorem Seen.Same.trans {seen middle later : Seen} (first : seen.Same middle) (second : middle.Same later) :
    seen.Same later :=
  ⟨second.locks.trans first.locks, second.requests.trans first.requests, second.kinds.trans first.kinds,
    second.versions.trans first.versions, second.writes.trans first.writes⟩

theorem Seen.same_getRecord (seen : Seen) (id : String) (found : Answer (.getRecord id)) :
    seen.Same (seen.after (.getRecord id) found) := by
  cases found <;> constructor <;> simp [Seen.after, Seen.learn, Statement.key?, writesOf]

theorem Seen.same_liveSupersessors (seen : Seen) (id : String) (live : Answer (.liveSupersessors id)) :
    seen.Same (seen.after (.liveSupersessors id) live) := by
  cases live <;> constructor <;> simp [Seen.after, Seen.learn, Statement.key?, writesOf]

theorem keeps_readTargets {runID : String} {ids digests : List String} {next : List String → Script}
    (onward : ∀ later digests, seen.Same later → Keeps store call later (next digests)) :
    Keeps store call seen (readTargets runID ids digests next) := by
  induction ids generalizing seen digests with
  | nil => exact onward seen digests (.refl seen)
  | cons id rest ih =>
      refine ⟨trivial, fun found => ?_⟩
      have same := seen.same_getRecord id found
      cases found with
      | none => trivial
      | some target =>
          dsimp only
          split
          · trivial
          · apply ih
            intro later digests onwards
            exact onward later digests (same.trans onwards)

theorem sortedUnique_nodup (values : List String) : (sortedUnique values).Nodup := by
  unfold sortedUnique
  rw [(List.mergeSort_perm _ _).nodup_iff]
  exact List.nodup_dedup _

theorem keeps_createReviewRequest {runID reviewer : String} {recordIDs : List String} {version : Nat}
    (fresh : seen.writes = []) :
    Keeps store (.createReviewRequest stamp runID recordIDs version reviewer) seen
      (createReviewRequest store stamp runID recordIDs version reviewer) := by
  by_cases unnamed : runID = ""
  · simp only [createReviewRequest, unnamed, if_true]
    trivial
  · simp only [createReviewRequest, unnamed, if_false]
    refine ⟨trivial, fun _ => ⟨trivial, fun current => ?_⟩⟩
    have locked : .run runID ∈ (seen.after (.lock (.run runID)) ()).locks := List.mem_cons_self
    rw [Seen.after_ledgerVersion locked, Seen.after_lock]
    dsimp only
    split
    · trivial
    · rename_i same
      rw [not_not] at same
      apply keeps_readTargets
      intro later digests kept
      have wrote : later.writes = [] := kept.writes.trans fresh
      refine ⟨?_, fun answer => ?_⟩
      · constructor
        · rfl
        · exact wrote
        · simp [kept.locks]
        · simp [kept.versions, ← same, fresh]
        · exact sortedUnique_nodup recordIDs
      · cases answer with
        | error failure => trivial
        | ok => simp [Program.Follows, Ended, Seen.after, Seen.learn, writesOf, wrote]

/-- What a commit knows once its targets have been read. -/
theorem keeps_checkTargets {req : ReviewRequest} {current : Nat} {ids digests : List String}
    {next : List String → Script} (plain : call.corrects = none) (fresh : seen.writes = [])
    (onward : ∀ later digests, seen.Same later → (∀ entry ∈ seen.found, entry ∈ later.found) →
      (∀ id ∈ ids, ∃ target, (id, target) ∈ later.found) → Keeps store call later (next digests)) :
    Keeps store call seen (checkTargets req current ids digests next) := by
  induction ids generalizing seen digests with
  | nil => exact onward seen digests (.refl seen) (fun _ member => member) (fun _ member => by cases member)
  | cons id rest ih =>
      refine ⟨trivial, fun found => ?_⟩
      have same := seen.same_getRecord id found
      cases found with
      | none => trivial
      | some target =>
          refine ⟨⟨same.writes.trans fresh, fun corrects => ?_⟩, fun live => ?_⟩
          · rw [plain] at corrects
            cases corrects
          have sameToo := (seen.after (.getRecord id) (some target)).same_liveSupersessors id live
          cases live with
          | cons by_ others => trivial
          | nil =>
              apply ih (sameToo.writes.trans (same.writes.trans fresh))
              intro later digests onwards keptFound rests
              apply onward later digests (same.trans (sameToo.trans onwards))
              · intro entry member
                apply keptFound
                simp [Seen.after, Seen.learn, member]
              · intro wanted member
                rcases List.mem_cons.mp member with rfl | isRest
                · refine ⟨target, keptFound _ ?_⟩
                  simp [Seen.after, Seen.learn]
                · exact rests wanted isRest

/-- What a commit that has passed its checks goes on with. -/
structure Reviewing (seen : Seen) (reviewID : String) (req : ReviewRequest) : Prop where
  asked : (reviewID, req) ∈ seen.requests
  human : (req.reviewerActorID, "human") ∈ seen.kinds
  locked : .run req.runID ∈ seen.locks
  current : (req.runID, req.ledgerVersion, []) ∈ seen.versions
  targets : ∀ id ∈ req.recordIDs, ∃ target, (id, target) ∈ seen.found

theorem Reviewing.insert {reviewID : String} {req : ReviewRequest} (reviewing : Reviewing seen reviewID req) :
    Reviewing (seen.insert rec) reviewID req where
  asked := reviewing.asked
  human := reviewing.human
  locked := List.mem_cons_of_mem _ reviewing.locked
  current := reviewing.current
  targets := reviewing.targets

section

variable {stamps : Nat → Stamp} {reviewID rationale : String} {decisions : List (String × Verdict)}
  {expected : Nat} {req : ReviewRequest}

/-- The reviews written so far are of the targets up to here. -/
structure Reviewed (req : ReviewRequest) (seen : Seen) (ids : List String) (appended : List Record) :
    Prop where
  wrote : seen.writes = appended.map Write.record
  subjects : appended.map Record.subjectRef ++ ids = req.recordIDs
  reviews : ∀ rec ∈ appended, rec.recordType = .review ∧ rec.runID = req.runID

theorem keeps_appendReviewRecords {ids : List String} {appended : List Record}
    {next : List Record → Script} (reviewing : Reviewing seen reviewID req)
    (reviewed : Reviewed req seen ids appended)
    (onward : ∀ later records, Reviewing later reviewID req → Reviewed req later [] records →
      Keeps store (.commitReview stamps reviewID decisions expected rationale) later (next records)) :
    Keeps store (.commitReview stamps reviewID decisions expected rationale) seen
      (appendReviewRecords store req decisions rationale stamps ids appended next) := by
  induction ids generalizing seen appended with
  | nil => exact onward seen appended reviewing reviewed
  | cons id rest ih =>
      apply keeps_appendThrough
      intro ready isReady
      have isTarget : id ∈ req.recordIDs := by
        rw [← reviewed.subjects]
        simp
      refine ⟨⟨⟨appended, reviewed.wrote⟩, ?_, isReady.admitted, ⟨req, reviewing.asked, reviewing.human,
        isReady.recordType, isReady.runID, ?_, isReady.supersedes, ?_⟩, by simp [Call.corrects]⟩, ?_⟩
      · rw [isReady.runID]
        exact reviewing.locked
      · rw [isReady.origin]
        rfl
      · rw [isReady.subjectRef]
        exact reviewing.targets id isTarget
      · apply ih reviewing.insert
        constructor
        · simp [Seen.insert, reviewed.wrote]
        · rw [← reviewed.subjects, List.map_append, List.map_singleton, isReady.subjectRef]
          simp [reviewRecord]
        · intro rec member
          rcases List.mem_append.mp member with before | last
          · exact reviewed.reviews rec before
          · rw [List.mem_singleton.mp last]
            exact ⟨isReady.recordType, isReady.runID⟩

theorem keeps_commitChecked (reviewing : Reviewing seen reviewID req) (fresh : seen.writes = []) :
    Keeps store (.commitReview stamps reviewID decisions expected rationale) seen
      (commitChecked store req decisions rationale stamps) := by
  have none : Reviewed req seen req.recordIDs [] :=
    ⟨fresh, List.nil_append _, fun _ member => absurd member List.not_mem_nil⟩
  apply keeps_appendReviewRecords reviewing none
  intro later records still reviewed
  refine ⟨⟨⟨records, reviewed.wrote⟩, reviewID, req, still.asked, rfl, still.locked⟩, fun committed => ?_⟩
  cases committed with
  | false => trivial
  | true =>
      refine ⟨trivial, fun version => ?_⟩
      have locked : .run req.runID ∈ (later.after (.markReviewCommitted req.id) true).locks :=
        List.mem_cons_of_mem _ still.locked
      rw [Seen.after_ledgerVersion locked]
      refine ⟨?_, reviewID, req, still.asked, rfl, locked, ?_, ?_, reviewed.reviews⟩
      · simp [Seen.after, Seen.learn, writesOf, reviewed.wrote]
      · exact List.mem_cons_of_mem _ still.current
      · simpa using reviewed.subjects

theorem keeps_checkReviewIsCurrent {script : Script} (fresh : seen.writes = [])
    (asked : (reviewID, req) ∈ seen.requests) (human : (req.reviewerActorID, "human") ∈ seen.kinds)
    (locked : .run req.runID ∈ seen.locks)
    (onward : ∀ later, Reviewing later reviewID req → later.writes = [] →
      Keeps store (.commitReview stamps reviewID decisions expected rationale) later script) :
    Keeps store (.commitReview stamps reviewID decisions expected rationale) seen
      (checkReviewIsCurrent store req decisions expected script) := by
  by_cases mismatch : req.ledgerVersion ≠ expected
  · rw [checkReviewIsCurrent, if_pos mismatch]
    trivial
  · rw [not_not] at mismatch
    subst mismatch
    simp only [checkReviewIsCurrent, ne_eq, not_true_eq_false, if_false]
    refine ⟨trivial, fun current => ?_⟩
    rw [Seen.after_ledgerVersion locked]
    dsimp only
    split
    · trivial
    · rename_i same
      rw [not_not] at same
      split
      · trivial
      · refine keeps_checkTargets rfl ?_ ?_
        · exact fresh
        intro later digests kept _ targets
        split
        · trivial
        · apply onward later
          · constructor
            · rw [kept.requests]
              exact asked
            · rw [kept.kinds]
              exact human
            · rw [kept.locks]
              exact locked
            · rw [kept.versions, ← same, fresh]
              exact List.mem_cons_self
            · exact targets
          · exact kept.writes.trans fresh

theorem checkReviewerIsHuman_ok {actorID : String} {kind : Option String}
    (passed : checkReviewerIsHuman actorID kind = .ok ()) : kind = some "human" := by
  cases kind with
  | none => cases passed
  | some kind =>
      by_cases human : kind = "human"
      · rw [human]
      · rw [checkReviewerIsHuman, if_neg human] at passed
        cases passed

theorem keeps_commitReview (fresh : seen.writes = []) :
    Keeps store (.commitReview stamps reviewID decisions expected rationale) seen
      (commitReview store stamps reviewID decisions expected rationale) := by
  by_cases unnamed : reviewID = ""
  · simp only [commitReview, unnamed, if_true]
    trivial
  · simp only [commitReview, unnamed, if_false]
    refine ⟨fresh, fun found => ?_⟩
    cases found with
    | none => trivial
    | some req =>
        refine ⟨trivial, fun _ => ?_⟩
        dsimp only
        split
        · trivial
        · split
          · trivial
          · refine ⟨trivial, fun kind => ?_⟩
            dsimp only
            cases passed : checkReviewerIsHuman req.reviewerActorID kind with
            | error refusal => trivial
            | ok =>
                have human := checkReviewerIsHuman_ok passed
                subst human
                apply keeps_checkReviewIsCurrent
                · simp [Seen.after, Seen.learn, writesOf, fresh]
                · exact List.mem_cons_self
                · exact List.mem_cons_self
                · exact List.mem_cons_self
                · intro later reviewing wrote
                  exact keeps_commitChecked reviewing wrote

end

theorem keeps_script (call : Call) : Keeps store call {} (call.script store) := by
  cases call with
  | append entries manifest => exact keeps_appendAll (fun _ member => member) rfl
  | appendSuperseding stamp rec supersedesID manifest => exact keeps_appendSuperseding rfl
  | createReviewRequest stamp runID recordIDs version reviewer => exact keeps_createReviewRequest rfl
  | commitReview stamps reviewID decisions expected rationale => exact keeps_commitReview rfl

end CultureNodes.Ledger
