import Mathlib.Data.List.Dedup
import CultureNodes.Ledger.Authority
import CultureNodes.Library.Program
import CultureNodes.Library.Table

/-!
The ledger's transactions as programs over the statements of its store. Each entry point is one
transaction: it takes its locks, reads, and inserts through `appendThrough`, which normalizes a record,
checks it against its schema and the authority matrix, and only then writes it.
-/

namespace CultureNodes.Ledger

/-- A registered revision of an actor. -/
structure Actor where
  id : String
  key : String
  kind : String
deriving DecidableEq, Repr

inductive ReviewStatus where
  | requested
  | committed
deriving DecidableEq, Repr

structure ReviewRequest where
  id : String
  runID : String
  reviewerActorID : String
  ledgerVersion : Nat
  frameChecksum : String
  status : ReviewStatus
  recordIDs : List String
  createdAt : Int
deriving DecidableEq, Repr

structure LedgerDb where
  records : List Record := []
  reviews : List ReviewRequest := []
  actors : List Actor := []

inductive Write where
  | record (rec : Record)
  | request (req : ReviewRequest)
  | committed (id : String)

/-- What a transaction can hold to itself: the advisory locks of a run and of a correction, and the key
of a row it inserts or updates. -/
inductive LockKey where
  | run (id : String)
  | supersede (record : String)
  | record (id : String)
  | review (id : String)
deriving DecidableEq, Repr

inductive StoreError where
  | duplicate
  | notStorable
  | supersedesMissing
  | actorMissing
deriving DecidableEq, Repr

/-- The statements of the store, each one round trip. -/
inductive Statement where
  | lock (key : LockKey)
  | getRecord (id : String)
  | ledgerVersion (runID : String)
  | liveSupersessors (recordID : String)
  | getReviewRequest (id : String)
  | actorKind (actorID : String)
  | insertRecord (rec : Record)
  | insertReviewRequest (req : ReviewRequest)
  | markReviewCommitted (id : String)

@[reducible] def Answer : Statement → Type
  | .lock _ => Unit
  | .getRecord _ => Option Record
  | .ledgerVersion _ => Nat
  | .liveSupersessors _ => List Record
  | .getReviewRequest _ => Option ReviewRequest
  | .actorKind _ => Option String
  | .insertRecord _ | .insertReviewRequest _ => Except StoreError Unit
  | .markReviewCommitted _ => Bool

def orderByID (records : List Record) : List Record :=
  records.mergeSort fun left right => decide (left.id ≤ right.id)

/-- The rules, and whether the columns and the references to other tables take a record. -/
structure Store extends Rules where
  storable : Record → Bool

/-- A store that takes every record. -/
def openStore : Store where
  validate _ := .ok ()
  digest rec := "sha256:" ++ rec.id
  frameChecksum digests := String.intercalate "," digests
  storable _ := true

/-- The stamps of the first records of a run. -/
def firstStamp : Stamp := ⟨"ledger_1", 1000, by decide, by decide⟩

def secondStamp : Stamp := ⟨"ledger_2", 2000, by decide, by decide⟩

def thirdStamp : Stamp := ⟨"ledger_3", 3000, by decide, by decide⟩

def fourthStamp : Stamp := ⟨"ledger_4", 4000, by decide, by decide⟩

namespace LedgerDb

variable (db : LedgerDb)

def runRecords (runID : String) : List Record :=
  db.records.filter fun rec => rec.runID = runID

def getRecord (id : String) : Option Record :=
  db.records.find? fun rec => rec.id = id

def ledgerVersion (runID : String) : Nat :=
  (db.runRecords runID).length

/-- Some record names this one as the one it replaces. -/
def replaced (id : String) : Bool :=
  db.records.any fun rec => rec.supersedes ≠ "" && rec.supersedes = id

def supersessors (id : String) : List Record :=
  db.records.filter fun rec => rec.supersedes ≠ "" && rec.supersedes = id && !db.replaced rec.id

def liveSupersessors (id : String) : List Record :=
  orderByID (db.supersessors id)

def getReviewRequest (id : String) : Option ReviewRequest :=
  db.reviews.find? fun req => req.id = id

def actorKind (id : String) : Option String :=
  if id = "" then none else (db.actors.find? fun actor => actor.id = id).map Actor.kind

def hasActor (id : String) : Bool :=
  db.actors.any fun actor => actor.id = id

/-- What the table says to a new record: its key, and the rows it refers to. -/
def insertRecord (store : Store) (rec : Record) : Except StoreError Unit :=
  if store.storable rec = false then .error .notStorable
  else if db.records.any fun old => old.id = rec.id then .error .duplicate
  else if rec.supersedes ≠ "" ∧ rec.supersedes ≠ rec.id ∧ db.getRecord rec.supersedes = none then
    .error .supersedesMissing
  else if rec.origin.actorID ≠ "" ∧ db.hasActor rec.origin.actorID = false then .error .actorMissing
  else .ok ()

def insertReviewRequest (req : ReviewRequest) : Except StoreError Unit :=
  if db.reviews.any fun old => old.id = req.id then .error .duplicate
  else if req.reviewerActorID ≠ "" ∧ db.hasActor req.reviewerActorID = false then .error .actorMissing
  else .ok ()

def isOpen (id : String) (req : ReviewRequest) : Bool :=
  req.id = id && req.status = .requested

def apply : Write → LedgerDb
  | .record rec => { db with records := db.records ++ [rec] }
  | .request req => { db with reviews := db.reviews ++ [req] }
  | .committed id =>
      { db with
        reviews := Table.update db.reviews (isOpen id) fun req => { req with status := .committed } }

/-- The answer of a statement where the database reads as it does. -/
def answer (store : Store) : (statement : Statement) → Answer statement
  | .lock _ => ()
  | .getRecord id => db.getRecord id
  | .ledgerVersion runID => db.ledgerVersion runID
  | .liveSupersessors recordID => db.liveSupersessors recordID
  | .getReviewRequest id => db.getReviewRequest id
  | .actorKind actorID => db.actorKind actorID
  | .insertRecord rec => db.insertRecord store rec
  | .insertReviewRequest req => db.insertReviewRequest req
  | .markReviewCommitted id => db.reviews.any (isOpen id)

end LedgerDb

/-- What a statement with that answer has written. -/
def writesOf : (statement : Statement) → Answer statement → List Write
  | .insertRecord rec, .ok () => [.record rec]
  | .insertReviewRequest req, .ok () => [.request req]
  | .markReviewCommitted id, true => [.committed id]
  | _, _ => []

inductive Verdict where
  | confirm
  | reject
  | other (text : String)
deriving DecidableEq, Repr

def Verdict.valid : Verdict → Bool
  | .other _ => false
  | _ => true

def Verdict.authority : Verdict → Authority
  | .reject => .rejected
  | _ => .confirmed

def Verdict.text : Verdict → String
  | .confirm => "confirm"
  | .reject => "reject"
  | .other text => text

inductive StaleReason where
  | ledgerMoved
  | requestVersionMismatch
  | frameChecksum
  | targetSuperseded (record by_ : String)
deriving DecidableEq, Repr

inductive LedgerError where
  | missingArgument (detail : String)
  | notEncodable (detail : String)
  | invalid (recordID detail : String)
  | authority (error : AuthorityError)
  | store (recordID : String) (error : StoreError)
  | targetMissing (recordID : String)
  | alreadySuperseded (recordID by_ : String)
  | otherRun (recordID runID : String)
  | reviewMissing (reviewID : String)
  | reviewAlreadyCommitted (reviewID : String)
  | noReviewer (reviewID : String)
  | reviewerUnknown (actorID : String)
  | stale (reviewID : String) (reason : StaleReason) (expected actual : Nat)
  | invalidVerdict (reviewID recordID : String) (verdict : Verdict)
  | targets (reviewID : String) (unknown undecided : List String)
deriving DecidableEq, Repr

inductive LedgerResult where
  | appended (records : List Record)
  | requested (req : ReviewRequest)
  | reviewed (reviewID : String) (records : List Record) (ledgerVersion : Nat)

abbrev Script := Program Statement Answer (Except LedgerError LedgerResult)

section

variable (store : Store)

def digested (rec : Record) : Except LedgerError Record :=
  match store.computeDigest rec with
  | .error detail => .error (.notEncodable detail)
  | .ok digest => .ok { rec with contentDigest := digest }

/-- The record meets its schema and the authority matrix. -/
def checked (options : AppendOptions) (rec : Record) : Except LedgerError Record :=
  match store.validate rec with
  | .error detail => .error (.invalid rec.id detail)
  | .ok () =>
      match checkAuthority rec options with
      | .error refusal => .error (.authority refusal)
      | .ok () => .ok rec

/-- Normalize, digest, validate, check authority and insert one record. -/
def appendThrough (stamp : Stamp) (rec : Record) (options : AppendOptions) (next : Record → Script) :
    Script :=
  match (digested store (normalize stamp rec)).bind (checked store options) with
  | .error refusal => .done (.error refusal)
  | .ok ready => .call (.insertRecord ready) fun answer =>
      match answer with
      | .error failure => .done (.error (.store ready.id failure))
      | .ok () => next ready

/-- Appends of one transaction, in order: a single `Append`, or the records of a completion's delta. -/
def appendAll (manifest : Option RunnerManifest) : List (Stamp × Record) → List Record → Script
  | [], appended => .done (.ok (.appended appended))
  | (stamp, rec) :: rest, appended =>
      .call (.lock (.run rec.runID)) fun _ =>
        appendThrough store stamp rec { manifest := manifest } fun rec =>
          appendAll manifest rest (appended ++ [rec])

def append (stamp : Stamp) (rec : Record) (manifest : Option RunnerManifest) : Script :=
  appendAll store manifest [(stamp, rec)] []

def appendSuperseding (stamp : Stamp) (rec : Record) (supersedesID : String)
    (manifest : Option RunnerManifest) : Script :=
  if supersedesID = "" then
    .done (.error (.missingArgument
      "ledger: AppendSuperseding requires the id of the record being superseded"))
  else
    .call (.lock (.supersede supersedesID)) fun _ =>
      .call (.getRecord supersedesID) fun found =>
        match found with
        | none => .done (.error (.targetMissing supersedesID))
        | some target =>
            .call (.liveSupersessors supersedesID) fun live =>
              match live with
              | by_ :: _ => .done (.error (.alreadySuperseded supersedesID by_.id))
              | [] =>
                  if rec.runID ≠ "" ∧ rec.runID ≠ target.runID then
                    .done (.error (.otherRun supersedesID target.runID))
                  else
                    .call (.lock (.run target.runID)) fun _ =>
                      appendThrough store stamp
                        { rec with runID := target.runID, supersedes := supersedesID }
                        { manifest := manifest } fun rec => .done (.ok (.appended [rec]))

def sortedUnique (values : List String) : List String :=
  (values.filter fun value => value ≠ "").dedup.mergeSort fun left right => decide (left ≤ right)

/-- Read the targets of a review, and go on with their digests. -/
def readTargets (runID : String) : List String → List String → (List String → Script) → Script
  | [], digests, next => next digests
  | id :: rest, digests, next =>
      .call (.getRecord id) fun found =>
        match found with
        | none => .done (.error (.targetMissing id))
        | some rec =>
            if rec.runID ≠ runID then .done (.error (.otherRun id rec.runID))
            else readTargets runID rest (digests ++ [rec.contentDigest]) next

/-- A review's id is a record's id with its own prefix. -/
def newReviewID (id : String) : String :=
  if "ledger_".toList.isPrefixOf id.toList ∧ 7 < id.toList.length then
    "review_" ++ String.ofList (id.toList.drop 7)
  else id

def createReviewRequest (stamp : Stamp) (runID : String) (recordIDs : List String)
    (ledgerVersion : Nat) (reviewer : String) : Script :=
  if runID = "" then
    .done (.error (.missingArgument "ledger: CreateReviewRequest requires a run id"))
  else
    .call (.lock (.run runID)) fun _ =>
      .call (.ledgerVersion runID) fun current =>
        let current : Nat := current
        if current ≠ ledgerVersion then
          .done (.error (.stale "" .ledgerMoved ledgerVersion current))
        else
          readTargets runID (sortedUnique recordIDs) [] fun digests =>
            let req : ReviewRequest :=
              { id := newReviewID stamp.newID
                runID := runID
                reviewerActorID := reviewer
                ledgerVersion := ledgerVersion
                frameChecksum := store.frameChecksum digests
                status := .requested
                recordIDs := sortedUnique recordIDs
                createdAt := truncate stamp.now }
            .call (.insertReviewRequest req) fun answer =>
              match answer with
              | .error failure => .done (.error (.store req.id failure))
              | .ok () => .done (.ok (.requested req))

/-- The decisions are about the requested records, all of them and no others. -/
def checkReviewCoverage (req : ReviewRequest) (decisions : List (String × Verdict)) :
    Except LedgerError Unit :=
  match decisions.find? fun decision => !decision.2.valid with
  | some (id, verdict) => .error (.invalidVerdict req.id id verdict)
  | none =>
      let order := fun (left right : String) => decide (left ≤ right)
      let unknown := ((decisions.map Prod.fst).filter fun id => id ∉ req.recordIDs).mergeSort order
      let undecided := (req.recordIDs.filter fun id => (decisions.lookup id).isNone).mergeSort order
      if unknown ≠ [] ∨ undecided ≠ [] then .error (.targets req.id unknown undecided) else .ok ()

/-- Read the targets of a commit: each is there, and nothing has replaced it. -/
def checkTargets (req : ReviewRequest) (current : Nat) :
    List String → List String → (List String → Script) → Script
  | [], digests, next => next digests
  | id :: rest, digests, next =>
      .call (.getRecord id) fun found =>
        match found with
        | none => .done (.error (.targetMissing id))
        | some rec =>
            .call (.liveSupersessors id) fun live =>
              match live with
              | by_ :: _ => .done
                  (.error (.stale req.id (.targetSuperseded id by_.id) req.ledgerVersion current))
              | [] => checkTargets req current rest (digests ++ [rec.contentDigest]) next

def reviewRecord (req : ReviewRequest) (rationale targetID : String) (verdict : Verdict) : Record where
  recordType := .review
  runID := req.runID
  origin := { kind := .human, actorID := req.reviewerActorID }
  authority := verdict.authority
  subjectRef := targetID
  data := some (.object (List.flatten
    [[("frame_checksum", .string req.frameChecksum),
      ("ledger_version", .string (toString req.ledgerVersion))],
      if rationale = "" then [] else [("rationale", .string rationale)],
      [("reviewed_refs", .array [.string targetID]), ("verdict", .string verdict.text)]]))
  provenanceRefs := [targetID]

/-- One review for each target, stamped in turn. -/
def appendReviewRecords (req : ReviewRequest) (decisions : List (String × Verdict)) (rationale : String)
    (stamps : Nat → Stamp) :
    List String → List Record → (List Record → Script) → Script
  | [], appended, next => next appended
  | id :: rest, appended, next =>
      appendThrough store (stamps appended.length)
        (reviewRecord req rationale id ((decisions.lookup id).getD (.other "")))
        { reviewTransaction := true } fun rec =>
          appendReviewRecords req decisions rationale stamps rest (appended ++ [rec]) next

/-- The reviewer of the request is registered as a person. -/
def checkReviewerIsHuman (actorID : String) (kind : Option String) : Except LedgerError Unit :=
  match kind with
  | none => .error (.reviewerUnknown actorID)
  | some kind =>
      if kind = "human" then .ok ()
      else .error (.authority
        { rule := .reviewerNotHuman
          origin := .ofText kind
          actorID := actorID
          authority := .confirmed
          recordType := .review
          detail := "a decision on a proposed record is a human's to make (PRD §10.4); an actor registered " ++
            "as " ++ kind ++ " deciding a claim would be the producer side of the ledger promoting itself" })

/-- The part of a commit behind the checks. -/
def commitChecked (req : ReviewRequest) (decisions : List (String × Verdict)) (rationale : String)
    (stamps : Nat → Stamp) : Script :=
  appendReviewRecords store req decisions rationale stamps req.recordIDs [] fun appended =>
    .call (.markReviewCommitted req.id) fun (committed : Bool) =>
      if committed = false then .done (.error (.reviewAlreadyCommitted req.id))
      else
        .call (.ledgerVersion req.runID) fun version =>
          .done (.ok (.reviewed req.id appended version))

/-- Whether what was reviewed is still what the ledger holds. -/
def checkReviewIsCurrent (req : ReviewRequest) (decisions : List (String × Verdict)) (expected : Nat)
    (next : Script) : Script :=
  if req.ledgerVersion ≠ expected then
    .done (.error (.stale req.id .requestVersionMismatch expected req.ledgerVersion))
  else
    .call (.ledgerVersion req.runID) fun current =>
      let current : Nat := current
      if current ≠ expected then .done (.error (.stale req.id .ledgerMoved expected current))
      else
        match checkReviewCoverage req decisions with
        | .error refusal => .done (.error refusal)
        | .ok () =>
            checkTargets req current req.recordIDs [] fun digests =>
              if store.frameChecksum digests ≠ req.frameChecksum then
                .done (.error (.stale req.id .frameChecksum expected current))
              else next

/-- The request is read before the lock of its run is taken. -/
def commitReview (stamps : Nat → Stamp) (reviewID : String) (decisions : List (String × Verdict))
    (expected : Nat) (rationale : String) : Script :=
  if reviewID = "" then
    .done (.error (.missingArgument "ledger: CommitReview requires a review id"))
  else
    .call (.getReviewRequest reviewID) fun found =>
      match found with
      | none => .done (.error (.reviewMissing reviewID))
      | some req =>
          .call (.lock (.run req.runID)) fun _ =>
            if req.status ≠ .requested then .done (.error (.reviewAlreadyCommitted reviewID))
            else if req.reviewerActorID = "" then .done (.error (.noReviewer reviewID))
            else
              .call (.actorKind req.reviewerActorID) fun kind =>
                match checkReviewerIsHuman req.reviewerActorID kind with
                | .error refusal => .done (.error refusal)
                | .ok () => checkReviewIsCurrent store req decisions expected
                    (commitChecked store req decisions rationale stamps)

end

end CultureNodes.Ledger
