import CultureNodes.Ledger.System

/-!
What stays true of a call while others run beside it. A call's reads of a run it has locked, of actors
and of the fixed part of a request do not go out of date before it ends, and what it writes is written
under keys no other call holds.
-/

namespace CultureNodes.Ledger

def Write.record? : Write → Option Record
  | .record rec => some rec
  | _ => none

/-- The records among the writes. -/
def recordsOf (writes : List Write) : List Record := writes.filterMap Write.record?

@[simp] theorem recordsOf_nil : recordsOf [] = [] := rfl

@[simp] theorem recordsOf_append (first second : List Write) :
    recordsOf (first ++ second) = recordsOf first ++ recordsOf second :=
  List.filterMap_append

@[simp] theorem recordsOf_map (records : List Record) : recordsOf (records.map Write.record) = records := by
  induction records with
  | nil => rfl
  | cons rec rest ih => simpa [recordsOf, Write.record?] using ih

@[simp] theorem recordsOf_committed (id : String) : recordsOf [.committed id] = [] := rfl

@[simp] theorem recordsOf_request (req : ReviewRequest) : recordsOf [.request req] = [] := rfl

/-- A request but for whether it has been committed. -/
def ReviewRequest.asked (req : ReviewRequest) : ReviewRequest := { req with status := .requested }

namespace LedgerDb

variable {db next : LedgerDb} {writes : List Write}

theorem foldl_records (db : LedgerDb) (writes : List Write) :
    (writes.foldl apply db).records = db.records ++ recordsOf writes := by
  induction writes generalizing db with
  | nil => simp
  | cons write rest ih =>
      rw [List.foldl_cons, ih]
      cases write <;> simp [apply, recordsOf, Write.record?, List.filterMap_cons]

theorem foldl_actors (db : LedgerDb) (writes : List Write) :
    (writes.foldl apply db).actors = db.actors := by
  induction writes generalizing db with
  | nil => rfl
  | cons write rest ih =>
      rw [List.foldl_cons, ih]
      cases write <;> rfl

theorem foldl_reviews (db : LedgerDb) (records : List Record) :
    ((records.map Write.record).foldl apply db).reviews = db.reviews := by
  induction records generalizing db with
  | nil => rfl
  | cons rec rest ih =>
      rw [List.map_cons, List.foldl_cons, ih]
      rfl

theorem actorKind_append {more : List Actor} {id kind : String} (listed : db.actorKind id = some kind)
    (actors : next.actors = db.actors ++ more) : next.actorKind id = some kind := by
  by_cases unnamed : id = ""
  · simp [actorKind, unnamed] at listed
  · simp only [actorKind, unnamed, if_false, Option.map_eq_some_iff] at listed ⊢
    obtain ⟨actor, found, rfl⟩ := listed
    refine ⟨actor, ?_, rfl⟩
    rw [actors, List.find?_append, found]
    rfl

/-- The request is there, committed or not. -/
def Known (db : LedgerDb) (req : ReviewRequest) : Prop :=
  ∃ row ∈ db.reviews, row.asked = req.asked

/-- What no write takes back. -/
structure Later (db next : LedgerDb) : Prop where
  records : ∃ added, next.records = db.records ++ added
  reviews : ∀ row ∈ db.reviews, next.Known row
  actors : ∃ added, next.actors = db.actors ++ added

theorem Known.later {req : ReviewRequest} (known : db.Known req) (later : Later db next) :
    next.Known req := by
  obtain ⟨row, member, same⟩ := known
  obtain ⟨kept, isKept, again⟩ := later.reviews row member
  exact ⟨kept, isKept, again.trans same⟩

namespace Later

theorem refl (db : LedgerDb) : Later db db :=
  ⟨⟨[], by simp⟩, fun row member => ⟨row, member, rfl⟩, ⟨[], by simp⟩⟩

theorem trans {middle : LedgerDb} (first : Later db middle) (second : Later middle next) :
    Later db next := by
  obtain ⟨some, here⟩ := first.records
  obtain ⟨more, there⟩ := second.records
  obtain ⟨someActors, hereActors⟩ := first.actors
  obtain ⟨moreActors, thereActors⟩ := second.actors
  constructor
  · exact ⟨some ++ more, by rw [there, here, List.append_assoc]⟩
  · intro row member
    exact (first.reviews row member).later second
  · exact ⟨someActors ++ moreActors, by rw [thereActors, hereActors, List.append_assoc]⟩

theorem mem (later : Later db next) {rec : Record} (member : rec ∈ db.records) : rec ∈ next.records := by
  obtain ⟨added, same⟩ := later.records
  rw [same]
  exact List.mem_append_left _ member

theorem actorKind (later : Later db next) {id kind : String} (listed : db.actorKind id = some kind) :
    next.actorKind id = some kind := by
  obtain ⟨added, same⟩ := later.actors
  exact actorKind_append listed same

end Later

theorem later_apply (db : LedgerDb) (write : Write) : Later db (db.apply write) := by
  cases write with
  | record rec => exact ⟨⟨[rec], rfl⟩, fun row member => ⟨row, member, rfl⟩, ⟨[], by simp [apply]⟩⟩
  | request req =>
      refine ⟨⟨[], by simp [apply]⟩, fun row member => ?_, ⟨[], by simp [apply]⟩⟩
      exact ⟨row, List.mem_append_left _ member, rfl⟩
  | committed id =>
      refine ⟨⟨[], by simp [apply]⟩, fun row member => ?_, ⟨[], by simp [apply]⟩⟩
      refine ⟨_, Table.mem_update_of_mem (isOpen id) (fun req => { req with status := .committed }) member, ?_⟩
      split <;> rfl

theorem later_foldl (db : LedgerDb) (writes : List Write) : Later db (writes.foldl apply db) := by
  induction writes generalizing db with
  | nil => exact .refl db
  | cons write rest ih => exact (later_apply db write).trans (ih _)

end LedgerDb

/-- What is added to what has been learnt. -/
structure Seen.Grows (seen later : Seen) : Prop where
  locks : ∀ key ∈ seen.locks, key ∈ later.locks
  found : ∀ entry ∈ seen.found, entry ∈ later.found
  unreplaced : ∀ id ∈ seen.unreplaced, id ∈ later.unreplaced
  requests : ∀ entry ∈ seen.requests, entry ∈ later.requests
  kinds : ∀ entry ∈ seen.kinds, entry ∈ later.kinds
  versions : ∀ entry ∈ seen.versions, entry ∈ later.versions

theorem Seen.grows_after (seen : Seen) (statement : Statement) (answer : Answer statement) :
    seen.Grows (seen.after statement answer) := by
  cases statement with
  | lock key => constructor <;> intro entry member <;> simp [after, learn, member]
  | ledgerVersion runID =>
      by_cases locked : .run runID ∈ seen.locks <;>
        constructor <;> intro entry member <;> simp [after, learn, locked, member]
  | insertRecord rec => constructor <;> intro entry member <;> simp [after, learn, member]
  | insertReviewRequest req => constructor <;> intro entry member <;> simp [after, learn, member]
  | markReviewCommitted id => constructor <;> intro entry member <;> simp [after, learn, member]
  | getRecord id => cases answer <;> constructor <;> intro entry member <;> simp [after, learn, member]
  | liveSupersessors id =>
      cases answer <;> constructor <;> intro entry member <;> simp [after, learn, member]
  | getReviewRequest id =>
      cases answer <;> constructor <;> intro entry member <;> simp [after, learn, member]
  | actorKind id => cases answer <;> constructor <;> intro entry member <;> simp [after, learn, member]

theorem Call.Brings.grow {store : Store} {call : Call} {seen later : Seen} {rec : Record}
    (brings : call.Brings store seen rec) (grows : seen.Grows later) : call.Brings store later rec := by
  cases call with
  | append entries manifest => exact brings
  | appendSuperseding stamp rec supersedesID manifest =>
      obtain ⟨named, names, locked, unreplaced, target, found, sameRun⟩ := brings
      exact ⟨named, names, grows.locks _ locked, grows.unreplaced _ unreplaced, target,
        grows.found _ found, sameRun⟩
  | createReviewRequest stamp runID recordIDs version reviewer => exact brings
  | commitReview stamps reviewID decisions expected rationale =>
      obtain ⟨req, asked, human, reviews, sameRun, reviewer, plain, target, found⟩ := brings
      exact ⟨req, grows.requests _ asked, grows.kinds _ human, reviews, sameRun, reviewer, plain, target,
        grows.found _ found⟩

/-- Where a written record comes from, and under which keys it was written. -/
structure Brought (store : Store) (body : Session) (rec : Record) : Prop where
  run : .run rec.runID ∈ body.seen.locks
  key : .record rec.id ∈ body.seen.locks
  admitted : checkAuthority rec body.call.options = .ok ()
  brings : body.call.Brings store body.seen rec

/-- The request a call has written. -/
structure Opened (db : LedgerDb) (seen : Seen) (req : ReviewRequest) : Prop where
  status : req.status = .requested
  run : .run req.runID ∈ seen.locks
  key : .review req.id ∈ seen.locks
  current : (req.runID, req.ledgerVersion, []) ∈ seen.versions
  distinct : req.recordIDs.Nodup
  fresh : ∀ row ∈ db.reviews, row.id ≠ req.id

/-- What is true of a call in progress. -/
structure Sound (store : Store) (s : LedgerState) (id : Nat) (txn : Txn Write Session) : Prop where
  keeps : Keeps store txn.body.call txn.body.seen txn.body.rest
  writes : txn.writes = txn.body.seen.writes
  held : ∀ key ∈ txn.body.seen.locks, s.holder key = some id
  brought : ∀ rec ∈ recordsOf txn.writes, Brought store txn.body rec
  distinct : ((s.db.records ++ recordsOf txn.writes).map Record.id).Nodup
  found : ∀ entry ∈ txn.body.seen.found,
    entry.2.id = entry.1 ∧ entry.2 ∈ s.db.records ++ recordsOf txn.writes
  requests : ∀ entry ∈ txn.body.seen.requests, entry.2.id = entry.1 ∧ s.db.Known entry.2
  kinds : ∀ entry ∈ txn.body.seen.kinds, s.db.actorKind entry.1 = some entry.2
  versions : ∀ entry ∈ txn.body.seen.versions, .run entry.1 ∈ txn.body.seen.locks ∧
    entry.2.1 = (entry.2.2.foldl LedgerDb.apply s.db).ledgerVersion entry.1
  opened : ∀ req, .request req ∈ txn.writes → Opened s.db txn.body.seen req
  marked : ∀ review, .committed review ∈ txn.writes → .review review ∈ txn.body.seen.locks ∧
    ∃ row ∈ s.db.reviews, row.id = review ∧ row.status = .requested

/-- What a step of others leaves to a call: its locks, and the rows behind them. -/
structure Aside (s next : LedgerState) (id : Nat) : Prop where
  held : ∀ key, s.holder key = some id → next.holder key = some id
  later : s.db.Later next.db
  records : ∃ added, next.db.records = s.db.records ++ added ∧ ∀ rec ∈ added,
    s.holder (.run rec.runID) ≠ some id ∧ s.holder (.record rec.id) ≠ some id
  reviews : ∀ row, s.holder (.review row.id) = some id → (row ∈ next.db.reviews ↔ row ∈ s.db.reviews)

theorem LedgerDb.ledgerVersion_foldl (db : LedgerDb) (writes : List Write) (runID : String) :
    (writes.foldl LedgerDb.apply db).ledgerVersion runID =
      ((db.records ++ recordsOf writes).filter fun rec => rec.runID = runID).length := by
  rw [LedgerDb.ledgerVersion, LedgerDb.runRecords, LedgerDb.foldl_records]

variable {store : Store} {s next : LedgerState} {id : Nat} {txn : Txn Write Session}

theorem pairwise_append_append {α : Type} {related : α → α → Prop} {first middle last : List α}
    (one : (first ++ middle).Pairwise related) (two : (first ++ last).Pairwise related)
    (apart : ∀ left ∈ middle, ∀ right ∈ last, related left right) :
    (first ++ middle ++ last).Pairwise related := by
  rw [List.pairwise_append] at two ⊢
  refine ⟨one, two.2.1, ?_⟩
  intro left member right isLast
  rcases List.mem_append.mp member with isFirst | isMiddle
  · exact two.2.2 left isFirst right isLast
  · exact apart left isMiddle right isLast

theorem Sound.aside (sound : Sound store s id txn) (aside : Aside s next id)
    (distinct : (next.db.records.map Record.id).Nodup) : Sound store next id txn := by
  obtain ⟨added, records, foreign⟩ := aside.records
  constructor
  · exact sound.keeps
  · exact sound.writes
  · intro key member
    exact aside.held key (sound.held key member)
  · exact sound.brought
  · have own : ∀ rec ∈ recordsOf txn.writes, ∀ other ∈ added, other.id ≠ rec.id := by
      intro rec member other isAdded same
      apply (foreign other isAdded).2
      rw [same]
      exact sound.held _ (sound.brought rec member).key
    have before := sound.distinct
    rw [records, List.map_append] at distinct
    rw [List.map_append] at before
    rw [records, List.map_append, List.map_append]
    apply pairwise_append_append distinct before
    intro left isAdded right isOwn
    obtain ⟨other, isOther, rfl⟩ := List.mem_map.mp isAdded
    obtain ⟨rec, isRec, rfl⟩ := List.mem_map.mp isOwn
    exact own rec isRec other isOther
  · intro entry member
    refine ⟨(sound.found entry member).1, ?_⟩
    rw [records]
    have there := (sound.found entry member).2
    simp only [List.mem_append] at there ⊢
    tauto
  · intro entry member
    exact ⟨(sound.requests entry member).1, (sound.requests entry member).2.later aside.later⟩
  · intro entry member
    exact aside.later.actorKind (sound.kinds entry member)
  · intro entry member
    obtain ⟨locked, same⟩ := sound.versions entry member
    refine ⟨locked, ?_⟩
    have elsewhere : (added.filter fun rec => rec.runID = entry.1) = [] := by
      rw [List.filter_eq_nil_iff]
      intro rec isAdded sameRun
      apply (foreign rec isAdded).1
      rw [of_decide_eq_true sameRun]
      exact sound.held _ locked
    rw [same, LedgerDb.ledgerVersion_foldl, LedgerDb.ledgerVersion_foldl, records]
    simp [elsewhere]
  · intro req member
    have before := sound.opened req member
    refine ⟨before.status, before.run, before.key, before.current, before.distinct, ?_⟩
    intro row isRow same
    have key : s.holder (.review row.id) = some id := by
      rw [same]
      exact sound.held _ before.key
    exact before.fresh row ((aside.reviews row key).mp isRow) same
  · intro review member
    obtain ⟨locked, row, isRow, named, open_⟩ := sound.marked review member
    refine ⟨locked, row, ?_, named, open_⟩
    apply (aside.reviews row _).mpr isRow
    rw [named]
    exact sound.held _ locked

section

variable {db : LedgerDb} {seen : Seen} {statement : Statement}

/-- What a statement answered from the database teaches. -/
inductive Learns (db : LedgerDb) (seen : Seen) : Statement → Seen → Prop where
  | nothing (statement : Statement) : Learns db seen statement seen
  | found {id : String} {rec : Record} (here : db.getRecord id = some rec) :
      Learns db seen (.getRecord id) { seen with found := (id, rec) :: seen.found }
  | unreplaced {id : String} (none : db.liveSupersessors id = []) :
      Learns db seen (.liveSupersessors id) { seen with unreplaced := id :: seen.unreplaced }
  | request {id : String} {req : ReviewRequest} (here : db.getReviewRequest id = some req) :
      Learns db seen (.getReviewRequest id) { seen with requests := (id, req) :: seen.requests }
  | kind {id kind : String} (listed : db.actorKind id = some kind) :
      Learns db seen (.actorKind id) { seen with kinds := (id, kind) :: seen.kinds }
  | version {runID : String} (locked : .run runID ∈ seen.locks) :
      Learns db seen (.ledgerVersion runID)
        { seen with versions := (runID, db.ledgerVersion runID, seen.writes) :: seen.versions }

theorem learns (store : Store) (db : LedgerDb) (seen : Seen) (statement : Statement) :
    Learns db seen statement (seen.learn statement (db.answer store statement)) := by
  cases statement with
  | getRecord id =>
      cases found : db.getRecord id with
      | none => simpa only [Seen.learn, LedgerDb.answer, found] using Learns.nothing _
      | some rec => simpa only [Seen.learn, LedgerDb.answer, found] using Learns.found found
  | liveSupersessors id =>
      cases live : db.liveSupersessors id with
      | nil => simpa only [Seen.learn, LedgerDb.answer, live] using Learns.unreplaced live
      | cons by_ rest => simpa only [Seen.learn, LedgerDb.answer, live] using Learns.nothing _
  | getReviewRequest id =>
      cases found : db.getReviewRequest id with
      | none => simpa only [Seen.learn, LedgerDb.answer, found] using Learns.nothing _
      | some req => simpa only [Seen.learn, LedgerDb.answer, found] using Learns.request found
  | actorKind id =>
      cases listed : db.actorKind id with
      | none => simpa only [Seen.learn, LedgerDb.answer, listed] using Learns.nothing _
      | some kind => simpa only [Seen.learn, LedgerDb.answer, listed] using Learns.kind listed
  | ledgerVersion runID =>
      by_cases locked : .run runID ∈ seen.locks
      · simpa only [Seen.learn, LedgerDb.answer, if_pos locked] using Learns.version locked
      · simpa only [Seen.learn, LedgerDb.answer, if_neg locked] using Learns.nothing _
  | lock key => exact .nothing _
  | insertRecord rec => exact .nothing _
  | insertReviewRequest req => exact .nothing _
  | markReviewCommitted id => exact .nothing _

/-- What a statement answered from the database writes. -/
inductive Wrote (store : Store) (db : LedgerDb) : Statement → List Write → Prop where
  | nothing (statement : Statement) : Wrote store db statement []
  | record {rec : Record} (taken : db.insertRecord store rec = .ok ()) :
      Wrote store db (.insertRecord rec) [.record rec]
  | request {req : ReviewRequest} (taken : db.insertReviewRequest req = .ok ()) :
      Wrote store db (.insertReviewRequest req) [.request req]
  | committed {id : String} (opened : db.reviews.any (LedgerDb.isOpen id) = true) :
      Wrote store db (.markReviewCommitted id) [.committed id]

theorem wrote (store : Store) (db : LedgerDb) (statement : Statement) :
    Wrote store db statement (writesOf statement (db.answer store statement)) := by
  cases statement with
  | insertRecord rec =>
      cases taken : db.insertRecord store rec with
      | error failure => simpa only [writesOf, LedgerDb.answer, taken] using Wrote.nothing _
      | ok => simpa only [writesOf, LedgerDb.answer, taken] using Wrote.record taken
  | insertReviewRequest req =>
      cases taken : db.insertReviewRequest req with
      | error failure => simpa only [writesOf, LedgerDb.answer, taken] using Wrote.nothing _
      | ok => simpa only [writesOf, LedgerDb.answer, taken] using Wrote.request taken
  | markReviewCommitted id =>
      cases opened : db.reviews.any (LedgerDb.isOpen id) with
      | false => simpa only [writesOf, LedgerDb.answer, opened] using Wrote.nothing _
      | true => simpa only [writesOf, LedgerDb.answer, opened] using Wrote.committed opened
  | lock key => exact .nothing _
  | getRecord id => exact .nothing _
  | ledgerVersion runID => exact .nothing _
  | liveSupersessors id => exact .nothing _
  | getReviewRequest id => exact .nothing _
  | actorKind id => exact .nothing _

namespace Learns

variable {after : Seen} (learnt : Learns db seen statement after)
include learnt

theorem of_found {entry : String × Record} (member : entry ∈ after.found) :
    entry ∈ seen.found ∨ db.getRecord entry.1 = some entry.2 := by
  cases learnt with
  | found here =>
      rcases List.mem_cons.mp member with rfl | before
      · exact Or.inr here
      · exact Or.inl before
  | nothing | unreplaced none | request here | kind listed | version locked => exact Or.inl member

theorem of_request {entry : String × ReviewRequest} (member : entry ∈ after.requests) :
    entry ∈ seen.requests ∨
      statement = .getReviewRequest entry.1 ∧ db.getReviewRequest entry.1 = some entry.2 := by
  cases learnt with
  | request here =>
      rcases List.mem_cons.mp member with rfl | before
      · exact Or.inr ⟨rfl, here⟩
      · exact Or.inl before
  | nothing | found here | unreplaced none | kind listed | version locked => exact Or.inl member

theorem of_kind {entry : String × String} (member : entry ∈ after.kinds) :
    entry ∈ seen.kinds ∨ db.actorKind entry.1 = some entry.2 := by
  cases learnt with
  | kind listed =>
      rcases List.mem_cons.mp member with rfl | before
      · exact Or.inr listed
      · exact Or.inl before
  | nothing | found here | unreplaced none | request here | version locked => exact Or.inl member

theorem of_version {entry : String × Nat × List Write} (member : entry ∈ after.versions) :
    entry ∈ seen.versions ∨
      .run entry.1 ∈ seen.locks ∧ entry.2 = (db.ledgerVersion entry.1, seen.writes) := by
  cases learnt with
  | version locked =>
      rcases List.mem_cons.mp member with rfl | before
      · exact Or.inr ⟨locked, rfl⟩
      · exact Or.inl before
  | nothing | found here | unreplaced none | request here | kind listed => exact Or.inl member

end Learns

namespace Wrote

variable {store : Store} {writes : List Write} (written : Wrote store db statement writes)
include written

theorem of_record {rec : Record} (member : rec ∈ recordsOf writes) :
    statement = .insertRecord rec ∧ db.insertRecord store rec = .ok () := by
  cases written with
  | record taken =>
      cases List.mem_singleton.mp member
      exact ⟨rfl, taken⟩
  | nothing | request taken | committed opened => cases member

theorem of_request {req : ReviewRequest} (member : .request req ∈ writes) :
    statement = .insertReviewRequest req ∧ db.insertReviewRequest req = .ok () := by
  cases written with
  | nothing => cases member
  | record taken => cases List.mem_singleton.mp member
  | committed opened => cases List.mem_singleton.mp member
  | request taken =>
      cases List.mem_singleton.mp member
      exact ⟨rfl, taken⟩

theorem of_committed {id : String} (member : .committed id ∈ writes) :
    statement = .markReviewCommitted id ∧ db.reviews.any (LedgerDb.isOpen id) = true := by
  cases written with
  | nothing => cases member
  | record taken => cases List.mem_singleton.mp member
  | request taken => cases List.mem_singleton.mp member
  | committed opened =>
      cases List.mem_singleton.mp member
      exact ⟨rfl, opened⟩

/-- A statement inserts one record at most. -/
theorem nodup_records : ((recordsOf writes).map Record.id).Nodup := by
  cases written with
  | record taken => exact List.nodup_singleton _
  | nothing | request taken | committed opened => exact List.nodup_nil

end Wrote

theorem insertReviewRequest_ok {req : ReviewRequest} (taken : db.insertReviewRequest req = .ok ()) :
    ∀ row ∈ db.reviews, row.id ≠ req.id := by
  by_cases known : (db.reviews.any fun old => old.id = req.id) = true
  · simp [LedgerDb.insertReviewRequest, known] at taken
  · simpa using known

end

theorem Brought.grow {body later : Session} {rec : Record} (brought : Brought store body rec)
    (same : later.call = body.call) (grows : body.seen.Grows later.seen) : Brought store later rec where
  run := grows.locks _ brought.run
  key := grows.locks _ brought.key
  admitted := by
    rw [same]
    exact brought.admitted
  brings := by
    rw [same]
    exact brought.brings.grow grows

theorem view_records : (s.view LedgerDb.apply txn).records = s.db.records ++ recordsOf txn.writes :=
  LedgerDb.foldl_records s.db txn.writes

/-- The reviews a call reads while it has written nothing but records. -/
theorem Sound.view_reviews (sound : Sound store s id txn) (only : txn.body.seen.OnlyRecords) :
    (s.view LedgerDb.apply txn).reviews = s.db.reviews := by
  obtain ⟨records, wrote⟩ := only
  rw [World.view, sound.writes, wrote]
  exact LedgerDb.foldl_reviews s.db records

theorem Seen.onlyRecords_of_nil {seen : Seen} (none : seen.writes = []) : seen.OnlyRecords :=
  ⟨[], none⟩

theorem Sound.answered {statement : Statement} {onward : Answer statement → Script}
    (sound : Sound store s id txn) (rest : txn.body.rest = .call statement onward)
    (sameDb : next.db = s.db)
    (held : ∀ key, statement.key? = some key ∨ s.holder key = some id → next.holder key = some id) :
    Sound store next id (s.answered store txn statement onward) := by
  have keeps := sound.keeps
  rw [rest] at keeps
  have grows := txn.body.seen.grows_after statement ((s.view LedgerDb.apply txn).answer store statement)
  have learnt := learns store (s.view LedgerDb.apply txn) txn.body.seen statement
  have written := wrote store (s.view LedgerDb.apply txn) statement
  constructor
  · exact keeps.2 _
  · simp [LedgerState.answered, Seen.after, sound.writes]
  · intro key member
    simp only [LedgerState.answered, Seen.after, List.mem_append, Option.mem_toList] at member
    rcases member with isKey | before
    · exact held key (Or.inl isKey)
    · exact held key (Or.inr (sound.held key before))
  · intro rec member
    simp only [LedgerState.answered, recordsOf_append, List.mem_append] at member
    rcases member with before | new
    · exact (sound.brought rec before).grow rfl grows
    · obtain ⟨rfl, taken⟩ := written.of_record new
      obtain ⟨_, run, admitted, brings, _⟩ := keeps.1
      exact ⟨grows.locks _ run, List.mem_cons_self, admitted, brings.grow grows⟩
  · simp only [LedgerState.answered, recordsOf_append, sameDb, ← List.append_assoc]
    rw [List.map_append, List.nodup_append]
    refine ⟨sound.distinct, written.nodup_records, ?_⟩
    intro left member right isNew
    obtain ⟨old, isOld, rfl⟩ := List.mem_map.mp member
    obtain ⟨rec, isRec, rfl⟩ := List.mem_map.mp isNew
    rw [← view_records] at isOld
    have fresh := (LedgerDb.insertRecord_ok_iff.mp (written.of_record isRec).2).2.1
    intro same
    rw [← same] at fresh
    exact fresh (List.mem_map_of_mem isOld)
  · intro entry member
    have there : entry.2.id = entry.1 ∧ entry.2 ∈ s.db.records ++ recordsOf txn.writes := by
      rcases learnt.of_found member with before | here
      · exact sound.found entry before
      · refine ⟨by simpa using List.find?_some here, ?_⟩
        rw [← view_records]
        exact List.mem_of_find?_eq_some here
    refine ⟨there.1, ?_⟩
    simp only [LedgerState.answered, recordsOf_append, sameDb, ← List.append_assoc]
    exact List.mem_append_left _ there.2
  · intro entry member
    rw [sameDb]
    rcases learnt.of_request member with before | ⟨rfl, here⟩
    · exact sound.requests entry before
    · refine ⟨by simpa using List.find?_some here, _, ?_, rfl⟩
      have reads := sound.view_reviews (Seen.onlyRecords_of_nil keeps.1)
      rw [← reads]
      exact List.mem_of_find?_eq_some here
  · intro entry member
    rw [sameDb]
    rcases learnt.of_kind member with before | listed
    · exact sound.kinds entry before
    · have same : (s.view LedgerDb.apply txn).actors = s.db.actors := LedgerDb.foldl_actors s.db txn.writes
      rwa [LedgerDb.actorKind, same] at listed
  · intro entry member
    rw [sameDb]
    have seenLocks : ∀ key ∈ txn.body.seen.locks,
        key ∈ (s.answered store txn statement onward).body.seen.locks := grows.locks
    rcases learnt.of_version member with before | ⟨locked, version⟩
    · exact ⟨seenLocks _ (sound.versions entry before).1, (sound.versions entry before).2⟩
    · refine ⟨seenLocks _ locked, ?_⟩
      rw [version, World.view, sound.writes]
  · intro req member
    rw [sameDb]
    simp only [LedgerState.answered, List.mem_append] at member
    rcases member with before | new
    · have opened := sound.opened req before
      exact ⟨opened.status, grows.locks _ opened.run, grows.locks _ opened.key,
        grows.versions _ opened.current, opened.distinct, opened.fresh⟩
    · obtain ⟨rfl, taken⟩ := written.of_request new
      have asks := keeps.1
      have reads := sound.view_reviews (Seen.onlyRecords_of_nil asks.alone)
      have fresh := insertReviewRequest_ok taken
      rw [reads] at fresh
      exact ⟨asks.opens, grows.locks _ asks.locked, List.mem_cons_self,
        grows.versions _ asks.current, asks.distinct, fresh⟩
  · intro review member
    rw [sameDb]
    simp only [LedgerState.answered, List.mem_append] at member
    rcases member with before | new
    · obtain ⟨locked, row⟩ := sound.marked review before
      exact ⟨grows.locks _ locked, row⟩
    · obtain ⟨rfl, opened⟩ := written.of_committed new
      rw [sound.view_reviews keeps.1.1, List.any_eq_true] at opened
      obtain ⟨row, isRow, isOpen⟩ := opened
      simp only [LedgerDb.isOpen, Bool.and_eq_true, decide_eq_true_eq] at isOpen
      exact ⟨List.mem_cons_self, row, isRow, isOpen⟩

end CultureNodes.Ledger
