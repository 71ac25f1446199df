import CultureNodes.Ledger.Scripts

/-!
The ledger delta of a completion. The engine prepares every record before it writes one: budget, what
the node's contract permits, normalization, schema and producer matrix. A delta it refuses is recorded as
a rejected completion; one it accepts is appended record by record in the completion's transaction.
-/

namespace CultureNodes.Ledger

open Compiler (quoteText)

def RecordType.text : RecordType → String
  | .announcement => "announcement"
  | .claim => "claim"
  | .assumption => "assumption"
  | .question => "question"
  | .task => "task"
  | .decision => "decision"
  | .successSignal => "success_signal"
  | .evidence => "evidence"
  | .result => "result"
  | .review => "review"
  | .grade => "grade"
  | .dispatchPreflight => "dispatch_preflight"
  | .dispatchAcknowledgement => "dispatch_acknowledgement"
  | .handTurn => "hand_turn"
  | .handTurnDefinition => "hand_turn_definition"
  | .other text => text

def Authority.text : Authority → String
  | .proposed => "proposed"
  | .confirmed => "confirmed"
  | .observed => "observed"
  | .derived => "derived"
  | .rejected => "rejected"
  | .superseded => "superseded"
  | .other text => text

def AuthorityError.text (error : AuthorityError) : String :=
  "ledger: authority refused [" ++ error.rule.text ++ "]: origin " ++ error.origin.text ++
    (if error.actorID = "" then "" else " (" ++ error.actorID ++ ")") ++
    " may not append a " ++ error.recordType.text ++ " record with authority " ++ error.authority.text ++
    (if error.field = "" then "" else " at " ++ error.field) ++
    (if error.detail = "" then "" else ": " ++ error.detail)

/-- What a node and its workflow declare about the records of a completion. -/
structure DeltaContract where
  nodeID : String
  propose : List String
  observe : List String
  maxRecords : Int
  maxRecordsPerNode : Int
deriving DecidableEq, Repr

/-- Where the records of a completion come from, by the engine's own account. -/
structure Provenance where
  runID : String
  nodeRunID : String
  attemptID : String
deriving DecidableEq, Repr

def recordBudget (contract : DeltaContract) : Int :=
  if 0 < contract.maxRecords then contract.maxRecords else contract.maxRecordsPerNode

def listText (texts : List String) : String :=
  "[" ++ String.intercalate " " texts ++ "]"

def permitted (contract : DeltaContract) (rec : Record) : Except String Unit :=
  match rec.authority with
  | .proposed =>
      if rec.recordType.text ∈ contract.propose then .ok ()
      else .error ("node " ++ quoteText contract.nodeID ++ " does not declare propose of record type " ++
        quoteText rec.recordType.text ++ " (it declares " ++ listText contract.propose ++ ")")
  | .observed =>
      if rec.recordType.text ∈ contract.observe then .ok ()
      else .error ("node " ++ quoteText contract.nodeID ++ " does not declare observe of record type " ++
        quoteText rec.recordType.text ++ " (it declares " ++ listText contract.observe ++ ")")
  | authority => .error ("a node completion may propose or observe; authority " ++
      quoteText authority.text ++ " is not available to it — confirmed and rejected are review " ++
      "transactions (PRD §10.8) and derived belongs to deterministic producers")

/-- The engine's facts about a record, and the default authority. -/
def attributed (place : Provenance) (rec : Record) : Record :=
  { rec with
    runID := place.runID
    nodeRunID := place.nodeRunID
    attemptID := place.attemptID
    authority := if rec.authority = .other "" then .proposed else rec.authority }

section

variable (store : Store) (contract : DeltaContract) (place : Provenance)
  (manifest : Option RunnerManifest)

/-- The checks of a record that is ready to be stored. -/
def checkPrepared (prepared : Record) : Except String Record :=
  match store.validate prepared with
  | .error detail => .error detail
  | .ok () =>
      match checkAuthority prepared { manifest := manifest } with
      | .error refusal => .error refusal.text
      | .ok () => .ok prepared

def prepareRecord (stamp : Stamp) (rec : Record) : Except String Record :=
  match permitted contract (attributed place rec) with
  | .error detail => .error detail
  | .ok () =>
      let normalized := normalize stamp (attributed place rec)
      match store.computeDigest normalized with
      | .error detail => .error detail
      | .ok digest => checkPrepared store manifest { normalized with contentDigest := digest }

def prepareRecords : Nat → List (Stamp × Record) → Except String (List Record)
  | _, [] => .ok []
  | index, (stamp, rec) :: rest =>
      match prepareRecord store contract place manifest stamp rec with
      | .error detail => .error ("ledger delta record " ++ toString index ++ ": " ++ detail)
      | .ok prepared =>
          match prepareRecords (index + 1) rest with
          | .error detail => .error detail
          | .ok others => .ok (prepared :: others)

def prepareDelta (delta : List (Stamp × Record)) : Except String (List Record) :=
  if 0 < recordBudget contract ∧ recordBudget contract < delta.length then
    .error ("delta carries " ++ toString delta.length ++ " records; node " ++
      quoteText contract.nodeID ++ " may write at most " ++ toString (recordBudget contract))
  else prepareRecords store contract place manifest 0 delta

end

/-- One statement of a transaction that runs alone. -/
def LedgerDb.execute (store : Store) (db : LedgerDb) (statement : Statement) :
    LedgerDb × Answer statement :=
  let answer := db.answer store statement
  ((writesOf statement answer).foldl LedgerDb.apply db, answer)

/-- Append the prepared records in turn; each brings the stamp that the append would use. -/
def appendLedger (store : Store) (manifest : Option RunnerManifest) (db : LedgerDb)
    (pending : List (Stamp × Record)) : Except LedgerError LedgerResult :=
  (Program.alone (LedgerDb.execute store) db (appendAll store manifest pending [])).2

/-- The record with the digest of its other fields. -/
def Rules.withDigest (rules : Rules) (rec : Record) : Record :=
  { rec with contentDigest := rules.digest { rec with contentDigest := "" } }

def asStored (store : Store) (place : Provenance) (entry : Stamp × Record) : Record :=
  store.withDigest (normalize entry.1 (attributed place entry.2))

/-- The table takes the records one after another: each has a key of its own, replaces nothing or a
record that is there, is of a registered actor or of none, and fits the columns. -/
def Takes (store : Store) (registered : String → Bool) : List String → List Record → Prop
  | _, [] => True
  | known, rec :: rest =>
      store.storable rec = true ∧ rec.id ∉ known ∧
        (rec.supersedes = "" ∨ rec.supersedes = rec.id ∨ rec.supersedes ∈ known) ∧
        (rec.origin.actorID = "" ∨ registered rec.origin.actorID = true) ∧
        Takes store registered (known ++ [rec.id]) rest

/-- Neither the schema nor the table looks at when a record was created, as long as the year has four
digits. -/
structure Timeless (store : Store) : Prop where
  validate : ∀ (rec : Record) (first second : Int), encodes first = true → encodes second = true →
    store.validate (store.withDigest { rec with createdAt := first }) = .ok () →
      store.validate (store.withDigest { rec with createdAt := second }) = .ok ()
  storable : ∀ (rec : Record) (first second : Int), encodes first = true → encodes second = true →
    store.storable (store.withDigest { rec with createdAt := first }) =
      store.storable (store.withDigest { rec with createdAt := second })

variable {store : Store} {contract : DeltaContract} {place : Provenance} {manifest : Option RunnerManifest}
  {stamp : Stamp} {rec prepared : Record} {db : LedgerDb}

/-- What a prepared record has passed. -/
structure Prepared (store : Store) (manifest : Option RunnerManifest) (rec : Record) : Prop where
  named : rec.id ≠ ""
  versioned : rec.schemaVersion ≠ ""
  payload : rec.data.isSome = true
  rounded : truncate rec.createdAt = rec.createdAt
  dated : encodes rec.createdAt = true
  closed : store.withDigest rec = rec
  valid : store.validate rec = .ok ()
  admitted : checkAuthority rec { manifest := manifest } = .ok ()

theorem truncate_truncate (instant : Int) : truncate (truncate instant) = truncate instant := by
  simp only [truncate]
  omega

theorem checkPrepared_ok (ok : checkPrepared store manifest rec = .ok prepared) :
    prepared = rec ∧ store.validate rec = .ok () ∧ checkAuthority rec { manifest := manifest } = .ok () := by
  simp only [checkPrepared] at ok
  cases valid : store.validate rec with
  | error detail =>
      rw [valid] at ok
      cases ok
  | ok =>
      rw [valid] at ok
      dsimp only at ok
      cases admitted : checkAuthority rec { manifest := manifest } with
      | error refusal =>
          rw [admitted] at ok
          cases ok
      | ok =>
          rw [admitted] at ok
          cases ok
          exact ⟨rfl, rfl, rfl⟩

theorem prepareRecord_ok (ok : prepareRecord store contract place manifest stamp rec = .ok prepared) :
    prepared = asStored store place (stamp, rec) ∧ Prepared store manifest prepared := by
  simp only [prepareRecord] at ok
  cases permits : permitted contract (attributed place rec) with
  | error detail =>
      rw [permits] at ok
      cases ok
  | ok =>
      rw [permits] at ok
      dsimp only at ok
      by_cases dated : encodes (normalize stamp (attributed place rec)).createdAt = true
      · rw [Rules.computeDigest, if_pos dated] at ok
        have checks : checkPrepared store manifest (asStored store place (stamp, rec)) = .ok prepared := ok
        obtain ⟨rfl, valid, admitted⟩ := checkPrepared_ok checks
        refine ⟨rfl, ?_, ?_, rfl, truncate_truncate _, dated, rfl, valid, admitted⟩
        · simp only [asStored, Rules.withDigest, normalize]
          split
          · exact stamp.named
          · assumption
        · simp only [asStored, Rules.withDigest, normalize]
          split
          · decide
          · assumption
      · rw [Rules.computeDigest, if_neg dated] at ok
        cases ok

theorem prepareRecords_ok {index : Nat} {delta : List (Stamp × Record)} {records : List Record}
    (ok : prepareRecords store contract place manifest index delta = .ok records) :
    records = delta.map (asStored store place) ∧ ∀ rec ∈ records, Prepared store manifest rec := by
  induction delta generalizing index records with
  | nil =>
      cases ok
      exact ⟨rfl, fun _ member => by cases member⟩
  | cons entry rest ih =>
      simp only [prepareRecords] at ok
      cases first : prepareRecord store contract place manifest entry.1 entry.2 with
      | error detail =>
          rw [first] at ok
          cases ok
      | ok prepared =>
          rw [first] at ok
          dsimp only at ok
          cases others : prepareRecords store contract place manifest (index + 1) rest with
          | error detail =>
              rw [others] at ok
              cases ok
          | ok later =>
              rw [others] at ok
              cases ok
              obtain ⟨same, isPrepared⟩ := prepareRecord_ok first
              obtain ⟨sameRest, arePrepared⟩ := ih others
              refine ⟨by rw [same, sameRest]; rfl, ?_⟩
              intro rec member
              rcases List.mem_cons.mp member with rfl | isLater
              · exact isPrepared
              · exact arePrepared rec isLater

theorem prepareDelta_ok {delta : List (Stamp × Record)} {records : List Record}
    (accepted : prepareDelta store contract place manifest delta = .ok records) :
    records = delta.map (asStored store place) ∧ ∀ rec ∈ records, Prepared store manifest rec := by
  simp only [prepareDelta] at accepted
  split at accepted
  · cases accepted
  · exact prepareRecords_ok accepted

/-- The node may write the record, and it meets the schema and the producer matrix. -/
structure Admissible (store : Store) (contract : DeltaContract) (place : Provenance)
    (manifest : Option RunnerManifest) (entry : Stamp × Record) : Prop where
  permits : permitted contract (attributed place entry.2) = .ok ()
  dated : encodes (normalize entry.1 (attributed place entry.2)).createdAt = true
  valid : store.validate (asStored store place entry) = .ok ()
  admitted : checkAuthority (asStored store place entry) { manifest := manifest } = .ok ()

theorem prepareRecord_ok_iff {entry : Stamp × Record} :
    (∃ prepared, prepareRecord store contract place manifest entry.1 entry.2 = .ok prepared) ↔
      Admissible store contract place manifest entry := by
  constructor
  · intro succeeds
    obtain ⟨prepared, ok⟩ := succeeds
    obtain ⟨rfl, isPrepared⟩ := prepareRecord_ok ok
    refine ⟨?_, isPrepared.dated, isPrepared.valid, isPrepared.admitted⟩
    simp only [prepareRecord] at ok
    cases permits : permitted contract (attributed place entry.2) with
    | error detail =>
        rw [permits] at ok
        cases ok
    | ok => rfl
  · intro admissible
    obtain ⟨permits, dated, valid, admitted⟩ := admissible
    have checks : checkPrepared store manifest (asStored store place entry) =
        .ok (asStored store place entry) := by
      simp only [checkPrepared, valid, admitted]
    refine ⟨asStored store place entry, ?_⟩
    simp only [prepareRecord, permits, Rules.computeDigest, if_pos dated]
    exact checks

theorem prepareRecords_ok_iff (index : Nat) {delta : List (Stamp × Record)} :
    (∃ records, prepareRecords store contract place manifest index delta = .ok records) ↔
      ∀ entry ∈ delta, Admissible store contract place manifest entry := by
  induction delta generalizing index with
  | nil => simp [prepareRecords]
  | cons entry rest ih =>
      rw [List.forall_mem_cons, ← prepareRecord_ok_iff, ← ih (index + 1)]
      simp only [prepareRecords]
      cases first : prepareRecord store contract place manifest entry.1 entry.2 with
      | error detail => simp
      | ok prepared =>
          cases others : prepareRecords store contract place manifest (index + 1) rest with
          | error detail => simp
          | ok later => simp

theorem prepareDelta_ok_iff {delta : List (Stamp × Record)} :
    (∃ records, prepareDelta store contract place manifest delta = .ok records) ↔
      ¬ (0 < recordBudget contract ∧ recordBudget contract < delta.length) ∧
        ∀ entry ∈ delta, Admissible store contract place manifest entry := by
  rw [← prepareRecords_ok_iff 0]
  simp only [prepareDelta]
  split
  · rename_i exceeded
    simp [exceeded]
  · rename_i affordable
    simp only [affordable, not_false_eq_true, true_and]

/-- A prepared record passes the checks of the append again. The append may give it another instant, where
it was dated to the first of all. -/
theorem Prepared.again (isPrepared : Prepared store manifest rec) (timeless : Timeless store)
    (stamp : Stamp) :
    ∃ again, (digested store (normalize stamp rec)).bind (checked store { manifest := manifest }) = .ok again ∧
      again.id = rec.id ∧ again.supersedes = rec.supersedes ∧ again.origin = rec.origin ∧
      store.storable again = store.storable rec := by
  obtain ⟨named, versioned, payload, rounded, dated, closed, valid, admitted⟩ := isPrepared
  let createdAt := truncate (if rec.createdAt = 0 then stamp.now else rec.createdAt)
  have encodable : encodes createdAt = true := by
    simp only [createdAt]
    split
    · exact stamp.dated
    · rw [rounded]
      exact dated
  have normalized : normalize stamp rec = { rec with createdAt := createdAt } := by
    obtain ⟨data, isData⟩ := Option.isSome_iff_exists.mp payload
    simp only [normalize, if_neg named, if_neg versioned, isData, Option.getD_some, createdAt]
  have digests : digested store (normalize stamp rec) =
      .ok (store.withDigest { rec with createdAt := createdAt }) := by
    rw [normalized, digested, Rules.computeDigest, if_pos encodable]
    rfl
  have validAgain : store.validate (store.withDigest { rec with createdAt := createdAt }) = .ok () := by
    apply timeless.validate rec rec.createdAt createdAt dated encodable
    rw [closed]
    exact valid
  have admittedAgain : checkAuthority (store.withDigest { rec with createdAt := createdAt })
      { manifest := manifest } = .ok () := admitted
  refine ⟨store.withDigest { rec with createdAt := createdAt }, ?_, rfl, rfl, rfl, ?_⟩
  · rw [digests]
    simp only [Except.bind, checked, validAgain, admittedAgain]
  · rw [timeless.storable rec createdAt rec.createdAt encodable dated, closed]

theorem hasActor_apply (db : LedgerDb) (rec : Record) :
    (db.apply (.record rec)).hasActor = db.hasActor := rfl

theorem appendAll_prepared (timeless : Timeless store) {pending : List (Stamp × Record)}
    (arePrepared : ∀ rec ∈ pending.map Prod.snd, Prepared store manifest rec) (appended : List Record) :
    (∃ records, (Program.alone (LedgerDb.execute store) db
        (appendAll store manifest pending appended)).2 = .ok (.appended records)) ↔
      Takes store db.hasActor (db.records.map Record.id) (pending.map Prod.snd) := by
  induction pending generalizing db appended with
  | nil => exact ⟨fun _ => trivial, fun _ => ⟨appended, rfl⟩⟩
  | cons entry rest ih =>
      rw [List.map_cons, List.forall_mem_cons] at arePrepared
      obtain ⟨again, passes, sameID, sameTarget, sameOrigin, sameFit⟩ :=
        arePrepared.1.again timeless entry.1
      have takes : db.insertRecord store again = .ok () ↔ store.storable entry.2 = true ∧
          entry.2.id ∉ db.records.map Record.id ∧ (entry.2.supersedes = "" ∨
            entry.2.supersedes = entry.2.id ∨ entry.2.supersedes ∈ db.records.map Record.id) ∧
          (entry.2.origin.actorID = "" ∨ db.hasActor entry.2.origin.actorID = true) := by
        rw [LedgerDb.insertRecord_ok_iff, sameID, sameTarget, sameOrigin, sameFit]
      rw [List.map_cons, Takes]
      cases inserted : db.insertRecord store again with
      | error failure =>
          have fails : (Program.alone (LedgerDb.execute store) db
              (appendAll store manifest (entry :: rest) appended)).2 =
                .error (.store again.id failure) := by
            simp only [appendAll, appendThrough, passes, Program.alone_call, LedgerDb.execute,
              LedgerDb.answer, writesOf, List.foldl_nil, inserted, Program.alone_done]
          rw [fails]
          constructor
          · intro succeeds
            obtain ⟨records, ok⟩ := succeeds
            cases ok
          · intro all
            have ok := takes.mpr ⟨all.1, all.2.1, all.2.2.1, all.2.2.2.1⟩
            rw [inserted] at ok
            cases ok
      | ok =>
          have goesOn : (Program.alone (LedgerDb.execute store) db
              (appendAll store manifest (entry :: rest) appended)).2 =
                (Program.alone (LedgerDb.execute store) (db.apply (.record again))
                  (appendAll store manifest rest (appended ++ [again]))).2 := by
            simp only [appendAll, appendThrough, passes, Program.alone_call, LedgerDb.execute,
              LedgerDb.answer, writesOf, List.foldl_nil, List.foldl_cons, inserted]
          have ids : (db.apply (.record again)).records.map Record.id =
              db.records.map Record.id ++ [entry.2.id] := by
            simp [LedgerDb.apply, sameID]
          have fits := takes.mp inserted
          rw [goesOn, ih arePrepared.2, ids, hasActor_apply]
          exact ⟨fun others => ⟨fits.1, fits.2.1, fits.2.2.1, fits.2.2.2, others⟩,
            fun all => all.2.2.2.2⟩

theorem appendAll_origins {pending : List (Stamp × Record)} {appended : List Record}
    {result : LedgerResult}
    (ok : (Program.alone (LedgerDb.execute store) db
      (appendAll store manifest pending appended)).2 = .ok result) :
    ∃ records, result = .appended records ∧
      records.map Record.origin = appended.map Record.origin ++ pending.map fun entry => entry.2.origin := by
  induction pending generalizing db appended with
  | nil =>
      simp only [appendAll, Program.alone_done, Except.ok.injEq] at ok
      exact ⟨appended, ok.symm, by simp⟩
  | cons entry rest ih =>
      simp only [appendAll, appendThrough, Program.alone_call] at ok
      cases passes : (digested store (normalize entry.1 entry.2)).bind
          (checked store { manifest := manifest }) with
      | error refusal =>
          simp only [passes, Program.alone_done] at ok
          cases ok
      | ok ready =>
          have origin : ready.origin = entry.2.origin := (Ready.of_bind passes).origin
          simp only [passes, Program.alone_call] at ok
          split at ok
          · cases ok
          · obtain ⟨records, same, origins⟩ := ih ok
            refine ⟨records, same, ?_⟩
            rw [origins]
            simp [origin]

/-- An accepted delta is appended exactly when the table takes its records. -/
theorem appendLedger_iff (timeless : Timeless store) {delta pending : List (Stamp × Record)}
    {records : List Record} (accepted : prepareDelta store contract place manifest delta = .ok records)
    (pends : pending.map Prod.snd = records) :
    (∃ appended, appendLedger store manifest db pending = .ok (.appended appended)) ↔
      Takes store db.hasActor (db.records.map Record.id) (delta.map (asStored store place)) := by
  obtain ⟨rfl, arePrepared⟩ := prepareDelta_ok accepted
  rw [← pends]
  apply appendAll_prepared timeless
  rw [pends]
  exact arePrepared

theorem timeless_openStore : Timeless openStore :=
  ⟨fun _ _ _ _ _ valid => valid, fun _ _ _ _ _ => rfl⟩

/-- A claim by a registered writer, with the id its author has chosen. -/
def chosenClaim (id : String) : Stamp × Record :=
  (⟨"ledger_9", 1000, by decide, firstStamp.dated⟩,
    { id := id, recordType := .claim, origin := { kind := .agent, actorID := "actor_writer" } })

def claimContract : DeltaContract where
  nodeID := "draft"
  propose := ["claim"]
  observe := []
  maxRecords := 0
  maxRecordsPerNode := 8

def oneClaim : LedgerDb where
  records := [(chosenClaim "ledger_1").2]
  actors := [⟨"actor_writer", "writer", "agent"⟩]

theorem chosenClaim_accepted (id : String) : ∃ records,
    prepareDelta openStore claimContract ⟨"run_1", "noderun_1", "attempt_1"⟩ none [chosenClaim id] =
      .ok records :=
  ⟨_, rfl⟩

theorem appendLedger_iff_newClaim :
    ∃ records,
      prepareDelta openStore claimContract ⟨"run_1", "noderun_1", "attempt_1"⟩ none
        [chosenClaim "ledger_2"] = .ok records ∧
      ∃ appended, appendLedger openStore none oneClaim
        (records.map fun rec => ((chosenClaim "ledger_2").1, rec)) = .ok (.appended appended) := by
  obtain ⟨records, accepted⟩ := chosenClaim_accepted "ledger_2"
  refine ⟨records, accepted, ?_⟩
  have pends : (records.map fun rec => ((chosenClaim "ledger_2").1, rec)).map Prod.snd = records := by
    simp
  rw [appendLedger_iff timeless_openStore accepted pends]
  refine ⟨rfl, ?_, Or.inl rfl, Or.inr ?_, trivial⟩
  · decide
  · decide

/-- The id that a record's author has chosen is taken, and the completion is rolled back. -/
theorem taken_id_rolls_back :
    ¬ ∀ (store : Store) (contract : DeltaContract) (place : Provenance) (manifest : Option RunnerManifest)
      (db : LedgerDb) (delta pending : List (Stamp × Record)) (records : List Record), Timeless store →
        prepareDelta store contract place manifest delta = .ok records →
          pending.map Prod.snd = records →
            ∃ appended, appendLedger store manifest db pending = .ok (.appended appended) := by
  intro always
  obtain ⟨records, accepted⟩ := chosenClaim_accepted "ledger_1"
  have pends : (records.map fun rec => ((chosenClaim "ledger_1").1, rec)).map Prod.snd = records := by
    simp
  have succeeds := always openStore _ _ none oneClaim _ _ records timeless_openStore accepted pends
  obtain ⟨same, arePrepared⟩ := prepareDelta_ok accepted
  rw [← pends] at arePrepared
  have takes := (appendAll_prepared timeless_openStore arePrepared []).mp succeeds
  rw [pends, same] at takes
  exact takes.2.1 (by decide)

end CultureNodes.Ledger
