import CultureNodes.Actors.Callback
import CultureNodes.Engine.System
import CultureNodes.Ledger.Delta

/-!
Whose records a completion may carry. A callback compares the origin of every record with the actor that
was dispatched, and an actor that dials in is held to its own credential. The answer to a dispatch is
handed to the engine as it is.
-/

namespace CultureNodes.Actors

open Compiler (quoteText)
open Engine (TechStatus Payload Workflow RunDb Node NodeRun EngineError)
open Ledger (Record LedgerDb LedgerError LedgerResult DeltaContract Provenance Stamp RunnerManifest
  prepareDelta appendLedger Admissible recordBudget)

def EventKind.text : EventKind → String
  | .accepted => "accepted"
  | .heartbeat => "heartbeat"
  | .progress => "progress"
  | .artifact => "artifact"
  | .signal => "signal"
  | .completed => "completed"
  | .failed => "failed"
  | .blocked => "blocked"

/-- The key of a registered row. -/
def keyOf (actors : List Ledger.Actor) (id : String) : Option String :=
  if id = "" then none else (actors.find? fun actor => actor.id = id).map Ledger.Actor.key

inductive KeyAnswer where
  | key (key : String)
  | unknown (detail : String)
  | failed (detail : String)
deriving DecidableEq, Repr

/-- The answer of a query by what it read: the rows of the registry, or a failure. -/
def actorKey (rows : Except String (List Ledger.Actor)) (id : String) : KeyAnswer :=
  match rows with
  | .error detail => .failed ("postgres: ActorKey " ++ id ++ ": " ++ detail)
  | .ok actors =>
      match keyOf actors id with
      | none => .unknown ("postgres: actor " ++ id ++ ": actors: no such actor")
      | some key => .key key

section

variable (lookup : String → KeyAnswer) (dispatched : String)

def originRefusal (origin : String) : String :=
  "origin_actor_id " ++ origin ++ " is not the dispatched actor " ++ dispatched

/-- The loop of `originActorMismatch`, from the key of the dispatched actor and the origins seen so far.
An error leaves custody undecided; a text that is not empty refuses the delta. -/
def mismatchFrom : String → List String → List Record → Except String String
  | _, _, [] => .ok ""
  | dispatchedKey, seen, rec :: rest =>
      if rec.origin.actorID = dispatched ∨ rec.origin.actorID ∈ seen then
        mismatchFrom dispatchedKey seen rest
      else
        match if dispatchedKey = "" then lookup dispatched else .key dispatchedKey with
        | .unknown detail => .ok (originRefusal dispatched rec.origin.actorID ++
            " (dispatched actor unresolvable: " ++ detail ++ ")")
        | .failed detail => .error ("actors: callback custody could not resolve dispatched actor " ++
            dispatched ++ ": " ++ detail)
        | .key known =>
            match lookup rec.origin.actorID with
            | .unknown _ => .ok (originRefusal dispatched rec.origin.actorID)
            | .failed detail => .error ("actors: callback custody could not resolve origin actor " ++
                rec.origin.actorID ++ ": " ++ detail)
            | .key key =>
                if key ≠ known then .ok (originRefusal dispatched rec.origin.actorID)
                else mismatchFrom known (rec.origin.actorID :: seen) rest

def originActorMismatch (records : List Record) : Except String String :=
  mismatchFrom lookup dispatched "" [] records

end

inductive ErrorClass where
  | retryableTransport
  | rateLimited
  | actorUnavailable
  | actorRejectedInput
  | authOrPolicy
  | contract
  | execution
  | timeout
  | cancelled
  | capacityExhausted
  | credentialSpent
deriving DecidableEq, Repr

namespace ErrorClass

def text : ErrorClass → String
  | .retryableTransport => "retryable_transport"
  | .rateLimited => "rate_limited"
  | .actorUnavailable => "actor_unavailable"
  | .actorRejectedInput => "actor_rejected_input"
  | .authOrPolicy => "auth_or_policy"
  | .contract => "contract"
  | .execution => "execution"
  | .timeout => "timeout"
  | .cancelled => "cancelled"
  | .capacityExhausted => "capacity_exhausted"
  | .credentialSpent => "credential_spent"

def techStatusFor : ErrorClass → TechStatus
  | .timeout => .timedOut
  | .cancelled => .cancelled
  | .authOrPolicy => .policyDenied
  | .actorRejectedInput | .contract => .contractRejected
  | _ => .failed

end ErrorClass

/-- The error document of an attempt without an answer. -/
structure Diagnostic where
  errorClass : String
  message : String := ""
  detail : String
deriving DecidableEq, Repr

/-- A result body. Its output is taken with the measurement of the workspace merged in. -/
structure InvocationResult where
  outcome : String := ""
  output : Payload := ""
  ledgerDelta : Option (List Record) := none

def InvocationResult.records (result : InvocationResult) : List Record :=
  result.ledgerDelta.getD []

/-- The body of a failed event; one that names no known class counts as an execution failure. -/
structure FailedPayload where
  errorClass : Option ErrorClass := none
  message : String := ""
  detail : String := ""

def FailedPayload.failedClass (payload : FailedPayload) : ErrorClass :=
  payload.errorClass.getD .execution

/-- An event with its payload read both ways: as a result body and as a failure. -/
structure TerminalEvent where
  id : String
  kind : EventKind
  result : Except String InvocationResult := .ok {}
  failure : FailedPayload := {}

/-- The domain outcome of a result; a blocked event that names none is its own. -/
def TerminalEvent.outcome (event : TerminalEvent) (payload : InvocationResult) : String :=
  if payload.outcome = "" ∧ event.kind = .blocked then "blocked" else payload.outcome

/-- The engine's request with the fields that attribute it. -/
structure Proposal extends Engine.CompletionRequest where
  actorID : String
  ledgerDelta : List Record := []

/-- What a hook after the run came to, and what the node does when its check fails. -/
structure PostRun where
  trustworthy : Bool
  passed : Bool
  detail : String
  rejectAssurance : Bool
  onFailure : String
deriving DecidableEq, Repr

section

variable (render : Diagnostic → Payload) (claim : Store.Claim) (actorID : String)

def completeFromResult (hook : Option PostRun) : Option InvocationResult → Proposal
  | none =>
      { claim := claim, status := .contractRejected, actorID := actorID
        output := render
          { errorClass := ErrorClass.contract.text, detail := "actor answered 200 with no result body" } }
  | some result =>
      let answered : Proposal :=
        { claim := claim, status := .succeeded, outcome := result.outcome, output := result.output
          actorID := actorID, ledgerDelta := result.records }
      match hook with
      | none => answered
      | some post =>
          if post.trustworthy = false then
            { claim := claim, status := .failed, actorID := actorID
              output := render { errorClass := "post_run", detail := post.detail }
              ledgerDelta := result.records }
          else if post.passed || post.rejectAssurance then answered
          else { answered with outcome := post.onFailure }

/-- The completion of a result that was delivered late, once it is decided whose its records are. -/
def completionOf (lookup : String → KeyAnswer) (outcome : String) (payload : InvocationResult) :
    Except String Proposal :=
  match originActorMismatch lookup actorID payload.records with
  | .error detail => .error detail
  | .ok detail =>
      if detail = "" then .ok
        { claim := claim, status := .succeeded, outcome := outcome, output := payload.output
          actorID := actorID, ledgerDelta := payload.records }
      else .ok
        { claim := claim, status := .contractRejected, retryRefusal := detail, actorID := actorID
          output := render { errorClass := "identity", detail := detail } }

/-- The completion of an event with a result body; a text cannot be acted on. -/
def completionWith (lookup : String → KeyAnswer) (event : TerminalEvent) :
    Except String (Except String Proposal) :=
  match event.result with
  | .error detail => .ok (.error (event.kind.text ++ " event " ++ event.id ++
      " carries a payload that is not a §13.2 result body: " ++ detail))
  | .ok payload =>
      if event.outcome payload = "" then
        .ok (.error ("completed event " ++ event.id ++ " declares no domain outcome"))
      else (completionOf render claim actorID lookup (event.outcome payload) payload).map .ok

/-- The completion a terminal event claims; an error leaves it undecided. -/
def completionFor (lookup : String → KeyAnswer) (event : TerminalEvent) :
    Except String (Except String Proposal) :=
  match event.kind with
  | .completed | .blocked => completionWith render claim actorID lookup event
  | .failed =>
      let status := event.failure.failedClass.techStatusFor
      .ok (.ok
        { claim := claim, status := status, actorID := actorID
          timeoutOrigin := if status = .timedOut then .actor else .unknown
          output := render
            { errorClass := event.failure.failedClass.text, message := event.failure.message
              detail := event.failure.detail } })
  | kind => .ok (.error ("event kind " ++ quoteText kind.text ++ " is not terminal"))

end

/-- An actor that dials in, by its credential: the key, and a row under that key if there is one. -/
structure InboundParty (actors : List Ledger.Actor) where
  key : String
  actorID : String
  registered : actorID = "" ∨ keyOf actors actorID = some key

def inboundMismatch (actorID : String) : List Record → Option String
  | [] => none
  | rec :: rest =>
      if rec.origin.actorID ≠ actorID then
        some ("dial-in completion origin actor " ++ quoteText rec.origin.actorID ++
          " does not match authenticated actor " ++ quoteText actorID)
      else inboundMismatch actorID rest

/-- An attempt as it was dispatched: to the actor of a key, by the row found under that key, if any. -/
structure Dispatched (actors : List Ledger.Actor) where
  claim : Store.Claim
  key : String
  actorID : String
  registered : actorID = "" ∨ keyOf actors actorID = some key

/-- How a result arrives. -/
inductive Report (actors : List Ledger.Actor) where
  | answered (hook : Option PostRun) (result : Option InvocationResult)
  | dialedIn (party : InboundParty actors) (hook : Option PostRun) (result : InvocationResult)
  | calledBack (event : TerminalEvent)

namespace Report

variable {actors : List Ledger.Actor}

def delta : Report actors → List Record
  | .answered _ result => (result.map InvocationResult.records).getD []
  | .dialedIn _ _ result => result.records
  | .calledBack event =>
      match event.result with
      | .error _ => []
      | .ok payload => payload.records

/-- The path checks whose records it carries. -/
def screened : Report actors → Bool
  | .answered _ _ => false
  | .dialedIn _ _ _ | .calledBack _ => true

/-- What the report asks of the engine, when it asks for a completion at all. -/
def proposal (render : Diagnostic → Payload) (lookup : String → KeyAnswer) (dispatched : Dispatched actors) :
    Report actors → Option Proposal
  | .answered hook result => some (completeFromResult render dispatched.claim dispatched.actorID hook result)
  | .dialedIn party hook result =>
      -- The mailbox of the attempt is the dispatched actor's.
      if party.key ≠ dispatched.key then none
      else
        match inboundMismatch party.actorID result.records with
        | none => some (completeFromResult render dispatched.claim dispatched.actorID hook (some result))
        | some detail => some
            { claim := dispatched.claim, status := ErrorClass.actorRejectedInput.techStatusFor
              actorID := dispatched.actorID
              output := render { errorClass := ErrorClass.actorRejectedInput.text, detail := detail }
              retryRefusal := "identity mismatch at dial-in completion acceptance is not retryable" }
  | .calledBack event =>
      match completionFor render dispatched.claim dispatched.actorID lookup event with
      | .ok (.ok proposal) => some proposal
      | _ => none

end Report

/-- The engine with the ledger it writes to. `minted` and `stamped` are what the pre-flight and the append
give to the record at each place of a delta. -/
structure LedgerEngine where
  env : Engine.Env
  wf : Workflow
  store : Ledger.Store
  contract : Node → DeltaContract
  place : NodeRun → Provenance
  minted : Nat → Stamp
  stamped : Nat → Stamp
  now : Nat

inductive CompletionError where
  | engine (error : EngineError)
  | ledger (error : LedgerError)

def entries (stamps : Nat → Stamp) (records : List Record) : List (Stamp × Record) :=
  records.zipIdx.map fun entry => (stamps entry.2, entry.1)

namespace LedgerEngine

variable (engine : LedgerEngine)

def prepared (node : Node) (run : NodeRun) (delta : List Record) : Except String (List Record) :=
  prepareDelta engine.store (engine.contract node) (engine.place run) none (entries engine.minted delta)

/-- The engine's environment for one proposal: the ledger judges its delta. -/
def judging (delta : List Record) : Engine.Env :=
  { engine.env with
    prepareDelta := fun node _ run _ =>
      match engine.prepared node run delta with
      | .error detail => some detail
      | .ok _ => none }

/-- The records that are left to append: those of the delta, or none when the completion is rejected. -/
def pending (proposal : Proposal) (node : Node) (db : RunDb) (run : NodeRun) : List Record :=
  match proposal.rejection (engine.judging proposal.ledgerDelta) node db run with
  | some _ => []
  | none => (engine.prepared node run proposal.ledgerDelta).toOption.getD []

/-- Complete an attempt and append its records, or neither. -/
def completeAttempt (db : RunDb) (ledger : LedgerDb) (proposal : Proposal) :
    Except CompletionError (RunDb × LedgerResult) :=
  match proposal.guard db with
  | .error error => .error (.engine error)
  | .ok (held, run) =>
      match Engine.loadWorkflow engine.wf run with
      | .error error => .error (.engine error)
      | .ok node =>
          match appendLedger engine.store none ledger
              (entries engine.stamped (engine.pending proposal node held run)) with
          | .error error => .error (.ledger error)
          | .ok result =>
              match Engine.completeAttempt (engine.judging proposal.ledgerDelta) engine.wf engine.now db
                  proposal.toCompletionRequest with
              | .error error => .error (.engine error)
              | .ok next => .ok (next, result)

end LedgerEngine

/-- The origin is a registered row of another actor than the one of the key. -/
def Foreign (ledger : LedgerDb) (key : String) (origin : Ledger.Origin) : Prop :=
  ∃ other, keyOf ledger.actors origin.actorID = some other ∧ other ≠ key

/-- Why the engine rejects a completion of a node: its output is refused, or the delta is too long or holds
a record that is not admissible. -/
def LedgerEngine.RejectsAt (engine : LedgerEngine) (proposal : Proposal) (node : Node) (run : NodeRun) :
    Prop :=
  (proposal.status = .succeeded ∧ proposal.checkOutput engine.env node ≠ none) ∨
    (0 < recordBudget (engine.contract node) ∧
      recordBudget (engine.contract node) < proposal.ledgerDelta.length) ∨
    ∃ entry ∈ entries engine.minted proposal.ledgerDelta,
      ¬ Admissible engine.store (engine.contract node) (engine.place run) none entry

def LedgerEngine.Rejects (engine : LedgerEngine) (db : RunDb) (proposal : Proposal) : Prop :=
  ∃ held run node, proposal.guard db = .ok (held, run) ∧
    Engine.loadWorkflow engine.wf run = .ok node ∧ engine.RejectsAt proposal node run

section

variable {lookup : String → KeyAnswer} {dispatched : String}

/-- Both rows are registered under one key. -/
def SharesKey (lookup : String → KeyAnswer) (dispatched origin : String) : Prop :=
  ∃ key, lookup dispatched = .key key ∧ lookup origin = .key key

theorem append_ne_empty {text : String} (filled : text ≠ "") (rest : String) : text ++ rest ≠ "" :=
  fun empty => filled (String.append_eq_empty_iff.mp empty).1

theorem originRefusal_ne (origin : String) : originRefusal dispatched origin ≠ "" := by
  apply append_ne_empty
  apply append_ne_empty
  apply append_ne_empty
  decide

theorem mismatchFrom_ok {records : List Record} {dispatchedKey : String} {seen : List String}
    (known : dispatchedKey = "" ∨ lookup dispatched = .key dispatchedKey)
    (seenBefore : ∀ origin ∈ seen, SharesKey lookup dispatched origin)
    (agrees : mismatchFrom lookup dispatched dispatchedKey seen records = .ok "") :
    ∀ rec ∈ records, rec.origin.actorID = dispatched ∨ SharesKey lookup dispatched rec.origin.actorID := by
  induction records generalizing dispatchedKey seen with
  | nil => simp
  | cons rec rest ih =>
      rw [List.forall_mem_cons]
      simp only [mismatchFrom] at agrees
      by_cases skipped : rec.origin.actorID = dispatched ∨ rec.origin.actorID ∈ seen
      · rw [if_pos skipped] at agrees
        exact ⟨skipped.imp_right (seenBefore _), ih known seenBefore agrees⟩
      · rw [if_neg skipped] at agrees
        split at agrees
        · refine absurd (Except.ok.inj agrees) ?_
          apply append_ne_empty
          apply append_ne_empty
          apply append_ne_empty
          exact originRefusal_ne _
        · cases agrees
        · rename_i key isKey
          have resolved : lookup dispatched = .key key := by
            rcases known with unset | isKnown
            · rwa [if_pos unset] at isKey
            · split at isKey
              · exact isKey
              · rw [isKnown, isKey]
          split at agrees
          · exact absurd (Except.ok.inj agrees) (originRefusal_ne _)
          · cases agrees
          · rename_i other found
            by_cases differs : other ≠ key
            · rw [if_pos differs] at agrees
              exact absurd (Except.ok.inj agrees) (originRefusal_ne _)
            · rw [if_neg differs] at agrees
              rw [Classical.not_not.mp differs] at found
              have shares : SharesKey lookup dispatched rec.origin.actorID := ⟨key, resolved, found⟩
              refine ⟨Or.inr shares, ih (Or.inr resolved) ?_ agrees⟩
              rw [List.forall_mem_cons]
              exact ⟨shares, seenBefore⟩

end

variable {ledger : LedgerDb} {rows : String → Except String (List Ledger.Actor)}

theorem keyOf_prefix {actors later : List Ledger.Actor} {id key : String} (grown : actors <+: later)
    (found : keyOf actors id = some key) : keyOf later id = some key := by
  obtain ⟨added, rfl⟩ := grown
  simp only [keyOf] at found ⊢
  split at found
  · cases found
  · rename_i named
    rw [if_neg named, List.find?_append]
    rw [Option.map_eq_some_iff] at found ⊢
    obtain ⟨actor, isFound, rfl⟩ := found
    exact ⟨actor, by rw [isFound]; rfl, rfl⟩

theorem keyOf_of_actorKey (reads : ∀ id actors, rows id = .ok actors → actors <+: ledger.actors)
    {id key : String} (found : actorKey (rows id) id = .key key) : keyOf ledger.actors id = some key := by
  simp only [actorKey] at found
  split at found
  · cases found
  · rename_i actors read
    split at found
    · cases found
    · rename_i other isOther
      cases found
      exact keyOf_prefix (reads id actors read) isOther

theorem not_foreign_of_registered {key actorID : String} {origin : Ledger.Origin}
    (registered : actorID = "" ∨ keyOf ledger.actors actorID = some key) (same : origin.actorID = actorID) :
    ¬ Foreign ledger key origin := by
  intro foreign
  obtain ⟨other, found, differs⟩ := foreign
  rw [same] at found
  rcases registered with unnamed | isKey
  · rw [unnamed] at found
    cases found
  · rw [isKey] at found
    exact differs (Option.some.inj found).symm

theorem not_foreign_of_sharesKey (reads : ∀ id actors, rows id = .ok actors → actors <+: ledger.actors)
    (dispatched : Dispatched ledger.actors) {origin : Ledger.Origin}
    (shares : SharesKey (fun id => actorKey (rows id) id) dispatched.actorID origin.actorID) :
    ¬ Foreign ledger dispatched.key origin := by
  obtain ⟨key, ofDispatched, ofOrigin⟩ := shares
  have dispatchedKey := keyOf_of_actorKey reads ofDispatched
  have originKey := keyOf_of_actorKey reads ofOrigin
  have same : key = dispatched.key := by
    rcases dispatched.registered with unnamed | isKey
    · rw [unnamed] at dispatchedKey
      cases dispatchedKey
    · rw [isKey] at dispatchedKey
      exact (Option.some.inj dispatchedKey).symm
  intro foreign
  obtain ⟨other, found, differs⟩ := foreign
  rw [originKey] at found
  exact differs ((Option.some.inj found).symm.trans same)

theorem inboundMismatch_none {actorID : String} {records : List Record}
    (agrees : inboundMismatch actorID records = none) : ∀ rec ∈ records, rec.origin.actorID = actorID := by
  induction records with
  | nil => simp
  | cons rec rest ih =>
      simp only [inboundMismatch] at agrees
      split at agrees
      · cases agrees
      · rename_i same
        rw [List.forall_mem_cons]
        exact ⟨Classical.not_not.mp same, ih agrees⟩

theorem entries_snd (stamps : Nat → Stamp) (records : List Record) :
    (entries stamps records).map Prod.snd = records := by
  rw [entries, List.map_map]
  exact List.zipIdx_map_fst 0 records

theorem entries_origins (stamps : Nat → Stamp) (records : List Record) :
    ((entries stamps records).map fun entry => entry.2.origin) = records.map Record.origin := by
  have mapped := congrArg (List.map Record.origin) (entries_snd stamps records)
  rwa [List.map_map] at mapped

namespace LedgerEngine

variable {engine : LedgerEngine} {proposal : Proposal} {node : Node} {db : RunDb} {run : NodeRun}
  {records : List Record}

theorem prepared_origins {delta : List Record} (accepted : engine.prepared node run delta = .ok records) :
    records.map Record.origin = delta.map Record.origin := by
  obtain ⟨rfl, -⟩ := Ledger.prepareDelta_ok accepted
  rw [List.map_map]
  exact entries_origins engine.minted delta

theorem judging_none_iff {delta : List Record} {req : Engine.CompletionRequest} :
    (engine.judging delta).prepareDelta node db run req = none ↔
      ∃ records, engine.prepared node run delta = .ok records := by
  simp only [judging]
  cases engine.prepared node run delta <;> simp

theorem prepared_of_rejection_none
    (passed : proposal.rejection (engine.judging proposal.ledgerDelta) node db run = none) :
    ∃ records, engine.prepared node run proposal.ledgerDelta = .ok records := by
  rw [Engine.CompletionRequest.rejection, Option.or_eq_none_iff] at passed
  exact judging_none_iff.mp passed.2

theorem rejection_none_iff :
    proposal.rejection (engine.judging proposal.ledgerDelta) node db run = none ↔
      ¬ engine.RejectsAt proposal node run := by
  have sameOutput : proposal.checkOutput (engine.judging proposal.ledgerDelta) node =
      proposal.checkOutput engine.env node := rfl
  have output : (if proposal.status = .succeeded then proposal.checkOutput engine.env node else none) = none ↔
      ¬ (proposal.status = .succeeded ∧ proposal.checkOutput engine.env node ≠ none) := by
    split <;> simp [*]
  have length : (entries engine.minted proposal.ledgerDelta).length = proposal.ledgerDelta.length := by
    simp [entries]
  have delta : (∃ records, engine.prepared node run proposal.ledgerDelta = .ok records) ↔
      ¬ (0 < recordBudget (engine.contract node) ∧
        recordBudget (engine.contract node) < proposal.ledgerDelta.length) ∧
      ∀ entry ∈ entries engine.minted proposal.ledgerDelta,
        Admissible engine.store (engine.contract node) (engine.place run) none entry := by
    rw [prepared, Ledger.prepareDelta_ok_iff, length]
  rw [Engine.CompletionRequest.rejection, Option.or_eq_none_iff, sameOutput, output, judging_none_iff, delta]
  simp only [RejectsAt, not_or, not_exists, not_and_not_right]

theorem completeAttempt_ok {ledger : LedgerDb} {next : RunDb} {result : LedgerResult}
    (committed : engine.completeAttempt db ledger proposal = .ok (next, result)) :
    ∃ held run node, proposal.guard db = .ok (held, run) ∧
      Engine.loadWorkflow engine.wf run = .ok node ∧
      appendLedger engine.store none ledger
        (entries engine.stamped (engine.pending proposal node held run)) = .ok result := by
  simp only [completeAttempt] at committed
  cases guarded : proposal.guard db with
  | error error =>
      rw [guarded] at committed
      cases committed
  | ok claimed =>
      obtain ⟨held, run⟩ := claimed
      rw [guarded] at committed
      dsimp only at committed
      cases loaded : Engine.loadWorkflow engine.wf run with
      | error error =>
          rw [loaded] at committed
          cases committed
      | ok node =>
          rw [loaded] at committed
          dsimp only at committed
          cases appended : appendLedger engine.store none ledger
              (entries engine.stamped (engine.pending proposal node held run)) with
          | error error =>
              rw [appended] at committed
              cases committed
          | ok result =>
              rw [appended] at committed
              dsimp only at committed
              split at committed
              · cases committed
              · cases committed
                exact ⟨held, run, node, rfl, loaded, appended⟩

theorem records_of_completeAttempt {ledger : LedgerDb} {next : RunDb}
    (committed : engine.completeAttempt db ledger proposal = .ok (next, .appended records)) :
    engine.Rejects db proposal ∧ records = [] ∨
      ¬ engine.Rejects db proposal ∧
        records.map Record.origin = proposal.ledgerDelta.map Record.origin := by
  obtain ⟨held, run, node, guarded, loaded, appended⟩ := completeAttempt_ok committed
  obtain ⟨others, same, origins⟩ := Ledger.appendAll_origins appended
  cases same
  rw [List.map_nil, List.nil_append, entries_origins] at origins
  cases rejected : proposal.rejection (engine.judging proposal.ledgerDelta) node held run with
  | some detail =>
      left
      refine ⟨⟨held, run, node, guarded, loaded, ?_⟩, ?_⟩
      · by_contra admitted
        rw [rejection_none_iff.mpr admitted] at rejected
        cases rejected
      · simp only [pending, rejected, List.map_nil, List.map_eq_nil_iff] at origins
        exact origins
  | none =>
      right
      constructor
      · intro rejects
        obtain ⟨heldAgain, runAgain, nodeAgain, guardedAgain, loadedAgain, refused⟩ := rejects
        rw [guarded] at guardedAgain
        cases guardedAgain
        rw [loaded] at loadedAgain
        cases loadedAgain
        exact rejection_none_iff.mp rejected refused
      · obtain ⟨ready, accepted⟩ := prepared_of_rejection_none rejected
        rw [← prepared_origins accepted, origins]
        simp only [pending, rejected, accepted]
        rfl

end LedgerEngine

section

variable {render : Diagnostic → Payload} {claim : Store.Claim} {actorID : String}

theorem completeFromResult_ledgerDelta (hook : Option PostRun) (result : Option InvocationResult) :
    (completeFromResult render claim actorID hook result).ledgerDelta =
      (result.map InvocationResult.records).getD [] := by
  cases result with
  | none => rfl
  | some result =>
      cases hook with
      | none => rfl
      | some post =>
          simp only [completeFromResult]
          split
          · rfl
          · split <;> rfl

theorem completionOf_own {lookup : String → KeyAnswer} {outcome : String} {payload : InvocationResult}
    {proposal : Proposal}
    (decided : completionOf render claim actorID lookup outcome payload = .ok proposal) :
    ∀ rec ∈ proposal.ledgerDelta,
      rec.origin.actorID = actorID ∨ SharesKey lookup actorID rec.origin.actorID := by
  simp only [completionOf] at decided
  cases custody : originActorMismatch lookup actorID payload.records with
  | error detail =>
      rw [custody] at decided
      cases decided
  | ok detail =>
      rw [custody] at decided
      dsimp only at decided
      by_cases agrees : detail = ""
      · rw [if_pos agrees] at decided
        cases decided
        rw [agrees] at custody
        exact mismatchFrom_ok (Or.inl rfl) (by simp) custody
      · rw [if_neg agrees] at decided
        cases decided
        simp

theorem completionWith_own {lookup : String → KeyAnswer} {event : TerminalEvent} {proposal : Proposal}
    (claims : completionWith render claim actorID lookup event = .ok (.ok proposal)) :
    ∀ rec ∈ proposal.ledgerDelta,
      rec.origin.actorID = actorID ∨ SharesKey lookup actorID rec.origin.actorID := by
  simp only [completionWith] at claims
  split at claims
  · cases claims
  · split at claims
    · cases claims
    · obtain ⟨decided, isDecided, same⟩ := map_eq_ok claims
      cases same
      exact completionOf_own isDecided

/-- A callback carries records of rows that share the key of the dispatched one. -/
theorem completionFor_own {lookup : String → KeyAnswer} {event : TerminalEvent} {proposal : Proposal}
    (claims : completionFor render claim actorID lookup event = .ok (.ok proposal)) :
    ∀ rec ∈ proposal.ledgerDelta,
      rec.origin.actorID = actorID ∨ SharesKey lookup actorID rec.origin.actorID := by
  simp only [completionFor] at claims
  split at claims
  · exact completionWith_own claims
  · exact completionWith_own claims
  · cases claims
    simp
  · cases claims

variable {dispatched : Dispatched ledger.actors} {report : Report ledger.actors} {proposal : Proposal}

theorem not_foreign_of_screened
    (reads : ∀ id actors, rows id = .ok actors → actors <+: ledger.actors)
    (screened : report.screened = true)
    (asked : report.proposal render (fun id => actorKey (rows id) id) dispatched = some proposal) :
    ∀ rec ∈ proposal.ledgerDelta, ¬ Foreign ledger dispatched.key rec.origin := by
  cases report with
  | answered hook result => cases screened
  | dialedIn party hook result =>
      simp only [Report.proposal] at asked
      split at asked
      · cases asked
      · rename_i sameKey
        split at asked
        · rename_i agrees
          cases asked
          rw [completeFromResult_ledgerDelta]
          intro rec member
          rw [← Classical.not_not.mp sameKey]
          exact not_foreign_of_registered party.registered (inboundMismatch_none agrees rec member)
        · cases asked
          simp
  | calledBack event =>
      simp only [Report.proposal] at asked
      split at asked
      · rename_i claimed claims
        cases asked
        intro rec member
        rcases completionFor_own claims rec member with same | shares
        · exact not_foreign_of_registered dispatched.registered same
        · exact not_foreign_of_sharesKey reads dispatched shares
      · cases asked

theorem foreign_congr {key : String} {records others : List Record}
    (same : records.map Record.origin = others.map Record.origin) :
    (∀ rec ∈ records, ¬ Foreign ledger key rec.origin) ↔
      ∀ rec ∈ others, ¬ Foreign ledger key rec.origin := by
  have mapped : (∀ origin ∈ records.map Record.origin, ¬ Foreign ledger key origin) ↔
      ∀ origin ∈ others.map Record.origin, ¬ Foreign ledger key origin := by
    rw [same]
  simpa only [List.forall_mem_map] using mapped

/-- A committed completion appends no record of another actor exactly when its path looks at whose the
records are, or there is none of another actor among them, or the engine rejects the completion. -/
theorem own_records_iff {engine : LedgerEngine} {db next : RunDb} {records : List Record}
    (reads : ∀ id actors, rows id = .ok actors → actors <+: ledger.actors)
    (asked : report.proposal render (fun id => actorKey (rows id) id) dispatched = some proposal)
    (committed : engine.completeAttempt db ledger proposal = .ok (next, .appended records)) :
    (∀ rec ∈ records, ¬ Foreign ledger dispatched.key rec.origin) ↔
      report.screened = true ∨ (∀ rec ∈ report.delta, ¬ Foreign ledger dispatched.key rec.origin) ∨
        engine.Rejects db proposal := by
  rcases LedgerEngine.records_of_completeAttempt committed with ⟨rejects, none⟩ | ⟨accepts, same⟩
  · simp [none, rejects]
  · rw [foreign_congr same]
    cases report with
    | answered hook result =>
        cases asked
        rw [completeFromResult_ledgerDelta]
        simp [Report.screened, Report.delta, accepts]
    | dialedIn party hook result =>
        exact iff_of_true (not_foreign_of_screened reads rfl asked) (Or.inl rfl)
    | calledBack event =>
        exact iff_of_true (not_foreign_of_screened reads rfl asked) (Or.inl rfl)

end

/-- A run at a node that drafts claims, claimed by a worker, and two registered actors. -/
def draftWorkflow : Workflow where
  entry := "draft"
  nodes := [{ id := "draft", kind := .agent, outcomes := ["drafted"] }, { id := "done", kind := .endNode }]
  edges := [{ source := "draft.drafted", fromNode := "draft", fromOutcome := "drafted", target := "done" }]

def draftEngine : LedgerEngine where
  env := Engine.Env.permissive
  wf := draftWorkflow
  store := Ledger.openStore
  contract _ := Ledger.claimContract
  place _ := ⟨"run_1", "noderun_1", "attempt_1"⟩
  minted _ := Ledger.firstStamp
  stamped _ := Ledger.secondStamp
  now := 0

def draftRun : Option RunDb :=
  Engine.replay Engine.Env.permissive draftWorkflow (fun _ _ => true) [.work (.claim 2 "worker" true 0 1)]

def twoActors : LedgerDb where
  actors := [⟨"actor_writer", "writer", "agent"⟩, ⟨"actor_editor", "editor", "agent"⟩]

def toWriter : Dispatched twoActors.actors where
  claim := ⟨2, "worker", 1, 1⟩
  key := "writer"
  actorID := "actor_writer"
  registered := Or.inr (by decide)

/-- The writer's answer: a claim in the name of a row. -/
def claimOf (actorID : String) : InvocationResult where
  outcome := "drafted"
  output := "null"
  ledgerDelta := some
    [{ id := "ledger_1", recordType := .claim, origin := { kind := .agent, actorID := actorID } }]

def claimProposal (actorID : String) : Proposal :=
  completeFromResult (fun _ => "null") toWriter.claim toWriter.actorID none (some (claimOf actorID))

/-- Whose records a completion has appended, by the actors' rows. -/
def appendedActors : Except CompletionError (RunDb × LedgerResult) → Option (List String)
  | .ok (_, .appended records) => some (records.map fun rec => rec.origin.actorID)
  | _ => none

theorem of_appendedActors {outcome : Except CompletionError (RunDb × LedgerResult)} {actors : List String}
    (appended : appendedActors outcome = some actors) :
    ∃ next records, outcome = .ok (next, .appended records) ∧
      (records.map fun rec => rec.origin.actorID) = actors := by
  cases outcome with
  | error error => cases appended
  | ok done =>
      obtain ⟨next, result⟩ := done
      cases result with
      | appended records => exact ⟨next, records, rfl, Option.some.inj appended⟩
      | requested _ => cases appended
      | reviewed _ _ _ => cases appended

theorem own_records_iff_writerClaim :
    ∃ db next records, draftRun = some db ∧
      draftEngine.completeAttempt db twoActors (claimProposal "actor_writer") =
        .ok (next, .appended records) ∧
      ∀ rec ∈ records, ¬ Foreign twoActors toWriter.key rec.origin := by
  have ran : (draftRun.bind fun db => appendedActors
      (draftEngine.completeAttempt db twoActors (claimProposal "actor_writer"))) = some ["actor_writer"] := by
    decide +kernel
  obtain ⟨db, created, appended⟩ := Option.bind_eq_some_iff.mp ran
  obtain ⟨next, records, committed, -⟩ := of_appendedActors appended
  refine ⟨db, next, records, created, committed, ?_⟩
  let report : Report twoActors.actors := .answered none (some (claimOf "actor_writer"))
  have reads : ∀ (id : String) (actors : List Ledger.Actor),
      (Except.ok twoActors.actors : Except String (List Ledger.Actor)) = .ok actors →
        actors <+: twoActors.actors := by
    intro id actors read
    cases read
    exact List.prefix_refl _
  have asked : report.proposal (fun _ => "null") (fun id => actorKey (.ok twoActors.actors) id) toWriter =
      some (claimProposal "actor_writer") := rfl
  rw [own_records_iff reads asked committed]
  refine Or.inr (Or.inl ?_)
  intro rec member
  cases List.mem_singleton.mp member
  exact not_foreign_of_registered toWriter.registered rfl

/-- The answer to a dispatch carries a claim in another actor's name, and it is appended. -/
theorem answer_claims_another_identity :
    ¬ ∀ (engine : LedgerEngine) (ledger : LedgerDb) (rows : String → Except String (List Ledger.Actor))
      (render : Diagnostic → Payload) (dispatched : Dispatched ledger.actors)
      (report : Report ledger.actors) (proposal : Proposal) (db next : RunDb) (records : List Record),
      (∀ id actors, rows id = .ok actors → actors <+: ledger.actors) →
        report.proposal render (fun id => actorKey (rows id) id) dispatched = some proposal →
          engine.completeAttempt db ledger proposal = .ok (next, .appended records) →
            ∀ rec ∈ records, ¬ Foreign ledger dispatched.key rec.origin := by
  intro always
  have ran : (draftRun.bind fun db => appendedActors
      (draftEngine.completeAttempt db twoActors (claimProposal "actor_editor"))) = some ["actor_editor"] := by
    decide +kernel
  obtain ⟨db, -, appended⟩ := Option.bind_eq_some_iff.mp ran
  obtain ⟨next, records, committed, actors⟩ := of_appendedActors appended
  have own := always draftEngine twoActors (fun _ => .error "closed") (fun _ => "null") toWriter
    (.answered none (some (claimOf "actor_editor"))) _ db next records (by simp) rfl committed
  have listed : "actor_editor" ∈ records.map fun rec => rec.origin.actorID := by simp [actors]
  obtain ⟨rec, member, isEditor⟩ := List.mem_map.mp listed
  refine own rec member ⟨"editor", ?_, by decide⟩
  rw [isEditor]
  decide

end CultureNodes.Actors
