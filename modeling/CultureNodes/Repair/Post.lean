import CultureNodes.Repair.Route
import Mathlib.Data.List.Sort

/-!
The suite verdicts and gate reports posted against a run, and the records they leave in its ledger. The
history a routing is decided on is read once for a request, before any record of it is appended.
-/

namespace CultureNodes.Repair

inductive RecordType where
  | announcement
  | claim
  | assumption
  | question
  | task
  | decision
  | successSignal
  | evidence
  | result
  | review
  | grade
  | dispatchPreflight
  | dispatchAcknowledgement
  | handTurn
  | handTurnDefinition
deriving DecidableEq, Repr

inductive Authority where
  | proposed
  | confirmed
  | observed
  | derived
  | rejected
deriving DecidableEq, Repr

inductive OriginKind where
  | agent
  | human
  | runner
  | service
  | engine
  | validator
deriving DecidableEq, Repr

/-- The payload of a record, as far as its readers here tell payloads apart: a routing, a fetched
handover, or any other. -/
inductive RecordData where
  | routing (routing : Routing) (suite : String) (exitCode : Int) (commitSHA : String)
  | handover (ref commitSHA : String) (changedPaths : List String)
  | other
deriving DecidableEq, Repr

/-- A record of a run's ledger. One that is composed has no id and no time until it is appended. -/
structure LedgerRecord where
  id : Nat := 0
  recordType : RecordType
  originKind : OriginKind
  actorID : String
  authority : Authority
  subject : Option Nat := none
  supersedes : Option Nat := none
  createdAt : Int := 0
  data : RecordData := .other
deriving DecidableEq, Repr

namespace LedgerRecord

/-- Where a record routes a gate, for a record of the router. -/
def routedTo (record : LedgerRecord) : Option Destination :=
  match record.recordType, record.authority, record.data with
  | .decision, .derived, .routing routing _ _ _ => some routing.destination
  | _, _, _ => none

def attemptNumber (record : LedgerRecord) : Nat :=
  match record.data with
  | .routing routing _ _ _ => routing.attemptNumber
  | _ => 0

/-- The record is a round of repair. -/
def repairs (record : LedgerRecord) : Bool := record.routedTo = some .repair

end LedgerRecord

abbrev Ledger := List LedgerRecord

/-- What the store answers an append: the id and the time of the record, or why it takes none. -/
abbrev AppendAnswer := Except String (Nat × Int)

def append (answer : AppendAnswer) (record : LedgerRecord) : Except String LedgerRecord :=
  answer.map fun (id, createdAt) => { record with id := id, createdAt := createdAt }

structure MeasuredHandover where
  recordID : Option Nat := none
  ref : String := ""
  commitSHA : String := ""
  changedPaths : List String := []
deriving DecidableEq, Repr

namespace Ledger

variable (records : Ledger)

def superseded (record : LedgerRecord) : Bool := records.any (·.supersedes = some record.id)

/-- The records that no other supersedes, in the order of their ids. -/
def live : Ledger :=
  (records.filter fun record => !superseded records record).insertionSort fun one other => one.id ≤ other.id

def priorAttempts : Nat := (live records).countP (·.repairs)

/-- When the gate of the run first rejected; the zero time where it never has. -/
def firstRejectionAt : Int :=
  (live records).foldl (fun first record =>
    if record.routedTo = some .repair ∨ record.routedTo = some .human then
      if record.createdAt = 0 then first
      else if first = 0 ∨ record.createdAt < first then record.createdAt
      else first
    else first) 0

/-- The handover fetched last. -/
def measured : MeasuredHandover :=
  (live records).foldl (fun found record =>
    match record.recordType, record.authority, record.data with
    | .evidence, .observed, .handover ref commitSHA changedPaths =>
        if commitSHA = "" then found else ⟨some record.id, ref, commitSHA, changedPaths⟩
    | _, _, _ => found) {}

/-- The actor whose work the gate judged: the last agent that proposed a record other than a review. -/
def lastAgentActorID : String :=
  (live records).foldl (fun actorID record =>
    if record.originKind = .agent ∧ record.authority = .proposed ∧ record.recordType ≠ .review ∧
      record.actorID ≠ "" then record.actorID
    else actorID) ""

end Ledger

structure Actor where
  id : String
  actorKey : String
  surface : Option HostBlock := none
deriving DecidableEq, Repr

/-- What a routing finds outside the ledger: the registry, the clock, and the store's answer. -/
structure RouteEnv where
  actors : String → Option Actor
  now : Int
  clock : Int
  answer : AppendAnswer

structure SuiteVerdictRequest where
  suite : String
  command : List String := []
  exitCode : Option Int
  commitSHA : String
  validatorActorID : String
  nodeRunRef : String := ""
  attemptRef : String := ""
  requiresGrants : List String := []
  implicatedPaths : List String := []
  repairActorID : String := ""
deriving DecidableEq, Repr

/-- The run the requests are about, and the identity its routings are recorded under. -/
structure Server where
  runID : String
  repairRouterActor : String := ""
deriving DecidableEq, Repr

def Server.repairRouterActorID (server : Server) : String :=
  if server.repairRouterActor ≠ "" then server.repairRouterActor else "gate_repair_router"

/-- Compose the record of a routing, or refuse. -/
def Routing.record (routing : Routing) (input : RouteInput) : Except String LedgerRecord :=
  if trimSpace input.runID.toList = [] then
    .error "repair: a routing must name the run whose gate it routed"
  else if trimSpace input.routerActorID.toList = [] then
    .error ("repair: a derived record needs an identified deterministic producer (PRD §10.4); " ++
      "an anonymous router attests to nothing")
  else
    .ok { recordType := .decision
          originKind := .validator
          actorID := input.routerActorID
          authority := .derived
          subject := some input.gate.verdictRecordID
          data := .routing
            { routing with guardedPaths := routing.guardedPaths.insertionSort fun one other => one ≤ other }
            input.gate.suite input.gate.exitCode input.gate.commitSHA }

/-- Whose workspace the failure is in: the one named, or that of the run's last agent. -/
def resolveRepairLane (actors : String → Option Actor) (override : String) (records : Ledger) : Lane :=
  let actorID := if override = "" then Ledger.lastAgentActorID records else override
  if actorID = "" then {}
  else
    match actors actorID with
    | none => { actorID := actorID }
    | some actor => laneFromCapabilities actor.id actor.actorKey actor.surface

section

variable (server : Server) (env : RouteEnv) (verdictID : Nat) (request : SuiteVerdictRequest)
  (records : Ledger) (measured : MeasuredHandover)

/-- What a rejecting gate is routed on. -/
def routeInput (exitCode : Int) : RouteInput where
  runID := server.runID
  nodeRunID := request.nodeRunRef
  attemptID := request.attemptRef
  gate :=
    { suite := request.suite
      command := request.command
      exitCode := exitCode
      commitSHA := request.commitSHA
      verdictRecordID := verdictID
      requiresGrants := request.requiresGrants }
  lane := resolveRepairLane env.actors request.repairActorID records
  history := ⟨Ledger.priorAttempts records, Ledger.firstRejectionAt records⟩
  implicatedPaths := measured.changedPaths ++ request.implicatedPaths
  routerActorID := server.repairRouterActorID
  now := env.now

/-- The record of where a rejecting gate goes, and why there is none where it could not be written. -/
def routeGateFailure : Option LedgerRecord × String :=
  match request.exitCode with
  | none => (none, "")
  | some exitCode =>
      if exitCode = 0 then (none, "")
      else
        let input := routeInput server env verdictID request records measured exitCode
        match (input.decide env.clock).record input with
        | .error reason => (none, reason)
        | .ok record =>
            match append env.answer record with
            | .error reason =>
                (none, "the gate failure was not recorded as routed: " ++ reason ++
                  ". The router's producer identity \"" ++ server.repairRouterActorID ++
                  "\" must be a registered actor (ledger_records.origin_actor_id references " ++
                  "actors(id)); register it with kind `validator` and no endpoint, or set the " ++
                  "server's RepairRouterActorID to one that is")
            | .ok appended => (some appended, "")

end

structure GateRepairMetadata where
  requiresGrants : List String := []
  implicatedPaths : List String := []
  repairActorID : String := ""
deriving DecidableEq, Repr

structure GateNotApplicable where
  reason : String
  uncoveredPaths : List String := []
deriving DecidableEq, Repr

structure GateReportEntry where
  gate : String
  suite : String := ""
  command : List String := []
  exitCode : Option Int := none
  notApplicable : Option GateNotApplicable := none
  repair : Option GateRepairMetadata := none
deriving DecidableEq, Repr

structure GateReportRequest where
  commitSHA : String
  packageCommitSHA : String := ""
  validatorActorID : String
  nodeRunRef : String := ""
  attemptRef : String := ""
  gates : List GateReportEntry
deriving DecidableEq, Repr

/-- What a posted request finds outside the ledger: whether it is let in, whether its records can be
composed, the agent it is posted by, and the store's answers. -/
structure PostEnv where
  admitted : Bool := true
  composes : Bool := true
  agent : Option String := none
  answers : Nat → AppendAnswer
  routes : Nat → RouteEnv

/-- The verdict of a suite, or of a gate; posted by an agent it is the agent's proposal. -/
def verdictRecord (env : PostEnv) (validatorActorID : String) (measured : MeasuredHandover) :
    LedgerRecord :=
  match env.agent with
  | none =>
      { recordType := .review, originKind := .validator, actorID := validatorActorID,
        authority := .derived, subject := measured.recordID }
  | some actorID =>
      { recordType := .review, originKind := .agent, actorID := actorID, authority := .proposed,
        subject := measured.recordID }

section

variable (server : Server) (env : PostEnv) (records : Ledger)

/-- The records a posted suite verdict leaves, and what it says of a routing it could not record. A
request that is refused leaves none. -/
def handleCreateSuiteVerdict (request : SuiteVerdictRequest) : Ledger × List String :=
  let measured := Ledger.measured records
  if !env.admitted || request.exitCode.isNone then ([], [])
  else if measured.commitSHA ≠ "" ∧ measured.commitSHA ≠ request.commitSHA then ([], [])
  else if !env.composes then ([], [])
  else
    match append (env.answers 0) (verdictRecord env request.validatorActorID measured) with
    | .error _ => ([], [])
    | .ok verdict =>
        let routed := routeGateFailure server (env.routes 0) verdict.id request records measured
        (verdict :: routed.1.toList, if routed.2 = "" then [] else [routed.2])

/-- Append records one after another, up to the first that the store does not take. -/
def appendAll (answers : Nat → AppendAnswer) : Nat → Ledger → Ledger × Bool
  | _, [] => ([], true)
  | index, record :: rest =>
      match append (answers index) record with
      | .error _ => ([], false)
      | .ok appended =>
          let (others, complete) := appendAll answers (index + 1) rest
          (appended :: others, complete)

def gateSuiteName (gate : GateReportEntry) : String :=
  if gate.suite ≠ "" then gate.suite else gate.gate

/-- A gate states the exit code it came to, or why it came to none. -/
def GateReportEntry.stated (gate : GateReportEntry) : Bool :=
  gate.exitCode.isSome != gate.notApplicable.isSome

def GateReportEntry.failed (gate : GateReportEntry) : Bool :=
  match gate.exitCode with
  | some exitCode => exitCode ≠ 0
  | none => false

/-- The commit the report is about, as the run handed it over. -/
def GateReportRequest.measuredSubject (request : GateReportRequest) : String :=
  if request.packageCommitSHA ≠ "" then request.packageCommitSHA else request.commitSHA

def GateReportRequest.verdict (request : GateReportRequest) (gate : GateReportEntry) :
    SuiteVerdictRequest where
  suite := gateSuiteName gate
  command := gate.command
  exitCode := gate.exitCode
  commitSHA := request.commitSHA
  validatorActorID := request.validatorActorID
  nodeRunRef := request.nodeRunRef
  attemptRef := request.attemptRef
  requiresGrants := (gate.repair.map (·.requiresGrants)).getD []
  implicatedPaths := (gate.repair.map (·.implicatedPaths)).getD []
  repairActorID := (gate.repair.map (·.repairActorID)).getD ""

def routeGateReportFailures (request : GateReportRequest) (measured : MeasuredHandover) :
    Nat → List GateReportEntry → Ledger → List (Option LedgerRecord × String)
  | index, gate :: gates, verdict :: verdicts =>
      let others := routeGateReportFailures request measured (index + 1) gates verdicts
      if gate.failed then
        routeGateFailure server (env.routes index) verdict.id (request.verdict gate) records measured ::
          others
      else others
  | _, _, _ => []

def recordGateReport (request : GateReportRequest) (measured : MeasuredHandover) :
    Ledger × List String :=
  let record := verdictRecord env request.validatorActorID measured
  match appendAll env.answers 0 (request.gates.map fun _ => record) with
  | (verdicts, false) => (verdicts, [])
  | (verdicts, true) =>
      match append (env.answers request.gates.length) record with
      | .error _ => (verdicts, [])
      | .ok aggregate =>
          let routed := routeGateReportFailures server env records request measured 0 request.gates
            verdicts
          (verdicts ++ aggregate :: routed.filterMap (·.1), (routed.map (·.2)).filter (· ≠ ""))

/-- The records a posted gate report leaves, and what it says of the routings it could not record. -/
def handleCreateGateReport (request : GateReportRequest) : Ledger × List String :=
  let measured := Ledger.measured records
  if !env.admitted || request.gates.isEmpty then ([], [])
  else if measured.commitSHA ≠ "" ∧ measured.commitSHA ≠ request.measuredSubject then ([], [])
  else if !(request.gates.all (·.stated)) || !env.composes then ([], [])
  else recordGateReport server env records request measured

end

/-- What reaches the ledger of a run. -/
inductive Post where
  | suiteVerdict (env : PostEnv) (request : SuiteVerdictRequest)
  | gateReport (env : PostEnv) (request : GateReportRequest)
  | elsewhere (record : LedgerRecord)

def Post.leaves (server : Server) (records : Ledger) : Post → Ledger
  | .suiteVerdict env request => (handleCreateSuiteVerdict server env records request).1
  | .gateReport env request => (handleCreateGateReport server env records request).1
  | .elsewhere record => if record.routedTo = none then [record] else []

/-- The ledger of a run after posts made one after another. -/
def ledgerAfter (server : Server) (posts : List Post) : Ledger :=
  posts.foldl (fun records post => records ++ post.leaves server records) []

end CultureNodes.Repair
