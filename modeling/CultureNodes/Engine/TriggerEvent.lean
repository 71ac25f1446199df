import CultureNodes.Engine.System

/-!
Runs that events create. An event is offered to a published version, which creates a run for each of
its triggers that matches, attaches the event to the subject's active run, or defers it behind the
ceiling; a run with a subject that ends drains the oldest deferred entry into a run of its own.
-/

namespace CultureNodes.Engine

open Compiler (quoted)

/-- A handler of the definition; without a condition it matches every event of its name. -/
structure Trigger where
  onEvent : String
  condition : String := ""
deriving DecidableEq, Repr

structure AffinityRule where
  name : String := ""
  node : String
  actor : String
  condition : String := ""
deriving DecidableEq, Repr

structure ResolvedAffinity where
  actor : String
  rule : String
deriving DecidableEq, Repr

/-- A version as it is loaded; loading refuses one whose entry node is not declared. A ceiling of zero
is not configured. -/
structure Definition where
  workflow : Workflow
  triggers : List Trigger := []
  affinity : List AffinityRule := []
  maxConcurrentSubjectRuns : Nat := 0
  entryDeclared : (workflow.node? workflow.entry).isSome = true

/-- A published version: its workflow key, which is the name in its document, and its content. -/
structure TriggerWorkflow where
  key : String
  digest : String
  ir : Payload
deriving DecidableEq, Repr

/-- An event as a trigger sees it; the empty subject is none. -/
structure TriggerFact extends PickupEvent where
  subject : String := ""
deriving DecidableEq, Repr

/-- A row of `deferred_triggers`. -/
structure DeferredTrigger where
  id : Nat
  version : TriggerWorkflow
  fact : TriggerFact
  attempts : Nat := 1
  createdAt : Nat
deriving DecidableEq, Repr

/-- A run beside the others of its namespace. -/
structure HostedRun where
  id : Nat
  key : String
  digest : String
  subject : String := ""
  triggerEvent : String := ""
  affinity : Option (List (String × ResolvedAffinity)) := none
  rows : RunDb
deriving DecidableEq, Repr

def HostedRun.active (run : HostedRun) : Bool := !run.rows.state.terminal

/-- What a matching trigger came to. -/
inductive TriggeredRun where
  | created (digest : String) (run : Nat)
  | attached (digest : String) (run : Nat)
  | deferred (digest : String) (entry : Nat)
deriving DecidableEq, Repr

def TriggeredRun.digest : TriggeredRun → String
  | .created digest _ | .attached digest _ | .deferred digest _ => digest

/-- The rows of a namespace that triggers read and write. `attached` are the events appended to runs
already in flight. -/
structure Hosted where
  runs : List HostedRun := []
  deferred : List DeferredTrigger := []
  attached : List (Nat × String) := []
  nextID : Nat := 0
deriving DecidableEq, Repr

/-- What is asked of other packages: loading a version, evaluating the conditions of a version on an
event, and its input contract. -/
structure TriggerEnv where
  load : TriggerWorkflow → Except String Definition
  evaluateTrigger : Trigger → PickupEvent → Except String Bool
  evaluateAffinity : AffinityRule → PickupEvent → Except String Bool
  validateInput : Definition → Payload → Except String Unit

/-- The rule's name in a diagnostic, or its condition where it has none. -/
def ruleLabel (rule : AffinityRule) : String :=
  if rule.name ≠ "" then rule.name else quoted rule.condition

section

variable (tenv : TriggerEnv)

/-- The first rule that applies decides a node; a condition that has no value is an error, unless the
node was decided before. -/
def resolveRules (event : PickupEvent) (decided : List (String × ResolvedAffinity)) :
    List AffinityRule → Except String (List (String × ResolvedAffinity))
  | [] => .ok decided
  | rule :: rest =>
      if decided.any (·.1 = rule.node) then resolveRules event decided rest
      else if rule.condition = "" then
        resolveRules event (decided ++ [(rule.node, ⟨rule.actor, rule.name⟩)]) rest
      else
        match tenv.evaluateAffinity rule event with
        | .error reason =>
            .error ("affinity rule " ++ ruleLabel rule ++ " for node " ++ quoted rule.node ++ ": " ++
              reason)
        | .ok true => resolveRules event (decided ++ [(rule.node, ⟨rule.actor, rule.name⟩)]) rest
        | .ok false => resolveRules event decided rest

/-- `none` for a definition that declares no affinity. -/
def resolveAffinity (definition : Definition) (event : PickupEvent) :
    Except String (Option (List (String × ResolvedAffinity))) :=
  if definition.affinity = [] then .ok none
  else (resolveRules tenv event [] definition.affinity).map some

variable (now : Nat)

/-- A contract that is not met, in the words of its error. -/
def contractError (what detail : String) : EngineError :=
  .contract ("engine: " ++ what ++ " does not satisfy its contract: " ++ detail)

/-- Create the run of a match. Its input was checked when the event matched. -/
def createTriggeredRun (hosted : Hosted) (definition : Definition) (version : TriggerWorkflow)
    (fact : TriggerFact) : Except EngineError (Hosted × Nat) :=
  match resolveAffinity tenv definition fact.toPickupEvent with
  | .error reason => .error (contractError "triggered run actor affinity" reason)
  | .ok affinity =>
      if version.key = "" then
        .error (.malformed "postgres: engine: EnsureWorkflowVersion requires a workflow key")
      else if version.digest = "" then
        .error (.malformed "postgres: engine: EnsureWorkflowVersion requires a content digest")
      else
        match createRun Env.permissive definition.workflow fact.payload now with
        | .error error => .error error
        | .ok rows =>
            .ok ({ hosted with
              runs := hosted.runs ++
                [{ id := hosted.nextID, key := version.key, digest := version.digest,
                   subject := fact.subject, triggerEvent := fact.id, affinity := affinity,
                   rows := rows }]
              nextID := hosted.nextID + 1 }, hosted.nextID)

end

namespace Hosted

variable (hosted : Hosted)

def activeRunBySubject (key subject : String) : Option HostedRun :=
  hosted.runs.find? fun run => run.key = key && run.subject = subject && run.active

def activeSubjectRunCount (key : String) : Nat :=
  hosted.runs.countP fun run => run.key = key && run.subject ≠ "" && run.active

def findDeferredTrigger (key subject : String) : Option DeferredTrigger :=
  hosted.deferred.find? fun row => row.version.key = key && row.fact.subject = subject

/-- A newer event of a queued subject replaces the older one, its version included. -/
def touchDeferredTrigger (id : Nat) (version : TriggerWorkflow) (fact : TriggerFact) : Hosted :=
  { hosted with
    deferred := Table.update hosted.deferred (·.id = id) fun row =>
      { row with version := version, fact := fact, attempts := row.attempts + 1 } }

def insertDeferredTrigger (version : TriggerWorkflow) (fact : TriggerFact) (now : Nat) : Hosted :=
  { hosted with
    deferred := hosted.deferred ++
      [{ id := hosted.nextID, version := version, fact := fact, createdAt := now }]
    nextID := hosted.nextID + 1 }

def appendEvent (run : Nat) (event : String) : Hosted :=
  { hosted with attached := hosted.attached ++ [(run, event)] }

end Hosted

section

variable (tenv : TriggerEnv) (now : Nat)

/-- Whether the trigger matches the event; an error aborts the delivery. -/
def triggerMatches (definition : Definition) (trigger : Trigger) (event : PickupEvent) :
    Except EngineError Bool :=
  if trigger.onEvent ≠ event.name then .ok false
  else
    let holds : Except EngineError Bool :=
      if trigger.condition = "" then .ok true
      else
        match tenv.evaluateTrigger trigger event with
        | .error reason =>
            .error (.malformed ("trigger condition " ++ quoted trigger.condition ++ ": " ++ reason))
        | .ok holds => .ok holds
    match holds with
    | .error error => .error error
    | .ok false => .ok false
    | .ok true =>
        match tenv.validateInput definition event.payload with
        | .error reason => .error (contractError "triggered run input" reason)
        | .ok () => .ok true

/-- A match creates a run, unless its subject has an active one or has to wait. -/
def placeMatch (hosted : Hosted) (definition : Definition) (version : TriggerWorkflow)
    (fact : TriggerFact) : Except EngineError (Hosted × TriggeredRun) :=
  let create : Except EngineError (Hosted × TriggeredRun) :=
    (createTriggeredRun tenv now hosted definition version fact).map fun (next, run) =>
      (next, .created version.digest run)
  if fact.subject = "" then create
  else
    match hosted.activeRunBySubject version.key fact.subject with
    | some run => .ok (hosted.appendEvent run.id fact.id, .attached version.digest run.id)
    | none =>
        if definition.maxConcurrentSubjectRuns = 0 then create
        else
          match hosted.findDeferredTrigger version.key fact.subject with
          | some row =>
              .ok (hosted.touchDeferredTrigger row.id version fact, .deferred version.digest row.id)
          | none =>
              if definition.maxConcurrentSubjectRuns ≤ hosted.activeSubjectRunCount version.key then
                .ok (hosted.insertDeferredTrigger version fact now,
                  .deferred version.digest hosted.nextID)
              else create

/-- The trigger loop of one definition. -/
def runTriggers (definition : Definition) (version : TriggerWorkflow) (fact : TriggerFact)
    (hosted : Hosted) : List Trigger → Except EngineError (Hosted × List TriggeredRun)
  | [] => .ok (hosted, [])
  | trigger :: rest =>
      match triggerMatches tenv definition trigger fact.toPickupEvent with
      | .error error => .error error
      | .ok false => runTriggers definition version fact hosted rest
      | .ok true =>
          match placeMatch tenv now hosted definition version fact with
          | .error error => .error error
          | .ok (next, triggered) =>
              (runTriggers definition version fact next rest).map fun (last, others) =>
                (last, triggered :: others)

/-- `TriggerEvent`: the version's handlers on one event. -/
def triggerEvent (hosted : Hosted) (version : TriggerWorkflow) (fact : TriggerFact) :
    Except EngineError (Hosted × List TriggeredRun) :=
  match tenv.load version with
  | .error reason => .error (.workflow reason)
  | .ok definition => runTriggers tenv now definition version fact hosted definition.triggers

end

/-- The query for the oldest entry of a workflow. It orders by the creation time alone, so among
entries of one creation time it may return any. -/
structure OldestQuery where
  row : List DeferredTrigger → Option DeferredTrigger
  member : ∀ rows entry, row rows = some entry → entry ∈ rows
  oldest : ∀ rows entry, row rows = some entry → ∀ other ∈ rows, entry.createdAt ≤ other.createdAt
  found : ∀ rows, row rows = none → rows = []

section

variable (tenv : TriggerEnv) (oldest : OldestQuery) (now : Nat)

/-- `DrainSubjectTriggerQueue`, in the transaction that ended the run. -/
def drainSubjectTriggerQueue (definition : Definition) (key subject : String) (hosted : Hosted) :
    Except EngineError Hosted :=
  if subject = "" ∨ definition.maxConcurrentSubjectRuns = 0 then .ok hosted
  else
    match oldest.row (hosted.deferred.filter (·.version.key = key)) with
    | none => .ok hosted
    | some entry =>
        let popped := { hosted with deferred := hosted.deferred.filter (·.id ≠ entry.id) }
        match tenv.load entry.version with
        | .error reason =>
            .error (.workflow ("engine: drain subject trigger queue: load workflow version " ++
              entry.version.digest ++ ": " ++ reason))
        | .ok pinned =>
            (createTriggeredRun tenv now popped pinned entry.version entry.fact).map Prod.fst

end

end CultureNodes.Engine
