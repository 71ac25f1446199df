import CultureNodes.Library.Confined
import CultureNodes.Engine.QueueDrain

/-!
The delivery of a signal event, one transaction: the fact is appended, the subscriptions parked on it
fire, the event routes of running runs pick it up, and the newest version of every published workflow
is offered it. Under the locks of the runs it touches the matching reads are stable, so what a delivery
matches is read once.
-/

namespace CultureNodes.Engine

open Compiler (quoted)

/-- A row of `workflow_versions`. -/
structure WorkflowVersion extends TriggerWorkflow where
  version : Nat
deriving DecidableEq, Repr

/-- The table of published versions with its two unique constraints. -/
structure Published where
  rows : List WorkflowVersion := []
  digests : (rows.map (·.digest)).Nodup
  versions : (rows.map fun row => (row.key, row.version)).Nodup

/-- The query for the newest version of each workflow, in the order of the database's collation. -/
structure NewestQuery where
  rows : Published → List WorkflowVersion
  distinct : ∀ published, (rows published).Nodup
  newest : ∀ published row, row ∈ rows published ↔ row ∈ published.rows ∧
    ∀ other ∈ published.rows, other.key = row.key → other.version ≤ row.version

/-- A row of `signal_events`; an event without a run is for the whole namespace. -/
structure SignalEvent where
  id : String
  run : Option Nat := none
  name : String
  payload : Payload
  emitter : String
  sourceKey : String := ""
deriving DecidableEq, Repr

structure Watermark where
  sourceKey : String
  watermark : Payload
  event : String
deriving DecidableEq, Repr

/-- The ids a Jira history has come to; an id that is not given is none. -/
structure JiraHistoryWatermark where
  changelogID : Option Int := none
  commentID : Option Int := none
deriving DecidableEq, Repr

structure JiraCutover where
  issueSourceKey : String
  watermark : Payload
  adopted : Bool
deriving DecidableEq, Repr

/-- What a pull request event records for its ticket. -/
inductive TicketRow where
  | inReview (issueKey event : String)
  | frozen (issueKey event : String)
  | done (run : Nat) (event : String)
deriving DecidableEq, Repr

def TicketRow.freezes (issueKey : String) : TicketRow → Bool
  | .frozen ticket _ => ticket = issueKey
  | _ => false

/-- The outbox row of a delivery. -/
structure SignalDelivered where
  event : String
  subject : String
  resumed : Nat
  triggered : Nat
deriving DecidableEq, Repr

/-- The tables of a namespace that a delivery reads and writes beside `workflow_versions`. -/
structure SignalDb where
  hosted : Hosted := {}
  events : List SignalEvent := []
  watermarks : List Watermark := []
  cutovers : List JiraCutover := []
  tickets : List TicketRow := []
  outbox : List SignalDelivered := []
deriving DecidableEq, Repr

/-- A watermark that is empty is not given; `pickup` and `trigger` say whether the deliverer has an
engine to offer the event to. -/
structure DeliverSignalEventInput where
  name : String
  emitter : String
  payload : Payload := ""
  run : Option Nat := none
  sourceKey : String := ""
  watermark : Payload := ""
  subject : String := ""
  pickup : Bool := true
  trigger : Bool := true
deriving DecidableEq, Repr

/-- What one committed delivery did: the subscriptions it fired and the routes it offered the event to
are named by their run and their own id. -/
structure SignalDelivery where
  event : Option SignalEvent := none
  fired : List (Nat × Nat) := []
  pickups : List (Nat × Nat) := []
  triggered : List TriggeredRun := []
  duplicate : Bool := false
  suppressed : Bool := false
deriving DecidableEq, Repr

/-- What a delivery asks of other packages: the triggers' and the engine's evaluations, the version a
run has pinned, and what a payload carries. -/
structure SignalEnv extends TriggerEnv where
  engine : Env
  pinned : HostedRun → Except String Definition
  issueKey : Payload → Except String String
  worksOn : Payload → HostedRun → Bool
  parseJiraHistoryWatermark : Payload → Except String JiraHistoryWatermark

def jsonOrEmptyObject (payload : Payload) : Payload := if payload = "" then "{}" else payload

namespace DeliverSignalEventInput

variable (input : DeliverSignalEventInput)

def validate : Except EngineError Unit :=
  if input.name = "" then .error (.malformed "postgres: DeliverSignalEvent: name is required")
  else if input.emitter = "" then
    .error (.malformed "postgres: DeliverSignalEvent: emitter is required")
  else if (input.sourceKey = "") ≠ (input.watermark = "") then
    .error (.malformed
      "postgres: DeliverSignalEvent: sourceKey and watermark must be supplied together")
  else .ok ()

/-- A delivery for one run looks at that run alone. -/
def inScope (run : HostedRun) : Bool := input.run.all (· = run.id)

def event (id : String) : SignalEvent where
  id := id
  run := input.run
  name := input.name
  payload := jsonOrEmptyObject input.payload
  emitter := input.emitter
  sourceKey := input.sourceKey

end DeliverSignalEventInput

/-- The fact as routes and triggers see it. -/
def SignalEvent.fact (event : SignalEvent) (subject : String) : TriggerFact where
  id := event.id
  name := event.name
  emitter := event.emitter
  payload := event.payload
  subject := subject

def jiraHistoryIssueSourceKey (key : String) : Option String :=
  match (key.toList.splitOn ':').map String.ofList with
  | [vendor, site, issue, part, kind, id] =>
      if vendor = "jira" ∧ site ≠ "" ∧ issue ≠ "" ∧ part = "history" ∧
          (kind = "changelog" ∨ kind = "comment") ∧ id ≠ "" then
        some (vendor ++ ":" ++ site ++ ":" ++ issue)
      else none
  | _ => none

def decimalAtOrBefore : Option Int → Option Int → Bool
  | none, _ => true
  | some _, none => false
  | some value, some head => value ≤ head

namespace SignalDb

variable (senv : SignalEnv) (db : SignalDb)

/-- Whether a Jira history fact lies before the point its issue was adopted at. -/
def suppressPreCutoverJiraHistory (issueSourceKey : String) (watermark : Payload) :
    Except EngineError Bool :=
  match senv.parseJiraHistoryWatermark watermark with
  | .error reason =>
      .error (.malformed ("postgres: DeliverSignalEvent: jira history watermark: " ++ reason))
  | .ok incoming =>
      match db.cutovers.find? (·.issueSourceKey = issueSourceKey) with
      | none => .ok false
      | some cutover =>
          if !cutover.adopted then
            .error (.malformed ("postgres: DeliverSignalEvent: Jira history cutover is pending; " ++
              "run nodes cutover-adopt before resuming sweeps"))
          else
            match senv.parseJiraHistoryWatermark cutover.watermark with
            | .error reason =>
                .error (.malformed ("postgres: DeliverSignalEvent: stored jira cutover: " ++ reason))
            | .ok adopted =>
                .ok (decimalAtOrBefore incoming.changelogID adopted.changelogID &&
                  decimalAtOrBefore incoming.commentID adopted.commentID)

def suppressed (input : DeliverSignalEventInput) : Except EngineError Bool :=
  match jiraHistoryIssueSourceKey input.sourceKey with
  | none => .ok false
  | some issue => db.suppressPreCutoverJiraHistory senv issue input.watermark

/-- An exact redelivery under its source's watermark returns the event appended the first time. Watermarks are in
the text that the database writes for a JSON value, of which each value has one. -/
def duplicateOf (input : DeliverSignalEventInput) : Except EngineError (Option SignalEvent) :=
  if input.sourceKey = "" then .ok none
  else
    match db.watermarks.find? (fun row => row.sourceKey = input.sourceKey &&
      row.watermark = jsonOrEmptyObject input.watermark) with
    | none => .ok none
    | some row =>
        match db.events.find? (·.id = row.event) with
        | none => .error (.malformed "postgres: DeliverSignalEvent: load duplicate event: no rows")
        | some event => .ok (some event)

/-- What a pull request event requires of its payload, and the rows it adds for the ticket. -/
def recordTicket (event : SignalEvent) : Except EngineError SignalDb :=
  if event.name ≠ "pr.opened" ∧ event.name ≠ "pr.merged" then .ok db
  else
    match senv.issueKey event.payload with
    | .error reason =>
        .error (.malformed ("postgres: DeliverSignalEvent: decode " ++ event.name ++ ": " ++ reason))
    | .ok issueKey =>
        if issueKey = "" then
          .error (.malformed ("postgres: DeliverSignalEvent: " ++ event.name ++
            " issue_key is required"))
        else if event.name = "pr.opened" then
          .ok { db with tickets := db.tickets ++ [.inReview issueKey event.id] }
        else
          let frozen := db.tickets.filter (!·.freezes issueKey) ++ [.frozen issueKey event.id]
          -- The newest run that worked on the ticket is asked whether it is done.
          match db.hosted.runs.reverse.find? (senv.worksOn event.payload) with
          | none => .ok { db with tickets := frozen }
          | some run => .ok { db with tickets := frozen ++ [.done run.id event.id] }

/-- One watermark is kept for each source. -/
def advanceWatermark (input : DeliverSignalEventInput) (event : String) : SignalDb :=
  if input.sourceKey = "" then db
  else
    { db with
      watermarks := db.watermarks.filter (·.sourceKey ≠ input.sourceKey) ++
        [⟨input.sourceKey, input.watermark, event⟩] }

end SignalDb

namespace Hosted

variable (hosted : Hosted)

def matchSubscriptions (input : DeliverSignalEventInput) : List (Nat × Nat) :=
  (hosted.runs.filter input.inScope).flatMap fun run =>
    (run.rows.work.subscriptions.filter fun sub =>
      sub.eventName = input.name && sub.status = .pending).map fun sub => (run.id, sub.id)

def matchRoutes (input : DeliverSignalEventInput) : List (Nat × EventRoute) :=
  if !input.pickup then []
  else
    (hosted.runs.filter input.inScope).flatMap fun run =>
      (run.rows.eventRoutes.filter fun route =>
        route.eventName = input.name && route.active).map fun route => (run.id, route)

/-- Retire one subscription and wake its parked work. -/
def fireSubscription (now : Nat) (matched : Nat × Nat) : Hosted :=
  { hosted with
    runs := Table.update hosted.runs (·.id = matched.1) fun run =>
      { run with
        rows := { run.rows with
          work := (run.rows.work.fireSubscription matched.2 now).getD run.rows.work } } }

end Hosted

section

variable (senv : SignalEnv) (now : Nat)

/-- One route of a run is offered the event. A run that has ended refuses it, also when its version
does not load. -/
def pickUpHosted (hosted : Hosted) (event : PickupEvent) (matched : Nat × EventRoute) :
    Except EngineError Hosted :=
  match hosted.runs.find? (·.id = matched.1) with
  | none => .error (.notFound "run" matched.1)
  | some run =>
      if run.rows.state.terminal then .ok hosted
      else
        match senv.pinned run with
        | .error reason => .error (.workflow reason)
        | .ok definition =>
            (pickUpEvent senv.engine definition.workflow now run.rows matched.2 event).map
              (hosted.setRows run.id)

def runEventRoutePickup (event : PickupEvent) (hosted : Hosted) :
    List (Nat × EventRoute) → Except EngineError Hosted
  | [] => .ok hosted
  | matched :: rest =>
      match pickUpHosted senv now hosted event matched with
      | .error error => .error error
      | .ok next => runEventRoutePickup event next rest

/-- How far a delivery has come before the triggers: it is over, or the event goes on to them. -/
inductive Before where
  | settled (delivery : SignalDelivery)
  | onward (db : SignalDb) (delivery : SignalDelivery) (fact : TriggerFact)
deriving DecidableEq, Repr

/-- The new fact, with its ticket and its watermark, the subscriptions it fires and the routes that pick
it up. -/
def appendFact (db : SignalDb) (input : DeliverSignalEventInput) (eventID : String) :
    Except EngineError Before :=
  let event := input.event eventID
  let fired := db.hosted.matchSubscriptions input
  let routes := db.hosted.matchRoutes input
  let fact := event.fact input.subject
  match { db with events := db.events ++ [event] }.recordTicket senv event with
  | .error error => .error error
  | .ok recorded =>
      let advanced := recorded.advanceWatermark input eventID
      let woken := fired.foldl (Hosted.fireSubscription · now) advanced.hosted
      (runEventRoutePickup senv now fact.toPickupEvent woken routes).map fun picked =>
        .onward { advanced with hosted := picked }
          { event := some event, fired := fired
            pickups := routes.map fun (run, route) => (run, route.id) } fact

/-- A delivery up to its triggers. -/
def deliverFact (db : SignalDb) (input : DeliverSignalEventInput) (eventID : String) :
    Except EngineError Before :=
  match input.validate with
  | .error error => .error error
  | .ok () =>
      match db.suppressed senv input with
      | .error error => .error error
      | .ok true => .ok (.settled { duplicate := true, suppressed := true })
      | .ok false =>
          match db.duplicateOf input with
          | .error error => .error error
          | .ok (some event) => .ok (.settled { event := some event, duplicate := true })
          | .ok none => appendFact senv now db input eventID

def offerVersion (fact : TriggerFact) (version : WorkflowVersion) (hosted : Hosted) :
    Except EngineError (Hosted × List TriggeredRun) :=
  triggerEvent senv.toTriggerEnv now hosted version.toTriggerWorkflow fact

variable (query : NewestQuery)

/-- An event for one run triggers nothing, nor does one without an engine to ask. -/
def runEventTriggers (published : Published) (input : DeliverSignalEventInput) (fact : TriggerFact)
    (hosted : Hosted) : Except EngineError (Hosted × List TriggeredRun) :=
  if !input.trigger ∨ input.run ≠ none then .ok (hosted, [])
  else runParts (offerVersion senv now fact) hosted (query.rows published)

/-- `DeliverSignalEvent`: what is returned is committed, an error leaves the tables as they were. -/
def deliverSignalEvent (published : Published) (db : SignalDb) (input : DeliverSignalEventInput)
    (eventID : String) : Except EngineError (SignalDb × SignalDelivery) :=
  match deliverFact senv now db input eventID with
  | .error error => .error error
  | .ok (.settled delivery) => .ok (db, delivery)
  | .ok (.onward next delivery fact) =>
      (runEventTriggers senv now query published input fact next.hosted).map fun (hosted, triggered) =>
        ({ next with
            hosted := hosted
            outbox := next.outbox ++
              [⟨eventID, input.subject, delivery.fired.length, triggered.length⟩] },
          { delivery with triggered := triggered })

end

end CultureNodes.Engine
