import CultureNodes.Engine.Complete

/-!
Event pickup and the creation of a run. A refused pickup writes an audit event only and the run goes
on.
-/

namespace CultureNodes.Engine

open Compiler (quoted)

namespace Workflow

variable (wf : Workflow)

/-- The edge a materialized route came from. -/
def eventEdgeFor (route : EventRoute) : Option Edge :=
  wf.edges.find? fun edge => edge.onEvent = route.eventName && edge.target = route.targetNode &&
    edge.guard = route.guard

end Workflow

/-- One route for each event edge. -/
def RunDb.materializeEventRoutes (db : RunDb) : List Edge → RunDb
  | [] => db
  | edge :: rest =>
      RunDb.materializeEventRoutes
        { db with
          eventRoutes := db.eventRoutes ++
            [{ id := db.nextID, eventName := edge.onEvent, targetNode := edge.target,
               guard := edge.guard }]
          nextID := db.nextID + 1 } rest

/-- `CreateRun` and a triggered creation: the entry token and node run, the routes, the dispatch. -/
def createRun (env : Env) (wf : Workflow) (input : Payload) (now : Nat) : Except EngineError RunDb :=
  match env.validateInput input with
  | .error reason =>
      .error (.contract ("engine: run input does not satisfy its contract: " ++ reason))
  | .ok () =>
      match wf.node? wf.entry with
      | none => .error (.workflow ("the entry node " ++ quoted wf.entry ++ " is not declared"))
      | some entry =>
          let empty : RunDb := { input := input, createdAt := now }
          let placed := empty.insertToken wf.entry none none none
          let entered := placed.insertNodeRun empty.nextID wf.entry (dispatchState entry.kind)
          .ok ((entered.materializeEventRoutes wf.eventEdges).dispatchNode entry placed.nextID now)

/-- Why a pickup creates no token. -/
def pickupRefused (env : Env) (wf : Workflow) (db : RunDb) (route : EventRoute) (edge : Edge)
    (event : PickupEvent) : Bool :=
  (edge.guard ≠ "" &&
    (match env.evaluatePickupGuard edge db.input event with | .ok true => false | _ => true)) ||
  (checkPickupBounds wf.limits route.targetNode db.transitionCount (db.nodeVisits route.targetNode)
    db.activeTokenCount).isSome

/-- Create one token at a matched route's target, or leave the rows as they are. -/
def pickUpEvent (env : Env) (wf : Workflow) (now : Nat) (db : RunDb) (route : EventRoute)
    (event : PickupEvent) : Except EngineError RunDb :=
  if db.state.terminal then .ok db
  else
    match wf.eventEdgeFor route with
    | none =>
        .error (.workflow ("event route " ++ toString route.id ++ " (onEvent " ++
          quoted route.eventName ++ " -> " ++ quoted route.targetNode ++
          ") matches no edge in the pinned definition"))
    | some edge =>
        match wf.node? route.targetNode with
        | none =>
            .error (.workflow ("event route " ++ toString route.id ++ " targets node " ++
              quoted route.targetNode ++ ", which the pinned definition does not declare"))
        | some node =>
            if pickupRefused env wf db route edge event then .ok db
            else .ok (db.startNode node none none (some event.id) now)

end CultureNodes.Engine
