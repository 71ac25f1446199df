import CultureNodes.Library.Program
import CultureNodes.Store.Lifecycle
import CultureNodes.Worker.Liveness

/-!
The dispatch of claimed work to an actor. Its gates run in a fixed order, each with statements of its
own on the shared tables; between two of them anything may commit elsewhere.
-/

namespace CultureNodes.Worker

open Store

def maxDispatchAttempts : Nat := 3

/-- The economic budget a workflow declares; zero bounds nothing. -/
structure Budget where
  maxSessions : Nat := 0
  maxUncachedInput : Nat := 0
deriving DecidableEq, Repr

def Budget.declared (budget : Budget) : Bool :=
  decide (0 < budget.maxSessions) || decide (0 < budget.maxUncachedInput)

/-- What one lookup says about the conversation a dispatch belongs to. -/
structure SessionPlan where
  actorRowID : String := ""
  continuationRef : Option String := none
deriving DecidableEq, Repr

/-- The dispatch would open a new session. -/
def SessionPlan.coldStart (plan : SessionPlan) : Bool := plan.continuationRef.isNone

structure ActorPause where
  actorKey : String
  pausedUntil : Int
deriving DecidableEq, Repr

/-- The rate that refused a dispatch says when to ask again. -/
structure DispatchRateDecision where
  allowed : Bool
  retryAt : Int := 0
deriving DecidableEq, Repr

/-- The gate of an actor's registration; zero seconds are the default window. -/
structure PreflightGate where
  enabled : Bool := false
  windowSeconds : Int := 0
deriving DecidableEq, Repr

def PreflightGate.window (gate : PreflightGate) : Int :=
  if gate.windowSeconds ≤ 0 then 900 * Duration.second else gate.windowSeconds * Duration.second

/-- The two documents of a registration as the gate reads them: one may not be readable, and the
surface may be missing. -/
structure PreflightConfig where
  gate : Except String PreflightGate
  surface : Except String Bool

/-- A row of `dispatch_preflights`. -/
structure Preflight where
  id : Nat
  nodeRun : Nat
  actorKey : String
  issuedAt : Int
  expiresAt : Int
  acknowledgedAt : Option Int := none
  consumedAt : Option Int := none
  consumedByAttempt : Option Nat := none
deriving DecidableEq, Repr

namespace Preflight

variable (row : Preflight)

def acknowledged : Bool := row.acknowledgedAt.isSome

def consumed : Bool := row.consumedAt.isSome

def expired (now : Int) : Bool := decide (row.expiresAt ≤ now)

/-- Acknowledged, unexpired and not yet spent. -/
def usable (now : Int) : Bool := row.acknowledged && !row.consumed && !row.expired now

end Preflight

/-- A row of `run_sessions`. -/
structure SessionStart where
  attempt : Nat
  actorRef : String
deriving DecidableEq, Repr

/-- An invocation an actor has received, under the claim of the dispatch that made it. -/
structure Invocation where
  attempt : Nat
  claim : Claim
  actorRef : String
  cold : Bool
deriving DecidableEq, Repr

/-- The tables a dispatch reads and writes, for one run; beside them the invocations its actors have
received and the claims whose deferral has committed. -/
structure DispatchTables where
  work : WorkSystem := .initial
  sessions : List SessionStart := []
  preflights : List Preflight := []
  invocations : List Invocation := []
  deferrals : List Claim := []
deriving DecidableEq, Repr

structure DispatchNode where
  id : String
  uses : String
  preRun : Bool := false
  postRun : Bool := false
deriving DecidableEq, Repr

/-- One execution of `dispatchActor`: its attempt id is minted for it. -/
structure Dispatch where
  attempt : Nat
  claim : Claim
  nodeRun : Nat
  node : DispatchNode
deriving DecidableEq, Repr

structure ConcurrencyOptions where
  actorDefault : Int := 0
  actorOverrides : List (String × Int) := []
deriving DecidableEq, Repr

namespace ConcurrencyOptions

variable (options : ConcurrencyOptions)

def enabled : Bool :=
  decide (0 < options.actorDefault) || options.actorOverrides.any fun (_, limit) => decide (0 < limit)

def forActor (actorKey : String) : Int :=
  (options.actorOverrides.lookup actorKey).getD options.actorDefault

end ConcurrencyOptions

/-- Which of the rates are declared. -/
structure PacingOptions where
  global : Bool := false
  actor : Bool := false
  actorOverrides : List (String × Bool) := []
deriving DecidableEq, Repr

def PacingOptions.enabled (options : PacingOptions) : Bool :=
  options.global || options.actor || options.actorOverrides.any (·.2)

structure WorkerOptions where
  registry : Bool := true
  concurrency : ConcurrencyOptions := {}
  pacing : PacingOptions := {}
deriving DecidableEq, Repr

/-- The places where a dispatch reads the clock. -/
inductive ClockSite where
  | lane
  | pause
  | capacity
  | gate
  | pacing
deriving DecidableEq, Repr

inductive LivenessSelected where
  | fallback
  | proceed
deriving DecidableEq, Repr

inductive TechStatus where
  | failed
  | policyDenied
  | contractRejected
  | completed
deriving DecidableEq, Repr

/-- How a claimed attempt is completed: the class of its diagnostic, and the outcome a refusal routes
under. -/
structure Completion where
  status : TechStatus
  diagnosticClass : String := ""
  refusalOutcome : String := ""
deriving DecidableEq, Repr

/-- What the actor answers an invocation. -/
inductive InvocationReply where
  | failed (errorClass : String)
  | result
  | accepted
deriving DecidableEq, Repr

/-- A claim that is no longer held, or any other error. -/
inductive ClaimError where
  | stale
  | other (reason : String)
deriving DecidableEq, Repr

/-- The calls of a dispatch that leave its process. -/
inductive DispatchStatement where
  | now (site : ClockSite)
  | planSession (ref : String)
  | actorLiveness (actorKey : String)
  | fallbackActorFor (ref : String)
  | actorRowID (ref : String)
  | runSessionStarts
  | runUncachedInput
  | activePause (actorKey : String)
  | countWaitingActorInvocations (actorRowID : String)
  | preflightConfig (ref : String)
  | openPreflight (actorKey : String)
  | consumePreflight (id : Nat) (now : Int)
  | appendPreflightRecord (actorKey : String)
  | issuePreflight (actorKey : String) (issuedAt expiresAt : Int)
  | consumeDispatchSlots (actorKey : String)
  | deferWork (availableAt : Int)
  | appendRoutingRecord (selected : LivenessSelected)
  | preRunHook
  | resolve (ref : String)
  | callbackFor
  | recordSessionStart (actorRef : String)
  | invoke (actorRef : String) (cold : Bool)
  | cancelPendingInvocation
  | complete (completion : Completion)
  | startAsyncWait
  | lockLane (ref : String)
deriving DecidableEq, Repr

@[reducible] def DispatchStatement.Answer : DispatchStatement → Type
  | .now _ => Int
  | .planSession _ => SessionPlan
  | .actorLiveness _ => Except String (Option ActorLiveness)
  | .fallbackActorFor _ => String
  | .actorRowID _ => String
  | .runSessionStarts => Except String Nat
  | .runUncachedInput => Except String Nat
  | .activePause _ => Except String (Option ActorPause)
  | .countWaitingActorInvocations _ => Except String Nat
  | .preflightConfig _ => Option (Except String PreflightConfig)
  | .openPreflight _ => Except String (Option Preflight)
  | .consumePreflight _ _ => Except String Bool
  | .appendPreflightRecord _ => Except String Unit
  | .issuePreflight _ _ _ => Except String Preflight
  | .consumeDispatchSlots _ => Except String DispatchRateDecision
  | .deferWork _ => Except ClaimError Unit
  | .appendRoutingRecord _ => Except String Unit
  | .preRunHook => Except String Bool
  | .resolve _ => Except String Unit
  | .callbackFor => Except String Unit
  | .recordSessionStart _ => Except String Unit
  | .invoke _ _ => InvocationReply
  | .cancelPendingInvocation => Unit
  | .complete _ => Except ClaimError Unit
  | .startAsyncWait => Except ClaimError Unit
  | .lockLane _ => Unit

abbrev DispatchProgram := Program DispatchStatement DispatchStatement.Answer

inductive DispatchOutcome where
  | deferred
  | refused
  | failed
  | completed
  | parked
  | stale
  | errored (reason : String)
deriving DecidableEq, Repr

/-- The text around the first separator in it. -/
def cut (separator : List Char) : List Char → Option (List Char × List Char)
  | [] => none
  | letter :: rest =>
      if separator.isPrefixOf (letter :: rest) then
        some ([], (letter :: rest).drop separator.length)
      else (cut separator rest).map fun (before, after) => (letter :: before, after)

/-- The key of an actor in a reference to it: no scheme, no digest, no slashes around it. -/
@[irreducible] def actorKeyOf (ref : String) : String :=
  let text := ref.toList
  let named := ((cut [':', '/', '/'] text).map Prod.snd).getD text
  let bare := ((cut ['@'] named).map Prod.fst).getD named
  String.ofList (((bare.dropWhile (· = '/')).reverse.dropWhile (· = '/')).reverse)

/-- Make one call. -/
def DispatchStatement.run (statement : DispatchStatement) : DispatchProgram statement.Answer :=
  Program.ask statement

section

variable (options : WorkerOptions) (budget : Budget) (dispatch : Dispatch)

/-- This claim is one dispatch too far. -/
def budgetExhausted (claim : Claim) : Bool := decide (maxDispatchAttempts < claim.attempt)

/-- A completion of the claimed attempt. -/
def complete (completion : Completion) (outcome : DispatchOutcome) :
    DispatchProgram DispatchOutcome := do
  match ← (DispatchStatement.complete completion).run with
  | .ok () => pure outcome
  | .error .stale => pure .stale
  | .error (.other reason) => pure (.errored reason)

def failAttempt (status : TechStatus) (diagnosticClass : String) : DispatchProgram DispatchOutcome :=
  complete { status := status, diagnosticClass := diagnosticClass } .failed

def parkExhausted : DispatchProgram DispatchOutcome := do
  let _ ← DispatchStatement.cancelPendingInvocation.run
  failAttempt .failed "dispatch_budget_exhausted"

/-- Where a dispatch goes, and the record it owes where its lane is not live. -/
structure LaneDecision where
  target : String
  session : SessionPlan
  routed : Option LivenessSelected := none
deriving DecidableEq, Repr

/-- A row that cannot be read, or is missing, does not keep the dispatch from its lane. -/
def notLive (row : Except String (Option ActorLiveness)) (now : Int) : Bool :=
  match row with
  | .ok (some row) => !row.live now
  | _ => false

def decideLane (session : SessionPlan) : DispatchProgram LaneDecision := do
  let primary : LaneDecision := { target := dispatch.node.uses, session := session }
  if actorKeyOf dispatch.node.uses = "" then pure primary
  else
    let now : Int ← (DispatchStatement.now .lane).run
    let row ← (DispatchStatement.actorLiveness (actorKeyOf dispatch.node.uses)).run
    if !notLive row now then pure primary
    else
      let fallback : String ← (DispatchStatement.fallbackActorFor dispatch.node.uses).run
      if fallback = "" then pure { primary with routed := some .proceed }
      else
        let other ← (DispatchStatement.actorLiveness (actorKeyOf fallback)).run
        if notLive other now then pure { primary with routed := some .proceed }
        else
          let rowID : String ← (DispatchStatement.actorRowID fallback).run
          pure { target := fallback, session := { actorRowID := rowID }, routed := some .fallback }

/-- Whether the sessions started so far leave room for a cold start. -/
def sessionsUnfunded (session : SessionPlan) : DispatchProgram (Except String (Option String)) :=
  if budget.maxSessions = 0 || !session.coldStart then pure (.ok none)
  else do
    match ← DispatchStatement.runSessionStarts.run with
    | .error reason => pure (.error reason)
    | .ok started =>
        if started + 1 > budget.maxSessions then pure (.ok (some "budget.maxSessions"))
        else pure (.ok none)

def uncachedUnfunded : DispatchProgram (Except String (Option String)) :=
  if budget.maxUncachedInput = 0 then pure (.ok none)
  else do
    match ← DispatchStatement.runUncachedInput.run with
    | .error reason => pure (.error reason)
    | .ok tokens =>
        if tokens ≥ budget.maxUncachedInput then pure (.ok (some "budget.maxUncachedInput"))
        else pure (.ok none)

/-- The bound that cannot pay for the dispatch, if one cannot; an error where it could not be read. -/
def unfunded (session : SessionPlan) : DispatchProgram (Except String (Option String)) :=
  if !budget.declared then pure (.ok none)
  else do
    match ← sessionsUnfunded budget session with
    | .error reason => pure (.error reason)
    | .ok (some detail) => pure (.ok (some detail))
    | .ok none => uncachedUnfunded budget

def refuseUnfunded : DispatchProgram DispatchOutcome := do
  let _ ← DispatchStatement.cancelPendingInvocation.run
  complete { status := .policyDenied, diagnosticClass := "budget_exhausted",
             refusalOutcome := "budget_exhausted" } .refused

/-- Release the claimed work without dispatching it; somebody else holds it where the claim is stale. -/
def deferUntil (availableAt : Int) : DispatchProgram DispatchOutcome := do
  match ← (DispatchStatement.deferWork availableAt).run with
  | .ok () => pure .deferred
  | .error .stale => pure .stale
  | .error (.other reason) => pure (.errored reason)

/-- A pause that cannot be read is none. -/
def activePauseFor (ref : String) : DispatchProgram (Option ActorPause) :=
  if actorKeyOf ref = "" then pure none
  else do
    match ← (DispatchStatement.activePause (actorKeyOf ref)).run with
    | .error _ => pure none
    | .ok pause => pure pause

def deferForPause (pause : ActorPause) : DispatchProgram DispatchOutcome := do
  let now : Int ← (DispatchStatement.now .pause).run
  deferUntil (min pause.pausedUntil (now + 300 * Duration.second))

/-- Whether the ceiling of the actor is reached; a count that cannot be read does not reach it. -/
def atActorCapacity (ref actorRowID : String) : DispatchProgram Bool :=
  if !options.concurrency.enabled || actorRowID = "" then pure false
  else if options.concurrency.forActor (actorKeyOf ref) ≤ 0 then pure false
  else do
    match ← (DispatchStatement.countWaitingActorInvocations actorRowID).run with
    | .error _ => pure false
    | .ok inFlight => pure (decide (options.concurrency.forActor (actorKeyOf ref) ≤ inFlight))

def deferForCapacity : DispatchProgram DispatchOutcome := do
  let now : Int ← (DispatchStatement.now .capacity).run
  deferUntil (now + 10 * Duration.second)

/-- The next look at a briefing, at the latest when its window closes. -/
def deferForPreflight (row : Preflight) (now : Int) : DispatchProgram DispatchOutcome :=
  deferUntil (min row.expiresAt (now + 15 * Duration.second))

def issuePreflight (config : PreflightConfig) (gate : PreflightGate) (ref : String) (now : Int) :
    DispatchProgram DispatchOutcome :=
  match config.surface with
  | .ok true => do
      match ← (DispatchStatement.appendPreflightRecord (actorKeyOf ref)).run with
      | .error _ => failAttempt .failed "configuration"
      | .ok () => do
          match ← (DispatchStatement.issuePreflight (actorKeyOf ref) now (now + gate.window)).run with
          | .error reason => pure (.errored reason)
          | .ok row => deferForPreflight row now
  | _ => failAttempt .failed "configuration"

def refuseUnacknowledged : DispatchProgram DispatchOutcome :=
  complete { status := .policyDenied, diagnosticClass := "preflight_unacknowledged",
             refusalOutcome := "preflight_unacknowledged" } .refused

/-- Another dispatch may have spent the acknowledgement since it was read. -/
def afterConsume (row : Preflight) (now : Int) :
    Except String Bool → DispatchProgram (Option DispatchOutcome)
  | .error reason => pure (some (.errored reason))
  | .ok true => pure none
  | .ok false => do
      let outcome ← deferForPreflight row now
      pure (some outcome)

/-- What the gate does with the briefing it found. -/
def judgePreflight (row : Preflight) (now : Int) : DispatchProgram (Option DispatchOutcome) :=
  if row.usable now then (DispatchStatement.consumePreflight row.id now).run >>= afterConsume row now
  else if row.expired now then do
    let outcome ← refuseUnacknowledged
    pure (some outcome)
  else do
    let outcome ← deferForPreflight row now
    pure (some outcome)

/-- A lane that has no briefing of its own is issued one. -/
def afterOpen (config : PreflightConfig) (gate : PreflightGate) (ref : String) (now : Int) :
    Except String (Option Preflight) → DispatchProgram (Option DispatchOutcome)
  | .error reason => pure (some (.errored reason))
  | .ok none => do
      let outcome ← issuePreflight config gate ref now
      pure (some outcome)
  | .ok (some row) => judgePreflight row now

/-- The gate of a registration that could be read. -/
def configuredGate (config : PreflightConfig) (ref : String) :
    DispatchProgram (Option DispatchOutcome) :=
  match config.gate with
  | .error _ => do
      let outcome ← failAttempt .failed "configuration"
      pure (some outcome)
  | .ok gate =>
      if !gate.enabled then pure none
      else do
        let now ← (DispatchStatement.now .gate).run
        let found ← (DispatchStatement.openPreflight (actorKeyOf ref)).run
        afterOpen config gate ref now found

/-- The gate of an actor that is briefed first: nothing where the dispatch goes on. -/
def clarifyGate (ref : String) : DispatchProgram (Option DispatchOutcome) := do
  match ← (DispatchStatement.preflightConfig ref).run with
  | none => pure none
  | some (.error reason) => pure (some (.errored reason))
  | some (.ok config) => configuredGate config ref

/-- The decision of the rate that refuses the dispatch; rates that cannot be read refuse none. -/
def consumeDispatchSlot (ref : String) : DispatchProgram (Option DispatchRateDecision) :=
  if !options.pacing.enabled then pure none
  else do
    match ← (DispatchStatement.consumeDispatchSlots (actorKeyOf ref)).run with
    | .error _ => pure none
    | .ok decision => pure (if decision.allowed then none else some decision)

def deferForPacing (decision : DispatchRateDecision) : DispatchProgram DispatchOutcome := do
  let now : Int ← (DispatchStatement.now .pacing).run
  deferUntil (min (max decision.retryAt (now + Duration.second)) (now + 300 * Duration.second))

/-- A reroute that cannot be recorded does not happen; a warning that cannot be recorded does. -/
def recordLaneDecision (lane : LaneDecision) : DispatchProgram (Option DispatchOutcome) :=
  match lane.routed with
  | none => pure none
  | some selected => do
      match ← (DispatchStatement.appendRoutingRecord selected).run with
      | .ok () => pure none
      | .error _ =>
          match selected with
          | .proceed => pure none
          | .fallback => do
              let outcome ← failAttempt .failed "configuration"
              pure (some outcome)

def runPreRunHook : DispatchProgram (Option DispatchOutcome) :=
  if !dispatch.node.preRun then pure none
  else do
    match ← DispatchStatement.preRunHook.run with
    | .ok true => pure none
    | _ => do
        let outcome ← failAttempt .failed "pre_run"
        pure (some outcome)

/-- Record the session an invocation is about to open, where the workflow bounds them. -/
def chargeSession (lane : LaneDecision) : DispatchProgram (Except String Unit) :=
  if !lane.session.coldStart || budget.maxSessions = 0 then pure (.ok ())
  else do
    match ← (DispatchStatement.recordSessionStart lane.target).run with
    | .error reason => pure (.error reason)
    | .ok () => pure (.ok ())

/-- What follows the answer of the actor. -/
def afterInvocation (target : String) : InvocationReply → DispatchProgram DispatchOutcome
  | .failed errorClass => do
      let outcome ← complete { status := .failed, diagnosticClass := errorClass } .failed
      if errorClass = "credential_spent" then do
        let _ ← (DispatchStatement.lockLane target).run
        pure outcome
      else pure outcome
  | .result => complete { status := .completed } .completed
  | .accepted =>
      if dispatch.node.postRun then failAttempt .failed "post_run"
      else do
        match ← DispatchStatement.startAsyncWait.run with
        | .ok () => pure .parked
        | .error .stale => pure .stale
        | .error (.other reason) => pure (.errored reason)

/-- From the endpoint to the actor's answer. -/
def invokeActor (lane : LaneDecision) : DispatchProgram DispatchOutcome := do
  match ← (DispatchStatement.resolve lane.target).run with
  | .error _ => failAttempt .policyDenied "auth_or_policy"
  | .ok () => do
      match ← DispatchStatement.callbackFor.run with
      | .error _ => failAttempt .failed "configuration"
      | .ok () => do
          match ← chargeSession budget lane with
          | .error reason => pure (.errored reason)
          | .ok () => do
              let reply ← (DispatchStatement.invoke lane.target lane.session.coldStart).run
              afterInvocation dispatch lane.target reply

/-- Past the gates that defer. -/
def proceedToActor (lane : LaneDecision) : DispatchProgram DispatchOutcome :=
  if !options.registry then failAttempt .failed "configuration"
  else do
    match ← recordLaneDecision lane with
    | some outcome => pure outcome
    | none => do
        match ← runPreRunHook dispatch with
        | some outcome => pure outcome
        | none => invokeActor budget dispatch lane

/-- The gates between the funding of a dispatch and the actor. -/
def throughGates (lane : LaneDecision) : DispatchProgram DispatchOutcome := do
  match ← activePauseFor lane.target with
  | some pause => deferForPause pause
  | none => do
      if ← atActorCapacity options lane.target lane.session.actorRowID then deferForCapacity
      else
        match ← clarifyGate lane.target with
        | some outcome => pure outcome
        | none => do
            match ← consumeDispatchSlot options lane.target with
            | some decision => deferForPacing decision
            | none => proceedToActor options budget dispatch lane

def dispatchActor : DispatchProgram DispatchOutcome :=
  if budgetExhausted dispatch.claim then parkExhausted
  else do
    let session ← (DispatchStatement.planSession dispatch.node.uses).run
    let lane ← decideLane dispatch session
    match ← unfunded budget lane.session with
    | .error reason => pure (.errored reason)
    | .ok (some _) => refuseUnfunded
    | .ok none => throughGates options budget dispatch lane

end

end CultureNodes.Worker
