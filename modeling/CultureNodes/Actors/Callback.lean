import CultureNodes.Library.Transition

/-!
Ingest of an attempt's callback events. A delivery is a sequence of separate commits: read the
invocation, claim the event id, raise the sequence mark, process, and on failure lower the mark again
and release the claim. Deliveries of one attempt interleave between these commits. A call that fails
has no effect.
-/

namespace CultureNodes.Actors

inductive EventKind where
  | accepted
  | heartbeat
  | progress
  | artifact
  | signal
  | completed
  | failed
  | blocked
deriving DecidableEq, Repr

def EventKind.terminal : EventKind → Bool
  | .completed | .failed | .blocked => true
  | _ => false

structure CallbackEvent where
  id : String
  sequence : Nat
  kind : EventKind := .progress
deriving DecidableEq, Repr

inductive Disposition where
  | recorded
  | duplicate
  | outOfOrder
  | committed
  | late
  | rejected
deriving DecidableEq, Repr

/-- The event was processed: it is neither a duplicate nor out of order. -/
def Disposition.processed : Disposition → Bool
  | .duplicate | .outOfOrder => false
  | _ => true

inductive Resume where
  | resumed
  | stale
  | failed
deriving DecidableEq, Repr

inductive Completion where
  | committed
  | refused
  | failed
deriving DecidableEq, Repr

/-- What the calls of one step answer. `stored` is the call that reads the invocation, claims, raises,
lowers or releases; the others are made while an event is processed. -/
structure Answers where
  stored : Bool := true
  malformed : Bool := false
  emitted : Bool := true
  touched : Bool := true
  custody : Bool := true
  rejected : Bool := false
  resume : Resume := .resumed
  complete : Completion := .committed
  superseded : Bool := true
  closed : Bool := true
deriving DecidableEq, Repr

/-- No call fails. -/
def Answers.sound (answers : Answers) : Bool :=
  answers.stored && answers.emitted && answers.touched && answers.custody &&
    answers.resume ≠ .failed && answers.complete ≠ .failed && answers.superseded && answers.closed

def late (answers : Answers) : Option Disposition :=
  if answers.superseded && answers.closed then some .late else none

def emitSignal (answers : Answers) : Option Disposition :=
  if answers.malformed then some .rejected
  else if answers.emitted && answers.touched then some .recorded
  else none

def commitTerminal (answers : Answers) : Option Disposition :=
  if !answers.custody then none
  else if answers.rejected then some .rejected
  else
    match answers.resume with
    | .stale => late answers
    | .failed => none
    | .resumed =>
        match answers.complete with
        | .refused => late answers
        | .failed => none
        -- The engine has committed by now; only the invocation row is behind when this fails.
        | .committed => if answers.closed then some .committed else none

/-- What an event that owns its claim and the mark comes to; `none` is an error. -/
def processAdvanced (kind : EventKind) (answers : Answers) : Option Disposition :=
  if kind = .signal then emitSignal answers
  else if kind.terminal then commitTerminal answers
  else if answers.touched then some .recorded
  else none

/-- Where a delivery stands. `seen` is the mark it read with the invocation; `replaced`, the mark that
its own advance found, is not kept by the code. An error has been compensated when every
compensation that was due went through. -/
inductive Phase where
  | lookup
  | claim (seen : Nat)
  | advance (seen : Nat)
  | process (seen replaced : Nat)
  | rollback (seen replaced : Nat)
  | release (compensated : Bool)
  | answered (disposition : Disposition)
  | failed (compensated : Bool)
deriving DecidableEq, Repr

structure Delivery where
  event : CallbackEvent
  phase : Phase := .lookup
deriving DecidableEq, Repr

/-- The rows of one attempt and the deliveries for it. `processed` lists the events whose processing
succeeded, newest first. -/
structure Ingest where
  lastSequence : Nat := 0
  claims : List String := []
  deliveries : List Delivery := []
  processed : List CallbackEvent := []
deriving DecidableEq, Repr

inductive Action where
  | start (event : CallbackEvent)
  | step (delivery : Nat) (answers : Answers)
deriving DecidableEq, Repr

namespace Ingest

variable (s : Ingest)

def put (delivery : Nat) (event : CallbackEvent) (phase : Phase) : Ingest :=
  { s with deliveries := s.deliveries.set delivery ⟨event, phase⟩ }

/-- The next commit of a delivery. -/
def advance (delivery : Nat) (event : CallbackEvent) (answers : Answers) : Phase → Option Ingest
  | .lookup =>
      if answers.stored then some (s.put delivery event (.claim s.lastSequence))
      else some (s.put delivery event (.failed true))
  | .claim seen =>
      if !answers.stored then some (s.put delivery event (.failed true))
      else if s.claims.contains event.id then some (s.put delivery event (.answered .duplicate))
      else
        some { s.put delivery event (.advance seen) with claims := event.id :: s.claims }
  | .advance seen =>
      if !answers.stored then some (s.put delivery event (.release true))
      else if s.lastSequence < event.sequence then
        some { s.put delivery event (.process seen s.lastSequence) with
          lastSequence := event.sequence }
      -- The claim is kept.
      else some (s.put delivery event (.answered .outOfOrder))
  | .process seen replaced =>
      match processAdvanced event.kind answers with
      | some disposition =>
          some { s.put delivery event (.answered disposition) with
            processed := event :: s.processed }
      | none => some (s.put delivery event (.rollback seen replaced))
  | .rollback seen _ =>
      if !answers.stored then some (s.put delivery event (.release false))
      else
        some { s.put delivery event (.release true) with
          lastSequence := if s.lastSequence = event.sequence then seen else s.lastSequence }
  | .release compensated =>
      if answers.stored then
        some { s.put delivery event (.failed compensated) with
          claims := s.claims.filter (· ≠ event.id) }
      else some (s.put delivery event (.failed false))
  | .answered _ | .failed _ => none

def act : Action → Option Ingest
  | .start event =>
      if event.id = "" ∨ event.sequence = 0 then none
      else some { s with deliveries := s.deliveries ++ [{ event := event }] }
  | .step delivery answers =>
      match s.deliveries[delivery]? with
      | none => none
      | some ⟨event, phase⟩ => s.advance delivery event answers phase

def step (s : Ingest) (action : Action) (next : Ingest) : Prop := s.act action = some next

end Ingest

/-- The mark a delivery replaced, from its advance to the end of its processing. -/
def Phase.raised : Phase → Option Nat
  | .process _ replaced | .rollback _ replaced => some replaced
  | _ => none

end CultureNodes.Actors
