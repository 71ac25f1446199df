import CultureNodes.Ledger.Scripts
import CultureNodes.Library.Transaction
import CultureNodes.Library.Transition

/-!
Calls of the ledger's entry points running at the same time, statement by statement. A statement reads
what is committed and what its own transaction has written; the locks of a transaction are held to its
end. A call that fails, or is cut off, leaves nothing behind.
-/

namespace CultureNodes.Ledger

/-- A call in progress. What it has learnt is kept beside what is left of it. -/
structure Session where
  call : Call
  seen : Seen
  rest : Script

/-- A call that has committed, with the database around its commit. -/
structure Success where
  call : Call
  result : LedgerResult
  before : LedgerDb
  after : LedgerDb

structure LedgerState extends World LedgerDb Write LockKey Session where
  log : List Success

inductive Action where
  | start (txn : Nat) (call : Call)
  | advance (txn : Nat)
  | finish (txn : Nat)
  | abort (txn : Nat)
  | register (actor : Actor)

namespace LedgerState

def init : LedgerState where
  db := {}
  txns := fun _ => none
  holder := fun _ => none
  log := []

variable (store : Store) (s : LedgerState)

def put (id : Nat) (txn : Txn Write Session) : LedgerState :=
  { s with toWorld := s.setTxn id txn }

def take (id : Nat) (key : Option LockKey) : Option LedgerState :=
  match key with
  | none => some s
  | some key => (s.acquire id key).map fun world => { s with toWorld := world }

def answered (txn : Txn Write Session) (statement : Statement) (next : Answer statement → Script) :
    Txn Write Session :=
  let answer := (s.view LedgerDb.apply txn).answer store statement
  ⟨txn.writes ++ writesOf statement answer,
    ⟨txn.body.call, txn.body.seen.after statement answer, next answer⟩⟩

def start (id : Nat) (call : Call) : Option LedgerState :=
  match s.txns id with
  | some _ => none
  | none => some (s.put id ⟨[], ⟨call, {}, call.script store⟩⟩)

def advance (id : Nat) : Option LedgerState :=
  match s.txns id with
  | none => none
  | some txn =>
      match txn.body.rest with
      | .done _ => none
      | .call statement next =>
          (s.take id statement.key?).map fun taken => taken.put id (s.answered store txn statement next)

def finish (id : Nat) : Option LedgerState :=
  match s.txns id with
  | none => none
  | some txn =>
      match txn.body.rest with
      | .call _ _ => none
      | .done (.error _) => some { s with toWorld := s.toWorld.finish id }
      | .done (.ok result) =>
          some { s with
            toWorld := s.commit LedgerDb.apply id txn
            log := s.log ++ [⟨txn.body.call, result, s.db, s.view LedgerDb.apply txn⟩] }

def abort (id : Nat) : Option LedgerState :=
  match s.txns id with
  | none => none
  | some _ => some { s with toWorld := s.toWorld.finish id }

/-- A revision of an actor is added and never changed. -/
def register (actor : Actor) : Option LedgerState :=
  if s.db.hasActor actor.id then none
  else some { s with db := { s.db with actors := s.db.actors ++ [actor] } }

def act : Action → Option LedgerState
  | .start txn call => s.start store txn call
  | .advance txn => s.advance store txn
  | .finish txn => s.finish txn
  | .abort txn => s.abort txn
  | .register actor => s.register actor

/-- The states that calls of the ledger can lead to. -/
def Reachable (s : LedgerState) : Prop :=
  Steps (fun s action next => s.act store action = some next) anyAction init s

end LedgerState
end CultureNodes.Ledger
