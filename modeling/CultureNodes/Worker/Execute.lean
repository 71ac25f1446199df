import CultureNodes.Worker.Dispatch
import Mathlib.Data.List.MinMax
import Mathlib.Data.Prod.Lex

/-!
What the calls of a dispatch do, and the system of all the dispatches of a run: each goes on one call at
a time, between the calls of the others and the statements that reach the run's work from elsewhere.
-/

namespace CultureNodes.Worker

open Store

/-- What the world answers a dispatch: what fails, and what is read outside the modelled tables. A
statement that fails may have been committed with its answer lost, and the briefings may be read as they
were before another transaction. -/
structure DispatchWorld where
  fails : DispatchStatement → Option String := fun _ => none
  lost : Bool := false
  clock : ClockSite → Int := fun _ => 0
  plan : String → SessionPlan := fun _ => {}
  liveness : String → Option ActorLiveness := fun _ => none
  fallback : String → String := fun _ => ""
  rowID : String → String := fun _ => ""
  uncachedInput : Nat := 0
  pause : String → Option ActorPause := fun _ => none
  waiting : String → Nat := fun _ => 0
  config : String → Option (Except String PreflightConfig) := fun _ => none
  earlier : Option (List Preflight) := none
  freshID : Nat := 0
  slots : DispatchRateDecision := { allowed := true }
  hookPasses : Bool := true
  reply : InvocationReply := .result
  retry : Option (Nat × Nat) := none
  deadline : Option (Nat × Nat) := none

namespace DispatchWorld

variable (world : DispatchWorld) (tables : DispatchTables) (statement : DispatchStatement)

def read {α : Type} (value : α) : DispatchTables × Except String α :=
  match world.fails statement with
  | some reason => (tables, .error reason)
  | none => (tables, .ok value)

def write {α : Type} (next : DispatchTables) (value : α) : DispatchTables × Except String α :=
  match world.fails statement with
  | some reason => (if world.lost then next else tables, .error reason)
  | none => (next, .ok value)

/-- A statement guarded by the claim: one that matches no row writes nothing. -/
def claimWrite (next : Option DispatchTables) : DispatchTables × Except ClaimError Unit :=
  match world.fails statement with
  | some reason => (if world.lost then next.getD tables else tables, .error (.other reason))
  | none =>
      match next with
      | none => (tables, .error .stale)
      | some next => (next, .ok ())

variable {world tables statement}

theorem read_tables {α : Type} (value : α) : (world.read tables statement value).1 = tables := by
  unfold read
  split <;> rfl

theorem write_fits {α : Type} {next : DispatchTables} {value : α} (fits : DispatchTables → Prop)
    (unwritten : fits tables) (written : fits next) :
    fits (world.write tables statement next value).1 := by
  unfold write
  split
  · dsimp only
    split
    · exact written
    · exact unwritten
  · exact written

theorem write_kept {α τ : Type} {next : DispatchTables} {value : α} (view : DispatchTables → τ)
    (kept : view next = view tables) :
    view (world.write tables statement next value).1 = view tables :=
  write_fits (view · = view tables) rfl kept

theorem claimWrite_fits {next : Option DispatchTables} (fits : DispatchTables → Prop)
    (unwritten : fits tables) (written : ∀ written, next = some written → fits written) :
    fits (world.claimWrite tables statement next).1 := by
  unfold claimWrite
  cases next with
  | none =>
      split
      · dsimp only
        split <;> exact unwritten
      · exact unwritten
  | some isNext =>
      split
      · dsimp only
        split
        · exact written isNext rfl
        · exact unwritten
      · exact written isNext rfl

theorem claimWrite_kept {τ : Type} {next : Option DispatchTables} (view : DispatchTables → τ)
    (kept : ∀ written, next = some written → view written = view tables) :
    view (world.claimWrite tables statement next).1 = view tables :=
  claimWrite_fits (view · = view tables) rfl kept

end DispatchWorld

/-- The newest unconsumed briefing of a node run for an actor. -/
def openPreflight (rows : List Preflight) (nodeRun : Nat) (actorKey : String) : Option Preflight :=
  (rows.filter fun row => row.nodeRun = nodeRun && row.actorKey = actorKey && !row.consumed).argmax
    fun row => (toLex (row.issuedAt, row.id) : Int ×ₗ Nat)

def consumePreflight (rows : List Preflight) (id attempt : Nat) (now : Int) : List Preflight :=
  Table.update rows (fun row => row.id = id && row.usable now)
    fun row => { row with consumedAt := some now, consumedByAttempt := some attempt }

def DispatchTables.spend (tables : DispatchTables) (id attempt : Nat) (now : Int) : DispatchTables :=
  { tables with preflights := consumePreflight tables.preflights id attempt now }

def withWork (tables : DispatchTables) (work : WorkTables) : DispatchTables :=
  { tables with work := { tables.work with tables := work } }

/-- What a call does to the tables, and its answer. -/
def execute (world : DispatchWorld) (tables : DispatchTables) (dispatch : Dispatch)
    (statement : DispatchStatement) : DispatchTables × statement.Answer :=
  match statement with
  | .now site => (tables, world.clock site)
  | .planSession ref => (tables, world.plan ref)
  | .actorLiveness actorKey =>
      world.read tables (.actorLiveness actorKey) (world.liveness actorKey)
  | .fallbackActorFor ref => (tables, world.fallback ref)
  | .actorRowID ref => (tables, world.rowID ref)
  | .runSessionStarts => world.read tables .runSessionStarts tables.sessions.length
  | .runUncachedInput => world.read tables .runUncachedInput world.uncachedInput
  | .activePause actorKey => world.read tables (.activePause actorKey) (world.pause actorKey)
  | .countWaitingActorInvocations rowID =>
      world.read tables (.countWaitingActorInvocations rowID) (world.waiting rowID)
  | .preflightConfig ref => (tables, world.config ref)
  | .openPreflight actorKey =>
      world.read tables (.openPreflight actorKey)
        (openPreflight (world.earlier.getD tables.preflights) dispatch.nodeRun actorKey)
  | .consumePreflight id now =>
      world.write tables (.consumePreflight id now)
        (tables.spend id dispatch.attempt now)
        (tables.preflights.any fun row => row.id = id && row.usable now)
  | .appendPreflightRecord actorKey => world.read tables (.appendPreflightRecord actorKey) ()
  | .issuePreflight actorKey issuedAt expiresAt =>
      let row : Preflight :=
        { id := world.freshID, nodeRun := dispatch.nodeRun, actorKey := actorKey,
          issuedAt := issuedAt, expiresAt := expiresAt }
      world.write tables (.issuePreflight actorKey issuedAt expiresAt)
        { tables with preflights := tables.preflights ++ [row] } row
  | .consumeDispatchSlots actorKey => world.read tables (.consumeDispatchSlots actorKey) world.slots
  | .deferWork availableAt =>
      world.claimWrite tables (.deferWork availableAt)
        ((tables.work.tables.deferWork dispatch.claim availableAt.toNat).map fun work =>
          { withWork tables work with deferrals := tables.deferrals ++ [dispatch.claim] })
  | .appendRoutingRecord selected => world.read tables (.appendRoutingRecord selected) ()
  | .preRunHook => world.read tables .preRunHook world.hookPasses
  | .resolve ref => world.read tables (.resolve ref) ()
  | .callbackFor => world.read tables .callbackFor ()
  | .recordSessionStart actorRef =>
      world.write tables (.recordSessionStart actorRef)
        (if tables.sessions.any (·.attempt = dispatch.attempt) then tables
         else { tables with sessions := tables.sessions ++ [⟨dispatch.attempt, actorRef⟩] }) ()
  | .invoke actorRef cold =>
      ({ tables with
         invocations := tables.invocations ++ [⟨dispatch.attempt, dispatch.claim, actorRef, cold⟩] },
        world.reply)
  | .cancelPendingInvocation => (tables, ())
  | .complete completion =>
      world.claimWrite tables (.complete completion)
        ((WorkSystem.completeWork tables.work.tables dispatch.claim world.retry).map (withWork tables))
  | .startAsyncWait =>
      world.claimWrite tables .startAsyncWait
        ((tables.work.tables.startAsyncWait dispatch.claim world.deadline).map (withWork tables))
  | .lockLane _ => (tables, ())

/-- What a dispatch has done so far: the count of sessions it read, whether its own was recorded, and
whether it has invoked its actor or tried to release its work. -/
structure DispatchPast where
  started : Option Nat := none
  charged : Bool := false
  settled : Bool := false
deriving DecidableEq, Repr

def DispatchPast.after (past : DispatchPast) :
    (statement : DispatchStatement) → statement.Answer → DispatchPast
  | .runSessionStarts, .ok started => { past with started := some started }
  | .recordSessionStart _, .ok () => { past with charged := true }
  | .invoke _ _, _ => { past with settled := true }
  | .deferWork _, _ => { past with settled := true }
  | _, _ => past

abbrev DispatchThread :=
  Thread DispatchStatement DispatchStatement.Answer DispatchOutcome Dispatch DispatchPast

/-- The dispatches of a run, and the claims its workers hold and have not dispatched yet. -/
structure DispatchSystem where
  tables : DispatchTables := {}
  claims : List Claim := []
  issued : List Claim := []
  threads : List DispatchThread := []

inductive DispatchAction where
  | claim (id : Nat) (worker : String) (claimCode : Bool) (now lease : Nat)
  | dispatch (claim : Claim) (attempt nodeRun : Nat) (node : DispatchNode)
  | advance (index : Nat) (world : DispatchWorld)
  | acknowledge (id : Nat) (now : Int)
  | elsewhere (action : WorkAction)

def byWorker : WorkAction → Bool
  | .claim _ _ _ _ _ => true
  | .deferWork _ _ => true
  | _ => false

namespace DispatchSystem

variable (options : WorkerOptions) (budget : Budget) (isCode : Nat → Bool)

def acknowledgePreflight (rows : List Preflight) (id : Nat) (now : Int) : List Preflight :=
  Table.update rows (fun row => row.id = id && !row.acknowledged && !row.consumed && !row.expired now)
    fun row => { row with acknowledgedAt := some now }

/-- A worker claims work, dispatches what it claimed once, and a dispatch makes its next call. -/
def act (system : DispatchSystem) : DispatchAction → Option DispatchSystem
  | .claim id worker claimCode now lease =>
      (system.tables.work.act isCode (.claim id worker claimCode now lease)).bind fun work =>
        (work.tables.items.find? (·.id = id)).map fun item =>
          let claim : Claim := ⟨id, worker, item.fencingToken, item.attempt⟩
          { system with
            tables := { system.tables with work := work }
            claims := system.claims ++ [claim]
            issued := system.issued ++ [claim] }
  | .dispatch claim attempt nodeRun node =>
      if claim ∈ system.claims ∧ attempt ∉ system.threads.map fun thread => thread.owner.attempt then
        let dispatch : Dispatch := ⟨attempt, claim, nodeRun, node⟩
        some { system with
          claims := system.claims.erase claim
          threads := system.threads ++ [⟨dispatch, {}, dispatchActor options budget dispatch⟩] }
      else none
  | .advance index world =>
      system.threads[index]?.bind fun thread =>
        (thread.advance (execute world) DispatchPast.after system.tables).map fun advanced =>
          { system with tables := advanced.1, threads := system.threads.set index advanced.2 }
  | .acknowledge id now =>
      some { system with
        tables := { system.tables with
          preflights := acknowledgePreflight system.tables.preflights id now } }
  | .elsewhere action =>
      if byWorker action then none
      else (system.tables.work.act isCode action).map fun work =>
        { system with tables := { system.tables with work := work } }

def step (system : DispatchSystem) (action : DispatchAction) (next : DispatchSystem) : Prop :=
  system.act options budget isCode action = some next

end DispatchSystem

end CultureNodes.Worker
