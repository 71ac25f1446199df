import CultureNodes.Engine.Refine
import CultureNodes.Scheduler.Armed

/-!
Parking the runs of a frozen ticket. The park puts the run and its ready and leased work into waiting and
leaves timers, subscriptions and the records of asynchronous invocations alone. Around the run's own
transactions stand its workers, who dispatch the claims they were handed, and whoever reports on an
invocation: a callback, a poll of a runner or a deadline.
-/

namespace CultureNodes.TicketFreeze

open Engine Store

/-- A run with the claims its workers hold and have not dispatched, and the claims of the invocations on
record. `frozen` is the reason `ticket_frozen` on the run. -/
structure TicketRun where
  db : RunDb
  frozen : Bool := false
  inHand : List Claim := []
  invoked : List Claim := []
deriving DecidableEq, Repr

/-- A transaction or a statement on the run, an asynchronous wait that is recorded with its invocation, a
worker that dispatches a claim or gives it up, or the park. -/
inductive TicketAction where
  | engine (action : Engine.Action)
  | startWait (claim : Claim) (deadline : Option (Nat × Nat))
  | dispatch (claim : Claim)
  | giveUp (claim : Claim)
  | park
deriving DecidableEq, Repr

/-- The claim that a worker's statement hands out. -/
def granted? (tables : WorkTables) : Engine.Action → Option Claim
  | .work (.claim id worker _ _ _) =>
      (tables.items.find? (·.id = id)).map fun item => ⟨id, worker, item.fencingToken + 1, item.attempt + 1⟩
  | _ => none

namespace TicketRun

variable (env : Env) (wf : Workflow) (s : TicketRun)

/-- Parked work is resumed under the claim of an invocation that was read, whatever has become of the record
since. A wait is recorded with its invocation, and a park is one of the actions of its own. -/
def permits : Engine.Action → Bool
  | .work (.resumeWaitingWork claim _ _) => s.invoked.contains claim
  | .work (.startAsyncWait _ _) | .work .parkFrozen => false
  | _ => true

/-- A run that has ended is not parked, and one that is parked already is left alone. -/
def parkRunForFrozenTicket : Option TicketRun :=
  if s.db.state = .waiting ∧ s.frozen then none
  else (s.db.act env wf (.work .parkFrozen)).map fun next => { s with db := next, frozen := true }

def act : TicketAction → Option TicketRun
  | .engine action =>
      if s.permits action then
        (s.db.act env wf action).map fun next =>
          { s with db := next, inHand := s.inHand ++ (granted? s.db.work action).toList }
      else none
  | .startWait claim deadline =>
      (s.db.act env wf (.work (.startAsyncWait claim deadline))).map fun next =>
        { s with db := next, invoked := s.invoked ++ [claim] }
  | .dispatch claim => if claim ∈ s.inHand then some { s with inHand := s.inHand.erase claim } else none
  | .giveUp claim => some { s with inHand := s.inHand.erase claim }
  | .park => s.parkRunForFrozenTicket env wf

def step (action : TicketAction) (next : TicketRun) : Prop := s.act env wf action = some next

/-- No claim takes an item of the run and no node of it is dispatched. -/
def AtRest : Prop :=
  (∀ id worker claimCode now lease, s.act env wf (.engine (.work (.claim id worker claimCode now lease))) = none) ∧
    ∀ claim, s.act env wf (.dispatch claim) = none

end TicketRun

/-- No signal is delivered, no human task is decided or expires, and nobody cancels the run. -/
def unattended (_ : TicketRun) : TicketAction → Bool
  | .engine (.decide _ _) | .engine (.pickUp _ _ _) | .engine (.cancel _ _) => false
  | .engine (.work (.fireSubscription _ _)) => false
  | _ => true

def Unattended (s : TicketRun) (action : TicketAction) : Prop := unattended s action = true

/-- The item is one that a park leaves to the claim: waiting for nobody, under the same token and attempt. -/
def leftTo (claim : Claim) (item : WorkItem) : Bool :=
  item.id = claim.work && item.fencingToken = claim.fencingToken && item.attempt = claim.attempt &&
    (item.state = .ready || item.state = .leased || (item.state = .waiting && item.leaseOwner = none))

/-- Nothing is on its way to the run when it is parked: no worker is about to dispatch, no wait or retry
timer is pending for work that is not completed, and no invocation on record has its claim on live work. -/
structure Quiet (s : TicketRun) : Prop where
  hands : s.inHand = []
  timers : ∀ timer ∈ s.db.work.timers, timer.wakes = true → timer.status = .pending →
    ∀ item ∈ s.db.work.items, item.nodeRun = timer.nodeRun → item.state = .completed
  invocations : ∀ claim ∈ s.invoked, ∀ item ∈ s.db.work.items, leftTo claim item = false

theorem workStatement_tables {wf : Workflow} {db next : RunDb} {action : WorkAction}
    (acted : db.workStatement wf action = some next) :
    ∃ isCode after, workerStatement action = true ∧
      (WorkSystem.mk db.work db.state.terminal).act isCode action = some after ∧ next.work = after.tables := by
  have frozen : ∀ other : RunDb, (other.freeze action).work = other.work := by
    intro other
    unfold RunDb.freeze
    split <;> rfl
  have marked : ∀ (other : RunDb) (owner : Nat), (other.markFor action owner).work = other.work := by
    intro other owner
    unfold RunDb.markFor
    split <;> rfl
  obtain ⟨isCode, after, worker, performed, ⟨_, rfl⟩ | ⟨owner, _, rfl⟩⟩ := RunDb.workStatement_eq_some acted
  · exact ⟨isCode, after, worker, performed, frozen _⟩
  · exact ⟨isCode, after, worker, performed, (frozen _).trans (marked _ _)⟩

/-- No two timers of the run have the same id. -/
def TimersKeyed (tables : WorkTables) : Prop := (tables.timers.map Timer.id).Nodup

namespace TimersKeyed

variable {tables next : WorkTables}

theorem congr (keyed : TimersKeyed tables) (same : next.timers = tables.timers) : TimersKeyed next := by
  unfold TimersKeyed
  rw [same]
  exact keyed

theorem update (keyed : TimersKeyed tables) {guard : Timer → Bool} {write : Timer → Timer}
    (updated : next.timers = Table.update tables.timers guard write)
    (kept : ∀ timer, (write timer).id = timer.id) : TimersKeyed next := by
  unfold TimersKeyed
  rw [updated, Table.update_keys kept]
  exact keyed

theorem concat (keyed : TimersKeyed tables) {timer : Timer}
    (fresh : (tables.timers.any fun row => row.id = timer.id) = false)
    (added : next.timers = tables.timers ++ [timer]) : TimersKeyed next := by
  unfold TimersKeyed
  rw [added]
  refine Table.keys_append_nodup keyed fun taken => ?_
  obtain ⟨row, member, same⟩ := List.mem_map.mp taken
  exact List.any_eq_false.mp fresh row member (decide_eq_true same)

theorem startAsyncWait (keyed : TimersKeyed tables) {claim : Claim} {deadline : Option (Nat × Nat)}
    (ran : tables.startAsyncWait claim deadline = some next) : TimersKeyed next := by
  simp only [WorkTables.startAsyncWait, Option.bind_eq_bind, Option.bind_eq_some_iff] at ran
  obtain ⟨parked, park, nodeRun, _, ran⟩ := ran
  have kept := keyed.congr (WorkTables.updateItems?_timers park)
  cases deadline with
  | none => exact Option.some.inj ran ▸ kept
  | some given =>
      obtain ⟨timer, fireAt⟩ := given
      simp only at ran
      split at ran
      · contradiction
      · rename_i fresh
        exact kept.concat (by simpa using fresh) (congrArg WorkTables.timers (Option.some.inj ran)).symm

theorem startDurableWait (keyed : TimersKeyed tables) {claim : Claim} {timer fireAt : Nat}
    (ran : tables.startDurableWait claim timer fireAt = some next) : TimersKeyed next := by
  simp only [WorkTables.startDurableWait, Option.bind_eq_bind, Option.bind_eq_some_iff] at ran
  obtain ⟨parked, park, nodeRun, _, ran⟩ := ran
  have kept := keyed.congr (WorkTables.updateItems?_timers park)
  split at ran
  · exact Option.some.inj ran ▸ kept
  · rename_i fresh
    exact kept.concat (by simpa using fresh) (congrArg WorkTables.timers (Option.some.inj ran)).symm

theorem rearmDeadline (keyed : TimersKeyed tables) {id nodeRun fireAt : Nat}
    (ran : tables.rearmDeadline id nodeRun fireAt = some next) : TimersKeyed next := by
  unfold WorkTables.rearmDeadline at ran
  split at ran
  · contradiction
  · rename_i fresh
    exact keyed.concat (by simpa using fresh) (congrArg WorkTables.timers (Option.some.inj ran)).symm

theorem act {isCode : Nat → Bool} {system after : WorkSystem} {action : WorkAction}
    (keyed : TimersKeyed system.tables) (acted : system.act isCode action = some after) :
    TimersKeyed after.tables := by
  cases action with
  | startAsyncWait claim deadline =>
      obtain ⟨tables, done, rfl⟩ := Option.map_eq_some_iff.mp acted
      exact keyed.startAsyncWait done
  | startDurableWait claim timer fireAt =>
      obtain ⟨tables, done, rfl⟩ := Option.map_eq_some_iff.mp acted
      exact keyed.startDurableWait done
  | fireTimer id owner now =>
      obtain ⟨tables, done, rfl⟩ := Option.map_eq_some_iff.mp acted
      exact keyed.update (WorkTables.fireTimer_timers done) fun _ => rfl
  | rearmDeadline id nodeRun fireAt =>
      obtain ⟨tables, done, rfl⟩ := Option.map_eq_some_iff.mp acted
      exact keyed.rearmDeadline done
  | claimTimer | cancelTimer | reap | endRun =>
      obtain rfl := Option.some.inj acted
      exact keyed.update rfl fun _ => rfl
  | cancelRun =>
      simp only [WorkSystem.act, Option.ite_none_left_eq_some, Option.some.injEq] at acted
      obtain ⟨_, rfl⟩ := acted
      exact keyed.update rfl fun _ => rfl
  | _ => exact keyed.congr (WorkSystem.act_timers rfl acted)

variable {wf : Workflow} {strict calm : Prop} {here there : Hand × RunDb}

theorem turn (keyed : TimersKeyed here.2.work) (turn : Turn wf strict calm here there) :
    TimersKeyed there.2.work := by
  have started : ∀ (db : RunDb) (node : Node) (parent group : Option Nat) (origin : Option String) (now : Nat),
      (db.startNode node parent group origin now).work.timers = db.work.timers := by
    intro db node parent group origin now
    unfold RunDb.startNode RunDb.dispatchNode
    dsimp only
    split <;> rfl
  have gathered : ∀ (db : RunDb) (join : Node) (token group : Nat) (fromNode outcome : String) (output : Payload),
      (db.gather join token group fromNode outcome output).work.timers = db.work.timers := by
    intro db join token group fromNode outcome output
    unfold RunDb.gather RunDb.joinBarrier
    split <;> rfl
  cases turn with
  | note | split | spread | settled | abandon | refinish | retire | conclude | finish | reachEnd | retry =>
      exact keyed.congr rfl
  | work acted =>
      obtain ⟨isCode, after, _, performed, same⟩ := workStatement_tables acted
      have kept : TimersKeyed after.tables := TimersKeyed.act keyed performed
      exact kept.congr (congrArg WorkTables.timers same)
  | hold completed _ => exact keyed.congr (WorkTables.updateItems?_timers completed)
  | pickUp | put | putBranch => exact keyed.congr (started _ _ _ _ _ _)
  | cancel cancelled =>
      rw [← RunDb.cancelRunGuarded_eq_some cancelled]
      exact keyed.update rfl fun _ => rfl
  | arrive | arriveBranch => exact keyed.congr (gathered _ _ _ _ _ _ _)
  | fire now =>
      unfold RunDb.fireBarrier
      dsimp only
      split
      · exact keyed.update rfl fun _ => rfl
      · exact keyed.congr rfl
  | reap keep => exact keyed.update rfl fun _ => rfl

theorem turns (keyed : TimersKeyed here.2.work) (turns : Turns wf strict calm here there) :
    TimersKeyed there.2.work := by
  induction turns with
  | refl => exact keyed
  | tail _ turn ih => exact ih.turn turn

theorem created {env : Env} {input : Payload} {now : Nat} {db : RunDb}
    (made : createRun env wf input now = .ok db) : TimersKeyed db.work := by
  have none : db.work.timers = [] := by
    obtain ⟨_, _, _, _, _, _, rfl⟩ := createRun_ok made
    unfold RunDb.dispatchNode
    split <;> rfl
  unfold TimersKeyed
  rw [none]
  exact List.nodup_nil

theorem of_reaches {env : Env} {allowed : RunDb → Engine.Action → Prop} {db : RunDb}
    (reaches : Reaches env wf allowed db) : TimersKeyed db.work := by
  obtain ⟨input, now, start, made, steps⟩ := reaches
  have both : Standing wf (.idle, db) ∧ TimersKeyed db.work := by
    refine steps.invariant (fun db => Standing wf (.idle, db) ∧ TimersKeyed db.work)
      ⟨(createRun_created made).standing, created made⟩ ?_
    intro here action next kept _ stepped
    obtain ⟨standing, keyed⟩ := kept
    have run : Turns wf False False (.idle, here) (.idle, next) :=
      act_turns standing False.elim False.elim False.elim stepped
    exact ⟨Turns.standing run standing, TimersKeyed.turns keyed run⟩
  exact both.2

end TimersKeyed

/-- No item is ready or leased, no timer is due to wake one, and no invocation on record can resume one. -/
structure Still (tables : WorkTables) (invoked : List Claim) : Prop where
  items : ∀ item ∈ tables.items, item.state ≠ .ready ∧ item.state ≠ .leased
  timers : ∀ timer ∈ tables.timers, timer.wakes = true → timer.status = .pending →
    ∀ item ∈ tables.items, item.nodeRun = timer.nodeRun → item.state = .completed
  invocations : ∀ claim ∈ invoked, ∀ item ∈ tables.items, item.parkedFor claim = false

/-- The items are the same, and no timer that wakes is pending that was not before. -/
structure Calmer (before after : WorkTables) : Prop where
  items : after.items = before.items
  timers : ∀ timer ∈ after.timers, timer.wakes = true → timer.status = .pending →
    ∃ old ∈ before.timers, old.wakes = true ∧ old.status = .pending ∧ old.nodeRun = timer.nodeRun

namespace Calmer

variable {before after : WorkTables}

theorem same (items : after.items = before.items) (timers : after.timers = before.timers) :
    Calmer before after :=
  ⟨items, fun timer member wakes pending => ⟨timer, timers ▸ member, wakes, pending, rfl⟩⟩

theorem update {guard : Timer → Bool} {write : Timer → Timer} (items : after.items = before.items)
    (updated : after.timers = Table.update before.timers guard write)
    (kept : ∀ timer, (write timer).wakes = timer.wakes ∧ (write timer).nodeRun = timer.nodeRun ∧
      ((write timer).status = .pending → timer.status = .pending)) : Calmer before after := by
  refine ⟨items, fun timer member wakes pending => ?_⟩
  rw [updated] at member
  obtain ⟨old, isOld, rfl⟩ := Table.mem_update.mp member
  split at wakes
  · rename_i hit
    rw [if_pos hit] at pending ⊢
    exact ⟨old, isOld, (kept old).1 ▸ wakes, (kept old).2.2 pending, (kept old).2.1.symm⟩
  · rename_i missed
    rw [if_neg missed] at pending ⊢
    exact ⟨old, isOld, wakes, pending, rfl⟩

theorem still (calmer : Calmer before after) {invoked : List Claim} (still : Still before invoked) :
    Still after invoked where
  items := calmer.items ▸ still.items
  timers := by
    intro timer member wakes pending item isItem same
    obtain ⟨old, isOld, oldWakes, oldPending, oldRun⟩ := calmer.timers timer member wakes pending
    exact still.timers old isOld oldWakes oldPending item (calmer.items ▸ isItem) (same.trans oldRun.symm)
  invocations := calmer.items ▸ still.invocations

end Calmer

theorem updateItems?_none {tables : WorkTables} {guard : WorkItem → Bool} {write : WorkItem → WorkItem}
    (unmet : ∀ item ∈ tables.items, guard item = false) : tables.updateItems? guard write = none := by
  unfold WorkTables.updateItems?
  rw [if_neg]
  simpa using unmet

theorem update_unmet {rows : List WorkItem} {guard : WorkItem → Bool} {write : WorkItem → WorkItem}
    (unmet : ∀ item ∈ rows, guard item = false) : Table.update rows guard write = rows := by
  unfold Table.update
  exact (List.map_congr_left fun item member => by simp [unmet item member]).trans (List.map_id rows)

namespace Still

variable {tables : WorkTables} {invoked : List Claim} (still : Still tables invoked)

include still

theorem not_leasedBy (claim : Claim) : ∀ item ∈ tables.items, item.leasedBy claim = false := by
  intro item member
  simp [WorkItem.leasedBy, (still.items item member).2]

theorem not_heldBy (claim : Claim) : ∀ item ∈ tables.items, item.heldBy claim = false := by
  intro item member
  simp [WorkItem.heldBy, (still.items item member).2]

theorem completeWork (claim : Claim) : tables.completeWork claim = none :=
  updateItems?_none (still.not_heldBy claim)

theorem parkWork (claim : Claim) : tables.parkWork claim = none := updateItems?_none (still.not_heldBy claim)

theorem claimWork {ended : Bool} {isCode : Nat → Bool} {id : Nat} {worker : String} {claimCode : Bool}
    {now lease : Nat} : tables.claimWork ended isCode id worker claimCode now lease = none := by
  refine updateItems?_none fun item member => ?_
  simp [(still.items item member).1]

theorem startAsyncWait (claim : Claim) (deadline : Option (Nat × Nat)) :
    tables.startAsyncWait claim deadline = none := by
  simp [WorkTables.startAsyncWait, still.parkWork claim]

/-- What a statement does to work at rest: it matches nothing, or it touches timers that wake nothing. -/
theorem act {isCode : Nat → Bool} {ended : Bool} {after : WorkSystem} {action : WorkAction}
    (worker : workerStatement action = true) (silent : ∀ id now, action ≠ .fireSubscription id now)
    (recorded : ∀ claim now lease, action = .resumeWaitingWork claim now lease → claim ∈ invoked)
    (acted : (WorkSystem.mk tables ended).act isCode action = some after) : Calmer tables after.tables := by
  cases action with
  | enqueue | completeWork | reap | endRun | cancelRun => contradiction
  | claim id name claimCode now lease => simp [WorkSystem.act, still.claimWork] at acted
  | reclaimExpired now =>
      obtain rfl := Option.some.inj acted
      refine Calmer.same (update_unmet fun item member => ?_) rfl
      simp [(still.items item member).2]
  | extendLease claim now lease =>
      simp [WorkSystem.act, WorkTables.extendLease, updateItems?_none (still.not_leasedBy claim)] at acted
  | deferWork claim availableAt =>
      simp [WorkSystem.act, WorkTables.deferWork, updateItems?_none (still.not_heldBy claim)] at acted
  | startAsyncWait claim deadline => simp [WorkSystem.act, still.startAsyncWait] at acted
  | startDurableWait claim timer fireAt =>
      simp [WorkSystem.act, WorkTables.startDurableWait, still.parkWork claim] at acted
  | startDurableSignalWait claim subscription eventName =>
      simp [WorkSystem.act, WorkTables.startDurableSignalWait, still.parkWork claim] at acted
  | resumeWaitingWork claim now lease =>
      have onRecord := recorded claim now lease rfl
      simp [WorkSystem.act, WorkTables.resumeWaitingWork,
        updateItems?_none (still.invocations claim onRecord)] at acted
  | reparkResumedWork claim => simp [WorkSystem.act, still.parkWork claim] at acted
  | fireSubscription id now => exact absurd rfl (silent id now)
  | claimTimer id owner now =>
      obtain rfl := Option.some.inj acted
      exact Calmer.update rfl rfl fun _ => ⟨rfl, rfl, fun pending => pending⟩
  | fireTimer id owner now =>
      obtain ⟨next, done, rfl⟩ := Option.map_eq_some_iff.mp acted
      refine Calmer.update ?_ (WorkTables.fireTimer_timers done) fun _ => ⟨rfl, rfl, fun pending => TimerStatus.noConfusion pending⟩
      unfold WorkTables.fireTimer at done
      split at done
      · contradiction
      · rename_i timer found
        obtain rfl := Option.some.inj done
        dsimp only
        split
        · -- All the work of the timer's node run is completed, and completed work it leaves alone.
          rename_i wakes
          have pending := List.find?_some found
          simp only [Bool.and_eq_true, decide_eq_true_eq] at pending
          refine update_unmet fun item member => ?_
          have completed := still.timers timer (List.mem_of_find?_eq_some found) wakes pending.2 item member
          simpa using completed
        · rfl
  | rearmDeadline id nodeRun fireAt =>
      obtain ⟨next, done, rfl⟩ := Option.map_eq_some_iff.mp acted
      unfold WorkTables.rearmDeadline at done
      split at done
      · contradiction
      · obtain rfl := Option.some.inj done
        refine ⟨rfl, fun timer member wakes pending => ?_⟩
        rcases List.mem_append.mp member with old | new
        · exact ⟨timer, old, wakes, pending, rfl⟩
        · rw [List.mem_singleton.mp new] at wakes
          contradiction
  | cancelTimer id =>
      obtain rfl := Option.some.inj acted
      exact Calmer.update rfl rfl fun _ => ⟨rfl, rfl, fun pending => TimerStatus.noConfusion pending⟩
  | parkFrozen =>
      simp only [WorkSystem.act, Option.ite_none_left_eq_some, Option.some.injEq] at acted
      obtain ⟨_, rfl⟩ := acted
      refine Calmer.same (update_unmet fun item member => ?_) rfl
      simp [still.items item member]

end Still

theorem Still.complete_none {env : Env} {wf : Workflow} {db : RunDb} {invoked : List Claim}
    (still : Still db.work invoked) (req : CompletionRequest) (now : Nat) :
    db.act env wf (.complete req now) = none := by
  cases done : completeAttempt env wf now db req with
  | error reason => simp only [RunDb.act, done, Except.toOption]
  | ok next =>
      exfalso
      obtain ⟨prepared, isPrepared, _⟩ := completeAttempt_ok done
      obtain ⟨work, _, _, _, _, completed, _⟩ := CompletionRequest.prepare_ok isPrepared
      rw [still.completeWork] at completed
      contradiction

/-- A run that nothing moves unless a signal, a person or an expiry does. -/
structure Resting (s : TicketRun) : Prop where
  hands : s.inHand = []
  still : Still s.db.work s.invoked

section Runs

variable {env : Env} {wf : Workflow} {s next : TicketRun}

theorem Resting.atRest (resting : Resting s) : s.AtRest env wf := by
  constructor
  · intro id worker claimCode now lease
    have refused : s.db.act env wf (.work (.claim id worker claimCode now lease)) = none := by
      simp [RunDb.act, RunDb.workStatement, WorkSystem.act, resting.still.claimWork]
    simp [TicketRun.act, refused]
  · intro claim
    simp [TicketRun.act, resting.hands]

theorem Resting.work {action : WorkAction} {db : RunDb} (resting : Resting s)
    (silent : ∀ id now, action ≠ .fireSubscription id now)
    (recorded : ∀ claim now lease, action = .resumeWaitingWork claim now lease → claim ∈ s.invoked)
    (acted : s.db.act env wf (.work action) = some db) : Still db.work s.invoked := by
  obtain ⟨isCode, after, worker, performed, same⟩ := workStatement_tables acted
  rw [same]
  exact (resting.still.act worker silent recorded performed).still resting.still

theorem Resting.step {action : TicketAction} (resting : Resting s) (alone : Unattended s action)
    (acted : s.step env wf action next) : Resting next := by
  cases action with
  | engine action =>
      simp only [TicketRun.step, TicketRun.act, Option.ite_none_right_eq_some] at acted
      obtain ⟨permitted, acted⟩ := acted
      obtain ⟨db, moved, rfl⟩ := Option.map_eq_some_iff.mp acted
      cases action with
      | complete req now =>
          rw [resting.still.complete_none] at moved
          contradiction
      | decide | pickUp | cancel => exact absurd alone (by simp [Unattended, unattended])
      | work action =>
          have silent : ∀ id now, action ≠ .fireSubscription id now := by
            rintro id now rfl
            simp [Unattended, unattended] at alone
          have recorded : ∀ claim now lease, action = .resumeWaitingWork claim now lease → claim ∈ s.invoked := by
            rintro claim now lease rfl
            simpa [TicketRun.permits] using permitted
          refine ⟨?_, resting.work silent recorded moved⟩
          cases action with
          | claim id worker claimCode now lease =>
              simp [RunDb.act, RunDb.workStatement, WorkSystem.act, resting.still.claimWork] at moved
          | _ => simp [granted?, resting.hands]
  | startWait claim deadline =>
      obtain ⟨db, moved, rfl⟩ := Option.map_eq_some_iff.mp acted
      simp [RunDb.act, RunDb.workStatement, WorkSystem.act, resting.still.startAsyncWait] at moved
  | dispatch claim => simp [TicketRun.step, TicketRun.act, resting.hands] at acted
  | giveUp claim =>
      obtain rfl := Option.some.inj acted
      exact ⟨by simp [resting.hands], resting.still⟩
  | park =>
      simp only [TicketRun.step, TicketRun.act, TicketRun.parkRunForFrozenTicket,
        Option.ite_none_left_eq_some] at acted
      obtain ⟨db, moved, rfl⟩ := Option.map_eq_some_iff.mp acted.2
      exact ⟨resting.hands, resting.work (fun _ _ same => by cases same) (fun _ _ _ same => by cases same) moved⟩

theorem park_eq_some (parked : s.act env wf .park = some next) :
    next = { s with db := { s.db with work := s.db.work.parkFrozen, state := .waiting }, frozen := true } := by
  simp only [TicketRun.act, TicketRun.parkRunForFrozenTicket, Option.ite_none_left_eq_some] at parked
  obtain ⟨db, moved, rfl⟩ := Option.map_eq_some_iff.mp parked.2
  simp only [RunDb.act, RunDb.workStatement, workerStatement, WorkSystem.act, WorkAction.guard?,
    RunDb.freeze] at moved
  split at moved
  · contradiction
  · split at moved
    · contradiction
    · rename_i after performed
      simp only [Option.ite_none_left_eq_some, Option.some.injEq] at performed
      rw [← Option.some.inj moved, ← performed.2]
      rfl

theorem mem_parkFrozen {tables : WorkTables} {item : WorkItem} (member : item ∈ tables.parkFrozen.items) :
    ∃ old ∈ tables.items, item = if (old.state = .ready || old.state = .leased) = true then old.parked else old :=
  Table.mem_update.mp member

theorem Quiet.resting (quiet : Quiet s) (parked : s.act env wf .park = some next) : Resting next := by
  rw [park_eq_some parked]
  refine ⟨quiet.hands, ?_, ?_, ?_⟩
  · intro item member
    obtain ⟨old, isOld, rfl⟩ := mem_parkFrozen member
    split
    · exact ⟨nofun, nofun⟩
    · rename_i other
      simpa using other
  · intro timer member wakes pending item isItem same
    obtain ⟨old, isOld, rfl⟩ := mem_parkFrozen isItem
    have completed := quiet.timers timer member wakes pending old isOld
    split at same
    · rename_i moved
      rw [completed same] at moved
      contradiction
    · rename_i other
      rw [if_neg other]
      exact completed same
  · intro claim onRecord item isItem
    obtain ⟨old, isOld, rfl⟩ := mem_parkFrozen isItem
    have spared := quiet.invocations claim onRecord old isOld
    split
    · rename_i moved
      simp only [Bool.or_eq_true, decide_eq_true_eq] at moved
      rw [Bool.eq_false_iff] at spared ⊢
      intro parkedFor
      refine spared ?_
      simp only [WorkItem.parkedFor, Bool.and_eq_true, decide_eq_true_eq] at parkedFor
      obtain ⟨⟨⟨⟨sameID, _⟩, _⟩, sameToken⟩, sameAttempt⟩ := parkedFor
      have tuple : old.id = claim.work ∧ old.fencingToken = claim.fencingToken ∧ old.attempt = claim.attempt :=
        ⟨sameID, sameToken, sameAttempt⟩
      simpa [leftTo, tuple, or_assoc] using Or.imp_right Or.inl moved
    · rw [Bool.eq_false_iff] at spared ⊢
      intro parkedFor
      refine spared ?_
      simp only [WorkItem.parkedFor, Bool.and_eq_true, decide_eq_true_eq] at parkedFor
      simp [leftTo, parkedFor]

theorem act_work (env : Env) (wf : Workflow) {action : WorkAction} {after : WorkSystem}
    (permitted : s.permits (.work action) = true) (worker : workerStatement action = true)
    (performed : ∀ isCode, (WorkSystem.mk s.db.work s.db.state.terminal).act isCode action = some after) :
    ∃ t, s.act env wf (.engine (.work action)) = some t ∧ t.db.work = after.tables ∧ t.db.state = s.db.state := by
  have unmoved : action ≠ .parkFrozen := by
    rintro rfl
    contradiction
  have unfrozen : ∀ other : RunDb, other.freeze action = other := by
    intro other
    unfold RunDb.freeze
    split
    · contradiction
    · rfl
  have marked : ∀ (other : RunDb) (owner : Nat), (other.markFor action owner).state = other.state := by
    intro other owner
    unfold RunDb.markFor
    split <;> rfl
  cases acted : s.db.workStatement wf action with
  | none => simp [RunDb.workStatement, worker, performed] at acted
  | some db =>
      refine ⟨{ s with db := db, inHand := s.inHand ++ (granted? s.db.work (.work action)).toList }, ?_, ?_, ?_⟩
      · simp only [TicketRun.act, permitted, if_true, RunDb.act, acted, Option.map_some]
      · obtain ⟨isCode, other, _, done, same⟩ := workStatement_tables acted
        rw [performed isCode] at done
        rw [same, ← Option.some.inj done]
      · obtain ⟨_, _, _, _, ⟨_, rfl⟩ | ⟨owner, _, rfl⟩⟩ := RunDb.workStatement_eq_some acted
        · rw [unfrozen]
        · rw [unfrozen, marked]

theorem not_atRest_of_ready {item : WorkItem} (member : item ∈ s.db.work.items) (ready : item.state = .ready)
    (running : s.db.state.terminal = false) : ¬s.AtRest env wf := by
  intro rest
  have refused := rest.1 item.id "worker" true item.availableAt 1
  have claimed : ∀ isCode, ((WorkSystem.mk s.db.work s.db.state.terminal).act isCode
      (.claim item.id "worker" true item.availableAt 1)).isSome = true := by
    intro isCode
    simp only [WorkSystem.act, Option.isSome_map, WorkTables.claimWork, WorkTables.updateItems?]
    rw [if_pos]
    · rfl
    · exact List.any_eq_true.mpr ⟨item, member, by simp [ready, running]⟩
  simp only [TicketRun.act, TicketRun.permits, if_true, Option.map_eq_none_iff, RunDb.act,
    RunDb.workStatement, workerStatement, Bool.not_true, Bool.false_eq_true, if_false] at refused
  split at refused
  · rename_i none
    have some := claimed fun id => (s.db.nodeRun? id).any fun run => decide (wf.kind? run.node = some .code)
    rw [none] at some
    contradiction
  · contradiction

/-- A pending wait or retry timer that is claimed and fired makes the work of its node run ready that is not
completed. -/
theorem fireTimer_wakes {tables : WorkTables} {timer : Timer} {item : WorkItem} (keyed : TimersKeyed tables)
    (isTimer : timer ∈ tables.timers) (wakes : timer.wakes = true) (pending : timer.status = .pending)
    (isItem : item ∈ tables.items) (same : item.nodeRun = timer.nodeRun) (unfinished : item.state ≠ .completed) :
    ∃ fired, (tables.claimTimer timer.id "scheduler" timer.fireAt).fireTimer timer.id "scheduler" 0 = some fired ∧
      item.woken 0 ∈ fired.items := by
  let claimed := tables.claimTimer timer.id "scheduler" timer.fireAt
  let row : Timer := { timer with claimedBy := some "scheduler" }
  have isRow : row ∈ claimed.timers := by
    refine Table.mem_update.mpr ⟨timer, isTimer, ?_⟩
    simp [row, pending]
  have claimedKeyed : TimersKeyed claimed := keyed.update rfl fun _ => rfl
  have found : claimed.timers.find? (fun other => other.id = timer.id &&
      other.claimedBy = some "scheduler" && other.status = .pending) = some row := by
    cases lookup : claimed.timers.find? (fun other => other.id = timer.id &&
        other.claimedBy = some "scheduler" && other.status = .pending) with
    | none => exact absurd (List.find?_eq_none.mp lookup row isRow) (by simp [row, pending])
    | some other =>
        have holds := List.find?_some lookup
        simp only [Bool.and_eq_true, decide_eq_true_eq] at holds
        rw [Table.eq_of_key claimedKeyed (List.mem_of_find?_eq_some lookup) isRow holds.1.1]
  have rowWakes : row.wakes = true := wakes
  cases fires : claimed.fireTimer timer.id "scheduler" 0 with
  | none => simp [WorkTables.fireTimer, found] at fires
  | some fired =>
      refine ⟨fired, rfl, ?_⟩
      simp only [WorkTables.fireTimer, found, rowWakes, if_true, Option.some.injEq] at fires
      rw [← fires]
      refine Table.mem_update.mpr ⟨item, isItem, ?_⟩
      simp [row, same, unfinished]

theorem wakes_of_timer {timer : Timer} {item : WorkItem} (keyed : TimersKeyed s.db.work)
    (running : s.db.state.terminal = false) (isTimer : timer ∈ s.db.work.timers) (wakes : timer.wakes = true)
    (pending : timer.status = .pending) (isItem : item ∈ s.db.work.items)
    (same : item.nodeRun = timer.nodeRun) (unfinished : item.state ≠ .completed) :
    ∃ t, Steps (TicketRun.step env wf) Unattended s t ∧ ¬t.AtRest env wf := by
  obtain ⟨tables, fires, ready⟩ := fireTimer_wakes keyed isTimer wakes pending isItem same unfinished
  have claiming : ∀ isCode, (WorkSystem.mk s.db.work s.db.state.terminal).act isCode
      (.claimTimer timer.id "scheduler" timer.fireAt) =
        some ⟨s.db.work.claimTimer timer.id "scheduler" timer.fireAt, s.db.state.terminal⟩ := fun _ => rfl
  obtain ⟨claimed, first, claimedWork, claimedState⟩ := act_work env wf rfl rfl claiming
  have firing : ∀ isCode, (WorkSystem.mk claimed.db.work claimed.db.state.terminal).act isCode
      (.fireTimer timer.id "scheduler" 0) = some ⟨tables, claimed.db.state.terminal⟩ := by
    intro isCode
    simp only [WorkSystem.act, claimedWork, fires, Option.map_some]
  obtain ⟨fired, second, firedWork, firedState⟩ := act_work env wf rfl rfl firing
  have run : Steps (TicketRun.step env wf) Unattended s fired := by
    refine .tail (.tail .refl ?_ first) ?_ second <;> rfl
  have isReady : item.woken 0 ∈ fired.db.work.items := by
    rw [firedWork]
    exact ready
  refine ⟨fired, run, not_atRest_of_ready isReady rfl ?_⟩
  rw [firedState, claimedState]
  exact running

/-- Work that is resumed for an invocation and left alone is ready when its lease has expired. -/
theorem wakes_of_invocation {claim : Claim} {item : WorkItem} (running : s.db.state.terminal = false)
    (onRecord : claim ∈ s.invoked) (isItem : item ∈ s.db.work.items) (parked : item.parkedFor claim = true) :
    ∃ t, Steps (TicketRun.step env wf) Unattended s t ∧ ¬t.AtRest env wf := by
  let tables := s.db.work.updateItems (·.parkedFor claim) (·.resumed claim.worker 0 1)
  have resuming : ∀ isCode, (WorkSystem.mk s.db.work s.db.state.terminal).act isCode
      (.resumeWaitingWork claim 0 1) = some ⟨tables, s.db.state.terminal⟩ := by
    intro isCode
    simp only [WorkSystem.act, WorkTables.resumeWaitingWork, WorkTables.updateItems?]
    rw [if_pos (List.any_eq_true.mpr ⟨item, isItem, parked⟩)]
    rfl
  have permitted : s.permits (.work (.resumeWaitingWork claim 0 1)) = true := by
    simpa [TicketRun.permits] using onRecord
  obtain ⟨resumed, first, resumedWork, resumedState⟩ := act_work env wf permitted rfl resuming
  have leased : item.resumed claim.worker 0 1 ∈ resumed.db.work.items := by
    rw [resumedWork]
    exact Table.mem_update.mpr ⟨item, isItem, (if_pos parked).symm⟩
  have reclaiming : ∀ isCode, (WorkSystem.mk resumed.db.work resumed.db.state.terminal).act isCode
      (.reclaimExpired 1) =
        some ⟨resumed.db.work.reclaimExpired resumed.db.state.terminal 1, resumed.db.state.terminal⟩ := fun _ => rfl
  obtain ⟨reclaimed, second, reclaimedWork, reclaimedState⟩ := act_work env wf rfl rfl reclaiming
  have ready : (item.resumed claim.worker 0 1).reclaimed 1 ∈ reclaimed.db.work.items := by
    rw [reclaimedWork]
    refine Table.mem_update.mpr ⟨_, leased, ?_⟩
    rw [if_pos]
    simp [WorkItem.resumed, resumedState, running]
  have run : Steps (TicketRun.step env wf) Unattended s reclaimed := by
    refine .tail (.tail .refl ?_ first) ?_ second <;> rfl
  refine ⟨reclaimed, run, not_atRest_of_ready ready rfl ?_⟩
  rw [reclaimedState, resumedState]
  exact running

theorem parkedFor_of_leftTo {claim : Claim} {item : WorkItem} (left : leftTo claim item = true) :
    (if (item.state = .ready || item.state = .leased) = true then item.parked else item).parkedFor claim = true := by
  simp only [leftTo, Bool.and_eq_true, decide_eq_true_eq] at left
  obtain ⟨⟨⟨sameID, sameToken⟩, sameAttempt⟩, state⟩ := left
  split
  · simp [WorkItem.parkedFor, WorkItem.parked, sameID, sameToken, sameAttempt]
  · rename_i other
    simp only [Bool.or_eq_true, decide_eq_true_eq, not_or] at other
    have waiting : item.state = .waiting ∧ item.leaseOwner = none := by simpa [other] using state
    simp [WorkItem.parkedFor, sameID, sameToken, sameAttempt, waiting]

theorem quiet_of_rests (keyed : TimersKeyed s.db.work) (parked : s.act env wf .park = some next)
    (rests : ∀ t, Steps (TicketRun.step env wf) Unattended next t → t.AtRest env wf) : Quiet s := by
  have left := park_eq_some parked
  have running : next.db.state.terminal = false := by
    rw [left]
    rfl
  have nextKeyed : TimersKeyed next.db.work := by
    rw [left]
    exact keyed.congr rfl
  have parkedItem : ∀ item ∈ s.db.work.items,
      (if (item.state = .ready || item.state = .leased) = true then item.parked else item) ∈ next.db.work.items := by
    intro item member
    rw [left]
    exact Table.mem_update_of_mem _ _ member
  refine ⟨?_, ?_, ?_⟩
  · refine List.eq_nil_iff_forall_not_mem.mpr fun claim isHeld => ?_
    have refused := (rests next .refl).2 claim
    rw [left] at refused
    simp [TicketRun.act, isHeld] at refused
  · intro timer isTimer wakes pending item isItem same
    by_contra unfinished
    have nextTimer : timer ∈ next.db.work.timers := by
      rw [left]
      exact isTimer
    obtain ⟨t, run, awake⟩ := wakes_of_timer nextKeyed running nextTimer wakes pending (parkedItem item isItem)
      (by split <;> exact same) (by split <;> simp [unfinished, WorkItem.parked])
    exact awake (rests t run)
  · intro claim onRecord item isItem
    rw [Bool.eq_false_iff]
    intro leftOver
    have nextRecord : claim ∈ next.invoked := by
      rw [left]
      exact onRecord
    obtain ⟨t, run, awake⟩ := wakes_of_invocation running nextRecord (parkedItem item isItem)
      (parkedFor_of_leftTo leftOver)
    exact awake (rests t run)

end Runs

/-- After a park, as long as no signal, no person and no expiry intervenes, no item of the run can be claimed
and no node of it is dispatched, whatever timers, scheduler, workers and callbacks do: exactly when the run
was quiet. -/
theorem rests_iff_quiet {env : Env} {wf : Workflow} {s next : TicketRun} (reached : Reaches env wf anyAction s.db)
    (parked : s.act env wf .park = some next) :
    (∀ t, Steps (TicketRun.step env wf) Unattended next t → t.AtRest env wf) ↔ Quiet s := by
  constructor
  · exact quiet_of_rests (TimersKeyed.of_reaches reached) parked
  · intro quiet t run
    have resting : Resting t :=
      run.invariant Resting (quiet.resting parked) fun _ _ _ resting alone acted => resting.step alone acted
    exact resting.atRest

/-- A run that waits a while and ends. -/
def cooldown : Workflow where
  entry := "cooldown"
  nodes := [{ id := "cooldown", kind := .wait, outcomes := ["elapsed"] }, { id := "done", kind := .endNode }]
  edges := [{ source := "cooldown.elapsed", fromNode := "cooldown", fromOutcome := "elapsed", target := "done" }]

theorem park_goes_through (env : Env) (wf : Workflow) {s : TicketRun} (running : s.db.state = .running) :
    ∃ next, s.act env wf .park = some next := by
  refine ⟨{ s with db := { s.db with work := s.db.work.parkFrozen, state := .waiting }, frozen := true }, ?_⟩
  simp [TicketRun.act, TicketRun.parkRunForFrozenTicket, RunDb.act, RunDb.workStatement, workerStatement,
    WorkSystem.act, WorkAction.guard?, RunDb.freeze, running, RunState.terminal]

/-- Its first item is still ready when the ticket is frozen. -/
theorem rests_iff_quiet_unclaimed :
    ∃ s next : TicketRun, Reaches Env.permissive cooldown anyAction s.db ∧
      s.act Env.permissive cooldown .park = some next ∧
      s.db.work.items = [⟨2, 1, .ready, none, none, 0, 0, 0, 0⟩] ∧
      ∀ t, Steps (TicketRun.step Env.permissive cooldown) Unattended next t → t.AtRest Env.permissive cooldown := by
  have ran : (replay Env.permissive cooldown (fun _ _ => true) []).map (fun db => (db.state, db.work)) =
      some (.running, { items := [⟨2, 1, .ready, none, none, 0, 0, 0, 0⟩] }) := by
    decide +kernel
  obtain ⟨db, reached, seen⟩ := Option.map_eq_some_iff.mp ran
  obtain ⟨state, work⟩ := Prod.mk.inj seen
  have reaches : Reaches Env.permissive cooldown anyAction db := .of_replay (fun _ _ _ => trivial) reached
  let frozen : TicketRun := ⟨db, false, [], []⟩
  obtain ⟨next, parked⟩ := park_goes_through Env.permissive cooldown (show frozen.db.state = .running from state)
  refine ⟨frozen, next, reaches, parked, congrArg WorkTables.items work,
    (rests_iff_quiet reaches parked).mpr ⟨rfl, ?_, ?_⟩⟩
  · intro timer isTimer
    rw [show frozen.db.work.timers = [] from congrArg WorkTables.timers work] at isTimer
    contradiction
  · exact fun _ onRecord => nomatch onRecord

/-- It waits for its timer when the ticket is frozen, and the timer wakes it all the same. -/
theorem frozen_wait_wakes :
    ∃ s next : TicketRun, Reaches Env.permissive cooldown anyAction s.db ∧
      s.act Env.permissive cooldown .park = some next ∧
      ¬∀ t, Steps (TicketRun.step Env.permissive cooldown) Unattended next t → t.AtRest Env.permissive cooldown := by
  have ran : (replay Env.permissive cooldown (fun _ _ => true)
      [.work (.claim 2 "worker" true 0 1), .work (.startDurableWait ⟨2, "worker", 1, 1⟩ 9 60)]).map
        (fun db => (db.state, db.work)) =
      some (.running,
        { items := [⟨2, 1, .waiting, none, none, 1, 1, 0, 2⟩]
          timers := [⟨9, 1, .wait, 60, .pending, none⟩] }) := by
    decide +kernel
  obtain ⟨db, reached, seen⟩ := Option.map_eq_some_iff.mp ran
  obtain ⟨state, work⟩ := Prod.mk.inj seen
  have reaches : Reaches Env.permissive cooldown anyAction db := .of_replay (fun _ _ _ => trivial) reached
  let frozen : TicketRun := ⟨db, false, [], []⟩
  obtain ⟨next, parked⟩ := park_goes_through Env.permissive cooldown (show frozen.db.state = .running from state)
  refine ⟨frozen, next, reaches, parked, fun rests => ?_⟩
  have quiet : Quiet frozen := quiet_of_rests (TimersKeyed.of_reaches reaches) parked rests
  have completed := quiet.timers
  rw [show frozen.db.work = _ from work] at completed
  simp [Timer.wakes] at completed

end CultureNodes.TicketFreeze
