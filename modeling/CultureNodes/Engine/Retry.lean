import CultureNodes.Engine.Attempts
import CultureNodes.Engine.Refine

/-!
The retry budget. A node run's attempts are numbered by all the rows it has, so a correction takes a
number that a dispatch would have had, and the number is what the budget is compared with.
-/

namespace CultureNodes.Engine

open Store (WorkAction)

namespace RunDb

variable {db next : RunDb}

@[simp] theorem dispatchNode_attempts (node : Node) (run now : Nat) :
    (db.dispatchNode node run now).attempts = db.attempts := by
  unfold dispatchNode
  split <;> rfl

@[simp] theorem startNode_attempts (node : Node) (parent group : Option Nat)
    (originEvent : Option String) (now : Nat) :
    (db.startNode node parent group originEvent now).attempts = db.attempts :=
  dispatchNode_attempts _ _ _

@[simp] theorem gather_attempts (join : Node) (token group : Nat) (fromNode outcome : String)
    (output : Payload) : (db.gather join token group fromNode outcome output).attempts = db.attempts := by
  unfold gather joinBarrier
  split <;> rfl

@[simp] theorem fireBarrier_attempts (barrier : NodeRun) (group : Nat) (early : Bool) (now : Nat) :
    (db.fireBarrier barrier group early now).attempts = db.attempts := by
  unfold fireBarrier
  cases early <;> rfl

theorem markFor_attempts (action : WorkAction) (nodeRun : Nat) :
    (db.markFor action nodeRun).attempts = db.attempts := by
  unfold markFor
  split <;> rfl

theorem workStatement_attempts {wf : Workflow} {action : WorkAction}
    (done : db.workStatement wf action = some next) : next.attempts = db.attempts := by
  have frozen : ∀ other : RunDb, (other.freeze action).attempts = other.attempts := by
    intro other
    unfold freeze
    split <;> rfl
  unfold workStatement at done
  split at done
  · contradiction
  · dsimp only at done
    split at done
    · contradiction
    · rw [← Option.some.inj done, frozen]
      split
      · rfl
      · exact markFor_attempts _ _

theorem cancelRunGuarded_attempts {parkedAt detail : String}
    (done : db.cancelRunGuarded parkedAt detail = some next) : next.attempts = db.attempts := by
  rw [← cancelRunGuarded_eq_some done]
  rfl

end RunDb

section

variable {env : Env} {wf : Workflow} {strict calm : Prop} {here there : Hand × RunDb}

/-- What follows in a transaction once its node run has ended records no attempt. -/
theorem Busy.attempts {own : Nat} (busy : Busy wf strict calm own here there) : there.2.attempts = here.2.attempts := by
  induction busy with
  | refl => rfl
  | tail _ step ih =>
      obtain ⟨held, turn, _⟩ := step
      refine Eq.trans ?_ ih
      cases turn with
      | note | work | hold | retry | pickUp | cancel | finish => exact absurd rfl held
      | put | putBranch => exact RunDb.startNode_attempts _ _ _ _ _
      | reachEnd => rfl
      | arrive => exact RunDb.gather_attempts _ _ _ _ _ _
      | split => rfl
      | arriveBranch => exact RunDb.gather_attempts _ _ _ _ _ _
      | spread => rfl
      | fire => exact RunDb.fireBarrier_attempts _ _ _ _
      | settled => rfl
      | abandon => rfl
      | refinish => rfl
      | reap => rfl
      | retire => rfl
      | conclude => rfl

variable {db next : RunDb}

theorem pickUpRoute_attempts {route now : Nat} {event : PickupEvent}
    (picked : pickUpRoute env wf db route event now = some next) : next.attempts = db.attempts := by
  unfold pickUpRoute at picked
  split at picked
  · contradiction
  · have done := toOption_some picked
    unfold pickUpEvent at done
    split at done
    · rw [Except.ok.inj done]
    · split at done
      · contradiction
      · split at done
        · contradiction
        · split at done
          · rw [Except.ok.inj done]
          · rw [← Except.ok.inj done]
            exact RunDb.startNode_attempts _ _ _ _ _

theorem act_attempts {action : Action} (standing : Standing wf (.idle, db))
    (acted : db.act env wf action = some next) :
    next.attempts = ((action.prepare env wf db).map (·.db.attempts)).getD db.attempts := by
  have carried : ∀ {prepared : Prepared},
      (Turns wf False False (.idle, db) (.idle, prepared.db) ∧ prepared.Ready wf False) →
      prepared.carryOut env wf = .ok next → next.attempts = prepared.db.attempts := by
    rintro prepared ⟨turns, ready⟩ done
    rcases ready.carryOut_ends (Turns.standing turns standing) False.elim False.elim False.elim done with
      ends | ⟨availableAt, _, rfl⟩
    · obtain ⟨_, _, _, _, _, _, busy⟩ := ends.carried
      exact Busy.attempts busy
    · rfl
  cases action with
  | complete req now =>
      obtain ⟨prepared, isPrepared, done⟩ := completeAttempt_ok (toOption_some acted)
      rw [carried (CompletionRequest.prepare_ready standing.keyed False.elim isPrepared) done, Action.prepare,
        isPrepared]
      rfl
  | decide req now =>
      obtain ⟨prepared, isPrepared, done⟩ := decideHumanTask_ok (toOption_some acted)
      rw [carried (DecisionRequest.prepare_ready standing.keyed False.elim isPrepared) done, Action.prepare,
        isPrepared]
      rfl
  | pickUp route event now => exact pickUpRoute_attempts acted
  | cancel parkedAt detail => exact RunDb.cancelRunGuarded_attempts acted
  | work action => exact RunDb.workStatement_attempts acted

end

/-- The row as the engine reads it. -/
def AttemptRow.attempt (row : AttemptRow) : Attempt := ⟨row.nodeRun, row.number, row.status⟩

def jsonOrNull (raw : Payload) : Payload := if raw = "" then "null" else raw

def CompletionRequest.attemptRow (req : CompletionRequest) (id : Nat) (startedAt : Option Nat)
    (now : Nat) (attempt : Attempt) : AttemptRow where
  id := id
  nodeRun := attempt.nodeRun
  number := attempt.number
  status := attempt.status
  fencingToken := req.claim.fencingToken
  result := some (jsonOrNull req.output)
  startedAt := startedAt
  completedAt := now

/-- A run with its attempts table in full. -/
structure AttemptedRun where
  db : RunDb
  rows : List AttemptRow := []
deriving DecidableEq, Repr

/-- A transaction on the run, or a late report that is recorded. A completion's row gets the id and
the start that it is given; a report has looked up what it corrects in `seen`. -/
inductive AttemptAction where
  | run (action : Action) (id : Nat) (startedAt : Option Nat)
  | late (report : LateReport) (seen : List AttemptRow) (id now raced : Nat)
deriving DecidableEq, Repr

section

variable (env : Env) (wf : Workflow)

/-- The row of the attempt that an action is about to record. -/
def Action.attemptRow? (db : RunDb) (id : Nat) (startedAt : Option Nat) : Action → Option AttemptRow
  | .complete req now =>
      ((Action.complete req now).prepare env wf db).bind fun prepared =>
        prepared.db.attempts.getLast?.map (req.attemptRow id startedAt now)
  | _ => none

namespace AttemptedRun

def act (s : AttemptedRun) : AttemptAction → Option AttemptedRun
  | .run action id startedAt =>
      (s.db.act env wf action).map fun next =>
        ⟨next, s.rows ++ (action.attemptRow? env wf s.db id startedAt).toList⟩
  | .late report seen id now raced =>
      (report.recordSupersedingAttempt seen s.rows id now raced).toOption.map fun recorded =>
        ⟨{ s.db with attempts := recorded.2.map AttemptRow.attempt }, recorded.2⟩

def step (s : AttemptedRun) (action : AttemptAction) (t : AttemptedRun) : Prop :=
  s.act env wf action = some t

/-- The states of a run, from its creation on, with every history of its dispatches and late reports. -/
def Reaches (s : AttemptedRun) : Prop :=
  ∃ input now created, createRun env wf input now = .ok created ∧
    Steps (step env wf) anyAction ⟨created, []⟩ s

end AttemptedRun

end

def completions (rows : List AttemptRow) (nodeRun : Nat) : Nat :=
  rows.countP fun row => row.nodeRun = nodeRun && row.delivery.isNone

/-- The rows that late reports have left it. -/
def corrections (rows : List AttemptRow) (nodeRun : Nat) : Nat :=
  rows.countP fun row => row.nodeRun = nodeRun && row.delivery.isSome

theorem DecisionRequest.prepare_attempts {wf : Workflow} {req : DecisionRequest} {db : RunDb} {now : Nat}
    {prepared : Prepared} (isPrepared : req.prepare wf db now = .ok prepared) :
    prepared.db.attempts = db.attempts := by
  obtain ⟨_, _, _, _, _, _, _, _, _, _, rfl⟩ := DecisionRequest.prepare_ok isPrepared
  rfl

/-- The completion is prepared to make the same node run ready again. -/
def Prepared.retries (prepared : Prepared) : Bool :=
  match prepared.resolution with
  | .retry _ => true
  | _ => false

theorem CompletionRequest.resolve_retries {env : Env} {wf : Workflow} (req : CompletionRequest)
    {node : Node} {status : TechStatus} {number now : Nat} {rejected : Option String}
    (retryable : status.retryable = true) (plain : req.refusalOutcome = "")
    (allowed : req.retryRefusedBy status = "") :
    (match req.resolve env wf node status number now rejected with
      | .retry _ => true
      | _ => false) = true ↔ number < node.retry.maxAttempts := by
  have failing : req.resolve env wf node status number now rejected =
      req.failOrRetry env wf node status number now rejected := by
    cases status with
    | succeeded | cancelled | policyDenied => contradiction
    | failed | timedOut | contractRejected => rfl
  rw [failing, CompletionRequest.failOrRetry]
  by_cases within : number < node.retry.maxAttempts
  · simp [plain, retryable, within, allowed]
  · simp only [plain, ne_eq, not_true_eq_false, if_false, within, decide_false, Bool.and_false,
      Bool.false_eq_true, false_and]
    cases wf.hasEdgeFrom node.id status.text <;> simp

/-- A technical failure that may be retried, with nothing that fences it off: no refusal of its own
name and no veto over the retry. -/
def CompletionRequest.unfenced (req : CompletionRequest) (prepared : Prepared) : Bool :=
  prepared.db.attempts.getLast?.any fun attempt => attempt.status.retryable &&
    req.refusalOutcome = "" && req.retryRefusedBy attempt.status = ""

section

variable {env : Env} {wf : Workflow} {rows : List AttemptRow} {row : AttemptRow}

theorem nextNumber_concat (nodeRun : Nat) : nextNumber (rows ++ [row]) nodeRun =
    if row.nodeRun = nodeRun then max (nextNumber rows nodeRun) (row.number + 1)
    else nextNumber rows nodeRun := by
  unfold nextNumber
  by_cases same : row.nodeRun = nodeRun
  · rw [if_pos same, List.filter_append, List.filter_singleton, decide_eq_true same, cond_true,
      List.map_append, List.map_singleton, List.foldl_append, List.foldl_cons, List.foldl_nil]
    omega
  · simp [List.filter_append, same]

theorem rows_eq (nodeRun : Nat) :
    (rows.countP fun row => row.nodeRun = nodeRun) = completions rows nodeRun + corrections rows nodeRun := by
  unfold completions corrections
  induction rows with
  | nil => rfl
  | cons row rest ih =>
      rw [List.countP_cons, List.countP_cons, List.countP_cons, ih]
      cases row.delivery <;> by_cases same : row.nodeRun = nodeRun <;> simp [same] <;> omega

/-- What holds of every run with its attempts: the engine reads the rows that are there, and the
attempts of a node run are numbered without a gap. -/
structure Numbered (wf : Workflow) (s : AttemptedRun) : Prop where
  standing : Standing wf (.idle, s.db)
  sameRows : s.db.attempts = s.rows.map AttemptRow.attempt
  dense : ∀ nodeRun, nextNumber s.rows nodeRun = (s.rows.countP fun row => row.nodeRun = nodeRun) + 1

theorem dense_concat
    (dense : ∀ nodeRun, nextNumber rows nodeRun = (rows.countP fun row => row.nodeRun = nodeRun) + 1)
    (next : row.number = nextNumber rows row.nodeRun) (nodeRun : Nat) :
    nextNumber (rows ++ [row]) nodeRun =
      ((rows ++ [row]).countP fun row => row.nodeRun = nodeRun) + 1 := by
  rw [nextNumber_concat, List.countP_append, List.countP_singleton]
  by_cases same : row.nodeRun = nodeRun
  · rw [if_pos same, if_pos (decide_eq_true same), next, same, dense]
    omega
  · rw [if_neg same, if_neg (by simpa using same), dense]

namespace Numbered

variable {s t : AttemptedRun} (numbered : Numbered wf s)

include numbered

theorem nextAttemptNumber (nodeRun : Nat) : s.db.nextAttemptNumber nodeRun = nextNumber s.rows nodeRun := by
  unfold RunDb.nextAttemptNumber nextNumber
  rw [numbered.sameRows, List.filter_map, List.map_map]
  rfl

theorem prepared_attempts {req : CompletionRequest} {now : Nat} {prepared : Prepared}
    (isPrepared : req.prepare env wf s.db now = .ok prepared) :
    ∃ status, prepared.db.attempts = s.db.attempts ++
      [⟨prepared.mover.nodeRun.id, nextNumber s.rows prepared.mover.nodeRun.id, status⟩] ∧
      ∃ rejected, prepared.resolution = req.resolve env wf prepared.mover.node status
        (nextNumber s.rows prepared.mover.nodeRun.id) now rejected := by
  obtain ⟨_, run, _, status, rejected, _, _, _, _, _, _, rfl⟩ := CompletionRequest.prepare_ok isPrepared
  have sameNumber := numbered.nextAttemptNumber run.id
  exact ⟨status, by rw [← sameNumber]; rfl, rejected, by rw [← sameNumber]⟩

theorem late {report : LateReport} {seen after : List AttemptRow} {id now raced : Nat}
    {answer : SupersedingAttempt}
    (recorded : report.recordSupersedingAttempt seen s.rows id now raced = .ok (answer, after)) :
    Numbered wf ⟨{ s.db with attempts := after.map AttemptRow.attempt }, after⟩ := by
  have noted : Turn wf False False (.idle, s.db)
      (.idle, { s.db with attempts := after.map AttemptRow.attempt }) := .note _ _
  refine ⟨noted.standing numbered.standing, rfl, ?_⟩
  rcases LateReport.recordSupersedingAttempt_ok recorded with ⟨rfl, _⟩ | ⟨rfl, _⟩
  · exact numbered.dense
  · exact dense_concat numbered.dense rfl

theorem attemptRow?_cases (env : Env) (action : Action) (id : Nat) (startedAt : Option Nat) :
    (action.attemptRow? env wf s.db id startedAt = none ∧
        ((action.prepare env wf s.db).map (·.db.attempts)).getD s.db.attempts = s.db.attempts) ∨
      ∃ row, action.attemptRow? env wf s.db id startedAt = some row ∧
        row.number = nextNumber s.rows row.nodeRun ∧
        ((action.prepare env wf s.db).map (·.db.attempts)).getD s.db.attempts =
          s.db.attempts ++ [row.attempt] := by
  cases action with
  | complete req now =>
      cases isPrepared : (Action.complete req now).prepare env wf s.db with
      | none => exact Or.inl ⟨by simp [Action.attemptRow?, isPrepared], rfl⟩
      | some prepared =>
          obtain ⟨status, attempts, _⟩ := numbered.prepared_attempts (toOption_some isPrepared)
          refine Or.inr ⟨req.attemptRow id startedAt now
            ⟨prepared.mover.nodeRun.id, nextNumber s.rows prepared.mover.nodeRun.id, status⟩, ?_, rfl, ?_⟩
          · simp [Action.attemptRow?, isPrepared, attempts]
          · exact attempts
  | decide req now =>
      refine Or.inl ⟨rfl, ?_⟩
      cases isPrepared : (Action.decide req now).prepare env wf s.db with
      | none => rfl
      | some prepared => exact DecisionRequest.prepare_attempts (toOption_some isPrepared)
  | pickUp route event now => exact Or.inl ⟨rfl, rfl⟩
  | cancel parkedAt detail => exact Or.inl ⟨rfl, rfl⟩
  | work action => exact Or.inl ⟨rfl, rfl⟩

theorem run {action : Action} {id : Nat} {startedAt : Option Nat} {next : RunDb}
    (acted : s.db.act env wf action = some next) :
    Numbered wf ⟨next, s.rows ++ (action.attemptRow? env wf s.db id startedAt).toList⟩ := by
  have turns : Turns wf False False (.idle, s.db) (.idle, next) :=
    act_turns numbered.standing False.elim False.elim False.elim acted
  have attempts := act_attempts numbered.standing acted
  have stands : Standing wf (.idle, next) := Turns.standing turns numbered.standing
  rcases numbered.attemptRow?_cases env action id startedAt with ⟨isNone, same⟩ | ⟨row, isRow, numberedNext, same⟩
  · rw [isNone, Option.toList_none, List.append_nil]
    exact ⟨stands, (attempts.trans same).trans numbered.sameRows, numbered.dense⟩
  · rw [isRow]
    refine ⟨stands, (attempts.trans same).trans ?_, dense_concat numbered.dense numberedNext⟩
    rw [numbered.sameRows, Option.toList_some, List.map_append, List.map_singleton]

theorem act {action : AttemptAction} (acted : s.act env wf action = some t) : Numbered wf t := by
  cases action with
  | run action id startedAt =>
      obtain ⟨next, ran, rfl⟩ := Option.map_eq_some_iff.mp acted
      exact numbered.run ran
  | late report seen id now raced =>
      obtain ⟨⟨answer, after⟩, recorded, rfl⟩ := Option.map_eq_some_iff.mp acted
      exact numbered.late (toOption_some recorded)

end Numbered

theorem createRun_attempts {input : Payload} {now : Nat} {db : RunDb}
    (made : createRun env wf input now = .ok db) : db.attempts = [] := by
  obtain ⟨_, _, _, _, _, _, rfl⟩ := createRun_ok made
  exact RunDb.dispatchNode_attempts _ _ _

theorem AttemptedRun.Reaches.numbered {s : AttemptedRun} (reaches : AttemptedRun.Reaches env wf s) :
    Numbered wf s := by
  obtain ⟨input, now, created, made, steps⟩ := reaches
  refine steps.invariant (Numbered wf) ⟨(createRun_created made).standing, createRun_attempts made, ?_⟩ ?_
  · exact fun _ => rfl
  · exact fun _ _ _ numbered _ acted => numbered.act acted

/-- In every state of a run, whatever its dispatches and late reports were: an unfenced failure is
retried exactly while completions have used up less than the budget, if and only if its corrections do
not carry the attempt's number over the budget before the completions do. -/
theorem retries_within_budget_iff {s : AttemptedRun} {req : CompletionRequest} {now : Nat}
    {prepared : Prepared} (reaches : AttemptedRun.Reaches env wf s)
    (isPrepared : req.prepare env wf s.db now = .ok prepared) (unfenced : req.unfenced prepared = true) :
    (prepared.retries = true ↔
        completions s.rows prepared.mover.nodeRun.id + 1 < prepared.mover.node.retry.maxAttempts) ↔
      (prepared.mover.node.retry.maxAttempts ≤ completions s.rows prepared.mover.nodeRun.id + 1 ∨
        completions s.rows prepared.mover.nodeRun.id + corrections s.rows prepared.mover.nodeRun.id + 1 <
          prepared.mover.node.retry.maxAttempts) := by
  have numbered := reaches.numbered
  obtain ⟨status, attempts, rejected, resolution⟩ := numbered.prepared_attempts isPrepared
  have number : nextNumber s.rows prepared.mover.nodeRun.id = _ := numbered.dense _
  rw [rows_eq] at number
  have failed : status.retryable = true ∧ req.refusalOutcome = "" ∧ req.retryRefusedBy status = "" := by
    simpa [CompletionRequest.unfenced, attempts, and_assoc] using unfenced
  have retries : prepared.retries = true ↔
      nextNumber s.rows prepared.mover.nodeRun.id < prepared.mover.node.retry.maxAttempts := by
    rw [Prepared.retries, resolution, req.resolve_retries failed.1 failed.2.1 failed.2.2]
  rw [retries, number]
  omega

end

/-- One node that may be attempted three times. -/
def threeTries : Workflow where
  entry := "work"
  nodes := [{ id := "work", kind := .agent, outcomes := ["done"], retry := { maxAttempts := 3 } }]
  edges := []

/-- A worker claims an item for the first time, and its attempt fails. -/
def failsOnce (work id : Nat) : List AttemptAction :=
  [.run (.work (.claim work "worker" true 0 1)) 0 none,
    .run (.complete ⟨⟨work, "worker", 1, 1⟩, .failed, "", "", "", .unknown, "null"⟩ 0) id none]

/-- The report of a session whose attempt is recorded as failed. -/
def lateFailure : LateReport where
  invocation := { attemptID := "session", nodeRun := 1, fencingToken := 1 }
  eventID := "event"
  status := some .failed

/-- What its row says. -/
def firstFailure : AttemptRow where
  id := 10
  nodeRun := 1
  number := 1
  status := .failed
  fencingToken := 1
  result := some "null"
  completedAt := 0

/-- The failure that a claimed item is about to report. -/
def nextFailure (work : Nat) : CompletionRequest :=
  ⟨⟨work, "worker", 1, 1⟩, .failed, "", "", "", .unknown, "null"⟩

/-- A new run of the three tries, taken through a list of actions up to a failure that is prepared. -/
def failing (actions : List AttemptAction) (work : Nat) : Option (AttemptedRun × Prepared) :=
  (createRun Env.permissive threeTries "null" 0).toOption.bind fun created =>
    (Steps.ofList (fun s action => s.act Env.permissive threeTries action) (fun _ _ => true)
      ⟨created, []⟩ actions).bind fun s =>
      ((nextFailure work).prepare Env.permissive threeTries s.db 0).toOption.map (s, ·)

theorem failing_reaches {actions : List AttemptAction} {work : Nat} {s : AttemptedRun}
    {prepared : Prepared} (ran : failing actions work = some (s, prepared)) :
    AttemptedRun.Reaches Env.permissive threeTries s ∧
      (nextFailure work).prepare Env.permissive threeTries s.db 0 = .ok prepared := by
  unfold failing at ran
  simp only [Option.bind_eq_some_iff, Option.map_eq_some_iff, Prod.mk.injEq] at ran
  obtain ⟨created, made, reached, steps, other, isPrepared, rfl, rfl⟩ := ran
  exact ⟨⟨"null", 0, created, toOption_some made, Steps.of_ofList (fun _ _ _ => trivial) steps⟩,
    toOption_some isPrepared⟩

/-- A second failure, with no late report before it. -/
theorem retries_second_failure :
    ∃ s prepared, AttemptedRun.Reaches Env.permissive threeTries s ∧
      (nextFailure 3).prepare Env.permissive threeTries s.db 0 = .ok prepared ∧
      (prepared.retries = true ↔ completions s.rows 1 + 1 < 3) := by
  have ran : (failing (failsOnce 2 10 ++ [AttemptAction.run (.work (.claim 3 "worker" true 0 1)) 0 none]) 3).map
      (fun pair => ((nextFailure 3).unfenced pair.2, pair.2.mover.nodeRun.id,
        pair.2.mover.node.retry.maxAttempts, completions pair.1.rows 1, corrections pair.1.rows 1)) =
      some (true, 1, 3, 1, 0) := by decide +kernel
  obtain ⟨⟨s, prepared⟩, isFailing, facts⟩ := Option.map_eq_some_iff.mp ran
  simp only [Prod.mk.injEq] at facts
  obtain ⟨unfenced, nodeRun, budget, completed, corrected⟩ := facts
  obtain ⟨reaches, isPrepared⟩ := failing_reaches isFailing
  refine ⟨s, prepared, reaches, isPrepared, ?_⟩
  have rightly := retries_within_budget_iff reaches isPrepared unfenced
  rw [nodeRun, budget, completed, corrected] at rightly
  rw [completed]
  exact rightly.mpr (Or.inr (by decide))

/-- The first session's late report takes the second number, so the second failure is not retried. -/
theorem late_report_uses_up_retry :
    ∃ s prepared, AttemptedRun.Reaches Env.permissive threeTries s ∧
      (nextFailure 3).prepare Env.permissive threeTries s.db 0 = .ok prepared ∧
      (nextFailure 3).unfenced prepared = true ∧ prepared.mover.nodeRun.id = 1 ∧
      prepared.mover.node.retry.maxAttempts = 3 ∧ completions s.rows 1 + 1 = 2 ∧
      prepared.retries = false := by
  have ran : (failing (failsOnce 2 10 ++ [AttemptAction.late lateFailure [firstFailure] 20 5 0,
      .run (.work (.claim 3 "worker" true 0 1)) 0 none]) 3).map
      (fun pair => ((nextFailure 3).unfenced pair.2, pair.2.mover.nodeRun.id,
        pair.2.mover.node.retry.maxAttempts, completions pair.1.rows 1 + 1, pair.2.retries)) =
      some (true, 1, 3, 2, false) := by decide +kernel
  obtain ⟨⟨s, prepared⟩, isFailing, facts⟩ := Option.map_eq_some_iff.mp ran
  simp only [Prod.mk.injEq] at facts
  obtain ⟨reaches, isPrepared⟩ := failing_reaches isFailing
  exact ⟨s, prepared, reaches, isPrepared, facts⟩

end CultureNodes.Engine
