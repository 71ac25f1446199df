import Mathlib.Data.List.MinMax
import CultureNodes.Engine.TriggerEvent

/-!
The end of a run and the queue it drains. The drain runs in the transaction that ends the run and
creates a run of another subject there, so whatever keeps that run from being created rolls the ending
back, and does so again on every later try.
-/

namespace CultureNodes.Engine

/-- The engine's transactions that can end a run. -/
inductive Request where
  | complete (req : CompletionRequest)
  | decide (req : DecisionRequest)
deriving DecidableEq, Repr

def Request.transact (env : Env) (wf : Workflow) (now : Nat) (db : RunDb) :
    Request → Except EngineError RunDb
  | .complete req => completeAttempt env wf now db req
  | .decide req => decideHumanTask env wf now db req

namespace Hosted

variable (hosted : Hosted)

def setRows (id : Nat) (rows : RunDb) : Hosted :=
  { hosted with runs := Table.update hosted.runs (·.id = id) fun run => { run with rows := rows } }

/-- The same namespace with nothing deferred. -/
def undeferred : Hosted := { hosted with deferred := [] }

variable (tenv : TriggerEnv) (oldest : OldestQuery) (env : Env) (now : Nat)

/-- One transaction on a run of the namespace. Every write of a terminal run state is followed by the
drain, and nothing after it fails on what the queue holds. -/
def commit (definition : Definition) (run : HostedRun) (request : Request) :
    Except EngineError (RunDb × Hosted) :=
  match request.transact env definition.workflow now run.rows with
  | .error error => .error error
  | .ok rows =>
      let stored := hosted.setRows run.id rows
      if rows.state.terminal then
        (drainSubjectTriggerQueue tenv oldest now definition run.key run.subject stored).map (rows, ·)
      else .ok (rows, stored)

end Hosted

/-- The entry's pinned version loads, and its run can be created from the entry's event. -/
def startable (tenv : TriggerEnv) (entry : DeferredTrigger) : Bool :=
  match tenv.load entry.version with
  | .error _ => false
  | .ok pinned => (resolveAffinity tenv pinned entry.fact.toPickupEvent).isOk &&
      entry.version.key ≠ "" && entry.version.digest ≠ ""

section

variable {tenv : TriggerEnv} {oldest : OldestQuery} {env : Env} {now : Nat} {hosted : Hosted}
  {definition : Definition}

theorem createRun_permissive (definition : Definition) (input : Payload) :
    ∃ rows, createRun Env.permissive definition.workflow input now = .ok rows := by
  obtain ⟨entry, declared⟩ := Option.isSome_iff_exists.mp definition.entryDeclared
  simp only [createRun, Env.permissive, declared]
  exact ⟨_, rfl⟩

theorem createTriggeredRun_isOk {version : TriggerWorkflow} {fact : TriggerFact} :
    (createTriggeredRun tenv now hosted definition version fact).isOk =
      ((resolveAffinity tenv definition fact.toPickupEvent).isOk && version.key ≠ "" &&
        version.digest ≠ "") := by
  unfold createTriggeredRun
  cases resolveAffinity tenv definition fact.toPickupEvent with
  | error reason => rfl
  | ok affinity =>
      obtain ⟨rows, created⟩ := @createRun_permissive now definition fact.payload
      by_cases named : version.key = ""
      · simp [named, Except.isOk, Except.toBool]
      · by_cases digested : version.digest = "" <;>
          simp [named, digested, created, Except.isOk, Except.toBool]

theorem drainSubjectTriggerQueue_isOk {key subject : String} :
    (drainSubjectTriggerQueue tenv oldest now definition key subject hosted).isOk = true ↔
      (subject = "" ∨ definition.maxConcurrentSubjectRuns = 0) ∨
        ∀ entry, oldest.row (hosted.deferred.filter (·.version.key = key)) = some entry →
          startable tenv entry = true := by
  unfold drainSubjectTriggerQueue
  by_cases idle : subject = "" ∨ definition.maxConcurrentSubjectRuns = 0
  · rw [if_pos idle]
    exact ⟨fun _ => Or.inl idle, fun _ => rfl⟩
  · rw [if_neg idle]
    cases picked : oldest.row (hosted.deferred.filter (·.version.key = key)) with
    | none => simp [Except.isOk, Except.toBool]
    | some entry =>
        simp only [idle, false_or, Option.some.injEq, forall_eq', startable]
        cases tenv.load entry.version with
        | error reason => simp [Except.isOk, Except.toBool]
        | ok pinned => rw [isOk_map, createTriggeredRun_isOk]

/-- A transaction that ends the run commits, whatever is deferred, exactly when its own drain goes
through. -/
theorem commit_isOk {run : HostedRun} {request : Request} {rows : RunDb}
    (transacted : request.transact env definition.workflow now run.rows = .ok rows)
    (ends : rows.state.terminal = true) :
    (hosted.commit tenv oldest env now definition run request).isOk = true ↔
      (run.subject = "" ∨ definition.maxConcurrentSubjectRuns = 0) ∨
        ∀ entry, oldest.row (hosted.deferred.filter (·.version.key = run.key)) = some entry →
          startable tenv entry = true := by
  simp only [Hosted.commit, transacted, ends, if_true]
  rw [isOk_map, drainSubjectTriggerQueue_isOk]
  rfl

/-- A completion or decision that ends its run, and that commits with nothing deferred, commits exactly
when there is nothing to drain or the oldest entry of the workflow's queue can be started. -/
theorem ending_commits_iff {run : HostedRun} {request : Request} {after : RunDb × Hosted}
    (alone : hosted.undeferred.commit tenv oldest env now definition run request = .ok after)
    (ends : after.1.state.terminal = true) :
    (∃ result, hosted.commit tenv oldest env now definition run request = .ok result) ↔
      run.subject = "" ∨ definition.maxConcurrentSubjectRuns = 0 ∨
        ∀ entry, oldest.row (hosted.deferred.filter (·.version.key = run.key)) = some entry →
          startable tenv entry = true := by
  cases transacted : request.transact env definition.workflow now run.rows with
  | error error => simp [Hosted.commit, transacted] at alone
  | ok rows =>
      have sameRows : after.1 = rows := by
        simp only [Hosted.commit, transacted] at alone
        split at alone
        · obtain ⟨drained, _, same⟩ := map_eq_ok alone
          rw [← same]
        · rw [← Except.ok.inj alone]
      rw [sameRows] at ends
      rw [← or_assoc, ← commit_isOk transacted ends]
      exact isOk_iff.symm

end

/-- The first of the oldest rows, in the order of the table. -/
def OldestQuery.first : OldestQuery where
  row rows := rows.argmin DeferredTrigger.createdAt
  member _ _ found := List.argmin_mem found
  oldest _ _ found _ member := List.le_of_mem_argmin member found
  found _ absent := List.argmin_eq_none.mp absent

/-- An approval and the end it leads to. -/
def reviewed : Definition where
  workflow :=
    { entry := "review"
      nodes := [{ id := "review", kind := .approval, outcomes := ["approved"] },
        { id := "done", kind := .endNode }]
      edges := [{ fromNode := "review", fromOutcome := "approved", target := "done" }] }
  affinity := [{ node := "review", actor := "actor://one", condition := "event.payload.tier > 1" }]
  maxConcurrentSubjectRuns := 1
  entryDeclared := rfl

/-- Every version is `reviewed`; its affinity condition has a value on the payloads that carry a
tier. -/
def tiered : TriggerEnv where
  load _ := .ok reviewed
  evaluateTrigger _ _ := .ok true
  evaluateAffinity _ event := if event.payload = "{}" then .error "no such key: tier" else .ok true
  validateInput _ _ := .ok ()

/-- The run of subject `a` waits for its decision; subject `b` is deferred behind it. -/
def behind (payload : Payload) : Hosted where
  deferred := [{ id := 7, version := ⟨"flow", "digest", ""⟩, createdAt := 3,
                 fact := { id := "event", name := "opened", payload := payload, subject := "b" } }]

def waitingRun : HostedRun where
  id := 0
  key := "flow"
  digest := "digest"
  subject := "a"
  rows := ((createRun Env.permissive reviewed.workflow "null" 0).toOption).getD
    { input := "null", createdAt := 0 }

def approve : Request := .decide { task := 2, outcome := "approved" }

theorem ending_commits_tiered : ∃ result,
    (behind "tier").commit tiered .first Env.permissive 0 reviewed waitingRun approve = .ok result := by
  have ran : ((behind "tier").undeferred.commit tiered .first Env.permissive 0 reviewed waitingRun
      approve).toOption.map (fun after => after.1.state) = some .completed := by decide
  obtain ⟨after, committed, completed⟩ := Option.map_eq_some_iff.mp ran
  refine (ending_commits_iff (toOption_some committed) (by rw [completed]; rfl)).mpr ?_
  refine Or.inr (Or.inr fun entry picked => ?_)
  have isFirst : OldestQuery.first.row ((behind "tier").deferred.filter (·.version.key = "flow")) =
      (behind "tier").deferred.head? := by decide
  rw [← Option.some.inj (isFirst.symm.trans picked)]
  decide

/-- The entry of `b` cannot be routed: the approval of `a`'s run commits with nothing deferred, and is
rolled back because of `b`. -/
theorem queued_entry_blocks_ending :
    ¬ ∀ (tenv : TriggerEnv) (oldest : OldestQuery) (env : Env) (now : Nat) (hosted : Hosted)
      (definition : Definition) (run : HostedRun) (request : Request) (after : RunDb × Hosted),
      hosted.undeferred.commit tenv oldest env now definition run request = .ok after →
      after.1.state.terminal = true →
      ∃ result, hosted.commit tenv oldest env now definition run request = .ok result := by
  intro always
  have ran : ((behind "{}").undeferred.commit tiered .first Env.permissive 0 reviewed waitingRun
      approve).toOption.map (fun after => after.1.state) = some .completed := by decide
  obtain ⟨after, committed, completed⟩ := Option.map_eq_some_iff.mp ran
  obtain ⟨result, commits⟩ := always tiered .first Env.permissive 0 (behind "{}") reviewed waitingRun
    approve after (toOption_some committed) (by rw [completed]; rfl)
  have refused : ((behind "{}").commit tiered .first Env.permissive 0 reviewed waitingRun
      approve).isOk = false := by decide
  rw [commits] at refused
  contradiction

end CultureNodes.Engine
