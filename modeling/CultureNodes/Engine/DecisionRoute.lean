import CultureNodes.Bindings.Resolve
import CultureNodes.Engine.QueueDrain
import CultureNodes.Engine.Retry

/-!
The decision's own routing. It is written apart from the completion's and shares only the arrival at a
join with it; here it is as it is written, with the resolver that both read a run's output through, and
the proof that it does what the transition transaction does for a decision.
-/

namespace CultureNodes.Engine

open Bindings (BindingError)

/-- What the engine's resolver reads beside the rows of a run: a walk into a JSON text, and the
evidence records of a node as one text. -/
structure BindingReader where
  traverse : Payload → List String → Except String Payload
  evidence : String → Except String Payload

namespace BindingReader

variable (reader : BindingReader) (db : RunDb) (rows : List AttemptRow)

/-- A node's output is that of its newest succeeded attempt. -/
def resolveNode : List String → Except String Payload
  | node :: surface :: path =>
      if surface = "output" then
        match EngineQueries.nodeOutput db.nodeRuns rows node with
        | none => .error (BindingError.noOutput node).engineText
        | some output => reader.traverse output path
      else if surface = "evidence" then
        match reader.evidence node with
        | .error reason => .error reason
        | .ok records => reader.traverse records path
      else .error (BindingError.nodeSurface surface).engineText
  | _ => .error BindingError.nodeSurfaceMissing.engineText

def resolveRun : List String → Except String Payload
  | "input" :: path => reader.traverse db.input path
  | _ => .error BindingError.runSurface.engineText

def resolveBinding (pointer : String) : Except String Payload :=
  match Bindings.parsePointer pointer with
  | .error refusal => .error refusal.engineText
  | .ok [] => .error BindingError.emptyPointer.engineText
  | .ok (root :: rest) =>
      if root = "run" then reader.resolveRun db rest
      else if root = "nodes" then reader.resolveNode db rows rest
      else .error (BindingError.unknownRoot root).engineText

end BindingReader

/-- The engine over a run whose attempts table is `rows`. -/
def Env.reading (env : Env) (reader : BindingReader) (rows : List AttemptRow) : Env :=
  { env with resolveBinding := fun db pointer => reader.resolveBinding db rows pointer }

/-- One decision of a human task in its transaction. -/
structure HumanTaskDecision where
  nodeRun : NodeRun
  node : Node
  outcome : String
  response : Payload
  now : Nat
deriving DecidableEq, Repr

namespace HumanTaskDecision

variable (decision : HumanTaskDecision) (env : Env) (wf : Workflow)

def failRun (db : RunDb) (state : NodeRunState) (failure : Failure) : RunDb :=
  let written := db.updateNodeRun decision.nodeRun.id state decision.outcome
  let consumed := written.consumeToken decision.nodeRun.token
  let reaped := consumed.reapRunState decision.nodeRun.id
  reaped.updateRunState .failed none (.failed failure)

def failBound (db : RunDb) (bound : BoundExceeded) (transitions : Nat) : RunDb :=
  let reaped := db.reapRunState decision.nodeRun.id
  reaped.updateRunState .failed none (.bounded bound transitions)

def completeRun (db : RunDb) (state : NodeRunState) (endNode : String) : RunDb :=
  if 0 < db.activeTokenCount then
    decision.failRun db state (.siblings endNode db.activeTokenCount)
  else
    match Mover.resolveRunOutput env wf db endNode with
    | .error detail => decision.failRun db state (.output detail)
    | .ok output => db.retireEventRoutes.updateRunState .completed (some output) (.completed endNode)

/-- The slice of the transaction that the shared arrival works on. -/
def joinTx : Mover where
  decision := true
  nodeRun := decision.nodeRun
  node := decision.node
  state := .completed
  outcome := decision.outcome
  output := decision.response
  now := decision.now

/-- Only the first target is followed, and the branch stays in its group. -/
def advance (db : RunDb) (state : NodeRunState) : List Edge → Except EngineError RunDb
  | [] => .ok db
  | target :: _ =>
      match wf.node? target.target with
      | none => .error (undeclaredTarget target)
      | some next =>
          match db.token? decision.nodeRun.token with
          | none => .error (.notFound "token" decision.nodeRun.token)
          | some source =>
              if next.kind = .join then
                match decision.joinTx.arriveAtJoin db next source.group target with
                | .ok arrived => .ok arrived
                | .error (.refuse reached failure) => .ok (decision.failRun reached state failure)
                | .error (.abort error) => .error error
              else
                let placed := db.insertToken next.id (some decision.nodeRun.token) source.group none
                let entered := placed.insertNodeRun db.nextID next.id (dispatchState next.kind)
                if next.kind = .endNode then
                  let ended := entered.updateNodeRun placed.nextID .completed ""
                  .ok (decision.completeRun env wf (ended.consumeToken db.nextID) state next.id)
                else .ok (entered.dispatchNode next placed.nextID decision.now)

/-- A decision never reads the active tokens: its node never splits. -/
def input (db : RunDb) (outcome : String) : TransitionInput where
  workflow := wf
  node := decision.nodeRun.node
  outcome := outcome
  guard edge := env.evaluateGuard edge db.input decision.response outcome
  transitions := db.transitionCount
  visits := db.nodeVisits
  elapsed := decision.now - db.createdAt

def transition (db : RunDb) (outcome : String) (state : NodeRunState) : Except EngineError RunDb :=
  let written := db.updateNodeRun decision.nodeRun.id state outcome
  let finished := written.consumeToken decision.nodeRun.token
  match planTransition (decision.input env wf db outcome) with
  | .stop bound => .ok (decision.failBound finished bound db.transitionCount)
  | .complete => .ok (decision.completeRun env wf finished state decision.nodeRun.node)
  | .refuse diagnostic => .ok (decision.failRun finished state (.noTarget diagnostic))
  | .follow targets => decision.advance env wf finished state targets

end HumanTaskDecision

/-- The decision's transaction, from its guard to its transition. -/
def DecisionRequest.decide (req : DecisionRequest) (env : Env) (wf : Workflow) (now : Nat) (db : RunDb) :
    Except EngineError RunDb :=
  if req.outcome = "" then
    .error (.malformed "engine: DecideHumanTask requires the decision's domain outcome")
  else
    match req.guard db with
    | .error error => .error error
    | .ok (task, run) =>
        match loadWorkflow wf run with
        | .error error => .error error
        | .ok node =>
            match req.checkOutcome task with
            | .error error => .error error
            | .ok () =>
                let decision : HumanTaskDecision := ⟨run, node, req.outcome, req.response, now⟩
                decision.transition env wf (req.resolveTask db) req.outcome .completed

/-- What a transition makes of the plan it followed. -/
def Mover.conclude (mover : Mover) : Except Halt RunDb → Except EngineError RunDb
  | .ok advanced => .ok advanced
  | .error (.refuse reached failure) => .ok (mover.failRun reached failure)
  | .error (.abort error) => .error error

theorem Prepared.transition_follow {prepared : Prepared} {env : Env} {wf : Workflow} {outcome : String}
    {targets : List Edge} (state : NodeRunState)
    (planned : planTransition (prepared.input env wf outcome) = .follow targets) :
    prepared.transition env wf outcome state = prepared.mover.conclude (prepared.mover.advance env wf
      (prepared.db.finishNodeRun prepared.mover.nodeRun state outcome) targets) := by
  unfold Prepared.transition
  rw [planned]
  rfl

namespace HumanTaskDecision

variable {decision : HumanTaskDecision} {env : Env} {wf : Workflow} {db : RunDb}

theorem joinTx_nextGroup : decision.joinTx.nextGroup db =
    match db.token? decision.nodeRun.token with
    | none => .error (.abort (.notFound "token" decision.nodeRun.token))
    | some token => .ok token.group := by
  unfold Mover.nextGroup
  rfl

/-- The two follow a plan alike; which of two errors rolls them back may differ. -/
theorem advance_eq (targets : List Edge) :
    (decision.advance env wf db .completed targets).toOption =
      (decision.joinTx.conclude (decision.joinTx.advance env wf db targets)).toOption := by
  cases targets with
  | nil => rfl
  | cons target rest =>
      have single : decision.joinTx.fansOut target = false := rfl
      simp only [advance, Mover.advance, joinTx_nextGroup]
      cases declared : wf.node? target.target with
      | none =>
          cases db.token? decision.nodeRun.token with
          | none => rfl
          | some source =>
              simp only [single, Bool.false_eq_true, if_false, Mover.follow, declared]
              rfl
      | some next =>
          cases db.token? decision.nodeRun.token with
          | none => rfl
          | some source =>
              simp only [single, Bool.false_eq_true, if_false, Mover.follow, declared]
              by_cases joins : next.kind = .join
              · rw [if_pos joins, if_pos joins]
                cases decision.joinTx.arriveAtJoin db next source.group target with
                | ok arrived => rfl
                | error halt => cases halt <;> rfl
              · rw [if_neg joins, if_neg joins]
                split <;> rfl

theorem transition_eq (db : RunDb) :
    (decision.transition env wf db decision.outcome .completed).toOption =
      (Prepared.transition ⟨db, decision.joinTx, .transition decision.outcome .completed⟩ env wf
        decision.outcome .completed).toOption := by
  have sameInput : Prepared.input ⟨db, decision.joinTx, .transition decision.outcome .completed⟩ env wf
      decision.outcome = decision.input env wf db decision.outcome := rfl
  cases planned : planTransition (decision.input env wf db decision.outcome) with
  | follow targets =>
      rw [Prepared.transition_follow _ (sameInput ▸ planned), ← advance_eq]
      simp only [transition, planned]
      rfl
  | stop bound | complete | refuse diagnostic =>
      simp only [transition, Prepared.transition, sameInput, planned]
      rfl

end HumanTaskDecision

/-- The decision written apart does what the transition transaction does for it. -/
theorem decide_eq_decideHumanTask (req : DecisionRequest) (env : Env) (wf : Workflow) (now : Nat)
    (db : RunDb) : (req.decide env wf now db).toOption = (decideHumanTask env wf now db req).toOption := by
  unfold DecisionRequest.decide decideHumanTask DecisionRequest.prepare
  split
  · rfl
  · cases req.guard db with
    | error error => rfl
    | ok found =>
        obtain ⟨task, run⟩ := found
        dsimp only
        cases loadWorkflow wf run with
        | error error => rfl
        | ok node =>
            dsimp only
            cases req.checkOutcome task with
            | error error => rfl
            | ok _ => exact HumanTaskDecision.transition_eq _

def outputPath (binding node : String) : Option (List String) :=
  match Bindings.parsePointer binding with
  | .ok ("nodes" :: owner :: "output" :: path) => if owner = node then some path else none
  | _ => none

/-- What a path into the output of a node gives as the output of a run, where the workflow's output
contract accepts it. -/
def BindingReader.read (reader : BindingReader) (env : Env) (nodeRuns : List NodeRun)
    (rows : List AttemptRow) (node : String) (path : List String) : Option Payload :=
  (EngineQueries.nodeOutput nodeRuns rows node).bind fun output =>
    (reader.traverse output path).toOption.filter fun value => (env.validateOutput value).isOk

section

variable {reader : BindingReader} {env : Env} {db other : RunDb} {rows others : List AttemptRow}
  {binding node : String} {path : List String}

theorem outputPath_some (addressed : outputPath binding node = some path) :
    Bindings.parsePointer binding = .ok ("nodes" :: node :: "output" :: path) := by
  unfold outputPath at addressed
  split at addressed
  · rename_i parsed
    split at addressed
    · rename_i isNode
      rw [parsed, isNode, Option.some.inj addressed]
    · contradiction
  · contradiction

theorem BindingReader.resolveBinding_congr (elsewhere : outputPath binding node = none)
    (sameInput : other.input = db.input)
    (sameOutput : ∀ name, name ≠ node → EngineQueries.nodeOutput other.nodeRuns others name =
      EngineQueries.nodeOutput db.nodeRuns rows name) :
    reader.resolveBinding other others binding = reader.resolveBinding db rows binding := by
  unfold resolveBinding
  unfold outputPath at elsewhere
  cases parsed : Bindings.parsePointer binding with
  | error refusal => rfl
  | ok tokens =>
      rw [parsed] at elsewhere
      cases tokens with
      | nil => rfl
      | cons root rest =>
          dsimp only
          split
          · unfold resolveRun
            rw [sameInput]
          · split
            · rename_i isNodes
              subst isNodes
              unfold resolveNode
              split
              · rename_i name surface path
                split
                · rename_i isOutput
                  subst isOutput
                  have differs : name ≠ node := by
                    intro same
                    simp [same] at elsewhere
                  rw [sameOutput name differs]
                · rfl
              · rfl
            · rfl

theorem BindingReader.resolveBinding_own (addressed : outputPath binding node = some path) :
    reader.resolveBinding db rows binding =
      match EngineQueries.nodeOutput db.nodeRuns rows node with
      | none => .error (BindingError.noOutput node).engineText
      | some output => reader.traverse output path := by
  unfold resolveBinding
  rw [outputPath_some addressed]
  rfl

variable {wf : Workflow} {endNode : String} {next : Node}

theorem resolveRunOutput_toOption (found : wf.node? endNode = some next) (bound : next.outputFrom ≠ "") :
    (Mover.resolveRunOutput (env.reading reader rows) wf db endNode).toOption =
      (reader.resolveBinding db rows next.outputFrom).toOption.filter fun value =>
        (env.validateOutput value).isOk := by
  have binding : ((wf.node? endNode).map Node.outputFrom).getD "" = next.outputFrom := by
    rw [found]
    rfl
  simp only [Mover.resolveRunOutput, binding, if_neg bound, Env.reading]
  cases reader.resolveBinding db rows next.outputFrom with
  | error reason => rfl
  | ok output =>
      change _ = Option.filter _ (some output)
      rw [Option.filter_some]
      dsimp only
      cases env.validateOutput output with
      | error reason => rfl
      | ok _ => rfl

theorem resolveRunOutput_own (found : wf.node? endNode = some next)
    (addressed : outputPath next.outputFrom node = some path) :
    (Mover.resolveRunOutput (env.reading reader rows) wf db endNode).toOption =
      reader.read env db.nodeRuns rows node path := by
  have bound : next.outputFrom ≠ "" := by
    intro absent
    have parsed := outputPath_some addressed
    rw [absent] at parsed
    cases parsed
  rw [resolveRunOutput_toOption found bound, reader.resolveBinding_own addressed, BindingReader.read]
  cases EngineQueries.nodeOutput db.nodeRuns rows node with
  | none => rfl
  | some output => rfl

theorem resolveRunOutput_elsewhere {wf' : Workflow} (found : wf.node? endNode = some next)
    (foundThere : wf'.node? endNode = some next) (elsewhere : outputPath next.outputFrom node = none)
    (sameInput : other.input = db.input)
    (sameOutput : ∀ name, name ≠ node → EngineQueries.nodeOutput other.nodeRuns others name =
      EngineQueries.nodeOutput db.nodeRuns rows name) :
    (Mover.resolveRunOutput (env.reading reader others) wf' other endNode).toOption =
      (Mover.resolveRunOutput (env.reading reader rows) wf db endNode).toOption := by
  by_cases bound : next.outputFrom = ""
  · simp only [Mover.resolveRunOutput, found, foundThere, Option.map_some, Option.getD_some, bound, if_true]
  · rw [resolveRunOutput_toOption found bound, resolveRunOutput_toOption foundThere bound,
      reader.resolveBinding_congr elsewhere sameInput sameOutput]

end

namespace Hosted

variable (hosted : Hosted) (tenv : TriggerEnv) (oldest : OldestQuery) (now : Nat)

/-- What a transaction on a run commits: its rows and, where it ended the run, the drain. -/
def settle (definition : Definition) (run : HostedRun) (transacted : Except EngineError RunDb) :
    Except EngineError (RunDb × Hosted) :=
  match transacted with
  | .error error => .error error
  | .ok rows =>
      let stored := hosted.setRows run.id rows
      if rows.state.terminal then
        (drainSubjectTriggerQueue tenv oldest now definition run.key run.subject stored).map (rows, ·)
      else .ok (rows, stored)

theorem commit_eq_settle (env : Env) (definition : Definition) (run : HostedRun) (request : Request) :
    hosted.commit tenv oldest env now definition run request = hosted.settle tenv oldest now definition run
      (request.transact env definition.workflow now run.rows) := by
  unfold commit settle
  cases request.transact env definition.workflow now run.rows <;> rfl

end Hosted

end CultureNodes.Engine
