import CultureNodes.Engine.Retry
import CultureNodes.Web.Carried
import CultureNodes.Web.Denial

/-!
The events between two points of a run's history, folded over the first point's snapshot, against the snapshot of
the second. They agree on a node where each step says what it does to the node's newest run; what a step may
leave unsaid is listed here.
-/

namespace CultureNodes.Web

open Engine

/-- The state that a snapshot shows a node in. -/
def Point.shown (written : Nat → String) (p : Point) (node : String) : NodeExecState :=
  ((p.graph written).stateOf node).getD .idle

section

variable (env : Env) (wf : Workflow) (written : Nat → String) (node : String) (p : Point)

/-- The node has no run, or its newest one waits for a person or for other branches. -/
def Unshown (db : RunDb) : Prop := ∀ row ∈ db.newest node, row.2.waits = true

def picksUp : Action → Bool
  | .pickUp _ _ _ => true
  | _ => false

/-- A transition that sets out from the node: an attempt at its newest run that is not to be made again. It does
not fail at an end node of a run that completes, and where it fails, the attempt is the node's last one or was
denied exactly if that was. -/
structure Reports (note : AttemptNote) (prepared : Prepared) (next : RunDb) : Prop where
  attempt : prepared.mover.decision = false
  newest : (p.db.newest node).map Prod.fst = some prepared.mover.nodeRun.id
  once : prepared.retries = false
  closes : prepared.mover.node.kind = .endNode → next.state = .completed → prepared.mover.state = .completed
  fails : next.newest node = some (prepared.mover.nodeRun.id, .failed) → ∀ attempt ∈ prepared.db.attempts.getLast?,
    (∀ other ∈ p.attemptsAt node, p.startOf written other ≤ startText written note) ∨
      p.Alike written node attempt.status

def Foreseen (action : Action) (next : RunDb) (id : Nat) : NodeRunState → Prop
  | .ready | .failed => True
  | .cancelled => ∃ prepared ∈ action.prepare env wf p.db, prepared.mover.nodeRun.id = id
  | .completed => next.state = .completed ∨ ∃ prepared ∈ action.prepare env wf p.db, prepared.mover.nodeRun.id = id
  | .waitingHuman => picksUp action = true ∧ Unshown node p.db
  | .waitingJoin =>
      (∀ prepared ∈ action.prepare env wf p.db, prepared.mover.nodeRun.node ≠ node) ∧ Unshown node p.db
  | .waitingExternal | .running | .leased => p.db.newest node = next.newest node

def Fair (action : Action) (next : RunDb) : Entry → Prop
  | .fired barrier _ => next.At node barrier → (next.newest node).map Prod.snd = some .ready
  | .wrote id state => next.newest node = some (id, state) → Foreseen env wf node p action next id state
  | .enqueued _ => True

/-- The events of an action say what it does to the node. -/
structure Heard (action : Action) (note : AttemptNote) (next : RunDb) : Prop where
  own : ∀ prepared ∈ action.prepare env wf p.db, prepared.mover.nodeRun.node = node →
    Reports written node p note prepared next
  writes : ∀ entry ∈ news p.db next, Fair env wf node p action next entry

/-- A late report changes nothing of a failed node: another attempt starts after it, or the last one was denied
by a policy exactly if this one was. -/
def Followed : Deed → Prop
  | .engine action note => ∀ next ∈ p.db.act env wf action, Heard env wf written node p action note next
  | .late nodeRun status note => nodeRun ∈ idsOf p.db node → ∀ row ∈ p.db.newest node, row.2 = .failed →
      (∃ other ∈ p.attemptsAt node, ¬ p.startOf written other ≤ startText written note) ∨
        p.attemptsAt node ≠ [] ∧ p.Alike written node status
  | .other _ _ => True

end

section

variable {env : Env} {wf : Workflow} {written : Nat → String} {node : String} {p : Point}

instance Unshown.decidable (db : RunDb) : Decidable (Unshown node db) :=
  inferInstanceAs (Decidable (∀ row ∈ db.newest node, row.2.waits = true))

instance Alike.decidable (status : TechStatus) : Decidable (p.Alike written node status) :=
  inferInstanceAs (Decidable (∀ attempt ∈ p.attemptsAt node,
    (∀ other ∈ p.attemptsAt node, p.startOf written other ≤ p.startOf written attempt) →
      (attempt.status = .policyDenied ↔ status = .policyDenied)))

theorem reports_iff {note : AttemptNote} {prepared : Prepared} {next : RunDb} :
    (prepared.mover.decision = false ∧ (p.db.newest node).map Prod.fst = some prepared.mover.nodeRun.id ∧
      prepared.retries = false ∧
      (prepared.mover.node.kind = .endNode → next.state = .completed → prepared.mover.state = .completed) ∧
      (next.newest node = some (prepared.mover.nodeRun.id, .failed) → ∀ attempt ∈ prepared.db.attempts.getLast?,
        (∀ other ∈ p.attemptsAt node, p.startOf written other ≤ startText written note) ∨
          p.Alike written node attempt.status)) ↔ Reports written node p note prepared next :=
  ⟨fun ⟨attempt, newest, once, closes, fails⟩ => ⟨attempt, newest, once, closes, fails⟩, fun reports =>
    ⟨reports.attempt, reports.newest, reports.once, reports.closes, reports.fails⟩⟩

instance Reports.decidable (note : AttemptNote) (prepared : Prepared) (next : RunDb) :
    Decidable (Reports written node p note prepared next) :=
  decidable_of_iff _ reports_iff

instance Foreseen.decidable (action : Action) (next : RunDb) (id : Nat) :
    ∀ state, Decidable (Foreseen env wf node p action next id state)
  | .ready | .failed => inferInstanceAs (Decidable True)
  | .cancelled => inferInstanceAs (Decidable (∃ prepared ∈ action.prepare env wf p.db, prepared.mover.nodeRun.id = id))
  | .completed => inferInstanceAs (Decidable (next.state = .completed ∨
      ∃ prepared ∈ action.prepare env wf p.db, prepared.mover.nodeRun.id = id))
  | .waitingHuman => inferInstanceAs (Decidable (picksUp action = true ∧ Unshown node p.db))
  | .waitingJoin => inferInstanceAs (Decidable ((∀ prepared ∈ action.prepare env wf p.db,
      prepared.mover.nodeRun.node ≠ node) ∧ Unshown node p.db))
  | .waitingExternal | .running | .leased => inferInstanceAs (Decidable (p.db.newest node = next.newest node))

instance Fair.decidable (action : Action) (next : RunDb) : ∀ entry, Decidable (Fair env wf node p action next entry)
  | .fired barrier _ => inferInstanceAs (Decidable ((∃ run ∈ next.nodeRuns, run.id = barrier ∧ run.node = node) →
      (next.newest node).map Prod.snd = some .ready))
  | .wrote id state => inferInstanceAs (Decidable (next.newest node = some (id, state) →
      Foreseen env wf node p action next id state))
  | .enqueued _ => inferInstanceAs (Decidable True)

theorem heard_iff {action : Action} {note : AttemptNote} {next : RunDb} :
    ((∀ prepared ∈ action.prepare env wf p.db, prepared.mover.nodeRun.node = node →
        Reports written node p note prepared next) ∧
      ∀ entry ∈ news p.db next, Fair env wf node p action next entry) ↔
      Heard env wf written node p action note next :=
  ⟨fun ⟨own, writes⟩ => ⟨own, writes⟩, fun heard => ⟨heard.own, heard.writes⟩⟩

instance Heard.decidable (action : Action) (note : AttemptNote) (next : RunDb) :
    Decidable (Heard env wf written node p action note next) :=
  decidable_of_iff _ heard_iff

instance Followed.decidable : ∀ deed, Decidable (Followed env wf written node p deed)
  | .engine action note =>
      inferInstanceAs (Decidable (∀ next ∈ p.db.act env wf action, Heard env wf written node p action note next))
  | .late nodeRun status note =>
      inferInstanceAs (Decidable (nodeRun ∈ idsOf p.db node → ∀ row ∈ p.db.newest node, row.2 = .failed →
        (∃ other ∈ p.attemptsAt node, ¬ p.startOf written other ≤ startText written note) ∨
          p.attemptsAt node ≠ [] ∧ p.Alike written node status))
  | .other _ _ => inferInstanceAs (Decidable True)

instance OnTime.decidable (deed : Deed) : Decidable (OnTime written env wf node p deed) :=
  inferInstanceAs (Decidable (∀ q ∈ p.act env wf deed, ∀ id ∈ idsOf q.db node, p.db.nextID ≤ id →
    ∀ older ∈ idsOf p.db node,
      p.createdAt older ≤ q.createdAt id ∧ written (p.createdAt older) ≤ written (q.createdAt id)))

end

section

variable {env : Env} {wf : Workflow} {written : Nat → String} {node : String} {p q : Point}

/-- The events make of the node what the second point shows. -/
def Follows (written : Nat → String) (node : String) (p : Point) (events : List RunEvent) (q : Point) : Prop :=
  ∀ known : Option NodeExecState, known.getD .idle = p.shown written node →
    (events.foldl (tell node) known).getD .idle = q.shown written node

theorem Clocked.shown_eq (clocked : Clocked written node p) : p.shown written node =
    ((p.db.newest node).map fun row => look (p.denied written node) row.2).getD .idle := by
  rw [Point.shown, clocked.stateOf_graph]

theorem Clocked.shown_some (clocked : Clocked written node p) {id : Nat} {state : NodeRunState}
    (found : p.db.newest node = some (id, state)) : p.shown written node = look (p.denied written node) state := by
  rw [clocked.shown_eq, found]
  rfl

theorem Clocked.shown_unshown (clocked : Clocked written node p) (unshown : Unshown node p.db) :
    p.shown written node = .idle := by
  rw [clocked.shown_eq]
  cases found : p.db.newest node with
  | none => rfl
  | some row =>
      have waits := unshown row found
      rw [Option.map_some, Option.getD_some]
      cases state : row.2 <;> simp_all [NodeRunState.waits, look, stateFor]

theorem Clocked.shown_plain (clocked : Clocked written node p) {id : Nat} {state : NodeRunState}
    (found : p.db.newest node = some (id, state)) (unfailed : state ≠ .failed) :
    p.shown written node = stateFor state [] := by
  rw [clocked.shown_some found]
  cases state with
  | failed => exact absurd rfl unfailed
  | _ => rfl

theorem Follows.of_tells {events : List RunEvent} {state : NodeExecState} (told : Tells node events state)
    (shown : q.shown written node = state) : Follows written node p events q := by
  intro known _
  rw [told, shown]
  rfl

theorem Follows.of_silent {events : List RunEvent} {home : String} (silent : Silent node home events)
    (elsewhere : home ≠ node) (same : q.shown written node = p.shown written node) :
    Follows written node p events q := by
  intro known isShown
  rw [silent known fun here => absurd here elsewhere, isShown, same]

/-- What the report of an attempt leaves to be carried out, and what it says of the node. -/
structure Reported (node : String) (db : RunDb) (prepared : Prepared) (events : List RunEvent)
    (status : TechStatus) : Prop where
  nodeRuns : prepared.db.nodeRuns = db.nodeRuns
  journal : prepared.db.journal = db.journal
  attempts : prepared.db.attempts = db.attempts ++
    [⟨prepared.mover.nodeRun.id, db.nextAttemptNumber prepared.mover.nodeRun.id, status⟩]
  state : prepared.mover.state = CompletionRequest.endState status
  cancels : prepared.resolution = .cancel → prepared.mover.state = .cancelled
  told : prepared.mover.nodeRun.node = node → Tells node events (completedState status.text)
  silent : prepared.mover.nodeRun.node ≠ node → Silent node prepared.mover.nodeRun.node events

theorem silent_refusalEvents {home : String} (req : CompletionRequest) (loaded : Node) (status : TechStatus)
    (number : Nat) : Silent node home (req.refusalEvents loaded status number) := by
  unfold CompletionRequest.refusalEvents
  split
  · exact Silent.cons (fun _ _ => rfl) Silent.nil
  · exact Silent.nil

theorem silent_attemptEvents {home : String} (req : CompletionRequest) {run : NodeRun} (status : TechStatus)
    (rejected : Option String) (elsewhere : run.node ≠ node) :
    Silent node home (req.attemptEvents run status rejected) := by
  refine Silent.cons (fun known _ => by simp [tell, elsewhere]) ?_
  split
  · exact Silent.cons (fun known _ => by simp [tell, elsewhere]) Silent.nil
  · exact Silent.nil

/-- A rejection is said twice, and comes to the same. -/
theorem tells_attemptEvents (req : CompletionRequest) {run : NodeRun} {status : TechStatus} {rejected : Option String}
    (isRejected : rejected.isSome = true → status = .contractRejected) (here : run.node = node) :
    Tells node (req.attemptEvents run status rejected) (completedState status.text) := by
  intro known
  unfold CompletionRequest.attemptEvents
  by_cases refused : rejected.isSome = true
  · rw [if_pos refused, isRejected refused]
    simp [tell, here, completedState, TechStatus.text]
  · rw [if_neg refused]
    simp [tell, here]

theorem resolve_cancel {req : CompletionRequest} {run : Node} {status : TechStatus} {number now : Nat}
    {rejected : Option String} (resolved : req.resolve env wf run status number now rejected = .cancel) :
    status = .cancelled := by
  have failed : req.failOrRetry env wf run status number now rejected ≠ .cancel := by
    intro failing
    unfold CompletionRequest.failOrRetry at failing
    extract_lets budget refusal at failing
    split at failing
    · split at failing
      · contradiction
      · contradiction
    · split at failing
      · contradiction
      · split at failing
        · contradiction
        · contradiction
  cases status with
  | succeeded => exact absurd resolved Resolution.noConfusion
  | cancelled => rfl
  | failed | timedOut | policyDenied | contractRejected => exact absurd resolved failed

theorem CompletionRequest.reported {req : CompletionRequest} {db : RunDb} {now : Nat} {prepared : Prepared}
    (isPrepared : req.prepare env wf db now = .ok prepared) :
    ∃ status, Reported node db prepared (req.reportEvents env wf db) status := by
  unfold CompletionRequest.prepare at isPrepared
  unfold CompletionRequest.reportEvents
  cases valid : req.validate with
  | error error =>
      rw [valid] at isPrepared
      contradiction
  | ok _ =>
      rw [valid] at isPrepared
      cases guarded : req.guard db with
      | error error =>
          rw [guarded] at isPrepared
          contradiction
      | ok found =>
          obtain ⟨held, run⟩ := found
          rw [guarded] at isPrepared
          dsimp only at isPrepared ⊢
          cases loaded : loadWorkflow wf run with
          | error error =>
              rw [loaded] at isPrepared
              contradiction
          | ok loadedNode =>
              rw [loaded] at isPrepared
              obtain ⟨work, -, -, rfl, -⟩ := CompletionRequest.guard_ok guarded
              dsimp only at isPrepared ⊢
              obtain rfl := Except.ok.inj isPrepared
              refine ⟨_, rfl, rfl, rfl, rfl, fun isCancel => ?_, ?_, ?_⟩
              · rw [resolve_cancel isCancel]
                rfl
              · intro here
                exact Tells.append (tells_attemptEvents req (fun refused => if_pos refused) here)
                  (@silent_refusalEvents node node req _ _ _)
              · intro elsewhere
                exact (silent_attemptEvents req _ _ elsewhere).append (silent_refusalEvents req _ _ _)

section

variable {action : Action} {note : AttemptNote} {prepared : Prepared} {events head : List RunEvent}

theorem Heard.foreseen {next : RunDb} (heard : Heard env wf written node p action note next) {id : Nat}
    {state : NodeRunState} (wrote : .wrote id state ∈ news p.db next) (found : next.newest node = some (id, state)) :
    Foreseen env wf node p action next id state :=
  heard.writes _ wrote found

theorem Heard.newest_fired {next : RunDb} (heard : Heard env wf written node p action note next) {barrier group : Nat}
    (fired : .fired barrier group ∈ news p.db next) (at_ : next.At node barrier) :
    (next.newest node).map Prod.snd = some .ready :=
  heard.writes _ fired at_

theorem prepare_not_picksUp (isPrepared : action.prepare env wf p.db = some prepared) : picksUp action = false := by
  cases action with
  | pickUp route event now => contradiction
  | _ => rfl

/-- What is heard of a transition: that nothing but its own run changed, or the state the node comes to, or
nothing of a join that waits anew. -/
theorem Heard.of_ends (heard : Heard env wf written node p action note q.db)
    (isPrepared : action.prepare env wf p.db = some prepared) (rows : prepared.db.nodeRuns = p.db.nodeRuns)
    (journal : prepared.db.journal = p.db.journal) (after : Clocked written node q)
    (ends : Ends prepared.mover node prepared.db events q.db) :
    (q.db.newest node = (p.db.newest node).map (ended prepared.mover) ∧
        Silent node prepared.mover.nodeRun.node events) ∨
      (∃ state, Tells node events state ∧ q.shown written node = state) ∨
      (prepared.mover.nodeRun.node ≠ node ∧ Silent node prepared.mover.nodeRun.node events ∧
        Unshown node p.db ∧ q.shown written node = .idle) := by
  have only : ∀ other ∈ action.prepare env wf p.db, other = prepared := fun other found =>
    Option.some.inj (found.symm.trans isPrepared)
  have sameNews : news prepared.db q.db = news p.db q.db := by rw [news, news, journal]
  have sameNewest : prepared.db.newest node = p.db.newest node := RunDb.newest_congr rows
  cases ends with
  | turned turned =>
      cases turned with
      | kept same silent => exact Or.inl ⟨sameNewest ▸ same, silent⟩
      | ready found other told =>
          exact Or.inr (Or.inl ⟨.ready, told, after.shown_plain found NodeRunState.noConfusion⟩)
      | lost found other wrote =>
          obtain ⟨one, isOne, own⟩ := heard.foreseen (sameNews ▸ wrote) found
          exact absurd (only one isOne ▸ own.symm) other
      | parked _ found other wrote silent =>
          obtain ⟨elsewhere, unshown⟩ := heard.foreseen (sameNews ▸ wrote) found
          exact Or.inr (Or.inr ⟨elsewhere prepared isPrepared, silent, unshown,
            after.shown_plain found NodeRunState.noConfusion⟩)
      | human found other wrote =>
          have picked := (heard.foreseen (sameNews ▸ wrote) found).1
          rw [prepare_not_picksUp isPrepared] at picked
          contradiction
      | fired wrote at_ told =>
          obtain ⟨⟨id, state⟩, found, isReady⟩ :=
            Option.map_eq_some_iff.mp (heard.newest_fired (sameNews ▸ wrote) at_)
          obtain rfl : state = .ready := isReady
          exact Or.inr (Or.inl ⟨.ready, told, after.shown_plain found NodeRunState.noConfusion⟩)
  | reached found other wrote told =>
      obtain completed | ⟨one, isOne, own⟩ := heard.foreseen (sameNews ▸ wrote) found
      · exact Or.inr (Or.inl ⟨.completed, told completed, after.shown_plain found NodeRunState.noConfusion⟩)
      · exact absurd (only one isOne ▸ own.symm) other

/-- A transition that sets out from another node. -/
theorem Heard.elsewhere (heard : Heard env wf written node p action note q.db)
    (isPrepared : action.prepare env wf p.db = some prepared) (rows : prepared.db.nodeRuns = p.db.nodeRuns)
    (journal : prepared.db.journal = p.db.journal) (before : Clocked written node p) (after : Clocked written node q)
    (serial : Serial p.db) (member : prepared.mover.nodeRun ∈ p.db.nodeRuns)
    (apart : prepared.mover.nodeRun.node ≠ node) (silent : Silent node prepared.mover.nodeRun.node head)
    (same : q.db.newest node = p.db.newest node → q.shown written node = p.shown written node)
    (carried : Carried prepared node events q.db) : Follows written node p (head ++ events) q := by
  cases carried with
  | ends ends =>
      obtain ⟨found, unsaid⟩ | ⟨state, told, shown⟩ | ⟨-, unsaid, unshown, shown⟩ :=
        heard.of_ends isPrepared rows journal after ends
      · refine Follows.of_silent (silent.append unsaid) apart (same (found.trans ?_))
        exact newest_elsewhere serial ⟨_, member, rfl, rfl⟩ apart
      · exact Follows.of_tells (told.after head) shown
      · exact Follows.of_silent (silent.append unsaid) apart (shown.trans (before.shown_unshown unshown).symm)
  | closed here => exact absurd here apart
  | again _ here => exact absurd here apart

/-- The state that an attempt is said to leave its node in is the one its run is shown in. -/
theorem look_endState {denied : Bool} {status : TechStatus}
    (isDenied : CompletionRequest.endState status = .failed → denied = decide (status = .policyDenied)) :
    look denied (CompletionRequest.endState status) = completedState status.text := by
  cases status with
  | succeeded | cancelled => decide +revert
  | failed | timedOut | policyDenied | contractRejected =>
      rw [isDenied rfl]
      rfl

/-- A transition that sets out from the node. -/
theorem Heard.here (heard : Heard env wf written node p action note q.db)
    (isPrepared : action.prepare env wf p.db = some prepared) (rows : prepared.db.nodeRuns = p.db.nodeRuns)
    (journal : prepared.db.journal = p.db.journal) (after : Clocked written node q)
    (here : prepared.mover.nodeRun.node = node) {status : TechStatus}
    (ending : prepared.mover.state = CompletionRequest.endState status)
    (told : Tells node head (completedState status.text))
    (isDenied : q.db.newest node = some (prepared.mover.nodeRun.id, .failed) →
      q.denied written node = decide (status = .policyDenied))
    (carried : Carried prepared node events q.db) : Follows written node p (head ++ events) q := by
  have reports := heard.own prepared isPrepared here
  obtain ⟨⟨id, state⟩, found, own⟩ := Option.map_eq_some_iff.mp reports.newest
  obtain rfl : id = prepared.mover.nodeRun.id := own
  have becomes : (p.db.newest node).map (ended prepared.mover) =
      some (prepared.mover.nodeRun.id, prepared.mover.state) := by
    rw [found, Option.map_some, ended, if_pos rfl]
  cases carried with
  | ends ends =>
      obtain ⟨same, unsaid⟩ | ⟨state, heardOf, shown⟩ | ⟨apart, -⟩ :=
        heard.of_ends isPrepared rows journal after ends
      · have ended := same.trans becomes
        refine Follows.of_tells (told.append unsaid) ?_
        rw [after.shown_some ended, ending]
        refine look_endState fun failed => isDenied ?_
        rw [ended, ending, failed]
      · exact Follows.of_tells (heardOf.after head) shown
      · exact absurd here apart
  | closed _ isEnd completed same said =>
      have ended := (RunDb.newest_congr rows ▸ same).trans becomes
      rw [reports.closes isEnd completed] at ended
      exact Follows.of_tells (said.after head) (after.shown_plain ended NodeRunState.noConfusion)
  | again retries =>
      have once := reports.once
      rw [Prepared.retries, retries] at once
      contradiction

end

/-- A transaction of the engine, between two points. -/
structure Acted (env : Env) (wf : Workflow) (p : Point) (action : Action) (note : AttemptNote) (q : Point) :
    Prop where
  acted : p.db.act env wf action = some q.db
  notes : q.notes = p.noted note
  createdAt : ∀ id, q.createdAt id = if id < p.db.nextID then p.createdAt id else actionTime action
  events : q.events = p.events ++ audit env wf p.db action

theorem Acted.of_step {action : Action} {note : AttemptNote} (stepped : p.step env wf (.engine action note) q) :
    Acted env wf p action note q := by
  obtain ⟨next, acted, rfl⟩ := Option.map_eq_some_iff.mp stepped
  exact ⟨acted, rfl, fun _ => rfl, rfl⟩

section

variable {action : Action} {note : AttemptNote} {prepared : Prepared}

theorem decision_prepared {req : DecisionRequest} {db : RunDb} {now : Nat}
    (isPrepared : req.prepare wf db now = .ok prepared) :
    prepared.db.nodeRuns = db.nodeRuns ∧ prepared.db.journal = db.journal ∧ prepared.mover.decision = true ∧
      prepared.resolution ≠ .cancel := by
  obtain ⟨_, _, _, _, _, _, _, _, _, _, rfl⟩ := DecisionRequest.prepare_ok isPrepared
  exact ⟨rfl, rfl, rfl, Resolution.noConfusion⟩

theorem prepare_attempts (isPrepared : action.prepare env wf p.db = some prepared) :
    ∃ added, prepared.db.attempts = p.db.attempts ++ added ∧
      ∀ attempt ∈ added, attempt.nodeRun = prepared.mover.nodeRun.id := by
  cases action with
  | complete req now =>
      obtain ⟨status, reported⟩ := @CompletionRequest.reported env wf "" req p.db now _ (toOption_some isPrepared)
      refine ⟨_, reported.attempts, fun attempt held => ?_⟩
      rw [List.mem_singleton.mp held]
  | decide req now =>
      refine ⟨[], ?_, by simp⟩
      rw [DecisionRequest.prepare_attempts (toOption_some isPrepared), List.append_nil]
  | pickUp route event now => contradiction
  | cancel parkedAt detail => contradiction
  | work action => contradiction

theorem prepare_member (standing : Standing wf (.idle, p.db)) (isPrepared : action.prepare env wf p.db = some prepared) :
    prepared.mover.nodeRun ∈ p.db.nodeRuns := by
  cases action with
  | complete req now =>
      obtain ⟨status, reported⟩ := @CompletionRequest.reported env wf "" req p.db now _ (toOption_some isPrepared)
      have ready := (@CompletionRequest.prepare_ready env wf False False _ _ _ _ standing.keyed False.elim
        (toOption_some isPrepared)).2
      exact reported.nodeRuns ▸ ready.member
  | decide req now =>
      have ready := (@DecisionRequest.prepare_ready wf False False _ _ _ _ standing.keyed False.elim
        (toOption_some isPrepared)).2
      exact (decision_prepared (toOption_some isPrepared)).1 ▸ ready.member
  | pickUp route event now => contradiction
  | cancel parkedAt detail => contradiction
  | work action => contradiction

theorem Acted.shown_eq (acted : Acted env wf p action note q) (standing : Standing wf (.idle, p.db))
    (before : Clocked written node p) (after : Clocked written node q)
    (apart : ∀ prepared ∈ action.prepare env wf p.db, prepared.mover.nodeRun.node ≠ node)
    (same : q.db.newest node = p.db.newest node) : q.shown written node = p.shown written node := by
  rw [after.shown_eq, before.shown_eq, same]
  cases found : p.db.newest node with
  | none => rfl
  | some row =>
      have serial : Serial p.db := standing.keyed.serial
      obtain ⟨run, held, sameID, -⟩ := RunDb.mem_of_newest found
      have ids : idsOf q.db node = idsOf p.db node := by
        refine @idsOf_eq_of_newest node p.db q.db (Grown.act standing acted.acted) row.1 ?_
          (sameID ▸ serial.old run held)
        rw [same, found, Option.map_some]
      have attempts := act_attempts standing acted.acted
      have unchanged : ∀ id ∈ idsOf p.db node, q.attemptsFor written id = p.attemptsFor written id := by
        intro id among
        refine attemptsFor_congr ?_ (Or.inl acted.notes)
        cases isPrepared : action.prepare env wf p.db with
        | none =>
            rw [isPrepared] at attempts
            rw [attempts]
            rfl
        | some prepared =>
            rw [isPrepared] at attempts
            obtain ⟨added, isAdded, own⟩ := prepare_attempts isPrepared
            have elsewhere : prepared.mover.nodeRun.id ≠ id := by
              intro isOwn
              obtain ⟨row, rowHeld, rowID⟩ := List.mem_map.mp among
              have member := prepare_member standing isPrepared
              obtain ⟨isRow, atNode⟩ := List.mem_filter.mp rowHeld
              have one := Table.eq_of_key serial.ids member isRow (isOwn.trans rowID.symm)
              exact apart prepared isPrepared (one ▸ of_decide_eq_true atNode)
            rw [attempts, Option.map_some, Option.getD_some, isAdded, List.filter_append]
            have none_ : added.filter (·.nodeRun = id) = [] := by
              rw [List.filter_eq_nil_iff]
              intro attempt held
              simp [own attempt held, elsewhere]
            rw [none_, List.append_nil]
      rw [denied_congr before after (gathered_congr ids unchanged)]

theorem Acted.denied_eq (acted : Acted env wf p action note q) (standing : Standing wf (.idle, p.db))
    (before : Clocked written node p) (after : Clocked written node q)
    (isPrepared : action.prepare env wf p.db = some prepared) {status : TechStatus}
    (attempts : prepared.db.attempts = p.db.attempts ++
      [⟨prepared.mover.nodeRun.id, p.db.nextAttemptNumber prepared.mover.nodeRun.id, status⟩])
    (reports : Reports written node p note prepared q.db)
    (failed : q.db.newest node = some (prepared.mover.nodeRun.id, .failed)) :
    q.denied written node = decide (status = .policyDenied) := by
  have old : prepared.mover.nodeRun.id < p.db.nextID :=
    standing.keyed.serial.old _ (prepare_member standing isPrepared)
  have ids : idsOf q.db node = idsOf p.db node := by
    refine idsOf_eq_of_newest (Grown.act standing acted.acted) ?_ old
    rw [failed, Option.map_some]
  have last : (idsOf p.db node).getLast? = some prepared.mover.nodeRun.id := by
    rw [getLast?_idsOf, reports.newest]
  have added : q.db.attempts = p.db.attempts ++
      [⟨prepared.mover.nodeRun.id, p.db.nextAttemptNumber prepared.mover.nodeRun.id, status⟩] := by
    rw [act_attempts standing acted.acted, isPrepared, Option.map_some, Option.getD_some, attempts]
  obtain ⟨front, back, isBefore, isAfter, atEnd⟩ :=
    gathered_insert before ids (List.mem_of_getLast? last) added acted.notes
  have gathered : q.gathered written node = p.gathered written node ++ [outOf written note status] := by
    rw [isAfter, isBefore, atEnd last, List.append_nil]
  have newest : ⟨prepared.mover.nodeRun.id, p.db.nextAttemptNumber prepared.mover.nodeRun.id, status⟩ ∈
      prepared.db.attempts.getLast? := by
    rw [attempts, List.getLast?_concat]
    rfl
  exact denied_concat after gathered (reports.fails failed _ newest)

theorem Acted.follows_complete {req : CompletionRequest} {now : Nat}
    (acted : Acted env wf p (.complete req now) note q) (standing : Standing wf (.idle, p.db))
    (before : Clocked written node p) (after : Clocked written node q)
    (heard : Heard env wf written node p (.complete req now) note q.db) :
    Follows written node p (audit env wf p.db (.complete req now)) q := by
  have done := toOption_some acted.acted
  unfold completeAttempt at done
  unfold audit
  dsimp only
  cases prepares : req.prepare env wf p.db now with
  | error error =>
    rw [prepares] at done
    contradiction
  | ok prepared =>
    rw [prepares] at done
    have isPrepared : (Action.complete req now).prepare env wf p.db = some prepared := by
      simp only [Action.prepare, prepares]
      rfl
    obtain ⟨status, reported⟩ := @CompletionRequest.reported env wf node _ _ _ _ prepares
    obtain ⟨turns, ready⟩ :=
      @CompletionRequest.prepare_ready env wf False False _ _ _ _ standing.keyed False.elim prepares
    have carried : Carried prepared node (prepared.carryOutEvents env wf) q.db :=
      Carried.carryOut ready (Turns.standing turns standing).keyed.serial reported.cancels done
    by_cases here : prepared.mover.nodeRun.node = node
    · refine heard.here isPrepared reported.nodeRuns reported.journal after here reported.state (reported.told here)
        (fun failed => ?_) carried
      exact acted.denied_eq standing before after isPrepared reported.attempts (heard.own prepared isPrepared here)
        failed
    · refine heard.elsewhere isPrepared reported.nodeRuns reported.journal before after standing.keyed.serial
        (prepare_member standing isPrepared) here (reported.silent here) (acted.shown_eq standing before after ?_)
        carried
      intro other found
      rw [Option.some.inj (found.symm.trans isPrepared)]
      exact here

theorem Acted.follows_decide {req : DecisionRequest} {now : Nat} (acted : Acted env wf p (.decide req now) note q)
    (standing : Standing wf (.idle, p.db)) (before : Clocked written node p) (after : Clocked written node q)
    (heard : Heard env wf written node p (.decide req now) note q.db) :
    Follows written node p (audit env wf p.db (.decide req now)) q := by
  have done := toOption_some acted.acted
  unfold decideHumanTask at done
  unfold audit
  dsimp only
  cases prepares : req.prepare wf p.db now with
  | error error =>
    rw [prepares] at done
    contradiction
  | ok prepared =>
    rw [prepares] at done
    have isPrepared : (Action.decide req now).prepare env wf p.db = some prepared := by
      simp only [Action.prepare, prepares]
      rfl
    obtain ⟨rows, journal, decided, notCancel⟩ := decision_prepared prepares
    obtain ⟨turns, ready⟩ :=
      @DecisionRequest.prepare_ready wf False False _ _ _ _ standing.keyed False.elim prepares
    have carried : Carried prepared node (prepared.carryOutEvents env wf) q.db :=
      Carried.carryOut ready (Turns.standing turns standing).keyed.serial (fun isCancel => absurd isCancel notCancel)
        done
    have apart : prepared.mover.nodeRun.node ≠ node := by
      intro here
      have attempt := (heard.own prepared isPrepared here).attempt
      rw [decided] at attempt
      contradiction
    have silent : Silent node prepared.mover.nodeRun.node [req.events prepared.mover.nodeRun] := by
      refine Silent.cons (fun known _ => ?_) Silent.nil
      cases expires : req.expiry <;> simp [tell, DecisionRequest.events, expires]
    refine heard.elsewhere isPrepared rows journal before after standing.keyed.serial
      (prepare_member standing isPrepared) apart silent (acted.shown_eq standing before after ?_) carried
    intro other found
    rw [Option.some.inj (found.symm.trans isPrepared)]
    exact apart

theorem pickUp_cases {db next : RunDb} {route now : Nat} {event : PickupEvent}
    (picked : pickUpRoute env wf db route event now = some next) :
    (next = db ∧ ∃ target, pickUpEvents env wf db route event = [{ type := .eventPickupRefused, nodeID := target }]) ∨
      ∃ entered visit, next = db.startNode entered none none (some event.id) now ∧
        pickUpEvents env wf db route event =
          [{ type := .eventPickedUp, nodeID := entered.id, visit := some visit }, RunDb.dispatched entered visit] := by
  unfold pickUpRoute at picked
  unfold pickUpEvents
  cases found : db.eventRoutes.find? (fun row => row.id = route && row.active && row.eventName = event.name) with
  | none =>
      rw [found] at picked
      contradiction
  | some row =>
      rw [found] at picked
      have done := toOption_some picked
      unfold pickUpEvent at done
      dsimp only
      by_cases ended : db.state.terminal = true
      · rw [if_pos ended] at done ⊢
        exact Or.inl ⟨(Except.ok.inj done).symm, _, rfl⟩
      · rw [if_neg ended] at done
        simp only [if_neg ended]
        cases isEdge : wf.eventEdgeFor row with
        | none =>
            rw [isEdge] at done
            contradiction
        | some edge =>
            rw [isEdge] at done
            cases isTarget : wf.node? row.targetNode with
            | none =>
                rw [isTarget] at done
                contradiction
            | some entered =>
                rw [isTarget] at done
                dsimp only at done ⊢
                by_cases refused : pickupRefused env wf db row edge event = true
                · rw [if_pos refused] at done
                  simp only [if_pos refused]
                  exact Or.inl ⟨(Except.ok.inj done).symm, _, rfl⟩
                · rw [if_neg refused] at done
                  simp only [if_neg refused]
                  exact Or.inr ⟨entered, _, (Except.ok.inj done).symm, rfl⟩

theorem Acted.follows_quiet {events : List RunEvent} (acted : Acted env wf p action note q)
    (standing : Standing wf (.idle, p.db)) (before : Clocked written node p) (after : Clocked written node q)
    (named : node ≠ "") (unprepared : action.prepare env wf p.db = none) (silent : Silent node "" events)
    (same : q.db.newest node = p.db.newest node) : Follows written node p events q := by
  refine Follows.of_silent silent named.symm (acted.shown_eq standing before after ?_ same)
  intro prepared found
  rw [unprepared] at found
  contradiction

theorem Acted.follows_pickUp {route now : Nat} {event : PickupEvent}
    (acted : Acted env wf p (.pickUp route event now) note q) (standing : Standing wf (.idle, p.db))
    (before : Clocked written node p) (after : Clocked written node q) (named : node ≠ "")
    (heard : Heard env wf written node p (.pickUp route event now) note q.db) :
    Follows written node p (audit env wf p.db (.pickUp route event now)) q := by
  have picked : pickUpRoute env wf p.db route event now = some q.db := acted.acted
  change Follows written node p (pickUpEvents env wf p.db route event) q
  obtain ⟨same, target, said⟩ | ⟨entered, visit, started, said⟩ := pickUp_cases picked
  · rw [said]
    refine acted.follows_quiet standing before after named rfl ?_ (by rw [same])
    exact Silent.cons (fun _ _ => rfl) Silent.nil
  · rw [said]
    have rows : q.db.nodeRuns = p.db.nodeRuns ++
        [⟨p.db.nextID + 1, p.db.nextID, entered.id, dispatchState entered.kind, ""⟩] := by
      rw [started, RunDb.startNode_nodeRuns]
    have newest : q.db.newest node = if entered.id = node then some (p.db.nextID + 1, dispatchState entered.kind)
        else p.db.newest node := RunDb.newest_concat rows
    by_cases here : entered.id = node
    · rw [if_pos here, dispatchState] at newest
      by_cases human : entered.kind = .approval
      · rw [if_pos human] at newest
        -- Nothing is said of the node; it must not have been shown as anything.
        have journal : q.db.journal = [.wrote (p.db.nextID + 1) .waitingHuman] ++ p.db.journal := by
          rw [started]
          simp [RunDb.startNode, RunDb.dispatchNode, human, RunDb.insertHumanTask, RunDb.insertNodeRun,
            RunDb.insertToken, dispatchState]
        have wrote : .wrote (p.db.nextID + 1) .waitingHuman ∈ news p.db q.db := by
          rw [news_of_append journal]
          exact List.mem_singleton.mpr rfl
        have unshown : Unshown node p.db := (heard.foreseen wrote newest).2
        refine @Follows.of_silent written node p q _ "" ?_ named.symm ?_
        · refine Silent.cons (fun _ _ => rfl) (Silent.cons (fun known _ => ?_) Silent.nil)
          simp [tell, RunDb.dispatched, human]
        · rw [after.shown_plain newest NodeRunState.noConfusion, before.shown_unshown unshown]
          rfl
      · rw [if_neg human] at newest
        refine Follows.of_tells (fun known => ?_) (after.shown_plain newest NodeRunState.noConfusion)
        simp [tell, RunDb.dispatched, human, here, stateFor]
    · rw [if_neg here] at newest
      refine acted.follows_quiet standing before after named rfl ?_ newest
      exact Silent.cons (fun _ _ => rfl) (silent_dispatched here)

theorem Acted.follows_cancel {parkedAt detail : String} (acted : Acted env wf p (.cancel parkedAt detail) note q)
    (standing : Standing wf (.idle, p.db)) (before : Clocked written node p) (after : Clocked written node q)
    (named : node ≠ "") (heard : Heard env wf written node p (.cancel parkedAt detail) note q.db) :
    Follows written node p (audit env wf p.db (.cancel parkedAt detail)) q := by
  refine acted.follows_quiet standing before after named rfl (Silent.cons (fun _ _ => rfl) Silent.nil) ?_
  have cancelled : p.db.cancelRunGuarded parkedAt detail = some q.db := acted.acted
  have isNext := RunDb.cancelRunGuarded_eq_some cancelled
  obtain ⟨lost, rows, journal⟩ : ∃ lost, q.db.nodeRuns = (p.db.cancelNodeRuns lost).nodeRuns ∧
      q.db.journal = (p.db.cancelNodeRuns lost).journal := isNext ▸ ⟨_, rfl, rfl⟩
  obtain same | ⟨id, found, wrote⟩ := @RunDb.newest_or_wrote p.db q.db node (fun id _ => lost.contains id) _
    .cancelled _ rows (fun _ => ⟨rfl, rfl, rfl⟩) journal fun run _ hit =>
      List.mem_map_of_mem (List.contains_iff_mem.mp hit)
  · exact same
  · obtain ⟨prepared, never, -⟩ := heard.foreseen wrote found
    contradiction

theorem Acted.follows_work {work : Store.WorkAction} (acted : Acted env wf p (.work work) note q)
    (standing : Standing wf (.idle, p.db)) (before : Clocked written node p) (after : Clocked written node q)
    (named : node ≠ "") (heard : Heard env wf written node p (.work work) note q.db) :
    Follows written node p (audit env wf p.db (.work work)) q := by
  have silent : Silent node "" (workEvents p.db work) := by
    unfold workEvents
    dsimp only
    split
    all_goals first
      | exact Silent.nil
      | exact Silent.cons (fun known _ => by simp [tell, named.symm]) Silent.nil
  refine acted.follows_quiet standing before after named rfl silent ?_
  have performed : p.db.workStatement wf work = some q.db := acted.acted
  obtain same | ⟨id, state, isParked, found, wrote⟩ := RunDb.workStatement_newest performed
  · exact same
  · have foreseen := heard.foreseen wrote found
    obtain rfl | rfl := isParked
    · exact foreseen.symm
    · exact foreseen.symm

/-- Every transaction of the engine. -/
theorem Acted.follows (acted : Acted env wf p action note q) (standing : Standing wf (.idle, p.db))
    (before : Clocked written node p) (after : Clocked written node q) (named : node ≠ "")
    (heard : Heard env wf written node p action note q.db) :
    Follows written node p (audit env wf p.db action) q := by
  cases action with
  | complete req now => exact acted.follows_complete standing before after heard
  | decide req now => exact acted.follows_decide standing before after heard
  | pickUp route event now => exact acted.follows_pickUp standing before after named heard
  | cancel parkedAt detail => exact acted.follows_cancel standing before after named heard
  | work action => exact acted.follows_work standing before after named heard

end

end

end CultureNodes.Web
