import CultureNodes.Worker.Execute

/-!
What a dispatch does along every path: it releases its work or invokes its actor, never both, invokes
it within its attempts only, and opens a session only after it counted and recorded it.
-/

namespace CultureNodes.Worker

open Store Program

/-- The calls that change none of the tables, but for the count of the sessions. -/
def DispatchStatement.looks : DispatchStatement → Bool
  | .runSessionStarts => false
  | .consumePreflight _ _ => false
  | .issuePreflight _ _ _ => false
  | .deferWork _ => false
  | .recordSessionStart _ => false
  | .invoke _ _ => false
  | .complete _ => false
  | .startAsyncWait => false
  | _ => true

/-- The calls that neither count, record nor open a session, nor release the work. -/
def DispatchStatement.neutral : DispatchStatement → Bool
  | .runSessionStarts => false
  | .recordSessionStart _ => false
  | .invoke _ _ => false
  | .deferWork _ => false
  | _ => true

abbrev Looks {ρ : Type} (program : DispatchProgram ρ) : Prop :=
  program.Calls fun statement => statement.looks = true

abbrev Neutral {ρ : Type} (program : DispatchProgram ρ) : Prop :=
  program.Calls fun statement => statement.neutral = true

theorem Looks.neutral {ρ : Type} {program : DispatchProgram ρ} (looks : Looks program) :
    Neutral program := by
  refine looks.mono fun statement isLook => ?_
  cases statement <;> first | rfl | contradiction

section

variable (budget : Budget) (dispatch : Dispatch)

/-- What a dispatch may call, after what it has done so far. -/
def Allowed (past : DispatchPast) : DispatchStatement → Prop
  | .invoke _ cold => past.settled = false ∧ budgetExhausted dispatch.claim = false ∧
      (cold = true → 0 < budget.maxSessions → past.charged = true)
  | .deferWork _ => past.settled = false
  | .recordSessionStart _ => ∃ started, past.started = some started ∧ started < budget.maxSessions
  | _ => True

abbrev Dispatched {ρ : Type} (ends : DispatchPast → ρ → Prop) (past : DispatchPast)
    (program : DispatchProgram ρ) : Prop :=
  program.Follows (Allowed budget dispatch) DispatchPast.after ends past

end

variable {options : WorkerOptions} {budget : Budget} {dispatch : Dispatch} {lane : LaneDecision}
  {past : DispatchPast} {ρ : Type}

theorem Neutral.dispatched {program : DispatchProgram ρ} (neutral : Neutral program) :
    Dispatched budget dispatch (fun last _ => last = past) past program := by
  refine Follows.of_calls neutral fun past statement isNeutral => ?_
  cases statement <;> first | exact ⟨trivial, fun _ => rfl⟩ | contradiction

theorem Neutral.ends {program : DispatchProgram ρ} (neutral : Neutral program) :
    Dispatched budget dispatch (fun _ _ => True) past program :=
  neutral.dispatched.mono fun _ _ _ => trivial

/-- One call, and what follows it. -/
theorem run_dispatched {ends : DispatchPast → ρ → Prop} {statement : DispatchStatement}
    {next : statement.Answer → DispatchProgram ρ} (allowed : Allowed budget dispatch past statement)
    (later : ∀ answer, Dispatched budget dispatch ends (past.after statement answer) (next answer)) :
    Dispatched budget dispatch ends past (statement.run >>= next) :=
  ⟨allowed, later⟩

theorem complete_neutral (completion : Completion) (outcome : DispatchOutcome) :
    Neutral (complete completion outcome) := by
  refine Calls.bind (.ask rfl) fun answer => ?_
  split <;> exact trivial

theorem parkExhausted_neutral : Neutral parkExhausted := by
  unfold parkExhausted
  exact .bind (.ask rfl) fun _ => complete_neutral _ _

theorem refuseUnfunded_neutral : Neutral refuseUnfunded := by
  unfold refuseUnfunded
  exact .bind (.ask rfl) fun _ => complete_neutral _ _

theorem decideLane_looks (session : SessionPlan) : Looks (decideLane dispatch session) := by
  unfold decideLane
  dsimp only
  split
  · exact trivial
  · refine .bind (.ask rfl) fun now => .bind (.ask rfl) fun row => ?_
    split
    · exact trivial
    · refine .bind (.ask rfl) fun fallback => ?_
      split
      · exact trivial
      · refine .bind (.ask rfl) fun other => ?_
        split
        · exact trivial
        · exact .bind (.ask rfl) fun rowID => trivial

theorem activePauseFor_looks (ref : String) : Looks (activePauseFor ref) := by
  unfold activePauseFor
  split
  · exact trivial
  · refine .bind (.ask rfl) fun answer => ?_
    split <;> exact trivial

theorem atActorCapacity_looks (ref rowID : String) : Looks (atActorCapacity options ref rowID) := by
  unfold atActorCapacity
  split
  · exact trivial
  · split
    · exact trivial
    · refine .bind (.ask rfl) fun answer => ?_
      split <;> exact trivial

theorem consumeDispatchSlot_looks (ref : String) : Looks (consumeDispatchSlot options ref) := by
  unfold consumeDispatchSlot
  split
  · exact trivial
  · refine .bind (.ask rfl) fun answer => ?_
    split <;> exact trivial

theorem recordLaneDecision_neutral (lane : LaneDecision) : Neutral (recordLaneDecision lane) := by
  unfold recordLaneDecision
  split
  · exact trivial
  · refine .bind (.ask rfl) fun answer => ?_
    split
    · exact trivial
    · split
      · exact trivial
      · exact .bind (complete_neutral _ _) fun _ => trivial

theorem runPreRunHook_neutral : Neutral (runPreRunHook dispatch) := by
  unfold runPreRunHook
  split
  · exact trivial
  · refine .bind (.ask rfl) fun answer => ?_
    split
    · exact trivial
    · exact .bind (complete_neutral _ _) fun _ => trivial

theorem afterInvocation_neutral (target : String) (reply : InvocationReply) :
    Neutral (afterInvocation dispatch target reply) := by
  cases reply with
  | failed errorClass =>
      refine .bind (complete_neutral _ _) fun outcome => ?_
      split
      · exact .bind (.ask rfl) fun _ => trivial
      · exact trivial
  | result => exact complete_neutral _ _
  | accepted =>
      rw [afterInvocation]
      split
      · exact complete_neutral _ _
      · refine .bind (.ask rfl) fun answer => ?_
        split <;> exact trivial

theorem uncachedUnfunded_looks : Looks (uncachedUnfunded budget) := by
  unfold uncachedUnfunded
  split
  · exact trivial
  · refine .bind (.ask rfl) fun answer => ?_
    split
    · exact trivial
    · split <;> exact trivial

/-- A dispatch that is about to open a session counted fewer than the workflow allows. -/
def Counted (budget : Budget) (session : SessionPlan) (past : DispatchPast) : Prop :=
  session.coldStart = true → 0 < budget.maxSessions →
    ∃ started, past.started = some started ∧ started < budget.maxSessions

theorem sessionsUnfunded_dispatched (session : SessionPlan) :
    Dispatched budget dispatch
      (fun last result => last.settled = past.settled ∧
        (result = .ok none → Counted budget session last))
      past (sessionsUnfunded budget session) := by
  unfold sessionsUnfunded
  split
  · rename_i unbounded
    refine ⟨rfl, fun _ cold bounded => ?_⟩
    simp [cold, bounded.ne'] at unbounded
  · refine run_dispatched trivial fun answer => ?_
    cases answer with
    | error reason => exact ⟨rfl, fun funded => by cases funded⟩
    | ok started =>
        dsimp only
        split
        · exact ⟨rfl, fun funded => by cases funded⟩
        · rename_i room
          exact ⟨rfl, fun _ _ _ => ⟨started, rfl, Nat.lt_of_succ_le (Nat.le_of_not_gt room)⟩⟩

theorem unfunded_dispatched (session : SessionPlan) :
    Dispatched budget dispatch
      (fun last result => last.settled = past.settled ∧
        (result = .ok none → Counted budget session last))
      past (unfunded budget session) := by
  unfold unfunded
  split
  · rename_i undeclared
    refine ⟨rfl, fun _ _ bounded => ?_⟩
    simp [Budget.declared, bounded] at undeclared
  · refine Follows.bind ((sessionsUnfunded_dispatched session).mono fun last result counted => ?_)
    obtain ⟨sameSettled, counted⟩ := counted
    split
    · exact ⟨sameSettled, fun funded => by cases funded⟩
    · exact ⟨sameSettled, fun funded => by cases funded⟩
    · refine uncachedUnfunded_looks.neutral.dispatched.mono fun last' result' same => ?_
      rw [same]
      exact ⟨sameSettled, fun _ => counted rfl⟩

theorem deferUntil_dispatched (availableAt : Int) (unsettled : past.settled = false) :
    Dispatched budget dispatch (fun _ _ => True) past (deferUntil availableAt) := by
  refine run_dispatched unsettled fun answer => ?_
  split <;> exact trivial

theorem deferForPause_dispatched (pause : ActorPause) (unsettled : past.settled = false) :
    Dispatched budget dispatch (fun _ _ => True) past (deferForPause pause) := by
  unfold deferForPause
  exact run_dispatched trivial fun now => deferUntil_dispatched _ unsettled

theorem deferForCapacity_dispatched (unsettled : past.settled = false) :
    Dispatched budget dispatch (fun _ _ => True) past deferForCapacity := by
  unfold deferForCapacity
  exact run_dispatched trivial fun now => deferUntil_dispatched _ unsettled

theorem deferForPacing_dispatched (decision : DispatchRateDecision)
    (unsettled : past.settled = false) :
    Dispatched budget dispatch (fun _ _ => True) past (deferForPacing decision) := by
  unfold deferForPacing
  exact run_dispatched trivial fun now => deferUntil_dispatched _ unsettled

/-- A call that adds nothing to the past, and what follows it. -/
theorem Neutral.bind_dispatched {τ : Type} {ends : DispatchPast → τ → Prop}
    {program : DispatchProgram ρ} {next : ρ → DispatchProgram τ} (neutral : Neutral program)
    (later : ∀ result, Dispatched budget dispatch ends past (next result)) :
    Dispatched budget dispatch ends past (program >>= next) := by
  refine Follows.bind (neutral.dispatched.mono fun last result same => ?_)
  rw [same]
  exact later result

theorem issuePreflight_dispatched (config : PreflightConfig) (gate : PreflightGate) (ref : String)
    (now : Int) (unsettled : past.settled = false) :
    Dispatched budget dispatch (fun _ _ => True) past (issuePreflight config gate ref now) := by
  unfold issuePreflight
  split
  · refine Neutral.bind_dispatched (.ask rfl) fun answer => ?_
    split
    · exact (complete_neutral _ _).ends
    · refine Neutral.bind_dispatched (.ask rfl) fun issued => ?_
      split
      · exact trivial
      · exact deferUntil_dispatched _ unsettled
  · exact (complete_neutral _ _).ends

theorem stop_dispatched {program : DispatchProgram DispatchOutcome}
    (ends : Dispatched budget dispatch (fun _ _ => True) past program) :
    Dispatched budget dispatch (fun last result => result = none → last = past) past
      (program >>= fun outcome => pure (some outcome)) :=
  Follows.bind (ends.mono fun last outcome _ impossible => by cases impossible)

theorem judgePreflight_dispatched (row : Preflight) (now : Int) (unsettled : past.settled = false) :
    Dispatched budget dispatch (fun last result => result = none → last = past) past
      (judgePreflight row now) := by
  unfold judgePreflight
  split
  · refine run_dispatched trivial fun consumed => ?_
    unfold afterConsume
    split
    · exact fun impossible => by cases impossible
    · exact fun _ => rfl
    · exact stop_dispatched (deferUntil_dispatched _ unsettled)
  · split
    · exact stop_dispatched (complete_neutral _ _).ends
    · exact stop_dispatched (deferUntil_dispatched _ unsettled)

theorem clarifyGate_dispatched (ref : String) (unsettled : past.settled = false) :
    Dispatched budget dispatch (fun last result => result = none → last = past) past
      (clarifyGate ref) := by
  unfold clarifyGate
  refine run_dispatched trivial fun answer => ?_
  split
  · exact fun _ => rfl
  · exact fun impossible => by cases impossible
  · unfold configuredGate
    split
    · exact stop_dispatched (complete_neutral _ _).ends
    · split
      · exact fun _ => rfl
      · refine run_dispatched trivial fun now => run_dispatched trivial fun found => ?_
        unfold afterOpen
        split
        · exact fun impossible => by cases impossible
        · exact stop_dispatched (issuePreflight_dispatched _ _ _ _ unsettled)
        · exact judgePreflight_dispatched _ _ unsettled

/-- A session that is about to open has been recorded. -/
theorem chargeSession_dispatched (counted : Counted budget lane.session past) :
    Dispatched budget dispatch
      (fun last result => last.settled = past.settled ∧ (result = .ok () →
        lane.session.coldStart = true → 0 < budget.maxSessions → last.charged = true))
      past (chargeSession budget lane) := by
  by_cases charged : (!lane.session.coldStart || decide (budget.maxSessions = 0)) = true
  · rw [chargeSession, if_pos charged]
    refine ⟨rfl, fun _ cold bounded => ?_⟩
    simp [cold, bounded.ne'] at charged
  · rw [chargeSession, if_neg charged]
    simp only [Bool.or_eq_true, Bool.not_eq_true', decide_eq_true_eq, not_or,
      Bool.not_eq_false] at charged
    refine run_dispatched (counted charged.1 (Nat.pos_of_ne_zero charged.2)) fun answer => ?_
    cases answer with
    | error reason => exact ⟨rfl, fun impossible => by cases impossible⟩
    | ok _ => exact ⟨rfl, fun _ _ _ => rfl⟩

theorem invokeActor_dispatched (unsettled : past.settled = false)
    (within : budgetExhausted dispatch.claim = false) (counted : Counted budget lane.session past) :
    Dispatched budget dispatch (fun _ _ => True) past (invokeActor budget dispatch lane) := by
  unfold invokeActor
  refine run_dispatched trivial fun resolved => ?_
  split
  · exact (complete_neutral _ _).ends
  · refine run_dispatched trivial fun offered => ?_
    split
    · exact (complete_neutral _ _).ends
    · refine Follows.bind ((chargeSession_dispatched counted).mono fun last result recorded => ?_)
      obtain ⟨sameSettled, charged⟩ := recorded
      split
      · exact trivial
      · refine run_dispatched ⟨sameSettled.trans unsettled, within, charged rfl⟩ fun reply => ?_
        exact (afterInvocation_neutral _ _).ends

theorem proceedToActor_dispatched (unsettled : past.settled = false)
    (within : budgetExhausted dispatch.claim = false) (counted : Counted budget lane.session past) :
    Dispatched budget dispatch (fun _ _ => True) past
      (proceedToActor options budget dispatch lane) := by
  unfold proceedToActor
  split
  · exact (complete_neutral _ _).ends
  · refine Neutral.bind_dispatched (recordLaneDecision_neutral _) fun recorded => ?_
    split
    · exact trivial
    · refine Neutral.bind_dispatched runPreRunHook_neutral fun hooked => ?_
      split
      · exact trivial
      · exact invokeActor_dispatched unsettled within counted

theorem throughGates_dispatched (unsettled : past.settled = false)
    (within : budgetExhausted dispatch.claim = false) (counted : Counted budget lane.session past) :
    Dispatched budget dispatch (fun _ _ => True) past
      (throughGates options budget dispatch lane) := by
  unfold throughGates
  refine Neutral.bind_dispatched (activePauseFor_looks _).neutral fun pause => ?_
  split
  · exact deferForPause_dispatched _ unsettled
  · refine Neutral.bind_dispatched (atActorCapacity_looks _ _).neutral fun full => ?_
    split
    · exact deferForCapacity_dispatched unsettled
    · refine Follows.bind ((clarifyGate_dispatched _ unsettled).mono fun last result same => ?_)
      split
      · exact trivial
      · rw [same rfl]
        refine Neutral.bind_dispatched (consumeDispatchSlot_looks _).neutral fun paced => ?_
        split
        · exact deferForPacing_dispatched _ unsettled
        · exact proceedToActor_dispatched unsettled within counted

/-- A dispatch, along every path. -/
theorem dispatchActor_dispatched (options : WorkerOptions) (budget : Budget) (dispatch : Dispatch) :
    Dispatched budget dispatch (fun _ _ => True) {} (dispatchActor options budget dispatch) := by
  unfold dispatchActor
  split
  · exact parkExhausted_neutral.ends
  · rename_i within
    rw [Bool.not_eq_true] at within
    refine run_dispatched trivial fun session => ?_
    refine Neutral.bind_dispatched (decideLane_looks session).neutral fun lane => ?_
    refine Follows.bind ((unfunded_dispatched lane.session).mono fun last result funded => ?_)
    obtain ⟨unsettled, counted⟩ := funded
    split
    · exact trivial
    · exact refuseUnfunded_neutral.ends
    · exact throughGates_dispatched unsettled within (counted rfl)

end CultureNodes.Worker
