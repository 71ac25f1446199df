import CultureNodes.Worker.Calls

/-!
The acknowledgement a briefed actor has given is spent by the dispatch that goes on past the gate. The
rates are asked behind the gate: a dispatch they refuse is deferred, its acknowledgement spent.
-/

namespace CultureNodes.Worker

open Store Program

section

variable (options : WorkerOptions) (budget : Budget) (world : DispatchWorld) (tables : DispatchTables)
  (dispatch : Dispatch)

/-- A part of a dispatch, with nothing else under way: the tables it leaves, and its result. -/
def ran {ρ : Type} (program : DispatchProgram ρ) : DispatchTables × ρ :=
  alone (fun tables statement => execute world tables dispatch statement) tables program

/-- The acknowledgements that authorize a dispatch at an instant. -/
def acknowledgements (now : Int) : List Preflight := tables.preflights.filter (·.usable now)

def KeepsAcknowledgements : Prop :=
  (ran world tables dispatch (dispatchActor options budget dispatch)).2 = .deferred →
    ∀ now, acknowledgements (ran world tables dispatch (dispatchActor options budget dispatch)).1 now =
      acknowledgements tables now

def laneOf : LaneDecision :=
  (ran world tables dispatch (decideLane dispatch (world.plan dispatch.node.uses))).2

/-- The briefing is acknowledged and can still be spent. -/
def Spendable (row : Preflight) (now : Int) : Prop :=
  row.usable now = true ∧ world.fails (.consumePreflight row.id now) = none ∧
    ∃ spent ∈ tables.preflights, spent.id = row.id ∧ spent.usable now = true

/-- The gate of the lane is on, and the briefing it finds is acknowledged and can still be spent. -/
def SpendsOn (ref : String) : Prop :=
  ∃ config gate row, world.config ref = some (.ok config) ∧ config.gate = .ok gate ∧
    gate.enabled = true ∧ world.fails (.openPreflight (actorKeyOf ref)) = none ∧
    openPreflight (world.earlier.getD tables.preflights) dispatch.nodeRun (actorKeyOf ref) =
      some row ∧
    Spendable world tables row (world.clock .gate)

/-- When a dispatch that the rates refuse is to be tried again. -/
def pacedUntil : Int :=
  min (max world.slots.retryAt (world.clock .pacing + Duration.second))
    (world.clock .pacing + 300 * Duration.second)

/-- The rates refuse the dispatch, and its claim still holds the work it is to release. -/
structure Paced (ref : String) : Prop where
  declared : options.pacing.enabled = true
  read : world.fails (.consumeDispatchSlots (actorKeyOf ref)) = none
  refused : world.slots.allowed = false
  released : world.fails (.deferWork (pacedUntil world)) = none
  held : tables.work.tables.items.any (·.heldBy dispatch.claim) = true

/-- The dispatch comes to the gate of its lane, which lets it pass on an acknowledgement; the rates then
refuse it, and its work is released. -/
structure SpendsThenPaced : Prop where
  within : budgetExhausted dispatch.claim = false
  funded : (ran world tables dispatch
    (unfunded budget (laneOf world tables dispatch).session)).2 = .ok none
  unpaused : (ran world tables dispatch
    (activePauseFor (laneOf world tables dispatch).target)).2 = none
  room : (ran world tables dispatch (atActorCapacity options (laneOf world tables dispatch).target
    (laneOf world tables dispatch).session.actorRowID)).2 = false
  spends : SpendsOn world tables dispatch (laneOf world tables dispatch).target
  paced : Paced options world tables dispatch (laneOf world tables dispatch).target

end

variable {options : WorkerOptions} {budget : Budget} {world : DispatchWorld} {tables : DispatchTables}
  {dispatch : Dispatch} {lane : LaneDecision} {ref : String} {ρ τ : Type}

@[simp] theorem ran_done (result : ρ) :
    ran world tables dispatch (.done result : DispatchProgram ρ) = (tables, result) := rfl

theorem ran_bind (program : DispatchProgram ρ) (next : ρ → DispatchProgram τ) :
    ran world tables dispatch (program >>= next) =
      ran world (ran world tables dispatch program).1 dispatch
        (next (ran world tables dispatch program).2) :=
  alone_bind program next

theorem ran_run (statement : DispatchStatement) :
    ran world tables dispatch statement.run = execute world tables dispatch statement := rfl

theorem Looks.ran {program : DispatchProgram ρ} (looks : Looks program) :
    (ran world tables dispatch program).1 = tables := by
  refine Calls.alone_kept id looks fun tables statement isLook => ?_
  cases statement <;> first | rfl | contradiction | exact DispatchWorld.read_tables _

theorem ran_looks_bind {program : DispatchProgram ρ} (looks : Looks program)
    (next : ρ → DispatchProgram τ) :
    ran world tables dispatch (program >>= next) =
      ran world tables dispatch (next (ran world tables dispatch program).2) := by
  rw [ran_bind, looks.ran]

theorem unfunded_ran (session : SessionPlan) :
    (ran world tables dispatch (unfunded budget session)).1 = tables := by
  have counts : (ran world tables dispatch (sessionsUnfunded budget session)).1 = tables := by
    unfold sessionsUnfunded
    split
    · rfl
    · rw [ran_bind, ran_run]
      simp only [execute, DispatchWorld.read]
      split
      · rfl
      · dsimp only
        split <;> rfl
  unfold unfunded
  split
  · rfl
  · rw [ran_bind, counts]
    split
    · rfl
    · rfl
    · exact uncachedUnfunded_looks.ran

/-- The calls that spend no acknowledgement. -/
def DispatchStatement.spares : DispatchStatement → Bool
  | .consumePreflight _ _ => false
  | _ => true

abbrev Spares {ρ : Type} (program : DispatchProgram ρ) : Prop :=
  program.Calls fun statement => statement.spares = true

theorem acknowledgements_append {row : Preflight} (now : Int) (unanswered : row.acknowledgedAt = none) :
    (tables.preflights ++ [row]).filter (·.usable now) = tables.preflights.filter (·.usable now) := by
  simp [List.filter_append, Preflight.usable, Preflight.acknowledged, unanswered]

theorem Spares.ran {program : DispatchProgram ρ} (spares : Spares program) (now : Int) :
    acknowledgements (ran world tables dispatch program).1 now = acknowledgements tables now := by
  refine Calls.alone_kept (acknowledgements · now) spares fun tables statement isSparing => ?_
  cases statement with
  | consumePreflight id time => contradiction
  | issuePreflight actorKey issuedAt expiresAt =>
      exact DispatchWorld.write_kept (acknowledgements · now) (acknowledgements_append now rfl)
  | recordSessionStart actorRef =>
      refine DispatchWorld.write_kept (acknowledgements · now) ?_
      split <;> rfl
  | deferWork availableAt =>
      refine DispatchWorld.claimWrite_kept (acknowledgements · now) fun written isWritten => ?_
      obtain ⟨_, _, rfl⟩ := Option.map_eq_some_iff.mp isWritten
      rfl
  | complete completion =>
      refine DispatchWorld.claimWrite_kept (acknowledgements · now) fun written isWritten => ?_
      obtain ⟨_, _, rfl⟩ := Option.map_eq_some_iff.mp isWritten
      rfl
  | startAsyncWait =>
      refine DispatchWorld.claimWrite_kept (acknowledgements · now) fun written isWritten => ?_
      obtain ⟨_, _, rfl⟩ := Option.map_eq_some_iff.mp isWritten
      rfl
  | _ => first | rfl | exact congrArg (acknowledgements · now) (DispatchWorld.read_tables _)

theorem deferUntil_spares (availableAt : Int) : Spares (deferUntil availableAt) := by
  unfold deferUntil
  refine .bind (.ask rfl) fun answer => ?_
  split <;> exact trivial

theorem deferForPause_spares (pause : ActorPause) : Spares (deferForPause pause) := by
  unfold deferForPause
  exact .bind (.ask rfl) fun now => deferUntil_spares _

theorem deferForCapacity_spares : Spares deferForCapacity := by
  unfold deferForCapacity
  exact .bind (.ask rfl) fun now => deferUntil_spares _

theorem deferForPacing_spares (decision : DispatchRateDecision) :
    Spares (deferForPacing decision) := by
  unfold deferForPacing
  exact .bind (.ask rfl) fun now => deferUntil_spares _

theorem complete_spares (completion : Completion) (outcome : DispatchOutcome) :
    Spares (complete completion outcome) := by
  unfold complete
  refine .bind (.ask rfl) fun answer => ?_
  split <;> exact trivial

theorem parkExhausted_spares : Spares parkExhausted := by
  unfold parkExhausted
  exact .bind (.ask rfl) fun _ => complete_spares _ _

theorem refuseUnfunded_spares : Spares refuseUnfunded := by
  unfold refuseUnfunded
  exact .bind (.ask rfl) fun _ => complete_spares _ _

theorem issuePreflight_spares (config : PreflightConfig) (gate : PreflightGate) (now : Int) :
    Spares (issuePreflight config gate ref now) := by
  unfold issuePreflight
  split
  · refine .bind (.ask rfl) fun answer => ?_
    split
    · exact complete_spares _ _
    · refine .bind (.ask rfl) fun issued => ?_
      split
      · exact trivial
      · exact deferUntil_spares _
  · exact complete_spares _ _

/-- The gate stops the dispatch, and spends nothing where it defers it. -/
def Stops (world : DispatchWorld) (tables : DispatchTables) (dispatch : Dispatch)
    (program : DispatchProgram (Option DispatchOutcome)) : Prop :=
  ∃ outcome, (ran world tables dispatch program).2 = some outcome ∧ (outcome = .deferred →
    ∀ now, acknowledgements (ran world tables dispatch program).1 now = acknowledgements tables now)

theorem stops_of_spares {program : DispatchProgram DispatchOutcome} (spares : Spares program) :
    Stops world tables dispatch (program >>= fun outcome => pure (some outcome)) := by
  refine ⟨(ran world tables dispatch program).2, ?_, fun _ now => ?_⟩
  · rw [ran_bind]
    rfl
  · rw [ran_bind]
    exact spares.ran now

theorem stops_of_error (reason : String) :
    Stops world tables dispatch (pure (some (.errored reason))) :=
  ⟨.errored reason, rfl, fun impossible => by cases impossible⟩

theorem consumePreflight_none {rows : List Preflight} {id attempt : Nat} {now : Int}
    (unmatched : (rows.any fun row => row.id = id && row.usable now) = false) :
    consumePreflight rows id attempt now = rows := by
  rw [List.any_eq_false] at unmatched
  unfold consumePreflight Table.update
  refine (List.map_congr_left fun row member => ?_).trans (List.map_id _)
  rw [if_neg (unmatched row member)]
  rfl

theorem judgePreflight_cases (row : Preflight) (now : Int) :
    (Spendable world tables row now ∧ ran world tables dispatch (judgePreflight row now) =
      (tables.spend row.id dispatch.attempt now, none)) ∨
    (¬ Spendable world tables row now ∧ Stops world tables dispatch (judgePreflight row now)) := by
  by_cases usable : row.usable now = true
  · have judged : judgePreflight row now =
        (DispatchStatement.consumePreflight row.id now).run >>= afterConsume row now := by
      rw [judgePreflight, if_pos usable]
    rw [judged, Stops, ran_bind, ran_run]
    simp only [execute, DispatchWorld.write]
    cases failed : world.fails (.consumePreflight row.id now) with
    | some reason =>
        refine Or.inr ⟨fun spendable => ?_, .errored reason, rfl, fun impossible => ?_⟩
        · exact Option.some_ne_none _ (failed.symm.trans spendable.2.1)
        · cases impossible
    | none =>
        cases found : tables.preflights.any fun other => other.id = row.id && other.usable now with
        | true =>
            refine Or.inl ⟨⟨usable, failed, ?_⟩, rfl⟩
            simpa using List.any_eq_true.mp found
        | false =>
            have same : tables.spend row.id dispatch.attempt now = tables := by
              rw [DispatchTables.spend, consumePreflight_none found]
            refine Or.inr ⟨fun spendable => ?_, ?_⟩
            · obtain ⟨_, _, spent, member, isSpent⟩ := spendable
              exact List.any_eq_false.mp found spent member (by simpa using isSpent)
            · rw [same]
              exact stops_of_spares (deferUntil_spares _)
  · rw [judgePreflight, if_neg usable]
    refine Or.inr ⟨fun spendable => usable spendable.1, ?_⟩
    split
    · exact stops_of_spares (complete_spares _ _)
    · exact stops_of_spares (deferUntil_spares _)

/-- The gate of a registration that could be read, on an acknowledgement or not. -/
def ConfiguredSpends (world : DispatchWorld) (tables : DispatchTables) (dispatch : Dispatch)
    (config : PreflightConfig) (ref : String) : Prop :=
  ∃ gate row, config.gate = .ok gate ∧ gate.enabled = true ∧
    world.fails (.openPreflight (actorKeyOf ref)) = none ∧
    openPreflight (world.earlier.getD tables.preflights) dispatch.nodeRun (actorKeyOf ref) =
      some row ∧
    Spendable world tables row (world.clock .gate)

/-- What a gate comes to: it spends an acknowledgement, leaves the tables as they are, or stops the
dispatch. -/
def GateCases (world : DispatchWorld) (tables : DispatchTables) (dispatch : Dispatch) (spends : Prop)
    (program : DispatchProgram (Option DispatchOutcome)) : Prop :=
  (spends ∧ ∃ id, (∃ spent ∈ tables.preflights, spent.id = id ∧
      spent.usable (world.clock .gate) = true) ∧
    ran world tables dispatch program =
      (tables.spend id dispatch.attempt (world.clock .gate), none)) ∨
  (¬ spends ∧ (ran world tables dispatch program = (tables, none) ∨
    Stops world tables dispatch program))

theorem configuredGate_cases (config : PreflightConfig) :
    GateCases world tables dispatch (ConfiguredSpends world tables dispatch config ref)
      (configuredGate config ref) := by
  unfold configuredGate
  cases gated : config.gate with
  | error reason =>
      refine Or.inr ⟨?_, Or.inr (stops_of_spares (complete_spares _ _))⟩
      rintro ⟨gate, _, isGate, _⟩
      rw [gated] at isGate
      contradiction
  | ok gate =>
      by_cases enabled : gate.enabled = true
      · have openGate : Looks (DispatchStatement.now .gate).run := .ask rfl
        have openRead : Looks (DispatchStatement.openPreflight (actorKeyOf ref)).run := .ask rfl
        have read : (ran world tables dispatch
            (DispatchStatement.openPreflight (actorKeyOf ref)).run).2 =
          (world.read tables (.openPreflight (actorKeyOf ref)) (openPreflight
            (world.earlier.getD tables.preflights) dispatch.nodeRun (actorKeyOf ref))).2 := rfl
        simp only [enabled, Bool.not_true, Bool.false_eq_true, if_false]
        unfold GateCases Stops
        rw [ran_looks_bind openGate, ran_looks_bind openRead, read, DispatchWorld.read]
        cases failed : world.fails (.openPreflight (actorKeyOf ref)) with
        | some reason =>
            refine Or.inr ⟨?_, Or.inr (stops_of_error reason)⟩
            rintro ⟨_, _, _, _, works, _⟩
            exact Option.some_ne_none _ (failed.symm.trans works)
        | none =>
            cases found : openPreflight (world.earlier.getD tables.preflights) dispatch.nodeRun
                (actorKeyOf ref) with
            | none =>
                refine Or.inr ⟨?_, Or.inr (stops_of_spares (issuePreflight_spares _ _ _))⟩
                rintro ⟨_, _, _, _, _, isFound, _⟩
                exact Option.some_ne_none _ (isFound.symm.trans found)
            | some row =>
                rcases @judgePreflight_cases world tables dispatch row (world.clock .gate) with
                  ⟨spendable, judged⟩ | ⟨unspendable, stops⟩
                · exact Or.inl ⟨⟨gate, row, gated, enabled, failed, found, spendable⟩, row.id,
                    spendable.2.2, judged⟩
                · refine Or.inr ⟨?_, Or.inr stops⟩
                  rintro ⟨_, other, _, _, _, isFound, spendable⟩
                  obtain rfl := Option.some.inj (found.symm.trans isFound)
                  exact unspendable spendable
      · rw [Bool.not_eq_true] at enabled
        simp only [enabled, Bool.not_false, if_true]
        refine Or.inr ⟨?_, Or.inl rfl⟩
        rintro ⟨other, _, isGate, isOn, _⟩
        obtain rfl := Except.ok.inj (gated.symm.trans isGate)
        rw [enabled] at isOn
        contradiction

theorem clarifyGate_cases :
    GateCases world tables dispatch (SpendsOn world tables dispatch ref) (clarifyGate ref) := by
  have asked : Looks (DispatchStatement.preflightConfig ref).run := .ask rfl
  have answered : (ran world tables dispatch (DispatchStatement.preflightConfig ref).run).2 =
    world.config ref := rfl
  unfold clarifyGate
  cases configured : world.config ref with
  | none =>
      unfold GateCases
      rw [ran_looks_bind asked, answered, configured]
      refine Or.inr ⟨?_, Or.inl rfl⟩
      rintro ⟨config, _, _, isConfig, _⟩
      rw [configured] at isConfig
      contradiction
  | some read =>
      unfold GateCases Stops
      rw [ran_looks_bind asked, answered, configured]
      cases read with
      | error reason =>
          refine Or.inr ⟨?_, Or.inr (stops_of_error reason)⟩
          rintro ⟨config, _, _, isConfig, _⟩
          rw [configured] at isConfig
          cases isConfig
      | ok config =>
          have same : SpendsOn world tables dispatch ref ↔
              ConfiguredSpends world tables dispatch config ref := by
            unfold SpendsOn ConfiguredSpends
            rw [configured]
            simp
          rw [same]
          exact configuredGate_cases config

/-- One call, and what follows it. -/
theorem run_yields {fits : ρ → Prop} {statement : DispatchStatement}
    {next : statement.Answer → DispatchProgram ρ} (later : ∀ answer, Yields fits (next answer)) :
    Yields fits (statement.run >>= next) :=
  later

theorem complete_yields {outcome : DispatchOutcome} (completion : Completion)
    (other : outcome ≠ .deferred) : Yields (· ≠ .deferred) (complete completion outcome) := by
  unfold complete
  refine run_yields fun answer => ?_
  split
  · exact other
  · exact fun impossible => by cases impossible
  · exact fun impossible => by cases impossible

theorem failAttempt_yields (status : TechStatus) (diagnosticClass : String) :
    Yields (· ≠ .deferred) (failAttempt status diagnosticClass) :=
  complete_yields _ (fun impossible => by cases impossible)

theorem afterInvocation_yields (target : String) (reply : InvocationReply) :
    Yields (· ≠ .deferred) (afterInvocation dispatch target reply) := by
  cases reply with
  | failed errorClass =>
      refine Yields.bind ((complete_yields _ (fun impossible => by cases impossible)).mono fun outcome other => ?_)
      split
      · exact run_yields fun _ => other
      · exact other
  | result => exact complete_yields _ (fun impossible => by cases impossible)
  | accepted =>
      rw [afterInvocation]
      split
      · exact failAttempt_yields _ _
      · refine run_yields fun answer => ?_
        split <;> exact fun impossible => by cases impossible

theorem invokeActor_yields :
    Yields (· ≠ .deferred) (invokeActor budget dispatch lane) := by
  unfold invokeActor
  refine run_yields fun resolved => ?_
  split
  · exact failAttempt_yields _ _
  · refine run_yields fun offered => ?_
    split
    · exact failAttempt_yields _ _
    · refine Yields.bind (.of_forall fun charged => ?_)
      split
      · exact fun impossible => by cases impossible
      · exact run_yields fun reply => afterInvocation_yields _ _

theorem stop_yields {program : DispatchProgram DispatchOutcome}
    (yields : Yields (· ≠ .deferred) program) :
    Yields (· ≠ some .deferred) (program >>= fun outcome => pure (some outcome)) :=
  Yields.bind (yields.mono fun _ other isDeferred => other (Option.some.inj isDeferred))

theorem recordLaneDecision_yields : Yields (· ≠ some .deferred) (recordLaneDecision lane) := by
  unfold recordLaneDecision
  split
  · exact fun impossible => by cases impossible
  · refine run_yields fun answer => ?_
    split
    · exact fun impossible => by cases impossible
    · split
      · exact fun impossible => by cases impossible
      · exact stop_yields (failAttempt_yields _ _)

theorem runPreRunHook_yields : Yields (· ≠ some .deferred) (runPreRunHook dispatch) := by
  unfold runPreRunHook
  split
  · exact fun impossible => by cases impossible
  · refine run_yields fun answer => ?_
    split
    · exact fun impossible => by cases impossible
    · exact stop_yields (failAttempt_yields _ _)

theorem proceedToActor_yields :
    Yields (· ≠ .deferred) (proceedToActor options budget dispatch lane) := by
  unfold proceedToActor
  split
  · exact failAttempt_yields _ _
  · refine Yields.bind (recordLaneDecision_yields.mono fun recorded other => ?_)
    split
    · exact fun isDeferred => other (congrArg some isDeferred)
    · refine Yields.bind (runPreRunHook_yields.mono fun hooked other => ?_)
      split
      · exact fun isDeferred => other (congrArg some isDeferred)
      · exact invokeActor_yields

theorem acknowledgements_spend {id attempt : Nat} {now : Int}
    (held : ∃ spent ∈ tables.preflights, spent.id = id ∧ spent.usable now = true) :
    acknowledgements (tables.spend id attempt now) now ≠ acknowledgements tables now := by
  intro same
  obtain ⟨spent, member, isSpent, usable⟩ := held
  have kept : spent ∈ acknowledgements (tables.spend id attempt now) now := by
    rw [same]
    exact List.mem_filter.mpr ⟨member, usable⟩
  obtain ⟨isRow, _⟩ := List.mem_filter.mp kept
  obtain ⟨row, _, updated⟩ := List.mem_map.mp isRow
  split at updated
  · rw [← updated] at usable
    simp [Preflight.usable, Preflight.consumed] at usable
  · rename_i unmatched
    rw [updated] at unmatched
    simp [isSpent, usable] at unmatched

theorem consumeDispatchSlot_spend (id attempt : Nat) (now : Int) :
    (ran world (tables.spend id attempt now) dispatch (consumeDispatchSlot options ref)).2 =
      (ran world tables dispatch (consumeDispatchSlot options ref)).2 := by
  have same : (ran world (tables.spend id attempt now) dispatch
      (DispatchStatement.consumeDispatchSlots (actorKeyOf ref)).run).2 =
      (ran world tables dispatch (DispatchStatement.consumeDispatchSlots (actorKeyOf ref)).run).2 := by
    change (world.read _ _ _).2 = (world.read _ _ _).2
    unfold DispatchWorld.read
    split <;> rfl
  unfold consumeDispatchSlot
  split
  · rfl
  · rw [ran_bind, ran_bind, same]
    split <;> rfl

theorem claimWrite_answer {other : DispatchTables} {statement : DispatchStatement}
    {next next' : Option DispatchTables} (same : next.isSome = next'.isSome) :
    (world.claimWrite tables statement next).2 = (world.claimWrite other statement next').2 := by
  unfold DispatchWorld.claimWrite
  cases world.fails statement with
  | some reason => rfl
  | none =>
      cases next with
      | none =>
          cases next' with
          | none => rfl
          | some tables' => contradiction
      | some tables =>
          cases next' with
          | none => contradiction
          | some tables' => rfl

/-- Whether work can be released is not a matter of the briefings. -/
theorem deferUntil_spend (id attempt : Nat) (now availableAt : Int) :
    (ran world (tables.spend id attempt now) dispatch (deferUntil availableAt)).2 =
      (ran world tables dispatch (deferUntil availableAt)).2 := by
  have same : (ran world (tables.spend id attempt now) dispatch
      (DispatchStatement.deferWork availableAt).run).2 =
      (ran world tables dispatch (DispatchStatement.deferWork availableAt).run).2 := by
    refine claimWrite_answer ?_
    rw [Option.isSome_map, Option.isSome_map]
    rfl
  unfold deferUntil
  rw [ran_bind, ran_bind, same]
  split <;> rfl

theorem deferForPacing_spend (id attempt : Nat) (now : Int) (decision : DispatchRateDecision) :
    (ran world (tables.spend id attempt now) dispatch (deferForPacing decision)).2 =
      (ran world tables dispatch (deferForPacing decision)).2 := by
  have clock : Looks (DispatchStatement.now .pacing).run := .ask rfl
  unfold deferForPacing
  rw [ran_looks_bind clock, ran_looks_bind clock]
  exact deferUntil_spend _ _ _ _

theorem deferUntil_deferred_iff (availableAt : Int) :
    (ran world tables dispatch (deferUntil availableAt)).2 = .deferred ↔
      world.fails (.deferWork availableAt) = none ∧
        tables.work.tables.items.any (·.heldBy dispatch.claim) = true := by
  have answered : (ran world tables dispatch (DispatchStatement.deferWork availableAt).run).2 =
    (world.claimWrite tables (.deferWork availableAt)
      ((tables.work.tables.deferWork dispatch.claim availableAt.toNat).map fun work =>
        { withWork tables work with deferrals := tables.deferrals ++ [dispatch.claim] })).2 := rfl
  unfold deferUntil
  rw [ran_bind, answered]
  unfold DispatchWorld.claimWrite
  cases world.fails (.deferWork availableAt) with
  | some reason => simp
  | none =>
      rw [WorkTables.deferWork, WorkTables.updateItems?]
      cases tables.work.tables.items.any (·.heldBy dispatch.claim) with
      | false => simp
      | true => simp

theorem consumeDispatchSlot_eq_some_iff (decision : DispatchRateDecision) :
    (ran world tables dispatch (consumeDispatchSlot options ref)).2 = some decision ↔
      options.pacing.enabled = true ∧ world.fails (.consumeDispatchSlots (actorKeyOf ref)) = none ∧
        world.slots.allowed = false ∧ world.slots = decision := by
  have asked : Looks (DispatchStatement.consumeDispatchSlots (actorKeyOf ref)).run := .ask rfl
  have answered : (ran world tables dispatch
      (DispatchStatement.consumeDispatchSlots (actorKeyOf ref)).run).2 =
    (world.read tables (.consumeDispatchSlots (actorKeyOf ref)) world.slots).2 := rfl
  unfold consumeDispatchSlot
  cases options.pacing.enabled with
  | false => simp
  | true =>
      simp only [Bool.not_true, Bool.false_eq_true, if_false]
      rw [ran_looks_bind asked, answered, DispatchWorld.read]
      cases world.fails (.consumeDispatchSlots (actorKeyOf ref)) with
      | some reason => simp
      | none => cases allowed : world.slots.allowed <;> simp [allowed]

theorem deferForPacing_deferred_iff (decision : DispatchRateDecision) :
    (ran world tables dispatch (deferForPacing decision)).2 = .deferred ↔
      world.fails (.deferWork (min (max decision.retryAt (world.clock .pacing + Duration.second))
        (world.clock .pacing + 300 * Duration.second))) = none ∧
      tables.work.tables.items.any (·.heldBy dispatch.claim) = true := by
  have clock : Looks (DispatchStatement.now .pacing).run := .ask rfl
  unfold deferForPacing
  rw [ran_looks_bind clock]
  exact deferUntil_deferred_iff _

theorem paced_iff :
    (∃ decision, (ran world tables dispatch (consumeDispatchSlot options ref)).2 = some decision ∧
      (ran world tables dispatch (deferForPacing decision)).2 = .deferred) ↔
    Paced options world tables dispatch ref := by
  constructor
  · rintro ⟨decision, isSlot, isDeferred⟩
    obtain ⟨declared, read, refused, rfl⟩ := (consumeDispatchSlot_eq_some_iff decision).mp isSlot
    obtain ⟨released, held⟩ := (deferForPacing_deferred_iff _).mp isDeferred
    exact ⟨declared, read, refused, released, held⟩
  · intro paced
    refine ⟨world.slots, ?_, (deferForPacing_deferred_iff _).mpr ⟨paced.released, paced.held⟩⟩
    exact (consumeDispatchSlot_eq_some_iff _).mpr ⟨paced.declared, paced.read, paced.refused, rfl⟩

/-- A part of a dispatch that spends nothing where it ends in a deferral. -/
def Keeps (world : DispatchWorld) (before tables : DispatchTables) (dispatch : Dispatch)
    (program : DispatchProgram DispatchOutcome) : Prop :=
  (ran world tables dispatch program).2 = .deferred →
    ∀ now, acknowledgements (ran world tables dispatch program).1 now = acknowledgements before now

theorem Spares.keeps {program : DispatchProgram DispatchOutcome} (spares : Spares program) :
    Keeps world tables tables dispatch program :=
  fun _ now => spares.ran now

theorem keeps_of_yields {before : DispatchTables} {program : DispatchProgram DispatchOutcome}
    (yields : Yields (· ≠ .deferred) program) : Keeps world before tables dispatch program :=
  fun isDeferred => absurd isDeferred yields.alone

/-- What follows the gate of the lane. -/
def pastGate (options : WorkerOptions) (budget : Budget) (dispatch : Dispatch) (lane : LaneDecision) :
    DispatchProgram DispatchOutcome := do
  match ← consumeDispatchSlot options lane.target with
  | some decision => deferForPacing decision
  | none => proceedToActor options budget dispatch lane

def afterGate (options : WorkerOptions) (budget : Budget) (dispatch : Dispatch)
    (lane : LaneDecision) : Option DispatchOutcome → DispatchProgram DispatchOutcome
  | some outcome => pure outcome
  | none => pastGate options budget dispatch lane

def afterFunding (options : WorkerOptions) (budget : Budget) (dispatch : Dispatch)
    (lane : LaneDecision) : Except String (Option String) → DispatchProgram DispatchOutcome
  | .error reason => pure (.errored reason)
  | .ok (some _) => refuseUnfunded
  | .ok none => throughGates options budget dispatch lane

/-- Behind a gate that spent nothing, nothing is spent. -/
theorem pastGate_keeps : Keeps world tables tables dispatch (pastGate options budget dispatch lane) := by
  unfold Keeps pastGate
  rw [ran_looks_bind (consumeDispatchSlot_looks _)]
  split
  · exact (deferForPacing_spares _).keeps
  · exact keeps_of_yields proceedToActor_yields

/-- Behind a gate that spent an acknowledgement, it is lost where the rates refuse the dispatch. -/
theorem pastGate_keeps_iff {id attempt : Nat} {now : Int}
    (held : ∃ spent ∈ tables.preflights, spent.id = id ∧ spent.usable now = true) :
    Keeps world tables (tables.spend id attempt now) dispatch (pastGate options budget dispatch lane) ↔
      ¬ Paced options world tables dispatch lane.target := by
  rw [← paced_iff]
  unfold Keeps pastGate
  rw [ran_looks_bind (consumeDispatchSlot_looks _), consumeDispatchSlot_spend]
  cases slot : (ran world tables dispatch (consumeDispatchSlot options lane.target)).2 with
  | none =>
      refine iff_of_true (keeps_of_yields proceedToActor_yields) ?_
      rintro ⟨decision, refused, _⟩
      cases refused
  | some decision =>
      dsimp only
      rw [deferForPacing_spend]
      constructor
      · rintro keeps ⟨other, isOther, isDeferred⟩
        obtain rfl := Option.some.inj isOther
        have kept := (deferForPacing_spares decision).ran now |>.symm.trans (keeps isDeferred now)
        exact acknowledgements_spend held kept
      · intro unpaced isDeferred
        exact absurd ⟨decision, rfl, isDeferred⟩ unpaced

theorem throughGates_eq (unpaused : (ran world tables dispatch (activePauseFor lane.target)).2 = none)
    (room : (ran world tables dispatch
      (atActorCapacity options lane.target lane.session.actorRowID)).2 = false) :
    ran world tables dispatch (throughGates options budget dispatch lane) =
      ran world tables dispatch (clarifyGate lane.target >>= afterGate options budget dispatch lane) := by
  unfold throughGates
  rw [ran_looks_bind (activePauseFor_looks _), unpaused]
  dsimp only
  rw [ran_looks_bind (atActorCapacity_looks _ _), room]
  rfl

theorem gated_keeps_iff :
    Keeps world tables tables dispatch
        (clarifyGate lane.target >>= afterGate options budget dispatch lane) ↔
      ¬ (SpendsOn world tables dispatch lane.target ∧
        Paced options world tables dispatch lane.target) := by
  unfold Keeps
  rw [ran_bind]
  rcases @clarifyGate_cases world tables dispatch lane.target with
    ⟨spends, id, held, passed⟩ | ⟨unspent, passed | ⟨outcome, isOutcome, kept⟩⟩
  · rw [passed]
    refine (pastGate_keeps_iff held).trans ?_
    simp [spends]
  · rw [passed]
    exact iff_of_true pastGate_keeps fun both => unspent both.1
  · rw [isOutcome]
    exact iff_of_true kept fun both => unspent both.1

theorem throughGates_keeps_iff :
    Keeps world tables tables dispatch (throughGates options budget dispatch lane) ↔
      ¬ ((ran world tables dispatch (activePauseFor lane.target)).2 = none ∧
        (ran world tables dispatch
          (atActorCapacity options lane.target lane.session.actorRowID)).2 = false ∧
        SpendsOn world tables dispatch lane.target ∧
        Paced options world tables dispatch lane.target) := by
  cases paused : (ran world tables dispatch (activePauseFor lane.target)).2 with
  | some pause =>
      refine iff_of_true ?_ (by simp)
      unfold Keeps throughGates
      rw [ran_looks_bind (activePauseFor_looks _), paused]
      exact (deferForPause_spares pause).keeps
  | none =>
      cases full : (ran world tables dispatch
          (atActorCapacity options lane.target lane.session.actorRowID)).2 with
      | true =>
          refine iff_of_true ?_ (by simp)
          unfold Keeps throughGates
          rw [ran_looks_bind (activePauseFor_looks _), paused]
          dsimp only
          rw [ran_looks_bind (atActorCapacity_looks _ _), full]
          exact deferForCapacity_spares.keeps
      | false =>
          unfold Keeps
          rw [throughGates_eq paused full]
          refine gated_keeps_iff.trans ?_
          simp

/-- A dispatch that is deferred has spent no acknowledgement, unless the rates refused it behind the gate
that spent one. -/
theorem keepsAcknowledgements_iff (options : WorkerOptions) (budget : Budget) (world : DispatchWorld)
    (tables : DispatchTables) (dispatch : Dispatch) :
    KeepsAcknowledgements options budget world tables dispatch ↔
      ¬ SpendsThenPaced options budget world tables dispatch := by
  change Keeps world tables tables dispatch (dispatchActor options budget dispatch) ↔ _
  have planned : Looks (DispatchStatement.planSession dispatch.node.uses).run := .ask rfl
  by_cases within : budgetExhausted dispatch.claim = true
  · refine iff_of_true ?_ fun spends => ?_
    · rw [dispatchActor, if_pos within]
      exact parkExhausted_spares.keeps
    · rw [spends.within] at within
      contradiction
  · have begun : ran world tables dispatch (dispatchActor options budget dispatch) =
        ran world tables dispatch
          (unfunded budget (laneOf world tables dispatch).session >>=
            afterFunding options budget dispatch (laneOf world tables dispatch)) := by
      rw [dispatchActor, if_neg within, ran_looks_bind planned, ran_looks_bind (decideLane_looks _)]
      rfl
    unfold Keeps
    rw [begun, ran_bind, unfunded_ran]
    cases funded : (ran world tables dispatch
        (unfunded budget (laneOf world tables dispatch).session)).2 with
    | error reason =>
        refine iff_of_true (fun impossible => by cases impossible) fun spends => ?_
        rw [spends.funded] at funded
        cases funded
    | ok unpaid =>
        cases unpaid with
        | some detail =>
            refine iff_of_true refuseUnfunded_spares.keeps fun spends => ?_
            rw [spends.funded] at funded
            cases funded
        | none =>
            refine throughGates_keeps_iff.trans (not_congr ?_)
            rw [Bool.not_eq_true] at within
            constructor
            · rintro ⟨unpaused, room, spends, paced⟩
              exact ⟨within, funded, unpaused, room, spends, paced⟩
            · intro spends
              exact ⟨spends.unpaused, spends.room, spends.spends, spends.paced⟩

/-- An actor that is briefed first, in a deployment whose rate is used up. -/
def pacedWorld : DispatchWorld where
  config _ := some (.ok { gate := .ok { enabled := true }, surface := .ok true })
  slots := { allowed := false, retryAt := 60 }

def briefedDispatch : Dispatch :=
  { attempt := 1, claim := ⟨7, "worker", 1, 1⟩, nodeRun := 2,
    node := { id := "build", uses := "actor://coder" } }

def briefedTables : DispatchTables where
  work := ⟨{ items := [{ id := 7, nodeRun := 2, state := .leased, leaseOwner := some "worker",
                         fencingToken := 1, attempt := 1, availableAt := 0 }] }, false⟩
  preflights := [{ id := 1, nodeRun := 2, actorKey := "coder", issuedAt := -5, expiresAt := 900,
                   acknowledgedAt := some (-1) }]

/-- The briefing is acknowledged, the gate spends the acknowledgement, and the rate defers the dispatch. -/
theorem paced_dispatch_spends_acknowledgement :
    (ran pacedWorld briefedTables briefedDispatch
      (dispatchActor { pacing := { global := true } } {} briefedDispatch)).2 = .deferred ∧
    (acknowledgements briefedTables 0).length = 1 ∧
    acknowledgements (ran pacedWorld briefedTables briefedDispatch
      (dispatchActor { pacing := { global := true } } {} briefedDispatch)).1 0 = [] ∧
    ¬ KeepsAcknowledgements { pacing := { global := true } } {} pacedWorld briefedTables
      briefedDispatch := by
  have isDeferred : (ran pacedWorld briefedTables briefedDispatch
      (dispatchActor { pacing := { global := true } } {} briefedDispatch)).2 = .deferred := by
    decide +kernel
  have spent : acknowledgements (ran pacedWorld briefedTables briefedDispatch
      (dispatchActor { pacing := { global := true } } {} briefedDispatch)).1 0 = [] := by
    decide +kernel
  have held : (acknowledgements briefedTables 0).length = 1 := by decide +kernel
  refine ⟨isDeferred, held, spent, fun keeps => ?_⟩
  rw [← keeps isDeferred 0, spent] at held
  contradiction

end CultureNodes.Worker
