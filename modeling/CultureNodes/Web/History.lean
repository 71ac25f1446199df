import CultureNodes.Web.Overlay

/-!
Two points of a run's history. The events between them take the first point's snapshot to what the second shows of
a node, as long as every step says what it does to the node.
-/

namespace CultureNodes.Web

open Engine

section

variable {env : Env} {wf : Workflow} {written : Nat → String} {node : String} {p q r : Point}

/-- What holds at every point: the rows are lawful, and the node's runs are listed as they were made. -/
structure Kept (wf : Workflow) (written : Nat → String) (node : String) (p : Point) : Prop where
  standing : Standing wf (.idle, p.db)
  clocked : Clocked written node p

theorem Kept.created {input : Payload} {now : Nat} (made : Point.created env wf input now = some p) :
    Kept wf written node p := by
  obtain ⟨db, isMade, rfl⟩ := Option.map_eq_some_iff.mp made
  have created := createRun_created (toOption_some isMade)
  refine ⟨created.standing, ?_⟩
  obtain ⟨state, rows⟩ := created.entered
  unfold Clocked idsOf RunDb.rowsOf
  dsimp only
  rw [rows, List.filter_singleton]
  cases decide ((⟨1, 0, wf.entry, state, ""⟩ : NodeRun).node = node) with
  | true => exact List.pairwise_singleton _ _
  | false => exact List.Pairwise.nil

theorem Clocked.acted {action : Action} {note : AttemptNote} (clocked : Clocked written node p)
    (standing : Standing wf (.idle, p.db)) (acted : Acted env wf p action note q)
    (onTime : ∀ id ∈ idsOf q.db node, p.db.nextID ≤ id → ∀ older ∈ idsOf p.db node,
      p.createdAt older ≤ q.createdAt id ∧ written (p.createdAt older) ≤ written (q.createdAt id)) :
    Clocked written node q := by
  obtain ⟨fresh, ids, ordered, new⟩ := idsOf_grown (Grown.act standing acted.acted) node
  have old : ∀ id ∈ idsOf p.db node, id < p.db.nextID := by
    intro id held
    obtain ⟨run, runHeld, rfl⟩ := List.mem_map.mp held
    exact standing.keyed.runsOld run (List.mem_filter.mp runHeld).1
  have kept : ∀ id ∈ idsOf p.db node, q.createdAt id = p.createdAt id := fun id held => by
    rw [acted.createdAt, if_pos (old id held)]
  have made : ∀ id ∈ fresh, q.createdAt id = actionTime action := fun id held => by
    rw [acted.createdAt, if_neg (Nat.not_lt_of_le (new id held))]
  unfold Clocked
  rw [ids, List.pairwise_append]
  refine ⟨?_, ?_, fun older olderHeld newer newerHeld => ?_⟩
  · refine List.Pairwise.imp_of_mem (fun olderHeld newerHeld pair => ?_) clocked
    rw [kept _ olderHeld, kept _ newerHeld]
    exact pair
  · refine List.Pairwise.imp_of_mem (fun olderHeld newerHeld less => ?_) ordered
    rw [made _ olderHeld, made _ newerHeld]
    exact ⟨less, Nat.le_refl _, le_refl _⟩
  · have inTime := onTime newer (ids ▸ List.mem_append_right _ newerHeld) (new newer newerHeld) older olderHeld
    rw [kept older olderHeld]
    exact ⟨Nat.lt_of_lt_of_le (old older olderHeld) (new newer newerHeld), inTime⟩

theorem Kept.step {deed : Deed} (kept : Kept wf written node p) (onTime : OnTime written env wf node p deed)
    (stepped : p.step env wf deed q) : Kept wf written node q := by
  cases deed with
  | engine action note =>
      have acted := Acted.of_step stepped
      refine ⟨?_, kept.clocked.acted kept.standing acted (onTime q stepped)⟩
      exact Turns.standing (act_turns kept.standing False.elim False.elim False.elim acted.acted) kept.standing
  | late nodeRun status note =>
      obtain rfl := Option.some.inj stepped
      refine ⟨?_, kept.clocked⟩
      have noted : Turn wf False False (.idle, p.db)
          (.idle, p.db.insertAttempt nodeRun (p.db.nextAttemptNumber nodeRun) status) := .note _ _
      exact noted.standing kept.standing
  | other name node =>
      obtain rfl := Option.some.inj stepped
      exact ⟨kept.standing, kept.clocked⟩

/-- A late report leaves the rows alone but for its attempt. -/
theorem follows_late {nodeRun : Nat} {status : TechStatus} {note : AttemptNote} (kept : Kept wf written node p)
    (followed : Followed env wf written node p (.late nodeRun status note))
    (stepped : p.step env wf (.late nodeRun status note) q) (named : node ≠ "") :
    Follows written node p [{ type := .other "actor.callback-late" }] q := by
  have after : Clocked written node q := by
    rw [← Option.some.inj stepped]
    exact kept.clocked
  have same : q.db.newest node = p.db.newest node := by
    rw [← Option.some.inj stepped]
    exact RunDb.newest_congr rfl
  have ids : idsOf q.db node = idsOf p.db node := by
    rw [← Option.some.inj stepped]
    rfl
  have added : q.db.attempts = p.db.attempts ++ [⟨nodeRun, p.db.nextAttemptNumber nodeRun, status⟩] := by
    rw [← Option.some.inj stepped]
    rfl
  have notes : q.notes = p.noted note := by
    rw [← Option.some.inj stepped]
  refine @Follows.of_silent written node p q _ "" (Silent.cons (fun _ _ => rfl) Silent.nil) named.symm ?_
  rw [after.shown_eq, kept.clocked.shown_eq, same]
  cases found : p.db.newest node with
  | none => rfl
  | some row =>
      by_cases here : nodeRun ∈ idsOf p.db node
      · by_cases failed : row.2 = .failed
        · obtain ⟨front, back, isBefore, isAfter, -⟩ := gathered_insert kept.clocked ids here added notes
          rw [denied_insert kept.clocked after isBefore isAfter (followed here row found failed)]
        · have plain : ∀ denied, look denied row.2 = stateFor row.2 [] := by
            intro denied
            cases state : row.2 with
            | failed => exact absurd state failed
            | _ => rfl
          rw [Option.map_some, Option.map_some, plain, plain]
      · have unchanged : ∀ id ∈ idsOf p.db node, q.attemptsFor written id = p.attemptsFor written id := by
          intro id among
          refine attemptsFor_congr ?_ (Or.inl notes)
          have other : nodeRun ≠ id := fun same => here (same ▸ among)
          rw [added, List.filter_append]
          simp [other]
        rw [denied_congr kept.clocked after (gathered_congr ids unchanged)]

/-- One step: the events it appends take what is shown to what is shown after it. -/
theorem Kept.follows {deed : Deed} (kept : Kept wf written node p) (named : node ≠ "")
    (onTime : OnTime written env wf node p deed) (followed : Followed env wf written node p deed)
    (stepped : p.step env wf deed q) :
    ∃ added, q.events = p.events ++ added ∧ Follows written node p added q := by
  have later := kept.step onTime stepped
  cases deed with
  | engine action note =>
      have acted := Acted.of_step stepped
      exact ⟨_, acted.events, acted.follows kept.standing kept.clocked later.clocked named
        (followed q.db acted.acted)⟩
  | late nodeRun status note =>
      refine ⟨_, ?_, follows_late kept followed stepped named⟩
      rw [← Option.some.inj stepped]
  | other name about =>
      obtain rfl := Option.some.inj stepped
      refine ⟨_, rfl, ?_⟩
      exact @Follows.of_silent written node p _ _ "" (Silent.cons (fun _ _ => rfl) Silent.nil) named.symm rfl

theorem Follows.trans {events more : List RunEvent} (first : Follows written node p events q)
    (second : Follows written node q more r) : Follows written node p (events ++ more) r := by
  intro known isShown
  rw [List.foldl_append]
  exact second _ (first known isShown)

/-- The condition on a step, for one node. -/
def Plain (env : Env) (wf : Workflow) (written : Nat → String) (node : String) (p : Point) (deed : Deed) : Prop :=
  OnTime written env wf node p deed ∧ Followed env wf written node p deed

theorem Kept.follows_steps (kept : Kept wf written node p) (named : node ≠ "")
    (steps : Steps (Point.step env wf) (Plain env wf written node) p q) :
    Kept wf written node q ∧ ∃ added, q.events = p.events ++ added ∧ Follows written node p added q := by
  induction steps with
  | refl =>
      refine ⟨kept, [], (List.append_nil _).symm, fun known isShown => isShown⟩
  | tail _ allowed stepped ih =>
      obtain ⟨middle, added, events, follows⟩ := ih
      obtain ⟨more, moreEvents, onward⟩ := middle.follows named allowed.1 allowed.2 stepped
      refine ⟨middle.step allowed.1 stepped, added ++ more, ?_, follows.trans onward⟩
      rw [moreEvents, events, List.append_assoc]

theorem Kept.of_reaches (reached : Point.Reaches env wf (OnTime written env wf node) p) :
    Kept wf written node p := by
  obtain ⟨input, now, start, made, steps⟩ := reached
  exact steps.invariant (Kept wf written node) (Kept.created made) fun _ _ _ kept onTime stepped =>
    kept.step onTime stepped

end

/-- Of two points of a run, the events between them give a node the state that the second point's snapshot gives
it, where every step between says what it does to the node. -/
theorem folded_eq_snapshot {env : Env} {wf : Workflow} {written : Nat → String} {node : String} {p q : Point}
    (named : node ≠ "") (reached : Point.Reaches env wf (OnTime written env wf node) p)
    (steps : Steps (Point.step env wf) (Plain env wf written node) p q) :
    (((q.events.drop p.events.length).foldl applyEvent (p.graph written)).stateOf node).getD .idle =
      ((q.graph written).stateOf node).getD .idle := by
  obtain ⟨-, added, events, follows⟩ := (Kept.of_reaches reached).follows_steps named steps
  rw [events, List.drop_left, stateOf_foldl named]
  exact follows _ rfl

instance Plain.decidable {env : Env} {wf : Workflow} {written : Nat → String} {node : String} {p : Point} (deed : Deed) :
    Decidable (Plain env wf written node p deed) :=
  inferInstanceAs (Decidable (OnTime written env wf node p deed ∧ Followed env wf written node p deed))

/-- A split whose two branches meet at a join; a branch may be attempted twice. -/
def rendezvous : Workflow where
  entry := "fork"
  limits := { maxParallelTokens := 2 }
  nodes := [
    { id := "fork", kind := .parallel, outcomes := ["split"] },
    { id := "left", kind := .agent, outcomes := ["done"], retry := { maxAttempts := 2 } },
    { id := "right", kind := .agent, outcomes := ["done"] },
    { id := "meet", kind := .join, joinPolicy := some .all, outcomes := ["joined"] },
    { id := "end", kind := .endNode }]
  edges := [
    { source := "fork.split", fromNode := "fork", fromOutcome := "split", target := "left" },
    { source := "fork.split", fromNode := "fork", fromOutcome := "split", target := "right" },
    { source := "left.done", fromNode := "left", fromOutcome := "done", target := "meet" },
    { source := "right.done", fromNode := "right", fromOutcome := "done", target := "meet" },
    { source := "meet.joined", fromNode := "meet", fromOutcome := "joined", target := "end" }]

/-- A new run and the point it comes to by deeds that each pass a check. -/
def journey (check : Point → Deed → Bool) (actions : List Action) : Option (Point × Point) :=
  (Point.created .permissive rendezvous "null" 0).bind fun start =>
    (Steps.ofList (fun p deed => p.act .permissive rendezvous deed) check start
      (actions.map fun action => .engine action {})).map fun last => (start, last)

theorem journey_some {check : Point → Deed → Bool} {actions : List Action} {p q : Point}
    (ran : journey check actions = some (p, q)) {allowed wider : Point → Deed → Prop}
    (sound : ∀ p deed, check p deed = true → allowed p deed) :
    Point.Reaches Env.permissive rendezvous wider p ∧
      Steps (Point.step .permissive rendezvous) allowed p q := by
  obtain ⟨start, made, onward⟩ := Option.bind_eq_some_iff.mp ran
  obtain ⟨last, steps, pair⟩ := Option.map_eq_some_iff.mp onward
  obtain ⟨rfl, rfl⟩ := Prod.mk.inj pair
  exact ⟨⟨"null", 0, _, made, .refl⟩, Steps.of_ofList sound steps⟩

/-- The join of a run whose branches both arrive. -/
theorem folded_eq_snapshot_meet : ∃ p q,
    journey (fun p deed => decide (Plain .permissive rendezvous Nat.repr "meet" p deed))
      (succeed 2 "split" ++ succeed 6 "done" ++ succeed 9 "done" ++ succeed 12 "joined") = some (p, q) ∧
    (((q.events.drop p.events.length).foldl applyEvent (p.graph Nat.repr)).stateOf "meet").getD .idle =
      ((q.graph Nat.repr).stateOf "meet").getD .idle := by
  cases ran : journey (fun p deed => decide (Plain .permissive rendezvous Nat.repr "meet" p deed))
      (succeed 2 "split" ++ succeed 6 "done" ++ succeed 9 "done" ++ succeed 12 "joined") with
  | none =>
      have runs : (journey (fun p deed => decide (Plain .permissive rendezvous Nat.repr "meet" p deed))
          (succeed 2 "split" ++ succeed 6 "done" ++ succeed 9 "done" ++ succeed 12 "joined")).isSome = true := by
        decide +kernel
      rw [ran] at runs
      contradiction
  | some points =>
      obtain ⟨reached, steps⟩ := journey_some ran fun _ _ => of_decide_eq_true
      exact ⟨points.1, points.2, rfl, folded_eq_snapshot (by decide) reached steps⟩

/-- A worker's first attempt fails. -/
def failFirst (work : Nat) : List Action :=
  [.work (.claim work "worker" true 0 1),
    .complete ⟨⟨work, "worker", 1, 1⟩, .failed, "", "", "", .unknown, "null"⟩ 0]

/-- The first attempt of a branch fails and is made again: the events say that the branch has failed, and the
snapshot that it is ready. -/
theorem retry_not_folded : ∃ p q, Point.Reaches Env.permissive rendezvous anyAction p ∧
    Steps (Point.step .permissive rendezvous) anyAction p q ∧
    (((q.events.drop p.events.length).foldl applyEvent (p.graph Nat.repr)).stateOf "left").getD .idle = .failed ∧
    ((q.graph Nat.repr).stateOf "left").getD .idle = .ready := by
  have told : (journey (fun _ _ => true) (succeed 2 "split" ++ failFirst 6)).map (fun points =>
      ((((points.2.events.drop points.1.events.length).foldl applyEvent (points.1.graph Nat.repr)).stateOf
        "left").getD .idle, ((points.2.graph Nat.repr).stateOf "left").getD .idle)) = some (.failed, .ready) := by
    decide +kernel
  obtain ⟨⟨p, q⟩, ran, states⟩ := Option.map_eq_some_iff.mp told
  obtain ⟨reached, steps⟩ := @journey_some _ _ _ _ ran anyAction anyAction fun _ _ _ => trivial
  obtain ⟨folded, shown⟩ := Prod.mk.inj states
  exact ⟨p, q, reached, steps, folded, shown⟩

end CultureNodes.Web
