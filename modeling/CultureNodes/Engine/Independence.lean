import CultureNodes.Engine.Refine
import CultureNodes.Engine.SignalDelivery

/-!
What one workflow makes of a delivered event does not depend on the other workflows that are published,
as long as they accept the event. All a version reads of the namespace is the roster of its own
workflow, and it leaves the rosters of the others alone; but the first version that refuses the event
rolls the whole delivery back.
-/

namespace CultureNodes.Engine

/-- What a match came to, without the rows it names. -/
inductive Placement where
  | created
  | attached
  | deferred
deriving DecidableEq, Repr

def TriggeredRun.placement : TriggeredRun → Placement
  | .created _ _ => .created
  | .attached _ _ => .attached
  | .deferred _ _ => .deferred

/-- What is on record for a workflow: the subjects of its runs with whether they are active, and the
subjects in its queue. -/
@[ext] structure Roster where
  subjects : List (String × Bool) := []
  queued : List String := []
deriving DecidableEq, Repr

namespace Roster

variable (roster : Roster)

/-- A match, as the roster of its workflow decides it. -/
def place (limit : Nat) (subject : String) (creatable : Bool) : Option (Roster × Placement) :=
  let create : Option (Roster × Placement) :=
    if creatable then
      some ({ roster with subjects := roster.subjects ++ [(subject, true)] }, .created)
    else none
  if subject = "" then create
  else if roster.subjects.contains (subject, true) then some (roster, .attached)
  else if limit = 0 then create
  else if roster.queued.contains subject then some (roster, .deferred)
  else if limit ≤ roster.subjects.countP fun (subject, active) => subject ≠ "" && active then
    some ({ roster with queued := roster.queued ++ [subject] }, .deferred)
  else create

end Roster

namespace Hosted

variable (hosted : Hosted)

def roster (key : String) : Roster where
  subjects := (hosted.runs.filter (·.key = key)).map fun run => (run.subject, run.active)
  queued := (hosted.deferred.filter (·.version.key = key)).map (·.fact.subject)

/-- The primary key of the queue, and ids that are drawn fresh. -/
structure Numbered : Prop where
  distinct : (hosted.deferred.map (·.id)).Nodup
  below : ∀ row ∈ hosted.deferred, row.id < hosted.nextID

end Hosted

section

variable {hosted next : Hosted} {key subject : String}

theorem activeRunBySubject_isSome :
    (hosted.activeRunBySubject key subject).isSome =
      (hosted.roster key).subjects.contains (subject, true) := by
  rw [Bool.eq_iff_iff, Hosted.activeRunBySubject, List.find?_isSome, List.contains_iff_mem]
  simp [Hosted.roster, and_assoc]

theorem findDeferredTrigger_isSome :
    (hosted.findDeferredTrigger key subject).isSome = (hosted.roster key).queued.contains subject := by
  rw [Bool.eq_iff_iff, Hosted.findDeferredTrigger, List.find?_isSome, List.contains_iff_mem]
  simp [Hosted.roster, and_assoc]

theorem activeSubjectRunCount_eq :
    hosted.activeSubjectRunCount key =
      (hosted.roster key).subjects.countP fun (subject, active) => subject ≠ "" && active := by
  simp only [Hosted.activeSubjectRunCount, Hosted.roster, List.countP_map, List.countP_filter]
  congr 1
  funext run
  simp [Bool.and_comm, Bool.and_assoc]

theorem roster_queued_eq (left right : List DeferredTrigger)
    (same : left.map (fun row => (row.version.key, row.fact.subject)) =
      right.map fun row => (row.version.key, row.fact.subject)) :
    (left.filter (·.version.key = key)).map (·.fact.subject) =
      (right.filter (·.version.key = key)).map (·.fact.subject) := by
  have split (rows : List DeferredTrigger) :
      (rows.filter (·.version.key = key)).map (·.fact.subject) =
        ((rows.map fun row => (row.version.key, row.fact.subject)).filter (·.1 = key)).map Prod.snd := by
    rw [List.filter_map, List.map_map]
    rfl
  rw [split, split, same]

/-- A queued subject that gets a newer event stays queued where it was. -/
theorem touchDeferredTrigger_roster (numbered : hosted.Numbered) {row : DeferredTrigger}
    {version : TriggerWorkflow} {fact : TriggerFact}
    (found : hosted.findDeferredTrigger version.key fact.subject = some row) :
    (hosted.touchDeferredTrigger row.id version fact).roster key = hosted.roster key := by
  have member : row ∈ hosted.deferred := List.mem_of_find?_eq_some found
  have own : row.version.key = version.key ∧ row.fact.subject = fact.subject := by
    simpa using List.find?_some found
  refine Roster.ext rfl (roster_queued_eq _ _ (Table.update_keys_of_mem ?_))
  intro other otherMember hit
  obtain rfl := Table.eq_of_key numbered.distinct otherMember member (of_decide_eq_true hit)
  exact Prod.ext own.1.symm own.2.symm

theorem insertDeferredTrigger_roster {version : TriggerWorkflow} {fact : TriggerFact} {now : Nat} :
    (hosted.insertDeferredTrigger version fact now).roster key =
      if key = version.key then
        { hosted.roster key with queued := (hosted.roster key).queued ++ [fact.subject] }
      else hosted.roster key := by
  by_cases own : version.key = key
  · simp [Hosted.roster, Hosted.insertDeferredTrigger, own]
  · simp [Hosted.roster, Hosted.insertDeferredTrigger, own, Ne.symm own]

variable {tenv : TriggerEnv} {now : Nat} {definition : Definition} {version : TriggerWorkflow}
  {fact : TriggerFact}

theorem createTriggeredRun_hosted {run : Nat}
    (created : createTriggeredRun tenv now hosted definition version fact = .ok (next, run)) :
    ∃ row : HostedRun, row.key = version.key ∧ row.subject = fact.subject ∧ row.active = true ∧
      next = { hosted with runs := hosted.runs ++ [row], nextID := hosted.nextID + 1 } := by
  unfold createTriggeredRun at created
  split at created
  · contradiction
  · split at created
    · contradiction
    · split at created
      · contradiction
      · split at created
        · contradiction
        · rename_i rows made
          obtain ⟨rfl, rfl⟩ := Prod.mk.inj (Except.ok.inj created)
          refine ⟨_, rfl, rfl, ?_, rfl⟩
          simp [HostedRun.active, (createRun_created made).state, RunState.terminal]

theorem createTriggeredRun_roster {run : Nat}
    (created : createTriggeredRun tenv now hosted definition version fact = .ok (next, run)) :
    next.roster key =
      if key = version.key then
        { hosted.roster key with
          subjects := (hosted.roster key).subjects ++ [(fact.subject, true)] }
      else hosted.roster key := by
  obtain ⟨row, sameKey, sameSubject, active, rfl⟩ := createTriggeredRun_hosted created
  by_cases own : version.key = key
  · simp [Hosted.roster, sameKey, sameSubject, active, own]
  · simp [Hosted.roster, sameKey, own, Ne.symm own]

/-- Whether the run of a match can be created. -/
def creatable (tenv : TriggerEnv) (definition : Definition) (version : TriggerWorkflow)
    (fact : TriggerFact) : Bool :=
  (resolveAffinity tenv definition fact.toPickupEvent).isOk && version.key ≠ "" &&
    version.digest ≠ ""

theorem placeMatch_cases {triggered : TriggeredRun}
    (placed : placeMatch tenv now hosted definition version fact = .ok (next, triggered)) :
    (∃ run, createTriggeredRun tenv now hosted definition version fact = .ok (next, run) ∧
      triggered = .created version.digest run) ∨
    (∃ run, next = hosted.appendEvent run fact.id ∧ triggered = .attached version.digest run) ∨
    (∃ row, hosted.findDeferredTrigger version.key fact.subject = some row ∧
      next = hosted.touchDeferredTrigger row.id version fact ∧
      triggered = .deferred version.digest row.id) ∨
    (next = hosted.insertDeferredTrigger version fact now ∧
      triggered = .deferred version.digest hosted.nextID) := by
  have creates : (createTriggeredRun tenv now hosted definition version fact).map
      (fun result => (result.1, TriggeredRun.created version.digest result.2)) =
        .ok (next, triggered) →
      ∃ run, createTriggeredRun tenv now hosted definition version fact = .ok (next, run) ∧
        triggered = .created version.digest run := by
    intro mapped
    obtain ⟨⟨made, run⟩, created, same⟩ := map_eq_ok mapped
    obtain ⟨rfl, rfl⟩ := Prod.mk.inj same
    exact ⟨run, created, rfl⟩
  unfold placeMatch at placed
  dsimp only at placed
  split at placed
  · exact Or.inl (creates placed)
  · split at placed
    · rename_i run active
      obtain ⟨rfl, rfl⟩ := Prod.mk.inj (Except.ok.inj placed)
      exact Or.inr (Or.inl ⟨run.id, rfl, rfl⟩)
    · split at placed
      · exact Or.inl (creates placed)
      · split at placed
        · rename_i row found
          obtain ⟨rfl, rfl⟩ := Prod.mk.inj (Except.ok.inj placed)
          exact Or.inr (Or.inr (Or.inl ⟨row, found, rfl, rfl⟩))
        · split at placed
          · obtain ⟨rfl, rfl⟩ := Prod.mk.inj (Except.ok.inj placed)
            exact Or.inr (Or.inr (Or.inr ⟨rfl, rfl⟩))
          · exact Or.inl (creates placed)

theorem placeMatch_spares {triggered : TriggeredRun} (numbered : hosted.Numbered)
    (placed : placeMatch tenv now hosted definition version fact = .ok (next, triggered))
    (other : key ≠ version.key) : next.roster key = hosted.roster key := by
  rcases placeMatch_cases placed with ⟨run, created, _⟩ | ⟨run, rfl, _⟩ | ⟨row, found, rfl, _⟩ |
    ⟨rfl, _⟩
  · rw [createTriggeredRun_roster created, if_neg other]
  · rfl
  · exact touchDeferredTrigger_roster numbered found
  · rw [insertDeferredTrigger_roster, if_neg other]

theorem placeMatch_numbered {triggered : TriggeredRun} (numbered : hosted.Numbered)
    (placed : placeMatch tenv now hosted definition version fact = .ok (next, triggered)) :
    next.Numbered := by
  rcases placeMatch_cases placed with ⟨run, created, _⟩ | ⟨run, rfl, _⟩ | ⟨row, found, rfl, _⟩ |
    ⟨rfl, _⟩
  · obtain ⟨row, _, _, _, rfl⟩ := createTriggeredRun_hosted created
    exact ⟨numbered.distinct, fun old member => Nat.lt_succ_of_lt (numbered.below old member)⟩
  · exact ⟨numbered.distinct, numbered.below⟩
  · constructor
    · have sameIDs : (hosted.touchDeferredTrigger row.id version fact).deferred.map (·.id) =
          hosted.deferred.map (·.id) := Table.update_keys fun _ => rfl
      rw [sameIDs]
      exact numbered.distinct
    · intro touched member
      obtain ⟨old, oldMember, rfl⟩ := Table.mem_update.mp member
      split <;> exact numbered.below old oldMember
  · constructor
    · refine Table.keys_append_nodup numbered.distinct fun taken => ?_
      obtain ⟨old, oldMember, same⟩ := List.mem_map.mp taken
      exact absurd (numbered.below old oldMember) (same ▸ Nat.lt_irrefl _)
    · intro row member
      rcases List.mem_append.mp member with old | new
      · exact Nat.lt_succ_of_lt (numbered.below row old)
      · rw [List.mem_singleton.mp new]
        exact Nat.lt_succ_self _

theorem placeMatch_digest {triggered : TriggeredRun}
    (placed : placeMatch tenv now hosted definition version fact = .ok (next, triggered)) :
    triggered.digest = version.digest := by
  rcases placeMatch_cases placed with ⟨run, _, rfl⟩ | ⟨run, _, rfl⟩ | ⟨row, _, _, rfl⟩ |
    ⟨_, rfl⟩ <;> rfl

theorem placeMatch_place (numbered : hosted.Numbered) :
    (placeMatch tenv now hosted definition version fact).toOption.map
        (fun placed => (placed.1.roster version.key, placed.2.placement)) =
      (hosted.roster version.key).place definition.maxConcurrentSubjectRuns fact.subject
        (creatable tenv definition version fact) := by
  have creates : ((createTriggeredRun tenv now hosted definition version fact).map
      (fun result => (result.1, TriggeredRun.created version.digest result.2))).toOption.map
        (fun placed => (placed.1.roster version.key, placed.2.placement)) =
      if creatable tenv definition version fact then
        some ({ hosted.roster version.key with
          subjects := (hosted.roster version.key).subjects ++ [(fact.subject, true)] }, .created)
      else none := by
    have whether := @createTriggeredRun_isOk tenv now hosted definition version fact
    cases created : createTriggeredRun tenv now hosted definition version fact with
    | error error =>
        rw [created] at whether
        rw [if_neg (by rw [creatable, ← whether]; exact Bool.false_ne_true)]
        rfl
    | ok result =>
        rw [created] at whether
        rw [if_pos (by rw [creatable, ← whether]; rfl)]
        show some (result.1.roster version.key, Placement.created) = _
        rw [createTriggeredRun_roster created, if_pos rfl]
  unfold placeMatch Roster.place
  dsimp only
  by_cases bare : fact.subject = ""
  · rw [if_pos bare, if_pos bare]
    exact creates
  · rw [if_neg bare, if_neg bare, ← activeRunBySubject_isSome]
    cases hosted.activeRunBySubject version.key fact.subject with
    | some run => rfl
    | none =>
        by_cases unlimited : definition.maxConcurrentSubjectRuns = 0
        · simp only [unlimited, if_true]
          exact creates
        · simp only [unlimited, if_false, ← findDeferredTrigger_isSome, Option.isSome_none,
            Bool.false_eq_true]
          cases found : hosted.findDeferredTrigger version.key fact.subject with
          | some row =>
              simp only [Option.isSome_some, if_true]
              show some ((hosted.touchDeferredTrigger row.id version fact).roster version.key, _) = _
              rw [touchDeferredTrigger_roster numbered found]
              rfl
          | none =>
              simp only [Option.isSome_none, Bool.false_eq_true, if_false,
                ← activeSubjectRunCount_eq]
              split
              · show some ((hosted.insertDeferredTrigger version fact now).roster version.key, _) = _
                rw [insertDeferredTrigger_roster, if_pos rfl]
                rfl
              · exact creates

theorem runTriggers_cons {last : Hosted} {trigger : Trigger} {rest : List Trigger}
    {outs : List TriggeredRun}
    (ran : runTriggers tenv now definition version fact hosted (trigger :: rest) = .ok (last, outs)) :
    runTriggers tenv now definition version fact hosted rest = .ok (last, outs) ∨
      ∃ next triggered others,
        placeMatch tenv now hosted definition version fact = .ok (next, triggered) ∧
        runTriggers tenv now definition version fact next rest = .ok (last, others) ∧
        outs = triggered :: others := by
  unfold runTriggers at ran
  split at ran
  · contradiction
  · exact Or.inl ran
  · split at ran
    · contradiction
    · rename_i next triggered placed
      obtain ⟨⟨reached, others⟩, onward, same⟩ := map_eq_ok ran
      obtain ⟨rfl, rfl⟩ := Prod.mk.inj same
      exact Or.inr ⟨next, triggered, others, placed, onward, rfl⟩

/-- The loop leaves the other rosters alone, keeps the ids apart and marks what it puts out. -/
theorem runTriggers_confined {last : Hosted} {triggers : List Trigger} {outs : List TriggeredRun}
    (numbered : hosted.Numbered)
    (ran : runTriggers tenv now definition version fact hosted triggers = .ok (last, outs)) :
    last.Numbered ∧ (∀ key, key ≠ version.key → last.roster key = hosted.roster key) ∧
      ∀ out ∈ outs, out.digest = version.digest := by
  induction triggers generalizing hosted outs with
  | nil =>
      obtain ⟨rfl, rfl⟩ := Prod.mk.inj (Except.ok.inj ran)
      exact ⟨numbered, fun _ _ => rfl, fun _ member => absurd member List.not_mem_nil⟩
  | cons trigger rest ih =>
      rcases runTriggers_cons ran with unmatched | ⟨next, triggered, others, placed, onward, rfl⟩
      · exact ih numbered unmatched
      · obtain ⟨lastNumbered, spares, digests⟩ := ih (placeMatch_numbered numbered placed) onward
        refine ⟨lastNumbered, fun key other => ?_, ?_⟩
        · rw [spares key other, placeMatch_spares numbered placed other]
        · rw [List.forall_mem_cons]
          exact ⟨placeMatch_digest placed, digests⟩

theorem seen_map_cons {answer : Except EngineError (Hosted × List TriggeredRun)}
    {triggered : TriggeredRun} :
    seen TriggeredRun.placement (answer.map fun (last, others) => (last, triggered :: others)) =
      (seen TriggeredRun.placement answer).map (triggered.placement :: ·) := by
  cases answer <;> rfl

theorem placeMatch_alike {left right : Hosted} (leftNumbered : left.Numbered)
    (rightNumbered : right.Numbered) (same : left.roster version.key = right.roster version.key) :
    (∃ leftError rightError, placeMatch tenv now left definition version fact = .error leftError ∧
      placeMatch tenv now right definition version fact = .error rightError) ∨
    ∃ leftNext rightNext leftRun rightRun,
      placeMatch tenv now left definition version fact = .ok (leftNext, leftRun) ∧
      placeMatch tenv now right definition version fact = .ok (rightNext, rightRun) ∧
      leftNext.roster version.key = rightNext.roster version.key ∧
      leftRun.placement = rightRun.placement := by
  have onLeft := @placeMatch_place left tenv now definition version fact leftNumbered
  have onRight := @placeMatch_place right tenv now definition version fact rightNumbered
  rw [same, ← onRight] at onLeft
  cases leftPlaced : placeMatch tenv now left definition version fact with
  | error leftError =>
      cases rightPlaced : placeMatch tenv now right definition version fact with
      | error rightError => exact Or.inl ⟨leftError, rightError, rfl, rfl⟩
      | ok placed =>
          rw [leftPlaced, rightPlaced] at onLeft
          contradiction
  | ok leftResult =>
      cases rightPlaced : placeMatch tenv now right definition version fact with
      | error rightError =>
          rw [leftPlaced, rightPlaced] at onLeft
          contradiction
      | ok rightResult =>
          rw [leftPlaced, rightPlaced] at onLeft
          obtain ⟨rosters, placements⟩ := Prod.mk.inj (Option.some.inj onLeft)
          exact Or.inr ⟨_, _, _, _, rfl, rfl, rosters, placements⟩

/-- The loop does the same for two namespaces in which its workflow has the same roster. -/
theorem runTriggers_seen {left right : Hosted} (leftNumbered : left.Numbered)
    (rightNumbered : right.Numbered) (same : left.roster version.key = right.roster version.key)
    (triggers : List Trigger) :
    seen TriggeredRun.placement (runTriggers tenv now definition version fact left triggers) =
      seen TriggeredRun.placement (runTriggers tenv now definition version fact right triggers) := by
  induction triggers generalizing left right with
  | nil => rfl
  | cons trigger rest ih =>
      unfold runTriggers
      cases triggerMatches tenv definition trigger fact.toPickupEvent with
      | error error => rfl
      | ok matched =>
          cases matched with
          | false => exact ih leftNumbered rightNumbered same
          | true =>
              rcases @placeMatch_alike tenv now definition version fact left right leftNumbered
                  rightNumbered same with ⟨leftError, rightError, onLeft, onRight⟩ |
                ⟨leftNext, rightNext, leftRun, rightRun, onLeft, onRight, rosters, placements⟩
              · simp only [onLeft, onRight]
                rfl
              · simp only [onLeft, onRight, seen_map_cons, placements]
                rw [ih (placeMatch_numbered leftNumbered onLeft)
                  (placeMatch_numbered rightNumbered onRight) rosters]

end

section

variable {senv : SignalEnv} {now : Nat} {query : NewestQuery}

theorem offerVersion_confined (fact : TriggerFact) :
    Confined (offerVersion senv now fact) (·.key) Hosted.Numbered
      (fun key left right => left.roster key = right.roster key) TriggeredRun.placement
      (·.digest) TriggeredRun.digest := by
  have loaded {version : WorkflowVersion} {hosted last : Hosted} {outs : List TriggeredRun}
      (ran : offerVersion senv now fact version hosted = .ok (last, outs)) :
      ∃ definition : Definition, runTriggers senv.toTriggerEnv now definition
        version.toTriggerWorkflow fact hosted definition.triggers = .ok (last, outs) := by
    unfold offerVersion triggerEvent at ran
    split at ran
    · contradiction
    · exact ⟨_, ran⟩
  constructor
  · intro version hosted last outs numbered ran
    obtain ⟨definition, looped⟩ := loaded ran
    exact (runTriggers_confined numbered looped).1
  · intro version hosted last outs key numbered ran other
    obtain ⟨definition, looped⟩ := loaded ran
    exact ((runTriggers_confined numbered looped).2.1 key other).symm
  · intro version left right leftNumbered rightNumbered same
    unfold offerVersion triggerEvent
    cases senv.load version.toTriggerWorkflow with
    | error reason => rfl
    | ok definition => exact runTriggers_seen leftNumbered rightNumbered same _
  · intro version hosted last outs numbered ran
    obtain ⟨definition, looped⟩ := loaded ran
    exact (runTriggers_confined numbered looped).2.2

namespace NewestQuery

variable {published : Published}

theorem keys_nodup (query : NewestQuery) (published : Published) :
    ((query.rows published).map (·.key)).Nodup := by
  refine List.Nodup.map_on ?_ (query.distinct published)
  intro left leftMember right rightMember same
  obtain ⟨leftRow, leftNewest⟩ := (query.newest published left).mp leftMember
  obtain ⟨rightRow, rightNewest⟩ := (query.newest published right).mp rightMember
  have sameVersion : left.version = right.version :=
    Nat.le_antisymm (rightNewest left leftRow same) (leftNewest right rightRow same.symm)
  exact Table.eq_of_key published.versions leftRow rightRow (Prod.ext same sameVersion)

theorem digests_nodup (query : NewestQuery) (published : Published) :
    ((query.rows published).map (·.digest)).Nodup := by
  refine List.Nodup.map_on ?_ (query.distinct published)
  intro left leftMember right rightMember same
  exact Table.eq_of_key published.digests ((query.newest published left).mp leftMember).1
    ((query.newest published right).mp rightMember).1 same

end NewestQuery

/-- The two sets have the same versions of the workflow. -/
def AgreeOn (key : String) (left right : Published) : Prop :=
  ∀ row, row.key = key → (row ∈ left.rows ↔ row ∈ right.rows)

theorem AgreeOn.newest {key : String} {left right : Published} (agree : AgreeOn key left right)
    {row : WorkflowVersion} (own : row.key = key) :
    row ∈ query.rows left ↔ row ∈ query.rows right := by
  rw [query.newest, query.newest, agree row own]
  refine and_congr_right fun _ => forall_congr' fun other => ?_
  constructor
  · intro newest member same
    exact newest ((agree other (same.trans own)).mpr member) same
  · intro newest member same
    exact newest ((agree other (same.trans own)).mp member) same

/-- Whether the digest is that of a version of the workflow. -/
def Published.owns (published : Published) (key digest : String) : Bool :=
  published.rows.any fun row => row.key = key && row.digest = digest

theorem AgreeOn.owns {key : String} {left right : Published} (agree : AgreeOn key left right) :
    left.owns key = right.owns key := by
  funext digest
  rw [Bool.eq_iff_iff]
  simp only [Published.owns, List.any_eq_true, Bool.and_eq_true, decide_eq_true_eq]
  constructor
  · rintro ⟨row, member, own, same⟩
    exact ⟨row, (agree row own).mp member, own, same⟩
  · rintro ⟨row, member, own, same⟩
    exact ⟨row, (agree row own).mpr member, own, same⟩

theorem owns_iff {published : Published} {version row : WorkflowVersion}
    (newest : version ∈ query.rows published) (member : row ∈ query.rows published) :
    published.owns version.key row.digest = decide (row.digest = version.digest) := by
  obtain ⟨inTable, _⟩ := (query.newest published row).mp member
  rw [Bool.eq_iff_iff]
  simp only [Published.owns, List.any_eq_true, Bool.and_eq_true, decide_eq_true_eq]
  constructor
  · rintro ⟨other, otherMember, own, same⟩
    obtain rfl := Table.eq_of_key published.digests otherMember inTable same
    obtain rfl := Table.eq_of_key (query.keys_nodup published) member newest own
    rfl
  · intro same
    obtain rfl := Table.eq_of_key (query.digests_nodup published) member newest same
    exact ⟨row, inTable, rfl, rfl⟩

/-- The placements of one workflow among those of a delivery. -/
def placements (published : Published) (key : String) (triggered : List TriggeredRun) :
    List Placement :=
  (triggered.filter fun run => published.owns key run.digest).map TriggeredRun.placement

theorem placements_eq {published : Published} {fact : TriggerFact} {hosted last : Hosted}
    {triggered : List TriggeredRun} {version : WorkflowVersion} (numbered : hosted.Numbered)
    (ran : runParts (offerVersion senv now fact) hosted (query.rows published) = .ok (last, triggered))
    (newest : version ∈ query.rows published) :
    seen TriggeredRun.placement (offerVersion senv now fact version hosted) =
      some (placements published version.key triggered) := by
  have confined := @offerVersion_confined senv now fact
  rw [confined.runParts_seen numbered (query.keys_nodup published) (query.digests_nodup published) ran
    newest, placements]
  congr 2
  apply List.filter_congr
  intro run member
  obtain ⟨row, rowMember, same⟩ := List.mem_map.mp (confined.runParts_marked numbered ran member)
  rw [← same, owns_iff newest rowMember]

theorem placements_unpublished {published : Published} {fact : TriggerFact} {hosted last : Hosted}
    {triggered : List TriggeredRun} {key : String} (numbered : hosted.Numbered)
    (ran : runParts (offerVersion senv now fact) hosted (query.rows published) = .ok (last, triggered))
    (absent : ∀ version ∈ query.rows published, version.key ≠ key) :
    placements published key triggered = [] := by
  have confined := @offerVersion_confined senv now fact
  rw [placements, List.map_eq_nil_iff, List.filter_eq_nil_iff]
  intro run member owned
  obtain ⟨row, rowMember, same⟩ := List.mem_map.mp (confined.runParts_marked numbered ran member)
  simp only [Published.owns, List.any_eq_true, Bool.and_eq_true, decide_eq_true_eq] at owned
  obtain ⟨other, otherMember, own, sameDigest⟩ := owned
  obtain rfl := Table.eq_of_key published.digests otherMember
    ((query.newest published row).mp rowMember).1 (sameDigest.trans same.symm)
  exact absent other rowMember own

end

section

variable {senv : SignalEnv} {now : Nat}

/-- What is queued, and the ids still to be drawn, are the same. -/
def SameQueue (left right : Hosted) : Prop :=
  left.deferred = right.deferred ∧ left.nextID = right.nextID

theorem fireSubscriptions_sameQueue (hosted : Hosted) (fired : List (Nat × Nat)) :
    SameQueue (fired.foldl (Hosted.fireSubscription · now) hosted) hosted := by
  induction fired generalizing hosted with
  | nil => exact ⟨rfl, rfl⟩
  | cons matched rest ih => exact ih (hosted.fireSubscription now matched)

theorem pickUpHosted_sameQueue {event : PickupEvent} {hosted next : Hosted}
    {matched : Nat × EventRoute} (picked : pickUpHosted senv now hosted event matched = .ok next) :
    SameQueue next hosted := by
  unfold pickUpHosted at picked
  split at picked
  · contradiction
  · split at picked
    · rw [← Except.ok.inj picked]
      exact ⟨rfl, rfl⟩
    · split at picked
      · contradiction
      · obtain ⟨rows, _, rfl⟩ := map_eq_ok picked
        exact ⟨rfl, rfl⟩

theorem runEventRoutePickup_sameQueue {event : PickupEvent} {hosted next : Hosted}
    {routes : List (Nat × EventRoute)}
    (picked : runEventRoutePickup senv now event hosted routes = .ok next) :
    SameQueue next hosted := by
  induction routes generalizing hosted with
  | nil =>
      rw [← Except.ok.inj picked]
      exact ⟨rfl, rfl⟩
  | cons matched rest ih =>
      unfold runEventRoutePickup at picked
      split at picked
      · contradiction
      · rename_i middle first
        obtain ⟨rows, ids⟩ := ih picked
        obtain ⟨firstRows, firstIDs⟩ := pickUpHosted_sameQueue first
        exact ⟨rows.trans firstRows, ids.trans firstIDs⟩

theorem recordTicket_hosted {db next : SignalDb} {event : SignalEvent}
    (recorded : db.recordTicket senv event = .ok next) : next.hosted = db.hosted := by
  unfold SignalDb.recordTicket at recorded
  repeat' split at recorded
  all_goals first
    | contradiction
    | rw [← Except.ok.inj recorded]

theorem advanceWatermark_hosted {db : SignalDb} {input : DeliverSignalEventInput} {event : String} :
    (db.advanceWatermark input event).hosted = db.hosted := by
  unfold SignalDb.advanceWatermark
  split <;> rfl

/-- What comes before the triggers leaves the queue alone. -/
theorem deliverFact_numbered {db next : SignalDb} {input : DeliverSignalEventInput} {eventID : String}
    {delivery : SignalDelivery} {fact : TriggerFact} (numbered : db.hosted.Numbered)
    (reached : deliverFact senv now db input eventID = .ok (.onward next delivery fact)) :
    next.hosted.Numbered := by
  have appended : appendFact senv now db input eventID = .ok (.onward next delivery fact) := by
    unfold deliverFact at reached
    repeat' split at reached
    all_goals first
      | exact reached
      | cases reached
  unfold appendFact at appended
  dsimp only at appended
  split at appended
  · contradiction
  · rename_i recorded ticket
    obtain ⟨picked, pickedUp, same⟩ := map_eq_ok appended
    obtain ⟨rfl, _, _⟩ := Before.onward.inj same
    obtain ⟨rows, ids⟩ := runEventRoutePickup_sameQueue pickedUp
    obtain ⟨wokenRows, wokenIDs⟩ := @fireSubscriptions_sameQueue now
      (recorded.advanceWatermark input eventID).hosted (db.hosted.matchSubscriptions input)
    have sameHosted : (recorded.advanceWatermark input eventID).hosted = db.hosted := by
      rw [advanceWatermark_hosted, recordTicket_hosted ticket]
    rw [wokenRows, sameHosted] at rows
    rw [wokenIDs, sameHosted] at ids
    exact ⟨by rw [rows]; exact numbered.distinct, by rw [rows, ids]; exact numbered.below⟩

end

/-- What a delivery shows of its fact, of the parked subscriptions and of one workflow. -/
structure Shown where
  events : List SignalEvent
  fired : List (Nat × Nat) := []
  placements : List Placement := []
deriving DecidableEq, Repr

/-- A delivery that fails leaves the facts as they were. -/
def shown (db : SignalDb) (published : Published) (key : String) :
    Except EngineError (SignalDb × SignalDelivery) → Shown
  | .error _ => { events := db.events }
  | .ok (next, delivery) =>
      { events := next.events, fired := delivery.fired
        placements := placements published key delivery.triggered }

section

variable (senv : SignalEnv) (now : Nat) (query : NewestQuery)

/-- Every other workflow accepts the event, where a delivery comes to offer it. -/
def OthersAccept (db : SignalDb) (input : DeliverSignalEventInput) (eventID : String)
    (published : Published) (key : String) : Prop :=
  ∀ next delivery fact, deliverFact senv now db input eventID = .ok (.onward next delivery fact) →
    input.trigger = true → input.run = none →
    ∀ version ∈ query.rows published, version.key ≠ key →
      (offerVersion senv now fact version next.hosted).isOk = true

end

section

variable {senv : SignalEnv} {now : Nat} {query : NewestQuery} {db : SignalDb}
  {input : DeliverSignalEventInput} {eventID key : String} {left right : Published}

/-- Where the others accept the event, the run of the triggers goes through as one's own version
does. -/
theorem runEventTriggers_isOk {fact : TriggerFact} {hosted : Hosted} {published : Published}
    (numbered : hosted.Numbered)
    (others : ∀ version ∈ query.rows published, version.key ≠ key →
      (offerVersion senv now fact version hosted).isOk = true) :
    (runParts (offerVersion senv now fact) hosted (query.rows published)).isOk = true ↔
      ∀ version ∈ query.rows published, version.key = key →
        (offerVersion senv now fact version hosted).isOk = true := by
  rw [(offerVersion_confined fact).runParts_isOk numbered (query.keys_nodup published)]
  constructor
  · intro accepted version member _
    exact accepted version member
  · intro own version member
    by_cases mine : version.key = key
    · exact own version member mine
    · exact others version member mine

/-- Two sets of published workflows that agree on one, offered the same event. -/
theorem runParts_agree {fact : TriggerFact} {hosted : Hosted} (numbered : hosted.Numbered)
    (agree : AgreeOn key left right)
    (leftOthers : ∀ version ∈ query.rows left, version.key ≠ key →
      (offerVersion senv now fact version hosted).isOk = true)
    (rightOthers : ∀ version ∈ query.rows right, version.key ≠ key →
      (offerVersion senv now fact version hosted).isOk = true) :
    (∃ leftError rightError,
      runParts (offerVersion senv now fact) hosted (query.rows left) = .error leftError ∧
      runParts (offerVersion senv now fact) hosted (query.rows right) = .error rightError) ∨
    ∃ leftLast rightLast leftRuns rightRuns,
      runParts (offerVersion senv now fact) hosted (query.rows left) = .ok (leftLast, leftRuns) ∧
      runParts (offerVersion senv now fact) hosted (query.rows right) = .ok (rightLast, rightRuns) ∧
      placements left key leftRuns = placements right key rightRuns := by
  have whether : (runParts (offerVersion senv now fact) hosted (query.rows left)).isOk =
      (runParts (offerVersion senv now fact) hosted (query.rows right)).isOk := by
    rw [Bool.eq_iff_iff, runEventTriggers_isOk numbered leftOthers,
      runEventTriggers_isOk numbered rightOthers]
    constructor
    · intro accepted version member own
      exact accepted version ((agree.newest own).mpr member) own
    · intro accepted version member own
      exact accepted version ((agree.newest own).mp member) own
  cases leftRan : runParts (offerVersion senv now fact) hosted (query.rows left) with
  | error leftError =>
      cases rightRan : runParts (offerVersion senv now fact) hosted (query.rows right) with
      | error rightError => exact Or.inl ⟨leftError, rightError, rfl, rfl⟩
      | ok result =>
          rw [leftRan, rightRan] at whether
          contradiction
  | ok leftResult =>
      cases rightRan : runParts (offerVersion senv now fact) hosted (query.rows right) with
      | error rightError =>
          rw [leftRan, rightRan] at whether
          contradiction
      | ok rightResult =>
          refine Or.inr ⟨leftResult.1, rightResult.1, leftResult.2, rightResult.2, rfl, rfl, ?_⟩
          by_cases published : ∃ version ∈ query.rows left, version.key = key
          · obtain ⟨version, member, rfl⟩ := published
            apply Option.some.inj
            rw [← placements_eq numbered leftRan member,
              ← placements_eq numbered rightRan ((agree.newest rfl).mp member)]
          · have absent : ∀ version ∈ query.rows left, version.key ≠ key :=
              fun version member own => published ⟨version, member, own⟩
            rw [placements_unpublished numbered leftRan absent, placements_unpublished numbered rightRan
              fun version member own => absent version ((agree.newest own).mpr member) own]

/-- Two sets of published workflows that agree on one: as long as the others accept the event, the
delivery appends the same fact, fires the same subscriptions and places the event in that workflow
alike. Where another workflow refuses the event, the delivery fails as a whole. -/
theorem delivery_independent (numbered : db.hosted.Numbered) (agree : AgreeOn key left right) :
    (OthersAccept senv now query db input eventID left key →
      OthersAccept senv now query db input eventID right key →
      shown db left key (deliverSignalEvent senv now query left db input eventID) =
        shown db right key (deliverSignalEvent senv now query right db input eventID)) ∧
    ∀ published, ¬ OthersAccept senv now query db input eventID published key →
      shown db published key (deliverSignalEvent senv now query published db input eventID) =
        { events := db.events } := by
  constructor
  · intro leftOthers rightOthers
    unfold deliverSignalEvent
    cases before : deliverFact senv now db input eventID with
    | error error => rfl
    | ok reached =>
        cases reached with
        | settled delivery =>
            simp only [shown, placements, agree.owns]
        | onward next delivery fact =>
            have nextNumbered := deliverFact_numbered numbered before
            simp only [runEventTriggers]
            split
            · rfl
            · rename_i offered
              have trigger : input.trigger = true := by
                simpa using fun off => offered (Or.inl off)
              have unscoped : input.run = none := by
                by_contra forRun
                exact offered (Or.inr forRun)
              rcases runParts_agree nextNumbered agree
                  (leftOthers next delivery fact before trigger unscoped)
                  (rightOthers next delivery fact before trigger unscoped) with
                ⟨leftError, rightError, onLeft, onRight⟩ |
                ⟨leftLast, rightLast, leftRuns, rightRuns, onLeft, onRight, same⟩
              · rw [onLeft, onRight]
                rfl
              · rw [onLeft, onRight]
                simp only [Except.map, shown, same]
  · intro published refused
    unfold OthersAccept at refused
    push Not at refused
    obtain ⟨next, delivery, fact, before, trigger, unscoped, version, member, _, refuses⟩ := refused
    have nextNumbered := deliverFact_numbered numbered before
    simp only [deliverSignalEvent, before, runEventTriggers, trigger, unscoped]
    cases ran : runParts (offerVersion senv now fact) next.hosted (query.rows published) with
    | error error => rfl
    | ok result =>
        have accepted := ((offerVersion_confined fact).runParts_isOk nextNumbered
          (query.keys_nodup published)).mp (isOk_iff.mpr ⟨result, ran⟩)
        exact absurd (accepted version member) refuses

end

def NewestQuery.inOrder : NewestQuery where
  rows published := published.rows.filter fun row =>
    published.rows.all fun other => other.key ≠ row.key || other.version ≤ row.version
  distinct published := (published.digests.of_map _).filter _
  newest published row := by
    simp [or_iff_not_imp_left]

/-- One trigger for `opened`, with a condition, on the nodes of `reviewed`. -/
def openedWhen (condition : String) : Definition :=
  { reviewed with triggers := [{ onEvent := "opened", condition := condition }], affinity := [] }

/-- A version's document is its trigger's condition, which has a value on the payloads that carry a
tier. -/
def onTier : SignalEnv where
  load version := .ok (openedWhen version.ir)
  evaluateTrigger _ event := if event.payload = "{}" then .error "no such key: tier" else .ok true
  evaluateAffinity _ _ := .ok true
  validateInput _ _ := .ok ()
  engine := Env.permissive
  pinned _ := .ok reviewed
  issueKey _ := .ok ""
  worksOn _ _ := false
  parseJiraHistoryWatermark _ := .ok {}

def flowAlone : Published where
  rows := [⟨⟨"flow", "one", ""⟩, 1⟩]
  digests := by decide
  versions := by decide

/-- Another workflow beside `flow`, whose trigger asks for a tier. -/
def flowBeside : Published where
  rows := [⟨⟨"flow", "one", ""⟩, 1⟩, ⟨⟨"other", "two", "event.payload.tier > 1"⟩, 1⟩]
  digests := by decide
  versions := by decide

def opening (payload : Payload) : DeliverSignalEventInput where
  name := "opened"
  emitter := "jira"
  payload := payload
  subject := "a"

theorem empty_numbered : ({} : SignalDb).hosted.Numbered :=
  ⟨List.nodup_nil, fun _ member => absurd member List.not_mem_nil⟩

theorem flow_agree : AgreeOn "flow" flowAlone flowBeside := by
  intro row own
  simp only [flowAlone, flowBeside, List.mem_cons, List.not_mem_nil, or_false]
  refine ⟨Or.inl, fun member => member.resolve_right ?_⟩
  rintro rfl
  exact absurd own (by decide)

/-- Whether every other workflow accepts the event. -/
def othersAccept (published : Published) (payload : Payload) : Bool :=
  match deliverFact onTier 0 {} (opening payload) "event" with
  | .ok (.onward next _ fact) => (NewestQuery.inOrder.rows published).all fun version =>
      version.key = "flow" || (offerVersion onTier 0 fact version next.hosted).isOk
  | _ => true

theorem OthersAccept.of_check {published : Published} {payload : Payload}
    (accepted : othersAccept published payload = true) :
    OthersAccept onTier 0 .inOrder {} (opening payload) "event" published "flow" := by
  intro next delivery fact before _ _ version member other
  simp only [othersAccept, before, List.all_eq_true, Bool.or_eq_true, decide_eq_true_eq] at accepted
  exact (accepted version member).resolve_left other

/-- With a tier in the payload, the run of `flow` is created beside that of the other workflow as it is
alone. -/
theorem delivery_independent_tier :
    shown {} flowAlone "flow" (deliverSignalEvent onTier 0 .inOrder flowAlone {} (opening "tier")
        "event") =
      shown {} flowBeside "flow" (deliverSignalEvent onTier 0 .inOrder flowBeside {} (opening "tier")
        "event") ∧
    (deliverSignalEvent onTier 0 .inOrder flowBeside {} (opening "tier") "event").isOk = true :=
  ⟨(delivery_independent empty_numbered flow_agree).1 (.of_check (by decide)) (.of_check (by decide)),
    by decide⟩

/-- Without a tier the trigger of the other workflow has no value: the event is not appended and the run
of `flow` is not created. -/
theorem other_workflow_aborts_delivery :
    ¬ ∀ (senv : SignalEnv) (now : Nat) (query : NewestQuery) (db : SignalDb)
      (input : DeliverSignalEventInput) (eventID key : String) (left right : Published),
      db.hosted.Numbered → AgreeOn key left right →
      shown db left key (deliverSignalEvent senv now query left db input eventID) =
        shown db right key (deliverSignalEvent senv now query right db input eventID) := by
  intro always
  have same := always onTier 0 .inOrder {} (opening "") "event" "flow" flowAlone flowBeside
    empty_numbered flow_agree
  revert same
  decide

end CultureNodes.Engine
