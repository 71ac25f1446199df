import CultureNodes.Library.Streak
import CultureNodes.Scheduler.Cadence

/-!
The failure streak of a schedule. Only the runs of the last event are ever assessed, so a run is
counted where its schedule does not fire again before it has ended.
-/

namespace CultureNodes.Scheduler

open Duration

variable {sc row : Schedule} {input : FireScheduleInput} {runs onward : List ScheduledRun}

/-- Why a run failed; a run that completed has no reason. -/
def ScheduledRun.reason (run : ScheduledRun) : Option String :=
  if run.status = .completed then none else some run.detail

theorem ScheduledRun.detail_ne_empty (run : ScheduledRun) : run.detail ≠ "" := by
  unfold ScheduledRun.detail
  split
  · assumption
  · split
    · assumption
    · cases run.status <;> decide

/-- The row's counters are those of the given runs. -/
def Schedule.Counts (sc : Schedule) (runs : List ScheduledRun) : Prop :=
  sc.consecutiveFailures = (Streak.count ScheduledRun.reason runs).1 ∧
    sc.lastFailureDetail = (Streak.count ScheduledRun.reason runs).2.getD ""

theorem Schedule.Counts.fold (counts : sc.Counts runs) (run : ScheduledRun) :
    (sc.fold run).Counts (runs ++ [run]) := by
  unfold Schedule.Counts at *
  rw [Streak.count_append, Streak.step]
  unfold Schedule.fold
  by_cases completed : run.status = .completed
  · have reason : run.reason = none := if_pos completed
    rw [reason, if_pos completed]
    exact ⟨rfl, rfl⟩
  · have reason : run.reason = some run.detail := if_neg completed
    rw [reason, if_neg completed]
    dsimp only
    have matched : run.detail = sc.lastFailureDetail ↔
        (Streak.count ScheduledRun.reason runs).2 = some run.detail := by
      rw [counts.2]
      cases (Streak.count ScheduledRun.reason runs).2 with
      | none => simpa using run.detail_ne_empty
      | some detail => simp [eq_comm]
    by_cases same : run.detail = sc.lastFailureDetail
    · rw [if_pos same, if_pos (matched.mp same)]
      exact ⟨by simp only [counts.1], same.symm⟩
    · rw [if_neg same, if_neg (fun found => same (matched.mpr found))]
      exact ⟨rfl, rfl⟩

theorem Schedule.fold_references (sc : Schedule) (run : ScheduledRun) :
    (sc.fold run).lastEventID = sc.lastEventID ∧ (sc.fold run).lastAssessedRunID = some run.id := by
  unfold Schedule.fold
  dsimp only
  split
  · exact ⟨rfl, rfl⟩
  · split <;> exact ⟨rfl, rfl⟩

/-- The later state of the same runs: a run that has ended stays as it is. -/
def Later (runs later : List ScheduledRun) : Prop :=
  List.Forall₂ (fun old new => new.id = old.id ∧ new.triggerEvent = old.triggerEvent ∧
    (old.ended = true → new = old)) runs later

theorem Later.refl (runs : List ScheduledRun) : Later runs runs :=
  List.forall₂_same.mpr fun _ _ => ⟨rfl, rfl, fun _ => rfl⟩

theorem Later.trans {last : List ScheduledRun} (first : Later runs onward)
    (second : Later onward last) : Later runs last := by
  induction first generalizing last with
  | nil => exact second
  | cons head _ ih =>
      cases second with
      | cons next tail =>
          refine .cons ⟨next.1.trans head.1, next.2.1.trans head.2.1, fun ended => ?_⟩ (ih tail)
          have same := head.2.2 ended
          rw [next.2.2 (same ▸ ended), same]

theorem Later.eq_of_ended (isLater : Later runs onward) (ended : ∀ run ∈ runs, run.ended = true) :
    onward = runs := by
  induction isLater with
  | nil => rfl
  | cons head _ ih =>
      rw [head.2.2 (ended _ List.mem_cons_self), ih fun run member =>
        ended run (List.mem_cons_of_mem _ member)]

theorem Later.after_ended {done rest : List ScheduledRun} (isLater : Later (done ++ rest) onward)
    (ended : ∀ run ∈ done, run.ended = true) : ∃ next, onward = done ++ next ∧ Later rest next := by
  induction done generalizing onward with
  | nil => exact ⟨onward, rfl, isLater⟩
  | cons run done ih =>
      cases isLater with
      | cons head tail =>
          obtain ⟨next, rfl, isNext⟩ := ih tail fun other member =>
            ended other (List.mem_cons_of_mem _ member)
          rw [head.2.2 (ended run List.mem_cons_self)]
          exact ⟨next, rfl, isNext⟩

theorem Later.fresh {bound : Nat} (isLater : Later runs onward)
    (known : ∀ run ∈ runs, run.id < bound ∧ run.triggerEvent < bound) :
    ∀ run ∈ onward, run.id < bound ∧ run.triggerEvent < bound := by
  induction isLater with
  | nil => exact known
  | cons head _ ih =>
      intro run member
      rcases List.mem_cons.mp member with rfl | old
      · rw [head.1, head.2.1]
        exact known _ List.mem_cons_self
      · exact ih (fun other isMember => known other (List.mem_cons_of_mem _ isMember)) run old

theorem later_terminate (db : ScheduleDb) (run : Nat) (status : Engine.RunState) (at_ : Int)
    (errorDetail attemptStatus : String) :
    Later db.runs (db.terminate run status at_ errorDetail attemptStatus).runs := by
  unfold Later ScheduleDb.terminate
  dsimp only
  induction db.runs with
  | nil => exact .nil
  | cons head tail ih =>
      refine .cons ?_ ih
      dsimp only
      split
      · rename_i hit
        refine ⟨rfl, rfl, fun ended => ?_⟩
        rw [ended] at hit
        simp at hit
      · exact ⟨rfl, rfl, fun _ => rfl⟩

/-- The runs whose outcome the row reflects, and behind them at most one run, of the last event, that
is still to be folded in. -/
structure Schedule.Tally (sc : Schedule) (done rest : List ScheduledRun) : Prop where
  one : rest.length ≤ 1
  ended : ∀ run ∈ done, run.ended = true
  counts : sc.Counts done
  last : ∀ run ∈ rest, sc.lastEventID = some run.triggerEvent ∧ sc.lastAssessedRunID ≠ some run.id
  assessed : ∀ run ∈ done, sc.lastEventID = some run.triggerEvent →
    sc.lastAssessedRunID = some run.id ∧ rest = []

namespace Schedule.Tally

variable {done rest others : List ScheduledRun} {run : ScheduledRun}

theorem alone (tally : sc.Tally done (run :: others)) : others = [] := by
  have short := tally.one
  rw [List.length_cons] at short
  exact List.eq_nil_of_length_eq_zero (Nat.le_zero.mp (Nat.le_of_succ_le_succ short))

theorem later (tally : sc.Tally done rest) (isLater : Later (done ++ rest) onward) :
    ∃ next, onward = done ++ next ∧ sc.Tally done next := by
  obtain ⟨next, rfl, laterRest⟩ := isLater.after_ended tally.ended
  refine ⟨next, rfl, laterRest.length_eq ▸ tally.one, tally.ended, tally.counts, ?_, ?_⟩
  · intro run member
    cases laterRest with
    | nil => contradiction
    | cons head tail =>
        obtain rfl := tally.alone
        cases tail
        rw [List.mem_singleton.mp member, head.1, head.2.1]
        exact tally.last _ List.mem_cons_self
  · intro run member isLast
    obtain ⟨assessed, empty⟩ := tally.assessed run member isLast
    subst empty
    cases laterRest
    exact ⟨assessed, rfl⟩

theorem congr {other : Schedule} (tally : sc.Tally done rest)
    (failures : other.consecutiveFailures = sc.consecutiveFailures)
    (detail : other.lastFailureDetail = sc.lastFailureDetail)
    (event : other.lastEventID = sc.lastEventID)
    (assessed : other.lastAssessedRunID = sc.lastAssessedRunID) : other.Tally done rest where
  one := tally.one
  ended := tally.ended
  counts := ⟨failures.trans tally.counts.1, detail.trans tally.counts.2⟩
  last := by rw [event, assessed]; exact tally.last
  assessed := by rw [event, assessed]; exact tally.assessed

/-- The run that an assessment folds in is the one the tally still waits for, once it has ended. -/
theorem unassessed_eq (tally : sc.Tally done rest) :
    sc.unassessed (done ++ rest) = rest.find? (·.ended) := by
  unfold Schedule.unassessed
  cases event : sc.lastEventID with
  | none =>
      cases rest with
      | nil => rfl
      | cons run _ =>
          have isLast := (tally.last run List.mem_cons_self).1
          rw [event] at isLast
          contradiction
  | some last =>
      dsimp only
      unfold scheduleOutcome
      rw [List.filter_append]
      cases rest with
      | nil =>
          rw [List.filter_nil, List.append_nil, List.find?_nil]
          split
          · rfl
          · rename_i run found
            have member := List.mem_filter.mp (List.argmax_mem found)
            simp only [Bool.and_eq_true, decide_eq_true_eq] at member
            rw [if_pos (tally.assessed run member.1 (by rw [event, member.2.1])).1]
      | cons run others =>
          obtain rfl := tally.alone
          have noneDone : done.filter (fun run => run.triggerEvent = last && run.ended) = [] := by
            rw [List.filter_eq_nil_iff]
            intro other member hit
            simp only [Bool.and_eq_true, decide_eq_true_eq] at hit
            exact List.cons_ne_nil _ _ (tally.assessed other member (by rw [event, hit.1])).2
          obtain ⟨isLast, unassessed⟩ := tally.last run List.mem_cons_self
          have same : run.triggerEvent = last := Option.some.inj (isLast.symm.trans event)
          rw [noneDone, List.nil_append]
          cases ended : run.ended with
          | true => simp [same, ended, unassessed]
          | false => simp [ended]

theorem assess (tally : sc.Tally done rest) (tasks : List FailingTask) (alertAfter : Int)
    (taskID : Nat) :
    ∃ done' rest', done ++ rest = done' ++ rest' ∧
      (sc.assess (done ++ rest) tasks alertAfter taskID).1.Tally done' rest' ∧
      ((∀ run ∈ done ++ rest, sc.lastEventID = some run.triggerEvent → run.ended = true) →
        rest' = []) := by
  unfold Schedule.assess
  rw [tally.unassessed_eq]
  cases found : rest.find? (·.ended) with
  | none =>
      refine ⟨done, rest, rfl, tally, fun ended => ?_⟩
      cases rest with
      | nil => rfl
      | cons run _ =>
          have unended := List.find?_eq_none.mp found run List.mem_cons_self
          exact absurd (ended run (by simp) (tally.last run List.mem_cons_self).1) unended
  | some run =>
      have ended : run.ended = true := List.find?_some found
      have isRest : rest = [run] := by
        cases rest with
        | nil => contradiction
        | cons head others =>
            obtain rfl := tally.alone
            rw [List.mem_singleton.mp (List.mem_of_find?_eq_some found)]
      subst isRest
      have lastEvent := sc.fold_references run
      have folded : (sc.fold run).Tally (done ++ [run]) [] := by
        refine ⟨Nat.zero_le _, fun other member => ?_, tally.counts.fold run,
          fun _ member => absurd member List.not_mem_nil, fun other member isLast => ?_⟩
        · rcases List.mem_append.mp member with old | new
          · exact tally.ended other old
          · rw [List.mem_singleton.mp new]
            exact ended
        · rw [lastEvent.1] at isLast
          rcases List.mem_append.mp member with old | new
          · exact absurd (tally.assessed other old isLast).2 (List.cons_ne_nil _ _)
          · rw [List.mem_singleton.mp new]
            exact ⟨lastEvent.2, rfl⟩
      refine ⟨done ++ [run], [], (List.append_nil _).symm, ?_, fun _ => rfl⟩
      dsimp only
      split
      · exact folded.congr rfl rfl rfl rfl
      · exact folded

end Schedule.Tally

theorem Schedule.assess_references (sc : Schedule) (runs : List ScheduledRun)
    (tasks : List FailingTask) (alertAfter : Int) (taskID : Nat) :
    (sc.assess runs tasks alertAfter taskID).1.lastEventID = sc.lastEventID ∧
      ((sc.assess runs tasks alertAfter taskID).1.lastAssessedRunID = sc.lastAssessedRunID ∨
        ∃ run ∈ runs, (sc.assess runs tasks alertAfter taskID).1.lastAssessedRunID = some run.id) := by
  unfold Schedule.assess
  split
  · exact ⟨rfl, Or.inl rfl⟩
  · rename_i run found
    have member : run ∈ runs := by
      unfold Schedule.unassessed at found
      split at found
      · contradiction
      · split at found
        · contradiction
        · rename_i outcome
          split at found
          · contradiction
          · rw [← Option.some.inj found]
            exact (List.mem_filter.mp (List.argmax_mem outcome)).1
    have folded := sc.fold_references run
    dsimp only
    split
    · exact ⟨folded.1, Or.inr ⟨run, member, folded.2⟩⟩
    · exact ⟨folded.1, Or.inr ⟨run, member, folded.2⟩⟩

/-- A call that appends a new event mints at most one run from it, and the runs of the event before it
had ended when the call read them. -/
def oneRunEach (world : ScheduleWorld) (action : ScheduleAction) : Prop :=
  ∀ scheduler minted, action = .finish scheduler minted → ∀ holder call sc task read,
    world.call = some (holder, call) → call.assessed = some (sc, task, read) →
    sc.occurrence call.input = .fired →
    minted ≤ 1 ∧ ∀ run ∈ read, call.row.lastEventID = some run.triggerEvent → run.ended = true

/-- The row reflects the outcomes of the runs, as far as they have been assessed. -/
def Schedule.Reflects (sc : Schedule) (runs : List ScheduledRun) : Prop :=
  ∃ done rest, runs = done ++ rest ∧ sc.Tally done rest

theorem Schedule.Reflects.later (reflects : sc.Reflects runs) (isLater : Later runs onward) :
    sc.Reflects onward := by
  obtain ⟨done, rest, rfl, tally⟩ := reflects
  obtain ⟨next, rfl, nextTally⟩ := tally.later isLater
  exact ⟨done, next, rfl, nextTally⟩

/-- What a call in flight knows of the runs: those it found when it began, those it assessed and those
that stand now differ only by runs that have ended in between. -/
structure Call.Sees (call : Call) (db : ScheduleDb) : Prop where
  row : db.schedule = some call.row
  began : Later call.began db.runs
  assessed : ∀ sc task read, call.assessed = some (sc, task, read) →
    Later call.began read ∧ Later read db.runs ∧ sc.lastEventID = call.row.lastEventID ∧
    (∀ id, sc.lastAssessedRunID = some id → id < db.nextID) ∧
    ∃ done rest, read = done ++ rest ∧ sc.Tally done rest ∧
      ((∀ run ∈ read, call.row.lastEventID = some run.triggerEvent → run.ended = true) → rest = [])

structure Counted (world : ScheduleWorld) : Prop where
  fresh : ∀ run ∈ world.db.runs, run.id < world.db.nextID ∧ run.triggerEvent < world.db.nextID
  row : ∀ row, world.db.schedule = some row → row.Reflects world.db.runs ∧
    ∀ id, row.lastAssessedRunID = some id → id < world.db.nextID
  call : ∀ holder call, world.call = some (holder, call) → call.Sees world.db

namespace Counted

variable {world next : ScheduleWorld} {scheduler minted : Nat} {action : ScheduleAction}

theorem assess (counted : Counted world) (acted : world.act (.assess scheduler) = some next) :
    Counted next := by
  obtain ⟨input, row, began, assessed, held, isAssessed, rfl⟩ := ScheduleWorld.act_assess acted
  have sees := counted.call _ _ held
  obtain ⟨reflects, bound⟩ := counted.row row sees.row
  refine ⟨fun run member => ?_, fun other found => ⟨(counted.row other found).1, fun id isID =>
    Nat.lt_succ_of_lt ((counted.row other found).2 id isID)⟩, fun holder call isHeld => ?_⟩
  · exact ⟨Nat.lt_succ_of_lt (counted.fresh run member).1, Nat.lt_succ_of_lt (counted.fresh run member).2⟩
  · obtain ⟨rfl, rfl⟩ := Prod.mk.inj (Option.some.inj isHeld)
    refine ⟨sees.row, sees.began, fun sc task read isRead => ?_⟩
    obtain ⟨rfl, isRest⟩ := Prod.mk.inj (Option.some.inj isRead)
    obtain ⟨rfl, rfl⟩ := Prod.mk.inj isRest
    obtain ⟨lastEvent, references⟩ :=
      row.assess_references world.db.runs world.db.tasks input.alertAfter world.db.nextID
    obtain ⟨done, rest, shape, tally⟩ := reflects
    have next := tally.assess world.db.tasks input.alertAfter world.db.nextID
    rw [← shape, ← isAssessed] at next
    rw [← isAssessed] at lastEvent references
    refine ⟨sees.began, Later.refl _, lastEvent, fun id isID => ?_, next⟩
    rcases references with same | ⟨run, member, isRun⟩
    · exact Nat.lt_succ_of_lt (bound id (same ▸ isID))
    · rw [← Option.some.inj (isRun.symm.trans isID)]
      exact Nat.lt_succ_of_lt (counted.fresh run member).1

/-- The rows that a call commits; the runs of the new event are the only ones it adds. -/
theorem spend_runs (db : ScheduleDb) (sc : Schedule) (input : FireScheduleInput)
    (task : Option FailingTask) (minted : Nat) :
    (sc.occurrence input = .fired ∧
      (db.spend input sc task minted).runs = db.runs ++ ScheduleDb.mint db.nextID minted ∧
      (db.spend input sc task minted).nextID = db.nextID + 1 + minted ∧
      (sc.spend input db.nextID).lastEventID = some db.nextID) ∨
    (sc.occurrence input ≠ .fired ∧ (db.spend input sc task minted).runs = db.runs ∧
      (db.spend input sc task minted).nextID = db.nextID + 1 ∧
      (sc.spend input db.nextID).lastEventID = sc.lastEventID) := by
  cases occurs : sc.occurrence input with
  | suppressed => simp [ScheduleDb.spend, Schedule.spend, occurs]
  | skipped => simp [ScheduleDb.spend, Schedule.spend, occurs]
  | fired => simp [ScheduleDb.spend, Schedule.spend, occurs]

theorem spend_counters (sc : Schedule) (input : FireScheduleInput) (event : Nat) :
    (sc.spend input event).consecutiveFailures = sc.consecutiveFailures ∧
      (sc.spend input event).lastFailureDetail = sc.lastFailureDetail ∧
      (sc.spend input event).lastAssessedRunID = sc.lastAssessedRunID := by
  unfold Schedule.spend
  dsimp only
  split <;> exact ⟨rfl, rfl, rfl⟩

theorem mem_mint {event count : Nat} {run : ScheduledRun} (member : run ∈ ScheduleDb.mint event count) :
    event < run.id ∧ run.id < event + 1 + count ∧ run.triggerEvent = event := by
  obtain ⟨index, isIndex, rfl⟩ := List.mem_map.mp member
  rw [List.mem_range] at isIndex
  dsimp only
  omega

theorem finish (counted : Counted world) (each : oneRunEach world (.finish scheduler minted))
    (acted : world.act (.finish scheduler minted) = some next) : Counted next := by
  obtain ⟨input, row, began, sc, task, read, held, rfl⟩ := ScheduleWorld.act_finish acted
  have sees := counted.call _ _ held
  obtain ⟨_, isLater, sameEvent, bound, done, rest, rfl, tally, settled⟩ := sees.assessed sc task read rfl
  obtain ⟨failures, detail, assessed⟩ := spend_counters sc input world.db.nextID
  have isNext : (world.db.spend input sc task minted).schedule =
      some (sc.spend input world.db.nextID) := ScheduleDb.spend_schedule ..
  rcases spend_runs world.db sc input task minted with
    ⟨fired, runs, nextID, event⟩ | ⟨_, runs, nextID, event⟩
  · obtain ⟨atMostOne, ended⟩ := each _ _ rfl _ _ _ _ _ held rfl fired
    obtain rfl := settled ended
    rw [List.append_nil] at isLater
    have standing := isLater.eq_of_ended tally.ended
    refine ⟨?_, fun other found => ?_, fun _ _ isHeld => (Option.some_ne_none _ isHeld.symm).elim⟩
    · rw [runs, nextID]
      intro run member
      rcases List.mem_append.mp member with old | new
      · have known := counted.fresh run old
        omega
      · have known := mem_mint new
        omega
    · rw [← Option.some.inj (isNext.symm.trans found), assessed]
      refine ⟨⟨done, ScheduleDb.mint world.db.nextID minted, by rw [runs, standing], ?_, tally.ended,
        ⟨failures.trans tally.counts.1, detail.trans tally.counts.2⟩, fun run member => ?_,
        fun run member isLast => ?_⟩, fun id isID => ?_⟩
      · rw [ScheduleDb.mint, List.length_map, List.length_range]
        exact atMostOne
      · have known := mem_mint member
        rw [event, assessed, known.2.2]
        refine ⟨rfl, fun isID => ?_⟩
        have old := bound run.id isID
        omega
      · have known := counted.fresh run (standing.symm ▸ member)
        rw [event, Option.some.injEq] at isLast
        omega
      · have known := bound id isID
        rw [nextID]
        omega
  · refine ⟨?_, fun other found => ?_, fun _ _ isHeld => (Option.some_ne_none _ isHeld.symm).elim⟩
    · rw [runs, nextID]
      exact fun run member => ⟨Nat.lt_succ_of_lt (counted.fresh run member).1,
        Nat.lt_succ_of_lt (counted.fresh run member).2⟩
    · rw [← Option.some.inj (isNext.symm.trans found), assessed, runs, nextID]
      refine ⟨?_, fun id isID => Nat.lt_succ_of_lt (bound id isID)⟩
      have stillReflects : (sc.spend input world.db.nextID).Reflects (done ++ rest) :=
        ⟨done, rest, rfl, tally.congr failures detail event assessed⟩
      exact stillReflects.later isLater

theorem act (counted : Counted world) (each : oneRunEach world action)
    (acted : world.act action = some next) : Counted next := by
  cases action with
  | lockRow scheduler input =>
      obtain ⟨row, _, found, _, _, rfl⟩ := ScheduleWorld.act_lockRow acted
      refine ⟨counted.fresh, counted.row, fun holder call held => ?_⟩
      obtain ⟨rfl, rfl⟩ := Prod.mk.inj (Option.some.inj held)
      exact ⟨found, Later.refl _, fun _ _ _ isRead => (Option.some_ne_none _ isRead.symm).elim⟩
  | assess scheduler => exact counted.assess acted
  | finish scheduler minted => exact counted.finish each acted
  | abandon scheduler =>
      rw [ScheduleWorld.act_abandon acted]
      exact ⟨counted.fresh, counted.row, fun _ _ held => (Option.some_ne_none _ held.symm).elim⟩
  | setEnabled enabled =>
      obtain ⟨row, free, found, rfl⟩ := ScheduleWorld.act_setEnabled acted
      refine ⟨counted.fresh, fun other isOther => ?_, fun holder call held =>
        (Option.some_ne_none _ (held.symm.trans free)).elim⟩
      obtain ⟨⟨done, rest, shape, tally⟩, bound⟩ := counted.row row found
      rw [← Option.some.inj isOther]
      exact ⟨⟨done, rest, shape, tally.congr rfl rfl rfl rfl⟩, bound⟩
  | delete =>
      obtain ⟨free, rfl⟩ := ScheduleWorld.act_delete acted
      exact ⟨counted.fresh, fun _ found => (Option.some_ne_none _ found.symm).elim,
        fun holder call held => (Option.some_ne_none _ (held.symm.trans free)).elim⟩
  | terminate run status at_ errorDetail attemptStatus =>
      simp only [ScheduleWorld.act] at acted
      split at acted
      · rw [← Option.some.inj acted]
        have isLater := later_terminate world.db run status at_ errorDetail attemptStatus
        refine ⟨Later.fresh isLater counted.fresh, fun row found =>
          ⟨(counted.row row found).1.later isLater, (counted.row row found).2⟩, fun holder call held => ?_⟩
        have sees := counted.call holder call held
        refine ⟨sees.row, sees.began.trans isLater, fun sc task read isRead => ?_⟩
        obtain ⟨first, second, rest⟩ := sees.assessed sc task read isRead
        exact ⟨first, second.trans isLater, rest⟩
      · contradiction
  | decideTask task =>
      rw [← Option.some.inj acted]
      refine ⟨counted.fresh, counted.row, fun holder call held => ?_⟩
      have sees := counted.call holder call held
      exact ⟨sees.row, sees.began, sees.assessed⟩

end Counted

theorem createSchedule_uncounted {declaration : CreateScheduleInput} {now : Int}
    (created : createSchedule declaration now = .ok row) :
    row.Tally [] [] ∧ row.lastAssessedRunID = none := by
  unfold createSchedule at created
  split at created
  · contradiction
  · split at created
    · contradiction
    · split at created
      · contradiction
      · split at created
        · contradiction
        · split at created
          · contradiction
          · rw [← Except.ok.inj created]
            exact ⟨⟨Nat.zero_le _, fun _ member => absurd member List.not_mem_nil, ⟨rfl, rfl⟩,
              fun _ member => absurd member List.not_mem_nil,
              fun _ member => absurd member List.not_mem_nil⟩, rfl⟩

theorem Counted.declared (tally : row.Tally [] []) (unassessed : row.lastAssessedRunID = none) :
    Counted (.declared row) where
  fresh _ member := absurd member List.not_mem_nil
  row := by
    intro other found
    rw [← Option.some.inj found]
    exact ⟨⟨[], [], rfl, tally⟩, fun id isID =>
      (Option.some_ne_none _ (isID.symm.trans unassessed)).elim⟩
  call _ _ held := (Option.some_ne_none _ held.symm).elim

/-- A call that finds the schedule due when all the runs minted before it have ended leaves the streak
at the longest run of equal failures at their end, where every event so far minted at most one run and
was not followed by another before that run had ended. -/
theorem streak_of_minted_runs {declaration : CreateScheduleInput} {now : Int}
    {world next : ScheduleWorld} {scheduler minted holder : Nat} {call : Call}
    (created : createSchedule declaration now = .ok row)
    (run : Steps ScheduleWorld.step oneRunEach (.declared row) world)
    (held : world.call = some (holder, call))
    (ended : ∀ run ∈ call.began, run.ended = true)
    (finished : world.act (.finish scheduler minted) = some next) :
    ∃ after, next.db.schedule = some after ∧
      IsGreatest (Streak.lengths ScheduledRun.reason call.began) after.consecutiveFailures := by
  obtain ⟨uncounted, unassessed⟩ := createSchedule_uncounted created
  have counted : Counted world := run.invariant _ (Counted.declared uncounted unassessed)
    fun _ _ _ counted each acted => counted.act each acted
  obtain ⟨input, row, began, sc, task, read, isHeld, rfl⟩ := ScheduleWorld.act_finish finished
  obtain ⟨rfl, rfl⟩ := Prod.mk.inj (Option.some.inj (held.symm.trans isHeld))
  obtain ⟨isLater, _, _, _, done, rest, shape, tally, settled⟩ :=
    (counted.call _ _ held).assessed sc task read rfl
  have standing : read = began := isLater.eq_of_ended ended
  have allRead : rest = [] := settled fun run member _ => ended run (standing ▸ member)
  rw [allRead, List.append_nil, standing] at shape
  refine ⟨_, ScheduleDb.spend_schedule .., ?_⟩
  rw [(Counted.spend_counters ..).1, tally.counts.1, shape]
  exact Streak.isGreatest_count done

/-- `oneRunEach` as a check on the world and the action. -/
def oneRunEachCheck (world : ScheduleWorld) : ScheduleAction → Bool
  | .finish _ minted => world.call.all fun held => held.2.assessed.all fun assessed =>
      !(assessed.1.occurrence held.2.input = .fired) || (decide (minted ≤ 1) &&
        assessed.2.2.all fun run => !(held.2.row.lastEventID = some run.triggerEvent) || run.ended)
  | _ => true

theorem oneRunEachCheck_sound (world : ScheduleWorld) (action : ScheduleAction)
    (passes : oneRunEachCheck world action = true) : oneRunEach world action := by
  intro scheduler minted isFinish holder call sc task read held assessed fired
  subst isFinish
  simp only [oneRunEachCheck, held, assessed, fired, Option.all_some, Bool.or_eq_true,
    Bool.and_eq_true, List.all_eq_true, decide_eq_true_eq, Bool.not_eq_true', decide_eq_false_iff_not,
    not_true_eq_false, false_or] at passes
  refine ⟨passes.1, fun run member isLast => ?_⟩
  exact (passes.2 run member).resolve_left fun other => other isLast

/-- The hourly schedule from its first fire through a list of actions that leaves a call of scheduler 0
to commit: the runs minted before that call, and the streak after it. -/
def streakAfter (check : ScheduleWorld → ScheduleAction → Bool) (actions : List ScheduleAction) :
    Option (List ScheduledRun × Nat) :=
  (createSchedule (hourly 0) 0).toOption.bind fun row =>
    (Steps.ofList ScheduleWorld.act check (.declared row) actions).bind fun world =>
      world.call.bind fun held => (world.act (.finish 0 1)).bind fun next =>
        next.db.schedule.map fun after => (held.2.began, after.consecutiveFailures)

/-- A run of the schedule that ended in failure. -/
def failedRun (id event : Nat) (at_ : Int) : ScheduledRun where
  id := id
  triggerEvent := event
  status := .failed
  completedAt := some at_
  errorDetail := "broken"
  attemptStatus := "failed"

def fails (run : Nat) (at_ : Int) : ScheduleAction := .terminate run .failed at_ "broken" "failed"

/-- Two runs that fail one after the other, each before the next fire. -/
theorem streak_of_two_failures :
    IsGreatest (Streak.lengths ScheduledRun.reason
      [failedRun 2 1 second, failedRun 5 4 (3601 * second)]) 2 := by
  have ran : streakAfter oneRunEachCheck (fire 0 0 1 ++ [fails 2 second] ++ fire 0 (3600 * second) 1 ++
      [fails 5 (3601 * second)] ++ (fire 0 (7200 * second) 1).take 2) =
      some ([failedRun 2 1 second, failedRun 5 4 (3601 * second)], 2) := by decide +kernel
  obtain ⟨row, created, ran⟩ := Option.bind_eq_some_iff.mp ran
  obtain ⟨world, reached, ran⟩ := Option.bind_eq_some_iff.mp ran
  obtain ⟨held, isHeld, ran⟩ := Option.bind_eq_some_iff.mp ran
  obtain ⟨next, finished, ran⟩ := Option.bind_eq_some_iff.mp ran
  obtain ⟨after, isAfter, result⟩ := Option.map_eq_some_iff.mp ran
  obtain ⟨began, failures⟩ := Prod.mk.inj result
  have run : Steps ScheduleWorld.step oneRunEach (.declared row) world :=
    Steps.of_ofList oneRunEachCheck_sound reached
  have ended : ∀ run ∈ held.2.began, run.ended = true := by
    rw [began]
    decide
  obtain ⟨other, isOther, greatest⟩ := streak_of_minted_runs (toOption_some created) run
    (isHeld : world.call = some (held.1, held.2)) ended finished
  rw [Option.some.inj (isOther.symm.trans isAfter), failures, began] at greatest
  exact greatest

/-- Two runs fail for the same reason, but the first one is still going when the schedule fires again:
it is never counted, and the streak is one. -/
theorem streak_misses_outlived_run :
    ¬ ∀ (declaration : CreateScheduleInput) (now : Int) (row : Schedule) (world next : ScheduleWorld)
        (scheduler minted holder : Nat) (call : Call),
      createSchedule declaration now = .ok row →
      Steps ScheduleWorld.step anyAction (.declared row) world →
      world.call = some (holder, call) →
      (∀ run ∈ call.began, run.ended = true) →
      world.act (.finish scheduler minted) = some next →
      ∃ after, next.db.schedule = some after ∧
        IsGreatest (Streak.lengths ScheduledRun.reason call.began) after.consecutiveFailures := by
  intro always
  have ran : streakAfter (fun _ _ => true) (fire 0 0 1 ++ fire 0 (3600 * second) 1 ++
      [fails 2 (3601 * second), fails 5 (3602 * second)] ++ (fire 0 (7200 * second) 1).take 2) =
      some ([failedRun 2 1 (3601 * second), failedRun 5 4 (3602 * second)], 1) := by decide +kernel
  obtain ⟨row, created, ran⟩ := Option.bind_eq_some_iff.mp ran
  obtain ⟨world, reached, ran⟩ := Option.bind_eq_some_iff.mp ran
  obtain ⟨held, isHeld, ran⟩ := Option.bind_eq_some_iff.mp ran
  obtain ⟨next, finished, ran⟩ := Option.bind_eq_some_iff.mp ran
  obtain ⟨after, isAfter, result⟩ := Option.map_eq_some_iff.mp ran
  obtain ⟨began, failures⟩ := Prod.mk.inj result
  have run : Steps ScheduleWorld.step anyAction (.declared row) world :=
    Steps.of_ofList (fun _ _ _ => trivial) reached
  have ended : ∀ run ∈ held.2.began, run.ended = true := by
    rw [began]
    decide
  obtain ⟨other, isOther, greatest⟩ := always _ _ row world next 0 1 held.1 held.2
    (toOption_some created) run isHeld ended finished
  rw [Option.some.inj (isOther.symm.trans isAfter), failures, began] at greatest
  have both : 2 ∈ Streak.lengths ScheduledRun.reason
      [failedRun 2 1 (3601 * second), failedRun 5 4 (3602 * second)] := by
    refine ⟨_, List.suffix_refl _, fun run member => ?_, rfl⟩
    simp only [List.mem_cons, List.not_mem_nil, or_false] at member
    rcases member with rfl | rfl <;> decide
  exact absurd (greatest.2 both) (by decide)

end CultureNodes.Scheduler
