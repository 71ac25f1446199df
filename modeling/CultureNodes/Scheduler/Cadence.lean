import CultureNodes.Scheduler.Schedule
import CultureNodes.Library.Fallible
import CultureNodes.Library.Transition
import Mathlib.Tactic.Ring

/-!
The cadence of a schedule over every interleaving of its calls. The occurrences are the first fire and
the multiples of the interval after it; the row's lock makes its `next_fire_at` a cursor over them.
-/

namespace CultureNodes.Scheduler

open Duration

variable {sc row : Schedule} {input : FireScheduleInput} {now : Int}

theorem Interval.nanos_pos (interval : Interval) : 0 < interval.nanos := by
  have positive := interval.positive
  unfold Interval.nanos second
  omega

theorem Interval.nanos_lt (interval : Interval) : interval.nanos < limit := by
  have fits := interval.fits
  unfold Interval.nanos second limit
  omega

namespace Schedule

/-- The step from the due occurrence to the first one after the clock reading is a duration. -/
def StepFits (sc : Schedule) (now : Int) : Prop :=
  ((now - sc.nextFireAt) / sc.interval.nanos + 1) * sc.interval.nanos < limit

instance (sc : Schedule) (now : Int) : Decidable (sc.StepFits now) :=
  inferInstanceAs (Decidable (_ < _))

/-- The first multiple of the interval beyond a time is beyond it by at most the interval. -/
theorem step_bounds {elapsed : Int} (interval : Interval) (nonneg : 0 ≤ elapsed) :
    0 ≤ elapsed / interval.nanos ∧ elapsed < (elapsed / interval.nanos + 1) * interval.nanos ∧
      (elapsed / interval.nanos + 1) * interval.nanos ≤ elapsed + interval.nanos := by
  have positive := interval.nanos_pos
  have whole := Int.mul_ediv_add_emod elapsed interval.nanos
  have remainder := Int.emod_nonneg elapsed positive.ne'
  have smaller := Int.emod_lt_of_pos elapsed positive
  refine ⟨Int.ediv_nonneg nonneg positive.le, ?_, ?_⟩
  · rw [add_mul, one_mul, mul_comm]
    omega
  · rw [add_mul, one_mul, mul_comm]
    omega

theorem next_of_fits (isDue : sc.nextFireAt ≤ now) (fits : sc.StepFits now) :
    sc.next now = sc.nextFireAt + ((now - sc.nextFireAt) / sc.interval.nanos + 1) * sc.interval.nanos := by
  have positive := sc.interval.nanos_pos
  obtain ⟨quotient, beyond, _⟩ := step_bounds sc.interval (Int.sub_nonneg.mpr isDue)
  unfold StepFits at fits
  have elapsed : between now sc.nextFireAt = now - sc.nextFireAt :=
    between_of_fits isDue (beyond.trans fits)
  have steps : (now - sc.nextFireAt) / sc.interval.nanos + 1 ≤
      ((now - sc.nextFireAt) / sc.interval.nanos + 1) * sc.interval.nanos :=
    le_mul_of_one_le_right (by omega) positive
  have nonneg : -limit ≤ 0 := by decide
  unfold next advanceCadence
  rw [if_neg positive.not_ge, elapsed, Int.tdiv_eq_ediv_of_nonneg (Int.sub_nonneg.mpr isDue)]
  dsimp only
  rw [wrap_of_fits (by omega) (steps.trans_lt fits), wrap_of_fits (by omega) fits]

/-- Where the step is no duration it wraps, and the cadence goes back. -/
theorem next_lt_of_not_fits (isDue : sc.nextFireAt ≤ now) (overflows : ¬ sc.StepFits now) :
    sc.next now < sc.nextFireAt := by
  have positive := sc.interval.nanos_pos
  have small := sc.interval.nanos_lt
  have nonneg : 0 ≤ between now sc.nextFireAt := by
    unfold between limit
    omega
  have below : between now sc.nextFireAt < limit := by
    unfold between limit
    omega
  obtain ⟨quotient, beyond, within⟩ := step_bounds sc.interval nonneg
  have reaches : limit ≤ (between now sc.nextFireAt / sc.interval.nanos + 1) * sc.interval.nanos := by
    by_cases held : now - sc.nextFireAt < limit
    · rw [between_of_fits isDue held]
      exact not_lt.mp overflows
    · have top : between now sc.nextFireAt = limit - 1 := by
        unfold between
        unfold limit at held ⊢
        omega
      rw [top] at beyond ⊢
      omega
  have steps : between now sc.nextFireAt / sc.interval.nanos ≤ between now sc.nextFireAt :=
    Int.ediv_le_self _ nonneg
  have quotientFits : between now sc.nextFireAt / sc.interval.nanos + 1 < limit := by
    have seconds : 1 < sc.interval.nanos := by
      have positive := sc.interval.positive
      unfold Interval.nanos second
      omega
    by_contra large
    have doubled : limit * 2 ≤
        (between now sc.nextFireAt / sc.interval.nanos + 1) * sc.interval.nanos :=
      mul_le_mul (not_lt.mp large) seconds (by decide) (by omega)
    omega
  have wrapped : wrap ((between now sc.nextFireAt / sc.interval.nanos + 1) * sc.interval.nanos) < 0 := by
    unfold wrap
    unfold limit at reaches below small
    rw [Int.bmod_def]
    split <;> omega
  unfold next advanceCadence
  rw [if_neg positive.not_ge, Int.tdiv_eq_ediv_of_nonneg nonneg]
  dsimp only
  rw [wrap_of_fits (by unfold limit; omega) quotientFits]
  omega

theorem assess_nextFireAt (runs : List ScheduledRun) (tasks : List FailingTask) (alertAfter : Int)
    (taskID : Nat) : (sc.assess runs tasks alertAfter taskID).1.nextFireAt = sc.nextFireAt ∧
      (sc.assess runs tasks alertAfter taskID).1.interval = sc.interval := by
  unfold assess
  split
  · exact ⟨rfl, rfl⟩
  · have folded : ∀ run, (sc.fold run).nextFireAt = sc.nextFireAt ∧
        (sc.fold run).interval = sc.interval := by
      intro run
      unfold fold
      dsimp only
      split
      · exact ⟨rfl, rfl⟩
      · split <;> exact ⟨rfl, rfl⟩
    dsimp only
    split <;> exact folded _

theorem spend_nextFireAt (event : Nat) :
    (sc.spend input event).nextFireAt = stored (sc.next input.now) ∧
      (sc.spend input event).interval = sc.interval := by
  unfold spend
  dsimp only
  split <;> exact ⟨rfl, rfl⟩

end Schedule

/-- A call that spends its occurrence makes a step that is a duration. -/
def stepFits (world : ScheduleWorld) (action : ScheduleAction) : Prop :=
  ∀ scheduler minted, action = .finish scheduler minted → ∀ holder call,
    world.call = some (holder, call) → call.row.StepFits call.input.now

/-- A step keeps the cadence: `next_fire_at` moves only when the due occurrence is spent, and then on
to the first occurrence after the clock reading. -/
def KeepsCadence (first : Int) (interval : Interval) (world next : ScheduleWorld) : Prop :=
  (next.spent = world.spent ∧ ∀ after, next.db.schedule = some after →
    ∃ before, world.db.schedule = some before ∧ after.nextFireAt = before.nextFireAt) ∨
  ∃ before after now, world.db.schedule = some before ∧ next.db.schedule = some after ∧
    next.spent = world.spent ++ [⟨before.nextFireAt, now⟩] ∧
    before.nextFireAt < after.nextFireAt ∧
    IsLeast {t | now < t ∧ ∃ count : Nat, t = first + count * interval.nanos} after.nextFireAt

namespace ScheduleWorld

variable {world next : ScheduleWorld} {scheduler minted : Nat}

theorem act_lockRow (acted : world.act (.lockRow scheduler input) = some next) :
    ∃ row, world.call = none ∧ world.db.schedule = some row ∧ row.enabled = true ∧
      row.nextFireAt ≤ input.now ∧
      next = { world with call := some (scheduler, ⟨input, row, world.db.runs, none⟩) } := by
  simp only [act] at acted
  split at acted
  · rename_i row free found
    split at acted
    · contradiction
    · rename_i due
      rw [not_or, Bool.not_eq_true, Bool.not_eq_false', not_lt] at due
      exact ⟨row, free, found, due.1, due.2, (Option.some.inj acted).symm⟩
  · contradiction

theorem act_assess (acted : world.act (.assess scheduler) = some next) :
    ∃ input row began assessed, world.call = some (scheduler, ⟨input, row, began, none⟩) ∧
      assessed = row.assess world.db.runs world.db.tasks input.alertAfter world.db.nextID ∧
      next = { world with
        db := { world.db with nextID := world.db.nextID + 1 }
        call := some (scheduler, ⟨input, row, began, some (assessed.1, assessed.2, world.db.runs)⟩) } := by
  simp only [act] at acted
  split at acted
  · rename_i holder input row began held
    split at acted
    · contradiction
    · rename_i same
      rw [not_not] at same
      subst same
      exact ⟨input, row, began, _, held, rfl, (Option.some.inj acted).symm⟩
  · contradiction

theorem act_finish (acted : world.act (.finish scheduler minted) = some next) :
    ∃ input row began sc task read,
      world.call = some (scheduler, ⟨input, row, began, some (sc, task, read)⟩) ∧
      next = ⟨world.db.spend input sc task minted, none,
        world.spent ++ [⟨row.nextFireAt, input.now⟩]⟩ := by
  simp only [act] at acted
  split at acted
  · rename_i holder input row began sc task read held
    split at acted
    · contradiction
    · rename_i same
      rw [not_not] at same
      subst same
      exact ⟨input, row, began, sc, task, read, held, (Option.some.inj acted).symm⟩
  · contradiction

theorem act_abandon (acted : world.act (.abandon scheduler) = some next) :
    next = { world with call := none } := by
  simp only [act] at acted
  split at acted
  · split at acted
    · contradiction
    · exact (Option.some.inj acted).symm
  · contradiction

theorem act_setEnabled {enabled : Bool} (acted : world.act (.setEnabled enabled) = some next) :
    ∃ row, world.call = none ∧ world.db.schedule = some row ∧ next =
      { world with db := { world.db with schedule := some { row with enabled := enabled } } } := by
  simp only [act] at acted
  split at acted
  · rename_i row free found
    exact ⟨row, free, found, (Option.some.inj acted).symm⟩
  · contradiction

theorem act_delete (acted : world.act .delete = some next) :
    world.call = none ∧ next = { world with db := { world.db with schedule := none } } := by
  simp only [act] at acted
  split at acted
  · rename_i free
    exact ⟨free, (Option.some.inj acted).symm⟩
  · contradiction

end ScheduleWorld

theorem ScheduleDb.spend_schedule (db : ScheduleDb) (task : Option FailingTask) (minted : Nat) :
    (db.spend input sc task minted).schedule = some (sc.spend input db.nextID) := by
  unfold ScheduleDb.spend
  dsimp only
  split <;> rfl

/-- What holds between the steps: the lock keeps the row that a call read, and the occurrences that
were spent lie before the one that is due. -/
structure OnCadence (first : Int) (interval : Interval) (world : ScheduleWorld) : Prop where
  row : ∀ row, world.db.schedule = some row → row.interval = interval ∧ 1000 ∣ row.nextFireAt ∧
    (∃ count : Nat, row.nextFireAt = first + count * interval.nanos) ∧
    ∀ spent ∈ world.spent, spent.due < row.nextFireAt
  call : ∀ holder call, world.call = some (holder, call) → world.db.schedule = some call.row ∧
    call.row.nextFireAt ≤ call.input.now ∧ ∀ sc rest, call.assessed = some (sc, rest) →
      sc.nextFireAt = call.row.nextFireAt ∧ sc.interval = call.row.interval
  increasing : world.spent.Pairwise fun one other => one.due < other.due
  occurrences : ∀ spent ∈ world.spent, ∃ count : Nat, spent.due = first + count * interval.nanos

namespace OnCadence

variable {first : Int} {interval : Interval} {world next : ScheduleWorld} {scheduler minted : Nat}
  {action : ScheduleAction}

theorem sameRows (cadence : OnCadence first interval world)
    (spent : next.spent = world.spent)
    (row : ∀ after, next.db.schedule = some after → ∃ before, world.db.schedule = some before ∧
      after.nextFireAt = before.nextFireAt ∧ after.interval = before.interval)
    (call : ∀ holder call, next.call = some (holder, call) → next.db.schedule = some call.row ∧
      call.row.nextFireAt ≤ call.input.now ∧ ∀ sc rest, call.assessed = some (sc, rest) →
        sc.nextFireAt = call.row.nextFireAt ∧ sc.interval = call.row.interval) :
    OnCadence first interval next ∧ KeepsCadence first interval world next := by
  refine ⟨⟨fun after found => ?_, call, spent ▸ cadence.increasing, spent ▸ cadence.occurrences⟩,
    Or.inl ⟨spent, fun after found => ?_⟩⟩
  · obtain ⟨before, isRow, due, sameInterval⟩ := row after found
    rw [due, sameInterval, spent]
    exact cadence.row before isRow
  · obtain ⟨before, isRow, due, _⟩ := row after found
    exact ⟨before, isRow, due⟩

/-- The row's lock is still held, so the row that is written over is the one the call read. -/
theorem finish (cadence : OnCadence first interval world)
    (fits : stepFits world (.finish scheduler minted))
    (acted : world.act (.finish scheduler minted) = some next) :
    OnCadence first interval next ∧ KeepsCadence first interval world next := by
  obtain ⟨input, row, began, sc, task, read, held, rfl⟩ := ScheduleWorld.act_finish acted
  obtain ⟨found, due, assessed⟩ := cadence.call _ _ held
  have isDue : row.nextFireAt ≤ input.now := due
  obtain ⟨sameDue, sameInterval⟩ := assessed sc (task, read) rfl
  obtain ⟨isInterval, whole, ⟨count, onPhase⟩, before⟩ := cadence.row row found
  have stepIsDuration : sc.StepFits input.now := by
    have rowFits := fits scheduler minted rfl _ _ held
    unfold Schedule.StepFits at rowFits ⊢
    rw [sameDue, sameInterval]
    exact rowFits
  have advanced := Schedule.next_of_fits (sameDue ▸ isDue : sc.nextFireAt ≤ input.now) stepIsDuration
  rw [sameDue, sameInterval, isInterval] at advanced
  have least := isLeast_period interval.nanos_pos isDue
  rw [← advanced] at least
  have steps : 0 ≤ (input.now - row.nextFireAt) / interval.nanos :=
    Int.ediv_nonneg (Int.sub_nonneg.mpr isDue) interval.nanos_pos.le
  have wholeNext : 1000 ∣ sc.next input.now := by
    have wholeInterval : (1000 : Int) ∣ interval.nanos :=
      Dvd.dvd.mul_left (by decide) _
    rw [advanced]
    exact Int.dvd_add whole (Dvd.dvd.mul_left wholeInterval _)
  have isNext : (world.db.spend input sc task minted).schedule =
      some (sc.spend input world.db.nextID) := ScheduleDb.spend_schedule ..
  have moved : (sc.spend input world.db.nextID).nextFireAt = sc.next input.now := by
    rw [(Schedule.spend_nextFireAt _).1, stored_of_dvd wholeNext]
  have later : row.nextFireAt < sc.next input.now := isDue.trans_lt least.1.1
  have onNext : ∃ count : Nat, sc.next input.now = first + count * interval.nanos := by
    obtain ⟨_, more, isMore⟩ := least.1
    exact ⟨count + more, by rw [isMore, onPhase]; push_cast; ring⟩
  refine ⟨⟨fun after isAfter => ?_, fun _ _ held => (Option.some_ne_none _ held.symm).elim, ?_, ?_⟩,
    Or.inr ⟨row, _, input.now, found, isNext, rfl, moved ▸ later, moved.symm ▸ ⟨⟨least.1.1, onNext⟩, ?_⟩⟩⟩
  · rw [← Option.some.inj (isNext.symm.trans isAfter), moved]
    refine ⟨(Schedule.spend_nextFireAt _).2.trans (sameInterval.trans isInterval), wholeNext, onNext, ?_⟩
    intro spent member
    rcases List.mem_append.mp member with old | new
    · exact (before spent old).trans later
    · rw [List.mem_singleton.mp new]
      exact later
  · rw [List.pairwise_append]
    refine ⟨cadence.increasing, List.pairwise_singleton _ _, fun spent member other isNew => ?_⟩
    rw [List.mem_singleton.mp isNew]
    exact before spent member
  · intro spent member
    rcases List.mem_append.mp member with old | new
    · exact cadence.occurrences spent old
    · rw [List.mem_singleton.mp new]
      exact ⟨count, onPhase⟩
  · rintro t ⟨after, other, rfl⟩
    -- The occurrences after the clock reading lie after the due one, so they are counted from it.
    have scaled : (count : Int) * interval.nanos < other * interval.nanos :=
      (add_lt_add_iff_left first).mp ((onPhase ▸ isDue).trans_lt after)
    have order : count < other := Int.ofNat_lt.mp (lt_of_mul_lt_mul_right scaled interval.nanos_pos.le)
    refine least.2 ⟨after, other - count, ?_⟩
    rw [onPhase, Int.ofNat_sub order.le]
    ring

theorem act (cadence : OnCadence first interval world) (fits : stepFits world action)
    (acted : world.act action = some next) :
    OnCadence first interval next ∧ KeepsCadence first interval world next := by
  have same : ∀ after, world.db.schedule = some after → ∃ before, world.db.schedule = some before ∧
      after.nextFireAt = before.nextFireAt ∧ after.interval = before.interval :=
    fun after found => ⟨after, found, rfl, rfl⟩
  cases action with
  | lockRow scheduler input =>
      obtain ⟨row, _, found, _, isDue, rfl⟩ := ScheduleWorld.act_lockRow acted
      refine cadence.sameRows rfl same fun holder call held => ?_
      obtain ⟨rfl, rfl⟩ := Prod.mk.inj (Option.some.inj held)
      exact ⟨found, isDue, fun _ _ assessed => (Option.some_ne_none _ assessed.symm).elim⟩
  | assess scheduler =>
      obtain ⟨input, row, began, assessed, held, isAssessed, rfl⟩ := ScheduleWorld.act_assess acted
      refine cadence.sameRows rfl same fun holder call isHeld => ?_
      obtain ⟨rfl, rfl⟩ := Prod.mk.inj (Option.some.inj isHeld)
      obtain ⟨found, isDue, _⟩ := cadence.call _ _ held
      refine ⟨found, isDue, fun sc rest isPair => ?_⟩
      rw [← (Prod.mk.inj (Option.some.inj isPair)).1, isAssessed]
      exact Schedule.assess_nextFireAt ..
  | finish scheduler minted => exact cadence.finish fits acted
  | abandon scheduler =>
      rw [ScheduleWorld.act_abandon acted]
      exact cadence.sameRows rfl same fun _ _ held => (Option.some_ne_none _ held.symm).elim
  | setEnabled enabled =>
      obtain ⟨row, free, found, rfl⟩ := ScheduleWorld.act_setEnabled acted
      refine cadence.sameRows rfl (fun after isAfter => ⟨row, found, ?_⟩) fun holder call held => ?_
      · rw [← Option.some.inj isAfter]
        exact ⟨rfl, rfl⟩
      · exact (Option.some_ne_none _ (held.symm.trans free)).elim
  | delete =>
      obtain ⟨free, rfl⟩ := ScheduleWorld.act_delete acted
      refine cadence.sameRows rfl (fun after isAfter => (Option.some_ne_none _ isAfter.symm).elim)
        fun holder call held => (Option.some_ne_none _ (held.symm.trans free)).elim
  | terminate run status at_ errorDetail attemptStatus =>
      simp only [ScheduleWorld.act] at acted
      split at acted
      · rw [← Option.some.inj acted]
        exact cadence.sameRows rfl same cadence.call
      · contradiction
  | decideTask task =>
      rw [← Option.some.inj acted]
      exact cadence.sameRows rfl same cadence.call

/-- A call whose step is no duration sets the next fire to a time before the occurrence it spent. -/
theorem fits_of_keeps (cadence : OnCadence first interval world)
    (acted : world.act action = some next) (keeps : KeepsCadence first interval world next) :
    stepFits world action := by
  rintro scheduler minted rfl holder call held
  obtain ⟨input, row, began, sc, task, read, isHeld, rfl⟩ := ScheduleWorld.act_finish acted
  obtain ⟨rfl, rfl⟩ := Prod.mk.inj (Option.some.inj (held.symm.trans isHeld))
  obtain ⟨found, due, assessed⟩ := cadence.call _ _ held
  obtain ⟨sameDue, sameInterval⟩ := assessed sc (task, read) rfl
  by_contra overflows
  have wraps : ¬ sc.StepFits input.now := by
    unfold Schedule.StepFits at overflows ⊢
    rw [sameDue, sameInterval]
    exact overflows
  have back : (sc.spend input world.db.nextID).nextFireAt < row.nextFireAt := by
    rw [(Schedule.spend_nextFireAt _).1, ← sameDue]
    exact (stored_le _).trans_lt (Schedule.next_lt_of_not_fits (sameDue ▸ due) wraps)
  have isNext : (world.db.spend input sc task minted).schedule =
      some (sc.spend input world.db.nextID) := ScheduleDb.spend_schedule ..
  rcases keeps with ⟨unspent, _⟩ | ⟨before, after, now, isBefore, isAfter, _, increases, _⟩
  · have longer := congrArg List.length unspent
    simp at longer
  · rw [Option.some.inj (isBefore.symm.trans found),
      ← Option.some.inj (isNext.symm.trans isAfter)] at increases
    exact absurd increases back.not_gt

end OnCadence

theorem createSchedule_whole {declaration : CreateScheduleInput}
    (created : createSchedule declaration now = .ok row) : 1000 ∣ row.nextFireAt := by
  unfold createSchedule at created
  split at created
  · contradiction
  · split at created
    · contradiction
    · split at created
      · contradiction
      · split at created
        · contradiction
        · split at created
          · contradiction
          · rw [← Except.ok.inj created]
            exact dvd_stored _

theorem OnCadence.declared (whole : 1000 ∣ row.nextFireAt) :
    OnCadence row.nextFireAt row.interval (.declared row) where
  row := by
    intro other found
    rw [← Option.some.inj found]
    exact ⟨rfl, whole, ⟨0, by simp⟩, fun _ member => absurd member List.not_mem_nil⟩
  call _ _ held := (Option.some_ne_none _ held.symm).elim
  increasing := List.Pairwise.nil
  occurrences _ member := absurd member List.not_mem_nil

/-- The cadence of a schedule over every run of concurrent calls whose steps are durations: no
occurrence is spent twice, and a further step keeps the cadence exactly where it is such a call or
none. -/
theorem cadence_kept {declaration : CreateScheduleInput} {world : ScheduleWorld}
    (created : createSchedule declaration now = .ok row)
    (run : Steps ScheduleWorld.step stepFits (.declared row) world) :
    (world.spent.map Spent.due).Nodup ∧
    (∀ spent ∈ world.spent,
      ∃ count : Nat, spent.due = row.nextFireAt + count * row.interval.nanos) ∧
    ∀ action next, world.act action = some next →
      (KeepsCadence row.nextFireAt row.interval world next ↔ stepFits world action) := by
  have cadence : OnCadence row.nextFireAt row.interval world :=
    run.invariant _ (OnCadence.declared (createSchedule_whole created))
      fun _ _ _ kept fits acted => (kept.act fits acted).1
  refine ⟨?_, cadence.occurrences, fun action next acted =>
    ⟨cadence.fits_of_keeps acted, fun fits => (cadence.act fits acted).2⟩⟩
  rw [List.Nodup, List.pairwise_map]
  exact cadence.increasing.imp ne_of_lt

/-- An hourly schedule that first fires at the given second. -/
def hourly (firstFireAt : Int) : CreateScheduleInput where
  name := "sweep"
  eventName := "sweep.due"
  interval := 3600 * second
  isDuration := by decide
  firstFireAt := some (firstFireAt * second)

/-- `stepFits` as a check on the world and the action. -/
def stepFitsCheck (world : ScheduleWorld) : ScheduleAction → Bool
  | .finish _ _ => world.call.all fun held => decide (held.2.row.StepFits held.2.input.now)
  | _ => true

theorem stepFitsCheck_sound (world : ScheduleWorld) (action : ScheduleAction)
    (passes : stepFitsCheck world action = true) : stepFits world action := by
  intro scheduler minted isFinish holder call held
  subst isFinish
  simpa [stepFitsCheck, held] using passes

/-- A call from its lock to its commit without a pause. -/
def fire (scheduler : Nat) (now : Int) (minted : Nat) : List ScheduleAction :=
  [.lockRow scheduler { now := now }, .assess scheduler, .finish scheduler minted]

/-- After an outage of two and a half hours the third occurrence is next. -/
theorem cadence_kept_after_outage :
    ∃ world : ScheduleWorld, world.spent = [⟨0, 9000 * second⟩] ∧
      (world.spent.map Spent.due).Nodup ∧
      world.db.schedule.map Schedule.nextFireAt = some (10800 * second) := by
  have made : (createSchedule (hourly 0) 0).toOption.isSome = true := by decide
  obtain ⟨row, found⟩ := Option.isSome_iff_exists.mp made
  have created := toOption_some found
  have ran : ((createSchedule (hourly 0) 0).toOption.bind fun row =>
      (Steps.ofList ScheduleWorld.act stepFitsCheck (.declared row) (fire 0 (9000 * second) 1)).map
        fun world => (world.spent, world.db.schedule.map Schedule.nextFireAt)) =
        some ([⟨0, 9000 * second⟩], some (10800 * second)) := by decide +kernel
  rw [found, Option.bind_some] at ran
  obtain ⟨world, reached, result⟩ := Option.map_eq_some_iff.mp ran
  have run : Steps ScheduleWorld.step stepFits (.declared row) world :=
    Steps.of_ofList stepFitsCheck_sound reached
  obtain ⟨spent, next⟩ := Prod.mk.inj result
  exact ⟨world, spent, (cadence_kept created run).1, next⟩

/-- A schedule first due in the year 1700, fired in the year 2026: the distance is no duration, and
the next fire is set to a time before the one that was due. -/
theorem cadence_goes_back :
    ¬ ∀ (declaration : CreateScheduleInput) (now : Int) (row : Schedule) (world : ScheduleWorld),
      createSchedule declaration now = .ok row →
      Steps ScheduleWorld.step anyAction (.declared row) world →
      (world.spent.map Spent.due).Nodup ∧
      (∀ spent ∈ world.spent,
        ∃ count : Nat, spent.due = row.nextFireAt + count * row.interval.nanos) ∧
      ∀ action next, world.act action = some next →
        KeepsCadence row.nextFireAt row.interval world next := by
  intro always
  have made : (createSchedule (hourly (-8520336000)) 0).toOption.isSome = true := by decide
  obtain ⟨row, found⟩ := Option.isSome_iff_exists.mp made
  have ran : ((createSchedule (hourly (-8520336000)) 0).toOption.bind fun row =>
      (Steps.ofList ScheduleWorld.act (fun _ _ => true) (.declared row)
        ((fire 0 (1767225600 * second) 1).take 2)).bind fun world =>
          (world.act (.finish 0 1)).map fun next => (world.spent,
            world.db.schedule.map Schedule.nextFireAt, next.spent.length,
            next.db.schedule.map Schedule.nextFireAt)) =
        some ([], some (-8520336000 * second), 1, some (-17743707273709552000)) := by
    decide +kernel
  rw [found, Option.bind_some] at ran
  obtain ⟨world, reached, ran⟩ := Option.bind_eq_some_iff.mp ran
  obtain ⟨next, acted, result⟩ := Option.map_eq_some_iff.mp ran
  have run : Steps ScheduleWorld.step anyAction (.declared row) world :=
    Steps.of_ofList (fun _ _ _ => trivial) reached
  simp only [Prod.mk.injEq] at result
  obtain ⟨unspent, due, spent, after⟩ := result
  rcases (always _ _ row world (toOption_some found) run).2.2 _ next acted with kept | moved
  · rw [kept.1, unspent] at spent
    contradiction
  · obtain ⟨before, later, now, isBefore, isAfter, _, increases, _⟩ := moved
    rw [isBefore, Option.map_some, Option.some.injEq] at due
    rw [isAfter, Option.map_some, Option.some.injEq] at after
    rw [due, after] at increases
    exact absurd increases (by decide)

end CultureNodes.Scheduler
