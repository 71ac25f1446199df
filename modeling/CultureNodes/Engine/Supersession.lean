import CultureNodes.Engine.Retry

/-!
The attempts table under completions and late reports that run side by side. A call that records a late
report looks up the attempt it corrects in one statement and inserts its row in another; between the two
any other call may insert. The table keeps a primary key, one number for each attempt of a node run, one
row for each delivery and one correction for each row.
-/

namespace CultureNodes.Supersession

open Engine

/-- One claim of a node run's work. -/
structure Claimed where
  nodeRun : Nat
  fencingToken : Nat
deriving DecidableEq, Repr

/-- The row is recorded under the claim. -/
def under (claimed : Claimed) (row : AttemptRow) : Bool :=
  row.nodeRun = claimed.nodeRun && row.fencingToken = claimed.fencingToken

def current (rows : List AttemptRow) (row : AttemptRow) : Bool :=
  row.id ∉ rows.filterMap AttemptRow.supersedes

def unrecorded (claimed : Claimed) (rows : List AttemptRow) : Bool := rows.all fun row => !under claimed row

/-- A call of `RecordSupersedingAttempt` that has made its look-up, and the table it saw. -/
structure Reading where
  report : LateReport
  seen : List AttemptRow
deriving DecidableEq, Repr

namespace Reading

variable (reading : Reading)

def claimed : Claimed := ⟨reading.report.invocation.nodeRun, reading.report.invocation.fencingToken⟩

def superseded : Option AttemptRow := reading.report.supersededCandidate reading.seen

end Reading

structure Attempts where
  rows : List AttemptRow := []
  calls : Nat → Option Reading := fun _ => none

/-- A completion commits, a late report looks up what it corrects, or it inserts its row, after `raced`
statements that have lost their number. -/
inductive Action where
  | complete (req : CompletionRequest) (nodeRun : Nat) (status : TechStatus) (id : Nat)
      (startedAt : Option Nat) (now : Nat)
  | read (call : Nat) (report : LateReport)
  | record (call id now raced : Nat)
deriving DecidableEq, Repr

namespace Attempts

variable (s : Attempts)

/-- The row a completion records, under the number that is next when it commits. -/
def completed (req : CompletionRequest) (nodeRun : Nat) (status : TechStatus) (id : Nat)
    (startedAt : Option Nat) (now : Nat) : AttemptRow :=
  req.attemptRow id startedAt now ⟨nodeRun, nextNumber s.rows nodeRun, status⟩

/-- A claim is released with the completion it allows, so it is completed once. -/
def act : Action → Option Attempts
  | .complete req nodeRun status id startedAt now =>
      if s.rows.any (·.id = id) then none
      else if s.rows.any (fun row => under ⟨nodeRun, req.claim.fencingToken⟩ row && row.delivery.isNone) then none
      else some { s with rows := s.rows ++ [s.completed req nodeRun status id startedAt now] }
  | .read call report =>
      if report.eventID = "" then none
      else if (s.calls call).isSome then none
      else some { s with calls := Function.update s.calls call (some ⟨report, s.rows⟩) }
  | .record call id now raced =>
      (s.calls call).map fun reading =>
        let calls := Function.update s.calls call none
        match reading.report.recordSupersedingAttempt reading.seen s.rows id now raced with
        | .ok (_, rows) => ⟨rows, calls⟩
        | .error _ => ⟨s.rows, calls⟩

def step (action : Action) (next : Attempts) : Prop := s.act action = some next

/-- No attempt that corrects nothing is recorded beside a row of its claim. -/
def timely (claimed : Claimed) (s : Attempts) : Action → Bool
  | .complete req nodeRun _ _ _ _ =>
      claimed ≠ ⟨nodeRun, req.claim.fencingToken⟩ || unrecorded claimed s.rows
  | .read _ _ => true
  | .record call _ _ _ =>
      (s.calls call).all fun reading =>
        claimed ≠ reading.claimed || reading.superseded.isSome ||
          (reading.report.delivered s.rows).isSome || unrecorded claimed s.rows

def Timely (claimed : Claimed) (s : Attempts) (action : Action) : Prop := timely claimed s action = true

end Attempts

/-- What a table of attempts should look like: a delivery has one row, a row has one correction, and of the
rows of a claim one counts. -/
structure Settled (claimed : Claimed) (rows : List AttemptRow) : Prop where
  deliveredOnce : (rows.filterMap AttemptRow.delivery).Nodup
  supersededOnce : (rows.filterMap AttemptRow.supersedes).Nodup
  oneCurrent : (rows.filter fun row => under claimed row && current rows row).length ≤ 1

section Rows

variable {claimed : Claimed} {rows : List AttemptRow} {row : AttemptRow}

theorem number_lt_nextNumber {nodeRun : Nat} (member : row ∈ rows) (same : row.nodeRun = nodeRun) :
    row.number < nextNumber rows nodeRun := by
  have among : row.number ∈ (rows.filter (·.nodeRun = nodeRun)).map AttemptRow.number :=
    List.mem_map.mpr ⟨row, List.mem_filter.mpr ⟨member, by simpa using same⟩, rfl⟩
  unfold nextNumber
  rw [List.foldl_max_eq_max (List.ne_nil_of_mem among)]
  have above := List.le_max_of_mem among
  omega

/-- The unique indexes of the table. -/
structure Indexed (rows : List AttemptRow) : Prop where
  deliveredOnce : (rows.filterMap AttemptRow.delivery).Nodup
  supersededOnce : (rows.filterMap AttemptRow.supersedes).Nodup
  numbered : rows.Pairwise fun old new => old.nodeRun = new.nodeRun → old.number < new.number

/-- The row is the newest of its node run and no index refuses it. -/
structure Fits (rows : List AttemptRow) (row : AttemptRow) : Prop where
  newest : ∀ old ∈ rows, old.nodeRun = row.nodeRun → old.number < row.number
  undelivered : ∀ delivery, row.delivery = some delivery → delivery ∉ rows.filterMap AttemptRow.delivery
  uncorrected : ∀ id, row.supersedes = some id → id ∉ rows.filterMap AttemptRow.supersedes

/-- What keeps a single row of a claim current: whatever another row of the claim came after is
superseded. -/
structure Inv (claimed : Claimed) (rows : List AttemptRow) : Prop extends Indexed rows where
  replaced : ∀ old ∈ rows, ∀ new ∈ rows, under claimed old = true → under claimed new = true →
    old.number < new.number → old.id ∈ rows.filterMap AttemptRow.supersedes

theorem nodup_filterMap_concat {κ : Type} {column : AttemptRow → Option κ}
    (unique : (rows.filterMap column).Nodup)
    (fresh : ∀ value, column row = some value → value ∉ rows.filterMap column) :
    ((rows ++ [row]).filterMap column).Nodup := by
  rw [List.filterMap_append]
  cases filled : column row with
  | none => simpa [filled] using unique
  | some value =>
      simp only [List.filterMap_cons, filled, List.filterMap_nil]
      refine List.nodup_append.mpr ⟨unique, List.nodup_singleton value, ?_⟩
      intro old isOld new isNew same
      rw [List.mem_singleton.mp isNew] at same
      exact fresh value filled (same ▸ isOld)

theorem mem_supersedes_concat {id : Nat} (superseded : id ∈ rows.filterMap AttemptRow.supersedes) :
    id ∈ (rows ++ [row]).filterMap AttemptRow.supersedes := by
  rw [List.filterMap_append]
  exact List.mem_append_left _ superseded

theorem sameNodeRun {other : AttemptRow} (isUnder : under claimed row = true)
    (isUnderToo : under claimed other = true) : row.nodeRun = other.nodeRun := by
  simp only [under, Bool.and_eq_true, decide_eq_true_eq] at isUnder isUnderToo
  exact isUnder.1.trans isUnderToo.1.symm

theorem Indexed.concat (indexed : Indexed rows) (fits : Fits rows row) : Indexed (rows ++ [row]) where
  deliveredOnce := nodup_filterMap_concat indexed.deliveredOnce fits.undelivered
  supersededOnce := nodup_filterMap_concat indexed.supersededOnce fits.uncorrected
  numbered := by
    refine List.pairwise_append.mpr ⟨indexed.numbered, List.pairwise_singleton _ _, ?_⟩
    intro old isOld new isNew same
    rw [List.mem_singleton] at isNew
    subst isNew
    exact fits.newest old isOld same

theorem Inv.concat (inv : Inv claimed rows) (fits : Fits rows row)
    (replaces : under claimed row = true → ∀ old ∈ rows, under claimed old = true →
      old.id ∈ (rows ++ [row]).filterMap AttemptRow.supersedes) : Inv claimed (rows ++ [row]) where
  toIndexed := inv.toIndexed.concat fits
  replaced := by
    intro old isOld new isNew oldUnder newUnder less
    rcases List.mem_append.mp isOld with before | isRow
    · rcases List.mem_append.mp isNew with beforeToo | isRow
      · exact mem_supersedes_concat (inv.replaced old before new beforeToo oldUnder newUnder less)
      · rw [List.mem_singleton.mp isRow] at newUnder
        exact replaces newUnder old before oldUnder
    · -- The row itself is the last of its node run.
      rw [List.mem_singleton] at isRow
      subst isRow
      rcases List.mem_append.mp isNew with before | isRow
      · have above := fits.newest new before (sameNodeRun newUnder oldUnder)
        omega
      · rw [List.mem_singleton.mp isRow] at less
        omega

theorem Inv.settled (inv : Inv claimed rows) : Settled claimed rows where
  deliveredOnce := inv.deliveredOnce
  supersededOnce := inv.supersededOnce
  oneCurrent := by
    have apart : (rows.filter fun row => under claimed row && current rows row).Pairwise fun _ _ => False := by
      rw [List.pairwise_filter]
      refine inv.numbered.imp_of_mem fun {old new} isOld isNew order oldCurrent newCurrent => ?_
      simp only [Bool.and_eq_true] at oldCurrent newCurrent
      have less := order (sameNodeRun oldCurrent.1 newCurrent.1)
      have superseded := inv.replaced old isOld new isNew oldCurrent.1 newCurrent.1 less
      simp [current, superseded] at oldCurrent
    generalize (rows.filter fun row => under claimed row && current rows row) = kept at apart
    rcases kept with _ | ⟨first, _ | ⟨second, rest⟩⟩
    · simp
    · simp
    · exact ((List.pairwise_cons.mp apart).1 second List.mem_cons_self).elim

end Rows

section Step

variable {claimed : Claimed} {s next : Attempts}

def SawRows (s : Attempts) : Prop :=
  ∀ call reading, s.calls call = some reading → ∀ row ∈ reading.seen, row ∈ s.rows

theorem not_under_of_unrecorded {rows : List AttemptRow} (none : unrecorded claimed rows = true)
    {row : AttemptRow} (member : row ∈ rows) : under claimed row = false := by
  simpa using List.all_eq_true.mp none row member

theorem fits_completed {req : CompletionRequest} {nodeRun id now : Nat} {status : TechStatus}
    {startedAt : Option Nat} : Fits s.rows (s.completed req nodeRun status id startedAt now) where
  newest := fun _ isOld same => number_lt_nextNumber isOld same
  undelivered := fun _ filled => by cases filled
  uncorrected := fun _ filled => by cases filled

theorem fits_correction {report : LateReport} {seen rows : List AttemptRow} {id now : Nat}
    (undelivered : report.delivered rows = none)
    (uncorrected : existingCorrection (report.supersededCandidate seen) rows = none) :
    Fits rows (report.correction (report.supersededCandidate seen) rows id now) where
  newest := fun _ isOld same => number_lt_nextNumber isOld same
  undelivered := by
    intro delivery filled among
    obtain ⟨other, isOther, sameDelivery⟩ := List.mem_filterMap.mp among
    rw [← Option.some.inj filled] at sameDelivery
    exact absurd sameDelivery (by simpa using List.find?_eq_none.mp undelivered other isOther)
  uncorrected := by
    intro superseded filled among
    obtain ⟨row, found, rfl⟩ := Option.map_eq_some_iff.mp filled
    obtain ⟨other, isOther, points⟩ := List.mem_filterMap.mp among
    rw [found] at uncorrected
    exact absurd points (by simpa using List.find?_eq_none.mp uncorrected other isOther)

theorem act_rows {action : Action} (acted : s.act action = some next) :
    next.rows = s.rows ∨ ∃ row, next.rows = s.rows ++ [row] ∧ Fits s.rows row := by
  cases action with
  | complete req nodeRun status id startedAt now =>
      simp only [Attempts.act, Option.ite_none_left_eq_some, Option.some.injEq] at acted
      obtain ⟨_, _, rfl⟩ := acted
      exact Or.inr ⟨_, rfl, fits_completed⟩
  | read call report =>
      simp only [Attempts.act, Option.ite_none_left_eq_some, Option.some.injEq] at acted
      obtain ⟨_, _, rfl⟩ := acted
      exact Or.inl rfl
  | record call id now raced =>
      obtain ⟨reading, _, rfl⟩ := Option.map_eq_some_iff.mp acted
      dsimp only
      split
      · rename_i answer after recorded
        rcases LateReport.recordSupersedingAttempt_ok recorded with ⟨same, _⟩ | ⟨more, undelivered, uncorrected, _⟩
        · exact Or.inl same
        · exact Or.inr ⟨_, more, fits_correction undelivered uncorrected⟩
      · exact Or.inl rfl

theorem Inv.complete {req : CompletionRequest} {nodeRun id now : Nat} {status : TechStatus}
    {startedAt : Option Nat} (inv : Inv claimed s.rows)
    (timely : s.timely claimed (.complete req nodeRun status id startedAt now) = true) :
    Inv claimed (s.rows ++ [s.completed req nodeRun status id startedAt now]) := by
  refine inv.concat fits_completed fun isUnder old isOld oldUnder => ?_
  have here : claimed = ⟨nodeRun, req.claim.fencingToken⟩ := by
    simp only [under, Bool.and_eq_true, decide_eq_true_eq] at isUnder
    cases claimed
    rw [Claimed.mk.injEq]
    exact ⟨isUnder.1.symm, isUnder.2.symm⟩
  have none : unrecorded claimed s.rows = true := by
    simpa [Attempts.timely, here] using timely
  rw [not_under_of_unrecorded none isOld] at oldUnder
  contradiction

theorem Reading.mem_seen {reading : Reading} {row : AttemptRow} (found : reading.superseded = some row) :
    row ∈ reading.seen ∧ under reading.claimed row = true := by
  obtain ⟨seen, isUnder⟩ := List.mem_filter.mp (List.argmax_mem found)
  exact ⟨seen, isUnder⟩

/-- The attempt that a call corrects is the last of its claim, unless it is corrected by then. -/
theorem Inv.newest {rows : List AttemptRow} (inv : Inv claimed rows) {candidate old : AttemptRow}
    (isCandidate : candidate ∈ rows) (isOld : old ∈ rows) (candidateUnder : under claimed candidate = true)
    (oldUnder : under claimed old = true)
    (uncorrected : candidate.id ∉ rows.filterMap AttemptRow.supersedes) :
    old.id ∈ rows.filterMap AttemptRow.supersedes ∨ old = candidate := by
  rcases Nat.lt_trichotomy old.number candidate.number with less | same | above
  · exact Or.inl (inv.replaced old isOld candidate isCandidate oldUnder candidateUnder less)
  · right
    have distinct : (rows.map fun row => (row.nodeRun, row.number)).Nodup := by
      rw [List.Nodup, List.pairwise_map]
      refine inv.numbered.imp fun order equal => ?_
      rw [Prod.mk.injEq] at equal
      have less := order equal.1
      omega
    exact Table.eq_of_key distinct isOld isCandidate
      (Prod.ext (sameNodeRun oldUnder candidateUnder) same)
  · exact absurd (inv.replaced candidate isCandidate old isOld candidateUnder oldUnder above) uncorrected

theorem Inv.record {reading : Reading} {rows after : List AttemptRow} {id now raced : Nat}
    {answer : SupersedingAttempt} (inv : Inv claimed rows) (saw : ∀ row ∈ reading.seen, row ∈ rows)
    (timely : claimed = reading.claimed → reading.superseded = none →
      (reading.report.delivered rows).isSome = true ∨ unrecorded claimed rows = true)
    (recorded : reading.report.recordSupersedingAttempt reading.seen rows id now raced = .ok (answer, after)) :
    Inv claimed after := by
  rcases LateReport.recordSupersedingAttempt_ok recorded with ⟨rfl, _⟩ | ⟨rfl, undelivered, uncorrected, _⟩
  · exact inv
  have fits : Fits rows (reading.report.correction (reading.report.supersededCandidate reading.seen) rows id now) :=
    fits_correction undelivered uncorrected
  refine inv.concat fits fun isUnder old isOld oldUnder => ?_
  have here : claimed = reading.claimed := by
    simp only [under, Bool.and_eq_true, decide_eq_true_eq] at isUnder
    cases claimed
    rw [Reading.claimed, Claimed.mk.injEq]
    exact ⟨isUnder.1.symm, isUnder.2.symm⟩
  cases found : reading.superseded with
  | none =>
      rcases timely here found with delivered | none
      · rw [undelivered] at delivered
        contradiction
      · rw [not_under_of_unrecorded none isOld] at oldUnder
        contradiction
  | some row =>
      obtain ⟨seen, rowUnder⟩ := Reading.mem_seen found
      rw [← here] at rowUnder
      have points : (reading.report.correction (reading.report.supersededCandidate reading.seen) rows id
          now).supersedes = some row.id := congrArg (Option.map AttemptRow.id) found
      rcases inv.newest (saw row seen) isOld rowUnder oldUnder (fits.uncorrected _ points) with superseded | rfl
      · exact mem_supersedes_concat superseded
      · rw [List.filterMap_append]
        exact List.mem_append_right _ (List.mem_filterMap.mpr ⟨_, List.mem_singleton_self _, points⟩)

theorem saw_update {calls : Nat → Option Reading} {rows : List AttemptRow} {call : Nat}
    {entry : Option Reading} (entered : ∀ reading, entry = some reading → ∀ row ∈ reading.seen, row ∈ rows)
    (saw : ∀ other reading, calls other = some reading → ∀ row ∈ reading.seen, row ∈ rows) :
    SawRows ⟨rows, Function.update calls call entry⟩ := by
  intro other reading inProgress
  by_cases same : other = call
  · subst same
    exact entered reading ((Function.update_self other entry calls).symm.trans inProgress)
  · exact saw other reading ((Function.update_of_ne same entry calls).symm.trans inProgress)

theorem SawRows.step {action : Action} (saw : SawRows s) (acted : s.act action = some next) : SawRows next := by
  have grown : ∀ row ∈ s.rows, row ∈ next.rows := by
    intro row member
    rcases act_rows acted with same | ⟨new, more, _⟩
    · exact same ▸ member
    · exact more ▸ List.mem_append_left _ member
  cases action with
  | complete req nodeRun status id startedAt now =>
      simp only [Attempts.act, Option.ite_none_left_eq_some, Option.some.injEq] at acted
      obtain ⟨_, _, rfl⟩ := acted
      exact fun call reading inProgress row seen => grown row (saw call reading inProgress row seen)
  | read call report =>
      simp only [Attempts.act, Option.ite_none_left_eq_some, Option.some.injEq] at acted
      obtain ⟨_, _, rfl⟩ := acted
      refine saw_update (fun reading entered row seen => ?_) saw
      rw [← Option.some.inj entered] at seen
      exact seen
  | record call id now raced =>
      obtain ⟨reading, _, rfl⟩ := Option.map_eq_some_iff.mp acted
      dsimp only at grown ⊢
      split at grown <;> exact saw_update (by simp) fun other reading inProgress row seen =>
        grown row (saw other reading inProgress row seen)

theorem Inv.step {action : Action} (inv : Inv claimed s.rows) (saw : SawRows s)
    (timely : s.Timely claimed action) (acted : s.act action = some next) : Inv claimed next.rows := by
  cases action with
  | complete req nodeRun status id startedAt now =>
      simp only [Attempts.act, Option.ite_none_left_eq_some, Option.some.injEq] at acted
      obtain ⟨_, _, rfl⟩ := acted
      exact inv.complete timely
  | read call report =>
      simp only [Attempts.act, Option.ite_none_left_eq_some, Option.some.injEq] at acted
      obtain ⟨_, _, rfl⟩ := acted
      exact inv
  | record call id now raced =>
      obtain ⟨reading, inProgress, rfl⟩ := Option.map_eq_some_iff.mp acted
      have allowed : claimed = reading.claimed → reading.superseded = none →
          (reading.report.delivered s.rows).isSome = true ∨ unrecorded claimed s.rows = true := by
        intro here nothing
        simpa [Attempts.Timely, Attempts.timely, inProgress, here, nothing] using timely
      dsimp only
      split
      · rename_i answer after recorded
        exact inv.record (saw call reading inProgress) allowed recorded
      · exact inv

end Step

theorem indexed_nil : Indexed [] := ⟨List.nodup_nil, List.nodup_nil, List.Pairwise.nil⟩

/-- Wherever completions and late reports come to, in any order, as long as no attempt that corrects nothing
is recorded beside a row of the claim: a delivery has one row, a row has one correction, and one row of the
claim is current. -/
theorem settled_of_timely {claimed : Claimed} {s : Attempts}
    (run : Steps Attempts.step (Attempts.Timely claimed) {} s) : Settled claimed s.rows := by
  have kept : Inv claimed s.rows ∧ SawRows s := by
    refine run.invariant (fun s => Inv claimed s.rows ∧ SawRows s) ⟨⟨indexed_nil, ?_⟩, ?_⟩ ?_
    · exact fun _ isOld => by cases isOld
    · exact fun _ _ inProgress => by cases inProgress
    · exact fun _ _ _ kept timely acted => ⟨kept.1.step kept.2 timely acted, kept.2.step acted⟩
  exact kept.1.settled

/-- The work of node run 4 under its first claim, which its deadline has ended. -/
def timedOut : CompletionRequest where
  claim := ⟨7, "scheduler", 1, 1⟩
  status := .timedOut

def session (eventID : String) : LateReport where
  invocation := { attemptID := "session", nodeRun := 4, fencingToken := 1 }
  eventID := eventID
  status := some .failed

/-- Ids, numbers and links of the rows under the first claim of node run 4 that are current. -/
def standing (s : Attempts) : List (Nat × Nat × Option Nat) :=
  (s.rows.filter fun row => under ⟨4, 1⟩ row && current s.rows row).map fun row =>
    (row.id, row.number, row.supersedes)

/-- Two reports look up the same attempt, one of them is delivered again, and a third corrects what the first
has left. -/
def reconciled : List Action :=
  [.complete timedOut 4 .timedOut 10 none 5, .read 1 (session "a"), .read 2 (session "b"), .record 1 11 6 0,
    .record 2 12 6 0, .read 3 (session "a"), .record 3 13 7 0, .read 4 (session "c"), .record 4 14 8 1]

theorem settled_reconciled :
    ∃ s, Steps Attempts.step (Attempts.Timely ⟨4, 1⟩) {} s ∧ standing s = [(14, 3, some 11)] ∧
      Settled ⟨4, 1⟩ s.rows := by
  have sound : ∀ (s : Attempts) (action : Action), s.timely ⟨4, 1⟩ action = true → s.Timely ⟨4, 1⟩ action :=
    fun _ _ isTimely => isTimely
  have ran : (Steps.ofList Attempts.act (Attempts.timely ⟨4, 1⟩) {} reconciled).map standing =
      some [(14, 3, some 11)] := by
    decide +kernel
  obtain ⟨s, run, seen⟩ := Steps.reaches_of_ofList sound ran
  exact ⟨s, run, seen, settled_of_timely run⟩

/-- The deadline has taken the work back and not yet recorded its attempt when the session reports. -/
def overtaken : List Action :=
  [.read 1 (session "a"), .record 1 11 5 0, .complete timedOut 4 .timedOut 10 none 6]

/-- The report and the expired attempt are both current. -/
theorem overtaken_leaves_two :
    ∃ s, Steps Attempts.step anyAction {} s ∧ ¬Settled ⟨4, 1⟩ s.rows := by
  have sound : ∀ (s : Attempts) (action : Action), true = true → anyAction s action := fun _ _ _ => trivial
  have ran : (Steps.ofList Attempts.act (fun _ _ => true) {} overtaken).map standing =
      some [(11, 1, none), (10, 2, none)] := by
    decide +kernel
  obtain ⟨s, run, seen⟩ := Steps.reaches_of_ofList sound ran
  refine ⟨s, run, fun settled => ?_⟩
  have two := congrArg List.length seen
  rw [standing, List.length_map] at two
  have one := settled.oneCurrent
  rw [two] at one
  contradiction

end CultureNodes.Supersession
