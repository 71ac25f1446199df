import CultureNodes.Library.Duration
import Mathlib.Data.List.Induction
import Mathlib.Logic.Function.Basic

/-!
Whether the session of an actor can start. The collector reports what a bridge measured, a worker locks
the lane of an actor whose credential is spent, and a resume clears that lock and nothing else.
-/

namespace CultureNodes.Worker

inductive LivenessSource where
  | collector
  | worker
  | resume
deriving DecidableEq, Repr

def LivenessSource.text : LivenessSource → String
  | .collector => "collector"
  | .worker => "worker"
  | .resume => "resume"

/-- A row of `actor_liveness`; a session that nobody measured is neither able nor unable to start. -/
structure ActorLiveness where
  sessionOK : Option Bool
  reason : String
  mode : String := ""
  checkedAt : Int
  source : LivenessSource
  locked : Bool := false
  lockedByRunID : Option String := none
  lockedByAttemptID : Option String := none
deriving DecidableEq, Repr

structure LaneKey where
  namespaceID : String
  actorKey : String
deriving DecidableEq, Repr

/-- The table, by its primary key. -/
abbrev Lanes := LaneKey → Option ActorLiveness

def livenessFreshness : Int := 300 * Duration.second

def livenessModeLock : String := "LOCK"

/-- The simple case folding of a character that folds onto an ASCII letter. -/
def foldLetter (letter : Char) : Char :=
  if letter = Char.ofNat 0x212A then 'k'
  else if letter = Char.ofNat 0x017F then 's'
  else letter.toLower

/-- `strings.EqualFold`, one of the two texts being ASCII. -/
def equalFold (text other : String) : Bool :=
  text.toList.map foldLetter = other.toList.map foldLetter

/-- What the last measurement says of the session, and when it was made. -/
structure LivenessFact where
  sessionOK : Option Bool
  mode : String
  checkedAt : Int
deriving DecidableEq, Repr

def ActorLiveness.fact (row : ActorLiveness) : LivenessFact :=
  ⟨row.sessionOK, row.mode, row.checkedAt⟩

/-- A false fact holds for good where the bridge latches it, and for a while where it measures again. -/
def LivenessFact.admits (fact : LivenessFact) (now : Int) : Bool :=
  match fact.sessionOK with
  | none => true
  | some true => true
  | some false =>
      if equalFold fact.mode livenessModeLock then false
      else decide (livenessFreshness ≤ Duration.between now fact.checkedAt)

/-- The one routing rule. -/
def ActorLiveness.live (row : ActorLiveness) (now : Int) : Bool :=
  if row.locked then false else row.fact.admits now

structure RecordActorLivenessInput extends LaneKey where
  sessionOK : Option Bool
  reason : String
  mode : String := ""
  checkedAt : Int
  source : LivenessSource := .collector
deriving DecidableEq, Repr

structure LockActorLivenessInput extends LaneKey where
  reason : String
  checkedAt : Int
  runID : String := ""
  attemptID : String := ""
deriving DecidableEq, Repr

/-- What both writes of a fact require of their input; the zero time is none. -/
def checkFact (method : String) (key : LaneKey) (reason : String) (checkedAt : Int) :
    Except String Unit :=
  if key.namespaceID = "" then .error ("postgres: " ++ method ++ ": namespaceID is required")
  else if key.actorKey = "" then .error ("postgres: " ++ method ++ ": actorKey is required")
  else if reason = "" then .error ("postgres: " ++ method ++ ": reason is required")
  else if checkedAt = 0 then .error ("postgres: " ++ method ++ ": checkedAt is required")
  else .ok ()

def RecordActorLivenessInput.check (input : RecordActorLivenessInput) : Except String Unit :=
  match checkFact "RecordActorLiveness" input.toLaneKey input.reason input.checkedAt with
  | .error reason => .error reason
  | .ok () =>
      if input.source ≠ .collector then
        .error ("postgres: RecordActorLiveness: source \"" ++ input.source.text ++
          "\" is not \"collector\"")
      else .ok ()

def LockActorLivenessInput.check (input : LockActorLivenessInput) : Except String Unit :=
  checkFact "LockActorLiveness" input.toLaneKey input.reason input.checkedAt

def textOrNull (text : String) : Option String := if text = "" then none else some text

/-- The collector's upsert leaves the lock as it is. -/
def RecordActorLivenessInput.row (input : RecordActorLivenessInput) (old : Option ActorLiveness) :
    ActorLiveness :=
  let fresh : ActorLiveness :=
    { sessionOK := input.sessionOK, reason := input.reason, mode := input.mode,
      checkedAt := Duration.stored input.checkedAt, source := input.source }
  match old with
  | none => fresh
  | some row =>
      { fresh with
        locked := row.locked, lockedByRunID := row.lockedByRunID,
        lockedByAttemptID := row.lockedByAttemptID }

/-- The worker's upsert leaves the mode as the bridge last reported it. -/
def LockActorLivenessInput.row (input : LockActorLivenessInput) (old : Option ActorLiveness) :
    ActorLiveness where
  sessionOK := some false
  reason := input.reason
  mode := (old.map ActorLiveness.mode).getD ""
  checkedAt := Duration.stored input.checkedAt
  source := .worker
  locked := true
  lockedByRunID := textOrNull input.runID
  lockedByAttemptID := textOrNull input.attemptID

def recordActorLiveness (lanes : Lanes) (input : RecordActorLivenessInput) :
    Except String (Lanes × ActorLiveness) :=
  match input.check with
  | .error reason => .error reason
  | .ok () =>
      let row := input.row (lanes input.toLaneKey)
      .ok (Function.update lanes input.toLaneKey (some row), row)

def lockActorLiveness (lanes : Lanes) (input : LockActorLivenessInput) :
    Except String (Lanes × ActorLiveness) :=
  match input.check with
  | .error reason => .error reason
  | .ok () =>
      let row := input.row (lanes input.toLaneKey)
      .ok (Function.update lanes input.toLaneKey (some row), row)

/-- An actor without a row is left without one. -/
def unlockActorLiveness (lanes : Lanes) (key : LaneKey) :
    Except String (Lanes × Option ActorLiveness) :=
  if key.actorKey = "" then .error "postgres: engine: UnlockActorLiveness: actorKey is required"
  else
    let row := (lanes key).map fun row => { row with locked := false, source := .resume }
    .ok (Function.update lanes key row, row)

inductive LivenessWrite where
  | record (input : RecordActorLivenessInput)
  | lock (input : LockActorLivenessInput)
  | unlock (key : LaneKey)
deriving DecidableEq, Repr

/-- A refused write leaves the table as it was. -/
def Lanes.write (lanes : Lanes) : LivenessWrite → Lanes
  | .record input =>
      match recordActorLiveness lanes input with
      | .error _ => lanes
      | .ok (next, _) => next
  | .lock input =>
      match lockActorLiveness lanes input with
      | .error _ => lanes
      | .ok (next, _) => next
  | .unlock key =>
      match unlockActorLiveness lanes key with
      | .error _ => lanes
      | .ok (next, _) => next

/-- The table after the writes of a history, from an empty one. -/
def Lanes.after (history : List LivenessWrite) : Lanes := history.foldl Lanes.write fun _ => none

section

variable (key : LaneKey)

def LivenessWrite.reportOn : LivenessWrite → Option RecordActorLivenessInput
  | .record input => if input.check.isOk ∧ input.toLaneKey = key then some input else none
  | _ => none

def LivenessWrite.locksOn : LivenessWrite → Bool
  | .lock input => input.check.isOk && decide (input.toLaneKey = key)
  | _ => false

def LivenessWrite.unlocksOn : LivenessWrite → Bool
  | .unlock other => other.actorKey ≠ "" && decide (other = key)
  | _ => false

def LivenessWrite.rowAfter (old : Option ActorLiveness) : LivenessWrite → Option ActorLiveness
  | .record input => if input.check.isOk ∧ input.toLaneKey = key then some (input.row old) else old
  | .lock input => if input.check.isOk ∧ input.toLaneKey = key then some (input.row old) else old
  | .unlock other =>
      if other.actorKey ≠ "" ∧ other = key then
        old.map fun row => { row with locked := false, source := .resume }
      else old

/-- The last report on the lane. -/
def lastReport (writes : List LivenessWrite) : Option RecordActorLivenessInput :=
  (writes.filterMap (·.reportOn key)).getLast?

/-- The lane has been resumed. -/
def resumed (writes : List LivenessWrite) : Bool := writes.any (·.unlocksOn key)

/-- A report said that the session of the actor can start. -/
def reportedOK (writes : List LivenessWrite) : Bool :=
  writes.any fun write => (write.reportOn key).any (·.sessionOK = some true)

/-- The last fact about the lane since its last lock: the last report after it, or the lock's own, under
the mode the bridge last reported. -/
def factSince (before : List LivenessWrite) (lock : LockActorLivenessInput)
    (since : List LivenessWrite) : LivenessFact :=
  match lastReport key since with
  | some report => ⟨report.sessionOK, report.mode, Duration.stored report.checkedAt⟩
  | none =>
      ⟨some false, ((lastReport key before).map (·.mode)).getD "", Duration.stored lock.checkedAt⟩

end

variable {key : LaneKey} {before since : List LivenessWrite} {lock : LockActorLivenessInput}
  {write : LivenessWrite} {lanes : Lanes}

theorem lane_write : lanes.write write key = write.rowAfter key (lanes key) := by
  cases write with
  | record input =>
      simp only [Lanes.write, recordActorLiveness, LivenessWrite.rowAfter]
      cases checked : input.check with
      | error reason => simp [Except.isOk, Except.toBool]
      | ok _ =>
          by_cases same : input.toLaneKey = key
          · simp [Except.isOk, Except.toBool, same]
          · simp [Except.isOk, Except.toBool, same, Function.update_of_ne (Ne.symm same)]
  | lock input =>
      simp only [Lanes.write, lockActorLiveness, LivenessWrite.rowAfter]
      cases checked : input.check with
      | error reason => simp [Except.isOk, Except.toBool]
      | ok _ =>
          by_cases same : input.toLaneKey = key
          · simp [Except.isOk, Except.toBool, same]
          · simp [Except.isOk, Except.toBool, same, Function.update_of_ne (Ne.symm same)]
  | unlock other =>
      simp only [Lanes.write, unlockActorLiveness, LivenessWrite.rowAfter]
      by_cases bare : other.actorKey = ""
      · simp [bare]
      · by_cases same : other = key
        · subst same
          simp [bare]
        · simp [bare, same, Function.update_of_ne (Ne.symm same)]

theorem after_append_singleton (history : List LivenessWrite) (write : LivenessWrite) :
    Lanes.after (history ++ [write]) key = write.rowAfter key (Lanes.after history key) := by
  rw [Lanes.after, List.foldl_append]
  exact lane_write

theorem lastReport_append_singleton (writes : List LivenessWrite) (write : LivenessWrite) :
    lastReport key (writes ++ [write]) = (write.reportOn key).or (lastReport key writes) := by
  unfold lastReport
  rw [List.filterMap_append]
  cases reported : write.reportOn key with
  | none => simp [reported]
  | some report => simp [reported]

theorem resumed_append_singleton (writes : List LivenessWrite) (write : LivenessWrite) :
    resumed key (writes ++ [write]) = (resumed key writes || write.unlocksOn key) := by
  simp [resumed]

theorem mode_after (history : List LivenessWrite) :
    ((Lanes.after history key).map ActorLiveness.mode).getD "" =
      ((lastReport key history).map (·.mode)).getD "" := by
  induction history using List.reverseRecOn with
  | nil => rfl
  | append_singleton history write ih =>
      rw [after_append_singleton, lastReport_append_singleton]
      cases write with
      | record input =>
          by_cases own : input.check.isOk = true ∧ input.toLaneKey = key
          · simp only [LivenessWrite.rowAfter, LivenessWrite.reportOn, if_pos own]
            cases Lanes.after history key <;> rfl
          · simp only [LivenessWrite.rowAfter, LivenessWrite.reportOn, if_neg own, Option.none_or]
            exact ih
      | lock input =>
          simp only [LivenessWrite.rowAfter, LivenessWrite.reportOn, Option.none_or]
          split <;> exact ih
      | unlock other =>
          simp only [LivenessWrite.rowAfter, LivenessWrite.reportOn, Option.none_or]
          rw [← ih]
          split
          · cases Lanes.after history key <;> rfl
          · rfl

theorem row_since_lock (locks : (LivenessWrite.lock lock).locksOn key = true)
    (last : ∀ write ∈ since, write.locksOn key = false) :
    ∃ row, Lanes.after (before ++ .lock lock :: since) key = some row ∧
      row.locked = !resumed key since ∧ row.fact = factSince key before lock since := by
  simp only [LivenessWrite.locksOn, Bool.and_eq_true, decide_eq_true_eq] at locks
  induction since using List.reverseRecOn with
  | nil =>
      refine ⟨lock.row (Lanes.after before key), ?_, rfl, ?_⟩
      · rw [after_append_singleton, LivenessWrite.rowAfter, if_pos locks]
      · rw [ActorLiveness.fact, factSince, ← mode_after]
        rfl
  | append_singleton since write ih =>
      obtain ⟨row, isRow, isLocked, isFact⟩ := ih fun write member => last write (by simp [member])
      have notLock := last write (by simp)
      rw [← List.cons_append, ← List.append_assoc, after_append_singleton, isRow,
        resumed_append_singleton]
      unfold factSince at isFact ⊢
      rw [lastReport_append_singleton]
      cases write with
      | record input =>
          have silent : (LivenessWrite.record input).unlocksOn key = false := rfl
          rw [silent, Bool.or_false]
          by_cases own : input.check.isOk = true ∧ input.toLaneKey = key
          · rw [LivenessWrite.rowAfter, if_pos own, LivenessWrite.reportOn, if_pos own]
            exact ⟨input.row (some row), rfl, isLocked, rfl⟩
          · rw [LivenessWrite.rowAfter, if_neg own, LivenessWrite.reportOn, if_neg own, Option.none_or]
            exact ⟨row, rfl, isLocked, isFact⟩
      | lock input =>
          have other : ¬ (input.check.isOk = true ∧ input.toLaneKey = key) := by
            simpa [LivenessWrite.locksOn] using notLock
          have silent : (LivenessWrite.lock input).unlocksOn key = false := rfl
          rw [silent, Bool.or_false, LivenessWrite.rowAfter, if_neg other]
          exact ⟨row, rfl, isLocked, isFact⟩
      | unlock other =>
          by_cases own : other.actorKey ≠ "" ∧ other = key
          · have unlocks : (LivenessWrite.unlock other).unlocksOn key = true := by
              simpa [LivenessWrite.unlocksOn] using own
            rw [unlocks, Bool.or_true, LivenessWrite.rowAfter, if_pos own]
            exact ⟨_, rfl, rfl, isFact⟩
          · have silent : (LivenessWrite.unlock other).unlocksOn key = false := by
              simpa [LivenessWrite.unlocksOn] using own
            rw [silent, Bool.or_false, LivenessWrite.rowAfter, if_neg own]
            exact ⟨row, rfl, isLocked, isFact⟩

/-- The last fact is false, latched or measured less than five minutes ago. -/
def LivenessFact.standing (fact : LivenessFact) (now : Int) : Bool :=
  fact.sessionOK = some false &&
    (equalFold fact.mode livenessModeLock || decide (now - fact.checkedAt < livenessFreshness))

/-- The lane of an actor, since its last lock, is live only after both a resume and a report that its
session can start. -/
def ReopensByBoth (key : LaneKey) (before : List LivenessWrite) (lock : LockActorLivenessInput)
    (since : List LivenessWrite) (now : Int) : Prop :=
  ∀ row, Lanes.after (before ++ .lock lock :: since) key = some row → row.live now = true →
    resumed key since = true ∧ reportedOK key since = true

theorem between_fresh {now checkedAt : Int} :
    livenessFreshness ≤ Duration.between now checkedAt ↔ livenessFreshness ≤ now - checkedAt := by
  unfold Duration.between livenessFreshness Duration.limit Duration.second
  omega

/-- A fact that is neither open nor a report that the session can start is standing. -/
theorem admits_or_standing (fact : LivenessFact) (now : Int) :
    fact.admits now = !fact.standing now := by
  unfold LivenessFact.admits LivenessFact.standing
  cases measured : fact.sessionOK with
  | none => rfl
  | some able =>
      cases able with
      | true => rfl
      | false =>
          cases latched : equalFold fact.mode livenessModeLock with
          | true => simp
          | false =>
              by_cases fresh : livenessFreshness ≤ now - fact.checkedAt
              · simp [between_fresh, fresh]
              · simp [between_fresh, fresh, lt_of_not_ge fresh]

/-- After its last lock a lane reopens by a resume and a report only, exactly where it has not been
resumed, or its session was reported able to start, or its last fact is still standing. -/
theorem reopens_by_both_iff (key : LaneKey) (before : List LivenessWrite)
    (lock : LockActorLivenessInput) (since : List LivenessWrite) (now : Int)
    (locks : (LivenessWrite.lock lock).locksOn key = true)
    (last : ∀ write ∈ since, write.locksOn key = false) :
    ReopensByBoth key before lock since now ↔
      resumed key since = false ∨ reportedOK key since = true ∨
        (factSince key before lock since).standing now = true := by
  obtain ⟨row, isRow, isLocked, isFact⟩ := @row_since_lock key before since lock locks last
  have isLive : row.live now =
      (resumed key since && !(factSince key before lock since).standing now) := by
    rw [ActorLiveness.live, isLocked, isFact, admits_or_standing]
    cases resumed key since <;> rfl
  unfold ReopensByBoth
  rw [isRow]
  simp only [Option.some.injEq, forall_eq', isLive]
  cases resumed key since <;> cases reportedOK key since <;>
    cases (factSince key before lock since).standing now <;> simp

/-- A worker finds the credential of an actor spent. -/
def spent : LockActorLivenessInput where
  namespaceID := "default"
  actorKey := "company/one"
  reason := "refresh_token_spent"
  checkedAt := 1000 * Duration.second

/-- The bridge of the actor measures again and finds its session able to start. -/
def healthy : RecordActorLivenessInput where
  namespaceID := "default"
  actorKey := "company/one"
  sessionOK := some true
  reason := "ok"
  mode := "CHECK"
  checkedAt := 1200 * Duration.second

theorem reopens_by_both_healthy :
    ReopensByBoth spent.toLaneKey [] spent [.unlock spent.toLaneKey, .record healthy]
        (2000 * Duration.second) ∧
      ((Lanes.after [.lock spent, .unlock spent.toLaneKey, .record healthy] spent.toLaneKey).map
        (·.live (2000 * Duration.second))) = some true :=
  ⟨(reopens_by_both_iff spent.toLaneKey [] spent [.unlock spent.toLaneKey, .record healthy]
      (2000 * Duration.second) (by decide) (by decide)).mpr (by decide), by decide⟩

def spentRow : ActorLiveness where
  sessionOK := some false
  reason := "refresh_token_spent"
  checkedAt := 1000 * Duration.second
  source := .resume

/-- A lane that is resumed is live five minutes after it was locked, with no report at all. -/
theorem resume_alone_reopens :
    ¬ ∀ (key : LaneKey) (before : List LivenessWrite) (lock : LockActorLivenessInput)
      (since : List LivenessWrite) (now : Int), (LivenessWrite.lock lock).locksOn key = true →
      (∀ write ∈ since, write.locksOn key = false) → ReopensByBoth key before lock since now := by
  intro always
  have refused := always spent.toLaneKey [] spent [.unlock spent.toLaneKey] (1300 * Duration.second)
    (by decide) (by decide) spentRow (by decide) (by decide)
  exact absurd refused.2 (by decide)

end CultureNodes.Worker
