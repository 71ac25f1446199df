import Mathlib.Algebra.Group.Nat.Defs
import Mathlib.Data.List.Sort
import CultureNodes.Library.Outbox
import CultureNodes.Library.Transition

/-!
The lanes that deliver queued messages through a registered bridge: the reports on a ticket, and the fan-out of
human tasks. A drain takes the oldest message that is due, one to a transaction, invokes the bridge while the
row is locked, and then marks the row: published where the bridge accepted the invocation, else put off, or
given up after the last attempt. Times are in seconds.
-/

namespace CultureNodes.Reports

inductive Status where
  | pending
  | published
  | failed
deriving DecidableEq, Repr

/-- A row of a lane's outbox; `body` holds the columns its own lane reads. -/
structure Message (β : Type) where
  id : String
  body : β
  status : Status := .pending
  attempts : Nat := 0
  availableAt : Int := 0
deriving DecidableEq, Repr

def maxAttempts : Nat := 5

def baseBackoff : Nat := 60

def maxBackoff : Nat := 15 * 60

def backoff (attempts : Nat) : Nat := min (baseBackoff * 2 ^ (attempts - 1)) maxBackoff

variable {β ι : Type}

/-- The row of a message whose dispatch failed, `attempts` counting this one. -/
def recordFailure (row : Message β) (attempts : Nat) (now : Int) : Message β :=
  if maxAttempts ≤ attempts then { row with status := .failed, attempts := attempts }
  else { row with attempts := attempts, availableAt := now + backoff attempts }

def recordPublished (row : Message β) : Message β :=
  { row with status := .published, attempts := row.attempts + 1 }

def Settling (rows after : List (Message β)) : Prop :=
  ∀ row ∈ after, ∃ old ∈ rows, row.body = old.body ∧ (row.status = .pending → old.status = .pending)

/-- What one lane has of its own: which of the due messages may go, by the rows of the table, and the
invocation of a message, if there is one. The id of the row is the attempt that the invocation names; a message
that may go may go when other messages have been dealt with. -/
structure Lane (β ι : Type) where
  ripe : List (Message β) → Message β → Bool
  invocation : String → β → Option ι
  attemptID : ι → String
  identified : ∀ id body sent, invocation id body = some sent → attemptID sent = id
  lasting : ∀ rows after row, Settling rows after → ripe rows row = true → ripe after row = true

variable (lane : Lane β ι)

def Lane.eligible (now : Int) (rows : List (Message β)) (row : Message β) : Bool :=
  row.status = .pending && row.availableAt ≤ now && lane.ripe rows row

def Lane.oldest (now : Int) (state : Outbox.State (Message β) ι) : Option (Message β) :=
  (((state.unlocked Message.id).filter (lane.eligible now state.rows)).insertionSort
    fun one other => one.id ≤ other.id).head?

/-- The statements of a dispatcher: it selects a message, its invocation reaches the bridge, perhaps more than
once, it marks the row by how the dispatch came out, and it commits or is broken off. -/
inductive LaneAction where
  | select (worker : Nat) (now : Int)
  | invoke (worker : Nat)
  | settle (worker : Nat) (accepted : Bool) (now : Int)
  | commit (worker : Nat)
  | rollback (worker : Nat)
deriving DecidableEq, Repr

def batch? (state : Outbox.State (Message β) ι) (worker : Nat) : Option (Outbox.Batch (Message β) ι) :=
  state.batches.find? (·.worker = worker)

def Lane.act (state : Outbox.State (Message β) ι) : LaneAction → Option (Outbox.State (Message β) ι)
  | .select worker now =>
      (lane.oldest now state).bind fun row =>
        if worker ∈ state.batches.map Outbox.Batch.worker then none else some (state.select worker [row])
  | .invoke worker =>
      (batch? state worker).bind fun batch =>
        batch.left.head?.bind fun row =>
          (lane.invocation row.id row.body).map fun sent =>
            { state.replace (batch.begin sent) with effects := state.effects ++ [sent] }
  | .settle worker accepted now =>
      (batch? state worker).bind fun batch =>
        batch.left.head?.bind fun row =>
          if accepted && batch.begun.isEmpty then none
          else
            some (state.replace (batch.settle
              (if accepted then recordPublished row else recordFailure row (row.attempts + 1) now)))
  | .commit worker =>
      (batch? state worker).bind fun batch =>
        if batch.left.isEmpty then some (state.commit Message.id batch) else none
  | .rollback worker => some (state.drop worker)

/-- What the row of a dispatched message becomes. -/
inductive Marks (row : Message β) (made : List ι) : Message β → Prop where
  | published : made ≠ [] → Marks row made (recordPublished row)
  | failed {now : Int} : Marks row made (recordFailure row (row.attempts + 1) now)

@[simp] theorem recordFailure_id {row : Message β} {attempts : Nat} {now : Int} :
    (recordFailure row attempts now).id = row.id := by
  unfold recordFailure
  split <;> rfl

@[simp] theorem recordFailure_body {row : Message β} {attempts : Nat} {now : Int} :
    (recordFailure row attempts now).body = row.body := by
  unfold recordFailure
  split <;> rfl

@[simp] theorem recordFailure_attempts {row : Message β} {attempts : Nat} {now : Int} :
    (recordFailure row attempts now).attempts = attempts := by
  unfold recordFailure
  split <;> rfl

theorem Marks.same {row after : Message β} {made : List ι} (marks : Marks row made after) :
    after.id = row.id ∧ after.body = row.body ∧ after.attempts = row.attempts + 1 := by
  cases marks with
  | published => exact ⟨rfl, rfl, rfl⟩
  | failed => simp

def Lane.rules : Outbox.Rules (Message β) String ι where
  key := Message.id
  new := fun row => row.status = .pending ∧ row.attempts = 0
  ready := fun row => row.status = .pending
  makes := fun row sent => lane.invocation row.id row.body = some sent
  writes := Marks
  keyed := fun _ _ _ marks => marks.same.1

variable {lane} {state next : Outbox.State (Message β) ι}

theorem batch?_some {worker : Nat} {batch : Outbox.Batch (Message β) ι} (found : batch? state worker = some batch) :
    batch ∈ state.batches :=
  List.mem_of_find?_eq_some found

theorem oldest_some {now : Int} {row : Message β} (found : lane.oldest now state = some row) :
    row ∈ state.unlocked Message.id ∧ lane.eligible now state.rows row = true := by
  have member := List.mem_of_mem_head? (Option.mem_def.mpr found)
  rw [List.mem_insertionSort, List.mem_filter] at member
  exact member

/-- What the statements of a dispatcher do. -/
inductive Lane.Did (lane : Lane β ι) (state : Outbox.State (Message β) ι) : Outbox.State (Message β) ι → Prop where
  | select {worker : Nat} {now : Int} {row : Message β} (idle : worker ∉ state.batches.map Outbox.Batch.worker)
      (unlocked : row ∈ state.unlocked Message.id) (eligible : lane.eligible now state.rows row = true) :
      Did lane state (state.select worker [row])
  | invoke {batch : Outbox.Batch (Message β) ι} {row : Message β} {rest : List (Message β)} {sent : ι}
      (running : batch ∈ state.batches) (first : batch.left = row :: rest)
      (invoked : lane.invocation row.id row.body = some sent) :
      Did lane state { state.replace (batch.begin sent) with effects := state.effects ++ [sent] }
  | settle {batch : Outbox.Batch (Message β) ι} {row after : Message β} {rest : List (Message β)}
      (running : batch ∈ state.batches) (first : batch.left = row :: rest) (marks : Marks row batch.begun after) :
      Did lane state (state.replace (batch.settle after))
  | commit {batch : Outbox.Batch (Message β) ι} (running : batch ∈ state.batches) (done : batch.left = []) :
      Did lane state (state.commit Message.id batch)
  | rollback (worker : Nat) : Did lane state (state.drop worker)

theorem Lane.did_of_act {action : LaneAction} (acted : lane.act state action = some next) :
    lane.Did state next := by
  cases action with
  | select worker now =>
      obtain ⟨row, found, onward⟩ := Option.bind_eq_some_iff.mp acted
      simp only [Option.ite_none_left_eq_some, Option.some.injEq] at onward
      obtain ⟨idle, rfl⟩ := onward
      obtain ⟨unlocked, eligible⟩ := oldest_some found
      exact .select idle unlocked eligible
  | invoke worker =>
      obtain ⟨batch, found, onward⟩ := Option.bind_eq_some_iff.mp acted
      obtain ⟨row, first, sends⟩ := Option.bind_eq_some_iff.mp onward
      obtain ⟨sent, invoked, rfl⟩ := Option.map_eq_some_iff.mp sends
      obtain ⟨rest, isLeft⟩ := List.head?_eq_some_iff.mp first
      exact .invoke (batch?_some found) isLeft invoked
  | settle worker accepted now =>
      obtain ⟨batch, found, onward⟩ := Option.bind_eq_some_iff.mp acted
      obtain ⟨row, first, marks⟩ := Option.bind_eq_some_iff.mp onward
      simp only [Option.ite_none_left_eq_some, Option.some.injEq] at marks
      obtain ⟨reached, rfl⟩ := marks
      obtain ⟨rest, isLeft⟩ := List.head?_eq_some_iff.mp first
      refine .settle (batch?_some found) isLeft ?_
      cases accepted with
      | true => exact .published (by simpa using reached)
      | false => exact .failed
  | commit worker =>
      obtain ⟨batch, found, onward⟩ := Option.bind_eq_some_iff.mp acted
      simp only [List.isEmpty_iff, Option.ite_none_right_eq_some, Option.some.injEq] at onward
      obtain ⟨done, rfl⟩ := onward
      exact .commit (batch?_some found) done
  | rollback worker =>
      obtain rfl := Option.some.inj acted
      exact .rollback worker

theorem Lane.Did.step (did : lane.Did state next) : Outbox.Step lane.rules state next := by
  cases did with
  | select idle unlocked eligible =>
      refine .select idle (List.singleton_sublist.mpr unlocked).subperm ?_
      intro other isOther
      rw [List.mem_singleton.mp isOther]
      simp only [Lane.eligible, Bool.and_eq_true, decide_eq_true_eq] at eligible
      exact eligible.1.1
  | invoke running first invoked => exact .begin running first invoked
  | settle running first marks => exact .settle running first marks
  | commit running done => exact .commit running done
  | rollback worker => exact .abandon worker

theorem Lane.Did.rows {after : Message β} (did : lane.Did state next) (sound : Outbox.Sound lane.rules state)
    (member : after ∈ next.rows) :
    ∃ row ∈ state.rows, after = row ∨ row.status = .pending ∧ ∃ made : List ι, Marks row made after := by
  cases did with
  | @commit batch running =>
      obtain ⟨row, isRow, settles⟩ := sound.mem_commit running member
      refine ⟨row, isRow, ?_⟩
      cases settles with
      | kept => exact Or.inl rfl
      | @rewritten rewrite isWritten isBefore =>
          subst isBefore
          have locked : rewrite.before ∈ batch.locked := List.mem_append_left _ (List.mem_map_of_mem isWritten)
          exact Or.inr ⟨(sound.current batch running _ locked).2, _, (sound.written batch running _ isWritten).1⟩
  | select | invoke | settle | rollback => exact ⟨after, member, Or.inl rfl⟩

/-- A message that a dispatcher has still to deal with was there before, or was eligible when it was
selected. -/
theorem Lane.Did.left {batch : Outbox.Batch (Message β) ι} {row : Message β} (did : lane.Did state next)
    (running : batch ∈ next.batches) (isLeft : row ∈ batch.left) :
    (∃ old ∈ state.batches, row ∈ old.left) ∨ ∃ now, lane.eligible now state.rows row = true := by
  cases did with
  | select idle unlocked eligible =>
      rcases List.mem_cons.mp running with rfl | old
      · rw [List.mem_singleton.mp isLeft]
        exact Or.inr ⟨_, eligible⟩
      · exact Or.inl ⟨batch, old, isLeft⟩
  | @invoke held first rest sent among =>
      rcases Outbox.mem_replace running with rfl | ⟨old, -⟩
      · exact Or.inl ⟨held, among, isLeft⟩
      · exact Or.inl ⟨batch, old, isLeft⟩
  | @settle held first after rest among more =>
      rcases Outbox.mem_replace running with rfl | ⟨old, -⟩
      · rw [Outbox.Batch.settle, more] at isLeft
        exact Or.inl ⟨held, among, more ▸ List.mem_cons_of_mem _ isLeft⟩
      · exact Or.inl ⟨batch, old, isLeft⟩
  | commit => exact Or.inl ⟨batch, List.mem_of_mem_filter running, isLeft⟩
  | rollback => exact Or.inl ⟨batch, List.mem_of_mem_filter running, isLeft⟩

/-- What leaves for the bridge leaves for a message that its dispatcher has locked. -/
theorem Lane.Did.effects (did : lane.Did state next) :
    next.effects = state.effects ∨ ∃ batch ∈ state.batches, ∃ row ∈ batch.left, ∃ sent,
      lane.invocation row.id row.body = some sent ∧ next.effects = state.effects ++ [sent] := by
  cases did with
  | @invoke batch row rest sent running first invoked =>
      exact Or.inr ⟨batch, running, row, first ▸ List.mem_cons_self, sent, invoked, rfl⟩
  | select | settle | commit | rollback => exact Or.inl rfl

/-- A message is given up at its last attempt and not before, and is pending or published below that. -/
def Counted (row : Message β) : Prop :=
  match row.status with
  | .pending => row.attempts < maxAttempts
  | .published => 0 < row.attempts ∧ row.attempts ≤ maxAttempts
  | .failed => row.attempts = maxAttempts

theorem Counted.marks {row after : Message β} {made : List ι} (counted : Counted row) (ready : row.status = .pending)
    (marks : Marks row made after) : Counted after := by
  have below : row.attempts < maxAttempts := by simpa only [Counted, ready] using counted
  cases marks with
  | published =>
      show 0 < row.attempts + 1 ∧ row.attempts + 1 ≤ maxAttempts
      omega
  | failed =>
      unfold recordFailure
      split
      · show row.attempts + 1 = maxAttempts
        omega
      · simp only [Counted, ready]
        omega

theorem counted_of_chain {rewrites : List (Outbox.Rewrite (Message β) ι)} {row : Message β}
    (chain : Outbox.Chain lane.rules rewrites row) : Counted row ∧ rewrites.length = row.attempts := by
  constructor
  · induction chain with
    | new isNew =>
        obtain ⟨pending, unsent⟩ := isNew
        simp [Counted, pending, unsent, maxAttempts]
    | next _ ready marks ih => exact ih.marks ready marks
  · apply chain.length_eq Message.attempts
    · intro row isNew
      exact isNew.2
    · intro row made after _ marks
      exact (Marks.same marks).2.2

end CultureNodes.Reports
