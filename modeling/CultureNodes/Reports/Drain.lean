import Mathlib.Algebra.Order.BigOperators.Group.List
import Mathlib.Algebra.Order.Group.Nat
import Mathlib.Data.Int.ConditionallyCompleteOrder
import CultureNodes.Reports.Ticket

/-!
The loop of a dispatcher: transaction after transaction on the oldest eligible message, until there is none. The
clock and the bridges are arbitrary, so a message that was put off may be due again before the loop ends.
-/

namespace CultureNodes.Reports

/-- How the dispatch of a message ends: no bridge is reached, the bridge fails, or it accepts. -/
inductive Outcome where
  | unreached
  | refused
  | accepted
deriving DecidableEq, Repr

variable {β ι : Type} (lane : Lane β ι)

def Lane.dispatch (bridge : ι → Outcome) (row : Message β) : Outcome :=
  match lane.invocation row.id row.body with
  | some sent => bridge sent
  | none => .unreached

/-- One turn of the loop. -/
def Lane.turn (worker : Nat) (now : Int) (bridge : ι → Outcome) (state : Outbox.State (Message β) ι) :
    Option (Outbox.State (Message β) ι) :=
  (lane.oldest now state).bind fun row =>
    (lane.act state (.select worker now)).bind fun selected =>
      let outcome := lane.dispatch bridge row
      (if outcome = .unreached then some selected else lane.act selected (.invoke worker)).bind fun dispatched =>
        (lane.act dispatched (.settle worker (outcome = .accepted) now)).bind fun settled =>
          lane.act settled (.commit worker)

/-- The loop, with the number of turns it took. -/
def Lane.drain (worker : Nat) (clock : Nat → Int) (bridge : Nat → ι → Outcome) :
    Nat → Nat → Outbox.State (Message β) ι → Option (Outbox.State (Message β) ι × Nat)
  | 0, _, _ => none
  | fuel + 1, turns, state =>
      match lane.turn worker (clock turns) (bridge turns) state with
      | none => some (state, turns)
      | some next => drain worker clock bridge fuel (turns + 1) next

variable {lane} {state next : Outbox.State (Message β) ι} {worker : Nat} {now : Int} {bridge : ι → Outcome}

/-- The state with one more transaction in flight. -/
def holding (state : Outbox.State (Message β) ι) (batch : Outbox.Batch (Message β) ι) :
    Outbox.State (Message β) ι :=
  { state with batches := batch :: state.batches }

theorem batch?_holding {batch : Outbox.Batch (Message β) ι} :
    batch? (holding state batch) batch.worker = some batch := by
  simp [batch?, holding]

theorem replace_holding {batch other : Outbox.Batch (Message β) ι} (same : other.worker = batch.worker)
    (idle : batch.worker ∉ state.batches.map Outbox.Batch.worker) :
    (holding state batch).replace other = holding state other := by
  unfold Outbox.State.replace holding Table.update
  rw [List.map_cons, if_pos (decide_eq_true same.symm)]
  congr 2
  conv_rhs => rw [← List.map_id state.batches]
  apply List.map_congr_left
  intro any isAny
  rw [if_neg, id]
  intro isIt
  exact idle (same ▸ of_decide_eq_true isIt ▸ List.mem_map_of_mem isAny)

theorem drop_holding {batch : Outbox.Batch (Message β) ι}
    (idle : batch.worker ∉ state.batches.map Outbox.Batch.worker) :
    (holding state batch).drop batch.worker = state := by
  have others : state.batches.filter (·.worker ≠ batch.worker) = state.batches := by
    rw [List.filter_eq_self]
    intro any isAny
    rw [decide_eq_true_eq]
    exact fun same => idle (same ▸ List.mem_map_of_mem isAny)
  simp only [Outbox.State.drop, holding, ne_eq, not_true_eq_false, decide_false, Bool.false_eq_true,
    not_false_eq_true, List.filter_cons_of_neg]
  exact congrArg (fun batches => { state with batches := batches }) others

theorem invoke_holding {batch : Outbox.Batch (Message β) ι} {row : Message β} {rest : List (Message β)} {sent : ι}
    (idle : batch.worker ∉ state.batches.map Outbox.Batch.worker) (first : batch.left = row :: rest)
    (sends : lane.invocation row.id row.body = some sent) :
    lane.act (holding state batch) (.invoke batch.worker) =
      some (holding { state with effects := state.effects ++ [sent] } (batch.begin sent)) := by
  simp only [Lane.act, batch?_holding, Option.bind_some, first, List.head?_cons, sends, Option.map_some]
  have same : (batch.begin sent).worker = batch.worker := rfl
  rw [replace_holding same idle]
  rfl

theorem settle_holding {batch : Outbox.Batch (Message β) ι} {row : Message β} {rest : List (Message β)}
    {accepted : Bool} (idle : batch.worker ∉ state.batches.map Outbox.Batch.worker)
    (first : batch.left = row :: rest) (reached : (accepted && batch.begun.isEmpty) = false) :
    lane.act (holding state batch) (.settle batch.worker accepted now) = some (holding state (batch.settle
      (if accepted then recordPublished row else recordFailure row (row.attempts + 1) now))) := by
  simp only [Lane.act, batch?_holding, Option.bind_some, first, List.head?_cons, reached, Bool.false_eq_true,
    if_false]
  rw [replace_holding Outbox.Batch.settle_worker idle]

theorem commit_holding {batch : Outbox.Batch (Message β) ι}
    (idle : batch.worker ∉ state.batches.map Outbox.Batch.worker) (done : batch.left = []) :
    lane.act (holding state batch) (.commit batch.worker) = some
      { state with
        rows := Outbox.rewriteRows Message.id state.rows batch.written
        settled := state.settled ++ batch.written } := by
  simp only [Lane.act, batch?_holding, Option.bind_some, done, List.isEmpty_nil, if_true]
  rw [Outbox.State.commit, drop_holding idle]
  rfl

theorem settle_and_commit {row : Message β} {made : List ι} {accepted : Bool}
    (idle : worker ∉ state.batches.map Outbox.Batch.worker) (reached : (accepted && made.isEmpty) = false) :
    ∃ after, Marks row made after ∧
      ((lane.act (holding state { worker := worker, left := [row], begun := made })
        (.settle worker accepted now)).bind fun settled => lane.act settled (.commit worker)) = some
      { state with
        rows := Outbox.rewriteRows Message.id state.rows [⟨row, made, after⟩]
        settled := state.settled ++ [⟨row, made, after⟩] } := by
  refine ⟨if accepted then recordPublished row else recordFailure row (row.attempts + 1) now, ?_, ?_⟩
  · cases accepted with
    | true => exact .published (by simpa using reached)
    | false => exact .failed
  · rw [@settle_holding β ι lane state now ⟨worker, [row], made, []⟩ row [] accepted idle rfl reached,
      Option.bind_some]
    exact commit_holding idle rfl

theorem turn_of_oldest {row : Message β} (idle : worker ∉ state.batches.map Outbox.Batch.worker)
    (found : lane.oldest now state = some row) :
    ∃ made after, Marks row made after ∧ lane.turn worker now bridge state = some
      { state with
        rows := Outbox.rewriteRows Message.id state.rows [⟨row, made, after⟩]
        effects := state.effects ++ made
        settled := state.settled ++ [⟨row, made, after⟩] } := by
  have selected : lane.act state (.select worker now) =
      some (holding state { worker := worker, left := [row] }) := by
    simp only [Lane.act, found, Option.bind_some, if_neg idle]
    rfl
  unfold Lane.turn
  rw [found, Option.bind_some, selected, Option.bind_some]
  by_cases unreached : lane.dispatch bridge row = .unreached
  · obtain ⟨after, marks, ended⟩ := @settle_and_commit β ι lane state worker now row [] false idle rfl
    refine ⟨[], after, marks, ?_⟩
    simp only [unreached, if_true, Option.bind_some, List.append_nil]
    exact ended
  · cases sends : lane.invocation row.id row.body with
    | none => simp [Lane.dispatch, sends] at unreached
    | some sent =>
        obtain ⟨after, marks, ended⟩ := @settle_and_commit β ι lane { state with effects := state.effects ++ [sent] }
          worker now row [sent] (decide (lane.dispatch bridge row = .accepted)) idle (by simp)
        refine ⟨[sent], after, marks, ?_⟩
        simp only [unreached, if_false]
        rw [@invoke_holding β ι lane state ⟨worker, [row], [], []⟩ row [] sent idle rfl sends, Option.bind_some]
        exact ended

theorem turn_steps (turned : lane.turn worker now bridge state = some next) :
    Steps (fun state action next => lane.act state action = some next) anyAction state next := by
  obtain ⟨row, found, onward⟩ := Option.bind_eq_some_iff.mp turned
  obtain ⟨selected, first, onward⟩ := Option.bind_eq_some_iff.mp onward
  obtain ⟨dispatched, second, onward⟩ := Option.bind_eq_some_iff.mp onward
  obtain ⟨settled, third, fourth⟩ := Option.bind_eq_some_iff.mp onward
  have reached : Steps (fun state action next => lane.act state action = some next) anyAction state dispatched := by
    split at second
    · exact Option.some.inj second ▸ .tail .refl trivial first
    · exact .tail (.tail .refl trivial first) trivial second
  exact .tail (.tail reached trivial third) trivial fourth

theorem sound_of_steps (sound : Outbox.Sound lane.rules state)
    (run : Steps (fun state action next => lane.act state action = some next) anyAction state next) :
    Outbox.Sound lane.rules next :=
  run.invariant (Outbox.Sound lane.rules) sound fun _ _ _ sound _ acted => sound.step (Lane.did_of_act acted).step

/-- The attempts that are left to a message. -/
def remaining (row : Message β) : Nat := if row.status = .pending then maxAttempts - row.attempts else 0

def budget (rows : List (Message β)) : Nat := (rows.map remaining).sum

theorem Marks.remaining_lt {row after : Message β} {made : List ι} (marks : Marks row made after)
    (counted : Counted row) (ready : row.status = .pending) : remaining after < remaining row := by
  have below : row.attempts < maxAttempts := by simpa only [Counted, ready] using counted
  have counts := marks.same.2.2
  unfold remaining
  rw [if_pos ready]
  split <;> omega

theorem mem_rewrite_one {row after old : Message β} {made : List ι} {rows : List (Message β)} (member : old ∈ rows) :
    (if row.id = old.id then after else old) ∈ Outbox.rewriteRows Message.id rows [⟨row, made, after⟩] := by
  refine List.mem_map.mpr ⟨old, member, ?_⟩
  by_cases same : row.id = old.id
  · simp [same]
  · simp [same]

theorem budget_rewrite_lt {row after : Message β} {made : List ι} (sound : Outbox.Sound lane.rules state)
    (member : row ∈ state.rows) (ready : row.status = .pending) (marks : Marks row made after) :
    budget (Outbox.rewriteRows Message.id state.rows [⟨row, made, after⟩]) < budget state.rows := by
  have less := marks.remaining_lt (counted_of_chain (sound.traced row member)).1 ready
  unfold budget Outbox.rewriteRows
  rw [List.map_map]
  apply List.sum_lt_sum
  · intro old isOld
    by_cases same : row.id = old.id
    · obtain rfl := Table.eq_of_key sound.distinct member isOld same
      simpa using less.le
    · simp [same]
  · exact ⟨row, member, by simpa using less⟩

/-- How the rows of a table went on: every message is there, and one that differs was dispatched. -/
structure Onward (rows after : List (Message β)) : Prop where
  forth : ∀ row ∈ rows, ∃ later ∈ after, later.id = row.id ∧ later.body = row.body ∧
    (later = row ∨ row.attempts < later.attempts)
  back : Settling rows after

theorem Onward.refl {rows : List (Message β)} : Onward rows rows where
  forth := fun row member => ⟨row, member, rfl, rfl, Or.inl rfl⟩
  back := fun row member => ⟨row, member, rfl, fun pending => pending⟩

theorem Onward.trans {rows middle after : List (Message β)} (first : Onward rows middle)
    (second : Onward middle after) : Onward rows after where
  forth := by
    intro row member
    obtain ⟨later, isLater, sameID, sameBody, grown⟩ := first.forth row member
    obtain ⟨last, isLast, lastID, lastBody, lastGrown⟩ := second.forth later isLater
    refine ⟨last, isLast, lastID.trans sameID, lastBody.trans sameBody, ?_⟩
    rcases grown with rfl | grown <;> rcases lastGrown with rfl | lastGrown
    · exact Or.inl rfl
    · exact Or.inr lastGrown
    · exact Or.inr grown
    · exact Or.inr (grown.trans lastGrown)
  back := by
    intro row member
    obtain ⟨old, isOld, sameBody, pending⟩ := second.back row member
    obtain ⟨first, isFirst, firstBody, wasPending⟩ := first.back old isOld
    exact ⟨first, isFirst, sameBody.trans firstBody, fun isPending => wasPending (pending isPending)⟩

theorem onward_rewrite {row after : Message β} {made : List ι} (sound : Outbox.Sound lane.rules state)
    (member : row ∈ state.rows) (ready : row.status = .pending) (marks : Marks row made after) :
    Onward state.rows (Outbox.rewriteRows Message.id state.rows [⟨row, made, after⟩]) where
  forth := by
    intro old isOld
    refine ⟨_, mem_rewrite_one isOld, ?_⟩
    by_cases same : row.id = old.id
    · obtain rfl := Table.eq_of_key sound.distinct member isOld same
      obtain ⟨sameID, sameBody, grown⟩ := marks.same
      rw [if_pos rfl]
      exact ⟨sameID, sameBody, Or.inr (by omega)⟩
    · rw [if_neg same]
      exact ⟨rfl, rfl, Or.inl rfl⟩
  back := by
    intro later isLater
    obtain ⟨old, isOld, rfl⟩ := List.mem_map.mp isLater
    refine ⟨old, isOld, ?_⟩
    by_cases same : row.id = old.id
    · obtain rfl := Table.eq_of_key sound.distinct member isOld same
      simpa using ⟨marks.same.2.1, fun _ => ready⟩
    · simp [same]

theorem oldest_none : lane.oldest now state = none ↔
    ∀ row ∈ state.unlocked Message.id, lane.eligible now state.rows row = false := by
  unfold Lane.oldest
  rw [List.head?_eq_none_iff, ← List.length_eq_zero_iff, List.length_insertionSort, List.length_eq_zero_iff,
    List.filter_eq_nil_iff]
  simp

/-- The loop ends, with no eligible message left, in at most as many turns as attempts are left. -/
theorem drain_of_budget {clock : Nat → Int} {bridge : Nat → ι → Outcome} {fuel turns : Nat}
    (sound : Outbox.Sound lane.rules state) (idle : worker ∉ state.batches.map Outbox.Batch.worker)
    (enough : budget state.rows < fuel) :
    ∃ final taken, lane.drain worker clock bridge fuel turns state = some (final, turns + taken) ∧
      taken ≤ budget state.rows ∧ lane.oldest (clock (turns + taken)) final = none ∧
      Steps (fun state action next => lane.act state action = some next) anyAction state final ∧
      Onward state.rows final.rows ∧ final.batches = state.batches := by
  induction fuel generalizing state turns with
  | zero => omega
  | succ fuel ih =>
      unfold Lane.drain
      cases found : lane.oldest (clock turns) state with
      | none =>
          have ended : lane.turn worker (clock turns) (bridge turns) state = none := by
            rw [Lane.turn, found, Option.bind_none]
          rw [ended]
          exact ⟨state, 0, rfl, Nat.zero_le _, found, .refl, .refl, rfl⟩
      | some row =>
          obtain ⟨made, after, marks, turned⟩ :=
            @turn_of_oldest β ι lane state worker (clock turns) (bridge turns) row idle found
          obtain ⟨unlocked, eligible⟩ := oldest_some found
          have member : row ∈ state.rows := List.mem_of_mem_filter unlocked
          simp only [Lane.eligible, Bool.and_eq_true, decide_eq_true_eq] at eligible
          have ready := eligible.1.1
          have less := budget_rewrite_lt sound member ready marks
          have moved := turn_steps turned
          rw [turned]
          obtain ⟨final, taken, drained, bounded, ended, run, onward, same⟩ :=
            @ih _ (turns + 1) (sound_of_steps sound moved) idle (by simpa using by omega)
          refine ⟨final, taken + 1, ?_, ?_, ?_, moved.trans run, (onward_rewrite sound member ready marks).trans onward,
            same⟩
          · simpa only [Nat.add_assoc, Nat.add_comm 1 taken] using drained
          · simp only at bounded
            omega
          · simpa only [Nat.add_assoc, Nat.add_comm 1 taken] using ended

inductive TableAction (β : Type) where
  | insert (now : Int) (id : String) (body : β)
  | dispatch (action : LaneAction)
deriving DecidableEq, Repr

/-- What happens to the table of a lane: messages are queued, and any number of dispatchers are at work. -/
def Lane.tableAct (lane : Lane β ι) (state : Outbox.State (Message β) ι) :
    TableAction β → Option (Outbox.State (Message β) ι)
  | .insert now id body =>
      if id ∈ state.rows.map Message.id then none
      else some (state.insert { id := id, body := body, availableAt := now })
  | .dispatch action => lane.act state action

theorem Lane.sound_of_run
    (run : Steps (fun state action next => lane.tableAct state action = some next) anyAction {} state) :
    Outbox.Sound lane.rules state := by
  refine run.invariant (Outbox.Sound lane.rules) .initial fun old action new sound _ acted => ?_
  cases action with
  | insert now id body =>
      simp only [Lane.tableAct, Option.ite_none_left_eq_some, Option.some.injEq] at acted
      obtain ⟨fresh, rfl⟩ := acted
      exact sound.insert ⟨rfl, rfl⟩ fresh
  | dispatch action => exact sound.step (Lane.did_of_act acted).step

/-- From every reachable table, whatever the bridges answer and however the clock runs on, the loop of a
dispatcher that runs alone and without an error of the database ends after at most as many turns as attempts are
left to the pending messages. It is a run of the lane; it leaves no unlocked message that is due; and each message
that was due at its start has an attempt more on record, though the older ones failed, and no message more than
five of them in all. -/
theorem drains_leave_nothing_due {lane : Lane β ι} {state : Outbox.State (Message β) ι} {worker : Nat}
    {clock : Nat → Int} {bridge : Nat → ι → Outcome}
    (run : Steps (fun state action next => lane.tableAct state action = some next) anyAction {} state)
    (idle : worker ∉ state.batches.map Outbox.Batch.worker) (onward : Monotone clock) :
    ∃ final turns, lane.drain worker clock bridge (budget state.rows + 1) 0 state = some (final, turns) ∧
      turns ≤ budget state.rows ∧
      Steps (fun state action next => lane.act state action = some next) anyAction state final ∧
      (∀ row ∈ final.unlocked Message.id, lane.eligible (clock turns) final.rows row = false) ∧
      ∀ row ∈ state.unlocked Message.id, lane.eligible (clock 0) state.rows row = true →
        ∃ later ∈ final.rows, later.id = row.id ∧ later.body = row.body ∧ row.attempts < later.attempts ∧
          later.attempts ≤ maxAttempts := by
  have sound := Lane.sound_of_run run
  obtain ⟨final, turns, drained, bounded, ended, moved, went, same⟩ :=
    @drain_of_budget β ι lane state worker clock bridge (budget state.rows + 1) 0 sound idle (Nat.lt_succ_self _)
  rw [Nat.zero_add] at drained ended
  refine ⟨final, turns, drained, bounded, moved, oldest_none.mp ended, ?_⟩
  intro row unlocked eligible
  obtain ⟨member, free⟩ := List.mem_filter.mp unlocked
  obtain ⟨later, isLater, sameID, sameBody, grown⟩ := went.forth row member
  refine ⟨later, isLater, sameID, sameBody, ?_, ?_⟩
  · rcases grown with rfl | grown
    · -- a message that is as it was is as due as it was
      have stillFree : later ∈ final.unlocked Message.id := by
        refine List.mem_filter.mpr ⟨isLater, ?_⟩
        rw [Outbox.State.lockedKeys, same]
        exact free
      have due : lane.eligible (clock turns) final.rows later = true := by
        simp only [Lane.eligible, Bool.and_eq_true, decide_eq_true_eq] at eligible ⊢
        exact ⟨⟨eligible.1.1, eligible.1.2.trans (onward (Nat.zero_le turns))⟩,
          lane.lasting _ _ later went.back eligible.2⟩
      rw [oldest_none.mp ended later stillFree] at due
      contradiction
    · exact grown
  · have counted := (counted_of_chain ((sound_of_steps sound moved).traced later isLater)).1
    unfold Counted at counted
    split at counted <;> omega

/-- Two replies are queued. -/
def repliesQueued : List (TableAction Report) :=
  [.insert 0 "01A" (replyReport "ns" "SCRUM-1" "refused"), .insert 0 "01B" (replyReport "ns" "SCRUM-1" "accepted")]

/-- A task is announced on two channels. -/
def taskAnnounced : List (TableAction FanOutRow) :=
  [.insert 0 "01A" ⟨"ns", "task", "run", .jiraComment, "company/jira-comment", .object []⟩,
    .insert 0 "01B" ⟨"ns", "task", "run", .notify, "company/notify", .object []⟩]

/-- The bridge refuses the older of the messages. -/
theorem drains_leave_nothing_due_of_replies :
    (∃ state, Steps (fun state action next => ticketLane.tableAct state action = some next) anyAction {} state ∧
      budget state.rows = 10 ∧ ∃ final turns, ticketLane.drain 1 (fun _ => 0)
        (fun _ sent => if sent.invocation.attemptID = "01A" then .refused else .accepted)
        (budget state.rows + 1) 0 state = some (final, turns) ∧ turns ≤ budget state.rows) ∧
    ∃ state, Steps (fun state action next => humanFanOutLane.tableAct state action = some next) anyAction {} state ∧
      budget state.rows = 10 ∧ ∃ final turns, humanFanOutLane.drain 1 (fun _ => 0)
        (fun _ sent => if sent.attemptID = "01A" then .refused else .accepted)
        (budget state.rows + 1) 0 state = some (final, turns) ∧ turns ≤ budget state.rows := by
  constructor
  · have ran : (Steps.ofList ticketLane.tableAct (fun _ _ => true) {} repliesQueued).map (fun state =>
        (budget state.rows, state.batches.map Outbox.Batch.worker)) = some (10, []) := by
      decide +kernel
    obtain ⟨state, run, seen⟩ := Steps.reaches_of_ofList (fun _ _ _ => trivial) ran
    simp only [Prod.mk.injEq] at seen
    obtain ⟨final, turns, drained, bounded, _⟩ := @drains_leave_nothing_due Report Sent ticketLane state 1
      (fun _ => 0) (fun _ sent => if sent.invocation.attemptID = "01A" then .refused else .accepted) run
      (seen.2 ▸ List.not_mem_nil) monotone_const
    exact ⟨state, run, seen.1, final, turns, drained, bounded⟩
  · have ran : (Steps.ofList humanFanOutLane.tableAct (fun _ _ => true) {} taskAnnounced).map (fun state =>
        (budget state.rows, state.batches.map Outbox.Batch.worker)) = some (10, []) := by
      decide +kernel
    obtain ⟨state, run, seen⟩ := Steps.reaches_of_ofList (fun _ _ _ => trivial) ran
    simp only [Prod.mk.injEq] at seen
    obtain ⟨final, turns, drained, bounded, _⟩ := @drains_leave_nothing_due FanOutRow Invocation humanFanOutLane
      state 1 (fun _ => 0) (fun _ sent => if sent.attemptID = "01A" then .refused else .accepted) run
      (seen.2 ▸ List.not_mem_nil) monotone_const
    exact ⟨state, run, seen.1, final, turns, drained, bounded⟩

end CultureNodes.Reports
