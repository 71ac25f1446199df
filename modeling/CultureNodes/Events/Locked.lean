import CultureNodes.Events.Append

/-!
The sequence numbers of the streams. A number that is read under the run's lock stays the next one
until it is inserted, so streams are numbered without gaps and no insert meets a row with its number.
All appends but one are made under the lock; a trigger that attaches its event to an active run reads
the number without it.
-/

namespace CultureNodes.Events

open Streams (Contiguous)

def Write.row? : Write → Option (Nat × Nat)
  | .insertEvent row => some row
  | _ => none

/-- The events among the writes. -/
def rowsOf (writes : List Write) : List (Nat × Nat) := writes.filterMap Write.row?

/-- What a transaction has appended and is about to append. -/
def appends (txn : Txn Write Program) : List (Nat × Nat) :=
  rowsOf txn.writes ++ txn.body.appending.toList

/-- The runs whose locks a transaction has taken where it stands. -/
def Body.held : Body → List Nat
  | .turn _ .lockRun => []
  | .turn run (.started new) => [run.id, new]
  | .turn run _ => [run.id]
  | .delivery candidates _ (.lockRuns remaining) => candidates.filter (· ∉ remaining)
  | .delivery candidates _ (.started new) => new :: candidates
  | .delivery candidates _ _ => candidates

def Write.newRun? : Write → Option Nat
  | .insertRun run => some run.id
  | _ => none

/-- The run that a transaction has inserted and is about to lock. -/
def Body.unlocked : Body → Option Nat
  | .turn _ (.lockNew run) | .delivery _ _ (.lockNew run) => some run
  | _ => none

/-- The runs whose locks a transaction has: those it took for what it found, and those it created. -/
def heldRuns (txn : Txn Write Program) : List Nat :=
  txn.body.body.held ++ (txn.writes.filterMap Write.newRun?).filter fun run => txn.body.body.unlocked ≠ some run

/-- Every append is made under the lock of its run, the streams have no gaps, and no append that is
under way has the number of another. -/
structure Sequenced (s : StreamState) : Prop where
  locked : ∀ id txn, s.txns id = some txn → ∀ row ∈ appends txn, s.holder (.run row.1) = some id
  gapless : ∀ run, Contiguous s.db.events run
  admitted : ∀ id txn row, s.txns id = some txn → txn.body.appending = some row →
    row ∉ s.db.events ∧
      ∀ other rival, other ≠ id → s.txns other = some rival → row ∉ appends rival

/-- An event is attached only to a run whose lock its transaction holds, as one of the runs it matched or
one it created. -/
def LockedAttach (s : StreamState) : Action → Prop
  | .readMax id run => ∀ txn candidates pending, s.txns id = some txn →
      txn.body.body = .delivery candidates pending (.attach run) → s.holder (.run run) = some id
  | _ => True

structure Inv (s : StreamState) : Prop where
  held : ∀ id txn, s.txns id = some txn → ∀ run ∈ heldRuns txn, s.holder (.run run) = some id
  locked : ∀ id txn, s.txns id = some txn → ∀ row ∈ appends txn, s.holder (.run row.1) = some id
  gapless : ∀ run, Contiguous s.db.events run
  viewed : ∀ id txn, s.txns id = some txn → ∀ run, Contiguous (s.read txn.writes).events run
  numbered : ∀ id txn row, s.txns id = some txn → txn.body.appending = some row →
    row.2 = Streams.next (s.read txn.writes).events row.1

section

variable {s next : StreamState} {id : Nat}

theorem foldl_apply_events (db : StreamDb) (writes : List Write) :
    (writes.foldl StreamDb.apply db).events = db.events ++ rowsOf writes := by
  induction writes generalizing db with
  | nil => simp [rowsOf]
  | cons write rest ih =>
      rw [List.foldl_cons, ih]
      cases write <;> simp [StreamDb.apply, rowsOf, List.filterMap_cons, Write.row?]

theorem read_events (writes : List Write) :
    (s.read writes).events = s.db.events ++ rowsOf writes :=
  foldl_apply_events s.db writes

theorem Inv.sequenced (inv : Inv s) : Sequenced s where
  locked := inv.locked
  gapless := inv.gapless
  admitted := by
    intro id txn row inFlight pending
    have isNext := inv.numbered id txn row inFlight pending
    have own : row ∈ appends txn := by
      rw [appends, pending]
      exact List.mem_append_right _ List.mem_cons_self
    constructor
    · intro committed
      have fresh := (inv.viewed id txn inFlight row.1).next_not_mem
      rw [← isNext, read_events] at fresh
      exact fresh (List.mem_append_left _ committed)
    · intro other rival different rivalInFlight clash
      have mine := inv.locked id txn inFlight row own
      rw [inv.locked other rival rivalInFlight row clash] at mine
      exact different (Option.some.inj mine)

theorem Inv.setTxn (inv : Inv s) {txn : Txn Write Program} (sameDb : next.db = s.db)
    (txns : next.txns = Function.update s.txns id (some txn))
    (others : ∀ other key, other ≠ id → s.holder key = some other → next.holder key = some other)
    (held : ∀ run ∈ heldRuns txn, next.holder (.run run) = some id)
    (locked : ∀ row ∈ appends txn, next.holder (.run row.1) = some id)
    (viewed : ∀ run, Contiguous (s.read txn.writes).events run)
    (numbered : ∀ row, txn.body.appending = some row →
      row.2 = Streams.next (s.read txn.writes).events row.1) : Inv next := by
  have sameRead : next.read = s.read := by
    funext writes
    rw [StreamState.read, StreamState.read, sameDb]
  have cases : ∀ other rival, next.txns other = some rival →
      other = id ∧ rival = txn ∨ other ≠ id ∧ s.txns other = some rival := by
    intro other rival inFlight
    rw [txns] at inFlight
    exact World.inFlight_update inFlight
  constructor
  · intro other rival inFlight run member
    rcases cases other rival inFlight with ⟨rfl, rfl⟩ | ⟨different, before⟩
    · exact held run member
    · exact others other _ different (inv.held other rival before run member)
  · intro other rival inFlight row member
    rcases cases other rival inFlight with ⟨rfl, rfl⟩ | ⟨different, before⟩
    · exact locked row member
    · exact others other _ different (inv.locked other rival before row member)
  · rw [sameDb]
    exact inv.gapless
  · rw [sameRead]
    intro other rival inFlight
    rcases cases other rival inFlight with ⟨rfl, rfl⟩ | ⟨different, before⟩
    · exact viewed
    · exact inv.viewed other rival before
  · rw [sameRead]
    intro other rival row inFlight
    rcases cases other rival inFlight with ⟨rfl, rfl⟩ | ⟨different, before⟩
    · exact numbered row
    · exact inv.numbered other rival row before

/-- One statement between appends: no event is written, the locks of all transactions stay, and what
is held afterwards was held before or has just been taken. -/
structure Moved (s : StreamState) (id : Nat) (txn : Txn Write Program) (next : StreamState) : Prop where
  sameDb : next.db = s.db
  others : ∀ other key, s.holder key = some other → next.holder key = some other
  moves : ∃ writes body, next.txns = Function.update s.txns id (some ⟨writes, { body := body }⟩) ∧
    rowsOf writes = rowsOf txn.writes ∧
    ∀ run ∈ heldRuns ⟨writes, { body := body }⟩, run ∈ heldRuns txn ∨ next.holder (.run run) = some id

variable {txn : Txn Write Program} {writes : List Write} {body : Body}

theorem put_moved (rows : rowsOf writes = rowsOf txn.writes)
    (runs : writes.filterMap Write.newRun? = txn.writes.filterMap Write.newRun?)
    (settled : txn.body.body.unlocked = none) (held : ∀ run ∈ body.held, run ∈ txn.body.body.held) :
    Moved s id txn (s.put id writes { body := body }) where
  sameDb := rfl
  others _ _ holds := holds
  moves := by
    refine ⟨writes, body, rfl, rows, fun run member => Or.inl ?_⟩
    rcases List.mem_append.mp member with before | made
    · exact List.mem_append_left _ (held run before)
    · refine List.mem_append_right _ (List.mem_filter.mpr ⟨runs ▸ (List.mem_filter.mp made).1, ?_⟩)
      simp [settled]

theorem lockThen_moved {key : LockKey} (locks : s.lockThen id key txn.writes body = some next)
    (settles : ∀ run, txn.body.body.unlocked = some run → key = .run run)
    (held : ∀ run ∈ body.held, run ∈ txn.body.body.held ∨ key = .run run) : Moved s id txn next := by
  obtain ⟨world, acquired, rfl⟩ := Option.map_eq_some_iff.mp locks
  have taken := World.acquire_holds acquired
  obtain ⟨free, rfl⟩ := World.acquire_eq_some acquired
  constructor
  · rfl
  · intro other any holds
    by_cases same : other = id
    · exact World.acquire_keeps acquired (same ▸ holds) |>.trans (congrArg some same.symm)
    · exact (World.acquire_other acquired same any).mpr holds
  · refine ⟨txn.writes, body, rfl, rfl, fun run member => ?_⟩
    rcases List.mem_append.mp member with before | made
    · rcases held run before with before | rfl
      · exact Or.inl (List.mem_append_left _ before)
      · exact Or.inr taken
    · by_cases isNew : txn.body.body.unlocked = some run
      · obtain rfl := settles run isNew
        exact Or.inr taken
      · refine Or.inl (List.mem_append_right _ (List.mem_filter.mpr ⟨(List.mem_filter.mp made).1, ?_⟩))
        exact decide_eq_true isNew

theorem insertRun_moved {workflow subject : String} {started : Nat → Body}
    (settled : txn.body.body.unlocked = none) (isNew : (started s.nextID).unlocked = some s.nextID)
    (held : ∀ run ∈ (started s.nextID).held, run ∈ txn.body.body.held) :
    Moved s id txn (s.insertRun id txn.writes workflow subject started) where
  sameDb := rfl
  others _ _ holds := holds
  moves := by
    refine ⟨_, _, rfl, by simp [rowsOf, List.filterMap_cons, Write.row?], fun run member => Or.inl ?_⟩
    rcases List.mem_append.mp member with before | made
    · exact List.mem_append_left _ (held run before)
    · obtain ⟨isMade, other⟩ := List.mem_filter.mp made
      rw [List.filterMap_append] at isMade
      refine List.mem_append_right _ (List.mem_filter.mpr ⟨?_, by simp [settled]⟩)
      rcases List.mem_append.mp isMade with before | new
      · exact before
      · -- The new run is the one that is still to be locked.
        obtain rfl : run = s.nextID := by simpa [Write.newRun?] using new
        exact absurd isNew (of_decide_eq_true other)

theorem stepTurn_moved {run : StreamRun} {phase : TurnPhase} {answer : Answer}
    (stands : txn.body.body = .turn run phase)
    (stepped : s.stepTurn id txn.writes run answer phase = some next) : Moved s id txn next := by
  cases phase with
  | lockRun => exact lockThen_moved stepped (by simp [stands, Body.unlocked]) (by simp [Body.held])
  | readRun =>
      simp only [StreamState.stepTurn] at stepped
      split at stepped
      · obtain rfl := Option.some.inj stepped
        exact put_moved rfl rfl (by simp [stands, Body.unlocked]) (by simp [stands, Body.held])
      · contradiction
  | writing =>
      simp only [StreamState.stepTurn] at stepped
      split at stepped
      · obtain rfl := Option.some.inj stepped
        refine put_moved (by simp [rowsOf, List.filterMap_cons, Write.row?])
          (by simp [List.filterMap_cons, Write.newRun?]) (by simp [stands, Body.unlocked]) ?_
        rw [stands]
        split <;> simp [Body.held]
      · contradiction
  | lockWorkflow => exact lockThen_moved stepped (by simp [stands, Body.unlocked]) (by simp [stands, Body.held])
  | readOldest =>
      simp only [StreamState.stepTurn] at stepped
      split at stepped <;>
        · obtain rfl := Option.some.inj stepped
          exact put_moved rfl rfl (by simp [stands, Body.unlocked]) (by simp [stands, Body.held])
  | lockSubject subject => exact lockThen_moved stepped (by simp [stands, Body.unlocked]) (by simp [stands, Body.held])
  | create subject =>
      obtain rfl := Option.some.inj stepped
      exact insertRun_moved (by simp [stands, Body.unlocked]) rfl (by simp [stands, Body.held])
  | lockNew new => exact lockThen_moved stepped (by simp [stands, Body.unlocked]) (by simp [stands, Body.held])
  | started new =>
      obtain rfl := Option.some.inj stepped
      exact put_moved rfl rfl (by simp [stands, Body.unlocked]) (by simp [stands, Body.held])
  | ended => contradiction

theorem stepMatch_moved {candidates : List Nat} {m : Match} {rest : List Match}
    {phase : DeliveryPhase} {answer : Answer}
    (stands : txn.body.body = .delivery candidates (m :: rest) phase)
    (stepped : s.stepMatch id txn.writes candidates m rest answer phase = some next) :
    Moved s id txn next := by
  cases phase with
  | lockRuns remaining => contradiction
  | offering => contradiction
  | lockWorkflow =>
      simp only [StreamState.stepMatch] at stepped
      split at stepped
      · obtain rfl := Option.some.inj stepped
        exact put_moved rfl rfl (by simp [stands, Body.unlocked]) (by simp [stands, Body.held])
      · split at stepped
        · exact lockThen_moved stepped (by simp [stands, Body.unlocked]) (by simp +contextual [stands, Body.held])
        · obtain rfl := Option.some.inj stepped
          exact put_moved rfl rfl (by simp [stands, Body.unlocked]) (by simp [stands, Body.held])
  | lockSubject =>
      exact lockThen_moved stepped (by simp [stands, Body.unlocked]) (by simp +contextual [stands, Body.held])
  | readActive =>
      simp only [StreamState.stepMatch] at stepped
      split at stepped <;>
        · obtain rfl := Option.some.inj stepped
          exact put_moved rfl rfl (by simp [stands, Body.unlocked]) (by simp [stands, Body.held])
  | attach run => contradiction
  | unplaced =>
      simp only [StreamState.stepMatch] at stepped
      split at stepped <;>
        · obtain rfl := Option.some.inj stepped
          exact put_moved rfl rfl (by simp [stands, Body.unlocked]) (by simp [stands, Body.held])
  | create =>
      obtain rfl := Option.some.inj stepped
      exact insertRun_moved (by simp [stands, Body.unlocked]) rfl (by simp [stands, Body.held])
  | lockNew new =>
      exact lockThen_moved stepped (by simp [stands, Body.unlocked]) (by simp +contextual [stands, Body.held])
  | started new =>
      obtain rfl := Option.some.inj stepped
      exact put_moved rfl rfl (by simp [stands, Body.unlocked]) (by simp +contextual [stands, Body.held])

theorem stepDelivery_moved {candidates : List Nat} {pending : List Match} {phase : DeliveryPhase}
    {answer : Answer} (stands : txn.body.body = .delivery candidates pending phase)
    (stepped : s.stepDelivery id txn.writes candidates pending answer phase = some next) :
    Moved s id txn next := by
  unfold StreamState.stepDelivery at stepped
  split at stepped
  · obtain rfl := Option.some.inj stepped
    exact put_moved rfl rfl (by simp [stands, Body.unlocked]) (by simp [stands, Body.held])
  · rename_i run rest
    refine lockThen_moved stepped (by simp [stands, Body.unlocked]) fun other member => ?_
    rw [stands]
    simp only [Body.held, List.mem_filter, List.mem_cons, decide_eq_true_eq] at member ⊢
    by_cases same : other = run
    · exact Or.inr (congrArg LockKey.run same.symm)
    · exact Or.inl ⟨member.1, fun later => member.2 (later.resolve_left same)⟩
  · obtain rfl := Option.some.inj stepped
    exact put_moved rfl rfl (by simp [stands, Body.unlocked]) (by simp [stands, Body.held])
  · contradiction
  · exact stepMatch_moved stands stepped

theorem advance_moved {answer : Answer} (stepped : s.advance id txn answer = some next) :
    Moved s id txn next := by
  unfold StreamState.advance at stepped
  split at stepped
  · contradiction
  · split at stepped
    · rename_i run phase stands
      exact stepTurn_moved stands stepped
    · rename_i candidates pending phase stands
      exact stepDelivery_moved stands stepped

theorem Inv.moved (inv : Inv s) (inFlight : s.txns id = some txn) (moved : Moved s id txn next) :
    Inv next := by
  obtain ⟨writes, body, txns, rows, held⟩ := moved.moves
  have sameEvents : (s.read writes).events = (s.read txn.writes).events := by
    rw [read_events, read_events, rows]
  refine inv.setTxn moved.sameDb txns (fun other key _ => moved.others other key) ?_ ?_ ?_ ?_
  · intro run member
    rcases held run member with before | taken
    · exact moved.others id _ (inv.held id txn inFlight run before)
    · exact taken
  · intro row member
    have before : row ∈ appends txn := by
      rw [appends, ← rows]
      exact List.mem_append_left _ (by simpa [appends] using member)
    exact moved.others id _ (inv.locked id txn inFlight row before)
  · intro run
    rw [sameEvents]
    exact inv.viewed id txn inFlight run
  · intro row none
    contradiction

/-- Where a transaction appends it holds the lock, but for an event that it attaches. -/
theorem targets_held {run : Nat} (target : run ∈ body.targets) :
    run ∈ body.held ∨ ∃ candidates pending, body = .delivery candidates pending (.attach run) := by
  unfold Body.targets at target
  split at target
  · exact Or.inl target
  · exact Or.inl target
  · exact Or.inl (List.mem_cons_of_mem _ target)
  · exact Or.inl target
  · rename_i candidates pending attached
    rw [List.mem_singleton] at target
    exact Or.inr ⟨candidates, pending, target ▸ rfl⟩
  · exact Or.inl (List.mem_cons.mpr (Or.inl (List.mem_singleton.mp target)))
  · contradiction

theorem Inv.readMax (inv : Inv s) (inFlight : s.txns id = some txn) {run : Nat}
    (allowed : LockedAttach s (.readMax id run)) (stepped : s.readMax id txn run = some next) :
    Inv next := by
  unfold StreamState.readMax at stepped
  split at stepped
  · rename_i enabled
    obtain rfl := Option.some.inj stepped
    have holds : s.holder (.run run) = some id := by
      rcases targets_held enabled.2 with held | ⟨candidates, pending, stands⟩
      · exact inv.held id txn inFlight run (List.mem_append_left _ held)
      · exact allowed txn candidates pending inFlight stands
    refine inv.setTxn rfl rfl (fun _ _ _ holds => holds) (inv.held id txn inFlight) ?_
      (inv.viewed id txn inFlight) ?_
    · intro row member
      rcases List.mem_append.mp member with written | pending
      · exact inv.locked id txn inFlight row (List.mem_append_left _ written)
      · rw [List.mem_singleton.mp pending]
        exact holds
    · intro row pending
      rw [← Option.some.inj pending]
  · contradiction

theorem appended_held {run : Nat} {row : Nat × Nat}
    (member : run ∈ heldRuns ⟨txn.writes ++ [.insertEvent row], { body := txn.body.body.appended }⟩) :
    run ∈ heldRuns txn := by
  have same : txn.body.body.appended.held = txn.body.body.held ∧
      txn.body.body.appended.unlocked = txn.body.body.unlocked := by
    unfold Body.appended
    split
    · rename_i stands
      rw [stands]
      exact ⟨rfl, rfl⟩
    · exact ⟨rfl, rfl⟩
  simpa [heldRuns, same, List.filterMap_cons, Write.newRun?] using member

theorem Inv.insert (inv : Inv s) (inFlight : s.txns id = some txn)
    (stepped : s.insert id txn = some next) : Inv next := by
  unfold StreamState.insert at stepped
  split at stepped
  · contradiction
  · rename_i row pending
    split at stepped
    · contradiction
    · obtain rfl := Option.some.inj stepped
      have rows : rowsOf (txn.writes ++ [Write.insertEvent row]) = rowsOf txn.writes ++ [row] := by
        simp [rowsOf, Write.row?]
      have isNext : row = (row.1, Streams.next (s.read txn.writes).events row.1) :=
        Prod.ext rfl (inv.numbered id txn row inFlight pending)
      refine inv.setTxn rfl rfl (fun _ _ _ holds => holds) ?_ ?_ ?_ ?_
      · intro run member
        exact inv.held id txn inFlight run (appended_held member)
      · intro other member
        have known : other ∈ appends txn := by
          rw [appends, pending]
          simpa [appends, rows] using member
        exact inv.locked id txn inFlight other known
      · intro run
        have contiguous := inv.viewed id txn inFlight run
        rw [read_events, rows, ← List.append_assoc, ← read_events]
        by_cases own : row.1 = run
        · rw [isNext, own]
          exact contiguous.concat
        · refine Contiguous.congr (Streams.sequences_append_of_absent ?_) contiguous
          intro other member
          rw [List.mem_singleton.mp member]
          exact own
      · intro other none
        contradiction

/-- A transaction ends: what it leaves behind are events of runs whose locks it held. -/
theorem Inv.leave (inv : Inv s) (inFlight : s.txns id = some txn) {rows : List (Nat × Nat)}
    (events : next.db.events = s.db.events ++ rows) (own : ∀ row ∈ rows, row ∈ appends txn)
    (contiguous : ∀ run, Contiguous (s.db.events ++ rows) run)
    (txns : next.txns = Function.update s.txns id none)
    (others : ∀ other key, other ≠ id → s.holder key = some other → next.holder key = some other) :
    Inv next := by
  have before : ∀ other rival, next.txns other = some rival → other ≠ id ∧ s.txns other = some rival := by
    intro other rival stays
    rw [txns] at stays
    exact World.inFlight_ended stays
  -- A rival that appends to a run holds its lock, so none of the rows is of that run.
  have untouched : ∀ other rival run, next.txns other = some rival →
      (∃ row ∈ appends rival, row.1 = run) →
      Streams.sequences (next.read rival.writes).events run =
        Streams.sequences (s.read rival.writes).events run := by
    rintro other rival run stays ⟨row, member, isRun⟩
    obtain ⟨different, rivalInFlight⟩ := before other rival stays
    have absent : ∀ mine ∈ rows, mine.1 ≠ run := by
      intro mine mineMember clash
      have mineHeld := inv.locked id txn inFlight mine (own mine mineMember)
      have rivalHeld := inv.locked other rival rivalInFlight row member
      rw [clash, ← isRun, rivalHeld] at mineHeld
      exact different (Option.some.inj mineHeld)
    have kept : Streams.sequences (s.db.events ++ rows) run = Streams.sequences s.db.events run :=
      Streams.sequences_append_of_absent absent
    rw [read_events, read_events, events, Streams.sequences_append, kept,
      ← Streams.sequences_append]
  constructor
  · intro other rival stays run member
    obtain ⟨different, rivalInFlight⟩ := before other rival stays
    exact others other _ different (inv.held other rival rivalInFlight run member)
  · intro other rival stays row member
    obtain ⟨different, rivalInFlight⟩ := before other rival stays
    exact others other _ different (inv.locked other rival rivalInFlight row member)
  · rw [events]
    exact contiguous
  · intro other rival stays run
    obtain ⟨_, rivalInFlight⟩ := before other rival stays
    by_cases touched : ∃ row ∈ appends rival, row.1 = run
    · exact (inv.viewed other rival rivalInFlight run).congr (untouched other rival run stays touched)
    · refine (contiguous run).congr ?_
      rw [read_events, events]
      refine Streams.sequences_append_of_absent fun row member isRun => ?_
      exact touched ⟨row, List.mem_append_left _ member, isRun⟩
  · intro other rival row stays pending
    obtain ⟨_, rivalInFlight⟩ := before other rival stays
    have touched : ∃ known ∈ appends rival, known.1 = row.1 :=
      ⟨row, by rw [appends, pending]; exact List.mem_append_right _ List.mem_cons_self, rfl⟩
    rw [Streams.next, untouched other rival row.1 stays touched]
    exact inv.numbered other rival row rivalInFlight pending

theorem inv_initial : Inv StreamState.initial where
  held _ _ inFlight := by contradiction
  locked _ _ inFlight := by contradiction
  gapless _ := rfl
  viewed _ _ inFlight := by contradiction
  numbered _ _ _ inFlight := by contradiction

/-- A transaction begins before its first lock. -/
theorem Inv.begin (inv : Inv s) (free : body.held = []) : Inv (s.put id [] { body := body }) := by
  refine inv.setTxn rfl rfl (fun _ _ _ holds => holds) ?_ ?_ ?_ ?_
  · intro run member
    simp only [heldRuns, free, List.filterMap_nil, List.filter_nil, List.append_nil] at member
    contradiction
  · intro row member
    contradiction
  · intro run
    exact (inv.gapless run).congr (by rw [read_events]; simp [rowsOf])
  · intro row none
    contradiction

theorem Inv.step (inv : Inv s) {action : Action} (allowed : LockedAttach s action)
    (stepped : s.act action = some next) : Inv next := by
  cases action with
  | beginTurn id run =>
      simp only [StreamState.act] at stepped
      split at stepped
      · obtain rfl := Option.some.inj stepped
        exact inv.begin rfl
      · contradiction
  | beginDelivery id matched triggers =>
      simp only [StreamState.act] at stepped
      split at stepped
      · contradiction
      · split at stepped
        · obtain rfl := Option.some.inj stepped
          refine inv.begin ?_
          rw [Body.held, List.filter_eq_nil_iff]
          simp
        · contradiction
  | advance id answer =>
      obtain ⟨txn, inFlight, moved⟩ := Option.bind_eq_some_iff.mp stepped
      exact inv.moved inFlight (advance_moved moved)
  | readMax id run =>
      obtain ⟨txn, inFlight, read⟩ := Option.bind_eq_some_iff.mp stepped
      exact inv.readMax inFlight allowed read
  | insert id =>
      obtain ⟨txn, inFlight, inserted⟩ := Option.bind_eq_some_iff.mp stepped
      exact inv.insert inFlight inserted
  | commit id =>
      obtain ⟨txn, inFlight, committed⟩ := Option.bind_eq_some_iff.mp stepped
      split at committed
      · obtain rfl := Option.some.inj committed
        refine inv.leave inFlight (read_events txn.writes)
          (fun row member => List.mem_append_left _ member) ?_ rfl
          (fun other key different => (World.finish_other different key).mpr)
        intro run
        rw [← read_events]
        exact inv.viewed id txn inFlight run
      · contradiction
  | abort id =>
      obtain ⟨txn, inFlight, aborted⟩ := Option.bind_eq_some_iff.mp stepped
      obtain rfl := Option.some.inj aborted
      refine inv.leave inFlight (List.append_nil _).symm (by simp) ?_ rfl
        (fun other key different => (World.finish_other different key).mpr)
      intro run
      rw [List.append_nil]
      exact inv.gapless run

/-- In every run in which events are attached only to runs whose locks their transactions hold, every
append is made under its run's lock, the streams are numbered from one on without gaps, and no append
meets a row with its number. -/
theorem sequenced_of_lockedAttach
    (reached : Steps StreamState.step LockedAttach StreamState.initial s) : Sequenced s :=
  (reached.invariant Inv inv_initial fun _ _ _ inv allowed stepped => inv.step allowed stepped).sequenced

theorem lockedAttach_of_own {run : Nat} (reached : Steps StreamState.step LockedAttach StreamState.initial s)
    (own : ∀ txn candidates pending, s.txns id = some txn →
      txn.body.body = .delivery candidates pending (.attach run) →
        run ∈ candidates ∨ ∃ row, .insertRun row ∈ txn.writes ∧ row.id = run) :
    LockedAttach s (.readMax id run) := by
  have inv := reached.invariant Inv inv_initial fun _ _ _ inv allowed stepped => inv.step allowed stepped
  intro txn candidates pending inFlight stands
  refine inv.held id txn inFlight run ?_
  rcases own txn candidates pending inFlight stands with matched | ⟨row, created, rfl⟩
  · exact List.mem_append_left _ (by rwa [stands])
  · refine List.mem_append_right _ (List.mem_filter.mpr ⟨List.mem_filterMap.mpr ⟨_, created, rfl⟩, ?_⟩)
    simp [stands, Body.unlocked]

end

/-- So many statements of a transaction between its appends. -/
def advances (txn count : Nat) : List Action := List.replicate count (.advance txn .proceed)

def appending (txn run : Nat) : List Action := [.readMax txn run, .insert txn]

def opened : Match where
  workflow := "flow"
  subject := "a"
  ceiling := false

/-- The event of subject `a` creates its run, with two events. -/
def creation : List Action :=
  .beginDelivery 0 [] [opened] :: advances 0 8 ++ appending 0 0 ++ appending 0 0 ++
    advances 0 1 ++ [.commit 0]

/-- A second event of `a`, for which the runs in `matched` are locked first, is to be attached to the run
and reads its number. -/
def attachment (matched : List Nat) : List Action :=
  .beginDelivery 2 matched [opened] :: advances 2 (matched.length + 5) ++ [.readMax 2 0]

def lockedAttach (s : StreamState) : Action → Bool
  | .readMax id run =>
      match s.txns id with
      | some ⟨_, ⟨.delivery _ _ (.attach attached), _⟩⟩ =>
          attached ≠ run || s.holder (.run run) = some id
      | _ => true
  | _ => true

theorem LockedAttach.of_check (s : StreamState) (action : Action) (passes : lockedAttach s action = true) :
    LockedAttach s action := by
  cases action with
  | readMax id run =>
      intro txn candidates pending inFlight stands
      obtain ⟨writes, body, appending⟩ := txn
      subst stands
      simpa [lockedAttach, inFlight] using passes
  | _ => trivial

/-- The run has a subscription on the event: its lock is taken before the event is attached. -/
theorem sequenced_matched : ∃ s, Sequenced s ∧
    (s.txns 2).bind (fun txn => txn.body.appending) = some (0, 3) := by
  have ran : (Steps.ofList StreamState.act lockedAttach .initial (creation ++ attachment [0])).bind
      (fun s => (s.txns 2).bind fun txn => txn.body.appending) = some (0, 3) := by decide
  obtain ⟨s, reached, attaches⟩ := Option.bind_eq_some_iff.mp ran
  exact ⟨s, sequenced_of_lockedAttach (Steps.of_ofList LockedAttach.of_check reached), attaches⟩

/-- A completion and an attached event read the same number, and the completion commits first: the
insert of the attached event is refused and its whole delivery rolls back. -/
theorem attach_reads_taken_sequence :
    ¬ ∀ s, Steps StreamState.step anyAction StreamState.initial s → Sequenced s := by
  intro always
  have ran : (Steps.ofList StreamState.act (fun _ _ => true) .initial
      (creation ++ Action.beginTurn 1 0 :: advances 1 2 ++ [Action.readMax 1 0] ++ attachment [] ++
        [Action.insert 1, .commit 1])).map
      (fun s => ((s.txns 2).map fun txn => txn.body.appending, decide ((0, 3) ∈ s.db.events))) =
        some (some (some (0, 3)), true) := by decide
  obtain ⟨s, reached, shown⟩ := Option.map_eq_some_iff.mp ran
  obtain ⟨attaches, committed⟩ := Prod.mk.inj shown
  obtain ⟨txn, inFlight, pending⟩ := Option.map_eq_some_iff.mp attaches
  have sequenced := always s (Steps.of_ofList (fun _ _ _ => trivial) reached)
  exact (sequenced.admitted 2 txn (0, 3) inFlight pending).1 (of_decide_eq_true committed)

end CultureNodes.Events
