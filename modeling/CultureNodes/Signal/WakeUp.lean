import Mathlib.Data.List.Dedup
import CultureNodes.Signal.Wait

/-!
Which wake-ups a signal wait can miss. The probe and the park are two transactions, and a delivery picks
the runs it looks at before its fact is there, so a fact can fall between them. Every fact that a pending
subscription still waits for was appended after the probe of its dispatch, by a delivery that had picked
its runs before the subscription was there; no other fact is missed.
-/

namespace CultureNodes.Signal

open Events (sortedRunIDs)

variable {rows : WaitRows}

namespace SignalDb

def Consumed (db : SignalDb) (run : Nat) (name : String) (event : SignalEvent) : Prop :=
  ∃ row ∈ db.subscriptions, row.run = run ∧ row.eventName = name ∧ row.status = .fired ∧
    row.firedEvent = some event.id

def Present (db : SignalDb) (nodeRun : Nat) : Prop :=
  ∃ row ∈ db.subscriptions, row.id = signalSubscriptionID nodeRun

def Named (rows : WaitRows) (db : SignalDb) : Prop :=
  ∀ row ∈ db.subscriptions, row = rows.subscription row.nodeRun row.status row.firedEvent

/-- A committed fact the subscription should be woken by. -/
structure Awaited (rows : WaitRows) (db : SignalDb) (sub : SignalSubscription) (event : SignalEvent) :
    Prop where
  committed : event ∈ db.events
  shared : event.namespaceID = sub.namespaceID
  named : event.name = sub.eventName
  addressed : event.run = none ∨ event.run = some sub.run
  notOlder : (rows.run sub.run).createdAt ≤ event.createdAt
  newer : ∀ old ∈ db.events, db.Consumed sub.run sub.eventName old → old.order < event.order

/-- What no write takes back. -/
structure Later (db next : SignalDb) : Prop where
  events : ∀ event ∈ db.events, event ∈ next.events
  rows : ∀ row ∈ db.subscriptions, ∃ kept ∈ next.subscriptions, kept.id = row.id
  consumed : ∀ run name event, db.Consumed run name event → next.Consumed run name event

variable {db next : SignalDb} {sub row : SignalSubscription} {event : SignalEvent} {nodeRun : Nat}

theorem mem_firedWith {run : Nat} {name : String} :
    event ∈ db.firedWith run name ↔ event ∈ db.events ∧ db.Consumed run name event := by
  unfold firedWith Consumed
  simp only [List.mem_flatMap, List.mem_filter, Bool.and_eq_true, decide_eq_true_eq]
  constructor
  · rintro ⟨row, ⟨member, ⟨sameRun, sameName⟩, fired⟩, committed, by_⟩
    exact ⟨committed, row, member, sameRun, sameName, fired, by_⟩
  · rintro ⟨committed, row, member, sameRun, sameName, fired, by_⟩
    exact ⟨row, ⟨member, ⟨sameRun, sameName⟩, fired⟩, committed, by_⟩

theorem cursor_all {run : Nat} {name : String} :
    ((db.cursor run name).all fun newest => decide (newest.order < event.order)) = true ↔
      ∀ old ∈ db.firedWith run name, old.order < event.order := by
  unfold cursor
  cases newest : (db.firedWith run name).argmax SignalEvent.order with
  | none =>
      rw [List.argmax_eq_none] at newest
      simp [newest]
  | some top =>
      simp only [Option.all_some, decide_eq_true_eq]
      constructor
      · intro before old member
        exact lt_of_le_of_lt (List.le_of_mem_argmax member newest) before
      · intro before
        exact before top (List.argmax_mem newest)

theorem replayable_of_awaited (awaited : Awaited rows db (rows.subscription nodeRun .pending none) event) :
    db.replayable rows (rows.wait nodeRun) event = true := by
  have after := cursor_all.mpr fun old member =>
    awaited.newer old (mem_firedWith.mp member).1 (mem_firedWith.mp member).2
  have addressed : event.run.all (· = (rows.wait nodeRun).run) = true := by
    rcases awaited.addressed with everyone | own
    · rw [everyone]
      rfl
    · rw [own]
      exact decide_eq_true rfl
  unfold replayable
  simp only [Bool.and_eq_true, decide_eq_true_eq]
  exact ⟨⟨⟨⟨awaited.shared, awaited.named⟩, addressed⟩, awaited.notOlder⟩, after⟩

theorem not_awaited_of_scan (nothing : db.scanReplayCandidate rows (rows.wait nodeRun) = none) :
    ¬Awaited rows db (rows.subscription nodeRun .pending none) event := by
  intro awaited
  have empty := List.argmin_eq_none.mp nothing
  have found : event ∈ db.events.filter (db.replayable rows (rows.wait nodeRun)) :=
    List.mem_filter.mpr ⟨awaited.committed, replayable_of_awaited awaited⟩
  rw [empty] at found
  exact List.not_mem_nil found

theorem Awaited.earlier (awaited : Awaited rows next sub event) (later : Later db next)
    (committed : event ∈ db.events) : Awaited rows db sub event where
  committed := committed
  shared := awaited.shared
  named := awaited.named
  addressed := awaited.addressed
  notOlder := awaited.notOlder
  newer old member consumed :=
    awaited.newer old (later.events old member) (later.consumed _ _ _ consumed)

theorem Present.later (present : Present db nodeRun) (later : Later db next) :
    Present next nodeRun := by
  obtain ⟨row, member, same⟩ := present
  obtain ⟨kept, isKept, again⟩ := later.rows row member
  exact ⟨kept, isKept, again.trans same⟩

namespace Later

theorem refl (db : SignalDb) : Later db db :=
  ⟨fun _ member => member, fun row member => ⟨row, member, rfl⟩, fun _ _ _ consumed => consumed⟩

theorem trans {last : SignalDb} (first : Later db next) (second : Later next last) : Later db last where
  events event member := second.events event (first.events event member)
  rows row member := by
    obtain ⟨kept, isKept, same⟩ := first.rows row member
    obtain ⟨last, isLast, again⟩ := second.rows kept isKept
    exact ⟨last, isLast, again.trans same⟩
  consumed run name event consumed := second.consumed _ _ _ (first.consumed _ _ _ consumed)

theorem of_update {guard : SignalSubscription → Bool} {write : SignalSubscription → SignalSubscription}
    (events : next.events = db.events)
    (updated : next.subscriptions = Table.update db.subscriptions guard write)
    (pending : ∀ row, guard row = true → row.status = .pending)
    (ids : ∀ row, (write row).id = row.id) : Later db next where
  events event member := events ▸ member
  rows row member := by
    refine ⟨_, updated ▸ Table.mem_update_of_mem guard write member, ?_⟩
    split
    · exact ids row
    · rfl
  consumed run name event := by
    rintro ⟨row, member, sameRun, sameName, fired, isEvent⟩
    have passed : ¬guard row = true := by
      intro hit
      rw [pending row hit] at fired
      contradiction
    have kept := Table.mem_update_of_mem guard write member
    rw [if_neg passed, ← updated] at kept
    exact ⟨row, kept, sameRun, sameName, fired, isEvent⟩

theorem of_append {new : List SignalSubscription} {facts : List SignalEvent}
    (events : next.events = db.events ++ facts)
    (added : next.subscriptions = db.subscriptions ++ new) : Later db next where
  events event member := events ▸ List.mem_append_left _ member
  rows row member := ⟨row, added ▸ List.mem_append_left _ member, rfl⟩
  consumed run name event := by
    rintro ⟨row, member, facts⟩
    exact ⟨row, added ▸ List.mem_append_left _ member, facts⟩

end Later

theorem insertSubscription_events (row : SignalSubscription) :
    (db.apply rows (.insertSubscription row)).events = db.events := by
  simp only [apply]
  split <;> rfl

theorem insertSubscription_mem (absent : ¬Present db nodeRun) {status : Store.SubscriptionStatus}
    {firedEvent : Option Nat} : rows.subscription nodeRun status firedEvent ∈
      (db.apply rows (.insertSubscription
        (rows.subscription nodeRun status firedEvent))).subscriptions := by
  have free : ¬(db.subscriptions.any
      (·.id = (rows.subscription nodeRun status firedEvent).id)) = true := by
    intro there
    obtain ⟨row, member, same⟩ := List.any_eq_true.mp there
    exact absent ⟨row, member, of_decide_eq_true same⟩
  simp only [apply]
  rw [if_neg free]
  exact List.mem_append_right _ List.mem_cons_self

theorem apply_later (write : Write) : Later db (db.apply rows write) := by
  cases write with
  | insertEvent event => exact Later.of_append rfl (List.append_nil _).symm
  | insertSubscription row =>
      simp only [apply]
      split
      · exact Later.refl db
      · exact Later.of_append (List.append_nil _).symm rfl
  | fireSubscription id nodeRun event now =>
      refine Later.of_update rfl rfl ?_ (fun _ => rfl)
      intro row hit
      exact of_decide_eq_true (Bool.and_eq_true_iff.mp hit).2
  | parkWork claim => exact Later.of_append (List.append_nil _).symm (List.append_nil _).symm
  | retire run nodeRuns =>
      refine Later.of_update rfl rfl ?_ (fun _ => rfl)
      intro row hit
      exact of_decide_eq_true (Bool.and_eq_true_iff.mp hit).2

theorem foldl_later (writes : List Write) : Later db (writes.foldl (apply rows) db) := by
  induction writes generalizing db with
  | nil => exact Later.refl db
  | cons write rest ih => exact (apply_later write).trans ih

theorem apply_named {write : Write} (named : Named rows db)
    (inserts : ∀ row, write = .insertSubscription row →
      row = rows.subscription row.nodeRun row.status row.firedEvent) :
    Named rows (db.apply rows write) := by
  intro row member
  cases write with
  | insertEvent event => exact named row member
  | insertSubscription new =>
      simp only [apply] at member
      split at member
      · exact named row member
      · rcases List.mem_append.mp member with old | isNew
        · exact named row old
        · obtain rfl := List.mem_singleton.mp isNew
          exact inserts row rfl
  | fireSubscription id nodeRun event now =>
      obtain ⟨old, isOld, rfl⟩ := Table.mem_update.mp member
      split
      · exact congrArg (fun row : SignalSubscription =>
          { row with status := .fired, firedEvent := some event }) (named old isOld)
      · exact named old isOld
  | parkWork claim => exact named row member
  | retire run nodeRuns =>
      obtain ⟨old, isOld, rfl⟩ := Table.mem_update.mp member
      split
      · exact congrArg (fun row : SignalSubscription => { row with status := .canceled })
          (named old isOld)
      · exact named old isOld

theorem foldl_named {writes : List Write} (named : Named rows db)
    (inserts : ∀ row, .insertSubscription row ∈ writes →
      row = rows.subscription row.nodeRun row.status row.firedEvent) :
    Named rows (writes.foldl (apply rows) db) := by
  induction writes generalizing db with
  | nil => exact named
  | cons write rest ih =>
      apply ih (apply_named named fun row isRow => inserts row (isRow ▸ List.mem_cons_self))
      exact fun row member => inserts row (List.mem_cons_of_mem _ member)

theorem pending_of_apply {write : Write} (member : row ∈ (db.apply rows write).subscriptions)
    (pending : row.status = .pending) :
    row ∈ db.subscriptions ∨
      write = .insertSubscription row ∧ ∀ old ∈ db.subscriptions, old.id ≠ row.id := by
  cases write with
  | insertEvent event => exact Or.inl member
  | insertSubscription new =>
      simp only [apply] at member
      split at member
      · exact Or.inl member
      · rename_i absent
        rcases List.mem_append.mp member with old | isNew
        · exact Or.inl old
        · obtain rfl := List.mem_singleton.mp isNew
          refine Or.inr ⟨rfl, fun old isOld same => absent ?_⟩
          exact List.any_eq_true.mpr ⟨old, isOld, decide_eq_true same⟩
  | fireSubscription id nodeRun event now =>
      obtain ⟨old, isOld, rfl⟩ := Table.mem_update.mp member
      split at pending
      · contradiction
      · rename_i passed
        rw [if_neg passed]
        exact Or.inl isOld
  | parkWork claim => exact Or.inl member
  | retire run nodeRuns =>
      obtain ⟨old, isOld, rfl⟩ := Table.mem_update.mp member
      split at pending
      · contradiction
      · rename_i passed
        rw [if_neg passed]
        exact Or.inl isOld

theorem pending_of_fires {fired : List SignalSubscription} {event firedAt : Nat}
    (member : row ∈ ((fired.map fun hit => Write.fireSubscription hit.id hit.nodeRun event
      firedAt).foldl (apply rows) db).subscriptions) (pending : row.status = .pending) :
    row ∈ db.subscriptions ∧ ∀ hit ∈ fired, hit.id ≠ row.id := by
  induction fired generalizing db with
  | nil => exact ⟨member, fun hit isHit => absurd isHit List.not_mem_nil⟩
  | cons head rest ih =>
      obtain ⟨between, others⟩ := ih member
      obtain ⟨old, isOld, rfl⟩ := Table.mem_update.mp between
      split at pending
      · contradiction
      · rename_i passed
        rw [if_neg passed] at others ⊢
        refine ⟨isOld, List.forall_mem_cons.mpr ⟨fun same => passed ?_, others⟩⟩
        rw [← same, pending]
        simp

theorem fires_events {fired : List SignalSubscription} {event firedAt : Nat} :
    ((fired.map fun hit => Write.fireSubscription hit.id hit.nodeRun event firedAt).foldl
      (apply rows) db).events = db.events := by
  induction fired generalizing db with
  | nil => rfl
  | cons head rest ih => exact ih

theorem deliveryWrites_pending {fired : List SignalSubscription} {firedAt : Nat}
    (member : row ∈ ((SignalState.deliveryWrites event fired firedAt).foldl (apply rows)
      db).subscriptions) (pending : row.status = .pending) :
    row ∈ db.subscriptions ∧ ∀ hit ∈ fired, hit.id ≠ row.id := by
  rw [SignalState.deliveryWrites, List.foldl_cons] at member
  obtain ⟨old, others⟩ := pending_of_fires member pending
  exact ⟨old, others⟩

theorem deliveryWrites_events {fired : List SignalSubscription} {firedAt : Nat} :
    ((SignalState.deliveryWrites event fired firedAt).foldl (apply rows) db).events =
      db.events ++ [event] := by
  rw [SignalState.deliveryWrites, List.foldl_cons, fires_events]
  rfl

end SignalDb

/-- One moment of the history comes before another. -/
def Before (log : List Moment) (first second : Moment) : Prop := [first, second].Sublist log

/-- The fact fell between the probe and the delivery's next look at the run: it was appended after the
dispatch had probed, by a delivery that had picked its runs before the dispatch armed the subscription,
and that did not have the run among them or was over by then. -/
structure Overtakes (log : List Moment) (dispatch delivery : Nat) (runs : List Nat)
    (sub : SignalSubscription) (event : SignalEvent) : Prop where
  probed : Before log (.probed dispatch sub.nodeRun) (.appended delivery event.id)
  matched : Before log (.matched delivery runs) (.armed dispatch sub.nodeRun)
  missed : sub.run ∉ runs ∨
    Before log (.appended delivery event.id) (.armed dispatch sub.nodeRun)

namespace Before

variable {log : List Moment} {first second : Moment}

theorem append (before : Before log first second) (moments : List Moment) :
    Before (log ++ moments) first second :=
  before.trans (List.sublist_append_left log moments)

theorem last (member : first ∈ log) : Before (log ++ [second]) first second :=
  (List.singleton_sublist.mpr member).append (List.Sublist.refl [second])

theorem left_mem (before : Before log first second) : first ∈ log :=
  before.subset List.mem_cons_self

theorem right_mem (before : Before log first second) : second ∈ log :=
  before.subset (List.mem_cons_of_mem _ List.mem_cons_self)

end Before

theorem Overtakes.append {log : List Moment} {dispatch delivery : Nat} {runs : List Nat}
    {sub : SignalSubscription} {event : SignalEvent}
    (overtakes : Overtakes log dispatch delivery runs sub event) (moments : List Moment) :
    Overtakes (log ++ moments) dispatch delivery runs sub event where
  probed := overtakes.probed.append moments
  matched := overtakes.matched.append moments
  missed := overtakes.missed.imp_right (·.append moments)

namespace SignalState

open SignalDb (Awaited Later Named Present)

/-- The dispatch is between the start and the end of a transaction. -/
def locked : DispatchPhase → Bool
  | .probe | .arm _ | .replayed _ | .park | .parked => true
  | .lookup | .lockReplay | .lockPark => false

/-- The dispatch is on its way to park. -/
def parking : DispatchPhase → Bool
  | .lockPark | .park | .parked => true
  | .lookup | .lockReplay | .probe | .arm _ | .replayed _ => false

/-- The runs whose locks a process has taken where it stands. -/
def held (rows : WaitRows) : Process → List Nat
  | .dispatch nodeRun _ phase => if locked phase then [(rows.wait nodeRun).run] else []
  | .delivery _ _ _ .candidates => []
  | .delivery _ _ runs (.lockRuns remaining) => runs.filter (· ∉ remaining)
  | .delivery _ _ runs (.matched _) => runs
  | .delivery _ _ runs (.appended _ _ _) => runs
  | .retire _ _ .lock => []
  | .retire run _ _ => [run]

/-- What a process has written where it stands. -/
def written (rows : WaitRows) : Process → List Write
  | .dispatch nodeRun _ (.replayed event) =>
      [.insertSubscription (rows.subscription nodeRun .fired (some event.id))]
  | .dispatch nodeRun claim .parked =>
      [.parkWork claim, .insertSubscription (rows.subscription nodeRun .pending none)]
  | .delivery _ _ _ (.appended event fired firedAt) => deliveryWrites event fired firedAt
  | .retire run nodeRuns .written => [.retire run nodeRuns]
  | _ => []

/-- A dispatch parks when its subscription is there already, or when the facts it would be woken by
have all been appended since it probed. -/
def Parks (rows : WaitRows) (db : SignalDb) (log : List Moment) (id nodeRun : Nat) : Prop :=
  Present db nodeRun ∨
    .probed id nodeRun ∈ log ∧
      ∀ event, Awaited rows db (rows.subscription nodeRun .pending none) event →
        ∃ delivery runs, Before log (.matched delivery runs) (.appended delivery event.id) ∧
          Before log (.probed id nodeRun) (.appended delivery event.id)

/-- A subscription outside the runs a delivery has picked was armed after they were picked. -/
structure Picked (db : SignalDb) (log : List Moment) (id : Nat) (input : DeliverSignalEventInput)
    (runs : List Nat) : Prop where
  recorded : .matched id runs ∈ log
  unseen : ∀ row ∈ db.subscriptions, input.resumes row = true → row.run ∉ runs →
    ∀ dispatch, .armed dispatch row.nodeRun ∈ log →
      Before log (.matched id runs) (.armed dispatch row.nodeRun)

/-- The locked read still has everything that is pending in the runs. -/
def Covers (db : SignalDb) (input : DeliverSignalEventInput) (runs : List Nat)
    (fired : List SignalSubscription) : Prop :=
  ∀ row ∈ db.subscriptions, input.resumes row = true → row.run ∈ runs → ∃ hit ∈ fired, hit.id = row.id

/-- What holds of a process where it stands. -/
def Knows (rows : WaitRows) (db : SignalDb) (log : List Moment) (id : Nat) : Process → Prop
  | .dispatch nodeRun _ phase => parking phase = true → Parks rows db log id nodeRun
  | .delivery _ _ _ .candidates => True
  | .delivery input _ runs (.lockRuns _) => Picked db log id input runs
  | .delivery input _ runs (.matched fired) =>
      Picked db log id input runs ∧ Covers db input runs fired
  | .delivery input now runs (.appended event fired _) =>
      Picked db log id input runs ∧ Covers db input runs fired ∧ event = input.event event.id now
  | .retire _ _ _ => True

structure Stands (rows : WaitRows) (s : SignalState) (id : Nat) (txn : Txn Write Process) : Prop where
  held : ∀ run ∈ held rows txn.body, s.holder run = some id
  written : txn.writes = written rows txn.body
  knows : Knows rows s.db s.log id txn.body

structure Inv (rows : WaitRows) (s : SignalState) : Prop where
  stands : ∀ id txn, s.txns id = some txn → Stands rows s id txn
  named : Named rows s.db
  armed : ∀ dispatch nodeRun, .armed dispatch nodeRun ∈ s.log → Present s.db nodeRun
  parked : ∀ row ∈ s.db.subscriptions, row.status = .pending →
    ∃ dispatch, Before s.log (.probed dispatch row.nodeRun) (.armed dispatch row.nodeRun)
  overtaken : ∀ row ∈ s.db.subscriptions, row.status = .pending → ∀ event,
    Awaited rows s.db row event → ∃ dispatch delivery runs,
      Overtakes s.log dispatch delivery runs row event

/-- What one statement of a process leaves to the others: the history goes on, a fact is new only with
the moment it was appended at, and a pending row only with the moment it was armed at, under the lock
of its run. -/
structure Moved (rows : WaitRows) (s : SignalState) (id : Nat) (next : SignalState) : Prop where
  later : Later s.db next.db
  txns : ∀ other, other ≠ id → next.txns other = s.txns other
  holder : ∀ other run, other ≠ id → s.holder run = some other → next.holder run = some other
  log : ∃ moments, next.log = s.log ++ moments ∧ ∀ dispatch nodeRun, .armed dispatch nodeRun ∈ moments →
    ¬Present s.db nodeRun ∧ Present next.db nodeRun
  events : ∀ event ∈ next.db.events, event ∈ s.db.events ∨
    (∃ runs, .matched id runs ∈ s.log) ∧ next.log = s.log ++ [.appended id event.id]
  pending : ∀ row ∈ next.db.subscriptions, row.status = .pending → row ∈ s.db.subscriptions ∨
    s.holder row.run = some id ∧ next.log = s.log ++ [.armed id row.nodeRun] ∧
      ¬Present s.db row.nodeRun

section

variable {s next : SignalState} {id other : Nat} {input : DeliverSignalEventInput} {runs : List Nat}

theorem pending_of_resumes {row : SignalSubscription} (resumes : input.resumes row = true) :
    row.status = .pending := by
  unfold DeliverSignalEventInput.resumes at resumes
  simp only [Bool.and_eq_true, decide_eq_true_eq] at resumes
  exact resumes.1.2

theorem resumes_of_awaited {db : SignalDb} {row : SignalSubscription} {event : SignalEvent} {now : Nat}
    (made : event = input.event event.id now) (pending : row.status = .pending)
    (awaited : Awaited rows db row event) : input.resumes row = true := by
  have shared := awaited.shared
  have named := awaited.named
  have addressed := awaited.addressed
  rw [made] at shared named addressed
  have inScope : input.run.all (· = row.run) = true := by
    rcases addressed with everyone | own
    · rw [show input.run = none from everyone]
      rfl
    · rw [show input.run = some row.run from own]
      exact decide_eq_true rfl
  unfold DeliverSignalEventInput.resumes
  simp only [Bool.and_eq_true, decide_eq_true_eq]
  exact ⟨⟨⟨shared.symm, named.symm⟩, pending⟩, inScope⟩

theorem Inv.id_eq (inv : Inv rows s) {row : SignalSubscription} (member : row ∈ s.db.subscriptions) :
    row.id = signalSubscriptionID row.nodeRun := by
  rw [inv.named row member]
  rfl

theorem Moved.log_eq (moved : Moved rows s id next) : ∃ moments, next.log = s.log ++ moments := by
  obtain ⟨moments, grown, _⟩ := moved.log
  exact ⟨moments, grown⟩

theorem Moved.before (moved : Moved rows s id next) {first second : Moment}
    (before : Before s.log first second) : Before next.log first second := by
  obtain ⟨moments, grown⟩ := moved.log_eq
  rw [grown]
  exact before.append moments

theorem Moved.mem_log (moved : Moved rows s id next) {moment : Moment} (member : moment ∈ s.log) :
    moment ∈ next.log := by
  obtain ⟨moments, grown⟩ := moved.log_eq
  rw [grown]
  exact List.mem_append_left _ member

theorem Moved.armed_before (moved : Moved rows s id next) (inv : Inv rows s)
    {row : SignalSubscription} {dispatch : Nat} (member : row ∈ s.db.subscriptions)
    (armed : .armed dispatch row.nodeRun ∈ next.log) : .armed dispatch row.nodeRun ∈ s.log := by
  obtain ⟨moments, grown, fresh⟩ := moved.log
  rw [grown] at armed
  rcases List.mem_append.mp armed with old | new
  · exact old
  · exact absurd ⟨row, member, inv.id_eq member⟩ (fresh _ _ new).1

theorem Parks.moved {nodeRun : Nat} (parks : Parks rows s.db s.log other nodeRun)
    (moved : Moved rows s id next) : Parks rows next.db next.log other nodeRun := by
  rcases parks with present | ⟨probed, since⟩
  · exact Or.inl (present.later moved.later)
  · refine Or.inr ⟨moved.mem_log probed, fun event awaited => ?_⟩
    rcases moved.events event awaited.committed with old | ⟨⟨runs, picked⟩, ended⟩
    · obtain ⟨delivery, runs, appended, after⟩ := since event (awaited.earlier moved.later old)
      exact ⟨delivery, runs, moved.before appended, moved.before after⟩
    · rw [ended]
      exact ⟨id, runs, Before.last picked, Before.last probed⟩

theorem Picked.moved (picked : Picked s.db s.log other input runs) (inv : Inv rows s)
    (moved : Moved rows s id next) : Picked next.db next.log other input runs where
  recorded := moved.mem_log picked.recorded
  unseen row member resumes outside dispatch armed := by
    rcases moved.pending row member (pending_of_resumes resumes) with old | ⟨_, ended, fresh⟩
    · exact moved.before
        (picked.unseen row old resumes outside dispatch (moved.armed_before inv old armed))
    · rw [ended] at armed ⊢
      rcases List.mem_append.mp armed with before | now
      · exact absurd (inv.armed _ _ before) fresh
      · rw [List.mem_singleton.mp now]
        exact Before.last picked.recorded

/-- While a delivery holds the locks of its runs, nothing new is pending in them. -/
theorem Covers.moved {fired : List SignalSubscription} (covers : Covers s.db input runs fired)
    (moved : Moved rows s id next) (different : other ≠ id)
    (holds : ∀ run ∈ runs, s.holder run = some other) : Covers next.db input runs fired := by
  intro row member resumes inside
  rcases moved.pending row member (pending_of_resumes resumes) with old | ⟨taken, _⟩
  · exact covers row old resumes inside
  · rw [holds row.run inside] at taken
    exact absurd (Option.some.inj taken) different

theorem Stands.moved {txn : Txn Write Process} (stands : Stands rows s other txn) (inv : Inv rows s)
    (moved : Moved rows s id next) (different : other ≠ id) : Stands rows next other txn where
  held run member := moved.holder other run different (stands.held run member)
  written := stands.written
  knows := by
    obtain ⟨holds, _, knows⟩ := stands
    obtain ⟨writes, body⟩ := txn
    cases body with
    | dispatch nodeRun claim phase => exact fun goes => (knows goes).moved moved
    | delivery input now runs phase =>
        cases phase with
        | candidates => trivial
        | lockRuns remaining => exact knows.moved inv moved
        | matched fired => exact ⟨knows.1.moved inv moved, knows.2.moved moved different holds⟩
        | appended event fired firedAt =>
            exact ⟨knows.1.moved inv moved, knows.2.1.moved moved different holds, knows.2.2⟩
    | retire run nodeRuns phase => trivial

/-- A statement keeps the invariant when the process stands where it goes, new rows have the fields of
their node run, and what is new to a pending subscription overtook it. -/
theorem Inv.moved (inv : Inv rows s) (moved : Moved rows s id next)
    (own : ∀ txn, next.txns id = some txn → Stands rows next id txn)
    (named : Named rows next.db)
    (parked : ∀ row ∈ next.db.subscriptions, row.status = .pending → row ∉ s.db.subscriptions →
      .probed id row.nodeRun ∈ s.log)
    (overtaken : ∀ row ∈ next.db.subscriptions, row.status = .pending → ∀ event,
      Awaited rows next.db row event → row ∈ s.db.subscriptions ∧ event ∈ s.db.events ∨
        ∃ dispatch delivery runs, Overtakes next.log dispatch delivery runs row event) :
    Inv rows next where
  stands other txn inFlight := by
    by_cases same : other = id
    · subst same
      exact own txn inFlight
    · rw [moved.txns other same] at inFlight
      exact (inv.stands other txn inFlight).moved inv moved same
  named := named
  armed dispatch nodeRun armed := by
    obtain ⟨moments, grown, fresh⟩ := moved.log
    rw [grown] at armed
    rcases List.mem_append.mp armed with before | now
    · exact (inv.armed _ _ before).later moved.later
    · exact (fresh _ _ now).2
  parked row member pending := by
    by_cases old : row ∈ s.db.subscriptions
    · obtain ⟨dispatch, before⟩ := inv.parked row old pending
      exact ⟨dispatch, moved.before before⟩
    · rcases moved.pending row member pending with old' | ⟨_, ended, _⟩
      · exact absurd old' old
      · rw [ended]
        exact ⟨id, Before.last (parked row member pending old)⟩
  overtaken row member pending event awaited := by
    rcases overtaken row member pending event awaited with ⟨old, committed⟩ | found
    · obtain ⟨dispatch, delivery, runs, overtakes⟩ :=
        inv.overtaken row old pending event (awaited.earlier moved.later committed)
      obtain ⟨moments, grown⟩ := moved.log_eq
      rw [grown]
      exact ⟨dispatch, delivery, runs, overtakes.append moments⟩
    · exact found

theorem Moved.quiet {moments : List Moment} (sameRows : next.db.subscriptions = s.db.subscriptions)
    (sameEvents : next.db.events = s.db.events)
    (txns : ∀ other, other ≠ id → next.txns other = s.txns other)
    (holder : ∀ other run, other ≠ id → s.holder run = some other → next.holder run = some other)
    (log : next.log = s.log ++ moments)
    (unarmed : ∀ dispatch nodeRun, .armed dispatch nodeRun ∉ moments) : Moved rows s id next where
  later := Later.of_append (sameEvents.trans (List.append_nil _).symm)
    (sameRows.trans (List.append_nil _).symm)
  txns := txns
  holder := holder
  log := ⟨moments, log, fun dispatch nodeRun armed => absurd armed (unarmed dispatch nodeRun)⟩
  events _ member := Or.inl (sameEvents ▸ member)
  pending _ member _ := Or.inl (sameRows ▸ member)

theorem Inv.quiet (inv : Inv rows s) {entry : Option (Txn Write Process)} {moments : List Moment}
    (sameRows : next.db.subscriptions = s.db.subscriptions) (sameEvents : next.db.events = s.db.events)
    (txns : next.txns = Function.update s.txns id entry)
    (holder : ∀ other run, other ≠ id → s.holder run = some other → next.holder run = some other)
    (log : next.log = s.log ++ moments)
    (unarmed : ∀ dispatch nodeRun, .armed dispatch nodeRun ∉ moments)
    (own : ∀ txn, entry = some txn → Stands rows next id txn) : Inv rows next := by
  have moved : Moved rows s id next := by
    refine Moved.quiet sameRows sameEvents (fun other different => ?_) holder log unarmed
    rw [txns, Function.update_of_ne different]
  refine inv.moved moved ?_ ?_ ?_ ?_
  · intro txn inFlight
    rw [txns, Function.update_self] at inFlight
    exact own txn inFlight
  · intro row member
    exact inv.named row (sameRows ▸ member)
  · intro row member _ new
    exact absurd (sameRows ▸ member) new
  · intro row member _ event awaited
    exact Or.inl ⟨sameRows ▸ member, sameEvents ▸ awaited.committed⟩

variable {process : Process} {moments : List Moment} {writes : List Write} {nodeRun : Nat}
  {claim : Store.Claim}

theorem record_nil (s : SignalState) : s.record [] = s := by
  simp [record]

theorem put_record_inv (inv : Inv rows s)
    (unarmed : ∀ dispatch nodeRun, .armed dispatch nodeRun ∉ moments)
    (holds : ∀ run ∈ held rows process, s.holder run = some id)
    (wrote : writes = written rows process)
    (knows : Knows rows s.db (s.log ++ moments) id process) :
    Inv rows ((s.put id writes process).record moments) := by
  refine inv.quiet rfl rfl rfl (fun _ _ _ holds => holds) rfl unarmed ?_
  intro txn isTxn
  obtain rfl := Option.some.inj isTxn
  exact ⟨holds, wrote, knows⟩

theorem put_inv (inv : Inv rows s) (holds : ∀ run ∈ held rows process, s.holder run = some id)
    (wrote : writes = written rows process) (knows : Knows rows s.db s.log id process) :
    Inv rows (s.put id writes process) := by
  rw [← record_nil (s.put id writes process)]
  apply put_record_inv inv (fun _ _ => List.not_mem_nil) holds wrote
  rw [List.append_nil]
  exact knows

theorem leave_record_inv (inv : Inv rows s)
    (unarmed : ∀ dispatch nodeRun, .armed dispatch nodeRun ∉ moments) :
    Inv rows ((s.leave id).record moments) := by
  refine inv.quiet rfl rfl rfl ?_ rfl unarmed ?_
  · intro other run different holds
    exact (World.finish_other different run).mpr holds
  · intro txn isTxn
    contradiction

theorem leave_inv (inv : Inv rows s) : Inv rows (s.leave id) := by
  rw [← record_nil (s.leave id)]
  exact leave_record_inv inv fun _ _ => List.not_mem_nil

/-- The dispatch goes on without a lock from a transaction that is over. -/
theorem goPark_record_inv (inv : Inv rows s)
    (unarmed : ∀ dispatch nodeRun, .armed dispatch nodeRun ∉ moments)
    (parks : Parks rows s.db (s.log ++ moments) id nodeRun) :
    Inv rows ((s.goPark id nodeRun claim).record moments) := by
  refine inv.quiet rfl rfl (Function.update_idem _ _ _) ?_ rfl unarmed ?_
  · intro other run different holds
    exact (World.finish_other different run).mpr holds
  · intro txn isTxn
    obtain rfl := Option.some.inj isTxn
    exact ⟨fun run member => absurd member List.not_mem_nil, rfl, fun _ => parks⟩

theorem goPark_inv (inv : Inv rows s) (parks : Parks rows s.db s.log id nodeRun) :
    Inv rows (s.goPark id nodeRun claim) := by
  rw [← record_nil (s.goPark id nodeRun claim)]
  apply goPark_record_inv inv fun _ _ => List.not_mem_nil
  rw [List.append_nil]
  exact parks

theorem lockThen_inv {run : Nat} (inv : Inv rows s) (taken : s.lockThen id run process = some next)
    (holds : ∀ any ∈ held rows process, any = run ∨ s.holder any = some id)
    (unwritten : written rows process = []) (knows : Knows rows s.db s.log id process) :
    Inv rows next := by
  obtain ⟨world, acquired, rfl⟩ := Option.map_eq_some_iff.mp taken
  have takes := World.acquire_holds acquired
  have keeps : ∀ any, s.holder any = some id → world.holder any = some id :=
    fun any => World.acquire_keeps acquired
  have others : ∀ other any, other ≠ id → s.holder any = some other → world.holder any = some other :=
    fun other any different => (World.acquire_other acquired different any).mpr
  obtain ⟨_, rfl⟩ := World.acquire_eq_some acquired
  refine inv.quiet rfl rfl rfl others (List.append_nil _).symm (fun _ _ => List.not_mem_nil) ?_
  intro txn isTxn
  obtain rfl := Option.some.inj isTxn
  refine ⟨fun any member => ?_, unwritten.symm, knows⟩
  rcases holds any member with rfl | before
  · exact takes
  · exact keeps any before

theorem start_inv (inv : Inv rows s) (unlocked : held rows process = [])
    (unwritten : written rows process = []) (knows : Knows rows s.db s.log s.nextID process) :
    Inv rows (s.start process) := by
  refine inv.quiet rfl rfl rfl (fun _ _ _ holds => holds) (List.append_nil _).symm
    (fun _ _ => List.not_mem_nil) ?_
  intro txn isTxn
  obtain rfl := Option.some.inj isTxn
  refine ⟨fun run member => ?_, unwritten.symm, knows⟩
  rw [unlocked] at member
  exact absurd member List.not_mem_nil

theorem present_of_byID {db : SignalDb} {row : SignalSubscription}
    (found : db.subscriptionByID (signalSubscriptionID nodeRun) = some row) : Present db nodeRun := by
  have isRow := List.find?_some found
  exact ⟨row, List.mem_of_find?_eq_some found, of_decide_eq_true isRow⟩

theorem stepDispatch_inv {phase : DispatchPhase} (inv : Inv rows s)
    (stands : Stands rows s id ⟨writes, .dispatch nodeRun claim phase⟩)
    (taken : s.stepDispatch rows id nodeRun claim phase = some next) : Inv rows next := by
  obtain ⟨holds, _, knows⟩ := stands
  have unlocked : ∀ run, run ∈ ([] : List Nat) → s.holder run = some id :=
    fun _ member => absurd member List.not_mem_nil
  have own : ∀ run ∈ [(rows.wait nodeRun).run],
      run = (rows.wait nodeRun).run ∨ s.holder run = some id :=
    fun _ member => Or.inl (List.mem_singleton.mp member)
  cases phase with
  | lookup =>
      simp only [stepDispatch] at taken
      split at taken
      · cases taken
        exact put_inv inv unlocked rfl (fun parks => absurd parks Bool.false_ne_true)
      · rename_i row found
        split at taken
        · split at taken
          · cases taken
            exact leave_record_inv inv (by simp)
          · cases taken
            exact leave_inv inv
        · cases taken
          exact leave_inv inv
        · cases taken
          exact put_inv inv unlocked rfl (fun _ => Or.inl (present_of_byID found))
  | lockReplay => exact lockThen_inv inv taken own rfl (fun parks => absurd parks Bool.false_ne_true)
  | probe =>
      simp only [stepDispatch] at taken
      split at taken
      · rename_i nothing
        cases taken
        apply goPark_record_inv inv (by simp)
        refine Or.inr ⟨by simp, fun event awaited => ?_⟩
        exact absurd awaited (SignalDb.not_awaited_of_scan nothing)
      · cases taken
        exact put_inv inv holds rfl (fun parks => absurd parks Bool.false_ne_true)
  | arm event =>
      simp only [stepDispatch] at taken
      split at taken
      · cases taken
        exact put_inv inv holds rfl (fun parks => absurd parks Bool.false_ne_true)
      · rename_i row found
        split at taken
        · cases taken
          exact leave_record_inv inv (by simp)
        · cases taken
          exact goPark_inv inv (Or.inl (present_of_byID found))
  | replayed event => cases taken
  | lockPark => exact lockThen_inv inv taken own rfl knows
  | park =>
      simp only [stepDispatch] at taken
      split at taken
      · cases taken
        exact put_inv inv holds rfl knows
      · cases taken
        exact leave_inv inv
  | parked => cases taken

theorem stepDelivery_inv {now : Nat} {phase : DeliveryPhase} (inv : Inv rows s)
    (stands : Stands rows s id ⟨writes, .delivery input now runs phase⟩)
    (taken : s.stepDelivery id input now runs phase = some next) : Inv rows next := by
  obtain ⟨holds, _, knows⟩ := stands
  cases phase with
  | candidates => cases taken
  | lockRuns remaining =>
      cases remaining with
      | nil =>
          cases taken
          refine put_inv inv ?_ rfl ⟨knows, fun row member resumes inside => ⟨row, ?_, rfl⟩⟩
          · intro run member
            exact holds run (List.mem_filter.mpr ⟨member, by simp⟩)
          · exact List.mem_filter.mpr ⟨member, by simp [resumes, inside]⟩
      | cons run rest =>
          refine lockThen_inv inv taken ?_ rfl knows
          intro any member
          obtain ⟨inside, free⟩ := List.mem_filter.mp member
          by_cases same : any = run
          · exact Or.inl same
          · refine Or.inr (holds any (List.mem_filter.mpr ⟨inside, ?_⟩))
            simpa [same] using free
  | matched fired => cases taken
  | appended event fired firedAt => cases taken

theorem stepRetire_inv {run : Nat} {nodeRuns : Option (List Nat)} {phase : RetirePhase}
    (inv : Inv rows s) (stands : Stands rows s id ⟨writes, .retire run nodeRuns phase⟩)
    (taken : s.stepRetire id run nodeRuns phase = some next) : Inv rows next := by
  cases phase with
  | lock => exact lockThen_inv inv taken (fun _ member => Or.inl (List.mem_singleton.mp member)) rfl trivial
  | write =>
      cases taken
      exact put_inv inv stands.held rfl trivial
  | written => cases taken

theorem readCandidates_inv {routeRuns : List Nat} (inv : Inv rows s)
    (taken : s.readCandidates id routeRuns process = some next) : Inv rows next := by
  unfold readCandidates at taken
  split at taken
  · rename_i input now _
    cases taken
    refine put_record_inv inv (by simp) ?_ rfl ⟨by simp, ?_⟩
    · intro run member
      simp [held] at member
    · intro row member resumes outside
      refine absurd ?_ outside
      have candidate : row ∈ s.db.selectCandidateSubscriptions input :=
        List.mem_filter.mpr ⟨member, resumes⟩
      rw [sortedRunIDs, List.mem_insertionSort, List.mem_dedup]
      exact List.mem_append_left _ (List.mem_map_of_mem candidate)
  · cases taken

theorem append_inv {ulid firedAt : Nat} (inv : Inv rows s) (stands : Stands rows s id ⟨writes, process⟩)
    (taken : s.append id ulid firedAt process = some next) : Inv rows next := by
  unfold append at taken
  split at taken
  · split at taken
    · cases taken
    · cases taken
      obtain ⟨holds, _, picked, covers⟩ := stands
      refine inv.quiet rfl rfl rfl (fun _ _ _ holds => holds) (List.append_nil _).symm
        (fun _ _ => List.not_mem_nil) ?_
      intro txn isTxn
      obtain rfl := Option.some.inj isTxn
      exact ⟨holds, rfl, picked, covers, rfl⟩
  · cases taken

def committed (rows : WaitRows) (s : SignalState) (id : Nat) (txn : Txn Write Process)
    (moments : List Moment) : SignalState :=
  { s with
    toWorld := s.toWorld.commit (SignalDb.apply rows) id txn
    log := s.log ++ moments }

/-- What is left to show of a commit, whatever has been written. -/
theorem committed_inv {txn : Txn Write Process} (inv : Inv rows s)
    (inserts : ∀ row, .insertSubscription row ∈ txn.writes →
      row = rows.subscription row.nodeRun row.status row.firedEvent)
    (armed : ∀ dispatch nodeRun, .armed dispatch nodeRun ∈ moments →
      ¬Present s.db nodeRun ∧ Present (committed rows s id txn moments).db nodeRun)
    (events : ∀ event ∈ (committed rows s id txn moments).db.events, event ∈ s.db.events ∨
      (∃ runs, .matched id runs ∈ s.log) ∧ moments = [.appended id event.id])
    (pending : ∀ row ∈ (committed rows s id txn moments).db.subscriptions, row.status = .pending →
      row ∈ s.db.subscriptions ∨ s.holder row.run = some id ∧ moments = [.armed id row.nodeRun] ∧
        ¬Present s.db row.nodeRun ∧ .probed id row.nodeRun ∈ s.log)
    (overtaken : ∀ row ∈ (committed rows s id txn moments).db.subscriptions, row.status = .pending →
      ∀ event, Awaited rows (committed rows s id txn moments).db row event →
        row ∈ s.db.subscriptions ∧ event ∈ s.db.events ∨
          ∃ dispatch delivery runs, Overtakes (s.log ++ moments) dispatch delivery runs row event) :
    Inv rows (committed rows s id txn moments) := by
  have moved : Moved rows s id (committed rows s id txn moments) := {
    later := SignalDb.foldl_later txn.writes
    txns := fun other different => Function.update_of_ne different _ _
    holder := fun other run different => (World.finish_other different run).mpr
    log := ⟨moments, rfl, armed⟩
    events := fun event member => (events event member).imp_right fun new =>
      ⟨new.1, congrArg (s.log ++ ·) new.2⟩
    pending := fun row member isPending => (pending row member isPending).imp_right fun new =>
      ⟨new.1, congrArg (s.log ++ ·) new.2.1, new.2.2.1⟩ }
  have gone : (committed rows s id txn moments).txns id = none := Function.update_self ..
  refine inv.moved moved ?_ (SignalDb.foldl_named inv.named inserts) ?_ overtaken
  · intro txn inFlight
    rw [gone] at inFlight
    contradiction
  · intro row member isPending new
    rcases pending row member isPending with old | ⟨_, _, _, probed⟩
    · exact absurd old new
    · exact probed

theorem committed_still_inv {txn : Txn Write Process} (inv : Inv rows s)
    (inserts : ∀ row, .insertSubscription row ∈ txn.writes →
      row = rows.subscription row.nodeRun row.status row.firedEvent)
    (unarmed : ∀ dispatch nodeRun, .armed dispatch nodeRun ∉ moments)
    (sameEvents : (committed rows s id txn moments).db.events = s.db.events)
    (old : ∀ row ∈ (committed rows s id txn moments).db.subscriptions, row.status = .pending →
      row ∈ s.db.subscriptions) : Inv rows (committed rows s id txn moments) := by
  apply committed_inv inv inserts
  · intro dispatch nodeRun armed
    exact absurd armed (unarmed dispatch nodeRun)
  · intro event member
    exact Or.inl (sameEvents ▸ member)
  · intro row member pending
    exact Or.inl (old row member pending)
  · intro row member pending event awaited
    exact Or.inl ⟨old row member pending, sameEvents ▸ awaited.committed⟩

theorem replayed_inv {event : SignalEvent} (inv : Inv rows s) :
    Inv rows (committed rows s id ⟨written rows (.dispatch nodeRun claim (.replayed event)),
      .dispatch nodeRun claim (.replayed event)⟩ [.completed id nodeRun event.id]) := by
  have db_eq : (written rows (.dispatch nodeRun claim (.replayed event))).foldl (SignalDb.apply rows)
      s.db = s.db.apply rows
        (.insertSubscription (rows.subscription nodeRun .fired (some event.id))) := rfl
  apply committed_still_inv inv
  · intro row member
    rw [Write.insertSubscription.inj (List.mem_singleton.mp member)]
    rfl
  · simp
  · simp only [committed, World.commit, World.view, db_eq]
    exact SignalDb.insertSubscription_events _
  · intro row member pending
    simp only [committed, World.commit, World.view, db_eq] at member
    rcases SignalDb.pending_of_apply member pending with old | ⟨inserted, _⟩
    · exact old
    · rw [← Write.insertSubscription.inj inserted] at pending
      contradiction

theorem retired_inv {run : Nat} {nodeRuns : Option (List Nat)} (inv : Inv rows s) :
    Inv rows (committed rows s id ⟨written rows (.retire run nodeRuns .written),
      .retire run nodeRuns .written⟩ []) := by
  have db_eq : (written rows (.retire run nodeRuns .written)).foldl (SignalDb.apply rows) s.db =
      s.db.apply rows (.retire run nodeRuns) := rfl
  apply committed_still_inv inv
  · intro row member
    cases List.mem_singleton.mp member
  · simp
  · rfl
  · intro row member pending
    simp only [committed, World.commit, World.view, db_eq] at member
    rcases SignalDb.pending_of_apply member pending with old | ⟨inserted, _⟩
    · exact old
    · cases inserted

theorem present_iff {db : SignalDb} :
    (db.subscriptions.any (·.id = signalSubscriptionID nodeRun)) = true ↔ Present db nodeRun := by
  simp [Present]

theorem parked_inv (inv : Inv rows s)
    (stands : Stands rows s id ⟨writes, .dispatch nodeRun claim .parked⟩) :
    Inv rows (committed rows s id ⟨written rows (.dispatch nodeRun claim .parked),
      .dispatch nodeRun claim .parked⟩
      (if s.db.subscriptions.any (·.id = signalSubscriptionID nodeRun) then []
        else [.armed id nodeRun])) := by
  have db_eq : (written rows (.dispatch nodeRun claim .parked)).foldl (SignalDb.apply rows) s.db =
      (s.db.apply rows (.parkWork claim)).apply rows
        (.insertSubscription (rows.subscription nodeRun .pending none)) := rfl
  have sameEvents : ((s.db.apply rows (.parkWork claim)).apply rows
      (.insertSubscription (rows.subscription nodeRun .pending none))).events = s.db.events :=
    SignalDb.insertSubscription_events _
  have inserts : ∀ row, .insertSubscription row ∈ written rows (.dispatch nodeRun claim .parked) →
      row = rows.subscription row.nodeRun row.status row.firedEvent := by
    intro row member
    rcases List.mem_cons.mp member with other | inserted
    · cases other
    · rw [Write.insertSubscription.inj (List.mem_singleton.mp inserted)]
      rfl
  split
  · rename_i there
    apply committed_still_inv inv inserts
    · simp
    · exact sameEvents
    · intro row member pending
      simp only [committed, World.commit, World.view, db_eq] at member
      rcases SignalDb.pending_of_apply member pending with old | ⟨inserted, absent⟩
      · exact old
      · obtain ⟨old, isOld, same⟩ := present_iff.mp there
        rw [← Write.insertSubscription.inj inserted] at absent
        exact absurd same (absent old isOld)
  · rename_i free
    have absent : ¬Present s.db nodeRun := fun there => free (present_iff.mpr there)
    obtain ⟨probed, since⟩ := (stands.knows rfl).resolve_left absent
    have holds : s.holder (rows.wait nodeRun).run = some id :=
      stands.held _ List.mem_cons_self
    have armed : ∀ row ∈ (committed rows s id ⟨written rows (.dispatch nodeRun claim .parked),
        .dispatch nodeRun claim .parked⟩ [.armed id nodeRun]).db.subscriptions,
        row.status = .pending →
        row ∈ s.db.subscriptions ∨ row = rows.subscription nodeRun .pending none := by
      intro row member pending
      simp only [committed, World.commit, World.view, db_eq] at member
      rcases SignalDb.pending_of_apply member pending with old | ⟨inserted, _⟩
      · exact Or.inl old
      · exact Or.inr (Write.insertSubscription.inj inserted).symm
    apply committed_inv inv inserts
    · intro dispatch armedRun member
      obtain ⟨_, rfl⟩ := Moment.armed.inj (List.mem_singleton.mp member)
      refine ⟨absent, rows.subscription armedRun .pending none, ?_, rfl⟩
      simp only [committed, World.commit, World.view, db_eq]
      have free : ¬Present (s.db.apply rows (.parkWork claim)) armedRun := absent
      exact SignalDb.insertSubscription_mem free
    · intro event member
      exact Or.inl (sameEvents ▸ member)
    · intro row member pending
      rcases armed row member pending with old | rfl
      · exact Or.inl old
      · exact Or.inr ⟨holds, rfl, absent, probed⟩
    · intro row member pending event awaited
      have committedBefore : event ∈ s.db.events := sameEvents ▸ awaited.committed
      rcases armed row member pending with old | rfl
      · exact Or.inl ⟨old, committedBefore⟩
      · obtain ⟨delivery, runs, appended, after⟩ :=
          since event (awaited.earlier (SignalDb.foldl_later _) committedBefore)
        exact Or.inr ⟨id, delivery, runs, after.append _, Before.last appended.left_mem,
          Or.inr (Before.last appended.right_mem)⟩

theorem delivered_inv {now firedAt : Nat} {event : SignalEvent} {fired : List SignalSubscription}
    (inv : Inv rows s)
    (stands : Stands rows s id ⟨writes, .delivery input now runs (.appended event fired firedAt)⟩) :
    Inv rows (committed rows s id ⟨deliveryWrites event fired firedAt,
      .delivery input now runs (.appended event fired firedAt)⟩ [.appended id event.id]) := by
  obtain ⟨_, _, picked, covers, made⟩ := stands
  apply committed_inv inv
  · intro row member
    rcases List.mem_cons.mp member with other | fires
    · cases other
    · obtain ⟨hit, _, other⟩ := List.mem_map.mp fires
      cases other
  · simp
  · intro fact member
    simp only [committed, World.commit, World.view, SignalDb.deliveryWrites_events] at member
    rcases List.mem_append.mp member with old | new
    · exact Or.inl old
    · rw [List.mem_singleton.mp new]
      exact Or.inr ⟨⟨runs, picked.recorded⟩, rfl⟩
  · intro row member pending
    exact Or.inl (SignalDb.deliveryWrites_pending member pending).1
  · intro row member pending fact awaited
    obtain ⟨old, missed⟩ := SignalDb.deliveryWrites_pending member pending
    have committedFact := awaited.committed
    simp only [committed, World.commit, World.view, SignalDb.deliveryWrites_events] at committedFact
    rcases List.mem_append.mp committedFact with before | new
    · exact Or.inl ⟨old, before⟩
    · obtain rfl := List.mem_singleton.mp new
      have resumes : input.resumes row = true := resumes_of_awaited made pending awaited
      have outside : row.run ∉ runs := by
        intro inside
        obtain ⟨hit, isHit, same⟩ := covers row old resumes inside
        exact missed hit isHit same
      obtain ⟨dispatch, parked⟩ := inv.parked row old pending
      have unseen := picked.unseen row old resumes outside dispatch parked.right_mem
      exact Or.inr ⟨dispatch, id, runs, Before.last parked.left_mem, unseen.append _,
        Or.inl outside⟩

theorem work_inv (inv : Inv rows s) (items : List Store.WorkItem) :
    Inv rows { s with db := { s.db with items := items } } := by
  have moved : ∀ id, Moved rows s id { s with db := { s.db with items := items } } := fun id =>
    Moved.quiet rfl rfl (fun _ _ => rfl) (fun _ _ _ holds => holds) (List.append_nil _).symm
      (fun _ _ => List.not_mem_nil)
  constructor
  · intro other txn inFlight
    exact (inv.stands other txn inFlight).moved inv (moved (other + 1)) (Nat.ne_of_lt other.lt_succ_self)
  · exact inv.named
  · exact inv.armed
  · exact inv.parked
  · intro row member pending event awaited
    exact inv.overtaken row member pending event (awaited.earlier (moved 0).later awaited.committed)

theorem commit_inv {txn : Txn Write Process} (inv : Inv rows s) (inFlight : s.txns id = some txn)
    (came : s.moments id txn.body = some moments) : Inv rows (committed rows s id txn moments) := by
  have stands := inv.stands id txn inFlight
  obtain ⟨writes, body⟩ := txn
  have wrote : writes = written rows body := stands.written
  cases body with
  | dispatch nodeRun claim phase =>
      cases phase with
      | replayed event =>
          cases came
          subst wrote
          exact replayed_inv inv
      | parked =>
          cases came
          subst wrote
          exact parked_inv inv stands
      | lookup | lockReplay | probe | arm | lockPark | park => cases came
  | delivery input now runs phase =>
      cases phase with
      | appended event fired firedAt =>
          cases came
          subst wrote
          exact delivered_inv inv stands
      | candidates | lockRuns | matched => cases came
  | retire run nodeRuns phase =>
      cases phase with
      | written =>
          cases came
          subst wrote
          exact retired_inv inv
      | lock | write => cases came

theorem advance_inv {txn : Txn Write Process} (inv : Inv rows s) (inFlight : s.txns id = some txn)
    (taken : s.advance rows id txn.body = some next) : Inv rows next := by
  have stands := inv.stands id txn inFlight
  obtain ⟨writes, body⟩ := txn
  cases body with
  | dispatch nodeRun claim phase => exact stepDispatch_inv inv stands taken
  | delivery input now runs phase => exact stepDelivery_inv inv stands taken
  | retire run nodeRuns phase => exact stepRetire_inv inv stands taken

theorem act_inv {action : Action} (inv : Inv rows s) (taken : s.act rows action = some next) :
    Inv rows next := by
  cases action with
  | dispatch nodeRun claim =>
      cases taken
      exact start_inv inv rfl rfl (fun parks => absurd parks Bool.false_ne_true)
  | deliver input now =>
      simp only [act] at taken
      split at taken
      · cases taken
      · cases taken
        exact start_inv inv rfl rfl trivial
  | cancel run nodeRuns =>
      cases taken
      exact start_inv inv rfl rfl trivial
  | advance process =>
      obtain ⟨txn, inFlight, goes⟩ := Option.bind_eq_some_iff.mp taken
      exact advance_inv inv inFlight goes
  | readCandidates process routeRuns =>
      obtain ⟨txn, _, goes⟩ := Option.bind_eq_some_iff.mp taken
      exact readCandidates_inv inv goes
  | append process event firedAt =>
      obtain ⟨txn, inFlight, goes⟩ := Option.bind_eq_some_iff.mp taken
      exact append_inv inv (inv.stands process txn inFlight) goes
  | commit process =>
      obtain ⟨txn, inFlight, goes⟩ := Option.bind_eq_some_iff.mp taken
      obtain ⟨moments, came, rfl⟩ := Option.map_eq_some_iff.mp goes
      exact commit_inv inv inFlight came
  | abort process =>
      obtain ⟨txn, _, rfl⟩ := Option.map_eq_some_iff.mp taken
      exact leave_inv inv
  | work items =>
      cases taken
      exact work_inv inv items

theorem initial_inv : Inv rows initial where
  stands id txn inFlight := by cases inFlight
  named row member := by cases member
  armed dispatch nodeRun member := by cases member
  parked row member := by cases member
  overtaken row member := by cases member

theorem Reachable.inv (reached : Reachable rows s) : Inv rows s :=
  Steps.invariant (Inv rows) initial_inv (fun _ _ _ inv _ taken => act_inv inv taken) reached

end

/-- One run whose only wait is for the signal `go`. -/
def goRows : WaitRows where
  run _ := { namespaceID := "home", createdAt := 0 }
  wait _ := { run := 0, eventName := "go" }

def goClaim : Store.Claim where
  work := 0
  worker := "worker"
  fencingToken := 1
  attempt := 1

def goItem : Store.WorkItem where
  id := 0
  nodeRun := 0
  state := .leased
  leaseOwner := some "worker"
  fencingToken := 1
  attempt := 1
  availableAt := 0

def goInput : DeliverSignalEventInput where
  namespaceID := "home"
  name := "go"
  emitter := "deploy"

/-- The wait parks between the two reads of a delivery. -/
def goActions : List Action :=
  [.work [goItem], .dispatch 0 goClaim, .advance 0, .advance 0, .advance 0,
    .deliver goInput 5, .readCandidates 1 [],
    .advance 0, .advance 0, .commit 0,
    .advance 1, .append 1 7 6, .commit 1]

def goFact : SignalEvent := goInput.event 7 5

theorem goActions_run : ∃ s, Reachable goRows s ∧ s.Quiescent ∧ s.db.events = [goFact] ∧
    s.db.subscriptions = [goRows.subscription 0 .pending none] := by
  have ran : (Steps.ofList (act goRows) (fun _ _ => true) initial goActions).map
      (fun s => (s.db.events, s.db.subscriptions,
        (List.range s.nextID).all fun id => (s.txns id).isNone)) =
      some ([goFact], [goRows.subscription 0 .pending none], true) := by
    decide +kernel
  obtain ⟨s, reached, seen⟩ := Steps.reaches_of_ofList (fun _ _ _ => trivial) ran
  obtain ⟨events, rest⟩ := Prod.mk.inj seen
  obtain ⟨subscriptions, unheld⟩ := Prod.mk.inj rest
  refine ⟨s, reached, ?_, events, subscriptions⟩
  intro id begun
  have ended := List.all_eq_true.mp unheld id (List.mem_range.mpr begun)
  exact Option.isNone_iff_eq_none.mp ended

theorem goFact_awaited {db : SignalDb} (events : db.events = [goFact])
    (subscriptions : db.subscriptions = [goRows.subscription 0 .pending none]) :
    Awaited goRows db (goRows.subscription 0 .pending none) goFact where
  committed := events ▸ List.mem_cons_self
  shared := rfl
  named := rfl
  addressed := Or.inl rfl
  notOlder := Nat.zero_le _
  newer old _ consumed := by
    obtain ⟨row, member, _, _, fired, _⟩ := consumed
    rw [subscriptions] at member
    rw [List.mem_singleton.mp member] at fired
    exact absurd fired (by decide)

/-- A fact a pending subscription waits for was appended after its dispatch had probed, by a delivery
that had picked its runs before the subscription was armed. -/
theorem awaited_overtakes {s : SignalState} (reached : Reachable rows s) {sub : SignalSubscription}
    (member : sub ∈ s.db.subscriptions) (pending : sub.status = .pending) {event : SignalEvent}
    (awaited : Awaited rows s.db sub event) :
    ∃ dispatch delivery runs, Overtakes s.log dispatch delivery runs sub event :=
  reached.inv.overtaken sub member pending event awaited

theorem awaited_overtakes_go : ∃ s, Reachable goRows s ∧
    goRows.subscription 0 .pending none ∈ s.db.subscriptions ∧
    Awaited goRows s.db (goRows.subscription 0 .pending none) goFact ∧
    ∃ dispatch delivery runs,
      Overtakes s.log dispatch delivery runs (goRows.subscription 0 .pending none) goFact := by
  obtain ⟨s, reached, _, events, subscriptions⟩ := goActions_run
  have member : goRows.subscription 0 .pending none ∈ s.db.subscriptions :=
    subscriptions ▸ List.mem_cons_self
  have awaited := goFact_awaited events subscriptions
  exact ⟨s, reached, member, awaited, awaited_overtakes reached member rfl awaited⟩

/-- The delivery has picked its runs when the wait parks, and its fact wakes nobody. -/
theorem wake_up_lost :
    ¬∀ (rows : WaitRows) (s : SignalState), Reachable rows s → s.Quiescent →
      ∀ sub ∈ s.db.subscriptions, sub.status = .pending → ∀ event, ¬Awaited rows s.db sub event := by
  intro always
  obtain ⟨s, reached, quiet, events, subscriptions⟩ := goActions_run
  have member : goRows.subscription 0 .pending none ∈ s.db.subscriptions :=
    subscriptions ▸ List.mem_cons_self
  exact always goRows s reached quiet _ member rfl goFact (goFact_awaited events subscriptions)

end SignalState
end CultureNodes.Signal
