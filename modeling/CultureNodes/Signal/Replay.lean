import CultureNodes.Signal.WakeUp

/-!
Which facts fire which subscriptions. The history of a run has every subscription as it was fired, with
the process that committed it: a delivery of a fact, or a dispatch that caught up on one. The cursor is
read from the fired subscriptions under the run's lock, and whoever fires a subscription of the run holds
that lock, so what a dispatch has found newer than the cursor stays newer until it commits.
-/

namespace CultureNodes.Signal

variable {rows : WaitRows}

/-- A subscription as it was fired, and the process that was committed with it. -/
structure Firing where
  row : SignalSubscription
  process : Option Process
deriving DecidableEq, Repr

namespace Firing

def replayed (firing : Firing) : Bool :=
  match firing.process with
  | some (.dispatch _ _ _) => true
  | _ => false

def delivered (firing : Firing) : Bool :=
  match firing.process with
  | some (.delivery _ _ _ _) => true
  | _ => false

theorem not_replayed_of_delivered {firing : Firing} (delivered : firing.delivered = true) :
    firing.replayed = false := by
  obtain ⟨row, process⟩ := firing
  unfold Firing.delivered at delivered
  split at delivered
  · rename_i isDelivery
    obtain rfl : process = _ := isDelivery
    rfl
  · cases delivered

end Firing

namespace SignalDb

/-- The fired subscriptions of a database that were not there, or not so, in one before. -/
def newlyFired (before after : SignalDb) : List SignalSubscription :=
  after.subscriptions.filter fun row => row.status = .fired && decide (row ∉ before.subscriptions)

end SignalDb

/-- The fact is one the subscription's run may catch up on. -/
structure CatchesUp (rows : WaitRows) (row : SignalSubscription) (event : SignalEvent) : Prop where
  shared : event.namespaceID = row.namespaceID
  named : event.name = row.eventName
  addressed : event.run = none ∨ event.run = some row.run
  notOlder : (rows.run row.run).createdAt ≤ event.createdAt

namespace SignalState

def committing (s : SignalState) : Action → Option Process
  | .commit id => (s.txns id).map (·.body)
  | _ => none

/-- What a step fires. -/
def firings (s : SignalState) (action : Action) (next : SignalState) : List Firing :=
  (SignalDb.newlyFired s.db next.db).map fun row => ⟨row, s.committing action⟩

def actTraced (rows : WaitRows) (run : SignalState × List Firing) (action : Action) :
    Option (SignalState × List Firing) :=
  (run.1.act rows action).map fun next => (next, run.2 ++ run.1.firings action next)

/-- The states the protocol reaches, with the history of what was fired. -/
def Traced (rows : WaitRows) (s : SignalState) (history : List Firing) : Prop :=
  Steps (fun run action next => actTraced rows run action = some next) anyAction (initial, [])
    (s, history)

end SignalState

namespace SignalDb

variable {db next : SignalDb} {row : SignalSubscription} {event : SignalEvent} {nodeRun : Nat}

/-- A fired row names a committed fact of its name, and no id is taken twice. -/
structure Sound (db : SignalDb) : Prop where
  ids : (db.subscriptions.map SignalSubscription.id).Nodup
  facts : (db.events.map SignalEvent.id).Nodup
  fired : ∀ row ∈ db.subscriptions, row.status = .fired →
    ∃ event ∈ db.events, row.firedEvent = some event.id ∧ event.name = row.eventName

/-- The fact is newer than everything the node run's run has consumed for the name. -/
structure Replays (rows : WaitRows) (db : SignalDb) (nodeRun : Nat) (event : SignalEvent) : Prop where
  committed : event ∈ db.events
  catchesUp : CatchesUp rows (rows.subscription nodeRun .fired (some event.id)) event
  newest : ∀ old ∈ db.firedWith (rows.wait nodeRun).run (rows.wait nodeRun).eventName,
    old.order < event.order

theorem Sound.fact (sound : Sound db) (member : event ∈ db.events) (fired : row.status = .fired)
    (names : row.firedEvent = some event.id) : db.resumedBy row = some event := by
  have found : db.eventByID event.id = some event := by
    cases lookup : db.eventByID event.id with
    | none =>
        have absent := List.find?_eq_none.mp lookup event member
        exact absurd (decide_eq_true rfl) absent
    | some other =>
        have isNamed := List.find?_some lookup
        have same : other.id = event.id := of_decide_eq_true isNamed
        rw [Table.eq_of_key sound.facts (List.mem_of_find?_eq_some lookup) member same]
  unfold resumedBy
  rw [if_pos fired, names]
  exact found

theorem replays_of_scan (found : db.scanReplayCandidate rows (rows.wait nodeRun) = some event) :
    Replays rows db nodeRun event := by
  have member := List.argmin_mem found
  obtain ⟨committed, meets⟩ := List.mem_filter.mp member
  unfold replayable at meets
  simp only [Bool.and_eq_true, decide_eq_true_eq] at meets
  obtain ⟨⟨⟨⟨shared, named⟩, addressed⟩, notOlder⟩, newest⟩ := meets
  refine ⟨committed, ⟨shared, named, ?_, notOlder⟩, cursor_all.mp newest⟩
  cases target : event.run with
  | none => exact Or.inl rfl
  | some run =>
      rw [target, Option.all_some] at addressed
      exact Or.inr (congrArg some (of_decide_eq_true addressed))

/-- The locked read of a delivery found rows of its runs and its name. -/
def Matched (db : SignalDb) (input : DeliverSignalEventInput) (runs : List Nat)
    (fired : List SignalSubscription) : Prop :=
  ∀ hit ∈ fired, ∃ row ∈ db.subscriptions,
    row.id = hit.id ∧ row.run ∈ runs ∧ row.eventName = input.name

/-- The row of a subscription the delivery has found, fired with its fact. -/
def Spent (db : SignalDb) (fired : List SignalSubscription) (event : SignalEvent)
    (row : SignalSubscription) : Prop :=
  ∃ hit ∈ fired, ∃ old ∈ db.subscriptions, old.id = hit.id ∧
    row = { old with status := .fired, firedEvent := some event.id }

/-- What a commit does to the subscriptions: `spent` are the rows it fires. -/
structure Fires (db next : SignalDb) (facts : List SignalEvent) (spent : SignalSubscription → Prop) :
    Prop where
  events : next.events = db.events ++ facts
  ids : (db.subscriptions.map SignalSubscription.id).Nodup →
    (next.subscriptions.map SignalSubscription.id).Nodup
  kept : ∀ row ∈ db.subscriptions, ∃ kept ∈ next.subscriptions,
    kept.id = row.id ∧ kept.run = row.run ∧ kept.eventName = row.eventName
  stays : ∀ row ∈ db.subscriptions, row.status = .fired → row ∈ next.subscriptions
  fired : ∀ row ∈ next.subscriptions, row.status = .fired → row ∈ db.subscriptions ∨ spent row

namespace Fires

variable {facts : List SignalEvent} {spent : SignalSubscription → Prop}

theorem of_same (events : next.events = db.events ++ facts)
    (sameRows : next.subscriptions = db.subscriptions) : Fires db next facts spent where
  events := events
  ids distinct := sameRows ▸ distinct
  kept row member := ⟨row, sameRows ▸ member, rfl, rfl, rfl⟩
  stays _ member _ := sameRows ▸ member
  fired _ member _ := Or.inl (sameRows ▸ member)

theorem of_update {guard : SignalSubscription → Bool} {write : SignalSubscription → SignalSubscription}
    (events : next.events = db.events)
    (updated : next.subscriptions = Table.update db.subscriptions guard write)
    (pending : ∀ row, guard row = true → row.status = .pending)
    (same : ∀ row, (write row).id = row.id ∧ (write row).run = row.run ∧
      (write row).eventName = row.eventName)
    (fires : ∀ row ∈ db.subscriptions, guard row = true → (write row).status = .fired →
      spent (write row)) : Fires db next [] spent where
  events := events.trans (List.append_nil _).symm
  ids distinct := by
    rw [updated, Table.update_keys fun row => (same row).1]
    exact distinct
  kept row member := by
    refine ⟨_, updated ▸ Table.mem_update_of_mem guard write member, ?_⟩
    split
    · exact same row
    · exact ⟨rfl, rfl, rfl⟩
  stays row member fired := by
    have passed : ¬guard row = true := by
      intro hit
      rw [pending row hit] at fired
      contradiction
    have kept := Table.mem_update_of_mem guard write member
    rw [if_neg passed, ← updated] at kept
    exact kept
  fired row member fired := by
    rw [updated] at member
    obtain ⟨old, isOld, rfl⟩ := Table.mem_update.mp member
    split at fired
    · rename_i hit
      rw [if_pos hit]
      exact Or.inr (fires old isOld hit fired)
    · rename_i passed
      rw [if_neg passed]
      exact Or.inl isOld

theorem insert (rows : WaitRows) (new : SignalSubscription) (fires : new.status = .fired → spent new) :
    Fires db (db.apply rows (.insertSubscription new)) [] spent := by
  simp only [apply]
  split
  · exact of_same (List.append_nil _).symm rfl
  · rename_i free
    have fresh : new.id ∉ db.subscriptions.map SignalSubscription.id := by
      intro taken
      obtain ⟨old, isOld, same⟩ := List.mem_map.mp taken
      exact free (List.any_eq_true.mpr ⟨old, isOld, decide_eq_true same⟩)
    refine ⟨(List.append_nil _).symm, fun distinct => Table.keys_append_nodup distinct fresh, ?_, ?_, ?_⟩
    · intro row member
      exact ⟨row, List.mem_append_left _ member, rfl, rfl, rfl⟩
    · intro row member _
      exact List.mem_append_left _ member
    · intro row member fired
      rcases List.mem_append.mp member with old | isNew
      · exact Or.inl old
      · obtain rfl := List.mem_singleton.mp isNew
        exact Or.inr (fires fired)

theorem trans {last : SignalDb} {more : List SignalEvent} (first : Fires db next facts spent)
    (second : Fires next last more spent) : Fires db last (facts ++ more) spent where
  events := by rw [second.events, first.events, List.append_assoc]
  ids distinct := second.ids (first.ids distinct)
  kept row member := by
    obtain ⟨kept, isKept, sameID, sameRun, sameName⟩ := first.kept row member
    obtain ⟨last, isLast, againID, againRun, againName⟩ := second.kept kept isKept
    exact ⟨last, isLast, againID.trans sameID, againRun.trans sameRun, againName.trans sameName⟩
  stays row member fired := second.stays row (first.stays row member fired) fired
  fired row member fired := (second.fired row member fired).elim (first.fired row · fired) Or.inr

theorem fold {all fired : List SignalSubscription} {firedAt : Nat} {before : SignalDb}
    (among : ∀ hit ∈ fired, hit ∈ all)
    (pending : ∀ row ∈ db.subscriptions, row.status = .pending → row ∈ before.subscriptions) :
    Fires db ((fired.map fun hit => Write.fireSubscription hit.id hit.nodeRun event.id
      firedAt).foldl (apply rows) db) [] (before.Spent all event) := by
  induction fired generalizing db with
  | nil => exact of_same (List.append_nil _).symm rfl
  | cons head rest ih =>
      have step : Fires db (db.apply rows (.fireSubscription head.id head.nodeRun event.id firedAt)) []
          (before.Spent all event) := by
        refine of_update rfl rfl ?_ (fun _ => ⟨rfl, rfl, rfl⟩) ?_
        · intro row hit
          exact of_decide_eq_true (Bool.and_eq_true_iff.mp hit).2
        · intro row member hit _
          obtain ⟨sameID, isPending⟩ := Bool.and_eq_true_iff.mp hit
          exact ⟨head, among head List.mem_cons_self, row,
            pending row member (of_decide_eq_true isPending), of_decide_eq_true sameID, rfl⟩
      refine step.trans (ih (fun hit member => among hit (List.mem_cons_of_mem _ member)) ?_)
      intro row member isPending
      rcases pending_of_apply member isPending with old | ⟨inserted, _⟩
      · exact pending row old isPending
      · cases inserted

theorem delivery {fired : List SignalSubscription} {firedAt : Nat} :
    Fires db ((SignalState.deliveryWrites event fired firedAt).foldl (apply rows) db) [event]
      (db.Spent fired event) := by
  rw [SignalState.deliveryWrites, List.foldl_cons]
  have appended : Fires db (db.apply rows (.insertEvent event)) [event] (db.Spent fired event) :=
    of_same rfl rfl
  exact appended.trans (fold (fun _ member => member) fun _ member _ => member)

end Fires
end SignalDb

namespace SignalState

open SignalDb (Fires Replays Sound Spent)

/-- The fact a process is about to append. -/
def carried : Process → Option SignalEvent
  | .delivery _ _ _ (.appended event _ _) => some event
  | _ => none

/-- The rows a process fires when it commits where it stands. -/
def spends (rows : WaitRows) (db : SignalDb) : Process → SignalSubscription → Prop
  | .dispatch nodeRun _ (.replayed event), row =>
      row = rows.subscription nodeRun .fired (some event.id)
  | .delivery _ _ _ (.appended event fired _), row => db.Spent fired event row
  | _, _ => False

/-- What a process has read under its locks is still so. -/
def Reads (rows : WaitRows) (db : SignalDb) : Process → Prop
  | .dispatch nodeRun _ (.arm event) => Replays rows db nodeRun event
  | .dispatch nodeRun _ (.replayed event) => Replays rows db nodeRun event
  | .delivery input _ runs (.matched fired) => db.Matched input runs fired
  | .delivery input _ runs (.appended _ fired _) => db.Matched input runs fired
  | _ => True

/-- One firing comes after another in the history. -/
structure Follows (db : SignalDb) (earlier later : Firing) : Prop where
  newer : later.replayed = true → earlier.row.run = later.row.run →
    earlier.row.eventName = later.row.eventName → ∃ old ∈ db.events, ∃ new ∈ db.events,
      earlier.row.firedEvent = some old.id ∧ later.row.firedEvent = some new.id ∧
        old.order < new.order
  apart : earlier.replayed = true → later.delivered = true →
    earlier.row.firedEvent ≠ later.row.firedEvent

structure Once (rows : WaitRows) (s : SignalState) (history : List Firing) : Prop where
  sound : Sound s.db
  issued : ∀ event ∈ s.db.events, event.id ∈ s.issued
  reads : ∀ id txn, s.txns id = some txn → Reads rows s.db txn.body
  unappended : ∀ id txn event, s.txns id = some txn → carried txn.body = some event →
    event.id ∈ s.issued ∧ event.id ∉ s.db.events.map SignalEvent.id
  own : ∀ id other txn rival event fact, s.txns id = some txn → s.txns other = some rival →
    carried txn.body = some event → carried rival.body = some fact → event.id = fact.id → id = other
  fired : ∀ firing ∈ history, firing.row ∈ s.db.subscriptions ∧ firing.row.status = .fired ∧
    (firing.replayed = true ∨ firing.delivered = true)
  distinct : (history.map fun firing => firing.row.nodeRun).Nodup
  caughtUp : ∀ firing ∈ history, firing.replayed = true → ∃ event ∈ s.db.events,
    firing.row.firedEvent = some event.id ∧ CatchesUp rows firing.row event
  ordered : history.Pairwise (Follows s.db)

/-- A step that fires nothing. -/
structure Kept (rows : WaitRows) (s : SignalState) (history : List Firing) (next : SignalState) : Prop where
  once : Once rows next history
  same : next.db.subscriptions = s.db.subscriptions

section

variable {s next : SignalState} {id other : Nat} {history : List Firing} {process : Process}
  {txn : Txn Write Process} {moments : List Moment} {writes : List Write} {nodeRun : Nat}
  {claim : Store.Claim} {input : DeliverSignalEventInput} {runs : List Nat}

theorem Follows.later {db after : SignalDb} {earlier later : Firing} (follows : Follows db earlier later)
    (grown : ∀ event ∈ db.events, event ∈ after.events) : Follows after earlier later where
  newer replayed sameRun sameName := by
    obtain ⟨old, isOld, new, isNew, facts⟩ := follows.newer replayed sameRun sameName
    exact ⟨old, grown old isOld, new, grown new isNew, facts⟩
  apart := follows.apart

theorem Reads.of_same {db after : SignalDb} (reads : Reads rows db process)
    (sameRows : after.subscriptions = db.subscriptions) (sameEvents : after.events = db.events) :
    Reads rows after process := by
  obtain ⟨events, subscriptions, items⟩ := db
  obtain ⟨_, _, others⟩ := after
  obtain rfl : _ = subscriptions := sameRows
  obtain rfl : _ = events := sameEvents
  cases process with
  | dispatch nodeRun claim phase =>
      cases phase with
      | arm event | replayed event => exact ⟨reads.committed, reads.catchesUp, reads.newest⟩
      | lookup | lockReplay | probe | lockPark | park | parked => trivial
  | delivery input now runs phase =>
      cases phase with
      | matched fired | appended event fired firedAt => exact reads
      | candidates | lockRuns => trivial
  | retire run nodeRuns phase => trivial

/-- A statement that writes no event and no subscription. -/
theorem Once.quiet (once : Once rows s history) {entry : Option (Txn Write Process)}
    (same : next.db = s.db) (txns : next.txns = Function.update s.txns id entry)
    (issued : ∀ ulid ∈ s.issued, ulid ∈ next.issued)
    (own : ∀ txn, entry = some txn → Reads rows s.db txn.body ∧ ∀ event,
      carried txn.body = some event → event.id ∈ next.issued ∧ event.id ∉ s.issued) :
    Kept rows s history next := by
  have before : ∀ other txn, other ≠ id → next.txns other = some txn → s.txns other = some txn := by
    intro other txn different inFlight
    rwa [txns, Function.update_of_ne different] at inFlight
  have mine : ∀ txn, next.txns id = some txn → entry = some txn := by
    intro txn inFlight
    rwa [txns, Function.update_self] at inFlight
  obtain ⟨sound, known, reads, unappended, apart, fired, distinct, caughtUp, ordered⟩ := once
  refine ⟨⟨same ▸ sound, ?_, ?_, ?_, ?_, same ▸ fired, distinct, same ▸ caughtUp, same ▸ ordered⟩,
    congrArg SignalDb.subscriptions same⟩
  · intro event member
    exact issued _ (known event (same ▸ member))
  · intro other txn inFlight
    rw [same]
    by_cases isOwn : other = id
    · subst isOwn
      exact (own txn (mine txn inFlight)).1
    · exact reads other txn (before other txn isOwn inFlight)
  · intro other txn event inFlight carries
    rw [same]
    by_cases isOwn : other = id
    · subst isOwn
      obtain ⟨isIssued, fresh⟩ := (own txn (mine txn inFlight)).2 event carries
      refine ⟨isIssued, fun taken => fresh ?_⟩
      obtain ⟨old, isOld, sameID⟩ := List.mem_map.mp taken
      exact sameID ▸ known old isOld
    · obtain ⟨isIssued, fresh⟩ := unappended other txn event (before other txn isOwn inFlight) carries
      exact ⟨issued _ isIssued, fresh⟩
  · intro first second txn rival event fact isTxn isRival carries carriesToo sameID
    by_cases isFirst : first = id
    · by_cases isSecond : second = id
      · rw [isFirst, isSecond]
      · subst isFirst
        have fresh := ((own txn (mine txn isTxn)).2 event carries).2
        have known := (unappended second rival fact (before second rival isSecond isRival) carriesToo).1
        exact absurd (sameID ▸ known) fresh
    · have known := (unappended first txn event (before first txn isFirst isTxn) carries).1
      by_cases isSecond : second = id
      · subst isSecond
        have fresh := ((own rival (mine rival isRival)).2 fact carriesToo).2
        exact absurd (sameID ▸ known) fresh
      · exact apart first second txn rival event fact (before first txn isFirst isTxn)
          (before second rival isSecond isRival) carries carriesToo sameID

theorem Kept.record (kept : Kept rows s history next) : Kept rows s history (next.record moments) := by
  obtain ⟨⟨sound, known, reads, unappended, own, fired, distinct, caughtUp, ordered⟩, same⟩ := kept
  exact ⟨⟨sound, known, reads, unappended, own, fired, distinct, caughtUp, ordered⟩, same⟩

theorem Once.goesOn (once : Once rows s history) (same : next.db = s.db)
    (txns : next.txns = Function.update s.txns id (some ⟨writes, process⟩))
    (issued : next.issued = s.issued) (reads : Reads rows s.db process)
    (carries : carried process = none) : Kept rows s history next := by
  refine once.quiet same txns (fun _ known => issued ▸ known) ?_
  intro txn isTxn
  obtain rfl := Option.some.inj isTxn
  refine ⟨reads, fun event carriesOne => ?_⟩
  rw [carries] at carriesOne
  contradiction

theorem put_once (once : Once rows s history) (reads : Reads rows s.db process)
    (carries : carried process = none) : Kept rows s history (s.put id writes process) :=
  once.goesOn rfl rfl rfl reads carries

theorem leave_once (once : Once rows s history) : Kept rows s history (s.leave id) :=
  once.quiet rfl rfl (fun _ known => known) fun _ gone => by cases gone

theorem goPark_once (once : Once rows s history) : Kept rows s history (s.goPark id nodeRun claim) :=
  once.goesOn rfl (Function.update_idem _ _ _) rfl trivial rfl

theorem lockThen_once {run : Nat} (once : Once rows s history)
    (taken : s.lockThen id run process = some next) (reads : Reads rows s.db process)
    (carries : carried process = none) : Kept rows s history next := by
  obtain ⟨world, acquired, rfl⟩ := Option.map_eq_some_iff.mp taken
  obtain ⟨_, rfl⟩ := World.acquire_eq_some acquired
  exact once.goesOn rfl rfl rfl reads carries

theorem start_once (once : Once rows s history) (reads : Reads rows s.db process)
    (carries : carried process = none) : Kept rows s history (s.start process) :=
  once.goesOn rfl rfl rfl reads carries

theorem stepDispatch_once {phase : DispatchPhase} (once : Once rows s history)
    (reads : Reads rows s.db (.dispatch nodeRun claim phase))
    (taken : s.stepDispatch rows id nodeRun claim phase = some next) : Kept rows s history next := by
  cases phase with
  | lookup =>
      simp only [stepDispatch] at taken
      split at taken
      · cases taken
        exact put_once once trivial rfl
      · split at taken
        · split at taken
          · cases taken
            exact (leave_once once).record
          · cases taken
            exact leave_once once
        · cases taken
          exact leave_once once
        · cases taken
          exact put_once once trivial rfl
  | lockReplay => exact lockThen_once once taken trivial rfl
  | probe =>
      simp only [stepDispatch] at taken
      split at taken
      · cases taken
        exact (goPark_once once).record
      · rename_i event found
        cases taken
        exact put_once once (SignalDb.replays_of_scan found) rfl
  | arm event =>
      simp only [stepDispatch] at taken
      split at taken
      · cases taken
        exact put_once once reads rfl
      · split at taken
        · cases taken
          exact (leave_once once).record
        · cases taken
          exact goPark_once once
  | replayed event => cases taken
  | lockPark => exact lockThen_once once taken trivial rfl
  | park =>
      simp only [stepDispatch] at taken
      split at taken
      · cases taken
        exact put_once once trivial rfl
      · cases taken
        exact leave_once once
  | parked => cases taken

theorem stepDelivery_once {now : Nat} {phase : DeliveryPhase} (once : Once rows s history)
    (taken : s.stepDelivery id input now runs phase = some next) : Kept rows s history next := by
  cases phase with
  | candidates => cases taken
  | lockRuns remaining =>
      cases remaining with
      | nil =>
          cases taken
          refine put_once once ?_ rfl
          intro hit member
          obtain ⟨isRow, matched⟩ := List.mem_filter.mp member
          obtain ⟨resumes, inside⟩ := Bool.and_eq_true_iff.mp matched
          unfold DeliverSignalEventInput.resumes at resumes
          simp only [Bool.and_eq_true, decide_eq_true_eq] at resumes
          exact ⟨hit, isRow, rfl, List.contains_iff_mem.mp inside, resumes.1.1.2⟩
      | cons run rest => exact lockThen_once once taken trivial rfl
  | matched fired => cases taken
  | appended event fired firedAt => cases taken

theorem stepRetire_once {run : Nat} {nodeRuns : Option (List Nat)} {phase : RetirePhase}
    (once : Once rows s history) (taken : s.stepRetire id run nodeRuns phase = some next) :
    Kept rows s history next := by
  cases phase with
  | lock => exact lockThen_once once taken trivial rfl
  | write =>
      cases taken
      exact put_once once trivial rfl
  | written => cases taken

theorem readCandidates_once {routeRuns : List Nat} (once : Once rows s history)
    (taken : s.readCandidates id routeRuns process = some next) : Kept rows s history next := by
  unfold readCandidates at taken
  split at taken
  · cases taken
    refine (put_once once ?_ rfl).record
    trivial
  · cases taken

theorem append_once {ulid firedAt : Nat} (once : Once rows s history)
    (reads : Reads rows s.db process) (taken : s.append id ulid firedAt process = some next) :
    Kept rows s history next := by
  unfold append at taken
  split at taken
  · split at taken
    · cases taken
    · rename_i unused
      cases taken
      refine once.quiet rfl rfl (fun _ known => List.mem_append_left _ known) ?_
      intro txn isTxn
      obtain rfl := Option.some.inj isTxn
      refine ⟨reads, fun event carries => ?_⟩
      obtain rfl := Option.some.inj carries
      exact ⟨List.mem_append_right _ List.mem_cons_self, unused⟩
  · cases taken

theorem work_once (once : Once rows s history) (items : List Store.WorkItem) :
    Kept rows s history { s with db := { s.db with items := items } } := by
  obtain ⟨sound, known, reads, unappended, own, fired, distinct, caughtUp, ordered⟩ := once
  refine ⟨⟨⟨sound.ids, sound.facts, sound.fired⟩, known, ?_, unappended, own, fired, distinct, caughtUp,
    ?_⟩, rfl⟩
  · intro id txn inFlight
    exact (reads id txn inFlight).of_same rfl rfl
  · exact ordered.imp fun follows => follows.later fun _ member => member

theorem committed_fires (wrote : txn.writes = written rows txn.body)
    (came : s.moments id txn.body = some moments) :
    Fires s.db (committed rows s id txn moments).db (carried txn.body).toList
      (spends rows s.db txn.body) := by
  obtain ⟨writes, body⟩ := txn
  obtain rfl : writes = written rows body := wrote
  cases body with
  | dispatch nodeRun claim phase =>
      cases phase with
      | replayed event => exact Fires.insert rows _ fun _ => rfl
      | parked =>
          have parked : Fires s.db (s.db.apply rows (.parkWork claim)) []
              (spends rows s.db (.dispatch nodeRun claim .parked)) :=
            Fires.of_same (List.append_nil _).symm rfl
          exact parked.trans (Fires.insert rows _ fun fired => by cases fired)
      | lookup | lockReplay | probe | arm | lockPark | park => cases came
  | delivery input now runs phase =>
      cases phase with
      | appended event fired firedAt => exact Fires.delivery
      | candidates | lockRuns | matched => cases came
  | retire run nodeRuns phase =>
      cases phase with
      | written =>
          refine Fires.of_update rfl rfl ?_ (fun _ => ⟨rfl, rfl, rfl⟩) ?_
          · intro row hit
            exact of_decide_eq_true (Bool.and_eq_true_iff.mp hit).2
          · intro row _ _ fired
            cases fired
      | lock | write => cases came

theorem matched_of_spent {db : SignalDb} (sound : Sound db) {fired : List SignalSubscription}
    {event : SignalEvent} {row : SignalSubscription} (matched : db.Matched input runs fired)
    (spent : db.Spent fired event row) :
    row.run ∈ runs ∧ row.eventName = input.name ∧ row.firedEvent = some event.id := by
  obtain ⟨hit, isHit, old, isOld, sameID, rfl⟩ := spent
  obtain ⟨found, isFound, foundID, inside, named⟩ := matched hit isHit
  obtain rfl := Table.eq_of_key sound.ids isFound isOld (foundID.trans sameID.symm)
  exact ⟨inside, named, rfl⟩

theorem spends_locked (inv : Inv rows s) (once : Once rows s history) (inFlight : s.txns id = some txn)
    {row : SignalSubscription} (spent : spends rows s.db txn.body row) :
    s.holder row.run = some id := by
  have held := (inv.stands id txn inFlight).held
  have reads := once.reads id txn inFlight
  obtain ⟨writes, body⟩ := txn
  cases body with
  | dispatch nodeRun claim phase =>
      cases phase with
      | replayed event =>
          rw [show row = _ from spent]
          exact held _ List.mem_cons_self
      | lookup | lockReplay | probe | arm | lockPark | park | parked => exact spent.elim
  | delivery input now runs phase =>
      cases phase with
      | appended event fired firedAt => exact held _ (matched_of_spent once.sound reads spent).1
      | candidates | lockRuns | matched => exact spent.elim
  | retire run nodeRuns phase => exact spent.elim

theorem spends_named (inv : Inv rows s) (once : Once rows s history) (inFlight : s.txns id = some txn)
    {row : SignalSubscription} (spent : spends rows s.db txn.body row) :
    ∃ event ∈ s.db.events ++ (carried txn.body).toList,
      row.firedEvent = some event.id ∧ event.name = row.eventName := by
  have knows := (inv.stands id txn inFlight).knows
  have reads := once.reads id txn inFlight
  obtain ⟨writes, body⟩ := txn
  cases body with
  | dispatch nodeRun claim phase =>
      cases phase with
      | replayed event =>
          rw [show row = _ from spent]
          exact ⟨event, List.mem_append_left _ reads.committed, rfl, reads.catchesUp.named⟩
      | lookup | lockReplay | probe | arm | lockPark | park | parked => exact spent.elim
  | delivery input now runs phase =>
      cases phase with
      | appended event fired firedAt =>
          obtain ⟨_, named, isFired⟩ := matched_of_spent once.sound reads spent
          have made : event.name = input.name := by rw [knows.2.2]; rfl
          exact ⟨event, List.mem_append_right _ List.mem_cons_self, isFired, made.trans named.symm⟩
      | candidates | lockRuns | matched => exact spent.elim
  | retire run nodeRuns phase => exact spent.elim

theorem reads_committed (inv : Inv rows s) (once : Once rows s history) (inFlight : s.txns id = some txn)
    {after : SignalDb}
    (fires : Fires s.db after (carried txn.body).toList (spends rows s.db txn.body))
    (different : other ≠ id) {rival : Txn Write Process} (isRival : s.txns other = some rival) :
    Reads rows after rival.body := by
  have reads := once.reads other rival isRival
  have held := (inv.stands other rival isRival).held
  have grown : ∀ event ∈ s.db.events, event ∈ after.events := fun event member =>
    fires.events ▸ List.mem_append_left _ member
  -- Nothing of a run whose lock another process holds has been fired.
  have replays : ∀ nodeRun event, s.holder (rows.wait nodeRun).run = some other →
      Replays rows s.db nodeRun event → Replays rows after nodeRun event := by
    intro nodeRun event holds replays
    refine ⟨grown event replays.committed, replays.catchesUp, fun old member => replays.newest old ?_⟩
    obtain ⟨isFact, row, isRow, sameRun, sameName, fired, names⟩ := SignalDb.mem_firedWith.mp member
    rcases fires.fired row isRow fired with before | spent
    · refine SignalDb.mem_firedWith.mpr ⟨?_, row, before, sameRun, sameName, fired, names⟩
      obtain ⟨known, isKnown, namesKnown, _⟩ := once.sound.fired row before fired
      have sameID : old.id = known.id := Option.some.inj (names.symm.trans namesKnown)
      rw [fires.events] at isFact
      rcases List.mem_append.mp isFact with there | appended
      · exact there
      · have fresh := (once.unappended id txn old inFlight (Option.mem_toList.mp appended)).2
        exact absurd (sameID ▸ List.mem_map_of_mem isKnown) fresh
    · have mine := spends_locked inv once inFlight spent
      rw [sameRun, holds] at mine
      exact absurd (Option.some.inj mine) different
  have matched : ∀ input runs fired, s.db.Matched input runs fired → after.Matched input runs fired := by
    intro input runs fired matched hit isHit
    obtain ⟨row, isRow, sameID, inside, named⟩ := matched hit isHit
    obtain ⟨kept, isKept, keptID, keptRun, keptName⟩ := fires.kept row isRow
    exact ⟨kept, isKept, keptID.trans sameID, keptRun ▸ inside, keptName.trans named⟩
  obtain ⟨writes, body⟩ := rival
  cases body with
  | dispatch nodeRun claim phase =>
      cases phase with
      | arm event | replayed event => exact replays nodeRun event (held _ List.mem_cons_self) reads
      | lookup | lockReplay | probe | lockPark | park | parked => trivial
  | delivery input now runs phase =>
      cases phase with
      | matched fired | appended event fired firedAt => exact matched _ _ _ reads
      | candidates | lockRuns => trivial
  | retire run nodeRuns phase => trivial

theorem mem_newlyFired {db after : SignalDb} {row : SignalSubscription} :
    row ∈ SignalDb.newlyFired db after ↔
      row ∈ after.subscriptions ∧ row.status = .fired ∧ row ∉ db.subscriptions := by
  unfold SignalDb.newlyFired
  simp only [List.mem_filter, Bool.and_eq_true, decide_eq_true_eq]

theorem spends_follows (once : Once rows s history) (inFlight : s.txns id = some txn)
    {after : SignalDb} (grown : ∀ event ∈ s.db.events, event ∈ after.events)
    {row : SignalSubscription} (spent : spends rows s.db txn.body row) {earlier : Firing}
    (member : earlier ∈ history) : Follows after earlier ⟨row, some txn.body⟩ := by
  obtain ⟨isRow, fired, _⟩ := once.fired earlier member
  obtain ⟨old, isOld, names, _⟩ := once.sound.fired earlier.row isRow fired
  have reads := once.reads id txn inFlight
  have unappended := once.unappended id txn
  obtain ⟨writes, body⟩ := txn
  cases body with
  | dispatch nodeRun claim phase =>
      cases phase with
      | replayed event =>
          obtain rfl : row = _ := spent
          constructor
          · intro _ sameRun sameName
            have consumed := SignalDb.mem_firedWith.mpr
              ⟨isOld, earlier.row, isRow, sameRun, sameName, fired, names⟩
            exact ⟨old, grown old isOld, event, grown event reads.committed, names, rfl,
              reads.newest old consumed⟩
          · intro _ delivered
            cases delivered
      | lookup | lockReplay | probe | arm | lockPark | park | parked => exact spent.elim
  | delivery input now runs phase =>
      cases phase with
      | appended event fired firedAt =>
          constructor
          · intro replayed
            cases replayed
          · intro _ _ same
            have isFired := (matched_of_spent once.sound reads spent).2.2
            have sameID : old.id = event.id := Option.some.inj (names.symm.trans (same.trans isFired))
            have fresh := (unappended event inFlight rfl).2
            exact fresh (sameID ▸ List.mem_map_of_mem isOld)
      | candidates | lockRuns | matched => exact spent.elim
  | retire run nodeRuns phase => exact spent.elim

/-- Of two subscriptions one commit fires, neither was caught up on. -/
theorem spends_together {after : SignalDb} {row also : SignalSubscription}
    (spent : spends rows s.db txn.body row) (spentToo : spends rows s.db txn.body also)
    (different : row ≠ also) : Follows after ⟨row, some txn.body⟩ ⟨also, some txn.body⟩ := by
  obtain ⟨writes, body⟩ := txn
  cases body with
  | dispatch nodeRun claim phase =>
      cases phase with
      | replayed event => exact absurd (Eq.trans spent (Eq.symm spentToo)) different
      | lookup | lockReplay | probe | arm | lockPark | park | parked => exact spent.elim
  | delivery input now runs phase =>
      constructor
      · intro replayed
        cases replayed
      · intro replayed
        cases replayed
  | retire run nodeRuns phase => exact spent.elim

theorem Kept.once_firings (kept : Kept rows s history next) (action : Action) :
    Once rows next (history ++ s.firings action next) := by
  have none : SignalDb.newlyFired s.db next.db = [] := by
    apply List.eq_nil_iff_forall_not_mem.mpr
    intro row member
    obtain ⟨isRow, _, fresh⟩ := mem_newlyFired.mp member
    exact fresh (kept.same ▸ isRow)
  rw [firings, none, List.map_nil, List.append_nil]
  exact kept.once

theorem nodeRuns_nodup {db : SignalDb} (named : SignalDb.Named rows db) (sound : Sound db) :
    (db.subscriptions.map SignalSubscription.nodeRun).Nodup := by
  have sameIDs : db.subscriptions.map SignalSubscription.id =
      (db.subscriptions.map SignalSubscription.nodeRun).map signalSubscriptionID := by
    rw [List.map_map]
    apply List.map_congr_left
    intro row member
    rw [named row member]
    rfl
  exact List.Nodup.of_map _ (sameIDs ▸ sound.ids)

theorem committed_sound (inv : Inv rows s) (once : Once rows s history) (inFlight : s.txns id = some txn)
    {after : SignalDb}
    (fires : Fires s.db after (carried txn.body).toList (spends rows s.db txn.body)) : Sound after where
  ids := fires.ids once.sound.ids
  facts := by
    rw [fires.events, List.map_append]
    cases carries : carried txn.body with
    | none => simpa using once.sound.facts
    | some event =>
        have fresh := (once.unappended id txn event inFlight carries).2
        rw [← List.map_append]
        exact Table.keys_append_nodup once.sound.facts fresh
  fired row member fired := by
    rw [fires.events]
    rcases fires.fired row member fired with before | spent
    · obtain ⟨event, isEvent, names⟩ := once.sound.fired row before fired
      exact ⟨event, List.mem_append_left _ isEvent, names⟩
    · exact spends_named inv once inFlight spent

/-- What a commit adds to the history. -/
theorem mem_firings (inFlight : s.txns id = some txn)
    (fires : Fires s.db next.db (carried txn.body).toList (spends rows s.db txn.body)) {firing : Firing}
    (member : firing ∈ s.firings (.commit id) next) :
    (firing.row ∈ next.db.subscriptions ∧ firing.row.status = .fired) ∧
      firing.row ∉ s.db.subscriptions ∧ spends rows s.db txn.body firing.row ∧
      firing = ⟨firing.row, some txn.body⟩ := by
  obtain ⟨row, isRow, rfl⟩ := List.mem_map.mp member
  obtain ⟨there, fired, notBefore⟩ := mem_newlyFired.mp isRow
  refine ⟨⟨there, fired⟩, notBefore, (fires.fired row there fired).resolve_left notBefore, ?_⟩
  rw [committing, inFlight]
  rfl

theorem spends_by {row : SignalSubscription} (spent : spends rows s.db txn.body row) :
    (⟨row, some txn.body⟩ : Firing).replayed = true ∨
      (⟨row, some txn.body⟩ : Firing).delivered = true := by
  obtain ⟨writes, body⟩ := txn
  cases body with
  | dispatch nodeRun claim phase => exact Or.inl rfl
  | delivery input now runs phase => exact Or.inr rfl
  | retire run nodeRuns phase => exact spent.elim

theorem spends_catchesUp (reads : Reads rows s.db txn.body) {row : SignalSubscription}
    (spent : spends rows s.db txn.body row)
    (replayed : (⟨row, some txn.body⟩ : Firing).replayed = true) :
    ∃ event ∈ s.db.events, row.firedEvent = some event.id ∧ CatchesUp rows row event := by
  obtain ⟨writes, body⟩ := txn
  cases body with
  | dispatch nodeRun claim phase =>
      cases phase with
      | replayed event =>
          obtain rfl : row = _ := spent
          exact ⟨event, reads.committed, rfl, reads.catchesUp⟩
      | lookup | lockReplay | probe | arm | lockPark | park | parked => exact spent.elim
  | delivery input now runs phase => cases replayed
  | retire run nodeRuns phase => exact spent.elim

theorem firings_distinct (once : Once rows s history) (named : SignalDb.Named rows next.db)
    (sound : Sound next.db) (inFlight : s.txns id = some txn)
    (fires : Fires s.db next.db (carried txn.body).toList (spends rows s.db txn.body)) :
    ((history ++ s.firings (.commit id) next).map fun firing => firing.row.nodeRun).Nodup := by
  have nodeRuns := nodeRuns_nodup named sound
  rw [List.map_append]
  refine List.nodup_append.mpr ⟨once.distinct, ?_, ?_⟩
  · rw [firings, List.map_map]
    exact nodeRuns.sublist (List.Sublist.map _ List.filter_sublist)
  · intro first isFirst second isSecond same
    obtain ⟨earlier, isEarlier, rfl⟩ := List.mem_map.mp isFirst
    obtain ⟨later, isLater, rfl⟩ := List.mem_map.mp isSecond
    obtain ⟨⟨there, _⟩, notBefore, _⟩ := mem_firings inFlight fires isLater
    obtain ⟨wasThere, wasFired, _⟩ := once.fired earlier isEarlier
    have stays := fires.stays _ wasThere wasFired
    exact notBefore (Table.eq_of_key nodeRuns stays there same ▸ wasThere)

theorem firings_ordered (once : Once rows s history) (sound : Sound next.db)
    (inFlight : s.txns id = some txn)
    (fires : Fires s.db next.db (carried txn.body).toList (spends rows s.db txn.body)) :
    (history ++ s.firings (.commit id) next).Pairwise (Follows next.db) := by
  have grown : ∀ event ∈ s.db.events, event ∈ next.db.events := fun event member =>
    fires.events ▸ List.mem_append_left _ member
  refine List.pairwise_append.mpr ⟨once.ordered.imp fun follows => follows.later grown, ?_, ?_⟩
  · have different : (s.firings (.commit id) next).Pairwise fun first second =>
        first.row ≠ second.row := by
      rw [firings, List.pairwise_map]
      exact (sound.ids.of_map _).sublist List.filter_sublist
    refine different.imp_of_mem fun isFirst isSecond apart => ?_
    obtain ⟨_, _, spent, first_eq⟩ := mem_firings inFlight fires isFirst
    obtain ⟨_, _, spentToo, second_eq⟩ := mem_firings inFlight fires isSecond
    rw [first_eq, second_eq]
    exact spends_together spent spentToo apart
  · intro earlier isEarlier later isLater
    obtain ⟨_, _, spent, later_eq⟩ := mem_firings inFlight fires isLater
    rw [later_eq]
    exact spends_follows once inFlight grown spent isEarlier

theorem committed_once (inv : Inv rows s) (once : Once rows s history) (inFlight : s.txns id = some txn)
    (came : s.moments id txn.body = some moments) :
    Once rows (committed rows s id txn moments)
      (history ++ s.firings (.commit id) (committed rows s id txn moments)) := by
  have named := (commit_inv inv inFlight came).named
  have fires := committed_fires (inv.stands id txn inFlight).written came
  have sound := committed_sound inv once inFlight fires
  have others : ∀ other rival, (committed rows s id txn moments).txns other = some rival →
      other ≠ id ∧ s.txns other = some rival := fun _ _ => World.inFlight_ended
  have grown : ∀ event ∈ s.db.events, event ∈ (committed rows s id txn moments).db.events :=
    fun event member => fires.events ▸ List.mem_append_left _ member
  refine ⟨sound, ?_, ?_, ?_, ?_, ?_, firings_distinct once named sound inFlight fires, ?_,
    firings_ordered once sound inFlight fires⟩
  · intro event member
    rw [fires.events] at member
    rcases List.mem_append.mp member with old | appended
    · exact once.issued event old
    · exact (once.unappended id txn event inFlight (Option.mem_toList.mp appended)).1
  · intro other rival isRival
    obtain ⟨different, inFlightToo⟩ := others other rival isRival
    exact reads_committed inv once inFlight fires different inFlightToo
  · intro other rival event isRival carries
    obtain ⟨different, inFlightToo⟩ := others other rival isRival
    obtain ⟨isIssued, fresh⟩ := once.unappended other rival event inFlightToo carries
    refine ⟨isIssued, fun taken => ?_⟩
    obtain ⟨fact, isFact, sameID⟩ := List.mem_map.mp taken
    rw [fires.events] at isFact
    rcases List.mem_append.mp isFact with old | appended
    · exact fresh (sameID ▸ List.mem_map_of_mem old)
    · exact different (once.own other id rival txn event fact inFlightToo inFlight carries
        (Option.mem_toList.mp appended) sameID.symm)
  · intro first second txn rival event fact isTxn isRival carries carriesToo sameID
    exact once.own first second txn rival event fact (others first txn isTxn).2
      (others second rival isRival).2 carries carriesToo sameID
  · intro firing member
    rcases List.mem_append.mp member with old | new
    · obtain ⟨isRow, fired, how⟩ := once.fired firing old
      exact ⟨fires.stays _ isRow fired, fired, how⟩
    · obtain ⟨⟨isRow, fired⟩, _, spent, firing_eq⟩ := mem_firings inFlight fires new
      exact ⟨isRow, fired, firing_eq ▸ spends_by spent⟩
  · intro firing member replayed
    rcases List.mem_append.mp member with old | new
    · obtain ⟨event, isEvent, facts⟩ := once.caughtUp firing old replayed
      exact ⟨event, grown event isEvent, facts⟩
    · obtain ⟨_, _, spent, firing_eq⟩ := mem_firings inFlight fires new
      obtain ⟨event, isEvent, facts⟩ :=
        spends_catchesUp (once.reads id txn inFlight) spent (firing_eq ▸ replayed)
      exact ⟨event, grown event isEvent, facts⟩

theorem advance_once (once : Once rows s history) (inFlight : s.txns id = some txn)
    (taken : s.advance rows id txn.body = some next) : Kept rows s history next := by
  have reads := once.reads id txn inFlight
  obtain ⟨writes, body⟩ := txn
  cases body with
  | dispatch nodeRun claim phase => exact stepDispatch_once once reads taken
  | delivery input now runs phase => exact stepDelivery_once once taken
  | retire run nodeRuns phase => exact stepRetire_once once taken

theorem act_once {action : Action} (inv : Inv rows s) (once : Once rows s history)
    (taken : s.act rows action = some next) : Once rows next (history ++ s.firings action next) := by
  cases action with
  | dispatch nodeRun claim =>
      cases taken
      have started : Kept rows s history (s.start (.dispatch nodeRun claim .lookup)) :=
        start_once once trivial rfl
      exact started.once_firings _
  | deliver input now =>
      simp only [act] at taken
      split at taken
      · cases taken
      · cases taken
        have started : Kept rows s history (s.start (.delivery input now [] .candidates)) :=
          start_once once trivial rfl
        exact started.once_firings _
  | cancel run nodeRuns =>
      cases taken
      have started : Kept rows s history (s.start (.retire run nodeRuns .lock)) :=
        start_once once trivial rfl
      exact started.once_firings _
  | advance process =>
      obtain ⟨txn, inFlight, goes⟩ := Option.bind_eq_some_iff.mp taken
      exact (advance_once once inFlight goes).once_firings _
  | readCandidates process routeRuns =>
      obtain ⟨txn, _, goes⟩ := Option.bind_eq_some_iff.mp taken
      exact (readCandidates_once once goes).once_firings _
  | append process event firedAt =>
      obtain ⟨txn, inFlight, goes⟩ := Option.bind_eq_some_iff.mp taken
      exact (append_once once (once.reads process txn inFlight) goes).once_firings _
  | commit process =>
      obtain ⟨txn, inFlight, goes⟩ := Option.bind_eq_some_iff.mp taken
      obtain ⟨moments, came, rfl⟩ := Option.map_eq_some_iff.mp goes
      exact committed_once inv once inFlight came
  | abort process =>
      obtain ⟨txn, _, rfl⟩ := Option.map_eq_some_iff.mp taken
      exact (leave_once once).once_firings _
  | work items =>
      cases taken
      exact (work_once once items).once_firings _

theorem initial_once : Once rows initial [] where
  sound := ⟨List.nodup_nil, List.nodup_nil, fun _ member => absurd member List.not_mem_nil⟩
  issued event member := by cases member
  reads id txn inFlight := by cases inFlight
  unappended id txn event inFlight := by cases inFlight
  own id other txn rival event fact inFlight := by cases inFlight
  fired firing member := by cases member
  distinct := List.nodup_nil
  caughtUp firing member := by cases member
  ordered := List.Pairwise.nil

theorem Traced.once (ran : Traced rows s history) : Once rows s history := by
  have both : Inv rows s ∧ Once rows s history := by
    refine Steps.invariant (fun run : SignalState × List Firing => Inv rows run.1 ∧ Once rows run.1 run.2)
      ⟨initial_inv, initial_once⟩ ?_ ran
    intro run action last held _ goes
    obtain ⟨next, taken, rfl⟩ := Option.map_eq_some_iff.mp goes
    exact ⟨act_inv held.1 taken, act_once held.1 held.2 taken⟩
  exact both.2

/-- A fact that was delivered into the run is behind its cursor. -/
theorem Once.not_replayed_after (once : Once rows s history) {earlier later : Firing}
    (isEarlier : earlier ∈ history) (isLater : later ∈ history) (follows : Follows s.db earlier later)
    (replayed : later.replayed = true) (sameRun : earlier.row.run = later.row.run) :
    earlier.row.firedEvent ≠ later.row.firedEvent := by
  intro same
  obtain ⟨isRow, fired, _⟩ := once.fired earlier isEarlier
  obtain ⟨isRowToo, firedToo, _⟩ := once.fired later isLater
  obtain ⟨event, isEvent, names, eventName⟩ := once.sound.fired _ isRow fired
  obtain ⟨fact, isFact, namesToo, factName⟩ := once.sound.fired _ isRowToo firedToo
  have one : ∀ left ∈ s.db.events, ∀ right ∈ s.db.events, earlier.row.firedEvent = some left.id →
      later.row.firedEvent = some right.id → left = right := by
    intro left isLeft right isRight namesLeft namesRight
    exact Table.eq_of_key once.sound.facts isLeft isRight
      (Option.some.inj (namesLeft.symm.trans (same.trans namesRight)))
  obtain rfl := one event isEvent fact isFact names namesToo
  obtain ⟨old, isOld, new, isNew, namesOld, namesNew, newer⟩ :=
    follows.newer replayed sameRun (eventName.symm.trans factName)
  exact absurd (one old isOld new isNew namesOld namesNew ▸ newer) (lt_irrefl _)

theorem Once.apart (once : Once rows s history) {first second : Firing} (isFirst : first ∈ history)
    (isSecond : second ∈ history) (delivered : first.delivered = true)
    (replayed : second.replayed = true) (sameRun : first.row.run = second.row.run) :
    first.row.firedEvent ≠ second.row.firedEvent := by
  obtain ⟨before, after, split⟩ := List.append_of_mem isFirst
  have ordered := once.ordered
  rw [split, List.pairwise_append, List.pairwise_cons] at ordered
  obtain ⟨_, ⟨later, _⟩, earlier⟩ := ordered
  have place := isSecond
  rw [split, List.mem_append, List.mem_cons] at place
  rcases place with isBefore | rfl | isAfter
  · have follows := earlier second isBefore first List.mem_cons_self
    exact (follows.apart replayed delivered).symm
  · rw [Firing.not_replayed_of_delivered delivered] at replayed
    contradiction
  · exact once.not_replayed_after isFirst isSecond (later second isAfter) replayed sameRun

end

/-- Every node run is fired once, and its row stays as it was fired. A dispatch that catches up consumes
a fact for the run, not older than it and newer than every fact that fired a subscription of the run for
the name; what was delivered into a run is not caught up on in it. -/
theorem firings_once {s : SignalState} {history : List Firing} (ran : Traced rows s history) :
    (history.map fun firing => firing.row.nodeRun).Nodup ∧
    (∀ firing ∈ history, firing.row ∈ s.db.subscriptions ∧ firing.row.status = .fired ∧
      (firing.replayed = true ∨ firing.delivered = true)) ∧
    (∀ firing ∈ history, firing.replayed = true → ∃ event,
      s.db.resumedBy firing.row = some event ∧ CatchesUp rows firing.row event) ∧
    (history.Pairwise fun earlier later => later.replayed = true →
      earlier.row.run = later.row.run → earlier.row.eventName = later.row.eventName →
      ∃ old new, s.db.resumedBy earlier.row = some old ∧ s.db.resumedBy later.row = some new ∧
        old.order < new.order) ∧
    ∀ first ∈ history, ∀ second ∈ history, first.delivered = true → second.replayed = true →
      first.row.run = second.row.run → first.row.firedEvent ≠ second.row.firedEvent := by
  have once := ran.once
  refine ⟨once.distinct, once.fired, ?_, ?_, ?_⟩
  · intro firing member replayed
    obtain ⟨event, isEvent, names, catchesUp⟩ := once.caughtUp firing member replayed
    exact ⟨event, once.sound.fact isEvent (once.fired firing member).2.1 names, catchesUp⟩
  · refine once.ordered.imp_of_mem fun isEarlier isLater follows replayed sameRun sameName => ?_
    obtain ⟨old, isOld, new, isNew, names, namesToo, newer⟩ := follows.newer replayed sameRun sameName
    exact ⟨old, new, once.sound.fact isOld (once.fired _ isEarlier).2.1 names,
      once.sound.fact isNew (once.fired _ isLater).2.1 namesToo, newer⟩
  · intro first isFirst second isSecond delivered replayed sameRun
    exact once.apart isFirst isSecond delivered replayed sameRun

/-- Three node runs wait for one signal: the first catches up on a fact that was there, the second is
parked when the next one is delivered, and the third catches up on the one after. -/
def catchUpActions : List Action :=
  [.deliver goInput 5, .readCandidates 0 [], .advance 0, .append 0 7 6, .commit 0,
    .dispatch 0 goClaim, .advance 1, .advance 1, .advance 1, .advance 1, .commit 1,
    .work [{ goItem with nodeRun := 1 }], .dispatch 1 goClaim, .advance 2, .advance 2, .advance 2,
    .advance 2, .advance 2, .commit 2,
    .deliver goInput 8, .readCandidates 3 [], .advance 3, .advance 3, .append 3 9 9, .commit 3,
    .deliver goInput 10, .readCandidates 4 [], .advance 4, .append 4 11 10, .commit 4,
    .dispatch 2 goClaim, .advance 5, .advance 5, .advance 5, .advance 5, .commit 5]

theorem firings_once_catchUp : ∃ s history, Traced goRows s history ∧
    (history.map fun firing => (firing.row.nodeRun, firing.row.firedEvent, firing.replayed)) =
      [(0, some 7, true), (1, some 9, false), (2, some 11, true)] ∧
    (history.map fun firing => firing.row.nodeRun).Nodup ∧
    ∀ firing ∈ history, firing.row ∈ s.db.subscriptions ∧ firing.row.status = .fired ∧
      (firing.replayed = true ∨ firing.delivered = true) := by
  have ran : (Steps.ofList (actTraced goRows) (fun _ _ => true) (initial, []) catchUpActions).map
      (fun run => run.2.map fun firing =>
        (firing.row.nodeRun, firing.row.firedEvent, firing.replayed)) =
      some [(0, some 7, true), (1, some 9, false), (2, some 11, true)] := by
    decide +kernel
  obtain ⟨⟨s, history⟩, traced, seen⟩ := Steps.reaches_of_ofList (fun _ _ _ => trivial) ran
  have fired := firings_once traced
  exact ⟨s, history, traced, seen, fired.1, fired.2.1⟩

end SignalState
end CultureNodes.Signal
