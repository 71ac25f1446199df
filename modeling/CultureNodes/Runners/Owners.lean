import CultureNodes.Runners.Service

/-!
Who holds an operation. From the moment its record is written until its end is, an operation is with the
request that admits it, in the queue, or with the one worker that took it; its record is there and not
terminal, and nobody else writes it. That is why the reads and writes of a record need no lock.
-/

namespace CultureNodes.Runners

variable {cfg : Config}

/-- The operation whose end has still to be written. -/
def Ending.operation : Ending → Option String
  | .read operationID _ => some operationID
  | .write record _ => some record.operationID
  | .clear _ _ => none

def Worker.operation : Worker → Option String
  | .taken op | .starting op | .marking op _ _ | .ready op _ | .executing op _ | .returned op _ _ _ =>
      some op.operationID
  | .ending ends _ => ends.operation
  | .idle | .exited | .releasing _ => none

inductive Owner where
  | admission
  | queue
  | worker (place : Place)
deriving DecidableEq, Repr

def Admission.operation : Admission → Option String
  | .storing _ _ _ => none
  | .queueing op _ _ => some op.operationID

namespace Memory

def Owns (memory : Memory) : Owner → String → Prop
  | .admission, operationID => memory.admission.bind Admission.operation = some operationID
  | .queue, operationID => operationID ∈ memory.queue.map Operation.operationID
  | .worker place, operationID => (memory.workers place).operation = some operationID

end Memory

/-- A record of the service: it has a time it expires at when it is terminal, and not before. -/
structure Record.Sound (cfg : Config) (record : Record) : Prop where
  ended : record.terminal = true → ∃ finished, record.finishedAt = some finished ∧
    record.expiresAt = some (finished + cfg.retention)
  pending : record.terminal = false → record.finishedAt = none ∧ record.expiresAt = none
  declared : record.acceptance = acceptanceFor cfg record.operationID

namespace Records

def Live (records : Records) (operationID : String) : Prop :=
  ∃ record, records.get operationID = some record ∧ record.terminal = false

end Records

def Worker.Fits (cfg : Config) : Worker → Prop
  | .marking op _ read => ∃ record, read = some record ∧ record.operationID = op.operationID ∧
      record.terminal = false ∧ record.Sound cfg
  | .ending (.write record _) _ => record.terminal = true ∧ record.Sound cfg
  | _ => True

/-- The record `accept` is about to write or has written. -/
def Admission.Fits (cfg : Config) (records : Records) : Admission → Prop
  | .storing op _ record => record.operationID = op.operationID ∧ record.terminal = false ∧
      record.Sound cfg ∧ records.get op.operationID = none
  | .queueing op _ record => record.operationID = op.operationID

/-- A record the sweep has found expired is still the one in the store. -/
def Sweeper.Fits (latest : Nat) (records : Records) : Sweeper → Prop
  | .idle | .exited => True
  | .listing now => now ≤ latest
  | .deleting now remaining => now ≤ latest ∧ (remaining.map Record.operationID).Nodup ∧
      ∀ record ∈ remaining, record.expired now = true →
        records.get record.operationID = some record

/-- A process that does not serve holds nothing, and what it recovers is as it was listed. -/
def Mode.Fits (records : Records) (memory : Memory) : Mode → Prop
  | .up => True
  | .down => memory = {}
  | .recovering _ remaining => memory = {} ∧ (remaining.map Record.operationID).Nodup ∧
      ∀ record ∈ remaining, records.get record.operationID = some record

namespace ServiceState

structure Inv (cfg : Config) (s : ServiceState) : Prop where
  reading : s.clock ≤ s.latest
  distinct : (s.records.map Record.operationID).Nodup
  sound : ∀ record ∈ s.records, record.Sound cfg
  live : ∀ owner operationID, s.memory.Owns owner operationID → s.records.Live operationID
  alone : ∀ owner other operationID, s.memory.Owns owner operationID →
    s.memory.Owns other operationID → owner = other
  queued : (s.memory.queue.map Operation.operationID).Nodup
  fits : ∀ place, (s.memory.workers place).Fits cfg
  admission : ∀ admission, s.memory.admission = some admission → admission.Fits cfg s.records
  sweeper : s.memory.sweeper.Fits s.latest s.records
  mode : s.mode.Fits s.records s.memory

end ServiceState

theorem Record.finish_operationID {record : Record} {retention started finished : Nat}
    {answer : Except RunnerError Result} :
    (record.finish retention answer started finished).operationID = record.operationID := by
  cases answer with
  | error error => rfl
  | ok result =>
      simp only [Record.finish]
      split <;> rfl

namespace Record.Sound

variable {record : Record}

theorem terminal_of_expired {now : Nat} (sound : record.Sound cfg) (expired : record.expired now = true) :
    record.terminal = true := by
  cases ended : record.terminal with
  | true => rfl
  | false =>
      rw [Record.expired, (sound.pending ended).2] at expired
      contradiction

theorem committed {state : State} {result : Result} {finished : Nat} (sound : record.Sound cfg)
    (terminal : state.terminal = true) :
    (record.committed cfg.retention state result finished).terminal = true ∧
      (record.committed cfg.retention state result finished).Sound cfg := by
  refine ⟨terminal, fun _ => ⟨finished, rfl, rfl⟩, fun pending => ?_, sound.declared⟩
  rw [show (record.committed cfg.retention state result finished).terminal = true from terminal] at pending
  contradiction

theorem marked {started : Nat} (sound : record.Sound cfg) (pending : record.terminal = false) :
    (record.marked started).Sound cfg :=
  ⟨fun terminal => (by cases terminal), fun _ => sound.pending pending, sound.declared⟩

theorem stateForErrorKind_terminal (kind : ErrorKind) : (stateForErrorKind kind).terminal = true := by
  cases kind <;> rfl

/-- What `finish` writes is terminal, whatever the runner has answered. -/
theorem finish {answer : Except RunnerError Result} {started finished : Nat} (sound : record.Sound cfg) :
    (record.finish cfg.retention answer started finished).terminal = true ∧
      (record.finish cfg.retention answer started finished).Sound cfg := by
  cases answer with
  | error error =>
      cases error with
      | dispatch kind message => exact sound.committed (stateForErrorKind_terminal kind)
      | unclassified message => exact sound.committed rfl
  | ok result =>
      simp only [Record.finish]
      split
      · rename_i terminal
        exact sound.committed terminal
      · exact sound.committed rfl

end Record.Sound

namespace Records

variable {records : Records} {record : Record} {operationID : String}

theorem get_put_self : (records.put record).get record.operationID = some record := Keyed.get_put_self

theorem get_put_other (different : operationID ≠ record.operationID) :
    (records.put record).get operationID = records.get operationID := Keyed.get_put_other different

theorem get_delete_other {gone : String} (different : operationID ≠ gone) :
    (records.delete gone).get operationID = records.get operationID := Keyed.get_delete_other different

theorem mem_put {other : Record} (distinct : (records.map Record.operationID).Nodup)
    (member : other ∈ records.put record) : other = record ∨ other ∈ records := by
  have found := Keyed.get_of_mem (Keyed.put_nodup distinct) member
  rw [Keyed.get_put] at found
  split at found
  · exact Or.inl (Option.some.inj found).symm
  · exact Or.inr (Keyed.mem_of_get found)

theorem list_perm : records.list.Perm records := List.perm_insertionSort _ _

theorem list_nodup (distinct : (records.map Record.operationID).Nodup) :
    (records.list.map Record.operationID).Nodup :=
  (list_perm.map _).nodup_iff.mpr distinct

theorem get_of_mem_list (distinct : (records.map Record.operationID).Nodup)
    (member : record ∈ records.list) : records.get record.operationID = some record :=
  Keyed.get_of_mem distinct (list_perm.mem_iff.mp member)

end Records

/-- The store may change where the sweep has found nothing. -/
theorem Sweeper.Fits.later {sweeper : Sweeper} {latest later : Nat} {records after : Records}
    (fits : sweeper.Fits latest records) (reading : latest ≤ later)
    (kept : ∀ record now, record.expired now = true → records.get record.operationID = some record →
      after.get record.operationID = some record) : sweeper.Fits later after := by
  cases sweeper with
  | idle | exited => trivial
  | listing now => exact Nat.le_trans fits reading
  | deleting now remaining =>
      obtain ⟨before, distinct, found⟩ := fits
      refine ⟨Nat.le_trans before reading, distinct, fun record member expired => ?_⟩
      exact kept record now expired (found record member expired)

namespace ServiceState

variable {s next : ServiceState} {place : Place} {worker : Worker} {operationID : String}
  {moments : List Moment} {record : Record}

theorem Inv.note (inv : Inv cfg s) : Inv cfg (s.note moments) := by
  obtain ⟨reading, distinct, sound, live, alone, queued, fits, admission, sweeper, mode⟩ := inv
  exact ⟨reading, distinct, sound, live, alone, queued, fits, admission, sweeper, mode⟩

theorem Inv.up (inv : Inv cfg s) (busy : s.memory ≠ {}) : s.mode = .up := by
  have fits := inv.mode
  cases mode : s.mode with
  | up => rfl
  | down =>
      rw [mode] at fits
      exact absurd fits busy
  | recovering now remaining =>
      rw [mode] at fits
      exact absurd fits.1 busy

theorem Inv.up_of_worker (inv : Inv cfg s) (working : s.memory.workers place = worker)
    (busy : worker ≠ .idle) : s.mode = .up := by
  apply inv.up
  intro empty
  rw [empty] at working
  exact busy working.symm

theorem mode_fits_of_up {records : Records} {memory : Memory} {mode : Mode} (up : mode = .up) :
    mode.Fits records memory := by
  rw [up]
  trivial

/-- Owners may drop out while the store stays as it is. -/
theorem Inv.still (inv : Inv cfg s) (sameRecords : next.records = s.records) (up : next.mode = .up)
    (clock : next.clock = s.clock) (latest : next.latest = s.latest)
    (queue : next.memory.queue.Sublist s.memory.queue)
    (admission : next.memory.admission = s.memory.admission)
    (sweeper : next.memory.sweeper = s.memory.sweeper)
    (owns : ∀ place operationID, (next.memory.workers place).operation = some operationID →
      (s.memory.workers place).operation = some operationID)
    (fits : ∀ place, (next.memory.workers place).Fits cfg) : Inv cfg next := by
  have before : ∀ owner operationID, next.memory.Owns owner operationID →
      s.memory.Owns owner operationID := by
    intro owner operationID owned
    cases owner with
    | admission =>
        rw [Memory.Owns, admission] at owned
        exact owned
    | queue => exact (queue.map _).subset owned
    | worker place => exact owns place operationID owned
  refine ⟨clock ▸ latest ▸ inv.reading, sameRecords ▸ inv.distinct, sameRecords ▸ inv.sound, ?_, ?_, ?_,
    fits, ?_, ?_, mode_fits_of_up up⟩
  · intro owner operationID owned
    exact sameRecords ▸ inv.live owner operationID (before owner operationID owned)
  · intro owner other operationID owned ownedToo
    exact inv.alone owner other operationID (before _ _ owned) (before _ _ ownedToo)
  · exact inv.queued.sublist (queue.map _)
  · intro current isCurrent
    exact sameRecords ▸ inv.admission current (admission ▸ isCurrent)
  · rw [sweeper, sameRecords, latest]
    exact inv.sweeper

theorem update_operation {workers : Place → Worker}
    (kept : ∀ name, worker.operation = some name → (workers place).operation = some name) :
    ∀ any name, (Function.update workers place worker any).operation = some name →
      (workers any).operation = some name := by
  intro any name holds
  by_cases same : any = place
  · subst same
    rw [Function.update_self] at holds
    exact kept name holds
  · rwa [Function.update_of_ne same] at holds

theorem update_fits {workers : Place → Worker} (fits : ∀ place, (workers place).Fits cfg)
    (fit : worker.Fits cfg) : ∀ any, (Function.update workers place worker any).Fits cfg := by
  intro any
  by_cases same : any = place
  · subst same
    rwa [Function.update_self]
  · rw [Function.update_of_ne same]
    exact fits any

theorem Inv.setWorker (inv : Inv cfg s) (up : s.mode = .up)
    (kept : ∀ name, worker.operation = some name → (s.memory.workers place).operation = some name)
    (fit : worker.Fits cfg) : Inv cfg (s.setWorker place worker) :=
  inv.still rfl up rfl rfl (List.Sublist.refl _) rfl rfl (update_operation kept)
    (update_fits inv.fits fit)

theorem Inv.sweeper_ne (inv : Inv cfg s) (live : s.records.Live operationID)
    (found : s.records.get record.operationID = some record) {now : Nat}
    (expired : record.expired now = true) : record.operationID ≠ operationID := by
  intro same
  obtain ⟨pending, isPending, notTerminal⟩ := live
  rw [same, isPending] at found
  obtain rfl := Option.some.inj found
  have terminal := (inv.sound pending (Keyed.mem_of_get isPending)).terminal_of_expired expired
  rw [notTerminal] at terminal
  contradiction

theorem Inv.written (inv : Inv cfg s) (up : s.mode = .up)
    (owned : (s.memory.workers place).operation = some record.operationID) (sound : record.Sound cfg)
    (kept : worker.operation = some record.operationID ∧ record.terminal = false ∨
      worker.operation = none) (fit : worker.Fits cfg) :
    Inv cfg ({ s with records := s.records.put record }.setWorker place worker) := by
  have live : s.records.Live record.operationID := inv.live (.worker place) _ owned
  have before : ∀ owner name, ({ s with records := s.records.put record }.setWorker place
      worker).memory.Owns owner name → s.memory.Owns owner name := by
    intro owner name owns
    cases owner with
    | admission | queue => exact owns
    | worker any =>
        refine update_operation ?_ any name owns
        intro name holds
        rcases kept with ⟨same, _⟩ | none
        · rw [← holds, same]
          exact owned
        · rw [none] at holds
          contradiction
  refine ⟨inv.reading, Keyed.put_nodup inv.distinct, ?_, ?_, ?_, inv.queued, update_fits inv.fits fit, ?_, ?_,
    mode_fits_of_up up⟩
  · intro other member
    rcases Records.mem_put inv.distinct member with rfl | old
    · exact sound
    · exact inv.sound other old
  · intro owner name owns
    by_cases same : name = record.operationID
    · subst same
      obtain rfl := inv.alone _ _ _ (before _ _ owns) (show s.memory.Owns (.worker place) _ from owned)
      rcases kept with ⟨_, pending⟩ | none
      · exact ⟨record, Records.get_put_self, pending⟩
      · change (Function.update s.memory.workers place worker place).operation = _ at owns
        rw [Function.update_self, none] at owns
        contradiction
    · obtain ⟨other, found, pending⟩ := inv.live owner name (before _ _ owns)
      exact ⟨other, (Records.get_put_other same).trans found, pending⟩
  · intro owner other name owns ownsToo
    exact inv.alone owner other name (before _ _ owns) (before _ _ ownsToo)
  · intro current isCurrent
    have fitted := inv.admission current isCurrent
    cases current with
    | storing op callback new =>
        obtain ⟨named, pending, isSound, absent⟩ := fitted
        refine ⟨named, pending, isSound, ?_⟩
        obtain ⟨other, found, _⟩ := live
        have different : op.operationID ≠ record.operationID := by
          intro same
          rw [same, found] at absent
          contradiction
        exact (Records.get_put_other different).trans absent
    | queueing op callback new => exact fitted
  · refine inv.sweeper.later (Nat.le_refl _) fun other now expired found => ?_
    have different := inv.sweeper_ne live found expired
    exact (Records.get_put_other different).trans found

theorem Inv.removed (inv : Inv cfg s) (up : next.mode = .up)
    (records : next.records = s.records.delete operationID) (clock : next.clock = s.clock)
    (latest : next.latest = s.latest)
    (queue : next.memory.queue = s.memory.queue) (workers : next.memory.workers = s.memory.workers)
    (admission : next.memory.admission = s.memory.admission ∨ next.memory.admission = none)
    (free : ∀ owner, ¬next.memory.Owns owner operationID)
    (sweeper : next.memory.sweeper.Fits s.latest next.records) : Inv cfg next := by
  have before : ∀ owner name, next.memory.Owns owner name → s.memory.Owns owner name := by
    intro owner name owns
    cases owner with
    | admission =>
        rw [Memory.Owns] at owns ⊢
        rcases admission with same | none
        · rwa [← same]
        · rw [none] at owns
          contradiction
    | queue =>
        rw [Memory.Owns] at owns ⊢
        rwa [← queue]
    | worker any =>
        rw [Memory.Owns] at owns ⊢
        rwa [← workers]
  refine ⟨clock ▸ latest ▸ inv.reading, records ▸ Keyed.delete_nodup inv.distinct, ?_, ?_, ?_,
    queue ▸ inv.queued, workers ▸ inv.fits, ?_, latest ▸ sweeper, mode_fits_of_up up⟩
  · intro record member
    rw [records] at member
    exact inv.sound record (List.mem_of_mem_filter member)
  · intro owner name owns
    have different : name ≠ operationID := by
      rintro rfl
      exact free owner owns
    obtain ⟨record, found, pending⟩ := inv.live owner name (before _ _ owns)
    rw [records]
    exact ⟨record, (Records.get_delete_other different).trans found, pending⟩
  · intro owner other name owns ownsToo
    exact inv.alone owner other name (before _ _ owns) (before _ _ ownsToo)
  · intro current isCurrent
    rcases admission with same | none
    · have fitted := inv.admission current (same ▸ isCurrent)
      cases current with
      | storing op callback new =>
          obtain ⟨named, pending, isSound, absent⟩ := fitted
          refine ⟨named, pending, isSound, ?_⟩
          rw [records]
          by_cases same : op.operationID = operationID
          · rw [same]
            exact Keyed.get_delete_self
          · exact (Records.get_delete_other same).trans absent
      | queueing op callback new => exact fitted
    · rw [none] at isCurrent
      contradiction

theorem up_of_serving (serves : s.serving = true) : s.mode = .up := by
  unfold serving at serves
  split at serves
  · assumption
  · cases serves
  · cases serves

theorem unlocked_iff : s.unlocked = true ↔ s.mode = .up ∧ s.memory.admission = none := by
  unfold unlocked
  rw [Bool.and_eq_true, Option.isNone_iff_eq_none]
  constructor
  · rintro ⟨serves, free⟩
    exact ⟨up_of_serving serves, free⟩
  · rintro ⟨up, free⟩
    refine ⟨?_, free⟩
    rw [serving, up]

/-- Only what is written down about cancels, callbacks and the shutdown changes. -/
theorem Inv.aside (inv : Inv cfg s) (up : s.mode = .up) {memory : Memory}
    (queue : memory.queue = s.memory.queue) (admission : memory.admission = s.memory.admission)
    (sweeper : memory.sweeper = s.memory.sweeper) (workers : memory.workers = s.memory.workers) :
    Inv cfg { s with memory := memory } :=
  inv.still rfl up rfl rfl (queue ▸ List.Sublist.refl _) admission sweeper
    (fun _ _ holds => workers ▸ holds) (workers ▸ inv.fits)

theorem newRecord_sound {op : Operation} {digest : String} {replay : Replay} :
    (s.newRecord cfg op digest replay).Sound cfg where
  ended terminal := by cases terminal
  pending _ := ⟨rfl, rfl⟩
  declared := rfl

theorem accept_inv {op : Operation} {digest : String} {callback : Option CallbackTarget}
    (inv : Inv cfg s) (taken : s.accept cfg op digest callback = some next) : Inv cfg next := by
  unfold accept at taken
  split at taken
  · rename_i open_
    obtain ⟨up, free⟩ := unlocked_iff.mp open_
    split at taken
    · cases taken
      exact inv.note
    · split at taken
      · split at taken
        · cases taken
          exact inv.note
        · cases taken
          exact inv.note
      · rename_i absent
        split at taken
        · cases taken
          exact inv.note
        · rename_i replay _
          cases taken
          have before : ∀ owner name, Memory.Owns { s.memory with
              admission := some (.storing op callback (s.newRecord cfg op digest replay)) } owner name →
              s.memory.Owns owner name := by
            intro owner name owns
            cases owner with
            | admission => cases owns
            | queue | worker place => exact owns
          refine ⟨inv.reading, inv.distinct, inv.sound, ?_, ?_, inv.queued, inv.fits, ?_, inv.sweeper,
            mode_fits_of_up up⟩
          · intro owner name owns
            exact inv.live owner name (before _ _ owns)
          · intro owner other name owns ownsToo
            exact inv.alone owner other name (before _ _ owns) (before _ _ ownsToo)
          · intro current isCurrent
            obtain rfl := Option.some.inj isCurrent
            exact ⟨rfl, rfl, newRecord_sound, absent⟩
  · cases taken

theorem readCancel_inv (inv : Inv cfg s) (taken : s.readCancel operationID = some next) : Inv cfg next := by
  unfold readCancel at taken
  split at taken
  · rename_i serves
    split at taken
    · cases taken
      exact inv
    · split at taken
      · cases taken
        exact inv
      · cases taken
        apply Inv.note
        exact inv.aside (up_of_serving serves) rfl rfl rfl rfl
  · cases taken

theorem cancel_inv {handler : Nat} (inv : Inv cfg s) (taken : s.cancel handler = some next) :
    Inv cfg next := by
  unfold cancel at taken
  split at taken
  · rename_i free
    have up := (unlocked_iff.mp free).1
    obtain ⟨read, _, rfl⟩ := Option.map_eq_some_iff.mp taken
    split
    · exact inv.aside up rfl rfl rfl rfl
    · apply Inv.note
      exact inv.aside up rfl rfl rfl rfl
  · cases taken

theorem through_inv {inflight : Bool} (inv : Inv cfg s) (up : s.mode = .up) :
    Inv cfg (s.through place operationID inflight) := by
  unfold through
  split
  · exact inv.setWorker up (fun _ holds => by cases holds) trivial
  · exact inv.setWorker up (fun _ holds => by cases holds) trivial

theorem Inv.record_of_worker (inv : Inv cfg s)
    (owned : (s.memory.workers place).operation = some operationID) (found : s.records.get operationID = some record) :
    record.operationID = operationID ∧ record.terminal = false ∧ record.Sound cfg := by
  obtain ⟨other, isOther, pending⟩ := inv.live (.worker place) operationID owned
  rw [found] at isOther
  obtain rfl := Option.some.inj isOther
  exact ⟨Keyed.key_get found, pending, inv.sound record (Keyed.mem_of_get found)⟩

theorem stepEnding_inv {inflight : Bool} {ends : Ending} (inv : Inv cfg s)
    (working : s.memory.workers place = .ending ends inflight)
    (taken : s.stepEnding cfg place inflight ends = some next) : Inv cfg next := by
  have up := inv.up_of_worker working (by simp)
  have fit := inv.fits place
  rw [working] at fit
  cases ends with
  | read name reason =>
      simp only [stepEnding] at taken
      split at taken
      · cases taken
        exact through_inv inv up
      · rename_i record found
        cases taken
        have owned : (s.memory.workers place).operation = some name := by
          rw [working]
          rfl
        obtain ⟨named, _, sound⟩ := inv.record_of_worker owned found
        refine inv.setWorker up ?_ (sound.committed rfl)
        intro other holds
        rw [owned, ← holds]
        exact congrArg some named.symm
  | write record reason =>
      cases taken
      have noted : Inv cfg (s.note (if reason = some NeverRan.cancelled then
          [.cancelledUnstarted record.operationID] else [])) := inv.note
      have owned : (s.memory.workers place).operation = some record.operationID := by
        rw [working]
        rfl
      exact noted.written up owned fit.2 (Or.inr rfl) trivial
  | clear name state =>
      simp only [stepEnding] at taken
      split at taken
      · cases taken
        refine through_inv (Inv.note ?_) up
        exact inv.aside up rfl rfl rfl rfl
      · cases taken

theorem stepWorker_inv (inv : Inv cfg s) (working : s.memory.workers place = worker)
    (taken : s.stepWorker cfg place worker = some next) : Inv cfg next := by
  have fit := inv.fits place
  rw [working] at fit
  cases worker with
  | idle | exited | executing => cases taken
  | taken op =>
      have up := inv.up_of_worker working (by simp)
      simp only [stepWorker] at taken
      split at taken
      · split at taken
        · cases taken
          refine inv.setWorker up (fun name holds => ?_) trivial
          rw [working]
          exact holds
        · cases taken
          have aside : Inv cfg { s with memory := { s.memory with
              inflight := s.memory.inflight.insert op.operationID } } := inv.aside up rfl rfl rfl rfl
          refine aside.setWorker up (fun name holds => ?_) trivial
          exact (congrArg Worker.operation working).trans holds
      · cases taken
  | starting op =>
      have up := inv.up_of_worker working (by simp)
      cases taken
      have owned : (s.memory.workers place).operation = some op.operationID := by
        rw [working]
        rfl
      obtain ⟨record, found, _⟩ := inv.live (.worker place) op.operationID owned
      obtain ⟨named, pending, sound⟩ := inv.record_of_worker owned found
      refine inv.setWorker up (fun name holds => owned.trans holds) ?_
      exact ⟨record, found, named, pending, sound⟩
  | marking op started read =>
      have up := inv.up_of_worker working (by simp)
      obtain ⟨record, rfl, named, pending, sound⟩ := fit
      cases taken
      have owned : (s.memory.workers place).operation = some (record.marked started).operationID := by
        rw [working]
        exact congrArg some named.symm
      refine inv.written up owned (sound.marked pending) (Or.inl ⟨?_, rfl⟩) trivial
      exact congrArg some named.symm
  | ready op started =>
      have up := inv.up_of_worker working (by simp)
      cases taken
      have noted : Inv cfg (s.note [.executed op.operationID]) := inv.note
      refine noted.setWorker up (fun name holds => ?_) trivial
      exact (congrArg Worker.operation working).trans holds
  | returned op started finished answer =>
      have up := inv.up_of_worker working (by simp)
      have owned : (s.memory.workers place).operation = some op.operationID := by
        rw [working]
        rfl
      simp only [stepWorker] at taken
      split at taken
      · cases taken
        exact inv.setWorker up (fun _ holds => by cases holds) trivial
      · rename_i record found
        cases taken
        obtain ⟨named, _, sound⟩ := inv.record_of_worker owned found
        refine inv.setWorker up ?_ sound.finish
        intro name holds
        rw [owned, ← holds, ← named]
        exact congrArg some Record.finish_operationID.symm
  | ending ends inflight => exact stepEnding_inv inv working taken
  | releasing name =>
      have up := inv.up_of_worker working (by simp)
      simp only [stepWorker] at taken
      split at taken
      · cases taken
        have aside : Inv cfg { s with memory := { s.memory with
            inflight := s.memory.inflight.erase name } } := inv.aside up rfl rfl rfl rfl
        exact aside.setWorker up (fun _ holds => by cases holds) trivial
      · cases taken

/-- One operation goes to a new owner, and nobody else gets one. -/
theorem alone_of_moved {memory : Memory} {owner : Owner} (inv : Inv cfg s)
    (moved : ∀ other name, memory.Owns other name →
      s.memory.Owns other name ∧ name ≠ operationID ∨ other = owner ∧ name = operationID) :
    ∀ first second name, memory.Owns first name → memory.Owns second name → first = second := by
  intro first second name isFirst isSecond
  rcases moved first name isFirst with ⟨before, different⟩ | ⟨rfl, rfl⟩
  · rcases moved second name isSecond with ⟨beforeToo, _⟩ | ⟨_, same⟩
    · exact inv.alone first second name before beforeToo
    · exact absurd same different
  · rcases moved second _ isSecond with ⟨_, different⟩ | ⟨rfl, _⟩
    · exact absurd rfl different
    · rfl

theorem storing_inv {op : Operation} {callback : Option CallbackTarget} (inv : Inv cfg s)
    (up : s.mode = .up) (admitting : s.memory.admission = some (.storing op callback record)) :
    Inv cfg { s with
      records := s.records.put record
      memory := { s.memory with admission := some (.queueing op callback record) } } := by
  obtain ⟨named, pending, sound, absent⟩ := inv.admission _ admitting
  have unowned : ∀ owner, ¬s.memory.Owns owner op.operationID := by
    intro owner owns
    obtain ⟨other, found, _⟩ := inv.live owner _ owns
    rw [absent] at found
    contradiction
  have moved : ∀ owner name, Memory.Owns { s.memory with
      admission := some (.queueing op callback record) } owner name →
      s.memory.Owns owner name ∧ name ≠ op.operationID ∨ owner = .admission ∧ name = op.operationID := by
    intro owner name owns
    cases owner with
    | admission => exact Or.inr ⟨rfl, (Option.some.inj owns).symm⟩
    | queue =>
        refine Or.inl ⟨owns, ?_⟩
        rintro rfl
        exact unowned .queue owns
    | worker place =>
        refine Or.inl ⟨owns, ?_⟩
        rintro rfl
        exact unowned (.worker place) owns
  refine ⟨inv.reading, Keyed.put_nodup inv.distinct, ?_, ?_, alone_of_moved inv moved, inv.queued, inv.fits,
    ?_, ?_, mode_fits_of_up up⟩
  · intro other member
    rcases Records.mem_put inv.distinct member with rfl | old
    · exact sound
    · exact inv.sound other old
  · intro owner name isOwner
    rcases moved owner name isOwner with ⟨before, different⟩ | ⟨_, rfl⟩
    · obtain ⟨other, found, notTerminal⟩ := inv.live owner name before
      exact ⟨other, (Records.get_put_other (named ▸ different)).trans found, notTerminal⟩
    · exact ⟨record, named ▸ Records.get_put_self, pending⟩
  · intro current isCurrent
    obtain rfl := Option.some.inj isCurrent
    exact named
  · refine inv.sweeper.later (Nat.le_refl _) fun other now _ found => ?_
    have different : other.operationID ≠ record.operationID := by
      intro same
      rw [same, named, absent] at found
      contradiction
    exact (Records.get_put_other different).trans found

theorem queueing_inv {op : Operation} {callback : Option CallbackTarget}
    {callbacks : List (String × CallbackTarget)} (inv : Inv cfg s) (up : s.mode = .up)
    (admitting : s.memory.admission = some (.queueing op callback record)) :
    Inv cfg { s with memory := { s.memory with
      admission := none
      queue := s.memory.queue ++ [op]
      callbacks := callbacks } } := by
  have held : s.memory.Owns .admission op.operationID := by
    rw [Memory.Owns, admitting]
    rfl
  have alone : ∀ owner, s.memory.Owns owner op.operationID → owner = .admission := fun owner owns =>
    inv.alone owner .admission _ owns held
  have moved : ∀ owner name, Memory.Owns { s.memory with
      admission := none, queue := s.memory.queue ++ [op], callbacks := callbacks } owner name →
      s.memory.Owns owner name ∧ name ≠ op.operationID ∨ owner = .queue ∧ name = op.operationID := by
    intro owner name owns
    cases owner with
    | admission => cases owns
    | worker place =>
        refine Or.inl ⟨owns, ?_⟩
        rintro rfl
        cases alone (.worker place) owns
    | queue =>
        rw [Memory.Owns, List.map_append, List.mem_append] at owns
        rcases owns with old | new
        · refine Or.inl ⟨old, ?_⟩
          rintro rfl
          cases alone .queue old
        · exact Or.inr ⟨rfl, List.mem_singleton.mp new⟩
  refine ⟨inv.reading, inv.distinct, inv.sound, ?_, alone_of_moved inv moved, ?_, inv.fits, ?_, inv.sweeper,
    mode_fits_of_up up⟩
  · intro owner name isOwner
    rcases moved owner name isOwner with ⟨before, _⟩ | ⟨_, rfl⟩
    · exact inv.live owner name before
    · exact inv.live .admission _ held
  · refine Table.keys_append_nodup inv.queued fun waits => ?_
    cases alone .queue waits
  · intro current isCurrent
    cases isCurrent

theorem enqueue_inv (inv : Inv cfg s) (taken : s.enqueue cfg = some next) : Inv cfg next := by
  unfold enqueue at taken
  split at taken
  · cases taken
  · rename_i op callback record admitting
    have up : s.mode = .up := inv.up fun empty => by rw [empty] at admitting; cases admitting
    cases taken
    exact (storing_inv inv up admitting).note
  · rename_i op callback record admitting
    have up : s.mode = .up := inv.up fun empty => by rw [empty] at admitting; cases admitting
    have held : s.memory.Owns .admission op.operationID := by
      rw [Memory.Owns, admitting]
      rfl
    split at taken
    · cases taken
      exact (queueing_inv inv up admitting).note
    · cases taken
      apply Inv.note
      apply Inv.note
      refine inv.removed up rfl rfl rfl rfl rfl (Or.inr rfl) ?_ ?_
      · intro owner owns
        cases owner with
        | admission => cases owns
        | queue => cases inv.alone .admission .queue _ held owns
        | worker place => cases inv.alone .admission (.worker place) _ held owns
      · refine inv.sweeper.later (Nat.le_refl _) fun other now expired found => ?_
        have different := inv.sweeper_ne (inv.live .admission _ held) found expired
        exact (Records.get_delete_other different).trans found

theorem taken_inv {op : Operation} {rest : List Operation} (inv : Inv cfg s) (up : s.mode = .up)
    (idle : s.memory.workers place = .idle) (waiting : s.memory.queue = op :: rest)
    (holds : worker.operation = some op.operationID) (fit : worker.Fits cfg) :
    Inv cfg ({ s with memory := { s.memory with queue := rest } }.setWorker place worker) := by
  have queued := inv.queued
  rw [waiting, List.map_cons, List.nodup_cons] at queued
  have held : s.memory.Owns .queue op.operationID := by
    rw [Memory.Owns, waiting]
    exact List.mem_cons_self
  have alone : ∀ owner, s.memory.Owns owner op.operationID → owner = .queue := fun owner owns =>
    inv.alone owner .queue _ owns held
  have moved : ∀ owner name, ({ s with memory := { s.memory with queue := rest } }.setWorker place
      worker).memory.Owns owner name →
      s.memory.Owns owner name ∧ name ≠ op.operationID ∨
        owner = .worker place ∧ name = op.operationID := by
    intro owner name owns
    cases owner with
    | admission =>
        refine Or.inl ⟨owns, ?_⟩
        rintro rfl
        cases alone .admission owns
    | queue =>
        refine Or.inl ⟨?_, ?_⟩
        · rw [Memory.Owns, waiting]
          exact List.mem_cons_of_mem _ owns
        · rintro rfl
          exact queued.1 owns
    | worker any =>
        change (Function.update s.memory.workers place worker any).operation = some name at owns
        by_cases same : any = place
        · subst same
          rw [Function.update_self, holds] at owns
          exact Or.inr ⟨rfl, (Option.some.inj owns).symm⟩
        · rw [Function.update_of_ne same] at owns
          refine Or.inl ⟨owns, ?_⟩
          rintro rfl
          cases alone (.worker any) owns
  refine ⟨inv.reading, inv.distinct, inv.sound, ?_, alone_of_moved inv moved, queued.2,
    update_fits inv.fits fit, inv.admission, inv.sweeper, mode_fits_of_up up⟩
  intro owner name isOwner
  rcases moved owner name isOwner with ⟨before, _⟩ | ⟨_, rfl⟩
  · exact inv.live owner name before
  · exact inv.live .queue _ held

theorem take_inv (inv : Inv cfg s) (taken : s.take cfg place = some next) : Inv cfg next := by
  unfold take at taken
  split at taken
  · rename_i op rest idle waiting
    have up : s.mode = .up := inv.up fun empty => by rw [empty] at waiting; cases waiting
    cases place with
    | pool index =>
        simp only at taken
        split at taken
        · cases taken
          exact taken_inv inv up idle waiting rfl trivial
        · cases taken
    | closer =>
        simp only at taken
        split at taken
        · cases taken
          exact taken_inv inv up idle waiting rfl trivial
        · cases taken
  · cases taken

theorem runnerAnswers_inv {index : Nat} {answer : Except RunnerError Result} (inv : Inv cfg s)
    (taken : s.runnerAnswers index answer = some next) : Inv cfg next := by
  unfold runnerAnswers at taken
  split at taken
  · rename_i op started working
    cases taken
    refine inv.setWorker (inv.up_of_worker working (by simp)) (fun name holds => ?_) trivial
    exact (congrArg Worker.operation working).trans holds
  · cases taken

theorem exitWorker_inv {index : Nat} (inv : Inv cfg s) (taken : s.exitWorker index = some next) :
    Inv cfg next := by
  unfold exitWorker at taken
  split at taken
  · split at taken
    · rename_i stopped
      cases taken
      have up : s.mode = .up := inv.up fun empty => by rw [empty] at stopped; cases stopped
      exact inv.setWorker up (fun _ holds => by cases holds) trivial
    · cases taken
  · cases taken

/-- The sweep goes on while everything else stays. -/
theorem Inv.setSweeper {sweeper : Sweeper} (inv : Inv cfg s) (up : s.mode = .up)
    (fits : sweeper.Fits s.latest s.records) : Inv cfg (s.setSweeper sweeper) := by
  obtain ⟨reading, distinct, sound, live, alone, queued, workers, admission, _, _⟩ := inv
  exact ⟨reading, distinct, sound, live, alone, queued, workers, admission, fits, mode_fits_of_up up⟩

theorem sweep_inv (inv : Inv cfg s) (taken : s.sweep = some next) : Inv cfg next := by
  unfold sweep at taken
  split at taken
  · rename_i serves
    have up := up_of_serving serves
    have fitted := inv.sweeper
    split at taken
    · cases taken
      exact inv.setSweeper up inv.reading
    · rename_i now listing
      rw [listing] at fitted
      cases taken
      refine inv.setSweeper up ⟨fitted, Records.list_nodup inv.distinct, fun record member _ => ?_⟩
      exact Records.get_of_mem_list inv.distinct member
    · cases taken
      exact inv.setSweeper up trivial
    · rename_i now record rest deleting
      rw [deleting] at fitted
      obtain ⟨reading, distinct, found⟩ := fitted
      rw [List.map_cons, List.nodup_cons] at distinct
      have others : ∀ other ∈ rest, other.expired now = true →
          s.records.get other.operationID = some other := fun other member =>
        found other (List.mem_cons_of_mem _ member)
      split at taken
      · rename_i expired
        cases taken
        have isFound := found record List.mem_cons_self expired
        have removed : Inv cfg ({ s with records := s.records.delete record.operationID }.setSweeper
            (.deleting now rest)) := by
          refine inv.removed up rfl rfl rfl rfl rfl (Or.inl rfl) ?_ ⟨reading, distinct.2, ?_⟩
          · intro owner owns
            exact inv.sweeper_ne (inv.live owner _ owns) isFound expired rfl
          · intro other member isExpired
            have different : other.operationID ≠ record.operationID := by
              intro same
              exact distinct.1 (same ▸ List.mem_map_of_mem member)
            exact (Records.get_delete_other different).trans (others other member isExpired)
        exact removed.note
      · cases taken
        exact inv.setSweeper up ⟨reading, distinct.2, others⟩
    · cases taken
  · cases taken

theorem exitSweeper_inv (inv : Inv cfg s) (taken : s.exitSweeper = some next) : Inv cfg next := by
  unfold exitSweeper at taken
  split at taken
  · split at taken
    · rename_i stopped
      cases taken
      have up : s.mode = .up := inv.up fun empty => by rw [empty] at stopped; cases stopped
      exact inv.setSweeper up trivial
    · cases taken
  · cases taken

theorem close_inv (inv : Inv cfg s) (taken : s.close cfg = some next) : Inv cfg next := by
  unfold close at taken
  have up_of : ∀ closing, s.memory.closing = closing → closing ≠ .serving → s.mode = .up := by
    intro closing isClosing later
    apply inv.up
    intro empty
    rw [empty] at isClosing
    exact later isClosing.symm
  split at taken
  · split at taken
    · rename_i free
      cases taken
      exact inv.aside (unlocked_iff.mp free).1 rfl rfl rfl rfl
    · cases taken
  · rename_i stopping
    cases taken
    exact inv.aside (up_of _ stopping (by simp)) rfl rfl rfl rfl
  · rename_i waiting
    split at taken
    · cases taken
      exact inv.aside (up_of _ waiting (by simp)) rfl rfl rfl rfl
    · cases taken
  · rename_i draining
    split at taken
    · cases taken
      exact inv.aside (up_of _ draining (by simp)) rfl rfl rfl rfl
    · cases taken
  · cases taken

theorem unowned {owner : Owner} : ¬({} : Memory).Owns owner operationID := by
  intro owns
  cases owner <;> cases owns

/-- A process that holds nothing. -/
theorem Inv.empty {records : Records} {mode : Mode} (inv : Inv cfg s)
    (distinct : (records.map Record.operationID).Nodup) (sound : ∀ record ∈ records, record.Sound cfg)
    (fits : mode.Fits records {}) :
    Inv cfg { s with records := records, mode := mode, memory := {} } where
  reading := inv.reading
  distinct := distinct
  sound := sound
  live _ _ owns := absurd owns unowned
  alone _ _ _ owns := absurd owns unowned
  queued := List.nodup_nil
  fits _ := trivial
  admission _ none := by cases none
  sweeper := trivial
  mode := fits

theorem crash_inv (inv : Inv cfg s) : Inv cfg (s.crash cfg) := by
  have records : ∀ kept : Records, (kept.map Record.operationID).Nodup →
      (∀ record ∈ kept, record.Sound cfg) →
      Inv cfg { s with records := kept, mode := .down, memory := {} } := fun kept distinct sound =>
    inv.empty distinct sound rfl
  unfold crash
  cases cfg.durable with
  | true => exact (records _ inv.distinct inv.sound).note
  | false =>
      exact (records [] List.nodup_nil fun _ member => absurd member List.not_mem_nil).note

theorem restart_inv (inv : Inv cfg s) (taken : s.restart = some next) : Inv cfg next := by
  have fits := inv.mode
  unfold restart at taken
  split at taken
  · rename_i down
    rw [down] at fits
    cases taken
    have recovering : Mode.Fits s.records {} (.recovering s.clock s.records.list) :=
      ⟨rfl, Records.list_nodup inv.distinct, fun record => Records.get_of_mem_list inv.distinct⟩
    have empty := inv.empty inv.distinct inv.sound recovering
    rwa [← show s.memory = {} from fits] at empty
  · cases taken
  · cases taken

theorem recover_inv (inv : Inv cfg s) (taken : s.recover cfg = some next) : Inv cfg next := by
  have fits := inv.mode
  unfold recover at taken
  split at taken
  · rename_i recovered
    rw [recovered] at fits
    cases taken
    have empty := inv.empty inv.distinct inv.sound (show Mode.Fits s.records {} .up from trivial)
    rwa [← fits.1] at empty
  · rename_i now record rest recovering
    rw [recovering] at fits
    obtain ⟨isEmpty, distinct, listed⟩ := fits
    rw [List.map_cons, List.nodup_cons] at distinct
    have others : ∀ other ∈ rest, s.records.get other.operationID = some other := fun other member =>
      listed other (List.mem_cons_of_mem _ member)
    cases taken
    split
    · have empty := inv.empty inv.distinct inv.sound
        (show Mode.Fits s.records {} (.recovering now rest) from ⟨rfl, distinct.2, others⟩)
      rwa [← isEmpty] at empty
    · have sound := inv.sound record (Keyed.mem_of_get (listed record List.mem_cons_self))
      have later : Mode.Fits (s.records.put (record.interrupted cfg.retention now)) {}
          (.recovering now rest) := by
        refine ⟨rfl, distinct.2, fun other member => ?_⟩
        have different : other.operationID ≠ (record.interrupted cfg.retention now).operationID := by
          intro same
          exact distinct.1 (List.mem_map.mpr ⟨other, member, same⟩)
        exact (Records.get_put_other different).trans (others other member)
      have empty := inv.empty (Keyed.put_nodup inv.distinct) (fun other member => by
        rcases Records.mem_put inv.distinct member with rfl | old
        · exact (sound.committed rfl).2
        · exact inv.sound other old) later
      rwa [← isEmpty] at empty
  · cases taken
  · cases taken

theorem clock_inv {now : Nat} (inv : Inv cfg s) :
    Inv cfg { s with clock := now, latest := max s.latest now } := by
  obtain ⟨_, distinct, sound, live, alone, queued, workers, admission, sweeper, mode⟩ := inv
  exact ⟨Nat.le_max_right _ _, distinct, sound, live, alone, queued, workers, admission,
    sweeper.later (Nat.le_max_left _ _) fun _ _ _ found => found, mode⟩

theorem act_inv {action : Action} (inv : Inv cfg s) (taken : s.act cfg action = some next) :
    Inv cfg next := by
  cases action with
  | execute op digest callback => exact accept_inv inv taken
  | enqueue => exact enqueue_inv inv taken
  | readCancel operationID => exact readCancel_inv inv taken
  | cancel handler => exact cancel_inv inv taken
  | take place => exact take_inv inv taken
  | work place => exact stepWorker_inv inv rfl taken
  | answer index answer => exact runnerAnswers_inv inv taken
  | exit index => exact exitWorker_inv inv taken
  | sweep => exact sweep_inv inv taken
  | exitSweeper => exact exitSweeper_inv inv taken
  | close => exact close_inv inv taken
  | crash =>
      cases taken
      exact crash_inv inv
  | restart => exact restart_inv inv taken
  | recover => exact recover_inv inv taken
  | clock now =>
      cases taken
      exact clock_inv inv

theorem initial_inv : Inv cfg {} where
  reading := Nat.le_refl _
  distinct := List.nodup_nil
  sound _ member := absurd member List.not_mem_nil
  live _ _ owns := absurd owns unowned
  alone _ _ _ owns := absurd owns unowned
  queued := List.nodup_nil
  fits _ := trivial
  admission _ none := by cases none
  sweeper := trivial
  mode := rfl

theorem Reachable.inv (reached : Reachable cfg s) : Inv cfg s :=
  Steps.invariant (Inv cfg) initial_inv (fun _ _ _ inv _ taken => act_inv inv taken) reached

end ServiceState
end CultureNodes.Runners
