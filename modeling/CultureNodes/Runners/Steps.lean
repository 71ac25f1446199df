import CultureNodes.Runners.Owners

/-!
What one step can do: to the records, to the operations that have not been started, to the flags of
cancels and to the history. The laws of whole runs are read off it.
-/

namespace CultureNodes.Runners

variable {cfg : Config}

def Worker.unstarted : Worker → Option String
  | .taken op | .starting op | .marking op _ _ | .ready op _ => some op.operationID
  | .idle | .exited | .executing _ _ | .returned _ _ _ _ | .ending _ _ | .releasing _ => none

theorem Worker.operation_of_unstarted {worker : Worker} {operationID : String}
    (waits : worker.unstarted = some operationID) : worker.operation = some operationID := by
  cases worker with
  | taken | starting | marking | ready => exact waits
  | idle | exited | executing | returned | ending | releasing => cases waits

/-- The operation has been admitted and not been started. -/
def Memory.Unstarted (memory : Memory) (operationID : String) : Prop :=
  memory.Owns .admission operationID ∨ memory.Owns .queue operationID ∨
    ∃ place, (memory.workers place).unstarted = some operationID

/-- The operation the worker is about to end as cancelled before it was started. -/
def Worker.cancelling : Worker → Option String
  | .ending (.read operationID .cancelled) _ => some operationID
  | .ending (.write record (some .cancelled)) _ => some record.operationID
  | _ => none

theorem Worker.operation_of_cancelling {worker : Worker} {operationID : String}
    (cancels : worker.cancelling = some operationID) : worker.operation = some operationID := by
  unfold Worker.cancelling at cancels
  split at cancels
  · exact cancels
  · exact cancels
  · cases cancels

/-- The moment is about no record and no execution. -/
def Moment.plain : Moment → Bool
  | .created _ | .removed _ | .executed _ => false
  | .cancelReceived _ | .stopRequested _ | .cancelledUnstarted _ | .notified _ _ _ | .answered _ _ => true

def Action.requests : Action → Bool
  | .execute _ _ _ | .enqueue => true
  | _ => false

/-- The moment creates nothing and ends nothing unstarted, and only a request is answered. -/
def Moment.tame (action : Action) : Moment → Bool
  | .created _ | .cancelledUnstarted _ => false
  | .answered _ _ => action.requests
  | .removed _ | .executed _ | .cancelReceived _ | .stopRequested _ | .notified _ _ _ => true

theorem not_mem_of_plain {moments : List Moment} {moment : Moment}
    (plain : ∀ other ∈ moments, other.plain = true) (notPlain : moment.plain = false) :
    moment ∉ moments := by
  intro member
  rw [plain moment member] at notPlain
  contradiction

namespace ServiceState

/-- What one step does to the store and to what has not been started. -/
inductive StoreEffect (s next : ServiceState) : Prop where
  | quiet (moments : List Moment) (log : next.log = s.log ++ moments)
      (plain : ∀ moment ∈ moments, moment.plain = true) (records : next.records = s.records)
      (unstarted : ∀ name, next.memory.Unstarted name → s.memory.Unstarted name)
  | created (record : Record) (log : next.log = s.log ++ [Moment.created record.operationID])
      (absent : s.records.get record.operationID = none) (records : next.records = s.records.put record)
      (unstarted : ∀ name, next.memory.Unstarted name →
        s.memory.Unstarted name ∨ name = record.operationID)
  | executed (operationID : String) (log : next.log = s.log ++ [Moment.executed operationID])
      (records : next.records = s.records) (live : s.records.Live operationID)
      (waiting : s.memory.Unstarted operationID)
      (unstarted : ∀ name, next.memory.Unstarted name → s.memory.Unstarted name ∧ name ≠ operationID)
  | written (record : Record) (moments : List Moment) (log : next.log = s.log ++ moments)
      (plain : ∀ moment ∈ moments, moment.plain = true) (live : s.records.Live record.operationID)
      (records : next.records = s.records.put record)
      (unstarted : ∀ name, next.memory.Unstarted name → s.memory.Unstarted name)
  | removed (operationID : String) (moments : List Moment)
      (log : next.log = s.log ++ Moment.removed operationID :: moments)
      (plain : ∀ moment ∈ moments, moment.plain = true)
      (why : s.memory.Owns .admission operationID ∨ ∃ record now,
        s.records.get operationID = some record ∧ record.expired now = true ∧ now ≤ s.latest)
      (records : next.records = s.records.delete operationID)
      (unstarted : ∀ name, next.memory.Unstarted name → s.memory.Unstarted name)
  | forgotten (log : next.log = s.log ++ s.records.map fun record => Moment.removed record.operationID)
      (records : next.records = []) (down : next.mode = .down)
      (unstarted : ∀ name, ¬next.memory.Unstarted name)

/-- The step writes the first record of the operation. -/
def Stores (s : ServiceState) (action : Action) (operationID : String) : Prop :=
  action = .enqueue ∧ ∃ op callback record,
    s.memory.admission = some (.storing op callback record) ∧ op.operationID = operationID

/-- What one step does: to the store, to the flags and the handlers of cancels, to what is about to be
ended as cancelled, to what is being admitted, and to the history. -/
structure Effect (s : ServiceState) (action : Action) (next : ServiceState) : Prop where
  store : StoreEffect s next
  flags : ∀ name ∈ next.memory.cancelled, name ∈ s.memory.cancelled ∨ ∃ handler read,
    action = .cancel handler ∧ s.memory.cancels handler = some read ∧ read.record.terminal = false ∧
      read.record.operationID = name
  handlers : ∀ handler read, next.memory.cancels handler = some read →
    s.memory.cancels handler = some read ∨
      read.since = s.log.length ∧ s.records.get read.record.operationID = some read.record ∧
        next.log = s.log ++ [Moment.cancelReceived read.record.operationID]
  ends : ∀ place name, (next.memory.workers place).cancelling = some name →
    (s.memory.workers place).cancelling = some name ∨
      name ∈ s.memory.cancelled ∧ (s.memory.workers place).operation = some name
  admission : ∀ name, next.memory.Owns .admission name →
    s.memory.Owns .admission name ∨ s.Stores action name
  log : ∃ moments, next.log = s.log ++ moments ∧
    (∀ name, Moment.cancelledUnstarted name ∉ moments ∨
      moments = [.cancelledUnstarted name] ∧ ∃ place, (s.memory.workers place).cancelling = some name) ∧
    (∀ name, Moment.created name ∈ moments → s.Stores action name) ∧
    ∀ name answer, Moment.answered name answer ∈ moments → action.requests = true

variable {s next : ServiceState} {place : Place} {worker : Worker} {operationID : String} {action : Action}
  {moments : List Moment}

/-- A step that sets no flag, reads no record for a cancel and admits nothing. -/
theorem Effect.calm (store : StoreEffect s next) (log : next.log = s.log ++ moments)
    (tame : ∀ moment ∈ moments, moment.tame action = true)
    (flags : ∀ name ∈ next.memory.cancelled, name ∈ s.memory.cancelled)
    (handlers : ∀ handler read, next.memory.cancels handler = some read →
      s.memory.cancels handler = some read)
    (ends : ∀ place name, (next.memory.workers place).cancelling = some name →
      (s.memory.workers place).cancelling = some name)
    (admission : ∀ name, next.memory.Owns .admission name → s.memory.Owns .admission name) :
    Effect s action next where
  store := store
  flags name member := Or.inl (flags name member)
  handlers handler read held := Or.inl (handlers handler read held)
  ends place name cancels := Or.inl (ends place name cancels)
  admission name owns := Or.inl (admission name owns)
  log := by
    refine ⟨moments, log, fun name => Or.inl fun ended => ?_, fun name created => ?_,
      fun name answer => tame _⟩
    · cases tame _ ended
    · cases tame _ created

theorem unstarted_of_same {memory after : Memory} (queue : after.queue = memory.queue)
    (admission : after.admission = memory.admission) (workers : after.workers = memory.workers) :
    ∀ name, after.Unstarted name → memory.Unstarted name := by
  intro name waits
  unfold Memory.Unstarted Memory.Owns at waits ⊢
  rwa [queue, admission, workers] at waits

theorem owns_of_same {memory after : Memory} (admission : after.admission = memory.admission) :
    ∀ name, after.Owns .admission name → memory.Owns .admission name := by
  intro name owns
  unfold Memory.Owns at owns ⊢
  rwa [admission] at owns

/-- A step that is at most noted. -/
theorem Effect.same (log : next.log = s.log ++ moments)
    (plain : ∀ moment ∈ moments, moment.plain = true ∧ moment.tame action = true)
    (records : next.records = s.records) (queue : next.memory.queue = s.memory.queue)
    (admission : next.memory.admission = s.memory.admission)
    (workers : next.memory.workers = s.memory.workers)
    (cancelled : next.memory.cancelled = s.memory.cancelled)
    (cancels : next.memory.cancels = s.memory.cancels) : Effect s action next :=
  .calm (.quiet moments log (fun moment member => (plain moment member).1) records
      (unstarted_of_same queue admission workers))
    log (fun moment member => (plain moment member).2) (fun _ member => cancelled ▸ member)
    (fun _ _ held => cancels ▸ held) (fun _ _ ends => workers ▸ ends) (owns_of_same admission)

theorem Effect.silent (log : next.log = s.log) (records : next.records = s.records)
    (queue : next.memory.queue = s.memory.queue) (admission : next.memory.admission = s.memory.admission)
    (workers : next.memory.workers = s.memory.workers)
    (cancelled : next.memory.cancelled = s.memory.cancelled)
    (cancels : next.memory.cancels = s.memory.cancels) : Effect s action next :=
  .same (log.trans (List.append_nil _).symm) (by simp) records queue admission workers cancelled cancels

theorem update_unstarted {memory : Memory} {holds : String → Prop}
    (before : ∀ name, memory.Unstarted name → holds name)
    (kept : ∀ name, worker.unstarted = some name → holds name) :
    ∀ name, Memory.Unstarted { memory with
      workers := Function.update memory.workers place worker } name → holds name := by
  intro name waits
  rcases waits with admitted | queued | ⟨any, waits⟩
  · exact before name (Or.inl admitted)
  · exact before name (Or.inr (Or.inl queued))
  · dsimp only at waits
    by_cases same : any = place
    · subst same
      rw [Function.update_self] at waits
      exact kept name waits
    · rw [Function.update_of_ne same] at waits
      exact before name (Or.inr (Or.inr ⟨any, waits⟩))

theorem update_cancelling {workers : Place → Worker} {holds : Place → String → Prop}
    (before : ∀ any name, (workers any).cancelling = some name → holds any name)
    (kept : ∀ name, worker.cancelling = some name → holds place name) :
    ∀ any name, (Function.update workers place worker any).cancelling = some name → holds any name := by
  intro any name cancels
  by_cases same : any = place
  · subst same
    rw [Function.update_self] at cancels
    exact kept name cancels
  · rw [Function.update_of_ne same] at cancels
    exact before any name cancels

/-- A worker goes on without a word to the store. -/
theorem Effect.works (log : next.log = s.log ++ moments)
    (plain : ∀ moment ∈ moments, moment.plain = true ∧ moment.tame action = true)
    (records : next.records = s.records)
    (unstarted : ∀ name, next.memory.Unstarted name → s.memory.Unstarted name)
    (admission : next.memory.admission = s.memory.admission)
    (cancelled : ∀ name ∈ next.memory.cancelled, name ∈ s.memory.cancelled)
    (cancels : next.memory.cancels = s.memory.cancels)
    (workers : next.memory.workers = Function.update s.memory.workers place worker)
    (ends : ∀ name, worker.cancelling = some name → (s.memory.workers place).cancelling = some name) :
    Effect s action next := by
  refine .calm (.quiet moments log (fun moment member => (plain moment member).1) records unstarted) log
    (fun moment member => (plain moment member).2) cancelled (fun _ _ held => cancels ▸ held) ?_
    (owns_of_same admission)
  rw [workers]
  exact update_cancelling (fun _ _ ends => ends) ends

theorem setWorker_effect (waits : ∀ name, worker.unstarted = some name → s.memory.Unstarted name)
    (ends : ∀ name, worker.cancelling = some name → (s.memory.workers place).cancelling = some name) :
    Effect s action (s.setWorker place worker) :=
  .works (List.append_nil _).symm (by simp) rfl (update_unstarted (fun _ before => before) waits) rfl
    (fun _ member => member) rfl rfl ends

theorem accept_effect {op : Operation} {digest : String} {callback : Option CallbackTarget}
    (taken : s.accept cfg op digest callback = some next) :
    Effect s (.execute op digest callback) next := by
  have answered : ∀ answer, Effect s (.execute op digest callback) (s.answered op.operationID answer) :=
    fun answer => .same rfl (by simp [Moment.plain, Moment.tame, Action.requests]) rfl rfl rfl rfl rfl rfl
  unfold accept at taken
  split at taken
  · split at taken
    · cases taken
      exact answered _
    · split at taken
      · split at taken
        · cases taken
          exact answered _
        · cases taken
          exact answered _
      · split at taken
        · cases taken
          exact answered _
        · cases taken
          refine .calm (.quiet [] (List.append_nil _).symm (by simp) rfl fun name waits => ?_)
            (List.append_nil _).symm (by simp) (fun _ member => member) (fun _ _ held => held)
            (fun _ _ ends => ends) fun name owns => by cases owns
          rcases waits with admitted | queued | waits
          · cases admitted
          · exact Or.inr (Or.inl queued)
          · exact Or.inr (Or.inr waits)
  · cases taken

theorem remove_log {record : Record} (found : s.records.get operationID = some record) :
    (s.remove operationID).log = s.log ++ [Moment.removed operationID] := by
  simp only [remove, note, found, Option.isSome_some, if_true]

theorem answered_removed_log {record : Record} {m : Memory} {r : Refusal}
    (found : s.records.get operationID = some record) :
    (({ s with memory := m }.remove operationID).answered operationID (.error r)).log =
      s.log ++ [Moment.removed operationID, .answered operationID (.error r)] := by
  have log := remove_log (s := { s with memory := m }) found
  simp only [answered, note, log, List.append_assoc]
  rfl

theorem enqueue_effect (inv : Inv cfg s) (taken : s.enqueue cfg = some next) : Effect s .enqueue next := by
  unfold enqueue at taken
  split at taken
  · cases taken
  · rename_i op callback record admitting
    obtain ⟨named, _, _, absent⟩ := inv.admission _ admitting
    cases taken
    have stores : s.Stores .enqueue op.operationID := ⟨rfl, op, callback, record, admitting, rfl⟩
    refine ⟨.created record (by rw [named]; rfl) (named ▸ absent) rfl fun name waits => ?_,
      fun _ member => Or.inl member, fun _ _ held => Or.inl held, fun _ _ ends => Or.inl ends,
      fun name owns => ?_, _, rfl, by simp, fun name created => ?_, by simp⟩
    · rcases waits with admitted | queued | waits
      · exact Or.inr ((Option.some.inj admitted).symm.trans named.symm)
      · exact Or.inl (Or.inr (Or.inl queued))
      · exact Or.inl (Or.inr (Or.inr waits))
    · rw [← Option.some.inj owns]
      exact Or.inr stores
    · rw [Moment.created.inj (List.mem_singleton.mp created)]
      exact stores
  · rename_i op callback record admitting
    have held : s.memory.Owns .admission op.operationID := by
      rw [Memory.Owns, admitting]
      rfl
    split at taken
    · cases taken
      refine .calm (.quiet _ rfl (by simp [Moment.plain]) rfl fun name waits => ?_) rfl
        (by simp [Moment.tame, Action.requests]) (fun _ member => member) (fun _ _ held => held)
        (fun _ _ ends => ends) fun name owns => by cases owns
      rcases waits with admitted | queued | waits
      · cases admitted
      · change name ∈ (s.memory.queue ++ [op]).map Operation.operationID at queued
        rw [List.map_append, List.mem_append] at queued
        rcases queued with old | new
        · exact Or.inr (Or.inl old)
        · rw [List.mem_singleton.mp new]
          exact Or.inl held
      · exact Or.inr (Or.inr waits)
    · cases taken
      obtain ⟨existing, found, _⟩ := inv.live .admission _ held
      have log := answered_removed_log (m := { s.memory with admission := none })
        (r := ⟨429, "this runner's work queue is full; retry after 5s"⟩) found
      refine .calm (.removed op.operationID _ log (by simp [Moment.plain]) (Or.inl held) rfl
        fun name waits => ?_) log (by simp [Moment.tame, Action.requests]) (fun _ member => member)
        (fun _ _ held => held) (fun _ _ ends => ends) fun name owns => by cases owns
      rcases waits with admitted | queued | waits
      · cases admitted
      · exact Or.inr (Or.inl queued)
      · exact Or.inr (Or.inr waits)

theorem readCancel_effect (taken : s.readCancel operationID = some next) : Effect s action next := by
  unfold readCancel at taken
  split at taken
  · split at taken
    · cases taken
      exact .silent rfl rfl rfl rfl rfl rfl rfl
    · rename_i record found
      split at taken
      · cases taken
        exact .silent rfl rfl rfl rfl rfl rfl rfl
      · cases taken
        have named := Keyed.key_get found
        refine ⟨.quiet _ rfl (by simp [Moment.plain]) rfl fun _ waits => waits,
          fun _ member => Or.inl member, fun handler read held => ?_, fun _ _ ends => Or.inl ends,
          fun _ owns => Or.inl owns, _, rfl, by simp, by simp, by simp⟩
        change Function.update s.memory.cancels s.memory.nextCancel (some ⟨record, s.log.length⟩) handler =
          some read at held
        by_cases new : handler = s.memory.nextCancel
        · rw [new, Function.update_self] at held
          obtain rfl := Option.some.inj held
          refine Or.inr ⟨rfl, ?_, ?_⟩
          · rw [named]
            exact found
          · rw [named]
            rfl
        · rw [Function.update_of_ne new] at held
          exact Or.inl held
  · cases taken

theorem cancel_effect {handler : Nat} (taken : s.cancel handler = some next) :
    Effect s (.cancel handler) next := by
  unfold cancel at taken
  split at taken
  · obtain ⟨read, held, rfl⟩ := Option.map_eq_some_iff.mp taken
    have others : ∀ other any, Function.update s.memory.cancels handler none other = some any →
        s.memory.cancels other = some any := by
      intro other any isHeld
      by_cases same : other = handler
      · rw [same, Function.update_self] at isHeld
        contradiction
      · rwa [Function.update_of_ne same] at isHeld
    split
    · exact .calm (.quiet [] (List.append_nil _).symm (by simp) rfl fun _ waits => waits)
        (List.append_nil _).symm (by simp) (fun _ member => member) others (fun _ _ ends => ends)
        fun _ owns => owns
    · rename_i pending
      refine ⟨.quiet _ rfl ?_ rfl fun _ waits => waits, fun name member => ?_,
        fun other any isHeld => Or.inl (others other any isHeld), fun _ _ ends => Or.inl ends,
        fun _ owns => Or.inl owns, _, rfl, fun name => Or.inl ?_, fun name => ?_, fun name answer => ?_⟩
      · split <;> simp [Moment.plain]
      · rcases List.mem_insert_iff.mp member with rfl | old
        · exact Or.inr ⟨handler, read, rfl, held, Bool.eq_false_iff.mpr pending, rfl⟩
        · exact Or.inl old
      · split <;> simp
      · split <;> simp
      · split <;> simp
  · cases taken

theorem take_effect (taken : s.take cfg place = some next) : Effect s action next := by
  unfold take at taken
  split at taken
  · rename_i op rest idle waiting
    have rested : ∀ name, Memory.Unstarted { s.memory with queue := rest } name →
        s.memory.Unstarted name := by
      intro name waits
      rcases waits with admitted | queued | waits
      · exact Or.inl admitted
      · refine Or.inr (Or.inl ?_)
        rw [Memory.Owns, waiting]
        exact List.mem_cons_of_mem _ queued
      · exact Or.inr (Or.inr waits)
    have first : s.memory.Unstarted op.operationID := by
      refine Or.inr (Or.inl ?_)
      rw [Memory.Owns, waiting]
      exact List.mem_cons_self
    cases place with
    | pool index =>
        simp only at taken
        split at taken
        · cases taken
          refine .works (List.append_nil _).symm (by simp) rfl (update_unstarted rested fun name isFirst => ?_)
            rfl (fun _ member => member) rfl rfl fun name none => by cases none
          rw [← Option.some.inj isFirst]
          exact first
        · cases taken
    | closer =>
        simp only at taken
        split at taken
        · cases taken
          exact .works (List.append_nil _).symm (by simp) rfl
            (update_unstarted rested fun name none => by cases none) rfl (fun _ member => member) rfl rfl
            fun name none => by cases none
        · cases taken
  · cases taken

theorem through_plain {inflight : Bool} :
    (∀ name, (if inflight then Worker.releasing operationID else .idle).unstarted ≠ some name) ∧
      ∀ name, (if inflight then Worker.releasing operationID else .idle).cancelling ≠ some name := by
  cases inflight with
  | true => exact ⟨fun _ none => (by cases none), fun _ none => (by cases none)⟩
  | false => exact ⟨fun _ none => (by cases none), fun _ none => (by cases none)⟩

theorem stepEnding_effect {inflight : Bool} {ends : Ending} (inv : Inv cfg s)
    (working : s.memory.workers place = .ending ends inflight)
    (taken : s.stepEnding cfg place inflight ends = some next) : Effect s action next := by
  cases ends with
  | read name reason =>
      simp only [stepEnding] at taken
      split at taken
      · cases taken
        exact setWorker_effect (fun other waits => absurd waits (through_plain.1 other))
          fun other cancels => absurd cancels (through_plain.2 other)
      · rename_i record found
        cases taken
        refine setWorker_effect (fun other none => by cases none) fun other cancels => ?_
        cases reason with
        | cancelled =>
            rw [working, ← cancels]
            exact congrArg some (Keyed.key_get found).symm
        | shutDown => cases cancels
  | write record reason =>
      cases taken
      have owned : s.memory.Owns (.worker place) record.operationID := by
        rw [Memory.Owns, working]
        rfl
      refine ⟨.written record _ rfl ?_ (inv.live _ _ owned) rfl (update_unstarted (fun _ waits => waits)
          fun other none => (by cases none)), fun _ member => Or.inl member, fun _ _ held => Or.inl held,
        update_cancelling (fun _ _ cancels => Or.inl cancels) fun other none => (by cases none),
        fun _ owns => Or.inl owns, _, rfl, fun other => ?_, fun other => ?_, fun other answer => ?_⟩
      · split <;> simp [Moment.plain]
      · split
        · rename_i isCancelled
          by_cases same : other = record.operationID
          · refine Or.inr ⟨by rw [same], place, ?_⟩
            rw [working, isCancelled, same]
            rfl
          · exact Or.inl (by simp [same])
        · exact Or.inl (by simp)
      · split <;> simp
      · split <;> simp
  | clear name state =>
      simp only [stepEnding] at taken
      split at taken
      · cases taken
        refine .works rfl ?_ rfl ?_ rfl (fun _ member => List.mem_of_mem_erase member) rfl rfl
          fun other cancels => absurd cancels (through_plain.2 other)
        · split <;> simp [Moment.plain, Moment.tame]
        · exact update_unstarted (fun _ waits => waits) fun other waits =>
            absurd waits (through_plain.1 other)
      · cases taken

theorem stepWorker_effect (inv : Inv cfg s) (working : s.memory.workers place = worker)
    (taken : s.stepWorker cfg place worker = some next) : Effect s action next := by
  have waits : ∀ name, worker.unstarted = some name → s.memory.Unstarted name := by
    intro name isFirst
    exact Or.inr (Or.inr ⟨place, working ▸ isFirst⟩)
  cases worker with
  | idle | exited | executing => cases taken
  | taken op =>
      simp only [stepWorker] at taken
      split at taken
      · split at taken
        · rename_i flagged
          cases taken
          refine ⟨.quiet [] (List.append_nil _).symm (by simp) rfl (update_unstarted (fun _ before => before)
              fun name none => (by cases none)), fun _ member => Or.inl member,
            fun _ _ held => Or.inl held, ?_, fun _ owns => Or.inl owns,
            [], (List.append_nil _).symm, by simp, by simp, by simp⟩
          refine update_cancelling (fun _ _ cancels => Or.inl cancels) fun name cancels => Or.inr ?_
          rw [← Option.some.inj cancels, working]
          exact ⟨List.contains_iff_mem.mp flagged, rfl⟩
        · cases taken
          exact .works (List.append_nil _).symm (by simp) rfl (update_unstarted (fun _ before => before) waits)
            rfl (fun _ member => member) rfl rfl fun name none => by cases none
      · cases taken
  | starting op =>
      cases taken
      exact setWorker_effect waits fun name none => by cases none
  | marking op started read =>
      have fit := inv.fits place
      rw [working] at fit
      obtain ⟨record, rfl, named, _, _⟩ := fit
      cases taken
      have owned : s.memory.Owns (.worker place) (record.marked started).operationID := by
        rw [Memory.Owns, working]
        exact congrArg some named.symm
      exact .calm (.written (record.marked started) [] (List.append_nil _).symm (by simp)
          (inv.live _ _ owned) rfl (update_unstarted (fun _ before => before) waits))
        (List.append_nil _).symm (by simp) (fun _ member => member) (fun _ _ held => held)
        (update_cancelling (fun _ _ ends => ends) fun name none => by cases none) fun _ owns => owns
  | ready op started =>
      cases taken
      have owned : s.memory.Owns (.worker place) op.operationID := by
        rw [Memory.Owns, working]
        rfl
      refine .calm (.executed op.operationID rfl rfl (inv.live _ _ owned) (waits _ rfl) fun name still => ?_)
        rfl (by simp [Moment.tame]) (fun _ member => member) (fun _ _ held => held)
        (update_cancelling (fun _ _ ends => ends) fun name none => by cases none) fun _ owns => owns
      rcases still with admitted | queued | ⟨any, still⟩
      · refine ⟨Or.inl admitted, ?_⟩
        rintro rfl
        cases inv.alone .admission (.worker place) _ admitted owned
      · refine ⟨Or.inr (Or.inl queued), ?_⟩
        rintro rfl
        cases inv.alone .queue (.worker place) _ queued owned
      · change (Function.update s.memory.workers place _ any).unstarted = some name at still
        by_cases same : any = place
        · rw [same, Function.update_self] at still
          cases still
        · rw [Function.update_of_ne same] at still
          refine ⟨Or.inr (Or.inr ⟨any, still⟩), ?_⟩
          rintro rfl
          have other : s.memory.Owns (.worker any) op.operationID := Worker.operation_of_unstarted still
          exact same (Owner.worker.inj (inv.alone _ _ _ other owned))
  | returned op started finished answer =>
      simp only [stepWorker] at taken
      split at taken
      · cases taken
        exact setWorker_effect (fun name none => by cases none) fun name none => by cases none
      · cases taken
        exact setWorker_effect (fun name none => by cases none) fun name none => by cases none
  | ending ends inflight => exact stepEnding_effect inv working taken
  | releasing name =>
      simp only [stepWorker] at taken
      split at taken
      · cases taken
        exact .works (List.append_nil _).symm (by simp) rfl
          (update_unstarted (fun _ before => before) fun other none => by cases none) rfl
          (fun _ member => member) rfl rfl fun other none => by cases none
      · cases taken

theorem sweep_effect (inv : Inv cfg s) (taken : s.sweep = some next) : Effect s action next := by
  have fitted := inv.sweeper
  unfold sweep at taken
  split at taken
  · split at taken
    · cases taken
      exact .silent rfl rfl rfl rfl rfl rfl rfl
    · cases taken
      exact .silent rfl rfl rfl rfl rfl rfl rfl
    · cases taken
      exact .silent rfl rfl rfl rfl rfl rfl rfl
    · rename_i now record rest deleting
      rw [deleting] at fitted
      split at taken
      · rename_i expired
        cases taken
        have found := fitted.2.2 record List.mem_cons_self expired
        exact .calm (.removed record.operationID [] (remove_log found) (by simp)
            (Or.inr ⟨record, now, found, expired, fitted.1⟩) rfl fun _ waits => waits)
          (remove_log found) (by simp [Moment.tame]) (fun _ member => member) (fun _ _ held => held)
          (fun _ _ ends => ends) fun _ owns => owns
      · cases taken
        exact .silent rfl rfl rfl rfl rfl rfl rfl
    · cases taken
  · cases taken

theorem close_effect (taken : s.close cfg = some next) : Effect s action next := by
  unfold close at taken
  split at taken
  · split at taken
    · cases taken
      exact .silent rfl rfl rfl rfl rfl rfl rfl
    · cases taken
  · cases taken
    exact .silent rfl rfl rfl rfl rfl rfl rfl
  · split at taken
    · cases taken
      exact .silent rfl rfl rfl rfl rfl rfl rfl
    · cases taken
  · split at taken
    · cases taken
      exact .silent rfl rfl rfl rfl rfl rfl rfl
    · cases taken
  · cases taken

theorem not_unstarted : ¬({} : Memory).Unstarted operationID := by
  rintro (admitted | queued | ⟨place, waits⟩)
  · exact unowned admitted
  · exact unowned queued
  · cases waits

theorem crash_effect : Effect s action (s.crash cfg) := by
  have store : StoreEffect s (s.crash cfg) := by
    cases durable : cfg.durable with
    | true =>
        refine .quiet [] ?_ (by simp) ?_ fun name waits => absurd waits not_unstarted
        · simp [crash, durable]
        · simp [crash, durable]
    | false =>
        refine .forgotten ?_ ?_ rfl fun name => not_unstarted
        · simp [crash, durable]
        · simp [crash, durable]
  refine .calm store rfl ?_ ?_ ?_ ?_ ?_
  · split <;> simp [Moment.tame]
  · intro name flagged
    cases flagged
  · intro handler read held
    cases held
  · intro place name cancels
    cases cancels
  · intro name owns
    cases owns

theorem recover_effect (inv : Inv cfg s) (taken : s.recover cfg = some next) : Effect s action next := by
  have fits := inv.mode
  unfold recover at taken
  split at taken
  · cases taken
    exact .silent rfl rfl rfl rfl rfl rfl rfl
  · rename_i now record rest recovering
    rw [recovering] at fits
    have listed := fits.2.2 record List.mem_cons_self
    cases taken
    split
    · exact .silent rfl rfl rfl rfl rfl rfl rfl
    · rename_i pending
      exact .calm (.written (record.interrupted cfg.retention now) [] (List.append_nil _).symm (by simp)
          ⟨record, listed, Bool.eq_false_iff.mpr pending⟩ rfl fun _ waits => waits)
        (List.append_nil _).symm (by simp) (fun _ member => member) (fun _ _ held => held)
        (fun _ _ ends => ends) fun _ owns => owns
  · cases taken
  · cases taken

/-- What a step can do. -/
theorem act_effect (inv : Inv cfg s) (taken : s.act cfg action = some next) : Effect s action next := by
  cases action with
  | execute op digest callback => exact accept_effect taken
  | enqueue => exact enqueue_effect inv taken
  | readCancel operationID => exact readCancel_effect taken
  | cancel handler => exact cancel_effect taken
  | take place => exact take_effect taken
  | work place => exact stepWorker_effect inv rfl taken
  | answer index answer =>
      simp only [act, runnerAnswers] at taken
      split at taken
      · cases taken
        exact setWorker_effect (fun name none => by cases none) fun name none => by cases none
      · cases taken
  | exit index =>
      simp only [act, exitWorker] at taken
      split at taken
      · split at taken
        · cases taken
          exact setWorker_effect (fun name none => by cases none) fun name none => by cases none
        · cases taken
      · cases taken
  | sweep => exact sweep_effect inv taken
  | exitSweeper =>
      simp only [act, exitSweeper] at taken
      split at taken
      · split at taken
        · cases taken
          exact .silent rfl rfl rfl rfl rfl rfl rfl
        · cases taken
      · cases taken
  | close => exact close_effect taken
  | crash =>
      cases taken
      exact crash_effect
  | restart =>
      simp only [act, restart] at taken
      split at taken
      · cases taken
        exact .silent rfl rfl rfl rfl rfl rfl rfl
      · cases taken
      · cases taken
  | recover => exact recover_effect inv taken
  | clock now =>
      cases taken
      exact .silent rfl rfl rfl rfl rfl rfl rfl

theorem StoreEffect.longer (effect : StoreEffect s next) : ∃ moments, next.log = s.log ++ moments := by
  cases effect with
  | quiet moments log => exact ⟨moments, log⟩
  | created record log => exact ⟨_, log⟩
  | executed name log => exact ⟨_, log⟩
  | written record moments log => exact ⟨moments, log⟩
  | removed name moments log => exact ⟨_, log⟩
  | forgotten log => exact ⟨_, log⟩

theorem StoreEffect.was_there (effect : StoreEffect s next) {record : Record}
    (found : next.records.get operationID = some record) :
    (∃ before, s.records.get operationID = some before) ∨
      ∃ moments, next.log = s.log ++ moments ∧ Moment.created operationID ∈ moments := by
  cases effect with
  | quiet moments log plain records unstarted => exact Or.inl ⟨record, records ▸ found⟩
  | created new log absent records unstarted =>
      by_cases same : operationID = new.operationID
      · rw [same]
        exact Or.inr ⟨_, log, List.mem_cons_self⟩
      · rw [records, Records.get_put_other same] at found
        exact Or.inl ⟨record, found⟩
  | executed name log records live waiting unstarted => exact Or.inl ⟨record, records ▸ found⟩
  | written new moments log plain live records unstarted =>
      by_cases same : operationID = new.operationID
      · obtain ⟨before, isBefore, _⟩ := live
        exact Or.inl ⟨before, same ▸ isBefore⟩
      · rw [records, Records.get_put_other same] at found
        exact Or.inl ⟨record, found⟩
  | removed name moments log plain why records unstarted =>
      by_cases same : operationID = name
      · rw [records, same, Records.get, Records.delete, Keyed.get_delete_self] at found
        contradiction
      · rw [records, Records.get_delete_other same] at found
        exact Or.inl ⟨record, found⟩
  | forgotten log records down unstarted =>
      rw [records] at found
      cases found

theorem StoreEffect.stays_there (effect : StoreEffect s next) {record : Record}
    (found : s.records.get operationID = some record) :
    (∃ after, next.records.get operationID = some after) ∨
      ∃ moments, next.log = s.log ++ moments ∧ Moment.removed operationID ∈ moments := by
  have put : ∀ new : Record, ∃ after, (s.records.put new).get operationID = some after := fun new =>
    Keyed.get_put_some found
  cases effect with
  | quiet moments log plain records unstarted => exact Or.inl ⟨record, records ▸ found⟩
  | created new log absent records unstarted => exact Or.inl (records ▸ put new)
  | executed name log records live waiting unstarted => exact Or.inl ⟨record, records ▸ found⟩
  | written new moments log plain live records unstarted => exact Or.inl (records ▸ put new)
  | removed name moments log plain why records unstarted =>
      by_cases same : operationID = name
      · rw [same]
        exact Or.inr ⟨_, log, List.mem_cons_self⟩
      · rw [records]
        exact Or.inl ⟨record, (Records.get_delete_other same).trans found⟩
  | forgotten log records down unstarted =>
      rw [← Keyed.key_get found]
      exact Or.inr ⟨_, log, List.mem_map.mpr ⟨record, Keyed.mem_of_get found, rfl⟩⟩

end ServiceState
end CultureNodes.Runners
