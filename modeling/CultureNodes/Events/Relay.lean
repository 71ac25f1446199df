import Mathlib.Data.List.Sort
import CultureNodes.Library.Json
import CultureNodes.Library.Outbox
import CultureNodes.Library.Transition

/-!
The relay from the outbox to the work queue and the event sink, with the queue's table of signals. Several
relays run beside one another. A batch is one transaction: its rows are locked, each is published to the
queue, then given to the sink, then marked, and the marks are committed together. A relay may fail or die
anywhere, which rolls its batch back.
-/

namespace CultureNodes.Relay

inductive Status where
  | pending
  | published
deriving DecidableEq, Repr

structure OutboxRow where
  id : String
  namespaceID : String
  topic : String
  payload : Json
  status : Status := .pending
  availableAt : Int := 0

structure WorkRef where
  workID : String
  nodeRunID : String
  namespaceID : String
deriving DecidableEq, Repr

structure Envelope where
  id : String
  source : String
  specVersion : String := ""
  type : String
  subject : String := ""
  time : Int
  dataContentType : String := ""
  data : Json

def typePrefix : String := "dev.culture.nodes."

def defaultSource : String := "nodes"

def Envelope.applyDefaults (env : Envelope) : Envelope :=
  { env with
    source := if env.source = "" then defaultSource else env.source
    specVersion := if env.specVersion = "" then "1.0" else env.specVersion
    dataContentType := if env.dataContentType = "" then "application/json" else env.dataContentType }

/-- The first attribute that is missing or refused. -/
def Envelope.validate (env : Envelope) : Except String Unit :=
  if env.id = "" then .error "events: envelope: id is required"
  else if env.source = "" then .error "events: envelope: source is required"
  else if env.specVersion = "" then .error "events: envelope: specversion is required"
  else if env.type = "" then .error "events: envelope: type is required"
  else if !typePrefix.toList.isPrefixOf env.type.toList then
    .error ("events: envelope: type " ++ env.type.quote ++ " must start with " ++ typePrefix.quote)
  else if env.dataContentType = "" then .error "events: envelope: datacontenttype is required"
  else .ok ()

structure RelayOptions where
  batchSize : Int := 0
  source : String := ""

def RelayOptions.rows (options : RelayOptions) : Nat :=
  if options.batchSize ≤ 0 then 50 else options.batchSize.toNat

def RelayOptions.origin (options : RelayOptions) : String :=
  if options.source = "" then defaultSource else options.source

/-- The envelope of a row; its id is the row's own, its time is when it is built. -/
def envelopeFromOutbox (options : RelayOptions) (time : Int) (row : OutboxRow) : Except String Envelope :=
  let env : Envelope :=
    Envelope.applyDefaults { id := row.id, source := options.origin, type := row.topic, time := time, data := row.payload }
  env.validate.map fun _ => env

def nodeRunIDFromPayload (payload : Json) : String := (payload.decodeText "node_run_id").getD ""

def workRefFromOutbox (row : OutboxRow) : WorkRef :=
  ⟨row.id, nodeRunIDFromPayload row.payload, row.namespaceID⟩

structure QueueSignal where
  id : String
  namespaceID : String
  nodeRunID : String
  availableAt : Int
deriving DecidableEq, Repr

/-- A signal is inserted unless one of its id is there. -/
def publish (signals : List QueueSignal) (ref : WorkRef) (now : Int) : Except String (List QueueSignal) :=
  if ref.workID = "" then .error "queue/postgres: Publish: WorkID is required"
  else if ref.namespaceID = "" then .error "queue/postgres: Publish: NamespaceID is required"
  else if ref.workID ∈ signals.map QueueSignal.id then .ok signals
  else .ok (signals ++ [⟨ref.workID, ref.namespaceID, ref.nodeRunID, now⟩])

def ack (signals : List QueueSignal) (receipt : String) : List QueueSignal :=
  signals.filter (·.id ≠ receipt)

def delay (signals : List QueueSignal) (receipt : String) (availableAt : Int) : List QueueSignal :=
  Table.update signals (·.id = receipt) fun signal => { signal with availableAt := availableAt }

inductive Handed where
  | signal (ref : WorkRef)
  | event (env : Envelope)

/-- `acked` are the receipts that were acknowledged, oldest first. -/
structure RelayState where
  outbox : Outbox.State OutboxRow Handed := {}
  signals : List QueueSignal := []
  acked : List String := []

inductive RelayAction where
  | append (row : OutboxRow)
  | runBatch (relay : Nat) (now : Int)
  | publish (relay : Nat) (now : Int)
  | sink (relay : Nat) (time : Int)
  | mark (relay : Nat)
  | commit (relay : Nat)
  | rollback (relay : Nat)
  | ack (receipt : String)
  | delay (receipt : String) (availableAt : Int)

/-- The pending rows that are due and that no relay has locked, by their id, as many as a batch takes. -/
def selectBatch (options : RelayOptions) (now : Int) (state : Outbox.State OutboxRow Handed) : List OutboxRow :=
  (((state.unlocked OutboxRow.id).filter fun row => row.status = .pending && row.availableAt ≤ now).insertionSort
    fun one other => one.id ≤ other.id).take options.rows

def RelayState.batch? (state : RelayState) (relay : Nat) : Option (Outbox.Batch OutboxRow Handed) :=
  state.outbox.batches.find? (·.worker = relay)

/-- The transaction of a relay after it did something outside for the row it is at. -/
def RelayState.handOn (state : RelayState) (batch : Outbox.Batch OutboxRow Handed) (handed : Handed) : RelayState :=
  { state with outbox :=
    { state.outbox.replace (batch.begin handed) with effects := state.outbox.effects ++ [handed] } }

variable (options : Nat → RelayOptions)

/-- One statement of a relay, or of whoever appends to the outbox or receives from the queue. What a relay
does next for a row follows from what it has done for it. -/
def RelayState.act (state : RelayState) : RelayAction → Option RelayState
  | .append row =>
      if row.status = .pending ∧ row.id ∉ state.outbox.rows.map OutboxRow.id then
        some { state with outbox := state.outbox.insert row }
      else none
  | .runBatch relay now =>
      let batch := selectBatch (options relay) now state.outbox
      if batch = [] ∨ relay ∈ state.outbox.batches.map Outbox.Batch.worker then none
      else some { state with outbox := state.outbox.select relay batch }
  | .publish relay now =>
      (state.batch? relay).bind fun batch =>
        match batch.left, batch.begun with
        | row :: _, [] =>
            match envelopeFromOutbox (options relay) now row, publish state.signals (workRefFromOutbox row) now with
            | .ok _, .ok signals =>
                some { state.handOn batch (.signal (workRefFromOutbox row)) with signals := signals }
            | _, _ => none
        | _, _ => none
  | .sink relay time =>
      (state.batch? relay).bind fun batch =>
        match batch.left, batch.begun with
        | row :: _, [_] =>
            match envelopeFromOutbox (options relay) time row with
            | .ok env => some (state.handOn batch (.event env))
            | .error _ => none
        | _, _ => none
  | .mark relay =>
      (state.batch? relay).bind fun batch =>
        match batch.left, batch.begun with
        | row :: _, [_, _] =>
            some { state with outbox := state.outbox.replace (batch.settle { row with status := .published }) }
        | _, _ => none
  | .commit relay =>
      (state.batch? relay).bind fun batch =>
        if batch.left.isEmpty then some { state with outbox := state.outbox.commit OutboxRow.id batch } else none
  | .rollback relay => some { state with outbox := state.outbox.drop relay }
  | .ack receipt =>
      some { state with signals := ack state.signals receipt, acked := state.acked ++ [receipt] }
  | .delay receipt availableAt => some { state with signals := delay state.signals receipt availableAt }

/-- What may leave for a row: its reference to the queue, an envelope of it to the sink. -/
inductive HandsOn (row : OutboxRow) : Handed → Prop where
  | signal : HandsOn row (.signal (workRefFromOutbox row))
  | event {relay : Nat} {time : Int} {env : Envelope} :
      envelopeFromOutbox (options relay) time row = .ok env → HandsOn row (.event env)

/-- A row is marked after its reference and an envelope of it have left. -/
structure Marks (row : OutboxRow) (made : List Handed) (after : OutboxRow) : Prop where
  marked : after = { row with status := .published }
  handed : ∃ relay time env, envelopeFromOutbox (options relay) time row = .ok env ∧
    made = [.signal (workRefFromOutbox row), .event env]

def rules : Outbox.Rules OutboxRow String Handed where
  key := OutboxRow.id
  new := fun row => row.status = .pending
  ready := fun row => row.status = .pending
  makes := HandsOn options
  writes := Marks options
  keyed := fun _ _ _ marks => by rw [marks.marked]

/-- What a relay has done for the row it is at, after the steps it has taken for it. -/
inductive Begun (row : OutboxRow) : List Handed → Prop where
  | none : Begun row []
  | published : Begun row [.signal (workRefFromOutbox row)]
  | sunk {relay : Nat} {time : Int} {env : Envelope} :
      envelopeFromOutbox (options relay) time row = .ok env →
      Begun row [.signal (workRefFromOutbox row), .event env]

def InTurn (state : Outbox.State OutboxRow Handed) : Prop :=
  ∀ batch ∈ state.batches, ∀ row rest, batch.left = row :: rest → Begun options row batch.begun

variable {options} {state next : RelayState}

theorem batch?_some {state : RelayState} {relay : Nat} {batch : Outbox.Batch OutboxRow Handed}
    (found : state.batch? relay = some batch) : batch ∈ state.outbox.batches ∧ batch.worker = relay := by
  have isRelay := List.find?_some found
  exact ⟨List.mem_of_find?_eq_some found, of_decide_eq_true isRelay⟩

theorem selectBatch_subperm {now : Int} {state : Outbox.State OutboxRow Handed} {chosen : RelayOptions} :
    (selectBatch chosen now state).Subperm (state.unlocked OutboxRow.id) :=
  (List.take_sublist _ _).subperm.trans
    ((List.perm_insertionSort _ _).subperm.trans List.filter_sublist.subperm)

theorem pending_of_selectBatch {now : Int} {state : Outbox.State OutboxRow Handed} {chosen : RelayOptions}
    {row : OutboxRow} (member : row ∈ selectBatch chosen now state) : row.status = .pending := by
  have eligible := List.mem_insertionSort _ |>.mp (List.mem_of_mem_take member)
  have holds := (List.mem_filter.mp eligible).2
  simp only [Bool.and_eq_true, decide_eq_true_eq] at holds
  exact holds.1

theorem InTurn.replace {outbox : Outbox.State OutboxRow Handed} {batch : Outbox.Batch OutboxRow Handed}
    (turn : InTurn options outbox)
    (now : ∀ row rest, batch.left = row :: rest → Begun options row batch.begun) :
    InTurn options (outbox.replace batch) := by
  intro other among
  rcases Outbox.mem_replace among with rfl | ⟨old, -⟩
  · exact now
  · exact turn other old

theorem InTurn.drop {outbox : Outbox.State OutboxRow Handed} (turn : InTurn options outbox) (relay : Nat) :
    InTurn options (outbox.drop relay) :=
  fun batch running => turn batch (List.mem_of_mem_filter running)

/-- What a statement does to the outbox: nothing, or one step under the rules. -/
structure Moved (options : Nat → RelayOptions) (state next : RelayState) : Prop where
  step : next.outbox = state.outbox ∨ Outbox.Step (rules options) state.outbox next.outbox
  turn : InTurn options next.outbox

theorem moved_handOn {batch : Outbox.Batch OutboxRow Handed} {row : OutboxRow} {rest : List OutboxRow}
    {handed : Handed} (turn : InTurn options state.outbox) (running : batch ∈ state.outbox.batches)
    (first : batch.left = row :: rest) (hands : HandsOn options row handed)
    (begun : Begun options row (batch.begun ++ [handed]))
    (isNext : next.outbox = (state.handOn batch handed).outbox) : Moved options state next := by
  constructor
  · rw [isNext]
    exact Or.inr (.begin running first hands)
  · rw [isNext]
    have now : ∀ other tail, (batch.begin handed).left = other :: tail →
        Begun options other (batch.begin handed).begun := by
      intro other tail same
      have isRow : row = other := (List.cons.inj (first.symm.trans same)).1
      exact isRow ▸ begun
    exact turn.replace now

theorem moved_of_act {action : RelayAction} (turn : InTurn options state.outbox)
    (acted : state.act options action = some next) : Moved options state next := by
  cases action with
  | append row =>
      simp only [RelayState.act, Option.ite_none_right_eq_some, Option.some.injEq] at acted
      obtain ⟨⟨pending, fresh⟩, rfl⟩ := acted
      exact ⟨Or.inr (.insert pending fresh), turn⟩
  | runBatch relay now =>
      simp only [RelayState.act, Option.ite_none_left_eq_some, Option.some.injEq, not_or] at acted
      obtain ⟨⟨_, idle⟩, rfl⟩ := acted
      refine ⟨Or.inr (.select idle selectBatch_subperm fun row => pending_of_selectBatch), ?_⟩
      intro batch running row rest first
      rcases List.mem_cons.mp running with rfl | old
      · exact .none
      · exact turn batch old row rest first
  | publish relay now =>
      obtain ⟨batch, found, onward⟩ := Option.bind_eq_some_iff.mp acted
      obtain ⟨running, -⟩ := batch?_some found
      split at onward
      · rename_i row rest first begun
        split at onward
        · obtain rfl := Option.some.inj onward
          refine moved_handOn turn running first .signal ?_ rfl
          rw [begun]
          exact .published
        · contradiction
      · contradiction
  | sink relay time =>
      obtain ⟨batch, found, onward⟩ := Option.bind_eq_some_iff.mp acted
      obtain ⟨running, -⟩ := batch?_some found
      split at onward
      · rename_i row rest handed first begun
        split at onward
        · rename_i env built
          obtain rfl := Option.some.inj onward
          refine moved_handOn turn running first (.event built) ?_ rfl
          have before := turn batch running row rest first
          rw [begun] at before ⊢
          cases before with
          | published => exact .sunk built
        · contradiction
      · contradiction
  | mark relay =>
      obtain ⟨batch, found, onward⟩ := Option.bind_eq_some_iff.mp acted
      obtain ⟨running, -⟩ := batch?_some found
      split at onward
      · rename_i row rest sent sunk first begun
        obtain rfl := Option.some.inj onward
        have before := turn batch running row rest first
        constructor
        · refine Or.inr (.settle running first ⟨rfl, ?_⟩)
          rw [begun] at before ⊢
          cases before with
          | sunk built => exact ⟨_, _, _, built, rfl⟩
        · refine turn.replace fun other tail _ => ?_
          simp only [Outbox.Batch.settle, first]
          exact .none
      · contradiction
  | commit relay =>
      obtain ⟨batch, found, onward⟩ := Option.bind_eq_some_iff.mp acted
      obtain ⟨running, -⟩ := batch?_some found
      simp only [List.isEmpty_iff, Option.ite_none_right_eq_some, Option.some.injEq] at onward
      obtain ⟨done, rfl⟩ := onward
      exact ⟨Or.inr (.commit running done), turn.drop batch.worker⟩
  | rollback relay =>
      obtain rfl := Option.some.inj acted
      exact ⟨Or.inr (.abandon relay), turn.drop relay⟩
  | ack receipt =>
      obtain rfl := Option.some.inj acted
      exact ⟨Or.inl rfl, turn⟩
  | delay receipt availableAt =>
      obtain rfl := Option.some.inj acted
      exact ⟨Or.inl rfl, turn⟩

/-- Every reference that was published is in the queue or acknowledged, and the queue holds nothing else. -/
structure Queued (state : RelayState) : Prop where
  distinct : (state.signals.map QueueSignal.id).Nodup
  kept : ∀ ref, .signal ref ∈ state.outbox.effects →
    ref.workID ∈ state.signals.map QueueSignal.id ∨ ref.workID ∈ state.acked
  sent : ∀ signal ∈ state.signals, .signal ⟨signal.id, signal.nodeRunID, signal.namespaceID⟩ ∈ state.outbox.effects

theorem publish_ok {signals after : List QueueSignal} {ref : WorkRef} {now : Int}
    (published : publish signals ref now = .ok after) :
    ref.workID ∈ signals.map QueueSignal.id ∧ after = signals ∨
      ref.workID ∉ signals.map QueueSignal.id ∧
        after = signals ++ [⟨ref.workID, ref.namespaceID, ref.nodeRunID, now⟩] := by
  unfold publish at published
  split_ifs at published with noWork noNamespace there
  · exact Or.inl ⟨there, (Except.ok.inj published).symm⟩
  · exact Or.inr ⟨there, (Except.ok.inj published).symm⟩

theorem Queued.published {signals : List QueueSignal} {ref : WorkRef} {now : Int} (queued : Queued state)
    (published : publish state.signals ref now = .ok signals) (isSignals : next.signals = signals)
    (isAcked : next.acked = state.acked) (isEffects : next.outbox.effects = state.outbox.effects ++ [.signal ref]) :
    Queued next := by
  rcases publish_ok published with ⟨there, rfl⟩ | ⟨fresh, rfl⟩
  · constructor
    · rw [isSignals]
      exact queued.distinct
    · intro other isOther
      rw [isSignals, isAcked]
      rw [isEffects, List.mem_append, List.mem_singleton] at isOther
      rcases isOther with old | same
      · exact queued.kept other old
      · rw [Handed.signal.inj same]
        exact Or.inl there
    · intro signal isSignal
      rw [isEffects]
      rw [isSignals] at isSignal
      exact List.mem_append_left _ (queued.sent signal isSignal)
  · constructor
    · rw [isSignals]
      exact Table.keys_append_nodup queued.distinct fresh
    · intro other isOther
      rw [isSignals, isAcked, List.map_append, List.mem_append]
      rw [isEffects, List.mem_append, List.mem_singleton] at isOther
      rcases isOther with old | same
      · exact (queued.kept other old).imp_left Or.inl
      · rw [Handed.signal.inj same]
        exact Or.inl (Or.inr (List.mem_singleton_self _))
    · intro signal isSignal
      rw [isEffects, List.mem_append]
      rw [isSignals, List.mem_append, List.mem_singleton] at isSignal
      rcases isSignal with old | rfl
      · exact Or.inl (queued.sent signal old)
      · exact Or.inr (List.mem_singleton_self _)

theorem Queued.congr (queued : Queued state) (isSignals : next.signals = state.signals)
    (isAcked : next.acked = state.acked) (isEffects : next.outbox.effects = state.outbox.effects) :
    Queued next := by
  constructor
  · rw [isSignals]
    exact queued.distinct
  · rw [isSignals, isAcked, isEffects]
    exact queued.kept
  · rw [isSignals, isEffects]
    exact queued.sent

theorem Queued.act {action : RelayAction} (queued : Queued state) (acted : state.act options action = some next) :
    Queued next := by
  cases action with
  | append row =>
      simp only [RelayState.act, Option.ite_none_right_eq_some, Option.some.injEq] at acted
      obtain ⟨_, rfl⟩ := acted
      exact queued.congr rfl rfl rfl
  | runBatch relay now =>
      simp only [RelayState.act, Option.ite_none_left_eq_some, Option.some.injEq] at acted
      obtain ⟨_, rfl⟩ := acted
      exact queued.congr rfl rfl rfl
  | publish relay now =>
      obtain ⟨batch, _, onward⟩ := Option.bind_eq_some_iff.mp acted
      split at onward
      · split at onward
        · rename_i signals published
          obtain rfl := Option.some.inj onward
          exact queued.published published rfl rfl rfl
        · contradiction
      · contradiction
  | sink relay time =>
      obtain ⟨batch, _, onward⟩ := Option.bind_eq_some_iff.mp acted
      split at onward
      · split at onward
        · obtain rfl := Option.some.inj onward
          refine ⟨queued.distinct, fun ref isRef => ?_, fun signal isSignal =>
            List.mem_append_left _ (queued.sent signal isSignal)⟩
          rcases List.mem_append.mp isRef with old | new
          · exact queued.kept ref old
          · cases List.mem_singleton.mp new
        · contradiction
      · contradiction
  | mark relay =>
      obtain ⟨batch, _, onward⟩ := Option.bind_eq_some_iff.mp acted
      split at onward
      · obtain rfl := Option.some.inj onward
        exact queued.congr rfl rfl rfl
      · contradiction
  | commit relay =>
      obtain ⟨batch, _, onward⟩ := Option.bind_eq_some_iff.mp acted
      simp only [Option.ite_none_right_eq_some, Option.some.injEq] at onward
      obtain ⟨_, rfl⟩ := onward
      exact queued.congr rfl rfl rfl
  | rollback relay =>
      obtain rfl := Option.some.inj acted
      exact queued.congr rfl rfl rfl
  | ack receipt =>
      obtain rfl := Option.some.inj acted
      refine ⟨queued.distinct.sublist (List.filter_sublist.map _), fun ref isRef => ?_, fun signal isSignal =>
        queued.sent signal (List.mem_of_mem_filter isSignal)⟩
      rcases queued.kept ref isRef with there | gone
      · obtain ⟨signal, isSignal, same⟩ := List.mem_map.mp there
        by_cases taken : signal.id = receipt
        · exact Or.inr (List.mem_append_right _ (by simp [← same, taken]))
        · exact Or.inl (List.mem_map.mpr ⟨signal, List.mem_filter.mpr ⟨isSignal, by simp [taken]⟩, same⟩)
      · exact Or.inr (List.mem_append_left _ gone)
  | delay receipt availableAt =>
      obtain rfl := Option.some.inj acted
      have keys : (delay state.signals receipt availableAt).map QueueSignal.id = state.signals.map QueueSignal.id :=
        Table.update_keys fun _ => rfl
      refine ⟨?_, fun ref isRef => ?_, fun signal isSignal => ?_⟩
      · show ((delay state.signals receipt availableAt).map QueueSignal.id).Nodup
        rw [keys]
        exact queued.distinct
      · show ref.workID ∈ (delay state.signals receipt availableAt).map QueueSignal.id ∨ _
        rw [keys]
        exact queued.kept ref isRef
      · obtain ⟨old, isOld, rfl⟩ := Table.mem_update.mp isSignal
        have before := queued.sent old isOld
        split
        · exact before
        · exact before

theorem handsOn_published {row after : OutboxRow} {made : List Handed} {handed : Handed}
    (marks : Marks options row made after) (hands : HandsOn options row handed) : HandsOn options after handed := by
  rw [marks.marked]
  cases hands with
  | signal => exact .signal
  | event built => exact .event built

structure Kept (options : Nat → RelayOptions) (state : RelayState) : Prop where
  sound : Outbox.Sound (rules options) state.outbox
  turn : InTurn options state.outbox
  queued : Queued state
  handed : ∀ handed ∈ state.outbox.effects, ∃ row ∈ state.outbox.rows, HandsOn options row handed

theorem Kept.initial : Kept options {} where
  sound := .initial
  turn := fun batch running => absurd running List.not_mem_nil
  queued := by constructor <;> simp
  handed := fun handed isHanded => absurd isHanded List.not_mem_nil

theorem Kept.step {action : RelayAction} (kept : Kept options state) (acted : state.act options action = some next) :
    Kept options next := by
  obtain ⟨step, turn⟩ := moved_of_act kept.turn acted
  have queued := kept.queued.act acted
  rcases step with same | step
  · exact ⟨same ▸ kept.sound, turn, queued, same ▸ kept.handed⟩
  · refine ⟨kept.sound.step step, turn, queued, ?_⟩
    exact kept.sound.made_for_row (fun _ _ _ _ => handsOn_published) kept.handed step

theorem Kept.run (run : Steps (fun s action t => RelayState.act options s action = some t) anyAction {} state) :
    Kept options state :=
  run.invariant (Kept options) .initial fun _ _ _ kept _ acted => kept.step acted

theorem Kept.marked (kept : Kept options state) {row : OutboxRow} (member : row ∈ state.outbox.rows) :
    (state.outbox.settled.filter (·.before.id = row.id)).length = if row.status = .published then 1 else 0 := by
  have chain := kept.sound.traced row member
  apply Outbox.Chain.length_eq (fun row : OutboxRow => if row.status = .published then 1 else 0) _ _ chain
  · intro old new
    simp [show old.status = .pending from new]
  · intro old made after ready marks
    simp [marks.marked, show old.status = .pending from ready]

theorem Kept.handed_over (kept : Kept options state) {row : OutboxRow} (member : row ∈ state.outbox.rows)
    (published : row.status = .published) :
    .signal (workRefFromOutbox row) ∈ state.outbox.effects ∧
      ∃ relay time env, envelopeFromOutbox (options relay) time row = .ok env ∧ .event env ∈ state.outbox.effects := by
  have once := kept.marked member
  rw [if_pos published] at once
  have rewritten : state.outbox.settled.filter (·.before.id = row.id) ≠ [] := by
    intro none
    simp [none] at once
  obtain ⟨rewrite, isSettled, _, marks⟩ := (kept.sound.traced row member).exists_last rewritten
  obtain ⟨relay, time, env, built, made⟩ := marks.handed
  have left := kept.sound.settled rewrite (List.mem_of_mem_filter isSettled)
  rw [made] at left
  rw [marks.marked]
  exact ⟨left _ List.mem_cons_self, relay, time, env, built, left _ (List.mem_cons_of_mem _ List.mem_cons_self)⟩

/-- Over every interleaving of relays that fail or die anywhere, of appends to the outbox and of receivers of
the queue: a row that is marked has left for the queue and for the sink, and its signal is in the queue until
it is acknowledged; it is marked once, however often it left; nothing leaves that is not of a row, under the
row's id; and no two relays hold one row. -/
theorem relays_hand_over
    (run : Steps (fun s action t => RelayState.act options s action = some t) anyAction {} state) :
    (∀ row ∈ state.outbox.rows, row.status = .published →
      .signal (workRefFromOutbox row) ∈ state.outbox.effects ∧
      (∃ relay time env, envelopeFromOutbox (options relay) time row = .ok env ∧
        .event env ∈ state.outbox.effects) ∧
      (row.id ∈ state.signals.map QueueSignal.id ∨ row.id ∈ state.acked)) ∧
    (∀ row ∈ state.outbox.rows, (state.outbox.settled.filter (·.before.id = row.id)).length =
      if row.status = .published then 1 else 0) ∧
    (∀ handed ∈ state.outbox.effects, ∃ row ∈ state.outbox.rows, HandsOn options row handed) ∧
    (∀ signal ∈ state.signals, ∃ row ∈ state.outbox.rows,
      workRefFromOutbox row = ⟨signal.id, signal.nodeRunID, signal.namespaceID⟩) ∧
    (∀ batch ∈ state.outbox.batches, ∀ other ∈ state.outbox.batches, other.worker ≠ batch.worker →
      ∀ row ∈ batch.locked, ∀ held ∈ other.locked, held.id ≠ row.id) := by
  have kept := Kept.run run
  refine ⟨fun row member published => ?_, fun row => kept.marked, kept.handed, fun signal isSignal => ?_, ?_⟩
  · obtain ⟨sent, sunk⟩ := kept.handed_over member published
    exact ⟨sent, sunk, kept.queued.kept _ sent⟩
  · obtain ⟨row, member, hands⟩ := kept.handed _ (kept.queued.sent signal isSignal)
    generalize isHanded : Handed.signal ⟨signal.id, signal.nodeRunID, signal.namespaceID⟩ = handed at hands
    cases hands with
    | signal => exact ⟨row, member, (Handed.signal.inj isHanded).symm⟩
    | event => cases isHanded
  · intro batch running other runningToo differ row locked held lockedToo
    exact kept.sound.apart_keys running runningToo differ locked lockedToo

/-- A relay dies after it has handed a row on, and another one hands it on again. -/
def relayedTwice : List RelayAction :=
  [.append { id := "01A", namespaceID := "ns", topic := "dev.culture.nodes.node-run.ready",
             payload := .object [("node_run_id", .string "nr1")] },
    .runBatch 1 0, .publish 1 0, .sink 1 0, .rollback 1,
    .runBatch 2 5, .publish 2 5, .ack "01A", .sink 2 5, .mark 2, .commit 2]

theorem relays_hand_over_again :
    ∃ state, Steps (fun s action t => RelayState.act (fun _ => {}) s action = some t) anyAction {} state ∧
      state.outbox.rows.map OutboxRow.status = [.published] ∧ state.outbox.effects.length = 4 ∧
      ∀ row ∈ state.outbox.rows, (state.outbox.settled.filter (·.before.id = row.id)).length =
        if row.status = .published then 1 else 0 := by
  have ran : (Steps.ofList (RelayState.act fun _ => {}) (fun _ _ => true) {} relayedTwice).map (fun state =>
      (state.outbox.rows.map OutboxRow.status, state.outbox.effects.length)) = some ([.published], 4) := by
    decide +kernel
  obtain ⟨state, run, seen⟩ := Steps.reaches_of_ofList (fun _ _ _ => trivial) ran
  simp only [Prod.mk.injEq] at seen
  exact ⟨state, run, seen.1, seen.2, (relays_hand_over run).2.1⟩

end CultureNodes.Relay
