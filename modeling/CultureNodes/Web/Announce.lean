import CultureNodes.Web.Snapshot

/-!
What a transaction's events tell of one node, beside what becomes of the node's newest run. A piece of a
transaction leaves the newest run as it is, but for the end of the run it set out from, and says nothing of the
node; or it makes the newest run ready and says so, or says so of a barrier that fires; else the newest run was
reaped, or waits for the other branches of its group or for a person.
-/

namespace CultureNodes.Web

open Engine

/-- The events leave what is known of the node. Of the node that a transaction sets out from something is
known by then. -/
def Silent (node home : String) (events : List RunEvent) : Prop :=
  ∀ known : Option NodeExecState, (home = node → known ≠ none) → events.foldl (tell node) known = known

def Tells (node : String) (events : List RunEvent) (state : NodeExecState) : Prop :=
  ∀ known : Option NodeExecState, events.foldl (tell node) known = some state

section

variable {node home : String} {events more : List RunEvent} {state : NodeExecState}

theorem Silent.nil : Silent node home [] := fun _ _ => rfl

theorem Silent.append (first : Silent node home events) (second : Silent node home more) :
    Silent node home (events ++ more) := by
  intro known isKnown
  rw [List.foldl_append, first known isKnown, second known isKnown]

theorem Silent.cons {event : RunEvent} (first : ∀ known, (home = node → known ≠ none) → tell node known event = known)
    (rest : Silent node home events) : Silent node home (event :: events) := by
  intro known isKnown
  rw [List.foldl_cons, first known isKnown, rest known isKnown]

theorem Tells.after (events : List RunEvent) (told : Tells node more state) : Tells node (events ++ more) state := by
  intro known
  rw [List.foldl_append, told]

theorem Tells.append (told : Tells node events state) (silent : Silent node home more) :
    Tells node (events ++ more) state := by
  intro known
  rw [List.foldl_append, told, silent _ fun _ => Option.some_ne_none _]

theorem silent_branchesCancelled (lost : List Nat) : Silent node home (branchesCancelled lost) := by
  induction lost with
  | nil => exact Silent.nil
  | cons id rest ih => exact Silent.cons (fun _ _ => rfl) ih

end

/-- A run as it stands once the one that a transaction sets out from has ended. -/
def ended (mover : Mover) (row : Nat × NodeRunState) : Nat × NodeRunState :=
  if row.1 = mover.nodeRun.id then (row.1, mover.state) else row

theorem ended_ended (mover : Mover) (row : Nat × NodeRunState) : ended mover (ended mover row) = ended mover row := by
  unfold ended
  by_cases own : row.1 = mover.nodeRun.id
  · simp [own]
  · simp [own]

/-- The run that a transaction sets out from has ended. -/
def HasEnded (mover : Mover) (db : RunDb) : Prop :=
  ∀ run ∈ db.nodeRuns, run.id = mover.nodeRun.id → run.state = mover.state

theorem HasEnded.newest {mover : Mover} {db : RunDb} (hasEnded : HasEnded mover db) (node : String) :
    (db.newest node).map (ended mover) = db.newest node := by
  cases found : db.newest node with
  | none => rfl
  | some row =>
      obtain ⟨run, held, sameID, sameState, -⟩ := RunDb.mem_of_newest found
      rw [Option.map_some, ended]
      split
      · rename_i own
        rw [← hasEnded run held (sameID.trans own), sameState]
      · rfl

theorem newest_elsewhere {mover : Mover} {db : RunDb} {node : String} (serial : Serial db)
    (home : db.At mover.nodeRun.node mover.nodeRun.id) (elsewhere : mover.nodeRun.node ≠ node) :
    (db.newest node).map (ended mover) = db.newest node := by
  cases found : db.newest node with
  | none => rfl
  | some row =>
      have other : row.1 ≠ mover.nodeRun.id := fun own => elsewhere (serial.node_eq (own.symm ▸ home) found)
      rw [Option.map_some, ended, if_neg other]

/-- What a piece of a transaction does to the newest run of a node and tells of the node. -/
inductive Turned (mover : Mover) (node : String) (opens : Prop) (db : RunDb)
    (events : List RunEvent) (next : RunDb) : Prop where
  | kept : next.newest node = (db.newest node).map (ended mover) → Silent node mover.nodeRun.node events →
      Turned mover node opens db events next
  | ready {id : Nat} : next.newest node = some (id, .ready) → id ≠ mover.nodeRun.id →
      Tells node events .ready → Turned mover node opens db events next
  | lost {id : Nat} : next.newest node = some (id, .cancelled) → id ≠ mover.nodeRun.id →
      .wrote id .cancelled ∈ news db next → Turned mover node opens db events next
  | parked {id : Nat} : opens → next.newest node = some (id, .waitingJoin) → id ≠ mover.nodeRun.id →
      .wrote id .waitingJoin ∈ news db next → Silent node mover.nodeRun.node events →
      Turned mover node opens db events next
  | human {id : Nat} : next.newest node = some (id, .waitingHuman) → id ≠ mover.nodeRun.id →
      .wrote id .waitingHuman ∈ news db next → Turned mover node opens db events next
  | fired {barrier group : Nat} : .fired barrier group ∈ news db next → next.At node barrier →
      Tells node events .ready → Turned mover node opens db events next

namespace Turned

variable {mover : Mover} {node : String} {opens wider later : Prop} {db middle next : RunDb}
  {events more : List RunEvent}

theorem mono (turned : Turned mover node opens db events next) (weaker : opens → wider) :
    Turned mover node wider db events next := by
  cases turned with
  | kept after silent => exact kept after silent
  | ready after other told => exact ready after other told
  | lost after other wrote => exact lost after other wrote
  | parked isOpen after other wrote silent => exact parked (weaker isOpen) after other wrote silent
  | human after other wrote => exact human after other wrote
  | fired wrote at_ told => exact fired wrote at_ told

/-- The later piece decides, unless it leaves the node alone. -/
theorem trans (first : Turned mover node opens db events middle)
    (second : Turned mover node later middle more next) (firstGrown : Grown db middle)
    (secondGrown : Grown middle next) (quiet : later → opens ∧ Silent node mover.nodeRun.node events) :
    Turned mover node opens db (events ++ more) next := by
  have early : ∀ {entry}, entry ∈ news db middle → entry ∈ news db next := fun held => by
    rw [firstGrown.news_trans secondGrown]
    exact List.mem_append_right _ held
  have late : ∀ {entry}, entry ∈ news middle next → entry ∈ news db next := fun held => by
    rw [firstGrown.news_trans secondGrown]
    exact List.mem_append_left _ held
  cases second with
  | kept same silent =>
      -- A run that is not the one the transaction set out from is as the first piece left it.
      have stays : ∀ {id : Nat} {state : NodeRunState}, middle.newest node = some (id, state) →
          id ≠ mover.nodeRun.id → next.newest node = some (id, state) := by
        intro id state found other
        rw [same, found, Option.map_some, ended, if_neg other]
      cases first with
      | kept after unsaid =>
          refine kept ?_ (unsaid.append silent)
          rw [same, after, Option.map_map]
          congr 1
          funext row
          exact ended_ended mover row
      | ready after other told => exact ready (stays after other) other (told.append silent)
      | lost after other wrote => exact lost (stays after other) other (early wrote)
      | parked isOpen after other wrote unsaid =>
          exact parked isOpen (stays after other) other (early wrote) (unsaid.append silent)
      | human after other wrote => exact human (stays after other) other (early wrote)
      | fired wrote at_ told => exact fired (early wrote) (at_.grown secondGrown) (told.append silent)
  | ready after other told => exact ready after other (told.after events)
  | lost after other wrote => exact lost after other (late wrote)
  | parked isLater after other wrote silent =>
      exact parked (quiet isLater).1 after other (late wrote) ((quiet isLater).2.append silent)
  | human after other wrote => exact human after other (late wrote)
  | fired wrote at_ told => exact fired (late wrote) at_ (told.after events)

theorem still (hasEnded : HasEnded mover db) (same : next.newest node = db.newest node)
    (silent : Silent node mover.nodeRun.node events) : Turned mover node opens db events next :=
  kept (same.trans (hasEnded.newest node).symm) silent

theorem congr (hasEnded : HasEnded mover db) (same : next.nodeRuns = db.nodeRuns)
    (silent : Silent node mover.nodeRun.node events) : Turned mover node opens db events next :=
  still hasEnded (RunDb.newest_congr same) silent

theorem newest_finish {outcome : String} :
    (db.finishNodeRun mover.nodeRun mover.state outcome).newest node = (db.newest node).map (ended mover) := by
  have after : (db.finishNodeRun mover.nodeRun mover.state outcome).newest node = (db.newest node).map fun row =>
      if decide (row.1 = mover.nodeRun.id) then (row.1, mover.state) else row :=
    @RunDb.newest_update _ _ _ (fun id _ => decide (id = mover.nodeRun.id)) _ _ rfl fun _ => ⟨rfl, rfl, rfl⟩
  simp only [decide_eq_true_eq] at after
  exact after

/-- Ending the run that the transaction set out from. -/
theorem finish (outcome : String) :
    Turned mover node opens db [] (db.finishNodeRun mover.nodeRun mover.state outcome) :=
  kept newest_finish Silent.nil

theorem cancel {cancelled : List Nat} (hasEnded : HasEnded mover db) (spared : mover.nodeRun.id ∉ cancelled)
    (rows : next.nodeRuns = (db.cancelNodeRuns cancelled).nodeRuns)
    (journal : next.journal = (db.cancelNodeRuns cancelled).journal)
    (silent : Silent node mover.nodeRun.node events) : Turned mover node opens db events next := by
  have after : (db.cancelNodeRuns cancelled).newest node = (db.newest node).map fun row =>
      if cancelled.contains row.1 then (row.1, .cancelled) else row :=
    @RunDb.newest_update _ _ _ (fun id _ => cancelled.contains id) _ _ rfl fun _ => ⟨rfl, rfl, rfl⟩
  rw [← RunDb.newest_congr rows] at after
  cases found : db.newest node with
  | none => exact still hasEnded (by rw [after, found]; rfl) silent
  | some row =>
      rw [found, Option.map_some] at after
      by_cases hit : row.1 ∈ cancelled
      · have isLost : next.newest node = some (row.1, .cancelled) := by simpa [hit] using after
        refine lost isLost (fun own => spared (own ▸ hit)) ?_
        rw [news_of_append journal]
        exact List.mem_map_of_mem hit
      · exact still hasEnded (by rw [found]; simpa [hit] using after) silent

end Turned

theorem HasEnded.cancel {mover : Mover} {db next : RunDb} {cancelled : List Nat} (hasEnded : HasEnded mover db)
    (spared : mover.nodeRun.id ∉ cancelled) (rows : next.nodeRuns = (db.cancelNodeRuns cancelled).nodeRuns) :
    HasEnded mover next := by
  intro run held own
  rw [rows] at held
  obtain ⟨old, oldHeld, rfl⟩ := Table.mem_update.mp held
  split at own
  · rename_i hit
    have sameID : old.id = mover.nodeRun.id := own
    exact absurd (by simpa [sameID] using hit) spared
  · rename_i missed
    rw [if_neg missed]
    exact hasEnded old oldHeld own

theorem HasEnded.finish {mover : Mover} {db : RunDb} {outcome : String} :
    HasEnded mover (db.finishNodeRun mover.nodeRun mover.state outcome) :=
  RunDb.finishNodeRun_state_eq

namespace Turned

variable {mover : Mover} {node : String} {opens : Prop} {db : RunDb} {events : List RunEvent}

theorem liveBut_spares (mover : Mover) (db : RunDb) : mover.nodeRun.id ∉ db.liveBut mover.nodeRun.id := by
  intro held
  obtain ⟨run, live, same⟩ := List.mem_map.mp held
  have other := (List.mem_filter.mp live).2
  simp [same] at other

theorem stop (hasEnded : HasEnded mover db) (silent : Silent node mover.nodeRun.node events) (state : RunState)
    (output : Option Payload) (ending : Ending) : Turned mover node opens db events
      ((db.reapRunState mover.nodeRun.id).updateRunState state output ending) :=
  cancel hasEnded (liveBut_spares mover db) rfl rfl silent

theorem failRun (failure : Failure) :
    Turned mover node opens db (mover.failRunEvents db) (mover.failRun db failure) := by
  have finished : Turned mover node False db [] (db.finishNodeRun mover.nodeRun mover.state mover.outcome) :=
    finish mover.outcome
  have silent : Silent node mover.nodeRun.node (mover.failRunEvents db) :=
    (silent_branchesCancelled _).append (Silent.cons (fun _ _ => rfl) Silent.nil)
  have stopped : Turned mover node False (db.finishNodeRun mover.nodeRun mover.state mover.outcome)
      (mover.failRunEvents db) (mover.failRun db failure) := stop HasEnded.finish silent _ _ _
  exact (finished.trans stopped (Grown.finishNodeRun _ _ _)
    ((Grown.reapRunState _).trans (Grown.congr rfl (Nat.le_refl _) rfl)) False.elim).mono False.elim

/-- The run is stopped at a bound. -/
theorem failBound (hasEnded : HasEnded mover db) (bound : BoundExceeded) (transitions : Nat) :
    Turned mover node opens db (mover.failBoundEvents db) (mover.failBound db bound transitions) := by
  have silent : Silent node mover.nodeRun.node (mover.failBoundEvents db) :=
    (silent_branchesCancelled _).append (Silent.cons (fun _ _ => rfl) Silent.nil)
  exact stop hasEnded silent _ _ _

theorem cancelRun {prepared : Prepared} (isCancelled : prepared.mover.state = .cancelled) :
    Turned prepared.mover node opens prepared.db
      (branchesCancelled ((prepared.db.finishNodeRun prepared.mover.nodeRun .cancelled "").liveBut
        prepared.mover.nodeRun.id) ++ [{ type := .runCancelled, nodeID := prepared.mover.nodeRun.node }])
      prepared.cancel := by
  have finished : Turned prepared.mover node False prepared.db []
      (prepared.db.finishNodeRun prepared.mover.nodeRun .cancelled "") := isCancelled ▸ finish ""
  have stopped : Turned prepared.mover node False (prepared.db.finishNodeRun prepared.mover.nodeRun .cancelled "")
      (branchesCancelled ((prepared.db.finishNodeRun prepared.mover.nodeRun .cancelled "").liveBut
        prepared.mover.nodeRun.id) ++ [{ type := .runCancelled, nodeID := prepared.mover.nodeRun.node }])
      prepared.cancel := by
    refine stop (isCancelled ▸ HasEnded.finish) ?_ _ _ _
    exact (silent_branchesCancelled _).append (Silent.cons (fun _ _ => rfl) Silent.nil)
  exact (finished.trans stopped (Grown.finishNodeRun _ _ _)
    ((Grown.reapRunState _).trans (Grown.congr rfl (Nat.le_refl _) rfl)) False.elim).mono False.elim

end Turned

end CultureNodes.Web
