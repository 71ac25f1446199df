import Mathlib.Order.Nat
import CultureNodes.Library.Feed
import CultureNodes.Library.Transition

/-!
The stream of one run's events, from the table to the page that shows them. The server polls the table and
closes after the event that ends the run. The page subscribes to some of the types; the browser reconnects by
itself with the last id it received, and where it gives a source up the page opens another one from the last
event it showed.
-/

namespace CultureNodes.Events.Stream

/-- A committed event of the run. -/
structure EventRow where
  sequence : Nat
  type : String
deriving DecidableEq, Repr

def eventPollLimit : Nat := 200

def terminalRunEventTypes : List String :=
  ["dev.culture.nodes.run.completed", "dev.culture.nodes.run.failed", "dev.culture.nodes.run.cancelled",
    "dev.culture.nodes.run.bounded"]

def subscribedEventTypes : List String :=
  ["dev.culture.nodes.run.created", "dev.culture.nodes.token.entered", "dev.culture.nodes.node-run.ready",
    "dev.culture.nodes.attempt.started", "dev.culture.nodes.actor.accepted", "dev.culture.nodes.attempt.completed",
    "dev.culture.nodes.ledger.record-appended", "dev.culture.nodes.ledger.review-committed",
    "dev.culture.nodes.runner.operation-completed", "dev.culture.nodes.contract.rejected",
    "dev.culture.nodes.token.transitioned", "dev.culture.nodes.run.waiting", "dev.culture.nodes.run.completed",
    "dev.culture.nodes.run.failed", "dev.culture.nodes.run.cancelled", "dev.culture.nodes.run.bounded"]

def Terminal (row : EventRow) : Prop := row.type ∈ terminalRunEventTypes

instance : DecidablePred Terminal := fun _ => inferInstanceAs (Decidable (_ ∈ _))

def Subscribed (row : EventRow) : Prop := row.type ∈ subscribedEventTypes

instance : DecidablePred Subscribed := fun _ => inferInstanceAs (Decidable (_ ∈ _))

def pollEvents (log : List EventRow) (afterSequence : Nat) : List EventRow :=
  (Feed.newer EventRow.sequence log afterSequence).take eventPollLimit

/-- The rows a poll writes: up to and with the first that ends the run. -/
def throughTerminal : List EventRow → List EventRow
  | [] => []
  | row :: rest => if Terminal row then [row] else row :: throughTerminal rest

/-- The browser's side of an open source: the position in its address and the last id it received. -/
structure Source where
  fromID : Nat
  lastID : Option Nat := none
deriving DecidableEq, Repr

/-- Where the next connection of a source begins: the header goes before the address. -/
def Source.resumeSequence (source : Source) : Nat := source.lastID.getD source.fromID

def maxReconnects : Nat := 5

/-- The run's events, the connection with whether the server has closed it, and the page: its source, the events
it shows, the last of their ids, whether one of them ended the run, and the sources it has lost in a row. -/
structure State where
  log : List EventRow := []
  conn : Option (Feed.Conn EventRow Nat) := none
  closed : Bool := false
  source : Option Source := none
  events : List EventRow := []
  lastID : Nat := 0
  terminal : Bool := false
  reconnects : Nat := 0
deriving DecidableEq, Repr

inductive Action where
  | append (type : String)
  | connect
  | accept
  | poll
  | receive
  | cut
  | lose
deriving DecidableEq, Repr

/-- A frame reaches the browser, which remembers its id and hands it to the page if its type is subscribed. -/
def State.receive (state : State) (source : Source) (conn : Feed.Conn EventRow Nat) (row : EventRow)
    (rest : List EventRow) : State :=
  let onward := { state with
    conn := some { conn with frames := rest }
    source := some { source with lastID := some row.sequence } }
  if Subscribed row then
    let shown := { onward with events := state.events ++ [row], lastID := row.sequence }
    if Terminal row then { shown with terminal := true, source := none, conn := none } else shown
  else onward

/-- `connect` opens a source on the page, `accept` is the server's answer to a source without a connection, and
with `lose` the browser gives the source up. -/
def State.act (state : State) : Action → Option State
  | .append type => some { state with log := state.log ++ [{ sequence := state.log.length + 1, type := type }] }
  | .connect =>
      if state.source.isSome || state.terminal || maxReconnects < state.reconnects then none
      else some { state with source := some { fromID := state.lastID } }
  | .accept =>
      state.source.bind fun source =>
        if state.conn.isSome then none
        else some { state with
          conn := some { after := source.resumeSequence }, closed := false, reconnects := 0 }
  | .poll =>
      state.conn.bind fun conn =>
        if state.closed then none
        else
          let rows := throughTerminal (pollEvents state.log conn.after)
          some { state with
            conn := some (conn.send EventRow.sequence (fun _ => true) rows)
            closed := rows.any fun row => decide (Terminal row) }
  | .receive =>
      match state.source, state.conn with
      | some source, some conn =>
          match conn.frames with
          | [] => none
          | row :: rest => some (state.receive source conn row rest)
      | _, _ => none
  | .cut => some { state with conn := none }
  | .lose =>
      if state.source.isSome then
        some { state with source := none, conn := none, reconnects := state.reconnects + 1 }
      else none

theorem throughTerminal_part (rows : List EventRow) : throughTerminal rows <+: rows := by
  induction rows with
  | nil => exact List.prefix_rfl
  | cons row rest ih =>
      unfold throughTerminal
      split
      · exact (List.prefix_cons_inj row).mpr List.nil_prefix
      · exact (List.prefix_cons_inj row).mpr ih

/-- The events a page shows hold the end of the run at most as their last. -/
def Ended (terminal : Bool) (events : List EventRow) : Prop :=
  if terminal then ∃ front last, events = front ++ [last] ∧ Terminal last ∧ ∀ row ∈ front, ¬Terminal row
  else ∀ row ∈ events, ¬Terminal row

variable {state next : State}

/-- What holds in every reachable state. -/
structure Kept (state : State) : Prop where
  ascending : Feed.Ascending EventRow.sequence state.log
  bounded : ∀ row ∈ state.log, row.sequence ≤ state.log.length
  shown : state.lastID ≤ state.log.length
  caught : Feed.Caught EventRow.sequence Subscribed state.log state.lastID state.events
  within : ∀ source, state.source = some source → state.lastID ≤ source.resumeSequence ∧
    source.resumeSequence ≤ state.log.length ∧
    Feed.Caught EventRow.sequence Subscribed state.log source.resumeSequence state.events
  opened : ∀ conn, state.conn = some conn → state.source.isSome
  polled : ∀ source conn, state.source = some source → state.conn = some conn → conn.after ≤ state.log.length ∧
    Feed.Ahead EventRow.sequence state.log source.resumeSequence conn ∧
    Feed.Whole EventRow.sequence Subscribed state.log source.resumeSequence conn
  ended : Ended state.terminal state.events
  final : state.terminal = true → state.source = none

namespace Kept

theorem initial : Kept {} := by
  constructor
  case ascending => exact List.Pairwise.nil
  case caught => exact ⟨List.Pairwise.nil, by simp⟩
  case ended => simp [Ended]
  all_goals simp

theorem distinct (kept : Kept state) : (state.log.map EventRow.sequence).Nodup := by
  rw [List.Nodup, List.pairwise_map]
  exact kept.ascending.imp fun less => less.ne

theorem append {type : String} (kept : Kept state) :
    Kept { state with log := state.log ++ [{ sequence := state.log.length + 1, type := type }] } where
  ascending := by
    refine kept.ascending.append (List.pairwise_singleton _ _) fun row isRow other isOther => ?_
    rw [List.mem_singleton.mp isOther]
    exact Nat.lt_succ_of_le (kept.bounded row isRow)
  bounded := by
    intro row isRow
    rw [List.length_append]
    rcases List.mem_append.mp isRow with old | added
    · exact (kept.bounded row old).trans (Nat.le_add_right _ _)
    · rw [List.mem_singleton.mp added]
      exact le_refl _
  shown := by
    rw [List.length_append]
    exact kept.shown.trans (Nat.le_add_right _ _)
  caught := kept.caught.append (Nat.lt_succ_of_le kept.shown)
  within := by
    intro source isSource
    obtain ⟨low, high, caught⟩ := kept.within source isSource
    rw [List.length_append]
    exact ⟨low, high.trans (Nat.le_add_right _ _), caught.append (Nat.lt_succ_of_le high)⟩
  opened := kept.opened
  polled := by
    intro source conn isSource isConn
    obtain ⟨high, ahead, whole⟩ := kept.polled source conn isSource isConn
    rw [List.length_append]
    exact ⟨high.trans (Nat.le_add_right _ _), ahead.grow, whole.append (Nat.lt_succ_of_le high)⟩
  ended := kept.ended
  final := kept.final

/-- A frame reaches the browser. -/
theorem receive {source : Source} {conn : Feed.Conn EventRow Nat} {row : EventRow} {rest : List EventRow}
    (kept : Kept state) (isSource : state.source = some source) (isConn : state.conn = some conn)
    (first : conn.frames = row :: rest) : Kept (state.receive source conn row rest) := by
  obtain ⟨low, _, caught⟩ := kept.within source isSource
  obtain ⟨high, ahead, whole⟩ := kept.polled source conn isSource isConn
  obtain ⟨inLog, later, _⟩ := ahead.within row (first ▸ List.mem_cons_self)
  have onward := caught.read ahead whole first
  have ongoing : state.terminal = false := by
    cases terminal : state.terminal with
    | false => rfl
    | true => exact absurd ((kept.final terminal).symm.trans isSource).symm (Option.some_ne_none source)
  have soFar : ∀ row ∈ state.events, ¬Terminal row := by
    have ended := kept.ended
    rw [Ended, ongoing, if_neg Bool.false_ne_true] at ended
    exact ended
  have polled : ∀ resumed rows, some { source with lastID := some row.sequence } = some resumed →
      some { conn with frames := rest } = some rows → rows.after ≤ state.log.length ∧
      Feed.Ahead EventRow.sequence state.log resumed.resumeSequence rows ∧
      Feed.Whole EventRow.sequence Subscribed state.log resumed.resumeSequence rows := by
    rintro _ _ ⟨⟩ ⟨⟩
    exact ⟨high, ahead.read first, whole.read ahead first⟩
  unfold State.receive
  split
  · rename_i subscribed
    rw [if_pos subscribed] at onward
    split
    · rename_i isTerminal
      exact { kept with
        shown := kept.bounded row inLog
        caught := onward
        within := fun _ isSome => absurd isSome.symm (Option.some_ne_none _)
        opened := fun _ isSome => absurd isSome.symm (Option.some_ne_none _)
        polled := fun _ _ isSome => absurd isSome.symm (Option.some_ne_none _)
        ended := ⟨state.events, row, rfl, isTerminal, soFar⟩
        final := fun _ => rfl }
    · rename_i ordinary
      exact { kept with
        shown := kept.bounded row inLog
        caught := onward
        within := by
          rintro _ ⟨⟩
          exact ⟨le_refl _, kept.bounded row inLog, onward⟩
        opened := fun _ _ => rfl
        polled := polled
        ended := by
          simp only [Ended, ongoing, Bool.false_eq_true, if_false, List.mem_append, List.mem_singleton]
          rintro other (old | rfl)
          · exact soFar other old
          · exact ordinary
        final := fun terminal => absurd (ongoing.symm.trans terminal) Bool.false_ne_true }
  · rename_i silent
    rw [if_neg silent, List.append_nil] at onward
    exact { kept with
      within := by
        rintro _ ⟨⟩
        exact ⟨low.trans later.le, kept.bounded row inLog, onward⟩
      opened := fun _ _ => rfl
      polled := polled
      final := fun terminal => absurd (ongoing.symm.trans terminal) Bool.false_ne_true }

theorem act {action : Action} (kept : Kept state) (acted : state.act action = some next) : Kept next := by
  cases action with
  | append type =>
      obtain rfl := Option.some.inj acted
      exact kept.append
  | connect =>
      simp only [State.act, Option.ite_none_left_eq_some, Option.some.injEq, Bool.or_eq_true, not_or,
        Bool.not_eq_true, Option.isSome_eq_false_iff, Option.isNone_iff_eq_none] at acted
      obtain ⟨⟨⟨noSource, ongoing⟩, _⟩, rfl⟩ := acted
      exact { kept with
        within := by
          rintro _ ⟨⟩
          exact ⟨le_refl _, kept.shown, kept.caught⟩
        opened := fun _ _ => rfl
        polled := by
          intro source conn _ isConn
          have isSome := kept.opened conn isConn
          rw [noSource] at isSome
          contradiction
        final := fun terminal => absurd (ongoing.symm.trans terminal) Bool.false_ne_true }
  | accept =>
      obtain ⟨source, isSource, onward⟩ := Option.bind_eq_some_iff.mp acted
      simp only [Option.ite_none_left_eq_some, Option.some.injEq] at onward
      obtain ⟨_, rfl⟩ := onward
      exact { kept with
        opened := fun _ _ => isSource ▸ rfl
        polled := by
          rintro again _ isAgain ⟨⟩
          obtain rfl := Option.some.inj (isSource.symm.trans isAgain)
          exact ⟨(kept.within source isSource).2.1, .opened, .opened⟩ }
  | poll =>
      obtain ⟨conn, isConn, onward⟩ := Option.bind_eq_some_iff.mp acted
      simp only [Option.ite_none_left_eq_some, Option.some.injEq] at onward
      obtain ⟨_, rfl⟩ := onward
      have part := (throughTerminal_part (pollEvents state.log conn.after)).trans ( List.take_prefix _ _)
      exact { kept with
        opened := fun _ _ => kept.opened conn isConn
        polled := by
          rintro source _ isSource ⟨⟩
          obtain ⟨high, ahead, whole⟩ := kept.polled source conn isSource isConn
          refine ⟨?_, ahead.send kept.distinct part, whole.send kept.distinct part fun _ _ => rfl⟩
          unfold Feed.Conn.send
          cases isLast : (throughTerminal (pollEvents state.log conn.after)).getLast? with
          | none => exact high
          | some last =>
              have among := part.subset (List.mem_of_getLast? isLast)
              exact kept.bounded last (Feed.mem_newer.mp among).1 }
  | receive =>
      simp only [State.act] at acted
      split at acted
      · rename_i source conn isSource isConn
        split at acted
        · contradiction
        · rename_i row rest first
          obtain rfl := Option.some.inj acted
          exact kept.receive isSource isConn first
      · contradiction
  | cut =>
      obtain rfl := Option.some.inj acted
      exact { kept with
        opened := fun _ isSome => absurd isSome.symm (Option.some_ne_none _)
        polled := fun _ _ _ isSome => absurd isSome.symm (Option.some_ne_none _) }
  | lose =>
      simp only [State.act, Option.ite_none_right_eq_some, Option.some.injEq] at acted
      obtain ⟨_, rfl⟩ := acted
      exact { kept with
        within := fun _ isSome => absurd isSome.symm (Option.some_ne_none _)
        opened := fun _ isSome => absurd isSome.symm (Option.some_ne_none _)
        polled := fun _ _ isSome => absurd isSome.symm (Option.some_ne_none _)
        final := fun _ => rfl }

end Kept

/-- In every run of appends, polls, broken connections and lost sources: the page shows the subscribed events up
to the last it has shown, each once and in order; with nothing under way, up to where the server has polled; and
the event that ends the run, where it shows one, is the last, after which it takes no more. -/
theorem shows_every_event_once
    (run : Steps (fun state action next => state.act action = some next) anyAction ({} : State) state) :
    state.events = (state.log.filter fun row => decide (Subscribed row) && decide (row.sequence ≤ state.lastID)) ∧
    (∀ conn, state.conn = some conn → conn.frames = [] → state.events =
      state.log.filter fun row => decide (Subscribed row) && decide (row.sequence ≤ conn.after)) ∧
    Ended state.terminal state.events ∧ (state.terminal = true → state.source = none ∧ state.conn = none) := by
  have kept : Kept state := run.invariant Kept .initial fun _ _ _ kept _ acted => kept.act acted
  refine ⟨kept.caught.eq_filter kept.ascending, fun conn isConn nothing => ?_, kept.ended, fun terminal => ?_⟩
  · obtain ⟨source, isSource⟩ := Option.isSome_iff_exists.mp (kept.opened conn isConn)
    obtain ⟨_, ahead, whole⟩ := kept.polled source conn isSource isConn
    exact ((kept.within source isSource).2.2.upTo ahead whole nothing).eq_filter kept.ascending
  · refine ⟨kept.final terminal, ?_⟩
    cases isConn : state.conn with
    | none => rfl
    | some conn =>
        have isSome := kept.opened conn isConn
        rw [kept.final terminal] at isSome
        contradiction

/-- The browser reconnects behind an event the page does not show, then gives the source up; the page opens
another one, and is sent that event again. -/
def reconnected : List Action :=
  [.append "dev.culture.nodes.run.created", .append "dev.culture.nodes.node-run.failed",
    .append "dev.culture.nodes.run.failed", .connect, .accept, .poll, .receive, .receive, .cut, .accept, .lose,
    .connect, .accept, .poll, .receive, .receive]

theorem shows_every_event_once_reconnected :
    ∃ state, Steps (fun state action next => state.act action = some next) anyAction ({} : State) state ∧
      state.events = [⟨1, "dev.culture.nodes.run.created"⟩, ⟨3, "dev.culture.nodes.run.failed"⟩] ∧
      state.terminal = true ∧ Ended state.terminal state.events := by
  have ran : (Steps.ofList State.act (fun _ _ => true) {} reconnected).map (fun state =>
      (state.events, state.terminal)) =
        some ([⟨1, "dev.culture.nodes.run.created"⟩, ⟨3, "dev.culture.nodes.run.failed"⟩], true) := by
    decide +kernel
  obtain ⟨state, run, seen⟩ := Steps.reaches_of_ofList (fun _ _ _ => trivial) ran
  simp only [Prod.mk.injEq] at seen
  exact ⟨state, run, seen.1, seen.2, (shows_every_event_once run).2.2.1⟩

end CultureNodes.Events.Stream
