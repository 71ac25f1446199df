import Mathlib.Data.String.Basic
import CultureNodes.Library.Feed
import CultureNodes.Library.Transition

/-!
The daemon that posts the beginning and the end of runs to a webhook. It reads the events of all runs over a
stream of the control plane and keeps its position in a file, which it writes before it posts. It may be killed
anywhere, the stream may break anywhere, and the file may refuse a write.
-/

namespace CultureNodes.Notifier

/-- A committed event, as far as the stream and the daemon read it. -/
structure Event where
  id : String
  runID : String
  type : String
deriving DecidableEq, Repr

def lifecycleEventTypes : List String :=
  ["dev.culture.nodes.run.created", "dev.culture.nodes.run.completed", "dev.culture.nodes.run.failed",
    "dev.culture.nodes.run.cancelled", "dev.culture.nodes.run.bounded"]

def isLifecycleEvent (eventType : String) : Bool := lifecycleEventTypes.contains eventType

def crossRunEventPollLimit : Nat := 500

/-- The types the stream admits whatever the run. -/
def runLifecycleEventTypes : List String :=
  ["dev.culture.nodes.run.created", "dev.culture.nodes.run.completed", "dev.culture.nodes.run.failed",
    "dev.culture.nodes.run.cancelled", "dev.culture.nodes.run.bounded"]

/-- The runs asked for, or by default the active ones and every beginning and end. -/
def crossRunEventInScope (scope active : List String) (row : Event) : Bool :=
  if scope.isEmpty then runLifecycleEventTypes.contains row.type || active.contains row.runID
  else scope.contains row.runID

def pollCrossRunEvents (log : List Event) (afterID : String) : List Event :=
  (Feed.newer Event.id log afterID).take crossRunEventPollLimit

def deliveredWindow : Nat := 32

structure CursorState where
  lastID : String := ""
  delivered : List String := []
deriving DecidableEq, Repr

namespace CursorState

variable (st : CursorState)

def seen (id : String) : Bool :=
  id ≠ "" && (st.lastID ≠ "" && id ≤ st.lastID || st.delivered.contains id)

def advance (id : String) : CursorState :=
  if id = "" ∨ st.lastID ≠ "" ∧ id ≤ st.lastID then st else { st with lastID := id }

def markDelivered (id : String) : CursorState :=
  let delivered := st.delivered ++ [id]
  { lastID := if st.lastID = "" ∨ st.lastID < id then id else st.lastID
    delivered := delivered.drop (delivered.length - deliveredWindow) }

end CursorState

/-- What the daemon makes of a frame: nothing, a new position, or a new position and a post. -/
inductive Handling where
  | skipped
  | advanced (st : CursorState)
  | marked (st : CursorState)
deriving DecidableEq, Repr

def handleFrame (st : CursorState) (frame : Event) : Handling :=
  if frame.id = "" then .skipped
  else if st.seen frame.id then .skipped
  else if !isLifecycleEvent frame.type || frame.runID = "" then .advanced (st.advance frame.id)
  else .marked (st.markDelivered frame.id)

/-- The events, the file, and the daemon: its position in memory while it runs, its connection, the event it is
about to post, and what it has posted, oldest first. -/
structure State where
  log : List Event := []
  disk : CursorState := {}
  memory : Option CursorState := none
  conn : Option (Feed.Conn Event String) := none
  pending : Option Event := none
  posts : List Event := []
deriving DecidableEq, Repr

inductive Action where
  | commit (event : Event)
  | start
  | connect
  | poll (active : List String)
  | receive (persisted : Bool)
  | post
  | cut
  | kill
deriving DecidableEq, Repr

/-- The daemon takes a frame. A position that could not be written stays in memory, and the stream is left. -/
def State.receive (state : State) (st : CursorState) (conn : Feed.Conn Event String) (frame : Event)
    (rest : List Event) (persisted : Bool) : State :=
  let onward := { state with conn := some { conn with frames := rest } }
  match handleFrame st frame with
  | .skipped => onward
  | .advanced moved =>
      if persisted then { onward with memory := some moved, disk := moved }
      else { state with memory := some moved, conn := none }
  | .marked moved =>
      if persisted then { onward with memory := some moved, disk := moved, pending := some frame }
      else { state with memory := some moved, conn := none }

/-- `scope` holds the runs the daemon is configured for, none for the default. -/
def State.act (scope : List String) (state : State) : Action → Option State
  | .commit event =>
      if event.id = "" ∨ event.id ∈ state.log.map Event.id then none
      else some { state with log := state.log ++ [event] }
  | .start => if state.memory.isSome then none else some { state with memory := some state.disk }
  | .connect =>
      state.memory.bind fun st =>
        if state.conn.isSome || state.pending.isSome then none
        else some { state with conn := some { after := st.lastID } }
  | .poll active =>
      state.conn.map fun conn =>
        { state with conn := some (conn.send Event.id (crossRunEventInScope scope active)
            (pollCrossRunEvents state.log conn.after)) }
  | .receive persisted =>
      match state.memory, state.conn, state.pending with
      | some st, some conn, none =>
          match conn.frames with
          | [] => none
          | frame :: rest => some (state.receive st conn frame rest persisted)
      | _, _, _ => none
  | .post => state.pending.map fun event => { state with pending := none, posts := state.posts ++ [event] }
  | .cut => some { state with conn := none }
  | .kill => some { state with memory := none, conn := none, pending := none }

/-- The events the daemon is to post. -/
def Wanted (scope : List String) (event : Event) : Prop :=
  isLifecycleEvent event.type = true ∧ event.runID ≠ "" ∧ (scope = [] ∨ event.runID ∈ scope)

instance (scope : List String) : DecidablePred (Wanted scope) := fun _ => inferInstanceAs (Decidable (_ ∧ _))

/-- A position that none of the ids in its window is after. -/
def CursorState.Recent (st : CursorState) : Prop := ∀ id ∈ st.delivered, id ≤ st.lastID

variable {st : CursorState} {frame : Event}

theorem empty_le (id : String) : "" ≤ id := by
  rw [String.le_iff_toList_le]
  exact not_lt.mp (List.not_lt_nil id.toList)

theorem ne_empty_of_lt {one other : String} (less : one < other) : other ≠ "" := by
  rintro rfl
  exact absurd less (not_lt_of_ge (empty_le one))

theorem CursorState.advance_later (recent : st.Recent) {id : String} (later : st.lastID < id) :
    (st.advance id).lastID = id ∧ (st.advance id).Recent := by
  have onward : ¬(id = "" ∨ st.lastID ≠ "" ∧ id ≤ st.lastID) := by
    rintro (empty | ⟨_, before⟩)
    · exact ne_empty_of_lt later empty
    · exact absurd later (not_lt_of_ge before)
  rw [CursorState.advance, if_neg onward]
  exact ⟨rfl, fun other delivered => (recent other delivered).trans later.le⟩

theorem CursorState.markDelivered_later (recent : st.Recent) {id : String} (later : st.lastID < id) :
    (st.markDelivered id).lastID = id ∧ (st.markDelivered id).Recent := by
  have moved : (st.markDelivered id).lastID = id := by
    simp only [CursorState.markDelivered, if_pos (Or.inr later)]
  refine ⟨moved, fun other delivered => ?_⟩
  rw [moved]
  rcases List.mem_append.mp (List.mem_of_mem_drop delivered) with old | added
  · exact (recent other old).trans later.le
  · exact (List.mem_singleton.mp added).le

/-- A frame after the position is never taken for one that was seen: it moves the position to itself, and is
posted where it is the beginning or the end of a run. -/
inductive Took (st : CursorState) (frame : Event) : Handling → Prop where
  | advanced {moved : CursorState} (there : moved.lastID = frame.id) (recent : moved.Recent)
      (other : ¬(isLifecycleEvent frame.type = true ∧ frame.runID ≠ "")) : Took st frame (.advanced moved)
  | marked {moved : CursorState} (there : moved.lastID = frame.id) (recent : moved.Recent)
      (lifecycle : isLifecycleEvent frame.type = true) (named : frame.runID ≠ "") : Took st frame (.marked moved)

theorem took_of_later (recent : st.Recent) (later : st.lastID < frame.id) : Took st frame (handleFrame st frame) := by
  have named := ne_empty_of_lt later
  have unseen : st.seen frame.id = false := by
    have undelivered : frame.id ∉ st.delivered :=
      fun delivered => absurd later (not_lt_of_ge (recent frame.id delivered))
    simp [CursorState.seen, not_le_of_gt later, undelivered]
  unfold handleFrame
  rw [if_neg named, unseen, if_neg Bool.false_ne_true]
  split
  · rename_i other
    obtain ⟨there, still⟩ := CursorState.advance_later recent later
    refine .advanced there still fun both => ?_
    simp [both.1, both.2] at other
  · rename_i lifecycle
    obtain ⟨there, still⟩ := CursorState.markDelivered_later recent later
    simp only [Bool.or_eq_true, Bool.not_eq_true', decide_eq_true_eq, not_or, Bool.not_eq_false] at lifecycle
    exact .marked there still lifecycle.1 lifecycle.2

variable {scope : List String} {state next : State}

/-- What holds in every reachable state. -/
structure Kept (scope : List String) (state : State) : Prop where
  distinct : (state.log.map Event.id).Nodup
  written : state.disk.Recent
  running : ∀ st, state.memory = some st → st.Recent ∧ state.disk.lastID ≤ st.lastID
  connected : state.memory = none → state.conn = none ∧ state.pending = none
  ahead : ∀ st conn, state.memory = some st → state.conn = some conn → Feed.Ahead Event.id state.log st.lastID conn
  admitted : ∀ conn, state.conn = some conn → ∀ frame ∈ conn.frames, scope = [] ∨ frame.runID ∈ scope
  posted : ∀ event ∈ state.posts, event ∈ state.log ∧ Wanted scope event ∧ event.id ≤ state.disk.lastID
  ordered : Feed.Ascending Event.id state.posts
  next : ∀ event, state.pending = some event → event ∈ state.log ∧ Wanted scope event ∧
    event.id ≤ state.disk.lastID ∧ ∀ earlier ∈ state.posts, earlier.id < event.id

namespace Kept

theorem initial : Kept scope {} := by
  constructor
  case ordered => exact List.Pairwise.nil
  all_goals simp [CursorState.Recent]

/-- The position moves in memory alone, and the stream is left. -/
theorem unwritten {moved : CursorState} (kept : Kept scope state) (still : moved.Recent)
    (floor : state.disk.lastID ≤ moved.lastID) :
    Kept scope { state with memory := some moved, conn := none } :=
  { kept with
    running := by
      rintro _ ⟨⟩
      exact ⟨still, floor⟩
    connected := fun stopped => absurd stopped (Option.some_ne_none moved)
    ahead := fun _ conn _ isSome => absurd isSome.symm (Option.some_ne_none conn)
    admitted := fun conn isSome => absurd isSome.symm (Option.some_ne_none conn) }

theorem moved {moved : CursorState} {conn : Feed.Conn Event String} (kept : Kept scope state) (still : moved.Recent)
    (floor : state.disk.lastID ≤ moved.lastID) (ahead : Feed.Ahead Event.id state.log moved.lastID conn)
    (admitted : ∀ frame ∈ conn.frames, scope = [] ∨ frame.runID ∈ scope) :
    Kept scope { state with memory := some moved, disk := moved, conn := some conn } :=
  { kept with
    written := still
    running := by
      rintro _ ⟨⟩
      exact ⟨still, le_refl _⟩
    connected := fun stopped => absurd stopped (Option.some_ne_none moved)
    ahead := by
      rintro _ _ ⟨⟩ ⟨⟩
      exact ahead
    admitted := by
      rintro _ ⟨⟩
      exact admitted
    posted := by
      intro event isPosted
      obtain ⟨isEvent, isWanted, below⟩ := kept.posted event isPosted
      exact ⟨isEvent, isWanted, below.trans floor⟩
    next := by
      intro event isNext
      obtain ⟨isEvent, isWanted, below, after⟩ := kept.next event isNext
      exact ⟨isEvent, isWanted, below.trans floor, after⟩ }

theorem receive {conn : Feed.Conn Event String} {rest : List Event} {persisted : Bool} (kept : Kept scope state)
    (isMemory : state.memory = some st) (isConn : state.conn = some conn) (first : conn.frames = frame :: rest) :
    Kept scope (state.receive st conn frame rest persisted) := by
  obtain ⟨recent, floor⟩ := kept.running st isMemory
  have ahead := kept.ahead st conn isMemory isConn
  obtain ⟨inLog, later, _⟩ := ahead.within frame (first ▸ List.mem_cons_self)
  have below := floor.trans later.le
  have admitted := kept.admitted conn isConn
  rw [first] at admitted
  have took := took_of_later recent later
  unfold State.receive
  generalize handleFrame st frame = handling at took
  cases took with
  | @advanced moved there still other =>
      cases persisted with
      | false => exact kept.unwritten still (there ▸ below)
      | true =>
          exact kept.moved still (there ▸ below) (there ▸ ahead.read first) fun other isOther =>
            admitted other (List.mem_cons_of_mem _ isOther)
  | @marked moved there still lifecycle named =>
      cases persisted with
      | false => exact kept.unwritten still (there ▸ below)
      | true =>
          have onward := kept.moved still (there ▸ below) (there ▸ ahead.read first) fun other isOther =>
            admitted other (List.mem_cons_of_mem _ isOther)
          exact { onward with
            connected := fun stopped => absurd stopped (Option.some_ne_none moved)
            next := by
              rintro _ ⟨⟩
              refine ⟨inLog, ⟨lifecycle, named, admitted frame List.mem_cons_self⟩, there.ge, ?_⟩
              intro earlier isPosted
              exact lt_of_le_of_lt ((kept.posted earlier isPosted).2.2.trans floor) later }

theorem act {action : Action} (kept : Kept scope state) (acted : state.act scope action = some next) :
    Kept scope next := by
  cases action with
  | commit event =>
      simp only [State.act, Option.ite_none_left_eq_some, Option.some.injEq, not_or] at acted
      obtain ⟨⟨_, fresh⟩, rfl⟩ := acted
      exact { kept with
        distinct := by
          rw [List.map_append, List.map_singleton]
          exact List.nodup_append.mpr ⟨kept.distinct, List.nodup_singleton _, fun old isOld new isNew same =>
            fresh (List.mem_singleton.mp isNew ▸ same ▸ isOld)⟩
        ahead := fun st conn isMemory isConn => (kept.ahead st conn isMemory isConn).grow
        posted := fun old isPosted =>
          have facts := kept.posted old isPosted
          ⟨List.mem_append_left _ facts.1, facts.2⟩
        next := fun old isNext =>
          have facts := kept.next old isNext
          ⟨List.mem_append_left _ facts.1, facts.2⟩ }
  | start =>
      simp only [State.act, Option.ite_none_left_eq_some, Option.some.injEq] at acted
      obtain ⟨stopped, rfl⟩ := acted
      rw [Option.not_isSome_iff_eq_none] at stopped
      obtain ⟨noConn, noPending⟩ := kept.connected stopped
      exact { kept with
        running := by
          rintro _ ⟨⟩
          exact ⟨kept.written, le_refl _⟩
        connected := fun stopped => absurd stopped (Option.some_ne_none _)
        ahead := fun _ conn _ isConn => absurd (noConn ▸ isConn).symm (Option.some_ne_none conn) }
  | connect =>
      obtain ⟨st, isMemory, onward⟩ := Option.bind_eq_some_iff.mp acted
      simp only [Option.ite_none_left_eq_some, Option.some.injEq] at onward
      obtain ⟨_, rfl⟩ := onward
      exact { kept with
        connected := fun stopped => absurd (isMemory ▸ stopped) (Option.some_ne_none st)
        ahead := by
          rintro again _ isAgain ⟨⟩
          rw [Option.some.inj (isMemory.symm.trans isAgain)]
          exact .opened
        admitted := by
          rintro _ ⟨⟩ frame isFrame
          exact absurd isFrame List.not_mem_nil }
  | poll active =>
      obtain ⟨conn, isConn, rfl⟩ := Option.map_eq_some_iff.mp acted
      exact { kept with
        connected := fun stopped => absurd ((kept.connected stopped).1 ▸ isConn).symm (Option.some_ne_none conn)
        ahead := by
          rintro st _ isMemory ⟨⟩
          exact (kept.ahead st conn isMemory isConn).send kept.distinct ( List.take_prefix _ _)
        admitted := by
          rintro _ ⟨⟩ frame isFrame
          rcases List.mem_append.mp isFrame with old | sent
          · exact kept.admitted conn isConn frame old
          · have inScope := (List.mem_filter.mp sent).2
            unfold crossRunEventInScope at inScope
            split at inScope
            · exact Or.inl (List.isEmpty_iff.mp ‹_›)
            · exact Or.inr (List.contains_iff_mem.mp inScope) }
  | receive persisted =>
      simp only [State.act] at acted
      split at acted
      · rename_i st conn isMemory isConn _
        split at acted
        · contradiction
        · rename_i frame rest first
          obtain rfl := Option.some.inj acted
          exact kept.receive isMemory isConn first
      · contradiction
  | post =>
      obtain ⟨event, isNext, rfl⟩ := Option.map_eq_some_iff.mp acted
      obtain ⟨inLog, isWanted, below, after⟩ := kept.next event isNext
      exact { kept with
        connected := fun stopped => ⟨(kept.connected stopped).1, rfl⟩
        posted := by
          intro posted isPosted
          rcases List.mem_append.mp isPosted with old | added
          · exact kept.posted posted old
          · rw [List.mem_singleton.mp added]
            exact ⟨inLog, isWanted, below⟩
        ordered := kept.ordered.append (List.pairwise_singleton _ _) fun earlier isEarlier other isOther =>
          List.mem_singleton.mp isOther ▸ after earlier isEarlier
        next := fun _ isSome => absurd isSome.symm (Option.some_ne_none _) }
  | cut =>
      obtain rfl := Option.some.inj acted
      exact { kept with
        connected := fun stopped => ⟨rfl, (kept.connected stopped).2⟩
        ahead := fun _ conn _ isSome => absurd isSome.symm (Option.some_ne_none conn)
        admitted := fun conn isSome => absurd isSome.symm (Option.some_ne_none conn) }
  | kill =>
      obtain rfl := Option.some.inj acted
      exact { kept with
        running := fun st isSome => absurd isSome.symm (Option.some_ne_none st)
        connected := fun _ => ⟨rfl, rfl⟩
        ahead := fun st _ isSome => absurd isSome.symm (Option.some_ne_none st)
        admitted := fun conn isSome => absurd isSome.symm (Option.some_ne_none conn)
        next := fun event isSome => absurd isSome.symm (Option.some_ne_none event) }

end Kept

/-- In every run, whatever fails and wherever the daemon is killed: the posts are of beginnings and ends of runs
in scope, each event is posted at most once and in the order of the ids, and none before the file holds its
id. -/
theorem posts_at_most_once
    (run : Steps (fun state action next => State.act scope state action = some next) anyAction {} state) :
    Feed.Ascending Event.id state.posts ∧
      ∀ event ∈ state.posts, event ∈ state.log ∧ Wanted scope event ∧ event.id ≤ state.disk.lastID := by
  have kept : Kept scope state := run.invariant (Kept scope) .initial fun _ _ _ kept _ acted => kept.act acted
  exact ⟨kept.ordered, kept.posted⟩

def created (id runID : String) : Event := ⟨id, runID, "dev.culture.nodes.run.created"⟩

/-- The file refuses the position of the first event, and the daemon is killed before it posts the second; the
third is posted. -/
def twiceLost : List Action :=
  [.commit (created "01A" "r1"), .start, .connect, .poll [], .receive false, .connect, .commit (created "01B" "r2"),
    .poll [], .receive true, .kill, .start, .commit (created "01C" "r3"), .connect, .poll [], .receive true, .post]

theorem posts_at_most_once_of_twice_lost :
    ∃ state, Steps (fun state action next => State.act [] state action = some next) anyAction {} state ∧
      state.posts = [created "01C" "r3"] ∧ state.log.length = 3 ∧ Feed.Ascending Event.id state.posts := by
  have ran : (Steps.ofList (State.act []) (fun _ _ => true) {} twiceLost).map (fun state =>
      (state.posts, state.log.length)) = some ([created "01C" "r3"], 3) := by
    decide +kernel
  obtain ⟨state, run, seen⟩ := Steps.reaches_of_ofList (fun _ _ _ => trivial) ran
  simp only [Prod.mk.injEq] at seen
  exact ⟨state, run, seen.1, seen.2, (posts_at_most_once run).1⟩

/-- Events are committed in the order of their ids, the file takes every write, and the daemon is not killed
between a write and its post. -/
def Gentle (state : State) : Action → Prop
  | .commit event => ∀ earlier ∈ state.log, earlier.id < event.id
  | .receive persisted => persisted = true
  | .kill => state.pending = none
  | _ => True

instance (state : State) : (action : Action) → Decidable (Gentle state action)
  | .commit event => inferInstanceAs (Decidable (∀ earlier ∈ state.log, earlier.id < event.id))
  | .receive persisted => inferInstanceAs (Decidable (persisted = true))
  | .kill => inferInstanceAs (Decidable (state.pending = none))
  | .start | .connect | .poll _ | .post | .cut => inferInstanceAs (Decidable True)

/-- What holds besides in every state that such a run reaches. -/
structure Exact (scope : List String) (state : State) : Prop where
  ascending : Feed.Ascending Event.id state.log
  synced : ∀ st, state.memory = some st → st = state.disk
  known : state.disk.lastID = "" ∨ state.disk.lastID ∈ state.log.map Event.id
  polled : ∀ conn, state.conn = some conn → conn.after = "" ∨ conn.after ∈ state.log.map Event.id
  whole : ∀ conn, state.conn = some conn → Feed.Whole Event.id (Wanted scope) state.log state.disk.lastID conn
  caught : Feed.Caught Event.id (Wanted scope) state.log state.disk.lastID (state.posts ++ state.pending.toList)

namespace Exact

theorem initial : Exact scope {} := by
  constructor
  case ascending => exact List.Pairwise.nil
  case caught => exact ⟨List.Pairwise.nil, by simp⟩
  all_goals simp

theorem before {event : Event} {id : String} (later : ∀ earlier ∈ state.log, earlier.id < event.id)
    (named : event.id ≠ "") (known : id = "" ∨ id ∈ state.log.map Event.id) : id < event.id := by
  rcases known with rfl | isID
  · exact lt_of_le_of_ne (empty_le event.id) named.symm
  · obtain ⟨earlier, isEarlier, rfl⟩ := List.mem_map.mp isID
    exact later earlier isEarlier

theorem receive {conn : Feed.Conn Event String} {rest : List Event} (exact : Exact scope state)
    (kept : Kept scope state) (isMemory : state.memory = some st) (isConn : state.conn = some conn)
    (idle : state.pending = none) (first : conn.frames = frame :: rest) :
    Exact scope (state.receive st conn frame rest true) := by
  have ahead := kept.ahead st conn isMemory isConn
  have whole := exact.whole conn isConn
  have caught := exact.caught
  rw [← exact.synced st isMemory] at whole caught
  obtain ⟨inLog, later, _⟩ := ahead.within frame (first ▸ List.mem_cons_self)
  have inScope := kept.admitted conn isConn frame (first ▸ List.mem_cons_self)
  have onward := caught.read ahead whole first
  rw [idle, Option.toList_none, List.append_nil] at onward
  have took := took_of_later (kept.running st isMemory).1 later
  unfold State.receive
  generalize handleFrame st frame = handling at took
  have step : ∀ moved : CursorState, ∀ pending : Option Event, moved.lastID = frame.id →
      pending.toList = (if Wanted scope frame then [frame] else []) →
      Exact scope { state with
        memory := some moved, disk := moved, conn := some { conn with frames := rest }, pending := pending } := by
    intro moved pending there isPending
    refine { exact with synced := ?_, known := ?_, polled := ?_, whole := ?_, caught := ?_ }
    · rintro _ ⟨⟩
      rfl
    · exact Or.inr (there ▸ List.mem_map_of_mem inLog)
    · rintro _ ⟨⟩
      exact exact.polled conn isConn
    · rintro _ ⟨⟩
      exact there ▸ whole.read ahead first
    · rw [isPending, there]
      exact onward
  cases took with
  | @advanced moved there still other =>
      have unwanted : ¬Wanted scope frame := fun wanted => other ⟨wanted.1, wanted.2.1⟩
      exact step moved state.pending there (by rw [idle, if_neg unwanted]; rfl)
  | @marked moved there still lifecycle named =>
      have wanted : Wanted scope frame := ⟨lifecycle, named, inScope⟩
      exact step moved (some frame) there (by rw [if_pos wanted]; rfl)

theorem act {action : Action} (exact : Exact scope state) (kept : Kept scope state) (gentle : Gentle state action)
    (acted : state.act scope action = some next) : Exact scope next := by
  cases action with
  | commit event =>
      simp only [State.act, Option.ite_none_left_eq_some, Option.some.injEq, not_or] at acted
      obtain ⟨⟨named, _⟩, rfl⟩ := acted
      have wider : ∀ id, id = "" ∨ id ∈ state.log.map Event.id →
          id = "" ∨ id ∈ (state.log ++ [event]).map Event.id := by
        intro id known
        rw [List.map_append, List.mem_append]
        exact known.imp_right Or.inl
      exact { exact with
        ascending := exact.ascending.append (List.pairwise_singleton _ _) fun earlier isEarlier other isOther =>
          List.mem_singleton.mp isOther ▸ gentle earlier isEarlier
        known := wider _ exact.known
        polled := fun conn isConn => wider _ (exact.polled conn isConn)
        whole := fun conn isConn => (exact.whole conn isConn).append (before gentle named (exact.polled conn isConn))
        caught := exact.caught.append (before gentle named exact.known) }
  | start =>
      simp only [State.act, Option.ite_none_left_eq_some, Option.some.injEq] at acted
      obtain ⟨_, rfl⟩ := acted
      exact { exact with
        synced := by
          rintro _ ⟨⟩
          rfl }
  | connect =>
      obtain ⟨st, isMemory, onward⟩ := Option.bind_eq_some_iff.mp acted
      simp only [Option.ite_none_left_eq_some, Option.some.injEq] at onward
      obtain ⟨_, rfl⟩ := onward
      have isDisk := exact.synced st isMemory
      exact { exact with
        polled := by
          rintro _ ⟨⟩
          exact isDisk ▸ exact.known
        whole := by
          rintro _ ⟨⟩
          rw [isDisk]
          exact .opened }
  | poll active =>
      obtain ⟨conn, isConn, rfl⟩ := Option.map_eq_some_iff.mp acted
      exact { exact with
        polled := by
          rintro _ ⟨⟩
          unfold Feed.Conn.send
          cases isLast : (pollCrossRunEvents state.log conn.after).getLast? with
          | none => exact exact.polled conn isConn
          | some last =>
              have sent := List.mem_of_mem_take (List.mem_of_getLast? isLast)
              exact Or.inr (List.mem_map_of_mem (Feed.mem_newer.mp sent).1)
        whole := by
          rintro _ ⟨⟩
          refine (exact.whole conn isConn).send kept.distinct ( List.take_prefix _ _) fun event wanted => ?_
          have lifecycle : runLifecycleEventTypes.contains event.type = true := wanted.1
          unfold crossRunEventInScope
          split
          · rw [lifecycle, Bool.true_or]
          · rename_i explicit
            exact List.contains_iff_mem.mpr (wanted.2.2.resolve_left fun none => explicit (none ▸ rfl)) }
  | receive persisted =>
      obtain rfl : persisted = true := gentle
      simp only [State.act] at acted
      split at acted
      · rename_i st conn isMemory isConn idle
        split at acted
        · contradiction
        · rename_i frame rest first
          obtain rfl := Option.some.inj acted
          exact exact.receive kept isMemory isConn idle first
      · contradiction
  | post =>
      obtain ⟨event, isNext, rfl⟩ := Option.map_eq_some_iff.mp acted
      have caught := exact.caught
      rw [isNext] at caught
      exact { exact with caught := by simpa using caught }
  | cut =>
      obtain rfl := Option.some.inj acted
      exact { exact with
        polled := fun conn isSome => absurd isSome.symm (Option.some_ne_none conn)
        whole := fun conn isSome => absurd isSome.symm (Option.some_ne_none conn) }
  | kill =>
      obtain rfl := Option.some.inj acted
      have idle : state.pending = none := gentle
      have caught := exact.caught
      rw [idle] at caught
      exact { exact with
        synced := fun st isSome => absurd isSome.symm (Option.some_ne_none st)
        polled := fun conn isSome => absurd isSome.symm (Option.some_ne_none conn)
        whole := fun conn isSome => absurd isSome.symm (Option.some_ne_none conn)
        caught := caught }

end Exact

/-- In every run that loses nothing, through any number of restarts and broken streams: what was posted, with the
event that is about to be, is the beginnings and ends of runs in scope up to the id in the file, each once and in
order; and where nothing is under way on the stream, up to the id the stream has polled to. -/
theorem posts_exactly_once
    (run : Steps (fun state action next => State.act scope state action = some next) Gentle {} state) :
    state.posts ++ state.pending.toList =
      (state.log.filter fun event => decide (Wanted scope event) && decide (event.id ≤ state.disk.lastID)) ∧
    ∀ conn, state.conn = some conn → conn.frames = [] → state.posts ++ state.pending.toList =
      state.log.filter fun event => decide (Wanted scope event) && decide (event.id ≤ conn.after) := by
  have both : Kept scope state ∧ Exact scope state := by
    refine run.invariant (fun state => Kept scope state ∧ Exact scope state) ⟨.initial, .initial⟩ ?_
    rintro _ action _ ⟨kept, exact⟩ gentle acted
    exact ⟨kept.act acted, exact.act kept gentle acted⟩
  obtain ⟨kept, exact⟩ := both
  refine ⟨exact.caught.eq_filter exact.ascending, fun conn isConn nothing => ?_⟩
  cases isMemory : state.memory with
  | none => exact absurd ((kept.connected isMemory).1 ▸ isConn).symm (Option.some_ne_none conn)
  | some st =>
      have ahead := kept.ahead st conn isMemory isConn
      rw [exact.synced st isMemory] at ahead
      exact (exact.caught.upTo ahead (exact.whole conn isConn) nothing).eq_filter exact.ascending

/-- The stream breaks with a frame under way, and the daemon is killed between two events. -/
def brokenTwice : List Action :=
  [.commit (created "01A" "r1"), .commit ⟨"01B", "r1", "dev.culture.nodes.attempt.started"⟩,
    .commit (created "01C" "r2"), .start, .connect, .poll ["r1"], .receive true, .post, .cut, .connect, .poll ["r1"],
    .receive true, .kill, .start, .connect, .poll [], .receive true, .post]

theorem posts_exactly_once_of_broken :
    ∃ state, Steps (fun state action next => State.act [] state action = some next) Gentle {} state ∧
      state.posts = [created "01A" "r1", created "01C" "r2"] ∧ state.posts ++ state.pending.toList =
        state.log.filter fun event => decide (Wanted [] event) && decide (event.id ≤ state.disk.lastID) := by
  have ran : (Steps.ofList (State.act []) (fun state action => decide (Gentle state action)) {} brokenTwice).map
      State.posts = some [created "01A" "r1", created "01C" "r2"] := by
    decide +kernel
  obtain ⟨state, run, seen⟩ := Steps.reaches_of_ofList (fun _ _ gentle => of_decide_eq_true gentle) ran
  exact ⟨state, run, seen, (posts_exactly_once run).1⟩

end CultureNodes.Notifier
