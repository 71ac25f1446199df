import CultureNodes.Worker.Runs
import Mathlib.Data.List.Perm.Subperm

/-!
The sessions of a run against the number its workflow allows. The count is read where the dispatch is
funded and the session is recorded right before the invocation, with nothing that holds the count in
between.
-/

namespace CultureNodes.Worker

open Store Program

def DispatchStatement.opens : DispatchStatement → Bool
  | .recordSessionStart _ => true
  | .invoke _ _ => true
  | _ => false

namespace DispatchSystem

/-- The invocations that opened a session of their own. -/
def coldStarts (system : DispatchSystem) : List Invocation :=
  system.tables.invocations.filter (·.cold)

def recording (thread : DispatchThread) : Bool :=
  match thread.rest with
  | .call (.recordSessionStart _) _ => true
  | _ => false

def countStillHolds (system : DispatchSystem) : DispatchAction → Bool
  | .advance index _ => system.threads[index]?.all fun thread =>
      !recording thread || decide (thread.past.started = some system.tables.sessions.length)
  | _ => true

variable {options : WorkerOptions} {budget : Budget} {isCode : Nat → Bool}
  {system next : DispatchSystem} {world : DispatchWorld} {tables : DispatchTables}
  {dispatch : Dispatch} {statement : DispatchStatement}

theorem execute_opened (other : statement.opens = false) :
    ((execute world tables dispatch statement).1.sessions,
      (execute world tables dispatch statement).1.invocations) =
      (tables.sessions, tables.invocations) := by
  let opened : DispatchTables → List SessionStart × List Invocation :=
    fun tables => (tables.sessions, tables.invocations)
  cases statement with
  | recordSessionStart actorRef => contradiction
  | invoke actorRef cold => contradiction
  | consumePreflight id now => exact DispatchWorld.write_kept opened rfl
  | issuePreflight actorKey issuedAt expiresAt => exact DispatchWorld.write_kept opened rfl
  | deferWork availableAt =>
      refine DispatchWorld.claimWrite_kept opened fun written isWritten => ?_
      obtain ⟨_, _, rfl⟩ := Option.map_eq_some_iff.mp isWritten
      rfl
  | complete completion =>
      refine DispatchWorld.claimWrite_kept opened fun written isWritten => ?_
      obtain ⟨_, _, rfl⟩ := Option.map_eq_some_iff.mp isWritten
      rfl
  | startAsyncWait =>
      refine DispatchWorld.claimWrite_kept opened fun written isWritten => ?_
      obtain ⟨_, _, rfl⟩ := Option.map_eq_some_iff.mp isWritten
      rfl
  | _ => first | rfl | exact congrArg opened (DispatchWorld.read_tables _)

/-- Only a recorded session is charged, and nothing but an invocation or a release settles. -/
theorem after_opened (past : DispatchPast) (other : statement.opens = false)
    (answer : statement.Answer) :
    (past.after statement answer).charged = past.charged ∧
      (past.settled = true → (past.after statement answer).settled = true) := by
  cases statement with
  | recordSessionStart actorRef => contradiction
  | invoke actorRef cold => contradiction
  | deferWork availableAt => exact ⟨rfl, fun _ => rfl⟩
  | runSessionStarts => cases answer <;> exact ⟨rfl, id⟩
  | _ => exact ⟨rfl, id⟩

/-- What recording a session comes to, where it fails or not: at most one row more, and a dispatch that
goes on finds its own row. -/
structure Records (before after : DispatchTables) (attempt : Nat) (past next : DispatchPast) : Prop where
  invocations : after.invocations = before.invocations
  sessions : before.sessions ⊆ after.sessions
  length : after.sessions.length ≤ before.sessions.length + 1
  settled : next.settled = past.settled
  charged : next.charged = true →
    past.charged = true ∨ attempt ∈ after.sessions.map (·.attempt)

theorem execute_recordSessionStart (past : DispatchPast) (actorRef : String) :
    Records tables (execute world tables dispatch (.recordSessionStart actorRef)).1 dispatch.attempt
      past (past.after _ (execute world tables dispatch (.recordSessionStart actorRef)).2) := by
  have unwritten : Records tables tables dispatch.attempt past past :=
    ⟨rfl, List.Subset.refl _, Nat.le_succ _, rfl, Or.inl⟩
  cases known : tables.sessions.any (·.attempt = dispatch.attempt) with
  | true =>
      obtain ⟨session, member, same⟩ := List.any_eq_true.mp known
      have own : dispatch.attempt ∈ tables.sessions.map (·.attempt) :=
        List.mem_map.mpr ⟨session, member, by simpa using same⟩
      simp only [execute, DispatchWorld.write, known, if_true, ite_self]
      cases world.fails (.recordSessionStart actorRef) with
      | some reason => exact unwritten
      | none => exact { unwritten with charged := fun _ => Or.inr own }
  | false =>
      have written : Records tables
          { tables with sessions := tables.sessions ++ [⟨dispatch.attempt, actorRef⟩] }
          dispatch.attempt past past :=
        ⟨rfl, List.subset_append_left _ _, by simp, rfl, Or.inl⟩
      simp only [execute, DispatchWorld.write, known, Bool.false_eq_true, if_false]
      cases world.fails (.recordSessionStart actorRef) with
      | none => exact { written with charged := fun _ => Or.inr (by simp) }
      | some reason =>
          cases world.lost with
          | true => exact written
          | false => exact unwritten

/-- What a run keeps to about its sessions. -/
structure Counts (budget : Budget) (system : DispatchSystem) : Prop where
  followed : Followed budget system.threads
  attempts : (system.threads.map (·.owner.attempt)).Nodup
  owned : ∀ attempt ∈ system.tables.invocations.map (·.attempt),
    attempt ∈ system.threads.map (·.owner.attempt)
  unsettled : ∀ thread ∈ system.threads, thread.past.settled = false →
    thread.owner.attempt ∉ system.tables.invocations.map (·.attempt)
  once : (system.tables.invocations.map (·.attempt)).Nodup
  charged : ∀ thread ∈ system.threads, thread.past.charged = true →
    thread.owner.attempt ∈ system.tables.sessions.map (·.attempt)
  recorded : ∀ invocation ∈ system.tables.invocations, invocation.cold = true →
    invocation.attempt ∈ system.tables.sessions.map (·.attempt)
  bounded : system.tables.sessions.length ≤ budget.maxSessions

namespace Counts

theorem initial : Counts budget {} where
  followed := fun _ member => by cases member
  attempts := List.nodup_nil
  owned := fun _ member => by cases member
  unsettled := fun _ member => by cases member
  once := List.nodup_nil
  charged := fun _ member => by cases member
  recorded := fun _ member => by cases member
  bounded := Nat.zero_le _

/-- An action that reaches neither the sessions, the invocations nor the dispatches. -/
theorem of_same (counts : Counts budget system) (threads : next.threads = system.threads)
    (sessions : next.tables.sessions = system.tables.sessions)
    (invocations : next.tables.invocations = system.tables.invocations) : Counts budget next where
  followed := by rw [threads]; exact counts.followed
  attempts := by rw [threads]; exact counts.attempts
  owned := by rw [threads, invocations]; exact counts.owned
  unsettled := by rw [threads, invocations]; exact counts.unsettled
  once := by rw [invocations]; exact counts.once
  charged := by rw [threads, sessions]; exact counts.charged
  recorded := by rw [invocations, sessions]; exact counts.recorded
  bounded := by rw [sessions]; exact counts.bounded

/-- The invocations of a run that opened a session are within its budget. -/
theorem coldStarts_le (counts : Counts budget system) :
    system.coldStarts.length ≤ budget.maxSessions := by
  have distinct : (system.coldStarts.map (·.attempt)).Nodup :=
    counts.once.sublist (List.filter_sublist.map _)
  have within : system.coldStarts.map (·.attempt) ⊆ system.tables.sessions.map (·.attempt) := by
    intro attempt member
    obtain ⟨invocation, isCold, rfl⟩ := List.mem_map.mp member
    obtain ⟨isInvocation, cold⟩ := List.mem_filter.mp isCold
    exact counts.recorded invocation isInvocation cold
  calc system.coldStarts.length
      = (system.coldStarts.map (·.attempt)).length := (List.length_map _).symm
    _ ≤ (system.tables.sessions.map (·.attempt)).length := (List.subperm_of_subset distinct within).length_le
    _ = system.tables.sessions.length := List.length_map _
    _ ≤ budget.maxSessions := counts.bounded

theorem dispatched {claim : Claim} {attempt nodeRun : Nat} {node : DispatchNode}
    (counts : Counts budget system)
    (taken : system.act options budget isCode (.dispatch claim attempt nodeRun node) = some next) :
    Counts budget next := by
  have followed := counts.followed.step taken
  obtain ⟨_, fresh, rfl⟩ := act_dispatch taken
  refine { counts with followed := followed, attempts := ?_, owned := ?_, unsettled := ?_, charged := ?_ }
  · rw [List.map_append, List.map_singleton]
    exact List.nodup_append.mpr ⟨counts.attempts, List.nodup_singleton _, by simpa using fresh⟩
  · intro attempt member
    rw [List.map_append]
    exact List.mem_append_left _ (counts.owned attempt member)
  · intro thread member unsettled
    rcases List.mem_append.mp member with old | new
    · exact counts.unsettled thread old unsettled
    · rw [List.mem_singleton] at new
      rw [new]
      exact fun invoked => fresh (counts.owned _ invoked)
  · intro thread member charged
    rcases List.mem_append.mp member with old | new
    · exact counts.charged thread old charged
    · rw [List.mem_singleton] at new
      rw [new] at charged
      contradiction

section

variable {index : Nat} {thread : DispatchThread} {actorRef : String} {cold : Bool}

theorem called_other {rest : statement.Answer → DispatchProgram DispatchOutcome}
    (counts : Counts budget system) (isThread : system.threads[index]? = some thread)
    (followed : Followed budget (system.called world index thread statement rest).threads)
    (other : statement.opens = false) :
    Counts budget (system.called world index thread statement rest) := by
  have member := List.mem_of_getElem? isThread
  have after := after_opened thread.past other (execute world system.tables thread.owner statement).2
  obtain ⟨sessions, invocations⟩ := Prod.mk.inj
    (@execute_opened world system.tables thread.owner statement other)
  constructor
  case followed => exact followed
  case attempts => rw [called_owners _ isThread]; exact counts.attempts
  case owned => rw [called_owners _ isThread, called, invocations]; exact counts.owned
  case unsettled =>
    intro moved isMoved unsettled
    rw [called, invocations]
    rcases mem_called isMoved with old | rfl
    · exact counts.unsettled moved old unsettled
    · refine counts.unsettled thread member (Bool.eq_false_iff.mpr fun settled => ?_)
      exact Bool.eq_false_iff.mp unsettled (after.2 settled)
  case once => rw [called, invocations]; exact counts.once
  case charged =>
    intro moved isMoved charged
    rw [called, sessions]
    rcases mem_called isMoved with old | rfl
    · exact counts.charged moved old charged
    · exact counts.charged thread member (after.1 ▸ charged)
  case recorded => rw [called, sessions, invocations]; exact counts.recorded
  case bounded => rw [called, sessions]; exact counts.bounded

theorem called_invoke {rest : InvocationReply → DispatchProgram DispatchOutcome}
    (counts : Counts budget system) (bounded : 0 < budget.maxSessions)
    (isThread : system.threads[index]? = some thread)
    (allowed : Allowed budget thread.owner thread.past (.invoke actorRef cold))
    (followed : Followed budget
      (system.called world index thread (.invoke actorRef cold) rest).threads) :
    Counts budget (system.called world index thread (.invoke actorRef cold) rest) := by
  have member := List.mem_of_getElem? isThread
  obtain ⟨unsettled, _, charged⟩ := allowed
  have fresh := counts.unsettled thread member unsettled
  have attempts : ((system.called world index thread (.invoke actorRef cold) rest).threads.map
      (·.owner.attempt)).Nodup := by
    rw [called_owners _ isThread]
    exact counts.attempts
  have invocations : (system.called world index thread (.invoke actorRef cold) rest).tables.invocations =
    system.tables.invocations ++ [⟨thread.owner.attempt, thread.owner.claim, actorRef, cold⟩] := rfl
  constructor
  case followed => exact followed
  case attempts => exact attempts
  case owned =>
    intro attempt invoked
    rw [called_owners _ isThread]
    rw [invocations, List.map_append] at invoked
    rcases List.mem_append.mp invoked with old | new
    · exact counts.owned attempt old
    · rw [List.map_singleton, List.mem_singleton] at new
      rw [new]
      exact List.mem_map_of_mem member
  case unsettled =>
    intro moved isMoved stillUnsettled
    rw [invocations, List.map_append, List.mem_append, not_or]
    rcases mem_called isMoved with old | rfl
    · refine ⟨counts.unsettled moved old stillUnsettled, fun same => ?_⟩
      rw [List.map_singleton, List.mem_singleton] at same
      have isInvoker := List.inj_on_of_nodup_map attempts isMoved (goesOn_mem isThread) same
      rw [isInvoker] at stillUnsettled
      contradiction
    · contradiction
  case once =>
    rw [invocations, List.map_append, List.map_singleton]
    exact List.nodup_append.mpr ⟨counts.once, List.nodup_singleton _, by simpa using fresh⟩
  case charged =>
    intro moved isMoved isCharged
    rcases mem_called isMoved with old | rfl
    · exact counts.charged moved old isCharged
    · exact counts.charged thread member isCharged
  case recorded =>
    intro invocation invoked isCold
    rw [invocations] at invoked
    rcases List.mem_append.mp invoked with old | new
    · exact counts.recorded invocation old isCold
    · rw [List.mem_singleton] at new
      rw [new] at isCold ⊢
      exact counts.charged thread member (charged isCold bounded)
  case bounded => exact counts.bounded

theorem called_recordSessionStart {rest : Except String Unit → DispatchProgram DispatchOutcome}
    (counts : Counts budget system) (isThread : system.threads[index]? = some thread)
    (allowed : Allowed budget thread.owner thread.past (.recordSessionStart actorRef))
    (holds : thread.past.started = some system.tables.sessions.length)
    (followed : Followed budget
      (system.called world index thread (.recordSessionStart actorRef) rest).threads) :
    Counts budget (system.called world index thread (.recordSessionStart actorRef) rest) := by
  have member := List.mem_of_getElem? isThread
  obtain ⟨started, isStarted, below⟩ := allowed
  obtain rfl := Option.some.inj (isStarted.symm.trans holds)
  have records := @execute_recordSessionStart world system.tables thread.owner thread.past actorRef
  have kept : system.tables.sessions.map (·.attempt) ⊆
      (execute world system.tables thread.owner (.recordSessionStart actorRef)).1.sessions.map
        (·.attempt) := List.map_subset _ records.sessions
  constructor
  case followed => exact followed
  case attempts => rw [called_owners _ isThread]; exact counts.attempts
  case owned => rw [called_owners _ isThread, called, records.invocations]; exact counts.owned
  case unsettled =>
    intro moved isMoved unsettled
    rw [called, records.invocations]
    rcases mem_called isMoved with old | rfl
    · exact counts.unsettled moved old unsettled
    · exact counts.unsettled thread member (records.settled.symm.trans unsettled)
  case once => rw [called, records.invocations]; exact counts.once
  case charged =>
    intro moved isMoved charged
    rcases mem_called isMoved with old | rfl
    · exact kept (counts.charged moved old charged)
    · rcases records.charged charged with before | now
      · exact kept (counts.charged thread member before)
      · exact now
  case recorded =>
    intro invocation invoked isCold
    rw [called, records.invocations] at invoked
    exact kept (counts.recorded invocation invoked isCold)
  case bounded => exact records.length.trans below

end

theorem step {action : DispatchAction} (bounded : 0 < budget.maxSessions)
    (counts : Counts budget system) (holds : system.countStillHolds action = true)
    (taken : system.act options budget isCode action = some next) : Counts budget next := by
  have followed := counts.followed.step taken
  cases action with
  | claim id worker claimCode now lease =>
      obtain ⟨_, _, _, _, rfl⟩ := act_claim taken
      exact counts.of_same rfl rfl rfl
  | dispatch claim attempt nodeRun node => exact counts.dispatched taken
  | advance index world =>
      obtain ⟨thread, statement, rest, isThread, isRest, rfl⟩ := act_advance taken
      have allowed := counts.followed.allowed isThread isRest
      cases statement with
      | recordSessionStart actorRef =>
          have recorded : recording thread = true := by rw [recording, isRest]
          simp only [countStillHolds, isThread, Option.all_some, recorded, Bool.not_true,
            Bool.false_or, decide_eq_true_eq] at holds
          exact counts.called_recordSessionStart isThread allowed holds followed
      | invoke actorRef cold => exact counts.called_invoke bounded isThread allowed followed
      | _ => exact counts.called_other isThread followed rfl
  | acknowledge id now =>
      obtain rfl := Option.some.inj taken
      exact counts.of_same rfl rfl rfl
  | elsewhere action =>
      obtain ⟨_, _, _, rfl⟩ := act_elsewhere taken
      exact counts.of_same rfl rfl rfl

end Counts

/-- In a run whose sessions are recorded on counts that still hold, no more sessions are recorded, and no
more invocations open one, than the workflow allows. -/
theorem sessions_within_budget (options : WorkerOptions) (budget : Budget) (isCode : Nat → Bool)
    (bounded : 0 < budget.maxSessions)
    (run : Steps (step options budget isCode) (countStillHolds · · = true) {} system) :
    system.coldStarts.length ≤ budget.maxSessions ∧
      system.tables.sessions.length ≤ budget.maxSessions := by
  have counts : Counts budget system := run.invariant (Counts budget) Counts.initial
    fun _ _ _ counts holds taken => counts.step bounded holds taken
  exact ⟨counts.coldStarts_le, counts.bounded⟩

/-- Two branches of a run, each claimed by a worker of its own and dispatched to the actor it names. -/
def branches : List DispatchAction :=
  [.elsewhere (.enqueue 1 10 0), .elsewhere (.enqueue 2 20 0),
   .claim 1 "one" false 0 60, .claim 2 "two" false 0 60,
   .dispatch ⟨1, "one", 1, 1⟩ 100 10 { id := "left", uses := "actor://coder" },
   .dispatch ⟨2, "two", 1, 1⟩ 200 20 { id := "right", uses := "actor://coder" }]

/-- The next calls of one of the two. -/
def calls (index count : Nat) : List DispatchAction := List.replicate count (.advance index {})

/-- The first branch opens the one session of the run before the second is funded. -/
theorem sessions_within_budget_in_turn :
    ∃ system, Steps (step {} { maxSessions := 1 } fun _ => false) (countStillHolds · · = true) {}
        system ∧
      system.tables.sessions.length = 1 ∧ system.coldStarts.length ≤ 1 ∧
      system.tables.sessions.length ≤ 1 := by
  have ran : (Steps.ofList (act {} { maxSessions := 1 } fun _ => false) countStillHolds {}
      (branches ++ calls 0 10 ++ calls 1 6)).map (·.tables.sessions.length) = some 1 := by
    decide +kernel
  obtain ⟨system, run, recorded⟩ := Steps.reaches_of_ofList (fun _ _ => id) ran
  exact ⟨system, run, recorded, sessions_within_budget {} { maxSessions := 1 } _ Nat.one_pos run⟩

/-- Both branches count no session yet, and each opens its own. -/
theorem branches_exceed_budget :
    ¬ ∀ (options : WorkerOptions) (budget : Budget) (isCode : Nat → Bool) (system : DispatchSystem),
      0 < budget.maxSessions → Steps (step options budget isCode) anyAction {} system →
      system.coldStarts.length ≤ budget.maxSessions := by
  intro always
  have ran : (Steps.ofList (act {} { maxSessions := 1 } fun _ => false) (fun _ _ => true) {}
      (branches ++ calls 0 8 ++ calls 1 10 ++ calls 0 2)).map (·.coldStarts.length) = some 2 := by
    decide +kernel
  obtain ⟨system, run, two⟩ := Steps.reaches_of_ofList (fun _ _ _ => trivial) ran
  have one := always {} { maxSessions := 1 } _ system Nat.one_pos run
  rw [two] at one
  contradiction

end DispatchSystem

end CultureNodes.Worker
