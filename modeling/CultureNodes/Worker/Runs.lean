import CultureNodes.Library.Transition
import CultureNodes.Worker.Calls

/-!
The runs of the dispatch system, one action at a time. Whatever its calls interleave with, a dispatch
under way keeps to what a dispatch may call.
-/

namespace CultureNodes.Worker

open Store Program

namespace DispatchSystem

variable {options : WorkerOptions} {budget : Budget} {isCode : Nat → Bool}
  {system next : DispatchSystem}

theorem act_claim {id now lease : Nat} {worker : String} {claimCode : Bool}
    (taken : system.act options budget isCode (.claim id worker claimCode now lease) = some next) :
    ∃ work item, system.tables.work.act isCode (.claim id worker claimCode now lease) = some work ∧
      work.tables.items.find? (·.id = id) = some item ∧
      next = { system with
        tables := { system.tables with work := work }
        claims := system.claims ++ [⟨id, worker, item.fencingToken, item.attempt⟩]
        issued := system.issued ++ [⟨id, worker, item.fencingToken, item.attempt⟩] } := by
  obtain ⟨work, claimed, found⟩ := Option.bind_eq_some_iff.mp taken
  obtain ⟨item, isItem, rfl⟩ := Option.map_eq_some_iff.mp found
  exact ⟨work, item, claimed, isItem, rfl⟩

theorem act_dispatch {claim : Claim} {attempt nodeRun : Nat} {node : DispatchNode}
    (taken : system.act options budget isCode (.dispatch claim attempt nodeRun node) = some next) :
    claim ∈ system.claims ∧ attempt ∉ system.threads.map (·.owner.attempt) ∧
      next = { system with
        claims := system.claims.erase claim
        threads := system.threads ++ [⟨⟨attempt, claim, nodeRun, node⟩, {},
          dispatchActor options budget ⟨attempt, claim, nodeRun, node⟩⟩] } := by
  simp only [act] at taken
  split at taken
  · rename_i enabled
    exact ⟨enabled.1, enabled.2, (Option.some.inj taken).symm⟩
  · contradiction

/-- A dispatch after one of its calls. -/
def goesOn (world : DispatchWorld) (tables : DispatchTables) (thread : DispatchThread)
    (statement : DispatchStatement) (rest : statement.Answer → DispatchProgram DispatchOutcome) :
    DispatchThread where
  owner := thread.owner
  past := thread.past.after statement (execute world tables thread.owner statement).2
  rest := rest (execute world tables thread.owner statement).2

def called (system : DispatchSystem) (world : DispatchWorld) (index : Nat) (thread : DispatchThread)
    (statement : DispatchStatement) (rest : statement.Answer → DispatchProgram DispatchOutcome) :
    DispatchSystem :=
  { system with
    tables := (execute world system.tables thread.owner statement).1
    threads := system.threads.set index (goesOn world system.tables thread statement rest) }

theorem act_advance {index : Nat} {world : DispatchWorld}
    (taken : system.act options budget isCode (.advance index world) = some next) :
    ∃ thread statement rest, system.threads[index]? = some thread ∧
      thread.rest = .call statement rest ∧
      next = system.called world index thread statement rest := by
  obtain ⟨thread, isThread, moved⟩ := Option.bind_eq_some_iff.mp taken
  obtain ⟨⟨tables, thread'⟩, advanced, rfl⟩ := Option.map_eq_some_iff.mp moved
  obtain ⟨statement, rest, isRest, rfl, rfl⟩ := Thread.advance_eq advanced
  exact ⟨thread, statement, rest, isThread, isRest, rfl⟩

theorem act_elsewhere {action : WorkAction}
    (taken : system.act options budget isCode (.elsewhere action) = some next) :
    byWorker action = false ∧ ∃ work, system.tables.work.act isCode action = some work ∧
      next = { system with tables := { system.tables with work := work } } := by
  simp only [act] at taken
  split at taken
  · contradiction
  · rename_i elsewhere
    obtain ⟨work, acted, rfl⟩ := Option.map_eq_some_iff.mp taken
    exact ⟨Bool.eq_false_iff.mpr elsewhere, work, acted, rfl⟩

/-- What every dispatch under way may still do. -/
def Followed (budget : Budget) (threads : List DispatchThread) : Prop :=
  ∀ thread ∈ threads, Dispatched budget thread.owner (fun _ _ => True) thread.past thread.rest

theorem Followed.step {action : DispatchAction} (followed : Followed budget system.threads)
    (taken : system.act options budget isCode action = some next) : Followed budget next.threads := by
  cases action with
  | claim id worker claimCode now lease =>
      obtain ⟨_, _, _, _, rfl⟩ := act_claim taken
      exact followed
  | dispatch claim attempt nodeRun node =>
      obtain ⟨_, _, rfl⟩ := act_dispatch taken
      intro thread member
      rcases List.mem_append.mp member with old | new
      · exact followed thread old
      · rw [List.mem_singleton] at new
        rw [new]
        exact dispatchActor_dispatched options budget _
  | advance index world =>
      obtain ⟨thread, statement, rest, isThread, isRest, rfl⟩ := act_advance taken
      have before := followed thread (List.mem_of_getElem? isThread)
      rw [isRest] at before
      intro other member
      rcases List.mem_or_eq_of_mem_set member with old | new
      · exact followed other old
      · rw [new]
        exact before.2 _
  | acknowledge id now =>
      obtain rfl := Option.some.inj taken
      exact followed
  | elsewhere action =>
      obtain ⟨_, _, _, rfl⟩ := act_elsewhere taken
      exact followed

theorem Followed.allowed {thread : DispatchThread} {index : Nat} {statement : DispatchStatement}
    {rest : statement.Answer → DispatchProgram DispatchOutcome}
    (followed : Followed budget system.threads) (isThread : system.threads[index]? = some thread)
    (isRest : thread.rest = .call statement rest) :
    Allowed budget thread.owner thread.past statement := by
  have before := followed thread (List.mem_of_getElem? isThread)
  rw [isRest] at before
  exact before.1

section

variable {world : DispatchWorld} {index : Nat} {thread : DispatchThread}
  {statement : DispatchStatement} {rest : statement.Answer → DispatchProgram DispatchOutcome}

theorem mem_called {other : DispatchThread}
    (member : other ∈ (system.called world index thread statement rest).threads) :
    other ∈ system.threads ∨ other = goesOn world system.tables thread statement rest :=
  List.mem_or_eq_of_mem_set member

theorem goesOn_mem (isThread : system.threads[index]? = some thread) :
    goesOn world system.tables thread statement rest ∈
      (system.called world index thread statement rest).threads :=
  List.mem_set (List.getElem?_eq_some_iff.mp isThread).1 _

/-- A dispatch that goes on stays whose it was. -/
theorem called_owners {α : Type} (view : Dispatch → α)
    (isThread : system.threads[index]? = some thread) :
    (system.called world index thread statement rest).threads.map (view ·.owner) =
      system.threads.map (view ·.owner) := by
  refine List.ext_getElem? fun position => ?_
  rw [called, List.getElem?_map, List.getElem?_map, List.getElem?_set]
  split
  · rename_i isPosition
    rw [← isPosition, isThread]
    simp [goesOn, (List.getElem?_eq_some_iff.mp isThread).1]
  · rfl

end

end DispatchSystem

end CultureNodes.Worker
