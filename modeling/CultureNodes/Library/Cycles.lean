import Mathlib.Data.List.Chain
import Mathlib.Data.List.TakeWhile

/-!
A depth-first search for a cycle. The states on the current path are on the stack, those explored to the end
are finished, and a successor that is on the stack closes a cycle. The search stops at the first one; without
one, the finished states are in an order in which every successor comes before.
-/

namespace CultureNodes.Cycles

inductive Search (α : Type) where
  | cycle (path : List α)
  | done (finished : List α)
deriving DecidableEq, Repr

variable {α : Type} [DecidableEq α]

/-- Go through the successors of the state on top of the stack. -/
def explore (visit : List α → α → Search α) (stack : List α) : List α → List α → Search α
  | finished, [] => .done finished
  | finished, target :: rest =>
      if target ∈ stack then .cycle (stack.dropWhile (· ≠ target) ++ [target])
      else if target ∈ finished then explore visit stack finished rest
      else
        match visit finished target with
        | .cycle path => .cycle path
        | .done finished => explore visit stack finished rest

def visit (next : α → List α) : Nat → List α → List α → α → Search α
  | 0, _, finished, _ => .done finished
  | fuel + 1, stack, finished, state =>
      match explore (visit next fuel (stack ++ [state])) (stack ++ [state]) finished (next state) with
      | .cycle path => .cycle path
      | .done finished => .done (state :: finished)

def findCycle (next : α → List α) (fuel : Nat) (start : α) : Option (List α) :=
  match visit next fuel [] [] start with
  | .cycle path => some path
  | .done _ => none

/-- One step along a successor. -/
def Link (next : α → List α) (state target : α) : Prop := target ∈ next state

/-- A walk of at least one step that ends where it begins. -/
def ClosedWalk (link : α → α → Prop) (path : List α) : Prop :=
  path.IsChain link ∧ ∃ first middle, path = first :: middle ++ [first]

/-- Some cycle can be reached. -/
def CycleFrom (link : α → α → Prop) (start : α) : Prop :=
  ∃ state, Relation.ReflTransGen link start state ∧ Relation.TransGen link state state

variable {next : α → List α} {stack finished after targets path domain : List α} {state target start : α}
  {fuel : Nat}

/-- What is known of the path to a state: it is a walk from the start. -/
structure Trail (next : α → List α) (start : α) (stack : List α) (state : α) : Prop where
  walk : (stack ++ [state]).IsChain (Link next)
  reached : ∀ earlier ∈ stack ++ [state], Relation.ReflTransGen (Link next) start earlier

def Reported (next : α → List α) (start : α) (path : List α) : Prop :=
  ClosedWalk (Link next) path ∧ ∀ earlier ∈ path, Relation.ReflTransGen (Link next) start earlier

omit [DecidableEq α] in
theorem Trail.extend (trail : Trail next start stack state) (succ : target ∈ next state) :
    Trail next start (stack ++ [state]) target := by
  constructor
  · rw [List.isChain_append]
    refine ⟨trail.walk, List.isChain_singleton target, ?_⟩
    intro last isLast first isFirst
    simp only [List.getLast?_append, List.getLast?_singleton, Option.some_or, Option.mem_some] at isLast
    simp only [List.head?_cons, Option.mem_some] at isFirst
    rw [← isLast, ← isFirst]
    exact succ
  · intro earlier held
    rw [List.mem_append, List.mem_singleton] at held
    obtain before | rfl := held
    · exact trail.reached earlier before
    · exact (trail.reached state (by simp)).tail succ

/-- A successor on the stack closes the walk from its first place there. -/
theorem Trail.close (trail : Trail next start stack state) (succ : target ∈ next state)
    (onStack : target ∈ stack ++ [state]) :
    Reported next start ((stack ++ [state]).dropWhile (· ≠ target) ++ [target]) := by
  have back := trail.extend succ
  have ending : (stack ++ [state]).dropWhile (· ≠ target) ++ [target] <:+ (stack ++ [state]) ++ [target] := by
    obtain ⟨front, whole⟩ := List.dropWhile_suffix (l := stack ++ [state]) (· ≠ target)
    exact ⟨front, by rw [← List.append_assoc, whole]⟩
  refine ⟨⟨back.walk.suffix ending, ?_⟩, fun earlier held => back.reached earlier (ending.subset held)⟩
  cases rest : (stack ++ [state]).dropWhile (· ≠ target) with
  | nil =>
      have passed := List.dropWhile_eq_nil_iff.mp rest target onStack
      simp at passed
  | cons first middle =>
      have some_ : (stack ++ [state]).dropWhile (· ≠ target) ≠ [] := by
        rw [rest]
        exact List.cons_ne_nil first middle
      have stops : decide (first ≠ target) = false := by
        have isHead := List.head_dropWhile_not (· ≠ target) some_
        simpa only [rest, List.head_cons] using isHead
      have same : first = target := by simpa using stops
      exact ⟨first, middle, by rw [same]⟩

theorem explore_reported {visitAt : List α → α → Search α} (trail : Trail next start stack state)
    (inner : ∀ {finished target}, target ∈ next state → visitAt finished target = .cycle path →
      Reported next start path) (among : ∀ target ∈ targets, target ∈ next state)
    (found : explore visitAt (stack ++ [state]) finished targets = .cycle path) :
    Reported next start path := by
  induction targets generalizing finished with
  | nil => simp [explore] at found
  | cons target rest ih =>
      rw [List.forall_mem_cons] at among
      rw [explore] at found
      split at found
      · rename_i onStack
        cases found
        exact trail.close among.1 onStack
      · split at found
        · exact ih among.2 found
        · split at found
          · rename_i _ deeper visited
            cases found
            exact inner among.1 visited
          · exact ih among.2 found

theorem visit_reported (trail : Trail next start stack state)
    (found : visit next fuel stack finished state = .cycle path) : Reported next start path := by
  induction fuel generalizing stack finished state with
  | zero => simp [visit] at found
  | succ fuel ih =>
      rw [visit] at found
      split at found
      · rename_i _ deeper explored
        cases found
        exact explore_reported trail (fun succ visited => ih (trail.extend succ) visited)
          (fun _ succ => succ) explored
      · cases found

theorem findCycle_reported (found : findCycle next fuel start = some path) : Reported next start path := by
  unfold findCycle at found
  split at found
  · rename_i _ visited
    cases found
    have trail : Trail next start [] start := by
      refine ⟨List.isChain_singleton start, ?_⟩
      intro earlier held
      rw [List.nil_append, List.mem_singleton] at held
      rw [held]
    exact visit_reported trail visited
  · cases found

omit [DecidableEq α] in
theorem Reported.cycleFrom (reported : Reported next start path) : CycleFrom (Link next) start := by
  obtain ⟨⟨walk, first, middle, rfl⟩, reached⟩ := reported
  refine ⟨first, reached first (by simp), ?_⟩
  cases middle with
  | nil =>
      rw [List.cons_append, List.nil_append, List.isChain_cons_cons] at walk
      exact .single walk.1
  | cons second middle =>
      simp only [List.cons_append, List.isChain_cons_cons] at walk
      have onward : Relation.ReflTransGen (Link next) second first :=
        List.relationReflTransGen_of_exists_isChain_cons (middle ++ [first]) walk.2 (by simp)
      exact .head' walk.1 onward

/-- Newest first, each state after all its successors. -/
def Finished (next : α → List α) : List α → Prop
  | [] => True
  | state :: rest => (∀ target ∈ next state, target ∈ rest) ∧ Finished next rest

omit [DecidableEq α] in
theorem Finished.acc (ordered : Finished next finished) :
    ∀ state ∈ finished, Acc (fun target state => Link next state target) state := by
  induction finished with
  | nil => simp
  | cons first rest ih =>
      have older := ih ordered.2
      rw [List.forall_mem_cons]
      exact ⟨⟨first, fun target succ => older target (ordered.1 target succ)⟩, older⟩

omit [DecidableEq α] in
theorem not_cycle_of_acc (acc : Acc (fun target state => Link next state target) state) :
    ¬Relation.TransGen (Link next) state state := by
  induction acc with
  | intro state _ ih =>
      intro cycle
      obtain ⟨second, succ, back⟩ := Relation.TransGen.head'_iff.mp cycle
      exact ih second succ (.tail' back succ)

omit [DecidableEq α] in
theorem not_cycleFrom_of_acc (acc : Acc (fun target state => Link next state target) start) :
    ¬CycleFrom (Link next) start := by
  rintro ⟨state, reached, cycle⟩
  apply not_cycle_of_acc _ cycle
  clear cycle
  induction reached with
  | refl => exact acc
  | tail _ succ ih => exact ih.inv succ

/-- The states of the domain the search has not come to yet. -/
def fresh (domain stack finished : List α) : List α :=
  domain.filter fun state => state ∉ stack ∧ state ∉ finished

theorem fresh_push (inside : state ∈ domain) (notOnStack : state ∉ stack) (unfinished : state ∉ finished) :
    (fresh domain (stack ++ [state]) finished).length < (fresh domain stack finished).length := by
  have narrowed : fresh domain (stack ++ [state]) finished =
      (fresh domain stack finished).filter (· ≠ state) := by
    unfold fresh
    rw [List.filter_filter]
    apply List.filter_congr
    intro other _
    simp only [List.mem_append, List.mem_singleton, ← Bool.decide_and, decide_eq_decide]
    tauto
  rw [narrowed, List.length_filter_lt_length_iff_exists]
  exact ⟨state, by simp [fresh, inside, notOnStack, unfinished], by simp⟩

theorem fresh_finish (grown : finished <:+ after) :
    (fresh domain stack after).length ≤ (fresh domain stack finished).length := by
  apply List.Sublist.length_le
  apply List.monotone_filter_right
  intro state still
  simp only [decide_eq_true_eq] at still ⊢
  exact ⟨still.1, fun held => still.2 (grown.subset held)⟩

/-- What a search that found nothing has done. -/
structure Completed (next : α → List α) (finished : List α) (targets : List α) (after : List α) : Prop where
  grown : finished <:+ after
  ordered : Finished next after
  covered : ∀ target ∈ targets, target ∈ after

theorem explore_completed (domain : List α) (state : α) (fuel : Nat) {visitAt : List α → α → Search α}
    (inner : ∀ {finished after target}, target ∈ next state → target ∉ stack → target ∉ finished →
      Finished next finished → (fresh domain stack finished).length ≤ fuel →
      visitAt finished target = .done after → Completed next finished [target] after)
    (among : ∀ target ∈ targets, target ∈ next state) (ordered : Finished next finished)
    (enough : (fresh domain stack finished).length ≤ fuel)
    (ended : explore visitAt stack finished targets = .done after) :
    Completed next finished targets after := by
  induction targets generalizing finished with
  | nil =>
      rw [explore] at ended
      cases ended
      exact ⟨List.suffix_rfl, ordered, by simp⟩
  | cons target rest ih =>
      rw [List.forall_mem_cons] at among
      rw [explore] at ended
      split at ended
      · cases ended
      · rename_i notOnStack
        split at ended
        · rename_i already
          have onward := ih among.2 ordered enough ended
          exact ⟨onward.grown, onward.ordered,
            List.forall_mem_cons.mpr ⟨onward.grown.subset already, onward.covered⟩⟩
        · rename_i unfinished
          split at ended
          · cases ended
          · rename_i _ middle visited
            have here := inner among.1 notOnStack unfinished ordered enough visited
            have onward := ih among.2 here.ordered ((fresh_finish here.grown).trans enough) ended
            exact ⟨here.grown.trans onward.grown, onward.ordered, List.forall_mem_cons.mpr
              ⟨onward.grown.subset (here.covered target (by simp)), onward.covered⟩⟩

theorem visit_completed (closed : ∀ state ∈ domain, ∀ target ∈ next state, target ∈ domain)
    (inside : state ∈ domain) (notOnStack : state ∉ stack) (unfinished : state ∉ finished)
    (ordered : Finished next finished) (enough : (fresh domain stack finished).length ≤ fuel)
    (ended : visit next fuel stack finished state = .done after) :
    Completed next finished [state] after := by
  induction fuel generalizing stack finished state after with
  | zero =>
      have some_ : state ∈ fresh domain stack finished := by simp [fresh, inside, notOnStack, unfinished]
      have := List.length_pos_of_mem some_
      omega
  | succ fuel ih =>
      rw [visit] at ended
      split at ended
      · cases ended
      · rename_i _ explored walked
        cases ended
        have less := fresh_push inside notOnStack unfinished
        have below := explore_completed domain state fuel
          (fun succ onStack unfinishedToo orderedToo room visited =>
            ih (closed state inside _ succ) onStack unfinishedToo orderedToo room visited)
          (fun _ succ => succ) ordered (by omega) walked
        refine ⟨below.grown.trans (List.suffix_cons state explored), ⟨below.covered, below.ordered⟩, ?_⟩
        simp

theorem findCycle_isSome_iff (closed : ∀ state ∈ domain, ∀ target ∈ next state, target ∈ domain)
    (inside : start ∈ domain) (enough : domain.length ≤ fuel) :
    (findCycle next fuel start).isSome ↔ CycleFrom (Link next) start := by
  constructor
  · intro found
    obtain ⟨path, isPath⟩ := Option.isSome_iff_exists.mp found
    exact (findCycle_reported isPath).cycleFrom
  · intro cycle
    unfold findCycle
    cases ended : visit next fuel [] [] start with
    | cycle path => rfl
    | done after =>
        have all : (fresh domain [] []).length ≤ fuel := (List.length_filter_le _ _).trans enough
        have completed : Completed next [] [start] after :=
          visit_completed closed inside List.not_mem_nil List.not_mem_nil trivial all ended
        have acc := completed.ordered.acc start (completed.covered start (by simp))
        exact absurd cycle (not_cycleFrom_of_acc acc)

end CultureNodes.Cycles
