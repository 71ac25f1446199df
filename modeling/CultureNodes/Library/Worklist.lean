import Mathlib.Data.List.Basic
import Mathlib.Data.List.Nodup
import Mathlib.Data.List.Perm.Subperm

/-!
A breadth-first worklist over an arbitrary state type. The frontier holds the states still to be
visited and every state ever enqueued; a state is enqueued at most once. With as much fuel as there
are states in a finite domain the loop empties its queue, and what it visited is exactly what the
roots reach.
-/

namespace CultureNodes.Worklist

structure Frontier (σ : Type) where
  queue : List σ
  seen : List σ

variable {σ : Type} [DecidableEq σ]

/-- Enqueue a state unless it has been seen already. -/
def Frontier.push (frontier : Frontier σ) (state : σ) : Frontier σ :=
  if state ∈ frontier.seen then frontier
  else ⟨frontier.queue ++ [state], frontier.seen ++ [state]⟩

def Frontier.pushAll (frontier : Frontier σ) (states : List σ) : Frontier σ :=
  states.foldl Frontier.push frontier

def start (roots : List σ) : Frontier σ := Frontier.pushAll ⟨[], []⟩ roots

/-- Visit the queue in order. The result lists the states taken from the queue, oldest first. -/
def visit (next : σ → List σ) : Nat → Frontier σ → List σ → List σ
  | 0, _, visited => visited
  | fuel + 1, frontier, visited =>
      match frontier.queue with
      | [] => visited
      | state :: rest =>
          visit next fuel (Frontier.pushAll ⟨rest, frontier.seen⟩ (next state)) (visited ++ [state])

inductive Reaches (next : σ → List σ) (roots : List σ) : σ → Prop where
  | root {state : σ} : state ∈ roots → Reaches next roots state
  | step {state target : σ} : Reaches next roots state → target ∈ next state →
      Reaches next roots target

theorem push_mem_seen (frontier : Frontier σ) (state other : σ) :
    other ∈ (frontier.push state).seen ↔ other ∈ frontier.seen ∨ other = state := by
  unfold Frontier.push
  split
  · rename_i member
    constructor
    · exact Or.inl
    · rintro (old | rfl)
      · exact old
      · exact member
  · simp

theorem pushAll_mem_seen (frontier : Frontier σ) (states : List σ) (other : σ) :
    other ∈ (frontier.pushAll states).seen ↔ other ∈ frontier.seen ∨ other ∈ states := by
  induction states generalizing frontier with
  | nil => simp [Frontier.pushAll]
  | cons state rest ih =>
      have unfolded : frontier.pushAll (state :: rest) = (frontier.push state).pushAll rest := rfl
      rw [unfolded, ih, push_mem_seen, List.mem_cons, or_assoc]

/-- What the loop maintains: the seen states are the visited ones followed by the queued ones, all
of them distinct. -/
structure Balanced (visited : List σ) (frontier : Frontier σ) : Prop where
  split : frontier.seen = visited ++ frontier.queue
  nodup : frontier.seen.Nodup

theorem Balanced.push {visited : List σ} {frontier : Frontier σ}
    (balanced : Balanced visited frontier) (state : σ) : Balanced visited (frontier.push state) := by
  unfold Frontier.push
  split
  · exact balanced
  · rename_i fresh
    refine ⟨?_, ?_⟩
    · simp [balanced.split]
    · exact List.nodup_append.mpr ⟨balanced.nodup, List.nodup_singleton _, by
        intro old member new isNew same
        rw [List.mem_singleton] at isNew
        exact fresh (isNew ▸ same ▸ member)⟩

theorem Balanced.pushAll {visited : List σ} {frontier : Frontier σ}
    (balanced : Balanced visited frontier) (states : List σ) :
    Balanced visited (frontier.pushAll states) := by
  induction states generalizing frontier with
  | nil => exact balanced
  | cons state rest ih => exact ih (balanced.push state)

omit [DecidableEq σ] in
theorem Balanced.pop {visited rest : List σ} {state : σ} {frontier : Frontier σ}
    (balanced : Balanced visited frontier) (queued : frontier.queue = state :: rest) :
    Balanced (visited ++ [state]) ⟨rest, frontier.seen⟩ :=
  ⟨by simp [balanced.split, queued], balanced.nodup⟩

theorem start_balanced (roots : List σ) : Balanced [] (start roots) :=
  Balanced.pushAll ⟨rfl, List.nodup_nil⟩ roots

theorem start_mem_seen (roots : List σ) (state : σ) :
    state ∈ (start roots).seen ↔ state ∈ roots := by
  simp [start, pushAll_mem_seen]

def Expanded (next : σ → List σ) (visited : List σ) (frontier : Frontier σ) : Prop :=
  ∀ state ∈ visited, ∀ target ∈ next state, target ∈ frontier.seen

theorem Expanded.visitNext {next : σ → List σ} {visited rest : List σ} {state : σ}
    {frontier : Frontier σ} (expanded : Expanded next visited frontier) :
    Expanded next (visited ++ [state])
      (Frontier.pushAll ⟨rest, frontier.seen⟩ (next state)) := by
  intro source member target succ
  rw [pushAll_mem_seen]
  rcases List.mem_append.mp member with old | new
  · exact Or.inl (expanded source old target succ)
  · rw [List.mem_singleton] at new
    subst source
    exact Or.inr succ

theorem visit_reaches (next : σ → List σ) (roots : List σ) (fuel : Nat) (frontier : Frontier σ)
    (visited : List σ) (balanced : Balanced visited frontier)
    (seenReached : ∀ state ∈ frontier.seen, Reaches next roots state) :
    ∀ state ∈ visit next fuel frontier visited, Reaches next roots state := by
  have visitedReached : ∀ state ∈ visited, Reaches next roots state := fun state member =>
    seenReached state (balanced.split ▸ List.mem_append_left _ member)
  induction fuel generalizing frontier visited with
  | zero => exact visitedReached
  | succ fuel ih =>
      unfold visit
      cases queued : frontier.queue with
      | nil => exact visitedReached
      | cons head rest =>
          have headReached : Reaches next roots head :=
            seenReached head (by simp [balanced.split, queued])
          have afterSeen : ∀ state ∈ (Frontier.pushAll ⟨rest, frontier.seen⟩ (next head)).seen,
              Reaches next roots state := by
            intro state member
            rcases (pushAll_mem_seen _ _ _).mp member with old | new
            · exact seenReached state old
            · exact .step headReached new
          have afterBalanced := (balanced.pop queued).pushAll (next head)
          exact ih _ _ afterBalanced afterSeen fun state member =>
            afterSeen state (afterBalanced.split ▸ List.mem_append_left _ member)

/-- Completeness: once the fuel covers a finite domain closed under `next`, every seen state has
been visited and the visited states are closed under `next`. -/
theorem visit_closed (next : σ → List σ) (domain : List σ)
    (closed : ∀ state ∈ domain, ∀ target ∈ next state, target ∈ domain) (fuel : Nat)
    (frontier : Frontier σ) (visited : List σ) (balanced : Balanced visited frontier)
    (expanded : Expanded next visited frontier) (inside : ∀ state ∈ frontier.seen, state ∈ domain)
    (enough : domain.length ≤ fuel + visited.length) :
    (∀ state ∈ frontier.seen, state ∈ visit next fuel frontier visited) ∧
      ∀ state ∈ visit next fuel frontier visited, ∀ target ∈ next state,
        target ∈ visit next fuel frontier visited := by
  induction fuel generalizing frontier visited with
  | zero =>
      have bound : frontier.seen.length ≤ domain.length :=
        (balanced.nodup.subperm inside).length_le
      have drained : frontier.queue = [] := by
        rw [balanced.split, List.length_append] at bound
        exact List.eq_nil_of_length_eq_zero (by omega)
      have allVisited : frontier.seen = visited := by rw [balanced.split, drained, List.append_nil]
      refine ⟨fun state member => allVisited ▸ member, fun state member target succ => ?_⟩
      have seen := expanded state member target succ
      rwa [allVisited] at seen
  | succ fuel ih =>
      unfold visit
      cases queued : frontier.queue with
      | nil =>
          have allVisited : frontier.seen = visited := by rw [balanced.split, queued, List.append_nil]
          refine ⟨fun state member => allVisited ▸ member, fun state member target succ => ?_⟩
          have seen := expanded state member target succ
          rwa [allVisited] at seen
      | cons head rest =>
          have headSeen : head ∈ frontier.seen := by simp [balanced.split, queued]
          have inner := ih (Frontier.pushAll ⟨rest, frontier.seen⟩ (next head)) (visited ++ [head])
            ((balanced.pop queued).pushAll (next head)) expanded.visitNext
            (by
              intro state member
              rcases (pushAll_mem_seen _ _ _).mp member with old | new
              · exact inside state old
              · exact closed head (inside head headSeen) state new)
            (by simp only [List.length_append, List.length_singleton]; omega)
          refine ⟨fun state member => inner.1 state ?_, inner.2⟩
          exact (pushAll_mem_seen _ _ _).mpr (Or.inl member)

/-- The whole search: started on the roots with fuel for a finite domain that holds the roots and
is closed under `next`, it visits exactly the states the roots reach. -/
theorem mem_visit_start_iff (next : σ → List σ) (domain roots : List σ)
    (closed : ∀ state ∈ domain, ∀ target ∈ next state, target ∈ domain)
    (rootsInside : ∀ state ∈ roots, state ∈ domain) (fuel : Nat)
    (enough : domain.length ≤ fuel) (state : σ) :
    state ∈ visit next fuel (start roots) [] ↔ Reaches next roots state := by
  constructor
  · refine visit_reaches next roots fuel (start roots) [] (start_balanced roots) ?_ state
    exact fun root member => .root ((start_mem_seen roots root).mp member)
  · intro reached
    have complete := visit_closed next domain closed fuel (start roots) [] (start_balanced roots)
      (by intro source member; simp at member)
      (fun root member => rootsInside root ((start_mem_seen roots root).mp member))
      (by simpa using enough)
    induction reached with
    | root member => exact complete.1 _ ((start_mem_seen roots _).mpr member)
    | step _ succ ih => exact complete.2 _ ih _ succ

end CultureNodes.Worklist
