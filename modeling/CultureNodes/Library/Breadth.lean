import Mathlib.Data.List.Chain
import Mathlib.Logic.Function.Basic
import Mathlib.Order.Lattice.Nat

/-!
A breadth-first search that records how deep it finds a state. The queue is in the order of depths, and no
state is deeper than one below its head; when the queue is empty, the depth of a state is the length of the
shortest walk to it.
-/

namespace CultureNodes.Breadth

variable {α : Type}

structure Search (α : Type) where
  queue : List α
  depth : α → Option Nat
  order : List α

namespace Search

variable [DecidableEq α] (level : Nat) (search : Search α) {state other : α}

/-- Put a state at the end of the queue, at this depth. -/
def push (state : α) : Search α :=
  { search with queue := search.queue ++ [state], depth := Function.update search.depth state (some level) }

/-- A state that is found, at this depth, unless it has been found before. -/
def find (state : α) : Search α :=
  if (search.depth state).isSome then search else search.push level state

theorem push_depth_self : (search.push level state).depth state = some level := Function.update_self ..

theorem push_depth_of_ne (differs : other ≠ state) : (search.push level state).depth other = search.depth other :=
  Function.update_of_ne differs ..

theorem push_queue : (search.push level state).queue = search.queue ++ [state] := rfl

end Search

/-- The root has been found and nothing else. -/
def start [DecidableEq α] (root : α) : Search α := Search.push 0 ⟨[], fun _ => none, []⟩ root

/-- Take states from the queue, so often at most. -/
def run [DecidableEq α] (next : α → List α) : Nat → Search α → Search α
  | 0, search => search
  | fuel + 1, search =>
      match search.queue with
      | [] => search
      | state :: rest =>
          run next fuel ((next state).foldl (Search.find ((search.depth state).getD 0 + 1))
            { search with queue := rest, order := search.order ++ [state] })

/-- A walk of so many steps from the root. -/
inductive Walk (next : α → List α) (root : α) : Nat → α → Prop where
  | start : Walk next root 0 root
  | step {length : Nat} {state target : α} (walk : Walk next root length state) (linked : target ∈ next state) :
      Walk next root (length + 1) target

variable {next : α → List α} {root state : α} {search : Search α} {level : Nat}

/-- Depths are lengths of walks, and in the queue they do not decrease. -/
structure Known (next : α → List α) (root : α) (search : Search α) : Prop where
  walks : ∀ state depth, search.depth state = some depth → Walk next root depth state
  rooted : search.depth root = some 0
  queued : ∀ state ∈ search.queue, (search.depth state).isSome = true
  sorted : search.queue.Pairwise fun first second =>
    (search.depth first).getD 0 ≤ (search.depth second).getD 0

/-- What holds between two states that are taken: none is more than one deeper than the head of the queue, and
what has been taken has its successors found. -/
structure Layered (next : α → List α) (root : α) (search : Search α) : Prop extends Known next root search where
  bounded : ∀ head, search.queue.head? = some head → ∀ state depth, search.depth state = some depth →
    depth ≤ (search.depth head).getD 0 + 1
  expanded : ∀ state depth, search.depth state = some depth → state ∉ search.queue → ∀ target ∈ next state,
    ∃ found ≤ depth + 1, search.depth target = some found

/-- While the successors of a state are gone through: none is deeper than they are. -/
structure Finding (next : α → List α) (root : α) (level : Nat) (state : α) (pending : List α)
    (search : Search α) : Prop extends Known next root search where
  above : ∀ other ∈ search.queue, level ≤ (search.depth other).getD 0
  bounded : ∀ state depth, search.depth state = some depth → depth ≤ level + 1
  taken : search.depth state = some level
  expanded : ∀ other depth, search.depth other = some depth → other ∉ search.queue → other ≠ state →
    ∀ target ∈ next other, ∃ found ≤ depth + 1, search.depth target = some found
  through : ∀ target ∈ next state, target ∉ pending → ∃ found ≤ level + 1, search.depth target = some found

theorem Layered.take {rest : List α} (layered : Layered next root search) (queued : search.queue = state :: rest) :
    Finding next root ((search.depth state).getD 0) state (next state)
      { search with queue := rest, order := search.order ++ [state] } := by
  have inside : ∀ other ∈ rest, other ∈ search.queue := fun other held =>
    queued ▸ List.mem_cons_of_mem _ held
  have sorted := layered.sorted
  rw [queued, List.pairwise_cons] at sorted
  obtain ⟨depth, found⟩ := Option.isSome_iff_exists.mp (layered.queued state (queued ▸ List.mem_cons_self))
  exact {
    walks := layered.walks
    rooted := layered.rooted
    queued := fun other held => layered.queued other (inside other held)
    sorted := sorted.2
    above := sorted.1
    bounded := layered.bounded state (by rw [queued]; rfl)
    taken := by simp [found]
    expanded := by
      intro other depth known notQueued differs
      refine layered.expanded other depth known ?_
      rw [queued, List.mem_cons]
      exact fun either => either.elim differs notQueued
    through := fun target held notPending => absurd held notPending }

variable [DecidableEq α]

theorem Finding.find {target : α} {pending : List α} (finding : Finding next root level state (target :: pending) search)
    (linked : target ∈ next state) :
    Finding next root level state pending (search.find (level + 1) target) := by
  unfold Search.find
  split
  · rename_i known
    obtain ⟨depth, found⟩ := Option.isSome_iff_exists.mp known
    refine { finding with through := ?_ }
    intro other held notPending
    by_cases same : other = target
    · subst same
      exact ⟨depth, finding.bounded other depth found, found⟩
    · exact finding.through other held (by simp [same, notPending])
  · rename_i fresh
    have other_ne {other : α} (known : (search.depth other).isSome = true) : other ≠ target := by
      rintro rfl
      exact fresh known
    have kept {other : α} (known : (search.depth other).isSome = true) :
        (search.push (level + 1) target).depth other = search.depth other :=
      search.push_depth_of_ne _ (other_ne known)
    have known {other : α} {depth : Nat} (found : search.depth other = some depth) :
        (search.push (level + 1) target).depth other = some depth :=
      (kept (by simp [found])).trans found
    refine {
      walks := ?_
      rooted := known finding.rooted
      queued := ?_
      sorted := ?_
      above := ?_
      bounded := ?_
      taken := known finding.taken
      expanded := ?_
      through := ?_ }
    · intro other depth found
      by_cases same : other = target
      · subst same
        rw [Search.push_depth_self] at found
        cases found
        exact .step (finding.walks state level finding.taken) linked
      · rw [Search.push_depth_of_ne _ _ same] at found
        exact finding.walks other depth found
    · intro other held
      obtain old | new := List.mem_append.mp held
      · rw [kept (finding.queued other old)]
        exact finding.queued other old
      · rw [List.mem_singleton.mp new, Search.push_depth_self]
        rfl
    · rw [Search.push_queue, List.pairwise_append]
      refine ⟨?_, List.pairwise_singleton _ _, ?_⟩
      · refine finding.sorted.imp_of_mem ?_
        intro first second inFirst inSecond before
        rw [kept (finding.queued first inFirst), kept (finding.queued second inSecond)]
        exact before
      · intro other held last isLast
        obtain ⟨depth, found⟩ := Option.isSome_iff_exists.mp (finding.queued other held)
        rw [List.mem_singleton.mp isLast, Search.push_depth_self, known found]
        exact finding.bounded other depth found
    · intro other held
      obtain old | new := List.mem_append.mp held
      · rw [kept (finding.queued other old)]
        exact finding.above other old
      · rw [List.mem_singleton.mp new, Search.push_depth_self]
        exact Nat.le_succ level
    · intro other depth found
      by_cases same : other = target
      · subst same
        rw [Search.push_depth_self] at found
        cases found
        exact Nat.le_refl _
      · rw [Search.push_depth_of_ne _ _ same] at found
        exact finding.bounded other depth found
    · intro other depth found notQueued differs successor held
      rw [Search.push_queue, List.mem_append, List.mem_singleton, not_or] at notQueued
      rw [Search.push_depth_of_ne _ _ notQueued.2] at found
      obtain ⟨deep, bound, reached⟩ := finding.expanded other depth found notQueued.1 differs successor held
      exact ⟨deep, bound, known reached⟩
    · intro other held notPending
      by_cases same : other = target
      · subst same
        exact ⟨level + 1, Nat.le_refl _, search.push_depth_self _⟩
      · obtain ⟨deep, bound, reached⟩ := finding.through other held (by simp [same, notPending])
        exact ⟨deep, bound, known reached⟩

theorem Finding.findAll {pending : List α} (finding : Finding next root level state pending search)
    (linked : ∀ target ∈ pending, target ∈ next state) :
    Finding next root level state [] (pending.foldl (Search.find (level + 1)) search) := by
  induction pending generalizing search with
  | nil => exact finding
  | cons target rest ih =>
      rw [List.forall_mem_cons] at linked
      exact ih (finding.find linked.1) linked.2

theorem Finding.done (finding : Finding next root level state [] search) : Layered next root search where
  toKnown := finding.toKnown
  bounded head leads other depth found := by
    have deep := finding.above head (List.mem_of_head? leads)
    have bound := finding.bounded other depth found
    omega
  expanded other depth found notQueued target held := by
    by_cases same : other = state
    · subst same
      rw [finding.taken] at found
      cases found
      exact finding.through target held List.not_mem_nil
    · exact finding.expanded other depth found notQueued same target held

theorem Layered.run (layered : Layered next root search) (fuel : Nat) :
    Layered next root (Breadth.run next fuel search) := by
  induction fuel generalizing search with
  | zero => exact layered
  | succ fuel ih =>
      unfold Breadth.run
      cases queued : search.queue with
      | nil => exact layered
      | cons state rest => exact ih ((layered.take queued).findAll fun _ held => held).done

theorem depth_start {depth : Nat} (found : (start root).depth state = some depth) : state = root ∧ depth = 0 := by
  by_cases same : state = root
  · subst same
    rw [start, Search.push_depth_self] at found
    cases found
    exact ⟨rfl, rfl⟩
  · rw [start, Search.push_depth_of_ne _ _ same] at found
    contradiction

theorem layered_start (next : α → List α) (root : α) : Layered next root (start root) where
  walks state depth found := by
    obtain ⟨rfl, rfl⟩ := depth_start found
    exact .start
  rooted := Search.push_depth_self ..
  queued state held := by
    rw [List.mem_singleton.mp held, start, Search.push_depth_self]
    rfl
  sorted := List.pairwise_singleton _ _
  bounded _ _ state depth found := by
    obtain ⟨_, rfl⟩ := depth_start found
    exact Nat.zero_le _
  expanded state depth found notQueued := by
    obtain ⟨rfl, _⟩ := depth_start found
    exact absurd (List.mem_singleton_self _) notQueued

/-- The states of a list that have not been found. -/
def unfound (domain : List α) (search : Search α) : Nat :=
  (domain.filter fun state => (search.depth state).isNone).length

theorem find_measure {domain : List α} {target : α} (inside : target ∈ domain) :
    (search.find level target).queue.length + unfound domain (search.find level target) ≤
      search.queue.length + unfound domain search := by
  unfold Search.find
  split
  · exact Nat.le_refl _
  · rename_i fresh
    have unknown : (search.depth target).isNone = true := by simpa using fresh
    have fewer : unfound domain (search.push level target) < unfound domain search := by
      unfold unfound
      have narrower : (domain.filter fun state => ((search.push level target).depth state).isNone) =
          (domain.filter fun state => (search.depth state).isNone).filter fun state => state ≠ target := by
        rw [List.filter_filter]
        apply List.filter_congr
        intro other _
        by_cases same : other = target
        · subst same
          simp [Search.push_depth_self]
        · simp [Search.push_depth_of_ne _ _ same, same]
      rw [narrower]
      exact List.length_filter_lt_length_iff_exists.mpr
        ⟨target, List.mem_filter.mpr ⟨inside, unknown⟩, by simp⟩
    rw [Search.push_queue, List.length_append, List.length_singleton]
    omega

theorem findAll_measure {domain targets : List α} (inside : ∀ target ∈ targets, target ∈ domain) :
    (targets.foldl (Search.find level) search).queue.length +
        unfound domain (targets.foldl (Search.find level) search) ≤
      search.queue.length + unfound domain search := by
  induction targets generalizing search with
  | nil => exact Nat.le_refl _
  | cons target rest ih =>
      rw [List.forall_mem_cons] at inside
      exact (ih inside.2).trans (find_measure inside.1)

theorem run_drains {domain : List α} (inside : ∀ state, ∀ target ∈ next state, target ∈ domain) {fuel : Nat}
    (enough : search.queue.length + unfound domain search ≤ fuel) : (run next fuel search).queue = [] := by
  induction fuel generalizing search with
  | zero => exact List.eq_nil_of_length_eq_zero (by rw [run]; omega)
  | succ fuel ih =>
      unfold run
      cases queued : search.queue with
      | nil => exact queued
      | cons state rest =>
          apply ih
          refine Nat.le_trans (findAll_measure (inside state)) ?_
          rw [queued, List.length_cons] at enough
          have same : unfound domain { search with queue := rest, order := search.order ++ [state] } =
              unfound domain search := rfl
          rw [same]
          simp only
          omega

theorem start_drains {domain : List α} (inside : ∀ state, ∀ target ∈ next state, target ∈ domain) (root : α) :
    (run next (domain.length + 1) (start root)).queue = [] := by
  apply run_drains inside
  have fewer : unfound domain (start root) ≤ domain.length := List.length_filter_le _ _
  have single : (start root).queue.length = 1 := rfl
  omega

omit [DecidableEq α] in
theorem Layered.depth_le (layered : Layered next root search) (empty : search.queue = []) {length : Nat}
    (walk : Walk next root length state) : ∃ depth ≤ length, search.depth state = some depth := by
  induction walk with
  | start => exact ⟨0, Nat.le_refl _, layered.rooted⟩
  | step _ linked ih =>
      obtain ⟨depth, bound, found⟩ := ih
      obtain ⟨deep, close, reached⟩ := layered.expanded _ depth found (by simp [empty]) _ linked
      exact ⟨deep, by omega, reached⟩

omit [DecidableEq α] in
theorem Layered.depth_eq (layered : Layered next root search) (empty : search.queue = []) (state : α) :
    (search.depth state).getD 0 = sInf {length | Walk next root length state} := by
  cases found : search.depth state with
  | none =>
      have nowhere : {length | Walk next root length state} = ∅ := by
        apply Set.eq_empty_of_forall_notMem
        intro length walk
        obtain ⟨depth, _, known⟩ := layered.depth_le empty walk
        rw [found] at known
        contradiction
      rw [nowhere, Nat.sInf_empty]
      rfl
  | some depth =>
      have walk := layered.walks state depth found
      apply le_antisymm
      · have shortest : Walk next root (sInf {length | Walk next root length state}) state :=
          Nat.sInf_mem (s := {length | Walk next root length state}) ⟨depth, walk⟩
        obtain ⟨least, bound, known⟩ := layered.depth_le empty shortest
        rw [found] at known
        cases known
        exact bound
      · exact Nat.sInf_le walk

end CultureNodes.Breadth
