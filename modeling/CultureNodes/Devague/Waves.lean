import Mathlib.Data.String.Basic
import CultureNodes.Library.Layers

/-!
The waves of a plan. Tasks that were not rejected are placed in rounds: a round takes every task whose
dependencies, as far as they were not rejected either, have all been placed. Where a round finds none, the
tasks that are left wait for each other.
-/

namespace CultureNodes.Devague

open Layers (Chain Longest Cyclic)

structure PlanShowTask where
  status : String := ""
  deps : List String := []
deriving DecidableEq, Repr

section

variable (byID : String → PlanShowTask) (order : List String)

def active (id : String) : Bool := order.contains id && (byID id).status ≠ "rejected"

/-- No dependency of the task is still to be placed. -/
def ready (placed : List String) (id : String) : Bool :=
  (byID id).deps.all fun dep => !(active byID order dep && !placed.contains dep)

def cycleError (remaining : List String) : String :=
  "dependency cycle among tasks [" ++ " ".intercalate (remaining.insertionSort (· ≤ ·)) ++
    "]: no task's dependencies are all satisfied; break the cycle with 'devague plan depend --remove'"

/-- The rounds from a level on. A round that goes on places a task, so there are no more of them than tasks. -/
def placeFrom : Nat → Nat → List (String × Nat) → List String → List String → Except String (List (String × Nat))
  | _, _, wave, _, [] => .ok wave
  | 0, _, wave, _, _ => .ok wave
  | rounds + 1, level, wave, placed, remaining =>
      let now := remaining.filter (ready byID order placed)
      if now = [] then .error (cycleError remaining)
      else
        let placed := placed ++ now
        placeFrom rounds (level + 1) (wave ++ now.map fun id => (id, level)) placed
          (remaining.filter fun id => !placed.contains id)

/-- The wave of every task, with none for a task that was rejected. -/
def planTaskWaves : Except String (List (String × Option Nat)) :=
  let remaining := order.filter (active byID order)
  match placeFrom byID order remaining.length 0 [] [] remaining with
  | .error message => .error message
  | .ok wave => .ok (order.map fun id => (id, wave.lookup id))

/-- A task that was not rejected depends on another one. -/
def DependsOn (id dep : String) : Prop :=
  active byID order id = true ∧ active byID order dep = true ∧ dep ∈ (byID id).deps

/-- Before a round: what has been placed is in the wave of its longest chain, an earlier one; what is left has
a chain up to this level. -/
structure Layered (level : Nat) (wave : List (String × Nat)) (placed remaining : List String) : Prop where
  waves : ∀ entry ∈ wave, entry.2 < level ∧ Longest (DependsOn byID order) entry.1 entry.2
  named : ∀ id, id ∈ placed ↔ id ∈ wave.map Prod.fst
  cover : ∀ id, active byID order id = true → id ∈ placed ∨ id ∈ remaining
  left : ∀ id ∈ remaining, active byID order id = true ∧ Chain (DependsOn byID order) id level
  activePlaced : ∀ id ∈ placed, active byID order id = true

end

section

variable {byID : String → PlanShowTask} {order placed remaining : List String} {level : Nat}
  {wave : List (String × Nat)} {id : String}

theorem ready_iff : ready byID order placed id = true ↔
    ∀ dep ∈ (byID id).deps, active byID order dep = true → dep ∈ placed := by
  simp only [ready, List.all_eq_true, Bool.not_eq_true', Bool.and_eq_false_iff, Bool.not_eq_false',
    List.contains_iff_mem]
  constructor
  · intro all dep held isActive
    obtain inactive | isPlaced := all dep held
    · rw [isActive] at inactive
      contradiction
    · exact isPlaced
  · intro all dep held
    cases isActive : active byID order dep with
    | false => exact Or.inl rfl
    | true => exact Or.inr (all dep held isActive)

namespace Layered

theorem longest_of_placed (layered : Layered byID order level wave placed remaining) (held : id ∈ placed) :
    ∃ height < level, Longest (DependsOn byID order) id height := by
  obtain ⟨entry, listed, rfl⟩ := List.mem_map.mp ((layered.named id).mp held)
  obtain ⟨lower, longest⟩ := layered.waves entry listed
  exact ⟨entry.2, lower, longest⟩

theorem longest_of_ready (layered : Layered byID order level wave placed remaining) (held : id ∈ remaining)
    (isReady : ready byID order placed id = true) : Longest (DependsOn byID order) id level := by
  apply Longest.of_next (layered.left id held).2
  rintro dep ⟨_, isActive, listed⟩
  exact layered.longest_of_placed (ready_iff.mp isReady dep listed isActive)

theorem waits (layered : Layered byID order level wave placed remaining) (held : id ∈ remaining)
    (notReady : ¬ ready byID order placed id = true) : ∃ dep ∈ remaining, DependsOn byID order id dep := by
  rw [ready_iff] at notReady
  push Not at notReady
  obtain ⟨dep, listed, isActive, notPlaced⟩ := notReady
  refine ⟨dep, ?_, (layered.left id held).1, isActive, listed⟩
  exact (layered.cover dep isActive).resolve_left notPlaced

theorem round (layered : Layered byID order level wave placed remaining) :
    Layered byID order (level + 1) (wave ++ (remaining.filter (ready byID order placed)).map fun id => (id, level))
      (placed ++ remaining.filter (ready byID order placed))
      (remaining.filter fun id => !(placed ++ remaining.filter (ready byID order placed)).contains id) where
  waves entry held := by
    obtain old | new := List.mem_append.mp held
    · obtain ⟨lower, longest⟩ := layered.waves entry old
      exact ⟨Nat.lt_succ_of_lt lower, longest⟩
    · obtain ⟨id, isReady, rfl⟩ := List.mem_map.mp new
      obtain ⟨inRemaining, isReady⟩ := List.mem_filter.mp isReady
      exact ⟨Nat.lt_succ_self _, layered.longest_of_ready inRemaining isReady⟩
  named id := by
    rw [List.mem_append, layered.named, List.map_append, List.mem_append, List.map_map]
    simp
  cover id isActive := by
    by_cases isPlaced : id ∈ placed ++ remaining.filter (ready byID order placed)
    · exact Or.inl isPlaced
    · refine Or.inr (List.mem_filter.mpr ⟨?_, ?_⟩)
      · exact (layered.cover id isActive).resolve_left fun old => isPlaced (List.mem_append_left _ old)
      · rw [Bool.not_eq_true', ← Bool.not_eq_true, List.contains_iff_mem]
        exact isPlaced
  left id held := by
    obtain ⟨inRemaining, notPlaced⟩ := List.mem_filter.mp held
    have notReady : ¬ ready byID order placed id = true := by
      intro isReady
      have isPlaced := List.mem_append_right placed (List.mem_filter.mpr ⟨inRemaining, isReady⟩)
      rw [List.contains_iff_mem.mpr isPlaced] at notPlaced
      contradiction
    obtain ⟨dep, depLeft, depends⟩ := layered.waits inRemaining notReady
    exact ⟨(layered.left id inRemaining).1, .step depends (layered.left dep depLeft).2⟩
  activePlaced id held := by
    obtain old | new := List.mem_append.mp held
    · exact layered.activePlaced id old
    · exact (layered.left id (List.mem_filter.mp new).1).1

end Layered

/-- What the rounds come to: a wave for every task, or an error where the dependencies go round. -/
def Settled (byID : String → PlanShowTask) (order : List String) : Except String (List (String × Nat)) → Prop
  | .error _ => Cyclic (DependsOn byID order)
  | .ok wave =>
      (∀ entry ∈ wave, Longest (DependsOn byID order) entry.1 entry.2) ∧
        ∀ id, active byID order id = true ↔ id ∈ wave.map Prod.fst

theorem Layered.finished (layered : Layered byID order level wave placed []) : Settled byID order (.ok wave) := by
  refine ⟨fun entry held => (layered.waves entry held).2, fun id => ?_⟩
  rw [← layered.named]
  constructor
  · intro isActive
    exact (layered.cover id isActive).resolve_right List.not_mem_nil
  · exact layered.activePlaced id

theorem Layered.settled {rounds : Nat} (layered : Layered byID order level wave placed remaining)
    (enough : remaining.length ≤ rounds) :
    Settled byID order (placeFrom byID order rounds level wave placed remaining) := by
  induction rounds generalizing level wave placed remaining with
  | zero =>
      obtain rfl : remaining = [] := List.length_eq_zero_iff.mp (Nat.le_zero.mp enough)
      rw [placeFrom]
      exact layered.finished
  | succ rounds ih =>
      cases remaining with
      | nil =>
          rw [placeFrom]
          exact layered.finished
      | cons first rest =>
          rw [placeFrom]
          by_cases none : (first :: rest).filter (ready byID order placed) = []
          · rw [if_pos none]
            apply Layers.cyclic_of_stuck (List.cons_ne_nil first rest)
            intro id held
            apply layered.waits held
            exact List.filter_eq_nil_iff.mp none id held
          · rw [if_neg none]
            apply ih layered.round
            obtain ⟨id, isReady⟩ := List.exists_mem_of_ne_nil _ none
            have shorter : ((first :: rest).filter fun id =>
                !(placed ++ (first :: rest).filter (ready byID order placed)).contains id).length <
                  (first :: rest).length := by
              apply List.length_filter_lt_length_iff_exists.mpr
              refine ⟨id, (List.mem_filter.mp isReady).1, ?_⟩
              simp [(List.mem_filter.mp isReady).1, (List.mem_filter.mp isReady).2]
            omega
          · simp

theorem mem_order (isActive : active byID order id = true) : id ∈ order := by
  rw [active, Bool.and_eq_true, List.contains_iff_mem] at isActive
  exact isActive.1

theorem layered_start :
    Layered byID order 0 [] [] (order.filter (active byID order)) where
  waves _ held := absurd held List.not_mem_nil
  named _ := Iff.rfl
  cover _ isActive := Or.inr (List.mem_filter.mpr ⟨mem_order isActive, isActive⟩)
  left id held := ⟨(List.mem_filter.mp held).2, .stop id⟩
  activePlaced _ held := absurd held List.not_mem_nil

/-- A wave is looked up for a task exactly if it has one, and it is the one it was placed in. -/
theorem lookup_wave (settled : Settled byID order (.ok wave)) (isActive : active byID order id = true) :
    ∃ height, wave.lookup id = some height ∧ Longest (DependsOn byID order) id height := by
  have listed := (settled.2 id).mp isActive
  cases found : wave.lookup id with
  | none =>
      rw [List.lookup_eq_none_iff] at found
      obtain ⟨entry, held, rfl⟩ := List.mem_map.mp listed
      exact absurd (beq_self_eq_true entry.1) (by simpa using found entry held)
  | some height =>
      obtain ⟨before, after, parts, _⟩ := List.lookup_eq_some_iff.mp found
      refine ⟨height, rfl, settled.1 (id, height) ?_⟩
      rw [parts]
      exact List.mem_append_right before List.mem_cons_self

theorem lookup_wave_none (settled : Settled byID order (.ok wave)) (inactive : active byID order id = false) :
    wave.lookup id = none := by
  rw [List.lookup_eq_none_iff]
  intro entry held
  have notListed : id ∉ wave.map Prod.fst := by
    rw [← settled.2, inactive]
    exact Bool.false_ne_true
  rw [bne_iff_ne]
  rintro rfl
  exact notListed (List.mem_map_of_mem held)

end

/-- The plan is refused exactly where dependencies among tasks that were not rejected go round. Otherwise every
task has its entry: one that was not rejected the length of the longest chain of dependencies below it, and one
that was rejected none. -/
theorem planTaskWaves_layers (byID : String → PlanShowTask) (order : List String) :
    ((∃ message, planTaskWaves byID order = .error message) ↔ Cyclic (DependsOn byID order)) ∧
      (¬ Cyclic (DependsOn byID order) → ∃ waves, planTaskWaves byID order = .ok waves ∧
        waves.map Prod.fst = order ∧ ∀ entry ∈ waves,
          ((byID entry.1).status ≠ "rejected" →
            ∃ height, entry.2 = some height ∧ Longest (DependsOn byID order) entry.1 height) ∧
          ((byID entry.1).status = "rejected" → entry.2 = none)) := by
  have settled := (@layered_start byID order).settled (Nat.le_refl _)
  unfold planTaskWaves
  cases placed : placeFrom byID order (order.filter (active byID order)).length 0 [] []
      (order.filter (active byID order)) with
  | error message =>
      rw [placed] at settled
      have cyclic : Cyclic (DependsOn byID order) := settled
      simp only [placed]
      exact ⟨⟨fun _ => cyclic, fun _ => ⟨message, rfl⟩⟩, fun acyclic => absurd cyclic acyclic⟩
  | ok wave =>
      rw [placed] at settled
      have acyclic : ¬ Cyclic (DependsOn byID order) := by
        rintro ⟨id, around⟩
        have isActive : active byID order id = true := by
          obtain ⟨next, related, _⟩ := Relation.TransGen.head'_iff.mp around
          exact related.1
        obtain ⟨height, _, longest⟩ := lookup_wave settled isActive
        exact Layers.not_longest_of_cycle around longest
      simp only [placed]
      refine ⟨⟨?_, fun cyclic => absurd cyclic acyclic⟩, fun _ => ⟨_, rfl, ?_, ?_⟩⟩
      · rintro ⟨message, failed⟩
        contradiction
      · rw [List.map_map]
        exact List.map_id order
      · intro entry held
        obtain ⟨id, listed, rfl⟩ := List.mem_map.mp held
        constructor
        · intro kept
          apply lookup_wave settled
          simp [active, listed, kept]
        · intro rejected
          apply lookup_wave_none settled
          simp [active, rejected]

/-- Three tasks in two waves, and a rejected one that they do not wait for. -/
def samplePlan (id : String) : PlanShowTask :=
  if id = "t2" then ⟨"confirmed", ["t1", "t4", "gone"]⟩
  else if id = "t4" then ⟨"rejected", ["t2"]⟩
  else ⟨"confirmed", []⟩

example : planTaskWaves samplePlan ["t1", "t2", "t3", "t4"] =
    .ok [("t1", some 0), ("t2", some 1), ("t3", some 0), ("t4", none)] := by
  decide +kernel

/-- The second part at a plan without a cycle. -/
theorem planTaskWaves_layers_sample : ∃ waves, planTaskWaves samplePlan ["t1", "t2", "t3", "t4"] = .ok waves ∧
    waves.map Prod.fst = ["t1", "t2", "t3", "t4"] := by
  have acyclic : ¬ Cyclic (DependsOn samplePlan ["t1", "t2", "t3", "t4"]) := by
    rw [← (planTaskWaves_layers samplePlan ["t1", "t2", "t3", "t4"]).1]
    rintro ⟨message, failed⟩
    have worked : (planTaskWaves samplePlan ["t1", "t2", "t3", "t4"]).toOption.isSome = true := by decide +kernel
    rw [failed] at worked
    cases worked
  obtain ⟨waves, returned, keys, _⟩ := (planTaskWaves_layers samplePlan ["t1", "t2", "t3", "t4"]).2 acyclic
  exact ⟨waves, returned, keys⟩

end CultureNodes.Devague
