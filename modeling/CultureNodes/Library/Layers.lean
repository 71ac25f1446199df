import Mathlib.Data.Fintype.Basic
import Mathlib.Data.Set.Finite.Basic
import Mathlib.Logic.Relation
import Mathlib.Order.Bounds.Defs
import Mathlib.Order.WellFounded

/-!
Chains of a relation, and the length of the longest one that starts at an element. On finitely many elements
of which each is related to another of them, the relation has a cycle; and on a cycle chains have any length.
-/

namespace CultureNodes.Layers

variable {α : Type} {relation : α → α → Prop} {item other : α} {length : Nat}

/-- A chain of so many steps starts at the element. -/
inductive Chain (relation : α → α → Prop) : α → Nat → Prop where
  | stop (item : α) : Chain relation item 0
  | step {item next : α} {length : Nat} (related : relation item next) (rest : Chain relation next length) :
      Chain relation item (length + 1)

def Longest (relation : α → α → Prop) (item : α) (length : Nat) : Prop :=
  IsGreatest {steps | Chain relation item steps} length

/-- Some element is related to itself in one or more steps. -/
def Cyclic (relation : α → α → Prop) : Prop := ∃ item, Relation.TransGen relation item item

theorem Chain.prepend (steps : Relation.TransGen relation item other) (chain : Chain relation other length) :
    ∃ longer, length < longer ∧ Chain relation item longer := by
  induction steps using Relation.TransGen.head_induction_on with
  | single related => exact ⟨length + 1, Nat.lt_succ_self _, .step related chain⟩
  | head related _ ih =>
      obtain ⟨longer, more, rest⟩ := ih
      exact ⟨longer + 1, Nat.lt_succ_of_lt more, .step related rest⟩

theorem not_longest_of_cycle (cycle : Relation.TransGen relation item item) : ¬ Longest relation item length := by
  intro longest
  obtain ⟨longer, more, chain⟩ := longest.1.prepend cycle
  exact absurd (longest.2 chain) (Nat.not_le_of_lt more)

/-- An element is one above its highest successor. -/
theorem Longest.of_next (chain : Chain relation item length)
    (below : ∀ next, relation item next → ∃ height < length, Longest relation next height) :
    Longest relation item length := by
  refine ⟨chain, ?_⟩
  rintro steps taken
  cases taken with
  | stop => exact Nat.zero_le _
  | step related rest =>
      obtain ⟨height, lower, longest⟩ := below _ related
      exact Nat.lt_of_le_of_lt (longest.2 rest) lower

/-- Where no element of a list is without a successor in it, the relation goes round. -/
theorem cyclic_of_stuck {items : List α} (nonempty : items ≠ [])
    (stuck : ∀ item ∈ items, ∃ next ∈ items, relation item next) : Cyclic relation := by
  by_contra acyclic
  have finite : Finite {item // item ∈ items} := items.finite_toSet.to_subtype
  have irrefl : Std.Irrefl fun one two : {item // item ∈ items} => Relation.TransGen relation two.1 one.1 :=
    ⟨fun item around => acyclic ⟨item.1, around⟩⟩
  have trans : IsTrans {item // item ∈ items} fun one two => Relation.TransGen relation two.1 one.1 :=
    ⟨fun _ _ _ first second => second.trans first⟩
  have founded := Finite.wellFounded_of_trans_of_irrefl
    fun one two : {item // item ∈ items} => Relation.TransGen relation two.1 one.1
  obtain ⟨item, held⟩ := List.exists_mem_of_ne_nil items nonempty
  obtain ⟨least, _, minimal⟩ := founded.has_min Set.univ ⟨⟨item, held⟩, trivial⟩
  obtain ⟨next, nextHeld, related⟩ := stuck least.1 least.2
  exact minimal ⟨next, nextHeld⟩ trivial (.single related)

end CultureNodes.Layers
