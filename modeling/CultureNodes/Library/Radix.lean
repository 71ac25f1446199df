import Mathlib.Data.Nat.Digits.Lemmas
import Mathlib.Tactic.Ring

/-!
Numbers spelled by digits, the most significant first. Digits put together in groups of one length spell the
same number in the base that a group has.
-/

namespace CultureNodes.Radix

variable {base : Nat} {digits : List Nat}

/-- The number that digits spell. -/
def spelled (base : Nat) (digits : List Nat) : Nat := Nat.ofDigits base digits.reverse

theorem spelled_nil : spelled base [] = 0 := rfl

theorem spelled_singleton (digit : Nat) : spelled base [digit] = digit := by
  simp [spelled]

theorem spelled_append (digits others : List Nat) :
    spelled base (digits ++ others) = spelled base digits * base ^ others.length + spelled base others := by
  rw [spelled, List.reverse_append, Nat.ofDigits_append, List.length_reverse, spelled, spelled]
  ring

theorem spelled_cons (digit : Nat) (digits : List Nat) :
    spelled base (digit :: digits) = digit * base ^ digits.length + spelled base digits := by
  rw [← List.singleton_append, spelled_append, spelled_singleton]

theorem spelled_zeros (count : Nat) (digits : List Nat) :
    spelled base (List.replicate count 0 ++ digits) = spelled base digits := by
  induction count with
  | zero => rfl
  | succ count ih => rw [List.replicate_succ, List.cons_append, spelled_cons, ih, Nat.zero_mul, Nat.zero_add]

theorem spelled_lt (small : ∀ digit ∈ digits, digit < base) : spelled base digits < base ^ digits.length := by
  induction digits with
  | nil => exact Nat.one_pos
  | cons digit rest ih =>
      rw [List.forall_mem_cons] at small
      have later := ih small.2
      rw [spelled_cons, List.length_cons, pow_succ']
      calc digit * base ^ rest.length + spelled base rest
          < digit * base ^ rest.length + base ^ rest.length := Nat.add_lt_add_left later _
        _ = (digit + 1) * base ^ rest.length := by ring
        _ ≤ base * base ^ rest.length := Nat.mul_le_mul_right _ small.1

theorem spelled_groups {count : Nat} {groups : List (List Nat)} (even : ∀ group ∈ groups, group.length = count) :
    spelled (base ^ count) (groups.map (spelled base)) = spelled base groups.flatten := by
  induction groups with
  | nil => rfl
  | cons group rest ih =>
      rw [List.forall_mem_cons] at even
      have counted : rest.flatten.length = count * rest.length := by
        rw [List.length_flatten, List.map_congr_left even.2, List.map_const', List.sum_replicate_nat, Nat.mul_comm]
      rw [List.map_cons, spelled_cons, ih even.2, List.flatten_cons, spelled_append, counted, List.length_map,
        ← pow_mul]

/-- A spelling that keeps the order of the digits keeps the lexical order. -/
theorem map_lt_map {α β : Type} [LT α] [LT β] {write : α → β} {text longer : List α}
    (less : text < longer) (increasing : ∀ one ∈ text, ∀ two ∈ longer, one < two → write one < write two) :
    text.map write < longer.map write := by
  induction text generalizing longer with
  | nil =>
      cases longer with
      | nil => exact absurd less (List.not_lt_nil _)
      | cons two rest => exact List.nil_lt_cons _ _
  | cons one text ih =>
      cases longer with
      | nil => exact absurd less (List.not_lt_nil _)
      | cons two rest =>
          rw [List.map_cons, List.map_cons, List.cons_lt_cons_iff]
          obtain head | ⟨rfl, tail⟩ := List.cons_lt_cons_iff.mp less
          · exact Or.inl (increasing one List.mem_cons_self two List.mem_cons_self head)
          · refine Or.inr ⟨rfl, ih tail fun inner held other heldToo => ?_⟩
            exact increasing inner (List.mem_cons_of_mem _ held) other (List.mem_cons_of_mem _ heldToo)

theorem map_range_mul {α : Type} (f : Nat → α) (groups count : Nat) :
    (List.range (groups * count)).map f =
      ((List.range groups).map fun group => (List.range count).map fun place => f (group * count + place)).flatten := by
  induction groups with
  | zero => simp
  | succ groups ih =>
      rw [Nat.succ_mul, List.range_add, List.map_append, ih, List.range_succ, List.map_append, List.flatten_append,
        List.map_map, List.map_singleton, List.flatten_singleton]
      rfl

end CultureNodes.Radix
