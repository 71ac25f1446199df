import Mathlib.Order.Bounds.Basic
import Mathlib.Data.List.Induction

/-!
The streak at the end of a list: how many of its last elements carry one and the same key. An element
without a key ends every streak.
-/

namespace CultureNodes.Streak

variable {α κ : Type} (key : α → Option κ)

/-- Every element carries a key, and all carry the same. -/
def Uniform (elements : List α) : Prop :=
  ∀ element ∈ elements, key element ≠ none ∧ ∀ other ∈ elements, key other = key element

def lengths (elements : List α) : Set Nat :=
  {length | ∃ suffix, suffix <:+ elements ∧ Uniform key suffix ∧ suffix.length = length}

variable [DecidableEq κ]

def step (state : Nat × Option κ) (element : α) : Nat × Option κ :=
  match key element with
  | none => (0, none)
  | some found => (if state.2 = some found then state.1 + 1 else 1, some found)

/-- The length of the streak and its key, as elements are counted one by one. -/
def count (elements : List α) : Nat × Option κ := elements.foldl (step key) (0, none)

theorem count_append (elements : List α) (element : α) :
    count key (elements ++ [element]) = step key (count key elements) element := by
  rw [count, List.foldl_append]
  rfl

theorem count_key {elements rest : List α} {final : α} (isSuffix : rest ++ [final] <:+ elements) :
    (count key elements).2 = key final := by
  obtain ⟨before, rfl⟩ := isSuffix
  rw [← List.append_assoc, count_append, step]
  cases key final <;> rfl

variable {key}

omit [DecidableEq κ] in
theorem uniform_append {suffix : List α} {element : α} :
    Uniform key (suffix ++ [element]) ↔
      key element ≠ none ∧ ∀ other ∈ suffix, key other = key element := by
  constructor
  · intro uniform
    obtain ⟨keyed, same⟩ := uniform element (by simp)
    exact ⟨keyed, fun other member => same other (List.mem_append_left _ member)⟩
  · rintro ⟨keyed, same⟩ one member
    have likeLast : ∀ other ∈ suffix ++ [element], key other = key element := by
      intro other isMember
      rcases List.mem_append.mp isMember with old | new
      · exact same other old
      · rw [List.mem_singleton.mp new]
    rw [likeLast one member]
    exact ⟨keyed, likeLast⟩

omit [DecidableEq κ] in
theorem suffix_append {elements suffix : List α} {element : α}
    (isSuffix : suffix <:+ elements ++ [element]) :
    suffix = [] ∨ ∃ rest, rest <:+ elements ∧ suffix = rest ++ [element] := by
  rcases suffix.eq_nil_or_concat with empty | ⟨rest, last, shape⟩
  · exact Or.inl empty
  · rw [List.concat_eq_append] at shape
    obtain ⟨before, whole⟩ := isSuffix
    rw [shape, ← List.append_assoc, List.append_singleton_inj] at whole
    exact Or.inr ⟨rest, ⟨before, whole.1⟩, by rw [shape, whole.2]⟩

/-- The streak that is counted is the longest uniform suffix. -/
theorem isGreatest_count (elements : List α) :
    IsGreatest (lengths key elements) (count key elements).1 := by
  induction elements using List.reverseRecOn with
  | nil =>
      refine ⟨⟨[], List.suffix_rfl, by simp [Uniform], rfl⟩, ?_⟩
      rintro length ⟨suffix, isSuffix, _, rfl⟩
      rw [List.suffix_nil.mp isSuffix]
      rfl
  | append_singleton elements element ih =>
      rw [count_append, step]
      cases found : key element with
      | none =>
          refine ⟨⟨[], List.nil_suffix, by simp [Uniform], rfl⟩, ?_⟩
          rintro length ⟨suffix, isSuffix, uniform, rfl⟩
          rcases suffix_append isSuffix with rfl | ⟨rest, _, rfl⟩
          · rfl
          · exact absurd found (uniform_append.mp uniform).1
      | some carried =>
          dsimp only
          split
          · rename_i same
            obtain ⟨⟨suffix, isSuffix, uniform, isLength⟩, greatest⟩ := ih
            have likeLast : ∀ other ∈ suffix, key other = key element := by
              intro other member
              rcases suffix.eq_nil_or_concat with rfl | ⟨rest, final, rfl⟩
              · contradiction
              · rw [List.concat_eq_append] at member isSuffix uniform
                rw [(uniform final (by simp)).2 other member, ← count_key key isSuffix, same, found]
            refine ⟨⟨suffix ++ [element], ?_, ?_, by simp [isLength]⟩, ?_⟩
            · obtain ⟨before, rfl⟩ := isSuffix
              exact ⟨before, by simp⟩
            · exact uniform_append.mpr ⟨by simp [found], likeLast⟩
            · rintro length ⟨other, otherSuffix, otherUniform, rfl⟩
              rcases suffix_append otherSuffix with rfl | ⟨rest, restSuffix, rfl⟩
              · exact Nat.zero_le _
              · have restUniform : Uniform key rest := fun one member =>
                  ⟨(otherUniform one (by simp [member])).1, fun more isMember =>
                    (otherUniform one (by simp [member])).2 more (by simp [isMember])⟩
                have shorter := greatest ⟨rest, restSuffix, restUniform, rfl⟩
                rw [List.length_append, List.length_singleton]
                omega
          · rename_i different
            refine ⟨⟨[element], ⟨elements, rfl⟩, ?_, rfl⟩, ?_⟩
            · change Uniform key ([] ++ [element])
              exact uniform_append.mpr ⟨by simp [found], by simp⟩
            · rintro length ⟨other, otherSuffix, otherUniform, rfl⟩
              rcases suffix_append otherSuffix with rfl | ⟨rest, restSuffix, rfl⟩
              · exact Nat.zero_le _
              · rcases rest.eq_nil_or_concat with rfl | ⟨more, final, rfl⟩
                · rfl
                · rw [List.concat_eq_append] at restSuffix otherUniform
                  refine absurd ?_ different
                  rw [count_key key restSuffix, (uniform_append.mp otherUniform).2 final (by simp), found]

end CultureNodes.Streak
