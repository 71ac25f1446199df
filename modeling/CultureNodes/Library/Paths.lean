import Mathlib.Data.List.Basic

/-!
Paths written with a separator before each token. Where no token holds the separator, one text is the
other or continues it with a separator exactly when the one path is a start of the other.
-/

namespace CultureNodes.Paths

variable {α : Type} {sep : α}

def join (sep : α) : List (List α) → List α
  | [] => []
  | token :: rest => sep :: (token ++ join sep rest)

/-- Nothing, or more tokens. -/
def Boundary (sep : α) (rest : List α) : Prop :=
  rest = [] ∨ ∃ more, rest = sep :: more

theorem boundary_join (tokens : List (List α)) : Boundary sep (join sep tokens) := by
  cases tokens with
  | nil => exact Or.inl rfl
  | cons token rest => exact Or.inr ⟨_, rfl⟩

/-- Where a token ends is told by the first separator. -/
theorem append_inj {left right leftRest rightRest : List α} (leftPlain : sep ∉ left)
    (rightPlain : sep ∉ right) (leftEnds : Boundary sep leftRest) (rightEnds : Boundary sep rightRest)
    (same : left ++ leftRest = right ++ rightRest) : left = right ∧ leftRest = rightRest := by
  induction left generalizing right with
  | nil =>
      cases right with
      | nil => exact ⟨rfl, same⟩
      | cons char right =>
          obtain rfl | ⟨more, rfl⟩ := leftEnds
          · contradiction
          · cases same
            exact absurd List.mem_cons_self rightPlain
  | cons char left ih =>
      cases right with
      | nil =>
          obtain rfl | ⟨more, rfl⟩ := rightEnds
          · contradiction
          · cases same
            exact absurd List.mem_cons_self leftPlain
      | cons charToo right =>
          simp only [List.cons_append, List.cons.injEq] at same
          obtain ⟨tokens, rests⟩ := ih (fun held => leftPlain (List.mem_cons_of_mem _ held))
            (fun held => rightPlain (List.mem_cons_of_mem _ held)) same.2
          exact ⟨by rw [same.1, tokens], rests⟩

theorem join_append (sep : α) (tokens more : List (List α)) :
    join sep (tokens ++ more) = join sep tokens ++ join sep more := by
  induction tokens with
  | nil => rfl
  | cons token rest ih => simp [join, ih]

theorem isPrefix_of_join {tokens path : List (List α)} {rest : List α}
    (plain : ∀ token ∈ tokens, sep ∉ token) (pathPlain : ∀ token ∈ path, sep ∉ token)
    (ends : Boundary sep rest) (same : join sep path = join sep tokens ++ rest) : tokens <+: path := by
  induction tokens generalizing path with
  | nil => exact List.nil_prefix
  | cons token tokens ih =>
      cases path with
      | nil => contradiction
      | cons first path =>
          simp only [join, List.cons_append, List.append_assoc, List.cons.injEq, true_and] at same
          have onward : Boundary sep (join sep tokens ++ rest) := by
            cases tokens with
            | nil => exact ends
            | cons next tokens => exact Or.inr ⟨_, rfl⟩
          obtain ⟨rfl, sameRest⟩ := append_inj (pathPlain first List.mem_cons_self)
            (plain token List.mem_cons_self) (boundary_join path) onward same
          have below := ih (fun other held => plain other (List.mem_cons_of_mem _ held))
            (fun other held => pathPlain other (List.mem_cons_of_mem _ held)) sameRest
          exact List.cons_prefix_cons.mpr ⟨rfl, below⟩

theorem join_eq_or_isPrefix_iff {tokens path : List (List α)} (plain : ∀ token ∈ tokens, sep ∉ token)
    (pathPlain : ∀ token ∈ path, sep ∉ token) :
    (join sep path = join sep tokens ∨ (join sep tokens ++ [sep]) <+: join sep path) ↔ tokens <+: path := by
  constructor
  · intro found
    obtain same | ⟨more, same⟩ := found
    · exact isPrefix_of_join plain pathPlain (Or.inl rfl) (by simpa using same)
    · apply isPrefix_of_join plain pathPlain (Or.inr ⟨more, rfl⟩)
      rw [← same, List.append_assoc, List.singleton_append]
  · intro below
    obtain ⟨more, rfl⟩ := below
    rw [join_append]
    cases more with
    | nil => simp [join]
    | cons next more => exact Or.inr ⟨next ++ join sep more, by simp [join]⟩

theorem not_mem_of_mem_splitOn [DecidableEq α] {text token : List α} (held : token ∈ text.splitOn sep) :
    sep ∉ token := by
  induction text generalizing token with
  | nil => simp_all
  | cons char rest ih =>
      rw [List.splitOn_cons_eq_if_modifyHead] at held
      by_cases ends : char = sep
      · simp only [ends, beq_self_eq_true, if_true, List.mem_cons] at held
        obtain rfl | later := held
        · exact List.not_mem_nil
        · exact ih later
      · simp only [beq_iff_eq, ends, if_false] at held
        cases parts : rest.splitOn sep with
        | nil => exact absurd parts (List.splitOn_ne_nil sep rest)
        | cons first more =>
            rw [parts, List.modifyHead_cons, List.mem_cons] at held
            obtain rfl | later := held
            · have firstPlain : sep ∉ first := ih (by rw [parts]; exact List.mem_cons_self)
              simp [Ne.symm ends, firstPlain]
            · exact ih (by rw [parts]; exact List.mem_cons_of_mem _ later)

theorem join_splitOn [DecidableEq α] (text : List α) : join sep (text.splitOn sep) = sep :: text := by
  induction text with
  | nil => simp [join]
  | cons char rest ih =>
      rw [List.splitOn_cons_eq_if_modifyHead]
      by_cases ends : char = sep
      · simp [ends, join, ih]
      · cases parts : rest.splitOn sep with
        | nil => exact absurd parts (List.splitOn_ne_nil sep rest)
        | cons first more =>
            rw [parts, join, List.cons.injEq] at ih
            simp [ends, join, ih.2]

theorem splitOn_join [DecidableEq α] {tokens : List (List α)} (plain : ∀ token ∈ tokens, sep ∉ token)
    (some_ : tokens ≠ []) : (join sep tokens).tail.splitOn sep = tokens := by
  have again : join sep ((join sep tokens).tail.splitOn sep) = join sep tokens := by
    rw [join_splitOn]
    cases tokens with
    | nil => exact absurd rfl some_
    | cons token rest => rfl
  have splitPlain : ∀ token ∈ (join sep tokens).tail.splitOn sep, sep ∉ token :=
    fun _ held => not_mem_of_mem_splitOn held
  have forward := isPrefix_of_join plain splitPlain (Or.inl rfl) (by rw [again, List.append_nil])
  have backward := isPrefix_of_join splitPlain plain (Or.inl rfl) (by rw [again, List.append_nil])
  exact backward.eq_of_length_le forward.length_le

end CultureNodes.Paths
