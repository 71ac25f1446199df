import Mathlib.Data.List.Range

/-!
Streams of numbered rows in one table: a row is the key of its stream and its sequence number, and a
new row takes the number after the highest of its stream.
-/

namespace CultureNodes.Streams

variable {κ : Type} [DecidableEq κ] {rows more : List (κ × Nat)} {key other : κ}

/-- The numbers of one stream, in the order they were inserted. -/
def sequences (rows : List (κ × Nat)) (key : κ) : List Nat := (rows.filter (·.1 = key)).map Prod.snd

/-- The highest number and one, or one where there is no row. -/
def next (rows : List (κ × Nat)) (key : κ) : Nat := (sequences rows key).foldl max 0 + 1

/-- The stream is numbered from one on without a gap. -/
def Contiguous (rows : List (κ × Nat)) (key : κ) : Prop :=
  sequences rows key = List.range' 1 (sequences rows key).length

theorem sequences_append : sequences (rows ++ more) key = sequences rows key ++ sequences more key := by
  simp [sequences]

/-- Rows of other streams do not count. -/
theorem sequences_append_of_absent (absent : ∀ row ∈ more, row.1 ≠ key) :
    sequences (rows ++ more) key = sequences rows key := by
  have none : sequences more key = [] := by
    rw [sequences, List.map_eq_nil_iff, List.filter_eq_nil_iff]
    intro row member same
    exact absent row member (of_decide_eq_true same)
  rw [sequences_append, none, List.append_nil]

theorem mem_sequences {number : Nat} : number ∈ sequences rows key ↔ (key, number) ∈ rows := by
  simp [sequences]

theorem Contiguous.congr (same : sequences more key = sequences rows key)
    (contiguous : Contiguous rows key) : Contiguous more key := by
  rw [Contiguous, same]
  exact contiguous

theorem foldl_max_range' (length : Nat) : (List.range' 1 length).foldl max 0 = length := by
  induction length with
  | zero => rfl
  | succ length ih =>
      rw [List.range'_1_concat, List.foldl_append, ih, List.foldl_cons, List.foldl_nil]
      omega

theorem Contiguous.next_eq (contiguous : Contiguous rows key) :
    next rows key = (sequences rows key).length + 1 := by
  unfold next
  rw [contiguous, foldl_max_range', List.length_range']

theorem Contiguous.next_not_mem (contiguous : Contiguous rows key) :
    (key, next rows key) ∉ rows := by
  rw [← mem_sequences, contiguous, contiguous.next_eq, List.mem_range']
  rintro ⟨index, below, same⟩
  omega

/-- A stream stays contiguous when its next number is appended. -/
theorem Contiguous.concat (contiguous : Contiguous rows key) :
    Contiguous (rows ++ [(key, next rows key)]) key := by
  have appended : sequences (rows ++ [(key, next rows key)]) key =
      sequences rows key ++ [next rows key] := by
    rw [sequences_append]
    simp [sequences]
  rw [Contiguous, appended, contiguous.next_eq, List.length_append, List.length_singleton,
    List.range'_1_concat, ← contiguous, Nat.add_comm]

end CultureNodes.Streams
