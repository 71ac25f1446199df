import Mathlib.Data.List.Sort

/-!
A stable sort and the part of a list that is in order already. The sort takes nothing out of such a part's
order, and an element that belongs at the end stays there.
-/

namespace CultureNodes.StableSort

variable {α : Type} {r : α → α → Prop} [DecidableRel r]

theorem filter_orderedInsert_of_not {p : α → Bool} {a : α} (left : p a = false) (rows : List α) :
    (rows.orderedInsert r a).filter p = rows.filter p := by
  induction rows with
  | nil => simp [left]
  | cons b rest ih =>
      rw [List.orderedInsert_cons]
      split
      · simp [left]
      · rw [List.filter_cons, ih, List.filter_cons]

theorem filter_orderedInsert_of_forall {p : α → Bool} {a : α} (kept : p a = true) {rows : List α}
    (first : ∀ b ∈ rows.filter p, r a b) : (rows.orderedInsert r a).filter p = a :: rows.filter p := by
  induction rows with
  | nil => simp [kept]
  | cons b rest ih =>
      rw [List.orderedInsert_cons]
      split
      · rw [List.filter_cons_of_pos kept]
      · rename_i after
        -- An element before the new one is none of the part.
        have out : ¬ p b = true := fun inside => after (first b (by simp [inside]))
        rw [List.filter_cons_of_neg out, List.filter_cons_of_neg out]
        exact ih fun c held => first c (by rw [List.filter_cons_of_neg out]; exact held)

/-- What is in order stays as it is. -/
theorem filter_insertionSort {p : α → Bool} {rows : List α} (sorted : (rows.filter p).Pairwise r) :
    (rows.insertionSort r).filter p = rows.filter p := by
  induction rows with
  | nil => rfl
  | cons a rest ih =>
      rw [List.insertionSort_cons]
      by_cases kept : p a = true
      · rw [List.filter_cons_of_pos kept, List.pairwise_cons] at sorted
        have same := ih sorted.2
        rw [filter_orderedInsert_of_forall kept (by rw [same]; exact sorted.1), same, List.filter_cons_of_pos kept]
      · rw [List.filter_cons_of_neg kept] at sorted ⊢
        rw [filter_orderedInsert_of_not (by simpa using kept), ih sorted]

theorem orderedInsert_concat {a x : α} (before : r a x) (rows : List α) :
    (rows ++ [x]).orderedInsert r a = rows.orderedInsert r a ++ [x] := by
  induction rows with
  | nil => simp [before]
  | cons b rest ih =>
      rw [List.cons_append, List.orderedInsert_cons, List.orderedInsert_cons]
      split
      · simp
      · rw [ih, List.cons_append]

/-- An element at the end that comes after all others stays at the end. -/
theorem insertionSort_concat {x : α} {rows : List α} (last : ∀ a ∈ rows, r a x) :
    (rows ++ [x]).insertionSort r = rows.insertionSort r ++ [x] := by
  induction rows with
  | nil => rfl
  | cons a rest ih =>
      rw [List.cons_append, List.insertionSort_cons, List.insertionSort_cons,
        ih fun b held => last b (List.mem_cons_of_mem _ held)]
      exact orderedInsert_concat (last a List.mem_cons_self) _

theorem mem_of_getLast?_insertionSort {rows : List α} {x : α} (last : (rows.insertionSort r).getLast? = some x) :
    x ∈ rows :=
  (List.mem_insertionSort r).mp (List.mem_of_getLast? last)

section

variable [Std.Total r] [IsTrans α r]

/-- What a sort ends with comes after everything. -/
theorem rel_getLast? {rows : List α} {x a : α} (last : (rows.insertionSort r).getLast? = some x) (held : a ∈ rows) :
    r a x := by
  obtain ⟨front, split⟩ := List.getLast?_eq_some_iff.mp last
  have sorted := List.pairwise_insertionSort r rows
  rw [split, List.pairwise_append] at sorted
  have among : a ∈ rows.insertionSort r := (List.mem_insertionSort r).mpr held
  rw [split, List.mem_append, List.mem_singleton] at among
  obtain before | rfl := among
  · exact sorted.2.2 a before x (List.mem_singleton.mpr rfl)
  · exact (Std.Total.total a a).elim id id

/-- A stable sort ends with the last of those that come after everything. -/
theorem getLast?_insertionSort (rows : List α) :
    (rows.insertionSort r).getLast? = (rows.filter fun a => decide (∀ b ∈ rows, r b a)).getLast? := by
  cases last : (rows.insertionSort r).getLast? with
  | none =>
      have empty : rows = [] := by
        rw [List.getLast?_eq_none_iff] at last
        exact List.eq_nil_of_length_eq_zero (by rw [← List.length_insertionSort r, last, List.length_nil])
      rw [empty]
      rfl
  | some x =>
      obtain ⟨front, split⟩ := List.getLast?_eq_some_iff.mp last
      have sorted : (rows.filter fun a => decide (∀ b ∈ rows, r b a)).Pairwise r := by
        refine List.pairwise_of_forall_mem_list fun a aHeld b bHeld => ?_
        exact of_decide_eq_true (List.mem_filter.mp bHeld).2 a (List.mem_filter.mp aHeld).1
      have greatest : ∀ b ∈ rows, r b x := fun b held => rel_getLast? last held
      have kept : [x].filter (fun a => decide (∀ b ∈ rows, r b a)) = [x] := by
        rw [List.filter_singleton, decide_eq_true greatest, cond_true]
      rw [← filter_insertionSort sorted, split, List.filter_append, kept, List.getLast?_concat]

/-- What comes before another is not what the sort ends with. -/
theorem getLast?_insertionSort_insert {front back : List α} {x : α} (later : ∃ b ∈ front ++ back, ¬ r b x) :
    ((front ++ x :: back).insertionSort r).getLast? = ((front ++ back).insertionSort r).getLast? := by
  obtain ⟨b, held, after⟩ := later
  rw [getLast?_insertionSort, getLast?_insertionSort]
  have same : ∀ a, (∀ c ∈ front ++ x :: back, r c a) ↔ ∀ c ∈ front ++ back, r c a := by
    intro a
    constructor
    · intro all c among
      exact all c (by simp only [List.mem_append, List.mem_cons] at among ⊢; tauto)
    · intro all c among
      simp only [List.mem_append, List.mem_cons] at among
      obtain inFront | rfl | inBack := among
      · exact all c (List.mem_append_left _ inFront)
      · exact IsTrans.trans _ b _ ((Std.Total.total c b).resolve_right after) (all b held)
      · exact all c (List.mem_append_right _ inBack)
  have out : decide (∀ c ∈ front ++ back, r c x) = false := decide_eq_false fun all => after (all b held)
  simp only [same, List.filter_append, List.filter_cons]
  rw [out]
  rfl

end

end CultureNodes.StableSort
