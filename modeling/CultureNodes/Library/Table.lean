import Mathlib.Data.List.Basic
import Mathlib.Data.List.MinMax
import Mathlib.Data.List.Nodup
import Mathlib.Data.Prod.Lex

/-!
Database tables as lists of rows, with the conditional update a store statement performs: every row
that meets the statement's guard is rewritten, and the statement reports whether there was one.
-/

namespace CultureNodes.Table

variable {ρ κ : Type}

/-- Rewrite the rows that meet the guard. -/
def update (rows : List ρ) (guard : ρ → Bool) (write : ρ → ρ) : List ρ :=
  rows.map fun row => if guard row then write row else row

theorem mem_update {rows : List ρ} {guard : ρ → Bool} {write : ρ → ρ} {row : ρ} :
    row ∈ update rows guard write ↔
      ∃ old ∈ rows, row = if guard old = true then write old else old := by
  unfold update
  rw [List.mem_map]
  constructor <;>
    · rintro ⟨old, member, same⟩
      exact ⟨old, member, same.symm⟩

theorem mem_update_of_mem {rows : List ρ} (guard : ρ → Bool) (write : ρ → ρ) {row : ρ}
    (member : row ∈ rows) : (if guard row = true then write row else row) ∈
      update rows guard write :=
  mem_update.mpr ⟨row, member, rfl⟩

@[simp] theorem update_false {rows : List ρ} {write : ρ → ρ} :
    update rows (fun _ => false) write = rows := by
  simp [update]

/-- An update that leaves the keys of the rows it rewrites alone leaves the table's keys alone. -/
theorem update_keys_of_mem {rows : List ρ} {guard : ρ → Bool} {write : ρ → ρ} {key : ρ → κ}
    (kept : ∀ row ∈ rows, guard row = true → key (write row) = key row) :
    (update rows guard write).map key = rows.map key := by
  unfold update
  rw [List.map_map]
  apply List.map_congr_left
  intro row member
  simp only [Function.comp_apply]
  split
  · rename_i hit
    exact kept row member hit
  · rfl

theorem update_keys {rows : List ρ} {guard : ρ → Bool} {write : ρ → ρ} {key : ρ → κ}
    (kept : ∀ row, key (write row) = key row) :
    (update rows guard write).map key = rows.map key :=
  update_keys_of_mem fun row _ _ => kept row

theorem eq_of_key {rows : List ρ} {key : ρ → κ} (distinct : (rows.map key).Nodup) {left right : ρ}
    (leftMember : left ∈ rows) (rightMember : right ∈ rows) (same : key left = key right) :
    left = right :=
  List.inj_on_of_nodup_map distinct leftMember rightMember same

theorem mem_update_one {rows : List ρ} {guard : ρ → Bool} {write : ρ → ρ} {key : ρ → κ} {one row : ρ}
    (distinct : (rows.map key).Nodup) (isOne : one ∈ rows) (hit : guard one = true)
    (only : ∀ other, guard other = true → key other = key one)
    (member : row ∈ update rows guard write) :
    row = write one ∨ (row ∈ rows ∧ key row ≠ key one) := by
  obtain ⟨old, isOld, rfl⟩ := mem_update.mp member
  by_cases written : guard old = true
  · rw [if_pos written, eq_of_key distinct isOld isOne (only old written)]
    exact Or.inl rfl
  · rw [if_neg written]
    refine Or.inr ⟨isOld, fun same => written ?_⟩
    rw [eq_of_key distinct isOld isOne same]
    exact hit

theorem contains_filter_keys [DecidableEq κ] {rows : List ρ} {key : ρ → κ}
    (distinct : (rows.map key).Nodup) {row : ρ} (member : row ∈ rows) (chosen : ρ → Bool) :
    ((rows.filter chosen).map key).contains (key row) = chosen row := by
  rw [Bool.eq_iff_iff, List.contains_iff_mem]
  constructor
  · intro kept
    obtain ⟨other, otherKept, same⟩ := List.mem_map.mp kept
    obtain ⟨otherMember, isChosen⟩ := List.mem_filter.mp otherKept
    rwa [← eq_of_key distinct otherMember member same]
  · intro isChosen
    exact List.mem_map_of_mem (List.mem_filter.mpr ⟨member, isChosen⟩)

/-- A search that can meet no rewritten row finds what it found. -/
theorem find?_update {rows : List ρ} {guard : ρ → Bool} {write : ρ → ρ} {holds : ρ → Bool}
    (spared : ∀ row ∈ rows, guard row = true → holds row = false ∧ holds (write row) = false) :
    (update rows guard write).find? holds = rows.find? holds := by
  induction rows with
  | nil => rfl
  | cons row rest ih =>
      have tail := ih fun other member => spared other (List.mem_cons_of_mem _ member)
      unfold update at tail ⊢
      rw [List.map_cons, List.find?_cons, List.find?_cons, tail]
      by_cases hit : guard row = true
      · obtain ⟨before, after⟩ := spared row List.mem_cons_self hit
        rw [if_pos hit, before, after]
      · rw [if_neg hit]

theorem any_update {rows : List ρ} {guard : ρ → Bool} {write : ρ → ρ} {holds : ρ → Bool}
    (kept : ∀ row, holds (write row) = holds row) :
    (update rows guard write).any holds = rows.any holds := by
  unfold update
  rw [List.any_map]
  congr 1
  funext row
  simp only [Function.comp_apply]
  split
  · exact kept row
  · rfl

theorem keys_append_nodup {rows : List ρ} {key : ρ → κ} {row : ρ}
    (distinct : (rows.map key).Nodup) (fresh : key row ∉ rows.map key) :
    ((rows ++ [row]).map key).Nodup := by
  rw [List.map_append, List.map_singleton]
  refine List.nodup_append.mpr ⟨distinct, List.nodup_singleton _, ?_⟩
  intro old member new isNew same
  rw [List.mem_singleton] at isNew
  exact fresh (isNew ▸ same ▸ member)

theorem exists_of_keys_eq {left right : List ρ} {key : ρ → κ} (same : left.map key = right.map key)
    {row : ρ} (member : row ∈ left) : ∃ other ∈ right, key other = key row := by
  have mapped : key row ∈ right.map key := same ▸ List.mem_map_of_mem member
  obtain ⟨other, otherMember, sameKey⟩ := List.mem_map.mp mapped
  exact ⟨other, otherMember, sameKey⟩

theorem keys_eq_map {γ : Type} {left right : List ρ} {key : ρ → κ} (part : κ → γ)
    (same : left.map key = right.map key) : left.map (part ∘ key) = right.map (part ∘ key) := by
  rw [← List.map_map, ← List.map_map, same]

theorem countP_eq_succ {rows : List ρ} (distinct : rows.Nodup) {row : ρ} (member : row ∈ rows)
    {before after : ρ → Bool} (here : before row = true) (gone : after row = false)
    (others : ∀ other ∈ rows, other ≠ row → before other = after other) :
    rows.countP before = rows.countP after + 1 := by
  induction rows with
  | nil => simp at member
  | cons head rest ih =>
      rw [List.nodup_cons] at distinct
      rcases List.mem_cons.mp member with rfl | later
      · have same : rest.countP before = rest.countP after := by
          refine List.countP_congr fun other inRest => ?_
          have differs : other ≠ row := fun equal => distinct.1 (equal ▸ inRest)
          rw [others other (List.mem_cons_of_mem _ inRest) differs]
        rw [List.countP_cons_of_pos here, List.countP_cons_of_neg (by simp [gone]), same]
      · have differs : head ≠ row := fun equal => distinct.1 (equal ▸ later)
        have tail := ih distinct.2 later fun other inRest =>
          others other (List.mem_cons_of_mem _ inRest)
        rw [List.countP_cons, List.countP_cons, tail, others head List.mem_cons_self differs]
        omega

theorem countP_lt {rows : List ρ} {fewer more : ρ → Bool} {row : ρ}
    (mono : ∀ other ∈ rows, fewer other = true → more other = true) (member : row ∈ rows)
    (counts : more row = true) (missed : fewer row = false) : rows.countP fewer < rows.countP more := by
  induction rows with
  | nil => simp at member
  | cons head rest ih =>
      have tail := List.countP_mono_left fun other inRest => mono other (List.mem_cons_of_mem _ inRest)
      rcases List.mem_cons.mp member with rfl | later
      · rw [List.countP_cons_of_pos counts, List.countP_cons_of_neg (by simp [missed])]
        omega
      · have less := ih (fun other inRest => mono other (List.mem_cons_of_mem _ inRest)) later
        rw [List.countP_cons, List.countP_cons]
        cases here : fewer head with
        | false => simp only [Bool.false_eq_true, if_false]; omega
        | true => simp only [mono head List.mem_cons_self here, if_true]; omega

theorem countP_update {rows : List ρ} {guard : ρ → Bool} {write : ρ → ρ} (holds : ρ → Bool) :
    (update rows guard write).countP holds =
      rows.countP fun row => holds (if guard row = true then write row else row) := by
  unfold update
  rw [List.countP_map]
  rfl

/-- Times with a number to tell them apart. Without this instance the search finds the order of `Int` through
its conditionally complete one, which does not compute. -/
instance byTime : Preorder (Int ×ₗ Nat) := (Prod.Lex.instLinearOrder Int Nat).toPreorder

section

variable [LinearOrder κ] {order : ρ → κ} {rows : List ρ} {row : ρ}

end

/-- The second table has one row more than the first, and that row is marked. -/
def OneMore (mark : ρ → Prop) (rows others : List ρ) : Prop :=
  ∃ front back extra, mark extra ∧ rows = front ++ back ∧ others = front ++ extra :: back

namespace OneMore

variable {mark : ρ → Prop} {rows others : List ρ}

theorem update (more : OneMore mark rows others) {write : ρ → ρ} (guard : ρ → Bool)
    (kept : ∀ row, mark row → mark (write row)) :
    OneMore mark (Table.update rows guard write) (Table.update others guard write) := by
  obtain ⟨front, back, extra, marked, rfl, rfl⟩ := more
  refine ⟨Table.update front guard write, Table.update back guard write,
    if guard extra then write extra else extra, ?_, ?_, ?_⟩
  · split
    · exact kept extra marked
    · exact marked
  · exact List.map_append
  · simp [Table.update]

theorem append (more : OneMore mark rows others) (added : List ρ) :
    OneMore mark (rows ++ added) (others ++ added) := by
  obtain ⟨front, back, extra, marked, rfl, rfl⟩ := more
  exact ⟨front, back ++ added, extra, marked, List.append_assoc .., by simp⟩

end OneMore

end CultureNodes.Table
