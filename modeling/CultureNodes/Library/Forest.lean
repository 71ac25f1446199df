import Mathlib.Data.List.Basic
import Mathlib.Data.List.Nodup

/-!
Forests grown one row at a time, newest first: a row names its parent, which is older. A place is a
row or, outside every tree, none; its chain is the path from it to its root.
-/

namespace CultureNodes.Forest

variable {κ : Type}

/-- Rows with distinct keys whose parents are older. -/
inductive Grown : List (κ × Option κ) → Prop where
  | nil : Grown []
  | cons {older : List (κ × Option κ)} {key : κ} {parent : Option κ} : Grown older →
      key ∉ older.map Prod.fst → (∀ above ∈ parent, above ∈ older.map Prod.fst) →
      Grown ((key, parent) :: older)

/-- A place there is: none, or a row. -/
def Valid (rows : List (κ × Option κ)) (place : Option κ) : Prop :=
  ∀ key ∈ place, key ∈ rows.map Prod.fst

variable {rows older : List (κ × Option κ)} {key above : κ} {parent place : Option κ}

theorem Grown.parent_valid (grown : Grown rows) (member : (key, parent) ∈ rows) :
    Valid rows parent := by
  induction grown with
  | nil => simp at member
  | cons _ _ olderParent ih =>
      intro above isParent
      rcases List.mem_cons.mp member with same | later
      · obtain ⟨rfl, rfl⟩ := Prod.mk.inj same
        exact List.mem_cons_of_mem _ (olderParent above isParent)
      · exact List.mem_cons_of_mem _ (ih later above isParent)

theorem Grown.keys_nodup (grown : Grown rows) : (rows.map Prod.fst).Nodup := by
  induction grown with
  | nil => exact List.nodup_nil
  | cons _ fresh _ ih => exact List.nodup_cons.mpr ⟨fresh, ih⟩

variable [DecidableEq κ]

def chain : List (κ × Option κ) → Option κ → List κ
  | [], _ => []
  | _ :: _, none => []
  | (key, parent) :: older, some place =>
      if key = place then place :: chain older parent else chain older (some place)

/-- The rows at or below `root`. A parent is older than its children, so one pass finds them. -/
def subtree (root : κ) : List (κ × Option κ) → List κ
  | [] => []
  | (key, parent) :: older =>
      if key = root ∨ (∃ above ∈ parent, above ∈ subtree root older) then key :: subtree root older
      else subtree root older

@[simp] theorem chain_none : chain rows none = [] := by
  cases rows <;> rfl

theorem chain_cons_self : chain ((key, parent) :: older) (some key) = key :: chain older parent := by
  simp [chain]

theorem chain_cons_of_ne (different : place ≠ some key) :
    chain ((key, parent) :: older) place = chain older place := by
  cases place with
  | none => simp
  | some other =>
      have differs : key ≠ other := fun same => different (by rw [same])
      simp [chain, differs]

theorem mem_keys_of_mem_chain (member : key ∈ chain rows place) : key ∈ rows.map Prod.fst := by
  induction rows generalizing place with
  | nil => simp [chain] at member
  | cons row older ih =>
      obtain ⟨newest, parent⟩ := row
      cases place with
      | none => simp at member
      | some other =>
          by_cases same : newest = other
          · subst same
            rw [chain_cons_self] at member
            rcases List.mem_cons.mp member with rfl | later
            · simp
            · exact List.mem_cons_of_mem _ (ih later)
          · rw [chain_cons_of_ne (by simpa using fun equal => same equal.symm)] at member
            exact List.mem_cons_of_mem _ (ih member)

theorem chain_length_le : (chain rows place).length ≤ rows.length := by
  induction rows generalizing place with
  | nil => simp [chain]
  | cons row older ih =>
      obtain ⟨newest, parent⟩ := row
      by_cases isNewest : place = some newest
      · subst isNewest
        rw [chain_cons_self, List.length_cons, List.length_cons]
        exact Nat.succ_le_succ ih
      · rw [chain_cons_of_ne isNewest, List.length_cons]
        exact Nat.le_succ_of_le ih

theorem chain_cons_of_valid (fresh : key ∉ older.map Prod.fst) (valid : Valid older place) :
    chain ((key, parent) :: older) place = chain older place := by
  refine chain_cons_of_ne fun same => fresh (valid key ?_)
  rw [same]
  rfl

theorem chain_unfold (grown : Grown rows) (member : (key, parent) ∈ rows) :
    chain rows (some key) = key :: chain rows parent := by
  induction grown with
  | nil => simp at member
  | cons grown fresh olderParent ih =>
      rcases List.mem_cons.mp member with same | later
      · obtain ⟨rfl, rfl⟩ := Prod.mk.inj same
        rw [chain_cons_self, chain_cons_of_valid fresh olderParent]
      · have known : key ∈ _ := List.mem_map_of_mem (f := Prod.fst) later
        rw [chain_cons_of_valid fresh (by simpa [Valid] using known), ih later,
          chain_cons_of_valid fresh (grown.parent_valid later)]

theorem self_mem_chain (known : key ∈ rows.map Prod.fst) : key ∈ chain rows (some key) := by
  induction rows with
  | nil => simp at known
  | cons row older ih =>
      obtain ⟨newest, parent⟩ := row
      by_cases same : newest = key
      · subst same
        simp [chain_cons_self]
      · rw [chain_cons_of_ne (by simpa using fun equal => same equal.symm)]
        refine ih ?_
        rcases List.mem_cons.mp known with here | there
        · exact absurd here.symm same
        · exact there

theorem chain_suffix (grown : Grown rows) (member : key ∈ chain rows place) :
    chain rows (some key) <:+ chain rows place := by
  induction grown generalizing place with
  | nil => simp [chain] at member
  | @cons older newest parent grown fresh olderParent ih =>
      have known : ∀ {other : Option κ}, key ∈ chain older other →
          chain ((newest, parent) :: older) (some key) = chain older (some key) := fun inOlder =>
        chain_cons_of_valid fresh (by simpa [Valid] using mem_keys_of_mem_chain inOlder)
      by_cases isNewest : place = some newest
      · subst isNewest
        rw [chain_cons_self] at member ⊢
        rcases List.mem_cons.mp member with rfl | later
        · rewrite [chain_cons_self]
          exact List.suffix_rfl
        · rw [known later]
          exact (ih later).trans (List.suffix_cons ..)
      · rw [chain_cons_of_ne isNewest] at member ⊢
        rw [known member]
        exact ih member

theorem comparable (grown : Grown rows) {other : κ} (left : key ∈ chain rows place)
    (right : other ∈ chain rows place) :
    key ∈ chain rows (some other) ∨ other ∈ chain rows (some key) := by
  have keyHead := self_mem_chain (mem_keys_of_mem_chain left)
  have otherHead := self_mem_chain (mem_keys_of_mem_chain right)
  rcases List.suffix_or_suffix_of_suffix (chain_suffix grown left) (chain_suffix grown right) with
    within | within
  · exact Or.inl (within.subset keyHead)
  · exact Or.inr (within.subset otherHead)

theorem chain_trans (grown : Grown rows) {other : κ} (upper : key ∈ chain rows (some other))
    (lower : other ∈ chain rows place) : key ∈ chain rows place :=
  (chain_suffix grown lower).subset upper

theorem not_mem_chain_parent (grown : Grown rows) (member : (key, parent) ∈ rows) :
    key ∉ chain rows parent := by
  intro above
  have suffix := chain_suffix grown above
  rw [chain_unfold grown member] at suffix
  have longer := suffix.length_le
  rw [List.length_cons] at longer
  omega

theorem antisymm (grown : Grown rows) {other : κ} (up : key ∈ chain rows (some other))
    (down : other ∈ chain rows (some key)) : key = other := by
  have known := mem_keys_of_mem_chain down
  obtain ⟨⟨_, parent⟩, member, rfl⟩ := List.mem_map.mp known
  rw [chain_unfold grown member] at up
  rcases List.mem_cons.mp up with same | above
  · exact same
  · exact absurd (chain_trans grown down above) (not_mem_chain_parent grown member)

theorem exists_child (grown : Grown rows) (above : key ∈ chain rows place)
    (notHere : place ≠ some key) : ∃ child, (child, some key) ∈ rows ∧ child ∈ chain rows place := by
  induction grown generalizing place with
  | nil => simp [chain] at above
  | @cons older newest parent grown fresh olderParent ih =>
      by_cases isNewest : place = some newest
      · subst isNewest
        rw [chain_cons_self] at above ⊢
        rcases List.mem_cons.mp above with rfl | later
        · exact absurd rfl notHere
        · by_cases isParent : parent = some key
          · exact ⟨newest, by simp [isParent], List.mem_cons_self⟩
          · obtain ⟨child, member, inChain⟩ := ih later isParent
            exact ⟨child, List.mem_cons_of_mem _ member, List.mem_cons_of_mem _ inChain⟩
      · rw [chain_cons_of_ne isNewest] at above ⊢
        obtain ⟨child, member, inChain⟩ := ih above notHere
        exact ⟨child, List.mem_cons_of_mem _ member, inChain⟩

/-- Every row hangs below a row without a parent. -/
theorem exists_root (grown : Grown rows) (known : key ∈ rows.map Prod.fst) :
    ∃ root, (root, none) ∈ rows ∧ root ∈ chain rows (some key) := by
  induction grown generalizing key with
  | nil => simp at known
  | @cons older newest parent grown fresh olderParent ih =>
      by_cases isNewest : key = newest
      · subst isNewest
        rw [chain_cons_self]
        cases parent with
        | none => exact ⟨key, List.mem_cons_self, List.mem_cons_self⟩
        | some above =>
            obtain ⟨root, member, inChain⟩ := ih (olderParent above rfl)
            exact ⟨root, List.mem_cons_of_mem _ member, List.mem_cons_of_mem _ inChain⟩
      · have older := (List.mem_cons.mp known).resolve_left isNewest
        obtain ⟨root, member, inChain⟩ := ih older
        rw [chain_cons_of_ne (by simpa using isNewest)]
        exact ⟨root, List.mem_cons_of_mem _ member, inChain⟩

theorem mem_subtree_keys {root : κ} (member : key ∈ subtree root rows) : key ∈ rows.map Prod.fst := by
  induction rows with
  | nil => simp [subtree] at member
  | cons row older ih =>
      obtain ⟨newest, parent⟩ := row
      simp only [subtree] at member
      split at member
      · rcases List.mem_cons.mp member with rfl | later
        · simp
        · exact List.mem_cons_of_mem _ (ih later)
      · exact List.mem_cons_of_mem _ (ih member)

theorem mem_subtree_iff (grown : Grown rows) {root : κ} :
    key ∈ subtree root rows ↔ root ∈ chain rows (some key) := by
  induction grown generalizing key with
  | nil => simp [subtree, chain]
  | @cons older newest parent grown fresh olderParent ih =>
      have parentBelow : (∃ above ∈ parent, above ∈ subtree root older) ↔
          root ∈ chain older parent := by
        cases parent with
        | none => simp
        | some above => simp [ih]
      by_cases isNewest : key = newest
      · subst isNewest
        have absent : key ∉ subtree root older := fun member => fresh (mem_subtree_keys member)
        rw [chain_cons_self, List.mem_cons, ← parentBelow]
        simp only [subtree]
        split
        · rename_i below
          simpa [eq_comm] using below
        · rename_i notBelow
          simp only [absent, false_iff]
          rw [eq_comm]
          exact notBelow
      · rw [chain_cons_of_ne (by simpa using isNewest), ← ih]
        simp only [subtree]
        split <;> simp [isNewest]

end CultureNodes.Forest
