import Mathlib.Data.List.Nodup
import CultureNodes.Library.Table

/-!
A store that keeps one row for each key: a row is written over the one with its key, read by its key,
and deleted by it.
-/

namespace CultureNodes.Keyed

variable {ρ κ : Type} [DecidableEq κ] (key : ρ → κ)

def get (rows : List ρ) (name : κ) : Option ρ := rows.find? (key · = name)

def put (rows : List ρ) (row : ρ) : List ρ :=
  if rows.any (key · = key row) then Table.update rows (key · = key row) (fun _ => row)
  else rows ++ [row]

def delete (rows : List ρ) (name : κ) : List ρ := rows.filter (key · ≠ name)

variable {key} {rows : List ρ} {row other : ρ} {name : κ}

theorem key_get (found : get key rows name = some row) : key row = name := by
  have named := List.find?_some found
  exact of_decide_eq_true named

theorem mem_of_get (found : get key rows name = some row) : row ∈ rows :=
  List.mem_of_find?_eq_some found

theorem get_of_mem (distinct : (rows.map key).Nodup) (member : row ∈ rows) :
    get key rows (key row) = some row := by
  cases found : get key rows (key row) with
  | none =>
      have absent := List.find?_eq_none.mp found row member
      exact absurd (decide_eq_true rfl) absent
  | some other =>
      rw [Table.eq_of_key distinct (mem_of_get found) member (key_get found)]

theorem get_eq_none : get key rows name = none ↔ name ∉ rows.map key := by
  unfold get
  rw [List.find?_eq_none]
  constructor
  · intro absent taken
    obtain ⟨row, member, same⟩ := List.mem_map.mp taken
    exact absent row member (decide_eq_true same)
  · intro absent row member same
    exact absent (List.mem_map.mpr ⟨row, member, of_decide_eq_true same⟩)

theorem get_append (fresh : key row ∉ rows.map key) :
    get key (rows ++ [row]) name = if key row = name then some row else get key rows name := by
  unfold get
  rw [List.find?_append, List.find?_singleton]
  by_cases same : key row = name
  · have absent : rows.find? (key · = name) = none := get_eq_none.mpr (same ▸ fresh)
    simp [absent, same]
  · simp [same]

theorem get_update (present : key row ∈ rows.map key) :
    get key (Table.update rows (key · = key row) fun _ => row) name =
      if key row = name then some row else get key rows name := by
  unfold get Table.update
  induction rows with
  | nil => cases present
  | cons head rest ih =>
      rw [List.map_cons, List.find?_cons, List.find?_cons]
      by_cases isHead : key head = key row
      · simp only [isHead, decide_true, if_true]
        by_cases named : key row = name
        · simp [named]
        · simp only [named, decide_false, if_false]
          by_cases later : key row ∈ rest.map key
          · rw [ih later, if_neg named]
          · congr 1
            conv => rhs; rw [← List.map_id rest]
            apply List.map_congr_left
            intro old member
            have different : ¬key old = key row := fun same =>
              later (List.mem_map.mpr ⟨old, member, same⟩)
            simp [different]
      · have later : key row ∈ rest.map key := by
          rw [List.map_cons, List.mem_cons] at present
          exact present.resolve_left fun same => isHead same.symm
        simp only [isHead, decide_false, Bool.false_eq_true, if_false]
        by_cases named : key head = name
        · have different : ¬key row = name := fun same => isHead (named.trans same.symm)
          simp [named, different]
        · simp only [named, decide_false]
          exact ih later

theorem any_iff : rows.any (key · = name) = true ↔ name ∈ rows.map key := by
  simp

theorem get_put : get key (put key rows row) name =
    if key row = name then some row else get key rows name := by
  unfold put
  split
  · rename_i there
    exact get_update (any_iff.mp there)
  · rename_i free
    exact get_append fun taken => free (any_iff.mpr taken)

theorem get_put_self : get key (put key rows row) (key row) = some row := by
  rw [get_put, if_pos rfl]

theorem get_put_other (different : name ≠ key row) : get key (put key rows row) name = get key rows name := by
  rw [get_put, if_neg fun same => different same.symm]

theorem get_put_some {other : ρ} (found : get key rows name = some row) :
    ∃ after, get key (put key rows other) name = some after := by
  rw [get_put]
  split
  · exact ⟨other, rfl⟩
  · exact ⟨row, found⟩

theorem get_delete_self : get key (delete key rows name) name = none := by
  rw [get_eq_none]
  intro taken
  obtain ⟨row, member, same⟩ := List.mem_map.mp taken
  have kept := (List.mem_filter.mp member).2
  exact of_decide_eq_true kept same

theorem get_delete_other {gone : κ} (different : name ≠ gone) :
    get key (delete key rows gone) name = get key rows name := by
  unfold get delete
  rw [List.find?_filter]
  congr 1
  funext row
  by_cases named : key row = name
  · simp [named, different]
  · simp [named]

theorem put_nodup (distinct : (rows.map key).Nodup) : ((put key rows row).map key).Nodup := by
  unfold put
  split
  · rw [Table.update_keys_of_mem]
    · exact distinct
    · intro old _ same
      exact (of_decide_eq_true same).symm
  · rename_i free
    exact Table.keys_append_nodup distinct fun taken => free (any_iff.mpr taken)

theorem delete_nodup (distinct : (rows.map key).Nodup) : ((delete key rows name).map key).Nodup :=
  distinct.sublist (List.filter_sublist.map key)

end CultureNodes.Keyed
