import Mathlib.Logic.Function.Basic
import CultureNodes.Library.Forest
import CultureNodes.Library.Table

/-!
Nested splits and joins, counted. A split sends a thread's place one level down as a group of
branches; branches arrive at barriers of their group; one barrier fires for the group and its thread
goes on in the place the group came from. The counts below a group are conserved: what has arrived
and what is still live make up its cardinality.
-/

namespace CultureNodes

/-- `threads` counts the live branches of each place, `barriers` the barriers open for each group. -/
@[ext] structure Nest (κ : Type) where
  tree : List (κ × Option κ)
  card : κ → Nat
  arrived : κ → Nat
  fired : κ → Bool
  threads : Option κ → Nat
  barriers : κ → Nat

namespace Nest

open Forest

variable {κ : Type} [DecidableEq κ]

section

variable (n : Nest κ)

def Occupied (place : Option κ) : Prop :=
  0 < n.threads place ∨ ∃ group ∈ place, 0 < n.barriers group

/-- Something is still live in the group or below it. -/
def Open (group : κ) : Prop := ∃ place, n.Occupied place ∧ group ∈ chain n.tree place

open Classical in
/-- The open groups directly below a place. -/
noncomputable def children (place : Option κ) : Nat :=
  n.tree.countP fun row => decide (row.2 = place ∧ n.Open row.1)

noncomputable def live (place : Option κ) : Nat := n.threads place + n.children place

/-- A fired group holds nothing but the barrier that fired. -/
def Spent (group : κ) : Prop :=
  ∀ place, group ∈ chain n.tree place → n.threads place = 0 ∧
    ∀ other ∈ place, 0 < n.barriers other → other = group ∧ n.barriers group = 1

structure Sound : Prop where
  grown : Grown n.tree
  valid : ∀ place, n.Occupied place → Valid n.tree place
  counted : ∀ group ∈ n.tree.map Prod.fst, n.fired group = false → n.Open group →
    n.arrived group + n.live (some group) = n.card group
  spent : ∀ group, n.fired group = true → n.Spent group

/-- The fired barrier of `group` leaves for the place above it. -/
def leave (group : κ) (parent : Option κ) : Nest κ :=
  { n with barriers := Function.update n.barriers group 0
           threads := Function.update n.threads parent (n.threads parent + 1) }

/-- One thread of `parent` becomes the branches of a new group. -/
def split (parent : Option κ) (group : κ) (branches : Nat) : Nest κ :=
  { n with tree := (group, parent) :: n.tree
           card := Function.update n.card group branches
           threads := Function.update (Function.update n.threads parent (n.threads parent - 1))
             (some group) branches }

/-- A branch of `group` arrives at a barrier, which it may have opened. -/
def arrive (group : κ) (opened : Nat) : Nest κ :=
  { n with arrived := Function.update n.arrived group (n.arrived group + 1)
           threads := Function.update n.threads (some group) (n.threads (some group) - 1)
           barriers := Function.update n.barriers group (n.barriers group + opened) }

/-- One barrier of `group` fires; everything else in the group and below it is gone. -/
def fire (group : κ) : Nest κ :=
  { n with fired := Function.update n.fired group true
           threads := fun place => if group ∈ chain n.tree place then 0 else n.threads place
           barriers := fun other =>
             if other = group then 1
             else if group ∈ chain n.tree (some other) then 0 else n.barriers other }

/-- A thread from outside. -/
def enter : Nest κ := { n with threads := Function.update n.threads none (n.threads none + 1) }

end

variable {n m : Nest κ} {group : κ} {parent : Option κ}

theorem children_congr (sameTree : m.tree = n.tree) {place : Option κ}
    (same : ∀ row ∈ n.tree, row.2 = place → (m.Open row.1 ↔ n.Open row.1)) :
    m.children place = n.children place := by
  unfold children
  rw [sameTree]
  refine List.countP_congr fun row member => ?_
  simp only [decide_eq_true_eq]
  exact and_congr_right fun below => same row member below

theorem children_close (grown : Grown n.tree) (sameTree : m.tree = n.tree)
    (member : (group, parent) ∈ n.tree) (wasOpen : n.Open group) (closed : ¬ m.Open group)
    (others : ∀ other, other ≠ group → (m.Open other ↔ n.Open other)) :
    n.children parent = m.children parent + 1 := by
  unfold children
  rw [sameTree]
  refine Table.countP_eq_succ (.of_map Prod.fst grown.keys_nodup) member ?_ ?_ ?_
  · simp [wasOpen]
  · simp [closed]
  · intro row rowMember different
    have otherGroup : row.1 ≠ group := fun same =>
      different (Table.eq_of_key grown.keys_nodup rowMember member same)
    simp [others row.1 otherGroup]

omit [DecidableEq κ] in
theorem occupied_threads {place : Option κ} (some : 0 < n.threads place) : n.Occupied place :=
  Or.inl some

omit [DecidableEq κ] in
theorem occupied_barrier (some : 0 < n.barriers group) : n.Occupied (.some group) :=
  Or.inr ⟨group, rfl, some⟩

theorem Sound.only_barrier (sound : Sound n) (fired : n.fired group = true)
    (known : group ∈ n.tree.map Prod.fst) (some : 0 < n.barriers group) :
    n.threads (.some group) = 0 ∧ n.barriers group = 1 := by
  obtain ⟨noThread, only⟩ := sound.spent group fired (.some group) (self_mem_chain known)
  exact ⟨noThread, (only group rfl some).2⟩

theorem Sound.unfired (sound : Sound n) {place : Option κ} (some : 0 < n.threads place)
    (within : group ∈ chain n.tree place) : n.fired group = false := by
  cases fired : n.fired group with
  | false => rfl
  | true =>
      have none := (sound.spent group fired place within).1
      omega

section leave

variable (sound : Sound n) (member : (group, parent) ∈ n.tree) (fired : n.fired group = true)
  (some : 0 < n.barriers group)

include sound member fired some

theorem leave_open {other : κ} (different : other ≠ group) :
    (n.leave group parent).Open other ↔ n.Open other := by
  have unfolded := chain_unfold sound.grown member
  constructor
  · rintro ⟨place, occupied, within⟩
    rcases occupied with thread | ⟨barrier, isPlace, open_⟩
    · by_cases isParent : place = parent
      · subst isParent
        refine ⟨.some group, occupied_barrier some, ?_⟩
        rw [unfolded]
        exact List.mem_cons_of_mem _ within
      · refine ⟨place, occupied_threads ?_, within⟩
        simpa [leave, isParent] using thread
    · refine ⟨place, Or.inr ⟨barrier, isPlace, ?_⟩, within⟩
      by_cases same : barrier = group
      · simp [leave, same] at open_
      · simpa [leave, same] using open_
  · rintro ⟨place, occupied, within⟩
    rcases occupied with thread | ⟨barrier, isPlace, open_⟩
    · refine ⟨place, occupied_threads ?_, within⟩
      by_cases isParent : place = parent
      · simp [leave, isParent]
      · simpa [leave, isParent] using thread
    · by_cases same : barrier = group
      · subst same
        have isSome : place = .some barrier := isPlace
        subst isSome
        have above : other ∈ barrier :: chain n.tree parent := unfolded ▸ within
        refine ⟨parent, occupied_threads (by simp [leave]), ?_⟩
        exact (List.mem_cons.mp above).resolve_left different
      · refine ⟨place, Or.inr ⟨barrier, isPlace, ?_⟩, within⟩
        simpa [leave, same] using open_

omit some in
theorem leave_closes : ¬ (n.leave group parent).Open group := by
  rintro ⟨place, occupied, within⟩
  obtain ⟨noThread, only⟩ := sound.spent group fired place within
  rcases occupied with thread | ⟨barrier, isPlace, open_⟩
  · by_cases isParent : place = parent
    · subst isParent
      exact not_mem_chain_parent sound.grown member within
    · simp [leave, isParent, noThread] at thread
  · by_cases same : barrier = group
    · simp [leave, same] at open_
    · have wasOpen : 0 < n.barriers barrier := by simpa [leave, same] using open_
      exact same (only barrier isPlace wasOpen).1

/-- The thread that leaves replaces the group it leaves. -/
theorem leave_live (place : Option κ) : (n.leave group parent).live place = n.live place := by
  have known : group ∈ n.tree.map Prod.fst := List.mem_map_of_mem (f := Prod.fst) member
  have wasOpen : n.Open group := ⟨.some group, occupied_barrier some, self_mem_chain known⟩
  have others := fun (other : κ) (different : other ≠ group) =>
    leave_open sound member fired some different
  unfold live
  by_cases isParent : place = parent
  · subst isParent
    rw [children_close (m := n.leave group place) sound.grown rfl member wasOpen
      (leave_closes sound member fired) others]
    simp only [leave, Function.update_self]
    omega
  · have sameChildren : (n.leave group parent).children place = n.children place := by
      refine children_congr (n := n) (m := n.leave group parent) rfl
        fun row rowMember below => others row.1 fun same => ?_
      have sameRow := Table.eq_of_key sound.grown.keys_nodup rowMember member same
      rw [sameRow] at below
      exact isParent below.symm
    rw [sameChildren]
    simp [leave, isParent]

theorem Sound.leave : Sound (n.leave group parent) := by
  have others := fun (other : κ) (different : other ≠ group) =>
    leave_open sound member fired some different
  refine ⟨sound.grown, fun place occupied => ?_, fun other known unfired isOpen => ?_,
    fun other otherFired place within => ?_⟩
  · rcases occupied with thread | ⟨barrier, isPlace, open_⟩
    · by_cases isParent : place = parent
      · subst isParent
        exact sound.grown.parent_valid member
      · exact sound.valid place (occupied_threads (by simpa [Nest.leave, isParent] using thread))
    · refine sound.valid place (Or.inr ⟨barrier, isPlace, ?_⟩)
      by_cases same : barrier = group
      · simp [Nest.leave, same] at open_
      · simpa [Nest.leave, same] using open_
  · have different : other ≠ group := by
      rintro rfl
      have isUnfired : n.fired other = false := unfired
      rw [fired] at isUnfired
      contradiction
    rw [leave_live sound member fired some]
    exact sound.counted other known unfired ((others other different).mp isOpen)
  · obtain ⟨noThread, only⟩ := sound.spent other otherFired place within
    refine ⟨?_, fun barrier isPlace open_ => ?_⟩
    · by_cases isParent : place = parent
      · subst isParent
        have inGroup : other ∈ chain n.tree (.some group) := by
          rw [chain_unfold sound.grown member]
          exact List.mem_cons_of_mem _ within
        have same := ((sound.spent other otherFired (.some group) inGroup).2 group rfl some).1
        subst same
        exact absurd within (not_mem_chain_parent sound.grown member)
      · simpa [Nest.leave, isParent] using noThread
    · by_cases same : barrier = group
      · simp [Nest.leave, same] at open_
      · obtain ⟨rfl, single⟩ := only barrier isPlace (by simpa [Nest.leave, same] using open_)
        exact ⟨rfl, by simpa [Nest.leave, same] using single⟩

end leave

theorem open_congr (sameTree : m.tree = n.tree)
    (same : ∀ place, m.Occupied place ↔ n.Occupied place) (other : κ) :
    m.Open other ↔ n.Open other := by
  unfold Open
  simp only [same, sameTree]

section split

variable (sound : Sound n) (some : 0 < n.threads parent) (fresh : group ∉ n.tree.map Prod.fst)
  {branches : Nat} (branching : 0 < branches)

theorem split_threads {place : Option κ} (notParent : place ≠ parent)
    (notGroup : place ≠ .some group) :
    (n.split parent group branches).threads place = n.threads place := by
  simp [split, notParent, notGroup]

theorem split_threads_group : (n.split parent group branches).threads (.some group) = branches := by
  simp [split]

theorem split_chain_group :
    chain (n.split parent group branches).tree (.some group) = group :: chain n.tree parent :=
  chain_cons_self

theorem split_chain {place : Option κ} (notGroup : place ≠ .some group) :
    chain (n.split parent group branches).tree place = chain n.tree place :=
  chain_cons_of_ne notGroup

include branching in
theorem split_occupied_group : (n.split parent group branches).Occupied (.some group) :=
  occupied_threads (by rw [split_threads_group]; exact branching)

include branching in
theorem split_open_group : (n.split parent group branches).Open group := by
  refine ⟨.some group, split_occupied_group branching, ?_⟩
  rw [split_chain_group]
  exact List.mem_cons_self

include some in
theorem split_occupied {place : Option κ} (notGroup : place ≠ .some group)
    (occupied : (n.split parent group branches).Occupied place) : n.Occupied place := by
  rcases occupied with thread | ⟨barrier, isPlace, open_⟩
  · by_cases isParent : place = parent
    · subst isParent
      exact occupied_threads some
    · rw [split_threads isParent notGroup] at thread
      exact occupied_threads thread
  · exact Or.inr ⟨barrier, isPlace, open_⟩

include sound fresh

theorem fresh_unoccupied : ¬ n.Occupied (.some group) := fun occupied =>
  fresh (sound.valid _ occupied group rfl)

include some

theorem parent_ne_fresh : parent ≠ .some group := by
  rintro rfl
  exact fresh_unoccupied sound fresh (occupied_threads some)

theorem split_threads_parent :
    (n.split parent group branches).threads parent = n.threads parent - 1 := by
  simp [split, parent_ne_fresh sound some fresh]

include branching

theorem split_open {other : κ} (different : other ≠ group) :
    (n.split parent group branches).Open other ↔ n.Open other := by
  constructor
  · rintro ⟨place, occupied, within⟩
    by_cases isGroup : place = .some group
    · subst isGroup
      rw [split_chain_group] at within
      exact ⟨parent, occupied_threads some, (List.mem_cons.mp within).resolve_left different⟩
    · rw [split_chain isGroup] at within
      exact ⟨place, split_occupied some isGroup occupied, within⟩
  · rintro ⟨place, occupied, within⟩
    have notGroup : place ≠ .some group := fun same =>
      fresh_unoccupied sound fresh (same ▸ occupied)
    by_cases isParent : place = parent
    · subst isParent
      refine ⟨.some group, split_occupied_group branching, ?_⟩
      rw [split_chain_group]
      exact List.mem_cons_of_mem _ within
    · refine ⟨place, ?_, (split_chain notGroup).symm ▸ within⟩
      rcases occupied with thread | barrier
      · exact occupied_threads (by rwa [split_threads isParent notGroup])
      · exact Or.inr barrier

open Classical in
theorem split_children (place : Option κ) :
    (n.split parent group branches).children place =
      n.children place + if place = parent then 1 else 0 := by
  have older : n.tree.countP (fun row =>
      decide (row.2 = place ∧ (n.split parent group branches).Open row.1)) = n.children place := by
    refine List.countP_congr fun row member => ?_
    have different : row.1 ≠ group := fun same => fresh (same ▸ List.mem_map_of_mem member)
    simp only [decide_eq_true_eq, split_open sound some fresh branching different]
  have newest : (n.split parent group branches).Open group := split_open_group branching
  rw [children, show (n.split parent group branches).tree = (group, parent) :: n.tree from rfl,
    List.countP_cons, older]
  by_cases isParent : place = parent
  · simp [isParent, newest]
  · have differs : ¬ parent = place := fun same => isParent same.symm
    simp [isParent, differs]

theorem split_live_group :
    (n.split parent group branches).live (.some group) = branches := by
  have notParent : (.some group : Option κ) ≠ parent := (parent_ne_fresh sound some fresh).symm
  have childless : n.children (.some group) = 0 := by
    refine List.countP_eq_zero.mpr fun row member isChild => ?_
    simp only [decide_eq_true_eq] at isChild
    obtain ⟨key, above⟩ := row
    exact fresh (sound.grown.parent_valid member group isChild.1)
  rw [live, split_threads_group, split_children sound some fresh branching, childless,
    if_neg notParent, Nat.add_zero]

theorem split_live {place : Option κ} (notGroup : place ≠ .some group) :
    (n.split parent group branches).live place = n.live place := by
  rw [live, live, split_children sound some fresh branching]
  by_cases isParent : place = parent
  · subst isParent
    rw [split_threads_parent sound some fresh, if_pos rfl]
    omega
  · rw [split_threads isParent notGroup, if_neg isParent]
    rfl

theorem Sound.split (arrived : n.arrived group = 0) (unfired : n.fired group = false) :
    Sound (n.split parent group branches) := by
  refine ⟨.cons sound.grown fresh (sound.valid parent (occupied_threads some)), ?_, ?_, ?_⟩
  · intro place occupied key isKey
    by_cases isGroup : place = .some group
    · rw [isGroup] at isKey
      rw [← Option.some.inj isKey]
      exact List.mem_cons_self
    · exact List.mem_cons_of_mem _
        (sound.valid place (split_occupied some isGroup occupied) key isKey)
  · intro other known otherUnfired isOpen
    by_cases isGroup : other = group
    · subst isGroup
      rw [split_live_group sound some fresh branching]
      simp [Nest.split, arrived]
    · have older : other ∈ n.tree.map Prod.fst := (List.mem_cons.mp known).resolve_left isGroup
      rw [split_live sound some fresh branching (by simpa using isGroup)]
      have counted := sound.counted other older otherUnfired
        ((split_open sound some fresh branching isGroup).mp isOpen)
      simpa [Nest.split, isGroup] using counted
  · intro other fired place within
    have otherFired : n.fired other = true := fired
    have notGroup : other ≠ group := by
      rintro rfl
      rw [unfired] at otherFired
      contradiction
    have notAbove : other ∉ chain n.tree parent := fun above => by
      have none := (sound.spent other otherFired parent above).1
      omega
    by_cases isGroup : place = .some group
    · subst isGroup
      rw [split_chain_group] at within
      exact absurd ((List.mem_cons.mp within).resolve_left notGroup) notAbove
    · rw [split_chain isGroup] at within
      have notParent : place ≠ parent := fun same => notAbove (same ▸ within)
      rw [split_threads notParent isGroup]
      exact sound.spent other otherFired place within

end split

section arrive

variable (sound : Sound n) (some : 0 < n.threads (.some group)) {opened : Nat}
  (gathered : 0 < n.barriers group + opened)

include some gathered

theorem arrive_occupied (place : Option κ) :
    (n.arrive group opened).Occupied place ↔ n.Occupied place := by
  by_cases isGroup : place = .some group
  · subst isGroup
    exact ⟨fun _ => occupied_threads some,
      fun _ => occupied_barrier (by simpa [arrive] using gathered)⟩
  · have sameThreads : (n.arrive group opened).threads place = n.threads place := by
      simp [arrive, isGroup]
    have sameBarriers : ∀ other ∈ place,
        (n.arrive group opened).barriers other = n.barriers other := by
      intro other isPlace
      have different : other ≠ group := fun same => isGroup (by rw [isPlace, same])
      simp [arrive, different]
    unfold Occupied
    rw [sameThreads]
    exact or_congr_right (exists_congr fun other => and_congr_right fun isPlace => by
      rw [sameBarriers other isPlace])

theorem arrive_children (place : Option κ) :
    (n.arrive group opened).children place = n.children place :=
  children_congr (n := n) (m := n.arrive group opened) rfl fun row _ _ =>
    open_congr (n := n) (m := n.arrive group opened) rfl (arrive_occupied some gathered) row.1

theorem arrive_live_group : (n.arrive group opened).live (.some group) + 1 = n.live (.some group) := by
  rw [live, live, arrive_children some gathered]
  simp only [arrive, Function.update_self]
  omega

theorem arrive_live {place : Option κ} (notGroup : place ≠ .some group) :
    (n.arrive group opened).live place = n.live place := by
  rw [live, live, arrive_children some gathered]
  simp [arrive, notGroup]

include sound

theorem Sound.arrive : Sound (n.arrive group opened) := by
  have occupied := arrive_occupied some gathered
  refine ⟨sound.grown, fun place isOccupied => sound.valid place ((occupied place).mp isOccupied),
    ?_, ?_⟩
  · intro other known unfired isOpen
    have wasOpen : n.Open other :=
      (open_congr (n := n) (m := n.arrive group opened) rfl occupied other).mp isOpen
    have counted := sound.counted other known unfired wasOpen
    by_cases isGroup : other = group
    · subst isGroup
      have taken := arrive_live_group some gathered
      have counts : (n.arrive other opened).arrived other = n.arrived other + 1 := by
        simp [Nest.arrive]
      rw [counts]
      have sameCard : (n.arrive other opened).card other = n.card other := rfl
      omega
    · rw [arrive_live some gathered (by simpa using isGroup)]
      simpa [Nest.arrive, isGroup] using counted
  · intro other fired place within
    obtain ⟨noThread, only⟩ := sound.spent other fired place within
    have notGroup : place ≠ .some group := by
      rintro rfl
      omega
    refine ⟨by simpa [Nest.arrive, notGroup] using noThread, fun barrier isPlace open_ => ?_⟩
    have different : barrier ≠ group := fun same => notGroup (by rw [isPlace, same])
    obtain ⟨rfl, single⟩ := only barrier isPlace (by simpa [Nest.arrive, different] using open_)
    exact ⟨rfl, by simpa [Nest.arrive, different] using single⟩

end arrive

section fire

variable (sound : Sound n) (some : 0 < n.barriers group)

theorem fire_occupied (place : Option κ) : (n.fire group).Occupied place ↔
    place = .some group ∨ (group ∉ chain n.tree place ∧ n.Occupied place) := by
  constructor
  · rintro (thread | ⟨barrier, isPlace, open_⟩)
    · by_cases inside : group ∈ chain n.tree place
      · simp [fire, inside] at thread
      · exact Or.inr ⟨inside, occupied_threads (by simpa [fire, inside] using thread)⟩
    · have isSome : place = .some barrier := isPlace
      subst isSome
      by_cases same : barrier = group
      · exact Or.inl (by rw [same])
      · by_cases inside : group ∈ chain n.tree (.some barrier)
        · simp [fire, same, inside] at open_
        · exact Or.inr ⟨inside, occupied_barrier (by simpa [fire, same, inside] using open_)⟩
  · rintro (rfl | ⟨outside, thread | ⟨barrier, isPlace, open_⟩⟩)
    · exact occupied_barrier (by simp [fire])
    · exact occupied_threads (by simpa [fire, outside] using thread)
    · have isSome : place = .some barrier := isPlace
      subst isSome
      refine occupied_barrier ?_
      by_cases same : barrier = group
      · simp [fire, same]
      · simpa [fire, same, outside] using open_

include sound some

theorem fire_known : group ∈ n.tree.map Prod.fst :=
  sound.valid _ (occupied_barrier some) group rfl

omit some in
theorem fire_closes {other : κ} (different : other ≠ group)
    (below : group ∈ chain n.tree (.some other)) : ¬ (n.fire group).Open other := by
  rintro ⟨place, occupied, within⟩
  have within : other ∈ chain n.tree place := within
  rcases (fire_occupied place).mp occupied with rfl | ⟨outside, _⟩
  · exact different (antisymm sound.grown within below)
  · exact outside (chain_trans sound.grown below within)

theorem fire_open {other : κ} (outside : group ∉ chain n.tree (.some other)) :
    (n.fire group).Open other ↔ n.Open other := by
  constructor
  · rintro ⟨place, occupied, within⟩
    refine ⟨place, ?_, within⟩
    rcases (fire_occupied place).mp occupied with rfl | ⟨_, wasOccupied⟩
    · exact occupied_barrier some
    · exact wasOccupied
  · rintro ⟨place, occupied, within⟩
    by_cases inside : group ∈ chain n.tree place
    · have above : other ∈ chain n.tree (.some group) :=
        (comparable sound.grown within inside).resolve_right outside
      exact ⟨.some group, (fire_occupied _).mpr (Or.inl rfl), above⟩
    · exact ⟨place, (fire_occupied place).mpr (Or.inr ⟨inside, occupied⟩), within⟩

theorem fire_children {place : Option κ} (outside : group ∉ chain n.tree place) :
    (n.fire group).children place = n.children place := by
  refine children_congr (n := n) (m := n.fire group) rfl fun row member below => ?_
  obtain ⟨key, above⟩ := row
  have isPlace : above = place := below
  subst isPlace
  by_cases isGroup : key = group
  · subst isGroup
    have known := self_mem_chain (fire_known sound some)
    exact iff_of_true ⟨_, (fire_occupied _).mpr (Or.inl rfl), known⟩
      ⟨_, occupied_barrier some, known⟩
  · refine fire_open sound some fun inside => ?_
    rw [chain_unfold sound.grown member] at inside
    exact outside ((List.mem_cons.mp inside).resolve_left fun same => isGroup same.symm)

theorem fire_live {place : Option κ} (outside : group ∉ chain n.tree place) :
    (n.fire group).live place = n.live place := by
  rw [live, live, fire_children sound some outside]
  simp [fire, outside]

theorem Sound.fire : Sound (n.fire group) := by
  refine ⟨sound.grown, ?_, ?_, ?_⟩
  · intro place occupied
    rcases (fire_occupied place).mp occupied with rfl | ⟨_, wasOccupied⟩
    · exact sound.valid _ (occupied_barrier some)
    · exact sound.valid place wasOccupied
  · intro other known unfired isOpen
    have different : other ≠ group := by
      rintro rfl
      simp [Nest.fire] at unfired
    have wasUnfired : n.fired other = false := by simpa [Nest.fire, different] using unfired
    have outside : group ∉ chain n.tree (.some other) := fun below =>
      fire_closes sound different below isOpen
    rw [fire_live sound some outside]
    exact sound.counted other known wasUnfired ((fire_open sound some outside).mp isOpen)
  · intro other fired place within
    by_cases isGroup : other = group
    · subst isGroup
      have inside : other ∈ chain n.tree place := within
      refine ⟨by simp [Nest.fire, inside], fun barrier isPlace open_ => ?_⟩
      have isSome : place = .some barrier := isPlace
      subst isSome
      by_cases same : barrier = other
      · exact ⟨same, by simp [Nest.fire]⟩
      · simp [Nest.fire, same, inside] at open_
    · have wasFired : n.fired other = true := by simpa [Nest.fire, isGroup] using fired
      obtain ⟨noThread, only⟩ := sound.spent other wasFired place within
      refine ⟨by simp [Nest.fire, noThread], fun barrier isPlace open_ => ?_⟩
      have isSome : place = .some barrier := isPlace
      subst isSome
      by_cases same : barrier = group
      · subst same
        exact absurd (only barrier rfl some).1.symm isGroup
      · by_cases inside : group ∈ chain n.tree (.some barrier)
        · simp [Nest.fire, same, inside] at open_
        · obtain ⟨rfl, single⟩ := only barrier rfl (by simpa [Nest.fire, same, inside] using open_)
          exact ⟨rfl, by simpa [Nest.fire, same, inside] using single⟩

theorem fire_full (unfired : n.fired group = false) {gathered : Nat}
    (full : n.card group ≤ gathered) (others : gathered + n.barriers group ≤ n.arrived group + 1) :
    n.fire group = { n with fired := Function.update n.fired group true } := by
  have known := fire_known sound some
  have counted := sound.counted group known unfired
    ⟨_, occupied_barrier some, self_mem_chain known⟩
  have noThread : n.threads (.some group) = 0 := by
    unfold live at counted
    omega
  have childless : n.children (.some group) = 0 := by
    unfold live at counted
    omega
  have single : n.barriers group = 1 := by omega
  -- Nothing strictly below the group is occupied, for the group would have an open child.
  have empty : ∀ place, group ∈ chain n.tree place → place ≠ .some group → ¬ n.Occupied place := by
    intro place inside notHere occupied
    obtain ⟨child, member, above⟩ := exists_child sound.grown inside notHere
    have closed := List.countP_eq_zero.mp childless _ member
    simp only [decide_eq_true_eq, not_and] at closed
    exact closed trivial ⟨place, occupied, above⟩
  apply Nest.ext <;> try rfl
  · funext place
    by_cases inside : group ∈ chain n.tree place
    · simp only [Nest.fire, inside, if_true]
      by_cases isGroup : place = .some group
      · rw [isGroup, noThread]
      · by_contra occupied
        exact empty place inside isGroup
          (occupied_threads (Nat.pos_of_ne_zero fun zero => occupied zero.symm))
    · simp [Nest.fire, inside]
  · funext other
    by_cases isGroup : other = group
    · simp [Nest.fire, isGroup, single]
    · by_cases inside : group ∈ chain n.tree (.some other)
      · simp only [Nest.fire, isGroup, inside, if_true, if_false]
        by_contra occupied
        exact empty _ inside (by simpa using isGroup)
          (occupied_barrier (Nat.pos_of_ne_zero fun zero => occupied zero.symm))
      · simp [Nest.fire, isGroup, inside]

end fire

section enter

theorem enter_open (other : κ) : n.enter.Open other ↔ n.Open other := by
  refine exists_congr fun place => ?_
  by_cases isNone : place = none
  · subst isNone
    simp
  · have sameThreads : n.enter.threads place = n.threads place := by simp [enter, isNone]
    unfold Occupied
    rw [sameThreads]
    rfl

theorem enter_live (place : Option κ) :
    n.enter.live place = n.live place + if place = none then 1 else 0 := by
  have sameChildren : n.enter.children place = n.children place :=
    children_congr (n := n) (m := n.enter) rfl fun row _ _ => enter_open row.1
  rw [live, live, sameChildren]
  by_cases isNone : place = none
  · simp only [enter, isNone, Function.update_self, if_true]
    omega
  · simp [enter, isNone]

theorem Sound.enter (sound : Sound n) : Sound n.enter := by
  refine ⟨sound.grown, ?_, ?_, ?_⟩
  · intro place occupied key isKey
    rcases occupied with thread | barrier
    · have notNone : place ≠ none := by
        rintro rfl
        contradiction
      exact sound.valid place (occupied_threads (by simpa [Nest.enter, notNone] using thread)) key
        isKey
    · exact sound.valid place (Or.inr barrier) key isKey
  · intro other known unfired isOpen
    rw [enter_live, if_neg (by simp)]
    exact sound.counted other known unfired ((enter_open other).mp isOpen)
  · intro other fired place within
    have notNone : place ≠ none := by
      rintro rfl
      have nowhere : other ∈ chain n.tree none := within
      simp at nowhere
    obtain ⟨noThread, only⟩ := sound.spent other fired place within
    exact ⟨by simpa [Nest.enter, notNone] using noThread, only⟩

end enter

/-- As long as every open group that has not fired still waits for a branch, something below a live
place can move: a thread, or the barrier of a group that has fired. The search goes down the open
groups. -/
theorem Sound.progress (sound : Sound n)
    (waits : ∀ group, n.fired group = false → n.Open group → n.arrived group < n.card group)
    {place : Option κ} (live : 0 < n.live place) (valid : Valid n.tree place) :
    ∃ below, (∀ group ∈ place, group ∈ chain n.tree below) ∧
      (0 < n.threads below ∨ ∃ group ∈ below, n.fired group = true ∧ 0 < n.barriers group) := by
  by_cases thread : 0 < n.threads place
  · refine ⟨place, fun group isPlace => ?_, Or.inl thread⟩
    rw [Option.mem_def.mp isPlace]
    exact self_mem_chain (valid group isPlace)
  · have child : 0 < n.children place := by
      unfold Nest.live at live
      omega
    obtain ⟨⟨group, parent⟩, member, isChild⟩ := List.countP_pos_iff.mp child
    simp only [decide_eq_true_eq] at isChild
    obtain ⟨isPlace, isOpen⟩ := isChild
    have isPlace : parent = place := isPlace
    subst isPlace
    have known : group ∈ n.tree.map Prod.fst := List.mem_map_of_mem (f := Prod.fst) member
    have longer := chain_unfold sound.grown member
    have inside : ∀ key ∈ parent, key ∈ chain n.tree (.some group) := by
      intro key isParent
      rw [longer, Option.mem_def.mp isParent]
      exact List.mem_cons_of_mem _ (self_mem_chain (valid key isParent))
    cases fired : n.fired group with
    | true =>
        obtain ⟨place, occupied, within⟩ := isOpen
        obtain ⟨noThread, only⟩ := sound.spent group fired place within
        rcases occupied with thread | ⟨barrier, isPlace, open_⟩
        · omega
        · obtain ⟨rfl, single⟩ := only barrier isPlace open_
          exact ⟨.some barrier, inside, Or.inr ⟨barrier, rfl, fired, open_⟩⟩
    | false =>
        have below : 0 < n.live (.some group) := by
          have counted := sound.counted group known fired isOpen
          have waiting := waits group fired isOpen
          omega
        have deeper : n.tree.length - (chain n.tree (.some group)).length <
            n.tree.length - (chain n.tree parent).length := by
          have bounded : (chain n.tree (.some group)).length ≤ n.tree.length := chain_length_le
          rw [longer, List.length_cons] at bounded ⊢
          omega
        obtain ⟨lower, within, moves⟩ :=
          sound.progress waits below fun key isGroup => Option.some.inj isGroup ▸ known
        refine ⟨lower, fun key isParent => ?_, moves⟩
        exact chain_trans sound.grown (inside key isParent) (within group rfl)
termination_by n.tree.length - (chain n.tree place).length

/-- With no group open outside every other, nothing is live in any group. -/
theorem Sound.only_root (sound : Sound n) (childless : n.children none = 0) {place : Option κ}
    (occupied : n.Occupied place) : place = none := by
  cases place with
  | none => rfl
  | some key =>
      have known := sound.valid _ occupied key rfl
      obtain ⟨root, member, above⟩ := exists_root sound.grown known
      have closed := List.countP_eq_zero.mp childless _ member
      simp only [decide_eq_true_eq, not_and] at closed
      exact absurd ⟨_, occupied, above⟩ (closed trivial)

end Nest
end CultureNodes
