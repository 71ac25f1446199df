import Mathlib.Data.List.Sort
import Mathlib.Data.String.Basic
import Mathlib.Logic.Relation
import CultureNodes.Library.JsonText

/-!
Canonical JSON: a document is compacted, read with objects as maps and its numbers as they are written,
and written again with the keys of every object sorted. Documents are Unicode text; where they are
bytes, the texts are their UTF-8.
-/

namespace CultureNodes.Contracts

open JsonText (Token Fits maxNestingDepth quote separated render tokensOf)

/-- Assign a member of a map, in place of the one it has of that name. -/
def put {β : Type} (members : List (String × β)) (member : String × β) : List (String × β) :=
  (members.filter fun other => other.1 ≠ member.1) ++ [member]

/-- The value with its objects as maps: of the members of one name the last one stays. -/
def toMaps : Json → Json
  | .array elements => .array (elementMaps elements)
  | .object members => .object ((memberMaps members).foldl put [])
  | value => value
where
  elementMaps : List Json → List Json
    | [] => []
    | element :: rest => toMaps element :: elementMaps rest
  memberMaps : List (String × Json) → List (String × Json)
    | [] => []
    | (name, value) :: rest => (name, toMaps value) :: memberMaps rest

/-- What the decoder, told to keep numbers, makes of a document. -/
def decode (document : List Char) : Option Json :=
  (JsonText.parse document).map toMaps

def sortKeys {β : Type} (members : List (String × β)) : List (String × β) :=
  members.insertionSort fun left right => left.1 ≤ right.1

def writeString (text : String) : List Char :=
  '"' :: (quote text.toList ++ ['"'])

def writeValue : Json → List Char
  | .null => ['n', 'u', 'l', 'l']
  | .bool true => ['t', 'r', 'u', 'e']
  | .bool false => ['f', 'a', 'l', 's', 'e']
  | .number numeral => numeral.toList
  | .string text => writeString text
  | .array elements => '[' :: (separated ',' (writeElements elements) ++ [']'])
  | .object members =>
      '{' :: (separated ',' ((sortKeys (writeMembers members)).map fun member =>
        writeString member.1 ++ ':' :: member.2) ++ ['}'])
where
  writeElements : List Json → List (List Char)
    | [] => []
    | element :: rest => writeValue element :: writeElements rest
  writeMembers : List (String × Json) → List (String × List Char)
    | [] => []
    | (name, value) :: rest => (name, writeValue value) :: writeMembers rest

/-- The canonical form of a document; none where the encoder refuses it. What the encoder wrote is one
value, so nothing is left behind it. -/
def canonicalJSON (document : String) : Option String := do
  let raw ← JsonText.compact document.toList
  let tree ← decode raw
  return String.ofList (writeValue tree)

/-- A JSON value with its objects as maps. -/
inductive Tree where
  | null
  | bool (value : Bool)
  | number (numeral : String)
  | string (text : String)
  | array (elements : List Tree)
  | object (members : String → Option Tree)

def last {β : Type} (members : List (String × β)) (name : String) : Option β :=
  members.reverse.lookup name

def treeOf : Json → Tree
  | .null => .null
  | .bool value => .bool value
  | .number numeral => .number numeral
  | .string text => .string text
  | .array elements => .array (elementTrees elements)
  | .object members => .object (last (memberTrees members))
where
  elementTrees : List Json → List Tree
    | [] => []
    | element :: rest => treeOf element :: elementTrees rest
  memberTrees : List (String × Json) → List (String × Tree)
    | [] => []
    | (name, value) :: rest => (name, treeOf value) :: memberTrees rest

/-- Two values that differ in the order of two neighbouring members of one object, whose names may
change places. -/
inductive Swap (may : String → String → Prop) : Json → Json → Prop
  | members {before after : List (String × Json)} {left right : String × Json}
      (allowed : may left.1 right.1) :
      Swap may (.object (before ++ left :: right :: after)) (.object (before ++ right :: left :: after))
  | inElement {before after : List Json} {value other : Json} (inside : Swap may value other) :
      Swap may (.array (before ++ value :: after)) (.array (before ++ other :: after))
  | inMember {before after : List (String × Json)} {name : String} {value other : Json}
      (inside : Swap may value other) :
      Swap may (.object (before ++ (name, value) :: after)) (.object (before ++ (name, other) :: after))

/-- The documents differ only in whitespace, in how strings are escaped, and in the order of members
whose names may change places. -/
def SameBut (may : String → String → Prop) (left right : String) : Prop :=
  ∃ value other, JsonText.parse left.toList = some value ∧ JsonText.parse right.toList = some other ∧
    Relation.ReflTransGen (Swap may) value other

def mapValues {β γ : Type} (f : β → γ) (members : List (String × β)) : List (String × γ) :=
  members.map fun member => (member.1, f member.2)

theorem elementMaps_eq (elements : List Json) : toMaps.elementMaps elements = elements.map toMaps := by
  induction elements with
  | nil => rfl
  | cons element rest ih => rw [toMaps.elementMaps, ih, List.map_cons]

theorem memberMaps_eq (members : List (String × Json)) :
    toMaps.memberMaps members = mapValues toMaps members := by
  induction members with
  | nil => rfl
  | cons member rest ih => rw [toMaps.memberMaps, ih, mapValues, mapValues, List.map_cons]

theorem writeElements_eq (elements : List Json) :
    writeValue.writeElements elements = elements.map writeValue := by
  induction elements with
  | nil => rfl
  | cons element rest ih => rw [writeValue.writeElements, ih, List.map_cons]

theorem writeMembers_eq (members : List (String × Json)) :
    writeValue.writeMembers members = mapValues writeValue members := by
  induction members with
  | nil => rfl
  | cons member rest ih => rw [writeValue.writeMembers, ih, mapValues, mapValues, List.map_cons]

theorem elementTrees_eq (elements : List Json) : treeOf.elementTrees elements = elements.map treeOf := by
  induction elements with
  | nil => rfl
  | cons element rest ih => rw [treeOf.elementTrees, ih, List.map_cons]

theorem memberTrees_eq (members : List (String × Json)) :
    treeOf.memberTrees members = mapValues treeOf members := by
  induction members with
  | nil => rfl
  | cons member rest ih => rw [treeOf.memberTrees, ih, mapValues, mapValues, List.map_cons]

section Members

variable {β γ : Type} {members others : List (String × β)}

theorem last_append (members others : List (String × β)) (name : String) :
    last (members ++ others) name = (last others name).or (last members name) := by
  rw [last, List.reverse_append, List.lookup_append]
  rfl

theorem last_mapValues (f : β → γ) (members : List (String × β)) (name : String) :
    last (mapValues f members) name = (last members name).map f := by
  rw [last, last, mapValues, ← List.map_reverse]
  generalize members.reverse = reversed
  induction reversed with
  | nil => rfl
  | cons member rest ih =>
      obtain ⟨key, value⟩ := member
      simp only [List.map_cons, List.lookup_cons]
      cases name == key with
      | true => rfl
      | false => exact ih

theorem mem_of_last {name : String} {value : β} (found : last members name = some value) :
    (name, value) ∈ members := by
  rw [last, List.lookup_eq_some_iff] at found
  obtain ⟨before, after, parts, _⟩ := found
  rw [← List.mem_reverse, parts]
  exact List.mem_append_right before List.mem_cons_self

theorem last_eq_some_iff (distinct : (members.map Prod.fst).Nodup) {name : String} {value : β} :
    last members name = some value ↔ (name, value) ∈ members := by
  have distinctToo : (members.reverse.map Prod.fst).Nodup := by
    rw [List.map_reverse]
    exact List.nodup_reverse.mpr distinct
  rw [last, ← List.mem_reverse]
  generalize members.reverse = reversed at distinctToo
  induction reversed with
  | nil => simp
  | cons member rest ih =>
      obtain ⟨key, held⟩ := member
      simp only [List.map_cons, List.nodup_cons] at distinctToo
      simp only [List.lookup_cons, List.mem_cons, Prod.mk.injEq]
      by_cases here : name = key
      · subst here
        have notLater : (name, value) ∉ rest := by
          intro later
          exact distinctToo.1 (List.mem_map.mpr ⟨(name, value), later, rfl⟩)
        simp [notLater, eq_comm]
      · simp only [beq_eq_false_iff_ne.mpr here, here, false_and, false_or]
        exact ih distinctToo.2

theorem last_filter {removed name : String} (other : name ≠ removed) (members : List (String × β)) :
    last (members.filter fun member => member.1 ≠ removed) name = last members name := by
  rw [last, last, ← List.filter_reverse]
  generalize members.reverse = reversed
  induction reversed with
  | nil => rfl
  | cons member rest ih =>
      obtain ⟨key, value⟩ := member
      by_cases isRemoved : key = removed
      · have notHere : (name == key) = false := by
          rw [isRemoved]
          exact beq_eq_false_iff_ne.mpr other
        simpa [List.filter_cons, isRemoved, List.lookup_cons, beq_eq_false_iff_ne.mpr other] using ih
      · simp only [List.filter_cons, isRemoved, ne_eq, not_false_eq_true, decide_true, if_true, List.lookup_cons]
        cases name == key with
        | true => rfl
        | false => simpa using ih

theorem last_put (members : List (String × β)) (member : String × β) (name : String) :
    last (put members member) name = last (members ++ [member]) name := by
  rw [put, last_append, last_append]
  by_cases here : name = member.1
  · have found : last [member] name = some member.2 := by
      obtain ⟨key, value⟩ := member
      simp [last, here]
    rw [found]
    rfl
  · rw [last_filter here]

theorem last_foldl_put (members : List (String × β)) (start : List (String × β)) (name : String) :
    last (members.foldl put start) name = last (start ++ members) name := by
  induction members generalizing start with
  | nil => rw [List.foldl_nil, List.append_nil]
  | cons member rest ih =>
      rw [List.foldl_cons, ih, last_append, last_put, ← last_append, List.append_assoc]
      rfl

theorem put_distinct (distinct : (members.map Prod.fst).Nodup) (member : String × β) :
    ((put members member).map Prod.fst).Nodup := by
  rw [put, List.map_append, List.map_singleton]
  apply List.Nodup.append
  · exact (List.filter_sublist.map Prod.fst).nodup distinct
  · exact List.nodup_singleton _
  · intro name inMembers isMember
    obtain ⟨other, held, rfl⟩ := List.mem_map.mp inMembers
    have differs := (List.mem_filter.mp held).2
    rw [List.mem_singleton] at isMember
    simp [isMember] at differs

theorem foldl_put_distinct (members start : List (String × β)) (distinct : (start.map Prod.fst).Nodup) :
    ((members.foldl put start).map Prod.fst).Nodup := by
  induction members generalizing start with
  | nil => exact distinct
  | cons member rest ih => exact ih _ (put_distinct distinct member)

theorem mem_foldl_put {member : String × β} (members start : List (String × β))
    (held : member ∈ members.foldl put start) : member ∈ start ∨ member ∈ members := by
  induction members generalizing start with
  | nil => exact Or.inl held
  | cons first rest ih =>
      obtain early | late := ih _ held
      · rw [put, List.mem_append, List.mem_singleton] at early
        obtain old | rfl := early
        · exact Or.inl (List.mem_filter.mp old).1
        · exact Or.inr List.mem_cons_self
      · exact Or.inr (List.mem_cons_of_mem _ late)

/-- Nothing is replaced where no name is repeated. -/
theorem foldl_put_eq (members start : List (String × β)) (distinct : ((start ++ members).map Prod.fst).Nodup) :
    members.foldl put start = start ++ members := by
  induction members generalizing start with
  | nil => simp
  | cons member rest ih =>
      have kept : (start.filter fun other => other.1 ≠ member.1) = start := by
        rw [List.filter_eq_self]
        intro other held
        rw [List.map_append, List.map_cons] at distinct
        have apart := List.disjoint_of_nodup_append distinct (List.mem_map_of_mem held)
        have differs : other.1 ≠ member.1 := fun same => apart (List.mem_cons.mpr (Or.inl same))
        simpa using differs
      rw [List.foldl_cons, put, kept, ih, List.append_assoc, List.singleton_append]
      rw [List.append_assoc, List.singleton_append]
      exact distinct

theorem sortKeys_perm (members : List (String × β)) : (sortKeys members).Perm members :=
  List.perm_insertionSort _ _

theorem sortKeys_distinct (distinct : (members.map Prod.fst).Nodup) :
    ((sortKeys members).map Prod.fst).Nodup :=
  ((sortKeys_perm members).map Prod.fst).nodup_iff.mpr distinct

theorem sortKeys_mapValues (f : β → γ) (members : List (String × β)) :
    sortKeys (mapValues f members) = mapValues f (sortKeys members) := by
  symm
  apply List.map_insertionSort
  intro left _ right _
  exact Iff.rfl

theorem sortKeys_sorted (members : List (String × β)) :
    (sortKeys members).Pairwise fun left right => left.1 ≤ right.1 := by
  have total : Std.Total fun left right : String × β => left.1 ≤ right.1 :=
    ⟨fun left right => le_total left.1 right.1⟩
  have trans : IsTrans (String × β) fun left right => left.1 ≤ right.1 :=
    ⟨fun _ _ _ one two => le_trans one two⟩
  exact List.pairwise_insertionSort _ _

theorem sortKeys_sortKeys (members : List (String × β)) : sortKeys (sortKeys members) = sortKeys members :=
  (sortKeys_sorted members).insertionSort_eq

theorem sortKeys_eq (distinct : (members.map Prod.fst).Nodup) (distinctToo : (others.map Prod.fst).Nodup)
    (same : ∀ member, member ∈ members ↔ member ∈ others) : sortKeys members = sortKeys others := by
  have perm : members.Perm others :=
    (List.perm_ext_iff_of_nodup (distinct.of_map _) (distinctToo.of_map _)).mpr same
  have sorted := sortKeys_distinct distinctToo
  apply List.Perm.eq_of_pairwise _ (sortKeys_sorted members) (sortKeys_sorted others)
  · exact (sortKeys_perm members).trans (perm.trans (sortKeys_perm others).symm)
  · intro left right isLeft isRight one two
    have inOthers : left ∈ sortKeys others := (sortKeys_perm others).mem_iff.mpr
      (perm.mem_iff.mp ((sortKeys_perm members).mem_iff.mp isLeft))
    exact List.inj_on_of_nodup_map sorted inOthers isRight (le_antisymm one two)

theorem last_congr (distinct : (members.map Prod.fst).Nodup) (same : others.Perm members) (name : String) :
    last others name = last members name := by
  have distinctToo : (others.map Prod.fst).Nodup := (same.map Prod.fst).nodup_iff.mpr distinct
  apply Option.ext
  intro value
  rw [last_eq_some_iff distinctToo, last_eq_some_iff distinct, same.mem_iff]

theorem mapValues_fst (f : β → γ) (members : List (String × β)) :
    (mapValues f members).map Prod.fst = members.map Prod.fst := by
  simp [mapValues]

theorem mem_mapValues {f : β → γ} {member : String × γ} (held : member ∈ mapValues f members) :
    ∃ value, (member.1, value) ∈ members ∧ f value = member.2 := by
  obtain ⟨other, inside, rfl⟩ := List.mem_map.mp held
  exact ⟨other.2, inside, rfl⟩

end Members

/-- No object has two members of one name. -/
inductive Keyed : Json → Prop
  | null : Keyed .null
  | bool (value : Bool) : Keyed (.bool value)
  | number (numeral : String) : Keyed (.number numeral)
  | string (text : String) : Keyed (.string text)
  | array {elements : List Json} (each : ∀ element ∈ elements, Keyed element) : Keyed (.array elements)
  | object {members : List (String × Json)} (distinct : (members.map Prod.fst).Nodup)
      (each : ∀ member ∈ members, Keyed member.2) : Keyed (.object members)

theorem keyed_toMaps (value : Json) : Keyed (toMaps value) := by
  induction value using Json.induction with
  | null => exact .null
  | bool value => exact .bool value
  | number numeral => exact .number numeral
  | string text => exact .string text
  | array elements ih =>
      rw [toMaps, elementMaps_eq]
      apply Keyed.array
      intro element held
      obtain ⟨other, inside, rfl⟩ := List.mem_map.mp held
      exact ih other inside
  | object members ih =>
      rw [toMaps, memberMaps_eq]
      apply Keyed.object
      · exact foldl_put_distinct _ _ List.nodup_nil
      · intro member held
        obtain none | inMembers := mem_foldl_put _ _ held
        · contradiction
        · obtain ⟨value, inside, isValue⟩ := mem_mapValues inMembers
          rw [← isValue]
          exact ih _ inside

theorem treeOf_toMaps (value : Json) : treeOf (toMaps value) = treeOf value := by
  induction value using Json.induction with
  | array elements ih =>
      simp only [toMaps, treeOf, elementMaps_eq, elementTrees_eq, List.map_map]
      rw [Tree.array.injEq]
      exact List.map_congr_left ih
  | object members ih =>
      simp only [toMaps, treeOf, memberMaps_eq, memberTrees_eq]
      rw [Tree.object.injEq]
      funext name
      rw [last_mapValues, last_foldl_put, List.nil_append, last_mapValues, last_mapValues, Option.map_map]
      cases found : last members name with
      | none => rfl
      | some value =>
          exact congrArg some (ih _ (mem_of_last found))
  | _ => rfl

theorem Fits.toMaps {limit : Nat} {value : Json} (fits : Fits limit value) :
    Fits limit (Contracts.toMaps value) := by
  induction fits with
  | null limit => exact .null limit
  | bool limit value => exact .bool limit value
  | number limit whole => exact .number limit whole
  | string limit text => exact .string limit text
  | array each ih =>
      rw [Contracts.toMaps, elementMaps_eq]
      apply JsonText.Fits.array
      intro element held
      obtain ⟨other, inside, rfl⟩ := List.mem_map.mp held
      exact ih other inside
  | object each ih =>
      rw [Contracts.toMaps, memberMaps_eq]
      apply JsonText.Fits.object
      intro member held
      obtain none | inMembers := mem_foldl_put _ _ held
      · contradiction
      · obtain ⟨value, inside, isValue⟩ := mem_mapValues inMembers
        rw [← isValue]
        exact ih _ inside

/-- The value with the members of its objects in the order of their names. -/
def sorted : Json → Json
  | .array elements => .array (sortedElements elements)
  | .object members => .object (sortKeys (sortedMembers members))
  | value => value
where
  sortedElements : List Json → List Json
    | [] => []
    | element :: rest => sorted element :: sortedElements rest
  sortedMembers : List (String × Json) → List (String × Json)
    | [] => []
    | (name, value) :: rest => (name, sorted value) :: sortedMembers rest

theorem sortedElements_eq (elements : List Json) :
    sorted.sortedElements elements = elements.map sorted := by
  induction elements with
  | nil => rfl
  | cons element rest ih => rw [sorted.sortedElements, ih, List.map_cons]

theorem sortedMembers_eq (members : List (String × Json)) :
    sorted.sortedMembers members = mapValues sorted members := by
  induction members with
  | nil => rfl
  | cons member rest ih => rw [sorted.sortedMembers, ih, mapValues, mapValues, List.map_cons]

theorem sorted_sorted (value : Json) : sorted (sorted value) = sorted value := by
  induction value using Json.induction with
  | array elements ih =>
      simp only [sorted, sortedElements_eq, List.map_map]
      rw [Json.array.injEq]
      exact List.map_congr_left ih
  | object members ih =>
      simp only [sorted, sortedMembers_eq, ← sortKeys_mapValues, sortKeys_sortKeys]
      rw [Json.object.injEq, mapValues, mapValues, List.map_map]
      apply congrArg
      apply List.map_congr_left
      intro member held
      exact congrArg (Prod.mk member.1) (ih member held)
  | _ => rfl

theorem Keyed.sorted {value : Json} (keyed : Keyed value) : Keyed (Contracts.sorted value) := by
  induction keyed with
  | array each ih =>
      rw [Contracts.sorted, sortedElements_eq]
      apply Keyed.array
      intro element held
      obtain ⟨other, inside, rfl⟩ := List.mem_map.mp held
      exact ih other inside
  | object distinct each ih =>
      rw [Contracts.sorted, sortedMembers_eq]
      apply Keyed.object
      · apply sortKeys_distinct
        rw [mapValues_fst]
        exact distinct
      · intro member held
        obtain ⟨value, inside, isValue⟩ := mem_mapValues ((sortKeys_perm _).mem_iff.mp held)
        rw [← isValue]
        exact ih _ inside
  | null => exact .null
  | bool value => exact .bool value
  | number numeral => exact .number numeral
  | string text => exact .string text

theorem Fits.sorted {limit : Nat} {value : Json} (fits : Fits limit value) :
    Fits limit (Contracts.sorted value) := by
  induction fits with
  | null limit => exact .null limit
  | bool limit value => exact .bool limit value
  | number limit whole => exact .number limit whole
  | string limit text => exact .string limit text
  | array each ih =>
      rw [Contracts.sorted, sortedElements_eq]
      apply JsonText.Fits.array
      intro element held
      obtain ⟨other, inside, rfl⟩ := List.mem_map.mp held
      exact ih other inside
  | object each ih =>
      rw [Contracts.sorted, sortedMembers_eq]
      apply JsonText.Fits.object
      intro member held
      obtain ⟨value, inside, isValue⟩ := mem_mapValues ((sortKeys_perm _).mem_iff.mp held)
      rw [← isValue]
      exact ih _ inside

/-- A value without repeated names is read as it is. -/
theorem Keyed.toMaps_eq {value : Json} (keyed : Keyed value) : toMaps value = value := by
  induction keyed with
  | array each ih =>
      rw [toMaps, elementMaps_eq, Json.array.injEq]
      exact (List.map_congr_left ih).trans (List.map_id _)
  | @object members distinct each ih =>
      have same : mapValues toMaps members = members := by
        apply (List.map_congr_left _).trans (List.map_id _)
        intro member held
        exact congrArg (Prod.mk member.1) (ih member held)
      rw [toMaps, memberMaps_eq, same, foldl_put_eq _ _ distinct, List.nil_append]
  | _ => rfl

theorem Keyed.treeOf_sorted {value : Json} (keyed : Keyed value) :
    treeOf (Contracts.sorted value) = treeOf value := by
  induction keyed with
  | array each ih =>
      simp only [Contracts.sorted, treeOf, sortedElements_eq, elementTrees_eq, List.map_map]
      rw [Tree.array.injEq]
      exact List.map_congr_left ih
  | @object members distinct each ih =>
      simp only [Contracts.sorted, treeOf, sortedMembers_eq, memberTrees_eq, sortKeys_mapValues]
      rw [Tree.object.injEq]
      funext name
      simp only [last_mapValues, last_congr distinct (sortKeys_perm members), Option.map_map]
      cases found : last members name with
      | none => rfl
      | some value => exact congrArg some (ih _ ((last_eq_some_iff distinct).mp found))
  | _ => rfl

theorem map_eq_map_of {α β γ : Type} {f : α → β} {g : α → γ} {left right : List α}
    (coarser : ∀ one ∈ left, ∀ two ∈ right, f one = f two → g one = g two)
    (same : left.map f = right.map f) : left.map g = right.map g := by
  induction left generalizing right with
  | nil =>
      cases right with
      | nil => rfl
      | cons first rest => contradiction
  | cons one left ih =>
      cases right with
      | nil => contradiction
      | cons two right =>
          simp only [List.map_cons, List.cons.injEq] at same ⊢
          constructor
          · exact coarser one List.mem_cons_self two List.mem_cons_self same.1
          · exact ih (fun inner held other heldToo => coarser inner (List.mem_cons_of_mem _ held) other
              (List.mem_cons_of_mem _ heldToo)) same.2

theorem mem_sortedMembers {members others : List (String × Json)} {member : String × Json}
    (distinct : (members.map Prod.fst).Nodup)
    (named : ∀ name, (last members name).map treeOf = (last others name).map treeOf)
    (agree : ∀ one ∈ members, ∀ two ∈ others, treeOf one.2 = treeOf two.2 → sorted one.2 = sorted two.2)
    (held : member ∈ mapValues sorted members) : member ∈ mapValues sorted others := by
  obtain ⟨value, inside, isValue⟩ := mem_mapValues held
  have here := named member.1
  rw [(last_eq_some_iff distinct).mpr inside] at here
  obtain ⟨other, found, sameTree⟩ := Option.map_eq_some_iff.mp here.symm
  have insideToo := mem_of_last found
  have sameSorted := agree _ inside _ insideToo sameTree.symm
  apply List.mem_map.mpr
  refine ⟨(member.1, other), insideToo, ?_⟩
  rw [← sameSorted, isValue]

/-- Values that are one as trees differ only in the order of members. -/
theorem Keyed.sorted_eq {value other : Json} (keyed : Keyed value) (keyedToo : Keyed other)
    (same : treeOf value = treeOf other) : Contracts.sorted value = Contracts.sorted other := by
  induction keyed generalizing other with
  | null => cases keyedToo <;> first | rfl | contradiction
  | bool value =>
      cases keyedToo <;> first | contradiction | skip
      cases same
      rfl
  | number numeral =>
      cases keyedToo <;> first | contradiction | skip
      cases same
      rfl
  | string text =>
      cases keyedToo <;> first | contradiction | skip
      cases same
      rfl
  | @array elements each ih =>
      cases keyedToo with
      | @array others eachToo =>
          simp only [treeOf, elementTrees_eq, Tree.array.injEq] at same
          simp only [Contracts.sorted, sortedElements_eq, Json.array.injEq]
          apply map_eq_map_of _ same
          intro element held inner heldToo
          exact ih element held (eachToo inner heldToo)
      | _ => contradiction
  | @object members distinct each ih =>
      cases keyedToo with
      | @object others distinctToo eachToo =>
          simp only [treeOf, memberTrees_eq, Tree.object.injEq] at same
          simp only [Contracts.sorted, sortedMembers_eq, Json.object.injEq]
          have named (name : String) :
              (last members name).map treeOf = (last others name).map treeOf := by
            rw [← last_mapValues, ← last_mapValues, same]
          have agree : ∀ one ∈ members, ∀ two ∈ others, treeOf one.2 = treeOf two.2 →
              Contracts.sorted one.2 = Contracts.sorted two.2 :=
            fun one held two heldToo => ih one held (eachToo two heldToo)
          apply sortKeys_eq
          · rw [mapValues_fst]
            exact distinct
          · rw [mapValues_fst]
            exact distinctToo
          · intro member
            constructor
            · exact mem_sortedMembers distinct named agree
            · apply mem_sortedMembers distinctToo (fun name => (named name).symm)
              intro one held two heldToo sameTree
              exact (agree two heldToo one held sameTree.symm).symm
      | _ => contradiction

theorem render_separated (parts : List (List Token)) :
    render (separated .comma parts) = separated ',' (parts.map render) := by
  cases parts with
  | nil => rfl
  | cons first rest =>
      simp [separated, render, List.flatMap_append, List.flatMap_assoc, List.flatMap_map, Token.render]

theorem render_enclosed (opening closing : Token) (inner : List Token) :
    render (opening :: (inner ++ [closing])) = opening.render ++ (render inner ++ closing.render) := by
  simp [render]

theorem render_memberTokens (member : String × Json) :
    render (JsonText.memberTokens member) =
      writeString member.1 ++ ':' :: render (tokensOf member.2) := by
  simp [JsonText.memberTokens, render, Token.render, writeString]

theorem writeValue_eq (value : Json) : writeValue value = render (tokensOf (sorted value)) := by
  induction value using Json.induction with
  | null => rfl
  | bool value => cases value <;> rfl
  | number numeral => simp [writeValue, sorted, tokensOf, render, Token.render]
  | string text => simp [writeValue, sorted, tokensOf, render, Token.render, writeString]
  | array elements ih =>
      have each : elements.map writeValue = ((elements.map sorted).map tokensOf).map render := by
        rw [List.map_map, List.map_map]
        exact List.map_congr_left ih
      rw [writeValue, sorted, tokensOf, sortedElements_eq, writeElements_eq, JsonText.elementTokens_eq,
        render_enclosed, render_separated, each]
      rfl
  | object members ih =>
      have each : mapValues writeValue members =
          mapValues (fun value => render (tokensOf value)) (mapValues sorted members) := by
        rw [mapValues, mapValues, mapValues, List.map_map]
        apply List.map_congr_left
        intro member held
        exact congrArg (Prod.mk member.1) (ih member held)
      have written (listed : List (String × Json)) :
          (mapValues (fun value => render (tokensOf value)) listed).map
              (fun member => writeString member.1 ++ ':' :: member.2) =
            (listed.map JsonText.memberTokens).map render := by
        rw [mapValues, List.map_map, List.map_map]
        apply List.map_congr_left
        intro member _
        exact (render_memberTokens member).symm
      rw [writeValue, sorted, tokensOf, sortedMembers_eq, writeMembers_eq, JsonText.memberTokens_eq,
        render_enclosed, render_separated, each, sortKeys_mapValues, written]
      rfl

theorem canonicalJSON_eq (document : String) :
    canonicalJSON document =
      (JsonText.parse document.toList).map fun value => String.ofList (writeValue (toMaps value)) := by
  have accepted := JsonText.compact_isSome document.toList
  cases compacted : JsonText.compact document.toList with
  | none =>
      rw [compacted] at accepted
      have refused : JsonText.parse document.toList = none := by
        simpa using accepted.symm
      simp [canonicalJSON, compacted, refused]
  | some raw =>
      have same := JsonText.parse_compact compacted
      cases parsed : JsonText.parse document.toList with
      | none => simp [canonicalJSON, compacted, decode, same, parsed]
      | some value => simp [canonicalJSON, compacted, decode, same, parsed]

theorem parse_canonical {document : String} {value : Json}
    (parsed : JsonText.parse document.toList = some value) :
    JsonText.parse (writeValue (toMaps value)) = some (sorted (toMaps value)) := by
  rw [writeValue_eq]
  exact (Fits.sorted (Fits.toMaps (JsonText.fits_of_parse parsed))).parse_render

theorem canonical_eq_iff {left right : String} {value other : Json}
    (parsed : JsonText.parse left.toList = some value)
    (parsedToo : JsonText.parse right.toList = some other) :
    canonicalJSON left = canonicalJSON right ↔ treeOf value = treeOf other := by
  have keyed := keyed_toMaps value
  have keyedToo := keyed_toMaps other
  rw [canonicalJSON_eq, canonicalJSON_eq, parsed, parsedToo, Option.map_some, Option.map_some,
    Option.some.injEq]
  constructor
  · intro same
    have sameText : writeValue (toMaps value) = writeValue (toMaps other) := by
      simpa using congrArg String.toList same
    have read := parse_canonical parsed
    rw [sameText, parse_canonical parsedToo, Option.some.injEq] at read
    calc treeOf value = treeOf (toMaps value) := (treeOf_toMaps value).symm
      _ = treeOf (sorted (toMaps value)) := keyed.treeOf_sorted.symm
      _ = treeOf (sorted (toMaps other)) := by rw [read]
      _ = treeOf (toMaps other) := keyedToo.treeOf_sorted
      _ = treeOf other := treeOf_toMaps other
  · intro same
    have sameMaps : treeOf (toMaps value) = treeOf (toMaps other) := by
      rw [treeOf_toMaps, treeOf_toMaps, same]
    rw [writeValue_eq, writeValue_eq, keyed.sorted_eq keyedToo sameMaps]

theorem canonicalJSON_idempotent {document canonical : String}
    (returned : canonicalJSON document = some canonical) : canonicalJSON canonical = some canonical := by
  rw [canonicalJSON_eq] at returned
  obtain ⟨value, parsed, rfl⟩ := Option.map_eq_some_iff.mp returned
  rw [canonicalJSON_eq, String.toList_ofList, parse_canonical parsed, Option.map_some,
    (keyed_toMaps value).sorted.toMaps_eq, writeValue_eq, writeValue_eq, sorted_sorted]

theorem last_swap {β : Type} {before after : List (String × β)} {left right : String × β}
    (differ : left.1 ≠ right.1) (name : String) :
    last (before ++ left :: right :: after) name = last (before ++ right :: left :: after) name := by
  have pair (one two : String × β) : before ++ one :: two :: after = before ++ ([one] ++ ([two] ++ after)) := by
    simp
  simp only [pair, last_append]
  have either : last [left] name = none ∨ last [right] name = none := by
    by_cases isLeft : name = left.1
    · right
      have notRight : (name == right.1) = false := by
        rw [isLeft]
        exact beq_eq_false_iff_ne.mpr differ
      obtain ⟨key, value⟩ := right
      simp [last, List.lookup_cons, notRight]
    · left
      obtain ⟨key, value⟩ := left
      simp [last, List.lookup_cons, beq_eq_false_iff_ne.mpr isLeft]
  obtain none | none := either
  · simp [none]
  · simp [none]

theorem Swap.treeOf_eq {value other : Json} (swap : Swap (fun left right => left ≠ right) value other) :
    treeOf value = treeOf other := by
  induction swap with
  | members allowed =>
      simp only [treeOf, memberTrees_eq, Tree.object.injEq]
      funext name
      rw [last_mapValues, last_mapValues, last_swap allowed]
  | inElement inside ih => simp [treeOf, elementTrees_eq, ih]
  | inMember inside ih => simp [treeOf, memberTrees_eq, mapValues, ih]

theorem treeOf_reordered {value other : Json}
    (reordered : Relation.ReflTransGen (Swap fun left right => left ≠ right) value other) :
    treeOf value = treeOf other := by
  induction reordered with
  | refl => rfl
  | tail _ swap ih => exact ih.trans swap.treeOf_eq

/-- The canonical form is canonical, does not depend on how a document is spelled or on the order of
members of different names, and tells documents apart whose trees differ. -/
theorem canonicalJSON_faithful :
    (∀ document canonical, canonicalJSON document = some canonical →
      canonicalJSON canonical = some canonical) ∧
    (∀ left right, SameBut (fun one two => one ≠ two) left right →
      ∃ canonical, canonicalJSON left = some canonical ∧ canonicalJSON right = some canonical) ∧
    ∀ left right value other, JsonText.parse left.toList = some value →
      JsonText.parse right.toList = some other → treeOf value ≠ treeOf other →
      ∃ canonical canonicalToo, canonicalJSON left = some canonical ∧
        canonicalJSON right = some canonicalToo ∧ canonical ≠ canonicalToo := by
  refine ⟨fun _ _ => canonicalJSON_idempotent, ?_, ?_⟩
  · intro left right same
    obtain ⟨value, other, parsed, parsedToo, reordered⟩ := same
    have equal := (canonical_eq_iff parsed parsedToo).mpr (treeOf_reordered reordered)
    have returned : canonicalJSON left = some (String.ofList (writeValue (toMaps value))) := by
      rw [canonicalJSON_eq, parsed, Option.map_some]
    exact ⟨_, returned, equal ▸ returned⟩
  · intro left right value other parsed parsedToo differ
    have returned : canonicalJSON left = some (String.ofList (writeValue (toMaps value))) := by
      rw [canonicalJSON_eq, parsed, Option.map_some]
    have returnedToo : canonicalJSON right = some (String.ofList (writeValue (toMaps other))) := by
      rw [canonicalJSON_eq, parsedToo, Option.map_some]
    refine ⟨_, _, returned, returnedToo, ?_⟩
    intro same
    apply differ
    apply (canonical_eq_iff parsed parsedToo).mp
    rw [returned, returnedToo, same]

/-- Two members in either order, with spaces and an escape in one of the documents. -/
theorem canonicalJSON_two_spellings :
    ∃ canonical, canonicalJSON "\x7b\"a\":1,\"b\":2\x7d" = some canonical ∧
      canonicalJSON " \x7b\"b\": 2, \"\\u0061\": 1\x7d" = some canonical := by
  have swapped : Swap (fun one two => one ≠ two) (.object [("a", .number "1"), ("b", .number "2")])
      (.object [("b", .number "2"), ("a", .number "1")]) :=
    @Swap.members _ [] [] ("a", .number "1") ("b", .number "2") (by decide)
  exact canonicalJSON_faithful.2.1 _ _ ⟨_, _, rfl, rfl, .single swapped⟩

/-- Two members of one name in either order: the later one stays. -/
theorem canonicalJSON_repeated_name :
    SameBut (fun _ _ => True) "\x7b\"a\":1,\"a\":2\x7d" "\x7b\"a\":2,\"a\":1\x7d" ∧
      canonicalJSON "\x7b\"a\":1,\"a\":2\x7d" = some "\x7b\"a\":2\x7d" ∧
      canonicalJSON "\x7b\"a\":2,\"a\":1\x7d" = some "\x7b\"a\":1\x7d" := by
  have swapped : Swap (fun _ _ => True) (.object [("a", .number "1"), ("a", .number "2")])
      (.object [("a", .number "2"), ("a", .number "1")]) := 
    @Swap.members _ [] [] ("a", .number "1") ("a", .number "2") trivial
  refine ⟨⟨_, _, rfl, rfl, .single swapped⟩, ?_, ?_⟩
  · decide +kernel
  · decide +kernel

end CultureNodes.Contracts
