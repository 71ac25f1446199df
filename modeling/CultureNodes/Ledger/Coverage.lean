import CultureNodes.Library.Paths
import CultureNodes.Ledger.Authority

/-!
Which payloads a runner's manifest covers. The check compares escaped pointers as texts; what it decides
is about lists of keys: every leaf of the payload lies at or under a declared field.
-/

namespace CultureNodes.Ledger

open Compiler (escapePointerToken unescapePointerToken parsePointer)

/-- A value that is no object, or an object without members. -/
def isLeaf : Json → Bool
  | .object (_ :: _) => false
  | _ => true

/-- The keys that lead from the members of a payload to a leaf. -/
inductive LeafAt : List (String × Json) → List String → Prop
  | leaf {members : List (String × Json)} {key : String} {value : Json} (held : (key, value) ∈ members)
      (bare : isLeaf value = true) : LeafAt members [key]
  | under {members inner : List (String × Json)} {key : String} {path : List String}
      (held : (key, .object inner) ∈ members) (below : LeafAt inner path) : LeafAt members (key :: path)

/-- Some declared field is the leaf or lies above it. -/
def RunnerManifest.declares (manifest : RunnerManifest) (path : List String) : Prop :=
  ∃ declared ∈ manifest.observableFields, ∃ keys, parsePointer declared = some keys ∧ keys <+: path

def escapeChar (char : Char) : List Char :=
  if char = '~' then ['~', '0'] else if char = '/' then ['~', '1'] else [char]

theorem toList_escape (key : String) : (escapePointerToken key).toList = key.toList.flatMap escapeChar :=
  String.toList_ofList

theorem escape_plain (key : String) : '/' ∉ (escapePointerToken key).toList := by
  rw [toList_escape, List.mem_flatMap]
  intro held
  obtain ⟨char, _, inside⟩ := held
  simp only [escapeChar] at inside
  split at inside
  · simp at inside
  · split at inside
    · simp at inside
    · rename_i _ notSlash
      exact notSlash (List.mem_singleton.mp inside).symm

theorem unescape_escape (chars : List Char) :
    unescapePointerToken (chars.flatMap escapeChar) = some chars := by
  induction chars with
  | nil => rfl
  | cons char rest ih =>
      rw [List.flatMap_cons]
      by_cases tilde : char = '~'
      · subst tilde
        simp [escapeChar, unescapePointerToken, ih]
      · by_cases slash : char = '/'
        · subst slash
          simp [escapeChar, unescapePointerToken, ih]
        · rw [escapeChar, if_neg tilde, if_neg slash, List.singleton_append, unescapePointerToken,
            if_neg tilde, ih]
          · rfl
          · intro _ isTilde
            exact absurd isTilde tilde
          · intro _ isTilde
            exact absurd isTilde tilde

theorem escape_injective : Function.Injective fun key => (escapePointerToken key).toList := by
  intro left right same
  simp only [toList_escape] at same
  have read := unescape_escape left.toList
  rw [same, unescape_escape] at read
  exact String.toList_injective (Option.some.inj read).symm

theorem escape_unescape {token out : List Char} (plain : '/' ∉ token)
    (read : unescapePointerToken token = some out) : out.flatMap escapeChar = token := by
  induction token using Compiler.unescapePointerToken.induct generalizing out with
  | case1 =>
      cases read
      rfl
  | case2 rest ih =>
      simp only [unescapePointerToken, Option.map_eq_some_iff] at read
      obtain ⟨inner, onward, rfl⟩ := read
      have restPlain : '/' ∉ rest := fun held => plain (by simp [held])
      simp [escapeChar, ih restPlain onward]
  | case3 rest ih =>
      simp only [unescapePointerToken, Option.map_eq_some_iff] at read
      obtain ⟨inner, onward, rfl⟩ := read
      have restPlain : '/' ∉ rest := fun held => plain (by simp [held])
      simp [escapeChar, ih restPlain onward]
  | case4 rest _ _ => simp [unescapePointerToken] at read
  | case5 char rest _ _ tilde ih =>
      rw [unescapePointerToken, if_neg tilde] at read
      · obtain ⟨inner, onward, rfl⟩ := Option.map_eq_some_iff.mp read
        have restPlain : '/' ∉ rest := fun held => plain (by simp [held])
        have slash : char ≠ '/' := fun isSlash => plain (by simp [isSlash])
        simp [escapeChar, tilde, slash, ih restPlain onward]
      · assumption
      · assumption

def pointerTokens (keys : List String) : List (List Char) :=
  keys.map fun key => (escapePointerToken key).toList

theorem pointerTokens_plain (keys : List String) : ∀ token ∈ pointerTokens keys, '/' ∉ token := by
  intro token held
  obtain ⟨key, _, rfl⟩ := List.mem_map.mp held
  exact escape_plain key

theorem pointerTokens_of_unescaped {tokens : List (List Char)} {keys : List String}
    (plain : ∀ token ∈ tokens, '/' ∉ token)
    (read : (tokens.mapM fun token => (unescapePointerToken token).map String.ofList) = some keys) :
    pointerTokens keys = tokens := by
  induction tokens generalizing keys with
  | nil =>
      cases read
      rfl
  | cons token tokens ih =>
      cases first : unescapePointerToken token with
      | none => simp [List.mapM_cons, first] at read
      | some key =>
          cases others : tokens.mapM fun token => (unescapePointerToken token).map String.ofList with
          | none => simp [List.mapM_cons, first, others] at read
          | some more =>
              simp only [List.mapM_cons, first, others, Option.map_some, Option.bind_eq_bind,
                Option.bind_some, Option.pure_def, Option.some.injEq] at read
              subst read
              have rest := ih (fun other held => plain other (List.mem_cons_of_mem _ held)) others
              have here := escape_unescape (plain token List.mem_cons_self) first
              simp only [pointerTokens, List.map_cons, toList_escape, String.toList_ofList, here] at rest ⊢
              rw [rest]

theorem toList_of_parsePointer {declared : String} {keys : List String}
    (read : parsePointer declared = some keys) :
    declared.toList = Paths.join '/' (pointerTokens keys) := by
  simp only [parsePointer] at read
  split at read
  · rename_i empty
    cases read
    rw [empty]
    rfl
  · rename_i rest text
    rw [pointerTokens_of_unescaped (fun _ held => Paths.not_mem_of_mem_splitOn held) read,
      Paths.join_splitOn, text]
  · contradiction

/-- The text comparison of `covers` for one declared field. -/
theorem covers_one_iff {declared pointer : String} {keys path : List String}
    (read : parsePointer declared = some keys)
    (along : pointer.toList = Paths.join '/' (pointerTokens path)) :
    (declared = "" || pointer = declared || (declared ++ "/").toList.isPrefixOf pointer.toList) = true ↔
      keys <+: path := by
  have text := toList_of_parsePointer read
  have tokens : pointerTokens keys <+: pointerTokens path ↔ keys <+: path :=
    List.prefix_map_iff_of_injective escape_injective
  have compared := Paths.join_eq_or_isPrefix_iff (pointerTokens_plain keys) (pointerTokens_plain path)
  rw [tokens, ← text, ← along] at compared
  simp only [Bool.or_eq_true, decide_eq_true_eq, List.isPrefixOf_iff_prefix, String.toList_append]
  rw [← compared, or_assoc]
  constructor
  · intro found
    obtain rfl | same | below := found
    · -- the empty pointer has no keys, which start every path
      rw [text] at compared
      have none : keys = [] := by
        cases keys with
        | nil => rfl
        | cons key keys => contradiction
      subst none
      exact compared.mpr List.nil_prefix
    · exact Or.inl (by rw [same])
    · exact Or.inr below
  · intro found
    obtain same | below := found
    · exact Or.inr (Or.inl (String.toList_injective same))
    · exact Or.inr (Or.inr below)

theorem covers_iff {manifest : RunnerManifest} {pointer : String} {path : List String}
    (valid : ∀ declared ∈ manifest.observableFields, (parsePointer declared).isSome = true)
    (along : pointer.toList = Paths.join '/' (pointerTokens path)) :
    manifest.covers pointer = true ↔ manifest.declares path := by
  simp only [RunnerManifest.covers, List.any_eq_true, RunnerManifest.declares]
  constructor
  · intro found
    obtain ⟨declared, listed, covered⟩ := found
    obtain ⟨keys, read⟩ := Option.isSome_iff_exists.mp (valid declared listed)
    exact ⟨declared, listed, keys, read, (covers_one_iff read along).mp covered⟩
  · intro found
    obtain ⟨declared, listed, keys, read, above⟩ := found
    exact ⟨declared, listed, (covers_one_iff read along).mpr above⟩

/-- The keys that lead from a value to a leaf, none where it is one itself. -/
def LeafUnder (value : Json) (path : List String) : Prop :=
  (isLeaf value = true ∧ path = []) ∨ ∃ members, value = .object members ∧ LeafAt members path

theorem leafAt_cons_iff {key : String} {value : Json} {rest : List (String × Json)} {path : List String} :
    LeafAt ((key, value) :: rest) path ↔
      (∃ below, path = key :: below ∧ LeafUnder value below) ∨ LeafAt rest path := by
  constructor
  · intro found
    cases found with
    | leaf held bare =>
        obtain same | later := List.mem_cons.mp held
        · cases same
          exact Or.inl ⟨[], rfl, Or.inl ⟨bare, rfl⟩⟩
        · exact Or.inr (.leaf later bare)
    | under held below =>
        obtain same | later := List.mem_cons.mp held
        · cases same
          exact Or.inl ⟨_, rfl, Or.inr ⟨_, rfl, below⟩⟩
        · exact Or.inr (.under later below)
  · intro found
    obtain ⟨below, rfl, leaf⟩ | later := found
    · obtain ⟨bare, rfl⟩ | ⟨members, rfl, inside⟩ := leaf
      · exact .leaf List.mem_cons_self bare
      · exact .under List.mem_cons_self inside
    · cases later with
      | leaf held bare => exact .leaf (List.mem_cons_of_mem _ held) bare
      | under held below => exact .under (List.mem_cons_of_mem _ held) below

/-- The pointer goes on from the text above along the keys. -/
def LeadsTo (above pointer : String) (path : List String) : Prop :=
  pointer.toList = above.toList ++ Paths.join '/' (pointerTokens path)

theorem leadsTo_cons {above pointer key : String} {path : List String} :
    LeadsTo (above ++ "/" ++ escapePointerToken key) pointer path ↔ LeadsTo above pointer (key :: path) := by
  simp [LeadsTo, pointerTokens, Paths.join, String.toList_append]

theorem leadsTo_nil {above pointer : String} : LeadsTo above pointer [] ↔ pointer = above := by
  simp [LeadsTo, pointerTokens, Paths.join, String.toList_inj]

theorem mem_leaves_of_leaf {above pointer : String} {value : Json}
    (listed : leaves above value = [above]) (bare : isLeaf value = true)
    (none : ∀ members path, value = .object members → ¬ LeafAt members path) :
    pointer ∈ leaves above value ↔ ∃ path, LeafUnder value path ∧ LeadsTo above pointer path := by
  rw [listed, List.mem_singleton]
  constructor
  · intro same
    exact ⟨[], Or.inl ⟨bare, rfl⟩, leadsTo_nil.mpr same⟩
  · intro found
    obtain ⟨path, ⟨_, rfl⟩ | ⟨members, isObject, leaf⟩, leads⟩ := found
    · exact leadsTo_nil.mp leads
    · exact absurd leaf (none members path isObject)

theorem leafAt_nil {path : List String} : ¬ LeafAt [] path := by
  intro leaf
  cases leaf with
  | leaf held _ => contradiction
  | under held _ => contradiction

theorem pointer_ne_empty (above key : String) : above ++ "/" ++ escapePointerToken key ≠ "" := by
  intro empty
  exact absurd (String.append_eq_empty_iff.mp (String.append_eq_empty_iff.mp empty).1).2 (by decide)

def Listed (above : String) (value : Json) : Prop :=
  ∀ pointer, pointer ∈ leaves above value ↔ ∃ path, LeafUnder value path ∧ LeadsTo above pointer path

theorem mem_membersLeaves {above : String} (members : List (String × Json))
    (each : ∀ member ∈ members, Listed (above ++ "/" ++ escapePointerToken member.1) member.2)
    (pointer : String) :
    pointer ∈ leaves.membersLeaves above members ↔
      ∃ path, LeafAt members path ∧ LeadsTo above pointer path := by
  induction members with
  | nil => simp [leaves.membersLeaves, leafAt_nil]
  | cons member rest ih =>
      obtain ⟨key, value⟩ := member
      have here : Listed (above ++ "/" ++ escapePointerToken key) value := each (key, value) List.mem_cons_self
      have later := ih fun other held => each other (List.mem_cons_of_mem _ held)
      rw [leaves.membersLeaves, List.mem_append, here, later]
      simp only [leafAt_cons_iff, leadsTo_cons]
      constructor
      · intro found
        obtain ⟨path, leaf, leads⟩ | ⟨path, leaf, leads⟩ := found
        · exact ⟨key :: path, Or.inl ⟨path, rfl, leaf⟩, leads⟩
        · exact ⟨path, Or.inr leaf, leads⟩
      · intro found
        obtain ⟨path, ⟨below, rfl, under⟩ | inRest, leads⟩ := found
        · exact Or.inl ⟨below, under, leads⟩
        · exact Or.inr ⟨path, inRest, leads⟩

theorem listed_of_inside : ∀ (above : String) (value : Json), above ≠ "" → Listed above value := by
  apply leaves.induct (fun above members =>
    ∀ member ∈ members, Listed (above ++ "/" ++ escapePointerToken member.1) member.2)
  · intro inside
    contradiction
  · intro above _ inside pointer
    apply mem_leaves_of_leaf (by simp [leaves, inside]) rfl
    intro members path isObject
    cases isObject
    exact leafAt_nil
  · intro above member rest each _ pointer
    rw [leaves, mem_membersLeaves _ each]
    constructor
    · intro found
      obtain ⟨path, leaf, leads⟩ := found
      exact ⟨path, Or.inr ⟨_, rfl, leaf⟩, leads⟩
    · intro found
      obtain ⟨path, ⟨bare, _⟩ | ⟨members, isObject, leaf⟩, leads⟩ := found
      · contradiction
      · cases isObject
        exact ⟨path, leaf, leads⟩
  · intro value _ _ inside
    contradiction
  · intro value above _ notEmpty notObject inside pointer
    have bare : isLeaf value = true := by
      cases value with
      | object members =>
          cases members with
          | nil => rfl
          | cons member rest => exact absurd rfl (notObject member rest)
      | _ => rfl
    apply mem_leaves_of_leaf _ bare
    · intro members path isObject
      cases members with
      | nil => exact leafAt_nil
      | cons member rest => exact absurd isObject (notObject member rest)
    · rw [leaves, if_neg inside]
      · exact notEmpty
      · exact notObject
  · intro above member held
    contradiction
  · intro above key value rest ihValue ihRest member held
    obtain rfl | later := List.mem_cons.mp held
    · exact ihValue (pointer_ne_empty above key)
    · exact ihRest member later

theorem mem_dataLeafPointers (members : List (String × Json)) (pointer : String) :
    pointer ∈ dataLeafPointers (some (.object members)) ↔
      ∃ path, LeafAt members path ∧ LeadsTo "" pointer path := by
  have each : ∀ member ∈ members, Listed ("" ++ "/" ++ escapePointerToken member.1) member.2 :=
    fun member _ => listed_of_inside _ _ (pointer_ne_empty "" member.1)
  rw [dataLeafPointers, List.mem_mergeSort, ← mem_membersLeaves members each]
  cases members with
  | nil => simp [leaves, leaves.membersLeaves]
  | cons member rest => rw [leaves]

theorem checkRunnerAuthority_eq_ok_iff {rec : Record} {options : AppendOptions} {manifest : RunnerManifest}
    (given : options.manifest = some manifest) :
    checkRunnerAuthority rec options = .ok () ↔
      rec.recordType = .evidence ∧ rec.authority = .observed ∧
        (manifest.actorID ≠ "" ∧ manifest.actorID = rec.origin.actorID) ∧
        ∀ pointer ∈ dataLeafPointers rec.data, manifest.covers pointer = true := by
  by_cases evidences : rec.recordType = .evidence
  · by_cases observes : rec.authority = .observed
    · by_cases foreign : manifest.actorID = "" ∨ manifest.actorID ≠ rec.origin.actorID
      · have notOwn : ¬ (manifest.actorID ≠ "" ∧ manifest.actorID = rec.origin.actorID) := by
          rw [not_and_or, not_not]
          exact foreign
        simp [checkRunnerAuthority, evidences, observes, given, foreign, notOwn]
      · have own : manifest.actorID ≠ "" ∧ manifest.actorID = rec.origin.actorID := by
          rw [not_or, not_not] at foreign
          exact foreign
        cases missing : (dataLeafPointers rec.data).find? fun pointer => !manifest.covers pointer with
        | none =>
            have covered : ∀ pointer ∈ dataLeafPointers rec.data, manifest.covers pointer = true := by
              simpa using List.find?_eq_none.mp missing
            have accepted : checkRunnerAuthority rec options = .ok () := by
              simp [checkRunnerAuthority, evidences, observes, given, foreign, missing]
            exact iff_of_true accepted ⟨evidences, observes, own, covered⟩
        | some pointer =>
            have listed := List.mem_of_find?_eq_some missing
            have uncovered : manifest.covers pointer = false := by
              simpa using List.find?_some missing
            have refused : checkRunnerAuthority rec options ≠ .ok () := by
              simp [checkRunnerAuthority, evidences, observes, given, foreign, missing]
            apply iff_of_false refused
            intro admitted
            have isCovered := admitted.2.2.2 pointer listed
            rw [uncovered] at isCovered
            contradiction
    · simp [checkRunnerAuthority, evidences, observes]
  · simp [checkRunnerAuthority, evidences]

/-- Observed evidence of the manifest's own runner is admitted exactly when every leaf of its payload
lies at or under a declared field. -/
theorem runner_admitted_iff {rec : Record} {options : AppendOptions} {manifest : RunnerManifest}
    {members : List (String × Json)} (given : options.manifest = some manifest)
    (valid : ∀ declared ∈ manifest.observableFields, (parsePointer declared).isSome = true)
    (payload : rec.data = some (.object members)) :
    checkRunnerAuthority rec options = .ok () ↔
      rec.recordType = .evidence ∧ rec.authority = .observed ∧
        (manifest.actorID ≠ "" ∧ manifest.actorID = rec.origin.actorID) ∧
        ∀ path, LeafAt members path → manifest.declares path := by
  have fields : (∀ pointer ∈ dataLeafPointers rec.data, manifest.covers pointer = true) ↔
      ∀ path, LeafAt members path → manifest.declares path := by
    rw [payload]
    simp only [mem_dataLeafPointers]
    constructor
    · intro covered path leaf
      have leads : LeadsTo "" (String.ofList (Paths.join '/' (pointerTokens path))) path := by
        simp [LeadsTo]
      exact (covers_iff valid (by simp)).mp (covered _ ⟨path, leaf, leads⟩)
    · intro declared pointer found
      obtain ⟨path, leaf, leads⟩ := found
      exact (covers_iff valid (by simpa [LeadsTo] using leads)).mpr (declared path leaf)
  rw [checkRunnerAuthority_eq_ok_iff given, fields]

/-- Evidence on a key that holds a slash, under a declared field that escapes it. -/
def measuredPart : Record :=
  { id := "ledger_1", recordType := .evidence, authority := .observed
    origin := { kind := .runner, actorID := "runner" }
    data := some (.object [("a/b", .object [("~", .number "1")])]) }

def partManifest : RunnerManifest := { actorID := "runner", observableFields := ["/a~1b"] }

theorem measuredPart_admitted :
    checkRunnerAuthority measuredPart { manifest := some partManifest } = .ok () := by
  have valid : ∀ declared ∈ partManifest.observableFields, (parsePointer declared).isSome = true := by
    decide +kernel
  apply (runner_admitted_iff rfl valid rfl).mpr
  refine ⟨rfl, rfl, by decide, ?_⟩
  intro path leaf
  have first : ∃ rest, path = "a/b" :: rest := by
    cases leaf with
    | leaf held _ =>
        cases List.mem_singleton.mp held
        exact ⟨_, rfl⟩
    | under held _ =>
        cases List.mem_singleton.mp held
        exact ⟨_, rfl⟩
  obtain ⟨rest, rfl⟩ := first
  exact ⟨"/a~1b", List.mem_singleton_self _, ["a/b"], by decide +kernel, ⟨rest, rfl⟩⟩

end CultureNodes.Ledger
