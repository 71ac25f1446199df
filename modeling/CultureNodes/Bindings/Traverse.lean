import CultureNodes.Contracts.Canonical
import CultureNodes.Library.Float64
import CultureNodes.Library.JsonGrammar

/-!
The part of a document that a pointer addresses, as text. The engine and the worker decode the document
without keeping its numbers, walk into it, and encode what they reach; beside this stands the evaluation of
RFC 6901 with numbers as they are written. Documents are Unicode text, and a surrogate without its pair
reads as the replacement character.
-/

namespace CultureNodes.Bindings.RawMessage

open Contracts (Tree toMaps treeOf writeValue sorted last mapValues)
open JsonText (Spelled Spells depth maxNestingDepth)

/-- The value with its numbers as doubles, each given by the numeral that is written for it. -/
def doubles : Json → Json
  | .number numeral => .number (String.ofList (Numeral.throughFloat64 numeral.toList))
  | .array elements => .array (elementDoubles elements)
  | .object members => .object (memberDoubles members)
  | value => value
where
  elementDoubles : List Json → List Json
    | [] => []
    | element :: rest => doubles element :: elementDoubles rest
  memberDoubles : List (String × Json) → List (String × Json)
    | [] => []
    | (name, value) :: rest => (name, doubles value) :: memberDoubles rest

/-- Every number is in the range of doubles, also one that a later member replaces. -/
def inRange : Json → Bool
  | .number numeral => Float64.inRange (Numeral.magnitude (Numeral.split numeral.toList).2)
  | .array elements => elementsInRange elements
  | .object members => membersInRange members
  | _ => true
where
  elementsInRange : List Json → Bool
    | [] => true
    | element :: rest => inRange element && elementsInRange rest
  membersInRange : List (String × Json) → Bool
    | [] => true
    | (_, value) :: rest => inRange value && membersInRange rest

/-- What the decoder makes of a document when it is not told to keep numbers. -/
def unmarshal (document : String) : Option Json :=
  (JsonText.parse document.toList).bind fun value =>
    if inRange value then some (toMaps (doubles value)) else none

/-- The encoder also writes these three by their codes. -/
def htmlChar (char : Char) : List Char :=
  if char = '<' then ['\\', 'u', '0', '0', '3', 'c']
  else if char = '>' then ['\\', 'u', '0', '0', '3', 'e']
  else if char = '&' then ['\\', 'u', '0', '0', '2', '6']
  else [char]

def marshal (value : Json) : String := String.ofList ((writeValue value).flatMap htmlChar)

inductive TraverseError where
  | notJSON
  | absent (part : Json.Absent)
deriving DecidableEq, Repr

def jsonOrNull (raw : String) : String := if raw = "" then "null" else raw

def traverse (document : String) (tokens : List String) : Except TraverseError String :=
  if tokens = [] then .ok (jsonOrNull document)
  else
    match unmarshal (jsonOrNull document) with
    | none => .error .notJSON
    | some value =>
        match Json.walk [] value tokens with
        | .ok part => .ok (marshal part)
        | .error part => .error (.absent part)

/-- The engine's copy of it. -/
def engineTraverse : String → List String → Except TraverseError String := traverse

/-- The worker's copy of it. -/
def workerTraverse : String → List String → Except TraverseError String := traverse

/-- An array index: a zero, or digits that do not begin with one. -/
def arrayIndex (token : String) : Option Nat :=
  match token.toUTF8.data.toList with
  | [48] => some 0
  | 48 :: _ => none
  | digits => Decimal.parseNat digits

/-- The member of a name, which must be the only one of it. -/
def onlyMember (members : List (String × Json)) (name : String) : Option Json :=
  match members.filter fun member => member.1 = name with
  | [member] => some member.2
  | _ => none

/-- Go into a value along the tokens, one step for each. -/
def follow (step : String → Json → Option Json) (value : Json) : List String → Option Json
  | [] => some value
  | token :: rest => (step token value).bind fun next => follow step next rest

def evaluateToken (token : String) : Json → Option Json
  | .object members => onlyMember members token
  | .array elements => (arrayIndex token).bind (elements[·]?)
  | _ => none

/-- The value a pointer references in a value. -/
def evaluate : Json → List String → Option Json := follow evaluateToken

/-- A value with exact numbers and its objects as maps. -/
inductive Datum where
  | null
  | bool (value : Bool)
  | number (value : ℚ)
  | string (text : String)
  | array (elements : List Datum)
  | object (members : String → Option Datum)

def measure : Tree → Datum
  | .null => .null
  | .bool value => .bool value
  | .number numeral => .number (Numeral.value numeral.toList)
  | .string text => .string text
  | .array elements => .array (measureElements elements)
  | .object members => .object fun name => measureMember (members name)
where
  measureElements : List Tree → List Datum
    | [] => []
    | element :: rest => measure element :: measureElements rest
  measureMember : Option Tree → Option Datum
    | none => none
    | some value => some (measure value)

def datum (value : Json) : Datum := measure (treeOf value)

/-- A document and its value. Its length is a machine integer. -/
structure Document where
  text : String
  value : Json
  spelled : Spelled text.toList value
  sized : text.length < 2 ^ 63

/-- A traverse returns what the evaluation does, and fails where that fails. -/
def Agrees (traverse : String → List String → Except TraverseError String) (document : Document)
    (tokens : List String) : Prop :=
  match evaluate document.value tokens with
  | none => ∃ error, traverse document.text tokens = .error error
  | some part => ∃ text read, traverse document.text tokens = .ok text ∧ Spelled text.toList read ∧
      datum read = datum part

/-- What the walk takes for a step: the last member of a name, and any text that reads as an index. -/
def stepToken (token : String) : Json → Option Json
  | .object members => last members token
  | .array elements => (Json.index? token).bind (elements[·]?)
  | _ => none

def reached : Json → List String → Option Json := follow stepToken

/-- The decoder reads a value: it does not nest too deep, and its numbers are in the range of doubles. -/
def Readable (value : Json) : Prop := depth value ≤ maxNestingDepth ∧ inRange value = true

/-- A numeral that is the shortest decimal of its double. -/
def Survives (numeral : String) : Prop :=
  (Float64.rewritten (Numeral.magnitude (Numeral.split numeral.toList).2)).value =
    Numeral.magnitude (Numeral.split numeral.toList).2

/-- Every number of the value survives; of the members of one name the last one counts. -/
inductive Faithful : Json → Prop
  | null : Faithful .null
  | bool (value : Bool) : Faithful (.bool value)
  | number {numeral : String} (survives : Survives numeral) : Faithful (.number numeral)
  | string (text : String) : Faithful (.string text)
  | array {elements : List Json} (each : ∀ element ∈ elements, Faithful element) : Faithful (.array elements)
  | object {members : List (String × Json)}
      (each : ∀ name value, last members name = some value → Faithful value) : Faithful (.object members)

/-- The decoder reads the document and what it addresses survives it; and what only the walk finds, the
decoder refuses. -/
def Kept (value : Json) (tokens : List String) : Prop :=
  (∀ part, evaluate value tokens = some part → Readable value ∧ Faithful part) ∧
    (evaluate value tokens = none → Readable value → reached value tokens = none)

theorem elementDoubles_eq (elements : List Json) : doubles.elementDoubles elements = elements.map doubles := by
  induction elements with
  | nil => rfl
  | cons element rest ih => rw [doubles.elementDoubles, ih, List.map_cons]

theorem memberDoubles_eq (members : List (String × Json)) :
    doubles.memberDoubles members = mapValues doubles members := by
  induction members with
  | nil => rfl
  | cons member rest ih => rw [doubles.memberDoubles, ih, mapValues, mapValues, List.map_cons]

theorem measureElements_eq (elements : List Tree) :
    measure.measureElements elements = elements.map measure := by
  induction elements with
  | nil => rfl
  | cons element rest ih => rw [measure.measureElements, ih, List.map_cons]

theorem measureMember_eq (member : Option Tree) : measure.measureMember member = member.map measure := by
  cases member <;> rfl

theorem datum_array (elements : List Json) : datum (.array elements) = .array (elements.map datum) := by
  rw [datum, treeOf, measure, Contracts.elementTrees_eq, measureElements_eq, List.map_map]
  rfl

theorem datum_object (members : List (String × Json)) :
    datum (.object members) = .object fun name => (last members name).map datum := by
  rw [datum, treeOf, measure, Contracts.memberTrees_eq]
  congr 1
  funext name
  rw [measureMember_eq, Contracts.last_mapValues, Option.map_map]
  rfl

/-- Doubles stand for the same value exactly where every number survives. -/
theorem datum_doubles_iff (value : Json) : datum (doubles value) = datum value ↔ Faithful value := by
  induction value using Json.induction with
  | null => exact ⟨fun _ => .null, fun _ => rfl⟩
  | bool value => exact ⟨fun _ => .bool value, fun _ => rfl⟩
  | string text => exact ⟨fun _ => .string text, fun _ => rfl⟩
  | number numeral =>
      have survives := Numeral.value_throughFloat64_iff numeral.toList
      simp only [doubles, datum, treeOf, measure, String.toList_ofList, Datum.number.injEq]
      rw [survives]
      constructor
      · exact fun same => .number same
      · rintro ⟨⟩
        assumption
  | array elements ih =>
      rw [doubles, elementDoubles_eq, datum_array, datum_array, Datum.array.injEq, List.map_map,
        List.map_inj_left]
      constructor
      · exact fun same => .array fun element held => (ih element held).mp (same element held)
      · rintro (_ | _ | _ | _ | each | _)
        exact fun element held => (ih element held).mpr (each element held)
  | object members ih =>
      rw [doubles, memberDoubles_eq, datum_object, datum_object, Datum.object.injEq]
      constructor
      · intro same
        refine .object fun name value found => (ih _ (Contracts.mem_of_last found)).mp ?_
        have here := congrFun same name
        rw [Contracts.last_mapValues, found] at here
        exact Option.some.inj here
      · rintro (_ | _ | _ | _ | _ | each)
        funext name
        rw [Contracts.last_mapValues, Option.map_map]
        cases found : last members name with
        | none => rfl
        | some value => exact congrArg some ((ih _ (Contracts.mem_of_last found)).mpr (each name value found))

/-- Sorting and dropping members that are replaced does not change what a value stands for. -/
theorem datum_sorted_toMaps (value : Json) : datum (sorted (toMaps value)) = datum value := by
  rw [datum, (Contracts.keyed_toMaps value).treeOf_sorted, Contracts.treeOf_toMaps, datum]

theorem lookup_eq_last {β : Type} {members : List (String × β)} (distinct : (members.map Prod.fst).Nodup)
    (name : String) : members.lookup name = last members name := by
  have reversed : last members.reverse name = last members name :=
    Contracts.last_congr distinct members.reverse_perm name
  rw [← reversed, last, List.reverse_reverse]

theorem step_decoded (along : List String) (token : String) (value : Json) :
    (Json.step along token (toMaps (doubles value))).toOption =
      (stepToken token value).map fun next => toMaps (doubles next) := by
  cases value with
  | array elements =>
      rw [doubles, elementDoubles_eq, toMaps, Contracts.elementMaps_eq, List.map_map, Json.step, stepToken]
      cases Json.index? token with
      | none => rfl
      | some index =>
          simp only [Option.bind_some, List.getElem?_map]
          cases elements[index]? with
          | none => rfl
          | some element => rfl
  | object members =>
      have found : ((mapValues toMaps (mapValues doubles members)).foldl Contracts.put []).lookup token =
          (last members token).map fun next => toMaps (doubles next) := by
        rw [lookup_eq_last (Contracts.foldl_put_distinct _ [] List.nodup_nil), Contracts.last_foldl_put,
          List.nil_append, Contracts.last_mapValues, Contracts.last_mapValues, Option.map_map]
        rfl
      rw [doubles, memberDoubles_eq, toMaps, Contracts.memberMaps_eq, Json.step, found, stepToken]
      cases last members token with
      | none => rfl
      | some next => rfl
  | _ => rfl

theorem walk_decoded (along : List String) (value : Json) (tokens : List String) :
    (Json.walk along (toMaps (doubles value)) tokens).toOption =
      (reached value tokens).map fun part => toMaps (doubles part) := by
  induction tokens generalizing along value with
  | nil => rfl
  | cons token rest ih =>
      have stepped := step_decoded along token value
      rw [Json.walk, reached, follow]
      cases found : stepToken token value with
      | none =>
          rw [found] at stepped
          cases result : Json.step along token (toMaps (doubles value)) with
          | error absent => rfl
          | ok next =>
              rw [result] at stepped
              contradiction
      | some next =>
          rw [found] at stepped
          cases result : Json.step along token (toMaps (doubles value)) with
          | error absent =>
              rw [result] at stepped
              contradiction
          | ok decoded =>
              rw [result] at stepped
              cases stepped
              exact ih (along ++ [token]) next

theorem mem_of_stepToken {token : String} {value next : Json} (stepped : stepToken token value = some next) :
    (∃ members, value = .object members ∧ (token, next) ∈ members) ∨
      ∃ elements, value = .array elements ∧ next ∈ elements := by
  cases value with
  | object members => exact Or.inl ⟨members, rfl, Contracts.mem_of_last stepped⟩
  | array elements =>
      obtain ⟨index, _, found⟩ := Option.bind_eq_some_iff.mp stepped
      exact Or.inr ⟨elements, rfl, List.mem_of_getElem? found⟩
  | _ => contradiction

/-- What is reached nests no deeper than where the walk began. -/
theorem fits_of_reached {limit : Nat} {value part : Json} {tokens : List String}
    (fits : JsonText.Fits limit value) (found : reached value tokens = some part) :
    JsonText.Fits limit part := by
  induction tokens generalizing limit value with
  | nil =>
      cases found
      exact fits
  | cons token rest ih =>
      obtain ⟨next, stepped, onward⟩ := Option.bind_eq_some_iff.mp found
      obtain ⟨members, rfl, held⟩ | ⟨elements, rfl, held⟩ := mem_of_stepToken stepped
      · cases fits with
        | object each => exact (ih (each _ held) onward).mono (Nat.le_succ _)
      · cases fits with
        | array each => exact (ih (each _ held) onward).mono (Nat.le_succ _)

/-- The value is spelled by fewer tokens than a machine integer counts. -/
def Sized (value : Json) : Prop := ∃ tokens, Spells tokens value ∧ tokens.length < 2 ^ 63

theorem Document.valueSized (document : Document) : Sized document.value := by
  obtain ⟨tokens, read, spells⟩ := document.spelled
  have fewer := JsonText.length_of_lex read
  rw [String.length_toList] at fewer
  exact ⟨tokens, spells, Nat.lt_of_le_of_lt fewer document.sized⟩

theorem Sized.length_lt {elements : List Json} (sized : Sized (.array elements)) : elements.length < 2 ^ 63 := by
  obtain ⟨tokens, spells, small⟩ := sized
  cases spells with
  | @array parts each =>
      have parted := JsonText.length_le_separated JsonText.Token.comma (parts.map Prod.fst)
      simp only [List.length_cons, List.length_append, List.length_nil, List.length_map] at parted small ⊢
      omega

theorem Sized.element {elements : List Json} {element : Json} (sized : Sized (.array elements))
    (held : element ∈ elements) : Sized element := by
  obtain ⟨tokens, spells, small⟩ := sized
  cases spells with
  | @array parts each =>
      obtain ⟨part, isPart, rfl⟩ := List.mem_map.mp held
      have shorter := @JsonText.part_le_separated _ JsonText.Token.comma _ _
        (List.mem_map_of_mem (f := Prod.fst) isPart)
      simp only [List.length_cons, List.length_append] at small
      exact ⟨part.1, each part isPart, by omega⟩

theorem Sized.member {members : List (String × Json)} {name : String} {value : Json}
    (sized : Sized (.object members)) (held : (name, value) ∈ members) : Sized value := by
  obtain ⟨tokens, spells, small⟩ := sized
  cases spells with
  | @object spelled named each =>
      obtain ⟨member, isMember, isEntry⟩ := List.mem_map.mp held
      cases isEntry
      have shorter := @JsonText.part_le_separated _ JsonText.Token.comma _ _
        (List.mem_map_of_mem (f := JsonText.Member.spelling) isMember)
      simp only [JsonText.Member.spelling, List.length_cons, List.length_append] at shorter small
      exact ⟨member.tokens, each member isMember, by omega⟩

theorem index?_of_arrayIndex {token : String} {index : Nat} (read : arrayIndex token = some index)
    (small : index < 2 ^ 63) : Json.index? token = some index := by
  have parsed : Decimal.parseNat token.toUTF8.data.toList = some index := by
    unfold arrayIndex at read
    split at read
    · rename_i isZero
      cases read
      rw [isZero]
      rfl
    · contradiction
    · exact read
  have digits : ∀ byte ∈ token.toUTF8.data.toList, Decimal.isDigit byte = true := by
    unfold Decimal.parseNat at parsed
    split at parsed
    · rename_i listed
      exact List.all_eq_true.mp listed.2
    · contradiction
  have whole : (Int64.ofNat index).toInt = index := by
    rw [← Int64.ofInt_eq_ofNat]
    exact Int64.toInt_ofInt_of_le (by omega) (by omega)
  have unsigned : Decimal.parseInt token.toUTF8.data.toList = some (Int64.ofNat index) := by
    unfold Decimal.parseInt
    split
    · rename_i signed
      rw [signed, List.forall_mem_cons] at digits
      exact absurd digits.1 (by decide)
    · rename_i signed
      rw [signed, List.forall_mem_cons] at digits
      exact absurd digits.1 (by decide)
    · rw [parsed, Option.bind_some, if_pos small]
  rw [Json.index?, unsigned, Option.bind_some, whole, if_pos (Int.natCast_nonneg index), Int.toNat_natCast]

theorem last_eq_getLast? (members : List (String × Json)) (name : String) :
    last members name = ((members.filter fun member => member.1 = name).getLast?).map Prod.snd := by
  rw [last, ← List.head?_reverse, ← List.filter_reverse]
  generalize members.reverse = reversed
  induction reversed with
  | nil => rfl
  | cons member rest ih =>
      obtain ⟨key, value⟩ := member
      rw [List.lookup_cons]
      by_cases here : key = name
      · simp [here]
      · rw [List.filter_cons_of_neg (by simpa using here), beq_eq_false_iff_ne.mpr (Ne.symm here)]
        exact ih

theorem last_of_onlyMember {members : List (String × Json)} {name : String} {value : Json}
    (only : onlyMember members name = some value) : last members name = some value := by
  rw [last_eq_getLast?]
  unfold onlyMember at only
  split at only
  · rename_i member isOnly
    rw [isOnly]
    exact only
  · contradiction

theorem stepToken_of_evaluateToken {token : String} {value next : Json} (sized : Sized value)
    (stepped : evaluateToken token value = some next) : stepToken token value = some next := by
  cases value with
  | object members => exact last_of_onlyMember stepped
  | array elements =>
      obtain ⟨index, read, found⟩ := Option.bind_eq_some_iff.mp stepped
      obtain ⟨inside, _⟩ := List.getElem?_eq_some_iff.mp found
      have small := Nat.lt_trans inside sized.length_lt
      rw [stepToken, index?_of_arrayIndex read small]
      exact found
  | _ => contradiction

/-- The walk reaches what a pointer references. -/
theorem reached_of_evaluate {value part : Json} {tokens : List String} (sized : Sized value)
    (found : evaluate value tokens = some part) : reached value tokens = some part := by
  induction tokens generalizing value with
  | nil => exact found
  | cons token rest ih =>
      obtain ⟨next, stepped, onward⟩ := Option.bind_eq_some_iff.mp found
      have walked := stepToken_of_evaluateToken sized stepped
      have nextSized : Sized next := by
        obtain ⟨members, rfl, held⟩ | ⟨elements, rfl, held⟩ := mem_of_stepToken walked
        · exact sized.member held
        · exact sized.element held
      rw [reached, follow, walked]
      exact ih nextSized onward

theorem fits_doubles {limit : Nat} {value : Json} (fits : JsonText.Fits limit value) :
    JsonText.Fits limit (doubles value) := by
  induction fits with
  | null limit => exact .null limit
  | bool limit value => exact .bool limit value
  | @number limit numeral whole =>
      refine .number limit ?_
      rw [String.toList_ofList]
      exact JsonText.whole_of_isNumeral (Numeral.isNumeral_throughFloat64 _)
  | string limit text => exact .string limit text
  | array each ih =>
      rw [doubles, elementDoubles_eq]
      apply JsonText.Fits.array
      intro element held
      obtain ⟨other, inside, rfl⟩ := List.mem_map.mp held
      exact ih other inside
  | object each ih =>
      rw [doubles, memberDoubles_eq]
      apply JsonText.Fits.object
      intro member held
      obtain ⟨value, inside, isValue⟩ := Contracts.mem_mapValues held
      rw [← isValue]
      exact ih _ inside

def htmlToken : JsonText.Token → JsonText.Token
  | .string raw => .string (raw.flatMap htmlChar)
  | token => token

/-- None of the three that get a code. -/
def Ordinary (char : Char) : Prop := char ≠ '<' ∧ char ≠ '>' ∧ char ≠ '&'

instance decidableOrdinary (char : Char) : Decidable (Ordinary char) :=
  inferInstanceAs (Decidable (_ ∧ _ ∧ _))

theorem htmlChar_ordinary {char : Char} (ordinary : Ordinary char) : htmlChar char = [char] := by
  rw [htmlChar, if_neg ordinary.1, if_neg ordinary.2.1, if_neg ordinary.2.2]

theorem flatMap_ordinary {chars : List Char} (ordinary : ∀ char ∈ chars, Ordinary char) :
    chars.flatMap htmlChar = chars := by
  induction chars with
  | nil => rfl
  | cons char rest ih =>
      rw [List.forall_mem_cons] at ordinary
      rw [List.flatMap_cons, htmlChar_ordinary ordinary.1, ih ordinary.2]
      rfl

theorem ordinary_of_numeralChar {char : Char} (inside : JsonText.numeralChar char = true) : Ordinary char := by
  refine ⟨?_, ?_, ?_⟩
  all_goals
    rintro rfl
    contradiction

theorem hexDigit_ordinary : ∀ digit < 16, Ordinary (JsonText.hexDigit digit) := by decide

theorem simpleEscape_ordinary {letter char : Char} (known : JsonText.simpleEscape letter = some char) :
    Ordinary letter := by
  refine ⟨?_, ?_, ?_⟩
  all_goals
    rintro rfl
    contradiction

/-- Writing the three characters by their codes leaves every character one of the ways it may be written. -/
theorem quoted_html (char : Char) : JsonText.Quoted char ((JsonText.quoteChar char).flatMap htmlChar) := by
  by_cases ordinary : Ordinary char
  · have quoted := JsonText.quoted_quoteChar char
    generalize JsonText.quoteChar char = written at quoted
    have same : written.flatMap htmlChar = written := by
      apply flatMap_ordinary
      cases quoted with
      | simple stands =>
          simp only [List.forall_mem_cons, List.not_mem_nil, false_imp_iff, implies_true, and_true]
          exact ⟨by decide, simpleEscape_ordinary stands⟩
      | code small _ _ =>
          obtain ⟨first, second, third, fourth⟩ := small
          simp only [List.forall_mem_cons, List.not_mem_nil, false_imp_iff, implies_true, and_true]
          exact ⟨by decide, by decide, hexDigit_ordinary _ first, hexDigit_ordinary _ second,
            hexDigit_ordinary _ third, hexDigit_ordinary _ fourth⟩
      | plain _ _ _ =>
          intro other held
          rw [List.mem_singleton.mp held]
          exact ordinary
    rw [same]
    exact quoted
  · have special : char = '<' ∨ char = '>' ∨ char = '&' := by
      by_contra none
      push Not at none
      exact ordinary none
    obtain rfl | rfl | rfl := special
    · exact .code (a := 0) (b := 0) (c := 3) (d := 12) (by omega) (by decide) (by decide)
    · exact .code (a := 0) (b := 0) (c := 3) (d := 14) (by omega) (by decide) (by decide)
    · exact .code (a := 0) (b := 0) (c := 2) (d := 6) (by omega) (by decide) (by decide)

theorem html_quote (text : List Char) :
    (JsonText.quote text).flatMap htmlChar =
      text.flatMap fun char => (JsonText.quoteChar char).flatMap htmlChar := by
  rw [JsonText.quote, List.flatMap_assoc]

theorem unquote_html (text : List Char) :
    JsonText.unquote ((JsonText.quote text).flatMap htmlChar) = some text := by
  rw [html_quote]
  exact JsonText.unquote_flatMap quoted_html text

theorem enclosed_html (text : List Char) : JsonText.Enclosed ((JsonText.quote text).flatMap htmlChar) := by
  rw [html_quote]
  exact JsonText.enclosed_flatMap quoted_html text

theorem map_separated {α β : Type} (f : α → β) (separator : α) (parts : List (List α)) :
    (JsonText.separated separator parts).map f = JsonText.separated (f separator) (parts.map (List.map f)) := by
  cases parts with
  | nil => rfl
  | cons first rest => simp [JsonText.separated, List.map_flatMap, List.flatMap_map]

theorem spells_html (value : Json) : Spells ((JsonText.tokensOf value).map htmlToken) value := by
  induction value using Json.induction with
  | null => exact .null
  | bool value => exact .bool value
  | number numeral =>
      have spells := Spells.number numeral.toList
      rw [String.ofList_toList] at spells
      exact spells
  | string text =>
      have spells := Spells.string (unquote_html text.toList)
      rw [String.ofList_toList] at spells
      exact spells
  | array elements ih =>
      have spells := @Spells.array (elements.map fun element =>
        ((JsonText.tokensOf element).map htmlToken, element))
      rw [List.map_map, List.map_map, List.forall_mem_map] at spells
      rw [JsonText.tokensOf, JsonText.elementTokens_eq, List.map_cons, List.map_append, map_separated, List.map_map]
      simpa [Function.comp_def, htmlToken] using spells ih
  | object members ih =>
      have spells := @Spells.object (members.map fun member =>
        ⟨(JsonText.quote member.1.toList).flatMap htmlChar, member.1.toList,
          (JsonText.tokensOf member.2).map htmlToken, member.2⟩)
      rw [List.map_map, List.map_map, List.forall_mem_map, List.forall_mem_map] at spells
      rw [JsonText.tokensOf, JsonText.memberTokens_eq, List.map_cons, List.map_append, map_separated, List.map_map]
      simpa [Function.comp_def, JsonText.Member.entry, JsonText.Member.spelling, JsonText.memberTokens,
        htmlToken] using spells (fun member _ => unquote_html member.1.toList) ih

theorem quoted_of_tokensOf {value : Json} {raw : List Char} (held : .string raw ∈ JsonText.tokensOf value) :
    ∃ text, raw = JsonText.quote text := by
  induction value using Json.induction with
  | string text =>
      cases List.mem_singleton.mp held
      exact ⟨text.toList, rfl⟩
  | array elements ih =>
      simp only [JsonText.tokensOf, JsonText.elementTokens_eq, List.mem_cons, List.mem_append, reduceCtorEq,
        List.not_mem_nil, or_false, false_or] at held
      obtain isComma | ⟨part, listed, inside⟩ := JsonText.mem_separated held
      · cases isComma
      · obtain ⟨element, isElement, rfl⟩ := List.mem_map.mp listed
        exact ih element isElement inside
  | object members ih =>
      simp only [JsonText.tokensOf, JsonText.memberTokens_eq, List.mem_cons, List.mem_append, reduceCtorEq,
        List.not_mem_nil, or_false, false_or] at held
      obtain isComma | ⟨part, listed, inside⟩ := JsonText.mem_separated held
      · cases isComma
      · obtain ⟨member, isMember, rfl⟩ := List.mem_map.mp listed
        simp only [JsonText.memberTokens, List.mem_cons, reduceCtorEq, false_or] at inside
        obtain isName | inValue := inside
        · cases isName
          exact ⟨member.1.toList, rfl⟩
        · exact ih member isMember inValue
  | _ => simp [JsonText.tokensOf] at held

theorem whole_html {limit : Nat} {value : Json} (fits : JsonText.Fits limit value) :
    ∀ token ∈ (JsonText.tokensOf value).map htmlToken, token.Whole := by
  intro token held
  obtain ⟨original, inside, rfl⟩ := List.mem_map.mp held
  have whole := fits.whole original inside
  cases original with
  | string raw =>
      obtain ⟨text, rfl⟩ := quoted_of_tokensOf inside
      exact enclosed_html text
  | _ => exact whole

theorem render_html {tokens : List JsonText.Token} (whole : ∀ token ∈ tokens, token.Whole) :
    (JsonText.render tokens).flatMap htmlChar = JsonText.render (tokens.map htmlToken) := by
  rw [JsonText.render, JsonText.render, List.flatMap_assoc, List.flatMap_map]
  apply List.flatMap_congr
  intro token held
  cases token with
  | string raw => simp [JsonText.Token.render, htmlToken, htmlChar]
  | number numeral =>
      apply flatMap_ordinary
      intro char inside
      exact ordinary_of_numeralChar (JsonText.isNumeral_chars (JsonText.isNumeral_of_whole (whole _ held)) char inside)
  | bool value => cases value <;> rfl
  | _ => rfl

/-- The encoder writes a document of the value, with the members of its objects sorted. -/
theorem marshal_spelled {value : Json} (fits : JsonText.Fits maxNestingDepth value) :
    Spelled (marshal value).toList (sorted value) ∧
      JsonText.parse (marshal value).toList = some (sorted value) := by
  have sortedFits := Contracts.Fits.sorted fits
  have spells := spells_html (sorted value)
  have machine := spells.parseTokens_eq
  rw [if_pos sortedFits.depth_le] at machine
  have written : (marshal value).toList =
      JsonText.render ((JsonText.tokensOf (sorted value)).map htmlToken) := by
    rw [marshal, String.toList_ofList, Contracts.writeValue_eq, render_html sortedFits.whole]
  have read := JsonText.lex_render (whole_html sortedFits) (JsonText.apart_of_parseTokens machine)
  rw [written]
  refine ⟨⟨_, read, spells⟩, ?_⟩
  rw [JsonText.parse, read]
  exact machine

theorem Document.text_ne (document : Document) : document.text ≠ "" := by
  intro empty
  obtain ⟨tokens, read, spells⟩ := document.spelled
  rw [empty] at read
  cases read
  cases spells

theorem Document.jsonOrNull_eq (document : Document) : jsonOrNull document.text = document.text :=
  if_neg document.text_ne

theorem Document.unmarshal_readable (document : Document) (readable : Readable document.value) :
    unmarshal document.text = some (toMaps (doubles document.value)) := by
  rw [unmarshal, document.spelled.parse_eq, if_pos readable.1, Option.bind_some, if_pos readable.2]

theorem Document.unmarshal_unreadable (document : Document) (unreadable : ¬ Readable document.value) :
    unmarshal document.text = none := by
  rw [unmarshal, document.spelled.parse_eq]
  by_cases shallow : depth document.value ≤ maxNestingDepth
  · have outside : ¬ inRange document.value = true := fun inside => unreadable ⟨shallow, inside⟩
    rw [if_pos shallow, Option.bind_some, if_neg outside]
  · rw [if_neg shallow]
    rfl

section

variable (document : Document) {tokens : List String}

theorem traverse_unreadable (nonempty : tokens ≠ []) (unreadable : ¬ Readable document.value) :
    traverse document.text tokens = .error .notJSON := by
  rw [traverse, if_neg nonempty, document.jsonOrNull_eq, document.unmarshal_unreadable unreadable]

theorem traverse_missing (nonempty : tokens ≠ []) (missing : reached document.value tokens = none) :
    ∃ error, traverse document.text tokens = .error error := by
  by_cases readable : Readable document.value
  · have walked := walk_decoded [] document.value tokens
    rw [missing] at walked
    rw [traverse, if_neg nonempty, document.jsonOrNull_eq, document.unmarshal_readable readable]
    cases result : Json.walk [] (toMaps (doubles document.value)) tokens with
    | error absent => exact ⟨.absent absent, by simp only [result]⟩
    | ok part =>
        rw [result] at walked
        contradiction
  · exact ⟨_, traverse_unreadable document nonempty readable⟩

theorem traverse_reached {part : Json} (nonempty : tokens ≠ []) (readable : Readable document.value)
    (found : reached document.value tokens = some part) :
    traverse document.text tokens = .ok (marshal (toMaps (doubles part))) := by
  have walked := walk_decoded [] document.value tokens
  rw [found] at walked
  rw [traverse, if_neg nonempty, document.jsonOrNull_eq, document.unmarshal_readable readable]
  cases result : Json.walk [] (toMaps (doubles document.value)) tokens with
  | error absent =>
      rw [result] at walked
      contradiction
  | ok reached =>
      rw [result] at walked
      cases walked
      simp only [result]

/-- What is returned for a part stands for it exactly where its numbers survive. -/
theorem returned_iff {part : Json} (readable : Readable document.value)
    (found : reached document.value tokens = some part) :
    (∃ read, Spelled (marshal (toMaps (doubles part))).toList read ∧ datum read = datum part) ↔
      Faithful part := by
  have parsed : JsonText.parse document.text.toList = some document.value := by
    rw [document.spelled.parse_eq, if_pos readable.1]
  have fits := Contracts.Fits.toMaps (fits_doubles (fits_of_reached (JsonText.fits_of_parse parsed) found))
  obtain ⟨spelled, read⟩ := marshal_spelled fits
  have stands := datum_sorted_toMaps (doubles part)
  constructor
  · rintro ⟨other, spelledToo, same⟩
    rw [spelledToo.eq_of_parse read, stands] at same
    exact (datum_doubles_iff part).mp same
  · intro faithful
    exact ⟨_, spelled, stands.trans ((datum_doubles_iff part).mpr faithful)⟩

theorem agrees_iff (tokens : List String) :
    Agrees traverse document tokens ↔ tokens = [] ∨ Kept document.value tokens := by
  by_cases empty : tokens = []
  · subst empty
    have whole : Agrees traverse document [] :=
      ⟨document.text, document.value, congrArg Except.ok document.jsonOrNull_eq, document.spelled, rfl⟩
    exact ⟨fun _ => Or.inl rfl, fun _ => whole⟩
  simp only [empty, false_or]
  unfold Agrees Kept
  cases evaluated : evaluate document.value tokens with
  | none =>
      simp only [reduceCtorEq, false_imp_iff, implies_true, true_and, true_imp_iff]
      constructor
      · rintro ⟨error, failed⟩ readable
        cases found : reached document.value tokens with
        | none => rfl
        | some part =>
            rw [traverse_reached document empty readable found] at failed
            contradiction
      · intro refused
        by_cases readable : Readable document.value
        · exact traverse_missing document empty (refused readable)
        · exact ⟨_, traverse_unreadable document empty readable⟩
  | some part =>
      have found := reached_of_evaluate document.valueSized evaluated
      simp only [Option.some.injEq, forall_eq', reduceCtorEq, false_imp_iff, and_true]
      constructor
      · rintro ⟨text, read, returned, spelled, same⟩
        have readable : Readable document.value := by
          by_contra unreadable
          rw [traverse_unreadable document empty unreadable] at returned
          contradiction
        rw [traverse_reached document empty readable found, Except.ok.injEq] at returned
        subst returned
        exact ⟨readable, (returned_iff document readable found).mp ⟨read, spelled, same⟩⟩
      · rintro ⟨readable, faithful⟩
        obtain ⟨read, spelled, same⟩ := (returned_iff document readable found).mpr faithful
        exact ⟨_, read, traverse_reached document empty readable found, spelled, same⟩

end

/-- The engine's traverse and the worker's do what the evaluation of a pointer does exactly where no token
is given, or the decoder reads the document, what is addressed survives it, and the walk takes no step that
the evaluation refuses. -/
theorem traverse_agrees_iff (document : Document) (tokens : List String) :
    (Agrees engineTraverse document tokens ↔ tokens = [] ∨ Kept document.value tokens) ∧
      (Agrees workerTraverse document tokens ↔ tokens = [] ∨ Kept document.value tokens) :=
  ⟨agrees_iff document tokens, agrees_iff document tokens⟩

def accountText : String := "\x7b\"id\":9007199254740993,\"list\":[\"a\",\"b\"]\x7d"

def accountValue : Json :=
  .object [("id", .number "9007199254740993"), ("list", .array [.string "a", .string "b"])]

theorem account_spelled : Spelled accountText.toList accountValue := by
  have list : Spells [.openArray, .string ['a'], .comma, .string ['b'], .closeArray]
      (.array [.string "a", .string "b"]) := by
    apply @Spells.array [([.string ['a']], .string "a"), ([.string ['b']], .string "b")]
    simp only [List.forall_mem_cons, List.not_mem_nil, false_imp_iff, implies_true, and_true]
    exact ⟨.string rfl, .string rfl⟩
  have members : Spells (.openObject :: .string ['i', 'd'] :: .colon :: .number "9007199254740993".toList ::
      .comma :: .string ['l', 'i', 's', 't'] :: .colon :: [.openArray, .string ['a'], .comma, .string ['b'],
      .closeArray, .closeObject]) accountValue := by
    apply @Spells.object [⟨['i', 'd'], ['i', 'd'], [.number "9007199254740993".toList], .number "9007199254740993"⟩,
      ⟨['l', 'i', 's', 't'], ['l', 'i', 's', 't'],
        [.openArray, .string ['a'], .comma, .string ['b'], .closeArray], .array [.string "a", .string "b"]⟩]
    · simp only [List.forall_mem_cons, List.not_mem_nil, false_imp_iff, implies_true, and_true]
      exact ⟨rfl, rfl⟩
    · simp only [List.forall_mem_cons, List.not_mem_nil, false_imp_iff, implies_true, and_true]
      exact ⟨.number "9007199254740993".toList, list⟩
  exact ⟨_, by decide +kernel, members⟩

theorem account_sized : accountText.length < 2 ^ 63 := by decide

def account : Document := ⟨accountText, accountValue, account_spelled, account_sized⟩

/-- A number that no double holds comes back as its neighbour, and an index may begin with a zero. -/
theorem account_disagrees :
    (engineTraverse account.text ["id"] = .ok "9007199254740992" ∧
      ¬ Agrees engineTraverse account ["id"] ∧ ¬ Agrees workerTraverse account ["id"]) ∧
      engineTraverse account.text ["list", "01"] = .ok "\"b\"" ∧
      ¬ Agrees engineTraverse account ["list", "01"] ∧ ¬ Agrees workerTraverse account ["list", "01"] := by
  have changed : ¬ Survives "9007199254740993" := by
    unfold Survives
    decide +kernel
  have number : ¬ Agrees traverse account ["id"] := by
    rw [agrees_iff]
    rintro (empty | kept)
    · cases empty
    · have found : evaluate account.value ["id"] = some (.number "9007199254740993") := rfl
      cases (kept.1 _ found).2 with
      | number survives => exact changed survives
  have returned : traverse account.text ["list", "01"] = .ok "\"b\"" := by decide +kernel
  have index : ¬ Agrees traverse account ["list", "01"] := by
    have refused : evaluate account.value ["list", "01"] = none := by
      rw [← Option.isNone_iff_eq_none]
      decide +kernel
    unfold Agrees
    rw [refused]
    rintro ⟨error, failed⟩
    rw [returned] at failed
    cases failed
  exact ⟨⟨by decide +kernel, number, number⟩, returned, index, index⟩

end CultureNodes.Bindings.RawMessage
