import CultureNodes.Library.JsonText

/-!
The grammar of JSON, over tokens, with no bound on how deep containers nest. The machine that reads tokens
takes what the grammar spells exactly where the bound on nesting is kept.
-/

namespace CultureNodes.JsonText

/-- A member as it is spelled: its name between quotation marks, what that name reads as, and its value. -/
structure Member where
  raw : List Char
  name : List Char
  tokens : List Token
  value : Json

namespace Member

variable (member : Member)

def spelling : List Token := .string member.raw :: .colon :: member.tokens

def entry : String × Json := (String.ofList member.name, member.value)

end Member

/-- The tokens are a value. -/
inductive Spells : List Token → Json → Prop
  | null : Spells [.null] .null
  | bool (value : Bool) : Spells [.bool value] (.bool value)
  | number (numeral : List Char) : Spells [.number numeral] (.number (String.ofList numeral))
  | string {raw text : List Char} (read : unquote raw = some text) :
      Spells [.string raw] (.string (String.ofList text))
  | array {parts : List (List Token × Json)} (each : ∀ part ∈ parts, Spells part.1 part.2) :
      Spells (.openArray :: (separated .comma (parts.map Prod.fst) ++ [.closeArray]))
        (.array (parts.map Prod.snd))
  | object {members : List Member} (named : ∀ member ∈ members, unquote member.raw = some member.name)
      (each : ∀ member ∈ members, Spells member.tokens member.value) :
      Spells (.openObject :: (separated .comma (members.map Member.spelling) ++ [.closeObject]))
        (.object (members.map Member.entry))

/-- The text is a document of this value. -/
def Spelled (document : List Char) (value : Json) : Prop :=
  ∃ tokens, lex document = some tokens ∧ Spells tokens value

/-- How many containers nest in a value. -/
def depth : Json → Nat
  | .array elements => elementsDepth elements + 1
  | .object members => membersDepth members + 1
  | _ => 0
where
  elementsDepth : List Json → Nat
    | [] => 0
    | element :: rest => max (depth element) (elementsDepth rest)
  membersDepth : List (String × Json) → Nat
    | [] => 0
    | (_, value) :: rest => max (depth value) (membersDepth rest)

/-- The machine, where a value may begin, reads the tokens as this value if it has room for it. -/
def Taken (tokens : List Token) (value : Json) (frames : List Frame) : Prop :=
  tokens.foldlM Scanner.step (.beginValue frames) =
    if frames.length + depth value ≤ maxNestingDepth then some (.endValue value frames) else none

theorem taken_elements {frames : List Frame} (room : frames.length + 1 ≤ maxNestingDepth)
    (parts : List (List Token × Json)) :
    (∀ before, ∀ part ∈ parts, Taken part.1 part.2 (.elements before :: frames)) → ∀ before element,
      ((parts.map Prod.fst).flatMap (fun part => Token.comma :: part) ++ [Token.closeArray]).foldlM Scanner.step
          (.endValue element (.elements before :: frames)) =
        if frames.length + 1 + depth.elementsDepth (parts.map Prod.snd) ≤ maxNestingDepth then
          some (.endValue (.array (before ++ element :: parts.map Prod.snd)) frames)
        else none := by
  induction parts with
  | nil =>
      intro _ before element
      rw [if_pos (by simpa [depth.elementsDepth] using room)]
      rfl
  | cons part parts ih =>
      intro taken before element
      have first := taken (before ++ [element]) part List.mem_cons_self
      have later := ih (fun before other held => taken before other (List.mem_cons_of_mem _ held))
        (before ++ [element]) part.2
      rw [List.append_assoc, List.singleton_append] at later
      rw [Taken, List.length_cons] at first
      simp only [List.map_cons, List.flatMap_cons, List.cons_append, List.foldlM_cons, Scanner.step, endValue,
        Option.bind_eq_bind, Option.bind_some, List.append_assoc, depth.elementsDepth]
      rw [List.foldlM_append, first]
      by_cases fits : frames.length + 1 + depth part.2 ≤ maxNestingDepth
      · rw [if_pos fits, Option.bind_eq_bind, Option.bind_some, later]
        exact if_congr (by omega) rfl rfl
      · rw [if_neg fits, if_neg (by omega)]
        rfl

theorem taken_members {frames : List Frame} (room : frames.length + 1 ≤ maxNestingDepth)
    (members : List Member) (named : ∀ member ∈ members, unquote member.raw = some member.name) :
    (∀ before, ∀ member ∈ members,
      Taken member.tokens member.value (.members before (String.ofList member.name) :: frames)) →
      ∀ before (name : String) (value : Json),
        ((members.map Member.spelling).flatMap (fun part => Token.comma :: part) ++ [Token.closeObject]).foldlM
            Scanner.step (.endValue value (.members before name :: frames)) =
          if frames.length + 1 + depth.membersDepth (members.map Member.entry) ≤ maxNestingDepth then
            some (.endValue (.object (before ++ (name, value) :: members.map Member.entry)) frames)
          else none := by
  induction members with
  | nil =>
      intro _ before name value
      rw [if_pos (by simpa [depth.membersDepth] using room)]
      rfl
  | cons member members ih =>
      intro taken before name value
      rw [List.forall_mem_cons] at named
      have first := taken (before ++ [(name, value)]) member List.mem_cons_self
      have later := ih named.2 (fun before other held => taken before other (List.mem_cons_of_mem _ held))
        (before ++ [(name, value)]) (String.ofList member.name) member.value
      rw [List.append_assoc, List.singleton_append] at later
      rw [Taken, List.length_cons] at first
      simp only [List.map_cons, List.flatMap_cons, Member.spelling, Member.entry, List.cons_append,
        List.foldlM_cons, Scanner.step, endValue, beginString, named.1, Option.map_some, Option.bind_eq_bind,
        Option.bind_some, List.append_assoc, if_true, depth.membersDepth]
      rw [List.foldlM_append, first]
      by_cases fits : frames.length + 1 + depth member.value ≤ maxNestingDepth
      · rw [if_pos fits, Option.bind_eq_bind, Option.bind_some]
        refine later.trans (if_congr ?_ rfl rfl)
        omega
      · rw [if_neg fits, if_neg (by omega)]
        rfl

theorem Spells.begins {tokens : List Token} {value : Json} (spells : Spells tokens value) :
    ∃ token rest, tokens = token :: rest ∧ token ≠ .closeArray := by
  cases spells <;> exact ⟨_, _, rfl, by simp⟩

/-- The machine reads every spelling, unless it nests too deep for the containers that are open. -/
theorem Spells.taken {tokens : List Token} {value : Json} (spells : Spells tokens value) :
    ∀ frames, frames.length ≤ maxNestingDepth → Taken tokens value frames := by
  induction spells with
  | null =>
      intro frames room
      rw [Taken, if_pos (by simpa [depth] using room)]
      rfl
  | bool value =>
      intro frames room
      rw [Taken, if_pos (by simpa [depth] using room)]
      rfl
  | number numeral =>
      intro frames room
      rw [Taken, if_pos (by simpa [depth] using room)]
      rfl
  | string read =>
      intro frames room
      rw [Taken, if_pos (by simpa [depth] using room)]
      simp [Scanner.step, beginValue, read]
  | @array parts each ih =>
      intro frames _
      by_cases opens : frames.length < maxNestingDepth
      · cases parts with
        | nil =>
            rw [Taken, if_pos (by simpa [depth, depth.elementsDepth] using opens)]
            simp [separated, Scanner.step, beginValue, opens]
        | cons part parts =>
            have taken : ∀ before, ∀ other ∈ part :: parts, Taken other.1 other.2 (.elements before :: frames) :=
              fun before other held => ih other held _ opens
            obtain ⟨token, more, begins, notClose⟩ := (each part List.mem_cons_self).begins
            have first : part.1.foldlM Scanner.step (.beginValueOrEmpty frames) =
                part.1.foldlM Scanner.step (.beginValue (.elements [] :: frames)) := by
              rw [begins]
              simp only [List.foldlM_cons, Scanner.step, notClose, if_false]
            have others := taken_elements opens parts
              (fun before other held => taken before other (List.mem_cons_of_mem _ held)) [] part.2
            rw [Taken, List.map_cons, separated, List.append_assoc]
            simp only [List.foldlM_cons, Scanner.step, beginValue, opens, if_true, Option.bind_eq_bind,
              Option.bind_some, depth, depth.elementsDepth, List.map_cons]
            rw [List.foldlM_append, first, taken [] part List.mem_cons_self, List.length_cons]
            by_cases fits : frames.length + 1 + depth part.2 ≤ maxNestingDepth
            · rw [if_pos fits, Option.bind_eq_bind, Option.bind_some, others]
              exact if_congr (by omega) rfl rfl
            · rw [if_neg fits, if_neg (by omega)]
              rfl
      · rw [Taken, if_neg (by simp only [depth]; omega)]
        simp [Scanner.step, beginValue, opens]
  | @object members named each ih =>
      intro frames _
      by_cases opens : frames.length < maxNestingDepth
      · cases members with
        | nil =>
            rw [Taken, if_pos (by simpa [depth, depth.membersDepth] using opens)]
            simp [separated, Scanner.step, beginValue, opens]
        | cons member members =>
            have taken : ∀ before, ∀ other ∈ member :: members,
                Taken other.tokens other.value (.members before (String.ofList other.name) :: frames) :=
              fun before other held => ih other held _ opens
            rw [List.forall_mem_cons] at named
            have others := taken_members opens members named.2
              (fun before other held => taken before other (List.mem_cons_of_mem _ held)) []
              (String.ofList member.name) member.value
            rw [Taken, List.map_cons, separated, List.append_assoc]
            simp only [Member.spelling, Member.entry, List.cons_append, List.foldlM_cons, Scanner.step, beginValue,
              opens, if_true, Option.bind_eq_bind, Option.bind_some, reduceCtorEq, if_false, beginString, named.1,
              Option.map_some, depth, depth.membersDepth, List.map_cons]
            rw [List.foldlM_append, taken [] member List.mem_cons_self, List.length_cons]
            by_cases fits : frames.length + 1 + depth member.value ≤ maxNestingDepth
            · rw [if_pos fits, Option.bind_eq_bind, Option.bind_some]
              refine others.trans (if_congr ?_ rfl rfl)
              omega
            · rw [if_neg fits, if_neg (by omega)]
              rfl
      · rw [Taken, if_neg (by simp only [depth]; omega)]
        simp [Scanner.step, beginValue, opens]

theorem Spells.parseTokens_eq {tokens : List Token} {value : Json} (spells : Spells tokens value) :
    parseTokens tokens = if depth value ≤ maxNestingDepth then some value else none := by
  have taken : Taken tokens value [] := spells.taken [] (Nat.zero_le _)
  rw [Taken, List.length_nil, Nat.zero_add] at taken
  rw [parseTokens, taken]
  split <;> rfl

theorem Spelled.parse_eq {document : List Char} {value : Json} (spelled : Spelled document value) :
    parse document = if depth value ≤ maxNestingDepth then some value else none := by
  obtain ⟨tokens, read, spells⟩ := spelled
  rw [parse, read, Option.bind_some, spells.parseTokens_eq]

theorem Spelled.eq_of_parse {document : List Char} {value other : Json} (spelled : Spelled document value)
    (parsed : parse document = some other) : value = other := by
  rw [spelled.parse_eq] at parsed
  split at parsed
  · exact Option.some.inj parsed
  · contradiction

theorem Fits.depth_le {limit : Nat} {value : Json} (fits : Fits limit value) : depth value ≤ limit := by
  induction fits with
  | @array limit elements each ih =>
      have nested : depth.elementsDepth elements ≤ limit := by
        clear each
        induction elements with
        | nil => exact Nat.zero_le _
        | cons element rest later =>
            rw [List.forall_mem_cons] at ih
            exact max_le ih.1 (later ih.2)
      exact Nat.succ_le_succ nested
  | @object limit members each ih =>
      have nested : depth.membersDepth members ≤ limit := by
        clear each
        induction members with
        | nil => exact Nat.zero_le _
        | cons member rest later =>
            rw [List.forall_mem_cons] at ih
            exact max_le ih.1 (later ih.2)
      exact Nat.succ_le_succ nested
  | _ => exact Nat.zero_le _

theorem Fits.mono {limit bound : Nat} {value : Json} (fits : Fits limit value) (within : limit ≤ bound) :
    Fits bound value := by
  induction fits generalizing bound with
  | null => exact .null bound
  | bool _ value => exact .bool bound value
  | number _ whole => exact .number bound whole
  | string _ text => exact .string bound text
  | array each ih =>
      obtain ⟨inner, rfl⟩ := Nat.exists_eq_add_of_le' (Nat.le_trans (Nat.le_add_left 1 _) within)
      exact .array fun element held => ih element held (by omega)
  | object each ih =>
      obtain ⟨inner, rfl⟩ := Nat.exists_eq_add_of_le' (Nat.le_trans (Nat.le_add_left 1 _) within)
      exact .object fun member held => ih member held (by omega)

/-- The characters of numerals. -/
def numeralChar (char : Char) : Bool :=
  isDigit char || char = '-' || char = '+' || char = '.' || char = 'e' || char = 'E'

theorem numeralChar_of_digits {chars : List Char} (all : chars.all isDigit = true) :
    ∀ char ∈ chars, numeralChar char = true := by
  intro char held
  rw [List.all_eq_true] at all
  simp [numeralChar, all char held]

theorem isExponent_chars {chars : List Char} (ends : isExponent chars = true) :
    ∀ char ∈ chars, numeralChar char = true := by
  cases chars with
  | nil => simp
  | cons letter rest =>
      simp only [isExponent, Bool.and_eq_true] at ends
      obtain ⟨isLetter, digits⟩ := ends
      rw [List.forall_mem_cons]
      refine ⟨?_, ?_⟩
      · simp only [Bool.or_eq_true, decide_eq_true_eq] at isLetter
        obtain rfl | rfl := isLetter <;> rfl
      · cases rest with
        | nil => contradiction
        | cons sign others =>
            simp only at digits
            split at digits
            · rename_i signed
              rw [Bool.and_eq_true] at digits
              rw [List.forall_mem_cons]
              refine ⟨?_, numeralChar_of_digits digits.2⟩
              obtain rfl | rfl := signed <;> rfl
            · exact numeralChar_of_digits digits

theorem isFraction_chars {chars : List Char} (goesOn : isFraction chars = true) :
    ∀ char ∈ chars, numeralChar char = true := by
  unfold isFraction at goesOn
  split at goesOn
  · rename_i rest
    rw [Bool.and_eq_true] at goesOn
    rw [List.forall_mem_cons]
    refine ⟨rfl, ?_⟩
    intro char held
    rw [← List.takeWhile_append_dropWhile (p := isDigit) (l := rest), List.mem_append] at held
    obtain digit | behind := held
    · exact numeralChar_of_digits List.all_takeWhile char digit
    · exact isExponent_chars goesOn.2 char behind
  · exact isExponent_chars goesOn

theorem isUnsigned_chars {chars : List Char} (unsigned : isUnsigned chars = true) :
    ∀ char ∈ chars, numeralChar char = true := by
  unfold isUnsigned at unsigned
  split at unsigned
  · rw [List.forall_mem_cons]
    exact ⟨rfl, isFraction_chars unsigned⟩
  · rename_i digit rest _
    rw [Bool.and_eq_true] at unsigned
    rw [List.forall_mem_cons]
    refine ⟨by simp [numeralChar, unsigned.1], ?_⟩
    intro char held
    rw [← List.takeWhile_append_dropWhile (p := isDigit) (l := rest), List.mem_append] at held
    obtain digit | behind := held
    · exact numeralChar_of_digits List.all_takeWhile char digit
    · exact isFraction_chars unsigned.2 char behind
  · contradiction

theorem isNumeral_chars {chars : List Char} (numeral : isNumeral chars = true) :
    ∀ char ∈ chars, numeralChar char = true := by
  unfold isNumeral at numeral
  split at numeral
  · rw [List.forall_mem_cons]
    exact ⟨rfl, isUnsigned_chars numeral⟩
  · exact isUnsigned_chars numeral

theorem endsWord_of_numeralChar {char : Char} (inside : numeralChar char = true) : endsWord char = false := by
  have differs {special : Char} (outside : numeralChar special = false) : char ≠ special := by
    intro same
    rw [same, outside] at inside
    contradiction
  have visible : isSpace char = false := by
    simp [isSpace, @differs ' ' rfl, @differs '\t' rfl, @differs '\r' rfl, @differs '\n' rfl]
  have unmarked : punctuation char = none := by
    simp [punctuation, @differs '[' rfl, @differs ']' rfl, @differs '{' rfl, @differs '}' rfl, @differs ':' rfl,
      @differs ',' rfl]
  simp [endsWord, visible, unmarked, @differs '"' rfl]

theorem whole_of_isNumeral {chars : List Char} (numeral : isNumeral chars = true) :
    (Token.number chars).Whole := by
  have read : word chars = some (.number chars) := by
    unfold word
    split
    · rename_i isNull
      rw [isNull] at numeral
      contradiction
    split
    · rename_i isTrue
      rw [isTrue] at numeral
      contradiction
    split
    · rename_i isFalse
      rw [isFalse] at numeral
      contradiction
    · rfl
  refine whole_of_word read ?_ fun char held => endsWord_of_numeralChar (isNumeral_chars numeral char held)
  rintro rfl
  contradiction

theorem isNumeral_of_whole {chars : List Char} (whole : (Token.number chars).Whole) : isNumeral chars = true := by
  have read : word chars = some (.number chars) := (whole rfl).1
  unfold word at read
  split at read
  · cases read
  split at read
  · cases read
  split at read
  · cases read
  split at read
  · assumption
  · cases read

theorem length_le_separated {α : Type} (separator : α) (parts : List (List α)) :
    parts.length ≤ (separated separator parts).length + 1 := by
  cases parts with
  | nil => simp
  | cons first rest =>
      have each : rest.length ≤ (rest.flatMap fun part => separator :: part).length := by
        induction rest with
        | nil => simp
        | cons part rest ih =>
            simp only [List.flatMap_cons, List.length_append, List.length_cons]
            omega
      simp only [separated, List.length_append, List.length_cons]
      omega

theorem part_le_separated {α : Type} {separator : α} {parts : List (List α)} {part : List α}
    (held : part ∈ parts) : part.length ≤ (separated separator parts).length := by
  cases parts with
  | nil => contradiction
  | cons first rest =>
      rw [separated, List.length_append]
      obtain rfl | later := List.mem_cons.mp held
      · exact Nat.le_add_right _ _
      · have inside : (separator :: part).length ≤ (rest.flatMap fun part => separator :: part).length := by
          rw [List.flatMap_def]
          exact (List.sublist_flatten_of_mem (List.mem_map_of_mem later)).length_le
        rw [List.length_cons] at inside
        omega

/-- The tokens cut so far, the one that is open included. -/
def Lexer.count : Lexer → Nat
  | .between tokens => tokens.length
  | .inWord tokens _ => tokens.length + 1
  | .inString tokens _ => tokens.length + 1
  | .inEscape tokens _ => tokens.length + 1

theorem startToken_count (tokens : List Token) (char : Char) :
    (startToken tokens char).count ≤ tokens.length + 1 := by
  unfold startToken
  split
  · exact Nat.le_succ _
  split
  · exact Nat.le_refl _
  split
  · exact Nat.le_of_eq List.length_append
  · exact Nat.le_refl _

theorem Lexer.step_count {lexer next : Lexer} {char : Char} (stepped : lexer.step char = some next) :
    next.count ≤ lexer.count + 1 := by
  cases lexer with
  | between tokens =>
      cases stepped
      exact startToken_count tokens char
  | inWord tokens chars =>
      simp only [Lexer.step] at stepped
      split at stepped
      · obtain ⟨token, _, rfl⟩ := Option.map_eq_some_iff.mp stepped
        exact (startToken_count _ char).trans (by simp [count])
      · cases stepped
        exact Nat.le_succ _
  | inString tokens raw =>
      simp only [Lexer.step] at stepped
      split at stepped
      · cases stepped
        simp [count]
      split at stepped
      · cases stepped
        exact Nat.le_succ _
      split at stepped
      · contradiction
      · cases stepped
        exact Nat.le_succ _
  | inEscape tokens raw =>
      cases stepped
      exact Nat.le_succ _

theorem Lexer.run_count {lexer last : Lexer} (document : List Char)
    (ran : document.foldlM Lexer.step lexer = some last) : last.count ≤ lexer.count + document.length := by
  induction document generalizing lexer with
  | nil =>
      cases ran
      exact Nat.le_refl _
  | cons char document ih =>
      rw [List.foldlM_cons] at ran
      obtain ⟨next, stepped, onward⟩ := Option.bind_eq_some_iff.mp ran
      have here := step_count stepped
      have later := ih onward
      rw [List.length_cons]
      omega

theorem length_of_lex {document : List Char} {tokens : List Token} (read : lex document = some tokens) :
    tokens.length ≤ document.length := by
  obtain ⟨last, ran, finished⟩ := Option.bind_eq_some_iff.mp read
  have counted : last.count ≤ 0 + document.length := Lexer.run_count document ran
  rw [Nat.zero_add] at counted
  refine Nat.le_trans ?_ counted
  cases last with
  | between tokens =>
      cases finished
      exact Nat.le_refl _
  | inWord before chars =>
      obtain ⟨token, _, rfl⟩ := Option.map_eq_some_iff.mp finished
      simp [Lexer.count]
  | inString before raw => contradiction
  | inEscape before raw => contradiction

end CultureNodes.JsonText
