import CultureNodes.Library.Json

/-!
JSON as text. A document is cut into tokens, whitespace between them being dropped, and a machine with a
stack of the containers that are open reads the tokens. The members of an object are kept as they come,
also where a name is repeated. How deep containers may nest is bounded.
-/

namespace CultureNodes.JsonText

def hexDigits : List Char :=
  ['0', '1', '2', '3', '4', '5', '6', '7', '8', '9', 'a', 'b', 'c', 'd', 'e', 'f']

def hexDigit (digit : Nat) : Char :=
  (hexDigits[digit]?).getD '0'

def hexValue (char : Char) : Option Nat :=
  if '0' ≤ char ∧ char ≤ '9' then some (char.toNat - '0'.toNat)
  else if 'a' ≤ char ∧ char ≤ 'f' then some (char.toNat - 'a'.toNat + 10)
  else if 'A' ≤ char ∧ char ≤ 'F' then some (char.toNat - 'A'.toNat + 10)
  else none

def hexCode (first second third fourth : Char) : Option Nat := do
  let a ← hexValue first
  let b ← hexValue second
  let c ← hexValue third
  let d ← hexValue fourth
  return ((a * 16 + b) * 16 + c) * 16 + d

def replacement : Char := '\uFFFD'

def isSurrogate (code : Nat) : Bool := 0xD800 ≤ code && code < 0xE000

def isHigh (code : Nat) : Bool := 0xD800 ≤ code && code < 0xDC00

/-- The character a high and a low surrogate stand for. -/
def decodePair (high low : Nat) : Option Char :=
  if isHigh high ∧ 0xDC00 ≤ low ∧ low < 0xE000 then
    some (Char.ofNat ((high - 0xD800) * 0x400 + (low - 0xDC00) + 0x10000))
  else none

/-- The character that a backslash and a letter stand for. -/
def simpleEscape (letter : Char) : Option Char :=
  if letter = '"' then some '"'
  else if letter = '\\' then some '\\'
  else if letter = '/' then some '/'
  else if letter = 'b' then some '\x08'
  else if letter = 'f' then some '\x0c'
  else if letter = 'n' then some '\n'
  else if letter = 'r' then some '\r'
  else if letter = 't' then some '\t'
  else none

/-- The character of a code that pairs with no other. -/
def codeChar (code : Nat) : Char :=
  if isSurrogate code then replacement else Char.ofNat code

/-- What a high surrogate reads as when its pair does not follow. -/
def unpaired (pending : Option Nat) : List Char :=
  if pending.isSome then [replacement] else []

/-- The text of a string literal, given what stands between the quotation marks and the high surrogate
just before it. -/
def unquoteFrom (pending : Option Nat) : List Char → Option (List Char)
  | [] => some (unpaired pending)
  | '\\' :: 'u' :: a :: b :: c :: d :: rest =>
      match hexCode a b c d with
      | none => none
      | some code =>
          match pending.bind fun high => decodePair high code with
          | some char => (unquoteFrom none rest).map fun text => char :: text
          | none =>
              if isHigh code then (unquoteFrom (some code) rest).map fun text => unpaired pending ++ text
              else (unquoteFrom none rest).map fun text => unpaired pending ++ codeChar code :: text
  | '\\' :: letter :: rest =>
      match simpleEscape letter with
      | none => none
      | some char => (unquoteFrom none rest).map fun text => unpaired pending ++ char :: text
  | ['\\'] => none
  | char :: rest => (unquoteFrom none rest).map fun text => unpaired pending ++ char :: text

def unquote (raw : List Char) : Option (List Char) := unquoteFrom none raw

/-- How a character is written in a literal. Of what needs no escape, only the two line separators get
one. -/
def quoteChar (char : Char) : List Char :=
  if char = '"' ∨ char = '\\' then ['\\', char]
  else if char = '\x08' then ['\\', 'b']
  else if char = '\x0c' then ['\\', 'f']
  else if char = '\n' then ['\\', 'n']
  else if char = '\r' then ['\\', 'r']
  else if char = '\t' then ['\\', 't']
  else if char.toNat < 32 then
    ['\\', 'u', '0', '0', hexDigit (char.toNat / 16), hexDigit (char.toNat % 16)]
  else if char = '\u2028' then ['\\', 'u', '2', '0', '2', '8']
  else if char = '\u2029' then ['\\', 'u', '2', '0', '2', '9']
  else [char]

def quote (text : List Char) : List Char := text.flatMap quoteChar

inductive Token where
  | openArray
  | closeArray
  | openObject
  | closeObject
  | colon
  | comma
  | null
  | bool (value : Bool)
  | number (numeral : List Char)
  | string (raw : List Char)
deriving DecidableEq, Repr

def isDigit (char : Char) : Bool := '0' ≤ char && char ≤ '9'

/-- The exponent of a numeral, or nothing. -/
def isExponent : List Char → Bool
  | [] => true
  | letter :: rest =>
      (letter = 'e' || letter = 'E') &&
        match rest with
        | sign :: digits =>
            if sign = '+' ∨ sign = '-' then !digits.isEmpty && digits.all isDigit
            else rest.all isDigit
        | [] => false

/-- What may follow the integer part of a numeral. -/
def isFraction : List Char → Bool
  | '.' :: rest => !(rest.takeWhile isDigit).isEmpty && isExponent (rest.dropWhile isDigit)
  | rest => isExponent rest

def isUnsigned : List Char → Bool
  | '0' :: rest => isFraction rest
  | digit :: rest => isDigit digit && isFraction (rest.dropWhile isDigit)
  | [] => false

def isNumeral : List Char → Bool
  | '-' :: rest => isUnsigned rest
  | rest => isUnsigned rest

/-- The token that a run of other characters is. -/
def word (chars : List Char) : Option Token :=
  if chars = ['n', 'u', 'l', 'l'] then some .null
  else if chars = ['t', 'r', 'u', 'e'] then some (.bool true)
  else if chars = ['f', 'a', 'l', 's', 'e'] then some (.bool false)
  else if isNumeral chars then some (.number chars)
  else none

def isSpace (char : Char) : Bool :=
  char = ' ' || char = '\t' || char = '\r' || char = '\n'

def punctuation (char : Char) : Option Token :=
  if char = '[' then some .openArray
  else if char = ']' then some .closeArray
  else if char = '{' then some .openObject
  else if char = '}' then some .closeObject
  else if char = ':' then some .colon
  else if char = ',' then some .comma
  else none

/-- Where the cutting of a document stands, with the tokens before. -/
inductive Lexer where
  | between (tokens : List Token)
  | inWord (tokens : List Token) (chars : List Char)
  | inString (tokens : List Token) (raw : List Char)
  | inEscape (tokens : List Token) (raw : List Char)
deriving DecidableEq, Repr

/-- A character outside of words and strings. -/
def startToken (tokens : List Token) (char : Char) : Lexer :=
  if isSpace char then .between tokens
  else if char = '"' then .inString tokens []
  else
    match punctuation char with
    | some token => .between (tokens ++ [token])
    | none => .inWord tokens [char]

/-- The character cannot be part of a word. -/
def endsWord (char : Char) : Bool :=
  isSpace char || char = '"' || (punctuation char).isSome

def Lexer.step : Lexer → Char → Option Lexer
  | .between tokens, char => some (startToken tokens char)
  | .inWord tokens chars, char =>
      if endsWord char then (word chars).map fun token => startToken (tokens ++ [token]) char
      else some (.inWord tokens (chars ++ [char]))
  | .inString tokens raw, char =>
      if char = '"' then some (.between (tokens ++ [.string raw]))
      else if char = '\\' then some (.inEscape tokens raw)
      else if char.toNat < 32 then none
      else some (.inString tokens (raw ++ [char]))
  | .inEscape tokens raw, char => some (.inString tokens (raw ++ ['\\', char]))

def Lexer.finish : Lexer → Option (List Token)
  | .between tokens => some tokens
  | .inWord tokens chars => (word chars).map fun token => tokens ++ [token]
  | _ => none

def lex (document : List Char) : Option (List Token) :=
  (document.foldlM Lexer.step (.between [])).bind Lexer.finish

inductive Frame where
  | elements (before : List Json)
  | members (before : List (String × Json)) (name : String)

inductive Scanner where
  | beginValue (frames : List Frame)
  | beginValueOrEmpty (frames : List Frame)
  | beginStringOrEmpty (frames : List Frame)
  | beginString (members : List (String × Json)) (frames : List Frame)
  | endString (members : List (String × Json)) (name : String) (frames : List Frame)
  | endValue (value : Json) (frames : List Frame)

def maxNestingDepth : Nat := 10000

def beginValue (frames : List Frame) : Token → Option Scanner
  | .null => some (.endValue .null frames)
  | .bool value => some (.endValue (.bool value) frames)
  | .number numeral => some (.endValue (.number (String.ofList numeral)) frames)
  | .string raw => (unquote raw).map fun text => .endValue (.string (String.ofList text)) frames
  | .openArray => if frames.length < maxNestingDepth then some (.beginValueOrEmpty frames) else none
  | .openObject => if frames.length < maxNestingDepth then some (.beginStringOrEmpty frames) else none
  | _ => none

def beginString (members : List (String × Json)) (frames : List Frame) : Token → Option Scanner
  | .string raw => (unquote raw).map fun text => .endString members (String.ofList text) frames
  | _ => none

def endValue (value : Json) : List Frame → Token → Option Scanner
  | .elements before :: frames, .comma => some (.beginValue (.elements (before ++ [value]) :: frames))
  | .elements before :: frames, .closeArray => some (.endValue (.array (before ++ [value])) frames)
  | .members before name :: frames, .comma => some (.beginString (before ++ [(name, value)]) frames)
  | .members before name :: frames, .closeObject =>
      some (.endValue (.object (before ++ [(name, value)])) frames)
  | _, _ => none

def Scanner.step : Scanner → Token → Option Scanner
  | .beginValue frames, token => JsonText.beginValue frames token
  | .beginValueOrEmpty frames, token =>
      if token = .closeArray then some (.endValue (.array []) frames)
      else JsonText.beginValue (.elements [] :: frames) token
  | .beginStringOrEmpty frames, token =>
      if token = .closeObject then some (.endValue (.object []) frames)
      else JsonText.beginString [] frames token
  | .beginString members frames, token => JsonText.beginString members frames token
  | .endString members name frames, token =>
      if token = .colon then some (.beginValue (.members members name :: frames)) else none
  | .endValue value frames, token => JsonText.endValue value frames token

def Scanner.finish : Scanner → Option Json
  | .endValue value [] => some value
  | _ => none

def parseTokens (tokens : List Token) : Option Json :=
  (tokens.foldlM Scanner.step (.beginValue [])).bind Scanner.finish

/-- The value a document spells, its members as they come. -/
def parse (document : List Char) : Option Json :=
  (lex document).bind parseTokens

def separated {α : Type} (separator : α) : List (List α) → List α
  | [] => []
  | first :: rest => first ++ rest.flatMap fun part => separator :: part

def Token.render : Token → List Char
  | .openArray => ['[']
  | .closeArray => [']']
  | .openObject => ['{']
  | .closeObject => ['}']
  | .colon => [':']
  | .comma => [',']
  | .null => ['n', 'u', 'l', 'l']
  | .bool true => ['t', 'r', 'u', 'e']
  | .bool false => ['f', 'a', 'l', 's', 'e']
  | .number numeral => numeral
  | .string raw => '"' :: (raw ++ ['"'])

def render (tokens : List Token) : List Char := tokens.flatMap Token.render

/-- A document without the whitespace between its tokens, if it is one. -/
def compact (document : List Char) : Option (List Char) :=
  (lex document).bind fun tokens => (parseTokens tokens).map fun _ => render tokens

theorem hexCode_control : ∀ code < 32,
    hexCode '0' '0' (hexDigit (code / 16)) (hexDigit (code % 16)) = some code := by
  decide

/-- A character that is not escaped. -/
theorem unquoteFrom_plain {char : Char} (plain : char ≠ '\\') (rest : List Char) :
    unquoteFrom none (char :: rest) = (unquoteFrom none rest).map fun text => char :: text := by
  rw [unquoteFrom]
  · rfl
  · intro _ _ _ _ _ isBackslash
    exact absurd isBackslash plain
  · intro _ _ isBackslash
    exact absurd isBackslash plain
  · intro isBackslash
    exact absurd isBackslash plain

theorem unquoteFrom_simple {letter char : Char} (known : simpleEscape letter = some char)
    (rest : List Char) :
    unquoteFrom none ('\\' :: letter :: rest) = (unquoteFrom none rest).map fun text => char :: text := by
  rw [unquoteFrom]
  · rw [known]
    rfl
  · intro _ _ _ _ _ isU
    subst isU
    simp [simpleEscape] at known

theorem unquoteFrom_code {a b c d : Char} {code : Nat} (read : hexCode a b c d = some code)
    (single : isSurrogate code = false) (rest : List Char) :
    unquoteFrom none ('\\' :: 'u' :: a :: b :: c :: d :: rest) =
      (unquoteFrom none rest).map fun text => Char.ofNat code :: text := by
  have notHigh : isHigh code = false := by
    simp only [isSurrogate, isHigh, Bool.and_eq_false_iff, decide_eq_false_iff_not] at single ⊢
    omega
  rw [unquoteFrom, read]
  simp [notHigh, unpaired, codeChar, single]

/-- The ways a character is written: after a backslash, by its code, or as it is. -/
inductive Quoted (char : Char) : List Char → Prop
  | simple {letter : Char} (stands : simpleEscape letter = some char) : Quoted char ['\\', letter]
  | code {a b c d : Nat} (small : a < 16 ∧ b < 16 ∧ c < 16 ∧ d < 16)
      (stands : hexCode (hexDigit a) (hexDigit b) (hexDigit c) (hexDigit d) = some char.toNat)
      (single : isSurrogate char.toNat = false) :
      Quoted char ['\\', 'u', hexDigit a, hexDigit b, hexDigit c, hexDigit d]
  | plain (notQuote : char ≠ '"') (notBackslash : char ≠ '\\') (printed : ¬ char.toNat < 32) :
      Quoted char [char]

theorem quoted_quoteChar (char : Char) : Quoted char (quoteChar char) := by
  have control (low : char.toNat < 32) : Quoted char
      ['\\', 'u', '0', '0', hexDigit (char.toNat / 16), hexDigit (char.toNat % 16)] := by
    apply Quoted.code (a := 0) (b := 0) (by omega) (hexCode_control char.toNat low)
    simp only [isSurrogate, Bool.and_eq_false_iff, decide_eq_false_iff_not]
    omega
  by_cases special : char = '"' ∨ char = '\\'
  · rw [quoteChar, if_pos special]
    obtain rfl | rfl := special
    · exact .simple rfl
    · exact .simple rfl
  rw [quoteChar, if_neg special]
  by_cases isBackspace : char = '\x08'
  · rw [if_pos isBackspace, isBackspace]
    exact .simple rfl
  rw [if_neg isBackspace]
  by_cases isFormFeed : char = '\x0c'
  · rw [if_pos isFormFeed, isFormFeed]
    exact .simple rfl
  rw [if_neg isFormFeed]
  by_cases isNewline : char = '\n'
  · rw [if_pos isNewline, isNewline]
    exact .simple rfl
  rw [if_neg isNewline]
  by_cases isReturn : char = '\r'
  · rw [if_pos isReturn, isReturn]
    exact .simple rfl
  rw [if_neg isReturn]
  by_cases isTab : char = '\t'
  · rw [if_pos isTab, isTab]
    exact .simple rfl
  rw [if_neg isTab]
  by_cases low : char.toNat < 32
  · rw [if_pos low]
    exact control low
  rw [if_neg low]
  by_cases isLine : char = '\u2028'
  · rw [if_pos isLine, isLine]
    exact .code (a := 2) (b := 0) (c := 2) (d := 8) (by omega) (by decide) (by decide)
  rw [if_neg isLine]
  by_cases isParagraph : char = '\u2029'
  · rw [if_pos isParagraph, isParagraph]
    exact .code (a := 2) (b := 0) (c := 2) (d := 9) (by omega) (by decide) (by decide)
  rw [if_neg isParagraph]
  exact .plain (fun isQuote => special (Or.inl isQuote)) (fun isBackslash => special (Or.inr isBackslash)) low

theorem Quoted.unquoteFrom {char : Char} {written : List Char} (quoted : Quoted char written)
    (rest : List Char) :
    JsonText.unquoteFrom none (written ++ rest) =
      (JsonText.unquoteFrom none rest).map fun text => char :: text := by
  cases quoted with
  | simple stands => exact unquoteFrom_simple stands rest
  | code _ stands single =>
      have read := unquoteFrom_code stands single rest
      rw [Char.ofNat_toNat] at read
      exact read
  | plain _ notBackslash _ => exact unquoteFrom_plain notBackslash rest

/-- Whichever way each character is written, the text reads back. -/
theorem unquote_flatMap {write : Char → List Char} (quoted : ∀ char, Quoted char (write char))
    (text : List Char) : unquote (text.flatMap write) = some text := by
  induction text with
  | nil => rfl
  | cons char text ih =>
      have onward : unquoteFrom none (text.flatMap write) = some text := ih
      rw [unquote, List.flatMap_cons, (quoted char).unquoteFrom, onward]
      rfl

theorem unquote_quote (text : List Char) : unquote (quote text) = some text :=
  unquote_flatMap quoted_quoteChar text

def Token.isWord : Token → Bool
  | .null | .bool _ | .number _ => true
  | _ => false

/-- What stands between two quotation marks. -/
def Enclosed (raw : List Char) : Prop :=
  ∀ tokens before, raw.foldlM Lexer.step (.inString tokens before) = some (.inString tokens (before ++ raw))

/-- The text of a token is cut into it. -/
def Token.Whole (token : Token) : Prop :=
  match token with
  | .string raw => Enclosed raw
  | _ =>
      token.isWord = true → word token.render = some token ∧ token.render ≠ [] ∧
        ∀ char ∈ token.render, endsWord char = false

/-- No word directly follows a word. -/
def Apart : Bool → List Token → Prop
  | _, [] => True
  | afterWord, token :: rest => (afterWord = true → token.isWord = false) ∧ Apart token.isWord rest

/-- The lexer has read the tokens, perhaps without having seen the end of the last one, a word. -/
inductive Reads : Lexer → List Token → Bool → Prop
  | settled (tokens : List Token) : Reads (.between tokens) tokens false
  | inWord {before : List Token} {chars : List Char} {token : Token} (read : word chars = some token) :
      Reads (.inWord before chars) (before ++ [token]) true

theorem Reads.finish {lexer : Lexer} {tokens : List Token} {afterWord : Bool}
    (reads : Reads lexer tokens afterWord) : lexer.finish = some tokens := by
  cases reads with
  | settled => rfl
  | inWord read => simp [Lexer.finish, read]

theorem Reads.step {lexer : Lexer} {tokens : List Token} {afterWord : Bool}
    (reads : Reads lexer tokens afterWord) {char : Char} (ends : endsWord char = true) :
    lexer.step char = some (startToken tokens char) := by
  cases reads with
  | settled => rfl
  | inWord read => simp [Lexer.step, ends, read]

theorem endsWord_of_punctuation {char : Char} {token : Token} (known : punctuation char = some token) :
    endsWord char = true := by
  simp [endsWord, known]

theorem Reads.mark {lexer : Lexer} {tokens : List Token} {afterWord : Bool}
    (reads : Reads lexer tokens afterWord) {char : Char} {token : Token} (written : token.render = [char])
    (known : punctuation char = some token) (visible : isSpace char = false) (notQuote : char ≠ '"') :
    ∃ next, token.render.foldlM Lexer.step lexer = some next ∧ Reads next (tokens ++ [token]) false := by
  refine ⟨.between (tokens ++ [token]), ?_, .settled _⟩
  have read : lexer.step char = some (.between (tokens ++ [token])) := by
    rw [reads.step (endsWord_of_punctuation known)]
    simp [startToken, visible, notQuote, known]
  simp only [written, List.foldlM_cons, List.foldlM_nil, read]
  rfl

theorem read_word (tokens : List Token) (chars : List Char) {more : List Char}
    (inside : ∀ char ∈ more, endsWord char = false) :
    more.foldlM Lexer.step (.inWord tokens chars) = some (.inWord tokens (chars ++ more)) := by
  induction more generalizing chars with
  | nil => simp
  | cons char more ih =>
      have here : endsWord char = false := inside char List.mem_cons_self
      have later := ih (chars ++ [char]) fun other held => inside other (List.mem_cons_of_mem _ held)
      simp [Lexer.step, here, later]

theorem startToken_word {tokens : List Token} {char : Char} (inside : endsWord char = false) :
    startToken tokens char = .inWord tokens [char] := by
  simp only [endsWord, Bool.or_eq_false_iff, decide_eq_false_iff_not, Option.isSome_eq_false_iff,
    Option.isNone_iff_eq_none] at inside
  simp [startToken, inside]

theorem Reads.token {lexer : Lexer} {tokens : List Token} {afterWord : Bool}
    (reads : Reads lexer tokens afterWord) {token : Token} (whole : token.Whole)
    (apart : afterWord = true → token.isWord = false) :
    ∃ next, token.render.foldlM Lexer.step lexer = some next ∧
      Reads next (tokens ++ [token]) token.isWord := by
  cases isWord : token.isWord with
  | true =>
      have notAfter : afterWord = false := by
        cases afterWord with
        | false => rfl
        | true => exact absurd (apart rfl) (by simp [isWord])
      have facts : word token.render = some token ∧ token.render ≠ [] ∧
          ∀ char ∈ token.render, endsWord char = false := by
        cases token <;> first | exact whole rfl | contradiction
      obtain ⟨read, nonempty, inside⟩ := facts
      cases reads with
      | inWord => contradiction
      | settled =>
          cases chars : token.render with
          | nil => exact absurd chars nonempty
          | cons char more =>
              rw [chars] at read inside
              refine ⟨.inWord tokens (char :: more), ?_, .inWord read⟩
              have first : startToken tokens char = .inWord tokens [char] :=
                startToken_word (inside char List.mem_cons_self)
              have rest := read_word tokens [char]
                fun other held => inside other (List.mem_cons_of_mem _ held)
              simp [Lexer.step, first, rest]
  | false =>
      cases token with
      | null => contradiction
      | bool value => contradiction
      | number numeral => contradiction
      | string raw =>
          refine ⟨.between (tokens ++ [Token.string raw]), ?_, .settled _⟩
          have opens : lexer.step '"' = some (.inString tokens []) := reads.step (by decide)
          have body : raw.foldlM Lexer.step (.inString tokens []) = some (.inString tokens ([] ++ raw)) :=
            whole tokens []
          simp only [Token.render, List.foldlM_cons, List.foldlM_append, List.foldlM_nil, opens,
            Option.bind_eq_bind, Option.bind_some, body]
          rfl
      | openArray => exact reads.mark rfl rfl rfl (by decide)
      | closeArray => exact reads.mark rfl rfl rfl (by decide)
      | openObject => exact reads.mark rfl rfl rfl (by decide)
      | closeObject => exact reads.mark rfl rfl rfl (by decide)
      | colon => exact reads.mark rfl rfl rfl (by decide)
      | comma => exact reads.mark rfl rfl rfl (by decide)

theorem Reads.tokens {lexer : Lexer} {before : List Token} {afterWord : Bool}
    (reads : Reads lexer before afterWord) {tokens : List Token} (whole : ∀ token ∈ tokens, token.Whole)
    (apart : Apart afterWord tokens) :
    ∃ next last, (render tokens).foldlM Lexer.step lexer = some next ∧
      Reads next (before ++ tokens) last := by
  induction tokens generalizing lexer before afterWord with
  | nil => exact ⟨lexer, afterWord, rfl, by simpa using reads⟩
  | cons token rest ih =>
      obtain ⟨middle, ran, reached⟩ := reads.token (whole token List.mem_cons_self) apart.1
      obtain ⟨next, last, onward, done⟩ :=
        ih reached (fun other held => whole other (List.mem_cons_of_mem _ held)) apart.2
      refine ⟨next, last, ?_, by simpa using done⟩
      simp only [render, List.flatMap_cons, List.foldlM_append, ran]
      exact onward

theorem lex_render {tokens : List Token} (whole : ∀ token ∈ tokens, token.Whole)
    (apart : Apart false tokens) : lex (render tokens) = some tokens := by
  obtain ⟨next, last, ran, reached⟩ := (Reads.settled []).tokens whole apart
  rw [lex, ran]
  exact reached.finish

theorem Enclosed.nil : Enclosed [] := by
  intro tokens before
  simp

theorem Enclosed.append {raw more : List Char} (one : Enclosed raw) (two : Enclosed more) :
    Enclosed (raw ++ more) := by
  intro tokens before
  rw [List.foldlM_append, one tokens before]
  exact (two tokens (before ++ raw)).trans (by rw [List.append_assoc])

theorem Enclosed.plain {char : Char} (notQuote : char ≠ '"') (notBackslash : char ≠ '\\')
    (printed : ¬ char.toNat < 32) : Enclosed [char] := by
  intro tokens before
  simp [Lexer.step, notQuote, notBackslash, printed]

theorem Enclosed.escape (char : Char) : Enclosed ['\\', char] := by
  intro tokens before
  simp [Lexer.step]

theorem hexDigit_enclosed : ∀ digit < 16, hexDigit digit ≠ '"' ∧ hexDigit digit ≠ '\\' ∧
    ¬ (hexDigit digit).toNat < 32 := by
  decide

theorem Enclosed.hexDigit {digit : Nat} (small : digit < 16) : Enclosed [hexDigit digit] := by
  obtain ⟨notQuote, notBackslash, printed⟩ := hexDigit_enclosed digit small
  exact .plain notQuote notBackslash printed

theorem Quoted.enclosed {char : Char} {written : List Char} (quoted : Quoted char written) :
    Enclosed written := by
  cases quoted with
  | simple stands => exact .escape _
  | code small _ _ =>
      obtain ⟨first, second, third, fourth⟩ := small
      exact (Enclosed.escape 'u').append ((Enclosed.hexDigit first).append ((Enclosed.hexDigit second).append
        ((Enclosed.hexDigit third).append (.hexDigit fourth))))
  | plain notQuote notBackslash printed => exact .plain notQuote notBackslash printed

theorem enclosed_flatMap {write : Char → List Char} (quoted : ∀ char, Quoted char (write char))
    (text : List Char) : Enclosed (text.flatMap write) := by
  induction text with
  | nil => exact .nil
  | cons char text ih =>
      rw [List.flatMap_cons]
      exact (quoted char).enclosed.append ih

theorem quote_enclosed (text : List Char) : Enclosed (quote text) :=
  enclosed_flatMap quoted_quoteChar text

theorem render_of_word {chars : List Char} {token : Token} (read : word chars = some token) :
    token.render = chars ∧ token.isWord = true := by
  simp only [word] at read
  split at read
  · rename_i isChars
    cases read
    exact ⟨isChars.symm, rfl⟩
  split at read
  · rename_i isChars
    cases read
    exact ⟨isChars.symm, rfl⟩
  split at read
  · rename_i isChars
    cases read
    exact ⟨isChars.symm, rfl⟩
  split at read
  · cases read
    exact ⟨rfl, rfl⟩
  · contradiction

theorem whole_of_word {chars : List Char} {token : Token} (read : word chars = some token)
    (nonempty : chars ≠ []) (inside : ∀ char ∈ chars, endsWord char = false) : token.Whole := by
  obtain ⟨written, isWord⟩ := render_of_word read
  have facts : word token.render = some token ∧ token.render ≠ [] ∧
      ∀ char ∈ token.render, endsWord char = false := by
    rw [written]
    exact ⟨read, nonempty, inside⟩
  cases token with
  | string raw => contradiction
  | _ => exact fun _ => facts

/-- Every token read so far is whole, and so is the part of the next one. -/
def Lexer.Sound : Lexer → Prop
  | .between tokens => ∀ token ∈ tokens, token.Whole
  | .inWord tokens chars =>
      (∀ token ∈ tokens, token.Whole) ∧ chars ≠ [] ∧ ∀ char ∈ chars, endsWord char = false
  | .inString tokens raw => (∀ token ∈ tokens, token.Whole) ∧ Enclosed raw
  | .inEscape tokens raw => (∀ token ∈ tokens, token.Whole) ∧ Enclosed raw

theorem whole_append {tokens : List Token} {token : Token} (whole : ∀ token ∈ tokens, token.Whole)
    (new : token.Whole) : ∀ other ∈ tokens ++ [token], other.Whole := by
  intro other held
  obtain earlier | isNew := List.mem_append.mp held
  · exact whole other earlier
  · cases List.mem_singleton.mp isNew
    exact new

theorem Token.Whole.of_mark {token : Token} (notWord : token.isWord = false)
    (notString : ∀ raw, token ≠ .string raw) : token.Whole := by
  cases token with
  | string raw => exact absurd rfl (notString raw)
  | _ =>
      intro isWord
      exact absurd notWord (by simp [isWord])

theorem whole_of_punctuation {char : Char} {token : Token} (known : punctuation char = some token) :
    token.Whole := by
  simp only [punctuation] at known
  repeat' split at known
  all_goals cases known
  all_goals exact .of_mark rfl (by simp)

theorem startToken_sound {tokens : List Token} (whole : ∀ token ∈ tokens, token.Whole) (char : Char) :
    (startToken tokens char).Sound := by
  by_cases inside : endsWord char = false
  · rw [startToken_word inside]
    refine ⟨whole, by simp, ?_⟩
    intro other held
    cases List.mem_singleton.mp held
    exact inside
  · simp only [startToken]
    split
    · exact whole
    split
    · exact ⟨whole, .nil⟩
    rename_i space quotes
    cases known : punctuation char with
    | some token => exact whole_append whole (whole_of_punctuation known)
    | none => exact absurd (by simp [endsWord, space, quotes, known]) inside

theorem Lexer.Sound.step {lexer next : Lexer} {char : Char} (sound : lexer.Sound)
    (stepped : lexer.step char = some next) : next.Sound := by
  cases lexer with
  | between tokens =>
      cases stepped
      exact startToken_sound sound char
  | inWord tokens chars =>
      obtain ⟨whole, nonempty, inside⟩ := sound
      simp only [Lexer.step] at stepped
      split at stepped
      · obtain ⟨token, read, rfl⟩ := Option.map_eq_some_iff.mp stepped
        exact startToken_sound (whole_append whole (whole_of_word read nonempty inside)) char
      · rename_i goesOn
        cases stepped
        refine ⟨whole, by simp, ?_⟩
        intro other held
        obtain earlier | isNew := List.mem_append.mp held
        · exact inside other earlier
        · cases List.mem_singleton.mp isNew
          simpa using goesOn
  | inString tokens raw =>
      obtain ⟨whole, enclosed⟩ := sound
      simp only [Lexer.step] at stepped
      split at stepped
      · cases stepped
        have closed : (Token.string raw).Whole := enclosed
        exact whole_append whole closed
      split at stepped
      · cases stepped
        exact ⟨whole, enclosed⟩
      split at stepped
      · contradiction
      · rename_i notQuote notBackslash printed
        cases stepped
        exact ⟨whole, enclosed.append (.plain notQuote notBackslash printed)⟩
  | inEscape tokens raw =>
      cases stepped
      exact ⟨sound.1, sound.2.append (.escape char)⟩

theorem Lexer.Sound.run {lexer last : Lexer} (document : List Char) (sound : lexer.Sound)
    (ran : document.foldlM Lexer.step lexer = some last) : last.Sound := by
  induction document generalizing lexer with
  | nil =>
      cases ran
      exact sound
  | cons char document ih =>
      rw [List.foldlM_cons] at ran
      obtain ⟨next, stepped, onward⟩ := Option.bind_eq_some_iff.mp ran
      exact ih (sound.step stepped) onward

theorem whole_of_lex {document : List Char} {tokens : List Token} (read : lex document = some tokens) :
    ∀ token ∈ tokens, token.Whole := by
  obtain ⟨last, ran, finished⟩ := Option.bind_eq_some_iff.mp read
  have empty : (Lexer.between []).Sound := by simp [Lexer.Sound]
  have sound : last.Sound := empty.run document ran
  cases last with
  | between tokens =>
      cases finished
      exact sound
  | inWord before chars =>
      obtain ⟨token, isToken, rfl⟩ := Option.map_eq_some_iff.mp finished
      exact whole_append sound.1 (whole_of_word isToken sound.2.1 sound.2.2)
  | inString before raw => contradiction
  | inEscape before raw => contradiction

def Scanner.hasValue : Scanner → Bool
  | .endValue _ _ => true
  | _ => false

theorem Scanner.step_word {scanner next : Scanner} {token : Token}
    (stepped : scanner.step token = some next) (isWord : token.isWord = true) :
    scanner.hasValue = false ∧ next.hasValue = true := by
  cases token with
  | null | bool value | number numeral =>
      cases scanner with
      | endValue value frames =>
          cases frames with
          | nil => contradiction
          | cons frame frames => cases frame <;> contradiction
      | beginValue frames => cases stepped; exact ⟨rfl, rfl⟩
      | beginValueOrEmpty frames => cases stepped; exact ⟨rfl, rfl⟩
      | _ => contradiction
  | _ => contradiction

theorem Apart.of_true {tokens : List Token} (apart : Apart true tokens) (afterWord : Bool) :
    Apart afterWord tokens := by
  cases tokens with
  | nil => trivial
  | cons token rest => exact ⟨fun _ => apart.1 rfl, apart.2⟩

theorem apart_of_run {scanner last : Scanner} {tokens : List Token}
    (ran : tokens.foldlM Scanner.step scanner = some last) : Apart scanner.hasValue tokens := by
  induction tokens generalizing scanner with
  | nil => trivial
  | cons token rest ih =>
      rw [List.foldlM_cons] at ran
      obtain ⟨next, stepped, onward⟩ := Option.bind_eq_some_iff.mp ran
      have later := ih onward
      constructor
      · intro after
        cases isWord : token.isWord with
        | false => rfl
        | true =>
            have before := (Scanner.step_word stepped isWord).1
            rw [after] at before
            contradiction
      · cases isWord : token.isWord with
        | true =>
            rw [(Scanner.step_word stepped isWord).2] at later
            exact later
        | false =>
            cases held : next.hasValue with
            | true =>
                rw [held] at later
                exact later.of_true false
            | false =>
                rw [held] at later
                exact later

theorem apart_of_parseTokens {tokens : List Token} {value : Json}
    (parsed : parseTokens tokens = some value) : Apart false tokens := by
  obtain ⟨last, ran, _⟩ := Option.bind_eq_some_iff.mp parsed
  exact apart_of_run ran

/-- Dropping the whitespace of a document changes nothing that is read. -/
theorem parse_compact {document raw : List Char} (compacted : compact document = some raw) :
    parse raw = parse document := by
  obtain ⟨tokens, read, mapped⟩ := Option.bind_eq_some_iff.mp compacted
  obtain ⟨value, parsed, rfl⟩ := Option.map_eq_some_iff.mp mapped
  rw [parse, lex_render (whole_of_lex read) (apart_of_parseTokens parsed), parse, read]

theorem compact_isSome (document : List Char) : (compact document).isSome = (parse document).isSome := by
  cases read : lex document with
  | none => simp [compact, parse, read]
  | some tokens => simp [compact, parse, read]

def tokensOf : Json → List Token
  | .null => [.null]
  | .bool value => [.bool value]
  | .number numeral => [.number numeral.toList]
  | .string text => [.string (quote text.toList)]
  | .array elements => .openArray :: (separated .comma (elementTokens elements) ++ [.closeArray])
  | .object members => .openObject :: (separated .comma (memberTokens members) ++ [.closeObject])
where
  elementTokens : List Json → List (List Token)
    | [] => []
    | element :: rest => tokensOf element :: elementTokens rest
  memberTokens : List (String × Json) → List (List Token)
    | [] => []
    | (name, value) :: rest =>
        (.string (quote name.toList) :: .colon :: tokensOf value) :: memberTokens rest

def memberTokens (member : String × Json) : List Token :=
  .string (quote member.1.toList) :: .colon :: tokensOf member.2

theorem elementTokens_eq (elements : List Json) :
    tokensOf.elementTokens elements = elements.map tokensOf := by
  induction elements with
  | nil => rfl
  | cons element rest ih => rw [tokensOf.elementTokens, ih, List.map_cons]

theorem memberTokens_eq (members : List (String × Json)) :
    tokensOf.memberTokens members = members.map memberTokens := by
  induction members with
  | nil => rfl
  | cons member rest ih => rw [tokensOf.memberTokens, ih, List.map_cons, memberTokens]

/-- Its numbers are numerals, and it nests no deeper than so many containers. -/
inductive Fits : Nat → Json → Prop
  | null (limit : Nat) : Fits limit .null
  | bool (limit : Nat) (value : Bool) : Fits limit (.bool value)
  | number (limit : Nat) {numeral : String} (whole : (Token.number numeral.toList).Whole) :
      Fits limit (.number numeral)
  | string (limit : Nat) (text : String) : Fits limit (.string text)
  | array {limit : Nat} {elements : List Json} (each : ∀ element ∈ elements, Fits limit element) :
      Fits (limit + 1) (.array elements)
  | object {limit : Nat} {members : List (String × Json)} (each : ∀ member ∈ members, Fits limit member.2) :
      Fits (limit + 1) (.object members)

theorem foldlM_append_of {σ α : Type} {step : σ → α → Option σ} {start middle : σ} {first : List α}
    (ran : first.foldlM step start = some middle) (rest : List α) :
    (first ++ rest).foldlM step start = rest.foldlM step middle := by
  rw [List.foldlM_append, ran]
  rfl

def Read (value : Json) (frames : List Frame) : Prop :=
  (tokensOf value).foldlM Scanner.step (.beginValue frames) = some (.endValue value frames)

theorem read_elements {frames : List Frame} (rest : List Json) :
    (∀ before, ∀ element ∈ rest, Read element (.elements before :: frames)) → ∀ before element,
      ((rest.map tokensOf).flatMap (fun part => Token.comma :: part) ++ [Token.closeArray]).foldlM Scanner.step
          (.endValue element (.elements before :: frames)) =
        some (.endValue (.array (before ++ element :: rest)) frames) := by
  induction rest with
  | nil =>
      intro _ before element
      rfl
  | cons next rest ih =>
      intro reads before element
      have first : (tokensOf next).foldlM Scanner.step
          (.beginValue (.elements (before ++ [element]) :: frames)) =
            some (.endValue next (.elements (before ++ [element]) :: frames)) :=
        reads (before ++ [element]) next List.mem_cons_self
      have later := ih (fun before other held => reads before other (List.mem_cons_of_mem _ held))
        (before ++ [element]) next
      rw [List.append_assoc, List.singleton_append] at later
      simp only [List.map_cons, List.flatMap_cons, List.cons_append, List.foldlM_cons, Scanner.step, endValue,
        Option.bind_eq_bind, Option.bind_some, List.append_assoc]
      rw [foldlM_append_of first]
      exact later

theorem read_members {frames : List Frame} (rest : List (String × Json)) :
    (∀ before, ∀ member ∈ rest, Read member.2 (.members before member.1 :: frames)) →
      ∀ before (name : String) (value : Json),
        ((rest.map memberTokens).flatMap (fun part => Token.comma :: part) ++ [Token.closeObject]).foldlM
            Scanner.step (.endValue value (.members before name :: frames)) =
          some (.endValue (.object (before ++ (name, value) :: rest)) frames) := by
  induction rest with
  | nil =>
      intro _ before name value
      rfl
  | cons next rest ih =>
      intro reads before name value
      have first : (tokensOf next.2).foldlM Scanner.step
          (.beginValue (.members (before ++ [(name, value)]) next.1 :: frames)) =
            some (.endValue next.2 (.members (before ++ [(name, value)]) next.1 :: frames)) :=
        reads (before ++ [(name, value)]) next List.mem_cons_self
      have later := ih (fun before other held => reads before other (List.mem_cons_of_mem _ held))
        (before ++ [(name, value)]) next.1 next.2
      rw [List.append_assoc, List.singleton_append] at later
      simp only [List.map_cons, List.flatMap_cons, memberTokens, List.cons_append, List.foldlM_cons,
        Scanner.step, endValue, beginString, unquote_quote, Option.map_some, String.ofList_toList,
        Option.bind_eq_bind, Option.bind_some, List.append_assoc, if_true]
      rw [foldlM_append_of first]
      exact later

theorem tokensOf_begins (value : Json) :
    ∃ token rest, tokensOf value = token :: rest ∧ token ≠ .closeArray := by
  cases value <;> exact ⟨_, _, rfl, by simp⟩

theorem Fits.read {limit : Nat} {value : Json} (fits : Fits limit value) :
    ∀ frames, frames.length + limit ≤ maxNestingDepth → Read value frames := by
  induction fits with
  | null limit => intro frames _; rfl
  | bool limit value => intro frames _; rfl
  | number limit whole =>
      intro frames _
      simp [Read, tokensOf, Scanner.step, beginValue]
  | string limit text =>
      intro frames _
      simp [Read, tokensOf, Scanner.step, beginValue, unquote_quote]
  | @array limit elements each ih =>
      intro frames room
      have opens : frames.length < maxNestingDepth := by omega
      cases elements with
      | nil => simp [Read, tokensOf, tokensOf.elementTokens, separated, Scanner.step, beginValue, opens]
      | cons element rest =>
          have reads : ∀ before, ∀ other ∈ element :: rest, Read other (.elements before :: frames) := by
            intro before other held
            exact ih other held _ (by simp only [List.length_cons]; omega)
          obtain ⟨token, more, begins, notClose⟩ := tokensOf_begins element
          have first : (tokensOf element).foldlM Scanner.step (.beginValueOrEmpty frames) =
              some (.endValue element (.elements [] :: frames)) := by
            have whole := reads [] element List.mem_cons_self
            rw [Read, begins] at whole
            rw [begins]
            simpa only [List.foldlM_cons, Scanner.step, notClose, if_false] using whole
          have others := read_elements rest
            (fun before other held => reads before other (List.mem_cons_of_mem _ held)) [] element
          rw [Read, tokensOf, elementTokens_eq, List.map_cons, separated, List.append_assoc]
          simp only [List.foldlM_cons, Scanner.step, beginValue, opens, if_true, Option.bind_eq_bind,
            Option.bind_some]
          rw [foldlM_append_of first]
          exact others
  | @object limit members each ih =>
      intro frames room
      have opens : frames.length < maxNestingDepth := by omega
      cases members with
      | nil => simp [Read, tokensOf, tokensOf.memberTokens, separated, Scanner.step, beginValue, opens]
      | cons member rest =>
          have reads : ∀ before, ∀ other ∈ member :: rest,
              Read other.2 (.members before other.1 :: frames) := by
            intro before other held
            exact ih other held _ (by simp only [List.length_cons]; omega)
          have first : (tokensOf member.2).foldlM Scanner.step (.beginValue (.members [] member.1 :: frames)) =
              some (.endValue member.2 (.members [] member.1 :: frames)) :=
            reads [] member List.mem_cons_self
          have others := read_members rest
            (fun before other held => reads before other (List.mem_cons_of_mem _ held)) [] member.1 member.2
          rw [Read, tokensOf, memberTokens_eq, List.map_cons, separated, List.append_assoc]
          simp only [memberTokens, List.cons_append, List.foldlM_cons, Scanner.step, beginValue, opens, if_true,
            Option.bind_eq_bind, Option.bind_some, reduceCtorEq, if_false, beginString, unquote_quote,
            Option.map_some, String.ofList_toList]
          rw [foldlM_append_of first]
          exact others

theorem mem_separated {α : Type} {separator item : α} {parts : List (List α)}
    (held : item ∈ separated separator parts) : item = separator ∨ ∃ part ∈ parts, item ∈ part := by
  cases parts with
  | nil => contradiction
  | cons first rest =>
      simp only [separated, List.mem_append, List.mem_flatMap, List.mem_cons] at held
      obtain inFirst | ⟨part, listed, same | inPart⟩ := held
      · exact Or.inr ⟨first, List.mem_cons_self, inFirst⟩
      · exact Or.inl same
      · exact Or.inr ⟨part, List.mem_cons_of_mem _ listed, inPart⟩

theorem Fits.whole {limit : Nat} {value : Json} (fits : Fits limit value) :
    ∀ token ∈ tokensOf value, token.Whole := by
  induction fits with
  | null limit =>
      intro token held
      cases List.mem_singleton.mp held
      exact fun _ => ⟨rfl, by decide, by simp [Token.render, endsWord, isSpace, punctuation]⟩
  | bool limit value =>
      intro token held
      cases List.mem_singleton.mp held
      cases value <;> exact fun _ => ⟨rfl, by decide, by simp [Token.render, endsWord, isSpace, punctuation]⟩
  | number limit whole =>
      intro token held
      cases List.mem_singleton.mp held
      exact whole
  | string limit text =>
      intro token held
      cases List.mem_singleton.mp held
      exact quote_enclosed text.toList
  | array each ih =>
      intro token held
      simp only [tokensOf, elementTokens_eq, List.mem_cons, List.mem_append, List.not_mem_nil, or_false] at held
      obtain rfl | inside | rfl := held
      · exact .of_mark rfl (by simp)
      · obtain rfl | ⟨part, listed, inPart⟩ := mem_separated inside
        · exact .of_mark rfl (by simp)
        · obtain ⟨element, isElement, rfl⟩ := List.mem_map.mp listed
          exact ih element isElement token inPart
      · exact .of_mark rfl (by simp)
  | object each ih =>
      intro token held
      simp only [tokensOf, memberTokens_eq, List.mem_cons, List.mem_append, List.not_mem_nil, or_false] at held
      obtain rfl | inside | rfl := held
      · exact .of_mark rfl (by simp)
      · obtain rfl | ⟨part, listed, inPart⟩ := mem_separated inside
        · exact .of_mark rfl (by simp)
        · obtain ⟨member, isMember, rfl⟩ := List.mem_map.mp listed
          simp only [memberTokens, List.mem_cons] at inPart
          obtain rfl | rfl | inValue := inPart
          · exact quote_enclosed member.1.toList
          · exact .of_mark rfl (by simp)
          · exact ih member isMember token inValue
      · exact .of_mark rfl (by simp)

/-- A value written out reads back. -/
theorem Fits.parse_render {value : Json} (fits : Fits maxNestingDepth value) :
    parse (render (tokensOf value)) = some value := by
  have read : Read value [] := fits.read [] (by simp)
  have parsed : parseTokens (tokensOf value) = some value := by
    rw [parseTokens, read]
    rfl
  rw [parse, lex_render fits.whole (apart_of_parseTokens parsed)]
  exact parsed

def Frame.Fits (limit : Nat) : Frame → Prop
  | .elements before => ∀ element ∈ before, JsonText.Fits limit element
  | .members before _ => ∀ member ∈ before, JsonText.Fits limit member.2

/-- What stands in the open containers fits under those further out. -/
def FramesFit : List Frame → Prop
  | [] => True
  | frame :: frames => (∃ limit, frames.length + limit + 1 = maxNestingDepth ∧ frame.Fits limit) ∧ FramesFit frames

def ValueFits (value : Json) (frames : List Frame) : Prop :=
  ∃ limit, frames.length + limit = maxNestingDepth ∧ Fits limit value

def Scanner.Sound : Scanner → Prop
  | .beginValue frames => frames.length ≤ maxNestingDepth ∧ FramesFit frames
  | .beginValueOrEmpty frames => frames.length < maxNestingDepth ∧ FramesFit frames
  | .beginStringOrEmpty frames => frames.length < maxNestingDepth ∧ FramesFit frames
  | .beginString members frames => FramesFit (.members members "" :: frames)
  | .endString members name frames => FramesFit (.members members name :: frames)
  | .endValue value frames => ValueFits value frames ∧ FramesFit frames

theorem valueFits_flat {value : Json} {frames : List Frame} (room : frames.length ≤ maxNestingDepth)
    (flat : ∀ limit, Fits limit value) : ValueFits value frames :=
  ⟨maxNestingDepth - frames.length, by omega, flat _⟩

theorem beginValue_sound {frames : List Frame} {token : Token} {next : Scanner} (whole : token.Whole)
    (room : frames.length ≤ maxNestingDepth) (fit : FramesFit frames)
    (stepped : beginValue frames token = some next) : next.Sound := by
  cases token with
  | null =>
      cases stepped
      exact ⟨valueFits_flat room .null, fit⟩
  | bool value =>
      cases stepped
      exact ⟨valueFits_flat room fun limit => .bool limit value, fit⟩
  | number numeral =>
      cases stepped
      refine ⟨valueFits_flat room fun limit => .number limit ?_, fit⟩
      rw [String.toList_ofList]
      exact whole
  | string raw =>
      obtain ⟨text, _, rfl⟩ := Option.map_eq_some_iff.mp stepped
      exact ⟨valueFits_flat room fun limit => .string limit _, fit⟩
  | openArray =>
      simp only [beginValue] at stepped
      split at stepped
      · rename_i opens
        cases stepped
        exact ⟨opens, fit⟩
      · contradiction
  | openObject =>
      simp only [beginValue] at stepped
      split at stepped
      · rename_i opens
        cases stepped
        exact ⟨opens, fit⟩
      · contradiction
  | closeArray => contradiction
  | closeObject => contradiction
  | colon => contradiction
  | comma => contradiction

theorem framesFit_length {frame : Frame} {frames : List Frame} (fit : FramesFit (frame :: frames)) :
    (frame :: frames).length ≤ maxNestingDepth := by
  obtain ⟨⟨limit, sum, _⟩, _⟩ := fit
  simp only [List.length_cons]
  omega

theorem framesFit_open {frames : List Frame} (opens : frames.length < maxNestingDepth)
    (fit : FramesFit frames) {frame : Frame} (empty : ∀ limit, frame.Fits limit) :
    FramesFit (frame :: frames) :=
  ⟨⟨maxNestingDepth - frames.length - 1, by omega, empty _⟩, fit⟩

theorem endValue_sound {value : Json} {frames : List Frame} {token : Token} {next : Scanner}
    (fits : ValueFits value frames) (fit : FramesFit frames)
    (stepped : endValue value frames token = some next) : next.Sound := by
  cases frames with
  | nil => contradiction
  | cons frame frames =>
      obtain ⟨⟨limit, sum, before⟩, outer⟩ := fit
      obtain ⟨limitToo, sumToo, fits⟩ := fits
      have same : limitToo = limit := by
        simp only [List.length_cons] at sumToo
        omega
      subst same
      cases frame with
      | elements earlier =>
          have each : ∀ element ∈ earlier ++ [value], Fits limitToo element := by
            intro element held
            obtain inEarlier | isLast := List.mem_append.mp held
            · exact before element inEarlier
            · cases List.mem_singleton.mp isLast
              exact fits
          cases token with
          | comma =>
              cases stepped
              have fit : FramesFit (.elements (earlier ++ [value]) :: frames) := ⟨⟨limitToo, sum, each⟩, outer⟩
              exact ⟨framesFit_length fit, fit⟩
          | closeArray =>
              cases stepped
              exact ⟨⟨limitToo + 1, by omega, .array each⟩, outer⟩
          | _ => contradiction
      | members earlier name =>
          have each : ∀ member ∈ earlier ++ [(name, value)], Fits limitToo member.2 := by
            intro member held
            obtain inEarlier | isLast := List.mem_append.mp held
            · exact before member inEarlier
            · cases List.mem_singleton.mp isLast
              exact fits
          cases token with
          | comma =>
              cases stepped
              exact ⟨⟨limitToo, sum, each⟩, outer⟩
          | closeObject =>
              cases stepped
              exact ⟨⟨limitToo + 1, by omega, .object each⟩, outer⟩
          | _ => contradiction

theorem beginString_sound {members : List (String × Json)} {frames : List Frame} {token : Token}
    {next : Scanner} (fit : ∀ name, FramesFit (.members members name :: frames))
    (stepped : beginString members frames token = some next) : next.Sound := by
  cases token with
  | string raw =>
      obtain ⟨text, _, rfl⟩ := Option.map_eq_some_iff.mp stepped
      exact fit _
  | _ => contradiction

theorem Scanner.Sound.step {scanner next : Scanner} {token : Token} (sound : scanner.Sound)
    (whole : token.Whole) (stepped : scanner.step token = some next) : next.Sound := by
  cases scanner with
  | beginValue frames => exact beginValue_sound whole sound.1 sound.2 stepped
  | beginValueOrEmpty frames =>
      simp only [Scanner.step] at stepped
      split at stepped
      · cases stepped
        exact ⟨⟨maxNestingDepth - frames.length - 1 + 1, by have := sound.1; omega, .array (by simp)⟩, sound.2⟩
      · have fit : FramesFit (.elements [] :: frames) :=
          framesFit_open sound.1 sound.2 (by simp [Frame.Fits])
        exact beginValue_sound whole (framesFit_length fit) fit stepped
  | beginStringOrEmpty frames =>
      simp only [Scanner.step] at stepped
      split at stepped
      · cases stepped
        exact ⟨⟨maxNestingDepth - frames.length - 1 + 1, by have := sound.1; omega, .object (by simp)⟩, sound.2⟩
      · exact beginString_sound (fun name => framesFit_open sound.1 sound.2 (by simp [Frame.Fits])) stepped
  | beginString members frames => exact beginString_sound (fun name => ⟨sound.1, sound.2⟩) stepped
  | endString members name frames =>
      simp only [Scanner.step] at stepped
      split at stepped
      · cases stepped
        exact ⟨framesFit_length sound, sound⟩
      · contradiction
  | endValue value frames => exact endValue_sound sound.1 sound.2 stepped

theorem Scanner.Sound.run {scanner last : Scanner} {tokens : List Token} (sound : scanner.Sound)
    (whole : ∀ token ∈ tokens, token.Whole) (ran : tokens.foldlM Scanner.step scanner = some last) :
    last.Sound := by
  induction tokens generalizing scanner with
  | nil =>
      cases ran
      exact sound
  | cons token rest ih =>
      rw [List.foldlM_cons] at ran
      obtain ⟨next, stepped, onward⟩ := Option.bind_eq_some_iff.mp ran
      exact ih (sound.step (whole token List.mem_cons_self) stepped)
        (fun other held => whole other (List.mem_cons_of_mem _ held)) onward

theorem fits_of_parse {document : List Char} {value : Json} (parsed : parse document = some value) :
    Fits maxNestingDepth value := by
  obtain ⟨tokens, read, machine⟩ := Option.bind_eq_some_iff.mp parsed
  obtain ⟨last, ran, finished⟩ := Option.bind_eq_some_iff.mp machine
  have start : (Scanner.beginValue []).Sound := ⟨Nat.zero_le _, trivial⟩
  have sound := start.run (whole_of_lex read) ran
  cases last with
  | endValue found frames =>
      cases frames with
      | nil =>
          cases finished
          obtain ⟨⟨limit, sum, fits⟩, _⟩ := sound
          have isAll : limit = maxNestingDepth := by simpa using sum
          exact isAll ▸ fits
      | cons frame frames => contradiction
  | _ => contradiction

end CultureNodes.JsonText
