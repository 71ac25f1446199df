import Mathlib.Data.List.Basic
import CultureNodes.Library.Base64

/-!
JSON values, and reading a part of one along the reference tokens of a JSON Pointer. A number is its
numeral; the members of an object are listed in the order of their keys.
-/

namespace CultureNodes

inductive Json where
  | null
  | bool (value : Bool)
  | number (numeral : String)
  | string (text : String)
  | array (elements : List Json)
  | object (members : List (String × Json))
deriving Repr, Inhabited

namespace Json

theorem induction {motive : Json → Prop} (null : motive .null) (bool : ∀ value, motive (.bool value))
    (number : ∀ numeral, motive (.number numeral)) (string : ∀ text, motive (.string text))
    (array : ∀ elements, (∀ element ∈ elements, motive element) → motive (.array elements))
    (object : ∀ members, (∀ member ∈ members, motive member.2) → motive (.object members)) :
    ∀ value, motive value
  | .null => null
  | .bool value => bool value
  | .number numeral => number numeral
  | .string text => string text
  | .array elements => array elements fun element _ => induction null bool number string array object element
  | .object members => object members fun member _ => induction null bool number string array object member.2
decreasing_by
  · rename_i held
    have smaller := List.sizeOf_lt_of_mem held
    simp only [Json.array.sizeOf_spec]
    omega
  · rename_i held
    have smaller := List.sizeOf_lt_of_mem held
    cases member
    simp only [Json.object.sizeOf_spec, Prod.mk.sizeOf_spec] at smaller ⊢
    omega

def member? (key : String) : Json → Option Json
  | object members => members.lookup key
  | _ => none

def text? (key : String) (value : Json) : Option String :=
  match value.member? key with
  | some (string text) => some text
  | _ => none

/-- A letter without its case. The long s and the Kelvin sign are the letters outside ASCII with a case inside. -/
def foldChar (char : Char) : Char :=
  if char = Char.ofNat 0x17F then 's' else if char = Char.ofNat 0x212A then 'k' else char.toLower

/-- The text a record's field of an ASCII name is decoded to: the last text among the members whose name is the
field's in any case, empty where there is none. Decoding fails where such a member is neither a text nor null,
and where the value is neither an object nor null. -/
def decodeText (name : String) : Json → Option String
  | object members =>
      let named := (members.filter fun member => member.1.toList.map foldChar = name.toList.map foldChar).map Prod.snd
      let fits := named.all fun value => match value with
        | string _ | null => true
        | _ => false
      if fits then
        some (named.foldl (fun text value => match value with
          | string next => next
          | _ => text) "")
      else none
  | null => some ""
  | _ => none

/-- Why a value has no part at some tokens: what was looked for, and the tokens up to there. -/
inductive Absent where
  | member (token : String) (along : List String)
  | element (token : String) (along : List String)
  | insideScalar (token : String) (along : List String)
deriving DecidableEq, Repr

/-- The number a reference token into an array reads as. -/
def index? (token : String) : Option Nat :=
  (Decimal.parseInt token.toUTF8.data.toList).bind fun value =>
    if 0 ≤ value.toInt then some value.toInt.toNat else none

/-- One step of a walk, `along` being the tokens already taken. -/
def step (along : List String) (token : String) : Json → Except Absent Json
  | object members =>
      match members.lookup token with
      | some next => .ok next
      | none => .error (.member token (along ++ [token]))
  | array elements =>
      match (index? token).bind (elements[·]?) with
      | some next => .ok next
      | none => .error (.element token (along ++ [token]))
  | _ => .error (.insideScalar token along)

def walk (along : List String) (value : Json) : List String → Except Absent Json
  | [] => .ok value
  | token :: rest =>
      match step along token value with
      | .ok next => walk (along ++ [token]) next rest
      | .error absent => .error absent

end Json
end CultureNodes
