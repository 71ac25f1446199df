import Mathlib.Data.Nat.Digits.Lemmas

/-!
Unpadded base64url and decimal numerals over byte strings. The decoder passes over line breaks and over
the bits of a last short group that stand for no byte, so several texts decode to the same bytes; a text
the encoder wrote decodes to the bytes it was written from.
-/

namespace CultureNodes

namespace Base64

def letter (sextet : Nat) : UInt8 :=
  if sextet < 26 then UInt8.ofNat (65 + sextet)
  else if sextet < 52 then UInt8.ofNat (71 + sextet)
  else if sextet < 62 then UInt8.ofNat (sextet - 4)
  else if sextet = 62 then 45
  else 95

/-- The sextet of a letter. -/
def sextet? (byte : UInt8) : Option Nat :=
  if 65 ≤ byte ∧ byte ≤ 90 then some (byte.toNat - 65)
  else if 97 ≤ byte ∧ byte ≤ 122 then some (byte.toNat - 71)
  else if 48 ≤ byte ∧ byte ≤ 57 then some (byte.toNat + 4)
  else if byte = 45 then some 62
  else if byte = 95 then some 63
  else none

/-- Cut bytes into sextets, three bytes to a group of four. -/
def sextets : List UInt8 → List Nat
  | [] => []
  | [a] => [a.toNat / 4, a.toNat % 4 * 16]
  | [a, b] => [a.toNat / 4, a.toNat % 4 * 16 + b.toNat / 16, b.toNat % 16 * 4]
  | a :: b :: c :: rest =>
      a.toNat / 4 :: (a.toNat % 4 * 16 + b.toNat / 16) :: (b.toNat % 16 * 4 + c.toNat / 64) ::
        c.toNat % 64 :: sextets rest

/-- Put groups of sextets together again. A group of one holds no byte; the low bits of a short last
group are not looked at. -/
def assemble : List Nat → Option (List UInt8)
  | [] => some []
  | [_] => none
  | [a, b] => some [UInt8.ofNat (a * 4 + b / 16)]
  | [a, b, c] => some [UInt8.ofNat (a * 4 + b / 16), UInt8.ofNat (b % 16 * 16 + c / 4)]
  | a :: b :: c :: d :: rest =>
      (assemble rest).map fun bytes =>
        UInt8.ofNat (a * 4 + b / 16) :: UInt8.ofNat (b % 16 * 16 + c / 4) ::
          UInt8.ofNat (c % 4 * 64 + d) :: bytes

def encode (bytes : List UInt8) : List UInt8 :=
  (sextets bytes).map letter

def lineBreak (byte : UInt8) : Bool :=
  byte = 10 || byte = 13

def decode (text : List UInt8) : Option (List UInt8) :=
  ((text.filter fun byte => !lineBreak byte).mapM sextet?).bind assemble

theorem sextet?_letter {sextet : Nat} (small : sextet < 64) : sextet? (letter sextet) = some sextet := by
  decide +revert

theorem lineBreak_letter {sextet : Nat} (small : sextet < 64) : lineBreak (letter sextet) = false := by
  decide +revert

theorem letter_ne_dot {sextet : Nat} (small : sextet < 64) : letter sextet ≠ 46 := by
  decide +revert

theorem sextets_lt {bytes : List UInt8} : ∀ sextet ∈ sextets bytes, sextet < 64 := by
  induction bytes using sextets.induct with
  | case1 => simp [sextets]
  | case2 a =>
      have := a.toNat_lt
      simp only [sextets, List.forall_mem_cons]
      exact ⟨by omega, by omega, List.forall_mem_nil _⟩
  | case3 a b =>
      have := a.toNat_lt
      have := b.toNat_lt
      simp only [sextets, List.forall_mem_cons]
      exact ⟨by omega, by omega, by omega, List.forall_mem_nil _⟩
  | case4 a b c rest ih =>
      have := a.toNat_lt
      have := b.toNat_lt
      have := c.toNat_lt
      simp only [sextets, List.forall_mem_cons]
      exact ⟨by omega, by omega, by omega, by omega, ih⟩

theorem ofNat_of_eq {byte : UInt8} {value : Nat} (same : value = byte.toNat) :
    UInt8.ofNat value = byte := by
  rw [same]
  exact UInt8.ofNat_toNat

theorem assemble_sextets (bytes : List UInt8) : assemble (sextets bytes) = some bytes := by
  induction bytes using sextets.induct with
  | case1 => simp [sextets, assemble]
  | case2 a =>
      simp only [sextets, assemble, Option.some.injEq, List.cons.injEq, and_true]
      exact ofNat_of_eq (by omega)
  | case3 a b =>
      have := b.toNat_lt
      simp only [sextets, assemble, Option.some.injEq, List.cons.injEq, and_true]
      exact ⟨ofNat_of_eq (by omega), ofNat_of_eq (by omega)⟩
  | case4 a b c rest ih =>
      have := b.toNat_lt
      have := c.toNat_lt
      simp only [sextets, assemble, ih, Option.map_some, Option.some.injEq, List.cons.injEq, and_true]
      exact ⟨ofNat_of_eq (by omega), ofNat_of_eq (by omega), ofNat_of_eq (by omega)⟩

theorem mapM_sextet?_letter {values : List Nat} (small : ∀ sextet ∈ values, sextet < 64) :
    (values.map letter).mapM sextet? = some values := by
  induction values with
  | nil => rfl
  | cons sextet rest ih =>
      rw [List.forall_mem_cons] at small
      simp [sextet?_letter small.1, ih small.2]

theorem mem_encode {byte : UInt8} {bytes : List UInt8} (member : byte ∈ encode bytes) :
    lineBreak byte = false ∧ byte ≠ 46 := by
  obtain ⟨sextet, isSextet, rfl⟩ := List.mem_map.mp member
  have small := sextets_lt sextet isSextet
  exact ⟨lineBreak_letter small, letter_ne_dot small⟩

theorem decode_encode (bytes : List UInt8) : decode (encode bytes) = some bytes := by
  have whole : (encode bytes).filter (fun byte => !lineBreak byte) = encode bytes := by
    rw [List.filter_eq_self]
    intro byte member
    simp [(mem_encode member).1]
  unfold decode
  rw [whole, encode, mapM_sextet?_letter sextets_lt, Option.bind_some, assemble_sextets]

-- The second text has its last letter's low bits set and a line break inside.
example : decode [90, 103] = some [102] ∧ decode [90, 10, 104] = some [102] := by decide

end Base64

namespace Decimal

def digit (value : Nat) : UInt8 :=
  UInt8.ofNat (48 + value)

def formatNat (value : Nat) : List UInt8 :=
  if value = 0 then [48] else (Nat.digits 10 value).reverse.map digit

/-- The decimal numeral of an integer, with a sign when it is negative. -/
def formatInt (value : Int64) : List UInt8 :=
  if value.toInt < 0 then 45 :: formatNat value.toInt.natAbs else formatNat value.toInt.natAbs

def isDigit (byte : UInt8) : Bool :=
  decide (48 ≤ byte) && decide (byte ≤ 57)

def parseNat (text : List UInt8) : Option Nat :=
  if text ≠ [] ∧ text.all isDigit = true then
    some (text.foldl (fun value byte => value * 10 + (byte.toNat - 48)) 0)
  else none

/-- Read a decimal numeral with an optional sign that fits in 64 bits. -/
def parseInt (text : List UInt8) : Option Int64 :=
  match text with
  | 43 :: digits => (parseNat digits).bind fun value =>
      if value < 2 ^ 63 then some (Int64.ofNat value) else none
  | 45 :: digits => (parseNat digits).bind fun value =>
      if value ≤ 2 ^ 63 then some (Int64.ofInt (-value)) else none
  | digits => (parseNat digits).bind fun value =>
      if value < 2 ^ 63 then some (Int64.ofNat value) else none

theorem isDigit_digit {value : Nat} (small : value < 10) : isDigit (digit value) = true := by
  decide +revert

theorem digit_toNat {value : Nat} (small : value < 10) : (digit value).toNat - 48 = value := by
  decide +revert

theorem mem_formatNat {value : Nat} {byte : UInt8} (member : byte ∈ formatNat value) :
    ∃ small < 10, byte = digit small := by
  unfold formatNat at member
  split at member
  · exact ⟨0, by omega, List.mem_singleton.mp member⟩
  · obtain ⟨small, isDigit, rfl⟩ := List.mem_map.mp member
    exact ⟨small, Nat.digits_lt_base (by omega) (List.mem_reverse.mp isDigit), rfl⟩

/-- Reading the digits from the most significant one down. -/
theorem foldl_digits {digits : List Nat} (small : ∀ value ∈ digits, value < 10) :
    (digits.reverse.map digit).foldl (fun value byte => value * 10 + (byte.toNat - 48)) 0 =
      Nat.ofDigits 10 digits := by
  induction digits with
  | nil => rfl
  | cons value rest ih =>
      rw [List.forall_mem_cons] at small
      rw [List.reverse_cons, List.map_append, List.foldl_append, ih small.2, Nat.ofDigits_cons]
      simp only [List.map_cons, List.map_nil, List.foldl_cons, List.foldl_nil, digit_toNat small.1]
      omega

theorem parseNat_formatNat (value : Nat) : parseNat (formatNat value) = some value := by
  have allDigits : (formatNat value).all isDigit = true := by
    rw [List.all_eq_true]
    intro byte member
    obtain ⟨small, bound, rfl⟩ := mem_formatNat member
    exact isDigit_digit bound
  by_cases zero : value = 0
  · subst zero
    rfl
  · have written : formatNat value = (Nat.digits 10 value).reverse.map digit := if_neg zero
    have nonempty : formatNat value ≠ [] := by
      simp [written, Nat.digits_ne_nil_iff_ne_zero, zero]
    unfold parseNat
    rw [if_pos ⟨nonempty, allDigits⟩, written,
      foldl_digits fun small member => Nat.digits_lt_base (by omega) member, Nat.ofDigits_digits]

theorem formatNat_head {value : Nat} {first : UInt8} {rest : List UInt8}
    (written : formatNat value = first :: rest) : first ≠ 43 ∧ first ≠ 45 := by
  have plain : ∀ small < 10, digit small ≠ 43 ∧ digit small ≠ 45 := by decide
  obtain ⟨small, bound, rfl⟩ := mem_formatNat (written ▸ List.mem_cons_self)
  exact plain small bound

theorem parseInt_formatInt (value : Int64) : parseInt (formatInt value) = some value := by
  have low := value.le_toInt
  have high := value.toInt_lt
  have wide : (2 : Int) ^ 63 = 9223372036854775808 := by decide
  unfold formatInt
  split
  · rename_i negative
    have whole : (-(value.toInt.natAbs : Int)) = value.toInt := by omega
    simp only [parseInt, parseNat_formatNat, Option.bind_some]
    rw [if_pos (by omega), whole, Int64.ofInt_toInt]
  · rename_i positive
    have whole : (value.toInt.natAbs : Int) = value.toInt := by omega
    cases written : formatNat value.toInt.natAbs with
    | nil =>
        have read := parseNat_formatNat value.toInt.natAbs
        rw [written] at read
        cases read
    | cons first rest =>
        have plain := formatNat_head written
        have unsigned : parseInt (first :: rest) = (parseNat (first :: rest)).bind fun value =>
            if value < 2 ^ 63 then some (Int64.ofNat value) else none := by
          unfold parseInt
          split <;> simp_all
        rw [unsigned, ← written, parseNat_formatNat, Option.bind_some, if_pos (by omega)]
        rw [← Int64.ofInt_eq_ofNat, whole, Int64.ofInt_toInt]

theorem mem_formatInt {value : Int64} {byte : UInt8} (member : byte ∈ formatInt value) :
    byte ≠ 10 ∧ byte ≠ 46 := by
  have plain : ∀ small < 10, digit small ≠ 10 ∧ digit small ≠ 46 := by decide
  unfold formatInt at member
  split at member
  · rcases List.mem_cons.mp member with rfl | isDigit
    · decide
    · obtain ⟨small, bound, rfl⟩ := mem_formatNat isDigit
      exact plain small bound
  · obtain ⟨small, bound, rfl⟩ := mem_formatNat member
    exact plain small bound

end Decimal
end CultureNodes
