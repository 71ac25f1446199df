import Mathlib.Algebra.Order.Round
import Mathlib.Algebra.Order.Floor.Semiring
import Mathlib.Data.Int.Log
import Mathlib.Data.Nat.Digits.Lemmas
import Mathlib.Data.Rat.Floor
import CultureNodes.Library.JsonText

/-!
Numbers of double precision between the numeral they are read from and the one they are written as. A
double stands for its magnitude, an exact rational; what is written is the decimal with the fewest digits
that reads back.
-/

namespace CultureNodes

open JsonText (isDigit isExponent isFraction isUnsigned isNumeral)

namespace Numeral

/-- The number that decimal digits spell. -/
def spelled (digits : List Char) : Nat :=
  digits.foldl (fun value char => value * 10 + (char.toNat - 48)) 0

/-- The power of ten at the end of a numeral. -/
def exponent : List Char → Int
  | _ :: '-' :: digits => -spelled digits
  | _ :: '+' :: digits => spelled digits
  | _ :: digits => spelled digits
  | [] => 0

/-- The exact value of a numeral without a sign. -/
def magnitude (chars : List Char) : ℚ :=
  let whole := chars.takeWhile isDigit
  match chars.dropWhile isDigit with
  | '.' :: rest =>
      let fraction := rest.takeWhile isDigit
      spelled (whole ++ fraction) * 10 ^ (exponent (rest.dropWhile isDigit) - fraction.length)
  | rest => spelled whole * 10 ^ exponent rest

/-- The sign of a numeral, and the rest of it. -/
def split : List Char → Bool × List Char
  | '-' :: rest => (true, rest)
  | rest => (false, rest)

/-- The exact value of a numeral. -/
def value (chars : List Char) : ℚ :=
  if (split chars).1 then -magnitude (split chars).2 else magnitude (split chars).2

def digitChar (digit : Nat) : Char := Char.ofNat (48 + digit)

def writeNat (number : Nat) : List Char :=
  if number = 0 then ['0'] else (Nat.digits 10 number).reverse.map digitChar

end Numeral

/-- A coefficient and a power of ten. -/
structure Scientific where
  coefficient : Nat
  exponent : Int
deriving DecidableEq, Repr

namespace Scientific

open Numeral (writeNat)

variable (decimal : Scientific)

def value : ℚ := decimal.coefficient * 10 ^ decimal.exponent

/-- Drop the zeros at the end of the coefficient. -/
def trim : Nat → Scientific → Scientific
  | 0, decimal => decimal
  | fuel + 1, decimal =>
      if decimal.coefficient ≠ 0 ∧ decimal.coefficient % 10 = 0 then
        trim fuel ⟨decimal.coefficient / 10, decimal.exponent + 1⟩
      else decimal

/-- Digits with the decimal point behind so many of them. -/
def writeFixed (digits : List Char) (point : Int) : List Char :=
  if point ≤ 0 then '0' :: '.' :: (List.replicate (-point).toNat '0' ++ digits)
  else if digits.length ≤ point.toNat then digits ++ List.replicate (point.toNat - digits.length) '0'
  else digits.take point.toNat ++ '.' :: digits.drop point.toNat

/-- Digits with the decimal point behind the first, and the power of ten that puts it in its place. -/
def writeExponent (digits : List Char) (point : Int) : List Char :=
  let fraction := if digits.length = 1 then [] else '.' :: digits.drop 1
  let sign := if point - 1 < 0 then '-' else '+'
  digits.take 1 ++ (fraction ++ 'e' :: sign :: writeNat (point - 1).natAbs)

/-- Numbers from a millionth up to `10^21` are written without an exponent. -/
def write : List Char :=
  let digits := writeNat decimal.coefficient
  let point : Int := digits.length + decimal.exponent
  if decimal.coefficient = 0 then ['0']
  else if -5 ≤ point ∧ point ≤ 21 then writeFixed digits point
  else writeExponent digits point

end Scientific

namespace Float64

/-- The nearest integer, and of two that are as near the even one. -/
def roundHalfEven (number : ℚ) : Int :=
  let below := ⌊number⌋
  if number - below < 1 / 2 then below
  else if 1 / 2 < number - below then below + 1
  else if below % 2 = 0 then below
  else below + 1

/-- The power of two of the last place that a double of this magnitude has. -/
def lastPlace (magnitude : ℚ) : Int := max (Int.log 2 magnitude - 52) (-1074)

/-- The double nearest to a magnitude, unless it is out of range. -/
def nearest (magnitude : ℚ) : Option ℚ :=
  let unit : ℚ := 2 ^ lastPlace magnitude
  let double := roundHalfEven (magnitude / unit) * unit
  if double < 2 ^ 1024 then some double else none

def readsBack (double : ℚ) (decimal : Scientific) : Bool := nearest decimal.value = some double

/-- The decimal of so many digits that reads back as a double: the one below or the one above, and the
nearer where both do. -/
def withDigits (double : ℚ) (count : Nat) : Option Scientific :=
  let exponent := Int.log 10 double + 1 - count
  let scaled := double / 10 ^ exponent
  let below : Scientific := ⟨⌊scaled⌋₊, exponent⟩
  let above : Scientific := ⟨⌈scaled⌉₊, exponent⟩
  if readsBack double below ∧ readsBack double above then some ⟨(roundHalfEven scaled).toNat, exponent⟩
  else if readsBack double below then some below
  else if readsBack double above then some above
  else none

/-- The double in full: its denominator is a power of two. -/
def exact (double : ℚ) : Scientific := ⟨double.num.natAbs * 5 ^ Nat.log 2 double.den, -Nat.log 2 double.den⟩

/-- The fewest digits that read back. Seventeen are always enough. -/
def shortest (double : ℚ) : Scientific :=
  if double = 0 then ⟨0, 0⟩
  else
    let decimal := ((List.range 17).findSome? fun count => withDigits double (count + 1)).getD (exact double)
    Scientific.trim decimal.coefficient decimal

/-- The double nearest to a magnitude in their range. -/
def rounded (magnitude : ℚ) : ℚ := (nearest magnitude).getD 0

theorem roundHalfEven_nonneg {number : ℚ} (nonneg : 0 ≤ number) : 0 ≤ roundHalfEven number := by
  have below : 0 ≤ ⌊number⌋ := Int.floor_nonneg.mpr nonneg
  simp only [roundHalfEven]
  split_ifs
  · exact below
  · exact Int.add_nonneg below Int.one_nonneg
  · exact below
  · exact Int.add_nonneg below Int.one_nonneg

theorem rounded_nonneg {magnitude : ℚ} (nonneg : 0 ≤ magnitude) : 0 ≤ rounded magnitude := by
  have unit : (0 : ℚ) < 2 ^ lastPlace magnitude := zpow_pos two_pos _
  simp only [rounded, nearest]
  split_ifs
  · exact mul_nonneg (Int.cast_nonneg (roundHalfEven_nonneg (div_nonneg nonneg unit.le))) unit.le
  · exact le_rfl

/-- A number is in the range of doubles. -/
def inRange (magnitude : ℚ) : Bool := (nearest magnitude).isSome

/-- What a magnitude is written as once it has been a double. -/
def rewritten (magnitude : ℚ) : Scientific := shortest (rounded magnitude)

end Float64

/-- The numeral that is written for the double of a numeral. -/
def Numeral.throughFloat64 (chars : List Char) : List Char :=
  let text := (Float64.rewritten (Numeral.magnitude (Numeral.split chars).2)).write
  if (Numeral.split chars).1 then '-' :: text else text

namespace Numeral

variable {digits more rest : List Char} {char : Char}

def Digits (chars : List Char) : Prop := ∀ char ∈ chars, isDigit char = true

theorem digitChar_isDigit : ∀ digit < 10, isDigit (digitChar digit) = true := by decide

theorem digitChar_toNat : ∀ digit < 10, (digitChar digit).toNat - 48 = digit := by decide

theorem digitChar_ne_zero : ∀ digit < 10, digit ≠ 0 → digitChar digit ≠ '0' := by decide

theorem Digits.append (one : Digits digits) (two : Digits more) : Digits (digits ++ more) := by
  intro char held
  rcases List.mem_append.mp held with first | second
  · exact one char first
  · exact two char second

theorem Digits.replicate (count : Nat) : Digits (List.replicate count '0') := by
  intro char held
  rw [List.eq_of_mem_replicate held]
  rfl

theorem Digits.take (all : Digits digits) (count : Nat) : Digits (digits.take count) :=
  fun char held => all char (List.mem_of_mem_take held)

theorem Digits.drop (all : Digits digits) (count : Nat) : Digits (digits.drop count) :=
  fun char held => all char (List.mem_of_mem_drop held)

/-- The text does not go on with a digit. -/
def Stops (chars : List Char) : Prop := ∀ char, chars.head? = some char → isDigit char = false

theorem Digits.takeWhile (all : Digits digits) (stops : Stops rest) :
    (digits ++ rest).takeWhile isDigit = digits := by
  rw [List.takeWhile_append_of_pos all]
  cases rest with
  | nil => simp
  | cons char rest => rw [List.takeWhile_cons_of_neg (by simp [stops char rfl]), List.append_nil]

theorem Digits.dropWhile (all : Digits digits) (stops : Stops rest) :
    (digits ++ rest).dropWhile isDigit = rest := by
  rw [List.dropWhile_append_of_pos all]
  cases rest with
  | nil => rfl
  | cons char rest => rw [List.dropWhile_cons_of_neg (by simp [stops char rfl])]

theorem spelled_append (digits more : List Char) :
    spelled (digits ++ more) = spelled digits * 10 ^ more.length + spelled more := by
  induction more using List.reverseRecOn with
  | nil => simp [spelled]
  | append_singleton more last ih =>
      have step : ∀ chars : List Char, spelled (chars ++ [last]) = spelled chars * 10 + (last.toNat - 48) := by
        intro chars
        simp [spelled]
      rw [← List.append_assoc, step, step, ih, List.length_append, List.length_singleton, pow_succ]
      ring

theorem spelled_zeros (count : Nat) : spelled (List.replicate count '0') = 0 := by
  induction count with
  | zero => rfl
  | succ count ih => rw [List.replicate_succ', spelled_append, ih]; rfl

theorem writeNat_digits (number : Nat) : Digits (writeNat number) := by
  unfold writeNat
  split
  · intro char held
    rw [List.mem_singleton.mp held]
    rfl
  · intro char held
    obtain ⟨digit, isOne, rfl⟩ := List.mem_map.mp held
    exact digitChar_isDigit digit (Nat.digits_lt_base (by omega) (List.mem_reverse.mp isOne))

theorem writeNat_ne_nil (number : Nat) : writeNat number ≠ [] := by
  unfold writeNat
  split
  · simp
  · rename_i positive
    simp [Nat.digits_ne_nil_iff_ne_zero, positive]

theorem spelled_digits {listed : List Nat} (small : ∀ digit ∈ listed, digit < 10) :
    spelled (listed.reverse.map digitChar) = Nat.ofDigits 10 listed := by
  induction listed with
  | nil => rfl
  | cons digit rest ih =>
      rw [List.forall_mem_cons] at small
      rw [List.reverse_cons, List.map_append, spelled_append, ih small.2, Nat.ofDigits_cons]
      simp [spelled, digitChar_toNat digit small.1]
      ring

theorem spelled_writeNat (number : Nat) : spelled (writeNat number) = number := by
  unfold writeNat
  split
  · rename_i zero
    rw [zero]
    rfl
  · rw [spelled_digits fun digit held => Nat.digits_lt_base (by omega) held, Nat.ofDigits_digits]

theorem writeNat_head {number : Nat} (positive : number ≠ 0) :
    ∃ first rest, writeNat number = first :: rest ∧ first ≠ '0' ∧ isDigit first = true := by
  have nonempty : Nat.digits 10 number ≠ [] := Nat.digits_ne_nil_iff_ne_zero.mpr positive
  have leads := Nat.getLast_digit_ne_zero 10 positive
  have small := Nat.digits_lt_base (b := 10) (m := number) (by omega) (List.getLast_mem nonempty)
  refine ⟨digitChar ((Nat.digits 10 number).getLast nonempty),
    (Nat.digits 10 number).dropLast.reverse.map digitChar, ?_, digitChar_ne_zero _ small leads,
    digitChar_isDigit _ small⟩
  have parts : (Nat.digits 10 number).reverse =
      (Nat.digits 10 number).getLast nonempty :: (Nat.digits 10 number).dropLast.reverse := by
    conv_lhs => rw [← List.dropLast_append_getLast nonempty]
    simp
  rw [writeNat, if_neg positive, parts, List.map_cons]

/-- How a numeral may go on behind its digits, and the power of ten that stands there. -/
inductive Tail : List Char → Int → Prop
  | none : Tail [] 0
  | up {digits : List Char} (all : Digits digits) (nonempty : digits ≠ []) :
      Tail ('e' :: '+' :: digits) (spelled digits)
  | down {digits : List Char} (all : Digits digits) (nonempty : digits ≠ []) :
      Tail ('e' :: '-' :: digits) (-spelled digits)

/-- The point and the digits behind it, if there are any. -/
def fractionText (fraction : List Char) : List Char := if fraction = [] then [] else '.' :: fraction

section

variable {whole fraction tail : List Char} {power : Int}

theorem Tail.stops (isTail : Tail tail power) : Stops tail := by
  intro char leads
  cases isTail with
  | none => cases leads
  | up | down =>
      cases leads
      rfl

theorem Tail.exponent (isTail : Tail tail power) : Numeral.exponent tail = power := by
  cases isTail <;> rfl

theorem Tail.isExponent (isTail : Tail tail power) : JsonText.isExponent tail = true := by
  cases isTail with
  | none => rfl
  | up all nonempty | down all nonempty =>
      simp only [JsonText.isExponent]
      simpa [nonempty, Digits] using all

theorem stops_fraction (isTail : Tail tail power) : Stops (fractionText fraction ++ tail) := by
  unfold fractionText
  split
  · exact isTail.stops
  · intro char leads
    cases leads
    rfl

/-- The value of a numeral with these parts. -/
theorem magnitude_parts (wholes : Digits whole) (fractions : Digits fraction) (isTail : Tail tail power) :
    magnitude (whole ++ (fractionText fraction ++ tail)) =
      spelled (whole ++ fraction) * 10 ^ (power - fraction.length) := by
  unfold magnitude
  rw [wholes.takeWhile (stops_fraction isTail), wholes.dropWhile (stops_fraction isTail)]
  by_cases none : fraction = []
  · rw [fractionText, if_pos none, none, List.nil_append, List.append_nil]
    cases isTail with
    | none => simp [Numeral.exponent]
    | up | down => simp [Numeral.exponent]
  · rw [fractionText, if_neg none, List.cons_append]
    change (spelled (whole ++ (fraction ++ tail).takeWhile isDigit) : ℚ) *
      10 ^ (Numeral.exponent ((fraction ++ tail).dropWhile isDigit) -
        ((fraction ++ tail).takeWhile isDigit).length) = _
    rw [fractions.takeWhile isTail.stops, fractions.dropWhile isTail.stops, isTail.exponent]

theorem isFraction_parts (fractions : Digits fraction) (isTail : Tail tail power) :
    isFraction (fractionText fraction ++ tail) = true := by
  by_cases none : fraction = []
  · rw [fractionText, if_pos none, List.nil_append]
    have ends := isTail.isExponent
    cases isTail with
    | none => rfl
    | up | down => exact ends
  · rw [fractionText, if_neg none, List.cons_append, isFraction, fractions.takeWhile isTail.stops,
      fractions.dropWhile isTail.stops, isTail.isExponent]
    simpa using none

/-- The digits before the point: a zero, or digits that do not begin with one. -/
inductive Whole : List Char → Prop
  | zero : Whole ['0']
  | leading {first : Char} {rest : List Char} (positive : first ≠ '0') (all : Digits (first :: rest)) :
      Whole (first :: rest)

theorem Whole.areDigits (isWhole : Whole whole) : Digits whole := by
  cases isWhole with
  | zero =>
      intro char held
      rw [List.mem_singleton.mp held]
      rfl
  | leading _ all => exact all

theorem isUnsigned_parts (isWhole : Whole whole) (fractions : Digits fraction) (isTail : Tail tail power) :
    isUnsigned (whole ++ (fractionText fraction ++ tail)) = true := by
  have goesOn := isFraction_parts fractions isTail
  cases isWhole with
  | zero => exact goesOn
  | @leading first rest positive all =>
      have onward : Digits rest := fun char held => all char (List.mem_cons_of_mem _ held)
      rw [List.cons_append, isUnsigned, all first List.mem_cons_self,
        onward.dropWhile (stops_fraction isTail), goesOn]
      · rfl
      · exact positive

end

end Numeral

namespace Scientific

open Numeral

variable (decimal : Scientific)

def Parts (text : List Char) (number : ℚ) : Prop :=
  ∃ whole fraction tail power, Whole whole ∧ Digits fraction ∧ Tail tail power ∧
    text = whole ++ (fractionText fraction ++ tail) ∧
    (spelled (whole ++ fraction) : ℚ) * 10 ^ (power - fraction.length) = number

theorem writeFixed_parts (positive : decimal.coefficient ≠ 0) :
    Parts (writeFixed (writeNat decimal.coefficient)
      ((writeNat decimal.coefficient).length + decimal.exponent)) decimal.value := by
  have all := writeNat_digits decimal.coefficient
  have reads := spelled_writeNat decimal.coefficient
  obtain ⟨first, rest, leads, notZero, isOne⟩ := writeNat_head positive
  have nonempty := writeNat_ne_nil decimal.coefficient
  generalize writeNat decimal.coefficient = digits at all reads leads nonempty
  unfold writeFixed
  by_cases low : (digits.length : Int) + decimal.exponent ≤ 0
  · rw [if_pos low]
    refine ⟨['0'], List.replicate (-((digits.length : Int) + decimal.exponent)).toNat '0' ++ digits, [], 0, .zero,
      (Digits.replicate _).append all, .none, ?_, ?_⟩
    · simp [fractionText, nonempty]
    · have count : ((List.replicate (-((digits.length : Int) + decimal.exponent)).toNat '0' ++ digits).length :
          Int) = -decimal.exponent := by
        rw [List.length_append, List.length_replicate]
        push_cast
        omega
      rw [spelled_append, spelled_append, spelled_zeros, reads, count]
      simp [spelled, value]
  · rw [if_neg low]
    by_cases long : digits.length ≤ ((digits.length : Int) + decimal.exponent).toNat
    · rw [if_pos long]
      refine ⟨digits ++ List.replicate (((digits.length : Int) + decimal.exponent).toNat - digits.length) '0', [], [],
        0, ?_, ?_, .none, ?_, ?_⟩
      · rw [leads, List.cons_append]
        refine .leading notZero ?_
        rw [← List.cons_append, ← leads]
        exact all.append (Digits.replicate _)
      · exact fun _ held => absurd held List.not_mem_nil
      · simp [fractionText]
      · have zeros : ((digits.length : Int) + decimal.exponent).toNat - digits.length = decimal.exponent.toNat := by
          omega
        have count : (decimal.exponent.toNat : Int) = decimal.exponent := by omega
        rw [List.append_nil, spelled_append, spelled_zeros, reads, List.length_replicate, zeros]
        calc ((decimal.coefficient * 10 ^ decimal.exponent.toNat + 0 : Nat) : ℚ) *
              10 ^ ((0 : Int) - (([] : List Char).length : Int))
            = decimal.coefficient * 10 ^ (decimal.exponent.toNat : Int) := by
              rw [zpow_natCast, List.length_nil, Nat.cast_zero, sub_zero, zpow_zero, mul_one, add_zero]
              push_cast
              rfl
          _ = decimal.value := by rw [count, value]
    · rw [if_neg long]
      have count : ((digits.drop ((digits.length : Int) + decimal.exponent).toNat).length : Int) =
          -decimal.exponent := by
        rw [List.length_drop]
        omega
      refine ⟨digits.take ((digits.length : Int) + decimal.exponent).toNat,
        digits.drop ((digits.length : Int) + decimal.exponent).toNat, [], 0, ?_, all.drop _, .none, ?_, ?_⟩
      · obtain ⟨more, isMore⟩ : ∃ more, ((digits.length : Int) + decimal.exponent).toNat = more + 1 :=
          ⟨((digits.length : Int) + decimal.exponent).toNat - 1, by omega⟩
        have taken := all.take (more + 1)
        rw [isMore]
        rw [leads, List.take_succ_cons] at taken ⊢
        exact .leading notZero taken
      · have behind : digits.drop ((digits.length : Int) + decimal.exponent).toNat ≠ [] := by
          rw [ne_eq, List.drop_eq_nil_iff]
          omega
        simp [fractionText, behind]
      · rw [List.take_append_drop, reads, count, value]
        simp

theorem writeExponent_parts (positive : decimal.coefficient ≠ 0) :
    Parts (writeExponent (writeNat decimal.coefficient)
      ((writeNat decimal.coefficient).length + decimal.exponent)) decimal.value := by
  have all := writeNat_digits decimal.coefficient
  have reads := spelled_writeNat decimal.coefficient
  obtain ⟨first, rest, leads, notZero, isOne⟩ := writeNat_head positive
  generalize writeNat decimal.coefficient = digits at all reads leads
  subst leads
  have others : Digits rest := fun char held => all char (List.mem_cons_of_mem _ held)
  have point : (((first :: rest).length : Int) + decimal.exponent - 1) = rest.length + decimal.exponent := by
    rw [List.length_cons]
    push_cast
    ring
  have fraction : (if (first :: rest).length = 1 then [] else '.' :: (first :: rest).drop 1) = fractionText rest := by
    cases rest <;> simp [fractionText]
  have valued : (spelled ([first] ++ rest) : ℚ) * 10 ^ ((rest.length : Int) + decimal.exponent - rest.length) =
      decimal.value := by
    rw [List.singleton_append, reads, add_sub_cancel_left, value]
  unfold writeExponent
  rw [fraction, point]
  by_cases below : (rest.length : Int) + decimal.exponent < 0
  · rw [if_pos below]
    refine ⟨[first], rest, _, _, .leading notZero ?_, others, .down (writeNat_digits _) (writeNat_ne_nil _), rfl, ?_⟩
    · exact fun char held => all char (List.mem_singleton.mp held ▸ List.mem_cons_self)
    · rw [spelled_writeNat]
      have power : (-(((rest.length : Int) + decimal.exponent).natAbs : Int)) = rest.length + decimal.exponent := by
        omega
      rw [power]
      exact valued
  · rw [if_neg below]
    refine ⟨[first], rest, _, _, .leading notZero ?_, others, .up (writeNat_digits _) (writeNat_ne_nil _), rfl, ?_⟩
    · exact fun char held => all char (List.mem_singleton.mp held ▸ List.mem_cons_self)
    · rw [spelled_writeNat]
      have power : ((((rest.length : Int) + decimal.exponent).natAbs : Int)) = rest.length + decimal.exponent := by
        omega
      rw [power]
      exact valued

theorem write_parts : Parts decimal.write decimal.value := by
  unfold write
  by_cases zero : decimal.coefficient = 0
  · rw [if_pos zero]
    refine ⟨['0'], [], [], 0, .zero, fun _ held => absurd held List.not_mem_nil, .none, rfl, ?_⟩
    simp [spelled, value, zero]
  · rw [if_neg zero]
    split
    · exact decimal.writeFixed_parts zero
    · exact decimal.writeExponent_parts zero

/-- What is written is the numeral of the decimal. -/
theorem magnitude_write : magnitude decimal.write = decimal.value := by
  obtain ⟨whole, fraction, tail, power, isWhole, fractions, isTail, text, valued⟩ := decimal.write_parts
  rw [text, magnitude_parts isWhole.areDigits fractions isTail, valued]

theorem isUnsigned_write : isUnsigned decimal.write = true := by
  obtain ⟨whole, fraction, tail, power, isWhole, fractions, isTail, text, _⟩ := decimal.write_parts
  rw [text]
  exact isUnsigned_parts isWhole fractions isTail

theorem write_unsigned : Numeral.split decimal.write = (false, decimal.write) := by
  obtain ⟨whole, fraction, tail, power, isWhole, _, _, text, _⟩ := decimal.write_parts
  rw [text]
  cases isWhole with
  | zero => rfl
  | @leading first rest _ all =>
      have isOne := all first List.mem_cons_self
      rw [List.cons_append, Numeral.split]
      rintro _ isSign
      rw [List.cons.injEq] at isSign
      rw [isSign.1] at isOne
      contradiction

end Scientific

namespace Numeral

variable (chars : List Char)

theorem isNumeral_throughFloat64 : isNumeral (throughFloat64 chars) = true := by
  unfold throughFloat64
  have plain := (Float64.rewritten (magnitude (split chars).2)).isUnsigned_write
  have unsigned := (Float64.rewritten (magnitude (split chars).2)).write_unsigned
  generalize (Float64.rewritten (magnitude (split chars).2)).write = text at plain unsigned
  split
  · exact plain
  · cases text with
    | nil => exact plain
    | cons first rest =>
        by_cases isSign : first = '-'
        · subst isSign
          cases unsigned
        · rw [isNumeral]
          · exact plain
          · rintro _ same
            exact isSign (List.cons.inj same).1

/-- A numeral means the same after it has been a double exactly when its magnitude is the decimal that is
written for it. -/
theorem value_throughFloat64_iff : value (throughFloat64 chars) = value chars ↔
    (Float64.rewritten (magnitude (split chars).2)).value = magnitude (split chars).2 := by
  have written := (Float64.rewritten (magnitude (split chars).2)).magnitude_write
  have unsigned := (Float64.rewritten (magnitude (split chars).2)).write_unsigned
  rw [← written]
  cases signed : (split chars).1 with
  | true =>
      have read : value ('-' :: (Float64.rewritten (magnitude (split chars).2)).write) =
          -magnitude (Float64.rewritten (magnitude (split chars).2)).write := rfl
      rw [throughFloat64, value, value, signed]
      simp only [if_true]
      rw [← value, read, neg_inj]
  | false =>
      rw [throughFloat64, value, value, signed]
      simp only [Bool.false_eq_true, if_false, unsigned]

end Numeral

end CultureNodes
