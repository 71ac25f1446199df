import Mathlib.Data.String.Basic

/-!
Identifiers that sort by the time they were made. An id is 48 bits of a clock's milliseconds and 80 bits
that are random in the first id of a millisecond and counted up from there; its text orders as the
number does. Each process has a clock and a counter of its own.
-/

namespace CultureNodes.Store

def crockford : List Char := "0123456789ABCDEFGHJKMNPQRSTVWXYZ".toList

/-- The last characters of a payload, each for five of its bits. -/
def crockfordDigits : Nat → Nat → List Char
  | 0, _ => []
  | count + 1, payload => crockford.getD (payload / 32 ^ count % 32) '0' :: crockfordDigits count payload

/-- The payload in 26 characters, the first of which has only three bits to carry. -/
def encodeULID (payload : Nat) : String :=
  String.ofList (crockfordDigits 26 payload)

structure Ulid where
  ms : BitVec 48
  rand : BitVec 80
deriving DecidableEq, Repr

def Ulid.payload (ulid : Ulid) : Nat := ulid.ms.toNat * 2 ^ 80 + ulid.rand.toNat

def Ulid.text (ulid : Ulid) : String := encodeULID ulid.payload

/-- What a process keeps of its last id. -/
structure UlidState where
  lastMS : Int := 0
  lastRand : BitVec 80 := 0
deriving DecidableEq, Repr

/-- A reading of the clock, with what the random source has to give. -/
structure Tick where
  ms : Int
  fresh : BitVec 80
deriving DecidableEq, Repr

/-- The counter goes round when it is full. -/
def incrementCounter (counter : BitVec 80) : BitVec 80 := counter + 1

def newULID (state : UlidState) (tick : Tick) : UlidState × Ulid :=
  let randPart := if tick.ms = state.lastMS then incrementCounter state.lastRand else tick.fresh
  (⟨tick.ms, randPart⟩, ⟨BitVec.ofInt 48 tick.ms, randPart⟩)

theorem crockford_lt {first second : Nat} (less : first < second) (within : second < 32) :
    crockford.getD first '0' < crockford.getD second '0' := by
  have all : ∀ second < 32, ∀ first < second,
      crockford.getD first '0' < crockford.getD second '0' := by decide
  exact all second within first less

theorem crockfordDigits_lt {count first second : Nat} (less : first % 32 ^ count < second % 32 ^ count) :
    crockfordDigits count first < crockfordDigits count second := by
  induction count with
  | zero => simp [Nat.mod_one] at less
  | succ count ih =>
      rw [crockfordDigits, crockfordDigits, List.cons_lt_cons_iff]
      have split (value : Nat) :
          value % 32 ^ (count + 1) = value % 32 ^ count + 32 ^ count * (value / 32 ^ count % 32) := by
        rw [Nat.pow_succ, Nat.mod_mul]
      rw [split, split] at less
      have small : first % 32 ^ count < 32 ^ count := Nat.mod_lt _ (Nat.pow_pos (by decide))
      have smallToo : second % 32 ^ count < 32 ^ count := Nat.mod_lt _ (Nat.pow_pos (by decide))
      rcases Nat.lt_trichotomy (first / 32 ^ count % 32) (second / 32 ^ count % 32) with
        head | head | head
      · exact Or.inl (crockford_lt head (Nat.mod_lt _ (by decide)))
      · rw [head] at less ⊢
        exact Or.inr ⟨rfl, ih (by omega)⟩
      · have beyond := Nat.mul_le_mul_left (32 ^ count) (Nat.succ_le_of_lt head)
        rw [Nat.succ_eq_add_one, Nat.mul_add, Nat.mul_one] at beyond
        omega

theorem encodeULID_lt {first second : Nat} (less : first < second) (within : second < 2 ^ 130) :
    encodeULID first < encodeULID second := by
  have whole : (2 : Nat) ^ 130 = 32 ^ 26 := by decide
  rw [encodeULID, encodeULID, String.lt_iff_toList_lt, String.toList_ofList, String.toList_ofList]
  apply crockfordDigits_lt
  rw [Nat.mod_eq_of_lt (by omega), Nat.mod_eq_of_lt (by omega)]
  exact less

namespace Ulid

/-- The id was made in an earlier millisecond, or earlier in the same one. -/
def Before (first second : Ulid) : Prop :=
  first.ms < second.ms ∨ first.ms = second.ms ∧ first.rand < second.rand

theorem payload_lt {first second : Ulid} (before : first.Before second) : first.payload < second.payload := by
  have small := first.rand.isLt
  rcases before with earlier | ⟨same, counted⟩
  · have less : first.ms.toNat < second.ms.toNat := earlier
    rw [payload, payload]
    omega
  · have less : first.rand.toNat < second.rand.toNat := counted
    rw [payload, payload, same]
    omega

theorem payload_within (ulid : Ulid) : ulid.payload < 2 ^ 130 := by
  have ms := ulid.ms.isLt
  have rand := ulid.rand.isLt
  rw [payload]
  omega

theorem text_lt {first second : Ulid} (before : first.Before second) : first.text < second.text :=
  encodeULID_lt (payload_lt before) second.payload_within

theorem before_or (first second : Ulid) : first.Before second ∨ first = second ∨ second.Before first := by
  obtain ⟨ms, rand⟩ := first
  obtain ⟨otherMS, otherRand⟩ := second
  simp only [Before, Ulid.mk.injEq, BitVec.lt_def, ← BitVec.toNat_inj]
  omega

theorem text_lt_iff {first second : Ulid} : first.text < second.text ↔ first.Before second := by
  refine ⟨fun less => ?_, text_lt⟩
  rcases first.before_or second with before | rfl | after
  · exact before
  · exact absurd less (lt_irrefl _)
  · exact absurd (less.trans (text_lt after)) (lt_irrefl _)

end Ulid

/-- The process makes its next id in a later millisecond than that of the given one, or counts on from
one no lower in the same millisecond. -/
def MintsAfter (state : UlidState) (tick : Tick) (ulid : Ulid) : Prop :=
  ulid.ms < BitVec.ofInt 48 tick.ms ∨
    ulid.ms = BitVec.ofInt 48 tick.ms ∧ tick.ms = state.lastMS ∧ ulid.rand ≤ state.lastRand ∧
      state.lastRand ≠ BitVec.allOnes 80

theorem MintsAfter.before {state : UlidState} {tick : Tick} {ulid : Ulid}
    (mints : MintsAfter state tick ulid) : ulid.Before (newULID state tick).2 := by
  rcases mints with later | ⟨same, still, counted, notFull⟩
  · exact Or.inl later
  · refine Or.inr ⟨same, ?_⟩
    have room : state.lastRand.toNat ≠ 2 ^ 80 - 1 := by
      intro full
      apply notFull
      rw [← BitVec.toNat_inj, full]
      rfl
    have bound := state.lastRand.isLt
    have next : (state.lastRand + 1).toNat = state.lastRand.toNat + 1 := by
      rw [BitVec.toNat_add, show (1 : BitVec 80).toNat = 1 from rfl, Nat.mod_eq_of_lt (by omega)]
    have upTo : ulid.rand.toNat ≤ state.lastRand.toNat := counted
    simp only [newULID, if_pos still, incrementCounter, BitVec.lt_def, next]
    omega

end CultureNodes.Store
