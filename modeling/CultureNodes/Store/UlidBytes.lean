import CultureNodes.Library.Radix
import CultureNodes.Store.Ulid

/-!
Identifiers byte by byte. The encoder takes five bits at a time out of the bytes of a payload, two zero bits
before the first; the counter carries from byte to byte. Read as numbers, both are what the identifiers of
48 and 80 bit words do.
-/

namespace CultureNodes.Store.UlidBytes

open Radix (spelled)

/-- An array of so many bytes. -/
structure Bytes (count : Nat) where
  list : List UInt8
  length_eq : list.length = count
deriving DecidableEq

/-- Count up from the last byte, given the bytes from the last one on. -/
def carry : List UInt8 → List UInt8
  | [] => []
  | byte :: rest => if byte + 1 ≠ 0 then (byte + 1) :: rest else (byte + 1) :: carry rest

theorem length_carry (bytes : List UInt8) : (carry bytes).length = bytes.length := by
  induction bytes with
  | nil => rfl
  | cons byte rest ih =>
      rw [carry]
      split
      · rfl
      · rw [List.length_cons, ih, List.length_cons]

def incrementCounter (counter : Bytes 10) : Bytes 10 where
  list := (carry counter.list.reverse).reverse
  length_eq := by rw [List.length_reverse, length_carry, List.length_reverse, counter.length_eq]

/-- A bit of the payload, the most significant one of its first byte first. -/
def bitAt (payload : Bytes 16) (bitPos : Nat) : UInt8 :=
  (payload.list.getD (bitPos / 8) 0 >>> UInt8.ofNat (7 - bitPos % 8)) &&& 1

/-- A bit behind the two zeros that stand before the payload. -/
def virtualBit (payload : Bytes 16) (position : Nat) : UInt8 :=
  if 2 ≤ position then bitAt payload (position - 2) else 0

/-- Five bits from the given position on. -/
def group (payload : Bytes 16) (i : Nat) : UInt8 :=
  (List.range 5).foldl (fun v b => (v <<< 1) ||| virtualBit payload (i * 5 + b)) 0

/-- The byte of a character of the alphabet. -/
def byteOf (char : Char) : UInt8 := UInt8.ofNat char.toNat

def encodeULID (payload : Bytes 16) : List UInt8 :=
  (List.range 26).map fun i => (crockford.map byteOf).getD (group payload i).toNat 0

/-- The low byte of a shifted reading. -/
def msByte (ms : Int64) (shift : Int64) : UInt8 := (ms >>> shift).toUInt64.toUInt8

/-- The payload of a reading and a random part. -/
def payloadOf (ms : Int64) (randPart : Bytes 10) : Bytes 16 where
  list := [msByte ms 40, msByte ms 32, msByte ms 24, msByte ms 16, msByte ms 8, msByte ms 0] ++ randPart.list
  length_eq := by rw [List.length_append, randPart.length_eq]; rfl

/-- What a process keeps of its last id. -/
structure State where
  lastMS : Int64
  lastRand : Bytes 10
deriving DecidableEq

def State.start : State := ⟨0, ⟨List.replicate 10 0, rfl⟩⟩

/-- A reading of the clock, with the bytes of the random source. -/
structure Call where
  ms : Int64
  random : Bytes 10
deriving DecidableEq

def newULID (state : State) (call : Call) : State × List UInt8 :=
  let randPart := if call.ms = state.lastMS then incrementCounter state.lastRand else call.random
  (⟨call.ms, randPart⟩, encodeULID (payloadOf call.ms randPart))

/-- The ids of calls one after the other. -/
def newULIDs : State → List Call → List (List UInt8)
  | _, [] => []
  | state, call :: rest => (newULID state call).2 :: newULIDs (newULID state call).1 rest

def number {count : Nat} (bytes : Bytes count) : Nat := spelled 256 (bytes.list.map UInt8.toNat)

theorem shift_or_toNat : ∀ v < 128, ∀ bit < 2,
    ((UInt8.ofNat v <<< 1) ||| UInt8.ofNat bit).toNat = v * 2 + bit := by
  decide +kernel

theorem bit_of_byte : ∀ byte < 256, spelled 2 ((List.range 8).map fun place =>
    ((UInt8.ofNat byte >>> UInt8.ofNat (7 - place)) &&& 1).toNat) = byte := by
  decide +kernel

theorem virtualBit_lt (payload : Bytes 16) (position : Nat) : (virtualBit payload position).toNat < 2 := by
  unfold virtualBit bitAt
  split
  · rw [UInt8.toNat_and]
    exact Nat.lt_succ_of_le Nat.and_le_right
  · decide

/-- Shifting bits in from the right reads them as a number. -/
theorem foldl_bits {bits : List UInt8} (small : ∀ bit ∈ bits, bit.toNat < 2) (v : UInt8)
    (room : (v.toNat + 1) * 2 ^ bits.length ≤ 256) :
    (bits.foldl (fun (v bit : UInt8) => (v <<< 1) ||| bit) v).toNat =
      v.toNat * 2 ^ bits.length + spelled 2 (bits.map UInt8.toNat) := by
  induction bits generalizing v with
  | nil => simp [Radix.spelled_nil]
  | cons bit rest ih =>
      rw [List.forall_mem_cons] at small
      rw [List.length_cons, pow_succ] at room
      have positive : 1 ≤ 2 ^ rest.length := Nat.one_le_two_pow
      have low : v.toNat < 128 := by nlinarith
      have shifted : ((v <<< 1) ||| bit).toNat = v.toNat * 2 + bit.toNat := by
        have exact := shift_or_toNat v.toNat low bit.toNat small.1
        rwa [UInt8.ofNat_toNat, UInt8.ofNat_toNat] at exact
      have onward : (((v <<< 1) ||| bit).toNat + 1) * 2 ^ rest.length ≤ 256 := by
        rw [shifted]
        nlinarith [small.1]
      rw [List.foldl_cons, ih small.2 _ onward, shifted, List.map_cons, Radix.spelled_cons, List.length_cons,
        List.length_map, pow_succ]
      ring

/-- The bits of a group as numbers. -/
def groupBits (payload : Bytes 16) (i : Nat) : List Nat :=
  (List.range 5).map fun b => (virtualBit payload (i * 5 + b)).toNat

theorem group_toNat (payload : Bytes 16) (i : Nat) :
    (group payload i).toNat = spelled 2 (groupBits payload i) := by
  have small : ∀ bit ∈ (List.range 5).map fun b => virtualBit payload (i * 5 + b), bit.toNat < 2 := by
    intro bit held
    obtain ⟨b, _, rfl⟩ := List.mem_map.mp held
    exact virtualBit_lt payload _
  have bits := foldl_bits small 0 (by simp)
  rw [List.foldl_map, List.map_map, UInt8.toNat_zero, Nat.zero_mul, Nat.zero_add] at bits
  exact bits

theorem group_lt (payload : Bytes 16) (i : Nat) : (group payload i).toNat < 32 := by
  rw [group_toNat]
  have small : ∀ digit ∈ groupBits payload i, digit < 2 := by
    intro digit held
    obtain ⟨b, _, rfl⟩ := List.mem_map.mp held
    exact virtualBit_lt payload _
  have bounded := Radix.spelled_lt small
  simpa [groupBits] using bounded

theorem map_getD {count : Nat} (bytes : Bytes count) :
    (List.range count).map (fun place => bytes.list.getD place 0) = bytes.list := by
  apply List.ext_getElem
  · simp [bytes.length_eq]
  · intro place inside held
    simp [held]

theorem spelled_bits (payload : Bytes 16) :
    spelled 2 ((List.range 128).map fun bitPos => (bitAt payload bitPos).toNat) = number payload := by
  have each (place : Nat) : spelled 2 ((List.range 8).map fun inside => (bitAt payload (place * 8 + inside)).toNat) =
      (payload.list.getD place 0).toNat := by
    have read := bit_of_byte (payload.list.getD place 0).toNat (UInt8.toNat_lt _)
    rw [UInt8.ofNat_toNat] at read
    refine Eq.trans (congrArg (spelled 2) (List.map_congr_left fun inside held => ?_)) read
    have below := List.mem_range.mp held
    rw [bitAt, show (place * 8 + inside) / 8 = place by omega, show (place * 8 + inside) % 8 = inside by omega]
  have even : ∀ bits ∈ (List.range 16).map fun place =>
      (List.range 8).map fun inside => (bitAt payload (place * 8 + inside)).toNat, bits.length = 8 := by
    intro bits held
    obtain ⟨place, _, rfl⟩ := List.mem_map.mp held
    simp
  have whole := @Radix.spelled_groups 2 _ _ even
  rw [← Radix.map_range_mul (fun bitPos => (bitAt payload bitPos).toNat) 16 8, List.map_map] at whole
  rw [← whole, number, ← map_getD payload, List.map_map]
  exact congrArg (spelled 256) (List.map_congr_left fun place _ => each place)

theorem spelled_group (payload : Bytes 16) :
    spelled 32 ((List.range 26).map fun i => (group payload i).toNat) = number payload := by
  have even : ∀ bits ∈ (List.range 26).map (groupBits payload), bits.length = 5 := by
    intro bits held
    obtain ⟨i, _, rfl⟩ := List.mem_map.mp held
    simp [groupBits]
  have whole := @Radix.spelled_groups 2 _ _ even
  rw [show (List.range 26).map (groupBits payload) = (List.range 26).map fun i =>
      (List.range 5).map fun b => (virtualBit payload (i * 5 + b)).toNat from rfl,
    ← Radix.map_range_mul (fun position => (virtualBit payload position).toNat) 26 5, List.map_map] at whole
  have digits : (List.range 26).map (fun i => (group payload i).toNat) =
      (List.range 26).map (spelled 2 ∘ fun i =>
        (List.range 5).map fun b => (virtualBit payload (i * 5 + b)).toNat) :=
    List.map_congr_left fun i _ => group_toNat payload i
  have bits : (List.range 130).map (fun position => (virtualBit payload position).toNat) =
      List.replicate 2 0 ++ (List.range 128).map fun bitPos => (bitAt payload bitPos).toNat := by
    have behind : (List.range 128).map ((fun position => (virtualBit payload position).toNat) ∘ fun x => 2 + x) =
        (List.range 128).map fun bitPos => (bitAt payload bitPos).toNat :=
      List.map_congr_left fun bitPos _ => by simp [virtualBit]
    rw [show (130 : Nat) = 2 + 128 from rfl, List.range_add, List.map_append, List.map_map, behind]
    rfl
  rw [digits, show (32 : Nat) = 2 ^ 5 from rfl, whole, bits, Radix.spelled_zeros, spelled_bits]

theorem crockfordDigits_add (count top payload : Nat) :
    crockfordDigits count (top * 32 ^ count + payload) = crockfordDigits count payload := by
  induction count generalizing top with
  | zero => rfl
  | succ count ih =>
      have positive : 0 < 32 ^ count := Nat.pow_pos (by decide)
      have parts : top * 32 ^ (count + 1) + payload = 32 ^ count * (top * 32) + payload := by ring
      have next : top * 32 ^ (count + 1) + payload = top * 32 * 32 ^ count + payload := by ring
      rw [crockfordDigits, crockfordDigits]
      congr 1
      · rw [parts, Nat.mul_add_div positive, Nat.mul_add_mod_self_right]
      · rw [next, ih (top * 32)]

/-- The characters of a number are those of its digits. -/
theorem crockfordDigits_spelled {digits : List Nat} (small : ∀ digit ∈ digits, digit < 32) :
    crockfordDigits digits.length (spelled 32 digits) = digits.map fun digit => crockford.getD digit '0' := by
  induction digits with
  | nil => rfl
  | cons digit rest ih =>
      rw [List.forall_mem_cons] at small
      have below := Radix.spelled_lt small.2
      have positive : 0 < 32 ^ rest.length := Nat.pow_pos (by decide)
      have leading : (digit * 32 ^ rest.length + spelled 32 rest) / 32 ^ rest.length % 32 = digit := by
        rw [Nat.mul_comm, Nat.mul_add_div positive, Nat.div_eq_of_lt below, Nat.add_zero,
          Nat.mod_eq_of_lt small.1]
      rw [List.length_cons, crockfordDigits, Radix.spelled_cons, leading, crockfordDigits_add, ih small.2,
        List.map_cons]

theorem encodeULID_eq (payload : Bytes 16) :
    encodeULID payload = (Store.encodeULID (number payload)).toList.map byteOf := by
  have small : ∀ digit ∈ (List.range 26).map fun i => (group payload i).toNat, digit < 32 := by
    intro digit held
    obtain ⟨i, _, rfl⟩ := List.mem_map.mp held
    exact group_lt payload i
  have written := crockfordDigits_spelled small
  rw [spelled_group, List.length_map, List.length_range, List.map_map] at written
  have bytes : ∀ digit < 32, (crockford.map byteOf).getD digit 0 = byteOf (crockford.getD digit '0') := by decide
  rw [Store.encodeULID, String.toList_ofList, written, List.map_map, encodeULID]
  exact List.map_congr_left fun i _ => bytes _ (group_lt payload i)

theorem number_lt {count : Nat} (bytes : Bytes count) : number bytes < 256 ^ count := by
  have small : ∀ digit ∈ bytes.list.map UInt8.toNat, digit < 256 := by
    intro digit held
    obtain ⟨byte, _, rfl⟩ := List.mem_map.mp held
    exact byte.toNat_lt
  have bounded := Radix.spelled_lt small
  rwa [List.length_map, bytes.length_eq] at bounded

theorem mem_crockfordDigits {count payload : Nat} {char : Char} (held : char ∈ crockfordDigits count payload) :
    char ∈ crockford := by
  induction count with
  | zero => cases held
  | succ count ih =>
      rw [crockfordDigits, List.mem_cons] at held
      obtain rfl | later := held
      · have within : ∀ digit < 32, crockford.getD digit '0' ∈ crockford := by decide
        exact within _ (Nat.mod_lt _ (by decide))
      · exact ih later

theorem bytes_lt_of_text_lt {payload other : Nat} (less : Store.encodeULID payload < Store.encodeULID other) :
    (Store.encodeULID payload).toList.map byteOf < (Store.encodeULID other).toList.map byteOf := by
  have narrow : crockford.all (fun char => char.toNat < 256) = true := by decide
  apply Radix.map_lt_map (String.lt_iff_toList_lt.mp less)
  intro one held two heldToo before
  rw [Store.encodeULID, String.toList_ofList] at held heldToo
  have inOne := of_decide_eq_true (List.all_eq_true.mp narrow one (mem_crockfordDigits held))
  have inTwo := of_decide_eq_true (List.all_eq_true.mp narrow two (mem_crockfordDigits heldToo))
  rw [UInt8.lt_iff_toNat_lt, byteOf, byteOf, UInt8.toNat_ofNat', UInt8.toNat_ofNat', Nat.mod_eq_of_lt inOne,
    Nat.mod_eq_of_lt inTwo]
  exact before

theorem encodeULID_lt_of_lt {payload other : Bytes 16} (less : number payload < number other) :
    encodeULID payload < encodeULID other := by
  have within : number other < 2 ^ 130 := Nat.lt_trans (number_lt other) (by decide)
  rw [encodeULID_eq, encodeULID_eq]
  exact bytes_lt_of_text_lt (Store.encodeULID_lt less within)

/-- Two arrays of one number are the same bytes. -/
theorem eq_of_spelled_eq {bytes others : List UInt8} (same : bytes.length = others.length)
    (equal : spelled 256 (bytes.map UInt8.toNat) = spelled 256 (others.map UInt8.toNat)) : bytes = others := by
  induction bytes generalizing others with
  | nil => exact (List.length_eq_zero_iff.mp same.symm).symm
  | cons byte rest ih =>
      cases others with
      | nil => contradiction
      | cons other more =>
          have lengths : rest.length = more.length := Nat.succ.inj same
          have below : spelled 256 (rest.map UInt8.toNat) < 256 ^ more.length := lengths ▸ number_lt ⟨rest, rfl⟩
          have belowToo : spelled 256 (more.map UInt8.toNat) < 256 ^ more.length := number_lt ⟨more, rfl⟩
          simp only [List.map_cons, Radix.spelled_cons, List.length_map, lengths] at equal
          have positive : 0 < 256 ^ more.length := Nat.pow_pos (by decide)
          have head : byte.toNat = other.toNat := by
            have divided := congrArg (· / 256 ^ more.length) equal
            simpa only [Nat.mul_comm _ (256 ^ more.length), Nat.mul_add_div positive, Nat.div_eq_of_lt below,
              Nat.div_eq_of_lt belowToo, Nat.add_zero] using divided
          rw [head] at equal
          rw [UInt8.toNat_inj.mp head, ih lengths (Nat.add_left_cancel equal)]

theorem number_injective {count : Nat} : Function.Injective (@number count) := by
  rintro ⟨bytes, length⟩ ⟨others, lengthToo⟩ equal
  cases eq_of_spelled_eq (length.trans lengthToo.symm) equal
  rfl

theorem lt_asymm_bytes {text other : List UInt8} (less : text < other) : ¬ other < text := by
  have asymm : Std.Asymm (fun one two : UInt8 => one < two) := ⟨fun _ _ => UInt8.lt_asymm⟩
  exact List.lt_asymm less

theorem encodeULID_lt_iff (payload other : Bytes 16) :
    encodeULID payload < encodeULID other ↔ number payload < number other := by
  refine ⟨fun less => ?_, encodeULID_lt_of_lt⟩
  obtain below | equal | above := Nat.lt_trichotomy (number payload) (number other)
  · exact below
  · rw [number_injective equal] at less
    exact absurd less (lt_asymm_bytes less)
  · exact absurd less (lt_asymm_bytes (encodeULID_lt_of_lt above))

/-- Counting up adds one, but for what is carried out of the first byte. -/
theorem carry_number (bytes : List UInt8) : ∃ lost, Nat.ofDigits 256 ((carry bytes).map UInt8.toNat) +
    256 ^ bytes.length * lost = Nat.ofDigits 256 (bytes.map UInt8.toNat) + 1 := by
  induction bytes with
  | nil => exact ⟨1, rfl⟩
  | cons byte rest ih =>
      have bound := byte.toNat_lt
      have added : (byte + 1).toNat = (byte.toNat + 1) % 256 := UInt8.toNat_add byte 1
      rw [carry]
      split
      · rename_i stays
        have low : (byte + 1).toNat = byte.toNat + 1 := by
          have nonzero : (byte + 1).toNat ≠ 0 := fun zero => stays (UInt8.toNat_inj.mp zero)
          omega
        refine ⟨0, ?_⟩
        rw [List.map_cons, List.map_cons, Nat.ofDigits_cons, Nat.ofDigits_cons, low]
        ring
      · rename_i wraps
        obtain ⟨lost, counted⟩ := ih
        have zero : (byte + 1).toNat = 0 := by
          rw [not_not.mp wraps]
          rfl
        have full : byte.toNat = 255 := by omega
        refine ⟨lost, ?_⟩
        rw [List.map_cons, List.map_cons, Nat.ofDigits_cons, Nat.ofDigits_cons, zero, full, List.length_cons, pow_succ]
        linarith

theorem number_eq {count : Nat} (bytes : Bytes count) :
    number bytes = Nat.ofDigits 256 (bytes.list.reverse.map UInt8.toNat) := by
  rw [number, spelled, List.map_reverse]

theorem incrementCounter_eq (counter : Bytes 10) : BitVec.ofNat 80 (number (incrementCounter counter)) =
    Store.incrementCounter (BitVec.ofNat 80 (number counter)) := by
  obtain ⟨lost, counted⟩ := carry_number counter.list.reverse
  have next : number (incrementCounter counter) =
      Nat.ofDigits 256 ((carry counter.list.reverse).map UInt8.toNat) := by
    rw [number_eq, incrementCounter, List.reverse_reverse]
  rw [← next, ← number_eq, List.length_reverse, counter.length_eq] at counted
  rw [← BitVec.toNat_inj, Store.incrementCounter, BitVec.toNat_add, BitVec.toNat_ofNat, BitVec.toNat_ofNat,
    Nat.mod_add_mod, show (1 : BitVec 80).toNat = 1 from rfl, ← counted, show (256 : Nat) ^ 10 = 2 ^ 80 from rfl,
    Nat.add_mul_mod_self_left]

theorem msByte_toNat (ms shift : Int64) {amount : Nat} (amountIs : (shift.toBitVec.smod 64).toNat = amount) :
    ((msByte ms shift).toNat : Int) = ms.toInt / 2 ^ amount % 256 := by
  have low : (msByte ms shift).toNat = (ms >>> shift).toBitVec.toNat % 256 := rfl
  have shifted : (ms >>> shift).toBitVec.toInt = ms.toInt / 2 ^ amount := by
    have right : (ms >>> shift).toBitVec = BitVec.sshiftRight' ms.toBitVec (shift.toBitVec.smod 64) := rfl
    rw [right, BitVec.toInt_sshiftRight', amountIs, Int.shiftRight_eq_div_pow]
    rfl
  have whole : (ms >>> shift).toBitVec.toInt % 256 = (ms >>> shift).toBitVec.toNat % 256 := by
    have signed : (ms >>> shift).toBitVec.toInt % (2 ^ 64 : Nat) = (ms >>> shift).toBitVec.toNat % (2 ^ 64 : Nat) := by
      rw [BitVec.toInt_eq_toNat_bmod, Int.bmod_emod]
    omega
  rw [low, Int.natCast_emod, ← shifted, whole]
  rfl

theorem emod_bytes (number : Int) : number % 2 ^ 48 =
    number / 2 ^ 40 % 256 * 2 ^ 40 + (number / 2 ^ 32 % 256 * 2 ^ 32 + (number / 2 ^ 24 % 256 * 2 ^ 24 +
      (number / 2 ^ 16 % 256 * 2 ^ 16 + (number / 2 ^ 8 % 256 * 2 ^ 8 + number / 2 ^ 0 % 256)))) := by
  have low40 : number % 2 ^ 48 = number / 2 ^ 40 % 256 * 2 ^ 40 + number % 2 ^ 40 := by omega
  have low32 : number % 2 ^ 40 = number / 2 ^ 32 % 256 * 2 ^ 32 + number % 2 ^ 32 := by clear low40; omega
  have low24 : number % 2 ^ 32 = number / 2 ^ 24 % 256 * 2 ^ 24 + number % 2 ^ 24 := by clear low40 low32; omega
  have low16 : number % 2 ^ 24 = number / 2 ^ 16 % 256 * 2 ^ 16 + number % 2 ^ 16 := by
    clear low40 low32 low24
    omega
  have low8 : number % 2 ^ 16 = number / 2 ^ 8 % 256 * 2 ^ 8 + number / 2 ^ 0 % 256 := by
    clear low40 low32 low24 low16
    omega
  rw [low40, low32, low24, low16, low8]

theorem number_payloadOf (ms : Int64) (randPart : Bytes 10) :
    number (payloadOf ms randPart) = (BitVec.ofInt 48 ms.toInt).toNat * 2 ^ 80 + number randPart := by
  have first := @msByte_toNat ms 40 40 rfl
  have second := @msByte_toNat ms 32 32 rfl
  have third := @msByte_toNat ms 24 24 rfl
  have fourth := @msByte_toNat ms 16 16 rfl
  have fifth := @msByte_toNat ms 8 8 rfl
  have sixth := @msByte_toNat ms 0 0 rfl
  have counted : (randPart.list.map UInt8.toNat).length = 10 := by rw [List.length_map, randPart.length_eq]
  have reading : ms.toInt % 2 ^ 48 = (spelled 256 [(msByte ms 40).toNat, (msByte ms 32).toNat,
      (msByte ms 24).toNat, (msByte ms 16).toNat, (msByte ms 8).toNat, (msByte ms 0).toNat] : Nat) := by
    rw [emod_bytes, ← first, ← second, ← third, ← fourth, ← fifth, ← sixth]
    simp only [Radix.spelled_cons, Radix.spelled_nil, List.length_cons, List.length_nil]
    push_cast
    ring
  have leading : spelled 256 [(msByte ms 40).toNat, (msByte ms 32).toNat, (msByte ms 24).toNat,
      (msByte ms 16).toNat, (msByte ms 8).toNat, (msByte ms 0).toNat] = (BitVec.ofInt 48 ms.toInt).toNat := by
    rw [BitVec.toNat_ofInt]
    exact (congrArg Int.toNat reading).symm
  rw [number, payloadOf, List.map_append, Radix.spelled_append, counted, number]
  rw [← leading]
  rfl

namespace State

variable (state : State)

def word : UlidState := ⟨state.lastMS.toInt, BitVec.ofNat 80 (number state.lastRand)⟩

/-- The id that was made last. -/
def ulid : Ulid := ⟨BitVec.ofInt 48 state.lastMS.toInt, BitVec.ofNat 80 (number state.lastRand)⟩

def id : List UInt8 := encodeULID (payloadOf state.lastMS state.lastRand)

theorem id_eq : state.id = state.ulid.text.toList.map byteOf := by
  have rand : (BitVec.ofNat 80 (number state.lastRand)).toNat = number state.lastRand := by
    rw [BitVec.toNat_ofNat]
    exact Nat.mod_eq_of_lt (number_lt state.lastRand)
  rw [id, encodeULID_eq, number_payloadOf, Ulid.text, Ulid.payload, ulid, rand]

end State

def Call.word (call : Call) : Tick := ⟨call.ms.toInt, BitVec.ofNat 80 (number call.random)⟩

theorem newULID_eq (state : State) (call : Call) :
    ((newULID state call).1.word, (newULID state call).1.ulid) = Store.newULID state.word call.word := by
  by_cases still : call.ms = state.lastMS
  · have stillWord : call.word.ms = state.word.lastMS := congrArg Int64.toInt still
    have counted := incrementCounter_eq state.lastRand
    simp only [Store.newULID, if_pos stillWord]
    simp only [newULID, if_pos still, State.word, State.ulid, counted, Call.word]
  · have movedWord : call.word.ms ≠ state.word.lastMS := fun same => still (Int64.toInt_inj.mp same)
    simp only [Store.newULID, if_neg movedWord]
    simp only [newULID, if_neg still, State.word, State.ulid, Call.word]

theorem newULID_id (state : State) (call : Call) : (newULID state call).2 = (newULID state call).1.id := rfl

theorem newULID_lastMS (state : State) (call : Call) : (newULID state call).1.lastMS = call.ms := rfl

/-- The counter is at its end. -/
def Full (counter : Bytes 10) : Prop := ∀ byte ∈ counter.list, byte = 255

instance decidableFull (counter : Bytes 10) : Decidable (Full counter) :=
  inferInstanceAs (Decidable (∀ byte ∈ counter.list, byte = 255))

/-- No call counts up from the end of the counter. -/
def NoWrap : State → List Call → Prop
  | _, [] => True
  | state, call :: rest =>
      (call.ms = state.lastMS → ¬ Full state.lastRand) ∧ NoWrap (newULID state call).1 rest

/-- The readings do not go back. -/
def NonDecreasing (calls : List Call) : Prop := (calls.map Call.ms).IsChain (· ≤ ·)

/-- The part of a reading above its 48 bits. -/
def era (ms : Int64) : Int := ms.toInt / 2 ^ 48

theorem full_of_allOnes {counter : Bytes 10} (ones : BitVec.ofNat 80 (number counter) = BitVec.allOnes 80) :
    Full counter := by
  have below : number counter < 2 ^ 80 := number_lt counter
  have whole : number counter = number (⟨List.replicate 10 255, rfl⟩ : Bytes 10) := by
    have same := congrArg BitVec.toNat ones
    rw [BitVec.toNat_ofNat, Nat.mod_eq_of_lt below] at same
    exact same.trans (by decide +kernel)
  rw [number_injective whole]
  exact fun byte held => List.eq_of_mem_replicate held

theorem ofInt_lt {ms other : Int64} (less : ms < other) (same : era ms = era other) :
    BitVec.ofInt 48 ms.toInt < BitVec.ofInt 48 other.toInt := by
  have before : ms.toInt < other.toInt := Int64.lt_iff_toInt_lt.mp less
  simp only [era] at same
  rw [BitVec.lt_def, BitVec.toNat_ofInt, BitVec.toNat_ofInt]
  omega

theorem id_lt_newULID {state : State} {call : Call} (later : state.lastMS ≤ call.ms)
    (same : era state.lastMS = era call.ms) (counts : call.ms = state.lastMS → ¬ Full state.lastRand) :
    state.id < (newULID state call).1.id := by
  have words : (Store.newULID state.word call.word).2 = (newULID state call).1.ulid :=
    (congrArg Prod.snd (newULID_eq state call)).symm
  have mints : MintsAfter state.word call.word state.ulid := by
    by_cases still : call.ms = state.lastMS
    · refine Or.inr ⟨?_, congrArg Int64.toInt still, BitVec.le_refl _, fun ones => counts still (full_of_allOnes ones)⟩
      exact congrArg (fun ms : Int64 => BitVec.ofInt 48 ms.toInt) still.symm
    · exact Or.inl (ofInt_lt (Int64.lt_of_le_of_ne later (Ne.symm still)) same)
  rw [State.id_eq, State.id_eq, ← words]
  exact bytes_lt_of_text_lt (Ulid.text_lt mints.before)

theorem newULIDs_chain {state : State} {calls : List Call}
    (later : (state.lastMS :: calls.map Call.ms).IsChain (· ≤ ·))
    (same : ∀ call ∈ calls, era state.lastMS = era call.ms) (counts : NoWrap state calls) :
    (state.id :: newULIDs state calls).IsChain (· < ·) := by
  induction calls generalizing state with
  | nil => exact List.isChain_singleton _
  | cons call rest ih =>
      rw [List.map_cons, List.isChain_cons_cons] at later
      rw [List.forall_mem_cons] at same
      have onward : ∀ other ∈ rest, era (newULID state call).1.lastMS = era other.ms := by
        rw [newULID_lastMS]
        exact fun other held => same.1.symm.trans (same.2 other held)
      rw [← newULID_lastMS state call] at later
      rw [newULIDs, List.isChain_cons_cons, newULID_id]
      exact ⟨id_lt_newULID later.1 same.1 counts.1, ih later.2 onward counts.2⟩

theorem newULIDs_increasing (state : State) (calls : List Call) (later : NonDecreasing calls)
    (same : ∀ call ∈ calls, ∀ other ∈ calls, era call.ms = era other.ms) (counts : NoWrap state calls) :
    (newULIDs state calls).Pairwise (· < ·) := by
  have trans : Trans (fun one two : UInt8 => one < two) (fun one two => one < two) (fun one two => one < two) :=
    ⟨UInt8.lt_trans⟩
  cases calls with
  | nil => exact List.Pairwise.nil
  | cons call rest =>
      have onward : ∀ other ∈ rest, era (newULID state call).1.lastMS = era other.ms := by
        rw [newULID_lastMS]
        exact fun other held => same call List.mem_cons_self other (List.mem_cons_of_mem _ held)
      rw [NonDecreasing, List.map_cons, ← newULID_lastMS state call] at later
      rw [newULIDs, newULID_id]
      exact List.isChain_iff_pairwise.mp (newULIDs_chain later onward counts.2)

/-- The encoder keeps the order of payloads, as numbers, in the order of bytes, and so no two payloads have one
text. Calls at readings that do not go back, and that agree above their low 48 bits, return texts in strictly
increasing order while the counter does not wrap. -/
theorem ulids_ordered :
    (∀ payload other : Bytes 16, encodeULID payload < encodeULID other ↔ number payload < number other) ∧
      Function.Injective encodeULID ∧
      ∀ (state : State) (calls : List Call), NonDecreasing calls →
        (∀ call ∈ calls, ∀ other ∈ calls, era call.ms = era other.ms) → NoWrap state calls →
          (newULIDs state calls).Pairwise (· < ·) := by
  refine ⟨encodeULID_lt_iff, ?_, newULIDs_increasing⟩
  intro payload other same
  obtain below | equal | above := Nat.lt_trichotomy (number payload) (number other)
  · have less := encodeULID_lt_of_lt below
    rw [same] at less
    exact absurd less (lt_asymm_bytes less)
  · exact number_injective equal
  · have less := encodeULID_lt_of_lt above
    rw [same] at less
    exact absurd less (lt_asymm_bytes less)

def randomZero : Bytes 10 := ⟨List.replicate 10 0, rfl⟩

/-- A process starts, makes two ids in one millisecond and a third in the next. -/
def threeCalls : List Call := [⟨1, randomZero⟩, ⟨1, randomZero⟩, ⟨2, randomZero⟩]

theorem ulids_ordered_threeCalls : (newULIDs State.start threeCalls).Pairwise (· < ·) := by
  refine ulids_ordered.2.2 State.start threeCalls ?_ ?_ ?_
  · exact .cons_cons (by decide) (.cons_cons (by decide) (.singleton _))
  · decide +kernel
  · exact ⟨by decide +kernel, by decide +kernel, by decide +kernel, trivial⟩

/-- The last millisecond that 48 bits hold, and the next. -/
def lastCalls : List Call := [⟨281474976710655, randomZero⟩, ⟨281474976710656, randomZero⟩]

/-- The reading goes up and the text goes down. -/
theorem ids_of_lastCalls : NonDecreasing lastCalls ∧ NoWrap State.start lastCalls ∧
    ¬ (newULIDs State.start lastCalls).Pairwise (· < ·) := by
  refine ⟨.cons_cons (by decide) (.singleton _), ⟨by decide +kernel, by decide +kernel, trivial⟩, ?_⟩
  decide +kernel

end CultureNodes.Store.UlidBytes
