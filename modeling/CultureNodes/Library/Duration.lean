import Mathlib.Order.Bounds.Basic
import Mathlib.Algebra.Order.Ring.Int

/-!
Instants and durations in nanoseconds. A duration is a signed 64-bit number: arithmetic on durations
wraps, and the difference of two instants is held within its range.
-/

namespace CultureNodes.Duration

/-- One more than the longest duration. -/
def limit : Int := 9223372036854775808

def second : Int := 1000000000

def wrap (nanos : Int) : Int := nanos.bmod 18446744073709551616

/-- The difference of two instants, held within a duration. -/
def between (t u : Int) : Int := max (-limit) (min (t - u) (limit - 1))

theorem wrap_of_fits {nanos : Int} (above : -limit ≤ nanos) (below : nanos < limit) :
    wrap nanos = nanos := by
  unfold limit at above below
  unfold wrap
  rw [Int.bmod_def]
  split <;> omega

theorem between_of_fits {t u : Int} (order : u ≤ t) (below : t - u < limit) :
    between t u = t - u := by
  unfold between limit at *
  omega

/-- Time stored by a database that keeps microseconds. -/
def stored (t : Int) : Int := t / 1000 * 1000

theorem stored_of_dvd {t : Int} (whole : 1000 ∣ t) : stored t = t := Int.ediv_mul_cancel whole

theorem stored_le (t : Int) : stored t ≤ t := Int.ediv_mul_le _ (by decide)

theorem dvd_stored (t : Int) : 1000 ∣ stored t := Int.dvd_mul_left ..

/-- The periods that start at `due`, from the first one that starts after `now`. -/
theorem isLeast_period {due period now : Int} (positive : 0 < period) (isDue : due ≤ now) :
    IsLeast {t | now < t ∧ ∃ count : Nat, t = due + count * period}
      (due + ((now - due) / period + 1) * period) := by
  have remainder := Int.emod_nonneg (now - due) positive.ne'
  have smaller := Int.emod_lt_of_pos (now - due) positive
  have whole := Int.mul_ediv_add_emod (now - due) period
  have quotient : 0 ≤ (now - due) / period := Int.ediv_nonneg (by omega) positive.le
  constructor
  · constructor
    · rw [add_mul, one_mul, mul_comm]
      omega
    · refine ⟨((now - due) / period + 1).toNat, ?_⟩
      rw [Int.toNat_of_nonneg (by omega)]
  · rintro t ⟨later, count, rfl⟩
    have beyond : (now - due) / period < count := by
      rw [Int.ediv_lt_iff_lt_mul positive]
      omega
    have scaled := mul_le_mul_of_nonneg_right (Int.add_one_le_iff.mpr beyond) positive.le
    omega

end CultureNodes.Duration
