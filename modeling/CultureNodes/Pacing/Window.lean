import Mathlib.Algebra.Order.Ring.Int
import Mathlib.Tactic.Linarith
import CultureNodes.Library.Duration
import CultureNodes.Library.Float64

/-!
Windows of a declared dispatch rate: so many sessions a window, with windows tiled off an anchor. Instants
are nanoseconds from the zero time, which is the instant 0; lengths of time are durations, so the
difference of two instants far apart is held within its range. What a window can still absorb is computed in
double precision, or, for what is proved of a whole window, in exact arithmetic.
-/

namespace CultureNodes.Pacing

open Duration (wrap between)

/-- The Unix epoch. -/
def epoch : Int := 62135596800000000000

structure Config where
  limit : Int
  window : Int
  anchor : Int
  limitFits : limit < Duration.limit
  windowFits : window < Duration.limit

/-- From its start up to, and not including, its end. -/
@[ext]
structure Window where
  start : Int
  stop : Int
deriving DecidableEq, Repr

def floorDiv (a b : Int) : Int :=
  if a.tmod b ≠ 0 ∧ decide (a < 0) ≠ decide (b < 0) then a.tdiv b - 1 else a.tdiv b

/-- The least whole number that is not below the quotient. -/
def ceilDiv (a b : Int) : Int := -(-a / b)

/-- The share in exact arithmetic. -/
def exactShare (limit left window : Int) : Int := ceilDiv (limit * left) window

/-- The share before it is rounded up: a double, computed from doubles. -/
def product64 (limit left window : Int) : ℚ :=
  Float64.rounded (Float64.rounded limit * Float64.rounded (Float64.rounded left / Float64.rounded window))

/-- A double that is too large for a 64-bit number becomes the largest of them on some machines, and the
least on others. -/
def float64Share (saturates : Bool) (limit left window : Int) : Int :=
  if ⌈product64 limit left window⌉ < Duration.limit then ⌈product64 limit left window⌉
  else if saturates then Duration.limit - 1 else -Duration.limit

namespace Config

variable (config : Config)

def enabled : Bool := 0 < config.limit && 0 < config.window

def anchorAt : Int :=
  if config.anchor = 0 then epoch else Duration.stored config.anchor

def windowAt (now : Int) : Window :=
  if config.window ≤ 0 then { start := now, stop := now }
  else
    let index := floorDiv (between now config.anchorAt) config.window
    let start := Duration.stored (config.anchorAt + wrap (index * config.window))
    { start := start, stop := start + config.window }

/-- What is left of the window. -/
def remaining (now : Int) : Int := between (config.windowAt now).stop now

section

-- The share of the limit that goes with what is left of the window, computed from the limit, from what is
-- left and from the window.
variable (share : Int → Int → Int → Int)

def capacityBy (now : Int) : Int :=
  if !config.enabled then 0
  else if config.remaining now ≤ 0 then 0
  else if config.window ≤ config.remaining now then config.limit
  else
    let n := share config.limit (config.remaining now) config.window
    if n < 0 then 0 else if config.limit < n then config.limit else n

def budgetLeft (dispatched : Int) : Int :=
  if wrap (config.limit - dispatched) < 0 then 0 else wrap (config.limit - dispatched)

def allowanceBy (now dispatched : Int) : Int :=
  if !config.enabled then 0
  else if config.budgetLeft dispatched < config.capacityBy share now then config.budgetLeft dispatched
  else config.capacityBy share now

def spacingBy (now dispatched : Int) : Int :=
  if config.allowanceBy share now dispatched ≤ 0 then 0
  else if config.remaining now ≤ 0 then 0
  else (config.remaining now).tdiv (config.allowanceBy share now dispatched)

end

def capacity (now : Int) : Int := config.capacityBy exactShare now

def allowance (now dispatched : Int) : Int := config.allowanceBy exactShare now dispatched

def spacing (now dispatched : Int) : Int := config.spacingBy exactShare now dispatched

end Config

theorem floorDiv_eq {a b : Int} (positive : 0 < b) : floorDiv a b = a / b := by
  have sign : decide (b < 0) = false := decide_eq_false (not_lt.mpr positive.le)
  rw [floorDiv, Int.tdiv_eq_ediv, sign]
  by_cases divides : b ∣ a
  · have exact : a.tmod b = 0 := Int.tmod_eq_zero_of_dvd divides
    simp [divides, exact]
  · have inexact : a.tmod b ≠ 0 := fun zero => divides (Int.dvd_of_tmod_eq_zero zero)
    by_cases negative : a < 0
    · simp [divides, inexact, negative, not_le.mpr negative, Int.sign_eq_one_of_pos positive]
    · simp [negative, not_lt.mp negative]

theorem le_ceilDiv_mul (a : Int) {b : Int} (positive : 0 < b) : a ≤ ceilDiv a b * b := by
  have floor := Int.ediv_mul_le (-a) positive.ne'
  rw [ceilDiv, Int.neg_mul]
  omega

theorem ceilDiv_le_iff {a b n : Int} (positive : 0 < b) : ceilDiv a b ≤ n ↔ a ≤ n * b := by
  rw [ceilDiv, neg_le, Int.le_ediv_iff_mul_le positive]
  constructor <;> intro bound <;> linarith

variable {config : Config} {now dispatched : Int}

theorem enabled_iff : config.enabled = true ↔ 0 < config.limit ∧ 0 < config.window := by
  simp [Config.enabled]

/-- The declared interval between two dispatches, in whole nanoseconds. -/
def Config.pace (config : Config) : Int := ceilDiv config.window config.limit

/-- The remaining time has room for the budget that is left at the declared pace, or for what the window
can absorb: the share of the limit is no more than the pace intervals that fit. A window can only have its
whole length left, or more, at its start and where the tiling does not reach the instant. -/
def Config.roomy (config : Config) (now dispatched : Int) : Prop :=
  (config.limit - dispatched) * config.pace ≤ config.remaining now ∨
    if config.window ≤ config.remaining now then config.limit * config.pace ≤ config.remaining now
    else product64 config.limit (config.remaining now) config.window ≤ (config.remaining now / config.pace : Int)

/-- A count of dispatches is a signed 64-bit number. -/
def IsCount (dispatched : Int) : Prop :=
  -Duration.limit ≤ dispatched ∧ dispatched < Duration.limit

theorem ceilDiv_pos {a b : Int} (positive : 0 < b) (above : 0 < a) : 0 < ceilDiv a b := by
  by_contra notPositive
  have bound := (ceilDiv_le_iff positive).mp (not_lt.mp notPositive)
  rw [zero_mul] at bound
  omega

theorem capacity_eq (enabled : config.enabled = true) (left : 0 < config.remaining now) :
    config.capacity now =
      if config.window ≤ config.remaining now then config.limit
      else ceilDiv (config.limit * config.remaining now) config.window := by
  obtain ⟨someLimit, someWindow⟩ := enabled_iff.mp enabled
  simp only [Config.capacity, Config.capacityBy, enabled, Bool.not_true, Bool.false_eq_true, if_false, not_le.mpr left]
  by_cases whole : config.window ≤ config.remaining now
  · rw [if_pos whole, if_pos whole]
  · rw [if_neg whole, if_neg whole, ← exactShare]
    have above : 0 < exactShare config.limit (config.remaining now) config.window :=
      ceilDiv_pos someWindow (Int.mul_pos someLimit left)
    have below : exactShare config.limit (config.remaining now) config.window ≤ config.limit := by
      rw [exactShare, ceilDiv_le_iff someWindow]
      exact Int.mul_le_mul_of_nonneg_left (by omega) someLimit.le
    rw [if_neg (by omega), if_neg (by omega)]

variable {share : Int → Int → Int → Int}

theorem remaining_pos_of_capacityBy (positive : 0 < config.capacityBy share now) : 0 < config.remaining now := by
  by_contra none
  simp only [Config.capacityBy, not_lt.mp none, if_true, ite_self] at positive
  contradiction

theorem budgetLeft_of_pos (enabled : config.enabled = true) (count : IsCount dispatched)
    (positive : 0 < config.budgetLeft dispatched) :
    config.budgetLeft dispatched = config.limit - dispatched := by
  have someLimit := (enabled_iff.mp enabled).1
  have fits := config.limitFits
  have wrapped : wrap (config.limit - dispatched) = config.limit - dispatched ∨
      wrap (config.limit - dispatched) < 0 := by
    simp only [IsCount, Duration.limit] at count fits
    rw [wrap, Int.bmod_def]
    split <;> omega
  simp only [Config.budgetLeft] at positive ⊢
  split at positive
  · contradiction
  · rename_i notNegative
    rw [if_neg notNegative]
    exact wrapped.resolve_right notNegative

theorem allowanceBy_eq (enabled : config.enabled = true) (count : IsCount dispatched)
    (positive : 0 < config.allowanceBy share now dispatched) :
    0 < config.remaining now ∧ 0 < config.capacityBy share now ∧
      config.allowanceBy share now dispatched = min (config.limit - dispatched) (config.capacityBy share now) := by
  simp only [Config.allowanceBy, enabled, Bool.not_true, Bool.false_eq_true, if_false] at positive ⊢
  split at positive
  · rename_i less
    have budget := budgetLeft_of_pos enabled count positive
    refine ⟨remaining_pos_of_capacityBy (positive.trans less), positive.trans less, ?_⟩
    rw [if_pos less, ← budget, min_eq_left less.le]
  · rename_i notLess
    have more := not_lt.mp notLess
    have budget := budgetLeft_of_pos enabled count (lt_of_lt_of_le positive more)
    refine ⟨remaining_pos_of_capacityBy positive, positive, ?_⟩
    rw [if_neg notLess, ← budget, min_eq_right more]

theorem allowance_eq (enabled : config.enabled = true) (count : IsCount dispatched)
    (positive : 0 < config.allowance now dispatched) :
    0 < config.remaining now ∧
      config.allowance now dispatched = min (config.limit - dispatched) (config.capacity now) := by
  obtain ⟨left, _, allowed⟩ := allowanceBy_eq enabled count positive
  exact ⟨left, allowed⟩

theorem spacingBy_eq (enabled : config.enabled = true) (count : IsCount dispatched)
    (positive : 0 < config.allowanceBy share now dispatched) :
    config.spacingBy share now dispatched = config.remaining now / config.allowanceBy share now dispatched := by
  obtain ⟨left, _⟩ := allowanceBy_eq enabled count positive
  rw [Config.spacingBy, if_neg (not_le.mpr positive), if_neg (not_le.mpr left)]
  exact Int.tdiv_eq_ediv_of_nonneg left.le

theorem pace_pos (enabled : config.enabled = true) : 0 < config.pace :=
  ceilDiv_pos (enabled_iff.mp enabled).1 (enabled_iff.mp enabled).2

/-- However the share is computed, the spacing is no shorter than the declared pace exactly where what is left
of the budget, or what the window can absorb, fits at that pace. -/
theorem pace_le_spacingBy_iff (enabled : config.enabled = true) (count : IsCount dispatched)
    (positive : 0 < config.allowanceBy share now dispatched) :
    config.window ≤ config.spacingBy share now dispatched * config.limit ↔
      (config.limit - dispatched) * config.pace ≤ config.remaining now ∨
        config.capacityBy share now * config.pace ≤ config.remaining now := by
  obtain ⟨_, _, allowed⟩ := allowanceBy_eq enabled count positive
  rw [spacingBy_eq enabled count positive, ← ceilDiv_le_iff (enabled_iff.mp enabled).1, ← Config.pace,
    Int.le_ediv_iff_mul_le positive, mul_comm, allowed, min_mul_of_nonneg _ _ (pace_pos enabled).le, min_le_iff]

theorem product64_nonneg {limit left window : Int} (someLimit : 0 < limit) (someLeft : 0 < left)
    (someWindow : 0 < window) : 0 ≤ product64 limit left window := by
  have held : ∀ {n : Int}, 0 < n → 0 ≤ Float64.rounded n := fun positive =>
    Float64.rounded_nonneg (Int.cast_nonneg positive.le)
  refine Float64.rounded_nonneg (mul_nonneg (held someLimit) (Float64.rounded_nonneg ?_))
  exact div_nonneg (held someLeft) (held someWindow)

/-- What the code finds that the window can absorb, where it finds anything and less than the window is left. -/
theorem capacityBy_float64 {saturates : Bool} (enabled : config.enabled = true)
    (short : config.remaining now < config.window)
    (positive : 0 < config.capacityBy (float64Share saturates) now) :
    config.capacityBy (float64Share saturates) now =
      min config.limit ⌈product64 config.limit (config.remaining now) config.window⌉ := by
  obtain ⟨someLimit, someWindow⟩ := enabled_iff.mp enabled
  have left := remaining_pos_of_capacityBy positive
  have fits := config.limitFits
  have nonneg : 0 ≤ ⌈product64 config.limit (config.remaining now) config.window⌉ :=
    Int.ceil_nonneg (product64_nonneg someLimit left someWindow)
  have found : config.capacityBy (float64Share saturates) now =
      if float64Share saturates config.limit (config.remaining now) config.window < 0 then 0
      else min config.limit (float64Share saturates config.limit (config.remaining now) config.window) := by
    simp only [Config.capacityBy, enabled, Bool.not_true, Bool.false_eq_true, if_false, not_le.mpr left,
      not_le.mpr short, min_def_lt]
  rw [found] at positive ⊢
  unfold float64Share at positive ⊢
  generalize ⌈product64 config.limit (config.remaining now) config.window⌉ = ceiling at nonneg positive ⊢
  generalize Duration.limit = top at fits positive ⊢
  cases saturates <;> grind

/-- The spacing is no shorter than the declared pace exactly where the remaining time has room. -/
theorem pace_le_spacing_iff (config : Config) (saturates : Bool) (now dispatched : Int)
    (enabled : config.enabled = true) (count : IsCount dispatched)
    (positive : 0 < config.allowanceBy (float64Share saturates) now dispatched) :
    config.window ≤ config.spacingBy (float64Share saturates) now dispatched * config.limit ↔
      config.roomy now dispatched := by
  obtain ⟨someLimit, someWindow⟩ := enabled_iff.mp enabled
  obtain ⟨left, absorbs, _⟩ := allowanceBy_eq enabled count positive
  have paced := pace_pos enabled
  rw [pace_le_spacingBy_iff enabled count positive, Config.roomy]
  apply or_congr Iff.rfl
  by_cases whole : config.window ≤ config.remaining now
  · rw [if_pos whole, Config.capacityBy]
    simp only [enabled, Bool.not_true, Bool.false_eq_true, if_false, not_le.mpr left, if_pos whole]
  · -- The limit itself never fits: its intervals cover the window.
    have exceeds : ¬config.limit * config.pace ≤ config.remaining now := by
      have covers := le_ceilDiv_mul config.window someLimit
      rw [mul_comm, ← Config.pace] at covers
      omega
    rw [if_neg whole, capacityBy_float64 enabled (not_le.mp whole) absorbs, min_mul_of_nonneg _ _ paced.le,
      min_le_iff, or_iff_right exceeds, ← Int.le_ediv_iff_mul_le paced, Int.ceil_le]

/-- Two sessions a minute. -/
def twoAMinute : Config where
  limit := 2
  window := 60000000000
  anchor := 0
  limitFits := by decide
  windowFits := by decide

/-- At the start of a window the two sessions are half a minute apart. -/
theorem twoAMinute_spacing :
    twoAMinute.window ≤ twoAMinute.spacingBy (float64Share false) epoch 0 * twoAMinute.limit := by
  apply (pace_le_spacing_iff twoAMinute false epoch 0 (by decide) ⟨by decide, by decide⟩ (by decide)).mpr
  exact Or.inl (by decide)

/-- With three quarters of the minute left there is room for one and a half sessions; two are allowed, and
the next one may go after three eighths of a minute. -/
theorem twoAMinute_too_soon :
    0 < twoAMinute.allowanceBy (float64Share false) (epoch + 15000000000) 0 ∧
      twoAMinute.spacingBy (float64Share false) (epoch + 15000000000) 0 = 22500000000 ∧
      ¬ twoAMinute.window ≤ twoAMinute.spacingBy (float64Share false) (epoch + 15000000000) 0 * twoAMinute.limit := by
  decide +kernel

/-- With seven of twenty-five hours left there is room for seven of twenty-five sessions, and the doubles make it
eight. -/
example : ⌈product64 25 25200000000000 90000000000000⌉ = 8 ∧ exactShare 25 25200000000000 90000000000000 = 7 := by
  decide +kernel

end CultureNodes.Pacing
