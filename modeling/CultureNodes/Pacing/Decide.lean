import Mathlib.Data.List.Basic
import Mathlib.Data.List.Induction
import CultureNodes.Pacing.Window

/-!
Decisions on dispatches, one after the other, with the state that is stored between them. An instant that
was never set is the zero time.
-/

namespace CultureNodes.Pacing

open Duration (between)

structure State where
  windowStart : Int := 0
  dispatched : Int := 0
  nextDispatchAt : Int := 0
deriving DecidableEq, Repr

structure Decision where
  allowed : Bool := false
  reason : String := ""
  retryAt : Int := 0
  window : Window := { start := 0, stop := 0 }
  allowance : Int := 0
  dispatched : Int := 0
  next : State := {}
deriving DecidableEq, Repr

def reasonSpacing : String := "paced"
def reasonWindowBudget : String := "window_budget_exhausted"
def reasonWindowCapacity : String := "window_capacity_exhausted"

def State.consumed (state : State) (start : Int) : Int :=
  let dispatched :=
    if state.windowStart = 0 then 0
    else if state.windowStart < start then 0
    else state.dispatched
  if dispatched < 0 then 0 else dispatched

def Config.decide (config : Config) (now : Int) (state : State) : Decision :=
  if !config.enabled then { allowed := true }
  else
    let window := config.windowAt now
    let dispatched := state.consumed window.start
    let allowance := config.allowance now dispatched
    if allowance ≤ 0 then
      { reason := if config.limit ≤ dispatched then reasonWindowBudget else reasonWindowCapacity
        retryAt := window.stop
        window := window
        dispatched := dispatched
        next := state }
    else if state.nextDispatchAt ≠ 0 ∧ now < state.nextDispatchAt then
      { reason := reasonSpacing
        retryAt := state.nextDispatchAt
        window := window
        allowance := allowance
        dispatched := dispatched
        next := state }
    else
      { allowed := true
        window := window
        allowance := allowance
        dispatched := dispatched + 1
        next :=
          { windowStart := window.start
            dispatched := dispatched + 1
            nextDispatchAt := now + config.spacing now dispatched } }

/-- The stored state, and the readings at which a dispatch was admitted, the latest first. -/
structure Book where
  state : State := {}
  admitted : List Int := []
deriving DecidableEq, Repr

/-- A call that stores the next state where it admits the dispatch. -/
def Config.call (config : Config) (book : Book) (now : Int) : Book :=
  if (config.decide now book.state).allowed then
    { state := (config.decide now book.state).next, admitted := now :: book.admitted }
  else book

def Config.calls (config : Config) (readings : List Int) : Book :=
  readings.foldl config.call {}

/-- The reading lies in one of the windows tiled off the anchor. -/
def Config.inTile (config : Config) (tile reading : Int) : Bool :=
  config.anchorAt + tile * config.window ≤ reading &&
    reading < config.anchorAt + (tile + 1) * config.window

variable {config : Config} {now : Int} {state : State}

/-- What a decision of a config that paces can be. -/
inductive Decided (config : Config) (now : Int) (state : State) : Decision → Prop
  | exhausted {reason : String} {decision : Decision}
      (none : config.allowance now (state.consumed (config.windowAt now).start) ≤ 0)
      (is : decision =
        { reason := reason
          retryAt := (config.windowAt now).stop
          window := config.windowAt now
          dispatched := state.consumed (config.windowAt now).start
          next := state }) : Decided config now state decision
  | paced {decision : Decision}
      (some : 0 < config.allowance now (state.consumed (config.windowAt now).start))
      (set : state.nextDispatchAt ≠ 0) (early : now < state.nextDispatchAt)
      (refused : decision.allowed = false) (retries : decision.retryAt = state.nextDispatchAt) :
      Decided config now state decision
  | admitted {decision : Decision}
      (some : 0 < config.allowance now (state.consumed (config.windowAt now).start))
      (free : state.nextDispatchAt = 0 ∨ state.nextDispatchAt ≤ now) (allowed : decision.allowed = true)
      (next : decision.next =
        { windowStart := (config.windowAt now).start
          dispatched := state.consumed (config.windowAt now).start + 1
          nextDispatchAt :=
            now + config.spacing now (state.consumed (config.windowAt now).start) }) :
      Decided config now state decision

theorem decided (enabled : config.enabled = true) (now : Int) (state : State) :
    Decided config now state (config.decide now state) := by
  simp only [Config.decide, enabled, Bool.not_true, Bool.false_eq_true, if_false]
  by_cases none : config.allowance now (state.consumed (config.windowAt now).start) ≤ 0
  · rw [if_pos none]
    exact .exhausted none rfl
  · rw [if_neg none]
    by_cases early : state.nextDispatchAt ≠ 0 ∧ now < state.nextDispatchAt
    · rw [if_pos early]
      exact .paced (not_le.mp none) early.1 early.2 rfl rfl
    · rw [if_neg early]
      refine .admitted (not_le.mp none) ?_ rfl rfl
      rw [not_and_or, not_not, not_lt] at early
      exact early

theorem consumed_nonneg (state : State) (start : Int) : 0 ≤ state.consumed start := by
  simp only [State.consumed]
  repeat' split
  all_goals omega

theorem consumed_le (state : State) (start : Int) : state.consumed start ≤ max 0 state.dispatched := by
  simp only [State.consumed]
  repeat' split
  all_goals omega

theorem consumed_of_same {start : Int} (same : state.windowStart = start) (set : start ≠ 0)
    (counted : 0 ≤ state.dispatched) : state.consumed start = state.dispatched := by
  simp only [State.consumed, same, set, lt_irrefl, if_false, not_lt.mpr counted]

theorem capacity_le_remaining (enabled : config.enabled = true) (short : config.limit ≤ config.window)
    (left : 0 < config.remaining now) : config.capacity now ≤ config.remaining now := by
  obtain ⟨someLimit, someWindow⟩ := enabled_iff.mp enabled
  rw [capacity_eq enabled left]
  split
  · omega
  · rw [ceilDiv_le_iff someWindow, mul_comm]
    exact Int.mul_le_mul_of_nonneg_left short left.le

theorem spacing_bounds {dispatched : Int} (enabled : config.enabled = true)
    (short : config.limit ≤ config.window) (count : IsCount dispatched)
    (positive : 0 < config.allowance now dispatched) :
    0 < config.spacing now dispatched ∧ config.spacing now dispatched ≤ config.remaining now := by
  obtain ⟨left, allowed⟩ := allowance_eq enabled count positive
  have capacity := capacity_le_remaining enabled short left
  rw [Config.spacing, spacingBy_eq enabled count positive, ← Config.allowance]
  constructor
  · have fits : config.allowance now dispatched ≤ config.remaining now := by
      rw [allowed]
      exact (min_le_right _ _).trans capacity
    rw [Int.lt_iff_add_one_le, zero_add, Int.le_ediv_iff_mul_le positive, one_mul]
    exact fits
  · exact Int.ediv_le_self _ left.le

/-- The number of the window a reading falls in, as far as the tiling reaches. -/
def Config.index (config : Config) (now : Int) : Int :=
  between now config.anchorAt / config.window

theorem windowAt_eq (enabled : config.enabled = true) (now : Int) :
    config.windowAt now =
      { start := Duration.stored (config.anchorAt + Duration.wrap (config.index now * config.window))
        stop := Duration.stored (config.anchorAt + Duration.wrap (config.index now * config.window)) +
          config.window } := by
  have someWindow := (enabled_iff.mp enabled).2
  rw [Config.windowAt, if_neg (not_le.mpr someWindow), floorDiv_eq someWindow]
  rfl

theorem index_mono (enabled : config.enabled = true) {earlier later : Int} (order : earlier ≤ later) :
    config.index earlier ≤ config.index later := by
  apply Int.ediv_le_ediv (enabled_iff.mp enabled).2
  simp only [between]
  omega

theorem index_of_inTile (enabled : config.enabled = true) {tile reading : Int}
    (inside : config.inTile tile reading = true) :
    config.index reading =
      max (-Duration.limit / config.window) (min tile ((Duration.limit - 1) / config.window)) := by
  have someWindow := (enabled_iff.mp enabled).2
  simp only [Config.inTile, Bool.and_eq_true, decide_eq_true_eq] at inside
  have isTile : (reading - config.anchorAt) / config.window = tile := by
    rw [Int.ediv_eq_iff_of_pos someWindow]
    constructor <;> linarith [inside.1, inside.2]
  have monotone : Monotone fun nanos : Int => nanos / config.window :=
    fun _ _ order => Int.ediv_le_ediv someWindow order
  have outer := monotone.map_max (a := -Duration.limit)
    (b := min (reading - config.anchorAt) (Duration.limit - 1))
  have inner := monotone.map_min (a := reading - config.anchorAt) (b := Duration.limit - 1)
  rw [Config.index, between, outer, inner, isTile]

/-- The zero time is neither the start of the reading's window nor ahead of the reading in it. -/
def Config.clear (config : Config) (now : Int) : Prop :=
  (config.windowAt now).start ≠ 0 ∧ ¬ (now < 0 ∧ 0 ≤ now + config.remaining now)

/-- The readings of the admitted dispatches that fall in a window, counted. -/
def Book.inWindow (book : Book) (config : Config) (index : Int) : Nat :=
  (book.admitted.filter fun reading => config.index reading = index).length

structure Counted (config : Config) (book : Book) : Prop where
  nonneg : 0 ≤ book.state.dispatched
  within : book.state.dispatched ≤ config.limit
  bounded : ∀ index, (book.inWindow config index : Int) ≤ config.limit
  latest : ∀ last rest, book.admitted = last :: rest →
    book.state.windowStart = (config.windowAt last).start ∧ (config.windowAt last).start ≠ 0 ∧
      last < book.state.nextDispatchAt ∧ book.state.nextDispatchAt ≠ 0 ∧
      (book.inWindow config (config.index last) : Int) ≤ book.state.dispatched ∧
      ∀ reading ∈ rest, reading ≤ last

theorem isCount_consumed (nonneg : 0 ≤ state.dispatched) (within : state.dispatched ≤ config.limit)
    (start : Int) : IsCount (state.consumed start) := by
  have above := consumed_nonneg state start
  have below := consumed_le state start
  have fits := config.limitFits
  simp only [IsCount, Duration.limit] at fits ⊢
  omega

theorem consumed_lt_limit {dispatched : Int} (enabled : config.enabled = true) (count : IsCount dispatched)
    (positive : 0 < config.allowance now dispatched) : dispatched < config.limit := by
  obtain ⟨_, allowed⟩ := allowance_eq enabled count positive
  rw [allowed, lt_min_iff] at positive
  omega

theorem inWindow_cons (book : Book) (state : State) (reading index : Int) :
    Book.inWindow { state := state, admitted := reading :: book.admitted } config index =
      book.inWindow config index + if config.index reading = index then 1 else 0 := by
  by_cases here : config.index reading = index
  · simp [Book.inWindow, here]
  · simp [Book.inWindow, here]

theorem Counted.earlier {book : Book} (counted : Counted config book)
    (free : book.state.nextDispatchAt = 0 ∨ book.state.nextDispatchAt ≤ now) :
    ∀ reading ∈ book.admitted, reading < now := by
  intro reading held
  cases admitted : book.admitted with
  | nil =>
      rw [admitted] at held
      contradiction
  | cons last rest =>
      obtain ⟨_, _, next, nextSet, _, ordered⟩ := counted.latest last rest admitted
      have later : last < now := next.trans_le (free.resolve_left nextSet)
      rw [admitted] at held
      obtain rfl | inRest := List.mem_cons.mp held
      · exact later
      · exact (ordered reading inRest).trans_lt later

theorem Counted.inWindow_le_consumed {book : Book} (enabled : config.enabled = true)
    (counted : Counted config book)
    (free : book.state.nextDispatchAt = 0 ∨ book.state.nextDispatchAt ≤ now) :
    (book.inWindow config (config.index now) : Int) ≤ book.state.consumed (config.windowAt now).start := by
  have nonneg := consumed_nonneg book.state (config.windowAt now).start
  cases admitted : book.admitted with
  | nil => simpa [Book.inWindow, admitted] using nonneg
  | cons last rest =>
      obtain ⟨started, set, _, _, inLast, ordered⟩ := counted.latest last rest admitted
      have later : last < now := counted.earlier free last (admitted ▸ List.mem_cons_self)
      have order := index_mono enabled later.le
      by_cases same : config.index last = config.index now
      · have sameWindow : config.windowAt now = config.windowAt last := by
          rw [windowAt_eq enabled, windowAt_eq enabled, same]
        rw [sameWindow, consumed_of_same started set counted.nonneg, ← same]
        exact inLast
      · have empty : book.inWindow config (config.index now) = 0 := by
          rw [Book.inWindow, List.length_eq_zero_iff, List.filter_eq_nil_iff, admitted]
          intro reading held
          have atMost : reading ≤ last := by
            obtain rfl | inRest := List.mem_cons.mp held
            · exact le_rfl
            · exact ordered reading inRest
          have indexAtMost := index_mono enabled atMost
          simp only [decide_eq_true_eq]
          omega
        rw [empty]
        exact_mod_cast nonneg

theorem Counted.dispatched {book : Book} (enabled : config.enabled = true)
    (short : config.limit ≤ config.window) (counted : Counted config book) (clear : config.clear now)
    (positive : 0 < config.allowance now (book.state.consumed (config.windowAt now).start))
    (free : book.state.nextDispatchAt = 0 ∨ book.state.nextDispatchAt ≤ now) :
    Counted config
      { state :=
          { windowStart := (config.windowAt now).start
            dispatched := book.state.consumed (config.windowAt now).start + 1
            nextDispatchAt := now + config.spacing now (book.state.consumed (config.windowAt now).start) }
        admitted := now :: book.admitted } := by
  have count := isCount_consumed counted.nonneg counted.within (config.windowAt now).start
  have nonneg := consumed_nonneg book.state (config.windowAt now).start
  have below := consumed_lt_limit enabled count positive
  obtain ⟨soon, late⟩ := spacing_bounds enabled short count positive
  have here := counted.inWindow_le_consumed enabled free
  constructor
  · dsimp only
    omega
  · dsimp only
    omega
  · intro index
    rw [inWindow_cons]
    by_cases isHere : config.index now = index
    · subst isHere
      rw [if_pos rfl]
      push_cast
      omega
    · rw [if_neg isHere]
      exact_mod_cast counted.bounded index
  · intro last rest isAdmitted
    simp only [List.cons.injEq] at isAdmitted
    obtain ⟨rfl, rfl⟩ := isAdmitted
    refine ⟨rfl, clear.1, by dsimp only; omega, ?_, ?_, ?_⟩
    · have ahead := clear.2
      dsimp only
      omega
    · rw [inWindow_cons, if_pos rfl]
      push_cast
      omega
    · exact fun reading held => (counted.earlier free reading held).le

theorem Counted.call {book : Book} (enabled : config.enabled = true)
    (short : config.limit ≤ config.window) (counted : Counted config book) (clear : config.clear now) :
    Counted config (config.call book now) := by
  have cases := decided enabled now book.state
  simp only [Config.call]
  generalize config.decide now book.state = decision at cases
  cases cases with
  | exhausted none is =>
      rw [is]
      exact counted
  | paced some set early refused retries =>
      rw [refused]
      exact counted
  | admitted some free allowed next =>
      rw [allowed, if_pos rfl, next]
      exact counted.dispatched enabled short clear some free

theorem Counted.empty (enabled : config.enabled = true) : Counted config {} where
  nonneg := le_rfl
  within := (enabled_iff.mp enabled).1.le
  bounded := fun _ => (enabled_iff.mp enabled).1.le
  latest := fun _ _ isAdmitted => by contradiction

theorem counted_calls (enabled : config.enabled = true) (short : config.limit ≤ config.window)
    (readings : List Int) (clear : ∀ reading ∈ readings, config.clear reading) :
    Counted config (config.calls readings) := by
  induction readings using List.reverseRecOn with
  | nil => exact .empty enabled
  | append_singleton readings now ih =>
      have before := ih fun reading held => clear reading (List.mem_append_left _ held)
      rw [Config.calls, List.foldl_append]
      exact before.call enabled short (clear now (by simp))

/-- No window admits more dispatches than the limit, whatever the clock does away from the zero time. -/
theorem admitted_le_limit (config : Config) (enabled : config.enabled = true)
    (short : config.limit ≤ config.window) (readings : List Int)
    (clear : ∀ reading ∈ readings, config.clear reading) (tile : Int) :
    (((config.calls readings).admitted.filter (config.inTile tile)).length : Int) ≤ config.limit := by
  have counted := counted_calls enabled short readings clear
  have most : ((config.calls readings).admitted.filter (config.inTile tile)).length ≤
      (config.calls readings).inWindow config
        (max (-Duration.limit / config.window) (min tile ((Duration.limit - 1) / config.window))) := by
    apply List.Sublist.length_le
    apply List.monotone_filter_right
    intro reading inside
    exact decide_eq_true (index_of_inTile enabled inside)
  have bound := counted.bounded
    (max (-Duration.limit / config.window) (min tile ((Duration.limit - 1) / config.window)))
  omega

/-- A dispatch at the reset, and one asked for a second before it. -/
theorem twoAMinute_admitted :
    (((twoAMinute.calls [epoch, epoch - 1000000000]).admitted.filter (twoAMinute.inTile 0)).length : Int) ≤
      twoAMinute.limit := by
  apply admitted_le_limit twoAMinute (by decide) (by decide)
  intro reading held
  simp only [List.mem_cons, List.not_mem_nil, or_false] at held
  obtain rfl | rfl := held
  · exact ⟨by decide, by decide⟩
  · exact ⟨by decide, by decide⟩

/-- Three sessions a microsecond, with a reset one microsecond after the zero time. -/
def fromTheZeroTime : Config where
  limit := 3
  window := 1000
  anchor := 1000
  limitFits := by decide
  windowFits := by decide

/-- The window that starts at the zero time counts as none, so it admits a fourth dispatch. -/
theorem fromTheZeroTime_admits_four :
    (fromTheZeroTime.enabled = true ∧ 1000 ∣ fromTheZeroTime.window ∧
      fromTheZeroTime.limit ≤ fromTheZeroTime.window) ∧
    ¬ (((fromTheZeroTime.calls [0, 333, 555, 777]).admitted.filter
      (fromTheZeroTime.inTile (-1))).length : Int) ≤ fromTheZeroTime.limit := by
  decide +kernel

/-- The tiling reaches the reading's window, with the anchor's microseconds. -/
structure Config.reaches (config : Config) (now : Int) : Prop where
  start : -Duration.limit ≤ (now - config.anchorAt) / config.window * config.window
  stop : ((now - config.anchorAt) / config.window + 1) * config.window < Duration.limit

theorem stored_anchorAt (config : Config) : (1000 : Int) ∣ config.anchorAt := by
  rw [Config.anchorAt]
  split
  · decide
  · exact Duration.dvd_stored _

/-- Where the tiling reaches, the window is the one that has the reading in it. -/
structure Inside (config : Config) (now : Int) : Prop where
  start : (config.windowAt now).start =
    config.anchorAt + (now - config.anchorAt) / config.window * config.window
  after : (config.windowAt now).start ≤ now
  before : now < (config.windowAt now).stop
  stop : (config.windowAt now).stop = (config.windowAt now).start + config.window

theorem inside_of_fits (enabled : config.enabled = true) (whole : (1000 : Int) ∣ config.window)
    (above : -Duration.limit ≤ (now - config.anchorAt) / config.window * config.window)
    (below : now - config.anchorAt < Duration.limit) : Inside config now := by
  have someWindow := (enabled_iff.mp enabled).2
  have floor := Int.ediv_mul_le (now - config.anchorAt) someWindow.ne'
  have ceiling := Int.lt_ediv_add_one_mul_self (now - config.anchorAt) someWindow
  rw [add_mul, one_mul] at ceiling
  have fits : between now config.anchorAt = now - config.anchorAt := by
    simp only [between, Duration.limit] at above below ⊢
    omega
  have index : config.index now = (now - config.anchorAt) / config.window := by
    rw [Config.index, fits]
  have inRange : Duration.wrap (config.index now * config.window) = config.index now * config.window := by
    rw [index]
    exact Duration.wrap_of_fits above (by omega)
  have aligned : Duration.stored (config.anchorAt + config.index now * config.window) =
      config.anchorAt + config.index now * config.window :=
    Duration.stored_of_dvd (Int.dvd_add (stored_anchorAt config) (Dvd.dvd.mul_left whole _))
  have window := windowAt_eq enabled now
  rw [inRange, aligned, index] at window
  constructor
  · rw [window]
  · rw [window]
    dsimp only
    omega
  · rw [window]
    dsimp only
    omega
  · rw [window]

theorem Config.reaches.inside (enabled : config.enabled = true) (whole : (1000 : Int) ∣ config.window)
    (reaches : config.reaches now) : Inside config now := by
  have ceiling := Int.lt_ediv_add_one_mul_self (now - config.anchorAt) (enabled_iff.mp enabled).2
  have stop := reaches.stop
  exact inside_of_fits enabled whole reaches.start (by omega)

theorem windowAt_eq_of_inside (enabled : config.enabled = true) (whole : (1000 : Int) ∣ config.window)
    {reading : Int} (reaches : config.reaches reading) (after : (config.windowAt reading).start ≤ now)
    (before : now < (config.windowAt reading).stop) :
    config.reaches now ∧ config.windowAt now = config.windowAt reading := by
  have someWindow := (enabled_iff.mp enabled).2
  have inside := reaches.inside enabled whole
  have sameIndex : (now - config.anchorAt) / config.window = (reading - config.anchorAt) / config.window := by
    rw [Int.ediv_eq_iff_of_pos someWindow]
    rw [inside.stop, inside.start] at before
    rw [inside.start] at after
    constructor <;> linarith
  have reachesNow : config.reaches now := ⟨sameIndex ▸ reaches.start, sameIndex ▸ reaches.stop⟩
  have insideNow := reachesNow.inside enabled whole
  have sameStart : (config.windowAt now).start = (config.windowAt reading).start := by
    rw [insideNow.start, inside.start, sameIndex]
  have sameStop : (config.windowAt now).stop = (config.windowAt reading).stop := by
    rw [insideNow.stop, inside.stop, sameStart]
  exact ⟨reachesNow, Window.ext sameStart sameStop⟩

theorem windowAt_stop (enabled : config.enabled = true) (whole : (1000 : Int) ∣ config.window)
    (reaches : config.reaches now) :
    Inside config (config.windowAt now).stop ∧
      (config.windowAt (config.windowAt now).stop).start = (config.windowAt now).stop := by
  have someWindow := (enabled_iff.mp enabled).2
  have inside := reaches.inside enabled whole
  have elapsed : (config.windowAt now).stop - config.anchorAt =
      ((now - config.anchorAt) / config.window + 1) * config.window := by
    rw [inside.stop, inside.start, add_mul, one_mul]
    omega
  have index : ((config.windowAt now).stop - config.anchorAt) / config.window =
      (now - config.anchorAt) / config.window + 1 := by
    rw [elapsed, Int.mul_ediv_cancel _ someWindow.ne']
  have next : Inside config (config.windowAt now).stop := by
    apply inside_of_fits enabled whole
    · rw [index, add_mul, one_mul]
      have start := reaches.start
      omega
    · rw [elapsed]
      exact reaches.stop
  refine ⟨next, ?_⟩
  rw [next.start, index, ← elapsed]
  omega

theorem Inside.remaining (inside : Inside config now) :
    config.remaining now = (config.windowAt now).stop - now := by
  have fits := config.windowFits
  have after := inside.after
  have before := inside.before
  have stop := inside.stop
  exact Duration.between_of_fits before.le (by omega)

/-- Something is allowed where some of the window and of the budget is left. -/
theorem allowance_pos {dispatched : Int} (enabled : config.enabled = true) (inside : Inside config now)
    (nonneg : 0 ≤ dispatched) (below : dispatched < config.limit) :
    0 < config.allowance now dispatched := by
  obtain ⟨someLimit, someWindow⟩ := enabled_iff.mp enabled
  have fits := config.limitFits
  have left : 0 < config.remaining now := by
    rw [inside.remaining]
    have before := inside.before
    omega
  have wrapped : Duration.wrap (config.limit - dispatched) = config.limit - dispatched :=
    Duration.wrap_of_fits (by simp only [Duration.limit] at *; omega) (by omega)
  have budget : config.budgetLeft dispatched = config.limit - dispatched := by
    rw [Config.budgetLeft, wrapped, if_neg (by omega)]
  have room : 0 < config.capacity now := by
    rw [capacity_eq enabled left]
    split
    · exact someLimit
    · exact ceilDiv_pos someWindow (Int.mul_pos someLimit left)
  simp only [Config.allowance, Config.allowanceBy, enabled, Bool.not_true, Bool.false_eq_true, if_false, budget]
  split
  · omega
  · exact room

/-- Where something is allowed and no slot lies ahead, the dispatch goes. -/
theorem allowed_of (enabled : config.enabled = true)
    (positive : 0 < config.allowance now (state.consumed (config.windowAt now).start))
    (free : state.nextDispatchAt = 0 ∨ state.nextDispatchAt ≤ now) :
    (config.decide now state).allowed = true := by
  have cases := decided enabled now state
  generalize config.decide now state = decision at cases
  cases cases with
  | exhausted none is => exact absurd positive (not_lt.mpr none)
  | paced _ set early refused retries => exact absurd early (not_lt.mpr (free.resolve_left set))
  | admitted _ _ allowed _ => exact allowed

/-- Nothing was dispatched yet, or the last dispatch was at a reading whose window the next slot does not
lie beyond. -/
structure Waiting (config : Config) (state : State) (now : Int) : Prop where
  nonneg : 0 ≤ state.dispatched
  within : state.dispatched ≤ config.limit
  last : state = {} ∨ ∃ reading ≤ now, config.reaches reading ∧
    state.windowStart = (config.windowAt reading).start ∧
    reading < state.nextDispatchAt ∧ state.nextDispatchAt ≤ (config.windowAt reading).stop

theorem start_mono (enabled : config.enabled = true) (whole : (1000 : Int) ∣ config.window)
    {earlier later : Int} (reachesEarlier : config.reaches earlier) (reachesLater : config.reaches later)
    (order : earlier ≤ later) :
    (config.windowAt earlier).start ≤ (config.windowAt later).start := by
  have someWindow := (enabled_iff.mp enabled).2
  rw [(reachesEarlier.inside enabled whole).start, (reachesLater.inside enabled whole).start]
  have indices := Int.ediv_le_ediv someWindow (Int.sub_le_sub_right order config.anchorAt)
  have scaled := Int.mul_le_mul_of_nonneg_right indices someWindow.le
  omega

/-- At the end of a window the dispatch goes. -/
theorem Waiting.allowed_at_stop {state : State} (enabled : config.enabled = true)
    (whole : (1000 : Int) ∣ config.window) (waiting : Waiting config state now)
    (reaches : config.reaches now) : (config.decide (config.windowAt now).stop state).allowed = true := by
  have someLimit := (enabled_iff.mp enabled).1
  have inside := reaches.inside enabled whole
  obtain ⟨next, starts⟩ := windowAt_stop enabled whole reaches
  have old : state.consumed (config.windowAt (config.windowAt now).stop).start = 0 ∧
      (state.nextDispatchAt = 0 ∨ state.nextDispatchAt ≤ (config.windowAt now).stop) := by
    obtain rfl | ⟨reading, earlier, reachesReading, started, _, slot⟩ := waiting.last
    · exact ⟨rfl, Or.inl rfl⟩
    · have order := start_mono enabled whole reachesReading reaches earlier
      have stopReading := (reachesReading.inside enabled whole).stop
      have stopNow := inside.stop
      have someWindow := (enabled_iff.mp enabled).2
      constructor
      · rw [starts]
        simp only [State.consumed]
        repeat' split
        all_goals omega
      · right
        omega
  apply allowed_of enabled _ old.2
  rw [old.1]
  exact allowance_pos enabled next le_rfl someLimit

theorem Waiting.allowed_at_slot {state : State} (enabled : config.enabled = true)
    (whole : (1000 : Int) ∣ config.window) (waiting : Waiting config state now)
    (reaches : config.reaches now)
    (some : 0 < config.allowance now (state.consumed (config.windowAt now).start))
    (set : state.nextDispatchAt ≠ 0) (early : now < state.nextDispatchAt) :
    (config.decide state.nextDispatchAt state).allowed = true := by
  obtain rfl | ⟨reading, earlier, reachesReading, started, _, slot⟩ := waiting.last
  · contradiction
  · have insideReading := reachesReading.inside enabled whole
    have after : (config.windowAt reading).start ≤ now := insideReading.after.trans earlier
    have sameNow := (windowAt_eq_of_inside enabled whole reachesReading after (by omega)).2
    obtain inWindow | atStop := lt_or_eq_of_le slot
    · obtain ⟨reachesSlot, sameSlot⟩ := windowAt_eq_of_inside enabled whole reachesReading
        (after.trans early.le) inWindow
      have below := consumed_lt_limit enabled (isCount_consumed waiting.nonneg waiting.within _) some
      rw [sameNow] at below
      apply allowed_of enabled _ (Or.inr le_rfl)
      rw [sameSlot]
      exact allowance_pos enabled (reachesSlot.inside enabled whole) (consumed_nonneg _ _) below
    · rw [atStop, ← sameNow]
      exact waiting.allowed_at_stop enabled whole reaches

theorem Waiting.later {state : State} {later : Int} (waiting : Waiting config state now)
    (order : now ≤ later) : Waiting config state later := by
  refine ⟨waiting.nonneg, waiting.within, ?_⟩
  obtain zero | ⟨reading, earlier, facts⟩ := waiting.last
  · exact Or.inl zero
  · exact Or.inr ⟨reading, earlier.trans order, facts⟩

theorem Waiting.call {book : Book} (enabled : config.enabled = true) (whole : (1000 : Int) ∣ config.window)
    (short : config.limit ≤ config.window) (waiting : Waiting config book.state now)
    (reaches : config.reaches now) : Waiting config (config.call book now).state now := by
  have cases := decided enabled now book.state
  simp only [Config.call]
  generalize config.decide now book.state = decision at cases
  cases cases with
  | exhausted none is =>
      rw [is]
      exact waiting
  | paced some set early refused retries =>
      rw [refused]
      exact waiting
  | admitted some free allowed next =>
      rw [allowed, if_pos rfl, next]
      have count := isCount_consumed waiting.nonneg waiting.within (config.windowAt now).start
      have nonneg := consumed_nonneg book.state (config.windowAt now).start
      have below := consumed_lt_limit enabled count some
      obtain ⟨soon, late⟩ := spacing_bounds enabled short count some
      rw [(reaches.inside enabled whole).remaining] at late
      refine ⟨by dsimp only; omega, by dsimp only; omega, Or.inr ⟨now, le_rfl, reaches, rfl, ?_, ?_⟩⟩
      · dsimp only
        omega
      · dsimp only
        omega

theorem waiting_calls (enabled : config.enabled = true) (whole : (1000 : Int) ∣ config.window)
    (short : config.limit ≤ config.window) (readings : List Int)
    (order : readings.Pairwise (· ≤ ·)) (reach : ∀ reading ∈ readings, config.reaches reading) :
    ∀ now, (∀ reading ∈ readings, reading ≤ now) → Waiting config (config.calls readings).state now := by
  induction readings using List.reverseRecOn with
  | nil =>
      intro now _
      exact ⟨le_rfl, (enabled_iff.mp enabled).1.le, Or.inl rfl⟩
  | append_singleton readings reading ih =>
      intro now bound
      obtain ⟨ordered, _, last⟩ := List.pairwise_append.mp order
      have before := ih ordered (fun other held => reach other (List.mem_append_left _ held)) reading
        fun other held => last other held reading List.mem_cons_self
      have reached : reading ∈ readings ++ [reading] := by simp
      rw [Config.calls, List.foldl_append]
      exact (before.call enabled whole short (reach reading reached)).later (bound reading reached)

/-- A dispatch refused at one of the readings of a clock that does not go back is told to come back later,
and then goes, as far as the tiling reaches. -/
theorem refused_comes_back (config : Config) (enabled : config.enabled = true)
    (whole : (1000 : Int) ∣ config.window) (short : config.limit ≤ config.window) (readings : List Int)
    (now : Int) (order : (readings ++ [now]).Pairwise (· ≤ ·))
    (reach : ∀ reading ∈ readings ++ [now], config.reaches reading)
    (refused : (config.decide now (config.calls readings).state).allowed = false) :
    now < (config.decide now (config.calls readings).state).retryAt ∧
      (config.decide (config.decide now (config.calls readings).state).retryAt
        (config.calls (readings ++ [now])).state).allowed = true := by
  obtain ⟨ordered, _, last⟩ := List.pairwise_append.mp order
  have reaches : config.reaches now := reach now (by simp)
  have waiting := waiting_calls enabled whole short readings ordered
    (fun other held => reach other (List.mem_append_left _ held)) now
    fun other held => last other held now List.mem_cons_self
  have unchanged : (config.calls (readings ++ [now])).state = (config.calls readings).state := by
    rw [Config.calls, List.foldl_append, List.foldl_cons, List.foldl_nil, ← Config.calls, Config.call, refused]
    rfl
  rw [unchanged]
  have cases := decided enabled now (config.calls readings).state
  generalize config.decide now (config.calls readings).state = decision at refused cases
  cases cases with
  | exhausted none is =>
      rw [is]
      exact ⟨(reaches.inside enabled whole).before, waiting.allowed_at_stop enabled whole reaches⟩
  | paced some set early _ retries =>
      rw [retries]
      exact ⟨early, waiting.allowed_at_slot enabled whole reaches some set early⟩
  | admitted _ _ allowed _ =>
      rw [allowed] at refused
      contradiction

/-- A second dispatch right after the first one of a minute. -/
theorem twoAMinute_comes_back :
    epoch + 1 < (twoAMinute.decide (epoch + 1) (twoAMinute.calls [epoch]).state).retryAt ∧
      (twoAMinute.decide (twoAMinute.decide (epoch + 1) (twoAMinute.calls [epoch]).state).retryAt
        (twoAMinute.calls ([epoch] ++ [epoch + 1])).state).allowed = true := by
  apply refused_comes_back twoAMinute (by decide) (by decide) (by decide) [epoch] (epoch + 1)
  · simp
  · intro reading held
    simp only [List.cons_append, List.nil_append, List.mem_cons, List.not_mem_nil, or_false] at held
    obtain rfl | rfl := held
    · exact ⟨by decide, by decide⟩
    · exact ⟨by decide, by decide⟩
  · decide +kernel

/-- One session an hour, tiled off the Unix epoch, asked for in the year 2300: nothing is ever allowed, and
the instant to come back at is in the year 2262. -/
def oneAnHour : Config where
  limit := 1
  window := 3600000000000
  anchor := 0
  limitFits := by decide
  windowFits := by decide

theorem oneAnHour_told_the_past :
    (oneAnHour.enabled = true ∧ 1000 ∣ oneAnHour.window ∧ oneAnHour.limit ≤ oneAnHour.window) ∧
    (oneAnHour.decide (epoch + 10413792000000000000) (oneAnHour.calls []).state).allowed = false ∧
    (oneAnHour.decide (epoch + 10413792000000000000) (oneAnHour.calls []).state).retryAt <
      epoch + 10413792000000000000 := by
  decide +kernel

end CultureNodes.Pacing
