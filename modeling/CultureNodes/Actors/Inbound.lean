import Mathlib.Algebra.Group.Int.Defs
import Mathlib.Data.List.Basic
import Mathlib.Order.Basic

/-!
The gate in front of a dial-in connection. One row per credential holds a failure counter, a lockout and a
rate window; every presentation is decided from the row and written back before the next one is read.
-/

namespace CultureNodes.Inbound

/-- The limits of the gate. The constructor of the authenticator refuses any that is not positive. -/
structure InboundAuthenticationConfig where
  rateLimit : Nat
  rateWindow : Int
  failureLimit : Nat
  lockoutDuration : Int
  requireControlPlaneIssued : Bool
  rateLimitPositive : 0 < rateLimit
  rateWindowPositive : 0 < rateWindow
  failureLimitPositive : 0 < failureLimit
  lockoutPositive : 0 < lockoutDuration

/-- The limits a deployment gets by configuring nothing, in nanoseconds. -/
def defaultInboundAuthenticationConfig : InboundAuthenticationConfig where
  rateLimit := 10
  rateWindow := 60 * 10 ^ 9
  failureLimit := 5
  lockoutDuration := 15 * 60 * 10 ^ 9
  requireControlPlaneIssued := true
  rateLimitPositive := by omega
  rateWindowPositive := by omega
  failureLimitPositive := by omega
  lockoutPositive := by omega

/-- A digest, or the name of a variable that holds the secret. -/
structure InboundCredentialVerifier where
  sha256Digest : List UInt8
  envName : String
deriving DecidableEq, Repr

structure InboundAuthenticationState where
  verifier : Option InboundCredentialVerifier
  issued : Bool
  revokedAt : Option Int
  failureCount : Nat
  lockedUntil : Option Int
  rateWindowStart : Option Int
  rateAttemptCount : Nat
deriving DecidableEq, Repr

inductive InboundAuthenticationReason where
  | authenticated
  | invalid
  | locked
  | rateLimited
  | revoked
  | notIssued
deriving DecidableEq, Repr

/-- `retryAt` is set only where the refusal names an instant. -/
structure InboundAuthenticationDecision where
  allowed : Bool
  reason : InboundAuthenticationReason
  retryAt : Option Int
deriving DecidableEq, Repr

/-- What a dial brings: the clock as the gate reads it, the secret and the gate's environment. -/
structure Presentation where
  now : Int
  presented : String
  lookupEnv : String → Option String

section Decision

variable (sha256 : String → List UInt8) (config : InboundAuthenticationConfig)

def InboundCredentialVerifier.verify (verifier : InboundCredentialVerifier) (lookupEnv : String → Option String)
    (presented : String) : Bool :=
  if verifier.envName ≠ "" then
    match lookupEnv verifier.envName with
    | none => false
    | some value => sha256 presented == sha256 value
  else sha256 presented == verifier.sha256Digest

/-- A record without a verifier admits nobody. -/
def InboundAuthenticationState.verifies (state : InboundAuthenticationState) (dial : Presentation) : Bool :=
  match state.verifier with
  | none => false
  | some verifier => verifier.verify sha256 dial.lookupEnv dial.presented

/-- A lockout that is over takes the failures it was for with it. -/
def clearLockout (state : InboundAuthenticationState) : InboundAuthenticationState :=
  match state.lockedUntil with
  | none => state
  | some _ => { state with lockedUntil := none, failureCount := 0 }

def windowOver (state : InboundAuthenticationState) (now : Int) : Bool :=
  match state.rateWindowStart with
  | none => true
  | some start => decide (start + config.rateWindow ≤ now)

def restartWindow (state : InboundAuthenticationState) (now : Int) : InboundAuthenticationState :=
  if windowOver config state now then { state with rateWindowStart := some now, rateAttemptCount := 0 }
  else state

/-- The counters after a wrong secret. -/
def recordFailure (state : InboundAuthenticationState) (now : Int) : InboundAuthenticationState :=
  let failed := { state with failureCount := state.failureCount + 1 }
  if config.failureLimit ≤ failed.failureCount then
    { failed with lockedUntil := some (now + config.lockoutDuration) }
  else failed

/-- The comparison, once the row lets the dial be compared at all. -/
def compareCredential (state : InboundAuthenticationState) (dial : Presentation) :
    InboundAuthenticationState × InboundAuthenticationDecision :=
  let counted := { state with rateAttemptCount := state.rateAttemptCount + 1 }
  if counted.verifies sha256 dial then
    ({ counted with failureCount := 0, lockedUntil := none }, ⟨true, .authenticated, none⟩)
  else (recordFailure config counted dial.now, ⟨false, .invalid, none⟩)

def revokedBy (state : InboundAuthenticationState) (now : Int) : Bool :=
  match state.revokedAt with
  | none => false
  | some revoked => decide (revoked ≤ now)

def lockedAt (state : InboundAuthenticationState) (now : Int) : Bool :=
  match state.lockedUntil with
  | none => false
  | some until_ => decide (now < until_)

def decideInboundAuthentication (state : InboundAuthenticationState) (dial : Presentation) :
    InboundAuthenticationState × InboundAuthenticationDecision :=
  if revokedBy state dial.now then (state, ⟨false, .revoked, none⟩)
  else if config.requireControlPlaneIssued && !state.issued then (state, ⟨false, .notIssued, none⟩)
  else if lockedAt state dial.now then (state, ⟨false, .locked, state.lockedUntil⟩)
  else
    let current := restartWindow config (clearLockout state) dial.now
    if config.rateLimit ≤ current.rateAttemptCount then
      (current, ⟨false, .rateLimited, current.rateWindowStart.map (· + config.rateWindow)⟩)
    else compareCredential sha256 config current dial

/-- Revoking again keeps the first instant. -/
def revokeInboundCredential (state : InboundAuthenticationState) (at_ : Int) : InboundAuthenticationState :=
  { state with revokedAt := state.revokedAt <|> some at_ }

/-- What may happen to a credential between two issuances. -/
inductive InboundEvent where
  | present (dial : Presentation)
  | revoke (at_ : Int)

/-- A decided presentation, with the row as it was read and as it was written. -/
structure Entry where
  now : Int
  before : InboundAuthenticationState
  after : InboundAuthenticationState
  decision : InboundAuthenticationDecision
deriving DecidableEq, Repr

/-- The presentations of a run in order. Each one is decided and written under the row's lock. -/
def authenticate : InboundAuthenticationState → List InboundEvent → List Entry
  | _, [] => []
  | state, .revoke at_ :: rest => authenticate (revokeInboundCredential state at_) rest
  | state, .present dial :: rest =>
      let decided := decideInboundAuthentication sha256 config state dial
      ⟨dial.now, state, decided.1, decided.2⟩ :: authenticate decided.1 rest

end Decision

/-- The clock readings of the presentations. -/
def readings : List InboundEvent → List Int
  | [] => []
  | .revoke _ :: rest => readings rest
  | .present dial :: rest => dial.now :: readings rest

namespace Entry

def admitted (entry : Entry) : Bool := entry.decision.allowed

/-- The secret was compared and was wrong. -/
def refusedInvalid (entry : Entry) : Bool := entry.decision.reason == .invalid

/-- The secret was compared. -/
def compared (entry : Entry) : Bool :=
  entry.decision.reason == .authenticated || entry.decision.reason == .invalid

def startsWindow (entry : Entry) : Bool := entry.after.rateWindowStart != entry.before.rateWindowStart

/-- Within the half-open interval of the given length. -/
def within (start length : Int) (entry : Entry) : Bool :=
  decide (start ≤ entry.now) && decide (entry.now < start + length)

end Entry

variable {sha256 : String → List UInt8} {config : InboundAuthenticationConfig}
  {state after : InboundAuthenticationState} {decision : InboundAuthenticationDecision} {dial : Presentation}

/-- The row a dial is compared against: a lockout that is over is gone and the window is current. -/
def opened (config : InboundAuthenticationConfig) (state : InboundAuthenticationState) (now : Int) :
    InboundAuthenticationState :=
  restartWindow config (clearLockout state) now

inductive Decides (config : InboundAuthenticationConfig) (state : InboundAuthenticationState) (now : Int) :
    InboundAuthenticationState → InboundAuthenticationDecision → Prop
  | refused {reason : InboundAuthenticationReason} {retryAt : Option Int} (unseen : reason ≠ .invalid)
      (unseenToo : reason ≠ .authenticated) : Decides config state now state ⟨false, reason, retryAt⟩
  | rateLimited {retryAt : Option Int} (unlocked : lockedAt state now = false)
      (full : config.rateLimit ≤ (opened config state now).rateAttemptCount) :
      Decides config state now (opened config state now) ⟨false, .rateLimited, retryAt⟩
  | failed {counted : InboundAuthenticationState} (unlocked : lockedAt state now = false)
      (room : (opened config state now).rateAttemptCount < config.rateLimit)
      (isCounted : counted = { opened config state now with
        rateAttemptCount := (opened config state now).rateAttemptCount + 1 }) :
      Decides config state now (recordFailure config counted now) ⟨false, .invalid, none⟩
  | admitted {cleared : InboundAuthenticationState} (unlocked : lockedAt state now = false)
      (standing : revokedBy state now = false)
      (room : (opened config state now).rateAttemptCount < config.rateLimit)
      (isCleared : cleared = { opened config state now with
        rateAttemptCount := (opened config state now).rateAttemptCount + 1, failureCount := 0,
        lockedUntil := none }) :
      Decides config state now cleared ⟨true, .authenticated, none⟩

theorem decides (sha256 : String → List UInt8) (config : InboundAuthenticationConfig)
    (state : InboundAuthenticationState) (dial : Presentation) :
    Decides config state dial.now (decideInboundAuthentication sha256 config state dial).1
      (decideInboundAuthentication sha256 config state dial).2 := by
  unfold decideInboundAuthentication
  split
  · exact .refused (by decide) (by decide)
  · rename_i standing
    split
    · exact .refused (by decide) (by decide)
    · split
      · exact .refused (by decide) (by decide)
      · rename_i unlocked
        rw [Bool.not_eq_true] at standing unlocked
        dsimp only
        split
        · rename_i full
          exact .rateLimited unlocked full
        · rename_i room
          unfold compareCredential
          dsimp only
          split
          · exact .admitted unlocked standing (Nat.lt_of_not_le room) rfl
          · exact .failed unlocked (Nat.lt_of_not_le room) rfl

@[simp] theorem restartWindow_lockedUntil (now : Int) :
    (restartWindow config state now).lockedUntil = state.lockedUntil := by
  unfold restartWindow
  split <;> rfl

@[simp] theorem restartWindow_failureCount (now : Int) :
    (restartWindow config state now).failureCount = state.failureCount := by
  unfold restartWindow
  split <;> rfl

@[simp] theorem clearLockout_lockedUntil : (clearLockout state).lockedUntil = none := by
  unfold clearLockout
  split
  · assumption
  · rfl

@[simp] theorem opened_lockedUntil (now : Int) : (opened config state now).lockedUntil = none := by
  simp [opened]

theorem opened_failureCount (now : Int) :
    (opened config state now).failureCount = if state.lockedUntil = none then state.failureCount else 0 := by
  rw [opened, restartWindow_failureCount, clearLockout]
  cases locked : state.lockedUntil with
  | none => simp
  | some _ => simp

/-- How many more wrong secrets the row lets through before the instant, if none is right. -/
def budget (config : InboundAuthenticationConfig) (state : InboundAuthenticationState) (until_ : Int) : Nat :=
  match state.lockedUntil with
  | none => max 1 (config.failureLimit - state.failureCount)
  | some locked => if until_ ≤ locked then 0 else config.failureLimit

theorem budget_le (config : InboundAuthenticationConfig) (state : InboundAuthenticationState) (until_ : Int) :
    budget config state until_ ≤ config.failureLimit := by
  have positive := config.failureLimitPositive
  unfold budget
  split
  · omega
  · split <;> omega

/-- Opening the row before the instant gives back no more than it had. -/
theorem budget_opened (config : InboundAuthenticationConfig) {now until_ : Int} (unlocked : lockedAt state now = false) (early : now < until_) :
    max 1 (config.failureLimit - (opened config state now).failureCount) ≤ budget config state until_ := by
  have positive := config.failureLimitPositive
  rw [opened_failureCount]
  unfold budget
  unfold lockedAt at unlocked
  cases locked : state.lockedUntil with
  | none => simp
  | some instant =>
      simp only [locked, decide_eq_false_iff_not, Int.not_lt] at unlocked
      have over_ : ¬until_ ≤ instant := by omega
      simp only [reduceCtorEq, if_false, over_]
      omega

/-- A wrong secret uses one up. A lockout that begins at or after the start lasts to the end. -/
theorem budget_recordFailure {now start : Int} (begun : start ≤ now) (unlocked : state.lockedUntil = none) :
    budget config (recordFailure config state now) (start + config.lockoutDuration) + 1 ≤
      max 1 (config.failureLimit - state.failureCount) := by
  unfold recordFailure
  dsimp only
  split
  · have lasts : start + config.lockoutDuration ≤ now + config.lockoutDuration := by omega
    simp only [budget, lasts, if_true]
    omega
  · simp only [budget, unlocked]
    omega

theorem budget_step {now start : Int} (decided : Decides config state now after decision)
    (begun : start ≤ now) (early : now < start + config.lockoutDuration) (refused : decision.allowed = false) :
    budget config after (start + config.lockoutDuration) + (if decision.reason = .invalid then 1 else 0) ≤
      budget config state (start + config.lockoutDuration) := by
  cases decided with
  | refused unseen _ => simp [unseen]
  | rateLimited unlocked _ =>
      have room := budget_opened config unlocked early
      simpa [budget] using room
  | failed unlocked _ isCounted =>
      have room := budget_opened config unlocked early
      subst isCounted
      rw [if_pos rfl]
      exact Nat.le_trans (budget_recordFailure begun (opened_lockedUntil now)) room
  | admitted => simp at refused

theorem le_of_mem_authenticate {events : List InboundEvent} {entry : Entry} {floor : Int}
    (above : ∀ reading ∈ readings events, floor ≤ reading)
    (held : entry ∈ authenticate sha256 config state events) : floor ≤ entry.now := by
  induction events generalizing state with
  | nil => simp [authenticate] at held
  | cons event rest ih =>
      cases event with
      | revoke at_ => exact ih above held
      | present dial =>
          simp only [readings, List.forall_mem_cons] at above
          simp only [authenticate, List.mem_cons] at held
          obtain rfl | later := held
          · exact above.1
          · exact ih above.2 later

/-- Once every reading left is in or past the interval, the budget of the row bounds the failures in it. -/
theorem failures_le_budget {events : List InboundEvent} {start : Int}
    (ordered : (readings events).Pairwise (· ≤ ·)) (begun : ∀ reading ∈ readings events, start ≤ reading)
    (none_ : ∀ entry ∈ authenticate sha256 config state events,
      entry.within start config.lockoutDuration = true → entry.admitted = false) :
    ((authenticate sha256 config state events).filter fun entry =>
      entry.within start config.lockoutDuration && entry.refusedInvalid).length ≤
      budget config state (start + config.lockoutDuration) := by
  induction events generalizing state with
  | nil => simp [authenticate]
  | cons event rest ih =>
      cases event with
      | revoke at_ => exact ih ordered begun none_
      | present dial =>
          simp only [readings, List.pairwise_cons, List.forall_mem_cons] at ordered begun
          simp only [authenticate, List.forall_mem_cons] at none_
          have onward := ih ordered.2 begun.2 none_.2
          by_cases early : dial.now < start + config.lockoutDuration
          · have decided := decides sha256 config state dial
            have inside : Entry.within start config.lockoutDuration ⟨dial.now, state,
                (decideInboundAuthentication sha256 config state dial).1,
                (decideInboundAuthentication sha256 config state dial).2⟩ = true := by
              simp [Entry.within, begun.1, early]
            have paid := budget_step decided begun.1 early (none_.1 inside)
            simp only [authenticate, List.filter_cons, inside, Bool.true_and]
            simp only [Entry.refusedInvalid, beq_iff_eq] at onward ⊢
            split
            · rename_i wrong
              rw [if_pos wrong] at paid
              rw [List.length_cons]
              omega
            · rename_i other
              rw [if_neg other] at paid
              omega
          · -- The clock does not go back, so nothing later is in the interval either.
            have past : ∀ entry ∈ authenticate sha256 config state (.present dial :: rest),
                entry.within start config.lockoutDuration = false := by
              intro entry held
              have late : dial.now ≤ entry.now := by
                apply le_of_mem_authenticate _ held
                simpa [readings] using ordered.1
              simp only [Entry.within, Bool.and_eq_false_iff, decide_eq_false_iff_not]
              right
              omega
            rw [List.filter_eq_nil_iff.mpr]
            · simp
            · intro entry held
              simp [past entry held]

theorem failures_le_limit {events : List InboundEvent} {start : Int}
    (ordered : (readings events).Pairwise (· ≤ ·))
    (none_ : ∀ entry ∈ authenticate sha256 config state events,
      entry.within start config.lockoutDuration = true → entry.admitted = false) :
    ((authenticate sha256 config state events).filter fun entry =>
      entry.within start config.lockoutDuration && entry.refusedInvalid).length ≤ config.failureLimit := by
  induction events generalizing state with
  | nil => simp [authenticate]
  | cons event rest ih =>
      cases event with
      | revoke at_ => exact ih ordered none_
      | present dial =>
          by_cases begun : start ≤ dial.now
          · have all : ∀ reading ∈ readings (.present dial :: rest), start ≤ reading := by
              simp only [readings, List.pairwise_cons, List.forall_mem_cons] at ordered ⊢
              exact ⟨begun, fun reading held => Int.le_trans begun (ordered.1 reading held)⟩
            exact Nat.le_trans (failures_le_budget ordered all none_) (budget_le config state _)
          · simp only [readings, List.pairwise_cons] at ordered
            simp only [authenticate, List.forall_mem_cons] at none_
            have onward := ih ordered.2 none_.2
            simpa [authenticate, List.filter_cons, Entry.within, begun] using onward

@[simp] theorem recordFailure_rateWindowStart (now : Int) :
    (recordFailure config state now).rateWindowStart = state.rateWindowStart := by
  unfold recordFailure
  dsimp only
  split <;> rfl

@[simp] theorem recordFailure_rateAttemptCount (now : Int) :
    (recordFailure config state now).rateAttemptCount = state.rateAttemptCount := by
  unfold recordFailure
  dsimp only
  split <;> rfl

theorem opened_rate {now : Int} (same : (opened config state now).rateWindowStart = state.rateWindowStart) :
    (opened config state now).rateAttemptCount = state.rateAttemptCount := by
  have positive := config.rateWindowPositive
  have kept : (clearLockout state).rateWindowStart = state.rateWindowStart ∧
      (clearLockout state).rateAttemptCount = state.rateAttemptCount := by
    unfold clearLockout
    split <;> simp
  unfold opened restartWindow at same ⊢
  split at same
  · rename_i restarts
    unfold windowOver at restarts
    rw [kept.1, ← same] at restarts
    simp only [decide_eq_true_eq] at restarts
    omega
  · rename_i current
    rw [if_neg current, kept.2]

theorem attempts_step {now : Int} (decided : Decides config state now after decision)
    (same : after.rateWindowStart = state.rateWindowStart) :
    (config.rateLimit - after.rateAttemptCount) +
        (if decision.reason = .authenticated ∨ decision.reason = .invalid then 1 else 0) ≤
      config.rateLimit - state.rateAttemptCount := by
  cases decided with
  | refused unseen unseenToo => simp [unseen, unseenToo]
  | rateLimited _ _ => simp [opened_rate same]
  | failed _ room isCounted =>
      subst isCounted
      rw [recordFailure_rateWindowStart] at same
      have before := opened_rate same
      rw [recordFailure_rateAttemptCount]
      dsimp only
      rw [before, if_pos (Or.inr rfl)]
      omega
  | admitted _ _ room isCleared =>
      subst isCleared
      have before := opened_rate same
      dsimp only
      rw [before, if_pos (Or.inl rfl)]
      omega

theorem compared_pos {now : Int} (decided : Decides config state now after decision)
    (seen : decision.reason = .authenticated ∨ decision.reason = .invalid) : 0 < after.rateAttemptCount := by
  cases decided with
  | refused unseen unseenToo => simp [unseen, unseenToo] at seen
  | rateLimited _ _ => simp at seen
  | failed _ _ isCounted =>
      subst isCounted
      simp
  | admitted _ _ _ isCleared =>
      subst isCleared
      simp

theorem compared_eq (entry : Entry) :
    entry.compared = decide (entry.decision.reason = .authenticated ∨ entry.decision.reason = .invalid) := by
  cases reason : entry.decision.reason <;> simp [Entry.compared, reason]

theorem compared_le_room {events : List InboundEvent} {segment : List Entry}
    (opening : segment <+: authenticate sha256 config state events)
    (same : ∀ entry ∈ segment, entry.startsWindow = false) :
    (segment.filter Entry.compared).length ≤ config.rateLimit - state.rateAttemptCount := by
  induction events generalizing state segment with
  | nil =>
      rw [authenticate, List.prefix_nil] at opening
      simp [opening]
  | cons event rest ih =>
      cases event with
      | revoke at_ =>
          rw [authenticate] at opening
          have bound := ih opening same
          exact bound
      | present dial =>
          cases segment with
          | nil => simp
          | cons entry segment =>
              rw [authenticate, List.cons_prefix_cons] at opening
              obtain ⟨rfl, onward⟩ := opening
              rw [List.forall_mem_cons] at same
              have unchanged := same.1
              simp only [Entry.startsWindow, bne_eq_false_iff_eq] at unchanged
              have counted := attempts_step (decides sha256 config state dial) unchanged
              have later := ih onward same.2
              rw [List.filter_cons, compared_eq]
              simp only [decide_eq_true_eq]
              split
              · rename_i seen
                rw [if_pos seen] at counted
                rw [List.length_cons]
                omega
              · rename_i unseen
                rw [if_neg unseen] at counted
                omega

/-- What follows a part of a history is the history of the row at that point. -/
theorem authenticate_suffix {events : List InboundEvent} {before rest : List Entry}
    (history : authenticate sha256 config state events = before ++ rest) :
    ∃ stateThere eventsThere, rest = authenticate sha256 config stateThere eventsThere := by
  induction before generalizing state events with
  | nil => exact ⟨state, events, history.symm⟩
  | cons entry before ih =>
      induction events generalizing state with
      | nil => simp [authenticate] at history
      | cons event events inner =>
          cases event with
          | revoke at_ => exact inner history
          | present dial =>
              rw [authenticate, List.cons_append, List.cons.injEq] at history
              exact ih history.2

theorem compared_le_limit {events : List InboundEvent} {before segment later : List Entry} {first : Entry}
    (history : authenticate sha256 config state events = before ++ (first :: segment) ++ later)
    (same : ∀ entry ∈ segment, entry.startsWindow = false) :
    ((first :: segment).filter Entry.compared).length ≤ config.rateLimit := by
  rw [List.append_assoc] at history
  obtain ⟨stateThere, eventsThere, there⟩ := authenticate_suffix history
  clear history
  have positive := config.rateLimitPositive
  induction eventsThere generalizing stateThere with
  | nil => simp [authenticate] at there
  | cons event rest ih =>
      cases event with
      | revoke at_ => exact ih _ there
      | present dial =>
          rw [authenticate, List.cons_append, List.cons.injEq] at there
          obtain ⟨rfl, onward⟩ := there
          have others := compared_le_room ⟨later, onward⟩ same
          rw [List.filter_cons, compared_eq]
          simp only [decide_eq_true_eq]
          split
          · rename_i seen
            have counted := compared_pos (decides sha256 config stateThere dial) seen
            rw [List.length_cons]
            omega
          · omega

theorem standing_of_admitted {events : List InboundEvent} {entry : Entry}
    (held : entry ∈ authenticate sha256 config state events) (allowed : entry.admitted = true) :
    lockedAt entry.before entry.now = false ∧ revokedBy entry.before entry.now = false := by
  induction events generalizing state with
  | nil => simp [authenticate] at held
  | cons event rest ih =>
      cases event with
      | revoke at_ => exact ih held
      | present dial =>
          rw [authenticate, List.mem_cons] at held
          obtain rfl | later := held
          · have decided := decides sha256 config state dial
            simp only [Entry.admitted] at allowed
            generalize (decideInboundAuthentication sha256 config state dial).1 = after at decided
            generalize (decideInboundAuthentication sha256 config state dial).2 = decision at decided allowed
            cases decided with
            | refused _ _ => simp at allowed
            | rateLimited _ _ => simp at allowed
            | failed _ _ _ => simp at allowed
            | admitted unlocked standing _ _ => exact ⟨unlocked, standing⟩
          · exact ih later

/-- What the gate promises of every run of one credential: no interval as long as a lockout holds more wrong
secrets than the limit unless a right one came between, no rate window holds more comparisons than its limit,
and nobody is admitted during a lockout or after the revocation. -/
theorem guessing_bounded (sha256 : String → List UInt8) (config : InboundAuthenticationConfig)
    (state : InboundAuthenticationState) (events : List InboundEvent)
    (ordered : (readings events).Pairwise (· ≤ ·)) :
    (∀ start : Int,
      (∀ entry ∈ authenticate sha256 config state events,
        entry.within start config.lockoutDuration = true → entry.admitted = false) →
      ((authenticate sha256 config state events).filter fun entry =>
        entry.within start config.lockoutDuration && entry.refusedInvalid).length ≤ config.failureLimit) ∧
    (∀ (before segment later : List Entry) (first : Entry),
      authenticate sha256 config state events = before ++ (first :: segment) ++ later →
      (∀ entry ∈ segment, entry.startsWindow = false) →
      ((first :: segment).filter Entry.compared).length ≤ config.rateLimit) ∧
    ∀ entry ∈ authenticate sha256 config state events, entry.admitted = true →
      lockedAt entry.before entry.now = false ∧ revokedBy entry.before entry.now = false :=
  ⟨fun _ none_ => failures_le_limit ordered none_, fun _ _ _ _ history same => compared_le_limit history same,
    fun _ held allowed => standing_of_admitted held allowed⟩

/-- The SHA-256 digests of the two texts a dial below uses. -/
def knownDigest (text : String) : List UInt8 :=
  if text = "abc" then
    [0xba, 0x78, 0x16, 0xbf, 0x8f, 0x01, 0xcf, 0xea, 0x41, 0x41, 0x40, 0xde, 0x5d, 0xae, 0x22, 0x23,
      0xb0, 0x03, 0x61, 0xa3, 0x96, 0x17, 0x7a, 0x9c, 0xb4, 0x10, 0xff, 0x61, 0xf2, 0x00, 0x15, 0xad]
  else
    [0xe3, 0xb0, 0xc4, 0x42, 0x98, 0xfc, 0x1c, 0x14, 0x9a, 0xfb, 0xf4, 0xc8, 0x99, 0x6f, 0xb9, 0x24,
      0x27, 0xae, 0x41, 0xe4, 0x64, 0x9b, 0x93, 0x4c, 0xa4, 0x95, 0x99, 0x1b, 0x78, 0x52, 0xb8, 0x55]

/-- A minted credential before its first dial; its secret is the empty text. -/
def freshCredential : InboundAuthenticationState :=
  ⟨some ⟨knownDigest "", ""⟩, true, none, 0, none, none, 0⟩

/-- Six wrong dials in one second. -/
def guesses : List InboundEvent :=
  List.replicate 6 (InboundEvent.present ⟨10 ^ 9, "abc", fun _ => none⟩)

theorem guessing_bounded_six :
    (authenticate knownDigest defaultInboundAuthenticationConfig freshCredential guesses).map
        (fun entry => entry.decision.reason) = [.invalid, .invalid, .invalid, .invalid, .invalid, .locked] ∧
    ((authenticate knownDigest defaultInboundAuthenticationConfig freshCredential guesses).filter fun entry =>
      entry.within 0 defaultInboundAuthenticationConfig.lockoutDuration && entry.refusedInvalid).length ≤
        defaultInboundAuthenticationConfig.failureLimit :=
  ⟨by decide, (guessing_bounded knownDigest defaultInboundAuthenticationConfig freshCredential guesses
    (by decide)).1 0 (by decide)⟩

end CultureNodes.Inbound
