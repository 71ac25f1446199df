import CultureNodes.Actors.Sequence

/-!
Redelivery of an event whose delivery failed. The mark and the claim decide whether it is processed:
lowering the mark is left out where another delivery has moved it on, and the released claim does not
help the event past a mark that is no longer below its sequence.
-/

namespace CultureNodes.Actors

/-- The delivery holds the claim of its event id and has not ended. -/
def Phase.claiming : Phase → Bool
  | .advance _ | .process _ _ | .rollback _ _ | .release _ => true
  | _ => false

theorem Phase.claiming_of_raised {phase : Phase} {replaced : Nat}
    (raised : phase.raised = some replaced) : phase.claiming = true := by
  cases phase <;> first | rfl | contradiction

namespace Ingest

variable (s : Ingest)

/-- One delivery runs while the others stand still. -/
def runAlone (delivery : Nat) (answers : Answers) : Nat → Ingest → Ingest
  | 0, s => s
  | count + 1, s =>
      match s.act (.step delivery answers) with
      | none => s
      | some t => runAlone delivery answers count t

/-- Where a new delivery of the event ends, run alone: no delivery takes more than six steps. -/
def redelivered (event : CallbackEvent) (answers : Answers) : Option Phase :=
  (s.act (.start event)).bind fun begun =>
    (runAlone s.deliveries.length answers 6 begun).deliveries[s.deliveries.length]?.map Delivery.phase

/-- The state with a further delivery at a phase. -/
def begun (event : CallbackEvent) (phase : Phase) : Ingest :=
  { s with deliveries := s.deliveries ++ [⟨event, phase⟩] }

variable {s} {event : CallbackEvent} {answers : Answers} {phase next : Phase} {count : Nat}

theorem begun_put : (s.begun event phase).put s.deliveries.length event next = s.begun event next := by
  simp [begun, put]

theorem begun_act : (s.begun event phase).act (.step s.deliveries.length answers) =
    (s.begun event phase).advance s.deliveries.length event answers phase := by
  simp [begun, act]

theorem runAlone_step {t : Ingest}
    (moved : (s.begun event phase).advance s.deliveries.length event answers phase = some t) :
    runAlone s.deliveries.length answers (count + 1) (s.begun event phase) =
      runAlone s.deliveries.length answers count t := by
  rw [runAlone, begun_act, moved]

theorem runAlone_answered {disposition : Disposition} :
    (runAlone s.deliveries.length answers (count + 1)
      (s.begun event (.answered disposition))).deliveries[s.deliveries.length]?.map Delivery.phase =
      some (.answered disposition) := by
  rw [runAlone, begun_act]
  simp [advance, begun]

end Ingest

theorem processAdvanced_sound (kind : EventKind) {answers : Answers} (sound : answers.sound = true) :
    ∃ disposition, processAdvanced kind answers = some disposition ∧ disposition.processed = true := by
  simp only [Answers.sound, Bool.and_eq_true, decide_eq_true_eq] at sound
  obtain ⟨⟨⟨⟨⟨⟨⟨_, emitted⟩, touched⟩, custody⟩, resumes⟩, completes⟩, superseded⟩, closed⟩ := sound
  have isLate : late answers = some .late := by simp [late, superseded, closed]
  unfold processAdvanced
  split
  · unfold emitSignal
    split
    · exact ⟨.rejected, rfl, rfl⟩
    · exact ⟨.recorded, by simp [emitted, touched], rfl⟩
  · split
    · simp only [commitTerminal, custody, Bool.not_true, Bool.false_eq_true, if_false]
      split
      · exact ⟨.rejected, rfl, rfl⟩
      · cases resumed : answers.resume with
        | stale => exact ⟨.late, isLate, rfl⟩
        | failed => exact absurd resumed resumes
        | resumed =>
            cases completed : answers.complete with
            | refused => exact ⟨.late, isLate, rfl⟩
            | failed => exact absurd completed completes
            | committed => exact ⟨.committed, by simp, rfl⟩
    · exact ⟨.recorded, by simp, rfl⟩

/-- The event of a delivery has an id and a positive sequence. -/
def Formed (event : CallbackEvent) : Prop := event.id ≠ "" ∧ event.sequence ≠ 0

section

variable {s : Ingest} {event : CallbackEvent} {answers : Answers}

/-- A redelivery run alone is processed exactly where its id is unclaimed and the mark is below its
sequence. -/
theorem Ingest.redelivered_iff (formed : Formed event) (sound : answers.sound = true) :
    (∃ disposition, s.redelivered event answers = some (.answered disposition) ∧
      disposition.processed = true) ↔ event.id ∉ s.claims ∧ s.lastSequence < event.sequence := by
  have stored : answers.stored = true := by
    simp only [Answers.sound, Bool.and_eq_true] at sound
    exact sound.1.1.1.1.1.1.1
  have started : s.act (.start event) = some (s.begun event .lookup) := by
    simp [Ingest.act, Ingest.begun, formed.1, formed.2]
  have lookup : (s.begun event .lookup).advance s.deliveries.length event answers .lookup =
      some (s.begun event (.claim s.lastSequence)) := by
    rw [Ingest.advance, if_pos stored, Ingest.begun_put]
    rfl
  rw [Ingest.redelivered, started, Option.bind_some, Ingest.runAlone_step lookup]
  by_cases claimed : event.id ∈ s.claims
  · have refused : (s.begun event (.claim s.lastSequence)).advance s.deliveries.length event answers
        (.claim s.lastSequence) = some (s.begun event (.answered .duplicate)) := by
      rw [Ingest.advance, if_neg (by simp [stored]), if_pos (by simpa [Ingest.begun] using claimed),
        Ingest.begun_put]
    rw [Ingest.runAlone_step refused, Ingest.runAlone_answered]
    constructor
    · rintro ⟨disposition, isDuplicate, processed⟩
      rw [← Phase.answered.inj (Option.some.inj isDuplicate)] at processed
      contradiction
    · rintro ⟨unclaimed, _⟩
      exact absurd claimed unclaimed
  · -- The claim is taken; what follows depends on the mark.
    have taken : (s.begun event (.claim s.lastSequence)).advance s.deliveries.length event answers
        (.claim s.lastSequence) =
        some (({ s with claims := event.id :: s.claims } : Ingest).begun event
          (.advance s.lastSequence)) := by
      rw [Ingest.advance, if_neg (by simp [stored]), if_neg (by simpa [Ingest.begun] using claimed),
        Ingest.begun_put]
      rfl
    rw [Ingest.runAlone_step taken]
    by_cases below : s.lastSequence < event.sequence
    · obtain ⟨disposition, isProcessed, processed⟩ := processAdvanced_sound event.kind sound
      have raised : (({ s with claims := event.id :: s.claims } : Ingest).begun event
          (.advance s.lastSequence)).advance s.deliveries.length event answers
            (.advance s.lastSequence) =
          some (({ s with claims := event.id :: s.claims, lastSequence := event.sequence } :
            Ingest).begun event (.process s.lastSequence s.lastSequence)) := by
        simp [Ingest.advance, Ingest.begun, Ingest.put, stored, below]
      have ended : (({ s with claims := event.id :: s.claims, lastSequence := event.sequence } :
          Ingest).begun event (.process s.lastSequence s.lastSequence)).advance s.deliveries.length
            event answers (.process s.lastSequence s.lastSequence) =
          some (({ s with
            claims := event.id :: s.claims, lastSequence := event.sequence
            processed := event :: s.processed } : Ingest).begun event (.answered disposition)) := by
        simp [Ingest.advance, Ingest.begun, Ingest.put, isProcessed]
      rw [Ingest.runAlone_step (s := { s with claims := event.id :: s.claims }) raised,
        Ingest.runAlone_step
          (s := { s with claims := event.id :: s.claims, lastSequence := event.sequence }) ended]
      constructor
      · exact fun _ => ⟨claimed, below⟩
      · exact fun _ => ⟨disposition, Ingest.runAlone_answered
          (s := { s with
            claims := event.id :: s.claims, lastSequence := event.sequence
            processed := event :: s.processed }), processed⟩
    · have refused : (({ s with claims := event.id :: s.claims } : Ingest).begun event
          (.advance s.lastSequence)).advance s.deliveries.length event answers
            (.advance s.lastSequence) =
          some (({ s with claims := event.id :: s.claims } : Ingest).begun event
            (.answered .outOfOrder)) := by
        simp [Ingest.advance, Ingest.begun, Ingest.put, stored, below]
      rw [Ingest.runAlone_step (s := { s with claims := event.id :: s.claims }) refused]
      constructor
      · rintro ⟨disposition, isLate, processed⟩
        have isOut := isLate.symm.trans
          (Ingest.runAlone_answered (s := { s with claims := event.id :: s.claims }))
        rw [Phase.answered.inj (Option.some.inj isOut)] at processed
        contradiction
      · rintro ⟨_, above⟩
        exact absurd above below

end

/-- The steps that leave the event's redelivery open: its id always comes with its sequence, no other
event raises the mark to its sequence or above, it is not processed and its compensations do not fail;
and whoever lowers the mark restores the one it replaced. -/
def undisturbed (event : CallbackEvent) (s : Ingest) (action : Action) : Bool :=
  restores s action &&
    match action with
    | .start own => own.id ≠ event.id || own.sequence = event.sequence
    | .step delivery answers =>
        match s.deliveries[delivery]? with
        | none => true
        | some ⟨own, phase⟩ =>
            if own.id = event.id then
              match phase with
              | .process _ _ => (processAdvanced own.kind answers).isNone
              | .rollback _ _ | .release _ => answers.stored
              | _ => true
            else
              match phase with
              | .advance _ => own.sequence < event.sequence
              | _ => true

def Holder (event : CallbackEvent) (s : Ingest) (delivery : Nat) : Prop :=
  ∃ own phase, s.deliveries[delivery]? = some ⟨own, phase⟩ ∧ own.id = event.id ∧ phase.claiming = true

/-- The event's claim belongs to a delivery that has not ended. -/
structure Claimed (event : CallbackEvent) (s : Ingest) : Prop where
  held : event.id ∈ s.claims → ∃ delivery, Holder event s delivery
  holds : ∀ delivery, Holder event s delivery → event.id ∈ s.claims
  single : ∀ delivery other, Holder event s delivery → Holder event s other → delivery = other

/-- The mark is at the event's sequence only while a delivery of the event has it raised. -/
structure Recoverable (event : CallbackEvent) (s : Ingest) : Prop extends Claimed event s where
  same : ∀ (delivery : Nat) (own : CallbackEvent) (phase : Phase),
    s.deliveries[delivery]? = some ⟨own, phase⟩ → own.id = event.id → own.sequence = event.sequence
  low : ∀ delivery own replaced, Raised s delivery own replaced →
    replaced < own.sequence ∧ (own.id ≠ event.id → own.sequence < event.sequence)
  top : s.lastSequence ≤ event.sequence
  mark : s.lastSequence = event.sequence → ∃ delivery own replaced, Raised s delivery own replaced ∧
    own.id = event.id

section

variable {event own : CallbackEvent} {s t : Ingest} {delivery : Nat} {phase next : Phase}

theorem getElem?_set_cases {other : Nat} {found : Delivery}
    (set : t.deliveries = s.deliveries.set delivery ⟨own, next⟩)
    (isThere : t.deliveries[other]? = some found) :
    (other = delivery ∧ found = ⟨own, next⟩) ∨
      (other ≠ delivery ∧ s.deliveries[other]? = some found) := by
  rw [set, List.getElem?_set] at isThere
  split at isThere
  · rename_i same
    split at isThere
    · exact Or.inl ⟨same.symm, (Option.some.inj isThere).symm⟩
    · contradiction
  · rename_i different
    exact Or.inr ⟨Ne.symm different, isThere⟩

theorem getElem?_set_mine (set : t.deliveries = s.deliveries.set delivery ⟨own, next⟩)
    {found : Delivery} (there : s.deliveries[delivery]? = some found) :
    t.deliveries[delivery]? = some ⟨own, next⟩ := by
  obtain ⟨within, _⟩ := List.getElem?_eq_some_iff.mp there
  rw [set, List.getElem?_set, if_pos rfl, if_pos within]

theorem getElem?_set_other (set : t.deliveries = s.deliveries.set delivery ⟨own, next⟩) {other : Nat}
    (different : other ≠ delivery) : t.deliveries[other]? = s.deliveries[other]? := by
  rw [set, List.getElem?_set, if_neg (Ne.symm different)]

/-- A step that neither takes nor gives back the event's claim. -/
theorem Claimed.keep (inv : Claimed event s)
    (there : s.deliveries[delivery]? = some ⟨own, phase⟩)
    (set : t.deliveries = s.deliveries.set delivery ⟨own, next⟩)
    (claims : event.id ∈ t.claims ↔ event.id ∈ s.claims)
    (stays : own.id = event.id → next.claiming = phase.claiming) : Claimed event t := by
  have back : ∀ other, Holder event t other ↔ Holder event s other := by
    intro other
    constructor
    · rintro ⟨holder, at_, isThere, isEvent, isClaiming⟩
      rcases getElem?_set_cases set isThere with ⟨rfl, isMine⟩ | ⟨_, earlier⟩
      · obtain ⟨rfl, rfl⟩ := Delivery.mk.inj isMine
        exact ⟨holder, phase, there, isEvent, (stays isEvent).symm.trans isClaiming⟩
      · exact ⟨holder, at_, earlier, isEvent, isClaiming⟩
    · rintro ⟨holder, at_, isThere, isEvent, isClaiming⟩
      by_cases same : other = delivery
      · subst same
        obtain ⟨rfl, rfl⟩ := Delivery.mk.inj (Option.some.inj (there.symm.trans isThere))
        exact ⟨own, next, getElem?_set_mine set there, isEvent, (stays isEvent).trans isClaiming⟩
      · exact ⟨holder, at_, (getElem?_set_other set same).trans isThere, isEvent, isClaiming⟩
  refine ⟨?_, ?_, ?_⟩
  · intro member
    obtain ⟨holder, held⟩ := inv.held (claims.mp member)
    exact ⟨holder, (back holder).mpr held⟩
  · exact fun holder held => claims.mpr (inv.holds holder ((back holder).mp held))
  · exact fun first second held alsoHeld =>
      inv.single first second ((back first).mp held) ((back second).mp alsoHeld)

theorem Claimed.take (inv : Claimed event s)
    (there : s.deliveries[delivery]? = some ⟨own, phase⟩)
    (set : t.deliveries = s.deliveries.set delivery ⟨own, next⟩) (isEvent : own.id = event.id)
    (free : event.id ∉ s.claims) (taken : event.id ∈ t.claims) (isClaiming : next.claiming = true) :
    Claimed event t := by
  have only : ∀ other, Holder event t other → other = delivery := by
    rintro other ⟨holder, at_, isThere, alsoEvent, alsoClaiming⟩
    rcases getElem?_set_cases set isThere with ⟨same, _⟩ | ⟨_, earlier⟩
    · exact same
    · exact absurd (inv.holds other ⟨holder, at_, earlier, alsoEvent, alsoClaiming⟩) free
  have mine : Holder event t delivery :=
    ⟨own, next, getElem?_set_mine set there, isEvent, isClaiming⟩
  exact ⟨fun _ => ⟨delivery, mine⟩, fun _ _ => taken,
    fun first second held alsoHeld => (only first held).trans (only second alsoHeld).symm⟩

theorem Claimed.leave (inv : Claimed event s)
    (there : s.deliveries[delivery]? = some ⟨own, phase⟩)
    (set : t.deliveries = s.deliveries.set delivery ⟨own, next⟩) (isEvent : own.id = event.id)
    (isClaiming : phase.claiming = true) (free : event.id ∉ t.claims)
    (ended : next.claiming = false) : Claimed event t := by
  have none : ∀ other, ¬ Holder event t other := by
    rintro other ⟨holder, at_, isThere, alsoEvent, alsoClaiming⟩
    rcases getElem?_set_cases set isThere with ⟨rfl, isMine⟩ | ⟨different, earlier⟩
    · obtain ⟨rfl, rfl⟩ := Delivery.mk.inj isMine
      rw [ended] at alsoClaiming
      contradiction
    · exact different (inv.single other delivery ⟨holder, at_, earlier, alsoEvent, alsoClaiming⟩
        ⟨own, phase, there, isEvent, isClaiming⟩)
  exact ⟨fun member => absurd member free, fun other held => absurd held (none other),
    fun first _ held => absurd held (none first)⟩

/-- What is left to show about a step besides the claim. -/
theorem Recoverable.put (inv : Recoverable event s)
    (there : s.deliveries[delivery]? = some ⟨own, phase⟩)
    (set : t.deliveries = s.deliveries.set delivery ⟨own, next⟩) (claimed : Claimed event t)
    (low : ∀ replaced, next.raised = some replaced →
      replaced < own.sequence ∧ (own.id ≠ event.id → own.sequence < event.sequence))
    (top : t.lastSequence ≤ event.sequence)
    (mark : t.lastSequence = event.sequence → (own.id = event.id ∧ next.raised.isSome = true) ∨
      (s.lastSequence = event.sequence ∧
        (own.id = event.id → phase.raised.isSome = true → next.raised.isSome = true))) :
    Recoverable event t := by
  refine ⟨claimed, ?_, ?_, top, ?_⟩
  · intro other found at_ isThere isEvent
    rcases getElem?_set_cases set isThere with ⟨rfl, isMine⟩ | ⟨_, earlier⟩
    · obtain ⟨rfl, rfl⟩ := Delivery.mk.inj isMine
      exact inv.same other found phase there isEvent
    · exact inv.same other found at_ earlier isEvent
  · rintro other found replaced ⟨at_, isThere, isRaised⟩
    rcases getElem?_set_cases set isThere with ⟨_, isMine⟩ | ⟨_, earlier⟩
    · obtain ⟨rfl, rfl⟩ := Delivery.mk.inj isMine
      exact low replaced isRaised
    · exact inv.low other found replaced ⟨at_, earlier, isRaised⟩
  · intro isHigh
    have mine : own.id = event.id → next.raised.isSome = true →
        ∃ delivery own replaced, Raised t delivery own replaced ∧ own.id = event.id := by
      intro isEvent isUp
      obtain ⟨replaced, isRaised⟩ := Option.isSome_iff_exists.mp isUp
      exact ⟨delivery, own, replaced, ⟨next, getElem?_set_mine set there, isRaised⟩, isEvent⟩
    rcases mark isHigh with ⟨isEvent, isUp⟩ | ⟨wasHigh, stays⟩
    · exact mine isEvent isUp
    · obtain ⟨other, found, replaced, ⟨at_, isThere, isRaised⟩, isEvent⟩ := inv.mark wasHigh
      by_cases same : other = delivery
      · subst same
        obtain ⟨rfl, rfl⟩ := Delivery.mk.inj (Option.some.inj (there.symm.trans isThere))
        exact mine isEvent (stays isEvent (by rw [isRaised]; rfl))
      · exact ⟨other, found, replaced,
          ⟨at_, (getElem?_set_other set same).trans isThere, isRaised⟩, isEvent⟩

theorem Recoverable.other (inv : Recoverable event s)
    (there : s.deliveries[delivery]? = some ⟨own, phase⟩)
    (set : t.deliveries = s.deliveries.set delivery ⟨own, next⟩) (different : own.id ≠ event.id)
    (claims : event.id ∈ t.claims ↔ event.id ∈ s.claims)
    (low : ∀ replaced, next.raised = some replaced →
      replaced < own.sequence ∧ own.sequence < event.sequence)
    (mark : t.lastSequence = s.lastSequence ∨ t.lastSequence < event.sequence) :
    Recoverable event t := by
  have claimed := inv.toClaimed.keep there set claims fun same => absurd same different
  refine inv.put there set claimed ?_ ?_ ?_
  · exact fun replaced isRaised => ⟨(low replaced isRaised).1, fun _ => (low replaced isRaised).2⟩
  · have top := inv.top
    omega
  · intro isHigh
    exact Or.inr ⟨by omega, fun same => absurd same different⟩

theorem Recoverable.advance_other {answers : Answers} (inv : Recoverable event s)
    (there : s.deliveries[delivery]? = some ⟨own, phase⟩)
    (allowed : undisturbed event s (.step delivery answers) = true) (different : own.id ≠ event.id)
    (moved : s.advance delivery own answers phase = some t) : Recoverable event t := by
  have plain : ∀ {next : Phase}, next.raised = none → s.put delivery own next = t →
      Recoverable event t := by
    rintro next isDown rfl
    refine inv.other there rfl different Iff.rfl (fun replaced isRaised => ?_) (Or.inl rfl)
    rw [isDown] at isRaised
    contradiction
  simp only [undisturbed, Bool.and_eq_true, there, if_neg different] at allowed
  obtain ⟨restored, allowed⟩ := allowed
  cases phase with
  | lookup =>
      simp only [Ingest.advance] at moved
      split at moved <;> exact plain rfl (Option.some.inj moved)
  | claim seen =>
      simp only [Ingest.advance] at moved
      split at moved
      · exact plain rfl (Option.some.inj moved)
      · split at moved
        · exact plain rfl (Option.some.inj moved)
        · rw [← Option.some.inj moved]
          refine inv.other there rfl different ?_ (fun _ isRaised => ?_) (Or.inl rfl)
          · simp [Ne.symm different]
          · contradiction
  | advance seen =>
      simp only [Ingest.advance] at moved
      split at moved
      · exact plain rfl (Option.some.inj moved)
      · split at moved
        · rename_i above
          have below : own.sequence < event.sequence := of_decide_eq_true allowed
          rw [← Option.some.inj moved]
          refine inv.other there rfl different Iff.rfl (fun replaced isRaised => ?_) (Or.inr below)
          rw [← Option.some.inj isRaised]
          exact ⟨above, below⟩
        · exact plain rfl (Option.some.inj moved)
  | process seen replaced =>
      have bounds := inv.low delivery own replaced ⟨_, there, rfl⟩
      simp only [Ingest.advance] at moved
      split at moved
      · rw [← Option.some.inj moved]
        refine inv.other there rfl different Iff.rfl (fun _ isRaised => ?_) (Or.inl rfl)
        contradiction
      · rw [← Option.some.inj moved]
        refine inv.other there rfl different Iff.rfl (fun mark isRaised => ?_) (Or.inl rfl)
        rw [← Option.some.inj isRaised]
        exact ⟨bounds.1, bounds.2 different⟩
  | rollback seen replaced =>
      have bounds := inv.low delivery own replaced ⟨_, there, rfl⟩
      simp only [Ingest.advance] at moved
      split at moved
      · exact plain rfl (Option.some.inj moved)
      · rename_i isStored
        have stored : answers.stored = true := by simpa using isStored
        rw [← Option.some.inj moved]
        refine inv.other there rfl different Iff.rfl (fun _ isRaised => by contradiction) ?_
        by_cases mine : s.lastSequence = own.sequence
        · have isSeen : seen = replaced := by
            simpa [restores, there, stored, mine] using restored
          have least := bounds.2 different
          have below : seen < event.sequence := by omega
          exact Or.inr (Nat.lt_of_le_of_lt (Nat.le_of_eq (if_pos mine)) below)
        · exact Or.inl (if_neg mine)
  | release compensated =>
      simp only [Ingest.advance] at moved
      split at moved
      · rw [← Option.some.inj moved]
        refine inv.other there rfl different ?_ (fun _ isRaised => ?_) (Or.inl rfl)
        · simp [Ne.symm different]
        · contradiction
      · exact plain rfl (Option.some.inj moved)
  | answered disposition => contradiction
  | failed compensated => contradiction

theorem Recoverable.advance_own {answers : Answers} (inv : Recoverable event s)
    (there : s.deliveries[delivery]? = some ⟨own, phase⟩)
    (allowed : undisturbed event s (.step delivery answers) = true) (isEvent : own.id = event.id)
    (moved : s.advance delivery own answers phase = some t) : Recoverable event t := by
  have sameSequence := inv.same delivery own phase there isEvent
  -- The claim and the mark stay what they were.
  have plain : ∀ {next : Phase}, s.put delivery own next = t → next.raised = none →
      phase.raised = none → next.claiming = phase.claiming → Recoverable event t := by
    rintro next rfl isDown wasDown sameClaim
    refine inv.put there rfl (inv.toClaimed.keep there rfl Iff.rfl fun _ => sameClaim)
      (fun replaced isRaised => ?_) inv.top fun isHigh => Or.inr ⟨isHigh, fun _ isUp => ?_⟩
    · rw [isDown] at isRaised
      contradiction
    · rw [wasDown] at isUp
      contradiction
  simp only [undisturbed, Bool.and_eq_true, there, if_pos isEvent] at allowed
  obtain ⟨restored, allowed⟩ := allowed
  cases phase with
  | lookup =>
      simp only [Ingest.advance] at moved
      split at moved <;> exact plain (Option.some.inj moved) rfl rfl rfl
  | claim seen =>
      simp only [Ingest.advance] at moved
      split at moved
      · exact plain (Option.some.inj moved) rfl rfl rfl
      · split at moved
        · exact plain (Option.some.inj moved) rfl rfl rfl
        · rename_i unclaimed
          have free : event.id ∉ s.claims := by simpa [isEvent] using unclaimed
          rw [← Option.some.inj moved]
          refine inv.put there rfl (inv.toClaimed.take there rfl isEvent free ?_ rfl)
            (fun _ isRaised => by contradiction) inv.top
            fun isHigh => Or.inr ⟨isHigh, fun _ isUp => by contradiction⟩
          simp [isEvent]
  | advance seen =>
      simp only [Ingest.advance] at moved
      split at moved
      · exact plain (Option.some.inj moved) rfl rfl rfl
      · split at moved
        · rename_i above
          rw [← Option.some.inj moved]
          refine inv.put there rfl (inv.toClaimed.keep there rfl Iff.rfl fun _ => rfl) ?_
            (Nat.le_of_eq sameSequence) fun _ => Or.inl ⟨isEvent, rfl⟩
          intro replaced isRaised
          rw [← Option.some.inj isRaised]
          exact ⟨above, fun different => absurd isEvent different⟩
        · -- The mark would be raised by this very delivery, the only one that holds the claim.
          rename_i notAbove
          have isHigh : s.lastSequence = event.sequence := by
            have top := inv.top
            omega
          obtain ⟨other, found, replaced, ⟨at_, isThere, isRaised⟩, alsoEvent⟩ := inv.mark isHigh
          have same := inv.single other delivery
            ⟨found, at_, isThere, alsoEvent, Phase.claiming_of_raised isRaised⟩
            ⟨own, _, there, isEvent, rfl⟩
          subst same
          obtain ⟨_, rfl⟩ := Delivery.mk.inj (Option.some.inj (there.symm.trans isThere))
          contradiction
  | process seen replaced =>
      have bounds := inv.low delivery own replaced ⟨_, there, rfl⟩
      have fails : processAdvanced own.kind answers = none := Option.isNone_iff_eq_none.mp allowed
      simp only [Ingest.advance, fails] at moved
      rw [← Option.some.inj moved]
      refine inv.put there rfl (inv.toClaimed.keep there rfl Iff.rfl fun _ => rfl) ?_ inv.top
        fun isHigh => Or.inr ⟨isHigh, fun _ _ => rfl⟩
      intro mark isRaised
      rw [← Option.some.inj isRaised]
      exact bounds
  | rollback seen replaced =>
      have bounds := inv.low delivery own replaced ⟨_, there, rfl⟩
      have stored : answers.stored = true := allowed
      simp only [Ingest.advance, stored, Bool.not_true, Bool.false_eq_true, if_false] at moved
      rw [← Option.some.inj moved]
      have below : (if s.lastSequence = own.sequence then seen else s.lastSequence) <
          event.sequence := by
        by_cases mine : s.lastSequence = own.sequence
        · have isSeen : seen = replaced := by
            simpa [restores, there, stored, mine] using restored
          rw [if_pos mine]
          omega
        · have top := inv.top
          rw [if_neg mine]
          omega
      exact inv.put there rfl (inv.toClaimed.keep there rfl Iff.rfl fun _ => rfl)
        (fun _ isRaised => by contradiction) (Nat.le_of_lt below)
        fun isHigh => absurd isHigh (Nat.ne_of_lt below)
  | release compensated =>
      have stored : answers.stored = true := allowed
      simp only [Ingest.advance, stored, if_true] at moved
      rw [← Option.some.inj moved]
      refine inv.put there rfl (inv.toClaimed.leave there rfl isEvent rfl ?_ rfl)
        (fun _ isRaised => by contradiction) inv.top
        fun isHigh => Or.inr ⟨isHigh, fun _ isUp => by contradiction⟩
      simp [isEvent]
  | answered disposition => contradiction
  | failed compensated => contradiction

theorem Recoverable.act {action : Action} (inv : Recoverable event s)
    (allowed : undisturbed event s action = true) (acted : s.act action = some t) :
    Recoverable event t := by
  cases action with
  | start started =>
      simp only [Ingest.act] at acted
      split at acted
      · contradiction
      · rw [← Option.some.inj acted]
        simp only [undisturbed, Bool.and_eq_true] at allowed
        have cases : ∀ {other : Nat} {found : Delivery},
            (s.deliveries ++ [{ event := started }])[other]? = some found →
            s.deliveries[other]? = some found ∨ found = { event := started } := by
          intro other found isThere
          rw [List.getElem?_append] at isThere
          split at isThere
          · exact Or.inl isThere
          · rw [List.getElem?_singleton] at isThere
            split at isThere
            · exact Or.inr (Option.some.inj isThere).symm
            · contradiction
        have kept : ∀ {other : Nat} {found : Delivery}, s.deliveries[other]? = some found →
            (s.deliveries ++ [{ event := started }])[other]? = some found := by
          intro other found isThere
          obtain ⟨within, _⟩ := List.getElem?_eq_some_iff.mp isThere
          rw [List.getElem?_append_left within]
          exact isThere
        have holders : ∀ other, Holder event
            { s with deliveries := s.deliveries ++ [{ event := started }] } other →
            Holder event s other := by
          rintro other ⟨found, at_, isThere, isEvent, isClaiming⟩
          rcases cases isThere with earlier | isNew
          · exact ⟨found, at_, earlier, isEvent, isClaiming⟩
          · obtain ⟨_, rfl⟩ := Delivery.mk.inj isNew
            contradiction
        refine ⟨⟨?_, ?_, ?_⟩, ?_, ?_, inv.top, ?_⟩
        · intro member
          obtain ⟨other, found, at_, isThere, rest⟩ := inv.held member
          exact ⟨other, found, at_, kept isThere, rest⟩
        · exact fun other held => inv.holds other (holders other held)
        · exact fun first second held alsoHeld =>
            inv.single first second (holders first held) (holders second alsoHeld)
        · intro other found at_ isThere isEvent
          rcases cases isThere with earlier | isNew
          · exact inv.same other found at_ earlier isEvent
          · obtain ⟨rfl, _⟩ := Delivery.mk.inj isNew
            simpa [isEvent] using allowed.2
        · rintro other found replaced ⟨at_, isThere, isRaised⟩
          rcases cases isThere with earlier | isNew
          · exact inv.low other found replaced ⟨at_, earlier, isRaised⟩
          · obtain ⟨_, rfl⟩ := Delivery.mk.inj isNew
            contradiction
        · intro isHigh
          obtain ⟨other, found, replaced, ⟨at_, isThere, isRaised⟩, isEvent⟩ := inv.mark isHigh
          exact ⟨other, found, replaced, ⟨at_, kept isThere, isRaised⟩, isEvent⟩
  | step delivery answers =>
      simp only [Ingest.act] at acted
      split at acted
      · contradiction
      · rename_i own phase there
        by_cases isEvent : own.id = event.id
        · exact inv.advance_own there allowed isEvent acted
        · exact inv.advance_other there allowed isEvent acted

theorem Recoverable.initial (formed : Formed event) : Recoverable event {} := by
  have positive : 0 < event.sequence := Nat.pos_of_ne_zero formed.2
  refine ⟨⟨?_, ?_, ?_⟩, ?_, ?_, Nat.zero_le _, fun isHigh => ?_⟩
  · simp
  · simp [Holder]
  · simp [Holder]
  · simp
  · simp [Raised]
  · exact absurd isHigh (Nat.ne_of_lt positive)

/-- Only well-formed events are delivered. -/
theorem Ingest.act_formed {action : Action} (acted : s.act action = some t)
    (formed : ∀ found ∈ s.deliveries, Formed found.event) :
    ∀ found ∈ t.deliveries, Formed found.event := by
  cases action with
  | start started =>
      simp only [Ingest.act] at acted
      split at acted
      · contradiction
      · rename_i isFormed
        rw [← Option.some.inj acted]
        intro found member
        rcases List.mem_append.mp member with earlier | isNew
        · exact formed found earlier
        · rw [List.mem_singleton.mp isNew]
          exact not_or.mp isFormed
  | step delivery answers =>
      simp only [Ingest.act] at acted
      split at acted
      · contradiction
      · rename_i own phase there
        have mine := formed _ (List.mem_of_getElem? there)
        have set : ∃ next, t.deliveries = s.deliveries.set delivery ⟨own, next⟩ := by
          cases phase <;> simp only [Ingest.advance] at acted <;>
            (repeat' split at acted) <;>
            first
            | contradiction
            | exact ⟨_, by rw [← Option.some.inj acted]; rfl⟩
        obtain ⟨next, set⟩ := set
        intro found member
        rw [set] at member
        rcases List.mem_or_eq_of_mem_set member with earlier | isMine
        · exact formed found earlier
        · rw [isMine]
          exact mine

theorem formed_of_delivered {allowed : Ingest → Action → Prop}
    (run : Steps Ingest.step allowed {} s)
    (there : s.deliveries[delivery]? = some ⟨event, phase⟩) : Formed event := by
  have kept : ∀ t action u, (∀ found ∈ t.deliveries, Formed found.event) → allowed t action →
      Ingest.step t action u → ∀ found ∈ u.deliveries, Formed found.event :=
    fun _ _ _ formed _ taken => Ingest.act_formed taken formed
  exact run.invariant (fun s => ∀ found ∈ s.deliveries, Formed found.event) (by simp) kept _
    (List.mem_of_getElem? there)

/-- After a delivery that failed and was compensated, a redelivery run alone is processed exactly where
the event's id is unclaimed and the mark is below its sequence; and that is so where the deliveries
have left the event undisturbed and none holds its claim. -/
theorem redelivery_processed (event : CallbackEvent) {answers : Answers}
    (sound : answers.sound = true) :
    (∀ s (delivery : Nat), Steps Ingest.step anyAction {} s →
      s.deliveries[delivery]? = some ⟨event, .failed true⟩ →
      ((∃ disposition, s.redelivered event answers = some (.answered disposition) ∧
        disposition.processed = true) ↔ event.id ∉ s.claims ∧ s.lastSequence < event.sequence)) ∧
    ∀ s (delivery : Nat), Steps Ingest.step (fun s action => undisturbed event s action = true) {} s →
      s.deliveries[delivery]? = some ⟨event, .failed true⟩ → (∀ other, ¬ Holder event s other) →
      ∃ disposition, s.redelivered event answers = some (.answered disposition) ∧
        disposition.processed = true := by
  constructor
  · intro s delivery run there
    exact Ingest.redelivered_iff (formed_of_delivered run there) sound
  · intro s delivery run there free
    have formed := formed_of_delivered run there
    have kept : ∀ t action u, Recoverable event t → undisturbed event t action = true →
        Ingest.step t action u → Recoverable event u := fun _ _ _ inv allowed taken =>
      inv.act allowed taken
    have inv := run.invariant (Recoverable event) (.initial formed) kept
    refine (Ingest.redelivered_iff formed sound).mpr ⟨fun member => ?_, ?_⟩
    · obtain ⟨holder, held⟩ := inv.held member
      exact free holder held
    · refine Nat.lt_of_le_of_ne inv.top fun isHigh => ?_
      obtain ⟨holder, own, replaced, ⟨at_, isThere, isRaised⟩, isEvent⟩ := inv.mark isHigh
      exact free holder ⟨own, at_, isThere, isEvent, Phase.claiming_of_raised isRaised⟩

end

def earlier : CallbackEvent := ⟨"earlier", 5, .progress⟩

def later : CallbackEvent := ⟨"later", 6, .progress⟩

/-- The mark is still the failed delivery's own when it is lowered. -/
theorem redelivery_processed_earlier : ∃ s : Ingest,
    s.deliveries[0]? = some ⟨earlier, .failed true⟩ ∧
    ∃ disposition, s.redelivered earlier {} = some (.answered disposition) ∧
      disposition.processed = true := by
  have ran : (Steps.ofList Ingest.act (undisturbed earlier) {}
      ([Action.start earlier] ++ answered 0 3 ++ compensated 0)).map Ingest.deliveries =
      some [⟨earlier, .failed true⟩] := by decide
  obtain ⟨s, reached, deliveries⟩ := Option.map_eq_some_iff.mp ran
  have there : s.deliveries[0]? = some ⟨earlier, .failed true⟩ := by rw [deliveries]; rfl
  refine ⟨s, there, (redelivery_processed earlier (by decide)).2 s 0
    (Steps.of_ofList (fun _ _ checked => checked) reached) there ?_⟩
  rintro other ⟨own, phase, isThere, _, isClaiming⟩
  rw [deliveries, List.getElem?_singleton] at isThere
  split at isThere
  · obtain ⟨_, rfl⟩ := Delivery.mk.inj (Option.some.inj isThere)
    contradiction
  · contradiction

/-- A later event is processed between the failed delivery's advance and its rollback, which then does
nothing; its redelivery is refused. -/
theorem later_mark_blocks_redelivery : ∃ s : Ingest, Steps Ingest.step anyAction {} s ∧
    s.deliveries[0]? = some ⟨earlier, .failed true⟩ ∧
    s.redelivered earlier {} = some (.answered .outOfOrder) := by
  have ran : (Steps.ofList Ingest.act (fun _ _ => true) {}
      ([Action.start earlier, .start later] ++ answered 0 3 ++ answered 1 4 ++ compensated 0)).map
        (fun s => (s.deliveries[0]?, s.redelivered earlier {})) =
      some (some ⟨earlier, .failed true⟩, some (.answered .outOfOrder)) := by decide
  obtain ⟨s, reached, rows⟩ := Option.map_eq_some_iff.mp ran
  obtain ⟨there, refused⟩ := Prod.mk.inj rows
  exact ⟨s, Steps.of_ofList (fun _ _ _ => trivial) reached, there, refused⟩

end CultureNodes.Actors
