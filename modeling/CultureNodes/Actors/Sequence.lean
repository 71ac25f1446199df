import Mathlib.Data.List.Basic
import CultureNodes.Actors.Callback

/-!
The sequence mark of an attempt against the events that were processed. The mark a failed delivery
restores is the one it read with the invocation, which another delivery may have moved on since.
-/

namespace CultureNodes.Actors

/-- The delivery has raised the mark from `replaced` and has neither been processed nor lowered it. -/
def Raised (s : Ingest) (delivery : Nat) (event : CallbackEvent) (replaced : Nat) : Prop :=
  ∃ phase, s.deliveries[delivery]? = some ⟨event, phase⟩ ∧ phase.raised = some replaced

/-- What a step does to the mark, to the processed events and to the deliveries that raised the mark. -/
inductive Change (s t : Ingest) : Action → Prop where
  | quiet {action : Action} (mark : t.lastSequence = s.lastSequence) (same : t.processed = s.processed)
      (raised : ∀ other event replaced, Raised t other event replaced → Raised s other event replaced) :
      Change s t action
  | raise {delivery : Nat} {answers : Answers} {event : CallbackEvent} {seen : Nat}
      (found : s.deliveries[delivery]? = some ⟨event, .advance seen⟩)
      (above : s.lastSequence < event.sequence) (mark : t.lastSequence = event.sequence)
      (same : t.processed = s.processed)
      (raised : ∀ other own replaced, Raised t other own replaced →
        (other = delivery ∧ own = event ∧ replaced = s.lastSequence) ∨
        (other ≠ delivery ∧ Raised s other own replaced)) :
      Change s t (.step delivery answers)
  | finish {delivery : Nat} {answers : Answers} {event : CallbackEvent} {replaced : Nat}
      (found : Raised s delivery event replaced) (mark : t.lastSequence = s.lastSequence)
      (more : t.processed = event :: s.processed)
      (raised : ∀ other own replaced, Raised t other own replaced →
        other ≠ delivery ∧ Raised s other own replaced) :
      Change s t (.step delivery answers)
  | lower {delivery : Nat} {answers : Answers} {event : CallbackEvent} {seen replaced : Nat}
      (found : s.deliveries[delivery]? = some ⟨event, .rollback seen replaced⟩)
      (stored : answers.stored = true) (mine : s.lastSequence = event.sequence)
      (mark : t.lastSequence = seen) (same : t.processed = s.processed)
      (raised : ∀ other own replaced, Raised t other own replaced →
        other ≠ delivery ∧ Raised s other own replaced) :
      Change s t (.step delivery answers)

section

variable {s t : Ingest} {delivery : Nat} {event : CallbackEvent} {phase next : Phase}

theorem Raised.of_set {other : Nat} {own : CallbackEvent} {replaced : Nat}
    (set : t.deliveries = s.deliveries.set delivery ⟨event, next⟩) (isDown : next.raised = none)
    (raised : Raised t other own replaced) : other ≠ delivery ∧ Raised s other own replaced := by
  obtain ⟨at_, found, isRaised⟩ := raised
  rw [set, List.getElem?_set] at found
  split at found
  · split at found
    · obtain ⟨_, rfl⟩ := Delivery.mk.inj (Option.some.inj found)
      rw [isDown] at isRaised
      contradiction
    · contradiction
  · rename_i different
    exact ⟨Ne.symm different, at_, found, isRaised⟩

theorem Raised.of_set_same {other : Nat} {own : CallbackEvent} {replaced mark : Nat}
    (set : t.deliveries = s.deliveries.set delivery ⟨event, next⟩) (isUp : next.raised = some mark)
    (raised : Raised t other own replaced) :
    (other = delivery ∧ own = event ∧ replaced = mark) ∨
      (other ≠ delivery ∧ Raised s other own replaced) := by
  obtain ⟨at_, found, isRaised⟩ := raised
  rw [set, List.getElem?_set] at found
  split at found
  · rename_i same
    split at found
    · obtain ⟨rfl, rfl⟩ := Delivery.mk.inj (Option.some.inj found)
      exact Or.inl ⟨same.symm, rfl, Option.some.inj (isRaised.symm.trans isUp)⟩
    · contradiction
  · rename_i different
    exact Or.inr ⟨Ne.symm different, at_, found, isRaised⟩

theorem Ingest.advance_change {answers : Answers}
    (found : s.deliveries[delivery]? = some ⟨event, phase⟩)
    (moved : s.advance delivery event answers phase = some t) :
    Change s t (.step delivery answers) := by
  have down : ∀ {next : Phase}, next.raised = none → s.put delivery event next = t →
      Change s t (.step delivery answers) := by
    rintro next isDown rfl
    exact .quiet rfl rfl fun other own replaced raised => (raised.of_set rfl isDown).2
  cases phase with
  | lookup =>
      simp only [Ingest.advance] at moved
      split at moved <;> exact down rfl (Option.some.inj moved)
  | claim seen =>
      simp only [Ingest.advance] at moved
      split at moved
      · exact down rfl (Option.some.inj moved)
      · split at moved
        · exact down rfl (Option.some.inj moved)
        · rw [← Option.some.inj moved]
          exact .quiet rfl rfl fun other own replaced raised =>
            (raised.of_set (s := s) rfl rfl).2
  | advance seen =>
      simp only [Ingest.advance] at moved
      split at moved
      · exact down rfl (Option.some.inj moved)
      · split at moved
        · rename_i above
          rw [← Option.some.inj moved]
          exact .raise found above rfl rfl fun other own replaced raised =>
            raised.of_set_same (s := s) rfl rfl
        · exact down rfl (Option.some.inj moved)
  | process seen replaced =>
      simp only [Ingest.advance] at moved
      split at moved
      · rename_i disposition _
        rw [← Option.some.inj moved]
        exact .finish ⟨_, found, rfl⟩ rfl rfl fun other own replaced raised =>
          raised.of_set (s := s) rfl rfl
      · rw [← Option.some.inj moved]
        refine .quiet rfl rfl fun other own mark raised => ?_
        rcases raised.of_set_same (s := s) rfl rfl with
          ⟨rfl, rfl, rfl⟩ | ⟨_, earlier⟩
        · exact ⟨_, found, rfl⟩
        · exact earlier
  | rollback seen replaced =>
      simp only [Ingest.advance] at moved
      split at moved
      · exact down rfl (Option.some.inj moved)
      · rename_i isStored
        have stored : answers.stored = true := by simpa using isStored
        rw [← Option.some.inj moved]
        have others := fun other own mark (raised : Raised _ other own mark) =>
          raised.of_set (t := { s.put delivery event (.release true) with
            lastSequence := if s.lastSequence = event.sequence then seen else s.lastSequence })
            (s := s) rfl rfl
        by_cases mine : s.lastSequence = event.sequence
        · exact .lower found stored mine (if_pos mine) rfl others
        · exact .quiet (if_neg mine) rfl fun other own mark raised => (others other own mark raised).2
  | release compensated =>
      simp only [Ingest.advance] at moved
      split at moved
      · rw [← Option.some.inj moved]
        exact .quiet rfl rfl fun other own replaced raised =>
          (raised.of_set (s := s) rfl rfl).2
      · exact down rfl (Option.some.inj moved)
  | answered disposition => contradiction
  | failed compensated => contradiction

theorem Ingest.act_change {action : Action} (acted : s.act action = some t) : Change s t action := by
  cases action with
  | start event =>
      simp only [Ingest.act] at acted
      split at acted
      · contradiction
      · rw [← Option.some.inj acted]
        refine .quiet rfl rfl fun other own replaced raised => ?_
        obtain ⟨phase, found, isRaised⟩ := raised
        rw [List.getElem?_append] at found
        split at found
        · exact ⟨phase, found, isRaised⟩
        · rw [List.getElem?_singleton] at found
          split at found
          · obtain ⟨_, rfl⟩ := Delivery.mk.inj (Option.some.inj found)
            contradiction
          · contradiction
  | step delivery answers =>
      simp only [Ingest.act] at acted
      split at acted
      · contradiction
      · rename_i event phase found
        exact Ingest.advance_change found acted

end

/-- The marks that are raised and the processed events keep out of each other's way: the stretch from
a replaced mark up to the sequence that replaced it holds no other. -/
structure Marked (s : Ingest) : Prop where
  processed : ∀ event ∈ s.processed, event.sequence ≤ s.lastSequence
  own : ∀ delivery event replaced, Raised s delivery event replaced →
    replaced < event.sequence ∧ event.sequence ≤ s.lastSequence
  around : ∀ delivery event replaced, Raised s delivery event replaced →
    ∀ other ∈ s.processed, other.sequence ≤ replaced ∨ event.sequence < other.sequence
  apart : ∀ delivery other event own mark replaced, delivery ≠ other →
    Raised s delivery event mark → Raised s other own replaced →
    event.sequence ≤ replaced ∨ own.sequence ≤ mark

/-- A delivery that lowers the mark restores the one it replaced. -/
def restores (s : Ingest) : Action → Bool
  | .start _ => true
  | .step delivery answers =>
      match s.deliveries[delivery]? with
      | some ⟨event, .rollback seen replaced⟩ =>
          !(answers.stored && s.lastSequence = event.sequence) || seen = replaced
      | _ => true

/-- A delivery raises the mark while no other one has raised it and not ended. -/
def solitary (s : Ingest) : Action → Bool
  | .start _ => true
  | .step delivery _ =>
      match s.deliveries[delivery]? with
      | some ⟨_, .advance _⟩ => s.deliveries.all fun other => other.phase.raised.isNone
      | _ => true

section

variable {s t : Ingest} {action : Action}

theorem Change.marked (change : Change s t action) (marked : Marked s)
    (restored : restores s action = true) : Marked t := by
  cases change with
  | quiet mark same raised =>
      refine ⟨?_, ?_, ?_, ?_⟩
      · rw [mark, same]
        exact marked.processed
      · intro delivery event replaced isRaised
        rw [mark]
        exact marked.own delivery event replaced (raised _ _ _ isRaised)
      · intro delivery event replaced isRaised
        rw [same]
        exact marked.around delivery event replaced (raised _ _ _ isRaised)
      · intro delivery other event own mark replaced different isRaised alsoRaised
        exact marked.apart delivery other event own mark replaced different (raised _ _ _ isRaised)
          (raised _ _ _ alsoRaised)
  | raise found above mark same raised =>
      refine ⟨?_, ?_, ?_, ?_⟩
      · intro event member
        rw [same] at member
        have below := marked.processed event member
        omega
      · intro delivery event replaced isRaised
        rcases raised _ _ _ isRaised with ⟨_, rfl, rfl⟩ | ⟨_, earlier⟩
        · omega
        · have below := marked.own _ _ _ earlier
          omega
      · intro delivery event replaced isRaised other member
        rw [same] at member
        rcases raised _ _ _ isRaised with ⟨_, rfl, rfl⟩ | ⟨_, earlier⟩
        · exact Or.inl (marked.processed other member)
        · exact marked.around _ _ _ earlier other member
      · intro delivery other event own mark replaced different isRaised alsoRaised
        rcases raised _ _ _ isRaised with ⟨rfl, rfl, rfl⟩ | ⟨_, earlier⟩
        · rcases raised _ _ _ alsoRaised with ⟨same, _, _⟩ | ⟨_, earlier⟩
          · exact absurd same.symm different
          · exact Or.inr (marked.own _ _ _ earlier).2
        · rcases raised _ _ _ alsoRaised with ⟨rfl, rfl, rfl⟩ | ⟨_, alsoEarlier⟩
          · exact Or.inl (marked.own _ _ _ earlier).2
          · exact marked.apart _ _ _ _ _ _ different earlier alsoEarlier
  | finish found mark more raised =>
      have bounds := marked.own _ _ _ found
      refine ⟨?_, ?_, ?_, ?_⟩
      · intro event member
        rw [more] at member
        rw [mark]
        rcases List.mem_cons.mp member with rfl | earlier
        · exact bounds.2
        · exact marked.processed event earlier
      · intro delivery event replaced isRaised
        rw [mark]
        exact marked.own _ _ _ (raised _ _ _ isRaised).2
      · intro delivery event replaced isRaised other member
        obtain ⟨different, earlier⟩ := raised _ _ _ isRaised
        rw [more] at member
        rcases List.mem_cons.mp member with rfl | old
        · rcases marked.apart _ _ _ _ _ _ different earlier found with below | above
          · right
            omega
          · exact Or.inl above
        · exact marked.around _ _ _ earlier other old
      · intro delivery other event own mark replaced different isRaised alsoRaised
        exact marked.apart _ _ _ _ _ _ different (raised _ _ _ isRaised).2 (raised _ _ _ alsoRaised).2
  | @lower delivery answers event seen replaced found stored mine mark same raised =>
      obtain rfl : seen = replaced := by
        simpa [restores, found, stored, mine] using restored
      have isRaised : Raised s delivery event seen := ⟨_, found, rfl⟩
      refine ⟨?_, ?_, ?_, ?_⟩
      · intro other member
        rw [same] at member
        have below := marked.processed other member
        rcases marked.around _ _ _ isRaised other member with within | above <;> omega
      · intro other own replaced alsoRaised
        obtain ⟨different, earlier⟩ := raised _ _ _ alsoRaised
        have bounds := marked.own _ _ _ earlier
        rcases marked.apart _ _ _ _ _ _ different earlier isRaised with below | above <;> omega
      · intro other own replaced alsoRaised
        rw [same]
        exact marked.around _ _ _ (raised _ _ _ alsoRaised).2
      · intro first second event own mark replaced different firstRaised secondRaised
        exact marked.apart _ _ _ _ _ _ different (raised _ _ _ firstRaised).2
          (raised _ _ _ secondRaised).2

/-- At most one delivery has the mark raised, and everything processed lies below what it replaced. -/
structure Ordered (s : Ingest) : Prop extends Marked s where
  single : ∀ delivery other event own mark replaced, Raised s delivery event mark →
    Raised s other own replaced → delivery = other
  below : ∀ delivery event replaced, Raised s delivery event replaced →
    ∀ other ∈ s.processed, other.sequence ≤ replaced
  ordered : s.processed.Pairwise fun later earlier => earlier.sequence < later.sequence

theorem Change.ordered (change : Change s t action) (inv : Ordered s)
    (restored : restores s action = true) (alone : solitary s action = true) : Ordered t := by
  have marked := change.marked inv.toMarked restored
  cases change with
  | quiet mark same raised =>
      refine ⟨marked, ?_, ?_, ?_⟩
      · intro delivery other event own mark replaced isRaised alsoRaised
        exact inv.single _ _ _ _ _ _ (raised _ _ _ isRaised) (raised _ _ _ alsoRaised)
      · intro delivery event replaced isRaised
        rw [same]
        exact inv.below _ _ _ (raised _ _ _ isRaised)
      · rw [same]
        exact inv.ordered
  | raise found above mark same raised =>
      have none : ∀ other own replaced, ¬ Raised s other own replaced := by
        rintro other own replaced ⟨phase, isThere, isRaised⟩
        simp only [solitary, found] at alone
        have down := List.all_eq_true.mp alone _ (List.mem_of_getElem? isThere)
        simp [isRaised] at down
      have own : ∀ other event replaced, Raised t other event replaced →
          other = _ ∧ event = _ ∧ replaced = s.lastSequence := fun other event replaced isRaised =>
        (raised other event replaced isRaised).resolve_right fun earlier => none _ _ _ earlier.2
      refine ⟨marked, ?_, ?_, ?_⟩
      · intro delivery other event alsoOwn mark replaced isRaised alsoRaised
        exact (own _ _ _ isRaised).1.trans (own _ _ _ alsoRaised).1.symm
      · intro delivery event replaced isRaised other member
        rw [same] at member
        rw [(own _ _ _ isRaised).2.2]
        exact inv.processed other member
      · rw [same]
        exact inv.ordered
  | finish found mark more raised =>
      have down : ∀ other own replaced, ¬ Raised t other own replaced := by
        intro other own replaced isRaised
        obtain ⟨different, earlier⟩ := raised _ _ _ isRaised
        exact different (inv.single _ _ _ _ _ _ earlier found)
      refine ⟨marked, ?_, ?_, ?_⟩
      · exact fun delivery other event own mark replaced isRaised => absurd isRaised (down _ _ _)
      · exact fun delivery event replaced isRaised => absurd isRaised (down _ _ _)
      · rw [more]
        refine List.pairwise_cons.mpr ⟨fun other member => ?_, inv.ordered⟩
        have within := inv.below _ _ _ found other member
        have bounds := inv.own _ _ _ found
        omega
  | lower found stored mine mark same raised =>
      have down : ∀ other own replaced, ¬ Raised t other own replaced := by
        intro other own replaced isRaised
        obtain ⟨different, earlier⟩ := raised _ _ _ isRaised
        exact different (inv.single _ _ _ _ _ _ earlier ⟨_, found, rfl⟩)
      refine ⟨marked, ?_, ?_, ?_⟩
      · exact fun delivery other event own mark replaced isRaised => absurd isRaised (down _ _ _)
      · exact fun delivery event replaced isRaised => absurd isRaised (down _ _ _)
      · rw [same]
        exact inv.ordered

theorem initial_marked : Marked {} := by
  refine ⟨?_, ?_, ?_, ?_⟩ <;> simp [Raised]

theorem initial_ordered : Ordered {} :=
  ⟨initial_marked, by simp [Raised], by simp [Raised], List.Pairwise.nil⟩

/-- The mark never falls below a processed event where each delivery that lowers it restores the mark
it replaced; and where deliveries also raise it one at a time, events are processed in the order of
their sequences. -/
theorem mark_covers_processed (s : Ingest) :
    (Steps Ingest.step (fun s action => restores s action = true) {} s →
      ∀ event ∈ s.processed, event.sequence ≤ s.lastSequence) ∧
    (Steps Ingest.step (fun s action => restores s action = true ∧ solitary s action = true) {} s →
      s.processed.Pairwise fun later earlier => earlier.sequence < later.sequence) := by
  constructor
  · intro run
    have kept : ∀ t action u, Marked t → restores t action = true → Ingest.step t action u →
        Marked u := fun _ _ _ inv restored taken => (Ingest.act_change taken).marked inv restored
    exact (run.invariant Marked initial_marked kept).processed
  · intro run
    have kept : ∀ t action u, Ordered t → restores t action = true ∧ solitary t action = true →
        Ingest.step t action u → Ordered u := fun _ _ _ inv allowed taken =>
      (Ingest.act_change taken).ordered inv allowed.1 allowed.2
    exact (run.invariant Ordered initial_ordered kept).ordered

end

def answered (delivery count : Nat) : List Action := List.replicate count (.step delivery {})

/-- A delivery whose processing fails, and its two compensations. -/
def compensated (delivery : Nat) : List Action :=
  .step delivery { touched := false } :: answered delivery 2

/-- An event is processed; the next one fails and is compensated, and is then processed when it is
delivered again. -/
theorem mark_covers_processed_redelivered : ∃ s : Ingest,
    s.processed = [⟨"second", 6, .progress⟩, ⟨"first", 5, .progress⟩] ∧
    (∀ event ∈ s.processed, event.sequence ≤ s.lastSequence) ∧
    s.processed.Pairwise fun later earlier => earlier.sequence < later.sequence := by
  have ran : (Steps.ofList Ingest.act (fun s action => restores s action && solitary s action) {}
      ([Action.start ⟨"first", 5, .progress⟩] ++ answered 0 4 ++
        [Action.start ⟨"second", 6, .progress⟩] ++ answered 1 3 ++ compensated 1 ++
        [Action.start ⟨"second", 6, .progress⟩] ++ answered 2 4)).map Ingest.processed =
      some [⟨"second", 6, .progress⟩, ⟨"first", 5, .progress⟩] := by decide
  obtain ⟨s, reached, processed⟩ := Option.map_eq_some_iff.mp ran
  have run : Steps Ingest.step
      (fun s action => restores s action = true ∧ solitary s action = true) {} s :=
    Steps.of_ofList (fun _ _ checked => Bool.and_eq_true_iff.mp checked) reached
  exact ⟨s, processed, (mark_covers_processed s).1 (run.mono fun _ _ allowed => allowed.1),
    (mark_covers_processed s).2 run⟩

/-- Both deliveries read the mark 0. The first raises it to 5 and is processed; the second raises it
to 6, fails and restores 0, and an event with a lower sequence is then processed. -/
theorem mark_lowered_below_processed : ∃ s : Ingest, Steps Ingest.step anyAction {} s ∧
    (∃ event ∈ s.processed, s.lastSequence < event.sequence) ∧
    ¬ s.processed.Pairwise (fun later earlier => later.id ≠ earlier.id →
      earlier.sequence < later.sequence) := by
  have ran : (Steps.ofList Ingest.act (fun _ _ => true) {}
      ([Action.start ⟨"first", 5, .progress⟩, .start ⟨"second", 6, .progress⟩] ++ answered 0 1 ++
        answered 1 1 ++ answered 0 3 ++ answered 1 2 ++ compensated 1 ++
        [Action.start ⟨"third", 3, .progress⟩] ++ answered 2 4)).map (fun s => (s.processed, s.lastSequence)) =
      some ([⟨"third", 3, .progress⟩, ⟨"first", 5, .progress⟩], 3) := by decide
  obtain ⟨s, reached, rows⟩ := Option.map_eq_some_iff.mp ran
  obtain ⟨processed, mark⟩ := Prod.mk.inj rows
  refine ⟨s, Steps.of_ofList (fun _ _ _ => trivial) reached, ?_, ?_⟩
  · rw [processed, mark]
    decide
  · rw [processed]
    decide

end CultureNodes.Actors
