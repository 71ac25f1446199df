import CultureNodes.Store.Lifecycle

/-!
Fencing and finality over whole runs of the work-item statements.
-/

namespace CultureNodes.Store.WorkSystem

variable {isCode : Nat → Bool} {s t : WorkSystem}

/-- The work-item invariant as a property of the system's states. -/
def Sound (system : WorkSystem) : Prop := WorkInvariant system.tables

theorem step_preserves (system : WorkSystem) (action : WorkAction) (next : WorkSystem)
    (inv : Sound system) (_ : anyAction system action)
    (taken : step isCode system action next) : Sound next :=
  (act_statement inv taken).preserves inv

theorem initial_invariant : Sound initial :=
  ⟨List.nodup_nil, fun item member => by simp [initial] at member⟩

theorem run_invariant (run : Steps (step isCode) anyAction initial s) : Sound s :=
  run.invariant Sound initial_invariant step_preserves

/-- Along a run an item keeps its row, its fencing token never falls, and a row that is completed or
cancelled stays as it is. -/
theorem run_follows (inv : Sound s) (run : Steps (step isCode) anyAction s t) :
    ∀ item ∈ s.tables.items, ∃ next ∈ t.tables.items, next.id = item.id ∧
      item.fencingToken ≤ next.fencingToken ∧ (item.live = false → next = item) := by
  refine run.related Sound (fun first last => ∀ item ∈ first.tables.items,
    ∃ next ∈ last.tables.items, next.id = item.id ∧ item.fencingToken ≤ next.fencingToken ∧
      (item.live = false → next = item)) inv step_preserves ?_ ?_ ?_
  · exact fun system item member => ⟨item, member, rfl, Nat.le_refl _, fun _ => rfl⟩
  · intro first second third early late item member
    obtain ⟨next, nextMember, sameID, grown, final⟩ := early item member
    obtain ⟨last, lastMember, sameID', grown', final'⟩ := late next nextMember
    refine ⟨last, lastMember, sameID'.trans sameID, grown.trans grown', fun dead => ?_⟩
    have settled := final dead
    subst settled
    exact final' dead
  · intro system action next inv _ taken item member
    obtain ⟨after, afterMember, evolved⟩ := (act_statement inv taken).carried item member
    exact ⟨after, afterMember, evolved.id_eq, evolved.token_le, evolved.eq_of_not_live⟩

theorem updateItems?_matches {tables next : WorkTables} {guard : WorkItem → Bool}
    {write : WorkItem → WorkItem} {tuple : Claim}
    (done : tables.updateItems? guard write = some next)
    (matched : ∀ item, guard item = true → item.id = tuple.work ∧
      item.fencingToken = tuple.fencingToken ∧ item.live = true) :
    ∃ item ∈ tables.items, item.id = tuple.work ∧ item.fencingToken = tuple.fencingToken ∧
      item.live = true := by
  obtain ⟨⟨item, member, hit⟩, _⟩ := updateItems?_eq_some done
  exact ⟨item, member, matched item hit⟩

theorem heldBy_matches {tuple : Claim} (item : WorkItem) (held : item.heldBy tuple = true) :
    item.id = tuple.work ∧ item.fencingToken = tuple.fencingToken ∧ item.live = true := by
  refine ⟨?_, ?_, WorkItem.heldBy_live held⟩ <;>
    simp only [WorkItem.heldBy, Bool.and_eq_true, decide_eq_true_eq] at held
  · exact held.1.1.1.1
  · exact held.1.2

theorem act_guarded {action : WorkAction} {tuple : Claim} (guarded : action.guard? = some tuple)
    (acted : s.act isCode action = some t) :
    ∃ item ∈ s.tables.items, item.id = tuple.work ∧ item.fencingToken = tuple.fencingToken ∧
      item.live = true := by
  cases action with
  | extendLease claim now lease =>
      obtain rfl := Option.some.inj guarded
      obtain ⟨tables, done, rfl⟩ := Option.map_eq_some_iff.mp acted
      refine updateItems?_matches done fun item leased => ⟨?_, ?_, WorkItem.leasedBy_live leased⟩ <;>
        simp only [WorkItem.leasedBy, Bool.and_eq_true, decide_eq_true_eq] at leased
      · exact leased.1.1.1
      · exact leased.2
  | deferWork claim availableAt =>
      obtain rfl := Option.some.inj guarded
      obtain ⟨tables, done, rfl⟩ := Option.map_eq_some_iff.mp acted
      exact updateItems?_matches done heldBy_matches
  | completeWork claim retry =>
      obtain rfl := Option.some.inj guarded
      obtain ⟨tables, done, rfl⟩ := Option.map_eq_some_iff.mp acted
      simp only [completeWork, Option.bind_eq_bind, Option.bind_eq_some_iff] at done
      obtain ⟨finished, isFinished, _⟩ := done
      exact updateItems?_matches isFinished heldBy_matches
  | startAsyncWait claim deadline =>
      obtain rfl := Option.some.inj guarded
      obtain ⟨tables, done, rfl⟩ := Option.map_eq_some_iff.mp acted
      simp only [WorkTables.startAsyncWait, Option.bind_eq_bind, Option.bind_eq_some_iff] at done
      obtain ⟨parked, isParked, _⟩ := done
      exact updateItems?_matches isParked heldBy_matches
  | startDurableWait claim timer fireAt =>
      obtain rfl := Option.some.inj guarded
      obtain ⟨tables, done, rfl⟩ := Option.map_eq_some_iff.mp acted
      simp only [WorkTables.startDurableWait, Option.bind_eq_bind, Option.bind_eq_some_iff] at done
      obtain ⟨parked, isParked, _⟩ := done
      exact updateItems?_matches isParked heldBy_matches
  | startDurableSignalWait claim subscription eventName =>
      obtain rfl := Option.some.inj guarded
      obtain ⟨tables, done, rfl⟩ := Option.map_eq_some_iff.mp acted
      simp only [WorkTables.startDurableSignalWait, Option.bind_eq_bind,
        Option.bind_eq_some_iff] at done
      obtain ⟨parked, isParked, _⟩ := done
      exact updateItems?_matches isParked heldBy_matches
  | resumeWaitingWork claim now lease =>
      obtain rfl := Option.some.inj guarded
      obtain ⟨tables, done, rfl⟩ := Option.map_eq_some_iff.mp acted
      refine updateItems?_matches done fun item parked => ⟨?_, ?_, WorkItem.parkedFor_live parked⟩ <;>
        simp only [WorkItem.parkedFor, Bool.and_eq_true, decide_eq_true_eq] at parked
      · exact parked.1.1.1.1
      · exact parked.1.2
  | reparkResumedWork claim =>
      obtain rfl := Option.some.inj guarded
      obtain ⟨tables, done, rfl⟩ := Option.map_eq_some_iff.mp acted
      exact updateItems?_matches done heldBy_matches
  | _ => simp [WorkAction.guard?] at guarded

theorem claim_raises {id now lease : Nat} {worker : String} {claimCode : Bool}
    (inv : Sound s)
    (claimed : s.act isCode (.claim id worker claimCode now lease) = some t) {row : WorkItem}
    (member : row ∈ t.tables.items) (isRow : row.id = id) :
    ∃ item ∈ s.tables.items, item.id = id ∧ row = item.claimed worker now lease := by
  obtain ⟨tables, done, rfl⟩ := Option.map_eq_some_iff.mp claimed
  obtain ⟨⟨item, itemMember, due⟩, rfl⟩ := updateItems?_eq_some done
  have itemID : item.id = id := by
    simp only [Bool.and_eq_true, decide_eq_true_eq] at due
    exact due.1.1.1.1
  refine ⟨item, itemMember, itemID, ?_⟩
  obtain ⟨old, oldMember, rfl⟩ := Table.mem_update.mp member
  have sameRow : old = item := by
    refine Table.eq_of_key inv.distinct oldMember itemMember ?_
    rw [itemID, ← isRow]
    split <;> rfl
  rw [sameRow, if_pos due]

/-- A completed or cancelled row keeps its state, whatever commits afterwards. -/
theorem run_final (inv : Sound s) (run : Steps (step isCode) anyAction s t)
    {item : WorkItem} (member : item ∈ s.tables.items)
    (ended : item.state = .completed ∨ item.state = .cancelled) : item ∈ t.tables.items := by
  have dead : item.live = false := by
    rcases ended with completed | cancelled
    · simp [WorkItem.live, completed]
    · simp [WorkItem.live, cancelled]
  obtain ⟨next, nextMember, _, _, final⟩ := run_follows inv run item member
  exact final dead ▸ nextMember

theorem completed_after_act {claim : Claim} {retry : Option (Nat × Nat)}
    (acted : s.act isCode (.completeWork claim retry) = some t) :
    ∃ item ∈ t.tables.items, item.id = claim.work ∧ item.state = .completed := by
  obtain ⟨tables, done, rfl⟩ := Option.map_eq_some_iff.mp acted
  simp only [completeWork, Option.bind_eq_bind, Option.bind_eq_some_iff] at done
  obtain ⟨finished, isFinished, nodeRun, _, rest⟩ := done
  obtain ⟨⟨item, member, held⟩, isUpdate⟩ := updateItems?_eq_some isFinished
  have inFinished : item.finished ∈ finished.items := by
    rw [isUpdate]
    have updated := Table.mem_update_of_mem (·.heldBy claim) (·.finished) member
    rwa [if_pos held] at updated
  refine ⟨item.finished, ?_, (heldBy_matches item held).1, rfl⟩
  cases retry with
  | none =>
      rw [Option.some.injEq] at rest
      exact rest ▸ inFinished
  | some fresh =>
      simp only at rest
      split at rest
      · contradiction
      · rw [Option.some.injEq] at rest
        rw [← rest]
        exact List.mem_append_left _ inFinished

/-- For every interleaving of the statements on a run's work: a later claim of an item carries a
strictly larger fencing token, and once it has been made no guarded write under the earlier claim's
token commits; an item is completed at most once; and a completed or cancelled row never changes. -/
theorem fencing_and_finality (run : Steps (step isCode) anyAction initial s) :
    (∀ id worker claimCode now lease first (earlier : WorkItem) before worker' claimCode' now' lease'
        second (later : WorkItem),
      s.act isCode (.claim id worker claimCode now lease) = some first →
      earlier ∈ first.tables.items → earlier.id = id →
      Steps (step isCode) anyAction first before →
      before.act isCode (.claim id worker' claimCode' now' lease') = some second →
      later ∈ second.tables.items → later.id = id →
      earlier.fencingToken < later.fencingToken ∧
        ∀ after tuple action, Steps (step isCode) anyAction second after →
          tuple.work = id → tuple.fencingToken = earlier.fencingToken →
          action.guard? = some tuple → after.act isCode action = none) ∧
    (∀ claim retry first before claim' retry',
      s.act isCode (.completeWork claim retry) = some first →
      Steps (step isCode) anyAction first before → claim'.work = claim.work →
      before.act isCode (.completeWork claim' retry') = none) ∧
    ∀ item ∈ s.tables.items, item.state = .completed ∨ item.state = .cancelled →
      ∀ after, Steps (step isCode) anyAction s after → item ∈ after.tables.items := by
  have inv := run_invariant run
  refine ⟨?_, ?_, ?_⟩
  · intro id worker claimCode now lease first earlier before worker' claimCode' now' lease' second
      later claimed earlierMember earlierID between claimedAgain laterMember laterID
    have firstInv := step_preserves _ _ _ inv trivial claimed
    have beforeInv := between.invariant Sound firstInv step_preserves
    obtain ⟨kept, keptMember, keptID, keptToken, _⟩ :=
      run_follows firstInv between earlier earlierMember
    obtain ⟨reclaimed, reclaimedMember, reclaimedID, rfl⟩ :=
      claim_raises beforeInv claimedAgain laterMember laterID
    have same : kept = reclaimed := Table.eq_of_key beforeInv.distinct keptMember reclaimedMember
      (by rw [keptID, earlierID, reclaimedID])
    subst same
    have grown : earlier.fencingToken < (kept.claimed worker' now' lease').fencingToken :=
      Nat.lt_succ_of_le keptToken
    refine ⟨grown, fun after tuple action later isWork isToken guarded => ?_⟩
    cases acted : after.act isCode action with
    | none => rfl
    | some next =>
        have secondInv := step_preserves _ _ _ beforeInv trivial claimedAgain
        have afterInv := later.invariant Sound secondInv step_preserves
        obtain ⟨last, lastMember, lastID, lastToken, _⟩ :=
          run_follows secondInv later _ laterMember
        obtain ⟨item, member, itemID, itemToken, _⟩ := act_guarded guarded acted
        have sameRow : item = last := Table.eq_of_key afterInv.distinct member lastMember
          (by rw [itemID, isWork, lastID, laterID])
        subst sameRow
        omega
  · intro claim retry first before claim' retry' completed between sameWork
    have firstInv := step_preserves _ _ _ inv trivial completed
    obtain ⟨done, doneMember, doneID, isCompleted⟩ := completed_after_act completed
    have stays := run_final firstInv between doneMember (Or.inl isCompleted)
    have beforeInv := between.invariant Sound firstInv step_preserves
    cases acted : before.act isCode (.completeWork claim' retry') with
    | none => rfl
    | some next =>
        obtain ⟨item, member, itemID, _, live⟩ := act_guarded rfl acted
        have sameRow : item = done := Table.eq_of_key beforeInv.distinct member stays
          (by rw [itemID, sameWork, doneID])
        subst sameRow
        simp [WorkItem.live, isCompleted] at live
  · exact fun item member ended after later => run_final inv later member ended

/-- One work item of one node run, in a run that has not ended. -/
def single (item : WorkItem) : WorkSystem := ⟨{ items := [item] }, false⟩

/-- Worker `a` claims an item, its lease expires, and worker `b` claims it again: the second claim
holds token 2, and the completion `a` still sends under token 1 writes nothing. -/
theorem fencing_and_finality_reclaimed :
    1 < 2 ∧ (single (((({ id := 7, nodeRun := 3, availableAt := 0 } : WorkItem).claimed "a" 0 5).reclaimed
        9).claimed "b" 9 5)).act (fun _ => false) (.completeWork ⟨7, "a", 1, 1⟩ none) = none := by
  have enqueued : Steps (step fun _ => false) anyAction initial
      (single { id := 7, nodeRun := 3, availableAt := 0 }) :=
    .tail .refl trivial (show step _ initial (.enqueue 7 3 0) _ from rfl)
  have reclaimed : Steps (step fun _ => false) anyAction
      (single (({ id := 7, nodeRun := 3, availableAt := 0 } : WorkItem).claimed "a" 0 5))
      (single ((({ id := 7, nodeRun := 3, availableAt := 0 } : WorkItem).claimed "a" 0 5).reclaimed
        9)) :=
    .tail .refl trivial (show step _ _ (.reclaimExpired 9) _ from rfl)
  have fenced := (fencing_and_finality enqueued).1 7 "a" true 0 5 _ _ _ "b" true 9 5 _ _ rfl
    (List.mem_singleton.mpr rfl) rfl reclaimed rfl (List.mem_singleton.mpr rfl) rfl
  exact ⟨fenced.1, fenced.2 _ ⟨7, "a", 1, 1⟩ (.completeWork ⟨7, "a", 1, 1⟩ none) .refl rfl rfl rfl⟩

end CultureNodes.Store.WorkSystem
