import CultureNodes.Library.Transition
import CultureNodes.Store.WorkItem

/-!
Every interleaving of the store's statements on the work of one run. The statements commit one at a
time; a statement that matches nothing writes nothing and is no step.
-/

namespace CultureNodes.Store

structure WorkSystem where
  tables : WorkTables
  runTerminal : Bool
deriving DecidableEq, Repr

/-- The statements that reach a work item, its timers or its subscriptions. The engine enqueues a
node run's first item when it has none, and a further one only in the transaction that completes
the item before it. -/
inductive WorkAction where
  | enqueue (id nodeRun availableAt : Nat)
  | claim (id : Nat) (worker : String) (claimCode : Bool) (now lease : Nat)
  | reclaimExpired (now : Nat)
  | extendLease (claim : Claim) (now lease : Nat)
  | deferWork (claim : Claim) (availableAt : Nat)
  | completeWork (claim : Claim) (retry : Option (Nat × Nat))
  | startAsyncWait (claim : Claim) (deadline : Option (Nat × Nat))
  | startDurableWait (claim : Claim) (timer fireAt : Nat)
  | startDurableSignalWait (claim : Claim) (subscription : Nat) (eventName : String)
  | resumeWaitingWork (claim : Claim) (now lease : Nat)
  | reparkResumedWork (claim : Claim)
  | fireSubscription (id now : Nat)
  | claimTimer (id : Nat) (owner : String) (now : Nat)
  | fireTimer (id : Nat) (owner : String) (now : Nat)
  | rearmDeadline (id nodeRun fireAt : Nat)
  | cancelTimer (id : Nat)
  | reap (nodeRuns : List Nat)
  | endRun (nodeRuns : List Nat)
  | cancelRun
  | parkFrozen
deriving DecidableEq, Repr

/-- The writes guarded by a claim's fencing tuple, with that tuple. -/
def WorkAction.guard? : WorkAction → Option Claim
  | .extendLease tuple _ _ => some tuple
  | .deferWork tuple _ => some tuple
  | .completeWork tuple _ => some tuple
  | .startAsyncWait tuple _ => some tuple
  | .startDurableWait tuple _ _ => some tuple
  | .startDurableSignalWait tuple _ _ => some tuple
  | .resumeWaitingWork tuple _ _ => some tuple
  | .reparkResumedWork tuple => some tuple
  | _ => none

namespace WorkSystem

def initial : WorkSystem := ⟨{}, false⟩

def completeWork (tables : WorkTables) (claim : Claim) (retry : Option (Nat × Nat)) :
    Option WorkTables := do
  let done ← tables.completeWork claim
  let nodeRun ← tables.nodeRunOf claim.work
  match retry with
  | none => some done
  | some (id, availableAt) =>
      if done.items.any (·.id = id) then none else some (done.enqueueWork id nodeRun availableAt)

variable (isCode : Nat → Bool)

def act (system : WorkSystem) : WorkAction → Option WorkSystem
  | .enqueue id nodeRun availableAt =>
      if system.tables.items.any (fun item => item.id = id || item.nodeRun = nodeRun) then none
      else some { system with tables := system.tables.enqueueWork id nodeRun availableAt }
  | .claim id worker claimCode now lease =>
      (system.tables.claimWork system.runTerminal isCode id worker claimCode now lease).map
        ({ system with tables := · })
  | .reclaimExpired now =>
      some { system with tables := system.tables.reclaimExpired system.runTerminal now }
  | .extendLease claim now lease =>
      (system.tables.extendLease claim now lease).map ({ system with tables := · })
  | .deferWork claim availableAt =>
      (system.tables.deferWork claim availableAt).map ({ system with tables := · })
  | .completeWork claim retry =>
      (completeWork system.tables claim retry).map ({ system with tables := · })
  | .startAsyncWait claim deadline =>
      (system.tables.startAsyncWait claim deadline).map ({ system with tables := · })
  | .startDurableWait claim timer fireAt =>
      (system.tables.startDurableWait claim timer fireAt).map ({ system with tables := · })
  | .startDurableSignalWait claim subscription eventName =>
      (system.tables.startDurableSignalWait claim subscription eventName).map
        ({ system with tables := · })
  | .resumeWaitingWork claim now lease =>
      (system.tables.resumeWaitingWork claim now lease).map ({ system with tables := · })
  | .reparkResumedWork claim => (system.tables.parkWork claim).map ({ system with tables := · })
  | .fireSubscription id now =>
      (system.tables.fireSubscription id now).map ({ system with tables := · })
  | .claimTimer id owner now => some { system with tables := system.tables.claimTimer id owner now }
  | .fireTimer id owner now =>
      (system.tables.fireTimer id owner now).map ({ system with tables := · })
  | .rearmDeadline id nodeRun fireAt =>
      (system.tables.rearmDeadline id nodeRun fireAt).map ({ system with tables := · })
  | .cancelTimer id => some { system with tables := system.tables.cancelTimer id }
  | .reap nodeRuns => some { system with tables := system.tables.reapNodeRunAppendages nodeRuns }
  | .endRun nodeRuns => some ⟨system.tables.reapNodeRunAppendages nodeRuns, true⟩
  | .cancelRun => if system.runTerminal then none else some ⟨system.tables.cancelAll, true⟩
  | .parkFrozen =>
      if system.runTerminal then none else some { system with tables := system.tables.parkFrozen }

def step (system : WorkSystem) (action : WorkAction) (next : WorkSystem) : Prop :=
  system.act isCode action = some next

end WorkSystem

/-- All that one statement can do to one work item. -/
inductive Evolves (item : WorkItem) : WorkItem → Prop where
  | unchanged : Evolves item item
  | claimed (worker : String) (now lease : Nat) : item.state = .ready →
      Evolves item (item.claimed worker now lease)
  | moved {next : WorkItem} : item.live = true → next.id = item.id → next.nodeRun = item.nodeRun →
      next.fencingToken = item.fencingToken → Evolves item next

namespace Evolves

variable {item next : WorkItem}

theorem id_eq (evolved : Evolves item next) : next.id = item.id := by
  cases evolved with
  | unchanged => rfl
  | claimed => rfl
  | moved _ same _ _ => exact same

theorem nodeRun_eq (evolved : Evolves item next) : next.nodeRun = item.nodeRun := by
  cases evolved with
  | unchanged => rfl
  | claimed => rfl
  | moved _ _ same _ => exact same

theorem token_le (evolved : Evolves item next) : item.fencingToken ≤ next.fencingToken := by
  cases evolved with
  | unchanged => exact Nat.le_refl _
  | claimed => exact Nat.le_succ _
  | moved _ _ _ same => exact Nat.le_of_eq same.symm

theorem eq_of_not_live (evolved : Evolves item next) (dead : item.live = false) : next = item := by
  cases evolved with
  | unchanged => rfl
  | claimed _ _ _ ready => simp [WorkItem.live, ready] at dead
  | moved live _ _ _ => rw [live] at dead; contradiction

end Evolves

theorem WorkItem.heldBy_live {item : WorkItem} {claim : Claim} (held : item.heldBy claim = true) :
    item.live = true := by
  simp only [WorkItem.heldBy, Bool.and_eq_true, decide_eq_true_eq] at held
  simp [WorkItem.live, held.1.1.1.2]

theorem WorkItem.leasedBy_live {item : WorkItem} {claim : Claim}
    (leased : item.leasedBy claim = true) : item.live = true := by
  simp only [WorkItem.leasedBy, Bool.and_eq_true, decide_eq_true_eq] at leased
  simp [WorkItem.live, leased.1.1.2]

theorem WorkItem.parkedFor_live {item : WorkItem} {claim : Claim}
    (parked : item.parkedFor claim = true) : item.live = true := by
  simp only [WorkItem.parkedFor, Bool.and_eq_true, decide_eq_true_eq] at parked
  simp [WorkItem.live, parked.1.1.1.2]

/-- A node run none of whose items is live and none of whose timers can wake one. -/
structure Quiet (tables : WorkTables) (nodeRun : Nat) : Prop where
  items : ∀ item ∈ tables.items, item.nodeRun = nodeRun → item.live = false
  timers : ∀ timer ∈ tables.timers, timer.nodeRun = nodeRun → timer.wakes = true →
    timer.status ≠ .pending

/-- The invariant that makes cancellation final: where one item of a node run has been cancelled,
the whole node run is quiet. -/
structure WorkInvariant (tables : WorkTables) : Prop where
  distinct : (tables.items.map WorkItem.id).Nodup
  quiet : ∀ item ∈ tables.items, item.state = .cancelled → Quiet tables item.nodeRun

/-- What one statement does to the tables as a whole. -/
structure Statement (before after : WorkTables) : Prop where
  distinct : (after.items.map WorkItem.id).Nodup
  carried : ∀ item ∈ before.items, ∃ next ∈ after.items, Evolves item next
  origin : ∀ next ∈ after.items, (∃ item ∈ before.items, Evolves item next) ∨
    (next.state = .ready ∧
      ∀ item ∈ before.items, item.nodeRun = next.nodeRun → item.state ≠ .cancelled)
  armed : ∀ timer ∈ after.timers, timer.wakes = true → timer.status = .pending →
    (∃ old ∈ before.timers, old.nodeRun = timer.nodeRun ∧ old.wakes = true ∧
      old.status = .pending) ∨
    ∃ item ∈ before.items, item.nodeRun = timer.nodeRun ∧ item.live = true
  cancelled : ∀ next ∈ after.items, next.state = .cancelled →
    next ∈ before.items ∨ Quiet after next.nodeRun

theorem Statement.preserves {before after : WorkTables} (statement : Statement before after)
    (inv : WorkInvariant before) : WorkInvariant after := by
  refine ⟨statement.distinct, fun next member isCancelled => ?_⟩
  rcases statement.cancelled next member isCancelled with old | quiet
  · have quiet := inv.quiet next old isCancelled
    refine ⟨fun other otherMember same => ?_, fun timer timerMember same wakes pending => ?_⟩
    · rcases statement.origin other otherMember with ⟨item, itemMember, evolved⟩ | ⟨_, untouched⟩
      · have dead := quiet.items item itemMember (evolved.nodeRun_eq ▸ same)
        rw [evolved.eq_of_not_live dead]
        exact dead
      · exact absurd isCancelled (untouched next old same.symm)
    · rcases statement.armed timer timerMember wakes pending with
        ⟨earlier, earlierMember, sameRun, earlierWakes, earlierPending⟩ | ⟨item, itemMember, sameRun, live⟩
      · exact quiet.timers earlier earlierMember (sameRun.trans same) earlierWakes earlierPending
      · rw [quiet.items item itemMember (sameRun.trans same)] at live
        contradiction
  · exact quiet

/-- The timers of `after` that can still wake work could do so in `before`, or belong to a node run
with live work in `before`. -/
def Armed (before after : WorkTables) : Prop :=
  ∀ timer ∈ after.timers, timer.wakes = true → timer.status = .pending →
    (∃ old ∈ before.timers, old.nodeRun = timer.nodeRun ∧ old.wakes = true ∧
      old.status = .pending) ∨
    ∃ item ∈ before.items, item.nodeRun = timer.nodeRun ∧ item.live = true

theorem Armed.same {before after : WorkTables} (same : after.timers = before.timers) :
    Armed before after := by
  intro timer member wakes pending
  exact Or.inl ⟨timer, same ▸ member, rfl, wakes, pending⟩

theorem Armed.update {before after : WorkTables} {guard : Timer → Bool} {write : Timer → Timer}
    (updated : after.timers = Table.update before.timers guard write)
    (kept : ∀ timer, (write timer).nodeRun = timer.nodeRun ∧ (write timer).kind = timer.kind)
    (pendingOnly : ∀ timer, guard timer = true → (write timer).status = .pending →
      timer.status = .pending) : Armed before after := by
  intro timer member wakes pending
  rw [updated] at member
  obtain ⟨old, oldMember, rfl⟩ := Table.mem_update.mp member
  refine Or.inl ⟨old, oldMember, ?_⟩
  by_cases hit : guard old = true
  · rw [if_pos hit] at wakes pending ⊢
    refine ⟨(kept old).1.symm, ?_, pendingOnly old hit pending⟩
    simpa [Timer.wakes, (kept old).2] using wakes
  · rw [if_neg hit] at wakes pending ⊢
    exact ⟨rfl, wakes, pending⟩

/-- A statement that moves items without cancelling any, and arms no timer of a node run without
live work. -/
theorem Statement.update {before after : WorkTables} {guard : WorkItem → Bool}
    {write : WorkItem → WorkItem} (inv : WorkInvariant before)
    (updated : after.items = Table.update before.items guard write)
    (moves : ∀ item ∈ before.items, guard item = true →
      Evolves item (write item) ∧ (write item).state ≠ .cancelled)
    (keepsID : ∀ item, (write item).id = item.id) (armed : Armed before after) :
    Statement before after := by
  refine ⟨?_, ?_, ?_, armed, ?_⟩
  · rw [updated, Table.update_keys keepsID]
    exact inv.distinct
  · intro item member
    rw [updated]
    refine ⟨_, Table.mem_update_of_mem _ _ member, ?_⟩
    split
    · rename_i hit
      exact (moves item member hit).1
    · exact .unchanged
  · intro next member
    rw [updated] at member
    obtain ⟨item, itemMember, rfl⟩ := Table.mem_update.mp member
    refine Or.inl ⟨item, itemMember, ?_⟩
    split
    · rename_i hit
      exact (moves item itemMember hit).1
    · exact .unchanged
  · intro next member isCancelled
    rw [updated] at member
    obtain ⟨item, itemMember, rfl⟩ := Table.mem_update.mp member
    by_cases hit : guard item = true
    · rw [if_pos hit] at isCancelled
      exact absurd isCancelled (moves item itemMember hit).2
    · rw [if_neg hit]
      exact Or.inl itemMember

theorem Statement.timersOnly {before after : WorkTables} (inv : WorkInvariant before)
    (same : after.items = before.items) (armed : Armed before after) : Statement before after := by
  refine ⟨same ▸ inv.distinct, ?_, ?_, armed, ?_⟩
  · exact fun item member => ⟨item, same ▸ member, .unchanged⟩
  · exact fun next member => Or.inl ⟨next, same ▸ member, .unchanged⟩
  · exact fun next member _ => Or.inl (same ▸ member)

theorem Statement.refl {tables : WorkTables} (inv : WorkInvariant tables) :
    Statement tables tables := .timersOnly inv rfl (.same rfl)

theorem updateItems?_eq_some {tables next : WorkTables} {guard : WorkItem → Bool}
    {write : WorkItem → WorkItem} (done : tables.updateItems? guard write = some next) :
    (∃ item ∈ tables.items, guard item = true) ∧ next = tables.updateItems guard write := by
  unfold WorkTables.updateItems? at done
  split at done
  · rename_i hit
    exact ⟨List.any_eq_true.mp hit, (Option.some.inj done).symm⟩
  · contradiction

theorem parkWork_statement {tables next : WorkTables} {claim : Claim}
    (inv : WorkInvariant tables) (parked : tables.parkWork claim = some next) :
    Statement tables next := by
  obtain ⟨_, rfl⟩ := updateItems?_eq_some parked
  refine .update inv rfl (fun item _ held => ⟨?_, ?_⟩) (fun _ => rfl) (.same rfl)
  · exact .moved (WorkItem.heldBy_live held) rfl rfl rfl
  · exact WorkState.noConfusion

theorem parkWork_nodeRun {tables next : WorkTables} {claim : Claim} {nodeRun : Nat}
    (inv : WorkInvariant tables) (parked : tables.parkWork claim = some next)
    (found : tables.nodeRunOf claim.work = some nodeRun) :
    ∃ item ∈ tables.items, item.nodeRun = nodeRun ∧ item.heldBy claim = true := by
  obtain ⟨⟨item, member, held⟩, _⟩ := updateItems?_eq_some parked
  refine ⟨item, member, ?_, held⟩
  unfold WorkTables.nodeRunOf at found
  obtain ⟨other, foundOther, rfl⟩ := Option.map_eq_some_iff.mp found
  have sameID : other.id = item.id := by
    have otherID := List.find?_some foundOther
    simp only [WorkItem.heldBy, Bool.and_eq_true, decide_eq_true_eq] at held otherID
    rw [otherID, held.1.1.1.1]
  rw [Table.eq_of_key inv.distinct (List.mem_of_find?_eq_some foundOther) member sameID]

theorem Statement.park {before parked after : WorkTables} {claim : Claim} {nodeRun : Nat}
    (inv : WorkInvariant before) (released : before.parkWork claim = some parked)
    (found : before.nodeRunOf claim.work = some nodeRun) (sameItems : after.items = parked.items)
    (timers : ∀ timer ∈ after.timers, timer ∈ parked.timers ∨ timer.nodeRun = nodeRun) :
    Statement before after := by
  obtain ⟨held, isUpdate⟩ := updateItems?_eq_some released
  obtain ⟨item, member, itemRun, itemHeld⟩ := parkWork_nodeRun inv released found
  have updated : after.items = Table.update before.items (·.heldBy claim) (·.parked) := by
    rw [sameItems, isUpdate]
    rfl
  refine .update inv updated (fun row _ heldRow => ⟨?_, ?_⟩) (fun _ => rfl) ?_
  · exact .moved (WorkItem.heldBy_live heldRow) rfl rfl rfl
  · exact WorkState.noConfusion
  · intro timer timerMember wakes pending
    rcases timers timer timerMember with old | mine
    · exact Or.inl ⟨timer, by rw [isUpdate] at old; exact old, rfl, wakes, pending⟩
    · exact Or.inr ⟨item, member, itemRun.trans mine.symm, WorkItem.heldBy_live itemHeld⟩

theorem startAsyncWait_statement {tables next : WorkTables} {claim : Claim}
    {deadline : Option (Nat × Nat)} (inv : WorkInvariant tables)
    (started : tables.startAsyncWait claim deadline = some next) : Statement tables next := by
  simp only [WorkTables.startAsyncWait, Option.bind_eq_bind, Option.bind_eq_some_iff] at started
  obtain ⟨parked, released, nodeRun, found, started⟩ := started
  cases deadline with
  | none =>
      rw [Option.some.injEq] at started
      subst started
      exact parkWork_statement inv released
  | some timer =>
      simp only at started
      split at started
      · contradiction
      · rw [Option.some.injEq] at started
        subst started
        refine .park inv released found rfl fun row member => ?_
        rcases List.mem_append.mp member with old | new
        · exact Or.inl old
        · rw [List.mem_singleton] at new
          exact Or.inr (by rw [new])

theorem startDurableWait_statement {tables next : WorkTables} {claim : Claim} {timer fireAt : Nat}
    (inv : WorkInvariant tables) (started : tables.startDurableWait claim timer fireAt = some next) :
    Statement tables next := by
  simp only [WorkTables.startDurableWait, Option.bind_eq_bind, Option.bind_eq_some_iff] at started
  obtain ⟨parked, released, nodeRun, found, started⟩ := started
  split at started
  · rw [Option.some.injEq] at started
    subst started
    exact parkWork_statement inv released
  · rw [Option.some.injEq] at started
    subst started
    refine .park inv released found rfl fun row member => ?_
    rcases List.mem_append.mp member with old | new
    · exact Or.inl old
    · rw [List.mem_singleton] at new
      exact Or.inr (by rw [new])

theorem startDurableSignalWait_statement {tables next : WorkTables} {claim : Claim}
    {subscription : Nat} {eventName : String} (inv : WorkInvariant tables)
    (started : tables.startDurableSignalWait claim subscription eventName = some next) :
    Statement tables next := by
  simp only [WorkTables.startDurableSignalWait, Option.bind_eq_bind,
    Option.bind_eq_some_iff] at started
  obtain ⟨parked, released, nodeRun, found, started⟩ := started
  split at started
  · rw [Option.some.injEq] at started
    subst started
    exact parkWork_statement inv released
  · rw [Option.some.injEq] at started
    subst started
    exact .park inv released found rfl fun row member => Or.inl member

theorem Statement.append {before middle after : WorkTables} {fresh : WorkItem}
    (statement : Statement before middle) (appended : after.items = middle.items ++ [fresh])
    (sameTimers : after.timers = middle.timers) (ready : fresh.state = .ready)
    (freshID : fresh.id ∉ middle.items.map WorkItem.id)
    (untouched : ∀ item ∈ before.items, item.nodeRun = fresh.nodeRun → item.state ≠ .cancelled)
    (noneCancelled : ∀ next ∈ middle.items, next.state = .cancelled → next ∈ before.items) :
    Statement before after := by
  refine ⟨?_, ?_, ?_, ?_, ?_⟩
  · rw [appended]
    exact Table.keys_append_nodup statement.distinct freshID
  · intro item member
    obtain ⟨next, nextMember, evolved⟩ := statement.carried item member
    exact ⟨next, by rw [appended]; exact List.mem_append_left _ nextMember, evolved⟩
  · intro next member
    rw [appended] at member
    rcases List.mem_append.mp member with old | new
    · exact statement.origin next old
    · rw [List.mem_singleton] at new
      subst new
      exact Or.inr ⟨ready, untouched⟩
  · exact fun timer member => statement.armed timer (sameTimers ▸ member)
  · intro next member isCancelled
    rw [appended] at member
    rcases List.mem_append.mp member with old | new
    · exact Or.inl (noneCancelled next old isCancelled)
    · rw [List.mem_singleton] at new
      subst new
      rw [ready] at isCancelled
      contradiction

theorem not_any_id {items : List WorkItem} {id : Nat} (absent : items.any (·.id = id) = false) :
    id ∉ items.map WorkItem.id := by
  intro member
  obtain ⟨item, itemMember, same⟩ := List.mem_map.mp member
  have none := List.any_eq_false.mp absent item itemMember
  simp [same] at none

theorem completeWork_statement {tables next : WorkTables} {claim : Claim}
    {retry : Option (Nat × Nat)} (inv : WorkInvariant tables)
    (completed : WorkSystem.completeWork tables claim retry = some next) :
    Statement tables next := by
  simp only [WorkSystem.completeWork, Option.bind_eq_bind, Option.bind_eq_some_iff] at completed
  obtain ⟨done, finished, nodeRun, found, completed⟩ := completed
  obtain ⟨⟨item, member, held⟩, isUpdate⟩ := updateItems?_eq_some finished
  have statement : Statement tables done := by
    subst isUpdate
    refine .update inv rfl (fun row _ heldRow => ⟨?_, ?_⟩) (fun _ => rfl) (.same rfl)
    · exact .moved (WorkItem.heldBy_live heldRow) rfl rfl rfl
    · exact WorkState.noConfusion
  cases retry with
  | none =>
      rw [Option.some.injEq] at completed
      exact completed ▸ statement
  | some fresh =>
      simp only at completed
      split at completed
      · contradiction
      · rename_i absent
        rw [Option.some.injEq] at completed
        subst completed
        refine statement.append rfl rfl rfl (not_any_id (by simpa using absent)) ?_ ?_
        · intro other otherMember sameRun isCancelled
          have parkedAgain : tables.parkWork claim = some (tables.updateItems (·.heldBy claim)
              (·.parked)) := if_pos (List.any_eq_true.mpr ⟨item, member, held⟩)
          obtain ⟨holder, holderMember, holderRun, holderHeld⟩ :=
            parkWork_nodeRun inv parkedAgain found
          have dead := (inv.quiet other otherMember isCancelled).items holder holderMember
            (holderRun.trans sameRun.symm)
          rw [WorkItem.heldBy_live holderHeld] at dead
          contradiction
        · intro row rowMember isCancelled
          rw [isUpdate] at rowMember
          obtain ⟨old, oldMember, rfl⟩ := Table.mem_update.mp rowMember
          by_cases hit : old.heldBy claim = true
          · rw [if_pos hit] at isCancelled
            exact WorkState.noConfusion isCancelled
          · rw [if_neg hit]
            exact oldMember

theorem Statement.retire {before after : WorkTables} (selected : Nat → Bool)
    (inv : WorkInvariant before)
    (items : after.items = Table.update before.items
      (fun item => item.live && selected item.nodeRun) (·.cancelled))
    (timers : after.timers = Table.update before.timers
      (fun timer => timer.status = .pending && selected timer.nodeRun)
      (fun timer => { timer with status := .canceled })) : Statement before after := by
  have evolve : ∀ item : WorkItem, (item.live && selected item.nodeRun) = true →
      Evolves item item.cancelled := fun item hit =>
    .moved (Bool.and_eq_true_iff.mp hit).1 rfl rfl rfl
  refine ⟨?_, ?_, ?_, ?_, ?_⟩
  · have keys : after.items.map WorkItem.id = before.items.map WorkItem.id := by
      rw [items]
      exact Table.update_keys fun item => rfl
    rw [keys]
    exact inv.distinct
  · intro item member
    rw [items]
    refine ⟨_, Table.mem_update_of_mem _ _ member, ?_⟩
    split
    · rename_i hit
      exact evolve item hit
    · exact .unchanged
  · intro next member
    rw [items] at member
    obtain ⟨item, itemMember, rfl⟩ := Table.mem_update.mp member
    refine Or.inl ⟨item, itemMember, ?_⟩
    split
    · rename_i hit
      exact evolve item hit
    · exact .unchanged
  · exact Armed.update timers (fun _ => ⟨rfl, rfl⟩) (fun timer _ pending => by
      simp only at pending
      contradiction)
  · intro next member isCancelled
    rw [items] at member
    obtain ⟨item, itemMember, rfl⟩ := Table.mem_update.mp member
    by_cases hit : (item.live && selected item.nodeRun) = true
    · rw [if_pos hit]
      have chosen : selected item.nodeRun = true := (Bool.and_eq_true_iff.mp hit).2
      refine Or.inr ⟨fun other otherMember same => ?_, fun timer timerMember same wakes pending => ?_⟩
      · rw [items] at otherMember
        obtain ⟨old, _, rfl⟩ := Table.mem_update.mp otherMember
        by_cases retired : (old.live && selected old.nodeRun) = true
        · rw [if_pos retired]
          rfl
        · rw [if_neg retired] at same ⊢
          have sameRun : old.nodeRun = item.nodeRun := same
          simpa [sameRun, chosen] using retired
      · rw [timers] at timerMember
        obtain ⟨old, _, rfl⟩ := Table.mem_update.mp timerMember
        by_cases retired : (old.status = .pending && selected old.nodeRun) = true
        · rw [if_pos retired] at pending
          exact TimerStatus.noConfusion pending
        · rw [if_neg retired] at same pending
          have sameRun : old.nodeRun = item.nodeRun := same
          simp [sameRun, chosen, pending] at retired
    · rw [if_neg hit]
      exact Or.inl itemMember

theorem claimWork_statement {tables next : WorkTables} {runTerminal claimCode : Bool}
    {isCode : Nat → Bool} {id now lease : Nat} {worker : String} (inv : WorkInvariant tables)
    (claimed : tables.claimWork runTerminal isCode id worker claimCode now lease = some next) :
    Statement tables next := by
  obtain ⟨_, rfl⟩ := updateItems?_eq_some claimed
  refine .update inv rfl (fun item _ due => ⟨?_, ?_⟩) (fun _ => rfl) (.same rfl)
  · simp only [Bool.and_eq_true, decide_eq_true_eq] at due
    exact .claimed worker now lease due.1.1.1.2
  · exact WorkState.noConfusion

theorem reclaimExpired_statement {tables : WorkTables} (runTerminal : Bool) (now : Nat)
    (inv : WorkInvariant tables) : Statement tables (tables.reclaimExpired runTerminal now) := by
  refine .update inv rfl (fun item _ expired => ⟨?_, ?_⟩) (fun _ => rfl) (.same rfl)
  · simp only [Bool.and_eq_true, decide_eq_true_eq] at expired
    exact .moved (by simp [WorkItem.live, expired.1.1]) rfl rfl rfl
  · exact WorkState.noConfusion

theorem guarded_statement {tables next : WorkTables} {guard : WorkItem → Bool}
    {write : WorkItem → WorkItem} (inv : WorkInvariant tables)
    (done : tables.updateItems? guard write = some next)
    (live : ∀ item, guard item = true → item.live = true)
    (keeps : ∀ item, (write item).id = item.id ∧ (write item).nodeRun = item.nodeRun ∧
      (write item).fencingToken = item.fencingToken)
    (notCancelled : ∀ item, guard item = true → (write item).state ≠ .cancelled) :
    Statement tables next := by
  obtain ⟨_, rfl⟩ := updateItems?_eq_some done
  refine .update inv rfl (fun item _ hit => ⟨?_, notCancelled item hit⟩) (fun item => (keeps item).1)
    (.same rfl)
  exact .moved (live item hit) (keeps item).1 (keeps item).2.1 (keeps item).2.2

theorem fireSubscription_statement {tables next : WorkTables} {id now : Nat}
    (inv : WorkInvariant tables) (fired : tables.fireSubscription id now = some next) :
    Statement tables next := by
  unfold WorkTables.fireSubscription at fired
  split at fired
  · contradiction
  · rw [Option.some.injEq] at fired
    subst fired
    refine .update inv rfl (fun item _ waiting => ⟨?_, ?_⟩) (fun _ => rfl) (.same rfl)
    · simp only [Bool.and_eq_true, decide_eq_true_eq] at waiting
      exact .moved (by simp [WorkItem.live, waiting.2]) rfl rfl rfl
    · exact WorkState.noConfusion

/-- The timer effect is not guarded by any lease: it is the invariant that keeps it away from a
cancelled item, for a pending wake-up and a cancelled item never share a node run. -/
theorem fireTimer_statement {tables next : WorkTables} {id now : Nat} {owner : String}
    (inv : WorkInvariant tables) (fired : tables.fireTimer id owner now = some next) :
    Statement tables next := by
  unfold WorkTables.fireTimer at fired
  split at fired
  · contradiction
  · rename_i timer found
    rw [Option.some.injEq] at fired
    have pending : timer.status = .pending := by
      have matched := List.find?_some found
      simp only [Bool.and_eq_true, decide_eq_true_eq] at matched
      exact matched.2
    have armed : Armed tables next := by
      rw [← fired]
      exact Armed.update rfl (fun _ => ⟨rfl, rfl⟩) (fun row _ stillPending => by
        simp only at stillPending
        contradiction)
    cases wakes : timer.wakes with
    | false =>
        refine .timersOnly inv ?_ armed
        rw [← fired, wakes]
        rfl
    | true =>
        have updated : next.items = Table.update tables.items
            (fun item => item.nodeRun = timer.nodeRun && item.state ≠ .completed) (·.woken now) := by
          rw [← fired, wakes]
          rfl
        refine .update inv updated (fun item member reached => ⟨?_, ?_⟩) (fun _ => rfl) armed
        · simp only [Bool.and_eq_true, decide_eq_true_eq] at reached
          have notCancelled : item.state ≠ .cancelled := fun isCancelled =>
            (inv.quiet item member isCancelled).timers timer (List.mem_of_find?_eq_some found)
              reached.1.symm wakes pending
          refine .moved ?_ rfl rfl rfl
          cases state : item.state with
          | completed => exact absurd state reached.2
          | cancelled => exact absurd state notCancelled
          | ready => simp [WorkItem.live, state]
          | leased => simp [WorkItem.live, state]
          | waiting => simp [WorkItem.live, state]
        · exact WorkState.noConfusion

theorem rearmDeadline_statement {tables next : WorkTables} {id nodeRun fireAt : Nat}
    (inv : WorkInvariant tables) (armed : tables.rearmDeadline id nodeRun fireAt = some next) :
    Statement tables next := by
  unfold WorkTables.rearmDeadline at armed
  split at armed
  · contradiction
  · rw [Option.some.injEq] at armed
    subst armed
    refine .timersOnly inv rfl fun timer member wakes pending => ?_
    rcases List.mem_append.mp member with old | new
    · exact Or.inl ⟨timer, old, rfl, wakes, pending⟩
    · rw [List.mem_singleton] at new
      subst new
      simp [Timer.wakes] at wakes

theorem WorkSystem.act_statement {isCode : Nat → Bool} {system next : WorkSystem}
    {action : WorkAction} (inv : WorkInvariant system.tables)
    (acted : system.act isCode action = some next) : Statement system.tables next.tables := by
  cases action with
  | enqueue id nodeRun availableAt =>
      simp only [act] at acted
      split at acted
      · contradiction
      · rename_i absent
        rw [Option.some.injEq] at acted
        subst acted
        simp only [List.any_eq_true, Bool.or_eq_true, decide_eq_true_eq, not_exists, not_and,
          not_or] at absent
        refine (Statement.refl inv).append rfl rfl rfl ?_ ?_ fun row member _ => member
        · intro member
          obtain ⟨item, itemMember, same⟩ := List.mem_map.mp member
          exact (absent item itemMember).1 same
        · exact fun item member same => absurd same (absent item member).2
  | claim id worker claimCode now lease =>
      obtain ⟨tables, claimed, rfl⟩ := Option.map_eq_some_iff.mp acted
      exact claimWork_statement inv claimed
  | reclaimExpired now =>
      rw [← Option.some.inj acted]
      exact reclaimExpired_statement _ now inv
  | extendLease tuple now lease =>
      obtain ⟨tables, done, rfl⟩ := Option.map_eq_some_iff.mp acted
      exact guarded_statement inv done (fun _ => WorkItem.leasedBy_live) (fun _ => ⟨rfl, rfl, rfl⟩)
        (fun item leased => by
          simp only [WorkItem.leasedBy, Bool.and_eq_true, decide_eq_true_eq] at leased
          simp [WorkItem.extended, leased.1.1.2])
  | deferWork tuple availableAt =>
      obtain ⟨tables, done, rfl⟩ := Option.map_eq_some_iff.mp acted
      exact guarded_statement inv done (fun _ => WorkItem.heldBy_live) (fun _ => ⟨rfl, rfl, rfl⟩)
        (fun _ _ => WorkState.noConfusion)
  | completeWork tuple retry =>
      obtain ⟨tables, done, rfl⟩ := Option.map_eq_some_iff.mp acted
      exact completeWork_statement inv done
  | startAsyncWait tuple deadline =>
      obtain ⟨tables, done, rfl⟩ := Option.map_eq_some_iff.mp acted
      exact startAsyncWait_statement inv done
  | startDurableWait tuple timer fireAt =>
      obtain ⟨tables, done, rfl⟩ := Option.map_eq_some_iff.mp acted
      exact startDurableWait_statement inv done
  | startDurableSignalWait tuple subscription eventName =>
      obtain ⟨tables, done, rfl⟩ := Option.map_eq_some_iff.mp acted
      exact startDurableSignalWait_statement inv done
  | resumeWaitingWork tuple now lease =>
      obtain ⟨tables, done, rfl⟩ := Option.map_eq_some_iff.mp acted
      exact guarded_statement inv done (fun _ => WorkItem.parkedFor_live) (fun _ => ⟨rfl, rfl, rfl⟩)
        (fun _ _ => WorkState.noConfusion)
  | reparkResumedWork tuple =>
      obtain ⟨tables, done, rfl⟩ := Option.map_eq_some_iff.mp acted
      exact parkWork_statement inv done
  | fireSubscription id now =>
      obtain ⟨tables, done, rfl⟩ := Option.map_eq_some_iff.mp acted
      exact fireSubscription_statement inv done
  | claimTimer id owner now =>
      rw [← Option.some.inj acted]
      exact .timersOnly inv rfl (.update rfl (fun _ => ⟨rfl, rfl⟩) fun _ _ pending => pending)
  | fireTimer id owner now =>
      obtain ⟨tables, done, rfl⟩ := Option.map_eq_some_iff.mp acted
      exact fireTimer_statement inv done
  | rearmDeadline id nodeRun fireAt =>
      obtain ⟨tables, done, rfl⟩ := Option.map_eq_some_iff.mp acted
      exact rearmDeadline_statement inv done
  | cancelTimer id =>
      rw [← Option.some.inj acted]
      exact .timersOnly inv rfl (.update rfl (fun _ => ⟨rfl, rfl⟩) fun timer _ pending => by
        simp only at pending
        contradiction)
  | reap nodeRuns =>
      rw [← Option.some.inj acted]
      exact .retire nodeRuns.contains inv rfl rfl
  | endRun nodeRuns =>
      rw [← Option.some.inj acted]
      exact .retire nodeRuns.contains inv rfl rfl
  | cancelRun =>
      simp only [act] at acted
      split at acted
      · contradiction
      · rw [← Option.some.inj acted]
        exact .retire (fun _ => true) inv (by simp [WorkTables.cancelAll])
          (by simp [WorkTables.cancelAll])
  | parkFrozen =>
      simp only [act] at acted
      split at acted
      · contradiction
      · rw [← Option.some.inj acted]
        refine .update inv rfl (fun item _ hit => ⟨?_, ?_⟩) (fun _ => rfl) (.same rfl)
        · simp only [Bool.or_eq_true, decide_eq_true_eq] at hit
          refine .moved ?_ rfl rfl rfl
          rcases hit with ready | leased
          · simp [WorkItem.live, ready]
          · simp [WorkItem.live, leased]
        · exact WorkState.noConfusion

end CultureNodes.Store
