import CultureNodes.Library.Tickets
import CultureNodes.Worker.Runs

/-!
The dispatches of a work item against the attempts it has. A claim takes the next attempt of its item
and a deferral gives it back, while a worker whose lease is gone may still go on under a claim of old.
-/

namespace CultureNodes.Worker

open Store Program

/-- What the claims of an item are numbered by. -/
def counter (item : WorkItem) : Nat × Nat × Nat := (item.id, item.fencingToken, item.attempt)

/-- No item is numbered anew, and at most one is added. -/
def Unnumbered (before after : List WorkItem) : Prop :=
  after.map counter = before.map counter ∨
    ∃ id, id ∉ before.map WorkItem.id ∧ after.map counter = before.map counter ++ [(id, 0, 0)]

theorem ids_grown {before after : List WorkItem} {id : Nat}
    (grown : after.map counter = before.map counter ++ [(id, 0, 0)]) :
    after.map WorkItem.id = before.map WorkItem.id ++ [id] := by
  have mapped := congrArg (List.map Prod.fst) grown
  rw [List.map_append, List.map_map, List.map_map] at mapped
  exact mapped

theorem heldBy_counter {item : WorkItem} {claim : Claim} (held : item.heldBy claim = true) :
    item.id = claim.work ∧ item.fencingToken = claim.fencingToken ∧ item.attempt = claim.attempt := by
  simp only [WorkItem.heldBy, Bool.and_eq_true, decide_eq_true_eq] at held
  exact ⟨held.1.1.1.1, held.1.2, held.2⟩

section

variable {tables next : WorkTables} {guard : WorkItem → Bool} {write : WorkItem → WorkItem}
  {claim : Claim} {isCode : Nat → Bool}

theorem updateItems?_counter (written : tables.updateItems? guard write = some next)
    (kept : ∀ item, counter (write item) = counter item) :
    next.items.map counter = tables.items.map counter := by
  obtain ⟨_, rfl⟩ := updateItems?_eq_some written
  exact Table.update_keys kept

theorem parkWork_counter (parked : tables.parkWork claim = some next) :
    next.items.map counter = tables.items.map counter :=
  updateItems?_counter parked fun _ => rfl

theorem completeWork_unnumbered {retry : Option (Nat × Nat)}
    (completed : WorkSystem.completeWork tables claim retry = some next) :
    Unnumbered tables.items next.items := by
  obtain ⟨done, isDone, onward⟩ := Option.bind_eq_some_iff.mp completed
  obtain ⟨nodeRun, _, onward⟩ := Option.bind_eq_some_iff.mp onward
  have same : done.items.map counter = tables.items.map counter :=
    updateItems?_counter isDone fun _ => rfl
  cases retry with
  | none =>
      obtain rfl := Option.some.inj onward
      exact Or.inl same
  | some fresh =>
      dsimp only at onward
      split at onward
      · contradiction
      · rename_i absent
        obtain rfl := Option.some.inj onward
        refine Or.inr ⟨fresh.1, ?_, ?_⟩
        · have ids : done.items.map WorkItem.id = tables.items.map WorkItem.id :=
            Table.keys_eq_map Prod.fst same
          rw [← ids]
          exact not_any_id (Bool.eq_false_iff.mpr absent)
        · rw [WorkTables.enqueueWork, List.map_append, same]
          rfl

theorem startAsyncWait_counter {deadline : Option (Nat × Nat)}
    (started : tables.startAsyncWait claim deadline = some next) :
    next.items.map counter = tables.items.map counter := by
  obtain ⟨parked, isParked, onward⟩ := Option.bind_eq_some_iff.mp started
  obtain ⟨nodeRun, _, onward⟩ := Option.bind_eq_some_iff.mp onward
  have same := parkWork_counter isParked
  cases deadline with
  | none =>
      obtain rfl := Option.some.inj onward
      exact same
  | some timer =>
      dsimp only at onward
      split at onward
      · contradiction
      · obtain rfl := Option.some.inj onward
        exact same

/-- Every statement but a claim and a deferral leaves the items numbered as they are. -/
theorem act_unnumbered {work after : WorkSystem} {action : WorkAction}
    (acted : work.act isCode action = some after) (elsewhere : byWorker action = false) :
    Unnumbered work.tables.items after.tables.items := by
  cases action with
  | claim id worker claimCode now lease => contradiction
  | deferWork claim availableAt => contradiction
  | enqueue id nodeRun availableAt =>
      simp only [WorkSystem.act] at acted
      split at acted
      · contradiction
      · rename_i absent
        obtain rfl := Option.some.inj acted
        refine Or.inr ⟨id, fun member => absent ?_, List.map_append⟩
        obtain ⟨item, isItem, same⟩ := List.mem_map.mp member
        exact List.any_eq_true.mpr ⟨item, isItem, by simp [same]⟩
  | completeWork claim retry =>
      obtain ⟨next, completed, rfl⟩ := Option.map_eq_some_iff.mp acted
      exact completeWork_unnumbered completed
  | startAsyncWait claim deadline =>
      obtain ⟨next, started, rfl⟩ := Option.map_eq_some_iff.mp acted
      exact Or.inl (startAsyncWait_counter started)
  | reclaimExpired now =>
      obtain rfl := Option.some.inj acted
      exact Or.inl (Table.update_keys fun _ => rfl)
  | extendLease claim now lease =>
      obtain ⟨next, written, rfl⟩ := Option.map_eq_some_iff.mp acted
      exact Or.inl (updateItems?_counter written fun _ => rfl)
  | resumeWaitingWork claim now lease =>
      obtain ⟨next, written, rfl⟩ := Option.map_eq_some_iff.mp acted
      exact Or.inl (updateItems?_counter written fun _ => rfl)
  | reparkResumedWork claim =>
      obtain ⟨next, written, rfl⟩ := Option.map_eq_some_iff.mp acted
      exact Or.inl (parkWork_counter written)
  | startDurableWait claim timer fireAt =>
      obtain ⟨next, started, rfl⟩ := Option.map_eq_some_iff.mp acted
      obtain ⟨parked, isParked, onward⟩ := Option.bind_eq_some_iff.mp started
      obtain ⟨nodeRun, _, onward⟩ := Option.bind_eq_some_iff.mp onward
      have same := parkWork_counter isParked
      split at onward
      · obtain rfl := Option.some.inj onward
        exact Or.inl same
      · obtain rfl := Option.some.inj onward
        exact Or.inl same
  | startDurableSignalWait claim subscription eventName =>
      obtain ⟨next, started, rfl⟩ := Option.map_eq_some_iff.mp acted
      obtain ⟨parked, isParked, onward⟩ := Option.bind_eq_some_iff.mp started
      obtain ⟨nodeRun, _, onward⟩ := Option.bind_eq_some_iff.mp onward
      have same := parkWork_counter isParked
      split at onward
      · obtain rfl := Option.some.inj onward
        exact Or.inl same
      · obtain rfl := Option.some.inj onward
        exact Or.inl same
  | fireSubscription id now =>
      obtain ⟨next, fired, rfl⟩ := Option.map_eq_some_iff.mp acted
      unfold WorkTables.fireSubscription at fired
      split at fired
      · contradiction
      · obtain rfl := Option.some.inj fired
        exact Or.inl (Table.update_keys fun _ => rfl)
  | claimTimer id owner now =>
      obtain rfl := Option.some.inj acted
      exact Or.inl rfl
  | fireTimer id owner now =>
      obtain ⟨next, fired, rfl⟩ := Option.map_eq_some_iff.mp acted
      unfold WorkTables.fireTimer at fired
      split at fired
      · contradiction
      · obtain rfl := Option.some.inj fired
        dsimp only
        split
        · exact Or.inl (Table.update_keys fun _ => rfl)
        · exact Or.inl rfl
  | rearmDeadline id nodeRun fireAt =>
      obtain ⟨next, armed, rfl⟩ := Option.map_eq_some_iff.mp acted
      unfold WorkTables.rearmDeadline at armed
      split at armed
      · contradiction
      · obtain rfl := Option.some.inj armed
        exact Or.inl rfl
  | cancelTimer id =>
      obtain rfl := Option.some.inj acted
      exact Or.inl rfl
  | reap nodeRuns =>
      obtain rfl := Option.some.inj acted
      exact Or.inl (Table.update_keys fun _ => rfl)
  | endRun nodeRuns =>
      obtain rfl := Option.some.inj acted
      exact Or.inl (Table.update_keys fun _ => rfl)
  | cancelRun =>
      simp only [WorkSystem.act] at acted
      split at acted
      · contradiction
      · obtain rfl := Option.some.inj acted
        exact Or.inl (Table.update_keys fun _ => rfl)
  | parkFrozen =>
      simp only [WorkSystem.act] at acted
      split at acted
      · contradiction
      · obtain rfl := Option.some.inj acted
        exact Or.inl (Table.update_keys fun _ => rfl)

end

def tickets (claims : List Claim) (id : Nat) : List (Nat × Nat) :=
  (claims.filter (·.work = id)).map fun claim => (claim.fencingToken, claim.attempt)

/-- The claims that may still come to an invocation, or have come to one, are numbered apart. -/
structure Numbered (items : List WorkItem) (claims : List Claim) : Prop where
  ids : (items.map WorkItem.id).Nodup
  outstanding : ∀ item ∈ items, Outstanding item.fencingToken item.attempt (tickets claims item.id)
  known : ∀ claim ∈ claims, claim.work ∈ items.map WorkItem.id

namespace Numbered

variable {items after : List WorkItem} {claims other : List Claim} {claim : Claim} {item : WorkItem}

theorem perm (numbered : Numbered items claims) (permuted : claims.Perm other) :
    Numbered items other where
  ids := numbered.ids
  outstanding := fun item isItem =>
    (numbered.outstanding item isItem).perm ((permuted.filter _).map _)
  known := fun claim member => numbered.known claim (permuted.mem_iff.mpr member)

theorem of_sublist (numbered : Numbered items claims) (sublist : other.Sublist claims) :
    Numbered items other where
  ids := numbered.ids
  outstanding := fun item isItem =>
    (numbered.outstanding item isItem).of_sublist ((sublist.filter _).map _)
  known := fun claim member => numbered.known claim (sublist.subset member)

theorem outstanding_of_counter {old : WorkItem} (numbered : Numbered items claims)
    (isOld : old ∈ items) (same : counter old = counter item) :
    Outstanding item.fencingToken item.attempt (tickets claims item.id) := by
  obtain ⟨sameID, sameRest⟩ := Prod.mk.inj same
  obtain ⟨sameToken, sameAttempt⟩ := Prod.mk.inj sameRest
  rw [← sameID, ← sameToken, ← sameAttempt]
  exact numbered.outstanding old isOld

theorem unnumbered (numbered : Numbered items claims) (same : Unnumbered items after) :
    Numbered after claims := by
  rcases same with same | ⟨id, fresh, grown⟩
  · have ids : after.map WorkItem.id = items.map WorkItem.id := Table.keys_eq_map Prod.fst same
    constructor
    case ids => rw [ids]; exact numbered.ids
    case known => rw [ids]; exact numbered.known
    case outstanding =>
      intro item isItem
      obtain ⟨old, isOld, sameCounter⟩ := Table.exists_of_keys_eq same isItem
      exact numbered.outstanding_of_counter isOld sameCounter
  · have ids := ids_grown grown
    constructor
    case ids =>
      rw [ids]
      exact List.nodup_append.mpr ⟨numbered.ids, List.nodup_singleton _, by simpa using fresh⟩
    case known =>
      intro claim member
      rw [ids]
      exact List.mem_append_left _ (numbered.known claim member)
    case outstanding =>
      intro item isItem
      have counted : counter item ∈ items.map counter ++ [(id, 0, 0)] :=
        grown ▸ List.mem_map_of_mem isItem
      rcases List.mem_append.mp counted with old | new
      · obtain ⟨old, isOld, sameCounter⟩ := List.mem_map.mp old
        exact numbered.outstanding_of_counter isOld sameCounter
      · have isFresh : item.id = id := congrArg Prod.fst (List.mem_singleton.mp new)
        have unclaimed : tickets claims item.id = [] := by
          rw [tickets, List.map_eq_nil_iff, List.filter_eq_nil_iff]
          intro claim member isClaim
          rw [decide_eq_true_eq] at isClaim
          exact fresh (isFresh ▸ isClaim ▸ numbered.known claim member)
        rw [unclaimed]
        exact Outstanding.nil

theorem claimed {guard : WorkItem → Bool} {worker : String} {now lease : Nat}
    (numbered : Numbered items claims) (isItem : item ∈ items) (hit : guard item = true)
    (only : ∀ other, guard other = true → other.id = item.id) :
    Numbered (Table.update items guard (·.claimed worker now lease))
      (⟨item.id, worker, item.fencingToken + 1, item.attempt + 1⟩ :: claims) := by
  have ids : (Table.update items guard (·.claimed worker now lease)).map WorkItem.id =
    items.map WorkItem.id := Table.update_keys fun _ => rfl
  constructor
  case ids => rw [ids]; exact numbered.ids
  case known =>
    intro claim member
    rw [ids]
    rcases List.mem_cons.mp member with rfl | old
    · exact List.mem_map_of_mem isItem
    · exact numbered.known claim old
  case outstanding =>
    intro row isRow
    rcases Table.mem_update_one numbered.ids isItem hit only isRow with rfl | ⟨isOld, others⟩
    · have own : tickets (⟨item.id, worker, item.fencingToken + 1, item.attempt + 1⟩ :: claims)
          item.id = (item.fencingToken + 1, item.attempt + 1) :: tickets claims item.id := by
        simp [tickets]
      change Outstanding (item.fencingToken + 1) (item.attempt + 1) (tickets _ item.id)
      rw [own]
      exact (numbered.outstanding item isItem).issue
    · have others : tickets (⟨item.id, worker, item.fencingToken + 1, item.attempt + 1⟩ :: claims)
          row.id = tickets claims row.id := by
        simp [tickets, others.symm]
      rw [others]
      exact numbered.outstanding row isOld

/-- A deferral takes the attempt of its claim back, and the claim comes to nothing more. -/
theorem deferred {availableAt : Nat} (numbered : Numbered items (claim :: claims))
    (isItem : item ∈ items) (held : item.heldBy claim = true) :
    Numbered (Table.update items (·.heldBy claim) (·.deferred availableAt)) claims := by
  have ids : (Table.update items (·.heldBy claim) (·.deferred availableAt)).map WorkItem.id =
    items.map WorkItem.id := Table.update_keys fun _ => rfl
  obtain ⟨isWork, isToken, isAttempt⟩ := heldBy_counter held
  constructor
  case ids => rw [ids]; exact numbered.ids
  case known =>
    intro other member
    rw [ids]
    exact numbered.known other (List.mem_cons_of_mem _ member)
  case outstanding =>
    intro row isRow
    rcases Table.mem_update_one numbered.ids isItem held
      (fun other isHeld => (heldBy_counter isHeld).1.trans isWork.symm) isRow with
      rfl | ⟨isOld, others⟩
    · have own : tickets (claim :: claims) item.id =
          (item.fencingToken, item.attempt) :: tickets claims item.id := by
        simp [tickets, isWork, isToken, isAttempt]
      have before := numbered.outstanding item isItem
      rw [own] at before
      exact before.giveBack
    · exact (numbered.of_sublist (List.sublist_cons_self _ _)).outstanding row isOld

theorem length_le {limit id : Nat} (numbered : Numbered items claims)
    (within : ∀ claim ∈ claims, claim.attempt ≤ limit) :
    (claims.filter (·.work = id)).length ≤ limit := by
  by_cases known : id ∈ items.map WorkItem.id
  · obtain ⟨item, isItem, rfl⟩ := List.mem_map.mp known
    have few : (tickets claims item.id).length ≤ limit := by
      refine (numbered.outstanding item isItem).length_le fun ticket isTicket => ?_
      obtain ⟨claim, member, rfl⟩ := List.mem_map.mp isTicket
      exact within claim (List.mem_of_mem_filter member)
    rwa [tickets, List.length_map] at few
  · have unclaimed : claims.filter (·.work = id) = [] := by
      rw [List.filter_eq_nil_iff]
      intro claim member isClaim
      rw [decide_eq_true_eq] at isClaim
      exact known (isClaim ▸ numbered.known claim member)
    rw [unclaimed]
    exact Nat.zero_le _

end Numbered

/-- The attempts an item has used are the claims made of it, less those whose deferral committed. -/
structure Balanced (items : List WorkItem) (issued deferrals : List Claim) : Prop where
  issuedKnown : ∀ claim ∈ issued, claim.work ∈ items.map WorkItem.id
  deferralsKnown : ∀ claim ∈ deferrals, claim.work ∈ items.map WorkItem.id
  balance : ∀ item ∈ items, item.attempt + deferrals.countP (·.work = item.id) =
    issued.countP (·.work = item.id)

namespace Balanced

variable {items after : List WorkItem} {issued deferrals : List Claim} {claim : Claim}
  {item : WorkItem}

theorem balance_of_counter {old : WorkItem} (balanced : Balanced items issued deferrals)
    (isOld : old ∈ items) (same : counter old = counter item) :
    item.attempt + deferrals.countP (·.work = item.id) = issued.countP (·.work = item.id) := by
  obtain ⟨sameID, sameRest⟩ := Prod.mk.inj same
  obtain ⟨_, sameAttempt⟩ := Prod.mk.inj sameRest
  rw [← sameID, ← sameAttempt]
  exact balanced.balance old isOld

theorem unnumbered (balanced : Balanced items issued deferrals) (same : Unnumbered items after) :
    Balanced after issued deferrals := by
  rcases same with same | ⟨id, fresh, grown⟩
  · have ids : after.map WorkItem.id = items.map WorkItem.id := Table.keys_eq_map Prod.fst same
    constructor
    case issuedKnown => rw [ids]; exact balanced.issuedKnown
    case deferralsKnown => rw [ids]; exact balanced.deferralsKnown
    case balance =>
      intro item isItem
      obtain ⟨old, isOld, sameCounter⟩ := Table.exists_of_keys_eq same isItem
      exact balanced.balance_of_counter isOld sameCounter
  · have ids := ids_grown grown
    constructor
    case issuedKnown =>
      intro claim member
      rw [ids]
      exact List.mem_append_left _ (balanced.issuedKnown claim member)
    case deferralsKnown =>
      intro claim member
      rw [ids]
      exact List.mem_append_left _ (balanced.deferralsKnown claim member)
    case balance =>
      intro item isItem
      have counted : counter item ∈ items.map counter ++ [(id, 0, 0)] :=
        grown ▸ List.mem_map_of_mem isItem
      rcases List.mem_append.mp counted with old | new
      · obtain ⟨old, isOld, sameCounter⟩ := List.mem_map.mp old
        exact balanced.balance_of_counter isOld sameCounter
      · obtain ⟨isFresh, unused⟩ := Prod.mk.inj (List.mem_singleton.mp new)
        have none : ∀ claims : List Claim, (∀ claim ∈ claims, claim.work ∈ items.map WorkItem.id) →
            claims.countP (·.work = item.id) = 0 := by
          intro claims known
          rw [List.countP_eq_zero]
          intro claim member isClaim
          rw [decide_eq_true_eq] at isClaim
          exact fresh (isFresh ▸ isClaim ▸ known claim member)
        rw [none issued balanced.issuedKnown, none deferrals balanced.deferralsKnown, (Prod.mk.inj unused).2]

theorem claimed {guard : WorkItem → Bool} {worker : String} {now lease : Nat}
    (balanced : Balanced items issued deferrals) (distinct : (items.map WorkItem.id).Nodup)
    (isItem : item ∈ items) (hit : guard item = true)
    (only : ∀ other, guard other = true → other.id = item.id) :
    Balanced (Table.update items guard (·.claimed worker now lease))
      (issued ++ [⟨item.id, worker, item.fencingToken + 1, item.attempt + 1⟩]) deferrals := by
  have ids : (Table.update items guard (·.claimed worker now lease)).map WorkItem.id =
    items.map WorkItem.id := Table.update_keys fun _ => rfl
  constructor
  case issuedKnown =>
    intro claim member
    rw [ids]
    rcases List.mem_append.mp member with old | new
    · exact balanced.issuedKnown claim old
    · rw [List.mem_singleton] at new
      rw [new]
      exact List.mem_map_of_mem isItem
  case deferralsKnown => rw [ids]; exact balanced.deferralsKnown
  case balance =>
    intro row isRow
    rw [List.countP_append]
    rcases Table.mem_update_one distinct isItem hit only isRow with rfl | ⟨isOld, others⟩
    · have before := balanced.balance item isItem
      have one : [(⟨item.id, worker, item.fencingToken + 1, item.attempt + 1⟩ : Claim)].countP
        (·.work = item.id) = 1 := by simp
      change item.attempt + 1 + deferrals.countP (·.work = item.id) =
        issued.countP (·.work = item.id) + List.countP (fun claim : Claim => claim.work = item.id) _
      rw [one]
      omega
    · have before := balanced.balance row isOld
      simpa [others.symm] using before

theorem deferred {availableAt : Nat} (balanced : Balanced items issued deferrals)
    (distinct : (items.map WorkItem.id).Nodup) (isItem : item ∈ items)
    (held : item.heldBy claim = true) (used : 0 < item.attempt) :
    Balanced (Table.update items (·.heldBy claim) (·.deferred availableAt)) issued
      (deferrals ++ [claim]) := by
  have ids : (Table.update items (·.heldBy claim) (·.deferred availableAt)).map WorkItem.id =
    items.map WorkItem.id := Table.update_keys fun _ => rfl
  constructor
  case issuedKnown => rw [ids]; exact balanced.issuedKnown
  case deferralsKnown =>
    intro other member
    rw [ids]
    rcases List.mem_append.mp member with old | new
    · exact balanced.deferralsKnown other old
    · rw [List.mem_singleton] at new
      rw [new, ← (heldBy_counter held).1]
      exact List.mem_map_of_mem isItem
  case balance =>
    intro row isRow
    rw [List.countP_append]
    rcases Table.mem_update_one distinct isItem held
      (fun other isHeld => (heldBy_counter isHeld).1.trans (heldBy_counter held).1.symm) isRow with
      rfl | ⟨isOld, others⟩
    · have before := balanced.balance item isItem
      have one : [claim].countP (·.work = item.id) = 1 := by simp [heldBy_counter held]
      change item.attempt - 1 + (deferrals.countP (·.work = item.id) + [claim].countP (·.work = item.id)) =
        issued.countP (·.work = item.id)
      rw [one]
      omega
    · have before := balanced.balance row isOld
      rw [(heldBy_counter held).1] at others
      simpa [others.symm] using before

end Balanced

/-- The calls after which a dispatch neither invokes its actor nor releases its work. -/
def DispatchStatement.settles : DispatchStatement → Bool
  | .invoke _ _ => true
  | .deferWork _ => true
  | _ => false

section

variable {world : DispatchWorld} {tables : DispatchTables} {dispatch : Dispatch}
  {statement : DispatchStatement}

theorem execute_unsettling (other : statement.settles = false) :
    (execute world tables dispatch statement).1.invocations = tables.invocations ∧
      (execute world tables dispatch statement).1.deferrals = tables.deferrals ∧
      Unnumbered tables.work.tables.items
        (execute world tables dispatch statement).1.work.tables.items := by
  let fits : DispatchTables → Prop := fun after => after.invocations = tables.invocations ∧
    after.deferrals = tables.deferrals ∧ Unnumbered tables.work.tables.items after.work.tables.items
  have unwritten : fits tables := ⟨rfl, rfl, Or.inl rfl⟩
  change fits (execute world tables dispatch statement).1
  cases statement with
  | invoke actorRef cold => contradiction
  | deferWork availableAt => contradiction
  | complete completion =>
      refine DispatchWorld.claimWrite_fits fits unwritten fun written isWritten => ?_
      obtain ⟨work, completed, rfl⟩ := Option.map_eq_some_iff.mp isWritten
      exact ⟨rfl, rfl, completeWork_unnumbered completed⟩
  | startAsyncWait =>
      refine DispatchWorld.claimWrite_fits fits unwritten fun written isWritten => ?_
      obtain ⟨work, started, rfl⟩ := Option.map_eq_some_iff.mp isWritten
      exact ⟨rfl, rfl, Or.inl (startAsyncWait_counter started)⟩
  | consumePreflight id now => exact DispatchWorld.write_fits fits unwritten unwritten
  | issuePreflight actorKey issuedAt expiresAt =>
      exact DispatchWorld.write_fits fits unwritten unwritten
  | recordSessionStart actorRef =>
      refine DispatchWorld.write_fits fits unwritten ?_
      split <;> exact unwritten
  | _ =>
      first
      | exact unwritten
      | (rw [execute, DispatchWorld.read_tables]; exact unwritten)

/-- Such a call leaves the dispatch as far as it was. -/
theorem after_unsettling (past : DispatchPast) (other : statement.settles = false)
    (answer : statement.Answer) : (past.after statement answer).settled = past.settled := by
  cases statement with
  | invoke actorRef cold => contradiction
  | deferWork availableAt => contradiction
  | runSessionStarts => cases answer <;> rfl
  | recordSessionStart actorRef => cases answer <;> rfl
  | _ => rfl

end

namespace DispatchSystem

/-- The claims of the dispatches that may still invoke their actor or release their work. -/
def unsettled (threads : List DispatchThread) : List Claim :=
  (threads.filter (!·.past.settled)).map (·.owner.claim)

/-- The claims that may still come to an invocation, or have come to one. -/
def standing (system : DispatchSystem) : List Claim :=
  system.claims ++ unsettled system.threads ++ system.tables.invocations.map (·.claim)

variable {options : WorkerOptions} {budget : Budget} {isCode : Nat → Bool}
  {system next : DispatchSystem}

section

variable {world : DispatchWorld} {index : Nat} {thread : DispatchThread}
  {statement : DispatchStatement} {rest : statement.Answer → DispatchProgram DispatchOutcome}

theorem threads_called (isThread : system.threads[index]? = some thread) :
    ∃ front back, system.threads = front ++ thread :: back ∧
      (system.called world index thread statement rest).threads =
        front ++ goesOn world system.tables thread statement rest :: back := by
  obtain ⟨within, isAt⟩ := List.getElem?_eq_some_iff.mp isThread
  obtain ⟨front, back, isList, _, isSet⟩ := List.exists_of_set within
  rw [isAt] at isList
  exact ⟨front, back, isList, isSet⟩

theorem unsettled_called_same (isThread : system.threads[index]? = some thread)
    (same : (goesOn world system.tables thread statement rest).past.settled = thread.past.settled) :
    unsettled (system.called world index thread statement rest).threads =
      unsettled system.threads := by
  obtain ⟨front, back, isList, isSet⟩ := threads_called isThread
  rw [isSet, isList, unsettled, unsettled]
  simp only [List.filter_append, List.filter_cons, same, List.map_append]
  split <;> rfl

theorem unsettled_called_settled (isThread : system.threads[index]? = some thread)
    (before : thread.past.settled = false)
    (settled : (goesOn world system.tables thread statement rest).past.settled = true) :
    (unsettled system.threads).Perm
      (thread.owner.claim ::
        unsettled (system.called world index thread statement rest).threads) := by
  obtain ⟨front, back, isList, isSet⟩ := threads_called isThread
  rw [isSet, isList, unsettled, unsettled]
  simp only [List.filter_append, List.filter_cons, before, settled, List.map_append, Bool.not_false,
    Bool.not_true, if_true, Bool.false_eq_true, if_false, List.map_cons]
  exact List.perm_middle

end

/-- What a run keeps to about the attempts of its work. -/
structure Metered (budget : Budget) (system : DispatchSystem) : Prop where
  followed : Followed budget system.threads
  numbered : Numbered system.tables.work.tables.items system.standing
  balanced : Balanced system.tables.work.tables.items system.issued system.tables.deferrals
  within : ∀ invocation ∈ system.tables.invocations, invocation.claim.attempt ≤ maxDispatchAttempts

namespace Metered

theorem initial : Metered budget {} where
  followed := fun _ member => absurd member List.not_mem_nil
  numbered :=
    ⟨List.nodup_nil, fun _ member => absurd member List.not_mem_nil,
      fun _ member => absurd member List.not_mem_nil⟩
  balanced :=
    ⟨fun _ member => absurd member List.not_mem_nil, fun _ member => absurd member List.not_mem_nil,
      fun _ member => absurd member List.not_mem_nil⟩
  within := fun _ member => absurd member List.not_mem_nil

theorem invocations_le (metered : Metered budget system) (id : Nat) :
    system.tables.invocations.countP (·.claim.work = id) ≤ maxDispatchAttempts := by
  have invoked : Numbered system.tables.work.tables.items
      (system.tables.invocations.map (·.claim)) :=
    metered.numbered.of_sublist (List.sublist_append_right _ _)
  have few : ((system.tables.invocations.map (·.claim)).filter (·.work = id)).length ≤
      maxDispatchAttempts := by
    refine invoked.length_le fun claim member => ?_
    obtain ⟨invocation, isInvocation, rfl⟩ := List.mem_map.mp member
    exact metered.within invocation isInvocation
  rwa [← List.countP_eq_length_filter, List.countP_map] at few

theorem claimed {id now lease : Nat} {worker : String} {claimCode : Bool}
    (metered : Metered budget system)
    (taken : system.act options budget isCode (.claim id worker claimCode now lease) = some next) :
    Metered budget next := by
  have followed := metered.followed.step taken
  obtain ⟨work, item, acted, isItem, rfl⟩ := act_claim taken
  obtain ⟨tables, claimed, rfl⟩ := Option.map_eq_some_iff.mp acted
  obtain ⟨hit, rfl⟩ := updateItems?_eq_some claimed
  obtain ⟨row, isRow, hit⟩ := hit
  have isID : ∀ other : WorkItem, (decide (other.id = id) && decide (other.state = .ready) &&
      decide (other.availableAt ≤ now) && !system.tables.work.runTerminal &&
      (claimCode || !isCode other.nodeRun)) = true → other.id = id := by
    intro other isHit
    simp only [Bool.and_eq_true, decide_eq_true_eq] at isHit
    exact isHit.1.1.1.1
  have only : ∀ other : WorkItem, _ → other.id = row.id :=
    fun other isHit => (isID other isHit).trans (isID row hit).symm
  have found : item.id = id := by simpa using List.find?_some isItem
  have isClaimed : item = row.claimed worker now lease := by
    rcases Table.mem_update_one metered.numbered.ids isRow hit only (List.mem_of_find?_eq_some isItem)
      with claimed | ⟨_, other⟩
    · exact claimed
    · exact absurd (found.trans (isID row hit).symm) other
  have same := isID row hit
  subst isClaimed same
  constructor
  case followed => exact followed
  case numbered =>
    refine (metered.numbered.claimed isRow hit only).perm ?_
    rw [standing, standing, List.append_assoc, List.append_assoc, List.append_assoc]
    exact List.perm_middle.symm
  case balanced => exact metered.balanced.claimed metered.numbered.ids isRow hit only
  case within => exact metered.within

theorem dispatched {claim : Claim} {attempt nodeRun : Nat} {node : DispatchNode}
    (metered : Metered budget system)
    (taken : system.act options budget isCode (.dispatch claim attempt nodeRun node) = some next) :
    Metered budget next := by
  have followed := metered.followed.step taken
  obtain ⟨isHeld, _, rfl⟩ := act_dispatch taken
  refine { metered with followed := followed, numbered := metered.numbered.perm ?_ }
  have moved : unsettled (system.threads ++ [⟨⟨attempt, claim, nodeRun, node⟩, {},
      dispatchActor options budget ⟨attempt, claim, nodeRun, node⟩⟩]) =
      unsettled system.threads ++ [claim] := by
    simp [unsettled, List.filter_append]
  rw [standing, standing, moved]
  refine List.Perm.append_right _ ?_
  rw [← List.append_assoc]
  refine ((List.perm_cons_erase isHeld).append_right _).trans ?_
  exact (List.perm_append_singleton claim _).symm

section

variable {world : DispatchWorld} {index : Nat} {thread : DispatchThread} {actorRef : String}
  {cold : Bool} {availableAt : Int}

/-- A call that neither invokes the actor nor releases the work. -/
theorem called_other {statement : DispatchStatement}
    {rest : statement.Answer → DispatchProgram DispatchOutcome} (metered : Metered budget system)
    (isThread : system.threads[index]? = some thread)
    (followed : Followed budget (system.called world index thread statement rest).threads)
    (other : statement.settles = false) :
    Metered budget (system.called world index thread statement rest) := by
  obtain ⟨invocations, deferrals, same⟩ :=
    @execute_unsettling world system.tables thread.owner statement other
  have standing : (system.called world index thread statement rest).standing = system.standing := by
    rw [standing, standing, unsettled_called_same isThread (after_unsettling _ other _), called,
      invocations]
  constructor
  case followed => exact followed
  case numbered => rw [standing]; exact metered.numbered.unnumbered same
  case balanced => rw [called, deferrals]; exact metered.balanced.unnumbered same
  case within => rw [called, invocations]; exact metered.within

theorem called_invoke {rest : InvocationReply → DispatchProgram DispatchOutcome}
    (metered : Metered budget system) (isThread : system.threads[index]? = some thread)
    (allowed : Allowed budget thread.owner thread.past (.invoke actorRef cold))
    (followed : Followed budget
      (system.called world index thread (.invoke actorRef cold) rest).threads) :
    Metered budget (system.called world index thread (.invoke actorRef cold) rest) := by
  obtain ⟨unsettled, within, _⟩ := allowed
  constructor
  case followed => exact followed
  case numbered =>
    refine metered.numbered.perm ?_
    have moved := @unsettled_called_settled system world index thread (.invoke actorRef cold) rest
      isThread unsettled rfl
    rw [standing, standing, List.append_assoc, List.append_assoc]
    refine List.Perm.append_left _ ((moved.append_right _).trans ?_)
    change (thread.owner.claim :: (_ ++ _)).Perm (_ ++ List.map _ (_ ++ [_]))
    rw [List.map_append, ← List.append_assoc]
    exact (List.perm_append_singleton thread.owner.claim _).symm
  case balanced => exact metered.balanced
  case within =>
    intro invocation invoked
    rcases List.mem_append.mp invoked with old | new
    · exact metered.within invocation old
    · rw [List.mem_singleton] at new
      rw [new]
      simpa [budgetExhausted] using within

theorem called_deferWork {rest : Except ClaimError Unit → DispatchProgram DispatchOutcome}
    (metered : Metered budget system) (isThread : system.threads[index]? = some thread)
    (allowed : Allowed budget thread.owner thread.past (.deferWork availableAt))
    (followed : Followed budget
      (system.called world index thread (.deferWork availableAt) rest).threads) :
    Metered budget (system.called world index thread (.deferWork availableAt) rest) := by
  let others := unsettled (system.called world index thread (.deferWork availableAt) rest).threads
  have moved : (unsettled system.threads).Perm (thread.owner.claim :: others) :=
    unsettled_called_settled isThread allowed rfl
  have before : Numbered system.tables.work.tables.items (thread.owner.claim ::
      (system.claims ++ others ++ system.tables.invocations.map (·.claim))) := by
    refine metered.numbered.perm ?_
    rw [standing, List.append_assoc, List.append_assoc]
    exact ((moved.append_right _).append_left _).trans List.perm_middle
  have after : (execute world system.tables thread.owner (.deferWork availableAt)).1.invocations =
        system.tables.invocations ∧
      Numbered (execute world system.tables thread.owner (.deferWork availableAt)).1.work.tables.items
        (system.claims ++ others ++ system.tables.invocations.map (·.claim)) ∧
      Balanced (execute world system.tables thread.owner (.deferWork availableAt)).1.work.tables.items
        system.issued (execute world system.tables thread.owner (.deferWork availableAt)).1.deferrals := by
    refine DispatchWorld.claimWrite_fits (fun after : DispatchTables =>
      after.invocations = system.tables.invocations ∧
      Numbered after.work.tables.items
        (system.claims ++ others ++ system.tables.invocations.map (·.claim)) ∧
      Balanced after.work.tables.items system.issued after.deferrals) ?_ fun written isWritten => ?_
    · exact ⟨rfl, before.of_sublist (List.sublist_cons_self _ _), metered.balanced⟩
    · obtain ⟨work, deferred, rfl⟩ := Option.map_eq_some_iff.mp isWritten
      obtain ⟨⟨item, isItem, held⟩, rfl⟩ := updateItems?_eq_some deferred
      have used : 0 < item.attempt := by
        have ticket : (thread.owner.claim.fencingToken, thread.owner.claim.attempt) ∈
            tickets (thread.owner.claim ::
              (system.claims ++ others ++ system.tables.invocations.map (·.claim))) item.id := by
          rw [(heldBy_counter held).1]
          simp [tickets]
        have issued := (before.outstanding item isItem).issued _ ticket
        omega
      exact ⟨rfl, before.deferred isItem held,
        metered.balanced.deferred metered.numbered.ids isItem held used⟩
  obtain ⟨invocations, numbered, balanced⟩ := after
  constructor
  case followed => exact followed
  case numbered =>
    have standing : (system.called world index thread (.deferWork availableAt) rest).standing =
        system.claims ++ others ++ system.tables.invocations.map (·.claim) := by
      rw [standing]
      exact congrArg (fun rows : List Invocation => system.claims ++ others ++ rows.map (·.claim))
        invocations
    rw [standing]
    exact numbered
  case balanced => exact balanced
  case within => rw [called, invocations]; exact metered.within

end

theorem step {action : DispatchAction} (metered : Metered budget system)
    (taken : system.act options budget isCode action = some next) : Metered budget next := by
  have followed := metered.followed.step taken
  cases action with
  | claim id worker claimCode now lease => exact metered.claimed taken
  | dispatch claim attempt nodeRun node => exact metered.dispatched taken
  | advance index world =>
      obtain ⟨thread, statement, rest, isThread, isRest, rfl⟩ := act_advance taken
      have allowed := metered.followed.allowed isThread isRest
      cases statement with
      | invoke actorRef cold => exact metered.called_invoke isThread allowed followed
      | deferWork availableAt => exact metered.called_deferWork isThread allowed followed
      | _ => exact metered.called_other isThread followed rfl
  | acknowledge id now =>
      obtain rfl := Option.some.inj taken
      exact ⟨followed, metered.numbered, metered.balanced, metered.within⟩
  | elsewhere action =>
      obtain ⟨elsewhere, work, acted, rfl⟩ := act_elsewhere taken
      have same := act_unnumbered acted elsewhere
      exact ⟨followed, metered.numbered.unnumbered same, metered.balanced.unnumbered same,
        metered.within⟩

end Metered

/-- Whatever the claims, lease expiries, deferrals, parks and resumes of a run, and however late a worker
acts on a claim of old, the dispatches of a work item come to no more invocations than it has attempts.
The attempts it has used are its claims, less those whose deferral committed. -/
theorem invocations_within_attempts (options : WorkerOptions) (budget : Budget) (isCode : Nat → Bool)
    (run : Steps (step options budget isCode) anyAction {} system) :
    (∀ id, system.tables.invocations.countP (·.claim.work = id) ≤ maxDispatchAttempts) ∧
      ∀ item ∈ system.tables.work.tables.items,
        item.attempt + system.tables.deferrals.countP (·.work = item.id) =
          system.issued.countP (·.work = item.id) := by
  have metered : Metered budget system := run.invariant (Metered budget) Metered.initial
    fun _ _ _ metered _ taken => metered.step taken
  exact ⟨metered.invocations_le, metered.balanced.balance⟩

/-- The node every dispatch of the work is for. -/
def build : DispatchNode := { id := "build", uses := "actor://coder" }

/-- The work is deferred under a pause of its actor, claimed again, lost to another worker with the
lease, and dispatched by both. -/
def contested : List DispatchAction :=
  List.flatten
    [[.elsewhere (.enqueue 1 10 0), .claim 1 "one" false 0 60,
      .dispatch ⟨1, "one", 1, 1⟩ 100 10 build],
     List.replicate 6 (.advance 0 { pause := fun key => some ⟨key, 10⟩ }),
     [.claim 1 "two" false 20 60, .dispatch ⟨1, "two", 2, 1⟩ 200 10 build,
      .elsewhere (.reclaimExpired 100), .claim 1 "three" false 100 60,
      .dispatch ⟨1, "three", 3, 2⟩ 300 10 build],
     List.replicate 8 (.advance 2 {}), List.replicate 8 (.advance 1 {})]

theorem invocations_within_attempts_contested :
    ∃ system, Steps (step {} {} fun _ => false) anyAction {} system ∧
      (system.tables.invocations.map (·.claim.worker), system.tables.deferrals.length,
        system.issued.length) = (["three", "two"], 1, 3) ∧
      (∀ id, system.tables.invocations.countP (·.claim.work = id) ≤ maxDispatchAttempts) ∧
      ∀ item ∈ system.tables.work.tables.items,
        item.attempt + system.tables.deferrals.countP (·.work = item.id) =
          system.issued.countP (·.work = item.id) := by
  have ran : (Steps.ofList (act {} {} fun _ => false) (fun _ _ => true) {} contested).map
      (fun system => (system.tables.invocations.map (·.claim.worker), system.tables.deferrals.length,
        system.issued.length)) = some (["three", "two"], 1, 3) := by
    decide +kernel
  obtain ⟨system, run, reached⟩ := Steps.reaches_of_ofList (fun _ _ _ => trivial) ran
  exact ⟨system, run, reached, invocations_within_attempts {} {} _ run⟩

end DispatchSystem

end CultureNodes.Worker
