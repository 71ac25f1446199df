import CultureNodes.Ledger.Sound

/-!
The reachable states of the ledger: what a step can do, said once, and what holds of every call in
progress in every reachable state.
-/

namespace CultureNodes.Ledger

variable {store : Store} {s next : LedgerState} {id : Nat} {txn : Txn Write Session}

/-- Everything a step can do. -/
inductive Moved (store : Store) (s next : LedgerState) : Action → Prop where
  | started {id : Nat} {call : Call} (free : s.txns id = none)
      (moved : next = s.put id ⟨[], ⟨call, {}, call.script store⟩⟩) : Moved store s next (.start id call)
  | answered {id : Nat} {txn : Txn Write Session} {statement : Statement}
      {onward : Answer statement → Script} (inFlight : s.txns id = some txn)
      (rest : txn.body.rest = .call statement onward) (sameDb : next.db = s.db) (sameLog : next.log = s.log)
      (txns : next.txns = Function.update s.txns id (some (s.answered store txn statement onward)))
      (held : ∀ key, statement.key? = some key ∨ s.holder key = some id → next.holder key = some id)
      (others : ∀ other, other ≠ id → ∀ key, next.holder key = some other ↔ s.holder key = some other) :
      Moved store s next (.advance id)
  | ended {id : Nat} {txn : Txn Write Session} {action : Action} (inFlight : s.txns id = some txn)
      (kind : action = .finish id ∨ action = .abort id)
      (moved : next = { s with toWorld := s.toWorld.finish id }) : Moved store s next action
  | committed {id : Nat} {txn : Txn Write Session} {result : LedgerResult} (inFlight : s.txns id = some txn)
      (rest : txn.body.rest = .done (.ok result))
      (moved : next = { s with
        toWorld := s.commit LedgerDb.apply id txn
        log := s.log ++ [⟨txn.body.call, result, s.db, s.view LedgerDb.apply txn⟩] }) :
      Moved store s next (.finish id)
  | registered {actor : Actor}
      (moved : next = { s with db := { s.db with actors := s.db.actors ++ [actor] } }) :
      Moved store s next (.register actor)

theorem take_eq {taken : LedgerState} {key : Option LockKey} (took : s.take id key = some taken) :
    taken.db = s.db ∧ taken.log = s.log ∧ taken.txns = s.txns ∧
      (∀ other, key = some other ∨ s.holder other = some id → taken.holder other = some id) ∧
      ∀ other, other ≠ id → ∀ any, taken.holder any = some other ↔ s.holder any = some other := by
  cases key with
  | none =>
      cases took
      refine ⟨rfl, rfl, rfl, ?_, fun _ _ _ => Iff.rfl⟩
      intro other mine
      rcases mine with none | mine
      · cases none
      · exact mine
  | some key =>
      obtain ⟨world, acquired, rfl⟩ := Option.map_eq_some_iff.mp took
      obtain ⟨_, same⟩ := World.acquire_eq_some acquired
      refine ⟨by rw [same], rfl, by rw [same], ?_, ?_⟩
      · intro other mine
        rcases mine with here | mine
        · cases here
          exact World.acquire_holds acquired
        · exact World.acquire_keeps acquired mine
      · intro other different any
        exact World.acquire_other acquired different any

theorem moved_of_act {action : Action} (taken : s.act store action = some next) :
    Moved store s next action := by
  cases action with
  | start id call =>
      simp only [LedgerState.act, LedgerState.start] at taken
      cases free : s.txns id with
      | some txn =>
          rw [free] at taken
          cases taken
      | none =>
          rw [free] at taken
          cases taken
          exact .started free rfl
  | advance id =>
      simp only [LedgerState.act, LedgerState.advance] at taken
      cases inFlight : s.txns id with
      | none =>
          rw [inFlight] at taken
          cases taken
      | some txn =>
          rw [inFlight] at taken
          dsimp only at taken
          cases rest : txn.body.rest with
          | done result =>
              rw [rest] at taken
              cases taken
          | call statement onward =>
              rw [rest] at taken
              obtain ⟨middle, took, rfl⟩ := Option.map_eq_some_iff.mp taken
              obtain ⟨sameDb, sameLog, sameTxns, held, others⟩ := take_eq took
              refine .answered inFlight rest sameDb sameLog ?_ held others
              rw [← sameTxns]
              rfl
  | finish id =>
      simp only [LedgerState.act, LedgerState.finish] at taken
      cases inFlight : s.txns id with
      | none =>
          rw [inFlight] at taken
          cases taken
      | some txn =>
          rw [inFlight] at taken
          dsimp only at taken
          cases rest : txn.body.rest with
          | call statement onward =>
              rw [rest] at taken
              cases taken
          | done result =>
              rw [rest] at taken
              cases result with
              | error refusal =>
                  cases taken
                  exact .ended inFlight (Or.inl rfl) rfl
              | ok result =>
                  cases taken
                  exact .committed inFlight rest rfl
  | abort id =>
      simp only [LedgerState.act, LedgerState.abort] at taken
      cases inFlight : s.txns id with
      | none =>
          rw [inFlight] at taken
          cases taken
      | some txn =>
          rw [inFlight] at taken
          cases taken
          exact .ended inFlight (Or.inr rfl) rfl
  | register actor =>
      simp only [LedgerState.act, LedgerState.register] at taken
      split at taken
      · cases taken
      · cases taken
        exact .registered rfl

structure Inv (store : Store) (s : LedgerState) : Prop where
  distinct : (s.db.records.map Record.id).Nodup
  requests : (s.db.reviews.map ReviewRequest.id).Nodup
  sound : ∀ id txn, s.txns id = some txn → Sound store s id txn

theorem inv_init : Inv store LedgerState.init :=
  ⟨List.nodup_nil, List.nodup_nil, fun _ _ inFlight => by cases inFlight⟩

theorem sound_start {call : Call} (distinct : (s.db.records.map Record.id).Nodup) :
    Sound store s id ⟨[], ⟨call, {}, call.script store⟩⟩ where
  keeps := keeps_script call
  writes := rfl
  held _ member := absurd member List.not_mem_nil
  brought _ member := absurd member List.not_mem_nil
  distinct := by simpa using distinct
  found _ member := absurd member List.not_mem_nil
  requests _ member := absurd member List.not_mem_nil
  kinds _ member := absurd member List.not_mem_nil
  versions _ member := absurd member List.not_mem_nil
  opened _ member := absurd member List.not_mem_nil
  marked _ member := absurd member List.not_mem_nil

/-- A step that leaves the database and the locks of a call alone. -/
theorem aside_of_same (sameDb : next.db = s.db)
    (held : ∀ key, s.holder key = some id → next.holder key = some id) : Aside s next id where
  held := held
  later := by
    rw [sameDb]
    exact .refl _
  records := ⟨[], by simp [sameDb], fun _ member => by cases member⟩
  reviews _ _ := by rw [sameDb]

section Commit

variable {result : LedgerResult} (sound : Sound store s id txn)
  (rest : txn.body.rest = .done (.ok result))
include sound rest

theorem Sound.ended : Ended txn.body.seen (.ok result) := by
  have keeps := sound.keeps
  rw [rest] at keeps
  exact keeps

theorem Sound.commit_reviews :
    (∃ records, result = .appended records ∧ (s.view LedgerDb.apply txn).reviews = s.db.reviews) ∨
    (∃ req, result = .requested req ∧ txn.writes = [.request req] ∧
      (s.view LedgerDb.apply txn).reviews = s.db.reviews ++ [req]) ∨
    ∃ reviewID records version, result = .reviewed reviewID records version ∧
      .committed reviewID ∈ txn.writes ∧ (s.view LedgerDb.apply txn).reviews =
        Table.update s.db.reviews (LedgerDb.isOpen reviewID) fun req => { req with status := .committed } := by
  have ended := sound.ended rest
  cases result with
  | appended records =>
      refine Or.inl ⟨records, rfl, ?_⟩
      rw [World.view, sound.writes, ended]
      exact LedgerDb.foldl_reviews s.db records
  | requested req =>
      refine Or.inr (Or.inl ⟨req, rfl, sound.writes.trans ended, ?_⟩)
      rw [World.view, sound.writes, ended]
      rfl
  | reviewed reviewID records version =>
      refine Or.inr (Or.inr ⟨reviewID, records, version, rfl, ?_, ?_⟩)
      · rw [sound.writes, ended.1]
        simp
      · rw [World.view, sound.writes, ended.1, List.foldl_append]
        simp only [List.foldl_cons, List.foldl_nil, LedgerDb.apply, LedgerDb.foldl_reviews]

theorem Sound.commit_aside {other : Nat} (different : other ≠ id)
    (sameDb : next.db = s.view LedgerDb.apply txn)
    (held : ∀ key, s.holder key = some other → next.holder key = some other) : Aside s next other := by
  have apart {key : LockKey} (mine : key ∈ txn.body.seen.locks) : s.holder key ≠ some other := by
    rw [sound.held key mine]
    intro same
    exact different (Option.some.inj same).symm
  constructor
  · exact held
  · rw [sameDb]
    exact LedgerDb.later_foldl s.db txn.writes
  · refine ⟨recordsOf txn.writes, ?_, ?_⟩
    · rw [sameDb]
      exact view_records
    · intro rec member
      exact ⟨apart (sound.brought rec member).run, apart (sound.brought rec member).key⟩
  · intro row theirs
    rw [sameDb]
    rcases sound.commit_reviews rest with ⟨_, _, same⟩ | ⟨req, _, wrote, same⟩ | ⟨review, _, _, _, mark, same⟩
    · rw [same]
    · have asked : .request req ∈ txn.writes := by
        rw [wrote]
        exact List.mem_cons_self
      rw [same, List.mem_append, List.mem_singleton]
      constructor
      · intro member
        rcases member with before | rfl
        · exact before
        · exact absurd theirs (apart (sound.opened _ asked).key)
      · exact Or.inl
    · have named : row.id ≠ review := by
        intro isReview
        rw [isReview] at theirs
        exact apart (sound.marked review mark).1 theirs
      rw [same, Table.mem_update]
      constructor
      · rintro ⟨old, isOld, written⟩
        by_cases hit : LedgerDb.isOpen review old = true
        · rw [if_pos hit] at written
          simp only [LedgerDb.isOpen, Bool.and_eq_true, decide_eq_true_eq] at hit
          rw [written] at named
          exact absurd hit.1 named
        · rw [if_neg hit] at written
          rw [written]
          exact isOld
      · intro member
        refine ⟨row, member, ?_⟩
        rw [if_neg]
        simp [LedgerDb.isOpen, named]

theorem Sound.commit_requests (distinct : (s.db.reviews.map ReviewRequest.id).Nodup) :
    ((s.view LedgerDb.apply txn).reviews.map ReviewRequest.id).Nodup := by
  rcases sound.commit_reviews rest with ⟨_, _, same⟩ | ⟨req, _, wrote, same⟩ | ⟨review, _, _, _, mark, same⟩
  · rw [same]
    exact distinct
  · rw [same]
    apply Table.keys_append_nodup distinct
    have asked : .request req ∈ txn.writes := by
      rw [wrote]
      exact List.mem_cons_self
    intro member
    obtain ⟨row, isRow, named⟩ := List.mem_map.mp member
    exact (sound.opened req asked).fresh row isRow named
  · have keys : ((s.view LedgerDb.apply txn).reviews.map ReviewRequest.id) = s.db.reviews.map ReviewRequest.id := by
      rw [same]
      exact Table.update_keys fun _ => rfl
    rw [keys]
    exact distinct

end Commit

/-- A step of other calls keeps what is true of this one. -/
theorem Inv.aside {other : Nat} {rival : Txn Write Session} (inv : Inv store s)
    (inFlight : s.txns other = some rival) (aside : Aside s next other)
    (distinct : (next.db.records.map Record.id).Nodup) : Sound store next other rival :=
  (inv.sound other rival inFlight).aside aside distinct

theorem Inv.act {action : Action} (inv : Inv store s) (taken : s.act store action = some next) :
    Inv store next := by
  cases moved_of_act taken with
  | started free moved =>
      rename_i id call
      subst moved
      refine ⟨inv.distinct, inv.requests, ?_⟩
      intro other rival inFlight
      have aside : Aside s (s.put id ⟨[], ⟨call, {}, call.script store⟩⟩) other :=
        aside_of_same rfl fun _ mine => mine
      rcases World.inFlight_update inFlight with ⟨rfl, rfl⟩ | ⟨_, before⟩
      · exact (sound_start inv.distinct).aside aside inv.distinct
      · exact inv.aside before aside inv.distinct
  | answered inFlight rest sameDb sameLog txns held others =>
      rename_i id txn statement onward
      refine ⟨by rw [sameDb]; exact inv.distinct, by rw [sameDb]; exact inv.requests, ?_⟩
      intro other rival rivalInFlight
      rw [txns] at rivalInFlight
      rcases World.inFlight_update rivalInFlight with ⟨rfl, rfl⟩ | ⟨different, before⟩
      · exact (inv.sound other txn inFlight).answered rest sameDb held
      · have aside : Aside s next other :=
          aside_of_same sameDb fun key mine => (others other different key).mpr mine
        exact inv.aside before aside (by rw [sameDb]; exact inv.distinct)
  | ended inFlight kind moved =>
      rename_i id txn
      subst moved
      refine ⟨inv.distinct, inv.requests, ?_⟩
      intro other rival rivalInFlight
      obtain ⟨different, before⟩ := World.inFlight_ended rivalInFlight
      have aside : Aside s { s with toWorld := s.toWorld.finish id } other :=
        aside_of_same rfl fun key mine => (World.finish_other different key).mpr mine
      exact inv.aside before aside inv.distinct
  | committed inFlight rest moved =>
      rename_i id txn result
      subst moved
      have sound := inv.sound id txn inFlight
      have distinct : ((s.view LedgerDb.apply txn).records.map Record.id).Nodup := by
        rw [view_records]
        exact sound.distinct
      refine ⟨distinct, sound.commit_requests rest inv.requests, ?_⟩
      intro other rival rivalInFlight
      obtain ⟨different, before⟩ := World.inFlight_ended rivalInFlight
      apply inv.aside before _ distinct
      exact sound.commit_aside rest different rfl fun key mine => (World.finish_other different key).mpr mine
  | registered moved =>
      rename_i actor
      subst moved
      refine ⟨inv.distinct, inv.requests, ?_⟩
      intro other rival rivalInFlight
      have later : s.db.Later { s.db with actors := s.db.actors ++ [actor] } :=
        ⟨⟨[], by simp⟩, fun row member => ⟨row, member, rfl⟩, ⟨[actor], rfl⟩⟩
      have aside : Aside s { s with db := { s.db with actors := s.db.actors ++ [actor] } } other :=
        ⟨fun _ mine => mine, later, ⟨[], by simp, fun _ member => by cases member⟩, fun _ _ => Iff.rfl⟩
      exact inv.aside rivalInFlight aside inv.distinct

theorem inv_of_reachable (reached : s.Reachable store) : Inv store s :=
  reached.invariant (Inv store) inv_init fun _ _ _ inv _ taken => inv.act taken

end CultureNodes.Ledger
