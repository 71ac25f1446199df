import CultureNodes.Ledger.Assurance

/-!
Corrections. `AppendSuperseding` replaces a record of its own run that nothing live has replaced, and
holds the lock of that record to make sure. A plain append takes whatever record its caller names in
`supersedes`; the ledger stays in order where what it names is what a correction could have named.
-/

namespace CultureNodes.Ledger

variable {store : Store} {s next : LedgerState} {db : LedgerDb} {rec : Record} {id : Nat}
  {txn : Txn Write Session}

/-- The record names another one as the one it replaces. -/
def Record.Replaces (rec : Record) (target : String) : Prop :=
  rec.supersedes ≠ "" ∧ rec.supersedes = target

namespace LedgerDb

/-- The ledger with one more record. -/
abbrev add (db : LedgerDb) (rec : Record) : LedgerDb := db.apply (.record rec)

theorem replaced_iff {target : String} :
    db.replaced target = true ↔ ∃ rec ∈ db.records, rec.Replaces target := by
  simp [replaced, Record.Replaces]

theorem replaced_add {target : String} :
    (db.add rec).replaced target = true ↔ db.replaced target = true ∨ rec.Replaces target := by
  simp [replaced_iff, add, apply, or_and_right, exists_or]

theorem mem_supersessors {target : String} :
    rec ∈ db.supersessors target ↔
      rec ∈ db.records ∧ rec.Replaces target ∧ db.replaced rec.id = false := by
  simp [supersessors, Record.Replaces, and_assoc]

theorem liveSupersessors_perm (target : String) :
    (db.liveSupersessors target).Perm (db.supersessors target) :=
  List.mergeSort_perm _ _

theorem liveSupersessors_eq_nil {target : String} :
    db.liveSupersessors target = [] ↔ db.supersessors target = [] := by
  rw [← List.length_eq_zero_iff, (liveSupersessors_perm target).length_eq, List.length_eq_zero_iff]

theorem supersessors_add (db : LedgerDb) (rec : Record) (target : String) :
    ((db.add rec).supersessors target).Sublist (db.supersessors target ++ [rec]) := by
  rw [supersessors, show (db.add rec).records = db.records ++ [rec] from rfl, List.filter_append]
  apply List.Sublist.append
  · apply List.monotone_filter_right
    intro old live
    simp only [Bool.and_eq_true, decide_eq_true_eq, Bool.not_eq_true', ← Bool.not_eq_true,
      replaced_add, not_or] at live ⊢
    exact ⟨live.1, live.2.1⟩
  · exact List.filter_sublist

theorem supersessors_add_of_not {target : String}
    (apart : ¬ rec.Replaces target ∨ rec.supersedes = rec.id) :
    ((db.add rec).supersessors target).Sublist (db.supersessors target) := by
  have notLive : rec ∉ (db.add rec).supersessors target := by
    intro member
    obtain ⟨_, replaces, live⟩ := mem_supersessors.mp member
    rcases apart with elsewhere | own
    · exact elsewhere replaces
    · have gone : (db.add rec).replaced rec.id = true := replaced_add.mpr (Or.inr ⟨replaces.1, own⟩)
      rw [live] at gone
      cases gone
  obtain ⟨old, last, split, isOld, isLast⟩ := List.sublist_append_iff.mp (supersessors_add db rec target)
  have none : last = [] := by
    rcases List.sublist_singleton.mp isLast with none | isRec
    · exact none
    · rw [split, isRec] at notLive
      simp at notLive
  rw [split, none, List.append_nil]
  exact isOld

end LedgerDb

/-- Each record has at most one live replacement, and every replacement is in the run of what it
replaces. -/
structure Tidy (db : LedgerDb) : Prop where
  single : ∀ target, (db.liveSupersessors target).length ≤ 1
  sameRun : ∀ rec ∈ db.records, rec.supersedes ≠ "" →
    ∃ target ∈ db.records, target.id = rec.supersedes ∧ target.runID = rec.runID

/-- The record replaces nothing, or itself, or a record of its run that has no live replacement. -/
def Correctable (db : LedgerDb) (rec : Record) : Prop :=
  rec.supersedes = "" ∨ rec.supersedes = rec.id ∨
    ((∃ target ∈ db.records, target.id = rec.supersedes ∧ target.runID = rec.runID) ∧
      (db.liveSupersessors rec.supersedes).isEmpty = true)

theorem Tidy.single_iff {target : String} :
    (db.liveSupersessors target).length ≤ 1 ↔ (db.supersessors target).length ≤ 1 := by
  rw [(LedgerDb.liveSupersessors_perm target).length_eq]

theorem Tidy.add (tidy : Tidy db) (may : Correctable db rec) : Tidy (db.add rec) := by
  constructor
  · intro target
    rw [Tidy.single_iff]
    have before := Tidy.single_iff.mp (tidy.single target)
    by_cases apart : ¬ rec.Replaces target ∨ rec.supersedes = rec.id
    · exact (LedgerDb.supersessors_add_of_not apart).length_le.trans before
    · rw [not_or, not_not] at apart
      obtain ⟨⟨named, rfl⟩, other⟩ := apart
      have none : db.supersessors rec.supersedes = [] := by
        rcases may with unnamed | own | correct
        · exact absurd unnamed named
        · exact absurd own other
        · exact LedgerDb.liveSupersessors_eq_nil.mp (List.isEmpty_iff.mp correct.2)
      have bound := (LedgerDb.supersessors_add db rec rec.supersedes).length_le
      rw [none] at bound
      exact bound
  · intro one member named
    rcases List.mem_append.mp member with before | new
    · obtain ⟨target, isTarget, same⟩ := tidy.sameRun one before named
      exact ⟨target, List.mem_append_left _ isTarget, same⟩
    · cases List.mem_singleton.mp new
      rcases may with unnamed | own | correct
      · exact absurd unnamed named
      · exact ⟨rec, member, own.symm, rfl⟩
      · obtain ⟨target, isTarget, same⟩ := correct.1
        exact ⟨target, List.mem_append_left _ isTarget, same⟩

/-- Each of the records, added after those before it, may replace what it names. -/
def AllCorrectable (db : LedgerDb) : List Record → Prop
  | [] => True
  | rec :: rest => Correctable db rec ∧ AllCorrectable (db.add rec) rest

theorem Tidy.addAll {records : List Record} (tidy : Tidy db) (may : AllCorrectable db records) :
    Tidy ((records.map Write.record).foldl LedgerDb.apply db) := by
  induction records generalizing db with
  | nil => exact tidy
  | cons rec rest ih => exact ih (tidy.add may.1) may.2

theorem LedgerDb.supersessors_addAll {records : List Record} {target : String}
    (apart : ∀ rec ∈ records, ¬ rec.Replaces target ∨ rec.supersedes = rec.id) :
    (((records.map Write.record).foldl LedgerDb.apply db).supersessors target).Sublist
      (db.supersessors target) := by
  induction records generalizing db with
  | nil => exact List.Sublist.refl _
  | cons rec rest ih =>
      rw [List.forall_mem_cons] at apart
      exact (ih apart.2).trans (supersessors_add_of_not apart.1)

theorem LedgerDb.supersessors_congr {after : LedgerDb} (same : after.records = db.records) (target : String) :
    after.supersessors target = db.supersessors target := by
  simp only [supersessors, replaced, same]

theorem Tidy.congr {after : LedgerDb} (tidy : Tidy db) (same : after.records = db.records) : Tidy after := by
  constructor
  · intro target
    rw [Tidy.single_iff, LedgerDb.supersessors_congr same, ← Tidy.single_iff]
    exact tidy.single target
  · rw [same]
    exact tidy.sameRun

/-- An append that commits replaces only what a correction could replace, and nothing that a correction
in progress has locked. -/
def Guarded (s : LedgerState) : Action → Prop
  | .finish id => ∀ txn entries manifest result, s.txns id = some txn →
      txn.body.call = .append entries manifest → txn.body.rest = .done (.ok result) →
        AllCorrectable s.db (recordsOf txn.writes) ∧
          ∀ rec ∈ recordsOf txn.writes, rec.supersedes = "" ∨ rec.supersedes = rec.id ∨
            s.holder (.supersede rec.supersedes) = none
  | _ => True

/-- The call leaves the records of the runs it does not append to as a correction or a review reads
them. -/
def Success.Apart (entry : Success) : Prop :=
  ∀ target ∈ entry.before.records, (∀ rec ∈ entry.result.records, rec.runID ≠ target.runID) →
    entry.after.getRecord target.id = entry.before.getRecord target.id ∧
      entry.after.liveSupersessors target.id = entry.before.liveSupersessors target.id ∧
      entry.after.ledgerVersion target.runID = entry.before.ledgerVersion target.runID

/-- What is true of a correction in progress. -/
structure Correcting (s : LedgerState) (txn : Txn Write Session) (target : String) : Prop where
  once : (recordsOf txn.writes).length ≤ 1
  checked : target ∈ txn.body.seen.unreplaced →
    .supersede target ∈ txn.body.seen.locks ∧ s.db.supersessors target = []

structure InOrder (s : LedgerState) : Prop where
  tidy : Tidy s.db
  correcting : ∀ id txn target, s.txns id = some txn → txn.body.call.corrects = some target →
    Correcting s txn target
  apart : ∀ entry ∈ s.log, entry.Apart

theorem InOrder.init : InOrder LedgerState.init where
  tidy := ⟨fun _ => by simp [LedgerState.init, LedgerDb.liveSupersessors, LedgerDb.supersessors, orderByID],
    fun _ member => by cases member⟩
  correcting _ _ _ inFlight := by cases inFlight
  apart _ member := by cases member

theorem Correcting.answered {target : String} {statement : Statement} {onward : Answer statement → Script}
    (correcting : Correcting s txn target) (corrects : txn.body.call.corrects = some target)
    (sound : Sound store s id txn) (rest : txn.body.rest = .call statement onward)
    (sameDb : next.db = s.db) : Correcting next (s.answered store txn statement onward) target := by
  have keeps := sound.keeps
  rw [rest] at keeps
  have grows := txn.body.seen.grows_after statement ((s.view LedgerDb.apply txn).answer store statement)
  have learnt := learns store (s.view LedgerDb.apply txn) txn.body.seen statement
  have written := wrote store (s.view LedgerDb.apply txn) statement
  constructor
  · simp only [LedgerState.answered, recordsOf_append, List.length_append]
    generalize writesOf statement ((s.view LedgerDb.apply txn).answer store statement) = news at written
    cases written with
    | record taken =>
        have none := keeps.1.2.2.2.2 (by rw [corrects]; rfl)
        rw [sound.writes, none]
        exact Nat.le_refl 1
    | nothing => simpa using correcting.once
    | request taken => simpa using correcting.once
    | committed opened => simpa using correcting.once
  · intro member
    rw [sameDb]
    have locks : ∀ key ∈ txn.body.seen.locks,
        key ∈ (s.answered store txn statement onward).body.seen.locks := grows.locks
    have before (earlier : target ∈ txn.body.seen.unreplaced) :
        .supersede target ∈ (s.answered store txn statement onward).body.seen.locks ∧
          s.db.supersessors target = [] :=
      ⟨locks _ (correcting.checked earlier).1, (correcting.checked earlier).2⟩
    simp only [LedgerState.answered, Seen.after] at member
    generalize txn.body.seen.learn statement ((s.view LedgerDb.apply txn).answer store statement) = seen
      at learnt member
    cases learnt with
    | unreplaced none =>
        rcases List.mem_cons.mp member with rfl | earlier
        · obtain ⟨unwritten, lock⟩ := keeps.1
          refine ⟨locks _ (lock corrects), ?_⟩
          rw [World.view, sound.writes, unwritten] at none
          exact LedgerDb.liveSupersessors_eq_nil.mp none
        · exact before earlier
    | nothing => exact before member
    | found here => exact before member
    | request here => exact before member
    | kind listed => exact before member
    | version locked => exact before member

section Commit

variable {result : LedgerResult}

theorem AllCorrectable.of_plain {records : List Record} (plain : ∀ rec ∈ records, rec.supersedes = "") :
    AllCorrectable db records := by
  induction records generalizing db with
  | nil => trivial
  | cons rec rest ih =>
      rw [List.forall_mem_cons] at plain
      exact ⟨Or.inl plain.1, ih plain.2⟩

theorem Sound.correction {target : String} (sound : Sound store s id txn)
    (corrects : txn.body.call.corrects = some target) (correcting : Correcting s txn target)
    (member : rec ∈ recordsOf txn.writes) :
    rec.supersedes = target ∧ .supersede target ∈ txn.body.seen.locks ∧ Correctable s.db rec := by
  have brings := (sound.brought rec member).brings
  cases called : txn.body.call with
  | appendSuperseding stamp given supersedesID manifest =>
      rw [called] at corrects brings
      cases corrects
      obtain ⟨_, names, locked, unreplaced, target, found, sameRun⟩ := brings
      refine ⟨names, locked, ?_⟩
      obtain ⟨named, there⟩ := sound.found _ found
      rcases List.mem_append.mp there with before | own
      · refine Or.inr (Or.inr ⟨⟨target, before, named.trans names.symm, sameRun⟩, ?_⟩)
        rw [List.isEmpty_iff, names]
        exact LedgerDb.liveSupersessors_eq_nil.mpr (correcting.checked unreplaced).2
      · obtain ⟨one, isOne⟩ | none := Nat.le_one_iff_eq_zero_or_eq_one.mp correcting.once |>.symm.imp_left
          (fun length => List.length_eq_one_iff.mp length)
        · rw [isOne, List.mem_singleton] at member own
          have itself : target = rec := own.trans member.symm
          rw [itself] at named
          exact Or.inr (Or.inl (names.trans named.symm))
        · rw [List.length_eq_zero_iff.mp none] at member
          cases member
  | append entries manifest =>
      rw [called] at corrects
      cases corrects
  | createReviewRequest stamp runID recordIDs version reviewer =>
      rw [called] at corrects
      cases corrects
  | commitReview stamps reviewID decisions expected rationale =>
      rw [called] at corrects
      cases corrects

/-- What a commit adds replaces what it may, and nothing that another correction has locked. -/
theorem InOrder.commit_correctable (order : InOrder s) (sound : Sound store s id txn)
    (inFlight : s.txns id = some txn) (rest : txn.body.rest = .done (.ok result))
    (guarded : Guarded s (.finish id)) :
    AllCorrectable s.db (recordsOf txn.writes) ∧ ∀ rec ∈ recordsOf txn.writes,
      rec.supersedes = "" ∨ rec.supersedes = rec.id ∨ s.holder (.supersede rec.supersedes) = none ∨
        s.holder (.supersede rec.supersedes) = some id := by
  cases called : txn.body.call with
  | append entries manifest =>
      obtain ⟨all, free⟩ := guarded txn entries manifest result inFlight called rest
      refine ⟨all, fun rec member => ?_⟩
      rcases free rec member with unnamed | own | unlocked
      · exact Or.inl unnamed
      · exact Or.inr (Or.inl own)
      · exact Or.inr (Or.inr (Or.inl unlocked))
  | appendSuperseding stamp given supersedesID manifest =>
      have corrects : txn.body.call.corrects = some supersedesID := by
        rw [called]
        rfl
      have correcting := order.correcting id txn supersedesID inFlight corrects
      constructor
      · cases records : recordsOf txn.writes with
        | nil => trivial
        | cons rec others =>
            have alone : others = [] := by
              have once := correcting.once
              rw [records, List.length_cons] at once
              exact List.length_eq_zero_iff.mp (by omega)
            subst alone
            have member : rec ∈ recordsOf txn.writes := by
              rw [records]
              exact List.mem_cons_self
            exact ⟨(sound.correction corrects correcting member).2.2, trivial⟩
      · intro rec member
        obtain ⟨names, locked, _⟩ := sound.correction corrects correcting member
        refine Or.inr (Or.inr (Or.inr ?_))
        rw [names]
        exact sound.held _ locked
  | createReviewRequest stamp runID recordIDs version reviewer =>
      have none : ∀ rec ∈ recordsOf txn.writes, False := by
        intro rec member
        have brings := (sound.brought rec member).brings
        rw [called] at brings
        exact brings
      exact ⟨AllCorrectable.of_plain fun rec member => (none rec member).elim,
        fun rec member => (none rec member).elim⟩
  | commitReview stamps reviewID decisions expected rationale =>
      have plain : ∀ rec ∈ recordsOf txn.writes, rec.supersedes = "" := by
        intro rec member
        have brings := (sound.brought rec member).brings
        rw [called] at brings
        obtain ⟨_, _, _, _, _, _, plain, _⟩ := brings
        exact plain
      exact ⟨AllCorrectable.of_plain plain, fun rec member => Or.inl (plain rec member)⟩

theorem view_records_foldl : (s.view LedgerDb.apply txn).records =
    (((recordsOf txn.writes).map Write.record).foldl LedgerDb.apply s.db).records := by
  rw [view_records, LedgerDb.foldl_records, recordsOf_map]

theorem Success.Holds.apart {entry : Success} (holds : entry.Holds) (tidy : Tidy entry.after)
    (before : Tidy entry.before) (distinct : (entry.after.records.map Record.id).Nodup) : entry.Apart := by
  intro target isTarget elsewhere
  have known : ∀ rec ∈ entry.before.records, rec ∈ entry.after.records := fun _ => holds.later.mem
  -- An added record replaces a record of its own run, so none of those of the target's run.
  have foreign : ∀ rec ∈ entry.result.records, ∀ old ∈ entry.before.records,
      old.runID = target.runID → ¬ rec.Replaces old.id := by
    intro rec member old isOld sameRun replaces
    have added : rec ∈ entry.after.records := by
      rw [holds.records]
      exact List.mem_append_right _ member
    obtain ⟨other, isOther, named, run⟩ := tidy.sameRun rec added replaces.1
    have same : other = old :=
      List.inj_on_of_nodup_map distinct isOther (known old isOld) (named.trans replaces.2)
    apply elsewhere rec member
    rw [← run, same, sameRun]
  have replacedSame : ∀ old ∈ entry.before.records, old.runID = target.runID →
      entry.after.replaced old.id = entry.before.replaced old.id := by
    intro old isOld sameRun
    rw [Bool.eq_iff_iff, LedgerDb.replaced_iff, LedgerDb.replaced_iff]
    constructor
    · rintro ⟨rec, member, replaces⟩
      rw [holds.records, List.mem_append] at member
      rcases member with earlier | new
      · exact ⟨rec, earlier, replaces⟩
      · exact absurd replaces (foreign rec new old isOld sameRun)
    · rintro ⟨rec, member, replaces⟩
      exact ⟨rec, known rec member, replaces⟩
  refine ⟨?_, ?_, ?_⟩
  · obtain ⟨found, isFound⟩ : ∃ found, entry.before.getRecord target.id = some found := by
      rw [← Option.isSome_iff_exists, LedgerDb.getRecord, List.find?_isSome]
      exact ⟨target, isTarget, by simp⟩
    rw [isFound, LedgerDb.getRecord, holds.records, List.find?_append]
    rw [LedgerDb.getRecord] at isFound
    rw [isFound]
    rfl
  · have same : entry.after.supersessors target.id = entry.before.supersessors target.id := by
      have none : (entry.result.records.filter fun rec => rec.supersedes ≠ "" &&
          rec.supersedes = target.id && !entry.after.replaced rec.id) = [] := by
        rw [List.filter_eq_nil_iff]
        intro rec member live
        simp only [Bool.and_eq_true, decide_eq_true_eq] at live
        exact foreign rec member target isTarget rfl live.1
      rw [LedgerDb.supersessors, holds.records, List.filter_append, none, List.append_nil]
      apply List.filter_congr
      intro old isOld
      by_cases replaces : old.Replaces target.id
      · obtain ⟨other, isOther, named, run⟩ := before.sameRun old isOld replaces.1
        have itself : other = target :=
          List.inj_on_of_nodup_map distinct (known other isOther) (known target isTarget)
            (named.trans replaces.2)
        rw [replacedSame old isOld (by rw [← run, itself])]
      · have notNamed : (decide (old.supersedes ≠ "") && decide (old.supersedes = target.id)) = false := by
          simpa [Record.Replaces] using replaces
        rw [notNamed, Bool.false_and, Bool.false_and]
    rw [LedgerDb.liveSupersessors, same]
    rfl
  · rw [LedgerDb.ledgerVersion, LedgerDb.runRecords, holds.records, List.filter_append]
    have none : (entry.result.records.filter fun rec => rec.runID = target.runID) = [] := by
      rw [List.filter_eq_nil_iff]
      intro rec member sameRun
      exact elsewhere rec member (of_decide_eq_true sameRun)
    rw [none, List.append_nil]
    rfl

theorem InOrder.commit (order : InOrder s) (inv : Inv store s) (inFlight : s.txns id = some txn)
    (rest : txn.body.rest = .done (.ok result)) (guarded : Guarded s (.finish id))
    (db : next.db = s.view LedgerDb.apply txn)
    (txns : ∀ other rival, next.txns other = some rival → other ≠ id ∧ s.txns other = some rival)
    (log : next.log = s.log ++ [⟨txn.body.call, result, s.db, s.view LedgerDb.apply txn⟩]) :
    InOrder next := by
  have sound := inv.sound id txn inFlight
  obtain ⟨all, unlocked⟩ := order.commit_correctable sound inFlight rest guarded
  have tidy : Tidy (s.view LedgerDb.apply txn) := (order.tidy.addAll all).congr view_records_foldl
  constructor
  · rw [db]
    exact tidy
  · intro other rival target rivalInFlight corrects
    obtain ⟨different, before⟩ := txns other rival rivalInFlight
    have correcting := order.correcting other rival target before corrects
    refine ⟨correcting.once, fun member => ?_⟩
    obtain ⟨locked, none⟩ := correcting.checked member
    refine ⟨locked, ?_⟩
    have held := (inv.sound other rival before).held _ locked
    have apart : ∀ rec ∈ recordsOf txn.writes, ¬ rec.Replaces target ∨ rec.supersedes = rec.id := by
      intro rec isNew
      by_cases replaces : rec.Replaces target
      · rw [← replaces.2] at held
        rcases unlocked rec isNew with unnamed | own | free | mine
        · exact absurd unnamed replaces.1
        · exact Or.inr own
        · rw [held] at free
          cases free
        · rw [held] at mine
          exact absurd (Option.some.inj mine) different
      · exact Or.inl replaces
    have shrinks : (((recordsOf txn.writes).map Write.record).foldl LedgerDb.apply s.db).supersessors target
        |>.Sublist (s.db.supersessors target) := LedgerDb.supersessors_addAll apart
    rw [none, List.sublist_nil] at shrinks
    rw [db, LedgerDb.supersessors_congr view_records_foldl]
    exact shrinks
  · intro entry member
    rw [log, List.mem_append, List.mem_singleton] at member
    rcases member with before | rfl
    · exact order.apart entry before
    · apply (sound.holds rest).apart tidy order.tidy
      rw [view_records]
      exact sound.distinct

end Commit

theorem InOrder.of_same (order : InOrder s) (records : next.db.records = s.db.records)
    (log : next.log = s.log)
    (txns : ∀ id txn target, next.txns id = some txn → txn.body.call.corrects = some target →
      Correcting s txn target) : InOrder next where
  tidy := order.tidy.congr records
  correcting id txn target inFlight corrects := by
    have correcting := txns id txn target inFlight corrects
    refine ⟨correcting.once, fun member => ?_⟩
    rw [LedgerDb.supersessors_congr records]
    exact correcting.checked member
  apart := by
    rw [log]
    exact order.apart

theorem InOrder.act {action : Action} (order : InOrder s) (inv : Inv store s) (guarded : Guarded s action)
    (taken : s.act store action = some next) : InOrder next := by
  cases moved_of_act taken with
  | started free moved =>
      rename_i id call
      subst moved
      apply order.of_same
      · rfl
      · rfl
      intro other rival target inFlight corrects
      rcases World.inFlight_update inFlight with ⟨rfl, rfl⟩ | ⟨_, before⟩
      · exact ⟨Nat.zero_le 1, fun member => absurd member List.not_mem_nil⟩
      · exact order.correcting other rival target before corrects
  | answered inFlight rest sameDb sameLog txns held others =>
      rename_i id txn statement onward
      apply order.of_same (by rw [sameDb]) sameLog
      intro other rival target rivalInFlight corrects
      rw [txns] at rivalInFlight
      rcases World.inFlight_update rivalInFlight with ⟨rfl, rfl⟩ | ⟨_, before⟩
      · have correcting := order.correcting other txn target inFlight corrects
        exact correcting.answered corrects (inv.sound other txn inFlight) rest rfl
      · exact order.correcting other rival target before corrects
  | ended inFlight kind moved =>
      rename_i id txn
      subst moved
      apply order.of_same
      · rfl
      · rfl
      intro other rival target rivalInFlight corrects
      exact order.correcting other rival target (World.inFlight_ended rivalInFlight).2 corrects
  | committed inFlight rest moved =>
      rename_i id txn result
      subst moved
      apply order.commit inv inFlight rest guarded rfl _ rfl
      intro other rival rivalInFlight
      exact World.inFlight_ended rivalInFlight
  | registered moved =>
      subst moved
      exact order.of_same rfl rfl order.correcting

/-- Where the appends of a run name in `supersedes` only what a correction could, each record has at
most one live replacement, in its own run, and no call has touched the corrections of other runs. -/
theorem inOrder_of_guarded
    (run : Steps (fun s action next => s.act store action = some next) Guarded LedgerState.init s) :
    Tidy s.db ∧ ∀ entry ∈ s.log, entry.Apart := by
  have both : Inv store s ∧ InOrder s := by
    apply run.invariant (fun s => Inv store s ∧ InOrder s) ⟨inv_init, InOrder.init⟩
    intro before action after held guarded taken
    exact ⟨held.1.act taken, held.2.act held.1 guarded taken⟩
  exact ⟨both.2.tidy, both.2.apart⟩

instance (db : LedgerDb) (rec : Record) : Decidable (Correctable db rec) :=
  inferInstanceAs (Decidable (_ ∨ _ ∨ (∃ target ∈ db.records, _ ∧ _) ∧ _))

instance decidableAllCorrectable :
    (db : LedgerDb) → (records : List Record) → Decidable (AllCorrectable db records)
  | _, [] => isTrue trivial
  | db, rec :: rest =>
      have : Decidable (AllCorrectable (db.add rec) rest) := decidableAllCorrectable (db.add rec) rest
      inferInstanceAs (Decidable (Correctable db rec ∧ AllCorrectable (db.add rec) rest))

def guarded (s : LedgerState) : Action → Bool
  | .finish id =>
      match s.txns id with
      | some ⟨writes, ⟨.append _ _, _, _⟩⟩ =>
          decide (AllCorrectable s.db (recordsOf writes)) &&
            (recordsOf writes).all fun rec => rec.supersedes = "" || rec.supersedes = rec.id ||
              s.holder (.supersede rec.supersedes) = none
      | _ => true
  | _ => true

theorem guarded_sound {action : Action} (passes : guarded s action = true) : Guarded s action := by
  cases action with
  | finish id =>
      intro txn entries manifest result inFlight called rest
      obtain ⟨writes, call, seen, script⟩ := txn
      cases called
      simp only [guarded, inFlight, Bool.and_eq_true, decide_eq_true_eq, List.all_eq_true, Bool.or_eq_true,
        or_assoc] at passes
      exact passes
  | start id call => trivial
  | advance id => trivial
  | abort id => trivial
  | register actor => trivial

def replacedTwice (runID : String) : List Action :=
  [.register ⟨"actor_writer", "writer", "agent"⟩] ++
    wholeCall 0 (.append
      [(firstStamp,
        { recordType := .claim, runID := "run_1", authority := .proposed
          origin := { kind := .agent, actorID := "actor_writer" } })] none) 2 ++
    wholeCall 1 (.append
      [(secondStamp,
        { recordType := .claim, runID := runID, authority := .proposed, supersedes := "ledger_1"
          origin := { kind := .agent, actorID := "actor_writer" } })] none) 2 ++
    wholeCall 2 (.appendSuperseding thirdStamp
      { recordType := .claim, runID := runID, authority := .proposed
        origin := { kind := .agent, actorID := "actor_writer" } } "ledger_2" none) 5

theorem inOrder_of_guarded_replacedTwice :
    ∃ s : LedgerState,
      Steps (fun s action next => s.act openStore action = some next) Guarded LedgerState.init s ∧
      s.db.records.map (fun rec => (rec.id, rec.supersedes)) =
        [("ledger_1", ""), ("ledger_2", "ledger_1"), ("ledger_3", "ledger_2")] ∧
      Tidy s.db ∧ ∀ entry ∈ s.log, entry.Apart := by
  have ran : (Steps.ofList (LedgerState.act openStore) guarded LedgerState.init
      (replacedTwice "run_1")).map (fun s => s.db.records.map fun rec => (rec.id, rec.supersedes)) =
        some [("ledger_1", ""), ("ledger_2", "ledger_1"), ("ledger_3", "ledger_2")] := by
    decide +kernel
  obtain ⟨s, run, records⟩ := Steps.reaches_of_ofList (fun _ _ => guarded_sound) ran
  exact ⟨s, run, records, inOrder_of_guarded run⟩

/-- A plain append to one run replaces a record of another. -/
theorem append_replaces_elsewhere :
    ¬ ∀ (store : Store) (s : LedgerState), s.Reachable store → Tidy s.db ∧ ∀ entry ∈ s.log, entry.Apart := by
  intro always
  have ran : (Steps.ofList (LedgerState.act openStore) (fun _ _ => true) LedgerState.init
      (replacedTwice "run_2")).map (fun s => s.db.records.all fun rec => rec.supersedes = "" ||
        s.db.records.any fun target => target.id = rec.supersedes && target.runID = rec.runID) =
      some false := by
    decide +kernel
  obtain ⟨s, run, elsewhere⟩ := Steps.reaches_of_ofList (fun _ _ _ => trivial) ran
  have reached : s.Reachable openStore := run
  have sameRun := (always openStore s reached).1.sameRun
  rw [List.all_eq_false] at elsewhere
  obtain ⟨rec, member, outside⟩ := elsewhere
  simp only [Bool.or_eq_true, decide_eq_true_eq, not_or, List.any_eq_true, Bool.and_eq_true] at outside
  exact outside.2 (sameRun rec member outside.1)

end CultureNodes.Ledger
