import CultureNodes.Web.Snapshot

/-!
The last attempt of a node. A failed run is shown as denied where the attempt of its node that starts last was
denied by a policy, whichever of the node's runs made it. What an attempt that is added does to that depends on
where it starts among the others.
-/

namespace CultureNodes.Web

open Engine

section

variable (written : Nat → String)

/-- When an attempt starts, as it is written; a time that was not recorded comes first. -/
def startText (note : AttemptNote) : String := (note.startedAt.map written).getD ""

/-- An attempt of this status as the run view carries it. -/
def outOf (note : AttemptNote) (status : TechStatus) : AttemptOut where
  status := status
  actorID := note.actorID
  startedAt := note.startedAt.map written

variable (p : Point) (node : String)

/-- The attempts of a node, whichever of its runs made them. -/
def Point.attemptsAt : List Engine.Attempt :=
  p.db.attempts.filter fun attempt => attempt.nodeRun ∈ idsOf p.db node

def Point.startOf (attempt : Engine.Attempt) : String := startText written (p.notes attempt.nodeRun attempt.number)

/-- None of the node's attempts starts after this one. -/
def Point.Last (attempt : Engine.Attempt) : Prop :=
  ∀ other ∈ p.attemptsAt node, p.startOf written other ≤ p.startOf written attempt

def Point.Alike (status : TechStatus) : Prop :=
  ∀ attempt ∈ p.attemptsAt node, p.Last written node attempt →
    (attempt.status = .policyDenied ↔ status = .policyDenied)

/-- The attempts of a node as the run view lists them. -/
def Point.gathered : List AttemptOut := (idsOf p.db node).flatMap (p.attemptsFor written)

end

instance byStartedAt.total : Std.Total byStartedAt := ⟨fun _ _ => le_total _ _⟩

instance byStartedAt.trans : IsTrans AttemptOut byStartedAt := ⟨fun _ _ _ => le_trans⟩

section

variable {written : Nat → String} {p q : Point} {node : String} {status : TechStatus} {note : AttemptNote}

theorem mem_gathered {out : AttemptOut} :
    out ∈ p.gathered written node ↔ ∃ attempt ∈ p.attemptsAt node, p.attemptOut written attempt = out := by
  unfold Point.gathered Point.attemptsFor Point.attemptsAt
  simp only [List.mem_flatMap, List.mem_map, List.mem_insertionSort, List.mem_filter, decide_eq_true_eq]
  constructor
  · rintro ⟨id, held, attempt, ⟨among, rfl⟩, rfl⟩
    exact ⟨attempt, ⟨among, held⟩, rfl⟩
  · rintro ⟨attempt, ⟨among, held⟩, rfl⟩
    exact ⟨attempt.nodeRun, held, attempt, ⟨among, rfl⟩, rfl⟩

theorem last_of_gathered {out : AttemptOut} (held : out ∈ p.gathered written node)
    (greatest : ∀ other ∈ p.gathered written node, byStartedAt other out) :
    ∃ attempt ∈ p.attemptsAt node, p.Last written node attempt ∧ attempt.status = out.status := by
  obtain ⟨attempt, among, rfl⟩ := mem_gathered.mp held
  refine ⟨attempt, among, fun other otherHeld => ?_, rfl⟩
  exact greatest _ (mem_gathered.mpr ⟨other, otherHeld, rfl⟩)

theorem Clocked.denied_eq (clocked : Clocked written node p) {out : AttemptOut}
    (last : ((p.gathered written node).insertionSort byStartedAt).getLast? = some out) :
    p.denied written node = decide (out.status = .policyDenied) := by
  have shown : (attemptsOf (p.view written) node).getLast? = some out := by
    rw [clocked.attemptsOf_view]
    exact last
  rw [Point.denied, shown, Option.map_some, decide_eq_decide, Option.some.injEq]

/-- Whatever the run view ends with, it is such an attempt. -/
theorem Clocked.denied_of_forall (clocked : Clocked written node p) (some_ : p.gathered written node ≠ [])
    (each : ∀ out ∈ p.gathered written node, (∀ other ∈ p.gathered written node, byStartedAt other out) →
      (out.status = .policyDenied ↔ status = .policyDenied)) :
    p.denied written node = decide (status = .policyDenied) := by
  cases last : ((p.gathered written node).insertionSort byStartedAt).getLast? with
  | none =>
      rw [List.getLast?_eq_none_iff] at last
      have none_ : (p.gathered written node).length = 0 := by
        rw [← List.length_insertionSort byStartedAt, last, List.length_nil]
      exact absurd (List.eq_nil_of_length_eq_zero none_) some_
  | some out =>
      rw [clocked.denied_eq last, decide_eq_decide]
      exact each out (StableSort.mem_of_getLast?_insertionSort last) fun other held =>
        StableSort.rel_getLast? last held

theorem Clocked.denied_of_alike (clocked : Clocked written node p) (some_ : p.attemptsAt node ≠ [])
    (alike : p.Alike written node status) : p.denied written node = decide (status = .policyDenied) := by
  obtain ⟨attempt, held⟩ := List.exists_mem_of_ne_nil _ some_
  refine clocked.denied_of_forall (List.ne_nil_of_mem (mem_gathered.mpr ⟨attempt, held, rfl⟩)) ?_
  intro out outHeld greatest
  obtain ⟨last, isOne, isLast, same⟩ := last_of_gathered outHeld greatest
  exact same ▸ alike last isOne isLast

/-- The node's attempts are as they were. -/
theorem denied_congr (before : Clocked written node p) (after : Clocked written node q)
    (same : q.gathered written node = p.gathered written node) : q.denied written node = p.denied written node := by
  rw [Point.denied, Point.denied, after.attemptsOf_view, before.attemptsOf_view]
  unfold Point.gathered at same
  rw [same]

/-- One more attempt, after the others in the run view. -/
theorem denied_concat (after : Clocked written node q)
    (added : q.gathered written node = p.gathered written node ++ [outOf written note status])
    (fits : (∀ attempt ∈ p.attemptsAt node, p.startOf written attempt ≤ startText written note) ∨
      p.Alike written node status) : q.denied written node = decide (status = .policyDenied) := by
  obtain latest | alike := fits
  · refine @Clocked.denied_eq written q node after (outOf written note status) ?_
    rw [added, StableSort.insertionSort_concat, List.getLast?_concat]
    intro out held
    obtain ⟨attempt, among, rfl⟩ := mem_gathered.mp held
    exact latest attempt among
  · refine after.denied_of_forall (by simp [added]) fun out held greatest => ?_
    rw [added] at held greatest
    obtain old | new := List.mem_append.mp held
    · obtain ⟨last, isOne, isLast, same⟩ := last_of_gathered old fun other otherHeld =>
        greatest other (List.mem_append_left _ otherHeld)
      exact same ▸ alike last isOne isLast
    · rw [List.mem_singleton.mp new]
      exact Iff.rfl

/-- One more attempt, somewhere among the others. -/
theorem denied_insert (before : Clocked written node p) (after : Clocked written node q)
    {front back : List AttemptOut} (isBefore : p.gathered written node = front ++ back)
    (isAfter : q.gathered written node = front ++ outOf written note status :: back)
    (fits : (∃ attempt ∈ p.attemptsAt node, ¬ p.startOf written attempt ≤ startText written note) ∨
      p.attemptsAt node ≠ [] ∧ p.Alike written node status) :
    q.denied written node = p.denied written node := by
  obtain ⟨attempt, among, starts⟩ | ⟨some_, alike⟩ := fits
  · rw [Point.denied, Point.denied, after.attemptsOf_view, before.attemptsOf_view]
    unfold Point.gathered at isBefore isAfter
    rw [isBefore, isAfter, StableSort.getLast?_insertionSort_insert]
    exact ⟨p.attemptOut written attempt, isBefore ▸ mem_gathered.mpr ⟨attempt, among, rfl⟩, starts⟩
  · rw [before.denied_of_alike some_ alike]
    refine after.denied_of_forall (by simp [isAfter]) fun out held greatest => ?_
    have old : ∀ other ∈ p.gathered written node, other ∈ q.gathered written node := by
      intro other otherHeld
      rw [isBefore, List.mem_append] at otherHeld
      rw [isAfter, List.mem_append, List.mem_cons]
      exact otherHeld.imp_right Or.inr
    have cases_ : out ∈ p.gathered written node ∨ out = outOf written note status := by
      rw [isAfter, List.mem_append, List.mem_cons] at held
      rw [isBefore, List.mem_append]
      tauto
    obtain early | rfl := cases_
    · obtain ⟨last, isOne, isLast, same⟩ := last_of_gathered early fun other otherHeld => greatest other (old other otherHeld)
      exact same ▸ alike last isOne isLast
    · exact Iff.rfl

theorem attemptsFor_congr {id : Nat}
    (same : q.db.attempts.filter (·.nodeRun = id) = p.db.attempts.filter (·.nodeRun = id))
    (notes : q.notes = p.noted note ∨ q.notes = p.notes) : q.attemptsFor written id = p.attemptsFor written id := by
  unfold Point.attemptsFor
  rw [same]
  refine List.map_congr_left fun attempt held => ?_
  rw [List.mem_insertionSort, List.mem_filter] at held
  have sameNote : q.notes attempt.nodeRun attempt.number = p.notes attempt.nodeRun attempt.number := by
    obtain noted | kept := notes
    · rw [noted, Point.noted, if_pos (lt_nextAttemptNumber held.1)]
    · rw [kept]
  rw [Point.attemptOut, Point.attemptOut, sameNote]

/-- The next attempt of a node run comes after its others. -/
theorem attemptsFor_concat {id : Nat}
    (added : q.db.attempts = p.db.attempts ++ [⟨id, p.db.nextAttemptNumber id, status⟩])
    (notes : q.notes = p.noted note) :
    q.attemptsFor written id = p.attemptsFor written id ++ [outOf written note status] := by
  have rows : q.db.attempts.filter (·.nodeRun = id) =
      p.db.attempts.filter (·.nodeRun = id) ++ [⟨id, p.db.nextAttemptNumber id, status⟩] := by
    rw [added, List.filter_append]
    simp
  unfold Point.attemptsFor
  rw [rows, StableSort.insertionSort_concat, List.map_append]
  · congr 1
    · refine List.map_congr_left fun attempt held => ?_
      rw [List.mem_insertionSort, List.mem_filter] at held
      rw [Point.attemptOut, Point.attemptOut, notes, Point.noted, if_pos (lt_nextAttemptNumber held.1)]
    · simp [Point.attemptOut, outOf, notes, Point.noted]
  · intro attempt held
    rw [List.mem_filter, decide_eq_true_eq] at held
    exact Nat.le_of_lt (held.2 ▸ lt_nextAttemptNumber held.1)

theorem getLast?_idsOf (db : RunDb) (node : String) : (idsOf db node).getLast? = (db.newest node).map Prod.fst := by
  rw [idsOf, List.getLast?_map, RunDb.newest, Option.map_map]
  rfl

theorem idsOf_eq_of_newest {db next : RunDb} (grown : Grown db next) {id : Nat}
    (found : (next.newest node).map Prod.fst = some id) (old : id < db.nextID) : idsOf next node = idsOf db node := by
  obtain ⟨fresh, ids, -, new⟩ := idsOf_grown grown node
  cases isFresh : fresh with
  | nil => rw [ids, isFresh, List.append_nil]
  | cons first rest =>
      have last : fresh.getLast? = some id := by
        rw [← getLast?_idsOf, ids, List.getLast?_append, isFresh, List.getLast?_cons] at found
        rw [isFresh, List.getLast?_cons]
        simpa using found
      exact absurd (new id (List.mem_of_getLast? last)) (Nat.not_le_of_lt old)

theorem gathered_congr (ids : idsOf q.db node = idsOf p.db node)
    (each : ∀ id ∈ idsOf p.db node, q.attemptsFor written id = p.attemptsFor written id) :
    q.gathered written node = p.gathered written node := by
  rw [Point.gathered, Point.gathered, ids]
  exact List.flatMap_congr each

theorem gathered_insert (before : Clocked written node p) (ids : idsOf q.db node = idsOf p.db node) {id : Nat}
    (held : id ∈ idsOf p.db node)
    (added : q.db.attempts = p.db.attempts ++ [⟨id, p.db.nextAttemptNumber id, status⟩])
    (notes : q.notes = p.noted note) :
    ∃ front back, p.gathered written node = front ++ back ∧
      q.gathered written node = front ++ outOf written note status :: back ∧
      ((idsOf p.db node).getLast? = some id → back = []) := by
  obtain ⟨older, newer, split⟩ := List.append_of_mem held
  have distinct : (idsOf p.db node).Nodup := before.imp fun ordered => Nat.ne_of_lt ordered.1
  rw [split, List.nodup_append, List.nodup_cons] at distinct
  have others : ∀ other, other ≠ id → q.attemptsFor written other = p.attemptsFor written other := by
    intro other differs
    refine attemptsFor_congr ?_ (Or.inl notes)
    rw [added, List.filter_append]
    simp [differs.symm]
  refine ⟨older.flatMap (p.attemptsFor written) ++ p.attemptsFor written id, newer.flatMap (p.attemptsFor written),
    ?_, ?_, fun last => ?_⟩
  · rw [Point.gathered, split, List.flatMap_append, List.flatMap_cons, List.append_assoc]
  · have olderSame : older.flatMap (q.attemptsFor written) = older.flatMap (p.attemptsFor written) :=
      List.flatMap_congr fun other among => others other (distinct.2.2 other among id List.mem_cons_self)
    have newerSame : newer.flatMap (q.attemptsFor written) = newer.flatMap (p.attemptsFor written) :=
      List.flatMap_congr fun other among => others other fun same => distinct.2.1.1 (same ▸ among)
    rw [Point.gathered, ids, split, List.flatMap_append, List.flatMap_cons, olderSame, newerSame,
      attemptsFor_concat added notes]
    simp
  · cases newer with
    | nil => rfl
    | cons first rest =>
        -- The run would come twice.
        rw [split, List.getLast?_append, List.getLast?_cons_cons] at last
        have again : (first :: rest).getLast? = some id := by
          rw [List.getLast?_cons] at last ⊢
          simpa using last
        exact absurd (List.mem_of_getLast? again) distinct.2.1.1

end

end CultureNodes.Web
