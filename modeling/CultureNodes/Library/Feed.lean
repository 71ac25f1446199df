import Mathlib.Data.List.Sort
import Mathlib.Data.List.Nodup
import Mathlib.Order.Basic

/-!
A log that is read over connections. A connection is opened at a key; it polls the log for the rows after the
last row it has seen, in the order of their keys, and sends those it admits. Its reader takes the rows one by
one and opens the next connection at the key of the last row it took.
-/

namespace CultureNodes.Feed

variable {ρ κ : Type} [LinearOrder κ] (key : ρ → κ)

def newer (log : List ρ) (after : κ) : List ρ :=
  (log.filter fun row => after < key row).insertionSort fun row other => key row ≤ key other

/-- A connection: the key up to which it has polled, and the rows its reader has still to take. -/
structure Conn (ρ κ : Type) where
  after : κ
  frames : List ρ := []
deriving DecidableEq, Repr

/-- Send the admitted rows of a poll. -/
def Conn.send (carried : ρ → Bool) (rows : List ρ) (conn : Conn ρ κ) : Conn ρ κ where
  after := (rows.getLast?.map key).getD conn.after
  frames := conn.frames ++ rows.filter carried

def Ascending (rows : List ρ) : Prop := rows.Pairwise fun row other => key row < key other

/-- What is under way on a connection is of the log, in order, and after the reader's position. -/
structure Ahead (log : List ρ) (position : κ) (conn : Conn ρ κ) : Prop where
  low : position ≤ conn.after
  ordered : Ascending key conn.frames
  within : ∀ row ∈ conn.frames, row ∈ log ∧ position < key row ∧ key row ≤ conn.after

/-- No wanted row up to where a connection has polled is missing on it. -/
def Whole (wanted : ρ → Prop) (log : List ρ) (position : κ) (conn : Conn ρ κ) : Prop :=
  ∀ row ∈ log, wanted row → position < key row → key row ≤ conn.after → row ∈ conn.frames

/-- A reader has taken the wanted rows up to its position, in order, and no others. -/
structure Caught (wanted : ρ → Prop) (log : List ρ) (position : κ) (taken : List ρ) : Prop where
  ordered : Ascending key taken
  exact : ∀ row, row ∈ taken ↔ row ∈ log ∧ wanted row ∧ key row ≤ position

variable {key} {log rows taken : List ρ} {position after : κ} {conn : Conn ρ κ} {row : ρ} {wanted : ρ → Prop}
  {carried : ρ → Bool}

theorem mem_newer : row ∈ newer key log after ↔ row ∈ log ∧ after < key row := by
  simp [newer]

theorem newer_ascending (after : κ) (distinct : (log.map key).Nodup) : Ascending key (newer key log after) := by
  have sorted : (newer key log after).Pairwise fun row other => key row ≤ key other := by
    apply List.pairwise_insertionSort
  have apart : ((newer key log after).map key).Nodup := by
    have kept : ((log.filter fun row => after < key row).map key).Nodup :=
      distinct.sublist (List.filter_sublist.map key)
    exact ((List.perm_insertionSort _ _).map key).nodup_iff.mpr kept
  rw [List.Nodup, List.pairwise_map] at apart
  exact (sorted.and apart).imp fun both => lt_of_le_of_ne both.1 both.2

theorem Ascending.sublist (ascending : Ascending key log) (part : rows.Sublist log) : Ascending key rows :=
  List.Pairwise.sublist part ascending

theorem Ascending.append {more : List ρ} (first : Ascending key rows) (second : Ascending key more)
    (across : ∀ row ∈ rows, ∀ other ∈ more, key row < key other) : Ascending key (rows ++ more) :=
  List.pairwise_append.mpr ⟨first, second, across⟩

theorem Ascending.le_last {last : ρ} (ascending : Ascending key rows) (isLast : rows.getLast? = some last)
    (member : row ∈ rows) : key row ≤ key last := by
  obtain ⟨front, rfl⟩ := List.getLast?_eq_some_iff.mp isLast
  rcases List.mem_append.mp member with before | same
  · exact ((List.pairwise_append.mp ascending).2.2 row before last (List.mem_singleton_self last)).le
  · rw [List.mem_singleton.mp same]

theorem Ascending.nodup (ascending : Ascending key rows) : rows.Nodup := by
  refine List.Pairwise.imp ?_ ascending
  intro row other less equal
  exact lt_irrefl (key row) (equal ▸ less)

theorem Ascending.eq_of_mem_iff {other : List ρ} (ascending : Ascending key rows) (also : Ascending key other)
    (same : ∀ row, row ∈ rows ↔ row ∈ other) : rows = other := by
  have permuted := (List.perm_ext_iff_of_nodup ascending.nodup also.nodup).mpr same
  exact permuted.eq_of_pairwise (fun _ _ _ _ less more => absurd less more.asymm) ascending also

theorem Ahead.opened : Ahead key log position { after := position } where
  low := le_refl position
  ordered := List.Pairwise.nil
  within := fun _ member => absurd member List.not_mem_nil

theorem Ahead.grow {more : List ρ} (ahead : Ahead key log position conn) : Ahead key (log ++ more) position conn where
  low := ahead.low
  ordered := ahead.ordered
  within := fun row member =>
    have facts := ahead.within row member
    ⟨List.mem_append_left _ facts.1, facts.2⟩

theorem Ahead.send (ahead : Ahead key log position conn) (distinct : (log.map key).Nodup)
    (part : rows <+: newer key log conn.after) : Ahead key log position (conn.send key carried rows) := by
  have ascending := (newer_ascending conn.after distinct).sublist part.sublist
  have later : ∀ row ∈ rows, row ∈ log ∧ conn.after < key row := fun row member => mem_newer.mp (part.subset member)
  have reached : conn.after ≤ (conn.send key carried rows).after ∧
      ∀ row ∈ rows, key row ≤ (conn.send key carried rows).after := by
    unfold Conn.send
    cases isLast : rows.getLast? with
    | none => simp [List.getLast?_eq_none_iff.mp isLast]
    | some last =>
        exact ⟨(later last (List.mem_of_getLast? isLast)).2.le, fun row member => ascending.le_last isLast member⟩
  refine ⟨ahead.low.trans reached.1, ?_, ?_⟩
  · refine ahead.ordered.append (ascending.sublist List.filter_sublist) ?_
    intro row member other isOther
    exact lt_of_le_of_lt (ahead.within row member).2.2 (later other (List.mem_of_mem_filter isOther)).2
  · intro row member
    rcases List.mem_append.mp member with old | sent
    · obtain ⟨inLog, above, below⟩ := ahead.within row old
      exact ⟨inLog, above, below.trans reached.1⟩
    · have among := List.mem_of_mem_filter sent
      obtain ⟨inLog, above⟩ := later row among
      exact ⟨inLog, lt_of_le_of_lt ahead.low above, reached.2 row among⟩

theorem Ahead.read {rest : List ρ} (ahead : Ahead key log position conn) (first : conn.frames = row :: rest) :
    Ahead key log (key row) { conn with frames := rest } := by
  have ordered := ahead.ordered
  rw [Ascending, first, List.pairwise_cons] at ordered
  refine ⟨(ahead.within row (first ▸ List.mem_cons_self)).2.2, ordered.2, ?_⟩
  intro other member
  have facts := ahead.within other (first ▸ List.mem_cons_of_mem row member)
  exact ⟨facts.1, ordered.1 other member, facts.2.2⟩

theorem Whole.opened : Whole key wanted log position { after := position } :=
  fun _ _ _ above below => absurd above (not_lt_of_ge below)

theorem Whole.append (whole : Whole key wanted log position conn) (later : conn.after < key row) :
    Whole key wanted (log ++ [row]) position conn := by
  intro other member isWanted above below
  rcases List.mem_append.mp member with old | added
  · exact whole other old isWanted above below
  · rw [List.mem_singleton.mp added] at below
    exact absurd later (not_lt_of_ge below)

theorem Whole.send (whole : Whole key wanted log position conn) (distinct : (log.map key).Nodup)
    (part : rows <+: newer key log conn.after) (admits : ∀ row, wanted row → carried row = true) :
    Whole key wanted log position (conn.send key carried rows) := by
  intro row member isWanted above below
  rcases lt_or_ge conn.after (key row) with newly | before
  · obtain ⟨rest, whole⟩ := part
    have inNewer : row ∈ rows ++ rest := whole ▸ mem_newer.mpr ⟨member, newly⟩
    refine List.mem_append_right _ (List.mem_filter.mpr ⟨?_, admits row isWanted⟩)
    rcases List.mem_append.mp inNewer with sent | unsent
    · exact sent
    · -- a row that the poll left is after the last row it took
      have ascending := newer_ascending conn.after distinct
      rw [← whole] at ascending
      unfold Conn.send at below
      cases isLast : rows.getLast? with
      | none =>
          rw [isLast] at below
          exact absurd newly (not_lt_of_ge below)
      | some last =>
          rw [isLast] at below
          have less := (List.pairwise_append.mp ascending).2.2 last (List.mem_of_getLast? isLast) row unsent
          exact absurd less (not_lt_of_ge below)
  · exact List.mem_append_left _ (whole row member isWanted above before)

theorem Whole.read {rest : List ρ} (whole : Whole key wanted log position conn)
    (ahead : Ahead key log position conn) (first : conn.frames = row :: rest) :
    Whole key wanted log (key row) { conn with frames := rest } := by
  intro other member isWanted above below
  have isSent := whole other member isWanted
    ((ahead.within row (first ▸ List.mem_cons_self)).2.1.trans above) below
  rw [first] at isSent
  rcases List.mem_cons.mp isSent with rfl | later
  · exact absurd above (lt_irrefl _)
  · exact later

theorem Caught.append (caught : Caught key wanted log position taken) (later : position < key row) :
    Caught key wanted (log ++ [row]) position taken := by
  refine ⟨caught.ordered, fun other => (caught.exact other).trans ⟨?_, ?_⟩⟩
  · exact fun facts => ⟨List.mem_append_left _ facts.1, facts.2⟩
  · rintro ⟨member, facts⟩
    rcases List.mem_append.mp member with old | added
    · exact ⟨old, facts⟩
    · rw [List.mem_singleton.mp added] at facts
      exact absurd later (not_lt_of_ge facts.2)

/-- The rows up to the first row on a connection are those up to the position, and that row if it is
wanted. -/
theorem Caught.read [DecidablePred wanted] {rest : List ρ} (caught : Caught key wanted log position taken)
    (ahead : Ahead key log position conn)
    (whole : Whole key wanted log position conn) (first : conn.frames = row :: rest) :
    Caught key wanted log (key row) (taken ++ if wanted row then [row] else []) := by
  obtain ⟨inLog, above, _⟩ := ahead.within row (first ▸ List.mem_cons_self)
  constructor
  · refine caught.ordered.append ?_ ?_
    · split
      · exact List.pairwise_singleton _ _
      · exact List.Pairwise.nil
    · intro one isOne other isOther
      have isRow : other = row := by
        split at isOther
        · exact List.mem_singleton.mp isOther
        · exact absurd isOther List.not_mem_nil
      rw [isRow]
      exact lt_of_le_of_lt ((caught.exact one).mp isOne).2.2 above
  · intro other
    rw [List.mem_append, caught.exact other]
    constructor
    · rintro (⟨isOther, isWanted, below⟩ | isOther)
      · exact ⟨isOther, isWanted, below.trans above.le⟩
      · split at isOther
        · rw [List.mem_singleton.mp isOther]
          exact ⟨inLog, ‹wanted row›, le_refl _⟩
        · exact absurd isOther List.not_mem_nil
    · rintro ⟨isOther, isWanted, below⟩
      rcases lt_or_ge position (key other) with newly | before
      · right
        have sent := whole other isOther isWanted newly
          (below.trans (ahead.within row (first ▸ List.mem_cons_self)).2.2)
        have ordered := ahead.ordered
        rw [first] at sent
        rw [Ascending, first, List.pairwise_cons] at ordered
        rcases List.mem_cons.mp sent with rfl | later
        · rw [if_pos isWanted]
          exact List.mem_singleton_self _
        · exact absurd (ordered.1 other later) (not_lt_of_ge below)
      · exact Or.inl ⟨isOther, isWanted, before⟩

theorem Caught.lower {lower : κ} (caught : Caught key wanted log position taken) (below : lower ≤ position)
    (within : ∀ row ∈ taken, key row ≤ lower) : Caught key wanted log lower taken := by
  refine ⟨caught.ordered, fun row => ⟨fun member => ?_, fun facts => ?_⟩⟩
  · obtain ⟨inLog, isWanted, _⟩ := (caught.exact row).mp member
    exact ⟨inLog, isWanted, within row member⟩
  · exact (caught.exact row).mpr ⟨facts.1, facts.2.1, facts.2.2.trans below⟩

theorem Caught.upTo (caught : Caught key wanted log position taken) (ahead : Ahead key log position conn)
    (whole : Whole key wanted log position conn) (nothing : conn.frames = []) :
    Caught key wanted log conn.after taken := by
  refine ⟨caught.ordered, fun row => (caught.exact row).trans ⟨fun facts => ?_, fun facts => ?_⟩⟩
  · exact ⟨facts.1, facts.2.1, facts.2.2.trans ahead.low⟩
  · refine ⟨facts.1, facts.2.1, ?_⟩
    by_contra above
    have sent := whole row facts.1 facts.2.1 (not_le.mp above) facts.2.2
    rw [nothing] at sent
    exact List.not_mem_nil sent

theorem Caught.eq_filter [DecidablePred wanted] (caught : Caught key wanted log position taken)
    (ascending : Ascending key log) :
    taken = log.filter fun row => decide (wanted row) && decide (key row ≤ position) := by
  refine caught.ordered.eq_of_mem_iff (ascending.sublist List.filter_sublist) fun row => ?_
  rw [caught.exact row, List.mem_filter, Bool.and_eq_true, decide_eq_true_eq, decide_eq_true_eq]

end CultureNodes.Feed
