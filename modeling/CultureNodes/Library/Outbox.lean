import Mathlib.Data.List.Flatten
import Mathlib.Data.List.Nodup
import Mathlib.Data.List.Pairwise
import Mathlib.Data.List.Perm.Subperm
import CultureNodes.Library.Table

/-!
A table whose rows are handed on by transactions. A transaction locks rows that no other transaction has
locked and deals with them one after the other: it acts outside the database for a row, any number of times,
and then rewrites it. A commit puts the rewritten rows in their place. A transaction that is broken off
leaves the rows as they were, but what it did outside stays done.
-/

namespace CultureNodes.Outbox

variable {ρ κ ε : Type}

/-- A row as it was read, what was done outside for it, and the row it became. -/
structure Rewrite (ρ ε : Type) where
  before : ρ
  made : List ε
  after : ρ
deriving DecidableEq, Repr

/-- A transaction in flight: the rows it has still to deal with, what it has done outside for the first of
them, and the rows it has rewritten. -/
structure Batch (ρ ε : Type) where
  worker : Nat
  left : List ρ
  begun : List ε := []
  written : List (Rewrite ρ ε) := []
deriving DecidableEq, Repr

def Batch.locked (batch : Batch ρ ε) : List ρ := batch.written.map Rewrite.before ++ batch.left

def Batch.begin (batch : Batch ρ ε) (effect : ε) : Batch ρ ε :=
  { batch with begun := batch.begun ++ [effect] }

/-- Rewrite the first row that is left. -/
def Batch.settle (batch : Batch ρ ε) (after : ρ) : Batch ρ ε :=
  match batch.left with
  | [] => batch
  | row :: rest =>
      { batch with left := rest, begun := [], written := batch.written ++ [⟨row, batch.begun, after⟩] }

/-- The table, the transactions in flight, what has been done outside and the rewritten rows that were
committed, the last two oldest first. -/
structure State (ρ ε : Type) where
  rows : List ρ := []
  batches : List (Batch ρ ε) := []
  effects : List ε := []
  settled : List (Rewrite ρ ε) := []
deriving DecidableEq, Repr

/-- What the transactions of a table do: the rows that are inserted and that are locked, what is done outside
for a row, and what a row becomes after what was done for it. -/
structure Rules (ρ κ ε : Type) where
  key : ρ → κ
  new : ρ → Prop
  ready : ρ → Prop
  makes : ρ → ε → Prop
  writes : ρ → List ε → ρ → Prop
  keyed : ∀ row made after, writes row made after → key after = key row

/-- The rewritten row in place of the one it was read from. -/
def rewriteRows [DecidableEq κ] (key : ρ → κ) (rows : List ρ) (written : List (Rewrite ρ ε)) : List ρ :=
  rows.map fun row => ((written.find? (key ·.before = key row)).map Rewrite.after).getD row

namespace State

variable (state : State ρ ε)

def lockedKeys (key : ρ → κ) : List κ := state.batches.flatMap fun batch => batch.locked.map key

/-- The rows that no transaction has locked. -/
def unlocked [DecidableEq κ] (key : ρ → κ) : List ρ :=
  state.rows.filter fun row => key row ∉ state.lockedKeys key

def insert (row : ρ) : State ρ ε := { state with rows := state.rows ++ [row] }

def select (worker : Nat) (rows : List ρ) : State ρ ε :=
  { state with batches := { worker := worker, left := rows } :: state.batches }

def replace (batch : Batch ρ ε) : State ρ ε :=
  { state with batches := Table.update state.batches (·.worker = batch.worker) fun _ => batch }

def drop (worker : Nat) : State ρ ε :=
  { state with batches := state.batches.filter (·.worker ≠ worker) }

def commit [DecidableEq κ] (key : ρ → κ) (batch : Batch ρ ε) : State ρ ε :=
  { state.drop batch.worker with
    rows := rewriteRows key state.rows batch.written
    settled := state.settled ++ batch.written }

end State

/-- One step of a table under its rules. -/
inductive Step [DecidableEq κ] (rules : Rules ρ κ ε) (state : State ρ ε) : State ρ ε → Prop where
  | insert {row : ρ} (new : rules.new row) (fresh : rules.key row ∉ state.rows.map rules.key) :
      Step rules state (state.insert row)
  | select {worker : Nat} {rows : List ρ} (idle : worker ∉ state.batches.map Batch.worker)
      (chosen : rows.Subperm (state.unlocked rules.key)) (ready : ∀ row ∈ rows, rules.ready row) :
      Step rules state (state.select worker rows)
  | begin {batch : Batch ρ ε} {row : ρ} {rest : List ρ} {effect : ε} (running : batch ∈ state.batches)
      (first : batch.left = row :: rest) (makes : rules.makes row effect) :
      Step rules state { state.replace (batch.begin effect) with effects := state.effects ++ [effect] }
  | settle {batch : Batch ρ ε} {row after : ρ} {rest : List ρ} (running : batch ∈ state.batches)
      (first : batch.left = row :: rest) (writes : rules.writes row batch.begun after) :
      Step rules state (state.replace (batch.settle after))
  | commit {batch : Batch ρ ε} (running : batch ∈ state.batches) (done : batch.left = []) :
      Step rules state (state.commit rules.key batch)
  | abandon (worker : Nat) : Step rules state (state.drop worker)

/-- The committed rewrites of a row, oldest first, from the row as it was inserted to the row as it is. -/
inductive Chain (rules : Rules ρ κ ε) : List (Rewrite ρ ε) → ρ → Prop where
  | new {row : ρ} : rules.new row → Chain rules [] row
  | next {earlier : List (Rewrite ρ ε)} {rewrite : Rewrite ρ ε} : Chain rules earlier rewrite.before →
      rules.ready rewrite.before → rules.writes rewrite.before rewrite.made rewrite.after →
      Chain rules (earlier ++ [rewrite]) rewrite.after

namespace Chain

variable {rules : Rules ρ κ ε} {rewrites : List (Rewrite ρ ε)} {row : ρ}

theorem length_eq (count : ρ → Nat) (initial : ∀ row, rules.new row → count row = 0)
    (counted : ∀ row made after, rules.ready row → rules.writes row made after → count after = count row + 1)
    (chain : Chain rules rewrites row) : rewrites.length = count row := by
  induction chain with
  | new isNew => exact (initial _ isNew).symm
  | next _ ready writes ih => rw [List.length_append, ih, counted _ _ _ ready writes]; rfl

theorem exists_last (chain : Chain rules rewrites row) (rewritten : rewrites ≠ []) :
    ∃ rewrite ∈ rewrites, rewrite.after = row ∧ rules.writes rewrite.before rewrite.made row := by
  cases chain with
  | new => exact absurd rfl rewritten
  | next _ _ writes => exact ⟨_, List.mem_append_right _ (List.mem_singleton_self _), rfl, writes⟩

end Chain

/-- What holds of a table in every reachable state. -/
structure Sound (rules : Rules ρ κ ε) [DecidableEq κ] (state : State ρ ε) : Prop where
  distinct : (state.rows.map rules.key).Nodup
  workers : (state.batches.map Batch.worker).Nodup
  apart : (state.lockedKeys rules.key).Nodup
  current : ∀ batch ∈ state.batches, ∀ row ∈ batch.locked, row ∈ state.rows ∧ rules.ready row
  begun : ∀ batch ∈ state.batches, ∀ effect ∈ batch.begun, effect ∈ state.effects
  written : ∀ batch ∈ state.batches, ∀ rewrite ∈ batch.written,
    rules.writes rewrite.before rewrite.made rewrite.after ∧ ∀ effect ∈ rewrite.made, effect ∈ state.effects
  settled : ∀ rewrite ∈ state.settled, ∀ effect ∈ rewrite.made, effect ∈ state.effects
  known : ∀ rewrite ∈ state.settled, rules.key rewrite.before ∈ state.rows.map rules.key
  traced : ∀ row ∈ state.rows,
    Chain rules (state.settled.filter (rules.key ·.before = rules.key row)) row

theorem Batch.settle_locked {batch : Batch ρ ε} {row after : ρ} {rest : List ρ}
    (first : batch.left = row :: rest) : (batch.settle after).locked = batch.locked := by
  simp [Batch.settle, Batch.locked, first]

theorem Batch.settle_worker {batch : Batch ρ ε} {after : ρ} : (batch.settle after).worker = batch.worker := by
  unfold Batch.settle
  split <;> rfl

section

variable [DecidableEq κ] {rules : Rules ρ κ ε} {state : State ρ ε} {batch other : Batch ρ ε}

theorem mem_replace (among : other ∈ (state.replace batch).batches) :
    other = batch ∨ other ∈ state.batches ∧ other.worker ≠ batch.worker := by
  obtain ⟨old, isOld, rfl⟩ := Table.mem_update.mp among
  by_cases same : old.worker = batch.worker
  · simp [same]
  · simp [same, isOld]

namespace Sound

theorem initial : Sound rules ({} : State ρ ε) := by
  constructor <;> simp [State.lockedKeys]

theorem apart_keys (sound : Sound rules state) {row held : ρ} (running : batch ∈ state.batches)
    (runningToo : other ∈ state.batches) (differ : other.worker ≠ batch.worker) (locked : row ∈ batch.locked)
    (lockedToo : held ∈ other.locked) : rules.key held ≠ rules.key row := by
  intro same
  have pairs := (List.nodup_flatMap.mp sound.apart).2
  have : Std.Symm (Function.onFun List.Disjoint fun batch : Batch ρ ε => batch.locked.map rules.key) :=
    ⟨fun _ _ disjoint _ here there => disjoint there here⟩
  have disjoint := pairs.forall runningToo running fun equal => differ (equal ▸ rfl)
  exact disjoint (List.mem_map_of_mem lockedToo) (same ▸ List.mem_map_of_mem locked)

theorem locked_distinct (sound : Sound rules state) (running : batch ∈ state.batches) :
    (batch.locked.map rules.key).Nodup :=
  (List.nodup_flatMap.mp sound.apart).1 batch running

theorem eq_of_worker (sound : Sound rules state) (running : batch ∈ state.batches)
    (runningToo : other ∈ state.batches) (same : other.worker = batch.worker) : other = batch :=
  Table.eq_of_key sound.workers runningToo running same

theorem insert {row : ρ} (sound : Sound rules state) (new : rules.new row)
    (fresh : rules.key row ∉ state.rows.map rules.key) : Sound rules (state.insert row) where
  distinct := Table.keys_append_nodup sound.distinct fresh
  workers := sound.workers
  apart := sound.apart
  current := fun batch running held locked =>
    have now := sound.current batch running held locked
    ⟨List.mem_append_left _ now.1, now.2⟩
  begun := sound.begun
  written := sound.written
  settled := sound.settled
  known := by
    intro rewrite isSettled
    rw [State.insert, List.map_append]
    exact List.mem_append_left _ (sound.known rewrite isSettled)
  traced := by
    intro old member
    rcases List.mem_append.mp member with there | added
    · exact sound.traced old there
    · obtain rfl := List.mem_singleton.mp added
      have untouched : state.settled.filter (rules.key ·.before = rules.key old) = [] := by
        rw [List.filter_eq_nil_iff]
        intro rewrite isSettled same
        exact fresh (of_decide_eq_true same ▸ sound.known rewrite isSettled)
      show Chain rules (state.settled.filter _) old
      rw [untouched]
      exact .new new

theorem select {worker : Nat} {rows : List ρ} (sound : Sound rules state)
    (idle : worker ∉ state.batches.map Batch.worker) (chosen : rows.Subperm (state.unlocked rules.key))
    (ready : ∀ row ∈ rows, rules.ready row) : Sound rules (state.select worker rows) where
  distinct := sound.distinct
  workers := List.nodup_cons.mpr ⟨idle, sound.workers⟩
  apart := by
    obtain ⟨ordered, permuted, part⟩ := chosen
    have unlocked := (sound.distinct.sublist (List.filter_sublist.map rules.key)).sublist (part.map rules.key)
    show (rows.map rules.key ++ state.lockedKeys rules.key).Nodup
    refine List.nodup_append.mpr ⟨(permuted.map _).nodup_iff.mp unlocked, sound.apart, ?_⟩
    rintro name isChosen other isLocked rfl
    obtain ⟨row, member, rfl⟩ := List.mem_map.mp isChosen
    have free := (List.mem_filter.mp (part.subset (permuted.mem_iff.mpr member))).2
    exact of_decide_eq_true free isLocked
  current := by
    intro batch running row locked
    rcases List.mem_cons.mp running with rfl | old
    · exact ⟨List.mem_of_mem_filter (chosen.subset locked), ready row locked⟩
    · exact sound.current batch old row locked
  begun := by
    intro batch running
    rcases List.mem_cons.mp running with rfl | old
    · simp
    · exact sound.begun batch old
  written := by
    intro batch running
    rcases List.mem_cons.mp running with rfl | old
    · simp
    · exact sound.written batch old
  settled := sound.settled
  known := sound.known
  traced := sound.traced

theorem lockedKeys_replace (sound : Sound rules state) (running : other ∈ state.batches)
    (same : batch.worker = other.worker) (kept : batch.locked = other.locked) :
    (state.replace batch).lockedKeys rules.key = state.lockedKeys rules.key := by
  unfold State.lockedKeys State.replace Table.update
  rw [List.flatMap_map]
  apply List.flatMap_congr
  intro any isAny
  split
  · rename_i isIt
    rw [kept, sound.eq_of_worker running isAny ((of_decide_eq_true isIt).trans same)]
  · rfl

theorem replace (sound : Sound rules state) (running : other ∈ state.batches)
    (same : batch.worker = other.worker) (kept : batch.locked = other.locked)
    (begun : ∀ effect ∈ batch.begun, effect ∈ state.effects)
    (written : ∀ rewrite ∈ batch.written, rules.writes rewrite.before rewrite.made rewrite.after ∧
      ∀ effect ∈ rewrite.made, effect ∈ state.effects) : Sound rules (state.replace batch) where
  distinct := sound.distinct
  workers := by
    unfold State.replace
    rw [Table.update_keys_of_mem]
    · exact sound.workers
    · intro old _ isIt
      exact (of_decide_eq_true isIt).symm
  apart := by
    rw [sound.lockedKeys_replace running same kept]
    exact sound.apart
  current := by
    intro any among row locked
    rcases mem_replace among with rfl | ⟨old, -⟩
    · exact sound.current other running row (kept ▸ locked)
    · exact sound.current any old row locked
  begun := by
    intro any among
    rcases mem_replace among with rfl | ⟨old, -⟩
    · exact begun
    · exact sound.begun any old
  written := by
    intro any among
    rcases mem_replace among with rfl | ⟨old, -⟩
    · exact written
    · exact sound.written any old
  settled := sound.settled
  known := sound.known
  traced := sound.traced

/-- More may have been done outside. -/
theorem effects (sound : Sound rules state) (more : List ε) :
    Sound rules { state with effects := state.effects ++ more } where
  distinct := sound.distinct
  workers := sound.workers
  apart := sound.apart
  current := sound.current
  begun := fun batch running effect isBegun => List.mem_append_left _ (sound.begun batch running effect isBegun)
  written := fun batch running rewrite isWritten =>
    have now := sound.written batch running rewrite isWritten
    ⟨now.1, fun effect isMade => List.mem_append_left _ (now.2 effect isMade)⟩
  settled := fun rewrite isSettled effect isMade =>
    List.mem_append_left _ (sound.settled rewrite isSettled effect isMade)
  known := sound.known
  traced := sound.traced

theorem drop (sound : Sound rules state) (worker : Nat) : Sound rules (state.drop worker) where
  distinct := sound.distinct
  workers := sound.workers.sublist (List.filter_sublist.map _)
  apart := sound.apart.sublist (List.filter_sublist.flatMap _)
  current := fun batch running => sound.current batch (List.mem_of_mem_filter running)
  begun := fun batch running => sound.begun batch (List.mem_of_mem_filter running)
  written := fun batch running => sound.written batch (List.mem_of_mem_filter running)
  settled := sound.settled
  known := sound.known
  traced := sound.traced

end Sound

/-- What the commit of a finished batch makes of a row. -/
inductive Settles (batch : Batch ρ ε) (row : ρ) : ρ → Prop where
  | rewritten {rewrite : Rewrite ρ ε} : rewrite ∈ batch.written → rewrite.before = row →
      Settles batch row rewrite.after
  | kept : row ∉ batch.written.map Rewrite.before → Settles batch row row

theorem Sound.settles (sound : Sound rules state) (running : batch ∈ state.batches) {row : ρ}
    (member : row ∈ state.rows) :
    Settles batch row (((batch.written.find? (rules.key ·.before = rules.key row)).map Rewrite.after).getD row) := by
  cases found : batch.written.find? (rules.key ·.before = rules.key row) with
  | some rewrite =>
      have isWritten := List.mem_of_find?_eq_some found
      have locked : rewrite.before ∈ batch.locked :=
        List.mem_append_left _ (List.mem_map_of_mem isWritten)
      have same := List.find?_some found
      rw [decide_eq_true_eq] at same
      exact .rewritten isWritten
        (Table.eq_of_key sound.distinct (sound.current batch running _ locked).1 member same)
  | none =>
      refine .kept fun isWritten => ?_
      obtain ⟨rewrite, among, rfl⟩ := List.mem_map.mp isWritten
      exact List.find?_eq_none.mp found rewrite among (decide_eq_true rfl)

theorem Sound.mem_commit (sound : Sound rules state) (running : batch ∈ state.batches) {after : ρ}
    (member : after ∈ (state.commit rules.key batch).rows) :
    ∃ row ∈ state.rows, Settles batch row after := by
  obtain ⟨row, isRow, rfl⟩ := List.mem_map.mp member
  exact ⟨row, isRow, sound.settles running isRow⟩

theorem Sound.key_of_settles (sound : Sound rules state) (running : batch ∈ state.batches) {row after : ρ}
    (settles : Settles batch row after) : rules.key after = rules.key row := by
  cases settles with
  | kept => rfl
  | rewritten isWritten isBefore =>
      rw [← isBefore]
      exact rules.keyed _ _ _ (sound.written batch running _ isWritten).1

theorem Sound.commit_keys (sound : Sound rules state) (running : batch ∈ state.batches) :
    (state.commit rules.key batch).rows.map rules.key = state.rows.map rules.key := by
  show (rewriteRows rules.key state.rows batch.written).map rules.key = _
  unfold rewriteRows
  rw [List.map_map]
  apply List.map_congr_left
  intro row member
  exact sound.key_of_settles running (sound.settles running member)

theorem mem_commit_of_unlocked {row : ρ} (member : row ∈ state.rows) (unlocked : ∀ held ∈ batch.locked, rules.key held ≠ rules.key row) :
    row ∈ (state.commit rules.key batch).rows := by
  refine List.mem_map.mpr ⟨row, member, ?_⟩
  have absent : batch.written.find? (rules.key ·.before = rules.key row) = none := by
    rw [List.find?_eq_none]
    intro rewrite isWritten same
    exact unlocked _ (List.mem_append_left _ (List.mem_map_of_mem isWritten)) (of_decide_eq_true same)
  rw [absent]
  rfl

theorem Sound.written_key (sound : Sound rules state) (running : batch ∈ state.batches) {row after : ρ}
    (member : row ∈ state.rows) (settles : Settles batch row after) :
    batch.written.filter (rules.key ·.before = rules.key row) = [] ∧ after = row ∨
      ∃ rewrite, batch.written.filter (rules.key ·.before = rules.key row) = [rewrite] ∧
        rewrite.before = row ∧ rewrite.after = after := by
  have keys : (batch.written.map (rules.key ·.before)).Nodup := by
    have whole := sound.locked_distinct running
    unfold Batch.locked at whole
    rw [List.map_append, List.map_map] at whole
    exact (List.nodup_append.mp whole).1
  cases settles with
  | kept absent =>
      refine Or.inl ⟨?_, rfl⟩
      rw [List.filter_eq_nil_iff]
      intro rewrite isWritten same
      have locked : rewrite.before ∈ batch.locked := List.mem_append_left _ (List.mem_map_of_mem isWritten)
      have equal := Table.eq_of_key sound.distinct (sound.current batch running _ locked).1 member
        (of_decide_eq_true same)
      exact absent (equal ▸ List.mem_map_of_mem isWritten)
  | @rewritten rewrite isWritten isBefore =>
      refine Or.inr ⟨rewrite, ?_, isBefore, rfl⟩
      subst isBefore
      have nodup : (batch.written.filter (rules.key ·.before = rules.key rewrite.before)).Nodup :=
        keys.of_map.filter _
      have only : ∀ any ∈ batch.written.filter (rules.key ·.before = rules.key rewrite.before), any = rewrite := by
        intro any among
        obtain ⟨isAny, same⟩ := List.mem_filter.mp among
        exact Table.eq_of_key keys isAny isWritten (of_decide_eq_true same)
      have itself : rewrite ∈ batch.written.filter (rules.key ·.before = rules.key rewrite.before) :=
        List.mem_filter.mpr ⟨isWritten, decide_eq_true rfl⟩
      exact List.perm_singleton.mp ((List.perm_ext_iff_of_nodup nodup (List.nodup_singleton _)).mpr fun any =>
        ⟨fun among => List.mem_singleton.mpr (only any among), fun isIt =>
          List.mem_singleton.mp isIt ▸ itself⟩)

theorem Sound.commit (sound : Sound rules state) (running : batch ∈ state.batches) :
    Sound rules (state.commit rules.key batch) where
  distinct := by
    rw [sound.commit_keys running]
    exact sound.distinct
  workers := (sound.drop batch.worker).workers
  apart := (sound.drop batch.worker).apart
  current := by
    intro other among row locked
    obtain ⟨runningToo, differs⟩ := List.mem_filter.mp among
    have now := sound.current other runningToo row locked
    refine ⟨mem_commit_of_unlocked now.1 fun held isHeld => ?_, now.2⟩
    exact fun same => sound.apart_keys running runningToo (of_decide_eq_true differs) isHeld locked same.symm
  begun := (sound.drop batch.worker).begun
  written := (sound.drop batch.worker).written
  settled := by
    intro rewrite isSettled
    rcases List.mem_append.mp isSettled with old | added
    · exact sound.settled rewrite old
    · exact (sound.written batch running rewrite added).2
  known := by
    intro rewrite isSettled
    rw [sound.commit_keys running]
    rcases List.mem_append.mp isSettled with old | added
    · exact sound.known rewrite old
    · have locked : rewrite.before ∈ batch.locked := List.mem_append_left _ (List.mem_map_of_mem added)
      exact List.mem_map_of_mem (sound.current batch running _ locked).1
  traced := by
    intro after member
    obtain ⟨row, isRow, settles⟩ := sound.mem_commit running member
    show Chain rules ((state.settled ++ batch.written).filter (rules.key ·.before = rules.key after)) after
    rw [sound.key_of_settles running settles, List.filter_append]
    rcases sound.written_key running isRow settles with ⟨untouched, rfl⟩ | ⟨rewrite, only, rfl, rfl⟩
    · rw [untouched, List.append_nil]
      exact sound.traced after isRow
    · have isWritten : rewrite ∈ batch.written :=
        List.mem_of_mem_filter (only ▸ List.mem_singleton_self rewrite)
      have locked : rewrite.before ∈ batch.locked := List.mem_append_left _ (List.mem_map_of_mem isWritten)
      rw [only]
      exact .next (sound.traced _ isRow) (sound.current batch running _ locked).2
        (sound.written batch running rewrite isWritten).1

theorem Sound.step {next : State ρ ε} (sound : Sound rules state) (step : Step rules state next) :
    Sound rules next := by
  cases step with
  | insert new fresh => exact sound.insert new fresh
  | select idle chosen ready => exact sound.select idle chosen ready
  | @begin batch row rest effect running first makes =>
      have wider := sound.effects [effect]
      refine Sound.replace wider running rfl rfl ?_ (wider.written batch running)
      intro made isBegun
      rcases List.mem_append.mp isBegun with old | added
      · exact wider.begun batch running made old
      · exact List.mem_append_right _ added
  | @settle batch row after rest running first writes =>
      refine sound.replace running Batch.settle_worker (Batch.settle_locked first) ?_ ?_
      · simp [Batch.settle, first]
      · intro rewrite isWritten
        simp only [Batch.settle, first, List.mem_append, List.mem_singleton] at isWritten
        rcases isWritten with old | rfl
        · exact sound.written batch running rewrite old
        · exact ⟨writes, sound.begun batch running⟩
  | commit running => exact sound.commit running
  | abandon worker => exact sound.drop worker

/-- What was done outside was done for a row of the table, where a rewrite takes nothing back of what may be
done for a row. -/
theorem Sound.made_for_row {next : State ρ ε} (sound : Sound rules state)
    (lasting : ∀ row made after effect, rules.writes row made after → rules.makes row effect →
      rules.makes after effect)
    (before : ∀ effect ∈ state.effects, ∃ row ∈ state.rows, rules.makes row effect)
    (step : Step rules state next) : ∀ effect ∈ next.effects, ∃ row ∈ next.rows, rules.makes row effect := by
  intro effect isMade
  cases step with
  | insert =>
      obtain ⟨row, isRow, makes⟩ := before effect isMade
      exact ⟨row, List.mem_append_left _ isRow, makes⟩
  | select => exact before effect isMade
  | settle => exact before effect isMade
  | abandon => exact before effect isMade
  | @begin batch row rest new running first makes =>
      rcases List.mem_append.mp isMade with old | added
      · exact before effect old
      · obtain rfl := List.mem_singleton.mp added
        have locked : row ∈ batch.locked := List.mem_append_right _ (first ▸ List.mem_cons_self)
        exact ⟨row, (sound.current batch running row locked).1, makes⟩
  | @commit batch running =>
      obtain ⟨row, isRow, makes⟩ := before effect isMade
      have settles := sound.settles running isRow
      refine ⟨_, List.mem_map_of_mem isRow, ?_⟩
      generalize ((batch.written.find? (rules.key ·.before = rules.key row)).map Rewrite.after).getD row = after
        at settles ⊢
      cases settles with
      | kept => exact makes
      | rewritten isWritten isBefore =>
          exact lasting _ _ _ _ (sound.written batch running _ isWritten).1 (isBefore ▸ makes)

end

end CultureNodes.Outbox
