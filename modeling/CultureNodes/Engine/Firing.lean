import CultureNodes.Engine.Counted
import CultureNodes.Engine.Ownership
import CultureNodes.Compiler.Parallel

/-!
A group fires once. The condition is on each step: of the joins that a split points straight at, one
fires at most when the split is made. Where two do, the settle loop fires a barrier that the first
firing has already reaped.
-/

namespace CultureNodes.Engine

section

variable {env : Env} {wf : Workflow} {allowed : RunDb → Action → Prop} {db : RunDb}

theorem Reaches.counted (reaches : Reaches env wf allowed db)
    (safe : ∀ db action, allowed db action → FanOutSafe env wf db action) :
    Counted wf (.idle, db) := by
  obtain ⟨created, initial, turns⟩ := reaches.turns True False (fun _ => safe) False.elim
  exact Turns.counted turns trivial initial.standing initial.linked initial.recorded initial.counted

theorem Steps.extends {later : RunDb} (steps : Steps (RunDb.step env wf) allowed db later)
    (standing : Standing wf (.idle, db)) : Extends db later := by
  have both : Standing wf (.idle, later) ∧ Extends db later := by
    induction steps with
    | refl => exact ⟨standing, .of_eq rfl rfl⟩
    | @tail middle last action _ _ stepped ih =>
        have turns : Turns wf False False (.idle, middle) (.idle, last) :=
          act_turns ih.1 False.elim False.elim False.elim stepped
        exact ⟨Turns.standing turns ih.1, ih.2.trans (Turns.extends turns)⟩
  exact both.2

/-- One barrier of a group fires at most, and a node run that has ended is written no other state and
given no work: not by a later entry of the journal, and not by a later step. -/
theorem fires_once_and_ended_stays (reaches : Reaches env wf (FanOutSafe env wf) db) :
    db.firedGroups.Nodup ∧
    db.journal.Pairwise (fun newer older => older.allows newer = true) ∧
    ∀ later, Steps (RunDb.step env wf) (FanOutSafe env wf) db later →
      ∀ run ∈ db.nodeRuns, run.state.terminal = true →
        ∃ kept ∈ later.nodeRuns, kept.stand = run.stand ∧ kept.state = run.state := by
  have safe : ∀ db action, FanOutSafe env wf db action → FanOutSafe env wf db action :=
    fun _ _ held => held
  obtain ⟨keyed, _, recorded⟩ := reaches.linked safe
  refine ⟨(reaches.counted safe).once, recorded.final, fun later steps run member ended => ?_⟩
  obtain ⟨input, now, created, made, before⟩ := reaches
  obtain ⟨_, _, recordedLater⟩ := Reaches.linked ⟨input, now, created, made, before.trans steps⟩ safe
  exact recorded.ended_stays recordedLater
    (Steps.extends steps ⟨keyed, trivial, fun held => absurd rfl held⟩) member ended

end

theorem fires_once_and_ended_stays_shortcut : ∃ db,
    Reaches Env.permissive shortcut (FanOutSafe Env.permissive shortcut) db ∧
      db.firedGroups.length = 1 ∧ db.firedGroups.Nodup := by
  have ran : (replay Env.permissive shortcut (fun _ _ => true)
      (succeed 2 "split" ++ succeed 10 "joined")).map (fun db => db.firedGroups.length) = some 1 := by
    decide
  obtain ⟨db, reached, once⟩ := Option.map_eq_some_iff.mp ran
  have single : shortcut.SingleJoinSplits := by decide
  have reaches : Reaches Env.permissive shortcut (FanOutSafe Env.permissive shortcut) db :=
    Reaches.of_replay (fun db action _ => single.fanOutSafe db action) reached
  exact ⟨db, reaches, once, (fires_once_and_ended_stays reaches).1⟩

/-- A split straight into two joins, each of which any arrival fires. -/
def twoDoors : Compiler.Document where
  entry := "fan"
  nodes :=
    [("done", { kind := .endNode }),
     ("east", { kind := .join, join := some ⟨.any, none⟩ }),
     ("fan", { kind := .parallel }),
     ("west", { kind := .join, join := some ⟨.any, none⟩ })]
  edges :=
    [{ source := "east.joined", target := "done" },
     { source := "fan.split", target := "east" },
     { source := "fan.split", target := "west" },
     { source := "west.joined", target := "done" }]
  nodesSorted := by decide

/-- The outcomes of the nodes below, by their kind. -/
def fixedOutcomes (doc : Compiler.Document) (id : String) : NodeSettings :=
  match doc.kind? id with
  | some .parallel => { outcomes := ["split"] }
  | some .join => { outcomes := ["joined"] }
  | some .code => { outcomes := ["built"] }
  | _ => {}

def twoDoorsLoaded : Workflow where
  entry := "fan"
  limits := { maxParallelTokens := 2 }
  nodes := [
    { id := "done", kind := .endNode },
    { id := "east", kind := .join, outcomes := ["joined"], joinPolicy := some .any },
    { id := "fan", kind := .parallel, outcomes := ["split"] },
    { id := "west", kind := .join, outcomes := ["joined"], joinPolicy := some .any }]
  edges := [
    { source := "east.joined", fromNode := "east", fromOutcome := "joined", target := "done" },
    { source := "fan.split", fromNode := "fan", fromOutcome := "split", target := "east" },
    { source := "fan.split", fromNode := "fan", fromOutcome := "split", target := "west" },
    { source := "west.joined", fromNode := "west", fromOutcome := "joined", target := "done" }]

theorem twoDoors_load :
    Workflow.load twoDoors { maxParallelTokens := 2 } (fixedOutcomes twoDoors) = twoDoorsLoaded := by
  rw [Workflow.load, normalizeEdges_of_sorted (by decide)]
  decide

/-- Both barriers of the one group fire; the second was reaped by the first, is made ready again and
given work. -/
theorem twoDoors_fires_twice : ∃ db, twoDoors.checkParallelJoin = [] ∧
    Reaches Env.permissive
      (Workflow.load twoDoors { maxParallelTokens := 2 } (fixedOutcomes twoDoors)) anyAction db ∧
    ¬ db.firedGroups.Nodup ∧
    ¬ db.journal.Pairwise (fun newer older => older.allows newer = true) ∧
    ∃ run ∈ db.nodeRuns, Entry.wrote run.id .cancelled ∈ db.journal ∧ run.state = .ready := by
  have ran : (replay Env.permissive twoDoorsLoaded (fun _ _ => true) (succeed 2 "split")).map (fun db =>
      decide (¬ db.firedGroups.Nodup ∧
        ¬ db.journal.Pairwise (fun newer older => older.allows newer = true) ∧
        ∃ run ∈ db.nodeRuns, Entry.wrote run.id .cancelled ∈ db.journal ∧ run.state = .ready)) =
      some true := by decide +kernel
  obtain ⟨db, reached, broken⟩ := Option.map_eq_some_iff.mp ran
  rw [twoDoors_load]
  exact ⟨db, by decide +kernel, Reaches.of_replay (fun _ _ _ => trivial) reached,
    of_decide_eq_true broken⟩

end CultureNodes.Engine
