import Mathlib.Data.List.Induction
import CultureNodes.Engine.Refine

/-!
Who owns what. In a workflow whose splits feed one join at most straight away, every run is a series
of strict turns, so tokens, node runs and work items stay linked whatever the transactions are.
-/

namespace CultureNodes.Engine

namespace Workflow

variable (wf : Workflow)

def splitEdge (edge : Edge) : Bool :=
  wf.kind? edge.fromNode = some .parallel && edge.fromOutcome = outcomeSplit

/-- No parallel node has split edges into two different joins. -/
def SingleJoinSplits : Prop :=
  ∀ left ∈ wf.edges, ∀ right ∈ wf.edges, wf.splitEdge left = true → wf.splitEdge right = true →
    left.fromNode = right.fromNode → wf.toJoin left = true → wf.toJoin right = true →
    left.target = right.target

instance : Decidable wf.SingleJoinSplits := by
  unfold SingleJoinSplits
  infer_instance

variable {wf}

theorem mem_straightJoins {edges : List Edge} {join : Node} (member : join ∈ wf.straightJoins edges) :
    ∃ edge ∈ edges, wf.node? edge.target = some join ∧ join.kind = .join := by
  induction edges using List.reverseRecOn with
  | nil => simp [straightJoins] at member
  | append_singleton done edge ih =>
      have earlier : join ∈ wf.straightJoins done →
          ∃ edge' ∈ done ++ [edge], wf.node? edge'.target = some join ∧ join.kind = .join := by
        intro old
        obtain ⟨source, sourceMember, found⟩ := ih old
        exact ⟨source, List.mem_append_left _ sourceMember, found⟩
      rw [straightJoins_append, addJoin] at member
      split at member
      · exact earlier member
      · rename_i next found
        split at member
        · rename_i added
          rcases List.mem_append.mp member with old | new
          · exact earlier old
          · rw [List.mem_singleton.mp new]
            refine ⟨edge, List.mem_append_right _ (List.mem_singleton.mpr rfl), found, ?_⟩
            simpa using (Bool.and_eq_true_iff.mp added).1
        · exact earlier member

theorem straightJoins_nodup (wf : Workflow) (edges : List Edge) : ((wf.straightJoins edges).map Node.id).Nodup := by
  induction edges using List.reverseRecOn with
  | nil => exact List.nodup_nil
  | append_singleton done edge ih =>
      rw [straightJoins_append, addJoin]
      split
      · exact ih
      · rename_i next _
        split
        · rename_i added
          refine Table.keys_append_nodup ih fun known => ?_
          obtain ⟨join, member, same⟩ := List.mem_map.mp known
          have unseen := (Bool.and_eq_true_iff.mp added).2
          rw [Bool.not_eq_true', List.any_eq_false] at unseen
          exact unseen join member (decide_eq_true same)
        · exact ih

theorem straightFirings_le_one {edges : List Edge}
    (single : ∀ left ∈ edges, ∀ right ∈ edges, wf.toJoin left = true → wf.toJoin right = true →
      left.target = right.target) : wf.straightFirings edges ≤ 1 := by
  have few : (wf.straightJoins edges).length ≤ 1 := by
    by_contra many
    obtain ⟨first, second, rest, joins⟩ : ∃ first second rest,
        wf.straightJoins edges = first :: second :: rest := by
      rcases found : wf.straightJoins edges with _ | ⟨first, _ | ⟨second, rest⟩⟩
      · simp [found] at many
      · simp [found] at many
      · exact ⟨first, second, rest, rfl⟩
    obtain ⟨left, leftMember, leftFound, leftJoin⟩ :=
      mem_straightJoins (joins ▸ List.mem_cons_self : first ∈ wf.straightJoins edges)
    obtain ⟨right, rightMember, rightFound, rightJoin⟩ := mem_straightJoins
      (joins ▸ List.mem_cons_of_mem _ List.mem_cons_self : second ∈ wf.straightJoins edges)
    have sameTarget := single left leftMember right rightMember
      (by simp [toJoin, wf.kind?_of_node? leftFound, leftJoin])
      (by simp [toJoin, wf.kind?_of_node? rightFound, rightJoin])
    have sameID : first.id = second.id :=
      (wf.node?_id leftFound).trans (sameTarget.trans (wf.node?_id rightFound).symm)
    have distinct := wf.straightJoins_nodup edges
    rw [joins] at distinct
    simp [sameID] at distinct
  exact Nat.le_trans List.countP_le_length
    (Nat.le_trans (List.takeWhile_prefix _).length_le few)

end Workflow

section

variable {env : Env} {wf : Workflow} {db : RunDb}

theorem Workflow.SingleJoinSplits.fanOutSafe (single : wf.SingleJoinSplits) (db : RunDb)
    (action : Action) : FanOutSafe env wf db action := by
  intro prepared _
  refine decide_eq_true (Workflow.straightFirings_le_one fun left leftMember right rightMember => ?_)
  have planned : ∃ node outcome, Follows (prepared.input env wf outcome) node
      (prepared.targets env wf) := by
    unfold Prepared.targets at leftMember ⊢
    split at leftMember
    · rename_i outcome state _
      split at leftMember
      · rename_i targets plan
        obtain ⟨node, follows⟩ := planTransition_follow plan
        exact ⟨node, outcome, by simpa [plan] using follows⟩
      · simp at leftMember
    · simp at leftMember
  obtain ⟨node, outcome, follows⟩ := planned
  intro leftStraight rightStraight
  obtain ⟨leftEdge, leftFrom, leftOutcome⟩ := follows.edges left leftMember
  obtain ⟨rightEdge, rightFrom, rightOutcome⟩ := follows.edges right rightMember
  cases isSplit : splits node outcome with
  | true =>
      have isParallel : node.kind = .parallel ∧ outcome = outcomeSplit := by
        simpa [splits] using isSplit
      have kind : wf.kind? prepared.mover.nodeRun.node = some .parallel :=
        isParallel.1 ▸ wf.kind?_of_node? follows.found
      refine single left leftEdge right rightEdge ?_ ?_ (leftFrom.trans rightFrom.symm) leftStraight
        rightStraight
      · simp only [Workflow.splitEdge, leftFrom, leftOutcome, Bool.and_eq_true, decide_eq_true_eq]
        exact ⟨kind, isParallel.2⟩
      · simp only [Workflow.splitEdge, rightFrom, rightOutcome, Bool.and_eq_true, decide_eq_true_eq]
        exact ⟨kind, isParallel.2⟩
  | false =>
      -- Without a split one edge is followed.
      have short := follows.single isSplit
      rcases targets : prepared.targets env wf with _ | ⟨only, _ | ⟨second, rest⟩⟩
      · simp [targets] at leftMember
      · rw [targets, List.mem_singleton] at leftMember rightMember
        rw [leftMember, rightMember]
      · simp [targets] at short

theorem Reaches.linked {allowed : RunDb → Action → Prop} (reaches : Reaches env wf allowed db)
    (safe : ∀ db action, allowed db action → FanOutSafe env wf db action) :
    Keyed wf db ∧ Linked db ∧ Recorded db := by
  obtain ⟨created, initial, turns⟩ :=
    reaches.turns True False (fun _ => safe) False.elim
  obtain ⟨linked, recorded⟩ :=
    Turns.linked turns trivial initial.standing initial.linked initial.recorded
  exact ⟨(Turns.standing turns initial.standing).keyed, linked, recorded⟩

/-- Node runs and tokens own one another, and a run that has ended leaves nothing alive. -/
theorem ownership (single : wf.SingleJoinSplits) (reaches : Reaches env wf anyAction db) :
    (∀ run ∈ db.nodeRuns, run.state.terminal = false →
      ∃ token ∈ db.tokens, token.id = run.token ∧ token.active = true) ∧
    (∀ token ∈ db.tokens, token.active = true →
      ∃! run, run ∈ db.nodeRuns ∧ run.state.terminal = false ∧ run.token = token.id) ∧
    (db.state.terminal = true →
      (∀ token ∈ db.tokens, token.active = false) ∧
      (∀ run ∈ db.nodeRuns, run.state.terminal = true) ∧
      (∀ item ∈ db.work.items, item.live = false) ∧
      ∀ route ∈ db.eventRoutes, route.active = false) := by
  obtain ⟨keyed, linked, _⟩ := reaches.linked fun db action _ => single.fanOutSafe db action
  have owned : ∀ run ∈ db.nodeRuns, run.state.terminal = false →
      ∃ token ∈ db.tokens, token.id = run.token ∧ token.active = true := by
    intro run member isOpen
    obtain ⟨token, tokenMember, owns, _⟩ := keyed.placed run member
    refine ⟨token, tokenMember, owns, ?_⟩
    rw [linked.paired.mirrored run member token tokenMember owns, isOpen]
    rfl
  refine ⟨owned, ?_, ?_⟩
  · intro token member active
    obtain ⟨run, runMember, owns⟩ := linked.paired.manned token member active
    have mirrored := linked.paired.mirrored run runMember token member owns.symm
    rw [active] at mirrored
    refine ⟨run, ⟨runMember, by simpa using mirrored.symm, owns⟩, ?_⟩
    rintro other ⟨otherMember, _, otherOwns⟩
    exact keyed.owner_eq otherMember runMember (otherOwns.trans owns.symm)
  · intro ended
    obtain ⟨noToken, noRoute⟩ := linked.paired.quiet ended
    have allEnded : ∀ run ∈ db.nodeRuns, run.state.terminal = true := by
      intro run member
      cases terminal : run.state.terminal with
      | true => rfl
      | false =>
          obtain ⟨token, tokenMember, _, active⟩ := owned run member terminal
          rw [noToken token tokenMember] at active
          contradiction
    refine ⟨noToken, allEnded, fun item member => ?_, noRoute⟩
    cases live : item.live with
    | false => rfl
    | true =>
        obtain ⟨run, runMember, _, isOut⟩ := linked.worked.dispatched item member live
        have isOpen := NodeRunState.not_terminal_of_dispatched isOut
        rw [allEnded run runMember] at isOpen
        contradiction

end

/-- A split with one branch straight into a join that waits for any. -/
def shortcut : Workflow where
  entry := "fan"
  limits := { maxParallelTokens := 2 }
  nodes := [
    { id := "done", kind := .endNode },
    { id := "fan", kind := .parallel, outcomes := ["split"] },
    { id := "meet", kind := .join, outcomes := ["joined"], joinPolicy := some .any },
    { id := "work", kind := .code, outcomes := ["built"] }]
  edges := [
    { source := "fan.split", fromNode := "fan", fromOutcome := "split", target := "meet" },
    { source := "fan.split", fromNode := "fan", fromOutcome := "split", target := "work" },
    { source := "meet.joined", fromNode := "meet", fromOutcome := "joined", target := "done" },
    { source := "work.built", fromNode := "work", fromOutcome := "built", target := "meet" }]

theorem ownership_shortcut : ∃ db, shortcut.SingleJoinSplits ∧
    Reaches Env.permissive shortcut anyAction db ∧ db.state = .completed ∧
    ∀ token ∈ db.tokens, token.active = false := by
  have ran : (replay Env.permissive shortcut (fun _ _ => true)
      (succeed 2 "split" ++ succeed 10 "joined")).map RunDb.state = some .completed := by decide
  obtain ⟨db, reached, ended⟩ := Option.map_eq_some_iff.mp ran
  have reaches : Reaches Env.permissive shortcut anyAction db :=
    Reaches.of_replay (fun _ _ _ => trivial) reached
  have single : shortcut.SingleJoinSplits := by decide
  refine ⟨db, single, reaches, ended, ?_⟩
  exact ((ownership single reaches).2.2 (by rw [ended]; rfl)).1

end CultureNodes.Engine
