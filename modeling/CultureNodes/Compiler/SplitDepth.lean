import CultureNodes.Compiler.Parallel

/-!
What the reachability walk of `checkSplitReachability` decides, compared with the same walk without
its depth cap.
-/

namespace CultureNodes.Compiler.Document

open Worklist SplitGraph

variable (doc : Document)

theorem hop?_eq_some {edge : Edge} {source target : String} {δ : Int}
    (found : doc.hop? edge = some (source, target, δ)) :
    ∃ kind outcome, splitEdgeFrom edge.source = some (source, outcome) ∧
      doc.kind? source = some kind ∧ edge.target = target ∧ (doc.kind? target).isSome ∧
      δ = hopDelta kind outcome := by
  unfold hop? at found
  split at found
  · contradiction
  · rename_i fromNode fromOutcome decomposed
    split at found
    · rename_i kind _ sourceKind targetKind
      simp only [Option.some.injEq, Prod.mk.injEq] at found
      obtain ⟨rfl, rfl, rfl⟩ := found
      exact ⟨kind, fromOutcome, decomposed, sourceKind, rfl, by simp [targetKind], rfl⟩
    · contradiction

theorem mem_adjacency {id target : String} {δ : Int} :
    (target, δ) ∈ doc.adjacency id ↔ ∃ edge ∈ doc.edges, doc.hop? edge = some (id, target, δ) := by
  unfold adjacency
  simp only [List.mem_filterMap]
  constructor
  · rintro ⟨⟨source, rest⟩, ⟨edge, member, found⟩, kept⟩
    split at kept
    · rename_i same
      dsimp only at same
      subst same
      rw [Option.some.injEq] at kept
      exact ⟨edge, member, kept ▸ found⟩
    · contradiction
  · rintro ⟨edge, member, found⟩
    exact ⟨(id, target, δ), ⟨edge, member, found⟩, by simp⟩

/-- The graph `checkSplitReachability` walks. -/
def splitGraph : SplitGraph String where
  roots := doc.walkRoots
  hops := doc.adjacency
  opens id := doc.kind? id = some .parallel
  closes id := doc.kind? id = some .join
  final id := doc.kind? id = some .endNode
  hop_delta id target δ hop := by
    obtain ⟨edge, _, found⟩ := doc.mem_adjacency.mp hop
    obtain ⟨kind, outcome, _, sourceKind, _, _, rfl⟩ := doc.hop?_eq_some found
    unfold hopDelta
    split
    · rename_i isJoin
      subst isJoin
      exact Or.inr (Or.inr ⟨rfl, by simp [sourceKind]⟩)
    · split
      · rename_i splits
        exact Or.inr (Or.inl ⟨rfl, by simp [sourceKind, splits.1]⟩)
      · exact Or.inl rfl

theorem violates_eq (state : DepthState) :
    doc.splitGraph.violates state.node state.depth =
      (doc.endInsideSplit state || doc.joinOutsideSplit state) := rfl

theorem walkRoots_kind {id : String} (root : id ∈ doc.walkRoots) : (doc.kind? id).isSome := by
  unfold walkRoots at root
  split at root
  · simp at root
  · rename_i kind entryKind
    rcases List.mem_cons.mp root with rfl | member
    · simp [entryKind]
    · obtain ⟨edge, kept, rfl⟩ := List.mem_map.mp member
      have conditions := (List.mem_filter.mp kept).2
      simp only [decide_eq_true_eq] at conditions
      exact conditions.2

theorem adjacency_kind {id target : String} {δ : Int} (hop : (target, δ) ∈ doc.adjacency id) :
    (doc.kind? target).isSome := by
  obtain ⟨edge, _, found⟩ := doc.mem_adjacency.mp hop
  obtain ⟨_, _, _, _, _, exists_, _⟩ := doc.hop?_eq_some found
  exact exists_

/-- Every state the walk can enqueue: a node of the document at a depth up to the cap. -/
def walkDomain : List DepthState :=
  doc.nodeIDs.flatMap fun id =>
    (List.range (doc.parallelCount + 2)).map fun (depth : Nat) => ⟨id, (depth : Int)⟩

theorem walkDomain_length : doc.walkDomain.length = doc.walkFuel := by
  simp [walkDomain, walkFuel, nodeIDs, List.length_flatMap, Function.comp_def]

theorem mem_walkDomain {state : DepthState} (exists_ : (doc.kind? state.node).isSome)
    (nonneg : 0 ≤ state.depth) (bounded : state.depth ≤ doc.maxDepth) :
    state ∈ doc.walkDomain := by
  obtain ⟨kind, found⟩ := Option.isSome_iff_exists.mp exists_
  refine List.mem_flatMap.mpr ⟨state.node, doc.kind?_mem found, List.mem_map.mpr ?_⟩
  refine ⟨state.depth.toNat, List.mem_range.mpr ?_, ?_⟩
  · unfold maxDepth at bounded
    omega
  · have cast : (state.depth.toNat : Int) = state.depth := Int.toNat_of_nonneg nonneg
    rw [cast]

theorem mem_depthSuccessors {state next : DepthState} :
    next ∈ doc.depthSuccessors state ↔
      doc.splitGraph.violates state.node state.depth = false ∧
        ∃ δ, (next.node, δ) ∈ doc.adjacency state.node ∧ next.depth = state.depth + δ ∧
          0 ≤ next.depth ∧ next.depth ≤ doc.maxDepth := by
  unfold depthSuccessors
  rw [doc.violates_eq state]
  cases violated : doc.endInsideSplit state || doc.joinOutsideSplit state with
  | true => simp
  | false =>
      simp only [Bool.false_eq_true, if_false, List.mem_filterMap, true_and]
      constructor
      · rintro ⟨⟨target, δ⟩, hop, kept⟩
        split at kept
        · contradiction
        · rw [Option.some.injEq] at kept
          subst kept
          exact ⟨δ, hop, rfl, by dsimp only at *; omega, by dsimp only at *; omega⟩
      · rintro ⟨δ, hop, depth, nonneg, bounded⟩
        refine ⟨(next.node, δ), hop, ?_⟩
        dsimp only
        rw [← depth, if_neg (by omega)]

theorem reaches_iff_enters (state : DepthState) :
    Reaches doc.depthSuccessors (doc.walkRoots.map fun id => ⟨id, 0⟩) state ↔
      ∃ n, doc.splitGraph.Enters (some doc.maxDepth) n state.node state.depth := by
  constructor
  · intro reached
    induction reached with
    | root member =>
        obtain ⟨id, isRoot, rfl⟩ := List.mem_map.mp member
        exact ⟨0, .root isRoot⟩
    | @step state next _ successor ih =>
        obtain ⟨n, entered⟩ := ih
        obtain ⟨lawful, δ, hop, depth, nonneg, bounded⟩ := doc.mem_depthSuccessors.mp successor
        rw [depth] at nonneg bounded ⊢
        exact ⟨n + 1, .hop entered lawful hop ⟨nonneg, by simpa using bounded⟩⟩
  · rintro ⟨n, entered⟩
    obtain ⟨node, depth⟩ := state
    dsimp only at entered
    induction entered with
    | @root node isRoot => exact .root (List.mem_map_of_mem isRoot)
    | hop _ lawful hop admitted ih =>
        refine .step ih (doc.mem_depthSuccessors.mpr ⟨lawful, _, hop, rfl, admitted.1, ?_⟩)
        exact admitted.2 _ rfl

theorem mem_walk_iff (state : DepthState) :
    state ∈ doc.walk ↔
      ∃ n, doc.splitGraph.Enters (some doc.maxDepth) n state.node state.depth := by
  rw [← doc.reaches_iff_enters]
  refine mem_visit_start_iff doc.depthSuccessors doc.walkDomain _ ?_ ?_ _ ?_ state
  · intro source _ target successor
    obtain ⟨_, δ, hop, _, nonneg, bounded⟩ := doc.mem_depthSuccessors.mp successor
    exact doc.mem_walkDomain (doc.adjacency_kind hop) nonneg bounded
  · intro root member
    obtain ⟨id, isRoot, rfl⟩ := List.mem_map.mp member
    have positive : (0 : Int) ≤ doc.maxDepth := by unfold maxDepth; omega
    exact doc.mem_walkDomain (doc.walkRoots_kind isRoot) (Int.le_refl 0) positive
  · exact Nat.le_of_eq doc.walkDomain_length

/-- The check reports a violation exactly when the capped walk enters one. -/
theorem checkSplitReachability_ne_nil_iff :
    doc.checkSplitReachability ≠ [] ↔ doc.splitGraph.Sees (some doc.maxDepth) := by
  have reported : doc.checkSplitReachability ≠ [] ↔ ∃ state ∈ doc.walk,
      (doc.endInsideSplit state || doc.joinOutsideSplit state) = true := by
    unfold checkSplitReachability
    simp only [ne_eq, List.append_eq_nil_iff, List.map_eq_nil_iff, List.filter_eq_nil_iff,
      not_and_or, not_forall, List.any_eq_true, Bool.and_eq_true, decide_eq_true_eq,
      Bool.or_eq_true]
    constructor
    · rintro (⟨id, _, shown⟩ | ⟨id, _, shown⟩)
      · obtain ⟨state, member, _, violated⟩ := Classical.not_not.mp shown
        exact ⟨state, member, Or.inl violated⟩
      · obtain ⟨state, member, _, violated⟩ := Classical.not_not.mp shown
        exact ⟨state, member, Or.inr violated⟩
    · rintro ⟨state, member, violated | violated⟩
      · have known : state.node ∈ doc.nodeIDs := by
          simp only [endInsideSplit, Bool.and_eq_true, decide_eq_true_eq] at violated
          exact doc.kind?_mem violated.1
        exact Or.inl ⟨state.node, known, by simpa using ⟨state, member, rfl, violated⟩⟩
      · have known : state.node ∈ doc.nodeIDs := by
          simp only [joinOutsideSplit, Bool.and_eq_true, decide_eq_true_eq] at violated
          exact doc.kind?_mem violated.1
        exact Or.inr ⟨state.node, known, by simpa using ⟨state, member, rfl, violated⟩⟩
  rw [reported]
  constructor
  · rintro ⟨state, member, violated⟩
    obtain ⟨n, entered⟩ := (doc.mem_walk_iff state).mp member
    exact ⟨n, state.node, state.depth, entered, violated⟩
  · rintro ⟨n, node, depth, entered, violated⟩
    exact ⟨⟨node, depth⟩, (doc.mem_walk_iff ⟨node, depth⟩).mpr ⟨n, entered⟩, violated⟩

theorem opens_mem_parallel (id : String) (opened : doc.splitGraph.opens id = true) :
    id ∈ (doc.nodes.filter fun pair => pair.2.kind = .parallel).map Prod.fst := by
  have found : doc.kind? id = some .parallel := by simpa [splitGraph] using opened
  obtain ⟨node, here, kind⟩ := Option.map_eq_some_iff.mp found
  exact List.mem_map.mpr ⟨(id, node), List.mem_filter.mpr ⟨doc.mem_nodes_of_node? here, by
    simp [kind]⟩, rfl⟩

/-- Where the depth cap is harmless: no node that leads to an end is entered at two depths by walks
of height at most the number of parallel nodes plus one, or a walk of that height already enters an
end inside a split or a join outside one. -/
def CapHarmless : Prop :=
  (∀ id m n d e, doc.splitGraph.LeadsToFinal id →
      doc.splitGraph.Enters (some (1 + doc.parallelCount)) m id d →
      doc.splitGraph.Enters (some (1 + doc.parallelCount)) n id e → d = e) ∨
    ∃ n id d, doc.splitGraph.Enters (some (1 + doc.parallelCount)) n id d ∧
      ((doc.kind? id = some .endNode ∧ 0 < d) ∨ (doc.kind? id = some .join ∧ d = 0))

theorem checkSplitReachability_exact_iff :
    (doc.checkSplitReachability ≠ [] ↔ doc.splitGraph.Sees none) ↔ doc.CapHarmless := by
  have deep : (((doc.nodes.filter fun pair => pair.2.kind = .parallel).map Prod.fst).length : Int) <
      doc.maxDepth := by
    unfold maxDepth parallelCount
    rw [List.length_map, List.countP_eq_length_filter]
    omega
  have exactness := cap_exact_iff doc.opens_mem_parallel deep
  have within : doc.splitGraph.Sees (some doc.maxDepth) ↔
      ∃ n id d, doc.splitGraph.Enters (some (1 + doc.parallelCount)) n id d ∧
        ((doc.kind? id = some .endNode ∧ 0 < d) ∨ (doc.kind? id = some .join ∧ d = 0)) := by
    simp [Sees, violates, splitGraph, maxDepth]
  unfold CapHarmless
  rw [checkSplitReachability_ne_nil_iff, ← within]
  constructor
  · intro agree
    exact exactness.mp agree.mpr
  · intro harmless
    exact ⟨Sees.uncapped, exactness.mpr harmless⟩

/-- Two parallel nodes feed each other, and the branch that leaves them passes two joins before the
end: the first round ends balanced, the second reaches the end two splits deep. -/
def nestedFan : Document where
  entry := "fan"
  nodes :=
    [("done", { kind := .endNode }),
     ("fan", { kind := .parallel }),
     ("inner", { kind := .join, join := some ⟨.any, none⟩ }),
     ("outer", { kind := .join, join := some ⟨.any, none⟩ }),
     ("refan", { kind := .parallel }),
     ("work", { kind := .agent, contract := some ["built"] })]
  edges :=
    [{ source := "fan.split", target := "refan" },
     { source := "refan.split", target := "work" },
     { source := "refan.split", target := "fan" },
     { source := "work.built", target := "inner" },
     { source := "inner.joined", target := "outer" },
     { source := "outer.joined", target := "done" }]
  nodesSorted := by decide

theorem nestedFan_end_hidden :
    ¬ (nestedFan.checkSplitReachability ≠ [] ↔ nestedFan.splitGraph.Sees none) := by
  intro agree
  have silent : nestedFan.checkSplitReachability = [] := by decide +kernel
  have step {n : Nat} {v w : String} {d δ : Int} (entered : nestedFan.splitGraph.Enters none n v d)
      (lawful : nestedFan.splitGraph.violates v d = false) (hop : (w, δ) ∈ nestedFan.adjacency v)
      (nonneg : 0 ≤ d + δ) : nestedFan.splitGraph.Enters none (n + 1) w (d + δ) :=
    .hop entered lawful hop ⟨nonneg, by simp⟩
  have fan : nestedFan.splitGraph.Enters none 0 "fan" 0 := .root (by decide)
  have refan := step (w := "refan") (δ := 1) fan (by decide) (by decide) (by decide)
  have fanAgain := step (w := "fan") (δ := 1) refan (by decide) (by decide) (by decide)
  have refanAgain := step (w := "refan") (δ := 1) fanAgain (by decide) (by decide) (by decide)
  have work := step (w := "work") (δ := 1) refanAgain (by decide) (by decide) (by decide)
  have inner := step (w := "inner") (δ := 0) work (by decide) (by decide) (by decide)
  have outer := step (w := "outer") (δ := -1) inner (by decide) (by decide) (by decide)
  have done_ := step (w := "done") (δ := -1) outer (by decide) (by decide) (by decide)
  exact agree.mpr ⟨_, _, _, done_, by decide⟩ silent

end CultureNodes.Compiler.Document
