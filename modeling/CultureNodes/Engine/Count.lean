import CultureNodes.Engine.Refine
import CultureNodes.Library.Nest

/-!
The run as a nest of groups. Tokens that are active are counted by the place they stand in, barriers
apart from the rest, and what a transaction has in hand counts where it belongs. Every strict turn is
then a step of the nest.
-/

namespace CultureNodes.Engine

namespace RunDb

variable {wf : Workflow} (db : RunDb) (holds : Nat × String × Option Nat → Bool)

/-- The active tokens whose stand meets a condition. -/
def activeCount : Nat := db.tokens.countP fun token => token.active && holds token.stand

variable {db} {holds}

theorem activeCount_congr {next : RunDb} (same : next.tokens = db.tokens) :
    next.activeCount holds = db.activeCount holds := by
  rw [activeCount, same]
  rfl

theorem activeCount_true : db.activeCount (fun _ => true) = db.activeTokenCount := by
  simp [activeCount, activeTokenCount]

theorem activeCount_append {next : RunDb} {token : Token} (same : next.tokens = db.tokens ++ [token]) :
    next.activeCount holds =
      db.activeCount holds + if (token.active && holds token.stand) = true then 1 else 0 := by
  rw [activeCount, same, List.countP_append, List.countP_singleton]
  rfl

theorem activeCount_pos {token : Token} (member : token ∈ db.tokens) (active : token.active = true)
    (here : holds token.stand = true) : 0 < db.activeCount holds :=
  List.countP_pos_iff.mpr ⟨token, member, by simp [active, here]⟩

theorem exists_of_activeCount_pos (some : 0 < db.activeCount holds) :
    ∃ token ∈ db.tokens, token.active = true ∧ holds token.stand = true := by
  obtain ⟨token, member, both⟩ := List.countP_pos_iff.mp some
  exact ⟨token, member, Bool.and_eq_true_iff.mp both⟩

theorem activeCount_consume {next : RunDb} (keyed : Keyed wf db) {token : Token}
    (member : token ∈ db.tokens) (active : token.active = true)
    (same : next.tokens = Table.update db.tokens (fun other => other.id = token.id && other.active)
      (fun other => { other with active := false })) :
    db.activeCount holds =
      next.activeCount holds + if holds token.stand = true then 1 else 0 := by
  rw [activeCount, activeCount, same, Table.countP_update]
  have others : ∀ other ∈ db.tokens, other ≠ token → (other.active && holds other.stand) =
      ((if (other.id = token.id && other.active) = true then { other with active := false }
        else other).active && holds (if (other.id = token.id && other.active) = true then
          { other with active := false } else other).stand) := by
    intro other otherMember different
    have differs : ¬ other.id = token.id := fun sameID =>
      different (keyed.token_eq otherMember member sameID)
    simp [differs]
  by_cases here : holds token.stand = true
  · rw [if_pos here]
    refine Table.countP_eq_succ (.of_map Token.id keyed.tokenIDs) member ?_ ?_ others
    · simp [active, here]
    · simp [active]
  · rw [if_neg here, Nat.add_zero]
    refine List.countP_congr fun other otherMember => ?_
    by_cases isToken : other = token
    · rw [isToken]
      simp [active, here]
    · rw [others other otherMember isToken]

end RunDb

/-- The group whose barrier an entry says has fired. -/
def Entry.group? : Entry → Option Nat
  | .fired _ group => some group
  | _ => none

namespace RunDb

variable (db : RunDb)

/-- The groups that have fired, newest first. -/
def firedGroups : List Nat := db.journal.filterMap Entry.group?

variable {db} {wf : Workflow} {group : Nat}

theorem firedIn_eq : db.firedIn group = db.firedGroups.contains group := by
  unfold firedIn firedGroups
  induction db.journal with
  | nil => rfl
  | cons entry rest ih =>
      rw [List.any_cons, ih]
      cases entry with
      | wrote run state => simp [Entry.group?]
      | enqueued run => simp [Entry.group?]
      | fired barrier other =>
          rw [List.filterMap_cons_some (show Entry.group? (.fired barrier other) = some other from rfl),
            List.contains_cons]
          congr 1
          rw [Bool.eq_iff_iff, beq_iff_eq, decide_eq_true_eq, eq_comm]

theorem firedGroups_writes (ids : List Nat) (state : NodeRunState) :
    (ids.map (Entry.wrote · state)).filterMap Entry.group? = [] := by
  induction ids with
  | nil => rfl
  | cons id rest ih =>
      rw [List.map_cons, List.filterMap_cons_none rfl]
      exact ih

theorem firedGroups_append {next : RunDb} (ids : List Nat) (state : NodeRunState)
    (same : next.journal = ids.map (Entry.wrote · state) ++ db.journal) :
    next.firedGroups = db.firedGroups := by
  rw [firedGroups, same, List.filterMap_append, firedGroups_writes]
  rfl

@[simp] theorem dispatchNode_firedGroups (node : Node) (run now : Nat) :
    (db.dispatchNode node run now).firedGroups = db.firedGroups := by
  unfold dispatchNode
  split <;> rfl

@[simp] theorem startNode_firedGroups (node : Node) (parent place : Option Nat)
    (originEvent : Option String) (now : Nat) :
    (db.startNode node parent place originEvent now).firedGroups = db.firedGroups :=
  dispatchNode_firedGroups _ _ _

@[simp] theorem gather_firedGroups (join : Node) (token group : Nat) (fromNode outcome : String)
    (output : Payload) :
    (db.gather join token group fromNode outcome output).firedGroups = db.firedGroups := by
  unfold gather joinBarrier
  split <;> rfl

@[simp] theorem finishNodeRun_firedGroups (run : NodeRun) (state : NodeRunState) (outcome : String) :
    (db.finishNodeRun run state outcome).firedGroups = db.firedGroups := rfl

@[simp] theorem reapRunState_firedGroups (keep : Nat) :
    (db.reapRunState keep).firedGroups = db.firedGroups := firedGroups_append _ _ rfl

theorem reapGroupBranches_firedGroups (group keep : Nat) :
    (db.reapGroupBranches group keep).firedGroups = db.firedGroups := firedGroups_append _ _ rfl

@[simp] theorem fireBarrier_firedGroups (barrier : NodeRun) (early : Bool) (now : Nat) :
    (db.fireBarrier barrier group early now).firedGroups = group :: db.firedGroups := by
  unfold fireBarrier
  cases early
  · rfl
  · exact reapGroupBranches_firedGroups group barrier.token

theorem markNodeRun_firedGroups (id : Nat) (expected : NodeRunState → Bool) (state : NodeRunState) :
    (db.markNodeRun id expected state).firedGroups = db.firedGroups := by
  refine firedGroups_append
    ((db.nodeRuns.filter fun run => run.id = id && expected run.state).map NodeRun.id) state ?_
  rw [List.map_map]
  rfl

theorem workStatement_firedGroups {next : RunDb} {action : Store.WorkAction}
    (acted : db.workStatement wf action = some next) : next.firedGroups = db.firedGroups := by
  obtain ⟨_, after, _, _, cases_⟩ := workStatement_eq_some acted
  have frozen : ∀ rows : RunDb, (rows.freeze action).firedGroups = rows.firedGroups := by
    intro rows
    unfold freeze
    split <;> rfl
  rcases cases_ with ⟨_, rfl⟩ | ⟨owner, _, rfl⟩
  · exact frozen _
  · rw [frozen]
    unfold markFor
    split
    · exact markNodeRun_firedGroups _ _ _
    · exact markNodeRun_firedGroups _ _ _
    · exact markNodeRun_firedGroups _ _ _
    · exact markNodeRun_firedGroups _ _ _
    · exact markNodeRun_firedGroups _ _ _
    · rfl

theorem cancelRunGuarded_firedGroups {next : RunDb} {parkedAt detail : String}
    (cancelled : db.cancelRunGuarded parkedAt detail = some next) :
    next.firedGroups = db.firedGroups ∧ next.state.terminal = true := by
  rw [← cancelRunGuarded_eq_some cancelled]
  exact ⟨firedGroups_append _ _ rfl, rfl⟩

end RunDb

def Workflow.barrierAt (wf : Workflow) (stand : Nat × String × Option Nat) : Bool :=
  wf.kind? stand.2.1 = some .join && stand.2.2.isSome

/-- How many branches the hand holds in a place. -/
def Hand.holds : Hand → Option Nat → Nat
  | .carrying place _, other => if other = place then 1 else 0
  | .parting place _, other => if other = place then 1 else 0
  | .spreading group edges, other => if other = some group then edges.length else 0
  | _, _ => 0

def Workflow.branchIn (wf : Workflow) (place : Option Nat) (stand : Nat × String × Option Nat) : Bool :=
  stand.2.2 = place && !wf.barrierAt stand

def Workflow.barrierIn (wf : Workflow) (group : Nat) (stand : Nat × String × Option Nat) : Bool :=
  stand.2.2 = some group && wf.barrierAt stand

def nest (wf : Workflow) (hand : Hand) (db : RunDb) : Nest Nat where
  tree := db.groupTree
  card := db.cardinalityOf
  arrived := db.arrivedIn
  fired := db.firedIn
  threads place := db.activeCount (wf.branchIn place) + hand.holds place
  barriers group := db.activeCount (wf.barrierIn group)

/-- The barriers of a run: one waits as long as its group has not fired, each was fed by a branch,
and its arrivals are of its own group. -/
structure Barriers (wf : Workflow) (db : RunDb) : Prop where
  waits : ∀ run ∈ db.nodeRuns, ∀ token ∈ db.tokens, token.id = run.token →
    wf.barrierAt token.stand = true → run.state.terminal = false →
    ∀ group ∈ token.group, (run.state = .waitingJoin ↔ db.firedIn group = false)
  fed : ∀ run ∈ db.nodeRuns, ∀ token ∈ db.tokens, token.id = run.token →
    wf.barrierAt token.stand = true →
    ∃ arrival ∈ db.joinArrivals, arrival.joinNodeRun = run.id ∧ token.group = some arrival.group
  own : ∀ arrival ∈ db.joinArrivals, ∀ run ∈ db.nodeRuns, run.id = arrival.joinNodeRun →
    ∀ token ∈ db.tokens, token.id = run.token → token.group = some arrival.group

namespace Barriers

variable {wf : Workflow} {db next : RunDb}

theorem firedIn_congr {group : Nat} (sameFired : next.firedGroups = db.firedGroups) :
    next.firedIn group = db.firedIn group := by
  rw [RunDb.firedIn_eq, RunDb.firedIn_eq, sameFired]

/-- Rows may be rewritten where they stand; a barrier that waits goes on waiting or ends, and no other
node run comes to wait. -/
theorem rewrite (barriers : Barriers wf db)
    (runs : ∀ run ∈ next.nodeRuns, ∃ old ∈ db.nodeRuns, old.stand = run.stand ∧
      (run.state.terminal = false → old.state.terminal = false ∧
        (run.state = .waitingJoin ↔ old.state = .waitingJoin)))
    (tokens : next.tokens.map Token.stand = db.tokens.map Token.stand)
    (sameArrivals : next.joinArrivals = db.joinArrivals)
    (sameFired : next.firedGroups = db.firedGroups) : Barriers wf next := by
  have back : ∀ token ∈ next.tokens, ∃ old ∈ db.tokens, old.stand = token.stand := fun token member =>
    Table.exists_of_keys_eq tokens member
  refine ⟨?_, ?_, ?_⟩
  · intro run member token tokenMember owns isBarrier isOpen group inGroup
    obtain ⟨old, oldMember, stands, keeps⟩ := runs run member
    obtain ⟨oldToken, oldTokenMember, tokenStands⟩ := back token tokenMember
    have sameToken : old.token = run.token := congrArg (fun s => s.2.1) stands
    have sameID : oldToken.id = token.id := congrArg Prod.fst tokenStands
    have sameGroup : oldToken.group = token.group := congrArg (fun s => s.2.2) tokenStands
    rw [(keeps isOpen).2, firedIn_congr sameFired]
    exact barriers.waits old oldMember oldToken oldTokenMember
      (sameID.trans (owns.trans sameToken.symm)) (tokenStands ▸ isBarrier) (keeps isOpen).1 group
      (sameGroup ▸ inGroup)
  · intro run member token tokenMember owns isBarrier
    obtain ⟨old, oldMember, stands, _⟩ := runs run member
    obtain ⟨oldToken, oldTokenMember, tokenStands⟩ := back token tokenMember
    have sameToken : old.token = run.token := congrArg (fun s => s.2.1) stands
    have sameRun : old.id = run.id := congrArg Prod.fst stands
    have sameID : oldToken.id = token.id := congrArg Prod.fst tokenStands
    have sameGroup : oldToken.group = token.group := congrArg (fun s => s.2.2) tokenStands
    rw [sameArrivals, ← sameGroup, ← sameRun]
    exact barriers.fed old oldMember oldToken oldTokenMember
      (sameID.trans (owns.trans sameToken.symm)) (tokenStands ▸ isBarrier)
  · intro arrival arrivalMember run member isBarrier token tokenMember owns
    rw [sameArrivals] at arrivalMember
    obtain ⟨old, oldMember, stands, _⟩ := runs run member
    obtain ⟨oldToken, oldTokenMember, tokenStands⟩ := back token tokenMember
    have sameToken : old.token = run.token := congrArg (fun s => s.2.1) stands
    have sameRun : old.id = run.id := congrArg Prod.fst stands
    have sameID : oldToken.id = token.id := congrArg Prod.fst tokenStands
    have sameGroup : oldToken.group = token.group := congrArg (fun s => s.2.2) tokenStands
    rw [← sameGroup]
    exact barriers.own arrival arrivalMember old oldMember (sameRun.trans isBarrier) oldToken
      oldTokenMember (sameID.trans (owns.trans sameToken.symm))

theorem congr (barriers : Barriers wf db) (sameRuns : next.nodeRuns = db.nodeRuns)
    (sameTokens : next.tokens.map Token.stand = db.tokens.map Token.stand)
    (sameArrivals : next.joinArrivals = db.joinArrivals)
    (sameFired : next.firedGroups = db.firedGroups) : Barriers wf next :=
  barriers.rewrite (fun run member => ⟨run, sameRuns ▸ member, rfl, fun isOpen => ⟨isOpen, Iff.rfl⟩⟩)
    sameTokens sameArrivals sameFired

theorem rewriteRuns (barriers : Barriers wf db) {hits : NodeRun → Bool} {write : NodeRun → NodeRun}
    (sameRuns : next.nodeRuns = Table.update db.nodeRuns hits write)
    (stands : ∀ run, (write run).stand = run.stand)
    (moves : ∀ run ∈ db.nodeRuns, hits run = true → (write run).state.terminal = true ∨
      run.state.terminal = false ∧ run.state ≠ .waitingJoin ∧ (write run).state ≠ .waitingJoin)
    (tokens : next.tokens.map Token.stand = db.tokens.map Token.stand)
    (sameArrivals : next.joinArrivals = db.joinArrivals)
    (sameFired : next.firedGroups = db.firedGroups) : Barriers wf next := by
  refine barriers.rewrite (fun run member => ?_) tokens sameArrivals sameFired
  rw [sameRuns] at member
  obtain ⟨old, oldMember, rfl⟩ := Table.mem_update.mp member
  by_cases hit : hits old = true
  · rw [if_pos hit]
    refine ⟨old, oldMember, (stands old).symm, fun isOpen => ?_⟩
    rcases moves old oldMember hit with ended | ⟨wasOpen, notBefore, notAfter⟩
    · rw [ended] at isOpen
      contradiction
    · exact ⟨wasOpen, fun now => absurd now notAfter, fun before => absurd before notBefore⟩
  · rw [if_neg hit]
    exact ⟨old, oldMember, rfl, fun isOpen => ⟨isOpen, Iff.rfl⟩⟩

theorem addToken (barriers : Barriers wf db) (keyed : Keyed wf db) {token : Token}
    (fresh : token.id = db.nextID) (sameRuns : next.nodeRuns = db.nodeRuns)
    (sameTokens : next.tokens = db.tokens ++ [token])
    (sameArrivals : next.joinArrivals = db.joinArrivals)
    (sameFired : next.firedGroups = db.firedGroups) : Barriers wf next := by
  have owned : ∀ run ∈ next.nodeRuns, run ∈ db.nodeRuns ∧ ∀ other ∈ next.tokens,
      other.id = run.token → other ∈ db.tokens := by
    rw [sameRuns, sameTokens]
    intro run member
    refine ⟨member, fun other otherMember owns => ?_⟩
    rcases List.mem_append.mp otherMember with old | new
    · exact old
    · rw [List.mem_singleton.mp new, fresh] at owns
      exact absurd owns.symm (keyed.fresh_token run member)
  refine ⟨?_, ?_, ?_⟩
  · intro run member other otherMember owns isBarrier isOpen group inGroup
    rw [firedIn_congr sameFired]
    exact barriers.waits run (owned run member).1 other ((owned run member).2 other otherMember owns)
      owns isBarrier isOpen group inGroup
  · intro run member other otherMember owns isBarrier
    rw [sameArrivals]
    exact barriers.fed run (owned run member).1 other ((owned run member).2 other otherMember owns)
      owns isBarrier
  · intro arrival arrivalMember run member isRun other otherMember owns
    rw [sameArrivals] at arrivalMember
    exact barriers.own arrival arrivalMember run (owned run member).1 isRun other
      ((owned run member).2 other otherMember owns) owns

theorem addPair (barriers : Barriers wf db) (keyed : Keyed wf db) (extra : List JoinArrival)
    {token : Token} {run : NodeRun} (fresh : token.id = db.nextID) (owned : run.token = token.id)
    (freshRun : db.nextID ≤ run.id) (sameRuns : next.nodeRuns = db.nodeRuns ++ [run])
    (sameTokens : next.tokens = db.tokens ++ [token])
    (arrivals : next.joinArrivals = db.joinArrivals ++ extra)
    (sameFired : next.firedGroups = db.firedGroups)
    (waits : wf.barrierAt token.stand = true →
      run.state = .waitingJoin ∧ ∀ group ∈ token.group, db.firedIn group = false)
    (fed : wf.barrierAt token.stand = true → extra ≠ [])
    (named : ∀ arrival ∈ extra, arrival.joinNodeRun = run.id ∧ token.group = some arrival.group) :
    Barriers wf next := by
  -- The owner of a token is old with an old token, or is the new node run with the new token.
  have pairs : ∀ other ∈ next.nodeRuns, ∀ mate ∈ next.tokens, mate.id = other.token →
      other ∈ db.nodeRuns ∧ mate ∈ db.tokens ∨ other = run ∧ mate = token := by
    intro other otherMember mate mateMember owns
    rw [sameRuns] at otherMember
    rw [sameTokens] at mateMember
    rcases List.mem_append.mp otherMember with oldRun | newRun
    · rcases List.mem_append.mp mateMember with oldToken | newToken
      · exact Or.inl ⟨oldRun, oldToken⟩
      · rw [List.mem_singleton.mp newToken, fresh] at owns
        exact absurd owns.symm (keyed.fresh_token other oldRun)
    · rcases List.mem_append.mp mateMember with oldToken | newToken
      · have older := keyed.tokensOld mate oldToken
        rw [owns, List.mem_singleton.mp newRun, owned, fresh] at older
        exact absurd older (Nat.lt_irrefl _)
      · exact Or.inr ⟨List.mem_singleton.mp newRun, List.mem_singleton.mp newToken⟩
  refine ⟨?_, ?_, ?_⟩
  · intro other otherMember mate mateMember owns isBarrier isOpen group inGroup
    rw [firedIn_congr sameFired]
    rcases pairs other otherMember mate mateMember owns with ⟨oldRun, oldToken⟩ | ⟨rfl, rfl⟩
    · exact barriers.waits other oldRun mate oldToken owns isBarrier isOpen group inGroup
    · obtain ⟨isWaiting, unfired⟩ := waits isBarrier
      exact ⟨fun _ => unfired group inGroup, fun _ => isWaiting⟩
  · intro other otherMember mate mateMember owns isBarrier
    rw [arrivals]
    rcases pairs other otherMember mate mateMember owns with ⟨oldRun, oldToken⟩ | ⟨rfl, rfl⟩
    · obtain ⟨arrival, arrivalMember, both⟩ := barriers.fed other oldRun mate oldToken owns isBarrier
      exact ⟨arrival, List.mem_append_left _ arrivalMember, both⟩
    · obtain ⟨arrival, arrivalMember⟩ := List.exists_mem_of_ne_nil _ (fed isBarrier)
      obtain ⟨isRun, inGroup⟩ := named arrival arrivalMember
      exact ⟨arrival, List.mem_append_right _ arrivalMember, isRun, inGroup⟩
  · intro arrival arrivalMember other otherMember isRun mate mateMember owns
    rw [arrivals] at arrivalMember
    rcases pairs other otherMember mate mateMember owns with ⟨oldRun, oldToken⟩ | ⟨rfl, rfl⟩
    · rcases List.mem_append.mp arrivalMember with old | new
      · exact barriers.own arrival old other oldRun isRun mate oldToken owns
      · have older := keyed.runsOld other oldRun
        rw [isRun, (named arrival new).1] at older
        omega
    · rcases List.mem_append.mp arrivalMember with old | new
      · have older := (keyed.arrivalsOld arrival old).1
        omega
      · exact (named arrival new).2

theorem addArrival (barriers : Barriers wf db) (keyed : Keyed wf db) {run : NodeRun} {mate : Token}
    {arrival : JoinArrival} (member : run ∈ db.nodeRuns) (mateMember : mate ∈ db.tokens)
    (mateOwns : mate.id = run.token) (isRun : arrival.joinNodeRun = run.id)
    (inGroup : mate.group = some arrival.group) : Barriers wf (db.insertJoinArrival arrival) := by
  refine ⟨barriers.waits, ?_, ?_⟩
  · intro other otherMember token tokenMember owns isBarrier
    obtain ⟨earlier, earlierMember, both⟩ :=
      barriers.fed other otherMember token tokenMember owns isBarrier
    exact ⟨earlier, List.mem_append_left _ earlierMember, both⟩
  · intro other otherMember owner ownerMember isOwner token tokenMember owns
    rcases List.mem_append.mp otherMember with old | new
    · exact barriers.own other old owner ownerMember isOwner token tokenMember owns
    · rw [List.mem_singleton.mp new] at isOwner ⊢
      have sameRun := keyed.run_eq ownerMember member (isOwner.trans isRun)
      have sameToken := keyed.token_eq tokenMember mateMember
        (owns.trans ((congrArg NodeRun.token sameRun).trans mateOwns.symm))
      rw [sameToken]
      exact inGroup

theorem gather (barriers : Barriers wf db) (keyed : Keyed wf db) (join : Node) (token group : Nat)
    (fromNode outcome : String) (output : Payload) (unfired : db.firedIn group = false) :
    Barriers wf (db.gather join token group fromNode outcome output) := by
  unfold RunDb.gather RunDb.joinBarrier
  cases barrier : db.openJoinBarrier join.id group with
  | some run =>
      obtain ⟨member, _, _, mate, mateMember, owns, inGroup⟩ := Keyed.openJoinBarrier_eq_some barrier
      exact barriers.addArrival keyed member mateMember owns rfl inGroup
  | none =>
      refine barriers.addPair keyed [_] rfl rfl (Nat.le_succ _) rfl rfl rfl rfl
        (fun _ => ⟨rfl, fun own isOwn => ?_⟩) (fun _ => List.cons_ne_nil _ _) fun arrival member => ?_
      · rw [← Option.some.inj isOwn]
        exact unfired
      · rw [List.mem_singleton.mp member]
        exact ⟨rfl, rfl⟩

theorem startNode (barriers : Barriers wf db) (keyed : Keyed wf db) {node : Node}
    (parent place : Option Nat) (originEvent : Option String) (now : Nat)
    (noBarrier : wf.barrierAt (db.nextID, node.id, place) = false) :
    Barriers wf (db.startNode node parent place originEvent now) := by
  refine barriers.addPair keyed [] rfl rfl (Nat.le_succ _) RunDb.startNode_nodeRuns
    RunDb.startNode_tokens (by simp) (by simp) ?_ ?_ ?_
  · intro isBarrier
    exact absurd (noBarrier.symm.trans isBarrier) Bool.false_ne_true
  · intro isBarrier
    exact absurd (noBarrier.symm.trans isBarrier) Bool.false_ne_true
  · intro arrival member
    simp at member

theorem joinArrivalCount_le (barriers : Barriers wf db) {run : NodeRun} {mate : Token} {group : Nat}
    (member : run ∈ db.nodeRuns) (mateMember : mate ∈ db.tokens) (owns : mate.id = run.token)
    (inGroup : mate.group = some group) : db.joinArrivalCount run.id ≤ db.arrivedIn group := by
  refine List.countP_mono_left fun arrival arrivalMember isRun => ?_
  have sameGroup := barriers.own arrival arrivalMember run member (of_decide_eq_true isRun).symm mate
    mateMember owns
  rw [inGroup] at sameGroup
  exact decide_eq_true (Option.some.inj sameGroup).symm

theorem joinArrivalCount_lt (barriers : Barriers wf db) {run other : NodeRun} {mate token : Token}
    {group : Nat} (member : run ∈ db.nodeRuns) (mateMember : mate ∈ db.tokens)
    (owns : mate.id = run.token) (inGroup : mate.group = some group) (otherMember : other ∈ db.nodeRuns)
    (tokenMember : token ∈ db.tokens) (otherOwns : token.id = other.token)
    (otherGroup : token.group = some group) (isBarrier : wf.barrierAt token.stand = true)
    (apart : other.id ≠ run.id) : db.joinArrivalCount run.id < db.arrivedIn group := by
  obtain ⟨arrival, arrivalMember, isOther, sameGroup⟩ :=
    barriers.fed other otherMember token tokenMember otherOwns isBarrier
  refine Table.countP_lt (fun row rowMember isRun => ?_) arrivalMember ?_ ?_
  · have rowGroup := barriers.own row rowMember run member (of_decide_eq_true isRun).symm mate
      mateMember owns
    rw [inGroup] at rowGroup
    exact decide_eq_true (Option.some.inj rowGroup).symm
  · rw [otherGroup] at sameGroup
    exact decide_eq_true (Option.some.inj sameGroup).symm
  · rw [isOther]
    exact decide_eq_false apart

end Barriers

/-- What holds while a run goes on. Without event edges everything alive descends from the entry. -/
structure Game (wf : Workflow) (here : Hand × RunDb) : Prop where
  sound : (nest wf here.1 here.2).Sound
  barriers : Barriers wf here.2
  alone : wf.eventEdges = [] → (nest wf here.1 here.2).live none = 1

section

variable {wf : Workflow} {hand after : Hand} {db next : RunDb}

theorem nest_congr (groups : next.tokenGroups = db.tokenGroups)
    (arrivals : next.joinArrivals = db.joinArrivals) (fired : next.firedGroups = db.firedGroups)
    (branches : ∀ place, next.activeCount (wf.branchIn place) + after.holds place =
      db.activeCount (wf.branchIn place) + hand.holds place)
    (barriers : ∀ group, next.activeCount (wf.barrierIn group) = db.activeCount (wf.barrierIn group)) :
    nest wf after next = nest wf hand db := by
  ext1
  · simp only [nest, RunDb.groupTree, groups]
  · funext group
    simp only [nest, RunDb.cardinalityOf, RunDb.tokenGroup?_congr groups]
  · funext group
    simp only [nest, RunDb.arrivedIn, arrivals]
  · funext group
    simp only [nest, RunDb.firedIn_eq, fired]
  · funext place
    exact branches place
  · funext group
    exact barriers group

/-- Turns that leave the counts alone. -/
theorem Game.congr (game : Game wf (hand, db)) (barriers : Barriers wf next)
    (same : nest wf after next = nest wf hand db) : Game wf (after, next) :=
  ⟨same ▸ game.sound, barriers, fun noEvents => by
    rw [show nest wf after next = nest wf hand db from same]
    exact game.alone noEvents⟩

/-- A token put down where it was carried. -/
theorem nest_startNode {node : Node} {place : Option Nat} (parent : Option Nat)
    (originEvent : Option String) (now : Nat)
    (noBarrier : wf.barrierAt (db.nextID, node.id, place) = false)
    (drops : ∀ other, hand.holds other = after.holds other + if other = place then 1 else 0) :
    nest wf after (db.startNode node parent place originEvent now) = nest wf hand db := by
  refine nest_congr (by simp) (by simp) (by simp) (fun other => ?_) fun group => ?_
  · rw [RunDb.activeCount_append RunDb.startNode_tokens, drops]
    by_cases isPlace : other = place
    · have here : wf.branchIn other (db.nextID, node.id, place) = true := by
        simp [Workflow.branchIn, noBarrier, isPlace]
      rw [if_pos isPlace, if_pos (by simpa [Token.stand] using here)]
      omega
    · have elsewhere : wf.branchIn other (db.nextID, node.id, place) = false := by
        have differs : ¬ place = other := fun same => isPlace same.symm
        simp [Workflow.branchIn, differs]
      rw [if_neg isPlace, if_neg (by simpa [Token.stand] using elsewhere)]
      omega
  · have never : wf.barrierIn group (db.nextID, node.id, place) = false := by
      simp [Workflow.barrierIn, noBarrier]
    rw [RunDb.activeCount_append RunDb.startNode_tokens, if_neg (by simpa [Token.stand] using never)]
    rfl

end

section

variable {wf : Workflow} {hand after : Hand} {db next : RunDb}

theorem nest_gather {join : Node} {token group : Nat} {fromNode outcome : String} {output : Payload}
    (declared : wf.kind? join.id = some .join)
    (drops : ∀ other, hand.holds other = after.holds other + if other = some group then 1 else 0) :
    nest wf after (db.gather join token group fromNode outcome output) =
      (nest wf hand db).arrive group
        (if (db.openJoinBarrier join.id group).isSome = true then 0 else 1) := by
  have counts : ∀ holds, (db.gather join token group fromNode outcome output).activeCount holds =
      db.activeCount holds +
        if (db.openJoinBarrier join.id group).isSome = true then 0
        else if holds (db.nextID, join.id, some group) = true then 1 else 0 := by
    intro holds
    unfold RunDb.gather RunDb.joinBarrier
    cases db.openJoinBarrier join.id group with
    | some barrier => rfl
    | none =>
        refine (RunDb.activeCount_append rfl).trans ?_
        simp [Token.stand]
  have isBarrier : wf.barrierAt (db.nextID, join.id, some group) = true := by
    simp [Workflow.barrierAt, declared]
  ext1
  · simp [nest, Nest.arrive, RunDb.groupTree]
  · funext other
    simp [nest, Nest.arrive, RunDb.cardinalityOf, RunDb.tokenGroup?]
  · funext other
    by_cases same : other = group
    · subst same
      simp [nest, Nest.arrive, RunDb.arrivedIn]
    · have differs : ¬ group = other := fun equal => same equal.symm
      simp [nest, Nest.arrive, RunDb.arrivedIn, same, differs]
  · funext other
    simp [nest, Nest.arrive, RunDb.firedIn_eq]
  · funext place
    have noBranch : wf.branchIn place (db.nextID, join.id, some group) = false := by
      simp [Workflow.branchIn, isBarrier]
    have same := counts (wf.branchIn place)
    rw [noBranch] at same
    simp only [Bool.false_eq_true, if_false, ite_self, Nat.add_zero] at same
    have dropped := drops place
    by_cases isPlace : place = some group
    · subst isPlace
      rw [if_pos rfl] at dropped
      simp only [nest, Nest.arrive, Function.update_self, same]
      omega
    · rw [if_neg isPlace, Nat.add_zero] at dropped
      simp only [nest, Nest.arrive, Function.update_of_ne isPlace, same, dropped]
  · funext other
    have same := counts (wf.barrierIn other)
    by_cases isGroup : other = group
    · subst isGroup
      have isIn : wf.barrierIn other (db.nextID, join.id, some other) = true := by
        simp [Workflow.barrierIn, isBarrier]
      simp only [nest, Nest.arrive, Function.update_self, same, isIn, if_true]
    · have isOut : wf.barrierIn other (db.nextID, join.id, some group) = false := by
        have differs : ¬ group = other := fun equal => isGroup equal.symm
        simp [Workflow.barrierIn, differs]
      simp only [nest, Nest.arrive, Function.update_of_ne isGroup, same, isOut, Bool.false_eq_true,
        if_false, ite_self, Nat.add_zero]

theorem Linked.barrier_counted (linked : Linked db) (keyed : Keyed wf db) {run : NodeRun} {mate : Token}
    {group : Nat} (member : run ∈ db.nodeRuns) (mateMember : mate ∈ db.tokens)
    (owns : mate.id = run.token) (inGroup : mate.group = some group)
    (waits : run.state = .waitingJoin) :
    mate.active = true ∧ wf.barrierIn group mate.stand = true ∧ wf.barrierAt mate.stand = true := by
  obtain ⟨isJoin, _⟩ := keyed.parked run member waits
  obtain ⟨token, tokenMember, tokenOwns, sameNode⟩ := keyed.placed run member
  have isMate := keyed.token_eq tokenMember mateMember (tokenOwns.trans owns.symm)
  have active : mate.active = true := by
    rw [linked.paired.mirrored run member mate mateMember owns, waits]
    rfl
  have isBarrier : wf.barrierAt mate.stand = true := by
    have atJoin : wf.kind? mate.node = some .join := isMate ▸ sameNode ▸ isJoin
    simp [Workflow.barrierAt, Token.stand, atJoin, inGroup]
  have isIn : wf.barrierIn group mate.stand = true := by
    rw [Workflow.barrierIn, isBarrier, Bool.and_true]
    exact decide_eq_true inGroup
  exact ⟨active, isIn, isBarrier⟩

/-- An arrival keeps the game going. -/
theorem Game.gather {join : Node} {token group : Nat} {fromNode outcome : String} {output : Payload}
    (game : Game wf (hand, db)) (keyed : Keyed wf db) (linked : Linked db)
    (declared : wf.kind? join.id = some .join) (valid : Forest.Valid db.groupTree (some group))
    (drops : ∀ other, hand.holds other = after.holds other + if other = some group then 1 else 0) :
    Game wf (after, db.gather join token group fromNode outcome output) := by
  have some : 0 < (nest wf hand db).threads (.some group) := by
    have dropped := drops (.some group)
    rw [if_pos rfl] at dropped
    simp only [nest]
    omega
  have gathered : 0 < (nest wf hand db).barriers group +
      (if (db.openJoinBarrier join.id group).isSome = true then 0 else 1) := by
    cases barrier : db.openJoinBarrier join.id group with
    | none => simp
    | some run =>
        obtain ⟨member, _, waits, mate, mateMember, owns, inGroup⟩ :=
          Keyed.openJoinBarrier_eq_some barrier
        obtain ⟨active, isIn, _⟩ :=
          linked.barrier_counted keyed member mateMember owns inGroup waits
        have counted : 0 < db.activeCount (wf.barrierIn group) :=
          RunDb.activeCount_pos mateMember active isIn
        simpa [nest] using counted
  have unfired : db.firedIn group = false :=
    game.sound.unfired some (Forest.self_mem_chain (valid group rfl))
  have same : nest wf after (db.gather join token group fromNode outcome output) = _ :=
    nest_gather declared drops
  refine ⟨?_, game.barriers.gather keyed join token group fromNode outcome output unfired, ?_⟩
  · show (nest wf after (db.gather join token group fromNode outcome output)).Sound
    rw [same]
    exact game.sound.arrive some gathered
  · intro noEvents
    show (nest wf after (db.gather join token group fromNode outcome output)).live none = 1
    rw [same, Nest.arrive_live some gathered (Option.some_ne_none group).symm]
    exact game.alone noEvents

end

section

variable {wf : Workflow} {hand after : Hand} {db next : RunDb}

theorem Keyed.group_fresh (keyed : Keyed wf db) : db.nextID ∉ db.groupTree.map Prod.fst := fun known =>
  Nat.lt_irrefl _ (keyed.groupsOld db.nextID known)

theorem Keyed.arrivedIn_fresh (keyed : Keyed wf db) : db.arrivedIn db.nextID = 0 := by
  refine List.countP_eq_zero.mpr fun arrival member isFresh => ?_
  have older := (keyed.arrivalsOld arrival member).2
  have newest : arrival.group = db.nextID := of_decide_eq_true isFresh
  omega

theorem Keyed.firedIn_fresh (keyed : Keyed wf db) : db.firedIn db.nextID = false := by
  rw [RunDb.firedIn_eq]
  cases known : db.firedGroups.contains db.nextID with
  | false => rfl
  | true =>
      obtain ⟨entry, member, isGroup⟩ := List.mem_filterMap.mp (List.contains_iff_mem.mp known)
      cases entry with
      | wrote run state => simp [Entry.group?] at isGroup
      | enqueued run => simp [Entry.group?] at isGroup
      | fired barrier group =>
          have older := (keyed.journalOld _ member).2
          have newest : group = db.nextID := Option.some.inj isGroup
          omega

/-- The token in hand is replaced by the branches of a new group. -/
theorem nest_split {place : Option Nat} {edges : List Edge} {nodeRun : Nat} (keyed : Keyed wf db)
    (valid : Forest.Valid db.groupTree place) :
    nest wf (.spreading db.nextID edges) (db.insertTokenGroup nodeRun place edges.length) =
      (nest wf (.parting place edges) db).split place db.nextID edges.length := by
  have notFresh : place ≠ some db.nextID := fun same => keyed.group_fresh (valid db.nextID same)
  ext1
  · rfl
  · funext group
    by_cases isNew : group = db.nextID
    · subst isNew
      simp [nest, Nest.split, RunDb.cardinalityOf, RunDb.tokenGroup?, RunDb.insertTokenGroup]
    · have differs : ¬ db.nextID = group := fun same => isNew same.symm
      simp [nest, Nest.split, RunDb.cardinalityOf, RunDb.tokenGroup?, RunDb.insertTokenGroup, isNew,
        differs]
  · rfl
  · rfl
  · funext other
    by_cases isNew : other = some db.nextID
    · subst isNew
      have empty : db.activeCount (wf.branchIn (some db.nextID)) = 0 := by
        refine List.countP_eq_zero.mpr fun token member counted => ?_
        simp only [Workflow.branchIn, Token.stand, Bool.and_eq_true] at counted
        exact keyed.group_fresh (keyed.grouped token member _ (of_decide_eq_true counted.2.1))
      have same : (db.insertTokenGroup nodeRun place edges.length).activeCount
          (wf.branchIn (some db.nextID)) = 0 := empty
      simp [nest, Nest.split, same, Hand.holds]
    · have same : (db.insertTokenGroup nodeRun place edges.length).activeCount (wf.branchIn other) =
          db.activeCount (wf.branchIn other) := rfl
      by_cases isPlace : other = place
      · subst isPlace
        simp [nest, Nest.split, same, Hand.holds, isNew]
      · simp [nest, Nest.split, same, Hand.holds, isNew, isPlace]
  · rfl

theorem Game.split {place : Option Nat} {edges : List Edge} (nodeRun : Nat)
    (game : Game wf (.parting place edges, db)) (keyed : Keyed wf db)
    (valid : Forest.Valid db.groupTree place) (nonempty : edges ≠ []) :
    Game wf (.spreading db.nextID edges, db.insertTokenGroup nodeRun place edges.length) := by
  have some : 0 < (nest wf (.parting place edges) db).threads place := by
    simp [nest, Hand.holds]
  have branching : 0 < edges.length := List.length_pos_iff.mpr nonempty
  have fresh : db.nextID ∉ (nest wf (.parting place edges) db).tree.map Prod.fst := keyed.group_fresh
  have same : nest wf (.spreading db.nextID edges) (db.insertTokenGroup nodeRun place edges.length) = _ :=
    nest_split keyed valid
  refine ⟨?_, game.barriers.congr rfl rfl rfl rfl, fun noEvents => ?_⟩
  · show (nest wf (.spreading db.nextID edges) (db.insertTokenGroup nodeRun place edges.length)).Sound
    rw [same]
    exact game.sound.split some fresh branching keyed.arrivedIn_fresh keyed.firedIn_fresh
  · show (nest wf (.spreading db.nextID edges)
      (db.insertTokenGroup nodeRun place edges.length)).live none = 1
    rw [same, Nest.split_live game.sound some fresh branching (Option.some_ne_none db.nextID).symm]
    exact game.alone noEvents

theorem Takes.holds {own : NodeRun} {outcome : String} {token : Token} {node : Node}
    (takes : Takes wf db own outcome hand) (held : hand ≠ .ending)
    (found : db.token? own.token = some token) (isNode : wf.node? own.node = some node) :
    ∀ other, hand.holds other = if other = db.outerPlace node token then 1 else 0 := by
  intro other
  cases takes with
  | ending => exact absurd rfl held
  | carrying foundToken foundNode _ _ _ _ _ =>
      rw [← Option.some.inj (foundToken.symm.trans found),
        ← Option.some.inj (foundNode.symm.trans isNode)]
      rfl
  | @parting own' node' edges foundToken foundNode isSplit _ _ _ _ =>
      have stays : db.outerPlace node' own' = own'.group := by
        rw [RunDb.outerPlace, if_neg]
        intro isJoin
        simp [splits, isJoin] at isSplit
      rw [← Option.some.inj (foundToken.symm.trans found),
        ← Option.some.inj (foundNode.symm.trans isNode), stays]
      rfl

/-- A node run ends: a branch goes on where it was, a fired barrier in the place around its group. -/
theorem Game.finish {own : NodeRun} {state : NodeRunState} {outcome : String} (recorded : String)
    (game : Game wf (.idle, db)) (keyed : Keyed wf db) (linked : Linked db) (member : own ∈ db.nodeRuns)
    (isOpen : own.state.terminal = false) (notParked : own.state ≠ .waitingJoin)
    (terminal : state.terminal = true) (takes : Takes wf db own outcome hand) (held : hand ≠ .ending) :
    Game wf (hand, db.finishNodeRun own state recorded) := by
  obtain ⟨token, tokenMember, owns, sameNode⟩ := keyed.placed own member
  have active : token.active = true := by
    rw [linked.paired.mirrored own member token tokenMember owns, isOpen]
    rfl
  have found : db.token? own.token = some token := owns ▸ keyed.token?_eq tokenMember
  have consumed : ∀ holds, db.activeCount holds =
      (db.finishNodeRun own state recorded).activeCount holds +
        if holds token.stand = true then 1 else 0 := fun holds =>
    RunDb.activeCount_consume keyed tokenMember active (by rw [owns]; rfl)
  have barriers : Barriers wf (db.finishNodeRun own state recorded) :=
    game.barriers.rewriteRuns rfl (fun _ => rfl) (fun _ _ _ => Or.inl terminal)
      (Table.update_keys fun _ => rfl) rfl rfl
  obtain ⟨node, isNode⟩ : ∃ node, wf.node? own.node = some node := by
    cases takes with
    | ending => exact absurd rfl held
    | carrying _ foundNode _ _ _ _ _ => exact ⟨_, foundNode⟩
    | parting _ foundNode _ _ _ _ _ => exact ⟨_, foundNode⟩
  have holds := takes.holds held found isNode
  have kind : wf.kind? token.node = some node.kind := sameNode ▸ wf.kind?_of_node? isNode
  cases isBarrier : wf.barrierAt token.stand with
  | false =>
      have stays : db.outerPlace node token = token.group := by
        unfold RunDb.outerPlace
        split
        · rename_i isJoin
          rw [Workflow.barrierAt, Token.stand, kind, isJoin] at isBarrier
          cases inGroup : token.group with
          | none => rfl
          | some group => simp [inGroup] at isBarrier
        · rfl
      rw [stays] at holds
      refine game.congr barriers (nest_congr rfl rfl rfl (fun place => ?_) fun group => ?_)
      · rw [consumed, holds]
        by_cases here : place = token.group
        · have counted : wf.branchIn place token.stand = true := by
            rw [Workflow.branchIn, isBarrier, here]
            simp [Token.stand]
          rw [if_pos here, if_pos counted]
          rfl
        · have notCounted : wf.branchIn place token.stand = false := by
            have differs : ¬ token.group = place := fun same => here same.symm
            simp [Workflow.branchIn, Token.stand, differs]
          rw [if_neg here, notCounted]
          rfl
      · have notCounted : wf.barrierIn group token.stand = false := by
          simp [Workflow.barrierIn, isBarrier]
        rw [consumed (wf.barrierIn group), notCounted]
        rfl
  | true =>
      obtain ⟨standsAtJoin, inSome⟩ := Bool.and_eq_true_iff.mp isBarrier
      have atJoin : wf.kind? token.node = some .join := of_decide_eq_true standsAtJoin
      obtain ⟨group, inGroup⟩ : ∃ group, token.group = some group := Option.isSome_iff_exists.mp inSome
      have isJoin : node.kind = .join := Option.some.inj (kind.symm.trans atJoin)
      have known := keyed.grouped token tokenMember group inGroup
      obtain ⟨row, isRow, outer⟩ := keyed.outerPlace_join tokenMember inGroup isJoin
      rw [outer] at holds
      have above : (group, row.parent) ∈ (nest wf .idle db).tree := tokenGroup?_valid isRow
      have isIn : wf.barrierIn group token.stand = true := by
        rw [Workflow.barrierIn, isBarrier, Bool.and_true]
        exact decide_eq_true inGroup
      have fired : (nest wf .idle db).fired group = true := by
        have waits := game.barriers.waits own member token tokenMember owns isBarrier isOpen group inGroup
        cases isFired : db.firedIn group with
        | true => exact isFired
        | false => exact absurd (waits.mpr isFired) notParked
      have some : 0 < (nest wf .idle db).barriers group :=
        RunDb.activeCount_pos tokenMember active isIn
      have single := (game.sound.only_barrier fired known some).2
      have same : nest wf hand (db.finishNodeRun own state recorded) =
          (nest wf .idle db).leave group row.parent := by
        ext1
        · rfl
        · rfl
        · rfl
        · rfl
        · funext place
          have notCounted : wf.branchIn place token.stand = false := by
            simp [Workflow.branchIn, isBarrier]
          have sameCount := consumed (wf.branchIn place)
          rw [notCounted] at sameCount
          simp only [Bool.false_eq_true, if_false, Nat.add_zero] at sameCount
          have emptyHand : Hand.idle.holds place = 0 := rfl
          have handed := holds place
          by_cases isParent : place = row.parent
          · rw [if_pos isParent] at handed
            rw [isParent] at handed sameCount emptyHand ⊢
            simp only [nest, Nest.leave, Function.update_self, sameCount, handed, emptyHand, Nat.add_zero]
          · rw [if_neg isParent] at handed
            simp only [nest, Nest.leave, Function.update_of_ne isParent, sameCount, handed, emptyHand]
        · funext other
          have sameCount := consumed (wf.barrierIn other)
          by_cases isGroup : other = group
          · subst isGroup
            rw [isIn, if_pos rfl] at sameCount
            simp only [nest] at single
            simp only [nest, Nest.leave, Function.update_self]
            omega
          · have notCounted : wf.barrierIn other token.stand = false := by
              have differs : ¬ group = other := fun equal => isGroup equal.symm
              simp [Workflow.barrierIn, Token.stand, inGroup, differs]
            rw [notCounted] at sameCount
            simp only [nest, Nest.leave, Function.update_of_ne isGroup, sameCount, Bool.false_eq_true,
              if_false, Nat.add_zero]
      refine ⟨?_, barriers, fun noEvents => ?_⟩
      · show (nest wf hand (db.finishNodeRun own state recorded)).Sound
        rw [same]
        exact game.sound.leave above fired some
      · show (nest wf hand (db.finishNodeRun own state recorded)).live none = 1
        rw [same, Nest.leave_live game.sound above fired some]
        exact game.alone noEvents

end

section

variable {wf : Workflow} {db : RunDb} {group keep : Nat}

/-- What is lost when a group fires: everything in the group or below it but the barrier. -/
theorem Keyed.losing_iff (keyed : Keyed wf db) (token : Token) :
    db.losing group keep token = true ↔
      group ∈ Forest.chain db.groupTree token.group ∧ token.id ≠ keep := by
  unfold RunDb.losing
  rw [Bool.and_eq_true, decide_eq_true_eq]
  refine and_congr_left fun _ => ?_
  cases token.group with
  | none => simp
  | some own =>
      rw [List.contains_iff_mem]
      exact Forest.mem_subtree_iff keyed.grown

theorem reapGroupBranches_activeCount (holds : Nat × String × Option Nat → Bool) :
    (db.reapGroupBranches group keep).activeCount holds =
      db.tokens.countP fun token => token.active && !db.losing group keep token && holds token.stand := by
  refine (Table.countP_update _).trans (List.countP_congr fun token _ => ?_)
  cases active : token.active with
  | false => simp [active]
  | true => cases db.losing group keep token <;> simp [active, Token.stand]

theorem reaped_branches (keyed : Keyed wf db) {mate : Token} (mateMember : mate ∈ db.tokens)
    (isKept : mate.id = keep) (isBarrier : wf.barrierAt mate.stand = true) (place : Option Nat) :
    (db.reapGroupBranches group keep).activeCount (wf.branchIn place) =
      if group ∈ Forest.chain db.groupTree place then 0 else db.activeCount (wf.branchIn place) := by
  rw [reapGroupBranches_activeCount]
  have lost : ∀ token ∈ db.tokens, wf.branchIn place token.stand = true →
      (db.losing group keep token = true ↔ group ∈ Forest.chain db.groupTree place) := by
    intro token member counted
    obtain ⟨inPlace, notBarrier⟩ := Bool.and_eq_true_iff.mp counted
    have sameGroup : token.group = place := of_decide_eq_true inPlace
    rw [keyed.losing_iff, sameGroup]
    refine and_iff_left fun same => ?_
    rw [keyed.token_eq member mateMember (same.trans isKept.symm), isBarrier] at notBarrier
    contradiction
  split
  · rename_i inside
    refine List.countP_eq_zero.mpr fun token member counted => ?_
    simp only [Bool.and_eq_true, Bool.not_eq_true'] at counted
    rw [(lost token member counted.2).mpr inside] at counted
    simp at counted
  · rename_i outside
    refine List.countP_congr fun token member => ?_
    cases counted : wf.branchIn place token.stand with
    | false => simp
    | true =>
        have kept : db.losing group keep token = false := by
          rw [← Bool.not_eq_true, lost token member counted]
          exact outside
        simp [kept]

theorem reaped_barriers (keyed : Keyed wf db) {mate : Token} (mateMember : mate ∈ db.tokens)
    (isKept : mate.id = keep) (active : mate.active = true) (isIn : wf.barrierIn group mate.stand = true)
    (other : Nat) :
    (db.reapGroupBranches group keep).activeCount (wf.barrierIn other) =
      if other = group then 1
      else if group ∈ Forest.chain db.groupTree (some other) then 0
      else db.activeCount (wf.barrierIn other) := by
  rw [reapGroupBranches_activeCount]
  have inGroup : ∀ {key : Nat} {token : Token}, wf.barrierIn key token.stand = true →
      token.group = some key := fun counted =>
    of_decide_eq_true (Bool.and_eq_true_iff.mp counted).1
  have known := keyed.grouped mate mateMember group (inGroup isIn)
  split
  · rename_i isGroup
    subst isGroup
    have keptMate : db.losing other keep mate = false := by
      rw [← Bool.not_eq_true, keyed.losing_iff]
      exact fun lost => lost.2 isKept
    have single : db.tokens.countP (fun token =>
        token.active && !db.losing other keep token && wf.barrierIn other token.stand) =
          db.tokens.countP (fun _ => false) + 1 := by
      refine Table.countP_eq_succ (.of_map Token.id keyed.tokenIDs) mateMember ?_ rfl ?_
      · simp [active, keptMate, isIn]
      · intro token member different
        cases counted : wf.barrierIn other token.stand with
        | false => simp
        | true =>
            have lost : db.losing other keep token = true := by
              rw [keyed.losing_iff, inGroup counted]
              refine ⟨Forest.self_mem_chain known, fun same => different ?_⟩
              exact keyed.token_eq member mateMember (same.trans isKept.symm)
            simp [lost]
    simpa using single
  · rename_i notGroup
    have lost : ∀ token ∈ db.tokens, wf.barrierIn other token.stand = true →
        (db.losing group keep token = true ↔ group ∈ Forest.chain db.groupTree (some other)) := by
      intro token member counted
      rw [keyed.losing_iff, inGroup counted]
      refine and_iff_left fun same => notGroup ?_
      rw [keyed.token_eq member mateMember (same.trans isKept.symm)] at counted
      exact Option.some.inj ((inGroup counted).symm.trans (inGroup isIn))
    split
    · rename_i inside
      refine List.countP_eq_zero.mpr fun token member counted => ?_
      simp only [Bool.and_eq_true, Bool.not_eq_true'] at counted
      rw [(lost token member counted.2).mpr inside] at counted
      simp at counted
    · rename_i outside
      refine List.countP_congr fun token member => ?_
      cases counted : wf.barrierIn other token.stand with
      | false => simp
      | true =>
          have kept : db.losing group keep token = false := by
            rw [← Bool.not_eq_true, lost token member counted]
            exact outside
          simp [kept]

end

section

variable {wf : Workflow} {db : RunDb} {barrier : NodeRun} {group now : Nat}

/-- The rows of a barrier that has become claimable, before anything is reaped. -/
def RunDb.claimable (db : RunDb) (barrier : NodeRun) (group now : Nat) : RunDb :=
  let ready := (db.updateNodeRun barrier.id .ready "").enqueueWork barrier.id now
  { ready with journal := .fired barrier.id group :: ready.journal }

theorem RunDb.fireBarrier_eq (early : Bool) : db.fireBarrier barrier group early now =
    if early = true then (db.claimable barrier group now).reapGroupBranches group barrier.token
    else db.claimable barrier group now := rfl

theorem Keyed.claimable (keyed : Keyed wf db) (now : Nat) (known : barrier.id < db.nextID)
    (groupKnown : group < db.nextID) : Keyed wf (db.claimable barrier group now) :=
  ((keyed.updateNodeRun known rfl).enqueueWork now known).addEntry (.fired barrier.id group)
    ⟨Nat.lt_succ_of_lt known, Nat.lt_succ_of_lt groupKnown⟩

theorem fireBarrier_run (keyed : Keyed wf db) (early : Bool) (known : barrier.id < db.nextID)
    (groupKnown : group < db.nextID) {run : NodeRun}
    (member : run ∈ (db.fireBarrier barrier group early now).nodeRuns) :
    ∃ old ∈ db.nodeRuns, old.stand = run.stand ∧
      (run.state.terminal = false →
        (old.id = barrier.id ∧ run.state = .ready ∨ old.id ≠ barrier.id ∧ run = old) ∧
        (early = true → ∀ token ∈ db.tokens, token.id = old.token →
          db.losing group barrier.token token = false)) := by
  have readied : ∀ row ∈ (db.claimable barrier group now).nodeRuns, ∃ old ∈ db.nodeRuns,
      old.stand = row.stand ∧
        (old.id = barrier.id ∧ row.state = .ready ∨ old.id ≠ barrier.id ∧ row = old) := by
    intro row rowMember
    obtain ⟨old, oldMember, rfl⟩ := Table.mem_update.mp rowMember
    by_cases hit : decide (old.id = barrier.id) = true
    · rw [if_pos hit]
      exact ⟨old, oldMember, rfl, Or.inl ⟨of_decide_eq_true hit, rfl⟩⟩
    · rw [if_neg hit]
      exact ⟨old, oldMember, rfl, Or.inr ⟨fun same => hit (decide_eq_true same), rfl⟩⟩
  rw [RunDb.fireBarrier_eq] at member
  cases early with
  | false =>
      obtain ⟨old, oldMember, stands, moved⟩ := readied run member
      exact ⟨old, oldMember, stands, fun _ => ⟨moved, fun never => absurd never Bool.false_ne_true⟩⟩
  | true =>
      have markedKeyed : Keyed wf (db.claimable barrier group now) := keyed.claimable now known groupKnown
      rw [if_pos rfl] at member
      obtain ⟨row, rowMember, rfl⟩ := Table.mem_update.mp member
      obtain ⟨old, oldMember, stands, moved⟩ := readied row rowMember
      have lostIff := Table.contains_filter_keys markedKeyed.runIDs rowMember fun run =>
        !run.state.terminal && (db.claimable barrier group now).tokens.any fun token =>
          token.id = run.token && (db.claimable barrier group now).losing group barrier.token token
      split
      · exact ⟨old, oldMember, stands, fun isOpen => absurd isOpen Bool.noConfusion⟩
      · rename_i missed
        refine ⟨old, oldMember, stands, fun isOpen => ⟨moved, fun _ token tokenMember owns => ?_⟩⟩
        have sameToken : old.token = row.token := congrArg (fun s => s.2.1) stands
        have spared := Bool.not_eq_true _ ▸ missed
        rw [lostIff, isOpen, Bool.not_false, Bool.true_and] at spared
        exact (Paired.losing_iff markedKeyed tokenMember (owns.trans sameToken)).symm.trans spared

end

section

variable {wf : Workflow} {db : RunDb} {barrier : NodeRun} {group now : Nat}

theorem fireBarrier_firedIn_eq (early : Bool) (other : Nat) :
    (db.fireBarrier barrier group early now).firedIn other =
      Function.update db.firedIn group true other := by
  rw [RunDb.firedIn_eq, RunDb.fireBarrier_firedGroups, List.contains_cons, ← RunDb.firedIn_eq]
  by_cases same : other = group
  · simp [same]
  · simp [same]

theorem fireBarrier_stands (early : Bool) :
    (db.fireBarrier barrier group early now).tokens.map Token.stand = db.tokens.map Token.stand := by
  rw [RunDb.fireBarrier_eq]
  cases early with
  | false => rfl
  | true => exact Table.update_keys fun _ => rfl

theorem Barriers.fire (barriers : Barriers wf db) (keyed : Keyed wf db) {early : Bool}
    (parked : db.Parked barrier group) (groupKnown : group ∈ db.groupTree.map Prod.fst)
    (alone : early = false → ∀ other ∈ db.nodeRuns, ∀ token ∈ db.tokens, token.id = other.token →
      wf.barrierAt token.stand = true → token.group = some group → other.id = barrier.id) :
    Barriers wf (db.fireBarrier barrier group early now) := by
  have known := keyed.parked_old parked
  have groupOld := keyed.groupsOld group groupKnown
  obtain ⟨row, rowMember, sameID, sameToken, _, mate, mateMember, mateOwns, mateGroup⟩ := parked
  have back : ∀ token ∈ (db.fireBarrier barrier group early now).tokens, ∃ old ∈ db.tokens,
      old.stand = token.stand := fun token member =>
    Table.exists_of_keys_eq (fireBarrier_stands early) member
  refine ⟨?_, ?_, ?_⟩
  · intro run member token tokenMember owns isBarrier isOpen other inOther
    obtain ⟨old, oldMember, stands, keeps⟩ := fireBarrier_run keyed early known groupOld member
    obtain ⟨moved, spared⟩ := keeps isOpen
    obtain ⟨oldToken, oldTokenMember, tokenStands⟩ := back token tokenMember
    have runToken : old.token = run.token := congrArg (fun s => s.2.1) stands
    have tokenID : oldToken.id = token.id := congrArg Prod.fst tokenStands
    have tokenGroup : oldToken.group = token.group := congrArg (fun s => s.2.2) tokenStands
    have oldOwns : oldToken.id = old.token := tokenID.trans (owns.trans runToken.symm)
    have oldGroup : oldToken.group = some other := tokenGroup.trans inOther
    have oldBarrier : wf.barrierAt oldToken.stand = true := tokenStands ▸ isBarrier
    rw [fireBarrier_firedIn_eq]
    rcases moved with ⟨isRow, isReady⟩ | ⟨notRow, rfl⟩
    · have isOld := keyed.run_eq oldMember rowMember (isRow.trans sameID.symm)
      have isMate := keyed.token_eq oldTokenMember mateMember
        (oldOwns.trans ((congrArg NodeRun.token isOld).trans mateOwns.symm))
      have isGroup : other = group := by
        rw [isMate, mateGroup] at oldGroup
        exact (Option.some.inj oldGroup).symm
      rw [isReady, isGroup]
      simp
    · have notGroup : other ≠ group := by
        rintro rfl
        cases early with
        | false =>
            exact notRow (alone rfl run oldMember oldToken oldTokenMember oldOwns oldBarrier oldGroup)
        | true =>
            have kept := spared rfl oldToken oldTokenMember oldOwns
            have lost : db.losing other barrier.token oldToken = true := by
              rw [keyed.losing_iff, oldGroup]
              refine ⟨Forest.self_mem_chain groupKnown, fun same => notRow ?_⟩
              have sameOwner := keyed.owner_eq oldMember rowMember
                (oldOwns.symm.trans (same.trans sameToken.symm))
              rw [sameOwner, sameID]
            rw [lost] at kept
            contradiction
      rw [Function.update_of_ne notGroup]
      exact barriers.waits run oldMember oldToken oldTokenMember oldOwns oldBarrier isOpen other oldGroup
  · intro run member token tokenMember owns isBarrier
    obtain ⟨old, oldMember, stands, _⟩ := fireBarrier_run keyed early known groupOld member
    obtain ⟨oldToken, oldTokenMember, tokenStands⟩ := back token tokenMember
    have runID : old.id = run.id := congrArg Prod.fst stands
    have runToken : old.token = run.token := congrArg (fun s => s.2.1) stands
    have tokenID : oldToken.id = token.id := congrArg Prod.fst tokenStands
    have tokenGroup : oldToken.group = token.group := congrArg (fun s => s.2.2) tokenStands
    rw [RunDb.fireBarrier_joinArrivals, ← runID, ← tokenGroup]
    exact barriers.fed old oldMember oldToken oldTokenMember
      (tokenID.trans (owns.trans runToken.symm)) (tokenStands ▸ isBarrier)
  · intro arrival arrivalMember run member isRun token tokenMember owns
    rw [RunDb.fireBarrier_joinArrivals] at arrivalMember
    obtain ⟨old, oldMember, stands, _⟩ := fireBarrier_run keyed early known groupOld member
    obtain ⟨oldToken, oldTokenMember, tokenStands⟩ := back token tokenMember
    have runID : old.id = run.id := congrArg Prod.fst stands
    have runToken : old.token = run.token := congrArg (fun s => s.2.1) stands
    have tokenID : oldToken.id = token.id := congrArg Prod.fst tokenStands
    have tokenGroup : oldToken.group = token.group := congrArg (fun s => s.2.2) tokenStands
    rw [← tokenGroup]
    exact barriers.own arrival arrivalMember old oldMember (runID.trans isRun) oldToken oldTokenMember
      (tokenID.trans (owns.trans runToken.symm))

theorem Game.fire {row : TokenGroup} (now : Nat) (game : Game wf (.settling group, db))
    (keyed : Keyed wf db) (linked : Linked db) (parked : db.Parked barrier group)
    (found : db.tokenGroup? group = some row) :
    Game wf (.settling group, db.fireBarrier barrier group
      (decide (db.joinArrivalCount barrier.id < row.cardinality)) now) ∧
      db.firedIn group = false := by
  obtain ⟨run, member, sameID, sameToken, isWaiting, mate, mateMember, owns, inGroup⟩ := id parked
  obtain ⟨active, isIn, isBarrier⟩ :=
    linked.barrier_counted keyed member mateMember owns inGroup isWaiting
  have unfired : db.firedIn group = false :=
    (game.barriers.waits run member mate mateMember owns isBarrier (by rw [isWaiting]; rfl) group
      inGroup).mp isWaiting
  have groupKnown := keyed.grouped mate mateMember group inGroup
  have some : 0 < (nest wf (.settling group) db).barriers group :=
    RunDb.activeCount_pos mateMember active isIn
  have isOpen : (nest wf (.settling group) db).Open group :=
    ⟨_, Nest.occupied_barrier some, Forest.self_mem_chain groupKnown⟩
  have counted := game.sound.counted group groupKnown unfired isOpen
  have arrivedAtMost : db.arrivedIn group ≤ row.cardinality := by
    have isCard : db.cardinalityOf group = row.cardinality := RunDb.cardinalityOf_eq found
    simp only [nest] at counted
    omega
  -- A barrier that has gathered the whole group is the only one of its group.
  have alone : decide (db.joinArrivalCount barrier.id < row.cardinality) = false →
      ∀ other ∈ db.nodeRuns, ∀ token ∈ db.tokens, token.id = other.token →
        wf.barrierAt token.stand = true → token.group = .some group → other.id = barrier.id := by
    intro full other otherMember token tokenMember otherOwns otherBarrier otherGroup
    by_contra apart
    have fewer : db.joinArrivalCount run.id < db.arrivedIn group :=
      game.barriers.joinArrivalCount_lt member mateMember owns inGroup otherMember tokenMember otherOwns
        otherGroup otherBarrier (fun same => apart (same.trans sameID))
    rw [sameID] at fewer
    have gathered := of_decide_eq_false full
    omega
  have same : nest wf (.settling group) (db.fireBarrier barrier group
      (decide (db.joinArrivalCount barrier.id < row.cardinality)) now) =
        (nest wf (.settling group) db).fire group := by
    cases early : decide (db.joinArrivalCount barrier.id < row.cardinality) with
    | true =>
        have markedKeyed : Keyed wf (db.claimable barrier group now) :=
          keyed.claimable now (keyed.parked_old parked) (keyed.groupsOld group groupKnown)
        have isKept : mate.id = barrier.token := owns.trans sameToken
        ext1
        · simp only [nest, RunDb.groupTree, RunDb.fireBarrier_tokenGroups, Nest.fire]
        · funext other
          simp only [nest, RunDb.cardinalityOf, Nest.fire,
            RunDb.tokenGroup?_congr RunDb.fireBarrier_tokenGroups]
        · funext other
          simp only [nest, RunDb.arrivedIn, RunDb.fireBarrier_joinArrivals, Nest.fire]
        · funext other
          exact fireBarrier_firedIn_eq true other
        · funext place
          exact reaped_branches markedKeyed mateMember isKept isBarrier place
        · funext other
          exact reaped_barriers markedKeyed mateMember isKept active isIn other
    | false =>
        have full : row.cardinality ≤ db.joinArrivalCount barrier.id :=
          Nat.le_of_not_lt (of_decide_eq_false early)
        have single : db.activeCount (wf.barrierIn group) = db.tokens.countP (fun _ => false) + 1 := by
          refine Table.countP_eq_succ (.of_map Token.id keyed.tokenIDs) mateMember ?_ rfl ?_
          · simp [active, isIn]
          · intro token tokenMember different
            cases isActive : token.active with
            | false => rfl
            | true =>
                cases counts : wf.barrierIn group token.stand with
                | false => rfl
                | true =>
                    obtain ⟨other, otherMember, otherOwns⟩ :=
                      linked.paired.manned token tokenMember isActive
                    obtain ⟨standsIn, standsAt⟩ := Bool.and_eq_true_iff.mp counts
                    have isRun := alone early other otherMember token tokenMember otherOwns.symm standsAt
                      (of_decide_eq_true standsIn)
                    have isOwner := keyed.run_eq otherMember member (isRun.trans sameID.symm)
                    rw [isOwner] at otherOwns
                    exact absurd (keyed.token_eq tokenMember mateMember
                      (otherOwns.symm.trans owns.symm)) different
        have gathered : db.joinArrivalCount barrier.id ≤ db.arrivedIn group :=
          sameID ▸ game.barriers.joinArrivalCount_le member mateMember owns inGroup
        have whole := Nest.fire_full game.sound some unfired
          (show db.cardinalityOf group ≤ db.joinArrivalCount barrier.id by
            rw [RunDb.cardinalityOf_eq found]
            exact full)
          (show db.joinArrivalCount barrier.id + db.activeCount (wf.barrierIn group) ≤
              db.arrivedIn group + 1 by
            have nothing : db.tokens.countP (fun _ => false) = 0 := by simp
            rw [single, nothing]
            omega)
        refine Eq.trans ?_ whole.symm
        ext1
        · rfl
        · rfl
        · rfl
        · funext other
          exact fireBarrier_firedIn_eq false other
        · rfl
        · rfl
  refine ⟨⟨?_, game.barriers.fire keyed parked groupKnown alone, fun noEvents => ?_⟩, unfired⟩
  · show (nest wf (.settling group) (db.fireBarrier barrier group _ now)).Sound
    rw [same]
    exact game.sound.fire some
  · show (nest wf (.settling group) (db.fireBarrier barrier group _ now)).live none = 1
    rw [same, Nest.fire_live game.sound some (by simp)]
    exact game.alone noEvents

end

end CultureNodes.Engine
