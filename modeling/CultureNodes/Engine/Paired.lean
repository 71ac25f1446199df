import CultureNodes.Engine.Keyed

/-!
Tokens and node runs, paired: a node run is open exactly as long as its token is active, and every
active token has a node run. This needs strict turns, for a barrier that fires after it was reaped
reopens a node run whose token is gone.
-/

namespace CultureNodes.Engine

structure Paired (db : RunDb) : Prop where
  mirrored : ∀ run ∈ db.nodeRuns, ∀ token ∈ db.tokens, token.id = run.token →
    token.active = !run.state.terminal
  manned : ∀ token ∈ db.tokens, token.active = true → ∃ run ∈ db.nodeRuns, run.token = token.id
  quiet : db.state.terminal = true → (∀ token ∈ db.tokens, token.active = false) ∧
    ∀ route ∈ db.eventRoutes, route.active = false

namespace Paired

variable {wf : Workflow} {db next : RunDb}

/-- Only these rows matter. -/
theorem congr (paired : Paired db) (sameRuns : next.nodeRuns = db.nodeRuns)
    (sameTokens : next.tokens = db.tokens) (sameState : next.state = db.state)
    (sameRoutes : next.eventRoutes = db.eventRoutes) : Paired next := by
  refine ⟨?_, ?_, ?_⟩
  · rw [sameRuns, sameTokens]
    exact paired.mirrored
  · rw [sameRuns, sameTokens]
    exact paired.manned
  · rw [sameState, sameTokens, sameRoutes]
    exact paired.quiet

theorem add (paired : Paired db) (keyed : Keyed wf db) {token : Token} {run : NodeRun}
    (fresh : token.id = db.nextID) (owned : run.token = token.id)
    (mirrors : token.active = !run.state.terminal) (running : db.state.terminal = false)
    (sameRuns : next.nodeRuns = db.nodeRuns ++ [run]) (sameTokens : next.tokens = db.tokens ++ [token])
    (sameState : next.state = db.state) : Paired next := by
  refine ⟨?_, ?_, fun ended => ?_⟩
  · intro other otherMember mate mateMember same
    rw [sameRuns] at otherMember
    rw [sameTokens] at mateMember
    rcases List.mem_append.mp otherMember with oldRun | newRun
    · rcases List.mem_append.mp mateMember with oldToken | newToken
      · exact paired.mirrored other oldRun mate oldToken same
      · rw [List.mem_singleton.mp newToken, fresh] at same
        exact absurd same.symm (keyed.fresh_token other oldRun)
    · rw [List.mem_singleton.mp newRun] at same ⊢
      rcases List.mem_append.mp mateMember with oldToken | newToken
      · have old := keyed.tokensOld mate oldToken
        rw [same, owned, fresh] at old
        exact absurd old (Nat.lt_irrefl _)
      · rw [List.mem_singleton.mp newToken]
        exact mirrors
  · intro mate mateMember active
    rw [sameTokens] at mateMember
    rw [sameRuns]
    rcases List.mem_append.mp mateMember with oldToken | newToken
    · obtain ⟨other, otherMember, same⟩ := paired.manned mate oldToken active
      exact ⟨other, List.mem_append_left _ otherMember, same⟩
    · rw [List.mem_singleton.mp newToken]
      exact ⟨run, List.mem_append_right _ (List.mem_singleton.mpr rfl), owned⟩
  · rw [sameState, running] at ended
    contradiction

theorem addConsumed (paired : Paired db) (keyed : Keyed wf db) {token : Token}
    (fresh : token.id = db.nextID) (consumed : token.active = false)
    (sameRuns : next.nodeRuns = db.nodeRuns) (sameTokens : next.tokens = db.tokens ++ [token])
    (sameState : next.state = db.state) (sameRoutes : next.eventRoutes = db.eventRoutes) :
    Paired next := by
  refine ⟨?_, ?_, fun ended => ⟨?_, ?_⟩⟩
  · intro run runMember mate mateMember same
    rw [sameRuns] at runMember
    rw [sameTokens] at mateMember
    rcases List.mem_append.mp mateMember with oldToken | newToken
    · exact paired.mirrored run runMember mate oldToken same
    · rw [List.mem_singleton.mp newToken, fresh] at same
      exact absurd same.symm (keyed.fresh_token run runMember)
  · intro mate mateMember active
    rw [sameTokens] at mateMember
    rw [sameRuns]
    rcases List.mem_append.mp mateMember with oldToken | newToken
    · exact paired.manned mate oldToken active
    · rw [List.mem_singleton.mp newToken, consumed] at active
      contradiction
  · intro mate mateMember
    rw [sameTokens] at mateMember
    rcases List.mem_append.mp mateMember with oldToken | newToken
    · exact (paired.quiet (sameState ▸ ended)).1 mate oldToken
    · rw [List.mem_singleton.mp newToken]
      exact consumed
  · rw [sameRoutes]
    exact (paired.quiet (sameState ▸ ended)).2

theorem rewrite (paired : Paired db) {reopens : NodeRun → Bool} {write : NodeRun → NodeRun}
    {consumes : Token → Bool} (sameRuns : next.nodeRuns = Table.update db.nodeRuns reopens write)
    (sameTokens : next.tokens = Table.update db.tokens consumes
      (fun token => { token with active := false }))
    (sameState : next.state = db.state)
    (sameRoutes : ∀ route ∈ next.eventRoutes, route.active = true → route ∈ db.eventRoutes)
    (keeps : ∀ run, (write run).token = run.token)
    (together : ∀ run ∈ db.nodeRuns, ∀ token ∈ db.tokens, token.id = run.token →
      token.active = (!run.state.terminal) →
      (if consumes token = true then false else token.active) =
        !(if reopens run = true then write run else run).state.terminal) : Paired next := by
  have consumed : ∀ token : Token, (if consumes token = true then
      { token with active := false } else token).id = token.id ∧
      (if consumes token = true then { token with active := false } else token).active =
        if consumes token = true then false else token.active := by
    intro token
    split <;> exact ⟨rfl, rfl⟩
  have written : ∀ run : NodeRun,
      (if reopens run = true then write run else run).token = run.token := by
    intro run
    split
    · exact keeps run
    · rfl
  refine ⟨?_, ?_, fun ended => ⟨?_, ?_⟩⟩
  · intro run runMember token tokenMember same
    rw [sameRuns] at runMember
    rw [sameTokens] at tokenMember
    obtain ⟨oldRun, oldRunMember, rfl⟩ := Table.mem_update.mp runMember
    obtain ⟨oldToken, oldTokenMember, rfl⟩ := Table.mem_update.mp tokenMember
    rw [(consumed oldToken).1, written oldRun] at same
    rw [(consumed oldToken).2]
    exact together oldRun oldRunMember oldToken oldTokenMember same
      (paired.mirrored oldRun oldRunMember oldToken oldTokenMember same)
  · intro token tokenMember active
    rw [sameTokens] at tokenMember
    obtain ⟨oldToken, oldTokenMember, rfl⟩ := Table.mem_update.mp tokenMember
    rw [(consumed oldToken).2] at active
    have wasActive : oldToken.active = true := by
      split at active
      · contradiction
      · exact active
    obtain ⟨run, runMember, same⟩ := paired.manned oldToken oldTokenMember wasActive
    rw [(consumed oldToken).1, sameRuns]
    exact ⟨_, Table.mem_update_of_mem _ _ runMember, (written run).trans same⟩
  · intro token tokenMember
    rw [sameTokens] at tokenMember
    obtain ⟨oldToken, oldTokenMember, rfl⟩ := Table.mem_update.mp tokenMember
    rw [(consumed oldToken).2]
    split
    · rfl
    · exact (paired.quiet (sameState ▸ ended)).1 oldToken oldTokenMember
  · intro route routeMember
    cases active : route.active with
    | false => rfl
    | true =>
        have inactive := (paired.quiet (sameState ▸ ended)).2 route (sameRoutes route routeMember active)
        rw [active] at inactive
        contradiction

theorem finish (paired : Paired db) (keyed : Keyed wf db) {own : NodeRun} {state : NodeRunState}
    (outcome : String) (known : ∃ run ∈ db.nodeRuns, run.id = own.id ∧ run.token = own.token)
    (terminal : state.terminal = true) : Paired (db.finishNodeRun own state outcome) := by
  obtain ⟨row, rowMember, sameID, sameToken⟩ := known
  refine paired.rewrite rfl rfl rfl (fun _ member _ => member) (fun _ => rfl) ?_
  intro run runMember token tokenMember owns mirrors
  by_cases isOwn : run.id = own.id
  · have isRow := keyed.run_eq runMember rowMember (isOwn.trans sameID.symm)
    have isToken : token.id = own.token := by rw [owns, isRow, sameToken]
    simp only [isOwn, isToken, decide_true, Bool.true_and, if_true, terminal, Bool.not_true]
    cases active : token.active <;> simp
  · have notToken : ¬ token.id = own.token := by
      intro isToken
      have sameOwner := keyed.owner_eq runMember rowMember (owns.symm.trans (isToken.trans sameToken.symm))
      exact isOwn (sameOwner ▸ sameID)
    simpa [isOwn, notToken] using mirrors

theorem reopen (paired : Paired db) {reopens : NodeRun → Bool} {write : NodeRun → NodeRun}
    (sameRuns : next.nodeRuns = Table.update db.nodeRuns reopens write)
    (sameTokens : next.tokens = db.tokens) (sameState : next.state = db.state)
    (sameRoutes : next.eventRoutes = db.eventRoutes) (keeps : ∀ run, (write run).token = run.token)
    (open_ : ∀ run ∈ db.nodeRuns, reopens run = true →
      run.state.terminal = false ∧ (write run).state.terminal = false) : Paired next := by
  refine paired.rewrite sameRuns (sameTokens.trans (Table.update_false).symm) sameState
    (fun route member _ => sameRoutes ▸ member) keeps ?_
  intro run runMember token _ _ mirrors
  by_cases hit : reopens run = true
  · obtain ⟨wasOpen, isOpen⟩ := open_ run runMember hit
    simp [hit, isOpen, mirrors, wasOpen]
  · simpa [hit] using mirrors

theorem cancelTogether (paired : Paired db) (keyed : Keyed wf db) (chosen : NodeRun → Bool)
    (selected : Token → Bool)
    (sameRuns : next.nodeRuns = Table.update db.nodeRuns
      (fun run => ((db.nodeRuns.filter fun run => !run.state.terminal && chosen run).map
        NodeRun.id).contains run.id) (fun run => { run with state := .cancelled }))
    (sameTokens : next.tokens = Table.update db.tokens (fun token => token.active && selected token)
      (fun token => { token with active := false }))
    (sameState : next.state = db.state)
    (sameRoutes : ∀ route ∈ next.eventRoutes, route.active = true → route ∈ db.eventRoutes)
    (agree : ∀ run ∈ db.nodeRuns, ∀ token ∈ db.tokens, token.id = run.token →
      run.state.terminal = false → chosen run = selected token) : Paired next := by
  refine paired.rewrite sameRuns sameTokens sameState sameRoutes (fun _ => rfl) ?_
  intro run runMember token tokenMember owns mirrors
  rw [Table.contains_filter_keys keyed.runIDs runMember, mirrors]
  cases terminal : run.state.terminal with
  | true => simp [terminal]
  | false =>
      rw [agree run runMember token tokenMember owns terminal]
      cases selected token with
      | false => simp [terminal]
      | true => rfl

theorem losing_iff (keyed : Keyed wf db) {group keep : Nat} {run : NodeRun} {token : Token}
    (member : token ∈ db.tokens) (owns : token.id = run.token) :
    (db.tokens.any fun other => other.id = run.token && db.losing group keep other) =
      db.losing group keep token := by
  rw [Bool.eq_iff_iff, List.any_eq_true]
  constructor
  · rintro ⟨other, otherMember, hit⟩
    simp only [Bool.and_eq_true, decide_eq_true_eq] at hit
    rw [← keyed.token_eq otherMember member (hit.1.trans owns.symm)]
    exact hit.2
  · intro losing
    exact ⟨token, member, by simp [owns, losing]⟩

theorem reapGroupBranches (paired : Paired db) (keyed : Keyed wf db) (group keep : Nat) :
    Paired (db.reapGroupBranches group keep) :=
  paired.cancelTogether keyed _ _ rfl rfl rfl (fun _ member _ => member)
    fun _ _ _ tokenMember owns _ => losing_iff keyed tokenMember owns

theorem reapRunState (paired : Paired db) (keyed : Keyed wf db) {keep : Nat}
    (kept : ∀ run ∈ db.nodeRuns, run.id = keep → run.state.terminal = true) :
    Paired (db.reapRunState keep) := by
  refine paired.cancelTogether keyed (fun run => run.id ≠ keep) (fun _ => true)
    rfl (by simp only [Bool.and_true]; rfl) rfl ?_ ?_
  · intro route member active
    obtain ⟨old, oldMember, rfl⟩ := Table.mem_update.mp member
    split at active
    · contradiction
    · rename_i inactive
      rw [if_neg inactive]
      exact oldMember
  · intro run runMember _ _ _ isOpen
    have notKept : run.id ≠ keep := by
      intro isKept
      rw [kept run runMember isKept] at isOpen
      contradiction
    simpa using notKept

end Paired
end CultureNodes.Engine
