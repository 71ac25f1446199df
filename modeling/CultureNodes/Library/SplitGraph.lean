import Mathlib.Data.Finset.Card
import Mathlib.Data.Finset.Range
import Mathlib.Data.List.Basic
import Mathlib.Algebra.Order.Ring.Int

/-!
Graphs whose hops open or close a nesting level. A walk enters nodes at a depth; it stops where a
final node is entered with a level still open, and where a closing node is entered with none open.
The results compare the walk that keeps every depth with the one that drops depths above a cap.
-/

namespace CultureNodes

structure SplitGraph (ν : Type) where
  roots : List ν
  hops : ν → List (ν × Int)
  opens : ν → Bool
  closes : ν → Bool
  final : ν → Bool
  hop_delta : ∀ v w δ, (w, δ) ∈ hops v →
    δ = 0 ∨ (δ = 1 ∧ opens v = true) ∨ (δ = -1 ∧ closes v = true)

namespace SplitGraph

variable {ν : Type} (G : SplitGraph ν)

/-- A final node with an open level, or a closing node with none. -/
def violates (v : ν) (d : Int) : Bool :=
  (G.final v && decide (0 < d)) || (G.closes v && decide (d = 0))

/-- The walk that admits depths from zero up to `cap`, or every depth from zero on without one. -/
def admits (cap : Option Int) (d : Int) : Prop :=
  0 ≤ d ∧ ∀ bound ∈ cap, d ≤ bound

/-- The walk enters `v` at depth `d` after `n` hops. A violating state is not left. -/
inductive Enters (cap : Option Int) : Nat → ν → Int → Prop where
  | root {v : ν} : v ∈ G.roots → Enters cap 0 v 0
  | hop {n : Nat} {v w : ν} {d δ : Int} : Enters cap n v d → G.violates v d = false →
      (w, δ) ∈ G.hops v → admits cap (d + δ) → Enters cap (n + 1) w (d + δ)

/-- A walk from one entered state to another, read from its first hop. -/
inductive Leads : Nat → ν → Int → ν → Int → Prop where
  | here {v : ν} {d : Int} : Leads 0 v d v d
  | hop {n : Nat} {v w x : ν} {d e δ : Int} : G.violates v d = false → (w, δ) ∈ G.hops v →
      0 ≤ d + δ → Leads n w (d + δ) x e → Leads (n + 1) v d x e

/-- A path of hops with its total delta, whatever the depth it is taken at. -/
inductive Route : ν → ν → Int → Prop where
  | here {v : ν} : Route v v 0
  | hop {v w x : ν} {δ ε : Int} : (w, δ) ∈ G.hops v → Route w x ε → Route v x (δ + ε)

def Sees (cap : Option Int) : Prop :=
  ∃ n v d, G.Enters cap n v d ∧ G.violates v d = true

variable {G}

theorem hop_delta_le {v w : ν} {δ : Int} (hop : (w, δ) ∈ G.hops v) : δ ≤ 1 := by
  rcases G.hop_delta v w δ hop with rfl | ⟨rfl, _⟩ | ⟨rfl, _⟩ <;> omega

theorem hop_opens {v w : ν} {δ : Int} (hop : (w, δ) ∈ G.hops v) (rises : 0 < δ) :
    δ = 1 ∧ G.opens v = true := by
  rcases G.hop_delta v w δ hop with rfl | opened | ⟨rfl, _⟩
  · omega
  · exact opened
  · omega

/-- A hop out of a state the walk leaves never goes below depth zero: only a closing node lowers
the depth, and a closing node at depth zero is a violation. -/
theorem hop_depth_nonneg {v w : ν} {d δ : Int} (hop : (w, δ) ∈ G.hops v)
    (lawful : G.violates v d = false) (nonneg : 0 ≤ d) : 0 ≤ d + δ := by
  rcases G.hop_delta v w δ hop with rfl | ⟨rfl, _⟩ | ⟨rfl, closed⟩
  · omega
  · omega
  · have positive : d ≠ 0 := by
      intro zero
      simp [violates, closed, zero] at lawful
    omega

theorem Enters.nonneg {cap : Option Int} {n : Nat} {v : ν} {d : Int}
    (entered : G.Enters cap n v d) : 0 ≤ d := by
  cases entered with
  | root _ => exact Int.le_refl 0
  | hop _ _ _ admitted => exact admitted.1

theorem Enters.le_cap {bound : Int} {n : Nat} {v : ν} {d : Int} (boundNonneg : 0 ≤ bound)
    (entered : G.Enters (some bound) n v d) : d ≤ bound := by
  cases entered with
  | root _ => exact boundNonneg
  | hop _ _ _ admitted => exact admitted.2 bound rfl

theorem Enters.uncapped {cap : Option Int} {n : Nat} {v : ν} {d : Int}
    (entered : G.Enters cap n v d) : G.Enters none n v d := by
  induction entered with
  | root member => exact .root member
  | hop _ lawful hop admitted ih => exact .hop ih lawful hop ⟨admitted.1, by simp⟩

theorem Sees.uncapped {cap : Option Int} (seen : G.Sees cap) : G.Sees none := by
  obtain ⟨n, v, d, entered, violated⟩ := seen
  exact ⟨n, v, d, entered.uncapped, violated⟩

theorem Leads.snoc {n : Nat} {u v w : ν} {c d δ : Int} (leads : G.Leads n u c v d)
    (lawful : G.violates v d = false) (hop : (w, δ) ∈ G.hops v) (nonneg : 0 ≤ d + δ) :
    G.Leads (n + 1) u c w (d + δ) := by
  induction leads with
  | here => exact .hop lawful hop nonneg .here
  | hop firstLawful firstHop firstNonneg _ ih =>
      exact .hop firstLawful firstHop firstNonneg (ih lawful hop nonneg)

theorem Leads.trans {m n : Nat} {u v w : ν} {c d e : Int} (first : G.Leads m u c v d)
    (second : G.Leads n v d w e) : G.Leads (m + n) u c w e := by
  induction first with
  | here => simpa using second
  | @hop m _ _ _ _ _ _ lawful hop nonneg _ ih =>
      have shifted : m + 1 + n = (m + n) + 1 := by omega
      rw [shifted]
      exact .hop lawful hop nonneg (ih second)

theorem Leads.route {n : Nat} {v x : ν} {d e : Int} (leads : G.Leads n v d x e) :
    G.Route v x (e - d) := by
  induction leads with
  | here => rw [Int.sub_self]; exact .here
  | @hop n v w x d e δ _ hop _ _ ih =>
      have total : e - d = δ + (e - (d + δ)) := by omega
      rw [total]
      exact .hop hop ih

/-- An uncapped walk either stays within the cap throughout or stands at the cap at some point, with
a prefix that never exceeded it. -/
theorem Enters.within_or_reaches_cap (bound : Int) (boundNonneg : 0 ≤ bound) {n : Nat} {v : ν}
    {d : Int} (entered : G.Enters none n v d) :
    G.Enters (some bound) n v d ∨
      ∃ a b u, a + b = n ∧ G.Enters (some bound) a u bound ∧ G.Leads b u bound v d := by
  induction entered with
  | root member => exact Or.inl (.root member)
  | @hop n v w d δ _ lawful hop admitted ih =>
      rcases ih with within | ⟨a, b, u, count, atCap, leads⟩
      · by_cases fits : d + δ ≤ bound
        · exact Or.inl (.hop within lawful hop ⟨admitted.1, by simpa using fits⟩)
        · have atBound : d = bound := by
            have below := within.le_cap boundNonneg
            have small := hop_delta_le hop
            omega
          subst atBound
          exact Or.inr ⟨n, 1, v, rfl, within, .hop lawful hop admitted.1 .here⟩
      · exact Or.inr ⟨a, b + 1, u, by omega, atCap, leads.snoc lawful hop admitted.1⟩

/-- One rung for every open level of a state: the opening node that the level was last opened from,
entered at that level within the cap, and the number of hops it was entered after. -/
def Rungs (G : SplitGraph ν) (bound : Int) (n : Nat) (v : ν) (d : Int) (rung : Nat → Nat × ν) :
    Prop :=
  (∀ k : Nat, (k : Int) < d → G.opens (rung k).2 = true ∧ (rung k).1 < n ∧
      G.Enters (some bound) (rung k).1 (rung k).2 k ∧ ∃ m, G.Leads m (rung k).2 k v d ∧
        (rung k).1 + m = n) ∧
    ∀ k l : Nat, k < l → (l : Int) < d → (rung k).1 < (rung l).1

/-- A hop that opens nothing keeps the rungs of the levels that stay open. -/
theorem Rungs.keep {bound : Int} {n : Nat} {v w : ν} {d δ : Int} {rung : Nat → Nat × ν}
    (rungs : G.Rungs bound n v d rung) (lawful : G.violates v d = false)
    (hop : (w, δ) ∈ G.hops v) (nonneg : 0 ≤ d + δ) (flat : δ ≤ 0) :
    G.Rungs bound (n + 1) w (d + δ) rung := by
  refine ⟨fun k below => ?_, fun k l before below => rungs.2 k l before (by omega)⟩
  obtain ⟨opened, earlier, entered, m, leads, count⟩ := rungs.1 k (by omega)
  exact ⟨opened, by omega, entered, m + 1, leads.snoc lawful hop nonneg, by omega⟩

/-- A hop that opens a level adds the node it leaves as the new rung. -/
theorem Rungs.climb {bound : Int} {n : Nat} {v w : ν} {d : Int} {rung : Nat → Nat × ν}
    (rungs : G.Rungs bound n v d rung) (entered : G.Enters (some bound) n v d)
    (lawful : G.violates v d = false) (hop : (w, 1) ∈ G.hops v) :
    G.Rungs bound (n + 1) w (d + 1) (fun k => if (k : Int) = d then (n, v) else rung k) := by
  have nonneg := entered.nonneg
  constructor
  · intro k below
    by_cases top : (k : Int) = d
    · subst top
      simp only [if_true]
      exact ⟨(hop_opens hop (by omega)).2, by omega, entered, 1,
        .hop lawful hop (by omega) .here, rfl⟩
    · simp only [top, if_false]
      obtain ⟨opened, earlier, enteredBelow, m, leads, count⟩ := rungs.1 k (by omega)
      exact ⟨opened, by omega, enteredBelow, m + 1, leads.snoc lawful hop (by omega), by omega⟩
  · intro k l before below
    have lower : (k : Int) ≠ d := by omega
    simp only [lower, if_false]
    by_cases top : (l : Int) = d
    · simp only [top, if_true]
      exact (rungs.1 k (by omega)).2.1
    · simp only [top, if_false]
      exact rungs.2 k l before (by omega)

theorem Enters.rungs {bound : Int} {n : Nat} {v : ν} {d : Int}
    (entered : G.Enters (some bound) n v d) : ∃ rung, G.Rungs bound n v d rung := by
  induction entered with
  | @root v _ =>
      exact ⟨fun _ => (0, v), fun k below => by omega, fun k l _ below => by omega⟩
  | @hop n v w d δ reached lawful hop admitted ih =>
      obtain ⟨rung, rungs⟩ := ih
      by_cases flat : δ ≤ 0
      · exact ⟨rung, rungs.keep lawful hop admitted.1 flat⟩
      · obtain ⟨rfl, _⟩ := hop_opens hop (by omega)
        exact ⟨_, rungs.climb reached lawful hop⟩

/-- A state with more open levels than there are opening nodes has passed one opening node at two
depths, both within the cap. -/
theorem Enters.repeats_opener [DecidableEq ν] {openers : List ν} {bound : Int} {n : Nat} {u : ν}
    {d : Int} (complete : ∀ v, G.opens v = true → v ∈ openers) (deep : (openers.length : Int) < d)
    (entered : G.Enters (some bound) n u d) :
    ∃ v i j a b m, i < j ∧ a < b ∧ b + m = n ∧ G.Enters (some bound) a v i ∧
      G.Enters (some bound) b v j ∧ G.Leads m v j u d := by
  obtain ⟨rung, rungs, increasing⟩ := entered.rungs
  have collide : ∃ k ∈ Finset.range d.toNat, ∃ l ∈ Finset.range d.toNat, k ≠ l ∧
      (rung k).2 = (rung l).2 := by
    apply Finset.exists_ne_map_eq_of_card_lt_of_maps_to (t := openers.toFinset)
    · have distinct := openers.toFinset_card_le
      simp only [Finset.card_range]
      omega
    · intro k member
      have below : k < d.toNat := by simpa using member
      exact List.mem_toFinset.mpr (complete _ (rungs k (by omega)).1)
  obtain ⟨k, kMember, l, lMember, different, same⟩ := collide
  rw [Finset.mem_range] at kMember lMember
  wlog ordered : k < l generalizing k l
  · exact this l lMember k kMember (Ne.symm different) same.symm (by omega)
  obtain ⟨_, _, lowEntered, _⟩ := rungs k (by omega)
  obtain ⟨_, _, highEntered, m, leads, count⟩ := rungs l (by omega)
  rw [← same] at highEntered leads
  exact ⟨(rung k).2, k, l, (rung k).1, (rung l).1, m, by omega, increasing k l ordered (by omega),
    count, lowEntered, highEntered, leads⟩

/-- A walk replayed from a lower depth cannot reach a closing node at depth zero without first
entering some closing node at depth zero itself. -/
theorem Leads.lowered_hits_closer {m : Nat} {v x : ν} {j e : Int} (leads : G.Leads m v j x e)
    (ground : e = 0) : ∀ {a : Nat} {i : Int}, G.Enters none a v i → i < j →
      ∃ c w, c ≤ a + m ∧ G.Enters none c w 0 ∧ G.closes w = true := by
  induction leads with
  | here =>
      intro a i entered lower
      have nonneg := entered.nonneg
      omega
  | @hop m v w x j e δ lawful hop _ _ ih =>
      intro a i entered lower
      have nonneg := entered.nonneg
      by_cases atCloser : G.closes v = true ∧ i = 0
      · obtain ⟨closed, rfl⟩ := atCloser
        exact ⟨a, v, by omega, entered, closed⟩
      · have lowLawful : G.violates v i = false := by
          simp only [violates, Bool.or_eq_false_iff, Bool.and_eq_false_iff,
            decide_eq_false_iff_not] at lawful ⊢
          refine ⟨?_, ?_⟩
          · rcases lawful.1 with notFinal | shallow
            · exact Or.inl notFinal
            · exact Or.inr (by omega)
          · by_cases closed : G.closes v = true
            · exact Or.inr fun zero => atCloser ⟨closed, zero⟩
            · exact Or.inl (by simpa using closed)
        have nextNonneg := hop_depth_nonneg hop lowLawful nonneg
        obtain ⟨c, u, count, found, closed⟩ :=
          ih ground (.hop entered lowLawful hop ⟨nextNonneg, by simp⟩) (by omega)
        exact ⟨c, u, by omega, found, closed⟩

/-- The cap never hides a closing node at depth zero. The induction is on the length of the walk: a
walk that reaches the cap has passed one opening node twice, and cutting out the part between the
two passes leaves a shorter walk to a closing node at depth zero. -/
theorem closer_at_zero_within_cap [DecidableEq ν] {openers : List ν} {bound : Int}
    (complete : ∀ v, G.opens v = true → v ∈ openers) (deep : (openers.length : Int) < bound) :
    ∀ (n : Nat) (v : ν), G.Enters none n v 0 → G.closes v = true → G.Sees (some bound) := by
  intro n
  induction n using Nat.strong_induction_on with
  | _ n ih =>
      intro v entered closed
      rcases entered.within_or_reaches_cap bound (by omega) with
        within | ⟨a, b, u, count, atCap, leads⟩
      · exact ⟨n, v, 0, within, by simp [violates, closed]⟩
      · obtain ⟨p, i, j, first, second, m, lower, earlier, steps, enteredLow, _, climbs⟩ :=
          atCap.repeats_opener complete deep
        obtain ⟨c, w, shorter, found, closedThere⟩ :=
          (climbs.trans leads).lowered_hits_closer rfl enteredLow.uncapped lower
        exact ih c (by omega) w found closedThere

/-- Following one route from one entered state: either a violation is entered on the way, or the
route's end is entered at the depth the route's delta says. -/
theorem Route.follow {v x : ν} {ε : Int} (route : G.Route v x ε) :
    ∀ {n : Nat} {d : Int}, G.Enters none n v d →
      G.Sees none ∨ ∃ m, G.Enters none m x (d + ε) := by
  induction route with
  | here =>
      intro n d entered
      exact Or.inr ⟨n, by simpa using entered⟩
  | @hop v w x δ ε hop _ ih =>
      intro n d entered
      cases violated : G.violates v d with
      | true => exact Or.inl ⟨n, v, d, entered, violated⟩
      | false =>
          have nonneg := hop_depth_nonneg hop violated entered.nonneg
          rw [← Int.add_assoc]
          exact ih (.hop entered violated hop ⟨nonneg, by simp⟩)

/-- `v` leads to a final node along some path of hops. -/
def LeadsToFinal (G : SplitGraph ν) (v : ν) : Prop :=
  ∃ x ε, G.Route v x ε ∧ G.final x = true

/-- Entering a node that leads to a final node at two depths always ends in a violation: the final
node is entered at two depths as well, and only one of them can be zero. -/
theorem sees_of_two_depths {v : ν} {m n : Nat} {d e : Int} (leads : G.LeadsToFinal v)
    (low : G.Enters none m v d) (high : G.Enters none n v e) (different : d ≠ e) :
    G.Sees none := by
  obtain ⟨x, ε, route, isFinal⟩ := leads
  rcases route.follow low with seen | ⟨_, lowEnd⟩
  · exact seen
  rcases route.follow high with seen | ⟨_, highEnd⟩
  · exact seen
  have lowNonneg := lowEnd.nonneg
  have highNonneg := highEnd.nonneg
  by_cases positive : 0 < d + ε
  · exact ⟨_, x, d + ε, lowEnd, by simp [violates, isFinal, positive]⟩
  · exact ⟨_, x, e + ε, highEnd, by
      have : 0 < e + ε := by omega
      simp [violates, isFinal, this]⟩

/-- When the capped walk sees what the uncapped walk sees: exactly when no node that leads to a
final node is entered at two depths within the cap, unless some violation lies within the cap. -/
theorem cap_exact_iff [DecidableEq ν] {openers : List ν} {bound : Int}
    (complete : ∀ v, G.opens v = true → v ∈ openers) (deep : (openers.length : Int) < bound) :
    (G.Sees none → G.Sees (some bound)) ↔
      (∀ v m n d e, G.LeadsToFinal v → G.Enters (some bound) m v d →
        G.Enters (some bound) n v e → d = e) ∨ G.Sees (some bound) := by
  constructor
  · intro exact_
    by_cases seen : G.Sees (some bound)
    · exact Or.inr seen
    · refine Or.inl fun v m n d e leads low high => ?_
      by_contra different
      exact seen (exact_ (sees_of_two_depths leads low.uncapped high.uncapped different))
  · rintro (single | seen) uncapped
    · obtain ⟨n, x, e, entered, violated⟩ := uncapped
      rcases entered.within_or_reaches_cap bound (by omega) with
        within | ⟨a, b, u, _, atCap, leads⟩
      · exact ⟨n, x, e, within, violated⟩
      · obtain ⟨v, i, j, _, _, m, lower, _, _, enteredLow, enteredHigh, climbs⟩ :=
          atCap.repeats_opener complete deep
        simp only [violates, Bool.or_eq_true, Bool.and_eq_true, decide_eq_true_eq] at violated
        rcases violated with ⟨isFinal, _⟩ | ⟨closed, rfl⟩
        · have same := single v _ _ i j ⟨x, _, (climbs.trans leads).route, isFinal⟩ enteredLow
            enteredHigh
          omega
        · exact closer_at_zero_within_cap complete deep n x entered closed
    · exact seen

end SplitGraph
end CultureNodes
