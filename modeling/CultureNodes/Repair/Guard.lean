import CultureNodes.Library.Paths
import CultureNodes.Repair.Route

/-!
Which spellings of a path the guard of the repair route sees. A path is read here as its segments; the guard
works on the text, and finds a guarded directory exactly where the segments begin with it, after the "." ones.
-/

namespace CultureNodes.Repair

open Paths

def slashed (path : String) : List Char :=
  path.toList.map fun letter => if letter = '\\' then '/' else letter

def segments (path : String) : List (List Char) :=
  (slashed path).splitOn '/'

/-- One segment of a path against the names above it, the last first: ".." goes up a name where there is one. -/
def resolve (above : List (List Char)) (segment : List Char) : List (List Char) :=
  if segment = [] ∨ segment = ['.'] then above
  else if segment = ['.', '.'] then
    match above with
    | [] => [segment]
    | last :: rest => if last = ['.', '.'] then segment :: above else rest
  else segment :: above

/-- The lexical cleaning of a path, as the names on the way down. -/
def clean (path : String) : List (List Char) :=
  ((segments path).foldl resolve []).reverse

def guardedDirectories : List (List (List Char)) :=
  guardedPathPrefixes.map fun boundary => boundary.toList.dropLast.splitOn '/'

/-- The cleaned path is a guarded directory or lies inside one. -/
def Inside (names : List (List Char)) : Prop :=
  ∃ directory ∈ guardedDirectories, directory <+: names

/-- A guarded directory comes right after the leading "." segments. -/
def Plain (tokens : List (List Char)) : Prop :=
  ∃ count, ∃ directory ∈ guardedDirectories, List.replicate count ['.'] ++ directory <+: tokens

/-- No segment goes up, and after the leading "." ones comes a name. -/
def Direct (tokens : List (List Char)) : Prop :=
  ['.', '.'] ∉ tokens ∧ (tokens.dropWhile (· = ['.'])).head? ≠ some []

theorem guardedDirectories_eq : guardedDirectories = [[".github".toList]] := by
  decide

theorem isPrefix_splitOn_iff {tokens : List (List Char)} {text : List Char} (plain : ∀ token ∈ tokens, '/' ∉ token) :
    tokens <+: text.splitOn '/' ↔ ∃ rest, Boundary '/' rest ∧ '/' :: text = join '/' tokens ++ rest := by
  constructor
  · rintro ⟨more, split⟩
    refine ⟨join '/' more, boundary_join more, ?_⟩
    rw [← join_append, split, join_splitOn]
  · rintro ⟨rest, ends, same⟩
    exact isPrefix_of_join plain (fun _ held => not_mem_of_mem_splitOn held) ends (by rw [join_splitOn, same])

/-- The guard's test of a boundary, on segments. -/
theorem under_iff (candidate directory : List Char) :
    under candidate (directory ++ ['/']) = true ↔ directory.splitOn '/' <+: candidate.splitOn '/' := by
  have found := @join_eq_or_isPrefix_iff Char '/' (directory.splitOn '/') (candidate.splitOn '/')
    (fun _ held => not_mem_of_mem_splitOn held) (fun _ held => not_mem_of_mem_splitOn held)
  rw [join_splitOn, join_splitOn] at found
  simpa [under] using found

theorem splitOn_dot_slash (rest : List Char) :
    ('.' :: '/' :: rest).splitOn '/' = ['.'] :: rest.splitOn '/' := by
  simp [List.splitOn_cons_eq_if_modifyHead]

/-- Only a text that begins with "./" has "." for a first segment and another after it. -/
theorem eq_of_splitOn_eq {text next : List Char} {more : List (List Char)}
    (split : text.splitOn '/' = ['.'] :: next :: more) : ∃ rest, text = '.' :: '/' :: rest := by
  have joined : join '/' (text.splitOn '/') = '/' :: text := join_splitOn text
  rw [split] at joined
  simp only [join, List.cons_append, List.nil_append, List.cons.injEq, true_and] at joined
  exact ⟨_, joined.symm⟩

/-- Taking every "./" off the front takes every "." segment off that has another after it. -/
theorem isPrefix_dropCurrent_iff {first : List Char} {directory : List (List Char)} (named : first ≠ ['.'])
    (text : List Char) :
    first :: directory <+: (dropCurrent text).splitOn '/' ↔
      ∃ count, List.replicate count ['.'] ++ first :: directory <+: text.splitOn '/' := by
  fun_induction dropCurrent text with
  | case1 rest ih =>
      rw [ih, splitOn_dot_slash]
      constructor
      · rintro ⟨count, below⟩
        exact ⟨count + 1, List.cons_prefix_cons.mpr ⟨rfl, below⟩⟩
      · rintro ⟨count, below⟩
        cases count with
        | zero => exact absurd (List.cons_prefix_cons.mp below).1 named
        | succ count => exact ⟨count, (List.cons_prefix_cons.mp below).2⟩
  | case2 text bare =>
      constructor
      · exact fun below => ⟨0, below⟩
      · rintro ⟨count, below⟩
        cases count with
        | zero => exact below
        | succ count =>
            -- A "." before the directory would be a "./" at the front, and none is left.
            obtain ⟨more, split⟩ := below
            rw [List.replicate_succ, List.cons_append, List.cons_append] at split
            cases later : List.replicate count ['.'] ++ first :: directory ++ more with
            | nil => simp at later
            | cons next others =>
                obtain ⟨rest, rfl⟩ := eq_of_splitOn_eq (split.symm.trans (by rw [later]))
                exact absurd rfl (bare rest)

/-- The test that the guard makes of a path. -/
def hit (candidate : List Char) : Bool :=
  guardedPathPrefixes.any fun boundary => under candidate boundary.toList

theorem hit_normalize_iff (path : String) :
    hit (normalize path) = true ↔ Plain ((trimSpace (slashed path)).splitOn '/') := by
  have test : hit (normalize path) = under (normalize path) (".github".toList ++ ['/']) := by
    simp [hit, guardedPathPrefixes]
  have alone : (".github".toList).splitOn '/' = [".github".toList] := by decide
  rw [test, under_iff, alone, normalize, isPrefix_dropCurrent_iff (by decide)]
  simp only [Plain, guardedDirectories_eq, List.mem_singleton, exists_eq_left]
  rfl

theorem not_hit_nil : hit [] = false := by
  decide

/-- One path more for the guard. -/
def meet (hits : List String) (path : String) : List String :=
  if normalize path = [] || hits.contains (String.ofList (normalize path)) then hits
  else if hit (normalize path) then hits ++ [String.ofList (normalize path)]
  else hits

theorem guarded_eq (paths : List String) : guarded paths = paths.foldl meet [] :=
  rfl

theorem meet_ne_nil_iff (hits : List String) (path : String) :
    meet hits path ≠ [] ↔ hits ≠ [] ∨ hit (normalize path) = true := by
  unfold meet
  by_cases empty : normalize path = []
  · simp [empty, not_hit_nil]
  · by_cases seen : hits.contains (String.ofList (normalize path)) = true
    · have some_ : hits ≠ [] := by
        rintro rfl
        exact absurd seen (by simp)
      simp only [empty, seen, decide_false, Bool.or_true, if_true]
      exact ⟨Or.inl, fun _ => some_⟩
    · rw [Bool.not_eq_true] at seen
      simp only [empty, seen, decide_false, Bool.or_self, Bool.false_eq_true, if_false]
      by_cases found : hit (normalize path) = true <;> simp [found]

theorem foldl_meet_ne_nil_iff (paths hits : List String) :
    paths.foldl meet hits ≠ [] ↔ hits ≠ [] ∨ ∃ path ∈ paths, hit (normalize path) = true := by
  induction paths generalizing hits with
  | nil => simp
  | cons path rest ih => rw [List.foldl_cons, ih, meet_ne_nil_iff]; simp [or_assoc]

theorem guarded_ne_nil_iff (paths : List String) :
    guarded paths ≠ [] ↔ ∃ path ∈ paths, Plain ((trimSpace (slashed path)).splitOn '/') := by
  rw [guarded_eq, foldl_meet_ne_nil_iff]
  simp only [hit_normalize_iff, ne_eq, not_true_eq_false, false_or]

/-- Where no segment goes up, cleaning only leaves out. -/
theorem foldl_resolve {tokens : List (List Char)} (level : ['.', '.'] ∉ tokens) (above : List (List Char)) :
    (tokens.foldl resolve above).reverse =
      above.reverse ++ tokens.filter fun token => token ≠ [] ∧ token ≠ ['.'] := by
  induction tokens generalizing above with
  | nil => simp
  | cons token rest ih =>
      have notUp : token ≠ ['.', '.'] := fun same => level (by rw [same]; exact List.mem_cons_self)
      have restLevel : ['.', '.'] ∉ rest := fun held => level (List.mem_cons_of_mem _ held)
      rw [List.foldl_cons, ih restLevel]
      by_cases left : token = [] ∨ token = ['.']
      · obtain rfl | rfl := left <;> simp [resolve]
      · obtain ⟨notEmpty, notDot⟩ := not_or.mp left
        simp [resolve, notEmpty, notDot, notUp]

theorem exists_replicate_of_filter {tokens : List (List Char)} {first : List Char}
    (named : (tokens.dropWhile (· = ['.'])).head? ≠ some [])
    (kept : [first] <+: tokens.filter fun token => token ≠ [] ∧ token ≠ ['.']) :
    ∃ count, List.replicate count ['.'] ++ [first] <+: tokens := by
  induction tokens with
  | nil => simp at kept
  | cons token rest ih =>
      by_cases dot : token = ['.']
      · subst dot
        obtain ⟨count, below⟩ := ih (by simpa using named) (by simpa using kept)
        exact ⟨count + 1, List.cons_prefix_cons.mpr ⟨rfl, below⟩⟩
      · have notEmpty : token ≠ [] := by simpa [dot] using named
        have same : first = token := by
          rw [List.filter_cons_of_pos (by simp [dot, notEmpty])] at kept
          exact (List.cons_prefix_cons.mp kept).1
        exact ⟨0, by simp [same]⟩

theorem plain_of_inside {path : String} (direct : Direct (segments path)) (inside : Inside (clean path)) :
    Plain (segments path) := by
  obtain ⟨level, named⟩ := direct
  simp only [Inside, guardedDirectories_eq, List.mem_singleton, exists_eq_left, clean, foldl_resolve level,
    List.reverse_nil, List.nil_append] at inside
  obtain ⟨count, below⟩ := exists_replicate_of_filter named inside
  exact ⟨count, _, by rw [guardedDirectories_eq]; exact List.mem_singleton_self _, below⟩

def trimEnd (text : List Char) : List Char :=
  (text.reverse.dropWhile isSpace).reverse

theorem boundary_trimEnd {rest : List Char} (ends : Boundary '/' rest) : Boundary '/' (trimEnd rest) := by
  obtain rfl | ⟨more, rfl⟩ := ends
  · exact Or.inl rfl
  · refine Or.inr ⟨trimEnd more, ?_⟩
    have solid : isSpace '/' = false := by decide
    rw [trimEnd, List.reverse_cons, List.dropWhile_append]
    by_cases blank : (more.reverse.dropWhile isSpace).isEmpty = true
    · simp [solid, trimEnd, List.isEmpty_iff.mp blank]
    · simp [blank, trimEnd]

/-- Trimming leaves a start alone that has no white space at its ends. -/
theorem trimSpace_append {front : List Char} {first last : Char} (opens : front.head? = some first)
    (closes : front.getLast? = some last) (firstSolid : isSpace first = false) (lastSolid : isSpace last = false)
    (rest : List Char) : trimSpace (front ++ rest) = front ++ trimEnd rest := by
  obtain ⟨middle, rfl⟩ := List.getLast?_eq_some_iff.mp closes
  have startSolid : (middle ++ [last] ++ rest).dropWhile isSpace = middle ++ [last] ++ rest := by
    cases middle with
    | nil => simp [lastSolid]
    | cons char middle =>
        obtain rfl : char = first := by simpa using opens
        simp [firstSolid]
  have blankless : List.dropWhile isSpace (middle ++ [last]).reverse = (middle ++ [last]).reverse := by
    simp [lastSolid]
  rw [trimSpace, startSolid, List.reverse_append, List.dropWhile_append]
  by_cases blank : (rest.reverse.dropWhile isSpace).isEmpty = true
  · rw [if_pos blank, blankless, trimEnd, List.isEmpty_iff.mp blank]
    simp
  · rw [if_neg blank, List.reverse_append, List.reverse_reverse, trimEnd]

theorem exists_join_github (count : Nat) :
    ∃ front, join '/' (List.replicate count ['.'] ++ [".github".toList]) = '/' :: front ∧
      front.head? = some '.' ∧ front.getLast? = some 'b' := by
  induction count with
  | zero => exact ⟨".github".toList, by decide, by decide, by decide⟩
  | succ count ih =>
      obtain ⟨front, joined, -, closes⟩ := ih
      refine ⟨'.' :: '/' :: front, ?_, rfl, ?_⟩
      · rw [List.replicate_succ, List.cons_append, join, joined]
        rfl
      · rw [List.getLast?_cons_cons, List.getLast?_cons, closes]
        rfl

theorem plain_trimSpace {text : List Char} (plain : Plain (text.splitOn '/')) :
    Plain ((trimSpace text).splitOn '/') := by
  simp only [Plain, guardedDirectories_eq, List.mem_singleton, exists_eq_left] at plain ⊢
  obtain ⟨count, below⟩ := plain
  have separate : ∀ token ∈ List.replicate count ['.'] ++ [".github".toList], '/' ∉ token := by
    intro token held
    obtain held | held := List.mem_append.mp held
    · rw [List.eq_of_mem_replicate held]
      decide
    · rw [List.mem_singleton.mp held]
      decide
  obtain ⟨rest, ends, same⟩ := (isPrefix_splitOn_iff separate).mp below
  obtain ⟨front, joined, opens, closes⟩ := exists_join_github count
  rw [joined, List.cons_append, List.cons.injEq] at same
  refine ⟨count, (isPrefix_splitOn_iff separate).mpr ⟨trimEnd rest, boundary_trimEnd ends, ?_⟩⟩
  rw [joined, same.2, trimSpace_append opens closes (by decide) (by decide), List.cons_append]

/-- The guard finds something exactly where a path, trimmed, has a guarded directory right after its "."
segments; and no direct spelling of a path in a guarded directory escapes it. -/
theorem guarded_covers_direct (paths : List String) :
    (guarded paths ≠ [] ↔ ∃ path ∈ paths, Plain ((trimSpace (slashed path)).splitOn '/')) ∧
      ((∃ path ∈ paths, Direct (segments path) ∧ Inside (clean path)) → guarded paths ≠ []) := by
  refine ⟨guarded_ne_nil_iff paths, ?_⟩
  rintro ⟨path, held, direct, inside⟩
  rw [guarded_ne_nil_iff]
  exact ⟨path, held, plain_trimSpace (plain_of_inside direct inside)⟩

theorem guarded_covers_direct_dotted :
    Direct (segments ".\\./.github//./CODEOWNERS") ∧ Inside (clean ".\\./.github//./CODEOWNERS") ∧
      guarded ["src/main.go", ".\\./.github//./CODEOWNERS"] ≠ [] := by
  have direct : Direct (segments ".\\./.github//./CODEOWNERS") := by
    unfold Direct
    decide
  have inside : Inside (clean ".\\./.github//./CODEOWNERS") := by
    rw [Inside, guardedDirectories_eq]
    decide
  exact ⟨direct, inside, (guarded_covers_direct _).2 ⟨_, by simp, direct, inside⟩⟩

/-- Going up from another directory, an empty segment in front and an absolute spelling escape. -/
theorem guarded_misses_spellings :
    (Inside (clean "docs/../.github/workflows/ci.yml") ∧ guarded ["docs/../.github/workflows/ci.yml"] = []) ∧
      (Inside (clean ".//.github/workflows/ci.yml") ∧ guarded [".//.github/workflows/ci.yml"] = []) ∧
      Inside (clean "/.github/workflows/ci.yml") ∧ guarded ["/.github/workflows/ci.yml"] = [] := by
  simp only [Inside, guardedDirectories_eq]
  decide

end CultureNodes.Repair
