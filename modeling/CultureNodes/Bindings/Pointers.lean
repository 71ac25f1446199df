import CultureNodes.Bindings.Resolve
import CultureNodes.Ledger.Coverage

/-!
Pointers written and read back. The compiler writes a pointer by joining escaped tokens and reads one in a
single scan; the engine and the worker read one by two replacements over the whole token.
-/

namespace CultureNodes.Bindings

open Compiler (pointerJoin escapePointerToken)
open Ledger (toList_escape unescape_escape)

/-- The pointer that goes on from `base` along the tokens. -/
def pointerJoinAll (base : String) (tokens : List String) : String := tokens.foldl pointerJoin base

theorem toList_pointerJoinAll (base : String) (tokens : List String) :
    (pointerJoinAll base tokens).toList = base.toList ++ Paths.join '/' (Ledger.pointerTokens tokens) := by
  induction tokens generalizing base with
  | nil => simp [pointerJoinAll, Ledger.pointerTokens, Paths.join]
  | cons token rest ih =>
      have onward := ih (pointerJoin base token)
      simp only [pointerJoinAll, Ledger.pointerTokens, List.foldl_cons, List.map_cons, Paths.join] at onward ⊢
      rw [onward]
      simp [pointerJoin]

theorem mapM_unescape_pointerTokens (tokens : List String) :
    ((Ledger.pointerTokens tokens).mapM fun token =>
      (Compiler.unescapePointerToken token).map String.ofList) = some tokens := by
  induction tokens with
  | nil => rfl
  | cons token rest ih =>
      simp only [Ledger.pointerTokens, List.map_cons, List.mapM_cons] at ih ⊢
      rw [ih, toList_escape, unescape_escape]
      simp

theorem parsePointer_pointerJoinAll (tokens : List String) :
    Compiler.parsePointer (pointerJoinAll "" tokens) = some tokens := by
  have text := toList_pointerJoinAll "" tokens
  rw [String.toList_empty, List.nil_append] at text
  rw [Compiler.parsePointer, text]
  cases tokens with
  | nil => rfl
  | cons token rest =>
      have split := Paths.splitOn_join (Ledger.pointerTokens_plain (token :: rest)) (by simp [Ledger.pointerTokens])
      have read := mapM_unescape_pointerTokens (token :: rest)
      simp only [Ledger.pointerTokens, List.map_cons, Paths.join, List.tail_cons] at split read ⊢
      rw [split, read]

/-- What the compiler reads in a pointer, the engine and the worker read in it; and each of them reads back
the tokens a pointer was written from. -/
theorem parsePointer_agrees_and_inverts :
    (∀ (pointer : String) (tokens : List String), Compiler.parsePointer pointer = some tokens →
      parsePointer pointer = .ok tokens) ∧
    ∀ tokens : List String, Compiler.parsePointer (pointerJoinAll "" tokens) = some tokens ∧
      parsePointer (pointerJoinAll "" tokens) = .ok tokens := by
  refine ⟨fun pointer tokens read => parsePointer_eq read, fun tokens => ?_⟩
  have read := parsePointer_pointerJoinAll tokens
  exact ⟨read, parsePointer_eq read⟩

theorem parsePointer_agrees_and_inverts_escapes :
    Compiler.parsePointer "/a~01/~1" = some ["a~1", "/"] ∧ parsePointer "/a~01/~1" = .ok ["a~1", "/"] :=
  have read : Compiler.parsePointer "/a~01/~1" = some ["a~1", "/"] := by decide
  ⟨read, parsePointer_agrees_and_inverts.1 _ _ read⟩

end CultureNodes.Bindings
