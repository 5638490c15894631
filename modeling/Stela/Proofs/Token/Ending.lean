import Mathlib.Data.List.Basic
import Stela.Token.Lexer

/-!
# The end of a token list

The tokens of a text are followed by the end of the input, which is the only
token of its kind because no pattern stands for it.
-/

namespace Stela

/-- The longest match is a match of one of the patterns. -/
theorem Lexeme.longest_mem {cs : List Char} {found : Lexeme × Nat} (h : longest cs = some found) :
    found.1 ∈ patterns.map Prod.snd := by
  have hall : ∀ best ∈ longest cs, best.1 ∈ patterns.map Prod.snd := by
    unfold longest
    refine List.foldlRecOn (motive := fun best : Option (Lexeme × Nat) => ∀ found ∈ best, found.1 ∈ patterns.map Prod.snd)
      patterns _ (by simp) fun best hbest entry hentry found hfound => ?_
    have hmem : entry.2 ∈ patterns.map Prod.snd := List.mem_map_of_mem hentry
    split at hfound
    · exact hbest found hfound
    · obtain rfl := Option.some.inj hfound
      cases best with
      | none => exact hmem
      | some current =>
          unfold better
          dsimp only
          split
          · exact hmem
          · exact hbest current rfl
  exact hall found h

namespace Lexer

/-- No pattern stands for the end of the input. -/
theorem firstPiece_ne_eof (c : Char) (cs : List Char) : (firstPiece c cs).1 ≠ .token .eof := by
  unfold firstPiece
  split
  · simp
  · split
    · next kind n hlongest =>
      have hne : ∀ lexeme ∈ Lexeme.patterns.map Prod.snd, lexeme ≠ .token .eof := by decide
      simpa using hne _ (Lexeme.longest_mem hlongest)
    · simp
    · split <;> simp
    · simp

theorem tokens_eq_append (lines : Lines) (file : FileId) (offset : Nat) (text : List Char) :
    ∃ written last, tokens lines file offset text = written ++ [last] ∧ last.kind = .eof ∧
      ∀ token ∈ written, token.kind ≠ .eof := by
  induction offset, text using tokens.induct lines file with
  | case1 offset =>
      rw [tokens]
      exact ⟨[], _, rfl, rfl, by simp⟩
  | case2 offset c cs piece lexeme stop hskipped ih =>
      obtain ⟨written, last, hrest, hlast, hwritten⟩ := ih
      have hpiece : (firstPiece c cs).1 = .skipped := hskipped
      rw [tokens]
      simp only [hpiece]
      exact ⟨written, last, hrest, hlast, hwritten⟩
  | case3 offset c cs piece lexeme stop kind hkind ih =>
      obtain ⟨written, last, hrest, hlast, hwritten⟩ := ih
      have hpiece : (firstPiece c cs).1 = .token kind := hkind
      rw [tokens]
      simp only [hpiece]
      refine ⟨_ :: written, last, congrArg _ hrest, hlast, List.forall_mem_cons.mpr ⟨?_, hwritten⟩⟩
      rintro rfl
      exact firstPiece_ne_eof c cs hpiece

end Lexer

theorem lex_eq_append (source : String) (file : FileId) :
    ∃ written last, lex source file = written ++ [last] ∧ last.kind = .eof ∧
      ∀ token ∈ written, token.kind ≠ .eof :=
  Lexer.tokens_eq_append _ _ _ _

end Stela
