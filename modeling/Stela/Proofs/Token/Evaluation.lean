import Stela.Proofs.Token.Spacing

/-!
# Cutting a text that is given by its characters

`lex` reads a string, tries every pattern where a token may start, and calls
itself on what the token leaves. Of a text that is given by its characters it
finds what a recursion on a bound finds that tries only the patterns which begin
with the first character.
-/

namespace Stela

/-- A pattern that begins with other characters describes no prefix. -/
theorem Pattern.reach_eq_none {pattern : Pattern} {c : Char} {cs : List Char}
    (hpattern : pattern ≠ .exact []) (h : pattern.first c = false) : pattern.reach (c :: cs) = none := by
  have hlongest := longest_reach pattern (c :: cs)
  cases hreach : pattern.reach (c :: cs) with
  | none => rfl
  | some n =>
      rw [hreach] at hlongest
      obtain ⟨d, rest, hword, hd⟩ := exists_first hpattern hlongest.1.2
      obtain ⟨m, rfl⟩ := Nat.exists_eq_add_one.mpr (pos_of_starts hpattern hlongest.1)
      obtain ⟨rfl, -⟩ := List.cons.inj hword
      cases h.symm.trans hd

namespace Lexeme

/-- The patterns that begin with a character. -/
def startingWith (c : Char) : List (Pattern × Lexeme) := patterns.filter fun entry => entry.1.first c

/-- The longest match at the start of a text of the patterns that begin with its first character. -/
def longestFrom (c : Char) (cs : List Char) : Option (Lexeme × Nat) :=
  (startingWith c).foldl (fun best entry =>
    match entry.1.reach (c :: cs) with
    | none => best
    | some n => some (better best (entry.2, n))) none

theorem longest_cons (c : Char) (cs : List Char) : longest (c :: cs) = longestFrom c cs := by
  rw [longestFrom, startingWith, List.foldl_filter]
  refine List.foldl_ext _ _ none fun best entry hentry => ?_
  cases hfirst : entry.1.first c with
  | true => rfl
  | false =>
      rw [Pattern.reach_eq_none (patterns_spec entry hentry).1 hfirst]
      rfl

end Lexeme

namespace Lexer

/-- The kind of the first piece of a text and its length less one, from the longest match. -/
def pieceOf (c : Char) (cs : List Char) : Option (Lexeme × Nat) → Piece × Nat
  | some (.token kind, n) => (.token kind, n - 1)
  | some (.lineComment, n) => (.skipped, n - 1)
  | some (.blockComment, n) =>
    match commentEnd (cs.drop (n - 1)) with
    | some m => (.skipped, n - 1 + m)
    | none => (.token .unclosedComment, cs.length)
  | none => (.token .invalid, if c = '"' then Pattern.stringElements cs else 0)

theorem firstPiece_eq (c : Char) (cs : List Char) : firstPiece c cs =
    if isBlank c then (.skipped, 0) else pieceOf c cs (Lexeme.longestFrom c cs) := by
  rw [firstPiece, Lexeme.longest_cons]
  rfl

/-- The first `bound` pieces of a text that starts at byte `offset`. -/
def cut (lines : Lines) (file : FileId) : Nat → Nat → List Char → List Token
  | 0, offset, _ | _, offset, [] => [⟨.eof, "", spanAt lines file offset offset⟩]
  | bound + 1, offset, c :: cs =>
    let piece := if isBlank c then (.skipped, 0) else pieceOf c cs (Lexeme.longestFrom c cs)
    let lexeme := c :: cs.take piece.2
    let stop := offset + utf8Length lexeme
    let rest := cut lines file bound stop (cs.drop piece.2)
    match piece.1 with
    | .skipped => rest
    | .token kind => ⟨kind, String.ofList lexeme, spanAt lines file offset stop⟩ :: rest

theorem tokens_eq_cut (lines : Lines) (file : FileId) {bound : Nat} {text : List Char}
    (hbound : text.length ≤ bound) (offset : Nat) :
    tokens lines file offset text = cut lines file bound offset text := by
  induction bound generalizing offset text with
  | zero =>
      obtain rfl := List.length_eq_zero_iff.mp (Nat.le_zero.mp hbound)
      rw [tokens, cut]
  | succ bound ih =>
      cases text with
      | nil =>
          rw [tokens, cut]
          exact Nat.succ_ne_zero bound
      | cons c cs =>
          have hdrop (n : Nat) : (cs.drop n).length ≤ bound :=
            List.length_drop ▸ (Nat.sub_le _ _).trans (Nat.le_of_succ_le_succ hbound)
          rw [tokens, cut, ← firstPiece_eq]
          obtain ⟨kind | _, n⟩ := firstPiece c cs
          · exact congrArg _ (ih (hdrop n) _)
          · exact ih (hdrop n) _

end Lexer

/-- The tokens of a text that is given by its characters. -/
theorem lex_ofList (cs : List Char) : lex (String.ofList cs) = fun file =>
    Lexer.cut ⟨(Lines.startsAfter 0 cs).toArray⟩ file cs.length 0 cs := by
  funext file
  rw [lex, Lines.ofText, String.toList_ofList, Lexer.tokens_eq_cut _ _ le_rfl]

end Stela
