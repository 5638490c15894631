import Stela.Proofs.Syntax.Rereading
import Stela.Proofs.Syntax.Termination
import Stela.Proofs.Token.Spacing

/-!
# Texts that are types

A text is accepted as a type exactly if its tokens are the words of a type, up to
the end of the input. Whatever else it is, empty, unfinished, followed by more or
cut by characters of no token, it is rejected with a reason.
-/

namespace Stela

open Phrase ParseState

/-! ## The words of a text -/

namespace Lexer

/-- What the tokens of a text are does not depend on where the text stands. -/
theorem content_tokens (lines lines' : Lines) (file file' : FileId) (offset offset' : Nat)
    (text : List Char) : (tokens lines file offset text).map Token.content =
      (tokens lines' file' offset' text).map Token.content := by
  induction offset, text using tokens.induct lines file generalizing offset' with
  | case1 offset =>
      rw [tokens, tokens]
      rfl
  | case2 offset c cs piece lexeme stop hskipped ih =>
      have hpiece : (firstPiece c cs).1 = .skipped := hskipped
      rw [tokens, tokens]
      simp only [hpiece]
      exact ih _
  | case3 offset c cs piece lexeme stop kind htoken ih =>
      have hpiece : (firstPiece c cs).1 = .token kind := htoken
      rw [tokens, tokens]
      simp only [hpiece, List.map_cons]
      exact congrArg₂ _ rfl (ih _)

end Lexer

theorem content_lex (text : String) (file file' : FileId) :
    (lex text file).map Token.content = (lex text file').map Token.content :=
  Lexer.content_tokens ..

namespace Token

theorem word?_of_content {t t' : Token} (h : t.content = t'.content) : t.word? = t'.word? := by
  obtain ⟨hkind, htext⟩ := Prod.mk.inj h
  unfold word?
  rw [hkind, htext]

theorem words_of_contents {tokens tokens' : List Token}
    (h : tokens.map content = tokens'.map content) : tokens.map word? = tokens'.map word? := by
  induction tokens generalizing tokens' with
  | nil => simp_all
  | cons first rest ih =>
      obtain ⟨first', rest', rfl, hfirst, hrest⟩ := List.map_eq_cons_iff.mp h.symm
      simp only [List.map_cons]
      rw [word?_of_content hfirst.symm, ih hrest.symm]

end Token

/-! ## Types in full -/

/-- The text is the type in words: its tokens say the type, and behind them it ends. -/
def TypeExpr.SaidBy (type : TypeExpr) (text : String) : Prop :=
  ∃ last : Token, last.kind = .eof ∧ Spells type.language (lex text 0) [last]

/-- The text is one type and nothing else. -/
def IsTypeText (text : String) : Prop := ∃ type : TypeExpr, type.SaidBy text

theorem TypeExpr.saidBy_iff {type : TypeExpr} {text : String} (file : FileId) :
    type.SaidBy text ↔ ∃ last : Token, last.kind = .eof ∧
      Spells type.language (lex text file) [last] := by
  have moved {file file' : FileId} : (∃ last : Token, last.kind = .eof ∧
      Spells type.language (lex text file) [last]) → ∃ last : Token, last.kind = .eof ∧
      Spells type.language (lex text file') [last] := by
    rintro ⟨last, hlast, read, ws, htokens, hread, hws⟩
    have hcontent := content_lex text file file'
    rw [htokens, List.map_append] at hcontent
    obtain ⟨read', behind, htokens', hread', hbehind⟩ := List.map_eq_append_iff.mp hcontent.symm
    obtain ⟨last', rfl, hlast'⟩ := List.map_eq_singleton_iff.mp hbehind
    refine ⟨last', (congrArg Prod.fst hlast').trans hlast, read', ws, htokens', ?_, hws⟩
    rw [Token.words_of_contents hread', hread]
  exact ⟨moved, moved⟩

namespace Parse

/-- What is accepted as a whole type spells it up to the end of the input. -/
theorem read_wholeType (bound : Nat) {s : ParseState} (hs : s.Explained) :
    (wholeType bound).Ends recorded s fun type s' =>
      s'.errors = [] → Read s type.language s' ∧ s'.atEnd = true := by
  refine (ends_attempt (forms_typeExpr bound s hs)).bind fun type s₁ h₁ => .next rfl ?_
  dsimp only
  cases type with
  | none =>
      split
      · exact .next rfl (kept_report h₁ _ _)
      · exact h₁
  | some type =>
      split
      · exact .next rfl (.pure fun hclean => absurd hclean (errors_report h₁.explained _ _))
      · next hend => exact .pure fun _ => ⟨h₁, by simpa using hend⟩

/-- In front of tokens that spell a type, up to the end of the input, the type is read. -/
theorem take_wholeType (bound : Nat) {type : TypeExpr} {s : ParseState} {tokens : List Token}
    {errors : List (SyntaxError × Span)} {last : Token} (hlast : last.kind = .eof)
    (hs : s.Ahead errors tokens) (hspells : Spells type.language tokens [last]) :
    (wholeType bound).Ends succeeding s fun read s' =>
      s'.errors = errors ∧ read.bare = type.bare := by
  have hfollows : Follows TypeEnd [last] := ⟨last, [], rfl, by simp [TypeEnd, hlast]⟩
  have hread := take_typeExpr bound type errors s tokens [last] hs hspells hfollows
  have hattempt : (attempt (typeExpr bound)).Ends succeeding s fun found s' => s'.At errors [last] ∧
      ∃ read, found = some read ∧ read.bare = type.bare :=
    .attempt <| hread.weaken (fun read s' h => ⟨h.1, read, rfl, h.2⟩) (fun _ => False.elim) id
  refine hattempt.bind fun found s₁ h₁ => .next rfl ?_
  obtain ⟨h₁, read, rfl, hbare⟩ := h₁
  obtain ⟨hcurrent, -, herrors⟩ := h₁.ahead last [] rfl
  have hend : s₁.atEnd = true := by simp [atEnd, ParseState.kind, hcurrent, hlast]
  simp only [hend, Bool.not_true, Bool.false_eq_true, if_false]
  exact .pure ⟨herrors (by simp [Token.IsValid, hlast]), hbare⟩

end Parse

/-- The state in front of the first token has no errors, unless the token is one. -/
theorem ParseState.ahead_start (tokens : List Token) (nodes : NodeCount) :
    (start tokens nodes).Ahead [] tokens := by
  rintro token rest rfl
  refine ⟨by simp [start], by simp [start], fun hvalid => ?_⟩
  unfold start checkCurrent
  dsimp only [ParseState.kind]
  split
  · next hkind => exact absurd hkind hvalid.1
  · next hkind => exact absurd hkind hvalid.2
  · rfl

/-- A rejected text gets a reason if the parser leaves one wherever it fails. -/
theorem diagnostics_of_runParse {α : Type} {parser : Nat → Parse α} {text : String} {file : FileId}
    {nodes : NodeCount} {diagnostics : List Diagnostic} (hparser : ∀ bound, Parse.Tells (parser bound))
    (h : (runParse parser text file nodes).1 = .error (.errors diagnostics)) : diagnostics ≠ [] := by
  rw [runParse_eq] at h
  dsimp only at h
  split at h
  · split at h
    · cases h
    · next herrors =>
      cases h
      simpa using herrors
  · next s hrun =>
    cases h
    have herrors : s.errors ≠ [] := (hparser _ _ (explained_start (lex text file) nodes)).of_failed hrun
    simpa using herrors
  · cases h

theorem diagnostics_of_parseType {text : String} {file : FileId} {nodes : NodeCount}
    {diagnostics : List Diagnostic}
    (h : (parseType text file nodes).1 = .error (.errors diagnostics)) : diagnostics ≠ [] :=
  diagnostics_of_runParse Parse.tells_wholeType h

theorem parseType_ne_spent (text : String) (file : FileId) (nodes : NodeCount) :
    (parseType text file nodes).1 ≠ .error .spent :=
  runParse_ne_spent text file nodes fun _ _ h => Parse.lasts_wholeType h

/-- A type that was accepted is said by the text. -/
theorem saidBy_of_parseType {text : String} {file : FileId} {nodes : NodeCount} {type : TypeExpr}
    (h : (parseType text file nodes).1 = .ok type) : type.SaidBy text := by
  obtain ⟨written, last, htokens, hlast, hwritten⟩ := lex_eq_append text file
  rw [parseType, runParse_eq] at h
  dsimp only at h
  split at h
  · next value s hrun =>
    dsimp only at h
    split at h
    · next herrors =>
      cases h
      have hends := Parse.read_wholeType (ParseState.start (lex text file) nodes).stepBound
        (explained_start (lex text file) nodes)
      have hclean : s.errors = [] := by simpa using herrors
      obtain ⟨hread, hend⟩ := hends.of_ok hrun hclean
      have hspelled := (hread.spelled hclean (by simp [previous_start])).1
      rw [unread_of_atEnd hend, htokens, unread_start nodes hlast hwritten] at hspelled
      obtain ⟨read, ws, rfl, hread, hws⟩ := hspelled
      refine (TypeExpr.saidBy_iff file).mpr ⟨last, hlast, read, ws, ?_, hread, hws⟩
      rw [htokens, List.append_nil]
    · cases h
  · cases h
  · cases h

/-- A text that says a type is accepted, as this type up to numbers and places. -/
theorem exists_parseType {text : String} {type : TypeExpr} (h : type.SaidBy text) (file : FileId)
    (nodes : NodeCount) :
    ∃ read, (parseType text file nodes).1 = .ok read ∧ read.bare = type.bare := by
  obtain ⟨last, hlast, hspells⟩ := (TypeExpr.saidBy_iff file).mp h
  let s := ParseState.start (lex text file) nodes
  have hlasts : Parse.wholeType s.stepBound s ≠ .spent := by
    intro hspent
    refine parseType_ne_spent text file nodes ?_
    rw [parseType, runParse_eq]
    simp only [s] at hspent
    simp only [hspent]
  obtain ⟨read, s', hrun, hclean, hbare⟩ := (Parse.take_wholeType s.stepBound hlast
    (ahead_start (lex text file) nodes) hspells).succeeds hlasts
  refine ⟨read, ?_, hbare⟩
  rw [parseType, runParse_eq]
  simp only [s] at hrun
  simp [hrun, hclean]

/-- A text is accepted as the type that it says, or rejected with a reason because it says none. -/
theorem parseType_cases (text : String) (file : FileId) (nodes : NodeCount) :
    (∃ type, (parseType text file nodes).1 = .ok type ∧ type.SaidBy text) ∨
      ¬IsTypeText text ∧ ∃ diagnostics, diagnostics ≠ [] ∧
        (parseType text file nodes).1 = .error (.errors diagnostics) := by
  cases hrun : (parseType text file nodes).1 with
  | ok type => exact .inl ⟨type, rfl, saidBy_of_parseType hrun⟩
  | error failure =>
      cases failure with
      | spent => exact absurd hrun (parseType_ne_spent text file nodes)
      | errors diagnostics =>
          refine .inr ⟨?_, diagnostics, diagnostics_of_parseType hrun, rfl⟩
          rintro ⟨type, htype⟩
          obtain ⟨read, hread, -⟩ := exists_parseType htype file nodes
          rw [hrun] at hread
          cases hread

theorem isTypeText_iff (text : String) : IsTypeText text ↔ (parseType text 0 {}).1.isOk = true := by
  obtain ⟨type, hok, hsaid⟩ | ⟨hnone, diagnostics, -, hfailed⟩ := parseType_cases text 0 {}
  · exact iff_of_true ⟨type, hsaid⟩ (by rw [hok]; rfl)
  · exact iff_of_false hnone (by rw [hfailed]; exact Bool.false_ne_true)

instance : DecidablePred IsTypeText := fun text => decidable_of_iff _ (isTypeText_iff text).symm

example : IsTypeText "func(ref [sint], m.T,) -> void" ∧ ¬IsTypeText "[sint] bool" ∧
    ¬IsTypeText "sint /*" ∧ ¬IsTypeText "" := by
  decide +kernel

end Stela
