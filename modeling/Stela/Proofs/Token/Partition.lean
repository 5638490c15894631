import Stela.Proofs.Source.Positions
import Stela.Proofs.Token.Patterns

/-!
# Tokens partition the text

A text is cut into tokens and what stands between them: blanks, comments up to the end of their
line, and comments up to the first mark that ends them. Every token but the end of the input has
the text of the longest match at its place, or it says that there is no match or that a comment
is not closed. The tokens keep their places, so they come in order and do not overlap.
-/

namespace Stela

open Lexer

/-! ## The specification -/

/-- A piece that separates tokens, in front of the text `after`. -/
inductive Separates (after : List Char) : List Char → Prop
  | blank {c : Char} (h : isBlank c = true) : Separates after [c]
  | lineComment {body : List Char} (hbody : '\n' ∉ body)
      (hend : after = [] ∨ ∃ rest, after = '\n' :: rest) : Separates after ('/' :: '/' :: body)
  | blockComment {body : List Char} (hbody : ¬['*', '/'] <:+: body) :
      Separates after ('/' :: '*' :: (body ++ ['*', '/']))

/-- Any number of such pieces. -/
inductive Gap (after : List Char) : List Char → Prop
  | nothing : Gap after []
  | piece {piece rest : List Char} (hpiece : Separates (rest ++ after) piece) (hrest : Gap after rest) :
      Gap after (piece ++ rest)

/-- The place of a lexeme behind the text `before`. -/
def placeOf (file : FileId) (before lexeme : List Char) : Span where
  file := file
  start := utf8Length before
  stop := utf8Length (before ++ lexeme)
  line := Lines.wrap (Lines.lineAfter before)
  col := Lines.wrap (Lines.columnAfter before)

/-- A token of this kind has this text in front of the text `after`. -/
def TokenKind.Reads (kind : TokenKind) (lexeme after : List Char) : Prop :=
  match kind with
  | .eof => False
  | .unclosedComment => ∃ body, lexeme = '/' :: '*' :: body ∧ ¬['*', '/'] <:+: body ∧ after = []
  | .invalid => ∃ c rest, lexeme = c :: rest ∧ isBlank c = false ∧
      Lexeme.Fails Lexeme.patterns (lexeme ++ after) ∧
      -- A string without an end is cut behind its complete elements.
      if c = '"' then Pattern.Longest (KStar.kstar (Pattern.element '"')) (rest ++ after) (some rest.length)
      else rest = []
  | kind => Lexeme.Wins Lexeme.patterns (lexeme ++ after) (.token kind) lexeme.length

/-- What is read without an error is the longest match. -/
theorem TokenKind.Reads.wins {kind : TokenKind} {w after : List Char} (h : kind.Reads w after)
    (hinvalid : kind ≠ .invalid) (hunclosed : kind ≠ .unclosedComment) :
    kind ≠ .eof ∧ Lexeme.Wins Lexeme.patterns (w ++ after) (.token kind) w.length := by
  cases kind
  case eof => exact h.elim
  case invalid => exact absurd rfl hinvalid
  case unclosedComment => exact absurd rfl hunclosed
  all_goals exact ⟨nofun, h⟩

structure Token.Reads (file : FileId) (before lexeme after : List Char) (t : Token) : Prop where
  nonempty : lexeme ≠ []
  text : t.text = String.ofList lexeme
  span : t.span = placeOf file before lexeme
  kind : t.kind.Reads lexeme after

/-- The text behind `before` is cut into gaps and tokens, with the end of the input as the last one. -/
inductive Cuts (file : FileId) : List Char → List Char → List Token → Prop
  | last {before gap : List Char} (hgap : Gap [] gap) :
      Cuts file before gap [⟨.eof, "", placeOf file (before ++ gap) []⟩]
  | token {before gap lexeme after : List Char} {t : Token} {tokens : List Token}
      (hgap : Gap (lexeme ++ after) gap) (ht : t.Reads file (before ++ gap) lexeme after)
      (hrest : Cuts file (before ++ gap ++ lexeme) after tokens) :
      Cuts file before (gap ++ lexeme ++ after) (t :: tokens)

/-- The tokens are all that a text is cut into besides gaps. -/
structure Partitions (source : String) (file : FileId) (tokens : List Token) : Prop where
  cuts : Cuts file [] source.toList tokens
  /-- The end of the input is the last token and the only one that is empty. -/
  ends : ∃ written last, tokens = written ++ [last] ∧ last.kind = .eof ∧
    last.span.start = source.utf8ByteSize ∧ last.span.stop = source.utf8ByteSize ∧
    ∀ t ∈ written, t.kind ≠ .eof ∧ t.span.start < t.span.stop
  ordered : tokens.Pairwise fun t t' => t.span.stop ≤ t'.span.start
  /-- An identifier is never spelled like a keyword. -/
  keywords : ∀ t ∈ tokens, t.kind = .ident → ∀ entry ∈ TokenKind.keywords, t.text ≠ entry.1

/-! ## Pieces -/

section

variable {c : Char} {cs before after text : List Char} {n : Nat} {file : FileId}

/-- A comment ends with the first mark that may end it. -/
theorem commentEnd_spec (cs : List Char) :
    match commentEnd cs with
    | none => ¬['*', '/'] <:+: cs
    | some n => ∃ body rest, cs = body ++ '*' :: '/' :: rest ∧ n = body.length + 2 ∧ ¬['*', '/'] <:+: body := by
  have hempty : ¬['*', '/'] <:+: ([] : List Char) := by simp
  induction cs using commentEnd.induct with
  | case1 rest => exact ⟨[], rest, rfl, rfl, hempty⟩
  | case2 c cs hmark ih =>
      have hclosing {ds : List Char} (hds : ds <+: cs) : ¬['*', '/'] <+: c :: ds := by
        rintro ⟨rest, hrest⟩
        obtain ⟨rfl, rfl⟩ := List.cons.inj hrest
        obtain ⟨rest', rfl⟩ := hds
        exact hmark _ rfl rfl
      rw [commentEnd]
      · cases hend : commentEnd cs with
        | none =>
            rw [hend] at ih
            exact fun hinfix => (List.infix_cons_iff.mp hinfix).elim (hclosing List.prefix_rfl) ih
        | some n =>
            rw [hend] at ih
            obtain ⟨body, rest, rfl, rfl, hbody⟩ := ih
            refine ⟨c :: body, rest, rfl, rfl, fun hinfix => ?_⟩
            exact (List.infix_cons_iff.mp hinfix).elim (hclosing (List.prefix_append _ _)) hbody
      · exact hmark
  | case3 => exact hempty

/-- A piece that separates tokens belongs to the gap behind it. -/
theorem Cuts.separated {piece : List Char} {tokens : List Token}
    (h : Cuts file (before ++ piece) after tokens) (hpiece : Separates after piece) :
    Cuts file before (piece ++ after) tokens := by
  cases h with
  | last hgap =>
      rw [List.append_assoc]
      refine .last (.piece ?_ hgap)
      rwa [List.append_nil]
  | @token _ gap lexeme after t tokens hgap ht hrest =>
      rw [List.append_assoc before] at ht hrest
      have hall : Gap (lexeme ++ after) (piece ++ gap) := .piece (by rwa [← List.append_assoc]) hgap
      simpa only [List.append_assoc] using Cuts.token hall ht hrest

/-- What the first piece of a text has to be, for its length less one. -/
def Lexer.Piece.Suits (c : Char) (cs : List Char) (n : Nat) : Piece → Prop
  | .skipped => Separates (cs.drop n) (c :: cs.take n)
  | .token kind => kind.Reads (c :: cs.take n) (cs.drop n)

/-- A pattern for what separates tokens is the only one that stands for it. -/
theorem pattern_of_comment :
    (∀ entry ∈ Lexeme.patterns, entry.2 = .lineComment → entry.1 = .lineComment) ∧
      ∀ entry ∈ Lexeme.patterns, entry.2 = .blockComment → entry.1 = .blockComment := by decide

theorem suits_lineComment (h : Lexeme.Wins Lexeme.patterns (c :: cs) .lineComment n) :
    Piece.skipped.Suits c cs (n - 1) := by
  obtain ⟨pattern, hmem, hlongest⟩ := h.exists_longest
  obtain rfl : pattern = .lineComment := pattern_of_comment.1 _ hmem rfl
  obtain ⟨rest, j, hcs, hj, rfl⟩ := Pattern.starts_text_mul.mp hlongest.1
  obtain ⟨rfl, rfl⟩ := List.cons.inj hcs
  have hspan : j = Pattern.span Pattern.isInLine rest := by
    have hmax := hlongest.2 _ (Pattern.starts_text_mul.mpr
      ⟨rest, _, rfl, Pattern.starts_many.mpr (Nat.le_refl _), rfl⟩)
    exact Nat.le_antisymm (Pattern.starts_many.mp hj) (Nat.le_of_add_le_add_left hmax)
  obtain ⟨htake, hdrop⟩ := hspan ▸ (Pattern.take_span : rest.take (Pattern.span Pattern.isInLine rest) = _ ∧ _)
  have hlength : ['/', '/'].length + j - 1 = j + 1 := by simp only [List.length_cons, List.length_nil]; omega
  rw [hlength]
  change Separates (rest.drop j) ('/' :: '/' :: rest.take j)
  rw [htake, hdrop]
  refine .lineComment (fun hmem => ?_) ?_
  · exact absurd (List.mem_takeWhile_imp hmem) (by decide)
  · have hhead := List.head?_dropWhile_not Pattern.isInLine rest
    cases hrest : rest.dropWhile Pattern.isInLine with
    | nil => exact .inl rfl
    | cons d others =>
        rw [hrest] at hhead
        exact .inr ⟨others, by simpa [Pattern.isInLine] using hhead⟩

theorem suits_blockComment (h : Lexeme.Wins Lexeme.patterns (c :: cs) .blockComment n) :
    match commentEnd (cs.drop (n - 1)) with
    | some m => Piece.skipped.Suits c cs (n - 1 + m)
    | none => (Piece.token .unclosedComment).Suits c cs cs.length := by
  obtain ⟨pattern, hmem, hlongest⟩ := h.exists_longest
  obtain rfl : pattern = .blockComment := pattern_of_comment.2 _ hmem rfl
  obtain ⟨rfl, rest, hcs⟩ := Pattern.starts_text.mp hlongest.1
  obtain ⟨rfl, rfl⟩ := List.cons.inj hcs
  have hspec := commentEnd_spec rest
  change match commentEnd rest with
    | some m => _
    | none => _
  cases hend : commentEnd rest with
  | none =>
      rw [hend] at hspec
      exact ⟨rest, by simp, hspec, by simp⟩
  | some m =>
      rw [hend] at hspec
      obtain ⟨body, others, rfl, rfl, hbody⟩ := hspec
      have htake : (body ++ '*' :: '/' :: others).take (body.length + 2) = body ++ ['*', '/'] := by
        rw [List.take_length_add_append]
        rfl
      have hlength : ['/', '*'].length - 1 + (body.length + 2) = body.length + 2 + 1 := by
        simp only [List.length_cons, List.length_nil]
        omega
      dsimp only
      rw [hlength]
      change Separates _ ('/' :: '*' :: (body ++ '*' :: '/' :: others).take (body.length + 2))
      rw [htake]
      exact .blockComment hbody

theorem suits_token {kind : TokenKind} (h : Lexeme.Wins Lexeme.patterns (c :: cs) (.token kind) n) :
    (Piece.token kind).Suits c cs (n - 1) := by
  obtain ⟨pattern, hmem, hlongest⟩ := h.exists_longest
  have hall : ∀ entry ∈ Lexeme.patterns, entry.1 ≠ .exact [] ∧ entry.2 ≠ .token .eof ∧
      entry.2 ≠ .token .invalid ∧ entry.2 ≠ .token .unclosedComment := by decide
  obtain ⟨hpattern, heof, hinvalid, hunclosed⟩ := hall _ hmem
  have hpos := Pattern.pos_of_starts hpattern hlongest.1
  have hle : n ≤ cs.length + 1 := hlongest.1.1
  have hlength : (c :: cs.take (n - 1)).length = n := by
    rw [List.length_cons, List.length_take]
    omega
  have hwins : Lexeme.Wins Lexeme.patterns ((c :: cs.take (n - 1)) ++ cs.drop (n - 1)) (.token kind)
      (c :: cs.take (n - 1)).length := by
    rw [hlength, List.cons_append, List.take_append_drop]
    exact h
  change kind.Reads _ _
  unfold TokenKind.Reads
  split
  · exact heof rfl
  · exact absurd rfl hunclosed
  · exact absurd rfl hinvalid
  · exact hwins

theorem suits_invalid (hblank : isBlank c = false) (h : Lexeme.Fails Lexeme.patterns (c :: cs)) :
    (Piece.token .invalid).Suits c cs (if c = '"' then Pattern.stringElements cs else 0) := by
  refine ⟨c, _, rfl, hblank, ?_, ?_⟩
  · rwa [List.cons_append, List.take_append_drop]
  · rw [List.take_append_drop]
    split
    · have hlongest : Pattern.Longest (KStar.kstar (Pattern.element '"')) cs _ := Pattern.longest_stringElements
      have hle := hlongest.1.1
      rwa [List.length_take, Nat.min_eq_left hle]
    · rfl

/-- The first piece of a text separates tokens or is a token. -/
theorem firstPiece_suits (c : Char) (cs : List Char) :
    (firstPiece c cs).1.Suits c cs (firstPiece c cs).2 := by
  have hspec := Lexeme.longest_spec (c :: cs)
  unfold firstPiece
  split
  · next hblank => exact .blank hblank
  · next hblank =>
    split
    · next kind n hlongest =>
      rw [hlongest] at hspec
      exact suits_token hspec
    · next n hlongest =>
      rw [hlongest] at hspec
      exact suits_lineComment hspec
    · next n hlongest =>
      rw [hlongest] at hspec
      have hsuits := suits_blockComment hspec
      split
      · next m hend => rwa [hend] at hsuits
      · next hend => rwa [hend] at hsuits
    · next hlongest =>
      rw [hlongest] at hspec
      exact suits_invalid (Bool.eq_false_iff.mpr hblank) hspec

/-- A token that begins behind `before` gets its place. -/
theorem spanAt_eq {source : String} {lexeme : List Char} (h : source.toList = before ++ (lexeme ++ after)) :
    spanAt (Lines.ofText source) file (utf8Length before) (utf8Length before + utf8Length lexeme) =
      placeOf file before lexeme := by
  unfold spanAt placeOf
  rw [Lines.locate_ofText h, utf8Length_append]

theorem cuts_tokens {source : String} (offset : Nat) (text : List Char) :
    ∀ before, source.toList = before ++ text → offset = utf8Length before →
      Cuts file before text (tokens (Lines.ofText source) file offset text) := by
  induction offset, text using tokens.induct (Lines.ofText source) file with
  | case1 offset =>
      rintro before h rfl
      have hplace : spanAt (Lines.ofText source) file (utf8Length before) (utf8Length before) =
          placeOf file (before ++ []) [] := by
        rw [List.append_nil]
        have hend : source.toList = before ++ ([] ++ []) := h
        exact spanAt_eq hend
      rw [tokens, hplace]
      exact .last .nothing
  | case2 offset c cs piece lexeme stop hskipped ih =>
      rintro before h rfl
      have hpiece : (firstPiece c cs).1 = .skipped := hskipped
      have hsuits := firstPiece_suits c cs
      rw [hpiece] at hsuits
      have hsplit : c :: cs = lexeme ++ cs.drop piece.2 := by
        rw [List.cons_append, List.take_append_drop]
      have hrest : Cuts file (before ++ lexeme) (cs.drop piece.2)
          (tokens (Lines.ofText source) file stop (cs.drop piece.2)) :=
        ih _ (by rw [h, hsplit, List.append_assoc]) utf8Length_append.symm
      rw [tokens]
      simp only [hpiece]
      rw [hsplit]
      exact hrest.separated hsuits
  | case3 offset c cs piece lexeme stop kind hkind ih =>
      rintro before h rfl
      have hpiece : (firstPiece c cs).1 = .token kind := hkind
      have hsuits := firstPiece_suits c cs
      rw [hpiece] at hsuits
      have hsplit : c :: cs = lexeme ++ cs.drop piece.2 := by
        rw [List.cons_append, List.take_append_drop]
      have hrest : Cuts file (before ++ [] ++ lexeme) (cs.drop piece.2)
          (tokens (Lines.ofText source) file stop (cs.drop piece.2)) := by
        rw [List.append_nil]
        exact ih _ (by rw [h, hsplit, List.append_assoc]) utf8Length_append.symm
      have hreads : Token.Reads file (before ++ []) lexeme (cs.drop piece.2)
          ⟨kind, String.ofList lexeme, spanAt (Lines.ofText source) file (utf8Length before) stop⟩ := by
        refine ⟨List.cons_ne_nil _ _, rfl, ?_, hsuits⟩
        rw [List.append_nil]
        exact spanAt_eq (h.trans (congrArg _ hsplit))
      rw [tokens]
      simp only [hpiece]
      rw [hsplit]
      exact .token .nothing hreads hrest

/-! ## Consequences -/

theorem lt_stop_placeOf {lexeme : List Char} (h : lexeme ≠ []) :
    (placeOf file before lexeme).start < (placeOf file before lexeme).stop := by
  change utf8Length before < utf8Length (before ++ lexeme)
  rw [utf8Length_append]
  exact Nat.lt_add_of_pos_right (utf8Length_pos h)

theorem Cuts.ends {tokens : List Token} (h : Cuts file before text tokens) :
    ∃ written last, tokens = written ++ [last] ∧ last.kind = .eof ∧
      last.span.start = utf8Length (before ++ text) ∧ last.span.stop = utf8Length (before ++ text) ∧
      ∀ t ∈ written, t.kind ≠ .eof ∧ t.span.start < t.span.stop := by
  induction h with
  | @last before gap hgap =>
      exact ⟨[], _, rfl, rfl, rfl, by simp [placeOf], by simp⟩
  | @token before gap lexeme after t tokens hgap ht hrest ih =>
      obtain ⟨written, last, rfl, hkind, hstart, hstop, hwritten⟩ := ih
      have hall : before ++ gap ++ lexeme ++ after = before ++ (gap ++ lexeme ++ after) := by simp
      rw [hall] at hstart hstop
      refine ⟨t :: written, last, rfl, hkind, hstart, hstop, List.forall_mem_cons.mpr ⟨⟨?_, ?_⟩, hwritten⟩⟩
      · intro heof
        have hreads := ht.kind
        rw [heof] at hreads
        exact hreads
      · rw [ht.span]
        exact lt_stop_placeOf ht.nonempty

/-- No token begins before the text that is left. -/
theorem Cuts.le_start {tokens : List Token} (h : Cuts file before text tokens) :
    ∀ t ∈ tokens, utf8Length before ≤ t.span.start := by
  induction h with
  | last hgap =>
      refine List.forall_mem_singleton.mpr ?_
      exact Nat.le_trans (Nat.le_add_right _ _) utf8Length_append.symm.le
  | @token before gap lexeme after t tokens hgap ht hrest ih =>
      have hgap : utf8Length before ≤ utf8Length (before ++ gap) :=
        Nat.le_trans (Nat.le_add_right _ _) utf8Length_append.symm.le
      have hlexeme : utf8Length (before ++ gap) ≤ utf8Length (before ++ gap ++ lexeme) :=
        Nat.le_trans (Nat.le_add_right _ _) utf8Length_append.symm.le
      refine List.forall_mem_cons.mpr ⟨?_, fun t' ht' => ?_⟩
      · rw [ht.span]
        exact hgap
      · exact Nat.le_trans (Nat.le_trans hgap hlexeme) (ih t' ht')

theorem Cuts.ordered {tokens : List Token} (h : Cuts file before text tokens) :
    tokens.Pairwise fun t t' => t.span.stop ≤ t'.span.start := by
  induction h with
  | last hgap => exact List.pairwise_singleton _ _
  | token hgap ht hrest ih =>
      refine List.pairwise_cons.mpr ⟨fun t' ht' => ?_, ih⟩
      rw [ht.span]
      exact hrest.le_start t' ht'

/-- Every token but the end of the input was read from the text. -/
theorem Cuts.exists_reads {tokens : List Token} (h : Cuts file before text tokens) :
    ∀ t ∈ tokens, t.kind ≠ .eof → ∃ lexeme after, t.text = String.ofList lexeme ∧ t.kind.Reads lexeme after := by
  induction h with
  | last hgap => exact List.forall_mem_singleton.mpr fun hne => absurd rfl hne
  | @token before gap lexeme after t tokens hgap ht hrest ih =>
      exact List.forall_mem_cons.mpr ⟨fun _ => ⟨lexeme, after, ht.text, ht.kind⟩, ih⟩

/-- The keywords come before the identifiers. -/
theorem keyword_mem_of_ident {earlier later : List (Pattern × Lexeme)} {pattern : Pattern}
    (h : Lexeme.patterns = earlier ++ (pattern, .token .ident) :: later) {entry : String × TokenKind}
    (hentry : entry ∈ TokenKind.keywords) : (.exact entry.1.toList, .token entry.2) ∈ earlier := by
  have hfixed : (.exact entry.1.toList, .token entry.2) ∈ TokenKind.fixed.map fun entry =>
      (Pattern.exact entry.1.toList, Lexeme.token entry.2) :=
    List.mem_map_of_mem (List.mem_append_left _ hentry)
  rcases List.append_eq_append_iff.mp h with ⟨others, rfl, -⟩ | ⟨others, hothers, hrest⟩
  · exact List.mem_append_left _ hfixed
  · cases others with
    | nil =>
        rw [List.append_nil] at hothers
        exact hothers ▸ hfixed
    | cons other others =>
        obtain ⟨rfl, -⟩ := List.cons.inj hrest
        have hnot : ∀ entry ∈ TokenKind.fixed, entry.2 ≠ .ident := by decide
        obtain ⟨found, hfound, heq⟩ := List.mem_map.mp (hothers ▸ List.mem_append_right earlier List.mem_cons_self)
        exact absurd (Lexeme.token.inj (Prod.mk.inj heq).2) (hnot found hfound)

theorem Cuts.keywords {tokens : List Token} (h : Cuts file before text tokens) :
    ∀ t ∈ tokens, t.kind = .ident → ∀ entry ∈ TokenKind.keywords, t.text ≠ entry.1 := by
  induction h with
  | last hgap => exact List.forall_mem_singleton.mpr nofun
  | @token before gap lexeme after t tokens hgap ht hrest ih =>
      refine List.forall_mem_cons.mpr ⟨fun hident entry hentry htext => ?_, ih⟩
      have hwins : Lexeme.Wins Lexeme.patterns (lexeme ++ after) (.token .ident) lexeme.length := by
        have hreads := ht.kind
        rwa [hident] at hreads
      obtain ⟨earlier, pattern, later, hpatterns, -, hearlier⟩ := hwins.first
      have hlexeme : lexeme = entry.1.toList := by
        rw [← htext, ht.text, String.toList_ofList]
      refine hearlier _ (keyword_mem_of_ident hpatterns hentry) ?_
      rw [← hlexeme]
      exact Pattern.starts_of_append rfl

end

/-- The tokens of a source text are what it is cut into. -/
theorem cuts_lex (source : String) (file : FileId) : Cuts file [] source.toList (lex source file) :=
  cuts_tokens 0 source.toList [] rfl rfl

/-- The tokens of a source text partition it. -/
theorem lex_partitions (source : String) (file : FileId) : Partitions source file (lex source file) := by
  have hcuts := cuts_lex source file
  have hends := hcuts.ends
  rw [List.nil_append, utf8Length_toList] at hends
  exact ⟨hcuts, hends, hcuts.ordered, hcuts.keywords⟩

/-- The text of a token is described by a pattern for tokens of its kind. -/
theorem exists_pattern_of_mem_lex {source : String} {file : FileId} {t : Token} (ht : t ∈ lex source file)
    (heof : t.kind ≠ .eof) (hinvalid : t.kind ≠ .invalid) (hunclosed : t.kind ≠ .unclosedComment) :
    ∃ pattern, (pattern, .token t.kind) ∈ Lexeme.patterns ∧ t.text.toList ∈ pattern.language := by
  obtain ⟨lexeme, after, htext, hreads⟩ := (cuts_lex source file).exists_reads t ht heof
  obtain ⟨-, hwins⟩ := hreads.wins hinvalid hunclosed
  obtain ⟨pattern, hmem, ⟨-, hlexeme⟩, -⟩ := hwins.exists_longest
  rw [List.take_left] at hlexeme
  exact ⟨pattern, hmem, by rwa [htext, String.toList_ofList]⟩

end Stela
