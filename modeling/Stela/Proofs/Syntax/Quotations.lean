import Stela.Proofs.Token.Spacing
import Stela.Proofs.Syntax.Outcomes

/-!
# Text literals

Between quotes a character stands for itself or is written as an escape. What is written so is
cut out as one token, whatever the characters are, since an escaped quote is passed together with
its backslash, and decoding the token gives the characters back. Elements that are not written
so are escapes with a letter of no meaning, and a string with one of them is rejected.
-/

namespace Stela

open Computability

/-! ## Writing text literals -/

/-- The letters behind a backslash, each with the character that they stand for. -/
def escapes : List (Char × Char) :=
  [('n', '\n'), ('t', '\t'), ('r', '\r'), ('0', '\x00'), ('\\', '\\'), ('\'', '\''), ('"', '"')]

/-- The ways to write a character between two quotes. -/
inductive WritesChar (quote c : Char) : List Char → Prop
  | plain (hquote : c ≠ quote) (hslash : c ≠ '\\') : WritesChar quote c [c]
  | escape {letter : Char} (h : (letter, c) ∈ escapes) : WritesChar quote c ['\\', letter]

/-- The text of a literal that is made of parts. -/
def quoted (quote : Char) (parts : List (List Char)) : List Char :=
  quote :: (parts.flatten ++ [quote])

/-- Every character can be written. -/
theorem exists_writes (quote c : Char) (hquote : quote = '"' ∨ quote = '\'') :
    ∃ part, WritesChar quote c part := by
  by_cases hslash : c = '\\'
  · exact ⟨_, @WritesChar.escape _ _ '\\' (by simp [hslash, escapes])⟩
  · by_cases hc : c = quote
    · refine ⟨_, @WritesChar.escape _ _ c ?_⟩
      rcases hquote with rfl | rfl <;> simp [hc, escapes]
    · exact ⟨_, .plain hc hslash⟩

theorem exists_forall₂_writes (quote : Char) (hquote : quote = '"' ∨ quote = '\'') (cs : List Char) :
    ∃ parts, List.Forall₂ (WritesChar quote) cs parts := by
  induction cs with
  | nil => exact ⟨[], .nil⟩
  | cons c cs ih =>
      obtain ⟨part, hpart⟩ := exists_writes quote c hquote
      obtain ⟨parts, hparts⟩ := ih
      exact ⟨part :: parts, .cons hpart hparts⟩

/-- One of the parts is an escape with a letter of no meaning. -/
def HasUnknownEscape (parts : List (List Char)) : Prop :=
  ∃ letter, ['\\', letter] ∈ parts ∧ letter ∉ escapes.map Prod.fst

theorem hasUnknownEscape_cons {part : List Char} {parts : List (List Char)} :
    HasUnknownEscape (part :: parts) ↔
      (∃ letter, part = ['\\', letter] ∧ letter ∉ escapes.map Prod.fst) ∨ HasUnknownEscape parts := by
  simp only [HasUnknownEscape, List.mem_cons, or_and_right, exists_or, eq_comm]

/-! ## Decoding -/

namespace Literal

theorem escaped_of_mem {letter c : Char} (h : (letter, c) ∈ escapes) : escaped letter = some c := by
  have hall : (escapes.all fun entry => escaped entry.1 == some entry.2) = true := by decide
  exact beq_iff_eq.mp (List.all_eq_true.mp hall _ h)

theorem escaped_eq_none_iff {letter : Char} :
    escaped letter = none ↔ letter ∉ escapes.map Prod.fst := by
  unfold escaped
  split <;> simp_all [escapes]

theorem unescape_plain {c : Char} {rest : List Char} (hc : c ≠ '\\') :
    unescape (c :: rest) = (unescape rest).map (c :: ·) := by
  rw [unescape]
  · exact fun h => absurd h hc
  · exact fun _ _ h => absurd h hc

/-- What is written decodes to what was to be written. -/
theorem unescape_flatten {quote : Char} {cs : List Char} {parts : List (List Char)}
    (h : List.Forall₂ (WritesChar quote) cs parts) : unescape parts.flatten = some cs := by
  induction h with
  | nil => rfl
  | cons hpart _ ih =>
      rw [List.flatten_cons]
      cases hpart with
      | plain hquote hslash => rw [List.singleton_append, unescape_plain hslash, ih, Option.map_some]
      | escape hmem => simp [unescape, escaped_of_mem hmem, ih]

theorem unescape_escape {letter : Char} {rest : List Char} :
    unescape ('\\' :: letter :: rest) = none ↔ escaped letter = none ∨ unescape rest = none := by
  cases hletter : escaped letter <;> cases hrest : unescape rest <;> simp [unescape, hletter, hrest]

/-- Elements cannot be decoded just if one of them is an escape without a meaning. -/
theorem unescape_eq_none_iff {quote : Char} {parts : List (List Char)}
    (h : ∀ part ∈ parts, part ∈ Pattern.element quote) :
    unescape parts.flatten = none ↔ HasUnknownEscape parts := by
  induction parts with
  | nil => simp [unescape, HasUnknownEscape]
  | cons part parts ih =>
      obtain ⟨hpart, hparts⟩ := List.forall_mem_cons.mp h
      rw [List.flatten_cons, hasUnknownEscape_cons, ← ih hparts]
      rcases (Language.mem_add _ _ _).mp hpart with ⟨c, rfl, hc⟩ | hescape
      · have hslash : c ≠ '\\' := by
          simp only [Pattern.isPlain, Bool.and_eq_true, bne_iff_ne] at hc
          exact hc.2
        rw [List.singleton_append, unescape_plain hslash, Option.map_eq_none_iff]
        simp
      · obtain ⟨slash, hslash, _, ⟨letter, rfl, -⟩, rfl⟩ := Language.mem_mul.mp hescape
        obtain rfl : slash = ['\\'] := hslash
        rw [List.append_assoc, List.singleton_append, List.singleton_append, unescape_escape,
          escaped_eq_none_iff]
        simp

theorem body_quoted {quote : Char} {parts : List (List Char)} {text : String}
    (h : text.toList = quoted quote parts) : body text = parts.flatten := by
  simp [body, quoted, h]

theorem ofString_quoted {s text : String} {parts : List (List Char)}
    (h : List.Forall₂ (WritesChar '"') s.toList parts) (htext : text.toList = quoted '"' parts) :
    ofString text = .ok (.str s) := by
  rw [ofString, body_quoted htext, unescape_flatten h]
  simp

theorem ofCharacter_quoted {c : Char} {text : String} {part : List Char} (h : WritesChar '\'' c part)
    (htext : text.toList = quoted '\'' [part]) : ofCharacter text = .ok (.char c) := by
  rw [ofCharacter, body_quoted htext, unescape_flatten (.cons h .nil)]

end Literal

/-! ## Cutting out -/

theorem escape_mem_element {quote letter : Char} (hline : Pattern.isInLine letter = true) :
    ['\\', letter] ∈ Pattern.element quote :=
  (Language.mem_add _ _ _).mpr <| .inr <| Language.append_mem_mul
    (show ['\\'] ∈ ({['\\']} : Language Char) from rfl) ⟨letter, rfl, hline⟩

theorem WritesChar.mem_element {quote c : Char} {part : List Char} (h : WritesChar quote c part) :
    part ∈ Pattern.element quote := by
  cases h with
  | plain hquote hslash =>
      exact (Language.mem_add _ _ _).mpr (.inl ⟨c, rfl, by simp [Pattern.isPlain, hquote, hslash]⟩)
  | escape hmem =>
      have hline : (escapes.all fun entry => Pattern.isInLine entry.1) = true := by decide
      exact escape_mem_element (List.all_eq_true.mp hline _ hmem)

theorem mem_element_of_writes {quote : Char} {cs : List Char} {parts : List (List Char)}
    (h : List.Forall₂ (WritesChar quote) cs parts) : ∀ part ∈ parts, part ∈ Pattern.element quote := by
  induction h with
  | nil => simp
  | cons hpart _ ih => exact List.forall_mem_cons.mpr ⟨hpart.mem_element, ih⟩

/-- A pattern that alone can match behind a quote wins there. -/
theorem Lexeme.wins_quoted {pattern : Pattern} {lexeme : Lexeme} {quote : Char} {cs : List Char}
    {n : Nat} (hmem : (pattern, lexeme) ∈ patterns)
    (honly : ∀ entry ∈ patterns, entry.1.first quote = true → entry = (pattern, lexeme))
    (hstarts : Pattern.Starts pattern.language (quote :: cs) n)
    (hunique : ∀ j, Pattern.Starts pattern.language (quote :: cs) j → j = n) :
    Wins patterns (quote :: cs) lexeme n := by
  have hentry : ∀ entry ∈ patterns, ∀ j, Pattern.Starts entry.1.language (quote :: cs) j →
      entry = (pattern, lexeme) := by
    intro entry hentry j hj
    obtain ⟨d, rest, htake, hd⟩ := Pattern.exists_first (patterns_spec _ hentry).1 hj.2
    cases j with
    | zero => cases htake
    | succ j =>
        obtain ⟨rfl, -⟩ := List.cons.inj htake
        exact honly entry hentry hd
  obtain ⟨earlier, later, hsplit, hearlier⟩ := List.eq_append_cons_of_mem hmem
  refine ⟨⟨earlier, pattern, later, hsplit, hstarts, fun entry he hn => ?_⟩, fun entry he j hj => ?_⟩
  · have hpatterns : entry ∈ patterns := by simp [hsplit, he]
    exact hearlier (hentry entry hpatterns n hn ▸ he)
  · obtain rfl := hentry entry he j hj
    exact (hunique j hj).le

theorem standsAs_string {parts : List (List Char)} (h : ∀ part ∈ parts, part ∈ Pattern.element '"') :
    StandsAs .stringLit (quoted '"' parts) := by
  have honly : ∀ entry ∈ Lexeme.patterns, entry.1.first '"' = true →
      entry = (.string, .token .stringLit) := by decide +kernel
  have hlanguage : quoted '"' parts ∈ Pattern.string.language :=
    Language.append_mem_mul (show ['"'] ∈ ({['"']} : Language Char) from rfl)
      (Language.append_mem_mul (Language.mem_kstar.mpr ⟨parts, rfl, h⟩)
        (show ['"'] ∈ ({['"']} : Language Char) from rfl))
  intro after _
  have hstarts := @Pattern.starts_of_append _ _ after hlanguage
  exact Lexeme.wins_quoted (by decide +kernel) honly hstarts fun j hj =>
    Pattern.starts_string_unique hj hstarts

theorem standsAs_character {part : List Char} (h : part ∈ Pattern.element '\'') :
    StandsAs .charLit (quoted '\'' [part]) := by
  have honly : ∀ entry ∈ Lexeme.patterns, entry.1.first '\'' = true →
      entry = (.character, .token .charLit) := by decide +kernel
  have hlanguage : quoted '\'' [part] ∈ Pattern.character.language := by
    rw [quoted, List.flatten_singleton]
    exact Language.append_mem_mul (show ['\''] ∈ ({['\'']} : Language Char) from rfl)
      (Language.append_mem_mul h (show ['\''] ∈ ({['\'']} : Language Char) from rfl))
  intro after _
  have hstarts := @Pattern.starts_of_append _ _ after hlanguage
  exact Lexeme.wins_quoted (by decide +kernel) honly hstarts fun j hj =>
    Pattern.starts_character_unique hj hstarts

/-- A text that stands for a token is lexed as that token. -/
theorem StandsAs.lex {kind : TokenKind} {text : String} (h : StandsAs kind text.toList) (file : FileId) :
    ∃ span last, lex text file = [⟨kind, text, span⟩, ⟨.eof, "", last⟩] := by
  obtain ⟨span, htokens⟩ := @Lexer.tokens_append (.ofText text) file 0 _ [] _ h (by rintro c ⟨⟩)
  rw [List.append_nil, String.ofList_toList, Lexer.tokens] at htokens
  exact ⟨span, _, htokens⟩

/-! ## Parsing -/

namespace Parse

variable {bound : Nat} {s : ParseState} {value : Literal}

/-- How a token of text is decoded. -/
def decode (kind : TokenKind) (text : String) : Except SyntaxError Literal :=
  if kind = .charLit then Literal.ofCharacter text else Literal.ofString text

/-- A token of text is passed and decoded. -/
theorem primary_text (hkind : s.current.kind = .stringLit ∨ s.current.kind = .charLit) :
    primary (bound + 1) s = (do
      let value ← literal (decode s.current.kind s.current.text) s.current.span
      newExpr (fun node => .literal node value) (s.current.span.merge (← previousSpan))) s.advance := by
  rw [primary, decode]
  rcases hkind with hkind | hkind
  · simp only [bind, Parse.bind, state, hkind]
    rfl
  · simp only [bind, Parse.bind, state, hkind]
    rfl

theorem primary_text_ok (hkind : s.current.kind = .stringLit ∨ s.current.kind = .charLit)
    (hvalue : decode s.current.kind s.current.text = .ok value) :
    primary (bound + 1) s = newExpr (fun node => .literal node value)
      (s.current.span.merge s.advance.previous.span) s.advance := by
  rw [primary_text hkind, hvalue]
  rfl

theorem primary_text_error {error : SyntaxError}
    (hkind : s.current.kind = .stringLit ∨ s.current.kind = .charLit)
    (hvalue : decode s.current.kind s.current.text = .error error) :
    primary (bound + 1) s = failAt error s.current.span s.advance := by
  rw [primary_text hkind, hvalue]
  rfl

/-- A token of text at the end of the input is a whole expression. -/
theorem expr_text_ok (hkind : s.current.kind = .stringLit ∨ s.current.kind = .charLit)
    (hvalue : decode s.current.kind s.current.text = .ok value) (hend : s.advance.kind = .eof) :
    expr .lowest (bound + 3) s = newExpr (fun node => .literal node value)
      (s.current.span.merge s.advance.previous.span) s.advance := by
  have hunary : UnaryOp.ofToken s.kind = none := by
    rcases hkind with hkind | hkind <;> rw [ParseState.kind, hkind] <;> rfl
  have hoperand : operand (bound + 2) s = newExpr (fun node => .literal node value)
      (s.current.span.merge s.advance.previous.span) s.advance := by
    rw [← @primary_text_ok bound s value hkind hvalue, operand]
    simp only [bind, Parse.bind, kind, hunary]
  have hrest (left : Expr) (s' : ParseState) (hend : s'.kind = .eof) :
      exprRest .lowest left (bound + 2) s' = .ok left s' := by
    rw [exprRest]
    simp only [bind, Parse.bind, kind, hend]
    rfl
  rw [expr]
  simp only [bind, Parse.bind, hoperand]
  exact hrest _ _ hend

end Parse

/-- A text that is one token is read as the literal that the token decodes to. -/
theorem runParse_text {kind : TokenKind} {text : String} {value : Literal} (h : StandsAs kind text.toList)
    (hkind : kind = .stringLit ∨ kind = .charLit) (hvalue : Parse.decode kind text = .ok value)
    (file : FileId) (nodes : NodeCount) : ∃ span, (runParse (Parse.expr .lowest) text file nodes).1 =
      .ok (.literal ⟨nodes.exprs, span⟩ value) := by
  obtain ⟨span, last, hlex⟩ := h.lex file
  let s : ParseState := {
    current := ⟨kind, text, span⟩
    ahead := [⟨.eof, "", last⟩]
    previous := ⟨.invalid, "", .dummy⟩
    nodes := nodes }
  have hstart : ParseState.start (lex text file) nodes = s := by
    rw [hlex]
    rcases hkind with rfl | rfl <;> rfl
  have hadvance : s.advance = { s with previous := s.current, current := ⟨.eof, "", last⟩, ahead := [] } := by
    rcases hkind with rfl | rfl <;> rfl
  have hexpr := @Parse.expr_text_ok 21 s value hkind hvalue (by rw [hadvance]; rfl)
  refine ⟨s.current.span.merge s.advance.previous.span, ?_⟩
  rw [runParse_eq, hstart]
  dsimp only
  rw [show s.stepBound = 21 + 3 from rfl, hexpr, hadvance]
  rfl

/-- The text of a string token is made of elements. -/
theorem exists_elements_of_mem_lex {source : String} {file : FileId} {t : Token} (ht : t ∈ lex source file)
    (hkind : t.kind = .stringLit) :
    ∃ parts, (∀ part ∈ parts, part ∈ Pattern.element '"') ∧ t.text.toList = quoted '"' parts := by
  obtain ⟨pattern, hmem, htext⟩ := exists_pattern_of_mem_lex ht (by simp [hkind]) (by simp [hkind])
    (by simp [hkind])
  have hpatterns : ∀ entry ∈ Lexeme.patterns, entry.2 = .token .stringLit → entry.1 = .string := by
    decide +kernel
  obtain rfl : pattern = .string := hpatterns _ hmem (by rw [hkind])
  obtain ⟨_, hopen, rest, hrest, heq⟩ := Language.mem_mul.mp htext
  obtain ⟨body, hbody, _, hclose, rfl⟩ := Language.mem_mul.mp hrest
  obtain ⟨parts, rfl, hparts⟩ := Language.mem_kstar.mp hbody
  cases hopen
  cases hclose
  exact ⟨parts, hparts, heq.symm⟩

/-- A string token is rejected, wherever the parser meets it, exactly if one of its elements is an
escape without a meaning. -/
theorem Parse.primary_string_fails_iff {bound : Nat} {s : ParseState} {parts : List (List Char)}
    (hkind : s.current.kind = .stringLit) (hparts : ∀ part ∈ parts, part ∈ Pattern.element '"')
    (htext : s.current.text.toList = quoted '"' parts) :
    (∃ s', primary (bound + 1) s = .failed s') ↔ HasUnknownEscape parts := by
  have hdecode : decode s.current.kind s.current.text = Literal.ofString s.current.text := by
    rw [decode, hkind]
    rfl
  rw [← Literal.unescape_eq_none_iff hparts, ← Literal.body_quoted htext]
  cases hvalue : Literal.unescape (Literal.body s.current.text) with
  | none =>
      have herror : Literal.ofString s.current.text = .error .invalidEscape := by
        rw [Literal.ofString, hvalue]
      rw [primary_text_error (.inl hkind) (hdecode.trans herror)]
      exact iff_of_true ⟨_, rfl⟩ rfl
  | some cs =>
      have hok : Literal.ofString s.current.text = .ok (.str (String.ofList cs)) := by
        rw [Literal.ofString, hvalue]
      rw [primary_text_ok (.inl hkind) (hdecode.trans hok)]
      exact iff_of_false (by rintro ⟨_, ⟨⟩⟩) nofun

/-- Text literals decode to what was encoded. A string or a character that is written between
quotes is lexed as one token and parsed to the literal of that string or character, and a string
token, wherever the parser meets it, is rejected exactly if one of its elements is an escape
without a meaning. -/
theorem text_literals_decode :
    (∀ s : String, (∃ parts, List.Forall₂ (WritesChar '"') s.toList parts) ∧
      ∀ (text : String) (parts : List (List Char)), List.Forall₂ (WritesChar '"') s.toList parts →
        text.toList = quoted '"' parts → ∀ file nodes,
          (lex text file).map Token.content = [(.stringLit, text), (.eof, "")] ∧
          ∃ span, (runParse (Parse.expr .lowest) text file nodes).1 =
            .ok (.literal ⟨nodes.exprs, span⟩ (.str s))) ∧
    (∀ c : Char, (∃ part, WritesChar '\'' c part) ∧
      ∀ (text : String) (part : List Char), WritesChar '\'' c part →
        text.toList = quoted '\'' [part] → ∀ file nodes,
          (lex text file).map Token.content = [(.charLit, text), (.eof, "")] ∧
          ∃ span, (runParse (Parse.expr .lowest) text file nodes).1 =
            .ok (.literal ⟨nodes.exprs, span⟩ (.char c))) ∧
    ∀ (source : String) (file : FileId), ∀ t ∈ lex source file, t.kind = .stringLit →
      (∃ parts, (∀ part ∈ parts, part ∈ Pattern.element '"') ∧ t.text.toList = quoted '"' parts) ∧
      ∀ parts, (∀ part ∈ parts, part ∈ Pattern.element '"') → t.text.toList = quoted '"' parts →
        ∀ (bound : Nat) (s : ParseState), s.current = t →
          ((∃ s', Parse.primary (bound + 1) s = .failed s') ↔ HasUnknownEscape parts) := by
  refine ⟨fun s => ⟨exists_forall₂_writes _ (.inl rfl) _, fun text parts h htext file nodes => ?_⟩,
    fun c => ⟨exists_writes _ c (.inr rfl), fun text part h htext file nodes => ?_⟩,
    fun source file t ht hkind => ⟨exists_elements_of_mem_lex ht hkind,
      fun parts hparts htext bound s hs => Parse.primary_string_fails_iff (hs ▸ hkind) hparts (hs ▸ htext)⟩⟩
  · have hstands : StandsAs .stringLit text.toList := htext ▸ standsAs_string (mem_element_of_writes h)
    obtain ⟨span, last, hlex⟩ := hstands.lex file
    exact ⟨by rw [hlex]; rfl, runParse_text hstands (.inl rfl) (Literal.ofString_quoted h htext) file nodes⟩
  · have hstands : StandsAs .charLit text.toList := htext ▸ standsAs_character h.mem_element
    obtain ⟨span, last, hlex⟩ := hstands.lex file
    exact ⟨by rw [hlex]; rfl,
      runParse_text hstands (.inr rfl) (Literal.ofCharacter_quoted h htext) file nodes⟩

/-- A quote, a backslash, line ends both ways and a wide character, and an escape without a
meaning behind a backslash that is escaped. -/
theorem mixed_text_literals_decode :
    (∃ span, (runParse (Parse.expr .lowest) "\"\\\"\\\\\n\\né\"" 0 {}).1 =
      .ok (.literal ⟨0, span⟩ (.str "\"\\\n\né"))) ∧
    (∃ span, (runParse (Parse.expr .lowest) "'\\''" 0 {}).1 = .ok (.literal ⟨0, span⟩ (.char '\''))) ∧
    ∃ t ∈ lex "\"\\\\\\q\"" 0, t.kind = .stringLit ∧
      ∀ bound s, s.current = t → ∃ s', Parse.primary (bound + 1) s = .failed s' := by
  obtain ⟨hstring, hcharacter, hrejected⟩ := text_literals_decode
  have hparts : List.Forall₂ (WritesChar '"') ['"', '\\', '\n', '\n', 'é']
      [['\\', '"'], ['\\', '\\'], ['\n'], ['\\', 'n'], ['é']] :=
    .cons (.escape (by simp [escapes])) <| .cons (.escape (by simp [escapes])) <|
      .cons (.plain (by decide) (by decide)) <| .cons (.escape (by simp [escapes])) <|
        .cons (.plain (by decide) (by decide)) .nil
  have hlex : (⟨.stringLit, "\"\\\\\\q\"", ⟨0, 0, 6, 1, 1⟩⟩ : Token) ∈ lex "\"\\\\\\q\"" 0 := by
    decide +kernel
  have helements : ∀ part ∈ [['\\', '\\'], ['\\', 'q']], part ∈ Pattern.element '"' :=
    List.forall_mem_cons.mpr ⟨escape_mem_element rfl, List.forall_mem_singleton.mpr (escape_mem_element rfl)⟩
  refine ⟨((hstring "\"\\\n\né").2 _ _ hparts rfl 0 {}).2,
    ((hcharacter '\'').2 _ ['\\', '\''] ?_ rfl 0 {}).2,
    _, hlex, rfl, fun bound s hs => ?_⟩
  · exact .escape (by simp [escapes])
  · exact ((hrejected _ 0 _ hlex rfl).2 _ helements rfl bound s hs).mpr ⟨'q', by simp, by decide⟩

end Stela
