import Stela.Proofs.Token.Partition

/-!
# Tokens do not depend on what is around them

A token that was cut out of a text is cut out again wherever its text stands in
front of a space or at the end of the input. Only strings, character literals
and comments go on behind a space. A literal that could go on does so from its
opening quote, and then the token is a literal of this sort already and ends
with its own closing quote.
-/

namespace Stela

open Lexer

namespace Pattern

variable {L M : Language Char} {p q : Char → Bool} {w after cs : List Char} {k n : Nat}

/-- Whether a word is a prefix is decided by the characters of that prefix. -/
theorem starts_append (h : k ≤ w.length) : Starts L (w ++ after) k ↔ Starts L w k := by
  unfold Starts
  rw [List.take_append_of_le_length h, List.length_append]
  exact and_congr_left fun _ => ⟨fun _ => h, fun h => by omega⟩

theorem starts_length : Starts L w w.length ↔ w ∈ L := by
  rw [Starts, List.take_length]
  exact and_iff_right le_rfl

/-! ## First characters -/

/-- The characters that the texts of a pattern begin with. -/
def first : Pattern → Char → Bool
  | .exact text, c => text.head? == some c
  | .decimal, c | .real, c => isDecimalDigit c
  | .hexadecimal, c => c == '0'
  | .string, c => c == '"'
  | .character, c => c == '\''
  | .identifier, c => isIdentStart c
  | .lineComment, c | .blockComment, c => c == '/'

theorem exists_head_of_run (h : w ∈ run p q) : ∃ c rest, w = c :: rest ∧ p c = true := by
  obtain ⟨_, ⟨c, rfl, hc⟩, rest, -, rfl⟩ := Language.mem_mul.mp h
  exact ⟨c, rest, rfl, hc⟩

theorem exists_head_of_mul (hL : ∀ w ∈ L, ∃ c rest, w = c :: rest ∧ p c = true) (h : w ∈ L * M) :
    ∃ c rest, w = c :: rest ∧ p c = true := by
  obtain ⟨front, hfront, back, -, rfl⟩ := Language.mem_mul.mp h
  obtain ⟨c, rest, rfl, hc⟩ := hL front hfront
  exact ⟨c, rest ++ back, rfl, hc⟩

theorem exists_head_of_text_mul {c : Char} {text : List Char} (h : w ∈ {c :: text} * M) :
    ∃ d rest, w = d :: rest ∧ (d == c) = true :=
  exists_head_of_mul (L := {c :: text}) (fun _ hw => ⟨c, text, hw, by simp⟩) h

theorem exists_first {pattern : Pattern} (hpattern : pattern ≠ .exact [])
    (h : w ∈ pattern.language) : ∃ c rest, w = c :: rest ∧ pattern.first c = true := by
  cases pattern with
  | exact text =>
      obtain rfl : w = text := h
      cases w with
      | nil => exact absurd rfl hpattern
      | cons c rest => exact ⟨c, rest, rfl, by simp [first]⟩
  | decimal | real => exact exists_head_of_mul (fun _ => exists_head_of_run) h
  | identifier => exact exists_head_of_run h
  | blockComment => exact ⟨'/', ['*'], h, rfl⟩
  | hexadecimal | string | character | lineComment => exact exists_head_of_text_mul h

/-! ## Spaces -/

/-- No text of the pattern has a space in it. -/
def isSpaceless : Pattern → Bool
  | .exact text => !text.contains ' '
  | .string | .character | .lineComment => false
  | _ => true

/-- No text of the language has a space in it. -/
def Spaceless (L : Language Char) : Prop := ∀ w ∈ L, ' ' ∉ w

theorem spaceless_one (hp : p ' ' = false) : Spaceless (one p) := by
  rintro _ ⟨c, rfl, hc⟩ hmem
  obtain rfl := List.mem_singleton.mp hmem
  rw [hp] at hc
  cases hc

theorem spaceless_text {text : List Char} (h : ' ' ∉ text) : Spaceless {text} := by
  rintro w hw
  obtain rfl : w = text := hw
  exact h

theorem spaceless_mul (hL : Spaceless L) (hM : Spaceless M) : Spaceless (L * M) := by
  intro w hw hmem
  obtain ⟨front, hfront, back, hback, rfl⟩ := Language.mem_mul.mp hw
  exact (List.mem_append.mp hmem).elim (hL front hfront) (hM back hback)

theorem spaceless_star (hL : Spaceless L) : Spaceless (KStar.kstar L) := by
  intro w hw hmem
  obtain ⟨parts, rfl, hparts⟩ := Language.mem_kstar.mp hw
  obtain ⟨part, hpart, hmem⟩ := List.mem_flatten.mp hmem
  exact hL part (hparts part hpart) hmem

theorem spaceless_maybe (hL : Spaceless L) : Spaceless (maybe L) := by
  rintro w hw hmem
  rcases (Language.mem_add _ _ _).mp hw with hw | hw
  · obtain rfl := (Language.mem_one _).mp hw
    cases hmem
  · exact hL w hw hmem

theorem spaceless_run (hp : p ' ' = false) (hq : q ' ' = false) : Spaceless (run p q) :=
  spaceless_mul (spaceless_one hp) (spaceless_star (spaceless_one hq))

theorem spaceless_language {pattern : Pattern} (h : pattern.isSpaceless = true) :
    Spaceless pattern.language := by
  have hdigits : Spaceless digitGroup := spaceless_run (by decide) (by decide)
  have hsuffix : Spaceless (maybe (one isSuffix)) := spaceless_maybe (spaceless_one (by decide))
  cases pattern with
  | exact text => exact spaceless_text (by simpa [isSpaceless] using h)
  | decimal => exact spaceless_mul hdigits hsuffix
  | hexadecimal =>
      exact spaceless_mul (spaceless_text (by decide))
        (spaceless_mul (spaceless_run (by decide) (by decide)) hsuffix)
  | real =>
      have hexponent : Spaceless exponentPart :=
        spaceless_mul (spaceless_one (by decide)) (spaceless_mul
          (spaceless_maybe (spaceless_one (by decide))) (spaceless_run (by decide) (by decide)))
      exact spaceless_mul hdigits (spaceless_mul (spaceless_text (by decide))
        (spaceless_mul hdigits (spaceless_maybe hexponent)))
  | identifier => exact spaceless_run (by decide) (by decide)
  | blockComment => exact spaceless_text (by decide)
  | string | character | lineComment => cases h

/-! ## Quotes -/

theorem starts_quoted {quote : Char} (h : Starts ({[quote]} * (L * {[quote]})) cs k) :
    ∃ rest i more, cs = quote :: rest ∧ Starts L rest i ∧ rest.drop i = quote :: more ∧
      k = i + 2 := by
  obtain ⟨rest, j, rfl, hj, rfl⟩ := starts_text_mul.mp h
  obtain ⟨i, l, hi, hl, rfl⟩ := starts_mul.mp hj
  obtain ⟨rfl, more, hmore⟩ := starts_text.mp hl
  exact ⟨rest, i, more, rfl, hi, hmore, by simp only [List.length_singleton]; omega⟩

/-- A string ends with the first quote that is not escaped. -/
theorem starts_string_unique {j : Nat} (hk : Starts (language .string) cs k)
    (hj : Starts (language .string) cs j) : k = j := by
  have hlength {rest more : List Char} {i : Nat} (hi : Starts (KStar.kstar (element '"')) rest i)
      (hmore : rest.drop i = '"' :: more) : stringElements rest = i := by
    rw [stringElements_of_starts_star hi, hmore, stringElements, Nat.add_zero]
  obtain ⟨rest, i, more, rfl, hi, hmore, rfl⟩ := starts_quoted hk
  obtain ⟨_, i', more', hrest, hi', hmore', rfl⟩ := starts_quoted hj
  obtain rfl := (List.cons.inj hrest).2
  rw [← hlength hi hmore, ← hlength hi' hmore']

theorem starts_character_unique {j : Nat} (hk : Starts (language .character) cs k)
    (hj : Starts (language .character) cs j) : k = j := by
  obtain ⟨rest, i, more, rfl, hi, -, rfl⟩ := starts_quoted hk
  obtain ⟨_, i', more', hrest, hi', -, rfl⟩ := starts_quoted hj
  obtain rfl := (List.cons.inj hrest).2
  rw [starts_element_unique hi hi']

end Pattern

/-! ## Words in front of a space -/

/-- The text is empty or begins with a space. -/
def SpaceOrEnd (after : List Char) : Prop := ∀ c ∈ after.head?, c = ' '

namespace Lexeme

open Pattern

variable {w after after' cs : List Char} {kind : TokenKind} {lexeme lexeme' : Lexeme} {n n' : Nat}

/-- What the patterns have to do with spaces, quotes and slashes. -/
theorem patterns_spec : ∀ entry ∈ patterns, entry.1 ≠ .exact [] ∧
    (entry.1.isSpaceless = true ∨ entry.1 = .string ∨ entry.1 = .character ∨
      entry.1 = .lineComment) ∧
    (entry.1.first '"' = true → entry.1 = .string) ∧
    (entry.1.first '\'' = true → entry.1 = .character) ∧
    (entry.1.first '/' = true → entry.1 = .exact ['/'] ∨ entry.1 = .exact ['/', '='] ∨
      entry.2 = .lineComment ∨ entry.2 = .blockComment) ∧
    [' ', '\t', '\r', '\n'].any entry.1.first = false := by decide +kernel

/-- A prefix that goes beyond a word in front of a space. -/
theorem exists_take_eq (rest : List Char) {j : Nat} (h : w.length < j) :
    ∃ more, (w ++ ' ' :: rest).take j = w ++ ' ' :: more := by
  obtain ⟨m, hm⟩ := Nat.exists_eq_add_one.mpr (Nat.sub_pos_of_lt h)
  refine ⟨rest.take m, ?_⟩
  rw [List.take_append, List.take_of_length_le h.le, hm, List.take_succ_cons]

/-- No pattern goes on behind a space that follows the text of a token. -/
theorem le_length_of_starts_space {entry : Pattern × Lexeme} {pattern : Pattern}
    {rest : List Char} {j : Nat} (hpattern : (pattern, .token kind) ∈ patterns)
    (hw : w ∈ pattern.language) (hentry : entry ∈ patterns)
    (hj : Starts entry.1.language (w ++ ' ' :: rest) j) : j ≤ w.length := by
  by_contra hlt
  obtain ⟨hempty, -, hstring, hcharacter, hslash, -⟩ := patterns_spec _ hpattern
  obtain ⟨hempty', hspaces, -⟩ := patterns_spec _ hentry
  obtain ⟨c, front, rfl, hc⟩ := exists_first hempty hw
  obtain ⟨more, hmore⟩ := exists_take_eq rest (Nat.lt_of_not_le hlt)
  have hword : Starts pattern.language (c :: front ++ ' ' :: rest) (c :: front).length :=
    starts_of_append hw
  have hmem := hj.2
  rw [hmore] at hmem
  obtain ⟨d, tail, htail, hd⟩ := exists_first hempty' hmem
  obtain rfl : c = d := (List.cons.inj htail).1
  -- Literals and comments can go on behind a space, each from a first character of its own.
  rcases hspaces with hspaces | hliteral | hliteral | hcomment
  · exact spaceless_language hspaces _ hmem (by simp)
  · rw [hliteral] at hd hj
    obtain rfl : c = '"' := by simpa [first] using hd
    obtain rfl : pattern = .string := hstring hc
    exact hlt (starts_string_unique hj hword).le
  · rw [hliteral] at hd hj
    obtain rfl : c = '\'' := by simpa [first] using hd
    obtain rfl : pattern = .character := hcharacter hc
    exact hlt (starts_character_unique hj hword).le
  · rw [hcomment] at hd hmem
    obtain rfl : c = '/' := by simpa [first] using hd
    obtain ⟨slashes, hslashes, body, -, hbody⟩ := Language.mem_mul.mp hmem
    obtain rfl : slashes = ['/', '/'] := hslashes
    have hfront : front.head? = some '/' := by
      cases front with
      | nil => simp at hbody
      | cons e front =>
          obtain ⟨-, he⟩ := List.cons.inj hbody
          rw [← (List.cons.inj he).1]
          rfl
    rcases hslash hc with rfl | rfl | hkind | hkind
    · obtain rfl : front = [] := (List.cons.inj hw).2
      cases hfront
    · obtain rfl : front = ['='] := (List.cons.inj hw).2
      cases hfront
    · cases hkind
    · cases hkind

/-- A token wins in front of a space and at the end of the input as it did where it was cut out. -/
theorem Wins.before_space (h : Wins patterns (w ++ after) (.token kind) w.length)
    (hspace : SpaceOrEnd after') : Wins patterns (w ++ after') (.token kind) w.length := by
  obtain ⟨earlier, pattern, later, hsplit, hstarts, hearlier⟩ := h.first
  have hword : Starts pattern.language w w.length := (starts_append le_rfl).mp hstarts
  refine ⟨⟨earlier, pattern, later, hsplit, (starts_append le_rfl).mpr hword,
    fun entry hentry hstarts => hearlier entry hentry
      ((starts_append le_rfl).mpr ((starts_append le_rfl).mp hstarts))⟩,
    fun entry hentry j hj => ?_⟩
  cases after' with
  | nil => simpa using hj.1
  | cons c rest =>
      obtain rfl := hspace c rfl
      have hmem : (pattern, .token kind) ∈ patterns := by rw [hsplit]; simp
      exact le_length_of_starts_space hmem (starts_length.mp hword) hentry hj

/-- Only one lexeme wins. -/
theorem Wins.unique {entries : List (Pattern × Lexeme)} (h : Wins entries cs lexeme n)
    (h' : Wins entries cs lexeme' n') : lexeme = lexeme' ∧ n = n' := by
  obtain ⟨earlier, pattern, later, rfl, hstarts, hearlier⟩ := h.first
  obtain ⟨earlier', pattern', later', hsplit, hstarts', hearlier'⟩ := h'.first
  obtain rfl : n = n' := Nat.le_antisymm
    (h'.longest (pattern, lexeme) (by simp) n hstarts)
    (h.longest (pattern', lexeme') (by rw [hsplit]; simp) n' hstarts')
  refine ⟨?_, rfl⟩
  rcases List.append_eq_append_iff.mp hsplit with ⟨between, hlist, hrest⟩ | ⟨between, hlist, hrest⟩
  · cases between with
    | nil => exact congrArg Prod.snd (List.cons.inj hrest).1
    | cons entry between =>
        obtain ⟨rfl, -⟩ := List.cons.inj hrest
        exact absurd hstarts (hearlier' (pattern, lexeme) (by rw [hlist]; simp))
  · cases between with
    | nil => exact (congrArg Prod.snd (List.cons.inj hrest).1).symm
    | cons entry between =>
        obtain ⟨rfl, -⟩ := List.cons.inj hrest
        exact absurd hstarts' (hearlier (pattern', lexeme') (by rw [hlist]; simp))

theorem longest_eq_some (h : Wins patterns cs lexeme n) : longest cs = some (lexeme, n) := by
  have hspec := longest_spec cs
  cases hlongest : longest cs with
  | none =>
      rw [hlongest] at hspec
      obtain ⟨pattern, hmem, hstarts⟩ := h.exists_longest
      exact absurd hstarts.1 (hspec _ hmem n)
  | some found =>
      rw [hlongest] at hspec
      obtain ⟨rfl, rfl⟩ := h.unique hspec
      rfl

/-- The text of a token does not begin with a blank. -/
theorem Wins.exists_head (h : Wins patterns (w ++ after) (.token kind) w.length) :
    ∃ c rest, w = c :: rest ∧ isBlank c = false := by
  obtain ⟨pattern, hmem, hstarts, -⟩ := h.exists_longest
  obtain ⟨hempty, -, -, -, -, hblank⟩ := patterns_spec _ hmem
  obtain ⟨c, rest, rfl, hc⟩ :=
    exists_first hempty (starts_length.mp ((starts_append le_rfl).mp hstarts))
  refine ⟨c, rest, rfl, Bool.eq_false_iff.mpr fun hc' => ?_⟩
  have hmem : c ∈ [' ', '\t', '\r', '\n'] := by simpa [isBlank, or_assoc] using hc'
  exact List.any_eq_false.mp hblank c hmem hc

end Lexeme

/-! ## Lexing words -/

/-- What a token is, wherever it stands. -/
def Token.content (t : Token) : TokenKind × String := (t.kind, t.text)

/-- The text is the text of a token of this kind wherever it stands in front of a space or at the
end of the input. -/
def StandsAs (kind : TokenKind) (w : List Char) : Prop :=
  ∀ after, SpaceOrEnd after → Lexeme.Wins Lexeme.patterns (w ++ after) (.token kind) w.length

namespace Lexer

variable {lines : Lines} {file : FileId} {offset : Nat} {w after : List Char} {kind : TokenKind}

theorem firstPiece_of_wins {c : Char} {cs : List Char} (hblank : isBlank c = false)
    (h : Lexeme.Wins Lexeme.patterns (c :: cs ++ after) (.token kind) (c :: cs).length) :
    firstPiece c (cs ++ after) = (.token kind, cs.length) := by
  have hlongest := Lexeme.longest_eq_some h
  rw [List.cons_append] at hlongest
  simp [firstPiece, hblank, hlongest]

theorem tokens_append (h : StandsAs kind w) (hspace : SpaceOrEnd after) :
    ∃ span, tokens lines file offset (w ++ after) =
      ⟨kind, String.ofList w, span⟩ :: tokens lines file (offset + utf8Length w) after := by
  have hwins := h after hspace
  obtain ⟨c, cs, rfl, hblank⟩ := hwins.exists_head
  have hpiece := firstPiece_of_wins hblank hwins
  rw [List.cons_append, tokens]
  simp only [hpiece, List.take_left, List.drop_left]
  exact ⟨_, rfl⟩

theorem tokens_space (rest : List Char) :
    tokens lines file offset (' ' :: rest) =
      tokens lines file (offset + utf8Length [' ']) rest := by
  have hpiece : firstPiece ' ' rest = (.skipped, 0) := rfl
  rw [tokens]
  simp only [hpiece, List.take_zero, List.drop_zero]

/-- Words with single spaces in between, and maybe one at the end, are read one by one. -/
theorem content_tokens_intercalate {words : List Token} {tail : List Char}
    (h : ∀ t ∈ words, StandsAs t.kind t.text.toList) (htail : tail = [] ∨ tail = [' ']) :
    (tokens lines file offset ([' '].intercalate (words.map fun t => t.text.toList) ++ tail)).map
      Token.content = words.map Token.content ++ [(.eof, "")] := by
  have hspace : SpaceOrEnd tail := by
    rcases htail with rfl | rfl
    · rintro c ⟨⟩
    · rintro c ⟨⟩
      rfl
  have hend (offset : Nat) :
      (tokens lines file offset tail).map Token.content = [(.eof, "")] := by
    rcases htail with rfl | rfl
    · simp [tokens, Token.content]
    · simp [tokens_space, tokens, Token.content]
  induction words generalizing offset with
  | nil => exact hend offset
  | cons t rest ih =>
      obtain ⟨ht, hrest⟩ := List.forall_mem_cons.mp h
      cases rest with
      | nil =>
          obtain ⟨span, htokens⟩ := @tokens_append lines file offset _ _ _ ht hspace
          simp [htokens, hend, Token.content]
      | cons t' rest =>
          have hgap : SpaceOrEnd
              (' ' :: ([' '].intercalate ((t' :: rest).map fun t => t.text.toList) ++ tail)) := by
            rintro c ⟨⟩
            rfl
          obtain ⟨span, htokens⟩ := @tokens_append lines file offset _ _ _ ht hgap
          have hsplit : [' '].intercalate ((t :: t' :: rest).map fun t => t.text.toList) ++ tail =
              t.text.toList ++
                ' ' :: ([' '].intercalate ((t' :: rest).map fun t => t.text.toList) ++ tail) := by
            simp [List.intercalate_cons_cons]
          rw [hsplit, htokens, tokens_space, List.map_cons, ih hrest]
          simp [Token.content]

end Lexer

/-! ## Lexing the texts of tokens again -/

theorem TokenKind.Reads.standsAs {kind : TokenKind} {w after : List Char}
    (h : kind.Reads w after) (hinvalid : kind ≠ .invalid) (hunclosed : kind ≠ .unclosedComment) :
    kind ≠ .eof ∧ StandsAs kind w := by
  have hwins := h.wins hinvalid hunclosed
  exact ⟨hwins.1, fun _ => hwins.2.before_space⟩

/-- Where a text is cut without errors, the texts of its tokens stand for these tokens. -/
theorem Cuts.exists_words {file : FileId} {before text : List Char} {tokens : List Token}
    (h : Cuts file before text tokens)
    (hclean : ∀ t ∈ tokens, t.kind ≠ .invalid ∧ t.kind ≠ .unclosedComment) :
    ∃ words span, tokens = words ++ [⟨.eof, "", span⟩] ∧
      ∀ t ∈ words, t.kind ≠ .eof ∧ StandsAs t.kind t.text.toList := by
  induction h with
  | last hgap => exact ⟨[], _, rfl, by simp⟩
  | @token before gap lexeme after t tokens hgap ht hrest ih =>
      obtain ⟨⟨hinvalid, hunclosed⟩, hclean⟩ := List.forall_mem_cons.mp hclean
      obtain ⟨words, span, rfl, hwords⟩ := ih hclean
      refine ⟨t :: words, span, rfl, List.forall_mem_cons.mpr ⟨?_, hwords⟩⟩
      rw [ht.text, String.toList_ofList]
      exact ht.kind.standsAs hinvalid hunclosed

/-- An empty text at the end of a list of texts adds a space. -/
theorem intercalate_concat_nil (words : List (List Char)) :
    ∃ tail, (tail = [] ∨ tail = [' ']) ∧
      [' '].intercalate (words ++ [[]]) = [' '].intercalate words ++ tail := by
  induction words with
  | nil => exact ⟨[], .inl rfl, rfl⟩
  | cons w rest ih =>
      cases rest with
      | nil => exact ⟨[' '], .inr rfl, by simp [List.intercalate_cons_cons]⟩
      | cons w' rest =>
          obtain ⟨tail, htail, heq⟩ := ih
          refine ⟨tail, htail, ?_⟩
          simp only [List.cons_append] at heq
          simp only [List.cons_append, List.intercalate_cons_cons, heq, List.append_assoc]

/-- Tokens do not depend on the layout. If a text has no errors, its token texts with single
spaces in between give the same tokens, with or without the empty text of the end of the input,
and each token text by itself gives its token. -/
theorem lex_layout_independent (source : String) (file file' : FileId)
    (hclean : ∀ t ∈ lex source file, t.kind ≠ .invalid ∧ t.kind ≠ .unclosedComment) :
    (lex (" ".intercalate (((lex source file).filter (·.kind ≠ .eof)).map Token.text)) file').map
        Token.content = (lex source file).map Token.content ∧
      (lex (" ".intercalate ((lex source file).map Token.text)) file').map Token.content =
        (lex source file).map Token.content ∧
      ∀ t ∈ lex source file, t.kind ≠ .eof →
        (lex t.text file').map Token.content = [t.content, (.eof, "")] := by
  obtain ⟨words, span, hlex, hwords⟩ := (cuts_lex source file).exists_words hclean
  have hstands : ∀ t ∈ words, StandsAs t.kind t.text.toList := fun t ht => (hwords t ht).2
  have hfilter : (lex source file).filter (·.kind ≠ .eof) = words := by
    rw [hlex, List.filter_append, List.filter_eq_self.mpr fun t ht => by simp [(hwords t ht).1]]
    simp
  have hcontent : (lex source file).map Token.content = words.map Token.content ++ [(.eof, "")] := by
    rw [hlex, List.map_append]
    rfl
  refine ⟨?_, ?_, fun t ht heof => ?_⟩
  · rw [hfilter, hcontent, lex, String.toList_intercalate, List.map_map]
    have h := @Lexer.content_tokens_intercalate
      (Lines.ofText (" ".intercalate (words.map Token.text))) file' 0 _ _ hstands (.inl rfl)
    rwa [List.append_nil] at h
  · obtain ⟨tail, htail, heq⟩ := intercalate_concat_nil (words.map fun t => t.text.toList)
    rw [hcontent, lex, String.toList_intercalate, hlex]
    have hmap : ((words ++ [(⟨.eof, "", span⟩ : Token)]).map Token.text).map String.toList =
        (words.map fun t => t.text.toList) ++ [[]] := by simp
    rw [hmap]
    exact heq ▸ Lexer.content_tokens_intercalate hstands htail
  · have hmem : t ∈ words := hfilter ▸ List.mem_filter.mpr ⟨ht, by simpa using heof⟩
    have hstands : ∀ t' ∈ [t], StandsAs t'.kind t'.text.toList := by simpa using hstands t hmem
    have h := @Lexer.content_tokens_intercalate (Lines.ofText t.text) file' 0 _ _ hstands (.inl rfl)
    simpa [lex] using h

/-- Adjacent tokens, a comment between tokens, a number that ends before an exponent without
digits, and literals with quotes, spaces and comment marks in them. -/
def adjacentTokens : String := "x=\"a // \\\" b\"+'\\''/*c*/1.5e//d\n.f"

theorem adjacentTokens_layout_independent :
    (∀ t ∈ lex adjacentTokens 0, t.kind ≠ .invalid ∧ t.kind ≠ .unclosedComment) ∧
    (lex "x = \"a // \\\" b\" + '\\'' 1.5 e . f" 1).map Token.content =
      (lex adjacentTokens 0).map Token.content := by
  have hclean : ∀ t ∈ lex adjacentTokens 0, t.kind ≠ .invalid ∧ t.kind ≠ .unclosedComment := by
    have hall : ((lex adjacentTokens 0).all fun t =>
      t.kind ≠ .invalid ∧ t.kind ≠ .unclosedComment) = true := by decide +kernel
    simpa using hall
  have hjoin : " ".intercalate (((lex adjacentTokens 0).filter (·.kind ≠ .eof)).map Token.text) =
      "x = \"a // \\\" b\" + '\\'' 1.5 e . f" := by decide +kernel
  obtain ⟨h, -⟩ := lex_layout_independent adjacentTokens 0 1 hclean
  rw [hjoin] at h
  exact ⟨hclean, h⟩

end Stela
