import Mathlib.Computability.Language
import Mathlib.Order.CompletePartialOrder
import Stela.Syntax.Parse
import Stela.Syntax.Literal

/-!
# Words

A word is what a token says, without its place and its spelling: a mark that is
always written alike, a name, or the value of a literal. A set of sequences of
words is a language, and a stretch of tokens spells a language if what the
tokens say is a sequence of the language.
-/

namespace Stela

inductive Word where
  | mark (kind : TokenKind)
  | name (text : String)
  | literal (value : Literal)
deriving DecidableEq

namespace TokenKind

/-- Whether all tokens of the kind say the same. -/
def isMark : TokenKind → Bool
  | .ident | .intLit | .realLit | .stringLit | .charLit => false
  | .unclosedComment | .invalid | .eof => false
  | _ => true

end TokenKind

/-- What a token says. The end of the input, text that starts no token and a literal without a value
say nothing. -/
def Token.word? (t : Token) : Option Word :=
  match t.kind with
  | .ident => some (.name t.text)
  | .intLit => (Literal.ofInteger t.text).toOption.map .literal
  | .realLit => some (.literal (.real t.text))
  | .charLit => (Literal.ofCharacter t.text).toOption.map .literal
  | .stringLit => (Literal.ofString t.text).toOption.map .literal
  | .unclosedComment | .invalid | .eof => none
  | kind => some (.mark kind)

namespace Token

variable {t : Token} {kind : TokenKind} {text : String}

theorem word?_of_mark (hmark : kind.isMark = true) (h : t.kind = kind) :
    t.word? = some (.mark kind) := by
  unfold word?
  subst h
  cases hkind : t.kind <;> simp [hkind, TokenKind.isMark] at hmark ⊢

theorem word?_of_ident (h : t.kind = .ident) : t.word? = some (.name t.text) := by
  simp [word?, h]

theorem word?_of_real (h : t.kind = .realLit) : t.word? = some (.literal (.real t.text)) := by
  simp [word?, h]

/-- A token says a mark only if it is of that kind. -/
theorem kind_of_mark (h : t.word? = some (.mark kind)) : t.kind = kind := by
  unfold word? at h
  cases hkind : t.kind <;> simp [hkind] at h <;> exact h

theorem kind_of_name (h : t.word? = some (.name text)) : t.kind = .ident ∧ t.text = text := by
  unfold word? at h
  cases hkind : t.kind <;> simp [hkind] at h
  exact ⟨rfl, h⟩

/-- A token that says a literal is decoded to it. -/
theorem literal_cases {value : Literal} (h : t.word? = some (.literal value)) :
    t.kind = .intLit ∧ (Literal.ofInteger t.text).toOption = some value ∨
      t.kind = .realLit ∧ value = .real t.text ∨
      t.kind = .charLit ∧ (Literal.ofCharacter t.text).toOption = some value ∨
      t.kind = .stringLit ∧ (Literal.ofString t.text).toOption = some value := by
  unfold word? at h
  cases hkind : t.kind <;> simp [hkind] at h ⊢
  case intLit => exact h
  case realLit => exact h.symm
  case charLit => exact h
  case stringLit => exact h

/-- A token that is part of the language. -/
def IsValid (t : Token) : Prop := t.kind ≠ .invalid ∧ t.kind ≠ .unclosedComment

/-- A token that says something is part of the language. -/
theorem isValid_of_word? (h : t.word?.isSome = true) : t.IsValid := by
  constructor
  · intro hkind
    simp [word?, hkind] at h
  · intro hkind
    simp [word?, hkind] at h

/-- The end of the input says nothing. -/
theorem kind_ne_eof (h : t.word?.isSome = true) : t.kind ≠ .eof := by
  intro hkind
  simp [word?, hkind] at h

end Token

namespace Phrase

/-- The language of a single word. -/
def word (w : Word) : Language Word := {[w]}

def mark (kind : TokenKind) : Language Word := word (.mark kind)

@[simp] theorem mem_word {w : Word} {ws : List Word} : ws ∈ word w ↔ ws = [w] := Iff.rfl

@[simp] theorem mem_mark {kind : TokenKind} {ws : List Word} : ws ∈ mark kind ↔ ws = [.mark kind] :=
  Iff.rfl

/-- Sequences separated by commas. A comma may follow the last one. -/
def commas : List (Language Word) → Language Word
  | [] => 1
  | first :: rest => first * ((if rest.isEmpty then 1 else 0) + mark .comma * commas rest)

/-- An optional part behind a mark. -/
def behind (kind : TokenKind) : Option (Language Word) → Language Word
  | none => 1
  | some part => mark kind * part

end Phrase

/-! ## Tokens that spell a language -/

/-- The tokens in front of `rest` say words of the language. -/
def Spells (L : Language Word) (tokens rest : List Token) : Prop :=
  ∃ read ws, tokens = read ++ rest ∧ read.map Token.word? = ws.map some ∧ ws ∈ L

section Spells

open Phrase

variable {L M : Language Word} {tokens rest : List Token}

theorem Spells.mono (h : Spells L tokens rest) (hle : L ≤ M) : Spells M tokens rest := by
  obtain ⟨read, ws, htokens, hread, hws⟩ := h
  exact ⟨read, ws, htokens, hread, hle hws⟩

theorem spells_one : Spells 1 tokens rest ↔ tokens = rest := by
  constructor
  · rintro ⟨read, ws, rfl, hread, rfl⟩
    simpa using hread
  · rintro rfl
    exact ⟨[], [], rfl, rfl, Language.nil_mem_one⟩

theorem not_spells_zero : ¬Spells 0 tokens rest := by
  rintro ⟨read, ws, _, _, hws⟩
  exact Language.notMem_zero ws hws

theorem spells_word {w : Word} :
    Spells (word w) tokens rest ↔ ∃ token, tokens = token :: rest ∧ token.word? = some w := by
  constructor
  · rintro ⟨read, ws, rfl, hread, rfl⟩
    obtain ⟨token, rfl, htoken⟩ := List.map_eq_singleton_iff.mp hread
    exact ⟨token, rfl, htoken⟩
  · rintro ⟨token, rfl, htoken⟩
    exact ⟨[token], [w], rfl, by simp [htoken], rfl⟩

theorem spells_mul :
    Spells (L * M) tokens rest ↔ ∃ middle, Spells L tokens middle ∧ Spells M middle rest := by
  constructor
  · rintro ⟨read, ws, rfl, hread, hws⟩
    obtain ⟨first, hfirst, last, hlast, rfl⟩ := Language.mem_mul.mp hws
    rw [List.map_append] at hread
    obtain ⟨before, behind, rfl, hbefore, hbehind⟩ := List.map_eq_append_iff.mp hread
    exact ⟨behind ++ rest, ⟨before, first, List.append_assoc .., hbefore, hfirst⟩,
      behind, last, rfl, hbehind, hlast⟩
  · rintro ⟨middle, ⟨before, first, rfl, hbefore, hfirst⟩, behind, last, rfl, hbehind, hlast⟩
    exact ⟨before ++ behind, first ++ last, (List.append_assoc ..).symm,
      by rw [List.map_append, List.map_append, hbefore, hbehind],
      Language.append_mem_mul hfirst hlast⟩

theorem spells_add : Spells (L + M) tokens rest ↔ Spells L tokens rest ∨ Spells M tokens rest := by
  constructor
  · rintro ⟨read, ws, htokens, hread, hws⟩
    rcases (Language.mem_add L M ws).mp hws with hws | hws
    · exact .inl ⟨read, ws, htokens, hread, hws⟩
    · exact .inr ⟨read, ws, htokens, hread, hws⟩
  · rintro (h | h)
    · exact h.mono (le_add_of_nonneg_right bot_le)
    · exact h.mono (le_add_of_nonneg_left bot_le)

end Spells

end Stela
