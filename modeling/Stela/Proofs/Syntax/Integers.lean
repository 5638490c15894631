import Mathlib.Data.Nat.Digits.Defs
import Mathlib.Tactic.IntervalCases
import Stela.Proofs.Token.Partition
import Stela.Syntax.Literal

/-!
# Values of integer literals

An integer literal is a run of digits and underscores, behind the mark of its base
and in front of its suffix. A text is written so in one way at most: the letter `b`
is a digit where `0x` stands in front and a suffix elsewhere. What the literal
denotes is the positional value of its digits.
-/

namespace Stela

theorem Literal.readDigits_eq_some {base n : Nat} {isDigit : Char → Bool} {digits : List Char}
    (h : readDigits base isDigit digits = some n) : digits ≠ [] ∧ ∀ c ∈ digits, isDigit c = true := by
  unfold readDigits at h
  split at h
  · cases h
  · next hdigits => simpa using hdigits

theorem Literal.readInteger_of_decimal {digits : List Char}
    (h : ∀ c ∈ digits, isDecimalDigit c = true) :
    readInteger digits = readDigits 10 isDecimalDigit digits := by
  unfold readInteger
  split
  · exact absurd (h 'x' (by simp)) (by decide)
  · rfl

/-! ## How integers are written -/

/-- The digits of the bases in use, in the order of their values. -/
def digitOrder : List Char := "0123456789abcdef".toList

def IntSuffix.mark : IntSuffix → List Char
  | .plain => []
  | .uint => ['u']
  | .byte => ['b']

/-- The parts of an integer literal. -/
structure IntegerText where
  hexadecimal : Bool
  /-- The digits, with underscores among them. -/
  digits : List Char
  suffix : IntSuffix
  written : ∀ c ∈ digits,
    (if hexadecimal then Pattern.isHexDigitOrLine c else Pattern.isDigitOrLine c) = true
  /-- Behind `0x` the letter `b` is a digit. -/
  decimal_of_byte : suffix = .byte → hexadecimal = false

namespace IntegerText

variable {w w' : IntegerText}

def baseMark (hexadecimal : Bool) : List Char := if hexadecimal then ['0', 'x'] else []

def base (w : IntegerText) : Nat := if w.hexadecimal then 16 else 10

/-- The characters of the literal. -/
def text (w : IntegerText) : List Char := baseMark w.hexadecimal ++ w.digits ++ w.suffix.mark

/-- The digits without the underscores. -/
def figures (w : IntegerText) : List Char := w.digits.filter (· != '_')

/-- The positional value of the digits. -/
def number (w : IntegerText) : Nat :=
  Nat.ofDigits w.base (w.figures.reverse.map fun c => digitOrder.idxOf c.toLower)

/-! ## Reading the parts -/

theorem eq_of_digits {hexadecimal : Bool} {c : Char}
    (h : (if hexadecimal then Pattern.isHexDigitOrLine c else Pattern.isDigitOrLine c) = true) :
    c ≠ 'u' ∧ c ≠ 'x' ∧ (c = 'b' → hexadecimal = true) := by
  refine ⟨?_, ?_, ?_⟩
  · rintro rfl
    revert h
    cases hexadecimal <;> decide
  · rintro rfl
    revert h
    cases hexadecimal <;> decide
  · rintro rfl
    revert h
    cases hexadecimal <;> decide

/-- The suffix and what stands in front of it are told apart. -/
theorem splitSuffix_eq {hexadecimal : Bool} {digits : List Char} {suffix : IntSuffix}
    (hdigits : ∀ c ∈ digits,
      (if hexadecimal then Pattern.isHexDigitOrLine c else Pattern.isDigitOrLine c) = true)
    (hsuffix : suffix = .byte → hexadecimal = false) :
    Literal.splitSuffix (baseMark hexadecimal ++ digits ++ suffix.mark) =
      (baseMark hexadecimal ++ digits, suffix) := by
  unfold Literal.splitSuffix
  cases suffix with
  | uint => simp [IntSuffix.mark]
  | byte =>
      obtain rfl := hsuffix rfl
      have hnot : ['0', 'x'].isPrefixOf (digits ++ ['b']) = false := by
        refine Bool.eq_false_iff.mpr fun hprefix => ?_
        have hmem := (List.isPrefixOf_iff_prefix.mp hprefix).subset (List.mem_cons_of_mem '0' (List.mem_singleton_self 'x'))
        rcases List.mem_append.mp hmem with hmem | hmem
        · exact (eq_of_digits (hdigits 'x' hmem)).2.1 rfl
        · simp at hmem
      simp [IntSuffix.mark, baseMark, hnot]
  | plain =>
      rw [IntSuffix.mark, List.append_nil]
      split
      · next hlast =>
        rcases List.mem_append.mp (List.mem_of_getLast? hlast) with hmem | hmem
        · cases hexadecimal <;> simp [baseMark] at hmem
        · exact absurd rfl (eq_of_digits (hdigits _ hmem)).1
      · next hlast =>
        have hhex : hexadecimal = true := by
          rcases List.mem_append.mp (List.mem_of_getLast? hlast) with hmem | hmem
          · cases hexadecimal <;> simp [baseMark] at hmem
          · exact (eq_of_digits (hdigits _ hmem)).2.2 rfl
        subst hhex
        exact if_pos rfl
      · rfl

theorem splitSuffix_text (w : IntegerText) :
    Literal.splitSuffix w.text = (baseMark w.hexadecimal ++ w.digits, w.suffix) :=
  splitSuffix_eq w.written w.decimal_of_byte

theorem mem_text_iff (w : IntegerText) : 'x' ∈ w.text ↔ w.hexadecimal = true := by
  constructor
  · intro hmem
    rcases List.mem_append.mp hmem with hmem | hmem
    · rcases List.mem_append.mp hmem with hmem | hmem
      · cases hhex : w.hexadecimal
        · simp [hhex, baseMark] at hmem
        · rfl
      · exact absurd rfl (eq_of_digits (w.written _ hmem)).2.1
    · cases hsuffix : w.suffix <;> simp [hsuffix, IntSuffix.mark] at hmem
  · intro hhex
    simp [text, baseMark, hhex]

/-- A text has its parts in one way only. -/
theorem eq_of_text_eq (h : w.text = w'.text) : w = w' := by
  have hhex : w.hexadecimal = w'.hexadecimal :=
    Bool.eq_iff_iff.mpr (by rw [← mem_text_iff, h, mem_text_iff])
  have hsplit := (splitSuffix_text w).symm.trans (h ▸ splitSuffix_text w')
  obtain ⟨hdigits, hsuffix⟩ := Prod.mk.inj hsplit
  rw [hhex] at hdigits
  have hdigits := List.append_cancel_left hdigits
  cases w
  cases w'
  cases hhex
  cases hdigits
  cases hsuffix
  rfl

/-! ## The value of the digits -/

theorem mem_of_isHexDigit {c : Char} (h : isHexDigit c = true) :
    c ∈ "0123456789abcdefABCDEF".toList := by
  have hrange : 48 ≤ c.toNat ∧ c.toNat ≤ 57 ∨ 97 ≤ c.toNat ∧ c.toNat ≤ 102 ∨
      65 ≤ c.toNat ∧ c.toNat ≤ 70 := by
    simp only [isHexDigit, isDecimalDigit, Bool.or_eq_true, Bool.and_eq_true, decide_eq_true_eq,
      Char.le_def, UInt32.le_iff_toNat_le] at h
    rcases h with (h | h) | h
    · exact .inl h
    · exact .inr (.inl h)
    · exact .inr (.inr h)
  rw [← Char.ofNat_toNat c]
  generalize c.toNat = n at hrange
  rcases hrange with ⟨hlow, hhigh⟩ | ⟨hlow, hhigh⟩ | ⟨hlow, hhigh⟩
  all_goals interval_cases n <;> decide

theorem digitValue_eq {c : Char} (h : isHexDigit c = true) :
    Literal.digitValue c = digitOrder.idxOf c.toLower := by
  have hall : "0123456789abcdefABCDEF".toList.all
      (fun c => Literal.digitValue c == digitOrder.idxOf c.toLower) = true := by decide
  exact beq_iff_eq.mp (List.all_eq_true.mp hall c (mem_of_isHexDigit h))

/-- Digits are read from the left, each behind what was read before it. -/
theorem foldl_digitValue {base : Nat} (digits : List Char) (hdigits : ∀ c ∈ digits, isHexDigit c = true) :
    digits.foldl (fun n d => n * base + Literal.digitValue d) 0 =
      Nat.ofDigits base (digits.reverse.map fun c => digitOrder.idxOf c.toLower) := by
  induction digits using List.reverseRecOn with
  | nil => rfl
  | append_singleton digits c ih =>
      obtain ⟨hdigits, hc⟩ := List.forall_mem_append.mp hdigits
      rw [List.foldl_append, List.foldl_cons, List.foldl_nil, ih hdigits,
        digitValue_eq (hc c (List.mem_singleton_self c)), List.reverse_append, List.reverse_singleton,
        List.singleton_append, List.map_cons, Nat.ofDigits_cons, Nat.mul_comm, Nat.add_comm]

theorem base_figures {c : Char} (hc : c ∈ w.figures) :
    (if w.hexadecimal then isHexDigit c else isDecimalDigit c) = true ∧ isHexDigit c = true := by
  obtain ⟨hmem, hline⟩ := List.mem_filter.mp hc
  have hwritten := w.written c hmem
  have hline : c ≠ '_' := by simpa using hline
  cases hhex : w.hexadecimal with
  | false =>
      have hdigit : isDecimalDigit c = true := by
        simpa [hhex, Pattern.isDigitOrLine, hline] using hwritten
      exact ⟨hdigit, by simp [isHexDigit, hdigit]⟩
  | true =>
      have hdigit : isHexDigit c = true := by
        simpa [hhex, Pattern.isHexDigitOrLine, hline] using hwritten
      exact ⟨hdigit, hdigit⟩

theorem readInteger_figures (w : IntegerText) :
    Literal.readInteger (baseMark w.hexadecimal ++ w.figures) =
      if w.figures = [] then none else some w.number := by
  have hread (isDigit : Char → Bool) (hdigits : ∀ c ∈ w.figures, isDigit c = true) :
      Literal.readDigits w.base isDigit w.figures = if w.figures = [] then none else some w.number := by
    have hall : w.figures.all isDigit = true := List.all_eq_true.mpr hdigits
    have hvalue : w.figures.foldl (fun n d => n * w.base + Literal.digitValue d) 0 = w.number :=
      foldl_digitValue w.figures fun c hc => (base_figures hc).2
    simp only [Literal.readDigits, hall, hvalue, Bool.not_true, Bool.or_false, List.isEmpty_iff]
  cases hhex : w.hexadecimal with
  | false =>
      have hdigits : ∀ c ∈ w.figures, isDecimalDigit c = true := fun c hc => by
        simpa [hhex] using (base_figures hc).1
      have hbase : w.base = 10 := by simp [base, hhex]
      rw [← hread isDecimalDigit hdigits, hbase]
      exact Literal.readInteger_of_decimal hdigits
  | true =>
      have hdigits : ∀ c ∈ w.figures, isHexDigit c = true := fun c hc => (base_figures hc).2
      have hbase : w.base = 16 := by simp [base, hhex]
      rw [← hread isHexDigit hdigits, hbase]
      rfl

/-- An integer that has digits and fits its type is read as the number that it denotes. -/
theorem ofInteger_text (w : IntegerText) (value : Literal) :
    Literal.ofInteger (String.ofList w.text) = .ok value ↔
      w.figures ≠ [] ∧ w.number < 2 ^ 64 ∧ (w.suffix = .byte → w.number < 256) ∧
        ∃ n : UInt64, n.toNat = w.number ∧ value = .int n w.suffix := by
  have hdrop : Literal.dropUnderscores w.text = baseMark w.hexadecimal ++ w.figures ++ w.suffix.mark := by
    have hmark : Literal.dropUnderscores (baseMark w.hexadecimal) = baseMark w.hexadecimal := by
      cases w.hexadecimal <;> rfl
    have hsuffix : Literal.dropUnderscores w.suffix.mark = w.suffix.mark := by
      cases w.suffix <;> rfl
    simp only [Literal.dropUnderscores] at hmark hsuffix ⊢
    rw [text, List.filter_append, List.filter_append, hmark, hsuffix, figures]
  have hfigures : ∀ c ∈ w.figures,
      (if w.hexadecimal then Pattern.isHexDigitOrLine c else Pattern.isDigitOrLine c) = true :=
    fun c hc => w.written c (List.mem_filter.mp hc).1
  have hsplit := splitSuffix_eq hfigures w.decimal_of_byte
  rw [Literal.ofInteger, String.toList_ofList, hdrop, hsplit]
  dsimp only
  rw [readInteger_figures, show UInt64.size = 2 ^ 64 from rfl]
  by_cases hempty : w.figures = []
  · simp [hempty]
  · rw [if_neg hempty]
    dsimp only
    by_cases hsize : w.number < 2 ^ 64
    · have hnat : (UInt64.ofNat w.number).toNat = w.number := UInt64.toNat_ofNat_of_lt hsize
      rw [if_neg (Nat.not_le.mpr hsize)]
      by_cases hbyte : w.suffix = .byte ∧ 256 ≤ w.number
      · rw [if_pos hbyte]
        refine ⟨nofun, fun ⟨_, _, hsmall, _⟩ => ?_⟩
        exact absurd (hsmall hbyte.1) (Nat.not_lt.mpr hbyte.2)
      · rw [if_neg hbyte]
        constructor
        · rintro ⟨rfl⟩
          refine ⟨hempty, hsize, fun hsuffix => ?_, _, hnat, rfl⟩
          exact Nat.not_le.mp fun hle => hbyte ⟨hsuffix, hle⟩
        · rintro ⟨-, -, -, n, hn, rfl⟩
          rw [← hn, UInt64.ofNat_toNat]
    · rw [if_pos (Nat.not_lt.mp hsize)]
      exact ⟨nofun, fun ⟨_, hlt, _⟩ => absurd hlt hsize⟩

/-! ## What is written so -/

theorem exists_suffix {w : List Char} (h : w ∈ Pattern.maybe (Pattern.one Pattern.isSuffix)) :
    ∃ suffix : IntSuffix, w = suffix.mark := by
  rcases (Language.mem_add _ _ _).mp h with h | ⟨c, rfl, hc⟩
  · exact ⟨.plain, (Language.mem_one _).mp h⟩
  · simp only [Pattern.isSuffix, Bool.or_eq_true, beq_iff_eq] at hc
    rcases hc with rfl | rfl
    · exact ⟨.uint, rfl⟩
    · exact ⟨.byte, rfl⟩

theorem forall_of_run {p q : Char → Bool} {w : List Char} (h : w ∈ Pattern.run p q)
    (hp : ∀ c, p c = true → q c = true) : ∀ c ∈ w, q c = true := by
  obtain ⟨first, ⟨c, rfl, hc⟩, rest, hrest, rfl⟩ := Language.mem_mul.mp h
  obtain ⟨parts, rfl, hparts⟩ := Language.mem_kstar.mp hrest
  refine List.forall_mem_append.mpr ⟨List.forall_mem_singleton.mpr (hp c hc), fun d hd => ?_⟩
  obtain ⟨part, hpart, hd⟩ := List.mem_flatten.mp hd
  obtain ⟨d', rfl, hd'⟩ := hparts part hpart
  exact List.mem_singleton.mp hd ▸ hd'

/-- What the patterns for integers describe. -/
theorem exists_of_language {pattern : Pattern} {text : List Char}
    (hpattern : pattern = .decimal ∨ pattern = .hexadecimal) (h : text ∈ pattern.language) :
    ∃ w : IntegerText, w.text = text := by
  rcases hpattern with rfl | rfl
  · obtain ⟨digits, hdigits, mark, hmark, rfl⟩ := Language.mem_mul.mp h
    obtain ⟨suffix, rfl⟩ := exists_suffix hmark
    have hall := forall_of_run hdigits fun c hc => by simp [Pattern.isDigitOrLine, hc]
    exact ⟨⟨false, digits, suffix, hall, fun _ => rfl⟩, rfl⟩
  · obtain ⟨zero, hzero, rest, hrest, rfl⟩ := Language.mem_mul.mp h
    obtain rfl : zero = ['0', 'x'] := hzero
    obtain ⟨digits, hdigits, mark, hmark, rfl⟩ := Language.mem_mul.mp hrest
    obtain ⟨suffix, rfl⟩ := exists_suffix hmark
    have hall := forall_of_run hdigits fun _ hc => hc
    cases suffix with
    | byte =>
        refine ⟨⟨true, digits ++ ['b'], .plain, fun c hc => ?_, nofun⟩, by simp [text, baseMark, IntSuffix.mark]⟩
        rcases List.mem_append.mp hc with hc | hc
        · exact hall c hc
        · exact List.mem_singleton.mp hc ▸ rfl
    | plain => exact ⟨⟨true, digits, .plain, hall, nofun⟩, by simp [text, baseMark]⟩
    | uint => exact ⟨⟨true, digits, .uint, hall, nofun⟩, by simp [text, baseMark]⟩

end IntegerText

/-- Integer literals denote their value: a token is written in one way, and it is read exactly if
it has a digit and its number fits 64 bits, and 8 bits with the suffix of bytes. -/
theorem integer_tokens_denote (source : String) (file : FileId) (t : Token) (ht : t ∈ lex source file)
    (hkind : t.kind = .intLit) : ∃ w : IntegerText, w.text = t.text.toList ∧
      (∀ w' : IntegerText, w'.text = t.text.toList → w' = w) ∧
      ∀ value, Literal.ofInteger t.text = .ok value ↔
        w.figures ≠ [] ∧ w.number < 2 ^ 64 ∧ (w.suffix = .byte → w.number < 256) ∧
          ∃ n : UInt64, n.toNat = w.number ∧ value = .int n w.suffix := by
  obtain ⟨pattern, hmem, htext⟩ := exists_pattern_of_mem_lex ht (by simp [hkind]) (by simp [hkind])
    (by simp [hkind])
  have hpatterns : ∀ entry ∈ Lexeme.patterns, entry.2 = .token .intLit →
      entry.1 = .decimal ∨ entry.1 = .hexadecimal := by decide
  obtain ⟨w, hw⟩ := IntegerText.exists_of_language (hpatterns _ hmem (by rw [hkind])) htext
  refine ⟨w, hw, fun w' hw' => IntegerText.eq_of_text_eq (hw'.trans hw.symm), fun value => ?_⟩
  rw [← w.ofInteger_text value, hw, String.ofList_toList]

/-- The final letter of `0xF_b` is a digit. -/
theorem hexadecimal_tokens_denote :
    ∃ t ∈ lex "0xF_b" 0, t.kind = .intLit ∧ ∃ w : IntegerText, w.text = t.text.toList ∧
      w.digits = ['F', '_', 'b'] ∧ w.number = 251 ∧ Literal.ofInteger t.text = .ok (.int 251 .plain) := by
  have hlex : (⟨.intLit, "0xF_b", ⟨0, 0, 5, 1, 1⟩⟩ : Token) ∈ lex "0xF_b" 0 := by decide +kernel
  obtain ⟨w, hw, hunique, hvalue⟩ := integer_tokens_denote "0xF_b" 0 _ hlex rfl
  let parts : IntegerText := ⟨true, ['F', '_', 'b'], .plain, List.all_eq_true.mp rfl, nofun⟩
  obtain rfl : parts = w := hunique parts (by decide)
  exact ⟨_, hlex, rfl, parts, hw, rfl, by decide, (hvalue _).mpr ⟨by decide, by decide, nofun, 251, by decide, rfl⟩⟩

end Stela
