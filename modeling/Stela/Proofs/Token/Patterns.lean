import Mathlib.Computability.Language
import Mathlib.Order.CompletePartialOrder
import Stela.Token.Pattern

/-!
# What the patterns describe

Every pattern describes a language. The languages are put together from single characters,
and the length of a prefix that belongs to one of them is made up alike: a prefix of a product
is a prefix of the first factor and a prefix of the second one behind it. A factor that is
repeated as often as it can be is followed by something that it does not start with. So the
reach of a pattern is the length of the longest prefix of a text in its language, and the best
of the matches is the longest prefix in any of the languages.
-/

namespace Stela.Pattern

open Computability

/-! ## Languages -/

/-- The texts of one character that has the property. -/
def one (p : Char → Bool) : Language Char := fun w => ∃ c, w = [c] ∧ p c = true

/-- A part that may be absent. -/
def maybe (L : Language Char) : Language Char := 1 + L

def isDigitOrLine (c : Char) : Bool := isDecimalDigit c || c == '_'

def isHexDigitOrLine (c : Char) : Bool := isHexDigit c || c == '_'

def isSuffix (c : Char) : Bool := c == 'u' || c == 'b'

def isExponentMark (c : Char) : Bool := c == 'e' || c == 'E'

def isSign (c : Char) : Bool := c == '+' || c == '-'

/-- Not the end of its line. -/
def isInLine (c : Char) : Bool := c != '\n'

/-- A character that stands for itself between two quotes. -/
def isPlain (quote c : Char) : Bool := c != quote && c != '\\'

/-- A character of the first kind, then any number of the second kind. -/
def run (p q : Char → Bool) : Language Char := one p * (one q)∗

/-- A digit, then digits and underscores. -/
def digitGroup : Language Char := run isDecimalDigit isDigitOrLine

def exponentPart : Language Char :=
  one isExponentMark * (maybe (one isSign) * run isDecimalDigit isDecimalDigit)

/-- A plain character, or a backslash with a character of its line. -/
def element (quote : Char) : Language Char := one (isPlain quote) + {['\\']} * one isInLine

/-- The texts that a pattern describes. -/
def language : Pattern → Language Char
  | .exact text => {text}
  | .decimal => digitGroup * maybe (one isSuffix)
  | .hexadecimal =>
    {['0', 'x']} * (run isHexDigitOrLine isHexDigitOrLine * maybe (one isSuffix))
  | .real => digitGroup * ({['.']} * (digitGroup * maybe exponentPart))
  | .string => {['"']} * ((element '"')∗ * {['"']})
  | .character => {['\'']} * (element '\'' * {['\'']})
  | .identifier => run isIdentStart isIdentPart
  | .lineComment => {['/', '/']} * (one isInLine)∗
  | .blockComment => {['/', '*']}

/-! ## Prefixes in a language -/

/-- The first `n` characters of a text belong to the language. -/
def Starts (L : Language Char) (cs : List Char) (n : Nat) : Prop := n ≤ cs.length ∧ cs.take n ∈ L

/-- The length of the longest prefix in a language, if there is one at all. -/
def Longest (L : Language Char) (cs : List Char) : Option Nat → Prop
  | none => ∀ k, ¬Starts L cs k
  | some n => Starts L cs n ∧ ∀ k, Starts L cs k → k ≤ n

section Starts

variable {L M : Language Char} {p : Char → Bool} {c : Char} {cs : List Char} {k n : Nat}

theorem starts_of_append {w rest : List Char} (h : w ∈ L) : Starts L (w ++ rest) w.length :=
  ⟨by simp, by simpa using h⟩

theorem starts_nothing : Starts 1 cs k ↔ k = 0 := by
  constructor
  · rintro ⟨hle, htake⟩
    have hlength := congrArg List.length ((Language.mem_one _).mp htake)
    rwa [List.length_take, Nat.min_eq_left hle] at hlength
  · rintro rfl
    exact ⟨Nat.zero_le _, Language.nil_mem_one⟩

theorem starts_add : Starts (L + M) cs k ↔ Starts L cs k ∨ Starts M cs k := by
  unfold Starts
  rw [Language.mem_add]
  exact and_or_left

theorem starts_maybe : Starts (maybe L) cs k ↔ k = 0 ∨ Starts L cs k := by
  rw [maybe, starts_add, starts_nothing]

theorem starts_mul : Starts (L * M) cs k ↔
    ∃ i j, Starts L cs i ∧ Starts M (cs.drop i) j ∧ k = i + j := by
  constructor
  · rintro ⟨hle, htake⟩
    obtain ⟨first, hfirst, last, hlast, happend⟩ := Language.mem_mul.mp htake
    have hlength := congrArg List.length happend
    rw [List.length_append, List.length_take, Nat.min_eq_left hle] at hlength
    have hcs : cs = first ++ (last ++ cs.drop k) := by
      rw [← List.append_assoc, happend, List.take_append_drop]
    refine ⟨first.length, last.length, ?_, ?_, hlength.symm⟩
    · rw [hcs]
      exact starts_of_append hfirst
    · rw [hcs, List.drop_left]
      exact starts_of_append hlast
  · rintro ⟨i, j, ⟨hi, hfirst⟩, ⟨hj, hlast⟩, rfl⟩
    rw [List.length_drop] at hj
    refine ⟨by omega, ?_⟩
    rw [List.take_add]
    exact Language.append_mem_mul hfirst hlast

theorem starts_text {text : List Char} :
    Starts {text} cs k ↔ k = text.length ∧ ∃ rest, cs = text ++ rest := by
  constructor
  · rintro ⟨hle, htake⟩
    have htake : cs.take k = text := htake
    subst htake
    exact ⟨by rw [List.length_take, Nat.min_eq_left hle], _, (List.take_append_drop k cs).symm⟩
  · rintro ⟨rfl, rest, rfl⟩
    exact starts_of_append rfl

theorem starts_one : Starts (one p) cs k ↔ k = 1 ∧ ∃ c rest, cs = c :: rest ∧ p c = true := by
  constructor
  · rintro ⟨hle, c, htake, hc⟩
    have hlength := congrArg List.length htake
    rw [List.length_take, Nat.min_eq_left hle] at hlength
    exact ⟨hlength, c, _, by rw [← List.take_append_drop k cs, htake]; rfl, hc⟩
  · rintro ⟨rfl, c, rest, rfl, hc⟩
    exact ⟨by simp, c, rfl, hc⟩

/-- A repeated part is absent, or it comes once and is repeated behind it. -/
theorem starts_star : Starts L∗ cs k ↔
    k = 0 ∨ ∃ i j, Starts L cs i ∧ Starts L∗ (cs.drop i) j ∧ k = i + j := by
  rw [← starts_mul, ← starts_nothing, ← starts_add, Language.one_add_self_mul_kstar_eq_kstar]

/-! ## Runs of characters -/

/-- Inside a run stands a character with the property. -/
theorem exists_of_lt_span (hk : k < span p cs) : ∃ c rest, cs.drop k = c :: rest ∧ p c = true := by
  induction cs generalizing k with
  | nil => exact absurd hk (Nat.not_lt_zero k)
  | cons c rest ih =>
      unfold span at hk
      split at hk
      · next hp =>
        cases k with
        | zero => exact ⟨c, rest, rfl, hp⟩
        | succ k => exact ih (Nat.lt_of_succ_lt_succ hk)
      · exact absurd hk (Nat.not_lt_zero k)

/-- A run is what is taken while the property holds. -/
theorem take_span : cs.take (span p cs) = cs.takeWhile p ∧ cs.drop (span p cs) = cs.dropWhile p := by
  induction cs with
  | nil => exact ⟨rfl, rfl⟩
  | cons c rest ih =>
      rw [span, List.takeWhile_cons, List.dropWhile_cons]
      split
      · exact ⟨congrArg _ ih.1, ih.2⟩
      · exact ⟨rfl, rfl⟩

theorem starts_one_mul {j : Nat} : Starts (one p * L) cs j ↔
    ∃ c rest k, cs = c :: rest ∧ p c = true ∧ Starts L rest k ∧ j = k + 1 := by
  rw [starts_mul]
  constructor
  · rintro ⟨i, k, hone, hrest, rfl⟩
    obtain ⟨rfl, c, rest, rfl, hc⟩ := starts_one.mp hone
    exact ⟨c, rest, k, rfl, hc, hrest, Nat.add_comm 1 k⟩
  · rintro ⟨c, rest, k, rfl, hc, hrest, rfl⟩
    exact ⟨1, k, starts_one.mpr ⟨rfl, c, rest, rfl, hc⟩, hrest, Nat.add_comm k 1⟩

theorem starts_text_mul {text : List Char} : Starts ({text} * L) cs k ↔
    ∃ rest j, cs = text ++ rest ∧ Starts L rest j ∧ k = text.length + j := by
  rw [starts_mul]
  constructor
  · rintro ⟨i, j, htext, hrest, rfl⟩
    obtain ⟨rfl, rest, rfl⟩ := starts_text.mp htext
    rw [List.drop_left] at hrest
    exact ⟨rest, j, rfl, hrest, rfl⟩
  · rintro ⟨rest, j, rfl, hrest, rfl⟩
    refine ⟨text.length, j, starts_text.mpr ⟨rfl, rest, rfl⟩, ?_, rfl⟩
    rwa [List.drop_left]

theorem starts_many : Starts (one p)∗ cs k ↔ k ≤ span p cs := by
  induction cs generalizing k with
  | nil =>
      rw [starts_star, ← starts_mul, starts_one_mul]
      simp [span]
  | cons c cs ih =>
      rw [starts_star, ← starts_mul, starts_one_mul, span]
      constructor
      · rintro (rfl | ⟨c', rest, j, hcs, hc, hj, rfl⟩)
        · exact Nat.zero_le _
        · obtain ⟨rfl, rfl⟩ := List.cons.inj hcs
          rw [if_pos hc]
          exact Nat.succ_le_succ (ih.mp hj)
      · intro hk
        cases k with
        | zero => exact .inl rfl
        | succ k =>
            split at hk
            · next hc => exact .inr ⟨c, cs, k, rfl, hc, ih.mpr (Nat.le_of_succ_le_succ hk), rfl⟩
            · exact absurd hk (Nat.not_succ_le_zero k)

theorem longest_many : Longest (one p)∗ cs (some (span p cs)) :=
  ⟨starts_many.mpr (Nat.le_refl _), fun _ => starts_many.mp⟩

theorem not_starts_run_nil {q : Char → Bool} : ¬Starts (run p q) [] k := by
  rw [run, starts_one_mul]
  rintro ⟨c, rest, j, hcs, -⟩
  cases hcs

theorem starts_run {q : Char → Bool} :
    Starts (run p q) (c :: cs) k ↔ p c = true ∧ 0 < k ∧ k ≤ span q cs + 1 := by
  rw [run, starts_one_mul]
  constructor
  · rintro ⟨c', rest, j, hcs, hc, hj, rfl⟩
    obtain ⟨rfl, rfl⟩ := List.cons.inj hcs
    exact ⟨hc, Nat.succ_pos j, Nat.succ_le_succ (starts_many.mp hj)⟩
  · rintro ⟨hc, hpos, hk⟩
    obtain ⟨j, rfl⟩ := Nat.exists_eq_succ_of_ne_zero (Nat.ne_of_gt hpos)
    exact ⟨c, cs, j, rfl, hc, starts_many.mpr (Nat.le_of_succ_le_succ hk), rfl⟩

end Starts

/-! ## The longest prefix -/

section Longest

variable {L M N : Language Char} {p q : Char → Bool} {cs : List Char} {g m n : Nat}

theorem longest_maybe {o : Option Nat} (h : Longest L cs o) : Longest (maybe L) cs (some (o.getD 0)) := by
  cases o with
  | none =>
      refine ⟨starts_maybe.mpr (.inl rfl), fun k hk => ?_⟩
      rcases starts_maybe.mp hk with rfl | hk
      · exact Nat.le_refl 0
      · exact absurd hk (h k)
  | some n =>
      refine ⟨starts_maybe.mpr (.inr h.1), fun k hk => ?_⟩
      rcases starts_maybe.mp hk with rfl | hk
      · exact Nat.zero_le n
      · exact h.2 k hk

theorem longest_one_mul {c : Char} {o : Option Nat} (h : Longest L cs o) :
    Longest (one p * L) (c :: cs) (if p c then o.map (· + 1) else none) := by
  have hstarts (k : Nat) (hk : Starts (one p * L) (c :: cs) k) :
      p c = true ∧ ∃ j, Starts L cs j ∧ k = j + 1 := by
    obtain ⟨c', rest, j, hcs, hc, hj, rfl⟩ := starts_one_mul.mp hk
    obtain ⟨rfl, rfl⟩ := List.cons.inj hcs
    exact ⟨hc, j, hj, rfl⟩
  split
  · next hc =>
    cases o with
    | none =>
        intro k hk
        obtain ⟨-, j, hj, -⟩ := hstarts k hk
        exact h j hj
    | some n =>
        refine ⟨starts_one_mul.mpr ⟨c, cs, n, rfl, hc, h.1, rfl⟩, fun k hk => ?_⟩
        obtain ⟨-, j, hj, rfl⟩ := hstarts k hk
        exact Nat.succ_le_succ (h.2 j hj)
  · next hc => exact fun k hk => hc (hstarts k hk).1

theorem longest_one {c : Char} : Longest (one p) (c :: cs) (if p c then some 1 else none) := by
  have hnothing : Longest 1 cs (some 0) := ⟨starts_nothing.mpr rfl, fun k hk => (starts_nothing.mp hk).le⟩
  simpa using longest_one_mul hnothing

theorem not_starts_one_nil {k : Nat} : ¬Starts (one p) [] k := by
  rintro hk
  obtain ⟨-, c, rest, hcs, -⟩ := starts_one.mp hk
  cases hcs

/-- The longest prefix of a run, in a text that it may start. -/
theorem longest_run {c : Char} :
    Longest (run p q) (c :: cs) (if p c then some (span q cs + 1) else none) := by
  split
  · next hc =>
    exact ⟨starts_run.mpr ⟨hc, Nat.succ_pos _, Nat.le_refl _⟩, fun k hk => (starts_run.mp hk).2.2⟩
  · next hc => exact fun k hk => hc (starts_run.mp hk).1

theorem longest_text_mul {text rest : List Char} {o : Option Nat} (h : Longest L rest o) :
    Longest ({text} * L) (text ++ rest) (o.map (text.length + ·)) := by
  have hstarts (k : Nat) (hk : Starts ({text} * L) (text ++ rest) k) :
      ∃ j, Starts L rest j ∧ k = text.length + j := by
    obtain ⟨rest', j, hcs, hj, rfl⟩ := starts_text_mul.mp hk
    obtain rfl := List.append_cancel_left hcs
    exact ⟨j, hj, rfl⟩
  cases o with
  | none =>
      intro k hk
      obtain ⟨j, hj, -⟩ := hstarts k hk
      exact h j hj
  | some n =>
      refine ⟨starts_text_mul.mpr ⟨rest, n, rfl, h.1, rfl⟩, fun k hk => ?_⟩
      obtain ⟨j, hj, rfl⟩ := hstarts k hk
      exact Nat.add_le_add_left (h.2 j hj) _

/-- Behind a shorter prefix of the first factor stands a character that the second does not start with. -/
theorem longest_mul {o : Option Nat} (hL : Longest L cs (some g)) (hM : Longest M (cs.drop g) o)
    (hstop : ∀ k < g, Starts L cs k → ∀ j, ¬Starts M (cs.drop k) j) :
    Longest (L * M) cs (o.map (g + ·)) := by
  have hsplit (k : Nat) (hk : Starts (L * M) cs k) : ∃ j, Starts M (cs.drop g) j ∧ k = g + j := by
    obtain ⟨i, j, hi, hj, rfl⟩ := starts_mul.mp hk
    rcases Nat.lt_or_eq_of_le (hL.2 i hi) with hlt | rfl
    · exact absurd hj (hstop i hlt hi j)
    · exact ⟨j, hj, rfl⟩
  cases o with
  | none =>
      intro k hk
      obtain ⟨j, hj, -⟩ := hsplit k hk
      exact hM j hj
  | some m =>
      refine ⟨starts_mul.mpr ⟨g, m, hL.1, hM.1, rfl⟩, fun k hk => ?_⟩
      obtain ⟨j, hj, rfl⟩ := hsplit k hk
      exact Nat.add_le_add_left (hM.2 j hj) g

/-- A last part that may be absent adds nothing to a shorter prefix that the longer one does not have. -/
theorem longest_mul_maybe {o : Option Nat} (hL : Longest L cs (some g)) (hM : Longest M (cs.drop g) o)
    (hstop : ∀ k < g, Starts L cs k → ∀ j, Starts M (cs.drop k) j → k + j ≤ g) :
    Longest (L * maybe M) cs (some (g + o.getD 0)) := by
  have hM := longest_maybe hM
  refine ⟨starts_mul.mpr ⟨g, _, hL.1, hM.1, rfl⟩, fun k hk => ?_⟩
  obtain ⟨i, j, hi, hj, rfl⟩ := starts_mul.mp hk
  have hle := hL.2 i hi
  rcases Nat.lt_or_eq_of_le hle with hlt | rfl
  · rcases starts_maybe.mp hj with rfl | hj
    · exact Nat.le_trans hle (Nat.le_add_right g _)
    · exact Nat.le_trans (hstop i hlt hi j hj) (Nat.le_add_right g _)
  · exact Nat.add_le_add_left (hM.2 j hj) i

theorem longest_mul_none (h : Longest L cs none) : Longest (L * M) cs none := by
  intro k hk
  obtain ⟨i, j, hi, -⟩ := starts_mul.mp hk
  exact h i hi

theorem longest_text_mul_none {text : List Char} (h : ∀ rest, cs ≠ text ++ rest) :
    Longest ({text} * L) cs none := by
  intro k hk
  obtain ⟨rest, j, hcs, -⟩ := starts_text_mul.mp hk
  exact h rest hcs

/-- A closing mark, which no shorter prefix of the first factor is followed by. -/
theorem longest_closed {mark : Char} (hL : Longest L cs (some g))
    (hstop : ∀ k < g, Starts L cs k → ∀ rest, cs.drop k ≠ mark :: rest) :
    Longest (L * {[mark]}) cs (closedBy mark cs g) := by
  have hmark {text : List Char} {j : Nat} (hj : Starts {[mark]} text j) :
      j = 1 ∧ ∃ rest, text = mark :: rest := starts_text.mp hj
  have hM : Longest {[mark]} (cs.drop g) (if (cs.drop g).head? == some mark then some 1 else none) := by
    split
    · next hhead =>
      obtain ⟨rest, hrest⟩ := List.head?_eq_some_iff.mp (beq_iff_eq.mp hhead)
      exact ⟨starts_text.mpr ⟨rfl, rest, hrest⟩, fun k hk => (hmark hk).1.le⟩
    · next hhead =>
      intro k hk
      obtain ⟨-, rest, hrest⟩ := hmark hk
      exact hhead (by rw [hrest]; exact beq_self_eq_true _)
  have hall := longest_mul hL hM fun k hk hstarts j hj => by
    obtain ⟨-, rest, hrest⟩ := hmark hj
    exact hstop k hk hstarts rest hrest
  have hclosed : closedBy mark cs g =
      (if (cs.drop g).head? == some mark then some 1 else none).map (g + ·) := by
    unfold closedBy
    split <;> rfl
  rwa [hclosed]

end Longest

/-! ## The parts of the patterns -/

section

variable {L : Language Char} {cs : List Char} {g : Nat}

/-- Inside a run and not at its start, a part that does not go on with the run cannot begin. -/
theorem not_starts_in_run {M : Language Char} {p q : Char → Bool} (hrun : Longest (run p q) cs (some g))
    (hM : ∀ c rest j, q c = true → ¬Starts M (c :: rest) j) :
    ∀ k < g, Starts (run p q) cs k → ∀ j, ¬Starts M (cs.drop k) j := by
  intro k hlt hk j hj
  cases cs with
  | nil => exact not_starts_run_nil hk
  | cons c rest =>
      obtain ⟨-, hpos, -⟩ := starts_run.mp hk
      obtain ⟨-, -, hg⟩ := starts_run.mp hrun.1
      obtain ⟨i, rfl⟩ := Nat.exists_eq_succ_of_ne_zero (Nat.ne_of_gt hpos)
      obtain ⟨c', rest', hdrop, hq⟩ :=
        exists_of_lt_span (Nat.lt_of_succ_lt_succ (Nat.lt_of_lt_of_le hlt hg))
      rw [List.drop_succ_cons, hdrop] at hj
      exact hM c' rest' j hq hj

theorem longest_digits : Longest digitGroup cs (digits cs) := by
  cases cs with
  | nil => exact fun _ => not_starts_run_nil
  | cons c rest => exact longest_run

theorem longest_suffix (cs : List Char) : ∃ o, Longest (one isSuffix) cs o ∧ o.getD 0 = suffix cs := by
  cases cs with
  | nil => exact ⟨none, fun _ => not_starts_one_nil, rfl⟩
  | cons c rest =>
      refine ⟨_, longest_one, ?_⟩
      change _ = if isSuffix c then 1 else 0
      split <;> rfl

theorem longest_mul_suffix (hL : Longest L cs (some g)) :
    Longest (L * maybe (one isSuffix)) cs (some (g + suffix (cs.drop g))) := by
  obtain ⟨o, ho, heq⟩ := longest_suffix (cs.drop g)
  rw [← heq]
  refine longest_mul_maybe hL ho fun k hk _ j hj => ?_
  rw [(starts_one.mp hj).1]
  exact hk

/-- A run of one kind of characters. -/
theorem longest_run_self {p : Char → Bool} :
    Longest (run p p) cs (match span p cs with | 0 => none | n + 1 => some (n + 1)) := by
  cases cs with
  | nil => exact fun _ => not_starts_run_nil
  | cons c rest =>
      have hrun : Longest (run p p) (c :: rest) (if p c then some (span p rest + 1) else none) := longest_run
      unfold span
      split at hrun
      · next hp => rwa [if_pos hp]
      · next hp => rwa [if_neg hp]

/-- Length of the sign of an exponent, which may be absent. -/
def signLength : List Char → Nat
  | [] => 0
  | c :: _ => if isSign c then 1 else 0

theorem longest_sign : Longest (maybe (one isSign)) cs (some (signLength cs)) := by
  cases cs with
  | nil =>
      have hnone : Longest (one isSign) [] none := fun _ => not_starts_one_nil
      exact longest_maybe hnone
  | cons c rest =>
      have hsign := longest_maybe (longest_one : Longest (one isSign) (c :: rest) _)
      change Longest _ _ (some (if isSign c then 1 else 0))
      split at hsign
      · next hc => rwa [if_pos hc]
      · next hc => rwa [if_neg hc]

theorem longest_signed : Longest (maybe (one isSign) * run isDecimalDigit isDecimalDigit) cs
    ((match span isDecimalDigit (cs.drop (signLength cs)) with
      | 0 => none
      | n + 1 => some (n + 1)).map (signLength cs + ·)) := by
  refine longest_mul longest_sign longest_run_self fun k hk _ j hj => ?_
  have hsign : Longest (maybe (one isSign)) cs (some (signLength cs)) := longest_sign
  rcases starts_maybe.mp hsign.1 with hnone | hsign
  · exact Nat.not_lt_zero k (hnone ▸ hk)
  · obtain ⟨hone, c, rest, rfl, hc⟩ := starts_one.mp hsign
    obtain rfl := Nat.lt_one_iff.mp (hone ▸ hk)
    -- A sign is no digit.
    have hdigit := (starts_run.mp hj).1
    simp only [isSign, Bool.or_eq_true, beq_iff_eq] at hc
    rcases hc with rfl | rfl <;> exact absurd hdigit (by decide)

theorem longest_exponentPart (cs : List Char) :
    ∃ o, Longest exponentPart cs o ∧ o.getD 0 = exponent cs := by
  cases cs with
  | nil =>
      refine ⟨none, fun k hk => ?_, rfl⟩
      obtain ⟨c, rest, j, hcs, -⟩ := starts_one_mul.mp hk
      cases hcs
  | cons c rest =>
      refine ⟨_, longest_one_mul longest_signed, ?_⟩
      have hexponent : exponent (c :: rest) = if isExponentMark c then
          match span isDecimalDigit (rest.drop (signLength rest)) with
          | 0 => 0
          | n + 1 => signLength rest + n + 2
        else 0 := by
        cases rest <;> rfl
      rw [hexponent]
      split
      · cases span isDecimalDigit (rest.drop (signLength rest)) <;> rfl
      · rfl

theorem longest_mul_exponent (hL : Longest digitGroup cs (some g)) :
    Longest (digitGroup * maybe exponentPart) cs (some (g + exponent (cs.drop g))) := by
  obtain ⟨o, ho, heq⟩ := longest_exponentPart (cs.drop g)
  rw [← heq]
  refine longest_mul_maybe hL ho fun k hk hstarts j hj => ?_
  refine absurd hj (not_starts_in_run hL (fun c rest j hc hj => ?_) k hk hstarts j)
  obtain ⟨c', rest', i, hcs, hmark, -⟩ := starts_one_mul.mp hj
  obtain ⟨rfl, rfl⟩ := List.cons.inj hcs
  simp only [isExponentMark, Bool.or_eq_true, beq_iff_eq] at hmark
  rcases hmark with rfl | rfl <;> exact absurd hc (by decide)

/-- How many characters an element has is clear from the first one. -/
theorem starts_element {quote : Char} {k : Nat} : Starts (element quote) cs k ↔
    (∃ c rest, cs = c :: rest ∧ isPlain quote c = true ∧ k = 1) ∨
      ∃ c rest, cs = '\\' :: c :: rest ∧ isInLine c = true ∧ k = 2 := by
  rw [element, starts_add, starts_one, starts_text_mul]
  constructor
  · rintro (⟨rfl, c, rest, rfl, hc⟩ | ⟨rest, j, rfl, hj, rfl⟩)
    · exact .inl ⟨c, rest, rfl, hc, rfl⟩
    · obtain ⟨rfl, c, rest, rfl, hc⟩ := starts_one.mp hj
      exact .inr ⟨c, rest, rfl, hc, rfl⟩
  · rintro (⟨c, rest, rfl, hc, rfl⟩ | ⟨c, rest, rfl, hc, rfl⟩)
    · exact .inl ⟨rfl, c, rest, rfl, hc⟩
    · exact .inr ⟨c :: rest, 1, rfl, starts_one.mpr ⟨rfl, c, rest, rfl, hc⟩, rfl⟩

theorem starts_plain {quote c : Char} {rest : List Char} {k : Nat} (hc : isPlain quote c = true) :
    Starts (element quote) (c :: rest) k ↔ k = 1 := by
  rw [starts_element]
  constructor
  · rintro (⟨-, -, -, -, rfl⟩ | ⟨c', rest', hcs, -⟩)
    · rfl
    · obtain ⟨rfl, -⟩ := List.cons.inj hcs
      simp [isPlain] at hc
  · rintro rfl
    exact .inl ⟨c, rest, rfl, hc, rfl⟩

theorem starts_escape {quote c : Char} {rest : List Char} {k : Nat} :
    Starts (element quote) ('\\' :: c :: rest) k ↔ isInLine c = true ∧ k = 2 := by
  rw [starts_element]
  constructor
  · rintro (⟨c', rest', hcs, hc, -⟩ | ⟨c', rest', hcs, hc, rfl⟩)
    · obtain ⟨rfl, -⟩ := List.cons.inj hcs
      simp [isPlain] at hc
    · obtain ⟨-, hcs⟩ := List.cons.inj hcs
      obtain ⟨rfl, -⟩ := List.cons.inj hcs
      exact ⟨hc, rfl⟩
  · rintro ⟨hc, rfl⟩
    exact .inr ⟨c, rest, rfl, hc, rfl⟩

/-- A text starts with at most one element. -/
theorem starts_element_unique {quote : Char} {i j : Nat} (hi : Starts (element quote) cs i)
    (hj : Starts (element quote) cs j) : i = j := by
  rcases starts_element.mp hi with ⟨c, rest, rfl, hc, rfl⟩ | ⟨c, rest, rfl, hc, rfl⟩
  · exact ((starts_plain hc).mp hj).symm
  · exact (starts_escape.mp hj).2.symm

/-- What is neither a quote nor a backslash, whatever follows, is plain. -/
theorem isPlain_of_ne {quote c : Char} {rest : List Char} (hquote : c = quote → False)
    (hend : c = '\\' → rest = [] → False) (hescape : ∀ d others, c = '\\' → rest = d :: others → False) :
    isPlain quote c = true := by
  have hslash : c ≠ '\\' := by
    rintro rfl
    cases rest with
    | nil => exact hend rfl rfl
    | cons d rest => exact hescape d rest rfl rfl
  simpa [isPlain] using ⟨hquote, hslash⟩

theorem longest_characterElement : Longest (element '\'') cs (characterElement cs) := by
  unfold characterElement
  split
  · exact fun k hk => by simp [starts_element] at hk
  · exact fun k hk => by simp [starts_element, isPlain] at hk
  · exact fun k hk => by simp [starts_element, isPlain] at hk
  · next c rest =>
    split
    · next hc => exact fun k hk => by simp_all [starts_escape, isInLine]
    · next hc =>
      have hline : isInLine c = true := by simpa [isInLine] using hc
      exact ⟨starts_escape.mpr ⟨hline, rfl⟩, fun k hk => (starts_escape.mp hk).2.le⟩
  · next c rest hquote hend hescape =>
    have hplain := isPlain_of_ne hquote hend hescape
    exact ⟨(starts_plain hplain).mpr rfl, fun k hk => ((starts_plain hplain).mp hk).le⟩

/-- Behind an element the complete elements go on. -/
theorem stringElements_of_starts {k : Nat} (h : Starts (element '"') cs k) :
    stringElements cs = k + stringElements (cs.drop k) := by
  rcases starts_element.mp h with ⟨c, rest, rfl, hc, rfl⟩ | ⟨c, rest, rfl, hc, rfl⟩
  · simp only [isPlain, Bool.and_eq_true, bne_iff_ne] at hc
    have hgoes : stringElements (c :: rest) = stringElements rest + 1 := by
      rw [stringElements] <;> simp [hc]
    exact hgoes.trans (Nat.add_comm _ _)
  · simp only [isInLine, bne_iff_ne] at hc
    rw [stringElements, if_neg (by simpa using hc)]
    exact Nat.add_comm _ _

theorem stringElements_of_starts_star {k : Nat} (h : Starts (element '"')∗ cs k) :
    stringElements cs = k + stringElements (cs.drop k) := by
  induction k using Nat.strongRecOn generalizing cs with
  | ind k ih =>
      rcases starts_star.mp h with rfl | ⟨i, j, hi, hj, rfl⟩
      · exact (Nat.zero_add _).symm
      · have hpos : 0 < i := by
          rcases starts_element.mp hi with ⟨-, -, -, -, rfl⟩ | ⟨-, -, -, -, rfl⟩ <;> decide
        rw [stringElements_of_starts hi, ih j (Nat.lt_add_of_pos_left hpos) hj, List.drop_drop,
          Nat.add_assoc]

theorem starts_stringElements : Starts (element '"')∗ cs (stringElements cs) := by
  have hnothing {cs : List Char} : Starts (element '"')∗ cs 0 := starts_star.mpr (.inl rfl)
  induction cs using stringElements.induct with
  | case1 => exact hnothing
  | case2 rest => exact hnothing
  | case3 => exact hnothing
  | case4 c rest hc =>
      rw [stringElements, if_pos hc]
      exact hnothing
  | case5 c rest hc ih =>
      rw [stringElements, if_neg hc]
      have hline : isInLine c = true := by simpa [isInLine] using hc
      exact starts_star.mpr (.inr ⟨2, _, starts_escape.mpr ⟨hline, rfl⟩, ih, Nat.add_comm _ _⟩)
  | case6 c rest hquote hend hescape ih =>
      have hplain := isPlain_of_ne hquote hend hescape
      have hone : Starts (element '"') (c :: rest) 1 := (starts_plain hplain).mpr rfl
      rw [stringElements_of_starts hone]
      exact starts_star.mpr (.inr ⟨1, _, hone, ih, rfl⟩)

theorem longest_stringElements : Longest (element '"')∗ cs (some (stringElements cs)) :=
  ⟨starts_stringElements, fun _ hk => stringElements_of_starts_star hk ▸ Nat.le_add_right _ _⟩

/-- A quote behind complete elements is not one of them. -/
theorem longest_closedString : Longest ((element '"')∗ * {['"']}) cs (closedBy '"' cs (stringElements cs)) := by
  refine longest_closed longest_stringElements fun k hlt hk rest hrest => ?_
  have heq := stringElements_of_starts_star hk
  rw [hrest, stringElements] at heq
  exact Nat.ne_of_lt hlt heq.symm

theorem longest_closedCharacter :
    Longest (element '\'' * {['\'']}) cs ((characterElement cs).bind fun n => closedBy '\'' cs n) := by
  have helement : Longest (element '\'') cs (characterElement cs) := longest_characterElement
  cases hlength : characterElement cs with
  | none => exact longest_mul_none (hlength ▸ helement)
  | some n =>
      rw [hlength] at helement
      exact longest_closed helement fun k hlt hk _ _ => Nat.ne_of_lt hlt (starts_element_unique hk helement.1)

/-- A pattern with a mark in front describes nothing that does not start with the mark. -/
theorem longest_marked {text : List Char} {o : Option Nat} (f : List Char → Option Nat)
    (hmark : ∀ rest, cs = text ++ rest → Longest L rest (f rest) ∧ o = (f rest).map (text.length + ·))
    (hnone : (∀ rest, cs ≠ text ++ rest) → o = none) : Longest ({text} * L) cs o := by
  by_cases h : ∃ rest, cs = text ++ rest
  · obtain ⟨rest, hrest⟩ := h
    obtain ⟨hL, rfl⟩ := hmark rest hrest
    exact hrest ▸ longest_text_mul hL
  · have hno : ∀ rest, cs ≠ text ++ rest := not_exists.mp h
    rw [hnone hno]
    exact longest_text_mul_none hno

theorem longest_text {text : List Char} :
    Longest {text} cs (if text.isPrefixOf cs then some text.length else none) := by
  split
  · next hstart =>
    obtain ⟨rest, hrest⟩ := List.isPrefixOf_iff_prefix.mp hstart
    exact ⟨starts_text.mpr ⟨rfl, rest, hrest.symm⟩, fun k hk => (starts_text.mp hk).1.le⟩
  · next hstart =>
    intro k hk
    obtain ⟨-, rest, hrest⟩ := starts_text.mp hk
    exact hstart (List.isPrefixOf_iff_prefix.mpr ⟨rest, hrest.symm⟩)

theorem longest_hexDigits : Longest (run isHexDigitOrLine isHexDigitOrLine * maybe (one isSuffix)) cs
    (match span isHexDigitOrLine cs with
      | 0 => none
      | n + 1 => some (n + 1 + suffix (cs.drop (n + 1)))) := by
  have hrun : Longest (run isHexDigitOrLine isHexDigitOrLine) cs _ := longest_run_self
  split at hrun
  · exact longest_mul_none hrun
  · exact longest_mul_suffix hrun

/-- The digits behind the point, and maybe an exponent. -/
theorem longest_fraction : Longest (digitGroup * maybe exponentPart) cs
    ((digits cs).map fun n => n + exponent (cs.drop n)) := by
  have hdigits : Longest digitGroup cs (digits cs) := longest_digits
  cases hlength : digits cs with
  | none => exact longest_mul_none (hlength ▸ hdigits)
  | some n => exact longest_mul_exponent (hlength ▸ hdigits)

/-- A point, and what follows it. -/
theorem longest_pointed {whole : Nat} :
    Longest ({['.']} * (digitGroup * maybe exponentPart)) (cs.drop whole)
      ((closedBy '.' cs whole).bind fun point => (digits (cs.drop point)).map fun n =>
        1 + (n + exponent (cs.drop (point + n)))) := by
  refine longest_marked _ (fun rest hrest => ⟨longest_fraction, ?_⟩) fun hno => ?_
  · have hdrop (n : Nat) : cs.drop (whole + 1 + n) = rest.drop n := by
      rw [Nat.add_assoc, ← List.drop_drop, hrest, Nat.add_comm]
      rfl
    have hclosed : closedBy '.' cs whole = some (whole + 1) := by simp [closedBy, hrest]
    have hrest : cs.drop (whole + 1) = rest := hdrop 0
    rw [hclosed, Option.bind_some, hrest, Option.map_map]
    exact congrArg (fun f => (digits rest).map f) (funext fun n => by rw [hdrop]; rfl)
  · have hclosed : closedBy '.' cs whole = none := by
      refine if_neg fun hhead => ?_
      obtain ⟨rest, hrest⟩ := List.head?_eq_some_iff.mp (beq_iff_eq.mp hhead)
      exact hno rest hrest
    rw [hclosed]
    rfl

theorem longest_real : Longest (language .real) cs (reach .real cs) := by
  have hwhole : Longest digitGroup cs (digits cs) := longest_digits
  rw [reach, language]
  cases hlength : digits cs with
  | none => exact longest_mul_none (hlength ▸ hwhole)
  | some whole =>
      rw [hlength] at hwhole
      have hall := longest_mul hwhole longest_pointed <| not_starts_in_run hwhole fun c rest j hc hj => by
        obtain ⟨rest', i, hcs, -⟩ := starts_text_mul.mp hj
        obtain ⟨rfl, -⟩ := List.cons.inj hcs
        exact absurd hc (by decide)
      have hreach (point n : Nat) (h : closedBy '.' cs whole = some point) :
          whole + (1 + (n + exponent (cs.drop (point + n)))) = point + n + exponent (cs.drop (point + n)) := by
        unfold closedBy at h
        split at h
        · obtain rfl := Option.some.inj h
          omega
        · cases h
      cases hclosed : closedBy '.' cs whole with
      | none => simpa [hclosed] using hall
      | some point =>
          rw [hclosed, Option.bind_some, Option.map_map] at hall
          have hfunext : ((whole + ·) ∘ fun n => 1 + (n + exponent (cs.drop (point + n)))) =
              fun n => point + n + exponent (cs.drop (point + n)) :=
            funext fun n => hreach point n hclosed
          rw [hfunext] at hall
          simpa [hclosed, Option.map_eq_bind] using hall

theorem pos_of_starts_run {p q : Char → Bool} {k : Nat} (h : Starts (run p q) cs k) : 0 < k := by
  cases cs with
  | nil => exact absurd h not_starts_run_nil
  | cons c rest => exact (starts_run.mp h).2.1

/-- A pattern with a text of its own describes the empty text only if this is its text. -/
theorem pos_of_starts {pattern : Pattern} {k : Nat} (hpattern : pattern ≠ .exact [])
    (h : Starts pattern.language cs k) : 0 < k := by
  have hmul {L M : Language Char} (hL : ∀ i, Starts L cs i → 0 < i) (h : Starts (L * M) cs k) : 0 < k := by
    obtain ⟨i, j, hi, -, rfl⟩ := starts_mul.mp h
    exact Nat.lt_of_lt_of_le (hL i hi) (Nat.le_add_right i j)
  have htext {text : List Char} {i : Nat} (hne : text ≠ []) (h : Starts {text} cs i) : 0 < i :=
    (starts_text.mp h).1 ▸ List.length_pos_of_ne_nil hne
  cases pattern with
  | exact text => exact htext (fun hnil => hpattern (congrArg _ hnil)) h
  | decimal => exact hmul (fun _ => pos_of_starts_run) h
  | hexadecimal => exact hmul (fun _ => htext (List.cons_ne_nil _ _)) h
  | real => exact hmul (fun _ => pos_of_starts_run) h
  | string => exact hmul (fun _ => htext (List.cons_ne_nil _ _)) h
  | character => exact hmul (fun _ => htext (List.cons_ne_nil _ _)) h
  | identifier => exact pos_of_starts_run h
  | lineComment => exact hmul (fun _ => htext (List.cons_ne_nil _ _)) h
  | blockComment => exact htext (List.cons_ne_nil _ _) h

end

/-- The reach of a pattern is the length of the longest prefix that it describes. -/
theorem longest_reach (pattern : Pattern) (cs : List Char) :
    Longest pattern.language cs (pattern.reach cs) := by
  cases pattern with
  | exact text =>
      rw [reach, language]
      exact longest_text
  | decimal =>
      rw [reach, language]
      have hdigits : Longest digitGroup cs (digits cs) := longest_digits
      cases hlength : digits cs with
      | none => exact longest_mul_none (hlength ▸ hdigits)
      | some n => exact longest_mul_suffix (hlength ▸ hdigits)
  | hexadecimal =>
      refine longest_marked _ (fun rest hrest => ⟨longest_hexDigits, ?_⟩) fun hno => ?_
      · subst hrest
        change (match span isHexDigitOrLine rest with
          | 0 => none
          | n + 1 => some (n + 3 + suffix (rest.drop (n + 1)))) = _
        cases span isHexDigitOrLine rest with
        | zero => rfl
        | succ n => exact congrArg some (by dsimp only [List.length_cons, List.length_nil]; omega)
      · rw [reach]
        exact fun rest h => hno rest h
  | real => exact longest_real
  | string =>
      refine longest_marked _ (fun rest hrest => ⟨longest_closedString, ?_⟩) fun hno => ?_
      · subst hrest
        exact congrArg (fun f => (closedBy '"' rest (stringElements rest)).map f)
          (funext fun n => Nat.add_comm n 1)
      · rw [reach]
        exact fun rest h => hno rest h
  | character =>
      refine longest_marked _ (fun rest hrest => ⟨longest_closedCharacter, ?_⟩) fun hno => ?_
      · subst hrest
        change (characterElement rest).bind (fun n => (closedBy '\'' rest n).map (· + 1)) = _
        rw [Option.map_bind]
        exact congrArg (fun f => (characterElement rest).bind f)
          (funext fun n => congrArg (fun f => (closedBy '\'' rest n).map f)
            (funext fun n => Nat.add_comm n 1))
      · rw [reach]
        exact fun rest h => hno rest h
  | identifier =>
      rw [language]
      cases cs with
      | nil => exact fun _ => not_starts_run_nil
      | cons c rest => exact longest_run
  | lineComment =>
      refine longest_marked _ (fun rest hrest => ⟨longest_many, ?_⟩) fun hno => ?_
      · subst hrest
        exact congrArg some (Nat.add_comm _ 2)
      · rw [reach]
        exact fun rest h => hno rest h
  | blockComment =>
      rw [language]
      by_cases h : ∃ rest, cs = '/' :: '*' :: rest
      · obtain ⟨rest, rfl⟩ := h
        exact ⟨starts_text.mpr ⟨rfl, rest, rfl⟩, fun k hk => (starts_text.mp hk).1.le⟩
      · rw [reach]
        · exact fun k hk => h (starts_text.mp hk).2
        · exact fun rest hrest => h ⟨rest, hrest⟩

end Stela.Pattern

namespace Stela.Lexeme

open Pattern

variable {entries : List (Pattern × Lexeme)} {cs : List Char} {lexeme : Lexeme} {n : Nat}

/-- The lexeme is what the longest match of any of the patterns stands for. Among the patterns that
describe the match the first one decides. -/
structure Wins (entries : List (Pattern × Lexeme)) (cs : List Char) (lexeme : Lexeme) (n : Nat) :
    Prop where
  first : ∃ earlier pattern later, entries = earlier ++ (pattern, lexeme) :: later ∧
    Starts pattern.language cs n ∧ ∀ entry ∈ earlier, ¬Starts entry.1.language cs n
  longest : ∀ entry ∈ entries, ∀ k, Starts entry.1.language cs k → k ≤ n

/-- The pattern that wins matches as much as it can. -/
theorem Wins.exists_longest (h : Wins entries cs lexeme n) :
    ∃ pattern, (pattern, lexeme) ∈ entries ∧ Longest pattern.language cs (some n) := by
  obtain ⟨earlier, pattern, later, rfl, hstarts, -⟩ := h.first
  have hmem : (pattern, lexeme) ∈ earlier ++ (pattern, lexeme) :: later := by simp
  exact ⟨pattern, hmem, hstarts, fun k hk => h.longest _ hmem k hk⟩

/-- No pattern matches. -/
def Fails (entries : List (Pattern × Lexeme)) (cs : List Char) : Prop :=
  ∀ entry ∈ entries, ∀ k, ¬Starts entry.1.language cs k

/-- A further pattern that matches less, or not at all, changes nothing. -/
theorem Wins.append {entry : Pattern × Lexeme} (h : Wins entries cs lexeme n)
    (hentry : ∀ k, Starts entry.1.language cs k → k ≤ n) : Wins (entries ++ [entry]) cs lexeme n := by
  obtain ⟨earlier, pattern, later, rfl, hstarts, hearlier⟩ := h.first
  refine ⟨⟨earlier, pattern, later ++ [entry], by simp, hstarts, hearlier⟩, fun other hother => ?_⟩
  rcases List.mem_append.mp hother with hother | hother
  · exact h.longest other hother
  · exact List.mem_singleton.mp hother ▸ hentry

/-- A further pattern that matches more than all others wins. -/
theorem wins_last {entry : Pattern × Lexeme} (hlast : Longest entry.1.language cs (some n))
    (hothers : ∀ other ∈ entries, ∀ k, Starts other.1.language cs k → k < n) :
    Wins (entries ++ [entry]) cs entry.2 n := by
  refine ⟨⟨entries, entry.1, [], rfl, hlast.1, fun other hother hstarts => ?_⟩, fun other hother k hk => ?_⟩
  · exact Nat.lt_irrefl n (hothers other hother n hstarts)
  · rcases List.mem_append.mp hother with hother | hother
    · exact Nat.le_of_lt (hothers other hother k hk)
    · exact hlast.2 k (List.mem_singleton.mp hother ▸ hk)

/-- The best match of the patterns so far. -/
theorem best_spec (entries : List (Pattern × Lexeme)) (cs : List Char) :
    match entries.foldl (fun best entry => match entry.1.reach cs with
      | none => best
      | some n => some (better best (entry.2, n))) none with
    | none => Fails entries cs
    | some (lexeme, n) => Wins entries cs lexeme n := by
  induction entries using List.reverseRecOn with
  | nil => exact fun entry hentry => absurd hentry List.not_mem_nil
  | append_singleton entries entry ih =>
      have hreach := longest_reach entry.1 cs
      rw [List.foldl_append, List.foldl_cons, List.foldl_nil]
      generalize entries.foldl _ none = best at ih
      cases hlength : entry.1.reach cs with
      | none =>
          rw [hlength] at hreach
          cases best with
          | none =>
              intro other hother
              rcases List.mem_append.mp hother with hother | hother
              · exact ih other hother
              · exact List.mem_singleton.mp hother ▸ hreach
          | some found => exact ih.append fun k hk => absurd hk (hreach k)
      | some n =>
          rw [hlength] at hreach
          cases best with
          | none => exact wins_last hreach fun other hother k hk => absurd hk (ih other hother k)
          | some found =>
              dsimp only [better]
              split
              · next hlt =>
                exact wins_last hreach fun other hother k hk =>
                  Nat.lt_of_le_of_lt (ih.longest other hother k hk) hlt
              · next hle =>
                exact ih.append fun k hk => Nat.le_trans (hreach.2 k hk) (Nat.le_of_not_lt hle)

/-- The longest match of any pattern is found, if there is one. -/
theorem longest_spec (cs : List Char) :
    match longest cs with
    | none => Fails patterns cs
    | some (lexeme, n) => Wins patterns cs lexeme n := best_spec patterns cs

end Stela.Lexeme
