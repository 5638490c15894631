import Mathlib.Algebra.Module.Submodule.Lattice
import Mathlib.Data.List.Permutation
import Stela.Proofs.Syntax.Integers
import Stela.Proofs.Syntax.Soundness
import Stela.Proofs.Token.Ending
import Stela.Proofs.Token.Evaluation

/-!
# Modules that are accepted

A module that was accepted is spelled by the tokens of its source up to the end
of the input: no declaration, member or statement was left out, because what is
left out leaves an error.
-/

namespace Stela

open Phrase ParseState

/-! ## Numbers of enum cases -/

namespace Literal

/-- Decimal digits have no suffix. -/
theorem splitSuffix_of_decimal {digits : List Char} (h : ∀ c ∈ digits, isDecimalDigit c = true) :
    splitSuffix digits = (digits, .plain) := by
  unfold splitSuffix
  split
  · next hlast => exact absurd (h _ (List.mem_of_getLast? hlast)) (by decide)
  · next hlast => exact absurd (h _ (List.mem_of_getLast? hlast)) (by decide)
  · rfl

/-- The token of the number of an enum case says its absolute value. -/
theorem ofInteger_of_enumValue {text : String} {negative : Bool} {value : Int64}
    (h : enumValue text negative = .ok value) :
    ofInteger text = .ok (.int (UInt64.ofNat value.toInt.natAbs) .plain) ∧
      if negative then value.toInt ≤ 0 else 0 ≤ value.toInt := by
  unfold enumValue at h
  split at h
  · cases h
  · next n hdigits =>
    split at h
    · cases h
    · next hsmall =>
      have hlt : n < 2 ^ 63 := by simpa using hsmall
      have hpadded := (readDigits_eq_some hdigits).2
      have hvalue : value.toInt = if negative then -(n : Int) else n := by
        cases h
        apply Int64.toInt_ofInt_of_le
        · split <;> omega
        · split <;> omega
      have habs : value.toInt.natAbs = n := by
        rw [hvalue]
        split <;> simp
      constructor
      · unfold ofInteger
        rw [splitSuffix_of_decimal hpadded]
        dsimp only
        rw [readInteger_of_decimal hpadded, hdigits, habs]
        simp [UInt64.size, show ¬18446744073709551616 ≤ n by omega]
      · rw [hvalue]
        cases negative <;> simp

end Literal

namespace ParseState

variable {s : ParseState}

theorem kept_skipBlock (h : s.errors ≠ []) (bound depth : Nat) :
    (skipBlock bound depth s).errors ≠ [] := by
  induction bound generalizing depth s with
  | zero => exact h
  | succ bound ih =>
      unfold skipBlock
      split
      · exact h
      · exact ih (kept_advance h) _

theorem kept_skipToDeclaration (h : s.errors ≠ []) (bound : Nat) :
    (skipToDeclaration bound s).errors ≠ [] := by
  induction bound generalizing s with
  | zero => exact h
  | succ bound ih =>
      unfold skipToDeclaration
      split
      · exact h
      · split
        · exact ih (kept_skipBlock (kept_advance h) _ _)
        · exact ih (kept_advance h)

theorem kept_synchronize (h : s.errors ≠ []) : s.synchronize.errors ≠ [] :=
  kept_skipToDeclaration (s := { s with recovering := false }) h _

end ParseState

namespace Parse

variable {s₀ s : ParseState} {M : Language Word}

/-- Nothing but `extern` stands in front of the function of a host. -/
theorem read_hosted (hs : s.Explained) (hhost : s.kind = .kwExtern)
    (hfunc : s.advance.kind = .kwFunc) :
    Read s (mark .kwExtern * mark .kwFunc) s.advance.advance where
  kept := fun herrors => kept_advance (kept_advance herrors)
  explained := explained_advance (explained_advance hs)
  spelled := by
    intro _ _
    have hhost : s.current.kind = .kwExtern := hhost
    have hfunc : s.advance.current.kind = .kwFunc := hfunc
    constructor
    · refine spells_mul.mpr ⟨s.advance.unread, spells_word.mpr ⟨s.current, ?_, ?_⟩,
        spells_word.mpr ⟨s.advance.current, ?_, ?_⟩⟩
      · exact unread_advance (by simp [hhost])
      · exact Token.word?_of_mark rfl hhost
      · exact unread_advance (by simp [hfunc])
      · exact Token.word?_of_mark rfl hfunc
    · simp [hfunc]

/-! ## Members and cases -/

theorem forms_body (bound : Nat) : Forms (body bound) Stmt.blockLanguage := (formsAt bound).body

theorem read_fieldDecl (bound : Nat) {access : Access} (h : Read s₀ access.language s) :
    (fieldDecl bound access).Ends recorded s fun decl s' => Read s₀ decl.language s' := by
  refine .next rfl ((read_ident h).bind fun name s₁ h₁ => ?_)
  refine (read_expect h₁ rfl (by decide)).bind fun _ s₂ h₂ => ?_
  refine ((forms_typeExpr bound).ends h₂).bind fun type s₃ h₃ => ?_
  exact (read_expect h₃ rfl (by decide)).bind fun _ s₄ h₄ => .next rfl (.pure h₄)

theorem forms_member (bound : Nat) : Forms (member bound) Member.language := by
  intro s hs
  refine (read_accept (.refl hs) rfl (by decide)).bind fun isPrivate s₁ h₁ => ?_
  have func (funcKind : FuncKind) (access : Access) {s' : ParseState}
      (h : Read s (access.language * funcKind.language) s') : Ends recorded (do
      let decl ← funcDecl (body bound) bound funcKind access
      return (.func decl : Member)) s' fun member s'' => Read s member.language s'' := by
    refine ((forms_funcDecl (forms_body bound) bound funcKind access).ends h).bind
      fun decl s₂ h₂ => .pure (h₂.mono ?_)
    rintro _ ⟨before, hbefore, after, ⟨⟨hbody, rfl, rfl⟩, hafter⟩, rfl⟩
    exact ⟨before, hbefore, after, ⟨hbody, hafter⟩, rfl⟩
  have haccess : Read s (if isPrivate then Access.ownerOnly else .everyone).language s₁ := by
    cases isPrivate with
    | true => simpa [Access.language] using h₁
    | false => simpa [Access.language] using h₁
  refine .next rfl ?_
  split
  · next hkind => exact .next rfl (func .static _ (haccess.mark hkind rfl (by decide)))
  · refine func (.method .fixed) _ (haccess.mono ?_)
    rw [FuncKind.language, mul_one]
  · exact (read_fieldDecl bound haccess).bind fun decl s₂ h₂ => .pure h₂
  · next hkind =>
    refine .next rfl ?_
    split
    · exact .next rfl (func (.method .mutable) _ (haccess.mark hkind rfl (by decide)))
    · exact failingHere haccess.explained _
  · exact failingHere haccess.explained _

theorem forms_members (bound n : Nat) :
    Forms (members bound n) fun members => (members.map Member.language).prod := by
  induction n with
  | zero => exact fun _ _ => trivial
  | succ n ih =>
      intro s hs
      refine .next rfl ?_
      split
      · exact .pure (.refl hs)
      · refine (forms_member bound s hs).bind fun first s₁ h₁ => ?_
        exact (ih.ends h₁).bind fun rest s₂ h₂ =>
          .pure (h₂.mono (le_of_eq List.prod_cons.symm))

theorem forms_enumCase : Forms enumCase EnumCase.language := by
  intro s hs
  refine (read_ident (.refl hs)).bind fun name s₁ h₁ => ?_
  refine (read_accept h₁ rfl (by decide)).bind fun valued s₂ h₂ => ?_
  split
  · next hvalued =>
    rw [if_pos hvalued] at h₂
    refine (read_accept h₂ rfl (by decide)).bind fun negative s₃ h₃ => ?_
    refine (ends_expect (P := fun token s₄ => token = s₃.current ∧ s₄ = s₃.advance ∧
      s₃.kind = .intLit) h₃.explained fun hkind => ⟨rfl, rfl, hkind⟩).bind ?_
    rintro _ _ ⟨rfl, rfl, hkind⟩
    have hint : s₃.current.kind = .intLit := hkind
    cases hvalue : Literal.enumValue s₃.current.text negative with
    | error error =>
        exact .bind (P := fun _ _ => False) (failing (explained_advance h₃.explained) _ _)
          fun _ _ h => h.elim
    | ok value =>
        obtain ⟨hliteral, hsign⟩ := Literal.ofInteger_of_enumValue hvalue
        have hword : s₃.current.word? =
            some (.literal (.int (UInt64.ofNat value.toInt.natAbs) .plain)) := by
          simp [Token.word?, hint, hliteral, Except.toOption]
        refine .next rfl (.pure ((h₃.advance hword (by simp [hint])).mono ?_))
        rw [EnumCase.language, one_mul]
        simp only [mul_assoc]
        refine mul_le_mul_right (mul_le_mul_right (mul_le_mul_left ?_ _) _) _
        cases negative with
        | true =>
            rw [given_of (show value.toInt ≤ 0 from hsign)]
            exact le_add_of_nonneg_left bot_le
        | false =>
            rw [given_of (show 0 ≤ value.toInt from hsign)]
            exact le_add_of_nonneg_right bot_le
  · next hnone =>
    rw [if_neg hnone] at h₂
    exact .pure (h₂.mono (by simp [EnumCase.language, behind]))

theorem read_structDecl (bound : Nat) (h : Read s₀ (mark .kwStruct) s.advance) :
    (structDecl bound).Ends recorded s fun decl s' => Read s₀ decl.language s' := by
  refine .next rfl ((read_ident h).bind fun name s₁ h₁ => ?_)
  refine (read_expect h₁ rfl (by decide)).bind fun _ s₂ h₂ => ?_
  refine ((forms_members bound bound).ends h₂).bind fun members s₃ h₃ => ?_
  exact (read_expect h₃ rfl (by decide)).bind fun _ s₄ h₄ =>
    .next rfl (.of_eq rfl (h₄.finish (le_refl _)))

theorem read_enumDecl (bound : Nat) (h : Read s₀ (mark .kwEnum) s.advance) :
    (enumDecl bound).Ends recorded s fun decl s' => Read s₀ decl.language s' := by
  refine .next rfl ((read_ident h).bind fun name s₁ h₁ => ?_)
  refine (read_expect h₁ rfl (by decide)).bind fun _ s₂ h₂ => ?_
  refine ((forms_commaList forms_enumCase bound).ends h₂).bind fun cases s₃ h₃ => ?_
  exact (read_expect h₃ rfl (by decide)).bind fun _ s₄ h₄ =>
    .next rfl (.of_eq rfl (h₄.finish (le_refl _)))

theorem read_aliasDecl (bound : Nat) (h : Read s₀ (mark .kwType) s.advance) :
    (aliasDecl bound).Ends recorded s fun decl s' => Read s₀ decl.language s' := by
  refine .next rfl ((read_ident h).bind fun name s₁ h₁ => ?_)
  refine (read_accept h₁ rfl (by decide)).bind fun weak s₂ h₂ => ?_
  refine ((forms_typeExpr bound).ends h₂).bind fun target s₃ h₃ => ?_
  refine (read_expect h₃ rfl (by decide)).bind fun _ s₄ h₄ =>
    .next rfl (.of_eq rfl (h₄.finish ?_))
  cases weak <;> simp [Decl.language]

theorem forms_declaration (bound : Nat) : Forms (declaration bound) Decl.language := by
  intro s hs
  have hstart := Read.refl hs
  have keyword {kind : TokenKind} (hkind : s.kind = kind) (hmark : kind.isMark = true)
      (hplain : kind ≠ .kwExtern) : Read s (mark kind) s.advance := by
    simpa using hstart.mark hkind hmark hplain
  have declared (hkind : s.kind = .kwLet ∨ s.kind = .kwVar) : Ends recorded (do
      let first ← currentSpan
      let global ← binding (expr .lowest bound) bound
      newDecl id (fun node => Decl.global node global) (first.merge (← previousSpan))) s
      fun decl s' => Read s decl.language s' :=
    .next rfl ((read_binding (formsAt bound).whole bound (read_keyword hs hkind)).bind
      fun global s₁ h₁ => .next rfl (.of_eq rfl (h₁.finish (le_refl _))))
  refine .next rfl ?_
  split
  · refine (forms_funcDecl (forms_body bound) bound .free .everyone s hs).bind fun decl s₁ h₁ =>
      .pure (h₁.mono ?_)
    rintro ws ⟨⟨hbody, hkind, haccess⟩, hws⟩
    rw [Decl.language, if_pos hbody, one_mul]
    exact ⟨⟨hkind, haccess⟩, hws⟩
  · next hkind =>
    refine .next rfl (.next rfl ?_)
    split
    · next hfunc =>
      refine (read_funcDecl (M := mark .kwExtern) (forms_body bound) bound .free .everyone
        (explained_advance hs) (read_hosted hs hkind)).bind fun decl s₁ h₁ => .pure (h₁.mono ?_)
      rintro _ ⟨before, hbefore, after, ⟨⟨hbody, hrest⟩, hafter⟩, rfl⟩
      have hhost : s.current.kind = .kwExtern := hkind
      have hnone : ¬decl.body.isSome = true := by
        simp only [previous_advance, hhost, beq_self_eq_true] at hbody
        simpa [Option.isNone_iff_eq_none] using hbody
      rw [Decl.language, if_neg hnone]
      exact ⟨before, hbefore, after, ⟨hrest, hafter⟩, rfl⟩
    · exact failingHere (explained_advance hs) _
  · next hkind => exact read_structDecl bound (keyword hkind rfl (by decide))
  · next hkind => exact read_enumDecl bound (keyword hkind rfl (by decide))
  · next hkind => exact read_aliasDecl bound (keyword hkind rfl (by decide))
  · next hkind => exact declared (.inl hkind)
  · next hkind => exact declared (.inr hkind)
  · exact failingHere hs _
  · exact failingHere hs _

/-! ## Modules -/

/-- Declarations are read up to the end of the input. -/
theorem ends_declarations (bound n : Nat) (hs : s.Explained) :
    (declarations bound n).Ends recorded s fun decls s' =>
      Read s (decls.map Decl.language).prod s' ∧ s'.atEnd = true := by
  induction n generalizing s with
  | zero => trivial
  | succ n ih =>
      refine .next rfl ?_
      split
      · next hend => exact .pure ⟨.refl hs, hend⟩
      · -- Where a declaration is left out nothing is claimed of the tokens.
        have skipped {s' : ParseState} (herrors : s'.errors ≠ []) : Ends recorded (do
            update ParseState.synchronize
            declarations bound n) s' fun decls s'' =>
            Read s (decls.map Decl.language).prod s'' ∧ s''.atEnd = true := by
          have hkept := kept_synchronize herrors
          refine .next rfl ((ih fun _ => hkept).mono fun decls s'' h => ⟨?_, h.2⟩)
          exact ((Read.of_errors (L := 0) hkept).trans h.1).mono (by simp)
        refine (ends_attempt (forms_declaration bound s hs)).bind fun first s₁ h₁ => .next rfl ?_
        split
        · next hrecovering =>
          cases first with
          | none => exact skipped h₁
          | some decl => exact skipped (h₁.explained hrecovering)
        · split
          · exact (ih h₁.explained).bind fun rest s₂ h₂ =>
              .pure ⟨(h₁.trans h₂.1).mono (le_of_eq List.prod_cons.symm), h₂.2⟩
          · exact skipped h₁

/-- The words of a header. -/
def headerLanguage : Option Ident → Language Word
  | none => 1
  | some name => mark .kwModule * word (.name name.name) * mark .semi

theorem forms_header : Forms header headerLanguage := by
  intro s hs
  refine (read_accept (.refl hs) rfl (by decide)).bind fun found s₁ h₁ => ?_
  split
  · next hfound =>
    rw [if_pos hfound, one_mul] at h₁
    refine (ends_attempt (read_ident h₁)).bind fun name s₂ h₂ => ?_
    have hname : Read s (mark .kwModule * word (.name ((name.map Ident.name).getD "<error>"))) s₂ := by
      cases name with
      | none => exact .of_errors h₂
      | some name => exact h₂
    refine (ends_attempt (read_expect hname rfl (by decide))).bind fun closed s₃ h₃ => ?_
    refine .next rfl (.pure ?_)
    cases closed with
    | none => exact .of_errors h₃
    | some _ =>
        cases name with
        | none => exact h₃
        | some name => exact h₃
  · next hnone =>
    rw [if_neg hnone, one_mul] at h₁
    exact .pure h₁

theorem forms_importDecl : Forms importDecl importLanguage := by
  intro s hs
  refine (read_expect (.refl hs) rfl (by decide)).bind fun _ s₁ h₁ => ?_
  refine (read_ident h₁).bind fun name s₂ h₂ => ?_
  refine (read_expect h₂ rfl (by decide)).bind fun _ s₃ h₃ => .pure (h₃.mono ?_)
  rw [importLanguage, one_mul]

theorem forms_imports (n : Nat) :
    Forms (imports n) fun names => (names.map importLanguage).prod := by
  induction n with
  | zero => exact fun _ _ => trivial
  | succ n ih =>
      intro s hs
      refine .next rfl ?_
      split
      · refine (ends_attempt (forms_importDecl s hs)).bind fun first s₁ h₁ => ?_
        cases first with
        | none =>
            refine (ih.ends (.of_errors (L := 0) h₁)).bind fun rest s₂ h₂ => .pure (h₂.mono ?_)
            simp
        | some name =>
            exact (ih.ends h₁).bind fun rest s₂ h₂ =>
              .pure (h₂.mono (le_of_eq List.prod_cons.symm))
      · exact .pure (.refl hs)

theorem ends_moduleDecl (file : FileId) (defaultName : String) (bound : Nat) (hs : s.Explained) :
    (moduleDecl file defaultName bound).Ends recorded s fun m s' =>
      Read s (m.language ⟨defaultName, { Span.dummy with file := file }⟩) s' ∧ s'.atEnd = true := by
  refine (forms_header s hs).bind fun name s₁ h₁ => ?_
  refine ((forms_imports bound).ends h₁).bind fun imports s₂ h₂ => ?_
  refine (ends_declarations bound bound h₂.explained).bind fun decls s₃ h₃ => ?_
  refine .pure ⟨(h₂.trans h₃.1).mono ?_, h₃.2⟩
  refine mul_le_mul_left (mul_le_mul_left ?_ _) _
  cases name with
  | none => exact fun ws hws => (Language.mem_add _ _ _).mpr (.inl ⟨rfl, hws⟩)
  | some name => exact le_add_of_nonneg_left bot_le

/-! ## Giving up -/

/-- The steps that read one form of the grammar. -/
inductive Production : {α : Type} → Parse α → Prop
  | expect (kind : TokenKind) : Production (expect kind)
  | ident : Production ident
  | typeExpr (bound : Nat) : Production (typeExpr bound)
  | param (bound : Nat) : Production (param bound)
  | signature (bound : Nat) : Production (signature bound)
  | expr (level : Precedence) (bound : Nat) : Production (expr level bound)
  | exprRest (level : Precedence) (left : Expr) (bound : Nat) :
      Production (exprRest level left bound)
  | operand (bound : Nat) : Production (operand bound)
  | primary (bound : Nat) : Production (primary bound)
  | exprOrAssign (bound : Nat) : Production (exprOrAssign (Parse.expr .lowest bound))
  | binding (bound : Nat) : Production (binding (Parse.expr .lowest bound) bound)
  | stmt (bound : Nat) : Production (stmt bound)
  | ifElse (bound : Nat) : Production (ifElse bound)
  | stmts (bound n : Nat) : Production (stmts (Parse.stmt bound) n)
  | body (bound : Nat) : Production (body bound)
  | requiredBody (bound : Nat) : Production (requiredBody (Parse.body bound))
  | funcDecl (bound : Nat) (kind : FuncKind) (access : Access) :
      Production (funcDecl (Parse.body bound) bound kind access)
  | fieldDecl (bound : Nat) (access : Access) : Production (fieldDecl bound access)
  | member (bound : Nat) : Production (member bound)
  | members (bound n : Nat) : Production (members bound n)
  | structDecl (bound : Nat) : Production (structDecl bound)
  | enumCase : Production enumCase
  | enumDecl (bound : Nat) : Production (enumDecl bound)
  | aliasDecl (bound : Nat) : Production (aliasDecl bound)
  | declaration (bound : Nat) : Production (declaration bound)
  | declarations (bound n : Nat) : Production (declarations bound n)
  | header : Production header
  | importDecl : Production importDecl
  | imports (n : Nat) : Production (imports n)
  | moduleDecl (file : FileId) (defaultName : String) (bound : Nat) :
      Production (moduleDecl file defaultName bound)
  | wholeType (bound : Nat) : Production (wholeType bound)
  | commaList {α : Type} {item : Parse α} (close : TokenKind) (bound : Nat) :
      Production item → Production (commaList close item bound)
  | optionalAfter {α : Type} {item : Parse α} (mark : TokenKind) :
      Production item → Production (optionalAfter mark item)

/-- Where the step gives up, an error has been recorded. -/
def Tells {α : Type} (p : Parse α) : Prop :=
  ∀ s, s.Explained → p.Ends recorded s fun _ s' => s'.Explained

section Tells

variable {α : Type} {p : Parse α} {L : α → Language Word}

theorem Forms.tells (h : Forms p L) : Tells p :=
  fun s hs => (h s hs).mono fun _ _ hread => hread.explained

theorem tells_accept (kind : TokenKind) : Tells (accept kind) := by
  intro s hs
  refine .next rfl ?_
  split
  · exact .next rfl (.pure (explained_advance hs))
  · exact .pure hs

theorem tells_commaList (h : Tells p) (close : TokenKind) (bound : Nat) :
    Tells (commaList close p bound) := by
  induction bound with
  | zero => exact fun _ _ => trivial
  | succ bound ih =>
      intro s hs
      refine .next rfl ?_
      split
      · exact .pure hs
      · refine (h s hs).bind fun first s₁ h₁ => (tells_accept .comma s₁ h₁).bind fun more s₂ h₂ => ?_
        split
        · exact (ih s₂ h₂).bind fun rest s₃ h₃ => .pure h₃
        · exact .pure h₂

theorem tells_optionalAfter (h : Tells p) (mark : TokenKind) : Tells (optionalAfter mark p) := by
  intro s hs
  refine (tells_accept mark s hs).bind fun found s₁ h₁ => ?_
  split
  · exact (h s₁ h₁).bind fun value s₂ h₂ => .pure h₂
  · exact .pure h₁

theorem tells_wholeType (bound : Nat) : Tells (wholeType bound) := by
  intro s hs
  refine (ends_attempt (forms_typeExpr bound s hs)).bind fun type s₁ h₁ => .next rfl ?_
  dsimp only
  cases type with
  | none =>
      split
      · exact .next rfl (kept_report h₁ _ _)
      · exact h₁
  | some type =>
      split
      · exact .next rfl (.pure fun _ => errors_report h₁.explained _ _)
      · exact .pure h₁.explained

/-- A step that reads on from words that were read before. -/
theorem tells_of_read {next : ParseState → ParseState} {L : ParseState → Language Word}
    {M : ParseState → ParseState → α → Language Word}
    (hnext : ∀ s : ParseState, s.Explained → (next s).Explained)
    (h : ∀ s₀ s, s.Explained → Read s₀ (L s) (next s) →
      p.Ends recorded s fun a s' => Read s₀ (M s s' a) s') : Tells p := by
  intro s hs
  obtain ⟨s₀, hread⟩ := Read.behindExtern (hnext s hs) (L s)
  exact (h s₀ s hs hread).mono fun _ _ h' => h'.explained

theorem Production.tells (h : Production p) : Tells p := by
  induction h with
  | expect kind => exact fun s hs => ends_expect hs fun _ => explained_advance hs
  | ident => exact fun s hs => (read_ident (.refl hs)).mono fun _ _ h => h.explained
  | typeExpr bound => exact (forms_typeExpr bound).tells
  | param bound => exact (forms_param bound).tells
  | signature bound => exact (forms_signature bound).tells
  | expr level bound => exact fun s hs => ((formsAt bound).expr level s hs).mono fun _ _ h => h.1.explained
  | exprRest level left bound =>
      intro s hs
      obtain ⟨s₀, hread⟩ := Read.behindExtern hs (placed Precedence.call.rank left.rank left.language)
      exact ((formsAt bound).exprRest level left _ s₀ s hread
        (Nat.le_trans (Nat.min_le_right _ _) (by decide)) (admits_call s)).mono
        fun _ _ h => h.1.explained
  | operand bound =>
      intro s hs
      refine ((formsAt bound).operand s hs).mono fun _ _ hread => ?_
      obtain ⟨_, -, hread, -⟩ := hread
      exact hread.explained
  | primary bound => exact (formsAt bound).primary.tells
  | exprOrAssign bound =>
      exact fun s hs => (read_exprOrAssign (formsAt bound).whole hs).mono fun _ _ h =>
        (h ⟨0, .dummy⟩).explained
  | binding bound =>
      exact tells_of_read (fun _ => explained_advance) fun _ _ _ =>
        read_binding (formsAt bound).whole bound
  | stmt bound => exact (formsAt bound).stmt.tells
  | ifElse bound =>
      exact tells_of_read (fun _ => explained_advance) fun s₀ s _ => (formsAt bound).ifElse s₀ s
  | stmts bound n => exact (forms_stmts (formsAt bound).stmt n).tells
  | body bound => exact (forms_body bound).tells
  | requiredBody bound => exact (forms_requiredBody (forms_body bound)).tells
  | funcDecl bound kind access => exact (forms_funcDecl (forms_body bound) bound kind access).tells
  | fieldDecl bound access =>
      exact tells_of_read (fun _ hs => hs) fun _ _ _ => read_fieldDecl bound
  | member bound => exact (forms_member bound).tells
  | members bound n => exact (forms_members bound n).tells
  | structDecl bound =>
      exact tells_of_read (fun _ => explained_advance) fun _ _ _ => read_structDecl bound
  | enumCase => exact forms_enumCase.tells
  | enumDecl bound =>
      exact tells_of_read (fun _ => explained_advance) fun _ _ _ => read_enumDecl bound
  | aliasDecl bound =>
      exact tells_of_read (fun _ => explained_advance) fun _ _ _ => read_aliasDecl bound
  | declaration bound => exact (forms_declaration bound).tells
  | declarations bound n =>
      exact fun s hs => (ends_declarations bound n hs).mono fun _ _ h => h.1.explained
  | header => exact forms_header.tells
  | importDecl => exact forms_importDecl.tells
  | imports n => exact (forms_imports n).tells
  | moduleDecl file defaultName bound =>
      exact fun s hs => (ends_moduleDecl file defaultName bound hs).mono fun _ _ h => h.1.explained
  | wholeType bound => exact tells_wholeType bound
  | commaList close bound _ ih => exact tells_commaList ih close bound
  | optionalAfter mark _ ih => exact tells_optionalAfter ih mark

end Tells

end Parse

/-! ## Accepted sources -/

namespace ParseState

theorem previous_start (tokens : List Token) (nodes : NodeCount) :
    (start tokens nodes).previous.kind = .invalid := by
  unfold start
  split <;> simp

theorem unread_start {written : List Token} {last : Token} (nodes : NodeCount)
    (hlast : last.kind = .eof) (hwritten : ∀ token ∈ written, token.kind ≠ .eof) :
    (start (written ++ [last]) nodes).unread = written := by
  have htake : (written ++ [last]).takeWhile (·.kind != .eof) = written := by
    rw [List.takeWhile_append_of_pos fun token htoken => by simpa using hwritten token htoken]
    simp [hlast]
  cases written with
  | nil => simpa [start, unread] using htake
  | cons first rest => simpa [start, unread] using htake

end ParseState

/-- The name of a module without a header. -/
def unnamed (file : FileId) (defaultName : String) : Ident :=
  ⟨defaultName, { Span.dummy with file := file }⟩

/-- The tokens of an accepted source spell the module, up to the end of the input. -/
theorem spelled_of_parseModule {source : String} {file : FileId} {defaultName : String}
    {nodes : NodeCount} {m : Module} (h : (parseModule source file defaultName nodes).1 = .ok m) :
    ∃ written last, lex source file = written ++ [last] ∧ last.kind = .eof ∧
      ∃ ws ∈ m.language (unnamed file defaultName), written.map Token.word? = ws.map some := by
  obtain ⟨written, last, htokens, hlast, hwritten⟩ := lex_eq_append source file
  refine ⟨written, last, htokens, hlast, ?_⟩
  rw [parseModule, runParse_eq] at h
  dsimp only at h
  split at h
  · next value s hrun =>
    dsimp only at h
    split at h
    · next herrors =>
      cases h
      have hends := Parse.ends_moduleDecl file defaultName
        (ParseState.start (lex source file) nodes).stepBound (explained_start (lex source file) nodes)
      obtain ⟨hread, hend⟩ := hends.of_ok hrun
      have hspelled := (hread.spelled (by simpa using herrors) (by simp [previous_start])).1
      rw [unread_of_atEnd hend, htokens, unread_start nodes hlast hwritten] at hspelled
      obtain ⟨read, ws, rfl, hread, hws⟩ := hspelled
      exact ⟨ws, hws, by rwa [List.append_nil]⟩
    · cases h
  · cases h
  · cases h

/-- A source that is not accepted gets a reason. -/
theorem diagnostics_of_parseModule {source : String} {file : FileId} {defaultName : String}
    {nodes : NodeCount} {diagnostics : List Diagnostic}
    (h : (parseModule source file defaultName nodes).1 = .error (.errors diagnostics)) :
    diagnostics ≠ [] := by
  rw [parseModule, runParse_eq] at h
  dsimp only at h
  split at h
  · next value s hrun =>
    dsimp only at h
    split at h
    · cases h
    · next herrors =>
      cases h
      simpa using herrors
  · next s hrun =>
    cases h
    have hends := Parse.ends_moduleDecl file defaultName
      (ParseState.start (lex source file) nodes).stepBound (explained_start (lex source file) nodes)
    have herrors : s.errors ≠ [] := hends.of_failed hrun
    simpa using herrors
  · cases h

/-- Parsing keeps every word of an accepted source, and gives up nowhere without recording why. -/
theorem parsing_loses_nothing :
    (∀ source file defaultName nodes m, (parseModule source file defaultName nodes).1 = .ok m →
      (∀ token ∈ lex source file, token.IsValid) ∧
      ∃ written last, lex source file = written ++ [last] ∧ last.kind = .eof ∧
        ∃ ws ∈ m.language (unnamed file defaultName), written.map Token.word? = ws.map some) ∧
    (∀ source file defaultName nodes diagnostics,
      (parseModule source file defaultName nodes).1 = .error (.errors diagnostics) →
      diagnostics ≠ []) ∧
    ∀ (α : Type) (p : Parse α), Parse.Production p → ∀ s s', s.Explained → p s = .failed s' →
      s'.errors ≠ [] := by
  refine ⟨fun source file defaultName nodes m h => ?_,
    fun source file defaultName nodes diagnostics h => diagnostics_of_parseModule h,
    fun α p hp s s' hs hfailed => (hp.tells s hs).of_failed hfailed⟩
  · obtain ⟨written, last, htokens, hlast, ws, hws, hwords⟩ := spelled_of_parseModule h
    refine ⟨fun token htoken => ?_, written, last, htokens, hlast, ws, hws, hwords⟩
    rw [htokens, List.mem_append, List.mem_singleton] at htoken
    rcases htoken with htoken | rfl
    · have hword := List.mem_map_of_mem (f := Token.word?) htoken
      rw [hwords] at hword
      obtain ⟨w, -, hw⟩ := List.mem_map.mp hword
      exact Token.isValid_of_word? (by rw [← hw]; rfl)
    · simp [Token.IsValid, hlast]

/-- A module with tokens that can be left out: parentheses around expressions, commas behind the last
item and the braces of a block that is an `if`. -/
def varied : String :=
  "import base; type T = sint;
   func f(a: T,) -> [T] {
     if (a) == 1 { return [(a), 2,]; } else { if a == 2 { f((3)); } else if (a == 4) { } }
     while ((true)) { break; }
     return [];
   }"

theorem parsing_loses_nothing_varied :
    (∃ m, (parseModule varied 0 "main" {}).1 = .ok m ∧
      (∀ token ∈ lex varied 0, token.IsValid) ∧
      ∃ written last, lex varied 0 = written ++ [last] ∧ last.kind = .eof ∧
        ∃ ws ∈ m.language (unnamed 0 "main"), written.map Token.word? = ws.map some) ∧
    ∃ s', Parse.ident (.start [] {}) = .failed s' ∧ s'.errors ≠ [] := by
  obtain ⟨haccepted, -, hfailed⟩ := parsing_loses_nothing
  constructor
  · have hok : (parseModule varied 0 "main" {}).1.isOk = true := by
      rw [varied, parseModule, runParse_eq, lex_ofList]
      decide +kernel
    cases hrun : (parseModule varied 0 "main" {}).1 with
    | error _ => simp [hrun, Except.isOk, Except.toBool] at hok
    | ok m => exact ⟨m, rfl, haccepted _ 0 "main" {} m hrun⟩
  · have hexplained := ParseState.explained_start [] {}
    exact ⟨_, rfl, hfailed Ident Parse.ident .ident (.start [] {}) _ hexplained rfl⟩

/-- Tokens that a writing may have more or fewer of. -/
def TokenKind.isOptional : TokenKind → Bool
  | .lparen | .rparen | .lbrace | .rbrace | .comma => true
  | _ => false

/-- The tokens of a source without those that it may have more or fewer of. -/
def essentials (source : String) : List Token :=
  (lex source 0).filter fun token => !token.kind.isOptional

/-- A module keeps neither the minus of a zero nor the spelling of a number, so nothing that writes
modules restores the words, or the texts, of every accepted source. -/
theorem parsing_forgets :
    (¬∃ write : Module → List (Option Word), ∀ source m,
      (parseModule source 0 "main" {}).1 = .ok m →
        (essentials source).map Token.word? = write m) ∧
    ¬∃ write : Module → List String, ∀ source m,
      (parseModule source 0 "main" {}).1 = .ok m →
        (essentials source).map Token.text = write m := by
  have accepted (source other : String)
      (hsame : (parseModule source 0 "main" {}).1 = (parseModule other 0 "main" {}).1)
      (hok : (parseModule source 0 "main" {}).1.isOk = true) :
      ∃ m, (parseModule source 0 "main" {}).1 = .ok m ∧
        (parseModule other 0 "main" {}).1 = .ok m := by
    cases hrun : (parseModule source 0 "main" {}).1 with
    | error _ => simp [hrun, Except.isOk, Except.toBool] at hok
    | ok m => exact ⟨m, rfl, by rw [← hsame, hrun]⟩
  constructor
  · rintro ⟨write, hwrite⟩
    obtain ⟨m, hminus, hplain⟩ := accepted "enum E { A = -0 }" "enum E { A =  0 }"
      (by cbv) (by cbv)
    have hwords : ((essentials "enum E { A = -0 }").map Token.word?).length =
        ((essentials "enum E { A =  0 }").map Token.word?).length := by
      rw [hwrite _ m hminus, hwrite _ m hplain]
    have hlong : ((essentials "enum E { A = -0 }").map Token.word?).length = 7 := by cbv
    have hshort : ((essentials "enum E { A =  0 }").map Token.word?).length = 6 := by cbv
    omega
  · rintro ⟨write, hwrite⟩
    obtain ⟨m, hshort, hpadded⟩ := accepted "enum E { A =  1 }" "enum E { A = 01 }"
      (by cbv) (by cbv)
    have htexts : (essentials "enum E { A =  1 }").map Token.text =
        (essentials "enum E { A = 01 }").map Token.text := by
      rw [hwrite _ m hshort, hwrite _ m hpadded]
    have hleft : (essentials "enum E { A =  1 }").map Token.text =
        ["enum", "E", "A", "=", "1", ""] := by cbv
    have hright : (essentials "enum E { A = 01 }").map Token.text =
        ["enum", "E", "A", "=", "01", ""] := by cbv
    rw [hleft, hright] at htexts
    exact absurd htexts (by decide)

end Stela
