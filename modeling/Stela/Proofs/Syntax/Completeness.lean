import Stela.Proofs.Syntax.Writing
import Stela.Proofs.Syntax.Outcomes

/-!
# Whatever is written is read

Tokens that spell a tree are read as that tree, up to numbers and places, if
what follows them does not go on.
-/

namespace Stela

open Phrase

variable {α β : Type}

/-! ## What stands ahead -/

namespace Phrase

/-- Something follows, and its first token is of such a kind. -/
def Follows (P : TokenKind → Prop) (tokens : List Token) : Prop :=
  ∃ token rest, tokens = token :: rest ∧ P token.kind

/-- Whatever spells the language starts in such a way. -/
def Begins (P : List Token → Prop) (L : Language Word) : Prop :=
  ∀ tokens rest, Spells L tokens rest → P tokens

/-- What may follow a type. -/
def TypeEnd (kind : TokenKind) : Prop := kind ≠ .dot ∧ kind ≠ .arrow

/-- What may follow a whole expression. -/
def ExprEnd (kind : TokenKind) : Prop := Continuation.ofToken kind = none

/-- Whatever follows. -/
def Anything (_ : TokenKind) : Prop := True

/-- The token neither ends a body nor goes on with a conditional. -/
def StartsStmt (kind : TokenKind) : Prop := kind ≠ .rbrace ∧ kind ≠ .eof ∧ kind ≠ .kwElse

section Starts

variable {P Q : TokenKind → Prop} {S : List Token → Prop} {L M : Language Word} {kind : TokenKind}
  {tokens rest : List Token}

theorem Follows.mono (h : Follows P tokens) (hPQ : ∀ kind, P kind → Q kind) : Follows Q tokens := by
  obtain ⟨token, rest, htokens, hP⟩ := h
  exact ⟨token, rest, htokens, hPQ _ hP⟩

theorem follows_of_mark (h : Spells (mark kind) tokens rest) (hP : P kind) : Follows P tokens := by
  obtain ⟨token, rfl, hword⟩ := spells_word.mp h
  exact ⟨token, rest, rfl, (Token.kind_of_mark hword).symm ▸ hP⟩

theorem follows_of_name {text : String} (h : Spells (word (.name text)) tokens rest)
    (hP : P .ident) : Follows P tokens := by
  obtain ⟨token, rfl, hword⟩ := spells_word.mp h
  exact ⟨token, rest, rfl, (Token.kind_of_name hword).1.symm ▸ hP⟩

theorem Begins.mul (h : Begins S L) : Begins S (L * M) := by
  intro tokens rest hs
  obtain ⟨middle, hfirst, -⟩ := spells_mul.mp hs
  exact h tokens middle hfirst

theorem Begins.add (h : Begins S L) (h' : Begins S M) : Begins S (L + M) := by
  intro tokens rest hs
  rcases spells_add.mp hs with hs | hs
  · exact h tokens rest hs
  · exact h' tokens rest hs

theorem begins_mark (hP : P kind) : Begins (Follows P) (mark kind) :=
  fun _ _ hs => follows_of_mark hs hP

theorem begins_name {text : String} (hP : P .ident) : Begins (Follows P) (word (.name text)) :=
  fun _ _ hs => follows_of_name hs hP

end Starts

end Phrase

namespace ParseState

/-- The state in front of the tokens. The errors are still these, unless the first of the tokens
is one. -/
def Ahead (errors : List (SyntaxError × Span)) (tokens : List Token) (s : ParseState) : Prop :=
  ∀ token rest, tokens = token :: rest →
    s.current = token ∧ s.ahead = rest ∧ (token.IsValid → s.errors = errors)

/-- The state in front of the tokens, and not behind `extern`. -/
structure At (errors : List (SyntaxError × Span)) (tokens : List Token) (s : ParseState) : Prop where
  ahead : s.Ahead errors tokens
  free : s.previous.kind ≠ .kwExtern

variable {s : ParseState} {errors : List (SyntaxError × Span)} {tokens rest : List Token}
  {kind : TokenKind} {w : Word} {token : Token}

theorem errors_advance (h : s.current.kind ≠ .eof) (hahead : s.ahead = token :: rest)
    (hvalid : token.IsValid) : s.advance.errors = s.errors := by
  have hend : s.atEnd = false := by simpa [atEnd, ParseState.kind] using h
  unfold advance
  simp only [hend, hahead, Bool.false_eq_true, if_false]
  unfold checkCurrent
  dsimp only [ParseState.kind]
  split
  · next hkind => exact absurd hkind hvalid.1
  · next hkind => exact absurd hkind hvalid.2
  · rfl

namespace Ahead

theorem kind_eq (h : s.Ahead errors (token :: rest)) : s.kind = token.kind :=
  congrArg Token.kind (h token rest rfl).1

/-- A token that says something is passed. -/
theorem advance (h : s.Ahead errors (token :: rest)) (hword : token.word? = some w)
    (hplain : token.kind ≠ .kwExtern) : s.advance.At errors rest := by
  obtain ⟨hcurrent, hahead, herrors⟩ := h token rest rfl
  have hsome : token.word?.isSome = true := by simp [hword]
  have hend : s.current.kind ≠ .eof := hcurrent ▸ Token.kind_ne_eof hsome
  constructor
  · rintro next later rfl
    obtain ⟨hnext, hlater⟩ := advance_cons hend hahead
    refine ⟨hnext, hlater, fun hvalid => ?_⟩
    rw [errors_advance hend hahead hvalid]
    exact herrors (Token.isValid_of_word? hsome)
  · rwa [previous_advance, hcurrent]

end Ahead

end ParseState

open ParseState

namespace Parse

/-- A step that succeeds or runs out of its bound. -/
def succeeding : Leeway := ⟨fun _ => False, True⟩

variable {p : Parse α} {s : ParseState} {errors : List (SyntaxError × Span)}
  {tokens rest : List Token} {kind : TokenKind} {text : String} {P : TokenKind → Prop}

theorem kind_eq (h : s.kind = kind) : Parse.kind s = .ok kind s := by
  rw [← h]
  rfl

theorem check_eq (h : s.kind = kind) : check kind s = .ok true s := by
  simp [check, h]

theorem check_ne (h : s.kind ≠ kind) : check kind s = .ok false s := by
  simp [check, h]

theorem accept_ne (h : s.kind ≠ kind) : accept kind s = .ok false s := by
  simp only [accept, Bind.bind, Parse.bind, check_ne h]
  rfl

/-- Tokens that spell a tree are read as `post` says, if such a token follows. -/
def Takes (p : Parse α) (L : Language Word) (P : TokenKind → Prop) (post : α → Prop) : Prop :=
  ∀ errors s tokens rest, s.Ahead errors tokens → Spells L tokens rest → Follows P rest →
    p.Ends succeeding s fun a s' => s'.At errors rest ∧ post a

theorem kind_of_follows (h : s.Ahead errors tokens) (hP : Follows P tokens) : P s.kind := by
  obtain ⟨token, rest, rfl, htoken⟩ := hP
  rw [h.kind_eq]
  exact htoken

theorem take_mark (h : s.Ahead errors tokens) (hs : Spells (mark kind) tokens rest)
    (hplain : kind ≠ .kwExtern) : s.kind = kind ∧ s.advance.At errors rest := by
  obtain ⟨token, rfl, hword⟩ := spells_word.mp hs
  have hkind := Token.kind_of_mark hword
  exact ⟨h.kind_eq.trans hkind, h.advance hword (by rwa [hkind])⟩

theorem take_expect (h : s.Ahead errors tokens) (hs : Spells (mark kind) tokens rest)
    (hplain : kind ≠ .kwExtern) :
    (expect kind).Ends succeeding s fun _ s' => s'.At errors rest := by
  obtain ⟨hkind, hnext⟩ := take_mark h hs hplain
  refine .next (check_eq hkind) ?_
  exact .of_eq rfl hnext

theorem take_accept (h : s.Ahead errors tokens) (hs : Spells (mark kind) tokens rest)
    (hplain : kind ≠ .kwExtern) :
    (accept kind).Ends succeeding s fun found s' => found = true ∧ s'.At errors rest := by
  obtain ⟨hkind, hnext⟩ := take_mark h hs hplain
  refine .next (check_eq hkind) ?_
  exact .next rfl (.pure ⟨rfl, hnext⟩)

theorem take_ident (h : s.Ahead errors tokens) (hs : Spells (word (.name text)) tokens rest) :
    ident.Ends succeeding s fun name s' => s'.At errors rest ∧ name.name = text := by
  obtain ⟨token, rfl, hword⟩ := spells_word.mp hs
  obtain ⟨hkind, htext⟩ := Token.kind_of_name hword
  have hcurrent := (h token rest rfl).1
  refine .next (check_eq (h.kind_eq.trans hkind)) ?_
  exact .next rfl (.pure ⟨h.advance hword (by simp [hkind]), by rw [hcurrent, htext]⟩)

/-! ## Lists and options -/

/-- The items of a list are read one by one. -/
theorem take_commaList {close : TokenKind} {L : α → Language Word} {f : α → β} (bound : Nat)
    (hclose : close ≠ .comma) (hcomma : P .comma) (hlast : P close) {items : List α}
    (hitems : ∀ item ∈ items, Takes p (L item) P fun a => f a = f item)
    (hbegins : ∀ item ∈ items, Begins (Follows (· ≠ close)) (L item)) (h : s.At errors tokens)
    (hs : Spells (commas (items.map L)) tokens rest) (hrest : Follows (· = close) rest) :
    (commaList close p bound).Ends succeeding s fun read s' =>
      s'.At errors rest ∧ read.map f = items.map f := by
  induction bound generalizing items s tokens with
  | zero => trivial
  | succ bound ih =>
      cases items with
      | nil =>
          obtain rfl := spells_one.mp hs
          refine .next (check_eq (kind_of_follows h.ahead hrest)) ?_
          exact .pure ⟨h, rfl⟩
      | cons item more =>
          obtain ⟨hitem, hmore⟩ := List.forall_mem_cons.mp hitems
          obtain ⟨hbegin, hbegins⟩ := List.forall_mem_cons.mp hbegins
          obtain ⟨middle, hfirst, htail⟩ := spells_mul.mp hs
          refine .next (check_ne (kind_of_follows h.ahead (hbegin _ _ hfirst))) ?_
          rcases spells_add.mp htail with hend | hcontinued
          · -- The list ends without a comma.
            have hdone : middle = rest ∧ more = [] := by
              cases more with
              | nil => exact ⟨spells_one.mp hend, rfl⟩
              | cons _ _ => exact absurd hend not_spells_zero
            obtain ⟨rfl, rfl⟩ := hdone
            refine (hitem errors s tokens middle h.ahead hfirst
              (hrest.mono fun kind hkind => hkind ▸ hlast)).bind fun a s₁ h₁ => ?_
            obtain ⟨h₁, ha⟩ := h₁
            have hnone : s₁.kind ≠ .comma := by
              rw [kind_of_follows h₁.ahead hrest]
              exact hclose
            refine .next (accept_ne hnone) ?_
            exact .pure ⟨h₁, by simp [ha]⟩
          · obtain ⟨after, hmark, hothers⟩ := spells_mul.mp hcontinued
            refine (hitem errors s tokens middle h.ahead hfirst
              (follows_of_mark hmark hcomma)).bind fun a s₁ h₁ => ?_
            obtain ⟨h₁, ha⟩ := h₁
            refine (take_accept h₁.ahead hmark (by decide)).bind fun found s₂ h₂ => ?_
            obtain ⟨hfound, h₂⟩ := h₂
            rw [hfound]
            refine (ih hmore hbegins h₂ hothers).bind fun others s₃ h₃ => ?_
            obtain ⟨h₃, hread⟩ := h₃
            exact .pure ⟨h₃, by simp [ha, hread]⟩

theorem take_optionalAfter {L : α → Language Word} {f : α → β} (hplain : kind ≠ .kwExtern)
    {value : Option α} (hvalue : ∀ item ∈ value, Takes p (L item) P fun a => f a = f item)
    (h : s.At errors tokens) (hs : Spells (behind kind (value.map L)) tokens rest)
    (hrest : Follows (fun next => P next ∧ next ≠ kind) rest) :
    (optionalAfter kind p).Ends succeeding s fun read s' =>
      s'.At errors rest ∧ read.map f = value.map f := by
  cases value with
  | none =>
      obtain rfl := spells_one.mp hs
      refine .next (accept_ne (kind_of_follows h.ahead hrest).2) ?_
      exact .pure ⟨h, rfl⟩
  | some item =>
      obtain ⟨middle, hmark, hitem⟩ := spells_mul.mp hs
      refine (take_accept h.ahead hmark hplain).bind fun found s₁ h₁ => ?_
      obtain ⟨hfound, h₁⟩ := h₁
      rw [hfound]
      refine (hvalue item rfl errors s₁ middle rest h₁.ahead hitem
        (hrest.mono fun _ hkind => hkind.1)).bind fun a s₂ h₂ => ?_
      obtain ⟨h₂, ha⟩ := h₂
      exact .pure ⟨h₂, by simp [ha]⟩

/-! ## Types and parameters -/

theorem begins_typeExpr (type : TypeExpr) :
    Begins (Follows fun kind => kind = .ident ∨ kind = .lbracket ∨ kind = .kwFunc) type.language := by
  cases type with
  | named node qualifier name =>
      cases qualifier with
      | none => exact begins_name (.inl rfl)
      | some qualifier => exact (begins_name (.inl rfl)).mul.mul
  | array node element => exact (begins_mark (.inr (.inl rfl))).mul.mul
  | func node params ret => exact (begins_mark (.inr (.inr rfl))).mul.mul.mul.mul

theorem kind_of_name (h : s.Ahead errors tokens) (hs : Spells (word (.name text)) tokens rest) :
    s.kind = .ident := by
  obtain ⟨token, rfl, hword⟩ := spells_word.mp hs
  exact h.kind_eq.trans (Token.kind_of_name hword).1

theorem take_typeParam {bound : Nat}
    (h : ∀ type : TypeExpr, Takes (typeExpr bound) type.language TypeEnd fun t => t.bare = type.bare)
    (param : TypeParam) :
    Takes (do
      let byRef ← accept .kwRef
      let type ← typeExpr bound
      return (⟨if byRef then .reference else .value, type⟩ : TypeParam)) param.language TypeEnd
      fun p => p.bare = param.bare := by
  intro errors s tokens rest hs hspells hrest
  obtain ⟨passing, type⟩ := param
  obtain ⟨middle, hmode, htype⟩ := spells_mul.mp hspells
  cases passing with
  | value =>
      obtain rfl := spells_one.mp hmode
      have hnone : s.kind ≠ .kwRef := by
        have hkind := kind_of_follows hs (begins_typeExpr type _ _ htype)
        rintro href
        simp [href] at hkind
      refine .next (accept_ne hnone) ?_
      refine (h type errors s _ rest hs htype hrest).bind fun t s₁ h₁ => ?_
      obtain ⟨h₁, ht⟩ := h₁
      refine .pure ⟨h₁, ?_⟩
      simp [TypeParam.bare, ht]
  | reference =>
      refine (take_accept hs hmode (by decide)).bind fun found s₁ h₁ => ?_
      obtain ⟨hfound, h₁⟩ := h₁
      refine (h type errors s₁ _ rest h₁.ahead htype hrest).bind fun t s₂ h₂ => ?_
      obtain ⟨h₂, ht⟩ := h₂
      refine .pure ⟨h₂, ?_⟩
      simp [TypeParam.bare, ht, hfound]

theorem begins_typeParam (param : TypeParam) : Begins (Follows (· ≠ .rparen)) param.language := by
  obtain ⟨passing, type⟩ := param
  have htype : Begins (Follows (· ≠ .rparen)) type.language := fun tokens rest hs =>
    (begins_typeExpr type tokens rest hs).mono fun kind hkind => by
      rintro rfl
      simp at hkind
  cases passing with
  | value =>
      rw [TypeParam.language, RefKind.language, one_mul]
      exact htype
  | reference => exact (begins_mark (by decide)).mul

theorem take_typeExpr (bound : Nat) (type : TypeExpr) :
    Takes (typeExpr bound) type.language TypeEnd fun t => t.bare = type.bare := by
  induction bound generalizing type with
  | zero => exact fun _ _ _ _ _ _ _ => trivial
  | succ bound ih =>
      intro errors s tokens rest hs hspells hrest
      refine .next rfl ?_
      have finish {make : Node → TypeExpr} {s' : ParseState} {first : Span}
          (h : s'.At errors rest) (hmake : ∀ node, (make node).bare = type.bare) :
          Ends succeeding (do
            let make ← (Pure.pure make : Parse (Node → TypeExpr))
            newType make (first.merge (← previousSpan))) s' fun t s'' =>
            s''.At errors rest ∧ t.bare = type.bare :=
        .next rfl (.next rfl (.of_eq rfl ⟨⟨h.ahead, h.free⟩, hmake _⟩))
      cases type with
      | named node qualifier name =>
          cases qualifier with
          | none =>
              refine .next (kind_eq (kind_of_name hs hspells)) ?_
              refine (take_ident hs hspells).bind fun first s₁ h₁ => ?_
              obtain ⟨h₁, hfirst⟩ := h₁
              refine .next (accept_ne (kind_of_follows h₁.ahead hrest).1) ?_
              exact finish h₁ fun node => by simp [TypeExpr.bare, Ident.bare, hfirst]
          | some qualifier =>
              obtain ⟨after, hfront, hname⟩ := spells_mul.mp hspells
              obtain ⟨middle, hqualifier, hdot⟩ := spells_mul.mp hfront
              refine .next (kind_eq (kind_of_name hs hqualifier)) ?_
              refine (take_ident hs hqualifier).bind fun first s₁ h₁ => ?_
              obtain ⟨h₁, hfirst⟩ := h₁
              refine (take_accept h₁.ahead hdot (by decide)).bind fun found s₂ h₂ => ?_
              obtain ⟨hfound, h₂⟩ := h₂
              rw [hfound]
              refine (take_ident h₂.ahead hname).bind fun inner s₃ h₃ => ?_
              obtain ⟨h₃, hinner⟩ := h₃
              exact finish h₃ fun node => by simp [TypeExpr.bare, Ident.bare, hfirst, hinner]
      | array node element =>
          obtain ⟨after, hfront, hclose⟩ := spells_mul.mp hspells
          obtain ⟨middle, hopen, helement⟩ := spells_mul.mp hfront
          obtain ⟨hkind, h₁⟩ := take_mark hs hopen (by decide)
          refine .next (kind_eq hkind) (.next rfl ?_)
          refine (ih element errors _ middle after h₁.ahead helement
            (follows_of_mark hclose ⟨by decide, by decide⟩)).bind fun t s₂ h₂ => ?_
          obtain ⟨h₂, ht⟩ := h₂
          refine (take_expect h₂.ahead hclose (by decide)).bind fun _ s₃ h₃ => ?_
          exact finish h₃ fun node => by simp [TypeExpr.bare, ht]
      | func node params ret =>
          obtain ⟨beforeRet, hfront, hret⟩ := spells_mul.mp hspells
          obtain ⟨beforeClose, hfront, hclose⟩ := spells_mul.mp hfront
          obtain ⟨beforeParams, hfront, hparams⟩ := spells_mul.mp hfront
          obtain ⟨beforeOpen, hfunc, hopen⟩ := spells_mul.mp hfront
          obtain ⟨hkind, h₁⟩ := take_mark hs hfunc (by decide)
          rw [TypeParam.languages_eq_map] at hparams
          rw [TypeExpr.optionLanguage_eq_map] at hret
          refine .next (kind_eq hkind) (.next rfl ?_)
          refine (take_expect h₁.ahead hopen (by decide)).bind fun _ s₂ h₂ => ?_
          refine (take_commaList (P := TypeEnd) (f := TypeParam.bare) bound (by decide)
            ⟨by decide, by decide⟩ ⟨by decide, by decide⟩ (fun param _ => take_typeParam ih param)
            (fun param _ => begins_typeParam param) h₂ hparams
            (follows_of_mark hclose rfl)).bind fun read s₃ h₃ => ?_
          obtain ⟨h₃, hread⟩ := h₃
          refine (take_expect h₃.ahead hclose (by decide)).bind fun _ s₄ h₄ => ?_
          refine (take_optionalAfter (P := TypeEnd) (f := TypeExpr.bare) (by decide)
            (fun type _ => ih type) h₄ hret
            (hrest.mono fun kind hkind => ⟨hkind, hkind.2⟩)).bind fun readRet s₅ h₅ => ?_
          obtain ⟨h₅, hreadRet⟩ := h₅
          refine finish h₅ fun node => ?_
          simp [TypeExpr.bare, TypeParam.listBare_eq_map, TypeExpr.optionBare_eq_map, hread, hreadRet]

theorem begins_param (param : Param) : Begins (Follows (· ≠ .rparen)) param.language := by
  intro tokens rest hs
  obtain ⟨_, hfront, -⟩ := spells_mul.mp hs
  obtain ⟨_, hfront, -⟩ := spells_mul.mp hfront
  obtain ⟨_, hmode, hname⟩ := spells_mul.mp hfront
  obtain ⟨name, mutability, passing, type, span⟩ := param
  cases mutability with
  | mutable =>
      cases passing with
      | value => exact follows_of_mark hmode (by decide)
      | reference => exact follows_of_mark hmode (by decide)
  | fixed =>
      cases passing with
      | value =>
          obtain rfl := spells_one.mp hmode
          exact follows_of_name hname (by decide)
      | reference => exact absurd hmode not_spells_zero

theorem take_param (bound : Nat) (param : Param) :
    Takes (Parse.param bound) param.language TypeEnd fun p => p.bare = param.bare := by
  intro errors s tokens rest hs hspells hrest
  obtain ⟨afterColon, hfront, htype⟩ := spells_mul.mp hspells
  obtain ⟨afterName, hfront, hcolon⟩ := spells_mul.mp hfront
  obtain ⟨afterMode, hmode, hname⟩ := spells_mul.mp hfront
  obtain ⟨name, mutability, passing, type, span⟩ := param
  have finish {s' : ParseState} {first : Span} (h : s'.Ahead errors afterMode) :
      Ends succeeding (do
        let mode ← (Pure.pure (mutability, passing) : Parse (Mutability × RefKind))
        let name ← ident
        let _ ← expect .colon
        let type ← typeExpr bound
        return (⟨name, mode.1, mode.2, type, first.merge (← previousSpan)⟩ : Param)) s'
        fun p s'' => s''.At errors rest ∧ p.bare = (⟨name, mutability, passing, type, span⟩ : Param).bare := by
    refine .next rfl ((take_ident h hname).bind fun readName s₁ h₁ => ?_)
    obtain ⟨h₁, hreadName⟩ := h₁
    refine (take_expect h₁.ahead hcolon (by decide)).bind fun _ s₂ h₂ => ?_
    refine (take_typeExpr bound type errors s₂ _ rest h₂.ahead htype hrest).bind
      fun readType s₃ h₃ => ?_
    obtain ⟨h₃, hreadType⟩ := h₃
    exact .next rfl (.pure ⟨h₃, by simp [Param.bare, Ident.bare, hreadName, hreadType]⟩)
  refine .next rfl ?_
  cases mutability with
  | mutable =>
      cases passing with
      | reference =>
          refine (take_accept hs hmode (by decide)).bind fun found s₁ h₁ => ?_
          obtain ⟨hfound, h₁⟩ := h₁
          rw [hfound]
          exact finish h₁.ahead
      | value =>
          have hkind := (take_mark hs hmode (by decide)).1
          refine .next (accept_ne (by simp [hkind])) ?_
          refine (take_accept hs hmode (by decide)).bind fun found s₁ h₁ => ?_
          obtain ⟨hfound, h₁⟩ := h₁
          rw [hfound]
          exact finish h₁.ahead
  | fixed =>
      cases passing with
      | reference => exact absurd hmode not_spells_zero
      | value =>
          obtain rfl := spells_one.mp hmode
          have hkind := kind_of_name hs hname
          refine .next (accept_ne (by simp [hkind])) ?_
          refine .next (accept_ne (by simp [hkind])) ?_
          exact finish hs

theorem take_signature (bound : Nat) (sig : Signature) :
    Takes (signature bound) sig.language TypeEnd fun read => read.bare = sig.bare := by
  intro errors s tokens rest hs hspells hrest
  obtain ⟨afterClose, hfront, hret⟩ := spells_mul.mp hspells
  obtain ⟨afterParams, hfront, hclose⟩ := spells_mul.mp hfront
  obtain ⟨afterOpen, hopen, hparams⟩ := spells_mul.mp hfront
  refine (take_expect hs hopen (by decide)).bind fun _ s₁ h₁ => ?_
  refine (take_commaList (P := TypeEnd) (f := Param.bare) bound (by decide)
    ⟨by decide, by decide⟩ ⟨by decide, by decide⟩ (fun param _ => take_param bound param)
    (fun param _ => begins_param param) h₁ hparams
    (follows_of_mark hclose rfl)).bind fun params s₂ h₂ => ?_
  obtain ⟨h₂, hread⟩ := h₂
  refine (take_expect h₂.ahead hclose (by decide)).bind fun _ s₃ h₃ => ?_
  refine (take_optionalAfter (P := TypeEnd) (f := TypeExpr.bare) (by decide)
    (fun type _ => take_typeExpr bound type) h₃ hret
    (hrest.mono fun kind hkind => ⟨hkind, hkind.2⟩)).bind fun ret s₄ h₄ => ?_
  obtain ⟨h₄, hreadRet⟩ := h₄
  exact .pure ⟨h₄, by simp [Signature.bare, hread, hreadRet]⟩

/-! ## Bodies and declarations in them -/

theorem begins_block (body : List Stmt) : Begins (Follows (· = .lbrace)) (Stmt.blockLanguage body) := by
  rw [Stmt.blockLanguage]
  exact (begins_mark (P := (· = .lbrace)) rfl).mul.mul

theorem take_requiredBody {block : Parse (List Stmt)} {body : List Stmt} {post : List Stmt → Prop}
    (h : Takes block (Stmt.blockLanguage body) Anything post) :
    Takes (requiredBody block) (Stmt.blockLanguage body) Anything post := by
  intro errors s tokens rest hs hspells hrest
  refine .next (check_eq (kind_of_follows hs (begins_block body _ _ hspells))) ?_
  exact h errors s tokens rest hs hspells hrest

theorem take_funcDecl {block : Parse (List Stmt)} (bound : Nat) (decl : FuncDecl) {body : List Stmt}
    (hbody : decl.body = some body)
    (hblock : Takes block (Stmt.blockLanguage body) Anything fun b =>
      Stmt.listBare b = Stmt.listBare body) (hs : s.At errors tokens)
    (hspells : Spells decl.language tokens rest) (hrest : Follows Anything rest) :
    (funcDecl block bound decl.kind decl.access).Ends succeeding s fun read s' =>
      s'.At errors rest ∧ read.bare = decl.bare := by
  obtain ⟨node, name, sig, _, kind, access⟩ := decl
  obtain rfl := hbody
  rw [FuncDecl.language, Stmt.optionLanguage] at hspells
  obtain ⟨afterSig, hfront, hlast⟩ := spells_mul.mp hspells
  obtain ⟨afterName, hfront, hsig⟩ := spells_mul.mp hfront
  obtain ⟨afterFunc, hfunc, hname⟩ := spells_mul.mp hfront
  have hplain : (s.previous.kind == .kwExtern) = false := beq_eq_false_iff_ne.mpr hs.free
  have hopen : Follows TypeEnd afterSig :=
    (begins_block body _ _ hlast).mono fun kind hkind => hkind ▸ ⟨by decide, by decide⟩
  refine .next rfl ((take_expect hs.ahead hfunc (by decide)).bind fun _ s₁ h₁ => ?_)
  refine (take_ident h₁.ahead hname).bind fun readName s₂ h₂ => ?_
  obtain ⟨h₂, hreadName⟩ := h₂
  refine (take_signature bound sig errors s₂ _ _ h₂.ahead hsig hopen).bind
    fun readSig s₃ h₃ => ?_
  obtain ⟨h₃, hreadSig⟩ := h₃
  rw [hplain]
  refine (take_requiredBody hblock errors s₃ _ rest h₃.ahead hlast hrest).bind
    fun readBody s₄ h₄ => ?_
  obtain ⟨h₄, hreadBody⟩ := h₄
  refine .next rfl (.next rfl (.of_eq rfl ⟨⟨h₄.ahead, h₄.free⟩, ?_⟩))
  simp [FuncDecl.bare, Ident.bare, Stmt.optionBare_eq_map, hreadName, hreadSig, hreadBody]

theorem take_binding {e : Parse Expr} (bound : Nat) (binding : Binding)
    (he : ∀ init ∈ binding.init, Takes e init.whole ExprEnd fun read => read.bare = init.bare) :
    Takes (Parse.binding e bound) binding.language Anything fun read => read.bare = binding.bare := by
  intro errors s tokens rest hs hspells hrest
  obtain ⟨mutability, name, type, init⟩ := binding
  rw [Binding.language, Expr.optionLanguage_eq_map] at hspells
  obtain ⟨hsome, hspells⟩ := spells_given.mp hspells
  obtain ⟨afterInit, hfront, hsemi⟩ := spells_mul.mp hspells
  obtain ⟨afterType, hfront, hinit⟩ := spells_mul.mp hfront
  obtain ⟨afterName, hfront, htype⟩ := spells_mul.mp hfront
  obtain ⟨afterMark, hmark, hname⟩ := spells_mul.mp hfront
  have hfirst : (if s.current.kind = .kwVar then Mutability.mutable else .fixed) = mutability ∧
      s.advance.At errors afterMark := by
    cases mutability with
    | fixed =>
        obtain ⟨hkind, h₁⟩ := take_mark hs hmark (by decide)
        have hkind : s.current.kind = .kwLet := hkind
        exact ⟨by simp [hkind], h₁⟩
    | mutable =>
        obtain ⟨hkind, h₁⟩ := take_mark hs hmark (by decide)
        have hkind : s.current.kind = .kwVar := hkind
        exact ⟨by simp [hkind], h₁⟩
  have hafterType : Follows (fun kind => TypeEnd kind ∧ kind ≠ .colon) afterType := by
    cases init with
    | none =>
        obtain rfl := spells_one.mp hinit
        exact follows_of_mark hsemi ⟨⟨by decide, by decide⟩, by decide⟩
    | some init =>
        exact (begins_mark (P := fun kind => TypeEnd kind ∧ kind ≠ .colon)
          ⟨⟨by decide, by decide⟩, by decide⟩).mul _ _ hinit
  refine .next rfl ((take_ident hfirst.2.ahead hname).bind fun readName s₁ h₁ => ?_)
  obtain ⟨h₁, hreadName⟩ := h₁
  refine (take_optionalAfter (P := TypeEnd) (f := TypeExpr.bare) (by decide)
    (fun type _ => take_typeExpr bound type) h₁ htype hafterType).bind
    fun readType s₂ h₂ => ?_
  obtain ⟨h₂, hreadType⟩ := h₂
  refine (take_optionalAfter (P := ExprEnd) (f := Expr.bare) (by decide) he h₂ hinit
    (follows_of_mark hsemi ⟨rfl, by decide⟩)).bind fun readInit s₃ h₃ => ?_
  obtain ⟨h₃, hreadInit⟩ := h₃
  have htyped : readType.isNone = type.isNone := by
    simpa using congrArg Option.isNone hreadType
  have hvalued : readInit.isNone = init.isNone := by
    simpa using congrArg Option.isNone hreadInit
  have hsound : ¬(readType.isNone && readInit.isNone) = true := by
    rw [htyped, hvalued]
    cases type <;> cases init <;> simp at hsome ⊢
  rw [if_neg hsound]
  refine (take_expect h₃.ahead hsemi (by decide)).bind fun _ s₄ h₄ => .pure ⟨h₄, ?_⟩
  simp [Binding.bare, Ident.bare, Expr.optionBare_eq_map, hfirst.1, hreadName, hreadType, hreadInit]

theorem take_attempt {post : α → ParseState → Prop} (h : p.Ends succeeding s post) :
    (attempt p).Ends succeeding s fun value s' =>
      match value with
      | some a => post a s'
      | none => False :=
  Ends.attempt h

theorem take_stmts {stmt : Parse Stmt} (bound : Nat) {body : List Stmt}
    (hstmts : ∀ item ∈ body, ∀ errors s tokens rest, s.At errors tokens →
      Spells item.language tokens rest → Follows (· ≠ .kwElse) rest →
      stmt.Ends succeeding s fun read s' => s'.At errors rest ∧ read.bare = item.bare)
    (hbegins : ∀ item ∈ body, Begins (Follows StartsStmt) item.language) (hs : s.At errors tokens)
    (hspells : Spells (Stmt.sequence body) tokens rest) (hrest : Follows (· = .rbrace) rest) :
    (stmts stmt bound).Ends succeeding s fun read s' =>
      s'.At errors rest ∧ Stmt.listBare read = Stmt.listBare body := by
  induction bound generalizing body s tokens with
  | zero => trivial
  | succ bound ih =>
      refine .next rfl ?_
      cases body with
      | nil =>
          rw [Stmt.sequence] at hspells
          obtain rfl := spells_one.mp hspells
          have hkind : s.kind = .rbrace := kind_of_follows hs.ahead hrest
          rw [if_pos (by simp [hkind])]
          exact .pure ⟨hs, rfl⟩
      | cons item more =>
          rw [Stmt.sequence] at hspells
          obtain ⟨middle, hitem, hmore⟩ := spells_mul.mp hspells
          obtain ⟨hfirst, hothers⟩ := List.forall_mem_cons.mp hstmts
          obtain ⟨hbegin, hbegins⟩ := List.forall_mem_cons.mp hbegins
          have hkind := kind_of_follows hs.ahead (hbegin _ _ hitem)
          have hnext : Follows (· ≠ .kwElse) middle := by
            cases more with
            | nil =>
                rw [Stmt.sequence] at hmore
                obtain rfl := spells_one.mp hmore
                exact hrest.mono fun kind hkind => by simp [hkind]
            | cons other _ =>
                rw [Stmt.sequence] at hmore
                obtain ⟨_, hother, -⟩ := spells_mul.mp hmore
                exact (hbegins other (by simp) _ _ hother).mono fun kind hkind => hkind.2.2
          rw [if_neg (by simp [atEnd, hkind.1, hkind.2.1])]
          refine (take_attempt (hfirst errors s tokens middle hs hitem hnext)).bind
            fun value s₁ h₁ => ?_
          cases value with
          | none => exact h₁.elim
          | some read =>
              refine (ih hothers hbegins h₁.1 hmore).bind fun others s₂ h₂ => ?_
              obtain ⟨h₂, hread⟩ := h₂
              refine .pure ⟨h₂, ?_⟩
              rw [Stmt.listBare, Stmt.listBare, h₁.2, hread]

theorem take_block {stmt : Parse Stmt} (bound : Nat) {body : List Stmt}
    (hstmts : ∀ item ∈ body, ∀ errors s tokens rest, s.At errors tokens →
      Spells item.language tokens rest → Follows (· ≠ .kwElse) rest →
      stmt.Ends succeeding s fun read s' => s'.At errors rest ∧ read.bare = item.bare)
    (hbegins : ∀ item ∈ body, Begins (Follows StartsStmt) item.language) :
    Takes (block stmt bound) (Stmt.blockLanguage body) Anything fun read =>
      Stmt.listBare read = Stmt.listBare body := by
  intro errors s tokens rest hs hspells hrest
  rw [Stmt.blockLanguage] at hspells
  obtain ⟨afterBody, hfront, hclose⟩ := spells_mul.mp hspells
  obtain ⟨afterOpen, hopen, hbody⟩ := spells_mul.mp hfront
  refine (take_expect hs hopen (by decide)).bind fun _ s₁ h₁ => ?_
  refine (take_stmts bound hstmts hbegins h₁ hbody (follows_of_mark hclose rfl)).bind
    fun read s₂ h₂ => ?_
  obtain ⟨h₂, hread⟩ := h₂
  exact (take_expect h₂.ahead hclose (by decide)).bind fun _ s₃ h₃ => .pure ⟨h₃, hread⟩

theorem take_exprStmt {e : Parse Expr} {value : Expr}
    (he : Takes e value.whole ExprEnd fun read => read.bare = value.bare)
    (hs : s.Ahead errors tokens) (hspells : Spells (value.whole * mark .semi) tokens rest) :
    (exprOrAssign e).Ends succeeding s fun make s' =>
      s'.At errors rest ∧ ∀ node, (make node).bare = .expr .blank value.bare := by
  obtain ⟨middle, hvalue, hsemi⟩ := spells_mul.mp hspells
  refine (he errors s tokens middle hs hvalue (follows_of_mark hsemi rfl)).bind
    fun read s₁ h₁ => ?_
  obtain ⟨h₁, hread⟩ := h₁
  have hkind := (take_mark h₁.ahead hsemi (by decide)).1
  refine .next (accept_ne (by simp [hkind])) (.next (kind_eq hkind) (.next rfl ?_))
  refine (take_expect h₁.ahead hsemi (by decide)).bind fun _ s₂ h₂ => .pure ⟨h₂, fun node => ?_⟩
  rw [Stmt.bare, hread]

theorem take_assign {e : Parse Expr} {target value : Expr} {op : Option BinOp}
    (htarget : Takes e target.whole ExprEnd fun read => read.bare = target.bare)
    (hvalue : Takes e value.whole ExprEnd fun read => read.bare = value.bare)
    (hs : s.Ahead errors tokens)
    (hspells : Spells (target.whole * assignmentLanguage op * value.whole * mark .semi) tokens rest) :
    (exprOrAssign e).Ends succeeding s fun make s' =>
      s'.At errors rest ∧ ∀ node, (make node).bare = .assign .blank target.bare op value.bare := by
  obtain ⟨beforeSemi, hfront, hsemi⟩ := spells_mul.mp hspells
  obtain ⟨beforeValue, hfront, hassigned⟩ := spells_mul.mp hfront
  obtain ⟨beforeMark, hfirst, hmark⟩ := spells_mul.mp hfront
  have finish {readTarget : Expr} {s' : ParseState} (h : s'.At errors beforeValue)
      (hread : readTarget.bare = target.bare) : Ends succeeding (do
        let value ← e
        let make ← (Pure.pure fun node => Stmt.assign node readTarget op value : Parse (Node → Stmt))
        let _ ← expect .semi
        return make) s' fun make s'' => s''.At errors rest ∧
          ∀ node, (make node).bare = .assign .blank target.bare op value.bare := by
    refine (hvalue errors s' _ _ h.ahead hassigned (follows_of_mark hsemi rfl)).bind
      fun readValue s₂ h₂ => ?_
    obtain ⟨h₂, hreadValue⟩ := h₂
    refine .next rfl ?_
    refine (take_expect h₂.ahead hsemi (by decide)).bind fun _ s₃ h₃ => .pure ⟨h₃, fun node => ?_⟩
    rw [Stmt.bare, hread, hreadValue]
  cases op with
  | none =>
      refine (htarget errors s tokens _ hs hfirst (follows_of_mark hmark rfl)).bind
        fun read s₁ h₁ => ?_
      obtain ⟨h₁, hread⟩ := h₁
      refine (take_accept h₁.ahead hmark (by decide)).bind fun found s₂ h₂ => ?_
      obtain ⟨hfound, h₂⟩ := h₂
      rw [hfound]
      exact finish h₂ hread
  | some op =>
      cases hop : op.assignmentMark? with
      | none =>
          rw [assignmentLanguage, hop] at hmark
          exact absurd hmark not_spells_zero
      | some kind =>
          rw [assignmentLanguage, hop] at hmark
          have hassign := BinOp.ofAssignment_iff.mpr hop
          have hend : ExprEnd kind ∧ kind ≠ .eq ∧ kind ≠ .kwExtern := by
            cases op <;> cases hop <;> exact ⟨rfl, by decide, by decide⟩
          refine (htarget errors s tokens _ hs hfirst (follows_of_mark hmark hend.1)).bind
            fun read s₁ h₁ => ?_
          obtain ⟨h₁, hread⟩ := h₁
          obtain ⟨hkind, h₂⟩ := take_mark h₁.ahead hmark hend.2.2
          refine .next (accept_ne (hkind ▸ hend.2.1)) (.next (kind_eq hkind) ?_)
          rw [hassign]
          exact .next rfl (finish h₂ hread)

end Parse

end Stela
