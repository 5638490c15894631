import Stela.Proofs.Syntax.Forms

/-!
# Writing trees

`bare` is a tree without numbers and places. `Expr.words` writes an expression
with parentheses exactly where it binds looser than its position requires,
without a comma at the end of a list, and with a chain of conditionals without
braces. If anything writes a tree, its words do.
-/

namespace Stela

/-! ## Trees without numbers and places -/

def Node.blank : Node := ⟨0, .dummy⟩

def Ident.bare (name : Ident) : Ident := ⟨name.name, .dummy⟩

mutual

def TypeExpr.bare : TypeExpr → TypeExpr
  | .named _ qualifier name => .named .blank (qualifier.map Ident.bare) name.bare
  | .array _ element => .array .blank element.bare
  | .func _ params ret => .func .blank (TypeParam.listBare params) (TypeExpr.optionBare ret)

def TypeExpr.optionBare : Option TypeExpr → Option TypeExpr
  | none => none
  | some type => some type.bare

def TypeParam.bare : TypeParam → TypeParam
  | ⟨passing, type⟩ => ⟨passing, type.bare⟩

def TypeParam.listBare : List TypeParam → List TypeParam
  | [] => []
  | first :: rest => first.bare :: TypeParam.listBare rest

end

theorem TypeExpr.optionBare_eq_map (type : Option TypeExpr) :
    TypeExpr.optionBare type = type.map TypeExpr.bare := by
  cases type <;> rfl

theorem TypeParam.listBare_eq_map (params : List TypeParam) :
    TypeParam.listBare params = params.map TypeParam.bare := by
  induction params with
  | nil => rfl
  | cons first rest ih => rw [TypeParam.listBare, ih, List.map_cons]

def Param.bare (param : Param) : Param :=
  ⟨param.name.bare, param.mutability, param.passing, param.type.bare, .dummy⟩

def Signature.bare (sig : Signature) : Signature :=
  ⟨sig.params.map Param.bare, sig.ret.map TypeExpr.bare⟩

mutual

def Expr.bare : Expr → Expr
  | .literal _ value => .literal .blank value
  | .ident _ name => .ident .blank name
  | .member _ object name => .member .blank object.bare name.bare
  | .call _ callee args => .call .blank callee.bare (Expr.listBare args)
  | .index _ base index => .index .blank base.bare index.bare
  | .unary _ op operand => .unary .blank op operand.bare
  | .binary _ op lhs rhs => .binary .blank op lhs.bare rhs.bare
  | .ternary _ cond onTrue onFalse => .ternary .blank cond.bare onTrue.bare onFalse.bare
  | .array _ elements => .array .blank (Expr.listBare elements)
  | .closure _ sig body => .closure .blank sig.bare (Stmt.listBare body)

def Expr.listBare : List Expr → List Expr
  | [] => []
  | first :: rest => first.bare :: Expr.listBare rest

def Expr.optionBare : Option Expr → Option Expr
  | none => none
  | some e => some e.bare

def Stmt.bare : Stmt → Stmt
  | .bind _ binding => .bind .blank binding.bare
  | .assign _ target op value => .assign .blank target.bare op value.bare
  | .expr _ value => .expr .blank value.bare
  | .ifElse _ cond onTrue onFalse =>
    .ifElse .blank cond.bare (Stmt.listBare onTrue) (Stmt.optionBare onFalse)
  | .whileLoop _ cond body => .whileLoop .blank cond.bare (Stmt.listBare body)
  | .ret _ value => .ret .blank (Expr.optionBare value)
  | .breakLoop _ => .breakLoop .blank
  | .continueLoop _ => .continueLoop .blank
  | .block _ body => .block .blank (Stmt.listBare body)
  | .func _ decl => .func .blank decl.bare

def Stmt.listBare : List Stmt → List Stmt
  | [] => []
  | first :: rest => first.bare :: Stmt.listBare rest

def Stmt.optionBare : Option (List Stmt) → Option (List Stmt)
  | none => none
  | some body => some (Stmt.listBare body)

def Binding.bare : Binding → Binding
  | ⟨mutability, name, type, init⟩ =>
    ⟨mutability, name.bare, type.map TypeExpr.bare, Expr.optionBare init⟩

def FuncDecl.bare : FuncDecl → FuncDecl
  | ⟨_, name, sig, body, kind, access⟩ =>
    ⟨.blank, name.bare, sig.bare, Stmt.optionBare body, kind, access⟩

end

attribute [simp] Expr.bare

theorem Expr.listBare_eq_map (exprs : List Expr) : Expr.listBare exprs = exprs.map Expr.bare := by
  induction exprs with
  | nil => rw [Expr.listBare, List.map_nil]
  | cons first rest ih => rw [Expr.listBare, ih, List.map_cons]

theorem Stmt.optionBare_eq_map (body : Option (List Stmt)) :
    Stmt.optionBare body = body.map Stmt.listBare := by
  cases body <;> rw [Stmt.optionBare] <;> rfl

theorem Expr.optionBare_eq_map (expr : Option Expr) :
    Expr.optionBare expr = expr.map Expr.bare := by
  cases expr <;> rw [Expr.optionBare] <;> rfl

/-! ## The words of a tree -/

open Phrase

namespace Phrase

/-- Words that bind as tightly as `rank`, in parentheses if that is looser than required. -/
def fitted (least rank : Nat) (ws : List Word) : List Word :=
  if least ≤ rank then ws else [.mark .lparen] ++ ws ++ [.mark .rparen]

/-- Sequences with commas between them. -/
def separated : List (List Word) → List Word
  | [] => []
  | first :: rest => first ++ if rest.isEmpty then [] else [.mark .comma] ++ separated rest

/-- An optional part behind a mark. -/
def led (kind : TokenKind) : Option (List Word) → List Word
  | none => []
  | some part => [.mark kind] ++ part

end Phrase

def RefKind.words : RefKind → List Word
  | .value => []
  | .reference => [.mark .kwRef]

mutual

def TypeExpr.words : TypeExpr → List Word
  | .named _ none name => [.name name.name]
  | .named _ (some qualifier) name => [.name qualifier.name] ++ [.mark .dot] ++ [.name name.name]
  | .array _ element => [.mark .lbracket] ++ element.words ++ [.mark .rbracket]
  | .func _ params ret =>
    [.mark .kwFunc] ++ [.mark .lparen] ++ separated (TypeParam.listWords params) ++
      [.mark .rparen] ++ led .arrow (TypeExpr.optionWords ret)

def TypeExpr.optionWords : Option TypeExpr → Option (List Word)
  | none => none
  | some type => some type.words

def TypeParam.words : TypeParam → List Word
  | ⟨passing, type⟩ => passing.words ++ type.words

def TypeParam.listWords : List TypeParam → List (List Word)
  | [] => []
  | first :: rest => first.words :: TypeParam.listWords rest

end

theorem TypeExpr.optionWords_eq_map (type : Option TypeExpr) :
    TypeExpr.optionWords type = type.map TypeExpr.words := by
  cases type <;> rfl

theorem TypeParam.listWords_eq_map (params : List TypeParam) :
    TypeParam.listWords params = params.map TypeParam.words := by
  induction params with
  | nil => rfl
  | cons first rest ih => rw [TypeParam.listWords, ih, List.map_cons]

/-- The mark in front of a parameter. -/
def Param.modeWords : Mutability × RefKind → List Word
  | (.mutable, .reference) => [.mark .kwRef]
  | (.mutable, .value) => [.mark .kwVar]
  | (.fixed, _) => []

def Param.words (param : Param) : List Word :=
  Param.modeWords (param.mutability, param.passing) ++ [.name param.name.name] ++ [.mark .colon] ++
    param.type.words

def Signature.words (sig : Signature) : List Word :=
  [.mark .lparen] ++ separated (sig.params.map Param.words) ++ [.mark .rparen] ++
    led .arrow (sig.ret.map TypeExpr.words)

def Literal.words : Literal → List Word
  | .bool true => [.mark .kwTrue]
  | .bool false => [.mark .kwFalse]
  | value => [.literal value]

def Mutability.words : Mutability → List Word
  | .fixed => [.mark .kwLet]
  | .mutable => [.mark .kwVar]

def assignmentWords : Option BinOp → List Word
  | none => [.mark .eq]
  | some op =>
    match op.assignmentMark? with
    | some kind => [.mark kind]
    | none => []

/-- The other branch of a chain of conditionals is a conditional alone. -/
def Stmt.isChain : List Stmt → Bool
  | [stmt] => stmt.isConditional
  | _ => false

mutual

/-- The words of an expression. The name `self` is the keyword. -/
def Expr.words : Expr → List Word
  | .literal _ value => value.words
  | .ident _ name => if name = "self" then [.mark .kwSelf] else [.name name]
  | .member _ object name =>
    fitted Precedence.call.rank object.rank object.words ++ [.mark .dot] ++ [.name name.name]
  | .call _ callee args =>
    fitted Precedence.call.rank callee.rank callee.words ++ [.mark .lparen] ++
      separated (Expr.listWords args) ++ [.mark .rparen]
  | .index _ base index =>
    fitted Precedence.call.rank base.rank base.words ++ [.mark .lbracket] ++ index.words ++
      [.mark .rbracket]
  | .unary _ op operand =>
    [.mark op.mark] ++ fitted Precedence.unary.rank operand.rank operand.words
  | .binary _ op lhs rhs =>
    fitted op.precedence.rank lhs.rank lhs.words ++ [.mark op.mark] ++
      fitted (op.precedence.rank + 1) rhs.rank rhs.words
  | .ternary _ cond onTrue onFalse =>
    fitted (Precedence.conditional.rank + 1) cond.rank cond.words ++ [.mark .question] ++
      onTrue.words ++ [.mark .colon] ++ onFalse.words
  | .array _ elements => [.mark .lbracket] ++ separated (Expr.listWords elements) ++ [.mark .rbracket]
  | .closure _ sig body => [.mark .kwFunc] ++ sig.words ++ Stmt.blockWords body

def Expr.listWords : List Expr → List (List Word)
  | [] => []
  | first :: rest => first.words :: Expr.listWords rest

def Expr.optionWords : Option Expr → Option (List Word)
  | none => none
  | some e => some e.words

def Stmt.words : Stmt → List Word
  | .bind _ binding => binding.words
  | .assign _ target op value =>
    target.words ++ assignmentWords op ++ value.words ++ [.mark .semi]
  | .expr _ value => value.words ++ [.mark .semi]
  | .ifElse _ cond onTrue onFalse =>
    [.mark .kwIf] ++ cond.words ++ Stmt.blockWords onTrue ++ Stmt.elseWords onFalse
  | .whileLoop _ cond body => [.mark .kwWhile] ++ cond.words ++ Stmt.blockWords body
  | .ret _ value => [.mark .kwReturn] ++ (Expr.optionWords value).getD [] ++ [.mark .semi]
  | .breakLoop _ => [.mark .kwBreak] ++ [.mark .semi]
  | .continueLoop _ => [.mark .kwContinue] ++ [.mark .semi]
  | .block _ body => Stmt.blockWords body
  | .func _ decl => decl.words

def Stmt.sequenceWords : List Stmt → List Word
  | [] => []
  | first :: rest => first.words ++ Stmt.sequenceWords rest

def Stmt.blockWords (body : List Stmt) : List Word :=
  [.mark .lbrace] ++ Stmt.sequenceWords body ++ [.mark .rbrace]

def Stmt.elseWords : Option (List Stmt) → List Word
  | none => []
  | some body =>
    [.mark .kwElse] ++ if Stmt.isChain body then Stmt.sequenceWords body else Stmt.blockWords body

def Binding.words : Binding → List Word
  | ⟨mutability, name, type, init⟩ =>
    mutability.words ++ [.name name.name] ++ led .colon (type.map TypeExpr.words) ++
      led .eq (Expr.optionWords init) ++ [.mark .semi]

def FuncDecl.words : FuncDecl → List Word
  | ⟨_, name, sig, body, _, _⟩ =>
    [.mark .kwFunc] ++ [.name name.name] ++ sig.words ++ Stmt.bodyWords body

/-- The body of a function, or the semicolon instead of one. -/
def Stmt.bodyWords : Option (List Stmt) → List Word
  | none => [.mark .semi]
  | some body => Stmt.blockWords body

end

theorem Expr.listWords_eq_map (exprs : List Expr) : Expr.listWords exprs = exprs.map Expr.words := by
  induction exprs with
  | nil => rw [Expr.listWords, List.map_nil]
  | cons first rest ih => rw [Expr.listWords, ih, List.map_cons]

theorem Expr.optionWords_eq_map (expr : Option Expr) :
    Expr.optionWords expr = expr.map Expr.words := by
  cases expr <;> rw [Expr.optionWords] <;> rfl

/-! ## What can be written is written so -/

/-- Some token says the word. -/
def Word.IsSaid (w : Word) : Prop := ∃ token : Token, token.word? = some w

namespace Phrase

/-- Tokens can say some words of the language. -/
def Sayable (L : Language Word) : Prop := ∃ ws ∈ L, ∀ w ∈ ws, w.IsSaid

/-- The words are some that tokens can say, if the language has any. -/
def Writes (L : Language Word) (ws : List Word) : Prop :=
  Sayable L → ws ∈ L ∧ ∀ w ∈ ws, w.IsSaid

variable {L M : Language Word} {ws vs : List Word} {kind : TokenKind} {condition : Prop}
  {least rank : Nat}

theorem isSaid_mark (h : kind.isMark = true) : (Word.mark kind).IsSaid :=
  ⟨⟨kind, "", .dummy⟩, Token.word?_of_mark h rfl⟩

theorem exists_tokens (h : ∀ w ∈ ws, w.IsSaid) :
    ∃ tokens : List Token, tokens.map Token.word? = ws.map some := by
  induction ws with
  | nil => exact ⟨[], rfl⟩
  | cons first rest ih =>
      obtain ⟨⟨token, htoken⟩, hrest⟩ := List.forall_mem_cons.mp h
      obtain ⟨tokens, htokens⟩ := ih hrest
      exact ⟨token :: tokens, by rw [List.map_cons, List.map_cons, htoken, htokens]⟩

theorem Writes.mul (h : Writes L ws) (h' : Writes M vs) : Writes (L * M) (ws ++ vs) := by
  rintro ⟨_, hmem, hsaid⟩
  obtain ⟨first, hfirst, last, hlast, rfl⟩ := Language.mem_mul.mp hmem
  obtain ⟨hfirstSaid, hlastSaid⟩ := List.forall_mem_append.mp hsaid
  obtain ⟨hws, hwsSaid⟩ := h ⟨first, hfirst, hfirstSaid⟩
  obtain ⟨hvs, hvsSaid⟩ := h' ⟨last, hlast, hlastSaid⟩
  exact ⟨Language.append_mem_mul hws hvs, List.forall_mem_append.mpr ⟨hwsSaid, hvsSaid⟩⟩

theorem writes_one : Writes 1 [] := fun _ => ⟨Language.nil_mem_one, by simp⟩

theorem writes_zero : Writes 0 ws := by
  rintro ⟨vs, hvs, -⟩
  exact absurd hvs (Language.notMem_zero vs)

theorem writes_word (w : Word) : Writes (word w) [w] := by
  rintro ⟨vs, hvs, hsaid⟩
  obtain rfl := mem_word.mp hvs
  exact ⟨rfl, hsaid⟩

theorem writes_mark (kind : TokenKind) : Writes (mark kind) [.mark kind] := writes_word _

theorem Writes.given (h : Writes L ws) : Writes (given condition L) ws := by
  rintro ⟨vs, ⟨hcondition, hvs⟩, hsaid⟩
  obtain ⟨hws, hwsSaid⟩ := h ⟨vs, hvs, hsaid⟩
  exact ⟨⟨hcondition, hws⟩, hwsSaid⟩

/-- What can be said in parentheses can be said without. -/
theorem Sayable.of_placed (h : Sayable (placed least rank L)) : Sayable L := by
  obtain ⟨vs, hvs, hsaid⟩ := h
  induction hvs with
  | bare _ hvs => exact ⟨_, hvs, hsaid⟩
  | enclosed _ ih => exact ih fun w hw => hsaid w (by simp [hw])

theorem Writes.placed (h : Writes L ws) : Writes (placed least rank L) (fitted least rank ws) := by
  intro hsayable
  obtain ⟨hws, hsaid⟩ := h hsayable.of_placed
  unfold fitted
  split
  · next hrank => exact ⟨.bare hrank hws, hsaid⟩
  · refine ⟨.enclosed (.bare (Nat.zero_le _) hws), ?_⟩
    have hopen : (Word.mark .lparen).IsSaid := isSaid_mark rfl
    have hclose : ∀ w ∈ [Word.mark .rparen], w.IsSaid :=
      List.forall_mem_singleton.mpr (isSaid_mark rfl)
    exact List.forall_mem_append.mpr ⟨List.forall_mem_cons.mpr ⟨hopen, hsaid⟩, hclose⟩

/-- Where any expression may stand there are no parentheses. -/
theorem Writes.unplaced (h : Writes L ws) : Writes (Phrase.placed 0 rank L) ws := by
  have hfitted : fitted 0 rank ws = ws := if_pos (Nat.zero_le _)
  exact hfitted ▸ h.placed

/-- A comma at the end can be left out. -/
theorem writes_commas {α : Type} {L : α → Language Word} {f : α → List Word} {items : List α}
    (h : ∀ item ∈ items, Writes (L item) (f item)) :
    Writes (commas (items.map L)) (separated (items.map f)) := by
  induction items with
  | nil => exact writes_one
  | cons first rest ih =>
      obtain ⟨hfirst, hrest⟩ := List.forall_mem_cons.mp h
      refine hfirst.mul ?_
      rintro ⟨vs, hvs, hsaid⟩
      rw [List.isEmpty_map]
      cases rest with
      | nil => exact ⟨.inl Language.nil_mem_one, by simp⟩
      | cons second others =>
          rcases (Language.mem_add _ _ _).mp hvs with hend | hmore
          · exact absurd hend (Language.notMem_zero vs)
          · obtain ⟨hws, hwsSaid⟩ := (writes_mark .comma).mul (ih hrest) ⟨vs, hmore, hsaid⟩
            exact ⟨.inr hws, hwsSaid⟩

theorem writes_behind {α : Type} {L : α → Language Word} {f : α → List Word} {part : Option α}
    (h : ∀ item ∈ part, Writes (L item) (f item)) :
    Writes (behind kind (part.map L)) (led kind (part.map f)) := by
  cases part with
  | none => exact writes_one
  | some item => exact (writes_mark kind).mul (h item rfl)

end Phrase

theorem RefKind.writes (passing : RefKind) : Writes passing.language passing.words := by
  cases passing with
  | value => exact writes_one
  | reference => exact writes_mark .kwRef

mutual

theorem TypeExpr.writes : (type : TypeExpr) → Writes type.language type.words
  | .named _ none name => writes_word (.name name.name)
  | .named _ (some _) _ => ((writes_word _).mul (writes_mark .dot)).mul (writes_word _)
  | .array _ element => ((writes_mark .lbracket).mul element.writes).mul (writes_mark .rbracket)
  | .func _ params ret => by
      rw [TypeExpr.language, TypeExpr.words, TypeParam.languages_eq_map, TypeParam.listWords_eq_map,
        TypeExpr.optionLanguage_eq_map, TypeExpr.optionWords_eq_map]
      exact ((((writes_mark .kwFunc).mul (writes_mark .lparen)).mul
        (writes_commas (TypeParam.writes_all params))).mul (writes_mark .rparen)).mul
          (writes_behind (TypeExpr.writes_result ret))

theorem TypeExpr.writes_result : (type : Option TypeExpr) →
    ∀ result ∈ type, Writes result.language result.words
  | none => by simp
  | some type => by
      rintro _ ⟨⟩
      exact type.writes

theorem TypeParam.writes_all : (params : List TypeParam) →
    ∀ param ∈ params, Writes param.language param.words
  | [] => by simp
  | ⟨passing, type⟩ :: rest =>
      List.forall_mem_cons.mpr ⟨passing.writes.mul type.writes, TypeParam.writes_all rest⟩

end

theorem Param.writes (param : Param) : Writes param.language param.words := by
  have hmode : Writes (Param.modeLanguage (param.mutability, param.passing))
      (Param.modeWords (param.mutability, param.passing)) := by
    cases param.mutability with
    | fixed =>
        cases param.passing with
        | value => exact writes_one
        | reference => exact writes_zero
    | mutable =>
        cases param.passing with
        | value => exact writes_mark .kwVar
        | reference => exact writes_mark .kwRef
  exact ((hmode.mul (writes_word _)).mul (writes_mark .colon)).mul param.type.writes

theorem Signature.writes (sig : Signature) : Writes sig.language sig.words :=
  (((writes_mark .lparen).mul (writes_commas fun param _ => param.writes)).mul
    (writes_mark .rparen)).mul (writes_behind fun type _ => type.writes)

theorem Literal.writes (value : Literal) : Writes value.language value.words := by
  cases value with
  | bool value =>
      cases value with
      | true => exact writes_mark .kwTrue
      | false => exact writes_mark .kwFalse
  | _ => exact writes_word _

theorem Mutability.writes (mutability : Mutability) :
    Writes mutability.language mutability.words := by
  cases mutability with
  | fixed => exact writes_mark .kwLet
  | mutable => exact writes_mark .kwVar

theorem writes_assignment (op : Option BinOp) : Writes (assignmentLanguage op) (assignmentWords op) := by
  cases op with
  | none => exact writes_mark .eq
  | some op =>
      cases hop : op.assignmentMark? with
      | none =>
          rw [assignmentLanguage, assignmentWords, hop]
          exact writes_zero
      | some kind =>
          rw [assignmentLanguage, assignmentWords, hop]
          exact writes_mark kind

theorem writes_name (name : String) :
    Writes (word (.name name) + given (name = "self") (mark .kwSelf))
      (if name = "self" then [.mark .kwSelf] else [.name name]) := by
  rintro ⟨vs, hvs, hsaid⟩
  split
  · next hself => exact ⟨.inr ⟨hself, rfl⟩, List.forall_mem_singleton.mpr (isSaid_mark rfl)⟩
  · next hother =>
    rcases (Language.mem_add _ _ _).mp hvs with hname | hself
    · obtain rfl := mem_word.mp hname
      exact ⟨.inl rfl, hsaid⟩
    · exact absurd hself.1 hother

theorem Stmt.chainedLanguage_eq (body : List Stmt) :
    Stmt.chainedLanguage body = given (Stmt.isChain body = true) (Stmt.sequence body) := by
  ext ws
  rcases body with _ | ⟨first, _ | ⟨second, rest⟩⟩
  · simp [Stmt.chainedLanguage, Stmt.isChain]
  · simp [Stmt.chainedLanguage, Stmt.isChain, Stmt.sequence]
  · simp [Stmt.chainedLanguage, Stmt.isChain]

theorem Stmt.writes_block {body : List Stmt}
    (h : Writes (Stmt.sequence body) (Stmt.sequenceWords body)) :
    Writes (Stmt.blockLanguage body) (Stmt.blockWords body) := by
  rw [Stmt.blockLanguage, Stmt.blockWords]
  exact ((writes_mark .lbrace).mul h).mul (writes_mark .rbrace)

/-- The braces around a conditional can be left out. -/
theorem Stmt.writes_branch {body : List Stmt}
    (h : Writes (Stmt.sequence body) (Stmt.sequenceWords body)) :
    Writes (Stmt.blockLanguage body + Stmt.chainedLanguage body)
      (if Stmt.isChain body then Stmt.sequenceWords body else Stmt.blockWords body) := by
  rintro ⟨vs, hvs, hsaid⟩
  rw [Stmt.chainedLanguage_eq] at hvs ⊢
  split
  · next hchain =>
    have hsayable : Sayable (Stmt.sequence body) := by
      rcases (Language.mem_add _ _ _).mp hvs with hblock | hchained
      · rw [Stmt.blockLanguage] at hblock
        obtain ⟨front, hfront, _, -, rfl⟩ := Language.mem_mul.mp hblock
        obtain ⟨_, -, inner, hinner, rfl⟩ := Language.mem_mul.mp hfront
        exact ⟨inner, hinner, fun w hw => hsaid w (by simp [hw])⟩
      · exact ⟨vs, hchained.2, hsaid⟩
    obtain ⟨hws, hwsSaid⟩ := h hsayable
    exact ⟨.inr ⟨hchain, hws⟩, hwsSaid⟩
  · next hbraced =>
    rcases (Language.mem_add _ _ _).mp hvs with hblock | hchained
    · obtain ⟨hws, hwsSaid⟩ := Stmt.writes_block h ⟨vs, hblock, hsaid⟩
      exact ⟨.inl hws, hwsSaid⟩
    · exact absurd hchained.1 hbraced

mutual

theorem Expr.writes : (e : Expr) → Writes e.language e.words
  | .literal _ value => by
      rw [Expr.language, Expr.words]
      exact value.writes
  | .ident _ name => by
      rw [Expr.language, Expr.words]
      exact writes_name name
  | .member _ object name => by
      rw [Expr.language, Expr.words]
      exact (object.writes.placed.mul (writes_mark .dot)).mul (writes_word _)
  | .call _ callee args => by
      rw [Expr.language, Expr.words, Expr.languages_eq_map, Expr.listWords_eq_map]
      exact ((callee.writes.placed.mul (writes_mark .lparen)).mul
        (writes_commas (Expr.writes_all args))).mul (writes_mark .rparen)
  | .index _ base index => by
      rw [Expr.language, Expr.words]
      exact ((base.writes.placed.mul (writes_mark .lbracket)).mul index.writes.unplaced).mul
        (writes_mark .rbracket)
  | .unary _ op operand => by
      rw [Expr.language, Expr.words]
      exact (writes_mark op.mark).mul operand.writes.placed
  | .binary _ op lhs rhs => by
      rw [Expr.language, Expr.words]
      exact (lhs.writes.placed.mul (writes_mark op.mark)).mul rhs.writes.placed
  | .ternary _ cond onTrue onFalse => by
      rw [Expr.language, Expr.words]
      exact (((cond.writes.placed.mul (writes_mark .question)).mul onTrue.writes.unplaced).mul
        (writes_mark .colon)).mul onFalse.writes.unplaced
  | .array _ elements => by
      rw [Expr.language, Expr.words, Expr.languages_eq_map, Expr.listWords_eq_map]
      exact ((writes_mark .lbracket).mul (writes_commas (Expr.writes_all elements))).mul
        (writes_mark .rbracket)
  | .closure _ sig body => by
      rw [Expr.language, Expr.words]
      exact ((writes_mark .kwFunc).mul sig.writes).mul (Stmt.writes_block (Stmt.writes_sequence body))

theorem Expr.writes_all : (exprs : List Expr) → ∀ e ∈ exprs, Writes e.whole e.words
  | [] => by simp
  | first :: rest => List.forall_mem_cons.mpr ⟨first.writes.unplaced, Expr.writes_all rest⟩

theorem Expr.writes_option : (expr : Option Expr) → ∀ e ∈ expr, Writes e.whole e.words
  | none => by simp
  | some e => by
      rintro _ ⟨⟩
      exact e.writes.unplaced

theorem Stmt.writes : (stmt : Stmt) → Writes stmt.language stmt.words
  | .bind _ binding => by
      rw [Stmt.language, Stmt.words]
      exact binding.writes
  | .assign _ target op value => by
      rw [Stmt.language, Stmt.words]
      exact ((target.writes.unplaced.mul (writes_assignment op)).mul value.writes.unplaced).mul
        (writes_mark .semi)
  | .expr _ value => by
      rw [Stmt.language, Stmt.words]
      exact value.writes.unplaced.mul (writes_mark .semi)
  | .ifElse _ cond onTrue onFalse => by
      rw [Stmt.language, Stmt.words]
      exact (((writes_mark .kwIf).mul cond.writes.unplaced).mul (Stmt.writes_block (Stmt.writes_sequence onTrue))).mul
        (Stmt.writes_else onFalse)
  | .whileLoop _ cond body => by
      rw [Stmt.language, Stmt.words]
      exact ((writes_mark .kwWhile).mul cond.writes.unplaced).mul (Stmt.writes_block (Stmt.writes_sequence body))
  | .ret _ value => by
      rw [Stmt.language, Stmt.words, Expr.optionLanguage_eq_map, Expr.optionWords_eq_map]
      have hvalue : Writes ((value.map Expr.whole).getD 1) ((value.map Expr.words).getD []) := by
        cases value with
        | none => exact writes_one
        | some value => exact value.writes.unplaced
      exact ((writes_mark .kwReturn).mul hvalue).mul (writes_mark .semi)
  | .breakLoop _ => by
      rw [Stmt.language, Stmt.words]
      exact (writes_mark .kwBreak).mul (writes_mark .semi)
  | .continueLoop _ => by
      rw [Stmt.language, Stmt.words]
      exact (writes_mark .kwContinue).mul (writes_mark .semi)
  | .block _ body => by
      rw [Stmt.language, Stmt.words]
      exact Stmt.writes_block (Stmt.writes_sequence body)
  | .func _ decl => by
      rw [Stmt.language, Stmt.words]
      exact decl.writes.given

theorem Stmt.writes_sequence : (body : List Stmt) →
    Writes (Stmt.sequence body) (Stmt.sequenceWords body)
  | [] => by
      rw [Stmt.sequence, Stmt.sequenceWords]
      exact writes_one
  | first :: rest => by
      rw [Stmt.sequence, Stmt.sequenceWords]
      exact first.writes.mul (Stmt.writes_sequence rest)

theorem Stmt.writes_else : (body : Option (List Stmt)) →
    Writes (Stmt.elseLanguage body) (Stmt.elseWords body)
  | none => by
      rw [Stmt.elseLanguage, Stmt.elseWords]
      exact writes_one
  | some body => by
      rw [Stmt.elseLanguage, Stmt.elseWords]
      exact (writes_mark .kwElse).mul (Stmt.writes_branch (Stmt.writes_sequence body))

theorem Binding.writes : (binding : Binding) → Writes binding.language binding.words
  | ⟨mutability, name, type, init⟩ => by
      rw [Binding.language, Binding.words, Expr.optionLanguage_eq_map, Expr.optionWords_eq_map]
      exact ((((mutability.writes.mul (writes_word _)).mul
        (writes_behind fun type _ => type.writes)).mul (writes_behind (Expr.writes_option init))).mul
          (writes_mark .semi)).given

theorem FuncDecl.writes : (decl : FuncDecl) → Writes decl.language decl.words
  | ⟨_, name, sig, body, _, _⟩ => by
      rw [FuncDecl.language, FuncDecl.words]
      exact (((writes_mark .kwFunc).mul (writes_word _)).mul sig.writes).mul (Stmt.writes_body body)

theorem Stmt.writes_body : (body : Option (List Stmt)) →
    Writes (Stmt.optionLanguage body) (Stmt.bodyWords body)
  | none => by
      rw [Stmt.optionLanguage, Stmt.bodyWords]
      exact writes_mark .semi
  | some body => by
      rw [Stmt.optionLanguage, Stmt.bodyWords]
      exact Stmt.writes_block (Stmt.writes_sequence body)

end

/-- The grammar denotes the expression: tokens can say it in some way. -/
def Expr.Denotable (e : Expr) : Prop := Sayable e.whole

end Stela
