import Mathlib.Data.List.Basic
import Stela.Proofs.Syntax.Outcomes
import Stela.Syntax.Module

/-!
# Which tokens are consumed

A parsing step, whether it succeeds or fails, takes tokens from the front of what
was left to read, one after the other, and never takes the end of the input. It
records errors at tokens only. A step that reads one form of the grammar takes at
least one token if it succeeds. This is said of every step at every bound, those
that recover from errors included.
-/

namespace Stela

/-- The end of the input stands behind the other tokens and nowhere else. -/
def EndOnce (tokens : List Token) : Prop :=
  ∃ written last, tokens = written ++ [last] ∧ last.kind = .eof ∧
    ∀ token ∈ written, token.kind ≠ .eof

theorem EndOnce.of_suffix {tokens rest : List Token} (h : EndOnce tokens) (hrest : rest <:+ tokens)
    (hne : rest ≠ []) : EndOnce rest := by
  obtain ⟨written, last, htokens, hlast, hwritten⟩ := h
  obtain ⟨before, hbefore⟩ := hrest
  have hall : (before ++ rest.dropLast) ++ [rest.getLast hne] = written ++ [last] := by
    rw [List.append_assoc, List.dropLast_append_getLast, hbefore, htokens]
  obtain ⟨hfirst, hend⟩ := List.append_inj' hall rfl
  refine ⟨rest.dropLast, rest.getLast hne, (List.dropLast_append_getLast hne).symm, ?_, ?_⟩
  · rw [List.singleton_inj.mp hend]
    exact hlast
  · intro token htoken
    apply hwritten
    rw [← hfirst]
    exact List.mem_append_right _ htoken

namespace ParseState

/-- The tokens that are left to read, with the end of the input. -/
def rest (s : ParseState) : List Token := s.current :: s.ahead

/-- From the first state to the second tokens of this list were read, and nothing was recorded but
errors at its tokens. -/
structure Onward (tokens : List Token) (s s' : ParseState) : Prop where
  rest : s'.rest <:+ s.rest
  within : s.rest <:+ tokens
  errors : ∀ e ∈ s'.errors, e ∈ s.errors ∨ ∃ token ∈ tokens, e.2 = token.span
  ends : EndOnce tokens

variable {tokens : List Token} {s s' s'' : ParseState}

theorem rest_advance_of_atEnd (h : s.atEnd = true) : s.advance.rest = s.rest := by
  simp [advance, h, rest]

/-- A token that is not the last one is passed. -/
theorem rest_advance (h : s.atEnd = false) (hahead : s.ahead ≠ []) : s.rest = s.current :: s.advance.rest := by
  obtain ⟨token, rest, hcons⟩ := List.exists_cons_of_ne_nil hahead
  have hkind : s.current.kind ≠ .eof := by simpa [atEnd, kind] using h
  obtain ⟨hcurrent, hrest⟩ := advance_cons hkind hcons
  rw [ParseState.rest, ParseState.rest, hcurrent, hrest, hcons]

theorem rest_start {tokens : List Token} (h : tokens ≠ []) (nodes : NodeCount) :
    (start tokens nodes).rest = tokens := by
  cases tokens with
  | nil => exact absurd rfl h
  | cons token rest => simp [start, ParseState.rest]

theorem mem_errors_report {error : SyntaxError} {span : Span} {e : SyntaxError × Span}
    (h : e ∈ (s.report error span).errors) : e ∈ s.errors ∨ e = (error, span) := by
  unfold report at h
  split at h
  · exact .inl h
  · simpa using h

theorem mem_errors_checkCurrent {e : SyntaxError × Span} (h : e ∈ s.checkCurrent.errors) :
    e ∈ s.errors ∨ e.2 = s.current.span := by
  unfold checkCurrent at h
  split at h
  · exact (mem_errors_report h).imp_right (congrArg Prod.snd)
  · exact (mem_errors_report h).imp_right (congrArg Prod.snd)
  · exact .inl h

theorem mem_errors_advance {e : SyntaxError × Span} (h : e ∈ s.advance.errors) :
    e ∈ s.errors ∨ e.2 = s.advance.current.span := by
  unfold advance at h ⊢
  split
  · exact .inl (by simpa [*] using h)
  · split
    · exact .inl (by simpa [*] using h)
    · next token rest hahead =>
      rw [if_neg ‹_›, hahead] at h
      rw [current_checkCurrent]
      exact mem_errors_checkCurrent h

namespace Onward

theorem refl (hwithin : s.rest <:+ tokens) (hends : EndOnce tokens) : Onward tokens s s :=
  ⟨List.suffix_rfl, hwithin, fun _ he => .inl he, hends⟩

/-- Where a run stopped another one starts. -/
theorem self (h : Onward tokens s s') : Onward tokens s' s' := refl (h.rest.trans h.within) h.ends

theorem trans (h : Onward tokens s s') (h' : Onward tokens s' s'') : Onward tokens s s'' where
  rest := h'.rest.trans h.rest
  within := h.within
  errors := fun e he => (h'.errors e he).elim (h.errors e) .inr
  ends := h.ends

theorem length_le (h : Onward tokens s s') : s'.rest.length ≤ s.rest.length := h.rest.length_le

theorem current_mem (h : Onward tokens s s') : s'.current ∈ tokens :=
  (h.rest.trans h.within).subset List.mem_cons_self

/-- The last token is the end of the input. -/
theorem ahead_ne_nil (h : Onward tokens s s') (hend : s'.atEnd = false) : s'.ahead ≠ [] := by
  intro hnil
  obtain ⟨written, last, htokens, hlast, -⟩ := h.ends
  have hsuffix := h.rest.trans h.within
  rw [ParseState.rest, hnil, htokens] at hsuffix
  obtain ⟨before, hbefore⟩ := hsuffix
  have hsame : s'.current = last := by simpa using (List.append_inj' hbefore rfl).2
  simp [atEnd, kind, hsame, hlast] at hend

theorem advance (h : Onward tokens s s') : Onward tokens s s'.advance := by
  have hrest : s'.advance.rest <:+ s'.rest := by
    cases hend : s'.atEnd with
    | true => exact rest_advance_of_atEnd hend ▸ List.suffix_rfl
    | false => exact ⟨[s'.current], (rest_advance hend (h.ahead_ne_nil hend)).symm⟩
  refine ⟨hrest.trans h.rest, h.within, fun e he => ?_, h.ends⟩
  rcases mem_errors_advance he with hold | hnew
  · exact h.errors e hold
  · exact .inr ⟨_, ((hrest.trans h.rest).trans h.within).subset List.mem_cons_self, hnew⟩

/-- A token in front of the end of the input is taken. -/
theorem length_advance (h : Onward tokens s s') (hend : s'.atEnd = false) :
    s'.advance.rest.length < s'.rest.length := by
  rw [rest_advance hend (h.ahead_ne_nil hend)]
  exact Nat.lt_succ_self _

theorem report (h : Onward tokens s s') (error : SyntaxError) {span : Span}
    (hspan : ∃ token ∈ tokens, span = token.span) : Onward tokens s (s'.report error span) := by
  refine ⟨?_, h.within, fun e he => ?_, h.ends⟩
  · rw [ParseState.rest, current_report, ahead_report]
    exact h.rest
  · rcases mem_errors_report he with hold | rfl
    · exact h.errors e hold
    · exact .inr hspan

/-- What was read, token by token. -/
theorem exists_read (h : Onward tokens s s') :
    ∃ read, s.rest = read ++ s'.rest ∧ ∀ token ∈ read, token.kind ≠ .eof := by
  obtain ⟨read, hread⟩ := h.rest
  obtain ⟨before, hbefore⟩ := h.within
  obtain ⟨written, last, htokens, -, hwritten⟩ := h.ends
  refine ⟨read, hread.symm, fun token htoken => hwritten token ?_⟩
  -- What is left is not empty, so the last token is not among those that were read.
  have hne : s'.rest ≠ [] := List.cons_ne_nil _ _
  have hall : (before ++ read ++ s'.rest.dropLast) ++ [s'.rest.getLast hne] = written ++ [last] := by
    rw [List.append_assoc, List.dropLast_append_getLast, List.append_assoc, hread, hbefore, htokens]
  rw [← (List.append_inj' hall rfl).1]
  simp [htoken]

end Onward

theorem onward_self (h : EndOnce s.rest) : Onward s.rest s s := .refl List.suffix_rfl h

end ParseState

open ParseState

namespace Parse

variable {α β : Type} {p : Parse α} {f : α → Parse β} {tokens : List Token} {s₀ s s₁ : ParseState}
  {post : α → ParseState → Prop}

/-- Where a step that has to take tokens in order may stop. -/
def forward (tokens : List Token) (s₀ : ParseState) : Leeway := ⟨Onward tokens s₀, True⟩

/-- The step takes tokens in order, whatever was read before. -/
def Walks (p : Parse α) : Prop :=
  ∀ tokens s₀ s, Onward tokens s₀ s → p.Ends (forward tokens s₀) s fun _ s' => Onward tokens s₀ s'

/-- From this state the step takes at least one token if it succeeds. -/
def ProgressesAt (p : Parse α) (s : ParseState) : Prop :=
  ∀ tokens, Onward tokens s s → p.Ends (forward tokens s) s fun _ s' =>
    Onward tokens s s' ∧ s'.rest.length < s.rest.length

/-- The step takes at least one token if it succeeds. -/
def Progresses (p : Parse α) : Prop := ∀ s, ProgressesAt p s

/-- A run may be said to start where an earlier one did. -/
theorem Ends.rebase (h : p.Ends (forward tokens s₁) s post) (hs : Onward tokens s₀ s₁) :
    p.Ends (forward tokens s₀) s post :=
  h.weaken (fun _ _ => id) (fun _ => hs.trans) id

theorem Progresses.walks (h : Progresses p) : Walks p := fun tokens _ s hs =>
  ((h s tokens hs.self).mono fun _ _ hread => hs.trans hread.1).rebase hs

theorem ProgressesAt.bind (hp : ProgressesAt p s) (hf : ∀ a, Walks (f a)) : ProgressesAt (p >>= f) s := by
  intro tokens hs
  refine (hp tokens hs).bind fun a s₁ h₁ => ?_
  refine ((hf a tokens s₁ s₁ h₁.1.self).rebase h₁.1).mono fun _ s₂ h₂ => ?_
  exact ⟨h₁.1.trans h₂, Nat.lt_of_le_of_lt h₂.length_le h₁.2⟩

theorem Progresses.bind (hp : Progresses p) (hf : ∀ a, Walks (f a)) : Progresses (p >>= f) :=
  fun s => (hp s).bind hf

/-- A step in front of one that takes a token. -/
theorem Walks.progress (hp : Walks p) (hf : ∀ a, Progresses (f a)) : Progresses (p >>= f) := by
  intro s tokens hs
  refine (hp tokens s s hs).bind fun a s₁ h₁ => ((hf a s₁ tokens h₁.self).rebase h₁).mono fun _ s₂ h₂ => ?_
  exact ⟨h₁.trans h₂.1, Nat.lt_of_lt_of_le h₂.2 h₁.length_le⟩

/-- A step that looks at the state only, in front of one that takes a token. -/
theorem ProgressesAt.look {a : α} (hp : p s = .ok a s) (hf : ProgressesAt (f a) s) :
    ProgressesAt (p >>= f) s := fun tokens hs => .next hp (hf tokens hs)

/-- From this state the step takes at least one token, also where it fails. -/
def Commits (p : Parse α) (s : ParseState) : Prop :=
  ∀ tokens, Onward tokens s s →
    p.Ends ⟨fun s' => Onward tokens s s' ∧ s'.rest.length < s.rest.length, True⟩ s fun _ s' =>
      Onward tokens s s' ∧ s'.rest.length < s.rest.length

theorem Commits.progressesAt (h : Commits p s) : ProgressesAt p s := fun tokens hs =>
  (h tokens hs).weaken (fun _ _ => id) (fun _ => And.left) id

/-- A step in order behind one that took a token. -/
theorem Ends.behind (h : p.Ends (forward tokens s₁) s₁ fun _ => Onward tokens s₁)
    (hs : Onward tokens s s₁) (hlt : s₁.rest.length < s.rest.length) :
    p.Ends ⟨fun s' => Onward tokens s s' ∧ s'.rest.length < s.rest.length, True⟩ s₁ fun _ s' =>
      Onward tokens s s' ∧ s'.rest.length < s.rest.length := by
  have hlater (s' : ParseState) (h' : Onward tokens s₁ s') :
      Onward tokens s s' ∧ s'.rest.length < s.rest.length :=
    ⟨hs.trans h', Nat.lt_of_le_of_lt h'.length_le hlt⟩
  exact h.weaken (fun _ => hlater) hlater id

theorem Commits.bind (hp : Commits p s) (hf : ∀ a, Walks (f a)) : Commits (p >>= f) s :=
  fun tokens hs => (hp tokens hs).bind fun a _ h₁ => (hf a _ _ _ h₁.1.self).behind h₁.1 h₁.2

/-- The step takes tokens in order, and at least one where the current token is of this kind. -/
structure Starts (kind : TokenKind) (p : Parse α) : Prop where
  walks : Walks p
  commits : ∀ s, s.kind = kind → Commits p s

theorem progresses_spent : Progresses (spent : Parse α) := fun _ _ _ => trivial

theorem progressesAt_advance {kind : TokenKind} (h : s.kind = kind) (hkind : kind ≠ .eof) :
    ProgressesAt advance s := fun _ hs =>
  .of_eq rfl ⟨hs.advance, hs.length_advance (by simp [atEnd, h, hkind])⟩

theorem progresses_failHere (error : TokenKind → SyntaxError) :
    Progresses (failHere error : Parse α) := fun _ _ hs => hs.report _ ⟨_, hs.current_mem, rfl⟩

theorem Walks.bind (hp : Walks p) (hf : ∀ a, Walks (f a)) : Walks (p >>= f) :=
  fun tokens s₀ s h => (hp tokens s₀ s h).bind fun a s₁ h₁ => hf a tokens s₀ s₁ h₁

theorem walks_pure (a : α) : Walks (pure a : Parse α) := fun _ _ _ h => h

theorem walks_spent : Walks (spent : Parse α) := fun _ _ _ _ => trivial

theorem walks_fail : Walks (fail : Parse α) := fun _ _ _ h => h

/-- A step that looks at the state only. -/
theorem walks_look (h : ∀ s, ∃ a, p s = .ok a s) : Walks p := by
  intro tokens s₀ s hs
  obtain ⟨a, ha⟩ := h s
  exact .of_eq ha hs

theorem walks_state : Walks state := walks_look fun _ => ⟨_, rfl⟩

theorem walks_kind : Walks kind := walks_look fun _ => ⟨_, rfl⟩

theorem walks_check (kind : TokenKind) : Walks (check kind) := walks_look fun _ => ⟨_, rfl⟩

theorem walks_currentSpan : Walks currentSpan := walks_look fun _ => ⟨_, rfl⟩

theorem walks_previousSpan : Walks previousSpan := walks_look fun _ => ⟨_, rfl⟩

theorem walks_advance : Walks advance := fun _ _ _ h => h.advance

theorem walks_failHere (error : TokenKind → SyntaxError) : Walks (failHere error : Parse α) :=
  (progresses_failHere error).walks

/-- A step that fails at a token. -/
theorem walks_failAt (h : Onward tokens s₀ s) (error : SyntaxError) {span : Span}
    (hspan : ∃ token ∈ tokens, span = token.span) :
    (failAt error span : Parse α).Ends (forward tokens s₀) s post := h.report error hspan

theorem walks_newExpr (make : Node → Expr) (span : Span) : Walks (newExpr make span) :=
  fun _ _ _ h => ⟨h.rest, h.within, h.errors, h.ends⟩

theorem walks_newStmt (make : Node → Stmt) (span : Span) : Walks (newStmt make span) :=
  fun _ _ _ h => ⟨h.rest, h.within, h.errors, h.ends⟩

theorem walks_newDecl (entry : α → Decl) (make : Node → α) (span : Span) : Walks (newDecl entry make span) :=
  fun _ _ _ h => ⟨h.rest, h.within, h.errors, h.ends⟩

theorem walks_newType (make : Node → TypeExpr) (span : Span) : Walks (newType make span) :=
  fun _ _ _ h => ⟨h.rest, h.within, h.errors, h.ends⟩

theorem walks_attempt (hp : Walks p) : Walks (attempt p) :=
  fun tokens s₀ s h => Ends.attempt (hp tokens s₀ s h)

/-- A step that starts with a keyword that is at hand. -/
theorem starts_advance {f : Token → Parse β} {kind : TokenKind} (hkind : kind ≠ .eof)
    (hf : ∀ token, Walks (f token)) : Starts kind (advance >>= f) where
  walks := walks_advance.bind hf
  commits := fun s hs tokens h => .next rfl
    ((hf s.current _ _ _ h.advance.self).behind h.advance (h.length_advance (by simp [atEnd, hs, hkind])))

theorem Starts.bind {kind : TokenKind} (hp : Starts kind p) (hf : ∀ a, Walks (f a)) :
    Starts kind (p >>= f) :=
  ⟨hp.walks.bind hf, fun s hs => (hp.commits s hs).bind hf⟩

/-- The token that was asked for is one of the tokens. -/
theorem ends_expect_forward (h : Onward tokens s₀ s) (kind : TokenKind) :
    (expect kind).Ends (forward tokens s₀) s fun token s' =>
      Onward tokens s₀ s' ∧ ∃ read ∈ tokens, token.span = read.span := by
  refine .next rfl ?_
  split
  · exact .of_eq rfl ⟨h.advance, _, h.current_mem, rfl⟩
  · exact h.report _ ⟨_, h.current_mem, rfl⟩

theorem progresses_expect {kind : TokenKind} (hkind : kind ≠ .eof) : Progresses (expect kind) := by
  refine fun s => .look rfl ?_
  split
  · next hfound => exact progressesAt_advance (by simpa using hfound) hkind
  · exact progresses_failHere _ s

theorem walks_expect (kind : TokenKind) : Walks (expect kind) :=
  fun _ _ _ h => (ends_expect_forward h kind).mono fun _ _ hread => hread.1

theorem walks_accept (kind : TokenKind) : Walks (accept kind) :=
  (walks_check kind).bind fun found => by
    split
    · exact walks_advance.bind fun _ => walks_pure _
    · exact walks_pure _

theorem starts_expect {kind : TokenKind} (hkind : kind ≠ .eof) : Starts kind (expect kind) where
  walks := walks_expect kind
  commits := by
    intro s hs tokens h
    refine .next rfl ?_
    rw [if_pos (by simp [hs])]
    exact .of_eq rfl ⟨h.advance, h.length_advance (by simp [atEnd, hs, hkind])⟩

theorem ends_ident_forward (h : Onward tokens s₀ s) : ident.Ends (forward tokens s₀) s fun name s' =>
    Onward tokens s₀ s' ∧ ∃ read ∈ tokens, name.span = read.span := by
  refine .next rfl ?_
  split
  · exact .next rfl (.pure ⟨h.advance, _, h.current_mem, rfl⟩)
  · exact h.report _ ⟨_, h.current_mem, rfl⟩

theorem progresses_ident : Progresses ident := by
  refine fun s => .look rfl ?_
  split
  · next hfound =>
    exact (progressesAt_advance (by simpa using hfound) (by decide)).bind fun _ => walks_pure _
  · exact progresses_failHere _ s

theorem walks_ident : Walks ident := progresses_ident.walks

theorem ends_literal_forward (h : Onward tokens s₀ s) (value : Except SyntaxError α) {span : Span}
    (hspan : ∃ token ∈ tokens, span = token.span) :
    (literal value span).Ends (forward tokens s₀) s fun _ s' => Onward tokens s₀ s' := by
  cases value with
  | ok a => exact walks_pure a _ _ _ h
  | error error => exact walks_failAt h error hspan

/-! ## Lists and options -/

theorem walks_commaList (hp : Walks p) (close : TokenKind) (bound : Nat) :
    Walks (commaList close p bound) := by
  induction bound with
  | zero => exact walks_spent
  | succ bound ih =>
      refine (walks_check close).bind fun closed => ?_
      split
      · exact walks_pure _
      · refine hp.bind fun first => (walks_accept .comma).bind fun more => ?_
        split
        · exact ih.bind fun rest => walks_pure _
        · exact walks_pure _

theorem walks_optionalAfter (hp : Walks p) (mark : TokenKind) : Walks (optionalAfter mark p) :=
  (walks_accept mark).bind fun found => by
    split
    · exact hp.bind fun value => walks_pure _
    · exact walks_pure _

/-! ## Types and parameters -/

theorem progresses_typeParam {bound : Nat} (h : Progresses (typeExpr bound)) : Progresses (do
    let byRef ← accept .kwRef
    let type ← typeExpr bound
    return (⟨if byRef then .reference else .value, type⟩ : TypeParam)) :=
  (walks_accept _).progress fun _ => h.bind fun _ => walks_pure _

theorem progresses_typeExpr (bound : Nat) : Progresses (typeExpr bound) := by
  induction bound with
  | zero => exact progresses_spent
  | succ bound ih =>
      intro s
      have finish (make : Node → TypeExpr) (first : Span) : Walks (do
          let make ← (Pure.pure make : Parse (Node → TypeExpr))
          newType make (first.merge (← previousSpan))) :=
        (walks_pure _).bind fun make => walks_previousSpan.bind fun _ => walks_newType _ _
      refine .look rfl (.look rfl ?_)
      dsimp only
      split
      · refine (progresses_ident.bind fun name => (walks_accept _).bind fun qualified => ?_) s
        split
        · exact walks_ident.bind fun inner => finish _ _
        · exact finish _ _
      · next hkind =>
        exact (progressesAt_advance hkind (by decide)).bind fun _ => ih.walks.bind fun element =>
          (walks_expect _).bind fun _ => finish _ _
      · next hkind =>
        exact (progressesAt_advance hkind (by decide)).bind fun _ => (walks_expect _).bind fun _ =>
          (walks_commaList (progresses_typeParam ih).walks _ bound).bind fun params =>
            (walks_expect _).bind fun _ => (walks_optionalAfter ih.walks _).bind fun ret => finish _ _
      · exact ((progresses_failHere _).bind fun make => walks_previousSpan.bind fun _ =>
          walks_newType _ _) s

theorem walks_typeExpr (bound : Nat) : Walks (typeExpr bound) := (progresses_typeExpr bound).walks

theorem progresses_param (bound : Nat) : Progresses (param bound) := by
  have finish (mode : Mutability × RefKind) (first : Span) : Progresses (do
      let mode ← (Pure.pure mode : Parse (Mutability × RefKind))
      let name ← ident
      let _ ← expect .colon
      let type ← typeExpr bound
      return (⟨name, mode.1, mode.2, type, first.merge (← previousSpan)⟩ : Param)) :=
    (walks_pure _).progress fun mode => progresses_ident.bind fun name => (walks_expect _).bind fun _ =>
      (walks_typeExpr bound).bind fun type => walks_previousSpan.bind fun _ => walks_pure _
  refine walks_currentSpan.progress fun first => (walks_accept _).progress fun byRef => ?_
  dsimp only
  split
  · exact finish _ first
  · refine (walks_accept _).progress fun isVar => ?_
    split
    · exact finish _ first
    · exact finish _ first

theorem progresses_signature (bound : Nat) : Progresses (signature bound) :=
  (progresses_expect (by decide)).bind fun _ =>
    (walks_commaList (progresses_param bound).walks _ bound).bind fun _ => (walks_expect _).bind fun _ =>
      (walks_optionalAfter (walks_typeExpr bound) _).bind fun _ => walks_pure _

/-! ## Bodies and declarations in them -/

theorem walks_stmts {stmt : Parse Stmt} (hstmt : Walks stmt) (bound : Nat) :
    Walks (stmts stmt bound) := by
  induction bound with
  | zero => exact walks_spent
  | succ bound ih =>
      refine walks_state.bind fun s => ?_
      split
      · exact walks_pure _
      · refine (walks_attempt hstmt).bind fun first => ?_
        split
        · exact ih.bind fun rest => walks_pure _
        · refine walks_currentSpan.bind fun here => ?_
          split
          · exact walks_advance.bind fun _ => ih
          · exact ih

theorem progresses_block {stmt : Parse Stmt} (hstmt : Walks stmt) (bound : Nat) :
    Progresses (block stmt bound) :=
  (progresses_expect (by decide)).bind fun _ => (walks_stmts hstmt bound).bind fun _ =>
    (walks_expect _).bind fun _ => walks_pure _

theorem progresses_requiredBody {block : Parse (List Stmt)} (hblock : Progresses block) :
    Progresses (requiredBody block) :=
  (walks_check _).progress fun found => by
    split
    · exact hblock
    · exact progresses_failHere _

theorem starts_funcDecl {block : Parse (List Stmt)} (hblock : Progresses block) (bound : Nat)
    (funcKind : FuncKind) (access : Access) :
    Starts .kwFunc (funcDecl block bound funcKind access) := by
  have func (s : ParseState) : Starts .kwFunc (do
      let hosted := s.previous.kind == .kwExtern
      let first := if hosted then s.previous.span else s.current.span
      let _ ← expect .kwFunc
      let name ← ident
      let sig ← signature bound
      let body ←
        if hosted then do
          let _ ← expect .semi
          pure none
        else do
          let body ← requiredBody block
          pure (some body)
      newDecl .func (fun node => FuncDecl.mk node name sig body funcKind access)
        (first.merge (← previousSpan))) := by
    refine (starts_expect (by decide)).bind fun _ => walks_ident.bind fun name =>
      (progresses_signature bound).walks.bind fun sig => ?_
    have finish (body : Option (List Stmt)) (first : Span) : Walks (do
        let body ← (Pure.pure body : Parse (Option (List Stmt)))
        newDecl .func (fun node => FuncDecl.mk node name sig body funcKind access)
          (first.merge (← previousSpan))) :=
      (walks_pure _).bind fun body => walks_previousSpan.bind fun _ => walks_newDecl _ _ _
    dsimp only
    split
    · exact (walks_expect _).bind fun _ => finish _ _
    · exact (progresses_requiredBody hblock).walks.bind fun body => finish _ _
  exact ⟨walks_state.bind fun s => (func s).walks, fun s hs tokens h =>
    .next rfl ((func s).commits s hs tokens h)⟩

theorem starts_binding {e : Parse Expr} {kind : TokenKind} (he : Walks e) (hkind : kind ≠ .eof)
    (bound : Nat) : Starts kind (binding e bound) := by
  refine starts_advance hkind fun keyword tokens s₀ s hs => ?_
  refine (ends_ident_forward hs).bind fun name s₁ h₁ => ?_
  obtain ⟨h₁, hname⟩ := h₁
  refine (walks_optionalAfter (walks_typeExpr bound) _ _ _ _ h₁).bind fun type s₂ h₂ => ?_
  refine (walks_optionalAfter he _ _ _ _ h₂).bind fun init s₃ h₃ => ?_
  split
  · exact walks_failAt h₃ _ hname
  · exact ((walks_expect _).bind fun _ => walks_pure _) _ _ _ h₃

theorem walks_binding {e : Parse Expr} (he : Walks e) (bound : Nat) : Walks (binding e bound) :=
  (starts_binding he (show TokenKind.kwLet ≠ .eof by decide) bound).walks

theorem progresses_exprOrAssign {e : Parse Expr} (he : Progresses e) : Progresses (exprOrAssign e) := by
  have finish (make : Node → Stmt) : Walks (do
      let make ← (Pure.pure make : Parse (Node → Stmt))
      let _ ← expect .semi
      return make) :=
    (walks_pure _).bind fun make => (walks_expect _).bind fun _ => walks_pure _
  refine he.bind fun target => (walks_accept _).bind fun plain => ?_
  split
  · exact he.walks.bind fun value => finish _
  · refine walks_kind.bind fun kind => ?_
    split
    · exact walks_advance.bind fun _ => he.walks.bind fun value => finish _
    · exact finish _

/-! ## Expressions and statements -/

/-- The steps that descend into expressions and statements take tokens in order. -/
structure WalksAt (bound : Nat) : Prop where
  expr : ∀ level, Progresses (expr level bound)
  exprRest : ∀ level left, Walks (exprRest level left bound)
  operand : Progresses (operand bound)
  primary : Progresses (primary bound)
  stmt : Progresses (stmt bound)
  ifElse : Starts .kwIf (ifElse bound)

namespace WalksAt

variable {bound : Nat} (h : WalksAt bound)

include h

theorem body : Progresses (block (Parse.stmt bound) bound) := progresses_block h.stmt.walks bound

theorem expr_succ (level : Precedence) : Progresses (Parse.expr level (bound + 1)) := by
  rw [Parse.expr]
  exact h.operand.bind fun left => h.exprRest level left

theorem exprRest_succ (level : Precedence) (left : Expr) :
    Walks (Parse.exprRest level left (bound + 1)) := by
  rw [Parse.exprRest]
  have finish (make : Node → Expr) (span : Span) : Walks (do
      let longer ← newExpr make span
      Parse.exprRest level longer bound) :=
    (walks_newExpr _ _).bind fun longer => h.exprRest level longer
  have inner (level : Precedence) : Walks (Parse.expr level bound) := (h.expr level).walks
  refine walks_kind.bind fun kind => ?_
  split
  · exact walks_pure _
  · split
    · exact walks_pure _
    · refine walks_advance.bind fun _ => ?_
      dsimp only
      split
      · exact (walks_commaList (inner .lowest) _ bound).bind fun args =>
          (walks_expect _).bind fun _ => walks_previousSpan.bind fun _ => finish _ _
      · exact (inner .lowest).bind fun index => (walks_expect _).bind fun _ =>
          walks_previousSpan.bind fun _ => finish _ _
      · exact walks_ident.bind fun name => finish _ _
      · exact (inner .lowest).bind fun onTrue => (walks_expect _).bind fun _ =>
          (inner .lowest).bind fun onFalse => finish _ _
      · exact (inner _).bind fun right => finish _ _

theorem operand_succ : Progresses (Parse.operand (bound + 1)) := by
  rw [Parse.operand]
  refine walks_kind.progress fun kind => ?_
  split
  · exact walks_advance.progress fun first => (h.expr .unary).bind fun inner => walks_newExpr _ _
  · exact h.primary

theorem primary_succ : Progresses (Parse.primary (bound + 1)) := by
  rw [Parse.primary]
  intro s
  have finish (make : Node → Expr) (first : Span) : Walks (do
      newExpr make (first.merge (← previousSpan))) :=
    walks_previousSpan.bind fun _ => walks_newExpr _ _
  have leaf {kind : TokenKind} (make : Node → Expr) (first : Span) (hkind : s.current.kind = kind)
      (hne : kind ≠ .eof) : ProgressesAt (do
      let _ ← advance
      newExpr make (first.merge (← previousSpan))) s :=
    (progressesAt_advance hkind hne).bind fun _ => finish _ _
  have decoded {kind : TokenKind} (value : Except SyntaxError Literal) (hkind : s.current.kind = kind)
      (hne : kind ≠ .eof) : ProgressesAt (do
      let _ ← advance
      let value ← literal value s.current.span
      newExpr (fun node => .literal node value) (s.current.span.merge (← previousSpan))) s := by
    intro tokens hs
    have hlt := hs.length_advance (by simp [atEnd, ParseState.kind, hkind, hne])
    refine .next rfl (((ends_literal_forward hs.advance.self value ⟨_, hs.current_mem, rfl⟩).rebase
      hs.advance).bind fun value s₁ h₁ => ?_)
    refine ((finish _ _ _ _ _ h₁).rebase hs.advance).mono fun _ s₂ h₂ => ?_
    exact ⟨hs.advance.trans h₂, Nat.lt_of_le_of_lt h₂.length_le hlt⟩
  refine .look rfl ?_
  dsimp only
  split
  · next hkind => exact decoded _ hkind (by decide)
  · next hkind => exact leaf _ _ hkind (by decide)
  · next hkind => exact decoded _ hkind (by decide)
  · next hkind => exact decoded _ hkind (by decide)
  · next hkind => exact leaf _ _ hkind (by decide)
  · next hkind => exact leaf _ _ hkind (by decide)
  · exact (progresses_ident.bind fun name => finish _ _) s
  · next hkind => exact leaf _ _ hkind (by decide)
  · exact (walks_advance.progress fun _ => (h.expr .lowest).bind fun inner =>
      (walks_expect _).bind fun _ => walks_pure _) s
  · next hkind =>
    exact (progressesAt_advance hkind (by decide)).bind fun _ =>
      (walks_commaList (h.expr .lowest).walks _ bound).bind fun elements =>
        (walks_expect _).bind fun _ => finish _ _
  · exact (walks_advance.progress fun _ => (progresses_signature bound).bind fun sig =>
      (progresses_requiredBody h.body).walks.bind fun body => finish _ _) s
  · exact progresses_failHere _ s

theorem ifElse_succ : Starts .kwIf (Parse.ifElse (bound + 1)) := by
  rw [Parse.ifElse]
  refine starts_advance (by decide) fun first => (h.expr .lowest).walks.bind fun cond =>
    h.body.walks.bind fun onTrue => ?_
  have finish (onFalse : Option (List Stmt)) : Walks (do
      let onFalse ← (Pure.pure onFalse : Parse (Option (List Stmt)))
      newStmt (fun node => .ifElse node cond onTrue onFalse)
        (first.span.merge (← previousSpan))) :=
    (walks_pure _).bind fun onFalse => walks_previousSpan.bind fun _ => walks_newStmt _ _
  refine (walks_accept _).bind fun hasElse => ?_
  split
  · refine (walks_check _).bind fun chains => ?_
    split
    · exact h.ifElse.walks.bind fun chained => finish _
    · exact h.body.walks.bind fun body => finish _
  · exact finish _

theorem stmt_succ : Progresses (Parse.stmt (bound + 1)) := by
  rw [Parse.stmt]
  refine walks_currentSpan.progress fun first s => .look rfl ?_
  have finish (make : Node → Stmt) : Walks (do newStmt make (first.merge (← previousSpan))) :=
    walks_previousSpan.bind fun _ => walks_newStmt _ _
  have closed (make : Node → Stmt) : Walks (do
      let _ ← expect .semi
      newStmt make (first.merge (← previousSpan))) := (walks_expect _).bind fun _ => finish _
  have assignment : Progresses (do
      let make ← exprOrAssign (Parse.expr .lowest bound)
      newStmt make (first.merge (← previousSpan))) :=
    (progresses_exprOrAssign (h.expr .lowest)).bind fun make => finish _
  have declared {kind : TokenKind} (hkind : s.kind = kind) (hne : kind ≠ .eof) : ProgressesAt (do
      let binding ← binding (Parse.expr .lowest bound) bound
      newStmt (fun node => .bind node binding) (first.merge (← previousSpan))) s :=
    (((starts_binding (h.expr .lowest).walks hne bound).commits s hkind).bind
      fun binding => finish _).progressesAt
  dsimp only
  split
  · next hkind => exact declared hkind (by decide)
  · next hkind => exact declared hkind (by decide)
  · next hkind => exact (h.ifElse.commits s hkind).progressesAt
  · exact (walks_advance.progress fun _ => (h.expr .lowest).bind fun cond =>
      h.body.walks.bind fun body => finish _) s
  · next hkind =>
    refine (progressesAt_advance hkind (by decide)).bind fun _ => (walks_check _).bind fun bare => ?_
    split
    · exact (walks_pure _).bind fun value => closed _
    · exact (h.expr .lowest).walks.bind fun value => (walks_pure _).bind fun value => closed _
  · next hkind => exact (progressesAt_advance hkind (by decide)).bind fun _ => closed _
  · next hkind => exact (progressesAt_advance hkind (by decide)).bind fun _ => closed _
  · exact (h.body.bind fun body => finish _) s
  · next hkind =>
    refine .look rfl ?_
    split
    · exact (((starts_funcDecl h.body bound _ _).commits s hkind).bind fun decl =>
        finish _).progressesAt
    · exact assignment s
  · exact assignment s

end WalksAt

theorem walksAt (bound : Nat) : WalksAt bound := by
  induction bound with
  | zero =>
      exact ⟨fun _ => progresses_spent, fun _ _ => walks_spent, progresses_spent, progresses_spent,
        progresses_spent, ⟨walks_spent, fun _ _ _ _ => trivial⟩⟩
  | succ bound ih =>
      exact ⟨ih.expr_succ, ih.exprRest_succ, ih.operand_succ, ih.primary_succ, ih.stmt_succ,
        ih.ifElse_succ⟩

/-! ## Members and declarations -/

theorem progresses_body (bound : Nat) : Progresses (body bound) := (walksAt bound).body

theorem progresses_fieldDecl (bound : Nat) (access : Access) : Progresses (fieldDecl bound access) :=
  walks_currentSpan.progress fun _ => progresses_ident.bind fun _ => (walks_expect _).bind fun _ =>
    (walks_typeExpr bound).bind fun _ => (walks_expect _).bind fun _ =>
      walks_previousSpan.bind fun _ => walks_pure _

theorem progresses_member (bound : Nat) : Progresses (member bound) := by
  have func (funcKind : FuncKind) (access : Access) : Starts .kwFunc (do
      let decl ← funcDecl (body bound) bound funcKind access
      return (.func decl : Member)) :=
    (starts_funcDecl (progresses_body bound) bound _ _).bind fun decl => walks_pure _
  refine (walks_accept _).progress fun isPrivate s => .look rfl ?_
  split
  · next hkind => exact (progressesAt_advance hkind (by decide)).bind fun _ => (func _ _).walks
  · next hkind => exact ((func _ _).commits s hkind).progressesAt
  · exact ((progresses_fieldDecl bound _).bind fun decl => walks_pure _) s
  · next hkind =>
    refine .look rfl ?_
    split
    · exact (progressesAt_advance hkind (by decide)).bind fun _ => (func _ _).walks
    · exact progresses_failHere _ s
  · exact progresses_failHere _ s

theorem walks_members (bound n : Nat) : Walks (members bound n) := by
  induction n with
  | zero => exact walks_spent
  | succ n ih =>
      refine walks_state.bind fun s => ?_
      split
      · exact walks_pure _
      · exact (progresses_member bound).walks.bind fun first => ih.bind fun rest => walks_pure _

theorem starts_structDecl (bound : Nat) : Starts .kwStruct (structDecl bound) :=
  starts_advance (by decide) fun _ => walks_ident.bind fun _ => (walks_expect _).bind fun _ =>
    (walks_members bound bound).bind fun _ => (walks_expect _).bind fun _ =>
      walks_previousSpan.bind fun _ => walks_newDecl _ _ _

theorem progresses_enumCase : Progresses enumCase := by
  refine progresses_ident.bind fun name => (walks_accept _).bind fun valued => ?_
  split
  · refine (walks_accept _).bind fun negative tokens s₀ s hs => ?_
    refine (ends_expect_forward hs _).bind fun token s₁ h₁ => ?_
    exact (ends_literal_forward h₁.1 _ h₁.2).bind fun value s₂ h₂ => walks_pure _ _ _ _ h₂
  · exact walks_pure _

theorem starts_enumDecl (bound : Nat) : Starts .kwEnum (enumDecl bound) :=
  starts_advance (by decide) fun _ => walks_ident.bind fun _ => (walks_expect _).bind fun _ =>
    (walks_commaList progresses_enumCase.walks _ bound).bind fun _ => (walks_expect _).bind fun _ =>
      walks_previousSpan.bind fun _ => walks_newDecl _ _ _

theorem starts_aliasDecl (bound : Nat) : Starts .kwType (aliasDecl bound) :=
  starts_advance (by decide) fun _ => walks_ident.bind fun _ => (walks_accept _).bind fun _ =>
    (walks_typeExpr bound).bind fun _ => (walks_expect _).bind fun _ =>
      walks_previousSpan.bind fun _ => walks_newDecl _ _ _

/-- A keyword that a declaration starts with is passed, even if the declaration fails. -/
theorem commits_declaration (bound : Nat) (h : startsDeclaration s.kind = true) :
    Commits (declaration bound) s := by
  have func : Starts .kwFunc (do
      let decl ← funcDecl (body bound) bound .free .everyone
      return (.func decl : Decl)) :=
    (starts_funcDecl (progresses_body bound) bound _ _).bind fun decl => walks_pure _
  have declared {kind : TokenKind} (hkind : s.kind = kind) (hne : kind ≠ .eof) : Commits (do
      let first ← currentSpan
      let global ← binding (expr .lowest bound) bound
      newDecl id (fun node => Decl.global node global) (first.merge (← previousSpan))) s := by
    intro tokens hs
    exact .next rfl ((((starts_binding ((walksAt bound).expr .lowest).walks hne bound).commits s
      hkind).bind fun global => walks_previousSpan.bind fun _ => walks_newDecl _ _ _) tokens hs)
  intro tokens hs
  refine .next rfl ?_
  split
  · next hkind => exact func.commits s hkind tokens hs
  · next hkind =>
    refine (starts_advance (by decide) fun _ => (walks_check _).bind fun found => ?_).commits s hkind
      tokens hs
    split
    · exact func.walks
    · exact walks_failHere _
  · next hkind => exact (starts_structDecl bound).commits s hkind tokens hs
  · next hkind => exact (starts_enumDecl bound).commits s hkind tokens hs
  · next hkind => exact (starts_aliasDecl bound).commits s hkind tokens hs
  · next hkind => exact declared hkind (by decide) tokens hs
  · next hkind => exact declared hkind (by decide) tokens hs
  · next hkind => simp [hkind, startsDeclaration] at h
  · next hfunc hextern hstruct henum htype hlet hvar _ =>
    exfalso
    revert h
    unfold startsDeclaration
    split <;> simp_all

/-- Where no declaration starts nothing is read. -/
theorem declaration_fails (bound : Nat) (h : startsDeclaration s.kind = false) :
    (declaration bound).Ends ⟨fun s' => ∃ error, s' = s.report error s.current.span, False⟩ s
      fun _ _ => False := by
  have other {kind : TokenKind} (hkind : s.kind = kind) (hstarts : startsDeclaration kind = true) :
      False := by simp [hkind, hstarts] at h
  refine .next rfl ?_
  split
  · next hkind => exact (other hkind rfl).elim
  · next hkind => exact (other hkind rfl).elim
  · next hkind => exact (other hkind rfl).elim
  · next hkind => exact (other hkind rfl).elim
  · next hkind => exact (other hkind rfl).elim
  · next hkind => exact (other hkind rfl).elim
  · next hkind => exact (other hkind rfl).elim
  · exact ⟨_, rfl⟩
  · exact ⟨_, rfl⟩

theorem progresses_declaration (bound : Nat) : Progresses (declaration bound) := by
  intro s
  cases h : startsDeclaration s.kind with
  | true => exact (commits_declaration bound h).progressesAt
  | false =>
      refine fun tokens hs => (declaration_fails bound h).weaken (fun _ _ => False.elim) ?_ False.elim
      rintro _ ⟨error, rfl⟩
      exact hs.report error ⟨_, hs.current_mem, rfl⟩

end Parse

/-! ## Recovery and modules -/

namespace ParseState

variable {tokens : List Token} {s₀ s : ParseState}

theorem Onward.skipBlock (h : Onward tokens s₀ s) (bound depth : Nat) :
    Onward tokens s₀ (skipBlock bound depth s) := by
  induction bound generalizing depth s with
  | zero => exact h
  | succ bound ih =>
      unfold ParseState.skipBlock
      split
      · exact h
      · exact ih h.advance _

theorem Onward.skipToDeclaration (h : Onward tokens s₀ s) (bound : Nat) :
    Onward tokens s₀ (skipToDeclaration bound s) := by
  induction bound generalizing s with
  | zero => exact h
  | succ bound ih =>
      unfold ParseState.skipToDeclaration
      split
      · exact h
      · split
        · exact ih (h.advance.skipBlock _ _)
        · exact ih h.advance

theorem Onward.synchronize (h : Onward tokens s₀ s) : Onward tokens s₀ s.synchronize := by
  have hquiet : Onward tokens s₀ { s with recovering := false } := ⟨h.rest, h.within, h.errors, h.ends⟩
  exact hquiet.skipToDeclaration _

end ParseState

namespace Parse

theorem walks_synchronize : Walks (update ParseState.synchronize) :=
  fun _ _ _ h => h.synchronize

theorem walks_declarations (bound n : Nat) : Walks (declarations bound n) := by
  induction n with
  | zero => exact walks_spent
  | succ n ih =>
      refine walks_state.bind fun s => ?_
      split
      · exact walks_pure _
      · have skipped : Walks (do
            update ParseState.synchronize
            declarations bound n) := walks_synchronize.bind fun _ => ih
        refine (walks_attempt (progresses_declaration bound).walks).bind fun first => walks_state.bind fun s => ?_
        split
        · exact skipped
        · split
          · exact ih.bind fun rest => walks_pure _
          · exact skipped

theorem walks_header : Walks header := by
  refine (walks_accept _).bind fun found => ?_
  split
  · exact (walks_attempt walks_ident).bind fun name => (walks_attempt (walks_expect _)).bind fun _ =>
      walks_previousSpan.bind fun _ => walks_pure _
  · exact walks_pure _

theorem starts_importDecl : Starts .kwImport importDecl :=
  (starts_expect (by decide)).bind fun _ => walks_ident.bind fun _ => (walks_expect _).bind fun _ =>
    walks_pure _

theorem walks_imports (n : Nat) : Walks (imports n) := by
  induction n with
  | zero => exact walks_spent
  | succ n ih =>
      refine (walks_check _).bind fun found => ?_
      split
      · exact (walks_attempt starts_importDecl.walks).bind fun first => ih.bind fun rest => walks_pure _
      · exact walks_pure _

theorem walks_moduleDecl (file : FileId) (defaultName : String) (bound : Nat) :
    Walks (moduleDecl file defaultName bound) :=
  walks_header.bind fun _ => (walks_imports bound).bind fun _ =>
    (walks_declarations bound bound).bind fun _ => walks_pure _

theorem walks_wholeType (bound : Nat) : Walks (wholeType bound) := by
  refine (walks_attempt (walks_typeExpr bound)).bind fun type => walks_state.bind fun s => ?_
  have unread : Walks (attempt (failHere (.expected "end of type") : Parse Unit)) :=
    walks_attempt (walks_failHere _)
  cases type with
  | none =>
      dsimp only
      split
      · exact unread.bind fun _ => walks_fail
      · exact walks_fail
  | some type =>
      dsimp only
      split
      · exact unread.bind fun _ => walks_pure _
      · exact walks_pure _

end Parse

end Stela
