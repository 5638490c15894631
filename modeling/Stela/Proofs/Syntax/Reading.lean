import Stela.Proofs.Syntax.Forms
import Stela.Proofs.Syntax.Outcomes

/-!
# What has been read

Along a run of the parser the errors only grow, and as long as there are none
the tokens that were read spell the tree that was built of them. A step that
fails leaves an error behind, because the parser recovers only from an error
that it recorded.
-/

namespace Stela

open Phrase

variable {α β : Type}

namespace ParseState

/-- The tokens that have not been read, up to the end of the input. -/
def unread (s : ParseState) : List Token := (s.current :: s.ahead).takeWhile (·.kind != .eof)

/-- The parser recovers from an error that it recorded. -/
def Explained (s : ParseState) : Prop := s.recovering = true → s.errors ≠ []

/-! ## Reports and errors -/

variable {s : ParseState}

theorem errors_report (h : s.Explained) (error : SyntaxError) (span : Span) :
    (s.report error span).errors ≠ [] := by
  unfold report
  split
  · next hrecovering => exact h hrecovering
  · simp

theorem kept_report (h : s.errors ≠ []) (error : SyntaxError) (span : Span) :
    (s.report error span).errors ≠ [] := by
  unfold report
  split
  · exact h
  · simp

theorem kept_checkCurrent (h : s.errors ≠ []) : s.checkCurrent.errors ≠ [] := by
  unfold checkCurrent
  split
  · exact kept_report h _ _
  · exact kept_report h _ _
  · exact h

theorem explained_checkCurrent (h : s.Explained) : s.checkCurrent.Explained := by
  unfold checkCurrent
  split
  · exact fun _ => errors_report h _ _
  · exact fun _ => errors_report h _ _
  · exact h

theorem explained_start (tokens : List Token) (nodes : NodeCount) :
    (start tokens nodes).Explained := by
  unfold start
  split
  · exact fun h => by cases h
  · exact explained_checkCurrent fun h => by cases h

theorem kept_advance (h : s.errors ≠ []) : s.advance.errors ≠ [] := by
  unfold advance
  split
  · exact h
  · split
    · exact h
    · exact kept_checkCurrent h

theorem explained_advance (h : s.Explained) : s.advance.Explained := by
  unfold advance
  split
  · exact h
  · split
    · exact h
    · exact explained_checkCurrent h

theorem unread_of_atEnd (h : s.atEnd = true) : s.unread = [] := by
  have hkind : s.current.kind = .eof := by simpa [atEnd, kind] using h
  simp [unread, hkind]

theorem unread_advance (h : s.current.kind ≠ .eof) : s.unread = s.current :: s.advance.unread := by
  unfold unread
  rw [List.takeWhile_cons_of_pos (by simpa using h)]
  cases hahead : s.ahead with
  | nil => simp [current_advance_nil h hahead]
  | cons token rest => rw [(advance_cons h hahead).1, (advance_cons h hahead).2]

end ParseState

open ParseState

/-- Between two states the tokens that spell the language were read. This is said of runs
without errors that do not s₀ behind `extern`. -/
structure Read (s₀ : ParseState) (L : Language Word) (s : ParseState) : Prop where
  kept : s₀.errors ≠ [] → s.errors ≠ []
  explained : s.Explained
  spelled : s.errors = [] → s₀.previous.kind ≠ .kwExtern →
    Spells L s₀.unread s.unread ∧ s.previous.kind ≠ .kwExtern

namespace Read

variable {s₀ s s' : ParseState} {L M : Language Word} {token : Token} {kind : TokenKind}

theorem refl (h : s.Explained) : Read s 1 s where
  kept := id
  explained := h
  spelled := fun _ hstart => ⟨spells_one.mpr rfl, hstart⟩

theorem mono (h : Read s₀ L s) (hle : L ≤ M) : Read s₀ M s where
  kept := h.kept
  explained := h.explained
  spelled := fun herrors hstart => ⟨(h.spelled herrors hstart).1.mono hle, (h.spelled herrors hstart).2⟩

theorem trans (h : Read s₀ L s) (h' : Read s M s') : Read s₀ (L * M) s' where
  kept := fun herrors => h'.kept (h.kept herrors)
  explained := h'.explained
  spelled := by
    intro herrors hstart
    have hbefore : s.errors = [] := by
      by_contra hne
      exact h'.kept hne herrors
    obtain ⟨hfirst, hprevious⟩ := h.spelled hbefore hstart
    obtain ⟨hsecond, hlast⟩ := h'.spelled herrors hprevious
    exact ⟨spells_mul.mpr ⟨s.unread, hfirst, hsecond⟩, hlast⟩

/-- Behind an error nothing is said of the tokens. -/
theorem of_errors (h : s.errors ≠ []) : Read s₀ L s where
  kept := fun _ => h
  explained := fun _ => h
  spelled := fun herrors => absurd herrors h

/-- Nothing is said of a run that starts behind `extern`. -/
theorem behindExtern (h : s.Explained) (L : Language Word) : ∃ s₀, Read s₀ L s := by
  let s₀ : ParseState := { s with errors := [], previous := { s.previous with kind := .kwExtern } }
  exact ⟨s₀, fun hne => absurd rfl hne, h, fun _ hfree => absurd rfl hfree⟩

/-- Numbering a node reads nothing. -/
theorem finish {nodes : NodeCount} {arena : List ArenaNode} (h : Read s₀ L s) (hle : L ≤ M) :
    Read s₀ M { s with nodes := nodes, arena := arena } :=
  ⟨h.kept, h.explained, (h.mono hle).spelled⟩

theorem advance (h : Read s₀ L s) {w : Word} (hword : s.current.word? = some w)
    (hplain : s.current.kind ≠ .kwExtern) : Read s₀ (L * word w) s.advance where
  kept := fun herrors => kept_advance (h.kept herrors)
  explained := explained_advance h.explained
  spelled := by
    intro herrors hstart
    have hbefore : s.errors = [] := by
      by_contra hne
      exact kept_advance hne herrors
    obtain ⟨hread, -⟩ := h.spelled hbefore hstart
    have hcurrent := unread_advance (Token.kind_ne_eof (by rw [hword]; rfl))
    constructor
    · exact spells_mul.mpr ⟨s.unread, hread, spells_word.mpr ⟨s.current, hcurrent, hword⟩⟩
    · rwa [previous_advance]

/-- A mark that is no `extern` is read. -/
theorem mark (h : Read s₀ L s) (hkind : s.kind = kind) (hmark : kind.isMark = true)
    (hplain : kind ≠ .kwExtern) : Read s₀ (L * Phrase.mark kind) s.advance :=
  h.advance (Token.word?_of_mark hmark hkind) (by rwa [← hkind] at hplain)

end Read

namespace Parse

/-- A step that fails has recorded an error. -/
def recorded : Leeway := ⟨fun s => s.errors ≠ [], True⟩

/-- What the step reads spells what it makes of it. -/
def Forms (p : Parse α) (L : α → Language Word) : Prop :=
  ∀ s, s.Explained → p.Ends recorded s fun a s' => Read s (L a) s'

variable {p : Parse α} {f : α → Parse β} {s₀ s : ParseState} {M : Language Word}
  {L : α → Language Word} {post : α → ParseState → Prop} {kind : TokenKind}

theorem Forms.ends (hp : Forms p L) (h : Read s₀ M s) :
    p.Ends recorded s fun a s' => Read s₀ (M * L a) s' :=
  (hp s h.explained).mono fun _ _ h' => h.trans h'

theorem failing (h : s.Explained) (error : SyntaxError) (span : Span) :
    (failAt error span : Parse α).Ends recorded s post := errors_report h error span

theorem failingHere (h : s.Explained) (error : TokenKind → SyntaxError) :
    (failHere error : Parse α).Ends recorded s post := errors_report h _ _

theorem ends_expect {P : Token → ParseState → Prop} (h : s.Explained)
    (hfound : s.kind = kind → P s.current s.advance) : (expect kind).Ends recorded s P := by
  refine .next rfl ?_
  split
  · next heq => exact .of_eq rfl (hfound (by simpa using heq))
  · exact failingHere h _

theorem read_expect (h : Read s₀ M s) (hmark : kind.isMark = true) (hplain : kind ≠ .kwExtern) :
    (expect kind).Ends recorded s fun _ s' => Read s₀ (M * mark kind) s' :=
  ends_expect h.explained fun hkind => h.mark hkind hmark hplain

theorem read_accept (h : Read s₀ M s) (hmark : kind.isMark = true) (hplain : kind ≠ .kwExtern) :
    (accept kind).Ends recorded s fun found s' =>
      Read s₀ (M * if found then mark kind else 1) s' := by
  refine .next rfl ?_
  split
  · next hfound =>
    exact .next rfl (.pure (h.mark (by simpa using hfound) hmark hplain))
  · exact .pure (h.mono (by simp))

theorem read_ident (h : Read s₀ M s) :
    ident.Ends recorded s fun name s' => Read s₀ (M * word (.name name.name)) s' := by
  refine .next rfl ?_
  split
  · next hfound =>
    have hkind : s.current.kind = .ident := by simpa [ParseState.kind] using hfound
    exact .next rfl (.pure (h.advance (Token.word?_of_ident hkind) (by simp [hkind])))
  · exact failingHere h.explained _

/-- A literal token says its value, if it has one. -/
theorem read_literal {value : Except SyntaxError Literal} {span : Span} {f : Literal → Parse β}
    {post : β → ParseState → Prop} (h : Read s₀ M s)
    (hword : s.current.word? = value.toOption.map .literal) (hplain : s.current.kind ≠ .kwExtern)
    (hf : ∀ v s', Read s₀ (M * v.language) s' → (f v).Ends recorded s' post) :
    (do
      let _ ← advance
      let v ← literal value span
      f v).Ends recorded s post := by
  refine .next rfl ?_
  cases value with
  | error error =>
      exact .bind (P := fun _ _ => False) (failing (explained_advance h.explained) _ _)
        fun _ _ h => h.elim
  | ok v =>
      refine .next rfl (hf v _ ?_)
      rw [Literal.language_of_word? hword]
      exact h.advance hword hplain

/-- What is given up has left an error. -/
theorem ends_attempt {post : α → ParseState → Prop} (h : p.Ends recorded s post) :
    (attempt p).Ends recorded s fun value s' =>
      match value with
      | some a => post a s'
      | none => s'.errors ≠ [] :=
  Ends.attempt h

/-! ## Lists and options -/

theorem forms_commaList {close : TokenKind} (hp : Forms p L) (bound : Nat) :
    Forms (commaList close p bound) fun items => commas (items.map L) := by
  induction bound with
  | zero => exact fun _ _ => trivial
  | succ bound ih =>
      intro s hs
      refine .next rfl ?_
      split
      · exact .pure (.refl hs)
      · refine (hp s hs).bind fun first s₁ h₁ => ?_
        refine (read_accept h₁ rfl (by decide)).bind fun more s₂ h₂ => ?_
        split
        · next hmore =>
          rw [if_pos hmore] at h₂
          refine (ih.ends h₂).bind fun rest s₃ h₃ => .pure (h₃.mono ?_)
          rw [mul_assoc]
          exact mul_le_mul_right (le_add_of_nonneg_left bot_le) _
        · next hmore =>
          rw [if_neg hmore] at h₂
          exact .pure (h₂.mono (mul_le_mul_right (by simp) _))

theorem forms_optionalAfter {kind : TokenKind} (hp : Forms p L) (hmark : kind.isMark = true)
    (hplain : kind ≠ .kwExtern) :
    Forms (optionalAfter kind p) fun value => behind kind (value.map L) := by
  intro s hs
  refine (read_accept (.refl hs) hmark hplain).bind fun found s₁ h₁ => ?_
  split
  · next hfound =>
    rw [if_pos hfound, one_mul] at h₁
    exact (hp.ends h₁).bind fun value s₂ h₂ => .pure h₂
  · next hfound =>
    rw [if_neg hfound, one_mul] at h₁
    exact .pure h₁

end Parse

end Stela
