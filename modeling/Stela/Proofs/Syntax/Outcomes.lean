import Stela.Syntax.Module

/-!
# Outcomes of parsing steps

What is known of a run of a parsing step: a condition on what it reads and where
it stops if it succeeds, a condition on where it stops if it fails, and whether
it may run out of its bound. The last two stay the same along a chain of steps.
-/

namespace Stela

namespace ParseState

/-! ## Moves -/

variable {s : ParseState}

@[simp] theorem current_report (error : SyntaxError) (span : Span) :
    (s.report error span).current = s.current := by
  unfold report
  split <;> rfl

@[simp] theorem ahead_report (error : SyntaxError) (span : Span) :
    (s.report error span).ahead = s.ahead := by
  unfold report
  split <;> rfl

@[simp] theorem previous_report (error : SyntaxError) (span : Span) :
    (s.report error span).previous = s.previous := by
  unfold report
  split <;> rfl

@[simp] theorem current_checkCurrent : s.checkCurrent.current = s.current := by
  unfold checkCurrent
  split <;> simp

@[simp] theorem ahead_checkCurrent : s.checkCurrent.ahead = s.ahead := by
  unfold checkCurrent
  split <;> simp

@[simp] theorem previous_checkCurrent : s.checkCurrent.previous = s.previous := by
  unfold checkCurrent
  split <;> simp

@[simp] theorem previous_advance : s.advance.previous = s.current := by
  unfold advance
  split
  · rfl
  · split <;> simp

/-- At the last of all tokens the end of the input is made up. -/
theorem current_advance_nil (h : s.current.kind ≠ .eof) (hahead : s.ahead = []) :
    s.advance.current.kind = .eof := by
  have hend : s.atEnd = false := by simpa [atEnd, kind] using h
  simp [advance, hend, hahead]

theorem advance_cons {token : Token} {rest : List Token} (h : s.current.kind ≠ .eof)
    (hahead : s.ahead = token :: rest) : s.advance.current = token ∧ s.advance.ahead = rest := by
  have hend : s.atEnd = false := by simpa [atEnd, kind] using h
  simp [advance, hend, hahead]

@[simp] theorem arena_report (error : SyntaxError) (span : Span) :
    (s.report error span).arena = s.arena := by
  unfold report
  split <;> rfl

@[simp] theorem arena_checkCurrent : s.checkCurrent.arena = s.arena := by
  unfold checkCurrent
  split <;> simp

@[simp] theorem arena_start (tokens : List Token) (nodes : NodeCount) :
    (start tokens nodes).arena = [] := by
  unfold start
  split <;> simp

end ParseState

/-! ## Runs -/

/-- What a step may do besides succeeding. -/
structure Leeway where
  failed : ParseState → Prop
  spent : Prop

def ParseResult.Within {α : Type} (w : Leeway) (post : α → ParseState → Prop) :
    ParseResult α → Prop
  | .ok a s => post a s
  | .failed s => w.failed s
  | .spent => w.spent

namespace Parse

variable {α β : Type} {w : Leeway} {p : Parse α} {f : α → Parse β} {s s' : ParseState} {a : α}

/-- What the step leads to from a state. -/
def Ends (w : Leeway) (p : Parse α) (s : ParseState) (post : α → ParseState → Prop) : Prop :=
  (p s).Within w post

theorem ends_spent {post : α → ParseState → Prop} (h : w.spent) : (spent : Parse α).Ends w s post := h

namespace Ends

variable {P P' : α → ParseState → Prop} {Q : β → ParseState → Prop}

theorem pure (h : P a s) : (Pure.pure a : Parse α).Ends w s P := h

theorem bind (h : p.Ends w s P) (hf : ∀ a s', P a s' → (f a).Ends w s' Q) : (p >>= f).Ends w s Q := by
  change (Parse.bind p f s).Within w Q
  unfold Parse.bind
  unfold Ends at h
  cases hp : p s with
  | ok a s' =>
      rw [hp] at h
      exact hf a s' h
  | failed s' =>
      rw [hp] at h
      exact h
  | spent =>
      rw [hp] at h
      exact h

theorem of_eq (hp : p s = .ok a s') (h : P a s') : p.Ends w s P := by
  unfold Ends
  rw [hp]
  exact h

/-- A step whose outcome is known. -/
theorem next (hp : p s = .ok a s') (h : (f a).Ends w s' Q) : (p >>= f).Ends w s Q :=
  (of_eq (P := fun b t => b = a ∧ t = s') hp ⟨rfl, rfl⟩).bind fun _ _ hread => hread.1 ▸ hread.2 ▸ h

/-- Less is said of a run, and more is left open. -/
theorem weaken {w' : Leeway} (h : p.Ends w s P) (hP : ∀ a s', P a s' → P' a s')
    (hfailed : ∀ s', w.failed s' → w'.failed s') (hspent : w.spent → w'.spent) : p.Ends w' s P' := by
  unfold Ends at h ⊢
  cases hp : p s with
  | ok a s' =>
      rw [hp] at h
      exact hP a s' h
  | failed s' =>
      rw [hp] at h
      exact hfailed s' h
  | spent =>
      rw [hp] at h
      exact hspent h

theorem mono (h : p.Ends w s P) (hP : ∀ a s', P a s' → P' a s') : p.Ends w s P' :=
  h.weaken hP (fun _ => id) id

theorem of_ok (h : p.Ends w s P) (hp : p s = .ok a s') : P a s' := by
  unfold Ends at h
  rw [hp] at h
  exact h

theorem of_failed (h : p.Ends w s P) (hp : p s = .failed s') : w.failed s' := by
  unfold Ends at h
  rw [hp] at h
  exact h

/-- A step that is given up where it fails. -/
theorem attempt {P' : Option α → ParseState → Prop} (h : p.Ends ⟨P' none, w.spent⟩ s fun a => P' (some a)) :
    (Parse.attempt p).Ends w s P' := by
  unfold Ends Parse.attempt
  unfold Ends at h
  cases hp : p s with
  | ok a s' =>
      rw [hp] at h
      exact h
  | failed s' =>
      rw [hp] at h
      exact h
  | spent =>
      rw [hp] at h
      exact h

end Ends

end Parse

/-! ## Texts -/

/-- A run on a text, without the nodes. -/
theorem runParse_eq {α : Type} (parser : Nat → Parse α) (source : String) (file : FileId)
    (nodes : NodeCount) : runParse parser source file nodes =
      let start := ParseState.start (lex source file) nodes
      let diagnostics (s : ParseState) := s.errors.map fun e => e.1.diagnostic e.2
      match parser start.stepBound start with
      | .ok value s =>
        (if s.errors.isEmpty then .ok value else .error (.errors (diagnostics s)), s.nodes)
      | .failed s => (.error (.errors (diagnostics s)), s.nodes)
      | .spent => (.error .spent, nodes) := by
  have hstart : { ParseState.start (lex source file) nodes with arena := [] } =
      ParseState.start (lex source file) nodes := by
    rw [← ParseState.arena_start (lex source file) nodes]
  rw [runParse, Ast.parse]
  dsimp only
  rw [hstart]
  cases parser (ParseState.start (lex source file) nodes).stepBound
    (ParseState.start (lex source file) nodes) <;> rfl

end Stela
