import Stela.Proofs.Syntax.Accepting
import Stela.Proofs.Syntax.Consumption
import Stela.Proofs.Syntax.Finishing

/-!
# Loops of the parser

An iteration of a loop reads at least one token or leaves the loop. So a loop has
no more iterations than there are tokens, and the parser comes to an end on every
text. This is said at every bound; a step runs out of its bound only if that is
smaller than the bound that the parser starts with.
-/

namespace Stela

open ParseState

variable {α β : Type}

/-- The result of a loop, with items in front. -/
def ParseResult.prepend (items : List α) : ParseResult (List α) → ParseResult (List α)
  | .ok more s => .ok (items ++ more) s
  | .failed s => .failed s
  | .spent => .spent

namespace ParseState

/-- From the first state to the second tokens were read, and none of them is the end of the input. -/
def Consumes (s s' : ParseState) : Prop :=
  ∃ read, read ≠ [] ∧ s.rest = read ++ s'.rest ∧ ∀ token ∈ read, token.kind ≠ .eof

variable {tokens : List Token} {s s' : ParseState}

theorem Onward.endOnce (h : Onward tokens s s') : EndOnce s'.rest :=
  h.ends.of_suffix (h.rest.trans h.within) (List.cons_ne_nil _ _)

theorem Onward.consumes (h : Onward tokens s s') (hlt : s'.rest.length < s.rest.length) :
    s.Consumes s' := by
  obtain ⟨read, hread, hnone⟩ := h.exists_read
  refine ⟨read, ?_, hread, hnone⟩
  rintro rfl
  simp [hread] at hlt

theorem Onward.consumes_of_ne (h : Onward tokens s s') (hne : s'.rest ≠ s.rest) : s.Consumes s' :=
  h.consumes (Nat.lt_of_le_of_ne h.length_le fun heq => hne (h.rest.eq_of_length heq))

/-- In front of the end of the input a further token is one more than none. -/
theorem Onward.consumes_advance (h : Onward tokens s s') (hend : s.atEnd = false) :
    s.Consumes s'.advance := by
  cases hlast : s'.atEnd with
  | false => exact h.advance.consumes (Nat.lt_of_lt_of_le (h.length_advance hlast) h.length_le)
  | true =>
      refine h.advance.consumes_of_ne fun heq => ?_
      rw [rest_advance_of_atEnd hlast] at heq
      have hsame : s'.current = s.current := (List.cons.inj heq).1
      simp [atEnd, kind, hsame] at hend hlast
      exact hend hlast

theorem Consumes.length_lt (h : s.Consumes s') : s'.rest.length < s.rest.length := by
  obtain ⟨read, hne, hrest, -⟩ := h
  have hpos := List.length_pos_of_ne_nil hne
  rw [hrest, List.length_append]
  omega

theorem Consumes.endOnce (h : s.Consumes s') (hs : EndOnce s.rest) : EndOnce s'.rest := by
  obtain ⟨read, -, hrest, -⟩ := h
  exact hs.of_suffix ⟨read, hrest.symm⟩ (List.cons_ne_nil _ _)

theorem left_le_length_rest (s : ParseState) : s.left ≤ s.rest.length := by
  unfold left
  split
  · exact Nat.zero_le _
  · exact Nat.le_of_eq rfl

theorem stepBound_eq (s : ParseState) : s.stepBound = 8 * s.rest.length + 8 := by
  simp only [stepBound, rest, List.length_cons]
  omega

/-! ## Recovery -/

/-- At a token that starts no declaration the recovery goes on, behind at least one token. -/
theorem skipToDeclaration_turns (hs : EndOnce s.rest) :
    (∀ n, skipToDeclaration (n + 1) s = s) ∧ (s.atEnd = true ∨ startsDeclaration s.kind = true) ∨
      ∃ s', s.Consumes s' ∧ ∀ n, skipToDeclaration (n + 1) s = skipToDeclaration n s' := by
  cases hend : s.atEnd with
  | true => exact .inl ⟨fun n => by simp [skipToDeclaration, hend], .inl rfl⟩
  | false =>
      cases hstarts : startsDeclaration s.kind with
      | true => exact .inl ⟨fun n => by simp [skipToDeclaration, hstarts], .inr rfl⟩
      | false =>
          have hadvance := (onward_self hs).advance
          have hlt := (onward_self hs).length_advance hend
          right
          by_cases hbrace : s.kind = .lbrace
          · have hskip := hadvance.skipBlock s.ahead.length 1
            refine ⟨skipBlock s.ahead.length 1 s.advance, hskip.consumes ?_, fun n => ?_⟩
            · exact Nat.lt_of_le_of_lt ((hadvance.self).skipBlock s.ahead.length 1).length_le hlt
            · rw [skipToDeclaration, if_neg (by simp [hend, hstarts]), if_pos hbrace]
          · refine ⟨s.advance, hadvance.consumes hlt, fun n => ?_⟩
            simp [skipToDeclaration, hend, hstarts, hbrace]

/-- Inside a block the recovery goes on, behind one token. -/
theorem skipBlock_turns (hs : EndOnce s.rest) (depth : Nat) :
    (∀ n, skipBlock (n + 1) depth s = s) ∧ (s.atEnd = true ∨ depth = 0) ∨
      s.Consumes s.advance ∧
        ∃ depth', ∀ n, skipBlock (n + 1) depth s = skipBlock n depth' s.advance := by
  cases hend : s.atEnd with
  | true => exact .inl ⟨fun n => by simp [skipBlock, hend], .inl rfl⟩
  | false =>
      by_cases hdepth : depth = 0
      · exact .inl ⟨fun n => by simp [skipBlock, hdepth], .inr hdepth⟩
      · refine .inr ⟨(onward_self hs).advance.consumes ((onward_self hs).length_advance hend), ?_⟩
        have hon : ¬(s.atEnd || depth == 0) = true := by simp [hend, hdepth]
        exact ⟨_, fun n => (skipBlock.eq_2 depth s n).trans (if_neg hon)⟩

/-- The recovery ends where the input ends or a declaration can start. -/
theorem skipToDeclaration_stops (hs : EndOnce s.rest) (n : Nat) (hn : s.rest.length ≤ n) :
    (skipToDeclaration n s).atEnd = true ∨ startsDeclaration (skipToDeclaration n s).kind = true := by
  induction n generalizing s with
  | zero => simp [rest] at hn
  | succ n ih =>
      rcases skipToDeclaration_turns hs with ⟨hstay, hstop⟩ | ⟨s', hread, hnext⟩
      · rw [hstay]
        exact hstop
      · rw [hnext]
        exact ih (hread.endOnce hs) (by have := hread.length_lt; omega)

theorem synchronize_stops (hs : EndOnce s.rest) :
    s.synchronize.atEnd = true ∨ startsDeclaration s.synchronize.kind = true :=
  skipToDeclaration_stops (s := { s with recovering := false }) hs _ (Nat.le_refl _)

/-- Where no declaration can start the recovery passes a token. -/
theorem synchronize_consumes (hs : EndOnce s.rest) (hend : s.atEnd = false)
    (hstarts : startsDeclaration s.kind = false) : s.Consumes s.synchronize := by
  refine (onward_self hs).synchronize.consumes ?_
  rcases skipToDeclaration_turns (s := { s with recovering := false }) hs with
    ⟨-, hstop⟩ | ⟨s', hread, hnext⟩
  · rcases hstop with hstop | hstop
    · exact absurd (hend.symm.trans hstop) (by decide)
    · exact absurd (hstarts.symm.trans hstop) (by decide)
  · have hle := ((onward_self (hread.endOnce hs)).skipToDeclaration s.ahead.length).length_le
    rw [synchronize, hnext]
    exact Nat.lt_of_le_of_lt hle hread.length_lt

/-- A bound beyond the number of tokens that are left changes nothing. -/
theorem skipBlock_stops (hs : EndOnce s.rest) {n : Nat} (depth : Nat) (hn : s.rest.length ≤ n) :
    skipBlock n depth s = skipBlock s.rest.length depth s := by
  have more (n : Nat) (s : ParseState) (hs : EndOnce s.rest) (depth : Nat) (hn : s.rest.length ≤ n) :
      skipBlock (n + 1) depth s = skipBlock n depth s := by
    induction n generalizing s depth with
    | zero => simp [rest] at hn
    | succ n ih =>
        rcases skipBlock_turns hs depth with ⟨hstay, -⟩ | ⟨hread, depth', hnext⟩
        · rw [hstay, hstay]
        · have hlt := hread.length_lt
          rw [hnext, hnext, ih _ (hread.endOnce hs) depth' (by omega)]
  induction n, hn using Nat.le_induction with
  | base => rfl
  | succ n hn ih => rw [more n s hs depth hn, ih]

end ParseState

namespace Parse

/-! ## One iteration -/

/-- How an iteration of a loop ends. The loop is a function of the iterations it may have; `short`
allows the iteration to run out of the bound of what it reads. -/
inductive Turns (short : Prop) (loop : Nat → Parse (List α)) (s : ParseState) : Prop
  | again (items : List α) (s' : ParseState) (read : s.Consumes s')
      (rest : ∀ n, loop (n + 1) s = (loop n s').prepend items)
  | out (result : ParseResult (List α)) (spent : result = .spent → short)
      (rest : ∀ n, loop (n + 1) s = result)

theorem bind_apply (p : Parse α) (f : α → Parse β) (s : ParseState) :
    (p >>= f) s = match p s with
      | .ok a s => f a s
      | .failed s => .failed s
      | .spent => .spent := rfl

theorem prepend_apply (items : List α) (p : Parse (List α)) (s : ParseState) :
    (p >>= fun more => pure (items ++ more)) s = (p s).prepend items := by
  rw [bind_apply]
  cases p s <;> rfl

theorem prepend_nil (result : ParseResult (List α)) : result.prepend [] = result := by
  cases result <;> rfl

theorem prepend_ne_spent {result : ParseResult (List α)} {items : List α} (h : result ≠ .spent) :
    result.prepend items ≠ .spent := by
  cases result with
  | spent => exact absurd rfl h
  | _ => simp [ParseResult.prepend]

theorem commaList_succ (close : TokenKind) (item : Parse α) (n : Nat) (s : ParseState) :
    commaList close item (n + 1) s =
      if s.kind == close then .ok [] s
      else match item s with
        | .ok first s₁ =>
          if s₁.kind == .comma then (commaList close item n s₁.advance).prepend [first]
          else .ok [first] s₁
        | .failed s₁ => .failed s₁
        | .spent => .spent := by
  rw [commaList, bind_apply]
  dsimp only [check]
  split
  · rfl
  · rw [bind_apply]
    cases item s with
    | ok first s₁ =>
        dsimp only
        rw [bind_apply, accept, bind_apply]
        dsimp only [check]
        cases s₁.kind == .comma with
        | true => exact prepend_apply [first] (commaList close item n) s₁.advance
        | false => rfl
    | failed s₁ => rfl
    | spent => rfl

theorem stmts_succ (stmt : Parse Stmt) (n : Nat) (s : ParseState) :
    stmts stmt (n + 1) s =
      if s.kind == .rbrace || s.atEnd then .ok [] s
      else match stmt s with
        | .ok first s₁ => (stmts stmt n s₁).prepend [first]
        | .failed s₁ =>
          stmts stmt n (if s₁.current.span.start == s.current.span.start then s₁.advance else s₁)
        | .spent => .spent := by
  rw [stmts, bind_apply]
  dsimp only [state]
  split
  · rfl
  · rw [bind_apply, attempt]
    cases stmt s with
    | ok first s₁ => exact prepend_apply [first] (stmts stmt n) s₁
    | failed s₁ =>
        dsimp only
        rw [bind_apply]
        dsimp only [currentSpan]
        split <;> rfl
    | spent => rfl

theorem members_succ (bound n : Nat) (s : ParseState) :
    members bound (n + 1) s =
      if s.kind == .rbrace || s.atEnd then .ok [] s
      else match member bound s with
        | .ok first s₁ => (members bound n s₁).prepend [first]
        | .failed s₁ => .failed s₁
        | .spent => .spent := by
  rw [members, bind_apply]
  dsimp only [state]
  split
  · rfl
  · rw [bind_apply]
    cases member bound s with
    | ok first s₁ => exact prepend_apply [first] (members bound n) s₁
    | failed s₁ => rfl
    | spent => rfl

theorem imports_succ (n : Nat) (s : ParseState) :
    imports (n + 1) s =
      if s.kind == .kwImport then
        match importDecl s with
        | .ok first s₁ => (imports n s₁).prepend [first]
        | .failed s₁ => imports n s₁
        | .spent => .spent
      else .ok [] s := by
  rw [imports, bind_apply]
  dsimp only [check]
  split
  · rw [bind_apply, attempt]
    cases importDecl s with
    | ok first s₁ => exact prepend_apply [first] (imports n) s₁
    | failed s₁ => exact (prepend_apply [] (imports n) s₁).trans (prepend_nil _)
    | spent => rfl
  · rfl

theorem declarations_succ (bound n : Nat) (s : ParseState) :
    declarations bound (n + 1) s =
      if s.atEnd then .ok [] s
      else match declaration bound s with
        | .ok first s₁ =>
          if s₁.recovering then declarations bound n s₁.synchronize
          else (declarations bound n s₁).prepend [first]
        | .failed s₁ => declarations bound n s₁.synchronize
        | .spent => .spent := by
  rw [declarations, bind_apply]
  dsimp only [state]
  split
  · rfl
  · rw [bind_apply, attempt]
    cases declaration bound s with
    | ok first s₁ =>
        dsimp only
        rw [bind_apply]
        dsimp only [state]
        split
        · rfl
        · exact prepend_apply [first] (declarations bound n) s₁
    | failed s₁ =>
        dsimp only
        rw [bind_apply]
        dsimp only [state]
        split <;> rfl
    | spent => rfl

/-! ## Bounds -/

/-- With at most `m` tokens left, the end of the input among them, the step does not run out of its
bound. -/
def Lasts (p : Parse α) (m : Nat) : Prop :=
  ∀ s, EndOnce s.rest → s.rest.length ≤ m → p s ≠ .spent

section Lasts

variable {p : Parse α} {f : α → Parse β} {m bound : Nat}

theorem lasts_of_total (h : ∀ s, p s ≠ .spent) : Lasts p m := fun s _ _ => h s

theorem Finishes.lasts (h : Finishes p m) : Lasts p m := by
  intro s _ hm hspent
  have hends := h s (Nat.le_trans (left_le_length_rest s) hm)
  unfold Ends at hends
  rw [hspent] at hends
  exact hends

theorem Lasts.bind (hp : Lasts p m) (hwalks : Walks p) (hf : ∀ a, Lasts (f a) m) :
    Lasts (p >>= f) m := by
  intro s hs hm
  rw [bind_apply]
  cases hrun : p s with
  | ok a s₁ =>
      have honward : Onward s.rest s s₁ := (hwalks s.rest s s (onward_self hs)).of_ok hrun
      exact hf a s₁ honward.endOnce (Nat.le_trans honward.length_le hm)
  | failed s₁ => exact nofun
  | spent => exact absurd hrun (hp s hs hm)

/-- A step that looks at the state only, in front of another one. -/
theorem Lasts.look (hp : ∀ s, ∃ a, p s = .ok a s) (hf : ∀ a, Lasts (f a) m) : Lasts (p >>= f) m := by
  refine Lasts.bind (lasts_of_total fun s => ?_) (walks_look hp) hf
  obtain ⟨a, ha⟩ := hp s
  simp [ha]

theorem Lasts.attempt (hp : Lasts p m) : Lasts (attempt p) m := by
  intro s hs hm
  unfold Parse.attempt
  cases hrun : p s with
  | ok a s₁ => exact nofun
  | failed s₁ => exact nofun
  | spent => exact absurd hrun (hp s hs hm)

theorem lasts_pure (a : α) : Lasts (pure a : Parse α) m := lasts_of_total fun _ => nofun

theorem lasts_failHere (error : TokenKind → SyntaxError) : Lasts (failHere error : Parse α) m :=
  lasts_of_total fun _ => nofun

theorem lasts_advance : Lasts advance m := lasts_of_total fun _ => nofun

theorem lasts_newDecl (entry : α → Decl) (make : Node → α) (span : Span) : Lasts (newDecl entry make span) m :=
  lasts_of_total fun _ => nofun

theorem lasts_expect (kind : TokenKind) : Lasts (expect kind) m :=
  .look (fun _ => ⟨_, rfl⟩) fun found => by
    split
    · exact lasts_advance
    · exact lasts_failHere _

theorem lasts_accept (kind : TokenKind) : Lasts (accept kind) m :=
  .look (fun _ => ⟨_, rfl⟩) fun found => by
    split
    · exact lasts_advance.bind walks_advance fun _ => lasts_pure _
    · exact lasts_pure _

theorem lasts_ident : Lasts ident m := finishes_ident.lasts

/-- A step behind some that were read, and the place of a node. -/
theorem lasts_finish (entry : α → Decl) (make : Node → α) (first : Span) :
    Lasts (do newDecl entry make (first.merge (← previousSpan))) m :=
  .look (fun _ => ⟨_, rfl⟩) fun _ => lasts_newDecl _ _ _

/-- A loop has as many iterations as there are tokens at most. -/
theorem lasts_loop {loop : Nat → Parse (List α)} {n : Nat}
    (h : ∀ s, EndOnce s.rest → s.rest.length ≤ m → Turns False loop s) (hn : m ≤ n) :
    Lasts (loop n) m := by
  have ends (n : Nat) (s : ParseState) (hs : EndOnce s.rest) (hm : s.rest.length ≤ m)
      (hn : s.rest.length ≤ n) : loop n s ≠ .spent := by
    induction n generalizing s with
    | zero => simp [ParseState.rest] at hn
    | succ n ih =>
        cases h s hs hm with
        | again items s' hread hnext =>
            have hlt := hread.length_lt
            have hrest := ih s' (hread.endOnce hs) (by omega) (by omega)
            rw [hnext]
            exact prepend_ne_spent hrest
        | out result hspent hleaves =>
            rw [hleaves]
            exact hspent
  exact fun s hs hm => ends n s hs hm (Nat.le_trans hm hn)

end Lasts

/-! ## Progress -/

variable {short : Prop} {s s' : ParseState} {item : Parse α}

/-- An iteration that leaves out what it read. -/
theorem Turns.skip {loop : Nat → Parse (List α)} (hread : s.Consumes s')
    (h : ∀ n, loop (n + 1) s = loop n s') : Turns short loop s :=
  .again [] s' hread fun n => (h n).trans (prepend_nil _).symm

theorem ProgressesAt.consumes {a : α} (hp : ProgressesAt item s) (hs : EndOnce s.rest)
    (hok : item s = .ok a s') : Onward s.rest s s' ∧ s.Consumes s' := by
  obtain ⟨honward, hlt⟩ := (hp s.rest (onward_self hs)).of_ok hok
  exact ⟨honward, honward.consumes hlt⟩

theorem turns_commaList (hp : ProgressesAt item s) (hs : EndOnce s.rest)
    (hitem : item s = .spent → short) (close : TokenKind) : Turns short (commaList close item) s := by
  cases hclose : s.kind == close with
  | true => exact .out (.ok [] s) (nomatch ·) fun n => by rw [commaList_succ, if_pos hclose]
  | false =>
      have hne : ¬(s.kind == close) = true := by simp [hclose]
      cases hrun : item s with
      | ok first s₁ =>
          obtain ⟨honward, hread⟩ := hp.consumes hs hrun
          cases hcomma : s₁.kind == .comma with
          | true =>
              have hlt := honward.self.advance.length_le
              refine .again [first] s₁.advance (honward.advance.consumes ?_) fun n => ?_
              · exact Nat.lt_of_le_of_lt hlt hread.length_lt
              · simp [commaList_succ, hne, hrun, hcomma]
          | false =>
              exact .out (.ok [first] s₁) (nomatch ·) fun n => by simp [commaList_succ, hne, hrun, hcomma]
      | failed s₁ => exact .out (.failed s₁) (nomatch ·) fun n => by simp [commaList_succ, hne, hrun]
      | spent => exact .out .spent (fun _ => hitem hrun) fun n => by simp [commaList_succ, hne, hrun]

theorem turns_stmts {stmt : Parse Stmt} (hp : Progresses stmt) (hs : EndOnce s.rest)
    (hspent : stmt s = .spent → short) : Turns short (stmts stmt) s := by
  cases hclose : s.kind == .rbrace || s.atEnd with
  | true => exact .out (.ok [] s) (nomatch ·) fun n => by rw [stmts_succ, if_pos hclose]
  | false =>
      have hne : ¬(s.kind == .rbrace || s.atEnd) = true := by simp [hclose]
      have hend : s.atEnd = false := by simp_all
      cases hrun : stmt s with
      | ok first s₁ =>
          obtain ⟨-, hread⟩ := (hp s).consumes hs hrun
          exact .again [first] s₁ hread fun n => by rw [stmts_succ, if_neg hne, hrun]
      | failed s₁ =>
          have honward : Onward s.rest s s₁ := (hp s s.rest (onward_self hs)).of_failed hrun
          cases hmoved : s₁.current.span.start == s.current.span.start with
          | true =>
              refine .skip (honward.consumes_advance hend) fun n => ?_
              simp [stmts_succ, hne, hrun, hmoved]
          | false =>
              refine .skip (honward.consumes_of_ne fun heq => ?_) fun n => ?_
              · have hsame : s₁.current = s.current := (List.cons.inj heq).1
                simp [hsame] at hmoved
              · simp [stmts_succ, hne, hrun, hmoved]
      | spent => exact .out .spent (fun _ => hspent hrun) fun n => by rw [stmts_succ, if_neg hne, hrun]

theorem turns_members {bound : Nat} (hs : EndOnce s.rest) (hspent : member bound s = .spent → short) :
    Turns short (members bound) s := by
  cases hclose : s.kind == .rbrace || s.atEnd with
  | true => exact .out (.ok [] s) (nomatch ·) fun n => by rw [members_succ, if_pos hclose]
  | false =>
      have hne : ¬(s.kind == .rbrace || s.atEnd) = true := by simp [hclose]
      cases hrun : member bound s with
      | ok first s₁ =>
          obtain ⟨-, hread⟩ := (progresses_member bound s).consumes hs hrun
          exact .again [first] s₁ hread fun n => by rw [members_succ, if_neg hne, hrun]
      | failed s₁ => exact .out (.failed s₁) (nomatch ·) fun n => by rw [members_succ, if_neg hne, hrun]
      | spent => exact .out .spent (fun _ => hspent hrun) fun n => by rw [members_succ, if_neg hne, hrun]

theorem lasts_importDecl {m : Nat} : Lasts importDecl m :=
  (lasts_expect _).bind (walks_expect _) fun _ => lasts_ident.bind walks_ident fun _ =>
    (lasts_expect _).bind (walks_expect _) fun _ => lasts_pure _

theorem turns_imports (hs : EndOnce s.rest) : Turns False imports s := by
  cases himport : s.kind == .kwImport with
  | false => exact .out (.ok [] s) (nomatch ·) fun n => by simp [imports_succ, himport]
  | true =>
      have hkind : s.kind = .kwImport := by simpa using himport
      have hends := starts_importDecl.commits s hkind s.rest (onward_self hs)
      cases hrun : importDecl s with
      | ok first s₁ =>
          have hread := hends.of_ok hrun
          exact .again [first] s₁ (hread.1.consumes hread.2) fun n => by
            rw [imports_succ, if_pos himport, hrun]
      | failed s₁ =>
          have hread := hends.of_failed hrun
          exact .skip (hread.1.consumes hread.2) fun n => by rw [imports_succ, if_pos himport, hrun]
      | spent => exact absurd hrun (lasts_importDecl s hs (Nat.le_refl _))

/-- A declaration that fails without reading anything starts with no keyword of a declaration, so
the recovery passes its first token. -/
theorem turns_declarations {bound : Nat} (hs : EndOnce s.rest)
    (hspent : declaration bound s = .spent → short) : Turns short (declarations bound) s := by
  cases hend : s.atEnd with
  | true => exact .out (.ok [] s) (nomatch ·) fun n => by rw [declarations_succ, if_pos hend]
  | false =>
      have hne : ¬s.atEnd = true := by simp [hend]
      have hself := onward_self hs
      cases hrun : declaration bound s with
      | ok first s₁ =>
          obtain ⟨honward, hread⟩ := (progresses_declaration bound s).consumes hs hrun
          cases hrecovering : s₁.recovering with
          | true =>
              have hle := honward.self.synchronize.length_le
              refine .skip (honward.synchronize.consumes ?_) fun n => ?_
              · exact Nat.lt_of_le_of_lt hle hread.length_lt
              · simp [declarations_succ, hne, hrun, hrecovering]
          | false =>
              exact .again [first] s₁ hread fun n => by
                simp [declarations_succ, hne, hrun, hrecovering]
      | failed s₁ =>
          have hunrolled (n : Nat) : declarations bound (n + 1) s = declarations bound n s₁.synchronize := by
            rw [declarations_succ, if_neg hne, hrun]
          cases hstarts : startsDeclaration s.kind with
          | true =>
              obtain ⟨honward, hlt⟩ := (commits_declaration bound hstarts s.rest hself).of_failed hrun
              have hle := honward.self.synchronize.length_le
              exact .skip (honward.synchronize.consumes (Nat.lt_of_le_of_lt hle hlt)) hunrolled
          | false =>
              obtain ⟨error, rfl⟩ := (declaration_fails bound hstarts).of_failed hrun
              have hrest : (s.report error s.current.span).rest = s.rest := by simp [ParseState.rest]
              have hread := synchronize_consumes (s := s.report error s.current.span)
                (hrest ▸ hs) (by simpa [atEnd, ParseState.kind] using hend)
                (by simpa [ParseState.kind] using hstarts)
              refine .skip ?_ hunrolled
              rw [Consumes, hrest] at hread
              exact hread
      | spent =>
          exact .out .spent (fun _ => hspent hrun) fun n => by rw [declarations_succ, if_neg hne, hrun]

/-! ## Declarations and modules -/

section Bounds

variable {m bound : Nat} (hbound : 8 * m + 8 ≤ bound)

include hbound

theorem lasts_funcDecl (funcKind : FuncKind) (access : Access) :
    Lasts (funcDecl (body bound) bound funcKind access) m :=
  (finishes_funcDecl ((finishesAt bound).body (by omega)) (by omega) funcKind access).lasts

theorem lasts_member : Lasts (member bound) m := by
  have func (funcKind : FuncKind) (access : Access) : Lasts (do
      let decl ← funcDecl (body bound) bound funcKind access
      return (.func decl : Member)) m :=
    (lasts_funcDecl hbound _ _).bind (starts_funcDecl (progresses_body bound) bound _ _).walks
      fun _ => lasts_pure _
  have field (access : Access) : Lasts (fieldDecl bound access) m :=
    .look (fun _ => ⟨_, rfl⟩) fun _ => lasts_ident.bind walks_ident fun _ =>
      (lasts_expect _).bind (walks_expect _) fun _ =>
        (finishes_typeExpr (by omega)).lasts.bind (walks_typeExpr bound) fun _ =>
          (lasts_expect _).bind (walks_expect _) fun _ => .look (fun _ => ⟨_, rfl⟩) fun _ => lasts_pure _
  refine (lasts_accept _).bind (walks_accept _) fun isPrivate => .look (fun _ => ⟨_, rfl⟩) fun kind => ?_
  split
  · exact lasts_advance.bind walks_advance fun _ => func _ _
  · exact func _ _
  · exact (field _).bind (progresses_fieldDecl bound _).walks fun _ => lasts_pure _
  · refine .look (fun _ => ⟨_, rfl⟩) fun method => ?_
    split
    · exact lasts_advance.bind walks_advance fun _ => func _ _
    · exact lasts_failHere _
  · exact lasts_failHere _

theorem lasts_structDecl : Lasts (structDecl bound) m := by
  have members : Lasts (members bound bound) m :=
    lasts_loop (fun s hs hm => turns_members hs (lasts_member hbound s hs hm)) (by omega)
  exact lasts_advance.bind walks_advance fun _ => lasts_ident.bind walks_ident fun _ =>
    (lasts_expect _).bind (walks_expect _) fun _ => members.bind (walks_members bound bound) fun _ =>
      (lasts_expect _).bind (walks_expect _) fun _ => lasts_finish _ _ _

omit hbound in
theorem lasts_enumCase : Lasts enumCase m := by
  refine lasts_ident.bind walks_ident fun name => (lasts_accept _).bind (walks_accept _) fun valued => ?_
  split
  · refine (lasts_accept _).bind (walks_accept _) fun negative =>
      (lasts_expect _).bind (walks_expect _) fun token => ?_
    refine lasts_of_total fun s => ?_
    rw [bind_apply]
    cases Literal.enumValue token.text negative with
    | ok value => exact nofun
    | error error => exact nofun
  · exact lasts_pure _

theorem lasts_enumDecl : Lasts (enumDecl bound) m := by
  have cases : Lasts (commaList .rbrace enumCase bound) m :=
    lasts_loop (fun s hs hm => turns_commaList (progresses_enumCase s) hs (lasts_enumCase s hs hm) _)
      (by omega)
  exact lasts_advance.bind walks_advance fun _ => lasts_ident.bind walks_ident fun _ =>
    (lasts_expect _).bind (walks_expect _) fun _ =>
      cases.bind (walks_commaList progresses_enumCase.walks _ bound) fun _ =>
        (lasts_expect _).bind (walks_expect _) fun _ => lasts_finish _ _ _

theorem lasts_aliasDecl : Lasts (aliasDecl bound) m :=
  lasts_advance.bind walks_advance fun _ => lasts_ident.bind walks_ident fun _ =>
    (lasts_accept _).bind (walks_accept _) fun _ =>
      (finishes_typeExpr (by omega)).lasts.bind (walks_typeExpr bound) fun _ =>
        (lasts_expect _).bind (walks_expect _) fun _ => lasts_finish _ _ _

theorem lasts_declaration : Lasts (declaration bound) m := by
  have func : Lasts (do
      let decl ← funcDecl (body bound) bound .free .everyone
      return (.func decl : Decl)) m :=
    (lasts_funcDecl hbound _ _).bind (starts_funcDecl (progresses_body bound) bound _ _).walks
      fun _ => lasts_pure _
  have declared : Lasts (do
      let first ← currentSpan
      let global ← binding (expr .lowest bound) bound
      newDecl id (fun node => Decl.global node global) (first.merge (← previousSpan))) m := by
    refine .look (fun _ => ⟨_, rfl⟩) fun first => Lasts.bind ?_ ?_ fun global => lasts_finish _ _ _
    · exact (finishes_binding ((finishesAt bound).expr .lowest m (by omega)) (by omega)).lasts
    · exact walks_binding ((walksAt bound).expr .lowest).walks bound
  refine .look (fun _ => ⟨_, rfl⟩) fun kind => ?_
  split
  · exact func
  · refine lasts_advance.bind walks_advance fun _ => .look (fun _ => ⟨_, rfl⟩) fun found => ?_
    split
    · exact func
    · exact lasts_failHere _
  · exact lasts_structDecl hbound
  · exact lasts_enumDecl hbound
  · exact lasts_aliasDecl hbound
  · exact declared
  · exact declared
  · exact lasts_failHere _
  · exact lasts_failHere _

omit hbound in
theorem lasts_header : Lasts header m := by
  refine (lasts_accept _).bind (walks_accept _) fun found => ?_
  split
  · exact (lasts_ident.attempt).bind (walks_attempt walks_ident) fun name =>
      (lasts_expect _).attempt.bind (walks_attempt (walks_expect _)) fun _ =>
        .look (fun _ => ⟨_, rfl⟩) fun _ => lasts_pure _
  · exact lasts_pure _

theorem lasts_moduleDecl (file : FileId) (defaultName : String) :
    Lasts (moduleDecl file defaultName bound) m := by
  have imports : Lasts (imports bound) m := lasts_loop (fun s hs _ => turns_imports hs) (by omega)
  have declarations : Lasts (declarations bound bound) m :=
    lasts_loop (fun s hs hm => turns_declarations hs (lasts_declaration hbound s hs hm)) (by omega)
  exact lasts_header.bind walks_header fun _ => imports.bind (walks_imports bound) fun _ =>
    declarations.bind (walks_declarations bound bound) fun _ => lasts_pure _

theorem lasts_wholeType : Lasts (wholeType bound) m := by
  refine (finishes_typeExpr (by omega)).lasts.attempt.bind (walks_attempt (walks_typeExpr bound))
    fun type => .look (fun _ => ⟨_, rfl⟩) fun s => ?_
  have unread {f : Option Unit → Parse TypeExpr} (hf : ∀ found, Lasts (f found) m) :
      Lasts (attempt (failHere (.expected "end of type") : Parse Unit) >>= f) m :=
    (lasts_failHere _).attempt.bind (walks_attempt (walks_failHere _)) hf
  have failed : Lasts (fail : Parse TypeExpr) m := lasts_of_total fun _ => nofun
  cases type with
  | none =>
      dsimp only
      split
      · exact unread fun _ => failed
      · exact failed
  | some type =>
      dsimp only
      split
      · exact unread fun _ => lasts_pure _
      · exact lasts_pure _

end Bounds

/-! ## The parser -/

/-- Every loop of the parser, in this state and with this bound on a descent. Only a bound below the
one the parser starts with can be too small. -/
structure LoopsTurn (bound : Nat) (s : ParseState) : Prop where
  declarations : Turns (bound < s.stepBound) (Parse.declarations bound) s
  imports : Turns False Parse.imports s
  members : Turns (bound < s.stepBound) (Parse.members bound) s
  stmts : Turns (bound < s.stepBound) (Parse.stmts (stmt bound)) s
  params : Turns (bound < s.stepBound) (commaList .rparen (param bound)) s
  args : Turns (bound < s.stepBound) (commaList .rparen (expr .lowest bound)) s
  elements : Turns (bound < s.stepBound) (commaList .rbracket (expr .lowest bound)) s
  enumCases : Turns False (commaList .rbrace enumCase) s
  typeParams : Turns (bound < s.stepBound) (commaList .rparen (do
    let byRef ← accept .kwRef
    let type ← typeExpr bound
    return (⟨if byRef then .reference else .value, type⟩ : TypeParam))) s
  recovery :
    (∀ n, skipToDeclaration (n + 1) s = s) ∧ (s.atEnd = true ∨ startsDeclaration s.kind = true) ∨
      ∃ s', s.Consumes s' ∧ ∀ n, skipToDeclaration (n + 1) s = skipToDeclaration n s'
  skippedBlock : ∀ depth,
    (∀ n, skipBlock (n + 1) depth s = s) ∧ (s.atEnd = true ∨ depth = 0) ∨
      s.Consumes s.advance ∧
        ∃ depth', ∀ n, skipBlock (n + 1) depth s = skipBlock n depth' s.advance

theorem loopsTurn (bound : Nat) {s : ParseState} (hs : EndOnce s.rest) : LoopsTurn bound s := by
  -- A step that lasts at the bound the parser starts with is short of its bound below that only.
  have short {α : Type} {p : Parse α}
      (h : 8 * s.rest.length + 8 ≤ bound → Lasts p s.rest.length) (hspent : p s = .spent) :
      bound < s.stepBound := by
    rw [stepBound_eq]
    by_contra hlarge
    exact h (by omega) s hs (Nat.le_refl _) hspent
  have finishes := finishesAt bound
  have walks := walksAt bound
  have arg := short fun h => (finishes.expr .lowest _ (by omega)).lasts
  exact {
    declarations := turns_declarations hs (short lasts_declaration)
    imports := turns_imports hs
    members := turns_members hs (short lasts_member)
    stmts := turns_stmts walks.stmt hs (short fun h => (finishes.stmt _ (by omega)).lasts)
    params := turns_commaList (progresses_param bound s) hs
      (short fun h => (finishes_param (by omega)).lasts) _
    args := turns_commaList (walks.expr _ s) hs arg _
    elements := turns_commaList (walks.expr _ s) hs arg _
    enumCases := turns_commaList (progresses_enumCase s) hs (lasts_enumCase s hs (Nat.le_refl _)) _
    typeParams := turns_commaList (progresses_typeParam (progresses_typeExpr bound) s) hs
      (short fun h => (finishes_typeParam (finishes_typeExpr (by omega))).lasts) _
    recovery := skipToDeclaration_turns hs
    skippedBlock := skipBlock_turns hs }

theorem Production.walks {p : Parse α} (h : Production p) : Walks p := by
  induction h with
  | expect kind => exact walks_expect kind
  | ident => exact walks_ident
  | typeExpr bound => exact walks_typeExpr bound
  | param bound => exact (progresses_param bound).walks
  | signature bound => exact (progresses_signature bound).walks
  | expr level bound => exact ((walksAt bound).expr level).walks
  | exprRest level left bound => exact (walksAt bound).exprRest level left
  | operand bound => exact (walksAt bound).operand.walks
  | primary bound => exact (walksAt bound).primary.walks
  | exprOrAssign bound => exact (progresses_exprOrAssign ((walksAt bound).expr .lowest)).walks
  | binding bound =>
      exact walks_binding ((walksAt bound).expr .lowest).walks bound
  | stmt bound => exact (walksAt bound).stmt.walks
  | ifElse bound => exact (walksAt bound).ifElse.walks
  | stmts bound n => exact walks_stmts (walksAt bound).stmt.walks n
  | body bound => exact (progresses_body bound).walks
  | requiredBody bound => exact (progresses_requiredBody (progresses_body bound)).walks
  | funcDecl bound kind access => exact (starts_funcDecl (progresses_body bound) bound kind access).walks
  | fieldDecl bound access => exact (progresses_fieldDecl bound access).walks
  | member bound => exact (progresses_member bound).walks
  | members bound n => exact walks_members bound n
  | structDecl bound => exact (starts_structDecl bound).walks
  | enumCase => exact progresses_enumCase.walks
  | enumDecl bound => exact (starts_enumDecl bound).walks
  | aliasDecl bound => exact (starts_aliasDecl bound).walks
  | declaration bound => exact (progresses_declaration bound).walks
  | declarations bound n => exact walks_declarations bound n
  | header => exact walks_header
  | importDecl => exact starts_importDecl.walks
  | imports n => exact walks_imports n
  | moduleDecl file defaultName bound => exact walks_moduleDecl file defaultName bound
  | wholeType bound => exact walks_wholeType bound
  | commaList close bound _ ih => exact walks_commaList ih close bound
  | optionalAfter mark _ ih => exact walks_optionalAfter ih mark

end Parse

/-- The tokens that were taken between two states, none of them the end of the input. -/
def ParseState.Takes (s s' : ParseState) : Prop :=
  (∃ read, s.rest = read ++ s'.rest ∧ ∀ token ∈ read, token.kind ≠ .eof) ∧ EndOnce s'.rest

theorem ParseState.Onward.takes {tokens : List Token} {s s' : ParseState} (h : Onward tokens s s') :
    s.Takes s' :=
  ⟨h.exists_read, h.endOnce⟩

theorem endOnce_start_lex (source : String) (file : FileId) (nodes : NodeCount) :
    EndOnce (ParseState.start (lex source file) nodes).rest := by
  obtain ⟨written, last, htokens, hlast, hwritten⟩ := lex_eq_append source file
  rw [rest_start (by simp [htokens])]
  exact ⟨written, last, htokens, hlast, hwritten⟩

theorem runParse_ne_spent {parser : Nat → Parse α} (source : String) (file : FileId)
    (nodes : NodeCount) (h : ∀ m bound, 8 * m + 8 ≤ bound → Parse.Lasts (parser bound) m) :
    (runParse parser source file nodes).1 ≠ .error .spent := by
  let s := ParseState.start (lex source file) nodes
  have hlasts : parser s.stepBound s ≠ .spent :=
    h s.rest.length s.stepBound (Nat.le_of_eq (stepBound_eq s).symm) s
      (endOnce_start_lex source file nodes) (Nat.le_refl _)
  rw [runParse_eq]
  dsimp only
  split
  · split <;> exact nofun
  · exact nofun
  · next hspent => exact absurd hspent hlasts

/-- The parser ends on every text, because every iteration of its loops reads a token or leaves the
loop, and the end of the input is never taken. -/
theorem parsing_terminates :
    (∀ source file defaultName nodes,
      (parseModule source file defaultName nodes).1 ≠ .error .spent) ∧
    (∀ source file nodes, (parseType source file nodes).1 ≠ .error .spent) ∧
    (∀ source file nodes, EndOnce (ParseState.start (lex source file) nodes).rest) ∧
    (∀ s : ParseState, EndOnce s.rest → (∀ bound, Parse.LoopsTurn bound s) ∧
      (∀ n depth, s.rest.length ≤ n → skipBlock n depth s = skipBlock s.rest.length depth s) ∧
      (s.synchronize.atEnd = true ∨ startsDeclaration s.synchronize.kind = true) ∧
      s.Takes s.advance ∧ s.Takes s.synchronize) ∧
    ∀ (α : Type) (p : Parse α), Parse.Production p → ∀ s : ParseState, EndOnce s.rest →
      p.Ends ⟨s.Takes, True⟩ s fun _ => s.Takes := by
  refine ⟨fun source file defaultName nodes => ?_, fun source file nodes => ?_, endOnce_start_lex,
    fun s hs => ?_, fun α p hp s hs => ?_⟩
  · exact runParse_ne_spent source file nodes fun _ _ h => Parse.lasts_moduleDecl h file defaultName
  · exact runParse_ne_spent source file nodes fun _ _ h => Parse.lasts_wholeType h
  · have hself := onward_self hs
    exact ⟨fun bound => Parse.loopsTurn bound hs, fun n depth => skipBlock_stops hs depth,
      synchronize_stops hs, hself.advance.takes, hself.synchronize.takes⟩
  · exact (hp.walks s.rest s s (onward_self hs)).weaken (fun _ _ => Onward.takes)
      (fun _ => Onward.takes) id

theorem parsing_terminates_unclosed :
    (parseModule "func f( [ let" 0 "main" {}).1 ≠ .error .spent ∧
    (parseType "func(ref" 0 {}).1 ≠ .error .spent ∧
    Parse.LoopsTurn 0 (.start (lex "func f( [ let" 0) {}) ∧
    (Parse.declaration 100).Ends
      ⟨(ParseState.start (lex "func f( [ let" 0) {}).Takes, True⟩ (.start (lex "func f( [ let" 0) {})
      fun _ => (ParseState.start (lex "func f( [ let" 0) {}).Takes := by
  obtain ⟨hmodule, htype, hstart, hloops, hproductions⟩ := parsing_terminates
  have hs := hstart "func f( [ let" 0 {}
  exact ⟨hmodule _ _ _ _, htype _ _ _, (hloops _ hs).1 0,
    hproductions Decl (Parse.declaration 100) (.declaration 100) _ hs⟩

end Stela
