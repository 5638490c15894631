import Stela.Proofs.Syntax.Keys
import Stela.Proofs.Syntax.Outcomes

/-!
# Numbers of nodes

The parser numbers a node when it is complete. So the nodes of one kind that a
step reads are different from each other and numbered from where the count stood
before the step up to where it stands after it, also if the step fails.
-/

namespace Stela

open NodeKey

/-- The numbers are different and lie between two values of the count. -/
structure Numbered (first next : Nat) (ids : List Nat) : Prop where
  le : first ≤ next
  distinct : ids.Nodup
  bounds : ∀ id ∈ ids, first ≤ id ∧ id < next

namespace Numbered

variable {first next first' next' : Nat} {ids ids' : List Nat}

theorem nil (h : first ≤ next) : Numbered first next [] := ⟨h, List.nodup_nil, by simp⟩

/-- What is read later has greater numbers. -/
theorem append (h : Numbered first next ids) (h' : Numbered first' next' ids')
    (hle : next ≤ first') : Numbered first next' (ids ++ ids') := by
  refine ⟨?_, List.nodup_append'.mpr ⟨h.distinct, h'.distinct, fun id hid hid' => ?_⟩, fun id hid => ?_⟩
  · have := h.le
    have := h'.le
    omega
  · have := h.bounds id hid
    have := h'.bounds id hid'
    omega
  · have := h.le
    have := h'.le
    rcases List.mem_append.mp hid with hid | hid
    · have := h.bounds id hid
      omega
    · have := h'.bounds id hid
      omega

theorem perm (h : Numbered first next ids) (hperm : ids.Perm ids') : Numbered first next ids' :=
  ⟨h.le, hperm.nodup_iff.mp h.distinct, fun id hid => h.bounds id (hperm.mem_iff.mpr hid)⟩

theorem widen (h : Numbered first next ids) (hfirst : first' ≤ first) (hnext : next ≤ next') :
    Numbered first' next' ids := by
  refine ⟨?_, h.distinct, fun id hid => ?_⟩
  · have := h.le
    omega
  · have := h.bounds id hid
    omega

/-- What was read first is numbered by itself. -/
theorem of_append (h : Numbered first next (ids ++ ids')) : Numbered first next ids :=
  ⟨h.le, h.distinct.of_append_left, fun id hid => h.bounds id (List.mem_append_left _ hid)⟩

/-- The next number is given to a node around what was read. -/
theorem push {k : NodeKind} {keys : List NodeKey} {count : NodeCount}
    (h : Numbered first next (NodeKey.ids k keys)) (hle : next ≤ count.of k) (other : NodeKind) :
    Numbered first (count.of k + if other = k then 1 else 0)
      (NodeKey.ids k (keys ++ [.node other (count.of other)])) := by
  rw [ids_append, ids_node]
  by_cases hother : other = k
  · subst hother
    rw [if_pos rfl, if_pos rfl]
    exact h.append ⟨Nat.le_succ _, List.nodup_singleton _, by simp⟩ hle
  · rw [if_neg hother, if_neg hother, List.append_nil]
    exact h.widen (Nat.le_refl _) hle

end Numbered

/-- A step that stood at a count counts on, and what it reads is as `post` says. -/
def ParseResult.Counts {α : Type} (k : NodeKind) (count : Nat) (post : α → ParseState → Prop) :
    ParseResult α → Prop
  | .ok a s => count ≤ s.nodes.of k ∧ post a s
  | .failed s => count ≤ s.nodes.of k
  | .spent => True

namespace Parse

variable {α β : Type} {p : Parse α} {f : α → Parse β} {s : ParseState} {k : NodeKind}

/-! ## Steps and their counts -/

def Counts (k : NodeKind) (p : Parse α) (s : ParseState) (post : α → ParseState → Prop) : Prop :=
  (p s).Counts k (s.nodes.of k) post

/-- A step that completes no node of a kind. -/
def Silent (k : NodeKind) (p : Parse α) : Prop :=
  ∀ s, p.Counts k s fun _ s' => s'.nodes.of k = s.nodes.of k

/-- A step that completes the nodes of a kind that are among the given keys. -/
def Numbers (k : NodeKind) (p : Parse α) (keys : α → List NodeKey) : Prop :=
  ∀ s, p.Counts k s fun a s' => Numbered (s.nodes.of k) (s'.nodes.of k) (ids k (keys a))

namespace Counts

variable {P : α → ParseState → Prop} {Q : β → ParseState → Prop}

theorem pure {a : α} (h : P a s) : (Pure.pure a : Parse α).Counts k s P := ⟨Nat.le_refl _, h⟩

theorem bind (h : p.Counts k s P)
    (hf : ∀ a s', s.nodes.of k ≤ s'.nodes.of k → P a s' → (f a).Counts k s' Q) :
    (p >>= f).Counts k s Q := by
  have heq : (p >>= f) s = match p s with
      | .ok a s' => f a s'
      | .failed s' => .failed s'
      | .spent => .spent := rfl
  unfold Counts at h ⊢
  rw [heq]
  cases hp : p s with
  | spent => trivial
  | failed s' =>
      rw [hp] at h
      exact h
  | ok a s' =>
      rw [hp] at h
      have hq := hf a s' h.1 h.2
      unfold Counts at hq
      show (f a s').Counts k (s.nodes.of k) Q
      cases hfa : f a s' with
      | spent => trivial
      | failed s'' =>
          rw [hfa] at hq
          exact Nat.le_trans h.1 hq
      | ok b s'' =>
          rw [hfa] at hq
          exact ⟨Nat.le_trans h.1 hq.1, hq.2⟩

/-- A value that is at hand is what the next step gets. -/
theorem pure_bind {a : α} (h : (f a).Counts k s Q) :
    ((Pure.pure a : Parse α) >>= f).Counts k s Q := h

theorem mono {P' : α → ParseState → Prop} (h : p.Counts k s P) (hP : ∀ a s', P a s' → P' a s') :
    p.Counts k s P' := by
  unfold Counts at h ⊢
  cases hp : p s with
  | spent => trivial
  | failed s' =>
      rw [hp] at h
      exact h
  | ok a s' =>
      rw [hp] at h
      exact ⟨h.1, hP a s' h.2⟩

end Counts

/-! ## Steps that complete no node -/

@[simp] theorem nodes_report (s : ParseState) (error : SyntaxError) (span : Span) :
    (s.report error span).nodes = s.nodes := by
  unfold ParseState.report
  split <;> rfl

@[simp] theorem nodes_checkCurrent (s : ParseState) : s.checkCurrent.nodes = s.nodes := by
  unfold ParseState.checkCurrent
  split <;> simp

@[simp] theorem nodes_advance (s : ParseState) : s.advance.nodes = s.nodes := by
  unfold ParseState.advance
  split
  · rfl
  · split <;> simp

/-- A step that reads off the state, and moves it without counting. -/
theorem silent_of_nodes (h : ∀ s, ∃ a s', p s = .ok a s' ∧ s'.nodes = s.nodes) : Silent k p := by
  intro s
  obtain ⟨a, s', heq, hnodes⟩ := h s
  unfold Counts
  rw [heq, ← hnodes]
  exact ⟨Nat.le_refl _, rfl⟩

theorem silent_pure (a : α) : Silent k (Pure.pure a : Parse α) := fun _ => .pure rfl

theorem Silent.bind (h : Silent k p) (hf : ∀ a, Silent k (f a)) : Silent k (p >>= f) :=
  fun s => (h s).bind fun a s' _ hs' => (hf a s').mono fun _ _ hs'' => hs''.trans hs'

theorem silent_state : Silent k state := silent_of_nodes fun _ => ⟨_, _, rfl, rfl⟩

theorem silent_kind : Silent k kind := silent_of_nodes fun _ => ⟨_, _, rfl, rfl⟩

theorem silent_check (kind : TokenKind) : Silent k (check kind) :=
  silent_of_nodes fun _ => ⟨_, _, rfl, rfl⟩

theorem silent_checkNext (kind : TokenKind) : Silent k (checkNext kind) :=
  silent_of_nodes fun _ => ⟨_, _, rfl, rfl⟩

theorem silent_currentSpan : Silent k currentSpan := silent_of_nodes fun _ => ⟨_, _, rfl, rfl⟩

theorem silent_previousSpan : Silent k previousSpan := silent_of_nodes fun _ => ⟨_, _, rfl, rfl⟩

theorem silent_advance : Silent k advance := silent_of_nodes fun _ => ⟨_, _, rfl, by simp⟩

theorem counts_failAt (error : SyntaxError) (span : Span) (post : α → ParseState → Prop) :
    (failAt error span : Parse α).Counts k s post := by
  show s.nodes.of k ≤ (s.report error span).nodes.of k
  simp

theorem counts_failHere (error : TokenKind → SyntaxError) (post : α → ParseState → Prop) :
    (failHere error : Parse α).Counts k s post := by
  show s.nodes.of k ≤ (s.report (error s.kind) s.current.span).nodes.of k
  simp

theorem silent_expect (kind : TokenKind) : Silent k (expect kind) := by
  refine (silent_check kind).bind fun found => ?_
  split
  · exact silent_advance
  · exact fun _ => counts_failHere _ _

theorem silent_accept (kind : TokenKind) : Silent k (accept kind) := by
  refine (silent_check kind).bind fun found => ?_
  split
  · exact silent_advance.bind fun _ => silent_pure true
  · exact silent_pure false

theorem silent_ident : Silent k ident := by
  refine (silent_check .ident).bind fun found => ?_
  split
  · exact silent_advance.bind fun _ => silent_pure _
  · exact fun _ => counts_failHere _ _

theorem silent_literal (value : Except SyntaxError α) (span : Span) : Silent k (literal value span) := by
  intro s
  unfold literal
  split
  · exact .pure rfl
  · exact counts_failAt _ _ _

/-! ## Steps that complete a node -/

/-- A step that makes a node of some kind, which gets the next number of that kind. -/
def Completes (other : NodeKind) (p : Parse α) (make : Node → α) (span : Span) : Prop :=
  ∀ s : ParseState, ∃ s', p s = .ok (make ⟨s.nodes.of other, span⟩) s' ∧
    ∀ k, s'.nodes.of k = s.nodes.of k + if other = k then 1 else 0

theorem completes_newExpr (make : Node → Expr) (span : Span) :
    Completes .expr (newExpr make span) make span :=
  fun _ => ⟨_, rfl, fun k => by cases k <;> rfl⟩

theorem completes_newStmt (make : Node → Stmt) (span : Span) :
    Completes .stmt (newStmt make span) make span :=
  fun _ => ⟨_, rfl, fun k => by cases k <;> rfl⟩

theorem completes_newDecl (entry : α → Decl) (make : Node → α) (span : Span) :
    Completes .decl (newDecl entry make span) make span :=
  fun _ => ⟨_, rfl, fun k => by cases k <;> rfl⟩

theorem completes_newType (make : Node → TypeExpr) (span : Span) :
    Completes .type (newType make span) make span :=
  fun _ => ⟨_, rfl, fun k => by cases k <;> rfl⟩

namespace Completes

variable {other : NodeKind} {make : Node → α} {span : Span} {first : Nat}
  {keysOf : α → List NodeKey}

/-- The node gets a key of its own. -/
theorem numbers (h : Completes other p make span) (keys : List NodeKey)
    (hkeys : Numbered first (s.nodes.of k) (ids k keys))
    (hmake : ∀ node : Node, (keys ++ [NodeKey.node other node.id]).Perm (keysOf (make node))) :
    p.Counts k s fun a s' => Numbered first (s'.nodes.of k) (ids k (keysOf a)) := by
  obtain ⟨s', heq, hnodes⟩ := h s
  unfold Counts
  rw [heq]
  refine ⟨(hnodes k).symm ▸ Nat.le_add_right _ _, ?_⟩
  show Numbered first (s'.nodes.of k) _
  rw [hnodes k]
  exact (hkeys.push (Nat.le_refl _) other).perm ((hmake ⟨_, span⟩).filterMap _)

/-- The node has no key of its own. -/
theorem numbersParts (h : Completes other p make span) (keys : List NodeKey)
    (hkeys : Numbered first (s.nodes.of k) (ids k keys)) (hmake : ∀ node, keys = keysOf (make node)) :
    p.Counts k s fun a s' => Numbered first (s'.nodes.of k) (ids k (keysOf a)) := by
  obtain ⟨s', heq, hnodes⟩ := h s
  unfold Counts
  rw [heq]
  refine ⟨(hnodes k).symm ▸ Nat.le_add_right _ _, ?_⟩
  show Numbered first (s'.nodes.of k) _
  rw [hnodes k, ← hmake]
  exact hkeys.widen (Nat.le_refl _) (Nat.le_add_right _ _)

end Completes

/-! ## Lists and options -/

/-- The items of a list are numbered one after the other. -/
theorem numbers_commaList {item : Parse α} {keys : α → List NodeKey} (close : TokenKind)
    (hitem : Numbers k item keys) (bound : Nat) :
    Numbers k (commaList close item bound) fun items => items.flatMap keys := by
  induction bound with
  | zero => exact fun _ => trivial
  | succ bound ih =>
      intro s
      refine (silent_check close s).bind fun closed s₁ _ h₁ => ?_
      split
      · exact .pure (.nil (Nat.le_of_eq h₁.symm))
      · refine (hitem s₁).bind fun first s₂ _ hfirst => ?_
        refine (silent_accept .comma s₂).bind fun more s₃ _ h₃ => ?_
        split
        · refine (ih s₃).bind fun rest s₄ _ hrest => .pure ?_
          have hall := (hfirst.append hrest (Nat.le_of_eq h₃.symm)).widen (Nat.le_of_eq h₁.symm)
            (Nat.le_refl _)
          simpa using hall
        · have hwide := hfirst.widen (Nat.le_of_eq h₁.symm) (Nat.le_of_eq h₃.symm)
          exact .pure (by simpa using hwide)

theorem numbers_optionalAfter {item : Parse α} {keys : α → List NodeKey} (mark : TokenKind)
    (hitem : Numbers k item keys) :
    Numbers k (optionalAfter mark item) fun value => value.toList.flatMap keys := by
  intro s
  refine (silent_accept mark s).bind fun marked s₁ _ h₁ => ?_
  split
  · refine (hitem s₁).bind fun value s₂ _ hvalue => ?_
    have hwide := hvalue.widen (Nat.le_of_eq h₁.symm) (Nat.le_refl _)
    exact .pure (by simpa using hwide)
  · exact .pure (.nil (Nat.le_of_eq h₁.symm))

theorem Silent.numbers (h : Silent k p) : Numbers k p fun _ => [] :=
  fun s => (h s).mono fun _ _ hs' => .nil (Nat.le_of_eq hs'.symm)

/-- A step that reads no nodes completes none. -/
theorem Silent.commaList {item : Parse α} (hitem : Silent k item) (close : TokenKind) (bound : Nat) :
    Silent k (commaList close item bound) := by
  induction bound with
  | zero => exact fun _ => trivial
  | succ bound ih =>
      refine (silent_check close).bind fun closed => ?_
      split
      · exact silent_pure _
      · refine hitem.bind fun first => (silent_accept .comma).bind fun more => ?_
        split
        · exact ih.bind fun rest => silent_pure _
        · exact silent_pure _

/-! ## Types -/

theorem numbers_typeParam {bound : Nat} (h : Numbers k (typeExpr bound) TypeExpr.keys) :
    Numbers k (do
      let byRef ← accept .kwRef
      let type ← typeExpr bound
      return (⟨if byRef then .reference else .value, type⟩ : TypeParam))
      fun param => param.type.keys := by
  intro s
  refine (silent_accept _ s).bind fun byRef s₁ _ h₁ => (h s₁).bind fun type s₂ _ htype => .pure ?_
  exact htype.widen (Nat.le_of_eq h₁.symm) (Nat.le_refl _)

theorem numbers_typeExpr (bound : Nat) : Numbers k (typeExpr bound) TypeExpr.keys := by
  induction bound with
  | zero => exact fun _ => trivial
  | succ bound ih =>
      intro s
      refine (silent_currentSpan s).bind fun first s₁ _ h₁ => ?_
      refine (silent_kind s₁).bind fun kind s₂ _ h₂ => ?_
      have finish {make : Node → TypeExpr} {s₃ : ParseState} (keys : List NodeKey)
          (hkeys : Numbered (s.nodes.of k) (s₃.nodes.of k) (ids k keys))
          (hmake : ∀ node, keys ++ [NodeKey.node .type node.id] = (make node).keys) : Counts k (do
          let make ← (Pure.pure make : Parse (Node → TypeExpr))
          newType make (first.merge (← previousSpan))) s₃ fun type s' =>
            Numbered (s.nodes.of k) (s'.nodes.of k) (ids k type.keys) := by
        refine .pure_bind <| (silent_previousSpan s₃).bind fun last s₄ _ h₄ => ?_
        exact (completes_newType make _).numbers keys (hkeys.widen (Nat.le_refl _) (by omega))
          fun node => .of_eq (hmake node)
      dsimp only
      split
      · refine (silent_ident s₂).bind fun name s₃ _ h₃ => (silent_accept .dot s₃).bind fun qualified s₄ _ h₄ => ?_
        split
        · exact (silent_ident s₄).bind fun inner s₅ _ h₅ =>
            finish [] (.nil (by omega)) fun _ => rfl
        · exact finish [] (.nil (by omega)) fun _ => rfl
      · refine (silent_advance s₂).bind fun _ s₃ _ h₃ => (ih s₃).bind fun element s₄ _ helement => ?_
        refine (silent_expect _ s₄).bind fun _ s₅ _ h₅ => ?_
        exact finish _ (helement.widen (by omega) (by omega)) fun _ => by rw [TypeExpr.keys]
      · refine (silent_advance s₂).bind fun _ s₃ _ h₃ => (silent_expect _ s₃).bind fun _ s₄ _ h₄ => ?_
        refine (numbers_commaList _ (numbers_typeParam ih) bound s₄).bind fun params s₅ _ hparams => ?_
        refine (silent_expect _ s₅).bind fun _ s₆ _ h₆ => ?_
        refine (numbers_optionalAfter .arrow ih s₆).bind fun ret s₇ _ hret => ?_
        refine finish ((params.flatMap fun param => param.type.keys) ++
          ret.toList.flatMap TypeExpr.keys) ?_ fun node => ?_
        · rw [ids_append]
          exact (hparams.append hret (by omega)).widen (by omega) (Nat.le_refl _)
        · rw [TypeExpr.keys, TypeParam.listKeys_eq, TypeExpr.optionKeys_eq]
      · exact Counts.bind (counts_failHere _ fun _ _ => False) fun _ _ _ h => h.elim

theorem numbers_param (bound : Nat) :
    Numbers k (param bound) fun param => param.type.keys := by
  intro s
  refine (silent_currentSpan s).bind fun first s₁ _ h₁ => (silent_accept _ s₁).bind fun byRef s₂ _ h₂ => ?_
  have finish (mode : Mutability × RefKind) {s₃ : ParseState}
      (h₃ : s.nodes.of k ≤ s₃.nodes.of k) : Counts k (do
      let mode ← (Pure.pure mode : Parse (Mutability × RefKind))
      let name ← ident
      let _ ← expect .colon
      let type ← typeExpr bound
      return (⟨name, mode.1, mode.2, type, first.merge (← previousSpan)⟩ : Param)) s₃ fun param s' =>
        Numbered (s.nodes.of k) (s'.nodes.of k) (ids k param.type.keys) := by
    refine .pure_bind <| (silent_ident s₃).bind fun name s₄ _ h₄ => ?_
    refine (silent_expect _ s₄).bind fun _ s₅ _ h₅ => ?_
    refine (numbers_typeExpr bound s₅).bind fun type s₆ _ htype => ?_
    exact (silent_previousSpan s₆).bind fun last s₇ _ h₇ => .pure (htype.widen (by omega) (by omega))
  dsimp only
  split
  · exact finish _ (by omega)
  · refine (silent_accept _ s₂).bind fun isVar s₃ _ h₃ => ?_
    split <;> exact finish _ (by omega)

/-- The types of a signature are read in order; its parameters have no numbers of their own. -/
theorem numbers_signature (bound : Nat) : Numbers k (signature bound) Signature.typeKeys := by
  intro s
  refine (silent_expect _ s).bind fun _ s₁ _ h₁ => ?_
  refine (numbers_commaList _ (numbers_param bound) bound s₁).bind fun params s₂ _ hparams => ?_
  refine (silent_expect _ s₂).bind fun _ s₃ _ h₃ => ?_
  refine (numbers_optionalAfter .arrow (numbers_typeExpr bound) s₃).bind fun ret s₄ _ hret => .pure ?_
  rw [Signature.typeKeys, ids_append, TypeExpr.optionKeys_eq]
  exact (hparams.append hret (by omega)).widen (by omega) (Nat.le_refl _)

/-! ## Expressions, statements and declarations -/

/-- A variable declaration numbers its type and its initializer. -/
theorem numbers_binding {e : Parse Expr} (he : Numbers k e Expr.keys) (bound : Nat) :
    Numbers k (binding e bound) Binding.keys := by
  intro s
  refine (silent_advance s).bind fun token s₁ _ h₁ => ?_
  refine (silent_ident s₁).bind fun name s₂ _ h₂ => ?_
  refine (numbers_optionalAfter .colon (numbers_typeExpr bound) s₂).bind fun type s₃ _ htype => ?_
  refine (numbers_optionalAfter .eq he s₃).bind fun init s₄ _ hinit => ?_
  split
  · exact counts_failAt _ _ _
  · refine (silent_expect _ s₄).bind fun _ s₅ _ h₅ => .pure ?_
    rw [Binding.keys_eq, ids_append, TypeExpr.optionKeys_eq, Expr.optionKeys_eq]
    exact (htype.append hinit (Nat.le_refl _)).widen (by omega) (by omega)

/-- What is read of a step that fails is left out. -/
theorem numbers_attempt {keys : α → List NodeKey} (h : Numbers k p keys) :
    Numbers k (attempt p) fun value => value.toList.flatMap keys := by
  intro s
  have hp := h s
  unfold Counts attempt at *
  cases heq : p s with
  | spent => trivial
  | failed s' =>
      rw [heq] at hp
      exact ⟨hp, .nil hp⟩
  | ok a s' =>
      rw [heq] at hp
      exact ⟨hp.1, by simpa using hp.2⟩

/-- Statements up to a closing brace. -/
theorem numbers_stmts {stmt : Parse Stmt} (hstmt : Numbers k stmt Stmt.keys) (bound : Nat) :
    Numbers k (stmts stmt bound) Stmt.listKeys := by
  induction bound with
  | zero => exact fun _ => trivial
  | succ bound ih =>
      intro s
      refine (silent_state s).bind fun start s₁ _ h₁ => ?_
      split
      · exact .pure (.nil (Nat.le_of_eq h₁.symm))
      · refine (numbers_attempt hstmt s₁).bind fun first s₂ _ hfirst => ?_
        split
        · refine (ih s₂).bind fun rest s₃ _ hrest => .pure ?_
          have hall := (hfirst.append hrest (Nat.le_refl _)).widen (Nat.le_of_eq h₁.symm) (Nat.le_refl _)
          simpa [Stmt.listKeys] using hall
        · refine (silent_currentSpan s₂).bind fun span s₃ _ h₃ => ?_
          split
          · refine (silent_advance s₃).bind fun _ s₄ _ h₄ => (ih s₄).mono fun rest s₅ hrest => ?_
            exact hrest.widen (by omega) (Nat.le_refl _)
          · exact (ih s₃).mono fun rest s₄ hrest => hrest.widen (by omega) (Nat.le_refl _)

theorem numbers_block {stmt : Parse Stmt} (hstmt : Numbers k stmt Stmt.keys) (bound : Nat) :
    Numbers k (block stmt bound) Stmt.listKeys := by
  intro s
  refine (silent_expect _ s).bind fun _ s₁ _ h₁ => ?_
  refine (numbers_stmts hstmt bound s₁).bind fun body s₂ _ hbody => ?_
  refine (silent_expect _ s₂).bind fun _ s₃ _ h₃ => .pure ?_
  exact hbody.widen (by omega) (by omega)

theorem numbers_requiredBody {block : Parse (List Stmt)} {keys : List Stmt → List NodeKey}
    (hblock : Numbers k block keys) : Numbers k (requiredBody block) keys := by
  intro s
  refine (silent_check _ s).bind fun found s₁ _ h₁ => ?_
  split
  · exact (hblock s₁).mono fun body s₂ hbody => hbody.widen (by omega) (Nat.le_refl _)
  · exact counts_failHere _ _

theorem numbers_funcDecl {block : Parse (List Stmt)} (hblock : Numbers k block Stmt.listKeys)
    (bound : Nat) (funcKind : FuncKind) (access : Access) :
    Numbers k (funcDecl block bound funcKind access) FuncDecl.keys := by
  intro s
  refine (silent_state s).bind fun start s₁ _ h₁ => ?_
  refine (silent_expect _ s₁).bind fun _ s₂ _ h₂ => ?_
  refine (silent_ident s₂).bind fun name s₃ _ h₃ => ?_
  refine (numbers_signature bound s₃).bind fun sig s₄ _ hsig => ?_
  have finish (body : Option (List Stmt)) (span : Span) {s₅ : ParseState}
      (hbody : Numbered (s₄.nodes.of k) (s₅.nodes.of k) (ids k (Stmt.optionKeys body))) : Counts k (do
      let body ← (Pure.pure body : Parse (Option (List Stmt)))
      newDecl .func (fun node => FuncDecl.mk node name sig body funcKind access)
        (span.merge (← previousSpan))) s₅ fun decl s' =>
      Numbered (s.nodes.of k) (s'.nodes.of k) (ids k decl.keys) := by
    refine .pure_bind <| (silent_previousSpan s₅).bind fun last s₆ _ h₆ => ?_
    refine (completes_newDecl _ _ _).numbers (sig.typeKeys ++ (sig.paramKeys ++
      Stmt.optionKeys body)) ?_ fun node => .of_eq (by rw [FuncDecl.keys])
    rw [ids_append, ids_append, Signature.ids_paramKeys, List.nil_append]
    exact (hsig.append hbody (Nat.le_refl _)).widen (by omega) (by omega)
  dsimp only
  split
  · refine (silent_expect _ s₄).bind fun _ s₅ _ h₅ => finish none _ (.nil (Nat.le_of_eq h₅.symm))
  · exact (numbers_requiredBody hblock s₄).bind fun body s₅ _ hbody => finish (some body) _ hbody

/-- The statement that an expression or an assignment becomes, whatever node it gets. -/
theorem numbers_exprOrAssign {e : Parse Expr} (he : Numbers k e Expr.keys) :
    ∀ s, (exprOrAssign e).Counts k s fun make s' => ∃ keys, (∀ node, keys = (make node).keys) ∧
      Numbered (s.nodes.of k) (s'.nodes.of k) (ids k keys) := by
  intro s
  refine (he s).bind fun target s₁ _ htarget => ?_
  refine (silent_accept _ s₁).bind fun isPlain s₂ _ h₂ => ?_
  have finish {make : Node → Stmt} {s₃ : ParseState} (keys : List NodeKey)
      (hmake : ∀ node, keys = (make node).keys)
      (hkeys : Numbered (s.nodes.of k) (s₃.nodes.of k) (ids k keys)) : Counts k (do
      let make ← (Pure.pure make : Parse (Node → Stmt))
      let _ ← expect .semi
      return make) s₃ fun make s' => ∃ keys, (∀ node, keys = (make node).keys) ∧
        Numbered (s.nodes.of k) (s'.nodes.of k) (ids k keys) :=
    .pure_bind <| (silent_expect _ s₃).bind fun _ s₄ hle _ =>
      .pure ⟨keys, hmake, hkeys.widen (Nat.le_refl _) hle⟩
  have assign (op : Option BinOp) {s₃ : ParseState} (h₃ : s₁.nodes.of k ≤ s₃.nodes.of k) : Counts k (do
      let value ← e
      let make ← (Pure.pure fun node => Stmt.assign node target op value : Parse (Node → Stmt))
      let _ ← expect .semi
      return make) s₃ fun make s' => ∃ keys, (∀ node, keys = (make node).keys) ∧
        Numbered (s.nodes.of k) (s'.nodes.of k) (ids k keys) := by
    refine (he s₃).bind fun value s₄ _ hvalue => finish (target.keys ++ value.keys)
      (fun node => by rw [Stmt.keys]) ?_
    rw [ids_append]
    exact htarget.append hvalue h₃
  dsimp only
  split
  · exact assign none (by omega)
  · refine (silent_kind s₂).bind fun kind s₃ _ h₃ => ?_
    split
    · exact (silent_advance s₃).bind fun _ s₄ _ h₄ => assign _ (by omega)
    · exact finish _ (fun node => by rw [Stmt.keys]) (htarget.widen (Nat.le_refl _) (by omega))

/-- What the steps that descend into expressions and statements number, down to a bound. -/
structure NumbersAt (k : NodeKind) (bound : Nat) : Prop where
  expr : ∀ level, Numbers k (expr level bound) Expr.keys
  /-- An expression that goes on after `left` keeps the numbers of `left`. -/
  exprRest : ∀ level left s first, Numbered first (s.nodes.of k) (ids k left.keys) →
    (exprRest level left bound).Counts k s fun e s' => Numbered first (s'.nodes.of k) (ids k e.keys)
  operand : Numbers k (operand bound) Expr.keys
  primary : Numbers k (primary bound) Expr.keys
  stmt : Numbers k (stmt bound) Stmt.keys
  ifElse : Numbers k (ifElse bound) Stmt.keys

namespace NumbersAt

variable {bound : Nat} (h : NumbersAt k bound)

include h

theorem exprRest_succ (level : Precedence) (left : Expr) (s : ParseState) (first : Nat)
    (hleft : Numbered first (s.nodes.of k) (ids k left.keys)) :
    (Parse.exprRest level left (bound + 1)).Counts k s fun e s' =>
      Numbered first (s'.nodes.of k) (ids k e.keys) := by
  rw [Parse.exprRest]
  refine (silent_kind s).bind fun kind s₁ _ h₁ => ?_
  have hleft : Numbered first (s₁.nodes.of k) (ids k left.keys) := h₁ ▸ hleft
  have finish {make : Node → Expr} {span : Span} {s₂ : ParseState} (keys : List NodeKey)
      (hkeys : Numbered first (s₂.nodes.of k) (ids k keys))
      (hmake : ∀ node, (keys ++ [NodeKey.node .expr node.id]).Perm (make node).keys) : Counts k (do
      let longer ← newExpr make span
      Parse.exprRest level longer bound) s₂ fun e s' =>
        Numbered first (s'.nodes.of k) (ids k e.keys) :=
    ((completes_newExpr make span).numbers keys hkeys hmake).bind fun longer s₃ _ hlonger =>
      h.exprRest level longer s₃ first hlonger
  split
  · exact .pure hleft
  · next continuation _ =>
    split
    · exact .pure hleft
    · refine (silent_advance s₁).bind fun _ s₂ _ h₂ => ?_
      dsimp only
      split
      · -- A call lists its arguments before the callee, which was read first.
        refine (numbers_commaList _ (h.expr .lowest) bound s₂).bind fun args s₃ _ hargs => ?_
        refine (silent_expect _ s₃).bind fun _ s₄ _ h₄ => ?_
        refine (silent_previousSpan s₄).bind fun last s₅ _ h₅ => ?_
        refine finish (left.keys ++ args.flatMap Expr.keys) ?_ fun node => ?_
        · rw [ids_append]
          exact (hleft.append hargs (by omega)).widen (Nat.le_refl _) (by omega)
        · rw [Expr.keys, Expr.listKeys_eq]
          exact List.perm_append_comm.append_right _
      · refine (h.expr .lowest s₂).bind fun index s₃ _ hindex => ?_
        refine (silent_expect _ s₃).bind fun _ s₄ _ h₄ => ?_
        refine (silent_previousSpan s₄).bind fun last s₅ _ h₅ => ?_
        refine finish (left.keys ++ index.keys) ?_ fun node => .of_eq (by rw [Expr.keys])
        rw [ids_append]
        exact (hleft.append hindex (by omega)).widen (Nat.le_refl _) (by omega)
      · refine (silent_ident s₂).bind fun name s₃ _ h₃ => ?_
        exact finish left.keys (hleft.widen (Nat.le_refl _) (by omega)) fun node =>
          .of_eq (by rw [Expr.keys])
      · refine (h.expr .lowest s₂).bind fun onTrue s₃ _ hOnTrue => ?_
        refine (silent_expect _ s₃).bind fun _ s₄ _ h₄ => ?_
        refine (h.expr .lowest s₄).bind fun onFalse s₅ _ hOnFalse => ?_
        refine finish (left.keys ++ onTrue.keys ++ onFalse.keys) ?_ fun node =>
          .of_eq (by rw [Expr.keys])
        rw [ids_append, ids_append]
        exact (hleft.append hOnTrue (by omega)).append hOnFalse (by omega)
      · refine (h.expr _ s₂).bind fun right s₃ _ hright => ?_
        refine finish (left.keys ++ right.keys) ?_ fun node => .of_eq (by rw [Expr.keys])
        rw [ids_append]
        exact hleft.append hright (by omega)

theorem expr_succ (level : Precedence) : Numbers k (Parse.expr level (bound + 1)) Expr.keys := by
  intro s
  rw [Parse.expr]
  exact (h.operand s).bind fun left s₁ _ hleft => h.exprRest level left s₁ _ hleft

theorem operand_succ : Numbers k (Parse.operand (bound + 1)) Expr.keys := by
  intro s
  rw [Parse.operand]
  refine (silent_kind s).bind fun kind s₁ _ h₁ => ?_
  split
  · refine (silent_advance s₁).bind fun first s₂ _ h₂ => ?_
    refine (h.expr .unary s₂).bind fun inner s₃ _ hinner => ?_
    exact (completes_newExpr _ _).numbers _ (hinner.widen (by omega) (Nat.le_refl _)) fun node =>
      .of_eq (by rw [Expr.keys])
  · exact (h.primary s₁).mono fun e s₂ he => he.widen (by omega) (Nat.le_refl _)

/-- The statements in a body, one level down. -/
theorem body : Numbers k (block (Parse.stmt bound) bound) Stmt.listKeys :=
  numbers_block h.stmt bound

theorem primary_succ : Numbers k (Parse.primary (bound + 1)) Expr.keys := by
  intro s
  rw [Parse.primary]
  refine (silent_state s).bind fun start s₁ _ h₁ => ?_
  have finish {make : Node → Expr} {first : Span} {s₂ : ParseState} (keys : List NodeKey)
      (hkeys : Numbered (s.nodes.of k) (s₂.nodes.of k) (ids k keys))
      (hmake : ∀ node, keys ++ [NodeKey.node .expr node.id] = (make node).keys) : Counts k (do
      newExpr make (first.merge (← previousSpan))) s₂ fun e s' =>
        Numbered (s.nodes.of k) (s'.nodes.of k) (ids k e.keys) :=
    (silent_previousSpan s₂).bind fun last s₃ _ h₃ => (completes_newExpr make _).numbers keys
      (hkeys.widen (Nat.le_refl _) (Nat.le_of_eq h₃.symm)) fun node => .of_eq (hmake node)
  have leaf {make : Node → Expr} {first : Span} {s₂ : ParseState}
      (h₂ : s₂.nodes.of k = s₁.nodes.of k)
      (hmake : ∀ node, [NodeKey.node .expr node.id] = (make node).keys) :
      Counts k (do newExpr make (first.merge (← previousSpan))) s₂ fun e s' =>
        Numbered (s.nodes.of k) (s'.nodes.of k) (ids k e.keys) :=
    finish [] (.nil (by omega)) hmake
  dsimp only
  split
  · refine (silent_advance s₁).bind fun _ s₂ _ h₂ => ?_
    exact (silent_literal _ _ s₂).bind fun value s₃ _ h₃ => leaf (by omega) fun _ => rfl
  · exact (silent_advance s₁).bind fun _ s₂ _ h₂ => leaf h₂ fun _ => rfl
  · refine (silent_advance s₁).bind fun _ s₂ _ h₂ => ?_
    exact (silent_literal _ _ s₂).bind fun value s₃ _ h₃ => leaf (by omega) fun _ => rfl
  · refine (silent_advance s₁).bind fun _ s₂ _ h₂ => ?_
    exact (silent_literal _ _ s₂).bind fun value s₃ _ h₃ => leaf (by omega) fun _ => rfl
  · exact (silent_advance s₁).bind fun _ s₂ _ h₂ => leaf h₂ fun _ => rfl
  · exact (silent_advance s₁).bind fun _ s₂ _ h₂ => leaf h₂ fun _ => rfl
  · exact (silent_ident s₁).bind fun name s₂ _ h₂ => leaf h₂ fun _ => rfl
  · exact (silent_advance s₁).bind fun _ s₂ _ h₂ => leaf h₂ fun _ => rfl
  · refine (silent_advance s₁).bind fun _ s₂ _ h₂ => ?_
    refine (h.expr .lowest s₂).bind fun inner s₃ _ hinner => ?_
    exact (silent_expect _ s₃).bind fun _ s₄ _ h₄ => .pure (hinner.widen (by omega) (by omega))
  · refine (silent_advance s₁).bind fun _ s₂ _ h₂ => ?_
    refine (numbers_commaList _ (h.expr .lowest) bound s₂).bind fun elements s₃ _ helements => ?_
    refine (silent_expect _ s₃).bind fun _ s₄ _ h₄ => ?_
    refine finish _ (helements.widen (by omega) (by omega)) fun node => ?_
    rw [Expr.keys, Expr.listKeys_eq]
  · refine (silent_advance s₁).bind fun _ s₂ _ h₂ => ?_
    refine (numbers_signature bound s₂).bind fun sig s₃ _ hsig => ?_
    refine (numbers_requiredBody h.body s₃).bind fun body s₄ _ hbody => ?_
    refine finish (sig.typeKeys ++ sig.paramKeys ++ Stmt.listKeys body) ?_ fun node =>
      by rw [Expr.keys]
    rw [ids_append, ids_append, Signature.ids_paramKeys, List.append_nil]
    exact (hsig.append hbody (Nat.le_refl _)).widen (by omega) (Nat.le_refl _)
  · exact counts_failHere _ _

theorem ifElse_succ : Numbers k (Parse.ifElse (bound + 1)) Stmt.keys := by
  intro s
  rw [Parse.ifElse]
  refine (silent_advance s).bind fun first s₁ _ h₁ => ?_
  refine (h.expr .lowest s₁).bind fun cond s₂ _ hcond => ?_
  refine (h.body s₂).bind fun onTrue s₃ _ hOnTrue => ?_
  have finish {first : Span} (onFalse : Option (List Stmt)) {s₄ : ParseState}
      (hOnFalse : Numbered (s₃.nodes.of k) (s₄.nodes.of k) (ids k (Stmt.optionKeys onFalse))) :
      Counts k (do
      let onFalse ← (Pure.pure onFalse : Parse (Option (List Stmt)))
      newStmt (fun node => .ifElse node cond onTrue onFalse) (first.merge (← previousSpan))) s₄
      fun stmt s' => Numbered (s.nodes.of k) (s'.nodes.of k) (ids k stmt.keys) := by
    refine .pure_bind <| (silent_previousSpan s₄).bind fun last s₅ _ h₅ => ?_
    refine (completes_newStmt _ _).numbersParts (cond.keys ++ Stmt.listKeys onTrue ++
      Stmt.optionKeys onFalse) ?_ fun node => by rw [Stmt.keys]
    rw [ids_append, ids_append]
    exact ((hcond.append hOnTrue (Nat.le_refl _)).append hOnFalse (Nat.le_refl _)).widen
      (by omega) (by omega)
  refine (silent_accept _ s₃).bind fun hasElse s₄ _ h₄ => ?_
  split
  · refine (silent_check _ s₄).bind fun isIf s₅ _ h₅ => ?_
    split
    · refine (h.ifElse s₅).bind fun chained s₆ _ hchained => finish (some [chained]) ?_
      have hwide := hchained.widen (show s₃.nodes.of k ≤ _ by omega) (Nat.le_refl _)
      simpa [Stmt.optionKeys, Stmt.listKeys] using hwide
    · exact (h.body s₅).bind fun body s₆ _ hbody =>
        finish (some body) (hbody.widen (by omega) (Nat.le_refl _))
  · exact finish none (.nil (by omega))

theorem stmt_succ : Numbers k (Parse.stmt (bound + 1)) Stmt.keys := by
  intro s
  rw [Parse.stmt]
  refine (silent_currentSpan s).bind fun first s₁ _ h₁ => ?_
  refine (silent_kind s₁).bind fun kind s₂ _ h₂ => ?_
  have finish {make : Node → Stmt} {s₃ : ParseState} (keys : List NodeKey)
      (hkeys : Numbered (s.nodes.of k) (s₃.nodes.of k) (ids k keys))
      (hmake : ∀ node, keys = (make node).keys) : Counts k (do
      newStmt make (first.merge (← previousSpan))) s₃ fun stmt s' =>
        Numbered (s.nodes.of k) (s'.nodes.of k) (ids k stmt.keys) :=
    (silent_previousSpan s₃).bind fun last s₄ _ h₄ => (completes_newStmt make _).numbersParts keys
      (hkeys.widen (Nat.le_refl _) (Nat.le_of_eq h₄.symm)) hmake
  have assignment {s₃ : ParseState} (h₃ : s.nodes.of k ≤ s₃.nodes.of k) : Counts k (do
      let make ← exprOrAssign (Parse.expr .lowest bound)
      newStmt make (first.merge (← previousSpan))) s₃ fun stmt s' =>
        Numbered (s.nodes.of k) (s'.nodes.of k) (ids k stmt.keys) := by
    refine (numbers_exprOrAssign (h.expr .lowest) s₃).bind fun make s₄ _ hmake => ?_
    obtain ⟨keys, hmake, hkeys⟩ := hmake
    exact finish keys (hkeys.widen h₃ (Nat.le_refl _)) hmake
  have declares : Counts k (do
      let local' ← Parse.binding (Parse.expr .lowest bound) bound
      newStmt (fun node => .bind node local') (first.merge (← previousSpan))) s₂ fun stmt s' =>
        Numbered (s.nodes.of k) (s'.nodes.of k) (ids k stmt.keys) := by
    refine (numbers_binding (h.expr .lowest) bound s₂).bind fun binding s₃ _ hbinding => ?_
    refine (silent_previousSpan s₃).bind fun last s₄ _ h₄ => ?_
    exact (completes_newStmt _ _).numbers _ (hbinding.widen (by omega) (by omega)) fun node =>
      .of_eq (by rw [Stmt.keys])
  split
  · exact declares
  · exact declares
  · exact (h.ifElse s₂).mono fun stmt s₃ hstmt => hstmt.widen (by omega) (Nat.le_refl _)
  · refine (silent_advance s₂).bind fun _ s₃ _ h₃ => ?_
    refine (h.expr .lowest s₃).bind fun cond s₄ _ hcond => ?_
    refine (h.body s₄).bind fun body s₅ _ hbody =>
      finish (cond.keys ++ Stmt.listKeys body) ?_ fun node => by rw [Stmt.keys]
    rw [ids_append]
    exact (hcond.append hbody (Nat.le_refl _)).widen (by omega) (Nat.le_refl _)
  · refine (silent_advance s₂).bind fun _ s₃ _ h₃ => ?_
    refine (silent_check _ s₃).bind fun bare s₄ _ h₄ => ?_
    have last (value : Option Expr) {s₅ : ParseState}
        (hvalue : Numbered (s₄.nodes.of k) (s₅.nodes.of k) (ids k (Expr.optionKeys value))) :
        Counts k (do
        let value ← (Pure.pure value : Parse (Option Expr))
        let _ ← expect .semi
        newStmt (fun node => .ret node value) (first.merge (← previousSpan))) s₅ fun stmt s' =>
          Numbered (s.nodes.of k) (s'.nodes.of k) (ids k stmt.keys) :=
      .pure_bind <| (silent_expect _ s₅).bind fun _ s₆ _ h₆ =>
        finish _ (hvalue.widen (by omega) (by omega)) fun node => by rw [Stmt.keys]
    split
    · exact last none (.nil (Nat.le_refl _))
    · exact (h.expr .lowest s₄).bind fun value s₅ _ hvalue => last (some value) hvalue
  · refine (silent_advance s₂).bind fun _ s₃ _ h₃ => (silent_expect _ s₃).bind fun _ s₄ _ h₄ => ?_
    exact finish [] (.nil (by omega)) fun _ => rfl
  · refine (silent_advance s₂).bind fun _ s₃ _ h₃ => (silent_expect _ s₃).bind fun _ s₄ _ h₄ => ?_
    exact finish [] (.nil (by omega)) fun _ => rfl
  · refine (h.body s₂).bind fun body s₃ _ hbody => ?_
    exact finish _ (hbody.widen (by omega) (Nat.le_refl _)) fun node => by rw [Stmt.keys]
  · refine (silent_checkNext _ s₂).bind fun named s₃ _ h₃ => ?_
    split
    · refine (numbers_funcDecl h.body bound .free .everyone s₃).bind fun decl s₄ _ hdecl => ?_
      exact finish _ (hdecl.widen (by omega) (Nat.le_refl _)) fun node => by rw [Stmt.keys]
    · exact assignment (by omega)
  · exact assignment (by omega)

end NumbersAt

theorem numbersAt (bound : Nat) : NumbersAt k bound := by
  induction bound with
  | zero =>
      exact ⟨fun _ _ => trivial, fun _ _ _ _ _ => trivial, fun _ => trivial, fun _ => trivial,
        fun _ => trivial, fun _ => trivial⟩
  | succ bound ih =>
      exact ⟨ih.expr_succ, ih.exprRest_succ, ih.operand_succ, ih.primary_succ, ih.stmt_succ,
        ih.ifElse_succ⟩

/-! ## Modules -/

theorem numbers_body (bound : Nat) : Numbers k (body bound) Stmt.listKeys :=
  (numbersAt bound).body

theorem numbers_fieldDecl (bound : Nat) (access : Access) :
    Numbers k (fieldDecl bound access) fun field => field.type.keys := by
  intro s
  refine (silent_currentSpan s).bind fun first s₁ _ h₁ => (silent_ident s₁).bind fun name s₂ _ h₂ => ?_
  refine (silent_expect _ s₂).bind fun _ s₃ _ h₃ => ?_
  refine (numbers_typeExpr bound s₃).bind fun type s₄ _ htype => ?_
  refine (silent_expect _ s₄).bind fun _ s₅ _ h₅ => ?_
  exact (silent_previousSpan s₅).bind fun last s₆ _ h₆ => .pure (htype.widen (by omega) (by omega))

theorem silent_enumCase : Silent k enumCase := by
  refine silent_ident.bind fun name => (silent_accept _).bind fun valued => ?_
  split
  · exact (silent_accept _).bind fun _ => (silent_expect _).bind fun _ =>
      (silent_literal _ _).bind fun _ => silent_pure _
  · exact silent_pure _

theorem numbers_member (bound : Nat) : Numbers k (member bound) Member.keys := by
  intro s
  refine (silent_accept _ s).bind fun isPrivate s₁ _ h₁ => ?_
  have finish (funcKind : FuncKind) (access : Access) {s₂ : ParseState}
      (h₂ : s.nodes.of k ≤ s₂.nodes.of k) : Counts k (do
      let decl ← funcDecl (body bound) bound funcKind access
      return (.func decl : Member)) s₂ fun member s' =>
        Numbered (s.nodes.of k) (s'.nodes.of k) (ids k member.keys) :=
    (numbers_funcDecl (numbers_body bound) bound funcKind access s₂).bind fun decl s₃ _ hdecl =>
      .pure (hdecl.widen h₂ (Nat.le_refl _))
  refine (silent_kind s₁).bind fun kind s₂ _ h₂ => ?_
  split
  · exact (silent_advance s₂).bind fun _ s₃ _ h₃ => finish _ _ (by omega)
  · exact finish _ _ (by omega)
  · exact (numbers_fieldDecl bound _ s₂).bind fun decl s₃ _ hdecl =>
      .pure (hdecl.widen (by omega) (Nat.le_refl _))
  · refine (silent_checkNext _ s₂).bind fun isFunc s₃ _ h₃ => ?_
    split
    · exact (silent_advance s₃).bind fun _ s₄ _ h₄ => finish _ _ (by omega)
    · exact counts_failHere _ _
  · exact counts_failHere _ _

theorem numbers_members (bound n : Nat) :
    Numbers k (members bound n) fun members => members.flatMap Member.keys := by
  induction n with
  | zero => exact fun _ => trivial
  | succ n ih =>
      intro s
      refine (silent_state s).bind fun start s₁ _ h₁ => ?_
      split
      · exact .pure (.nil (by omega))
      · refine (numbers_member bound s₁).bind fun first s₂ _ hfirst => ?_
        refine (ih s₂).bind fun rest s₃ _ hrest => .pure ?_
        have hall := (hfirst.append hrest (Nat.le_refl _)).widen (show s.nodes.of k ≤ _ by omega)
          (Nat.le_refl _)
        simpa using hall

theorem numbers_structDecl (bound : Nat) : Numbers k (structDecl bound) Decl.keys := by
  intro s
  refine (silent_advance s).bind fun first s₁ _ h₁ => ?_
  refine (silent_ident s₁).bind fun name s₂ _ h₂ => (silent_expect _ s₂).bind fun _ s₃ _ h₃ => ?_
  refine (numbers_members bound bound s₃).bind fun members s₄ _ hmembers => ?_
  refine (silent_expect _ s₄).bind fun _ s₅ _ h₅ => (silent_previousSpan s₅).bind fun last s₆ _ h₆ => ?_
  exact (completes_newDecl _ _ _).numbers _ (hmembers.widen (by omega) (by omega)) fun node => .refl _

theorem numbers_enumDecl (bound : Nat) : Numbers k (enumDecl bound) Decl.keys := by
  intro s
  refine (silent_advance s).bind fun first s₁ _ h₁ => (silent_ident s₁).bind fun name s₂ _ h₂ => ?_
  refine (silent_expect _ s₂).bind fun _ s₃ _ h₃ => ?_
  refine (silent_enumCase.commaList .rbrace bound s₃).bind fun cases s₄ _ h₄ => ?_
  refine (silent_expect _ s₄).bind fun _ s₅ _ h₅ => (silent_previousSpan s₅).bind fun last s₆ _ h₆ => ?_
  exact (completes_newDecl _ _ _).numbers [] (.nil (by omega)) fun node => .refl _

theorem numbers_aliasDecl (bound : Nat) : Numbers k (aliasDecl bound) Decl.keys := by
  intro s
  refine (silent_advance s).bind fun first s₁ _ h₁ => (silent_ident s₁).bind fun name s₂ _ h₂ => ?_
  refine (silent_accept _ s₂).bind fun weak s₃ _ h₃ => ?_
  refine (numbers_typeExpr bound s₃).bind fun target s₄ _ htarget => ?_
  refine (silent_expect _ s₄).bind fun _ s₅ _ h₅ => (silent_previousSpan s₅).bind fun last s₆ _ h₆ => ?_
  exact (completes_newDecl _ _ _).numbers _ (htarget.widen (by omega) (by omega)) fun node => .refl _

theorem numbers_declaration (bound : Nat) : Numbers k (declaration bound) Decl.keys := by
  intro s
  refine (silent_kind s).bind fun kind s₁ _ h₁ => ?_
  have func {s₂ : ParseState} (h₂ : s.nodes.of k ≤ s₂.nodes.of k) : Counts k (do
      let decl ← funcDecl (body bound) bound .free .everyone
      return (.func decl : Decl)) s₂ fun decl s' =>
        Numbered (s.nodes.of k) (s'.nodes.of k) (ids k decl.keys) :=
    (numbers_funcDecl (numbers_body bound) bound .free .everyone s₂).bind fun decl s₃ _ hdecl =>
      .pure (hdecl.widen h₂ (Nat.le_refl _))
  have global {s₂ : ParseState} (h₂ : s.nodes.of k ≤ s₂.nodes.of k) : Counts k (do
      let first ← currentSpan
      let global ← binding (expr .lowest bound) bound
      newDecl id (fun node => Decl.global node global) (first.merge (← previousSpan))) s₂ fun decl s' =>
        Numbered (s.nodes.of k) (s'.nodes.of k) (ids k decl.keys) := by
    refine (silent_currentSpan s₂).bind fun first s₃ _ h₃ => ?_
    refine (numbers_binding ((numbersAt bound).expr .lowest) bound s₃).bind
      fun binding s₄ _ hbinding => ?_
    refine (silent_previousSpan s₄).bind fun last s₅ _ h₅ => ?_
    exact (completes_newDecl _ _ _).numbers _ (hbinding.widen (by omega) (by omega)) fun node => .refl _
  split
  · exact func (by omega)
  · refine (silent_advance s₁).bind fun _ s₂ _ h₂ => (silent_check _ s₂).bind fun isFunc s₃ _ h₃ => ?_
    split
    · exact func (by omega)
    · exact counts_failHere _ _
  · exact (numbers_structDecl bound s₁).mono fun decl s₂ h => h.widen (by omega) (Nat.le_refl _)
  · exact (numbers_enumDecl bound s₁).mono fun decl s₂ h => h.widen (by omega) (Nat.le_refl _)
  · exact (numbers_aliasDecl bound s₁).mono fun decl s₂ h => h.widen (by omega) (Nat.le_refl _)
  · exact global (by omega)
  · exact global (by omega)
  · exact counts_failHere _ _
  · exact counts_failHere _ _

end Parse

namespace ParseState

@[simp] theorem nodes_skipBlock (bound depth : Nat) (s : ParseState) :
    (skipBlock bound depth s).nodes = s.nodes := by
  induction bound generalizing depth s with
  | zero => rfl
  | succ bound ih =>
      rw [skipBlock]
      split
      · rfl
      · rw [ih, Parse.nodes_advance]

@[simp] theorem nodes_skipToDeclaration (bound : Nat) (s : ParseState) :
    (skipToDeclaration bound s).nodes = s.nodes := by
  induction bound generalizing s with
  | zero => rfl
  | succ bound ih =>
      rw [skipToDeclaration]
      split
      · rfl
      · split <;> simp [ih]

@[simp] theorem nodes_synchronize (s : ParseState) : s.synchronize.nodes = s.nodes := by
  simp [synchronize]

@[simp] theorem nodes_start (tokens : List Token) (nodes : NodeCount) :
    (start tokens nodes).nodes = nodes := by
  unfold start
  split <;> simp

end ParseState

namespace Parse

theorem silent_synchronize : Silent k (update ParseState.synchronize) :=
  silent_of_nodes fun _ => ⟨_, _, rfl, by simp⟩

theorem numbers_declarations (bound n : Nat) :
    Numbers k (declarations bound n) fun decls => decls.flatMap Decl.keys := by
  induction n with
  | zero => exact fun _ => trivial
  | succ n ih =>
      intro s
      refine (silent_state s).bind fun start s₁ _ h₁ => ?_
      have skipped {s₂ : ParseState} (h₂ : s.nodes.of k ≤ s₂.nodes.of k) : Counts k (do
          update ParseState.synchronize
          declarations bound n) s₂ fun decls s' =>
            Numbered (s.nodes.of k) (s'.nodes.of k) (ids k (decls.flatMap Decl.keys)) :=
        (silent_synchronize s₂).bind fun _ s₃ _ h₃ => (ih s₃).mono fun decls s₄ hdecls =>
          hdecls.widen (by omega) (Nat.le_refl _)
      split
      · exact .pure (.nil (by omega))
      · refine (numbers_attempt (numbers_declaration bound) s₁).bind fun first s₂ hle hfirst => ?_
        refine (silent_state s₂).bind fun current s₃ _ h₃ => ?_
        split
        · exact skipped (by omega)
        · split
          · refine (ih s₃).bind fun rest s₄ _ hrest => .pure ?_
            have hall := (hfirst.append hrest (by omega)).widen (show s.nodes.of k ≤ _ by omega)
              (Nat.le_refl _)
            simpa using hall
          · exact skipped (by omega)

theorem numbers_header : Numbers k header fun _ => [] := by
  intro s
  refine (silent_accept _ s).bind fun named s₁ _ h₁ => ?_
  split
  · refine (numbers_attempt silent_ident.numbers s₁).bind fun name s₂ h₂ _ => ?_
    refine (numbers_attempt (silent_expect .semi).numbers s₂).bind fun _ s₃ h₃ _ => ?_
    exact (silent_previousSpan s₃).bind fun last s₄ _ h₄ => .pure (.nil (by omega))
  · exact .pure (.nil (by omega))

theorem silent_importDecl : Silent k importDecl :=
  (silent_expect _).bind fun _ => silent_ident.bind fun _ => (silent_expect _).bind fun _ =>
    silent_pure _

theorem numbers_imports (n : Nat) : Numbers k (imports n) fun _ => [] := by
  induction n with
  | zero => exact fun _ => trivial
  | succ n ih =>
      intro s
      refine (silent_check _ s).bind fun more s₁ _ h₁ => ?_
      split
      · refine (numbers_attempt silent_importDecl.numbers s₁).bind fun first s₂ h₂ _ => ?_
        exact (ih s₂).bind fun rest s₃ h₃ _ => .pure (.nil (by omega))
      · exact .pure (.nil (by omega))

theorem numbers_moduleDecl (file : FileId) (defaultName : String) (bound : Nat) :
    Numbers k (moduleDecl file defaultName bound) Module.keys := by
  intro s
  refine (numbers_header s).bind fun name s₁ h₁ _ => ?_
  refine (numbers_imports bound s₁).bind fun imports s₂ h₂ _ => ?_
  refine (numbers_declarations bound bound s₂).bind fun decls s₃ _ hdecls => .pure ?_
  exact hdecls.widen (by omega) (Nat.le_refl _)

theorem numbers_wholeType (bound : Nat) : Numbers k (wholeType bound) TypeExpr.keys := by
  intro s
  refine (numbers_attempt (numbers_typeExpr bound) s).bind fun type s₁ _ htype => ?_
  have hfail (error : TokenKind → SyntaxError) :
      Numbers k (failHere error : Parse Unit) fun _ => [] := fun _ => counts_failHere _ _
  refine (silent_state s₁).bind fun current s₂ _ h₂ => ?_
  cases type with
  | none =>
      dsimp only
      split
      · exact (numbers_attempt (hfail _) s₂).bind fun _ s₃ _ _ => Nat.le_refl (s₃.nodes.of k)
      · exact Nat.le_refl (s₂.nodes.of k)
  | some type =>
      have htype : Numbered (s.nodes.of k) (s₂.nodes.of k) (ids k type.keys) := by
        simpa [h₂] using htype
      dsimp only
      split
      · exact (numbers_attempt (hfail _) s₂).bind fun _ s₃ h₃ _ =>
          .pure (htype.widen (Nat.le_refl _) h₃)
      · exact .pure htype

end Parse

/-! ## Texts -/

/-- Reading a text never takes numbers back, and what is read of an accepted text
has numbers that were not given before. -/
theorem numbered_runParse {α : Type} {k : NodeKind} {parser : Nat → Parse α}
    {keys : α → List NodeKey} (h : ∀ bound, Parse.Numbers k (parser bound) keys) (source : String)
    (file : FileId) (nodes : NodeCount) :
    nodes.of k ≤ (runParse parser source file nodes).2.of k ∧
      ∀ value, (runParse parser source file nodes).1 = .ok value →
        Numbered (nodes.of k) ((runParse parser source file nodes).2.of k) (ids k (keys value)) := by
  have hrun := h (ParseState.start (lex source file) nodes).stepBound
    (ParseState.start (lex source file) nodes)
  unfold Parse.Counts at hrun
  rw [ParseState.nodes_start] at hrun
  rw [runParse_eq]
  dsimp only
  split
  · next value s hp =>
    rw [hp] at hrun
    refine ⟨hrun.1, fun value' hvalue => ?_⟩
    dsimp only at hvalue
    split at hvalue
    · cases hvalue
      exact hrun.2
    · cases hvalue
  · next s hp =>
    rw [hp] at hrun
    exact ⟨hrun, fun value hvalue => nomatch hvalue⟩
  · exact ⟨Nat.le_refl _, fun value hvalue => nomatch hvalue⟩

theorem numbered_parseModule (k : NodeKind) (source : String) (file : FileId) (defaultName : String)
    (nodes : NodeCount) :
    nodes.of k ≤ (parseModule source file defaultName nodes).2.of k ∧
      ∀ m, (parseModule source file defaultName nodes).1 = .ok m →
        Numbered (nodes.of k) ((parseModule source file defaultName nodes).2.of k) (ids k m.keys) :=
  numbered_runParse (Parse.numbers_moduleDecl file defaultName) source file nodes

theorem numbered_parseType (k : NodeKind) (source : String) (file : FileId) (nodes : NodeCount) :
    nodes.of k ≤ (parseType source file nodes).2.of k ∧
      ∀ type, (parseType source file nodes).1 = .ok type →
        Numbered (nodes.of k) ((parseType source file nodes).2.of k) (ids k type.keys) :=
  numbered_runParse Parse.numbers_wholeType source file nodes

end Stela
