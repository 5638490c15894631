import Mathlib.Data.List.Basic
import Stela.Proofs.Syntax.Consumption
import Stela.Proofs.Syntax.Reading

/-!
# The places of nodes

The nodes of a tree stand in the text as the tree says: a node runs from the
start of a token to the end of one, its children are inside it, and of two
children the first ends before the second starts. Along a run of the parser
without errors the nodes that were completed cover some of the tokens that were
read, so the nodes of two stretches of tokens do not overlap.
-/

namespace Stela

/-! ## Trees of spans -/

/-- The places of a node and of its children, which are in the order of the source. -/
inductive SpanTree where
  | node (span : Span) (children : List SpanTree)

namespace SpanTree

def span : SpanTree → Span
  | .node span _ => span

def Precedes (a b : SpanTree) : Prop := a.span.stop ≤ b.span.start

/-- Every node of the tree has a span of this kind, and children that are inside it, one behind the
other. -/
inductive Nested (real : Span → Prop) : SpanTree → Prop
  | node {span : Span} {children : List SpanTree} (hspan : real span)
      (hchildren : ∀ child ∈ children, Nested real child)
      (hinside : ∀ child ∈ children, span.start ≤ child.span.start ∧ child.span.stop ≤ span.stop)
      (hordered : children.Pairwise Precedes) : Nested real (.node span children)

theorem Nested.mono {real real' : Span → Prop} {tree : SpanTree} (h : tree.Nested real)
    (hle : ∀ span, real span → real' span) : tree.Nested real' := by
  induction h with
  | node hspan _ hinside hordered ih => exact .node (hle _ hspan) ih hinside hordered

theorem Nested.real {real : Span → Prop} {tree : SpanTree} (h : tree.Nested real) : real tree.span := by
  cases h with
  | node hspan _ _ _ => exact hspan

end SpanTree

mutual

def TypeExpr.spans : TypeExpr → SpanTree
  | .named node _ _ => .node node.span []
  | .array node element => .node node.span [element.spans]
  | .func node params ret => .node node.span (TypeParam.listSpans params ++ TypeExpr.optionSpans ret)

def TypeParam.spans : TypeParam → SpanTree
  | ⟨_, type⟩ => type.spans

def TypeParam.listSpans : List TypeParam → List SpanTree
  | [] => []
  | param :: rest => param.spans :: TypeParam.listSpans rest

def TypeExpr.optionSpans : Option TypeExpr → List SpanTree
  | none => []
  | some type => [type.spans]

end

def Param.spans (param : Param) : SpanTree := .node param.span [param.type.spans]

def Signature.spans (sig : Signature) : List SpanTree :=
  sig.params.map Param.spans ++ TypeExpr.optionSpans sig.ret

mutual

def Expr.spans : Expr → SpanTree
  | .literal node _ => .node node.span []
  | .ident node _ => .node node.span []
  | .member node object _ => .node node.span [object.spans]
  | .call node callee args => .node node.span (callee.spans :: Expr.listSpans args)
  | .index node base index => .node node.span [base.spans, index.spans]
  | .unary node _ operand => .node node.span [operand.spans]
  | .binary node _ lhs rhs => .node node.span [lhs.spans, rhs.spans]
  | .ternary node cond onTrue onFalse => .node node.span [cond.spans, onTrue.spans, onFalse.spans]
  | .array node elements => .node node.span (Expr.listSpans elements)
  | .closure node sig body => .node node.span (sig.spans ++ Stmt.listSpans body)

def Expr.listSpans : List Expr → List SpanTree
  | [] => []
  | expr :: rest => expr.spans :: Expr.listSpans rest

def Expr.optionSpans : Option Expr → List SpanTree
  | none => []
  | some expr => [expr.spans]

def Stmt.spans : Stmt → SpanTree
  | .bind node binding => .node node.span binding.spans
  | .assign node target _ value => .node node.span [target.spans, value.spans]
  | .expr node value => .node node.span [value.spans]
  | .ifElse node cond onTrue onFalse =>
    .node node.span (cond.spans :: Stmt.listSpans onTrue ++ Stmt.optionSpans onFalse)
  | .whileLoop node cond body => .node node.span (cond.spans :: Stmt.listSpans body)
  | .ret node value => .node node.span (Expr.optionSpans value)
  | .breakLoop node => .node node.span []
  | .continueLoop node => .node node.span []
  | .block node body => .node node.span (Stmt.listSpans body)
  | .func node decl => .node node.span [decl.spans]

def Stmt.listSpans : List Stmt → List SpanTree
  | [] => []
  | stmt :: rest => stmt.spans :: Stmt.listSpans rest

def Stmt.optionSpans : Option (List Stmt) → List SpanTree
  | none => []
  | some body => Stmt.listSpans body

/-- A variable declaration has a place as a statement or a declaration only. -/
def Binding.spans : Binding → List SpanTree
  | ⟨_, _, type, init⟩ => TypeExpr.optionSpans type ++ Expr.optionSpans init

def FuncDecl.spans : FuncDecl → SpanTree
  | ⟨node, _, sig, body, _, _⟩ => .node node.span (sig.spans ++ Stmt.optionSpans body)

end

def Member.spans : Member → SpanTree
  | .field decl => .node decl.span [decl.type.spans]
  | .func decl => decl.spans

def Decl.spans : Decl → SpanTree
  | .func decl => decl.spans
  | .structType node _ members => .node node.span (members.map Member.spans)
  | .enumType node _ _ => .node node.span []
  | .aliasType node _ target _ => .node node.span [target.spans]
  | .global node binding => .node node.span binding.spans
  | .hostType node _ _ _ fields => .node node.span (fields.map fun field => field.type.spans)

theorem TypeParam.listSpans_eq_map (params : List TypeParam) :
    TypeParam.listSpans params = params.map TypeParam.spans := by
  induction params with
  | nil => rw [TypeParam.listSpans, List.map_nil]
  | cons first rest ih => rw [TypeParam.listSpans, ih, List.map_cons]

theorem Expr.listSpans_eq_map (exprs : List Expr) : Expr.listSpans exprs = exprs.map Expr.spans := by
  induction exprs with
  | nil => rw [Expr.listSpans, List.map_nil]
  | cons first rest ih => rw [Expr.listSpans, ih, List.map_cons]

theorem TypeExpr.optionSpans_eq_elim (type : Option TypeExpr) :
    TypeExpr.optionSpans type = type.elim [] fun type => [type.spans] := by
  cases type <;> rw [TypeExpr.optionSpans] <;> rfl

theorem Expr.optionSpans_eq_elim (expr : Option Expr) :
    Expr.optionSpans expr = expr.elim [] fun expr => [expr.spans] := by
  cases expr <;> rw [Expr.optionSpans] <;> rfl

theorem TypeExpr.span_spans (type : TypeExpr) : type.spans.span = type.node.span := by
  cases type <;> simp [TypeExpr.spans, SpanTree.span, TypeExpr.node]

theorem Expr.span_spans (e : Expr) : e.spans.span = e.span := by
  cases e <;> simp [Expr.spans, SpanTree.span, Expr.span, Expr.node]

theorem Stmt.span_spans (stmt : Stmt) : stmt.spans.span = stmt.node.span := by
  cases stmt <;> simp [Stmt.spans, SpanTree.span, Stmt.node]

/-! ## Nodes over tokens -/

/-- The span runs from the start of one of the tokens to the end of one, and its line and column are
those of the first. -/
structure Frames (tokens : List Token) (span : Span) : Prop where
  nonempty : span.start < span.stop
  exact : ∃ first ∈ tokens, ∃ last ∈ tokens, span = { first.span with stop := last.span.stop }

/-- Tokens with text that stand one behind the other. -/
structure Solid (tokens : List Token) : Prop where
  ordered : tokens.Pairwise fun t t' => t.span.stop ≤ t'.span.start
  nonempty : ∀ t ∈ tokens, t.span.start < t.span.stop

/-- The tokens hold these nodes, one behind the other. -/
structure Holds (read : List Token) (trees : List SpanTree) : Prop where
  nested : ∀ tree ∈ trees, tree.Nested (Frames read)
  ordered : trees.Pairwise SpanTree.Precedes

variable {read read' : List Token} {trees trees' : List SpanTree} {a b : Span} {t : Token}

theorem Frames.mono {tokens tokens' : List Token} (h : Frames tokens a) (hle : tokens ⊆ tokens') :
    Frames tokens' a := by
  obtain ⟨hlt, first, hfirst, last, hlast, rfl⟩ := h
  exact ⟨hlt, first, hle hfirst, last, hle hlast, rfl⟩

theorem Holds.mono (h : Holds read trees) (hle : read ⊆ read') : Holds read' trees :=
  ⟨fun tree htree => (h.nested tree htree).mono fun _ hspan => hspan.mono hle, h.ordered⟩

theorem Holds.nil : Holds read [] := ⟨nofun, .nil⟩

theorem Solid.frames (h : Solid read) (ht : t ∈ read) : Frames read t.span :=
  ⟨h.nonempty t ht, t, ht, t, ht, rfl⟩

/-- A node of tokens ends before a node of later tokens starts. -/
theorem Solid.stop_le_start (h : Solid (read ++ read')) (ha : Frames read a) (hb : Frames read' b) :
    a.stop ≤ b.start := by
  obtain ⟨-, -, -, last, hlast, rfl⟩ := ha
  obtain ⟨-, first, hfirst, -, -, rfl⟩ := hb
  exact (List.pairwise_append.mp h.ordered).2.2 last hlast first hfirst

theorem Holds.append (hsolid : Solid (read ++ read')) (h : Holds read trees) (h' : Holds read' trees') :
    Holds (read ++ read') (trees ++ trees') where
  nested := List.forall_mem_append.mpr
    ⟨(h.mono (List.subset_append_left _ _)).nested, (h'.mono (List.subset_append_right _ _)).nested⟩
  ordered := List.pairwise_append.mpr ⟨h.ordered, h'.ordered, fun tree htree tree' htree' =>
    hsolid.stop_le_start (h.nested tree htree).real (h'.nested tree' htree').real⟩

/-- Nothing of the tokens starts or ends before the first of them does. -/
theorem Solid.head_le (h : Solid (t :: read)) (ha : Frames (t :: read) a) :
    t.span.start ≤ a.start ∧ t.span.stop ≤ a.stop := by
  obtain ⟨hbehind, -⟩ := List.pairwise_cons.mp h.ordered
  have hlt := h.nonempty t List.mem_cons_self
  obtain ⟨-, first, hfirst, last, hlast, rfl⟩ := ha
  constructor
  · rcases List.mem_cons.mp hfirst with rfl | hfirst
    · exact Nat.le_refl _
    · exact Nat.le_trans (Nat.le_of_lt hlt) (hbehind first hfirst)
  · rcases List.mem_cons.mp hlast with rfl | hlater
    · exact Nat.le_refl _
    · exact Nat.le_trans (hbehind last hlater) (Nat.le_of_lt (h.nonempty last hlast))

/-- Nothing of the tokens starts or ends behind the last of them. -/
theorem Solid.le_last (h : Solid (read ++ [t])) (ha : Frames (read ++ [t]) a) :
    a.start ≤ t.span.start ∧ a.stop ≤ t.span.stop := by
  have hbefore (t' : Token) (ht' : t' ∈ read) : t'.span.stop ≤ t.span.start :=
    (List.pairwise_append.mp h.ordered).2.2 t' ht' t (List.mem_singleton_self t)
  have hlt := h.nonempty t (List.mem_append_right _ (List.mem_singleton_self t))
  obtain ⟨-, first, hfirst, last, hlast, rfl⟩ := ha
  constructor
  · rcases List.mem_append.mp hfirst with hearlier | hsame
    · exact Nat.le_trans (Nat.le_of_lt (h.nonempty first hfirst)) (hbefore first hearlier)
    · exact Nat.le_of_eq (by rw [List.mem_singleton.mp hsame])
  · rcases List.mem_append.mp hlast with hearlier | hsame
    · exact Nat.le_trans (hbefore last hearlier) (Nat.le_of_lt hlt)
    · exact Nat.le_of_eq (by rw [List.mem_singleton.mp hsame])

theorem Frames.merge (ha : Frames read a) (hb : Frames read b) (hstart : a.start ≤ b.start)
    (hstop : a.stop ≤ b.stop) :
    Frames read (a.merge b) ∧ (a.merge b).start = a.start ∧ (a.merge b).stop = b.stop := by
  have hmerge : a.merge b = { a with stop := b.stop } := by
    simp [Span.merge, hstart, hstop]
  rw [hmerge]
  refine ⟨⟨Nat.lt_of_lt_of_le ha.nonempty hstop, ?_⟩, rfl, rfl⟩
  obtain ⟨-, first, hfirst, -, -, rfl⟩ := ha
  obtain ⟨-, -, -, last, hlast, rfl⟩ := hb
  exact ⟨first, hfirst, last, hlast, rfl⟩

/-- Where a node of these tokens with these children may start. -/
def Heads (read : List Token) (trees : List SpanTree) (a : Span) : Prop :=
  (∃ t rest, read = t :: rest ∧ a = t.span) ∨ ∃ tree rest, trees = tree :: rest ∧ a = tree.span

/-- Where it may end. -/
def Tails (read : List Token) (trees : List SpanTree) (b : Span) : Prop :=
  (∃ t front, read = front ++ [t] ∧ b = t.span) ∨ ∃ tree front, trees = front ++ [tree] ∧ b = tree.span

theorem Heads.spec (hsolid : Solid read) (h : Holds read trees) (ha : Heads read trees a) :
    Frames read a ∧ ∀ tree ∈ trees, a.start ≤ tree.span.start ∧ a.stop ≤ tree.span.stop := by
  rcases ha with ⟨t, rest, rfl, rfl⟩ | ⟨first, rest, rfl, rfl⟩
  · exact ⟨hsolid.frames List.mem_cons_self,
      fun tree htree => hsolid.head_le (h.nested tree htree).real⟩
  · refine ⟨(h.nested first List.mem_cons_self).real, fun tree htree => ?_⟩
    rcases List.mem_cons.mp htree with rfl | hlater
    · exact ⟨Nat.le_refl _, Nat.le_refl _⟩
    · have hnext : first.span.stop ≤ tree.span.start := (List.pairwise_cons.mp h.ordered).1 tree hlater
      have hfirst := (h.nested first List.mem_cons_self).real.nonempty
      have htree := (h.nested tree htree).real.nonempty
      omega

theorem Tails.spec (hsolid : Solid read) (h : Holds read trees) (hb : Tails read trees b) :
    Frames read b ∧ ∀ tree ∈ trees, tree.span.start ≤ b.start ∧ tree.span.stop ≤ b.stop := by
  rcases hb with ⟨t, front, rfl, rfl⟩ | ⟨last, front, rfl, rfl⟩
  · exact ⟨hsolid.frames (by simp), fun tree htree => hsolid.le_last (h.nested tree htree).real⟩
  · have hlast := (h.nested last (by simp)).real
    refine ⟨hlast, fun tree htree => ?_⟩
    rcases List.mem_append.mp htree with hearlier | hsame
    · have hnext : tree.span.stop ≤ last.span.start :=
        (List.pairwise_append.mp h.ordered).2.2 tree hearlier last (List.mem_singleton_self last)
      have htree := (h.nested tree htree).real.nonempty
      have hlast := hlast.nonempty
      omega
    · rw [List.mem_singleton.mp hsame]
      exact ⟨Nat.le_refl _, Nat.le_refl _⟩

/-- A node around all nodes so far takes their place. -/
theorem Holds.node (hsolid : Solid read) (h : Holds read trees) (ha : Heads read trees a)
    (hb : Tails read trees b) : Holds read [.node (a.merge b) trees] := by
  obtain ⟨hframes, hbefore⟩ := ha.spec hsolid h
  obtain ⟨hframes', hbehind⟩ := hb.spec hsolid h
  have hle : a.start ≤ b.start ∧ a.stop ≤ b.stop := by
    rcases ha with ⟨t, rest, rfl, rfl⟩ | ⟨first, rest, rfl, rfl⟩
    · exact hsolid.head_le hframes'
    · exact hbehind first List.mem_cons_self
  obtain ⟨hmerge, hstart, hstop⟩ := hframes.merge hframes' hle.1 hle.2
  refine ⟨List.forall_mem_singleton.mpr (.node hmerge h.nested (fun tree htree => ?_) h.ordered),
    List.pairwise_singleton _ _⟩
  rw [hstart, hstop]
  exact ⟨(hbefore tree htree).1, (hbehind tree htree).2⟩

/-! ## Runs of the parser -/

open ParseState

/-- The tokens of a text: each ends before the next one starts, and all but the end of the input
have text. -/
structure InOrder (tokens : List Token) : Prop where
  ends : EndOnce tokens
  ordered : tokens.Pairwise fun t t' => t.span.stop ≤ t'.span.start
  nonempty : ∀ t ∈ tokens, t.kind ≠ .eof → t.span.start < t.span.stop

theorem InOrder.of_append {read rest : List Token} (h : InOrder (read ++ rest)) (hne : rest ≠ []) :
    InOrder rest where
  ends := h.ends.of_suffix (List.suffix_append _ _) hne
  ordered := (List.pairwise_append.mp h.ordered).2.1
  nonempty := fun t ht => h.nonempty t (List.mem_append_right _ ht)

theorem InOrder.solid {read rest : List Token} (h : InOrder (read ++ rest))
    (hread : ∀ t ∈ read, t.kind ≠ .eof) : Solid read where
  ordered := (List.pairwise_append.mp h.ordered).1
  nonempty := fun t ht => h.nonempty t (List.mem_append_left _ ht) (hread t ht)

/-- What was read between two states: these tokens, and the nodes over them. -/
structure Passed (moved : Bool) (s₀ : ParseState) (trees : List SpanTree) (s : ParseState)
    (read : List Token) : Prop where
  rest : s₀.rest = read ++ s.rest
  written : ∀ t ∈ read, t.kind ≠ .eof
  previous : s.previous = read.getLastD s₀.previous
  moved : moved = true → read ≠ []
  holds : Holds read trees

/-- Between two states these nodes were completed, and if `moved` is set something was read. This is
said of runs without errors that do not start behind `extern`. -/
structure Lays (moved : Bool) (s₀ : ParseState) (trees : List SpanTree) (s : ParseState) : Prop where
  kept : s₀.errors ≠ [] → s.errors ≠ []
  explained : s.Explained
  laid : s.errors = [] → s₀.previous.kind ≠ .kwExtern → InOrder s₀.rest →
    (∃ read, Passed moved s₀ trees s read) ∧ s.previous.kind ≠ .kwExtern

namespace Lays

variable {moved moved' : Bool} {s₀ s s' : ParseState} {trees trees' : List SpanTree} {kind : TokenKind}
  {a b : Span}

theorem refl (h : s.Explained) : Lays false s [] s where
  kept := id
  explained := h
  laid := fun _ hstart _ => ⟨⟨[], rfl, nofun, rfl, nofun, .nil⟩, hstart⟩

/-- Behind an error nothing is said of the nodes. -/
theorem of_errors (h : s.errors ≠ []) : Lays moved s₀ trees s where
  kept := fun _ => h
  explained := fun _ => h
  laid := fun herrors => absurd herrors h

/-- Nothing is said of a run that starts behind `extern`. -/
theorem of_behindExtern (h : Lays moved s₀ trees s) (hstart : s₀.previous.kind = .kwExtern) :
    Lays moved' s₀ trees' s :=
  ⟨h.kept, h.explained, fun _ hfree => absurd hstart hfree⟩

theorem weaken (h : Lays true s₀ trees s) : Lays moved s₀ trees s where
  kept := h.kept
  explained := h.explained
  laid := by
    intro herrors hstart horder
    obtain ⟨⟨read, hread⟩, hlast⟩ := h.laid herrors hstart horder
    exact ⟨⟨read, hread.rest, hread.written, hread.previous, fun _ => hread.moved rfl, hread.holds⟩, hlast⟩

theorem numbered {nodes : NodeCount} {arena : List ArenaNode} (h : Lays moved s₀ trees s) :
    Lays moved s₀ trees { s with nodes := nodes, arena := arena } where
  kept := h.kept
  explained := h.explained
  laid := by
    intro herrors hstart horder
    obtain ⟨⟨read, hread⟩, hlast⟩ := h.laid herrors hstart horder
    exact ⟨⟨read, hread.rest, hread.written, hread.previous, hread.moved, hread.holds⟩, hlast⟩

theorem trans (h : Lays moved s₀ trees s) (h' : Lays moved' s trees' s') :
    Lays (moved || moved') s₀ (trees ++ trees') s' where
  kept := fun herrors => h'.kept (h.kept herrors)
  explained := h'.explained
  laid := by
    intro herrors hstart horder
    have hbefore : s.errors = [] := by
      by_contra hne
      exact h'.kept hne herrors
    obtain ⟨⟨read, hread⟩, hmiddle⟩ := h.laid hbefore hstart horder
    have hsplit := horder
    rw [hread.rest] at hsplit
    have hrest := hsplit.of_append (List.cons_ne_nil _ _)
    obtain ⟨⟨read', hread'⟩, hlast⟩ := h'.laid herrors hmiddle hrest
    have hall : s₀.rest = (read ++ read') ++ s'.rest := by
      rw [hread.rest, hread'.rest, List.append_assoc]
    have hwritten := List.forall_mem_append.mpr ⟨hread.written, hread'.written⟩
    rw [hall] at horder
    refine ⟨⟨read ++ read', hall, hwritten, ?_, fun hmoved => ?_,
      hread.holds.append (horder.solid hwritten) hread'.holds⟩, hlast⟩
    · rw [hread'.previous, hread.previous]
      cases read' with
      | nil => simp
      | cons t more => simp [List.getLastD_eq_getLast?]
    · intro hnone
      obtain ⟨hnil, hnil'⟩ := List.append_eq_nil_iff.mp hnone
      rcases Bool.or_eq_true_iff.mp hmoved with hmoved | hmoved
      · exact hread.moved hmoved hnil
      · exact hread'.moved hmoved hnil'

/-- A token is read that is neither the end of the input nor `extern`. -/
theorem advance (h : Lays moved s₀ trees s) (hkind : s.kind = kind) (hne : kind ≠ .eof)
    (hplain : kind ≠ .kwExtern) : Lays true s₀ trees s.advance where
  kept := fun herrors => kept_advance (h.kept herrors)
  explained := explained_advance h.explained
  laid := by
    intro herrors hstart horder
    have hbefore : s.errors = [] := by
      by_contra hbefore
      exact kept_advance hbefore herrors
    obtain ⟨⟨read, hread⟩, -⟩ := h.laid hbefore hstart horder
    have hend : s.atEnd = false := by simp [atEnd, hkind, hne]
    have hcurrent : s.current.kind = kind := hkind
    have hsplit := horder
    rw [hread.rest] at hsplit
    have hself := onward_self (hsplit.of_append (List.cons_ne_nil _ _)).ends
    have hnext : s₀.rest = (read ++ [s.current]) ++ s.advance.rest := by
      rw [hread.rest, rest_advance hend (hself.ahead_ne_nil hend), List.append_assoc]
      rfl
    refine ⟨⟨read ++ [s.current], hnext, ?_, ?_, fun _ => by simp, ?_⟩, ?_⟩
    · exact List.forall_mem_append.mpr ⟨hread.written, by simp [hcurrent, hne]⟩
    · simp [List.getLastD_eq_getLast?]
    · exact hread.holds.mono (List.subset_append_left _ _)
    · simpa [hcurrent] using hplain

/-- The nodes so far become the children of one that starts with the first token or the first
child, and ends with the last token or the last child. -/
theorem node (h : Lays true s₀ trees s)
    (ha : a = s₀.current.span ∨ ∃ tree rest, trees = tree :: rest ∧ a = tree.span)
    (hb : b = s.previous.span ∨ ∃ tree front, trees = front ++ [tree] ∧ b = tree.span) :
    Lays true s₀ [.node (a.merge b) trees] s where
  kept := h.kept
  explained := h.explained
  laid := by
    intro herrors hstart horder
    obtain ⟨⟨read, hread⟩, hlast⟩ := h.laid herrors hstart horder
    have hrest := hread.rest
    rw [hrest] at horder
    refine ⟨⟨read, hrest, hread.written, hread.previous, hread.moved, ?_⟩, hlast⟩
    refine hread.holds.node (horder.solid hread.written) (ha.imp_left ?_) (hb.imp_left ?_)
    · rintro rfl
      obtain ⟨t, rest, rfl⟩ := List.exists_cons_of_ne_nil (hread.moved rfl)
      exact ⟨t, rest, rfl, congrArg Token.span (List.cons.inj hrest).1⟩
    · rintro rfl
      have hne := hread.moved rfl
      refine ⟨read.getLast hne, read.dropLast, (List.dropLast_append_getLast hne).symm, ?_⟩
      rw [hread.previous, List.getLastD_eq_getLast?, List.getLast?_eq_some_getLast hne, Option.getD_some]

end Lays

end Stela
