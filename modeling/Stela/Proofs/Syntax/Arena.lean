import Mathlib.Data.List.Perm.Subperm
import Mathlib.Data.List.Range
import Stela.Proofs.Syntax.Keys
import Stela.Proofs.Syntax.Reading

/-!
# The arena

Every node that the parser completes goes into the arena, also one of a construct that fails later
on. A node refers to the nodes that were read for it, and what it refers to can be referred to by
nothing else: along a run the nodes of the arena are put together like a forest, and the trees that
are at hand are nodes of the arena that nothing refers to. As long as there are no errors, nothing
else is in the arena but these trees and their parts.
-/

namespace Stela

/-! ## References -/

def Signature.refs (sig : Signature) : List ArenaNode :=
  sig.params.map (fun param => .type param.type) ++ sig.ret.toList.map .type

def Binding.refs (binding : Binding) : List ArenaNode :=
  binding.type.toList.map .type ++ binding.init.toList.map .expr

def FuncDecl.refs (decl : FuncDecl) : List ArenaNode :=
  decl.sig.refs ++ (decl.body.getD []).map .stmt

def Member.refs : Member → List ArenaNode
  | .field decl => [.type decl.type]
  | .func decl => [.decl (.func decl)]

namespace ArenaNode

def kind : ArenaNode → NodeKind
  | .expr _ => .expr
  | .stmt _ => .stmt
  | .decl _ => .decl
  | .type _ => .type

def id : ArenaNode → Nat
  | .expr e => e.node.id
  | .stmt s => s.node.id
  | .decl d => d.node.id
  | .type t => t.node.id

/-- By its kind and its number a node is found in the arena. -/
def key (node : ArenaNode) : NodeKey := .node node.kind node.id

/-- The nodes that a node refers to, in the order in which they are read. -/
def refs : ArenaNode → List ArenaNode
  | .expr (.literal ..) | .expr (.ident ..) => []
  | .expr (.member _ object _) => [.expr object]
  | .expr (.call _ callee args) => .expr callee :: args.map .expr
  | .expr (.index _ base index) => [.expr base, .expr index]
  | .expr (.unary _ _ operand) => [.expr operand]
  | .expr (.binary _ _ lhs rhs) => [.expr lhs, .expr rhs]
  | .expr (.ternary _ cond onTrue onFalse) => [.expr cond, .expr onTrue, .expr onFalse]
  | .expr (.array _ elements) => elements.map .expr
  | .expr (.closure _ sig body) => sig.refs ++ body.map .stmt
  | .stmt (.bind _ binding) => binding.refs
  | .stmt (.assign _ target _ value) => [.expr target, .expr value]
  | .stmt (.expr _ value) => [.expr value]
  | .stmt (.ifElse _ cond onTrue onFalse) =>
    .expr cond :: (onTrue.map .stmt ++ (onFalse.getD []).map .stmt)
  | .stmt (.whileLoop _ cond body) => .expr cond :: body.map .stmt
  | .stmt (.ret _ value) => value.toList.map .expr
  | .stmt (.breakLoop _) | .stmt (.continueLoop _) => []
  | .stmt (.block _ body) => body.map .stmt
  | .stmt (.func _ d) => [.decl (.func d)]
  | .decl (.func d) => d.refs
  | .decl (.structType _ _ members) => members.flatMap Member.refs
  | .decl (.enumType ..) => []
  | .decl (.aliasType _ _ target _) => [.type target]
  | .decl (.global _ binding) => binding.refs
  | .decl (.hostType _ _ _ _ fields) => fields.map fun field => .type field.type
  | .type (.named ..) => []
  | .type (.array _ element) => [.type element]
  | .type (.func _ params ret) => params.map (fun param => .type param.type) ++ ret.toList.map .type

end ArenaNode

/-! ## Forests -/

/-- Every node refers to earlier ones only, where the latest node comes first. -/
def RefersBack : List ArenaNode → Prop
  | [] => True
  | node :: earlier => (∀ ref ∈ node.refs, ref ∈ earlier) ∧ RefersBack earlier

/-- Of two lists of nodes that each refer back, the later one may refer to either. -/
theorem RefersBack.append {later earlier : List ArenaNode} (h : RefersBack later)
    (h' : RefersBack earlier) : RefersBack (later ++ earlier) := by
  induction later with
  | nil => exact h'
  | cons node rest ih =>
      exact ⟨fun ref href => List.mem_append_left _ (h.1 ref href), ih h.2⟩

theorem RefersBack.of_split {arena later earlier : List ArenaNode} {node : ArenaNode}
    (h : RefersBack arena) (hsplit : arena = later ++ node :: earlier) :
    ∀ ref ∈ node.refs, ref ∈ earlier := by
  subst hsplit
  induction later with
  | nil => exact h.1
  | cons _ _ ih => exact ih h.2

def NodeCount.next (count : NodeCount) : NodeKind → NodeCount
  | .expr => { count with exprs := count.exprs + 1 }
  | .stmt => { count with stmts := count.stmts + 1 }
  | .decl => { count with decls := count.decls + 1 }
  | .type => { count with types := count.types + 1 }

theorem NodeCount.of_next (count : NodeCount) (kind other : NodeKind) :
    (count.next kind).of other = count.of other + if kind = other then 1 else 0 := by
  cases kind <;> cases other <;> rfl

/-- The nodes of each kind are numbered from one count up to another one. -/
inductive Counted (first : NodeCount) : List ArenaNode → NodeCount → Prop
  | nil : Counted first [] first
  | node {node : ArenaNode} {earlier : List ArenaNode} {count : NodeCount}
      (h : Counted first earlier count) (hid : node.id = count.of node.kind) :
      Counted first (node :: earlier) (count.next node.kind)

namespace Counted

variable {first between last : NodeCount} {nodes later : List ArenaNode}

theorem append (h : Counted first nodes between) (h' : Counted between later last) :
    Counted first (later ++ nodes) last := by
  induction h' with
  | nil => exact h
  | node _ hid ih => exact .node ih hid

/-- The numbers of a kind, in order. -/
theorem ids_eq (h : Counted first nodes last) (kind : NodeKind) : first.of kind ≤ last.of kind ∧
    ((nodes.filter (·.kind = kind)).map ArenaNode.id).reverse =
      List.range' (first.of kind) (last.of kind - first.of kind) := by
  induction h with
  | nil => simp
  | @node node earlier count _ hid ih =>
      obtain ⟨hle, hids⟩ := ih
      rw [NodeCount.of_next]
      by_cases hkind : node.kind = kind
      · subst hkind
        have hlast : count.of node.kind + 1 - first.of node.kind =
            count.of node.kind - first.of node.kind + 1 := by omega
        rw [List.filter_cons_of_pos (by simp), if_pos rfl, List.map_cons, List.reverse_cons, hids, hid,
          hlast, List.range'_concat]
        exact ⟨by omega, by simp; omega⟩
      · rw [List.filter_cons_of_neg (by simpa using hkind), if_neg hkind]
        exact ⟨hle, hids⟩

theorem lt_of_mem (h : Counted first nodes last) {node : ArenaNode} (hnode : node ∈ nodes) :
    node.id < last.of node.kind := by
  obtain ⟨hle, hids⟩ := h.ids_eq node.kind
  have hmem : node.id ∈ ((nodes.filter (·.kind = node.kind)).map ArenaNode.id).reverse :=
    List.mem_reverse.mpr (List.mem_map_of_mem (List.mem_filter.mpr ⟨hnode, by simp⟩))
  rw [hids, List.mem_range'_1] at hmem
  omega

/-- No two nodes share their kind and number. -/
theorem nodup (h : Counted first nodes last) : (nodes.map ArenaNode.key).Nodup := by
  induction h with
  | nil => exact List.nodup_nil
  | @node node earlier count h hid ih =>
      refine List.nodup_cons.mpr ⟨fun hmem => ?_, ih⟩
      obtain ⟨other, hother, hkey⟩ := List.mem_map.mp hmem
      obtain ⟨hkind, hsame⟩ := NodeKey.node.inj hkey
      have hlt := h.lt_of_mem hother
      rw [hkind, hsame, hid] at hlt
      exact Nat.lt_irrefl _ hlt

end Counted

/-- What is added to an arena, with `trees` at hand at the end. Every reference, and every tree at
hand, is to a node of its own. -/
structure Grown (before : Ast) (trees : List ArenaNode) (after : Ast) (added : List ArenaNode) :
    Prop where
  arena : after.arena = added ++ before.arena
  numbers : Counted before.nodes added after.nodes
  back : RefersBack added
  distinct : List.Subperm (added.flatMap ArenaNode.refs ++ trees) added

/-- No node is left over: each is a tree at hand, or another node refers to it. -/
def UsesAll (added trees : List ArenaNode) : Prop :=
  (added.flatMap ArenaNode.refs ++ trees).Perm added

/-- References and trees of two runs. -/
theorem refs_append_perm (added added' trees trees' : List ArenaNode) :
    ((added' ++ added).flatMap ArenaNode.refs ++ (trees ++ trees')).Perm
      ((added'.flatMap ArenaNode.refs ++ trees') ++ (added.flatMap ArenaNode.refs ++ trees)) := by
  rw [List.flatMap_append, List.append_assoc, List.append_assoc]
  refine .append_left _ ?_
  rw [← List.append_assoc]
  exact List.perm_append_comm

/-- References and trees when a node is made of the trees at hand. -/
theorem refs_cons_perm (node : ArenaNode) (added : List ArenaNode) :
    ((node :: added).flatMap ArenaNode.refs ++ [node]).Perm
      (node :: (added.flatMap ArenaNode.refs ++ node.refs)) := by
  rw [List.flatMap_cons]
  exact (List.perm_append_singleton _ _).trans (List.perm_append_comm.cons _)

theorem UsesAll.append {added added' trees trees' : List ArenaNode} (h : UsesAll added trees)
    (h' : UsesAll added' trees') : UsesAll (added' ++ added) (trees ++ trees') :=
  (refs_append_perm added added' trees trees').trans (List.Perm.append h' h)

namespace Grown

variable {ast ast₁ ast₂ : Ast} {trees trees' added added' : List ArenaNode}

theorem refl (ast : Ast) : Grown ast [] ast [] := ⟨rfl, .nil, trivial, .refl _⟩

theorem trans (h : Grown ast trees ast₁ added) (h' : Grown ast₁ trees' ast₂ added') :
    Grown ast (trees ++ trees') ast₂ (added' ++ added) where
  arena := by rw [h'.arena, h.arena, List.append_assoc]
  numbers := h.numbers.append h'.numbers
  back := h'.back.append h.back
  distinct := (refs_append_perm added added' trees trees').subperm_right.mpr
    (h'.distinct.append h.distinct)

theorem drop (h : Grown ast trees ast₁ added) : Grown ast [] ast₁ added where
  arena := h.arena
  numbers := h.numbers
  back := h.back
  distinct := by
    rw [List.append_nil]
    exact (List.sublist_append_left _ _).subperm.trans h.distinct

/-- A node is completed from the trees at hand. -/
theorem node {node : ArenaNode} (h : Grown ast node.refs ast₁ added)
    (hid : node.id = ast₁.nodes.of node.kind) :
    Grown ast [node] ⟨ast₁.nodes.next node.kind, node :: ast₁.arena⟩ (node :: added) where
  arena := by rw [List.cons_append, ← h.arena]
  numbers := .node h.numbers hid
  back := ⟨fun _ href => h.distinct.subset (List.mem_append_right _ href), h.back⟩
  distinct := (refs_cons_perm node added).subperm_right.mpr ((List.subperm_cons node).mpr h.distinct)

end Grown

def ParseState.ast (s : ParseState) : Ast := ⟨s.nodes, s.arena⟩

/-- From one state to another the arena grows by a forest, with `trees` at hand. Without an error
nothing else was added. -/
structure Grows (s : ParseState) (trees : List ArenaNode) (s' : ParseState) : Prop where
  kept : s.errors ≠ [] → s'.errors ≠ []
  explained : s'.Explained
  grown : ∃ added, Grown s.ast trees s'.ast added ∧ (s'.errors = [] → UsesAll added trees)

namespace Grows

variable {s s₁ s₂ : ParseState} {trees trees' : List ArenaNode}

theorem refl (h : s.Explained) : Grows s [] s := ⟨id, h, [], .refl s.ast, fun _ => .refl _⟩

/-- Trees of a run and then those of the run behind it. -/
theorem trans (h : Grows s trees s₁) (h' : Grows s₁ trees' s₂) : Grows s (trees ++ trees') s₂ := by
  obtain ⟨added, hgrown, huses⟩ := h.grown
  obtain ⟨added', hgrown', huses'⟩ := h'.grown
  refine ⟨fun herrors => h'.kept (h.kept herrors), h'.explained, added' ++ added, hgrown.trans hgrown',
    fun herrors => ?_⟩
  have hbefore : s₁.errors = [] := by
    by_contra hne
    exact h'.kept hne herrors
  exact (huses hbefore).append (huses' herrors)

/-- After an error a tree may be dropped. -/
theorem drop (h : Grows s trees s₁) (herrors : s₁.errors ≠ []) : Grows s [] s₁ := by
  obtain ⟨added, hgrown, -⟩ := h.grown
  exact ⟨h.kept, h.explained, added, hgrown.drop, fun hnone => absurd hnone herrors⟩

/-- A move that completes no node. -/
theorem move (h : Grows s trees s₁) (harena : s₂.arena = s₁.arena) (hnodes : s₂.nodes = s₁.nodes)
    (hkept : s₁.errors ≠ [] → s₂.errors ≠ []) (hexplained : s₂.Explained) : Grows s trees s₂ := by
  obtain ⟨added, hgrown, huses⟩ := h.grown
  have hast : s₂.ast = s₁.ast := by rw [ParseState.ast, ParseState.ast, harena, hnodes]
  refine ⟨fun herrors => hkept (h.kept herrors), hexplained, added, hast ▸ hgrown, fun herrors => huses ?_⟩
  by_contra hne
  exact hkept hne herrors

/-- A node is completed from the trees at hand. -/
theorem node (node : ArenaNode) (h : Grows s node.refs s₁) (hid : node.id = s₁.nodes.of node.kind) :
    Grows s [node] { s₁ with nodes := s₁.nodes.next node.kind, arena := node :: s₁.arena } := by
  obtain ⟨added, hgrown, huses⟩ := h.grown
  exact ⟨h.kept, h.explained, node :: added, hgrown.node hid, fun herrors =>
    (refs_cons_perm node added).trans (List.Perm.cons node (huses herrors))⟩

end Grows

end Stela
