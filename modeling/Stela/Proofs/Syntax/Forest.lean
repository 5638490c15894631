import Mathlib.Logic.Relation
import Stela.Proofs.Syntax.Allocation

/-!
# The forest of a session

Whatever texts are parsed one after the other, also such that are not accepted, the arena is a
forest: a node refers to earlier nodes only, and to no node refer two. A node never changes once it
is in the arena. Only a text that is not accepted leaves nodes that nothing refers to.
-/

namespace Stela

/-- A text that is parsed: the source of a module, or a type. -/
inductive SourceText where
  | module (source : String) (file : FileId) (defaultName : String)
  | type (source : String) (file : FileId)
deriving Repr

namespace SourceText

/-- Parses a text behind others. An accepted text hands on the declarations in the list of its
module, or its type. -/
def parse : SourceText → Ast → Except ParseFailure (List ArenaNode) × Ast
  | module source file defaultName, ast =>
    let (result, ast) := Ast.parse (Parse.moduleDecl file defaultName) source file ast
    (result.map fun m => m.decls.map .decl, ast)
  | type source file, ast =>
    let (result, ast) := Ast.parse Parse.wholeType source file ast
    (result.map fun type => [.type type], ast)

end SourceText

/-- The nodes of texts, and what the accepted ones among the texts hand on. -/
structure Parsed where
  ast : Ast := {}
  roots : List ArenaNode := []
deriving Repr

def Parsed.add (parsed : Parsed) (text : SourceText) : Parsed :=
  let (result, ast) := text.parse parsed.ast
  ⟨ast, parsed.roots ++ result.toOption.getD []⟩

/-- Texts are parsed one after the other, from an empty arena on. -/
def parseTexts (texts : List SourceText) : Parsed := texts.foldl Parsed.add {}

/-! ## One text -/

variable {α : Type}

/-- Of a run that is settled, the trees of an accepted text are kept. -/
theorem exists_grown_settle {s : ParseState} {ast : Ast} {trees : α → List ArenaNode}
    {result : ParseResult α} (hast : s.ast = ast)
    (h : result.Within (Parse.wasted s) fun value s' => Grows s (trees value) s') :
    ∃ added, Grown ast (((result.settle ast).1.map trees).toOption.getD []) (result.settle ast).2 added ∧
      ∀ value, (result.settle ast).1 = .ok value → UsesAll added (trees value) := by
  subst hast
  cases result with
  | ok value s' =>
      obtain ⟨added, hgrown, huses⟩ := Grows.grown h
      unfold ParseResult.settle
      dsimp only
      split
      · next herrors =>
        refine ⟨added, hgrown, fun value' hvalue => ?_⟩
        cases hvalue
        exact huses (by simpa using herrors)
      · exact ⟨added, hgrown.drop, nofun⟩
  | failed s' =>
      obtain ⟨hgrows, -⟩ : Grows s [] s' ∧ s'.errors ≠ [] := h
      obtain ⟨added, hgrown, -⟩ := hgrows.grown
      exact ⟨added, hgrown, nofun⟩
  | spent => exact ⟨[], .refl _, nofun⟩

/-- A text makes the arena grow, and an accepted text leaves no node over. -/
theorem exists_grown_parse {parser : Nat → Parse α} {trees : α → List ArenaNode}
    (h : ∀ bound, Parse.Allocates (parser bound) trees) (source : String) (file : FileId) (ast : Ast) :
    ∃ added, Grown ast (((Ast.parse parser source file ast).1.map trees).toOption.getD [])
        (Ast.parse parser source file ast).2 added ∧
      ∀ value, (Ast.parse parser source file ast).1 = .ok value → UsesAll added (trees value) := by
  let s : ParseState := { ParseState.start (lex source file) ast.nodes with arena := ast.arena }
  have hast : s.ast = ast := by
    show (⟨(ParseState.start (lex source file) ast.nodes).nodes, ast.arena⟩ : Ast) = ast
    rw [ParseState.nodes_start]
  exact exists_grown_settle hast (h s.stepBound s (ParseState.explained_start (lex source file) ast.nodes))

theorem SourceText.exists_grown (text : SourceText) (ast : Ast) :
    ∃ added, Grown ast ((text.parse ast).1.toOption.getD []) (text.parse ast).2 added := by
  cases text with
  | module source file defaultName =>
      obtain ⟨added, hgrown, -⟩ :=
        exists_grown_parse (Parse.allocates_moduleDecl file defaultName) source file ast
      exact ⟨added, hgrown⟩
  | type source file =>
      obtain ⟨added, hgrown, -⟩ := exists_grown_parse Parse.allocates_wholeType source file ast
      exact ⟨added, hgrown⟩

/-! ## All texts -/

/-- One text more adds to the forest. -/
theorem Parsed.grown_add {parsed : Parsed} (h : Grown {} parsed.roots parsed.ast parsed.ast.arena)
    (text : SourceText) :
    Grown {} (parsed.add text).roots (parsed.add text).ast (parsed.add text).ast.arena := by
  obtain ⟨added, hadded⟩ := text.exists_grown parsed.ast
  have hall := h.trans hadded
  rw [← hadded.arena] at hall
  exact hall

theorem grown_parseTexts (texts : List SourceText) :
    Grown {} (parseTexts texts).roots (parseTexts texts).ast (parseTexts texts).ast.arena := by
  have hrun (parsed : Parsed) (h : Grown {} parsed.roots parsed.ast parsed.ast.arena) :
      Grown {} (texts.foldl Parsed.add parsed).roots (texts.foldl Parsed.add parsed).ast
        (texts.foldl Parsed.add parsed).ast.arena := by
    induction texts generalizing parsed with
    | nil => exact h
    | cons text rest ih => exact ih _ (Parsed.grown_add h text)
  exact hrun {} (.refl {})

/-! ## Where the nodes hang -/

/-- In a forest without nodes that are left over, each node hangs below a tree at hand. -/
theorem Grown.reaches {ast : Ast} {trees : List ArenaNode} (h : Grown {} trees ast ast.arena)
    (huses : UsesAll ast.arena trees) : ∀ node ∈ ast.arena, ∃ root ∈ trees,
      Relation.ReflTransGen (fun node ref => ref ∈ node.refs) root node := by
  have hdistinct : ast.arena.Nodup := h.numbers.nodup.of_map
  -- By induction on how many nodes are later, because a node is referred to by later ones only.
  have hlater (n : Nat) : ∀ later node earlier, later.length = n → ast.arena = later ++ node :: earlier →
      ∃ root ∈ trees, Relation.ReflTransGen (fun node ref => ref ∈ node.refs) root node := by
    induction n using Nat.strong_induction_on with
    | _ n ih =>
      intro later node earlier hlength hsplit
      have hmem : node ∈ ast.arena.flatMap ArenaNode.refs ++ trees :=
        huses.mem_iff.mpr (by simp [hsplit])
      rcases List.mem_append.mp hmem with href | hroot
      · obtain ⟨above, habove, href⟩ := List.mem_flatMap.mp href
        have hnot : node ∉ earlier := by
          rw [hsplit] at hdistinct
          exact (List.nodup_cons.mp hdistinct.of_append_right).1
        rw [hsplit] at habove
        rcases List.mem_append.mp habove with habove | habove
        · obtain ⟨first, between, rfl⟩ := List.append_of_mem habove
          obtain ⟨root, hroot, hreach⟩ := ih first.length (by simp [← hlength]) first above
            (between ++ node :: earlier) rfl (by simpa using hsplit)
          exact ⟨root, hroot, hreach.tail href⟩
        · rcases List.mem_cons.mp habove with rfl | habove
          · exact absurd (h.back.of_split hsplit _ href) hnot
          · obtain ⟨first, rest, rfl⟩ := List.append_of_mem habove
            have hsplit' : ast.arena = (later ++ node :: first) ++ above :: rest := by
              rw [hsplit, List.append_assoc, List.cons_append]
            have hrest := h.back.of_split hsplit' _ href
            exact absurd (List.mem_append_right _ (List.mem_cons_of_mem _ hrest)) hnot
      · exact ⟨node, hroot, .refl⟩
  intro node hnode
  obtain ⟨later, earlier, hsplit⟩ := List.append_of_mem hnode
  exact hlater later.length later node earlier rfl hsplit

/-- The arena is a forest, whatever texts were parsed into it, and texts only ever add to it. -/
theorem parsing_grows_forest :
    (∀ (texts : List SourceText) (kind : NodeKind),
      (((parseTexts texts).ast.arena.filter (·.kind = kind)).map ArenaNode.id).reverse =
        List.range ((parseTexts texts).ast.nodes.of kind)) ∧
    (∀ texts later node earlier, (parseTexts texts).ast.arena = later ++ node :: earlier →
      ∀ ref ∈ node.refs, ref ∈ earlier) ∧
    (∀ texts, ((parseTexts texts).ast.arena.flatMap ArenaNode.refs ++ (parseTexts texts).roots ⊆
        (parseTexts texts).ast.arena) ∧
      (((parseTexts texts).ast.arena.flatMap ArenaNode.refs ++ (parseTexts texts).roots).map
        ArenaNode.key).Nodup) ∧
    (∀ (text : SourceText) (ast : Ast), ast.arena <:+ (text.parse ast).2.arena) ∧
    ∀ source file defaultName m, (parseModule source file defaultName {}).1 = .ok m →
      ∀ node ∈ (Ast.parse (Parse.moduleDecl file defaultName) source file {}).2.arena,
        ∃ decl ∈ m.decls, Relation.ReflTransGen (fun node ref => ref ∈ node.refs) (.decl decl) node := by
  refine ⟨fun texts kind => ?_, fun texts later node earlier hsplit => ?_, fun texts => ⟨?_, ?_⟩,
    fun text ast => ?_, fun source file defaultName m hm node hnode => ?_⟩
  · have hids := ((grown_parseTexts texts).numbers.ids_eq kind).2
    have hnone : ({} : NodeCount).of kind = 0 := by cases kind <;> rfl
    rwa [hnone, Nat.sub_zero, ← List.range_eq_range'] at hids
  · exact (grown_parseTexts texts).back.of_split hsplit
  · exact (grown_parseTexts texts).distinct.subset
  · obtain ⟨used, hperm, hsub⟩ := (grown_parseTexts texts).distinct
    exact (hperm.map _).nodup_iff.mp ((hsub.map _).nodup (grown_parseTexts texts).numbers.nodup)
  · obtain ⟨added, hgrown⟩ := text.exists_grown ast
    exact ⟨added, hgrown.arena.symm⟩
  · have hparse : (Ast.parse (Parse.moduleDecl file defaultName) source file {}).1 = .ok m := hm
    obtain ⟨added, hgrown, huses⟩ :=
      exists_grown_parse (Parse.allocates_moduleDecl file defaultName) source file {}
    have harena := hgrown.arena
    rw [List.append_nil] at harena
    subst harena
    have huses := huses m hparse
    rw [hparse] at hgrown
    obtain ⟨root, hroot, hreach⟩ := hgrown.reaches huses node hnode
    obtain ⟨decl, hdecl, rfl⟩ := List.mem_map.mp hroot
    exact ⟨decl, hdecl, hreach⟩

/-- A global, with and without the end of its declaration. -/
theorem parsing_grows_forest_global :
    (∃ m, (parseModule "let a=-b;" 0 "main" {}).1 = .ok m ∧
      ∀ node ∈ (Ast.parse (Parse.moduleDecl 0 "main") "let a=-b;" 0 {}).2.arena,
        ∃ decl ∈ m.decls, Relation.ReflTransGen (fun node ref => ref ∈ node.refs) (.decl decl) node) ∧
    ∃ node ref, (parseTexts [.module "let a=-b" 0 "main"]).ast.arena = [node, ref] ∧
      ref ∈ node.refs ∧ ref ∈ [ref] := by
  obtain ⟨-, hback, -, -, hreach⟩ := parsing_grows_forest
  constructor
  · have htokens : lex "let a=-b;" 0 = [⟨.kwLet, "let", ⟨0, 0, 3, 1, 1⟩⟩, ⟨.ident, "a", ⟨0, 4, 5, 1, 5⟩⟩,
        ⟨.eq, "=", ⟨0, 5, 6, 1, 6⟩⟩, ⟨.minus, "-", ⟨0, 6, 7, 1, 7⟩⟩, ⟨.ident, "b", ⟨0, 7, 8, 1, 8⟩⟩,
        ⟨.semi, ";", ⟨0, 8, 9, 1, 9⟩⟩, ⟨.eof, "", ⟨0, 9, 9, 1, 10⟩⟩] := by decide +kernel
    have hrun : ∃ m, (parseModule "let a=-b;" 0 "main" {}).1 = .ok m := by
      rw [parseModule, runParse_eq, htokens]
      exact ⟨_, rfl⟩
    obtain ⟨m, hm⟩ := hrun
    exact ⟨m, hm, hreach _ _ _ m hm⟩
  · have htokens : lex "let a=-b" 0 = [⟨.kwLet, "let", ⟨0, 0, 3, 1, 1⟩⟩, ⟨.ident, "a", ⟨0, 4, 5, 1, 5⟩⟩,
        ⟨.eq, "=", ⟨0, 5, 6, 1, 6⟩⟩, ⟨.minus, "-", ⟨0, 6, 7, 1, 7⟩⟩, ⟨.ident, "b", ⟨0, 7, 8, 1, 8⟩⟩,
        ⟨.eof, "", ⟨0, 8, 8, 1, 9⟩⟩] := by decide +kernel
    have harena : ∃ node ref, (parseTexts [.module "let a=-b" 0 "main"]).ast.arena = [node, ref] ∧
        ref ∈ node.refs := by
      simp only [parseTexts, List.foldl, Parsed.add, SourceText.parse, Ast.parse, htokens]
      exact ⟨_, _, rfl, List.mem_singleton_self _⟩
    obtain ⟨node, ref, harena, href⟩ := harena
    exact ⟨node, ref, harena, href, hback _ [] node [ref] harena ref href⟩

end Stela
