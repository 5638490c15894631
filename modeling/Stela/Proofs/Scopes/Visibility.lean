import Mathlib.Data.List.Basic
import Stela.Proofs.Scopes

/-!
# What is visible from a scope

However a scope graph is built from its root, every scope but the root has a parent, and
parents have smaller numbers. So a path and a search end at the root, not at the bound of the
walk. A search from inside a function follows the path as far as the innermost function and
goes on with the namespaces around it, which hides the locals of every other body around the
function. A search from anywhere else follows the whole path.
-/

namespace Stela.ScopeGraph

/-- The graphs that are built from the root. The cursor may be moved to any scope; a namespace is only
entered when the cursor is at a namespace. A rejected binding changes nothing. -/
inductive Built : ScopeGraph → Prop
  | initial : Built .initial
  | enter {g : ScopeGraph} {kind : ScopeKind} {owner : Option SymbolId} (h : Built g)
      (hkind : kind = .namespaceScope → g.isNamespace g.cursor = true) : Built (g.enter kind owner)
  | leave {g : ScopeGraph} (h : Built g) : Built g.leave
  | setCursor {g : ScopeGraph} {scope : ScopeId} (h : Built g) (hscope : scope < g.size) :
      Built (g.setCursor scope)
  | setOwner {g : ScopeGraph} {scope : ScopeId} {owner : SymbolId} (h : Built g) :
      Built (g.setOwner scope owner)
  | insert {g g' : ScopeGraph} {hidden : Option SymbolId} (row : Row) (conflicts : SymbolId → Bool)
      (h : Built g) (hinsert : g.insert row conflicts = .ok (hidden, g')) : Built g'

/-- The scopes form a tree under the root, in which every walk ends. -/
structure Rooted (g : ScopeGraph) : Prop where
  parents : ∀ scope parent, g.parent? scope = some parent → parent < scope
  root : ∀ scope < g.size, g.parent? scope = none ↔ scope = ScopeGraph.root
  /-- A search goes on from every scope but the root, and to a scope with a smaller number. -/
  search : ∀ scope < g.size, scope ≠ ScopeGraph.root →
    ∃ next < scope, g.lookupParent? scope = some next
  /-- A path is over only where there is no parent. -/
  paths : ∀ scope < g.size, g.path scope = scope :: ((g.parent? scope).map g.path).getD []
  /-- A search is over only where there is no scope to go on with. -/
  searches : ∀ scope < g.size,
    g.searchPath scope = scope :: ((g.lookupParent? scope).map g.searchPath).getD []

/-- Names are looked up from the scope in these scopes, in this order. -/
structure SearchesAlong (g : ScopeGraph) (scope : ScopeId) (scopes : List ScopeId) : Prop where
  /-- The first of the scopes that binds the name decides what it means. -/
  lookup : ∀ name found, g.lookup scope name = some found ↔ ∃ before after,
    scopes = before ++ found.1 :: after ∧ (∀ s ∈ before, g.entries s name = []) ∧
      g.entries found.1 name = found.2 ∧ found.2 ≠ []
  gather : ∀ name, g.gather scope name = scopes.flatMap fun s => g.entries s name

/-- What is visible from a scope: `inner` are the scopes on the way to the innermost function around
it, and `outer` those around that function. -/
structure Hides (g : ScopeGraph) (scope : ScopeId) : Prop where
  inside : ∀ inner function outer, g.path scope = inner ++ function :: outer →
    g.kind? function = some .function → (∀ s ∈ inner, g.kind? s ≠ some .function) →
    g.SearchesAlong scope (inner ++ function :: outer.filter g.isNamespace)
  outside : (∀ s ∈ g.path scope, g.kind? s ≠ some .function) → g.SearchesAlong scope (g.path scope)

/-! ## The tree of scopes -/

variable {g g' : ScopeGraph} {scope function : ScopeId}

theorem isNamespace_iff : g.isNamespace scope = true ↔ g.kind? scope = some .namespaceScope :=
  beq_iff_eq

theorem size_setOwner {owner : SymbolId} : (g.setOwner scope owner).size = g.size := Array.size_modify

theorem size_insert {row : Row} {conflicts : SymbolId → Bool} {hidden : Option SymbolId}
    (h : g.insert row conflicts = .ok (hidden, g')) : g'.size = g.size := by
  unfold insert at h
  split at h
  · cases h
  · obtain ⟨-, rfl⟩ := Prod.mk.inj (Except.ok.inj h)
    exact Array.size_modify

theorem Built.sound (h : g.Built) : g.Sound := by
  induction h with
  | initial => exact sound_initial
  | enter _ hkind ih => exact ih.enter fun heq => isNamespace_iff.mp (hkind heq)
  | leave _ ih => exact ih.leave
  | setCursor _ hscope ih => exact ih.setCursor hscope
  | setOwner _ ih => exact grows_setOwner.2 ih
  | insert _ _ _ hinsert ih => exact (grows_insert hinsert).2.1 ih

/-- A graph with as many scopes has the same parents. -/
theorem exists_parent_of_grows (hgrows : g.Grows g') (hsize : g'.size = g.size)
    (h : ∀ scope < g.size, scope ≠ root → ∃ parent, g.parent? scope = some parent) :
    ∀ scope < g'.size, scope ≠ root → ∃ parent, g'.parent? scope = some parent := by
  intro scope hscope hne
  rw [hsize] at hscope
  rw [hgrows.parents scope hscope]
  exact h scope hscope hne

/-- Every scope but the root has a parent. -/
theorem Built.exists_parent (h : g.Built) :
    ∀ scope < g.size, scope ≠ root → ∃ parent, g.parent? scope = some parent := by
  induction h with
  | initial =>
      intro scope hscope hne
      exact absurd (Nat.lt_one_iff.mp hscope) hne
  | @enter g kind owner h hkind ih =>
      intro scope hscope hne
      rw [size_enter] at hscope
      rcases Nat.lt_succ_iff_lt_or_eq.mp hscope with hlt | rfl
      · rw [grows_enter.parents scope hlt]
        exact ih scope hlt hne
      · exact ⟨g.cursor, parent?_enter_self⟩
  | leave _ ih => exact exists_parent_of_grows grows_leave rfl ih
  | setCursor _ _ ih => exact exists_parent_of_grows grows_setCursor rfl ih
  | setOwner _ ih => exact exists_parent_of_grows grows_setOwner.1 size_setOwner ih
  | insert _ _ _ hinsert ih =>
      exact exists_parent_of_grows (grows_insert hinsert).1 (size_insert hinsert) ih

theorem parent?_root (hg : g.Sound) : g.parent? root = none := by
  cases hparent : g.parent? root with
  | none => rfl
  | some parent => exact absurd (hg.parents root parent hparent) (Nat.not_lt_zero parent)

/-! ## Steps of a search -/

/-- A path goes down. -/
theorem le_of_mem_path (hg : g.Sound) (hscope : scope < g.size) {s : ScopeId} (hs : s ∈ g.path scope) :
    s ≤ scope := by
  induction scope using Nat.strongRecOn with
  | ind scope ih =>
      rw [path_eq hg hscope] at hs
      cases hparent : g.parent? scope with
      | none =>
          rw [hparent] at hs
          exact Nat.le_of_eq (List.mem_singleton.mp hs)
      | some parent =>
          rw [hparent] at hs
          have hlt := hg.parents scope parent hparent
          rcases List.mem_cons.mp hs with rfl | hs
          · exact Nat.le_refl s
          · exact Nat.le_trans (ih parent hlt (Nat.lt_trans hlt hscope) hs) (Nat.le_of_lt hlt)

/-- A path leads to the root. -/
theorem Built.root_mem_path (h : g.Built) (hscope : scope < g.size) : root ∈ g.path scope := by
  induction scope using Nat.strongRecOn with
  | ind scope ih =>
      by_cases hroot : scope = root
      · exact hroot ▸ self_mem_path h.sound hscope
      · obtain ⟨parent, hparent⟩ := h.exists_parent scope hscope hroot
        have hlt := h.sound.parents scope parent hparent
        exact mem_path_of_parent h.sound hparent (ih parent hlt (Nat.lt_trans hlt hscope))

theorem lookupParent?_of_function {parent : ScopeId} (hkind : g.kind? scope = some .function)
    (hparent : g.parent? scope = some parent) :
    g.lookupParent? scope = (g.path parent).find? g.isNamespace := by
  simp [lookupParent?, hparent, hkind]

theorem lookupParent?_of_ne (hkind : g.kind? scope ≠ some .function) :
    g.lookupParent? scope = g.parent? scope := by
  unfold lookupParent?
  cases g.parent? scope with
  | none => rfl
  | some parent => exact if_neg (by simpa using hkind)

theorem lookupParent?_lt (hg : g.Sound) {next : ScopeId} (h : g.lookupParent? scope = some next) :
    next < scope := by
  by_cases hkind : g.kind? scope = some .function
  · cases hparent : g.parent? scope with
    | none => simp [lookupParent?, hparent] at h
    | some parent =>
        rw [lookupParent?_of_function hkind hparent] at h
        have hlt := hg.parents scope parent hparent
        have hle := le_of_mem_path hg (Nat.lt_trans hlt (lt_size_of_parent? hparent))
          (List.mem_of_find?_eq_some h)
        exact Nat.lt_of_le_of_lt hle hlt
  · rw [lookupParent?_of_ne hkind] at h
    exact hg.parents scope next h

theorem searchPath_eq (hg : g.Sound) (hscope : scope < g.size) :
    g.searchPath scope = scope :: ((g.lookupParent? scope).map g.searchPath).getD [] :=
  walk_eq (fun _ _ => lookupParent?_lt hg) hscope

theorem Built.rooted (h : g.Built) : g.Rooted where
  parents := h.sound.parents
  root scope hscope := by
    constructor
    · intro hnone
      by_contra hne
      obtain ⟨parent, hparent⟩ := h.exists_parent scope hscope hne
      simp [hnone] at hparent
    · rintro rfl
      exact parent?_root h.sound
  search scope hscope hne := by
    obtain ⟨parent, hparent⟩ := h.exists_parent scope hscope hne
    have hnext : ∃ next, g.lookupParent? scope = some next := by
      by_cases hkind : g.kind? scope = some .function
      · rw [lookupParent?_of_function hkind hparent]
        have hlt := Nat.lt_trans (h.sound.parents scope parent hparent) hscope
        exact Option.isSome_iff_exists.mp (List.find?_isSome.mpr
          ⟨_, h.root_mem_path hlt, isNamespace_iff.mpr h.sound.root⟩)
      · exact ⟨parent, (lookupParent?_of_ne hkind).trans hparent⟩
    obtain ⟨next, hnext⟩ := hnext
    exact ⟨next, lookupParent?_lt h.sound hnext, hnext⟩
  paths _ := path_eq h.sound
  searches _ := searchPath_eq h.sound

/-! ## The scopes of a search -/

/-- What is left of a path when the locals around its first function are hidden. -/
def visible (g : ScopeGraph) : List ScopeId → List ScopeId
  | [] => []
  | scope :: around =>
    scope :: if g.kind? scope = some .function then around.filter g.isNamespace else g.visible around

theorem visible_function {inner outer : List ScopeId} (hfunction : g.kind? function = some .function)
    (hinner : ∀ s ∈ inner, g.kind? s ≠ some .function) :
    g.visible (inner ++ function :: outer) = inner ++ function :: outer.filter g.isNamespace := by
  induction inner with
  | nil => exact congrArg _ (if_pos hfunction)
  | cons s rest ih =>
      obtain ⟨hs, hrest⟩ := List.forall_mem_cons.mp hinner
      rw [List.cons_append, visible, if_neg hs, ih hrest]
      rfl

theorem visible_of_no_function {path : List ScopeId} (h : ∀ s ∈ path, g.kind? s ≠ some .function) :
    g.visible path = path := by
  induction path with
  | nil => rfl
  | cons s rest ih =>
      obtain ⟨hs, hrest⟩ := List.forall_mem_cons.mp h
      rw [visible, if_neg hs, ih hrest]

/-- Around a namespace there are namespaces only. -/
theorem isNamespace_of_mem_path (hg : g.Sound) (hscope : scope < g.size)
    (hspace : g.isNamespace scope = true) : ∀ s ∈ g.path scope, g.isNamespace s = true := by
  induction scope using Nat.strongRecOn with
  | ind scope ih =>
      rw [path_eq hg hscope]
      refine List.forall_mem_cons.mpr ⟨hspace, ?_⟩
      cases hparent : g.parent? scope with
      | none => exact List.forall_mem_nil _
      | some parent =>
          have hlt := hg.parents scope parent hparent
          exact ih parent hlt (Nat.lt_trans hlt hscope)
            (isNamespace_iff.mpr (hg.namespaces scope parent (isNamespace_iff.mp hspace) hparent))

/-- The namespaces on a path are what lies around the first of them. -/
theorem filter_path_eq (hg : g.Sound) (hscope : scope < g.size) {space : ScopeId}
    (h : (g.path scope).find? g.isNamespace = some space) :
    (g.path scope).filter g.isNamespace = g.path space := by
  induction scope using Nat.strongRecOn with
  | ind scope ih =>
      by_cases hspace : g.isNamespace scope = true
      · have hall := isNamespace_of_mem_path hg hscope hspace
        rw [path_eq hg hscope, List.find?_cons_of_pos hspace] at h
        obtain rfl := Option.some.inj h
        exact List.filter_eq_self.mpr hall
      · rw [path_eq hg hscope, List.find?_cons_of_neg hspace] at h
        rw [path_eq hg hscope, List.filter_cons_of_neg hspace]
        cases hparent : g.parent? scope with
        | none => simp [hparent] at h
        | some parent =>
            rw [hparent] at h
            have hlt := hg.parents scope parent hparent
            exact ih parent hlt (Nat.lt_trans hlt hscope) h

/-- A search goes through what is visible on the path of the scope. -/
theorem Built.searchPath_eq_visible (h : g.Built) (hscope : scope < g.size) :
    g.searchPath scope = g.visible (g.path scope) := by
  induction scope using Nat.strongRecOn with
  | ind scope ih =>
      have hg := h.sound
      rw [searchPath_eq hg hscope, path_eq hg hscope, visible]
      refine congrArg _ ?_
      cases hparent : g.parent? scope with
      | none => simp [lookupParent?, hparent, visible]
      | some parent =>
          have hlt := hg.parents scope parent hparent
          have hsize := Nat.lt_trans hlt hscope
          by_cases hkind : g.kind? scope = some .function
          · obtain ⟨space, -, hspace⟩ := h.rooted.search scope hscope fun hroot => by
              rw [hroot, parent?_root hg] at hparent
              cases hparent
            have hfound := (lookupParent?_of_function hkind hparent).symm.trans hspace
            have hmem := List.mem_of_find?_eq_some hfound
            have hlt' := Nat.lt_of_le_of_lt (le_of_mem_path hg hsize hmem) hlt
            have hall := isNamespace_of_mem_path hg (Nat.lt_trans hlt' hscope) (List.find?_some hfound)
            -- Around the namespace there is no function any more, so the search follows its path.
            have hfree : ∀ s ∈ g.path space, g.kind? s ≠ some .function := fun s hs => by
              simp [isNamespace_iff.mp (hall s hs)]
            rw [if_pos hkind, hspace, Option.map_some, Option.getD_some,
              ih space hlt' (Nat.lt_trans hlt' hscope), visible_of_no_function hfree]
            exact (filter_path_eq hg hsize hfound).symm
          · rw [if_neg hkind, lookupParent?_of_ne hkind, hparent]
            exact ih parent hlt hsize

/-- Both ways to look up a name follow the search. -/
theorem searchesAlong_searchPath : g.SearchesAlong scope (g.searchPath scope) where
  lookup name found := by
    rw [lookup, List.findSome?_eq_some_iff]
    constructor
    · rintro ⟨before, s, after, hpath, hfound, hbefore⟩
      split at hfound
      · cases hfound
      · next hne =>
        obtain rfl := Option.some.inj hfound
        refine ⟨before, after, hpath, fun t ht => ?_, rfl, fun hnil => hne hnil⟩
        have hnone := hbefore t ht
        split at hnone
        · assumption
        · cases hnone
    · rintro ⟨before, after, hpath, hbefore, hfound, hne⟩
      refine ⟨before, found.1, after, hpath, ?_, fun t ht => by rw [hbefore t ht]⟩
      split
      · next hnil => exact absurd (hfound.symm.trans hnil) hne
      · rw [hfound]
  gather _ := rfl

theorem Built.hides (h : g.Built) (hscope : scope < g.size) : g.Hides scope where
  inside inner function outer hpath hfunction hinner := by
    rw [← visible_function hfunction hinner, ← hpath, ← h.searchPath_eq_visible hscope]
    exact searchesAlong_searchPath
  outside hpath := by
    have hall := visible_of_no_function hpath
    rw [← h.searchPath_eq_visible hscope] at hall
    exact hall ▸ searchesAlong_searchPath

/-- A named function never sees the locals of the bodies around it, however the graph was built: every
walk in it ends, and a search from inside a function leaves it for the namespaces around it. -/
theorem hides_enclosing_locals (g : ScopeGraph) (h : g.Built) :
    g.Rooted ∧ ∀ scope < g.size, g.Hides scope := ⟨h.rooted, fun _ => h.hides⟩

/-- A function that binds a name, with a nested function and a closure. -/
def nested : ScopeGraph :=
  let outer := (initial.enter .namespaceScope none).enter .function none
  match outer.insert ⟨"x", 1, .everyone, false⟩ fun _ => true with
  | .ok (_, bound) => ((bound.enter .function none).leave).enter .closure none
  | .error _ => outer

theorem nested_hides : nested.Rooted ∧ (∀ scope < nested.size, nested.Hides scope) ∧
    nested.lookup 3 "x" = none ∧ nested.lookup 4 "x" = some (2, [1]) := by
  have hmodule : (initial.enter .namespaceScope none).Built := .enter .initial fun _ => by decide
  have houter : ((initial.enter .namespaceScope none).enter .function none).Built := hmodule.enter nofun
  have hnested : nested.Built :=
    .enter (.leave (.enter (.insert ⟨"x", 1, .everyone, false⟩ (fun _ => true) houter rfl) nofun)) nofun
  obtain ⟨hrooted, hhides⟩ := hides_enclosing_locals nested hnested
  exact ⟨hrooted, hhides, by decide, by decide⟩

end Stela.ScopeGraph
