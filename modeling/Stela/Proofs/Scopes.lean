import Stela.Scope

/-!
# Growth of the scope graph

Scopes are never removed and never moved to another parent. So the path from a
scope to the root is the same in every later graph, and so is the answer to
whether one scope lies in another. A search that starts in the body of a
function goes through scopes of that body and through namespaces.
-/

namespace Stela.ScopeGraph

variable {g g' g'' : ScopeGraph} {scope ancestor : ScopeId}

/-- The parent of a scope has a smaller number, the cursor is at a scope, and what is around a
namespace is a namespace. -/
structure Sound (g : ScopeGraph) : Prop where
  parents : ∀ scope parent, g.parent? scope = some parent → parent < scope
  cursor : g.cursor < g.size
  root : g.kind? root = some .namespaceScope
  namespaces : ∀ scope parent, g.kind? scope = some .namespaceScope → g.parent? scope = some parent →
    g.kind? parent = some .namespaceScope

/-- The first graph is a part of the second. -/
structure Grows (g g' : ScopeGraph) : Prop where
  size : g.size ≤ g'.size
  kinds : ∀ scope < g.size, g'.kind? scope = g.kind? scope
  parents : ∀ scope < g.size, g'.parent? scope = g.parent? scope

theorem lt_size_of_get? {s : Scope} (h : g.get? scope = some s) : scope < g.size :=
  (Array.getElem?_eq_some_iff.mp h).1

theorem isSome_get? (h : scope < g.size) : (g.get? scope).isSome :=
  Option.isSome_iff_exists.mpr ⟨_, Array.getElem?_eq_getElem h⟩

theorem lt_size_of_parent? {parent : ScopeId} (h : g.parent? scope = some parent) :
    scope < g.size := by
  obtain ⟨s, hs, -⟩ := Option.bind_eq_some_iff.mp h
  exact lt_size_of_get? hs

theorem Grows.refl (g : ScopeGraph) : g.Grows g := ⟨Nat.le_refl _, fun _ _ => rfl, fun _ _ => rfl⟩

theorem Grows.trans (h : g.Grows g') (h' : g'.Grows g'') : g.Grows g'' :=
  ⟨Nat.le_trans h.size h'.size,
    fun scope hlt => (h'.kinds scope (Nat.lt_of_lt_of_le hlt h.size)).trans (h.kinds scope hlt),
    fun scope hlt => (h'.parents scope (Nat.lt_of_lt_of_le hlt h.size)).trans (h.parents scope hlt)⟩

/-! ## Paths -/

/-- A walk downwards does not depend on its bound. -/
theorem walk_congr {next next' : ScopeId → Option ScopeId}
    (hnext : ∀ s p, next s = some p → p < s) {n m : Nat} (hn : scope < n) (hm : scope < m)
    (hsame : ∀ s ≤ scope, next' s = next s) : walk next' m scope = walk next n scope := by
  induction n generalizing m scope with
  | zero => exact absurd hn (Nat.not_lt_zero _)
  | succ n ih =>
      cases m with
      | zero => exact absurd hm (Nat.not_lt_zero _)
      | succ m =>
          rw [walk, walk, hsame scope (Nat.le_refl _)]
          cases hp : next scope with
          | none => rfl
          | some parent =>
              have hlt := hnext scope parent hp
              have hrest := ih (Nat.lt_of_lt_of_le hlt (Nat.le_of_lt_succ hn))
                (Nat.lt_of_lt_of_le hlt (Nat.le_of_lt_succ hm))
                fun s hs => hsame s (Nat.le_of_lt (Nat.lt_of_le_of_lt hs hlt))
              exact congrArg _ hrest

/-- A walk downwards whose bound is large enough goes on with the walk from the next scope. -/
theorem walk_eq {next : ScopeId → Option ScopeId} (hnext : ∀ s p, next s = some p → p < s) {n : Nat}
    (hn : scope < n) : walk next n scope = scope :: ((next scope).map (walk next n)).getD [] := by
  obtain ⟨m, rfl⟩ := Nat.exists_eq_succ_of_ne_zero (Nat.ne_zero_of_lt hn)
  rw [walk]
  cases hp : next scope with
  | none => rfl
  | some parent =>
      have hlt := hnext scope parent hp
      have hle := Nat.lt_of_lt_of_le hlt (Nat.le_of_lt_succ hn)
      exact congrArg _ (walk_congr hnext (Nat.lt_trans hlt hn) hle fun _ _ => rfl)

/-- The path that is read scope by scope is the path. -/
theorem walk_of_pathWithin? {bound : Nat} {path : List ScopeId} (h : g.pathWithin? bound scope = some path) :
    walk g.parent? bound scope = path := by
  induction bound generalizing scope path with
  | zero => cases h
  | succ bound ih =>
      rw [pathWithin?] at h
      obtain ⟨s, hs, h⟩ := Option.bind_eq_some_iff.mp h
      rw [walk, parent?, hs, Option.bind_some]
      split at h
      · obtain ⟨rest, hrest, h⟩ := Option.bind_eq_some_iff.mp h
        rw [ih hrest]
        exact Option.some.inj h
      · exact Option.some.inj h

theorem path_of_path? {path : List ScopeId} (h : g.path? scope = some path) : g.path scope = path :=
  walk_of_pathWithin? h

/-- The path from a scope is all there, by induction on the bound: parents have lesser numbers. -/
theorem exists_path? (hparents : ∀ scope parent, g.parent? scope = some parent → parent < scope)
    (hscope : scope < g.size) : ∃ path, g.path? scope = some path := by
  suffices h : ∀ bound scope, scope < bound → scope < g.size →
      ∃ path, g.pathWithin? bound scope = some path from h _ scope hscope hscope
  intro bound
  induction bound with
  | zero => exact fun scope hbound => absurd hbound (Nat.not_lt_zero scope)
  | succ bound ih =>
      intro scope hbound hscope
      obtain ⟨entry, hentry⟩ : ∃ entry, g.get? scope = some entry := ⟨_, Array.getElem?_eq_getElem hscope⟩
      simp only [pathWithin?, hentry, Option.bind_eq_bind, Option.bind_some]
      cases hparent : entry.parent with
      | none => exact ⟨_, rfl⟩
      | some parent =>
          have hlt : parent < scope := hparents scope parent (by rw [parent?, hentry, Option.bind_some, hparent])
          obtain ⟨path, hpath⟩ := ih parent (Nat.lt_of_lt_of_le hlt (Nat.le_of_lt_succ hbound))
            (Nat.lt_trans hlt hscope)
          exact ⟨scope :: path, by simp only [hpath, Option.bind_some]; rfl⟩

/-- The path from a scope goes on from its parent. -/
theorem path_eq (hg : g.Sound) (hscope : scope < g.size) :
    g.path scope = scope :: ((g.parent? scope).map g.path).getD [] := walk_eq hg.parents hscope

/-- What lies around a scope is on its path. -/
theorem mem_path_of_parent (hg : g.Sound) {parent : ScopeId} (h : g.parent? scope = some parent)
    (hmem : ancestor ∈ g.path parent) : ancestor ∈ g.path scope := by
  rw [path_eq hg (lt_size_of_parent? h), h]
  exact List.mem_cons_of_mem _ hmem

theorem self_mem_path (hg : g.Sound) (hscope : scope < g.size) : scope ∈ g.path scope := by
  rw [path_eq hg hscope]
  exact List.mem_cons_self

/-- What lies around an ancestor of a scope lies around the scope. -/
theorem mem_path_trans (hg : g.Sound) {outer : ScopeId} (hscope : scope < g.size)
    (hancestor : ancestor ∈ g.path scope) (houter : outer ∈ g.path ancestor) :
    outer ∈ g.path scope := by
  induction scope using Nat.strongRecOn with
  | ind scope ih =>
      rw [path_eq hg hscope] at hancestor
      rcases List.mem_cons.mp hancestor with rfl | hrest
      · exact houter
      · cases hparent : g.parent? scope with
        | none => simp [hparent] at hrest
        | some parent =>
            rw [hparent] at hrest
            have hlt := hg.parents scope parent hparent
            exact mem_path_of_parent hg hparent (ih parent hlt (Nat.lt_trans hlt hscope) hrest)

theorem isWithin_iff : g.isWithin scope ancestor = true ↔ ancestor ∈ g.path scope :=
  List.contains_iff_mem

theorem path_of_grows (hg : g.Sound) (h : g.Grows g') (hscope : scope < g.size) :
    g'.path scope = g.path scope :=
  walk_congr hg.parents hscope (Nat.lt_of_lt_of_le hscope h.size)
    fun s hs => h.parents s (Nat.lt_of_le_of_lt hs hscope)

/-- Whether a scope lies in another one does not change. -/
theorem isWithin_of_grows (hg : g.Sound) (h : g.Grows g') (hscope : scope < g.size) :
    g'.isWithin scope ancestor = g.isWithin scope ancestor := by
  rw [isWithin, isWithin, path_of_grows hg h hscope]

/-! ## Operations -/

section

variable {kind : ScopeKind} {owner : Option SymbolId}

theorem get?_enter : (g.enter kind owner).get? scope =
    if scope = g.size then some ⟨kind, some g.cursor, owner, []⟩ else g.get? scope :=
  Array.getElem?_push

theorem get?_enter_lt (hscope : scope < g.size) : (g.enter kind owner).get? scope = g.get? scope := by
  rw [get?_enter, if_neg (Nat.ne_of_lt hscope)]

@[simp] theorem size_enter : (g.enter kind owner).size = g.size + 1 := Array.size_push _

theorem lt_size_enter : g.size < (g.enter kind owner).size :=
  Nat.lt_of_lt_of_eq (Nat.lt_succ_self _) size_enter.symm

@[simp] theorem cursor_enter : (g.enter kind owner).cursor = g.size := rfl

theorem kind?_enter_self : (g.enter kind owner).kind? g.size = some kind := by
  rw [kind?, get?_enter, if_pos rfl]
  rfl

theorem grows_enter : g.Grows (g.enter kind owner) :=
  ⟨Nat.le_of_lt (by simp), fun scope hlt => by rw [kind?, kind?, get?_enter_lt hlt],
    fun scope hlt => by rw [parent?, parent?, get?_enter_lt hlt]⟩

/-- A namespace is entered from a namespace. -/
theorem Sound.enter (hg : g.Sound)
    (hkind : kind = .namespaceScope → g.kind? g.cursor = some .namespaceScope) :
    (g.enter kind owner).Sound := by
  have hgrows : g.Grows (g.enter kind owner) := grows_enter
  have hinv {scope parent : ScopeId} (h : (g.enter kind owner).parent? scope = some parent) :
      scope = g.size ∧ parent = g.cursor ∨ scope < g.size ∧ g.parent? scope = some parent := by
    rw [parent?, get?_enter] at h
    split at h
    · next heq => exact .inl ⟨heq, (Option.some.inj h).symm⟩
    · exact .inr ⟨lt_size_of_parent? h, h⟩
  refine ⟨fun scope parent h => ?_, by simp, ?_, fun scope parent hspace h => ?_⟩
  · rcases hinv h with ⟨rfl, rfl⟩ | ⟨-, h⟩
    · exact hg.cursor
    · exact hg.parents scope parent h
  · rw [hgrows.kinds ScopeGraph.root (Nat.zero_lt_of_lt hg.cursor)]
    exact hg.root
  · rcases hinv h with ⟨rfl, rfl⟩ | ⟨hlt, h⟩
    · rw [hgrows.kinds _ hg.cursor]
      exact hkind (Option.some.inj (kind?_enter_self.symm.trans hspace))
    · rw [hgrows.kinds _ (Nat.lt_trans (hg.parents scope parent h) hlt)]
      rw [hgrows.kinds _ hlt] at hspace
      exact hg.namespaces scope parent hspace h

/-- The scope that was entered lies in the one that was current. -/
theorem parent?_enter_self : (g.enter kind owner).parent? g.size = some g.cursor := by
  rw [parent?, get?_enter, if_pos rfl]
  rfl

end

theorem grows_setCursor : g.Grows (g.setCursor scope) :=
  ⟨Nat.le_refl _, fun _ _ => rfl, fun _ _ => rfl⟩

theorem Sound.setCursor (hg : g.Sound) (hscope : scope < g.size) : (g.setCursor scope).Sound :=
  ⟨hg.parents, hscope, hg.root, hg.namespaces⟩

/-- A change to scopes that keeps their kinds and parents. -/
theorem grows_modify {f : Scope → Scope} (hkind : ∀ s, (f s).kind = s.kind)
    (hparent : ∀ s, (f s).parent = s.parent) :
    g.Grows { g with scopes := g.scopes.modify scope f } ∧
      (g.Sound → ScopeGraph.Sound { g with scopes := g.scopes.modify scope f }) := by
  have hget (other : ScopeId) : ScopeGraph.get? { g with scopes := g.scopes.modify scope f } other =
      if scope = other then (g.get? other).map f else g.get? other := Array.getElem?_modify
  have hkinds (other : ScopeId) :
      ScopeGraph.kind? { g with scopes := g.scopes.modify scope f } other = g.kind? other := by
    rw [kind?, kind?, hget]
    split
    · rw [Option.map_map]
      exact congrArg (fun f => (g.get? other).map f) (funext hkind)
    · rfl
  have hparents (other : ScopeId) :
      ScopeGraph.parent? { g with scopes := g.scopes.modify scope f } other = g.parent? other := by
    rw [parent?, parent?, hget]
    split
    · cases g.get? other with
      | none => rfl
      | some s => exact hparent s
    · rfl
  have hsize : ScopeGraph.size { g with scopes := g.scopes.modify scope f } = g.size :=
    Array.size_modify
  exact ⟨⟨Nat.le_of_eq hsize.symm, fun other _ => hkinds other, fun other _ => hparents other⟩,
    fun hg => ⟨fun other parent h => hg.parents other parent (hparents other ▸ h),
      show g.cursor < _ from hsize.symm ▸ hg.cursor, (hkinds _).trans hg.root,
      fun other parent hspace h => (hkinds _).trans
        (hg.namespaces other parent (hkinds other ▸ hspace) (hparents other ▸ h))⟩⟩

theorem grows_setOwner {owner : SymbolId} :
    g.Grows (g.setOwner scope owner) ∧ (g.Sound → (g.setOwner scope owner).Sound) :=
  grows_modify (fun _ => rfl) fun _ => rfl

theorem entries_setOwner {owner : SymbolId} {other : ScopeId} {name : String} :
    (g.setOwner scope owner).entries other name = g.entries other name := by
  have hget : (g.setOwner scope owner).get? other = if scope = other then
      (g.get? other).map fun s => { s with owner := some owner } else g.get? other :=
    Array.getElem?_modify
  rw [entries, entries, hget]
  by_cases heq : scope = other
  · rw [if_pos heq]
    cases g.get? other <;> rfl
  · rw [if_neg heq]

theorem grows_insert {row : Row} {conflicts : SymbolId → Bool} {hidden : Option SymbolId}
    (h : g.insert row conflicts = .ok (hidden, g')) :
    g.Grows g' ∧ (g.Sound → g'.Sound) ∧ g'.cursor = g.cursor := by
  unfold insert at h
  split at h
  · cases h
  · obtain ⟨-, rfl⟩ := Prod.mk.inj (Except.ok.inj h)
    obtain ⟨hgrows, hsound⟩ := @grows_modify g g.cursor
      (fun s => { s with rows := s.rows ++ [row] }) (fun _ => rfl) fun _ => rfl
    exact ⟨hgrows, hsound, rfl⟩

/-- A row adds its symbol to the current scope. -/
theorem mem_entries_insert {row : Row} {conflicts : SymbolId → Bool} {hidden : Option SymbolId}
    (h : g.insert row conflicts = .ok (hidden, g')) {name : String} {id : SymbolId}
    (hid : id ∈ g'.entries scope name) :
    id ∈ g.entries scope name ∨ scope = g.cursor ∧ name = row.name ∧ id = row.symbol := by
  unfold insert at h
  split at h
  · cases h
  · obtain ⟨-, rfl⟩ := Prod.mk.inj (Except.ok.inj h)
    have hget : ScopeGraph.get? { g with scopes := g.scopes.modify g.cursor fun s =>
        { s with rows := s.rows ++ [row] } } scope = if g.cursor = scope then
          (g.get? scope).map fun s => { s with rows := s.rows ++ [row] } else g.get? scope :=
      Array.getElem?_modify
    unfold entries at hid ⊢
    rw [hget] at hid
    split at hid
    · next s hs =>
      split at hs
      · next heq =>
        obtain ⟨old, hold, rfl⟩ := Option.map_eq_some_iff.mp hs
        simp only [Scope.entries, List.filter_append, List.map_append, List.mem_append] at hid
        rw [hold]
        rcases hid with hid | hid
        · exact .inl hid
        · obtain ⟨row', hrow', rfl⟩ := List.mem_map.mp hid
          obtain ⟨hmem, hname⟩ := List.mem_filter.mp hrow'
          obtain rfl := List.mem_singleton.mp hmem
          exact .inr ⟨heq.symm, (beq_iff_eq.mp hname).symm, rfl⟩
      · rw [hs]
        exact .inl hid
    · simp at hid

/-- A name that is free in the current scope can be bound there. -/
theorem insert_total {row : Row} (hfree : g.entries g.cursor row.name = [])
    (conflicts : SymbolId → Bool) : ∃ hidden g', g.insert row conflicts = .ok (hidden, g') := by
  unfold insert
  rw [hfree]
  exact ⟨_, _, rfl⟩

/-- What is hidden is bound to the name elsewhere. -/
theorem mem_entries_of_hidden {row : Row} {conflicts : SymbolId → Bool} {hidden : SymbolId}
    (h : g.insert row conflicts = .ok (some hidden, g')) :
    ∃ scope, hidden ∈ g'.entries scope row.name := by
  unfold insert at h
  split at h
  · cases h
  · obtain ⟨hhidden, rfl⟩ := Prod.mk.inj (Except.ok.inj h)
    split at hhidden
    · cases hhidden
    · cases hhidden
    · obtain ⟨parent, -, hfound⟩ := Option.bind_eq_some_iff.mp hhidden
      obtain ⟨⟨scope, found⟩, hlookup, hhead⟩ := Option.bind_eq_some_iff.mp hfound
      obtain ⟨s, -, hs⟩ := List.exists_of_findSome?_eq_some hlookup
      split at hs
      · cases hs
      · obtain ⟨rfl, rfl⟩ := Prod.mk.inj (Option.some.inj hs)
        exact ⟨s, List.mem_of_mem_head? hhead⟩

theorem lt_size_of_entries {name : String} {id : SymbolId} (h : id ∈ g.entries scope name) :
    scope < g.size := by
  unfold entries at h
  cases hget : g.get? scope with
  | none => simp [hget] at h
  | some s => exact lt_size_of_get? hget

/-- A scope that is entered binds no name. -/
theorem entries_enter {kind : ScopeKind} {owner : Option SymbolId} {name : String} {id : SymbolId}
    (h : id ∈ (g.enter kind owner).entries scope name) : id ∈ g.entries scope name := by
  unfold entries at h ⊢
  rw [get?_enter] at h
  split at h
  · next s hs =>
    split at hs
    · obtain rfl := Option.some.inj hs
      simp [Scope.entries] at h
    · rw [hs]
      exact h
  · simp at h

theorem cursor_leave (hg : g.Sound) : g.leave.cursor < g.size := by
  unfold leave
  cases hp : g.parent? g.cursor with
  | none => exact hg.cursor
  | some parent => exact Nat.lt_trans (hg.parents _ _ hp) hg.cursor

theorem Sound.leave (hg : g.Sound) : g.leave.Sound := hg.setCursor (cursor_leave hg)

theorem grows_leave : g.Grows g.leave := grows_setCursor

theorem sound_initial : initial.Sound := by
  have hparent (scope : ScopeId) : initial.parent? scope = none := by
    cases scope <;> simp [initial, parent?, get?]
  exact ⟨fun scope parent h => by simp [hparent] at h, by decide, rfl,
    fun scope parent _ h => by simp [hparent] at h⟩

/-! ## Static members -/

/-- The symbol is bound as a static member. -/
def Static (g : ScopeGraph) (id : SymbolId) : Prop :=
  ∃ scope entry row, g.get? scope = some entry ∧ row ∈ entry.rows ∧ row.isStatic = true ∧
    row.symbol = id

theorem static_of_mem_members {row : Row} (h : row ∈ g.members scope) (hstatic : row.isStatic = true) :
    g.Static row.symbol := by
  unfold members at h
  cases hentry : g.get? scope with
  | none => simp [hentry] at h
  | some entry =>
      rw [hentry] at h
      simp only [Option.map_some, Option.getD_some, Scope.members] at h
      split at h
      · exact ⟨scope, entry, row, hentry, h, hstatic, rfl⟩
      · simp at h

theorem static_enter {kind : ScopeKind} {owner : Option SymbolId} {id : SymbolId}
    (h : (g.enter kind owner).Static id) : g.Static id := by
  obtain ⟨scope, entry, row, hentry, hrow, hstatic, hid⟩ := h
  rw [get?_enter] at hentry
  split at hentry
  · obtain rfl := Option.some.inj hentry
    simp at hrow
  · exact ⟨scope, entry, row, hentry, hrow, hstatic, hid⟩

theorem static_setOwner {owner id : SymbolId} (h : (g.setOwner scope owner).Static id) :
    g.Static id := by
  obtain ⟨other, entry, row, hentry, hrow, hstatic, hid⟩ := h
  have hget : (g.setOwner scope owner).get? other = if scope = other then
      (g.get? other).map fun s => { s with owner := some owner } else g.get? other :=
    Array.getElem?_modify
  rw [hget] at hentry
  split at hentry
  · obtain ⟨old, hold, rfl⟩ := Option.map_eq_some_iff.mp hentry
    exact ⟨other, old, row, hold, hrow, hstatic, hid⟩
  · exact ⟨other, entry, row, hentry, hrow, hstatic, hid⟩

theorem static_insert {row : Row} {conflicts : SymbolId → Bool} {hidden : Option SymbolId}
    {id : SymbolId} (hinsert : g.insert row conflicts = .ok (hidden, g')) (h : g'.Static id) :
    g.Static id ∨ row.isStatic = true ∧ row.symbol = id := by
  unfold insert at hinsert
  split at hinsert
  · cases hinsert
  · obtain ⟨-, rfl⟩ := Prod.mk.inj (Except.ok.inj hinsert)
    obtain ⟨scope, entry, row', hentry, hrow, hstatic, hid⟩ := h
    have hget : ScopeGraph.get? { g with scopes := g.scopes.modify g.cursor fun s =>
        { s with rows := s.rows ++ [row] } } scope = if g.cursor = scope then
          (g.get? scope).map fun s => { s with rows := s.rows ++ [row] } else g.get? scope :=
      Array.getElem?_modify
    rw [hget] at hentry
    split at hentry
    · obtain ⟨old, hold, rfl⟩ := Option.map_eq_some_iff.mp hentry
      rcases List.mem_append.mp hrow with hrow | hrow
      · exact .inl ⟨scope, old, row', hold, hrow, hstatic, hid⟩
      · obtain rfl := List.mem_singleton.mp hrow
        exact .inr ⟨hstatic, hid⟩
    · exact .inl ⟨scope, entry, row', hentry, hrow, hstatic, hid⟩

theorem not_static_initial {id : SymbolId} : ¬ initial.Static id := by
  rintro ⟨scope, entry, row, hentry, hrow, -⟩
  cases scope <;> simp [initial, get?] at hentry
  simp [← hentry] at hrow

/-! ## Rows -/

/-- The bindings of a scope in the order of their insertion. -/
def rows (g : ScopeGraph) (scope : ScopeId) : List Row := ((g.get? scope).map Scope.rows).getD []

theorem entries_eq_rows {name : String} : g.entries scope name =
    ((g.rows scope).filter fun row => row.name == name).map Row.symbol := by
  unfold entries rows
  cases g.get? scope <;> rfl

@[simp] theorem rows_initial : initial.rows scope = [] := by
  cases scope <;> rfl

theorem rows_enter {kind : ScopeKind} {owner : Option SymbolId} :
    (g.enter kind owner).rows scope = g.rows scope := by
  rw [rows, rows, get?_enter]
  split
  · next heq =>
    have hnone : g.get? scope = none := Array.getElem?_eq_none (Nat.le_of_eq heq.symm)
    rw [hnone]
    rfl
  · rfl

theorem rows_setOwner {owner : SymbolId} {other : ScopeId} :
    (g.setOwner other owner).rows scope = g.rows scope := by
  have hget : (g.setOwner other owner).get? scope = if other = scope then
      (g.get? scope).map fun s => { s with owner := some owner } else g.get? scope :=
    Array.getElem?_modify
  rw [rows, rows, hget]
  split
  · cases g.get? scope <;> rfl
  · rfl

/-- At most one row is added to a scope, and only if it conflicts with none of its name there. -/
theorem rows_insert {row : Row} {conflicts : SymbolId → Bool} {hidden : Option SymbolId}
    (h : g.insert row conflicts = .ok (hidden, g')) (scope : ScopeId) :
    g'.rows scope = g.rows scope ∨ g'.rows scope = g.rows scope ++ [row] ∧
      ∀ old ∈ g.rows scope, old.name = row.name → conflicts old.symbol = false := by
  unfold insert at h
  split at h
  · cases h
  · next hfree =>
    obtain ⟨-, rfl⟩ := Prod.mk.inj (Except.ok.inj h)
    have hget : ScopeGraph.get? { g with scopes := g.scopes.modify g.cursor fun s =>
        { s with rows := s.rows ++ [row] } } scope = if g.cursor = scope then
          (g.get? scope).map fun s => { s with rows := s.rows ++ [row] } else g.get? scope :=
      Array.getElem?_modify
    simp only [rows, hget]
    split
    · next heq =>
      subst heq
      cases hscope : g.get? g.cursor with
      | none => exact .inl rfl
      | some s =>
          refine .inr ⟨rfl, fun old hold hname => ?_⟩
          have hmem : old.symbol ∈ g.entries g.cursor row.name := by
            rw [entries_eq_rows, rows, hscope]
            exact List.mem_map_of_mem (List.mem_filter.mpr ⟨hold, beq_iff_eq.mpr hname⟩)
          simpa using List.find?_eq_none.mp hfree old.symbol hmem
    · exact .inl rfl

/-! ## Searches -/

/-- A scope is reached from another one by going outwards, through neither functions nor
namespaces. -/
inductive Locally (g : ScopeGraph) (scope : ScopeId) : ScopeId → Prop
  | here : Locally g scope scope
  | inner {other parent} (hparent : g.parent? other = some parent)
    (hfunction : g.kind? other ≠ some .function)
    (hnamespace : g.kind? other ≠ some .namespaceScope) (h : Locally g scope parent) :
    Locally g scope other

theorem Locally.mem_path {other : ScopeId} (h : g.Locally scope other) (hg : g.Sound)
    (hscope : scope < g.size) : scope ∈ g.path other := by
  induction h with
  | here => exact self_mem_path hg hscope
  | inner hparent _ _ _ ih => exact mem_path_of_parent hg hparent ih

theorem Locally.mono {other : ScopeId} (h : g.Locally scope other) (hgrows : g.Grows g') :
    g'.Locally scope other := by
  induction h with
  | here => exact .here
  | inner hparent hfunction hnamespace _ ih =>
      have hlt := lt_size_of_parent? hparent
      exact .inner ((hgrows.parents _ hlt).trans hparent) (hgrows.kinds _ hlt ▸ hfunction)
        (hgrows.kinds _ hlt ▸ hnamespace) ih

/-- A search from the body of a function meets scopes in that function and namespaces. -/
theorem mem_searchPath (hg : g.Sound) {function : ScopeId} (hlt : function < g.size)
    (hkind : g.kind? function = some .function) {found : ScopeId}
    (h : g.Locally function scope) (hfound : found ∈ g.searchPath scope) :
    g.isWithin found function = true ∨ g.kind? found = some .namespaceScope := by
  have hwalk (bound : Nat) {start : ScopeId}
      (hstart : g.Locally function start ∨ g.kind? start = some .namespaceScope)
      (hmem : found ∈ walk g.lookupParent? bound start) :
      g.Locally function found ∨ g.kind? found = some .namespaceScope := by
    induction bound generalizing start with
    | zero => simp [walk] at hmem
    | succ bound ih =>
        rw [walk] at hmem
        rcases List.mem_cons.mp hmem with rfl | hmem
        · exact hstart
        · cases hnext : g.lookupParent? start with
          | none => simp [hnext] at hmem
          | some next =>
              simp only [hnext] at hmem
              refine ih ?_ hmem
              unfold lookupParent? at hnext
              cases hparent : g.parent? start with
              | none => simp [hparent] at hnext
              | some parent =>
                  simp only [hparent] at hnext
                  split at hnext
                  · have hspace := List.find?_some hnext
                    exact .inr (beq_iff_eq.mp hspace)
                  · next hnot =>
                    obtain rfl := Option.some.inj hnext
                    rcases hstart with hstart | hspace
                    · cases hstart with
                      | here => simp [hkind] at hnot
                      | inner hparent' _ _ h' =>
                          obtain rfl := Option.some.inj (hparent.symm.trans hparent')
                          exact .inl h'
                    · exact .inr (hg.namespaces start parent hspace hparent)
  rcases hwalk _ (.inl h) hfound with hlocal | hspace
  · exact .inl (isWithin_iff.mpr (hlocal.mem_path hg hlt))
  · exact .inr hspace

end Stela.ScopeGraph
