import Stela.Proofs.Scopes.Visibility

/-!
# The history of a scope graph

Operations on a scope graph may come in any order: scopes of every kind are entered wherever the
cursor is, and the cursor is moved to any scope that exists. What a scope binds a name to is a
matter of the history alone, the symbols that were bound there under the name in the order in which
this succeeded. A binding that is rejected changes nothing. One that succeeds adds its symbol to one
of these lists, changes nothing else, and names the symbol that was found outside before.
-/

namespace Stela.ScopeGraph

variable {g g' : ScopeGraph} {scope : ScopeId} {row : Row} {conflicts : SymbolId → Bool}
  {hidden : Option SymbolId} {name : String}

/-! ## Operations -/

/-- An operation on a scope graph. -/
inductive Operation where
  | enter (kind : ScopeKind) (owner : Option SymbolId)
  | leave
  | setCursor (scope : ScopeId)
  | setOwner (scope : ScopeId) (owner : SymbolId)
  | insert (row : Row) (conflicts : SymbolId → Bool)

namespace Operation

/-- The operation is about a scope that exists. -/
def Legal (g : ScopeGraph) : Operation → Prop
  | .setCursor scope => scope < g.size
  | .setOwner scope _ => scope < g.size
  | .enter .. | .leave | .insert .. => True

/-- The graph after the operation. -/
def run (g : ScopeGraph) : Operation → ScopeGraph
  | .enter kind owner => g.enter kind owner
  | .leave => g.leave
  | .setCursor scope => g.setCursor scope
  | .setOwner scope owner => g.setOwner scope owner
  | .insert row conflicts =>
    match g.insert row conflicts with
    | .ok (_, g') => g'
    | .error _ => g

/-- The binding that the operation makes, and where. -/
def bound (g : ScopeGraph) : Operation → List (ScopeId × Row)
  | .insert row conflicts =>
    match g.insert row conflicts with
    | .ok _ => [(g.cursor, row)]
    | .error _ => []
  | .enter .. | .leave | .setCursor _ | .setOwner .. => []

end Operation

/-- Each of the operations is about scopes that exist when its turn comes. -/
def Legal : ScopeGraph → List Operation → Prop
  | _, [] => True
  | g, op :: rest => op.Legal g ∧ Legal (op.run g) rest

/-- The graph after operations. -/
def run (g : ScopeGraph) (ops : List Operation) : ScopeGraph := ops.foldl Operation.run g

/-- The bindings that operations make, in order. -/
def history : ScopeGraph → List Operation → List (ScopeId × Row)
  | _, [] => []
  | g, op :: rest => op.bound g ++ history (op.run g) rest

/-- The symbols that a history has for a name in a scope. -/
def recorded (log : List (ScopeId × Row)) (scope : ScopeId) (name : String) : List SymbolId :=
  (log.filter fun p => p.1 == scope && p.2.name == name).map fun p => p.2.symbol

/-- The first symbol that a search finds outside the current scope. -/
def outside? (g : ScopeGraph) (name : String) : Option SymbolId := do
  let parent ← g.lookupParent? g.cursor
  let found ← g.lookup parent name
  found.2.head?

/-- The second graph differs in one binding at the cursor. -/
structure Binds (g : ScopeGraph) (row : Row) (g' : ScopeGraph) : Prop where
  cursor : g'.cursor = g.cursor
  size : g'.size = g.size
  kinds : ∀ scope, g'.kind? scope = g.kind? scope
  parents : ∀ scope, g'.parent? scope = g.parent? scope
  owners : ∀ scope, g'.owner? scope = g.owner? scope
  /-- The binding stands behind the others of its scope. -/
  rows : g'.rows g.cursor = g.rows g.cursor ++ [row]
  others : ∀ scope ≠ g.cursor, g'.get? scope = g.get? scope
  entries : g'.entries g.cursor row.name = g.entries g.cursor row.name ++ [row.symbol]
  same : ∀ scope name, scope ≠ g.cursor ∨ name ≠ row.name → g'.entries scope name = g.entries scope name

/-- How names are bound at the cursor. -/
structure Inserts (g : ScopeGraph) : Prop where
  /-- A binding is rejected if it conflicts with one of its name, the first of which is the error. -/
  rejected : ∀ row conflicts clash, g.insert row conflicts = .error clash ↔ ∃ before after,
    g.entries g.cursor row.name = before ++ clash :: after ∧ conflicts clash = true ∧
      ∀ old ∈ before, conflicts old = false
  unchanged : ∀ row conflicts clash, g.insert row conflicts = .error clash →
    (Operation.insert row conflicts).run g = g
  accepted : ∀ row conflicts, (∃ hidden g', g.insert row conflicts = .ok (hidden, g')) ↔
    ∀ old ∈ g.entries g.cursor row.name, conflicts old = false
  binds : ∀ row conflicts hidden g', g.insert row conflicts = .ok (hidden, g') → g.Binds row g'
  /-- What is hidden is found outside, both before and after. -/
  hides : ∀ row conflicts hidden g', g.insert row conflicts = .ok (hidden, g') →
    g.kind? g.cursor ≠ some .structScope → g.kind? g.cursor ≠ some .enumScope →
      hidden = g.outside? row.name ∧ hidden = g'.outside? row.name
  /-- Members and cases hide nothing. -/
  member : ∀ row conflicts hidden g', g.insert row conflicts = .ok (hidden, g') →
    g.kind? g.cursor = some .structScope ∨ g.kind? g.cursor = some .enumScope → hidden = none

/-! ## Graphs of any shape -/

/-- Parents have smaller numbers, and the cursor is at a scope. -/
structure Ordered (g : ScopeGraph) : Prop where
  parents : ∀ scope parent, g.parent? scope = some parent → parent < scope
  cursor : g.cursor < g.size

theorem Sound.ordered (hg : g.Sound) : g.Ordered := ⟨hg.parents, hg.cursor⟩

/-- A walk downwards does not rise above its start. -/
theorem le_of_mem_walk {next : ScopeId → Option ScopeId} (hnext : ∀ s p, next s = some p → p < s)
    (n : Nat) {start : ScopeId} (h : scope ∈ walk next n start) : scope ≤ start := by
  induction n generalizing start with
  | zero => cases h
  | succ n ih =>
      rw [walk] at h
      rcases List.mem_cons.mp h with rfl | h
      · exact Nat.le_refl scope
      · cases hp : next start with
        | none => simp [hp] at h
        | some following =>
            rw [hp] at h
            exact Nat.le_trans (ih h) (Nat.le_of_lt (hnext start following hp))

/-- A search goes down too, although it may leave out scopes. -/
theorem Ordered.lookupParent?_lt (hg : g.Ordered) :
    ∀ scope next, g.lookupParent? scope = some next → next < scope := by
  intro scope next h
  unfold lookupParent? at h
  cases hparent : g.parent? scope with
  | none => simp [hparent] at h
  | some parent =>
      have hlt := hg.parents scope parent hparent
      simp only [hparent] at h
      split at h
      · have hle := le_of_mem_walk hg.parents g.size (List.mem_of_find?_eq_some h)
        exact Nat.lt_of_le_of_lt hle hlt
      · exact Option.some.inj h ▸ hlt

theorem Ordered.searchPath_eq (hg : g.Ordered) (hscope : scope < g.size) :
    g.searchPath scope = scope :: ((g.lookupParent? scope).map g.searchPath).getD [] :=
  walk_eq hg.lookupParent?_lt hscope

/-! ## A binding -/

section

/-- The graph with one more binding at the cursor. -/
def withRow (g : ScopeGraph) (row : Row) : ScopeGraph :=
  { g with scopes := g.scopes.modify g.cursor fun s => { s with rows := s.rows ++ [row] } }

theorem get?_withRow : (g.withRow row).get? scope = if g.cursor = scope then
    (g.get? scope).map fun s => { s with rows := s.rows ++ [row] } else g.get? scope :=
  Array.getElem?_modify

theorem get?_withRow_ne (h : scope ≠ g.cursor) : (g.withRow row).get? scope = g.get? scope := by
  rw [get?_withRow, if_neg fun heq => h heq.symm]

/-- What the rows have no part in is as before. -/
theorem bind_get?_withRow {α : Type} {f : Scope → Option α}
    (hf : ∀ s rows, f { s with rows := rows } = f s) :
    ((g.withRow row).get? scope).bind f = (g.get? scope).bind f := by
  rw [get?_withRow]
  split
  · cases g.get? scope with
    | none => rfl
    | some s => exact hf s _
  · rfl

theorem kind?_withRow : (g.withRow row).kind? scope = g.kind? scope := by
  rw [kind?, kind?, Option.map_eq_bind, Option.map_eq_bind]
  exact bind_get?_withRow fun _ _ => rfl

theorem parent?_withRow : (g.withRow row).parent? scope = g.parent? scope :=
  bind_get?_withRow fun _ _ => rfl

theorem owner?_withRow : (g.withRow row).owner? scope = g.owner? scope :=
  bind_get?_withRow fun _ _ => rfl

theorem size_withRow : (g.withRow row).size = g.size := Array.size_modify

theorem rows_withRow (hg : g.Ordered) : (g.withRow row).rows g.cursor = g.rows g.cursor ++ [row] := by
  obtain ⟨s, hs⟩ : ∃ s, g.get? g.cursor = some s := ⟨_, Array.getElem?_eq_getElem hg.cursor⟩
  rw [rows, rows, get?_withRow, if_pos rfl, hs]
  rfl

theorem entries_withRow (hg : g.Ordered) (scope : ScopeId) (name : String) :
    (g.withRow row).entries scope name =
      g.entries scope name ++ if scope = g.cursor ∧ name = row.name then [row.symbol] else [] := by
  rw [entries_eq_rows, entries_eq_rows]
  by_cases hscope : scope = g.cursor
  · subst hscope
    rw [rows_withRow hg, List.filter_append, List.map_append]
    by_cases hname : name = row.name
    · simp [hname]
    · have hne : row.name ≠ name := fun heq => hname heq.symm
      simp [hname, hne]
  · rw [rows, rows, get?_withRow_ne hscope]
    simp [hscope]

theorem binds_withRow (hg : g.Ordered) : g.Binds row (g.withRow row) where
  cursor := rfl
  size := size_withRow
  kinds _ := kind?_withRow
  parents _ := parent?_withRow
  owners _ := owner?_withRow
  rows := rows_withRow hg
  others _ := get?_withRow_ne
  entries := by rw [entries_withRow hg, if_pos ⟨rfl, rfl⟩]
  same scope name h := by
    rw [entries_withRow hg, if_neg, List.append_nil]
    rintro ⟨hscope, hname⟩
    exact h.elim (· hscope) (· hname)

end

theorem Binds.lookupParent? (h : g.Binds row g') : g'.lookupParent? = g.lookupParent? := by
  have hpath (scope : ScopeId) : g'.path scope = g.path scope := by
    rw [path, path, funext h.parents, h.size]
  have hspace : g'.isNamespace = g.isNamespace := funext fun s => by
    rw [isNamespace, isNamespace, h.kinds]
  funext scope
  unfold ScopeGraph.lookupParent?
  simp only [h.parents, h.kinds, hpath, hspace]

/-- A search outside the current scope does not see the binding. -/
theorem Binds.outside? (h : g.Binds row g') (hg : g.Ordered) (name : String) :
    g'.outside? name = g.outside? name := by
  unfold ScopeGraph.outside?
  rw [h.lookupParent?, h.cursor]
  cases hparent : g.lookupParent? g.cursor with
  | none => rfl
  | some parent =>
      have hlookup : g'.lookup parent name = g.lookup parent name := by
        have hpath : g'.searchPath parent = g.searchPath parent := by
          rw [searchPath, searchPath, h.lookupParent?, h.size]
        rw [lookup, lookup, hpath, ← List.head?_filterMap, ← List.head?_filterMap]
        refine congrArg List.head? (List.filterMap_congr fun s hs => ?_)
        have hle := le_of_mem_walk hg.lookupParent?_lt g.size hs
        have hlt := Nat.lt_of_le_of_lt hle (hg.lookupParent?_lt _ _ hparent)
        rw [h.same s name (.inl (Nat.ne_of_lt hlt))]
      simp only [Option.bind_eq_bind, Option.bind_some, hlookup]

/-! ## Insertion -/

theorem insert_eq_error_iff {clash : SymbolId} : g.insert row conflicts = .error clash ↔
    (g.entries g.cursor row.name).find? conflicts = some clash := by
  unfold insert
  split
  · next found hfound =>
    rw [hfound]
    simp
  · next hnone => simp [hnone]

/-- A binding succeeds if nothing of its name is flagged. -/
theorem insert_eq_ok_iff : g.insert row conflicts = .ok (hidden, g') ↔
    (g.entries g.cursor row.name).find? conflicts = none ∧ g' = g.withRow row ∧
      hidden = match g.kind? g.cursor with
        | some .structScope | some .enumScope => none
        | _ => (g.withRow row).outside? row.name := by
  unfold insert
  cases (g.entries g.cursor row.name).find? conflicts with
  | some clash => simp
  | none =>
      simp only [Except.ok.injEq, Prod.mk.injEq, true_and]
      constructor
      · rintro ⟨rfl, rfl⟩
        exact ⟨rfl, rfl⟩
      · rintro ⟨rfl, rfl⟩
        exact ⟨rfl, rfl⟩

theorem Ordered.inserts (hg : g.Ordered) : g.Inserts where
  rejected row conflicts clash := by
    rw [insert_eq_error_iff, List.find?_eq_some_iff_append]
    constructor
    · rintro ⟨hflagged, before, after, heq, hbefore⟩
      exact ⟨before, after, heq, hflagged, fun old hold => by simpa using hbefore old hold⟩
    · rintro ⟨before, after, heq, hflagged, hbefore⟩
      exact ⟨hflagged, before, after, heq, fun old hold => by simpa using hbefore old hold⟩
  unchanged row conflicts clash h := by
    rw [Operation.run, h]
  accepted row conflicts := by
    constructor
    · rintro ⟨hidden, g', h⟩ old hold
      simpa using List.find?_eq_none.mp (insert_eq_ok_iff.mp h).1 old hold
    · intro hfree
      have hnone : (g.entries g.cursor row.name).find? conflicts = none :=
        List.find?_eq_none.mpr fun old hold => by simp [hfree old hold]
      exact ⟨_, _, insert_eq_ok_iff.mpr ⟨hnone, rfl, rfl⟩⟩
  binds row conflicts hidden g' h := by
    obtain ⟨-, rfl, -⟩ := insert_eq_ok_iff.mp h
    exact binds_withRow hg
  hides row conflicts hidden g' h hstruct henum := by
    obtain ⟨-, rfl, rfl⟩ := insert_eq_ok_iff.mp h
    have hbinds : g.Binds row (g.withRow row) := binds_withRow hg
    have houtside := hbinds.outside? hg row.name
    split
    · next hkind => exact absurd hkind hstruct
    · next hkind => exact absurd hkind henum
    · exact ⟨houtside, rfl⟩
  member row conflicts hidden g' h hkind := by
    obtain ⟨-, -, rfl⟩ := insert_eq_ok_iff.mp h
    rcases hkind with hkind | hkind <;> rw [hkind]

/-! ## Runs -/

theorem Ordered.enter (hg : g.Ordered) (kind : ScopeKind) (owner : Option SymbolId) :
    (g.enter kind owner).Ordered := by
  refine ⟨fun scope parent h => ?_, lt_size_enter⟩
  rw [parent?, get?_enter] at h
  split at h
  · next heq =>
    obtain rfl := Option.some.inj h
    exact heq ▸ hg.cursor
  · exact hg.parents scope parent h

theorem Ordered.leave (hg : g.Ordered) : g.leave.Ordered := by
  refine ⟨hg.parents, ?_⟩
  show (g.parent? g.cursor).getD g.cursor < g.size
  cases hparent : g.parent? g.cursor with
  | none => exact hg.cursor
  | some parent => exact Nat.lt_trans (hg.parents _ _ hparent) hg.cursor

theorem Ordered.setOwner (hg : g.Ordered) (scope : ScopeId) (owner : SymbolId) :
    (g.setOwner scope owner).Ordered := by
  have hgrows : g.Grows (g.setOwner scope owner) := grows_setOwner.1
  refine ⟨fun other parent h => ?_, Nat.lt_of_lt_of_eq hg.cursor size_setOwner.symm⟩
  have hlt := Nat.lt_of_lt_of_eq (lt_size_of_parent? h) size_setOwner
  exact hg.parents other parent ((hgrows.parents other hlt).symm.trans h)

theorem Binds.ordered (h : g.Binds row g') (hg : g.Ordered) : g'.Ordered :=
  ⟨fun scope parent hparent => hg.parents scope parent ((h.parents scope).symm.trans hparent),
    by rw [h.cursor, h.size]; exact hg.cursor⟩

/-- What one operation does to the order of scopes and to what names are bound to. -/
theorem Ordered.operation (hg : g.Ordered) {op : Operation} (hop : op.Legal g) :
    (op.run g).Ordered ∧ ∀ scope name, (op.run g).entries scope name =
      g.entries scope name ++ recorded (op.bound g) scope name := by
  cases op with
  | enter kind owner =>
      refine ⟨hg.enter kind owner, fun scope name => ?_⟩
      show (g.enter kind owner).entries scope name = _
      rw [entries_eq_rows, entries_eq_rows, rows_enter]
      exact (List.append_nil _).symm
  | leave => exact ⟨hg.leave, fun scope name => (List.append_nil _).symm⟩
  | setCursor scope => exact ⟨⟨hg.parents, hop⟩, fun scope name => (List.append_nil _).symm⟩
  | setOwner scope owner =>
      exact ⟨hg.setOwner scope owner,
        fun other name => entries_setOwner.trans (List.append_nil _).symm⟩
  | insert row conflicts =>
      cases hinsert : g.insert row conflicts with
      | error clash =>
          simp only [Operation.run, Operation.bound, hinsert]
          exact ⟨hg, fun scope name => (List.append_nil _).symm⟩
      | ok result =>
          obtain ⟨-, hresult, -⟩ := insert_eq_ok_iff.mp hinsert
          simp only [Operation.run, Operation.bound, hinsert, hresult]
          refine ⟨(binds_withRow hg).ordered hg, fun scope name => ?_⟩
          rw [entries_withRow hg]
          by_cases hscope : scope = g.cursor
          · by_cases hname : name = row.name
            · simp [recorded, hscope, hname]
            · have hne : row.name ≠ name := fun heq => hname heq.symm
              simp [recorded, hname, hne]
          · have hne : g.cursor ≠ scope := fun heq => hscope heq.symm
            simp [recorded, hscope, hne]

theorem recorded_append {log log' : List (ScopeId × Row)} :
    recorded (log ++ log') scope name = recorded log scope name ++ recorded log' scope name := by
  rw [recorded, List.filter_append, List.map_append]
  rfl

/-- What names are bound to grows with the history, by induction on the operations. -/
theorem Ordered.run (hg : g.Ordered) {ops : List Operation} (hops : g.Legal ops) :
    (g.run ops).Ordered ∧ ∀ scope name, (g.run ops).entries scope name =
      g.entries scope name ++ recorded (g.history ops) scope name := by
  induction ops generalizing g with
  | nil => exact ⟨hg, fun scope name => (List.append_nil _).symm⟩
  | cons op rest ih =>
      obtain ⟨hop, hrest⟩ := hops
      obtain ⟨hordered, hentries⟩ := hg.operation hop
      obtain ⟨hordered', hentries'⟩ := ih hordered hrest
      refine ⟨hordered', fun scope name => ?_⟩
      calc (ScopeGraph.run (op.run g) rest).entries scope name
          = (op.run g).entries scope name ++ recorded (history (op.run g) rest) scope name :=
            hentries' scope name
        _ = g.entries scope name ++ (recorded (op.bound g) scope name ++
              recorded (history (op.run g) rest) scope name) := by
            rw [hentries, List.append_assoc]
        _ = g.entries scope name ++ recorded (history g (op :: rest)) scope name := by
            rw [history, recorded_append]

/-- In a graph that operations have built, a name is bound to what the history has for it. -/
theorem entries_run_initial {ops : List Operation} (hops : initial.Legal ops) (scope : ScopeId)
    (name : String) : (initial.run ops).entries scope name = recorded (initial.history ops) scope name := by
  have hentries := (sound_initial.ordered.run hops).2 scope name
  rw [hentries, entries_eq_rows, rows_initial]
  rfl

/-- The third binding is rejected, the fourth one hides the first. -/
example : (initial.run [.insert ⟨"f", 1, .everyone, false⟩ fun _ => false,
    .insert ⟨"f", 2, .everyone, false⟩ fun _ => false, .insert ⟨"f", 3, .everyone, false⟩ (· == 2),
    .enter .block none, .insert ⟨"f", 4, .everyone, false⟩ fun _ => true]).gather 1 "f" = [4, 1, 2] := by
  decide

end Stela.ScopeGraph
