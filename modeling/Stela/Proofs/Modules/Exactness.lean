import Stela.Proofs.Modules.Imports

/-!
# Exactness of module orders

An order is found just if names are not repeated, imports name modules and no
module needs itself. In an order that is found every module stands behind all
that it needs; otherwise the error names what is wrong with the modules.
-/

namespace Stela

namespace ModuleOrder

variable {modules : List ModuleImports} {external : List String} {order order' : List Nat}

/-- The modules can be ordered at all. -/
structure Orderable (modules : List ModuleImports) (external : List String) : Prop where
  distinct : (names modules external).Nodup
  known : ∀ entry ∈ modules, ∀ name ∈ entry.imports, name ∈ names modules external
  acyclic : ∀ m, ¬ Relation.TransGen (Imports modules) m m

/-! ## Orders under construction -/

/-- The name belongs to a module in the order or to an external one. -/
def Present (modules : List ModuleImports) (external : List String) (order : List Nat)
    (name : String) : Prop :=
  (∃ target ∈ order, ∃ imported, modules[target]? = some imported ∧ imported.name = name) ∨
    name ∈ external

/-- Every module in the order stands behind all that it imports. -/
def Follows (modules : List ModuleImports) (external : List String) (order : List Nat) : Prop :=
  ∀ before m after, order = before ++ m :: after → ∀ entry, modules[m]? = some entry →
    ∀ name ∈ entry.imports, Present modules external before name

theorem Present.mono {name : String} (h : Present modules external order name)
    (hkept : ∀ m ∈ order, m ∈ order') : Present modules external order' name :=
  h.imp_left fun ⟨target, htarget, himported⟩ => ⟨target, hkept target htarget, himported⟩

theorem follows_nil : Follows modules external [] := fun before m after h => by simp at h

theorem Follows.append (h : Follows modules external order) {m : Nat} {entry : ModuleImports}
    (hentry : modules[m]? = some entry)
    (hpresent : ∀ name ∈ entry.imports, Present modules external order name) :
    Follows modules external (order ++ [m]) := by
  intro before m' after heq entry' hentry'
  rcases List.eq_nil_or_concat after with rfl | ⟨after, last, rfl⟩
  · obtain ⟨rfl, hm⟩ := List.append_inj' heq rfl
    obtain rfl := List.singleton_inj.mp hm
    obtain rfl := Option.some.inj (hentry.symm.trans hentry')
    exact hpresent
  · rw [List.concat_eq_append, ← List.cons_append, ← List.append_assoc] at heq
    exact h before m' after (List.append_inj' heq rfl).1 entry' hentry'

/-- Steps that each add modules behind their imports, and of which each reaches its item. -/
theorem follows_foldlM {α : Type} {path : List Nat} {step : List Nat → α → Except GraphError (List Nat)}
    {reached : List Nat → α → Prop}
    (hmono : ∀ order order' item, (∀ m ∈ order, m ∈ order') → reached order item → reached order' item)
    (items : List α) (hstep : ∀ item ∈ items, ∀ order order', Follows modules external order →
      step order item = .ok order' → Adds modules path order order' ∧
        Follows modules external order' ∧ reached order' item)
    (hfollows : Follows modules external order) (h : items.foldlM step order = .ok order') :
    Adds modules path order order' ∧ Follows modules external order' ∧
      ∀ item ∈ items, reached order' item := by
  induction items generalizing order with
  | nil =>
      obtain rfl := Except.ok.inj h
      exact ⟨.refl _ _ _, hfollows, nofun⟩
  | cons first rest ih =>
      rw [List.foldlM_cons] at h
      obtain ⟨order₁, hfirst, hrest⟩ := exists_of_bind_eq_ok h
      obtain ⟨hadds, hfollows, hreached⟩ := hstep first List.mem_cons_self order order₁ hfollows hfirst
      obtain ⟨hadds', hfollows', hall⟩ :=
        ih (fun item hitem => hstep item (List.mem_cons_of_mem _ hitem)) hfollows hrest
      refine ⟨hadds.trans hadds', hfollows', fun item hitem => ?_⟩
      rcases List.mem_cons.mp hitem with rfl | hitem
      · exact hmono _ _ _ hadds'.kept hreached
      · exact hall item hitem

/-- A visit adds a module only behind what it imports, and the visited one is added. -/
theorem follows_visit {bound : Nat} {path : List Nat} {module : Nat}
    (htrail : Trail modules bound path module) (hfollows : Follows modules external order)
    (h : visit modules external bound path order module = .ok order') :
    Follows modules external order' ∧ module ∈ order' := by
  refine ⟨?_, (adds_visit _ h).2 (htrail.pos (not_mem_of_visit h)) (htrail.positions module (by simp))⟩
  induction bound using Nat.strong_induction_on generalizing path order order' module with
  | h bound ih =>
      rcases visit_cases modules external bound path order module with
        ⟨-, hvisit⟩ | ⟨-, hvisit, -⟩ | ⟨hpath, rest, entry, rfl, hentry, hvisit⟩
      · cases hvisit.symm.trans h
      · exact Except.ok.inj (hvisit.symm.trans h) ▸ hfollows
      · obtain ⟨order₁, hfold, hlast⟩ := exists_of_bind_eq_ok (hvisit.symm.trans h)
        obtain rfl := Except.ok.inj hlast
        have hstep (name : String) (hname : name ∈ entry.imports) (order order' : List Nat)
            (hfollows : Follows modules external order)
            (hstep : followImport modules external rest (path ++ [module]) entry.name order name =
              .ok order') :
            Adds modules (path ++ [module]) order order' ∧ Follows modules external order' ∧
              Present modules external order' name := by
          unfold followImport at hstep
          split at hstep
          · next target htarget =>
            obtain ⟨imported, himported, rfl⟩ := getElem?_of_findIdx? htarget
            have htrail' := htrail.push hpath ⟨entry, imported, hentry, himported, hname⟩
            obtain ⟨hadds, hmem⟩ := adds_visit _ hstep
            refine ⟨hadds, ih rest (Nat.lt_succ_self rest) htrail' hfollows hstep,
              .inl ⟨target, ?_, imported, himported, rfl⟩⟩
            exact hmem (htrail'.pos (not_mem_of_visit hstep)) (htrail'.positions target (by simp))
          · split at hstep
            · next hexternal =>
              obtain rfl := Except.ok.inj hstep
              exact ⟨.refl _ _ _, hfollows, .inr (List.contains_iff_mem.mp hexternal)⟩
            · cases hstep
        obtain ⟨-, hfollows, hpresent⟩ :=
          follows_foldlM (fun _ _ _ hkept hpresent => hpresent.mono hkept) entry.imports hstep hfollows hfold
        exact hfollows.append hentry hpresent

/-! ## Orders that are found -/

/-- A module that another one imports stands before it. -/
theorem idxOf_lt_of_imports (hdistinct : (names modules external).Nodup)
    (hfollows : Follows modules external order)
    (hperm : ∀ m, m < modules.length → m ∈ order) {m target : Nat}
    (h : Imports modules m target) : order.idxOf target < order.idxOf m := by
  obtain ⟨importer, imported, himporter, himported, hname⟩ := h
  obtain ⟨before, after, rfl, hbefore⟩ :=
    List.eq_append_cons_of_mem (hperm m (List.getElem?_eq_some_iff.mp himporter).1)
  have hmem : target ∈ before := by
    rcases hfollows before m after rfl importer himporter _ hname with
      ⟨target', htarget', imported', himported', heq⟩ | hexternal
    · exact eq_of_name_eq (List.nodup_append.mp hdistinct).1 himported' himported heq ▸ htarget'
    · exact absurd rfl ((List.nodup_append.mp hdistinct).2.2 _
        (List.mem_map_of_mem (List.mem_of_getElem? himported)) _ hexternal)
  rw [List.idxOf_append_of_mem hmem, List.idxOf_append_of_notMem hbefore, List.idxOf_cons_self,
    Nat.add_zero]
  exact List.idxOf_lt_length_of_mem hmem

theorem idxOf_lt_of_transGen (hdistinct : (names modules external).Nodup)
    (hfollows : Follows modules external order)
    (hperm : ∀ m, m < modules.length → m ∈ order) {m target : Nat}
    (h : Relation.TransGen (Imports modules) m target) : order.idxOf target < order.idxOf m := by
  induction h with
  | single h => exact idxOf_lt_of_imports hdistinct hfollows hperm h
  | tail _ h ih => exact (idxOf_lt_of_imports hdistinct hfollows hperm h).trans ih

/-- A walk over the modules that does not fail puts each behind its imports. -/
theorem follows_walk (h : (List.range modules.length).foldlM
      (visit modules external modules.length []) [] = .ok order) : Follows modules external order :=
  (follows_foldlM (fun _ _ m hkept => hkept m) (List.range modules.length)
    (fun _ hm _ _ hfollows hvisit => ⟨(adds_visit _ hvisit).1,
      follows_visit (.start (List.mem_range.mp hm)) hfollows hvisit⟩) follows_nil h).2.1

/-- A walk over the modules fails for a reason. -/
theorem explained_of_walk (hdistinct : (names modules external).Nodup) {error : GraphError}
    (h : (List.range modules.length).foldlM (visit modules external modules.length []) [] =
      .error error) : Explained modules external error := by
  obtain ⟨m, hm, order, hvisit⟩ := exists_of_foldlM_eq_error h
  exact explained_of_visit (List.nodup_append.mp hdistinct).1 (.start (List.mem_range.mp hm)) hvisit

/-- A module in an order that is found only imports what exists. -/
theorem mem_names_of_follows (hfollows : Follows modules external order)
    (hperm : ∀ m, m < modules.length → m ∈ order) {entry : ModuleImports} (hentry : entry ∈ modules)
    {name : String} (hname : name ∈ entry.imports) : name ∈ names modules external := by
  obtain ⟨m, hm⟩ := List.mem_iff_getElem?.mp hentry
  obtain ⟨before, after, heq⟩ := List.append_of_mem (hperm m (List.getElem?_eq_some_iff.mp hm).1)
  rcases hfollows before m after heq entry hm name hname with
    ⟨target, -, imported, himported, rfl⟩ | hexternal
  · exact List.mem_append_left _ (List.mem_map_of_mem (List.mem_of_getElem? himported))
  · exact List.mem_append_right _ hexternal

end ModuleOrder

open ModuleOrder

/-- What the search for an order tells about the modules. -/
structure OrderExact (modules : List ModuleImports) (external : List String) : Prop where
  /-- There is an order just if the modules can be ordered. -/
  found : (∃ order, findOrder modules external = .ok order) ↔ Orderable modules external
  /-- It lists every module once. -/
  all : ∀ order, findOrder modules external = .ok order → order.Perm (List.range modules.length)
  /-- Every module stands behind all that it needs. -/
  behind : ∀ order, findOrder modules external = .ok order →
    ∀ m target, Relation.TransGen (Imports modules) m target → order.idxOf target < order.idxOf m
  /-- The least repeated name is reported before anything else. -/
  repeated : ¬ (names modules external).Nodup → ∃ name,
    IsLeastRepeated (names modules external) name ∧
      findOrder modules external = .error (.duplicateModule name)
  /-- A name is reported as repeated only then. -/
  duplicate : ∀ name, findOrder modules external = .error (.duplicateModule name) →
    IsLeastRepeated (names modules external) name
  /-- An unknown module is imported and does not exist. -/
  unknown : ∀ name importer, findOrder modules external = .error (.unknownModule name importer) →
    ImportsName modules importer name ∧ name ∉ names modules external
  /-- A cycle is a path of imports that leads back to its start. -/
  cyclic : ∀ cycle, findOrder modules external = .error (.cyclicImport cycle) → IsCycle modules cycle

variable {modules : List ModuleImports} {external : List String} {order : List Nat} {error : GraphError}

/-- In an order that is found the modules follow their imports. -/
theorem follows_of_findOrder (h : findOrder modules external = .ok order) :
    (names modules external).Nodup ∧ Follows modules external order := by
  unfold findOrder at h
  split at h
  · cases h
  · next hnone => exact ⟨leastRepeated_eq_none_iff.mp hnone, follows_walk h⟩

theorem mem_of_findOrder (h : findOrder modules external = .ok order) (m : Nat)
    (hlt : m < modules.length) : m ∈ order :=
  (findOrder_perm h).mem_iff.mpr (List.mem_range.mpr hlt)

theorem orderable_of_findOrder (h : findOrder modules external = .ok order) :
    Orderable modules external := by
  obtain ⟨hdistinct, hfollows⟩ := follows_of_findOrder h
  have hmem := mem_of_findOrder h
  exact ⟨hdistinct, fun entry hentry name hname => mem_names_of_follows hfollows hmem hentry hname,
    fun m hcycle => Nat.lt_irrefl _ (idxOf_lt_of_transGen hdistinct hfollows hmem hcycle)⟩

/-- An error is the least repeated name, or explained by the imports if no name is repeated. -/
theorem error_of_findOrder (h : findOrder modules external = .error error) :
    (∃ name, error = .duplicateModule name ∧ IsLeastRepeated (names modules external) name) ∨
      ((names modules external).Nodup ∧ Explained modules external error) := by
  unfold findOrder at h
  split at h
  · next name hname =>
    obtain rfl := Except.error.inj h
    exact .inl ⟨name, rfl, leastRepeated_eq_some_iff.mp hname⟩
  · next hnone =>
    have hdistinct := leastRepeated_eq_none_iff.mp hnone
    exact .inr ⟨hdistinct, explained_of_walk hdistinct h⟩

theorem not_orderable_of_explained (h : Explained modules external error) :
    ¬ Orderable modules external := by
  intro horderable
  cases error with
  | duplicateModule name => exact h
  | unknownModule name importer =>
      obtain ⟨⟨entry, hentry, -, hname⟩, hnot⟩ := h
      exact hnot (horderable.known entry hentry name hname)
  | cyclicImport cycle =>
      obtain ⟨-, m, hcycle⟩ := h
      exact horderable.acyclic m hcycle

/-- The search for an order is exact: it succeeds just if the modules can be ordered, puts every
module behind all that it needs, and otherwise reports what is wrong, a repeated name first. -/
theorem findOrder_exact (modules : List ModuleImports) (external : List String) :
    OrderExact modules external where
  found := by
    refine ⟨fun ⟨order, h⟩ => orderable_of_findOrder h, fun horderable => ?_⟩
    cases h : findOrder modules external with
    | ok order => exact ⟨order, rfl⟩
    | error error =>
        rcases error_of_findOrder h with ⟨name, -, hname⟩ | ⟨-, hexplained⟩
        · have hcount := List.nodup_iff_count_le_one.mp horderable.distinct name
          exact absurd hname.repeated (Nat.not_le.mpr (Nat.lt_succ_of_le hcount))
        · exact absurd horderable (not_orderable_of_explained hexplained)
  all order h := findOrder_perm h
  behind order h m target hneeds := by
    obtain ⟨hdistinct, hfollows⟩ := follows_of_findOrder h
    exact idxOf_lt_of_transGen hdistinct hfollows (mem_of_findOrder h) hneeds
  repeated hrepeated := by
    cases hname : leastRepeated (names modules external) with
    | none => exact absurd (leastRepeated_eq_none_iff.mp hname) hrepeated
    | some name =>
        refine ⟨name, leastRepeated_eq_some_iff.mp hname, ?_⟩
        rw [names] at hname
        rw [findOrder, hname]
  duplicate name h := by
    rcases error_of_findOrder h with ⟨name', heq, hname⟩ | ⟨-, hexplained⟩
    · exact GraphError.duplicateModule.inj heq ▸ hname
    · exact hexplained.elim
  unknown name importer h := by
    rcases error_of_findOrder h with ⟨_, heq, -⟩ | ⟨-, hexplained⟩
    · cases heq
    · exact hexplained
  cyclic cycle h := by
    rcases error_of_findOrder h with ⟨_, heq, -⟩ | ⟨-, hexplained⟩
    · cases heq
    · exact hexplained.1

/-- A cycle that is reached from outside, beside a shared and a repeated import. -/
example : findOrder [⟨"a", ["b", "x", "b"]⟩, ⟨"b", ["c"]⟩, ⟨"c", ["d"]⟩, ⟨"d", ["b"]⟩] ["x"] =
    .error (.cyclicImport ["b", "c", "d", "b"]) := by decide

end Stela
