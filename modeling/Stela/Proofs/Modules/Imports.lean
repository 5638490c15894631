import Stela.Proofs.Modules.Order
import Mathlib.Data.List.Chain
import Mathlib.Data.String.Basic
import Mathlib.Logic.Relation

/-!
# Imports among modules

The import graph of a list of modules and what an error of the search for an
order says about it. The path of a visit is a trail of imports that leads to the
visited module; a module that is met on its own trail closes a cycle.
-/

namespace Stela

namespace ModuleOrder

variable {modules : List ModuleImports} {external : List String}

/-- All names of modules, those of external modules included. -/
def names (modules : List ModuleImports) (external : List String) : List String :=
  modules.map ModuleImports.name ++ external

/-- The module at the first position imports the one at the second. -/
def Imports (modules : List ModuleImports) (module target : Nat) : Prop :=
  ∃ importer imported, modules[module]? = some importer ∧ modules[target]? = some imported ∧
    imported.name ∈ importer.imports

/-- A module of the first name imports a module of the second. -/
def ImportsName (modules : List ModuleImports) (importer imported : String) : Prop :=
  ∃ entry ∈ modules, entry.name = importer ∧ imported ∈ entry.imports

/-- The names along a cycle of imports, the first of them repeated at the end. -/
structure IsCycle (modules : List ModuleImports) (cycle : List String) : Prop where
  length : 2 ≤ cycle.length
  closed : cycle.head? = cycle.getLast?
  distinct : cycle.dropLast.Nodup
  imports : cycle.IsChain (ImportsName modules)

/-! ## Repeated names -/

/-- The least name that occurs more than once. -/
structure IsLeastRepeated (names : List String) (name : String) : Prop where
  repeated : 2 ≤ names.count name
  least : ∀ other, 2 ≤ names.count other → name ≤ other

theorem foldl_least_some (candidates : List String) (best : String) :
    candidates.foldl least (some best) = some (candidates.foldl min best) := by
  induction candidates generalizing best with
  | nil => rfl
  | cons name rest ih =>
      have hmin : least (some best) name = some (min best name) := by
        rw [least, min_comm, min_def_lt, apply_ite some]
      rw [List.foldl_cons, hmin, ih, List.foldl_cons]

theorem foldl_least (candidates : List String) : candidates.foldl least none = candidates.min? := by
  cases candidates with
  | nil => rfl
  | cons name rest => exact foldl_least_some rest name

theorem mem_repeated {names : List String} {name : String} :
    (name ∈ names.filter fun name => 2 ≤ names.count name) ↔ 2 ≤ names.count name := by
  rw [List.mem_filter, decide_eq_true_iff, and_iff_right_iff_imp]
  exact fun h => List.count_pos_iff.mp (Nat.lt_of_lt_of_le Nat.zero_lt_two h)

theorem leastRepeated_eq_some_iff {names : List String} {name : String} :
    leastRepeated names = some name ↔ IsLeastRepeated names name := by
  rw [leastRepeated, foldl_least, List.min?_eq_some_iff, mem_repeated]
  exact ⟨fun ⟨hrepeated, hleast⟩ => ⟨hrepeated, fun other h => hleast other (mem_repeated.mpr h)⟩,
    fun h => ⟨h.repeated, fun other hother => h.least other (mem_repeated.mp hother)⟩⟩

theorem leastRepeated_eq_none_iff {names : List String} : leastRepeated names = none ↔ names.Nodup := by
  rw [leastRepeated, foldl_least, List.min?_eq_none_iff, List.eq_nil_iff_forall_not_mem,
    List.nodup_iff_count_le_one]
  exact forall_congr' fun name => by rw [mem_repeated, Nat.not_le, Nat.lt_succ_iff]

/-! ## Names and positions -/

theorem eq_of_name_eq (hnames : (modules.map ModuleImports.name).Nodup) {m n : Nat}
    {first second : ModuleImports} (hfirst : modules[m]? = some first)
    (hsecond : modules[n]? = some second) (heq : first.name = second.name) : m = n := by
  have hlt : m < (modules.map ModuleImports.name).length := by
    rw [List.length_map]
    exact (List.getElem?_eq_some_iff.mp hfirst).1
  refine (List.getElem?_inj hlt hnames).mp ?_
  rw [List.getElem?_map, List.getElem?_map, hfirst, hsecond, Option.map_some, Option.map_some, heq]

theorem getElem?_of_findIdx? {name : String} {target : Nat}
    (h : (modules.findIdx? fun m => m.name == name) = some target) :
    ∃ imported, modules[target]? = some imported ∧ imported.name = name := by
  obtain ⟨hlt, hname, -⟩ := List.findIdx?_eq_some_iff_getElem.mp h
  exact ⟨_, List.getElem?_eq_getElem hlt, eq_of_beq hname⟩

theorem not_mem_of_findIdx? {name : String} (h : (modules.findIdx? fun m => m.name == name) = none) :
    name ∉ modules.map ModuleImports.name := by
  intro hmem
  obtain ⟨entry, hentry, rfl⟩ := List.mem_map.mp hmem
  simpa using List.findIdx?_eq_none_iff.mp h entry hentry

/-! ## Visits -/

/-- Adds an imported module to the order, unless it is external. -/
def followImport (modules : List ModuleImports) (external : List String) (bound : Nat)
    (path : List Nat) (importer : String) (order : List Nat) (imported : String) :
    Except GraphError (List Nat) :=
  match modules.findIdx? fun m => m.name == imported with
  | some target => visit modules external bound path order target
  | none => if external.contains imported then .ok order else .error (.unknownModule imported importer)

/-- The ways in which a visit can go: the module is on the path, it is in the order already, or
what it imports is followed. -/
theorem visit_cases (modules : List ModuleImports) (external : List String) (bound : Nat)
    (path order : List Nat) (module : Nat) :
    (module ∈ path ∧ visit modules external bound path order module =
      .error (.cyclicImport (cycleNames modules path module))) ∨
    (module ∉ path ∧ visit modules external bound path order module = .ok order ∧
      (0 < bound → module < modules.length → module ∈ order)) ∨
    (module ∉ path ∧ ∃ rest entry, bound = rest + 1 ∧ modules[module]? = some entry ∧
      visit modules external bound path order module =
        (entry.imports.foldlM (followImport modules external rest (path ++ [module]) entry.name) order >>=
          fun order => .ok (order ++ [module]))) := by
  by_cases hpath : module ∈ path
  · left
    unfold visit
    rw [if_pos (List.contains_iff_mem.mpr hpath)]
    exact ⟨hpath, rfl⟩
  have hnot : ¬ path.contains module = true := fun h => hpath (List.contains_iff_mem.mp h)
  by_cases horder : module ∈ order
  · refine .inr (.inl ⟨hpath, ?_, fun _ _ => horder⟩)
    unfold visit
    rw [if_neg hnot, if_pos (List.contains_iff_mem.mpr horder)]
  have hnew : ¬ order.contains module = true := fun h => horder (List.contains_iff_mem.mp h)
  cases bound with
  | zero =>
      refine .inr (.inl ⟨hpath, ?_, fun h => absurd h (Nat.lt_irrefl 0)⟩)
      unfold visit
      rw [if_neg hnot, if_neg hnew]
  | succ rest =>
      cases hentry : modules[module]? with
      | none =>
          refine .inr (.inl ⟨hpath, ?_, fun _ hlt => absurd hentry (by simp [hlt])⟩)
          unfold visit
          rw [if_neg hnot, if_neg hnew, hentry]
      | some entry =>
          refine .inr (.inr ⟨hpath, rest, entry, rfl, rfl, ?_⟩)
          conv_lhs => unfold visit
          rw [if_neg hnot, if_neg hnew, hentry]
          rfl

theorem not_mem_of_visit {bound : Nat} {path order order' : List Nat} {module : Nat}
    (h : visit modules external bound path order module = .ok order') : module ∉ path := by
  rcases visit_cases modules external bound path order module with
    ⟨-, hvisit⟩ | ⟨hpath, -⟩ | ⟨hpath, -⟩
  · cases hvisit.symm.trans h
  · exact hpath
  · exact hpath

/-! ## Trails -/

/-- The path of a visit: different modules each of which imports the next one, up to the visited
module. At most `bound` more modules fit on it. -/
structure Trail (modules : List ModuleImports) (bound : Nat) (path : List Nat) (module : Nat) : Prop where
  room : bound + path.length = modules.length
  distinct : path.Nodup
  imports : (path ++ [module]).IsChain (Imports modules)
  positions : ∀ m ∈ path ++ [module], m < modules.length

namespace Trail

variable {bound : Nat} {path : List Nat} {module target : Nat}

theorem start (hlt : module < modules.length) : Trail modules modules.length [] module :=
  ⟨rfl, List.nodup_nil, List.isChain_singleton _, by simpa using hlt⟩

theorem distinct_push (h : Trail modules bound path module) (hpath : module ∉ path) :
    (path ++ [module]).Nodup :=
  h.distinct.append (List.nodup_singleton _) (by simpa using hpath)

/-- A trail of different modules is no longer than their number. -/
theorem pos (h : Trail modules bound path module) (hpath : module ∉ path) : 0 < bound := by
  have hsub : path ++ [module] ⊆ List.range modules.length := fun m hm =>
    List.mem_range.mpr (h.positions m hm)
  have hle := (List.subperm_of_subset (h.distinct_push hpath) hsub).length_le
  have hroom := h.room
  rw [List.length_append, List.length_singleton, List.length_range] at hle
  omega

theorem push (h : Trail modules (bound + 1) path module) (hpath : module ∉ path)
    (himports : Imports modules module target) : Trail modules bound (path ++ [module]) target := by
  refine ⟨?_, h.distinct_push hpath, h.imports.append (List.isChain_singleton _) ?_, ?_⟩
  · rw [List.length_append, List.length_singleton, ← h.room]
    omega
  · simpa using himports
  · obtain ⟨_, _, -, htarget, -⟩ := himports
    refine List.forall_mem_append.mpr ⟨h.positions, ?_⟩
    simpa using (List.getElem?_eq_some_iff.mp htarget).1

/-- A chain of imports from a module to itself closes a cycle. -/
theorem transGen_of_chain {first : Nat} {rest : List Nat}
    (h : (first :: (rest ++ [module])).IsChain (Imports modules)) :
    Relation.TransGen (Imports modules) first module := by
  induction rest generalizing first with
  | nil => exact .single (List.isChain_pair.mp h)
  | cons second rest ih =>
      obtain ⟨hfirst, hrest⟩ := List.isChain_cons_cons.mp h
      exact .head hfirst (ih hrest)

/-- A module that is visited again while its imports are followed is on a cycle. -/
theorem cycle (h : Trail modules bound path module) (hmem : module ∈ path)
    (hnames : (modules.map ModuleImports.name).Nodup) :
    IsCycle modules (cycleNames modules path module) ∧
      Relation.TransGen (Imports modules) module module := by
  obtain ⟨before, rest, rfl, hbefore⟩ := List.eq_append_cons_of_mem hmem
  have hdrop : (before ++ module :: rest).dropWhile (· != module) = module :: rest := by
    rw [List.dropWhile_append_of_pos, List.dropWhile_cons_of_neg (by simp)]
    exact fun m hm => bne_iff_ne.mpr (ne_of_mem_of_not_mem hm hbefore)
  have hchain : (module :: (rest ++ [module])).IsChain (Imports modules) := by
    have himports := h.imports
    rw [List.append_assoc] at himports
    exact himports.right_of_append
  have hpositions (m : Nat) (hm : m ∈ module :: rest) : m < modules.length :=
    h.positions m (List.mem_append_left _ (List.mem_append_right _ hm))
  refine ⟨?_, transGen_of_chain hchain⟩
  have hnames_eq : cycleNames modules (before ++ module :: rest) module =
      (module :: (rest ++ [module])).map fun m => ((modules[m]?).map ModuleImports.name).getD "" := by
    simp [cycleNames, hdrop]
  rw [hnames_eq]
  refine ⟨by simp, ?_, ?_, ?_⟩
  · rw [← List.cons_append, List.map_append, List.map_singleton, List.getLast?_concat]
    rfl
  · rw [← List.cons_append, List.map_append, List.map_singleton, List.dropLast_concat]
    refine List.Nodup.map_on (fun m hm n hn heq => ?_) (h.distinct.of_append_right)
    have hm := List.getElem?_eq_getElem (hpositions m hm)
    have hn := List.getElem?_eq_getElem (hpositions n hn)
    refine eq_of_name_eq hnames hm hn ?_
    simpa [hm, hn] using heq
  · refine (List.isChain_map _).mpr (hchain.imp ?_)
    rintro m n ⟨importer, imported, himporter, himported, hmem⟩
    refine ⟨importer, List.mem_of_getElem? himporter, ?_, ?_⟩
    · simp [himporter]
    · simpa [himported] using hmem

end Trail

/-! ## Errors -/

/-- What an error of a walk says about the modules. -/
def Explained (modules : List ModuleImports) (external : List String) : GraphError → Prop
  | .duplicateModule _ => False
  | .unknownModule name importer => ImportsName modules importer name ∧ name ∉ names modules external
  | .cyclicImport cycle => IsCycle modules cycle ∧ ∃ m, Relation.TransGen (Imports modules) m m

/-- A walk over a list fails at one of its items. -/
theorem exists_of_foldlM_eq_error {ε α β : Type} {step : β → α → Except ε β} {items : List α}
    {start : β} {error : ε} (h : items.foldlM step start = .error error) :
    ∃ item ∈ items, ∃ state, step state item = .error error := by
  induction items generalizing start with
  | nil => cases h
  | cons first rest ih =>
      rw [List.foldlM_cons] at h
      cases hfirst : step start first with
      | error e =>
          rw [hfirst] at h
          exact ⟨first, List.mem_cons_self, start, hfirst.trans h⟩
      | ok next =>
          rw [hfirst] at h
          obtain ⟨item, hitem, hfails⟩ := ih h
          exact ⟨item, List.mem_cons_of_mem _ hitem, hfails⟩

/-- A visit fails for a reason. -/
theorem explained_of_visit (hnames : (modules.map ModuleImports.name).Nodup) {bound : Nat}
    {path order : List Nat} {module : Nat} (htrail : Trail modules bound path module)
    {error : GraphError} (h : visit modules external bound path order module = .error error) :
    Explained modules external error := by
  induction bound using Nat.strong_induction_on generalizing path order module with
  | h bound ih =>
      rcases visit_cases modules external bound path order module with
        ⟨hmem, hvisit⟩ | ⟨-, hvisit, -⟩ | ⟨hpath, rest, entry, rfl, hentry, hvisit⟩
      · obtain rfl := Except.error.inj (hvisit.symm.trans h)
        exact ⟨(htrail.cycle hmem hnames).1, module, (htrail.cycle hmem hnames).2⟩
      · cases hvisit.symm.trans h
      · rw [h] at hvisit
        cases hfold : entry.imports.foldlM
            (followImport modules external rest (path ++ [module]) entry.name) order with
        | ok order₁ => simp [hfold, bind, Except.bind] at hvisit
        | error e =>
            obtain rfl : error = e := by simpa [hfold, bind, Except.bind] using hvisit
            obtain ⟨name, hname, order₁, hstep⟩ := exists_of_foldlM_eq_error hfold
            unfold followImport at hstep
            split at hstep
            · next target htarget =>
              obtain ⟨imported, himported, rfl⟩ := getElem?_of_findIdx? htarget
              exact ih rest (Nat.lt_succ_self rest)
                (htrail.push hpath ⟨entry, imported, hentry, himported, hname⟩) hstep
            · next hnone =>
              split at hstep
              · cases hstep
              · next hexternal =>
                obtain rfl := Except.error.inj hstep
                refine ⟨⟨entry, List.mem_of_getElem? hentry, rfl, hname⟩, fun hmem => ?_⟩
                rcases List.mem_append.mp hmem with hmem | hmem
                · exact not_mem_of_findIdx? hnone hmem
                · exact hexternal (List.contains_iff_mem.mpr hmem)

end ModuleOrder

end Stela
