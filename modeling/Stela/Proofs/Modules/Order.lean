import Stela.Modules.Order
import Mathlib.Data.List.Nodup
import Mathlib.Data.List.Perm.Basic
import Mathlib.Data.List.Perm.Lattice
import Mathlib.Data.List.Range

/-!
# Orders that are found

An order that is found lists every module once. A visit adds modules that are
not on its path, so a module is added behind what it imports and only then.
-/

namespace Stela

namespace ModuleOrder

variable {modules : List ModuleImports} {external : List String} {path order order' : List Nat}

/-- What holds between the orders around a visit with the given path. -/
structure Adds (modules : List ModuleImports) (path order order' : List Nat) : Prop where
  kept : ∀ m ∈ order, m ∈ order'
  nodup : order.Nodup → order'.Nodup
  offPath : ∀ m ∈ path, m ∈ order' → m ∈ order
  positions : (∀ m ∈ order, m < modules.length) → ∀ m ∈ order', m < modules.length

theorem Adds.refl (modules : List ModuleImports) (path order : List Nat) :
    Adds modules path order order :=
  ⟨fun _ h => h, fun h => h, fun _ _ h => h, fun h => h⟩

theorem Adds.trans {order'' : List Nat} (h : Adds modules path order order')
    (h' : Adds modules path order' order'') : Adds modules path order order'' :=
  ⟨fun m hm => h'.kept m (h.kept m hm), fun hn => h'.nodup (h.nodup hn),
    fun m hm hm' => h.offPath m hm (h'.offPath m hm hm'),
    fun hp => h'.positions (h.positions hp)⟩

theorem exists_of_bind_eq_ok {ε α β : Type} {x : Except ε α} {f : α → Except ε β} {b : β}
    (h : (x >>= f) = .ok b) : ∃ a, x = .ok a ∧ f a = .ok b := by
  cases x with
  | error e => cases h
  | ok a => exact ⟨a, rfl, h⟩

/-- Steps that each add modules do so one after the other. -/
theorem Adds.foldlM {α : Type} {step : List Nat → α → Except GraphError (List Nat)}
    (hstep : ∀ order a order', step order a = .ok order' → Adds modules path order order')
    (items : List α) (h : items.foldlM step order = .ok order') :
    Adds modules path order order' := by
  induction items generalizing order with
  | nil =>
      obtain rfl := Except.ok.inj h
      exact .refl _ _ _
  | cons a rest ih =>
      rw [List.foldlM_cons] at h
      obtain ⟨order₁, hfirst, hrest⟩ := exists_of_bind_eq_ok h
      exact (hstep _ _ _ hfirst).trans (ih hrest)

/-- A visit adds modules off its path, the visited one among them if the bound admits it. -/
theorem adds_visit (bound : Nat) {module : Nat}
    (h : visit modules external bound path order module = .ok order') :
    Adds modules path order order' ∧ (0 < bound → module < modules.length → module ∈ order') := by
  induction bound generalizing path order module order' with
  | zero =>
      unfold visit at h
      split at h
      · cases h
      · split at h <;>
        · obtain rfl := Except.ok.inj h
          exact ⟨.refl _ _ _, fun hpos => absurd hpos (Nat.lt_irrefl 0)⟩
  | succ bound ih =>
      unfold visit at h
      split at h
      · cases h
      · next hpath =>
        split at h
        · next hmem =>
          obtain rfl := Except.ok.inj h
          exact ⟨.refl _ _ _, fun _ _ => List.contains_iff_mem.mp hmem⟩
        · next hnot =>
          have hnot : module ∉ order := fun hmem => hnot (List.contains_iff_mem.mpr hmem)
          have hpath : module ∉ path := fun hmem => hpath (List.contains_iff_mem.mpr hmem)
          cases hentry : modules[module]? with
          | none =>
              simp only [hentry] at h
              obtain rfl := Except.ok.inj h
              exact ⟨.refl _ _ _, fun _ hlt =>
                absurd hentry (by simp [List.getElem?_eq_getElem hlt])⟩
          | some entry =>
              simp only [hentry] at h
              obtain ⟨order₁, hfold, hlast⟩ := exists_of_bind_eq_ok h
              obtain rfl := Except.ok.inj hlast
              have hadds : Adds modules (path ++ [module]) order order₁ := by
                refine .foldlM (fun order name order' hstep => ?_) _ hfold
                split at hstep
                · exact (ih hstep).1
                · split at hstep
                  · obtain rfl := Except.ok.inj hstep
                    exact .refl _ _ _
                  · cases hstep
              have hmodule : module ∉ order₁ := fun hmem =>
                hnot (hadds.offPath module (by simp) hmem)
              refine ⟨⟨fun m hm => List.mem_append_left _ (hadds.kept m hm), fun hn => ?_,
                fun m hm hm' => ?_, fun hp m hm => ?_⟩, fun _ _ => by simp⟩
              · exact (hadds.nodup hn).append (List.nodup_singleton _) (by simpa using hmodule)
              · rcases List.mem_append.mp hm' with hm' | hm'
                · exact hadds.offPath m (List.mem_append_left _ hm) hm'
                · exact absurd (List.mem_singleton.mp hm' ▸ hm) hpath
              · rcases List.mem_append.mp hm with hm | hm
                · exact hadds.positions hp m hm
                · obtain rfl := List.mem_singleton.mp hm
                  exact (List.getElem?_eq_some_iff.mp hentry).1

end ModuleOrder

open ModuleOrder

/-- An order that is found is a permutation of all positions. -/
theorem findOrder_perm {modules : List ModuleImports} {external : List String} {order : List Nat}
    (h : findOrder modules external = .ok order) : order.Perm (List.range modules.length) := by
  unfold findOrder at h
  split at h
  · cases h
  · have visits (positions : List Nat) {start : List Nat}
        (h : positions.foldlM (visit modules external modules.length []) start = .ok order) :
        ∀ m ∈ positions, m < modules.length → m ∈ order := by
      induction positions generalizing start with
      | nil => simp
      | cons first rest ih =>
          rw [List.foldlM_cons] at h
          obtain ⟨order₁, hfirst, hrest⟩ := exists_of_bind_eq_ok h
          intro m hm hlt
          rcases List.mem_cons.mp hm with rfl | hm
          · have hmem := (adds_visit _ hfirst).2 (Nat.zero_lt_of_lt hlt) hlt
            exact (Adds.foldlM (fun _ _ _ hv => (adds_visit _ hv).1) rest hrest).kept _ hmem
          · exact ih hrest m hm hlt
    have hadds := Adds.foldlM (fun _ _ _ hv => (adds_visit _ hv).1) _ h
    refine (List.perm_ext_iff_of_nodup (hadds.nodup List.nodup_nil) List.nodup_range).mpr fun m => ?_
    rw [List.mem_range]
    exact ⟨hadds.positions (by simp) m, fun hlt => visits _ h m (List.mem_range.mpr hlt) hlt⟩

/-- What stands at the positions of an order that is found is everything there is. -/
theorem findOrder_filterMap_perm {α : Type} {modules : List ModuleImports} {external : List String}
    {order : List Nat} (h : findOrder modules external = .ok order) (items : List α)
    (hlength : modules.length = items.length) :
    (order.filterMap fun position => items[position]?).Perm items := by
  have hmap : (List.range items.length).map (fun position => items[position]?) = items.map some := by
    refine List.ext_getElem (by simp) fun position hleft hright => ?_
    simp
  have hall : (List.range items.length).filterMap (fun position => items[position]?) = items := by
    have hid : (List.range items.length).filterMap (fun position => items[position]?) =
        ((List.range items.length).map fun position => items[position]?).filterMap id := by
      rw [List.filterMap_map]
      rfl
    rw [hid, hmap, List.filterMap_map]
    exact List.filterMap_some
  have hperm := (findOrder_perm h).filterMap fun position => items[position]?
  rwa [hlength, hall] at hperm

/-- Values that are all there are those that are there. -/
theorem mapM_eq_some_filterMap {α β : Type} {f : α → Option β} {xs : List α} (h : ∀ x ∈ xs, (f x).isSome) :
    xs.mapM f = some (xs.filterMap f) := by
  induction xs with
  | nil => rfl
  | cons x xs ih =>
      obtain ⟨y, hy⟩ := Option.isSome_iff_exists.mp (h x List.mem_cons_self)
      simp [List.mapM_cons, hy, ih fun z hz => h z (List.mem_cons_of_mem x hz)]

theorem eq_filterMap_of_mapM {α β : Type} {f : α → Option β} {xs : List α} {ys : List β}
    (h : xs.mapM f = some ys) : ys = xs.filterMap f := by
  induction xs generalizing ys with
  | nil => simpa using h.symm
  | cons x xs ih =>
      rw [List.mapM_cons] at h
      obtain ⟨y, hy, h⟩ := Option.bind_eq_some_iff.mp h
      obtain ⟨ys, hys, h⟩ := Option.bind_eq_some_iff.mp h
      obtain rfl := Option.some.inj h
      rw [List.filterMap_cons_some hy, ih hys]

/-- There is something at each position of an order that is found. -/
theorem findOrder_mapM {α : Type} {modules : List ModuleImports} {external : List String}
    {order : List Nat} (h : findOrder modules external = .ok order) (items : List α)
    (hlength : modules.length = items.length) :
    order.mapM (fun position => items[position]?) = some (order.filterMap fun position => items[position]?) := by
  refine mapM_eq_some_filterMap fun position hposition => ?_
  have hlt : position < items.length :=
    hlength ▸ List.mem_range.mp ((findOrder_perm h).mem_iff.mp hposition)
  simp [hlt]

end Stela
