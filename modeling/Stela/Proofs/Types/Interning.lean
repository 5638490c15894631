import Stela.Proofs.Types.Acyclic

/-!
# Sequences of requests

A table starts with the builtin types and is asked for one type after the other. What is proved
of one request is carried along the whole sequence: numbers and types stay in correspondence,
nothing is ever moved, and a type stands behind its parts where these were there before it.
-/

namespace Stela

/-- What a table is asked for: a type as it is, an array of an element, a function type. -/
inductive TypeRequest where
  | intern (ty : Ty)
  | arrayOf (element : TypeId)
  | func (params : List (RefKind × TypeId)) (ret : TypeId)
deriving Repr, DecidableEq

/-- The type that is entered. -/
def TypeRequest.type : TypeRequest → Ty
  | .intern ty => ty
  | .arrayOf element => .array element
  | .func params ret => .func params ret

namespace TypeTable

variable {t : TypeTable} {ty : Ty} {id : TypeId}

/-- The table after a sequence of requests. -/
def run (t : TypeTable) (requests : List TypeRequest) : TypeTable :=
  requests.foldl (fun t request => (t.intern request.type).2) t

/-- Every request is made with numbers that are in the table. -/
def Admits (t : TypeTable) : List TypeRequest → Prop
  | [] => True
  | request :: rest =>
    (∀ part ∈ request.type.parts, part < t.size) ∧ Admits (t.intern request.type).2 rest

instance decidableAdmits (t : TypeTable) (requests : List TypeRequest) : Decidable (t.Admits requests) :=
  match requests with
  | [] => .isTrue trivial
  | request :: rest =>
    have := decidableAdmits (t.intern request.type).2 rest
    inferInstanceAs (Decidable (_ ∧ _))

/-- Numbers and types correspond to each other, the builtin types come first, and one more request
finds its type or adds it at the end. -/
structure Interned (t : TypeTable) : Prop where
  find?_iff : ∀ ty id, t.find? ty = some id ↔ t.get? id = some ty
  distinct : ∀ id id' ty, t.get? id = some ty → t.get? id' = some ty → id = id'
  consecutive : ∀ id, (∃ ty, t.get? id = some ty) ↔ id < t.size
  builtins : Builtin.all.map Ty.builtin <+: t.entries.toList
  builtin : ∀ kind, t.get? kind.typeId = some (.builtin kind)
  intern_of_present : ∀ ty id, t.get? id = some ty → t.intern ty = (id, t)
  intern_of_absent : ∀ ty, (∀ id, t.get? id ≠ some ty) → t.intern ty = (t.size, ⟨t.entries.push ty⟩)

theorem Injective.find?_iff (h : t.Injective) : t.find? ty = some id ↔ t.get? id = some ty :=
  ⟨get?_of_find?, h.find?⟩

theorem intern_of_absent (h : ∀ id, t.get? id ≠ some ty) : t.intern ty = (t.size, ⟨t.entries.push ty⟩) := by
  cases hfind : t.find? ty with
  | none => rw [intern, hfind]
  | some id => exact absurd (get?_of_find? hfind) (h id)

theorem exists_get?_iff : (∃ ty, t.get? id = some ty) ↔ id < t.size :=
  ⟨fun ⟨_, h⟩ => lt_size_of_get? h, fun h => ⟨_, Array.getElem?_eq_getElem h⟩⟩

/-! ## One request -/

theorem prefix_intern (t : TypeTable) (ty : Ty) : t.entries.toList <+: (t.intern ty).2.entries.toList := by
  unfold intern
  split
  · exact List.prefix_refl _
  · rw [Array.toList_push]
    exact List.prefix_append _ _

/-! ## Sequences -/

theorem run_append (requests more : List TypeRequest) : t.run (requests ++ more) = (t.run requests).run more :=
  List.foldl_append

theorem prefix_run (t : TypeTable) (requests : List TypeRequest) :
    t.entries.toList <+: (t.run requests).entries.toList := by
  induction requests generalizing t with
  | nil => exact List.prefix_refl _
  | cons request rest ih => exact (prefix_intern t request.type).trans (ih _)

theorem Injective.run (h : t.Injective) (requests : List TypeRequest) : (t.run requests).Injective := by
  induction requests generalizing t with
  | nil => exact h
  | cons request rest ih => exact ih (h.intern request.type)

theorem Ordered.run (h : t.Ordered) {requests : List TypeRequest} (hadmits : t.Admits requests) :
    (t.run requests).Ordered := by
  induction requests generalizing t with
  | nil => exact h
  | cons request rest ih => exact ih (h.intern hadmits.1) hadmits.2

theorem within_run (t : TypeTable) (requests : List TypeRequest) : t.Within (t.run requests) := by
  induction requests generalizing t with
  | nil => exact .refl t
  | cons request rest ih => exact (within_intern t request.type).trans (ih _)

/-- A table that is asked for any sequence of types. -/
theorem interned_run (requests : List TypeRequest) : (initial.run requests).Interned ∧
    (∀ more, (initial.run requests).entries.toList <+: (initial.run (requests ++ more)).entries.toList) ∧
    (initial.Admits requests →
      ∀ id ty, (initial.run requests).get? id = some ty → ∀ part ∈ ty.parts, part < id) := by
  have hinjective := injective_initial.run requests
  refine ⟨?_, fun more => ?_, ordered_initial.run⟩
  · exact {
      find?_iff := fun _ _ => hinjective.find?_iff
      distinct := hinjective
      consecutive := fun _ => exists_get?_iff
      builtins := prefix_run initial requests
      builtin := fun kind => within_run initial requests _ _ (get?_initial kind)
      intern_of_present := fun _ _ => hinjective.intern_eq
      intern_of_absent := fun _ => intern_of_absent }
  · rw [run_append]
    exact prefix_run _ more

/-- Arrays of arrays and a function over them, with one type asked for a second time. -/
theorem interned_run_nested :
    initial.Admits [.arrayOf 5, .arrayOf 7, .func [(.reference, 8)] 7, .intern (.array 5), .arrayOf 9] ∧
    ∀ id ty, (initial.run
      [.arrayOf 5, .arrayOf 7, .func [(.reference, 8)] 7, .intern (.array 5), .arrayOf 9]).get? id =
        some ty → ∀ part ∈ ty.parts, part < id :=
  ⟨by decide +kernel, (interned_run _).2.2 (by decide +kernel)⟩

/-! ## Tables with an index

A search through the entries can be replaced by a map from types to numbers that is extended
with every entry. The map stays the inverse of the entries, whatever types are hashed to. -/

section Index

variable [Hashable Ty]

/-- The entries and a map that is asked in place of a search. -/
structure Indexed where
  entries : Array Ty
  ids : Std.HashMap Ty TypeId

namespace Indexed

def intern (t : Indexed) (ty : Ty) : TypeId × Indexed :=
  match t.ids[ty]? with
  | some id => (id, t)
  | none => (t.entries.size, ⟨t.entries.push ty, t.ids.insert ty t.entries.size⟩)

def run (t : Indexed) (requests : List TypeRequest) : Indexed :=
  requests.foldl (fun t request => (t.intern request.type).2) t

/-- The builtin types are entered into an empty table one by one. -/
def initial : Indexed := run ⟨#[], ∅⟩ (Builtin.all.map fun kind => .intern (.builtin kind))

/-- The entries are those of a table, and the map gives what the search finds there. -/
structure Mirrors (indexed : Indexed) (t : TypeTable) : Prop where
  entries : indexed.entries = t.entries
  ids : ∀ ty, indexed.ids[ty]? = t.find? ty

variable {indexed : Indexed}

theorem Mirrors.intern (h : indexed.Mirrors t) (ty : Ty) :
    (indexed.intern ty).1 = (t.intern ty).1 ∧ (indexed.intern ty).2.Mirrors (t.intern ty).2 := by
  unfold Indexed.intern TypeTable.intern
  rw [h.ids]
  cases hfind : t.find? ty with
  | some id => exact ⟨rfl, h⟩
  | none =>
      dsimp only
      refine ⟨congrArg Array.size h.entries, by rw [h.entries], fun ty' => ?_⟩
      rw [Std.HashMap.getElem?_insert, h.ids, h.entries, TypeTable.find?, TypeTable.find?, Array.findIdx?_push]
      by_cases heq : ty = ty'
      · subst heq
        rw [TypeTable.find?] at hfind
        simp [hfind]
      · simp [heq]

theorem Mirrors.run (h : indexed.Mirrors t) (requests : List TypeRequest) :
    (indexed.run requests).Mirrors (t.run requests) := by
  induction requests generalizing indexed t with
  | nil => exact h
  | cons request rest ih => exact ih (h.intern request.type).2

theorem mirrors_initial : initial.Mirrors TypeTable.initial := by
  have hempty : Mirrors ⟨#[], ∅⟩ ⟨#[]⟩ := ⟨rfl, fun _ => by simp [TypeTable.find?]⟩
  have hentries : TypeTable.initial.entries =
      (TypeTable.run ⟨#[]⟩ (Builtin.all.map fun kind => .intern (.builtin kind))).entries := by
    decide +kernel
  have hrun := hempty.run (Builtin.all.map fun kind => .intern (.builtin kind))
  exact ⟨hrun.entries.trans hentries.symm, fun ty => by
    rw [TypeTable.find?, hentries]
    exact hrun.ids ty⟩

/-- The map is the inverse of the entries after any sequence of requests, and it answers the next
one as the search does. -/
theorem indexed_run (requests : List TypeRequest) :
    (∀ (ty : Ty) (id : TypeId),
      (initial.run requests).ids[ty]? = some id ↔ (initial.run requests).entries[id]? = some ty) ∧
    ∀ ty, ((initial.run requests).intern ty).1 = ((TypeTable.initial.run requests).intern ty).1 := by
  have hmirrors := mirrors_initial.run requests
  refine ⟨fun ty id => ?_, fun ty => (hmirrors.intern ty).1⟩
  rw [hmirrors.ids, hmirrors.entries]
  exact (injective_initial.run requests).find?_iff

end Indexed

end Index

end TypeTable
end Stela
