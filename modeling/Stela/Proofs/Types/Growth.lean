import Stela.Proofs.Types.Settled

/-!
# Growth of the tables

While bodies are analyzed the tables only grow. Types and symbols are added, the
result type of a function or closure is found once, and an alias is resolved
once; nothing else that is known about a symbol changes. Facts about types carry
over from a table to the tables that it grows to.
-/

namespace Stela

namespace SymbolTable

variable {t : SymbolTable} {id other : SymbolId} {entry : Symbol} {kind : SymbolKind}

theorem lt_size_of_kind? (h : t.kind? id = some kind) : id < t.size := by
  obtain ⟨entry, hentry, -⟩ := Option.map_eq_some_iff.mp h
  exact (Array.getElem?_eq_some_iff.mp hentry).1

theorem kind?_of_get? (h : t.get? id = some entry) : t.kind? id = some entry.kind := by
  simp [kind?, h]

theorem func?_eq_some {info : FuncInfo} : t.func? id = some info ↔ t.kind? id = some (.func info) := by
  unfold func?
  split <;> simp_all

theorem func?_eq_none_of_kind? (h : t.kind? id = some kind) (hkind : ∀ info, kind ≠ .func info) :
    t.func? id = none := by
  unfold func?
  split
  · next info hinfo => exact absurd (Option.some.inj (h.symm.trans hinfo)) (hkind info)
  · rfl

theorem closure?_eq_some {info : ClosureInfo} :
    t.closure? id = some info ↔ t.kind? id = some (.closure info) := by
  unfold closure?
  split <;> simp_all

theorem object?_eq_some {info : ObjectInfo} :
    t.object? id = some info ↔ t.kind? id = some (.object info) := by
  unfold object?
  split <;> simp_all

theorem field?_eq_some {info : FieldInfo} :
    t.field? id = some info ↔ t.kind? id = some (.field info) := by
  unfold field?
  split <;> simp_all

@[simp] theorem size_add : (t.add entry).2.size = t.size + 1 := by simp [add, size]

theorem get?_add_of_lt (h : id < t.size) : (t.add entry).2.get? id = t.get? id := by
  simp only [add, get?, size] at h ⊢
  rw [Array.getElem?_push, if_neg (Nat.ne_of_lt h)]

theorem kind?_add : (t.add entry).2.kind? id = if id = t.size then some entry.kind else t.kind? id := by
  by_cases heq : id = t.size
  · subst heq
    simp [add, kind?, get?, size]
  · rw [if_neg heq]
    simp only [add, kind?, get?, size, Array.getElem?_push] at heq ⊢
    rw [if_neg heq]

theorem func?_add {info : FuncInfo} (hentry : entry.kind = .func info) :
    (t.add entry).2.func? id = if id = t.size then some info else t.func? id := by
  by_cases heq : id = t.size
  · simp [func?, kind?_add, heq, hentry]
  · simp [func?, kind?_add, heq]

/-- There is no function beyond the table. -/
theorem func?_size : t.func? t.size = none := by
  cases h : t.func? t.size with
  | none => rfl
  | some info => exact absurd (lt_size_of_kind? (func?_eq_some.mp h)) (Nat.lt_irrefl _)

theorem name_add_of_lt (h : id < t.size) : (t.add entry).2.name id = t.name id := by
  simp only [name, get?_add_of_lt h]

@[simp] theorem size_modifyKind {f : SymbolKind → SymbolKind} :
    (t.modifyKind id f).size = t.size := by
  simp [modifyKind, modify, size]

theorem kind?_modifyKind {f : SymbolKind → SymbolKind} :
    (t.modifyKind id f).kind? other = if id = other then (t.kind? other).map f else t.kind? other := by
  simp only [modifyKind, modify, kind?, get?, Array.getElem?_modify]
  split <;> simp [Function.comp_def]

theorem name_modifyKind {f : SymbolKind → SymbolKind} :
    (t.modifyKind id f).name other = t.name other := by
  simp only [modifyKind, modify, name, get?, Array.getElem?_modify]
  split <;> simp [Function.comp_def]

/-- Setting the details of a symbol that was just added. -/
theorem modifyKind_add {kind' : SymbolKind} :
    (t.add entry).2.modifyKind t.size (fun _ => kind') =
      (t.add { entry with kind := kind' }).2 := by
  simp only [add, modifyKind, modify, size]
  congr 1
  refine Array.ext (by simp) fun i hi hi' => ?_
  rw [Array.getElem_modify]
  split
  · next heq =>
    subst heq
    simp
  · next hne =>
    simp only [Array.size_modify, Array.size_push] at hi
    have hlt : i < t.entries.size := by omega
    simp [Array.getElem_push, hlt]

/-- What a change of the details of one symbol does to the kinds. -/
theorem kind?_modifyKind_of {f : SymbolKind → SymbolKind} (h : t.kind? id = some kind) :
    (t.modifyKind id f).kind? id = some (f kind) := by
  simp [kind?_modifyKind, h]

theorem kind?_modifyKind_ne {f : SymbolKind → SymbolKind} (h : id ≠ other) :
    (t.modifyKind id f).kind? other = t.kind? other := by
  simp [kind?_modifyKind, h]

/-- The same symbols up to whether they are used. -/
def Alike (t t' : SymbolTable) : Prop := ∀ id, t'.kind? id = t.kind? id ∧ t'.name id = t.name id

theorem Alike.refl (t : SymbolTable) : t.Alike t := fun _ => ⟨rfl, rfl⟩

theorem Alike.trans {t t' t'' : SymbolTable} (h : t.Alike t') (h' : t'.Alike t'') : t.Alike t'' :=
  fun id => ⟨(h' id).1.trans (h id).1, (h' id).2.trans (h id).2⟩

theorem alike_modify (t : SymbolTable) (id : SymbolId) {f : Symbol → Symbol}
    (hkind : ∀ entry, (f entry).kind = entry.kind) (hname : ∀ entry, (f entry).name = entry.name) :
    t.Alike (t.modify id f) := by
  intro other
  simp only [kind?, name, get?, modify, Array.getElem?_modify]
  split <;> simp [Function.comp_def, hkind, hname]

end SymbolTable

/-! ## Symbols -/

/-- The result of a function is found at most once; its declaration and parameters are kept. -/
structure FuncInfo.Becomes (info info' : FuncInfo) : Prop where
  decl : info'.decl = info.decl
  params : info'.params = info.params
  ret : ∀ ret, info.ret = some ret → info'.ret = some ret

structure ClosureInfo.Becomes (info info' : ClosureInfo) : Prop where
  params : info'.params = info.params
  ret : ∀ ret, info.ret = some ret → info'.ret = some ret

structure AliasInfo.Becomes (info info' : AliasInfo) : Prop where
  strong : info'.strong = info.strong
  type : info'.type = info.type
  target : info'.target = info.target ∨
    (∃ written, info.target = .unresolved written) ∧ ∃ type, info'.target = .resolved type

theorem FuncInfo.Becomes.refl (info : FuncInfo) : info.Becomes info := ⟨rfl, rfl, fun _ h => h⟩

theorem FuncInfo.Becomes.trans {info info' info'' : FuncInfo} (h : info.Becomes info')
    (h' : info'.Becomes info'') : info.Becomes info'' :=
  ⟨h'.decl.trans h.decl, h'.params.trans h.params, fun ret hret => h'.ret ret (h.ret ret hret)⟩

theorem ClosureInfo.Becomes.refl (info : ClosureInfo) : info.Becomes info := ⟨rfl, fun _ h => h⟩

theorem ClosureInfo.Becomes.trans {info info' info'' : ClosureInfo} (h : info.Becomes info')
    (h' : info'.Becomes info'') : info.Becomes info'' :=
  ⟨h'.params.trans h.params, fun ret hret => h'.ret ret (h.ret ret hret)⟩

theorem AliasInfo.Becomes.refl (info : AliasInfo) : info.Becomes info := ⟨rfl, rfl, .inl rfl⟩

theorem AliasInfo.Becomes.trans {info info' info'' : AliasInfo} (h : info.Becomes info')
    (h' : info'.Becomes info'') : info.Becomes info'' := by
  refine ⟨h'.strong.trans h.strong, h'.type.trans h.type, ?_⟩
  rcases h.target with heq | ⟨hwritten, type, htype⟩
  · rw [← heq]
    exact h'.target
  · rcases h'.target with heq' | ⟨⟨written, hwritten'⟩, -⟩
    · exact .inr ⟨hwritten, type, heq'.trans htype⟩
    · simp [htype] at hwritten'

theorem AliasInfo.Becomes.resolved {info info' : AliasInfo} (h : info.Becomes info') {type : TypeId}
    (ht : info.target = .resolved type) : info'.target = .resolved type := by
  rcases h.target with heq | ⟨⟨written, hwritten⟩, -⟩
  · exact heq.trans ht
  · simp [ht] at hwritten

/-- How the details of a symbol may change. -/
inductive SymbolKind.Becomes : SymbolKind → SymbolKind → Prop
  | refl (kind) : Becomes kind kind
  | func {info info'} (h : info.Becomes info') : Becomes (.func info) (.func info')
  | closure {info info'} (h : info.Becomes info') : Becomes (.closure info) (.closure info')
  | aliasType {info info'} (h : info.Becomes info') : Becomes (.aliasType info) (.aliasType info')

namespace SymbolKind.Becomes

variable {kind kind' kind'' : SymbolKind}

theorem func_inv {info : FuncInfo} (h : Becomes (.func info) kind') :
    ∃ info', kind' = .func info' ∧ info.Becomes info' := by
  cases h with
  | refl => exact ⟨info, rfl, .refl info⟩
  | func h => exact ⟨_, rfl, h⟩

theorem closure_inv {info : ClosureInfo} (h : Becomes (.closure info) kind') :
    ∃ info', kind' = .closure info' ∧ info.Becomes info' := by
  cases h with
  | refl => exact ⟨info, rfl, .refl info⟩
  | closure h => exact ⟨_, rfl, h⟩

theorem aliasType_inv {info : AliasInfo} (h : Becomes (.aliasType info) kind') :
    ∃ info', kind' = .aliasType info' ∧ info.Becomes info' := by
  cases h with
  | refl => exact ⟨info, rfl, .refl info⟩
  | aliasType h => exact ⟨_, rfl, h⟩

/-- Only an alias becomes an alias. -/
theorem eq_aliasType {info' : AliasInfo} (h : Becomes kind (.aliasType info')) :
    ∃ info, kind = .aliasType info := by
  cases h with
  | refl => exact ⟨info', rfl⟩
  | aliasType h => exact ⟨_, rfl⟩

theorem trans (h : kind.Becomes kind') (h' : kind'.Becomes kind'') : kind.Becomes kind'' := by
  cases h with
  | refl => exact h'
  | func h =>
      obtain ⟨info'', rfl, h''⟩ := h'.func_inv
      exact .func (h.trans h'')
  | closure h =>
      obtain ⟨info'', rfl, h''⟩ := h'.closure_inv
      exact .closure (h.trans h'')
  | aliasType h =>
      obtain ⟨info'', rfl, h''⟩ := h'.aliasType_inv
      exact .aliasType (h.trans h'')

end SymbolKind.Becomes

/-! ## Tables -/

/-- The types of the first tables are in the second, and what its aliases stand for is the same. -/
structure Tables.Widens (t t' : Tables) : Prop where
  types : t.types.Within t'.types
  size : t.symbols.size ≤ t'.symbols.size
  resolved : ∀ id info target, t.symbols.kind? id = some (.aliasType info) →
    info.target = .resolved target →
    ∃ info', t'.symbols.kind? id = some (.aliasType info') ∧ info'.target = .resolved target

/-- What was in the first tables is in the second. -/
structure Tables.Contained (t t' : Tables) : Prop where
  types : t.types.Within t'.types
  symbols : ∀ id kind, t.symbols.kind? id = some kind →
    (∃ kind', t'.symbols.kind? id = some kind' ∧ kind.Becomes kind') ∧
      t'.symbols.name id = t.symbols.name id

/-- What was in the first tables is in the second, which has no further alias. -/
structure Tables.Grows (t t' : Tables) : Prop extends t.Contained t' where
  aliases : ∀ id info', t'.symbols.kind? id = some (.aliasType info') →
    ∃ info, t.symbols.kind? id = some (.aliasType info)

namespace Tables

variable {t t' t'' : Tables} {id : SymbolId} {a : TypeId}

namespace Widens

theorem refl (t : Tables) : t.Widens t :=
  ⟨.refl _, Nat.le_refl _, fun _ info _ h ht => ⟨info, h, ht⟩⟩

theorem trans (h : t.Widens t') (h' : t'.Widens t'') : t.Widens t'' := by
  refine ⟨h.types.trans h'.types, Nat.le_trans h.size h'.size, fun id info target hkind htarget => ?_⟩
  obtain ⟨info', hkind', htarget'⟩ := h.resolved id info target hkind htarget
  exact h'.resolved id info' target hkind' htarget'

/-- Adding a symbol of any sort. -/
theorem add (t : Tables) (entry : Symbol) :
    t.Widens { t with symbols := (t.symbols.add entry).2 } := by
  refine ⟨.refl _, by simp, fun id info target hkind htarget => ⟨info, ?_, htarget⟩⟩
  rw [SymbolTable.kind?_add, if_neg (Nat.ne_of_lt (SymbolTable.lt_size_of_kind? hkind)), hkind]

/-- Changing the details of a symbol, but not of an alias. -/
theorem modifyKind (t : Tables) (id : SymbolId) {f : SymbolKind → SymbolKind}
    (hf : ∀ info, f (.aliasType info) = .aliasType info) :
    t.Widens { t with symbols := t.symbols.modifyKind id f } := by
  refine ⟨.refl _, by simp, fun other info target hkind htarget => ⟨info, ?_, htarget⟩⟩
  rw [SymbolTable.kind?_modifyKind, hkind]
  split <;> simp [hf]

end Widens

namespace Contained

theorem refl (t : Tables) : t.Contained t :=
  ⟨.refl _, fun _ kind h => ⟨⟨kind, h, .refl kind⟩, rfl⟩⟩

theorem trans (h : t.Contained t') (h' : t'.Contained t'') : t.Contained t'' := by
  refine ⟨h.types.trans h'.types, fun id kind hkind => ?_⟩
  obtain ⟨⟨kind', hkind', hbecomes⟩, hname⟩ := h.symbols id kind hkind
  obtain ⟨⟨kind'', hkind'', hbecomes'⟩, hname'⟩ := h'.symbols id kind' hkind'
  exact ⟨⟨kind'', hkind'', hbecomes.trans hbecomes'⟩, hname'.trans hname⟩

theorem func (h : t.Contained t') {info : FuncInfo} (hf : t.symbols.func? id = some info) :
    ∃ info', t'.symbols.func? id = some info' ∧ info.Becomes info' := by
  obtain ⟨⟨kind', hkind', hbecomes⟩, -⟩ := h.symbols id _ (SymbolTable.func?_eq_some.mp hf)
  obtain ⟨info', rfl, hinfo⟩ := hbecomes.func_inv
  exact ⟨info', SymbolTable.func?_eq_some.mpr hkind', hinfo⟩

theorem isSome_func (h : t.Contained t') (hf : (t.symbols.func? id).isSome) :
    (t'.symbols.func? id).isSome := by
  obtain ⟨info, hinfo⟩ := Option.isSome_iff_exists.mp hf
  obtain ⟨info', hinfo', -⟩ := h.func hinfo
  exact Option.isSome_iff_exists.mpr ⟨info', hinfo'⟩

theorem closure (h : t.Contained t') {info : ClosureInfo} (hc : t.symbols.closure? id = some info) :
    ∃ info', t'.symbols.closure? id = some info' ∧ info.Becomes info' := by
  obtain ⟨⟨kind', hkind', hbecomes⟩, -⟩ := h.symbols id _ (SymbolTable.closure?_eq_some.mp hc)
  obtain ⟨info', rfl, hinfo⟩ := hbecomes.closure_inv
  exact ⟨info', SymbolTable.closure?_eq_some.mpr hkind', hinfo⟩

theorem aliasType (h : t.Contained t') {info : AliasInfo}
    (ha : t.symbols.kind? id = some (.aliasType info)) :
    ∃ info', t'.symbols.kind? id = some (.aliasType info') ∧ info.Becomes info' := by
  obtain ⟨⟨kind', hkind', hbecomes⟩, -⟩ := h.symbols id _ ha
  obtain ⟨info', rfl, hinfo⟩ := hbecomes.aliasType_inv
  exact ⟨info', hkind', hinfo⟩

/-- What is known of a variable does not change. -/
theorem object (h : t.Contained t') {info : ObjectInfo}
    (ho : t.symbols.kind? id = some (.object info)) : t'.symbols.kind? id = some (.object info) := by
  obtain ⟨⟨kind', hkind', hbecomes⟩, -⟩ := h.symbols id _ ho
  cases hbecomes
  exact hkind'

theorem size_le (h : t.Contained t') : t.symbols.size ≤ t'.symbols.size := by
  refine Nat.le_of_not_lt fun hlt => ?_
  obtain ⟨⟨kind', hkind', -⟩, -⟩ := h.symbols t'.symbols.size _
    (SymbolTable.kind?_of_get? (Array.getElem?_eq_getElem hlt))
  exact absurd (SymbolTable.lt_size_of_kind? hkind') (Nat.lt_irrefl _)

theorem widens (h : t.Contained t') : t.Widens t' := by
  refine ⟨h.types, h.size_le, fun id info target hkind htarget => ?_⟩
  obtain ⟨info', hkind', hbecomes⟩ := h.aliasType hkind
  exact ⟨info', hkind', hbecomes.resolved htarget⟩

end Contained

namespace Grows

theorem refl (t : Tables) : t.Grows t := ⟨.refl t, fun _ info h => ⟨info, h⟩⟩

theorem trans (h : t.Grows t') (h' : t'.Grows t'') : t.Grows t'' := by
  refine ⟨h.toContained.trans h'.toContained, fun id info'' hinfo'' => ?_⟩
  obtain ⟨info', hinfo'⟩ := h'.aliases id info'' hinfo''
  exact h.aliases id info' hinfo'

theorem of_alike (hw : t.types.Within t'.types) (h : t.symbols.Alike t'.symbols) : t.Grows t' :=
  ⟨⟨hw, fun id kind hkind => ⟨⟨kind, (h id).1.trans hkind, .refl kind⟩, (h id).2⟩⟩,
    fun id info hinfo => ⟨info, (h id).1.symm.trans hinfo⟩⟩

theorem intern (t : Tables) (ty : Ty) : t.Grows { t with types := (t.types.intern ty).2 } :=
  .of_alike (TypeTable.within_intern t.types ty) (.refl _)

/-- Adding a symbol that is no alias. -/
theorem add (t : Tables) {entry : Symbol} (hentry : ∀ info, entry.kind ≠ .aliasType info) :
    t.Grows { t with symbols := (t.symbols.add entry).2 } := by
  refine ⟨⟨.refl _, fun id kind hkind => ?_⟩, fun id info hinfo => ?_⟩
  · have hlt := SymbolTable.lt_size_of_kind? hkind
    refine ⟨⟨kind, ?_, .refl kind⟩, SymbolTable.name_add_of_lt hlt⟩
    rw [SymbolTable.kind?_add, if_neg (Nat.ne_of_lt hlt), hkind]
  · rw [SymbolTable.kind?_add] at hinfo
    split at hinfo
    · exact absurd (Option.some.inj hinfo) (hentry info)
    · exact ⟨info, hinfo⟩

/-- Changing the details of one symbol, as far as they may change. -/
theorem modifyKind (t : Tables) (id : SymbolId) {f : SymbolKind → SymbolKind}
    (hf : ∀ kind, t.symbols.kind? id = some kind → kind.Becomes (f kind)) :
    t.Grows { t with symbols := t.symbols.modifyKind id f } := by
  refine ⟨⟨.refl _, fun other kind hkind => ⟨?_, SymbolTable.name_modifyKind⟩⟩,
    fun other info h => ?_⟩
  · by_cases heq : id = other
    · subst heq
      exact ⟨f kind, SymbolTable.kind?_modifyKind_of hkind, hf kind hkind⟩
    · exact ⟨kind, (SymbolTable.kind?_modifyKind_ne heq).trans hkind, .refl kind⟩
  · rw [SymbolTable.kind?_modifyKind] at h
    split at h
    · next heq =>
      subst heq
      obtain ⟨kind, hkind, heq⟩ := Option.map_eq_some_iff.mp h
      obtain ⟨info', rfl⟩ := (heq ▸ hf kind hkind).eq_aliasType
      exact ⟨info', hkind⟩
    · exact ⟨info, h⟩

end Grows

/-- Every alias is resolved. -/
def Complete (t : Tables) : Prop :=
  ∀ id info, t.symbols.kind? id = some (.aliasType info) →
    ∃ target, info.target = .resolved target

theorem Complete.grows (h : t.Complete) (hg : t.Grows t') : t'.Complete := by
  intro id info' hinfo'
  obtain ⟨info, hinfo⟩ := hg.aliases id info' hinfo'
  obtain ⟨target, htarget⟩ := h id info hinfo
  obtain ⟨info'', hinfo'', htarget'⟩ := hg.widens.resolved id info target hinfo htarget
  obtain rfl : info' = info'' := by simpa [hinfo'] using hinfo''
  exact ⟨target, htarget'⟩

theorem Grounded.widens (h : t.Grounded a) (hw : t.Widens t') : t'.Grounded a :=
  h.mono hw.types hw.resolved

/-- A settled type whose aliases are resolved. -/
def Written (t : Tables) (type : TypeId) : Prop := t.types.Settled type ∧ t.Grounded type

theorem Written.widens (h : t.Written a) (hw : t.Widens t') : t'.Written a :=
  ⟨h.1.mono hw.types, h.2.widens hw⟩

theorem KindSound.widens {kind : SymbolKind} (h : t.KindSound id kind) (hwiden : t.Widens t') :
    t'.KindSound id kind := by
  have hw := hwiden.types
  cases kind with
  | structType info =>
      exact ⟨hw _ _ h.1, fun field hfield => Nat.lt_of_lt_of_le (h.2 field hfield) hwiden.size⟩
  | enumType info => exact hw _ _ h
  | aliasType info =>
      refine ⟨hw _ _ h.1, fun target htarget => ?_⟩
      obtain ⟨hsettled, hgrounded⟩ := h.2 target htarget
      exact ⟨hsettled.mono hw, hgrounded.widens hwiden⟩
  | hostType info => exact ⟨hw _ _ h.1, fun slot hslot => (h.2 slot hslot).mono hw⟩
  | object info => exact TypeTable.Settled.mono h hw
  | field info => exact TypeTable.Settled.mono h hw
  | func info =>
      obtain ⟨hparams, hret, hstate⟩ := h
      exact ⟨fun p hp => (hparams p hp).mono hw, fun ret hr => (hret ret hr).mono hw, hstate⟩
  | closure info =>
      obtain ⟨hparams, hret, hcaptures⟩ := h
      exact ⟨fun p hp => (hparams p hp).mono hw, fun ret hr => (hret ret hr).mono hw,
        fun c hc => (hcaptures c hc).mono hw⟩
  | _ => trivial

/-! ## Sound tables -/

namespace Sound

theorem of_alike (h : t.Sound) (htypes : t'.types = t.types) (ha : t.symbols.Alike t'.symbols) :
    t'.Sound := by
  have hg : t.Grows t' := .of_alike (htypes ▸ .refl _) ha
  refine ⟨htypes ▸ h.types, fun id kind hkind => ?_, fun type ty symbol htype hsymbol => ?_⟩
  · rw [(ha id).1] at hkind
    exact (h.kinds id kind hkind).widens hg.widens
  · exact Nat.lt_of_lt_of_le (h.named type ty symbol (htypes ▸ htype) hsymbol) hg.size_le

theorem intern (h : t.Sound) {ty : Ty} (hfits : t.types.Fits ty)
    (hnamed : ∀ symbol, ty.symbol? = some symbol → symbol < t.symbols.size) :
    Sound { t with types := (t.types.intern ty).2 } := by
  refine ⟨h.types.intern hfits, fun id kind hkind =>
    (h.kinds id kind hkind).widens (Grows.intern t ty).widens, fun type ty' symbol htype hsymbol => ?_⟩
  rcases TypeTable.get?_intern_inv htype with hold | ⟨-, rfl⟩
  · exact h.named type ty' symbol hold hsymbol
  · exact hnamed symbol hsymbol

theorem add (h : t.Sound) {entry : Symbol} (hentry : t.KindSound t.symbols.size entry.kind) :
    Sound { t with symbols := (t.symbols.add entry).2 } := by
  refine ⟨h.types, fun id kind hkind => ?_, fun type ty symbol htype hsymbol =>
    Nat.lt_of_lt_of_le (h.named type ty symbol htype hsymbol) (Widens.add t entry).size⟩
  simp only [SymbolTable.kind?_add] at hkind
  split at hkind
  · next heq =>
    obtain rfl := Option.some.inj hkind
    exact heq ▸ hentry.widens (.add t entry)
  · exact (h.kinds id kind hkind).widens (.add t entry)

/-- Entering the type of a declaration together with its symbol. -/
theorem declare (h : t.Sound) {ty : Ty} {entry : Symbol} (hfits : t.types.Fits ty)
    (hsymbol : ty.symbol? = some t.symbols.size)
    (hentry : Tables.KindSound { t with types := (t.types.intern ty).2 } t.symbols.size entry.kind) :
    Sound ⟨(t.types.intern ty).2, (t.symbols.add entry).2⟩ := by
  have hwidens : t.Widens ⟨(t.types.intern ty).2, (t.symbols.add entry).2⟩ :=
    (Grows.intern t ty).widens.trans (.add _ entry)
  refine ⟨h.types.intern hfits, fun id kind hkind => ?_, fun type ty' symbol htype hsymbol' => ?_⟩
  · simp only [SymbolTable.kind?_add] at hkind
    split at hkind
    · next heq =>
      obtain rfl := Option.some.inj hkind
      exact heq ▸ hentry.widens (.add { t with types := (t.types.intern ty).2 } entry)
    · exact (h.kinds id kind hkind).widens hwidens
  · rcases TypeTable.get?_intern_inv htype with hold | ⟨-, rfl⟩
    · exact Nat.lt_of_lt_of_le (h.named type ty' symbol hold hsymbol') hwidens.size
    · obtain rfl := Option.some.inj (hsymbol.symm.trans hsymbol')
      simp

/-- Changing the details of one symbol keeps the tables sound if the new details are. -/
theorem modifyKind (h : t.Sound) {f : SymbolKind → SymbolKind}
    (hw : t.Widens { t with symbols := t.symbols.modifyKind id f })
    (hf : ∀ kind, t.symbols.kind? id = some kind → t.KindSound id kind → t.KindSound id (f kind)) :
    Sound { t with symbols := t.symbols.modifyKind id f } := by
  refine ⟨h.types, fun other kind hkind => ?_, fun type ty symbol htype hsymbol =>
    Nat.lt_of_lt_of_le (h.named type ty symbol htype hsymbol) hw.size⟩
  simp only [SymbolTable.kind?_modifyKind] at hkind
  split at hkind
  · next heq =>
    subst heq
    obtain ⟨old, hold, rfl⟩ := Option.map_eq_some_iff.mp hkind
    exact (hf old hold (h.kinds _ old hold)).widens hw
  · exact (h.kinds other kind hkind).widens hw

end Sound

end Tables

end Stela
