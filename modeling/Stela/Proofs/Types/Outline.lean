import Stela.Proofs.Types.Growth

/-!
# Outlines of symbols

What of a symbol has to do with scopes: where it was declared, the scope that it
opens, the type and origin of an object, the captures of a closure, and how far
the body of a function was analyzed. Most steps of the analysis leave the
outlines of all symbols as they are; the others extend them.
-/

namespace Stela

/-- How a closure is tied to what is around it. -/
structure Links where
  parent : Option SymbolId
  captures : List Capture
  scope : ScopeId

/-- A capture in a new slot. -/
def Links.push (links : Links) (c : Capture) : Links := { links with captures := links.captures ++ [c] }

/-- A slot stays what it is when captures are added. -/
theorem Links.slot_of_prefix {links links' : Links} (h : links.captures <+: links'.captures) {slot : Nat}
    {c : Capture} (hslot : links.captures[slot]? = some c) : links'.captures[slot]? = some c := by
  obtain ⟨hlt, rfl⟩ := List.getElem?_eq_some_iff.mp hslot
  exact List.prefix_iff_getElem?.mp h slot hlt

def ClosureInfo.links (info : ClosureInfo) : Links := ⟨info.parent, info.captures, info.scope⟩

inductive Outline where
  | object (info : ObjectInfo)
  | closure (links : Links)
  /-- A function, with the scope of its body once it is entered. -/
  | func (decl : FuncDecl) (body : Option ScopeId) (state : BodyState)
  /-- Anything else, with the scope of its members or names. -/
  | other (inner : Option ScopeId)

/-- The scope that the symbol opens. -/
def Outline.scope? : Outline → Option ScopeId
  | .object _ => none
  | .closure links => some links.scope
  | .func _ body _ => body
  | .other inner => inner

/-- Whether the symbol has no body that is analyzed. -/
def Outline.Plain : Outline → Prop
  | .object _ | .other _ => True
  | .closure _ | .func .. => False

/-- What may become of an outline: captures are added to a closure, and a function is analyzed. -/
inductive Outline.Extends : Outline → Outline → Prop
  | refl (outline : Outline) : Extends outline outline
  | closure {links links' : Links} (hparent : links'.parent = links.parent)
    (hscope : links'.scope = links.scope) (hcaptures : links.captures <+: links'.captures) :
    Extends (.closure links) (.closure links')
  | func (decl : FuncDecl) (body body' : Option ScopeId) {state state' : BodyState}
    (hdone : state = .done → state' = .done) : Extends (.func decl body state) (.func decl body' state')

theorem Outline.Extends.trans {o o' o'' : Outline} (h : o.Extends o') (h' : o'.Extends o'') :
    o.Extends o'' := by
  cases h with
  | refl => exact h'
  | closure hparent hscope hcaptures =>
      cases h' with
      | refl => exact .closure hparent hscope hcaptures
      | closure hparent' hscope' hcaptures' =>
          exact .closure (hparent'.trans hparent) (hscope'.trans hscope) (hcaptures.trans hcaptures')
  | func _ _ _ hdone =>
      cases h' with
      | refl => exact .func _ _ _ hdone
      | func _ _ _ hdone' => exact .func _ _ _ fun hstate => hdone' (hdone hstate)

theorem Outline.Extends.object_inv {info : ObjectInfo} {o : Outline}
    (h : o.Extends (.object info)) : o = .object info := by
  cases h
  rfl

theorem Outline.Extends.eq_object {info : ObjectInfo} {o : Outline}
    (h : Outline.Extends (.object info) o) : o = .object info := by
  cases h
  rfl

theorem Outline.Extends.closure_inv {links : Links} {o : Outline}
    (h : Outline.Extends (.closure links) o) : ∃ links', o = .closure links' ∧
      links'.parent = links.parent ∧ links'.scope = links.scope ∧
      links.captures <+: links'.captures := by
  cases h with
  | refl => exact ⟨links, rfl, rfl, rfl, List.prefix_refl _⟩
  | closure hparent hscope hcaptures => exact ⟨_, rfl, hparent, hscope, hcaptures⟩

theorem Outline.Extends.func_inv {decl : FuncDecl} {body : Option ScopeId} {state : BodyState}
    {o : Outline} (h : Outline.Extends (.func decl body state) o) :
    ∃ body' state', o = .func decl body' state' ∧ (state = .done → state' = .done) := by
  cases h with
  | refl => exact ⟨_, _, rfl, id⟩
  | func _ _ _ hdone => exact ⟨_, _, rfl, hdone⟩

def SymbolKind.outline : SymbolKind → Outline
  | .object info => .object info
  | .closure info => .closure info.links
  | .func info => .func info.decl info.bodyScope info.state
  | .structType info => .other (some info.scope)
  | .enumType info => .other (some info.scope)
  | .moduleSpace scope => .other (some scope)
  | .builtinType _ | .aliasType _ | .hostType _ | .field _ | .enumCase _ | .builtinFunc _ => .other none

namespace SymbolTable

variable {t t' t'' : SymbolTable} {id other : SymbolId} {place : ScopeId} {outline : Outline}

/-- Where a symbol was declared, and its outline. -/
def outline? (t : SymbolTable) (id : SymbolId) : Option (ScopeId × Outline) :=
  (t.get? id).map fun entry => (entry.scope, entry.kind.outline)

theorem outline?_of_get? {entry : Symbol} (h : t.get? id = some entry) :
    t.outline? id = some (entry.scope, entry.kind.outline) := congrArg (Option.map _) h

theorem lt_size_of_outline? (h : t.outline? id = some (place, outline)) : id < t.size := by
  obtain ⟨entry, hentry, -⟩ := Option.map_eq_some_iff.mp h
  exact (Array.getElem?_eq_some_iff.mp hentry).1

/-- A symbol has one outline. -/
theorem outline?_inj {place' : ScopeId} {outline' : Outline} (h : t.outline? id = some (place, outline))
    (h' : t.outline? id = some (place', outline')) : place = place' ∧ outline = outline' :=
  Prod.mk.inj (Option.some.inj (h.symm.trans h'))

theorem exists_of_kind? {kind : SymbolKind} (h : t.kind? id = some kind) :
    ∃ place, t.outline? id = some (place, kind.outline) := by
  obtain ⟨entry, hentry, rfl⟩ := Option.map_eq_some_iff.mp h
  exact ⟨entry.scope, outline?_of_get? hentry⟩

theorem object?_of_outline? {info : ObjectInfo} (h : t.outline? id = some (place, .object info)) :
    t.object? id = some info := by
  obtain ⟨entry, hentry, heq⟩ := Option.map_eq_some_iff.mp h
  obtain ⟨-, heq⟩ := Prod.mk.inj heq
  rw [object?_eq_some, kind?_of_get? hentry]
  cases hkind : entry.kind <;> rw [hkind] at heq <;> simp_all [SymbolKind.outline]

theorem closure?_of_outline? {links : Links} (h : t.outline? id = some (place, .closure links)) :
    ∃ info, t.closure? id = some info ∧ info.links = links := by
  obtain ⟨entry, hentry, heq⟩ := Option.map_eq_some_iff.mp h
  obtain ⟨-, heq⟩ := Prod.mk.inj heq
  cases hkind : entry.kind with
  | closure info =>
      rw [hkind] at heq
      exact ⟨info, closure?_eq_some.mpr ((kind?_of_get? hentry).trans (congrArg some hkind)),
        Outline.closure.inj heq⟩
  | _ => rw [hkind] at heq; simp [SymbolKind.outline] at heq

theorem func?_of_outline? {decl : FuncDecl} {body : Option ScopeId} {state : BodyState}
    (h : t.outline? id = some (place, .func decl body state)) :
    ∃ info, t.func? id = some info ∧ info.decl = decl ∧ info.bodyScope = body ∧ info.state = state := by
  obtain ⟨entry, hentry, heq⟩ := Option.map_eq_some_iff.mp h
  obtain ⟨-, heq⟩ := Prod.mk.inj heq
  cases hkind : entry.kind with
  | func info =>
      rw [hkind] at heq
      obtain ⟨rfl, rfl, rfl⟩ := Outline.func.inj heq
      exact ⟨info, func?_eq_some.mpr ((kind?_of_get? hentry).trans (congrArg some hkind)), rfl, rfl, rfl⟩
  | _ => simp [hkind, SymbolKind.outline] at heq

theorem outline?_of_closure? {info : ClosureInfo} (h : t.closure? id = some info) :
    ∃ place, t.outline? id = some (place, .closure info.links) :=
  exists_of_kind? (closure?_eq_some.mp h)

theorem outline?_of_func? {info : FuncInfo} (h : t.func? id = some info) :
    ∃ place, t.outline? id = some (place, .func info.decl info.bodyScope info.state) :=
  exists_of_kind? (func?_eq_some.mp h)

/-- Every symbol is kept, and its outline is extended. -/
def Extends (t t' : SymbolTable) : Prop :=
  ∀ id place outline, t.outline? id = some (place, outline) →
    ∃ outline', t'.outline? id = some (place, outline') ∧ outline.Extends outline'

theorem Extends.refl (t : SymbolTable) : t.Extends t := fun _ _ o h => ⟨o, h, .refl o⟩

theorem Extends.trans (h : t.Extends t') (h' : t'.Extends t'') : t.Extends t'' := by
  intro id place outline ho
  obtain ⟨outline', ho', hextends⟩ := h id place outline ho
  obtain ⟨outline'', ho'', hextends'⟩ := h' id place outline' ho'
  exact ⟨outline'', ho'', hextends.trans hextends'⟩

theorem Extends.object (h : t.Extends t') {info : ObjectInfo}
    (ho : t.outline? id = some (place, .object info)) :
    t'.outline? id = some (place, .object info) := by
  obtain ⟨outline, ho', hextends⟩ := h id place _ ho
  rwa [hextends.eq_object] at ho'

/-- No object becomes another one. -/
theorem Extends.object_inv (h : t.Extends t') {info : ObjectInfo} {place' : ScopeId}
    (ho : t.outline? id = some (place, outline))
    (ho' : t'.outline? id = some (place', .object info)) : place' = place ∧ outline = .object info := by
  obtain ⟨outline', h', hextends⟩ := h id place _ ho
  obtain ⟨rfl, rfl⟩ := outline?_inj h' ho'
  exact ⟨rfl, hextends.object_inv⟩

theorem Extends.closure (h : t.Extends t') {links : Links}
    (ho : t.outline? id = some (place, .closure links)) :
    ∃ links', t'.outline? id = some (place, .closure links') ∧ links'.parent = links.parent ∧
      links'.scope = links.scope ∧ links.captures <+: links'.captures := by
  obtain ⟨outline, ho', hextends⟩ := h id place _ ho
  obtain ⟨links', rfl, hrest⟩ := hextends.closure_inv
  exact ⟨links', ho', hrest⟩

/-- Symbols stay where they are, and closures and functions stay that. -/
def Reshapes (t t' : SymbolTable) : Prop :=
  ∀ id place outline, t.outline? id = some (place, outline) → ∃ outline',
    t'.outline? id = some (place, outline') ∧
      (outline' = outline ∨ ¬ outline.Plain ∧ ¬ outline'.Plain)

theorem Extends.reshapes (h : t.Extends t') : t.Reshapes t' := by
  intro id place outline ho
  obtain ⟨outline', ho', hextends⟩ := h id place outline ho
  refine ⟨outline', ho', ?_⟩
  cases hextends with
  | refl => exact .inl rfl
  | closure => exact .inr ⟨fun h => h, fun h => h⟩
  | func => exact .inr ⟨fun h => h, fun h => h⟩

/-- The functions under analysis are left as they are. -/
def Active (t t' : SymbolTable) : Prop :=
  ∀ id place decl body, t.outline? id = some (place, .func decl body .inProgress) →
    t'.outline? id = some (place, .func decl body .inProgress)

theorem Active.refl (t : SymbolTable) : t.Active t := fun _ _ _ _ h => h

theorem Active.trans (h : t.Active t') (h' : t'.Active t'') : t.Active t'' :=
  fun id place decl body ho => h' id place decl body (h id place decl body ho)

/-- Every symbol keeps its outline, and no closure or function is new. -/
structure Keeps (t t' : SymbolTable) : Prop where
  kept : ∀ id outline, t.outline? id = some outline → t'.outline? id = some outline
  inverse : ∀ id place outline, t'.outline? id = some (place, outline) → ¬ outline.Plain →
    t.outline? id = some (place, outline)

theorem Keeps.refl (t : SymbolTable) : t.Keeps t := ⟨fun _ _ h => h, fun _ _ _ h _ => h⟩

theorem Keeps.trans (h : t.Keeps t') (h' : t'.Keeps t'') : t.Keeps t'' :=
  ⟨fun id outline ho => h'.kept id outline (h.kept id outline ho),
    fun id place outline ho hplain =>
      h.inverse id place outline (h'.inverse id place outline ho hplain) hplain⟩

theorem Keeps.extends (h : t.Keeps t') : t.Extends t' :=
  fun id _ outline ho => ⟨outline, h.kept id _ ho, .refl outline⟩

theorem Keeps.active (h : t.Keeps t') : t.Active t' := fun id _ _ _ ho => h.kept id _ ho

theorem keeps_of_eq (h : ∀ id, t'.outline? id = t.outline? id) : t.Keeps t' :=
  ⟨fun id _ ho => (h id).trans ho, fun id _ _ ho _ => (h id).symm.trans ho⟩

/-! ## Changes to one symbol -/

/-- One symbol gets an outline, and the others keep theirs. -/
def Sets (t : SymbolTable) (id : SymbolId) (place : ScopeId) (outline : Outline) (t' : SymbolTable) : Prop :=
  ∀ other, t'.outline? other = if id = other then some (place, outline) else t.outline? other

section

variable {old outline' : Outline}

theorem Sets.self (h : t.Sets id place outline t') : t'.outline? id = some (place, outline) :=
  (h id).trans (if_pos rfl)

theorem Sets.of_ne (h : t.Sets id place outline t') (hne : id ≠ other) :
    t'.outline? other = t.outline? other := (h other).trans (if_neg hne)

/-- An outline is the one that was set, or it is older. -/
theorem Sets.cases (h : t.Sets id place outline t') {place' : ScopeId}
    (ho : t'.outline? other = some (place', outline')) :
    id = other ∧ place = place' ∧ outline = outline' ∨
      id ≠ other ∧ t.outline? other = some (place', outline') := by
  by_cases heq : id = other
  · subst heq
    exact .inl ⟨rfl, outline?_inj h.self ho⟩
  · exact .inr ⟨heq, (h.of_ne heq).symm.trans ho⟩

theorem Sets.trans (h : t.Sets id place outline t') (h' : t'.Sets id place outline' t'') :
    t.Sets id place outline' t'' := fun other => by
  rw [h' other, h other]
  split <;> rfl

section

variable (h : t.Sets id place outline t') (ho : t.outline? id = some (place, old))

include h ho

theorem Sets.extends (hextends : old.Extends outline) : t.Extends t' := by
  intro other place' o hother
  by_cases heq : id = other
  · subst heq
    obtain ⟨rfl, rfl⟩ := outline?_inj ho hother
    exact ⟨outline, h.self, hextends⟩
  · exact ⟨o, (h.of_ne heq).trans hother, .refl o⟩

theorem Sets.reshapes (hold : ¬ old.Plain) (hnew : ¬ outline.Plain) : t.Reshapes t' := by
  intro other place' o hother
  by_cases heq : id = other
  · subst heq
    obtain ⟨rfl, rfl⟩ := outline?_inj ho hother
    exact ⟨outline, h.self, .inr ⟨hold, hnew⟩⟩
  · exact ⟨o, (h.of_ne heq).trans hother, .inl rfl⟩

theorem Sets.active (hidle : ∀ decl body, old ≠ .func decl body .inProgress) : t.Active t' := by
  intro other place' decl body hother
  have hne : id ≠ other := fun heq => by
    subst heq
    exact hidle decl body (outline?_inj ho hother).2
  exact (h.of_ne hne).trans hother

end

end

/-- One closure or function may be new; otherwise every symbol keeps its outline. -/
structure Gains (t : SymbolTable) (new : SymbolId) (t' : SymbolTable) : Prop where
  kept : ∀ id outline, t.outline? id = some outline → t'.outline? id = some outline
  inverse : ∀ id place outline, new ≠ id → t'.outline? id = some (place, outline) → ¬ outline.Plain →
    t.outline? id = some (place, outline)

theorem Gains.extends {new : SymbolId} (h : t.Gains new t') : t.Extends t' :=
  fun id _ outline ho => ⟨outline, h.kept id _ ho, .refl outline⟩

theorem Gains.active {new : SymbolId} (h : t.Gains new t') : t.Active t' :=
  fun id _ _ _ ho => h.kept id _ ho

theorem Gains.refl (t : SymbolTable) (new : SymbolId) : t.Gains new t :=
  ⟨fun _ _ h => h, fun _ _ _ _ h _ => h⟩

theorem Gains.keeps {new : SymbolId} (h : t.Gains new t') (h' : t'.Keeps t'') : t.Gains new t'' :=
  ⟨fun id outline ho => h'.kept id outline (h.kept id outline ho),
    fun id place outline hne ho hplain =>
      h.inverse id place outline hne (h'.inverse id place outline ho hplain) hplain⟩

/-- The new symbol may be changed. -/
theorem Gains.sets {new : SymbolId} (h : t.Gains new t') (hnew : t.outline? new = none)
    (h' : t'.Sets new place outline t'') : t.Gains new t'' := by
  refine ⟨fun id o ho => ?_, fun id place' o hne ho hplain => ?_⟩
  · have hne : new ≠ id := fun heq => by simp [← heq, hnew] at ho
    exact (h'.of_ne hne).trans (h.kept id o ho)
  · exact h.inverse id place' o hne ((h'.of_ne hne).symm.trans ho) hplain

theorem outline?_size : t.outline? t.size = none := Option.eq_none_iff_forall_ne_some.mpr fun _ ho =>
  absurd (lt_size_of_outline? ho) (Nat.lt_irrefl _)

/-- A symbol is added. -/
theorem sets_add {entry : Symbol} :
    t.Sets t.size entry.scope entry.kind.outline (t.add entry).2 := by
  intro id
  have hget : (t.add entry).2.get? id = if id = t.size then some entry else t.get? id :=
    Array.getElem?_push
  rw [outline?, hget]
  by_cases heq : t.size = id
  · rw [if_pos heq, if_pos heq.symm]
    rfl
  · rw [if_neg heq, if_neg (Ne.symm heq)]
    rfl

theorem gains_add {entry : Symbol} : t.Gains t.size (t.add entry).2 :=
  (Gains.refl t t.size).sets outline?_size sets_add

theorem keeps_add {entry : Symbol} (hplain : entry.kind.outline.Plain) : t.Keeps (t.add entry).2 := by
  refine ⟨gains_add.kept, fun id place outline ho hnot => ?_⟩
  rcases sets_add.cases ho with ⟨-, -, rfl⟩ | ⟨-, hold⟩
  · exact absurd hplain hnot
  · exact hold

theorem outline?_modify {f : Symbol → Symbol} : (t.modify id f).outline? other =
    if id = other then (t.get? other).map fun entry => ((f entry).scope, (f entry).kind.outline)
    else t.outline? other := by
  have hget : (t.modify id f).get? other = if id = other then (t.get? other).map f else t.get? other :=
    Array.getElem?_modify
  rw [outline?, hget]
  split
  · rw [Option.map_map]
    rfl
  · rfl

/-- A change to a symbol that its outline does not show. -/
theorem outline?_modify_eq {f : Symbol → Symbol} (hscope : ∀ entry, (f entry).scope = entry.scope)
    (hkind : ∀ entry, t.get? id = some entry → (f entry).kind.outline = entry.kind.outline) :
    (t.modify id f).outline? other = t.outline? other := by
  rw [outline?_modify]
  split
  · next heq =>
    subst heq
    cases hget : t.get? id with
    | none => simp [outline?, hget]
    | some entry => simp [outline?, hget, hscope, hkind entry hget]
  · rfl

theorem outline?_modifyKind_eq {f : SymbolKind → SymbolKind}
    (hkind : ∀ kind, t.kind? id = some kind → (f kind).outline = kind.outline) :
    (t.modifyKind id f).outline? other = t.outline? other :=
  outline?_modify_eq (fun _ => rfl) fun _ hentry => hkind _ (kind?_of_get? hentry)

/-- A change to a function, which its outline may show. -/
theorem sets_modifyFunc {f : FuncInfo → FuncInfo} {info : FuncInfo} (h : t.func? id = some info)
    (ho : t.outline? id = some (place, outline)) :
    t.Sets id place (.func (f info).decl (f info).bodyScope (f info).state) (t.modifyFunc id f) := by
  intro other
  obtain ⟨entry, hentry, hkind⟩ := Option.map_eq_some_iff.mp (func?_eq_some.mp h)
  obtain ⟨rfl, -⟩ := outline?_inj (outline?_of_get? hentry) ho
  rw [modifyFunc, modifyKind, outline?_modify]
  split
  · next heq =>
    subst heq
    simp [hentry, hkind, SymbolKind.outline]
  · rfl

theorem outline?_modifyFunc_eq {f : FuncInfo → FuncInfo} (hdecl : ∀ info, (f info).decl = info.decl)
    (hbody : ∀ info, (f info).bodyScope = info.bodyScope)
    (hstate : ∀ info, (f info).state = info.state) :
    (t.modifyFunc id f).outline? other = t.outline? other := by
  refine outline?_modifyKind_eq fun kind _ => ?_
  cases kind with
  | func info => simp only [SymbolKind.outline, hdecl, hbody, hstate]
  | _ => rfl

theorem sets_modifyClosure {f : ClosureInfo → ClosureInfo} {info : ClosureInfo}
    (h : t.closure? id = some info) (ho : t.outline? id = some (place, outline)) :
    t.Sets id place (.closure (f info).links) (t.modifyClosure id f) := by
  intro other
  obtain ⟨entry, hentry, hkind⟩ := Option.map_eq_some_iff.mp (closure?_eq_some.mp h)
  obtain ⟨rfl, -⟩ := outline?_inj (outline?_of_get? hentry) ho
  rw [modifyClosure, modifyKind, outline?_modify]
  split
  · next heq =>
    subst heq
    simp [hentry, hkind, SymbolKind.outline]
  · rfl

theorem outline?_modifyClosure_eq {f : ClosureInfo → ClosureInfo}
    (hlinks : ∀ info, (f info).links = info.links) :
    (t.modifyClosure id f).outline? other = t.outline? other := by
  refine outline?_modifyKind_eq fun kind _ => ?_
  cases kind with
  | closure info => exact congrArg Outline.closure (hlinks info)
  | _ => rfl

/-- A capture is added to a closure. -/
theorem sets_capture {links : Links} {c : Capture} (h : t.outline? id = some (place, .closure links)) :
    t.Sets id place (.closure (links.push c))
      (t.modifyClosure id fun info => { info with captures := info.captures ++ [c] }) := by
  obtain ⟨info, hinfo, rfl⟩ := closure?_of_outline? h
  exact sets_modifyClosure hinfo h

end SymbolTable

end Stela
