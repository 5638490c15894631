import Stela.Proofs.Check.Closing
import Stela.Proofs.Check.Preservation

/-!
# Expressions that are not typed yet

Every expression is typed at most once, when it is visited. What is left to be
typed are some expressions that the analysis is about to visit and those in the
bodies of functions that were not analyzed yet, all of them different. So the
type of an expression changes only when a placeholder is replaced.
-/

namespace Stela

namespace Occurrence

theorem ids_perm {items items' : List Occurrence} (h : items.Perm items') :
    (ids items).Perm (ids items') := h.filterMap _

theorem ids_sublist {items items' : List Occurrence} (h : items.Sublist items') :
    (ids items).Sublist (ids items') := h.filterMap _

end Occurrence

namespace CheckState

variable {s s' s'' : CheckState} {whole items items' rest : List Occurrence} {func : SymbolId}
  {visited visited' visited'' : List Nat}

/-- The expressions and functions in the body of a function. -/
def bodyItems (s : CheckState) (func : SymbolId) : List Occurrence :=
  match s.tables.symbols.func? func with
  | some info => Stmt.optionItems info.decl.body
  | none => []

/-- The function was not analyzed yet. -/
def Unchecked (s : CheckState) (func : SymbolId) : Prop :=
  (s.tables.symbols.func? func).map FuncInfo.state = some .unchecked

/-- The expressions are different ones of the program and have no types. -/
structure Untyped (s : CheckState) (whole items : List Occurrence) : Prop where
  distinct : (Occurrence.ids items).Nodup
  untyped : ∀ id ∈ Occurrence.ids items, s.exprTypes.get? id = none
  inside : ∀ item ∈ items, item ∈ whole

theorem Untyped.perm (h : s.Untyped whole items) (hperm : items.Perm items') :
    s.Untyped whole items' :=
  ⟨(Occurrence.ids_perm hperm).nodup_iff.mp h.distinct,
    fun id hid => h.untyped id ((Occurrence.ids_perm hperm).mem_iff.mpr hid),
    fun item hitem => h.inside item (hperm.mem_iff.mpr hitem)⟩

theorem Untyped.sublist (h : s.Untyped whole items) (hsub : items'.Sublist items) :
    s.Untyped whole items' :=
  ⟨(Occurrence.ids_sublist hsub).nodup h.distinct,
    fun id hid => h.untyped id ((Occurrence.ids_sublist hsub).subset hid),
    fun item hitem => h.inside item (hsub.subset hitem)⟩

/-- What is left to be typed: the given expressions, and those in the bodies of functions that were
not analyzed yet. -/
def Owes (s : CheckState) (whole items : List Occurrence) : Prop :=
  ∀ funcs : List SymbolId, funcs.Nodup → (∀ func ∈ funcs, s.Unchecked func) →
    s.Untyped whole (items ++ funcs.flatMap s.bodyItems)

namespace Owes

/-- Steps that type nothing, and add no function that is to be analyzed. -/
theorem of_untyped (h : s.Owes whole items)
    (hexprs : ∀ node, s.exprTypes.get? node = none → s'.exprTypes.get? node = none)
    (hfuncs : ∀ func, s'.Unchecked func → s.Unchecked func ∧ s'.bodyItems func = s.bodyItems func) :
    s'.Owes whole items := by
  intro funcs hnodup hunchecked
  have hall := h funcs hnodup fun func hfunc => (hfuncs func (hunchecked func hfunc)).1
  have heq : funcs.flatMap s'.bodyItems = funcs.flatMap s.bodyItems :=
    List.flatMap_congr fun func hfunc => (hfuncs func (hunchecked func hfunc)).2
  rw [heq]
  exact ⟨hall.distinct, fun id hid => hexprs id (hall.untyped id hid), hall.inside⟩

/-- Some expressions need not be typed after all. -/
theorem sublist (h : s.Owes whole items) (hsub : items'.Sublist items) : s.Owes whole items' :=
  fun funcs hnodup hunchecked =>
    (h funcs hnodup hunchecked).sublist (hsub.append (.refl _))

/-- An expression is typed. -/
theorem record {e : Expr} (h : s.Owes whole (.expr e :: items)) {typing : Typing} :
    Owes { s with exprTypes := s.exprTypes.insert e.id typing } whole items := by
  intro funcs hnodup hunchecked
  have hall := h funcs hnodup hunchecked
  obtain ⟨hnot, hdistinct⟩ := List.nodup_cons.mp hall.distinct
  refine ⟨hdistinct, fun id hid => ?_, fun item hitem =>
    hall.inside item (List.mem_cons_of_mem _ hitem)⟩
  have hne : id ≠ e.id := fun heq => hnot (heq ▸ hid)
  exact (NodeMap.get?_insert_ne hne).trans (hall.untyped id (List.mem_cons_of_mem _ hid))

/-- The expressions in the body of a function are typed next. -/
theorem opens (h : s.Owes whole items) (hfunc : s.Unchecked func) (hactive : ¬ s'.Unchecked func)
    (hexprs : ∀ node, s.exprTypes.get? node = none → s'.exprTypes.get? node = none)
    (hfuncs : ∀ func, s'.Unchecked func → s.Unchecked func ∧ s'.bodyItems func = s.bodyItems func) :
    s'.Owes whole (s.bodyItems func ++ items) := by
  intro funcs hnodup hunchecked
  have hne : func ∉ funcs := fun hmem => hactive (hunchecked func hmem)
  have hall := h (func :: funcs) (List.nodup_cons.mpr ⟨hne, hnodup⟩) fun other hother => by
    rcases List.mem_cons.mp hother with rfl | hother
    · exact hfunc
    · exact (hfuncs other (hunchecked other hother)).1
  have heq : funcs.flatMap s'.bodyItems = funcs.flatMap s.bodyItems :=
    List.flatMap_congr fun func hfunc => (hfuncs func (hunchecked func hfunc)).2
  have hperm : (items ++ (func :: funcs).flatMap s.bodyItems).Perm
      ((s.bodyItems func ++ items) ++ funcs.flatMap s'.bodyItems) := by
    rw [heq, List.flatMap_cons, ← List.append_assoc]
    exact List.perm_append_comm.append_right _
  have hopened := hall.perm hperm
  exact ⟨hopened.distinct, fun id hid => hexprs id (hopened.untyped id hid), hopened.inside⟩

/-- The expressions in a function that is declared are typed with its body. -/
theorem declares {decl : FuncDecl} (h : s.Owes whole (Stmt.optionItems decl.body ++ items))
    (hbody : s'.bodyItems func = Stmt.optionItems decl.body)
    (hexprs : ∀ node, s.exprTypes.get? node = none → s'.exprTypes.get? node = none)
    (hfuncs : ∀ other, other ≠ func → s'.Unchecked other →
      s.Unchecked other ∧ s'.bodyItems other = s.bodyItems other) : s'.Owes whole items := by
  intro funcs hnodup hunchecked
  have hothers (others : List SymbolId) (hsub : ∀ other ∈ others, other ∈ funcs ∧ other ≠ func)
      (hdistinct : others.Nodup) :
      s'.Untyped whole ((Stmt.optionItems decl.body ++ items) ++ others.flatMap s'.bodyItems) := by
    have hsame (other : SymbolId) (hother : other ∈ others) :=
      hfuncs other (hsub other hother).2 (hunchecked other (hsub other hother).1)
    have hall := h others hdistinct fun other hother => (hsame other hother).1
    rw [List.flatMap_congr fun other hother => (hsame other hother).2]
    exact ⟨hall.distinct, fun id hid => hexprs id (hall.untyped id hid), hall.inside⟩
  by_cases hmem : func ∈ funcs
  · have hperm := (List.perm_cons_erase hmem).flatMap_right s'.bodyItems
    rw [List.flatMap_cons, hbody] at hperm
    refine (hothers (funcs.erase func) (fun other hother => ?_) (hnodup.erase func)).perm ?_
    · exact ⟨List.mem_of_mem_erase hother, fun heq => hnodup.not_mem_erase (heq ▸ hother)⟩
    · refine .trans ?_ (hperm.symm.append_left items)
      rw [← List.append_assoc]
      exact List.perm_append_comm.append_right _
  · refine (hothers funcs (fun other hother => ⟨hother, fun heq => hmem (heq ▸ hother)⟩)
      hnodup).sublist ?_
    rw [List.append_assoc]
    exact List.sublist_append_right _ _

end Owes

/-- Only values are typed: no name of a type or module is, also if it is a part of a path. -/
def TypesValues (s : CheckState) (whole : List Occurrence) : Prop :=
  ∀ node typing, s.exprTypes.get? node = some typing →
    ∃ e, .expr e ∈ whole ∧ e.id = node ∧ s.IsValue e

theorem TypesValues.mono (h : s.TypesValues whole) (hrecalls : s.Recalls s')
    (hexprs : ∀ node, s.exprTypes.get? node = none → s'.exprTypes.get? node = none) :
    s'.TypesValues whole := by
  intro node typing' htyping'
  cases htyping : s.exprTypes.get? node with
  | none => simp [hexprs node htyping] at htyping'
  | some typing =>
      obtain ⟨e, he, hid, hvalue⟩ := h node typing htyping
      exact ⟨e, he, hid, hrecalls.isValue hvalue⟩

/-- The expressions with a type are those that were visited, each of them once. -/
structure Counts (s : CheckState) (visited : List Nat) : Prop where
  distinct : visited.Nodup
  typed : ∀ id, id ∈ visited ↔ (s.exprTypes.get? id).isSome = true

/-- Steps that neither type an expression nor forget a type. -/
theorem Counts.of_exprs (h : s.Counts visited)
    (hexprs : ∀ node, (s'.exprTypes.get? node).isSome = (s.exprTypes.get? node).isSome) :
    s'.Counts visited :=
  ⟨h.distinct, fun id => (h.typed id).trans (by rw [hexprs])⟩

/-- An expression without a type was not visited before. -/
theorem Counts.record {id : Nat} {typing : Typing} (h : s.Counts visited)
    (hnone : s.exprTypes.get? id = none) :
    Counts { s with exprTypes := s.exprTypes.insert id typing } (id :: visited) := by
  have hnew : id ∉ visited := fun hmem => by
    have hsome := (h.typed id).mp hmem
    simp [hnone] at hsome
  refine ⟨List.nodup_cons.mpr ⟨hnew, h.distinct⟩, fun other => ?_⟩
  by_cases heq : other = id
  · subst heq
    simp
  · simp [NodeMap.get?_insert_ne heq, heq, h.typed other]

/-- A sound state in which every alias has its target, the functions that are done are checked, the
given expressions were visited, and others are left to be typed. A result type that a function
declares is known. -/
structure Firm (s : CheckState) (visited : List Nat) (whole items : List Occurrence) : Prop where
  sound : s.Sound
  complete : s.tables.Complete
  checked : s.Checked
  annotated : s.Annotated
  owes : s.Owes whole items
  values : s.TypesValues whole
  counts : s.Counts visited

/-- What holds around a part of the analysis after which the given expressions were visited and others
are left to be typed. -/
structure Advances (s : CheckState) (whole items : List Occurrence) (s' : CheckState)
    (visited' : List Nat) : Prop where
  carries : s.Carries s'
  firm : s'.Firm visited' whole items

theorem Advances.trans (h : s.Advances whole items s' visited')
    (h' : s'.Advances whole items' s'' visited'') : s.Advances whole items' s'' visited'' :=
  ⟨h.carries.trans h'.carries, h'.firm⟩

/-- The body of a function whose progress is not changed is the same. -/
theorem unchecked_of_states (hgrows : s.tables.Contained s'.tables)
    (hstate : (s'.tables.symbols.func? func).map FuncInfo.state =
      (s.tables.symbols.func? func).map FuncInfo.state) (h : s'.Unchecked func) :
    s.Unchecked func ∧ s'.bodyItems func = s.bodyItems func := by
  refine ⟨hstate.symm.trans h, ?_⟩
  unfold Unchecked at h
  rw [hstate] at h
  obtain ⟨info, hinfo, -⟩ := Option.map_eq_some_iff.mp h
  obtain ⟨info', hinfo', hbecomes⟩ := hgrows.func hinfo
  simp only [bodyItems, hinfo, hinfo', hbecomes.decl]

/-- A function that was done before is done if its progress is not changed. -/
theorem done_of_states (hstate : (s'.tables.symbols.func? func).map FuncInfo.state =
      (s.tables.symbols.func? func).map FuncInfo.state) {info' : FuncInfo}
    (hinfo' : s'.tables.symbols.func? func = some info') (hdone : info'.state = .done) :
    ∃ info, s.tables.symbols.func? func = some info ∧ info.state = .done := by
  rw [hinfo', Option.map_some, hdone, eq_comm] at hstate
  exact Option.map_eq_some_iff.mp hstate

namespace Firm

theorem refl (h : s.Firm visited whole items) : s.Advances whole items s visited :=
  ⟨.refl h.sound.tables, h⟩

/-- A part of the analysis that types nothing and ends no body. -/
theorem leads (h : s.Firm visited whole items) (hs' : s'.Sound) (hleads : s.Leads s')
    (hstates : ∀ func, (s'.tables.symbols.func? func).map FuncInfo.state =
      (s.tables.symbols.func? func).map FuncInfo.state)
    (hexprs : ∀ node, s'.exprTypes.get? node = s.exprTypes.get? node) :
    s.Advances whole items s' visited := by
  have hcarries := hleads.carries h.sound hs' fun node typing hnode => (hexprs node).trans hnode
  have huntyped (node : Nat) (hnode : s.exprTypes.get? node = none) := (hexprs node).trans hnode
  exact ⟨hcarries, hs', h.complete.grows hleads.grows, hcarries.checked h.checked
      fun func info' hinfo' hdone _ => done_of_states (hstates func) hinfo' hdone,
    hleads.annotated hs' h.annotated,
    h.owes.of_untyped huntyped fun func =>
      unchecked_of_states hleads.grows.toContained (hstates func),
    h.values.mono hcarries.recalls huntyped, h.counts.of_exprs fun node => by rw [hexprs]⟩

theorem steps (h : s.Firm visited whole items) (hstep : s.Steps s') :
    s.Advances whole items s' visited :=
  h.leads hstep.sound hstep.leads hstep.states fun _ => hstep.exprs ▸ rfl

theorem calm (h : s.Firm visited whole items) (hcalm : s.Calm s') :
    s.Advances whole items s' visited :=
  h.steps hcalm.steps

theorem drop (h : s.Firm visited whole (items ++ rest)) : s.Firm visited whole rest :=
  ⟨h.sound, h.complete, h.checked, h.annotated, h.owes.sublist (List.sublist_append_right _ _),
    h.values, h.counts⟩

/-- The type of an expression is recorded. -/
theorem record {settings : Settings} {e : Expr} {context : ExprContext} {type r : ExprType}
    (h : s.Firm visited whole (.expr e :: items)) (hs' : s'.Sound) (hvalue : s.IsValue e)
    (hrecord : (Check.record e.node context type).Gives settings s r s') :
    s.Advances whole items s' (e.node.id :: visited) ∧ s'.typeOf? e = some r ∧ type = r := by
  obtain ⟨rfl, rfl, -⟩ := Check.record_gives hrecord
  have hall := h.owes [] List.nodup_nil (by simp)
  have hnone : s.exprTypes.get? e.id = none :=
    hall.untyped e.id (Occurrence.mem_ids.mpr ⟨e, by simp, rfl⟩)
  have hcarries : s.Carries { s with exprTypes := s.exprTypes.insert e.node.id ⟨e.node.span, r⟩ } := by
    refine ⟨h.sound.tables, h.sound.tables, .refl _, fun node typing hnode => ?_,
      fun func info hinfo hdone => ⟨info, hinfo, hdone⟩, fun _ h => h, .refl _⟩
    have hne : node ≠ e.node.id := by
      rintro rfl
      exact absurd (hnone.symm.trans hnode) (by simp)
    exact (NodeMap.get?_insert_ne hne).trans hnode
  refine ⟨⟨hcarries, hs', h.complete, hcarries.checked h.checked fun func info hinfo hdone _ =>
    ⟨info, hinfo, hdone⟩, h.annotated, h.owes.record, fun node typing htyping => ?_, h.counts.record hnone⟩, ?_,
    rfl⟩
  · by_cases heq : node = e.node.id
    · exact ⟨e, hall.inside _ (by simp), heq.symm, hcarries.recalls.isValue hvalue⟩
    · obtain ⟨e', he', hid, hvalue'⟩ :=
        h.values node typing ((NodeMap.get?_insert_ne heq).symm.trans htyping)
      exact ⟨e', he', hid, hcarries.recalls.isValue hvalue'⟩
  · simp [CheckState.typeOf?, Expr.id]

end Firm

end CheckState

end Stela
