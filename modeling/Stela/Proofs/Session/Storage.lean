import Stela.Proofs.Check.Variables
import Stela.Proofs.Session.Deduction
import Stela.Proofs.Syntax.Enclosing

/-!
# Storage in a session

In a program that was analyzed without an error an expression is assignable just
if it is rooted in a variable that the source declares to be mutable. So nothing
else is assigned to, passed by reference or changed by a method.
-/

namespace Stela

/-! ## Variables -/

/-- The variables, parameters and receivers that the modules of a session declare. -/
def Session.variables (s : Session) : List Variable :=
  (s.externals ++ s.modules).flatMap Module.variables

namespace Session

open Check CheckState

/-- The objects and functions that the modules of a session declare. -/
def Sources (s : Session) (declared : SourceDecl) : Prop :=
  (∃ v ∈ s.variables, v.Declares declared) ∨ ∃ decl, .func decl ∈ s.items ∧ declared = .func decl

theorem enclosed (s : Session) : Enclosed s.values s.items :=
  Enclosed.flatMap fun m _ => m.enclosed

variable {session : Session}

theorem within_of_mem {item : Occurrence} (h : item ∈ session.items) :
    item.Within session.Sources := by
  refine ⟨fun v hv declared hdeclares => .inl ⟨v, ?_, hdeclares⟩, fun decl heq => ?_⟩
  · obtain ⟨m, hm, hitem⟩ := List.mem_flatMap.mp h
    refine List.mem_flatMap.mpr ⟨m, hm, List.mem_append_right _ ?_⟩
    exact List.mem_flatMap.mpr ⟨item, hitem, hv⟩
  · exact .inr ⟨decl, heq ▸ h, rfl⟩

theorem closed_sources : Closed session.Sources := by
  rintro decl (⟨v, -, type, heq⟩ | ⟨other, hmem, heq⟩) item hitem
  · cases heq
  · obtain rfl := SourceDecl.func.inj heq
    exact within_of_mem (session.enclosed.funcs _ hmem hitem)

theorem decl_within {m : Module} (hm : m ∈ session.externals ++ session.modules) {decl : Decl}
    (hdecl : decl ∈ m.decls) : decl.Within session.Sources := by
  refine ⟨fun item hitem => within_of_mem ?_, fun v hv declared hdeclares => .inl ⟨v, ?_, hdeclares⟩⟩
  · exact List.mem_flatMap.mpr ⟨m, hm, List.mem_flatMap.mpr ⟨decl, hdecl, hitem⟩⟩
  · refine List.mem_flatMap.mpr ⟨m, hm, List.mem_append_left _ ?_⟩
    exact List.mem_flatMap.mpr ⟨decl, hdecl, hv⟩

/-- All objects and functions of a program are declared by the modules of the session. -/
theorem among_final {settings : Settings} {program : Program}
    (h : (session.check settings).outcome = .ok program) : program.final.Among session.Sources := by
  obtain ⟨externals, modules, s₁, s₂, hexternals, hmodules, hfirst, hsecond, hwarn⟩ := check_runs h
  have checked {isExternal : Bool} {bound : Nat} {all : List Module}
      (hall : ∀ m ∈ all, m ∈ session.externals ++ session.modules) :
      Keeping session.Sources (all.forM (checkModule bound isExternal)) :=
    .forM fun m hm => keeping_checkModule closed_sources fun _ hdecl => decl_within (hall m hm) hdecl
  have hfirst := (checked fun m hm =>
    List.mem_append_left _ ((perm_of_arrange hexternals).mem_iff.mp hm)).among hfirst among_initial
  have hsecond := (checked fun m hm =>
    List.mem_append_right _ ((perm_of_arrange hmodules).mem_iff.mp hm)).among hsecond hfirst
  exact quiet_warnUnused.among hwarn hsecond

end Session

/-! ## Expressions that can be written -/

namespace Program

/-- A node means the object that is declared as the variable. -/
def Denotes (p : Program) (node : Nat) (v : Variable) : Prop :=
  ∃ symbol declared, p.final.meanings.exprs.get? node = some symbol ∧
    p.tables.symbols.declared? symbol = some declared ∧ v.Declares declared

/-- An expression is rooted in a variable that is declared to be mutable: it is the name of one, a
field or element of such an expression, or a choice between two of them. -/
inductive Writable (p : Program) (vars : List Variable) : Expr → Prop
  | name {node name v} (hv : v ∈ vars) (hmutable : v.mutability = .mutable)
      (hdenotes : p.Denotes node.id v) : Writable p vars (.ident node name)
  | qualified {node object name scope v} (hobject : p.final.Names object (.moduleSpace scope))
      (hv : v ∈ vars) (hmutable : v.mutability = .mutable) (hdenotes : p.Denotes node.id v) :
      Writable p vars (.member node object name)
  | field {node object name} (hobject : Writable p vars object) :
      Writable p vars (.member node object name)
  | element {node base subscript} (hbase : Writable p vars base) :
      Writable p vars (.index node base subscript)
  | branches {node cond onTrue onFalse} (honTrue : Writable p vars onTrue)
      (honFalse : Writable p vars onFalse) : Writable p vars (.ternary node cond onTrue onFalse)

section

open CheckState

variable {p : Program} {vars : List Variable} {e : Expr} {node : Nat} {v : Variable} {b : Bool}

theorem Denotes.means (h : p.Denotes node v) : ∃ type,
    p.final.Means node (.object ⟨.named type v.mutability, v.origin⟩) := by
  obtain ⟨symbol, declared, hsymbol, hdeclared, type, rfl⟩ := h
  obtain ⟨entry, hentry, hd⟩ := Option.bind_eq_some_iff.mp hdeclared
  refine ⟨type, symbol, hsymbol, Option.map_eq_some_iff.mpr ⟨entry, hentry, ?_⟩⟩
  unfold Symbol.declared? SymbolKind.declared? at hd
  split at hd
  · next info hkind =>
    rw [hkind, (SourceDecl.object.inj (Option.some.inj hd)).2.2]
  · cases hd
  · cases hd

/-- An object that is declared to be mutable is assignable. -/
theorem Denotes.writable {kind : SymbolKind} (h : p.Denotes node v) (hmutable : v.mutability = .mutable)
    (hmeans : p.final.Means node kind) (hwritable : kind.writable? = some b) : b = true := by
  obtain ⟨type, hobject⟩ := h.means
  rw [hmeans.unique hobject, hmutable] at hwritable
  exact (Option.some.inj hwritable).symm

/-- Only a variable that is declared to be mutable is assignable. -/
theorem exists_denotes {session : Session} (hamong : p.final.Among session.Sources) {kind : SymbolKind}
    (hmeans : p.final.Means node kind) (hwritable : kind.writable? = some true) :
    ∃ v ∈ session.variables, v.mutability = .mutable ∧ p.Denotes node v := by
  obtain ⟨symbol, hsymbol, hkind⟩ := hmeans
  cases kind with
  | object info =>
      obtain ⟨entry, hentry, hobject⟩ := Option.map_eq_some_iff.mp hkind
      have hdeclared : p.final.tables.symbols.declared? symbol =
          some (.object entry.name entry.span info) := by
        rw [SymbolTable.declared?_of_get? hentry, Symbol.declared?, hobject]
        rfl
      obtain ⟨v, hv, type, heq⟩ | ⟨decl, -, heq⟩ := hamong symbol _ hdeclared
      · refine ⟨v, hv, ?_, symbol, _, hsymbol, hdeclared, type, heq⟩
        have hassignable : info.type.isAssignable = true := Option.some.inj hwritable
        rw [(SourceDecl.object.inj heq).2.2] at hassignable
        cases hmutability : v.mutability with
        | mutable => rfl
        | fixed => simp [hmutability, ExprType.named, ExprType.isAssignable] at hassignable
      · cases heq
  | func info => cases hwritable
  | _ => cases hwritable

theorem Writable.not_names (h : p.Writable vars e) {space : SymbolKind} : ¬ p.final.Names e space := by
  induction h generalizing space with
  | name _ _ hdenotes | qualified _ _ _ hdenotes =>
      obtain ⟨type, hobject⟩ := hdenotes.means
      exact hobject.not_names rfl
  | field _ ih =>
      intro hnames
      cases hnames with
      | member hmodule => exact ih hmodule
  | element | branches => intro hnames; cases hnames

/-- What stands for storage that can be written is rooted in a mutable variable. -/
theorem writable_of_storage {session : Session} (hamong : p.final.Among session.Sources)
    (h : p.final.Storage e b) (hb : b = true) : p.Writable session.variables e := by
  induction h with
  | name hmeans hwritable =>
      obtain ⟨v, hv, hmutable, hdenotes⟩ := exists_denotes hamong hmeans (hb ▸ hwritable)
      exact .name hv hmutable hdenotes
  | qualified hobject hmeans hwritable =>
      obtain ⟨v, hv, hmutable, hdenotes⟩ := exists_denotes hamong hmeans (hb ▸ hwritable)
      exact .qualified hobject hv hmutable hdenotes
  | static => cases hb
  | part _ ih => exact .field (ih hb)
  | element _ ih => exact .element (ih hb)
  | branches _ _ ih ih' =>
      obtain ⟨hleft, hright⟩ := Bool.and_eq_true_iff.mp hb
      exact .branches (ih hleft) (ih' hright)
  | fresh => cases hb

/-- What is rooted in a mutable variable stands for storage that can be written. -/
theorem Writable.storage (hwritable : p.Writable vars e) (h : p.final.Storage e b) : b = true := by
  induction h with
  | name hmeans hkind =>
      cases hwritable with
      | name _ hmutable hdenotes => exact hdenotes.writable hmutable hmeans hkind
  | qualified hobject hmeans hkind =>
      cases hwritable with
      | qualified _ _ hmutable hdenotes => exact hdenotes.writable hmutable hmeans hkind
      | field hfield => exact absurd hobject hfield.not_names
  | static hobject htype =>
      cases hwritable with
      | qualified hobject' =>
          rw [hobject.unique hobject'] at htype
          cases htype
      | field hfield => exact absurd hobject hfield.not_names
  | part hobject ih =>
      cases hwritable with
      | qualified hobject' => exact absurd hobject' hobject.not_names
      | field hfield => exact ih hfield
  | element _ ih =>
      cases hwritable with
      | element hbase => exact ih hbase
  | branches _ _ ih ih' =>
      cases hwritable with
      | branches honTrue honFalse => rw [ih honTrue, ih' honFalse, Bool.and_self]
  | fresh hfresh => cases hwritable <;> cases hfresh

end

/-- An expression is assignable just if it is rooted in a mutable variable, and only such expressions
are written. -/
structure WritesVariables (p : Program) (vars : List Variable) (items : List Occurrence) : Prop where
  /-- Parameters that are passed by reference are mutable variables. -/
  passing : AllPassing items
  /-- An expression that is not called is typed as a value or condition, unless it is the name of a type
  or module. -/
  values : ∀ e, .expr e ∈ items → (∀ node args, .expr (.call node e args) ∉ items) →
    (p.typeOf? e = none ∧ ∃ space, p.final.Names e space) ∨ ∃ type, p.typeOf? e = some type ∧
      (type.isAssignable = true ↔ p.Writable vars e)
  assignments : ∀ item ∈ items, ∀ node target op value, .assign node target op value ∈ item.stmts →
    p.Writable vars target
  references : ∀ node callee args, .expr (.call node callee args) ∈ items →
    ∃ calleeType params ret, p.typeOf? callee = some calleeType ∧
      p.tables.concreteTy? calleeType.type = some (.func params ret) ∧
      params.length = args.length ∧ ∀ param arg, (param, arg) ∈ params.zip args →
        param.1 = .reference → p.Writable vars arg
  /-- A member is reached through the name of a type or module, or it is a field of a host type, or it
  has a meaning. A method that changes its receiver is reached through what can be written. -/
  receivers : ∀ node object name, .expr (.member node object name) ∈ items →
    (∃ space, p.final.Names object space) ∨ ∃ type, p.typeOf? object = some type ∧
      ((∃ host, p.tables.concreteTy? type.type = some (.hostType host)) ∨
        ∃ kind, p.final.Means node.id kind ∧ (kind.writesReceiver = true → p.Writable vars object))

section

open CheckState

variable {session : Session} {p : Program} {e : Expr}

/-- The name of a type or module has no type. -/
theorem typeOf?_eq_none (hdistinct : (Occurrence.ids session.items).Nodup)
    (hvalues : p.final.TypesValues session.items) (he : .expr e ∈ session.items) {space : SymbolKind}
    (hnames : p.final.Names e space) : p.typeOf? e = none := by
  refine Option.map_eq_none_iff.mpr (Option.eq_none_iff_forall_ne_some.mpr fun typing htyping => ?_)
  obtain ⟨e', he', hid, hvalue⟩ := hvalues _ typing htyping
  rw [Occurrence.eq_of_id_eq hdistinct he' he hid] at hvalue
  exact hvalue.not_names hnames

theorem isAssignable_iff (hamong : p.final.Among session.Sources) {type : ExprType}
    (h : p.final.Storage e type.isAssignable) :
    type.isAssignable = true ↔ p.Writable session.variables e :=
  ⟨writable_of_storage hamong h, fun hwritable => hwritable.storage h⟩

/-- A typed value that is assignable is rooted in a mutable variable. -/
theorem writable_of_valued (hamong : p.final.Among session.Sources) (h : p.final.Valued e)
    {type : ExprType} (htype : p.typeOf? e = some type) (hassignable : type.isAssignable = true) :
    p.Writable session.variables e := by
  obtain ⟨type', htype', hstores⟩ := h
  obtain rfl := Option.some.inj (htype.symm.trans htype')
  exact (isAssignable_iff hamong hstores.storage).mp hassignable

/-- An argument that is accepted by a reference parameter is assignable. -/
theorem isAssignable_of_accepts {t : Tables} {params : List (RefKind × TypeId)} {args : List Expr}
    {argTypes : List ExprType} {typeOf : Expr → Option ExprType}
    (haccepts : t.accepts params argTypes = true) (hargs : args.map typeOf = argTypes.map some)
    {param : RefKind × TypeId} {arg : Expr} (hmem : (param, arg) ∈ params.zip args)
    (hkind : param.1 = .reference) : ∃ type, typeOf arg = some type ∧ type.isAssignable = true := by
  obtain ⟨i, hi⟩ := List.mem_iff_getElem?.mp hmem
  obtain ⟨hparam, harg⟩ := List.getElem?_zip_eq_some.mp hi
  have htypes : (args[i]?).map typeOf = (argTypes[i]?).map some := by
    rw [← List.getElem?_map, ← List.getElem?_map, hargs]
  rw [harg] at htypes
  obtain ⟨type, htype, heq⟩ := Option.map_eq_some_iff.mp htypes.symm
  have hpair : (param, type) ∈ params.zip argTypes :=
    List.mem_iff_getElem?.mpr ⟨i, List.getElem?_zip_eq_some.mpr ⟨hparam, htype⟩⟩
  have hfits := List.all_eq_true.mp (Bool.and_eq_true_iff.mp haccepts).2 _ hpair
  exact ⟨type, heq.symm, by simpa [hkind] using (Bool.and_eq_true_iff.mp hfits).1⟩

/-- An expression has a typed value, unless it is called or a member is reached through it. -/
theorem valued_or_part (hitems : ∀ item ∈ session.items, p.final.Holds item)
    (hvalues : ∀ e ∈ session.values, p.final.Valued e) (he : .expr e ∈ session.items) :
    p.final.Valued e ∨ (∃ node args, .expr (.call node e args) ∈ session.items) ∨
      ∃ node name, .expr (.member node e name) ∈ session.items := by
  rcases session.enclosed.exprs e he with hvalue | ⟨item, hitem, huse⟩
  · exact .inl (hvalues e hvalue)
  have huses := (hitems item hitem).uses
  have performed (h : e ∈ item.stmts.flatMap Stmt.operands) : p.final.Valued e := by
    obtain ⟨stmt, hstmt, he⟩ := List.mem_flatMap.mp h
    exact (huses.stmts stmt hstmt).operands e he
  cases item with
  | func decl => exact .inl (performed huse)
  | expr outer =>
      rcases List.mem_append.mp huse with huse | hstmts
      · rcases List.mem_append.mp huse with huse | hobject
        · rcases List.mem_append.mp huse with hoperand | hcallee
          · exact .inl (huses.operands e hoperand)
          · cases outer with
            | call node callee args =>
                obtain rfl := List.mem_singleton.mp hcallee
                exact .inr (.inl ⟨node, args, hitem⟩)
            | _ => cases hcallee
        · cases outer with
          | member node object name =>
              obtain rfl := List.mem_singleton.mp hobject
              exact .inr (.inr ⟨node, name, hitem⟩)
          | _ => cases hobject
      · exact .inl (performed hstmts)

/-- What was found about the items of a session says what is written. -/
theorem writesVariables_of_holds (hamong : p.final.Among session.Sources)
    (hpassing : AllPassing session.items) (hdistinct : (Occurrence.ids session.items).Nodup)
    (htyped : p.final.TypesValues session.items)
    (hitems : ∀ item ∈ session.items, p.final.Holds item)
    (hvalues : ∀ e ∈ session.values, p.final.Valued e) :
    p.WritesVariables session.variables session.items where
  passing := hpassing
  values e he hcalled := by
    rcases valued_or_part hitems hvalues he with
      ⟨type, htype, hstores⟩ | ⟨node, args, hcall⟩ | ⟨node, name, hmember⟩
    · exact .inr ⟨type, htype, isAssignable_iff hamong hstores.storage⟩
    · exact absurd hcall (hcalled node args)
    · rcases (hitems _ hmember).uses.object node e name rfl with
        ⟨space, hnames⟩ | ⟨type, htype, hstorage, -⟩
      · exact .inl ⟨typeOf?_eq_none hdistinct htyped he hnames, space, hnames⟩
      · exact .inr ⟨type, htype, isAssignable_iff hamong hstorage⟩
  assignments item hitem node target op value hstmt := by
    have hperforms := (hitems item hitem).uses.stmts _ hstmt
    obtain ⟨type, htype, hassignable⟩ := hperforms.targets target (by simp [Stmt.targets])
    exact writable_of_valued hamong (hperforms.operands target (by simp [Stmt.operands])) htype
      hassignable
  references node callee args hcall := by
    have hholds := hitems _ hcall
    obtain ⟨type, calleeType, argTypes, params, -, hcallee, hargs, hfunc, haccepts, -⟩ :=
      hholds.deduced
    refine ⟨calleeType, params, type.type, hcallee, hfunc, ?_, fun param arg hmem hkind => ?_⟩
    · have hlength : params.length = argTypes.length :=
        beq_iff_eq.mp (Bool.and_eq_true_iff.mp haccepts).1
      simpa using hlength.trans (by simpa using (congrArg List.length hargs).symm)
    · obtain ⟨argType, htype, hassignable⟩ := isAssignable_of_accepts haccepts hargs hmem hkind
      exact writable_of_valued hamong (hholds.uses.operands arg (List.of_mem_zip hmem).2) htype
        hassignable
  receivers node object name hmember := by
    rcases (hitems _ hmember).uses.object node object name rfl with
      hnames | ⟨type, htype, hstorage, -, hhost | ⟨kind, hmeans, hwrites⟩⟩
    · exact .inl hnames
    · exact .inr ⟨type, htype, .inl hhost⟩
    · exact .inr ⟨type, htype, .inr ⟨kind, hmeans,
        fun hw => (isAssignable_iff hamong hstorage).mp (hwrites hw)⟩⟩

end

end Program

namespace Session

open Check CheckState

/-- Writability is rooted in variables: in a program that was analyzed without an error, a value is
assignable just if it is the name of a variable, parameter or receiver that is declared to be mutable,
a field or an element of such a value, or a choice between two of them. Whatever is assigned to, passed
by reference or changed by a method is of this form. -/
theorem check_writesVariables (session : Session) (hbuilt : session.Built) (settings : Settings)
    (program : Program) (h : (session.check settings).outcome = .ok program) :
    program.WritesVariables session.variables session.items := by
  obtain ⟨visited, hvisits⟩ := exists_visits h
  obtain ⟨hgathers, hdecls⟩ := hvisits.gathers hbuilt
  exact Program.writesVariables_of_holds (among_final h) (passing_of_built hbuilt) (nodup_ids hbuilt)
    hgathers.firm.values hgathers.holds (valued_of_establishes hdecls)

/-- A receiver, a reference parameter and a variable that are all written. -/
def counting : Session :=
  Session.empty.withSource "main.stela"
    "struct Counter \x7b count: uint; var func bump() \x7b self.count += 1u; \x7d \x7d
     func reset(ref xs: [sint]) \x7b xs[0u] = 1; \x7d
     func main() \x7b var c: Counter; c.bump(); var xs = [2]; reset(true ? xs : xs); \x7d"

theorem check_counting_writesVariables : counting.Built ∧ ∃ program,
    (counting.check {}).outcome = .ok program ∧
      program.WritesVariables counting.variables counting.items := by
  have hbuilt : counting.Built := .withSource .empty _ _
  have hok : (counting.check {}).outcome.toOption.map (fun _ => ()) = some () := by
    rw [counting, withSource_ofList]
    decide +kernel
  obtain ⟨program, hprogram, -⟩ := exists_ok_of_map_toOption hok
  exact ⟨hbuilt, program, hprogram, check_writesVariables _ hbuilt _ _ hprogram⟩

end Session

/-- Whether this is an operation that counts as assignable, and that none of the given expressions
calls. -/
def Program.assignsResult (p : Program) (items : List Occurrence) : Occurrence → Bool
  | .expr (.binary node op lhs rhs) =>
    (p.typeOf? (.binary node op lhs rhs)).any ExprType.isAssignable && !items.any fun
      | .expr (.call _ callee _) => callee.id == node.id
      | _ => false
  | _ => false

theorem Program.WritesVariables.assignsResult_eq_false {p : Program} {vars : List Variable}
    {items : List Occurrence} (h : p.WritesVariables vars items) {item : Occurrence} (hitem : item ∈ items) :
    p.assignsResult items item = false := by
  unfold assignsResult
  split
  · next node op lhs rhs =>
    refine Bool.and_eq_false_iff.mpr (or_iff_not_imp_right.mpr fun hcalled => ?_)
    have hcallee (call : Node) (args : List Expr) :
        .expr (.call call (.binary node op lhs rhs) args) ∉ items := fun hmem =>
      hcalled (congrArg not (List.any_eq_true.mpr ⟨_, hmem, beq_self_eq_true node.id⟩))
    rcases h.values _ hitem hcallee with ⟨hnone, -⟩ | ⟨type, htype, hassignable⟩
    · rw [hnone, Option.any_none]
    · rw [htype, Option.any_some]
      exact Bool.eq_false_iff.mpr fun hwritable => nomatch hassignable.mp hwritable
  · rfl

namespace Session

/-- A parameter of a weak alias whose type has in the second check the number of a placeholder. -/
def adjoining : Session :=
  (Session.empty.withSource "a.stela" "func h(a: [sint]) { }").withSource "b.stela"
    "import a; type T = sint; func f(n: sint) { if n == 0 { return f(n); } return 1; }
     func g(var a: T) { a + a; }"

/-- The second check takes both operands of `a + a` for results that are not known yet, so the operation
has the type of the first one, with its mutability. -/
theorem recheck_adjoining_writes_result : adjoining.Built ∧ ∃ program,
    (adjoining.recheck {}).outcome = .ok program ∧
      ¬ program.WritesVariables adjoining.variables adjoining.items := by
  have hbuilt : adjoining.Built := .withSource (.withSource .empty _ _) _ _
  have hok : (adjoining.recheck {}).outcome.toOption.map (fun program =>
      adjoining.items.any (program.assignsResult adjoining.items)) = some true := by
    rw [adjoining, withSource_ofList, withSource_ofList]
    decide +kernel
  obtain ⟨program, hprogram, hassigns⟩ := exists_ok_of_map_toOption hok
  obtain ⟨item, hitem, hassigns⟩ := List.any_eq_true.mp hassigns
  exact ⟨hbuilt, program, hprogram, fun h =>
    Bool.false_ne_true ((h.assignsResult_eq_false hitem).symm.trans hassigns)⟩

end Session

end Stela
