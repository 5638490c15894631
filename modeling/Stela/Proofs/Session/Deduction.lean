import Stela.Proofs.Check.Program
import Stela.Proofs.Modules.Order
import Stela.Proofs.Session.Building
import Stela.Proofs.Session.Placeholders

/-!
# Deduction in a session

Every module of a session is analyzed once, and at the end nothing is left to be
assumed. So what was found about calls, conditional expressions and returned
values holds of the types that the program is given.
-/

namespace Stela

namespace Check

open CheckState

variable {settings : Settings} {s s' : CheckState}

/-- The modules are put into an order, and none is left out or repeated. -/
theorem perm_of_arrange {modules arranged : List Module} {external : List String}
    (h : (Session.arrange modules (findOrder (Session.importsOf modules) external)).Gives settings s arranged
      s') : arranged.Perm modules := by
  unfold Session.arrange at h
  split at h
  · next order horder =>
    obtain rfl := eq_filterMap_of_mapM (gives_require.mp h).1
    exact findOrder_filterMap_perm horder modules (List.length_map _)
  · simp at h

end Check

namespace CheckState

variable {s : CheckState} {a b : TypeId}

/-- Nothing is assumed in an idle state, so types that agree are the same. -/
theorem Idle.same (h : s.Idle) (hab : s.Agrees a b) : s.tables.same a b = true := by
  cases hab with
  | refl => exact h.sound.tables.same_refl a
  | same _ _ hsame => exact hsame
  | assumed hmem _ =>
      obtain ⟨info, hinfo, hstate⟩ := Option.map_eq_some_iff.mp (h.sound.assumptions _ hmem).1
      simp [h.done _ info hinfo] at hstate

end CheckState

namespace Program

/-- The type found for an expression. -/
def typeOf? (p : Program) (e : Expr) : Option ExprType :=
  (p.final.exprTypes.get? e.id).map Typing.type

/-- A body with this result may return the value, or return without one. -/
def Returns (p : Program) (ret : TypeId) : Option Expr → Prop
  | none => p.tables.isVoid ret = true
  | some value => ∃ type, p.typeOf? value = some type ∧ p.tables.same type.type ret = true

/-- What the analysis deduced about the given expressions and functions. -/
structure Deduces (p : Program) (items : List Occurrence) : Prop where
  /-- Each function has a symbol. -/
  declared : ∀ decl, .func decl ∈ items → ∃ func info,
    p.final.meanings.decls.get? decl.node.id = some func ∧
      p.tables.symbols.func? func = some info ∧ info.decl = decl
  /-- What the body of a function returns has the result type. -/
  functions : ∀ func info body, p.tables.symbols.func? func = some info →
    info.decl.body = some body → ∃ ret, info.ret = some ret ∧
      ∀ value ∈ Stmt.listReturned body, p.Returns ret value
  /-- What the body of a closure returns has the result type. -/
  closures : ∀ node sig body, .expr (.closure node sig body) ∈ items → ∃ closure info ret,
    p.final.meanings.exprs.get? node.id = some closure ∧
      p.tables.symbols.closure? closure = some info ∧ info.ret = some ret ∧
      ∀ value ∈ Stmt.listReturned body, p.Returns ret value
  /-- A callee has a function type that accepts the arguments and returns the type of the call. -/
  calls : ∀ node callee args, .expr (.call node callee args) ∈ items →
    ∃ type calleeType argTypes params ret, p.typeOf? (.call node callee args) = some type ∧
      p.typeOf? callee = some calleeType ∧ args.map p.typeOf? = argTypes.map some ∧
      p.tables.concreteTy? calleeType.type = some (.func params ret) ∧
      p.tables.accepts params argTypes = true ∧ p.tables.same ret type.type = true
  /-- Both branches of a conditional expression have its type. -/
  branches : ∀ node cond onTrue onFalse, .expr (.ternary node cond onTrue onFalse) ∈ items →
    ∃ type left right, p.typeOf? (.ternary node cond onTrue onFalse) = some type ∧
      p.typeOf? onTrue = some left ∧ p.typeOf? onFalse = some right ∧
      p.tables.same left.type type.type = true ∧ p.tables.same right.type type.type = true

theorem returns_of_idle {p : Program} (hidle : p.final.Idle) {ret : TypeId} {value : Option Expr}
    (h : p.final.Returns ret value) : p.Returns ret value := by
  cases value with
  | none => exact h
  | some value =>
      obtain ⟨type, htype, hagrees⟩ := h
      exact ⟨type, htype, hidle.same hagrees⟩

/-- In an idle state everything found is known of the types themselves. -/
theorem deduces_of_idle {p : Program} (hidle : p.final.Idle) (hchecked : p.final.Checked)
    {items : List Occurrence} (hitems : ∀ item ∈ items, p.final.Holds item) : p.Deduces items where
  declared decl hdecl := by
    obtain ⟨func, info, hfunc, hinfo, heq, -⟩ := (hitems _ hdecl).deduced
    exact ⟨func, info, hfunc, hinfo, heq⟩
  functions func info body hinfo hbody := by
    obtain ⟨-, ret, hret, hyields⟩ := hchecked func info body hinfo (hidle.done func info hinfo) hbody
    exact ⟨ret, hret, fun value hvalue => returns_of_idle hidle (hyields.values value hvalue)⟩
  closures node sig body hclosure := by
    obtain ⟨closure, info, ret, hmeaning, hinfo, hret, hyields⟩ := (hitems _ hclosure).deduced
    exact ⟨closure, info, ret, hmeaning, hinfo, hret,
      fun value hvalue => returns_of_idle hidle (hyields.values value hvalue)⟩
  calls node callee args hcall := by
    obtain ⟨type, calleeType, argTypes, params, htype, hcallee, hargs, hfunc, haccepts, -⟩ :=
      (hitems _ hcall).deduced
    exact ⟨type, calleeType, argTypes, params, type.type, htype, hcallee, hargs, hfunc, haccepts,
      hidle.same (.refl _)⟩
  branches node cond onTrue onFalse hternary := by
    obtain ⟨type, left, right, htype, hleft, hright, hl, hr⟩ := (hitems _ hternary).deduced
    exact ⟨type, left, right, htype, hleft, hright, hidle.same hl, hidle.same hr⟩

end Program

namespace Session

open Check CheckState

/-- At the start everything in a session that was built is left to be typed. -/
theorem firm_initial {session : Session} (hbuilt : session.Built) :
    (CheckState.initial {}).Firm [] session.items session.items := by
  refine ⟨idle_initial.sound, idle_initial.complete, fun func info body hinfo => ?_,
    fun func info hinfo => ?_,
    fun funcs _ hunchecked => ?_, fun node typing htyping => ?_, List.nodup_nil,
    fun id => by simp [calm_initial.exprs]⟩
  · simp [func?_initial] at hinfo
  · simp [func?_initial] at hinfo
  · have hfuncs : funcs = [] := List.eq_nil_iff_forall_not_mem.mpr fun func hfunc => by
      have hstate := hunchecked func hfunc
      simp [Unchecked, func?_initial] at hstate
    rw [hfuncs, List.flatMap_nil, List.append_nil]
    exact ⟨nodup_ids hbuilt, fun id _ => by simp [calm_initial.exprs], fun _ hitem => hitem⟩
  · simp [calm_initial.exprs] at htyping

/-- Whatever is in the modules of a session is found to hold at the end of its analysis, and their
variables can hold their values. -/
theorem Visits.gathers {session : Session} (hbuilt : session.Built) {settings : Settings}
    {final : CheckState} {visited : List Nat} (h : session.Visits settings final visited) :
    (CheckState.initial {}).Gathers session.items [] session.items final visited ∧
      ∀ m ∈ session.externals ++ session.modules, ∀ decl ∈ m.decls, final.Establishes decl := by
  obtain ⟨hexternals, hmodules, runExternals, runModules, hwarn⟩ := h
  rename_i externals modules s₁ s₂ visited₁
  have harranged := (perm_of_arrange hexternals).append (perm_of_arrange hmodules)
  have hperm : ((externals ++ modules).flatMap Module.items).Perm session.items :=
    harranged.flatMap_right _
  have hfirm := (firm_initial hbuilt).perm hperm.symm
  rw [List.flatMap_append] at hfirm hperm
  have hfirm : (CheckState.initial {}).Firm [] session.items
      (externals.flatMap Module.items ++ (modules.flatMap Module.items ++ [])) := by
    rwa [List.append_nil]
  obtain ⟨hgathers, hdecls⟩ := gathers_modules runExternals idle_initial hfirm
  have hidle := idle_modules runExternals idle_initial
  obtain ⟨hgathers', hdecls'⟩ := gathers_modules runModules hidle hgathers.firm
  have hend := hgathers'.firm.calm (calm_warnUnused hgathers'.firm.sound hwarn)
  have hall := (hgathers.trans hgathers').advances hend
  refine ⟨⟨hall.toAdvances, fun item hitem => hall.holds item (hperm.mem_iff.mpr hitem)⟩,
    fun m hm decl hdecl => hend.carries.establishes ?_⟩
  rcases List.mem_append.mp (harranged.mem_iff.mpr hm) with hm | hm
  · exact hgathers'.carries.establishes (hdecls m hm decl hdecl)
  · exact hdecls' m hm decl hdecl

theorem valued_of_establishes {session : Session} {final : CheckState}
    (h : ∀ m ∈ session.externals ++ session.modules, ∀ decl ∈ m.decls, final.Establishes decl) :
    ∀ e ∈ session.values, final.Valued e := by
  intro e he
  obtain ⟨m, hm, he⟩ := List.mem_flatMap.mp he
  obtain ⟨decl, hdecl, he⟩ := List.mem_flatMap.mp he
  exact (h m hm decl hdecl).valued e he

/-- Result types are deduced soundly, whatever calls whatever: in a program that was analyzed without
an error, what a body returns has the result type of its function or closure, a callee accepts the
arguments and returns the type of its call, and both branches of a conditional expression have its
type. -/
theorem check_deduces (session : Session) (hbuilt : session.Built) (settings : Settings)
    (program : Program) (h : (session.check settings).outcome = .ok program) :
    program.Deduces session.items := by
  obtain ⟨visited, hvisits⟩ := exists_visits h
  obtain ⟨hgathers, -⟩ := hvisits.gathers hbuilt
  exact Program.deduces_of_idle (idle_final h) hgathers.firm.checked hgathers.holds

/-- Two functions that need each other, in a branch and in a closure. -/
def intertwined : Session :=
  Session.empty.withSource "main.stela"
    "func a(n: sint) { if n < 1 { return 1; } let f = func() { return b(); }; return n < 2 ? b() : f(); }
     func b() { return a(0); }"

theorem check_intertwined_deduces : intertwined.Built ∧ ∃ program,
    (intertwined.check {}).outcome = .ok program ∧ program.Deduces intertwined.items := by
  have hbuilt : intertwined.Built := .withSource .empty _ _
  have hok : (intertwined.check {}).outcome.toOption.map (fun _ => ()) = some () := by
    rw [intertwined, withSource_ofList]
    decide +kernel
  obtain ⟨program, hprogram, -⟩ := exists_ok_of_map_toOption hok
  exact ⟨hbuilt, program, hprogram, check_deduces _ hbuilt _ _ hprogram⟩

end Session

/-- Whether this is a conditional expression of another type than its first branch. -/
def Program.splits (p : Program) : Occurrence → Bool
  | .expr (.ternary node cond onTrue onFalse) =>
    match p.typeOf? (.ternary node cond onTrue onFalse), p.typeOf? onTrue with
    | some type, some left => !p.tables.same left.type type.type
    | _, _ => false
  | _ => false

theorem Program.Deduces.splits_eq_false {p : Program} {items : List Occurrence} (h : p.Deduces items)
    {item : Occurrence} (hitem : item ∈ items) : p.splits item = false := by
  unfold splits
  split
  · next node cond onTrue onFalse =>
    obtain ⟨type, left, _, htype, hleft, _, hl, _⟩ := h.branches node cond onTrue onFalse hitem
    simp [htype, hleft, hl]
  · rfl

namespace Session

/-- A choice between an array and the result of a function that is defined elsewhere. -/
def choosing : Session :=
  Session.empty.withSource "main.stela"
    "func f(n: sint) { if n == 0 { return f(n); } return 1; }
     func main() { true ? k(1) : [1]; } extern func k(n: sint) -> [sint];"

/-- In the second check the result of `k` has the number of the placeholder of `f`, about which
something is assumed after its body was analyzed. -/
theorem recheck_choosing_misdeduces : choosing.Built ∧ ∃ program,
    (choosing.recheck {}).outcome = .ok program ∧ ¬ program.Deduces choosing.items := by
  have hbuilt : choosing.Built := .withSource .empty _ _
  have hok : (choosing.recheck {}).outcome.toOption.map (fun program =>
      choosing.items.any program.splits) = some true := by
    rw [choosing, withSource_ofList]
    decide +kernel
  obtain ⟨program, hprogram, hsplits⟩ := exists_ok_of_map_toOption hok
  obtain ⟨item, hitem, hsplits⟩ := List.any_eq_true.mp hsplits
  exact ⟨hbuilt, program, hprogram, fun h =>
    Bool.false_ne_true ((h.splits_eq_false hitem).symm.trans hsplits)⟩

end Session

end Stela
