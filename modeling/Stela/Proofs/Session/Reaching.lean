import Stela.Proofs.Check.Reaching
import Stela.Proofs.Session.Aliases

/-!
# Ends of bodies in a session

A check comes to a module when its turn is there, from the module to its variables
and functions, and from these to everything they are made of and need. Wherever
it comes to the end of a body, the placeholder of the function is replaced in the
types of expressions that were found before. The first check of a session does so
with the same result in every order of the expressions, whether it succeeds in
the end or fails.
-/

namespace Stela

open Check CheckState

namespace Session

variable {session : Session} {settings : Settings} {meanings : Meanings} {m : Module}
  {s s' t : CheckState}

/-- A module whose types and functions were declared when its turn came. -/
inductive Prepared (session : Session) (settings : Settings) (meanings : Meanings) (m : Module)
    (funcs : List SymbolId) (t : CheckState) : Prop
  | intro {s scope s₁ s₂ s₃} (hturn : session.Turn settings meanings m s)
      (hmodule : (declareModule m).Gives settings s scope s₁)
      (htypes : (m.decls.forM declareType).Gives settings
        { s₁ with scopes := s₁.scopes.setCursor scope } () s₂)
      (hparts : (m.decls.forM completeType).Gives settings s₂ () s₃)
      (hfuncs : (declareFuncs m.decls).Gives settings s₃ funcs t)

/-- A check of a session comes to a part of the analysis in a state. What is left of the bound on nested
bodies is kept with the part. -/
inductive Reaches (session : Session) (settings : Settings) (meanings : Meanings) :
    Nat → Part → CheckState → Prop
  | global {m funcs before node binding after t s} (hprepared : session.Prepared settings meanings m funcs t)
      (hdecls : m.decls = before ++ .global node binding :: after)
      (hbefore : (before.forM (checkGlobal (session.nodes.decls + 1))).Gives settings t () s) :
      Reaches session settings meanings (session.nodes.decls + 1) (.binding (.decl node.id) binding) s
  | func {m funcs before func after t t₁ s} (hprepared : session.Prepared settings meanings m funcs t)
      (hglobals : (m.decls.forM (checkGlobal (session.nodes.decls + 1))).Gives settings t () t₁)
      (hfuncs : funcs = before ++ func :: after)
      (hbefore : (before.forM (checkBody (session.nodes.decls + 1))).Gives settings t₁ () s) :
      Reaches session settings meanings (session.nodes.decls + 1) (.body func) s
  | part {bound part part' s s'} (h : Reaches session settings meanings bound part s)
      (hcomes : ComesTo settings (checkBody bound) part s part' s') :
      Reaches session settings meanings bound part' s'
  | bodyBegin {bound func info body s s'} (h : Reaches session settings meanings (bound + 1) (.body func) s)
      (hbegins : BeginsBody settings func info body s s') :
      Reaches session settings meanings bound (.stmts body) s'
  | bodyEnd {bound func info body s s₁ s'} (h : Reaches session settings meanings (bound + 1) (.body func) s)
      (hbegins : BeginsBody settings func info body s s₁)
      (hbody : (checkStmts (checkBody bound) body).Gives settings s₁ () s') :
      Reaches session settings meanings bound (.ending body info.decl.name.span) s'

/-- A check of a session finishes the body of a function or closure in a state, where all that is left is to
replace its placeholder by its result type. -/
inductive Finishes (session : Session) (settings : Settings) (meanings : Meanings) (func : SymbolId)
    (ret : TypeId) (s : CheckState) : Prop
  | intro {bound body span t} (h : session.Reaches settings meanings bound (.ending body span) t)
      (hend : (endBody body span).Gives settings t (func, ret) s)

/-! ## States that are reached -/

/-- When the turn of a module comes nothing is under analysis. -/
theorem idle_of_turn (h : session.Turn settings {} m s) : s.Idle := by
  have hmodules {isExternal : Bool} {modules : List Module} {s s' : CheckState} (hidle : s.Idle)
      (h : (modules.forM (checkModule (session.nodes.decls + 1) isExternal)).Gives settings s () s') :
      s'.Idle :=
    have ⟨_, run⟩ := runs_forM modules (fun _ _ _ => runs_checkModule _) h []
    idle_modules run hidle
  cases h with
  | external _ _ hrun => exact hmodules idle_initial hrun
  | source _ _ _ hexternals hrun => exact hmodules (hmodules idle_initial hexternals) hrun

/-- The variables and functions of a module are analyzed from a state in which nothing is under
analysis. -/
theorem consistent_of_prepared {funcs : List SymbolId} (h : session.Prepared settings {} m funcs t) :
    t.Consistent := by
  cases h with
  | @intro _ scope _ _ _ hturn hmodule htypes hparts hfuncs =>
  have hidle := idle_of_turn hturn
  have hmodule := mild_declareModule hidle.sound hmodule
  have hstart := hmodule.trans (calm_setCursor hmodule.sound scope).toMild
  have htypes := declaresTypes_forM m.decls hstart.sound (Nat.le_refl _) htypes
  have hparts := completes_forM m.decls htypes.sound htypes.symbols hparts
  have hfuncs := declaresFuncs_declareFuncs m.decls hparts.sound hfuncs
  refine consistent_of_inactive hfuncs.sound fun func hfunc => ?_
  obtain ⟨info, hinfo, hstate⟩ := Option.map_eq_some_iff.mp hfunc
  have hsteady := (hstart.tables.toSteady.trans htypes.steady).trans hparts.steady
  rcases states_of_declaresFuncs hidle hsteady hfuncs func info hinfo with hdone | ⟨-, hne⟩
  · simp [hdone] at hstate
  · exact hne hstate

theorem consistent_globals {bound : Nat} {decls : List Decl} (hs : s.Consistent)
    (h : (decls.forM (checkGlobal bound)).Gives settings s () s') : s'.Consistent := by
  refine gives_forM_keeps h hs fun decl _ t t' hglobal ht => ?_
  obtain ⟨_, run⟩ := runs_checkGlobal bound hglobal []
  cases run with
  | global run => exact (run.consistent ht trivial).1
  | other _ => exact ht

theorem consistent_bodies {bound : Nat} {funcs : List SymbolId} (hs : s.Consistent)
    (h : (funcs.forM (checkBody bound)).Gives settings s () s') : s'.Consistent :=
  gives_forM_keeps h hs fun _ _ _ _ hbody ht => ((runs_checkBody bound hbody).consistent ht trivial).1

/-- Whatever a check comes to begins in a consistent state, by induction on the way to it. -/
theorem consistent_of_reaches {bound : Nat} {part : Part} (h : session.Reaches settings {} bound part s) :
    s.Consistent ∧ part.Ready s.tables := by
  induction h with
  | global hprepared _ hbefore =>
      exact ⟨consistent_globals (consistent_of_prepared hprepared) hbefore, trivial⟩
  | func hprepared hglobals _ hbefore =>
      have hglobals := consistent_globals (consistent_of_prepared hprepared) hglobals
      exact ⟨consistent_bodies hglobals hbefore, trivial⟩
  | part _ hcomes ih => exact hcomes.consistent (fun _ _ _ => runs_checkBody _) ih.1 ih.2
  | bodyBegin _ hbegins ih => exact ⟨hbegins.consistent ih.1, trivial⟩
  | bodyEnd _ hbegins hbody ih =>
      exact ⟨consistent_checkStmts (fun _ _ _ => runs_checkBody _) (hbegins.consistent ih.1) hbody,
        trivial⟩

/-! ## Contexts that are reached -/

/-- Every module that was analyzed leaves a context, whatever the nodes mean. -/
theorem arises_modules {bound : Nat} {isExternal : Bool} {modules : List Module} (hs : s.Arises)
    (h : (modules.forM (checkModule bound isExternal)).Gives settings s () s') : s'.Arises :=
  (restores_checkModules h).arises hs

theorem arises_of_turn (h : session.Turn settings meanings m s) : s.Arises := by
  cases h with
  | external _ _ hrun => exact arises_modules (.initial meanings) hrun
  | source _ _ _ hexternals hrun => exact arises_modules (arises_modules (.initial meanings) hexternals) hrun

/-- The declarations of a module are analyzed in its scope. -/
theorem arises_of_declareModule {scope : ScopeId} (hturn : session.Turn settings meanings m s)
    (h : (declareModule m).Gives settings s scope s') :
    CheckState.Arises { s' with scopes := s'.scopes.setCursor scope } := by
  obtain ⟨hrestores, hscope⟩ := restores_declareModule h
  obtain ⟨_, hget⟩ := Option.isSome_iff_exists.mp hscope
  exact (hrestores.arises (arises_of_turn hturn)).setCursor (ScopeGraph.lt_size_of_get? hget)

theorem arises_types {decls : List Decl} (hs : s.Arises)
    (h : (decls.forM declareType).Gives settings s () s') : s'.Arises :=
  ((Restoring.forM fun decl _ => (quiet_declareType decl).restoring).restores h).arises hs

theorem arises_parts {decls : List Decl} (hs : s.Arises)
    (h : (decls.forM completeType).Gives settings s () s') : s'.Arises :=
  ((Restoring.forM fun decl _ => (quiet_completeType decl).restoring).restores h).arises hs

theorem arises_of_prepared {funcs : List SymbolId} (h : session.Prepared settings meanings m funcs t) :
    t.Arises := by
  obtain ⟨hturn, hmodule, htypes, hparts, hfuncs⟩ := h
  have hparts := arises_parts (arises_types (arises_of_declareModule hturn hmodule) htypes) hparts
  exact ((restoring_declareFuncs _).restores hfuncs).arises hparts

theorem arises_globals {bound : Nat} {decls : List Decl} (hs : s.Arises)
    (h : (decls.forM (checkGlobal bound)).Gives settings s () s') : s'.Arises := by
  refine gives_forM_keeps h hs fun _ _ _ _ hglobal ht => ?_
  obtain ⟨_, run⟩ := runs_checkGlobal bound hglobal []
  exact run.restores.arises ht

theorem arises_bodies {bound : Nat} {funcs : List SymbolId} (hs : s.Arises)
    (h : (funcs.forM (checkBody bound)).Gives settings s () s') : s'.Arises :=
  gives_forM_keeps h hs fun _ _ _ _ hbody ht => (runs_checkBody bound hbody).restores.arises ht

/-- Whatever a check comes to begins in a context of names, whatever the nodes mean, by induction on the
way to it. -/
theorem arises_of_reaches {bound : Nat} {part : Part} (h : session.Reaches settings meanings bound part s) :
    s.Arises := by
  induction h with
  | global hprepared _ hbefore => exact arises_globals (arises_of_prepared hprepared) hbefore
  | func hprepared hglobals _ hbefore =>
      exact arises_bodies (arises_globals (arises_of_prepared hprepared) hglobals) hbefore
  | part _ hcomes ih => exact (hcomes.enlarges fun _ _ _ => runs_checkBody _).arises ih
  | bodyBegin _ hbegins ih => exact hbegins.enlarges.arises ih
  | bodyEnd _ hbegins hbody ih =>
      have hbody := (runs_checkStmts (fun _ _ _ => runs_checkBody _) _ hbody).restores
      exact hbody.arises (hbegins.enlarges.arises ih)

/-! ## Ends of bodies -/

/-- Whenever the first check of a session finishes a body, replacing the placeholder of the function gives
the same table and the same types of expressions in every order of the expressions, and enters at most one
type. -/
theorem check_resolves_in_any_order (session : Session) (settings : Settings) {func : SymbolId}
    {ret : TypeId} (h : session.Finishes settings {} func ret s) : s.ResolvesInAnyOrder func ret := by
  obtain ⟨hreaches, hend⟩ := h
  exact resolvesInAnyOrder_endBody (consistent_of_reaches hreaches).1 hend

/-- A function that calls itself before its result is known. -/
def recursive : Session :=
  Session.empty.withSource "main.stela"
    "func f(n: sint) { if n > 0 { return f(n - 1); } return n; }"

/-- The analysis of a module up to the beginning of the body of its first function. -/
def toFirstBody (bound : Nat) (m : Module) : Check (FuncInfo × List Stmt) := do
  let scope ← declareModule m
  modifyScopes fun g => g.setCursor scope
  m.decls.forM declareType
  m.decls.forM completeType
  let funcs ← declareFuncs m.decls
  m.decls.forM (checkGlobal (bound + 1))
  let func ← require funcs.head? .spent
  let info ← require ((← tables).symbols.func? func) .spent
  let body ← require (if info.state = .unchecked then info.decl.body else none) .spent
  setBodyState func .inProgress
  let entry ← symbol func
  let _ ← scopeAt entry.scope
  modifyScopes fun g => g.setCursor entry.scope
  openBody func info
  return (info, body)

/-- The analysis of a module up to the end of the body of its first function. -/
def toFirstEnd (bound : Nat) (m : Module) : Check (SymbolId × TypeId) := do
  let (info, body) ← toFirstBody bound m
  checkStmts (checkBody bound) body
  endBody body info.decl.name.span

theorem begins_of_toFirstBody {info : FuncInfo} {body : List Stmt} (hturn : session.Turn settings meanings m s)
    (h : (toFirstBody session.nodes.decls m).Gives settings s (info, body) s') :
    ∃ func t, session.Reaches settings meanings (session.nodes.decls + 1) (.body func) t ∧
      BeginsBody settings func info body t s' := by
  simp only [toFirstBody, gives_bind, gives_modifyScopes, gives_require, gives_tables, gives_symbol,
    gives_scopeAt, gives_pure] at h
  obtain ⟨scope, s₁, hmodule, _, _, rfl, h⟩ := h
  obtain ⟨_, s₂, htypes, _, s₃, hparts, funcs, s₄, hfuncs, _, s₅, hglobals, h⟩ := h
  obtain ⟨func, _, ⟨hfirst, rfl⟩, h⟩ := h
  obtain ⟨_, _, ⟨rfl, rfl⟩, h⟩ := h
  obtain ⟨_, _, ⟨hinfo, rfl⟩, h⟩ := h
  obtain ⟨_, _, ⟨hbody, rfl⟩, h⟩ := h
  obtain ⟨_, s₆, hstart, entry, _, ⟨hentry, rfl⟩, _, _, ⟨hscope, rfl⟩, h⟩ := h
  obtain ⟨_, _, rfl, _, _, hopen, heq, rfl⟩ := h
  obtain ⟨rfl, rfl⟩ := Prod.mk.inj heq
  obtain ⟨rest, rfl⟩ := List.head?_eq_some_iff.mp hfirst
  obtain ⟨hstate, hbody⟩ := Option.ite_none_right_eq_some.mp hbody
  have hreaches := Reaches.func (.intro hturn hmodule htypes hparts hfuncs) hglobals
    (List.nil_append _).symm (gives_forM_nil.mpr rfl)
  exact ⟨func, s₅, hreaches, hinfo, hstate, hbody, hstart, hentry, Option.isSome_of_mem hscope, hopen⟩

theorem finishes_of_toFirstEnd {func : SymbolId} {ret : TypeId} (hturn : session.Turn settings meanings m s)
    (h : (toFirstEnd session.nodes.decls m).Gives settings s (func, ret) s') :
    session.Finishes settings meanings func ret s' := by
  simp only [toFirstEnd, gives_bind] at h
  obtain ⟨⟨info, body⟩, s₁, hbody, _, s₂, hstmts, hend⟩ := h
  obtain ⟨_, _, hreaches, hbegins⟩ := begins_of_toFirstBody hturn hbody
  exact ⟨.bodyEnd hreaches hbegins hstmts, hend⟩

/-- A module that is analyzed alone has its turn at the beginning. -/
theorem turn_alone (hfirst : session.externalOrder = .ok []) (hsecond : session.moduleOrder = .ok [0])
    (hm : session.modules[0]? = some m) : session.Turn settings meanings m (.initial meanings) := by
  have hmodules : arranged session.modules [0] = [] ++ m :: [] := by
    rw [arranged, List.filterMap_cons, hm]
    rfl
  exact .source hfirst hsecond hmodules (gives_forM_nil.mpr rfl) (gives_forM_nil.mpr rfl)

/-- How many types are entered when the first body of a session ends, if the nodes have these meanings
when the check begins. -/
def enteredFirst? (session : Session) (meanings : Meanings) : Option Nat := do
  match toFirstEnd session.nodes.decls (← session.modules[0]?) {} (.initial meanings) with
  | .ok (func, ret) s => some ((s.resolvePending func ret).tables.types.size - s.tables.types.size)
  | .failed _ _ => none

/-- A module that is analyzed alone finishes the body of its first function. -/
theorem exists_finishes_of_enteredFirst? {entered : Nat} (hfirst : session.externalOrder = .ok [])
    (hsecond : session.moduleOrder = .ok [0]) (h : session.enteredFirst? meanings = some entered) :
    ∃ func ret s, session.Finishes {} meanings func ret s ∧
      (s.resolvePending func ret).tables.types.size - s.tables.types.size = entered := by
  obtain ⟨m, hm, h⟩ := Option.bind_eq_some_iff.mp h
  split at h
  · next func ret s hgives =>
    have hturn : session.Turn {} meanings m (.initial meanings) := turn_alone hfirst hsecond hm
    exact ⟨func, ret, s, finishes_of_toFirstEnd hturn hgives, Option.some.inj h⟩
  · cases h

theorem check_recursive_resolves_in_any_order : ∃ func ret s, recursive.Finishes {} {} func ret s ∧
    s.ResolvesInAnyOrder func ret ∧
    (s.resolvePending func ret).tables.types.size - s.tables.types.size = 1 := by
  have hfacts : recursive.externalOrder = .ok [] ∧ recursive.moduleOrder = .ok [0] ∧
      recursive.enteredFirst? {} = some 1 := by
    rw [recursive, withSource_ofList]
    decide +kernel
  obtain ⟨hfirst, hsecond, hentered⟩ := hfacts
  obtain ⟨func, ret, s, hfinishes, hsize⟩ := exists_finishes_of_enteredFirst? hfirst hsecond hentered
  exact ⟨func, ret, s, hfinishes, check_resolves_in_any_order recursive {} hfinishes, hsize⟩

/-- A function that calls itself and a function that is defined elsewhere, before its result is
known. -/
def outsourcing : Session :=
  Session.empty.withSource "main.stela"
    "func f(n: sint) { if n == 0 { return f(n); } k(true); return 1; }
     extern func k(n: bool) -> [sint];"

/-- In the second check the result of `k` has the number of the placeholder of `f`, so two function types
return it when the body of `f` ends. -/
theorem recheck_outsourcing_enters_two : ∃ func ret s,
    outsourcing.Finishes {} (outsourcing.check {}).meanings func ret s ∧
      ¬ s.ResolvesInAnyOrder func ret := by
  have hfacts : outsourcing.externalOrder = .ok [] ∧ outsourcing.moduleOrder = .ok [0] ∧
      outsourcing.enteredFirst? (outsourcing.check {}).meanings = some 2 := by
    rw [outsourcing, withSource_ofList]
    decide +kernel
  obtain ⟨hfirst, hsecond, hentered⟩ := hfacts
  obtain ⟨func, ret, s, hfinishes, hsize⟩ := exists_finishes_of_enteredFirst? hfirst hsecond hentered
  refine ⟨func, ret, s, hfinishes, fun h => ?_⟩
  have hmost := h.size
  omega

end Session

end Stela
