import Stela.Proofs.Check.Lookups
import Stela.Proofs.Session.Reaching

/-!
# Balance of a check

Expressions, statements, bodies and modules are analyzed by calls that lead to further calls,
from the middle of other bodies and in other scopes. A call that succeeds restores the state
from which it was made. What is assumed about a result that is not known yet is about a function
in progress, in every state that the first check of a session is in. A later check finds types at
the nodes that were numbered in another table, so the states of the first one are followed.
-/

namespace Stela

namespace Check

open CheckState

/-- What is called by itself in the analysis, with what it is given. -/
inductive Call where
  | expr (context : ExprContext) (expected : Option TypeId) (expr : Expr)
  | stmts (stmts : List Stmt)
  /-- The body of a function, unless it was analyzed before. -/
  | body (func : SymbolId)
  /-- A function that is declared where the cursor is. -/
  | func (decl : FuncDecl) (owner : Option SymbolId)
  | type (type : TypeExpr)
  | module (isExternal : Bool) (m : Module)

namespace Call

/-- A call gives a result, with at most `bound` bodies nested in it. -/
inductive Succeeds (settings : Settings) (bound : Nat) : Call → CheckState → CheckState → Prop
  | expr {context expected e type s s'}
      (h : (visit (checkBody bound) context expected e).Gives settings s type s') :
      Succeeds settings bound (.expr context expected e) s s'
  | stmts {stmts s s'} (h : (checkStmts (checkBody bound) stmts).Gives settings s () s') :
      Succeeds settings bound (.stmts stmts) s s'
  | body {func s s'} (h : (checkBody bound func).Gives settings s () s') :
      Succeeds settings bound (.body func) s s'
  | func {decl owner symbol s s'} (h : (declareFunc decl owner).Gives settings s symbol s') :
      Succeeds settings bound (.func decl owner) s s'
  | type {type id s s'} (h : (lowerType type).Gives settings s id s') :
      Succeeds settings bound (.type type) s s'
  /-- A type on the way to the target of an alias, through at most `aliases` further ones. -/
  | target {type aliases id s s'} (h : (lowerWith (ensureAliasWithin aliases) type).Gives settings s id s') :
      Succeeds settings bound (.type type) s s'
  | module {isExternal m s s'} (h : (checkModule bound isExternal m).Gives settings s () s') :
      Succeeds settings bound (.module isExternal m) s s'

/-- The types that an expression is given are known and in the table. -/
def Ready (t : Tables) : Call → Prop
  | .expr context expected _ => t.Ready context ∧ ∀ type, expected = some type → t.types.Settled type
  | _ => True

variable {settings : Settings} {bound : Nat} {call : Call} {s s' : CheckState}

/-- A call restores the state from which it was made, whatever this is. -/
theorem Succeeds.restores (h : call.Succeeds settings bound s s') : s.Restores s' := by
  cases h with
  | expr h => exact (runs_visit (fun _ _ _ => runs_checkBody _) _ _ _ h).restores
  | stmts h => exact (runs_checkStmts (fun _ _ _ => runs_checkBody _) _ h).restores
  | body h => exact (runs_checkBody bound h).restores
  | func h => exact restoring_declareFunc.restores h
  | type h => exact quiet_lowerType.restores h
  | target h => exact (quiet_lowerWith (quiet_ensureAliasWithin _) _).restores h
  | module h => exact restores_checkModule h

theorem Succeeds.sound (h : call.Succeeds settings bound s s') (hs : s.Sound)
    (hready : call.Ready s.tables) : s'.Sound := by
  have hrun {task : Task} (run : IsRun settings task s s') (hready : task.Ready s.tables) : s'.Sound :=
    have ⟨_, run⟩ := run []
    (run.preserves hs hready).sound
  cases h with
  | expr h => exact hrun (runs_visit (fun _ _ _ => runs_checkBody _) _ _ _ h) hready
  | stmts h => exact hrun (runs_checkStmts (fun _ _ _ => runs_checkBody _) _ h) trivial
  | body h => exact hrun (runs_checkBody bound h) trivial
  | func h => exact (declares_declareFunc hs h).sound
  | type h => exact (written_lowerType hs h).1.sound
  | target h => exact (written_lowerWith (resolves_ensureAliasWithin _) _ hs h).1.sound
  | module h =>
      obtain ⟨_, run⟩ := runs_checkModule bound h []
      exact run.sound hs

end Call

end Check

open Check CheckState

namespace Session

variable {session : Session} {settings : Settings} {meanings : Meanings} {m : Module}
  {s s' t : CheckState}

/-- A check of a session is in a state in which something is called or returned. Some rules allow for
more than a check does, so these states are at least those of the check. -/
inductive Attains (session : Session) (settings : Settings) (meanings : Meanings) : CheckState → Prop
  /-- A module has its turn. -/
  | turn {m : Module} {s : CheckState} (hturn : session.Turn settings meanings m s) :
      Attains session settings meanings s
  /-- Some of the types of a module were declared. -/
  | types {m s scope s₁ before after t} (hturn : session.Turn settings meanings m s)
      (hmodule : (declareModule m).Gives settings s scope s₁) (hdecls : m.decls = before ++ after)
      (htypes : (before.forM declareType).Gives settings
        { s₁ with scopes := s₁.scopes.setCursor scope } () t) : Attains session settings meanings t
  /-- All of them were declared and some were completed. -/
  | parts {m s scope s₁ s₂ before after t} (hturn : session.Turn settings meanings m s)
      (hmodule : (declareModule m).Gives settings s scope s₁)
      (htypes : (m.decls.forM declareType).Gives settings
        { s₁ with scopes := s₁.scopes.setCursor scope } () s₂) (hdecls : m.decls = before ++ after)
      (hparts : (before.forM completeType).Gives settings s₂ () t) : Attains session settings meanings t
  /-- All of them were completed and some of the functions were declared. -/
  | funcs {m s scope s₁ s₂ s₃ before after funcs t} (hturn : session.Turn settings meanings m s)
      (hmodule : (declareModule m).Gives settings s scope s₁)
      (htypes : (m.decls.forM declareType).Gives settings
        { s₁ with scopes := s₁.scopes.setCursor scope } () s₂)
      (hparts : (m.decls.forM completeType).Gives settings s₂ () s₃) (hdecls : m.decls = before ++ after)
      (hfuncs : (declareFuncs before).Gives settings s₃ funcs t) : Attains session settings meanings t
  /-- A part of the analysis begins. -/
  | part {bound part state} (h : session.Reaches settings meanings bound part state) :
      Attains session settings meanings state
  /-- Some of the fields of a struct were declared. -/
  | fields {owner scope index members fields s s'} (h : Attains session settings meanings s)
      (hfields : (declareFields owner scope index members).Gives settings s fields s') :
      Attains session settings meanings s'
  /-- The name of a type was looked up. -/
  | named {node qualifier name symbol s s'} (h : Attains session settings meanings s)
      (hname : (resolveTypeName node qualifier name).Gives settings s symbol s') :
      Attains session settings meanings s'
  /-- The target of an alias is not known yet and will be found next. -/
  | resolving {symbol info written s s'} (h : Attains session settings meanings s)
      (hkind : s.tables.symbols.kind? symbol = some (.aliasType info))
      (hwritten : info.target = .unresolved written)
      (hset : (setAliasTarget symbol .resolving).Gives settings s () s') :
      Attains session settings meanings s'
  /-- The analysis goes on in another scope. -/
  | moved {scope state} (h : Attains session settings meanings state) (hscope : scope < state.scopes.size) :
      Attains session settings meanings { state with scopes := state.scopes.setCursor scope }
  /-- A call that was made in such a state returned. -/
  | returned {bound s s'} {call : Call} (h : Attains session settings meanings s)
      (hready : call.Ready s.tables) (hcall : call.Succeeds settings bound s s') :
      Attains session settings meanings s'

/-- A module that has its turn is declared soundly, and so is what the check goes on with in its scope. -/
theorem sound_declareModule {scope : ScopeId} (hturn : session.Turn settings {} m s)
    (h : (declareModule m).Gives settings s scope s') :
    CheckState.Sound { s' with scopes := s'.scopes.setCursor scope } :=
  have hmodule := mild_declareModule (idle_of_turn hturn).sound h
  (calm_setCursor hmodule.sound scope).sound

/-- The first check of a session is in sound states, by induction on the way to them. -/
theorem Attains.sound (h : session.Attains settings {} s) : s.Sound := by
  induction h with
  | turn hturn => exact (idle_of_turn hturn).sound
  | types hturn hmodule _ htypes =>
      exact (declaresTypes_forM _ (sound_declareModule hturn hmodule) (Nat.le_refl _) htypes).sound
  | parts hturn hmodule htypes hdecls hparts =>
      have htypes := declaresTypes_forM _ (sound_declareModule hturn hmodule) (Nat.le_refl _) htypes
      refine (completes_forM _ htypes.sound (fun decl hmem => htypes.symbols decl ?_) hparts).sound
      exact hdecls ▸ List.mem_append_left _ hmem
  | funcs hturn hmodule htypes hparts _ hfuncs =>
      have htypes := declaresTypes_forM _ (sound_declareModule hturn hmodule) (Nat.le_refl _) htypes
      have hparts := completes_forM _ htypes.sound htypes.symbols hparts
      exact (declaresFuncs_declareFuncs _ hparts.sound hfuncs).sound
  | part h => exact (consistent_of_reaches h).1.sound
  | fields _ hfields ih => exact (calm_declareFields _ ih hfields).1.sound
  | named _ hname ih => exact (calm_resolveTypeName ih hname).sound
  | resolving _ hkind hwritten hset ih =>
      obtain ⟨-, rfl⟩ := gives_setAliasTarget.mp hset
      exact sound_setAliasTarget ih hkind (by simp [hwritten]) (by simp)
  | moved _ _ ih => exact (calm_setCursor ih _).sound
  | returned _ hready hcall ih => exact hcall.sound ih hready

/-- Every state of a check is a context of names, whatever the nodes mean when it begins. -/
theorem Attains.arises (h : session.Attains settings meanings s) : s.Arises := by
  induction h with
  | turn hturn => exact arises_of_turn hturn
  | types hturn hmodule _ htypes => exact arises_types (arises_of_declareModule hturn hmodule) htypes
  | parts hturn hmodule htypes _ hparts =>
      exact arises_parts (arises_types (arises_of_declareModule hturn hmodule) htypes) hparts
  | funcs hturn hmodule htypes hparts _ hfuncs =>
      have hparts := arises_parts (arises_types (arises_of_declareModule hturn hmodule) htypes) hparts
      exact ((restoring_declareFuncs _).restores hfuncs).arises hparts
  | part h => exact arises_of_reaches h
  | fields _ hfields ih => exact ((restoring_declareFields _ _).restores hfields).arises ih
  | named _ hname ih => exact (quiet_resolveTypeName.restores hname).arises ih
  | resolving _ _ _ hset ih => exact (quiet_setAliasTarget.restores hset).arises ih
  | moved _ hscope ih => exact ih.setCursor hscope
  | returned _ _ hcall ih => exact hcall.restores.arises ih

/-- In every state of a check the lookups of a name as a value and as a callee agree. -/
theorem Attains.lookupsAgree (h : session.Attains settings meanings s) (name : String) :
    s.LookupsAgree name := h.arises.searchable.lookupsAgree name

/-- Every call that succeeds restores the state from which it was made, and in every state of the first
check of a session all that is assumed is about functions in progress. -/
theorem check_balanced (session : Session) (settings : Settings) :
    (∀ bound (call : Call) s s', call.Succeeds settings bound s s' → s.Restores s') ∧
    ∀ s, session.Attains settings {} s → ∀ a ∈ s.assumptions, s.tables.InProgress a.func :=
  ⟨fun _ _ _ _ hcall => hcall.restores, fun _ h a ha => (h.sound.assumptions a ha).1⟩

/-- A function that adds to its own result before this is known. -/
def adding : Session :=
  Session.empty.withSource "main.stela"
    "func f(n: sint) { if n > 0 { return n + f(n - 1); } return n; }"

/-- The analysis of a module up to behind the first statement of its first function, and the statements
that follow. -/
def toSecondStmt (bound : Nat) (m : Module) : Check (List Stmt) := do
  let (_, body) ← toFirstBody bound m
  let first ← require body.head? .spent
  checkStmt (checkBody bound) first
  return body.tail

theorem attains_of_toSecondStmt {rest : List Stmt} (hturn : session.Turn settings meanings m s)
    (h : (toSecondStmt session.nodes.decls m).Gives settings s rest s') :
    session.Attains settings meanings s' := by
  simp only [toSecondStmt, gives_bind, gives_require, gives_pure] at h
  obtain ⟨⟨_, body⟩, s₁, hbody, first, _, ⟨hfirst, rfl⟩, _, s₂, hstmt, rfl, rfl⟩ := h
  obtain ⟨_, _, hreaches, hbegins⟩ := begins_of_toFirstBody hturn hbody
  obtain ⟨rest, rfl⟩ := List.head?_eq_some_iff.mp hfirst
  exact .part (.part (.bodyBegin hreaches hbegins) (.stmtsRest hstmt))

/-- For how many results something is assumed between the first two statements of a session, if the
others can be analyzed from there. -/
def assumedFirst? (session : Session) : Option Nat := do
  match toSecondStmt session.nodes.decls (← session.modules[0]?) {} (.initial {}) with
  | .ok rest s =>
    match checkStmts (checkBody session.nodes.decls) rest {} s with
    | .ok () _ => some s.assumptions.length
    | .failed _ _ => none
  | .failed _ _ => none

theorem exists_attains_of_assumedFirst? {assumed : Nat} (hfirst : session.externalOrder = .ok [])
    (hsecond : session.moduleOrder = .ok [0]) (h : session.assumedFirst? = some assumed) :
    ∃ rest s s', session.Attains {} {} s ∧ (Call.stmts rest).Succeeds {} session.nodes.decls s s' ∧
      s.assumptions.length = assumed := by
  obtain ⟨m, hm, h⟩ := Option.bind_eq_some_iff.mp h
  split at h
  · next rest s hgives =>
    split at h
    · next s' hrest =>
      have hturn : session.Turn {} {} m (.initial {}) := turn_alone hfirst hsecond hm
      exact ⟨rest, s, s', attains_of_toSecondStmt hturn hgives, .stmts hrest, Option.some.inj h⟩
    · cases h
  · cases h

theorem check_adding_balanced : ∃ rest s s', adding.Attains {} {} s ∧
    (Call.stmts rest).Succeeds {} adding.nodes.decls s s' ∧ s.assumptions.length = 1 ∧
    s.Restores s' ∧ ∀ a ∈ s.assumptions, s.tables.InProgress a.func := by
  have hfacts : adding.externalOrder = .ok [] ∧ adding.moduleOrder = .ok [0] ∧
      adding.assumedFirst? = some 1 := by
    rw [adding, withSource_ofList]
    decide +kernel
  obtain ⟨hfirst, hsecond, hassumed⟩ := hfacts
  obtain ⟨rest, s, s', hattains, hcall, hlength⟩ := exists_attains_of_assumedFirst? hfirst hsecond hassumed
  have hbalanced := check_balanced adding {}
  exact ⟨rest, s, s', hattains, hcall, hlength, hbalanced.1 _ _ _ _ hcall, hbalanced.2 s hattains⟩

/-- Whether the analysis of a module that is analyzed alone leaves something assumed about a function that
is done, if the nodes have these meanings when the check begins. -/
def assumesOfDone? (session : Session) (meanings : Meanings) : Option Bool := do
  match checkModule (session.nodes.decls + 1) false (← session.modules[0]?) {} (.initial meanings) with
  | .ok () s => some (s.assumptions.any fun a =>
      ((s.tables.symbols.func? a.func).map FuncInfo.state) == some .done)
  | .failed _ _ => none

theorem exists_attains_of_assumesOfDone? (hfirst : session.externalOrder = .ok [])
    (hsecond : session.moduleOrder = .ok [0]) (h : session.assumesOfDone? meanings = some true) :
    ∃ s, session.Attains {} meanings s ∧ ∃ a ∈ s.assumptions, ¬ s.tables.InProgress a.func := by
  obtain ⟨m, hm, h⟩ := Option.bind_eq_some_iff.mp h
  split at h
  · next s hmodule =>
    have hturn : session.Turn {} meanings m (.initial meanings) := turn_alone hfirst hsecond hm
    obtain ⟨a, ha, hdone⟩ := List.any_eq_true.mp (Option.some.inj h)
    have hready : (Call.module false m).Ready (CheckState.initial meanings).tables := trivial
    refine ⟨s, .returned (.turn hturn) hready (.module hmodule), a, ha, fun hprogress => ?_⟩
    cases (eq_of_beq hdone).symm.trans hprogress
  · cases h

/-- A choice between a text and the result of a function that is defined elsewhere. -/
def conflating : Session :=
  Session.empty.withSource "main.stela"
    "func f(n: sint) \x7b if n == 0 \x7b return f(n); \x7d return 1; \x7d
     func main() \x7b true ? k(1) : \"x\"; \x7d extern func k(n: sint) -> [sint];"

/-- In the second check the result of `k` has the number of the placeholder of `f`, so the choice is
allowed for as long as `f` returns a text, which nothing asks for any more. -/
theorem recheck_conflating_assumes_of_done :
    ∃ s, conflating.Attains {} (conflating.check {}).meanings s ∧
      ∃ a ∈ s.assumptions, ¬ s.tables.InProgress a.func := by
  have hfacts : conflating.externalOrder = .ok [] ∧ conflating.moduleOrder = .ok [0] ∧
      conflating.assumesOfDone? (conflating.check {}).meanings = some true := by
    rw [conflating, withSource_ofList]
    decide +kernel
  obtain ⟨hfirst, hsecond, hassumes⟩ := hfacts
  exact exists_attains_of_assumesOfDone? hfirst hsecond hassumes

end Session

end Stela
