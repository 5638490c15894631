import Stela.Proofs.Check.Deduction
import Stela.Proofs.Check.Modules

/-!
# Deduction over modules

A module is analyzed in an idle state in which every alias has its target, and
everything in it is found to hold at its end. What was found in the modules
before it goes on to hold.
-/

namespace Stela

/-- What the functions that a declaration makes hold. -/
def Decl.funcItems (decl : Decl) : List Occurrence := decl.funcs.flatMap FuncDecl.items

/-- What the variable that a declaration makes holds. -/
def Decl.globalItems : Decl → List Occurrence
  | .global _ binding => binding.items
  | _ => []

theorem Decl.items_eq (decl : Decl) : decl.items = decl.funcItems ++ decl.globalItems := by
  cases decl with
  | structType node name members =>
      simp only [Decl.items, funcItems, funcs, globalItems, List.append_nil]
      induction members with
      | nil => rfl
      | cons first rest ih => cases first <;> simp [ih]
  | func decl => simp [Decl.items, funcItems, funcs, globalItems]
  | _ => rfl

/-- The functions of a module are visited apart from its variables. -/
theorem Decl.items_perm (decls : List Decl) :
    (decls.flatMap Decl.items).Perm (decls.flatMap Decl.funcItems ++ decls.flatMap Decl.globalItems) := by
  simp only [funext Decl.items_eq]
  exact (List.flatMap_append_perm decls _ _).symm

namespace CheckState

variable {s s' : CheckState} {visited : List Nat} {whole items items' rest : List Occurrence}

theorem Owes.perm (h : s.Owes whole items) (hperm : items.Perm items') : s.Owes whole items' :=
  fun funcs hnodup hunchecked => (h funcs hnodup hunchecked).perm (hperm.append_right _)

theorem Firm.perm (h : s.Firm visited whole items) (hperm : items.Perm items') :
    s.Firm visited whole items' :=
  ⟨h.sound, h.complete, h.checked, h.annotated, h.owes.perm hperm, h.values, h.counts⟩

/-- The variable that a declaration makes can hold its first value, which is typed. -/
def Establishes (s : CheckState) : Decl → Prop
  | .global node binding =>
    (∀ e ∈ binding.init.toList, s.Valued e) ∧ s.Binds (.decl node.id) binding
  | _ => True

theorem Carries.establishes (h : s.Carries s') {decl : Decl} (hdecl : s.Establishes decl) :
    s'.Establishes decl := by
  cases decl with
  | global node binding => exact ⟨h.all_valued hdecl.1, h.binds hdecl.2⟩
  | _ => trivial

theorem Establishes.valued {decl : Decl} (h : s.Establishes decl) : ∀ e ∈ decl.values, s.Valued e := by
  cases decl with
  | global node binding => exact h.1
  | _ => exact List.forall_mem_nil _

/-- The types of a module are declared and completed without typing an expression. -/
theorem Firm.prepares (h : s.Firm visited whole items)
    (hp : Check.Prepares s.tables.symbols.size s s') (hcomplete : s'.tables.Complete) :
    s.Advances whole items s' visited := by
  have hcarries : s.Carries s' := by
    refine ⟨h.sound.tables, hp.sound.tables, ⟨hp.widens.types, fun id kind hkind =>
      hp.older id (SymbolTable.lt_size_of_kind? hkind) kind hkind⟩,
      fun node typing hnode => hp.exprs ▸ hnode, fun func info hinfo hdone => ?_, hp.assumptions,
      hp.meanings⟩
    exact done_of_states (hp.steady.states func).symm hinfo hdone
  have huntyped (node : Nat) (hnode : s.exprTypes.get? node = none) :
      s'.exprTypes.get? node = none := hp.exprs ▸ hnode
  exact ⟨hcarries, hp.sound, hcomplete, hcarries.checked h.checked fun func info' hinfo' hdone _ =>
    done_of_states (hp.steady.states func) hinfo' hdone,
    h.annotated.mono hcarries.contained fun func _ hinfo' =>
      .inr (func_of_states (hp.steady.states func) hinfo'),
    h.owes.of_untyped huntyped fun func =>
      unchecked_of_states hcarries.contained (hp.steady.states func),
    h.values.mono hcarries.recalls huntyped, h.counts.of_exprs fun node => by rw [hp.exprs]⟩

end CheckState

namespace Check

open CheckState

variable {settings : Settings} {s s' : CheckState} {visited visited' : List Nat}
  {whole rest : List Occurrence}

/-! ## Declaring the functions -/

theorem advances_declareMember {decl : FuncDecl} {owner : Option SymbolId} {scope : ScopeId}
    {func : SymbolId} (hfirm : s.Firm visited whole (decl.items ++ rest))
    (h : (withCursor scope (declareFunc decl owner)).Gives settings s func s') :
    s.Advances whole rest s' visited := by
  obtain ⟨-, s₁, hdeclare, rfl⟩ := gives_withCursor.mp h
  have hstart := hfirm.calm (calm_setCursor hfirm.sound scope)
  have hdeclares := hstart.firm.declares (declares_declareFunc hstart.firm.sound hdeclare)
  have hend := hdeclares.firm.calm (calm_setCursor hdeclares.firm.sound s.scopes.cursor)
  exact (hstart.trans hdeclares).trans hend

theorem advances_declareMethods (members : List Member) {owner : SymbolId} {scope : ScopeId}
    {funcs : List SymbolId}
    (hfirm : s.Firm visited whole ((members.filterMap fun
      | .func decl => some decl
      | .field _ => none).flatMap FuncDecl.items ++ rest))
    (h : (declareMethods owner scope members).Gives settings s funcs s') :
    s.Advances whole rest s' visited := by
  induction members generalizing s funcs with
  | nil =>
      obtain ⟨-, rfl⟩ := gives_pure.mp h
      exact hfirm.refl
  | cons member members ih =>
      cases member with
      | field field => exact ih hfirm h
      | func decl =>
          simp only [declareMethods, gives_bind, gives_pure] at h
          obtain ⟨func, s₁, hfunc, funcs', _, hrest, -, rfl⟩ := h
          simp only [List.filterMap_cons, List.flatMap_cons, List.append_assoc] at hfirm
          have hfunc := advances_declareMember hfirm hfunc
          exact hfunc.trans (ih hfunc.firm hrest)

/-- The bodies of functions are left to be typed until they are analyzed. -/
theorem advances_declareFuncs (decls : List Decl) {funcs : List SymbolId}
    (hfirm : s.Firm visited whole (decls.flatMap Decl.funcItems ++ rest))
    (h : (declareFuncs decls).Gives settings s funcs s') : s.Advances whole rest s' visited := by
  induction decls generalizing s funcs with
  | nil =>
      obtain ⟨-, rfl⟩ := gives_pure.mp h
      exact hfirm.refl
  | cons decl decls ih =>
      rw [List.flatMap_cons, List.append_assoc] at hfirm
      cases decl with
      | func decl =>
          simp only [declareFuncs, gives_bind, gives_pure] at h
          obtain ⟨func, s₁, hdeclare, _, _, ⟨rfl, rfl⟩, funcs₂, _, hrest, -, rfl⟩ := h
          have hfirm : s.Firm visited whole (decl.items ++ (decls.flatMap Decl.funcItems ++ rest)) := by
            simpa [Decl.funcItems, Decl.funcs] using hfirm
          have hfunc := hfirm.declares (declares_declareFunc hfirm.sound hdeclare)
          exact hfunc.trans (ih hfunc.firm hrest)
      | structType node name members =>
          simp only [declareFuncs, gives_bind, gives_pure] at h
          obtain ⟨owner, _, howner, scope, _, hscope, funcs₁, s₁, hmethods, funcs₂, _, hrest, -,
            rfl⟩ := h
          obtain ⟨-, rfl⟩ := declSymbol_gives howner
          obtain rfl := memberScope_state hscope
          have hmethods := advances_declareMethods members hfirm hmethods
          exact hmethods.trans (ih hmethods.firm hrest)
      | _ =>
          simp only [declareFuncs, gives_bind, gives_pure] at h
          obtain ⟨_, _, ⟨rfl, rfl⟩, funcs₂, _, hrest, -, rfl⟩ := h
          exact ih hfirm hrest

/-! ## Analyzing variables and bodies -/

theorem GlobalRuns.gathers {decl : Decl} (run : GlobalRuns settings decl s visited s' visited')
    (hfirm : s.Firm visited whole (decl.globalItems ++ rest)) :
    s.Gathers whole rest decl.globalItems s' visited' ∧ s'.Establishes decl := by
  cases run with
  | global runBinding =>
      exact runBinding.deduces trivial (runBinding.preserves hfirm.sound trivial).sound hfirm
  | other hother =>
      cases decl with
      | global node binding => exact absurd rfl (hother node binding)
      | _ => exact ⟨hfirm.refl.gathers, trivial⟩

theorem gathers_globals {decls : List Decl}
    (run : RunsEach (GlobalRuns settings) decls s visited s' visited')
    (hfirm : s.Firm visited whole (decls.flatMap Decl.globalItems ++ rest)) :
    s.Gathers whole rest (decls.flatMap Decl.globalItems) s' visited' ∧
      ∀ decl ∈ decls, s'.Establishes decl := by
  induction run with
  | nil => exact ⟨hfirm.refl.gathers, by simp⟩
  | cons runFirst _ ih =>
      rw [List.flatMap_cons, List.append_assoc] at hfirm
      obtain ⟨hfirst, hdecl⟩ := runFirst.gathers hfirm
      obtain ⟨hrest, hdecls⟩ := ih hfirst.firm
      rw [List.flatMap_cons]
      exact ⟨hfirst.trans hrest, List.forall_mem_cons.mpr ⟨hrest.carries.establishes hdecl, hdecls⟩⟩

theorem advances_bodies {funcs : List SymbolId}
    (run : RunsEach (fun func => Runs settings (.body func)) funcs s visited s' visited')
    (hfirm : s.Firm visited whole rest) : s.Advances whole rest s' visited' :=
  run.keeps (P := fun t visited => s.Advances whole rest t visited) hfirm.refl fun _ _ _ _ _ runBody h =>
    have hsound := (runBody.preserves h.firm.sound trivial).sound
    h.trans (runBody.deduces trivial hsound h.firm).1.toAdvances

/-! ## Modules -/

/-- Everything in a module is found to hold at its end, and its variables can hold their values. -/
theorem ModuleRuns.gathers {isExternal : Bool} {m : Module}
    (run : ModuleRuns settings isExternal m s visited s' visited') (hidle : s.Idle)
    (hfirm : s.Firm visited whole (m.items ++ rest)) :
    s.Gathers whole rest m.items s' visited' ∧ ∀ decl ∈ m.decls, s'.Establishes decl := by
  have hidle' := run.idle hidle
  obtain ⟨hstart, htypes, hparts, hfuncs, hglobals, hbodies, hfinish⟩ := run.phases hidle.sound
  have hperm := Decl.items_perm m.decls
  have hfirm := hfirm.perm (hperm.append_right rest)
  rw [List.append_assoc] at hfirm
  have hstart := hfirm.steps hstart.steps
  have hcomplete := complete_of_completes hstart.firm.complete htypes hparts
  have htypes :=
    hstart.trans (hstart.firm.prepares (htypes.toPrepares.trans hparts.toPrepares) hcomplete)
  have hdeclared := (declaresFuncs_declareFuncs m.decls htypes.firm.sound hfuncs).declared
  have hfuncs := advances_declareFuncs m.decls htypes.firm hfuncs
  obtain ⟨hglobals, hdecls⟩ := gathers_globals hglobals hfuncs.firm
  have hbodies := advances_bodies hbodies hglobals.firm
  have hend := hbodies.trans (hbodies.firm.calm (hfinish hbodies.firm.sound))
  have hlater := hglobals.carries.trans hend.carries
  refine ⟨⟨((htypes.trans hfuncs).trans hglobals.toAdvances).trans hend, fun item hitem => ?_⟩,
    fun decl hdecl => hend.carries.establishes (hdecls decl hdecl)⟩
  rcases List.mem_append.mp (hperm.mem_iff.mp hitem) with hitem | hitem
  · obtain ⟨d, hd, hitem⟩ := List.mem_flatMap.mp hitem
    obtain ⟨decl, hdecl, hitem⟩ := List.mem_flatMap.mp hitem
    obtain ⟨func, -, hsymbol, info, hinfo, heq⟩ :=
      hdeclared decl (List.mem_flatMap.mpr ⟨d, hd, hdecl⟩)
    obtain ⟨info', hinfo', hbecomes⟩ := hlater.contained.func hinfo
    exact holds_of_funcDone hend.firm.checked ⟨func, info', hlater.meanings.decls _ _ hsymbol, hinfo',
      hbecomes.decl.trans heq, hidle'.done func info' hinfo'⟩ item hitem
  · exact hend.carries.holds (hglobals.holds item hitem)

theorem gathers_modules {modules : List Module} {isExternal : Bool}
    (run : RunsEach (ModuleRuns settings isExternal) modules s visited s' visited') (hidle : s.Idle)
    (hfirm : s.Firm visited whole (modules.flatMap Module.items ++ rest)) :
    s.Gathers whole rest (modules.flatMap Module.items) s' visited' ∧
      ∀ m ∈ modules, ∀ decl ∈ m.decls, s'.Establishes decl := by
  induction run with
  | nil => exact ⟨hfirm.refl.gathers, by simp⟩
  | cons runFirst _ ih =>
      rw [List.flatMap_cons, List.append_assoc] at hfirm
      obtain ⟨hfirst, hdecls⟩ := runFirst.gathers hidle hfirm
      obtain ⟨hrest, hmodules⟩ := ih (runFirst.idle hidle) hfirst.firm
      rw [List.flatMap_cons]
      exact ⟨hfirst.trans hrest, List.forall_mem_cons.mpr
        ⟨fun decl hdecl => hrest.carries.establishes (hdecls decl hdecl), hmodules⟩⟩

end Check

end Stela
