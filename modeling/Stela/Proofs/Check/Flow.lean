import Stela.Proofs.Check.Frames
import Stela.Proofs.Check.Loops
import Stela.Proofs.Check.Settling
import Stela.Proofs.Types.Stability

/-!
# How bodies end

A body that the analysis accepts leaves only loops of its own, and one that has to return a value is
not left at its end. It does not matter in which state the analysis comes to the body, nor what the
nodes in it are known to mean already. What is found of the result at the last statement holds where
the function is done or the closure has its type.
-/

namespace Stela

/-- How a body with this result can end. -/
structure Tables.Flows (t : Tables) (ret : TypeId) (body : List Stmt) : Prop where
  /-- No `break` or `continue` leaves the body. -/
  contained : ∀ outcome, (Code.stmts body).Executes outcome → outcome ≠ .breaks ∧ outcome ≠ .continues
  /-- A body that has to return a value is not left at its end. -/
  ends : t.isVoid ret = false → ¬ (Code.stmts body).Executes .falls
  /-- A body said not to return on every path can be left at its end. -/
  falls : stmtsReturn body = false → (Code.stmts body).Executes .falls

theorem Tables.flows_of_controlled {t : Tables} {ret : TypeId} {body : List Stmt}
    (hloops : stmtsControlled 0 body = true) (hends : t.isVoid ret = true ∨ stmtsReturn body = true) :
    t.Flows ret body where
  contained outcome hexecutes := by
    rcases hexecutes.stays hloops with rfl | rfl <;> simp
  ends hvoid hexecutes := by
    rcases hends with hret | hreturns
    · exact absurd hret (Bool.eq_false_iff.mp hvoid)
    · exact hexecutes.ne_falls hreturns rfl
  falls hreturns := stmts_execute_falls body hloops hreturns

namespace Check

open CheckState

variable {settings : Settings} {s s₁ s' : CheckState} {bound : Nat} {func : SymbolId} {info : FuncInfo}
  {body : List Stmt} {ret : TypeId}

/-- The end of a body is judged by tables that are maintained. -/
theorem ends_of_finishBody {frame : Frame} {span : Span}
    (h : (finishBody frame body span).Gives settings s ret s') :
    ((s.tables.concrete? ret).isSome ∧ s.tables.isVoid ret = true ∨ stmtsReturn body = true) ∧
      s.tables.Maintains s'.tables := by
  have htypes := (quiet_finishBody.restores h).types
  obtain ⟨-, -, hends, rfl⟩ := finishBody_gives h
  exact ⟨hends, Tables.maintains_of_eq htypes (resolvePending_still _).2⟩

/-- Statements that are analyzed as a body and judged at its end flow well in larger tables too. -/
theorem flows_of_finishBody {frame : Frame} {span : Span} {t : Tables}
    (hloops : stmtsControlled 0 body = true) (h : (finishBody frame body span).Gives settings s ret s₁)
    (ht : s₁.tables.Maintains t) : t.Flows ret body := by
  obtain ⟨hends, hmaintains⟩ := ends_of_finishBody h
  exact Tables.flows_of_controlled hloops
    (hends.imp_left fun hvoid => (hmaintains.trans ht).isVoid hvoid.1 hvoid.2)

theorem maintains_modifyFunc {t : Tables} {f : FuncInfo → FuncInfo} :
    t.Maintains { t with symbols := t.symbols.modifyFunc func f } :=
  Tables.maintains_modifyKind fun kind _ => by cases kind <;> simp

theorem maintains_modifyClosure {t : Tables} {closure : SymbolId} {f : ClosureInfo → ClosureInfo} :
    t.Maintains { t with symbols := t.symbols.modifyClosure closure f } :=
  Tables.maintains_modifyKind fun kind _ => by cases kind <;> simp

/-- The body of a function flows well when the function is done. -/
theorem flows_of_checkBody (hfunc : s.tables.symbols.func? func = some info)
    (hstate : info.state = .unchecked) (hbody : info.decl.body = some body)
    (h : (checkBody bound func).Gives settings s () s') : ∃ info' ret,
      s'.tables.symbols.func? func = some info' ∧ info'.state = .done ∧ info'.ret = some ret ∧
        s'.tables.Flows ret body := by
  obtain ⟨_, run⟩ := runs_checkBody bound h []
  cases run with
  | bodySkip hskip => exact absurd hstate (hskip info hfunc)
  | bodyNone hfunc' _ hnone _ =>
      obtain rfl := Option.some.inj (hfunc.symm.trans hfunc')
      cases hbody.symm.trans hnone
  | bodyRun hfunc' _ hbody' hstart _ hscope hopen runBody hclose hfinish =>
      obtain rfl := Option.some.inj (hfunc.symm.trans hfunc')
      obtain rfl := Option.some.inj (hbody.symm.trans hbody')
      obtain ⟨place, hopens⟩ := entering_openBody.opens hopen
      have hloops := runBody.controlled hopens.bodies
      have hrestores := leads_closeBody _ _ _ _ _ (hopens.trans runBody.restores) hclose
      have hactive := inProgress_of_start hfunc hstart
      obtain ⟨info', hinfo', -⟩ := Option.map_eq_some_iff.mp ((hrestores.progress func).mpr hactive)
      simp only [closeBody, gives_bind, gives_popFrame, gives_pure] at hclose
      obtain ⟨frame, _, ⟨rest, -, rfl⟩, _, s₂, hjudge, _, _, hleave, rfl, rfl⟩ := hclose
      obtain ⟨-, rfl⟩ := gives_leaveScope.mp hleave
      obtain ⟨-, rfl⟩ := gives_modifyFunc.mp hfinish
      exact ⟨_, _, Tables.func?_modifyFunc hinfo', rfl, rfl,
        flows_of_finishBody hloops hjudge maintains_modifyFunc⟩

/-- The body of a closure flows well when the closure has its type. -/
theorem flows_of_visit {context : ExprContext} {expected : Option TypeId} {node : Node} {sig : Signature}
    {type : ExprType}
    (h : (visit (checkBody bound) context expected (.closure node sig body)).Gives settings s type s') :
    ∃ params ret, s'.tables.types.get? type.type = some (.func params ret) ∧
      s'.tables.Flows ret body := by
  obtain ⟨_, run⟩ := runs_visit (fun _ _ _ => runs_checkBody bound) _ _ _ h []
  cases run with
  | closure hopen runBody hclose hrecord =>
      obtain ⟨place, hopens⟩ := entering_openClosure.opens hopen
      have hloops := runBody.controlled hopens.bodies
      obtain ⟨rfl, rfl, -⟩ := record_gives hrecord
      simp only [closeClosure, gives_bind, gives_popFrame, gives_pure, gives_tables, gives_require] at hclose
      obtain ⟨frame, _, ⟨rest, -, rfl⟩, ret, s₂, hjudge, _, _, hleave, _, _, hmodify, _, _, ⟨rfl, rfl⟩, info, _,
        ⟨hinfo, rfl⟩, id, _, hintern, rfl, rfl⟩ := hclose
      obtain ⟨-, rfl⟩ := gives_leaveScope.mp hleave
      obtain ⟨-, rfl⟩ := gives_modifyClosure.mp hmodify
      obtain ⟨rfl, rfl⟩ := gives_intern.mp hintern
      refine ⟨_, ret, TypeTable.get?_intern _ _, flows_of_finishBody hloops hjudge ?_⟩
      exact maintains_modifyClosure.trans
        (Tables.maintains_of_eq (TypeTable.within_intern _ _) rfl)

end Check

end Stela
