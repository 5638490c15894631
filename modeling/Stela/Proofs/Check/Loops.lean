import Stela.Proofs.Check.Returning
import Stela.Proofs.Syntax.Execution

/-!
# Loops under analysis

The analysis of a statement leaves the loops that it entered. So the number of loops that the
innermost body counts is the number of loops around the statement under analysis, and a `break` or
`continue` is accepted in a loop of its own body only.
-/

namespace Stela.Check

open CheckState

variable {settings : Settings} {s s' : CheckState}

/-- What the analysis of statements accepts if the innermost body counts `depth` loops. -/
def Task.controlled (depth : Nat) : Task → Bool
  | .stmt part => part.controlled depth
  | .stmts parts => stmtsControlled depth parts
  | _ => true

theorem ne_zero_of_checkLoopControl {keyword : String} {span : Span}
    {place : SymbolId × FrameKind × ScopeId} {depth : Nat}
    {rest : List ((SymbolId × FrameKind × ScopeId) × Nat)} (hbodies : s.bodies = (place, depth) :: rest)
    (h : (checkLoopControl keyword span).Gives settings s () s') : depth ≠ 0 := by
  obtain ⟨frame, frames, hframes, hbody, -⟩ := List.map_eq_cons_iff.mp hbodies
  obtain ⟨-, rfl⟩ := Prod.mk.inj hbody
  simp only [checkLoopControl, gives_bind, gives_frame?, hframes, List.head?_cons] at h
  obtain ⟨_, _, ⟨rfl, rfl⟩, h⟩ := h
  rw [gives_ite] at h
  split at h
  · simp at h
  · assumption

/-- Statements that the analysis accepts leave only loops of their own body, by induction on the
run. -/
theorem Runs.controlled {task : Task} {visited visited' : List Nat}
    (run : Runs settings task s visited s' visited') {place : SymbolId × FrameKind × ScopeId}
    {depth : Nat} {rest : List ((SymbolId × FrameKind × ScopeId) × Nat)}
    (hbodies : s.bodies = (place, depth) :: rest) : task.controlled depth = true := by
  induction run generalizing place depth rest with
  | breakLoop hloop => exact bne_iff_ne.mpr (ne_zero_of_checkLoopControl hbodies hloop)
  | continueLoop hloop => exact bne_iff_ne.mpr (ne_zero_of_checkLoopControl hbodies hloop)
  | ifOnly runCond henter _ _ _ ihTrue =>
      have hstart := (bodies_enterScope henter).trans (runCond.restores.bodies.trans hbodies)
      exact ihTrue hstart
  | ifElse runCond henter runTrue hleave henter' _ _ _ ihTrue ihFalse =>
      have hstart := (bodies_enterScope henter).trans (runCond.restores.bodies.trans hbodies)
      have hend := (bodies_leaveScope hleave).trans (runTrue.restores.bodies.trans hstart)
      exact Bool.and_eq_true_iff.mpr
        ⟨ihTrue hstart, ihFalse ((bodies_enterScope henter').trans hend)⟩
  | whileLoop runCond hloop henter _ _ _ _ ihBody =>
      -- The body of the loop is analyzed with one more loop around it.
      have hstart := bodies_enterScope henter
      rw [(relooped_enterLoop hloop).bodies, runCond.restores.bodies, hbodies] at hstart
      exact ihBody hstart
  | block henter _ _ ih => exact ih ((bodies_enterScope henter).trans hbodies)
  | stmtsCons runStmt _ ihStmt ihRest =>
      exact Bool.and_eq_true_iff.mpr ⟨ihStmt hbodies, ihRest (runStmt.restores.bodies.trans hbodies)⟩
  | _ => rfl

end Stela.Check
