import Stela.Proofs.Check.Flow
import Stela.Proofs.Session.Deduction

/-!
# Control flow in a session

In a program that the first check of a session accepts, `break` and `continue`
leave only loops of the body they are written in, and a body whose result is not
void is never left at its end. So it is with every body that is accepted, in
whatever state the analysis comes to it. Of bodies with only such `break` and
`continue`, those said not to return on every path are the ones that can be left
at their end.
-/

namespace Stela

namespace Check

open CheckState

variable {settings : Settings} {body : List Stmt}

/-- The bodies that the analysis accepts flow well, whatever the state is in which it comes to them. -/
structure BodiesFlow (settings : Settings) : Prop where
  functions : ∀ bound func info body s s', s.tables.symbols.func? func = some info →
    info.state = .unchecked → info.decl.body = some body →
    (checkBody bound func).Gives settings s () s' → ∃ info' ret,
      s'.tables.symbols.func? func = some info' ∧ info'.state = .done ∧ info'.ret = some ret ∧
        s'.tables.Flows ret body
  closures : ∀ bound context expected node sig body s type s',
    (visit (checkBody bound) context expected (.closure node sig body)).Gives settings s type s' →
      ∃ params ret, s'.tables.types.get? type.type = some (.func params ret) ∧ s'.tables.Flows ret body

theorem bodiesFlow (settings : Settings) : BodiesFlow settings :=
  ⟨fun _ _ _ _ _ _ => flows_of_checkBody, fun _ _ _ _ _ _ _ _ _ => flows_of_visit⟩

/-- The step ends in a value. -/
def isOk {α : Type} (p : Check α) (settings : Settings) (s : CheckState) : Bool :=
  match p settings s with
  | .ok .. => true
  | .failed .. => false

theorem exists_gives_of_isOk {α : Type} {p : Check α} {s : CheckState} (h : p.isOk settings s = true) :
    ∃ a s', p.Gives settings s a s' := by
  unfold isOk at h
  cases hresult : p settings s with
  | ok a s' => exact ⟨a, s', hresult⟩
  | failed failure s' =>
      rw [hresult] at h
      cases h

/-- The statements pass the analysis as the body of a function or closure, in which no loop is
entered yet. -/
def Admits (settings : Settings) (body : List Stmt) : Prop :=
  ∃ bound frame rest s s', s.frames = frame :: rest ∧ frame.loopDepth = 0 ∧
    (checkStmts (checkBody bound) body).Gives settings s () s'

theorem Admits.controlled (h : Admits settings body) : stmtsControlled 0 body = true := by
  obtain ⟨bound, frame, rest, s, s', hframes, hdepth, hgives⟩ := h
  obtain ⟨_, run⟩ := runs_checkStmts (fun _ _ _ => runs_checkBody bound) body hgives []
  have hbodies : s.bodies = (frame.place, 0) :: rest.map fun f => (f.place, f.loopDepth) := by
    simp [CheckState.bodies, hframes, hdepth]
  exact run.controlled hbodies

end Check

namespace Program

/-- How the bodies among the given expressions and functions can end. -/
structure FlowsWell (p : Program) (items : List Occurrence) : Prop where
  functions : ∀ decl body, .func decl ∈ items → decl.body = some body → ∃ func info ret,
    p.final.meanings.decls.get? decl.node.id = some func ∧
      p.tables.symbols.func? func = some info ∧ info.decl = decl ∧ info.ret = some ret ∧
      p.tables.Flows ret body
  closures : ∀ node sig body, .expr (.closure node sig body) ∈ items → ∃ closure info ret,
    p.final.meanings.exprs.get? node.id = some closure ∧
      p.tables.symbols.closure? closure = some info ∧ info.ret = some ret ∧ p.tables.Flows ret body

theorem flowsWell_of_checked {p : Program} (hchecked : p.final.Checked) {items : List Occurrence}
    (hitems : ∀ item ∈ items, p.final.Holds item) : p.FlowsWell items where
  functions decl body hdecl hbody := by
    obtain ⟨func, info, hfunc, hinfo, heq, hdone⟩ := (hitems _ hdecl).deduced
    obtain ⟨-, ret, hret, hyields⟩ := hchecked func info body hinfo hdone (heq ▸ hbody)
    exact ⟨func, info, ret, hfunc, hinfo, heq, hret, Tables.flows_of_controlled hyields.loops hyields.ends⟩
  closures node sig body hclosure := by
    obtain ⟨closure, info, ret, hmeaning, hinfo, hret, hyields⟩ := (hitems _ hclosure).deduced
    exact ⟨closure, info, ret, hmeaning, hinfo, hret,
      Tables.flows_of_controlled hyields.loops hyields.ends⟩

end Program

namespace Session

open Check CheckState

/-- The checks of control flow are exact. If every condition may come out either way and loops run
any number of times, then no body of a program that the first check of a session accepts ends in a `break` or
`continue`, and none that has to return a value is left at its end. The same holds of every body that
is accepted in any state, so in a later check too. A body that passes the check of its `break` and
`continue` can be left at its end exactly if it is said not to return on every path. -/
theorem check_controls_flow (session : Session) (hbuilt : session.Built) (settings : Settings) :
    (∀ program, (session.check settings).outcome = .ok program → program.FlowsWell session.items) ∧
    BodiesFlow settings ∧
    ∀ body, Admits settings body ∨ stmtsControlled 0 body = true →
      (stmtsReturn body = false ↔ (Code.stmts body).Executes .falls) := by
  refine ⟨fun program h => ?_, bodiesFlow settings, fun body hpasses => ?_⟩
  · obtain ⟨visited, hvisits⟩ := exists_visits h
    obtain ⟨hgathers, -⟩ := hvisits.gathers hbuilt
    exact Program.flowsWell_of_checked hgathers.firm.checked hgathers.holds
  · have hcontrolled : stmtsControlled 0 body = true := hpasses.elim Admits.controlled id
    exact ⟨stmts_execute_falls body hcontrolled,
      fun hfalls => Bool.eq_false_iff.mpr fun hreturns => hfalls.ne_falls hreturns rfl⟩

/-- Loops, branches, a closure and a function inside of each other. -/
def winding : Session :=
  Session.empty.withSource "m.stela"
    "func f() { while true { func() { while true { break; } return 1; }; func g() { return 2; }
       if g() > 1 { break; } else { continue; } } return 3; }"

/-- A loop that is left in its first pass, as the body of a function. -/
def leftAtOnce : List Stmt :=
  [.whileLoop ⟨0, default⟩ (.literal ⟨0, default⟩ (.bool true)) [.breakLoop ⟨1, default⟩]]

theorem admits_leftAtOnce : Admits {} leftAtOnce :=
  let frame : Frame := ⟨0, .function, 0, .deduced none, [], 0⟩
  ⟨0, frame, [], { initial {} with frames := [frame] }, _, rfl, rfl, rfl⟩

/-- A function with that body. -/
def leaving : FuncDecl := ⟨⟨0, default⟩, ⟨"f", default⟩, ⟨[], none⟩, some leftAtOnce, .free, .everyone⟩

/-- The start of an analysis, but with the function declared. -/
def beforeLeaving : CheckState :=
  let s := initial {}
  let info : FuncInfo := ⟨leaving, [], none, none, .unchecked, none⟩
  { s with tables.symbols := (s.tables.symbols.add ⟨"f", default, .func info, 0, false, false⟩).2 }

theorem check_winding_controls_flow : winding.Built ∧
    (∃ program, (winding.check {}).outcome = .ok program ∧ program.FlowsWell winding.items) ∧
    (∃ func info s', beforeLeaving.tables.symbols.func? func = some info ∧ info.state = .unchecked ∧
      info.decl.body = some leftAtOnce ∧ (checkBody 1 func).Gives {} beforeLeaving () s' ∧
      ∃ ret, s'.tables.Flows ret leftAtOnce) ∧
    (∃ type s', (visit (checkBody 0) .value none (.closure ⟨1, default⟩ ⟨[], none⟩ leftAtOnce)).Gives {}
      beforeLeaving type s' ∧ ∃ ret, s'.tables.Flows ret leftAtOnce) ∧
    Admits {} leftAtOnce ∧ (Code.stmts leftAtOnce).Executes .falls := by
  have hbuilt : winding.Built := .withSource .empty _ _
  have hok : (winding.check {}).outcome.toOption.map (fun _ => ()) = some () := by
    rw [winding, withSource_ofList]
    decide +kernel
  obtain ⟨program, hprogram, -⟩ := exists_ok_of_map_toOption hok
  obtain ⟨hflows, hbodies, hfalls⟩ := check_controls_flow _ hbuilt {}
  have hanalyzes : (checkBody 1 (initial {}).tables.symbols.size).isOk {} beforeLeaving = true := by
    decide +kernel
  have htypes : (visit (checkBody 0) .value none (.closure ⟨1, default⟩ ⟨[], none⟩ leftAtOnce)).isOk {}
      beforeLeaving = true := by decide +kernel
  obtain ⟨_, s, hfunc⟩ := exists_gives_of_isOk hanalyzes
  obtain ⟨type, s', hclosure⟩ := exists_gives_of_isOk htypes
  obtain ⟨_, ret, -, -, -, hends⟩ := hbodies.functions 1 _ _ leftAtOnce _ _ rfl rfl rfl hfunc
  obtain ⟨_, ret', -, hends'⟩ := hbodies.closures _ _ _ _ _ _ _ _ _ hclosure
  exact ⟨hbuilt, ⟨program, hprogram, hflows program hprogram⟩,
    ⟨_, _, s, rfl, rfl, rfl, hfunc, ret, hends⟩, ⟨type, s', hclosure, ret', hends'⟩, admits_leftAtOnce,
    (hfalls leftAtOnce (.inl admits_leftAtOnce)).mp rfl⟩

end Session

end Stela
