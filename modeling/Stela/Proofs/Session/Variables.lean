import Stela.Proofs.Session.Deduction

/-!
# Variables in a session

In a program that was analyzed without an error every variable that a statement or
a module declares has the type of its first value, and no such variable is of type
`void`, also behind weak aliases. Nothing of the sort is asked of parameters and
fields.
-/

namespace Stela

/-- The variable has the type of its first value and is not of type `void`. -/
def Program.Binds (p : Program) (place : Check.BindingPlace) (binding : Binding) : Prop :=
  ∃ symbol type, p.final.meanings.variable? place = some symbol ∧
    p.tables.symbols.kind? symbol =
      some (.object ⟨.named type binding.mutability, place.origin⟩) ∧
    p.tables.isVoid type = false ∧
    ∀ e ∈ binding.init, ∃ value, p.typeOf? e = some value ∧ p.tables.same value.type type = true

theorem Program.binds_of_idle {p : Program} (hidle : p.final.Idle) {place : Check.BindingPlace}
    {binding : Binding} (h : p.final.Binds place binding) : p.Binds place binding := by
  obtain ⟨symbol, type, hsymbol, hkind, hvalues, hinit⟩ := h
  refine ⟨symbol, type, hsymbol, hkind, hvalues.isVoid_eq_false hidle.sound.tables, fun e he => ?_⟩
  obtain ⟨value, hvalue, hagrees⟩ := hinit e he
  exact ⟨value, hvalue, hidle.same hagrees⟩

namespace Session

/-- Every variable in a session that was analyzed without an error can hold its values, whether a
statement declares it, in a function or closure at any depth, or a module does. -/
theorem check_binds (session : Session) (hbuilt : session.Built) (settings : Settings)
    (program : Program) (h : (session.check settings).outcome = .ok program) :
    (∀ item ∈ session.items, ∀ node binding, .bind node binding ∈ item.stmts →
      program.Binds (.stmt node.id) binding) ∧
    ∀ m ∈ session.externals ++ session.modules, ∀ node binding, .global node binding ∈ m.decls →
      program.Binds (.decl node.id) binding := by
  obtain ⟨visited, hvisits⟩ := exists_visits h
  obtain ⟨hgathers, hdecls⟩ := hvisits.gathers hbuilt
  have hidle := idle_final h
  refine ⟨fun item hitem node binding hmem => ?_, fun m hm node binding hmem => ?_⟩
  · exact Program.binds_of_idle hidle ((hgathers.holds item hitem).uses.stmts _ hmem).declared
  · exact Program.binds_of_idle hidle (hdecls m hm _ hmem).2

/-- What a function without a result returns is passed on. -/
def passingNothing : Session :=
  Session.empty.withSource "main.stela"
    "func g() { } func f(a: void) { } func main() { let n = 1; f(g()); }"

/-- A parameter may be of type `void`. -/
example : (passingNothing.check {}).outcome.toOption.map (fun program =>
    program.tables.symbols.entries.toList.filterMap fun entry => match entry.kind with
      | .object info => some (entry.name, info.origin, program.tables.isVoid info.type.type)
      | _ => none) = some [("a", .param, true), ("n", .body, false)] := by
  rw [passingNothing, withSource_ofList]
  decide +kernel

end Session

end Stela
