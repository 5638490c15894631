import Stela.Proofs.Session.Deduction
import Stela.Proofs.Types.Interchange

/-!
# Literals in a session

In a program that was analyzed without an error every literal has the type of its
form. The number of an integer is below what the bits of a value of that type can
tell apart. This is the whole range of `byte` and `uint`, and goes beyond the
numbers that a `sint` has: nothing asks for its sign bit.
-/

namespace Stela

/-- A value of a builtin type takes the bytes of the type. -/
theorem Tables.layout?_of_builtin {t : Tables} {type : TypeId} {kind : Builtin}
    (h : t.types.get? type = some (.builtin kind)) :
    t.layout? type = some ⟨kind.size, max kind.size 1⟩ := by
  have hself : t.representation type = type := representation_eq_self (by simp [aliasTarget?, h])
  simp [layout?, layoutWithin, hself, h]

/-- The literal has the type of its form. An integer fits, without a sign, the memory of that type. -/
structure Program.HoldsLiteral (p : Program) (node : Node) (value : Literal) (type : TypeId) :
    Prop where
  typed : p.typeOf? (.literal node value) = some (.value type)
  form : p.tables.types.get? type = some value.ty
  fits : ∀ n suffix, value = .int n suffix → ∃ layout, p.tables.layout? type = some layout ∧
    n.toNat < 2 ^ (8 * layout.size.toNat)

namespace Session

/-- Every literal in a session that was analyzed without an error has its type, and what it denotes
fits the memory that the type takes. -/
theorem check_holds_literals (session : Session) (hbuilt : session.Built) (settings : Settings)
    (program : Program) (h : (session.check settings).outcome = .ok program) {node : Node}
    {value : Literal} (hmem : .expr (.literal node value) ∈ session.items) :
    ∃ type, program.HoldsLiteral node value type := by
  obtain ⟨visited, hvisits⟩ := exists_visits h
  obtain ⟨hgathers, -⟩ := hvisits.gathers hbuilt
  obtain ⟨type, htype, hform⟩ := (hgathers.holds _ hmem).deduced
  refine ⟨type, htype, hform, fun n suffix heq => ?_⟩
  subst heq
  have hrange : (Literal.int n suffix).InRange := formed_of_built hbuilt _ hmem
  exact ⟨_, Tables.layout?_of_builtin hform, hrange⟩

/-- The last `uint`, and the number after the last `sint` without a suffix. -/
def brimming : Session :=
  Session.empty.withSource "main.stela"
    "func main() { let _top = 0xFFFFFFFFFFFFFFFFu; let _over = 9223372036854775808; }"

/-- The number after the last `sint` is a `sint` all the same. -/
example : (brimming.check {}).outcome.toOption.map (fun program =>
    brimming.items.filterMap fun
      | .expr (.literal node (.int n suffix)) =>
          (program.typeOf? (.literal node (.int n suffix))).map fun type =>
            (n.toNat, program.tables.text? type.type)
      | _ => none) = some [(2 ^ 64 - 1, some "uint"), (2 ^ 63, some "sint")] := by
  rw [brimming, withSource_ofList]
  decide +kernel

end Session

end Stela
