import Stela.Proofs.Session.Storage

/-!
# Coverage of a session

The analysis visits every expression of a session once and types it then. Only
the names of types and modules that a member is reached through are passed over.
-/

namespace Stela

namespace Program

/-- The expression names a type or a module, and a member is reached through it. -/
def IsPath (p : Program) (items : List Occurrence) (e : Expr) : Prop :=
  (∃ node name, .expr (.member node e name) ∈ items) ∧ ∃ space, p.final.Names e space

/-- There is an expression of this number among the items that is no path. -/
def IsValueAt (p : Program) (items : List Occurrence) (id : Nat) : Prop :=
  ∃ e, .expr e ∈ items ∧ e.id = id ∧ ¬ p.IsPath items e

/-- The values among the items are typed, and the analysis visits each of them once. -/
structure Covers (p : Program) (session : Session) (settings : Settings) : Prop where
  /-- Expressions are told apart by their numbers. -/
  numbered : (Occurrence.ids session.items).Nodup
  typed : ∀ id, (p.final.exprTypes.get? id).isSome = true ↔ p.IsValueAt session.items id
  /-- The program is the end of an analysis. -/
  analyzed : ∃ visited, session.Visits settings p.final visited
  visited : ∀ visited, session.Visits settings p.final visited →
    visited.Nodup ∧ ∀ id, id ∈ visited ↔ p.IsValueAt session.items id

section

variable {session : Session} {p : Program} {e : Expr} {id : Nat}

/-- Whatever is typed is an expression of the session that is no path. -/
theorem isValueAt_of_typed (hvalues : p.final.TypesValues session.items)
    (h : (p.final.exprTypes.get? id).isSome = true) : p.IsValueAt session.items id := by
  obtain ⟨typing, htyping⟩ := Option.isSome_iff_exists.mp h
  obtain ⟨e, he, hid, hvalue⟩ := hvalues id typing htyping
  refine ⟨e, he, hid, ?_⟩
  rintro ⟨-, space, hnames⟩
  exact hvalue.not_names hnames

/-- What is called is typed, and so is what a member is reached through, if it is a value. -/
theorem typed_of_not_isPath (hitems : ∀ item ∈ session.items, p.final.Holds item)
    (hvalues : ∀ e ∈ session.values, p.final.Valued e) (he : .expr e ∈ session.items)
    (hpath : ¬ p.IsPath session.items e) : ∃ type, p.typeOf? e = some type := by
  rcases valued_or_part hitems hvalues he with
    ⟨type, htype, -⟩ | ⟨node, args, hcall⟩ | ⟨node, name, hmember⟩
  · exact ⟨type, htype⟩
  · obtain ⟨-, calleeType, -, -, -, hcallee, -⟩ := (hitems _ hcall).deduced
    exact ⟨calleeType, hcallee⟩
  · rcases (hitems _ hmember).uses.object node e name rfl with ⟨space, hnames⟩ | ⟨type, htype, -⟩
    · exact absurd ⟨⟨node, name, hmember⟩, space, hnames⟩ hpath
    · exact ⟨type, htype⟩

theorem typed_iff_isValueAt (htyped : p.final.TypesValues session.items)
    (hitems : ∀ item ∈ session.items, p.final.Holds item)
    (hvalues : ∀ e ∈ session.values, p.final.Valued e) :
    (p.final.exprTypes.get? id).isSome = true ↔ p.IsValueAt session.items id := by
  constructor
  · exact isValueAt_of_typed htyped
  · rintro ⟨e, he, rfl, hpath⟩
    obtain ⟨type, htype⟩ := typed_of_not_isPath hitems hvalues he hpath
    obtain ⟨typing, htyping, -⟩ := Option.map_eq_some_iff.mp htype
    rw [htyping, Option.isSome_some]

end

end Program

namespace Session

open Check CheckState

/-- Every value is typed: in a program that the first check of a session accepts, the expressions with
a type are those of the modules of the session, apart from the names of types and modules that a member
is reached through. The analysis visits each of them exactly once, and no other expression. -/
theorem check_covers (session : Session) (hbuilt : session.Built) (settings : Settings)
    (program : Program) (h : (session.check settings).outcome = .ok program) :
    program.Covers session settings := by
  have htyped {visited : List Nat} (hvisits : session.Visits settings program.final visited)
      (id : Nat) : (program.final.exprTypes.get? id).isSome = true ↔
        program.IsValueAt session.items id := by
    obtain ⟨hgathers, hdecls⟩ := hvisits.gathers hbuilt
    exact Program.typed_iff_isValueAt hgathers.firm.values hgathers.holds (valued_of_establishes hdecls)
  obtain ⟨visited, hvisits⟩ := exists_visits h
  refine ⟨nodup_ids hbuilt, htyped hvisits, ⟨visited, hvisits⟩, fun visited hvisits => ?_⟩
  obtain ⟨hgathers, -⟩ := hvisits.gathers hbuilt
  have hcounts := hgathers.firm.counts
  exact ⟨hcounts.distinct, fun id => (hcounts.typed id).trans (htyped hvisits id)⟩

/-- A closure that reaches a case through its type and the module of the type. -/
def qualified : Session :=
  (Session.empty.withSource "base.stela" "enum Color \x7b red \x7d").withSource "main.stela"
    "import base; let f = func() \x7b return base.Color.red; \x7d;"

theorem check_qualified_covers : qualified.Built ∧ ∃ program,
    (qualified.check {}).outcome = .ok program ∧ program.Covers qualified {} := by
  have hbuilt : qualified.Built := .withSource (.withSource .empty _ _) _ _
  have hok : (qualified.check {}).outcome.toOption.map (fun _ => ()) = some () := by
    rw [qualified, withSource_ofList, withSource_ofList]
    decide +kernel
  obtain ⟨program, hprogram, -⟩ := exists_ok_of_map_toOption hok
  exact ⟨hbuilt, program, hprogram, check_covers _ hbuilt _ _ hprogram⟩

end Session

end Stela
