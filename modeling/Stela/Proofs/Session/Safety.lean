import Stela.Proofs.Modules.Order
import Stela.Proofs.Safety.Modules
import Stela.Proofs.Session.Building
import Stela.Proofs.Session.Placeholders
import Stela.Session.Check

/-!
# Safety of a session

The nodes of a session that was built are different, so each is given its
meaning once, and every declaration has its turn. So none of the assumptions
that the analysis makes about its own state ever fails: a check ends in a
program or in an error of the program.
-/

namespace Stela

open Check CheckState

namespace Session

variable {n bound : Nat} {own : List NodeKey} {s : CheckState} {session : Session}

/-- The modules are put into an order, or the analysis ends in an error. -/
theorem fares_arrange {β : Type} {modules : List Module} {external : List String}
    {f : List Module → Check β} {R : β → CheckState → Prop}
    (h : ∀ arranged, arranged.Perm modules → Fares n bound own (f arranged) s R) :
    Fares n bound own (arrange modules (findOrder (importsOf modules) external) >>= f) s R := by
  unfold arrange
  split
  · next order horder =>
    exact .require (findOrder_mapM horder modules (List.length_map _))
      (h _ (findOrder_filterMap_perm horder modules (List.length_map _)))
  · exact .raise_bind

theorem fares_analyze (hfree : s.Free n session.keys) (hbound : bound = session.nodes.decls + 1) :
    Fares n bound session.keys session.analyze s fun _ _ => True := by
  unfold analyze externalOrder moduleOrder
  refine fares_arrange fun externals hexternals => fares_arrange fun modules hmodules => ?_
  have hperm : session.keys.Perm (externals.flatMap Module.keys ++ modules.flatMap Module.keys) := by
    rw [← List.flatMap_append]
    exact (hexternals.append hmodules).symm.flatMap_right Module.keys
  refine Fares.widen ?_ hperm.symm.subset
  have hfree := hfree.perm hperm
  dsimp only
  rw [← hbound]
  refine .bind (fares_checkModules externals hfree.left) (List.subset_append_left _ _) fun _ s₁ h _ => ?_
  refine .bind (fares_checkModules modules (hfree.right h.toFollows)) (List.subset_append_right _ _)
    fun _ s₂ _ _ => ?_
  exact .bind safe_warnUnused (List.nil_subset _) fun _ _ _ _ => .pure fun _ => trivial

/-- The keys of a session that was built are below the number of its declarations. -/
theorem below_of_built (h : session.Built) {key : NodeKey} (hkey : key ∈ session.keys) :
    key.Below session.nodes.decls := by
  cases key with
  | node kind id =>
      cases kind with
      | decl => exact decl_lt h hkey
      | _ => trivial
  | param type => trivial

/-- A check ends in a program or in an error of the program, never in a failed assumption of the
analysis, and the analysis leaves a state in which every number is that of an entry. -/
theorem check_never_faults (session : Session) (hbuilt : session.Built) (settings : Settings) :
    ((∃ program, (session.check settings).outcome = .ok program) ∨
      ∃ error, (session.check settings).outcome = .error (.error error)) ∧
    (session.analyze settings (.initial {})).Meets fun _ final => final.Closed := by
  have hfree : (CheckState.initial {}).Free session.nodes.decls session.keys :=
    blank_initial.free (nodup_keys hbuilt) fun key hkey => below_of_built hbuilt hkey
  have hmeets := fares_analyze hfree rfl blank_initial.ready settings
  refine ⟨?_, CheckResult.Meets.imp hmeets fun _ _ h => h.1.closed⟩
  unfold check
  cases hresult : session.analyze settings (.initial {}) with
  | ok order final => exact .inl ⟨_, rfl⟩
  | failed failure final =>
      rw [hresult] at hmeets
      obtain ⟨⟨error, rfl⟩, -⟩ := hmeets
      exact .inr ⟨error, rfl⟩

/-- A module of the host, and one with a struct and a closure. -/
def sailing : Session :=
  (Session.empty.addExternal "host" [.func "now" [] (some "sint")]).2.withSource "main.stela"
    "import host; struct P { x: sint; }
     func far(p: P) { let f = func(k: sint) { return p.x + k; }; return f(now()); }"

theorem check_sailing_never_faults : sailing.Built ∧
    (∃ program, (sailing.check {}).outcome = .ok program ∧ program.order = ["main"]) ∧
    (sailing.analyze {} (.initial {})).Meets fun _ final => final.Closed := by
  have hbuilt : sailing.Built := .withSource (.external .empty _ _) _ _
  have hok : (sailing.check {}).outcome.toOption.map Program.order = some ["main"] := by
    rw [sailing, withSource_ofList]
    decide +kernel
  obtain ⟨program, hprogram, horder⟩ := exists_ok_of_map_toOption hok
  exact ⟨hbuilt, ⟨program, hprogram, horder⟩, (check_never_faults sailing hbuilt {}).2⟩

end Session

end Stela
