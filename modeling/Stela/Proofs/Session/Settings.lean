import Mathlib.Data.List.Forall2
import Stela.Proofs.Check.Indifference
import Stela.Session.Check

/-!
# Settings and the analysis

Whatever the settings are, a session is accepted or rejected alike, with the same
error or with the same tables. The settings decide only which warnings are given
and whether a temporary is relocated or moved and then destroyed.
-/

namespace Stela

/-! ## Agreement up to the settings -/

namespace Transfer

/-- Two transfers of one value, the first planned with relocations and the second
without. -/
inductive Counterpart : Transfer → Transfer → Prop where
  | bitCopy : Counterpart .bitCopy .bitCopy
  | copyConstruct : Counterpart .copyConstruct .copyConstruct
  | copyAssign : Counterpart .copyAssign .copyAssign
  | construct : Counterpart .relocate .moveConstruct
  | assign : Counterpart .relocateAssign .moveAssign

/-- Two transfers of one value, planned with these settings for relocations. -/
def Agrees (elide elide' : Bool) (x y : Transfer) : Prop :=
  if elide = elide' then x = y else if elide then Counterpart x y else Counterpart y x

theorem agrees_withElision (elide elide' : Bool) (transfer : Transfer) :
    Agrees elide elide' (transfer.withElision elide) (transfer.withElision elide') := by
  cases elide <;> cases elide' <;> cases transfer <;>
    first | exact rfl | constructor

end Transfer

/-- Two records of one transfer, planned with these settings. -/
structure TransferRecord.Agrees (a b : Settings) (x y : TransferRecord) : Prop where
  expr : x.expr = y.expr
  type : x.type = y.type
  site : x.site = y.site
  transfer : x.transfer.Agrees a.elide b.elide y.transfer

/-- Two analyses with these settings that found the same. -/
structure Program.Agrees (a b : Settings) (p q : Program) : Prop where
  /-- The order of the modules. -/
  order : p.order = q.order
  /-- The types and the symbols, the captures of closures among them. -/
  tables : p.tables = q.tables
  scopes : p.final.scopes = q.final.scopes
  exprTypes : p.final.exprTypes = q.final.exprTypes
  /-- The closure and the slot that a name is read through. -/
  captured : p.final.captured = q.final.captured
  /-- The objects without an initializer. -/
  defaults : p.final.defaults = q.final.defaults
  closures : p.final.closures = q.final.closures
  transfers : p.final.transfers.Forall₂ (TransferRecord.Agrees a b) q.final.transfers

/-- Two checks with these settings that come to the same end. -/
structure CheckReport.Agrees (a b : Settings) (r r' : CheckReport) : Prop where
  outcome : match r.outcome, r'.outcome with
    | .ok p, .ok q => p.Agrees a b q
    | .error failure, .error failure' => failure = failure'
    | _, _ => False
  meanings : r.meanings = r'.meanings
  /-- Apart from warnings the same is reported. -/
  diagnostics : (r.diagnostics.filter fun d => !d.isWarning) =
    r'.diagnostics.filter fun d => !d.isWarning

/-! ## Masked runs -/

namespace Mask

/-- The mask of a run with these settings changes nothing in them. -/
theorem settings_self (c : Settings) : settings ⟨c.elide, true⟩ c = c := rfl

theorem state_initial (m : Mask) (meanings : Meanings) :
    m.state (.initial meanings) = .initial meanings := by
  have add {α : Type} (all : List α) (name : α → String) (kind : α → SymbolKind) (s : CheckState) :
      m.state (all.foldl (fun s a => s.addBuiltin (name a) (kind a)) s) =
        all.foldl (fun s a => s.addBuiltin (name a) (kind a)) (m.state s) := by
    induction all generalizing s with
    | nil => rfl
    | cons a rest ih => exact ih _
  simp only [CheckState.initial, add]
  rfl

end Mask

theorem plain_arrange (modules : List Module) (order : Except GraphError (List Nat)) :
    Check.Plain (Session.arrange modules order) := by
  unfold Session.arrange
  split
  · exact Check.plain_require _ _
  · exact Check.plain_raise

theorem Session.indifferent_analyze (session : Session) : Check.Indifferent session.analyze :=
  (plain_arrange _ _).indifferent.bind fun _ => (plain_arrange _ _).indifferent.bind fun _ =>
    (Check.Plain.forM Check.plain_checkModule _).indifferent.bind fun _ =>
      (Check.Plain.forM Check.plain_checkModule _).indifferent.bind fun _ =>
        Check.indifferent_warnUnused.bind fun _ => Check.indifferent_pure _

/-! ## The two runs -/

section

variable {a b : Settings} {s t : CheckState}

/-- States that are the same under the mask of the second settings, each of which carries the
elision of its own settings. -/
structure MaskedAlike (a b : Settings) (s t : CheckState) : Prop where
  first : s = Mask.state ⟨a.elide, true⟩ s
  second : t = Mask.state ⟨b.elide, true⟩ t
  both : Mask.state ⟨b.elide, false⟩ s = Mask.state ⟨b.elide, false⟩ t

namespace MaskedAlike

theorem transfers (h : MaskedAlike a b s t) :
    s.transfers.Forall₂ (TransferRecord.Agrees a b) t.transfers := by
  have hfirst : s.transfers = s.transfers.map (Mask.record ⟨a.elide, true⟩) :=
    congrArg CheckState.transfers h.first
  have hsecond : t.transfers = s.transfers.map (Mask.record ⟨b.elide, true⟩) :=
    (congrArg CheckState.transfers h.second).trans (congrArg CheckState.transfers h.both).symm
  rw [hsecond]
  nth_rewrite 1 [hfirst]
  rw [List.forall₂_map_left_iff, List.forall₂_map_right_iff, List.forall₂_same]
  exact fun x _ => ⟨rfl, rfl, rfl, x.transfer.agrees_withElision a.elide b.elide⟩

theorem program (h : MaskedAlike a b s t) (order : List String) :
    Program.Agrees a b ⟨order, s⟩ ⟨order, t⟩ := by
  obtain ⟨htables, hscopes, -, -, hexprs, hcaptured, -, hdefaults, hclosures, -⟩ :=
    CheckState.mk.inj h.both
  exact ⟨rfl, htables, hscopes, hexprs, hcaptured, hdefaults, hclosures, h.transfers⟩

theorem meanings (h : MaskedAlike a b s t) : s.meanings = t.meanings := by
  have hboth := congrArg CheckState.meanings h.both
  exact hboth

theorem diagnostics (h : MaskedAlike a b s t) :
    (s.diagnostics.filter fun d => !d.isWarning) = t.diagnostics.filter fun d => !d.isWarning :=
  congrArg CheckState.diagnostics h.both

end MaskedAlike

end

namespace Session

/-- The settings do not influence what an analysis finds. -/
theorem check_agrees (session : Session) (a b : Settings) (meanings : Meanings) :
    (session.check a meanings).Agrees a b (session.check b meanings) := by
  have hrun (m : Mask) (c : Settings) : session.analyze (m.settings c) (.initial meanings) =
      m.result (session.analyze c (.initial meanings)) := by
    have hmasked := session.indifferent_analyze m c (.initial meanings)
    rwa [m.state_initial] at hmasked
  -- Masked with its own settings a run is itself; masked alike, two runs are the same.
  have ha := hrun ⟨a.elide, true⟩ a
  have hb := hrun ⟨b.elide, true⟩ b
  have hab := (hrun ⟨b.elide, false⟩ a).symm.trans (hrun ⟨b.elide, false⟩ b)
  rw [Mask.settings_self] at ha hb
  unfold check
  cases hx : session.analyze a (.initial meanings) with
  | ok order s =>
      cases hy : session.analyze b (.initial meanings) with
      | ok order' t =>
          simp only [hx, hy, Mask.result, CheckResult.ok.injEq, true_and] at ha hb hab
          obtain ⟨rfl, hab⟩ := hab
          have halike : MaskedAlike a b s t := ⟨ha, hb, hab⟩
          exact ⟨halike.program order, halike.meanings, halike.diagnostics⟩
      | failed failure t => simp [hx, hy, Mask.result] at hab
  | failed failure s =>
      cases hy : session.analyze b (.initial meanings) with
      | ok order t => simp [hx, hy, Mask.result] at hab
      | failed failure' t =>
          simp only [hx, hy, Mask.result, CheckResult.failed.injEq, true_and] at ha hb hab
          obtain ⟨rfl, hab⟩ := hab
          have halike : MaskedAlike a b s t := ⟨ha, hb, hab⟩
          cases failure with
          | error error =>
              refine ⟨rfl, halike.meanings, ?_⟩
              simp only [List.filter_append, halike.diagnostics]
          | fault fault => exact ⟨rfl, halike.meanings, halike.diagnostics⟩

end Session

end Stela
