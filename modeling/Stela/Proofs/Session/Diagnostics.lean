import Stela.Proofs.Session.Safety
import Stela.Proofs.Session.Settings

/-!
# Diagnostics and the outcome of a check

Before its last step an analysis reports nothing but declarations that hide others, also when
it fails. The last step never fails and reports the symbols that no one used. So what a check
reports fits how it ends: an error is reported once, as the last of the diagnostics, and a
program that is rejected gets no warnings about unused symbols.
-/

namespace Stela

/-- The diagnostic is a warning that a symbol is not used. -/
def Diagnostic.WarnsOfUnused (d : Diagnostic) : Prop := d.isWarning = true ∧ d.code = some "W0001"

/-- What is reported fits the outcome. -/
structure CheckReport.Fits (r : CheckReport) : Prop where
  accepted : ∀ program, r.outcome = .ok program → ∀ d ∈ r.diagnostics, d.isWarning = true
  /-- The error is the only one that is reported, and the last that is reported at all. -/
  rejected : ∀ error, r.outcome = .error (.error error) → ∃ warnings,
    r.diagnostics = warnings ++ [error.diagnostic] ∧ error.diagnostic.isError = true ∧
      ∀ d ∈ warnings, d.isError = false ∧ ¬ d.WarnsOfUnused
  /-- A fault is no error of the program. -/
  failed : ∀ fault, r.outcome = .error (.fault fault) →
    ∀ d ∈ r.diagnostics, d.isError = false ∧ ¬ d.WarnsOfUnused

namespace Check

variable {α β : Type}

/-- When the step succeeds, the symbols that no one used are the last that it reports. -/
def Concludes (p : Check α) : Prop :=
  ∀ (c : Settings) (s : CheckState), ∃ warnings : List Diagnostic, (∀ d ∈ warnings, d.WarnsOfHiding) ∧
    match p c s with
    | .ok _ t =>
      t.diagnostics = s.diagnostics ++ warnings ++ if c.warnUnused then unusedWarnings t else []
    | .failed _ t => t.diagnostics = s.diagnostics ++ warnings

theorem Reports.concludes {p : Check α} {f : α → Check β} (h : Reports p)
    (hf : ∀ a, Concludes (f a)) : Concludes (p >>= f) := by
  intro c s
  obtain ⟨ds, hds, hp⟩ := h c s
  change ∃ warnings, _ ∧ match Check.bind p f c s with
    | .ok _ t => _
    | .failed _ t => _
  unfold Check.bind
  cases hresult : p c s with
  | failed failure s₁ =>
      rw [hresult] at hp
      exact ⟨ds, hds, hp⟩
  | ok a s₁ =>
      rw [hresult] at hp
      obtain ⟨es, hes, hrest⟩ := hf a c s₁
      have hp : s₁.diagnostics = s.diagnostics ++ ds := hp
      refine ⟨ds ++ es, List.forall_mem_append.mpr ⟨hds, hes⟩, ?_⟩
      rwa [← List.append_assoc, ← hp]

theorem concludes_warnUnused (a : α) : Concludes (warnUnused >>= fun _ => pure a) := by
  intro c s
  refine ⟨[], List.forall_mem_nil _, ?_⟩
  have hlast : (warnUnused >>= fun _ => pure a : Check α) c s = .ok a { s with
      diagnostics := s.diagnostics ++ if c.warnUnused then unusedWarnings s else [] } := by
    change Check.bind warnUnused _ c s = _
    unfold Check.bind
    rw [warnUnused_eq, warn_eq]
    rfl
  rw [hlast, List.append_nil]
  rfl

end Check

namespace Session

variable {session : Session} {settings : Settings}

theorem concludes_analyze : Check.Concludes session.analyze :=
  (plain_arrange _ _).reports.concludes fun _ => (plain_arrange _ _).reports.concludes fun _ =>
    (Check.Plain.forM Check.plain_checkModule _).reports.concludes fun _ =>
      (Check.Plain.forM Check.plain_checkModule _).reports.concludes fun _ =>
        Check.concludes_warnUnused _

end Session

theorem Diagnostic.WarnsOfHiding.not_error {d : Diagnostic} (h : d.WarnsOfHiding) :
    d.isError = false ∧ ¬ d.WarnsOfUnused := by
  obtain ⟨hwarning, hcode⟩ := h
  refine ⟨?_, fun hunused => ?_⟩
  · simp [isError, beq_iff_eq.mp hwarning]
  · rw [hunused.2] at hcode
    exact absurd hcode (by decide)

theorem diagnostics_initial {meanings : Meanings} : (CheckState.initial meanings).diagnostics = [] := by
  have add {α : Type} (all : List α) (name : α → String) (kind : α → SymbolKind) (s : CheckState) :
      (all.foldl (fun s a => s.addBuiltin (name a) (kind a)) s).diagnostics = s.diagnostics := by
    induction all generalizing s with
    | nil => rfl
    | cons a rest ih => exact ih _
  unfold CheckState.initial
  rw [add, add]

namespace Session

theorem fits_check (session : Session) (settings : Settings) (meanings : Meanings) :
    (session.check settings meanings).Fits := by
  obtain ⟨warnings, hwarnings, hend⟩ := session.concludes_analyze settings (.initial meanings)
  rw [diagnostics_initial, List.nil_append] at hend
  have hearlier : ∀ d ∈ warnings, d.isError = false ∧ ¬ d.WarnsOfUnused :=
    fun d hd => (hwarnings d hd).not_error
  unfold check
  generalize session.analyze settings (.initial meanings) = result at hend
  cases result with
  | ok order final =>
      have hwarning : ∀ d ∈ final.diagnostics, d.isWarning = true := by
        rw [show final.diagnostics = _ from hend]
        refine List.forall_mem_append.mpr ⟨fun d hd => (hwarnings d hd).1, fun d hd => ?_⟩
        split at hd
        · exact Check.isWarning_of_mem_unusedWarnings hd
        · exact absurd hd List.not_mem_nil
      exact ⟨fun _ _ => hwarning, fun _ h => (by cases h), fun _ h => (by cases h)⟩
  | failed failure final =>
      have hend : final.diagnostics = warnings := hend
      cases failure with
      | error error =>
          refine ⟨fun _ h => (by cases h), fun error' herror => ?_, fun _ h => (by cases h)⟩
          obtain rfl : error = error' := by simpa using herror
          exact ⟨warnings, congrArg (· ++ [error.diagnostic]) hend, rfl, hearlier⟩
      | fault fault =>
          have hfault : ∀ d ∈ final.diagnostics, d.isError = false ∧ ¬ d.WarnsOfUnused :=
            hend ▸ hearlier
          exact ⟨fun _ h => (by cases h), fun _ h => (by cases h), fun _ _ => hfault⟩

/-- What a check reports fits how it ends, also when the nodes have a meaning already. The first check
of a session that was built never ends in a fault. -/
theorem check_reports_outcome (session : Session) (hbuilt : session.Built) (settings : Settings) :
    (∀ meanings, (session.check settings meanings).Fits) ∧
      ∀ fault, (session.check settings).outcome ≠ .error (.fault fault) := by
  refine ⟨session.fits_check settings, fun fault hfault => ?_⟩
  have hfree : (CheckState.initial {}).Free session.nodes.decls session.keys :=
    Check.blank_initial.free (nodup_keys hbuilt) fun key hkey => below_of_built hbuilt hkey
  have hmeets := fares_analyze hfree rfl Check.blank_initial.ready settings
  unfold check at hfault
  cases hresult : session.analyze settings (.initial {}) with
  | ok order final => simp [hresult] at hfault
  | failed failure final =>
      rw [hresult] at hmeets
      obtain ⟨⟨error, rfl⟩, -⟩ := hmeets
      simp [hresult] at hfault

/-- A variable that hides a parameter, and an error after it. -/
def hidden : Session :=
  Session.empty.withSource "main.stela" "func f(k: sint) { if true { let k = 1; return k + true; } }"

theorem check_hidden_reports_outcome : hidden.Built ∧ (hidden.check {}).Fits ∧
    (hidden.check {}).diagnostics.map Diagnostic.code = [some "W0002", some "E0218"] := by
  have hbuilt : hidden.Built := .withSource .empty _ _
  have hcodes : (hidden.check {}).diagnostics.map Diagnostic.code = [some "W0002", some "E0218"] := by
    rw [hidden, withSource_ofList]
    decide +kernel
  exact ⟨hbuilt, (check_reports_outcome hidden hbuilt {}).1 {}, hcodes⟩

end Session

end Stela
