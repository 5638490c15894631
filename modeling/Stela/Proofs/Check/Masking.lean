import Stela.Check.Module

/-!
# What the settings decide

A mask rewrites transfers as they are planned with or without relocations, and
leaves warnings out or keeps them. It applies to settings and to states alike.
A step is indifferent when masking its settings and the state that it starts in
does to its result what masking the result does. Indifferent steps read the
settings for transfers and warnings only, and read neither of these back. A plain
step reports moreover nothing but declarations that hide others, in its failure too.
-/

namespace Stela

/-- How a run is looked at: with relocations or without, with its warnings or
without. -/
structure Mask where
  elide : Bool
  warnings : Bool

namespace Transfer

/-- The transfer that is planned in place of this one when relocations are
allowed or not. -/
def withElision (elide : Bool) : Transfer → Transfer
  | .relocate | .moveConstruct => if elide then .relocate else .moveConstruct
  | .relocateAssign | .moveAssign => if elide then .relocateAssign else .moveAssign
  | transfer => transfer

end Transfer

/-- Only the elision of a plan depends on whether relocations are allowed. -/
theorem planTransfer_withElision (category : Category) (source : ValueSource)
    (assign elide elide' : Bool) :
    (planTransfer category source assign elide).withElision elide' =
      planTransfer category source assign elide' := by
  cases category <;> cases source <;> cases assign <;> cases elide <;> cases elide' <;> rfl

namespace Mask

variable (m : Mask)

/-- The settings of the masked run. Without warnings no other setting is left. -/
def settings (c : Settings) : Settings :=
  if m.warnings then { c with elide := m.elide }
  else { warnUnused := false, warnShadow := false, elide := m.elide }

@[simp] theorem settings_elide (c : Settings) : (m.settings c).elide = m.elide := by
  unfold settings
  split <;> rfl

@[simp] theorem settings_warnShadow (c : Settings) :
    (m.settings c).warnShadow = (m.warnings && c.warnShadow) := by
  unfold settings
  split <;> simp [*]

@[simp] theorem settings_warnUnused (c : Settings) :
    (m.settings c).warnUnused = (m.warnings && c.warnUnused) := by
  unfold settings
  split <;> simp [*]

def record (r : TransferRecord) : TransferRecord :=
  { r with transfer := r.transfer.withElision m.elide }

def diagnostics (ds : List Diagnostic) : List Diagnostic :=
  ds.filter fun d => m.warnings || !d.isWarning

@[simp] theorem diagnostics_append (ds es : List Diagnostic) :
    m.diagnostics (ds ++ es) = m.diagnostics ds ++ m.diagnostics es := List.filter_append ..

/-- Warnings are all that a mask takes away. -/
theorem diagnostics_of_warnings {ds : List Diagnostic} (h : ∀ d ∈ ds, d.isWarning) :
    m.diagnostics ds = if m.warnings then ds else [] := by
  unfold diagnostics
  split
  · next hkept => simp [hkept]
  · next hkept =>
    rw [List.filter_eq_nil_iff]
    intro d hd
    simp [hkept, h d hd]

def state (s : CheckState) : CheckState :=
  { s with transfers := s.transfers.map m.record, diagnostics := m.diagnostics s.diagnostics }

def result {α : Type} : CheckResult α → CheckResult α
  | .ok a s => .ok a (m.state s)
  | .failed failure s => .failed failure (m.state s)

end Mask

/-- The diagnostic is a warning that a declaration hides another one. -/
def Diagnostic.WarnsOfHiding (d : Diagnostic) : Prop := d.isWarning = true ∧ d.code = some "W0002"

/-- The state in which a step ends, also when it fails. -/
def CheckResult.final {α : Type} : CheckResult α → CheckState
  | .ok _ s => s
  | .failed _ s => s

namespace Check

variable {α β : Type}

/-- The result of the masked step is the masked result. -/
def Indifferent (p : Check α) : Prop :=
  ∀ (m : Mask) (c : Settings) (s : CheckState), p (m.settings c) (m.state s) = m.result (p c s)

/-- However it ends, the step reports nothing but hidden declarations. -/
def Reports (p : Check α) : Prop :=
  ∀ (c : Settings) (s : CheckState), ∃ ds : List Diagnostic, (∀ d ∈ ds, d.WarnsOfHiding) ∧
    (p c s).final.diagnostics = s.diagnostics ++ ds

/-- What the steps of an analysis have in common, the warnings at its end excepted. -/
structure Plain (p : Check α) : Prop where
  indifferent : Indifferent p
  reports : Reports p

/-! ## Ways to build a step -/

theorem indifferent_pure (a : α) : Indifferent (pure a) := fun _ _ _ => rfl

theorem Indifferent.bind {p : Check α} {f : α → Check β} (h : Indifferent p)
    (hf : ∀ a, Indifferent (f a)) : Indifferent (p >>= f) := by
  intro m c s
  change Check.bind p f _ _ = m.result (Check.bind p f c s)
  unfold Check.bind
  rw [h m c s]
  cases p c s with
  | ok a s₁ => exact hf a m c s₁
  | failed failure s₁ => rfl

/-- A step may leave what was reported as it is. -/
theorem reports_of_eq {p : Check α} (h : ∀ c s, (p c s).final.diagnostics = s.diagnostics) :
    Reports p := fun c s => ⟨[], List.forall_mem_nil _, by rw [h, List.append_nil]⟩

theorem Reports.bind {p : Check α} {f : α → Check β} (h : Reports p) (hf : ∀ a, Reports (f a)) :
    Reports (p >>= f) := by
  intro c s
  obtain ⟨ds, hds, hp⟩ := h c s
  change ∃ ds, _ ∧ (Check.bind p f c s).final.diagnostics = _
  unfold Check.bind
  cases hresult : p c s with
  | ok a s₁ =>
      rw [hresult] at hp
      obtain ⟨es, hes, hrest⟩ := hf a c s₁
      refine ⟨ds ++ es, List.forall_mem_append.mpr ⟨hds, hes⟩, hrest.trans ?_⟩
      rw [← List.append_assoc]
      exact congrArg (· ++ es) hp
  | failed failure s₁ =>
      rw [hresult] at hp
      exact ⟨ds, hds, hp⟩

theorem plain_of_eq {p : Check α} (h : Indifferent p)
    (hp : ∀ c s, (p c s).final.diagnostics = s.diagnostics) : Plain p := ⟨h, reports_of_eq hp⟩

theorem plain_pure (a : α) : Plain (pure a) := plain_of_eq (indifferent_pure a) fun _ _ => rfl

theorem Plain.bind {p : Check α} {f : α → Check β} (h : Plain p) (hf : ∀ a, Plain (f a)) :
    Plain (p >>= f) :=
  ⟨h.indifferent.bind fun a => (hf a).indifferent, h.reports.bind fun a => (hf a).reports⟩

theorem Plain.forM {f : α → Check Unit} (hf : ∀ a, Plain (f a)) (items : List α) :
    Plain (items.forM f) := by
  induction items with
  | nil => exact plain_pure _
  | cons a rest ih => exact (hf a).bind fun _ => ih

/-- A step may read the state as far as masks leave it alone. -/
theorem plain_reading {f : CheckState → Check β} (hf : ∀ (m : Mask) s, f (m.state s) = f s)
    (h : ∀ s, Plain (f s)) : Plain (state >>= f) := by
  constructor
  · intro m c s
    change f (m.state s) (m.settings c) (m.state s) = m.result (f s c s)
    rw [hf]
    exact (h s).indifferent m c s
  · exact fun c s => (h s).reports c s

/-- Gives a value that is found in the state, and changes the state. -/
def change (f : CheckState → α × CheckState) : Check α := fun _ s => .ok (f s).1 (f s).2

/-- A change that masks commute with, and a value that they leave alone. -/
theorem plain_change {f : CheckState → α × CheckState}
    (hmask : ∀ (m : Mask) s, f (m.state s) = ((f s).1, m.state (f s).2))
    (hdiagnostics : ∀ s, (f s).2.diagnostics = s.diagnostics) : Plain (change f) := by
  refine plain_of_eq (fun m c s => ?_) fun _ => hdiagnostics
  simp only [change, hmask]
  rfl

theorem plain_raise {kind : TypeErrorKind} {span : Span} {help : Option String}
    {related : Option (Span × String)} : Plain (raise kind span help related : Check α) :=
  plain_of_eq (fun _ _ _ => rfl) fun _ _ => rfl

theorem plain_fault (reason : Fault) : Plain (fault reason : Check α) :=
  plain_of_eq (fun _ _ _ => rfl) fun _ _ => rfl

theorem plain_require (o : Option α) (reason : Fault) : Plain (require o reason) := by
  cases o with
  | none => exact plain_fault reason
  | some a => exact plain_pure a

theorem Plain.withCursor {scope : ScopeId} {p : Check α} (h : Plain p) :
    Plain (withCursor scope p) := by
  have move (scope : ScopeId) : Plain (modifyScopes fun g => g.setCursor scope) :=
    plain_change (f := fun s => ((), { s with scopes := s.scopes.setCursor scope })) (fun _ _ => rfl)
      fun _ => rfl
  have target : Plain (scopeAt scope) := plain_reading (fun _ _ => rfl) fun s =>
    plain_require (s.scopes.get? scope) (.missingScope scope)
  exact target.bind fun _ =>
    Plain.bind (plain_change (f := fun s => (s.scopes.cursor, s)) (fun _ _ => rfl) fun _ => rfl)
      fun previous => (move scope).bind fun _ => h.bind fun _ => (move previous).bind fun _ => plain_pure _

/-! ## Readers of the settings -/

/-- Warnings that a setting asks for. -/
def warn (on : Settings → Bool) (ds : List Diagnostic) : Check Unit := do
  if on (← settings) then update fun s => { s with diagnostics := s.diagnostics ++ ds }

theorem warn_eq {on : Settings → Bool} {ds : List Diagnostic} {c : Settings} {s : CheckState} :
    warn on ds c s = .ok () { s with diagnostics := s.diagnostics ++ if on c then ds else [] } := by
  change (if on c then _ else pure () : Check Unit) c s = _
  split
  · rfl
  · rw [List.append_nil]
    rfl

/-- Warnings that a setting asks for are given or not, and nothing else depends on
them. -/
theorem indifferent_warn {on : Settings → Bool} {ds : List Diagnostic}
    (hon : ∀ (m : Mask) c, on (m.settings c) = (m.warnings && on c))
    (hds : ∀ d ∈ ds, d.isWarning) : Indifferent (warn on ds) := by
  intro m c s
  rw [warn_eq, warn_eq, hon]
  cases hkept : m.warnings <;> cases hasked : on c <;>
    simp [Mask.result, Mask.state, m.diagnostics_of_warnings hds, hkept]

theorem reports_warn {on : Settings → Bool} {ds : List Diagnostic} (hds : ∀ d ∈ ds, d.WarnsOfHiding) :
    Reports (warn on ds) := by
  intro c s
  refine ⟨if on c then ds else [], fun d hd => ?_, by rw [warn_eq]; rfl⟩
  split at hd
  · exact hds d hd
  · exact absurd hd List.not_mem_nil

theorem plain_warn {on : Settings → Bool} {ds : List Diagnostic}
    (hon : ∀ (m : Mask) c, on (m.settings c) = (m.warnings && on c))
    (hds : ∀ d ∈ ds, d.WarnsOfHiding) : Plain (warn on ds) :=
  ⟨indifferent_warn hon fun d hd => (hds d hd).1, reports_warn hds⟩

/-- A transfer is planned with the setting for relocations. -/
theorem plain_planned {node : Node} {type : TypeId} {site : TransferSite}
    {category : Category} {source : ValueSource} {assign : Bool} :
    Plain (do
      let transfer := planTransfer category source assign (← settings).elide
      update fun s => { s with transfers := s.transfers ++ [⟨node, type, site, transfer⟩] }) := by
  refine plain_of_eq (fun m c s => ?_) fun _ _ => rfl
  simp [bind, Check.bind, settings, update, Mask.result, Mask.state, Mask.record,
    planTransfer_withElision]

end Check

end Stela
