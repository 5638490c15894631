import Stela.Proofs.Check.Completing
import Stela.Proofs.Check.Modules
import Stela.Proofs.Safety.Modules

/-!
# Alias cycles in a module

Before a module is analyzed all aliases are resolved, so the aliases that refer
to anything once its types are declared are those of the module. If one of them
leads back to itself the module cannot be completed, and if none does, no alias
is blamed. What aliases stand for is founded at the end.
-/

namespace Stela

namespace CheckState

variable {s t : CheckState} {n bound : Nat} {keys : List NodeKey} {id : SymbolId}

/-- The analysis is between modules and has some nodes still to come. -/
structure Turning (n bound : Nat) (keys : List NodeKey) (s : CheckState) : Prop where
  idle : s.Idle
  ready : s.Ready n bound
  free : s.Free n keys
  founded : s.tables.TargetsFounded

theorem Turning.perm {keys' : List NodeKey} (h : s.Turning n bound keys) (hperm : keys.Perm keys') :
    s.Turning n bound keys' := ⟨h.idle, h.ready, h.free.perm hperm, h.founded⟩

theorem Turning.left {keys' : List NodeKey} (h : s.Turning n bound (keys ++ keys')) :
    s.Turning n bound keys := ⟨h.idle, h.ready, h.free.left, h.founded⟩

/-- A resolved alias refers to nothing. -/
theorem ends_of_resolved {info : AliasInfo} (hkind : t.tables.symbols.kind? id = some (.aliasType info))
    (hresolved : ∀ written, info.target ≠ .unresolved written) : t.Ends id := by
  refine .intro id fun b hrefers => ?_
  obtain ⟨hentry, hkind', htarget, -⟩ := hrefers
  have hkind'' := (SymbolTable.kind?_of_get? hentry).trans (congrArg some hkind')
  obtain rfl := SymbolKind.aliasType.inj (Option.some.inj (hkind.symm.trans hkind''))
  exact absurd htarget (hresolved _)

end CheckState

namespace Check

open CheckState

variable {settings : Settings} {n bound : Nat} {m : Module} {s t u s₁ s₂ : CheckState} {scope : ScopeId}
  {keys : List NodeKey} {isExternal : Bool}

/-- The types of a module have been declared. -/
structure Opened (n bound : Nat) (m : Module) (s t : CheckState) : Prop where
  complete : s.tables.Complete
  types : DeclaresTypes s.tables.symbols.size m.decls s t
  charted : t.Charted n bound t
  idle : ∀ r, ¬ t.Resolving r
  introduced : ∀ decl ∈ m.decls, t.Introduced decl
  free : t.Free n (m.decls.flatMap Decl.partKeys)

theorem opened_of_turning (h : s₁.Turning n bound m.keys)
    (hmodule : (declareModule m).Gives settings s₁ scope s₂)
    (hs : { s₂ with scopes := s₂.scopes.setCursor scope } = s)
    (htypes : (m.decls.forM declareType).Gives settings s () t) : Opened n bound m s t := by
  -- What is an alias afterwards was one before, or its target is still to be found.
  have hspares := Spares.forM (spares_declareType s.tables.symbols) m.decls
  have hopens : s.tables.symbols.Opens t.tables.symbols :=
    (Tells.spares hspares (.refl _) : Tells settings (fun _ => False) _ s _).ends () t htypes
  subst hs
  have hdeclare := mild_declareModule h.idle.sound hmodule
  have hmild := hdeclare.trans (calm_setCursor hdeclare.sound scope).toMild
  obtain ⟨hfinishes, hscope⟩ := safe_declareModule.ends h.ready hmodule
  have hmove : (modifyScopes fun g => g.setCursor scope).Gives settings s₂ ()
      { s₂ with scopes := s₂.scopes.setCursor scope } := gives_modifyScopes.mpr rfl
  have hmove := ((safe_setCursor hscope).ends (hfinishes.ready h.ready) hmove).1
  have hready := (hfinishes.trans hmove).ready h.ready
  have hfree := (h.free.still (hfinishes.trans hmove).toFollows).perm (Decl.keys_perm_of_list m.decls)
  have hcomplete := h.idle.complete.grows hmild.tables.toGrows
  have hfounded := h.founded.grows h.idle.complete hmild.tables.toGrows
  have hdeclares := declaresTypes_forM m.decls hmild.sound (Nat.le_refl _) htypes
  have hmeets := Fares.forM (P := fun decl s' => s'.Introduced decl) (fun _ _ _ _ => Introduced.mono)
    m.decls _ hfree.left (fun decl _ _ s₁ _ hfree => fares_declareType decl hfree) hready settings
  have htypes : m.decls.forM declareType settings _ = .ok () t := htypes
  rw [htypes] at hmeets
  obtain ⟨hproceeds, hintroduced⟩ := hmeets
  refine ⟨hcomplete, hdeclares, ⟨hproceeds.ready hready, hdeclares.sound, .refl t, ?_⟩, ?_, hintroduced,
    (hfree.right hproceeds.toFollows).left⟩
  · intro id info target hkind htarget
    refine ⟨ends_of_resolved hkind (by simp [htarget]), ?_⟩
    rcases hopens id info hkind with hold | ⟨written, hwritten⟩
    · exact (hfounded id info target hold htarget).widens hdeclares.widens
    · cases hwritten.symm.trans htarget
  · rintro r ⟨info, hkind, htarget⟩
    rcases hopens r info hkind with hold | ⟨written, hwritten⟩
    · obtain ⟨target, hresolved⟩ := hcomplete r info hold
      cases hresolved.symm.trans htarget
    · cases hwritten.symm.trans htarget

namespace Opened

variable (h : Opened n bound m s t)

include h

theorem tells : Tells settings t.Loops (m.decls.forM completeType) t fun _ u =>
    t.Details u ∧ t.Mapped u ∧ u.tables.Complete := by
  refine (tells_completeTypes m.decls t h.charted h.idle h.introduced h.types.symbols h.free).imp
    fun _ u hgives hu => ⟨hu.1, hu.2, ?_⟩
  have hcompletes := completes_forM m.decls h.types.sound h.types.symbols hgives
  exact complete_of_completes h.complete h.types hcompletes

/-- If the types of a module can be completed, following references ends. -/
theorem ends (hgives : (m.decls.forM completeType).Gives settings t () u) (a : SymbolId) : t.Ends a := by
  obtain ⟨hdetails, hmapped, hcomplete⟩ := h.tells.ends () u hgives
  by_cases halias : ∃ info, t.tables.symbols.kind? a = some (.aliasType info)
  · obtain ⟨info, hinfo⟩ := halias
    obtain ⟨info', hinfo'⟩ := hdetails.refines.aliasType hinfo
    obtain ⟨target, htarget⟩ := hcomplete a info' hinfo'
    exact (hmapped a info' target hinfo' htarget).1
  · exact ends_of_not_alias fun info hinfo => halias ⟨info, hinfo⟩

/-- The types of a module cannot be completed if an alias leads back to itself. -/
theorem fails {a : SymbolId} (hloop : Relation.TransGen t.Refers a a) :
    ∃ error u, (m.decls.forM completeType).Fails settings t (.error error) u := by
  have hmeets := Fares.forM (P := fun _ _ => True) (fun _ _ _ _ _ h => h) m.decls t h.free
    (fun decl hmem _ s₁ hfollows hfree =>
      fares_completeType decl ((h.introduced decl hmem).mono hfollows) hfree) h.charted.ready settings
  cases hresult : m.decls.forM completeType settings t with
  | ok _ u => exact absurd hloop (h.ends hresult a).not_transGen_self
  | failed failure u =>
      rw [hresult] at hmeets
      obtain ⟨⟨error, rfl⟩, -⟩ := hmeets
      exact ⟨error, u, hresult⟩

/-- An alias that leads back to itself is one of the module. -/
theorem declared {a : SymbolId} (hloop : Relation.TransGen t.Refers a a) :
    ∃ node name target strong, .aliasType node name target strong ∈ m.decls ∧
      t.meanings.decls.get? node.id = some a := by
  obtain ⟨b, ⟨hentry, hkind, htarget, -⟩, -⟩ := Relation.TransGen.head'_iff.mp hloop
  have hkind := (SymbolTable.kind?_of_get? hentry).trans (congrArg some hkind)
  rcases h.types.aliases a _ hkind with ⟨info, hinfo⟩ | hdecl
  · obtain ⟨target, hresolved⟩ := h.complete a info hinfo
    obtain ⟨info', hinfo', hresolved'⟩ := h.types.widens.resolved a info target hinfo hresolved
    obtain rfl := SymbolKind.aliasType.inj (Option.some.inj (hkind.symm.trans hinfo'))
    cases htarget.symm.trans hresolved'
  · exact hdecl

end Opened

/-- The declarations of a module blame an alias only if one of that name leads back to itself. -/
theorem tells_checkDecls
    (hopened : ∀ t, (m.decls.forM declareType).Gives settings s () t → Opened n bound m s t) :
    Tells settings (fun name => ∃ t, (m.decls.forM declareType).Gives settings s () t ∧ t.Loops name)
      (checkDecls bound m.decls) s fun _ _ => True := by
  refine (Tells.spares (Spares.forM (spares_declareType _) m.decls) (.refl _)).bind fun _ t htypes _ => ?_
  have hparts : Tells settings t.Loops (m.decls.forM completeType) t _ := (hopened t htypes).tells
  refine Tells.bind ⟨hparts.ends, fun failure s' hfails name hblames =>
    ⟨t, htypes, hparts.blames failure s' hfails name hblames⟩⟩ fun _ u _ hu => ?_
  refine (Tells.spares (spares_of_resolved ?_) hu.2.2).imp fun _ _ _ _ => trivial
  exact (ordinary_declareFuncs _).bind fun _ => (Ordinary.forM ordinary_checkGlobal _).bind fun _ =>
    .forM (ordinary_checkBody bound) _

/-! ## What a module leaves behind -/

/-- The analysis of a module is followed by others. -/
theorem turning_checkModule (h : s.Turning n bound (m.keys ++ keys))
    (hgives : (checkModule bound isExternal m).Gives settings s () t) : t.Turning n bound keys := by
  have hfares : Fares n bound m.keys (checkModule bound isExternal m) s fun _ _ => True :=
    fares_checkModule m h.free.left
  have hfares := hfares h.ready settings
  have hresult : checkModule bound isExternal m settings s = .ok () t := hgives
  rw [hresult] at hfares
  obtain ⟨visited, run⟩ := runs_checkModule bound hgives []
  refine ⟨run.idle h.idle, hfares.1.ready h.ready, h.free.right hfares.1.toFollows, ?_⟩
  cases run with
  | @intro scope funcs _ s₁ s₂ s₃ s₄ s₅ s₆ _ _ _ _ hmodule htypes hparts hfuncs runGlobals runBodies hfinish =>
  have hopened := opened_of_turning ⟨h.idle, h.ready, h.free.left, h.founded⟩ hmodule rfl htypes
  obtain ⟨-, hmapped, hcomplete⟩ := hopened.tells.ends () s₃ hparts
  have hsound := (completes_forM m.decls hopened.types.sound hopened.types.symbols hparts).sound
  have hfuncs := declaresFuncs_declareFuncs m.decls hsound hfuncs
  have hglobals := stays_globals runGlobals hfuncs.sound
  have hbodies := hglobals.trans (stays_bodies runBodies hglobals.sound)
  have hcursor := calm_setCursor hbodies.sound s₁.scopes.cursor
  have hend : s₆.Calm t := by
    split at hfinish
    · exact hcursor.trans (calm_markExternal hcursor.sound hfinish)
    · exact (gives_pure.mp hfinish).2 ▸ hcursor
  have hfounded : s₃.tables.TargetsFounded := fun id info target hkind htarget =>
    (hmapped id info target hkind htarget).2
  exact hfounded.grows hcomplete
    ((hfuncs.grows.trans hbodies.leads.grows).trans hend.tables.toGrows)

/-- A traversal ends if its first part does and then the rest. -/
theorem gives_forM_append {α : Type} {f : α → Check Unit} {first rest : List α} {s' : CheckState} :
    ((first ++ rest).forM f).Gives settings s () s' ↔
      ∃ s₁, (first.forM f).Gives settings s () s₁ ∧ (rest.forM f).Gives settings s₁ () s' := by
  induction first generalizing s with
  | nil => simp
  | cons a first ih =>
      simp only [List.cons_append, gives_forM_cons, ih]
      constructor
      · rintro ⟨s₁, ha, s₂, hfirst, hrest⟩
        exact ⟨s₂, ⟨s₁, ha, hfirst⟩, hrest⟩
      · rintro ⟨s₂, ⟨s₁, ha, hfirst⟩, hrest⟩
        exact ⟨s₁, ha, s₂, hfirst, hrest⟩

theorem turning_checkModules : ∀ (modules : List Module) (s : CheckState),
    s.Turning n bound (modules.flatMap Module.keys ++ keys) →
    (modules.forM (checkModule bound isExternal)).Gives settings s () t → t.Turning n bound keys := by
  intro modules
  induction modules with
  | nil =>
      intro s h hgives
      obtain rfl := gives_forM_nil.mp hgives
      exact h
  | cons m rest ih =>
      intro s h hgives
      rw [List.flatMap_cons, List.append_assoc] at h
      obtain ⟨s₁, hfirst, hrest⟩ := gives_forM_cons.mp hgives
      exact ih s₁ (turning_checkModule h hfirst) hrest

end Check

end Stela
