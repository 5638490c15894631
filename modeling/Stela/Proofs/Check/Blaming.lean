import Stela.Proofs.Check.Failing
import Stela.Proofs.Check.Indifference

/-!
# Who is blamed

Only the step that finds the target of an alias can end in the error that an
alias refers to itself. So what a step blames is found part by part: ordinary
steps blame no one, and where every alias is resolved no step does.
-/

namespace Stela

namespace Check

open SymbolTable (SameAliases)

variable {α β : Type} {settings : Settings} {blamed : String → Prop} {p : Check α} {f : α → Check β}
  {s s' : CheckState} {P Q : α → CheckState → Prop} {R : β → CheckState → Prop}

/-- The step ends as described, and an error of it blames no alias but those that may be blamed. -/
structure Tells (settings : Settings) (blamed : String → Prop) (p : Check α) (s : CheckState)
    (Q : α → CheckState → Prop) : Prop where
  ends : ∀ a s', p.Gives settings s a s' → Q a s'
  blames : ∀ failure s', p.Fails settings s failure s' → ∀ name, failure.Blames name → blamed name

namespace Tells

theorem imp (h : Tells settings blamed p s P) (hpq : ∀ a s', p.Gives settings s a s' → P a s' → Q a s') :
    Tells settings blamed p s Q :=
  ⟨fun a s' hgives => hpq a s' hgives (h.ends a s' hgives), h.blames⟩

theorem pure {a : α} (h : Q a s) : Tells settings blamed (pure a) s Q := by
  refine ⟨fun a' s' hgives => ?_, fun failure s' hfails => ?_⟩
  · obtain ⟨rfl, rfl⟩ := gives_pure.mp hgives
    exact h
  · exact absurd hfails (succeeds_pure a).not_fails

theorem bind (hp : Tells settings blamed p s P)
    (hf : ∀ a s₁, p.Gives settings s a s₁ → P a s₁ → Tells settings blamed (f a) s₁ R) :
    Tells settings blamed (p >>= f) s R := by
  refine ⟨fun b s' hgives => ?_, fun failure s' hfails => ?_⟩
  · obtain ⟨a, s₁, hfirst, hrest⟩ := gives_bind.mp hgives
    exact (hf a s₁ hfirst (hp.ends a s₁ hfirst)).ends b s' hrest
  · rcases fails_bind.mp hfails with hfirst | ⟨a, s₁, hfirst, hrest⟩
    · exact hp.blames failure s' hfirst
    · exact (hf a s₁ hfirst (hp.ends a s₁ hfirst)).blames failure s' hrest

/-- A step that blames no one where something is known of the symbols. -/
theorem spares {known : SymbolTable → Prop} (h : Spares known p) (hs : known s.tables.symbols) :
    Tells settings blamed p s fun _ s' => known s'.tables.symbols := by
  obtain ⟨hfinal, hspares⟩ := h settings s hs
  refine ⟨fun a s' hgives => ?_, fun failure s' hfails name hblames => ?_⟩
  · have hgives : p settings s = .ok a s' := hgives
    rw [hgives] at hfinal
    exact hfinal
  · exact absurd hblames (hspares failure s' hfails name)

/-- An ordinary step leaves aliases alone. -/
theorem ordinary (h : Ordinary (fun _ => Pure.pure ()) p) :
    Tells settings blamed p s fun _ s' => s.tables.symbols.SameAliases s'.tables.symbols :=
  spares (h.spares (fun _ _ hsame hknown => hknown.trans hsame) fun _ _ _ hknown =>
    ⟨hknown, fun _ _ heq => by cases heq⟩) (.refl _)

/-- An ordinary step, followed by others. -/
theorem step (hp : Ordinary (fun _ => Pure.pure ()) p)
    (hf : ∀ a s₁, p.Gives settings s a s₁ → s.tables.symbols.SameAliases s₁.tables.symbols →
      Tells settings blamed (f a) s₁ R) : Tells settings blamed (p >>= f) s R :=
  (ordinary hp).bind hf

/-- A step that only reads, followed by others. -/
theorem reading (hp : Ordinary (fun _ => Pure.pure ()) p)
    (hstate : ∀ a s₁, p.Gives settings s a s₁ → s = s₁)
    (hf : ∀ a, p.Gives settings s a s → Tells settings blamed (f a) s R) :
    Tells settings blamed (p >>= f) s R := by
  refine step hp fun a s₁ hgives _ => ?_
  obtain rfl := hstate a s₁ hgives
  exact hf a hgives

theorem withCursor {scope : ScopeId}
    (h : Tells settings blamed p { s with scopes := s.scopes.setCursor scope } fun a s₁ =>
      Q a { s₁ with scopes := s₁.scopes.setCursor s.scopes.cursor }) :
    Tells settings blamed (withCursor scope p) s Q := by
  unfold Check.withCursor
  refine reading ordinary_scopeAt (fun _ _ hgives => (gives_scopeAt.mp hgives).2) fun _ _ => ?_
  refine reading ordinary_cursor (fun _ _ hgives => (gives_cursor.mp hgives).2) fun place hplace => ?_
  obtain ⟨rfl, -⟩ := gives_cursor.mp hplace
  refine step ordinary_modifyScopes fun _ s₁ hgives _ => ?_
  obtain rfl := gives_modifyScopes.mp hgives
  refine h.bind fun a s₂ _ hQ => step ordinary_modifyScopes fun _ s₃ hgives _ => pure ?_
  obtain rfl := gives_modifyScopes.mp hgives
  exact hQ

end Tells

end Check

/-! ## While types are declared -/

namespace SymbolTable

variable {t t' : SymbolTable}

/-- What is an alias in the second table was the same one in the first, or its target is still to be
found. -/
def Opens (t t' : SymbolTable) : Prop := ∀ id info, t'.kind? id = some (.aliasType info) →
  t.kind? id = some (.aliasType info) ∨ ∃ written, info.target = .unresolved written

theorem Opens.refl (t : SymbolTable) : t.Opens t := fun _ _ h => .inl h

theorem Opens.sameAliases {t'' : SymbolTable} (h : t.Opens t') (hsame : t'.SameAliases t'') : t.Opens t'' :=
  fun id info hid => h id info ((hsame id info).mp hid)

theorem Opens.add {entry : Symbol} {info : AliasInfo} {written : TypeExpr} (h : t.Opens t')
    (hentry : entry.kind = .aliasType info) (htarget : info.target = .unresolved written) :
    t.Opens (t'.add entry).2 := by
  intro id info' hid
  rw [kind?_add] at hid
  split at hid
  · obtain rfl := SymbolKind.aliasType.inj (hentry.symm.trans (Option.some.inj hid))
    exact .inr ⟨written, htarget⟩
  · exact h id info' hid

/-- Every alias of the table is resolved. -/
def Resolved (t : SymbolTable) : Prop :=
  ∀ id info, t.kind? id = some (.aliasType info) → ∃ target, info.target = .resolved target

end SymbolTable

namespace Check

variable {settings : Settings} {s : CheckState} {id : SymbolId}

theorem spares_declareType (t : SymbolTable) (decl : Decl) : Spares t.Opens (declareType decl) := by
  have ordinary {α : Type} {p : Check α} (h : Ordinary (fun _ => pure ()) p) : Spares t.Opens p :=
    h.spares (fun _ _ hsame hopens => hopens.sameAliases hsame) fun _ _ _ hopens =>
      ⟨hopens, fun _ _ heq => by cases heq⟩
  by_cases halias : ∃ node name target strong, decl = .aliasType node name target strong
  · obtain ⟨node, name, target, strong, rfl⟩ := halias
    refine Spares.bind ?_ fun _ => ordinary ordinary_bindDecl
    rw [newTypeSymbol_eq]
    refine fun c s hopens => ⟨?_, fun _ _ heq => by cases heq⟩
    change t.Opens (SymbolTable.modifyKind _ _ _)
    rw [SymbolTable.modifyKind_add]
    exact hopens.add rfl rfl
  · exact ordinary (ordinary_declareType decl fun node name target strong heq =>
      halias ⟨node, name, target, strong, heq⟩)

/-! ## Where every alias is resolved -/

theorem ensureAlias_of_resolved (hs : s.tables.symbols.Resolved) : ensureAlias id settings s =
    match s.tables.symbols.get? id with
    | some _ => .ok () s
    | none => .failed (.fault (.missingSymbol id)) s := by
  have hbegin : ensureAlias id settings s =
      ensureAliasWithin (s.tables.symbols.size + 1) id settings s := rfl
  rw [hbegin, ensureAliasWithin]
  cases hentry : s.tables.symbols.get? id with
  | none =>
      have hfails : (symbol id).Fails settings s (.fault (.missingSymbol id)) s := by
        simp only [symbol, Fails, tables, bind, Check.bind, hentry]
        rfl
      exact fails_bind.mpr (.inl hfails)
  | some entry =>
      refine gives_bind.mpr ⟨entry, s, gives_symbol.mpr ⟨hentry, rfl⟩, ?_⟩
      split
      · next info hkind =>
        obtain ⟨target, htarget⟩ := hs id info
          ((SymbolTable.kind?_of_get? hentry).trans (congrArg some hkind))
        rw [htarget]
        exact gives_pure.mpr ⟨rfl, rfl⟩
      · exact gives_pure.mpr ⟨rfl, rfl⟩

theorem spares_ensureAlias (id : SymbolId) : Spares SymbolTable.Resolved (ensureAlias id) := by
  intro c s hs
  rw [ensureAlias_of_resolved hs]
  split
  · exact ⟨hs, fun _ _ heq => by cases heq⟩
  · refine ⟨hs, fun failure s' heq name hblames => ?_⟩
    obtain ⟨rfl, -⟩ := CheckResult.failed.inj heq
    obtain ⟨error, herror, -⟩ := hblames
    cases herror

/-- No alias is blamed once every alias is resolved. -/
theorem spares_of_resolved {α : Type} {p : Check α} (h : Ordinary ensureAlias p) :
    Spares SymbolTable.Resolved p :=
  h.spares (fun _ _ hsame hs id info hid => hs id info ((hsame id info).mp hid)) spares_ensureAlias

end Check

end Stela
