import Stela.Proofs.Safety.Operations

/-!
# Paths of types and modules

Before a member is looked up in a value, the expression in front of it is tried
as the name of a type or a module. Where this fails the expression is visited
after all, so its parts are met twice. A part that was given a meaning at the
first time is given the same one again, since the scopes have not changed.
-/

namespace Stela

/-- What in an expression may name types and modules, the innermost part first. -/
def Expr.spine : Expr → List Expr
  | .ident node name => [.ident node name]
  | .member node object name => object.spine ++ [.member node object name]
  | _ => []

theorem Expr.id_mem_keys (e : Expr) : .node .expr e.id ∈ e.keys := by
  cases e <;> simp [Expr.keys, Expr.id, Expr.node]

theorem Expr.mem_keys_of_spine {e part : Expr} (h : part ∈ e.spine) : .node .expr part.id ∈ e.keys := by
  induction e using Check.staticPath.induct with
  | case1 node name =>
      obtain rfl := List.mem_singleton.mp h
      exact Expr.id_mem_keys _
  | case2 node object member ih =>
      rcases List.mem_append.mp h with h | h
      · exact List.mem_append_left _ (ih h)
      · obtain rfl := List.mem_singleton.mp h
        exact Expr.id_mem_keys _
  | case3 e hident hmember =>
      rw [Expr.spine.eq_3 _ hident hmember] at h
      cases h

/-- Members are reached through symbols of these sorts. -/
def SymbolKind.qualifies : SymbolKind → Bool
  | .moduleSpace _ => true
  | kind => kind.isType

namespace CheckState

variable {s s' s'' : CheckState} {own : List NodeKey} {n bound : Nat} {e inner : Expr} {node : Node}
  {id target : SymbolId} {member : Ident}

/-- The symbol, if it is a type or a module. -/
def usable? (s : CheckState) (id : SymbolId) : Option SymbolId :=
  if (s.tables.symbols.kind? id).any SymbolKind.qualifies then some id else none

/-- The type or module that a name in a module means. -/
def memberPath? (s : CheckState) (name : String) (parent : SymbolId) : Option SymbolId :=
  match s.tables.symbols.kind? parent with
  | some (.moduleSpace scope) => (s.scopes.entries scope name).head?.bind s.usable?
  | _ => none

/-- The type or module that an expression names. -/
def path? (s : CheckState) : Expr → Option SymbolId
  | .ident _ name =>
    match s.find name with
    | .symbols entries => entries.head?.bind s.usable?
    | _ => none
  | .member _ object member => (s.path? object).bind (s.memberPath? member.name)
  | _ => none

theorem Resembles.usable? (h : s.Resembles s') : s'.usable? = s.usable? := by
  funext id
  rw [CheckState.usable?, CheckState.usable?, h.kinds]

theorem Resembles.memberPath? (h : s.Resembles s') : s'.memberPath? = s.memberPath? := by
  funext name parent
  simp only [CheckState.memberPath?, h.usable?, h.scopes, h.kinds]

theorem Resembles.path? (h : s.Resembles s') (e : Expr) : s'.path? e = s.path? e := by
  induction e using Check.staticPath.induct with
  | case1 node name =>
      simp only [CheckState.path?, h.usable?, CheckState.find, importsOf, moduleOf?, h.scopes, h.modules]
  | case2 node object member ih =>
      simp only [CheckState.path?, ih, h.memberPath?]
  | case3 e hident hmember =>
      rw [path?.eq_3 _ _ hident hmember, path?.eq_3 _ _ hident hmember]

theorem qualifies_of_usable? (h : s.usable? id = some target) :
    ∃ kind, s.tables.symbols.kind? target = some kind ∧ kind.qualifies = true := by
  rw [usable?, Option.ite_none_right_eq_some] at h
  obtain ⟨hany, heq⟩ := h
  obtain rfl := Option.some.inj heq
  obtain ⟨kind, hkind, hq⟩ := (Option.any_eq_true _ _).mp hany
  exact ⟨kind, hkind, hq⟩

theorem qualifies_of_path? (h : s.path? e = some target) :
    ∃ kind, s.tables.symbols.kind? target = some kind ∧ kind.qualifies = true := by
  cases e with
  | ident node name =>
      rw [path?] at h
      split at h
      · obtain ⟨symbol, -, h⟩ := Option.bind_eq_some_iff.mp h
        exact qualifies_of_usable? h
      · cases h
  | member node object member =>
      rw [path?] at h
      obtain ⟨parent, -, h⟩ := Option.bind_eq_some_iff.mp h
      unfold memberPath? at h
      split at h
      · obtain ⟨symbol, -, h⟩ := Option.bind_eq_some_iff.mp h
        exact qualifies_of_usable? h
      · cases h
  | _ => cases h

/-! ## Expressions that were tried as paths -/

/-- The nodes of an expression are free, but the parts that name types or modules may have been
given that meaning already. -/
structure Traced (n : Nat) (s : CheckState) (e : Expr) : Prop where
  nodup : e.keys.Nodup
  below : ∀ key ∈ e.keys, key.Below n
  unpromised : ∀ key ∈ e.keys, ¬ s.Promised key
  unnamed : ∀ key ∈ e.keys, s.meanings.Unnamed key
  vacant : ∀ key ∈ e.keys, s.meanings.Vacant key ∨ ∃ part ∈ e.spine, key = .node .expr part.id ∧
    s.meanings.exprs.get? part.id = s.path? part

/-- The expression itself has no meaning yet. -/
structure Fresh (n : Nat) (s : CheckState) (e : Expr) : Prop extends Traced n s e where
  own : s.meanings.exprs.get? e.id = none

theorem Free.fresh (h : s.Free n e.keys) : s.Fresh n e :=
  ⟨⟨h.nodup, h.below, h.unpromised, h.unnamed, fun key hkey => .inl (h.vacant key hkey)⟩,
    h.vacant _ e.id_mem_keys⟩

/-- An expression that was tried as a path means what the path means, if anything. -/
theorem Traced.means (h : s.Traced n e) (hid : s.meanings.exprs.get? e.id = some id) :
    s.path? e = some id := by
  rcases h.vacant _ e.id_mem_keys with hvacant | ⟨part, hpart, hkey, hmeans⟩
  · cases hvacant.symm.trans hid
  · obtain heq : e.id = part.id := (NodeKey.node.inj hkey).2
    rw [heq, hmeans] at hid
    cases e with
    | ident node name => exact List.mem_singleton.mp hpart ▸ hid
    | member node object member =>
        rcases List.mem_append.mp hpart with hpart | hpart
        · have hdisjoint := List.disjoint_of_nodup_append h.nodup
          exact absurd (List.mem_singleton.mpr hkey.symm) (hdisjoint (Expr.mem_keys_of_spine hpart))
        · exact List.mem_singleton.mp hpart ▸ hid
    | _ => cases hpart

theorem Traced.fresh (h : s.Traced n e) (hpath : s.path? e = none) : s.Fresh n e := by
  refine ⟨h, Option.eq_none_iff_forall_ne_some.mpr fun id hid => ?_⟩
  cases hpath.symm.trans (h.means hid)

/-- Only names and members may have been given a meaning before they are visited. -/
theorem Fresh.free (h : s.Fresh n e) (hspine : ∀ part ∈ e.spine, part.id = e.id) : s.Free n e.keys := by
  refine ⟨h.nodup, h.below, fun key hkey => ?_, h.unnamed, h.unpromised⟩
  rcases h.vacant key hkey with hvacant | ⟨part, hpart, rfl, -⟩
  · exact hvacant
  · rw [hspine part hpart]
    exact h.own

/-- What is in front of the name of a member. -/
theorem Traced.object (h : s.Traced n (.member node inner member)) : s.Traced n inner := by
  have hmem {key : NodeKey} (hkey : key ∈ inner.keys) :
      key ∈ (Expr.member node inner member).keys := List.mem_append_left _ hkey
  have hdisjoint := List.disjoint_of_nodup_append h.nodup
  refine ⟨h.nodup.of_append_left, fun key hkey => h.below key (hmem hkey),
    fun key hkey => h.unpromised key (hmem hkey), fun key hkey => h.unnamed key (hmem hkey),
    fun key hkey => ?_⟩
  rcases h.vacant key (hmem hkey) with hvacant | ⟨part, hpart, rfl, hmeans⟩
  · exact .inl hvacant
  · rcases List.mem_append.mp hpart with hpart | hpart
    · exact .inr ⟨part, hpart, rfl, hmeans⟩
    · obtain rfl := List.mem_singleton.mp hpart
      exact absurd (List.mem_singleton_self _) (hdisjoint hkey)

theorem Fresh.last (h : s.Fresh n (.member node inner member)) : s.Free n [.node .expr node.id] := by
  have hkey := (Expr.member node inner member).id_mem_keys
  refine ⟨List.nodup_singleton _, ?_, ?_, ?_, ?_⟩
  · exact List.forall_mem_singleton.mpr (h.below _ hkey)
  · exact List.forall_mem_singleton.mpr h.own
  · exact List.forall_mem_singleton.mpr (h.unnamed _ hkey)
  · exact List.forall_mem_singleton.mpr (h.unpromised _ hkey)

/-- An expression is tried as a path when what is in front of its name was. -/
theorem Traced.of_object (h : s.Traced n (.member node inner member)) (hinner : s'.Traced n inner)
    (hresembles : s.Resembles s') (hbalanced : s.Balanced s')
    (hexprs : ∀ id, .node .expr id ∉ inner.keys →
      s'.meanings.exprs.get? id = s.meanings.exprs.get? id) :
    s'.Traced n (.member node inner member) := by
  have hdisjoint := List.disjoint_of_nodup_append h.nodup
  have hself : s'.meanings.exprs.get? node.id = s.meanings.exprs.get? node.id :=
    hexprs node.id fun hmem => hdisjoint hmem (List.mem_singleton_self _)
  refine ⟨h.nodup, h.below, fun key hkey hpromised => ?_, fun key hkey => ?_, fun key hkey => ?_⟩
  · exact h.unpromised key hkey (hbalanced.promised hpromised)
  · rcases List.mem_append.mp hkey with hkey | hkey
    · exact hinner.unnamed key hkey
    · exact List.mem_singleton.mp hkey ▸ trivial
  · rcases List.mem_append.mp hkey with hkey | hkey
    · refine (hinner.vacant key hkey).imp_right ?_
      rintro ⟨part, hpart, hmeans⟩
      exact ⟨part, List.mem_append_left _ hpart, hmeans⟩
    · obtain rfl := List.mem_singleton.mp hkey
      rcases h.vacant _ (List.mem_append_right _ hkey) with hvacant | ⟨part, hpart, heq, hmeans⟩
      · exact .inl (hself.trans hvacant)
      · refine .inr ⟨part, hpart, heq, ?_⟩
        rw [hresembles.path?, ← hmeans, ← (NodeKey.node.inj heq).2, hself]

/-- The expression itself may be given the meaning that its path has. -/
theorem Traced.named (h : s.Traced n e) (hspine : e ∈ e.spine) (hresembles : s.Resembles s')
    (hfinishes : Finishes n [.node .expr e.id] s s')
    (hothers : ∀ id ≠ e.id, s'.meanings.exprs.get? id = s.meanings.exprs.get? id)
    (hmeans : ∀ old, s'.meanings.exprs.get? e.id = some old → s.path? e = some old) :
    s'.Traced n e := by
  refine ⟨h.nodup, h.below, fun key hkey hpromised => ?_, fun key hkey => ?_, fun key hkey => ?_⟩
  · exact h.unpromised key hkey (hfinishes.balanced.promised hpromised)
  · by_cases hself : key = .node .expr e.id
    · exact hself ▸ trivial
    · exact hfinishes.unnamed.of_unpromised (h.unnamed key hkey) (by simpa using hself)
        (h.unpromised key hkey)
  · by_cases hself : key = .node .expr e.id
    · subst hself
      cases hnew : s'.meanings.exprs.get? e.id with
      | none => exact .inl hnew
      | some old => exact .inr ⟨e, hspine, rfl, by rw [hnew, hresembles.path?, hmeans old hnew]⟩
    · rcases h.vacant key hkey with hvacant | ⟨part, hpart, rfl, hpath⟩
      · exact .inl (hfinishes.vacant.of_unpromised hvacant (by simpa using hself)
          (h.unpromised key hkey))
      · refine .inr ⟨part, hpart, rfl, ?_⟩
        rw [hothers part.id fun heq => hself (heq ▸ rfl), hpath, hresembles.path?]

end CheckState

namespace Check

open CheckState

variable {n bound : Nat} {s s' : CheckState} {node : Nat} {symbol : SymbolId}

theorem safe_staticPath_finish (hsymbol : symbol < s.tables.symbols.size)
    (hunpromised : ¬ s.Promised (.node .expr node))
    (hmeans : ∀ old, s.meanings.exprs.get? node = some old → s.usable? symbol = some old) :
    Safe n bound [.node .expr node] (staticPath.finish node symbol) s fun found s' =>
      found = s.usable? symbol ∧ s.Resembles s' ∧
        (∀ other ≠ node, s'.meanings.exprs.get? other = s.meanings.exprs.get? other) ∧
        ∀ old, s'.meanings.exprs.get? node = some old → found = some old := by
  unfold staticPath.finish
  refine Fares.kindOf hsymbol fun kind hkind => ?_
  extract_lets usable
  have husable : usable = kind.qualifies := by cases kind <;> rfl
  clear_value usable
  subst husable
  have hfound : s.usable? symbol = if kind.qualifies then some symbol else none := by
    simp [usable?, hkind]
  rw [hfound] at hmeans ⊢
  split
  · next hqualifies =>
    simp only [hqualifies, if_true, Option.some.injEq] at hmeans
    refine Safe.bind (P := fun _ s' => s.Resembles s' ∧
      ∃ map, s.meanings.exprs.fill? node symbol = some map ∧ s'.meanings.exprs = map)
      ?_ (List.Subset.refl _) ?_
    · refine .step (safe_markUsed hsymbol) ?_
      rintro _ s₁ h ⟨hmeanings, hresembles⟩
      refine Safe.imp (safe_setExprSymbol (h.symbol_lt hsymbol) (fun old hold => ?_)
        fun hpromised => hunpromised (h.balanced.promised hpromised)) ?_
      · exact (hmeans old (hmeanings ▸ hold)).symm
      · rintro _ _ - ⟨map, hmap, rfl⟩
        exact ⟨⟨hresembles.scopes, hresembles.modules, hresembles.kinds⟩, map, hmeanings ▸ hmap, rfl⟩
    · rintro _ s₁ - ⟨hresembles, map, hmap, rfl⟩
      obtain ⟨hself, hothers⟩ := NodeMap.get?_of_fill? hmap
      exact Safe.pure fun _ => ⟨rfl, hresembles, hothers, fun old hold => hself ▸ hold⟩
  · next hqualifies =>
    simp only [hqualifies] at hmeans
    exact Safe.pure fun _ => ⟨rfl, .refl s, fun _ _ => rfl, fun old hold => by simpa using hmeans old hold⟩

/-- Trying an expression as a path is safe, also a second time. -/
theorem safe_staticPath {e : Expr} (htraced : s.Traced n e) :
    Safe n bound e.keys (staticPath e) s fun found s' =>
      found = s.path? e ∧ s.Resembles s' ∧ s'.Traced n e ∧
        ∀ id, .node .expr id ∉ e.keys → s'.meanings.exprs.get? id = s.meanings.exprs.get? id := by
  induction e using staticPath.induct generalizing s with
  | case1 node name =>
      unfold staticPath
      refine .step safe_lookup ?_
      rintro entries _ - ⟨rfl, hentries, hfind⟩
      have hpath : s.path? (.ident node name) = entries.head?.bind s.usable? := by
        rw [path?]
        rcases hfind with ⟨rfl, hfind⟩ | hfind
        · rw [hfind]
          rfl
        · rw [hfind]
      split
      · exact Safe.pure fun _ => ⟨hpath.symm, .refl s, htraced, fun _ _ => rfl⟩
      · next symbol rest =>
        have hkey := (Expr.ident node name).id_mem_keys
        refine Safe.imp (safe_staticPath_finish (hentries symbol List.mem_cons_self)
          (htraced.unpromised _ hkey) fun old hold => hpath.symm.trans (htraced.means hold)) ?_
        · rintro _ s' hfinishes ⟨rfl, hresembles, hothers, hmeans⟩
          refine ⟨hpath.symm, hresembles, ?_, fun id hid => hothers id fun heq => hid (heq ▸ hkey)⟩
          exact htraced.named (List.mem_singleton_self _) hresembles hfinishes hothers
            fun old hold => hpath.trans (hmeans old hold)
  | case2 node object member ih =>
      unfold staticPath
      have hdisjoint := List.disjoint_of_nodup_append htraced.nodup
      refine Safe.bind (ih htraced.object) (List.subset_append_left _ _) ?_
      rintro parent s₁ h ⟨hparent, hresembles, hobject, hexprs⟩
      have htraced' := htraced.of_object hobject hresembles h.balanced hexprs
      have hpath : s.path? (.member node object member) = parent.bind (s₁.memberPath? member.name) := by
        rw [hparent, path?, hresembles.memberPath?]
      have hkept (id : Nat) (hid : .node .expr id ∉ (Expr.member node object member).keys) :
          s₁.meanings.exprs.get? id = s.meanings.exprs.get? id :=
        hexprs id fun hmem => hid (List.mem_append_left _ hmem)
      -- Where the path ends without a meaning for the member, the state is the one after the object.
      have hstop (hnone : s.path? (.member node object member) = none) :
          Safe n bound (Expr.member node object member).keys (pure none) s₁ fun found s' =>
            found = s.path? (.member node object member) ∧ s.Resembles s' ∧
              s'.Traced n (.member node object member) ∧
              ∀ id, .node .expr id ∉ (Expr.member node object member).keys →
                s'.meanings.exprs.get? id = s.meanings.exprs.get? id :=
        Safe.pure fun _ => ⟨hnone.symm, hresembles, htraced', hkept⟩
      cases parent with
      | none => exact hstop hpath
      | some parent =>
          obtain ⟨kind, hkind, -⟩ := qualifies_of_path? hparent.symm
          rw [← hresembles.kinds] at hkind
          have hmember : s.path? (.member node object member) = s₁.memberPath? member.name parent := hpath
          refine Fares.kindOf (SymbolTable.lt_size_of_kind? hkind) fun kind' hkind' => ?_
          obtain rfl := Option.some.inj (hkind.symm.trans hkind')
          rw [memberPath?, hkind] at hmember
          split
          · next scope =>
            refine Fares.of_ready fun hs => .entriesOf (hs.closed.kind_inside hkind) ?_
            split
            · next hentries => exact hstop (hmember.trans (by simp [hentries]))
            · next symbol _ hentries =>
              have hmember : s.path? (.member node object member) = s₁.usable? symbol :=
                hmember.trans (by simp [hentries])
              have hkey := (Expr.member node object member).id_mem_keys
              have hsymbol := hs.closed.lt_of_entries (hentries ▸ List.mem_cons_self)
              refine Safe.widen (Safe.imp (safe_staticPath_finish hsymbol (htraced'.unpromised _ hkey)
                fun old hold => ?_) ?_) (List.subset_append_right _ _)
              · exact hmember.symm.trans ((hresembles.path? _).symm.trans (htraced'.means hold))
              · rintro _ s' hfinishes ⟨rfl, hresembles', hothers, hmeans⟩
                have hlast : Expr.member node object member ∈ (Expr.member node object member).spine :=
                  List.mem_append_right _ (List.mem_singleton_self _)
                refine ⟨hmember.symm, hresembles.trans hresembles', ?_, fun id hid => ?_⟩
                · refine htraced'.named hlast hresembles' hfinishes hothers fun old hold => ?_
                  exact (hresembles.path? _).trans (hmember.trans (hmeans old hold))
                · exact (hothers id fun heq => hid (heq ▸ hkey)).trans (hkept id hid)
          · next hmodule =>
            refine hstop (hmember.trans ?_)
            split
            · next heq => exact (hmodule _ (Option.some.inj heq)).elim
            · rfl
  | case3 e hident hmember =>
      rw [staticPath.eq_3 _ hident hmember, path?.eq_3 _ _ hident hmember]
      exact Safe.pure fun _ => ⟨rfl, .refl s, htraced, fun _ _ => rfl⟩

end Check

end Stela
