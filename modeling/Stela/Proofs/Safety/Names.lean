import Stela.Check.TypeRef
import Stela.Proofs.Safety.Changes

/-!
# Names and written types

Declaring and finding names is safe, and so is finding the type that a type
expression denotes: an alias is resolved as long as symbols with a duty are
left, and each alias on the way has taken up its duty before the next one.
-/

namespace Stela.Check

open CheckState

variable {n bound : Nat} {own : List NodeKey} {s s' : CheckState} {id symbol : SymbolId}
  {name : Ident} {type : TypeId}

/-! ## Declaring names -/

theorem safe_warnShadow {hidden : SymbolId} (hsymbol : symbol < s.tables.symbols.size)
    (hhidden : hidden < s.tables.symbols.size) :
    Safe n bound [] (warnShadow name symbol hidden) s fun _ _ => True := by
  unfold warnShadow
  refine Fares.symbol hhidden fun old _ => Fares.kindOf hsymbol fun kind _ => Fares.settings fun c => ?_
  split
  · exact Safe.pure fun _ => trivial
  · exact Safe.imp safe_report fun _ _ _ _ => trivial

theorem fares_clash {α : Type} {existing : SymbolId} (hexisting : existing < s.tables.symbols.size)
    {Q : α → CheckState → Prop} : Fares n bound own (clash name existing) s Q := by
  unfold clash
  refine .of_ready fun hs => .cursor (.scopeAt hs.closed.cursor fun scope hscope =>
    .symbol hexisting fun entry _ => ?_)
  have howner : ∀ owner, scope.owner = some owner → owner < s.tables.symbols.size :=
    (hs.closed.scopes _ scope hscope).2.1
  dsimp only
  split
  · split
    · next owner heq => exact .nameOf (howner owner heq) fun _ => .raise
    · exact .raise
  · split
    · next owner heq => exact .nameOf (howner owner heq) fun _ => .raise
    · exact .raise
  · exact .raise

/-- Declaring a symbol that exists. -/
theorem safe_declareRow {span : Span} {row : Row} (hrow : row.symbol < s.tables.symbols.size) :
    Safe n bound [] (declareRow span row) s fun _ _ => True := by
  unfold declareRow
  refine .of_ready fun hs => .requireComparable hrow (.state ?_)
  cases hinsert : s.scopes.insert row (s.tables.conflicts row.symbol) with
  | error existing =>
      refine fares_clash ?_
      unfold ScopeGraph.insert at hinsert
      split at hinsert
      · next clash hfind =>
        exact Except.error.inj hinsert ▸ hs.closed.lt_of_entries (List.mem_of_find?_eq_some hfind)
      · cases hinsert
  | ok result =>
      obtain ⟨hidden, g⟩ := result
      have hadds := adds_insert hs.closed hinsert hrow
      refine Safe.step (P := fun _ s' => s' = { s with scopes := g })
        (.update (fun hs => hadds.aside hs rfl rfl rfl) rfl) ?_
      rintro _ _ - rfl
      cases hidden with
      | none => exact Safe.pure fun _ => trivial
      | some hidden =>
          refine safe_warnShadow hrow ?_
          obtain ⟨scope, hmem⟩ := ScopeGraph.mem_entries_of_hidden hinsert
          exact (hs.closed.adds hadds).lt_of_entries hmem

theorem safe_declare (hsymbol : symbol < s.tables.symbols.size) :
    Safe n bound [] (declare name symbol) s fun _ _ => True := safe_declareRow hsymbol

theorem safe_declareObject {type : ExprType} {origin : Origin}
    (htype : type.type < s.tables.types.size) :
    Safe n bound [] (declareObject name type origin) s fun symbol s' =>
      symbol < s'.tables.symbols.size := by
  unfold declareObject
  refine .of_ready fun hs => .cursor (Safe.step (safe_newSymbol htype hs.closed.cursor rfl) ?_)
  rintro symbol s₁ - ⟨-, hkind⟩
  have hsymbol := SymbolTable.lt_size_of_kind? hkind
  exact .step (safe_declare hsymbol) fun _ s₂ h _ => Safe.pure fun _ => h.symbol_lt hsymbol

/-! ## Finding names -/

theorem safe_lookup : Safe n bound [] (lookup name) s fun entries s' =>
    s = s' ∧ (∀ id ∈ entries, id < s'.tables.symbols.size) ∧
      (entries = [] ∧ s.find name.name = .nothing ∨ s.find name.name = .symbols entries) := by
  unfold lookup
  refine Fares.of_ready fun hs => .searching ?_
  split
  · next hfind => exact Safe.pure fun _ => ⟨rfl, by simp, .inl ⟨rfl, hfind⟩⟩
  · next entries hfind =>
    exact Safe.pure fun _ => ⟨rfl, fun id hid => hs.closed.lt_of_find hfind hid, .inr hfind⟩
  · exact .raise

theorem safe_lookupRequired : Safe n bound [] (lookupRequired name) s fun entries s' =>
    ∀ id ∈ entries, id < s'.tables.symbols.size := by
  unfold lookupRequired
  refine .step safe_lookup ?_
  rintro entries _ - ⟨rfl, hentries, -⟩
  split
  · exact Fares.raise
  · exact Safe.pure fun _ => hentries

/-! ## Written types -/

theorem isType_of_kind? {kind : SymbolKind} (h : s.tables.symbols.kind? id = some kind)
    (htype : kind.isType = true) : s.tables.symbols.IsType id := ⟨kind, h, htype⟩

theorem safe_resolveTypeName {node : Node} {qualifier : Option Ident}
    (hunpromised : ¬ s.Promised (.node .type node.id)) :
    Safe n bound [.node .type node.id] (resolveTypeName node qualifier name) s fun symbol s' =>
      s'.tables.symbols.IsType symbol ∧ s'.meanings.types = s.meanings.types := by
  unfold resolveTypeName
  refine .of_ready fun hs => .state ?_
  split
  · next symbol hnode => exact Safe.pure fun _ => ⟨hs.closed.meanings.typeNames _ _ hnode, rfl⟩
  · next hnone =>
    extract_lets choose
    have hchoose (s₁ : CheckState) (entries : List SymbolId) (h : s.Balanced s₁)
        (hmeanings : s₁.meanings = s.meanings)
        (hentries : ∀ id ∈ entries, id < s₁.tables.symbols.size) :
        Safe n bound [.node .type node.id] (choose entries) s₁ fun symbol s' =>
          s'.tables.symbols.IsType symbol ∧ s'.meanings.types = s.meanings.types := by
      unfold choose
      split
      · exact Fares.raise
      · next symbol _ =>
        refine Fares.kindOf (hentries symbol List.mem_cons_self) fun kind hkind => ?_
        dsimp only
        split
        · exact Fares.raise_bind
        · next htype =>
          have htype := isType_of_kind? hkind (by simpa using htype)
          refine Safe.step (safe_markUsed (hentries symbol List.mem_cons_self)) ?_
          rintro _ s₂ h' ⟨hmeanings', -⟩
          have hmeans := hmeanings'.trans hmeanings
          refine Safe.bind (safe_setTypeName (h'.isType htype) (hmeans ▸ hnone) fun hkey => ?_)
            (List.Subset.refl _) fun _ s₃ h'' htypes => ?_
          · exact hunpromised ((h.trans h'.balanced).promised hkey)
          · exact Safe.pure fun _ => ⟨h''.isType (h'.isType htype), htypes.trans (congrArg _ hmeans)⟩
    split
    · refine Safe.step safe_lookup ?_
      rintro entries _ - ⟨rfl, hentries, -⟩
      exact hchoose s entries (.refl s) rfl hentries
    · refine Safe.step safe_lookup ?_
      rintro entries _ - ⟨rfl, hentries, -⟩
      split
      · exact Fares.raise_bind
      · next first _ =>
        have hfirst := hentries first List.mem_cons_self
        refine Fares.kindOf hfirst fun kind hkind => ?_
        split
        · next scope =>
          have hscope : scope < s.scopes.size := hs.closed.kind_inside hkind
          refine Safe.step (safe_markUsed hfirst) ?_
          rintro _ s₁ h ⟨hmeanings, -⟩
          exact Fares.entriesOf (h.scope_lt hscope) (hchoose s₁ _ h.balanced hmeanings fun id hid =>
            h.closed.lt_of_entries hid)
        · exact Fares.raise_bind

variable {ensure : SymbolId → Check Unit} {m : Nat} {keys : List NodeKey}

/-- A resolved alias is a type that stands behind resolved aliases only. -/
theorem grounded_of_isResolved (hs : s.Closed) (hid : s.tables.symbols.IsResolved id)
    (htype : s.tables.Grounded type ∨ s.tables.types.get? type = some (.aliasType id)) :
    s.tables.Grounded type := by
  obtain ⟨info, target, hkind, htarget⟩ := hid
  refine htype.elim (fun h => h) fun halias => .resolved halias hkind htarget ?_
  exact (hs.kind_inside hkind).2 target (by rw [AliasInfo.target?, htarget])

theorem safe_typeOfSymbolWith (hid : s.tables.symbols.IsType id)
    (hensure : Safe n bound [] (ensure id) s fun _ s' =>
      ∀ info, s.tables.symbols.kind? id = some (.aliasType info) → s'.tables.symbols.IsResolved id) :
    Safe n bound [] (typeOfSymbolWith ensure id) s fun type s' => s'.tables.Grounded type := by
  obtain ⟨kind, hkind, htype⟩ := hid
  unfold typeOfSymbolWith
  refine .of_ready fun hs => .kindOf (SymbolTable.lt_size_of_kind? hkind) fun kind' hkind' => ?_
  obtain rfl := Option.some.inj (hkind.symm.trans hkind')
  have hinside := hs.closed.kind_inside hkind
  split
  · next builtin => exact Safe.pure fun hs => hs.closed.builtinTypes builtin
  · exact Safe.pure fun _ => hinside.2.2
  · exact Safe.pure fun _ => hinside.2
  · exact Safe.pure fun _ => hinside.2
  · next info =>
    refine Safe.step hensure fun _ s₁ h hresolved => Safe.pure fun _ => ?_
    exact grounded_of_isResolved h.closed (hresolved info hkind)
      (hinside.1.imp (h.extent.grounded _) (h.extent.isAlias _ _))
  · next hbuiltin hstruct henum hhost halias =>
    cases kind with
    | builtinType builtin => exact (hbuiltin builtin rfl).elim
    | structType info => exact (hstruct info rfl).elim
    | enumType info => exact (henum info rfl).elim
    | hostType info => exact (hhost info rfl).elim
    | aliasType info => exact (halias info rfl).elim
    | _ => cases htype

/-- What a node denotes is found while the node itself has no type. -/
theorem safe_rememberType {node : Node} {p : Check TypeId} (hkeys : .node .type node.id ∈ keys)
    (hfree : s.Free n keys)
    (hp : Safe n bound keys p s fun type s' =>
      s'.tables.Grounded type ∧ s'.meanings.types.get? node.id = none) :
    Safe n bound keys (rememberType node p) s fun type s' => s'.tables.Grounded type := by
  have hnone : s.meanings.types.get? node.id = none := hfree.vacant _ hkeys
  unfold rememberType
  refine Fares.state ?_
  rw [hnone]
  refine Safe.bind hp (List.Subset.refl _) ?_
  rintro type s₁ h ⟨htype, hnone'⟩
  refine Safe.bind (safe_setType htype.lt_size hnone' fun hpromised => ?_)
    (by simpa using hkeys) fun _ s₂ h' _ => ?_
  · exact hfree.unpromised _ hkeys (h.balanced.promised hpromised)
  · exact Safe.pure fun _ => h'.extent.grounded _ htype

/-- The nodes inside a node are given their types before the node itself. -/
theorem safe_rememberType_inner {node : Node} {p : Check TypeId}
    (hfree : s.Free n (keys ++ [.node .type node.id]))
    (hp : Safe n bound keys p s fun type s' => s'.tables.Grounded type) :
    Safe n bound (keys ++ [.node .type node.id]) (rememberType node p) s fun type s' =>
      s'.tables.Grounded type := by
  refine safe_rememberType (List.mem_append_right _ List.mem_cons_self) hfree
    (Safe.widen (Safe.imp hp fun type s₁ h htype => ⟨htype, ?_⟩) (List.subset_append_left _ _))
  exact (hfree.right h.toFollows).vacant _ List.mem_cons_self

/-- A type that is no alias stands behind none. -/
theorem safe_internPlain (ty : Ty) (hty : ty.Inside s.extent) (hplain : ∀ symbol, ty ≠ .aliasType symbol) :
    Safe n bound own (intern ty) s fun type s' => s'.tables.Grounded type :=
  Safe.widen (Safe.imp (safe_enterType ty hty) fun _ _ _ h => .plain h.1 hplain) (List.nil_subset own)

/-- Aliases are resolved while fewer symbols than a bound have a duty. -/
def EnsuresAliases (n bound m : Nat) (ensure : SymbolId → Check Unit) : Prop :=
  ∀ (s : CheckState) (id : SymbolId), id < s.tables.symbols.size → s.waiting.card < m →
    Safe n bound [] (ensure id) s fun _ s' =>
      ∀ info, s.tables.symbols.kind? id = some (.aliasType info) → s'.tables.symbols.IsResolved id

mutual

/-- A type expression whose nodes are free denotes a type that stands behind resolved aliases. -/
theorem safe_lowerWith (hensure : EnsuresAliases n bound m ensure) :
    ∀ (type : TypeExpr) (s : CheckState), s.waiting.card < m → s.Free n type.keys →
    Safe n bound type.keys (lowerWith ensure type) s fun type s' => s'.tables.Grounded type
  | .named node qualifier name, s, hm, hfree => by
      unfold lowerWith
      have hkey : NodeKey.node .type node.id ∈ (TypeExpr.named node qualifier name).keys :=
        List.mem_singleton_self _
      have hunpromised := hfree.unpromised _ hkey
      refine safe_rememberType hkey hfree (.bind (safe_resolveTypeName hunpromised)
        (List.Subset.refl _) ?_)
      rintro symbol s₁ h ⟨hsymbol, htypes⟩
      refine Safe.widen (Safe.imp (safe_typeOfSymbolWith hsymbol
        (hensure s₁ symbol hsymbol.lt_size (h.waiting_lt hm))) fun type s₂ h' htype => ⟨htype, ?_⟩)
        (List.nil_subset _)
      have hvacant : s₁.meanings.Vacant (.node .type node.id) := by
        change s₁.meanings.types.get? node.id = none
        rw [htypes]
        exact hfree.vacant _ hkey
      -- Aliases that are resolved on the way do not get at the node.
      exact h'.vacant.of_unpromised hvacant List.not_mem_nil fun hpromised =>
        hunpromised (h.balanced.promised hpromised)
  | .array node element, s, hm, hfree => by
      unfold lowerWith
      refine safe_rememberType_inner hfree ?_
      refine Safe.bind (safe_lowerWith hensure element s hm hfree.left) (List.Subset.refl _)
        fun type s₁ h htype => ?_
      exact safe_internPlain (.array type) htype.lt_size (by simp)
  | .func node params ret, s, hm, hfree => by
      unfold lowerWith
      have hparams := hfree.left
      refine safe_rememberType_inner hfree ?_
      refine Safe.bind (safe_lowerParams hensure params s hm hparams.left) (List.subset_append_left _ _)
        fun types s₁ h htypes => ?_
      have hret := hparams.right h.toFollows
      cases ret with
      | none =>
          exact .of_ready fun hs => safe_internPlain (.func types _) ⟨htypes, hs.closed.builtins .void⟩
            (by simp)
      | some ret =>
          refine Safe.bind (safe_lowerWith hensure ret s₁ (h.waiting_lt hm) hret)
            (List.subset_append_right _ _) fun ret s₂ h' hret => ?_
          exact safe_internPlain (.func types ret)
            ⟨fun p hp => h'.type_lt (htypes p hp), hret.lt_size⟩ (by simp)

theorem safe_lowerParams (hensure : EnsuresAliases n bound m ensure) :
    ∀ (params : List TypeParam) (s : CheckState), s.waiting.card < m →
    s.Free n (TypeParam.listKeys params) →
    Safe n bound (TypeParam.listKeys params) (lowerParams ensure params) s fun types s' =>
      ∀ p ∈ types, p.2 < s'.tables.types.size
  | [], s, _, _ => Safe.pure fun _ => by simp
  | ⟨passing, type⟩ :: rest, s, hm, hfree => by
      unfold lowerParams
      refine Safe.bind (safe_lowerWith hensure type s hm hfree.left) (List.subset_append_left _ _)
        fun type s₁ h htype => ?_
      refine Safe.bind (safe_lowerParams hensure rest s₁ (h.waiting_lt hm) (hfree.right h.toFollows))
        (List.subset_append_right _ _) fun types s₂ h' htypes => ?_
      exact Safe.pure fun _ => List.forall_mem_cons.mpr ⟨h'.type_lt htype.lt_size, htypes⟩

end

/-! ## Aliases -/

/-- An alias that is not resolved may get another target that lies inside the state. -/
theorem retargets {f : SymbolKind → SymbolKind} {info : AliasInfo} {target : AliasTarget}
    (hf : f (.aliasType info) = .aliasType { info with target := target }) (hs : s.Closed)
    (hkind : s.tables.symbols.kind? id = some (.aliasType info)) (hinfo : info.target? = none)
    (htarget : ∀ written, target ≠ .unresolved written)
    (hinside : ∀ type, target = .resolved type → s.tables.Grounded type) (kind : SymbolKind)
    (h : s.tables.symbols.kind? id = some kind) : kind.Turns (f kind) ∧ (f kind).Inside s.extent id := by
  obtain rfl := Option.some.inj (hkind.symm.trans h)
  rw [hf]
  refine ⟨⟨fun h => h, by simp, fun duty hduty => ?_, fun old type hold htype => ?_⟩,
    (hs.kind_inside hkind).1, fun type htype => hinside type ?_⟩
  · cases target with
    | unresolved written => exact absurd rfl (htarget written)
    | _ => cases hduty
  · obtain rfl := SymbolKind.aliasType.inj hold
    rw [AliasInfo.target?, htype] at hinfo
    cases hinfo
  · cases target <;> cases htype
    rfl

/-- The target of an alias is looked for. -/
theorem safe_setResolving {info : AliasInfo} (hkind : s.tables.symbols.kind? id = some (.aliasType info))
    (hinfo : info.target? = none) :
    Safe n bound [] (setAliasTarget id .resolving) s fun _ s' =>
      s'.meanings = s.meanings ∧ s'.duty? id = none ∧ s'.tables.symbols.IsResolving id := by
  unfold setAliasTarget
  refine Safe.imp (safe_modifyKind (SymbolTable.lt_size_of_kind? hkind)
    (fun hs => retargets rfl hs.closed hkind hinfo (by simp) (by simp)) fun kind _ hresolving => ?_) ?_
  · obtain ⟨info, rfl, -⟩ := hresolving
    exact ⟨_, rfl, rfl⟩
  · rintro _ _ - rfl
    exact ⟨rfl, SymbolTable.duty?_of_kind? (SymbolTable.kind?_modifyKind_of hkind), _,
      SymbolTable.kind?_modifyKind_of hkind, _, rfl, rfl⟩

/-- An alias that is being resolved gets its target. Other aliases are left alone. -/
theorem exists_retarget {f : SymbolKind → SymbolKind} (settings : Settings) (hs : s.Closed)
    (hid : s.tables.symbols.IsResolving id) (htype : s.tables.Grounded type)
    (hf : ∀ info, f (.aliasType info) = .aliasType { info with target := .resolved type }) :
    ∃ s', (modifyKind id f).Gives settings s () s' ∧ Follows [] s s' ∧ s'.Closed ∧
      s.Balanced s' ∧ s'.tables.symbols.IsResolved id ∧
      ∀ other, other ≠ id → s.tables.symbols.IsResolving other → s'.tables.symbols.IsResolving other := by
  obtain ⟨_, hkind, info, rfl, htarget⟩ := hid
  obtain ⟨entry, hentry⟩ := Tables.exists_symbol (SymbolTable.lt_size_of_kind? hkind)
  refine ⟨_, gives_modifyKind.mpr ⟨Option.isSome_of_mem hentry, rfl⟩, ?_⟩
  have hretargets := retargets (hf info) hs hkind (by rw [AliasInfo.target?, htarget]) (by simp)
    fun _ h => AliasTarget.resolved.inj h ▸ htype
  have hadds := adds_modifyKind hs hretargets
  have hturns (kind : SymbolKind) (h : s.tables.symbols.kind? id = some kind) := (hretargets kind h).1
  refine ⟨hadds.follows (fun _ _ => SymbolTable.duty?_of_modifyKind hturns) rfl, hs.adds hadds,
    ⟨rfl, fun _ _ => SymbolTable.duty?_of_modifyKind hturns⟩,
    ⟨_, type, (SymbolTable.kind?_modifyKind_of hkind).trans (congrArg some (hf info)), rfl⟩,
    fun other hne hother => ?_⟩
  obtain ⟨kind, hkind', hresolving⟩ := hother
  exact ⟨kind, by rw [SymbolTable.kind?_modifyKind_ne hne.symm, hkind'], hresolving⟩

/-- What was found as the target of an alias is what it stands for from then on. -/
theorem exists_setResolved (settings : Settings) (hs : s.Closed)
    (hid : s.tables.symbols.IsResolving id) (htype : s.tables.Grounded type) :
    ∃ s', (setAliasTarget id (.resolved type)).Gives settings s () s' ∧ Follows [] s s' ∧ s'.Closed ∧
      s.Balanced s' ∧ s'.tables.symbols.IsResolved id ∧
      ∀ other, other ≠ id → s.tables.symbols.IsResolving other → s'.tables.symbols.IsResolving other :=
  exists_retarget settings hs hid htype fun _ => rfl

/-- An alias takes up its duty: its target is found while it is being looked for, and is what the
alias stands for from then on. -/
theorem safe_resolve {p : Check TypeId} {info : AliasInfo} {written : TypeExpr}
    (hkind : s.tables.symbols.kind? id = some (.aliasType info)) (htarget : info.target = .unresolved written)
    (hp : ∀ s₁, Finishes n [] s s₁ → s₁.waiting.card < s.waiting.card → s₁.Free n written.keys →
      Safe n bound written.keys p s₁ fun type s' => s'.tables.Grounded type) :
    Safe n bound [] (do
      setAliasTarget id .resolving
      let target ← p
      setAliasTarget id (.resolved target)) s fun _ s' => s'.tables.symbols.IsResolved id := by
  have hduty : s.duty? id = some ⟨none, written.keys⟩ := by
    rw [CheckState.duty?, SymbolTable.duty?_of_kind? hkind]
    obtain ⟨strong, target, type⟩ := info
    obtain rfl : target = .unresolved written := htarget
    rfl
  intro hs settings
  refine meets_bind rfl (CheckResult.Meets.imp
    (safe_setResolving hkind (by rw [AliasInfo.target?, htarget]) hs settings) ?_)
  rintro _ s₁ ⟨h, hbalanced, hmeanings, htaken, hresolving⟩
  have hfree := hs.dutiful.take hduty hmeanings htaken hbalanced.duties
  have hless : s₁.waiting.card < s.waiting.card := by
    refine Finset.card_lt_card ((Finset.ssubset_iff_of_subset hbalanced.waiting_subset).mpr ⟨id, ?_, ?_⟩)
    · simp [mem_waiting, hduty]
    · simp [mem_waiting, htaken]
  refine meets_bind rfl (CheckResult.Meets.imp
    (hp s₁ ⟨h, hbalanced⟩ hless hfree (h.ready hs) settings) ?_)
  rintro type s₂ ⟨h', hbalanced', hgrounded⟩
  -- The alias is still being resolved, so that what was resolved before does not lead through it.
  obtain ⟨s₃, hgives, h₃, hclosed, hbalanced₃, hresolved, hothers⟩ :=
    exists_setResolved settings h'.closed (h'.resolving id hresolving) hgrounded
  rw [hgives]
  have hthen := h'.toFollows.trans (h₃.widen (List.forall_mem_nil _))
  have hduties := (hbalanced'.trans hbalanced₃).duties
  refine ⟨⟨h.toFollows.discharge hduty htaken hthen hduties, hclosed,
    h₃.dutiful h'.dutiful hbalanced₃.duties (List.forall_mem_nil _), fun other hother => ?_⟩,
    hbalanced.trans (hbalanced'.trans hbalanced₃), hresolved⟩
  refine hothers other ?_ (h'.resolving other (h.resolving other hother))
  rintro rfl
  obtain ⟨_, hkind', info', rfl, htarget'⟩ := hother
  obtain rfl := SymbolKind.aliasType.inj (Option.some.inj (hkind.symm.trans hkind'))
  rw [htarget] at htarget'
  cases htarget'

/-- Resolving an alias takes up its duty, so that fewer symbols have one. -/
theorem safe_ensureAliasWithin : ∀ m, EnsuresAliases n bound m (ensureAliasWithin m) := by
  intro m
  induction m with
  | zero => exact fun s id _ hm => absurd hm (Nat.not_lt_zero _)
  | succ m ih =>
      intro s id hid hm
      unfold ensureAliasWithin
      refine Fares.of_ready fun hs => .symbol hid fun entry hentry => ?_
      have hkind := SymbolTable.kind?_of_get? hentry
      split
      · next info halias =>
        rw [halias] at hkind
        split
        · next target htarget =>
          refine Safe.pure fun _ old hold => ⟨info, target, hkind, htarget⟩
        · exact Fares.raise
        · next written htarget =>
          refine Safe.imp (safe_resolve hkind htarget fun s₁ h hless hfree => ?_) fun _ _ _ h _ _ => h
          exact .withCursor (h.scope_lt (hs.closed.symbols _ _ hentry).2) fun s₂ h' =>
            safe_lowerWith ih written s₂
              (h'.waiting_lt (Nat.lt_of_lt_of_le hless (Nat.le_of_lt_succ hm))) (hfree.still h'.toFollows)
      · next hother =>
        refine Safe.pure fun _ info hinfo => ?_
        exact (hother info (Option.some.inj (hkind.symm.trans hinfo))).elim

theorem safe_ensureAlias (hid : id < s.tables.symbols.size) :
    Safe n bound [] (ensureAlias id) s fun _ s' =>
      ∀ info, s.tables.symbols.kind? id = some (.aliasType info) → s'.tables.symbols.IsResolved id :=
  Fares.tables (safe_ensureAliasWithin _ s id hid (Nat.lt_succ_of_le card_waiting_le))

theorem safe_typeOfSymbol (hid : s.tables.symbols.IsType id) :
    Safe n bound [] (typeOfSymbol id) s fun type s' => type < s'.tables.types.size :=
  Safe.imp (safe_typeOfSymbolWith hid (safe_ensureAlias hid.lt_size)) fun _ _ _ htype => htype.lt_size

/-! ## Types of declarations -/

theorem safe_lowerType {type : TypeExpr} (hfree : s.Free n type.keys) :
    Safe n bound type.keys (lowerType type) s fun type s' => type < s'.tables.types.size :=
  Safe.imp (safe_lowerWith (m := s.tables.symbols.size + 1) (fun _ _ hid _ => safe_ensureAlias hid) type s
    (Nat.lt_succ_of_le card_waiting_le) hfree) fun _ _ _ htype => htype.lt_size

theorem safe_lowerOptional {type : Option TypeExpr} (hfree : s.Free n (TypeExpr.optionKeys type)) :
    Safe n bound (TypeExpr.optionKeys type) (lowerOptional type) s fun type s' =>
      s'.extent.Known type := by
  cases type with
  | none => exact Safe.pure fun _ => by simp [Extent.Known]
  | some type =>
      refine Safe.bind (safe_lowerType hfree) (List.Subset.refl _) fun type s₁ _ htype => ?_
      exact Safe.pure fun _ => .some htype

theorem safe_lowerSignature : ∀ (params : List Param) (s : CheckState),
    s.Free n (params.flatMap fun param => param.type.keys) →
    Safe n bound (params.flatMap fun param => param.type.keys) (lowerSignature params) s
      fun types s' => s'.extent.Exprs types := by
  intro params
  induction params with
  | nil => exact fun s _ => Safe.pure fun _ => by simp [Extent.Exprs]
  | cons param rest ih =>
      intro s hfree
      unfold lowerSignature
      rw [List.flatMap_cons] at hfree ⊢
      refine Safe.bind (safe_lowerType hfree.left) (List.subset_append_left _ _) fun type s₁ h htype => ?_
      refine Safe.bind (ih s₁ (hfree.right h.toFollows)) (List.subset_append_right _ _)
        fun types s₂ h' htypes => ?_
      exact Safe.pure fun _ => List.forall_mem_cons.mpr ⟨h'.type_lt htype, htypes⟩

end Stela.Check
