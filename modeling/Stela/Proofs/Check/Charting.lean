import Stela.Proofs.Check.Detailing
import Stela.Proofs.Safety.Declarations

/-!
# Finding the targets of aliases

The targets of aliases are found depth first. Every alias whose target is being
found leads to whatever is looked at, so one that is met again leads back to
itself; and an alias whose target was found leads to nothing but such aliases.
That a node is met for the first time matters: what is remembered about a node
would hide the aliases that are named in it.
-/

namespace Stela

namespace CheckState

variable {t s s' s'' : CheckState} {n bound : Nat} {own own' : List NodeKey} {named named' : SymbolId → Prop}
  {type : TypeId}

/-- What holds while the types are completed that had been declared in state `t`. -/
structure Charted (t : CheckState) (n bound : Nat) (s : CheckState) : Prop where
  ready : s.Ready n bound
  sound : s.Sound
  refines : t.Refines s
  mapped : t.Mapped s

/-- What a part of the completion that is about written types does. -/
structure Charts (t : CheckState) (n : Nat) (own : List NodeKey) (s s' : CheckState) : Prop where
  finishes : Finishes n own s s'
  calm : s.Calm s'
  details : s.Details s'
  mapped : t.Mapped s'

namespace Charts

theorem charted (h : t.Charts n own s s') (hs : t.Charted n bound s) : t.Charted n bound s' :=
  ⟨h.finishes.ready hs.ready, h.calm.sound, hs.refines.trans h.details.refines, h.mapped⟩

theorem trans (h : t.Charts n own s s') (h' : t.Charts n own s' s'') : t.Charts n own s s'' :=
  ⟨h.finishes.trans h'.finishes, h.calm.trans h'.calm, h.details.trans h'.details, h'.mapped⟩

theorem widen (h : t.Charts n own s s') (hsub : own ⊆ own') : t.Charts n own' s s' :=
  ⟨h.finishes.widen hsub, h.calm, h.details, h.mapped⟩

end Charts

theorem Charted.refl (hs : t.Charted n bound s) : t.Charts n own s s :=
  ⟨.refl hs.ready, .refl hs.sound, .refl s, hs.mapped⟩

/-- A step that leaves aliases as they are. -/
theorem Charted.still (hs : t.Charted n bound s) (hfinishes : Finishes n own s s') (hcalm : s.Calm s')
    (hsame : s.tables.symbols.SameAliases s'.tables.symbols) (hrefines : s.Refines s')
    (hcursor : s'.scopes.cursor = s.scopes.cursor) : t.Charts n own s s' :=
  ⟨hfinishes, hcalm, details_of_sameAliases hsame hrefines hcursor,
    hs.mapped.sameAliases hsame hcalm.tables.toGrows.widens⟩

/-- Every alias whose target is being found leads to some symbols. -/
def LeadsTo (t s : CheckState) (named : SymbolId → Prop) : Prop :=
  ∀ r, s.Resolving r → ∀ b, named b → Relation.TransGen t.Refers r b

theorem LeadsTo.details (h : t.LeadsTo s named) (hdetails : s.Details s') : t.LeadsTo s' named :=
  fun r hr => h r (hdetails.resolving r hr)

theorem LeadsTo.imp (h : t.LeadsTo s named) (hsub : ∀ b, named' b → named b) : t.LeadsTo s named' :=
  fun r hr b hb => h r hr b (hsub b hb)

/-- A type was found whose expression names some symbols. -/
structure Lowers (t s s' : CheckState) (type : TypeId) (named : SymbolId → Prop) : Prop where
  details : s.Details s'
  mapped : t.Mapped s'
  founded : s'.tables.Founded type
  ends : ∀ b, named b → t.Ends b

/-- The state in which the target of an alias was set. -/
abbrev aimed (s : CheckState) (id : SymbolId) (target : AliasTarget) : CheckState :=
  { s with tables.symbols := s.tables.symbols.modifyKind id (Check.retarget target) }

end CheckState

namespace Check

open CheckState

variable {settings : Settings} {blamed : String → Prop} {n bound m : Nat} {t s s' : CheckState}
  {named : SymbolId → Prop} {place : ScopeId} {id : SymbolId} {ensure : SymbolId → Check Unit}

theorem Safe.ends {α : Type} {own : List NodeKey} {p : Check α} {P : α → CheckState → Prop} {a : α}
    (h : Safe n bound own p s P) (hs : s.Ready n bound) (hgives : p.Gives settings s a s') :
    Finishes n own s s' ∧ P a s' := by
  have hmeets := h hs settings
  have hgives : p settings s = .ok a s' := hgives
  rw [hgives] at hmeets
  exact ⟨⟨hmeets.1, hmeets.2.1⟩, hmeets.2.2⟩

theorem Tells.state {β : Type} {f : CheckState → Check β} {R : β → CheckState → Prop}
    (h : Tells settings blamed (f s) s R) : Tells settings blamed (Check.state >>= f) s R :=
  ⟨h.ends, h.blames⟩

/-- The type of a node that has none is found and then noted. -/
theorem Tells.rememberType {node : Node} {p : Check TypeId}
    (hvacant : s.meanings.types.get? node.id = none)
    (hp : Tells settings blamed p s fun type s' => t.Lowers s s' type named) :
    Tells settings blamed (rememberType node p) s fun type s' => t.Lowers s s' type named := by
  refine .state ?_
  rw [hvacant]
  refine hp.bind fun type s₁ _ hlowers => .step ordinary_fill fun _ s₂ hset hsame => .pure ?_
  obtain ⟨hrefines, hscopes, htables⟩ := refines_fill hset
  have hdetails := details_of_sameAliases hsame hrefines (congrArg ScopeGraph.cursor hscopes)
  have hwidens : s₁.tables.Widens s₂.tables := htables ▸ .refl _
  exact ⟨hlowers.details.trans hdetails, hlowers.mapped.sameAliases hsame hwidens,
    hlowers.founded.widens hwidens, hlowers.ends⟩

/-- A type is entered whose parts are founded. -/
theorem tells_intern (ty : Ty) (hmapped : t.Mapped s) (hplain : ∀ symbol, ty ≠ .aliasType symbol)
    (hparts : ∀ part ∈ ty.parts, s.tables.Founded part) :
    Tells settings blamed (intern ty) s fun type s' =>
      s.Details s' ∧ t.Mapped s' ∧ s'.tables.Founded type := by
  refine (Tells.ordinary ordinary_intern).imp fun type s' hgives hsame => ?_
  obtain ⟨rfl, rfl⟩ := gives_intern.mp hgives
  have hwidens : s.tables.Widens { s.tables with types := (s.tables.types.intern ty).2 } :=
    (Tables.Grows.intern s.tables ty).widens
  refine ⟨details_of_sameAliases hsame (refines_aside rfl rfl rfl) rfl,
    hmapped.sameAliases hsame hwidens, .plain (TypeTable.get?_intern _ _) hplain fun part hpart => ?_⟩
  exact (hparts part hpart).widens hwidens

/-- What is expected of the step that resolves aliases. -/
structure Charters (settings : Settings) (t : CheckState) (n bound m : Nat)
    (ensure : SymbolId → Check Unit) : Prop where
  safe : EnsuresAliases n bound m ensure
  resolves : Resolves settings ensure
  charts : ∀ s id, t.Charted n bound s → s.waiting.card < m → id < s.tables.symbols.size →
    t.LeadsTo s (· = id) →
    Tells settings t.Loops (ensure id) s fun _ s' => t.Charts n [] s s' ∧ t.Ends id

/-- What is no alias was none. -/
theorem ends_of_kind {kind : SymbolKind} (hs : t.Refines s) (hkind : s.tables.symbols.kind? id = some kind)
    (halias : ∀ info, kind ≠ .aliasType info) : t.Ends id := by
  refine ends_of_not_alias fun info hinfo => ?_
  obtain ⟨info', hinfo'⟩ := hs.aliasType hinfo
  exact halias info' (Option.some.inj (hkind.symm.trans hinfo'))

theorem tells_typeOfSymbolWith (h : Charters settings t n bound m ensure) (hs : t.Charted n bound s)
    (hm : s.waiting.card < m) (htype : s.tables.symbols.IsType id) (hleads : t.LeadsTo s (· = id)) :
    Tells settings t.Loops (typeOfSymbolWith ensure id) s fun type s' => t.Lowers s s' type (· = id) := by
  refine .reading ordinary_kindOf (fun _ _ hgives => (gives_kindOf.mp hgives).2) fun kind hgives => ?_
  have hkind := (gives_kindOf.mp hgives).1
  have hsound := hs.sound.tables.kinds _ _ hkind
  have found {type : TypeId} {ty : Ty} (htype : s.tables.types.get? type = some ty)
      (hplain : ∀ symbol, ty ≠ .aliasType symbol) (hparts : ty.parts = [])
      (halias : ∀ info, kind ≠ .aliasType info) :
      Tells settings t.Loops (pure type) s fun type s' => t.Lowers s s' type (· = id) := by
    refine .pure ⟨.refl s, hs.mapped, .plain htype hplain (by simp [hparts]), ?_⟩
    rintro _ rfl
    exact ends_of_kind hs.refines hkind halias
  split
  · exact found (hs.sound.tables.types.builtin _) (by simp) rfl (by simp)
  · exact found hsound.1 (by simp) rfl (by simp)
  · exact found hsound (by simp) rfl (by simp)
  · exact found hsound.1 (by simp) rfl (by simp)
  · refine (h.charts s id hs hm htype.lt_size hleads).bind fun _ s₁ hgives hcharts => .pure ?_
    obtain ⟨hcharts, hends⟩ := hcharts
    obtain ⟨hcalm, hresolved⟩ := h.resolves hs.sound hgives
    obtain ⟨info', hkind', hbecomes⟩ := hcalm.tables.aliasType hkind
    obtain ⟨target, htarget⟩ := hresolved info' hkind'
    have htype := (hcalm.sound.tables.kinds _ _ hkind').1
    rw [hbecomes.type] at htype
    have hfounded := (hcharts.mapped id info' target hkind' htarget).2
    exact ⟨hcharts.details, hcharts.mapped, .resolved htype hkind' htarget hfounded, fun _ heq => heq ▸ hends⟩
  · exact (Tells.ordinary (ordinary_fault _)).imp fun _ _ hgives _ => absurd hgives gives_fault

/-- A part that was found to be safe and calm. -/
theorem charts_of_lowers {e : TypeExpr} (h : Charters settings t n bound m ensure)
    (hs : t.Charted n bound s) (hm : s.waiting.card < m) (hfree : s.Free n e.keys)
    (hlowers : Tells settings t.Loops (lowerWith ensure e) s fun type s' => t.Lowers s s' type named) :
    Tells settings t.Loops (lowerWith ensure e) s fun type s' =>
      t.Charts n e.keys s s' ∧ t.Lowers s s' type named :=
  hlowers.imp fun _ _ hgives hl => ⟨⟨((safe_lowerWith h.safe e s hm hfree).ends hs.ready hgives).1,
    (written_lowerWith h.resolves e hs.sound hgives).1, hl.details, hl.mapped⟩, hl⟩

mutual

/-- A type expression whose nodes are free is lowered, or an alias that leads to itself is blamed. -/
theorem charts_lowerWith (h : Charters settings t n bound m ensure) :
    ∀ (e : TypeExpr) (s : CheckState), t.Charted n bound s → s.waiting.card < m → s.Free n e.keys →
    s.scopes.cursor = place → t.LeadsTo s (t.NamesType place e) →
    Tells settings t.Loops (lowerWith ensure e) s fun type s' =>
      t.Charts n e.keys s s' ∧ t.Lowers s s' type (t.NamesType place e)
  | .named node qualifier name, s, hs, hm, hfree, hplace, hleads => by
      refine charts_of_lowers h hs hm hfree ?_
      simp only [lowerWith]
      have hkey : NodeKey.node .type node.id ∈ (TypeExpr.named node qualifier name).keys :=
        List.mem_singleton_self _
      refine .rememberType (hfree.vacant _ hkey) (.step ordinary_resolveTypeName fun b s₁ hgives hsame => ?_)
      obtain ⟨hmeans, htype, hrefines, hscopes⟩ := resolveTypeName_gives (hfree.unnamed _ hkey) hgives
      have hfinishes := ((safe_resolveTypeName (hfree.unpromised _ hkey)).ends hs.ready hgives).1
      have hstep := hs.still hfinishes (calm_resolveTypeName hs.sound hgives) hsame hrefines
        (congrArg ScopeGraph.cursor hscopes)
      have hmeans : t.meansType? place qualifier name = some b := by
        refine hplace ▸ hs.refines.meansType?_eq hmeans fun hfield => ?_
        obtain ⟨info, hinfo⟩ := hrefines.isField hfield
        obtain ⟨kind, hkind, htype⟩ := htype
        obtain rfl := Option.some.inj (hinfo.symm.trans hkind)
        cases htype
      refine (tells_typeOfSymbolWith h (hstep.charted hs) (hfinishes.waiting_lt hm) htype
        ((hleads.details hstep.details).imp ?_)).imp fun type s' _ hl => ?_
      · rintro _ rfl
        exact .named hmeans
      · refine ⟨hstep.details.trans hl.details, hl.mapped, hl.founded, fun b' hnames => ?_⟩
        obtain ⟨hmeans'⟩ := hnames
        exact hl.ends b' (Option.some.inj (hmeans'.symm.trans hmeans))
  | .array node element, s, hs, hm, hfree, hplace, hleads => by
      refine charts_of_lowers h hs hm hfree ?_
      simp only [lowerWith]
      have hkey : NodeKey.node .type node.id ∈ (TypeExpr.array node element).keys :=
        List.mem_append_right _ (List.mem_singleton_self _)
      refine .rememberType (hfree.vacant _ hkey) ?_
      refine (charts_lowerWith h element s hs hm hfree.left hplace
        (hleads.imp fun _ => .element)).bind fun type s₁ _ hcharts => ?_
      obtain ⟨-, hl⟩ := hcharts
      refine (tells_intern (.array type) hl.mapped (by simp)
        (List.forall_mem_singleton.mpr hl.founded)).imp fun _ s₂ _ hintern => ?_
      refine ⟨hl.details.trans hintern.1, hintern.2.1, hintern.2.2, fun b hnames => ?_⟩
      cases hnames with
      | element hnames => exact hl.ends b hnames
  | .func node params ret, s, hs, hm, hfree, hplace, hleads => by
      refine charts_of_lowers h hs hm hfree ?_
      simp only [lowerWith]
      have hkey : NodeKey.node .type node.id ∈ (TypeExpr.func node params ret).keys :=
        List.mem_append_right _ (List.mem_singleton_self _)
      refine .rememberType (hfree.vacant _ hkey) ?_
      refine (charts_lowerParams h params s hs hm hfree.left.left hplace (hleads.imp ?_)).bind
        fun types s₁ _ hcharts => ?_
      · rintro b ⟨⟨passing, type⟩, hparam, hnames⟩
        exact .param hparam hnames
      obtain ⟨hparams, hfounded, hends⟩ := hcharts
      have finish {s₂ : CheckState} {result : TypeId} (hdetails : s₁.Details s₂) (hmapped : t.Mapped s₂)
          (hwidens : s₁.tables.Widens s₂.tables) (hresult : s₂.tables.Founded result)
          (hret : ∀ e b, ret = some e → t.NamesType place e b → t.Ends b) :
          Tells settings t.Loops (intern (.func types result)) s₂ fun type s' =>
            t.Lowers s s' type (t.NamesType place (.func node params ret)) := by
        refine (tells_intern (.func types result) hmapped (by simp) fun part hpart => ?_).imp
          fun _ s₃ _ hintern => ?_
        · rcases List.mem_append.mp hpart with hpart | hpart
          · obtain ⟨p, hp, rfl⟩ := List.mem_map.mp hpart
            exact (hfounded p hp).widens hwidens
          · exact List.mem_singleton.mp hpart ▸ hresult
        · refine ⟨(hparams.details.trans hdetails).trans hintern.1, hintern.2.1, hintern.2.2,
            fun b hnames => ?_⟩
          cases hnames with
          | param hparam hnames => exact hends b ⟨_, hparam, hnames⟩
          | ret hnames => exact hret _ b rfl hnames
      cases ret with
      | none =>
          refine .bind (P := fun result s₂ => s₁ = s₂ ∧ result = Builtin.void.typeId)
            (.pure ⟨rfl, rfl⟩) fun result s₂ _ hvoid => ?_
          obtain ⟨rfl, rfl⟩ := hvoid
          exact finish (.refl _) hparams.mapped (.refl _)
            (.plain (hparams.calm.sound.tables.types.builtin .void) (by simp) (by simp [Ty.parts])) (by simp)
      | some ret =>
          refine (charts_lowerWith h ret s₁ (hparams.charted hs) (hparams.finishes.waiting_lt hm)
            (hfree.left.right hparams.finishes.toFollows) (hparams.details.cursor.trans hplace)
            ((hleads.details hparams.details).imp fun _ => .ret)).bind fun result s₂ _ hcharts => ?_
          obtain ⟨hcharts, hl⟩ := hcharts
          refine finish hcharts.details hl.mapped hcharts.calm.tables.toGrows.widens hl.founded ?_
          rintro _ b ⟨⟩ hnames
          exact hl.ends b hnames

theorem charts_lowerParams (h : Charters settings t n bound m ensure) :
    ∀ (params : List TypeParam) (s : CheckState), t.Charted n bound s → s.waiting.card < m →
    s.Free n (TypeParam.listKeys params) → s.scopes.cursor = place →
    t.LeadsTo s (fun b => ∃ param ∈ params, t.NamesType place param.type b) →
    Tells settings t.Loops (lowerParams ensure params) s fun types s' =>
      t.Charts n (TypeParam.listKeys params) s s' ∧ (∀ p ∈ types, s'.tables.Founded p.2) ∧
        ∀ b, (∃ param ∈ params, t.NamesType place param.type b) → t.Ends b
  | [], s, hs, _, _, _, _ => .pure ⟨hs.refl, by simp, by simp⟩
  | ⟨passing, e⟩ :: rest, s, hs, hm, hfree, hplace, hleads => by
      simp only [lowerParams]
      refine (charts_lowerWith h e s hs hm hfree.left hplace (hleads.imp fun b hnames =>
        ⟨_, List.mem_cons_self, hnames⟩)).bind fun type s₁ _ hfirst => ?_
      obtain ⟨hfirst, hl⟩ := hfirst
      refine (charts_lowerParams h rest s₁ (hfirst.charted hs) (hfirst.finishes.waiting_lt hm)
        (hfree.right hfirst.finishes.toFollows) (hfirst.details.cursor.trans hplace)
        ((hleads.details hfirst.details).imp ?_)).bind fun types s₂ _ hrest => .pure ?_
      · rintro b ⟨param, hparam, hnames⟩
        exact ⟨param, List.mem_cons_of_mem _ hparam, hnames⟩
      · obtain ⟨hrest, hfounded, hends⟩ := hrest
        refine ⟨(hfirst.widen (List.subset_append_left _ _)).trans
          (hrest.widen (List.subset_append_right _ _)), List.forall_mem_cons.mpr ⟨?_, hfounded⟩, ?_⟩
        · exact hl.founded.widens hrest.calm.tables.toGrows.widens
        · rintro b ⟨param, hparam, hnames⟩
          rcases List.mem_cons.mp hparam with rfl | hparam
          · exact hl.ends b hnames
          · exact hends b ⟨param, hparam, hnames⟩

end

/-! ## Aliases -/

section

variable {info : AliasInfo} {target : AliasTarget}

/-- An alias after the target of one was set. -/
theorem alias_retarget {symbols : SymbolTable} {other : SymbolId} {info' : AliasInfo}
    (hkind : symbols.kind? id = some (.aliasType info))
    (h : (symbols.modifyKind id (retarget target)).kind? other = some (.aliasType info')) :
    other = id ∧ info'.target = target ∨ other ≠ id ∧ symbols.kind? other = some (.aliasType info') := by
  by_cases heq : id = other
  · subst heq
    rw [SymbolTable.kind?_modifyKind_of hkind] at h
    exact .inl ⟨rfl, (SymbolKind.aliasType.inj (Option.some.inj h)) ▸ rfl⟩
  · rw [SymbolTable.kind?_modifyKind_ne heq] at h
    exact .inr ⟨Ne.symm heq, h⟩

/-- Setting the target of an alias that has none loses no other target. -/
theorem widens_retarget {tables : Tables} (hkind : tables.symbols.kind? id = some (.aliasType info))
    (hinfo : ∀ type, info.target ≠ .resolved type) (target : AliasTarget) :
    tables.Widens { tables with symbols := tables.symbols.modifyKind id (retarget target) } := by
  refine ⟨.refl _, Nat.le_of_eq SymbolTable.size_modifyKind.symm, fun other info' type hother htype => ?_⟩
  refine ⟨info', (SymbolTable.kind?_modifyKind_ne ?_).trans hother, htype⟩
  rintro rfl
  obtain rfl := SymbolKind.aliasType.inj (Option.some.inj (hkind.symm.trans hother))
  exact hinfo type htype

theorem refines_aimed (s : CheckState) (id : SymbolId)
    (htarget : ∀ written, target ≠ .unresolved written) : s.Refines (s.aimed id target) := by
  refine refines_of_symbols rfl rfl (SymbolTable.refines_modifyKind fun kind _ => ?_)
  cases kind with
  | aliasType info => exact .aliasType fun written hwritten => absurd hwritten (htarget written)
  | _ => exact .refl _

/-- What a written target names was named in it from the start. -/
theorem refers_of_refines {entry : Symbol} {written : TypeExpr} (hs : t.Refines s)
    (hentry : s.tables.symbols.get? id = some entry) (hkind : entry.kind = .aliasType info)
    (htarget : info.target = .unresolved written) (b : SymbolId) :
    t.Refers id b ↔ t.NamesType entry.scope written b := by
  rcases hs.symbols id entry hentry with ⟨field, hfield⟩ | ⟨old, hold, -, hscope, hrefined⟩
  · cases (hfield.symm.trans (SymbolTable.kind?_of_get? hentry)).trans (congrArg some hkind)
  obtain ⟨info₀, hkind₀, htarget₀⟩ : ∃ info₀, old.kind = .aliasType info₀ ∧
      info₀.target = .unresolved written := by
    rw [hkind] at hrefined
    generalize old.kind = kind at hrefined
    cases hrefined with
    | refl => exact ⟨info, rfl, htarget⟩
    | aliasType h => exact ⟨_, rfl, h written htarget⟩
  rw [hscope]
  refine ⟨fun hrefers => ?_, fun hnames => ⟨hold, hkind₀, htarget₀, hnames⟩⟩
  obtain ⟨hold', hkind', htarget', hnames⟩ := hrefers
  obtain rfl := Option.some.inj (hold.symm.trans hold')
  obtain rfl := SymbolKind.aliasType.inj (hkind₀.symm.trans hkind')
  obtain rfl := AliasTarget.unresolved.inj (htarget₀.symm.trans htarget')
  exact hnames

/-- The state in which the target of an alias is found. -/
theorem charted_resolving {entry : Symbol} {written : TypeExpr} (hs : t.Charted n bound s)
    (hm : s.waiting.card < m + 1) (hentry : s.tables.symbols.get? id = some entry)
    (hkind : entry.kind = .aliasType info) (htarget : info.target = .unresolved written)
    (hleads : t.LeadsTo s (· = id)) {s₂ : CheckState}
    (heq : { s.aimed id .resolving with scopes := s.scopes.setCursor entry.scope } = s₂) :
    t.Charted n bound s₂ ∧ s₂.waiting.card < m ∧ s₂.Free n written.keys ∧
      t.LeadsTo s₂ (t.NamesType entry.scope written) := by
  subst heq
  have hkind? := (SymbolTable.kind?_of_get? hentry).trans (congrArg some hkind)
  have hduty : s.duty? id = some ⟨none, written.keys⟩ := by
    rw [CheckState.duty?, SymbolTable.duty?_of_kind? hkind?]
    obtain ⟨strong, target, type⟩ := info
    obtain rfl : target = .unresolved written := htarget
    rfl
  have hunresolved (type : TypeId) : info.target ≠ .resolved type := by simp [htarget]
  -- The alias takes up its duty, so the nodes of its target are free.
  have hset : (setAliasTarget id .resolving).Gives {} s () (s.aimed id .resolving) :=
    gives_setAliasTarget.mpr ⟨Option.isSome_of_mem hentry, rfl⟩
  obtain ⟨hset, hmeanings, htaken, -⟩ :=
    (safe_setResolving hkind? (by rw [AliasInfo.target?, htarget])).ends hs.ready hset
  have hmove : (modifyScopes fun g => g.setCursor entry.scope).Gives {} (s.aimed id .resolving) ()
      { s.aimed id .resolving with scopes := s.scopes.setCursor entry.scope } := gives_modifyScopes.mpr rfl
  have hthere := ((safe_setCursor (hset.scope_lt (hs.ready.closed.symbols _ _ hentry).2)).ends
    (hset.ready hs.ready) hmove).1
  have hfree := (hs.ready.dutiful.take hduty hmeanings htaken hset.balanced.duties).still hthere.toFollows
  have hsound := sound_of_steady hs.sound (sound_retarget hkind? hunresolved hs.sound.tables (by simp))
    (steady_retarget _ _ .resolving) (.refl _) fun type => grounded_retarget hkind? hunresolved
  refine ⟨⟨(hset.trans hthere).ready hs.ready, (calm_setCursor hsound _).sound, ?_, ?_⟩, ?_, hfree, ?_⟩
  · exact hs.refines.trans ((refines_aimed s id (by simp)).trans (refines_setCursor _ _))
  · intro other info' type hother htype
    rcases alias_retarget hkind? hother with ⟨-, hresolving⟩ | ⟨-, hother⟩
    · cases hresolving.symm.trans htype
    · obtain ⟨hends, hfounded⟩ := hs.mapped other info' type hother htype
      exact ⟨hends, hfounded.widens (widens_retarget hkind? hunresolved _)⟩
  · refine hthere.waiting_lt (Nat.lt_of_lt_of_le (Finset.card_lt_card ?_) (Nat.le_of_lt_succ hm))
    refine (Finset.ssubset_iff_of_subset hset.balanced.waiting_subset).mpr ⟨id, ?_, ?_⟩
    · simp [mem_waiting, hduty]
    · simp [mem_waiting, htaken]
  · rintro r ⟨info', hr, hresolving⟩ b hnames
    have hrefers := (refers_of_refines hs.refines hentry hkind htarget b).mpr hnames
    rcases alias_retarget hkind? hr with ⟨rfl, -⟩ | ⟨-, hr⟩
    · exact .single hrefers
    · exact (hleads r ⟨info', hr, hresolving⟩ id rfl).tail hrefers

/-- The state in which the target of an alias was found. -/
theorem charted_resolved {entry : Symbol} {written : TypeExpr} {type : TypeId} {s₂ s₃ : CheckState}
    (hs : t.Charted n bound s) (hentry : s.tables.symbols.get? id = some entry)
    (hkind : entry.kind = .aliasType info) (htarget : info.target = .unresolved written)
    (heq : { s.aimed id .resolving with scopes := s.scopes.setCursor entry.scope } = s₂)
    (hcalm : s₂.Calm s₃) (hl : t.Lowers s₂ s₃ type (t.NamesType entry.scope written)) {s' : CheckState}
    (heq' : ({ s₃ with scopes := s₃.scopes.setCursor s.scopes.cursor } : CheckState).aimed id
      (.resolved type) = s') :
    s.Details s' ∧ t.Mapped s' ∧ t.Ends id := by
  subst heq heq'
  have hkind? := (SymbolTable.kind?_of_get? hentry).trans (congrArg some hkind)
  obtain ⟨info₃, hkind₃, hbecomes⟩ := hcalm.tables.aliasType (SymbolTable.kind?_modifyKind_of hkind?)
  have hresolving : info₃.target = .resolving := by
    rcases hbecomes.target with heq | ⟨⟨_, hfalse⟩, -⟩
    · exact heq
    · cases hfalse
  have hends : t.Ends id := .intro id fun b hrefers =>
    hl.ends b ((refers_of_refines hs.refines hentry hkind htarget b).mp hrefers)
  have hwidens := widens_retarget hkind₃ (by simp [hresolving]) (.resolved type)
  refine ⟨⟨?_, rfl, fun r hr => ?_⟩, fun r info' target hr htarget' => ?_, hends⟩
  · have hbefore : s.Refines { s.aimed id .resolving with scopes := s.scopes.setCursor entry.scope } :=
      (refines_aimed s id (by simp)).trans (refines_setCursor _ _)
    have hafter := (refines_setCursor s₃ s.scopes.cursor).trans
      (refines_aimed _ id (by simp : ∀ written, AliasTarget.resolved type ≠ .unresolved written))
    exact (hbefore.trans hl.details.refines).trans hafter
  · obtain ⟨info', hr, htarget'⟩ := hr
    rcases alias_retarget hkind₃ hr with ⟨-, hresolved⟩ | ⟨hne, hr⟩
    · cases hresolved.symm.trans htarget'
    · obtain ⟨info'', hr, htarget''⟩ := hl.details.resolving r ⟨info', hr, htarget'⟩
      rcases alias_retarget hkind? hr with ⟨heq, -⟩ | ⟨-, hr⟩
      · exact absurd heq hne
      · exact ⟨info'', hr, htarget''⟩
  · rcases alias_retarget hkind₃ hr with ⟨rfl, hresolved⟩ | ⟨-, hr⟩
    · obtain rfl := AliasTarget.resolved.inj (hresolved.symm.trans htarget')
      exact ⟨hends, hl.founded.widens hwidens⟩
    · obtain ⟨hends', hfounded⟩ := hl.mapped r info' target hr htarget'
      exact ⟨hends', hfounded.widens hwidens⟩

end

/-- An alias that is met while its own target is being found leads back to itself. -/
theorem loops_of_resolving {entry : Symbol} {info : AliasInfo} (hs : t.Refines s)
    (hentry : s.tables.symbols.get? id = some entry) (hkind : entry.kind = .aliasType info)
    (htarget : info.target = .resolving) (hleads : t.LeadsTo s (· = id)) : t.Loops entry.name := by
  have hkind? := (SymbolTable.kind?_of_get? hentry).trans (congrArg some hkind)
  refine ⟨id, ?_, hleads id ⟨info, hkind?, htarget⟩ id rfl⟩
  rcases hs.symbols id entry hentry with ⟨field, hfield⟩ | ⟨old, hold, hname, -, -⟩
  · cases hfield.symm.trans hkind?
  · simp [SymbolTable.name, hold, hname]

theorem tells_setAliasTarget {target : AliasTarget} {Q : Unit → CheckState → Prop}
    (h : Q () (s.aimed id target)) : Tells settings blamed (setAliasTarget id target) s Q := by
  unfold setAliasTarget modifyKind modifyAt
  refine .reading ordinary_symbol (fun _ _ hgives => (gives_symbol.mp hgives).2) fun _ _ =>
    ⟨fun u s' hgives => ?_, fun failure s' hfails => by cases hfails⟩
  obtain rfl := gives_modifySymbols.mp hgives
  exact h

theorem charters_ensureAliasWithin (m : Nat) :
    Charters settings t n bound m (ensureAliasWithin m) := by
  induction m with
  | zero => exact ⟨safe_ensureAliasWithin 0, resolves_ensureAliasWithin 0, fun _ _ _ hm =>
      absurd hm (Nat.not_lt_zero _)⟩
  | succ m ih =>
      refine ⟨safe_ensureAliasWithin (m + 1), resolves_ensureAliasWithin (m + 1),
        fun s id hs hm hid hleads => ?_⟩
      have hfound : Tells settings t.Loops (ensureAliasWithin (m + 1) id) s fun _ s' =>
          s.Details s' ∧ t.Mapped s' ∧ t.Ends id := by
        refine .reading ordinary_symbol (fun _ _ hgives => (gives_symbol.mp hgives).2) fun entry hgives => ?_
        have hentry := (gives_symbol.mp hgives).1
        have hkind? := SymbolTable.kind?_of_get? hentry
        split
        · next info hkind =>
          rw [hkind] at hkind?
          split
          · next target htarget =>
            exact .pure ⟨.refl s, hs.mapped, (hs.mapped id info target hkind? htarget).1⟩
          · next htarget =>
            refine ⟨fun _ _ hgives => absurd hgives gives_raise, fun failure s' hfails name hblames => ?_⟩
            cases hfails
            obtain ⟨error, herror, hname⟩ := hblames
            obtain rfl := CheckFailure.error.inj herror
            obtain rfl := TypeErrorKind.recursiveAlias.inj hname
            exact loops_of_resolving hs.refines hentry hkind htarget hleads
          · next written htarget =>
            refine (tells_setAliasTarget rfl : Tells settings t.Loops (setAliasTarget id .resolving) s
              fun _ s₁ => s.aimed id .resolving = s₁).bind fun _ s₁ _ heq => ?_
            subst heq
            obtain ⟨hs₂, hm₂, hfree, hleads₂⟩ := charted_resolving hs hm hentry hkind htarget hleads rfl
            have hlower := charts_lowerWith ih written _ hs₂ hm₂ hfree rfl hleads₂
            refine (Tells.withCursor (Q := fun _ _ => True) (hlower.imp fun _ _ _ _ => trivial)).bind
              fun type s₄ hgives _ => ?_
            obtain ⟨-, s₃, hrun, rfl⟩ := gives_withCursor.mp hgives
            obtain ⟨hcharts, hl⟩ := hlower.ends _ _ hrun
            exact tells_setAliasTarget
              (charted_resolved hs hentry hkind htarget rfl hcharts.calm hl rfl)
        · next hother => exact .pure ⟨.refl s, hs.mapped, ends_of_kind hs.refines hkind? hother⟩
      refine hfound.imp fun _ s' hgives h => ⟨⟨?_, ?_, h.1, h.2.1⟩, h.2.2⟩
      · exact ((safe_ensureAliasWithin (m + 1) s id hid hm).ends hs.ready hgives).1
      · exact (resolves_ensureAliasWithin (m + 1) hs.sound hgives).1

theorem charters_ensureAlias : Charters settings t n bound m ensureAlias := by
  refine ⟨fun _ _ hid _ => safe_ensureAlias hid, resolves_ensureAlias, fun s id hs _ hid hleads => ?_⟩
  have hwithin : Charters settings t n bound (s.tables.symbols.size + 1) _ := charters_ensureAliasWithin _
  have h := hwithin.charts s id hs (Nat.lt_succ_of_le card_waiting_le) hid hleads
  exact ⟨h.ends, h.blames⟩

/-- A written type is found while no other one is. -/
theorem charts_lowerType {e : TypeExpr} (hs : t.Charted n bound s) (hidle : ∀ r, ¬ s.Resolving r)
    (hfree : s.Free n e.keys) :
    Tells settings t.Loops (lowerType e) s fun _ s' => t.Charts n e.keys s s' := by
  have hm : s.waiting.card < s.tables.symbols.size + 1 := Nat.lt_succ_of_le card_waiting_le
  exact (charts_lowerWith charters_ensureAlias e s hs hm hfree rfl fun r hr => absurd hr (hidle r)).imp
    fun _ _ _ h => h.1

end Check

end Stela
