import Stela.Check.TypeDecl
import Stela.Proofs.Check.Naming

/-!
# Types that programs write are settled

A type that a program writes denotes a settled type whose aliases are resolved
down to a type that is none. In particular an alias never stands behind itself:
while its target is being found it is no alias that anything may refer to.
-/

namespace Stela

namespace Check

open CheckState

variable {settings : Settings} {s s' : CheckState} {id : SymbolId} {type : TypeId}

theorem calm_resolveTypeName (hs : s.Sound) {node : Node} {qualifier : Option Ident} {name : Ident}
    (h : (resolveTypeName node qualifier name).Gives settings s id s') : s.Calm s' := by
  have finish {s : CheckState} (hs : s.Sound) {symbol : SymbolId}
      (h : Gives (do
        if !(← kindOf symbol).isType then raise (.notAType name.name) name.span
        markUsed symbol
        setTypeName node.id symbol
        return symbol) settings s id s') : s.Calm s' := by
    simp only [gives_bind, gives_kindOf] at h
    obtain ⟨_, _, ⟨-, rfl⟩, h⟩ := h
    rw [gives_ite] at h
    split at h
    · simp at h
    · simp only [gives_bind, gives_pure] at h
      obtain ⟨_, _, hmark, _, _, hset, rfl, rfl⟩ := h
      have hmark := calm_markUsed hs hmark
      exact hmark.trans (calm_setTypeName hmark.sound hset)
  simp only [resolveTypeName, gives_bind, gives_state] at h
  obtain ⟨_, _, ⟨rfl, rfl⟩, h⟩ := h
  split at h
  · obtain ⟨-, rfl⟩ := gives_pure.mp h
    exact .refl hs
  · split at h
    · rw [gives_bind] at h
      obtain ⟨_, _, hlookup, h⟩ := h
      obtain rfl := lookup_state hlookup
      split at h
      · simp at h
      · exact finish hs h
    · rw [gives_bind] at h
      obtain ⟨_, _, hlookup, h⟩ := h
      obtain rfl := lookup_state hlookup
      split at h
      · simp at h
      · simp only [gives_bind, gives_kindOf] at h
        obtain ⟨_, _, ⟨-, rfl⟩, h⟩ := h
        split at h
        · rw [gives_bind] at h
          obtain ⟨_, s₁, hmark, h⟩ := h
          simp only [gives_bind, gives_entriesOf] at h
          obtain ⟨_, _, ⟨-, rfl⟩, h⟩ := h
          have hmark := calm_markUsed hs hmark
          split at h
          · simp at h
          · exact hmark.trans (finish hmark.sound h)
        · simp at h

/-- What is expected of the step that resolves aliases. -/
def Resolves (settings : Settings) (ensure : SymbolId → Check Unit) : Prop :=
  ∀ {id s s'}, s.Sound → (ensure id).Gives settings s () s' → s.Calm s' ∧
    ∀ info, s'.tables.symbols.kind? id = some (.aliasType info) →
      ∃ target, info.target = .resolved target

section

variable {ensure : SymbolId → Check Unit} (hensure : Resolves settings ensure)

include hensure

theorem written_typeOfSymbolWith (hs : s.Sound)
    (h : (typeOfSymbolWith ensure id).Gives settings s type s') :
    s.Calm s' ∧ s'.tables.Written type := by
  simp only [typeOfSymbolWith, gives_bind, gives_kindOf] at h
  obtain ⟨kind, _, ⟨hkind, rfl⟩, h⟩ := h
  have hsound := hs.tables.kinds _ _ hkind
  have plain {type : TypeId} {ty : Ty} (htype : s.tables.types.get? type = some ty)
      (hpending : ∀ func, ty ≠ .pending func) (hfunc : ∀ params ret, ty ≠ .func params ret)
      (halias : ∀ symbol, ty ≠ .aliasType symbol) : s.tables.Written type := by
    refine ⟨⟨⟨ty, htype, hpending⟩, fun params ret hty => ?_⟩, .plain htype halias⟩
    exact absurd (Option.some.inj (htype.symm.trans hty)) (hfunc params ret)
  split at h
  · obtain ⟨rfl, rfl⟩ := gives_pure.mp h
    exact ⟨.refl hs, plain (hs.tables.types.builtin _) (by simp) (by simp) (by simp)⟩
  · obtain ⟨rfl, rfl⟩ := gives_pure.mp h
    exact ⟨.refl hs, plain hsound.1 (by simp) (by simp) (by simp)⟩
  · obtain ⟨rfl, rfl⟩ := gives_pure.mp h
    exact ⟨.refl hs, plain hsound (by simp) (by simp) (by simp)⟩
  · obtain ⟨rfl, rfl⟩ := gives_pure.mp h
    exact ⟨.refl hs, plain hsound.1 (by simp) (by simp) (by simp)⟩
  · simp only [gives_bind, gives_pure] at h
    obtain ⟨_, _, hresolve, rfl, rfl⟩ := h
    obtain ⟨hcalm, hresolved⟩ := hensure hs hresolve
    obtain ⟨info', hkind', hbecomes⟩ := hcalm.tables.aliasType hkind
    obtain ⟨target, htarget⟩ := hresolved info' hkind'
    obtain ⟨htype, hwritten⟩ := hcalm.sound.tables.kinds _ _ hkind'
    rw [hbecomes.type] at htype
    refine ⟨hcalm, ⟨⟨_, htype, by simp⟩, fun params ret hty => ?_⟩,
      .resolved htype hkind' htarget (hwritten target htarget).2⟩
    simp [htype] at hty
  · simp at h

omit hensure in
theorem written_rememberType (hs : s.Sound) {node : Node} {p : Check TypeId}
    (hp : ∀ {type s'}, p.Gives settings s type s' → s.Calm s' ∧ s'.tables.Written type)
    (h : (rememberType node p).Gives settings s type s') :
    s.Calm s' ∧ s'.tables.Written type := by
  simp only [rememberType, gives_bind, gives_state] at h
  obtain ⟨_, _, ⟨rfl, rfl⟩, h⟩ := h
  split at h
  · obtain ⟨rfl, rfl⟩ := gives_pure.mp h
    exact ⟨.refl hs, hs.remembered _ _ ‹_›⟩
  · simp only [gives_bind, gives_pure] at h
    obtain ⟨_, s₁, hrun, _, _, hset, rfl, rfl⟩ := h
    obtain ⟨hcalm, hwritten⟩ := hp hrun
    have hset := calm_setType hcalm.sound hwritten.1 hwritten.2 hset
    exact ⟨hcalm.trans hset, hwritten.widens hset.tables.toGrows.widens⟩

set_option linter.unusedSectionVars false in
mutual

theorem written_lowerWith :
    ∀ (e : TypeExpr) {s type s'}, s.Sound → (lowerWith ensure e).Gives settings s type s' →
      s.Calm s' ∧ s'.tables.Written type
  | .named node qualifier name, s, type, s', hs, h => by
      simp only [lowerWith] at h
      refine written_rememberType hs (fun h => ?_) h
      rw [gives_bind] at h
      obtain ⟨symbol, s₁, hname, htype⟩ := h
      have hname := calm_resolveTypeName hs hname
      obtain ⟨hcalm, hwritten⟩ := written_typeOfSymbolWith hensure hname.sound htype
      exact ⟨hname.trans hcalm, hwritten⟩
  | .array node element, s, type, s', hs, h => by
      simp only [lowerWith] at h
      refine written_rememberType hs (fun h => ?_) h
      rw [gives_bind] at h
      obtain ⟨element', s₁, helement, hintern⟩ := h
      obtain ⟨hcalm, hwritten⟩ := written_lowerWith element hs helement
      obtain ⟨hcalm', hwritten'⟩ :=
        written_internArray hcalm.sound hwritten.1 hintern
      exact ⟨hcalm.trans hcalm', hwritten'⟩
  | .func node params ret, s, type, s', hs, h => by
      simp only [lowerWith] at h
      refine written_rememberType hs (fun h => ?_) h
      rw [gives_bind] at h
      obtain ⟨params', s₁, hlower, h⟩ := h
      obtain ⟨hcalm, hwritten⟩ := written_lowerParams params hs hlower
      split at h
      · rw [gives_bind] at h
        obtain ⟨ret', s₂, hret, hintern⟩ := h
        obtain ⟨hcalm', hwritten'⟩ := written_lowerWith _ hcalm.sound hret
        have hparams (p : RefKind × TypeId) (hp : p ∈ params') :=
          (hwritten p hp).mono hcalm'.tables.types
        obtain ⟨hcalm'', hwritten''⟩ :=
          written_internFunc hcalm'.sound hparams hwritten'.1 hintern
        exact ⟨(hcalm.trans hcalm').trans hcalm'', hwritten''⟩
      · simp only [gives_bind, gives_pure] at h
        obtain ⟨_, _, ⟨rfl, rfl⟩, hintern⟩ := h
        obtain ⟨hcalm'', hwritten''⟩ := written_internFunc hcalm.sound hwritten
          (hcalm.sound.tables.types.settled_builtin .void) hintern
        exact ⟨hcalm.trans hcalm'', hwritten''⟩

theorem written_lowerParams :
    ∀ (params : List TypeParam) {s types s'}, s.Sound →
      (lowerParams ensure params).Gives settings s types s' →
      s.Calm s' ∧ ∀ p ∈ types, s'.tables.types.Settled p.2
  | [], s, types, s', hs, h => by
      simp only [lowerParams, gives_pure] at h
      obtain ⟨rfl, rfl⟩ := h
      exact ⟨.refl hs, by simp⟩
  | ⟨passing, type⟩ :: rest, s, types, s', hs, h => by
      simp only [lowerParams, gives_bind, gives_pure] at h
      obtain ⟨type', s₁, htype, rest', _, hrest, rfl, rfl⟩ := h
      obtain ⟨hcalm, hwritten⟩ := written_lowerWith type hs htype
      obtain ⟨hcalm', hrest⟩ := written_lowerParams rest hcalm.sound hrest
      refine ⟨hcalm.trans hcalm', fun p hp => ?_⟩
      rcases List.mem_cons.mp hp with rfl | hp
      · exact hwritten.1.mono hcalm'.tables.types
      · exact hrest p hp

end

end

/-! ## Aliases -/

/-- The kind that an alias has with another target; other kinds stay. -/
def retarget (target : AliasTarget) : SymbolKind → SymbolKind
  | .aliasType info => .aliasType { info with target := target }
  | kind => kind

theorem gives_setAliasTarget {target : AliasTarget} {u : Unit} :
    (setAliasTarget id target).Gives settings s u s' ↔ (s.tables.symbols.get? id).isSome ∧
      { s with tables.symbols := s.tables.symbols.modifyKind id (retarget target) } = s' :=
  gives_modifyAt

theorem steady_retarget (t : Tables) (id : SymbolId) (target : AliasTarget) :
    t.Steady { t with symbols := t.symbols.modifyKind id (retarget target) } := by
  refine .modifyKind t id (fun kind info => ?_) fun info => ⟨info, rfl, rfl⟩
  cases kind <;> simp [retarget]

section

variable {t : Tables} {info : AliasInfo} (hkind : t.symbols.kind? id = some (.aliasType info))
  (hinfo : ∀ type, info.target ≠ .resolved type)

include hkind hinfo

/-- No resolved chain of aliases goes through an alias that is not resolved. -/
theorem grounded_retarget {target : AliasTarget} (hg : t.Grounded type) :
    Tables.Grounded { t with symbols := t.symbols.modifyKind id (retarget target) } type := by
  refine hg.mono (.refl _) fun other info' type hother htype => ⟨info', ?_, htype⟩
  refine (SymbolTable.kind?_modifyKind_ne ?_).trans hother
  rintro rfl
  obtain rfl : info = info' := by simpa [hkind] using hother
  exact hinfo type htype

/-- A target may be set to one that the aliases behind it are resolved for. -/
theorem sound_retarget (h : t.Sound) {target : AliasTarget}
    (htarget : ∀ type, target = .resolved type → t.Written type) :
    Tables.Sound { t with symbols := t.symbols.modifyKind id (retarget target) } := by
  refine ⟨h.types, fun other kind hkind' => ?_, fun type ty symbol htype hsymbol =>
    Nat.lt_of_lt_of_eq (h.named type ty symbol htype hsymbol) SymbolTable.size_modifyKind.symm⟩
  by_cases heq : id = other
  · subst heq
    rw [SymbolTable.kind?_modifyKind_of hkind] at hkind'
    obtain rfl := Option.some.inj hkind'
    refine ⟨(h.kinds _ _ hkind).1, fun type htype => ?_⟩
    exact ⟨(htarget type htype).1, grounded_retarget hkind hinfo (htarget type htype).2⟩
  · have hsound := h.kinds _ _ ((SymbolTable.kind?_modifyKind_ne heq).symm.trans hkind')
    cases kind with
    | aliasType info' =>
        refine ⟨hsound.1, fun type htype => ?_⟩
        obtain ⟨hsettled, hgrounded⟩ := hsound.2 type htype
        exact ⟨hsettled, grounded_retarget hkind hinfo hgrounded⟩
    | structType info =>
        exact ⟨hsound.1, fun field hfield =>
          Nat.lt_of_lt_of_eq (hsound.2 field hfield) SymbolTable.size_modifyKind.symm⟩
    | _ => exact hsound

/-- No tables that were complete had the alias. -/
theorem apart_retarget {target : AliasTarget} {bound : Nat} (ht : t = s.tables) (h : s.Apart bound) :
    CheckState.Apart { s with tables.symbols := s.tables.symbols.modifyKind id (retarget target) }
      bound := by
  subst ht
  refine fun scope => (h scope).imp fun htold hname => ?_
  obtain ⟨u, hsound, hcomplete, hbound, hcontained, hconflicts⟩ := htold hname
  refine ⟨u, hsound, hcomplete, hbound, ⟨hcontained.types, fun other kind hother => ?_⟩, hconflicts⟩
  obtain ⟨⟨kind', hkind', hbecomes⟩, hname⟩ := hcontained.symbols other kind hother
  refine ⟨⟨kind', (SymbolTable.kind?_modifyKind_ne ?_).trans hkind', hbecomes⟩,
    SymbolTable.name_modifyKind.trans hname⟩
  rintro rfl
  obtain rfl := Option.some.inj (hkind.symm.trans hkind')
  obtain ⟨old, rfl⟩ := hbecomes.eq_aliasType
  obtain ⟨type, htype⟩ := hcomplete _ _ hother
  obtain ⟨info', heq, hinfo'⟩ := hbecomes.aliasType_inv
  obtain rfl := SymbolKind.aliasType.inj heq
  exact hinfo type (hinfo'.resolved htype)

end

/-- Changing the target of one alias keeps a state sound if it keeps the tables sound and grows
them. -/
theorem sound_of_steady (hs : s.Sound) {t : Tables} (ht : t.Sound) (hsteady : s.tables.Steady t)
    (hw : s.tables.types.Within t.types)
    (hgrounded : ∀ type, s.tables.Grounded type → t.Grounded type) :
    CheckState.Sound { s with tables := t } := by
  have hp (func : SymbolId) : s.tables.InProgress func → t.InProgress func := hsteady.inProgress.mpr
  refine ⟨ht, fun node typing h => (hs.exprs node typing h).mono hw hp,
    fun frame hf => hsteady.frameSound (hs.frames frame hf), hs.distinct,
    fun a ha => ⟨hp _ (hs.assumptions a ha).1, (hs.assumptions a ha).2.mono hw⟩,
    fun r hr => (hs.transfers r hr).mono hw, fun d hd => (hs.defaults d hd).mono hw,
    fun node type h => ?_, fun id hid => ?_⟩
  · obtain ⟨hsettled, hg⟩ := hs.remembered node type h
    exact ⟨hsettled.mono hw, hgrounded type hg⟩
  · exact hsteady.isSome_func ▸ hs.statics id hid

/-- A state stays sound when the target of an alias is set that was not resolved before. -/
theorem sound_setAliasTarget (hs : s.Sound) {info : AliasInfo}
    (hkind : s.tables.symbols.kind? id = some (.aliasType info)) (hinfo : ∀ type, info.target ≠ .resolved type)
    {target : AliasTarget} (htarget : ∀ type, target = .resolved type → s.tables.Written type) :
    CheckState.Sound { s with tables.symbols := s.tables.symbols.modifyKind id (retarget target) } :=
  sound_of_steady hs (sound_retarget hkind hinfo hs.tables htarget) (steady_retarget _ _ _) (.refl _)
    fun _ => grounded_retarget hkind hinfo

/-- An alias that was being resolved all along is resolved at the end. -/
theorem grows_of_retarget {t t₁ t' : Tables} {info : AliasInfo} {written : TypeExpr}
    (hkind : t.symbols.kind? id = some (.aliasType info)) (hinfo : info.target = .unresolved written)
    (ht₁ : t₁ = { t with symbols := t.symbols.modifyKind id (retarget .resolving) })
    (hgrows : t₁.Grows t') (target : TypeId) :
    t.Grows { t' with symbols := t'.symbols.modifyKind id (retarget (.resolved target)) } := by
  subst ht₁
  refine ⟨⟨hgrows.types, fun other kind hother => ?_⟩, fun other info' hinfo' => ?_⟩
  · by_cases heq : id = other
    · subst heq
      obtain rfl := Option.some.inj (hkind.symm.trans hother)
      obtain ⟨⟨kind', hkind', hbecomes⟩, hname⟩ :=
        hgrows.symbols id _ (SymbolTable.kind?_modifyKind_of hkind)
      obtain ⟨info', rfl, hinfo'⟩ := hbecomes.aliasType_inv
      refine ⟨⟨_, SymbolTable.kind?_modifyKind_of hkind', .aliasType ⟨hinfo'.strong, hinfo'.type, ?_⟩⟩,
        SymbolTable.name_modifyKind.trans (hname.trans SymbolTable.name_modifyKind)⟩
      exact .inr ⟨⟨written, hinfo⟩, target, rfl⟩
    · obtain ⟨hbecomes, hname⟩ :=
        hgrows.symbols other kind ((SymbolTable.kind?_modifyKind_ne heq).trans hother)
      rw [SymbolTable.kind?_modifyKind_ne heq]
      exact ⟨hbecomes, SymbolTable.name_modifyKind.trans (hname.trans SymbolTable.name_modifyKind)⟩
  · by_cases heq : id = other
    · exact ⟨info, heq ▸ hkind⟩
    · rw [SymbolTable.kind?_modifyKind_ne heq] at hinfo'
      obtain ⟨info₁, hinfo₁⟩ := hgrows.aliases other info' hinfo'
      rw [SymbolTable.kind?_modifyKind_ne heq] at hinfo₁
      exact ⟨info₁, hinfo₁⟩

theorem resolves_ensureAliasWithin (bound : Nat) :
    Resolves settings (ensureAliasWithin bound) := by
  induction bound with
  | zero =>
      intro id s s' _ h
      simp [ensureAliasWithin] at h
  | succ bound ih =>
      intro id s s' hs h
      simp only [ensureAliasWithin, gives_bind, gives_symbol] at h
      obtain ⟨entry, _, ⟨hentry, rfl⟩, h⟩ := h
      have hkind := SymbolTable.kind?_of_get? hentry
      split at h
      · next info hinfo =>
        rw [hinfo] at hkind
        split at h
        · next target htarget =>
          obtain ⟨-, rfl⟩ := gives_pure.mp h
          refine ⟨.refl hs, fun info' hinfo' => ?_⟩
          obtain rfl : info = info' := by simpa [hkind] using hinfo'
          exact ⟨target, htarget⟩
        · simp at h
        · next written hwritten =>
          simp only [gives_bind, gives_setAliasTarget, gives_withCursor] at h
          obtain ⟨_, _, ⟨-, rfl⟩, target, _, ⟨-, s₂, hlower, rfl⟩, -, rfl⟩ := h
          have hunresolved (type : TypeId) : info.target ≠ .resolved type := by simp [hwritten]
          -- While its target is being found, the alias stands for itself.
          have hs₁ := sound_setAliasTarget hs hkind hunresolved (by simp : ∀ type,
            AliasTarget.resolving = .resolved type → s.tables.Written type)
          obtain ⟨hcalm, htarget⟩ := written_lowerWith ih written (calm_setCursor hs₁ _).sound hlower
          obtain ⟨info₂, hkind₂, hbecomes⟩ :=
            hcalm.tables.aliasType (SymbolTable.kind?_modifyKind_of hkind)
          have hresolving : info₂.target = .resolving := by
            rcases hbecomes.target with heq | ⟨⟨_, hfalse⟩, -⟩
            · exact heq
            · simp at hfalse
          have hunresolved₂ (type : TypeId) : info₂.target ≠ .resolved type := by simp [hresolving]
          have hgrows := grows_of_retarget hkind hwritten rfl hcalm.tables.toGrows target
          have hsteady := ((steady_retarget s.tables id .resolving).trans
            hcalm.tables.toSteady).trans (steady_retarget s₂.tables id (.resolved target))
          have hs' := sound_setAliasTarget hcalm.sound hkind₂ hunresolved₂
            fun type htype => AliasTarget.resolved.inj htype ▸ htarget
          have hapart (limit : Nat) (h : s.Apart limit) : CheckState.Apart { s₂ with
              tables.symbols := s₂.tables.symbols.modifyKind id (retarget (.resolved target)) } limit :=
            apart_retarget hkind₂ hunresolved₂ rfl
              (hcalm.apart limit (apart_retarget hkind hunresolved rfl h))
          refine ⟨⟨⟨(calm_setCursor hs' _).sound, ⟨hgrows, hsteady⟩, hcalm.frames, hcalm.exprs,
            hcalm.assumptions, hcalm.meanings, separates_of_apart hgrows.toContained hapart⟩, hapart⟩,
            fun info' hinfo' => ?_⟩
          rw [SymbolTable.kind?_modifyKind_of hkind₂] at hinfo'
          exact ⟨target, (SymbolKind.aliasType.inj (Option.some.inj hinfo')) ▸ rfl⟩
      · next hother =>
        obtain ⟨-, rfl⟩ := gives_pure.mp h
        refine ⟨.refl hs, fun info hinfo => ?_⟩
        rw [hkind] at hinfo
        exact absurd (Option.some.inj hinfo) (hother info)

theorem resolves_ensureAlias : Resolves settings ensureAlias := by
  intro id s s' hs h
  simp only [ensureAlias, gives_bind, gives_tables] at h
  obtain ⟨_, _, ⟨rfl, rfl⟩, h⟩ := h
  exact resolves_ensureAliasWithin _ hs h

/-! ## Types -/

theorem written_typeOfSymbol (hs : s.Sound) (h : (typeOfSymbol id).Gives settings s type s') :
    s.Calm s' ∧ s'.tables.Written type := written_typeOfSymbolWith resolves_ensureAlias hs h

theorem written_lowerType (hs : s.Sound) {e : TypeExpr}
    (h : (lowerType e).Gives settings s type s') : s.Calm s' ∧ s'.tables.Written type :=
  written_lowerWith resolves_ensureAlias e hs h

theorem settled_lowerOptional (hs : s.Sound) {e : Option TypeExpr} {found : Option TypeId}
    (h : (lowerOptional e).Gives settings s found s') :
    s.Calm s' ∧ ∀ type, found = some type → s'.tables.types.Settled type := by
  cases e with
  | none =>
      obtain ⟨rfl, rfl⟩ := gives_pure.mp h
      exact ⟨.refl hs, by simp⟩
  | some e =>
      simp only [lowerOptional, gives_bind, gives_pure] at h
      obtain ⟨type, _, hlower, rfl, rfl⟩ := h
      obtain ⟨hcalm, hwritten⟩ := written_lowerType hs hlower
      exact ⟨hcalm, fun type' heq => Option.some.inj heq ▸ hwritten.1⟩

theorem settled_lowerSignature (params : List Param) (hs : s.Sound) {types : List ExprType}
    (h : (lowerSignature params).Gives settings s types s') :
    s.Calm s' ∧ ∀ type ∈ types, s'.tables.types.Settled type.type := by
  induction params generalizing s types with
  | nil =>
      obtain ⟨rfl, rfl⟩ := gives_pure.mp h
      exact ⟨.refl hs, by simp⟩
  | cons param rest ih =>
      simp only [lowerSignature, gives_bind, gives_pure] at h
      obtain ⟨type, s₁, hlower, rest', _, hrest, rfl, rfl⟩ := h
      obtain ⟨hcalm, hwritten⟩ := written_lowerType hs hlower
      obtain ⟨hcalm', hsettled⟩ := ih hcalm.sound hrest
      refine ⟨hcalm.trans hcalm', fun type' htype' => ?_⟩
      rcases List.mem_cons.mp htype' with rfl | htype'
      · exact hwritten.1.mono hcalm'.tables.types
      · exact hsettled type' htype'

end Check

end Stela
