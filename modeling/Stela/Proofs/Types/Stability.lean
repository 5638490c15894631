import Stela.Proofs.Types.Interchange
import Stela.Proofs.Types.Growth
import Stela.Proofs.Types.Reading
import Stela.Check.Overload

/-!
# Stability of type equality

What is found about types in some tables holds in all tables that contain them.
A type whose parts are not there yet, such as an alias without a target, is
equal to itself only, so that nothing is lost when its parts are found. Once
every alias has its target, types that differ stay different too.
-/

namespace Stela.Tables

variable {t t' : Tables} {strong : Bool} {a b : TypeId}

/-! ## Chains of aliases in sound tables -/

/-- One step along an alias leads from the type of an alias symbol to its target. -/
theorem aliasStep_inv (h : t.AliasStep strong a b) :
    ∃ symbol info, t.types.get? a = some (.aliasType symbol) ∧
      t.symbols.kind? symbol = some (.aliasType info) ∧ info.target = .resolved b ∧
      (info.strong && !strong) = false := by
  unfold AliasStep aliasTarget? at h
  split at h
  · next symbol htype =>
    split at h
    · next info hsymbol =>
      split at h
      · simp at h
      · next hweak =>
        refine ⟨symbol, info, htype, hsymbol, ?_, by simpa using hweak⟩
        unfold AliasInfo.target? at h
        split at h
        · next htarget => rw [htarget, Option.some.inj h]
        · simp at h
    · simp at h
  · simp at h

theorem aliasStep_of {symbol : SymbolId} {info : AliasInfo}
    (htype : t.types.get? a = some (.aliasType symbol))
    (hsymbol : t.symbols.kind? symbol = some (.aliasType info)) (htarget : info.target = .resolved b)
    (hweak : (info.strong && !strong) = false) : t.AliasStep strong a b := by
  simp [AliasStep, aliasTarget?, htype, hsymbol, hweak, AliasInfo.target?, htarget]

/-- The chain of aliases from a type that is resolved down to the end is finite. -/
theorem Grounded.acc (h : t.Grounded a) :
    Acc (fun target type => t.AliasStep strong type target) a := by
  induction h with
  | plain htype hplain =>
      refine ⟨_, fun target hstep => ?_⟩
      obtain ⟨symbol, info, htype', -⟩ := aliasStep_inv hstep
      rw [htype] at htype'
      exact absurd (Option.some.inj htype') (hplain symbol)
  | resolved htype hsymbol htarget _ ih =>
      refine ⟨_, fun target hstep => ?_⟩
      obtain ⟨symbol', info', htype', hsymbol', htarget', -⟩ := aliasStep_inv hstep
      obtain rfl := Ty.aliasType.inj (Option.some.inj (htype.symm.trans htype'))
      obtain rfl := SymbolKind.aliasType.inj (Option.some.inj (hsymbol.symm.trans hsymbol'))
      obtain rfl := AliasTarget.resolved.inj (htarget.symm.trans htarget')
      exact ih

/-- Sound tables have no alias cycle: a target is noted once it is resolved itself. -/
theorem Sound.aliasesEnd (h : t.Sound) (strong : Bool) : t.AliasesEnd strong := by
  refine ⟨fun a => ⟨_, fun b hstep => ?_⟩⟩
  obtain ⟨symbol, info, -, hsymbol, htarget, -⟩ := aliasStep_inv hstep
  exact ((h.kinds _ _ hsymbol).2 _ htarget).2.acc

/-- A type of another sort is no alias. -/
theorem concrete_of_plain {ty : Ty} (htype : t.types.get? a = some ty)
    (hplain : ∀ symbol, ty ≠ .aliasType symbol) : t.concrete a = a := by
  refine concrete_eq_self ?_
  by_contra hne
  obtain ⟨target, htarget⟩ := Option.ne_none_iff_exists'.mp hne
  obtain ⟨symbol, -, halias, -⟩ := aliasStep_inv htarget
  exact hplain symbol (Option.some.inj (htype.symm.trans halias))

theorem concreteTy?_of_plain {ty : Ty} (htype : t.types.get? a = some ty)
    (hplain : ∀ symbol, ty ≠ .aliasType symbol) : t.concreteTy? a = some ty := by
  rw [concreteTy?, concrete_of_plain htype hplain, htype]

theorem AliasStep.of_contained (h : t.AliasStep strong a b) (hc : t.Contained t') :
    t'.AliasStep strong a b := by
  obtain ⟨symbol, info, htype, hsymbol, htarget, hweak⟩ := aliasStep_inv h
  obtain ⟨info', hsymbol', hbecomes⟩ := hc.aliasType hsymbol
  exact aliasStep_of (hc.types _ _ htype) hsymbol' (hbecomes.resolved htarget)
    (hbecomes.strong ▸ hweak)

/-- The chain of weak aliases goes on from where it ended before. -/
theorem concrete_of_contained (hs : t.Sound) (hs' : t'.Sound) (hc : t.Contained t') (a : TypeId) :
    t'.concrete a = t'.concrete (t.concrete a) := by
  have hchain := Relation.ReflTransGen.mono (fun _ _ (h : t.AliasStep false _ _) => h.of_contained hc) _ _
    (unwraps_concrete (hs.aliasesEnd false) a).1
  have hend := unwraps_concrete (hs'.aliasesEnd false) (t.concrete a)
  exact (unwraps_concrete (hs'.aliasesEnd false) a).unique ⟨hchain.trans hend.1, hend.2⟩

/-- A type that is known behind its aliases is the same behind them later. -/
theorem concreteTy?_of_contained (hs : t.Sound) (hs' : t'.Sound) (hc : t.Contained t') {ty : Ty}
    (h : t.concreteTy? a = some ty) (hplain : ∀ symbol, ty ≠ .aliasType symbol) :
    t'.concreteTy? a = some ty := by
  have htype := hc.types _ _ h
  rw [concreteTy?, concrete_of_contained hs hs' hc, concrete_of_plain htype hplain, htype]

theorem isVoid_of_contained (hs : t.Sound) (hs' : t'.Sound) (hc : t.Contained t')
    (h : t.isVoid a = true) : t'.isVoid a = true := by
  have hvoid : t.concrete a = Builtin.void.typeId := eq_of_beq h
  rw [isVoid, concrete_of_contained hs hs' hc, hvoid,
    concrete_of_plain (hs'.types.builtin .void) (by simp)]
  exact beq_self_eq_true _

/-! ## Walks along aliases -/

/-- Types and symbols that were there are there, and the aliases are what they were. -/
structure Maintains (t t' : Tables) : Prop where
  types : t.types.Within t'.types
  symbols : ∀ id, (t.symbols.get? id).isSome → (t'.symbols.get? id).isSome
  aliases : ∀ id info,
    t'.symbols.kind? id = some (.aliasType info) ↔ t.symbols.kind? id = some (.aliasType info)

theorem Maintains.trans {t'' : Tables} (h : t.Maintains t') (h' : t'.Maintains t'') : t.Maintains t'' :=
  ⟨h.types.trans h'.types, fun id hid => h'.symbols id (h.symbols id hid),
    fun id info => (h'.aliases id info).trans (h.aliases id info)⟩

theorem maintains_of_eq (htypes : t.types.Within t'.types) (hsymbols : t'.symbols = t.symbols) :
    t.Maintains t' := ⟨htypes, fun _ hid => hsymbols ▸ hid, fun _ _ => by rw [hsymbols]⟩

/-- A change of the details of one symbol that leaves aliases alone. -/
theorem maintains_modifyKind {id : SymbolId} {f : SymbolKind → SymbolKind}
    (hf : ∀ kind info, f kind = .aliasType info ↔ kind = .aliasType info) :
    t.Maintains { t with symbols := t.symbols.modifyKind id f } where
  types := .refl _
  symbols other hother := by
    simp only [SymbolTable.modifyKind, SymbolTable.modify, SymbolTable.get?, Array.getElem?_modify] at hother ⊢
    split <;> simpa using hother
  aliases other info := by
    rw [SymbolTable.kind?_modifyKind]
    split
    · simp [Option.map_eq_some_iff, hf]
    · rfl

/-- An alias leads where it led before. -/
theorem Maintains.aliasTarget?_eq (h : t.Maintains t') {ty : Ty} (hty : t.types.get? a = some ty) :
    t'.aliasTarget? strong a = t.aliasTarget? strong a := by
  have hty' := h.types _ _ hty
  refine Option.ext fun b => ⟨fun hstep => ?_, fun hstep => ?_⟩
  · obtain ⟨symbol, info, htype, hsymbol, htarget, hweak⟩ := aliasStep_inv hstep
    rw [hty'] at htype
    exact aliasStep_of (hty.trans htype) ((h.aliases symbol info).mp hsymbol) htarget hweak
  · obtain ⟨symbol, info, htype, hsymbol, htarget, hweak⟩ := aliasStep_inv hstep
    rw [hty] at htype
    exact aliasStep_of (hty'.trans htype) ((h.aliases symbol info).mpr hsymbol) htarget hweak

/-- A walk that came to its end comes to the same end later. -/
theorem Maintains.unwrap? (h : t.Maintains t') {bound bound' : Nat} {last : TypeId}
    (hle : bound ≤ bound') (hlast : t.unwrap? strong bound a = some last) :
    t'.unwrap? strong bound' a = some last := by
  induction bound generalizing a bound' with
  | zero => cases hlast
  | succ bound ih =>
      obtain ⟨bound', rfl⟩ := Nat.exists_eq_add_one.mpr (Nat.zero_lt_of_lt hle)
      rw [Tables.unwrap?] at hlast ⊢
      obtain ⟨ty, hty, hlast⟩ := Option.bind_eq_some_iff.mp hlast
      rw [h.types _ _ hty, h.aliasTarget?_eq hty]
      simp only [Option.bind_eq_bind, Option.bind_some]
      split at hlast
      · next symbol =>
        obtain ⟨entry, hentry, hlast⟩ := Option.bind_eq_some_iff.mp hlast
        obtain ⟨entry', hentry'⟩ :=
          Option.isSome_iff_exists.mp (h.symbols symbol (Option.isSome_of_mem hentry))
        simp only [hentry', Option.bind_some]
        split at hlast
        · exact ih (Nat.le_of_succ_le_succ hle) hlast
        · exact hlast
      · exact hlast

/-- A type that is seen to be `void` stays so. -/
theorem Maintains.isVoid (h : t.Maintains t') (hread : (t.concrete? a).isSome) (hvoid : t.isVoid a = true) :
    t'.isVoid a = true := by
  obtain ⟨last, hlast⟩ := Option.isSome_iff_exists.mp hread
  have hlast' : t'.concrete? a = some last := h.unwrap? h.types.size_le hlast
  rw [Tables.isVoid, (concrete?_eq_some_iff.mp hlast).2] at hvoid
  rwa [Tables.isVoid, (concrete?_eq_some_iff.mp hlast').2]

/-! ## Shapes -/

/-- Every symbol is there later, with its details as far as they were known. -/
theorem Contained.symbol_of_lt (hc : t.Contained t') {id : SymbolId} (hlt : id < t.symbols.size) :
    ∃ kind kind', t.symbols.kind? id = some kind ∧ t'.symbols.kind? id = some kind' ∧
      kind.Becomes kind' ∧ t'.symbols.name id = t.symbols.name id := by
  have hkind := SymbolTable.kind?_of_get? (Array.getElem?_eq_getElem hlt)
  obtain ⟨⟨kind', hkind', hbecomes⟩, hname⟩ := hc.symbols id _ hkind
  exact ⟨_, kind', hkind, hkind', hbecomes, hname⟩

/-- What is no field does not become one. -/
theorem field?_eq_of_contained (hc : t.Contained t') {field : SymbolId}
    (hlt : field < t.symbols.size) : t'.symbols.field? field = t.symbols.field? field := by
  obtain ⟨kind, kind', hkind, hkind', hbecomes, -⟩ := hc.symbol_of_lt hlt
  unfold SymbolTable.field?
  rw [hkind, hkind']
  cases hbecomes <;> rfl

theorem structFields?_eq_of_contained (hs : t.Sound) (hc : t.Contained t') {symbol : SymbolId}
    (hlt : symbol < t.symbols.size) : t'.structFields? symbol = t.structFields? symbol := by
  obtain ⟨kind, kind', hkind, hkind', hbecomes, -⟩ := hc.symbol_of_lt hlt
  have hsound := hs.kinds symbol kind hkind
  unfold structFields?
  rw [hkind, hkind']
  cases hbecomes with
  | refl =>
      cases kind with
      | structType info =>
          have hsizes := hsound.2
          dsimp only
          generalize info.fields = fields at hsizes
          induction fields with
          | nil => rfl
          | cons field rest ih =>
              obtain ⟨-, -, -, -, -, hname⟩ := hc.symbol_of_lt (hsizes field (by simp))
              rw [List.mapM_cons, List.mapM_cons,
                field?_eq_of_contained hc (hsizes field (by simp)), hname,
                ih fun field hmem => hsizes field (List.mem_cons_of_mem _ hmem)]
      | _ => rfl
  | _ => rfl

theorem shape_eq_of_contained (hs : t.Sound) (hc : t.Contained t') (ha : t.types.Known a) :
    t'.shape a = t.shape a := by
  obtain ⟨ty, htype, -⟩ := ha
  have hnamed := hs.named a ty
  unfold shape
  rw [htype, hc.types _ _ htype]
  cases ty with
  | structType symbol =>
      dsimp only
      rw [structFields?_eq_of_contained hs hc (hnamed symbol htype rfl)]
  | hostType symbol =>
      obtain ⟨kind, kind', hkind, hkind', hbecomes, -⟩ := hc.symbol_of_lt (hnamed symbol htype rfl)
      dsimp only
      rw [hkind, hkind']
      cases hbecomes <;> rfl
  | _ => rfl

/-- The shape of a type stays the same unless the type was equal to itself only. -/
theorem shape_of_contained (hs : t.Sound) (hc : t.Contained t') (a : TypeId) :
    t.shape a = ⟨.nominal a, []⟩ ∨
      t'.shape a = t.shape a ∧ t'.aliasTarget? false a = none := by
  have hkept {ty : Ty} (h : t.types.get? a = some ty) (hpending : ∀ func, ty ≠ .pending func)
      (hplain : ∀ symbol, ty ≠ .aliasType symbol) :
      t'.shape a = t.shape a ∧ t'.aliasTarget? false a = none := by
    refine ⟨shape_eq_of_contained hs hc ⟨ty, h, hpending⟩, ?_⟩
    unfold aliasTarget?
    split
    · next symbol halias => exact absurd (Option.some.inj ((hc.types _ _ h).symm.trans halias)) (hplain _)
    · rfl
  have hshaped := shaped_shape t a
  generalize hshape : t.shape a = shape at hshaped hkept
  cases hshaped with
  | nominal => exact .inl rfl
  | array h => exact .inr (hkept h (by simp) (by simp))
  | func h => exact .inr (hkept h (by simp) (by simp))
  | structType h _ => exact .inr (hkept h (by simp) (by simp))
  | hostType h _ => exact .inr (hkept h (by simp) (by simp))

/-- A type with the head of one that is equal to itself only is that type. -/
theorem eq_of_nominal_head (ha : t.shape a = ⟨.nominal a, []⟩)
    (hhead : (t.shape a).head = (t.shape b).head) : a = b := by
  have hb := shaped_shape t b
  generalize t.shape b = shape at hb hhead
  rw [ha] at hhead
  cases hb with
  | nominal => exact TypeHead.nominal.inj hhead
  | _ => simp at hhead

/-! ## Equality -/

/-- Bisimilar types stay bisimilar. -/
theorem Bisimilar.of_contained (hs : t.Sound) (hs' : t'.Sound) (hc : t.Contained t')
    (h : t.Bisimilar a b) : t'.Bisimilar a b := by
  have hconcrete := concrete_of_contained hs hs' hc
  refine ⟨fun x y => t.Bisimilar x y ∨ t'.concrete x = t'.concrete y, ?_, .inl h⟩
  intro x y hxy c d hc' hd'
  obtain rfl := (unwraps_concrete (hs'.aliasesEnd false) x).unique hc'
  obtain rfl := (unwraps_concrete (hs'.aliasesEnd false) y).unique hd'
  rcases hxy with hbisimilar | heq
  · have hagree := hbisimilar.agree (unwraps_concrete (hs.aliasesEnd false) x)
      (unwraps_concrete (hs.aliasesEnd false) y)
    rw [hconcrete x, hconcrete y]
    rcases agree_iff.mp hagree with heq | ⟨hhead, hparts⟩
    · rw [heq]
      exact .refl _
    · rcases shape_of_contained hs hc (t.concrete x) with hnominal | ⟨hx, hplain⟩
      · rw [eq_of_nominal_head hnominal hhead]
        exact .refl _
      · rcases shape_of_contained hs hc (t.concrete y) with hnominal | ⟨hy, hplain'⟩
        · rw [eq_of_nominal_head hnominal hhead.symm]
          exact .refl _
        · rw [concrete_eq_self hplain, concrete_eq_self hplain']
          exact agree_iff.mpr (.inr ⟨by rw [hx, hy, hhead], by
            rw [hx, hy]
            exact hparts.imp fun _ _ => .inl⟩)
  · rw [heq]
    exact .refl _

/-- Types that compare equal still do so in tables that contain theirs. -/
theorem same_of_contained (hs : t.Sound) (hs' : t'.Sound) (hc : t.Contained t')
    (h : t.same a b = true) : t'.same a b = true :=
  (same_iff_bisimilar (hs'.aliasesEnd false)).mpr
    (((same_iff_bisimilar (hs.aliasesEnd false)).mp h).of_contained hs hs' hc)

/-- Arguments that are accepted stay accepted. -/
theorem accepts_of_contained (hs : t.Sound) (hs' : t'.Sound) (hc : t.Contained t')
    {params : List (RefKind × TypeId)} {args : List ExprType}
    (h : t.accepts params args = true) : t'.accepts params args = true := by
  simp only [accepts, Bool.and_eq_true, List.all_eq_true] at h ⊢
  exact ⟨h.1, fun p hp => ⟨(h.2 p hp).1, same_of_contained hs hs' hc (h.2 p hp).2⟩⟩

theorem Sound.same_refl (h : t.Sound) (a : TypeId) : t.same a a = true :=
  (same_iff_bisimilar (h.aliasesEnd false)).mpr (.refl t a)

theorem Sound.same_symm (h : t.Sound) (hab : t.same a b = true) : t.same b a = true :=
  (same_iff_bisimilar (h.aliasesEnd false)).mpr
    ((same_iff_bisimilar (h.aliasesEnd false)).mp hab).symm

theorem Sound.same_trans (h : t.Sound) {a b c : TypeId} (hab : t.same a b = true)
    (hbc : t.same b c = true) : t.same a c = true := by
  rw [same_iff_bisimilar (h.aliasesEnd false)] at hab hbc ⊢
  exact hab.trans (h.aliasesEnd false) hbc

/-- Placeholders are equal to themselves only. -/
theorem Sound.eq_of_same_pending (h : t.Sound) {func func' : SymbolId}
    (ha : t.types.get? a = some (.pending func)) (hb : t.types.get? b = some (.pending func'))
    (hab : t.same a b = true) : a = b := by
  have hends := h.aliasesEnd false
  have hagree := ((same_iff_bisimilar hends).mp hab).agree (unwraps_concrete hends a)
    (unwraps_concrete hends b)
  rw [concrete_of_plain ha (by simp), concrete_of_plain hb (by simp)] at hagree
  rcases agree_iff.mp hagree with heq | ⟨hhead, -⟩
  · exact heq
  · exact eq_of_nominal_head (by simp [shape, ha]) hhead

/-! ## Complete tables -/

/-- The chain of weak aliases ends where it ended before. -/
theorem concrete_eq_of_contained (hs : t.Sound) (hs' : t'.Sound) (hcomplete : t.Complete)
    (hc : t.Contained t') (ha : t.types.Settled a) : t'.concrete a = t.concrete a := by
  rw [concrete_of_contained hs hs' hc]
  refine concrete_eq_self (Option.eq_none_iff_forall_not_mem.mpr fun target hstep => ?_)
  have hstep : t'.AliasStep false (t.concrete a) target := hstep
  obtain ⟨symbol, info', htype, hsymbol', -, hweak⟩ := aliasStep_inv hstep
  rw [(hs.settled_concrete ha).1.get?_eq hc.types] at htype
  obtain ⟨kind, kind', hsymbol, hkind', hbecomes, -⟩ := hc.symbol_of_lt (hs.named _ _ symbol htype rfl)
  obtain rfl := Option.some.inj (hkind'.symm.trans hsymbol')
  obtain ⟨info, rfl⟩ := hbecomes.eq_aliasType
  obtain ⟨_, heq, hbecomes⟩ := hbecomes.aliasType_inv
  obtain rfl := SymbolKind.aliasType.inj heq
  -- The alias had a target before, so the chain did not end there.
  obtain ⟨before, hbefore⟩ := hcomplete symbol info hsymbol
  have hstep' := aliasStep_of htype hsymbol hbefore (hbecomes.strong ▸ hweak)
  rw [AliasStep, (unwraps_concrete (hs.aliasesEnd false) a).2] at hstep'
  cases hstep'

/-- The type has values: it was not `void` at a time when every alias had its target. -/
def HasValues (t : Tables) (a : TypeId) : Prop :=
  ∃ u : Tables, u.Sound ∧ u.Complete ∧ u.Contained t ∧ u.types.Settled a ∧ u.isVoid a = false

theorem HasValues.of_contained (h : t.HasValues a) (hc : t.Contained t') : t'.HasValues a := by
  obtain ⟨u, hsound, hcomplete, hcontained, hsettled, hvoid⟩ := h
  exact ⟨u, hsound, hcomplete, hcontained.trans hc, hsettled, hvoid⟩

theorem HasValues.settled (h : t.HasValues a) : t.types.Settled a := by
  obtain ⟨u, -, -, hcontained, hsettled, -⟩ := h
  exact hsettled.mono hcontained.types

/-- A type that has values does not become `void`. -/
theorem HasValues.isVoid_eq_false (h : t.HasValues a) (ht : t.Sound) : t.isVoid a = false := by
  obtain ⟨u, hsound, hcomplete, hcontained, hsettled, hvoid⟩ := h
  rwa [isVoid, concrete_eq_of_contained hsound ht hcomplete hcontained hsettled]

/-- The parts of a settled type are settled. -/
theorem Sound.settled_shape_parts (hs : t.Sound) (ha : t.types.Settled a) :
    ∀ b ∈ (t.shape a).parts, t.types.Settled b := by
  have hshaped := shaped_shape t a
  generalize t.shape a = shape at hshaped
  cases hshaped with
  | array h => simpa using hs.types.settled_element h
  | func h =>
      intro b hb
      simp only [List.mem_append, List.mem_map, List.mem_singleton] at hb
      rcases hb with ⟨p, hp, rfl⟩ | rfl
      · exact hs.types.settled_param h p hp
      · exact hs.types.settled_ret h (ha.2 _ _ h)
  | structType h hu =>
      intro b hb
      obtain ⟨field, hfield, rfl⟩ := List.mem_map.mp hb
      rw [← structFields_eq hu, structFields] at hfield
      split at hfield
      · obtain ⟨id, -, hid⟩ := List.mem_filterMap.mp hfield
        obtain ⟨info, hinfo, rfl⟩ := Option.map_eq_some_iff.mp hid
        exact hs.kinds id _ (SymbolTable.field?_eq_some.mp hinfo)
      · cases hfield
  | hostType h hu =>
      intro b hb
      obtain ⟨slot, hslot, rfl⟩ := List.mem_map.mp hb
      exact (hs.kinds _ _ hu).2 slot hslot
  | nominal => simp

/-- Settled types that are bisimilar later were so before. -/
theorem Bisimilar.of_containing (hs : t.Sound) (hs' : t'.Sound) (hcomplete : t.Complete)
    (hc : t.Contained t') (ha : t.types.Settled a) (hb : t.types.Settled b)
    (h : t'.Bisimilar a b) : t.Bisimilar a b := by
  refine ⟨fun x y => t.types.Settled x ∧ t.types.Settled y ∧ t'.Bisimilar x y, ?_, ha, hb, h⟩
  rintro x y ⟨hx, hy, hxy⟩ c d hxc hyd
  obtain rfl := (unwraps_concrete (hs.aliasesEnd false) x).unique hxc
  obtain rfl := (unwraps_concrete (hs.aliasesEnd false) y).unique hyd
  have hx' := hs.settled_concrete hx
  have hy' := hs.settled_concrete hy
  have hagree := hxy.agree (unwraps_concrete (hs'.aliasesEnd false) x)
    (unwraps_concrete (hs'.aliasesEnd false) y)
  rw [concrete_eq_of_contained hs hs' hcomplete hc hx,
    concrete_eq_of_contained hs hs' hcomplete hc hy, agree_iff,
    shape_eq_of_contained hs hc hx'.1, shape_eq_of_contained hs hc hy'.1] at hagree
  refine agree_iff.mpr (hagree.imp_right fun ⟨hhead, hparts⟩ => ⟨hhead, ?_⟩)
  refine List.forall₂_iff_zip.mpr ⟨hparts.length_eq, fun {u v} huv => ?_⟩
  have hmem := List.of_mem_zip huv
  exact ⟨hs.settled_shape_parts hx' u hmem.1, hs.settled_shape_parts hy' v hmem.2,
    List.forall₂_zip hparts huv⟩

/-- With every alias resolved, settled types compare as they do in larger tables. -/
theorem same_eq_of_contained (hs : t.Sound) (hs' : t'.Sound) (hcomplete : t.Complete)
    (hc : t.Contained t') (ha : t.types.Settled a) (hb : t.types.Settled b) :
    t'.same a b = t.same a b := by
  rw [Bool.eq_iff_iff, same_iff_bisimilar (hs'.aliasesEnd false),
    same_iff_bisimilar (hs.aliasesEnd false)]
  exact ⟨.of_containing hs hs' hcomplete hc ha hb, .of_contained hs hs' hc⟩

end Stela.Tables
