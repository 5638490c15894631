import Stela.Proofs.Types.Acyclic
import Stela.Proofs.Types.Nesting
import Stela.Proofs.Types.Reading

/-!
# Enclosed tables

Tables are enclosed if what their entries refer to is there: the symbols that
types are named after, the fields of structs, and the parts of types. What ends in
such tables is then read to its end: the walk along a chain of aliases, the text
of a type, and the comparison of two types.
-/

namespace Stela

/-- The symbol that a type is named after. -/
def Ty.named? : Ty → Option SymbolId
  | .structType symbol | .enumType symbol | .hostType symbol | .aliasType symbol | .pending symbol =>
    some symbol
  | .builtin _ | .array _ | .func .. => none

/-- The symbols that a struct lists as its fields. -/
def SymbolKind.fields : SymbolKind → List SymbolId
  | .structType info => info.fields
  | _ => []

/-- The types of a field, of the fields of a host type, and that an alias stands for. -/
def SymbolKind.types : SymbolKind → List TypeId
  | .field info => [info.type]
  | .hostType info => info.fields.map HostSlot.type
  | .aliasType info => info.target?.toList
  | _ => []

namespace Tables

variable {t : Tables} {type a b : TypeId} {strong : Bool}

/-- The symbols that types are named after are there. -/
def NamesKnown (t : Tables) : Prop :=
  ∀ type ty symbol, t.types.get? type = some ty → ty.named? = some symbol → symbol < t.symbols.size

/-- What the entries of the tables refer to is there. -/
structure Enclosed (t : Tables) : Prop where
  names : t.NamesKnown
  fields : ∀ id info field, t.symbols.kind? id = some (.structType info) → field ∈ info.fields →
    field < t.symbols.size
  parts : ∀ a b, t.Part a b → b < t.types.size

theorem part_of_mem_parts {ty : Ty} (hty : t.types.get? a = some ty) (hb : b ∈ ty.parts) : t.Part a b := by
  cases ty with
  | array element =>
      obtain rfl := List.mem_singleton.mp hb
      exact .element hty
  | func params ret =>
      rcases List.mem_append.mp hb with hb | hb
      · obtain ⟨param, hparam, rfl⟩ := List.mem_map.mp hb
        exact .param hty hparam
      · obtain rfl := List.mem_singleton.mp hb
        exact .ret hty
  | _ => cases hb

/-- Tables are enclosed if what each entry refers to is there. -/
theorem enclosed_of_forall
    (htypes : ∀ type < t.types.size, ∀ ty ∈ t.types.get? type,
      (∀ symbol ∈ ty.named?, symbol < t.symbols.size) ∧ ∀ part ∈ ty.parts, part < t.types.size)
    (hsymbols : ∀ id < t.symbols.size, ∀ kind ∈ t.symbols.kind? id,
      (∀ field ∈ kind.fields, field < t.symbols.size) ∧ ∀ type ∈ kind.types, type < t.types.size) :
    t.Enclosed := by
  have htype {type : TypeId} {ty : Ty} (h : t.types.get? type = some ty) :=
    htypes type (TypeTable.lt_size_of_get? h) ty h
  have hkind {id : SymbolId} {kind : SymbolKind} (h : t.symbols.kind? id = some kind) :=
    hsymbols id (SymbolTable.lt_size_of_kind? h) kind h
  refine ⟨fun type ty symbol h hnamed => (htype h).1 symbol hnamed,
    fun id info field h hfield => (hkind h).1 field hfield, fun a b hpart => ?_⟩
  cases hpart with
  | element h => exact (htype h).2 _ (by simp [Ty.parts])
  | param h hp => exact (htype h).2 _ (List.mem_append_left _ (List.mem_map_of_mem hp))
  | ret h => exact (htype h).2 _ (by simp [Ty.parts])
  | field _ _ _ hfield => exact (hkind hfield).2 _ (by simp [SymbolKind.types])
  | slot _ hsymbol hslot => exact (hkind hsymbol).2 _ (List.mem_map_of_mem hslot)
  | target _ hsymbol htarget =>
      exact (hkind hsymbol).2 _ (by simp [SymbolKind.types, AliasInfo.target?, htarget])

/-! ## Lists of values that are all there -/

/-- Partial functions that from some bound on have one value for each element have one for the list. -/
theorem exists_mapM_of_bound {α β : Type} {f : Nat → α → Option β} {n : Nat} {xs : List α}
    (h : ∀ x ∈ xs, ∃ y, ∀ m ≥ n, f m x = some y) : ∃ ys, ∀ m ≥ n, xs.mapM (f m) = some ys := by
  induction xs with
  | nil => exact ⟨[], fun _ _ => rfl⟩
  | cons x xs ih =>
      obtain ⟨y, hy⟩ := h x List.mem_cons_self
      obtain ⟨ys, hys⟩ := ih fun x' hx' => h x' (List.mem_cons_of_mem x hx')
      exact ⟨y :: ys, fun m hm => by simp [List.mapM_cons, hy m hm, hys m hm]⟩

theorem exists_allM {α : Type} {f : α → Option Bool} {xs : List α}
    (h : ∀ x ∈ xs, ∃ r, f x = some r) : ∃ r, xs.allM f = some r := by
  induction xs with
  | nil => exact ⟨true, rfl⟩
  | cons x xs ih =>
      obtain ⟨r, hr⟩ := h x List.mem_cons_self
      rw [List.allM, hr]
      cases r with
      | false => exact ⟨false, rfl⟩
      | true => exact ih fun x' hx' => h x' (List.mem_cons_of_mem x hx')

theorem exists_pairwise? {α β : Type} {f : α → β → Option Bool} {xs : List α} {ys : List β}
    (h : ∀ x ∈ xs, ∀ y ∈ ys, ∃ r, f x y = some r) : ∃ r, pairwise? f xs ys = some r := by
  unfold pairwise?
  split
  · exact exists_allM fun p hp => h p.1 (List.of_mem_zip hp).1 p.2 (List.of_mem_zip hp).2
  · exact ⟨false, rfl⟩

/-! ## Walks and texts -/

theorem exists_type (h : type < t.types.size) : ∃ ty, t.types.get? type = some ty :=
  ⟨_, Array.getElem?_eq_getElem h⟩

theorem exists_symbol {id : SymbolId} (h : id < t.symbols.size) : ∃ entry, t.symbols.get? id = some entry :=
  ⟨_, Array.getElem?_eq_getElem h⟩

/-- A walk that may take as many steps as there are types on its way comes to its end. -/
theorem exists_unwrap? (h : t.AliasesEnd strong) (hnames : t.NamesKnown)
    (htargets : ∀ a b, t.AliasStep strong a b → b < t.types.size) (htype : type < t.types.size)
    {bound : Nat} (hbound : (reached (t.AliasStep strong) t.types.size type).card ≤ bound) :
    ∃ last < t.types.size, t.unwrap? strong bound type = some last := by
  induction bound generalizing type with
  | zero =>
      have hself := mem_reached.mpr ⟨htype, Relation.ReflTransGen.refl (r := t.AliasStep strong)⟩
      rw [Finset.card_eq_zero.mp (Nat.le_zero.mp hbound)] at hself
      exact absurd hself (Finset.notMem_empty _)
  | succ bound ih =>
      obtain ⟨ty, hty⟩ := exists_type htype
      rw [unwrap?, hty]
      cases ty with
      | aliasType symbol =>
          obtain ⟨entry, hentry⟩ := exists_symbol (hnames _ _ symbol hty rfl)
          simp only [Option.bind_eq_bind, Option.bind_some, hentry]
          split
          · next target htarget =>
            have step : t.AliasStep strong type target := htarget
            have hless := card_reached_lt htype (h.not_transGen_self type) (.single step)
            exact ih (htargets _ _ step) (Nat.le_of_lt_succ (hless.trans_le hbound))
          · exact ⟨type, htype, rfl⟩
      | _ => exact ⟨type, htype, rfl⟩

/-- The text of a type is the same for every bound above its number. -/
theorem exists_textWithin? (hordered : t.types.Ordered) (hnames : t.NamesKnown)
    (htype : type < t.types.size) : ∃ text, ∀ bound > type, t.textWithin? bound type = some text := by
  induction type using Nat.strong_induction_on with
  | h type ih =>
      obtain ⟨ty, hty⟩ := exists_type htype
      have hpart (part : TypeId) (hpart : part ∈ ty.parts) :
          ∃ text, ∀ bound ≥ type, t.textWithin? bound part = some text := by
        have hlt := hordered type ty hty part hpart
        obtain ⟨text, htext⟩ := ih part hlt (hlt.trans htype)
        exact ⟨text, fun bound hbound => htext bound (hlt.trans_le hbound)⟩
      have hname (symbol : SymbolId) (h : ty.named? = some symbol) :
          ∃ entry, t.symbols.get? symbol = some entry := exists_symbol (hnames type ty symbol hty h)
      suffices h : ∃ text, ∀ bound ≥ type, t.textWithin? (bound + 1) type = some text by
        obtain ⟨text, htext⟩ := h
        refine ⟨text, fun bound hbound => ?_⟩
        obtain ⟨bound, rfl⟩ := Nat.exists_eq_add_one.mpr (Nat.zero_lt_of_lt hbound)
        exact htext bound (Nat.le_of_lt_succ hbound)
      cases ty <;> simp only [textWithin?, hty, Option.bind_eq_bind, Option.bind_some]
      case builtin kind => exact ⟨kind.name, fun _ _ => rfl⟩
      case array element =>
        obtain ⟨text, htext⟩ := hpart element (by simp [Ty.parts])
        exact ⟨_, fun bound hbound => by rw [htext bound hbound]; rfl⟩
      case func params ret =>
        obtain ⟨text, htext⟩ := hpart ret (by simp [Ty.parts])
        obtain ⟨texts, htexts⟩ := exists_mapM_of_bound (n := type)
          (f := fun bound param => (t.textWithin? bound param.2).map param.1.label)
          fun param (hparam : param ∈ params) => by
          obtain ⟨text, htext⟩ := hpart param.2 (List.mem_append_left _ (List.mem_map_of_mem hparam))
          exact ⟨_, fun bound hbound => by rw [htext bound hbound]; rfl⟩
        exact ⟨_, fun bound hbound => by rw [htexts bound hbound, htext bound hbound]; rfl⟩
      all_goals
        obtain ⟨entry, hentry⟩ := hname _ rfl
        exact ⟨_, fun _ _ => by rw [hentry]; rfl⟩

theorem exists_text? (hordered : t.types.Ordered) (hnames : t.NamesKnown) (htype : type < t.types.size) :
    ∃ text, t.text? type = some text :=
  (exists_textWithin? hordered hnames htype).imp fun _ htext => htext _ htype

namespace Enclosed

variable (he : t.Enclosed)
include he

theorem target_lt (h : t.AliasStep strong a b) : b < t.types.size := by
  obtain ⟨symbol, info, htype, hsymbol, htarget⟩ := exists_of_aliasTarget? h
  exact he.parts a b (.target htype hsymbol htarget)

theorem exists_unwrap? (h : t.AliasesEnd strong) (htype : type < t.types.size) :
    ∃ last < t.types.size, t.unwrap? strong t.types.size type = some last :=
  Tables.exists_unwrap? h he.names (fun _ _ => he.target_lt) htype (card_reached_le _ _ _)

theorem concrete?_eq (h : t.AliasesEnd false) (htype : type < t.types.size) :
    t.concrete? type = some (t.concrete type) := by
  obtain ⟨last, -, hlast⟩ := he.exists_unwrap? h htype
  rw [concrete, unwrap_of_unwrap? hlast]
  exact hlast

theorem representation?_eq (h : t.AliasesEnd true) (htype : type < t.types.size) :
    t.representation? type = some (t.representation type) := by
  obtain ⟨last, -, hlast⟩ := he.exists_unwrap? h htype
  rw [representation, unwrap_of_unwrap? hlast]
  exact hlast

theorem unwrap_lt (h : t.AliasesEnd strong) (htype : type < t.types.size) :
    t.unwrap strong t.types.size type < t.types.size := by
  obtain ⟨last, hlt, hlast⟩ := he.exists_unwrap? h htype
  rwa [unwrap_of_unwrap? hlast]

/-! ## Comparisons -/

theorem exists_kind? {ty : Ty} {symbol : SymbolId} (hty : t.types.get? type = some ty)
    (h : ty.named? = some symbol) : ∃ kind, t.symbols.kind? symbol = some kind := by
  obtain ⟨entry, hentry⟩ := exists_symbol (he.names type ty symbol hty h)
  exact ⟨entry.kind, by rw [SymbolTable.kind?, hentry, Option.map_some]⟩

/-- The symbols that a struct lists are there, and the types of its fields too. -/
theorem exists_fields? {symbol : SymbolId} (hty : t.types.get? type = some (.structType symbol)) :
    ∃ fields, t.fields? symbol = some fields ∧ ∀ field ∈ fields, ∃ entry,
      t.symbols.get? field = some entry ∧ ∀ info, entry.kind = .field info → info.type < t.types.size := by
  obtain ⟨kind, hkind⟩ := he.exists_kind? hty rfl
  unfold fields?
  rw [hkind]
  refine ⟨_, rfl, fun field hmem => ?_⟩
  dsimp only at hmem
  split at hmem
  · next info =>
    obtain ⟨entry, hentry⟩ := exists_symbol (he.fields symbol info field hkind hmem)
    refine ⟨entry, hentry, fun fieldInfo hfield => he.parts _ _ (.field hty hkind hmem ?_)⟩
    rw [SymbolTable.kind?, hentry, Option.map_some, hfield]
  · cases hmem

/-- Two types are compared if their parts are. -/
theorem exists_shapesAlike? {compare : TypeId → TypeId → Option Bool} (ha : a < t.types.size)
    (hb : b < t.types.size)
    (hcompare : ∀ x < t.types.size, ∀ y < t.types.size, ∃ r, compare x y = some r) :
    ∃ r, t.shapesAlike? compare a b = some r := by
  obtain ⟨tyA, htyA⟩ := exists_type ha
  obtain ⟨tyB, htyB⟩ := exists_type hb
  have hite {c : Bool} {x y : TypeId} (hx : x < t.types.size) (hy : y < t.types.size) :
      ∃ r, (if c then compare x y else some false) = some r := by
    split
    · exact hcompare x hx y hy
    · exact ⟨false, rfl⟩
  unfold shapesAlike?
  simp only [htyA, htyB, Option.bind_eq_bind, Option.bind_some]
  split
  · exact hcompare _ (he.parts _ _ (.element htyA)) _ (he.parts _ _ (.element htyB))
  · next params ret params' ret' =>
    obtain ⟨r, hr⟩ := exists_pairwise?
      (f := fun p q => if p.1 == q.1 then compare p.2 q.2 else some false)
      fun p (hp : p ∈ params) q (hq : q ∈ params') =>
        hite (he.parts _ _ (.param htyA hp)) (he.parts _ _ (.param htyB hq))
    rw [hr, Option.bind_some]
    exact hite (he.parts _ _ (.ret htyA)) (he.parts _ _ (.ret htyB))
  · obtain ⟨fields, hfields, hinA⟩ := he.exists_fields? htyA
    obtain ⟨fields', hfields', hinB⟩ := he.exists_fields? htyB
    rw [hfields, hfields', Option.bind_some, Option.bind_some]
    refine exists_pairwise? fun f hf g hg => ?_
    obtain ⟨entry, hentry, htype⟩ := hinA f hf
    obtain ⟨entry', hentry', htype'⟩ := hinB g hg
    rw [hentry, hentry', Option.bind_some, Option.bind_some]
    split
    · next info info' hkind hkind' => exact hite (htype info hkind) (htype' info' hkind')
    · exact ⟨false, rfl⟩
  · obtain ⟨kind, hkind⟩ := he.exists_kind? htyA rfl
    obtain ⟨kind', hkind'⟩ := he.exists_kind? htyB rfl
    rw [hkind, hkind', Option.bind_some, Option.bind_some]
    split
    · next info info' =>
      split
      · exact exists_pairwise? fun f hf g hg =>
          hite (he.parts _ _ (.slot htyA hkind hf)) (he.parts _ _ (.slot htyB hkind' hg))
      · exact ⟨false, rfl⟩
    · exact ⟨false, rfl⟩
  · exact ⟨false, rfl⟩

/-- A comparison that may follow every pair not assumed yet comes to its end. -/
theorem exists_sameUnder? (h : t.AliasesEnd false) {bound : Nat} {assumed : List (TypeId × TypeId)}
    (ha : a < t.types.size) (hb : b < t.types.size) (hbound : (t.unassumed assumed).card < bound) :
    ∃ r, t.sameUnder? bound assumed a b = some r := by
  induction bound generalizing assumed a b with
  | zero => exact absurd hbound (Nat.not_lt_zero _)
  | succ bound ih =>
      rw [sameUnder?, he.concrete?_eq h ha, he.concrete?_eq h hb]
      simp only [Option.bind_eq_bind, Option.bind_some]
      split
      · exact ⟨true, rfl⟩
      · next hnew =>
        have ha' : t.concrete a < t.types.size := he.unwrap_lt h ha
        have hb' : t.concrete b < t.types.size := he.unwrap_lt h hb
        have hmem : (t.concrete a, t.concrete b) ∉ assumed := by simp_all
        have hless := card_unassumed_cons_lt ha' hb' hmem
        exact he.exists_shapesAlike? ha' hb' fun x hx y hy => ih hx hy (by omega)

theorem exists_same? (h : t.AliasesEnd false) (ha : a < t.types.size) (hb : b < t.types.size) :
    ∃ r, t.same? a b = some r :=
  he.exists_sameUnder? h ha hb (Nat.lt_succ_of_le (card_unassumed_le t []))

end Enclosed

end Tables

end Stela
