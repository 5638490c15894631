import Stela.Proofs.Types.Growth
import Stela.Proofs.Types.Interchange
import Mathlib.Algebra.Order.Floor.Div
import Mathlib.Order.Bounds.Basic
import Mathlib.Tactic.IntervalCases

/-!
# Layouts of structs are tight

The fields of a struct are placed in 64-bit arithmetic. As long as the struct
fits into 64 bits its layout is that of unbounded arithmetic: each field starts
at the least multiple of its alignment behind the field before it, and the
struct ends at the least multiple of the greatest alignment. The layout exists
for every struct that does not contain itself by value.
-/

namespace Stela

/-! ## Rounding up -/

/-- The least multiple of `align` that is not below `offset`. -/
def ceilTo (offset align : Nat) : Nat := align * (offset ⌈/⌉ align)

theorem isLeast_ceilTo {align : Nat} (halign : 1 ≤ align) (offset : Nat) :
    IsLeast {m | align ∣ m ∧ offset ≤ m} (ceilTo offset align) := by
  have hle : offset ≤ align • (offset ⌈/⌉ align) := le_smul_ceilDiv halign
  refine ⟨⟨Nat.dvd_mul_right _ _, hle⟩, ?_⟩
  rintro m ⟨⟨k, rfl⟩, hm⟩
  exact Nat.mul_le_mul_left _ ((ceilDiv_le_iff_le_mul halign).mpr hm)

theorem le_ceilTo {align : Nat} (halign : 1 ≤ align) (offset : Nat) :
    offset ≤ ceilTo offset align :=
  (isLeast_ceilTo halign offset).1.2

/-- Rounding up by quotient and remainder. -/
theorem ceilTo_eq {align : Nat} (halign : 1 ≤ align) (offset : Nat) :
    ceilTo offset align =
      (offset / align + if offset % align = 0 then 0 else 1) * align := by
  refine (isLeast_ceilTo halign offset).unique ⟨⟨Nat.dvd_mul_left _ _, ?_⟩, ?_⟩
  · have := Nat.div_add_mod' offset align
    have := Nat.mod_lt offset halign
    split <;> rw [Nat.add_mul] <;> omega
  · rintro m ⟨⟨k, rfl⟩, hle⟩
    rw [Nat.mul_comm align k]
    refine Nat.mul_le_mul_right _ ?_
    have hquot : offset / align ≤ k := Nat.div_le_of_le_mul hle
    split
    case isTrue => exact hquot
    case isFalse hrem =>
      refine Nat.lt_of_le_of_ne hquot fun heq => hrem ?_
      have := Nat.div_add_mod' offset align
      rw [heq, Nat.mul_comm] at this
      omega

/-- Rounding up in 64 bits is exact if the result fits. -/
theorem toNat_alignTo {offset align : UInt64} (halign : 1 ≤ align.toNat)
    (hfits : ceilTo offset.toNat align.toNat < 2 ^ 64) :
    (alignTo offset align).toNat = ceilTo offset.toNat align.toNat := by
  have hmax : max align 1 = align := by
    rw [← UInt64.toNat_inj, UInt64.toNat_max]
    exact max_eq_left halign
  have hrem : offset % align = 0 ↔ offset.toNat % align.toNat = 0 := by
    rw [← UInt64.toNat_inj]; simp
  have hcarry : (if offset % align = 0 then 0 else 1 : UInt64).toNat =
      if offset.toNat % align.toNat = 0 then 0 else 1 := by
    simp only [hrem]
    split <;> rfl
  rw [ceilTo_eq halign] at hfits ⊢
  have hquot : (offset.toNat / align.toNat + if offset.toNat % align.toNat = 0 then 0 else 1)
      < 2 ^ 64 := (Nat.le_mul_of_pos_right _ halign).trans_lt hfits
  simp only [alignTo, hmax, UInt64.toNat_mul, UInt64.toNat_add, UInt64.toNat_div, hcarry]
  rw [Nat.mod_eq_of_lt hquot, Nat.mod_eq_of_lt hfits]

/-! ## Fields in unbounded arithmetic -/

/-- Where a sequence of fields ends that starts at `offset`. -/
def exactEnd (offset : Nat) : List Layout → Nat
  | [] => offset
  | field :: rest => exactEnd (ceilTo offset field.align.toNat + field.size.toNat) rest

/-- The greatest alignment of some fields, 1 if there are none. -/
def maxAlign (fields : List Layout) : Nat :=
  (fields.map fun field => field.align.toNat).foldr max 1

/-- The size of a struct with these fields. -/
def exactSize (fields : List Layout) : Nat := ceilTo (exactEnd 0 fields) (maxAlign fields)

theorem le_exactEnd (fields : List Layout) (halign : ∀ field ∈ fields, 1 ≤ field.align.toNat)
    (offset : Nat) : offset ≤ exactEnd offset fields := by
  induction fields generalizing offset with
  | nil => exact le_rfl
  | cons field rest ih =>
      have := le_ceilTo (halign field (by simp)) offset
      have := ih (fun f hf => halign f (by simp [hf]))
        (ceilTo offset field.align.toNat + field.size.toNat)
      rw [exactEnd]
      omega

theorem one_le_maxAlign (fields : List Layout) : 1 ≤ maxAlign fields := by
  induction fields with
  | nil => exact le_rfl
  | cons field rest ih => exact ih.trans (le_max_right _ _)

theorem le_maxAlign {fields : List Layout} {field : Layout} (h : field ∈ fields) :
    field.align.toNat ≤ maxAlign fields := by
  induction fields with
  | nil => cases h
  | cons first rest ih =>
      rcases List.mem_cons.mp h with rfl | h
      · exact le_max_left _ _
      · exact (ih h).trans (le_max_right _ _)

/-- What holds of 1, of each alignment and of the greater of two holds of the greatest. -/
theorem maxAlign_induction {P : Nat → Prop} (hone : P 1) (hmax : ∀ a b, P a → P b → P (max a b))
    {fields : List Layout} (h : ∀ field ∈ fields, P field.align.toNat) : P (maxAlign fields) := by
  induction fields with
  | nil => exact hone
  | cons field rest ih => exact hmax _ _ (h field (by simp)) (ih fun f hf => h f (by simp [hf]))

/-! ## Fields in 64 bits -/

/-- Behind the last byte of a placed field. -/
def fieldEnd (field : UInt64 × Layout) : Nat := field.1.toNat + field.2.size.toNat

/-- `later` starts at the least multiple of its alignment behind `stop`. -/
def StartsBehind (stop : Nat) (later : UInt64 × Layout) : Prop :=
  IsLeast {m | later.2.align.toNat ∣ m ∧ stop ≤ m} later.1.toNat

variable {fields : List Layout} {offset : UInt64}

theorem map_snd_placeFields (offset : UInt64) (fields : List Layout) :
    (placeFields offset fields).map Prod.snd = fields := by
  induction fields generalizing offset with
  | nil => rfl
  | cons field rest ih => rw [placeFields, List.map_cons, ih]

/-- What the first of some fields that fit has to do with the rest. -/
theorem placeFields_cons {field : Layout} {rest : List Layout}
    (halign : ∀ f ∈ field :: rest, 1 ≤ f.align.toNat)
    (hfits : exactEnd offset.toNat (field :: rest) < 2 ^ 64) :
    ∃ start stop, placeFields offset (field :: rest) = (start, field) :: placeFields stop rest ∧
      start.toNat = ceilTo offset.toNat field.align.toNat ∧
      stop.toNat = fieldEnd (start, field) ∧
      exactEnd stop.toNat rest = exactEnd offset.toNat (field :: rest) := by
  have hrest := le_exactEnd rest (fun f hf => halign f (by simp [hf]))
    (ceilTo offset.toNat field.align.toNat + field.size.toNat)
  rw [exactEnd] at hfits
  have hstart : (alignTo offset field.align).toNat = ceilTo offset.toNat field.align.toNat :=
    toNat_alignTo (halign field (by simp)) (by omega)
  have hstop : (alignTo offset field.align + field.size).toNat =
      ceilTo offset.toNat field.align.toNat + field.size.toNat := by
    rw [UInt64.toNat_add, hstart, Nat.mod_eq_of_lt (by omega)]
  refine ⟨_, _, rfl, hstart, ?_, by rw [hstop, exactEnd]⟩
  rw [hstop, fieldEnd, hstart]

/-- Fields that fit start one behind the other, each as early as it may. -/
theorem isChain_placeFields (halign : ∀ f ∈ fields, 1 ≤ f.align.toNat)
    (hfits : exactEnd offset.toNat fields < 2 ^ 64) :
    (∀ first ∈ (placeFields offset fields).head?, StartsBehind offset.toNat first) ∧
      (placeFields offset fields).IsChain fun p q => StartsBehind (fieldEnd p) q := by
  induction fields generalizing offset with
  | nil => exact ⟨by simp [placeFields], .nil⟩
  | cons field rest ih =>
      obtain ⟨start, stop, hplace, hstart, hstop, hend⟩ := placeFields_cons halign hfits
      obtain ⟨hhead, hchain⟩ := @ih stop (fun f hf => halign f (by simp [hf]))
        (by rw [hend]; exact hfits)
      rw [hplace]
      refine ⟨?_, ?_⟩
      · rintro _ ⟨⟩
        rw [StartsBehind, hstart]
        exact isLeast_ceilTo (halign field (by simp)) _
      · rw [hstop] at hhead
        exact List.isChain_cons.mpr ⟨hhead, hchain⟩

/-- The last of some fields that fit ends where they end, and no field goes beyond. -/
theorem fieldEnd_placeFields (halign : ∀ f ∈ fields, 1 ≤ f.align.toNat)
    (hfits : exactEnd offset.toNat fields < 2 ^ 64) :
    ((placeFields offset fields).getLast?.map fieldEnd).getD offset.toNat =
        exactEnd offset.toNat fields ∧
      ∀ field ∈ placeFields offset fields, fieldEnd field ≤ exactEnd offset.toNat fields := by
  induction fields generalizing offset with
  | nil => exact ⟨rfl, by simp [placeFields]⟩
  | cons field rest ih =>
      obtain ⟨start, stop, hplace, hstart, hstop, hend⟩ := placeFields_cons halign hfits
      obtain ⟨hlast, hinside⟩ := @ih stop (fun f hf => halign f (by simp [hf]))
        (by rw [hend]; exact hfits)
      have hle := le_exactEnd rest (fun f hf => halign f (by simp [hf])) stop.toNat
      rw [hend] at hlast hinside hle
      rw [hplace]
      refine ⟨?_, ?_⟩
      · cases hrest : placeFields stop rest with
        | nil => simpa [hrest, hstop] using hlast
        | cons second others => simpa [hrest, List.getLast?_cons] using hlast
      · intro placed hplaced
        rcases List.mem_cons.mp hplaced with rfl | hplaced
        · exact hstop ▸ hle
        · exact hinside placed hplaced

/-! ## Structs -/

/-- The alignment of a struct is the greatest of its fields. -/
theorem align_structLayout (halign : ∀ f ∈ fields, 1 ≤ f.align.toNat) :
    (structLayout (placeFields offset fields)).align.toNat = maxAlign fields := by
  have hfold (places : List (UInt64 × Layout)) (a : UInt64) (ha : 1 ≤ a.toNat) :
      (places.foldl (fun a f => max a f.2.align) a).toNat =
        max a.toNat (maxAlign (places.map Prod.snd)) := by
    induction places generalizing a with
    | nil => exact (max_eq_left ha).symm
    | cons field rest ih =>
        rw [List.foldl_cons, ih _ (by rw [UInt64.toNat_max]; exact ha.trans (le_max_left _ _)),
          UInt64.toNat_max, max_assoc]
        rfl
  cases fields with
  | nil => rfl
  | cons field rest =>
      rw [placeFields, structLayout]
      simp only []
      rw [hfold _ _ (halign field (by simp)), map_snd_placeFields]
      rfl

/-- The size of a struct that fits is that of unbounded arithmetic. -/
theorem size_structLayout (halign : ∀ f ∈ fields, 1 ≤ f.align.toNat)
    (hfits : exactSize fields < 2 ^ 64) :
    (structLayout (placeFields 0 fields)).size.toNat = exactSize fields := by
  have hend : exactEnd 0 fields < 2 ^ 64 :=
    (le_ceilTo (one_le_maxAlign fields) _).trans_lt hfits
  have hlast := (@fieldEnd_placeFields _ 0 halign hend).1
  have hmax := @align_structLayout _ 0 halign
  obtain ⟨stop, hsize, hstop⟩ : ∃ stop : UInt64,
      (structLayout (placeFields 0 fields)).size =
        alignTo stop (structLayout (placeFields 0 fields)).align ∧
      stop.toNat = exactEnd 0 fields := by
    refine ⟨_, rfl, ?_⟩
    cases hplaced : (placeFields 0 fields).getLast? with
    | none => simpa [hplaced] using hlast
    | some last =>
        replace hlast : fieldEnd last = exactEnd 0 fields := by simpa [hplaced] using hlast
        rw [UInt64.toNat_add, ← hlast, fieldEnd, Nat.mod_eq_of_lt]
        rwa [← hlast] at hend
  rw [hsize, toNat_alignTo (hmax ▸ one_le_maxAlign fields) (by rwa [hstop, hmax]), hstop, hmax,
    exactSize]

/-- Offsets and layouts of fields together with the layout of their struct, without gaps that
alignment does not ask for. -/
structure Tight (places : List (UInt64 × Layout)) (layout : Layout) : Prop where
  align_pos : ∀ field ∈ places, 1 ≤ field.2.align.toNat
  first : ∀ field ∈ places.head?, field.1 = 0
  next : places.IsChain fun p q => StartsBehind (fieldEnd p) q
  align : layout.align.toNat = maxAlign (places.map Prod.snd)
  size : IsLeast {m | layout.align.toNat ∣ m ∧ (places.getLast?.map fieldEnd).getD 0 ≤ m}
    layout.size.toNat
  disjoint : places.Pairwise fun p q => fieldEnd p ≤ q.1.toNat
  inside : ∀ field ∈ places, fieldEnd field ≤ layout.size.toNat

/-- What a relation makes of its right side holds of all elements of a chain but the first. -/
theorem forall_mem_of_isChain {α : Type} {R : α → α → Prop} {Q : α → Prop}
    (hstep : ∀ p q, R p q → Q q) {xs : List α} (hhead : ∀ x ∈ xs.head?, Q x) (h : xs.IsChain R) :
    ∀ x ∈ xs, Q x := by
  induction xs with
  | nil => simp
  | cons first rest ih =>
      obtain ⟨hnext, hchain⟩ := List.isChain_cons.mp h
      exact List.forall_mem_cons.mpr
        ⟨hhead first rfl, ih (fun x hx => hstep _ _ (hnext x hx)) hchain⟩

/-- Every field starts at a multiple of its alignment. -/
theorem Tight.dvd_offset {places : List (UInt64 × Layout)} {layout : Layout}
    (h : Tight places layout) : ∀ field ∈ places, field.2.align.toNat ∣ field.1.toNat :=
  forall_mem_of_isChain (fun _ _ hpq => hpq.1.1)
    (fun field hfield => by rw [h.first field hfield]; exact Nat.dvd_zero _) h.next

/-- Fields that start one behind the other never overlap. -/
theorem pairwise_of_startsBehind {places : List (UInt64 × Layout)}
    (h : places.IsChain fun p q => StartsBehind (fieldEnd p) q) :
    places.Pairwise fun p q => fieldEnd p ≤ q.1.toNat := by
  let Behind (p q : UInt64 × Layout) : Prop := fieldEnd p ≤ q.1.toNat
  have htrans : Trans Behind Behind Behind :=
    ⟨fun {p q r} hpq hqr => (show fieldEnd p ≤ q.1.toNat from hpq).trans
      ((Nat.le_add_right _ _).trans hqr)⟩
  exact List.isChain_iff_pairwise.mp (h.imp fun p q hpq => show Behind p q from hpq.1.2)

/-- A struct whose size is below `2 ^ 64` is laid out tightly. -/
theorem tight_structLayout (halign : ∀ f ∈ fields, 1 ≤ f.align.toNat)
    (hfits : exactSize fields < 2 ^ 64) :
    Tight (placeFields 0 fields) (structLayout (placeFields 0 fields)) := by
  have hend : exactEnd 0 fields < 2 ^ 64 :=
    (le_ceilTo (one_le_maxAlign fields) _).trans_lt hfits
  obtain ⟨hhead, hchain⟩ := @isChain_placeFields _ 0 halign hend
  obtain ⟨hlast, hinside⟩ := @fieldEnd_placeFields _ 0 halign hend
  have hmax := @align_structLayout _ 0 halign
  have hsize := size_structLayout halign hfits
  have hleast : IsLeast {m | maxAlign fields ∣ m ∧ exactEnd 0 fields ≤ m} (exactSize fields) :=
    isLeast_ceilTo (one_le_maxAlign fields) _
  refine
    { align_pos := fun field hfield => ?_
      first := fun field hfield => ?_
      next := hchain
      align := by rw [hmax, map_snd_placeFields]
      size := ?_
      disjoint := pairwise_of_startsBehind hchain
      inside := fun field hfield => ?_ }
  · exact halign _ (map_snd_placeFields 0 fields ▸ List.mem_map_of_mem hfield)
  · -- Zero is a multiple of every alignment.
    have := (hhead field hfield).2 ⟨Nat.dvd_zero _, le_rfl⟩
    exact UInt64.toNat_inj.mp (Nat.le_zero.mp this)
  · rw [hmax, hsize]
    exact hlast ▸ hleast
  · rw [hsize]
    exact (hinside field hfield).trans hleast.1.2

namespace Tables

variable {t : Tables} {type : TypeId}

/-- A property of alignments that those of builtin and host types have and greatest ones keep is
one of all alignments. -/
theorem align_of_layoutWithin {P : Nat → Prop} (hpos : ∀ a, P a → 1 ≤ a) (hone : P 1) (hfour : P 4)
    (height : P 8) (hmax : ∀ a b, P a → P b → P (max a b))
    (hhost : ∀ symbol info, t.symbols.kind? symbol = some (.hostType info) →
      P (max info.align.toNat 1)) {bound : Nat} {layout : Layout}
    (h : t.layoutWithin bound type = some layout) : P layout.align.toNat := by
  induction bound generalizing type layout with
  | zero => cases h
  | succ bound ih =>
      rw [layoutWithin] at h
      split at h
      case h_1 kind _ =>
          cases h
          cases kind <;> first | exact hone | exact hfour | exact height
      case h_5 u _ =>
          obtain ⟨fields, hfields, h⟩ := Option.bind_eq_some_iff.mp h
          cases h
          have hall : ∀ field ∈ fields, P field.align.toNat := by
            intro field hfield
            obtain ⟨f, -, hf⟩ := exists_of_mem_mapM hfields hfield
            exact ih hf
          rw [align_structLayout fun field hfield => hpos _ (hall field hfield)]
          exact maxAlign_induction hone hmax hall
      case h_6 symbol _ =>
          split at h
          case h_1 info hinfo =>
              cases h
              rw [UInt64.toNat_max]
              exact hhost symbol info hinfo
          case h_2 => cases h; exact hone
      all_goals
        cases h
        first | exact hone | exact height

theorem one_le_align_of_layoutWithin {bound : Nat} {layout : Layout}
    (h : t.layoutWithin bound type = some layout) : 1 ≤ layout.align.toNat :=
  align_of_layoutWithin (P := (1 ≤ ·)) (fun _ => id) (by decide) (by decide) (by decide)
    (fun _ _ ha _ => ha.trans (le_max_left _ _)) (fun _ _ _ => le_max_right _ _) h

/-- Every host type is aligned to a power of two, where 0 counts as 1. -/
def HostAlignsPowers (t : Tables) : Prop :=
  ∀ symbol info, t.symbols.kind? symbol = some (.hostType info) →
    ∃ k, max info.align.toNat 1 = 2 ^ k

theorem align_eq_two_pow_of_layoutWithin (hhost : t.HostAlignsPowers) {bound : Nat}
    {layout : Layout} (h : t.layoutWithin bound type = some layout) :
    ∃ k, layout.align.toNat = 2 ^ k := by
  refine align_of_layoutWithin (P := fun a => ∃ k, a = 2 ^ k) ?_ ⟨0, rfl⟩ ⟨2, rfl⟩ ⟨3, rfl⟩ ?_
    hhost h
  · rintro _ ⟨k, rfl⟩
    exact Nat.one_le_two_pow
  · rintro _ _ ⟨k, rfl⟩ ⟨l, rfl⟩
    rcases le_total (2 ^ k) (2 ^ l) with hle | hle
    · exact ⟨l, max_eq_right hle⟩
    · exact ⟨k, max_eq_left hle⟩

/-- A layout that is found within a bound is found within a greater one. -/
theorem layoutWithin_mono {bound bound' : Nat} (hle : bound ≤ bound') {layout : Layout}
    (h : t.layoutWithin bound type = some layout) : t.layoutWithin bound' type = some layout := by
  induction bound generalizing bound' type layout with
  | zero => cases h
  | succ bound ih =>
      obtain ⟨bound', rfl⟩ := Nat.exists_eq_add_one.mpr (Nat.zero_lt_of_lt hle)
      rw [layoutWithin] at h ⊢
      split
      case h_5 u hu =>
          simp only [hu] at h
          obtain ⟨fields, hfields, hlayout⟩ := Option.bind_eq_some_iff.mp h
          have hfields' : (t.structFields u).mapM (fun f => t.layoutWithin bound' f.2) =
              some fields :=
            mapM_eq_some_mono (fun f _ _ hf => ih (Nat.le_of_succ_le_succ hle) hf) hfields
          simpa [hfields'] using hlayout
      all_goals simp_all

/-- The layouts of the fields of a struct, in the order of declaration. -/
def fieldLayouts? (t : Tables) (symbol : SymbolId) : Option (List Layout) :=
  (t.structFields symbol).mapM fun field => t.layout? field.2

/-- A struct that does not contain itself by value is laid out from the layouts of its fields. -/
theorem EndsByValue.exists_fieldLayouts {symbol : SymbolId} (h : t.EndsByValue type)
    (hstruct : t.types.get? (t.representation type) = some (.structType symbol)) :
    ∃ fields, t.fieldLayouts? symbol = some fields ∧
      t.fieldOffsets? type = some (placeFields 0 fields) ∧
      t.layout? type = some (structLayout (placeFields 0 fields)) := by
  obtain ⟨layout, hlayout⟩ := h.exists_layout
  have hwithin := hlayout
  rw [layout?, layoutWithin] at hwithin
  simp only [hstruct] at hwithin
  obtain ⟨fields, hfields, heq⟩ := Option.bind_eq_some_iff.mp hwithin
  have hall : t.fieldLayouts? symbol = some fields :=
    mapM_eq_some_mono (fun f _ _ hf => layoutWithin_mono (Nat.le_succ _) hf) hfields
  refine ⟨fields, hall, ?_, by rw [hlayout, ← heq]; rfl⟩
  rw [fieldLayouts?] at hall
  rw [fieldOffsets?]
  simp only [hstruct, hall]
  rfl

/-- A struct type without by-value recursion whose size is below `2 ^ 64` has a tight layout over
the layouts of its fields. If the alignments of host types are powers of two, every field of every
element of an array is aligned. -/
theorem struct_layout_tight (t : Tables) (type : TypeId) (symbol : SymbolId)
    (hstruct : t.types.get? (t.representation type) = some (.structType symbol))
    (hends : t.EndsByValue type)
    (hfits : ∀ fields, t.fieldLayouts? symbol = some fields → exactSize fields < 2 ^ 64) :
    ∃ places layout, t.fieldOffsets? type = some places ∧ t.layout? type = some layout ∧
      t.fieldLayouts? symbol = some (places.map Prod.snd) ∧ Tight places layout ∧
      (t.HostAlignsPowers → ∀ base index, layout.align.toNat ∣ base → ∀ field ∈ places,
        field.2.align.toNat ∣ base + index * layout.size.toNat + field.1.toNat) := by
  obtain ⟨fields, hfields, hoffsets, hlayout⟩ := hends.exists_fieldLayouts hstruct
  have hwithin : ∀ field ∈ fields, ∃ f, t.layout? f = some field := by
    intro field hfield
    obtain ⟨f, -, hf⟩ := exists_of_mem_mapM hfields hfield
    exact ⟨f.2, hf⟩
  have htight := tight_structLayout
    (fun field hfield => (hwithin field hfield).elim fun _ => one_le_align_of_layoutWithin)
    (hfits fields hfields)
  refine ⟨_, _, hoffsets, hlayout, by rw [map_snd_placeFields, hfields], htight, ?_⟩
  intro hhost base index hbase field hfield
  have hmem : field.2 ∈ fields :=
    map_snd_placeFields 0 fields ▸ List.mem_map_of_mem hfield
  have hdvd : field.2.align.toNat ∣ (structLayout (placeFields 0 fields)).align.toNat := by
    obtain ⟨f, hf⟩ := hwithin field.2 hmem
    obtain ⟨k, hk⟩ := align_eq_two_pow_of_layoutWithin hhost hf
    obtain ⟨l, hl⟩ := align_eq_two_pow_of_layoutWithin hhost hlayout
    have hle : field.2.align.toNat ≤ (structLayout (placeFields 0 fields)).align.toNat := by
      rw [htight.align, map_snd_placeFields]
      exact le_maxAlign hmem
    rw [hk, hl] at hle ⊢
    exact (Nat.pow_dvd_pow_iff_le_right (by decide)).mpr
      ((Nat.pow_le_pow_iff_right (by decide)).mp hle)
  have hsize := htight.size.1.1
  exact Nat.dvd_add (Nat.dvd_add (hdvd.trans hbase) ((hdvd.trans hsize).mul_left _))
    (htight.dvd_offset field hfield)

/-- A record `11` with a byte, a struct behind a strong alias, a value without bytes, a host type
without an alignment, one with an alignment, and an array of itself. -/
def record : Tables where
  types := ⟨TypeTable.initial.entries ++
    #[.structType 0, .aliasType 1, .hostType 2, .hostType 3, .structType 4, .array 11]⟩
  symbols := ⟨#[
    { name := "Inner", span := .dummy, kind := .structType ⟨1, [5, 6], 7⟩, scope := 0 },
    { name := "Strong", span := .dummy, kind := .aliasType ⟨true, .resolved 7, 8⟩, scope := 0 },
    { name := "Raw", span := .dummy, kind := .hostType ⟨3, 0, [], 9⟩, scope := 0 },
    { name := "Triple", span := .dummy, kind := .hostType ⟨12, 4, [], 10⟩, scope := 0 },
    { name := "Record", span := .dummy, kind := .structType ⟨2, [7, 8, 9, 10, 11, 12], 11⟩,
      scope := 0 },
    { name := "flag", span := .dummy, kind := .field ⟨0, 1, .everyone, 0⟩, scope := 1 },
    { name := "count", span := .dummy, kind := .field ⟨0, 5, .everyone, 1⟩, scope := 1 },
    { name := "mark", span := .dummy, kind := .field ⟨4, 3, .everyone, 0⟩, scope := 2 },
    { name := "inner", span := .dummy, kind := .field ⟨4, 8, .everyone, 1⟩, scope := 2 },
    { name := "nothing", span := .dummy, kind := .field ⟨4, 0, .everyone, 2⟩, scope := 2 },
    { name := "raw", span := .dummy, kind := .field ⟨4, 9, .everyone, 3⟩, scope := 2 },
    { name := "triple", span := .dummy, kind := .field ⟨4, 10, .everyone, 4⟩, scope := 2 },
    { name := "next", span := .dummy, kind := .field ⟨4, 12, .everyone, 5⟩, scope := 2 }]⟩

theorem hostAlignsPowers_record : record.HostAlignsPowers := by
  intro symbol info h
  have hlt : symbol < 13 := SymbolTable.lt_size_of_kind? h
  interval_cases symbol <;> simp [record, SymbolTable.kind?, SymbolTable.get?] at h
  · exact ⟨0, by subst h; rfl⟩
  · exact ⟨2, by subst h; rfl⟩

/-- The record takes 48 bytes, with gaps behind the byte and behind the host type of three bytes. -/
theorem record_layout_tight : record.EndsByValue 11 ∧ record.layout? 11 = some ⟨48, 8⟩ ∧
    Tight [(0, ⟨1, 1⟩), (8, ⟨16, 8⟩), (24, ⟨0, 1⟩), (24, ⟨3, 1⟩), (28, ⟨12, 4⟩), (40, ⟨8, 8⟩)]
      ⟨48, 8⟩ ∧ 4 ∣ 1000 + 3 * 48 + 28 := by
  have hends : record.EndsByValue 11 :=
    (fieldsEnd_of_rank (fun type => if type = 11 then 2 else if type = 7 then 1 else 0)
      (by decide +kernel)).endsByValue 11
  have hfields : record.fieldLayouts? 4 =
      some [⟨1, 1⟩, ⟨16, 8⟩, ⟨0, 1⟩, ⟨3, 1⟩, ⟨12, 4⟩, ⟨8, 8⟩] := by decide +kernel
  have hplaces : record.fieldOffsets? 11 = some
      [(0, ⟨1, 1⟩), (8, ⟨16, 8⟩), (24, ⟨0, 1⟩), (24, ⟨3, 1⟩), (28, ⟨12, 4⟩), (40, ⟨8, 8⟩)] := by
    decide +kernel
  have hlayout : record.layout? 11 = some ⟨48, 8⟩ := by decide +kernel
  obtain ⟨places, layout, hplaces', hlayout', -, htight, haligned⟩ :=
    struct_layout_tight record 11 4 (by decide +kernel) hends fun fields h => by
      obtain rfl := Option.some.inj (hfields.symm.trans h)
      decide +kernel
  obtain rfl := Option.some.inj (hplaces.symm.trans hplaces')
  obtain rfl := Option.some.inj (hlayout.symm.trans hlayout')
  exact ⟨hends, hlayout, htight, haligned hostAlignsPowers_record 1000 3 ⟨125, rfl⟩
    (28, ⟨12, 4⟩) (by decide)⟩

end Tables

end Stela
