import Stela.Proofs.Types.Alias
import Mathlib.Data.Finset.Prod
import Mathlib.Data.List.Forall2

/-!
# Type equality is bisimilarity

`Tables.Bisimilar` is the largest relation that looks through weak aliases and
relates only types of the same shape with related parts. `Tables.same` decides
it for every table without a cycle of weak aliases, recursive types included.

The comparison only keeps the pairs on its current path. It accepts no unequal
types: every assumed pair is justified up to depth `n` before it is used for
depth `n + 1`. It finds every equal pair within its bound: each pair on the path
is a new one of finitely many.
-/

namespace Stela.Tables

variable {t : Tables} {R S U : TypeId → TypeId → Prop}

/-- Two types without weak aliases agree at their top, with parts related by `R`. -/
inductive Agree (t : Tables) (R : TypeId → TypeId → Prop) : TypeId → TypeId → Prop
  | refl (a : TypeId) : Agree t R a a
  | array {a b x y : TypeId} (ha : t.types.get? a = some (.array x))
      (hb : t.types.get? b = some (.array y)) (element : R x y) : Agree t R a b
  | func {a b : TypeId} {ps qs : List (RefKind × TypeId)} {x y : TypeId}
      (ha : t.types.get? a = some (.func ps x)) (hb : t.types.get? b = some (.func qs y))
      (params : List.Forall₂ (fun p q => p.1 = q.1 ∧ R p.2 q.2) ps qs) (ret : R x y) :
      Agree t R a b
  | structType {a b : TypeId} {u v : SymbolId} {fs gs : List (String × TypeId)}
      (ha : t.types.get? a = some (.structType u)) (hb : t.types.get? b = some (.structType v))
      (hu : t.structFields? u = some fs) (hv : t.structFields? v = some gs)
      (fields : List.Forall₂ (fun f g => f.1 = g.1 ∧ R f.2 g.2) fs gs) : Agree t R a b
  | hostType {a b : TypeId} {u v : SymbolId} {i j : HostInfo}
      (ha : t.types.get? a = some (.hostType u)) (hb : t.types.get? b = some (.hostType v))
      (hu : t.symbols.kind? u = some (.hostType i)) (hv : t.symbols.kind? v = some (.hostType j))
      (size : i.size = j.size) (align : i.align = j.align)
      (fields : List.Forall₂ (fun f g => f.name = g.name ∧ R f.type g.type ∧ f.offset = g.offset)
        i.fields j.fields) : Agree t R a b

/-- A relation whose pairs agree, behind their weak aliases, with parts that it relates too. -/
def IsBisimulation (t : Tables) (R : TypeId → TypeId → Prop) : Prop :=
  ∀ a b, R a b → ∀ c d, t.Unwraps false a c → t.Unwraps false b d → t.Agree R c d

/-- Related by some, and so by the largest, bisimulation. -/
def Bisimilar (t : Tables) (a b : TypeId) : Prop := ∃ R, t.IsBisimulation R ∧ R a b

/-! ## Agreement and shapes -/

/-- What the shape of a type is read from. -/
inductive Shaped (t : Tables) (a : TypeId) : TypeShape → Prop
  | array {x : TypeId} (h : t.types.get? a = some (.array x)) : Shaped t a ⟨.array, [x]⟩
  | func {ps : List (RefKind × TypeId)} {x : TypeId} (h : t.types.get? a = some (.func ps x)) :
      Shaped t a ⟨.func (ps.map (·.1)), ps.map (·.2) ++ [x]⟩
  | structType {u : SymbolId} {fs : List (String × TypeId)}
      (h : t.types.get? a = some (.structType u)) (hu : t.structFields? u = some fs) :
      Shaped t a ⟨.structType (fs.map (·.1)), fs.map (·.2)⟩
  | hostType {u : SymbolId} {i : HostInfo} (h : t.types.get? a = some (.hostType u))
      (hu : t.symbols.kind? u = some (.hostType i)) :
      Shaped t a ⟨.hostType i.size i.align (i.fields.map fun f => (f.name, f.offset)),
        i.fields.map HostSlot.type⟩
  | nominal : Shaped t a ⟨.nominal a, []⟩

theorem shaped_shape (t : Tables) (a : TypeId) : t.Shaped a (t.shape a) := by
  unfold shape
  split
  · exact .array (by assumption)
  · exact .func (by assumption)
  · split
    · exact .structType (by assumption) (by assumption)
    · exact .nominal
  · split
    · exact .hostType (by assumption) (by assumption)
    · exact .nominal
  · exact .nominal

/-- A pointwise relation of two columns splits into one on each column. -/
theorem forall₂_columns {α β : Type} (f : α → β) (g : α → TypeId) {xs ys : List α} :
    List.Forall₂ (fun x y => f x = f y ∧ R (g x) (g y)) xs ys ↔
      xs.map f = ys.map f ∧ List.Forall₂ R (xs.map g) (ys.map g) := by
  induction xs generalizing ys with
  | nil => cases ys <;> simp
  | cons x xs ih =>
      cases ys with
      | nil => simp
      | cons y ys =>
          simp only [List.forall₂_cons, List.map_cons, List.cons.injEq, ih]
          tauto

/-- A pointwise relation with one more pair at the end. -/
theorem forall₂_concat {xs ys : List TypeId} {x y : TypeId} :
    List.Forall₂ R (xs ++ [x]) (ys ++ [y]) ↔ List.Forall₂ R xs ys ∧ R x y := by
  rw [← List.forall₂_reverse_iff]
  simp [and_comm]

/-- Fields of host types are related if names with offsets and types are. -/
theorem forall₂_hostSlots {fs gs : List HostSlot} :
    List.Forall₂ (fun f g => f.name = g.name ∧ R f.type g.type ∧ f.offset = g.offset) fs gs ↔
      (fs.map fun f => (f.name, f.offset)) = (gs.map fun f => (f.name, f.offset)) ∧
        List.Forall₂ R (fs.map HostSlot.type) (gs.map HostSlot.type) := by
  rw [← forall₂_columns]
  have same (f g : HostSlot) : (f.name = g.name ∧ R f.type g.type ∧ f.offset = g.offset) ↔
      (f.name, f.offset) = (g.name, g.offset) ∧ R f.type g.type := by
    simp only [Prod.mk.injEq]
    tauto
  simp only [same]

/-- Agreement is equality, or equality of the heads with parts that are related in order. -/
theorem agree_iff {a b : TypeId} : t.Agree R a b ↔
    a = b ∨ (t.shape a).head = (t.shape b).head ∧
      List.Forall₂ R (t.shape a).parts (t.shape b).parts := by
  constructor
  · intro h
    cases h with
    | refl => exact .inl rfl
    | array ha hb element => exact .inr (by simp [shape, ha, hb, element])
    | func ha hb params ret =>
        have h := (forall₂_columns Prod.fst Prod.snd).mp params
        exact .inr (by simp [shape, ha, hb, forall₂_concat, h, ret])
    | structType ha hb hu hv fields =>
        have h := (forall₂_columns Prod.fst Prod.snd).mp fields
        exact .inr (by simp [shape, ha, hb, hu, hv, h])
    | hostType ha hb hu hv size align fields =>
        have h := forall₂_hostSlots.mp fields
        exact .inr (by simp [shape, ha, hb, hu, hv, size, align, h])
  · rintro (rfl | ⟨hhead, hparts⟩)
    · exact .refl a
    · have ha := shaped_shape t a
      have hb := shaped_shape t b
      generalize t.shape a = sa at ha hhead hparts
      generalize t.shape b = sb at hb hhead hparts
      -- Types with equal heads are of one sort, and nominal ones are identical.
      cases ha with
      | array ha =>
          cases hb with
          | array hb => exact .array ha hb (by simpa using hparts)
          | _ => simp at hhead
      | func ha =>
          cases hb with
          | func hb =>
              obtain ⟨params, ret⟩ := forall₂_concat.mp hparts
              exact .func ha hb ((forall₂_columns Prod.fst Prod.snd).mpr
                ⟨by simpa using hhead, params⟩) ret
          | _ => simp at hhead
      | structType ha hu =>
          cases hb with
          | structType hb hv =>
              exact .structType ha hb hu hv ((forall₂_columns Prod.fst Prod.snd).mpr
                ⟨by simpa using hhead, hparts⟩)
          | _ => simp at hhead
      | hostType ha hu =>
          cases hb with
          | hostType hb hv =>
              simp only [TypeHead.hostType.injEq] at hhead
              obtain ⟨size, align, columns⟩ := hhead
              exact .hostType ha hb hu hv size align (forall₂_hostSlots.mpr ⟨columns, hparts⟩)
          | _ => simp at hhead
      | nominal =>
          cases hb with
          | nominal =>
              obtain rfl : a = b := by simpa using hhead
              exact .refl a
          | _ => simp at hhead

/-- Agreement is monotone in the relation on the parts. -/
theorem Agree.mono (h : ∀ x y, R x y → S x y) {a b : TypeId} (hab : t.Agree R a b) :
    t.Agree S a b :=
  agree_iff.mpr ((agree_iff.mp hab).imp_right fun hs => ⟨hs.1, hs.2.imp h⟩)

/-- How many parts a type with this head has. -/
def headArity : TypeHead → Nat
  | .nominal _ => 0
  | .array => 1
  | .func passing => passing.length + 1
  | .structType names => names.length
  | .hostType _ _ fields => fields.length

theorem parts_length (t : Tables) (a : TypeId) :
    (t.shape a).parts.length = headArity (t.shape a).head := by
  have ha := shaped_shape t a
  generalize t.shape a = sa at ha
  cases ha <;> simp [headArity]

/-- Only entries of the table have a head that another type can have too. -/
theorem lt_size_of_head_eq {a b : TypeId} (h : (t.shape a).head = (t.shape b).head)
    (hne : a ≠ b) : a < t.types.size := by
  by_contra hge
  have hnone : t.types.get? a = none := Array.getElem?_eq_none (Nat.le_of_not_lt hge)
  have hb := shaped_shape t b
  generalize t.shape b = sb at hb h
  simp only [shape, hnone] at h
  cases hb with
  | nominal => exact hne (by simpa using h)
  | _ => simp at h

/-! ## Bisimilarity is an equivalence -/

theorem Bisimilar.refl (t : Tables) (a : TypeId) : t.Bisimilar a a := by
  refine ⟨Eq, ?_, rfl⟩
  rintro a _ rfl c d hc hd
  obtain rfl := hc.unique hd
  exact .refl c

theorem Bisimilar.symm {a b : TypeId} (h : t.Bisimilar a b) : t.Bisimilar b a := by
  obtain ⟨R, hR, hab⟩ := h
  refine ⟨fun x y => R y x, ?_, hab⟩
  intro x y hyx c d hc hd
  rcases agree_iff.mp (hR y x hyx d c hd hc) with rfl | ⟨hhead, hparts⟩
  · exact .refl d
  · exact agree_iff.mpr (.inr ⟨hhead.symm, hparts.flip⟩)

/-- Related types agree with parts that are bisimilar again. -/
theorem Bisimilar.agree {a b c d : TypeId} (h : t.Bisimilar a b) (hc : t.Unwraps false a c)
    (hd : t.Unwraps false b d) : t.Agree t.Bisimilar c d := by
  obtain ⟨R, hR, hab⟩ := h
  exact (hR a b hab c d hc hd).mono fun x y hxy => ⟨R, hR, hxy⟩

/-- Pointwise relations compose along lists. -/
theorem forall₂_trans {xs ys zs : List TypeId} (hxy : List.Forall₂ R xs ys)
    (hyz : List.Forall₂ S ys zs) :
    List.Forall₂ (fun x z => ∃ y, R x y ∧ S y z) xs zs := by
  induction hxy generalizing zs with
  | nil => cases hyz; exact .nil
  | cons hr _ ih =>
      obtain ⟨z, rest, hs, hrest, rfl⟩ := List.forall₂_cons_left_iff.mp hyz
      exact .cons ⟨_, hr, hs⟩ (ih hrest)

theorem Bisimilar.trans (h : t.AliasesEnd false) {a b c : TypeId} (hab : t.Bisimilar a b)
    (hbc : t.Bisimilar b c) : t.Bisimilar a c := by
  refine ⟨fun x z => ∃ y, t.Bisimilar x y ∧ t.Bisimilar y z, ?_, b, hab, hbc⟩
  rintro x z ⟨y, hxy, hyz⟩ x' z' hx hz
  have hy := unwraps_concrete h y
  rcases agree_iff.mp (hxy.agree hx hy) with heq | ⟨hhead, hparts⟩
  · rw [heq]
    exact (hyz.agree hy hz).mono fun u v huv => ⟨u, .refl t u, huv⟩
  · rcases agree_iff.mp (hyz.agree hy hz) with heq | ⟨hhead', hparts'⟩
    · rw [← heq]
      exact (hxy.agree hx hy).mono fun u v huv => ⟨v, huv, .refl t v⟩
    · exact agree_iff.mpr (.inr ⟨hhead.trans hhead', forall₂_trans hparts hparts'⟩)

/-! ## The comparison is sound -/

/-- Agreement of two types down to a depth. -/
def AgreeTo (t : Tables) : Nat → TypeId → TypeId → Prop
  | 0, _, _ => True
  | depth + 1, a, b => t.Agree (AgreeTo t depth) (t.concrete a) (t.concrete b)

theorem AgreeTo.of_succ {depth : Nat} {a b : TypeId} (h : t.AgreeTo (depth + 1) a b) :
    t.AgreeTo depth a b := by
  induction depth generalizing a b with
  | zero => trivial
  | succ depth ih => exact h.mono fun x y => ih

theorem AgreeTo.of_concrete (h : t.AliasesEnd false) {depth : Nat} {a b : TypeId}
    (hab : t.AgreeTo depth (t.concrete a) (t.concrete b)) : t.AgreeTo depth a b := by
  cases depth with
  | zero => trivial
  | succ depth => simpa only [AgreeTo, concrete_concrete h] using hab

theorem AgreeTo.concrete (h : t.AliasesEnd false) {depth : Nat} {a b : TypeId}
    (hab : t.AgreeTo depth a b) : t.AgreeTo depth (t.concrete a) (t.concrete b) := by
  cases depth with
  | zero => trivial
  | succ depth => simpa only [AgreeTo, concrete_concrete h] using hab

/-- Types that agree to every depth are bisimilar. -/
theorem bisimilar_of_agreeTo (h : t.AliasesEnd false) {a b : TypeId}
    (hab : ∀ depth, t.AgreeTo depth a b) : t.Bisimilar a b := by
  refine ⟨fun x y => ∀ depth, t.AgreeTo depth x y, ?_, hab⟩
  intro x y hxy c d hc hd
  obtain rfl := hc.unique (unwraps_concrete h x)
  obtain rfl := hd.unique (unwraps_concrete h y)
  by_cases heq : t.concrete x = t.concrete y
  · rw [heq]
    exact .refl _
  have shapes (depth : Nat) := (agree_iff.mp (hxy (depth + 1))).resolve_left heq
  refine agree_iff.mpr (.inr ⟨(shapes 0).1, ?_⟩)
  refine List.forall₂_iff_zip.mpr ⟨(shapes 0).2.length_eq, ?_⟩
  intro u v huv depth
  exact List.forall₂_zip (shapes depth).2 huv

/-- One unfolding of the comparison. -/
theorem sameUnder_succ {bound : Nat} {assumed : List (TypeId × TypeId)} {a b : TypeId} :
    t.sameUnder (bound + 1) assumed a b = true ↔
      t.concrete a = t.concrete b ∨ (t.concrete a, t.concrete b) ∈ assumed ∨
        (t.shape (t.concrete a)).head = (t.shape (t.concrete b)).head ∧
          List.Forall₂ (fun x y =>
              t.sameUnder bound ((t.concrete a, t.concrete b) :: assumed) x y = true)
            (t.shape (t.concrete a)).parts (t.shape (t.concrete b)).parts := by
  rw [sameUnder, List.forall₂_iff_zip]
  simp only [Bool.or_eq_true, beq_iff_eq, List.contains_eq_mem, decide_eq_true_eq, or_assoc,
    Bool.and_eq_true, List.all_eq_true, Prod.forall]
  have lengths (hhead : (t.shape (t.concrete a)).head = (t.shape (t.concrete b)).head) :
      (t.shape (t.concrete a)).parts.length = (t.shape (t.concrete b)).parts.length := by
    rw [parts_length, parts_length, hhead]
  constructor
  · rintro (heq | hmem | ⟨hhead, hall⟩)
    · exact .inl heq
    · exact .inr (.inl hmem)
    · exact .inr (.inr ⟨hhead, lengths hhead, hall⟩)
  · rintro (heq | hmem | ⟨hhead, -, hall⟩)
    · exact .inl heq
    · exact .inr (.inl hmem)
    · exact .inr (.inr ⟨hhead, hall⟩)

/-- If the assumed pairs agree to a depth, so does every pair that is found equal. The
induction is on the depth: a pair agrees one level deeper than its own use as an assumption. -/
theorem agreeTo_of_sameUnder (h : t.AliasesEnd false) (depth : Nat) {bound : Nat}
    {assumed : List (TypeId × TypeId)} {a b : TypeId}
    (hassumed : ∀ p ∈ assumed, t.AgreeTo depth p.1 p.2)
    (hsame : t.sameUnder bound assumed a b = true) : t.AgreeTo depth a b := by
  induction depth generalizing bound assumed a b with
  | zero => trivial
  | succ depth ih =>
      cases bound with
      | zero => simp [sameUnder] at hsame
      | succ bound =>
          have hshallow : ∀ p ∈ assumed, t.AgreeTo depth p.1 p.2 :=
            fun p hp => (hassumed p hp).of_succ
          have hself := (ih hshallow hsame).concrete h
          rcases sameUnder_succ.mp hsame with heq | hmem | ⟨hhead, hparts⟩
          · exact agree_iff.mpr (.inl heq)
          · exact (hassumed _ hmem).of_concrete h
          · refine agree_iff.mpr (.inr ⟨hhead, hparts.imp fun x y hxy => ih ?_ hxy⟩)
            exact List.forall_mem_cons.mpr ⟨hself, hshallow⟩

/-! ## The comparison is complete within its bound -/

/-- The pairs of types that are not assumed yet. -/
def unassumed (t : Tables) (assumed : List (TypeId × TypeId)) : Finset (TypeId × TypeId) :=
  (Finset.range t.types.size ×ˢ Finset.range t.types.size).filter (· ∉ assumed)

theorem card_unassumed_le (t : Tables) (assumed : List (TypeId × TypeId)) :
    (t.unassumed assumed).card ≤ t.types.size * t.types.size := by
  calc
    (t.unassumed assumed).card
        ≤ (Finset.range t.types.size ×ˢ Finset.range t.types.size).card :=
          Finset.card_le_card (Finset.filter_subset _ _)
    _ = t.types.size * t.types.size := by simp

/-- A new pair of types uses up one of the pairs. -/
theorem card_unassumed_cons_lt {assumed : List (TypeId × TypeId)} {a b : TypeId} (ha : a < t.types.size)
    (hb : b < t.types.size) (hnew : (a, b) ∉ assumed) :
    (t.unassumed ((a, b) :: assumed)).card < (t.unassumed assumed).card := by
  apply Finset.card_lt_card
  refine (Finset.ssubset_iff_of_subset ?_).mpr ⟨(a, b), ?_, ?_⟩
  · intro p hp
    simp only [unassumed, Finset.mem_filter, List.mem_cons, not_or] at hp ⊢
    exact ⟨hp.1, hp.2.2⟩
  · simp [unassumed, ha, hb, hnew]
  · simp [unassumed]

/-- A comparison that may follow every pair not assumed yet finds bisimilar types equal. -/
theorem sameUnder_of_bisimilar (h : t.AliasesEnd false) {bound : Nat}
    {assumed : List (TypeId × TypeId)} {a b : TypeId}
    (hbound : (t.unassumed assumed).card < bound) (hab : t.Bisimilar a b) :
    t.sameUnder bound assumed a b = true := by
  induction bound generalizing assumed a b with
  | zero => omega
  | succ bound ih =>
      rw [sameUnder_succ]
      by_cases heq : t.concrete a = t.concrete b
      · exact .inl heq
      by_cases hmem : (t.concrete a, t.concrete b) ∈ assumed
      · exact .inr (.inl hmem)
      have agree := hab.agree (unwraps_concrete h a) (unwraps_concrete h b)
      obtain ⟨hhead, hparts⟩ := (agree_iff.mp agree).resolve_left heq
      have hless := card_unassumed_cons_lt (lt_size_of_head_eq hhead heq)
        (lt_size_of_head_eq hhead.symm (Ne.symm heq)) hmem
      exact .inr (.inr ⟨hhead, hparts.imp fun x y hxy => ih (by omega) hxy⟩)

/-- A comparison that may follow every pair not assumed yet does not run out of its bound. -/
theorem sameUnder_eq_of_lt {bound bound' : Nat} {assumed : List (TypeId × TypeId)}
    {a b : TypeId} (hbound : (t.unassumed assumed).card < bound)
    (hbound' : (t.unassumed assumed).card < bound') :
    t.sameUnder bound assumed a b = t.sameUnder bound' assumed a b := by
  induction bound generalizing bound' assumed a b with
  | zero => omega
  | succ bound ih =>
      obtain ⟨bound', rfl⟩ : ∃ n, bound' = n + 1 := ⟨bound' - 1, by omega⟩
      rw [Bool.eq_iff_iff, sameUnder_succ, sameUnder_succ]
      by_cases heq : t.concrete a = t.concrete b
      · simp [heq]
      by_cases hmem : (t.concrete a, t.concrete b) ∈ assumed
      · simp [hmem]
      refine or_congr_right (or_congr_right (and_congr_right fun hhead => ?_))
      have hless := card_unassumed_cons_lt (lt_size_of_head_eq hhead heq)
        (lt_size_of_head_eq hhead.symm (Ne.symm heq)) hmem
      have step (x y : TypeId) := @ih bound' ((t.concrete a, t.concrete b) :: assumed) x y
        (by omega) (by omega)
      simp only [step]

/-- The comparison decides bisimilarity. -/
theorem same_iff_bisimilar (h : t.AliasesEnd false) {a b : TypeId} :
    t.same a b = true ↔ t.Bisimilar a b := by
  constructor
  · intro hsame
    exact bisimilar_of_agreeTo h fun depth =>
      agreeTo_of_sameUnder h depth (by simp) hsame
  · intro hab
    exact sameUnder_of_bisimilar h (Nat.lt_succ_of_le (card_unassumed_le t [])) hab

/-- In a table without a cycle of weak aliases, types compare equal exactly if they are
bisimilar. The walk along aliases and the comparison both end by themselves, whatever pairs are
assumed, and equality is an equivalence on all types. -/
theorem same_decides_bisimilarity (t : Tables) (h : t.AliasesEnd false) :
    (∀ a b, t.same a b = true ↔ t.Bisimilar a b) ∧
    (∀ a, t.Unwraps false a (t.concrete a)) ∧
    (∀ bound assumed a b, t.types.size * t.types.size < bound →
      t.sameUnder bound assumed a b =
        t.sameUnder (t.types.size * t.types.size + 1) assumed a b) ∧
    Equivalence fun a b => t.same a b = true := by
  refine ⟨fun a b => same_iff_bisimilar h, unwraps_concrete h, ?_, ?_⟩
  · intro bound assumed a b hbound
    have hcard := card_unassumed_le t assumed
    exact sameUnder_eq_of_lt (by omega) (by omega)
  · simp only [same_iff_bisimilar h]
    exact ⟨Bisimilar.refl t, Bisimilar.symm, Bisimilar.trans h⟩

/-- Two structs `7` and `9` with an array of themselves, the second one through its weak alias
`10`, and two structs `12` and `13` that hold them by value. -/
def selfReferring : Tables where
  types := ⟨TypeTable.initial.entries ++
    #[.structType 0, .array 7, .structType 1, .aliasType 2, .array 10, .structType 3,
      .structType 4]⟩
  symbols := ⟨#[
    { name := "A", span := .dummy, kind := .structType ⟨1, [5], 7⟩, scope := 0 },
    { name := "B", span := .dummy, kind := .structType ⟨2, [6], 9⟩, scope := 0 },
    { name := "C", span := .dummy, kind := .aliasType ⟨false, .resolved 9, 10⟩, scope := 0 },
    { name := "P", span := .dummy, kind := .structType ⟨3, [7], 12⟩, scope := 0 },
    { name := "Q", span := .dummy, kind := .structType ⟨4, [8], 13⟩, scope := 0 },
    { name := "next", span := .dummy, kind := .field ⟨0, 8, .everyone, 0⟩, scope := 1 },
    { name := "next", span := .dummy, kind := .field ⟨1, 11, .everyone, 0⟩, scope := 2 },
    { name := "head", span := .dummy, kind := .field ⟨3, 7, .everyone, 0⟩, scope := 3 },
    { name := "head", span := .dummy, kind := .field ⟨4, 10, .everyone, 0⟩, scope := 4 }]⟩

theorem selfReferring_bisimilar : selfReferring.AliasesEnd false ∧
    selfReferring.same 12 13 = true ∧ selfReferring.Bisimilar 12 13 := by
  have hends : selfReferring.AliasesEnd false := aliasesEnd_of_rank id (by decide)
  have hsame : selfReferring.same 12 13 = true := by decide +kernel
  exact ⟨hends, hsame, ((same_decides_bisimilarity selfReferring hends).1 12 13).mp hsame⟩

end Stela.Tables
