import Stela.Proofs.Types.Bisimilarity

/-!
# Reading the tables

What is read of the tables agrees with the functions that take any number for a
type: a walk or comparison that comes to its end gives what they give.
-/

namespace Stela

/-- A value that an optional one agrees with is the one that is there. -/
theorem eq_some_iff_of_agrees {α : Type} {o : Option α} {a b : α} (h : ∀ c, o = some c → a = c) :
    o = some b ↔ o.isSome ∧ a = b := by
  constructor
  · rintro rfl
    exact ⟨rfl, h b rfl⟩
  · rintro ⟨hsome, rfl⟩
    obtain ⟨c, rfl⟩ := Option.isSome_iff_exists.mp hsome
    rw [h c rfl]

namespace Tables

/-! ## Lists of values that are all there -/

theorem mapM_eq_some_iff_map {α β : Type} {f : α → Option β} {xs : List α} {ys : List β} :
    xs.mapM f = some ys ↔ xs.map f = ys.map some := by
  induction xs generalizing ys with
  | nil => cases ys <;> simp
  | cons x xs ih =>
      cases hx : f x with
      | none => cases ys <;> simp [List.mapM_cons, hx]
      | some y =>
          cases ys with
          | nil => simp [List.mapM_cons, hx, Option.bind_eq_some_iff]
          | cons y' ys => simp [List.mapM_cons, hx, Option.bind_eq_some_iff, ih, and_comm]

/-- What a partial function makes of a list comes from its elements. -/
theorem exists_of_mem_mapM {α β : Type} {f : α → Option β} {xs : List α} {ys : List β}
    (h : xs.mapM f = some ys) {y : β} (hy : y ∈ ys) : ∃ x ∈ xs, f x = some y := by
  have hmem : some y ∈ xs.map f := mapM_eq_some_iff_map.mp h ▸ List.mem_map_of_mem hy
  exact List.mem_map.mp hmem

theorem mapM_eq_some_mono {α β : Type} {f g : α → Option β} {xs : List α} {ys : List β}
    (hfg : ∀ x ∈ xs, ∀ y, f x = some y → g x = some y) (h : xs.mapM f = some ys) :
    xs.mapM g = some ys := by
  have hmap := mapM_eq_some_iff_map.mp h
  refine mapM_eq_some_iff_map.mpr (hmap ▸ List.map_congr_left fun x hx => ?_)
  have hmem : f x ∈ ys.map some := hmap ▸ List.mem_map_of_mem hx
  obtain ⟨y, -, hy⟩ := List.mem_map.mp hmem
  rw [← hy, hfg x hx y hy.symm]

/-- Lists of related types have the same layouts in order. -/
theorem mapM_congr {α β : Type} {R : α → α → Prop} {f : α → Option β}
    (h : ∀ x y, R x y → f x = f y) {xs ys : List α} (hxy : List.Forall₂ R xs ys) :
    xs.mapM f = ys.mapM f := by
  induction hxy with
  | nil => rfl
  | cons hr _ ih => rw [List.mapM_cons, List.mapM_cons, h _ _ hr, ih]

/-- A partial function that succeeds on every element maps the whole list. -/
theorem exists_mapM_eq_some {α β : Type} {f : α → Option β} {xs : List α}
    (h : ∀ x ∈ xs, ∃ y, f x = some y) : ∃ ys, xs.mapM f = some ys := by
  induction xs with
  | nil => exact ⟨[], rfl⟩
  | cons x xs ih =>
      obtain ⟨y, hy⟩ := h x (by simp)
      obtain ⟨ys, hys⟩ := ih fun x' hx' => h x' (by simp [hx'])
      exact ⟨y :: ys, by simp [List.mapM_cons, hy, hys]⟩

/-! ## Walks -/

variable {t : Tables} {type a b : TypeId} {strong : Bool}

theorem unwrap_of_unwrap? {bound : Nat} {last : TypeId} (h : t.unwrap? strong bound type = some last) :
    t.unwrap strong bound type = last := by
  induction bound generalizing type with
  | zero => cases h
  | succ bound ih =>
      rw [unwrap?] at h
      obtain ⟨ty, hty, h⟩ := Option.bind_eq_some_iff.mp h
      rw [unwrap]
      split at h
      · obtain ⟨_, -, h⟩ := Option.bind_eq_some_iff.mp h
        split at h
        · exact ih h
        · exact Option.some.inj h
      · next hother =>
        have hnone : t.aliasTarget? strong type = none := by
          unfold aliasTarget?
          rw [hty]
          split
          · next symbol heq => exact absurd (Option.some.inj heq) (hother symbol)
          · rfl
        rw [hnone]
        exact Option.some.inj h

theorem concrete?_eq_some_iff {last : TypeId} :
    t.concrete? type = some last ↔ (t.concrete? type).isSome ∧ t.concrete type = last :=
  eq_some_iff_of_agrees fun _ => unwrap_of_unwrap?

theorem representation?_eq_some_iff {last : TypeId} : t.representation? type = some last ↔
    (t.representation? type).isSome ∧ t.representation type = last :=
  eq_some_iff_of_agrees fun _ => unwrap_of_unwrap?

/-! ## Comparisons -/

/-- A comparison pair by pair is one of all pairs, if each of them agrees. -/
theorem all_of_allM {α : Type} {f : α → Option Bool} {g : α → Bool} {xs : List α} {r : Bool}
    (hfg : ∀ x ∈ xs, ∀ r, f x = some r → g x = r) (h : xs.allM f = some r) : xs.all g = r := by
  induction xs with
  | nil => exact Option.some.inj h
  | cons x xs ih =>
      rw [List.allM] at h
      obtain ⟨first, hfirst, h⟩ := Option.bind_eq_some_iff.mp h
      rw [List.all_cons, hfg x List.mem_cons_self first hfirst]
      cases first with
      | false => exact Option.some.inj h
      | true => exact ih (fun y hy => hfg y (List.mem_cons_of_mem x hy)) h

/-- Lists of one length are compared pair by pair, and others differ. -/
theorem pairs_of_pairwise? {α β : Type} {f : α → β → Option Bool} {g : α → β → Bool} {xs : List α}
    {ys : List β} {r : Bool} (hfg : ∀ x y r, f x y = some r → g x y = r)
    (h : pairwise? f xs ys = some r) :
    (xs.length == ys.length && (xs.zip ys).all fun p => g p.1 p.2) = r := by
  unfold pairwise? at h
  split at h
  · next hlength =>
    rw [hlength, Bool.true_and]
    exact all_of_allM (fun p _ => hfg p.1 p.2) h
  · next hlength =>
    rw [Bool.eq_false_iff.mpr hlength, Bool.false_and]
    exact Option.some.inj h

/-- Entries that are compared by a key first agree if the keys do and the rest of all entries does. -/
theorem columns_of_pairwise? {α β κ : Type} [BEq κ] [LawfulBEq κ] {f : α → β → Option Bool} {key : α → κ}
    {key' : β → κ} {part : α → TypeId} {part' : β → TypeId} {same : TypeId → TypeId → Bool}
    {xs : List α} {ys : List β} {r : Bool}
    (hf : ∀ x ∈ xs, ∀ y ∈ ys, ∀ r, f x y = some r → (key x == key' y && same (part x) (part' y)) = r)
    (h : pairwise? f xs ys = some r) :
    (xs.map key == ys.map key' && ((xs.map part).zip (ys.map part')).all fun p => same p.1 p.2) = r := by
  unfold pairwise? at h
  split at h
  · next hlength =>
    have hall := all_of_allM (g := fun p => key p.1 == key' p.2 && same (part p.1) (part' p.2))
      (fun p hp => hf p.1 (List.of_mem_zip hp).1 p.2 (List.of_mem_zip hp).2) h
    rw [← hall]
    clear h hall hf
    replace hlength : xs.length = ys.length := eq_of_beq hlength
    induction xs generalizing ys with
    | nil =>
        obtain rfl := List.length_eq_zero_iff.mp hlength.symm
        rfl
    | cons x xs ih =>
        cases ys with
        | nil => cases hlength
        | cons y ys =>
            have ih := ih (Nat.succ.inj hlength)
            simp only [List.map_cons, List.zip_cons_cons, List.all_cons] at ih ⊢
            rw [← ih]
            simp only [List.cons_beq_cons, Bool.and_assoc, Bool.and_left_comm]
  · next hlength =>
    have hne : (xs.map key == ys.map key') = false := by
      refine Bool.eq_false_iff.mpr fun heq => hlength ?_
      simpa using congrArg List.length (eq_of_beq heq)
    rw [hne, Bool.false_and]
    exact Option.some.inj h

/-- Entries with equal keys are compared by their parts, and others differ. -/
theorem key_and_of_ite {κ : Type} [BEq κ] [LawfulBEq κ] {key key' : κ} {o : Option Bool} {b r : Bool}
    (ho : o = some r → b = r) (h : (if key == key' then o else some false) = some r) :
    (key == key' && b) = r := by
  split at h
  · next heq => rw [heq, Bool.true_and, ho h]
  · next hne => rw [Bool.eq_false_iff.mpr hne, Bool.false_and]; exact Option.some.inj h

/-- A comparison fails if one of the pairs can only fail. -/
theorem false_of_mem_zip {α β : Type} {f : α → β → Option Bool} {xs : List α} {ys : List β} {r : Bool}
    (hex : xs.length = ys.length → ∃ p ∈ xs.zip ys, ∀ r, f p.1 p.2 = some r → r = false)
    (h : pairwise? f xs ys = some r) : r = false := by
  unfold pairwise? at h
  split at h
  · next hlength =>
    obtain ⟨p, hp, hfails⟩ := hex (eq_of_beq hlength)
    have hall := all_of_allM (g := fun p => (f p.1 p.2).getD false) (fun p _ r hr => by rw [hr]; rfl) h
    rw [← hall]
    refine List.all_eq_false.mpr ⟨p, hp, ?_⟩
    cases hr : f p.1 p.2 with
    | none => simp
    | some r => simp [hfails r hr]
  · exact (Option.some.inj h).symm

theorem exists_mem_zip {α β : Type} {xs : List α} {ys : List β} (hlength : xs.length = ys.length) :
    (∀ x ∈ xs, ∃ y, (x, y) ∈ xs.zip ys) ∧ ∀ y ∈ ys, ∃ x, (x, y) ∈ xs.zip ys := by
  have hleft := List.map_fst_zip (Nat.le_of_eq hlength)
  have hright := List.map_snd_zip (Nat.le_of_eq hlength.symm)
  constructor
  · intro x hx
    obtain ⟨p, hp, rfl⟩ := List.mem_map.mp (hleft.symm ▸ hx : x ∈ (xs.zip ys).map Prod.fst)
    exact ⟨p.2, hp⟩
  · intro y hy
    obtain ⟨p, hp, rfl⟩ := List.mem_map.mp (hright.symm ▸ hy : y ∈ (xs.zip ys).map Prod.snd)
    exact ⟨p.1, hp⟩

variable {compare : TypeId → TypeId → Option Bool} {same : TypeId → TypeId → Bool} {r : Bool}

/-- What is left to compare of two types that are no weak aliases. -/
def shapesAlike (t : Tables) (same : TypeId → TypeId → Bool) (a b : TypeId) : Bool :=
  (t.shape a).head == (t.shape b).head &&
    ((t.shape a).parts.zip (t.shape b).parts).all fun parts => same parts.1 parts.2

/-- The name and the type of a field, if the symbol is one. -/
def namedField? (t : Tables) (field : SymbolId) : Option (String × TypeId) :=
  (t.symbols.field? field).map fun f => (t.symbols.name field, f.type)

theorem namedField?_of_get? {field : SymbolId} {entry : Symbol} {info : FieldInfo}
    (h : t.symbols.get? field = some entry) (hkind : entry.kind = .field info) :
    t.namedField? field = some (entry.name, info.type) := by
  have hfield : t.symbols.field? field = some info := by
    rw [SymbolTable.field?, SymbolTable.kind?, h, Option.map_some, hkind]
  rw [namedField?, hfield, Option.map_some, SymbolTable.name, h]
  rfl

theorem structFields?_eq {symbol : SymbolId} {fields : List SymbolId} (h : t.fields? symbol = some fields) :
    t.structFields? symbol = fields.mapM t.namedField? := by
  unfold fields? at h
  unfold structFields?
  obtain ⟨kind, hkind, hfields⟩ := Option.map_eq_some_iff.mp h
  rw [hkind]
  split at hfields
  · exact hfields ▸ rfl
  · next hother =>
    subst hfields
    split
    · next info heq => exact absurd (Option.some.inj heq) (hother info)
    · rfl
    · next heq => cases heq

/-- Comparison of two symbols that a struct lists. -/
def fieldsAlike? (t : Tables) (compare : TypeId → TypeId → Option Bool) (f g : SymbolId) : Option Bool := do
  let f ← t.symbols.get? f
  let g ← t.symbols.get? g
  match f.kind, g.kind with
  | .field info, .field info' => if f.name == g.name then compare info.type info'.type else return false
  | _, _ => return false

theorem fieldsAlike?_of_entries {f g : SymbolId} {x y : String × TypeId} (hx : t.namedField? f = some x)
    (hy : t.namedField? g = some y) :
    t.fieldsAlike? compare f g = if x.1 == y.1 then compare x.2 y.2 else some false := by
  have hentry {field : SymbolId} {x : String × TypeId} (hx : t.namedField? field = some x) :
      ∃ entry info, t.symbols.get? field = some entry ∧ entry.kind = .field info ∧
        x = (entry.name, info.type) := by
    obtain ⟨info, hinfo, rfl⟩ := Option.map_eq_some_iff.mp hx
    unfold SymbolTable.field? at hinfo
    split at hinfo
    · next heq =>
      obtain ⟨entry, hentry, hkind⟩ := Option.map_eq_some_iff.mp heq
      exact ⟨entry, info, hentry, Option.some.inj hinfo ▸ hkind, by rw [SymbolTable.name, hentry]; rfl⟩
    · cases hinfo
  obtain ⟨f, info, hf, hkind, rfl⟩ := hentry hx
  obtain ⟨g, info', hg, hkind', rfl⟩ := hentry hy
  simp only [fieldsAlike?, hf, hg, Option.bind_eq_bind, Option.bind_some, hkind, hkind']
  rfl

theorem eq_false_of_namedField?_eq_none {f g : SymbolId}
    (hnone : t.namedField? f = none ∨ t.namedField? g = none)
    (h : t.fieldsAlike? compare f g = some r) : r = false := by
  obtain ⟨f', hf, h⟩ := Option.bind_eq_some_iff.mp h
  obtain ⟨g', hg, h⟩ := Option.bind_eq_some_iff.mp h
  split at h
  · next info info' hkind hkind' =>
    rcases hnone with hnone | hnone
    · cases hnone.symm.trans (namedField?_of_get? hf hkind)
    · cases hnone.symm.trans (namedField?_of_get? hg hkind')
  · exact (Option.some.inj h).symm

/-- The comparison of the symbols that two structs list fails if one of them is no field. -/
theorem eq_false_of_missing {fields fields' : List SymbolId}
    (hnone : fields.mapM t.namedField? = none ∨ fields'.mapM t.namedField? = none)
    (h : pairwise? (t.fieldsAlike? compare) fields fields' = some r) : r = false := by
  have hmissing {fields : List SymbolId} (h : fields.mapM t.namedField? = none) :
      ∃ f ∈ fields, t.namedField? f = none := by
    by_contra hall
    obtain ⟨entries, hentries⟩ := exists_mapM_eq_some fun f hf =>
      Option.ne_none_iff_exists'.mp fun hnone => hall ⟨f, hf, hnone⟩
    cases h.symm.trans hentries
  refine false_of_mem_zip (fun hlength => ?_) h
  rcases hnone with hnone | hnone
  · obtain ⟨f, hf, hnone⟩ := hmissing hnone
    obtain ⟨g, hpair⟩ := (exists_mem_zip hlength).1 f hf
    exact ⟨(f, g), hpair, fun _ => eq_false_of_namedField?_eq_none (.inl hnone)⟩
  · obtain ⟨g, hg, hnone⟩ := hmissing hnone
    obtain ⟨f, hpair⟩ := (exists_mem_zip hlength).2 g hg
    exact ⟨(f, g), hpair, fun _ => eq_false_of_namedField?_eq_none (.inr hnone)⟩

theorem shapesAlike_of_ne (h : (t.shape a).head ≠ (t.shape b).head) : t.shapesAlike same a b = false := by
  rw [shapesAlike, beq_eq_false_iff_ne.mpr h, Bool.false_and]

/-- Fields that are all there are compared by their entries. -/
theorem pairwise?_eq_of_entries {fields fields' : List SymbolId} {entries entries' : List (String × TypeId)}
    (h : fields.mapM t.namedField? = some entries) (h' : fields'.mapM t.namedField? = some entries') :
    pairwise? (t.fieldsAlike? compare) fields fields' =
      pairwise? (fun x y => if x.1 == y.1 then compare x.2 y.2 else some false) entries entries' := by
  rw [mapM_eq_some_iff_map] at h h'
  have hlength : fields.length = entries.length := by simpa using congrArg List.length h
  have hlength' : fields'.length = entries'.length := by simpa using congrArg List.length h'
  unfold pairwise?
  rw [hlength, hlength']
  split
  · clear hlength hlength'
    induction fields generalizing fields' entries entries' with
    | nil =>
        obtain rfl := List.map_eq_nil_iff.mp h.symm
        rfl
    | cons f fields ih =>
        obtain ⟨x, entries, rfl, hx, hentries⟩ := List.map_eq_cons_iff.mp h.symm
        cases fields' with
        | nil =>
            obtain rfl := List.map_eq_nil_iff.mp h'.symm
            rfl
        | cons g fields' =>
            obtain ⟨y, entries', rfl, hy, hentries'⟩ := List.map_eq_cons_iff.mp h'.symm
            rename_i hlength
            simp only [List.zip_cons_cons, List.allM, fieldsAlike?_of_entries hx.symm hy.symm]
            rw [ih hentries.symm hentries'.symm (by simpa using hlength)]
  · rfl

section

variable (hcompare : ∀ x y r, compare x y = some r → same x y = r)
include hcompare

/-- Entries are compared by their keys and then by their parts. -/
theorem columns_of_keyed {κ : Type} [BEq κ] [LawfulBEq κ] {xs ys : List (κ × TypeId)}
    (h : pairwise? (fun x y => if x.1 == y.1 then compare x.2 y.2 else some false) xs ys = some r) :
    (xs.map (·.1) == ys.map (·.1) &&
      ((xs.map (·.2)).zip (ys.map (·.2))).all fun p => same p.1 p.2) = r :=
  columns_of_pairwise? (fun _ _ _ _ _ hr => key_and_of_ite (hcompare _ _ _) hr) h

theorem structs_alike {symbol symbol' : SymbolId} {fields fields' : List SymbolId} (hne : a ≠ b)
    (ha : t.types.get? a = some (.structType symbol)) (hb : t.types.get? b = some (.structType symbol'))
    (hfields : t.fields? symbol = some fields) (hfields' : t.fields? symbol' = some fields')
    (h : pairwise? (t.fieldsAlike? compare) fields fields' = some r) : t.shapesAlike same a b = r := by
  have hlisted := structFields?_eq hfields
  have hlisted' := structFields?_eq hfields'
  -- A symbol that is no field is equal to none, and the two types are told apart by their numbers.
  cases hentries : fields.mapM t.namedField? with
  | none =>
      obtain rfl := eq_false_of_missing (.inl hentries) h
      refine shapesAlike_of_ne ?_
      simp only [shape, ha, hb, hlisted, hentries]
      split <;> simp [hne]
  | some entries =>
      cases hentries' : fields'.mapM t.namedField? with
      | none =>
          obtain rfl := eq_false_of_missing (.inr hentries') h
          exact shapesAlike_of_ne (by simp [shape, ha, hb, hlisted, hlisted', hentries, hentries'])
      | some entries' =>
          rw [pairwise?_eq_of_entries hentries hentries'] at h
          have hcolumns := columns_of_keyed hcompare h
          have hheads (names names' : List String) :
              (TypeHead.structType names == .structType names') = (names == names') :=
            Bool.eq_iff_iff.mpr (by simp)
          simp only [shapesAlike, shape, ha, hb, hlisted, hlisted', hentries, hentries', hheads, hcolumns]

theorem funcs_alike {params params' : List (RefKind × TypeId)} {ret ret' : TypeId}
    (ha : t.types.get? a = some (.func params ret)) (hb : t.types.get? b = some (.func params' ret'))
    (h : ((pairwise? (fun p q => if p.1 == q.1 then compare p.2 q.2 else some false) params params').bind
      fun alike => if alike then compare ret ret' else some false) = some r) :
    t.shapesAlike same a b = r := by
  obtain ⟨alike, halike, h⟩ := Option.bind_eq_some_iff.mp h
  have hcolumns := columns_of_keyed hcompare halike
  have hheads (passing passing' : List RefKind) :
      (TypeHead.func passing == .func passing') = (passing == passing') := Bool.eq_iff_iff.mpr (by simp)
  simp only [shapesAlike, shape, ha, hb, hheads]
  cases hpassing : params.map (·.1) == params'.map (·.1) with
  | false =>
      rw [hpassing, Bool.false_and] at hcolumns
      subst hcolumns
      exact Option.some.inj h
  | true =>
      have hlength : (params.map (·.2)).length = (params'.map (·.2)).length := by
        simpa using congrArg List.length (eq_of_beq hpassing)
      rw [hpassing, Bool.true_and] at hcolumns
      rw [List.zip_append hlength, List.all_append, hcolumns, Bool.true_and]
      cases alike with
      | false => exact Option.some.inj h
      | true => simpa using hcompare _ _ _ h

theorem hosts_alike {symbol symbol' : SymbolId} {info info' : HostInfo}
    (ha : t.types.get? a = some (.hostType symbol)) (hb : t.types.get? b = some (.hostType symbol'))
    (hinfo : t.symbols.kind? symbol = some (.hostType info))
    (hinfo' : t.symbols.kind? symbol' = some (.hostType info'))
    (h : (if info.size == info'.size && info.align == info'.align then
      pairwise? (fun f g => if f.name == g.name && f.offset == g.offset then compare f.type g.type
        else some false) info.fields info'.fields
      else some false) = some r) : t.shapesAlike same a b = r := by
  have hheads (size size' align align' : UInt64) (fields fields' : List (String × UInt64)) :
      (TypeHead.hostType size align fields == .hostType size' align' fields') =
        (size == size' && align == align' && fields == fields') :=
    Bool.eq_iff_iff.mpr (by simp [and_assoc])
  simp only [shapesAlike, shape, ha, hb, hinfo, hinfo', hheads]
  split at h
  · next hsizes =>
    rw [hsizes, Bool.true_and]
    have hkey (f g : HostSlot) : (f.name == g.name && f.offset == g.offset) =
        ((f.name, f.offset) == (g.name, g.offset)) := rfl
    simp only [hkey] at h
    exact columns_of_pairwise? (fun f _ g _ r hr => key_and_of_ite (hcompare _ _ _) hr) h
  · next hsizes =>
    rw [Bool.eq_false_iff.mpr hsizes, Bool.false_and, Bool.false_and]
    exact Option.some.inj h

omit hcompare in
/-- Host types with one head that are not one type have the fields and the size of host types. -/
theorem hosts_of_head_eq {symbol symbol' : SymbolId} {kind kind' : SymbolKind} (hne : a ≠ b)
    (ha : t.types.get? a = some (.hostType symbol)) (hb : t.types.get? b = some (.hostType symbol'))
    (hkind : t.symbols.kind? symbol = some kind) (hkind' : t.symbols.kind? symbol' = some kind')
    (heads : (t.shape a).head = (t.shape b).head) :
    ∃ info info', kind = .hostType info ∧ kind' = .hostType info' := by
  simp only [shape, ha, hb, hkind, hkind'] at heads
  split at heads
  · next info hinfo =>
    split at heads
    · next info' hinfo' => exact ⟨info, info', Option.some.inj hinfo, Option.some.inj hinfo'⟩
    · cases heads
  · split at heads
    · cases heads
    · exact absurd (TypeHead.nominal.inj heads) hne

/-- What is found of two types is whether their shapes are alike, if they are not one type. -/
theorem shapesAlike_of_shapesAlike? (hne : a ≠ b) (h : t.shapesAlike? compare a b = some r) :
    t.shapesAlike same a b = r := by
  unfold shapesAlike? at h
  obtain ⟨tyA, ha, h⟩ := Option.bind_eq_some_iff.mp h
  obtain ⟨tyB, hb, h⟩ := Option.bind_eq_some_iff.mp h
  split at h
  case h_1 => simpa [shapesAlike, shape, ha, hb] using hcompare _ _ _ h
  case h_2 => exact funcs_alike hcompare ha hb h
  case h_3 =>
    obtain ⟨fields, hfields, h⟩ := Option.bind_eq_some_iff.mp h
    obtain ⟨fields', hfields', h⟩ := Option.bind_eq_some_iff.mp h
    exact structs_alike hcompare hne ha hb hfields hfields' h
  case h_4 =>
    obtain ⟨kind, hkind, h⟩ := Option.bind_eq_some_iff.mp h
    obtain ⟨kind', hkind', h⟩ := Option.bind_eq_some_iff.mp h
    split at h
    · exact hosts_alike hcompare ha hb hkind hkind' h
    · next hhosts =>
      obtain rfl := Option.some.inj h
      refine shapesAlike_of_ne fun heads => ?_
      obtain ⟨info, info', hinfo, hinfo'⟩ := hosts_of_head_eq hne ha hb hkind hkind' heads
      exact hhosts info info' hinfo hinfo'
  case h_5 harrays hfuncs hstructs hhosts =>
    obtain rfl := Option.some.inj h
    refine shapesAlike_of_ne fun heads => ?_
    have hA := shaped_shape t a
    have hB := shaped_shape t b
    generalize t.shape a = shapeA at hA heads
    generalize t.shape b = shapeB at hB heads
    cases hA with
    | array h => cases hB with
      | array h' => exact harrays _ _ (Option.some.inj (ha.symm.trans h)) (Option.some.inj (hb.symm.trans h'))
      | _ => cases heads
    | func h => cases hB with
      | func h' => exact hfuncs _ _ _ _ (Option.some.inj (ha.symm.trans h)) (Option.some.inj (hb.symm.trans h'))
      | _ => cases heads
    | structType h => cases hB with
      | structType h' =>
          exact hstructs _ _ (Option.some.inj (ha.symm.trans h)) (Option.some.inj (hb.symm.trans h'))
      | _ => cases heads
    | hostType h => cases hB with
      | hostType h' =>
          exact hhosts _ _ (Option.some.inj (ha.symm.trans h)) (Option.some.inj (hb.symm.trans h'))
      | _ => cases heads
    | nominal => cases hB with
      | nominal => exact hne (TypeHead.nominal.inj heads)
      | _ => cases heads

end

/-- A comparison that reads what it compares finds what `sameUnder` finds. -/
theorem sameUnder_of_sameUnder? {bound : Nat} {assumed : List (TypeId × TypeId)} {r : Bool}
    (h : t.sameUnder? bound assumed a b = some r) : t.sameUnder bound assumed a b = r := by
  induction bound generalizing assumed a b r with
  | zero => cases h
  | succ bound ih =>
      rw [sameUnder?] at h
      obtain ⟨a', ha, h⟩ := Option.bind_eq_some_iff.mp h
      obtain ⟨b', hb, h⟩ := Option.bind_eq_some_iff.mp h
      obtain rfl := (concrete?_eq_some_iff.mp ha).2
      obtain rfl := (concrete?_eq_some_iff.mp hb).2
      rw [sameUnder]
      split at h
      · next hknown => rw [hknown, Bool.true_or]; exact Option.some.inj h
      · next hnew =>
        have hne : t.concrete a ≠ t.concrete b := by
          rintro heq
          exact hnew (by rw [heq, beq_self_eq_true, Bool.true_or])
        rw [Bool.eq_false_iff.mpr hnew, Bool.false_or]
        exact shapesAlike_of_shapesAlike? (fun _ _ _ => ih) hne h

theorem same?_eq_some_iff {r : Bool} : t.same? a b = some r ↔ (t.same? a b).isSome ∧ t.same a b = r :=
  eq_some_iff_of_agrees fun _ => sameUnder_of_sameUnder?

end Tables

end Stela
