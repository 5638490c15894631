import Stela.Helper.Name
import Stela.Proofs.Types.Enclosed
import Stela.Token.Pattern
import Mathlib.Data.List.Forall2

/-!
# Names of helpers are uniquely decodable

The name of a helper tells its operation and its type up to weak aliases. The
code of a type has no separators: counts, marks, builtin names and the lengths
and numbers of symbols follow each other directly. It can still be read from the
left, since its first letter tells which form the type has, a count is followed
by a letter, and a name by as many bytes as announced.
-/

namespace Stela

/-- The letter of a nominal type and its symbol. -/
def Ty.nominal? : Ty → Option (String × SymbolId)
  | .structType symbol => some ("S", symbol)
  | .enumType symbol => some ("E", symbol)
  | .hostType symbol => some ("U", symbol)
  | .aliasType symbol => some ("N", symbol)
  | .pending symbol => some ("P", symbol)
  | _ => none

/-- The first letter of a code, which tells the form of the type. -/
def Ty.letter : Ty → Char
  | .builtin .void => 'v'
  | .builtin .bool | .builtin .byte => 'b'
  | .builtin .char => 'c'
  | .builtin .real => 'r'
  | .builtin .sint => 's'
  | .builtin .uint => 'u'
  | .array _ => 'A'
  | .func .. => 'F'
  | .structType _ => 'S'
  | .enumType _ => 'E'
  | .hostType _ => 'U'
  | .aliasType _ => 'N'
  | .pending _ => 'P'

/-- A letter or underscore, then letters, digits and underscores. -/
def isIdentifier (name : String) : Bool :=
  match name.toList with
  | [] => false
  | first :: rest => isIdentStart first && rest.all isIdentPart

/-! ## Numbers and names in front of more text -/

/-- The text does not go on with a digit. -/
def StopsDigits (rest : List Char) : Prop := ∀ c ∈ rest.head?, c.isDigit = false

theorem takeWhile_toDigits (n : Nat) {x : List Char} (hx : StopsDigits x) :
    (Nat.toDigits 10 n ++ x).takeWhile Char.isDigit = Nat.toDigits 10 n := by
  rw [List.takeWhile_append_of_pos fun c hc =>
    Nat.isDigit_of_mem_toDigits (by decide) (by decide) hc]
  cases x with
  | nil => simp
  | cons c rest => simp [hx c rfl]

/-- A number ends where the digits end. -/
theorem toDigits_append_inj {m n : Nat} {x y : List Char} (hx : StopsDigits x)
    (hy : StopsDigits y) (h : Nat.toDigits 10 m ++ x = Nat.toDigits 10 n ++ y) :
    m = n ∧ x = y := by
  have hdigits : Nat.toDigits 10 m = Nat.toDigits 10 n := by
    rw [← takeWhile_toDigits m hx, h, takeWhile_toDigits n hy]
  have hnumber := congrArg (Nat.ofDigitChars 10 · 0) hdigits
  rw [hdigits] at h
  exact ⟨by simpa using hnumber, List.append_cancel_left h⟩

/-- A text of known size ends where its bytes end. -/
theorem toList_append_inj {name name' : String} {x y : List Char}
    (hsize : name.utf8ByteSize = name'.utf8ByteSize) (h : name.toList ++ x = name'.toList ++ y) :
    name = name' ∧ x = y := by
  have hprefix {name name' : String} {more : List Char}
      (hsize : name.utf8ByteSize = name'.utf8ByteSize) (h : name'.toList = name.toList ++ more) :
      more = [] := by
    have hname : name' = name ++ String.ofList more := String.toList_inj.mp (by simp [h])
    rw [hname, String.utf8ByteSize_append] at hsize
    have hzero : (String.ofList more).utf8ByteSize = 0 := by omega
    simpa using hzero
  rcases List.append_eq_append_iff.mp h with ⟨more, hname, hx⟩ | ⟨more, hname, hy⟩
  · obtain rfl := hprefix hsize hname
    exact ⟨(String.toList_inj.mp (by simpa using hname)).symm, by simpa using hx⟩
  · obtain rfl := hprefix hsize.symm hname
    exact ⟨String.toList_inj.mp (by simpa using hname), by simpa using hy.symm⟩

theorem isDigit_of_isIdentStart {c : Char} (h : isIdentStart c) : c.isDigit = false := by
  by_contra hdigit
  simp only [isIdentStart, Char.isDigit, Bool.or_eq_true, Bool.and_eq_true, decide_eq_true_eq,
    beq_iff_eq, Bool.not_eq_false, Char.le_def, UInt32.le_iff_toNat_le, ge_iff_le] at h hdigit
  rcases h with (⟨h, -⟩ | ⟨h, -⟩) | rfl
  · exact absurd (h.trans hdigit.2) (by decide)
  · exact absurd (h.trans hdigit.2) (by decide)
  · exact absurd hdigit.2 (by decide)

theorem stopsDigits_of_isIdentifier {name : String} (h : isIdentifier name) (x : List Char) :
    StopsDigits (name.toList ++ x) := by
  rw [isIdentifier] at h
  cases hname : name.toList with
  | nil => simp [hname] at h
  | cons first rest =>
      rw [hname] at h
      rintro c ⟨⟩
      exact isDigit_of_isIdentStart (Bool.and_eq_true_iff.mp h).1

namespace Tables

variable {t : Tables} {type part a b : TypeId} {ty : Ty}

/-! ## What a type refers to -/

/-- The target of a weak alias, or the parts of an array or a function type. -/
def references (t : Tables) (type : TypeId) : List TypeId :=
  (t.aliasTarget? false type).toList ++ ((t.types.get? type).map Ty.parts).getD []

/-- A weak alias refers to its target, an array or a function type to its parts. -/
def RefersTo (t : Tables) (type part : TypeId) : Prop := part ∈ t.references type

/-- No type refers to itself, directly or through others. -/
def NoAliasCycle (t : Tables) : Prop := ∀ type, ¬ Relation.TransGen t.RefersTo type type

/-- Types refer to entries of the table only. -/
def RefersInside (t : Tables) : Prop := ∀ type part, t.RefersTo type part → part < t.types.size

/-- The symbols that types are named after have identifiers as names. -/
def NamedByIdentifiers (t : Tables) : Prop :=
  ∀ ty ∈ t.types.entries.toList, ∀ nominal ∈ ty.nominal?, isIdentifier (t.symbols.name nominal.2)

instance : Decidable t.NamedByIdentifiers :=
  inferInstanceAs (Decidable (∀ ty ∈ t.types.entries.toList, ∀ nominal ∈ ty.nominal?,
    isIdentifier (t.symbols.name nominal.2)))

/-- A symbol with an identifier as its name is there. -/
theorem NamedByIdentifiers.namesKnown (h : t.NamedByIdentifiers) : t.NamesKnown := by
  intro type ty symbol htype hnamed
  obtain ⟨mark, hnominal⟩ : ∃ mark, ty.nominal? = some (mark, symbol) := by
    cases ty <;> simp_all [Ty.named?, Ty.nominal?]
  have hname := h ty (List.mem_of_getElem? (by simpa [TypeTable.get?] using htype)) _ hnominal
  by_contra hmissing
  have hnone : t.symbols.get? symbol = none := Array.getElem?_eq_none (Nat.le_of_not_lt hmissing)
  rw [SymbolTable.name, hnone] at hname
  exact absurd hname (by decide)

/-- Only an entry of the table refers to others. -/
theorem RefersTo.lt_size (h : t.RefersTo type part) : type < t.types.size := by
  rcases List.mem_append.mp h with h | h
  · exact AliasStep.lt_size (Option.mem_toList.mp h)
  · cases hty : t.types.get? type with
    | none => simp [hty] at h
    | some ty => exact (Array.getElem?_eq_some_iff.mp hty).1

/-- A table has no alias cycle if some measure of its entries decreases along references. -/
theorem noAliasCycle_of_rank (rank : TypeId → Nat)
    (h : ∀ type < t.types.size, ∀ part ∈ t.references type, rank part < rank type) :
    t.NoAliasCycle :=
  not_transGen_self_of_rank rank fun type part step => h type step.lt_size part step

theorem refersInside_of_forall
    (h : ∀ type < t.types.size, ∀ part ∈ t.references type, part < t.types.size) :
    t.RefersInside :=
  fun type part step => h type step.lt_size part step

theorem part_of_refersTo (h : t.RefersTo type part) : t.Part type part := by
  rcases List.mem_append.mp h with h | h
  · obtain ⟨symbol, info, htype, hsymbol, htarget⟩ := exists_of_aliasTarget? (Option.mem_toList.mp h)
    exact .target htype hsymbol htarget
  · cases hty : t.types.get? type with
    | none => simp [hty] at h
    | some ty => exact part_of_mem_parts hty (by simpa [hty] using h)

theorem Enclosed.refersInside (h : t.Enclosed) : t.RefersInside :=
  fun type part step => h.parts type part (part_of_refersTo step)

/-- Unwrapping a weak alias goes along references. -/
theorem reflTransGen_concrete (t : Tables) (type : TypeId) :
    Relation.ReflTransGen t.RefersTo type (t.concrete type) := by
  rw [concrete]
  generalize t.types.size = bound
  induction bound generalizing type with
  | zero => exact .refl
  | succ bound ih =>
      rw [unwrap]
      cases htarget : t.aliasTarget? false type with
      | none => exact .refl
      | some target =>
          exact .head (List.mem_append_left _ (Option.mem_toList.mpr htarget)) (ih target)

/-- A type refers to the parts of the type that it is behind weak aliases. -/
theorem transGen_of_mem_parts (hty : t.concreteTy? type = some ty) (hpart : part ∈ ty.parts) :
    Relation.TransGen t.RefersTo type part := by
  refine .tail' (t.reflTransGen_concrete type) (List.mem_append_right _ ?_)
  rw [concreteTy?] at hty
  simpa [hty] using hpart

/-- What a type is behind weak aliases is an entry of the table. -/
theorem concrete_lt_size (hinside : t.RefersInside) (htype : type < t.types.size) :
    t.concrete type < t.types.size := by
  rcases (t.reflTransGen_concrete type).cases_tail with heq | ⟨last, -, hlast⟩
  · exact heq.symm ▸ htype
  · exact hinside _ _ hlast

theorem exists_concreteTy (hinside : t.RefersInside) (htype : type < t.types.size) :
    ∃ ty, t.concreteTy? type = some ty :=
  ⟨_, Array.getElem?_eq_getElem (concrete_lt_size hinside htype)⟩

theorem part_lt_size (hinside : t.RefersInside) (hty : t.concreteTy? type = some ty)
    (hpart : part ∈ ty.parts) : part < t.types.size := by
  obtain ⟨last, -, hlast⟩ := (Relation.TransGen.tail'_iff.mp (transGen_of_mem_parts hty hpart))
  exact hinside _ _ hlast

/-- The number of entries that a type refers to, directly or through others. -/
noncomputable def referenceCount (t : Tables) (type : TypeId) : Nat :=
  (reached t.RefersTo t.types.size type).card

theorem referenceCount_lt (hcycle : t.NoAliasCycle) (hty : t.concreteTy? type = some ty)
    (hpart : part ∈ ty.parts) : t.referenceCount part < t.referenceCount type := by
  have path := transGen_of_mem_parts hty hpart
  obtain ⟨next, step, -⟩ := Relation.TransGen.head'_iff.mp path
  exact card_reached_lt step.lt_size (hcycle type) path

theorem AliasStep.refersTo (h : t.AliasStep false type part) : t.RefersTo type part :=
  List.mem_append_left _ (Option.mem_toList.mpr h)

theorem NoAliasCycle.aliasesEnd (h : t.NoAliasCycle) : t.AliasesEnd false :=
  aliasesEnd_of_rank t.referenceCount fun type hlt _ htarget =>
    card_reached_lt hlt (h type) (.single (AliasStep.refersTo htarget))

/-- What is an entry behind weak aliases is one itself. -/
theorem lt_size_of_concreteTy? (h : t.concreteTy? type = some ty) : type < t.types.size := by
  rcases (t.reflTransGen_concrete type).cases_head with heq | ⟨next, step, -⟩
  · rw [concreteTy?, ← heq] at h
    exact (Array.getElem?_eq_some_iff.mp h).1
  · exact step.lt_size

/-! ## One level of a code -/

theorem helperName_of_helperName? {op : LifetimeOp} {name : String}
    (h : t.helperName? op type = some name) : t.helperName op type = name := by
  rw [helperName, h, Option.getD_some]

section Level

variable (hcycle : t.NoAliasCycle) (hinside : t.RefersInside) (hnames : t.NamesKnown)
include hcycle hinside hnames

theorem concrete?_eq_concrete (htype : type < t.types.size) :
    t.concrete? type = some (t.concrete type) := by
  obtain ⟨last, -, hlast⟩ := exists_unwrap? hcycle.aliasesEnd hnames
    (fun a b step => hinside a b step.refersTo) htype (card_reached_le _ _ _)
  rw [concrete, unwrap_of_unwrap? hlast]
  exact hlast

/-- A type has one code for all bounds that leave room for all references. -/
theorem exists_codeWithin? (htype : type < t.types.size) :
    ∃ code, ∀ bound > t.referenceCount type, t.codeWithin? bound type = some code := by
  induction hn : t.referenceCount type using Nat.strong_induction_on generalizing type with
  | h n ih =>
      subst hn
      obtain ⟨ty, hty⟩ := exists_concreteTy hinside htype
      have hpart (part : TypeId) (hpart : part ∈ ty.parts) :
          ∃ code, ∀ bound ≥ t.referenceCount type, t.codeWithin? bound part = some code := by
        have hlt := referenceCount_lt hcycle hty hpart
        obtain ⟨code, hcode⟩ := ih _ hlt (part_lt_size hinside hty hpart) rfl
        exact ⟨code, fun bound hbound => hcode bound (hlt.trans_le hbound)⟩
      have hnominal (mark : String) (symbol : SymbolId) (h : ty.named? = some symbol) :
          ∃ code, t.nominalCode? mark symbol = some code := by
        obtain ⟨entry, hentry⟩ := exists_symbol (hnames _ ty symbol hty h)
        exact ⟨_, by rw [nominalCode?, hentry]; rfl⟩
      suffices h : ∃ code, ∀ bound ≥ t.referenceCount type,
          t.codeWithin? (bound + 1) type = some code by
        obtain ⟨code, hcode⟩ := h
        refine ⟨code, fun bound hbound => ?_⟩
        obtain ⟨bound, rfl⟩ := Nat.exists_eq_add_one.mpr (Nat.zero_lt_of_lt hbound)
        exact hcode bound (Nat.le_of_lt_succ hbound)
      rw [concreteTy?] at hty
      cases ty <;> simp only [codeWithin?, concrete?_eq_concrete hcycle hinside hnames htype, hty,
        Option.bind_eq_bind, Option.bind_some]
      case builtin kind => exact ⟨kind.name, fun _ _ => rfl⟩
      case array element =>
        obtain ⟨code, hcode⟩ := hpart element (by simp [Ty.parts])
        exact ⟨_, fun bound hbound => by rw [hcode bound hbound]; rfl⟩
      case func params ret =>
        obtain ⟨code, hcode⟩ := hpart ret (by simp [Ty.parts])
        obtain ⟨codes, hcodes⟩ := exists_mapM_of_bound
          (f := fun bound param => (t.codeWithin? bound param.2).map param.1.mark)
          fun param (hparam : param ∈ params) => by
          obtain ⟨code, hcode⟩ := hpart param.2 (List.mem_append_left _ (List.mem_map_of_mem hparam))
          exact ⟨_, fun bound hbound => by rw [hcode bound hbound]; rfl⟩
        exact ⟨_, fun bound hbound => by rw [hcodes bound hbound, hcode bound hbound]; rfl⟩
      all_goals
        obtain ⟨code, hcode⟩ := hnominal _ _ rfl
        exact ⟨code, fun _ _ => hcode⟩

theorem codeWithin?_eq (htype : type < t.types.size) {bound : Nat}
    (hbound : t.referenceCount type < bound) : t.codeWithin? bound type = some (t.code type) := by
  obtain ⟨code, hcode⟩ := exists_codeWithin? hcycle hinside hnames htype
  have hlast := hcode (t.types.size + 1) (Nat.lt_succ_of_le (card_reached_le _ _ _))
  rw [hcode bound hbound, Tables.code, code?, hlast, Option.getD_some]

theorem code?_eq (htype : type < t.types.size) : t.code? type = some (t.code type) :=
  codeWithin?_eq hcycle hinside hnames htype (Nat.lt_succ_of_le (card_reached_le _ _ _))

/-- The helper for an operation on a type of the table has a name. -/
theorem helperName?_eq (op : LifetimeOp) (htype : type < t.types.size) :
    t.helperName? op type = some (t.helperName op type) := by
  rw [helperName, helperName?, code?_eq hcycle hinside hnames htype]
  rfl

end Level

/-- The letters of the code of a type. -/
def codeChars (t : Tables) (type : TypeId) : List Char := (t.code type).toList

/-- The letters of the code of a parameter. -/
def paramChars (t : Tables) (param : RefKind × TypeId) : List Char :=
  match param.1 with
  | .reference => 'r' :: t.codeChars param.2
  | .value => t.codeChars param.2

/-- The letters of the code of an entry of the table. -/
def tyChars (t : Tables) : Ty → List Char
  | .builtin kind => kind.name.toList
  | .array element => 'A' :: t.codeChars element
  | .func params ret =>
    'F' :: (Nat.toDigits 10 params.length ++
      (params.flatMap t.paramChars ++ 'R' :: t.codeChars ret))
  | .structType symbol => (nominalCode "S" (t.symbols.name symbol) symbol).toList
  | .enumType symbol => (nominalCode "E" (t.symbols.name symbol) symbol).toList
  | .hostType symbol => (nominalCode "U" (t.symbols.name symbol) symbol).toList
  | .aliasType symbol => (nominalCode "N" (t.symbols.name symbol) symbol).toList
  | .pending symbol => (nominalCode "P" (t.symbols.name symbol) symbol).toList

theorem nominalCode?_eq_some_iff {mark code : String} {symbol : SymbolId} :
    t.nominalCode? mark symbol = some code ↔
      symbol < t.symbols.size ∧ nominalCode mark (t.symbols.name symbol) symbol = code := by
  rw [nominalCode?, Option.map_eq_some_iff]
  constructor
  · rintro ⟨entry, hentry, rfl⟩
    exact ⟨(Array.getElem?_eq_some_iff.mp hentry).1, by rw [SymbolTable.name, hentry]; rfl⟩
  · rintro ⟨hlt, rfl⟩
    obtain ⟨entry, hentry⟩ := exists_symbol hlt
    exact ⟨entry, hentry, by rw [SymbolTable.name, hentry]; rfl⟩

theorem codeChars_eq (hcycle : t.NoAliasCycle) (hinside : t.RefersInside) (hnames : t.NamesKnown)
    (hty : t.concreteTy? type = some ty) : t.codeChars type = t.tyChars ty := by
  have htype := lt_size_of_concreteTy? hty
  have hcode (part : TypeId) (hpart : part ∈ ty.parts) :
      t.codeWithin? t.types.size part = some (t.code part) := by
    have hlt := referenceCount_lt hcycle hty hpart
    have hle : t.referenceCount type ≤ t.types.size := card_reached_le _ _ _
    exact codeWithin?_eq hcycle hinside hnames (part_lt_size hinside hty hpart) (by omega)
  have hlevel := code?_eq hcycle hinside hnames htype
  have hentry : t.types.get? (t.concrete type) = some ty := hty
  rw [code?, codeWithin?, concrete?_eq_concrete hcycle hinside hnames htype] at hlevel
  simp only [Option.bind_eq_bind, Option.bind_some, hentry] at hlevel
  rw [codeChars]
  cases ty with
  | builtin kind => rw [← Option.some.inj hlevel, tyChars]
  | array element =>
      dsimp only at hlevel
      rw [hcode element (by simp [Ty.parts])] at hlevel
      rw [← Option.some.inj hlevel]
      simp [tyChars, codeChars]
  | func params ret =>
      have hparams : params.mapM (fun param =>
          (t.codeWithin? t.types.size param.2).map param.1.mark) =
            some (params.map fun param => param.1.mark (t.code param.2)) := by
        rw [mapM_eq_some_iff_map, List.map_map]
        refine List.map_congr_left fun param hparam => ?_
        rw [hcode _ (List.mem_append_left _ (List.mem_map_of_mem hparam))]
        rfl
      dsimp only at hlevel
      rw [hparams, hcode ret (by simp [Ty.parts])] at hlevel
      rw [← Option.some.inj hlevel]
      have hchars (param : RefKind × TypeId) :
          (param.1.mark (t.code param.2)).toList = t.paramChars param := by
        rw [paramChars]
        split <;> simp [codeChars, RefKind.mark, *]
      simp [String.toList_join, List.flatMap_map, tyChars, codeChars, hchars]
  | _ => rw [← (nominalCode?_eq_some_iff.mp hlevel).2, tyChars]

theorem toList_nominalCode (mark name : String) (symbol : SymbolId) :
    (nominalCode mark name symbol).toList = mark.toList ++
      (Nat.toDigits 10 name.utf8ByteSize ++ (name.toList ++ '_' :: Nat.toDigits 10 symbol)) := by
  simp [nominalCode]

/-- The number of a symbol can be read off its code. -/
theorem nominalCode_append_inj {mark mark' name name' : String} {symbol symbol' : SymbolId}
    {x y : List Char} (hmark : mark.length = mark'.length) (hname : isIdentifier name)
    (hname' : isIdentifier name') (hx : StopsDigits x) (hy : StopsDigits y)
    (h : (nominalCode mark name symbol).toList ++ x = (nominalCode mark' name' symbol').toList ++ y) :
    mark = mark' ∧ symbol = symbol' ∧ x = y := by
  simp only [toList_nominalCode, List.append_assoc, List.cons_append] at h
  obtain ⟨hmarks, h⟩ := List.append_inj h (by rw [String.length_toList, String.length_toList, hmark])
  obtain ⟨hsize, h⟩ := toDigits_append_inj (stopsDigits_of_isIdentifier hname _)
    (stopsDigits_of_isIdentifier hname' _) h
  obtain ⟨-, h⟩ := toList_append_inj hsize h
  obtain ⟨hsymbol, hxy⟩ := toDigits_append_inj hx hy (List.cons.inj h).2
  exact ⟨String.toList_inj.mp hmarks, hsymbol, hxy⟩

/-! ## Reading a code -/

/-- Two types that are the same once weak aliases are unwrapped at every level of arrays and
function types. -/
inductive UnwrapAlike (t : Tables) : TypeId → TypeId → Prop
  | same {a b : TypeId} {ty : Ty} (ha : t.concreteTy? a = some ty)
      (hb : t.concreteTy? b = some ty) : UnwrapAlike t a b
  | array {a b element element' : TypeId} (ha : t.concreteTy? a = some (.array element))
      (hb : t.concreteTy? b = some (.array element')) (helement : UnwrapAlike t element element') :
      UnwrapAlike t a b
  | func {a b ret ret' : TypeId} {params params' : List (RefKind × TypeId)}
      (ha : t.concreteTy? a = some (.func params ret))
      (hb : t.concreteTy? b = some (.func params' ret'))
      (hpassing : params.map (·.1) = params'.map (·.1))
      (hparams : List.Forall₂ (UnwrapAlike t) (params.map (·.2)) (params'.map (·.2)))
      (hret : UnwrapAlike t ret ret') : UnwrapAlike t a b

/-- The code of an entry starts with its letter. -/
theorem exists_tyChars (t : Tables) (ty : Ty) : ∃ rest, t.tyChars ty = ty.letter :: rest := by
  cases ty with
  | builtin kind => cases kind <;> exact ⟨_, rfl⟩
  | array | func => exact ⟨_, rfl⟩
  | _ => exact ⟨_, toList_nominalCode ..⟩

theorem letter_isDigit (ty : Ty) : ty.letter.isDigit = false := by
  cases ty with
  | builtin kind => cases kind <;> rfl
  | _ => rfl

theorem letter_ne_e (ty : Ty) : ty.letter ≠ 'e' := by
  cases ty with
  | builtin kind => cases kind <;> decide
  | _ => simp [Ty.letter]

theorem eq_real_of_letter (h : ty.letter = 'r') : ty = .builtin .real := by
  cases ty with
  | builtin kind => cases kind <;> first | rfl | exact absurd h (by decide)
  | _ => simp [Ty.letter] at h

/-- Types with one letter have one form. -/
theorem forms_of_letter {ty ty' : Ty} (h : ty.letter = ty'.letter) :
    (∃ kind kind', ty = .builtin kind ∧ ty' = .builtin kind') ∨
    (∃ element element', ty = .array element ∧ ty' = .array element') ∨
    (∃ params ret params' ret', ty = .func params ret ∧ ty' = .func params' ret') ∨
    ∃ mark symbol symbol', ty.nominal? = some (mark, symbol) ∧
      ty'.nominal? = some (mark, symbol') := by
  cases ty with
  | builtin kind =>
      cases ty' with
      | builtin kind' => exact .inl ⟨_, _, rfl, rfl⟩
      | _ => cases kind <;> simp [Ty.letter] at h
  | _ =>
      cases ty' with
      | builtin kind => cases kind <;> simp [Ty.letter] at h
      | _ => first | simp [Ty.letter] at h; done | simp [Ty.nominal?]

theorem eq_of_nominal? {ty ty' : Ty} {nominal : String × SymbolId}
    (h : ty.nominal? = some nominal) (h' : ty'.nominal? = some nominal) : ty = ty' := by
  obtain ⟨mark, symbol⟩ := nominal
  cases ty <;> simp only [Ty.nominal?, Option.some.injEq, Prod.mk.injEq, reduceCtorEq] at h <;>
    obtain ⟨rfl, rfl⟩ := h <;> cases ty' <;> simp_all [Ty.nominal?]

theorem tyChars_of_nominal? (t : Tables) {mark : String} {symbol : SymbolId}
    (h : ty.nominal? = some (mark, symbol)) :
    t.tyChars ty = (nominalCode mark (t.symbols.name symbol) symbol).toList := by
  cases ty <;> simp only [Ty.nominal?, Option.some.injEq, Prod.mk.injEq, reduceCtorEq] at h <;>
    obtain ⟨rfl, rfl⟩ := h <;> rfl

theorem length_name (kind : Builtin) : kind.name.toList.length = 4 := by
  cases kind <;> simp [Builtin.name]

theorem name_append_inj {kind kind' : Builtin} {x y : List Char}
    (h : kind.name.toList ++ x = kind'.name.toList ++ y) : kind = kind' ∧ x = y := by
  obtain ⟨hname, hxy⟩ := List.append_inj h (by rw [length_name, length_name])
  refine ⟨?_, hxy⟩
  have hname := String.toList_inj.mp hname
  cases kind <;> cases kind' <;> simp_all [Builtin.name]

section Reading

variable (hcycle : t.NoAliasCycle) (hinside : t.RefersInside) (hnames : t.NamesKnown) {x y : List Char}
include hcycle hinside hnames

/-- The code of an entry of the table starts with the letter of the type behind its aliases. -/
theorem exists_codeChars (ha : a < t.types.size) :
    ∃ ty rest, t.concreteTy? a = some ty ∧ t.codeChars a = t.tyChars ty ∧
      t.codeChars a = ty.letter :: rest := by
  obtain ⟨ty, hty⟩ := exists_concreteTy hinside ha
  obtain ⟨rest, hrest⟩ := t.exists_tyChars ty
  have hcode := codeChars_eq hcycle hinside hnames hty
  exact ⟨ty, rest, hty, hcode, hcode.trans hrest⟩

theorem codeChars_stopsDigits (ha : a < t.types.size) (x : List Char) :
    StopsDigits (t.codeChars a ++ x) := by
  obtain ⟨ty, rest, -, -, hcode⟩ := exists_codeChars hcycle hinside hnames ha
  rw [hcode]
  rintro c ⟨⟩
  exact letter_isDigit ty

/-- The mark of a reference is never the first letter of a builtin type: no code continues it to
the only name that starts with this letter. -/
theorem mark_append_ne (ha : a < t.types.size) (hb : b < t.types.size) :
    'r' :: t.codeChars a ++ x ≠ t.codeChars b ++ y := by
  intro h
  obtain ⟨tyA, restA, -, -, hcodeA⟩ := exists_codeChars hcycle hinside hnames ha
  obtain ⟨tyB, restB, -, hreal, hcodeB⟩ := exists_codeChars hcycle hinside hnames hb
  have hletter : tyB.letter = 'r' := by
    rw [hcodeB] at h
    exact (List.cons.inj h).1.symm
  rw [eq_real_of_letter hletter] at hreal
  rw [hcodeA, hreal] at h
  exact letter_ne_e tyA (List.cons.inj (List.cons.inj h).2).1

theorem paramChars_append_inj {param param' : RefKind × TypeId}
    (hparam : param.2 < t.types.size) (hparam' : param'.2 < t.types.size)
    (hread : t.codeChars param.2 ++ x = t.codeChars param'.2 ++ y →
      t.UnwrapAlike param.2 param'.2 ∧ x = y)
    (h : t.paramChars param ++ x = t.paramChars param' ++ y) :
    param.1 = param'.1 ∧ t.UnwrapAlike param.2 param'.2 ∧ x = y := by
  obtain ⟨passing, a⟩ := param
  obtain ⟨passing', b⟩ := param'
  cases passing <;> cases passing'
  case value.value => exact ⟨rfl, hread h⟩
  case reference.reference => exact ⟨rfl, hread (List.cons.inj h).2⟩
  case reference.value => exact absurd h (mark_append_ne hcycle hinside hnames hparam hparam')
  case value.reference => exact absurd h.symm (mark_append_ne hcycle hinside hnames hparam' hparam)

theorem params_stopsDigits {params : List (RefKind × TypeId)}
    (hparams : ∀ param ∈ params, param.2 < t.types.size) (hx : StopsDigits x) :
    StopsDigits (params.flatMap t.paramChars ++ x) := by
  cases params with
  | nil => exact hx
  | cons param rest =>
      obtain ⟨passing, a⟩ := param
      rw [List.flatMap_cons, List.append_assoc]
      cases passing with
      | value => exact codeChars_stopsDigits hcycle hinside hnames (hparams _ (by simp)) _
      | reference =>
          rintro c ⟨⟩
          rfl

/-- Parameters are read one by one. -/
theorem params_append_inj {params params' : List (RefKind × TypeId)}
    (hlength : params.length = params'.length)
    (hparams : ∀ param ∈ params, param.2 < t.types.size)
    (hparams' : ∀ param ∈ params', param.2 < t.types.size)
    (hread : ∀ param ∈ params, ∀ b < t.types.size, ∀ x y, StopsDigits x → StopsDigits y →
      t.codeChars param.2 ++ x = t.codeChars b ++ y → t.UnwrapAlike param.2 b ∧ x = y)
    (hx : StopsDigits x) (hy : StopsDigits y)
    (h : params.flatMap t.paramChars ++ x = params'.flatMap t.paramChars ++ y) :
    params.map (·.1) = params'.map (·.1) ∧
      List.Forall₂ t.UnwrapAlike (params.map (·.2)) (params'.map (·.2)) ∧ x = y := by
  induction params generalizing params' with
  | nil =>
      obtain rfl := List.length_eq_zero_iff.mp hlength.symm
      exact ⟨rfl, .nil, h⟩
  | cons param rest ih =>
      cases params' with
      | nil => cases hlength
      | cons param' rest' =>
          obtain ⟨hparam, hrest⟩ := List.forall_mem_cons.mp hparams
          obtain ⟨hparam', hrest'⟩ := List.forall_mem_cons.mp hparams'
          obtain ⟨hfirst, hlater⟩ := List.forall_mem_cons.mp hread
          rw [List.flatMap_cons, List.flatMap_cons, List.append_assoc, List.append_assoc] at h
          obtain ⟨hpassing, halike, h⟩ := paramChars_append_inj hcycle hinside hnames hparam hparam'
            (hfirst _ hparam' _ _ (params_stopsDigits hcycle hinside hnames hrest hx)
              (params_stopsDigits hcycle hinside hnames hrest' hy)) h
          obtain ⟨hpassings, halikes, hxy⟩ :=
            ih (Nat.succ.inj hlength) hrest hrest' hlater h
          exact ⟨by simp [hpassing, hpassings], .cons halike halikes, hxy⟩

/-- Codes that agree up to text that does not go on with a digit are those of types that unwrap
alike. -/
theorem codeChars_append_inj (hnamed : t.NamedByIdentifiers) (ha : a < t.types.size)
    (hb : b < t.types.size) (hx : StopsDigits x) (hy : StopsDigits y)
    (h : t.codeChars a ++ x = t.codeChars b ++ y) : t.UnwrapAlike a b ∧ x = y := by
  induction hn : t.referenceCount a using Nat.strong_induction_on generalizing a b x y with
  | h n ih =>
      subst hn
      obtain ⟨ty, rest, hty, hcode, hletter⟩ := exists_codeChars hcycle hinside hnames ha
      obtain ⟨ty', rest', hty', hcode', hletter'⟩ := exists_codeChars hcycle hinside hnames hb
      have hform : ty.letter = ty'.letter := by
        rw [hletter, hletter'] at h
        exact (List.cons.inj h).1
      have hread (part : TypeId) (hpart : part ∈ ty.parts) (b : TypeId) (hb : b < t.types.size)
          (x y : List Char) (hx : StopsDigits x) (hy : StopsDigits y)
          (h : t.codeChars part ++ x = t.codeChars b ++ y) : t.UnwrapAlike part b ∧ x = y :=
        ih _ (referenceCount_lt hcycle hty hpart) (part_lt_size hinside hty hpart) hb hx hy h rfl
      have hmem {type : TypeId} {ty : Ty} (hty : t.concreteTy? type = some ty) :
          ty ∈ t.types.entries.toList :=
        List.mem_of_getElem? (by simpa [concreteTy?, TypeTable.get?] using hty)
      rw [hcode, hcode'] at h
      rcases forms_of_letter hform with ⟨kind, kind', rfl, rfl⟩ | ⟨element, element', rfl, rfl⟩ |
        ⟨params, ret, params', ret', rfl, rfl⟩ | ⟨mark, symbol, symbol', hsymbol, hsymbol'⟩
      · obtain ⟨rfl, hxy⟩ := name_append_inj h
        exact ⟨.same hty hty', hxy⟩
      · obtain ⟨helement, hxy⟩ := hread element (by simp [Ty.parts]) element'
          (part_lt_size hinside hty' (by simp [Ty.parts])) x y hx hy (List.cons.inj h).2
        exact ⟨.array hty hty' helement, hxy⟩
      · have hparams : ∀ param ∈ params, param.2 ∈ (Ty.func params ret).parts := fun param h =>
          List.mem_append_left _ (List.mem_map_of_mem h)
        have hparams' : ∀ param ∈ params', param.2 < t.types.size := fun param h =>
          part_lt_size hinside hty' (List.mem_append_left _ (List.mem_map_of_mem h))
        have hinner : ∀ param ∈ params, param.2 < t.types.size := fun param h =>
          part_lt_size hinside hty (hparams param h)
        have hr (rest : List Char) : StopsDigits ('R' :: rest) := by rintro c ⟨⟩; rfl
        simp only [tyChars, List.cons_append, List.append_assoc] at h
        obtain ⟨hlength, h⟩ := toDigits_append_inj
          (params_stopsDigits hcycle hinside hnames hinner (hr _))
          (params_stopsDigits hcycle hinside hnames hparams' (hr _)) (List.cons.inj h).2
        obtain ⟨hpassing, halike, h⟩ := params_append_inj hcycle hinside hnames hlength hinner hparams'
          (fun param hparam => hread param.2 (hparams param hparam)) (hr _) (hr _) h
        obtain ⟨hret, hxy⟩ := hread ret (by simp [Ty.parts]) ret'
          (part_lt_size hinside hty' (by simp [Ty.parts])) x y hx hy (List.cons.inj h).2
        exact ⟨.func hty hty' hpassing halike hret, hxy⟩
      · rw [tyChars_of_nominal? t hsymbol, tyChars_of_nominal? t hsymbol'] at h
        obtain ⟨-, rfl, hxy⟩ := nominalCode_append_inj rfl (hnamed _ (hmem hty) _ hsymbol)
          (hnamed _ (hmem hty') _ hsymbol') hx hy h
        obtain rfl := eq_of_nominal? hsymbol hsymbol'
        exact ⟨.same hty hty', hxy⟩

end Reading

/-! ## Names of helpers -/

theorem flatMap_paramChars_eq {params params' : List (RefKind × TypeId)}
    (hpassing : params.map (·.1) = params'.map (·.1))
    (hparams : List.Forall₂ (fun a b => t.codeChars a = t.codeChars b)
      (params.map (·.2)) (params'.map (·.2))) :
    params.flatMap t.paramChars = params'.flatMap t.paramChars := by
  induction params generalizing params' with
  | nil =>
      obtain rfl := List.map_eq_nil_iff.mp hpassing.symm
      rfl
  | cons param rest ih =>
      cases params' with
      | nil => cases hpassing
      | cons param' rest' =>
          obtain ⟨hfirst, hpassing⟩ := List.cons.inj hpassing
          obtain ⟨hparam, hparams⟩ := List.forall₂_cons.mp hparams
          rw [List.flatMap_cons, List.flatMap_cons, ih hpassing hparams]
          simp only [paramChars, hfirst, hparam]

/-- Types that unwrap alike have one code. -/
theorem UnwrapAlike.codeChars_eq (hcycle : t.NoAliasCycle) (hinside : t.RefersInside)
    (hnames : t.NamesKnown) (h : t.UnwrapAlike a b) : t.codeChars a = t.codeChars b := by
  induction hn : t.referenceCount a using Nat.strong_induction_on generalizing a b with
  | h n ih =>
      subst hn
      have hlevel {type : TypeId} {ty : Ty} (hty : t.concreteTy? type = some ty) :
          t.codeChars type = t.tyChars ty := Tables.codeChars_eq hcycle hinside hnames hty
      have hparts {ty : Ty} (hty : t.concreteTy? a = some ty) (part : TypeId)
          (hpart : part ∈ ty.parts) (b : TypeId) (h : t.UnwrapAlike part b) :
          t.codeChars part = t.codeChars b :=
        ih _ (referenceCount_lt hcycle hty hpart) h rfl
      cases h with
      | same ha hb => rw [hlevel ha, hlevel hb]
      | array ha hb helement =>
          rw [hlevel ha, hlevel hb, tyChars, tyChars,
            hparts ha _ (by simp [Ty.parts]) _ helement]
      | @func _ _ ret ret' params params' ha hb hpassing hparams hret =>
          have hlength : params.length = params'.length := by
            simpa using congrArg List.length hpassing
          have hcodes : List.Forall₂ (fun a b => t.codeChars a = t.codeChars b)
              (params.map (·.2)) (params'.map (·.2)) :=
            ((List.forall₂_and_left _ _).mpr ⟨fun part hpart => hpart, hparams⟩).imp
              fun part b hpart => hparts ha part (List.mem_append_left _ hpart.1) b hpart.2
          rw [hlevel ha, hlevel hb, tyChars, tyChars,
            hlength, flatMap_paramChars_eq hpassing hcodes,
            hparts ha ret (by simp [Ty.parts]) _ hret]

/-- No name of an operation continues another one with an underscore. -/
theorem op_append_inj {p q : LifetimeOp} {x y : List Char}
    (h : p.name.toList ++ '_' :: x = q.name.toList ++ '_' :: y) : p = q ∧ x = y := by
  cases p <;> cases q <;> simp_all [LifetimeOp.name]

theorem toList_helperName (hcycle : t.NoAliasCycle) (hinside : t.RefersInside) (hnames : t.NamesKnown)
    (op : LifetimeOp) (htype : type < t.types.size) :
    (t.helperName op type).toList =
      "stela_".toList ++ (op.name.toList ++ '_' :: t.codeChars type) := by
  rw [helperName, helperName?, code?_eq hcycle hinside hnames htype]
  simp [codeChars]

/-- The name of a helper tells its operation and, up to unwrapping, its type. -/
theorem unwrapAlike_of_helperName_eq (hcycle : t.NoAliasCycle) (hinside : t.RefersInside)
    (hnamed : t.NamedByIdentifiers) {p q : LifetimeOp} (ha : a < t.types.size)
    (hb : b < t.types.size) (h : t.helperName p a = t.helperName q b) :
    p = q ∧ t.UnwrapAlike a b := by
  have hnames := hnamed.namesKnown
  rw [← String.toList_inj, toList_helperName hcycle hinside hnames p ha,
    toList_helperName hcycle hinside hnames q hb, List.append_cancel_left_eq] at h
  obtain ⟨rfl, hcodes⟩ := op_append_inj h
  have hend : StopsDigits [] := by rintro c ⟨⟩
  obtain ⟨halike, -⟩ := codeChars_append_inj hcycle hinside hnames hnamed ha hb hend hend
    (congrArg (· ++ []) hcodes)
  exact ⟨rfl, halike⟩

/-- Types that unwrap alike give the helper for an operation one name. -/
theorem UnwrapAlike.helperName_eq (hcycle : t.NoAliasCycle) (hinside : t.RefersInside)
    (hnames : t.NamesKnown) (ha : a < t.types.size) (hb : b < t.types.size) (h : t.UnwrapAlike a b)
    (op : LifetimeOp) : t.helperName op a = t.helperName op b := by
  rw [← String.toList_inj, toList_helperName hcycle hinside hnames op ha,
    toList_helperName hcycle hinside hnames op hb, h.codeChars_eq hcycle hinside hnames]

/-- In a table without alias cycles whose types are named after identifiers, two helpers have one
name exactly if they have one operation and their types unwrap alike. -/
theorem helperName_eq_iff (t : Tables) (hcycle : t.NoAliasCycle) (hinside : t.RefersInside)
    (hnamed : t.NamedByIdentifiers) (p q : LifetimeOp) (a b : TypeId) (ha : a < t.types.size)
    (hb : b < t.types.size) :
    t.helperName p a = t.helperName q b ↔ p = q ∧ t.UnwrapAlike a b := by
  constructor
  · exact unwrapAlike_of_helperName_eq hcycle hinside hnamed ha hb
  · rintro ⟨rfl, halike⟩
    exact halike.helperName_eq hcycle hinside hnamed.namesKnown ha hb p

/-- Functions `11` and `12` on arrays of arrays, in the first of which the inner array has a weak
alias, and functions `13` and `14` that take a `real` by value and by reference. -/
def nestedArrays : Tables where
  types := ⟨TypeTable.initial.entries ++
    #[.array 5, .aliasType 0, .array 8, .array 7, .func [(.reference, 9), (.value, 15)] 0,
      .func [(.reference, 10), (.value, 15)] 0, .func [(.value, 4)] 0, .func [(.reference, 4)] 0,
      .structType 1]⟩
  symbols := ⟨#[
    { name := "Row", span := .dummy, kind := .aliasType ⟨false, .resolved 7, 8⟩, scope := 0 },
    { name := "_1r", span := .dummy, kind := .structType ⟨1, [], 15⟩, scope := 0 }]⟩

/-- The alias makes no difference to a helper, the way in which a parameter is passed does. -/
theorem nestedArrays_helperName_eq_iff : nestedArrays.NoAliasCycle ∧ nestedArrays.RefersInside ∧
    nestedArrays.NamedByIdentifiers ∧
    nestedArrays.helperName .destroy 11 = nestedArrays.helperName .destroy 12 ∧
    nestedArrays.helperName .destroy 13 ≠ nestedArrays.helperName .destroy 14 := by
  have hcycle : nestedArrays.NoAliasCycle :=
    noAliasCycle_of_rank (fun type => if type = 15 then 0 else if type < 7 then 0 else
      if type = 7 then 1 else if type = 8 then 2 else if type < 11 then 3 else 4)
      (by decide +kernel)
  have hinside : nestedArrays.RefersInside := refersInside_of_forall (by decide +kernel)
  have hnamed : nestedArrays.NamedByIdentifiers := by decide +kernel
  refine ⟨hcycle, hinside, hnamed, ?_, ?_⟩
  · refine (helperName_eq_iff nestedArrays hcycle hinside hnamed _ _ 11 12 (by decide)
      (by decide)).mpr ⟨rfl, ?_⟩
    have hself (type : TypeId) (ty : Ty) (h : nestedArrays.concreteTy? type = some ty) :
        nestedArrays.UnwrapAlike type type := .same h h
    have hinner : nestedArrays.UnwrapAlike 9 10 :=
      .array (show nestedArrays.concreteTy? 9 = some (.array 8) by decide +kernel)
        (show nestedArrays.concreteTy? 10 = some (.array 7) by decide +kernel)
        (.same (show nestedArrays.concreteTy? 8 = some (.array 5) by decide +kernel)
          (by decide +kernel))
    have hlast := hself 15 (.structType 1) (by decide +kernel)
    exact .func
      (show nestedArrays.concreteTy? 11 = some (.func [(.reference, 9), (.value, 15)] 0) by
        decide +kernel)
      (show nestedArrays.concreteTy? 12 = some (.func [(.reference, 10), (.value, 15)] 0) by
        decide +kernel)
      rfl (.cons hinner (.cons hlast .nil)) (hself 0 (.builtin .void) (by decide +kernel))
  · intro heq
    obtain ⟨-, halike⟩ := (helperName_eq_iff nestedArrays hcycle hinside hnamed _ _ 13 14
      (by decide) (by decide)).mp heq
    have hvalue : nestedArrays.concreteTy? 13 = some (.func [(.value, 4)] 0) := by decide +kernel
    have hreference : nestedArrays.concreteTy? 14 = some (.func [(.reference, 4)] 0) := by
      decide +kernel
    cases halike <;> simp_all

end Tables

end Stela
