import Stela.Check.Body
import Stela.Proofs.Scopes
import Stela.Proofs.Syntax.NodeMap
import Stela.Proofs.Types.Enclosed
import Stela.Proofs.Types.Stability

/-!
# States that are closed

Types, symbols and scopes refer to each other by their numbers, and the rest of
the state refers to them. A state is closed if every number in it is that of an
entry, where needed one of the right sort: what a type name means is a type, and
the body of a closure belongs to a closure. What an alias is resolved to stands
behind resolved aliases only. Entries are never removed and keep their sort, so
what was inside the state stays inside.

In a closed state everything can be read: the chains of aliases end, and so do
the texts of types and the paths of scopes.
-/

namespace Stela

def SymbolTable.IsType (t : SymbolTable) (id : SymbolId) : Prop :=
  ∃ kind, t.kind? id = some kind ∧ kind.isType = true

def SymbolTable.IsClosure (t : SymbolTable) (id : SymbolId) : Prop :=
  ∃ info, t.kind? id = some (.closure info)

theorem SymbolTable.exists_kind? {t : SymbolTable} {id : SymbolId} (h : id < t.size) :
    ∃ kind, t.kind? id = some kind :=
  ⟨_, SymbolTable.kind?_of_get? (Array.getElem?_eq_getElem h)⟩

/-- The numbers that are taken: how many entries there are, which symbols are types and closures,
which types an alias has, and which ones stand behind resolved aliases only. -/
structure Extent where
  types : Nat
  symbols : Nat
  scopes : Nat
  isType : SymbolId → Prop
  isClosure : SymbolId → Prop
  isAlias : TypeId → SymbolId → Prop
  grounded : TypeId → Prop

namespace Extent

structure Le (e e' : Extent) : Prop where
  types : e.types ≤ e'.types
  symbols : e.symbols ≤ e'.symbols
  scopes : e.scopes ≤ e'.scopes
  isType : ∀ id, e.isType id → e'.isType id
  isClosure : ∀ id, e.isClosure id → e'.isClosure id
  isAlias : ∀ type id, e.isAlias type id → e'.isAlias type id
  grounded : ∀ type, e.grounded type → e'.grounded type

variable {e e' e'' : Extent}

theorem Le.refl (e : Extent) : e.Le e :=
  ⟨Nat.le_refl _, Nat.le_refl _, Nat.le_refl _, fun _ h => h, fun _ h => h, fun _ _ h => h, fun _ h => h⟩

theorem Le.trans (h : e.Le e') (h' : e'.Le e'') : e.Le e'' :=
  ⟨Nat.le_trans h.types h'.types, Nat.le_trans h.symbols h'.symbols,
    Nat.le_trans h.scopes h'.scopes, fun id hid => h'.isType id (h.isType id hid),
    fun id hid => h'.isClosure id (h.isClosure id hid),
    fun type id halias => h'.isAlias type id (h.isAlias type id halias),
    fun type htype => h'.grounded type (h.grounded type htype)⟩

end Extent

/-! ## What lies inside an extent -/

/-- A type that may be missing. -/
def Extent.Known (e : Extent) (type : Option TypeId) : Prop := ∀ t, type = some t → t < e.types

theorem Extent.Known.none {e : Extent} : e.Known none := fun _ h => by cases h

theorem Extent.Known.some {e : Extent} {type : TypeId} (h : type < e.types) : e.Known (some type) :=
  fun _ heq => Option.some.inj heq ▸ h

/-- The types of expressions. -/
def Extent.Exprs (e : Extent) (types : List ExprType) : Prop := ∀ t ∈ types, t.type < e.types

def Ty.Inside (e : Extent) : Ty → Prop
  | .builtin _ => True
  | .array element => element < e.types
  | .func params ret => (∀ p ∈ params, p.2 < e.types) ∧ ret < e.types
  | .structType symbol | .enumType symbol | .hostType symbol | .aliasType symbol
  | .pending symbol => symbol < e.symbols

def ClosureInfo.Inside (e : Extent) (info : ClosureInfo) : Prop :=
  e.Exprs info.params ∧ e.Known info.ret ∧
    (∀ c ∈ info.captures, c.source < e.symbols ∧ c.type < e.types) ∧ info.scope < e.scopes

def FuncInfo.Inside (e : Extent) (info : FuncInfo) : Prop :=
  e.Exprs info.params ∧ e.Known info.ret ∧ (∀ owner, info.owner = some owner → e.isType owner) ∧
    ∀ scope, info.bodyScope = some scope → scope < e.scopes

/-- The details of the symbol with a number. An alias has a type of its own, once this is known, and
a closure is declared after the one around it. -/
def SymbolKind.Inside (e : Extent) (id : SymbolId) : SymbolKind → Prop
  | .builtinType _ | .builtinFunc _ => True
  | .structType info =>
    info.scope < e.scopes ∧ (∀ field ∈ info.fields, field < e.symbols) ∧ e.grounded info.type
  | .enumType info => info.scope < e.scopes ∧ e.grounded info.type
  | .aliasType info => (e.grounded info.type ∨ e.isAlias info.type id) ∧
    ∀ target, info.target? = some target → e.grounded target
  | .hostType info => (∀ field ∈ info.fields, field.type < e.types) ∧ e.grounded info.type
  | .object info => info.type.type < e.types
  | .field info => info.owner < e.symbols ∧ info.type < e.types
  | .enumCase info => info.owner < e.symbols
  | .func info => info.Inside e
  | .closure info => info.Inside e ∧ ∀ parent, info.parent = some parent → parent < id
  | .moduleSpace scope => scope < e.scopes

def Symbol.Inside (e : Extent) (id : SymbolId) (entry : Symbol) : Prop :=
  entry.kind.Inside e id ∧ entry.scope < e.scopes

/-- The scope with a number, which is entered after the one around it. -/
def Scope.Inside (e : Extent) (id : ScopeId) (scope : Scope) : Prop :=
  (∀ parent, scope.parent = some parent → parent < id) ∧
    (∀ owner, scope.owner = some owner → owner < e.symbols) ∧ ∀ row ∈ scope.rows, row.symbol < e.symbols

def ModuleEntry.Inside (e : Extent) (m : ModuleEntry) : Prop :=
  m.symbol < e.symbols ∧ m.scope < e.scopes ∧ ∀ scope ∈ m.imports, scope < e.scopes

def Frame.Inside (e : Extent) (frame : Frame) : Prop :=
  frame.symbol < e.symbols ∧ (frame.kind = .closure → e.isClosure frame.symbol) ∧
    frame.scope < e.scopes ∧ e.Known frame.ret.expected ∧
    ∀ call ∈ frame.pendingReturns, call.callee < e.symbols

structure Meanings.Inside (e : Extent) (m : Meanings) : Prop where
  exprs : ∀ node id, m.exprs.get? node = some id → id < e.symbols
  typeNames : ∀ node id, m.typeNames.get? node = some id → e.isType id
  types : ∀ node type, m.types.get? node = some type → type < e.types
  decls : ∀ node id, m.decls.get? node = some id → id < e.symbols
  locals : ∀ node id, m.locals.get? node = some id → id < e.symbols
  params : ∀ node id, m.params.get? node = some id → id < e.symbols

section

variable {e e' : Extent} (h : e.Le e')

include h

theorem Extent.Known.mono {type : Option TypeId} (ht : e.Known type) : e'.Known type :=
  fun t heq => Nat.lt_of_lt_of_le (ht t heq) h.types

theorem Extent.Exprs.mono {types : List ExprType} (ht : e.Exprs types) : e'.Exprs types :=
  fun t hmem => Nat.lt_of_lt_of_le (ht t hmem) h.types

omit h in
/-- The parts of a type lie inside if the type does. -/
theorem Ty.Inside.part_lt {ty : Ty} (hty : ty.Inside e) : ∀ part ∈ ty.parts, part < e.types := by
  cases ty with
  | array => exact List.forall_mem_singleton.mpr hty
  | func params ret =>
      exact List.forall_mem_append.mpr
        ⟨List.forall_mem_map.mpr hty.1, List.forall_mem_singleton.mpr hty.2⟩
  | _ => simp [Ty.parts]

omit h in
/-- The symbol that a type is named after lies inside if the type does. -/
theorem Ty.Inside.named_lt {ty : Ty} (hty : ty.Inside e) {symbol : SymbolId}
    (hsymbol : ty.named? = some symbol) : symbol < e.symbols := by
  cases ty <;> cases hsymbol <;> exact hty

theorem Ty.Inside.mono {ty : Ty} (hty : ty.Inside e) : ty.Inside e' := by
  cases ty with
  | builtin => trivial
  | array => exact Nat.lt_of_lt_of_le hty h.types
  | func =>
      exact ⟨fun p hp => Nat.lt_of_lt_of_le (hty.1 p hp) h.types,
        Nat.lt_of_lt_of_le hty.2 h.types⟩
  | _ => exact Nat.lt_of_lt_of_le hty h.symbols

theorem ClosureInfo.Inside.mono {info : ClosureInfo} (hi : info.Inside e) : info.Inside e' := by
  obtain ⟨hparams, hret, hcaptures, hscope⟩ := hi
  exact ⟨hparams.mono h, hret.mono h, fun c hc => ⟨Nat.lt_of_lt_of_le (hcaptures c hc).1 h.symbols,
    Nat.lt_of_lt_of_le (hcaptures c hc).2 h.types⟩, Nat.lt_of_lt_of_le hscope h.scopes⟩

theorem FuncInfo.Inside.mono {info : FuncInfo} (hi : info.Inside e) : info.Inside e' := by
  obtain ⟨hparams, hret, howner, hscope⟩ := hi
  exact ⟨hparams.mono h, hret.mono h, fun owner heq => h.isType owner (howner owner heq),
    fun scope heq => Nat.lt_of_lt_of_le (hscope scope heq) h.scopes⟩

theorem SymbolKind.Inside.mono {id : SymbolId} {kind : SymbolKind} (hk : kind.Inside e id) :
    kind.Inside e' id := by
  cases kind with
  | builtinType => trivial
  | builtinFunc => trivial
  | structType =>
      exact ⟨Nat.lt_of_lt_of_le hk.1 h.scopes,
        fun f hf => Nat.lt_of_lt_of_le (hk.2.1 f hf) h.symbols, h.grounded _ hk.2.2⟩
  | enumType => exact ⟨Nat.lt_of_lt_of_le hk.1 h.scopes, h.grounded _ hk.2⟩
  | aliasType =>
      exact ⟨hk.1.imp (h.grounded _) (h.isAlias _ _), fun target ht => h.grounded _ (hk.2 target ht)⟩
  | hostType =>
      exact ⟨fun f hf => Nat.lt_of_lt_of_le (hk.1 f hf) h.types, h.grounded _ hk.2⟩
  | object => exact Nat.lt_of_lt_of_le hk h.types
  | field => exact ⟨Nat.lt_of_lt_of_le hk.1 h.symbols, Nat.lt_of_lt_of_le hk.2 h.types⟩
  | enumCase => exact Nat.lt_of_lt_of_le hk h.symbols
  | func => exact FuncInfo.Inside.mono h hk
  | closure => exact ⟨hk.1.mono h, hk.2⟩
  | moduleSpace => exact Nat.lt_of_lt_of_le hk h.scopes

theorem Symbol.Inside.mono {id : SymbolId} {entry : Symbol} (hs : entry.Inside e id) :
    entry.Inside e' id := ⟨hs.1.mono h, Nat.lt_of_lt_of_le hs.2 h.scopes⟩

theorem Scope.Inside.mono {id : ScopeId} {scope : Scope} (hs : scope.Inside e id) : scope.Inside e' id :=
  ⟨hs.1, fun owner heq => Nat.lt_of_lt_of_le (hs.2.1 owner heq) h.symbols,
    fun row hrow => Nat.lt_of_lt_of_le (hs.2.2 row hrow) h.symbols⟩

theorem ModuleEntry.Inside.mono {m : ModuleEntry} (hm : m.Inside e) : m.Inside e' :=
  ⟨Nat.lt_of_lt_of_le hm.1 h.symbols, Nat.lt_of_lt_of_le hm.2.1 h.scopes,
    fun scope hmem => Nat.lt_of_lt_of_le (hm.2.2 scope hmem) h.scopes⟩

theorem Frame.Inside.mono {frame : Frame} (hf : frame.Inside e) : frame.Inside e' := by
  obtain ⟨hsymbol, hclosure, hscope, hret, hcalls⟩ := hf
  exact ⟨Nat.lt_of_lt_of_le hsymbol h.symbols, fun hk => h.isClosure _ (hclosure hk),
    Nat.lt_of_lt_of_le hscope h.scopes, hret.mono h,
    fun call hcall => Nat.lt_of_lt_of_le (hcalls call hcall) h.symbols⟩

theorem Meanings.Inside.mono {m : Meanings} (hm : m.Inside e) : m.Inside e' where
  exprs node id heq := Nat.lt_of_lt_of_le (hm.exprs node id heq) h.symbols
  typeNames node id heq := h.isType id (hm.typeNames node id heq)
  types node type heq := Nat.lt_of_lt_of_le (hm.types node type heq) h.types
  decls node id heq := Nat.lt_of_lt_of_le (hm.decls node id heq) h.symbols
  locals node id heq := Nat.lt_of_lt_of_le (hm.locals node id heq) h.symbols
  params node id heq := Nat.lt_of_lt_of_le (hm.params node id heq) h.symbols

end

/-! ## Closed states -/

namespace CheckState

variable {s s' : CheckState}

/-- The numbers that are taken in a state. -/
def extent (s : CheckState) : Extent where
  types := s.tables.types.size
  symbols := s.tables.symbols.size
  scopes := s.scopes.size
  isType := s.tables.symbols.IsType
  isClosure := s.tables.symbols.IsClosure
  isAlias type id := s.tables.types.get? type = some (.aliasType id)
  grounded := s.tables.Grounded

/-- Every number in the state is that of an entry, and types were entered after their parts. -/
structure Closed (s : CheckState) : Prop where
  builtinTypes : ∀ kind : Builtin, s.tables.Grounded kind.typeId
  types : ∀ id ty, s.tables.types.get? id = some ty → ty.Inside s.extent
  ordered : s.tables.types.Ordered
  symbols : ∀ id entry, s.tables.symbols.get? id = some entry → entry.Inside s.extent id
  scopes : ∀ id scope, s.scopes.get? id = some scope → scope.Inside s.extent id
  cursor : s.scopes.cursor < s.scopes.size
  modules : ∀ m ∈ s.modules, m.Inside s.extent
  frames : ∀ frame ∈ s.frames, frame.Inside s.extent
  exprTypes : ∀ node typing, s.exprTypes.get? node = some typing →
    typing.type.type < s.tables.types.size
  captured : ∀ node capture, s.captured.get? node = some capture →
    s.tables.symbols.IsClosure capture.1
  transfers : ∀ r ∈ s.transfers, r.type < s.tables.types.size
  defaults : ∀ d ∈ s.defaults, d.1 < s.tables.symbols.size ∧ d.2 < s.tables.types.size
  closures : ∀ id ∈ s.closures, s.tables.symbols.IsClosure id
  assumptions : ∀ a ∈ s.assumptions,
    a.func < s.tables.symbols.size ∧ a.type < s.tables.types.size
  meanings : s.meanings.Inside s.extent

/-- What a change adds lies inside the state that it leads to. All else was there before. -/
structure Adds (s s' : CheckState) : Prop where
  extent : s.extent.Le s'.extent
  types : ∀ id ty, s'.tables.types.get? id = some ty →
    s.tables.types.get? id = some ty ∨ ty.Inside s'.extent := by
      exact fun _ _ h => .inl h
  symbols : ∀ id entry, s'.tables.symbols.get? id = some entry →
    (∃ old, s.tables.symbols.get? id = some old ∧ old.kind = entry.kind ∧ old.scope = entry.scope) ∨
      entry.Inside s'.extent id := by
      exact fun _ entry h => .inl ⟨entry, h, rfl, rfl⟩
  scopes : ∀ id scope, s'.scopes.get? id = some scope →
    s.scopes.get? id = some scope ∨ scope.Inside s'.extent id := by
      exact fun _ _ h => .inl h
  cursor : s'.scopes.cursor = s.scopes.cursor ∨ s'.scopes.cursor < s'.scopes.size := by
      exact .inl rfl
  modules : ∀ m ∈ s'.modules, m ∈ s.modules ∨ m.Inside s'.extent := by
      exact fun _ h => .inl h
  frames : ∀ frame ∈ s'.frames, frame ∈ s.frames ∨ frame.Inside s'.extent := by
      exact fun _ h => .inl h
  exprTypes : ∀ node typing, s'.exprTypes.get? node = some typing →
    s.exprTypes.get? node = some typing ∨ typing.type.type < s'.tables.types.size := by
      exact fun _ _ h => .inl h
  captured : ∀ node capture, s'.captured.get? node = some capture →
    s.captured.get? node = some capture ∨ s'.tables.symbols.IsClosure capture.1 := by
      exact fun _ _ h => .inl h
  transfers : ∀ r ∈ s'.transfers, r ∈ s.transfers ∨ r.type < s'.tables.types.size := by
      exact fun _ h => .inl h
  defaults : ∀ d ∈ s'.defaults, d ∈ s.defaults ∨
    d.1 < s'.tables.symbols.size ∧ d.2 < s'.tables.types.size := by
      exact fun _ h => .inl h
  closures : ∀ id ∈ s'.closures, id ∈ s.closures ∨ s'.tables.symbols.IsClosure id := by
      exact fun _ h => .inl h
  assumptions : ∀ a ∈ s'.assumptions, a ∈ s.assumptions ∨
    a.func < s'.tables.symbols.size ∧ a.type < s'.tables.types.size := by
      exact fun _ h => .inl h
  meanings : s'.meanings = s.meanings ∨ s'.meanings.Inside s'.extent := by
      exact .inl rfl
  ordered : s.tables.types.Ordered → s'.tables.types.Ordered := by
      exact fun h => h

theorem Closed.adds (hs : s.Closed) (h : s.Adds s') : s'.Closed where
  builtinTypes kind := h.extent.grounded _ (hs.builtinTypes kind)
  ordered := h.ordered hs.ordered
  types id ty hid :=
    (h.types id ty hid).elim (fun hold => (hs.types id ty hold).mono h.extent) fun hnew => hnew
  symbols id entry hid := by
    obtain ⟨old, hold, hkind, hscope⟩ | hnew := h.symbols id entry hid
    · have hinside := (hs.symbols id old hold).mono h.extent
      exact ⟨hkind ▸ hinside.1, hscope ▸ hinside.2⟩
    · exact hnew
  scopes id scope hid :=
    (h.scopes id scope hid).elim (fun hold => (hs.scopes id scope hold).mono h.extent) fun hnew => hnew
  cursor := h.cursor.elim (fun heq => heq ▸ Nat.lt_of_lt_of_le hs.cursor h.extent.scopes) id
  modules m hm := (h.modules m hm).elim (fun hold => (hs.modules m hold).mono h.extent) id
  frames frame hf := (h.frames frame hf).elim (fun hold => (hs.frames frame hold).mono h.extent) id
  exprTypes node typing hnode := (h.exprTypes node typing hnode).elim
    (fun hold => Nat.lt_of_lt_of_le (hs.exprTypes node typing hold) h.extent.types) id
  captured node capture hnode := (h.captured node capture hnode).elim
    (fun hold => h.extent.isClosure _ (hs.captured node capture hold)) id
  transfers r hr := (h.transfers r hr).elim
    (fun hold => Nat.lt_of_lt_of_le (hs.transfers r hold) h.extent.types) id
  defaults d hd := (h.defaults d hd).elim
    (fun hold => ⟨Nat.lt_of_lt_of_le (hs.defaults d hold).1 h.extent.symbols,
      Nat.lt_of_lt_of_le (hs.defaults d hold).2 h.extent.types⟩) id
  closures id hid := (h.closures id hid).elim
    (fun hold => h.extent.isClosure id (hs.closures id hold)) fun hnew => hnew
  assumptions a ha := (h.assumptions a ha).elim
    (fun hold => ⟨Nat.lt_of_lt_of_le (hs.assumptions a hold).1 h.extent.symbols,
      Nat.lt_of_lt_of_le (hs.assumptions a hold).2 h.extent.types⟩) id
  meanings := h.meanings.elim (fun heq => heq ▸ hs.meanings.mono h.extent) id

/-! ## Reading a closed state -/

/-- A search in which each element can be tested comes to its end. -/
theorem exists_findM? {α : Type} {f : α → Option Bool} {xs : List α} (h : ∀ x ∈ xs, ∃ r, f x = some r) :
    ∃ found, xs.findM? f = some found := by
  induction xs with
  | nil => exact ⟨none, rfl⟩
  | cons x xs ih =>
      obtain ⟨r, hr⟩ := h x List.mem_cons_self
      rw [List.findM?, hr]
      cases r with
      | false => exact ih fun x' hx' => h x' (List.mem_cons_of_mem x hx')
      | true => exact ⟨some x, rfl⟩

namespace Closed

variable (hs : s.Closed) {id : SymbolId} {type : TypeId}

include hs

theorem kind_inside {kind : SymbolKind} (h : s.tables.symbols.kind? id = some kind) :
    kind.Inside s.extent id := by
  obtain ⟨entry, hentry, rfl⟩ := Option.map_eq_some_iff.mp h
  exact (hs.symbols id entry hentry).1

theorem builtins (kind : Builtin) : kind.typeId < s.tables.types.size := (hs.builtinTypes kind).lt_size

/-- What the tables of a closed state refer to is there. -/
theorem enclosed : s.tables.Enclosed := by
  refine Tables.enclosed_of_forall (fun type _ ty hty => ⟨fun symbol hsymbol => ?_, ?_⟩)
    fun id _ kind hkind => ⟨fun field hfield => ?_, fun type htype => ?_⟩
  · exact (hs.types type ty hty).named_lt hsymbol
  · exact (hs.types type ty hty).part_lt
  · have hinside := hs.kind_inside hkind
    cases kind with
    | structType info => exact hinside.2.1 field hfield
    | _ => cases hfield
  · have hinside := hs.kind_inside hkind
    cases kind with
    | field info =>
        obtain rfl := List.mem_singleton.mp htype
        exact hinside.2
    | hostType info =>
        obtain ⟨slot, hslot, rfl⟩ := List.mem_map.mp htype
        exact hinside.1 slot hslot
    | aliasType info => exact (hinside.2 type (Option.mem_toList.mp htype)).lt_size
    | _ => cases htype

/-- In a closed state aliases lead to types that stand behind resolved aliases only. -/
theorem aliasesEnd (strong : Bool) : s.tables.AliasesEnd strong := by
  refine ⟨fun a => ⟨_, fun b hstep => ?_⟩⟩
  obtain ⟨symbol, info, -, hsymbol, htarget, -⟩ := Tables.aliasStep_inv hstep
  have hinside : s.tables.Grounded b := (hs.kind_inside hsymbol).2 b (by
    rw [AliasInfo.target?, htarget])
  exact hinside.acc

theorem lt_concrete (htype : type < s.tables.types.size) :
    s.tables.concrete type < s.tables.types.size := hs.enclosed.unwrap_lt (hs.aliasesEnd false) htype

theorem lt_representation (htype : type < s.tables.types.size) :
    s.tables.representation type < s.tables.types.size := hs.enclosed.unwrap_lt (hs.aliasesEnd true) htype

theorem isSome_concrete? (htype : type < s.tables.types.size) : (s.tables.concrete? type).isSome :=
  Option.isSome_of_mem (hs.enclosed.concrete?_eq (hs.aliasesEnd false) htype)

theorem isSome_representation? (htype : type < s.tables.types.size) :
    (s.tables.representation? type).isSome :=
  Option.isSome_of_mem (hs.enclosed.representation?_eq (hs.aliasesEnd true) htype)

theorem isSome_concreteTy? (htype : type < s.tables.types.size) : (s.tables.concreteTy? type).isSome :=
  Option.isSome_iff_exists.mpr (Tables.exists_type (hs.lt_concrete htype))

theorem exists_same? {a b : TypeId} (ha : a < s.tables.types.size) (hb : b < s.tables.types.size) :
    ∃ r, s.tables.same? a b = some r := hs.enclosed.exists_same? (hs.aliasesEnd false) ha hb

/-- Whether arguments may be passed can be found out if all types are there. -/
theorem exists_accepts? {params : List (RefKind × TypeId)} {args : List ExprType}
    (hparams : ∀ p ∈ params, p.2 < s.tables.types.size) (hargs : s.extent.Exprs args) :
    ∃ r, s.tables.accepts? params args = some r := by
  refine Tables.exists_pairwise? fun param hparam arg harg => ?_
  split
  · exact hs.exists_same? (hparams param hparam) (hargs arg harg)
  · exact ⟨false, rfl⟩

/-- Whether two symbols may not share a name can be found out if both are there. -/
theorem exists_conflicts? {new existing : SymbolId} (hnew : new < s.tables.symbols.size)
    (hexisting : existing < s.tables.symbols.size) : ∃ r, s.tables.conflicts? new existing = some r := by
  obtain ⟨kind, hkind⟩ := SymbolTable.exists_kind? hnew
  obtain ⟨kind', hkind'⟩ := SymbolTable.exists_kind? hexisting
  simp only [Tables.conflicts?, hkind, hkind', Option.bind_eq_bind, Option.bind_some]
  split
  · refine Tables.exists_pairwise? fun p hp q hq => ?_
    split
    · exact hs.exists_same? ((hs.kind_inside hkind).1 p hp) ((hs.kind_inside hkind').1 q hq)
    · exact ⟨false, rfl⟩
  · exact ⟨true, rfl⟩

/-- The scopes of a closed state have paths. -/
theorem exists_path? {scope : ScopeId} (h : scope < s.scopes.size) :
    ∃ path, s.scopes.path? scope = some path := by
  refine ScopeGraph.exists_path? (fun scope parent hparent => ?_) h
  obtain ⟨entry, hentry, hparent⟩ := Option.bind_eq_some_iff.mp hparent
  exact (hs.scopes scope entry hentry).1 parent hparent

theorem concreteTy_inside {ty : Ty} (h : s.tables.concreteTy? type = some ty) : ty.Inside s.extent :=
  hs.types _ ty h

theorem lt_of_element? {element : TypeId} (h : s.tables.element? type = some element) :
    element < s.tables.types.size := by
  unfold Tables.element? at h
  split at h
  · next hty => exact Option.some.inj h ▸ hs.concreteTy_inside hty
  · cases h

theorem lt_of_pending? {func : SymbolId} (h : s.tables.types.pending? type = some func) :
    func < s.tables.symbols.size := by
  unfold TypeTable.pending? at h
  split at h
  · next hty => exact Option.some.inj h ▸ hs.types _ _ hty
  · cases h

theorem lt_of_row {scope : ScopeId} {entry : Scope} (hentry : s.scopes.get? scope = some entry)
    {row : Row} (hrow : row ∈ entry.rows) : row.symbol < s.tables.symbols.size :=
  (hs.scopes scope entry hentry).2.2 row hrow

theorem lt_of_entries {scope : ScopeId} {name : String} (h : id ∈ s.scopes.entries scope name) :
    id < s.tables.symbols.size := by
  unfold ScopeGraph.entries at h
  split at h
  · next entry hentry =>
    obtain ⟨row, hrow, rfl⟩ := List.mem_map.mp h
    exact hs.lt_of_row hentry (List.mem_filter.mp hrow).1
  · cases h

theorem lt_of_members {scope : ScopeId} {row : Row} (h : row ∈ s.scopes.members scope) :
    row.symbol < s.tables.symbols.size := by
  unfold ScopeGraph.members at h
  cases hentry : s.scopes.get? scope with
  | none => simp [hentry] at h
  | some entry =>
      refine hs.lt_of_row hentry ?_
      simp only [hentry, Option.map_some, Option.getD_some, Scope.members] at h
      split at h
      · exact h
      · cases h

theorem lt_of_cases {scope : ScopeId} {row : Row} (h : row ∈ s.scopes.cases scope) :
    row.symbol < s.tables.symbols.size := by
  unfold ScopeGraph.cases at h
  cases hentry : s.scopes.get? scope with
  | none => simp [hentry] at h
  | some entry =>
      refine hs.lt_of_row hentry ?_
      simp only [hentry, Option.map_some, Option.getD_some, Scope.cases] at h
      split at h
      · exact h
      · cases h

theorem lt_of_gather {name : String} (h : id ∈ s.gather name) : id < s.tables.symbols.size := by
  rcases List.mem_append.mp h with h | h
  · obtain ⟨scope, -, h⟩ := List.mem_flatMap.mp h
    exact hs.lt_of_entries h
  · obtain ⟨scope, -, h⟩ := List.mem_flatMap.mp h
    exact hs.lt_of_entries h

theorem lt_of_find {name : String} {entries : List SymbolId} (h : s.find name = .symbols entries)
    (hid : id ∈ entries) : id < s.tables.symbols.size := by
  unfold CheckState.find at h
  split at h
  · next scope found hlookup =>
    obtain rfl := CheckState.Found.symbols.inj h
    obtain ⟨scope', -, hfound⟩ := List.exists_of_findSome?_eq_some hlookup
    split at hfound
    · cases hfound
    · obtain ⟨rfl, rfl⟩ := Prod.mk.inj (Option.some.inj hfound)
      exact hs.lt_of_entries hid
  · split at h
    · cases h
    · next found hfilter =>
      obtain rfl := CheckState.Found.symbols.inj h
      have hmem : found ∈ ((s.importsOf s.scopes.cursor).map fun i => s.scopes.entries i name).filter
          (fun entries => !entries.isEmpty) := hfilter ▸ List.mem_singleton_self found
      obtain ⟨scope, -, rfl⟩ := List.mem_map.mp (List.mem_filter.mp hmem).1
      exact hs.lt_of_entries hid
    · cases h

/-- All scopes that a search from the cursor goes through are there. -/
theorem isSearchable : s.isSearchable := by
  obtain ⟨path, hpath⟩ := hs.exists_path? hs.cursor
  have himports : ∀ i ∈ s.importsOf s.scopes.cursor, (s.scopes.get? i).isSome := by
    intro i hi
    unfold CheckState.importsOf at hi
    split at hi
    · next m hm =>
      obtain ⟨scope, -, hfound⟩ := List.exists_of_findSome?_eq_some hm
      exact ScopeGraph.isSome_get? ((hs.modules m (List.mem_of_find?_eq_some hfound)).2.2 i hi)
    · cases hi
  simpa [CheckState.isSearchable, hpath] using himports

end Closed

end CheckState

end Stela
