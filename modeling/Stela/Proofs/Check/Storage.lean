import Stela.Proofs.Check.Lowering
import Stela.Proofs.Check.Operating
import Stela.Proofs.Check.Scoping
import Stela.Proofs.Types.Stability

/-!
# Storage

Which expressions stand for storage that can be written. A name does so if the
object that it means does. A field stands for a part of what its object stands
for, an element for a part of its array, and a conditional expression for what
both of its branches stand for. No other expression stands for storage.
-/

namespace Stela

namespace SymbolKind

/-- The type that a symbol of this kind names. -/
def type? : SymbolKind → Option TypeId
  | .builtinType kind => some kind.typeId
  | .structType info => some info.type
  | .enumType info => some info.type
  | .hostType info => some info.type
  | .aliasType info => some info.type
  | _ => none

/-- Whether a symbol of this kind is a type or a module. -/
def isSpace : SymbolKind → Bool
  | .moduleSpace _ => true
  | kind => kind.isType

/-- Whether a value that is named stands for storage that can be written. -/
def writable? : SymbolKind → Option Bool
  | .object info => some info.type.isAssignable
  | .func _ => some false
  | _ => none

/-- Whether a symbol of this kind is a method that writes the value it is called on. -/
def writesReceiver : SymbolKind → Bool
  | .func info => info.decl.kind == .method .mutable
  | _ => false

namespace Becomes

variable {kind kind' : SymbolKind} (h : kind.Becomes kind')

include h

theorem type? : kind'.type? = kind.type? := by
  cases h with
  | aliasType h => exact congrArg some h.type
  | _ => rfl

theorem isSpace : kind'.isSpace = kind.isSpace := by cases h <;> rfl

theorem writable? : kind'.writable? = kind.writable? := by cases h <;> rfl

theorem writesReceiver : kind'.writesReceiver = kind.writesReceiver := by
  cases h with
  | func h => simp only [SymbolKind.writesReceiver, h.decl]
  | _ => rfl

end Becomes

/-- A type or module is no value. -/
theorem writable?_of_isSpace {kind : SymbolKind} (h : kind.isSpace = true) :
    kind.writable? = none := by
  cases kind <;> first | rfl | cases h

theorem isSpace_of_writable? {kind : SymbolKind} {b : Bool} (h : kind.writable? = some b) :
    kind.isSpace = false := by
  cases kind <;> first | rfl | cases h

end SymbolKind

/-- An expression that makes a new value. -/
def Expr.isFresh : Expr → Bool
  | .literal .. | .call .. | .unary .. | .binary .. | .array .. | .closure .. => true
  | .ident .. | .member .. | .index .. | .ternary .. => false

@[simp] theorem ExprType.isAssignable_value {type : TypeId} :
    (ExprType.value type).isAssignable = false := rfl

theorem ExprType.isAssignable_restrict {a b : ExprType} :
    (a.restrict b.mutability b.refKind).isAssignable = (a.isAssignable && b.isAssignable) := by
  obtain ⟨_, m, r⟩ := a
  obtain ⟨_, m', r'⟩ := b
  cases m <;> cases m' <;> cases r <;> cases r' <;> rfl

namespace CheckState

variable {s s' : CheckState} {e : Expr} {node : Nat} {kind : SymbolKind} {b : Bool}

/-- A node was found to mean a symbol of this kind. -/
def Means (s : CheckState) (node : Nat) (kind : SymbolKind) : Prop :=
  ∃ symbol, s.meanings.exprs.get? node = some symbol ∧ s.tables.symbols.kind? symbol = some kind

/-- The expression is the name of a type or a module, which may itself be in a module. -/
inductive Names (s : CheckState) : Expr → SymbolKind → Prop
  | ident {node name kind} (hmeans : s.Means node.id kind) (hspace : kind.isSpace = true) :
      Names s (.ident node name) kind
  | member {node object name scope kind} (hobject : Names s object (.moduleSpace scope))
      (hmeans : s.Means node.id kind) (hspace : kind.isSpace = true) :
      Names s (.member node object name) kind

/-- Whether an expression stands for storage that can be written. -/
inductive Storage (s : CheckState) : Expr → Bool → Prop
  | name {node name kind b} (hmeans : s.Means node.id kind) (hwritable : kind.writable? = some b) :
      Storage s (.ident node name) b
  | qualified {node object name scope kind b} (hobject : s.Names object (.moduleSpace scope))
      (hmeans : s.Means node.id kind) (hwritable : kind.writable? = some b) :
      Storage s (.member node object name) b
  | static {node object name kind type} (hobject : s.Names object kind)
      (htype : kind.type? = some type) : Storage s (.member node object name) false
  | part {node object name b} (hobject : Storage s object b) :
      Storage s (.member node object name) b
  | element {node base subscript b} (hbase : Storage s base b) :
      Storage s (.index node base subscript) b
  | branches {node cond onTrue onFalse b b'} (honTrue : Storage s onTrue b)
      (honFalse : Storage s onFalse b') : Storage s (.ternary node cond onTrue onFalse) (b && b')
  | fresh {new : Expr} (hfresh : new.isFresh = true) : Storage s new false

/-- The expression stands for a value or a function, not for a type or a module. -/
inductive IsValue (s : CheckState) (e : Expr) : Prop
  | stored {b : Bool} (hstorage : s.Storage e b) : IsValue s e
  | meant {kind : SymbolKind} (hmeans : s.Means e.id kind) (hvalue : kind.isSpace = false) : IsValue s e

/-- The type of an expression tells whether it stands for storage that can be written. In storage
there are no values whose type is not known. -/
structure Stores (s : CheckState) (e : Expr) (type : ExprType) : Prop where
  storage : s.Storage e type.isAssignable
  settled : type.isAssignable = true → s.tables.types.Settled type.type

/-- A member of a value of this type is a field of the host, or it has a meaning. A method that writes
the value needs storage. -/
def Member (s : CheckState) (node : Nat) (type : ExprType) : Prop :=
  (∃ host, s.tables.concreteTy? type.type = some (.hostType host)) ∨
    ∃ kind, s.Means node kind ∧ (kind.writesReceiver = true → type.isAssignable = true)

theorem stores_fresh {type : ExprType} (hfresh : e.isFresh = true)
    (hvalue : type.isAssignable = false) : s.Stores e type :=
  ⟨hvalue ▸ .fresh hfresh, by simp [hvalue]⟩

theorem Names.means (h : s.Names e kind) : s.Means e.id kind ∧ kind.isSpace = true := by
  cases h with
  | ident hmeans hspace => exact ⟨hmeans, hspace⟩
  | member _ hmeans hspace => exact ⟨hmeans, hspace⟩

theorem Means.unique {kind' : SymbolKind} (h : s.Means node kind) (h' : s.Means node kind') :
    kind = kind' := by
  obtain ⟨symbol, hsymbol, hkind⟩ := h
  obtain ⟨symbol', hsymbol', hkind'⟩ := h'
  obtain rfl := Option.some.inj (hsymbol.symm.trans hsymbol')
  exact Option.some.inj (hkind.symm.trans hkind')

theorem Names.unique {kind' : SymbolKind} (h : s.Names e kind) (h' : s.Names e kind') :
    kind = kind' := h.means.1.unique h'.means.1

/-- A value is no type or module. -/
theorem Means.not_names {name : Expr} (h : s.Means name.id kind) (hwritable : kind.writable? = some b)
    {space : SymbolKind} : ¬ s.Names name space := fun hnames => by
  obtain rfl := h.unique hnames.means.1
  rw [SymbolKind.writable?_of_isSpace hnames.means.2] at hwritable
  cases hwritable

/-- What stands for storage is no name of a type or module. -/
theorem Storage.not_names (h : s.Storage e b) {space : SymbolKind} : ¬ s.Names e space := by
  induction h generalizing space with
  | name hmeans hwritable => exact hmeans.not_names hwritable
  | qualified _ hmeans hwritable => exact hmeans.not_names hwritable
  | static hobject htype =>
      intro hnames
      cases hnames with
      | member hmodule =>
          rw [hobject.unique hmodule] at htype
          cases htype
  | part _ ih =>
      intro hnames
      cases hnames with
      | member hmodule => exact ih hmodule
  | element | branches => intro hnames; cases hnames
  | fresh hfresh => intro hnames; cases hnames <;> cases hfresh

theorem IsValue.not_names (h : s.IsValue e) : ¬ s.Names e kind := by
  cases h with
  | stored hstorage => exact hstorage.not_names
  | meant hmeans hvalue =>
      intro hnames
      rw [hmeans.unique hnames.means.1, hnames.means.2] at hvalue
      cases hvalue

/-! ## Later states -/

/-- What is known of names in the first state is known in the second. -/
structure Recalls (s s' : CheckState) : Prop where
  before : s.tables.Sound
  after : s'.tables.Sound
  contained : s.tables.Contained s'.tables
  meanings : s.meanings.Within s'.meanings

theorem Calm.recalls (h : s.Calm s') (hs : s.Sound) : s.Recalls s' :=
  ⟨hs.tables, h.sound.tables, h.tables.toContained, h.meanings⟩

namespace Recalls

variable (h : s.Recalls s')

include h

theorem means (hmeans : s.Means node kind) : ∃ kind', s'.Means node kind' ∧ kind.Becomes kind' := by
  obtain ⟨symbol, hsymbol, hkind⟩ := hmeans
  obtain ⟨⟨kind', hkind', hbecomes⟩, -⟩ := h.contained.symbols _ _ hkind
  exact ⟨kind', ⟨symbol, h.meanings.exprs _ _ hsymbol, hkind'⟩, hbecomes⟩

theorem means_value (hmeans : s.Means node kind) (hwritable : kind.writable? = some b) :
    ∃ kind', s'.Means node kind' ∧ kind'.writable? = some b := by
  obtain ⟨kind', hmeans', hbecomes⟩ := h.means hmeans
  exact ⟨kind', hmeans', hbecomes.writable?.trans hwritable⟩

theorem means_isSpace (h' : ∃ kind, s.Means node kind ∧ kind.isSpace = b) :
    ∃ kind, s'.Means node kind ∧ kind.isSpace = b := by
  obtain ⟨kind, hmeans, hspace⟩ := h'
  obtain ⟨kind', hmeans', hbecomes⟩ := h.means hmeans
  exact ⟨kind', hmeans', hbecomes.isSpace.trans hspace⟩

theorem names (hnames : s.Names e kind) : ∃ kind', s'.Names e kind' ∧ kind.Becomes kind' := by
  induction hnames with
  | ident hmeans hspace =>
      obtain ⟨kind', hmeans', hbecomes⟩ := h.means hmeans
      exact ⟨kind', .ident hmeans' (hbecomes.isSpace.trans hspace), hbecomes⟩
  | member _ hmeans hspace ih =>
      obtain ⟨module', hobject, hmodule⟩ := ih
      obtain ⟨kind', hmeans', hbecomes⟩ := h.means hmeans
      cases hmodule
      exact ⟨kind', .member hobject hmeans' (hbecomes.isSpace.trans hspace), hbecomes⟩

theorem names_module {scope : ScopeId} (hnames : s.Names e (.moduleSpace scope)) :
    s'.Names e (.moduleSpace scope) := by
  obtain ⟨kind, hnames', hbecomes⟩ := h.names hnames
  cases hbecomes
  exact hnames'

theorem storage (hstorage : s.Storage e b) : s'.Storage e b := by
  induction hstorage with
  | name hmeans hwritable =>
      obtain ⟨kind', hmeans', hwritable'⟩ := h.means_value hmeans hwritable
      exact .name hmeans' hwritable'
  | qualified hobject hmeans hwritable =>
      obtain ⟨kind', hmeans', hwritable'⟩ := h.means_value hmeans hwritable
      exact .qualified (h.names_module hobject) hmeans' hwritable'
  | static hobject htype =>
      obtain ⟨space', hobject', hbecomes⟩ := h.names hobject
      exact .static hobject' (hbecomes.type?.trans htype)
  | part _ ih => exact .part ih
  | element _ ih => exact .element ih
  | branches _ _ ih ih' => exact .branches ih ih'
  | fresh hfresh => exact .fresh hfresh

theorem isValue (hvalue : s.IsValue e) : s'.IsValue e := by
  cases hvalue with
  | stored hstorage => exact .stored (h.storage hstorage)
  | meant hmeans hvalue =>
      obtain ⟨kind', hmeans', hvalue'⟩ := h.means_isSpace ⟨_, hmeans, hvalue⟩
      exact .meant hmeans' hvalue'

theorem stores {type : ExprType} (hstores : s.Stores e type) : s'.Stores e type :=
  ⟨h.storage hstores.storage, fun hassignable => (hstores.settled hassignable).mono h.contained.types⟩

theorem member {type : ExprType} (hmember : s.Member node type) : s'.Member node type := by
  rcases hmember with ⟨host, hhost⟩ | ⟨kind, hmeans, hwrites⟩
  · exact .inl ⟨host, Tables.concreteTy?_of_contained h.before h.after h.contained hhost (by simp)⟩
  · obtain ⟨kind', hmeans', hbecomes⟩ := h.means hmeans
    exact .inr ⟨kind', hmeans', fun hw => hwrites (hbecomes.writesReceiver ▸ hw)⟩

end Recalls

end CheckState

namespace Check

open CheckState

variable {settings : Settings} {s s' : CheckState}

/-- A node means the symbol that it was noted for. -/
theorem means_useSymbol {node : Nat} {symbol : SymbolId} {kind : SymbolKind}
    (hkind : s.tables.symbols.kind? symbol = some kind)
    (h : (useSymbol node symbol).Gives settings s () s') : s'.Means node kind :=
  ⟨symbol, meaning_useSymbol h, kind?_useSymbol h hkind⟩

theorem means_of_useSymbol {node : Nat} {symbol : SymbolId} {kind : SymbolKind}
    (h : (useSymbol node symbol).Gives settings s () s')
    (hkind : s'.tables.symbols.kind? symbol = some kind) : s'.Means node kind :=
  ⟨symbol, meaning_useSymbol h, hkind⟩

theorem names_finish {node : Nat} {symbol target : SymbolId}
    (h : (staticPath.finish node symbol).Gives settings s (some target) s') :
    ∃ kind, s'.tables.symbols.kind? target = some kind ∧ s'.Means node kind ∧
      kind.isSpace = true := by
  simp only [staticPath.finish, gives_bind, gives_kindOf] at h
  obtain ⟨kind, _, ⟨hkind, rfl⟩, h⟩ := h
  have keep (hspace : kind.isSpace = true) (h : (do
      useSymbol node symbol
      return some symbol).Gives settings s (some target) s') :
      ∃ kind, s'.tables.symbols.kind? target = some kind ∧ s'.Means node kind ∧
        kind.isSpace = true := by
    simp only [gives_bind, gives_pure] at h
    obtain ⟨_, _, huse, heq, rfl⟩ := h
    obtain rfl := Option.some.inj heq
    exact ⟨kind, kind?_useSymbol huse hkind, means_useSymbol hkind huse, hspace⟩
  split at h
  · exact keep rfl h
  · next hmodule =>
    rw [gives_ite] at h
    split at h
    · next htype =>
      refine keep ?_ h
      cases kind <;> first | rfl | exact htype
    · simp at h

/-- A path through a member is found after the path to the module that the member is in. -/
theorem staticPath_member_gives {node : Node} {object : Expr} {member : Ident} {target : SymbolId}
    (h : (staticPath (.member node object member)).Gives settings s (some target) s') :
    ∃ parent scope symbol s₁, (staticPath object).Gives settings s (some parent) s₁ ∧
      s₁.tables.symbols.kind? parent = some (.moduleSpace scope) ∧
      (staticPath.finish node.id symbol).Gives settings s₁ (some target) s' := by
  simp only [staticPath, gives_bind] at h
  obtain ⟨_, s₁, hobject, h⟩ := h
  split at h
  · simp at h
  · simp only [gives_bind, gives_kindOf] at h
    obtain ⟨_, _, ⟨hkind, rfl⟩, h⟩ := h
    split at h
    · simp only [gives_bind, gives_entriesOf] at h
      obtain ⟨_, _, ⟨-, rfl⟩, h⟩ := h
      split at h
      · simp at h
      · exact ⟨_, _, _, s₁, hobject, hkind, h⟩
    · simp at h

/-- A path that is found is the name of a type or module. -/
theorem names_staticPath (e : Expr) (hs : s.Sound) {target : SymbolId}
    (h : (staticPath e).Gives settings s (some target) s') :
    ∃ kind, s'.tables.symbols.kind? target = some kind ∧ s'.Names e kind := by
  induction e using staticPath.induct generalizing s s' target with
  | case1 node name =>
      simp only [staticPath, gives_bind] at h
      obtain ⟨_, _, -, h⟩ := h
      split at h
      · simp at h
      · obtain ⟨kind, hkind, hmeans, hspace⟩ := names_finish h
        exact ⟨kind, hkind, .ident hmeans hspace⟩
  | case2 node object member ih =>
      obtain ⟨parent, scope, symbol, s₁, hobject, hmodule, hfinish⟩ := staticPath_member_gives h
      have hsound := (calm_staticPath _ hs hobject).sound
      obtain ⟨kind, hkind, hnames⟩ := ih hs hobject
      obtain rfl := Option.some.inj (hmodule.symm.trans hkind)
      obtain ⟨_, hnames', hbecomes⟩ :=
        ((calm_staticPath_finish hsound hfinish).recalls hsound).names hnames
      cases hbecomes
      obtain ⟨kind, hkind, hmeans, hspace⟩ := names_finish hfinish
      exact ⟨kind, hkind, .member hnames' hmeans hspace⟩
  | case3 e hident hmember =>
      rw [staticPath.eq_3 _ hident hmember] at h
      simp at h

/-- The type of a symbol is the one that it names. -/
theorem type?_typeOfSymbol {id : SymbolId} {type : TypeId}
    (h : (typeOfSymbol id).Gives settings s type s') :
    ∃ kind, s.tables.symbols.kind? id = some kind ∧ kind.type? = some type := by
  simp only [typeOfSymbol, typeOfSymbolWith, gives_bind, gives_kindOf] at h
  obtain ⟨kind, _, ⟨hkind, rfl⟩, h⟩ := h
  refine ⟨kind, hkind, ?_⟩
  split at h
  · exact congrArg some (gives_pure.mp h).1
  · exact congrArg some (gives_pure.mp h).1
  · exact congrArg some (gives_pure.mp h).1
  · exact congrArg some (gives_pure.mp h).1
  · simp only [gives_bind, gives_pure] at h
    obtain ⟨_, _, -, rfl, rfl⟩ := h
    rfl
  · simp at h

/-- The names that are reached through a path, once the type of what it names is known. -/
theorem names_typeOfSymbol {object : Expr} {target : SymbolId} {type : TypeId} {s₁ : CheckState}
    (hs : s.Sound) (hpath : (staticPath object).Gives settings s (some target) s₁)
    (htype : (typeOfSymbol target).Gives settings s₁ type s') :
    ∃ kind, s'.Names object kind ∧ kind.type? = some type := by
  have hcalm := calm_staticPath _ hs hpath
  obtain ⟨kind, hkind, hnames⟩ := names_staticPath _ hs hpath
  obtain ⟨kind', hkind', htype'⟩ := type?_typeOfSymbol htype
  obtain rfl := Option.some.inj (hkind.symm.trans hkind')
  obtain ⟨kind'', hnames'', hbecomes⟩ :=
    ((written_typeOfSymbol hcalm.sound htype).1.recalls hcalm.sound).names hnames
  exact ⟨kind'', hnames'', hbecomes.type?.trans htype'⟩

/-- Only functions are static members of a struct. -/
theorem isSome_func_of_static {owner : SymbolId} {name : Ident} {rows : List Row} {first : Row}
    {rest : List Row} (hs : s.Sound) (h : (memberRows owner name).Gives settings s rows s')
    (hstatic : rows.filter Row.isStatic = first :: rest) :
    (s.tables.symbols.func? first.symbol).isSome = true := by
  have hfirst : first ∈ rows.filter Row.isStatic := hstatic ▸ List.mem_cons_self
  obtain ⟨hmem, hmark⟩ := List.mem_filter.mp hfirst
  simp only [memberRows, gives_bind, gives_kindOf] at h
  obtain ⟨_, _, ⟨-, rfl⟩, h⟩ := h
  split at h
  · simp only [gives_bind, gives_membersOf, gives_pure] at h
    obtain ⟨_, _, ⟨⟨-, rfl⟩, rfl⟩, rfl, -⟩ := h
    exact hs.statics _ (ScopeGraph.static_of_mem_members (List.mem_filter.mp hmem).1 hmark)
  · obtain ⟨rfl, -⟩ := gives_pure.mp h
    cases hmem

/-- A candidate that takes parameters is no type or module. -/
theorem isSpace_of_candidateParams {candidate : SymbolId} {args : List ExprType}
    {params : List (RefKind × TypeId)}
    (h : (candidateParams candidate args).Gives settings s (some params) s') :
    ∃ kind, s.tables.symbols.kind? candidate = some kind ∧ kind.isSpace = false := by
  simp only [candidateParams, gives_bind, gives_kindOf] at h
  obtain ⟨kind, _, ⟨hkind, rfl⟩, h⟩ := h
  refine ⟨kind, hkind, ?_⟩
  split at h
  · rfl
  · rfl
  · rfl
  · simp at h

/-- What accepts the arguments of a call is no type or module. -/
theorem isSpace_of_survivors (candidates : List SymbolId) (hs : s.Sound) {args : List ExprType}
    {found : Nat × List SymbolId} (hargs : ∀ a ∈ args, s.tables.types.Settled a.type)
    (h : (survivors args candidates).Gives settings s found s') : ∀ id ∈ found.2,
    ∃ kind, s'.tables.symbols.kind? id = some kind ∧ kind.isSpace = false := by
  induction candidates generalizing s found with
  | nil =>
      simp only [survivors, gives_pure] at h
      simp [← h.1]
  | cons candidate rest ih =>
      simp only [survivors, gives_bind] at h
      obtain ⟨params, s₁, hparams, h⟩ := h
      have hcalm := calm_candidateParams hs hargs hparams
      have hargs₁ (a : ExprType) (ha : a ∈ args) := (hargs a ha).mono hcalm.tables.types
      split at h
      · simp only [gives_bind, gives_accepts, gives_pure] at h
        obtain ⟨_, _, ⟨-, rfl⟩, ⟨callable, chosen⟩, s₂, hrest, rfl, rfl⟩ := h
        intro id hid
        have hlater := hcalm.trans (calm_survivors rest hcalm.sound hargs₁ hrest)
        have hchosen := ih hcalm.sound hargs₁ hrest
        have hmem : id = candidate ∨ id ∈ chosen := by
          dsimp only at hid
          split at hid
          · exact List.mem_cons.mp hid
          · exact .inr hid
        rcases hmem with rfl | hid
        · obtain ⟨kind, hkind, hvalue⟩ := isSpace_of_candidateParams hparams
          obtain ⟨⟨kind', hkind', hbecomes⟩, -⟩ := hlater.tables.toContained.symbols _ _ hkind
          exact ⟨kind', hkind', hbecomes.isSpace.trans hvalue⟩
        · exact hchosen id hid
      · simp only [gives_bind, gives_kindOf] at h
        obtain ⟨_, _, ⟨-, rfl⟩, h⟩ := h
        split at h
        all_goals
          simp only [gives_pure] at h
          obtain ⟨⟨callable, chosen⟩, s₂, hrest, rfl, rfl⟩ := h
          have hchosen := ih hcalm.sound hargs₁ hrest
          exact hchosen

/-- The symbol that is chosen for a callee is no type or module. -/
theorem isSpace_of_chosen {candidates : List SymbolId} {args : List ExprType} {callable : Nat}
    {chosen : SymbolId} {node : Nat} {s₁ : CheckState} (hs : s.Sound)
    (hargs : ∀ a ∈ args, s.tables.types.Settled a.type)
    (h : (survivors args candidates).Gives settings s (callable, [chosen]) s₁)
    (huse : (useSymbol node chosen).Gives settings s₁ () s') :
    ∃ kind, s'.Means node kind ∧ kind.isSpace = false := by
  obtain ⟨kind, hkind, hvalue⟩ :=
    isSpace_of_survivors candidates hs hargs h chosen (List.mem_singleton_self chosen)
  exact ⟨kind, means_useSymbol hkind huse, hvalue⟩

/-- A method that writes a value is called on storage. -/
theorem member_of_method {node : Nat} {type : ExprType} (hmeans : ∃ kind, s.Means node kind)
    (hwrites : (((s.meanings.exprs.get? node).bind s.tables.symbols.func?).any fun info =>
      info.decl.kind == .method .mutable) = true → type.isAssignable = true) : s.Member node type := by
  obtain ⟨kind, symbol, hsymbol, hkind⟩ := hmeans
  refine .inr ⟨kind, ⟨symbol, hsymbol, hkind⟩, fun hw => hwrites ?_⟩
  cases kind with
  | func info => simpa [hsymbol, SymbolTable.func?_eq_some.mpr hkind, SymbolKind.writesReceiver] using hw
  | _ => cases hw

theorem isAssignable_closeClosure {node : Node} {body : List Stmt} {type : ExprType}
    (h : (closeClosure node body).Gives settings s type s') : type.isAssignable = false := by
  simp only [closeClosure, gives_bind, gives_pure] at h
  obtain ⟨_, _, -, _, _, -, _, _, -, _, _, -, _, _, -, _, _, -, _, _, -, rfl, -⟩ := h
  rfl

/-- Settling changes only the types of the branches. -/
theorem isAssignable_settlePending {left right left' right' : ExprType} {span : Span}
    (h : (settlePending left right span).Gives settings s (left', right') s') :
    left'.isAssignable = left.isAssignable ∧ right'.isAssignable = right.isAssignable := by
  rcases settlePending_gives h with ⟨func, -, -, -, rfl, rfl⟩ | ⟨func, -, -, -, rfl, rfl⟩ |
    ⟨-, rfl, rfl, -⟩ <;> exact ⟨rfl, rfl⟩

/-- A conditional expression stands for storage if both of its branches do. -/
theorem stores_branches {node : Node} {cond onTrue onFalse : Expr} {span : Span}
    {left right left' right' : ExprType} (hleft : s.Stores onTrue left)
    (hright : s.Stores onFalse right)
    (h : (settlePending left right span).Gives settings s (left', right') s')
    (hrecalls : s.Recalls s') : s'.Stores (.ternary node cond onTrue onFalse)
      (left'.restrict right'.mutability right'.refKind) := by
  obtain ⟨hl, hr⟩ := isAssignable_settlePending h
  have hboth := ExprType.isAssignable_restrict (a := left') (b := right')
  rw [hl, hr] at hboth
  refine ⟨?_, fun hassignable => ?_⟩
  · rw [hboth]
    exact .branches (hrecalls.storage hleft.storage) (hrecalls.storage hright.storage)
  · rw [hboth, Bool.and_eq_true] at hassignable
    have hsettled := hleft.settled hassignable.1
    have heq : left'.type = left.type := by
      rcases settlePending_gives h with ⟨_, hwaits, -⟩ | ⟨_, -, -, -, rfl, -⟩ | ⟨-, rfl, -⟩
      · exact absurd (TypeTable.pending?_eq_some.mp hwaits) (hsettled.1.get?_ne _)
      · rfl
      · rfl
    exact heq ▸ hsettled.mono hrecalls.contained.types

/-- An operation makes a new value, also if its type is not known yet. -/
theorem isAssignable_finishBinary {op : BinOp} {left right type : ExprType} {span : Span}
    (hleft : left.isAssignable = true → s.tables.types.Settled left.type)
    (h : (finishBinary op left right span).Gives settings s type s') : type.isAssignable = false := by
  simp only [finishBinary, gives_bind, gives_pendingOf] at h
  obtain ⟨⟨left', right'⟩, s₁, hsettle, _, _, ⟨⟨-, hfound⟩, rfl⟩, h⟩ := h
  split at h
  · next func =>
    have hpending := TypeTable.pending?_eq_some.mp hfound
    have hvalue : left'.isAssignable = false := by
      rw [(isAssignable_settlePending hsettle).1, Bool.eq_false_iff]
      intro hassignable
      have hsettled := hleft hassignable
      rcases settlePending_gives hsettle with ⟨_, hwaits, -⟩ | ⟨_, -, -, hnote, rfl, -⟩ |
        ⟨-, rfl, -, rfl⟩
      · exact hsettled.1.get?_ne _ (TypeTable.pending?_eq_some.mp hwaits)
      · obtain rfl := gives_update.mp hnote
        exact hsettled.1.get?_ne _ hpending
      · exact hsettled.1.get?_ne _ hpending
    split at h <;> obtain ⟨rfl, -⟩ := gives_pure.mp h <;> first | exact hvalue | rfl
  · simp only [gives_bind, gives_pure] at h
    obtain ⟨_, _, -, rfl, -⟩ := h
    rfl

end Check

end Stela
