import Stela.Proofs.Syntax.Occurrences

/-!
# Keys of syntax nodes

What a node means is noted under a key: the kind by which the node is counted
and its number. A parameter has no number of its own and is known by that of its
type. The keys of a tree are those of all nodes that can be given a meaning
while the tree is analyzed, also in the bodies of closures and functions.
-/

namespace Stela

/-- The kinds by which nodes are counted. -/
inductive NodeKind where
  | expr | stmt | decl | type
deriving DecidableEq

/-- How many nodes of a kind exist. -/
def NodeCount.of (count : NodeCount) : NodeKind → Nat
  | .expr => count.exprs
  | .stmt => count.stmts
  | .decl => count.decls
  | .type => count.types

inductive NodeKey where
  | node (kind : NodeKind) (id : Nat)
  /-- A parameter, by the number of its type. -/
  | param (type : Nat)
deriving DecidableEq

namespace NodeKey

/-- The number of a key of a kind. -/
def id? (kind : NodeKind) : NodeKey → Option Nat
  | .node other id => if other = kind then some id else none
  | .param _ => none

/-- The number of the type by which a parameter is known. -/
def param? : NodeKey → Option Nat
  | .node .. => none
  | .param type => some type

/-- The numbers among keys that belong to one kind. -/
def ids (kind : NodeKind) (keys : List NodeKey) : List Nat := keys.filterMap (id? kind)

/-- The parameters among keys. -/
def params (keys : List NodeKey) : List Nat := keys.filterMap param?

variable {kind other : NodeKind} {keys keys' : List NodeKey} {id : Nat}

@[simp] theorem ids_nil : ids kind [] = [] := rfl

@[simp] theorem ids_append : ids kind (keys ++ keys') = ids kind keys ++ ids kind keys' :=
  List.filterMap_append

@[simp] theorem ids_node : ids kind [.node other id] = if other = kind then [id] else [] := by
  by_cases h : other = kind <;> simp [ids, id?, h]

@[simp] theorem ids_param {type : Nat} : ids kind [.param type] = [] := rfl

@[simp] theorem params_nil : params [] = [] := rfl

@[simp] theorem params_append : params (keys ++ keys') = params keys ++ params keys' :=
  List.filterMap_append

@[simp] theorem params_node : params [.node kind id] = [] := rfl

theorem ids_flatMap {α : Type} (items : List α) (f : α → List NodeKey) :
    ids kind (items.flatMap f) = items.flatMap fun item => ids kind (f item) :=
  List.filterMap_flatMap

theorem mem_ids : id ∈ ids kind keys ↔ .node kind id ∈ keys := by
  rw [ids, List.mem_filterMap]
  constructor
  · rintro ⟨key, hkey, hid⟩
    cases key with
    | node other id' =>
        by_cases hkind : other = kind
        · obtain rfl : id' = id := by simpa [id?, hkind] using hid
          exact hkind ▸ hkey
        · simp [id?, hkind] at hid
    | param type => cases hid
  · exact fun h => ⟨_, h, if_pos rfl⟩

/-- Keys are different if those of each kind are, and the parameters. -/
theorem nodup_of_ids (hids : ∀ kind, (ids kind keys).Nodup) (hparams : (params keys).Nodup) :
    keys.Nodup := by
  induction keys with
  | nil => exact List.nodup_nil
  | cons key rest ih =>
      have hrest : rest.Nodup := by
        refine ih (fun kind => ?_) ?_
        · exact List.Nodup.sublist ((List.sublist_cons_self key rest).filterMap _) (hids kind)
        · exact List.Nodup.sublist ((List.sublist_cons_self key rest).filterMap _) hparams
      refine List.nodup_cons.mpr ⟨fun hmem => ?_, hrest⟩
      cases key with
      | node kind id =>
          have h := hids kind
          rw [ids, List.filterMap_cons_some (b := id) (by simp [id?])] at h
          exact (List.nodup_cons.mp h).1 (mem_ids.mpr hmem)
      | param type =>
          rw [params, List.filterMap_cons_some (f := param?) (a := .param type) rfl] at hparams
          exact (List.nodup_cons.mp hparams).1 (List.mem_filterMap.mpr ⟨_, hmem, rfl⟩)

/-- Each parameter is known by one of the types. -/
def Paired (keys : List NodeKey) : Prop := (params keys).Sublist (ids .type keys)

theorem Paired.append (h : Paired keys) (h' : Paired keys') : Paired (keys ++ keys') := by
  rw [Paired, params_append, ids_append]
  exact List.Sublist.append h h'

theorem paired_of_params_eq_nil (h : params keys = []) : Paired keys := by
  rw [Paired, h]
  exact List.nil_sublist _

theorem paired_node : Paired [.node kind id] := paired_of_params_eq_nil rfl

theorem paired_flatMap {α : Type} {items : List α} {f : α → List NodeKey}
    (h : ∀ item ∈ items, Paired (f item)) : Paired (items.flatMap f) := by
  induction items with
  | nil => exact paired_of_params_eq_nil rfl
  | cons first rest ih =>
      rw [List.flatMap_cons]
      exact (h first List.mem_cons_self).append (ih fun item hitem => h item (List.mem_cons_of_mem _ hitem))

end NodeKey

/-! ## Keys in trees -/

mutual

def TypeExpr.keys : TypeExpr → List NodeKey
  | .named node _ _ => [.node .type node.id]
  | .array node element => element.keys ++ [.node .type node.id]
  | .func node params ret =>
    TypeParam.listKeys params ++ TypeExpr.optionKeys ret ++ [.node .type node.id]

def TypeParam.listKeys : List TypeParam → List NodeKey
  | [] => []
  | ⟨_, type⟩ :: rest => type.keys ++ TypeParam.listKeys rest

def TypeExpr.optionKeys : Option TypeExpr → List NodeKey
  | none => []
  | some type => type.keys

end

def Signature.typeKeys (sig : Signature) : List NodeKey :=
  (sig.params.flatMap fun param => param.type.keys) ++ TypeExpr.optionKeys sig.ret

def Signature.paramKeys (sig : Signature) : List NodeKey :=
  sig.params.map fun param => .param param.type.node.id

mutual

/-- The keys of an expression, its own last. -/
def Expr.keys : Expr → List NodeKey
  | .literal node _ => [.node .expr node.id]
  | .ident node _ => [.node .expr node.id]
  | .member node object _ => object.keys ++ [.node .expr node.id]
  | .call node callee args => Expr.listKeys args ++ callee.keys ++ [.node .expr node.id]
  | .index node base index => base.keys ++ index.keys ++ [.node .expr node.id]
  | .unary node _ operand => operand.keys ++ [.node .expr node.id]
  | .binary node _ lhs rhs => lhs.keys ++ rhs.keys ++ [.node .expr node.id]
  | .ternary node cond onTrue onFalse =>
    cond.keys ++ onTrue.keys ++ onFalse.keys ++ [.node .expr node.id]
  | .array node elements => Expr.listKeys elements ++ [.node .expr node.id]
  | .closure node sig body =>
    sig.typeKeys ++ sig.paramKeys ++ Stmt.listKeys body ++ [.node .expr node.id]

def Expr.listKeys : List Expr → List NodeKey
  | [] => []
  | expr :: rest => expr.keys ++ Expr.listKeys rest

def Expr.optionKeys : Option Expr → List NodeKey
  | none => []
  | some expr => expr.keys

/-- The keys of a statement, which has one of its own if it declares a variable. -/
def Stmt.keys : Stmt → List NodeKey
  | .bind node binding => binding.keys ++ [.node .stmt node.id]
  | .assign _ target _ value => target.keys ++ value.keys
  | .expr _ value => value.keys
  | .ifElse _ cond onTrue onFalse =>
    cond.keys ++ Stmt.listKeys onTrue ++ Stmt.optionKeys onFalse
  | .whileLoop _ cond body => cond.keys ++ Stmt.listKeys body
  | .ret _ value => Expr.optionKeys value
  | .breakLoop _ => []
  | .continueLoop _ => []
  | .block _ body => Stmt.listKeys body
  | .func _ decl => decl.keys

def Stmt.listKeys : List Stmt → List NodeKey
  | [] => []
  | stmt :: rest => stmt.keys ++ Stmt.listKeys rest

def Stmt.optionKeys : Option (List Stmt) → List NodeKey
  | none => []
  | some body => Stmt.listKeys body

def Binding.keys : Binding → List NodeKey
  | ⟨_, _, type, init⟩ => TypeExpr.optionKeys type ++ Expr.optionKeys init

/-- The keys of a function: those of the written types, those of its body and its own. -/
def FuncDecl.keys : FuncDecl → List NodeKey
  | ⟨node, _, sig, body, _, _⟩ =>
    sig.typeKeys ++ (sig.paramKeys ++ Stmt.optionKeys body) ++ [.node .decl node.id]

end

/-- The keys that wait for the analysis of the body of a function. -/
def FuncDecl.bodyKeys (decl : FuncDecl) : List NodeKey :=
  decl.sig.paramKeys ++ Stmt.optionKeys decl.body

theorem FuncDecl.keys_eq (decl : FuncDecl) :
    decl.keys = decl.sig.typeKeys ++ decl.bodyKeys ++ [.node .decl decl.node.id] := by
  cases decl
  rw [FuncDecl.keys, FuncDecl.bodyKeys]

theorem Binding.keys_eq (binding : Binding) :
    binding.keys = TypeExpr.optionKeys binding.type ++ Expr.optionKeys binding.init := by
  cases binding
  rw [Binding.keys]

def Member.keys : Member → List NodeKey
  | .field decl => decl.type.keys
  | .func decl => decl.keys

def Decl.keys : Decl → List NodeKey
  | .func decl => decl.keys
  | .structType node _ members => members.flatMap Member.keys ++ [.node .decl node.id]
  | .enumType node _ _ => [.node .decl node.id]
  | .aliasType node _ target _ => target.keys ++ [.node .decl node.id]
  | .global node binding => binding.keys ++ [.node .decl node.id]
  | .hostType node _ _ _ fields =>
    (fields.flatMap fun field => field.type.keys) ++ [.node .decl node.id]

def Module.keys (m : Module) : List NodeKey := m.decls.flatMap Decl.keys

theorem Expr.listKeys_eq (exprs : List Expr) : Expr.listKeys exprs = exprs.flatMap Expr.keys := by
  induction exprs with
  | nil => rfl
  | cons first rest ih => rw [Expr.listKeys, ih, List.flatMap_cons]

theorem TypeExpr.optionKeys_eq (type : Option TypeExpr) :
    TypeExpr.optionKeys type = type.toList.flatMap TypeExpr.keys := by
  cases type <;> simp [TypeExpr.optionKeys]

theorem Expr.optionKeys_eq (expr : Option Expr) :
    Expr.optionKeys expr = expr.toList.flatMap Expr.keys := by
  cases expr <;> simp [Expr.optionKeys]

theorem Stmt.listKeys_eq (stmts : List Stmt) : Stmt.listKeys stmts = stmts.flatMap Stmt.keys := by
  induction stmts with
  | nil => rfl
  | cons first rest ih => rw [Stmt.listKeys, ih, List.flatMap_cons]

theorem TypeParam.listKeys_eq (params : List TypeParam) :
    TypeParam.listKeys params = params.flatMap fun param => param.type.keys := by
  induction params with
  | nil => rfl
  | cons first rest ih =>
      cases first
      rw [TypeParam.listKeys, ih, List.flatMap_cons]

/-! ## Numbers of one kind -/

open NodeKey

mutual

/-- The nodes of a written type are types. -/
theorem TypeExpr.mem_keys : ∀ (type : TypeExpr) {key : NodeKey}, key ∈ type.keys →
    ∃ id, key = .node .type id
  | .named .., _, h => ⟨_, List.mem_singleton.mp h⟩
  | .array _ element, _, h => by
      rw [TypeExpr.keys] at h
      rcases List.mem_append.mp h with h | h
      · exact element.mem_keys h
      · exact ⟨_, List.mem_singleton.mp h⟩
  | .func _ params ret, _, h => by
      rw [TypeExpr.keys] at h
      rcases List.mem_append.mp h with h | h
      · rcases List.mem_append.mp h with h | h
        · exact TypeParam.mem_listKeys params h
        · exact TypeExpr.mem_optionKeys ret h
      · exact ⟨_, List.mem_singleton.mp h⟩

theorem TypeParam.mem_listKeys : ∀ (params : List TypeParam) {key : NodeKey},
    key ∈ TypeParam.listKeys params → ∃ id, key = .node .type id
  | [], _, h => nomatch h
  | ⟨_, type⟩ :: rest, _, h => by
      rw [TypeParam.listKeys] at h
      rcases List.mem_append.mp h with h | h
      · exact type.mem_keys h
      · exact TypeParam.mem_listKeys rest h

theorem TypeExpr.mem_optionKeys : ∀ (type : Option TypeExpr) {key : NodeKey},
    key ∈ TypeExpr.optionKeys type → ∃ id, key = .node .type id
  | none, _, h => nomatch h
  | some type, _, h => type.mem_keys h

end

theorem Signature.mem_typeKeys {sig : Signature} {key : NodeKey} (h : key ∈ sig.typeKeys) :
    ∃ id, key = .node .type id := by
  rcases List.mem_append.mp h with h | h
  · obtain ⟨param, -, h⟩ := List.mem_flatMap.mp h
    exact param.type.mem_keys h
  · exact TypeExpr.mem_optionKeys _ h

/-- Keys of types count as no expressions. -/
theorem NodeKey.exprIds_of_types {keys : List NodeKey}
    (h : ∀ key ∈ keys, ∃ id, key = .node .type id) : ids .expr keys = [] := by
  refine List.filterMap_eq_nil_iff.mpr fun key hkey => ?_
  obtain ⟨id, rfl⟩ := h key hkey
  rfl

theorem NodeKey.params_of_types {keys : List NodeKey}
    (h : ∀ key ∈ keys, ∃ id, key = .node .type id) : params keys = [] := by
  refine List.filterMap_eq_nil_iff.mpr fun key hkey => ?_
  obtain ⟨id, rfl⟩ := h key hkey
  rfl

@[simp] theorem TypeExpr.exprIds_optionKeys (type : Option TypeExpr) :
    ids .expr (TypeExpr.optionKeys type) = [] :=
  exprIds_of_types fun _ => TypeExpr.mem_optionKeys type

@[simp] theorem Signature.exprIds_typeKeys (sig : Signature) : ids .expr sig.typeKeys = [] :=
  exprIds_of_types fun _ => Signature.mem_typeKeys

@[simp] theorem Signature.ids_paramKeys (sig : Signature) (kind : NodeKind) :
    ids kind sig.paramKeys = [] := by
  refine List.filterMap_eq_nil_iff.mpr fun key hkey => ?_
  obtain ⟨param, -, rfl⟩ := List.mem_map.mp hkey
  rfl

mutual

/-- The expressions among the nodes of a tree are those that occur in it. -/
theorem Expr.ids_keys : ∀ e : Expr, ids .expr e.keys = Occurrence.ids e.items
  | .literal .. => rfl
  | .ident .. => rfl
  | .member _ object _ => by simp [Expr.keys, Expr.items, object.ids_keys, Expr.id, Expr.node]
  | .call _ callee args => by
      simp [Expr.keys, Expr.items, callee.ids_keys, Expr.ids_listKeys args, Expr.id, Expr.node]
  | .index _ base index => by
      simp [Expr.keys, Expr.items, base.ids_keys, index.ids_keys, Expr.id, Expr.node]
  | .unary _ _ operand => by simp [Expr.keys, Expr.items, operand.ids_keys, Expr.id, Expr.node]
  | .binary _ _ lhs rhs => by
      simp [Expr.keys, Expr.items, lhs.ids_keys, rhs.ids_keys, Expr.id, Expr.node]
  | .ternary _ cond onTrue onFalse => by
      simp [Expr.keys, Expr.items, cond.ids_keys, onTrue.ids_keys, onFalse.ids_keys, Expr.id,
        Expr.node]
  | .array _ elements => by
      simp [Expr.keys, Expr.items, Expr.ids_listKeys elements, Expr.id, Expr.node]
  | .closure _ _ body => by
      simp [Expr.keys, Expr.items, Stmt.ids_listKeys body, Expr.id, Expr.node]

theorem Expr.ids_listKeys : ∀ exprs : List Expr,
    ids .expr (Expr.listKeys exprs) = Occurrence.ids (Expr.listItems exprs)
  | [] => rfl
  | expr :: rest => by simp [Expr.listKeys, Expr.listItems, expr.ids_keys, Expr.ids_listKeys rest]

theorem Expr.ids_optionKeys : ∀ expr : Option Expr,
    ids .expr (Expr.optionKeys expr) = Occurrence.ids (Expr.optionItems expr)
  | none => rfl
  | some expr => by simp [Expr.optionKeys, Expr.optionItems, expr.ids_keys]

theorem Stmt.ids_keys : ∀ stmt : Stmt, ids .expr stmt.keys = Occurrence.ids stmt.items
  | .bind _ binding => by simp [Stmt.keys, Stmt.items, binding.ids_keys]
  | .assign _ target _ value => by simp [Stmt.keys, Stmt.items, target.ids_keys, value.ids_keys]
  | .expr _ value => by simp [Stmt.keys, Stmt.items, value.ids_keys]
  | .ifElse _ cond onTrue onFalse => by
      simp [Stmt.keys, Stmt.items, cond.ids_keys, Stmt.ids_listKeys onTrue,
        Stmt.ids_optionKeys onFalse]
  | .whileLoop _ cond body => by
      simp [Stmt.keys, Stmt.items, cond.ids_keys, Stmt.ids_listKeys body]
  | .ret _ value => by simp [Stmt.keys, Stmt.items, Expr.ids_optionKeys value]
  | .breakLoop .. => by rfl
  | .continueLoop .. => by rfl
  | .block _ body => by simp [Stmt.keys, Stmt.items, Stmt.ids_listKeys body]
  | .func _ decl => by simp [Stmt.keys, Stmt.items, decl.ids_keys]

theorem Stmt.ids_listKeys : ∀ stmts : List Stmt,
    ids .expr (Stmt.listKeys stmts) = Occurrence.ids (Stmt.listItems stmts)
  | [] => rfl
  | stmt :: rest => by simp [Stmt.listKeys, Stmt.listItems, stmt.ids_keys, Stmt.ids_listKeys rest]

theorem Stmt.ids_optionKeys : ∀ body : Option (List Stmt),
    ids .expr (Stmt.optionKeys body) = Occurrence.ids (Stmt.optionItems body)
  | none => rfl
  | some body => by simp [Stmt.optionKeys, Stmt.optionItems, Stmt.ids_listKeys body]

theorem Binding.ids_keys : ∀ binding : Binding,
    ids .expr binding.keys = Occurrence.ids binding.items
  | ⟨_, _, _, init⟩ => by simp [Binding.keys, Binding.items, Expr.ids_optionKeys init]

theorem FuncDecl.ids_keys : ∀ decl : FuncDecl, ids .expr decl.keys = Occurrence.ids decl.items
  | ⟨_, _, _, body, _, _⟩ => by
      simp [FuncDecl.keys, FuncDecl.items, Stmt.ids_optionKeys body]

end

theorem Decl.ids_keys (decl : Decl) : ids .expr decl.keys = Occurrence.ids decl.items := by
  cases decl with
  | func decl => exact decl.ids_keys
  | structType node name members =>
      rw [Decl.keys, Decl.items, ids_append, ids_node, if_neg (by decide), List.append_nil]
      induction members with
      | nil => rfl
      | cons member rest ih =>
          rw [List.flatMap_cons, ids_append, ih, List.flatMap_cons, Occurrence.ids_append]
          cases member with
          | field decl => rw [Member.keys, exprIds_of_types fun _ => decl.type.mem_keys]; rfl
          | func decl => rw [Member.keys, decl.ids_keys]
  | enumType => rfl
  | aliasType node name target =>
      rw [Decl.keys, ids_append, exprIds_of_types fun _ => target.mem_keys]
      rfl
  | global node binding =>
      rw [Decl.keys, ids_append, binding.ids_keys]
      exact List.append_nil _
  | hostType node name size align fields =>
      rw [Decl.keys, ids_append, exprIds_of_types fun key hkey => ?_]
      · rfl
      · obtain ⟨field, -, hkey⟩ := List.mem_flatMap.mp hkey
        exact field.type.mem_keys hkey

theorem Module.ids_keys (m : Module) : ids .expr m.keys = Occurrence.ids m.items := by
  rw [Module.keys, ids_flatMap, Module.items, Occurrence.ids, List.filterMap_flatMap]
  exact congrArg m.decls.flatMap (funext Decl.ids_keys)

/-! ## Parameters -/

/-- The type of a node is the last of those that are written in it. -/
theorem TypeExpr.ids_sublist (type : TypeExpr) : [type.node.id].Sublist (ids .type type.keys) := by
  refine List.singleton_sublist.mpr (mem_ids.mpr ?_)
  cases type <;> simp [TypeExpr.keys, TypeExpr.node]

theorem Signature.paired (sig : Signature) : Paired (sig.typeKeys ++ sig.paramKeys) := by
  rw [Paired, params_append, ids_append, params_of_types fun _ => Signature.mem_typeKeys,
    Signature.ids_paramKeys, List.append_nil, List.nil_append, Signature.typeKeys, ids_append]
  refine List.Sublist.trans ?_ (List.sublist_append_left _ _)
  rw [Signature.paramKeys]
  induction sig.params with
  | nil => exact List.Sublist.slnil
  | cons param rest ih =>
      rw [List.flatMap_cons, ids_append]
      exact List.Sublist.append param.type.ids_sublist ih

mutual

theorem Expr.paired : ∀ e : Expr, Paired e.keys
  | .literal .. => paired_node
  | .ident .. => paired_node
  | .member _ object _ => object.paired.append paired_node
  | .call _ callee args => ((Expr.paired_list args).append callee.paired).append paired_node
  | .index _ base index => (base.paired.append index.paired).append paired_node
  | .unary _ _ operand => operand.paired.append paired_node
  | .binary _ _ lhs rhs => (lhs.paired.append rhs.paired).append paired_node
  | .ternary _ cond onTrue onFalse =>
    ((cond.paired.append onTrue.paired).append onFalse.paired).append paired_node
  | .array _ elements => (Expr.paired_list elements).append paired_node
  | .closure _ sig body => (sig.paired.append (Stmt.paired_list body)).append paired_node

theorem Expr.paired_list : ∀ exprs : List Expr, Paired (Expr.listKeys exprs)
  | [] => paired_of_params_eq_nil rfl
  | expr :: rest => expr.paired.append (Expr.paired_list rest)

theorem Expr.paired_option : ∀ expr : Option Expr, Paired (Expr.optionKeys expr)
  | none => paired_of_params_eq_nil rfl
  | some expr => expr.paired

theorem Stmt.paired : ∀ stmt : Stmt, Paired stmt.keys
  | .bind _ binding => binding.paired.append paired_node
  | .assign _ target _ value => target.paired.append value.paired
  | .expr _ value => value.paired
  | .ifElse _ cond onTrue onFalse =>
    (cond.paired.append (Stmt.paired_list onTrue)).append (Stmt.paired_option onFalse)
  | .whileLoop _ cond body => cond.paired.append (Stmt.paired_list body)
  | .ret _ value => Expr.paired_option value
  | .breakLoop .. => paired_of_params_eq_nil rfl
  | .continueLoop .. => paired_of_params_eq_nil rfl
  | .block _ body => Stmt.paired_list body
  | .func _ decl => decl.paired

theorem Stmt.paired_list : ∀ stmts : List Stmt, Paired (Stmt.listKeys stmts)
  | [] => paired_of_params_eq_nil rfl
  | stmt :: rest => stmt.paired.append (Stmt.paired_list rest)

theorem Stmt.paired_option : ∀ body : Option (List Stmt), Paired (Stmt.optionKeys body)
  | none => paired_of_params_eq_nil rfl
  | some body => Stmt.paired_list body

theorem Binding.paired : ∀ binding : Binding, Paired binding.keys
  | ⟨_, _, type, init⟩ =>
    (paired_of_params_eq_nil (params_of_types fun _ => TypeExpr.mem_optionKeys type)).append
      (Expr.paired_option init)

theorem FuncDecl.paired : ∀ decl : FuncDecl, Paired decl.keys
  | ⟨_, _, sig, body, _, _⟩ => by
      rw [FuncDecl.keys, ← List.append_assoc]
      exact (sig.paired.append (Stmt.paired_option body)).append paired_node

end

theorem TypeExpr.paired (type : TypeExpr) : Paired type.keys :=
  paired_of_params_eq_nil (params_of_types fun _ => type.mem_keys)

theorem Decl.paired (decl : Decl) : Paired decl.keys := by
  cases decl with
  | func decl => exact decl.paired
  | structType node name members =>
      refine (paired_flatMap fun member _ => ?_).append paired_node
      cases member with
      | field decl => exact decl.type.paired
      | func decl => exact decl.paired
  | enumType => exact paired_node
  | aliasType node name target => exact target.paired.append paired_node
  | global node binding => exact binding.paired.append paired_node
  | hostType node name size align fields =>
      exact (paired_flatMap fun field _ => field.type.paired).append paired_node

theorem Module.paired (m : Module) : Paired m.keys := paired_flatMap fun decl _ => decl.paired

end Stela
