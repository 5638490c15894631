import Stela.Check.Module
import Stela.Proofs.Check.Gives
import Stela.Proofs.Types.Table

/-!
# Runs of the analysis

`Runs` relates the states before and after each successful part of the analysis
of expressions, statements and bodies. There is one rule for each way in which a
part can succeed. Bodies that are analyzed on demand are runs inside the run
that needs them, so the bound on nested analyses does not occur. Next to each
state stand the numbers of the expressions that were visited until then, the
last one first: an expression is added to them whenever a visit of it ends.
-/

namespace Stela.Check

/-- A part of the analysis together with its result. -/
inductive Task where
  | expr (context : ExprContext) (expected : Option TypeId) (expr : Expr) (type : ExprType)
  | args (exprs : List Expr) (types : List (Expr × ExprType))
  /-- The elements of an array after the first one. -/
  | elements (element : TypeId) (exprs : List Expr)
  | stmt (stmt : Stmt)
  | stmts (stmts : List Stmt)
  | binding (place : BindingPlace) (binding : Binding)
  /-- The body of a function, unless it was analyzed before. -/
  | body (func : SymbolId)
  /-- The result type of a function. -/
  | result (func : SymbolId) (type : TypeId)
  | funcType (func : SymbolId) (type : TypeId)
  /-- The choice of the candidate that accepts the arguments. -/
  | callee (node : Nat) (candidates : List SymbolId) (args : List ExprType) (type : ExprType)
  /-- The value that a name denotes. -/
  | value (node : Nat) (entries : List SymbolId) (type : ExprType)
  /-- A value or a callee, whichever the context asks for. -/
  | entries (node : Nat) (entries : List SymbolId) (context : ExprContext) (type : ExprType)

/-- The successful runs of the analysis. -/
inductive Runs (settings : Settings) :
    Task → CheckState → List Nat → CheckState → List Nat → Prop
  -- Results of functions.
  | resultNone {func s v} (hfunc : s.tables.symbols.func? func = none) :
      Runs settings (.result func Builtin.void.typeId) s v s v
  | resultKnown {func info ret s v} (hfunc : s.tables.symbols.func? func = some info)
      (hret : info.ret = some ret) : Runs settings (.result func ret) s v s v
  | resultAnalyzed {func info s s' v v'} (hfunc : s.tables.symbols.func? func = some info)
      (hret : info.ret = none) (hstate : info.state = .unchecked)
      (runBody : Runs settings (.body func) s v s' v') :
      Runs settings (.result func (((s'.tables.symbols.func? func).bind FuncInfo.ret).getD
        Builtin.void.typeId)) s v s' v'
  | resultPending {func info type s s' v} (hfunc : s.tables.symbols.func? func = some info)
      (hret : info.ret = none) (hstate : info.state = .inProgress)
      (hintern : (intern (.pending func)).Gives settings s type s') :
      Runs settings (.result func type) s v s' v
  | resultMissing {func info s v} (hfunc : s.tables.symbols.func? func = some info)
      (hret : info.ret = none) (hstate : info.state = .done) :
      Runs settings (.result func Builtin.void.typeId) s v s v
  | funcType {func ret type s s₁ s' v v'} (runResult : Runs settings (.result func ret) s v s₁ v')
      (hintern : (intern (.func ((((s.tables.symbols.func? func).map FuncInfo.params).getD
        []).map fun p => (p.refKind, p.type)) ret)).Gives settings s₁ type s') :
      Runs settings (.funcType func type) s v s' v'
  -- Names.
  | calleeBuiltin {node candidates args callable chosen kind type s s₁ s₂ s' v}
      (hsurvivors : (survivors args candidates).Gives settings s (callable, [chosen]) s₁)
      (huse : (useSymbol node chosen).Gives settings s₁ () s₂)
      (hkind : s₂.tables.symbols.kind? chosen = some (.builtinFunc kind))
      (hinst : (instantiate kind args).Gives settings s₂ type s') :
      Runs settings (.callee node candidates args
        (.value (type.getD Builtin.void.typeId))) s v s' v
  | calleeObject {node candidates args callable chosen info s s₁ s₂ s' v}
      (hsurvivors : (survivors args candidates).Gives settings s (callable, [chosen]) s₁)
      (huse : (useSymbol node chosen).Gives settings s₁ () s₂)
      (hkind : s₂.tables.symbols.kind? chosen = some (.object info))
      (hcapture : (noteCapture node chosen).Gives settings s₂ () s') :
      Runs settings (.callee node candidates args (.value info.type.type)) s v s' v
  | calleeFunc {node candidates args callable chosen kind type s s₁ s₂ s' v v'}
      (hsurvivors : (survivors args candidates).Gives settings s (callable, [chosen]) s₁)
      (huse : (useSymbol node chosen).Gives settings s₁ () s₂)
      (hkind : s₂.tables.symbols.kind? chosen = some kind)
      (hbuiltin : ∀ b, kind ≠ .builtinFunc b) (hobject : ∀ info, kind ≠ .object info)
      (runFunc : Runs settings (.funcType chosen type) s₂ v s' v') :
      Runs settings (.callee node candidates args (.value type)) s v s' v'
  | valueObject {node first rest info s s₁ s' v}
      (hkind : s.tables.symbols.kind? first = some (.object info))
      (huse : (useSymbol node first).Gives settings s () s₁)
      (hcapture : (noteCapture node first).Gives settings s₁ () s') :
      Runs settings (.value node (first :: rest) info.type) s v s' v
  | valueFunc {node first info type ret params s s₁ s' v v'}
      (hkind : s.tables.symbols.kind? first = some (.func info))
      (huse : (useSymbol node first).Gives settings s () s₁)
      (runFunc : Runs settings (.funcType first type) s₁ v s' v')
      (htype : s'.tables.types.get? type = some (.func params ret))
      (hknown : s'.tables.types.pending? ret = none) :
      Runs settings (.value node [first] (.value type)) s v s' v'
  | entriesCallee {node entries args type s s' v v'}
      (runCallee : Runs settings (.callee node entries args type) s v s' v') :
      Runs settings (.entries node entries (.callee args) type) s v s' v'
  | entriesValue {node entries context type s s' v v'} (hcontext : ∀ args, context ≠ .callee args)
      (runValue : Runs settings (.value node entries type) s v s' v') :
      Runs settings (.entries node entries context type) s v s' v'
  -- Expressions.
  | literal {context expected node value type r s s₁ s' v}
      (htype : (literalType value).Gives settings s type s₁)
      (hrecord : (record node context (.value type)).Gives settings s₁ r s') :
      Runs settings (.expr context expected (.literal node value) r) s v s' (node.id :: v)
  | identCallee {expected node name args type r s s₁ s' v v₁}
      (runCallee : Runs settings (.callee node.id (s.gather name) args type) s v s₁ v₁)
      (hrecord : (record node (.callee args) type).Gives settings s₁ r s') :
      Runs settings (.expr (.callee args) expected (.ident node name) r) s v s' (node.id :: v₁)
  | identValue {context expected node name entries type r s s₁ s' v v₁}
      (hcontext : ∀ args, context ≠ .callee args)
      (hlookup : (lookupRequired ⟨name, node.span⟩).Gives settings s entries s)
      (runValue : Runs settings (.value node.id entries type) s v s₁ v₁)
      (hrecord : (record node context type).Gives settings s₁ r s') :
      Runs settings (.expr context expected (.ident node name) r) s v s' (node.id :: v₁)
  | memberModule {context expected node object name target scope type r s s₁ s₂ s' v v₁}
      (hpath : (staticPath object).Gives settings s (some target) s₁)
      (hkind : s₁.tables.symbols.kind? target = some (.moduleSpace scope))
      (runEntries : Runs settings (.entries node.id (s₁.scopes.entries scope name.name) context
        type) s₁ v s₂ v₁)
      (hrecord : (record node context type).Gives settings s₂ r s') :
      Runs settings (.expr context expected (.member node object name) r) s v s' (node.id :: v₁)
  | memberCase {context expected node object name target type enumeration info row r s s₁ s₂ s₃ s' v}
      (hpath : (staticPath object).Gives settings s (some target) s₁)
      (htype : (typeOfSymbol target).Gives settings s₁ type s₂)
      (hconcrete : s₂.tables.concreteTy? type = some (.enumType enumeration))
      (hkind : s₂.tables.symbols.kind? enumeration = some (.enumType info))
      (hrow : (s₂.scopes.cases info.scope).find? (fun row => row.name == name.name) = some row)
      (huse : (useSymbol node.id row.symbol).Gives settings s₂ () s₃)
      (hcontext : ∀ args, context ≠ .callee args)
      (hrecord : (record node context (.value type)).Gives settings s₃ r s') :
      Runs settings (.expr context expected (.member node object name) r) s v s' (node.id :: v)
  | memberStatic {context expected node object name target type owner rows first rest found r
      s s₁ s₂ s₃ s' v v₁}
      (hpath : (staticPath object).Gives settings s (some target) s₁)
      (htype : (typeOfSymbol target).Gives settings s₁ type s₂)
      (hconcrete : s₂.tables.concreteTy? type = some (.structType owner))
      (hrows : (memberRows owner name).Gives settings s₂ rows s₂)
      (hstatic : rows.filter Row.isStatic = first :: rest)
      (haccess : (checkAccess owner first name).Gives settings s₂ () s₂)
      (runEntries : Runs settings (.entries node.id (first.symbol :: rest.map Row.symbol) context
        found) s₂ v s₃ v₁)
      (hrecord : (record node context found).Gives settings s₃ r s') :
      Runs settings (.expr context expected (.member node object name) r) s v s' (node.id :: v₁)
  | memberField {context expected node object name objectType owner first rest info r
      s s₁ s₂ s₃ s' v v₁}
      (hpath : (staticPath object).Gives settings s none s₁)
      (runObject : Runs settings (.expr .value none object objectType) s₁ v s₂ v₁)
      (hknown : s₂.tables.types.pending? objectType.type = none)
      (hconcrete : s₂.tables.concreteTy? objectType.type = some (.structType owner))
      (hrows : (memberRows owner name).Gives settings s₂ (first :: rest) s₂)
      (haccess : (checkAccess owner first name).Gives settings s₂ () s₂)
      (hkind : s₂.tables.symbols.kind? first.symbol = some (.field info))
      (huse : (useSymbol node.id first.symbol).Gives settings s₂ () s₃)
      (hrecord : (record node context ⟨info.type, objectType.mutability,
        objectType.refKind⟩).Gives settings s₃ r s') :
      Runs settings (.expr context expected (.member node object name) r) s v s' (node.id :: v₁)
  | memberMethod {expected node object name objectType owner first rest kind args found r
      s s₁ s₂ s₃ s' v v₁ v₂}
      (hpath : (staticPath object).Gives settings s none s₁)
      (runObject : Runs settings (.expr .value none object objectType) s₁ v s₂ v₁)
      (hknown : s₂.tables.types.pending? objectType.type = none)
      (hconcrete : s₂.tables.concreteTy? objectType.type = some (.structType owner))
      (hrows : (memberRows owner name).Gives settings s₂ (first :: rest) s₂)
      (haccess : (checkAccess owner first name).Gives settings s₂ () s₂)
      (hkind : s₂.tables.symbols.kind? first.symbol = some kind)
      (hfield : ∀ info, kind ≠ .field info)
      (runCallee : Runs settings (.callee node.id
        (((first :: rest).filter fun row => !row.isStatic).map Row.symbol) args found) s₂ v₁ s₃ v₂)
      (hwrites : (((s₃.meanings.exprs.get? node.id).bind s₃.tables.symbols.func?).any fun info =>
        info.decl.kind == .method .mutable) = true → objectType.isAssignable = true)
      (hrecord : (record node (.callee args) found).Gives settings s₃ r s') :
      Runs settings (.expr (.callee args) expected (.member node object name) r) s v s' (node.id :: v₂)
  | memberHost {context expected node object name objectType owner info field r s s₁ s₂ s' v v₁}
      (hpath : (staticPath object).Gives settings s none s₁)
      (runObject : Runs settings (.expr .value none object objectType) s₁ v s₂ v₁)
      (hknown : s₂.tables.types.pending? objectType.type = none)
      (hconcrete : s₂.tables.concreteTy? objectType.type = some (.hostType owner))
      (hkind : s₂.tables.symbols.kind? owner = some (.hostType info))
      (hfield : info.fields.find? (fun f => f.name == name.name) = some field)
      (hrecord : (record node context ⟨field.type, objectType.mutability,
        objectType.refKind⟩).Gives settings s₂ r s') :
      Runs settings (.expr context expected (.member node object name) r) s v s' (node.id :: v₁)
  | call {context expected node callee args argTypes calleeType type r s s₁ s₂ s₃ s' v v₁ v₂}
      (runArgs : Runs settings (.args args argTypes) s v s₁ v₁)
      (runCallee : Runs settings (.expr (.callee (argTypes.map (·.2))) none callee calleeType)
        s₁ v₁ s₂ v₂)
      (hfinish : (finishCall node callee calleeType argTypes).Gives settings s₂ type s₃)
      (hrecord : (record node context type).Gives settings s₃ r s') :
      Runs settings (.expr context expected (.call node callee args) r) s v s' (node.id :: v₂)
  | index {context expected node base index array element subscript r s s₁ s₂ s' v v₁ v₂}
      (runBase : Runs settings (.expr .value none base array) s v s₁ v₁)
      (hbase : s₁.tables.types.pending? array.type = none)
      (helement : s₁.tables.concreteTy? array.type = some (.array element))
      (runIndex : Runs settings (.expr .value none index subscript) s₁ v₁ s₂ v₂)
      (hindex : s₂.tables.types.pending? subscript.type = none)
      (hsubscript : (s₂.tables.builtin? subscript.type).any Builtin.isIndex = true)
      (hrecord : (record node context ⟨element, array.mutability, array.refKind⟩).Gives settings
        s₂ r s') :
      Runs settings (.expr context expected (.index node base index) r) s v s' (node.id :: v₂)
  | unary {context expected node op operand value type r s s₁ s' v v₁}
      (runOperand : Runs settings (.expr .value none operand value) s v s₁ v₁)
      (hknown : s₁.tables.types.pending? value.type = none)
      (hop : (checkUnary op value node.span).Gives settings s₁ type s₁)
      (hrecord : (record node context type).Gives settings s₁ r s') :
      Runs settings (.expr context expected (.unary node op operand) r) s v s' (node.id :: v₁)
  | binary {context expected node op lhs rhs left right type r s s₁ s₂ s₃ s' v v₁ v₂}
      (runLhs : Runs settings (.expr .value none lhs left) s v s₁ v₁)
      (runRhs : Runs settings (.expr .value none rhs right) s₁ v₁ s₂ v₂)
      (hfinish : (finishBinary op left right node.span).Gives settings s₂ type s₃)
      (hrecord : (record node context type).Gives settings s₃ r s') :
      Runs settings (.expr context expected (.binary node op lhs rhs) r) s v s' (node.id :: v₂)
  | ternary {context expected node cond onTrue onFalse test left right left' right' r
      s s₁ s₂ s₃ s₄ s' v v₁ v₂ v₃}
      (runCond : Runs settings (.expr .condition none cond test) s v s₁ v₁)
      (runOnTrue : Runs settings (.expr .value none onTrue left) s₁ v₁ s₂ v₂)
      (runOnFalse : Runs settings (.expr .value none onFalse right) s₂ v₂ s₃ v₃)
      (hsettle : (settlePending left right onFalse.span).Gives settings s₃ (left', right') s₄)
      (hsame : s₄.tables.same left'.type right'.type = true)
      (hrecord : (record node context (left'.restrict right'.mutability right'.refKind)).Gives
        settings s₄ r s') :
      Runs settings (.expr context expected (.ternary node cond onTrue onFalse) r) s v s' (node.id :: v₃)
  | emptyArray {context expected node type r s s' v}
      (hempty : (emptyArray expected node.span).Gives settings s type s)
      (hrecord : (record node context type).Gives settings s r s') :
      Runs settings (.expr context expected (.array node []) r) s v s' (node.id :: v)
  | array {context expected node first rest element type r s s₁ s₂ s₃ s₄ s' v v₁ v₂}
      (runFirst : Runs settings (.expr .value (expected.bind s.tables.element?) first element) s v s₁ v₁)
      (hknown : s₁.tables.types.pending? element.type = none)
      (htransfer : (recordTransfer element.type .init first element).Gives settings s₁ () s₂)
      (runRest : Runs settings (.elements element.type rest) s₂ v₁ s₃ v₂)
      (hintern : (intern (.array element.type)).Gives settings s₃ type s₄)
      (hrecord : (record node context (.value type)).Gives settings s₄ r s') :
      Runs settings (.expr context expected (.array node (first :: rest)) r) s v s' (node.id :: v₂)
  | closure {context expected node sig body type r s s₁ s₂ s₃ s' v v₁}
      (hopen : (openClosure node sig).Gives settings s () s₁)
      (runBody : Runs settings (.stmts body) s₁ v s₂ v₁)
      (hclose : (closeClosure node body).Gives settings s₂ type s₃)
      (hrecord : (record node context type).Gives settings s₃ r s') :
      Runs settings (.expr context expected (.closure node sig body) r) s v s' (node.id :: v₁)
  | argsNil {s v} : Runs settings (.args [] []) s v s v
  | argsCons {expr rest type types s s₁ s' v v₁ v'}
      (runExpr : Runs settings (.expr .value none expr type) s v s₁ v₁)
      (hknown : s₁.tables.types.pending? type.type = none)
      (runRest : Runs settings (.args rest types) s₁ v₁ s' v') :
      Runs settings (.args (expr :: rest) ((expr, type) :: types)) s v s' v'
  | elementsNil {element s v} : Runs settings (.elements element []) s v s v
  | elementsCons {element expr rest type s s₁ s₂ s' v v₁ v'}
      (runExpr : Runs settings (.expr .value (some element) expr type) s v s₁ v₁)
      (hknown : s₁.tables.types.pending? type.type = none)
      (hsame : s₁.tables.same element type.type = true)
      (htransfer : (recordTransfer element .init expr type).Gives settings s₁ () s₂)
      (runRest : Runs settings (.elements element rest) s₂ v₁ s' v') :
      Runs settings (.elements element (expr :: rest)) s v s' v'
  -- Statements.
  | bindInit {place mutability name type init declared value s s₁ s₂ s' v v'}
      (hlower : (lowerOptional type).Gives settings s declared s₁)
      (runInit : Runs settings (.expr .value declared init value) s₁ v s₂ v')
      (hknown : s₂.tables.types.pending? value.type = none)
      (hfinish : (finishBinding place ⟨mutability, name, type, some init⟩ declared
        (some (init, value))).Gives settings s₂ () s') :
      Runs settings (.binding place ⟨mutability, name, type, some init⟩) s v s' v'
  | bindDefault {place mutability name type declared s s₁ s' v}
      (hlower : (lowerOptional type).Gives settings s declared s₁)
      (hfinish : (finishBinding place ⟨mutability, name, type, none⟩ declared none).Gives
        settings s₁ () s') :
      Runs settings (.binding place ⟨mutability, name, type, none⟩) s v s' v
  | bind {node binding s s' v v'}
      (runBinding : Runs settings (.binding (.stmt node.id) binding) s v s' v') :
      Runs settings (.stmt (.bind node binding)) s v s' v'
  | assign {node target op value place assigned s s₁ s₂ s' v v₁ v'}
      (runTarget : Runs settings (.expr .value none target place) s v s₁ v₁)
      (hplace : s₁.tables.types.pending? place.type = none)
      (hassignable : place.isAssignable = true)
      (runValue : Runs settings (.expr .value (some place.type) value assigned) s₁ v₁ s₂ v')
      (hvalue : s₂.tables.types.pending? assigned.type = none)
      (hfinish : (finishAssign op place value assigned node.span).Gives settings s₂ () s') :
      Runs settings (.stmt (.assign node target op value)) s v s' v'
  | exprStmt {node value type s s' v v'}
      (runValue : Runs settings (.expr .value none value type) s v s' v') :
      Runs settings (.stmt (.expr node value)) s v s' v'
  | ifOnly {node cond onTrue test scope s s₁ s₂ s₃ s' v v₁ v'}
      (runCond : Runs settings (.expr .condition none cond test) s v s₁ v₁)
      (henter : (enterScope .block none).Gives settings s₁ scope s₂)
      (runOnTrue : Runs settings (.stmts onTrue) s₂ v₁ s₃ v')
      (hleave : leaveScope.Gives settings s₃ () s') :
      Runs settings (.stmt (.ifElse node cond onTrue none)) s v s' v'
  | ifElse {node cond onTrue onFalse test scope scope' s s₁ s₂ s₃ s₄ s₅ s₆ s' v v₁ v₂ v'}
      (runCond : Runs settings (.expr .condition none cond test) s v s₁ v₁)
      (henter : (enterScope .block none).Gives settings s₁ scope s₂)
      (runOnTrue : Runs settings (.stmts onTrue) s₂ v₁ s₃ v₂)
      (hleave : leaveScope.Gives settings s₃ () s₄)
      (henter' : (enterScope .block none).Gives settings s₄ scope' s₅)
      (runOnFalse : Runs settings (.stmts onFalse) s₅ v₂ s₆ v')
      (hleave' : leaveScope.Gives settings s₆ () s') :
      Runs settings (.stmt (.ifElse node cond onTrue (some onFalse))) s v s' v'
  | whileLoop {node cond body test scope s s₁ s₂ s₃ s₄ s₅ s' v v₁ v'}
      (runCond : Runs settings (.expr .condition none cond test) s v s₁ v₁)
      (hloop : enterLoop.Gives settings s₁ () s₂)
      (henter : (enterScope .block none).Gives settings s₂ scope s₃)
      (runBody : Runs settings (.stmts body) s₃ v₁ s₄ v')
      (hleave : leaveScope.Gives settings s₄ () s₅)
      (hend : leaveLoop.Gives settings s₅ () s') :
      Runs settings (.stmt (.whileLoop node cond body)) s v s' v'
  | retValue {node value frame rest returned s s₁ s' v v'}
      (hframe : s.frames = frame :: rest)
      (runValue : Runs settings (.expr .value frame.ret.expected value returned) s v s₁ v')
      (hreturn : (checkReturned frame value returned node.span).Gives settings s₁ () s') :
      Runs settings (.stmt (.ret node (some value))) s v s' v'
  | retBare {node frame rest s s' v}
      (hframe : s.frames = frame :: rest)
      (hreturn : (checkBareReturn frame node.span).Gives settings s () s') :
      Runs settings (.stmt (.ret node none)) s v s' v
  | breakLoop {node s s' v} (hloop : (checkLoopControl "break" node.span).Gives settings s () s') :
      Runs settings (.stmt (.breakLoop node)) s v s' v
  | continueLoop {node s s' v}
      (hloop : (checkLoopControl "continue" node.span).Gives settings s () s') :
      Runs settings (.stmt (.continueLoop node)) s v s' v
  | block {node body scope s s₁ s₂ s' v v'}
      (henter : (enterScope .block none).Gives settings s scope s₁)
      (runBody : Runs settings (.stmts body) s₁ v s₂ v')
      (hleave : leaveScope.Gives settings s₂ () s') :
      Runs settings (.stmt (.block node body)) s v s' v'
  | funcStmt {node decl func s s₁ s' v v'}
      (hdeclare : (declareFunc decl none).Gives settings s func s₁)
      (runBody : Runs settings (.body func) s₁ v s' v') :
      Runs settings (.stmt (.func node decl)) s v s' v'
  | stmtsNil {s v} : Runs settings (.stmts []) s v s v
  | stmtsCons {stmt rest s s₁ s' v v₁ v'} (runStmt : Runs settings (.stmt stmt) s v s₁ v₁)
      (runRest : Runs settings (.stmts rest) s₁ v₁ s' v') :
      Runs settings (.stmts (stmt :: rest)) s v s' v'
  -- Bodies.
  | bodySkip {func s v}
      (hskip : ∀ info, s.tables.symbols.func? func = some info → info.state ≠ .unchecked) :
      Runs settings (.body func) s v s v
  | bodyNone {func info s s' v} (hfunc : s.tables.symbols.func? func = some info)
      (hstate : info.state = .unchecked) (hbody : info.decl.body = none)
      (hdone : (setBodyState func .done).Gives settings s () s') :
      Runs settings (.body func) s v s' v
  | bodyRun {func info body entry ret s s₁ s₂ s₃ s₄ s' v v'}
      (hfunc : s.tables.symbols.func? func = some info)
      (hstate : info.state = .unchecked) (hbody : info.decl.body = some body)
      (hstart : (setBodyState func .inProgress).Gives settings s () s₁)
      (hentry : s₁.tables.symbols.get? func = some entry)
      (hscope : (s₁.scopes.get? entry.scope).isSome)
      (hopen : (openBody func info).Gives settings
        { s₁ with scopes := s₁.scopes.setCursor entry.scope } () s₂)
      (runBody : Runs settings (.stmts body) s₂ v s₃ v')
      (hclose : (closeBody info.decl body).Gives settings s₃ ret s₄)
      (hfinish : (modifyFunc func fun info => { info with ret := some ret, state := .done }).Gives settings
        { s₄ with scopes := s₄.scopes.setCursor s₁.scopes.cursor } () s') :
      Runs settings (.body func) s v s' v'

/-- A part of the analysis is a run, whatever was visited before it. -/
def IsRun (settings : Settings) (task : Task) (s s' : CheckState) : Prop :=
  ∀ visited, ∃ visited', Runs settings task s visited s' visited'

/-! ## The analysis follows the rules -/

section

variable {settings : Settings} {s s' : CheckState} {analyze : SymbolId → Check Unit}

variable (hA : ∀ func s s', (analyze func).Gives settings s () s' →
  IsRun settings (.body func) s s')

include hA

theorem runs_funcReturn {func : SymbolId} {type : TypeId}
    (h : (funcReturn analyze func).Gives settings s type s') :
    IsRun settings (.result func type) s s' := by
  simp only [funcReturn, gives_bind, gives_funcOf] at h
  obtain ⟨_, _, ⟨⟨-, rfl⟩, rfl⟩, h⟩ := h
  split at h
  · simp only [gives_pure] at h
    obtain ⟨rfl, rfl⟩ := h
    exact fun v => ⟨v, .resultNone ‹_›⟩
  · split at h
    · simp only [gives_pure] at h
      obtain ⟨rfl, rfl⟩ := h
      exact fun v => ⟨v, .resultKnown ‹_› ‹_›⟩
    · simp only [gives_bind, gives_funcOf, gives_pure] at h
      obtain ⟨_, _, hrun, _, _, ⟨⟨-, rfl⟩, rfl⟩, rfl, rfl⟩ := h
      intro v
      obtain ⟨v', runBody⟩ := hA _ _ _ hrun v
      exact ⟨v', .resultAnalyzed ‹_› ‹_› ‹_› runBody⟩
    · exact fun v => ⟨v, .resultPending ‹_› ‹_› ‹_› h⟩
    · simp only [gives_pure] at h
      obtain ⟨rfl, rfl⟩ := h
      exact fun v => ⟨v, .resultMissing ‹_› ‹_› ‹_›⟩

theorem runs_funcType {func : SymbolId} {type : TypeId}
    (h : (funcType analyze func).Gives settings s type s') :
    IsRun settings (.funcType func type) s s' := by
  simp only [funcType, gives_bind, gives_funcOf] at h
  obtain ⟨_, _, ⟨⟨-, rfl⟩, rfl⟩, ret, s₁, hret, hintern⟩ := h
  intro v
  obtain ⟨v', runResult⟩ := runs_funcReturn hA hret v
  exact ⟨v', .funcType runResult hintern⟩

theorem runs_resolveOverload {node : Nat} {name : Ident} {candidates : List SymbolId}
    {args : List ExprType} {type : ExprType}
    (h : (resolveOverload analyze node name candidates args).Gives settings s type s') :
    IsRun settings (.callee node candidates args type) s s' := by
  simp only [resolveOverload, gives_bind] at h
  obtain ⟨⟨callable, accepting⟩, s₁, hsurvivors, h⟩ := h
  rw [gives_ite] at h
  split at h
  · split at h
    · simp at h
    · simp only [gives_bind] at h
      obtain ⟨kind, _, -, h⟩ := h
      split at h <;> simp at h
  · dsimp only at h
    split at h
    · simp only [gives_bind, gives_kindOf] at h
      obtain ⟨_, s₂, huse, kind, _, ⟨hkind, rfl⟩, h⟩ := h
      split at h
      · simp only [gives_bind, gives_pure] at h
        obtain ⟨type, _, hinst, _, _, ⟨rfl, rfl⟩, rfl, rfl⟩ := h
        exact fun v => ⟨v, .calleeBuiltin hsurvivors huse hkind hinst⟩
      · simp only [gives_bind, gives_pure] at h
        obtain ⟨_, _, hcapture, _, _, ⟨rfl, rfl⟩, rfl, rfl⟩ := h
        exact fun v => ⟨v, .calleeObject hsurvivors huse hkind hcapture⟩
      · simp only [gives_bind, gives_pure] at h
        obtain ⟨type, _, hfunc, rfl, rfl⟩ := h
        intro v
        obtain ⟨v', runFunc⟩ := runs_funcType hA hfunc v
        exact ⟨v', .calleeFunc hsurvivors huse hkind (by assumption) (by assumption) runFunc⟩
    · simp at h

omit hA in
/-- The type of a function is a function type. -/
theorem exists_func_of_funcType {func : SymbolId} {type : TypeId}
    (h : (funcType analyze func).Gives settings s type s') :
    ∃ params ret, s'.tables.types.get? type = some (.func params ret) := by
  simp only [funcType, gives_bind, gives_intern] at h
  obtain ⟨_, _, -, ret, s₁, -, rfl, rfl⟩ := h
  exact ⟨_, ret, TypeTable.get?_intern _ _⟩

theorem runs_valueOf {node : Nat} {name : Ident} {entries : List SymbolId} {type : ExprType}
    (h : (valueOf analyze node name entries).Gives settings s type s') :
    IsRun settings (.value node entries type) s s' := by
  unfold valueOf at h
  split at h
  · simp at h
  · simp only [gives_bind, gives_kindOf] at h
    obtain ⟨kind, _, ⟨hkind, rfl⟩, h⟩ := h
    split at h
    · simp only [gives_bind, gives_pure] at h
      obtain ⟨_, s₁, huse, _, _, hcapture, rfl, rfl⟩ := h
      exact fun v => ⟨v, .valueObject hkind huse hcapture⟩
    · rw [gives_ite] at h
      split at h
      · simp at h
      · next first rest _ _ hrest =>
        obtain rfl : rest = [] := by simpa using hrest
        simp only [gives_bind, gives_tyOf, gives_requireKnown, gives_pure] at h
        obtain ⟨_, s₁, huse, type, s₂, hfunc, ty, _, ⟨hty, rfl⟩, _, _, ⟨⟨-, hknown⟩, rfl, rfl⟩,
          rfl, rfl⟩ := h
        obtain ⟨params, ret, hget⟩ := exists_func_of_funcType hfunc
        obtain rfl : ty = .func params ret := Option.some.inj (hty.symm.trans hget)
        intro v
        obtain ⟨v', runFunc⟩ := runs_funcType hA hfunc v
        exact ⟨v', .valueFunc hkind huse runFunc hget hknown⟩
    · simp at h

theorem runs_useEntries {node : Nat} {name : Ident} {entries : List SymbolId}
    {context : ExprContext} {type : ExprType}
    (h : (useEntries analyze node name entries context).Gives settings s type s') :
    IsRun settings (.entries node entries context type) s s' := by
  intro v
  cases context with
  | callee args =>
      obtain ⟨v', runCallee⟩ := runs_resolveOverload hA h v
      exact ⟨v', .entriesCallee runCallee⟩
  | value =>
      obtain ⟨v', runValue⟩ := runs_valueOf hA h v
      exact ⟨v', .entriesValue (by simp) runValue⟩
  | condition =>
      obtain ⟨v', runValue⟩ := runs_valueOf hA h v
      exact ⟨v', .entriesValue (by simp) runValue⟩

omit hA in
theorem lookupRequired_state {name : Ident} {entries : List SymbolId}
    (h : (lookupRequired name).Gives settings s entries s') : s = s' := by
  simp only [lookupRequired, gives_bind] at h
  obtain ⟨_, _, hlookup, h⟩ := h
  obtain rfl := lookup_state hlookup
  split at h <;> simp at h
  exact h.2

/-- The ways in which a name that stands for itself is typed. -/
theorem runs_ident {node : Node} {name : String} {context : ExprContext}
    {expected : Option TypeId} {r : ExprType}
    (h : (visit analyze context expected (.ident node name)).Gives settings s r s') :
    IsRun settings (.expr context expected (.ident node name) r) s s' := by
  simp only [visit, gives_bind, visitIdent] at h
  obtain ⟨type, s₁, h, hrecord⟩ := h
  split at h
  · next args =>
    simp only [gives_bind, gives_searching] at h
    obtain ⟨_, _, ⟨⟨-, rfl⟩, rfl⟩, h⟩ := h
    have hcallee : (resolveOverload analyze node.id ⟨name, node.span⟩ (s.gather name) args).Gives
        settings s type s₁ := by
      split at h
      · next hnil =>
        simp only [gives_bind] at h
        obtain ⟨_, _, hlookup, h⟩ := h
        obtain rfl := lookupRequired_state hlookup
        rwa [hnil]
      · exact h
    intro v
    obtain ⟨_, runCallee⟩ := runs_resolveOverload hA hcallee v
    exact ⟨_, .identCallee runCallee hrecord⟩
  all_goals
    simp only [gives_bind] at h
    obtain ⟨entries, _, hlookup, h⟩ := h
    obtain rfl := lookupRequired_state hlookup
    intro v
    obtain ⟨_, runValue⟩ := runs_valueOf hA h v
    exact ⟨_, .identValue (by simp) hlookup runValue hrecord⟩

omit hA in
theorem currentStruct_state {owner : Option SymbolId}
    (h : currentStruct.Gives settings s owner s') : s = s' := by
  simp only [currentStruct, gives_bind, gives_state] at h
  obtain ⟨_, _, ⟨rfl, rfl⟩, h⟩ := h
  split at h
  · simp only [gives_bind, gives_funcOf, gives_pure] at h
    obtain ⟨_, _, ⟨-, rfl⟩, -, rfl⟩ := h
    rfl
  · exact (gives_pure.mp h).2

omit hA in
theorem checkAccess_state {owner : SymbolId} {row : Row} {member : Ident}
    (h : (checkAccess owner row member).Gives settings s () s') : s = s' := by
  simp only [checkAccess, gives_bind] at h
  obtain ⟨_, _, hcurrent, h⟩ := h
  obtain rfl := currentStruct_state hcurrent
  rw [gives_ite] at h
  split at h
  · simp [memberAccess] at h
  · exact (gives_pure.mp h).2

omit hA in
theorem memberRows_state {owner : SymbolId} {member : Ident} {rows : List Row}
    (h : (memberRows owner member).Gives settings s rows s') : s = s' := by
  simp only [memberRows, gives_bind, gives_kindOf] at h
  obtain ⟨_, _, ⟨-, rfl⟩, h⟩ := h
  split at h
  · simp only [gives_bind, gives_membersOf, gives_pure] at h
    obtain ⟨_, _, ⟨-, rfl⟩, -, rfl⟩ := h
    rfl
  · exact (gives_pure.mp h).2

/-- The ways in which a member of a module or of a type is typed. -/
theorem runs_staticMember {node : Node} {object : Expr} {name : Ident} {context : ExprContext}
    {expected : Option TypeId} {target : SymbolId} {type r : ExprType} {s₁ s₂ : CheckState}
    (hpath : (staticPath object).Gives settings s (some target) s₁)
    (h : (staticMember analyze node.id target name context).Gives settings s₁ type s₂)
    (hrecord : (record node context type).Gives settings s₂ r s') :
    IsRun settings (.expr context expected (.member node object name) r) s s' := by
  simp only [staticMember, gives_bind, gives_kindOf] at h
  obtain ⟨kind, _, ⟨hkind, rfl⟩, h⟩ := h
  split at h
  · simp only [gives_bind, gives_entriesOf] at h
    obtain ⟨_, _, ⟨⟨-, rfl⟩, rfl⟩, h⟩ := h
    split at h
    · simp [noMember] at h
    · intro v
      obtain ⟨_, runEntries⟩ := runs_useEntries hA h v
      exact ⟨_, .memberModule hpath hkind runEntries hrecord⟩
  · simp only [gives_bind, gives_concreteTy] at h
    obtain ⟨found, s₃, htype, ty, _, ⟨⟨-, hconcrete⟩, rfl⟩, h⟩ := h
    split at h
    · simp only [gives_bind, gives_kindOf] at h
      obtain ⟨kind, _, ⟨hkind, rfl⟩, h⟩ := h
      split at h
      · simp only [gives_bind, gives_casesOf] at h
        obtain ⟨_, _, ⟨⟨-, rfl⟩, rfl⟩, h⟩ := h
        split at h
        · simp [noMember] at h
        · simp only [gives_bind] at h
          obtain ⟨_, s₄, huse, h⟩ := h
          split at h
          · simp at h
          · next hcontext =>
            obtain ⟨rfl, rfl⟩ := gives_pure.mp h
            exact fun v =>
              ⟨_, .memberCase hpath htype hconcrete hkind ‹_› huse hcontext hrecord⟩
      · simp [noMember] at h
    · simp only [gives_bind] at h
      obtain ⟨rows, _, hrows, h⟩ := h
      obtain rfl := memberRows_state hrows
      rw [gives_ite] at h
      split at h
      · simp [noMember] at h
      · split at h
        · simp [memberAccess] at h
        · simp only [gives_bind] at h
          obtain ⟨_, _, haccess, h⟩ := h
          obtain rfl := checkAccess_state haccess
          intro v
          obtain ⟨_, runEntries⟩ := runs_useEntries hA h v
          exact ⟨_, .memberStatic hpath htype hconcrete hrows ‹_› haccess runEntries hrecord⟩
    · simp [noMember] at h

/-- The ways in which a member of a value is typed. -/
theorem runs_instanceMember {node : Node} {object : Expr} {name : Ident} {context : ExprContext}
    {expected : Option TypeId} {objectType type r : ExprType} {s₁ s₂ s₃ : CheckState}
    (hpath : (staticPath object).Gives settings s none s₁)
    (runObject : IsRun settings (.expr .value none object objectType) s₁ s₂)
    (hknown : s₂.tables.types.pending? objectType.type = none)
    (h : (instanceMember analyze node.id objectType name context).Gives settings s₂ type s₃)
    (hrecord : (record node context type).Gives settings s₃ r s') :
    IsRun settings (.expr context expected (.member node object name) r) s s' := by
  intro v
  obtain ⟨v₁, runObject⟩ := runObject v
  simp only [instanceMember, gives_bind, gives_concreteTy] at h
  obtain ⟨ty, _, ⟨⟨-, hconcrete⟩, rfl⟩, h⟩ := h
  split at h
  · simp only [gives_bind] at h
    obtain ⟨rows, _, hrows, h⟩ := h
    obtain rfl := memberRows_state hrows
    split at h
    · simp [noMember] at h
    · simp only [gives_bind] at h
      obtain ⟨_, _, haccess, h⟩ := h
      obtain rfl := checkAccess_state haccess
      simp only [gives_kindOf] at h
      obtain ⟨kind, _, ⟨hkind, rfl⟩, h⟩ := h
      split at h
      · simp only [gives_bind, gives_pure] at h
        obtain ⟨_, _, huse, rfl, rfl⟩ := h
        exact ⟨_, .memberField hpath runObject hknown hconcrete hrows haccess hkind huse hrecord⟩
      · next hfield =>
        split at h
        · simp [memberAccess] at h
        · split at h
          · simp only [gives_bind, gives_funcMeant] at h
            obtain ⟨callee, s₄, hcallee, _, _, ⟨⟨-, rfl⟩, rfl⟩, h⟩ := h
            rw [gives_ite] at h
            split at h
            · simp at h
            · next hwrites =>
              obtain ⟨rfl, rfl⟩ := gives_pure.mp h
              obtain ⟨_, runCallee⟩ := runs_resolveOverload hA hcallee v₁
              refine ⟨_, .memberMethod hpath runObject hknown hconcrete hrows haccess hkind hfield
                runCallee ?_ hrecord⟩
              simpa using hwrites
          · simp [memberAccess] at h
  · simp only [gives_bind, gives_kindOf] at h
    obtain ⟨kind, _, ⟨hkind, rfl⟩, h⟩ := h
    split at h
    · next field hfield =>
      split at hfield
      · obtain ⟨rfl, rfl⟩ := gives_pure.mp h
        exact ⟨_, .memberHost hpath runObject hknown hconcrete hkind hfield hrecord⟩
      · simp at hfield
    · simp [noMember] at h
  · simp [noMember] at h

omit hA in
theorem arrayElement_gives {array : ExprType} {span : Span} {element : TypeId}
    (h : (arrayElement array span).Gives settings s element s') :
    s.tables.concreteTy? array.type = some (.array element) ∧ s = s' := by
  simp only [arrayElement, gives_bind, gives_concreteTy] at h
  obtain ⟨ty, _, ⟨⟨-, hconcrete⟩, rfl⟩, h⟩ := h
  split at h
  · obtain ⟨rfl, rfl⟩ := gives_pure.mp h
    exact ⟨hconcrete, rfl⟩
  · simp at h

omit hA in
theorem checkSubscript_gives {array subscript : ExprType} {span : Span}
    (h : (checkSubscript array subscript span).Gives settings s () s') :
    (s.tables.builtin? subscript.type).any Builtin.isIndex = true ∧ s = s' := by
  simp only [checkSubscript, gives_bind, gives_builtinOf] at h
  obtain ⟨_, _, ⟨⟨-, -, rfl⟩, rfl⟩, h⟩ := h
  rw [gives_ite] at h
  split at h
  · simp at h
  · next hany => exact ⟨by simpa using hany, (gives_pure.mp h).2⟩

omit hA in
theorem checkUnary_gives {op : UnaryOp} {operand type : ExprType} {span : Span}
    (h : (checkUnary op operand span).Gives settings s type s') :
    type = .value operand.type ∧ s = s' := by
  simp only [checkUnary, gives_bind, gives_builtinOf] at h
  obtain ⟨_, _, ⟨-, rfl⟩, h⟩ := h
  cases op <;>
  · simp only [gives_ite] at h
    split at h
    · obtain ⟨rfl, rfl⟩ := gives_pure.mp h
      exact ⟨rfl, rfl⟩
    · simp at h

omit hA in
theorem emptyArray_state {expected : Option TypeId} {type : ExprType} {span : Span}
    (h : (emptyArray expected span).Gives settings s type s') : s = s' := by
  simp only [emptyArray, gives_bind, gives_expectedElement] at h
  obtain ⟨_, _, ⟨-, rfl⟩, h⟩ := h
  split at h
  · exact (gives_pure.mp h).2
  · simp at h

set_option linter.unusedSectionVars false in
mutual

/-- Every successful visit of an expression is a run. -/
theorem runs_visit (context : ExprContext) (expected : Option TypeId) :
    ∀ (e : Expr) {s r s'}, (visit analyze context expected e).Gives settings s r s' →
      IsRun settings (.expr context expected e r) s s'
  | .literal node value, s, r, s', h => by
      simp only [visit, gives_bind] at h
      obtain ⟨type, s₁, htype, hrecord⟩ := h
      exact fun v => ⟨_, .literal htype hrecord⟩
  | .ident node name, s, r, s', h => runs_ident hA h
  | .member node object name, s, r, s', h => by
      simp only [visit, gives_bind] at h
      obtain ⟨target, s₁, hpath, h⟩ := h
      split at h
      · simp only [gives_bind] at h
        obtain ⟨type, s₂, hmember, hrecord⟩ := h
        exact runs_staticMember hA hpath hmember hrecord
      · simp only [gives_bind, gives_known] at h
        obtain ⟨objectType, s₂, ⟨hobject, -, hknown⟩, type, s₃, hmember, hrecord⟩ := h
        exact runs_instanceMember hA hpath (runs_visit .value none object hobject) hknown hmember
          hrecord
  | .call node callee args, s, r, s', h => by
      simp only [visit, gives_bind] at h
      obtain ⟨argTypes, s₁, hargs, calleeType, s₂, hcallee, type, s₃, hfinish, hrecord⟩ := h
      intro v
      obtain ⟨_, runArgs⟩ := runs_visitArgs args hargs v
      obtain ⟨_, runCallee⟩ := runs_visit _ none callee hcallee _
      exact ⟨_, .call runArgs runCallee hfinish hrecord⟩
  | .index node base index, s, r, s', h => by
      simp only [visit, gives_bind, gives_known] at h
      obtain ⟨array, s₁, ⟨hbase, -, hknown⟩, element, s₂, helement, subscript, s₃,
        ⟨hindex, -, hknown'⟩, _, s₄, hsubscript, hrecord⟩ := h
      obtain ⟨hconcrete, rfl⟩ := arrayElement_gives helement
      obtain ⟨hany, rfl⟩ := checkSubscript_gives hsubscript
      intro v
      obtain ⟨_, runBase⟩ := runs_visit .value none base hbase v
      obtain ⟨_, runIndex⟩ := runs_visit .value none index hindex _
      exact ⟨_, .index runBase hknown hconcrete runIndex hknown' hany hrecord⟩
  | .unary node op operand, s, r, s', h => by
      simp only [visit, gives_bind, gives_known] at h
      obtain ⟨value, s₁, ⟨hvalue, -, hknown⟩, type, s₂, hop, hrecord⟩ := h
      obtain ⟨-, rfl⟩ := checkUnary_gives hop
      intro v
      obtain ⟨_, runOperand⟩ := runs_visit .value none operand hvalue v
      exact ⟨_, .unary runOperand hknown hop hrecord⟩
  | .binary node op lhs rhs, s, r, s', h => by
      simp only [visit, gives_bind] at h
      obtain ⟨left, s₁, hleft, right, s₂, hright, type, s₃, hfinish, hrecord⟩ := h
      intro v
      obtain ⟨_, runLhs⟩ := runs_visit .value none lhs hleft v
      obtain ⟨_, runRhs⟩ := runs_visit .value none rhs hright _
      exact ⟨_, .binary runLhs runRhs hfinish hrecord⟩
  | .ternary node cond onTrue onFalse, s, r, s', h => by
      simp only [visit, gives_bind, gives_same] at h
      obtain ⟨test, s₁, hcond, left, s₂, hleft, right, s₃, hright, ⟨left', right'⟩, s₄, hsettle,
        same, _, ⟨⟨-, hsame⟩, rfl⟩, h⟩ := h
      rw [gives_ite] at h
      split at h
      · simp at h
      · next hne =>
        intro v
        obtain ⟨_, runCond⟩ := runs_visit .condition none cond hcond v
        obtain ⟨_, runOnTrue⟩ := runs_visit .value none onTrue hleft _
        obtain ⟨_, runOnFalse⟩ := runs_visit .value none onFalse hright _
        exact ⟨_, .ternary runCond runOnTrue runOnFalse hsettle (by simpa [hsame] using hne) h⟩
  | .array node [], s, r, s', h => by
      simp only [visit, gives_bind] at h
      obtain ⟨type, s₁, hempty, hrecord⟩ := h
      obtain rfl := emptyArray_state hempty
      exact fun v => ⟨_, .emptyArray hempty hrecord⟩
  | .array node (first :: rest), s, r, s', h => by
      simp only [visit, gives_bind, gives_expectedElement, gives_known] at h
      obtain ⟨_, _, ⟨⟨-, rfl⟩, rfl⟩, element, s₁, ⟨hfirst, -, hknown⟩, _, s₂, htransfer, _, s₃, hrest,
        type, s₄, hintern, hrecord⟩ := h
      intro v
      obtain ⟨_, runFirst⟩ := runs_visit .value _ first hfirst v
      obtain ⟨_, runRest⟩ := runs_visitElements element.type rest hrest _
      exact ⟨_, .array runFirst hknown htransfer runRest hintern hrecord⟩
  | .closure node sig body, s, r, s', h => by
      simp only [visit, gives_bind] at h
      obtain ⟨_, s₁, hopen, _, s₂, hbody, type, s₃, hclose, hrecord⟩ := h
      intro v
      obtain ⟨_, runBody⟩ := runs_checkStmts body hbody v
      exact ⟨_, .closure hopen runBody hclose hrecord⟩

theorem runs_visitArgs :
    ∀ (es : List Expr) {s types s'}, (visitArgs analyze es).Gives settings s types s' →
      IsRun settings (.args es types) s s'
  | [], s, types, s', h => by
      simp only [visitArgs, gives_pure] at h
      obtain ⟨rfl, rfl⟩ := h
      exact fun v => ⟨v, .argsNil⟩
  | e :: rest, s, types, s', h => by
      simp only [visitArgs, gives_bind, gives_known, gives_pure] at h
      obtain ⟨type, s₁, ⟨hexpr, -, hknown⟩, types, _, hrest, rfl, rfl⟩ := h
      intro v
      obtain ⟨_, runExpr⟩ := runs_visit .value none e hexpr v
      obtain ⟨_, runRest⟩ := runs_visitArgs rest hrest _
      exact ⟨_, .argsCons runExpr hknown runRest⟩

theorem runs_visitElements (element : TypeId) :
    ∀ (es : List Expr) {s s'}, (visitElements analyze element es).Gives settings s () s' →
      IsRun settings (.elements element es) s s'
  | [], s, s', h => by
      simp only [visitElements, gives_pure] at h
      obtain ⟨-, rfl⟩ := h
      exact fun v => ⟨v, .elementsNil⟩
  | e :: rest, s, s', h => by
      simp only [visitElements, gives_bind, gives_known, gives_same] at h
      obtain ⟨type, s₁, ⟨hexpr, -, hknown⟩, same, _, ⟨⟨-, hsame⟩, rfl⟩, h⟩ := h
      rw [gives_ite] at h
      split at h
      · simp at h
      · next hne =>
        simp only [gives_bind] at h
        obtain ⟨_, s₂, htransfer, hrest⟩ := h
        intro v
        obtain ⟨_, runExpr⟩ := runs_visit .value _ e hexpr v
        obtain ⟨_, runRest⟩ := runs_visitElements element rest hrest _
        exact ⟨_, .elementsCons runExpr hknown (by simpa [hsame] using hne) htransfer runRest⟩

theorem runs_checkStmt :
    ∀ (stmt : Stmt) {s s'}, (checkStmt analyze stmt).Gives settings s () s' →
      IsRun settings (.stmt stmt) s s'
  | .bind node binding, s, s', h => by
      simp only [checkStmt] at h
      intro v
      obtain ⟨_, runBinding⟩ := runs_checkBinding _ binding h v
      exact ⟨_, .bind runBinding⟩
  | .assign node target op value, s, s', h => by
      simp only [checkStmt, gives_bind, gives_known] at h
      obtain ⟨place, s₁, ⟨htarget, -, hplace⟩, h⟩ := h
      rw [gives_ite] at h
      split at h
      · simp at h
      · next hassignable =>
        simp only [gives_bind, gives_known] at h
        obtain ⟨assigned, s₂, ⟨hvalue, -, hknown⟩, hfinish⟩ := h
        intro v
        obtain ⟨_, runTarget⟩ := runs_visit .value none target htarget v
        obtain ⟨_, runValue⟩ := runs_visit .value _ value hvalue _
        exact ⟨_, .assign runTarget hplace (by simpa using hassignable) runValue hknown hfinish⟩
  | .expr node value, s, s', h => by
      simp only [checkStmt, gives_bind, gives_pure] at h
      obtain ⟨type, _, hvalue, -, rfl⟩ := h
      intro v
      obtain ⟨_, runValue⟩ := runs_visit .value none value hvalue v
      exact ⟨_, .exprStmt runValue⟩
  | .ifElse node cond onTrue none, s, s', h => by
      simp only [checkStmt, gives_bind, gives_pure] at h
      obtain ⟨test, s₁, hcond, scope, s₂, henter, _, s₃, hbody, _, _, hleave, -, rfl⟩ := h
      intro v
      obtain ⟨_, runCond⟩ := runs_visit .condition none cond hcond v
      obtain ⟨_, runOnTrue⟩ := runs_checkStmts onTrue hbody _
      exact ⟨_, .ifOnly runCond henter runOnTrue hleave⟩
  | .ifElse node cond onTrue (some onFalse), s, s', h => by
      simp only [checkStmt, gives_bind] at h
      obtain ⟨test, s₁, hcond, scope, s₂, henter, _, s₃, hbody, _, s₄, hleave, scope', s₅,
        henter', _, s₆, hbody', hleave'⟩ := h
      intro v
      obtain ⟨_, runCond⟩ := runs_visit .condition none cond hcond v
      obtain ⟨_, runOnTrue⟩ := runs_checkStmts onTrue hbody _
      obtain ⟨_, runOnFalse⟩ := runs_checkStmts onFalse hbody' _
      exact ⟨_, .ifElse runCond henter runOnTrue hleave henter' runOnFalse hleave'⟩
  | .whileLoop node cond body, s, s', h => by
      simp only [checkStmt, gives_bind] at h
      obtain ⟨test, s₁, hcond, _, s₂, hloop, scope, s₃, henter, _, s₄, hbody, _, s₅, hleave,
        hend⟩ := h
      intro v
      obtain ⟨_, runCond⟩ := runs_visit .condition none cond hcond v
      obtain ⟨_, runBody⟩ := runs_checkStmts body hbody _
      exact ⟨_, .whileLoop runCond hloop henter runBody hleave hend⟩
  | .ret node (some value), s, s', h => by
      simp only [checkStmt, gives_bind, gives_frame?] at h
      obtain ⟨_, _, ⟨rfl, rfl⟩, h⟩ := h
      split at h
      · simp at h
      · next frame hframe =>
        obtain ⟨rest, hrest⟩ := List.head?_eq_some_iff.mp hframe
        simp only [gives_bind] at h
        obtain ⟨returned, s₁, hvalue, hreturn⟩ := h
        intro v
        obtain ⟨_, runValue⟩ := runs_visit .value _ value hvalue v
        exact ⟨_, .retValue hrest runValue hreturn⟩
  | .ret node none, s, s', h => by
      simp only [checkStmt, gives_bind, gives_frame?] at h
      obtain ⟨_, _, ⟨rfl, rfl⟩, h⟩ := h
      split at h
      · simp at h
      · next frame hframe =>
        obtain ⟨rest, hrest⟩ := List.head?_eq_some_iff.mp hframe
        exact fun v => ⟨v, .retBare hrest h⟩
  | .breakLoop node, s, s', h => by
      simp only [checkStmt] at h
      exact fun v => ⟨v, .breakLoop h⟩
  | .continueLoop node, s, s', h => by
      simp only [checkStmt] at h
      exact fun v => ⟨v, .continueLoop h⟩
  | .block node body, s, s', h => by
      simp only [checkStmt, gives_bind] at h
      obtain ⟨scope, s₁, henter, _, s₂, hbody, hleave⟩ := h
      intro v
      obtain ⟨_, runBody⟩ := runs_checkStmts body hbody v
      exact ⟨_, .block henter runBody hleave⟩
  | .func node decl, s, s', h => by
      simp only [checkStmt, gives_bind] at h
      obtain ⟨func, s₁, hdeclare, hbody⟩ := h
      intro v
      obtain ⟨_, runBody⟩ := hA _ _ _ hbody v
      exact ⟨_, .funcStmt hdeclare runBody⟩

theorem runs_checkStmts :
    ∀ (stmts : List Stmt) {s s'}, (checkStmts analyze stmts).Gives settings s () s' →
      IsRun settings (.stmts stmts) s s'
  | [], s, s', h => by
      simp only [checkStmts, gives_pure] at h
      obtain ⟨-, rfl⟩ := h
      exact fun v => ⟨v, .stmtsNil⟩
  | stmt :: rest, s, s', h => by
      simp only [checkStmts, gives_bind] at h
      obtain ⟨_, s₁, hstmt, hrest⟩ := h
      intro v
      obtain ⟨_, runStmt⟩ := runs_checkStmt stmt hstmt v
      obtain ⟨_, runRest⟩ := runs_checkStmts rest hrest _
      exact ⟨_, .stmtsCons runStmt runRest⟩

theorem runs_checkBinding (place : BindingPlace) :
    ∀ (binding : Binding) {s s'}, (checkBinding analyze place binding).Gives settings s () s' →
      IsRun settings (.binding place binding) s s'
  | ⟨mutability, name, type, some init⟩, s, s', h => by
      simp only [checkBinding, gives_bind, gives_known, gives_pure] at h
      obtain ⟨declared, s₁, hlower, value, s₂, ⟨hinit, -, hknown⟩, _, _, ⟨rfl, rfl⟩, hfinish⟩ := h
      intro v
      obtain ⟨_, runInit⟩ := runs_visit .value _ init hinit v
      exact ⟨_, .bindInit hlower runInit hknown hfinish⟩
  | ⟨mutability, name, type, none⟩, s, s', h => by
      simp only [checkBinding, gives_bind, gives_pure] at h
      obtain ⟨declared, s₁, hlower, _, _, ⟨rfl, rfl⟩, hfinish⟩ := h
      exact fun v => ⟨v, .bindDefault hlower hfinish⟩

end

end

/-- Every successful analysis of a body is a run, whatever the bound on nested analyses. -/
theorem runs_checkBody {settings : Settings} (bound : Nat) {func : SymbolId} {s s' : CheckState}
    (h : (checkBody bound func).Gives settings s () s') : IsRun settings (.body func) s s' := by
  induction bound generalizing func s s' with
  | zero => simp [checkBody] at h
  | succ bound ih =>
      simp only [checkBody, gives_bind, gives_funcOf] at h
      obtain ⟨_, _, ⟨⟨-, rfl⟩, rfl⟩, h⟩ := h
      split at h
      · next hfunc =>
        obtain ⟨-, rfl⟩ := gives_pure.mp h
        exact fun v => ⟨v, .bodySkip (by simp [hfunc])⟩
      · next info hfunc =>
        rw [gives_ite] at h
        split at h
        · next hstate =>
          obtain ⟨-, rfl⟩ := gives_pure.mp h
          refine fun v => ⟨v, .bodySkip fun info' hfunc' => ?_⟩
          obtain rfl : info = info' := Option.some.inj (hfunc.symm.trans hfunc')
          simpa using hstate
        · next hstate =>
          have hstate : info.state = .unchecked := by simpa using hstate
          split at h
          · exact fun v => ⟨v, .bodyNone hfunc hstate ‹_› h⟩
          · next body hbody =>
            simp only [gives_bind, gives_symbol, gives_withCursor] at h
            obtain ⟨_, s₁, hstart, entry, _, ⟨hentry, rfl⟩, ret, s₂, ⟨hscope, s₃, h, rfl⟩, hfinish⟩ := h
            obtain ⟨_, s₄, hopen, _, s₅, hstmts, hclose⟩ := h
            intro v
            obtain ⟨_, runBody⟩ := runs_checkStmts (fun _ _ _ => ih) body hstmts v
            exact ⟨_, .bodyRun hfunc hstate hbody hstart hentry hscope hopen runBody hclose hfinish⟩

/-! ## Modules -/

/-- Parts of the analysis one after the other. -/
inductive RunsEach {α : Type} (run : α → CheckState → List Nat → CheckState → List Nat → Prop) :
    List α → CheckState → List Nat → CheckState → List Nat → Prop
  | nil {s v} : RunsEach run [] s v s v
  | cons {first rest s s₁ s' v v₁ v'} (runFirst : run first s v s₁ v₁)
      (runRest : RunsEach run rest s₁ v₁ s' v') : RunsEach run (first :: rest) s v s' v'

/-- What each of the parts keeps holds at the end, by induction on the parts. -/
theorem RunsEach.keeps {α : Type} {run : α → CheckState → List Nat → CheckState → List Nat → Prop}
    {P : CheckState → List Nat → Prop} {items : List α} {s s' : CheckState} {v v' : List Nat}
    (runs : RunsEach run items s v s' v') (h : P s v)
    (hrun : ∀ item s v s' v', run item s v s' v' → P s v → P s' v') : P s' v' := by
  induction runs with
  | nil => exact h
  | cons runFirst _ ih => exact ih (hrun _ _ _ _ _ runFirst h)

/-- The analysis of a declaration that may be a variable. -/
inductive GlobalRuns (settings : Settings) :
    Decl → CheckState → List Nat → CheckState → List Nat → Prop
  | global {node binding s s' v v'}
      (runBinding : Runs settings (.binding (.decl node.id) binding) s v s' v') :
      GlobalRuns settings (.global node binding) s v s' v'
  | other {decl s v} (hother : ∀ node binding, decl ≠ .global node binding) :
      GlobalRuns settings decl s v s v

/-- The analysis of a module: its types and functions are declared before a variable or a body is
analyzed. -/
inductive ModuleRuns (settings : Settings) (isExternal : Bool) (m : Module) :
    CheckState → List Nat → CheckState → List Nat → Prop
  | intro {scope funcs s s₁ s₂ s₃ s₄ s₅ s₆ s' v v₁ v'}
      (hmodule : (declareModule m).Gives settings s scope s₁)
      (htypes : (m.decls.forM declareType).Gives settings
        { s₁ with scopes := s₁.scopes.setCursor scope } () s₂)
      (hparts : (m.decls.forM completeType).Gives settings s₂ () s₃)
      (hfuncs : (declareFuncs m.decls).Gives settings s₃ funcs s₄)
      (runGlobals : RunsEach (GlobalRuns settings) m.decls s₄ v s₅ v₁)
      (runBodies : RunsEach (fun func => Runs settings (.body func)) funcs s₅ v₁ s₆ v')
      (hfinish : (if isExternal then markExternal s.tables.symbols.size else pure ()).Gives settings
        { s₆ with scopes := s₆.scopes.setCursor s₁.scopes.cursor } () s') :
      ModuleRuns settings isExternal m s v s' v'

section

variable {settings : Settings} {s s' : CheckState}

theorem runs_forM {α : Type} {run : α → CheckState → List Nat → CheckState → List Nat → Prop}
    {p : α → Check Unit} (all : List α)
    (hrun : ∀ a s s', (p a).Gives settings s () s' → ∀ v, ∃ v', run a s v s' v')
    (h : (all.forM p).Gives settings s () s') (v : List Nat) : ∃ v', RunsEach run all s v s' v' := by
  induction all generalizing s v with
  | nil =>
      obtain rfl := gives_forM_nil.mp h
      exact ⟨v, .nil⟩
  | cons first rest ih =>
      obtain ⟨s₁, hfirst, hrest⟩ := gives_forM_cons.mp h
      obtain ⟨v₁, runFirst⟩ := hrun first s s₁ hfirst v
      obtain ⟨v', runRest⟩ := ih hrest v₁
      exact ⟨v', .cons runFirst runRest⟩

theorem runs_checkGlobal (bound : Nat) {decl : Decl}
    (h : (checkGlobal bound decl).Gives settings s () s') (v : List Nat) :
    ∃ v', GlobalRuns settings decl s v s' v' := by
  cases decl with
  | global node binding =>
      obtain ⟨v', runBinding⟩ :=
        runs_checkBinding (fun _ _ _ => runs_checkBody bound) _ binding h v
      exact ⟨v', .global runBinding⟩
  | _ =>
      obtain ⟨-, rfl⟩ := gives_pure.mp h
      exact ⟨v, .other (by simp)⟩

/-- Every successful analysis of a module is a run. -/
theorem runs_checkModule (bound : Nat) {isExternal : Bool} {m : Module}
    (h : (checkModule bound isExternal m).Gives settings s () s') (v : List Nat) :
    ∃ v', ModuleRuns settings isExternal m s v s' v' := by
  simp only [checkModule, gives_bind, gives_tables] at h
  obtain ⟨_, _, ⟨rfl, rfl⟩, scope, s₁, hmodule, _, s₂, hdecls, hfinish⟩ := h
  obtain ⟨-, s₃, hphases, rfl⟩ := gives_withCursor.mp hdecls
  simp only [checkDecls, gives_bind] at hphases
  obtain ⟨_, s₄, htypes, _, s₅, hparts, funcs, s₆, hfuncs, _, s₇, hglobals, hbodies⟩ := hphases
  obtain ⟨v₁, runGlobals⟩ := runs_forM m.decls (fun _ _ _ => runs_checkGlobal bound) hglobals v
  obtain ⟨v', runBodies⟩ := runs_forM funcs (fun _ _ _ => runs_checkBody bound) hbodies v₁
  exact ⟨v', .intro hmodule htypes hparts hfuncs runGlobals runBodies hfinish⟩

end

end Stela.Check
