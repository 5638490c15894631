import Stela.Proofs.Syntax.Occurrences
import Stela.Proofs.Types.Outline

/-!
# What the source declares

What a symbol takes from the source: an object its name and how it is declared,
and a function its declaration. Only the declaration of an object or function
adds such a symbol; all other changes to the table leave these as they are. The
objects that a program declares are its variables, its parameters and the
receivers of its methods.
-/

namespace Stela

/-- What the source says about an object or a function. -/
inductive SourceDecl where
  | object (name : String) (span : Span) (info : ObjectInfo)
  | func (decl : FuncDecl)

def SymbolKind.declared? (kind : SymbolKind) (name : String) (span : Span) : Option SourceDecl :=
  match kind with
  | .object info => some (.object name span info)
  | .func info => some (.func info.decl)
  | _ => none

def Symbol.declared? (entry : Symbol) : Option SourceDecl :=
  entry.kind.declared? entry.name entry.span

namespace SymbolTable

variable {t : SymbolTable} {id other : SymbolId} {entry : Symbol}

def declared? (t : SymbolTable) (id : SymbolId) : Option SourceDecl := (t.get? id).bind Symbol.declared?

theorem declared?_of_get? (h : t.get? id = some entry) : t.declared? id = entry.declared? :=
  congrArg (Option.bind · Symbol.declared?) h

theorem declared?_of_func? {info : FuncInfo} (h : t.func? id = some info) :
    t.declared? id = some (.func info.decl) := by
  obtain ⟨entry, hentry, hkind⟩ := Option.map_eq_some_iff.mp (func?_eq_some.mp h)
  rw [declared?_of_get? hentry, Symbol.declared?, hkind]
  rfl

theorem declared?_add : (t.add entry).2.declared? id =
    if id = t.size then entry.declared? else t.declared? id := by
  have hget : (t.add entry).2.get? id = if id = t.size then some entry else t.get? id :=
    Array.getElem?_push
  rw [declared?, hget]
  split <;> rfl

theorem declared?_modify {f : Symbol → Symbol} (hf : ∀ entry, (f entry).declared? = entry.declared?) :
    (t.modify id f).declared? other = t.declared? other := by
  have hget : (t.modify id f).get? other = if id = other then (t.get? other).map f else t.get? other :=
    Array.getElem?_modify
  rw [declared?, hget]
  split
  · rw [Option.bind_map]
    exact congrArg _ (funext hf)
  · rfl

theorem declared?_modifyKind {f : SymbolKind → SymbolKind}
    (hf : ∀ kind name span, (f kind).declared? name span = kind.declared? name span) :
    (t.modifyKind id f).declared? other = t.declared? other :=
  declared?_modify fun entry => hf entry.kind entry.name entry.span

/-- A kind that is replaced by one that is no object or function. -/
theorem declared?_of_modifyKind {kind : SymbolKind} {declared : SourceDecl}
    (hkind : ∀ name span, kind.declared? name span = none)
    (h : (t.modifyKind id fun _ => kind).declared? other = some declared) :
    t.declared? other = some declared := by
  have hget : (t.modifyKind id fun _ => kind).get? other = if id = other then
      (t.get? other).map fun entry => { entry with kind } else t.get? other :=
    Array.getElem?_modify
  rw [SymbolTable.declared?, hget] at h
  split at h
  · obtain ⟨_, hentry, hd⟩ := Option.bind_eq_some_iff.mp h
    obtain ⟨entry, -, rfl⟩ := Option.map_eq_some_iff.mp hentry
    exact absurd hd (by simp [Symbol.declared?, hkind])
  · exact h

theorem declared?_modifyFunc {f : FuncInfo → FuncInfo} (hdecl : ∀ info, (f info).decl = info.decl) :
    (t.modifyFunc id f).declared? other = t.declared? other := by
  refine declared?_modifyKind fun kind name span => ?_
  cases kind with
  | func info => exact congrArg (fun decl => some (SourceDecl.func decl)) (hdecl info)
  | _ => rfl

theorem declared?_modifyClosure {f : ClosureInfo → ClosureInfo} :
    (t.modifyClosure id f).declared? other = t.declared? other := by
  refine declared?_modifyKind fun kind name span => ?_
  cases kind <;> rfl

end SymbolTable

/-! ## Variables -/

/-- A variable, parameter or receiver as the source declares it. Parameters that are passed by
reference are mutable. -/
structure Variable where
  name : Ident
  mutability : Mutability
  origin : Origin

/-- The object is declared as this variable. -/
def Variable.Declares (v : Variable) (declared : SourceDecl) : Prop :=
  ∃ type, declared = .object v.name.name v.name.span ⟨.named type v.mutability, v.origin⟩

def Param.variable (param : Param) : Variable := ⟨param.name, param.mutability, .param⟩

def Binding.variable (binding : Binding) (origin : Origin) : Variable :=
  ⟨binding.name, binding.mutability, origin⟩

/-- The value that a method is called on. -/
def FuncDecl.receiver (decl : FuncDecl) : List Variable :=
  match decl.kind with
  | .method mutability => [⟨⟨"self", decl.name.span⟩, mutability, .receiver⟩]
  | .free | .static => []

/-- What a statement declares in the block around it. -/
def Stmt.variables : Stmt → List Variable
  | .bind _ binding => [binding.variable .body]
  | _ => []

/-- What the body of a closure or function declares, apart from closures and functions in it. A
function that the host provides has no body. -/
def Occurrence.variables : Occurrence → List Variable
  | .expr (.closure _ sig body) =>
    sig.params.map Param.variable ++ (Stmt.listParts body).flatMap Stmt.variables
  | .func decl => match decl.body with
    | some body => decl.receiver ++ decl.sig.params.map Param.variable ++
        (Stmt.listParts body).flatMap Stmt.variables
    | none => []
  | .expr _ => []

/-- The variables of a module, which are visible in all of it. -/
def Decl.globals : Decl → List Variable
  | .global _ binding => [binding.variable .global]
  | _ => []

def Module.variables (m : Module) : List Variable :=
  m.decls.flatMap Decl.globals ++ m.items.flatMap Occurrence.variables

end Stela
