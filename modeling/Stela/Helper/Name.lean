import Stela.Types.Lifetime

/-!
# Names of lifetime helpers

The helper for an operation on a type is named after both. The code of a type
spells a builtin type by its name, marks arrays and functions by a letter before
the codes of their parts, and spells every other type by a letter, the length of
its name, the name, and the number of its symbol, which keeps types of equal name
apart. Weak aliases have the code of the type they stand for.
-/

namespace Stela

/-- The code of a parameter from that of its type. -/
def RefKind.mark : RefKind → String → String
  | .reference, code => "r" ++ code
  | .value, code => code

/-- The code of a nominal type. -/
def nominalCode (mark name : String) (symbol : SymbolId) : String :=
  mark ++ toString name.utf8ByteSize ++ name ++ "_" ++ toString symbol

namespace Tables

/-- The code of the type that a symbol declares, if the symbol is there. -/
def nominalCode? (t : Tables) (mark : String) (symbol : SymbolId) : Option String :=
  (t.symbols.get? symbol).map fun entry => nominalCode mark entry.name symbol

/-- The code of a type, if it has at most `bound` levels. -/
def codeWithin? (t : Tables) : Nat → TypeId → Option String
  | 0, _ => none
  | bound + 1, type => do
    match ← t.types.get? (← t.concrete? type) with
    | .builtin kind => return kind.name
    | .array element => return "A" ++ (← codeWithin? t bound element)
    | .func params ret =>
      let codes ← params.mapM fun param => (codeWithin? t bound param.2).map param.1.mark
      return "F" ++ toString params.length ++ String.join codes ++
        "R" ++ (← codeWithin? t bound ret)
    | .structType symbol => t.nominalCode? "S" symbol
    | .enumType symbol => t.nominalCode? "E" symbol
    | .hostType symbol => t.nominalCode? "U" symbol
    | .aliasType symbol => t.nominalCode? "N" symbol
    | .pending func => t.nominalCode? "P" func

/-- The code of a type. No chain of parts and aliases that ends is longer than the table. -/
def code? (t : Tables) (type : TypeId) : Option String := t.codeWithin? (t.types.size + 1) type

/-- The name of the helper for an operation on a type that has a code. -/
def helperName? (t : Tables) (op : LifetimeOp) (type : TypeId) : Option String :=
  (t.code? type).map fun code => "stela_" ++ op.name ++ "_" ++ code

/-- The code of a type, or no text where there is none. -/
def code (t : Tables) (type : TypeId) : String := (t.code? type).getD ""

/-- The name of the helper for an operation on a type, or no text where there is none. -/
def helperName (t : Tables) (op : LifetimeOp) (type : TypeId) : String :=
  (t.helperName? op type).getD ""

end Tables

end Stela
