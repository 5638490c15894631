import Stela.Syntax.Tree
import Stela.Syntax.Error
import Stela.Token.Pattern

/-!
# Values of literals

Integer literals denote a number below `2^64`, with a suffix that names their
type. Text literals are decoded escape by escape. A real literal denotes the
binary floating-point number nearest to the decimal that is written.
-/

namespace Stela.Literal

/-- The number a digit denotes. -/
def digitValue (c : Char) : Nat :=
  if isDecimalDigit c then c.toNat - '0'.toNat
  else if 'a' ≤ c && c ≤ 'f' then c.toNat - 'a'.toNat + 10
  else c.toNat - 'A'.toNat + 10

/-- The number that a nonempty list of digits denotes. -/
def readDigits (base : Nat) (isDigit : Char → Bool) (digits : List Char) : Option Nat :=
  if digits.isEmpty || !digits.all isDigit then none
  else some (digits.foldl (fun n d => n * base + digitValue d) 0)

def dropUnderscores (text : List Char) : List Char := text.filter (· != '_')

/-- Splits off the suffix of an integer literal without underscores. In a
hexadecimal literal a final `b` is a digit. -/
def splitSuffix (text : List Char) : List Char × IntSuffix :=
  match text.getLast? with
  | some 'u' => (text.dropLast, .uint)
  | some 'b' => if ['0', 'x'].isPrefixOf text then (text, .plain) else (text.dropLast, .byte)
  | _ => (text, .plain)

/-- The number that the digits of an integer literal denote. -/
def readInteger (digits : List Char) : Option Nat :=
  match digits with
  | '0' :: 'x' :: hex => readDigits 16 isHexDigit hex
  | digits => readDigits 10 isDecimalDigit digits

/-- The value of an integer literal. -/
def ofInteger (text : String) : Except SyntaxError Literal :=
  let (digits, suffix) := splitSuffix (dropUnderscores text.toList)
  match readInteger digits with
  | none => .error .invalidInteger
  | some n =>
    if UInt64.size ≤ n then .error .invalidInteger
    else if suffix = .byte ∧ 256 ≤ n then .error .byteOutOfRange
    else .ok (.int (UInt64.ofNat n) suffix)

/-- The value of an enum case: decimal digits without a suffix, below `2^63`. -/
def enumValue (text : String) (negative : Bool) : Except SyntaxError Int64 :=
  match readDigits 10 isDecimalDigit (dropUnderscores text.toList) with
  | none => .error .invalidEnumValue
  | some n =>
    if 1 <<< 63 ≤ n then .error .invalidEnumValue
    else .ok (Int64.ofInt (if negative then -(n : Int) else n))

/-- The character that a backslash and `c` stand for. -/
def escaped (c : Char) : Option Char :=
  match c with
  | 'n' => some '\n'
  | 't' => some '\t'
  | 'r' => some '\r'
  | '0' => some '\x00'
  | '\\' => some '\\'
  | '\'' => some '\''
  | '"' => some '"'
  | _ => none

/-- Decodes the escapes of a text. -/
def unescape : List Char → Option (List Char)
  | [] => some []
  | '\\' :: [] => none
  | '\\' :: c :: cs => do
    let d ← escaped c
    let rest ← unescape cs
    return d :: rest
  | c :: cs => (unescape cs).map (c :: ·)

/-- The text between the quotes of a literal. -/
def body (text : String) : List Char := (text.toList.drop 1).dropLast

def ofString (text : String) : Except SyntaxError Literal :=
  match unescape (body text) with
  | some cs => .ok (.str (String.ofList cs))
  | none => .error .invalidEscape

def ofCharacter (text : String) : Except SyntaxError Literal :=
  match unescape (body text) with
  | some [c] => .ok (.char c)
  | _ => .error .invalidCharacter

end Stela.Literal

namespace Stela

/-- A decimal number: `digits` times ten to the power `exponent`. -/
structure Decimal where
  digits : Nat
  exponent : Int
deriving Repr, DecidableEq

namespace Decimal

/-- The decimal that a real literal writes. -/
def ofLiteral (text : String) : Decimal :=
  let cs := Literal.dropUnderscores text.toList
  let number (ds : List Char) : Nat := ds.foldl (fun n d => n * 10 + Literal.digitValue d) 0
  let whole := cs.takeWhile isDecimalDigit
  let rest := (cs.dropWhile isDecimalDigit).drop 1
  let fraction := rest.takeWhile isDecimalDigit
  let exponent : Int :=
    match (rest.dropWhile isDecimalDigit).drop 1 with
    | '-' :: ds => -(number ds : Int)
    | '+' :: ds => number ds
    | ds => number ds
  ⟨number (whole ++ fraction), exponent - fraction.length⟩

/-- `num / den` rounded to a whole number, a half to the even neighbour. -/
def roundDiv (num den : Nat) : Nat :=
  let q := num / den
  let r := num % den
  if 2 * r < den then q
  else if den < 2 * r then q + 1
  else if q % 2 = 0 then q else q + 1

/-- The binary floating-point number, as its 64 bits, nearest to a positive
quotient. The significand has 53 bits unless the exponent is the least one. -/
def nearestBits (num den : Nat) : Nat :=
  let guess := max (-1074) ((Nat.log2 num : Int) - Nat.log2 den - 53)
  let scale (k : Int) : Nat × Nat := (num <<< (-k).toNat, den <<< k.toNat)
  let low := scale guess
  let k := if low.1 / low.2 < 1 <<< 53 then guess else guess + 1
  let exact := scale k
  min (0x7FF0 <<< 48) ((k + 1074).toNat <<< 52 + roundDiv exact.1 exact.2)

/-- The bits of the binary floating-point number nearest to a decimal. Far
outside the range of such numbers the answer is zero or infinity at once. -/
def bits (d : Decimal) : UInt64 :=
  if d.digits = 0 then 0
  else if 310 < d.exponent then 0x7FF0000000000000
  else if (Nat.log2 d.digits : Int) + 3 * d.exponent < -1081 then 0
  else UInt64.ofNat
    (nearestBits (d.digits * Nat.pow 10 d.exponent.toNat) (Nat.pow 10 (-d.exponent).toNat))

end Decimal

end Stela
