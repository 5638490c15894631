/-!
# Line starts of a source text

`Lines.ofText` records the byte offset at which each line starts, and
`Lines.locate` finds the line and column of any byte offset by bisection.
-/

namespace Stela

/-- Byte offsets of the line starts after the first line, in ascending order.
Line one starts at offset zero and needs no entry. -/
structure Lines where
  later : Array Nat
deriving Repr

namespace Lines

/-- Offsets just behind the newlines of `cs`, which starts at byte `offset`. -/
def startsAfter (offset : Nat) : List Char → List Nat
  | [] => []
  | c :: cs =>
    let next := offset + c.utf8Size
    if c = '\n' then next :: startsAfter next cs else startsAfter next cs

def ofText (text : String) : Lines := ⟨(startsAfter 0 text.toList).toArray⟩

/-- How many entries of `xs` between `lo` and `hi` are at most `offset`, counted
from index zero: everything below `lo` is, nothing from `hi` on is. -/
def countUpTo (xs : Array Nat) (offset lo hi : Nat) : Nat :=
  if lo < hi then
    let mid := (lo + hi) / 2
    if xs.getD mid 0 ≤ offset then countUpTo xs offset (mid + 1) hi
    else countUpTo xs offset lo mid
  else lo
termination_by hi - lo

/-- Lines and columns are 32-bit numbers and start again from zero. -/
def wrap (n : Nat) : Nat := n % UInt32.size

/-- The line and column, both from one, of a byte offset. -/
def locate (lines : Lines) (offset : Nat) : Nat × Nat :=
  match countUpTo lines.later offset 0 lines.later.size with
  | 0 => (1, wrap (offset + 1))
  | n + 1 => (wrap (n + 2), wrap (offset - lines.later.getD n 0 + 1))

end Lines

end Stela
