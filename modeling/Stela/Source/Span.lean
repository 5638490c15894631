/-!
# Source spans

A span is a half-open range of byte offsets in one file, with the line and
column of its first byte. Lines and columns count from one; line zero marks a
span that stands for no source text.
-/

namespace Stela

/-- Number of a source file in a session, in the order the files were met. -/
abbrev FileId := Nat

structure Span where
  file : FileId
  start : Nat
  stop : Nat
  line : Nat
  col : Nat
deriving Repr, DecidableEq, Inhabited

namespace Span

/-- The span of synthesized entities: builtins and host bindings. -/
def dummy : Span := ⟨0, 0, 0, 0, 0⟩

def isDummy (s : Span) : Bool := s.line == 0

/-- The number of bytes. Offsets are 64-bit numbers and so are their differences. -/
def length (s : Span) : Nat := (s.stop + UInt64.size - s.start) % UInt64.size

def isEmpty (s : Span) : Bool := s.start == s.stop

/-- The least span that covers both; its position is that of the earlier one. -/
def merge (a b : Span) : Span where
  file := a.file
  start := min a.start b.start
  stop := max a.stop b.stop
  line := if a.start ≤ b.start then a.line else b.line
  col := if a.start ≤ b.start then a.col else b.col

end Span

end Stela
