/-!
# Maps on node numbers

A map from node numbers to values, listed in the order of the numbers.
-/

namespace Stela

structure NodeMap (α : Type) where
  entries : Array (Option α)
deriving Repr

namespace NodeMap

variable {α : Type}

def empty : NodeMap α := ⟨#[]⟩

def get? (m : NodeMap α) (id : Nat) : Option α := (m.entries[id]?).join

/-- Sets the value of a node. -/
def insert (m : NodeMap α) (id : Nat) (value : α) : NodeMap α :=
  if id < m.entries.size then ⟨m.entries.modify id fun _ => some value⟩
  else ⟨(m.entries ++ Array.replicate (id - m.entries.size) none).push (some value)⟩

/-- Sets the value of a node that has none; a value that is there has to agree. -/
def fill? [DecidableEq α] (m : NodeMap α) (id : Nat) (value : α) : Option (NodeMap α) :=
  match m.get? id with
  | none => some (m.insert id value)
  | some old => if old = value then some m else none

/-- The nodes with values, in ascending order. -/
def toList (m : NodeMap α) : List (Nat × α) :=
  (List.range m.entries.size).filterMap fun id => (m.get? id).map fun value => (id, value)

end NodeMap

end Stela
