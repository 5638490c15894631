import Stela.Check.State

/-!
# Captures of closures

A closure captures every object that it reads and that is declared outside of
it, globals excepted. Slots are given in the order of first use. An object from
outside the surrounding closure too is captured there first, and the inner slot
is filled from the outer one.
-/

namespace Stela.Check

/-- The slot of an object in a closure, which is added on first use. The chain
of surrounding closures is followed for at most `bound` steps. -/
def captureWithin : Nat → SymbolId → SymbolId → Check Nat
  | 0, _, _ => fault .spent
  | bound + 1, closure, source => do
    let info ← require ((← tables).symbols.closure? closure) (.notAClosure closure)
    match info.captures.findIdx? fun c => c.source == source with
    | some slot => return slot
    | none =>
      let object ← symbol source
      let objectInfo ← require ((← tables).symbols.object? source) (.notAnObject source)
      let via ← match info.parent with
        | none => pure CaptureSource.enclosing
        | some parent => do
          match ← closureOf parent with
          | some outer =>
            if ← isWithin object.scope outer.scope then pure .enclosing
            else do
              let slot ← captureWithin bound parent source
              pure (.parent slot)
          | none => pure .enclosing
      let capture : Capture := ⟨source, via, objectInfo.type.type⟩
      modifyClosure closure fun info => { info with captures := info.captures ++ [capture] }
      let info ← require ((← tables).symbols.closure? closure) (.notAClosure closure)
      return info.captures.length - 1

/-- The slot of an object in a closure. A closure has a greater number than the
closures around it. -/
def capture (closure source : SymbolId) : Check Nat := do
  captureWithin ((← tables).symbols.size + 1) closure source

/-- Notes that an expression reads a symbol, which is captured if it is an
object from outside the innermost closure. -/
def noteCapture (node : Nat) (source : SymbolId) : Check Unit := do
  match ← frame? with
  | none => return
  | some frame =>
    if frame.kind != .closure then return
    let entry ← symbol source
    match entry.kind with
    | .object info =>
      if info.origin == .global then return
      if ← isWithin entry.scope frame.scope then return
      let slot ← capture frame.symbol source
      update fun s => { s with captured := s.captured.insert node (frame.symbol, slot) }
    | _ => return

end Stela.Check
