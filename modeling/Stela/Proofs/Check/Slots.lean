import Stela.Check.Capture
import Stela.Proofs.Check.Gives

/-!
# Finding slots

What a search for the slot of an object does: the slot is there already, or the
object is captured after what was found in the surrounding closures. Whether a
name is captured at all depends on the innermost body and on the object.
-/

namespace Stela.Check

variable {settings : Settings} {s s' : CheckState} {source closure : SymbolId}

/-- How a new capture of an object that was declared at some place is filled, with the state after the
search in the surrounding closure, as far as there is one. -/
inductive Fills (settings : Settings) (bound : Nat) (source : SymbolId) (place : ScopeId)
    (info : ClosureInfo) (s : CheckState) : CaptureSource → CheckState → Prop
  | root (hparent : info.parent = none) : Fills settings bound source place info s .enclosing s
  | stray {parent : SymbolId} (hparent : info.parent = some parent)
    (houter : s.tables.symbols.closure? parent = none) :
    Fills settings bound source place info s .enclosing s
  | enclosing {parent : SymbolId} {outer : ClosureInfo} (hparent : info.parent = some parent)
    (houter : s.tables.symbols.closure? parent = some outer)
    (hwithin : s.scopes.isWithin place outer.scope = true) :
    Fills settings bound source place info s .enclosing s
  | parent {parent : SymbolId} {outer : ClosureInfo} {slot : Nat} {s' : CheckState}
    (hparent : info.parent = some parent) (houter : s.tables.symbols.closure? parent = some outer)
    (hwithin : s.scopes.isWithin place outer.scope = false)
    (hrun : (captureWithin bound parent source).Gives settings s slot s') :
    Fills settings bound source place info s (.parent slot) s'

/-- An object that a closure has not captured yet gets a slot. -/
structure AddsSlot (settings : Settings) (bound : Nat) (closure source : SymbolId) (info : ClosureInfo)
    (s : CheckState) (slot : Nat) (s' : CheckState) : Prop where
  fresh : ∀ c ∈ info.captures, c.source ≠ source
  adds : ∃ entry object via s₁ info', s.tables.symbols.get? source = some entry ∧
    s.tables.symbols.object? source = some object ∧
    Fills settings bound source entry.scope info s via s₁ ∧
    s' = { s₁ with tables.symbols := s₁.tables.symbols.modifyClosure closure fun info =>
      { info with captures := info.captures ++ [⟨source, via, object.type.type⟩] } } ∧
    s'.tables.symbols.closure? closure = some info' ∧ slot = info'.captures.length - 1

theorem captureWithin_gives {bound slot : Nat}
    (h : (captureWithin (bound + 1) closure source).Gives settings s slot s') :
    ∃ info, s.tables.symbols.closure? closure = some info ∧
      ((∃ c, info.captures[slot]? = some c ∧ c.source = source) ∧ s' = s ∨
        AddsSlot settings bound closure source info s slot s') := by
  simp only [captureWithin, gives_bind, gives_tables, gives_require] at h
  obtain ⟨_, _, ⟨rfl, rfl⟩, info, _, ⟨hinfo, rfl⟩, h⟩ := h
  refine ⟨info, hinfo, ?_⟩
  split at h
  · next found hfound =>
    obtain ⟨rfl, rfl⟩ := gives_pure.mp h
    obtain ⟨hlt, hsame, -⟩ := List.findIdx?_eq_some_iff_getElem.mp hfound
    exact .inl ⟨⟨_, List.getElem?_eq_getElem hlt, beq_iff_eq.mp hsame⟩, rfl⟩
  · next hnone =>
    refine .inr ⟨fun c hc heq => ?_, ?_⟩
    · have hnot := List.findIdx?_eq_none_iff.mp hnone c hc
      simp [heq] at hnot
    simp only [gives_bind, gives_symbol, gives_tables, gives_require] at h
    obtain ⟨entry, _, ⟨hentry, rfl⟩, _, _, ⟨rfl, rfl⟩, object, _, ⟨hobject, rfl⟩, h⟩ := h
    split at h
    · next hroot =>
      simp only [gives_bind, gives_pure, gives_modifyClosure, gives_tables, gives_require] at h
      obtain ⟨_, _, ⟨rfl, rfl⟩, _, _, ⟨-, rfl⟩, _, _, ⟨rfl, rfl⟩, info', _, ⟨hinfo', rfl⟩, rfl, rfl⟩ := h
      exact ⟨entry, object, _, s, info', hentry, hobject, .root hroot, rfl, hinfo', rfl⟩
    · next parent hparent =>
      simp only [gives_bind, gives_closureOf] at h
      obtain ⟨_, _, ⟨⟨-, rfl⟩, rfl⟩, h⟩ := h
      split at h
      · next outer houter =>
        simp only [gives_bind, gives_isWithin] at h
        obtain ⟨_, _, ⟨⟨-, rfl⟩, rfl⟩, h⟩ := h
        split at h
        · next hwithin =>
          simp only [gives_bind, gives_pure, gives_modifyClosure, gives_tables, gives_require] at h
          obtain ⟨_, _, ⟨rfl, rfl⟩, _, _, ⟨-, rfl⟩, _, _, ⟨rfl, rfl⟩, info', _, ⟨hinfo', rfl⟩, rfl, rfl⟩ := h
          exact ⟨entry, object, _, s, info', hentry, hobject, .enclosing hparent houter hwithin, rfl,
            hinfo', rfl⟩
        · next hwithin =>
          simp only [gives_bind, gives_pure, gives_modifyClosure, gives_tables, gives_require] at h
          obtain ⟨slot', s₁, hrun, _, _, ⟨rfl, rfl⟩, _, _, ⟨-, rfl⟩, _, _, ⟨rfl, rfl⟩, info', _,
            ⟨hinfo', rfl⟩, rfl, rfl⟩ := h
          exact ⟨entry, object, _, s₁, info', hentry, hobject,
            .parent hparent houter (Bool.eq_false_iff.mpr hwithin) hrun, rfl, hinfo', rfl⟩
      · next houter =>
        simp only [gives_bind, gives_pure, gives_modifyClosure, gives_tables, gives_require] at h
        obtain ⟨_, _, ⟨rfl, rfl⟩, _, _, ⟨-, rfl⟩, _, _, ⟨rfl, rfl⟩, info', _, ⟨hinfo', rfl⟩, rfl, rfl⟩ := h
        exact ⟨entry, object, _, s, info', hentry, hobject, .stray hparent houter, rfl, hinfo', rfl⟩

/-- The innermost body is one of a closure, and the symbol is an object from outside of it, but no
global. -/
structure Escapes (s : CheckState) (source : SymbolId) (frame : Frame) (entry : Symbol)
    (object : ObjectInfo) : Prop where
  top : s.frames.head? = some frame
  isClosure : frame.kind = .closure
  found : s.tables.symbols.get? source = some entry
  isObject : entry.kind = .object object
  isLocal : object.origin ≠ .global
  outside : s.scopes.isWithin entry.scope frame.scope = false

/-- A name is captured just if it means an object that escapes from the innermost closure. -/
theorem noteCapture_gives {node : Nat} (h : (noteCapture node source).Gives settings s () s') :
    (∃ frame entry object slot s₁, Escapes s source frame entry object ∧
      (capture frame.symbol source).Gives settings s slot s₁ ∧
      s' = { s₁ with captured := s₁.captured.insert node (frame.symbol, slot) }) ∨
      (∀ frame entry object, ¬ Escapes s source frame entry object) ∧ s' = s := by
  simp only [noteCapture, gives_bind, gives_frame?] at h
  obtain ⟨_, _, ⟨rfl, rfl⟩, h⟩ := h
  split at h
  · next hnone =>
    obtain ⟨-, rfl⟩ := gives_pure.mp h
    exact .inr ⟨fun frame _ _ hescapes => by simp [hescapes.top] at hnone, rfl⟩
  · next frame hframe =>
    have same {frame' : Frame} {entry : Symbol} {object : ObjectInfo}
        (hescapes : Escapes s source frame' entry object) : frame' = frame :=
      Option.some.inj (hescapes.top.symm.trans hframe)
    rw [gives_ite] at h
    split at h
    · next hkind =>
      obtain ⟨-, rfl⟩ := gives_pure.mp h
      refine .inr ⟨fun frame' _ _ hescapes => ?_, rfl⟩
      obtain rfl := same hescapes
      simp [hescapes.isClosure] at hkind
    · next hkind =>
      simp only [gives_bind, gives_symbol] at h
      obtain ⟨entry, _, ⟨hentry, rfl⟩, h⟩ := h
      split at h
      · next object hobject =>
        have noEscape (h : object.origin = .global ∨ s.scopes.isWithin entry.scope frame.scope = true)
            (frame' : Frame) (entry' : Symbol) (object' : ObjectInfo) :
            ¬ Escapes s source frame' entry' object' := by
          intro hescapes
          obtain rfl := same hescapes
          obtain rfl := Option.some.inj (hescapes.found.symm.trans hentry)
          obtain rfl := SymbolKind.object.inj (hescapes.isObject.symm.trans hobject)
          simp [hescapes.isLocal, hescapes.outside] at h
        rw [gives_ite] at h
        split at h
        · next hglobal =>
          obtain ⟨-, rfl⟩ := gives_pure.mp h
          exact .inr ⟨noEscape (.inl (beq_iff_eq.mp hglobal)), rfl⟩
        · next hlocal =>
          simp only [gives_bind, gives_isWithin] at h
          obtain ⟨_, _, ⟨⟨-, rfl⟩, rfl⟩, h⟩ := h
          rw [gives_ite] at h
          split at h
          · next hinside =>
            obtain ⟨-, rfl⟩ := gives_pure.mp h
            exact .inr ⟨noEscape (.inr hinside), rfl⟩
          · next houtside =>
            simp only [gives_bind, gives_update] at h
            obtain ⟨slot, s₁, hrun, rfl⟩ := h
            exact .inl ⟨frame, entry, object, slot, s₁, ⟨hframe, by simpa using hkind, hentry, hobject,
              fun heq => hlocal (beq_iff_eq.mpr heq), Bool.eq_false_iff.mpr houtside⟩, hrun, rfl⟩
      · next hnot =>
        obtain ⟨-, rfl⟩ := gives_pure.mp h
        refine .inr ⟨fun frame' entry' object' hescapes => ?_, rfl⟩
        obtain rfl := Option.some.inj (hescapes.found.symm.trans hentry)
        exact hnot object' hescapes.isObject

end Stela.Check
