import Stela.Proofs.Check.Linking
import Stela.Proofs.Check.Slots

/-!
# Adding captures

A capture is added to a closure after it was added to the closures around it, as
far as the object is from outside of them. All links stay consistent, and the
slot that is noted for a name belongs to the closure that the name stands in.
-/

namespace Stela

namespace Check

open CheckState

variable {settings : Settings} {s s' : CheckState} {within : Nat → Nat → Prop}
  {source closure : SymbolId} {place scope : ScopeId} {links : Links} {c : Capture}

/-- What holds around the search for a slot: captures are added, to no closure further inside. -/
structure Captures (within : Nat → Nat → Prop) (closure : SymbolId) (s s' : CheckState) : Prop
    extends Passes within s s' where
  rest : s' = { s with tables.symbols := s'.tables.symbols }
  inner : ∀ id, closure < id → s'.tables.symbols.outline? id = s.tables.symbols.outline? id

theorem Captures.refl (h : s.Linked within) : Captures within closure s s :=
  ⟨.refl h, rfl, fun _ _ => rfl⟩

theorem Captures.trans {s'' : CheckState} (h : Captures within closure s s')
    (h' : Captures within closure s' s'') : Captures within closure s s'' :=
  ⟨h.toPasses.trans h'.toPasses, by rw [h'.rest, h.rest],
    fun id hlt => (h'.inner id hlt).trans (h.inner id hlt)⟩

/-- An object that the closure has not captured yet is captured. -/
theorem captures_addCapture (h : s.Linked within)
    (ho : s.tables.symbols.outline? closure = some (place, .closure links)) {place' : ScopeId}
    {info : ObjectInfo} (hsource : s.tables.symbols.outline? c.source = some (place', .object info))
    (htype : c.type = info.type.type) (hfresh : ∀ c' ∈ links.captures, c'.source ≠ c.source)
    (hfilled : s.Filled links c) :
    Captures within closure s { s with tables.symbols := s.tables.symbols.modifyClosure closure fun info =>
      { info with captures := info.captures ++ [c] } } := by
  have hsets := SymbolTable.sets_capture (c := c) ho
  have hextends : Outline.Extends (.closure links) (.closure (links.push c)) :=
    .closure rfl rfl (List.prefix_append _ _)
  have hpasses := h.passes_sets hsets ho hextends (h.fits.symbols closure place _ ho).2
    (fun links' heq => by
      obtain rfl := Outline.closure.inj heq
      exact ((h.closures closure place links ho).push h.fits hsource htype hfresh hfilled).mono h.fits
        (onward_of_extends (hsets.extends ho hextends)))
    (by simp) (by simp)
  exact ⟨hpasses, rfl, fun id hlt => hsets.of_ne (Nat.ne_of_lt hlt)⟩

/-- The slot of the closure holds the object. -/
def HasSlot (s : CheckState) (closure : SymbolId) (place : ScopeId) (source : SymbolId) (slot : Nat) :
    Prop :=
  ∃ links c, s.tables.symbols.outline? closure = some (place, .closure links) ∧
    links.captures[slot]? = some c ∧ c.source = source

/-- An object that is searched in the surrounding closure, where it is not declared, is filled from
there. -/
theorem filled_of_hasSlot (h : s.Linked within) {info outer : ClosureInfo} {parent : SymbolId}
    {place' outerPlace : ScopeId} {object : ObjectInfo} {slot : Nat}
    (hparent : info.parent = some parent)
    (houter : s.tables.symbols.outline? parent = some (outerPlace, .closure outer.links))
    (hsource : s.tables.symbols.outline? source = some (place', .object object))
    (hwithin : s.scopes.isWithin place' outer.scope = false) (hcaptures : Captures within parent s s')
    (hslot : HasSlot s' parent outerPlace source slot) :
    s'.Filled info.links ⟨source, .parent slot, object.type.type⟩ := by
  obtain ⟨around, c, haround, hslot, hc⟩ := hslot
  refine .parent rfl hparent haround (fun hinside => ?_) hslot hc
  -- The outer closure still stands where it did, so the object is outside of it.
  obtain ⟨around', haround', -, hscope, -⟩ := hcaptures.onward.symbols.closure houter
  obtain rfl := Outline.closure.inj (SymbolTable.outline?_inj haround haround').2
  obtain ⟨place'', outline, hdeclared, hinside⟩ := hinside
  obtain ⟨rfl, -⟩ := SymbolTable.outline?_inj hdeclared (hcaptures.onward.symbols.object hsource)
  rw [hscope, isWithin_iff_of_onward h.fits hcaptures.onward hsource] at hinside
  exact Bool.false_ne_true (hwithin.symm.trans hinside)

/-- The slot that is found for an object holds it. -/
theorem captures_captureWithin (bound : Nat) {slot : Nat} {place' : ScopeId} {object : ObjectInfo}
    (h : s.Linked within) (ho : s.tables.symbols.outline? closure = some (place, .closure links))
    (hsource : s.tables.symbols.outline? source = some (place', .object object))
    (hgives : (captureWithin bound closure source).Gives settings s slot s') :
    Captures within closure s s' ∧ HasSlot s' closure place source slot := by
  induction bound generalizing closure place links slot s s' with
  | zero => exact absurd hgives gives_fault
  | succ bound ih =>
      obtain ⟨info, hinfo, rfl⟩ := SymbolTable.closure?_of_outline? ho
      obtain ⟨info', hinfo', hcases⟩ := captureWithin_gives hgives
      obtain rfl := Option.some.inj (hinfo.symm.trans hinfo')
      obtain ⟨⟨c, hslot, hc⟩, rfl⟩ | ⟨hfresh, hadds⟩ := hcases
      · exact ⟨.refl h, info.links, c, ho, hslot, hc⟩
      obtain ⟨entry, object', via, s₁, info', hentry, hobject, hfills, rfl, hinfo', rfl⟩ := hadds
      obtain rfl := Option.some.inj ((SymbolTable.object?_of_outline? hsource).symm.trans hobject)
      obtain ⟨rfl, -⟩ := SymbolTable.outline?_inj hsource (SymbolTable.outline?_of_get? hentry)
      obtain ⟨hbefore, ho₁, hfilled⟩ : Captures within closure s s₁ ∧
          s₁.tables.symbols.outline? closure = some (place, .closure info.links) ∧
          s₁.Filled info.links ⟨source, via, object.type.type⟩ := by
        cases hfills with
        | root hparent => exact ⟨.refl h, ho, .root rfl hparent⟩
        | stray hparent hnone =>
            obtain ⟨-, outerPlace, around, houter⟩ := (h.closures closure place _ ho).parent _ hparent
            obtain ⟨outer, hsome, -⟩ := SymbolTable.closure?_of_outline? houter
            simp [hnone] at hsome
        | enclosing hparent houter hwithin =>
            obtain ⟨outerPlace, houter⟩ := SymbolTable.outline?_of_closure? houter
            exact ⟨.refl h, ho, .enclosing rfl hparent houter ⟨_, _, hsource, hwithin⟩⟩
        | @parent parent _ _ _ hparent houter hwithin hrun =>
            -- The closures around have smaller numbers, so the search in them leaves this one as it is.
            obtain ⟨outerPlace, houter⟩ := SymbolTable.outline?_of_closure? houter
            obtain ⟨hcaptures, hslot⟩ := ih h houter hsource hrun
            have hlt := ((h.closures closure place _ ho).parent parent hparent).1
            exact ⟨⟨hcaptures.toPasses, hcaptures.rest,
              fun id hid => hcaptures.inner id (Nat.lt_trans hlt hid)⟩,
              (hcaptures.inner closure hlt).trans ho,
              filled_of_hasSlot h hparent houter hsource hwithin hcaptures hslot⟩
      have hadded := captures_addCapture (c := ⟨source, via, object.type.type⟩) hbefore.linked ho₁
        (hbefore.onward.symbols.object hsource) rfl hfresh hfilled
      have hself := (SymbolTable.sets_capture (c := ⟨source, via, object.type.type⟩) ho₁).self
      obtain ⟨place₂, ho₂⟩ := SymbolTable.outline?_of_closure? hinfo'
      have hlinks := Outline.closure.inj (SymbolTable.outline?_inj ho₂ hself).2
      have hcaptures : info'.captures = info.captures ++ [⟨source, via, object.type.type⟩] :=
        congrArg Links.captures hlinks
      refine ⟨hbefore.trans hadded, _, ⟨source, via, object.type.type⟩, hself, ?_, rfl⟩
      rw [hcaptures]
      simp [Links.push, ClosureInfo.links]

/-- An object that escapes from the innermost closure is captured by it, and the slot is noted. -/
theorem around_capture (h : s.Linked within) {node slot : Nat} {s₁ : CheckState}
    (hmeaning : s.meanings.exprs.get? node = some source) (hadmits : s.Admits within node)
    (htop : s.top? = some (closure, .closure, scope)) (houtside : s.Outside source scope)
    (hrun : (capture closure source).Gives settings s slot s₁) :
    s.Around within { s₁ with captured := s₁.captured.insert node (closure, slot) } := by
  obtain ⟨inner, hinner, hadmitted⟩ := hadmits _ _ htop
  obtain ⟨place, links, hlinks, rfl⟩ := h.frames _ (List.mem_of_mem_head? htop)
  simp only [capture, gives_bind, gives_tables] at hrun
  obtain ⟨_, _, ⟨rfl, rfl⟩, hrun⟩ := hrun
  obtain ⟨_, _, ho, -⟩ := id houtside
  obtain ⟨hcaptures, links', c, hlinks', hslot, hsource⟩ := captures_captureWithin _ h hlinks ho hrun
  obtain ⟨links'', hlinks'', -, hscope, -⟩ := hcaptures.onward.symbols.closure hlinks
  obtain rfl := Outline.closure.inj (SymbolTable.outline?_inj hlinks' hlinks'').2
  have hnoted : s₁.Onward { s₁ with captured := s₁.captured.insert node (closure, slot) } :=
    ⟨.refl _, .refl _, fun _ _ h => h, fun node' h => by
      rw [NodeMap.get?_insert]
      split <;> simp [h]⟩
  have honward := hcaptures.onward.trans hnoted
  refine ⟨hcaptures.toPasses.trans (hcaptures.linked.passes
    (hcaptures.linked.fits.congr rfl rfl rfl) hnoted (.refl _) rfl rfl (fun _ _ _ hold => .inl hold)
    (fun node' closure' slot' hnode => ?_) fun _ _ _ _ _ hold => .inl hold), ?_⟩
  · rw [NodeMap.get?_insert] at hnode
    split at hnode
    · next heq =>
      subst heq
      obtain ⟨rfl, rfl⟩ := Prod.mk.inj (Option.some.inj hnode)
      refine .inr ⟨inner, place, links', c, hadmitted, honward.meanings _ _ hinner, hlinks', hslot,
        hsource ▸ honward.meanings _ _ hmeaning, ?_⟩
      rw [hsource, hscope]
      exact houtside.mono h.fits honward
    · exact .inl hnode
  · rw [hcaptures.rest]

/-- An object from outside of a closure is read through a slot. -/
theorem around_noteCapture (h : s.Linked within) {node : Nat}
    (hmeaning : s.meanings.exprs.get? node = some source) (hadmits : s.Admits within node)
    (hgives : (noteCapture node source).Gives settings s () s') :
    s.Around within s' ∧ ∀ scope, s.body? = some (.closure, scope) → s'.Outside source scope →
      (s'.captured.get? node).isSome := by
  obtain ⟨frame, entry, object, slot, s₁, hescapes, hrun, rfl⟩ | ⟨hnone, rfl⟩ := noteCapture_gives hgives
  · have htop : s.top? = some (frame.symbol, .closure, frame.scope) :=
      top?_eq_some.mpr ⟨frame, hescapes.top, rfl, hescapes.isClosure, rfl⟩
    have ho := SymbolTable.outline?_of_get? hescapes.found
    rw [hescapes.isObject] at ho
    exact ⟨around_capture h hmeaning hadmits htop
      ⟨_, object, ho, hescapes.isLocal, hescapes.outside⟩ hrun, fun _ _ _ => by simp⟩
  · refine ⟨.refl h, fun scope hbody houtside => ?_⟩
    obtain ⟨frame, hframe, hkind, rfl⟩ := body?_eq_some.mp hbody
    obtain ⟨place, object, ho, horigin, hwithin⟩ := houtside
    obtain ⟨entry, hentry, heq⟩ := Option.map_eq_some_iff.mp ho
    obtain ⟨rfl, -⟩ := Prod.mk.inj heq
    have hobject := (SymbolTable.kind?_of_get? hentry).symm.trans
      (SymbolTable.object?_eq_some.mp (SymbolTable.object?_of_outline? ho))
    exact absurd ⟨hframe, hkind, hentry, Option.some.inj hobject, horigin, hwithin⟩
      (hnone frame entry object)

end Check

end Stela
