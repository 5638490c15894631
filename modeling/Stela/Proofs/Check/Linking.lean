import Stela.Proofs.Check.Quiet
import Stela.Proofs.Syntax.Sites

/-!
# Links between closures

A closure is linked to the closure around it, from whose captures it fills its
own as far as an object comes from further outside. The links of all closures
are consistent at every time of the analysis, although captures are added to
several closures in turn while their bodies are still visited.
-/

namespace Stela

namespace CheckState

variable {s s' s'' : CheckState} {within : Nat → Nat → Prop} {source closure : SymbolId}
  {scope : ScopeId} {links links' : Links} {c : Capture}

/-! ## Objects and scopes -/

/-- The symbol was declared in a scope or further inside. -/
def DeclaredWithin (s : CheckState) (source : SymbolId) (scope : ScopeId) : Prop :=
  ∃ place outline, s.tables.symbols.outline? source = some (place, outline) ∧
    s.scopes.isWithin place scope = true

/-- The symbol is an object, but no global, and was declared outside of a scope. -/
def Outside (s : CheckState) (source : SymbolId) (scope : ScopeId) : Prop :=
  ∃ place info, s.tables.symbols.outline? source = some (place, .object info) ∧
    info.origin ≠ .global ∧ s.scopes.isWithin place scope = false

/-- What holds around any part of the analysis: scopes and symbols stay, and what is noted about an
expression stays noted. -/
structure Onward (s s' : CheckState) : Prop where
  grows : s.scopes.Grows s'.scopes
  symbols : s.tables.symbols.Extends s'.tables.symbols
  meanings : ∀ node symbol, s.meanings.exprs.get? node = some symbol →
    s'.meanings.exprs.get? node = some symbol
  captured : ∀ node, (s.captured.get? node).isSome → (s'.captured.get? node).isSome

theorem Onward.refl (s : CheckState) : s.Onward s :=
  ⟨.refl _, .refl _, fun _ _ h => h, fun _ h => h⟩

theorem Onward.trans (h : s.Onward s') (h' : s'.Onward s'') : s.Onward s'' :=
  ⟨h.grows.trans h'.grows, h.symbols.trans h'.symbols,
    fun node symbol hm => h'.meanings node symbol (h.meanings node symbol hm),
    fun node hc => h'.captured node (h.captured node hc)⟩

theorem onward_of_extends {t : SymbolTable} (h : s.tables.symbols.Extends t) :
    s.Onward { s with tables.symbols := t } :=
  ⟨.refl _, h, fun _ _ hm => hm, fun _ hc => hc⟩

theorem Still.onward (h : s.Still s') : s.Onward s' :=
  ⟨h.grows, h.symbols.extends, h.meanings, fun _ hc => h.captured ▸ hc⟩

section

variable (hs : s.Scoped) (h : s.Onward s')

include hs h

theorem isWithin_iff_of_onward {id : SymbolId} {place : ScopeId} {outline : Outline}
    (ho : s.tables.symbols.outline? id = some (place, outline)) :
    s'.scopes.isWithin place scope = s.scopes.isWithin place scope :=
  ScopeGraph.isWithin_of_grows hs.graph h.grows (hs.symbols id place outline ho).1

theorem DeclaredWithin.mono (hdeclared : s.DeclaredWithin source scope) :
    s'.DeclaredWithin source scope := by
  obtain ⟨place, outline, ho, hwithin⟩ := hdeclared
  obtain ⟨outline', ho', -⟩ := h.symbols source place outline ho
  exact ⟨place, outline', ho', (isWithin_iff_of_onward hs h ho).trans hwithin⟩

theorem Outside.mono (houtside : s.Outside source scope) : s'.Outside source scope := by
  obtain ⟨place, info, ho, horigin, hwithin⟩ := houtside
  exact ⟨place, info, h.symbols.object ho, horigin, (isWithin_iff_of_onward hs h ho).trans hwithin⟩

/-- A symbol that exists is not found outside of a scope later if it was not before. -/
theorem Outside.of_onward {place : ScopeId} {outline : Outline}
    (ho : s.tables.symbols.outline? source = some (place, outline))
    (houtside : s'.Outside source scope) : s.Outside source scope := by
  obtain ⟨place', info, ho', horigin, hwithin⟩ := houtside
  obtain ⟨rfl, rfl⟩ := h.symbols.object_inv ho ho'
  exact ⟨place', info, ho, horigin, (isWithin_iff_of_onward hs h ho).symm.trans hwithin⟩

end

/-- An object outside of a scope is outside of every scope in it. -/
theorem Outside.inner (hs : s.Scoped) {inner : ScopeId} (houtside : s.Outside source scope)
    (hinner : s.scopes.isWithin inner scope = true) : s.Outside source inner := by
  obtain ⟨place, info, ho, horigin, hwithin⟩ := houtside
  refine ⟨place, info, ho, horigin, Bool.eq_false_iff.mpr fun h => ?_⟩
  have hplace := (hs.symbols source place _ ho).1
  have hmem := ScopeGraph.mem_path_trans hs.graph hplace (ScopeGraph.isWithin_iff.mp h)
    (ScopeGraph.isWithin_iff.mp hinner)
  rw [ScopeGraph.isWithin_iff.mpr hmem] at hwithin
  cases hwithin

/-! ## Captures -/

/-- How a closure with these links fills a capture. -/
inductive Filled (s : CheckState) (links : Links) (c : Capture) : Prop
  | root (hvia : c.via = .enclosing) (hparent : links.parent = none)
  | enclosing {outer place around} (hvia : c.via = .enclosing) (hparent : links.parent = some outer)
    (houter : s.tables.symbols.outline? outer = some (place, .closure around))
    (hwithin : s.DeclaredWithin c.source around.scope)
  | parent {slot outer place around c'} (hvia : c.via = .parent slot)
    (hparent : links.parent = some outer)
    (houter : s.tables.symbols.outline? outer = some (place, .closure around))
    (houtside : ¬ s.DeclaredWithin c.source around.scope) (hslot : around.captures[slot]? = some c')
    (hsource : c'.source = c.source)

/-- The links of one closure are consistent. -/
structure Chained (s : CheckState) (closure : SymbolId) (links : Links) : Prop where
  distinct : (links.captures.map Capture.source).Nodup
  sources : ∀ c ∈ links.captures, ∃ place info,
    s.tables.symbols.outline? c.source = some (place, .object info) ∧ c.type = info.type.type
  parent : ∀ outer, links.parent = some outer → outer < closure ∧ ∃ place around,
    s.tables.symbols.outline? outer = some (place, .closure around)
  filled : ∀ c ∈ links.captures, s.Filled links c

theorem Filled.mono (hs : s.Scoped) (h : s.Onward s') {place : ScopeId} {outline : Outline}
    (ho : s.tables.symbols.outline? c.source = some (place, outline)) (hfilled : s.Filled links c)
    (hparent : links'.parent = links.parent) : s'.Filled links' c := by
  cases hfilled with
  | root hvia hnone => exact .root hvia (hparent.trans hnone)
  | enclosing hvia hsome houter hwithin =>
      obtain ⟨around', houter', -, hscope, -⟩ := h.symbols.closure houter
      exact .enclosing hvia (hparent.trans hsome) houter' (hscope ▸ hwithin.mono hs h)
  | parent hvia hsome houter houtside hslot hsource =>
      obtain ⟨around', houter', -, hscope, hcaptures⟩ := h.symbols.closure houter
      refine .parent hvia (hparent.trans hsome) houter' (fun hwithin => houtside ?_)
        (Links.slot_of_prefix hcaptures hslot) hsource
      obtain ⟨place', outline', ho', hwithin⟩ := hwithin
      obtain ⟨outline'', ho'', -⟩ := h.symbols _ _ _ ho
      obtain ⟨rfl, -⟩ := SymbolTable.outline?_inj ho' ho''
      exact ⟨_, _, ho, hscope ▸ (isWithin_iff_of_onward hs h ho).symm.trans hwithin⟩

theorem Chained.mono (hs : s.Scoped) (h : s.Onward s') (hchained : s.Chained closure links) :
    s'.Chained closure links := by
  refine ⟨hchained.distinct, fun c hc => ?_, fun outer hparent => ?_, fun c hc => ?_⟩
  · obtain ⟨place, info, ho, htype⟩ := hchained.sources c hc
    exact ⟨place, info, h.symbols.object ho, htype⟩
  · obtain ⟨hlt, place, around, houter⟩ := hchained.parent outer hparent
    obtain ⟨around', houter', -⟩ := h.symbols.closure houter
    exact ⟨hlt, place, around', houter'⟩
  · obtain ⟨place, info, ho, -⟩ := hchained.sources c hc
    exact (hchained.filled c hc).mono hs h ho rfl

/-- An object that is not captured yet is captured. -/
theorem Chained.push (hs : s.Scoped) (hchained : s.Chained closure links) {place : ScopeId}
    {info : ObjectInfo} (ho : s.tables.symbols.outline? c.source = some (place, .object info))
    (htype : c.type = info.type.type) (hfresh : ∀ c' ∈ links.captures, c'.source ≠ c.source)
    (hfilled : s.Filled links c) : s.Chained closure (links.push c) := by
  refine ⟨?_, fun c' hc' => ?_, hchained.parent, fun c' hc' => ?_⟩
  · rw [Links.push, List.map_append, List.nodup_append]
    refine ⟨hchained.distinct, by simp, fun a ha b hb => ?_⟩
    obtain ⟨c', hc', rfl⟩ := List.mem_map.mp ha
    obtain rfl := List.mem_singleton.mp hb
    exact hfresh c' hc'
  · rcases List.mem_append.mp hc' with hold | hnew
    · exact hchained.sources c' hold
    · obtain rfl := List.mem_singleton.mp hnew
      exact ⟨place, info, ho, htype⟩
  · rcases List.mem_append.mp hc' with hold | hnew
    · obtain ⟨place', info', ho', -⟩ := hchained.sources c' hold
      exact (hchained.filled c' hold).mono hs (.refl s) ho' rfl
    · obtain rfl := List.mem_singleton.mp hnew
      exact hfilled.mono hs (.refl s) ho rfl

/-! ## What is read -/

/-- The innermost body under analysis. -/
def top? (s : CheckState) : Option (SymbolId × FrameKind × ScopeId) := (s.frames.map Frame.place).head?

/-- The innermost body under analysis, without its symbol. -/
def body? (s : CheckState) : Option (FrameKind × ScopeId) := s.top?.map Prod.snd

theorem top?_eq_some {symbol : SymbolId} {kind : FrameKind} :
    s.top? = some (symbol, kind, scope) ↔ ∃ frame, s.frames.head? = some frame ∧
      frame.symbol = symbol ∧ frame.kind = kind ∧ frame.scope = scope := by
  simp only [top?, List.head?_map, Option.map_eq_some_iff, Frame.place, Prod.mk.injEq]

theorem body?_eq_some {kind : FrameKind} : s.body? = some (kind, scope) ↔ ∃ frame,
    s.frames.head? = some frame ∧ frame.kind = kind ∧ frame.scope = scope := by
  simp [body?, top?, Frame.place]

/-- An identifier directly in a body has a meaning. An object from outside of the body is read from
a closure, and through a slot. -/
def ReadBy (s : CheckState) (body : Option (FrameKind × ScopeId)) (node : Nat) : Prop :=
  ∃ source, s.meanings.exprs.get? node = some source ∧
    (∃ place outline, s.tables.symbols.outline? source = some (place, outline)) ∧
    ∀ kind scope, body = some (kind, scope) → s.Outside source scope →
      kind = .closure ∧ (s.captured.get? node).isSome

/-- What is found about an identifier in a body, or in a closure inside that body. -/
def Reads (s : CheckState) (body : Option (FrameKind × ScopeId)) (site : Site) : Prop :=
  site.expr.isIdent = true → match site.closure with
    | none => s.ReadBy body site.id
    | some inner => ∃ closure place links, s.meanings.exprs.get? inner = some closure ∧
      s.tables.symbols.outline? closure = some (place, .closure links) ∧
      s.ReadBy (some (.closure, links.scope)) site.id

theorem ReadBy.mono (hs : s.Scoped) (h : s.Onward s') {body : Option (FrameKind × ScopeId)} {node : Nat}
    (hread : s.ReadBy body node) : s'.ReadBy body node := by
  obtain ⟨source, hmeaning, ⟨place, outline, ho⟩, houtside⟩ := hread
  obtain ⟨outline', ho', -⟩ := h.symbols source place outline ho
  refine ⟨source, h.meanings node source hmeaning, ⟨place, outline', ho'⟩, fun kind scope hbody hout => ?_⟩
  obtain ⟨hkind, hcaptured⟩ := houtside kind scope hbody (hout.of_onward hs h ho)
  exact ⟨hkind, h.captured node hcaptured⟩

theorem Reads.mono (hs : s.Scoped) (h : s.Onward s') {body : Option (FrameKind × ScopeId)} {site : Site}
    (hreads : s.Reads body site) : s'.Reads body site := by
  intro hident
  have hread := hreads hident
  cases hclosure : site.closure with
  | none =>
      rw [hclosure] at hread
      exact hread.mono hs h
  | some inner =>
      rw [hclosure] at hread
      obtain ⟨closure, place, links, hmeaning, ho, hread⟩ := hread
      obtain ⟨links', ho', -, hscope, -⟩ := h.symbols.closure ho
      refine ⟨closure, place, links', h.meanings inner closure hmeaning, ho', ?_⟩
      rw [hscope]
      exact hread.mono hs h

/-- What is read in a function is read so in the body around the function. -/
theorem Reads.outward (hs : s.Scoped) {inner : ScopeId} {body : Option (FrameKind × ScopeId)} {site : Site}
    (hreads : s.Reads (some (.function, inner)) site)
    (hinner : ∀ kind scope, body = some (kind, scope) → s.scopes.isWithin inner scope = true) :
    s.Reads body site := by
  intro hident
  have hread := hreads hident
  cases hclosure : site.closure with
  | none =>
      rw [hclosure] at hread
      obtain ⟨source, hmeaning, hexists, houtside⟩ := hread
      refine ⟨source, hmeaning, hexists, fun kind scope hbody hout => ?_⟩
      have hnone := houtside _ _ rfl (hout.inner hs (hinner kind scope hbody))
      simp at hnone
  | some other =>
      rw [hclosure] at hread
      exact hread

/-- What is read in a closure, seen from the body around the closure. -/
theorem Reads.inside {node : Nat} {place : ScopeId} {body : Option (FrameKind × ScopeId)} {site : Site}
    (hmeaning : s.meanings.exprs.get? node = some closure)
    (ho : s.tables.symbols.outline? closure = some (place, .closure links))
    (hreads : s.Reads (some (.closure, links.scope)) site) : s.Reads body (site.inside node) := by
  intro hident
  have hread := hreads hident
  cases hclosure : site.closure with
  | none =>
      rw [hclosure] at hread
      simp only [Site.inside, hclosure, Option.none_or]
      exact ⟨closure, place, links, hmeaning, ho, hread⟩
  | some inner =>
      rw [hclosure] at hread
      simp only [Site.inside, hclosure, Option.some_or]
      exact hread

/-! ## The whole state -/

/-- A slot that is noted for an expression belongs to the closure that the expression stands in, and
holds the object that the expression means. -/
def Slotted (s : CheckState) (within : Nat → Nat → Prop) (node : Nat) (closure : SymbolId) (slot : Nat) :
    Prop :=
  ∃ inner place links c, within node inner ∧ s.meanings.exprs.get? inner = some closure ∧
    s.tables.symbols.outline? closure = some (place, .closure links) ∧
    links.captures[slot]? = some c ∧ s.meanings.exprs.get? node = some c.source ∧
    s.Outside c.source links.scope

/-- A body under analysis belongs to a closure, or to a function that is marked so. -/
def Hosts (s : CheckState) : SymbolId × FrameKind × ScopeId → Prop
  | (symbol, .closure, scope) => ∃ place links,
    s.tables.symbols.outline? symbol = some (place, .closure links) ∧ links.scope = scope
  | (symbol, .function, scope) => ∃ place decl,
    s.tables.symbols.outline? symbol = some (place, .func decl (some scope) .inProgress)

/-- What is known about a function with this outline. The body lies directly in the scope of the
declaration, and once it is done everything in it has been read. -/
structure Bodied (s : CheckState) (within : Nat → Nat → Prop) (place : ScopeId) (decl : FuncDecl)
    (body : Option ScopeId) (state : BodyState) : Prop where
  sites : ∀ site ∈ decl.sites, ∀ inner, site.closure = some inner → within site.id inner
  scope : ∀ scope, body = some scope → s.scopes.parent? scope = some place
  reads : state = .done → ∀ site ∈ decl.sites, ∃ scope, body = some scope ∧
    s.Reads (some (.function, scope)) site

/-- The invariant of the analysis, where `within` tells which closure an expression stands in. -/
structure Linked (within : Nat → Nat → Prop) (s : CheckState) : Prop where
  fits : s.Scoped
  closures : ∀ id place links, s.tables.symbols.outline? id = some (place, .closure links) →
    s.Chained id links
  captured : ∀ node closure slot, s.captured.get? node = some (closure, slot) →
    s.Slotted within node closure slot
  frames : ∀ place ∈ s.frames.map Frame.place, s.Hosts place
  funcs : ∀ id place decl body state,
    s.tables.symbols.outline? id = some (place, .func decl body state) →
    s.Bodied within place decl body state

theorem Slotted.mono (hs : s.Scoped) (h : s.Onward s') {node slot : Nat}
    (hslotted : s.Slotted within node closure slot) : s'.Slotted within node closure slot := by
  obtain ⟨inner, place, links, c, hwithin, hinner, ho, hslot, hnode, houtside⟩ := hslotted
  obtain ⟨links', ho', -, hscope, hcaptures⟩ := h.symbols.closure ho
  exact ⟨inner, place, links', c, hwithin, h.meanings _ _ hinner, ho', Links.slot_of_prefix hcaptures hslot,
    h.meanings _ _ hnode, hscope ▸ houtside.mono hs h⟩

theorem Hosts.mono (h : s.Onward s') (hactive : s.tables.symbols.Active s'.tables.symbols)
    {place : SymbolId × FrameKind × ScopeId} (hhosts : s.Hosts place) : s'.Hosts place := by
  obtain ⟨symbol, kind, scope⟩ := place
  cases kind with
  | function =>
      obtain ⟨place, decl, ho⟩ := hhosts
      exact ⟨place, decl, hactive symbol place decl _ ho⟩
  | closure =>
      obtain ⟨place, links, ho, rfl⟩ := hhosts
      obtain ⟨links', ho', -, hscope, -⟩ := h.symbols.closure ho
      exact ⟨place, links', ho', hscope⟩

theorem Bodied.mono (hs : s.Scoped) (h : s.Onward s') {place : ScopeId} {decl : FuncDecl}
    {body : Option ScopeId} {state : BodyState} (hbodied : s.Bodied within place decl body state) :
    s'.Bodied within place decl body state := by
  refine ⟨hbodied.sites, fun scope hscope => ?_, fun hdone site hsite => ?_⟩
  · have hparent := hbodied.scope scope hscope
    rw [h.grows.parents scope (ScopeGraph.lt_size_of_parent? hparent), hparent]
  · obtain ⟨scope, hscope, hreads⟩ := hbodied.reads hdone site hsite
    exact ⟨scope, hscope, hreads.mono hs h⟩

/-- A step is checked against the invariant where it adds something. -/
theorem Linked.step (h : s.Linked within) (hs' : s'.Scoped) (honward : s.Onward s')
    (hclosures : ∀ id place links, s'.tables.symbols.outline? id = some (place, .closure links) →
      s.tables.symbols.outline? id = some (place, .closure links) ∨ s'.Chained id links)
    (hcaptured : ∀ node closure slot, s'.captured.get? node = some (closure, slot) →
      s.captured.get? node = some (closure, slot) ∨ s'.Slotted within node closure slot)
    (hframes : ∀ place ∈ s'.frames.map Frame.place, s'.Hosts place)
    (hfuncs : ∀ id place decl body state,
      s'.tables.symbols.outline? id = some (place, .func decl body state) →
      s.tables.symbols.outline? id = some (place, .func decl body state) ∨
        s'.Bodied within place decl body state) : s'.Linked within := by
  refine ⟨hs', fun id place links ho => ?_, fun node closure slot hnode => ?_, hframes,
    fun id place decl body state ho => ?_⟩
  · rcases hclosures id place links ho with hold | hnew
    · exact (h.closures id place links hold).mono h.fits honward
    · exact hnew
  · rcases hcaptured node closure slot hnode with hold | hnew
    · exact (h.captured node closure slot hold).mono h.fits honward
    · exact hnew
  · rcases hfuncs id place decl body state ho with hold | hnew
    · exact (h.funcs id place decl body state hold).mono h.fits honward
    · exact hnew

/-! ## Parts of the analysis -/

/-- What holds around a part of the analysis that leaves the same bodies open. -/
structure Passes (within : Nat → Nat → Prop) (s s' : CheckState) : Prop where
  linked : s'.Linked within
  onward : s.Onward s'
  active : s.tables.symbols.Active s'.tables.symbols
  frames : s'.frames.map Frame.place = s.frames.map Frame.place
  modules : s'.modules = s.modules

/-- What holds around a part of the analysis that ends in the scope it started in. -/
structure Around (within : Nat → Nat → Prop) (s s' : CheckState) : Prop extends Passes within s s' where
  cursor : s'.scopes.cursor = s.scopes.cursor

theorem Passes.refl (h : s.Linked within) : s.Passes within s := ⟨h, .refl s, .refl _, rfl, rfl⟩

theorem Passes.trans (h : s.Passes within s') (h' : s'.Passes within s'') : s.Passes within s'' :=
  ⟨h'.linked, h.onward.trans h'.onward, h.active.trans h'.active, h'.frames.trans h.frames,
    h'.modules.trans h.modules⟩

theorem Around.refl (h : s.Linked within) : s.Around within s := ⟨.refl h, rfl⟩

theorem Around.trans (h : s.Around within s') (h' : s'.Around within s'') : s.Around within s'' :=
  ⟨h.toPasses.trans h'.toPasses, h'.cursor.trans h.cursor⟩

/-- A step that leaves the same bodies open is checked against the invariant where it adds
something. -/
theorem Linked.passes (h : s.Linked within) (hs' : s'.Scoped) (honward : s.Onward s')
    (hactive : s.tables.symbols.Active s'.tables.symbols)
    (hframes : s'.frames.map Frame.place = s.frames.map Frame.place) (hmodules : s'.modules = s.modules)
    (hclosures : ∀ id place links, s'.tables.symbols.outline? id = some (place, .closure links) →
      s.tables.symbols.outline? id = some (place, .closure links) ∨ s'.Chained id links)
    (hcaptured : ∀ node closure slot, s'.captured.get? node = some (closure, slot) →
      s.captured.get? node = some (closure, slot) ∨ s'.Slotted within node closure slot)
    (hfuncs : ∀ id place decl body state,
      s'.tables.symbols.outline? id = some (place, .func decl body state) →
      s.tables.symbols.outline? id = some (place, .func decl body state) ∨
        s'.Bodied within place decl body state) : s.Passes within s' :=
  ⟨h.step hs' honward hclosures hcaptured
    (fun place hplace => (h.frames place (hframes ▸ hplace)).mono honward hactive) hfuncs, honward,
    hactive, hframes, hmodules⟩

theorem Linked.still (h : s.Linked within) (hstill : s.Still s') : s.Around within s' :=
  ⟨h.passes hstill.fits hstill.onward hstill.symbols.active hstill.frames hstill.modules
    (fun id place _ ho => .inl (hstill.symbols.inverse id place _ ho fun h => h))
    (fun _ _ _ hnode => .inl (hstill.captured ▸ hnode))
    (fun id place _ _ _ ho => .inl (hstill.symbols.inverse id place _ ho fun h => h)), hstill.cursor⟩

/-- What holds around steps that add a closure or function. -/
structure Gains (new : SymbolId) (s s' : CheckState) : Prop where
  grows : s.scopes.Grows s'.scopes
  symbols : s.tables.symbols.Gains new s'.tables.symbols
  meanings : ∀ node symbol, s.meanings.exprs.get? node = some symbol →
    s'.meanings.exprs.get? node = some symbol
  captured : s'.captured = s.captured
  frames : s'.frames.map Frame.place = s.frames.map Frame.place
  modules : s'.modules = s.modules

theorem gains_add {entry : Symbol} :
    s.Gains s.tables.symbols.size { s with tables.symbols := (s.tables.symbols.add entry).2 } :=
  ⟨.refl _, SymbolTable.gains_add, fun _ _ hm => hm, rfl, rfl, rfl⟩

theorem Gains.still {new : SymbolId} (h : s.Gains new s') (hstill : s'.Still s'') : s.Gains new s'' :=
  ⟨h.grows.trans hstill.grows, h.symbols.keeps hstill.symbols,
    fun node symbol hm => hstill.meanings node symbol (h.meanings node symbol hm),
    hstill.captured.trans h.captured, hstill.frames.trans h.frames, hstill.modules.trans h.modules⟩

/-- A closure or function that is added is checked against the invariant. -/
theorem Linked.gains {new : SymbolId} (h : s.Linked within) (hgains : s.Gains new s') (hs' : s'.Scoped)
    (hclosure : ∀ place links, s'.tables.symbols.outline? new = some (place, .closure links) →
      s'.Chained new links)
    (hfunc : ∀ place decl body state,
      s'.tables.symbols.outline? new = some (place, .func decl body state) →
      s'.Bodied within place decl body state) : s.Passes within s' := by
  have honward : s.Onward s' := ⟨hgains.grows, hgains.symbols.extends, hgains.meanings,
    fun node hnode => hgains.captured ▸ hnode⟩
  refine h.passes hs' honward hgains.symbols.active hgains.frames hgains.modules (fun id place links ho => ?_)
    (fun node closure slot hnode => .inl (hgains.captured ▸ hnode)) fun id place decl body state ho => ?_
  · by_cases heq : new = id
    · subst heq
      exact .inr (hclosure place links ho)
    · exact .inl (hgains.symbols.inverse id place _ heq ho fun h => h)
  · by_cases heq : new = id
    · subst heq
      exact .inr (hfunc place decl body state ho)
    · exact .inl (hgains.symbols.inverse id place _ heq ho fun h => h)

section

variable {t : SymbolTable} {id : SymbolId} {place : ScopeId} {old outline : Outline} (h : s.Linked within)
  (hsets : s.tables.symbols.Sets id place outline t)
  (ho : s.tables.symbols.outline? id = some (place, old)) (hextends : old.Extends outline)
  (hinner : ∀ scope, outline.scope? = some scope → scope < s.scopes.size)
  (hclosure : ∀ links, outline = .closure links → Chained { s with tables.symbols := t } id links)
  (hfunc : ∀ decl body state, outline = .func decl body state →
    Bodied { s with tables.symbols := t } within place decl body state)

include h hsets ho hextends hinner hclosure hfunc

/-- A change to a closure or function is checked against the invariant. -/
theorem Linked.sets
    (hframes : ∀ place ∈ s.frames.map Frame.place, Hosts { s with tables.symbols := t } place) :
    CheckState.Linked within { s with tables.symbols := t } := by
  have hsymbols := hsets.extends ho hextends
  have hscoped := h.fits.sets hsets hsymbols.reshapes (h.fits.symbols id place old ho).1 hinner
  refine h.step hscoped (onward_of_extends hsymbols) (fun other place' links hother => ?_)
    (fun _ _ _ hnode => .inl hnode) hframes fun other place' decl body state hother => ?_
  · rcases hsets.cases hother with ⟨rfl, rfl, heq⟩ | ⟨-, hold⟩
    · exact .inr (hclosure links heq)
    · exact .inl hold
  · rcases hsets.cases hother with ⟨rfl, rfl, heq⟩ | ⟨-, hold⟩
    · exact .inr (hfunc decl body state heq)
    · exact .inl hold

/-- Functions under analysis aside, such a change leaves the bodies open. -/
theorem Linked.passes_sets (hidle : ∀ decl body, old ≠ .func decl body .inProgress) :
    s.Passes within { s with tables.symbols := t } := by
  have honward := onward_of_extends (hsets.extends ho hextends)
  have hactive := hsets.active ho hidle
  exact ⟨h.sets hsets ho hextends hinner hclosure hfunc fun place hplace =>
    (h.frames place hplace).mono honward hactive, honward, hactive, rfl, rfl⟩

end

theorem Linked.quiet {α : Type} {p : Check α} {settings : Settings} {a : α} (h : s.Linked within)
    (hquiet : p.Quiet) (hgives : p.Gives settings s a s') : s.Around within s' :=
  h.still (hquiet.still hgives h.fits)

/-- The cursor moves in a graph that keeps its scopes. -/
theorem Linked.rescope (h : s.Linked within) {g : ScopeGraph}
    (hscoped : CheckState.Scoped { s with scopes := g }) (hgrows : s.scopes.Grows g) :
    s.Passes within { s with scopes := g } :=
  have honward : s.Onward { s with scopes := g } := ⟨hgrows, .refl _, fun _ _ h => h, fun _ h => h⟩
  h.passes hscoped honward (.refl _) rfl rfl (fun _ _ _ ho => .inl ho) (fun _ _ _ hnode => .inl hnode)
    fun _ _ _ _ _ ho => .inl ho

theorem Passes.top? (h : s.Passes within s') : s'.top? = s.top? := by
  rw [CheckState.top?, CheckState.top?, h.frames]

theorem Passes.body? (h : s.Passes within s') : s'.body? = s.body? := by
  rw [CheckState.body?, CheckState.body?, h.top?]

/-- An expression directly in the innermost body stands in the closure that the body belongs to, if
it belongs to one. -/
def Admits (s : CheckState) (within : Nat → Nat → Prop) (node : Nat) : Prop :=
  ∀ symbol scope, s.top? = some (symbol, .closure, scope) →
    ∃ inner, s.meanings.exprs.get? inner = some symbol ∧ within node inner

theorem Admits.passes {node : Nat} (hadmits : s.Admits within node) (h : s.Passes within s') :
    s'.Admits within node := by
  intro symbol scope htop
  obtain ⟨inner, hmeaning, hwithin⟩ := hadmits symbol scope (h.top?.symm.trans htop)
  exact ⟨inner, h.onward.meanings inner symbol hmeaning, hwithin⟩

end CheckState

end Stela
