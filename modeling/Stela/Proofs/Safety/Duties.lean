import Stela.Proofs.Check.Scoping
import Stela.Proofs.Safety.Closed
import Stela.Proofs.Syntax.Keys

/-!
# Duties

A node gets its meaning once. Most nodes get it when the analysis reaches them,
but the body of a function and the target of an alias are put off: the symbol
has the duty to give meaning to their nodes. As long as a node is free, which is
to say vacant and in no duty, only the analysis of that node fills it. The nodes
of a duty stay vacant until the duty is taken up, which happens once.
-/

namespace Stela

/-- The number of a declaration is below a bound. -/
def NodeKey.Below (n : Nat) : NodeKey → Prop
  | .node .decl id => id < n
  | _ => True

/-- The node has no meaning yet. -/
def Meanings.Vacant (m : Meanings) : NodeKey → Prop
  | .node .expr id => m.exprs.get? id = none
  | .node .stmt id => m.locals.get? id = none
  | .node .decl id => m.decls.get? id = none
  | .node .type id => m.types.get? id = none
  | .param type => m.params.get? type = none

/-- The name of a type that stands at the node was not looked up yet. -/
def Meanings.Unnamed (m : Meanings) : NodeKey → Prop
  | .node .type id => m.typeNames.get? id = none
  | _ => True

theorem Meanings.Unnamed.of_typeNames {m m' : Meanings} {key : NodeKey} (h : m.Unnamed key)
    (hnames : m'.typeNames = m.typeNames) : m'.Unnamed key := by
  obtain ⟨_ | _ | _ | _, id⟩ | type := key
  case node.type =>
    change m'.typeNames.get? id = none
    rw [hnames]
    exact h
  all_goals trivial

/-- What a symbol still has to do. -/
structure Duty where
  /-- The declaration of the function whose body is put off. -/
  decl : Option Nat
  /-- The nodes that will be given a meaning. -/
  keys : List NodeKey

def SymbolKind.duty? : SymbolKind → Option Duty
  | .func info =>
    if info.state = .unchecked then some ⟨some info.decl.node.id, info.decl.bodyKeys⟩ else none
  | .aliasType ⟨_, .unresolved written, _⟩ => some ⟨none, written.keys⟩
  | _ => none

/-- The target of the alias is being looked for. -/
def SymbolKind.IsResolving (kind : SymbolKind) : Prop :=
  ∃ info, kind = .aliasType info ∧ info.target = .resolving

namespace SymbolTable

variable {t : SymbolTable} {id : SymbolId} {duty : Duty}

def duty? (t : SymbolTable) (id : SymbolId) : Option Duty := (t.kind? id).bind SymbolKind.duty?

theorem lt_size_of_duty? (h : t.duty? id = some duty) : id < t.size := by
  obtain ⟨kind, hkind, -⟩ := Option.bind_eq_some_iff.mp h
  exact lt_size_of_kind? hkind

/-- The target of the alias is being looked for. -/
def IsResolving (t : SymbolTable) (id : SymbolId) : Prop :=
  ∃ kind, t.kind? id = some kind ∧ kind.IsResolving

/-- The target of the alias was found. -/
def IsResolved (t : SymbolTable) (id : SymbolId) : Prop :=
  ∃ info target, t.kind? id = some (.aliasType info) ∧ info.target = .resolved target

theorem duty?_of_kind? {kind : SymbolKind} (h : t.kind? id = some kind) : t.duty? id = kind.duty? := by
  rw [duty?, h]
  rfl

end SymbolTable

namespace CheckState

variable {s s' s'' : CheckState} {own own' keys keys' : List NodeKey} {key : NodeKey} {n : Nat}

def duty? (s : CheckState) (id : SymbolId) : Option Duty := s.tables.symbols.duty? id

/-- The node is left to a symbol. -/
def Promised (s : CheckState) (key : NodeKey) : Prop :=
  ∃ id duty, s.duty? id = some duty ∧ key ∈ duty.keys

/-- Different nodes without a meaning that are left to no symbol. -/
structure Free (n : Nat) (s : CheckState) (keys : List NodeKey) : Prop where
  nodup : keys.Nodup
  below : ∀ key ∈ keys, key.Below n
  vacant : ∀ key ∈ keys, s.meanings.Vacant key
  unnamed : ∀ key ∈ keys, s.meanings.Unnamed key
  unpromised : ∀ key ∈ keys, ¬ s.Promised key

/-- The nodes of a duty have no meaning and are in no other one. The declaration of a function
whose body is put off means that function. -/
structure Dutiful (n : Nat) (s : CheckState) : Prop where
  nodup : ∀ id duty, s.duty? id = some duty → duty.keys.Nodup
  below : ∀ id duty, s.duty? id = some duty → ∀ key ∈ duty.keys, key.Below n
  vacant : ∀ id duty, s.duty? id = some duty → ∀ key ∈ duty.keys, s.meanings.Vacant key
  unnamed : ∀ id duty, s.duty? id = some duty → ∀ key ∈ duty.keys, s.meanings.Unnamed key
  apart : ∀ id duty id' duty', s.duty? id = some duty → s.duty? id' = some duty' →
    ∀ key ∈ duty.keys, key ∈ duty'.keys → id = id'
  posted : ∀ id duty, s.duty? id = some duty → ∀ decl, duty.decl = some decl →
    s.meanings.decls.get? decl = some id ∧ decl < n

/-- New duties are about the given nodes. -/
def Posts (own : List NodeKey) (s s' : CheckState) : Prop :=
  ∀ id duty, s'.duty? id = some duty → s.duty? id = some duty ∨
    s.tables.symbols.size ≤ id ∧ ∀ key ∈ duty.keys, key ∈ own

/-- Apart from the given nodes only those of duties that were taken up lack a meaning no more. -/
def Leaves (lacks : Meanings → NodeKey → Prop) (own : List NodeKey) (s s' : CheckState) : Prop :=
  ∀ key, lacks s.meanings key → key ∉ own →
    (∀ id duty, s.duty? id = some duty → key ∈ duty.keys → s'.duty? id = some duty) →
    lacks s'.meanings key

/-- What holds around any part of the analysis to which the given nodes belong: new duties are
about these nodes, and apart from them only nodes of duties that were taken up have got a
meaning. -/
structure Follows (own : List NodeKey) (s s' : CheckState) : Prop where
  extent : s.extent.Le s'.extent
  duties : Posts own s s'
  vacant : Leaves Meanings.Vacant own s s'
  unnamed : Leaves Meanings.Unnamed own s s'
  decls : ∀ node id, s.meanings.decls.get? node = some id → s'.meanings.decls.get? node = some id

/-- A part of the analysis that leaves the bodies it entered and puts nothing off. -/
structure Balanced (s s' : CheckState) : Prop where
  bodies : s'.bodies = s.bodies
  duties : ∀ id duty, s'.duty? id = some duty → s.duty? id = some duty

/-- Only the analysis of a node itself gives it a meaning, if the node is left to no symbol. -/
theorem Leaves.of_unpromised {lacks : Meanings → NodeKey → Prop} (h : Leaves lacks own s s')
    (hlacks : lacks s.meanings key) (hown : key ∉ own) (hpromised : ¬ s.Promised key) :
    lacks s'.meanings key :=
  h key hlacks hown fun id duty hduty hmem => absurd ⟨id, duty, hduty, hmem⟩ hpromised

/-! ## Free nodes -/

namespace Free

theorem nil : s.Free n [] := ⟨List.nodup_nil, by simp, by simp, by simp, by simp⟩

theorem perm (h : s.Free n keys) (hperm : keys.Perm keys') : s.Free n keys' :=
  ⟨hperm.nodup_iff.mp h.nodup, fun key hkey => h.below key (hperm.mem_iff.mpr hkey),
    fun key hkey => h.vacant key (hperm.mem_iff.mpr hkey),
    fun key hkey => h.unnamed key (hperm.mem_iff.mpr hkey),
    fun key hkey => h.unpromised key (hperm.mem_iff.mpr hkey)⟩

theorem left (h : s.Free n (keys ++ keys')) : s.Free n keys :=
  ⟨h.nodup.of_append_left, fun key hkey => h.below key (List.mem_append_left _ hkey),
    fun key hkey => h.vacant key (List.mem_append_left _ hkey),
    fun key hkey => h.unnamed key (List.mem_append_left _ hkey),
    fun key hkey => h.unpromised key (List.mem_append_left _ hkey)⟩

/-- Nodes stay free while a part of the analysis to which they do not belong goes on. -/
theorem after (h : s.Free n keys) (hfollows : Follows own s s') (hown : ∀ key ∈ keys, key ∉ own) :
    s'.Free n keys := by
  refine ⟨h.nodup, h.below, fun key hkey => ?_, fun key hkey => ?_, fun key hkey => ?_⟩
  · exact hfollows.vacant.of_unpromised (h.vacant key hkey) (hown key hkey) (h.unpromised key hkey)
  · exact hfollows.unnamed.of_unpromised (h.unnamed key hkey) (hown key hkey) (h.unpromised key hkey)
  · rintro ⟨id, duty, hduty, hmem⟩
    rcases hfollows.duties id duty hduty with hold | ⟨-, hnew⟩
    · exact h.unpromised key hkey ⟨id, duty, hold, hmem⟩
    · exact hown key hkey (hnew key hmem)

/-- The nodes that are left when the first ones have been dealt with. -/
theorem right (h : s.Free n (keys ++ keys')) (hfollows : Follows keys s s') : s'.Free n keys' := by
  have hdisjoint := List.disjoint_of_nodup_append h.nodup
  refine Free.after ⟨h.nodup.of_append_right, fun key hkey => h.below key (List.mem_append_right _ hkey),
    fun key hkey => h.vacant key (List.mem_append_right _ hkey),
    fun key hkey => h.unnamed key (List.mem_append_right _ hkey),
    fun key hkey => h.unpromised key (List.mem_append_right _ hkey)⟩ hfollows
    fun key hkey hmem => hdisjoint hmem hkey

theorem still (h : s.Free n keys) (hfollows : Follows [] s s') : s'.Free n keys :=
  h.after hfollows fun _ _ => List.not_mem_nil

end Free

/-! ## Parts of the analysis -/

theorem Leaves.widen {lacks : Meanings → NodeKey → Prop} (h : Leaves lacks own s s')
    (hsub : ∀ key ∈ own, key ∈ own') : Leaves lacks own' s s' :=
  fun key hkey hown => h key hkey fun hmem => hown (hsub key hmem)

theorem Leaves.trans {lacks : Meanings → NodeKey → Prop} (h : Leaves lacks own s s')
    (h' : Leaves lacks own s' s'') (hposts : Posts own s s') (hposts' : Posts own s' s'')
    (hsize : s.tables.symbols.size ≤ s'.tables.symbols.size) : Leaves lacks own s s'' := by
  intro key hkey hown hkept
  -- A duty that was there before and is there afterwards was there in between.
  have hlacks := h key hkey hown fun id duty hduty hmem => by
    rcases hposts' id duty (hkept id duty hduty hmem) with hold | ⟨hle, -⟩
    · exact hold
    · have hlt := SymbolTable.lt_size_of_duty? hduty
      exact absurd hle (Nat.not_le.mpr (Nat.lt_of_lt_of_le hlt hsize))
  refine h' key hlacks hown fun id duty hduty hmem => ?_
  rcases hposts id duty hduty with hold | ⟨-, hnew⟩
  · exact hkept id duty hold hmem
  · exact absurd (hnew key hmem) hown

/-- A node of a duty that is still there is in no duty that was taken up. -/
theorem Dutiful.kept_of_mem (hs : s.Dutiful n)
    (hduties : ∀ id duty, s'.duty? id = some duty → s.duty? id = some duty) {id : SymbolId} {duty : Duty}
    (hduty : s'.duty? id = some duty) (hkey : key ∈ duty.keys) (other : SymbolId) (duty' : Duty)
    (hduty' : s.duty? other = some duty') (hkey' : key ∈ duty'.keys) : s'.duty? other = some duty' := by
  have hold := hduties id duty hduty
  obtain rfl := hs.apart id duty other duty' hold hduty' key hkey hkey'
  rw [← hduty', hold]
  exact hduty

namespace Follows

theorem refl (s : CheckState) : Follows own s s :=
  ⟨.refl _, fun _ _ h => .inl h, fun _ h _ _ => h, fun _ h _ _ => h, fun _ _ h => h⟩

theorem widen (h : Follows own s s') (hsub : ∀ key ∈ own, key ∈ own') : Follows own' s s' :=
  ⟨h.extent, fun id duty hduty => (h.duties id duty hduty).imp_right fun hnew =>
      ⟨hnew.1, fun key hkey => hsub key (hnew.2 key hkey)⟩,
    h.vacant.widen hsub, h.unnamed.widen hsub, h.decls⟩

theorem trans (h : Follows own s s') (h' : Follows own s' s'') : Follows own s s'' := by
  refine ⟨h.extent.trans h'.extent, fun id duty hduty => ?_,
    h.vacant.trans h'.vacant h.duties h'.duties h.extent.symbols,
    h.unnamed.trans h'.unnamed h.duties h'.duties h.extent.symbols,
    fun node id hnode => h'.decls node id (h.decls node id hnode)⟩
  rcases h'.duties id duty hduty with hold | ⟨hle, hnew⟩
  · exact h.duties id duty hold
  · exact .inr ⟨Nat.le_trans h.extent.symbols hle, hnew⟩

variable (h : Follows own s s')

include h

theorem type_lt {type : TypeId} (ht : type < s.tables.types.size) : type < s'.tables.types.size :=
  Nat.lt_of_lt_of_le ht h.extent.types

theorem symbol_lt {id : SymbolId} (hid : id < s.tables.symbols.size) :
    id < s'.tables.symbols.size := Nat.lt_of_lt_of_le hid h.extent.symbols

theorem scope_lt {scope : ScopeId} (hscope : scope < s.scopes.size) : scope < s'.scopes.size :=
  Nat.lt_of_lt_of_le hscope h.extent.scopes

theorem isType {id : SymbolId} (hid : s.tables.symbols.IsType id) : s'.tables.symbols.IsType id :=
  h.extent.isType id hid

theorem isClosure {id : SymbolId} (hid : s.tables.symbols.IsClosure id) :
    s'.tables.symbols.IsClosure id := h.extent.isClosure id hid

/-- A symbol without a duty is given none. -/
theorem duty?_eq_none {id : SymbolId} (hid : id < s.tables.symbols.size) (hnone : s.duty? id = none) :
    s'.duty? id = none := by
  cases hduty : s'.duty? id with
  | none => rfl
  | some duty =>
      rcases h.duties id duty hduty with hold | ⟨hle, -⟩
      · rw [hnone] at hold
        cases hold
      · exact absurd hle (Nat.not_le.mpr hid)

/-- Duties stay in order if there is no new one and the nodes that were dealt with were in none. -/
theorem dutiful (hs : s.Dutiful n) (hduties : ∀ id duty, s'.duty? id = some duty → s.duty? id = some duty)
    (hown : ∀ key ∈ own, ¬ s.Promised key) : s'.Dutiful n where
  nodup id duty hduty := hs.nodup id duty (hduties id duty hduty)
  below id duty hduty := hs.below id duty (hduties id duty hduty)
  vacant id duty hduty key hkey :=
    h.vacant key (hs.vacant id duty (hduties id duty hduty) key hkey)
      (fun hmem => hown key hmem ⟨id, duty, hduties id duty hduty, hkey⟩)
      (hs.kept_of_mem hduties hduty hkey)
  unnamed id duty hduty key hkey :=
    h.unnamed key (hs.unnamed id duty (hduties id duty hduty) key hkey)
      (fun hmem => hown key hmem ⟨id, duty, hduties id duty hduty, hkey⟩)
      (hs.kept_of_mem hduties hduty hkey)
  apart id duty id' duty' hduty hduty' :=
    hs.apart id duty id' duty' (hduties id duty hduty) (hduties id' duty' hduty')
  posted id duty hduty decl hdecl := by
    obtain ⟨hnode, hlt⟩ := hs.posted id duty (hduties id duty hduty) decl hdecl
    exact ⟨h.decls decl id hnode, hlt⟩

end Follows

theorem Balanced.refl (s : CheckState) : s.Balanced s := ⟨rfl, fun _ _ h => h⟩

/-- What is left to a symbol was left to it before. -/
theorem Balanced.promised (h : s.Balanced s') (hkey : s'.Promised key) : s.Promised key := by
  obtain ⟨id, duty, hduty, hmem⟩ := hkey
  exact ⟨id, duty, h.duties id duty hduty, hmem⟩

theorem Balanced.trans (h : s.Balanced s') (h' : s'.Balanced s'') : s.Balanced s'' :=
  ⟨h'.bodies.trans h.bodies, fun id duty hduty => h.duties id duty (h'.duties id duty hduty)⟩

/-! ## Taking up a duty -/

/-- A new symbol may have a duty whose nodes are free. -/
theorem Dutiful.post (hs : s.Dutiful n) {new : SymbolId} {duty : Duty} (hfree : s.Free n duty.keys)
    (hfollows : Follows own s s') (hown : ∀ key ∈ own, ¬ s.Promised key)
    (hduties : ∀ id d, s'.duty? id = some d → s.duty? id = some d ∨ id = new ∧ d = duty)
    (hkept : ∀ id d, s.duty? id = some d → s'.duty? id = some d)
    (hvacant : ∀ key ∈ duty.keys, s'.meanings.Vacant key)
    (hunnamed : ∀ key ∈ duty.keys, s'.meanings.Unnamed key)
    (hposted : ∀ decl, duty.decl = some decl → s'.meanings.decls.get? decl = some new ∧ decl < n) :
    s'.Dutiful n := by
  refine ⟨fun id d hd => ?_, fun id d hd => ?_, fun id d hd key hkey => ?_, fun id d hd key hkey => ?_,
    fun id d id' d' hd hd' key hkey hkey' => ?_, fun id d hd decl hdecl => ?_⟩
  · rcases hduties id d hd with hold | ⟨-, rfl⟩
    · exact hs.nodup id d hold
    · exact hfree.nodup
  · rcases hduties id d hd with hold | ⟨-, rfl⟩
    · exact hs.below id d hold
    · exact hfree.below
  · rcases hduties id d hd with hold | ⟨-, rfl⟩
    · exact hfollows.vacant key (hs.vacant id d hold key hkey)
        (fun hmem => hown key hmem ⟨id, d, hold, hkey⟩) fun other d' hd' _ => hkept other d' hd'
    · exact hvacant key hkey
  · rcases hduties id d hd with hold | ⟨-, rfl⟩
    · exact hfollows.unnamed key (hs.unnamed id d hold key hkey)
        (fun hmem => hown key hmem ⟨id, d, hold, hkey⟩) fun other d' hd' _ => hkept other d' hd'
    · exact hunnamed key hkey
  · rcases hduties id d hd with hold | ⟨rfl, rfl⟩ <;> rcases hduties id' d' hd' with hold' | ⟨rfl, rfl⟩
    · exact hs.apart id d id' d' hold hold' key hkey hkey'
    · exact absurd ⟨id, d, hold, hkey⟩ (hfree.unpromised key hkey')
    · exact absurd ⟨id', d', hold', hkey'⟩ (hfree.unpromised key hkey)
    · rfl
  · rcases hduties id d hd with hold | ⟨rfl, rfl⟩
    · obtain ⟨hnode, hlt⟩ := hs.posted id d hold decl hdecl
      exact ⟨hfollows.decls decl id hnode, hlt⟩
    · exact hposted decl hdecl

/-- When a symbol takes up its duty, the nodes of the duty are free. -/
theorem Dutiful.take (hs : s.Dutiful n) {id : SymbolId} {duty : Duty} (hduty : s.duty? id = some duty)
    (hmeanings : s'.meanings = s.meanings) (htaken : s'.duty? id = none)
    (hduties : ∀ id duty, s'.duty? id = some duty → s.duty? id = some duty) :
    s'.Free n duty.keys := by
  refine ⟨hs.nodup id duty hduty, hs.below id duty hduty, fun key hkey => ?_, fun key hkey => ?_,
    fun key hkey => ?_⟩
  · rw [hmeanings]
    exact hs.vacant id duty hduty key hkey
  · rw [hmeanings]
    exact hs.unnamed id duty hduty key hkey
  · rintro ⟨id', duty', hduty', hkey'⟩
    obtain rfl := hs.apart id duty id' duty' hduty (hduties id' duty' hduty') key hkey hkey'
    rw [htaken] at hduty'
    cases hduty'

/-- Seen from before, the nodes of a duty that was taken up are no part of the analysis. -/
theorem Leaves.discharge {lacks : Meanings → NodeKey → Prop} (h : Leaves lacks [] s s') {id : SymbolId}
    {duty : Duty} (hduty : s.duty? id = some duty) (hdone : s''.duty? id = none)
    (h' : Leaves lacks duty.keys s' s'') (hposts : Posts [] s s')
    (hduties : ∀ id duty, s''.duty? id = some duty → s'.duty? id = some duty) :
    Leaves lacks [] s s'' := by
  intro key hkey _ hkept
  have hown : key ∉ duty.keys := by
    intro hmem
    have := hkept id duty hduty hmem
    rw [hdone] at this
    cases this
  have hlacks := h key hkey List.not_mem_nil fun other d hd hmem => hduties other d (hkept other d hd hmem)
  refine h' key hlacks hown fun other d hd hmem => ?_
  rcases hposts other d hd with hold | ⟨-, hnew⟩
  · exact hkept other d hold hmem
  · cases hnew key hmem

theorem Follows.discharge (h : Follows [] s s') {id : SymbolId} {duty : Duty}
    (hduty : s.duty? id = some duty) (htaken : s'.duty? id = none)
    (h' : Follows duty.keys s' s'')
    (hduties : ∀ id duty, s''.duty? id = some duty → s'.duty? id = some duty) :
    Follows [] s s'' := by
  have hdone := h'.duty?_eq_none (h.symbol_lt (SymbolTable.lt_size_of_duty? hduty)) htaken
  exact ⟨h.extent.trans h'.extent, fun other d hd => h.duties other d (hduties other d hd),
    h.vacant.discharge hduty hdone h'.vacant h.duties hduties,
    h.unnamed.discharge hduty hdone h'.unnamed h.duties hduties,
    fun node id hnode => h'.decls node id (h.decls node id hnode)⟩

end CheckState

end Stela
