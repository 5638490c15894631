import Stela.Check.Body
import Stela.Proofs.Safety.Results

/-!
# Variables, functions and closures

Declaring variables and functions is safe, and so are the steps that open and
close the bodies of functions and closures. The function that is declared has
the duty to analyze its body.
-/

namespace Stela

namespace CheckState

variable {n bound : Nat} {own : List NodeKey} {s : CheckState}

/-- A symbol is added, which may have a duty, and nodes that go with it are given a meaning. -/
theorem proceeds_add (hs : s.Ready n bound) {entry : Symbol} {m : Meanings}
    (hkind : entry.kind.Inside s.extent s.tables.symbols.size) (hscope : entry.scope < s.scopes.size)
    (hown : ∀ key ∈ own, ¬ s.Promised key)
    (hduty : ∀ duty, entry.kind.duty? = some duty → s.Free n duty.keys ∧
      (∀ key ∈ duty.keys, key ∈ own ∧ m.Vacant key) ∧ ∀ decl, duty.decl = some decl →
        m.decls.get? decl = some s.tables.symbols.size ∧ decl < n)
    (hinside : m.Inside (extent { s with tables.symbols := (s.tables.symbols.add entry).2 }))
    (hvacant : ∀ key, s.meanings.Vacant key → key ∉ own → m.Vacant key)
    (hnames : m.typeNames = s.meanings.typeNames)
    (hdecls : ∀ node id, s.meanings.decls.get? node = some id → m.decls.get? node = some id) :
    Proceeds n own s { s with tables.symbols := (s.tables.symbols.add entry).2, meanings := m } := by
  have hadds := adds_symbol hkind hscope
  have hduties (id : SymbolId) (d : Duty) (h : (s.tables.symbols.add entry).2.duty? id = some d) :
      s.duty? id = some d ∨ id = s.tables.symbols.size ∧ entry.kind.duty? = some d := by
    rw [SymbolTable.duty?_add] at h
    split at h
    · exact .inr ⟨‹_›, h⟩
    · exact .inl h
  have hfollows : Follows own s
      { s with tables.symbols := (s.tables.symbols.add entry).2, meanings := m } := by
    refine ⟨hadds.extent, fun id d hd => ?_, fun key hkey hmem _ => hvacant key hkey hmem,
      fun key hkey _ _ => hkey.of_typeNames hnames, hdecls⟩
    rcases hduties id d hd with hold | ⟨rfl, hnew⟩
    · exact .inl hold
    · exact .inr ⟨Nat.le_refl _, fun key hkey => ((hduty d hnew).2.1 key hkey).1⟩
  refine ⟨hfollows, hs.closed.adds { hadds with meanings := .inr hinside }, ?_,
    fun _ => SymbolTable.isResolving_add⟩
  cases hnew : entry.kind.duty? with
  | none =>
      refine hfollows.dutiful hs.dutiful (fun id d hd => ?_) hown
      exact (hduties id d hd).resolve_right fun h => by cases hnew.symm.trans h.2
  | some duty =>
      obtain ⟨hfree, hkeys, hposted⟩ := hduty duty hnew
      refine hs.dutiful.post hfree hfollows hown (fun id d hd => (hduties id d hd).imp_right fun h =>
        ⟨h.1, Option.some.inj (h.2.symm.trans hnew)⟩) (fun id d hd => ?_)
        (fun key hkey => (hkeys key hkey).2)
        (fun key hkey => (hfree.unnamed key hkey).of_typeNames hnames) hposted
      have hlt := SymbolTable.lt_size_of_duty? hd
      change (s.tables.symbols.add entry).2.duty? id = some d
      rw [SymbolTable.duty?_add, if_neg (Nat.ne_of_lt hlt)]
      exact hd

/-- There is no new duty but that of a function to analyze its body. -/
def Owing (s' s : CheckState) (func : SymbolId) : Prop :=
  ∀ id duty, s'.duty? id = some duty → s.duty? id = some duty ∨ id = func ∧ duty.decl.isSome

section

variable {entry : Symbol} {info : FuncInfo} {map : NodeMap SymbolId}

/-- A function is entered together with the meaning of its declaration. -/
theorem proceeds_func (hs : s.Ready n bound) (hkind : entry.kind = .func info)
    (hinfo : info.Inside s.extent) (hscope : entry.scope < s.scopes.size)
    (hfree : s.Free n (info.decl.bodyKeys ++ [.node .decl info.decl.node.id]))
    (hmap : s.meanings.decls.fill? info.decl.node.id s.tables.symbols.size = some map) :
    Proceeds n (info.decl.bodyKeys ++ [.node .decl info.decl.node.id]) s { s with
      tables.symbols := (s.tables.symbols.add entry).2
      meanings := { s.meanings with decls := map } } := by
  have hkey : .node .decl info.decl.node.id ∈ info.decl.bodyKeys ++ [.node .decl info.decl.node.id] :=
    List.mem_append_right _ (List.mem_singleton_self _)
  have hdisjoint := List.disjoint_of_nodup_append hfree.nodup
  have hinside : entry.kind.Inside s.extent s.tables.symbols.size := hkind ▸ hinfo
  have hmeanings := hs.closed.meanings.mono (adds_symbol hinside hscope).extent
  have hnew : s.tables.symbols.size < (s.tables.symbols.add entry).2.size := by simp
  refine proceeds_add hs hinside hscope hfree.unpromised (fun duty hduty => ?_)
    { hmeanings with decls := Check.forall_of_fill? hmap hnew hmeanings.decls }
    (fun key hvacant hne => Check.vacant_decls hmap (fun heq => hne (heq ▸ hkey)) hvacant) rfl
    fun node id h => NodeMap.get?_mono_of_fill? hmap h
  rw [hkind, SymbolKind.duty?, Option.ite_none_right_eq_some] at hduty
  obtain rfl := Option.some.inj hduty.2
  refine ⟨hfree.left, fun key hmem => ⟨List.mem_append_left _ hmem, ?_⟩, fun decl heq => ?_⟩
  · exact Check.vacant_decls hmap (fun heq => hdisjoint hmem (List.mem_singleton.mpr heq))
      (hfree.left.vacant key hmem)
  · obtain rfl := Option.some.inj heq
    exact ⟨(NodeMap.get?_of_fill? hmap).1, hfree.below _ hkey⟩

theorem owing_add {m : Meanings} (hkind : entry.kind = .func info) :
    Owing { s with tables.symbols := (s.tables.symbols.add entry).2, meanings := m } s
      s.tables.symbols.size := by
  intro id duty hduty
  change (s.tables.symbols.add entry).2.duty? id = some duty at hduty
  rw [SymbolTable.duty?_add] at hduty
  split at hduty
  · refine .inr ⟨‹_›, ?_⟩
    rw [hkind, SymbolKind.duty?, Option.ite_none_right_eq_some] at hduty
    exact Option.some.inj hduty.2 ▸ rfl
  · exact .inl hduty

end

end CheckState

/-- The node under which a variable is noted. -/
def Check.BindingPlace.key : Check.BindingPlace → NodeKey
  | .stmt id => .node .stmt id
  | .decl id => .node .decl id

namespace Check

open CheckState

variable {n bound : Nat} {own : List NodeKey} {s s' : CheckState} {name : Ident} {span : Span}

/-! ## Variables -/

theorem safe_declareParams : ∀ (params : List Param) (types : List ExprType) (s : CheckState),
    s.Free n (params.map fun param => .param param.type.node.id) → s.extent.Exprs types →
    Safe n bound (params.map fun param => .param param.type.node.id)
      (declareParams (params.zip types)) s fun _ _ => True := by
  intro params
  induction params with
  | nil => exact fun _ _ _ _ => Safe.pure fun _ => trivial
  | cons param rest ih =>
      intro types s hfree htypes
      cases types with
      | nil => exact Safe.pure fun _ => trivial
      | cons type types =>
          obtain ⟨htype, hrest⟩ := List.forall_mem_cons.mp htypes
          have htypes : s.extent.Exprs types := hrest
          have hfree : s.Free n ([.param param.type.node.id] ++
            rest.map fun param => .param param.type.node.id) := hfree
          rw [List.zip_cons_cons, declareParams]
          refine Safe.step (safe_declareObject htype) fun symbol s₁ h hsymbol => ?_
          have hfree := hfree.still h.toFollows
          refine Safe.bind (safe_setParamSymbol hsymbol hfree.left) (List.subset_append_left _ _)
            fun _ s₂ h' _ => ?_
          exact Safe.widen (ih types s₂ (hfree.right h'.toFollows)
            (htypes.mono (h.extent.trans h'.extent))) (List.subset_append_right [_] _)

theorem safe_bindingType {declared : Option TypeId} {init : Option (Expr × ExprType)}
    (hdeclared : s.extent.Known declared)
    (hinit : ∀ p, init = some p → p.2.type < s.tables.types.size) :
    Safe n bound [] (bindingType name declared init) s fun type s' => type < s'.tables.types.size := by
  unfold bindingType
  split
  · next declared expr value =>
    have hdeclared := hdeclared declared rfl
    have hvalue := hinit _ rfl
    refine Fares.same hdeclared hvalue ?_
    dsimp only
    split
    · exact .mismatch_bind hdeclared hvalue
    · exact Safe.pure fun _ => hdeclared
  · next declared => exact Safe.pure fun _ => hdeclared declared rfl
  · next value => exact Safe.pure fun _ => hinit _ rfl
  · exact .raise

theorem safe_declareVariable {place : BindingPlace} {type : ExprType}
    (htype : type.type < s.tables.types.size) (hfree : s.Free n [place.key]) :
    Safe n bound [place.key] (declareVariable place name type) s fun symbol s' =>
      symbol < s'.tables.symbols.size := by
  unfold declareVariable
  split
  · refine Safe.step (safe_declareObject htype) fun symbol s₁ h hsymbol => ?_
    refine Safe.bind (safe_setLocalSymbol hsymbol (hfree.still h.toFollows)) (List.Subset.refl _)
      fun _ s₂ h' _ => Safe.pure fun _ => h'.symbol_lt hsymbol
  · refine Safe.step (safe_declareObject htype) fun symbol s₁ h hsymbol => ?_
    refine Safe.bind (safe_setDeclSymbol hsymbol (hfree.still h.toFollows)) (List.Subset.refl _)
      fun _ s₂ h' _ => Safe.pure fun _ => h'.symbol_lt hsymbol

theorem safe_finishBinding {place : BindingPlace} {binding : Binding} {declared : Option TypeId}
    {init : Option (Expr × ExprType)} (hdeclared : s.extent.Known declared)
    (hinit : ∀ p, init = some p → p.2.type < s.tables.types.size) (hfree : s.Free n [place.key]) :
    Safe n bound [place.key] (finishBinding place binding declared init) s fun _ _ => True := by
  unfold finishBinding
  refine .step (safe_bindingType hdeclared hinit) fun type s₁ h htype => Fares.isVoid htype ?_
  dsimp only
  split
  · exact .raise_bind
  · refine Safe.bind (safe_declareVariable htype (hfree.still h.toFollows)) (List.Subset.refl _)
      fun symbol s₂ h' hsymbol => ?_
    have htype := h'.type_lt htype
    split
    · exact (safe_recordTransfer htype).widen (List.nil_subset _)
    · refine Safe.widen (.update (fun hs => Adds.aside ?_ hs rfl rfl rfl) trivial)
        (List.nil_subset _)
      refine { extent := .refl _, defaults := fun d hd => ?_ }
      rcases List.mem_append.mp hd with hd | hd
      · exact .inl hd
      · obtain rfl := List.mem_singleton.mp hd
        exact .inr ⟨hsymbol, htype⟩

/-! ## Functions -/

theorem safe_declaredResult {decl : FuncDecl} (hfree : s.Free n (TypeExpr.optionKeys decl.sig.ret)) :
    Safe n bound (TypeExpr.optionKeys decl.sig.ret) (declaredResult decl) s fun ret s' =>
      s'.extent.Known ret := by
  unfold declaredResult
  split
  · next ret hret =>
    rw [hret] at hfree ⊢
    refine Safe.bind (safe_lowerType hfree) (List.Subset.refl _) fun type s₁ _ htype => ?_
    exact Safe.pure fun _ => .some htype
  · exact Safe.pure fun hs => .some (hs.closed.builtins .void)
  · exact Safe.pure fun _ => .none

theorem fares_enterFunc {info : FuncInfo} {scope : ScopeId} (hinfo : info.Inside s.extent)
    (hscope : scope < s.scopes.size)
    (hfree : s.Free n (info.decl.bodyKeys ++ [.node .decl info.decl.node.id]))
    (hown : info.decl.bodyKeys ++ [.node .decl info.decl.node.id] ⊆ own) {β : Type}
    {f : SymbolId → Check β} {R : β → CheckState → Prop}
    (hf : ∀ func s₁, Proceeds n (info.decl.bodyKeys ++ [.node .decl info.decl.node.id]) s s₁ →
      func < s₁.tables.symbols.size → s₁.bodies = s.bodies → s₁.Owing s func →
      Fares n bound own (f func) s₁ R) :
    Fares n bound own (newSymbol name.name span (.func info) scope >>= fun func =>
      setDeclSymbol info.decl.node.id func >>= fun _ => f func) s R := by
  intro hs settings
  let entry : Symbol := { name := name.name, span, kind := .func info, scope }
  have hnone : s.meanings.decls.get? info.decl.node.id = none :=
    hfree.vacant _ (List.mem_append_right _ (List.mem_singleton_self _))
  obtain ⟨map, hmap⟩ : ∃ map, s.meanings.decls.fill? info.decl.node.id s.tables.symbols.size = some map := by
    simp [NodeMap.fill?, hnone]
  let s₁ : CheckState := { s with
    tables.symbols := (s.tables.symbols.add entry).2
    meanings := { s.meanings with decls := map } }
  have hproceeds : Proceeds n (info.decl.bodyKeys ++ [.node .decl info.decl.node.id]) s s₁ :=
    proceeds_func hs rfl hinfo hscope hfree hmap
  have hset : (setDeclSymbol info.decl.node.id s.tables.symbols.size).Gives settings
      { s with tables.symbols := (s.tables.symbols.add entry).2 } () s₁ := by
    simp [setDeclSymbol, fill, hmap, s₁]
  have hnew : s.tables.symbols.size < s₁.tables.symbols.size := by simp [s₁]
  have hthen := hf s.tables.symbols.size s₁ hproceeds hnew rfl (owing_add rfl) (hproceeds.ready hs) settings
  have hmeets := CheckResult.Meets.imp (Q := fun a s' => Proceeds n own s s' ∧ R a s') hthen
    fun a s' h => ⟨(hproceeds.widen hown).trans h.1, h.2⟩
  exact meets_bind rfl (meets_bind hset hmeets)

/-- A function is declared when its types are known; its body is left to it. -/
theorem fares_declareFunc {decl : FuncDecl} {owner : Option SymbolId} (hfree : s.Free n decl.keys)
    (howner : ∀ id, owner = some id → s.tables.symbols.IsType id) :
    Fares n bound decl.keys (declareFunc decl owner) s fun func s' =>
      func < s'.tables.symbols.size ∧ s'.bodies = s.bodies ∧ s'.Owing s func := by
  unfold declareFunc
  rw [FuncDecl.keys_eq, Signature.typeKeys, List.append_assoc, List.append_assoc] at hfree ⊢
  refine Fares.bind (safe_lowerSignature _ s hfree.left) (List.subset_append_left _ _) ?_
  rintro params s₁ h ⟨hbalanced, hparams⟩
  have hfree := hfree.right h.toFollows
  refine Fares.bind (safe_declaredResult hfree.left) (List.Subset.trans (List.subset_append_left _ _)
    (List.subset_append_right _ _)) ?_
  rintro ret s₂ h' ⟨hbalanced', hret⟩
  have howner (id : SymbolId) (heq : owner = some id) : s₂.tables.symbols.IsType id :=
    h'.isType (h.isType (howner id heq))
  refine .cursor (fares_enterFunc ⟨hparams.mono h'.extent, hret, howner, by simp⟩ h'.closed.cursor
    (hfree.right h'.toFollows) (List.Subset.trans (List.subset_append_right _ _)
      (List.subset_append_right _ _)) fun func s₃ h'' hfunc hbodies howing => ?_)
  refine Fares.bind (safe_declareRow ?_) (List.nil_subset _) ?_
  · unfold funcRow
    split <;> exact hfunc
  · rintro _ s₄ hrow ⟨hbalanced'', -⟩
    refine .pure fun _ => ⟨hrow.symbol_lt hfunc, ?_, ?_⟩
    · rw [hbalanced''.bodies, hbodies, hbalanced'.bodies, hbalanced.bodies]
    · intro id duty hduty
      refine (howing id duty (hbalanced''.duties id duty hduty)).imp_left fun hold => ?_
      exact hbalanced.duties id duty (hbalanced'.duties id duty hold)

/-! ## Bodies -/

/-- The body of a symbol of the kind was entered. -/
structure Enters (kind : FrameKind) (s s' : CheckState) : Prop where
  bodies : ∃ symbol scope, s'.bodies = ((symbol, kind, scope), 0) :: s.bodies
  duties : ∀ id duty, s'.duty? id = some duty → s.duty? id = some duty

/-- Steps that are complete may come before the one that enters a body. -/
theorem Safe.enters {α : Type} {p : Check α} {f : α → Check Unit} {P : α → CheckState → Prop}
    {a : List NodeKey} {kind : FrameKind} (hp : Safe n bound a p s P) (hsub : a ⊆ own)
    (hf : ∀ x s₁, Finishes n a s s₁ → P x s₁ → Fares n bound own (f x) s₁ fun _ s' => Enters kind s₁ s') :
    Fares n bound own (p >>= f) s fun _ s' => Enters kind s s' := by
  refine Fares.bind hp hsub ?_
  rintro x s₁ h ⟨hbalanced, hP⟩
  refine Fares.imp (hf x s₁ ⟨h, hbalanced⟩ hP) fun _ s' _ henters => ⟨?_, fun id duty hduty => ?_⟩
  · exact hbalanced.bodies ▸ henters.bodies
  · exact hbalanced.duties id duty (henters.duties id duty hduty)

theorem fares_pushFrame {frame : Frame} (hframe : frame.Inside s.extent) (hdepth : frame.loopDepth = 0) :
    Fares n bound own (pushFrame frame) s fun _ s' => Enters frame.kind s s' := by
  refine Fares.widen (a := []) (fun hs _ => ?_) (List.nil_subset own)
  refine ⟨Adds.proceeds { extent := .refl _, frames := fun other hmem => ?_ } hs
    (fun _ _ h => h) rfl fun _ h => h,
    ⟨frame.symbol, frame.scope, ?_⟩, fun _ _ h => h⟩
  · rcases List.mem_cons.mp hmem with rfl | hmem
    · exact .inr hframe
    · exact .inl hmem
  · simp [bodies, Frame.place, hdepth]

/-- The innermost body is left. -/
theorem fares_popFrame {body : (SymbolId × FrameKind × ScopeId) × Nat}
    {rest : List ((SymbolId × FrameKind × ScopeId) × Nat)} (hbodies : s.bodies = body :: rest) :
    Fares n bound [] popFrame s fun frame s' => frame.place = body.1 ∧ frame.Inside s'.extent ∧
      s'.bodies = rest ∧ ∀ id duty, s'.duty? id = some duty → s.duty? id = some duty := by
  obtain ⟨frame, frames, hframes, rfl, rfl⟩ := List.map_eq_cons_iff.mp hbodies
  intro hs settings
  have hgives : popFrame.Gives settings s frame { s with frames := frames } :=
    gives_popFrame.mpr ⟨frames, hframes, rfl⟩
  rw [hgives]
  refine ⟨Adds.proceeds { extent := .refl _, frames := fun other hmem => .inl ?_ } hs
    (fun _ _ h => h) rfl fun _ h => h,
    rfl, hs.closed.frames frame (hframes ▸ List.mem_cons_self), rfl, fun _ _ h => h⟩
  exact hframes ▸ List.mem_cons_of_mem _ hmem

theorem fares_openClosure {node : Node} {sig : Signature}
    (hfree : s.Free n (sig.typeKeys ++ ([.node .expr node.id] ++ sig.paramKeys))) :
    Fares n bound (sig.typeKeys ++ ([.node .expr node.id] ++ sig.paramKeys)) (openClosure node sig) s
      fun _ s' => Enters .closure s s' := by
  unfold openClosure
  rw [Signature.typeKeys, List.append_assoc] at hfree ⊢
  refine Safe.enters (safe_lowerSignature _ s hfree.left) (List.subset_append_left _ _)
    fun params s₁ h hparams => ?_
  have hfree := hfree.right h.toFollows
  refine Safe.enters (safe_lowerOptional hfree.left) (List.Subset.trans (List.subset_append_left _ _)
    (List.subset_append_right _ _)) fun declared s₂ h' hdeclared => ?_
  have hfree := hfree.right h'.toFollows
  have hparams : s₂.extent.Exprs params := hparams.mono h'.extent
  refine .of_ready fun hs => .frame? ?_
  extract_lets parent ret
  have hparent (id : SymbolId) (hid : parent = some id) : id < s₂.tables.symbols.size := by
    unfold parent at hid
    split at hid
    · next frame hframe =>
      obtain ⟨-, heq⟩ := Option.ite_none_right_eq_some.mp hid
      exact Option.some.inj heq ▸ (hs.closed.frames frame (List.mem_of_mem_head? hframe)).1
    · cases hid
  have hret : ret.expected = declared := by
    cases declared <;> rfl
  clear_value parent ret
  refine .cursor (.cursor ?_)
  refine Safe.enters (safe_newSymbol ⟨⟨hparams, hdeclared, by simp, hs.closed.cursor⟩, hparent⟩
    hs.closed.cursor rfl) (List.nil_subset _) ?_
  rintro closure s₃ h₃ ⟨-, hkind⟩
  have hclosure : s₃.tables.symbols.IsClosure closure := ⟨_, hkind⟩
  have hfree := hfree.still h₃.toFollows
  refine Safe.enters (safe_useSymbol hclosure.lt_size hfree.left) (List.Subset.trans
    (List.subset_append_left _ _) (List.Subset.trans (List.subset_append_right _ _)
      (List.subset_append_right _ _))) fun _ s₄ h₄ _ => ?_
  have hfree := hfree.right h₄.toFollows
  have hclosure := h₄.isClosure hclosure
  refine Safe.enters (P := fun _ s' => s'.tables.symbols.IsClosure closure)
    (.update (fun hs => Adds.aside ?_ hs rfl rfl rfl) hclosure) (List.nil_subset _)
    fun _ s₅ h₅ hclosure => ?_
  · refine { extent := .refl _, closures := fun id hid => ?_ }
    rcases List.mem_append.mp hid with hid | hid
    · exact .inl hid
    · exact .inr (List.mem_singleton.mp hid ▸ hclosure)
  have hfree := hfree.still h₅.toFollows
  refine Safe.enters (safe_enterScope fun id heq => Option.some.inj heq ▸ hclosure.lt_size)
    (List.nil_subset _) fun scope s₆ h₆ hscope => ?_
  have hfree := hfree.still h₆.toFollows
  refine Safe.enters (safe_modifyClosure (h₆.symbol_lt hclosure.lt_size) fun info _ hinside =>
    ⟨⟨hinside.1, hinside.2.1, hinside.2.2.1, hscope⟩, rfl⟩) (List.nil_subset _) fun _ s₇ h₇ _ => ?_
  have hextent := h₃.extent.trans (h₄.extent.trans (h₅.extent.trans (h₆.extent.trans h₇.extent)))
  refine Safe.enters (safe_declareParams _ _ s₇ (hfree.still h₇.toFollows) (hparams.mono hextent))
    (List.Subset.trans (List.subset_append_right _ _) (List.Subset.trans
      (List.subset_append_right _ _) (List.subset_append_right _ _))) fun _ s₈ h₈ _ => ?_
  have hclosure := h₈.isClosure (h₇.isClosure (h₆.isClosure hclosure))
  exact fares_pushFrame ⟨hclosure.lt_size, fun _ => hclosure, h₈.scope_lt (h₇.scope_lt hscope),
    hret ▸ hdeclared.mono (hextent.trans h₈.extent), by simp⟩ rfl

/-- Steps that are complete may come after the one that leaves a body. -/
theorem fares_leave {β : Type} {f : Frame → Check β} {R : β → CheckState → Prop}
    {symbol : SymbolId} {kind : FrameKind} {scope : ScopeId} {depth : Nat}
    {rest : List ((SymbolId × FrameKind × ScopeId) × Nat)}
    (hbodies : s.bodies = ((symbol, kind, scope), depth) :: rest)
    (hf : ∀ frame s₁, frame.kind = kind → frame.Inside s₁.extent → Safe n bound [] (f frame) s₁ R) :
    Fares n bound [] (popFrame >>= f) s fun x s' => R x s' ∧ Shifts rest s s' := by
  refine .bind (fares_popFrame hbodies) (List.Subset.refl _) ?_
  rintro frame s₁ - ⟨hplace, hframe, hrest, hduties⟩
  have hkind : frame.kind = kind := congrArg (fun place => place.2.1) hplace
  refine Fares.imp (hf frame s₁ hkind hframe) fun x s' _ h => ⟨h.2, h.1.bodies.trans hrest, ?_⟩
  exact fun id duty hduty => hduties id duty (h.1.duties id duty hduty)

theorem fares_closeClosure {node : Node} {body : List Stmt} {symbol : SymbolId} {scope : ScopeId}
    {depth : Nat} {rest : List ((SymbolId × FrameKind × ScopeId) × Nat)}
    (hbodies : s.bodies = ((symbol, .closure, scope), depth) :: rest) :
    Fares n bound [] (closeClosure node body) s fun type s' =>
      type.type < s'.tables.types.size ∧ Shifts rest s s' := by
  refine fares_leave hbodies fun frame s₁ hkind hframe => ?_
  refine Safe.step (safe_finishBody hframe) fun ret s₂ h₂ hret => ?_
  refine Safe.step safe_leaveScope fun _ s₃ h₃ _ => ?_
  have hret := h₃.type_lt hret
  have hsymbol := h₃.symbol_lt (h₂.symbol_lt hframe.1)
  refine Safe.step (safe_modifyClosure hsymbol fun info _ hinside => ⟨⟨hinside.1, ?_, hinside.2.2⟩, rfl⟩)
    fun _ s₄ h₄ _ => Fares.tables ?_
  · exact .some hret
  · obtain ⟨info, hinfo⟩ := h₄.isClosure (h₃.isClosure (h₂.isClosure (hframe.2.1 hkind)))
    refine .require (SymbolTable.closure?_eq_some.mpr hinfo) (.of_ready fun hs => ?_)
    have hinside : info.Inside s₄.extent := (hs.closed.kind_inside hinfo).1
    refine Safe.step (safe_intern _ ⟨fun p hp => ?_, h₄.type_lt hret⟩) fun type s₅ _ htype =>
      Safe.pure fun _ => htype
    obtain ⟨param, hparam, rfl⟩ := List.mem_map.mp hp
    exact hinside.1 param hparam

/-- The body of a function is entered with its parameters and, in a member, with the receiver. -/
theorem fares_openBody {func : SymbolId} {info : FuncInfo} (hfunc : func < s.tables.symbols.size)
    (hinfo : info.Inside s.extent) (hfree : s.Free n info.decl.sig.paramKeys) :
    Fares n bound info.decl.sig.paramKeys (openBody func info) s fun _ s' =>
      Enters .function s s' := by
  unfold openBody
  extract_lets decl ret
  have hret : ret.expected = info.ret := by
    unfold ret
    cases info.ret <;> rfl
  refine Safe.enters (safe_enterScope fun id heq => Option.some.inj heq ▸ hfunc) (List.nil_subset _)
    fun scope s₁ h₁ hscope => ?_
  refine Safe.enters (safe_modifyFunc (h₁.symbol_lt hfunc) fun info _ hinside =>
    ⟨⟨hinside.1, hinside.2.1, hinside.2.2.1, fun other heq => Option.some.inj heq ▸ hscope⟩, rfl,
      fun h => h⟩) (List.nil_subset _) fun _ s₂ h₂ _ => ?_
  have h := h₁.extent.trans h₂.extent
  have hfree := (hfree.still h₁.toFollows).still h₂.toFollows
  extract_lets rest
  -- What follows the receiver.
  have hrest (s₃ : CheckState) (h₃ : Finishes n [] s₂ s₃) :
      Fares n bound decl.sig.paramKeys (rest ()) s₃ fun _ s' => Enters .function s₃ s' := by
    have h := h.trans h₃.extent
    refine Safe.enters (safe_declareParams _ _ s₃ (hfree.still h₃.toFollows) (hinfo.1.mono h))
      (List.Subset.refl _) fun _ s₄ h₄ _ => ?_
    have h := h.trans h₄.extent
    exact fares_pushFrame ⟨Nat.lt_of_lt_of_le hfunc h.symbols, by simp,
      h₄.scope_lt (h₃.scope_lt (h₂.scope_lt hscope)), hret ▸ hinfo.2.1.mono h, by simp⟩ rfl
  split
  · next receiver owner _ howner =>
    have howner : s₂.tables.symbols.IsType owner := h.isType owner (hinfo.2.2.1 owner howner)
    refine Safe.enters (safe_typeOfSymbol howner) (List.nil_subset _) fun type s₃ h₃ htype => ?_
    refine Safe.enters (safe_declareObject htype) (List.nil_subset _) fun _ s₄ h₄ _ => ?_
    exact hrest s₄ (h₃.trans h₄)
  · exact .of_ready fun hs => hrest s₂ (.refl hs)

theorem fares_closeBody {decl : FuncDecl} {body : List Stmt} {symbol : SymbolId} {kind : FrameKind}
    {scope : ScopeId} {depth : Nat} {rest : List ((SymbolId × FrameKind × ScopeId) × Nat)}
    (hbodies : s.bodies = ((symbol, kind, scope), depth) :: rest) :
    Fares n bound [] (closeBody decl body) s fun ret s' =>
      ret < s'.tables.types.size ∧ Shifts rest s s' := by
  refine fares_leave hbodies fun frame s₁ _ hframe => ?_
  refine Safe.step (safe_finishBody hframe) fun ret s₂ _ hret => ?_
  exact Safe.step safe_leaveScope fun _ s₃ h₃ _ => Safe.pure fun _ => h₃.type_lt hret

end Check

end Stela
