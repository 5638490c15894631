import Stela.Check.Overload
import Stela.Proofs.Safety.Names

/-!
# Captures and calls

A closure captures objects, which may have to be captured in the closures around
it first; those were declared before it. A call picks a function, whose body may
have to be analyzed to know its result.
-/

namespace Stela.Check

open CheckState

variable {n bound : Nat} {own : List NodeKey} {s s' : CheckState} {id source : SymbolId}
  {name : Ident} {type : TypeId}

/-! ## Captures -/

theorem safe_captureWithin {info : ObjectInfo} : ∀ (m : Nat) (closure : SymbolId) (s : CheckState),
    s.tables.symbols.IsClosure closure → s.tables.symbols.kind? source = some (.object info) →
    closure < m → Safe n bound [] (captureWithin m closure source) s fun _ _ => True := by
  intro m
  induction m with
  | zero => exact fun closure s _ _ hm => absurd hm (Nat.not_lt_zero _)
  | succ m ih =>
      intro closure s hclosure hsource hm
      obtain ⟨links, hlinks⟩ := hclosure
      have hlt := SymbolTable.lt_size_of_kind? hlinks
      unfold captureWithin
      refine Fares.of_ready fun hs =>
        .tables (.require (SymbolTable.closure?_eq_some.mpr hlinks) ?_)
      split
      · exact Safe.pure fun _ => trivial
      · refine Fares.symbol (SymbolTable.lt_size_of_kind? hsource) fun object hobject =>
          .tables (.require (SymbolTable.object?_eq_some.mpr hsource) ?_)
        extract_lets add
        have hadd (via : CaptureSource) (s₁ : CheckState) (h : Finishes n [] s s₁) :
            Safe n bound [] (add via) s₁ fun _ _ => True := by
          refine Safe.step (safe_modifyClosure (h.symbol_lt hlt) fun info _ hinside => ⟨?_, rfl⟩)
            fun _ s₂ h' _ => ?_
          · refine ⟨hinside.1, hinside.2.1, fun c hc => ?_, hinside.2.2.2⟩
            rcases List.mem_append.mp hc with hc | hc
            · exact hinside.2.2.1 c hc
            · obtain rfl := List.mem_singleton.mp hc
              exact ⟨h.symbol_lt (SymbolTable.lt_size_of_kind? hsource),
                h.type_lt (hs.closed.kind_inside hsource)⟩
          · obtain ⟨info, hinfo⟩ := h'.isClosure (h.isClosure ⟨links, hlinks⟩)
            exact .tables (.require (SymbolTable.closure?_eq_some.mpr hinfo)
              (Safe.pure fun _ => trivial))
        split
        · exact .pure_bind (hadd _ s (.refl hs))
        · next parent hparent =>
          have hbefore := (hs.closed.kind_inside hlinks).2 parent hparent
          refine .closureOf (Nat.lt_trans hbefore hlt) ?_
          split
          · next outer houter =>
            refine .isWithin (hs.closed.symbols _ _ hobject).2 ?_
            split
            · exact .pure_bind (hadd _ s (.refl hs))
            · refine Safe.step (ih parent s ⟨outer, SymbolTable.closure?_eq_some.mp houter⟩ hsource
                (Nat.lt_of_lt_of_le hbefore (Nat.le_of_lt_succ hm))) fun slot s₁ h _ => ?_
              exact .pure_bind (hadd _ s₁ h)
          · exact .pure_bind (hadd _ s (.refl hs))

/-- What an expression reads is captured if the body that reads it is that of a closure. -/
theorem safe_noteCapture {node : Nat} (hsource : source < s.tables.symbols.size) :
    Safe n bound [] (noteCapture node source) s fun _ _ => True := by
  unfold noteCapture
  refine Fares.of_ready fun hs => .frame? ?_
  split
  · exact Safe.pure fun _ => trivial
  · next frame hframe =>
    dsimp only
    split
    · exact Safe.pure fun _ => trivial
    · next hkind =>
      have hframe := hs.closed.frames frame (List.mem_of_mem_head? hframe)
      have hclosure := hframe.2.1 (by simpa using hkind)
      refine .symbol hsource fun entry hentry => ?_
      split
      · next info hinfo =>
        have hobject := (SymbolTable.kind?_of_get? hentry).trans (congrArg some hinfo)
        split
        · exact Safe.pure fun _ => trivial
        · refine .isWithin (hs.closed.symbols _ _ hentry).2 ?_
          split
          · exact Safe.pure fun _ => trivial
          unfold capture
          refine Safe.step (P := fun _ _ => True) (Fares.tables (safe_captureWithin _ _ s hclosure
            hobject (Nat.lt_succ_of_lt hclosure.lt_size))) fun slot s₁ h _ => ?_
          refine Safe.update (fun hs => Adds.aside ?_ hs rfl rfl rfl) trivial
          refine { extent := .refl _, captured := fun other capture hcapture => ?_ }
          rw [NodeMap.get?_insert] at hcapture
          split at hcapture
          · obtain rfl := Option.some.inj hcapture
            exact .inr (h.isClosure hclosure)
          · exact .inl hcapture
      · exact Safe.pure fun _ => trivial

/-! ## Candidates -/

theorem safe_requireKnown {type : ExprType} {span : Span} (htype : type.type < s.tables.types.size) :
    Safe n bound [] (requireKnown type span) s fun known _ => known = type := by
  unfold requireKnown
  refine Fares.of_ready fun hs => .pendingOf htype ?_
  split
  · next func hpending => exact .nameOf (hs.closed.lt_of_pending? hpending) fun _ => .raise
  · exact Safe.pure fun _ => rfl

theorem safe_isPrintable (htype : type < s.tables.types.size) :
    Safe n bound [] (isPrintable type) s fun _ s' => s = s' := by
  unfold isPrintable
  refine Fares.of_ready fun hs => .concreteTy htype fun ty hty => ?_
  have hinside := hs.closed.concreteTy_inside hty
  split
  · exact Safe.pure fun _ => rfl
  · exact .builtinOf hinside (Safe.pure fun _ => rfl)
  · exact Safe.pure fun _ => rfl

theorem safe_signature {kind : BuiltinFunc} {args : List ExprType} (hargs : s.extent.Exprs args) :
    Safe n bound [] (signature kind args) s fun signature s' =>
      s = s' ∧ ∀ params ret, signature = some (params, ret) → (Ty.func params ret).Inside s.extent := by
  unfold signature
  refine Fares.of_ready fun hs => ?_
  have hfirst {array : ExprType} {rest : List ExprType} (h : args = array :: rest) :
      array.type < s.tables.types.size := hargs array (h ▸ List.mem_cons_self)
  have hvoid := hs.closed.builtins .void
  split
  · refine .elementOf (hfirst rfl) (Safe.pure fun _ => ⟨rfl, fun params ret h => ?_⟩)
    obtain ⟨element, -, h⟩ := Option.map_eq_some_iff.mp h
    obtain ⟨rfl, rfl⟩ := Prod.mk.inj h
    exact ⟨List.forall_mem_singleton.mpr (hfirst rfl), hs.closed.builtins .uint⟩
  · refine .elementOf (hfirst rfl) (Safe.pure fun _ => ⟨rfl, fun params ret h => ?_⟩)
    obtain ⟨element, helement, h⟩ := Option.map_eq_some_iff.mp h
    obtain ⟨rfl, rfl⟩ := Prod.mk.inj h
    exact ⟨List.forall_mem_cons.mpr ⟨hfirst rfl,
      List.forall_mem_singleton.mpr (hs.closed.lt_of_element? helement)⟩, hvoid⟩
  · refine .elementOf (hfirst rfl) (Safe.pure fun _ => ⟨rfl, fun params ret h => ?_⟩)
    obtain ⟨element, helement, h⟩ := Option.map_eq_some_iff.mp h
    obtain ⟨rfl, rfl⟩ := Prod.mk.inj h
    exact ⟨List.forall_mem_singleton.mpr (hfirst rfl), hs.closed.lt_of_element? helement⟩
  · refine Safe.step (safe_isPrintable (hfirst rfl)) ?_
    rintro printable _ - rfl
    split
    · refine Safe.pure fun _ => ⟨rfl, fun params ret h => ?_⟩
      obtain ⟨rfl, rfl⟩ := Prod.mk.inj (Option.some.inj h)
      exact ⟨List.forall_mem_singleton.mpr (hfirst rfl), hvoid⟩
    · exact Safe.pure fun _ => ⟨rfl, fun _ _ h => by cases h⟩
  · exact Safe.pure fun _ => ⟨rfl, fun _ _ h => by cases h⟩

theorem safe_instantiate {kind : BuiltinFunc} {args : List ExprType} (hargs : s.extent.Exprs args) :
    Safe n bound [] (instantiate kind args) s fun type s' => s'.extent.Known type := by
  unfold instantiate
  refine Safe.step (safe_signature hargs) ?_
  rintro signature _ - ⟨rfl, hsignature⟩
  split
  · next params ret =>
    refine Safe.step (safe_intern _ (hsignature params ret rfl)) fun type s₁ _ htype => ?_
    exact Safe.pure fun _ => .some htype
  · exact Safe.pure fun _ => .none

/-- The parameters of a candidate are types. -/
theorem safe_candidateParams {candidate : SymbolId} {args : List ExprType}
    (hcandidate : candidate < s.tables.symbols.size) (hargs : s.extent.Exprs args) :
    Safe n bound [] (candidateParams candidate args) s fun found s' =>
      ∀ params, found = some params → ∀ p ∈ params, p.2 < s'.tables.types.size := by
  unfold candidateParams
  have hpure {s : CheckState} {found : Option (List (RefKind × TypeId))}
      (h : s.Ready n bound → ∀ params, found = some params → ∀ p ∈ params, p.2 < s.tables.types.size) :
      Safe n bound [] (pure found) s fun found s' =>
        ∀ params, found = some params → ∀ p ∈ params, p.2 < s'.tables.types.size := Safe.pure h
  have hnone (s : CheckState) := @hpure s none fun _ _ h => by cases h
  refine Fares.of_ready fun hs => .kindOf hcandidate fun kind hkind => ?_
  have hinside := hs.closed.kind_inside hkind
  split
  · exact hpure fun _ _ heq => Option.some.inj heq ▸ List.forall_mem_map.mpr hinside.1
  · refine Safe.step (safe_instantiate hargs) fun type s₁ h htype => ?_
    split
    · next type =>
      refine Fares.tyOf (htype type rfl) fun ty hty => ?_
      split
      · exact hpure fun hs _ heq => Option.some.inj heq ▸ (hs.closed.types _ _ hty).1
      · exact hnone _
    · exact hnone _
  · refine Fares.concreteTy hinside fun ty hty => ?_
    split
    · exact hpure fun hs _ heq => Option.some.inj heq ▸ (hs.closed.concreteTy_inside hty).1
    · exact hnone _
  · exact hnone _

theorem safe_survivors {args : List ExprType} : ∀ (candidates : List SymbolId) (s : CheckState),
    (∀ id ∈ candidates, id < s.tables.symbols.size) → s.extent.Exprs args →
    Safe n bound [] (survivors args candidates) s fun found _ => ∀ id ∈ found.2, id ∈ candidates := by
  intro candidates
  induction candidates with
  | nil => exact fun s _ _ => Safe.pure fun _ => by simp
  | cons candidate rest ih =>
      intro s hcandidates hargs
      obtain ⟨hcandidate, hrest⟩ := List.forall_mem_cons.mp hcandidates
      unfold survivors
      refine .step (safe_candidateParams hcandidate hargs) fun found s₁ h hparams => ?_
      have hrest' := ih s₁ (fun id hid => h.symbol_lt (hrest id hid)) (hargs.mono h.extent)
      split
      · next params =>
        refine Fares.accepts (hparams params rfl) (hargs.mono h.extent) (Safe.step hrest' ?_)
        rintro ⟨callable, chosen⟩ s₂ - hchosen
        refine Safe.pure fun _ id hid => ?_
        dsimp only at hid
        split at hid
        · rcases List.mem_cons.mp hid with rfl | hid
          · exact List.mem_cons_self
          · exact List.mem_cons_of_mem _ (hchosen id hid)
        · exact List.mem_cons_of_mem _ (hchosen id hid)
      · refine Fares.kindOf (h.symbol_lt hcandidate) fun kind _ => ?_
        dsimp only
        refine Safe.step hrest' ?_
        rintro ⟨callable, chosen⟩ s₂ - hchosen
        exact Safe.pure fun _ id hid => List.mem_cons_of_mem _ (hchosen id hid)

/-! ## Results of functions -/

/-- A body that is analyzed on demand is begun then at the latest. -/
def Analyzes (n bound : Nat) (analyze : SymbolId → Check Unit) : Prop :=
  ∀ (s : CheckState) (func : SymbolId), func < s.tables.symbols.size →
    Safe n bound [] (analyze func) s fun _ s' =>
      ∀ duty, s.duty? func = some duty → duty.decl.isSome → s'.duty? func = none

variable {analyze : SymbolId → Check Unit}

theorem func_inside (hs : s.Closed) {func : SymbolId} {info : FuncInfo}
    (hinfo : s.tables.symbols.func? func = some info) : info.Inside s.extent :=
  hs.kind_inside (SymbolTable.func?_eq_some.mp hinfo)

theorem safe_funcReturn (hanalyze : Analyzes n bound analyze) {func : SymbolId}
    (hfunc : func < s.tables.symbols.size) :
    Safe n bound [] (funcReturn analyze func) s fun type s' => type < s'.tables.types.size := by
  unfold funcReturn
  refine Fares.of_ready fun hs => .funcOf hfunc ?_
  split
  · exact Safe.pure fun hs => hs.closed.builtins .void
  · next info hinfo =>
    split
    · next ret hret => exact Safe.pure fun _ => (func_inside hs.closed hinfo).2.1 ret hret
    · refine Safe.step (hanalyze s func hfunc) fun _ s₁ h _ =>
        Fares.funcOf (h.symbol_lt hfunc) (Safe.pure fun hs => ?_)
      cases hret : (s₁.tables.symbols.func? func).bind FuncInfo.ret with
      | none => exact hs.closed.builtins .void
      | some ret =>
          obtain ⟨info', hinfo', hret⟩ := Option.bind_eq_some_iff.mp hret
          exact (func_inside hs.closed hinfo').2.1 ret hret
    · exact safe_intern (.pending func) hfunc
    · exact Safe.pure fun hs => hs.closed.builtins .void

theorem safe_funcType (hanalyze : Analyzes n bound analyze) {func : SymbolId}
    (hfunc : func < s.tables.symbols.size) :
    Safe n bound [] (funcType analyze func) s fun type s' => type < s'.tables.types.size := by
  unfold funcType
  refine Fares.of_ready fun hs => .funcOf hfunc ?_
  dsimp only
  refine Safe.step (safe_funcReturn hanalyze hfunc) fun ret s₁ h hret => safe_intern (.func _ ret) ⟨?_, hret⟩
  cases hinfo : s.tables.symbols.func? func with
  | none => simp
  | some info =>
      have hparams := (func_inside hs.closed hinfo).1
      intro p hp
      obtain ⟨param, hparam, rfl⟩ := List.mem_map.mp hp
      exact h.type_lt (hparams param hparam)

/-! ## Values and callees -/

theorem safe_resolveOverload (hanalyze : Analyzes n bound analyze) {node : Nat}
    {candidates : List SymbolId} {args : List ExprType}
    (hcandidates : ∀ id ∈ candidates, id < s.tables.symbols.size) (hargs : s.extent.Exprs args)
    (hfree : s.Free n [.node .expr node]) :
    Safe n bound [.node .expr node] (resolveOverload analyze node name candidates args) s
      fun type s' => type.type < s'.tables.types.size := by
  unfold resolveOverload
  refine Safe.step (safe_survivors candidates s hcandidates hargs) ?_
  rintro ⟨callable, accepting⟩ s₁ h hchosen
  have hcandidates' (id : SymbolId) (hid : id ∈ candidates) : id < s₁.tables.symbols.size :=
    h.symbol_lt (hcandidates id hid)
  dsimp only
  split
  · split
    · exact .pure_bind .raise_bind
    · next first _ =>
      refine Fares.of_ready fun hs =>
        Fares.kindOf (hcandidates' first List.mem_cons_self) fun kind hkind => ?_
      split
      · exact .typeText (hs.closed.kind_inside hkind) fun _ => .raise_bind
      · exact .pure_bind .raise_bind
  · split
    · next chosen =>
      have hchosen := hcandidates' chosen (hchosen chosen List.mem_cons_self)
      refine Safe.bind (safe_useSymbol hchosen (hfree.still h.toFollows)) (List.Subset.refl _)
        fun _ s₂ h' _ => ?_
      refine Fares.of_ready fun hs => .kindOf (h'.symbol_lt hchosen) fun kind hkind => ?_
      split
      · refine Safe.step (safe_instantiate (hargs.mono (h.extent.trans h'.extent)))
          fun type s₃ _ htype => .pure_bind (Safe.pure fun hs => ?_)
        cases type with
        | none => exact hs.closed.builtins .void
        | some type => exact htype type rfl
      · refine Safe.step (safe_noteCapture (h'.symbol_lt hchosen)) fun _ s₃ h'' _ => ?_
        exact .pure_bind (Safe.pure fun _ => h''.type_lt (hs.closed.kind_inside hkind))
      · exact Safe.step (safe_funcType hanalyze (h'.symbol_lt hchosen)) fun type s₃ _ htype =>
          Safe.pure fun _ => htype
    · exact .typeTexts (hargs.mono h.extent) fun _ => .raise

theorem safe_valueOf (hanalyze : Analyzes n bound analyze) {node : Nat} {entries : List SymbolId}
    (hentries : ∀ id ∈ entries, id < s.tables.symbols.size) (hfree : s.Free n [.node .expr node]) :
    Safe n bound [.node .expr node] (valueOf analyze node name entries) s
      fun type s' => type.type < s'.tables.types.size := by
  unfold valueOf
  split
  · exact Fares.raise
  · next first rest =>
    have hfirst := hentries first List.mem_cons_self
    refine Fares.of_ready fun hs => .kindOf hfirst fun kind hkind => ?_
    split
    · next info =>
      refine Safe.bind (safe_useSymbol hfirst hfree) (List.Subset.refl _) fun _ s₁ h _ => ?_
      refine Safe.step (safe_noteCapture (h.symbol_lt hfirst)) fun _ s₂ h' _ => ?_
      exact Safe.pure fun _ => h'.type_lt (h.type_lt (hs.closed.kind_inside hkind))
    · dsimp only
      split
      · exact Fares.raise_bind
      · refine Safe.bind (safe_useSymbol hfirst hfree) (List.Subset.refl _) fun _ s₁ h _ => ?_
        refine Safe.step (safe_funcType hanalyze (h.symbol_lt hfirst)) fun type s₂ h' htype => ?_
        refine Fares.of_ready fun hs => .tyOf htype fun ty hty => ?_
        refine Safe.step (safe_requireKnown ?_) fun _ s₃ h'' _ => Safe.pure fun _ => h''.type_lt htype
        dsimp only [ExprType.value]
        split
        · exact (hs.closed.types _ _ hty).2
        · exact htype
    · exact Fares.raise

end Stela.Check
