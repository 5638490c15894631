import Stela.Check.Operation
import Stela.Proofs.Safety.Calls

/-!
# Members and operations

The rules for single expressions are safe if the types of the parts and the
symbols that names mean are inside the state.
-/

namespace Stela

/-- The types of the arguments that an expression is called with. -/
def ExprContext.Inside (e : Extent) (context : ExprContext) : Prop :=
  ∀ args, context = .callee args → e.Exprs args

theorem ExprContext.Inside.mono {e e' : Extent} (h : e.Le e') {context : ExprContext}
    (hc : context.Inside e) : context.Inside e' := fun args heq => (hc args heq).mono h

namespace Check

open CheckState

variable {n bound : Nat} {own : List NodeKey} {s s' : CheckState} {owner : SymbolId} {node : Nat}
  {member : Ident} {span : Span} {context : ExprContext}

/-! ## Transfers and assumptions -/

theorem safe_recordTransfer {type : TypeId} {site : TransferSite} {expr : Expr} {source : ExprType}
    (htype : type < s.tables.types.size) :
    Safe n bound [] (recordTransfer type site expr source) s fun _ _ => True := by
  induction expr, source using recordTransfer.induct generalizing s with
  | case1 node cond onTrue onFalse source ihTrue ihFalse =>
      rw [recordTransfer]
      refine Fares.gives (fun _ => rfl) (Safe.step (ihTrue _ htype) fun _ s₁ h _ => ?_)
      exact .gives (fun _ => rfl) (ihFalse _ (h.type_lt htype))
  | case2 source expr hternary =>
      rw [recordTransfer.eq_2 _ _ _ _ hternary]
      refine Fares.categoryOf htype (.settings fun c => Safe.update (fun hs => Adds.aside ?_ hs
        rfl rfl rfl) trivial)
      refine { extent := .refl _, transfers := fun r hr => ?_ }
      rcases List.mem_append.mp hr with hr | hr
      · exact .inl hr
      · obtain rfl := List.mem_singleton.mp hr
        exact .inr htype

theorem safe_noteAssumption {func : SymbolId} {type : TypeId} (hfunc : func < s.tables.symbols.size)
    (htype : type < s.tables.types.size) :
    Safe n bound [] (noteAssumption func type span) s fun _ _ => True := by
  refine .update (fun hs => Adds.aside ?_ hs rfl rfl rfl) trivial
  refine { extent := .refl _, assumptions := fun a ha => ?_ }
  rcases List.mem_append.mp ha with ha | ha
  · exact .inl ha
  · obtain rfl := List.mem_singleton.mp ha
    exact .inr ⟨hfunc, htype⟩

theorem safe_settlePending {a b : ExprType} (ha : a.type < s.tables.types.size)
    (hb : b.type < s.tables.types.size) :
    Safe n bound [] (settlePending a b span) s fun types s' =>
      types.1.type < s'.tables.types.size ∧ types.2.type < s'.tables.types.size := by
  unfold settlePending
  refine Fares.of_ready fun hs => .pendingOf ha (.pendingOf hb ?_)
  split
  · next func hfunc _ =>
    refine Safe.step (safe_noteAssumption (hs.closed.lt_of_pending? hfunc) hb) fun _ s₁ h _ => ?_
    exact Safe.pure fun _ => ⟨h.type_lt hb, h.type_lt hb⟩
  · next func _ hfunc =>
    refine Safe.step (safe_noteAssumption (hs.closed.lt_of_pending? hfunc) ha) fun _ s₁ h _ => ?_
    exact Safe.pure fun _ => ⟨h.type_lt ha, h.type_lt ha⟩
  · exact Safe.pure fun _ => ⟨ha, hb⟩

/-! ## Operators and conditions -/

theorem safe_literalType {literal : Literal} :
    Safe n bound [] (literalType literal) s fun type s' => type < s'.tables.types.size := by
  unfold literalType
  split
  case h_7 => exact .of_ready fun hs => safe_intern (.array _) (hs.closed.builtins .char)
  all_goals exact Safe.pure fun hs => hs.closed.builtins _

theorem safe_checkCondition {type : ExprType} (htype : type.type < s.tables.types.size) :
    Safe n bound [] (checkCondition type span) s fun _ _ => True := by
  unfold checkCondition
  refine .step (safe_requireKnown htype) ?_
  rintro _ s₁ h rfl
  refine Fares.of_ready fun hs => .concreteTy (h.type_lt htype) fun ty _ => ?_
  split
  · exact Safe.pure fun _ => trivial
  · exact Safe.pure fun _ => trivial
  · exact .mismatch (hs.closed.builtins .bool) (h.type_lt htype)

theorem safe_operandFits {op : BinOp} {type : TypeId} (htype : type < s.tables.types.size) :
    Safe n bound [] (operandFits op type) s fun _ s' => s = s' := by
  unfold operandFits
  refine Fares.concreteTy htype fun ty _ => ?_
  dsimp only
  split
  · exact .representationTy htype fun _ => .tables (Safe.pure fun _ => rfl)
  · exact .tables (Safe.pure fun _ => rfl)

theorem safe_checkBinary {op : BinOp} {lhs rhs : TypeId} (hlhs : lhs < s.tables.types.size)
    (hrhs : rhs < s.tables.types.size) :
    Safe n bound [] (checkBinary op lhs rhs span) s fun type s' => type < s'.tables.types.size := by
  unfold checkBinary
  refine .step (safe_operandFits hlhs) ?_
  rintro fits _ - rfl
  extract_lets finish
  have hfinish (valid : Bool) :
      Safe n bound [] (finish valid) s fun type s' => type < s'.tables.types.size := by
    unfold finish
    split
    · refine Safe.pure fun hs => ?_
      unfold BinOp.resultType
      split
      · exact hlhs
      · exact hlhs
      all_goals exact hs.closed.builtins .bool
    · exact .typeText hlhs fun _ => .typeText hrhs fun _ => .raise
  split
  · exact Fares.same hlhs hrhs (hfinish _)
  · exact .pure_bind (hfinish _)

theorem safe_checkUnary {op : UnaryOp} {operand : ExprType}
    (hoperand : operand.type < s.tables.types.size) :
    Safe n bound [] (checkUnary op operand span) s fun type s' =>
      type.type < s'.tables.types.size := by
  unfold checkUnary
  refine Fares.builtinOf hoperand ?_
  extract_lets valid
  split
  · exact Safe.pure fun _ => hoperand
  · exact .typeText hoperand fun _ => .raise

theorem safe_finishBinary {op : BinOp} {left right : ExprType}
    (hleft : left.type < s.tables.types.size) (hright : right.type < s.tables.types.size) :
    Safe n bound [] (finishBinary op left right span) s fun type s' =>
      type.type < s'.tables.types.size := by
  unfold finishBinary
  refine .step (safe_settlePending hleft hright) ?_
  rintro ⟨left, right⟩ s₁ - ⟨hleft, hright⟩
  refine Fares.pendingOf hleft ?_
  split
  · split
    · exact Safe.pure fun _ => hleft
    · exact Safe.pure fun _ => hleft
    · exact Safe.pure fun hs => hs.closed.builtins .bool
  · exact Safe.step (safe_checkBinary hleft hright) fun type s₂ _ htype => Safe.pure fun _ => htype

theorem safe_finishAssign {op : Option BinOp} {place assigned : ExprType} {value : Expr}
    (hplace : place.type < s.tables.types.size) (hassigned : assigned.type < s.tables.types.size) :
    Safe n bound [] (finishAssign op place value assigned span) s fun _ _ => True := by
  unfold finishAssign
  split
  · refine .step (safe_checkBinary hplace hassigned) fun result s₁ h hresult =>
      Fares.same hresult (h.type_lt hplace) ?_
    split
    · exact .typeText (h.type_lt hplace) fun _ => .typeText (h.type_lt hassigned) fun _ => .raise
    · exact Safe.pure fun _ => trivial
  · refine Fares.same hplace hassigned ?_
    dsimp only
    split
    · exact .mismatch_bind hplace hassigned
    · exact safe_recordTransfer hplace

/-! ## Arrays and calls -/

theorem safe_record {node : Node} {type : ExprType} (htype : type.type < s.tables.types.size) :
    Safe n bound [] (record node context type) s fun type s' => type.type < s'.tables.types.size := by
  unfold record
  extract_lets finish
  have hfinish (s₁ : CheckState) (h : Finishes n [] s s₁) :
      Safe n bound [] (finish ()) s₁ fun type s' => type.type < s'.tables.types.size := by
    refine .step (P := fun _ _ => True) (.update (fun hs => Adds.aside ?_ hs rfl rfl rfl)
      trivial) fun _ s₂ h' _ => Safe.pure fun _ => h'.type_lt (h.type_lt htype)
    refine { extent := .refl _, exprTypes := fun other typing htyping => ?_ }
    rw [NodeMap.get?_insert] at htyping
    split at htyping
    · obtain rfl := Option.some.inj htyping
      exact .inr (h.type_lt htype)
    · exact .inl htyping
  split
  · exact .step (safe_checkCondition htype) fun _ s₁ h _ => hfinish s₁ h
  · exact .of_ready fun hs => .pure_bind (hfinish s (.refl hs))

theorem safe_known {p : Check ExprType}
    (hp : Safe n bound own p s fun type s' => type.type < s'.tables.types.size) :
    Safe n bound own (known span p) s fun type s' => type.type < s'.tables.types.size := by
  refine Safe.bind hp (List.Subset.refl _) fun type s₁ _ htype => ?_
  refine Safe.imp ((safe_requireKnown htype).widen (List.nil_subset _)) ?_
  rintro _ s₂ h rfl
  exact h.type_lt htype

theorem safe_transferArgs {params : List (RefKind × TypeId)} {args : List (Expr × ExprType)}
    (hparams : ∀ p ∈ params, p.2 < s.tables.types.size) :
    Safe n bound [] (transferArgs params args) s fun _ _ => True := by
  induction params, args using transferArgs.induct generalizing s with
  | case1 type params expr source args ih =>
      obtain ⟨htype, hrest⟩ := List.forall_mem_cons.mp hparams
      rw [transferArgs]
      refine .step (safe_recordTransfer htype) fun _ s₁ h _ => ?_
      exact ih fun p hp => h.type_lt (hrest p hp)
  | case2 type params arg args ih =>
      rw [transferArgs]
      exact ih (List.forall_mem_cons.mp hparams).2
  | case3 =>
      rw [transferArgs.eq_3]
      all_goals first | assumption | exact Safe.pure fun _ => trivial

theorem safe_finishCall {node : Node} {callee : Expr} {calleeType : ExprType}
    {args : List (Expr × ExprType)} (hcallee : calleeType.type < s.tables.types.size)
    (hargs : s.extent.Exprs (args.map (·.2))) :
    Safe n bound [] (finishCall node callee calleeType args) s fun type s' =>
      type.type < s'.tables.types.size := by
  unfold finishCall
  refine .step (safe_requireKnown hcallee) ?_
  rintro _ s₁ h rfl
  have hargs := hargs.mono h.extent
  refine .of_ready fun hs => .concreteTy (h.type_lt hcallee) fun ty hty => ?_
  split
  · next params ret =>
    have hinside : (Ty.func params ret).Inside s₁.extent := hs.closed.concreteTy_inside hty
    refine .accepts hinside.1 hargs ?_
    dsimp only
    split
    · exact .typeText (h.type_lt hcallee) fun _ => .typeTexts hargs fun _ => .raise_bind
    · refine Safe.step (safe_transferArgs hinside.1) fun _ s₂ h' _ => ?_
      exact Safe.pure fun _ => h'.type_lt hinside.2
  · exact .typeText (h.type_lt hcallee) fun _ => .raise

theorem safe_arrayElement {array : ExprType} (harray : array.type < s.tables.types.size) :
    Safe n bound [] (arrayElement array span) s fun type s' => type < s'.tables.types.size := by
  unfold arrayElement
  refine Fares.of_ready fun hs => .concreteTy harray fun ty hty => ?_
  split
  · next element =>
    have hinside : (Ty.array element).Inside s.extent := hs.closed.concreteTy_inside hty
    exact Safe.pure fun _ => hinside
  · exact .typeText harray fun _ => .raise

theorem safe_checkSubscript {array subscript : ExprType} (harray : array.type < s.tables.types.size)
    (hsubscript : subscript.type < s.tables.types.size) :
    Safe n bound [] (checkSubscript array subscript span) s fun _ _ => True := by
  unfold checkSubscript
  refine Fares.builtinOf hsubscript ?_
  split
  · exact .typeText harray fun _ => .typeText hsubscript fun _ => .raise
  · exact Safe.pure fun _ => trivial

theorem safe_expectedElement {expected : Option TypeId} (hexpected : s.extent.Known expected) :
    Safe n bound [] (expectedElement expected) s fun element s' => s = s' ∧ s.extent.Known element := by
  unfold expectedElement
  split
  · next type =>
    refine Fares.of_ready fun hs => .last (.elementOf (hexpected type rfl) (Safe.pure fun _ => ⟨rfl, ?_⟩))
    exact fun element helement => hs.closed.lt_of_element? helement
  · exact Safe.pure fun _ => ⟨rfl, .none⟩

theorem safe_emptyArray {expected : Option TypeId} (hexpected : s.extent.Known expected) :
    Safe n bound [] (emptyArray expected span) s fun type s' => type.type < s'.tables.types.size := by
  unfold emptyArray
  refine Safe.step (safe_expectedElement hexpected) ?_
  rintro element _ - ⟨rfl, -⟩
  split
  · next type hfilter =>
    exact Safe.pure fun _ => hexpected type (Option.filter_eq_some_iff.mp hfilter).1
  · exact .raise

/-! ## Members -/

theorem fares_memberAccess {α : Type} {Q : α → CheckState → Prop} {reason : String}
    (howner : owner < s.tables.symbols.size) :
    Fares n bound own (memberAccess owner member reason) s Q := .nameOf howner fun _ => .raise

theorem safe_currentStruct : Safe n bound [] currentStruct s fun _ s' => s = s' := by
  unfold currentStruct
  refine Fares.of_ready fun hs => .state ?_
  split
  · next frame hframe =>
    exact .funcOf (hs.closed.frames frame (List.mem_of_find?_eq_some hframe)).1 (Safe.pure fun _ => rfl)
  · exact Safe.pure fun _ => rfl

theorem safe_checkAccess {row : Row} (howner : owner < s.tables.symbols.size) :
    Safe n bound [] (checkAccess owner row member) s fun _ s' => s = s' := by
  unfold checkAccess
  refine Safe.step safe_currentStruct ?_
  rintro current _ - rfl
  split
  · exact fares_memberAccess howner
  · exact Safe.pure fun _ => rfl

theorem safe_memberRows (howner : owner < s.tables.symbols.size) :
    Safe n bound [] (memberRows owner member) s fun rows s' =>
      s = s' ∧ ∀ row ∈ rows, row.symbol < s'.tables.symbols.size := by
  unfold memberRows
  refine Fares.of_ready fun hs => .kindOf howner fun kind hkind => ?_
  split
  · refine .membersOf (hs.closed.kind_inside hkind).1 (Safe.pure fun _ => ⟨rfl, fun row hrow => ?_⟩)
    exact hs.closed.lt_of_members (List.mem_filter.mp hrow).1
  · exact Safe.pure fun _ => ⟨rfl, by simp⟩

theorem safe_funcMeant : Safe n bound [] (funcMeant node) s fun _ s' => s = s' := by
  unfold funcMeant
  refine Fares.of_ready fun hs => .state ?_
  split
  · next symbol hsymbol =>
    exact .last (.funcOf (hs.closed.meanings.exprs node symbol hsymbol) (Safe.pure fun _ => rfl))
  · exact Safe.pure fun _ => rfl

theorem safe_objectMeant : Safe n bound [] (objectMeant node) s fun _ s' => s = s' := by
  unfold objectMeant
  refine Fares.of_ready fun hs => .state ?_
  split
  · next symbol hsymbol =>
    exact .last (.objectOf (hs.closed.meanings.exprs node symbol hsymbol) (Safe.pure fun _ => rfl))
  · exact Safe.pure fun _ => rfl

section

variable {analyze : SymbolId → Check Unit} (hanalyze : Analyzes n bound analyze)

include hanalyze

theorem safe_useEntries {name : Ident} {entries : List SymbolId}
    (hentries : ∀ id ∈ entries, id < s.tables.symbols.size) (hcontext : context.Inside s.extent)
    (hfree : s.Free n [.node .expr node]) :
    Safe n bound [.node .expr node] (useEntries analyze node name entries context) s fun type s' =>
      type.type < s'.tables.types.size := by
  unfold useEntries
  split
  · exact safe_resolveOverload hanalyze hentries (hcontext _ rfl) hfree
  · exact safe_valueOf hanalyze hentries hfree
  · exact safe_valueOf hanalyze hentries hfree

theorem safe_visitIdent {node : Node} {name : String} (hcontext : context.Inside s.extent)
    (hfree : s.Free n [.node .expr node.id]) :
    Safe n bound [.node .expr node.id] (visitIdent analyze node name context) s fun type s' =>
      type.type < s'.tables.types.size := by
  have hvalue : Safe n bound [.node .expr node.id]
      (lookupRequired ⟨name, node.span⟩ >>= valueOf analyze node.id ⟨name, node.span⟩) s
      fun type s' => type.type < s'.tables.types.size :=
    .step safe_lookupRequired fun entries s₁ h hentries =>
      safe_valueOf hanalyze hentries (hfree.still h.toFollows)
  unfold visitIdent
  dsimp only
  split
  · next args =>
    refine Fares.of_ready fun hs => .searching ?_
    split
    · refine Safe.step safe_lookupRequired fun _ s₁ h _ => ?_
      exact safe_resolveOverload hanalyze (by simp) ((hcontext args rfl).mono h.extent)
        (hfree.still h.toFollows)
    · exact safe_resolveOverload hanalyze (fun id hid => hs.closed.lt_of_gather hid) (hcontext args rfl)
        hfree
  · exact hvalue
  · exact hvalue

/-- The members of a module, an enum or a struct. -/
theorem safe_staticMember {target : SymbolId} (htarget : target < s.tables.symbols.size)
    (husable : ∀ kind, s.tables.symbols.kind? target = some kind →
      (∃ scope, kind = .moduleSpace scope) ∨ kind.isType = true)
    (hcontext : context.Inside s.extent) (hfree : s.Free n [.node .expr node]) :
    Safe n bound [.node .expr node] (staticMember analyze node target member context) s fun type s' =>
      type.type < s'.tables.types.size := by
  unfold staticMember
  refine Fares.of_ready fun hs => .kindOf htarget fun kind hkind => ?_
  split
  · next scope =>
    refine .entriesOf (hs.closed.kind_inside hkind) ?_
    split
    · exact .nameOf htarget fun _ => .raise
    · next entries _ =>
      exact safe_useEntries hanalyze (fun id hid => hs.closed.lt_of_entries hid) hcontext hfree
  · next hmodule =>
    have htype : s.tables.symbols.IsType target := by
      rcases husable kind hkind with ⟨scope, rfl⟩ | htype
      · exact (hmodule scope rfl).elim
      · exact ⟨kind, hkind, htype⟩
    refine Safe.step (safe_typeOfSymbol htype) fun type s₁ h htype => ?_
    have hfree' := hfree.still h.toFollows
    refine Fares.of_ready fun hs => .concreteTy htype fun ty hty => ?_
    have hinside := hs.closed.concreteTy_inside hty
    split
    · refine Fares.kindOf hinside fun kind hkind => ?_
      split
      · refine .casesOf (hs.closed.kind_inside hkind).1 ?_
        split
        · exact .typeText htype fun _ => .raise
        · next row hrow =>
          have hrow := hs.closed.lt_of_cases (List.mem_of_find?_eq_some hrow)
          refine Safe.bind (safe_useSymbol hrow hfree') (List.Subset.refl _) fun _ s₂ h' _ => ?_
          split
          · exact .typeText (h'.type_lt htype) fun _ => .raise
          · exact Safe.pure fun _ => h'.type_lt htype
      · exact .typeText htype fun _ => .raise
    · next owner =>
      refine Safe.step (safe_memberRows hinside) ?_
      rintro rows _ h' ⟨rfl, hrows⟩
      dsimp only
      split
      · exact .typeText htype fun _ => .raise_bind
      · split
        · exact fares_memberAccess hinside
        · next first rest hstatic =>
          refine Safe.step (safe_checkAccess hinside) ?_
          rintro _ _ - rfl
          refine safe_useEntries hanalyze (fun id hid => ?_) (hcontext.mono h.extent) hfree'
          obtain ⟨row, hrow, rfl⟩ : ∃ row ∈ first :: rest, row.symbol = id := by
            simpa [eq_comm] using hid
          exact hrows row (List.mem_filter.mp (hstatic ▸ hrow)).1
    · exact .typeText htype fun _ => .raise

/-- A field or a method of a value. -/
theorem safe_instanceMember {object : ExprType} (hobject : object.type < s.tables.types.size)
    (hcontext : context.Inside s.extent) (hfree : s.Free n [.node .expr node]) :
    Safe n bound [.node .expr node] (instanceMember analyze node object member context) s
      fun type s' => type.type < s'.tables.types.size := by
  unfold instanceMember
  refine Fares.of_ready fun hs => .concreteTy hobject fun ty hty => ?_
  have hinside := hs.closed.concreteTy_inside hty
  split
  · next owner =>
    refine Safe.step (safe_memberRows hinside) ?_
    rintro rows _ - ⟨rfl, hrows⟩
    split
    · exact .typeText hobject fun _ => .raise
    · next first rest =>
      have hfirst := hrows first List.mem_cons_self
      refine Safe.step (safe_checkAccess hinside) ?_
      rintro _ _ - rfl
      refine Fares.kindOf hfirst fun kind hkind => ?_
      split
      · next info =>
        refine Safe.bind (safe_useSymbol hfirst hfree) (List.Subset.refl _) fun _ s₁ h _ => ?_
        exact Safe.pure fun _ => h.type_lt (hs.closed.kind_inside hkind).2
      · have hmethods (id : SymbolId)
            (hid : id ∈ ((first :: rest).filter fun row => !row.isStatic).map Row.symbol) :
            id < s.tables.symbols.size := by
          obtain ⟨row, hrow, rfl⟩ := List.mem_map.mp hid
          exact hrows row (List.mem_filter.mp hrow).1
        split
        · exact fares_memberAccess hinside
        · split
          · next args =>
            refine Safe.bind (safe_resolveOverload hanalyze hmethods (hcontext args rfl) hfree)
              (List.Subset.refl _) fun callee s₁ h hcallee => ?_
            refine Safe.step safe_funcMeant ?_
            rintro func _ - rfl
            dsimp only
            split
            · exact .raise_bind
            · exact Safe.pure fun _ => hcallee
          · exact fares_memberAccess hinside
  · next owner =>
    refine Fares.kindOf hinside fun kind hkind => ?_
    extract_lets field
    have hfield (slot : HostSlot) (h : field = some slot) : slot.type < s.tables.types.size := by
      unfold field at h
      split at h
      · exact (hs.closed.kind_inside hkind).1 slot (List.mem_of_find?_eq_some h)
      · cases h
    clear_value field
    cases field with
    | none => exact .typeText hobject fun _ => .raise
    | some slot => exact Safe.pure fun _ => hfield slot rfl
  · exact .typeText hobject fun _ => .raise

end

end Check

end Stela
