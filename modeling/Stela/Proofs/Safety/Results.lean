import Stela.Check.Result
import Stela.Proofs.Safety.Operations

/-!
# Results and loops

Settling the result of a body is safe, and so are the statements that leave a
body or a loop. A loop is left only where one was entered.
-/

namespace Stela

namespace CheckState

variable {n bound : Nat} {s s' : CheckState} {pending ret : TypeId}

/-- Settling a type adds at most the type of a function with a result that is inside the state. -/
theorem settled_inside (hs : s.Closed) (pending : TypeId) {type : ExprType}
    (htype : type.type < s.tables.types.size) (hret : ret < s.tables.types.size) :
    s.tables.types.Within (settled s.tables.types pending ret type).2 ∧
      (settled s.tables.types pending ret type).1.type <
        (settled s.tables.types pending ret type).2.size ∧
      (∀ id ty, (settled s.tables.types pending ret type).2.get? id = some ty →
        s.tables.types.get? id = some ty ∨ ty.Inside s.extent) ∧
      (s.tables.types.Ordered → (settled s.tables.types pending ret type).2.Ordered) := by
  unfold settled
  split
  · exact ⟨.refl _, hret, fun _ _ h => .inl h, fun h => h⟩
  · split
    · next params result hfunc =>
      split
      · have hparams : (Ty.func params result).Inside s.extent := hs.types _ _ hfunc
        have hinside : (Ty.func params ret).Inside s.extent := ⟨hparams.1, hret⟩
        refine ⟨TypeTable.within_intern _ _, TypeTable.lt_size_of_get? (TypeTable.get?_intern _ _),
          fun id ty hid => ?_, fun h => h.intern hinside.part_lt⟩
        rcases TypeTable.get?_intern_inv hid with hold | ⟨-, rfl⟩
        · exact .inl hold
        · exact .inr hinside
      · exact ⟨.refl _, htype, fun _ _ h => .inl h, fun h => h⟩
    · exact ⟨.refl _, htype, fun _ _ h => .inl h, fun h => h⟩

/-- The types of expressions are settled one after the other. -/
theorem finishes_settleExprs (exprs : List Nat) (s : CheckState) (hs : s.Ready n bound)
    (hret : ret < s.tables.types.size) : Finishes n [] s (settleExprs pending ret s exprs) := by
  induction exprs generalizing s with
  | nil => exact .refl hs
  | cons id rest ih =>
      unfold settleExprs at ih ⊢
      rw [List.foldl_cons]
      split
      · exact ih s hs hret
      · next typing htyping =>
        obtain ⟨hwithin, hlt, htypes, hordered⟩ := settled_inside hs.closed pending
          (hs.closed.exprTypes id typing htyping) hret
        have hadds := adds_types hwithin htypes hordered
        have hfirst : Finishes n [] s { s with
            tables.types := (settled s.tables.types pending ret typing.type).2
            exprTypes := s.exprTypes.insert id
              { typing with type := (settled s.tables.types pending ret typing.type).1 } } := by
          refine Adds.aside {
            extent := hadds.extent
            types := hadds.types
            ordered := hordered
            exprTypes := fun other found hfound => ?_ } hs rfl rfl rfl
          rw [NodeMap.get?_insert] at hfound
          split at hfound
          · obtain rfl := Option.some.inj hfound
            exact .inr hlt
          · exact .inl hfound
        exact hfirst.trans (ih _ (hfirst.ready hs) (hfirst.type_lt hret))

theorem finishes_resolvePending (hs : s.Ready n bound) {func : SymbolId} (hret : ret < s.tables.types.size) :
    Finishes n [] s (s.resolvePending func ret) := by
  unfold resolvePending
  split
  · exact .refl hs
  · exact finishes_settleExprs _ s hs hret

/-- The given bodies are under analysis afterwards, and nothing is put off. -/
structure Shifts (rest : List ((SymbolId × FrameKind × ScopeId) × Nat)) (s s' : CheckState) :
    Prop where
  bodies : s'.bodies = rest
  duties : ∀ id duty, s'.duty? id = some duty → s.duty? id = some duty

/-- What was entered is left when the steps inside are complete. -/
theorem Shifts.balanced {s₁ s₂ : CheckState} (h : Shifts s.bodies s₂ s')
    (hduties : ∀ id duty, s₁.duty? id = some duty → s.duty? id = some duty)
    (hinside : s₁.Balanced s₂) : s.Balanced s' :=
  ⟨h.bodies, fun id duty hduty => hduties id duty (hinside.duties id duty (h.duties id duty hduty))⟩

end CheckState

namespace Check

open CheckState

variable {n bound : Nat} {own : List NodeKey} {s s' : CheckState} {frame : Frame} {span : Span}

theorem Safe.forM {α : Type} {f : α → Check Unit} : ∀ (items : List α) (s : CheckState),
    (∀ a ∈ items, ∀ s₁, Finishes n [] s s₁ → Safe n bound [] (f a) s₁ fun _ _ => True) →
    Safe n bound [] (items.forM f) s fun _ _ => True := by
  intro items
  induction items with
  | nil => exact fun s _ => Safe.pure fun _ => trivial
  | cons a rest ih =>
      intro s h
      refine .of_ready fun hs => Safe.step (h a List.mem_cons_self s (.refl hs)) fun _ s₁ hfirst _ => ?_
      exact ih s₁ fun b hb s₂ hrest => h b (List.mem_cons_of_mem a hb) s₂ (hfirst.trans hrest)

/-! ## Results -/

theorem safe_verifyAssumptions {func : SymbolId} {ret : TypeId} (hret : ret < s.tables.types.size) :
    Safe n bound [] (verifyAssumptions func ret) s fun _ _ => True := by
  unfold verifyAssumptions
  refine Fares.of_ready fun hs => Fares.state (Safe.step (P := fun _ _ => True)
    (.update (fun hs => Adds.aside ?_ hs rfl rfl rfl) trivial)
    fun _ s₁ h _ => Safe.forM _ s₁ fun a ha s₂ h' => ?_)
  · refine { extent := .refl _, assumptions := fun a ha => .inl ?_ }
    change a ∈ (s.assumptions.partition fun a => a.func == func).2 at ha
    rw [List.partition_eq_filter_filter] at ha
    exact (List.mem_filter.mp ha).1
  · change a ∈ (s.assumptions.partition fun a => a.func == func).1 at ha
    rw [List.partition_eq_filter_filter] at ha
    have htype := h'.type_lt (h.type_lt (hs.closed.assumptions a (List.mem_filter.mp ha).1).2)
    have hret := h'.type_lt (h.type_lt hret)
    refine .same htype hret ?_
    split
    · exact .mismatch hret htype
    · exact Safe.pure fun _ => trivial

theorem safe_replacePending {func : SymbolId} {ret : TypeId} (hret : ret < s.tables.types.size) :
    Safe n bound [] (replacePending func ret) s fun _ _ => True := by
  unfold replacePending
  refine Fares.of_ready fun hs => .state ?_
  have hreplace (s₁ : CheckState) (h : Finishes n [] s s₁) :
      Safe n bound [] (update fun s => s.resolvePending func ret) s₁ fun _ _ => True :=
    .update (fun hs => finishes_resolvePending hs (h.type_lt hret)) trivial
  dsimp only
  split
  · refine Safe.step (Safe.forM _ s fun entry hentry s₁ h => ?_) fun _ s₁ h _ => hreplace s₁ h
    have htype := hs.closed.exprTypes entry.1 entry.2 (NodeMap.mem_toList.mp hentry)
    exact .tyOf (h.type_lt htype) fun _ _ => Safe.pure fun _ => trivial
  · exact hreplace s (.refl hs)

/-- The result of a body is settled when the body ends. -/
theorem safe_finishBody {body : List Stmt} (hframe : frame.Inside s.extent) :
    Safe n bound [] (finishBody frame body span) s fun ret s' => ret < s'.tables.types.size := by
  unfold finishBody
  refine Fares.nameOf hframe.1 fun name => ?_
  extract_lets settle
  have hsettle (ret : TypeId) (hret : ret < s.tables.types.size) :
      Safe n bound [] (settle ret) s fun ret s' => ret < s'.tables.types.size := by
    refine Safe.step (Safe.forM _ s fun call hcall s₁ h => ?_)
      fun _ s₁ h _ => Fares.isVoid (h.type_lt hret) ?_
    · split
      · exact safe_noteAssumption (h.symbol_lt (hframe.2.2.2.2 call hcall)) (h.type_lt hret)
      · exact Safe.pure fun _ => trivial
    · dsimp only
      split
      · exact .raise_bind
      · refine Safe.step (safe_verifyAssumptions (h.type_lt hret)) fun _ s₂ h' _ => ?_
        refine Safe.step (safe_replacePending (h'.type_lt (h.type_lt hret)))
          fun _ s₃ h'' _ => Safe.pure fun _ => ?_
        exact h''.type_lt (h'.type_lt (h.type_lt hret))
  split
  · next type htype => exact .pure_bind (hsettle type (hframe.2.2.2.1 type htype))
  · split
    · exact .raise_bind
    · exact .of_ready fun hs => .pure_bind (hsettle _ (hs.closed.builtins .void))

theorem safe_deduceReturn {type : TypeId} (htype : type < s.tables.types.size) :
    Safe n bound [] (deduceReturn type) s fun _ _ => True := by
  unfold deduceReturn
  refine Fares.of_ready fun hs => .frame? ?_
  split
  · exact Safe.pure fun _ => trivial
  · next frame hframe =>
    have hframe := hs.closed.frames frame (List.mem_of_mem_head? hframe)
    refine Safe.step (safe_modifyFrame (fun _ => ⟨rfl, rfl⟩) fun hs frame hframe => ?_)
      fun _ s₁ h _ => ?_
    · exact ⟨hframe.1, hframe.2.1, hframe.2.2.1, .some htype, hframe.2.2.2.2⟩
    · have hret : s₁.extent.Known (some type) := .some (h.type_lt htype)
      split
      · refine Safe.imp (safe_modifyFunc (h.symbol_lt hframe.1) fun info _ hinside =>
          ⟨?_, rfl, fun h => h⟩) fun _ _ _ _ => trivial
        exact ⟨hinside.1, hret, hinside.2.2⟩
      · exact safe_modifyClosure (h.symbol_lt hframe.1) fun info _ hinside =>
          ⟨⟨hinside.1, hret, hinside.2.2⟩, rfl⟩

/-- A returned value is checked against the body that it is returned from. -/
theorem safe_checkReturned {value : Expr} {returned : ExprType} (hframe : frame.Inside s.extent)
    (hreturned : returned.type < s.tables.types.size) :
    Safe n bound [] (checkReturned frame value returned span) s fun _ _ => True := by
  have hexpected := hframe.2.2.2.1
  unfold checkReturned
  refine Fares.of_ready fun hs => .pendingOf hreturned ?_
  split
  · next func hpending =>
    have hfunc := hs.closed.lt_of_pending? hpending
    split
    · next type heq => exact safe_noteAssumption hfunc (hexpected type heq)
    · refine safe_modifyFrame (fun _ => ⟨rfl, rfl⟩) fun hs frame hframe => ?_
      refine ⟨hframe.1, hframe.2.1, hframe.2.2.1, hframe.2.2.2.1, fun call hcall => ?_⟩
      rcases List.mem_append.mp hcall with hcall | hcall
      · exact hframe.2.2.2.2 call hcall
      · obtain rfl := List.mem_singleton.mp hcall
        exact hfunc
  · split
    · next type heq =>
      have htype := hexpected type heq
      have hthen : Safe n bound [] (do
          if !(← same type returned.type) then mismatch type returned.type value.span
          if !(← isVoid type) then recordTransfer type .ret value returned) s fun _ _ => True := by
        refine Fares.same htype hreturned ?_
        dsimp only
        split
        · exact .mismatch_bind htype hreturned
        · refine .isVoid htype ?_
          split
          · exact safe_recordTransfer htype
          · exact Safe.pure fun _ => trivial
      refine .isVoid htype (.isVoid hreturned ?_)
      dsimp only
      split
      · exact .nameOf hframe.1 fun _ => .raise_bind
      · exact hthen
    · refine Safe.step (safe_deduceReturn hreturned) fun _ s₁ h _ => Fares.isVoid (h.type_lt hreturned) ?_
      split
      · exact safe_recordTransfer (h.type_lt hreturned)
      · exact Safe.pure fun _ => trivial

theorem safe_checkBareReturn (hframe : frame.Inside s.extent) :
    Safe n bound [] (checkBareReturn frame span) s fun _ _ => True := by
  unfold checkBareReturn
  split
  · next type htype =>
    refine Fares.isVoid (hframe.2.2.2.1 type htype) ?_
    split
    · exact .nameOf hframe.1 fun _ => .raise
    · exact Safe.pure fun _ => trivial
  · exact .of_ready fun hs => safe_deduceReturn (hs.closed.builtins .void)

/-! ## Loops -/

theorem safe_checkLoopControl {keyword : String} :
    Safe n bound [] (checkLoopControl keyword span) s fun _ _ => True := by
  unfold checkLoopControl
  refine Fares.frame? ?_
  split
  · split
    · exact .raise
    · exact Safe.pure fun _ => trivial
  · exact .raise

/-- The innermost body as it is inside of one more loop. -/
theorem fares_enterLoop : Fares n bound [] enterLoop s fun _ s' =>
    Shifts (s.bodies.modifyHead fun body => (body.1, body.2 + 1)) s s' := by
  refine Fares.imp (fares_modifyFrame fun _ _ h => h) ?_
  rintro _ s' - ⟨hframes, hduties⟩
  refine ⟨?_, hduties⟩
  rw [bodies, hframes, bodies]
  cases s.frames <;> rfl

/-- A loop that was entered can be left. -/
theorem fares_leaveLoop {outer : List ((SymbolId × FrameKind × ScopeId) × Nat)}
    (hbodies : s.bodies = outer.modifyHead fun body => (body.1, body.2 + 1)) :
    Fares n bound [] leaveLoop s fun _ s' => Shifts outer s s' := by
  unfold leaveLoop
  refine .frame? ?_
  cases houter : outer with
  | nil =>
      rw [bodies, houter, List.modifyHead_nil, List.map_eq_nil_iff] at hbodies
      rw [hbodies]
      exact .pure fun _ => ⟨by rw [bodies, hbodies, List.map_nil], fun _ _ h => h⟩
  | cons body rest =>
      rw [houter, List.modifyHead_cons] at hbodies
      obtain ⟨frame, frames, hframes, hbody, hrest⟩ := List.map_eq_cons_iff.mp hbodies
      obtain ⟨hplace, hdepth⟩ := Prod.mk.inj hbody
      rw [hframes, List.head?_cons]
      dsimp only
      rw [if_neg (by omega)]
      refine Fares.imp (fares_modifyFrame fun _ _ h => h) ?_
      rintro _ s' - ⟨hframes', hduties⟩
      refine ⟨?_, hduties⟩
      rw [bodies, hframes', hframes, List.modifyHead_cons, List.map_cons, hrest, hdepth,
        Nat.add_sub_cancel]
      exact congrArg (fun place => (place, body.2) :: rest) hplace

end Check

end Stela
