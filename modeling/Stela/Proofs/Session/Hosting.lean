import Stela.Proofs.Session.Building
import Stela.Proofs.Syntax.TypeTexts

/-!
# Modules of the host are all or nothing

An item of the host is added if every text in it is a type. An item with another
text leaves an error, and goes on to be left out while the items behind it are
read. So the errors are empty exactly if all items were added, and then the
declarations and imports of the module are the items, one by one.
-/

namespace Stela

/-! ## What an item asks for -/

/-- The parameter is the one that the host describes. -/
structure HostParam.Becomes (text : HostParam) (param : Param) : Prop where
  name : param.name.name = text.name
  mutability : param.mutability = .fixed
  passing : param.passing = text.passing
  type : param.type.SaidBy text.type

/-- The field is the one that the host describes. -/
structure HostFieldText.Becomes (text : HostFieldText) (field : HostField) : Prop where
  name : field.name.name = text.name
  type : field.type.SaidBy text.type
  offset : field.offset = text.offset

namespace HostItem

/-- The texts of an item that have to be types. -/
def types : HostItem → List String
  | .importModule _ => []
  | .func _ params ret => params.map HostParam.type ++ ret.toList
  | .hostType _ _ _ fields => fields.map HostFieldText.type
  | .aliasType _ target _ => [target]

/-- The name of the module that is imported. -/
def importName? : HostItem → Option String
  | .importModule name => some name
  | .func .. | .hostType .. | .aliasType .. => none

/-- The declaration is the one that the item asks for. -/
inductive Becomes : HostItem → Decl → Prop
  | func {text params ret node name sig} (hname : name.name = text)
    (hparams : List.Forall₂ HostParam.Becomes params sig.params)
    (hret : Option.Rel (fun text type => TypeExpr.SaidBy type text) ret sig.ret) :
    Becomes (.func text params ret)
      (.func { node, name, sig, body := none, kind := .free, access := .everyone })
  | hostType {text size align layout node name fields} (hname : name.name = text)
    (hfields : List.Forall₂ HostFieldText.Becomes layout fields) :
    Becomes (.hostType text size align layout) (.hostType node name size align fields)
  | aliasType {text target strong node name type} (hname : name.name = text)
    (htarget : type.SaidBy target) :
    Becomes (.aliasType text target strong) (.aliasType node name type strong)

end HostItem

/-- Every text of the items that has to be a type is one. -/
def AllTyped (items : List HostItem) : Prop :=
  ∀ item ∈ items, ∀ text ∈ item.types, IsTypeText text

/-- The imports and declarations are those that the items ask for, one by one. -/
structure Listed (items : List HostItem) (imports : List Ident) (decls : List Decl) : Prop where
  imports : imports.map Ident.name = items.filterMap HostItem.importName?
  decls : List.Forall₂ HostItem.Becomes (items.filter (·.importName?.isNone)) decls

/-! ## Steps of the construction -/

/-- Between the drafts nothing was declared, and no error was found. -/
structure HostDraft.Same (d d' : HostDraft) : Prop where
  imports : d'.imports = d.imports
  decls : d'.decls = d.decls
  errors : d'.errors = d.errors
  spent : d'.spent = d.spent

namespace HostDraft.Same

theorem refl (d : HostDraft) : d.Same d := ⟨rfl, rfl, rfl, rfl⟩

theorem trans {d d' d'' : HostDraft} (h : d.Same d') (h' : d'.Same d'') : d.Same d'' :=
  ⟨h'.imports.trans h.imports, h'.decls.trans h.decls, h'.errors.trans h.errors,
    h'.spent.trans h.spent⟩

end HostDraft.Same

namespace HostBuild

variable {α β : Type} {p : HostBuild α} {f : α → HostBuild β} {d : HostDraft}
  {texts more : List String}

/-- The step reads texts that have to be types. If they are, it ends as `post` says; if not, it is
given up, and there is an error. -/
inductive Builds (p : HostBuild α) (d : HostDraft) (texts : List String)
    (post : α → HostDraft → Prop) : Prop
  | built {a d'} (hrun : p.run.run d = (some a, d')) (hall : ∀ text ∈ texts, IsTypeText text)
    (hpost : post a d')
  | given_up {d'} (hrun : p.run.run d = (none, d')) (hany : ∃ text ∈ texts, ¬IsTypeText text)
    (herrors : d'.errors ≠ []) (hspent : d'.spent = d.spent)

namespace Builds

variable {P : α → Prop} {post : α → HostDraft → Prop} {Q : β → HostDraft → Prop}

theorem pure {a : α} (h : post a d) : Builds (Pure.pure a) d [] post :=
  .built rfl (by simp) h

theorem bind (h : p.Builds d texts fun a d' => d.Same d' ∧ P a)
    (hf : ∀ a d', d.Same d' → P a → (f a).Builds d' more Q) :
    (p >>= f).Builds d (texts ++ more) Q := by
  cases h with
  | built hrun hall hpost =>
      rename_i a d'
      have hbind : (p >>= f).run.run d = (f a).run.run d' := by
        simp only [OptionT.run_bind, Option.elimM, StateT.run_bind, hrun]
        rfl
      cases hf a d' hpost.1 hpost.2 with
      | built hrun' hall' hpost' =>
          exact .built (hbind.trans hrun')
            (fun text htext => (List.mem_append.mp htext).elim (hall text) (hall' text)) hpost'
      | given_up hrun' hany herrors hspent =>
          obtain ⟨text, htext, hnot⟩ := hany
          exact .given_up (hbind.trans hrun') ⟨text, List.mem_append_right _ htext, hnot⟩ herrors
            (hspent.trans hpost.1.spent)
  | given_up hrun hany herrors hspent =>
      rename_i d'
      have hbind : (p >>= f).run.run d = (none, d') := by
        simp only [OptionT.run_bind, Option.elimM, StateT.run_bind, hrun]
        rfl
      obtain ⟨text, htext, hnot⟩ := hany
      exact .given_up hbind ⟨text, List.mem_append_left _ htext, hnot⟩ herrors hspent

end Builds

theorem builds_ident (name : String) (d : HostDraft) :
    (ident name).Builds d [] fun ident d' => d.Same d' ∧ ident.name = name :=
  .built rfl (by simp) ⟨.refl d, rfl⟩

theorem builds_type (text : String) (d : HostDraft) :
    (type text).Builds d [text] fun type d' => d.Same d' ∧ type.SaidBy text := by
  let file := d.session.files.length
  let session := (d.session.addFile s!"<host type `{text}`>" text).2
  obtain ⟨read, hread, hsaid⟩ | ⟨hnone, diagnostics, hsome, hfailed⟩ :=
    parseType_cases text file session.nodes
  · let d' := { d with session := { session with nodes := (parseType text file session.nodes).2 } }
    have hrun : (type text).run.run d = (some read, d') := by
      unfold type
      rw [run_get]
      simp only [Session.addFile]
      split
      · next heq =>
        obtain rfl := Except.ok.inj (heq.symm.trans hread)
        rfl
      · next heq => cases heq.symm.trans hread
      · next heq => cases heq.symm.trans hread
    exact .built hrun (by simpa using ⟨read, hsaid⟩) ⟨⟨rfl, rfl, rfl, rfl⟩, hsaid⟩
  · let d' := { d with
      session := { session with nodes := (parseType text file session.nodes).2 }
      errors := d.errors ++ diagnostics }
    have hrun : (type text).run.run d = (none, d') := by
      unfold type
      rw [run_get]
      simp only [Session.addFile]
      split
      · next heq => cases heq.symm.trans hfailed
      · next heq =>
        obtain rfl := ParseFailure.errors.inj (Except.error.inj (heq.symm.trans hfailed))
        rfl
      · next heq => cases heq.symm.trans hfailed
    exact .given_up hrun ⟨text, by simp, hnone⟩ (by simp [d', hsome]) rfl

theorem builds_params (parameters : List HostParam) (d : HostDraft) :
    (params parameters).Builds d (parameters.map HostParam.type) fun params d' =>
      d.Same d' ∧ List.Forall₂ HostParam.Becomes parameters params := by
  induction parameters generalizing d with
  | nil => exact .pure ⟨.refl d, .nil⟩
  | cons param rest ih =>
      refine (builds_type param.type d).bind fun type d₁ h₁ htype => ?_
      refine (builds_ident param.name d₁).bind fun name d₂ h₂ hname => ?_
      rw [← List.append_nil (rest.map _)]
      refine (ih d₂).bind fun others d₃ h₃ hothers => .pure ?_
      exact ⟨h₁.trans (h₂.trans h₃), .cons ⟨hname, rfl, rfl, htype⟩ hothers⟩

theorem builds_fields (layout : List HostFieldText) (d : HostDraft) :
    (fields layout).Builds d (layout.map HostFieldText.type) fun fields d' =>
      d.Same d' ∧ List.Forall₂ HostFieldText.Becomes layout fields := by
  induction layout generalizing d with
  | nil => exact .pure ⟨.refl d, .nil⟩
  | cons field rest ih =>
      refine (builds_type field.type d).bind fun type d₁ h₁ htype => ?_
      refine (builds_ident field.name d₁).bind fun name d₂ h₂ hname => ?_
      rw [← List.append_nil (rest.map _)]
      refine (ih d₂).bind fun others d₃ h₃ hothers => .pure ?_
      exact ⟨h₁.trans (h₂.trans h₃), .cons ⟨hname, htype, rfl⟩ hothers⟩

/-- The item was added at the end of the draft, and no error was found. -/
structure Added (d : HostDraft) (item : HostItem) (d' : HostDraft) : Prop where
  imports : d'.imports.map Ident.name = d.imports.map Ident.name ++ item.importName?.toList
  decls : ∃ added, d'.decls = d.decls ++ added ∧
    List.Forall₂ HostItem.Becomes ([item].filter (·.importName?.isNone)) added
  errors : d'.errors = d.errors
  spent : d'.spent = d.spent

/-- The last step of an item behind steps that only read. -/
theorem builds_declare {d₀ : HostDraft} {item : HostItem} {decl : Node → Decl}
    (hname : item.importName? = none) (hsame : d₀.Same d) (hdecl : ∀ node, item.Becomes (decl node)) :
    (declare decl).Builds d [] fun _ d' => Added d₀ item d' := by
  refine .built rfl (by simp) ⟨?_, ⟨_, congrArg (· ++ _) hsame.decls, ?_⟩, hsame.errors, hsame.spent⟩
  · simpa [hname] using congrArg (List.map Ident.name) hsame.imports
  · simpa [hname] using hdecl _

theorem builds_item (item : HostItem) (d : HostDraft) :
    (HostBuild.item item).Builds d item.types fun _ d' => Added d item d' := by
  cases item with
  | importModule name =>
      refine .built rfl (by simp [HostItem.types]) ⟨?_, ⟨[], ?_, ?_⟩, rfl, rfl⟩
      · simp [HostItem.importName?]
      · exact (List.append_nil _).symm
      · simp [HostItem.importName?]
  | func name parameters result =>
      have finish {params : List Param} {ret : Option TypeExpr} {d' : HostDraft} (h : d.Same d')
          (hparams : List.Forall₂ HostParam.Becomes parameters params)
          (hret : Option.Rel (fun text type => TypeExpr.SaidBy type text) result ret) : Builds (do
            let ret ← (Pure.pure ret : HostBuild (Option TypeExpr))
            let name ← ident name
            declare fun node => .func {
              node, name, sig := ⟨params, ret⟩, body := none, kind := .free, access := .everyone })
            d' [] fun _ d'' => Added d (.func name parameters result) d'' := by
        rw [pure_bind]
        refine (builds_ident name d').bind fun ident d'' h' hname => ?_
        exact builds_declare rfl (h.trans h') fun node => .func hname hparams hret
      refine (builds_params parameters d).bind fun params d₁ h₁ hparams => ?_
      cases result with
      | none => exact finish h₁ hparams .none
      | some text =>
          rw [Option.toList_some, ← List.append_nil [text]]
          refine (builds_type text d₁).bind fun ret d₂ h₂ hret => ?_
          exact finish (h₁.trans h₂) hparams (.some hret)
  | hostType name size align layout =>
      rw [← List.append_nil (HostItem.types _)]
      refine (builds_fields layout d).bind fun fields d₁ h₁ hfields => ?_
      refine (builds_ident name d₁).bind fun ident d₂ h₂ hname => ?_
      exact builds_declare rfl (h₁.trans h₂) fun node => .hostType hname hfields
  | aliasType name target strong =>
      rw [← List.append_nil (HostItem.types _)]
      refine (builds_type target d).bind fun type d₁ h₁ htarget => ?_
      refine (builds_ident name d₁).bind fun ident d₂ h₂ hname => ?_
      exact builds_declare rfl (h₁.trans h₂) fun node => .aliasType hname htarget

end HostBuild

/-! ## Drafts -/

/-- What a draft holds after items: all of them, or an error. -/
inductive HostDraft.Holds (items : List HostItem) (d : HostDraft) : Prop
  | all (hall : AllTyped items) (hlisted : Listed items d.imports d.decls) (herrors : d.errors = [])
    (hspent : d.spent = false)
  | error (hany : ¬AllTyped items) (herrors : d.errors ≠ []) (hspent : d.spent = false)

theorem allTyped_concat {items : List HostItem} {item : HostItem} :
    AllTyped (items ++ [item]) ↔ AllTyped items ∧ ∀ text ∈ item.types, IsTypeText text := by
  simp [AllTyped, or_imp, forall_and]

theorem HostBuild.Added.listed {d d' : HostDraft} {items : List HostItem} {item : HostItem}
    (h : Added d item d') (hlisted : Listed items d.imports d.decls) :
    Listed (items ++ [item]) d'.imports d'.decls := by
  obtain ⟨added, hdecls, hadded⟩ := h.decls
  constructor
  · rw [h.imports, hlisted.imports, List.filterMap_append]
    cases item <;> rfl
  · rw [hdecls, List.filter_append]
    exact List.rel_append hlisted.decls hadded

namespace HostDraft.Holds

variable {items : List HostItem} {d : HostDraft}

/-- An item is added to a draft that holds all items before it, or leaves an error, and an error
stays. -/
theorem add (h : d.Holds items) (item : HostItem) : (d.add item).Holds (items ++ [item]) := by
  unfold HostDraft.add
  cases HostBuild.builds_item item d with
  | built hrun htypes hadded =>
      rw [hrun]
      cases h with
      | all hall hlisted herrors hspent =>
          exact .all (allTyped_concat.mpr ⟨hall, htypes⟩) (hadded.listed hlisted)
            (hadded.errors.trans herrors) (hadded.spent.trans hspent)
      | error hany herrors hspent =>
          exact .error (fun hall => hany (allTyped_concat.mp hall).1)
            (fun hclean => herrors (hadded.errors.symm.trans hclean)) (hadded.spent.trans hspent)
  | given_up hrun hany herrors hspent =>
      rw [hrun]
      have hbefore : d.spent = false := by cases h <;> assumption
      obtain ⟨text, htext, hnot⟩ := hany
      exact .error (fun hall => hnot ((allTyped_concat.mp hall).2 text htext)) herrors
        (hspent.trans hbefore)

theorem foldl (h : d.Holds items) (more : List HostItem) :
    (more.foldl HostDraft.add d).Holds (items ++ more) := by
  induction more generalizing items d with
  | nil => rwa [List.append_nil]
  | cons item rest ih =>
      have hrest := ih (h.add item)
      rwa [List.append_assoc, List.singleton_append] at hrest

theorem start (session : Session) (file : FileId) : HostDraft.Holds [] { session, file } :=
  .all (by simp [AllTyped]) ⟨rfl, .nil⟩ rfl rfl

end HostDraft.Holds

/-- Modules of the host are all or nothing. A module is accepted exactly if every text of its items
that has to be a type is one. Then it alone is added to the session, and its imports and
declarations are those that the items ask for, one by one and in their order. Otherwise there are
syntax errors, and the session has the modules that it had. -/
theorem Session.addExternal_all_or_nothing (s : Session) (name : String) (items : List HostItem) :
    ((s.addExternal name items).1 = .ok () ↔
      ∀ item ∈ items, ∀ text ∈ item.types, IsTypeText text) ∧
    (s.addExternal name items).2.modules = s.modules ∧
    ((s.addExternal name items).1 = .ok () ∧
        (∃ m : Module, (s.addExternal name items).2.externals = s.externals ++ [m] ∧
          m.name.name = name ∧
          m.imports.map Ident.name = items.filterMap HostItem.importName? ∧
          List.Forall₂ HostItem.Becomes (items.filter (·.importName?.isNone)) m.decls) ∨
      (∃ diagnostics, diagnostics ≠ [] ∧
        (s.addExternal name items).1 = .error (.syntactic s!"<host:{name}>" diagnostics)) ∧
        (s.addExternal name items).2.externals = s.externals) := by
  let start : HostDraft :=
    { session := (s.addFile s!"<host:{name}>" "").2, file := s.files.length }
  let draft := items.foldl HostDraft.add start
  let m : Module :=
    ⟨⟨name, { Span.dummy with file := s.files.length }⟩, draft.imports, draft.decls, s.files.length⟩
  have hkept : start.Kept draft := HostDraft.kept_foldl items start
  have hrun : s.addExternal name items =
      if draft.spent then (.error .spent, draft.session)
      else if draft.errors.isEmpty then
        (.ok (), { draft.session with externals := draft.session.externals ++ [m] })
      else (.error (.syntactic s!"<host:{name}>" draft.errors), draft.session) := rfl
  have hholds : draft.Holds items := (HostDraft.Holds.start _ _).foldl items
  cases hholds with
  | all hall hlisted herrors hspent =>
      have hok : s.addExternal name items =
          (.ok (), { draft.session with externals := draft.session.externals ++ [m] }) := by
        simp [hrun, hspent, herrors]
      rw [hok]
      refine ⟨iff_of_true rfl hall, hkept.modules, .inl ⟨rfl, m, ?_, rfl, hlisted.imports, hlisted.decls⟩⟩
      exact congrArg (· ++ [m]) hkept.externals
  | error hany herrors hspent =>
      have hfailed : s.addExternal name items =
          (.error (.syntactic s!"<host:{name}>" draft.errors), draft.session) := by
        simp [hrun, hspent, herrors]
      rw [hfailed]
      exact ⟨iff_of_false nofun hany, hkept.modules, .inr ⟨⟨_, herrors, rfl⟩, hkept.externals⟩⟩

end Stela
