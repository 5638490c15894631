import Stela.Proofs.Syntax.Numbering
import Stela.Proofs.Syntax.WellFormed
import Stela.Proofs.Token.Evaluation
import Stela.Session.Host

/-!
# Sessions that are built

A session starts empty, and sources and modules of the host are added to it,
with or without success. The nodes of all its modules are different, since each
text is numbered from where the count stood before it, and so are the
declarations of the host. What the parser keeps to in each text, integers that are
in range and mutable parameters where they are passed by reference, holds of the
whole session, since a module of the host has no bodies.
-/

namespace Stela

open NodeKey

/-- The sessions that can be built. -/
inductive Session.Built : Session → Prop
  | empty : Built .empty
  | source {session} (h : Built session) (name text : String) :
    Built (session.addSource name text).2
  | external {session} (h : Built session) (name : String) (items : List HostItem) :
    Built (session.addExternal name items).2

/-- The session with one more text, which it keeps no module of if the text cannot be read. -/
def Session.withSource (s : Session) (name text : String) : Session := (s.addSource name text).2

-- For a session that is defined by its texts `Built.source` would have the kernel parse the last one,
-- as it reduces the pair before the name of the session. This definition unfolds with the name.
theorem Session.Built.withSource {s : Session} (h : s.Built) (name text : String) :
    (s.withSource name text).Built :=
  h.source name text

/-! ## Texts as characters -/

/-- Adds a text that was cut into tokens. -/
def Session.addTokens (s : Session) (name text : String) (tokens : FileId → List Token) :
    Except LoadError Nat × Session :=
  let (file, s) := s.addFile name text
  let start := { ParseState.start (tokens file) s.nodes with arena := [] }
  let (result, ast) :=
    (Parse.moduleDecl file (Path.stem name) start.stepBound start).settle { nodes := s.nodes }
  match (result, ast.nodes) with
  | (.ok m, nodes) =>
    (.ok s.modules.length, { s with nodes := nodes, modules := s.modules ++ [m] })
  | (.error (.errors diagnostics), nodes) =>
    (.error (.syntactic name diagnostics), { s with nodes := nodes })
  | (.error .spent, nodes) => (.error .spent, { s with nodes := nodes })

theorem Session.withSource_eq (s : Session) (name text : String) :
    s.withSource name text = (s.addTokens name text (lex text)).2 := rfl

-- A literal is its list of characters to the kernel, and reading it as a string would have the kernel
-- encode the characters and decode them again, in time that grows with the square of their number.
theorem Session.withSource_ofList (s : Session) (name : String) (cs : List Char) :
    s.withSource name (String.ofList cs) = (s.addTokens name (String.ofList cs) fun file =>
      Lexer.cut ⟨(Lines.startsAfter 0 cs).toArray⟩ file cs.length 0 cs).2 := by
  rw [withSource_eq, lex_ofList]

/-! ## Parts of a session -/

/-- The expressions and functions of all modules of a session. -/
def Session.items (s : Session) : List Occurrence := (s.externals ++ s.modules).flatMap Module.items

/-- The keys of the nodes of all modules of a session. -/
def Session.keys (s : Session) : List NodeKey := (s.externals ++ s.modules).flatMap Module.keys

/-- The first values of the variables of all modules. -/
def Session.values (s : Session) : List Expr := (s.externals ++ s.modules).flatMap Module.values

/-! ## Modules of the host -/

/-- A declaration of the host: it holds no expressions, and its functions have no bodies. -/
def Decl.Hosted (decl : Decl) : Prop :=
  ∀ item ∈ decl.items, ∃ func, item = .func func ∧ func.body = none

namespace Decl.Hosted

variable {decl : Decl} (h : decl.Hosted)

include h

theorem formed : AllFormed decl.items := by
  intro item hitem
  obtain ⟨func, rfl, hbody⟩ := h item hitem
  simp [Occurrence.WellFormed, Occurrence.params, hbody, passing_nil]

end Decl.Hosted

/-- What holds around a step of the construction of a host module: nothing of the session but the
counts and files changes, and no body is declared. -/
structure HostDraft.Kept (d d' : HostDraft) : Prop where
  modules : d'.session.modules = d.session.modules
  externals : d'.session.externals = d.session.externals
  count : ∀ k, d.session.nodes.of k ≤ d'.session.nodes.of k
  decls : (∀ decl ∈ d.decls, decl.Hosted) → ∀ decl ∈ d'.decls, decl.Hosted

theorem HostDraft.Kept.refl (d : HostDraft) : d.Kept d := ⟨rfl, rfl, fun _ => Nat.le_refl _, fun h => h⟩

theorem HostDraft.Kept.trans {d d' d'' : HostDraft} (h : d.Kept d') (h' : d'.Kept d'') : d.Kept d'' :=
  ⟨h'.modules.trans h.modules, h'.externals.trans h.externals, fun k => Nat.le_trans (h.count k) (h'.count k),
    fun hd => h'.decls (h.decls hd)⟩

namespace HostBuild

variable {α β : Type} {p : HostBuild α} {f : α → HostBuild β}

/-- Every run of the step keeps the session. -/
def Keeps (p : HostBuild α) : Prop := ∀ d : HostDraft, d.Kept (p.run.run d).2

theorem Keeps.pure (a : α) : Keeps (Pure.pure a) := fun d => .refl d

theorem run_bind (p : HostBuild α) (f : α → HostBuild β) (d : HostDraft) :
    (∃ a, (p.run.run d).1 = some a ∧ (p >>= f).run.run d = (f a).run.run (p.run.run d).2) ∨
      (p.run.run d).1 = none ∧ (p >>= f).run.run d = (none, (p.run.run d).2) := by
  simp only [OptionT.run_bind, Option.elimM, StateT.run_bind]
  cases hrun : p.run.run d with
  | mk result d' =>
      cases result with
      | none =>
          exact .inr ⟨rfl, rfl⟩
      | some a =>
          exact .inl ⟨a, rfl, rfl⟩

theorem Keeps.bind (h : Keeps p) (hf : ∀ a, Keeps (f a)) : Keeps (p >>= f) := by
  intro d
  obtain ⟨a, -, heq⟩ | ⟨-, heq⟩ := run_bind p f d
  · rw [heq]
    exact (h d).trans (hf a _)
  · rw [heq]
    exact h d

/-- A step that only looks at the draft. -/
theorem keeps_of_run {p : HostBuild α} (h : ∀ d, (p.run.run d).2 = d) : Keeps p :=
  fun d => (h d).symm ▸ .refl d

theorem keeps_place : Keeps place := keeps_of_run fun _ => rfl

theorem keeps_ident (name : String) : Keeps (ident name) := keeps_place.bind fun _ => .pure _

theorem run_get (f : HostDraft → HostBuild α) (d : HostDraft) :
    (get >>= f : HostBuild α).run.run d = (f d).run.run d := rfl

theorem keeps_type (text : String) : Keeps (type text) := by
  intro d
  have hcount (k : NodeKind) := (numbered_parseType k text d.session.files.length d.session.nodes).1
  unfold type
  rw [run_get]
  simp only [Session.addFile]
  split <;> exact ⟨rfl, rfl, hcount, fun h => h⟩

theorem keeps_params (parameters : List HostParam) : Keeps (params parameters) := by
  induction parameters with
  | nil => exact .pure _
  | cons param rest ih =>
      exact (keeps_type _).bind fun _ => (keeps_ident _).bind fun _ => ih.bind fun _ => .pure _

theorem keeps_fields (layout : List HostFieldText) : Keeps (fields layout) := by
  induction layout with
  | nil => exact .pure _
  | cons field rest ih =>
      exact (keeps_type _).bind fun _ => (keeps_ident _).bind fun _ => ih.bind fun _ => .pure _

theorem keeps_declare {decl : Node → Decl} (hdecl : ∀ node, (decl node).Hosted) :
    Keeps (declare decl) := by
  refine keeps_place.bind fun span d => ⟨rfl, rfl, fun k => ?_, fun hd other hother => ?_⟩
  · cases k
    case decl => exact Nat.le_succ _
    all_goals exact Nat.le_refl _
  rcases List.mem_append.mp hother with hold | hnew
  · exact hd other hold
  · exact List.mem_singleton.mp hnew ▸ hdecl _

theorem keeps_item (item : HostItem) : Keeps (HostBuild.item item) := by
  cases item with
  | importModule name =>
      exact (keeps_ident name).bind fun _ d => ⟨rfl, rfl, fun _ => Nat.le_refl _, fun h => h⟩
  | func name parameters result =>
      have finish (parameters : List Param) (ret : Option TypeExpr) : Keeps (do
          let ret ← (Pure.pure ret : HostBuild (Option TypeExpr))
          let name ← ident name
          declare fun node => .func {
            node, name, sig := ⟨parameters, ret⟩, body := none, kind := .free,
            access := .everyone }) :=
        (Keeps.pure ret).bind fun _ => (keeps_ident name).bind fun _ => keeps_declare fun node => by
          simp [Decl.Hosted, Decl.items, FuncDecl.items_eq, Stmt.optionItems]
      refine (keeps_params parameters).bind fun parameters => ?_
      cases result with
      | none => exact finish parameters none
      | some text => exact (keeps_type text).bind fun type => finish parameters (some type)
  | hostType name size align layout =>
      exact (keeps_fields layout).bind fun _ => (keeps_ident name).bind fun _ =>
        keeps_declare fun node => by simp [Decl.Hosted, Decl.items]
  | aliasType name target strong =>
      exact (keeps_type target).bind fun _ => (keeps_ident name).bind fun _ =>
        keeps_declare fun node => by simp [Decl.Hosted, Decl.items]

/-! ### Numbers of host declarations -/

/-- The step declares nothing, and what it finds is as `post` says. -/
def Finds (p : HostBuild α) (d : HostDraft) (post : α → HostDraft → Prop) : Prop :=
  (p.run.run d).2.decls = d.decls ∧ ∀ a, (p.run.run d).1 = some a → post a (p.run.run d).2

/-- A step that declares nothing and reads nodes with the given keys. -/
def Reads (p : HostBuild α) (keys : α → List NodeKey) : Prop :=
  ∀ d, p.Finds d fun a d' => ∀ k,
    Numbered (d.session.nodes.of k) (d'.session.nodes.of k) (ids k (keys a))

/-- A step that puts all nodes that were read into declarations, or gives them up. -/
def Declares (p : HostBuild α) (keys : List NodeKey) : Prop :=
  ∀ (d : HostDraft) (first : Nat) (k : NodeKind),
    Numbered first (d.session.nodes.of k) (ids k (d.decls.flatMap Decl.keys ++ keys)) →
    Numbered first ((p.run.run d).2.session.nodes.of k)
      (ids k ((p.run.run d).2.decls.flatMap Decl.keys))

theorem Finds.pure {d : HostDraft} {a : α} {post : α → HostDraft → Prop} (h : post a d) :
    Finds (Pure.pure a) d post := ⟨rfl, fun _ ha => Option.some.inj ha ▸ h⟩

theorem Finds.bind {d : HostDraft} {post : α → HostDraft → Prop} {post' : β → HostDraft → Prop}
    (h : p.Finds d post) (hf : ∀ a d', post a d' → (f a).Finds d' post') :
    (p >>= f).Finds d post' := by
  obtain ⟨a, ha, heq⟩ | ⟨-, heq⟩ := run_bind p f d
  · obtain ⟨hdecls, hpost⟩ := hf a _ (h.2 a ha)
    exact ⟨heq ▸ hdecls.trans h.1, heq ▸ hpost⟩
  · exact ⟨heq ▸ h.1, heq ▸ fun _ hb => nomatch hb⟩

theorem finds_ident (name : String) (d : HostDraft) : (ident name).Finds d fun _ d' => d' = d :=
  ⟨rfl, fun _ _ => rfl⟩

theorem reads_type (text : String) : Reads (type text) TypeExpr.keys := by
  intro d
  have hparse (k : NodeKind) :=
    (numbered_parseType k text d.session.files.length d.session.nodes).2
  unfold Finds type
  rw [run_get]
  simp only [Session.addFile]
  split
  · next type heq =>
    refine ⟨rfl, fun a ha k => ?_⟩
    obtain rfl := Option.some.inj ha
    exact hparse k _ heq
  · exact ⟨rfl, fun _ ha => nomatch ha⟩
  · exact ⟨rfl, fun _ ha => nomatch ha⟩

theorem reads_params (parameters : List HostParam) :
    Reads (params parameters) fun params => params.flatMap fun param => param.type.keys := by
  induction parameters with
  | nil => exact fun _ => .pure fun _ => .nil (Nat.le_refl _)
  | cons param rest ih =>
      intro d
      refine (reads_type _ d).bind fun type d₁ htype => ?_
      refine (finds_ident _ d₁).bind fun name _ heq => heq ▸ ?_
      refine (ih d₁).bind fun rest d₂ hrest => .pure fun k => ?_
      simpa using (htype k).append (hrest k) (Nat.le_refl _)

theorem reads_fields (layout : List HostFieldText) :
    Reads (fields layout) fun fields => fields.flatMap fun field => field.type.keys := by
  induction layout with
  | nil => exact fun _ => .pure fun _ => .nil (Nat.le_refl _)
  | cons field rest ih =>
      intro d
      refine (reads_type _ d).bind fun type d₁ htype => ?_
      refine (finds_ident _ d₁).bind fun name _ heq => heq ▸ ?_
      refine (ih d₁).bind fun rest d₂ hrest => .pure fun k => ?_
      simpa using (htype k).append (hrest k) (Nat.le_refl _)

theorem Reads.declares {keys : List NodeKey} {keysOf : α → List NodeKey} (h : Reads p keysOf)
    (hkeeps : Keeps p) (hf : ∀ a, Declares (f a) (keys ++ keysOf a)) : Declares (p >>= f) keys := by
  intro d first k hd
  obtain ⟨hdecls, hread⟩ := h d
  obtain ⟨a, ha, heq⟩ | ⟨-, heq⟩ := run_bind p f d
  · rw [heq]
    refine hf a _ first k ?_
    rw [hdecls, ← List.append_assoc, ids_append]
    exact hd.append (hread a ha k) (Nat.le_refl _)
  · rw [heq, hdecls]
    rw [ids_append] at hd
    exact hd.of_append.widen (Nat.le_refl _) ((hkeeps d).count k)

theorem declares_ident {keys : List NodeKey} {name : String} {f : Ident → HostBuild Unit}
    (hf : ∀ name, Declares (f name) keys) : Declares (ident name >>= f) keys :=
  Reads.declares (fun _ => ⟨rfl, fun _ _ _ => .nil (Nat.le_refl _)⟩) (keeps_ident name)
    fun name => (List.append_nil keys).symm ▸ hf name

theorem declares_declare {decl : Node → Decl} {keys : List NodeKey}
    (hdecl : ∀ node k, ids k (decl node).keys = ids k (keys ++ [NodeKey.node .decl node.id])) :
    Declares (declare decl) keys := by
  intro d first k hd
  have hrun : ids k (((declare decl).run.run d).2.decls.flatMap Decl.keys) =
      ids k (d.decls.flatMap Decl.keys ++ keys ++
        [NodeKey.node .decl (d.session.nodes.of .decl)]) := by
    show ids k ((d.decls ++ [decl _]).flatMap Decl.keys) = _
    rw [List.flatMap_append, List.flatMap_singleton, ids_append, hdecl, ← ids_append,
      List.append_assoc]
    rfl
  rw [hrun]
  have hnodes : ((declare decl).run.run d).2.session.nodes.of k =
      d.session.nodes.of k + if NodeKind.decl = k then 1 else 0 := by
    cases k <;> rfl
  rw [hnodes]
  exact hd.push (Nat.le_refl _) .decl

theorem declares_item (item : HostItem) : Declares (HostBuild.item item) [] := by
  cases item with
  | importModule name =>
      exact declares_ident fun name d first k hd => (List.append_nil (d.decls.flatMap _)) ▸ hd
  | func name parameters result =>
      have finish (parameters : List Param) (ret : Option TypeExpr) : Declares (do
          let ret ← (Pure.pure ret : HostBuild (Option TypeExpr))
          let name ← ident name
          declare fun node => .func {
            node, name, sig := ⟨parameters, ret⟩, body := none, kind := .free,
            access := .everyone }) ((parameters.flatMap fun param => param.type.keys) ++
              TypeExpr.optionKeys ret) := by
        rw [pure_bind]
        refine declares_ident fun name => declares_declare fun node k => ?_
        simp [Decl.keys, FuncDecl.keys, Signature.typeKeys, Stmt.optionKeys]
      refine (reads_params parameters).declares (keeps_params parameters) fun parameters => ?_
      cases result with
      | none => simpa [TypeExpr.optionKeys] using finish parameters none
      | some text =>
          refine (reads_type text).declares (keeps_type text) fun type => ?_
          simpa [TypeExpr.optionKeys] using finish parameters (some type)
  | hostType name size align layout =>
      refine (reads_fields layout).declares (keeps_fields layout) fun layout => ?_
      exact declares_ident fun name => declares_declare fun _ _ => rfl
  | aliasType name target strong =>
      refine (reads_type target).declares (keeps_type target) fun target => ?_
      exact declares_ident fun name => declares_declare fun _ _ => rfl

end HostBuild

/-- The draft of a host module after its items. -/
theorem HostDraft.kept_foldl (items : List HostItem) (d : HostDraft) :
    d.Kept (items.foldl HostDraft.add d) := by
  induction items generalizing d with
  | nil => exact .refl d
  | cons item rest ih => exact (HostBuild.keeps_item item d).trans (ih _)

theorem HostDraft.numbered_foldl {first : Nat} {k : NodeKind} (items : List HostItem) (d : HostDraft)
    (hd : Numbered first (d.session.nodes.of k) (ids k (d.decls.flatMap Decl.keys))) :
    Numbered first ((items.foldl HostDraft.add d).session.nodes.of k)
      (ids k ((items.foldl HostDraft.add d).decls.flatMap Decl.keys)) := by
  induction items generalizing d with
  | nil => exact hd
  | cons item rest ih =>
      exact ih _ (HostBuild.declares_item item d first k (by rwa [List.append_nil]))

namespace Session

/-! ## Numbers in a session -/

/-- The nodes of all modules are different and numbered below the count. -/
def Numbered (s : Session) : Prop :=
  ∀ k, Stela.Numbered 0 (s.nodes.of k) (ids k s.keys)

theorem Numbered.addSource {s : Session} (h : s.Numbered) (name text : String) :
    (s.addSource name text).2.Numbered := by
  intro k
  have hparse := numbered_parseModule k text s.files.length (Path.stem name) s.nodes
  unfold Session.addSource Session.addFile
  dsimp only
  split
  · next m nodes heq =>
    rw [heq] at hparse
    have hnew := (h k).append (hparse.2 m rfl) (Nat.le_refl _)
    simpa [keys] using hnew
  · next diagnostics nodes heq =>
    rw [heq] at hparse
    exact (h k).widen (Nat.le_refl _) hparse.1
  · next nodes heq =>
    rw [heq] at hparse
    exact (h k).widen (Nat.le_refl _) hparse.1

theorem Numbered.addExternal {s : Session} (h : s.Numbered) (name : String) (items : List HostItem) :
    (s.addExternal name items).2.Numbered := by
  have hkept (file : FileId) (fileName : String) : Numbered (items.foldl HostDraft.add
      { session := (s.addFile fileName "").2, file := file }).session := by
    intro k
    have hkept := HostDraft.kept_foldl items { session := (s.addFile fileName "").2, file := file }
    rw [keys, hkept.externals, hkept.modules]
    exact (h k).widen (Nat.le_refl _) (hkept.count k)
  unfold Session.addExternal
  dsimp only
  split
  · exact hkept _ _
  · split
    · intro k
      have hkept := HostDraft.kept_foldl items
        { session := (s.addFile s!"<host:{name}>" "").2, file := (s.addFile s!"<host:{name}>" "").1 }
      have hnew := HostDraft.numbered_foldl items
        { session := (s.addFile s!"<host:{name}>" "").2, file := (s.addFile s!"<host:{name}>" "").1 }
        (.nil (Nat.le_refl (s.nodes.of k)))
      refine ((h k).append hnew (Nat.le_refl _)).perm ?_
      rw [← ids_append, keys, keys, hkept.externals, hkept.modules]
      refine List.Perm.filterMap _ ?_
      simp only [List.flatMap_append, List.flatMap_singleton, List.append_assoc]
      exact List.Perm.append_left _ List.perm_append_comm
    · exact hkept _ _

theorem numbered_of_built {s : Session} (h : s.Built) : s.Numbered := by
  induction h with
  | empty => exact fun k => .nil (Nat.zero_le _)
  | source _ name text ih => exact ih.addSource name text
  | external _ name items ih => exact ih.addExternal name items

/-- The expressions of a session that was built are different. -/
theorem nodup_ids {s : Session} (h : s.Built) : (Occurrence.ids s.items).Nodup := by
  have hids : Occurrence.ids s.items = ids .expr s.keys := by
    rw [items, Occurrence.ids, List.filterMap_flatMap, keys, ids_flatMap]
    exact congrArg (s.externals ++ s.modules).flatMap (funext fun m => m.ids_keys.symm)
  exact hids ▸ (numbered_of_built h .expr).distinct

/-- The nodes of a session that was built are different. -/
theorem nodup_keys {s : Session} (h : s.Built) : s.keys.Nodup := by
  refine nodup_of_ids (fun k => (numbered_of_built h k).distinct) ?_
  have hpaired : Paired s.keys := paired_flatMap fun m _ => m.paired
  exact (numbered_of_built h .type).distinct.sublist hpaired

/-- The declarations of a session that was built are numbered below the count. -/
theorem decl_lt {s : Session} (h : s.Built) {id : Nat} (hid : NodeKey.node .decl id ∈ s.keys) :
    id < s.nodes.decls :=
  ((numbered_of_built h .decl).bounds id (mem_ids.mpr hid)).2

/-! ## What was read -/

theorem formed_items {s : Session} :
    AllFormed s.items ↔ ∀ m ∈ s.externals ++ s.modules, AllFormed m.items := by
  simp only [AllFormed, Session.items, List.mem_flatMap]
  exact ⟨fun h m hm item hitem => h item ⟨m, hm, hitem⟩,
    fun h item hitem => hitem.elim fun m hm => h m hm.1 item hm.2⟩

theorem formed_addSource {s : Session} (h : AllFormed s.items) (name text : String) :
    AllFormed (s.addSource name text).2.items := by
  unfold Session.addSource Session.addFile
  dsimp only
  split
  · next m nodes heq =>
    have hnew : AllFormed m.items := formed_parseModule (congrArg Prod.fst heq)
    refine formed_items.mpr fun other hother => ?_
    rw [← List.append_assoc] at hother
    rcases List.mem_append.mp hother with hold | hother
    · exact formed_items.mp h other hold
    · exact List.mem_singleton.mp hother ▸ hnew
  · exact h
  · exact h

theorem formed_addExternal {s : Session} (h : AllFormed s.items) (name : String)
    (items : List HostItem) : AllFormed (s.addExternal name items).2.items := by
  have hkept (file : FileId) (fileName : String) : AllFormed (items.foldl HostDraft.add
      { session := (s.addFile fileName "").2, file := file }).session.items := by
    have hkept := HostDraft.kept_foldl items { session := (s.addFile fileName "").2, file := file }
    rw [Session.items, hkept.externals, hkept.modules]
    exact h
  unfold Session.addExternal
  dsimp only
  split
  · exact hkept _ _
  · split
    · refine formed_items.mpr fun other hother => ?_
      rw [List.append_assoc] at hother
      rcases List.mem_append.mp hother with hother | hother
      · exact formed_items.mp (hkept _ _) other (List.mem_append_left _ hother)
      · rcases List.mem_append.mp hother with hnew | hother
        · rw [List.mem_singleton.mp hnew]
          intro item hitem
          obtain ⟨decl, hdecl, hitem⟩ := List.mem_flatMap.mp hitem
          exact ((HostDraft.kept_foldl items _).decls (by simp) decl hdecl).formed item hitem
        · exact formed_items.mp (hkept _ _) other (List.mem_append_right _ hother)
    · exact hkept _ _

theorem formed_of_built {s : Session} (h : s.Built) : AllFormed s.items := by
  induction h with
  | empty => exact .nil
  | source _ name text ih => exact formed_addSource ih name text
  | external _ name items ih => exact formed_addExternal ih name items

/-- In a session that was built, parameters that are passed by reference are mutable. -/
theorem passing_of_built {s : Session} (h : s.Built) : AllPassing s.items :=
  (formed_of_built h).passing

end Session

end Stela
