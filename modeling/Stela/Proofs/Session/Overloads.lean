import Stela.Proofs.Check.Failing
import Stela.Proofs.Check.Finding
import Stela.Proofs.Session.Placeholders
import Stela.Proofs.Types.Stability

/-!
# Overloads

A name that is bound more than once in a scope is bound to functions that do not
conflict. Conflicts are looked for when a function is declared. Every alias is
resolved by then, so the parameters of two functions compare at the end as they
did at that moment. Functions that take the same arguments have parameters of
the same types; only how these are passed can tell them apart.
-/

namespace Stela

open Check

namespace Tables

variable {t t' : Tables} {f g : SymbolId} {args : List ExprType}

/-! ## Conflicts -/

/-- Parameters of the same types that are passed alike. -/
def Clashes (t : Tables) (ps qs : List ExprType) : Prop :=
  List.Forall₂ (fun p q => p.refKind = q.refKind ∧ t.same p.type q.type = true) ps qs

theorem conflicts_eq_false_iff : t.conflicts f g = false ↔ ∃ a b,
    t.symbols.func? f = some a ∧ t.symbols.func? g = some b ∧ ¬ t.Clashes a.params b.params := by
  simp only [SymbolTable.func?_eq_some, Clashes, List.forall₂_iff_zip]
  unfold conflicts
  split
  · next a b hf hg =>
    rw [hf, hg, ← Bool.not_eq_true]
    simp [Bool.and_eq_true, List.all_eq_true]
  · next hnot =>
    refine iff_of_false (by simp) ?_
    rintro ⟨a, b, hf, hg, -⟩
    exact hnot a b hf hg

theorem Clashes.symm (ht : t.Sound) {ps qs : List ExprType} (h : t.Clashes ps qs) :
    t.Clashes qs ps :=
  h.flip.imp fun _ _ hpq => ⟨hpq.1.symm, ht.same_symm hpq.2⟩

theorem conflicts_symm (ht : t.Sound) (h : t.conflicts f g = false) : t.conflicts g f = false := by
  obtain ⟨a, b, hf, hg, hnot⟩ := conflicts_eq_false_iff.mp h
  exact conflicts_eq_false_iff.mpr ⟨b, a, hg, hf, fun hclash => hnot (hclash.symm ht)⟩

/-- Functions that are told apart in complete tables stay so. -/
theorem conflicts_of_contained (hs : t.Sound) (hs' : t'.Sound) (hcomplete : t.Complete)
    (hc : t.Contained t') (h : t.conflicts f g = false) : t'.conflicts f g = false := by
  obtain ⟨a, b, hf, hg, hnot⟩ := conflicts_eq_false_iff.mp h
  obtain ⟨a', hf', hbecomes⟩ := hc.func hf
  obtain ⟨b', hg', hbecomes'⟩ := hc.func hg
  refine conflicts_eq_false_iff.mpr ⟨a', b', hf', hg', fun hclash => hnot ?_⟩
  rw [hbecomes.params, hbecomes'.params] at hclash
  obtain ⟨hlength, hall⟩ := List.forall₂_iff_zip.mp hclash
  refine List.forall₂_iff_zip.mpr ⟨hlength, fun {p q} hpq => ?_⟩
  obtain ⟨hp, hq⟩ := List.of_mem_zip hpq
  rw [← same_eq_of_contained hs hs' hcomplete hc
    ((hs.kinds f _ (SymbolTable.func?_eq_some.mp hf)).1 p hp)
    ((hs.kinds g _ (SymbolTable.func?_eq_some.mp hg)).1 q hq)]
  exact hall hpq

theorem ToldApart.conflicts {bound : Nat} (h : t.ToldApart bound f g) (ht : t.Sound) :
    t.conflicts f g = false ∧ t.conflicts g f = false := by
  obtain ⟨u, hu, hcomplete, -, hc, hconflicts⟩ := h
  have hgf := conflicts_of_contained hu ht hcomplete hc hconflicts
  exact ⟨conflicts_symm ht hgf, hgf⟩

/-- Only a function becomes a function. -/
theorem Contained.func_of_kind? (hc : t.Contained t') {kind : SymbolKind}
    (hkind : t.symbols.kind? f = some kind) (hfunc : (t'.symbols.func? f).isSome) :
    ∃ info, kind = .func info := by
  obtain ⟨info', hinfo'⟩ := Option.isSome_iff_exists.mp hfunc
  obtain ⟨⟨kind', hkind', hbecomes⟩, -⟩ := hc.symbols f kind hkind
  rw [SymbolTable.func?_eq_some, hkind'] at hinfo'
  obtain rfl := Option.some.inj hinfo'
  cases hbecomes with
  | refl => exact ⟨info', rfl⟩
  | func _ => exact ⟨_, rfl⟩

/-! ## Arguments -/

theorem accepts_iff {params : List (RefKind × TypeId)} : t.accepts params args = true ↔
    List.Forall₂ (fun p a => (p.1 = .value ∨ a.isAssignable = true) ∧ t.same p.2 a.type = true)
      params args := by
  simp [accepts, List.forall₂_iff_zip]

/-- Parameters that take the same arguments have the same types. -/
theorem same_of_accepts (ht : t.Sound) {ps qs : List ExprType}
    (hps : t.accepts (ps.map fun p => (p.refKind, p.type)) args = true)
    (hqs : t.accepts (qs.map fun q => (q.refKind, q.type)) args = true) :
    List.Forall₂ (fun p q => t.same p.type q.type = true) ps qs := by
  rw [accepts_iff, List.forall₂_map_left_iff] at hps hqs
  induction hps generalizing qs with
  | nil =>
      cases hqs
      exact .nil
  | cons hpa _ ih =>
      obtain ⟨q, rest, hqa, hrest, rfl⟩ := List.forall₂_cons_right_iff.mp hqs
      exact .cons (ht.same_trans hpa.2 (ht.same_symm hqa.2)) (ih hrest)

/-- Functions that do not conflict and take the same arguments differ in how one is passed. -/
theorem passing_ne_of_accepts (ht : t.Sound) (h : t.conflicts f g = false) {a b : FuncInfo}
    (hf : t.symbols.func? f = some a) (hg : t.symbols.func? g = some b)
    (ha : t.accepts (a.params.map fun p => (p.refKind, p.type)) args = true)
    (hb : t.accepts (b.params.map fun p => (p.refKind, p.type)) args = true) :
    ∃ p ∈ a.params.zip b.params, p.1.refKind ≠ p.2.refKind := by
  obtain ⟨_, _, hf', hg', hnot⟩ := conflicts_eq_false_iff.mp h
  obtain rfl := Option.some.inj (hf.symm.trans hf')
  obtain rfl := Option.some.inj (hg.symm.trans hg')
  obtain ⟨hlength, hsame⟩ := List.forall₂_iff_zip.mp (same_of_accepts ht ha hb)
  by_contra hall
  refine hnot (List.forall₂_iff_zip.mpr ⟨hlength, fun {p q} hpq => ⟨?_, hsame hpq⟩⟩)
  by_contra hne
  exact hall ⟨(p, q), hpq, hne⟩

end Tables

/-! ## What a name is bound to -/

namespace CheckState

variable {s : CheckState} {bound : Nat}

/-- No two symbols that a name is bound to in a scope conflict. -/
theorem Apart.entries (h : s.Apart bound) (hs : s.tables.Sound) (scope : ScopeId) (name : String) :
    (s.scopes.entries scope name).Pairwise fun f g =>
      s.tables.conflicts f g = false ∧ s.tables.conflicts g f = false := by
  rw [ScopeGraph.entries_eq_rows, List.pairwise_map, List.pairwise_filter]
  refine (h scope).imp fun htold hrow hrow' => (htold ?_).conflicts hs
  exact (beq_iff_eq.mp hrow).trans (beq_iff_eq.mp hrow').symm

theorem Apart.conflicts_eq_false (h : s.Apart bound) (hs : s.tables.Sound) {scope : ScopeId}
    {name : String} {f g : SymbolId} (hf : f ∈ s.scopes.entries scope name)
    (hg : g ∈ s.scopes.entries scope name) (hne : f ≠ g) : s.tables.conflicts f g = false := by
  have : Std.Symm fun f g => s.tables.conflicts f g = false ∧ s.tables.conflicts g f = false :=
    ⟨fun _ _ hboth => hboth.symm⟩
  exact ((h.entries hs scope name).forall hf hg hne).1

end CheckState

/-- Of several symbols that do not conflict each is a function. -/
theorem Tables.isSome_func_of_pairwise {t : Tables} {entries : List SymbolId}
    (h : entries.Pairwise fun f g => t.conflicts f g = false ∧ t.conflicts g f = false)
    (hlength : 2 ≤ entries.length) : ∀ f ∈ entries, (t.symbols.func? f).isSome := by
  have hboth {f g : SymbolId} (hconflicts : t.conflicts f g = false) :
      (t.symbols.func? f).isSome ∧ (t.symbols.func? g).isSome := by
    obtain ⟨a, b, hf, hg, -⟩ := conflicts_eq_false_iff.mp hconflicts
    simp [hf, hg]
  match entries, h with
  | [], _ => simp
  | [_], _ => simp at hlength
  | f :: g :: rest, h =>
    obtain ⟨hfirst, -⟩ := List.pairwise_cons.mp h
    intro k hk
    rcases List.mem_cons.mp hk with rfl | hk
    · exact (hboth (hfirst g (by simp)).1).1
    · exact (hboth (hfirst k hk).1).2

/-! ## Calls -/

/-- More than one candidate of a call accepts the arguments. -/
def CheckFailure.Ambiguous (failure : CheckFailure) : Prop :=
  ∃ error name args candidates, failure = .error error ∧
    error.kind = .noMatchingOverload name args candidates ∧ 1 < candidates

namespace Check

variable {settings : Settings} {s s' : CheckState} {t : Tables} {args : List ExprType}

/-- Of candidates that are functions those are left that accept the arguments. -/
theorem accepts_of_survivors (candidates : List SymbolId) (hc : s.tables.Contained t)
    (hfuncs : ∀ f ∈ candidates, (t.symbols.func? f).isSome) {found : Nat × List SymbolId}
    (h : (survivors args candidates).Gives settings s found s') :
    ∀ f ∈ found.2, ∃ info, s.tables.symbols.func? f = some info ∧
      s.tables.accepts (info.params.map fun p => (p.refKind, p.type)) args = true := by
  induction candidates generalizing found s' with
  | nil =>
      obtain ⟨rfl, -⟩ := gives_pure.mp h
      simp
  | cons candidate rest ih =>
      have hrest : ∀ f ∈ rest, (t.symbols.func? f).isSome := fun f hf =>
        hfuncs f (List.mem_cons_of_mem _ hf)
      simp only [survivors, candidateParams, gives_bind, gives_kindOf] at h
      obtain ⟨params, s₁, ⟨kind, _, ⟨hkind, rfl⟩, hparams⟩, h⟩ := h
      obtain ⟨info, rfl⟩ := hc.func_of_kind? hkind (hfuncs candidate (by simp))
      obtain ⟨rfl, rfl⟩ := gives_pure.mp hparams
      simp only [gives_bind, gives_accepts, gives_pure] at h
      obtain ⟨_, _, ⟨⟨-, rfl⟩, rfl⟩, ⟨callable, chosen⟩, s₂, hfound, rfl, rfl⟩ := h
      intro f hf
      dsimp only at hf
      split at hf
      · next haccepts =>
        rcases List.mem_cons.mp hf with rfl | hf
        · exact ⟨info, SymbolTable.func?_eq_some.mpr hkind, haccepts⟩
        · exact ih hrest hfound f hf
      · exact ih hrest hfound f hf

end Check

namespace CheckState

variable {final s s' : CheckState} {settings : Settings} {scope : ScopeId} {name : String}
  {candidates : List SymbolId} {args : List ExprType}

/-- Of candidates from one scope that take no references at most one accepts the arguments, in every
state on the way to the end. -/
theorem Idle.length_survivors_le (h : final.Idle) (hs : s.tables.Sound)
    (hc : s.tables.Contained final.tables)
    (hscope : candidates.Sublist (final.scopes.entries scope name))
    (hvalue : ∀ f ∈ candidates, ∀ info, final.tables.symbols.func? f = some info →
      ∀ p ∈ info.params, p.refKind = .value)
    {found : Nat × List SymbolId} (hfound : (survivors args candidates).Gives settings s found s') :
    found.2.length ≤ 1 := by
  have hsublist := sublist_of_survivors candidates hfound
  have hapart := h.apart.entries h.sound.tables scope name
  by_contra hmany
  have hlength : 2 ≤ (final.scopes.entries scope name).length := by
    have := (hsublist.trans hscope).length_le
    omega
  have hfuncs := Tables.isSome_func_of_pairwise hapart hlength
  have haccepts := accepts_of_survivors candidates hc (fun f hf => hfuncs f (hscope.subset hf)) hfound
  have hpairwise := hapart.sublist (hsublist.trans hscope)
  obtain ⟨f, g, rest, hcons⟩ : ∃ f g rest, found.2 = f :: g :: rest := by
    rcases hlist : found.2 with _ | ⟨f, _ | ⟨g, rest⟩⟩
    · simp [hlist] at hmany
    · simp [hlist] at hmany
    · exact ⟨f, g, rest, rfl⟩
  rw [hcons] at hpairwise haccepts hsublist
  -- Both accept the arguments at the end too, where their parameters are the same.
  have hfinal (k : SymbolId) (hk : k ∈ f :: g :: rest) : ∃ info,
      final.tables.symbols.func? k = some info ∧ (∀ p ∈ info.params, p.refKind = .value) ∧
        final.tables.accepts (info.params.map fun p => (p.refKind, p.type)) args = true := by
    obtain ⟨info, hinfo, haccept⟩ := haccepts k hk
    obtain ⟨info', hinfo', hbecomes⟩ := hc.func hinfo
    refine ⟨info', hinfo', hvalue k (hsublist.subset hk) info' hinfo', ?_⟩
    rw [hbecomes.params]
    exact Tables.accepts_of_contained hs h.sound.tables hc haccept
  obtain ⟨a, ha, hvaluea, haccepta⟩ := hfinal f (by simp)
  obtain ⟨b, hb, hvalueb, hacceptb⟩ := hfinal g (by simp)
  have hconflicts := ((List.pairwise_cons.mp hpairwise).1 g (by simp)).1
  obtain ⟨⟨p, q⟩, hpq, hne⟩ :=
    Tables.passing_ne_of_accepts h.sound.tables hconflicts ha hb haccepta hacceptb
  obtain ⟨hp, hq⟩ := List.of_mem_zip hpq
  exact hne ((hvaluea p hp).trans (hvalueb q hq).symm)

/-- Such a call is not ambiguous itself. Only the analysis of a body can find an ambiguous call, which
is done for the result type of the callee. -/
theorem Idle.exists_fails_of_ambiguous (h : final.Idle) (hs : s.tables.Sound)
    (hc : s.tables.Contained final.tables)
    (hscope : candidates.Sublist (final.scopes.entries scope name))
    (hvalue : ∀ f ∈ candidates, ∀ info, final.tables.symbols.func? f = some info →
      ∀ p ∈ info.params, p.refKind = .value)
    {analyze : SymbolId → Check Unit} {node : Nat} {ident : Ident} {failure : CheckFailure}
    (hfails : (resolveOverload analyze node ident candidates args).Fails settings s failure s')
    (hambiguous : failure.Ambiguous) : ∃ func s₁ s₂, (analyze func).Fails settings s₁ failure s₂ := by
  refine resolveOverload_fails (P := fun failure => failure.Ambiguous →
    ∃ func s₁ s₂, (analyze func).Fails settings s₁ failure s₂) ?_ ?_ ?_ ?_ hfails hambiguous
  · rintro reason ⟨_, _, _, _, heq, -⟩
    cases heq
  · rintro text ⟨_, _, _, _, heq, hkind, -⟩
    cases heq
    cases hkind
  · rintro found s₁ texts hfound - ⟨_, _, _, _, heq, hkind, hmany⟩
    cases heq
    cases hkind
    exact absurd hmany (Nat.not_lt_of_le (h.length_survivors_le hs hc hscope hvalue hfound))
  · exact fun func s₁ failure s₂ hfails _ => ⟨func, s₁, s₂, hfails⟩

end CheckState

/-! ## Sessions -/

/-- The overloads of a program are coherent. -/
structure Program.Coherent (p : Program) : Prop where
  /-- A name that is bound more than once in a scope is bound to functions. -/
  funcs : ∀ scope name, 2 ≤ (p.final.scopes.entries scope name).length →
    ∀ f ∈ p.final.scopes.entries scope name, (p.tables.symbols.func? f).isSome
  /-- No two symbols that a name is bound to in a scope conflict. -/
  apart : ∀ scope name, (p.final.scopes.entries scope name).Pairwise fun f g =>
    p.tables.conflicts f g = false ∧ p.tables.conflicts g f = false
  /-- Two functions of one name in a scope that accept the same arguments have as many parameters, of
  the same types in order, and one of them is passed in different ways. -/
  passing : ∀ scope name, ∀ f ∈ p.final.scopes.entries scope name,
    ∀ g ∈ p.final.scopes.entries scope name, f ≠ g → ∀ a b args,
    p.tables.symbols.func? f = some a → p.tables.symbols.func? g = some b →
    p.tables.accepts (a.params.map fun param => (param.refKind, param.type)) args = true →
    p.tables.accepts (b.params.map fun param => (param.refKind, param.type)) args = true →
    a.params.length = b.params.length ∧
    List.Forall₂ (fun x y => p.tables.same x.type y.type = true) a.params b.params ∧
    ∃ pair ∈ a.params.zip b.params, pair.1.refKind ≠ pair.2.refKind
  /-- A call of candidates from one scope that take no references is not ambiguous, in any state on the
  way to the end; only a call in a body can be that is analyzed for the result type of the callee. -/
  calls : ∀ (s : CheckState) scope name candidates args, s.tables.Sound →
    s.tables.Contained p.tables → candidates.Sublist (p.final.scopes.entries scope name) →
    (∀ f ∈ candidates, ∀ info, p.tables.symbols.func? f = some info →
      ∀ param ∈ info.params, param.refKind = .value) →
    ∀ analyze node ident settings failure s',
    (resolveOverload analyze node ident candidates args).Fails settings s failure s' →
    failure.Ambiguous → ∃ func s₁ s₂, (analyze func).Fails settings s₁ failure s₂

namespace Session

/-- A program that the first check of a session accepts has coherent overloads. -/
theorem check_keeps_overloads_coherent (session : Session) (settings : Settings) (program : Program)
    (h : (session.check settings).outcome = .ok program) : program.Coherent := by
  have hidle := idle_final h
  have hsound := hidle.sound.tables
  have hapart := hidle.apart.entries hsound
  refine ⟨fun scope name => Tables.isSome_func_of_pairwise (hapart scope name), hapart,
    fun scope name f hf g hg hne a b args ha hb haccepts haccepts' => ?_,
    fun s scope name candidates args hs hc hscope hvalue analyze node ident settings failure s' =>
      hidle.exists_fails_of_ambiguous hs hc hscope hvalue⟩
  have hsame := Tables.same_of_accepts hsound haccepts haccepts'
  have hconflicts := hidle.apart.conflicts_eq_false hsound hf hg hne
  exact ⟨hsame.length_eq, hsame,
    Tables.passing_ne_of_accepts hsound hconflicts ha hb haccepts haccepts'⟩

/-- Three functions of one name, two of which differ only in how their parameter is passed. -/
def overloaded : Session :=
  Session.empty.withSource "main.stela"
    "func pick(x: sint) {} func pick(ref x: sint) {} func pick(x: real) {} func main() { pick(1); }"

theorem check_overloaded_keeps_overloads_coherent : ∃ program,
    (overloaded.check {}).outcome = .ok program ∧
      (program.final.scopes.entries 1 "pick").length = 3 ∧ program.Coherent := by
  have hok : (overloaded.check {}).outcome.toOption.map (fun program =>
      (program.final.scopes.entries 1 "pick").length) = some 3 := by
    rw [overloaded, withSource_ofList]
    decide +kernel
  obtain ⟨program, hprogram, hlength⟩ := exists_ok_of_map_toOption hok
  exact ⟨program, hprogram, hlength, check_keeps_overloads_coherent _ _ _ hprogram⟩

end Session

end Stela
