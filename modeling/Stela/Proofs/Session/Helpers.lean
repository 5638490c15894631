import Stela.Proofs.Helper.Listing
import Stela.Proofs.Session.Aliases

/-!
# Names of the helpers of a program

The list of helpers looks behind the aliases of a type only, while the name of a
helper looks behind weak aliases at every level of arrays and function types. So
two helpers of a program share a name exactly if they are for one operation and
for types that differ in weak aliases below an array or a function type. A
program without such aliases names its helpers apart.
-/

namespace Stela

namespace Tables

variable {t : Tables} {a b type : TypeId}

/-- No weak alias is an element, a parameter or a result of another type. -/
def PartsConcrete (t : Tables) : Prop :=
  ∀ type ty, t.types.get? type = some ty → ∀ part ∈ ty.parts, t.concrete part = part

/-- The type behind all aliases is no weak alias. -/
theorem concrete_representation (h : t.AliasesEnd true) (type : TypeId) :
    t.concrete (t.representation type) = t.representation type := by
  have hlast := (unwraps_representation h type).2
  refine concrete_eq_self ?_
  cases htarget : t.aliasTarget? false (t.representation type) with
  | none => rfl
  | some target => exact absurd (AliasStep.of_weak htarget) (by simp [AliasStep, hlast])

/-- Related elements that are equal are those of equal lists. -/
theorem eq_of_forall₂ {α : Type} {R : α → α → Prop} {xs ys : List α} (h : List.Forall₂ R xs ys)
    (heq : ∀ x ∈ xs, ∀ y ∈ ys, R x y → x = y) : xs = ys := by
  induction h with
  | nil => rfl
  | @cons x y xs ys hxy _ ih =>
      rw [heq x (by simp) y (by simp) hxy,
        ih fun x' hx' y' hy' => heq x' (by simp [hx']) y' (by simp [hy'])]

/-- Types that unwrap alike are one type behind weak aliases, unless they have parts that are weak
aliases. -/
theorem UnwrapAlike.concrete_eq (hcycle : t.NoAliasCycle) (hinj : t.types.Injective)
    (hparts : t.PartsConcrete) (h : t.UnwrapAlike a b) : t.concrete a = t.concrete b := by
  -- Parts refer to fewer types, whatever aliases they stand behind.
  induction hn : t.referenceCount a using Nat.strong_induction_on generalizing a b with
  | h n ih =>
      subst hn
      have hpart {ty ty' : Ty} (ha : t.concreteTy? a = some ty) (hb : t.concreteTy? b = some ty')
          {part part' : TypeId} (hmem : part ∈ ty.parts) (hmem' : part' ∈ ty'.parts)
          (halike : t.UnwrapAlike part part') : part = part' := by
        have heq := ih _ (referenceCount_lt hcycle ha hmem) halike rfl
        rwa [hparts _ _ ha part hmem, hparts _ _ hb part' hmem'] at heq
      cases h with
      | same ha hb => exact hinj _ _ _ ha hb
      | array ha hb helement =>
          obtain rfl := hpart ha hb (by simp [Ty.parts]) (by simp [Ty.parts]) helement
          exact hinj _ _ _ ha hb
      | @func _ _ ret ret' params params' ha hb hpassing hparams hret =>
          obtain rfl := hpart ha hb (by simp [Ty.parts]) (by simp [Ty.parts]) hret
          have htypes : params.map (·.2) = params'.map (·.2) :=
            eq_of_forall₂ hparams fun part hmem part' hmem' halike =>
              hpart ha hb (List.mem_append_left _ hmem) (List.mem_append_left _ hmem') halike
          have heq : params = params' := by
            rw [← List.zip_unzip params, ← List.zip_unzip params']
            simp only [List.unzip_eq_map, hpassing, htypes]
          subst heq
          exact hinj _ _ _ ha hb

/-- The helpers that a helper for a settled type needs are for settled types. -/
theorem Sound.settled_of_needs (h : t.Sound) {op : LifetimeOp} (htype : t.types.Settled type)
    {need : LifetimeOp × TypeId} (hneed : need ∈ HelperList.needs t op type) :
    t.types.Settled need.2 := by
  rcases part_of_mem_needs hneed with heq | hpart
  · exact heq ▸ htype
  · exact h.settled_part (h.settled_unwrap true _ htype) hpart

end Tables

namespace HelperList

variable {t : Tables} {helpers : HelperList} {requests : List Request}

/-- The helpers that settled requests lead to are for settled types that are no aliases. -/
theorem Reached.settled (hs : t.Sound) (h : t.AliasesEnd true)
    (hrequests : ∀ request ∈ requests, t.types.Settled request.2) {pair : Request}
    (hpair : Reached t requests pair) :
    t.types.Settled pair.2 ∧ t.concrete pair.2 = pair.2 := by
  have hkey (request : Request) (hsettled : t.types.Settled request.2) :
      t.types.Settled (key t request).2 ∧ t.concrete (key t request).2 = (key t request).2 :=
    ⟨hs.settled_unwrap true _ hsettled, Tables.concrete_representation h _⟩
  obtain ⟨request, hrequest, path⟩ := hpair
  induction path with
  | refl => exact hkey request (hrequests request hrequest)
  | tail _ step ih =>
      obtain ⟨need, hneed, rfl⟩ := step
      exact hkey need (hs.settled_of_needs ih.1 hneed)

/-- What helpers have in common that have one name. -/
structure NamedAlike (t : Tables) (helpers : HelperList) : Prop where
  /-- They are for one operation, and their types differ in weak aliases only. -/
  shared : ∀ a ∈ helpers, ∀ b ∈ helpers,
    a.name = b.name ↔ a.op = b.op ∧ t.UnwrapAlike a.type b.type
  /-- They are one helper, unless weak aliases are parts of other types. -/
  apart : t.PartsConcrete → (helpers.map Helper.name).Nodup

/-- Names tell the helpers that settled requests lead to apart, up to weak aliases inside of types. -/
theorem Extends.namedAlike (hs : t.Sound) (he : t.Enclosed) (hacyclic : t.Acyclic)
    (hnamed : t.NamedByIdentifiers) (h : Extends t requests [] helpers)
    (hrequests : ∀ request ∈ requests, t.types.Settled request.2) : helpers.NamedAlike t := by
  have hcycle := hacyclic.noAliasCycle
  have hinside := he.refersInside
  obtain ⟨hvalid, new, hnew, hadded⟩ := h
  obtain rfl : helpers = new := hnew
  have hsettled : ∀ helper ∈ helpers,
      t.types.Settled helper.type ∧ t.concrete helper.type = helper.type := fun helper hhelper =>
    (hadded helper hhelper).2.settled hs (hacyclic.aliasesEnd true) hrequests
  have hlt : ∀ helper ∈ helpers, helper.type < t.types.size := fun helper hhelper =>
    TypeTable.Settled.lt_size (hsettled helper hhelper).1
  have hnameOf : ∀ helper ∈ helpers, helper.name = t.helperName helper.op helper.type :=
    fun helper hhelper => (Tables.helperName_of_helperName? (hvalid.named helper hhelper)).symm
  have hread : ∀ a ∈ helpers, ∀ b ∈ helpers, a.name = b.name →
      a.op = b.op ∧ t.UnwrapAlike a.type b.type := by
    intro a ha b hb hname
    rw [hnameOf a ha, hnameOf b hb] at hname
    exact Tables.unwrapAlike_of_helperName_eq hcycle hinside hnamed (hlt a ha) (hlt b hb) hname
  constructor
  · intro a ha b hb
    refine ⟨hread a ha b hb, ?_⟩
    rintro ⟨hop, halike⟩
    rw [hnameOf a ha, hnameOf b hb, hop]
    exact halike.helperName_eq hcycle hinside he.names (hlt a ha) (hlt b hb) b.op
  · intro hparts
    have honce : (helpers.map fun helper => (helper.op, helper.type)).Nodup := hvalid.once
    refine List.Nodup.map_on ?_ honce.of_map
    intro a ha b hb hname
    obtain ⟨hop, halike⟩ := hread a ha b hb hname
    have hconcrete := halike.concrete_eq hcycle hs.types.injective hparts
    rw [(hsettled a ha).2, (hsettled b hb).2] at hconcrete
    exact List.inj_on_of_nodup_map honce ha hb (Prod.ext hop hconcrete)

end HelperList

namespace Session

/-- The first check of a session that was built lists the helpers of its program, and two helpers
have one name exactly if they are for one operation and for types that differ in weak aliases inside
of arrays and function types only. -/
theorem check_names_helpers (session : Session) (hbuilt : session.Built) (settings : Settings)
    (program : Program) (h : (session.check settings).outcome = .ok program)
    (hnamed : program.tables.NamedByIdentifiers) :
    ∃ helpers, program.helpers = some helpers ∧ helpers.NamedAlike program.tables := by
  have hsound := (idle_final h).sound
  obtain ⟨program', h', henclosed, hordered⟩ | ⟨error, herror⟩ := @enclosed_or_error session settings hbuilt
  · obtain rfl := Except.ok.inj (h.symm.trans h')
    have hacyclic := Tables.acyclic_of_founded hordered (founded_final hbuilt h)
    have hrequests : ∀ request ∈ program.helperRequests, program.tables.types.Settled request.2 :=
      fun request hrequest => program.settled_of_request hsound hrequest
    obtain ⟨handles, helpers, hrun, hextends, -⟩ := HelperList.exists_requestAll henclosed
      (hacyclic.aliasesEnd true) hacyclic.noAliasCycle program.helperRequests
      fun request hrequest => TypeTable.Settled.lt_size (hrequests request hrequest)
    refine ⟨helpers, ?_, hextends.namedAlike hsound.tables henclosed hacyclic hnamed hrequests⟩
    rw [Program.helpers, HelperList.ofRequests_eq, hrun, Option.map_some]
  · cases h.symm.trans herror

/-- Two parameters whose types differ in a weak alias below the array. -/
def rows : Session :=
  Session.empty.withSource "main.stela" "type W = sint; func f(a: [W], b: [sint]) { }"

/-- The parameters have helpers of their own, which have one name. -/
example : (rows.check {}).outcome.toOption.bind (fun program =>
    program.helpers.map (·.map Helper.name)) = some ["stela_destroy_Asint", "stela_destroy_Asint"] := by
  rw [rows, withSource_ofList]
  decide +kernel

end Session

end Stela
