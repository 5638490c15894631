import Stela.Helper.Listing
import Stela.Proofs.Helper.Decoding
import Stela.Proofs.Types.Interchange

/-!
# Helpers are listed once and completely

Helpers are told apart by their operation and the representation of their type.
A request only appends to the list: its own helper first, then all helpers that
are called and not yet listed. While a request is open its helper has no body,
and helpers further down may already call it; once it returns, every helper that
it has appended is defined. Nested requests are for different pairs of an
operation and an entry of the table, which bounds their depth.
-/

namespace Stela

/-! ## The helpers that a helper needs -/

namespace Tables

variable {t : Tables} {type : TypeId}

/-- An operation that goes through fields goes through those of a struct or host type. -/
theorem part_of_fields {op : LifetimeOp} {steps : List FieldStep} {step : FieldStep}
    (h : t.plan op type = .fields steps) (hstep : step ∈ steps) :
    t.Part (t.representation type) step.type := by
  unfold plan at h
  cases hty : t.types.get? (t.representation type) with
  | none => simp [hty] at h
  | some ty =>
      cases ty with
      | structType symbol =>
          simp only [hty, LifetimePlan.fields.injEq] at h
          subst h
          obtain ⟨f, hf, rfl⟩ := List.mem_map.mp hstep
          unfold structFields at hf
          split at hf
          · next info hsymbol =>
            obtain ⟨field, hmem, hfield⟩ := List.mem_filterMap.mp hf
            obtain ⟨fieldInfo, hinfo, rfl⟩ := Option.map_eq_some_iff.mp hfield
            exact .field hty hsymbol hmem (SymbolTable.field?_eq_some.mp hinfo)
          · cases hf
      | hostType symbol =>
          simp only [hty] at h
          split at h
          · next info hsymbol =>
            simp only [LifetimePlan.fields.injEq] at h
            subst h
            obtain ⟨slot, hslot, rfl⟩ := List.mem_map.mp hstep
            exact .slot hty hsymbol hslot
          · cases h
            cases hstep
      | builtin | enumType => cases op <;> simp [hty, scalarPlan] at h
      | array | func => cases op <;> simp [hty, handlePlan] at h
      | aliasType | pending => simp [hty] at h

/-- An array is released by the destruction of its elements. -/
theorem part_of_release {op : LifetimeOp} {element : TypeId}
    (h : t.plan op type = .release (.array element)) : t.Part (t.representation type) element := by
  unfold plan at h
  cases hty : t.types.get? (t.representation type) with
  | none => simp [hty] at h
  | some ty =>
      cases ty with
      | array element' =>
          refine .element (hty.trans (congrArg (some ∘ Ty.array) ?_))
          cases op <;> simp_all [handlePlan]
      | hostType => simp only [hty] at h; split at h <;> cases h
      | builtin | enumType => cases op <;> simp [hty, scalarPlan] at h
      | func => cases op <;> simp [hty, handlePlan] at h
      | structType | aliasType | pending => simp [hty] at h

/-- A helper needs others for its type and for the parts of the type only. -/
theorem part_of_mem_needs {op : LifetimeOp} {need : LifetimeOp × TypeId}
    (h : need ∈ HelperList.needs t op type) :
    need.2 = type ∨ t.Part (t.representation type) need.2 := by
  unfold HelperList.needs at h
  split at h
  case h_1 steps hplan =>
    obtain ⟨step, hstep, rfl⟩ := List.mem_map.mp h
    exact .inr (part_of_fields hplan hstep)
  case h_2 element hplan =>
    split at h
    · cases h
    · obtain rfl := List.mem_singleton.mp h
      exact .inr (part_of_release hplan)
  case h_3 | h_4 =>
    obtain rfl := List.mem_singleton.mp h
    exact .inl rfl
  case h_5 => cases h

theorem Enclosed.lt_of_mem_needs (he : t.Enclosed) (htype : type < t.types.size) {op : LifetimeOp}
    {need : LifetimeOp × TypeId} (h : need ∈ HelperList.needs t op type) : need.2 < t.types.size := by
  rcases part_of_mem_needs h with heq | hpart
  · exact heq ▸ htype
  · exact he.parts _ _ hpart

end Tables

namespace HelperList

variable {t : Tables} {helpers helpers' helpers'' : HelperList}

/-- What is asked for: an operation on a type. -/
abbrev Request := LifetimeOp × TypeId

/-- The pair that a request is listed under. -/
def key (t : Tables) (request : Request) : Request := (request.1, t.representation request.2)

/-- The operation and the type of each helper, in order. -/
def keys (helpers : HelperList) : List Request := helpers.map fun h => (h.op, h.type)

@[simp] theorem keys_append (helpers new : HelperList) :
    keys (helpers ++ new) = keys helpers ++ keys new := List.map_append

@[simp] theorem keys_cons (helper : Helper) (helpers : HelperList) :
    keys (helper :: helpers) = (helper.op, helper.type) :: keys helpers := rfl

@[simp] theorem keys_nil : keys [] = [] := rfl

/-- The helper at a position is the one for a request. -/
def Serves (t : Tables) (helpers : HelperList) (position : Nat) (request : Request) : Prop :=
  helpers.keys[position]? = some (key t request)

theorem Serves.append {position : Nat} {request : Request} (h : Serves t helpers position request)
    (new : HelperList) : Serves t (helpers ++ new) position request := by
  rw [Serves] at h ⊢
  rw [keys_append, List.getElem?_append_left (List.getElem?_eq_some_iff.mp h).1, h]

theorem Serves.mem_keys {position : Nat} {request : Request}
    (h : Serves t helpers position request) : key t request ∈ helpers.keys :=
  List.mem_of_getElem? h

/-- What is found is the helper for the pair. -/
theorem keys_of_find? {op : LifetimeOp} {type : TypeId} {position : Nat}
    (h : helpers.find? op type = some position) : helpers.keys[position]? = some (op, type) := by
  obtain ⟨hlt, hfound, -⟩ := List.findIdx?_eq_some_iff_getElem.mp h
  obtain ⟨hop, htype⟩ : helpers[position].op = op ∧ helpers[position].type = type := by
    simpa using hfound
  simp [keys, hlt, hop, htype]

/-- Nothing is found for a pair that is not listed. -/
theorem notMem_keys_of_find? {op : LifetimeOp} {type : TypeId}
    (h : helpers.find? op type = none) : (op, type) ∉ helpers.keys := by
  intro hmem
  obtain ⟨helper, hhelper, heq⟩ := List.mem_map.mp hmem
  have hdiffers := List.findIdx?_eq_none_iff.mp h helper hhelper
  simp_all

/-! ## Lists of helpers -/

/-- No pair is listed twice, and each helper belongs to a representation, after which it is
named. -/
structure Valid (t : Tables) (helpers : HelperList) : Prop where
  once : helpers.keys.Nodup
  represents : ∀ helper ∈ helpers, t.representation helper.type = helper.type
  named : ∀ helper ∈ helpers, t.helperName? helper.op helper.type = some helper.name

/-- A helper has its plan and calls the helpers that it needs, in order. -/
structure Complete (t : Tables) (helpers : HelperList) (helper : Helper) : Prop where
  plan : helper.plan = some (t.plan helper.op helper.type)
  calls : List.Forall₂ (Serves t helpers) helper.calls (needs t helper.op helper.type)

theorem Complete.append {helper : Helper} (h : Complete t helpers helper) (new : HelperList) :
    Complete t (helpers ++ new) helper :=
  ⟨h.plan, h.calls.imp fun _ _ hserves => hserves.append new⟩

/-- Which helpers a list has depends on its pairs only. -/
theorem Complete.of_keys {helper : Helper} (h : Complete t helpers helper)
    (hkeys : helpers'.keys = helpers.keys) : Complete t helpers' helper :=
  ⟨h.plan, h.calls.imp fun _ _ hserves => by rwa [Serves, hkeys]⟩

/-- One helper calls another. -/
def Calls (t : Tables) (caller callee : Request) : Prop :=
  ∃ need ∈ needs t caller.1 caller.2, key t need = callee

/-- The helper listed under a pair is called for one of the requests, directly or by others. -/
def Reached (t : Tables) (requests : List Request) (pair : Request) : Prop :=
  ∃ request ∈ requests, Relation.ReflTransGen (Calls t) (key t request) pair

/-- A list goes on with complete helpers that are there for one of the requests. -/
structure Extends (t : Tables) (requests : List Request) (helpers helpers' : HelperList) :
    Prop where
  valid : Valid t helpers'
  added : ∃ new, helpers' = helpers ++ new ∧
    ∀ helper ∈ new, Complete t helpers' helper ∧ Reached t requests (helper.op, helper.type)

theorem Extends.refl (h : Valid t helpers) (requests : List Request) :
    Extends t requests helpers helpers :=
  ⟨h, [], by simp, by simp⟩

theorem Extends.trans {first rest : List Request} (h : Extends t first helpers helpers')
    (h' : Extends t rest helpers' helpers'') : Extends t (first ++ rest) helpers helpers'' := by
  obtain ⟨new, rfl, hnew⟩ := h.added
  obtain ⟨later, rfl, hlater⟩ := h'.added
  refine ⟨h'.valid, new ++ later, by simp, ?_⟩
  intro helper hhelper
  rcases List.mem_append.mp hhelper with hmem | hmem
  · obtain ⟨hcomplete, request, hrequest, path⟩ := hnew helper hmem
    exact ⟨hcomplete.append later, request, List.mem_append_left _ hrequest, path⟩
  · obtain ⟨hcomplete, request, hrequest, path⟩ := hlater helper hmem
    exact ⟨hcomplete, request, List.mem_append_right _ hrequest, path⟩

theorem Extends.serves {requests : List Request} (h : Extends t requests helpers helpers')
    {position : Nat} {request : Request} (hserves : Serves t helpers position request) :
    Serves t helpers' position request := by
  obtain ⟨new, rfl, -⟩ := h.added
  exact hserves.append new

/-! ## The pairs that are left -/

/-- The pairs of an operation and an entry of the table that are not listed. -/
def missing (t : Tables) (helpers : HelperList) : Finset Request :=
  (LifetimeOp.all.toFinset ×ˢ Finset.range t.types.size).filter (· ∉ helpers.keys)

theorem mem_all (op : LifetimeOp) : op ∈ LifetimeOp.all := by
  cases op <;> decide

theorem card_missing_le (t : Tables) (helpers : HelperList) :
    (missing t helpers).card ≤ LifetimeOp.all.length * t.types.size := by
  calc (missing t helpers).card
      ≤ (LifetimeOp.all.toFinset ×ˢ Finset.range t.types.size).card :=
        Finset.card_le_card (Finset.filter_subset _ _)
    _ = LifetimeOp.all.toFinset.card * t.types.size := by
        rw [Finset.card_product, Finset.card_range]
    _ ≤ LifetimeOp.all.length * t.types.size :=
        Nat.mul_le_mul_right _ LifetimeOp.all.toFinset_card_le

theorem Extends.card_missing_le {requests : List Request}
    (h : Extends t requests helpers helpers') :
    (missing t helpers').card ≤ (missing t helpers).card := by
  obtain ⟨new, rfl, -⟩ := h.added
  refine Finset.card_le_card fun pair hpair => ?_
  simp only [missing, Finset.mem_filter, keys_append, List.mem_append, not_or] at hpair ⊢
  exact ⟨hpair.1, hpair.2.1⟩

/-- Listing an entry of the table leaves fewer pairs. -/
theorem card_missing_lt (t : Tables) (helper : Helper)
    (hnew : (helper.op, helper.type) ∉ helpers.keys) (hlt : helper.type < t.types.size) :
    (missing t (helpers ++ [helper])).card < (missing t helpers).card := by
  refine Finset.card_lt_card (Finset.ssubset_iff_of_subset ?_ |>.mpr ⟨(helper.op, helper.type), ?_⟩)
  · intro pair hpair
    simp only [missing, Finset.mem_filter, keys_append, List.mem_append, not_or] at hpair ⊢
    exact ⟨hpair.1, hpair.2.1⟩
  · simp [missing, mem_all, hlt, hnew]

/-! ## Requests in order -/

/-- Makes requests one after the other and gives the positions of their helpers. -/
def requestEach (ask : HelperList → Request → Option (Nat × HelperList))
    (acc : List Nat × HelperList) (requests : List Request) : Option (List Nat × HelperList) :=
  requests.foldlM (fun acc request =>
    (ask acc.2 request).map fun answer => (acc.1 ++ [answer.1], answer.2)) acc

/-- The requests of a sequence are answered if each of them is while few pairs are left. -/
theorem exists_requestEach {ask : HelperList → Request → Option (Nat × HelperList)}
    (room : Nat) (hask : ∀ helpers request, Valid t helpers → request.2 < t.types.size →
      (missing t helpers).card < room → ∃ position helpers', ask helpers request = some (position, helpers') ∧
        Extends t [request] helpers helpers' ∧ Serves t helpers' position request)
    (positions : List Nat) (hvalid : Valid t helpers) (requests : List Request)
    (hrequests : ∀ request ∈ requests, request.2 < t.types.size)
    (hroom : (missing t helpers).card < room) :
    ∃ new helpers', requestEach ask (positions, helpers) requests
        = some (positions ++ new, helpers') ∧
      Extends t requests helpers helpers' ∧ List.Forall₂ (Serves t helpers') new requests := by
  induction requests generalizing positions helpers with
  | nil => exact ⟨[], helpers, by simp [requestEach], .refl hvalid _, .nil⟩
  | cons request rest ih =>
      obtain ⟨hlt, hrest⟩ := List.forall_mem_cons.mp hrequests
      obtain ⟨position, helpers₁, hfirst, hextends, hserves⟩ := hask helpers request hvalid hlt hroom
      obtain ⟨new, helpers₂, hlater, hextends', hserves'⟩ :=
        ih (positions ++ [position]) hextends.valid hrest (hextends.card_missing_le.trans_lt hroom)
      refine ⟨position :: new, helpers₂, ?_, hextends.trans hextends',
        .cons (hextends'.serves hserves) hserves'⟩
      rw [requestEach] at hlater
      rw [requestEach, List.foldlM_cons, hfirst, Option.map_some, ← List.append_cons] at *
      exact hlater

/-! ## A single request -/

/-- A helper whose body is not known yet. -/
def declared (t : Tables) (op : LifetimeOp) (type : TypeId) : Helper :=
  { name := t.helperName op type, op := op, type := type }

/-- A helper with its body. -/
def defined (t : Tables) (op : LifetimeOp) (type : TypeId) (calls : List Nat) : Helper :=
  { declared t op type with plan := some (t.plan op type), calls := calls }

variable {op : LifetimeOp} {type : TypeId}

theorem Valid.declare (h : Valid t helpers) (hself : t.representation type = type)
    (hname : t.helperName? op type = some (t.helperName op type)) (hnew : (op, type) ∉ helpers.keys) :
    Valid t (helpers ++ [declared t op type]) := by
  refine ⟨?_, ?_, ?_⟩
  · rw [keys_append]
    exact h.once.append (by simp) (by simpa [declared] using hnew)
  · simpa [or_imp, forall_and] using ⟨h.represents, hself⟩
  · simpa [or_imp, forall_and] using ⟨h.named, hname⟩

/-- Once the helpers that it needs are listed, a helper is completed in its place. -/
theorem Extends.define {new : HelperList} {calls : List Nat} (request : Request)
    (hkey : key t request = (op, type))
    (h : Extends t (needs t op type) (helpers ++ [declared t op type])
      (helpers ++ [declared t op type] ++ new))
    (hcalls : List.Forall₂ (Serves t (helpers ++ [declared t op type] ++ new)) calls
      (needs t op type)) :
    Extends t [request] helpers (helpers ++ defined t op type calls :: new) := by
  have hkeys : keys (helpers ++ defined t op type calls :: new)
      = keys (helpers ++ [declared t op type] ++ new) := by
    simp [defined, declared]
  obtain ⟨hvalid, new', hnew', hadded⟩ := h
  obtain rfl : new = new' := by simpa using hnew'
  refine ⟨⟨hkeys ▸ hvalid.once, ?_, ?_⟩, defined t op type calls :: new, rfl, ?_⟩
  · intro helper hhelper
    have hrepresents := hvalid.represents
    simp only [List.mem_append, List.mem_cons] at hrepresents hhelper
    rcases hhelper with hmem | rfl | hmem
    · exact hrepresents helper (.inl (.inl hmem))
    · exact hrepresents (declared t op type) (.inl (.inr (.inl rfl)))
    · exact hrepresents helper (.inr hmem)
  · intro helper hhelper
    have hnamed := hvalid.named
    simp only [List.mem_append, List.mem_cons] at hnamed hhelper
    rcases hhelper with hmem | rfl | hmem
    · exact hnamed helper (.inl (.inl hmem))
    · exact hnamed (declared t op type) (.inl (.inr (.inl rfl)))
    · exact hnamed helper (.inr hmem)
  · intro helper hhelper
    rcases List.mem_cons.mp hhelper with rfl | hmem
    · refine ⟨⟨rfl, hcalls.imp fun _ _ hserves => by rwa [Serves, hkeys]⟩,
        request, List.mem_singleton_self _, ?_⟩
      rw [hkey]
      exact .refl
    · obtain ⟨hcomplete, need, hneed, path⟩ := hadded helper hmem
      refine ⟨hcomplete.of_keys hkeys, request, List.mem_singleton_self _, .head ?_ path⟩
      rw [hkey]
      exact ⟨need, hneed, rfl⟩

/-- A new helper is declared before the helpers that it needs, and defined after them. -/
theorem requestWithin_succ (bound : Nat) {request : Request}
    (hreads : t.representation? request.2 = some type) (hnone : helpers.find? request.1 type = none)
    (hname : t.helperName? request.1 type = some (t.helperName request.1 type)) :
    requestWithin t (bound + 1) helpers request.1 request.2 =
      (requestEach (fun helpers request => requestWithin t bound helpers request.1 request.2)
        ([], helpers ++ [declared t request.1 type]) (needs t request.1 type)).map fun result =>
          (helpers.length, result.2.modify helpers.length fun h =>
            { h with plan := some (t.plan request.1 type), calls := result.1 }) := by
  rw [requestWithin, hreads]
  simp only [Option.bind_eq_bind, Option.bind_some, hnone, hname, requestEach, Option.map_eq_bind]
  rfl

section Request

variable (he : t.Enclosed) (hends : t.AliasesEnd true) (hcycle : t.NoAliasCycle)
include he hends hcycle

/-- A request is answered if requests may nest deeper than there are pairs left. -/
theorem exists_requestWithin (bound : Nat) (helpers : HelperList) (request : Request)
    (hvalid : Valid t helpers) (hlt : request.2 < t.types.size)
    (hroom : (missing t helpers).card < bound) :
    ∃ position helpers', requestWithin t bound helpers request.1 request.2
        = some (position, helpers') ∧
      Extends t [request] helpers helpers' ∧ Serves t helpers' position request := by
  induction bound generalizing helpers request with
  | zero => exact absurd hroom (Nat.not_lt_zero _)
  | succ bound ih =>
      obtain ⟨op, type⟩ := request
      have hreads := he.representation?_eq hends hlt
      cases hfind : helpers.find? op (t.representation type) with
      | some position =>
          refine ⟨position, helpers, ?_, .refl hvalid _, keys_of_find? hfind⟩
          rw [requestWithin, hreads]
          simp only [Option.bind_eq_bind, Option.bind_some, hfind]
          rfl
      | none =>
          have hnew := notMem_keys_of_find? hfind
          have hself : t.representation (t.representation type) = t.representation type :=
            Tables.representation_eq_self (Tables.unwraps_representation hends type).2
          have hlast : t.representation type < t.types.size := he.unwrap_lt hends hlt
          have hname := Tables.helperName?_eq hcycle he.refersInside he.names op hlast
          have hroom' : (missing t (helpers ++ [declared t op (t.representation type)])).card < bound := by
            have := card_missing_lt t (declared t op (t.representation type)) hnew hlast
            omega
          obtain ⟨calls, helpers', hcalls, hextends, hserves⟩ :=
            exists_requestEach bound ih [] (hvalid.declare hself hname hnew) _
              (fun need hneed => he.lt_of_mem_needs hlast hneed) hroom'
          obtain ⟨new, rfl, -⟩ := hextends.added
          refine ⟨helpers.length, _, ?_, hextends.define (op, type) rfl hserves, ?_⟩
          · rw [requestWithin_succ bound hreads hfind hname, hcalls]
            simp [List.modify_eq_take_drop, defined, declared]
          · simp [Serves, key, keys, defined, declared]

end Request

/-! ## Sequences of requests -/

/-- The handles for a sequence of requests, in order, with the list of helpers after it. -/
def requestAll (t : Tables) (requests : List Request) : Option (List Nat × HelperList) :=
  requestEach (fun helpers request => HelperList.request t helpers request.1 request.2) ([], [])
    requests

/-- Only the handles are dropped from the list of helpers of a sequence of requests. -/
theorem ofRequests_eq (t : Tables) (requests : List Request) :
    ofRequests t requests = (requestAll t requests).map (·.2) := by
  have hfold (positions : List Nat) (helpers : HelperList) :
      requests.foldlM (fun helpers r => (request t helpers r.1 r.2).map (·.2)) helpers
        = (requestEach (fun helpers r => request t helpers r.1 r.2) (positions, helpers)
            requests).map (·.2) := by
    induction requests generalizing positions helpers with
    | nil => rfl
    | cons first rest ih =>
        rw [requestEach, List.foldlM_cons, List.foldlM_cons]
        cases request t helpers first.1 first.2 with
        | none => rfl
        | some answer => exact ih (positions ++ [answer.1]) answer.2
  exact hfold [] []

/-- A fold that succeeds also succeeds with steps that succeed more often. -/
theorem foldlM_mono {α β : Type} {f g : β → α → Option β}
    (h : ∀ acc x next, f acc x = some next → g acc x = some next) {xs : List α} {acc last : β}
    (hf : xs.foldlM f acc = some last) : xs.foldlM g acc = some last := by
  induction xs generalizing acc with
  | nil => exact hf
  | cons x xs ih =>
      rw [List.foldlM_cons] at hf ⊢
      obtain ⟨next, hnext, hrest⟩ := Option.bind_eq_some_iff.mp hf
      exact Option.bind_eq_some_iff.mpr ⟨next, h acc x next hnext, ih hrest⟩

/-- A request that is answered is answered in the same way if requests may nest deeper. -/
theorem requestWithin_mono {bound bound' : Nat} (hle : bound ≤ bound') {request : Request}
    {answer : Nat × HelperList}
    (h : requestWithin t bound helpers request.1 request.2 = some answer) :
    requestWithin t bound' helpers request.1 request.2 = some answer := by
  induction bound generalizing bound' helpers request answer with
  | zero => simp [requestWithin] at h
  | succ bound ih =>
      obtain ⟨bound', rfl⟩ : ∃ n, bound' = n + 1 := ⟨bound' - 1, by omega⟩
      have hsucc := h
      rw [requestWithin] at h
      obtain ⟨type, hreads, h⟩ := Option.bind_eq_some_iff.mp h
      cases hfind : helpers.find? request.1 type with
      | some position =>
          rw [requestWithin, hreads]
          simpa only [Option.bind_eq_bind, Option.bind_some, hfind] using h
      | none =>
          simp only [hfind] at h
          obtain ⟨name, hname, -⟩ := Option.bind_eq_some_iff.mp h
          obtain rfl := Tables.helperName_of_helperName? hname
          rw [requestWithin_succ _ hreads hfind hname] at hsucc ⊢
          obtain ⟨result, hresult, rfl⟩ := Option.map_eq_some_iff.mp hsucc
          refine Option.map_eq_some_iff.mpr ⟨result, foldlM_mono ?_ hresult, rfl⟩
          intro acc need next hstep
          obtain ⟨nested, hnested, rfl⟩ := Option.map_eq_some_iff.mp hstep
          exact Option.map_eq_some_iff.mpr
            ⟨nested, ih (Nat.le_of_succ_le_succ hle) hnested, rfl⟩

/-! ## What is listed after a sequence of requests -/

/-- A helper is defined: it has the plan of its operation on its type and calls the helpers that
the plan needs. -/
structure Defined (t : Tables) (helpers : HelperList) (helper : Helper) : Prop where
  plan : helper.plan = some (t.plan helper.op helper.type)
  /-- The same operation on each field, in order. -/
  fields : ∀ steps, t.plan helper.op helper.type = .fields steps →
    List.Forall₂ (Serves t helpers) helper.calls (steps.map fun step => (helper.op, step.type))
  /-- The destruction of the elements of an array, if that does anything. -/
  elements : ∀ element, t.plan helper.op helper.type = .release (.array element) →
    List.Forall₂ (Serves t helpers) helper.calls
      (if t.classify element = .triviallyCopyable then [] else [(.destroy, element)])
  /-- The destruction of the old value in an assignment of a handle. -/
  replaced : t.plan helper.op helper.type = .retainAssign ∨
      t.plan helper.op helper.type = .transferAssign →
    List.Forall₂ (Serves t helpers) helper.calls [(.destroy, helper.type)]
  others : (∀ steps, t.plan helper.op helper.type ≠ .fields steps) →
    (∀ element, t.plan helper.op helper.type ≠ .release (.array element)) →
    t.plan helper.op helper.type ≠ .retainAssign →
    t.plan helper.op helper.type ≠ .transferAssign → helper.calls = []

theorem Complete.defined {helper : Helper} (h : Complete t helpers helper) :
    Defined t helpers helper := by
  obtain ⟨hplan, hcalls⟩ := h
  rw [needs] at hcalls
  refine ⟨hplan, ?_, ?_, ?_, ?_⟩
  · intro steps hsteps
    simpa only [hsteps] using hcalls
  · intro element helement
    simpa only [helement] using hcalls
  · rintro (hassign | hassign) <;> simpa only [hassign] using hcalls
  · intro hfields hrelease hretain htransfer
    split at hcalls
    · exact absurd ‹_› (hfields _)
    · exact absurd ‹_› (hrelease _)
    · exact absurd ‹_› hretain
    · exact absurd ‹_› htransfer
    · exact List.forall₂_nil_right_iff.mp hcalls

/-- A position is written down by the name of the pair that it serves. -/
theorem nameAt_of_serves (h : Valid t helpers) {position : Nat} {request : Request}
    (hserves : Serves t helpers position request) :
    t.helperName? request.1 (t.representation request.2) = some (helpers.nameAt position) := by
  rw [Serves, keys, List.getElem?_map] at hserves
  obtain ⟨helper, hhelper, hkey⟩ := Option.map_eq_some_iff.mp hserves
  obtain ⟨hop, htype⟩ : helper.op = request.1 ∧ helper.type = t.representation request.2 := by
    simpa [key] using hkey
  rw [← hop, ← htype, h.named helper (List.mem_of_getElem? hhelper), nameAt, hhelper]
  rfl

/-- All requests of an answered sequence are listed. -/
theorem mem_keys_of_forall₂ {handles : List Nat} {requests : List Request}
    (h : List.Forall₂ (Serves t helpers) handles requests) {request : Request}
    (hmem : request ∈ requests) : key t request ∈ helpers.keys := by
  induction h with
  | nil => cases hmem
  | cons hserves _ ih =>
      rcases List.mem_cons.mp hmem with rfl | hmem
      · exact hserves.mem_keys
      · exact ih hmem

/-- Complete helpers call listed ones only, so all that is reached is listed. -/
theorem mem_keys_of_reached (hcomplete : ∀ helper ∈ helpers, Complete t helpers helper)
    {requests : List Request} {handles : List Nat}
    (hserves : List.Forall₂ (Serves t helpers) handles requests) {pair : Request}
    (h : Reached t requests pair) : pair ∈ helpers.keys := by
  obtain ⟨request, hrequest, path⟩ := h
  induction path with
  | refl =>
      exact mem_keys_of_forall₂ hserves hrequest
  | tail _ step ih =>
      obtain ⟨helper, hhelper, rfl⟩ := List.mem_map.mp ih
      obtain ⟨need, hneed, rfl⟩ := step
      exact mem_keys_of_forall₂ (hcomplete helper hhelper).calls hneed

/-- In a list without repetition a position serves exactly one pair, and a pair has one
position. -/
theorem Serves.eq_iff (h : Valid t helpers) {position position' : Nat} {request request' : Request}
    (hserves : Serves t helpers position request)
    (hserves' : Serves t helpers position' request') :
    position = position' ↔ key t request = key t request' := by
  rw [Serves] at hserves hserves'
  constructor
  · rintro rfl
    exact Option.some.inj (hserves.symm.trans hserves')
  · intro hkey
    exact (List.getElem?_inj (List.getElem?_eq_some_iff.mp hserves).1 h.once).mp
      (by rw [hserves, hserves', hkey])

/-- The list of helpers and the handles that a sequence of requests is answered with. -/
structure Answers (t : Tables) (requests : List Request) (handles : List Nat)
    (helpers : HelperList) : Prop where
  /-- Each request is given the position of its helper. -/
  served : List.Forall₂ (Serves t helpers) handles requests
  /-- Requests share a handle exactly if they agree in operation and representation. -/
  shared : ∀ a ∈ handles.zip requests, ∀ b ∈ handles.zip requests,
    a.1 = b.1 ↔ a.2.1 = b.2.1 ∧ t.representation a.2.2 = t.representation b.2.2
  /-- No pair is declared twice. -/
  once : helpers.keys.Nodup
  /-- The pairs that are declared are those that the requests lead to. -/
  closed : ∀ pair, pair ∈ helpers.keys ↔ Reached t requests pair
  /-- The name of each helper is that of its operation on its type. -/
  named : ∀ helper ∈ helpers, t.helperName? helper.op helper.type = some helper.name
  defined : ∀ helper ∈ helpers, Defined t helpers helper
  /-- The calls of a helper are written down by the names of the helpers it needs. -/
  calls : ∀ helper ∈ helpers, List.Forall₂
    (fun call need => t.helperName? need.1 (t.representation need.2) = some (helpers.nameAt call))
    helper.calls (needs t helper.op helper.type)
  /-- The next request is answered too, however deep requests may nest beyond the number of
  pairs of an operation and a type. -/
  next : ∀ request : Request, request.2 < t.types.size → ∃ answer,
    ∀ bound > LifetimeOp.all.length * t.types.size,
      requestWithin t bound helpers request.1 request.2 = some answer

section Run

variable (he : t.Enclosed) (hends : t.AliasesEnd true) (hcycle : t.NoAliasCycle)
include he hends hcycle

/-- From the empty list on there is room for every sequence of requests. -/
theorem exists_requestAll (requests : List Request)
    (hrequests : ∀ request ∈ requests, request.2 < t.types.size) :
    ∃ handles helpers, requestAll t requests = some (handles, helpers) ∧
      Extends t requests [] helpers ∧ List.Forall₂ (Serves t helpers) handles requests := by
  have hempty : Valid t [] := ⟨by simp, by simp, by simp⟩
  exact exists_requestEach (LifetimeOp.all.length * t.types.size + 1)
    (fun helpers request => exists_requestWithin he hends hcycle _ helpers request) [] hempty requests
    hrequests (Nat.lt_succ_of_le (card_missing_le t []))

end Run

/-- In tables without alias cycles every sequence of requests is answered, and when the last one
returns each pair of an operation and a representation that the requests lead to has one helper,
which has its name, is defined and calls the helpers that its plan needs. A chain of aliases ends,
and no type leads back to itself through weak aliases, elements, parameters and results. -/
theorem requestAll_lists_each_once (t : Tables) (he : t.Enclosed) (hends : t.AliasesEnd true)
    (hcycle : t.NoAliasCycle) (requests : List Request)
    (hrequests : ∀ request ∈ requests, request.2 < t.types.size) :
    ∃ handles helpers, requestAll t requests = some (handles, helpers) ∧
      ofRequests t requests = some helpers ∧ Answers t requests handles helpers := by
  obtain ⟨handles, helpers, hrun, ⟨hvalid, new, hnew, hadded⟩, hserves⟩ :=
    exists_requestAll he hends hcycle requests hrequests
  obtain rfl : helpers = new := hnew
  have hcomplete : ∀ helper ∈ helpers, Complete t helpers helper := fun helper hhelper =>
    (hadded helper hhelper).1
  refine ⟨handles, helpers, hrun, by rw [ofRequests_eq, hrun, Option.map_some], hserves, ?_,
    hvalid.once, ?_, hvalid.named, fun helper hhelper => (hcomplete helper hhelper).defined, ?_, ?_⟩
  · rintro ⟨p, r⟩ ha ⟨q, s⟩ hb
    rw [(List.forall₂_zip hserves ha).eq_iff hvalid (List.forall₂_zip hserves hb)]
    simp [key]
  · refine fun pair => ⟨?_, mem_keys_of_reached hcomplete hserves⟩
    intro hmem
    obtain ⟨helper, hhelper, rfl⟩ := List.mem_map.mp hmem
    exact (hadded helper hhelper).2
  · intro helper hhelper
    exact (hcomplete helper hhelper).calls.imp fun _ _ => nameAt_of_serves hvalid
  · intro request hrequest
    obtain ⟨position, helpers, hrequest, -, -⟩ :=
      exists_requestWithin he hends hcycle (LifetimeOp.all.length * t.types.size + 1) helpers request
        hvalid hrequest (Nat.lt_succ_of_le (card_missing_le t helpers))
    exact ⟨(position, helpers), fun bound hbound => requestWithin_mono hbound hrequest⟩

/-- A struct that holds an array of itself: the helpers for the destruction of the struct and of
the array call each other, and a weak alias of the struct shares its helper. -/
theorem selfReferring_lists_each_once : Tables.selfReferring.Enclosed ∧
    Tables.selfReferring.AliasesEnd true ∧ Tables.selfReferring.NoAliasCycle ∧
    ∃ helpers, requestAll .selfReferring [(.destroy, 10), (.destroy, 9), (.destroy, 13)]
        = some ([0, 0, 2], helpers) ∧
      helpers.keys = [(.destroy, 9), (.destroy, 11), (.destroy, 13)] ∧
      helpers.map Helper.name = ["stela_destroy_S1B_1", "stela_destroy_AS1B_1", "stela_destroy_S1Q_4"] ∧
      helpers.map Helper.calls = [[1], [0], [0]] ∧
      ∀ helper ∈ helpers, Defined .selfReferring helpers helper := by
  have henclosed : Tables.selfReferring.Enclosed :=
    Tables.enclosed_of_forall (by decide +kernel) (by decide +kernel)
  have hends : Tables.selfReferring.AliasesEnd true :=
    Tables.aliasesEnd_of_rank id (by decide)
  have hcycle : Tables.selfReferring.NoAliasCycle :=
    Tables.noAliasCycle_of_rank (fun type => if type = 8 ∨ type = 10 ∨ type = 11 then type else 0)
      (by decide +kernel)
  have hlisted : (requestAll .selfReferring [(.destroy, 10), (.destroy, 9), (.destroy, 13)]).map
      (fun answer => (answer.1, keys answer.2, answer.2.map Helper.name, answer.2.map Helper.calls))
        = some ([0, 0, 2], [(.destroy, 9), (.destroy, 11), (.destroy, 13)],
          ["stela_destroy_S1B_1", "stela_destroy_AS1B_1", "stela_destroy_S1Q_4"], [[1], [0], [0]]) := by
    decide +kernel
  obtain ⟨handles, helpers, hrun, -, hanswers⟩ :=
    requestAll_lists_each_once .selfReferring henclosed hends hcycle
      [(.destroy, 10), (.destroy, 9), (.destroy, 13)] (by decide)
  rw [hrun] at hlisted
  simp only [Option.map_some, Option.some.injEq, Prod.mk.injEq] at hlisted
  obtain ⟨rfl, hkeys, hnames, hcalls⟩ := hlisted
  exact ⟨henclosed, hends, hcycle, helpers, hrun, hkeys, hnames, hcalls, hanswers.defined⟩

end HelperList

end Stela
