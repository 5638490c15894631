import Stela.Memory.Heap
import Stela.Proofs.Memory.Holding

/-!
# Outstanding references

A ledger keeps an account for each block that a program has asked for: how many
references to it are outstanding, and what it holds. It knows nothing of counts
and storage. As long as whoever gives up a reference holds one and uses the
block as what it is, the heap is as the ledger says: the count of a block is the
number of outstanding references, and the release of the last one, and nothing
before it, destroys what the block holds and frees it, once and by its true size.
-/

namespace Stela

/-- What a program does with the heap. -/
inductive HeapOp where
  | newArray (elemSize cap : Nat)
  | newClosure (hasDestructor : Bool) (envSize : Nat)
  | push (handle : Handle) (elem : Bytes)
  | retain (handle : Handle)
  | releaseArray (handle : Handle) (elemSize : Nat) (destructor : Bool)
  | releaseClosure (handle : Handle)
  | writeEnv (id : BlockId) (bytes : Bytes)
deriving Repr, DecidableEq

/-- What a block is used as. An array has elements of one size. -/
inductive BlockKind where
  | array (elemSize : Nat)
  | closure
deriving Repr, DecidableEq

/-- What is on record about a block. -/
structure Account where
  kind : BlockKind
  /-- The elements of an array in the order of their pushes, or the environment of a closure. -/
  parts : List Bytes
  /-- Whether the parts are destroyed with the block. A closure says so when it is created, an
  array when it is released. -/
  destroys : Bool
  /-- How many references are outstanding: one at creation and one more for each `retain`, less
  one for each release. -/
  held : Nat
deriving Repr, DecidableEq

/-- The accounts of all blocks, in the order of their creation. -/
abbrev Ledger := List Account

def HeapEvent.block : HeapEvent → BlockId
  | .destroyed id _ => id
  | .released id _ _ => id

namespace Account

/-- Whether someone holds a reference to a block of this kind. -/
def serves (a : Account) (kind : BlockKind) : Bool := 0 < a.held && a.kind == kind

/-- A block with outstanding references counts them and holds the parts. -/
def Describes (a : Account) (block : Block) : Prop :=
  match a.kind with
  | .array elemSize => ∃ b, block = .array b ∧ b.refcount = a.held ∧ b.Holds elemSize a.parts
  | .closure => ∃ env, block = .closure ⟨a.held, a.destroys, env⟩ ∧ a.parts = [env]

/-- The block of an account, live as long as a reference is outstanding. -/
def Shows (a : Account) (block : Block) : Prop :=
  if a.held = 0 then block = .freed else a.Describes block

/-- The end of a block: its parts are destroyed, one after the other, and its memory is given back
by the size it has. -/
def ending (a : Account) (id : BlockId) (size : Nat) : List HeapEvent :=
  (if a.destroys then a.parts.map (.destroyed id) else []) ++ [.released id size size]

end Account

/-- Storage of a block was replaced, each time by the size it had. -/
def Moves (id : BlockId) (events : List HeapEvent) : Prop :=
  ∀ event ∈ events, ∃ size, event = .released id size size

/-- Everything that happened to a block: growth, and the end once no reference is outstanding. -/
def Account.Told (a : Account) (id : BlockId) (events : List HeapEvent) : Prop :=
  ∃ moved, Moves id moved ∧
    if a.held = 0 then ∃ size, events = moved ++ a.ending id size else events = moved

namespace Ledger

/-- Whether whoever does this holds a reference to the block and uses it as what it is. -/
def allows (l : Ledger) : HeapOp → Bool
  | .push (some id) elem => l[id]?.any (·.serves (.array elem.length))
  | .retain (some id) => l[id]?.any fun a => 0 < a.held
  | .releaseArray (some id) elemSize _ => l[id]?.any (·.serves (.array elemSize))
  | .releaseClosure (some id) => l[id]?.any (·.serves .closure)
  | .writeEnv id bytes =>
    l[id]?.any fun a => a.serves .closure && a.parts.all (bytes.length ≤ ·.length)
  | _ => true

/-- One more element of an array. -/
def push (l : Ledger) (id : BlockId) (elem : Bytes) : Ledger :=
  l.modify id fun a => { a with parts := a.parts ++ [elem] }

/-- The ledger after an operation. Empty handles are on no account, but a push onto one opens one. -/
def apply (l : Ledger) : HeapOp → Ledger
  | .newArray elemSize _ => l ++ [⟨.array elemSize, [], false, 1⟩]
  | .newClosure hasDestructor envSize => l ++ [⟨.closure, [zeros envSize], hasDestructor, 1⟩]
  | .push none elem => push (l ++ [⟨.array elem.length, [], false, 1⟩]) l.length elem
  | .push (some id) elem => push l id elem
  | .retain (some id) => l.modify id fun a => { a with held := a.held + 1 }
  | .releaseArray (some id) _ destructor =>
    l.modify id fun a => { a with destroys := destructor, held := a.held - 1 }
  | .releaseClosure (some id) => l.modify id fun a => { a with held := a.held - 1 }
  | .writeEnv id bytes => l.modify id fun a => { a with parts := a.parts.map (writeBytes · 0 bytes) }
  | .retain none | .releaseArray none _ _ | .releaseClosure none => l

def run (ops : List HeapOp) : Ledger := ops.foldl apply []

/-- Whether every operation of a history is allowed when it is made. -/
def permits : Ledger → List HeapOp → Bool
  | _, [] => true
  | l, op :: ops => l.allows op && permits (l.apply op) ops

/-- What an operation adds to the log of the heap: nothing but replaced storage, unless it gives up
the last reference. -/
def Adds (l : Ledger) (op : HeapOp) (events : List HeapEvent) : Prop :=
  match op with
  | .push (some id) _ => Moves id events
  | .releaseArray (some id) _ _ | .releaseClosure (some id) =>
    ∃ a, (l.apply op)[id]? = some a ∧
      if a.held = 0 then ∃ size, events = a.ending id size else events = []
  | _ => events = []

end Ledger

namespace Heap

def apply (h : Heap) : HeapOp → Heap
  | .newArray elemSize cap => (h.newArray elemSize cap).2
  | .newClosure hasDestructor envSize => (h.newClosure hasDestructor envSize).2
  | .push handle elem => (h.push handle elem).2
  | .retain handle => h.retain handle
  | .releaseArray handle elemSize destructor => h.releaseArray handle elemSize destructor
  | .releaseClosure handle => h.releaseClosure handle
  | .writeEnv id bytes => h.writeEnv id bytes

def run (ops : List HeapOp) : Heap := ops.foldl apply empty

/-- What happened to a block. -/
def logOf (h : Heap) (id : BlockId) : List HeapEvent := h.events.filter (·.block == id)

theorem log_nil (h : Heap) : h.log [] = h := by simp [log]

theorem getElem?_set (h : Heap) (id other : BlockId) (block : Block) :
    (h.set id block).blocks[other]? =
      if id = other then (h.blocks[other]?).map fun _ => block else h.blocks[other]? := by
  rw [set, Array.getElem?_modify]

end Heap

/-- The heap is as the ledger says. -/
structure Ledger.Exact (l : Ledger) (h : Heap) : Prop where
  size : h.blocks.size = l.length
  block : ∀ (id : BlockId) (a : Account), l[id]? = some a →
    ∃ block, h.blocks[id]? = some block ∧ a.Shows block
  log : ∀ (id : BlockId) (a : Account), l[id]? = some a → a.Told id (h.logOf id)
  known : ∀ event ∈ h.events, event.block < l.length

namespace Ledger.Exact

variable {l : Ledger} {h : Heap} {id : BlockId} {a : Account}

theorem empty : Ledger.Exact [] .empty where
  size := rfl
  block := by simp
  log := by simp
  known := by simp [Heap.empty]

/-- When an account is opened, the others stay where they are. -/
theorem cases_open {b : Account} (hb : (l ++ [a])[id]? = some b) :
    l[id]? = some b ∧ id < l.length ∨ b = a ∧ id = l.length := by
  rcases Nat.lt_trichotomy id l.length with hlt | rfl | hgt
  · rw [List.getElem?_append_left hlt] at hb
    exact .inl ⟨hb, hlt⟩
  · refine .inr ⟨?_, rfl⟩
    simpa using hb.symm
  · rw [List.getElem?_eq_none (by rw [List.length_append]; exact hgt)] at hb
    cases hb

/-- A new block begins with an account of its own and an empty log. -/
theorem allocate (hx : l.Exact h) {block : Block} (ha : a.held ≠ 0) (hblock : a.Describes block) :
    Ledger.Exact (l ++ [a]) (h.allocate block).2 where
  size := by simp [Heap.allocate, hx.size]
  block := by
    intro id b hb
    rcases cases_open hb with ⟨hold, hlt⟩ | ⟨rfl, rfl⟩
    · obtain ⟨old, hget, hshows⟩ := hx.block id b hold
      refine ⟨old, ?_, hshows⟩
      rw [Heap.allocate, Array.getElem?_push_lt (by rw [hx.size]; exact hlt)]
      exact (Array.getElem?_eq_getElem _).symm.trans hget
    · refine ⟨block, ?_, ?_⟩
      · rw [Heap.allocate, ← hx.size]
        exact Array.getElem?_push_size
      · rw [Account.Shows, if_neg ha]
        exact hblock
  log := by
    intro id b hb
    rcases cases_open hb with ⟨hold, -⟩ | ⟨rfl, rfl⟩
    · exact hx.log id b hold
    · refine ⟨[], by simp [Moves], ?_⟩
      rw [if_neg ha]
      apply List.filter_eq_nil_iff.mpr
      intro event hevent
      simpa using Nat.ne_of_lt (hx.known event hevent)
  known := by
    intro event hevent
    rw [List.length_append]
    exact Nat.lt_add_right _ (hx.known event hevent)

/-- What is done to one block leaves the others as they are. -/
theorem touch (hx : l.Exact h) (ha : l[id]? = some a) {f : Account → Account} {block : Block}
    {events : List HeapEvent} (hblock : (f a).Shows block)
    (hown : ∀ event ∈ events, event.block = id) (htold : (f a).Told id (h.logOf id ++ events)) :
    Ledger.Exact (l.modify id f) ((h.set id block).log events) where
  size := by simp [Heap.log, Heap.set, hx.size]
  block := by
    intro other b hb
    show ∃ block', (h.set id block).blocks[other]? = some block' ∧ b.Shows block'
    rw [List.getElem?_modify] at hb
    rw [Heap.getElem?_set]
    by_cases hother : id = other
    · subst hother
      obtain ⟨old, hold, -⟩ := hx.block id a ha
      obtain rfl : f a = b := by simpa [ha] using hb
      exact ⟨block, by simp [hold], hblock⟩
    · simp only [hother, if_false, Option.map_eq_map, Option.map_id'] at hb ⊢
      exact hx.block other b hb
  log := by
    intro other b hb
    have hlog : ((h.set id block).log events).logOf other =
        h.logOf other ++ events.filter (·.block == other) := List.filter_append ..
    rw [hlog]
    rw [List.getElem?_modify] at hb
    by_cases hother : id = other
    · subst hother
      obtain rfl : f a = b := by simpa [ha] using hb
      rwa [List.filter_eq_self.mpr (by simpa using hown)]
    · have hnone : events.filter (·.block == other) = [] := by
        apply List.filter_eq_nil_iff.mpr
        intro event hevent
        rw [hown event hevent]
        simpa using hother
      rw [hnone, List.append_nil]
      simp only [hother, if_false, Option.map_eq_map, Option.map_id'] at hb
      exact hx.log other b hb
  known := by
    intro event hevent
    rw [List.length_modify]
    rcases List.mem_append.mp hevent with hold | hnew
    · exact hx.known event hold
    · rw [hown event hnew]
      exact (List.getElem?_eq_some_iff.mp ha).1

/-- The log of a block with outstanding references shows only growth. -/
theorem moves (hx : l.Exact h) (ha : l[id]? = some a) (hheld : 0 < a.held) :
    Moves id (h.logOf id) := by
  obtain ⟨moved, hmoved, htold⟩ := hx.log id a ha
  rw [if_neg (Nat.ne_of_gt hheld)] at htold
  rwa [htold]

theorem describes (hx : l.Exact h) (ha : l[id]? = some a) (hheld : 0 < a.held) :
    ∃ block, h.get? (some id) = some block ∧ a.Describes block := by
  obtain ⟨block, hget, hshows⟩ := hx.block id a ha
  rw [Account.Shows, if_neg (Nat.ne_of_gt hheld)] at hshows
  exact ⟨block, hget, hshows⟩

/-- A block that still has outstanding references stays live. -/
theorem keep (hx : l.Exact h) (ha : l[id]? = some a) (hheld : 0 < a.held) {f : Account → Account}
    (hf : (f a).held ≠ 0) {block : Block} (hblock : (f a).Describes block) {events : List HeapEvent}
    (hevents : Moves id events) : Ledger.Exact (l.modify id f) ((h.set id block).log events) := by
  apply hx.touch ha
  · rwa [Account.Shows, if_neg hf]
  · intro event hevent
    obtain ⟨size, rfl⟩ := hevents event hevent
    rfl
  · refine ⟨h.logOf id ++ events, ?_, by rw [if_neg hf]⟩
    intro event hevent
    rcases List.mem_append.mp hevent with hold | hnew
    · exact hx.moves ha hheld event hold
    · exact hevents event hnew

/-- A block that no reference is left to ends. -/
theorem finish (hx : l.Exact h) (ha : l[id]? = some a) (hheld : 0 < a.held) {f : Account → Account}
    (hf : (f a).held = 0) (size : Nat) :
    Ledger.Exact (l.modify id f) ((h.set id .freed).log ((f a).ending id size)) := by
  apply hx.touch ha
  · rw [Account.Shows, if_pos hf]
  · intro event hevent
    rcases List.mem_append.mp hevent with hpart | hmemory
    · split at hpart
      · obtain ⟨part, -, rfl⟩ := List.mem_map.mp hpart
        rfl
      · cases hpart
    · rw [List.mem_singleton.mp hmemory]
      rfl
  · refine ⟨h.logOf id, hx.moves ha hheld, ?_⟩
    rw [if_pos hf]
    exact ⟨size, rfl⟩

end Ledger.Exact

namespace Account

@[simp] theorem serves_iff {a : Account} {kind : BlockKind} :
    a.serves kind = true ↔ 0 < a.held ∧ a.kind = kind := by
  simp [serves]

theorem describes_array {elemSize held : Nat} {parts : List Bytes} {destroys : Bool} {block : Block} :
    Describes ⟨.array elemSize, parts, destroys, held⟩ block ↔
      ∃ b, block = .array b ∧ b.refcount = held ∧ b.Holds elemSize parts := Iff.rfl

theorem describes_closure {held : Nat} {parts : List Bytes} {destroys : Bool} {block : Block} :
    Describes ⟨.closure, parts, destroys, held⟩ block ↔
      ∃ env, block = .closure ⟨held, destroys, env⟩ ∧ parts = [env] := Iff.rfl

end Account

/-! ## Steps -/

/-- The operation adds to the log what the ledger says, and the heap is as the ledger says again. -/
def Ledger.Steps (l : Ledger) (h : Heap) (op : HeapOp) : Prop :=
  ∃ events, (h.apply op).events = h.events ++ events ∧ l.Adds op events ∧
    (l.apply op).Exact (h.apply op)

namespace Ledger

variable {l : Ledger} {h : Heap}

theorem steps_newArray (hx : l.Exact h) (elemSize cap : Nat) : l.Steps h (.newArray elemSize cap) := by
  refine ⟨[], (List.append_nil _).symm, rfl, ?_⟩
  apply hx.allocate Nat.one_ne_zero
  exact ⟨_, rfl, rfl, ArrayBlock.holds_new elemSize cap⟩

theorem steps_newClosure (hx : l.Exact h) (hasDestructor : Bool) (envSize : Nat) :
    l.Steps h (.newClosure hasDestructor envSize) := by
  refine ⟨[], (List.append_nil _).symm, rfl, ?_⟩
  apply hx.allocate Nat.one_ne_zero
  exact ⟨_, rfl, rfl⟩

/-- A push onto a live array, with the storage that growth gives back. -/
theorem push_of_get? {id : BlockId} {b : ArrayBlock} (hget : h.get? (some id) = some (.array b))
    (elem : Bytes) : (h.push (some id) elem).2 = (h.set id (.array (b.push elem))).log
      (if b.len = b.cap then [.released id b.size (elem.length * b.cap)] else []) := by
  simp only [Heap.push, hget]
  split
  · rfl
  · exact (Heap.log_nil _).symm

theorem steps_push (hx : l.Exact h) (id : BlockId) (elem : Bytes)
    (hallows : l.allows (.push (some id) elem)) : l.Steps h (.push (some id) elem) := by
  obtain ⟨⟨kind, parts, destroys, held⟩, ha, hserves⟩ := (Option.any_eq_true _ _).mp hallows
  obtain ⟨hheld, rfl⟩ := Account.serves_iff.mp hserves
  obtain ⟨block, hget, hblock⟩ := hx.describes ha hheld
  obtain ⟨b, rfl, hcount, hholds⟩ := Account.describes_array.mp hblock
  have hmoves : Moves id
      (if b.len = b.cap then [.released id b.size (elem.length * b.cap)] else []) := by
    intro event hevent
    split at hevent
    · rw [List.mem_singleton.mp hevent, hholds.size]
      exact ⟨_, rfl⟩
    · cases hevent
  have hrun : h.apply (.push (some id) elem) = _ := push_of_get? hget elem
  refine ⟨_, congrArg Heap.events hrun, hmoves, ?_⟩
  rw [hrun]
  apply hx.keep ha hheld (Nat.ne_of_gt hheld) _ hmoves
  refine ⟨b.push elem, rfl, ?_, hholds.push rfl⟩
  rw [← hcount, ArrayBlock.push]
  split <;> rfl

/-- A push onto an empty handle opens a block, which has room for the element, and pushes onto that. -/
theorem steps_push_none (hx : l.Exact h) (elem : Bytes) : l.Steps h (.push none elem) := by
  obtain ⟨-, -, -, hopen⟩ := steps_newArray hx elem.length Heap.firstCap
  have hnew : (l.apply (.newArray elem.length Heap.firstCap))[l.length]? =
      some ⟨.array elem.length, [], false, 1⟩ := by simp [apply]
  have hget : (h.newArray elem.length Heap.firstCap).2.get? (some l.length) =
      some (.array (.new elem.length Heap.firstCap)) := by
    rw [← hx.size]
    exact Array.getElem?_push_size
  have hrun : h.apply (.push none elem) =
      ((h.newArray elem.length Heap.firstCap).2.push (some l.length) elem).2 := by
    rw [← hx.size]
    rfl
  have hroom : (ArrayBlock.new elem.length Heap.firstCap).len ≠
      (ArrayBlock.new elem.length Heap.firstCap).cap := (Nat.succ_ne_zero 3).symm
  rw [push_of_get? hget, if_neg hroom] at hrun
  refine ⟨[], congrArg Heap.events hrun, rfl, ?_⟩
  rw [hrun]
  apply hopen.keep hnew Nat.one_pos Nat.one_ne_zero _ (by simp [Moves])
  exact ⟨_, rfl, rfl, (ArrayBlock.holds_new elem.length Heap.firstCap).push rfl⟩

theorem steps_retain (hx : l.Exact h) (id : BlockId) (hallows : l.allows (.retain (some id))) :
    l.Steps h (.retain (some id)) := by
  obtain ⟨⟨kind, parts, destroys, held⟩, ha, hserves⟩ := (Option.any_eq_true _ _).mp hallows
  have hheld : 0 < held := of_decide_eq_true hserves
  obtain ⟨block, hget, hblock⟩ := hx.describes ha hheld
  have keeps {counted : Block} (hrun : h.retain (some id) = h.set id counted)
      (hcounted : Account.Describes ⟨kind, parts, destroys, held + 1⟩ counted) :
      l.Steps h (.retain (some id)) := by
    have hlog : h.apply (.retain (some id)) = (h.set id counted).log [] :=
      hrun.trans (Heap.log_nil _).symm
    refine ⟨[], congrArg Heap.events hlog, rfl, ?_⟩
    rw [hlog]
    exact hx.keep ha hheld (Nat.succ_ne_zero _) hcounted (by simp [Moves])
  cases kind with
  | array elemSize =>
      obtain ⟨b, rfl, hcount, hholds⟩ := Account.describes_array.mp hblock
      apply keeps
      · simp only [Heap.retain, hget]
        rfl
      · exact ⟨_, rfl, congrArg (· + 1) hcount, hholds.len, hholds.room, hholds.size,
          hholds.written, hholds.parts⟩
  | closure =>
      obtain ⟨env, rfl, hparts⟩ := Account.describes_closure.mp hblock
      apply keeps
      · simp only [Heap.retain, hget]
        rfl
      · exact ⟨env, rfl, hparts⟩

/-- A release of either kind: it gives up one reference, and the block ends with the last one. -/
theorem steps_release (hx : l.Exact h) {id : BlockId} {a : Account} (ha : l[id]? = some a)
    (hheld : 0 < a.held) {op : HeapOp} {f : Account → Account} (hledger : l.apply op = l.modify id f)
    (hadds : ∀ {events}, (∃ b, (l.apply op)[id]? = some b ∧
      if b.held = 0 then ∃ size, events = b.ending id size else events = []) → l.Adds op events)
    (hlast : (f a).held = 0 → ∃ size, h.apply op = (h.set id .freed).log ((f a).ending id size))
    (hmore : (f a).held ≠ 0 → ∃ block, h.apply op = h.set id block ∧ (f a).Describes block) :
    l.Steps h op := by
  have hafter : (l.apply op)[id]? = some (f a) := by
    rw [hledger, List.getElem?_modify, ha]
    simp
  by_cases hend : (f a).held = 0
  · obtain ⟨size, hrun⟩ := hlast hend
    refine ⟨(f a).ending id size, congrArg Heap.events hrun, hadds ⟨f a, hafter, ?_⟩, ?_⟩
    · rw [if_pos hend]
      exact ⟨size, rfl⟩
    · rw [hledger, hrun]
      exact hx.finish ha hheld hend size
  · obtain ⟨block, hrun, hblock⟩ := hmore hend
    rw [← Heap.log_nil (h.set id block)] at hrun
    refine ⟨[], congrArg Heap.events hrun, hadds ⟨f a, hafter, ?_⟩, ?_⟩
    · rw [if_neg hend]
    · rw [hledger, hrun]
      exact hx.keep ha hheld hend hblock (by simp [Moves])

theorem steps_releaseArray (hx : l.Exact h) (id : BlockId) (elemSize : Nat) (destructor : Bool)
    (hallows : l.allows (.releaseArray (some id) elemSize destructor)) :
    l.Steps h (.releaseArray (some id) elemSize destructor) := by
  obtain ⟨⟨kind, parts, destroys, held⟩, ha, hserves⟩ := (Option.any_eq_true _ _).mp hallows
  obtain ⟨hheld, rfl⟩ := Account.serves_iff.mp hserves
  obtain ⟨block, hget, hblock⟩ := hx.describes ha hheld
  obtain ⟨b, rfl, rfl, hholds⟩ := Account.describes_array.mp hblock
  refine steps_release hx ha hheld rfl (fun hends => hends) ?_ ?_
  · intro hend
    have hone : b.refcount = 1 := Nat.le_antisymm (Nat.sub_eq_zero_iff_le.mp hend) hheld
    refine ⟨b.size, ?_⟩
    show h.releaseArray (some id) elemSize destructor = _
    simp only [Heap.releaseArray, hget, hone, if_true, hholds.elements, ← hholds.size]
    rfl
  · intro hmore
    have hone : b.refcount ≠ 1 := fun hone => hmore (by simp [hone])
    refine ⟨.array { b with refcount := b.refcount - 1 }, ?_, _, rfl, rfl, hholds.len, hholds.room,
      hholds.size, hholds.written, hholds.parts⟩
    show h.releaseArray (some id) elemSize destructor = _
    simp only [Heap.releaseArray, hget, hone, if_false]

theorem steps_releaseClosure (hx : l.Exact h) (id : BlockId)
    (hallows : l.allows (.releaseClosure (some id))) : l.Steps h (.releaseClosure (some id)) := by
  obtain ⟨⟨kind, parts, destroys, held⟩, ha, hserves⟩ := (Option.any_eq_true _ _).mp hallows
  obtain ⟨hheld, rfl⟩ := Account.serves_iff.mp hserves
  obtain ⟨block, hget, hblock⟩ := hx.describes ha hheld
  obtain ⟨env, rfl, rfl⟩ := Account.describes_closure.mp hblock
  refine steps_release hx ha hheld rfl (fun hends => hends) ?_ ?_
  · intro hend
    have hone : held = 1 := Nat.le_antisymm (Nat.sub_eq_zero_iff_le.mp hend) hheld
    refine ⟨ClosureBlock.headerSize + env.length, ?_⟩
    show h.releaseClosure (some id) = _
    simp only [Heap.releaseClosure, hget, hone, if_true]
    rfl
  · intro hmore
    have hone : held ≠ 1 := fun hone => hmore (by simp [hone])
    refine ⟨.closure ⟨held - 1, destroys, env⟩, ?_, env, rfl, rfl⟩
    show h.releaseClosure (some id) = _
    simp only [Heap.releaseClosure, hget, hone, if_false]

theorem steps_writeEnv (hx : l.Exact h) (id : BlockId) (bytes : Bytes)
    (hallows : l.allows (.writeEnv id bytes)) : l.Steps h (.writeEnv id bytes) := by
  obtain ⟨⟨kind, parts, destroys, held⟩, ha, hfits⟩ := (Option.any_eq_true _ _).mp hallows
  obtain ⟨hserves, -⟩ := Bool.and_eq_true_iff.mp hfits
  obtain ⟨hheld, rfl⟩ := Account.serves_iff.mp hserves
  obtain ⟨block, hget, hblock⟩ := hx.describes ha hheld
  obtain ⟨env, rfl, rfl⟩ := Account.describes_closure.mp hblock
  have hrun : h.apply (.writeEnv id bytes) =
      (h.set id (.closure ⟨held, destroys, writeBytes env 0 bytes⟩)).log [] := by
    rw [Heap.log_nil]
    show h.writeEnv id bytes = _
    simp only [Heap.writeEnv, hget]
  refine ⟨[], congrArg Heap.events hrun, rfl, ?_⟩
  rw [hrun]
  apply hx.keep ha hheld (Nat.ne_of_gt hheld) _ (by simp [Moves])
  exact ⟨_, rfl, rfl⟩

/-- What holds before an allowed operation holds after it. -/
theorem steps_of_allows (hx : l.Exact h) {op : HeapOp} (hallows : l.allows op) : l.Steps h op := by
  have idle {op : HeapOp} (hledger : l.apply op = l) (hheap : h.apply op = h)
      (hadds : l.Adds op []) : l.Steps h op := by
    refine ⟨[], ?_, hadds, ?_⟩
    · rw [hheap, List.append_nil]
    · rw [hledger, hheap]
      exact hx
  cases op with
  | newArray elemSize cap => exact steps_newArray hx elemSize cap
  | newClosure hasDestructor envSize => exact steps_newClosure hx hasDestructor envSize
  | push handle elem =>
      cases handle with
      | none => exact steps_push_none hx elem
      | some id => exact steps_push hx id elem hallows
  | retain handle =>
      cases handle with
      | none => exact idle rfl rfl rfl
      | some id => exact steps_retain hx id hallows
  | releaseArray handle elemSize destructor =>
      cases handle with
      | none => exact idle rfl rfl rfl
      | some id => exact steps_releaseArray hx id elemSize destructor hallows
  | releaseClosure handle =>
      cases handle with
      | none => exact idle rfl rfl rfl
      | some id => exact steps_releaseClosure hx id hallows
  | writeEnv id bytes => exact steps_writeEnv hx id bytes hallows

/-! ## Histories -/

/-- A history from a heap that is as the ledger says. -/
theorem exact_foldl (hx : l.Exact h) {ops : List HeapOp} (hpermits : l.permits ops) :
    Ledger.Exact (ops.foldl apply l) (ops.foldl Heap.apply h) := by
  induction ops generalizing l h with
  | nil => exact hx
  | cons op rest ih =>
      obtain ⟨hallows, hrest⟩ := Bool.and_eq_true_iff.mp hpermits
      obtain ⟨-, -, -, hnext⟩ := steps_of_allows hx hallows
      exact ih hnext hrest

/-- The elements of a live array stand one behind the other in its storage. -/
def Stores (l : Ledger) (h : Heap) : Prop :=
  ∀ (id : BlockId) (a : Account) (elemSize : Nat), l[id]? = some a → a.kind = .array elemSize →
    0 < a.held → ∃ b, h.get? (some id) = some (.array b) ∧
      ∀ (i : Nat) (part : Bytes), a.parts[i]? = some part →
        (b.storage.drop (i * elemSize)).take elemSize = part

theorem Exact.stores (hx : l.Exact h) : l.Stores h := by
  rintro id ⟨kind, parts, destroys, held⟩ elemSize ha rfl hheld
  obtain ⟨block, hget, hblock⟩ := hx.describes ha hheld
  obtain ⟨b, rfl, -, hholds⟩ := Account.describes_array.mp hblock
  exact ⟨b, hget, fun i part hpart => hholds.storage hpart⟩

end Ledger

/-- What is done with an empty handle changes nothing, but for a push, which first allocates a
block. -/
structure Heap.LeavesEmptyHandles (h : Heap) : Prop where
  retain : h.retain none = h
  releaseArray : ∀ elemSize destructor, h.releaseArray none elemSize destructor = h
  releaseClosure : h.releaseClosure none = h
  push : ∀ elem, h.push none elem =
    (h.newArray elem.length firstCap).2.push (some (h.newArray elem.length firstCap).1) elem

/-- After every history in which references are given up by those who hold them, the heap is as
the ledger says, and it stays so with every further operation of this kind: what that adds to the log
is the end of the block if it gives up the last reference, and no destructor call otherwise. -/
theorem Heap.run_counts_references (ops : List HeapOp) (hpermits : Ledger.permits [] ops) :
    (Ledger.run ops).Exact (run ops) ∧ (Ledger.run ops).Stores (run ops) ∧
      (∀ op, (Ledger.run ops).allows op → (Ledger.run ops).Steps (run ops) op) ∧
      (run ops).LeavesEmptyHandles := by
  have hx : (Ledger.run ops).Exact (run ops) := Ledger.exact_foldl .empty hpermits
  refine ⟨hx, hx.stores, ?_, ?_⟩
  · intro op hallows
    exact Ledger.steps_of_allows hx hallows
  · constructor
    case retain => rfl
    case releaseArray => exact fun _ _ => rfl
    case releaseClosure => rfl
    case push => exact fun _ => rfl

/-- An array that is shared for a while, beside a closure that writes to its environment. -/
def HeapOp.sharing : List HeapOp :=
  [.push none [7], .push (some 0) [8], .retain (some 0), .newClosure true 2, .writeEnv 1 [5],
    .releaseArray (some 0) 1 true, .releaseClosure (some 1), .releaseArray (some 0) 1 true]

/-- Each block is destroyed by its last release, the closure before the array. -/
theorem Heap.run_sharing_counts_references :
    Ledger.permits [] HeapOp.sharing = true ∧ (Ledger.run HeapOp.sharing).Exact (run HeapOp.sharing) ∧
      (Ledger.run HeapOp.sharing)[0]? = some ⟨.array 1, [[7], [8]], true, 0⟩ ∧
      (run HeapOp.sharing).events = [.destroyed 1 [5, 0], .released 1 34 34,
        .destroyed 0 [7], .destroyed 0 [8], .released 0 4 4] :=
  ⟨by decide, (run_counts_references HeapOp.sharing (by decide)).1, by decide, by decide⟩

end Stela
