/-
The work-stealing deque when its calls come one after the other: the sizes are those
of 64 bits, and an allocation may fail.
-/
import UltraNet.DequeCapacity
import UltraNet.SlotClaims
import Mathlib.Algebra.GroupWithZero.Nat
import Mathlib.Data.Int.ModEq

namespace UltraNet

universe u

inductive QueueFault where
  | badAlloc
  -- an access behind the end of an array
  | outside
deriving DecidableEq

inductive QueueCall (T : Type u) where
  | push (item : T)
  | pop
  | steal

namespace WorkStealingQueue

/-- `CircularBuffer`.  A slot is empty before `put` and once its item was moved out. -/
structure Buffer (T : Type u) where
  capacity : Nat
  slots : List (Option T)
  sized : slots.length = capacity

namespace Buffer

variable {T : Type u}

def vacant (T : Type u) (capacity : Nat) : Buffer T :=
  ⟨capacity, List.replicate capacity none, List.length_replicate⟩

def make (heap : ArrayHeap) (capacity : Nat) : Except QueueFault (Buffer T) :=
  if heap.allocates capacity then .ok (vacant T capacity) else .error .badAlloc

def mask (buf : Buffer T) : Nat := slotMask buf.capacity

def address (buf : Buffer T) (index : Int) : Nat := index.toNat &&& buf.mask

def setSlot (buf : Buffer T) (p : Nat) (item : Option T) : Buffer T :=
  ⟨buf.capacity, buf.slots.set p item, by rw [List.length_set, buf.sized]⟩

def put (buf : Buffer T) (index : Int) (item : Option T) : Except QueueFault (Buffer T) :=
  if buf.address index < buf.capacity then .ok (buf.setSlot (buf.address index) item)
  else .error .outside

/-- The item is moved out of its slot. -/
def get (buf : Buffer T) (index : Int) : Except QueueFault (Option T × Buffer T) :=
  if buf.address index < buf.capacity then
    .ok (slotAt buf.slots (buf.address index), buf.setSlot (buf.address index) none)
  else .error .outside

/-- The loop of `resize`, with so many items to go. -/
def moveItems (old new : Buffer T) (index : Int) : Nat → Except QueueFault (Buffer T)
  | 0 => .ok new
  | count + 1 => do
      let (item, old) ← old.get index
      let new ← new.put index item
      moveItems old new (index + 1) count

def resize (heap : ArrayHeap) (buf : Buffer T) (bottom top : Int) :
    Except QueueFault (Buffer T) := do
  let new ← make heap (buf.capacity * 2 % 2 ^ 64)
  moveItems buf new top (bottom - top).toNat

end Buffer

end WorkStealingQueue

structure WorkStealingQueue (T : Type u) where
  top : Int
  bottom : Int
  buffer : WorkStealingQueue.Buffer T

namespace WorkStealingQueue

variable {T : Type u}

/-- The constructor. -/
def make (heap : ArrayHeap) (capacity : Nat) : Except QueueFault (WorkStealingQueue T) := do
  let buffer ← Buffer.make heap (roundUpToPowerOfTwo (max capacity minCapacity))
  return ⟨0, 0, buffer⟩

/-- The buffer that `push` puts its item into: a new one if one slot only is free. -/
def makeRoom (heap : ArrayHeap) (q : WorkStealingQueue T) : Except QueueFault (Buffer T) :=
  if (q.bottom - q.top).toNat ≥ q.buffer.mask then q.buffer.resize heap q.bottom q.top
  else .ok q.buffer

def push (heap : ArrayHeap) (q : WorkStealingQueue T) (item : T) :
    Except QueueFault (WorkStealingQueue T) := do
  let buffer ← q.makeRoom heap
  let buffer ← buffer.put q.bottom (some item)
  return ⟨q.top, q.bottom + 1, buffer⟩

def pop (q : WorkStealingQueue T) : Except QueueFault (Option (Option T) × WorkStealingQueue T) :=
  let b := q.bottom - 1
  let t := q.top
  if t ≤ b then do
    let (item, buffer) ← q.buffer.get b
    -- the last item is won by the compare-exchange on `top`
    if t = b then return (some item, ⟨t + 1, b + 1, buffer⟩)
    else return (some item, ⟨t, b, buffer⟩)
  else return (none, { q with bottom := b + 1 })

def steal (q : WorkStealingQueue T) :
    Except QueueFault (Option (Option T) × WorkStealingQueue T) :=
  let t := q.top
  let b := q.bottom
  if t ≥ b then return (none, q)
  else do
    let (item, buffer) ← q.buffer.get t
    return (some item, ⟨t + 1, b, buffer⟩)

def size (q : WorkStealingQueue T) : Nat := (max (q.bottom - q.top) 0).toNat

def capacity (q : WorkStealingQueue T) : Nat := q.buffer.capacity

/-- A call, with what `pop` and `steal` return. -/
def call (heap : ArrayHeap) (q : WorkStealingQueue T) :
    QueueCall T → Except QueueFault (Option (Option T) × WorkStealingQueue T)
  | .push item => do return (none, ← q.push heap item)
  | .pop => q.pop
  | .steal => q.steal

end WorkStealingQueue

/-- The calls on a plain list. -/
def QueueCall.onList {T : Type u} (items : List T) : QueueCall T → Option T × List T
  | .push item => (none, items ++ [item])
  | .pop => (items.getLast?, items.dropLast)
  | .steal => (items.head?, items.tail)

namespace WorkStealingQueue

variable {T : Type u}

/-- The capacity is a power of two above the size. -/
def CapacityOk (q : WorkStealingQueue T) : Prop :=
  (∃ k, q.capacity = 2 ^ k) ∧ q.size < q.capacity

/-- The calls return what they return on a plain list.  A `push` that cannot
allocate throws and leaves the queue as it was. -/
def Agrees (heap : ArrayHeap) : WorkStealingQueue T → List T → List (QueueCall T) → Prop
  | q, items, [] => q.CapacityOk ∧ q.size = items.length
  | q, items, call :: rest =>
      (q.CapacityOk ∧ q.size = items.length) ∧
        match q.call heap call with
        | .ok (result, next) => result = (call.onList items).1.map some ∧
            next.Agrees heap (call.onList items).2 rest
        | .error .badAlloc => (∃ item, call = .push item) ∧ q.Agrees heap items rest
        | .error .outside => False

/-- Every queue that the constructor makes with this capacity is a double-ended list. -/
def RefinesList (T : Type u) (capacity : Nat) : Prop :=
  ∀ (heap : ArrayHeap) (q : WorkStealingQueue T), make heap capacity = .ok q →
    ∀ calls, q.Agrees heap [] calls

end WorkStealingQueue

namespace WorkStealingQueue

variable {T : Type u}

theorem bind_ok {A B : Type u} {x : Except QueueFault A} {a : A} (hx : x = .ok a)
    (f : A → Except QueueFault B) : (x >>= f) = f a := by
  rw [hx]
  rfl

namespace Buffer

/-- The mask takes indices modulo the capacity. -/
def Regular (buf : Buffer T) : Prop := (∃ k, buf.capacity = 2 ^ k) ∧ buf.capacity < 2 ^ 63

variable {buf : Buffer T} {first : Nat} {items : List T}

theorem Regular.pos (hregular : buf.Regular) : 0 < buf.capacity := by
  obtain ⟨⟨k, hk⟩, -⟩ := hregular
  rw [hk]
  exact Nat.two_pow_pos k

theorem Regular.mask_eq (hregular : buf.Regular) : buf.mask = buf.capacity - 1 :=
  slotMask_eq hregular.pos hregular.2

theorem Regular.address_eq (hregular : buf.Regular) (index : Nat) :
    buf.address index = index % buf.capacity := by
  obtain ⟨k, hk⟩ := hregular.1
  rw [address, mask, Int.toNat_natCast, and_slotMask hk hregular.2]

theorem Regular.address_lt (hregular : buf.Regular) (index : Nat) :
    buf.address index < buf.capacity := by
  rw [hregular.address_eq]
  exact Nat.mod_lt _ hregular.pos

/-- Indices less than a lap apart have slots of their own. -/
theorem Regular.address_inj (hregular : buf.Regular) {i j : Nat}
    (hi : i < buf.capacity) (hj : j < buf.capacity)
    (hsame : buf.address (first + i : Nat) = buf.address (first + j : Nat)) : i = j := by
  rw [hregular.address_eq, hregular.address_eq] at hsame
  have hmod : i ≡ j [MOD buf.capacity] := Nat.ModEq.add_left_cancel' first hsame
  exact hmod.eq_of_lt_of_lt hi hj

/-- The items from an index on. -/
def Holds (buf : Buffer T) (first : Nat) (items : List T) : Prop :=
  items.length ≤ buf.capacity ∧ ∀ i item, items[i]? = some item →
    slotAt buf.slots (buf.address (first + i : Nat)) = some item

theorem Regular.put (hregular : buf.Regular) (hholds : buf.Holds first items)
    (hroom : items.length < buf.capacity) (item : T) :
    ∃ next, buf.put (first + items.length : Nat) (some item) = .ok next ∧
      next.capacity = buf.capacity ∧ next.Holds first (items ++ [item]) := by
  have hlt := hregular.address_lt (first + items.length)
  refine ⟨_, if_pos hlt, rfl, ?_, ?_⟩
  · rw [List.length_append]
    exact hroom
  · intro i other hother
    have hbound : buf.address (first + items.length : Nat) < buf.slots.length := by
      rw [buf.sized]
      exact hlt
    show slotAt (buf.slots.set _ (some item)) (buf.address (first + i : Nat)) = some other
    rw [slotAt_set _ _ _ _ hbound]
    obtain ⟨hi, -⟩ := List.getElem?_eq_some_iff.mp hother
    rw [List.length_append, List.length_singleton] at hi
    by_cases hlast : i = items.length
    · subst hlast
      rw [List.getElem?_concat_length] at hother
      rw [if_pos rfl, hother]
    · have hi : i < items.length := by omega
      rw [List.getElem?_append_left hi] at hother
      rw [if_neg fun hsame => hlast (hregular.address_inj (by omega) hroom hsame)]
      exact hholds.2 i other hother

/-- The item of one index comes out, and the others stay. -/
theorem Regular.get (hregular : buf.Regular) (hholds : buf.Holds first items) {j : Nat}
    {item : T} (hitem : items[j]? = some item) :
    ∃ next, buf.get (first + j : Nat) = .ok (some item, next) ∧
      next.capacity = buf.capacity ∧ ∀ i other, i ≠ j → items[i]? = some other →
        slotAt next.slots (next.address (first + i : Nat)) = some other := by
  have hlt := hregular.address_lt (first + j)
  have hj := (List.getElem?_eq_some_iff.mp hitem).1
  have hlength := hholds.1
  refine ⟨buf.setSlot (buf.address (first + j : Nat)) none, ?_, rfl, ?_⟩
  · rw [Buffer.get, if_pos hlt, hholds.2 j item hitem]
  · intro i other hne hother
    have hi := (List.getElem?_eq_some_iff.mp hother).1
    show slotAt (buf.slots.set _ none) (buf.address (first + i : Nat)) = some other
    rw [slotAt_set_none, if_neg fun hsame =>
      hne (hregular.address_inj (by omega) (by omega) hsame)]
    exact hholds.2 i other hother

theorem Regular.of_capacity {next : Buffer T} (hregular : buf.Regular)
    (hcapacity : next.capacity = buf.capacity) : next.Regular := by
  unfold Regular at hregular ⊢
  rwa [hcapacity]

theorem Regular.get_first (hregular : buf.Regular) {item : T}
    (hholds : buf.Holds first (item :: items)) :
    ∃ next, buf.get first = .ok (some item, next) ∧ next.capacity = buf.capacity ∧
      next.Holds (first + 1) items := by
  obtain ⟨next, hget, hcapacity, hothers⟩ :=
    hregular.get hholds (j := 0) (List.getElem?_cons_zero)
  refine ⟨next, hget, hcapacity, ?_, ?_⟩
  · rw [hcapacity]
    exact Nat.le_of_succ_le hholds.1
  · intro i other hother
    have hshift : first + 1 + i = first + (i + 1) := by omega
    rw [hshift]
    exact hothers (i + 1) other (Nat.succ_ne_zero i) (by rwa [List.getElem?_cons_succ])

theorem Regular.get_last (hregular : buf.Regular) {item : T}
    (hholds : buf.Holds first (items ++ [item])) :
    ∃ next, buf.get (first + items.length : Nat) = .ok (some item, next) ∧
      next.capacity = buf.capacity ∧ next.Holds first items := by
  obtain ⟨next, hget, hcapacity, hothers⟩ :=
    hregular.get hholds (List.getElem?_concat_length)
  have hlength := hholds.1
  rw [List.length_append] at hlength
  refine ⟨next, hget, hcapacity, ?_, ?_⟩
  · rw [hcapacity]
    omega
  · intro i other hother
    have hi := (List.getElem?_eq_some_iff.mp hother).1
    exact hothers i other (by omega) (by rwa [List.getElem?_append_left hi])

theorem moveItems_eq {old new : Buffer T} {passed rest : List T} (hold : old.Regular)
    (hnew : new.Regular) (hrest : old.Holds (first + passed.length) rest)
    (hpassed : new.Holds first passed)
    (hroom : passed.length + rest.length ≤ new.capacity) :
    ∃ final, moveItems old new (first + passed.length : Nat) rest.length = .ok final ∧
      final.capacity = new.capacity ∧ final.Holds first (passed ++ rest) := by
  induction rest generalizing old new passed with
  | nil => exact ⟨new, rfl, rfl, by rwa [List.append_nil]⟩
  | cons item rest ih =>
      rw [List.length_cons] at hroom
      obtain ⟨old', hget, holdCapacity, hold'⟩ := hold.get_first hrest
      obtain ⟨new', hput, hnewCapacity, hnew'⟩ := hnew.put hpassed (by omega) item
      have hnext : first + (passed ++ [item]).length = first + passed.length + 1 := by
        rw [List.length_append, List.length_singleton, Nat.add_assoc]
      obtain ⟨final, hmove, hfinal, hitems⟩ := ih (hold.of_capacity holdCapacity)
        (hnew.of_capacity hnewCapacity) (by rwa [hnext]) hnew'
        (by rw [List.length_append, List.length_singleton, hnewCapacity]; omega)
      refine ⟨final, ?_, hfinal.trans hnewCapacity, ?_⟩
      · rw [hnext] at hmove
        rw [List.length_cons, moveItems, bind_ok hget]
        show (new.put (first + passed.length : Nat) (some item) >>= fun new =>
          moveItems old' new ((first + passed.length : Nat) + 1) rest.length) = _
        rw [bind_ok hput]
        exact hmove
      · rwa [List.append_assoc] at hitems

end Buffer

/-- What the queue holds, and where. -/
structure Stores (q : WorkStealingQueue T) (first : Nat) (items : List T) : Prop where
  top : q.top = first
  bottom : q.bottom = (first + items.length : Nat)
  regular : q.buffer.Regular
  room : items.length < q.buffer.capacity
  holds : q.buffer.Holds first items

variable {q : WorkStealingQueue T} {first : Nat} {items : List T} {heap : ArrayHeap}

theorem Stores.size (hstores : q.Stores first items) : q.size = items.length := by
  rw [WorkStealingQueue.size, hstores.top, hstores.bottom]
  omega

theorem Stores.capacityOk (hstores : q.Stores first items) : q.CapacityOk :=
  ⟨hstores.regular.1, by rw [hstores.size]; exact hstores.room⟩

/-- The buffer has room for one more item, after a doubling if it was full; the
allocation may fail. -/
theorem Stores.makeRoom (hstores : q.Stores first items) (heap : ArrayHeap) :
    q.makeRoom heap = .error .badAlloc ∨
      ∃ buffer, q.makeRoom heap = .ok buffer ∧ buffer.Regular ∧
        items.length + 1 < buffer.capacity ∧ buffer.Holds first items := by
  have hmask := hstores.regular.mask_eq
  have hpos := hstores.regular.pos
  have hroom := hstores.room
  have hsize : (q.bottom - q.top).toNat = items.length := by
    rw [hstores.top, hstores.bottom]
    omega
  rw [WorkStealingQueue.makeRoom]
  by_cases hfull : (q.bottom - q.top).toNat ≥ q.buffer.mask
  · rw [if_pos hfull, Buffer.resize]
    obtain ⟨⟨k, hk⟩, hlt⟩ := hstores.regular
    have hdouble : q.buffer.capacity * 2 % 2 ^ 64 = q.buffer.capacity * 2 :=
      Nat.mod_eq_of_lt (by omega)
    rw [hdouble]
    cases hheap : heap.allocates (q.buffer.capacity * 2) with
    | false =>
        have hmake : Buffer.make heap (q.buffer.capacity * 2) =
            (.error .badAlloc : Except QueueFault (Buffer T)) := by
          rw [Buffer.make, hheap]
          rfl
        rw [hmake]
        exact .inl rfl
    | true =>
        have hmake : Buffer.make heap (q.buffer.capacity * 2) =
            .ok (Buffer.vacant T (q.buffer.capacity * 2)) := by
          rw [Buffer.make, hheap]
          rfl
        have hnew : (Buffer.vacant T (q.buffer.capacity * 2)).Regular :=
          ⟨⟨k + 1, by rw [Nat.pow_succ, ← hk]; rfl⟩, heap.bounded _ hheap⟩
        have hnone : (Buffer.vacant T (q.buffer.capacity * 2)).Holds first [] :=
          ⟨Nat.zero_le _, fun i item hitem => by cases hitem⟩
        have hholds : q.buffer.Holds (first + ([] : List T).length) items := hstores.holds
        obtain ⟨final, hmove, hcapacity, hitems⟩ :=
          Buffer.moveItems_eq hstores.regular hnew hholds hnone (by
            show 0 + items.length ≤ q.buffer.capacity * 2
            omega)
        refine .inr ⟨final, ?_, hnew.of_capacity hcapacity, ?_, hitems⟩
        · rw [bind_ok hmake, hsize, hstores.top]
          exact hmove
        · rw [hcapacity]
          show items.length + 1 < q.buffer.capacity * 2
          omega
  · rw [if_neg hfull]
    exact .inr ⟨q.buffer, rfl, hstores.regular, by omega, hstores.holds⟩

theorem Stores.push (hstores : q.Stores first items) (heap : ArrayHeap) (item : T) :
    q.push heap item = .error .badAlloc ∨
      ∃ next, q.push heap item = .ok next ∧ next.Stores first (items ++ [item]) := by
  rcases hstores.makeRoom heap with hfailed | ⟨buffer, hgrow, hregular, hroom, hholds⟩
  · rw [WorkStealingQueue.push, hfailed]
    exact .inl rfl
  · obtain ⟨next, hput, hcapacity, hitems⟩ :=
      hregular.put hholds (Nat.lt_of_succ_lt hroom) item
    have hbottom := hstores.bottom
    rw [← hbottom] at hput
    have hlength : (items ++ [item]).length = items.length + 1 := List.length_append
    refine .inr ⟨⟨q.top, q.bottom + 1, next⟩, ?_, hstores.top, ?_,
      hregular.of_capacity hcapacity, ?_, hitems⟩
    · rw [WorkStealingQueue.push, bind_ok hgrow, bind_ok hput]
      rfl
    · show q.bottom + 1 = _
      rw [hbottom, hlength]
      rfl
    · rw [hlength, hcapacity]
      exact hroom

theorem Stores.pop (hstores : q.Stores first items) :
    ∃ next first', q.pop = .ok (items.getLast?.map some, next) ∧
      next.Stores first' items.dropLast := by
  have htop := hstores.top
  have hbottom := hstores.bottom
  rcases List.eq_nil_or_concat items with rfl | ⟨front, item, rfl⟩
  · rw [List.length_nil, Nat.add_zero] at hbottom
    refine ⟨q, first, ?_, hstores⟩
    rw [WorkStealingQueue.pop, if_neg (by omega)]
    show Except.ok (none, (⟨q.top, q.bottom - 1 + 1, q.buffer⟩ : WorkStealingQueue T)) = _
    rw [Int.sub_add_cancel]
    rfl
  · rw [List.concat_eq_append] at hstores hbottom ⊢
    rw [List.length_append, List.length_singleton] at hbottom
    obtain ⟨next, hget, hcapacity, hitems⟩ := hstores.regular.get_last hstores.holds
    have hregular := hstores.regular.of_capacity hcapacity
    have hroom := hstores.room
    rw [List.length_append, List.length_singleton] at hroom
    have hb : q.bottom - 1 = (first + front.length : Nat) := by omega
    rw [List.getLast?_concat, List.dropLast_concat]
    rw [← hb] at hget
    have hpop : q.pop = if q.top = q.bottom - 1 then
        .ok (some (some item), ⟨q.top + 1, q.bottom - 1 + 1, next⟩)
        else .ok (some (some item), ⟨q.top, q.bottom - 1, next⟩) := by
      rw [WorkStealingQueue.pop, if_pos (by omega), bind_ok hget]
      rfl
    by_cases hlast : q.top = q.bottom - 1
    · have hempty : front = [] := List.length_eq_zero_iff.mp (by omega)
      subst hempty
      refine ⟨⟨q.top + 1, q.bottom - 1 + 1, next⟩, first + 1,
        by rw [hpop, if_pos hlast]; rfl, ?_, ?_, hregular, ?_, ?_⟩
      · show q.top + 1 = _
        omega
      · show q.bottom - 1 + 1 = _
        rw [List.length_nil]
        omega
      · rw [hcapacity]
        exact hstores.regular.pos
      · exact ⟨Nat.zero_le _, fun i other hother => by cases hother⟩
    · refine ⟨⟨q.top, q.bottom - 1, next⟩, first,
        by rw [hpop, if_neg hlast]; rfl, htop, hb, hregular, ?_, hitems⟩
      rw [hcapacity]
      exact Nat.lt_of_succ_lt hroom

theorem Stores.steal (hstores : q.Stores first items) :
    ∃ next first', q.steal = .ok (items.head?.map some, next) ∧
      next.Stores first' items.tail := by
  have htop := hstores.top
  have hbottom := hstores.bottom
  cases items with
  | nil =>
      rw [List.length_nil, Nat.add_zero] at hbottom
      refine ⟨q, first, ?_, hstores⟩
      rw [WorkStealingQueue.steal, if_pos (by omega)]
      rfl
  | cons item rest =>
      rw [List.length_cons] at hbottom
      obtain ⟨next, hget, hcapacity, hitems⟩ := hstores.regular.get_first hstores.holds
      have hroom := hstores.room
      rw [List.length_cons] at hroom
      refine ⟨⟨q.top + 1, q.bottom, next⟩, first + 1, ?_, ?_, ?_,
        hstores.regular.of_capacity hcapacity, ?_, hitems⟩
      · rw [WorkStealingQueue.steal, if_neg (by omega), htop, hget]
        rfl
      · show q.top + 1 = _
        omega
      · show q.bottom = _
        rw [hbottom, List.tail_cons]
        omega
      · rw [hcapacity, List.tail_cons]
        exact Nat.lt_of_succ_lt hroom

theorem Stores.call (hstores : q.Stores first items) (heap : ArrayHeap) (c : QueueCall T) :
    (q.call heap c = .error .badAlloc ∧ ∃ item, c = .push item) ∨
      ∃ next first', q.call heap c = .ok ((c.onList items).1.map some, next) ∧
        next.Stores first' (c.onList items).2 := by
  cases c with
  | push item =>
      rcases hstores.push heap item with hfailed | ⟨next, hpush, hnext⟩
      · refine .inl ⟨?_, item, rfl⟩
        rw [WorkStealingQueue.call, hfailed]
        rfl
      · refine .inr ⟨next, first, ?_, hnext⟩
        rw [WorkStealingQueue.call, bind_ok hpush]
        rfl
  | pop => exact .inr hstores.pop
  | steal => exact .inr hstores.steal

theorem Stores.agrees (hstores : q.Stores first items) (heap : ArrayHeap)
    (calls : List (QueueCall T)) : q.Agrees heap items calls := by
  induction calls generalizing q first items with
  | nil => exact ⟨hstores.capacityOk, hstores.size⟩
  | cons c rest ih =>
      refine ⟨⟨hstores.capacityOk, hstores.size⟩, ?_⟩
      rcases hstores.call heap c with ⟨hfailed, hpush⟩ | ⟨next, first', hcall, hnext⟩
      · rw [hfailed]
        exact ⟨hpush, ih hstores⟩
      · rw [hcall]
        exact ⟨rfl, ih hnext⟩

/-- The queue on an array of its own size. -/
def fresh (T : Type u) (size : Nat) : WorkStealingQueue T := ⟨0, 0, Buffer.vacant T size⟩

theorem make_eq (T : Type u) (heap : ArrayHeap) (capacity : Nat) :
    (make heap capacity : Except QueueFault (WorkStealingQueue T)) =
      if heap.allocates (roundUpToPowerOfTwo (max capacity minCapacity)) then
        .ok (fresh T (roundUpToPowerOfTwo (max capacity minCapacity)))
      else .error .badAlloc := by
  rw [make, Buffer.make]
  by_cases hheap : heap.allocates (roundUpToPowerOfTwo (max capacity minCapacity)) = true
  · rw [if_pos hheap, if_pos hheap]
    rfl
  · rw [if_neg hheap, if_neg hheap]
    rfl

theorem stores_fresh {k : Nat} (hlt : 2 ^ k < 2 ^ 63) :
    (fresh T (2 ^ k)).Stores 0 [] where
  top := rfl
  bottom := rfl
  regular := ⟨⟨k, rfl⟩, hlt⟩
  room := Nat.two_pow_pos k
  holds := ⟨Nat.zero_le _, fun i item hitem => by cases hitem⟩

/-- What the constructor makes of a capacity that can be rounded up. -/
theorem Stores.of_make {capacity : Nat} (hle : capacity ≤ 2 ^ 63)
    (hmake : make heap capacity = .ok q) :
    q = fresh T (roundUpToPowerOfTwo (max capacity minCapacity)) ∧ q.Stores 0 [] := by
  obtain ⟨k, hround, -⟩ := initialCapacity_eq hle
  rw [make_eq, hround] at hmake
  split at hmake
  · rename_i hheap
    cases hmake
    exact ⟨by rw [hround], stores_fresh (heap.bounded _ hheap)⟩
  · cases hmake

theorem refinesList_of_le {capacity : Nat} (hle : capacity ≤ 2 ^ 63) :
    RefinesList T capacity := fun heap _ hmake calls =>
  (Stores.of_make hle hmake).2.agrees heap calls

/-- A heap that has room for empty arrays only. -/
def fullHeap : ArrayHeap where
  allocates n := n == 0
  zero := rfl
  bounded n hn := by
    rw [beq_iff_eq.mp hn]
    decide

/-- The rounded capacity wraps round to 0, for which every heap has room. -/
theorem make_wrapped {capacity : Nat} (hlarge : 2 ^ 63 < capacity) (hlt : capacity < 2 ^ 64)
    (heap : ArrayHeap) : make heap capacity = .ok (fresh T 0) := by
  have hmax : max capacity minCapacity = capacity :=
    Nat.max_eq_left (Nat.le_trans (by decide) hlarge.le)
  have hround : roundUpToPowerOfTwo capacity = 0 :=
    (roundUpToPowerOfTwo_eq (Nat.le_trans (by decide) hlarge.le) hlt).2 hlarge
  rw [make_eq, hmax, hround, heap.zero]
  rfl

/-- The deque is a double-ended list from every initial capacity that can be rounded
up to a power of two. -/
theorem deque_refines_iff (T : Type u) (capacity : Nat) (hsize : capacity < 2 ^ 64) :
    RefinesList T capacity ↔ capacity ≤ 2 ^ 63 := by
  constructor
  · intro hrefines
    by_contra hlarge
    have hmake := make_wrapped (T := T) (Nat.lt_of_not_ge hlarge) hsize fullHeap
    obtain ⟨⟨-, hroom⟩, -⟩ := hrefines fullHeap (fresh T 0) hmake []
    exact Nat.not_lt_zero _ hroom
  · exact refinesList_of_le

theorem deque_refines_thousand : 1000 < 2 ^ 64 ∧ (RefinesList Nat 1000 ↔ 1000 ≤ 2 ^ 63) :=
  ⟨by decide, deque_refines_iff Nat 1000 (by decide)⟩

/-- The first `push` writes behind an array without elements. -/
theorem deque_writes_outside : ¬ RefinesList Nat (2 ^ 63 + 1) := by
  intro hrefines
  have hmake : make fullHeap (2 ^ 63 + 1) = .ok (fresh Nat 0) :=
    make_wrapped (by decide) (by decide) fullHeap
  obtain ⟨-, hcall⟩ := hrefines fullHeap (fresh Nat 0) hmake [.push 5]
  have hmask : ¬ ((0 : Int) - 0).toNat ≥ (Buffer.vacant Nat 0).mask := by decide
  have hgrow : (fresh Nat 0).makeRoom fullHeap = .ok (Buffer.vacant Nat 0) := if_neg hmask
  have hpush : (fresh Nat 0).call fullHeap (.push 5) = .error .outside := by
    rw [WorkStealingQueue.call, WorkStealingQueue.push, bind_ok hgrow]
    rfl
  rw [hpush] at hcall
  exact hcall

end WorkStealingQueue

end UltraNet
