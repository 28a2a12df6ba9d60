/-
The work-stealing deque of a pool thread: `push` and `pop` of the owner and
`steal` of any number of thieves, with a step for each atomic load, store and
compare-exchange and for each move of a slot.  Buffers stay allocated, so a
buffer is an address range of one list of cells.
-/
import UltraNet.DequeCapacity
import UltraNet.GuardedRun
import UltraNet.SlotClaims

namespace UltraNet

variable {T : Type}

structure CircularBuffer where
  base : Nat
  capacity : Nat
deriving DecidableEq

def CircularBuffer.mask (buf : CircularBuffer) : Nat :=
  WorkStealingQueue.slotMask buf.capacity

/-- The cell of `m_buffer[index & m_mask]`. -/
def CircularBuffer.address (buf : CircularBuffer) (index : Int) : Nat :=
  buf.base + (index.toNat &&& buf.mask)

/-- What the owner does next. -/
inductive DequeOwner (T : Type) where
  | idle
  -- `push`
  | pushTop (item : T) (b : Int)
  | pushBuffer (item : T) (b t : Int)
  | resize (item : T) (b : Int) (old new : CircularBuffer) (i : Int)
  | pushPut (item : T) (b : Int) (buf : CircularBuffer)
  | pushBottom (b : Int)
  -- `pop`
  | popBuffer (b : Int)
  | popBottom (b : Int) (buf : CircularBuffer)
  | popTop (b : Int) (buf : CircularBuffer)
  | popCas (b : Int) (buf : CircularBuffer)
  | popWon (b : Int) (buf : CircularBuffer)
  | popRestore (b : Int)
  | popGet (b : Int) (buf : CircularBuffer)
  -- `put` behind the end of its array: what follows is undefined
  | outside
deriving DecidableEq

/-- The task that a `push` has not stored yet. -/
def DequeOwner.hand : DequeOwner T → Multiset T
  | .pushTop item _ | .pushBuffer item _ _ | .resize item .. | .pushPut item .. =>
      {item}
  | _ => 0

@[simp]
theorem DequeOwner.hand_idle : (DequeOwner.idle : DequeOwner T).hand = 0 := rfl

/-- What a thief does next. -/
inductive Thief where
  | idle
  | loadBottom (t : Int)
  | loadBuffer (t : Int)
  | cas (t : Int) (buf : CircularBuffer)
  | get (t : Int) (buf : CircularBuffer)
deriving DecidableEq

/-- The cell that a thief has won and has not emptied yet. -/
def Thief.won : Thief → Option Nat
  | .get t buf => some (buf.address t)
  | _ => none

/-- `WorkStealingQueue` with its threads.  `pushed`, `refused` and `returned` are
ghosts: the arguments of `push`, those of the calls that threw because no larger
buffer could be had, and what `pop` and `steal` returned; an empty task is `none`. -/
structure Deque (T : Type) where
  top : Int
  bottom : Int
  buffer : CircularBuffer
  cells : List (Option T)
  owner : DequeOwner T
  thieves : List Thief
  pushed : List T
  refused : List T
  returned : List (Option T)

inductive DequeMove (T : Type) where
  | push (item : T)
  | pop
  | owner
  | thief (thread : Nat)

namespace Deque

/-- The one step in which a slot is moved out and returned. -/
def takeSlot (s : Deque T) (p : Nat) : Deque T :=
  { s with cells := s.cells.set p none, returned := s.returned ++ [slotAt s.cells p] }

/-- `new_buffer->put(i, get(i))`. -/
def moveSlot (s : Deque T) (p q : Nat) : Deque T :=
  { s with cells := (s.cells.set p none).set q (slotAt s.cells p) }

/-- `static_cast<size_t>(b - t) >= buf->capacity() - 1` -/
def isFull (s : Deque T) (b t : Int) : Bool :=
  ((b - t) % 2 ^ 64).toNat ≥ s.buffer.mask

def ownerStep (heap : ArrayHeap) (s : Deque T) : Option (Deque T) :=
  match s.owner with
  | .idle => none
  | .pushTop item b => some { s with owner := .pushBuffer item b s.top }
  | .pushBuffer item b t =>
      if s.isFull b t then
        let size := s.buffer.capacity * 2 % 2 ^ 64
        if heap.allocates size then
          some { s with
            cells := s.cells ++ List.replicate size none,
            owner := .resize item b s.buffer ⟨s.cells.length, size⟩ t }
        -- `std::bad_alloc`
        else some { s with owner := .idle, refused := s.refused ++ [item] }
      else some { s with owner := .pushPut item b s.buffer }
  | .resize item b old new i =>
      if i < b then
        some { s.moveSlot (old.address i) (new.address i) with
          owner := .resize item b old new (i + 1) }
      else some { s with buffer := new, owner := .pushPut item b new }
  | .pushPut item b buf =>
      if buf.address b < buf.base + buf.capacity then
        some { s with
          cells := s.cells.set (buf.address b) (some item), owner := .pushBottom b }
      else some { s with owner := .outside }
  | .pushBottom b => some { s with bottom := b + 1, owner := .idle }
  | .popBuffer b => some { s with owner := .popBottom b s.buffer }
  | .popBottom b buf => some { s with bottom := b, owner := .popTop b buf }
  | .popTop b buf =>
      if s.top ≤ b then
        if s.top = b then some { s with owner := .popCas b buf }
        else some { s with owner := .popGet b buf }
      else some { s with owner := .popRestore b }
  | .popCas b buf =>
      if s.top = b then some { s with top := b + 1, owner := .popWon b buf }
      else some { s with owner := .popRestore b }
  | .popWon b buf => some { s with bottom := b + 1, owner := .popGet b buf }
  | .popRestore b => some { s with bottom := b + 1, owner := .idle }
  | .popGet b buf => some { s.takeSlot (buf.address b) with owner := .idle }
  | .outside => none

def setThief (s : Deque T) (thread : Nat) (thief : Thief) : Deque T :=
  { s with thieves := s.thieves.set thread thief }

def thiefStep (s : Deque T) (thread : Nat) : Thief → Deque T
  | .idle => s.setThief thread (.loadBottom s.top)
  | .loadBottom t =>
      if t ≥ s.bottom then s.setThief thread .idle
      else s.setThief thread (.loadBuffer t)
  | .loadBuffer t => s.setThief thread (.cas t s.buffer)
  | .cas t buf =>
      if s.top = t then { s.setThief thread (.get t buf) with top := t + 1 }
      else s.setThief thread .idle
  | .get t buf => (s.takeSlot (buf.address t)).setThief thread .idle

/-- A call of the owner includes its first load. -/
def step (heap : ArrayHeap) (s : Deque T) : DequeMove T → Option (Deque T)
  | .push item =>
      match s.owner with
      | .idle =>
          some { s with pushed := s.pushed ++ [item], owner := .pushTop item s.bottom }
      | _ => none
  | .pop =>
      match s.owner with
      | .idle => some { s with owner := .popBuffer (s.bottom - 1) }
      | _ => none
  | .owner => s.ownerStep heap
  | .thief thread => s.thieves[thread]?.map (s.thiefStep thread)

/-- What `pop` returns, if the next step of the owner is its last. -/
def popResult (s : Deque T) : Option (Option (Option T)) :=
  match s.owner with
  | .popRestore _ => some none
  | .popGet b buf => some (some (slotAt s.cells (buf.address b)))
  | _ => none

/-- What `steal` returns, if the next step of the thread is its last. -/
def stealResult (s : Deque T) (thread : Nat) : Option (Option (Option T)) :=
  match s.thieves[thread]? with
  | some (.loadBottom t) => if t ≥ s.bottom then some none else none
  | some (.cas t _) => if s.top = t then none else some none
  | some (.get t buf) => some (some (slotAt s.cells (buf.address t)))
  | _ => none

def size (s : Deque T) : Nat := (max (s.bottom - s.top) 0).toNat

def defaultCapacity : Nat := 1024

def initialCapacity (capacity : Nat) : Nat :=
  WorkStealingQueue.roundUpToPowerOfTwo (max capacity WorkStealingQueue.minCapacity)

/-- What the constructor makes if it gets its array. -/
def init (capacity thieves : Nat) : Deque T :=
  ⟨0, 0, ⟨0, initialCapacity capacity⟩,
    List.replicate (initialCapacity capacity) none, .idle,
    List.replicate thieves .idle, [], [], []⟩

def machine (heap : ArrayHeap) (capacity thieves : Nat) : Machine (Deque T) (DequeMove T) :=
  ⟨init capacity thieves, step heap⟩

/-- The buffer that holds the task of an index: a growth that is under way has
moved the lower ones. -/
def home (s : Deque T) (index : Int) : CircularBuffer :=
  match s.owner with
  | .resize _ _ _ new i => if index < i then new else s.buffer
  | _ => s.buffer

/-- A thief has won the task of this cell and has yet to move it. -/
def won (s : Deque T) (p : Nat) : Bool :=
  s.thieves.any fun thief => thief.won = some p

/-- No growth has moved the task that a thief wins since the thief loaded the
buffer, and no thief has yet to empty a slot that the owner moves or fills. -/
def undisturbed (s : Deque T) : DequeMove T → Bool
  | .owner =>
      match s.owner with
      | .resize _ b old new i =>
          i < b → !s.won (old.address i) && !s.won (new.address i)
      | .pushPut _ b buf => !s.won (buf.address b)
      | _ => true
  | .thief thread =>
      match s.thieves[thread]? with
      | some (.cas t buf) => s.top = t → buf = s.home t
      | _ => true
  | _ => true

/-- The tasks inside `[top, bottom)` of the current buffer. -/
def stored (s : Deque T) : List (Option T) :=
  (List.range (s.bottom - s.top).toNat).map fun n : Nat =>
    slotAt s.cells (s.buffer.address (s.top + n))

/-- No call is under way. -/
def Quiet (s : Deque T) : Prop :=
  s.owner = .idle ∧ ∀ thief ∈ s.thieves, thief = .idle

instance [DecidableEq T] (s : Deque T) : Decidable s.Quiet :=
  inferInstanceAs (Decidable (_ ∧ _))

end Deque

end UltraNet
