/-
`MpscQueue`: a bounded queue of slots with sequence numbers, filled by any
number of producers and emptied by one consumer.  Each access to shared memory
is a step.
-/
import UltraNet.GuardedRun
import Mathlib.Algebra.Group.Int.Defs
import Mathlib.Algebra.Group.Nat.Defs
import Mathlib.Logic.Function.Basic

namespace UltraNet

/-- The capacity is a power of two, at least 2, and an array of so many slots
fits in the address space. -/
structure MpscCapacity where
  log : Nat
  two_le : 1 ≤ log
  fits : log ≤ 62

namespace MpscCapacity

def size (capacity : MpscCapacity) : Nat := 2 ^ capacity.log

/-- `pos & kMask`. -/
def slot (capacity : MpscCapacity) (pos : Nat) : Nat := pos &&& (capacity.size - 1)

end MpscCapacity

/-- `size_t`. -/
def wrap64 (n : Nat) : Nat := n % 2 ^ 64

/-- `static_cast<intptr_t>`. -/
def signed64 (n : Nat) : Int := if n < 2 ^ 63 then n else n - 2 ^ 64

/-- The next step of `emplace`.  `call` is a ghost: the number of the call. -/
inductive ProducerPhase (T : Type*) where
  | idle
  | loadPos (call : Nat) (item : T)
  | loadSeq (call : Nat) (item : T) (pos : Nat)
  | cas (call : Nat) (item : T) (pos : Nat)
  | moveData (call : Nat) (item : T) (pos : Nat)
  | publish (call : Nat) (item : T) (pos : Nat)

/-- The next step of `try_pop`. -/
inductive ConsumerPhase (T : Type*) where
  | idle
  | loadSeq
  | moveData
  | release (item : Option T)
  | advance (item : Option T)

/-- A slot whose value was moved out, or never set, has no data.  Ghosts: the
calls of `emplace` with their threads, the number of calls of `try_pop`, the
calls in the order of their successful compare-exchange, the calls whose value
was moved, the positions that were published, the values taken out, the calls
that failed with the number of positions claimed and not taken out, and for
each `try_pop` that returned nothing whether its slot was published. -/
structure MpscQueue (T : Type*) where
  sequence : Nat → Nat
  data : Nat → Option T
  enqueuePos : Nat
  dequeuePos : Nat
  producers : Nat → ProducerPhase T
  consumer : ConsumerPhase T
  calls : List (Nat × T)
  pops : Nat
  claims : List Nat
  moved : List Nat
  published : List Nat
  popped : List (Option T)
  rejected : List (Nat × Nat)
  misses : List Bool

/-- A compare-exchange may fail for no reason. -/
inductive MpscStep (T : Type*) where
  | push (thread : Nat) (item : T)
  | run (thread : Nat) (spurious : Bool)
  | pop
  | consume

namespace MpscQueue

variable {T : Type*}

def init : MpscQueue T where
  sequence i := i
  data _ := none
  enqueuePos := 0
  dequeuePos := 0
  producers _ := .idle
  consumer := .idle
  calls := []
  pops := 0
  claims := []
  moved := []
  published := []
  popped := []
  rejected := []
  misses := []

def goto (q : MpscQueue T) (thread : Nat) (phase : ProducerPhase T) :
    MpscQueue T :=
  { q with producers := Function.update q.producers thread phase }

def emplace (capacity : MpscCapacity) (q : MpscQueue T) (thread : Nat)
    (spurious : Bool) : Option (MpscQueue T) :=
  match q.producers thread with
  | .idle => none
  | .loadPos call item => some (q.goto thread (.loadSeq call item q.enqueuePos))
  | .loadSeq call item pos =>
      let dif := signed64 (q.sequence (capacity.slot pos)) - signed64 pos
      if dif = 0 then some (q.goto thread (.cas call item pos))
      else if dif < 0 then
        some { q.goto thread .idle with
          rejected := q.rejected ++
            [(call, q.claims.length - q.popped.length)] }
      else some (q.goto thread (.loadPos call item))
  | .cas call item pos =>
      if q.enqueuePos = pos ∧ !spurious then
        some { q.goto thread (.moveData call item pos) with
          enqueuePos := wrap64 (pos + 1)
          claims := q.claims ++ [call] }
      else some (q.goto thread (.loadSeq call item q.enqueuePos))
  | .moveData call item pos =>
      some { q.goto thread (.publish call item pos) with
        data := Function.update q.data (capacity.slot pos) (some item)
        moved := q.moved ++ [call] }
  | .publish _ _ pos =>
      some { q.goto thread .idle with
        sequence := Function.update q.sequence (capacity.slot pos)
          (wrap64 (pos + 1))
        published := q.published ++ [pos] }

def tryPop (capacity : MpscCapacity) (q : MpscQueue T) : Option (MpscQueue T) :=
  let slot := capacity.slot q.dequeuePos
  match q.consumer with
  | .idle => none
  | .loadSeq =>
      if q.sequence slot ≠ wrap64 (q.dequeuePos + 1) then
        some { q with
          consumer := .idle
          misses := q.misses ++ [decide (q.dequeuePos ∈ q.published)] }
      else some { q with consumer := .moveData }
  | .moveData =>
      some { q with
        consumer := .release (q.data slot)
        data := Function.update q.data slot none }
  | .release item =>
      some { q with
        consumer := .advance item
        sequence := Function.update q.sequence slot
          (wrap64 (q.dequeuePos + capacity.size))
        popped := q.popped ++ [item] }
  | .advance _ =>
      some { q with
        consumer := .idle
        dequeuePos := wrap64 (q.dequeuePos + 1) }

def step (capacity : MpscCapacity) (q : MpscQueue T) :
    MpscStep T → Option (MpscQueue T)
  | .push thread item =>
      match q.producers thread with
      | .idle =>
          some { q.goto thread (.loadPos q.calls.length item) with
            calls := q.calls ++ [(thread, item)] }
      | _ => none
  | .run thread spurious => q.emplace capacity thread spurious
  | .pop =>
      match q.consumer with
      | .idle => some { q with consumer := .loadSeq, pops := q.pops + 1 }
      | _ => none
  | .consume => q.tryPop capacity

def machine (capacity : MpscCapacity) :
    Machine (MpscQueue T) (MpscStep T) :=
  ⟨init, step capacity⟩

end MpscQueue

end UltraNet
