/-
The hand-off of multishot receive completions to a coroutine, and the ring of
provided buffers that the completions take their buffers from.
-/
import Mathlib.Data.List.Basic
import Mathlib.Logic.Function.Basic

namespace UltraNet

/-- `bytes` is what the kernel has put into the buffer; nobody writes to it
before it is returned. -/
structure RecvChunkResult where
  res : Int
  flags : Nat
  bytes : List UInt8

namespace RecvChunkResult

def bufferId (chunk : RecvChunkResult) : Nat := chunk.flags >>> 16

def isEof (chunk : RecvChunkResult) : Bool := chunk.res = 0

def isError (chunk : RecvChunkResult) : Bool := chunk.res < 0

/-- `multishot_is_terminal`; `IORING_CQE_F_MORE` is 2. -/
def terminal (chunk : RecvChunkResult) : Bool :=
  if chunk.res ≤ 0 then true else chunk.flags &&& 2 = 0

end RecvChunkResult

/-- `waiter` and `bg` say whether the pointers are set. -/
structure RecvMultishotState where
  queue : List RecvChunkResult
  waiter : Bool
  stopped : Bool
  abandoned : Bool
  bg : Bool

namespace RecvMultishotState

def init : RecvMultishotState := ⟨[], false, false, false, false⟩

/-- `on_recv_chunk_handler`: whether the buffer is returned, whether the waiter
is resumed, and the state. -/
def onRecvChunk (state : RecvMultishotState) (chunk : RecvChunkResult) :
    Bool × Bool × RecvMultishotState :=
  if state.abandoned then (state.bg && 0 < chunk.res, false, state)
  else
    (false, state.waiter,
      { state with
        queue := state.queue ++ [chunk]
        stopped := state.stopped || chunk.terminal
        waiter := false })

def awaitReady (state : RecvMultishotState) : Bool :=
  !state.queue.isEmpty || state.stopped

/-- Whether the coroutine goes on at once. -/
def awaitSuspend (state : RecvMultishotState) : Bool × RecvMultishotState :=
  if !state.queue.isEmpty || state.stopped then (true, state)
  else (false, { state with waiter := true })

def awaitResume (state : RecvMultishotState) :
    RecvChunkResult × RecvMultishotState :=
  match state.queue with
  | [] => (⟨0, 0, []⟩, state)
  | chunk :: rest => (chunk, { state with queue := rest })

end RecvMultishotState

/-- `BufferGroup`: the buffers that the kernel may choose from, and what stands
in the slots from the tail of the ring on. -/
structure BufferGroup where
  available : List Nat
  slots : Nat → Nat

namespace BufferGroup

def init (entries : Nat) : BufferGroup := ⟨List.range entries, fun _ => 0⟩

def returnBuffer (group : BufferGroup) (bid bufOffset : Nat) : BufferGroup :=
  { group with slots := Function.update group.slots bufOffset bid }

def advanceRing (group : BufferGroup) (count : Nat) : BufferGroup where
  available := group.available ++ (List.range count).map group.slots
  slots i := group.slots (count + i)

/-- The loop that returns a batch from offset `i` on. -/
def fill (group : BufferGroup) (i : Nat) : List Nat → BufferGroup
  | [] => group
  | bid :: bids => fill (group.returnBuffer bid i) (i + 1) bids

def returnBatch (group : BufferGroup) (bids : List Nat) : BufferGroup :=
  let filled := group.fill 0 bids
  if bids = [] then filled else filled.advanceRing bids.length

theorem fill_available (group : BufferGroup) (i : Nat) (bids : List Nat) :
    (group.fill i bids).available = group.available := by
  induction bids generalizing group i with
  | nil => rfl
  | cons bid bids ih => exact ih (group.returnBuffer bid i) (i + 1)

theorem fill_slots_lt (group : BufferGroup) {i j : Nat} (hlt : j < i)
    (bids : List Nat) : (group.fill i bids).slots j = group.slots j := by
  induction bids generalizing group i with
  | nil => rfl
  | cons bid bids ih =>
      refine (ih (group.returnBuffer bid i) (Nat.lt_succ_of_lt hlt)).trans ?_
      exact Function.update_of_ne (Nat.ne_of_lt hlt) ..

theorem fill_slots (group : BufferGroup) (i : Nat) (bids : List Nat) :
    (List.range' i bids.length).map (group.fill i bids).slots = bids := by
  induction bids generalizing group i with
  | nil => rfl
  | cons bid bids ih =>
      have hfirst : (group.fill i (bid :: bids)).slots i = bid := by
        refine (fill_slots_lt (group.returnBuffer bid i) (Nat.lt_succ_self i)
          bids).trans ?_
        exact Function.update_self ..
      rw [List.length_cons, List.range'_succ, List.map_cons, hfirst]
      exact congrArg _ (ih (group.returnBuffer bid i) (i + 1))

/-- A batch is returned whole. -/
@[simp]
theorem returnBatch_available (group : BufferGroup) (bids : List Nat) :
    (group.returnBatch bids).available = group.available ++ bids := by
  rw [returnBatch]
  split
  next hempty =>
    rw [hempty, List.append_nil]
    exact group.fill_available 0 []
  next hne =>
    rw [advanceRing, fill_available, List.range_eq_range', fill_slots]

end BufferGroup

end UltraNet
