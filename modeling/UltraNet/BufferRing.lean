/-
A connection over a buffer ring: `BufferRingAssembler`, the completions of its
multishot receive, and a coroutine that reads through it or echoes in place.
-/
import UltraNet.GuardedRun
import UltraNet.InlineFrame
import UltraNet.RecvMultishot

namespace UltraNet

/-- Where a chunk is awaited: in a call of `next_chunk` by the user, as the
first one of a frame in `echo_inplace_ring`, or as a further one. -/
inductive RingAwait where
  | direct
  | first
  | more (info : InlineFrameInfo) (accumulated : Nat) (bids : List Nat)

/-- What the coroutine does next.  A write of `echo_inplace_ring` holds the
buffers of its frame. -/
inductive RingPhase where
  | user
  | ready (await : RingAwait)
  | suspend (await : RingAwait)
  | suspended (await : RingAwait)
  | resume (await : RingAwait)
  | write (opcode : OpCode) (bids : List Nat)

/-- `hasGroup` is whether `m_bg` is set.  `received` are the chunks that the user
has from `next_chunk` and has not given to `append_chunk`.  `submitted` and
`ended` are of the receive in the kernel.  `started` and `cleanups` are ghosts:
whether `start` was called, and the calls of `cleanup` since then. -/
structure RingConnection where
  group : BufferGroup
  state : RecvMultishotState
  hasGroup : Bool
  pendingBids : List Nat
  reasm : List UInt8
  received : List RecvChunkResult
  phase : RingPhase
  closed : Bool
  destroyed : Bool
  submitted : Bool
  ended : Bool
  started : Bool
  cleanups : Nat

/-- `start` may fail to submit.  `run` is a step of the coroutine up to its next
section under the lock or its next write, which ends with `wrote` or `threw`. -/
inductive RingEvent where
  | start (submitted : Bool)
  | complete (chunk : RecvChunkResult)
  | nextChunk
  | echoInplaceRing
  | appendChunk (index : Nat)
  | consumeBytes (n : Nat)
  | returnReasmBuffers
  | cleanup
  | destroy
  | run
  | wrote
  | threw

namespace RingConnection

def init (entries : Nat) : RingConnection where
  group := .init entries
  state := .init
  hasGroup := false
  pendingBids := []
  reasm := []
  received := []
  phase := .user
  closed := false
  destroyed := false
  submitted := false
  ended := false
  started := false
  cleanups := 0

def start (s : RingConnection) (submitted : Bool) : RingConnection :=
  { s with
    hasGroup := true
    state := { s.state with bg := true }
    submitted := submitted
    started := true
    cleanups := 0 }

/-- `to_resume.resume()`. -/
def resumeWaiter : RingPhase → RingPhase
  | .suspended await => .resume await
  | phase => phase

/-- The kernel takes the buffer of a completion with data; the completion thread
calls the handler. -/
def complete (s : RingConnection) (chunk : RecvChunkResult) : RingConnection :=
  let group :=
    if 0 < chunk.res then
      { s.group with available := s.group.available.erase chunk.bufferId }
    else s.group
  let (returned, resumed, state) := s.state.onRecvChunk chunk
  { s with
    group := if returned then group.returnBatch [chunk.bufferId] else group
    state := state
    phase := if resumed then resumeWaiter s.phase else s.phase
    ended := chunk.terminal }

/-- The kernel has a buffer for the data, and it is the last completion that is
terminal. -/
def CanComplete (s : RingConnection) (chunk : RecvChunkResult) : Prop :=
  s.submitted ∧ ¬ s.ended ∧ (0 < chunk.res →
    chunk.bufferId ∈ s.group.available ∧ chunk.res = chunk.bytes.length)

instance (s : RingConnection) (chunk : RecvChunkResult) :
    Decidable (s.CanComplete chunk) :=
  inferInstanceAs (Decidable (_ ∧ _ ∧ (_ → _)))

/-- A chunk without data is dropped.  Without a group the pointer is null. -/
def appendChunk (s : RingConnection) (index : Nat) : Option RingConnection :=
  match s.received[index]? with
  | none => none
  | some chunk =>
      let s := { s with received := s.received.eraseIdx index }
      if chunk.res ≤ 0 then some s
      else if !s.hasGroup then none
      else
        some { s with
          reasm := s.reasm ++ chunk.bytes
          pendingBids := s.pendingBids ++ [chunk.bufferId] }

def consumeBytes (s : RingConnection) (n : Nat) : RingConnection :=
  { s with reasm := if s.reasm.length ≤ n then [] else s.reasm.drop n }

def returnReasmBuffers (s : RingConnection) : Option RingConnection :=
  if !s.hasGroup && !s.pendingBids.isEmpty then none
  else
    some { s with
      group := s.group.returnBatch s.pendingBids
      pendingBids := [] }

/-- The loop of `cleanup` over the queue. -/
def drain (hasGroup : Bool) : BufferGroup → List RecvChunkResult → BufferGroup
  | group, [] => group
  | group, chunk :: rest =>
      drain hasGroup
        (if 0 < chunk.res ∧ hasGroup then group.returnBatch [chunk.bufferId]
          else group) rest

def cleanup (s : RingConnection) : Option RingConnection :=
  match s.returnReasmBuffers with
  | none => none
  | some s =>
      some { s with
        group := drain s.hasGroup s.group s.state.queue
        state :=
          { s.state with queue := [], abandoned := true, waiter := false,
                         bg := s.hasGroup }
        hasGroup := false
        cleanups := s.cleanups + 1 }

/-- The head of the loop that waits for the rest of a frame. -/
def collect (s : RingConnection) (info : InlineFrameInfo) (accumulated : Nat)
    (bids : List Nat) : RingConnection :=
  if accumulated < info.totalConsumed then
    { s with phase := .ready (.more info accumulated bids) }
  else { s with phase := .write info.opcode bids }

/-- What is done with a chunk. -/
def receive (s : RingConnection) (chunk : RecvChunkResult) :
    RingAwait → RingConnection
  | .direct => { s with phase := .user, received := s.received ++ [chunk] }
  | .first =>
      if chunk.isEof || chunk.isError then { s with phase := .user }
      else if s.hasGroup then
        let info := parseInlineFrame chunk.bytes
        match info.payloadStart with
        | some _ => { s with phase := .write info.opcode [chunk.bufferId] }
        | none => s.collect info chunk.res.toNat [chunk.bufferId]
      else { s with phase := .ready .first }
  | .more info accumulated bids =>
      if chunk.isEof || chunk.isError then
        { s with phase := .user, group := s.group.returnBatch bids }
      else
        s.collect info (accumulated + chunk.res.toNat)
          (bids ++ [chunk.bufferId])

def run (s : RingConnection) : Option RingConnection :=
  match s.phase with
  | .ready await =>
      if s.state.awaitReady then some { s with phase := .resume await }
      else some { s with phase := .suspend await }
  | .suspend await =>
      let (atOnce, state) := s.state.awaitSuspend
      some { s with
        state := state
        phase := if atOnce then .resume await else .suspended await }
  | .resume await =>
      let (chunk, state) := s.state.awaitResume
      some ({ s with state := state }.receive chunk await)
  | _ => none

/-- The buffers are returned after the write. -/
def wrote (s : RingConnection) : Option RingConnection :=
  match s.phase with
  | .write opcode bids =>
      some { s with
        group := s.group.returnBatch bids
        closed := s.closed || opcode = .close
        phase := .user }
  | _ => none

/-- The exception leaves `echo_inplace_ring`. -/
def threw (s : RingConnection) : Option RingConnection :=
  match s.phase with
  | .write _ _ => some { s with phase := .user }
  | _ => none

/-- Whether the user may call. -/
def idle (s : RingConnection) : Bool :=
  match s.phase with
  | .user => !s.destroyed
  | _ => false

/-- The user calls `start` once, and gives every chunk with data to
`append_chunk` before the assembler goes out of scope. -/
def step (s : RingConnection) : RingEvent → Option RingConnection
  | .start submitted =>
      if s.idle ∧ !s.started then some (s.start submitted) else none
  | .complete chunk => if s.CanComplete chunk then some (s.complete chunk) else none
  | .nextChunk => if s.idle then some { s with phase := .ready .direct } else none
  | .echoInplaceRing =>
      if s.idle then some { s with phase := .ready .first } else none
  | .appendChunk index => if s.idle then s.appendChunk index else none
  | .consumeBytes n => if s.idle then some (s.consumeBytes n) else none
  | .returnReasmBuffers => if s.idle then s.returnReasmBuffers else none
  | .cleanup => if s.idle then s.cleanup else none
  | .destroy =>
      if s.idle ∧ ∀ chunk ∈ s.received, chunk.res ≤ 0 then
        s.cleanup.map fun s => { s with destroyed := true }
      else none
  | .run => s.run
  | .wrote => s.wrote
  | .threw => s.threw

def machine (entries : Nat) : Machine RingConnection RingEvent :=
  ⟨init entries, step⟩

end RingConnection

end UltraNet
