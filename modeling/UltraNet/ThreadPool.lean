/-
`WorkStealingThreadPool`: every worker has a deque, a queue for other threads and
an event descriptor that its `IoReactor` reads through the ring.  The calls on the
deques and the queues go in the steps of `Deque` and `MpscQueue`; the kernel answers
in any order and at any time.
-/
import UltraNet.RunStates
import UltraNet.MpscQueue
import UltraNet.WorkStealing

namespace UltraNet

/-- Which loop a task was taken by. -/
inductive TaskOrigin where
  | deque
  | stolen
  | external
  | drainedDeque
  | drainedExternal

/-- The next step of `worker_thread`. -/
inductive WorkerPhase (T : Type) where
  | starting
  | checking
  | polling
  | reading
  | rearming
  | popping (hadWork : Bool)
  | stealing (hadWork : Bool) (start i : Nat)
  | fetching (hadWork : Bool)
  | running (task : Option T) (origin : TaskOrigin)
  | flushing
  | waiting
  | drainingDeque
  | drainingQueue
  | exited

/-- The worker may be in a call on its own deque. -/
def WorkerPhase.working {T : Type} : WorkerPhase T → Bool
  | .polling => true
  | .popping _ => true
  | .running _ _ => true
  | .drainingDeque => true
  | _ => false

/-- A worker with its reactor, the owner of its deque.  `counter` is the event
descriptor's, `armed` says that the kernel has the reactor's read of it, `wakeCqe`
that its completion is queued; `others` counts the other completions.  Ghosts: what
the worker started from a deque (an empty task is `none`) and from its queue. -/
structure PoolWorker (T : Type) where
  phase : WorkerPhase T
  deque : Deque T
  queue : MpscQueue T
  counter : Nat
  armed : Bool
  wakeCqe : Bool
  others : Nat
  taken : List (Option T)
  fetched : List (Option T)

/-- A step of a worker, or of the kernel on its ring. -/
inductive WorkerAction (T : Type) where
  | begin (gotSqe : Bool)
  | check
  | wakeCompletion
  | completion
  | polled
  | read
  | rearm (gotSqe : Bool)
  | pop
  -- the next step of a call on its deque
  | call (start : Nat)
  | giveUp
  | fetch
  | push (task : T)
  | ran
  | flush
  | awake (timedOut : Bool)
  | kernelRead
  | kernelError
  | complete
  | overflow

namespace PoolWorker

variable {T : Type}

/-- A worker of a pool with so many. -/
def fresh (num : Nat) : PoolWorker T :=
  ⟨.starting, Deque.init Deque.defaultCapacity num, MpscQueue.init, 0, false, false, 0, [], []⟩

/-- Where `worker_thread` goes on once a task has returned. -/
def resume : TaskOrigin → WorkerPhase T
  | .deque => .popping true
  | .stolen => .fetching true
  -- `had_work` is set, and the loop starts again by clearing it
  | .external => .popping false
  | .drainedDeque => .drainingDeque
  | .drainedExternal => .drainingQueue

/-- A step of `try_get_from_mpsc`: the worker goes on with `found` for the value it
gets, and with `missed` if it finds none. -/
def tryGetFromMpsc (capacity : MpscCapacity) (s : PoolWorker T) (found : TaskOrigin)
    (missed : WorkerPhase T) : Option (PoolWorker T) :=
  match s.queue.consumer with
  | .idle => do
      let queue ← s.queue.step capacity .pop
      some { s with queue := queue }
  | .advance item => do
      let queue ← s.queue.step capacity .consume
      some { s with
        queue := queue
        phase := .running item found
        fetched := s.fetched ++ [item] }
  | .loadSeq => do
      let queue ← s.queue.step capacity .consume
      match queue.consumer with
      | .idle => some { s with queue := queue, phase := missed }
      | _ => some { s with queue := queue }
  | _ => do
      let queue ← s.queue.step capacity .consume
      some { s with queue := queue }

/-- `pop` has returned. -/
def popReturned (num start : Nat) (s : PoolWorker T) : Option (Option T) → Option (PoolWorker T)
  | some task =>
      match s.phase with
      | .popping _ => some { s with phase := .running task .deque, taken := s.taken ++ [task] }
      | .drainingDeque =>
          some { s with phase := .running task .drainedDeque, taken := s.taken ++ [task] }
      | _ => none
  | none =>
      match s.phase with
      | .popping hadWork =>
          -- `try_steal_task` with one worker
          if num ≤ 1 then some { s with phase := .fetching hadWork }
          else if start < num then some { s with phase := .stealing hadWork start 0 }
          else none
      | .drainingDeque => some { s with phase := .drainingQueue }
      | _ => none

/-- `write` on the event descriptor, which leaves a full counter as it is. -/
def written (counter : Nat) : Nat :=
  if counter < 2 ^ 64 - 2 then counter + 1 else counter

/-- While a task or a handler is in `push`, its worker does nothing else. -/
def step (heap : ArrayHeap) (capacity : MpscCapacity) (num : Nat) (stop : Bool)
    (s : PoolWorker T) : WorkerAction T → Option (PoolWorker T)
  | .begin gotSqe =>
      match s.phase with
      | .starting => some { s with phase := .checking, armed := gotSqe }
      | _ => none
  | .check =>
      match s.phase with
      | .checking => some { s with phase := if stop then .drainingDeque else .polling }
      | _ => none
  | .wakeCompletion =>
      match s.phase, s.deque.owner, s.wakeCqe with
      | .polling, .idle, true => some { s with phase := .reading, wakeCqe := false }
      | _, _, _ => none
  | .completion =>
      match s.phase, s.deque.owner, s.others with
      | .polling, .idle, others + 1 => some { s with others := others }
      | _, _, _ => none
  | .polled =>
      match s.phase, s.deque.owner, s.wakeCqe, s.others with
      | .polling, .idle, false, 0 => some { s with phase := .popping false }
      | _, _, _, _ => none
  | .read =>
      match s.phase with
      | .reading => some { s with phase := .rearming, counter := 0 }
      | _ => none
  | .rearm gotSqe =>
      match s.phase with
      | .rearming => some { s with phase := .polling, armed := gotSqe }
      | _ => none
  | .pop =>
      match s.phase with
      | .popping _ | .drainingDeque => do
          let deque ← s.deque.step heap .pop
          some { s with deque := deque }
      | _ => none
  | .call start =>
      if s.phase.working then do
        let deque ← s.deque.step heap .owner
        match s.deque.popResult with
        | none => some { s with deque := deque }
        | some result => popReturned num start { s with deque := deque } result
      else none
  | .giveUp =>
      match s.phase with
      | .stealing hadWork _ i =>
          if i = num then some { s with phase := .fetching hadWork } else none
      | _ => none
  | .fetch =>
      match s.phase with
      | .fetching hadWork =>
          s.tryGetFromMpsc capacity .external (if hadWork then .popping false else .flushing)
      | .drainingQueue => s.tryGetFromMpsc capacity .drainedExternal .exited
      | _ => none
  | .push task =>
      -- by a task, or by the handler of a completion
      match s.phase with
      | .running _ _ | .polling => do
          let deque ← s.deque.step heap (.push task)
          some { s with deque := deque }
      | _ => none
  | .ran =>
      match s.phase, s.deque.owner with
      | .running _ origin, .idle => some { s with phase := resume origin }
      | _, _ => none
  | .flush =>
      match s.phase with
      | .flushing => some { s with phase := .waiting }
      | _ => none
  | .awake timedOut =>
      match s.phase with
      | .waiting =>
          if timedOut ∨ s.wakeCqe ∨ 0 < s.others then some { s with phase := .checking }
          else none
      | _ => none
  | .kernelRead =>
      if s.armed ∧ 0 < s.counter then
        some { s with counter := 0, armed := false, wakeCqe := true }
      else none
  | .kernelError =>
      if s.armed then some { s with armed := false, wakeCqe := true } else none
  | .complete => some { s with others := s.others + 1 }
  | .overflow => some { s with wakeCqe := false }

end PoolWorker

/-- A thread in `enqueue_external` or `submit_on_thread`. -/
inductive Submission (T : Type) where
  | idle
  | pushing (worker : Nat) (pinned : Bool) (task : T)
  | waking (worker : Nat)

/-- `next_worker` is `m_next_worker`; `farewell` is the next worker that the
destructor wakes. -/
structure ThreadPool (T : Type) where
  workers : List (PoolWorker T)
  next_worker : Nat
  submissions : Nat → Submission T
  stop : Bool
  farewell : Option Nat

inductive PoolAction (T : Type) where
  | worker (w : Nat) (action : WorkerAction T)
  | steal (thief : Nat)
  | submit (thread : Nat) (task : T)
  | submitOn (thread w : Nat) (task : T)
  | produce (thread : Nat) (spurious : Bool)
  | wake (thread : Nat)
  | destroy
  | wakeNext

namespace ThreadPool

variable {T : Type}

def init (num : Nat) : ThreadPool T :=
  ⟨List.replicate num (.fresh num), 0, fun _ => .idle, false, none⟩

def setWorker (s : ThreadPool T) (w : Nat) (worker : PoolWorker T) : ThreadPool T :=
  { s with workers := s.workers.set w worker }

def setSubmission (s : ThreadPool T) (thread : Nat) (submission : Submission T) : ThreadPool T :=
  { s with submissions := Function.update s.submissions thread submission }

/-- A call of `try_push` on the queue of a worker begins. -/
def startPush (capacity : MpscCapacity) (s : ThreadPool T) (thread w : Nat) (pinned : Bool)
    (task : T) : Option (ThreadPool T) := do
  let worker ← s.workers[w]?
  let queue ← worker.queue.step capacity (.push thread task)
  some ((s.setWorker w { worker with queue := queue }).setSubmission thread
    (.pushing w pinned task))

/-- The next round of `enqueue_external`. -/
def enqueueExternal (capacity : MpscCapacity) (s : ThreadPool T) (thread : Nat) (task : T) :
    Option (ThreadPool T) :=
  { s with next_worker := wrap64 (s.next_worker + 1) }.startPush capacity thread
    (s.next_worker % s.workers.length) false task

def wakeWorker (s : ThreadPool T) (w : Nat) : ThreadPool T :=
  match s.workers[w]? with
  | none => s
  | some worker => s.setWorker w { worker with counter := PoolWorker.written worker.counter }

/-- The worker whose deque `try_steal_task` tries in the round `i`. -/
def victim (s : ThreadPool T) (start i : Nat) : Nat := (start + i) % s.workers.length

def step (heap : ArrayHeap) (capacity : MpscCapacity) (s : ThreadPool T) :
    PoolAction T → Option (ThreadPool T)
  | .worker w action => do
      let worker ← s.workers[w]?
      let worker ← worker.step heap capacity s.workers.length s.stop action
      some (s.setWorker w worker)
  | .steal thief => do
      let worker ← s.workers[thief]?
      match worker.phase with
      | .stealing hadWork start i =>
          let passed := { worker with phase := .stealing hadWork start (i + 1) }
          if i = s.workers.length then none
          else if s.victim start i = thief then some (s.setWorker thief passed)
          else
            let other ← s.workers[s.victim start i]?
            let deque ← other.deque.step heap (.thief thief)
            let next := s.setWorker (s.victim start i) { other with deque := deque }
            match other.deque.stealResult thief with
            | none => some next
            | some none => some (next.setWorker thief passed)
            | some (some task) =>
                some (next.setWorker thief { worker with
                  phase := .running task .stolen
                  taken := worker.taken ++ [task] })
      | _ => none
  | .submit thread task =>
      match s.submissions thread with
      | .idle => s.enqueueExternal capacity thread task
      | _ => none
  | .submitOn thread w task =>
      match s.submissions thread with
      | .idle => s.startPush capacity thread w true task
      | _ => none
  | .produce thread spurious =>
      match s.submissions thread with
      | .pushing w pinned task => do
          let worker ← s.workers[w]?
          let queue ← worker.queue.step capacity (.run thread spurious)
          let next := s.setWorker w { worker with queue := queue }
          match worker.queue.producers thread, queue.producers thread with
          | .publish _ _ _, _ => some (next.setSubmission thread (.waking w))
          -- `try_push` has returned false
          | _, .idle =>
              if pinned then next.startPush capacity thread w true task
              else next.enqueueExternal capacity thread task
          | _, _ => some next
      | _ => none
  | .wake thread =>
      match s.submissions thread with
      | .waking w => some ((s.wakeWorker w).setSubmission thread .idle)
      | _ => none
  | .destroy => if s.stop then none else some { s with stop := true, farewell := some 0 }
  | .wakeNext =>
      match s.farewell with
      | some w =>
          if w < s.workers.length then some { s.wakeWorker w with farewell := some (w + 1) }
          else none
      | none => none

def machine (T : Type) (heap : ArrayHeap) (capacity : MpscCapacity) (num : Nat) :
    Machine (ThreadPool T) (PoolAction T) where
  start := init num
  step := step heap capacity

end ThreadPool

end UltraNet
