/-
What a worker of the pool does in the steps in which it works with its deque and its
queue.
-/
import UltraNet.DequeSteps
import UltraNet.ThreadPool

namespace UltraNet

namespace WorkerPhase

variable {T : Type}

/-- The reactor's read is not out: the reactor is about to submit it. -/
def disarmed : WorkerPhase T → Bool
  | .starting => true
  | .reading => true
  | .rearming => true
  | _ => false

/-- `worker_thread` has found its deque empty and has pushed nothing since. -/
def emptied : WorkerPhase T → Bool
  | .stealing false _ _ => true
  | .fetching false => true
  | .flushing => true
  | .waiting => true
  | _ => false

theorem disarmed_of_working {phase : WorkerPhase T} (hworking : phase.working = true) :
    phase.disarmed = false := by
  cases phase <;> simp [working, disarmed] at hworking ⊢

theorem emptied_of_working {phase : WorkerPhase T} (hworking : phase.working = true) :
    phase.emptied = false := by
  cases phase <;> simp [working, emptied] at hworking ⊢

/-- `worker_thread` looks at no queue before it waits. -/
def resting : WorkerPhase T → Bool
  | .flushing => true
  | .waiting => true
  | _ => false

end WorkerPhase

/-- `try_pop` would find a value. -/
def MpscQueue.Readable {T : Type*} (capacity : MpscCapacity) (q : MpscQueue T) : Prop :=
  q.sequence (capacity.slot q.dequeuePos) = wrap64 (q.dequeuePos + 1)

namespace PoolWorker

variable {T : Type} {heap : ArrayHeap} {capacity : MpscCapacity} {num : Nat} {stop : Bool}
  {s next : PoolWorker T}

/-- Where a worker goes when `pop` has returned. -/
inductive PopEnds (s : PoolWorker T) : Option (Option T) → PoolWorker T → Prop where
  | runs (task : Option T) (hadWork : Bool) (hphase : s.phase = .popping hadWork) :
      PopEnds s (some task)
        { s with phase := .running task .deque, taken := s.taken ++ [task] }
  | drains (task : Option T) (hphase : s.phase = .drainingDeque) :
      PopEnds s (some task)
        { s with phase := .running task .drainedDeque, taken := s.taken ++ [task] }
  | alone (hadWork : Bool) (hphase : s.phase = .popping hadWork) :
      PopEnds s none { s with phase := .fetching hadWork }
  | steals (hadWork : Bool) (start : Nat) (hphase : s.phase = .popping hadWork) :
      PopEnds s none { s with phase := .stealing hadWork start 0 }
  | drained (hphase : s.phase = .drainingDeque) :
      PopEnds s none { s with phase := .drainingQueue }

theorem popReturned_ends {start : Nat} {result : Option (Option T)}
    (hstep : s.popReturned num start result = some next) : s.PopEnds result next := by
  cases result with
  | some task =>
      simp only [popReturned] at hstep
      split at hstep <;> simp only [Option.some.injEq, reduceCtorEq] at hstep
      case h_1 hadWork hphase => exact hstep ▸ .runs task hadWork hphase
      case h_2 hphase => exact hstep ▸ .drains task hphase
  | none =>
      simp only [popReturned] at hstep
      split at hstep
      case h_1 hadWork hphase =>
        split at hstep
        case isTrue =>
          obtain rfl := Option.some.inj hstep
          exact .alone hadWork hphase
        case isFalse =>
          obtain ⟨-, ⟨⟩⟩ := Option.ite_none_right_eq_some.mp hstep
          exact .steals hadWork start hphase
      case h_2 hphase =>
        obtain rfl := Option.some.inj hstep
        exact .drained hphase
      case h_3 => cases hstep

/-- A call on the deque takes a step, and may return from it. -/
theorem call_cases {start : Nat}
    (hstep : s.step heap capacity num stop (.call start) = some next) :
    ∃ deque, s.deque.step heap .owner = some deque ∧
      ((s.deque.popResult = none ∧ next = { s with deque := deque }) ∨
        ∃ result, s.deque.popResult = some result ∧
          { s with deque := deque }.PopEnds result next) := by
  obtain ⟨-, hcall⟩ := Option.ite_none_right_eq_some.mp hstep
  obtain ⟨deque, hdeque, hrest⟩ := Option.bind_eq_some_iff.mp hcall
  refine ⟨deque, hdeque, ?_⟩
  split at hrest
  case h_1 hsilent => exact .inl ⟨hsilent, (Option.some.inj hrest).symm⟩
  case h_2 result hresult => exact .inr ⟨result, hresult, popReturned_ends hrest⟩

/-- The call that an action begins. -/
inductive Begins : WorkerAction T → DequeMove T → Prop where
  | push (task : T) : Begins (.push task) (.push task)
  | pop : Begins .pop .pop

theorem begin_cases {action : WorkerAction T} {move : DequeMove T} (hbegins : Begins action move)
    (hstep : s.step heap capacity num stop action = some next) :
    s.phase.working = true ∧
      ∃ deque, s.deque.step heap move = some deque ∧ next = { s with deque := deque } := by
  cases hbegins
  all_goals
    simp only [step] at hstep
    split at hstep <;> try contradiction
    all_goals
      rename_i hphase
      obtain ⟨deque, hdeque, ⟨⟩⟩ := Option.bind_eq_some_iff.mp hstep
      exact ⟨by rw [hphase]; rfl, deque, hdeque, rfl⟩

theorem tryGetFromMpsc_cases {found : TaskOrigin} {missed : WorkerPhase T}
    (hstep : s.tryGetFromMpsc capacity found missed = some next) :
    ∃ queue : MpscQueue T, next = { s with queue := queue } ∨
      (∃ item, next = { s with
        queue := queue, phase := .running item found, fetched := s.fetched ++ [item] }) ∨
      (next = { s with queue := queue, phase := missed } ∧ ¬ queue.Readable capacity ∧
        queue.consumer = .idle) := by
  simp only [tryGetFromMpsc] at hstep
  split at hstep
  case h_1 =>
    obtain ⟨queue, -, ⟨⟩⟩ := Option.bind_eq_some_iff.mp hstep
    exact ⟨queue, .inl rfl⟩
  case h_2 item _ =>
    obtain ⟨queue, -, ⟨⟩⟩ := Option.bind_eq_some_iff.mp hstep
    exact ⟨queue, .inr (.inl ⟨item, rfl⟩)⟩
  case h_3 hconsumer =>
    obtain ⟨queue, hqueue, hrest⟩ := Option.bind_eq_some_iff.mp hstep
    simp only [MpscQueue.step, MpscQueue.tryPop, hconsumer] at hqueue
    split at hqueue
    case isTrue hmissed =>
      obtain rfl := Option.some.inj hqueue
      obtain rfl := Option.some.inj hrest
      exact ⟨_, .inr (.inr ⟨rfl, hmissed, rfl⟩)⟩
    case isFalse =>
      obtain rfl := Option.some.inj hqueue
      obtain rfl := Option.some.inj hrest
      exact ⟨_, .inl rfl⟩
  case h_4 =>
    obtain ⟨queue, -, ⟨⟩⟩ := Option.bind_eq_some_iff.mp hstep
    exact ⟨queue, .inl rfl⟩

end PoolWorker

end UltraNet
