/-
No task of the pool is lost or started twice, as long as no deque is disturbed: what
the workers push to their deques is what they have started from deques and what the
deques hold, and every worker starts the tasks of its queue in the order in which they
were pushed.
-/
import UltraNet.MpscOrder
import UltraNet.PoolSteps
import UltraNet.SharedCount
import UltraNet.StealSafety

namespace UltraNet

namespace MpscQueue

variable {T : Type*} {capacity : MpscCapacity} {q q' : MpscQueue T}

/-- The value that `try_pop` has taken out and not returned yet. -/
def inHand (q : MpscQueue T) : List (Option T) :=
  match q.consumer with
  | .advance item => [item]
  | _ => []

/-- A thread that pushes takes nothing out. -/
theorem push_popped {thread : Nat} {item : T}
    (hstep : q.step capacity (.push thread item) = some q') :
    q'.popped = q.popped ∧ q'.consumer = q.consumer := by
  simp only [step] at hstep
  split at hstep <;> simp only [Option.some.injEq, reduceCtorEq] at hstep
  subst hstep
  exact ⟨rfl, rfl⟩

theorem run_popped {thread : Nat} {spurious : Bool}
    (hstep : q.step capacity (.run thread spurious) = some q') :
    q'.popped = q.popped ∧ q'.consumer = q.consumer := by
  cases hphase : q.producers thread <;> simp only [step, emplace, hphase] at hstep
  case idle => cases hstep
  case loadSeq =>
    split at hstep
    case isTrue =>
      obtain rfl := Option.some.inj hstep
      exact ⟨rfl, rfl⟩
    case isFalse =>
      split at hstep <;> (obtain rfl := Option.some.inj hstep; exact ⟨rfl, rfl⟩)
  case cas =>
    split at hstep <;> (obtain rfl := Option.some.inj hstep; exact ⟨rfl, rfl⟩)
  all_goals
    obtain rfl := Option.some.inj hstep
    exact ⟨rfl, rfl⟩

end MpscQueue

/-- The tasks that a deque has: in the hand of a `push` and in its cells. -/
def Deque.held {T : Type} (s : Deque T) : Multiset T := s.owner.hand + contents s.cells

namespace PoolWorker

variable {T : Type} {heap : ArrayHeap} {capacity : MpscCapacity} {num : Nat} {stop : Bool}
  {s next : PoolWorker T}

/-- The queue has come about by steps of its own, and the worker has started what it
took out of it. -/
structure Fetches (capacity : MpscCapacity) (s : PoolWorker T) : Prop where
  reached : ∃ word, (MpscQueue.machine capacity).run word = some s.queue
  fetched : s.queue.popped = s.fetched ++ s.queue.inHand

theorem fresh_fetches (num : Nat) : Fetches capacity (fresh num : PoolWorker T) :=
  ⟨⟨[], rfl⟩, rfl⟩

/-- A state that a run reaches, and one step more. -/
theorem reached_step {q q' : MpscQueue T} {action : MpscStep T}
    (hq : ∃ word, (MpscQueue.machine capacity).run word = some q)
    (hstep : q.step capacity action = some q') :
    ∃ word, (MpscQueue.machine capacity).run word = some q' := by
  obtain ⟨word, hrun⟩ := hq
  refine ⟨word ++ [action], ?_⟩
  rw [Machine.run_concat, hrun]
  exact hstep

/-- A step of another thread on the queue. -/
theorem Fetches.produced {queue : MpscQueue T} {action : MpscStep T} (hs : s.Fetches capacity)
    (hstep : s.queue.step capacity action = some queue)
    (hkept : queue.popped = s.queue.popped ∧ queue.consumer = s.queue.consumer) :
    { s with queue := queue }.Fetches capacity where
  reached := reached_step hs.reached hstep
  fetched := by
    simp only [MpscQueue.inHand, hkept.1, hkept.2]
    exact hs.fetched

theorem Fetches.keep (hs : s.Fetches capacity) (hqueue : next.queue = s.queue)
    (hfetched : next.fetched = s.fetched) : next.Fetches capacity where
  reached := hqueue ▸ hs.reached
  fetched := by
    rw [hqueue, hfetched]
    exact hs.fetched

/-- What `try_pop` moves out of its slot is in hand until it is returned. -/
theorem Fetches.tryGet {found : TaskOrigin} {missed : WorkerPhase T} (hs : s.Fetches capacity)
    (hstep : s.tryGetFromMpsc capacity found missed = some next) : next.Fetches capacity := by
  have hfetched := hs.fetched
  simp only [tryGetFromMpsc] at hstep
  split at hstep
  case h_1 hconsumer =>
    obtain ⟨queue, hqueue, ⟨⟩⟩ := Option.bind_eq_some_iff.mp hstep
    refine ⟨reached_step hs.reached hqueue, ?_⟩
    simp only [MpscQueue.step, hconsumer, Option.some.injEq] at hqueue
    subst hqueue
    simpa only [MpscQueue.inHand, hconsumer] using hfetched
  case h_2 item hconsumer =>
    obtain ⟨queue, hqueue, ⟨⟩⟩ := Option.bind_eq_some_iff.mp hstep
    refine ⟨reached_step hs.reached hqueue, ?_⟩
    simp only [MpscQueue.step, MpscQueue.tryPop, hconsumer, Option.some.injEq] at hqueue
    subst hqueue
    simpa only [MpscQueue.inHand, hconsumer, List.append_nil] using hfetched
  case h_3 hconsumer =>
    obtain ⟨queue, hqueue, hrest⟩ := Option.bind_eq_some_iff.mp hstep
    have hreached := reached_step hs.reached hqueue
    simp only [MpscQueue.step, MpscQueue.tryPop, hconsumer] at hqueue
    split at hqueue
    all_goals
      obtain rfl := Option.some.inj hqueue
      obtain rfl := Option.some.inj hrest
      refine ⟨hreached, ?_⟩
      simpa only [MpscQueue.inHand, hconsumer] using hfetched
  case h_4 hidle hadvance hload =>
    obtain ⟨queue, hqueue, ⟨⟩⟩ := Option.bind_eq_some_iff.mp hstep
    refine ⟨reached_step hs.reached hqueue, ?_⟩
    cases hconsumer : s.queue.consumer with
    | idle => exact absurd hconsumer hidle
    | loadSeq => exact absurd hconsumer hload
    | advance item => exact absurd hconsumer (hadvance item)
    | moveData =>
        simp only [MpscQueue.step, MpscQueue.tryPop, hconsumer, Option.some.injEq] at hqueue
        subst hqueue
        simpa only [MpscQueue.inHand, hconsumer] using hfetched
    | release item =>
        simp only [MpscQueue.step, MpscQueue.tryPop, hconsumer, Option.some.injEq] at hqueue
        subst hqueue
        simpa only [MpscQueue.inHand, hconsumer, List.append_nil, List.append_cancel_right_eq]
          using hfetched

theorem Fetches.step {action : WorkerAction T} (hs : s.Fetches capacity)
    (hstep : s.step heap capacity num stop action = some next) : next.Fetches capacity := by
  cases action with
  | fetch =>
      simp only [PoolWorker.step] at hstep
      split at hstep
      case h_1 => exact hs.tryGet hstep
      case h_2 => exact hs.tryGet hstep
      case h_3 => cases hstep
  | push task =>
      obtain ⟨-, deque, -, rfl⟩ := begin_cases (.push task) hstep
      exact hs.keep rfl rfl
  | pop =>
      obtain ⟨-, deque, -, rfl⟩ := begin_cases .pop hstep
      exact hs.keep rfl rfl
  | call start =>
      obtain ⟨deque, -, ⟨-, rfl⟩ | ⟨result, -, hends⟩⟩ := call_cases hstep
      · exact hs.keep rfl rfl
      · cases hends <;> exact hs.keep rfl rfl
  | giveUp =>
      simp only [PoolWorker.step] at hstep
      split at hstep <;> try contradiction
      obtain ⟨-, ⟨⟩⟩ := Option.ite_none_right_eq_some.mp hstep
      exact hs.keep rfl rfl
  | awake timedOut =>
      simp only [PoolWorker.step] at hstep
      split at hstep <;> try contradiction
      obtain ⟨-, ⟨⟩⟩ := Option.ite_none_right_eq_some.mp hstep
      exact hs.keep rfl rfl
  | kernelRead =>
      obtain ⟨-, ⟨⟩⟩ := Option.ite_none_right_eq_some.mp hstep
      exact hs.keep rfl rfl
  | kernelError =>
      obtain ⟨-, ⟨⟩⟩ := Option.ite_none_right_eq_some.mp hstep
      exact hs.keep rfl rfl
  | complete =>
      obtain rfl := Option.some.inj hstep
      exact hs.keep rfl rfl
  | overflow =>
      obtain rfl := Option.some.inj hstep
      exact hs.keep rfl rfl
  | _ =>
      simp only [PoolWorker.step] at hstep
      split at hstep <;> simp only [Option.some.injEq, reduceCtorEq] at hstep
      all_goals
        subst hstep
        exact hs.keep rfl rfl

section Counts

variable [DecidableEq T]

/-- How often the worker has started the task from a deque. -/
def takenCount (task : Option T) (s : PoolWorker T) : Nat := s.taken.count task

def returnedCount (task : Option T) (s : PoolWorker T) : Nat := s.deque.returned.count task

/-- A worker starts just what its deque returns to it. -/
theorem step_counts (task : Option T) {action : WorkerAction T}
    (hstep : s.step heap capacity num stop action = some next) :
    next.takenCount task + s.returnedCount task =
      s.takenCount task + next.returnedCount task := by
  obtain ⟨values, htaken, hreturned⟩ := (step_works hstep).values
  simp only [takenCount, returnedCount, htaken, hreturned, List.count_append]
  omega

end Counts

end PoolWorker

namespace ThreadPool

variable {T : Type} {heap : ArrayHeap} {capacity : MpscCapacity} {num w : Nat}
  {s next : ThreadPool T} {worker before : PoolWorker T}

def Balanced [DecidableEq T] (task : Option T) (s : ThreadPool T) : Prop :=
  (s.workers.map (PoolWorker.takenCount task)).sum =
    (s.workers.map (PoolWorker.returnedCount task)).sum

/-- What the workers have started is what the deques and the queues have returned. -/
structure TaskBooks [DecidableEq T] (capacity : MpscCapacity) (s : ThreadPool T) : Prop where
  fetches : ∀ worker ∈ s.workers, worker.Fetches capacity
  balanced : ∀ task, s.Balanced task

section Books

variable [DecidableEq T]

theorem init_taskBooks (num : Nat) : (init num : ThreadPool T).TaskBooks capacity where
  fetches worker hworker := by
    obtain ⟨-, rfl⟩ := List.mem_replicate.mp hworker
    exact PoolWorker.fresh_fetches num
  balanced task := by
    simp [Balanced, init, PoolWorker.takenCount, PoolWorker.returnedCount, PoolWorker.fresh,
      Deque.init]

/-- A worker changes, and its starts and the returns of its deque by the same number. -/
theorem TaskBooks.set (hs : s.TaskBooks capacity) (hbefore : s.workers[w]? = some before)
    (hworkers : next.workers = s.workers.set w worker) (hfetches : worker.Fetches capacity)
    (hcounts : ∀ task, worker.takenCount task + before.returnedCount task =
      before.takenCount task + worker.returnedCount task) : next.TaskBooks capacity where
  fetches other hother := by
    rw [hworkers] at hother
    obtain hold | rfl := List.mem_or_eq_of_mem_set hother
    · exact hs.fetches other hold
    · exact hfetches
  balanced task := by
    have htaken := SharedCount.sum_set (PoolWorker.takenCount task) hbefore worker
    have hreturned := SharedCount.sum_set (PoolWorker.returnedCount task) hbefore worker
    have hold : (s.workers.map (PoolWorker.takenCount task)).sum =
        (s.workers.map (PoolWorker.returnedCount task)).sum := hs.balanced task
    have hchange := hcounts task
    unfold Balanced
    rw [hworkers]
    omega

theorem TaskBooks.of_workers (hs : s.TaskBooks capacity) (hworkers : next.workers = s.workers) :
    next.TaskBooks capacity where
  fetches := by
    rw [hworkers]
    exact hs.fetches
  balanced task := by
    unfold Balanced
    rw [hworkers]
    exact hs.balanced task

theorem TaskBooks.startPush {thread : Nat} {pinned : Bool} {task : T} (hs : s.TaskBooks capacity)
    (hstep : s.startPush capacity thread w pinned task = some next) :
    next.TaskBooks capacity := by
  obtain ⟨worker, hworker, hrest⟩ := Option.bind_eq_some_iff.mp hstep
  obtain ⟨queue, hqueue, ⟨⟩⟩ := Option.bind_eq_some_iff.mp hrest
  have hold := hs.fetches worker (List.mem_of_getElem? hworker)
  exact hs.set hworker rfl (hold.produced hqueue (MpscQueue.push_popped hqueue)) fun _ => rfl

theorem TaskBooks.enqueueExternal {thread : Nat} {task : T} (hs : s.TaskBooks capacity)
    (hstep : s.enqueueExternal capacity thread task = some next) : next.TaskBooks capacity := by
  have hmoved : { s with next_worker := wrap64 (s.next_worker + 1) }.TaskBooks capacity :=
    hs.of_workers rfl
  exact hmoved.startPush hstep

theorem TaskBooks.wakeWorker (hs : s.TaskBooks capacity)
    (hworkers : next.workers = (s.wakeWorker w).workers) : next.TaskBooks capacity := by
  unfold ThreadPool.wakeWorker at hworkers
  split at hworkers
  case h_1 => exact hs.of_workers hworkers
  case h_2 worker hworker =>
    have hold := hs.fetches worker (List.mem_of_getElem? hworker)
    exact hs.set hworker hworkers (hold.keep rfl rfl) fun _ => rfl

theorem TaskBooks.produce {thread : Nat} {spurious : Bool} (hs : s.TaskBooks capacity)
    (hstep : s.step heap capacity (.produce thread spurious) = some next) :
    next.TaskBooks capacity := by
  simp only [ThreadPool.step] at hstep
  split at hstep <;> try contradiction
  rename_i w pinned task hpushing
  obtain ⟨worker, hworker, hrest⟩ := Option.bind_eq_some_iff.mp hstep
  obtain ⟨queue, hqueue, hnext⟩ := Option.bind_eq_some_iff.mp hrest
  have hold := hs.fetches worker (List.mem_of_getElem? hworker)
  have hkept : (s.setWorker w { worker with queue := queue }).TaskBooks capacity :=
    hs.set hworker rfl (hold.produced hqueue (MpscQueue.run_popped hqueue)) fun _ => rfl
  split at hnext
  case h_1 =>
    obtain rfl := Option.some.inj hnext
    exact hkept.of_workers rfl
  case h_2 =>
    split at hnext
    case isTrue => exact hkept.startPush hnext
    case isFalse => exact hkept.enqueueExternal hnext
  case h_3 =>
    obtain rfl := Option.some.inj hnext
    exact hkept

/-- A step on the deque of a victim that returns no task. -/
theorem TaskBooks.robbed {thief : Nat} {r : s.Round thief} (a : r.Attempt heap)
    (hs : s.TaskBooks capacity) (hresult : a.result.join = none) : a.robbed.TaskBooks capacity := by
  have hold := hs.fetches a.other (List.mem_of_getElem? a.found)
  have hreturned := (Deque.thief_returned a.step).1
  rw [Round.Attempt.result] at hresult
  rw [hresult, Option.toList_none, List.append_nil] at hreturned
  exact hs.set a.found rfl (hold.keep rfl rfl) fun task => by
    simp only [PoolWorker.takenCount, PoolWorker.returnedCount, hreturned]

/-- A task that is stolen is returned by the deque of one worker and started by
another. -/
theorem TaskBooks.takes {thief : Nat} {r : s.Round thief} (a : r.Attempt heap)
    {task : Option T} (hs : s.TaskBooks capacity) (hresult : a.result = some (some task)) :
    (a.robbed.setWorker thief (r.started task)).TaskBooks capacity := by
  have hthief := hs.fetches r.worker (List.mem_of_getElem? r.found)
  have hother := hs.fetches a.other (List.mem_of_getElem? a.found)
  refine ⟨?_, ?_⟩
  · intro found hfound
    obtain hrobbed | rfl := List.mem_or_eq_of_mem_set hfound
    · obtain hkept | rfl := List.mem_or_eq_of_mem_set hrobbed
      · exact hs.fetches found hkept
      · exact hother.keep rfl rfl
    · exact hthief.keep rfl rfl
  · intro x
    have hreturned := (Deque.thief_returned a.step).1
    rw [Round.Attempt.result] at hresult
    rw [hresult, Option.join_some, Option.toList_some] at hreturned
    have hold : (s.workers.map (PoolWorker.takenCount x)).sum =
        (s.workers.map (PoolWorker.returnedCount x)).sum := hs.balanced x
    have htaken := SharedCount.sum_set (PoolWorker.takenCount x) a.found
      { a.other with deque := a.deque }
    have htaken' := SharedCount.sum_set (PoolWorker.takenCount x) a.still (r.started task)
    have hgiven := SharedCount.sum_set (PoolWorker.returnedCount x) a.found
      { a.other with deque := a.deque }
    have hgiven' := SharedCount.sum_set (PoolWorker.returnedCount x) a.still (r.started task)
    simp only [PoolWorker.takenCount, PoolWorker.returnedCount, Round.started, hreturned,
      List.count_append, Round.Attempt.robbed, setWorker] at hold htaken htaken' hgiven hgiven'
    simp only [Balanced, Round.Attempt.robbed, setWorker, Round.started]
    omega

theorem TaskBooks.steal {thief : Nat} (hs : s.TaskBooks capacity)
    (hstep : s.step heap capacity (.steal thief) = some next) : next.TaskBooks capacity := by
  obtain ⟨r, hends⟩ := steal_round hstep
  have hthief := hs.fetches r.worker (List.mem_of_getElem? r.found)
  cases hends with
  | own hown => exact hs.set r.found rfl (hthief.keep rfl rfl) fun _ => rfl
  | goesOn a hresult => exact hs.robbed a (by rw [hresult]; rfl)
  | fails a hresult =>
      have hrobbed := hs.robbed a (by rw [hresult]; rfl)
      exact hrobbed.set a.still rfl (hthief.keep rfl rfl) fun _ => rfl
  | takes a task hresult => exact hs.takes a hresult

theorem TaskBooks.step {action : PoolAction T} (hs : s.TaskBooks capacity)
    (hstep : s.step heap capacity action = some next) : next.TaskBooks capacity := by
  cases action with
  | worker w action =>
      obtain ⟨worker, hworker, hrest⟩ := Option.bind_eq_some_iff.mp hstep
      obtain ⟨worker', hworker', ⟨⟩⟩ := Option.bind_eq_some_iff.mp hrest
      have hold := hs.fetches worker (List.mem_of_getElem? hworker)
      exact hs.set hworker rfl (hold.step hworker') fun task =>
        PoolWorker.step_counts task hworker'
  | steal thief => exact hs.steal hstep
  | submit thread task =>
      simp only [ThreadPool.step] at hstep
      split at hstep <;> try contradiction
      exact hs.enqueueExternal hstep
  | submitOn thread w task =>
      simp only [ThreadPool.step] at hstep
      split at hstep <;> try contradiction
      exact hs.startPush hstep
  | produce thread spurious => exact hs.produce hstep
  | wake thread =>
      simp only [ThreadPool.step] at hstep
      split at hstep <;> simp only [Option.some.injEq, reduceCtorEq] at hstep
      subst hstep
      exact hs.wakeWorker rfl
  | destroy =>
      obtain ⟨-, ⟨⟩⟩ := Option.ite_none_left_eq_some.mp hstep
      exact hs.of_workers rfl
  | wakeNext =>
      simp only [ThreadPool.step] at hstep
      split at hstep <;> try contradiction
      obtain ⟨-, ⟨⟩⟩ := Option.ite_none_right_eq_some.mp hstep
      exact hs.wakeWorker rfl

theorem run_taskBooks {word : List (PoolAction T)} {last : ThreadPool T}
    (hrun : (machine T heap capacity num).run word = some last) : last.TaskBooks capacity := by
  apply (machine T heap capacity num).run_preserves (init_taskBooks num) _ word hrun
  intro state action next hstate hstep
  exact hstate.step hstep

theorem TaskBooks.perm (hs : s.TaskBooks capacity) :
    (s.workers.flatMap fun worker => worker.taken).Perm
      (s.workers.flatMap fun worker => worker.deque.returned) := by
  apply List.perm_iff_count.mpr
  intro task
  have hbalanced : (s.workers.map (PoolWorker.takenCount task)).sum =
      (s.workers.map (PoolWorker.returnedCount task)).sum := hs.balanced task
  rw [List.count_flatMap, List.count_flatMap]
  exact hbalanced

end Books

/-- The step disturbs no deque: no growth has moved the task that a thief wins since
the thief loaded the buffer, and no thief has yet to empty a slot that the owner moves
or fills. -/
def undisturbed (s : ThreadPool T) : PoolAction T → Bool
  | .worker w action =>
      s.workers[w]?.all fun worker => action.dequeMove.all worker.deque.undisturbed
  | .steal thief =>
      match s.workers[thief]?.map PoolWorker.phase with
      | some (.stealing _ start i) =>
          s.victim start i == thief || s.workers[s.victim start i]?.all fun other =>
            other.deque.undisturbed (.thief thief)
      | _ => true
  | _ => true

def Undisturbed (s : ThreadPool T) (action : PoolAction T) : Prop :=
  s.undisturbed action = true

instance (s : ThreadPool T) (action : PoolAction T) : Decidable (s.Undisturbed action) :=
  inferInstanceAs (Decidable (s.undisturbed action = true))

def AllKept (s : ThreadPool T) : Prop :=
  ∀ (w : Nat) (worker : PoolWorker T), s.workers[w]? = some worker → DequeInv worker.deque

theorem init_allKept (num : Nat)
    (hmade : heap.allocates (Deque.initialCapacity Deque.defaultCapacity)) :
    (init num : ThreadPool T).AllKept := by
  intro w worker hworker
  rw [init, List.getElem?_replicate] at hworker
  obtain ⟨-, ⟨⟩⟩ := Option.ite_none_right_eq_some.mp hworker
  exact DequeInv.init num (by decide) hmade

theorem AllKept.set (hs : s.AllKept) (hworkers : next.workers = s.workers.set w worker)
    (hworker : DequeInv worker.deque) : next.AllKept := by
  intro other found hfound
  rw [hworkers] at hfound
  by_cases hsame : w = other
  · subst hsame
    have hlt : w < s.workers.length := by
      have := (List.getElem?_eq_some_iff.mp hfound).1
      rwa [List.length_set] at this
    rw [List.getElem?_set_self hlt] at hfound
    obtain rfl := Option.some.inj hfound
    exact hworker
  · rw [List.getElem?_set_ne hsame] at hfound
    exact hs other found hfound

theorem AllKept.own {action : WorkerAction T} (hs : s.AllKept)
    (hguard : s.Undisturbed (.worker w action))
    (hstep : s.step heap capacity (.worker w action) = some next) : next.AllKept := by
  obtain ⟨worker, hworker, hrest⟩ := Option.bind_eq_some_iff.mp hstep
  obtain ⟨worker', hworker', ⟨⟩⟩ := Option.bind_eq_some_iff.mp hrest
  have hold := hs w worker hworker
  have hworks := (PoolWorker.step_works hworker').deque
  apply hs.set rfl
  simp only [Undisturbed, undisturbed, hworker, Option.all_some] at hguard
  cases hmove : action.dequeMove with
  | none =>
      rw [hmove] at hworks
      exact Option.some.inj hworks ▸ hold
  | some move =>
      rw [hmove] at hworks hguard
      exact hold.step hguard hworks

theorem AllKept.steal {thief : Nat} (hs : s.AllKept) (hguard : s.Undisturbed (.steal thief))
    (hstep : s.step heap capacity (.steal thief) = some next) : next.AllKept := by
  obtain ⟨r, hends⟩ := steal_round hstep
  have hthief := hs thief r.worker r.found
  have hrobbed : ∀ a : r.Attempt heap, a.robbed.AllKept := by
    intro a
    refine hs.set rfl ((hs r.victim a.other a.found).step ?_ a.step)
    have hvictim : s.workers[s.victim r.start r.i]? = some a.other := a.found
    have hapart : s.victim r.start r.i ≠ thief := a.apart
    simpa only [Undisturbed, undisturbed, r.found, Option.map_some, r.phase, hvictim,
      Option.all_some, beq_eq_false_iff_ne.mpr hapart, Bool.false_or] using hguard
  cases hends with
  | own hown => exact hs.set rfl hthief
  | goesOn a hresult => exact hrobbed a
  | fails a hresult => exact (hrobbed a).set rfl hthief
  | takes a task hresult => exact (hrobbed a).set rfl hthief

theorem AllKept.step {action : PoolAction T} (hs : s.AllKept) (hguard : s.Undisturbed action)
    (hstep : s.step heap capacity action = some next) : next.AllKept := by
  cases haside : aside action with
  | true =>
      intro w worker' hworker'
      obtain ⟨worker, hworker, hcore⟩ := core_aside haside hstep hworker'
      have hdeque : worker'.deque = worker.deque := (Prod.mk.inj (Prod.mk.inj hcore).2).1
      rw [hdeque]
      exact hs w worker hworker
  | false =>
      cases action with
      | worker w action => exact hs.own hguard hstep
      | steal thief => exact hs.steal hguard hstep
      | _ => cases haside

theorem run_allKept {word : List (PoolAction T)} {last : ThreadPool T}
    (hmade : heap.allocates (Deque.initialCapacity Deque.defaultCapacity))
    (hmeets : (machine T heap capacity num).Meets Undisturbed word)
    (hrun : (machine T heap capacity num).run word = some last) : last.AllKept := by
  apply (machine T heap capacity num).run_invariant (init_allKept num hmade) _ word hmeets hrun
  intro state action next hstate hguard hstep
  exact hstate.step hguard hstep

/-- The tasks of the worker's queue leave it in the order in which their slots were
claimed, none is skipped and none leaves twice; the others are still in their slots, or
with the thread that claimed them. -/
structure StartsInOrder (capacity : MpscCapacity) (s : PoolWorker T) : Prop where
  started : s.fetched ++ s.queue.inHand =
    (s.queue.claims.take (s.fetched ++ s.queue.inHand).length).map s.queue.item
  once : s.queue.claims.Nodup
  held : ∀ pos call, (s.fetched ++ s.queue.inHand).length ≤ pos →
    s.queue.claims[pos]? = some call → s.queue.Holds capacity pos call

/-- No empty task is started from a deque.  What was pushed to the deques is what was
started from them and what they still have, but for the tasks whose `push` threw.  A
deque on which no call is under way has them in `[top, bottom)`. -/
structure StartsOnce (s : ThreadPool T) : Prop where
  full : none ∉ s.workers.flatMap fun worker => worker.taken
  accounted : ((s.workers.flatMap fun worker => worker.deque.pushed : List T) : Multiset T) =
    ((s.workers.flatMap fun worker => worker.taken).reduceOption : Multiset T) +
      ((s.workers.flatMap fun worker => worker.deque.refused : List T) : Multiset T) +
      (s.workers.map fun worker => worker.deque.held).sum
  stored : ∀ worker ∈ s.workers, worker.deque.Quiet →
    none ∉ worker.deque.stored ∧
      worker.deque.held = (worker.deque.stored.reduceOption : Multiset T)

theorem coe_flatMap {W : Type} (workers : List W) (f : W → List T) :
    ((workers.flatMap f : List T) : Multiset T) =
      (workers.map fun worker => (f worker : Multiset T)).sum := by
  induction workers with
  | nil => rfl
  | cons first rest ih =>
      rw [List.flatMap_cons, ← Multiset.coe_add, ih, List.map_cons, List.sum_cons]

/-- Empty tasks can be left out before or after the lists are joined. -/
theorem reduceOption_flatMap {W : Type} (workers : List W) (f : W → List (Option T)) :
    (workers.flatMap f).reduceOption = workers.flatMap fun worker => (f worker).reduceOption := by
  induction workers with
  | nil => rfl
  | cons first rest ih =>
      rw [List.flatMap_cons, List.reduceOption_append, ih, List.flatMap_cons]

theorem AllKept.startsOnce [DecidableEq T] (hs : s.AllKept) (hbooks : s.TaskBooks capacity) :
    s.StartsOnce where
  full := by
    intro hnone
    obtain ⟨worker, hmem, hreturned⟩ := List.mem_flatMap.mp (hbooks.perm.mem_iff.mp hnone)
    obtain ⟨w, hworker⟩ := List.mem_iff_getElem?.mp hmem
    exact (hs w worker hworker).full hreturned
  accounted := by
    have hkept : ∀ worker ∈ s.workers, (worker.deque.pushed : Multiset T) =
        worker.deque.returned.reduceOption + worker.deque.refused + worker.deque.held := by
      intro worker hmem
      obtain ⟨w, hworker⟩ := List.mem_iff_getElem?.mp hmem
      rw [Deque.held, ← add_assoc]
      exact (hs w worker hworker).kept
    have hstarted : ((s.workers.flatMap fun worker => worker.taken).reduceOption : Multiset T) =
        (s.workers.map fun worker =>
          (worker.deque.returned.reduceOption : Multiset T)).sum := by
      rw [← coe_flatMap, ← reduceOption_flatMap]
      exact Multiset.coe_eq_coe.mpr (hbooks.perm.filterMap id)
    rw [coe_flatMap, List.map_congr_left hkept, List.sum_map_add, List.sum_map_add, hstarted,
      coe_flatMap]
  stored worker hmem hquiet := by
    obtain ⟨w, hworker⟩ := List.mem_iff_getElem?.mp hmem
    obtain ⟨hfull, hcontents⟩ := (hs w worker hworker).stored_of_quiet hquiet
    refine ⟨hfull, ?_⟩
    rw [Deque.held, hquiet.1, DequeOwner.hand_idle, zero_add, hcontents]

/-- In every run of any number of workers, submitting threads and thieves in which no
deque is disturbed and each queue sees fewer than `2 ^ 63` operations. -/
theorem tasks_started_once (heap : ArrayHeap) (capacity : MpscCapacity) (num : Nat)
    (hmade : heap.allocates (Deque.initialCapacity Deque.defaultCapacity))
    (word : List (PoolAction T)) (last : ThreadPool T)
    (hmeets : (machine T heap capacity num).Meets Undisturbed word)
    (hrun : (machine T heap capacity num).run word = some last)
    (hops : ∀ worker ∈ last.workers, worker.queue.calls.length + worker.queue.pops < 2 ^ 63) :
    last.StartsOnce ∧ ∀ worker ∈ last.workers, StartsInOrder capacity worker := by
  classical
  have hbooks : last.TaskBooks capacity := run_taskBooks hrun
  refine ⟨(run_allKept hmade hmeets hrun).startsOnce hbooks, ?_⟩
  intro worker hworker
  obtain ⟨⟨queueWord, hreached⟩, hfetched⟩ := hbooks.fetches worker hworker
  obtain ⟨hvalues, hnodup, -, -, -, hheld, -⟩ :=
    MpscQueue.values_leave_in_order capacity hreached (hops worker hworker)
  rw [hfetched] at hvalues hheld
  exact ⟨hvalues, hnodup, hheld⟩

/-- A `pop` of a worker on its deque, which is empty. -/
def popEmpty (w start : Nat) : List (PoolAction Nat) :=
  .worker w .pop :: List.replicate 4 (.worker w (.call start))

/-- One worker pushes a task that the other steals, while a thread submits two tasks. -/
def stolenAndFetched : List (PoolAction Nat) :=
  [.submitOn 9 0 5] ++ List.replicate 5 (.produce 9 false) ++
    [.wake 9, .worker 0 (.begin true), .worker 0 .check, .worker 0 .polled] ++ popEmpty 0 1 ++
    List.replicate 3 (.steal 0) ++ [.worker 0 .giveUp] ++ List.replicate 5 (.worker 0 .fetch) ++
    .worker 0 (.push 7) :: List.replicate 4 (.worker 0 (.call 0)) ++
    [.worker 1 (.begin true), .worker 1 .check, .worker 1 .polled] ++ popEmpty 1 0 ++
    List.replicate 5 (.steal 1) ++ [.submitOn 9 0 6] ++ List.replicate 5 (.produce 9 false)

/-- What is to be seen of a pool: what its workers have started, and whether its queues
have been used little. -/
def seen (s : ThreadPool Nat) : List (List (Option Nat)) × List (List (Option Nat)) × Bool :=
  (s.workers.map fun worker => worker.taken, s.workers.map fun worker => worker.fetched,
    decide (∀ worker ∈ s.workers, worker.queue.calls.length + worker.queue.pops < 2 ^ 63))

set_option maxRecDepth 100000 in
theorem tasks_started_once_stolenAndFetched :
    ∃ last, (machine Nat .largest ⟨1, by decide, by decide⟩ 2).run stolenAndFetched =
        some last ∧
      (last.workers.map fun worker => worker.taken) = [[], [some 7]] ∧
      (last.workers.map fun worker => worker.fetched) = [[some 5], []] ∧
      last.StartsOnce ∧
      ∀ worker ∈ last.workers, StartsInOrder ⟨1, by decide, by decide⟩ worker := by
  have hend : ((machine Nat .largest ⟨1, by decide, by decide⟩ 2).run stolenAndFetched).map
      seen = some ([[], [some 7]], [[some 5], []], true) := by
    decide
  obtain ⟨last, hrun, hseen⟩ := Option.map_eq_some_iff.mp hend
  obtain ⟨htaken, hrest⟩ := Prod.mk.inj hseen
  obtain ⟨hfetched, hops⟩ := Prod.mk.inj hrest
  refine ⟨last, hrun, htaken, hfetched, ?_⟩
  exact tasks_started_once .largest ⟨1, by decide, by decide⟩ 2 (by decide) stolenAndFetched last
    (by decide) hrun (of_decide_eq_true hops)

end ThreadPool

end UltraNet
