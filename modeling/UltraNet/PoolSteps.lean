/-
What a step of the pool makes of the workers' phases and deques: a step of a worker, a
step of a thief, or neither.
-/
import UltraNet.WorkerSteps

namespace UltraNet

/-- The next step of the call that an action belongs to. -/
def WorkerAction.dequeMove {T : Type} : WorkerAction T → Option (DequeMove T)
  | .push task => some (.push task)
  | .pop => some .pop
  | .call _ => some .owner
  | _ => none

namespace PoolWorker

variable {T : Type} {heap : ArrayHeap} {capacity : MpscCapacity} {num : Nat} {stop : Bool}
  {s next : PoolWorker T}

/-- The part of a worker that others than it and the thieves leave alone. -/
def core (s : PoolWorker T) : WorkerPhase T × Deque T × List (Option T) :=
  (s.phase, s.deque, s.taken)

/-- What a step of the worker itself does to its deque; what it starts is what its
deque has returned. -/
structure Works (heap : ArrayHeap) (move : Option (DequeMove T)) (s next : PoolWorker T) :
    Prop where
  deque : (match move with
    | none => some s.deque
    | some move => s.deque.step heap move) = some next.deque
  values : ∃ values, next.taken = s.taken ++ values ∧
    next.deque.returned = s.deque.returned ++ values

theorem Works.idle (hdeque : next.deque = s.deque) (htaken : next.taken = s.taken) :
    Works heap none s next where
  deque := congrArg some hdeque.symm
  values := ⟨[], by rw [htaken, List.append_nil], by rw [hdeque, List.append_nil]⟩

theorem step_works {action : WorkerAction T}
    (hstep : s.step heap capacity num stop action = some next) :
    Works heap action.dequeMove s next := by
  cases action with
  | push task =>
      obtain ⟨-, deque, hdeque, rfl⟩ := begin_cases (.push task) hstep
      have hreturned := (Deque.call_begun (.inl ⟨task, rfl⟩) hdeque).2.2.1
      exact ⟨hdeque, [], (List.append_nil _).symm, by rw [hreturned, List.append_nil]⟩
  | pop =>
      obtain ⟨-, deque, hdeque, rfl⟩ := begin_cases .pop hstep
      have hreturned := (Deque.call_begun (.inr rfl) hdeque).2.2.1
      exact ⟨hdeque, [], (List.append_nil _).symm, by rw [hreturned, List.append_nil]⟩
  | call start =>
      obtain ⟨deque, hdeque, hends⟩ := call_cases hstep
      have hreturned := (Deque.owner_turned hdeque).returned
      obtain ⟨hsilent, rfl⟩ | ⟨result, hresult, hends⟩ := hends
      · refine ⟨hdeque, [], (List.append_nil _).symm, ?_⟩
        rw [hreturned, hsilent, Option.join_none, Option.toList_none]
      · rw [hresult, Option.join_some] at hreturned
        cases hends with
        | runs task | drains task => exact ⟨hdeque, [task], rfl, hreturned⟩
        | alone | steals | drained =>
            exact ⟨hdeque, [], (List.append_nil _).symm, hreturned⟩
  | fetch =>
      simp only [PoolWorker.step] at hstep
      split at hstep
      case h_3 => cases hstep
      all_goals
        obtain ⟨queue, rfl | ⟨item, rfl⟩ | ⟨rfl, -⟩⟩ := tryGetFromMpsc_cases hstep <;>
          exact .idle rfl rfl
  | giveUp =>
      simp only [PoolWorker.step] at hstep
      split at hstep <;> try contradiction
      obtain ⟨-, ⟨⟩⟩ := Option.ite_none_right_eq_some.mp hstep
      exact .idle rfl rfl
  | awake timedOut =>
      simp only [PoolWorker.step] at hstep
      split at hstep <;> try contradiction
      obtain ⟨-, ⟨⟩⟩ := Option.ite_none_right_eq_some.mp hstep
      exact .idle rfl rfl
  | kernelRead =>
      obtain ⟨-, ⟨⟩⟩ := Option.ite_none_right_eq_some.mp hstep
      exact .idle rfl rfl
  | kernelError =>
      obtain ⟨-, ⟨⟩⟩ := Option.ite_none_right_eq_some.mp hstep
      exact .idle rfl rfl
  | complete =>
      obtain rfl := Option.some.inj hstep
      exact .idle rfl rfl
  | overflow =>
      obtain rfl := Option.some.inj hstep
      exact .idle rfl rfl
  | _ =>
      simp only [PoolWorker.step] at hstep
      split at hstep <;> simp only [Option.some.injEq, reduceCtorEq] at hstep
      all_goals
        subst hstep
        exact .idle rfl rfl

end PoolWorker

namespace ThreadPool

variable {T : Type} {heap : ArrayHeap} {capacity : MpscCapacity} {thief : Nat}
  {s next : ThreadPool T}

/-- A thread in `try_steal_task` with a victim before it. -/
structure Round (s : ThreadPool T) (thief : Nat) where
  worker : PoolWorker T
  hadWork : Bool
  start : Nat
  i : Nat
  found : s.workers[thief]? = some worker
  phase : worker.phase = .stealing hadWork start i
  more : i ≠ s.workers.length

namespace Round

def victim (r : s.Round thief) : Nat := s.victim r.start r.i

/-- The thief goes on to the next victim. -/
def passed (r : s.Round thief) : PoolWorker T :=
  { r.worker with phase := .stealing r.hadWork r.start (r.i + 1) }

/-- The thief starts what it has stolen. -/
def started (r : s.Round thief) (task : Option T) : PoolWorker T :=
  { r.worker with phase := .running task .stolen, taken := r.worker.taken ++ [task] }

/-- A step of `steal` on the deque of the victim. -/
structure Attempt (heap : ArrayHeap) (r : s.Round thief) where
  other : PoolWorker T
  deque : Deque T
  apart : r.victim ≠ thief
  found : s.workers[r.victim]? = some other
  step : other.deque.step heap (.thief thief) = some deque

/-- The pool with the deque of the victim after the step. -/
def Attempt.robbed {r : s.Round thief} (a : r.Attempt heap) : ThreadPool T :=
  s.setWorker r.victim { a.other with deque := a.deque }

def Attempt.result {r : s.Round thief} (a : r.Attempt heap) : Option (Option (Option T)) :=
  a.other.deque.stealResult thief

inductive Ends (heap : ArrayHeap) (r : s.Round thief) : ThreadPool T → Prop where
  | own (hown : r.victim = thief) : Ends heap r (s.setWorker thief r.passed)
  | goesOn (a : r.Attempt heap) (hresult : a.result = none) : Ends heap r a.robbed
  | fails (a : r.Attempt heap) (hresult : a.result = some none) :
      Ends heap r (a.robbed.setWorker thief r.passed)
  | takes (a : r.Attempt heap) (task : Option T) (hresult : a.result = some (some task)) :
      Ends heap r (a.robbed.setWorker thief (r.started task))

/-- The thief itself is as it was before. -/
theorem Attempt.still {r : s.Round thief} (a : r.Attempt heap) :
    a.robbed.workers[thief]? = some r.worker :=
  (List.getElem?_set_ne a.apart).trans r.found

end Round

theorem steal_round (hstep : s.step heap capacity (.steal thief) = some next) :
    ∃ r : s.Round thief, r.Ends heap next := by
  simp only [ThreadPool.step] at hstep
  obtain ⟨worker, hworker, hrest⟩ := Option.bind_eq_some_iff.mp hstep
  split at hrest <;> try contradiction
  rename_i hadWork start i hphase
  obtain ⟨hmore, hscan⟩ := Option.ite_none_left_eq_some.mp hrest
  let r : s.Round thief := ⟨worker, hadWork, start, i, hworker, hphase, hmore⟩
  refine ⟨r, ?_⟩
  split at hscan
  case isTrue hown =>
    obtain rfl := Option.some.inj hscan
    exact .own hown
  case isFalse hapart =>
    obtain ⟨other, hvictim, htry⟩ := Option.bind_eq_some_iff.mp hscan
    obtain ⟨deque, hdeque, hends⟩ := Option.bind_eq_some_iff.mp htry
    let a : r.Attempt heap := ⟨other, deque, hapart, hvictim, hdeque⟩
    split at hends
    case h_1 hresult => exact Option.some.inj hends ▸ .goesOn a hresult
    case h_2 hresult => exact Option.some.inj hends ▸ .fails a hresult
    case h_3 task hresult => exact Option.some.inj hends ▸ .takes a task hresult

/-- Threads that submit, and the destructor, are beside the deques. -/
def aside : PoolAction T → Bool
  | .worker _ _ => false
  | .steal _ => false
  | _ => true

def cores (s : ThreadPool T) : List (WorkerPhase T × Deque T × List (Option T)) :=
  s.workers.map PoolWorker.core

theorem cores_setWorker {w : Nat} {before after : PoolWorker T}
    (hbefore : s.workers[w]? = some before) (hcore : after.core = before.core) :
    (s.setWorker w after).cores = s.cores := by
  have hlt := (List.getElem?_eq_some_iff.mp hbefore).1
  rw [cores, setWorker, List.map_set, hcore, ← (List.getElem?_eq_some_iff.mp hbefore).2,
    ← List.getElem_map PoolWorker.core (h := by rwa [List.length_map]), List.set_getElem_self,
    cores]

theorem cores_startPush {thread w : Nat} {pinned : Bool} {task : T}
    (hstep : s.startPush capacity thread w pinned task = some next) : next.cores = s.cores := by
  obtain ⟨worker, hworker, hrest⟩ := Option.bind_eq_some_iff.mp hstep
  obtain ⟨queue, -, ⟨⟩⟩ := Option.bind_eq_some_iff.mp hrest
  exact cores_setWorker hworker rfl

theorem cores_enqueueExternal {thread : Nat} {task : T}
    (hstep : s.enqueueExternal capacity thread task = some next) : next.cores = s.cores := by
  have hmoved : next.cores = { s with next_worker := wrap64 (s.next_worker + 1) }.cores :=
    cores_startPush hstep
  exact hmoved

theorem cores_wakeWorker (s : ThreadPool T) (w : Nat) : (s.wakeWorker w).cores = s.cores := by
  unfold wakeWorker
  split
  case h_1 => rfl
  case h_2 worker hworker => exact cores_setWorker hworker rfl

theorem cores_produce {thread : Nat} {spurious : Bool}
    (hstep : s.step heap capacity (.produce thread spurious) = some next) :
    next.cores = s.cores := by
  simp only [ThreadPool.step] at hstep
  split at hstep <;> try contradiction
  rename_i w pinned task hpushing
  obtain ⟨worker, hworker, hrest⟩ := Option.bind_eq_some_iff.mp hstep
  obtain ⟨queue, -, hnext⟩ := Option.bind_eq_some_iff.mp hrest
  have hkept : (s.setWorker w { worker with queue := queue }).cores = s.cores :=
    cores_setWorker hworker rfl
  split at hnext
  case h_1 =>
    obtain rfl := Option.some.inj hnext
    exact hkept
  case h_2 =>
    split at hnext
    case isTrue => exact (cores_startPush hnext).trans hkept
    case isFalse => exact (cores_enqueueExternal hnext).trans hkept
  case h_3 =>
    obtain rfl := Option.some.inj hnext
    exact hkept

theorem aside_cores {action : PoolAction T} (haside : aside action = true)
    (hstep : s.step heap capacity action = some next) : next.cores = s.cores := by
  cases action with
  | worker w action => cases haside
  | steal thief => cases haside
  | submit thread task =>
      simp only [ThreadPool.step] at hstep
      split at hstep <;> try contradiction
      exact cores_enqueueExternal hstep
  | submitOn thread w task =>
      simp only [ThreadPool.step] at hstep
      split at hstep <;> try contradiction
      exact cores_startPush hstep
  | produce thread spurious => exact cores_produce hstep
  | wake thread =>
      simp only [ThreadPool.step] at hstep
      split at hstep <;> simp only [Option.some.injEq, reduceCtorEq] at hstep
      subst hstep
      exact cores_wakeWorker s _
  | destroy =>
      obtain ⟨-, ⟨⟩⟩ := Option.ite_none_left_eq_some.mp hstep
      rfl
  | wakeNext =>
      simp only [ThreadPool.step] at hstep
      split at hstep <;> try contradiction
      obtain ⟨-, ⟨⟩⟩ := Option.ite_none_right_eq_some.mp hstep
      exact cores_wakeWorker s _

/-- What holds of every worker's phase and deque holds beside them as well. -/
theorem core_aside {action : PoolAction T} (haside : aside action = true)
    (hstep : s.step heap capacity action = some next) {w : Nat} {worker' : PoolWorker T}
    (hworker' : next.workers[w]? = some worker') :
    ∃ worker, s.workers[w]? = some worker ∧ worker'.core = worker.core := by
  have hcores := aside_cores haside hstep
  have hcore : next.cores[w]? = some worker'.core := by
    rw [cores, List.getElem?_map, hworker', Option.map_some]
  rw [hcores, cores, List.getElem?_map] at hcore
  obtain ⟨worker, hworker, hsame⟩ := Option.map_eq_some_iff.mp hcore
  exact ⟨worker, hworker, hsame.symm⟩

end ThreadPool

end UltraNet
