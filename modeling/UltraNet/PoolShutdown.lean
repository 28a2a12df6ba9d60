/-
The end of a thread pool.  A worker that sees `m_stop` runs what is left in its deque
and then in its queue.  A task that it runs from the queue may still push to the
deque, and a thread may still push to the queue of a worker that is gone.
-/
import UltraNet.PoolTasks
import UltraNet.StealRounds
import UltraNet.WakeUps

namespace UltraNet

namespace WorkerPhase

variable {T : Type}

/-- `worker_thread` looks into its deque no more. -/
def pastDeque : WorkerPhase T → Bool
  | .drainingQueue => true
  | .running _ .drainedExternal => true
  | .exited => true
  | _ => false

/-- `worker_thread` has returned. -/
def gone : WorkerPhase T → Bool
  | .exited => true
  | _ => false

theorem gone_iff {phase : WorkerPhase T} : phase.gone = true ↔ phase = .exited := by
  cases phase <;> simp [gone]

theorem pastDeque_of_gone {phase : WorkerPhase T} (hgone : phase.gone = true) :
    phase.pastDeque = true := by
  rw [gone_iff.mp hgone]
  rfl

end WorkerPhase

/-- Once every claimed slot is published and the next one is not, all values have been
taken out. -/
theorem MpscQueue.Ordered.all_popped {T : Type*} {capacity : MpscCapacity} {q : MpscQueue T}
    (hq : q.Ordered capacity) (hops : q.calls.length + q.pops < 2 ^ 63)
    (hidle : q.consumer = .idle) (hmissed : ¬ q.Readable capacity)
    (hpublished : ∀ pos < q.claims.length, pos ∈ q.published) :
    q.popped = q.claims.map q.item := by
  have hdequeue : q.dequeuePos = q.popped.length := by
    have := hq.counters.dequeue
    simpa only [advancing, hidle, Nat.add_zero] using this
  have hall : q.claims.length ≤ q.popped.length := by
    by_contra hlt
    have hready : q.sequence (capacity.slot q.popped.length) = q.popped.length + 1 :=
      (hq.ring.published _ (hpublished _ (Nat.lt_of_not_le hlt))).2 le_rfl
    have hbounds := hq.bounds hops
    have hwrap : wrap64 (q.popped.length + 1) = q.popped.length + 1 := wrap64_eq (by omega)
    apply hmissed
    rw [Readable, hdequeue, hready, hwrap]
  have hvalues := hq.ring.values
  rwa [List.take_of_length_le hall] at hvalues

namespace PoolWorker

variable {T : Type} {heap : ArrayHeap} {capacity : MpscCapacity} {num : Nat} {stop : Bool}
  {arrived : Prop} {s middle next : PoolWorker T}

/-- What the others leave to a worker; `arrived`: a value has been published for it. -/
structure Spared (capacity : MpscCapacity) (arrived : Prop) (s next : PoolWorker T) : Prop where
  phase : next.phase = s.phase
  deque : s.deque.Robbed next.deque
  taken : next.taken = s.taken
  fetched : next.fetched = s.fetched
  consumer : next.queue.consumer = s.queue.consumer
  readable : next.queue.Readable capacity → s.queue.Readable capacity ∨ arrived

theorem Spared.refl (s : PoolWorker T) : Spared capacity arrived s s :=
  ⟨rfl, .refl _, rfl, rfl, rfl, .inl⟩

theorem Spared.trans (hfirst : Spared capacity arrived s middle)
    (hlast : Spared capacity arrived middle next) : Spared capacity arrived s next where
  phase := hlast.phase.trans hfirst.phase
  deque := hfirst.deque.trans hlast.deque
  taken := hlast.taken.trans hfirst.taken
  fetched := hlast.fetched.trans hfirst.fetched
  consumer := hlast.consumer.trans hfirst.consumer
  readable hreadable := (hlast.readable hreadable).elim hfirst.readable .inr

/-- A worker that is gone takes no step; the kernel may still answer. -/
theorem step_gone {action : WorkerAction T} (hgone : s.phase.gone = true)
    (hstep : s.step heap capacity num stop action = some next) :
    Spared capacity arrived s next := by
  have hphase := WorkerPhase.gone_iff.mp hgone
  cases action with
  | kernelRead =>
      obtain ⟨-, ⟨⟩⟩ := Option.ite_none_right_eq_some.mp hstep
      exact ⟨rfl, .refl _, rfl, rfl, rfl, .inl⟩
  | kernelError =>
      obtain ⟨-, ⟨⟩⟩ := Option.ite_none_right_eq_some.mp hstep
      exact ⟨rfl, .refl _, rfl, rfl, rfl, .inl⟩
  | complete =>
      obtain rfl := Option.some.inj hstep
      exact ⟨rfl, .refl _, rfl, rfl, rfl, .inl⟩
  | overflow =>
      obtain rfl := Option.some.inj hstep
      exact ⟨rfl, .refl _, rfl, rfl, rfl, .inl⟩
  | call start => simp only [step, hphase, WorkerPhase.working, Bool.false_eq_true, if_false,
      reduceCtorEq] at hstep
  | _ =>
      simp only [step, hphase] at hstep
      cases hstep

/-- The step pushes to the deque behind the last look of its worker. -/
def late (s : PoolWorker T) : WorkerAction T → Bool
  | .push _ => s.phase.pastDeque
  | _ => false

/-- The last looks of the worker have found nothing. -/
structure Drained (capacity : MpscCapacity) (s : PoolWorker T) : Prop where
  saw : s.deque.PopSaw
  deque : s.phase.pastDeque = true → s.deque.Spent
  idle : s.phase.gone = true → s.queue.consumer = .idle
  missed : s.phase.gone = true → ¬ s.queue.Readable capacity

/-- A worker that has its loop over the deque before it. -/
theorem Drained.of_before (hsaw : s.deque.PopSaw) (hbefore : s.phase.pastDeque = false) :
    s.Drained capacity := by
  have hstays : ¬ s.phase.gone = true := by
    intro hgone
    rw [WorkerPhase.pastDeque_of_gone hgone] at hbefore
    cases hbefore
  refine ⟨hsaw, fun hpast => ?_, fun hgone => absurd hgone hstays,
    fun hgone => absurd hgone hstays⟩
  rw [hbefore] at hpast
  cases hpast

/-- A worker that has emptied its deque and goes on with its queue. -/
theorem Drained.of_draining (hspent : s.deque.Spent) (hstays : s.phase.gone = false) :
    s.Drained capacity := by
  have hnot : ¬ s.phase.gone = true := by
    rw [hstays]
    exact Bool.false_ne_true
  exact ⟨Deque.popSaw_of_idle hspent.owner, fun _ => hspent, fun hgone => absurd hgone hnot,
    fun hgone => absurd hgone hnot⟩

theorem Drained.spared (hs : s.Drained capacity)
    (hspared : Spared capacity arrived s next) (htimely : s.phase.gone = true → ¬ arrived) :
    next.Drained capacity where
  saw := hspared.deque.popSaw hs.saw
  deque hpast := by
    rw [hspared.phase] at hpast
    exact hspared.deque.spent (hs.deque hpast)
  idle hgone := by
    rw [hspared.phase] at hgone
    rw [hspared.consumer, hs.idle hgone]
  missed hgone hreadable := by
    rw [hspared.phase] at hgone
    exact (hspared.readable hreadable).elim (hs.missed hgone) (htimely hgone)

theorem Drained.fetch (hs : s.Drained capacity)
    (hstep : s.step heap capacity num stop .fetch = some next) : next.Drained capacity := by
  simp only [PoolWorker.step] at hstep
  split at hstep
  case h_1 hadWork hphase =>
    obtain ⟨queue, rfl | ⟨item, rfl⟩ | ⟨rfl, -⟩⟩ := tryGetFromMpsc_cases hstep
    · exact .of_before hs.saw (by simp only [hphase, WorkerPhase.pastDeque])
    · exact .of_before hs.saw rfl
    · cases hadWork <;> exact .of_before hs.saw rfl
  case h_2 hphase =>
    have hspent : s.deque.Spent := hs.deque (by rw [hphase]; rfl)
    obtain ⟨queue, rfl | ⟨item, rfl⟩ | ⟨rfl, hmissed, hidle⟩⟩ := tryGetFromMpsc_cases hstep
    · exact Drained.of_draining hspent (by simp only [hphase, WorkerPhase.gone])
    · exact Drained.of_draining hspent rfl
    · exact ⟨hs.saw, fun _ => hspent, fun _ => hidle, fun _ => hmissed⟩
  case h_3 => cases hstep

/-- A worker whose loop over the deque is behind it is in no call on it. -/
theorem Drained.call {start : Nat} (hs : s.Drained capacity)
    (hstep : s.step heap capacity num stop (.call start) = some next) :
    next.Drained capacity := by
  obtain ⟨deque, hdeque, hends⟩ := call_cases hstep
  have hsaw := (Deque.owner_turned hdeque).popSaw hs.saw
  have hbefore : s.phase.pastDeque = false := by
    by_contra hpast
    have howner := (hs.deque (by simpa using hpast)).owner
    simp only [Deque.step, Deque.ownerStep, howner, reduceCtorEq] at hdeque
  obtain ⟨-, rfl⟩ | ⟨result, hresult, hends⟩ := hends
  · exact .of_before hsaw hbefore
  · have hpopped := Deque.owner_popped hs.saw hresult hdeque
    cases hends with
    | drained hphase => exact .of_draining (hpopped.2 rfl) rfl
    | _ => exact .of_before hsaw rfl

theorem Drained.step {action : WorkerAction T} (hs : s.Drained capacity)
    (htimely : s.late action = false)
    (hstep : s.step heap capacity num stop action = some next) : next.Drained capacity := by
  cases action with
  | fetch => exact hs.fetch hstep
  | push task =>
      obtain ⟨-, deque, hdeque, rfl⟩ := begin_cases (.push task) hstep
      exact .of_before (Deque.call_begun (.inl ⟨task, rfl⟩) hdeque).2.2.2 htimely
  | pop =>
      simp only [PoolWorker.step] at hstep
      split at hstep <;> try contradiction
      all_goals
        rename_i hphase
        obtain ⟨deque, hdeque, ⟨⟩⟩ := Option.bind_eq_some_iff.mp hstep
        exact .of_before (Deque.call_begun (.inr rfl) hdeque).2.2.2
          (by simp only [hphase, WorkerPhase.pastDeque])
  | call start => exact hs.call hstep
  | ran =>
      simp only [PoolWorker.step] at hstep
      split at hstep <;> simp only [Option.some.injEq, reduceCtorEq] at hstep
      rename_i task origin hphase howner
      subst hstep
      cases origin with
      | drainedExternal =>
          exact .of_draining (hs.deque (by rw [hphase]; rfl)) rfl
      | _ => exact .of_before hs.saw rfl
  | check =>
      simp only [PoolWorker.step] at hstep
      split at hstep <;> simp only [Option.some.injEq, reduceCtorEq] at hstep
      subst hstep
      cases stop <;> exact .of_before hs.saw rfl
  | giveUp =>
      simp only [PoolWorker.step] at hstep
      split at hstep <;> try contradiction
      obtain ⟨-, ⟨⟩⟩ := Option.ite_none_right_eq_some.mp hstep
      exact .of_before hs.saw rfl
  | awake timedOut =>
      simp only [PoolWorker.step] at hstep
      split at hstep <;> try contradiction
      obtain ⟨-, ⟨⟩⟩ := Option.ite_none_right_eq_some.mp hstep
      exact .of_before hs.saw rfl
  | completion =>
      simp only [PoolWorker.step] at hstep
      split at hstep <;> simp only [Option.some.injEq, reduceCtorEq] at hstep
      subst hstep
      exact ⟨hs.saw, hs.deque, hs.idle, hs.missed⟩
  | kernelRead =>
      obtain ⟨-, ⟨⟩⟩ := Option.ite_none_right_eq_some.mp hstep
      exact ⟨hs.saw, hs.deque, hs.idle, hs.missed⟩
  | kernelError =>
      obtain ⟨-, ⟨⟩⟩ := Option.ite_none_right_eq_some.mp hstep
      exact ⟨hs.saw, hs.deque, hs.idle, hs.missed⟩
  | complete =>
      obtain rfl := Option.some.inj hstep
      exact ⟨hs.saw, hs.deque, hs.idle, hs.missed⟩
  | overflow =>
      obtain rfl := Option.some.inj hstep
      exact ⟨hs.saw, hs.deque, hs.idle, hs.missed⟩
  | _ =>
      simp only [PoolWorker.step] at hstep
      split at hstep <;> simp only [Option.some.injEq, reduceCtorEq] at hstep
      all_goals
        subst hstep
        exact .of_before hs.saw rfl

end PoolWorker

namespace ThreadPool

variable {T : Type} {heap : ArrayHeap} {capacity : MpscCapacity} {num w changed : Nat}
  {arrived : Prop} {s middle next last final : ThreadPool T}
  {before after worker' : PoolWorker T}

/-- What a step leaves to the worker `w`. -/
def Spares (capacity : MpscCapacity) (arrived : Prop) (w : Nat) (s next : ThreadPool T) : Prop :=
  ∀ worker', next.workers[w]? = some worker' →
    ∃ worker, s.workers[w]? = some worker ∧ worker.Spared capacity arrived worker'

theorem Spares.of_workers (hworkers : next.workers = s.workers) :
    Spares capacity arrived w s next := by
  intro worker' hworker'
  rw [hworkers] at hworker'
  exact ⟨worker', hworker', .refl worker'⟩

theorem Spares.trans (hfirst : Spares capacity arrived w s middle)
    (hlast : Spares capacity arrived w middle next) : Spares capacity arrived w s next := by
  intro worker' hworker'
  obtain ⟨worker, hworker, hafter⟩ := hlast worker' hworker'
  obtain ⟨start, hstart, hbefore⟩ := hfirst worker hworker
  exact ⟨start, hstart, hbefore.trans hafter⟩

theorem Spares.set (hbefore : s.workers[changed]? = some before)
    (hworkers : next.workers = s.workers.set changed after)
    (hspared : changed = w → before.Spared capacity arrived after) :
    Spares capacity arrived w s next := by
  intro worker' hworker'
  rw [hworkers] at hworker'
  by_cases hsame : changed = w
  · subst hsame
    rw [List.getElem?_set_self (List.getElem?_eq_some_iff.mp hbefore).1] at hworker'
    obtain rfl := Option.some.inj hworker'
    exact ⟨before, hbefore, hspared rfl⟩
  · rw [List.getElem?_set_ne hsame] at hworker'
    exact ⟨worker', hworker', .refl worker'⟩

theorem spares_startPush {thread : Nat} {pinned : Bool} {task : T}
    (hstep : s.startPush capacity thread changed pinned task = some next) :
    Spares capacity arrived w s next := by
  obtain ⟨worker, hworker, hrest⟩ := Option.bind_eq_some_iff.mp hstep
  obtain ⟨queue, hqueue, ⟨⟩⟩ := Option.bind_eq_some_iff.mp hrest
  exact Spares.set hworker rfl fun _ => ⟨rfl, .refl _, rfl, rfl,
    (MpscQueue.push_popped hqueue).2, fun hready => .inl (MpscQueue.readable_push hqueue hready)⟩

theorem spares_enqueueExternal {thread : Nat} {task : T}
    (hstep : s.enqueueExternal capacity thread task = some next) :
    Spares capacity arrived w s next := by
  have hmoved : Spares capacity arrived w s { s with next_worker := wrap64 (s.next_worker + 1) } :=
    Spares.of_workers rfl
  exact hmoved.trans (spares_startPush hstep)

theorem spares_wakeWorker (hworkers : next.workers = (s.wakeWorker changed).workers) :
    Spares capacity arrived w s next := by
  unfold wakeWorker at hworkers
  split at hworkers
  case h_1 => exact Spares.of_workers hworkers
  case h_2 worker hworker =>
    exact Spares.set hworker hworkers fun _ =>
      ⟨rfl, .refl _, rfl, rfl, rfl, .inl⟩

/-- The worker in whose queue the thread is about to publish a value. -/
def publishes (s : ThreadPool T) (thread : Nat) : Option Nat :=
  match s.submissions thread with
  | .pushing w _ _ =>
      match s.workers[w]?.map fun worker => worker.queue.producers thread with
      | some (ProducerPhase.publish _ _ _) => some w
      | _ => none
  | _ => none

theorem spares_produce {thread : Nat} {spurious : Bool}
    (hstep : s.step heap capacity (.produce thread spurious) = some next) :
    Spares capacity (s.publishes thread = some w) w s next := by
  simp only [ThreadPool.step] at hstep
  split at hstep <;> try contradiction
  rename_i target pinned task hpushing
  obtain ⟨worker, hworker, hrest⟩ := Option.bind_eq_some_iff.mp hstep
  obtain ⟨queue, hqueue, hnext⟩ := Option.bind_eq_some_iff.mp hrest
  have hspared : Spares capacity (s.publishes thread = some w) w s
      (s.setWorker target { worker with queue := queue }) := by
    refine Spares.set hworker rfl fun hsame => ⟨rfl, .refl _, rfl, rfl,
      (MpscQueue.run_popped hqueue).2, fun hready => ?_⟩
    obtain hold | ⟨call, item, pos, hpublish⟩ := MpscQueue.readable_run hqueue
    · exact .inl (hold hready)
    · subst hsame
      right
      simp only [publishes, hpushing, hworker, Option.map_some, hpublish]
  split at hnext
  case h_1 =>
    obtain rfl := Option.some.inj hnext
    exact hspared.trans (Spares.of_workers rfl)
  case h_2 =>
    split at hnext
    case isTrue => exact hspared.trans (spares_startPush hnext)
    case isFalse => exact hspared.trans (spares_enqueueExternal hnext)
  case h_3 =>
    obtain rfl := Option.some.inj hnext
    exact hspared

/-- The step hands a task to a deque or a queue that its worker has looked into for
the last time. -/
def late (s : ThreadPool T) : PoolAction T → Bool
  | .worker w action => s.workers[w]?.any fun worker => worker.late action
  | .produce thread _ =>
      (s.publishes thread).any fun w => s.workers[w]?.any fun worker => worker.phase.gone
  | _ => false

def Timely (s : ThreadPool T) (action : PoolAction T) : Prop := s.late action = false

instance (s : ThreadPool T) (action : PoolAction T) : Decidable (s.Timely action) :=
  inferInstanceAs (Decidable (s.late action = false))

/-- What the step `action` makes of the worker `w`. -/
inductive Change (heap : ArrayHeap) (capacity : MpscCapacity) (s : ThreadPool T) (action : PoolAction T) (w : Nat)
    (worker worker' : PoolWorker T) : Prop where
  | own (act : WorkerAction T) (haction : action = .worker w act)
      (hstep : worker.step heap capacity s.workers.length s.stop act = some worker')
  -- a thief is in its loop
  | thief (hlooping : worker.phase.gone = false) (hafter : worker'.phase.pastDeque = false)
      (hdeque : worker'.deque = worker.deque)
  | spared (arrived : Prop) (hspared : worker.Spared capacity arrived worker')
      (htimely : s.Timely action → worker.phase.gone = true → ¬ arrived)

def Changes (heap : ArrayHeap) (capacity : MpscCapacity) (s : ThreadPool T) (action : PoolAction T)
    (next : ThreadPool T) : Prop :=
  ∀ (w : Nat) (worker' : PoolWorker T), next.workers[w]? = some worker' →
    ∃ worker, s.workers[w]? = some worker ∧ s.Change heap capacity action w worker worker'

theorem changes_of_spares {action : PoolAction T}
    (hspares : ∀ w, Spares capacity False w s next) : s.Changes heap capacity action next := by
  intro w worker' hworker'
  obtain ⟨worker, hworker, hspared⟩ := hspares w worker' hworker'
  exact ⟨worker, hworker, .spared False hspared fun _ _ => id⟩

/-- The thief has become `after`, and `middle` is what it has left of the others. -/
theorem changes_thief {action : PoolAction T} {thief : Nat} {worker : PoolWorker T}
    (hworker : s.workers[thief]? = some worker) (hlooping : worker.phase.gone = false)
    (hspares : ∀ w, Spares capacity False w s middle)
    (hstill : middle.workers[thief]? = some worker)
    (hworkers : next.workers = middle.workers.set thief after)
    (hafter : after.phase.pastDeque = false) (hdeque : after.deque = worker.deque) :
    s.Changes heap capacity action next := by
  intro w worker' hworker'
  rw [hworkers] at hworker'
  by_cases hsame : thief = w
  · subst hsame
    rw [List.getElem?_set_self (List.getElem?_eq_some_iff.mp hstill).1] at hworker'
    obtain rfl := Option.some.inj hworker'
    exact ⟨worker, hworker, .thief hlooping hafter hdeque⟩
  · rw [List.getElem?_set_ne hsame] at hworker'
    exact changes_of_spares hspares w worker' hworker'

theorem changes_steal {thief : Nat}
    (hstep : s.step heap capacity (.steal thief) = some next) :
    s.Changes heap capacity (.steal thief) next := by
  obtain ⟨r, hends⟩ := steal_round hstep
  have hlooping : r.worker.phase.gone = false := by
    rw [r.phase]
    rfl
  have hrobbed : ∀ (a : r.Attempt heap) (w : Nat), Spares capacity False w s a.robbed :=
    fun a w => Spares.set a.found rfl fun _ =>
      ⟨rfl, Deque.thief_robbed a.step, rfl, rfl, rfl, .inl⟩
  cases hends with
  | own hown =>
      exact changes_thief r.found hlooping (fun _ => .of_workers rfl) r.found rfl rfl rfl
  | goesOn a hresult => exact changes_of_spares (hrobbed a)
  | fails a hresult => exact changes_thief r.found hlooping (hrobbed a) a.still rfl rfl rfl
  | takes a task hresult => exact changes_thief r.found hlooping (hrobbed a) a.still rfl rfl rfl

theorem step_changes {action : PoolAction T} (hstep : s.step heap capacity action = some next) :
    s.Changes heap capacity action next := by
  cases action with
  | worker own action =>
      obtain ⟨worker, hworker, hrest⟩ := Option.bind_eq_some_iff.mp hstep
      obtain ⟨after, hafter, ⟨⟩⟩ := Option.bind_eq_some_iff.mp hrest
      intro w worker' hworker'
      by_cases hsame : own = w
      · subst hsame
        rw [setWorker, List.getElem?_set_self (List.getElem?_eq_some_iff.mp hworker).1]
          at hworker'
        obtain rfl := Option.some.inj hworker'
        exact ⟨worker, hworker, .own action rfl hafter⟩
      · rw [setWorker, List.getElem?_set_ne hsame] at hworker'
        exact ⟨worker', hworker', .spared False (.refl worker') fun _ _ => id⟩
  | steal thief => exact changes_steal hstep
  | submit thread task =>
      simp only [ThreadPool.step] at hstep
      split at hstep <;> try contradiction
      exact changes_of_spares fun _ => spares_enqueueExternal hstep
  | submitOn thread target task =>
      simp only [ThreadPool.step] at hstep
      split at hstep <;> try contradiction
      exact changes_of_spares fun _ => spares_startPush hstep
  | produce thread spurious =>
      intro w worker' hworker'
      obtain ⟨worker, hworker, hspared⟩ := spares_produce hstep worker' hworker'
      refine ⟨worker, hworker, .spared _ hspared fun htimely hgone hpublishes => ?_⟩
      simp only [Timely, late, hpublishes, hworker, Option.any_some, hgone,
        Bool.true_eq_false] at htimely
  | wake thread =>
      simp only [ThreadPool.step] at hstep
      split at hstep <;> simp only [Option.some.injEq, reduceCtorEq] at hstep
      subst hstep
      exact changes_of_spares fun _ => spares_wakeWorker rfl
  | destroy =>
      obtain ⟨-, ⟨⟩⟩ := Option.ite_none_left_eq_some.mp hstep
      exact changes_of_spares fun _ => Spares.of_workers rfl
  | wakeNext =>
      simp only [ThreadPool.step] at hstep
      split at hstep <;> try contradiction
      obtain ⟨-, ⟨⟩⟩ := Option.ite_none_right_eq_some.mp hstep
      exact changes_of_spares fun _ => spares_wakeWorker rfl

def AllDrained (capacity : MpscCapacity) (s : ThreadPool T) : Prop :=
  ∀ (w : Nat) (worker : PoolWorker T), s.workers[w]? = some worker → worker.Drained capacity

theorem init_drained (num : Nat) : AllDrained capacity (init num : ThreadPool T) := by
  intro w worker hworker
  rw [init, List.getElem?_replicate] at hworker
  obtain ⟨-, ⟨⟩⟩ := Option.ite_none_right_eq_some.mp hworker
  exact .of_before trivial rfl

theorem AllDrained.step {action : PoolAction T} (hs : s.AllDrained capacity)
    (htimely : s.Timely action) (hstep : s.step heap capacity action = some next) :
    next.AllDrained capacity := by
  intro w worker' hworker'
  obtain ⟨worker, hworker, hchange⟩ := step_changes hstep w worker' hworker'
  have hold := hs w worker hworker
  cases hchange with
  | own act haction hown =>
      subst haction
      simp only [Timely, late, hworker, Option.any_some] at htimely
      exact hold.step htimely hown
  | thief hlooping hafter hdeque => exact .of_before (hdeque ▸ hold.saw) hafter
  | spared arrived hspared hlate => exact hold.spared hspared (hlate htimely)

/-- The destructor has joined every worker. -/
def Over (s : ThreadPool T) : Prop := ∀ worker ∈ s.workers, worker.phase.gone = true

instance (s : ThreadPool T) : Decidable s.Over :=
  inferInstanceAs (Decidable (∀ worker ∈ s.workers, worker.phase.gone = true))

/-- The workers have started what they had started before. -/
def SameStarts (s next : ThreadPool T) : Prop :=
  ∀ (w : Nat) (worker' : PoolWorker T), next.workers[w]? = some worker' →
    ∃ worker, s.workers[w]? = some worker ∧ worker'.taken = worker.taken ∧
      worker'.fetched = worker.fetched

theorem Over.step {action : PoolAction T} (hover : s.Over)
    (hstep : s.step heap capacity action = some next) : next.Over ∧ s.SameStarts next := by
  have hspared : ∀ (w : Nat) (worker' : PoolWorker T), next.workers[w]? = some worker' →
      ∃ worker, s.workers[w]? = some worker ∧ worker.phase.gone = true ∧
        ∃ arrived, worker.Spared capacity arrived worker' := by
    intro w worker' hworker'
    obtain ⟨worker, hworker, hchange⟩ := step_changes hstep w worker' hworker'
    have hgone := hover worker (List.mem_of_getElem? hworker)
    refine ⟨worker, hworker, hgone, ?_⟩
    cases hchange with
    | own act haction hown => exact ⟨False, PoolWorker.step_gone hgone hown⟩
    | thief hlooping hafter hdeque =>
        rw [hgone] at hlooping
        cases hlooping
    | spared arrived hspared hlate => exact ⟨arrived, hspared⟩
  refine ⟨fun worker' hmem => ?_, fun w worker' hworker' => ?_⟩
  · obtain ⟨w, hworker'⟩ := List.mem_iff_getElem?.mp hmem
    obtain ⟨worker, -, hgone, arrived, hspared⟩ := hspared w worker' hworker'
    rw [hspared.phase]
    exact hgone
  · obtain ⟨worker, hworker, -, arrived, hspared⟩ := hspared w worker' hworker'
    exact ⟨worker, hworker, hspared.taken, hspared.fetched⟩

theorem Over.runFrom {more : List (PoolAction T)} (hover : s.Over)
    (hrun : (machine T heap capacity num).runFrom s more = some final) : s.SameStarts final := by
  induction more generalizing s with
  | nil =>
      obtain rfl := Option.some.inj hrun
      exact fun w worker hworker => ⟨worker, hworker, rfl, rfl⟩
  | cons action rest ih =>
      simp only [Machine.runFrom] at hrun
      split at hrun
      · cases hrun
      · rename_i next hstep
        obtain ⟨hnext, hsame⟩ := hover.step hstep
        intro w worker' hworker'
        obtain ⟨middle, hmiddle, htaken, hfetched⟩ := ih hnext hrun w worker' hworker'
        obtain ⟨worker, hworker, htaken', hfetched'⟩ := hsame w middle hmiddle
        exact ⟨worker, hworker, htaken.trans htaken', hfetched.trans hfetched'⟩

/-- A worker that is gone, and no thread is about to publish in its queue. -/
theorem all_fetched {worker : PoolWorker T} (hgone : worker.phase.gone = true)
    (hdrained : worker.Drained capacity) (hfetches : worker.Fetches capacity)
    (hops : worker.queue.calls.length + worker.queue.pops < 2 ^ 63)
    (hpublished : ∀ pos < worker.queue.claims.length, pos ∈ worker.queue.published) :
    worker.fetched = worker.queue.claims.map worker.queue.item := by
  obtain ⟨word, hrun⟩ := hfetches.reached
  have hidle := hdrained.idle hgone
  have hall := (MpscQueue.run_ordered hrun hops).all_popped hops hidle
    (hdrained.missed hgone) hpublished
  have hfetched := hfetches.fetched
  simp only [MpscQueue.inHand, hidle, List.append_nil] at hfetched
  rw [← hfetched, hall]

/-- A worker that is gone leaves no call on its deque, and nobody steals from it. -/
theorem Over.quiet {worker : PoolWorker T} (hover : s.Over) (hthieves : s.ThievesKnown)
    (hworker : s.workers[w]? = some worker) (hspent : worker.deque.Spent) :
    worker.deque.Quiet := by
  refine ⟨hspent.owner, fun phase hmem => ?_⟩
  by_contra hbusy
  obtain ⟨thief, hthief⟩ := List.mem_iff_getElem?.mp hmem
  obtain ⟨-, r, -⟩ := hthieves w worker hworker thief phase hthief hbusy
  have hgone := hover r.worker (List.mem_of_getElem? r.found)
  rw [r.phase] at hgone
  cases hgone

/-- The deques have nothing left when the workers are gone. -/
theorem held_of_over (hover : s.Over) (hthieves : s.ThievesKnown) (hdrained : s.AllDrained capacity)
    (hstored : ∀ worker ∈ s.workers, worker.deque.Quiet →
      none ∉ worker.deque.stored ∧
        worker.deque.held = (worker.deque.stored.reduceOption : Multiset T)) :
    (s.workers.map fun worker => worker.deque.held).sum = 0 := by
  apply List.sum_eq_zero
  intro held hheld
  obtain ⟨worker, hmem, rfl⟩ := List.mem_map.mp hheld
  obtain ⟨w, hworker⟩ := List.mem_iff_getElem?.mp hmem
  have hpast := WorkerPhase.pastDeque_of_gone (hover worker hmem)
  have hspent := (hdrained w worker hworker).deque hpast
  have hempty : worker.deque.stored = [] := by
    have hnone : (worker.deque.bottom - worker.deque.top).toNat = 0 := by
      have := Deque.size_eq_zero.mp hspent.size
      omega
    rw [Deque.stored, hnone]
    rfl
  rw [(hstored worker hmem (hover.quiet hthieves hworker hspent)).2, hempty]
  rfl

/-- In every run of any number of workers, submitting threads and thieves that ends
with the workers gone: nothing is started any more; and if no deque was disturbed,
nothing was handed to a worker behind its last look, and each slot that was claimed has
been published, every task that was pushed to a deque or to a queue has been started,
but for those whose `push` threw. -/
theorem none_left_behind (heap : ArrayHeap) (capacity : MpscCapacity) (num : Nat)
    (hmade : heap.allocates (Deque.initialCapacity Deque.defaultCapacity))
    (word : List (PoolAction T)) (last : ThreadPool T)
    (hrun : (machine T heap capacity num).run word = some last) (hover : last.Over)
    (hops : ∀ worker ∈ last.workers, worker.queue.calls.length + worker.queue.pops < 2 ^ 63) :
    (∀ more final, (machine T heap capacity num).runFrom last more = some final →
        last.SameStarts final) ∧
      ((machine T heap capacity num).Meets Undisturbed word →
        (machine T heap capacity num).Meets Timely word →
        (∀ worker ∈ last.workers, ∀ pos < worker.queue.claims.length,
          pos ∈ worker.queue.published) →
        none ∉ (last.workers.flatMap fun worker => worker.taken) ∧
          ((last.workers.flatMap fun worker => worker.deque.pushed : List T) : Multiset T) =
            ((last.workers.flatMap fun worker => worker.taken).reduceOption : Multiset T) +
              ((last.workers.flatMap fun worker => worker.deque.refused : List T) :
                Multiset T) ∧
          ∀ worker ∈ last.workers, worker.queue.claims.Nodup ∧
            worker.fetched = worker.queue.claims.map worker.queue.item) := by
  classical
  refine ⟨fun more final hmore => hover.runFrom hmore,
    fun hundisturbed htimely hpublished => ?_⟩
  have hbooks : last.TaskBooks capacity := run_taskBooks hrun
  have hstarts := (run_allKept hmade hundisturbed hrun).startsOnce hbooks
  have hdrained : last.AllDrained capacity := by
    apply (machine T heap capacity num).run_invariant (init_drained num) _ word htimely hrun
    intro state action next hstate hguard hstep
    exact hstate.step hguard hstep
  have hnone := held_of_over hover (run_thievesKnown hrun) hdrained hstarts.stored
  refine ⟨hstarts.full, ?_, fun worker hmem => ?_⟩
  · have haccounted := hstarts.accounted
    rwa [hnone, add_zero] at haccounted
  · obtain ⟨w, hworker⟩ := List.mem_iff_getElem?.mp hmem
    obtain ⟨queueWord, hreached⟩ := (hbooks.fetches worker hmem).reached
    have hordered := MpscQueue.values_leave_in_order capacity hreached (hops worker hmem)
    exact ⟨hordered.2.1, all_fetched (hover worker hmem) (hdrained w worker hworker)
      (hbooks.fetches worker hmem) (hops worker hmem) (hpublished worker hmem)⟩

/-- The destructor runs while a thread submits a task, which pushes another one if
`pushes`. -/
def endsWhileSubmitting (pushes : Bool) : List (PoolAction Nat) :=
  [.worker 0 (.begin true), .worker 0 .check, .worker 0 .polled] ++ popEmpty 0 0 ++
    [.worker 0 .fetch, .worker 0 .fetch, .worker 0 .flush, .submitOn 9 0 5, .destroy] ++
    List.replicate 5 (.produce 9 false) ++
    [.worker 0 (.awake true), .worker 0 .check] ++ popEmpty 0 0 ++
    List.replicate 5 (.worker 0 .fetch) ++
    (if pushes then .worker 0 (.push 7) :: List.replicate 4 (.worker 0 (.call 0)) else []) ++
    [.worker 0 .ran, .worker 0 .fetch, .worker 0 .fetch]

/-- What is to be seen at the end: whether the workers are gone, how little their queues
have been used, whether all slots are published, and what is left in the deques. -/
def seenOver (s : ThreadPool Nat) : Bool × List (List (Option Nat)) :=
  (decide (s.Over ∧
      (∀ worker ∈ s.workers, worker.queue.calls.length + worker.queue.pops < 2 ^ 63) ∧
      ∀ worker ∈ s.workers, ∀ pos < worker.queue.claims.length,
        pos ∈ worker.queue.published),
    s.workers.map fun worker => worker.deque.stored)

set_option maxRecDepth 100000 in
/-- The task that was pushed in the drain is in the deque for good. -/
theorem none_left_behind_endsWhileSubmitting :
    (∃ last, (machine Nat .largest smallCapacity 1).run (endsWhileSubmitting false) = some last ∧
      ∀ worker ∈ last.workers, worker.fetched = worker.queue.claims.map worker.queue.item) ∧
    ∃ last, (machine Nat .largest smallCapacity 1).run (endsWhileSubmitting true) = some last ∧
      (last.workers.map fun worker => worker.deque.stored) = [[some 7]] ∧
      ∀ more final, (machine Nat .largest smallCapacity 1).runFrom last more = some final →
        last.SameStarts final := by
  have hend : ((machine Nat .largest smallCapacity 1).run (endsWhileSubmitting false)).map
      seenOver = some (true, [[]]) := by
    decide
  have hpush : ((machine Nat .largest smallCapacity 1).run (endsWhileSubmitting true)).map
      seenOver = some (true, [[some 7]]) := by
    decide
  obtain ⟨last, hrun, hseen⟩ := Option.map_eq_some_iff.mp hend
  obtain ⟨final, hrun', hseen'⟩ := Option.map_eq_some_iff.mp hpush
  simp only [seenOver, Prod.mk.injEq, decide_eq_true_eq] at hseen hseen'
  obtain ⟨⟨hover, hops, hpublished⟩, -⟩ := hseen
  obtain ⟨⟨hover', hops', -⟩, hstored⟩ := hseen'
  refine ⟨⟨last, hrun, ?_⟩, final, hrun', hstored, ?_⟩
  · have hstarted := ((none_left_behind .largest smallCapacity 1 (by decide)
      (endsWhileSubmitting false) last hrun hover hops).2 (by decide) (by decide) hpublished).2.2
    exact fun worker hmem => (hstarted worker hmem).2
  · exact (none_left_behind .largest smallCapacity 1 (by decide) (endsWhileSubmitting true) final
      hrun' hover' hops').1

end ThreadPool

end UltraNet
