/-
A worker that waits has nothing left to do, or is about to be woken: its deque is
empty, and where its queue has a task ready, a write to its event descriptor or the
completion of its read is on the way.  This rests on the read being armed again
each time; the worker on which this fails once hears no write any more.
-/
import UltraNet.PoolSteps
import UltraNet.WorkerReads

namespace UltraNet

namespace MpscQueue

variable {T : Type*} {capacity : MpscCapacity} {q q' : MpscQueue T}

theorem readable_push {thread : Nat} {item : T}
    (hstep : q.step capacity (.push thread item) = some q') :
    q'.Readable capacity → q.Readable capacity := by
  simp only [step] at hstep
  split at hstep <;> simp only [Option.some.injEq, reduceCtorEq] at hstep
  subst hstep
  exact id

/-- Only the last step of `emplace` makes a value ready. -/
theorem readable_run {thread : Nat} {spurious : Bool}
    (hstep : q.step capacity (.run thread spurious) = some q') :
    (q'.Readable capacity → q.Readable capacity) ∨
      ∃ call item pos, q.producers thread = .publish call item pos := by
  cases hphase : q.producers thread <;> simp only [step, emplace, hphase] at hstep
  case idle => cases hstep
  case publish call item pos => exact .inr ⟨call, item, pos, rfl⟩
  case loadSeq =>
    apply Or.inl
    split at hstep
    case isTrue =>
      obtain rfl := Option.some.inj hstep
      exact id
    case isFalse =>
      split at hstep <;> (obtain rfl := Option.some.inj hstep; exact id)
  case cas =>
    apply Or.inl
    split at hstep <;> (obtain rfl := Option.some.inj hstep; exact id)
  all_goals
    obtain rfl := Option.some.inj hstep
    exact .inl id

end MpscQueue

namespace ThreadPool

variable {T : Type} {heap : ArrayHeap} {capacity : MpscCapacity} {num w : Nat}
  {s next : ThreadPool T} {worker : PoolWorker T}

/-- A thread has pushed to the queue of this worker and is about to wake it. -/
def Rung (s : ThreadPool T) (w : Nat) : Prop :=
  ∃ thread, s.submissions thread = .waking w

def AllAttentive (capacity : MpscCapacity) (s : ThreadPool T) : Prop :=
  ∀ (w : Nat) (worker : PoolWorker T), s.workers[w]? = some worker →
    worker.Attentive capacity (s.Rung w)

def SomeDeaf (s : ThreadPool T) : Prop :=
  ∃ (w : Nat) (worker : PoolWorker T), s.workers[w]? = some worker ∧ worker.Deaf

/-- The reactors always get an entry for their read and lose none of its completions. -/
def Heard (s : ThreadPool T) : PoolAction T → Prop
  | .worker w action => ∀ worker ∈ s.workers[w]?, worker.Heard action
  | _ => True

instance (s : ThreadPool T) (action : PoolAction T) : Decidable (s.Heard action) := by
  unfold Heard
  split <;> infer_instance

theorem init_attentive (num : Nat) : AllAttentive capacity (init num : ThreadPool T) := by
  intro w worker hworker
  rw [init, List.getElem?_replicate] at hworker
  obtain ⟨-, ⟨⟩⟩ := Option.ite_none_right_eq_some.mp hworker
  exact PoolWorker.fresh_attentive

/-- One worker changes, and no other is expecting less than before. -/
theorem AllAttentive.set (hs : s.AllAttentive capacity)
    (hworkers : next.workers = s.workers.set w worker)
    (hworker : worker.Attentive capacity (next.Rung w))
    (hrung : ∀ other, other ≠ w → s.Rung other → next.Rung other) :
    next.AllAttentive capacity := by
  intro other found hfound
  rw [hworkers] at hfound
  by_cases hsame : w = other
  · subst hsame
    have hlt : w < s.workers.length := by
      have := (List.getElem?_eq_some_iff.mp hfound).1
      rwa [List.length_set] at this
    rw [List.getElem?_set_self hlt] at hfound
    obtain rfl := Option.some.inj hfound
    exact hworker
  · rw [List.getElem?_set_ne hsame] at hfound
    have hold := hs other found hfound
    exact hold.queue (hrung other (Ne.symm hsame)) .inl

/-- A thread that is not about to wake anyone goes on. -/
theorem rung_setSubmission {thread : Nat} {submission : Submission T}
    (hnot : ∀ other, s.submissions thread ≠ .waking other)
    (hsame : next.submissions = Function.update s.submissions thread submission)
    (hrung : s.Rung w) : next.Rung w := by
  obtain ⟨other, hother⟩ := hrung
  have hne : other ≠ thread := by
    rintro rfl
    exact hnot w hother
  refine ⟨other, ?_⟩
  rw [hsame, Function.update_of_ne hne]
  exact hother

theorem AllAttentive.startPush {thread : Nat} {pinned : Bool} {task : T}
    (hs : s.AllAttentive capacity) (hnot : ∀ other, s.submissions thread ≠ .waking other)
    (hstep : s.startPush capacity thread w pinned task = some next) :
    next.AllAttentive capacity := by
  obtain ⟨worker, hworker, hrest⟩ := Option.bind_eq_some_iff.mp hstep
  obtain ⟨queue, hqueue, ⟨⟩⟩ := Option.bind_eq_some_iff.mp hrest
  refine hs.set rfl ?_ fun other _ => rung_setSubmission hnot rfl
  apply (hs w worker hworker).queue (rung_setSubmission hnot rfl)
  intro hreadable
  exact .inl (MpscQueue.readable_push hqueue hreadable)

theorem AllAttentive.enqueueExternal {thread : Nat} {task : T} (hs : s.AllAttentive capacity)
    (hnot : ∀ other, s.submissions thread ≠ .waking other)
    (hstep : s.enqueueExternal capacity thread task = some next) : next.AllAttentive capacity := by
  have hmoved : { s with next_worker := wrap64 (s.next_worker + 1) }.AllAttentive capacity := hs
  exact hmoved.startPush hnot hstep

theorem wakeWorker_submissions (s : ThreadPool T) (w : Nat) :
    (s.wakeWorker w).submissions = s.submissions := by
  unfold wakeWorker
  split <;> rfl

theorem AllAttentive.wake (hs : s.AllAttentive capacity)
    (hworkers : next.workers = (s.wakeWorker w).workers)
    (hrung : ∀ other, other ≠ w → s.Rung other → next.Rung other) :
    next.AllAttentive capacity := by
  unfold wakeWorker at hworkers
  split at hworkers
  case h_1 hnone =>
    intro other found hfound
    rw [hworkers] at hfound
    have hne : other ≠ w := by
      rintro rfl
      cases hnone.symm.trans hfound
    exact (hs other found hfound).queue (hrung other hne) .inl
  case h_2 worker hworker =>
    exact hs.set hworkers (hs w worker hworker).written hrung

theorem AllAttentive.produce {thread : Nat} {spurious : Bool} (hs : s.AllAttentive capacity)
    (hstep : s.step heap capacity (.produce thread spurious) = some next) :
    next.AllAttentive capacity := by
  simp only [ThreadPool.step] at hstep
  split at hstep
  case h_2 => cases hstep
  case h_1 w pinned task hpushing =>
    have hnot : ∀ other, s.submissions thread ≠ .waking other := by simp [hpushing]
    obtain ⟨worker, hworker, hrest⟩ := Option.bind_eq_some_iff.mp hstep
    obtain ⟨queue, hqueue, hnext⟩ := Option.bind_eq_some_iff.mp hrest
    have hkept : (∀ call item pos, worker.queue.producers thread ≠ .publish call item pos) →
        (s.setWorker w { worker with queue := queue }).AllAttentive capacity := by
      intro hearly
      refine hs.set rfl ?_ fun _ _ => id
      apply (hs w worker hworker).queue id
      intro hreadable
      obtain hold | ⟨call, item, pos, hpublish⟩ := MpscQueue.readable_run hqueue
      · exact .inl (hold hreadable)
      · exact absurd hpublish (hearly call item pos)
    split at hnext
    case h_1 =>
      obtain rfl := Option.some.inj hnext
      refine hs.set rfl ?_ fun other _ => rung_setSubmission hnot rfl
      apply (hs w worker hworker).queue (rung_setSubmission hnot rfl)
      intro _
      exact .inr ⟨thread, Function.update_self ..⟩
    case h_2 _ hearly =>
      split at hnext
      case isTrue => exact (hkept hearly).startPush hnot hnext
      case isFalse => exact (hkept hearly).enqueueExternal hnot hnext
    case h_3 hearly _ =>
      obtain rfl := Option.some.inj hnext
      exact hkept hearly

/-- A thief has taken a step on the deque of the worker. -/
theorem AllAttentive.robbed {thief : Nat} {r : s.Round thief} (a : r.Attempt heap)
    (hs : s.AllAttentive capacity) : a.robbed.AllAttentive capacity := by
  have hold := hs r.victim a.other a.found
  have hrobbed := Deque.thief_robbed a.step
  refine hs.set rfl ?_ fun _ _ => id
  exact { hold with
    saw := hrobbed.popSaw hold.saw
    emptied := fun hemptied => hrobbed.spent (hold.emptied hemptied) }

theorem AllAttentive.steal {thief : Nat} (hs : s.AllAttentive capacity)
    (hstep : s.step heap capacity (.steal thief) = some next) : next.AllAttentive capacity := by
  obtain ⟨r, hends⟩ := steal_round hstep
  have hphase := r.phase
  have hold := hs thief r.worker r.found
  have hearing : r.worker.phase.disarmed = false := by rw [hphase]; rfl
  have hpassed : r.passed.Attentive capacity (s.Rung thief) := by
    refine hold.turn hearing rfl rfl rfl hold.saw ?_
      fun hresting => absurd hresting Bool.false_ne_true
    intro hemptied
    apply hold.emptied
    cases hwork : r.hadWork with
    | true => simp only [Round.passed, hwork, WorkerPhase.emptied, Bool.false_eq_true] at hemptied
    | false => rw [hphase, hwork]; rfl
  cases hends with
  | own hown => exact hs.set rfl hpassed fun _ _ => id
  | goesOn a hresult => exact hs.robbed a
  | fails a hresult => exact (hs.robbed a).set rfl hpassed fun _ _ => id
  | takes a task hresult =>
      have hstarted : (r.started task).Attentive capacity (s.Rung thief) :=
        hold.works hearing rfl rfl rfl rfl rfl rfl
      exact (hs.robbed a).set rfl hstarted fun _ _ => id

theorem AllAttentive.step {action : PoolAction T} (hs : s.AllAttentive capacity)
    (hheard : s.Heard action) (hstep : s.step heap capacity action = some next) :
    next.AllAttentive capacity := by
  cases action with
  | worker w action =>
      obtain ⟨worker, hworker, hrest⟩ := Option.bind_eq_some_iff.mp hstep
      obtain ⟨worker', hworker', ⟨⟩⟩ := Option.bind_eq_some_iff.mp hrest
      have hkept := (hs w worker hworker).step (hheard worker hworker) hworker'
      exact hs.set rfl hkept fun _ _ => id
  | steal thief => exact hs.steal hstep
  | submit thread task =>
      simp only [ThreadPool.step] at hstep
      split at hstep <;> try contradiction
      rename_i hidle
      have hnot : ∀ other, s.submissions thread ≠ .waking other := by simp [hidle]
      exact hs.enqueueExternal hnot hstep
  | submitOn thread w task =>
      simp only [ThreadPool.step] at hstep
      split at hstep <;> try contradiction
      rename_i hidle
      exact hs.startPush (by simp [hidle]) hstep
  | produce thread spurious => exact hs.produce hstep
  | wake thread =>
      simp only [ThreadPool.step] at hstep
      split at hstep <;> simp only [Option.some.injEq, reduceCtorEq] at hstep
      rename_i w hwaking
      subst hstep
      refine hs.wake (w := w) rfl ?_
      rintro other hother ⟨ringing, hringing⟩
      have hne : ringing ≠ thread := by
        rintro rfl
        rw [hwaking, Submission.waking.injEq] at hringing
        exact hother hringing.symm
      refine ⟨ringing, ?_⟩
      simp only [setSubmission, Function.update_of_ne hne, wakeWorker_submissions]
      exact hringing
  | destroy =>
      obtain ⟨-, ⟨⟩⟩ := Option.ite_none_left_eq_some.mp hstep
      exact hs
  | wakeNext =>
      simp only [ThreadPool.step] at hstep
      split at hstep <;> try contradiction
      rename_i w hfarewell
      obtain ⟨-, ⟨⟩⟩ := Option.ite_none_right_eq_some.mp hstep
      refine hs.wake (w := w) rfl ?_
      rintro other - ⟨ringing, hringing⟩
      refine ⟨ringing, ?_⟩
      rw [wakeWorker_submissions]
      exact hringing

/-- The step after which a worker is deaf. -/
theorem AllAttentive.deafened {action : PoolAction T} (hs : s.AllAttentive capacity)
    (hlost : ¬ s.Heard action) (hstep : s.step heap capacity action = some next) : next.SomeDeaf := by
  cases action with
  | worker w action =>
      obtain ⟨worker, hworker, hrest⟩ := Option.bind_eq_some_iff.mp hstep
      obtain ⟨worker', hworker', ⟨⟩⟩ := Option.bind_eq_some_iff.mp hrest
      have hmissed : ¬ worker.Heard action := by
        intro hheard
        apply hlost
        intro found hfound
        obtain rfl := Option.some.inj (hworker.symm.trans hfound)
        exact hheard
      have hlt := (List.getElem?_eq_some_iff.mp hworker).1
      exact ⟨w, worker', List.getElem?_set_self hlt, (hs w worker hworker).deafened hmissed hworker'⟩
  | _ => exact absurd trivial hlost

/-- What a step leaves of the reads of the workers. -/
structure Kept (s next : ThreadPool T) : Prop where
  deaf : ∀ (w : Nat) (worker : PoolWorker T), s.workers[w]? = some worker → worker.Deaf →
    ∃ worker', next.workers[w]? = some worker' ∧ worker'.Deaf

theorem Kept.of_workers (hworkers : next.workers = s.workers) : Kept s next where
  deaf _ worker hworker hdeaf := ⟨worker, hworkers ▸ hworker, hdeaf⟩

theorem Kept.trans {middle : ThreadPool T} (hfirst : Kept s middle) (hlast : Kept middle next) :
    Kept s next where
  deaf w worker hworker hdeaf := by
    obtain ⟨worker', hworker', hdeaf'⟩ := hfirst.deaf w worker hworker hdeaf
    exact hlast.deaf w worker' hworker' hdeaf'

theorem Kept.set {before : PoolWorker T} (hbefore : s.workers[w]? = some before)
    (hworkers : next.workers = s.workers.set w worker) (hdeaf : before.Deaf → worker.Deaf) :
    Kept s next where
  deaf other found hfound hold := by
    rw [hworkers]
    by_cases hsame : w = other
    · subst hsame
      obtain rfl := Option.some.inj (hbefore.symm.trans hfound)
      exact ⟨worker, List.getElem?_set_self (List.getElem?_eq_some_iff.mp hfound).1, hdeaf hold⟩
    · rw [List.getElem?_set_ne hsame]
      exact ⟨found, hfound, hold⟩

theorem kept_startPush {thread : Nat} {pinned : Bool} {task : T}
    (hstep : s.startPush capacity thread w pinned task = some next) : Kept s next := by
  obtain ⟨worker, hworker, hrest⟩ := Option.bind_eq_some_iff.mp hstep
  obtain ⟨queue, -, ⟨⟩⟩ := Option.bind_eq_some_iff.mp hrest
  exact Kept.set hworker rfl fun hdeaf => hdeaf.turn rfl rfl hdeaf.armable

theorem kept_enqueueExternal {thread : Nat} {task : T}
    (hstep : s.enqueueExternal capacity thread task = some next) : Kept s next := by
  have hmoved : Kept s { s with next_worker := wrap64 (s.next_worker + 1) } :=
    Kept.of_workers rfl
  exact hmoved.trans (kept_startPush hstep)

theorem kept_wakeWorker (hworkers : next.workers = (s.wakeWorker w).workers) : Kept s next := by
  unfold wakeWorker at hworkers
  split at hworkers
  case h_1 => exact Kept.of_workers hworkers
  case h_2 worker hworker =>
    exact Kept.set hworker hworkers fun hdeaf => hdeaf.turn rfl rfl hdeaf.armable

theorem kept_produce {thread : Nat} {spurious : Bool}
    (hstep : s.step heap capacity (.produce thread spurious) = some next) : Kept s next := by
  simp only [ThreadPool.step] at hstep
  split at hstep <;> try contradiction
  rename_i w pinned task hpushing
  obtain ⟨worker, hworker, hrest⟩ := Option.bind_eq_some_iff.mp hstep
  obtain ⟨queue, hqueue, hnext⟩ := Option.bind_eq_some_iff.mp hrest
  have hkept : Kept s (s.setWorker w { worker with queue := queue }) :=
    Kept.set hworker rfl fun hdeaf => hdeaf.turn rfl rfl hdeaf.armable
  split at hnext
  case h_1 =>
    obtain rfl := Option.some.inj hnext
    exact hkept.trans (Kept.of_workers rfl)
  case h_2 =>
    split at hnext
    case isTrue => exact hkept.trans (kept_startPush hnext)
    case isFalse => exact hkept.trans (kept_enqueueExternal hnext)
  case h_3 =>
    obtain rfl := Option.some.inj hnext
    exact hkept

theorem kept_steal {thief : Nat}
    (hstep : s.step heap capacity (.steal thief) = some next) : Kept s next := by
  obtain ⟨r, hends⟩ := steal_round hstep
  have hrobbed : ∀ a : r.Attempt heap, Kept s a.robbed := fun a =>
    Kept.set a.found rfl fun hdeaf => hdeaf.turn rfl rfl hdeaf.armable
  cases hends with
  | own hown => exact Kept.set r.found rfl fun hdeaf => hdeaf.turn rfl rfl rfl
  | goesOn a hresult => exact hrobbed a
  | fails a hresult =>
      exact (hrobbed a).trans (Kept.set a.still rfl fun hdeaf => hdeaf.turn rfl rfl rfl)
  | takes a task hresult =>
      exact (hrobbed a).trans (Kept.set a.still rfl fun hdeaf => hdeaf.turn rfl rfl rfl)

theorem kept_step {action : PoolAction T} (hstep : s.step heap capacity action = some next) :
    Kept s next := by
  cases action with
  | worker w action =>
      obtain ⟨worker, hworker, hrest⟩ := Option.bind_eq_some_iff.mp hstep
      obtain ⟨worker', hworker', ⟨⟩⟩ := Option.bind_eq_some_iff.mp hrest
      exact Kept.set hworker rfl fun hdeaf => hdeaf.step hworker'
  | steal thief => exact kept_steal hstep
  | submit thread task =>
      simp only [ThreadPool.step] at hstep
      split at hstep <;> try contradiction
      exact kept_enqueueExternal hstep
  | submitOn thread w task =>
      simp only [ThreadPool.step] at hstep
      split at hstep <;> try contradiction
      exact kept_startPush hstep
  | produce thread spurious => exact kept_produce hstep
  | wake thread =>
      simp only [ThreadPool.step] at hstep
      split at hstep <;> simp only [Option.some.injEq, reduceCtorEq] at hstep
      subst hstep
      exact kept_wakeWorker rfl
  | destroy =>
      obtain ⟨-, ⟨⟩⟩ := Option.ite_none_left_eq_some.mp hstep
      exact Kept.of_workers rfl
  | wakeNext =>
      simp only [ThreadPool.step] at hstep
      split at hstep <;> try contradiction
      obtain ⟨-, ⟨⟩⟩ := Option.ite_none_right_eq_some.mp hstep
      exact kept_wakeWorker rfl

theorem SomeDeaf.step {action : PoolAction T} (hs : s.SomeDeaf)
    (hstep : s.step heap capacity action = some next) : next.SomeDeaf := by
  obtain ⟨w, worker, hworker, hdeaf⟩ := hs
  obtain ⟨worker', hworker', hdeaf'⟩ := (kept_step hstep).deaf w worker hworker hdeaf
  exact ⟨w, worker', hworker', hdeaf'⟩

/-- Without its time-out the worker comes to look at its queues in a few steps of
whichever thread pushed to it, of the kernel and of its own. -/
def WakesSoon (heap : ArrayHeap) (capacity : MpscCapacity) (s : ThreadPool T) (w : Nat) : Prop :=
  ∃ word : List (PoolAction T), word.length ≤ 3 ∧ .worker w (.awake true) ∉ word ∧
    ∃ next worker, (machine T heap capacity s.workers.length).runFrom s word = some next ∧
      next.workers[w]? = some worker ∧ worker.phase = .checking

/-- A worker that waits has an empty deque, and wakes soon if its queue has a task ready. -/
def NoneForgotten (heap : ArrayHeap) (capacity : MpscCapacity) (s : ThreadPool T) : Prop :=
  ∀ (w : Nat) (worker : PoolWorker T), s.workers[w]? = some worker → worker.phase = .waiting →
    worker.deque.Spent ∧ (worker.queue.Readable capacity → s.WakesSoon heap capacity w)

theorem step_worker {action : WorkerAction T} {worker' : PoolWorker T}
    (hworker : s.workers[w]? = some worker)
    (hstep : worker.step heap capacity s.workers.length s.stop action = some worker') :
    s.step heap capacity (.worker w action) = some (s.setWorker w worker') := by
  simp only [step, hworker, Option.bind_eq_bind, Option.bind_some, hstep]

variable (heap num) in
theorem wakes_completed (hworker : s.workers[w]? = some worker) (hphase : worker.phase = .waiting)
    (hcqe : worker.wakeCqe) :
    ∃ next worker', (machine T heap capacity num).runFrom s [.worker w (.awake false)] = some next ∧
      next.workers[w]? = some worker' ∧ worker'.phase = .checking := by
  have hawake : worker.step heap capacity s.workers.length s.stop (.awake false) =
      some { worker with phase := .checking } := by
    simp only [PoolWorker.step, hphase, hcqe, true_or, or_true, if_true]
  refine ⟨s.setWorker w { worker with phase := .checking }, { worker with phase := .checking },
    ?_, ?_, rfl⟩
  · simp only [Machine.runFrom, machine, step_worker hworker hawake]
  · exact List.getElem?_set_self (List.getElem?_eq_some_iff.mp hworker).1

variable (heap num) in
theorem wakes_written (hworker : s.workers[w]? = some worker) (hphase : worker.phase = .waiting)
    (hears : worker.armed ∨ worker.wakeCqe) (hcounter : 0 < worker.counter) :
    ∃ word : List (PoolAction T), word.length ≤ 2 ∧ .worker w (.awake true) ∉ word ∧
      ∃ next worker', (machine T heap capacity num).runFrom s word = some next ∧
        next.workers[w]? = some worker' ∧ worker'.phase = .checking := by
  by_cases hcqe : worker.wakeCqe
  · exact ⟨_, by simp, by simp, wakes_completed heap num hworker hphase hcqe⟩
  · have harmed : worker.armed := hears.resolve_right hcqe
    have hread : worker.step heap capacity s.workers.length s.stop .kernelRead =
        some { worker with counter := 0, armed := false, wakeCqe := true } := by
      simp only [PoolWorker.step, harmed, hcounter, true_and, if_true]
    have hself : (s.setWorker w
        { worker with counter := 0, armed := false, wakeCqe := true }).workers[w]? =
          some { worker with counter := 0, armed := false, wakeCqe := true } :=
      List.getElem?_set_self (List.getElem?_eq_some_iff.mp hworker).1
    obtain ⟨next, worker', hrun, hfound, hchecking⟩ :=
      wakes_completed heap num hself hphase rfl
    refine ⟨[.worker w .kernelRead, .worker w (.awake false)], by simp, by simp,
      next, worker', ?_, hfound, hchecking⟩
    simp only [Machine.runFrom, machine, step_worker hworker hread] at hrun ⊢
    exact hrun

theorem AllAttentive.noneForgotten (hs : s.AllAttentive capacity) : s.NoneForgotten heap capacity := by
  intro w worker hworker hphase
  have hold := hs w worker hworker
  have hears := hold.hears (by rw [hphase]; rfl)
  refine ⟨hold.emptied (by rw [hphase]; rfl), ?_⟩
  intro hreadable
  obtain ⟨thread, hwaking⟩ | hcqe | ⟨-, hcounter⟩ := hold.alert (by rw [hphase]; rfl) hreadable
  · -- the thread writes first
    have hwake : s.step heap capacity (.wake thread) =
        some ((s.wakeWorker w).setSubmission thread .idle) := by
      simp only [ThreadPool.step, hwaking]
    have hself : ((s.wakeWorker w).setSubmission thread .idle).workers[w]? =
        some { worker with counter := PoolWorker.written worker.counter } := by
      simp only [wakeWorker, hworker, setSubmission, setWorker]
      exact List.getElem?_set_self (List.getElem?_eq_some_iff.mp hworker).1
    have hpos : 0 < PoolWorker.written worker.counter := by
      unfold PoolWorker.written
      split <;> omega
    obtain ⟨word, hlength, huntimed, next, worker', hrun, hfound, hchecking⟩ :=
      wakes_written heap s.workers.length hself hphase hears hpos
    refine ⟨.wake thread :: word, Nat.succ_le_succ hlength, ?_, next, worker', ?_, hfound,
      hchecking⟩
    · simpa using huntimed
    · simp only [Machine.runFrom, machine, hwake] at hrun ⊢
      exact hrun
  · exact ⟨_, by simp, by simp, wakes_completed heap _ hworker hphase hcqe⟩
  · obtain ⟨word, hlength, huntimed, hrun⟩ :=
      wakes_written heap _ hworker hphase hears hcounter
    exact ⟨word, Nat.le_succ_of_le hlength, huntimed, hrun⟩

/-- In every run of any number of workers, submitting threads and thieves: while the
reactors hear, no waiting worker is forgotten, and from the first time one of them does
not, some worker is deaf for good. -/
theorem none_forgotten (heap : ArrayHeap) (capacity : MpscCapacity) (num : Nat) (word : List (PoolAction T))
    (last : ThreadPool T) (hrun : (machine T heap capacity num).run word = some last) :
    ((machine T heap capacity num).Meets Heard word → last.NoneForgotten heap capacity) ∧
      (¬ (machine T heap capacity num).Meets Heard word → last.SomeDeaf) := by
  have hsplit : ((machine T heap capacity num).Meets Heard word → last.AllAttentive capacity) ∧
      (¬ (machine T heap capacity num).Meets Heard word → last.SomeDeaf) := by
    refine Machine.runFrom_split _ ?_ ?_ ?_ word (init_attentive num) hrun
    · intro state action next hs hheard hstep
      exact hs.step hheard hstep
    · intro state action next hs hlost hstep
      exact hs.deafened hlost hstep
    · intro state action next hs hstep
      exact hs.step hstep
  exact ⟨fun hmeets => (hsplit.1 hmeets).noneForgotten, hsplit.2⟩

/-- The only worker goes to rest, and then a thread pushes a task. -/
def pushedAtRest (gotSqe : Bool) : List (PoolAction Nat) :=
  [.worker 0 (.begin gotSqe), .worker 0 .check, .worker 0 .polled, .worker 0 .pop] ++
    List.replicate 4 (.worker 0 (.call 0)) ++
    [.worker 0 .fetch, .worker 0 .fetch, .worker 0 .flush, .submit 9 5] ++
    List.replicate 5 (.produce 9 false)

def smallCapacity : MpscCapacity := ⟨1, by decide, by decide⟩

/-- Whoever pushed is still to write; and where the read was not armed, the write comes
and nothing but the time-out ends the wait. -/
theorem none_forgotten_pushedAtRest :
    (∃ last, (machine Nat .largest smallCapacity 1).run (pushedAtRest true) = some last ∧
      (∃ worker, last.workers[0]? = some worker ∧ worker.phase = .waiting ∧
        worker.queue.Readable smallCapacity) ∧ last.NoneForgotten .largest smallCapacity) ∧
    ∃ last, (machine Nat .largest smallCapacity 1).run (pushedAtRest false ++ [.wake 9]) = some last ∧
      (∃ worker, last.workers[0]? = some worker ∧ worker.phase = .waiting ∧
        worker.queue.Readable smallCapacity ∧ worker.counter = 1) ∧ last.SomeDeaf := by
  refine ⟨⟨_, rfl, ⟨_, rfl, rfl, rfl⟩, ?_⟩, ⟨_, rfl, ⟨_, rfl, rfl, rfl, rfl⟩, ?_⟩⟩
  · exact (none_forgotten .largest smallCapacity 1 (pushedAtRest true) _ rfl).1 (by decide)
  · exact (none_forgotten .largest smallCapacity 1 (pushedAtRest false ++ [.wake 9]) _ rfl).2 (by decide)

end ThreadPool

end UltraNet
