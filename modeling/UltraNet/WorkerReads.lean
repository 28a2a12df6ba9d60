/-
One worker of the pool and the read of its event descriptor: what its own steps and
those of the kernel keep while the read is armed again each time, and what becomes of
the worker on which this fails once.
-/
import UltraNet.WorkerSteps

namespace UltraNet

namespace PoolWorker

variable {T : Type} {heap : ArrayHeap} {capacity : MpscCapacity} {num : Nat} {stop : Bool}
  {rung rung' : Prop} {s next : PoolWorker T}

/-- A thread is about to write, the kernel is about to answer, or it has. -/
def Alert (rung : Prop) (s : PoolWorker T) : Prop :=
  rung ∨ s.wakeCqe ∨ (s.armed ∧ 0 < s.counter)

/-- No write to the event descriptor reaches the worker, now or later. -/
structure Deaf (s : PoolWorker T) : Prop where
  armed : s.armed = false
  wakeCqe : s.wakeCqe = false
  armable : s.phase.disarmed = false

/-- `rung`: a thread has pushed to the queue of this worker and has not written yet. -/
structure Attentive (capacity : MpscCapacity) (rung : Prop) (s : PoolWorker T) : Prop where
  hears : s.phase.disarmed = false → s.armed ∨ s.wakeCqe
  unarmed : s.phase.disarmed → s.armed = false ∧ s.wakeCqe = false
  once : s.armed → s.wakeCqe = false
  saw : s.deque.PopSaw
  emptied : s.phase.emptied → s.deque.Spent
  alert : s.phase.resting → s.queue.Readable capacity → s.Alert rung

/-- The read is armed again, and its completion is not lost. -/
def Heard (s : PoolWorker T) : WorkerAction T → Prop
  | .begin gotSqe => gotSqe
  | .rearm gotSqe => gotSqe
  | .overflow => s.wakeCqe = false
  | _ => True

instance (s : PoolWorker T) (action : WorkerAction T) : Decidable (s.Heard action) := by
  unfold Heard
  split <;> infer_instance

theorem fresh_attentive : Attentive capacity rung (fresh num : PoolWorker T) :=
  ⟨nofun, fun _ => ⟨rfl, rfl⟩, nofun, trivial, nofun, nofun⟩

theorem Alert.mono (halert : s.Alert rung) (hrung : rung → rung') : s.Alert rung' :=
  halert.imp_left hrung

/-- A step that leaves the read alone. -/
theorem Attentive.turn (hs : s.Attentive capacity rung) (hphase : s.phase.disarmed = false)
    (hnext : next.phase.disarmed = false) (harmed : next.armed = s.armed)
    (hcqe : next.wakeCqe = s.wakeCqe) (hsaw : next.deque.PopSaw)
    (hempty : next.phase.emptied → next.deque.Spent)
    (halert : next.phase.resting → next.queue.Readable capacity → next.Alert rung) :
    next.Attentive capacity rung where
  hears _ := by
    rw [harmed, hcqe]
    exact hs.hears hphase
  unarmed hdisarmed := by simp [hnext] at hdisarmed
  once := by
    rw [harmed, hcqe]
    exact hs.once
  saw := hsaw
  emptied := hempty
  alert := halert

/-- Such a step to a phase in which nothing is known of the deque and the queue. -/
theorem Attentive.works (hs : s.Attentive capacity rung) (hphase : s.phase.disarmed = false)
    (hnext : next.phase.disarmed = false) (harmed : next.armed = s.armed)
    (hcqe : next.wakeCqe = s.wakeCqe) (hdeque : next.deque = s.deque)
    (hemptied : next.phase.emptied = false) (hresting : next.phase.resting = false) :
    next.Attentive capacity rung := by
  refine hs.turn hphase hnext harmed hcqe (hdeque ▸ hs.saw) ?_ ?_
  · intro hempty
    rw [hemptied] at hempty
    cases hempty
  · intro hrest
    rw [hresting] at hrest
    cases hrest

/-- Another thread has changed the queue. -/
theorem Attentive.queue (hs : s.Attentive capacity rung) (hrung : rung → rung')
    {queue : MpscQueue T}
    (hqueue : queue.Readable capacity → s.queue.Readable capacity ∨ rung') :
    { s with queue := queue }.Attentive capacity rung' :=
  { hs with
    alert := fun hresting hreadable => (hqueue hreadable).elim
      (fun hold => (hs.alert hresting hold).mono hrung) .inl }

/-- A thread has written to the event descriptor. -/
theorem Attentive.written (hs : s.Attentive capacity rung) :
    { s with counter := PoolWorker.written s.counter }.Attentive capacity rung' := by
  have hpos : 0 < PoolWorker.written s.counter := by
    unfold PoolWorker.written
    split <;> omega
  refine { hs with alert := fun hresting _ => ?_ }
  have hphase : s.phase.disarmed = false := by
    cases hphase : s.phase <;> simp [WorkerPhase.resting, WorkerPhase.disarmed, hphase]
      at hresting ⊢
  obtain harmed | hcqe := hs.hears hphase
  · exact .inr (.inr ⟨harmed, hpos⟩)
  · exact .inr (.inl hcqe)

theorem Attentive.fetch (hs : s.Attentive capacity rung)
    (hstep : s.step heap capacity num stop .fetch = some next) : next.Attentive capacity rung := by
  simp only [step] at hstep
  split at hstep
  case h_1 hadWork hphase =>
    have hearing : s.phase.disarmed = false := by rw [hphase]; rfl
    obtain ⟨queue, rfl | ⟨item, rfl⟩ | ⟨rfl, hmissed, -⟩⟩ := tryGetFromMpsc_cases hstep
    · refine hs.turn hearing hearing rfl rfl hs.saw hs.emptied ?_
      simp [hphase, WorkerPhase.resting]
    · exact hs.works hearing rfl rfl rfl rfl rfl rfl
    · cases hadWork with
      | true => exact hs.works hearing rfl rfl rfl rfl rfl rfl
      | false =>
          have hempty : s.deque.Spent := hs.emptied (by rw [hphase]; rfl)
          exact hs.turn hearing rfl rfl rfl hs.saw (fun _ => hempty)
            (fun _ hreadable => absurd hreadable hmissed)
  case h_2 hphase =>
    have hearing : s.phase.disarmed = false := by rw [hphase]; rfl
    obtain ⟨queue, rfl | ⟨item, rfl⟩ | ⟨rfl, hmissed, -⟩⟩ := tryGetFromMpsc_cases hstep
    · refine hs.turn hearing hearing rfl rfl hs.saw hs.emptied ?_
      simp [hphase, WorkerPhase.resting]
    · exact hs.works hearing rfl rfl rfl rfl rfl rfl
    · exact hs.works hearing rfl rfl rfl rfl rfl rfl
  case h_3 => cases hstep

theorem Attentive.popEnds {result : Option (Option T)} (hs : s.Attentive capacity rung)
    (hspent : result = none → s.deque.Spent) (hends : s.PopEnds result next) :
    next.Attentive capacity rung := by
  cases hends with
  | runs task hadWork hphase | drains task hphase =>
      exact hs.works (by rw [hphase]; rfl) rfl rfl rfl rfl rfl rfl
  | alone hadWork hphase | steals hadWork start hphase =>
      exact hs.turn (by rw [hphase]; rfl) rfl rfl rfl hs.saw (fun _ => hspent rfl)
        fun hresting => absurd hresting Bool.false_ne_true
  | drained hphase => exact hs.works (by rw [hphase]; rfl) rfl rfl rfl rfl rfl rfl

/-- A call of the worker on its deque goes on. -/
theorem Attentive.call {start : Nat} (hs : s.Attentive capacity rung)
    (hstep : s.step heap capacity num stop (.call start) = some next) :
    next.Attentive capacity rung := by
  obtain ⟨deque, hdeque, hends⟩ := call_cases hstep
  have hworking : s.phase.emptied = false := by
    by_contra hemptied
    have howner := (hs.emptied (by simpa using hemptied)).owner
    simp only [Deque.step, Deque.ownerStep, howner, reduceCtorEq] at hdeque
  have hsaw := (Deque.owner_turned hdeque).popSaw hs.saw
  have hworks : { s with deque := deque }.Attentive capacity rung :=
    { hs with
      saw := hsaw
      emptied := fun hemptied => by
        rw [hworking] at hemptied
        cases hemptied }
  obtain ⟨-, rfl⟩ | ⟨result, hresult, hends⟩ := hends
  · exact hworks
  · exact hworks.popEnds (Deque.owner_popped hs.saw hresult hdeque).2 hends

/-- A call of the worker on its deque begins. -/
theorem Attentive.begins {action : WorkerAction T} {move : DequeMove T}
    (hs : s.Attentive capacity rung) (hbegins : Begins action move)
    (hstep : s.step heap capacity num stop action = some next) :
    next.Attentive capacity rung := by
  obtain ⟨hworking, deque, hdeque, rfl⟩ := begin_cases hbegins hstep
  have hphase := WorkerPhase.disarmed_of_working hworking
  have hsaw : deque.PopSaw := by
    cases hbegins with
    | push task => exact (Deque.call_begun (.inl ⟨task, rfl⟩) hdeque).2.2.2
    | pop => exact (Deque.call_begun (.inr rfl) hdeque).2.2.2
  refine hs.turn hphase hphase rfl rfl hsaw ?_ hs.alert
  intro hemptied
  rw [WorkerPhase.emptied_of_working hworking] at hemptied
  cases hemptied

/-- The steps in which the read or its completion changes hands. -/
theorem Attentive.begin {gotSqe : Bool} (hs : s.Attentive capacity rung) (hgot : gotSqe)
    (hstep : s.step heap capacity num stop (.begin gotSqe) = some next) :
    next.Attentive capacity rung := by
  simp only [PoolWorker.step] at hstep
  split at hstep <;> simp only [Option.some.injEq, reduceCtorEq] at hstep
  rename_i hphase
  subst hstep
  obtain ⟨-, hcqe⟩ := hs.unarmed (by rw [hphase]; rfl)
  exact {
    hears := fun _ => .inl hgot
    unarmed := fun hdisarmed => absurd hdisarmed Bool.false_ne_true
    once := fun _ => hcqe
    saw := hs.saw
    emptied := fun hemptied => absurd hemptied Bool.false_ne_true
    alert := fun hresting => absurd hresting Bool.false_ne_true }

theorem Attentive.rearm {gotSqe : Bool} (hs : s.Attentive capacity rung) (hgot : gotSqe)
    (hstep : s.step heap capacity num stop (.rearm gotSqe) = some next) :
    next.Attentive capacity rung := by
  simp only [PoolWorker.step] at hstep
  split at hstep <;> simp only [Option.some.injEq, reduceCtorEq] at hstep
  rename_i hphase
  subst hstep
  obtain ⟨-, hcqe⟩ := hs.unarmed (by rw [hphase]; rfl)
  exact {
    hears := fun _ => .inl hgot
    unarmed := fun hdisarmed => absurd hdisarmed Bool.false_ne_true
    once := fun _ => hcqe
    saw := hs.saw
    emptied := fun hemptied => absurd hemptied Bool.false_ne_true
    alert := fun hresting => absurd hresting Bool.false_ne_true }

theorem Attentive.wakeCompletion (hs : s.Attentive capacity rung)
    (hstep : s.step heap capacity num stop .wakeCompletion = some next) :
    next.Attentive capacity rung := by
  simp only [PoolWorker.step] at hstep
  split at hstep <;> simp only [Option.some.injEq, reduceCtorEq] at hstep
  rename_i hphase howner hcqe
  subst hstep
  have hread : s.armed = false := by
    by_contra harmed
    rw [hs.once (by simpa using harmed)] at hcqe
    exact absurd hcqe Bool.false_ne_true
  exact {
    hears := fun harmable => absurd harmable.symm Bool.false_ne_true
    unarmed := fun _ => ⟨hread, rfl⟩
    once := fun _ => rfl
    saw := hs.saw
    emptied := fun hemptied => absurd hemptied Bool.false_ne_true
    alert := fun hresting => absurd hresting Bool.false_ne_true }

theorem Attentive.read (hs : s.Attentive capacity rung)
    (hstep : s.step heap capacity num stop .read = some next) : next.Attentive capacity rung := by
  simp only [PoolWorker.step] at hstep
  split at hstep <;> simp only [Option.some.injEq, reduceCtorEq] at hstep
  rename_i hphase
  subst hstep
  have hunarmed := hs.unarmed (by rw [hphase]; rfl)
  exact {
    hears := fun harmable => absurd harmable.symm Bool.false_ne_true
    unarmed := fun _ => hunarmed
    once := hs.once
    saw := hs.saw
    emptied := fun hemptied => absurd hemptied Bool.false_ne_true
    alert := fun hresting => absurd hresting Bool.false_ne_true }

/-- The kernel completes the read. -/
theorem Attentive.completed (hs : s.Attentive capacity rung) (harmed : s.armed)
    {counter : Nat} :
    { s with counter := counter, armed := false, wakeCqe := true }.Attentive capacity rung where
  hears _ := .inr rfl
  unarmed hdisarmed := by simp [(hs.unarmed hdisarmed).1] at harmed
  once := nofun
  saw := hs.saw
  emptied := hs.emptied
  alert _ _ := .inr (.inl rfl)

theorem Attentive.step {action : WorkerAction T} (hs : s.Attentive capacity rung)
    (hheard : s.Heard action) (hstep : s.step heap capacity num stop action = some next) :
    next.Attentive capacity rung := by
  cases action with
  | begin gotSqe => exact hs.begin hheard hstep
  | rearm gotSqe => exact hs.rearm hheard hstep
  | wakeCompletion => exact hs.wakeCompletion hstep
  | read => exact hs.read hstep
  | fetch => exact hs.fetch hstep
  | pop => exact hs.begins .pop hstep
  | call start => exact hs.call hstep
  | push task => exact hs.begins (.push task) hstep
  | check =>
      simp only [PoolWorker.step] at hstep
      split at hstep <;> simp only [Option.some.injEq, reduceCtorEq] at hstep
      rename_i hphase
      subst hstep
      cases stop with
      | true => exact hs.works (by rw [hphase]; rfl) rfl rfl rfl rfl rfl rfl
      | false => exact hs.works (by rw [hphase]; rfl) rfl rfl rfl rfl rfl rfl
  | completion =>
      simp only [PoolWorker.step] at hstep
      split at hstep <;> simp only [Option.some.injEq, reduceCtorEq] at hstep
      rename_i hphase howner hothers
      subst hstep
      refine hs.turn (by rw [hphase]; rfl) (by rw [hphase]; rfl) rfl rfl hs.saw hs.emptied ?_
      simp [hphase, WorkerPhase.resting]
  | polled =>
      simp only [PoolWorker.step] at hstep
      split at hstep <;> simp only [Option.some.injEq, reduceCtorEq] at hstep
      rename_i hphase howner hcqe hothers
      subst hstep
      exact hs.works (by rw [hphase]; rfl) rfl rfl rfl rfl rfl rfl
  | giveUp =>
      simp only [PoolWorker.step] at hstep
      split at hstep <;> try contradiction
      rename_i hadWork start i hphase
      obtain ⟨-, ⟨⟩⟩ := Option.ite_none_right_eq_some.mp hstep
      refine hs.turn (by rw [hphase]; rfl) rfl rfl rfl hs.saw ?_
        fun hresting => absurd hresting Bool.false_ne_true
      intro hemptied
      apply hs.emptied
      cases hadWork with
      | true => exact absurd hemptied Bool.false_ne_true
      | false => rw [hphase]; rfl
  | ran =>
      simp only [PoolWorker.step] at hstep
      split at hstep <;> simp only [Option.some.injEq, reduceCtorEq] at hstep
      rename_i task origin hphase howner
      subst hstep
      cases origin <;> exact hs.works (by rw [hphase]; rfl) rfl rfl rfl rfl rfl rfl
  | flush =>
      simp only [PoolWorker.step] at hstep
      split at hstep <;> simp only [Option.some.injEq, reduceCtorEq] at hstep
      rename_i hphase
      subst hstep
      have hempty : s.deque.Spent := hs.emptied (by rw [hphase]; rfl)
      have halert := hs.alert (by rw [hphase]; rfl)
      exact hs.turn (by rw [hphase]; rfl) rfl rfl rfl hs.saw (fun _ => hempty) (fun _ => halert)
  | awake timedOut =>
      simp only [PoolWorker.step] at hstep
      split at hstep <;> try contradiction
      rename_i hphase
      obtain ⟨-, ⟨⟩⟩ := Option.ite_none_right_eq_some.mp hstep
      exact hs.works (by rw [hphase]; rfl) rfl rfl rfl rfl rfl rfl
  | kernelRead =>
      obtain ⟨⟨harmed, -⟩, ⟨⟩⟩ := Option.ite_none_right_eq_some.mp hstep
      exact hs.completed harmed
  | kernelError =>
      obtain ⟨harmed, ⟨⟩⟩ := Option.ite_none_right_eq_some.mp hstep
      exact hs.completed harmed
  | complete =>
      obtain rfl := Option.some.inj hstep
      exact ⟨hs.hears, hs.unarmed, hs.once, hs.saw, hs.emptied, hs.alert⟩
  | overflow =>
      obtain rfl := Option.some.inj hstep
      have hcqe : s.wakeCqe = false := hheard
      have hsame : { s with wakeCqe := false } = s := by rw [← hcqe]
      rw [hsame]
      exact hs

/-- A read that is not armed again, or whose completion is lost. -/
theorem Attentive.deafened {action : WorkerAction T} (hs : s.Attentive capacity rung)
    (hlost : ¬ s.Heard action) (hstep : s.step heap capacity num stop action = some next) :
    next.Deaf := by
  cases action with
  | begin gotSqe =>
      simp only [PoolWorker.step] at hstep
      split at hstep <;> simp only [Option.some.injEq, reduceCtorEq] at hstep
      rename_i hphase
      subst hstep
      exact ⟨by simpa [Heard] using hlost, (hs.unarmed (by rw [hphase]; rfl)).2, rfl⟩
  | rearm gotSqe =>
      simp only [PoolWorker.step] at hstep
      split at hstep <;> simp only [Option.some.injEq, reduceCtorEq] at hstep
      rename_i hphase
      subst hstep
      exact ⟨by simpa [Heard] using hlost, (hs.unarmed (by rw [hphase]; rfl)).2, rfl⟩
  | overflow =>
      obtain rfl := Option.some.inj hstep
      have hcqe : s.wakeCqe = true := by simpa [Heard] using hlost
      have hread : s.armed = false := by
        by_contra harmed
        rw [hs.once (by simpa using harmed)] at hcqe
        exact absurd hcqe Bool.false_ne_true
      have hphase : s.phase.disarmed = false := by
        by_contra hdisarmed
        rw [(hs.unarmed (by simpa using hdisarmed)).2] at hcqe
        exact absurd hcqe Bool.false_ne_true
      exact ⟨hread, rfl, hphase⟩
  | _ => exact absurd trivial hlost

theorem Deaf.turn (hs : s.Deaf) (harmed : next.armed = s.armed)
    (hcqe : next.wakeCqe = s.wakeCqe) (hphase : next.phase.disarmed = false) : next.Deaf :=
  ⟨harmed.trans hs.armed, hcqe.trans hs.wakeCqe, hphase⟩

theorem Deaf.fetch (hs : s.Deaf) (hstep : s.step heap capacity num stop .fetch = some next) :
    next.Deaf := by
  simp only [PoolWorker.step] at hstep
  split at hstep
  case h_1 hadWork hphase =>
    obtain ⟨queue, rfl | ⟨item, rfl⟩ | ⟨rfl, -⟩⟩ := tryGetFromMpsc_cases hstep
    · exact hs.turn rfl rfl hs.armable
    · exact hs.turn rfl rfl rfl
    · cases hadWork <;> exact hs.turn rfl rfl rfl
  case h_2 hphase =>
    obtain ⟨queue, rfl | ⟨item, rfl⟩ | ⟨rfl, -⟩⟩ := tryGetFromMpsc_cases hstep
    · exact hs.turn rfl rfl hs.armable
    · exact hs.turn rfl rfl rfl
    · exact hs.turn rfl rfl rfl
  case h_3 => cases hstep

theorem Deaf.call {start : Nat} (hs : s.Deaf)
    (hstep : s.step heap capacity num stop (.call start) = some next) : next.Deaf := by
  obtain ⟨deque, -, ⟨-, rfl⟩ | ⟨result, -, hends⟩⟩ := call_cases hstep
  · exact hs.turn rfl rfl hs.armable
  · cases hends <;> exact hs.turn rfl rfl rfl

/-- Nothing brings the read back. -/
theorem Deaf.step {action : WorkerAction T} (hs : s.Deaf)
    (hstep : s.step heap capacity num stop action = some next) : next.Deaf := by
  have harmable := hs.armable
  cases action with
  | fetch => exact hs.fetch hstep
  | kernelRead =>
      obtain ⟨⟨harmed, -⟩, -⟩ := Option.ite_none_right_eq_some.mp hstep
      exact absurd (hs.armed.symm.trans harmed) Bool.false_ne_true
  | kernelError =>
      obtain ⟨harmed, -⟩ := Option.ite_none_right_eq_some.mp hstep
      exact absurd (hs.armed.symm.trans harmed) Bool.false_ne_true
  | complete =>
      obtain rfl := Option.some.inj hstep
      exact hs.turn rfl rfl harmable
  | overflow =>
      obtain rfl := Option.some.inj hstep
      exact ⟨hs.armed, rfl, harmable⟩
  | wakeCompletion =>
      simp only [PoolWorker.step] at hstep
      split at hstep <;> simp only [Option.some.injEq, reduceCtorEq] at hstep
      rename_i hcqe
      exact absurd (hs.wakeCqe.symm.trans hcqe) Bool.false_ne_true
  | pop =>
      obtain ⟨-, deque, -, rfl⟩ := begin_cases .pop hstep
      exact hs.turn rfl rfl harmable
  | push task =>
      obtain ⟨-, deque, -, rfl⟩ := begin_cases (.push task) hstep
      exact hs.turn rfl rfl harmable
  | call start => exact hs.call hstep
  | check =>
      simp only [PoolWorker.step] at hstep
      split at hstep <;> simp only [Option.some.injEq, reduceCtorEq] at hstep
      subst hstep
      cases stop <;> exact hs.turn rfl rfl rfl
  | ran =>
      simp only [PoolWorker.step] at hstep
      split at hstep <;> simp only [Option.some.injEq, reduceCtorEq] at hstep
      rename_i origin hphase howner
      subst hstep
      cases origin <;> exact hs.turn rfl rfl rfl
  | giveUp =>
      simp only [PoolWorker.step] at hstep
      split at hstep <;> try contradiction
      obtain ⟨-, ⟨⟩⟩ := Option.ite_none_right_eq_some.mp hstep
      exact hs.turn rfl rfl rfl
  | awake timedOut =>
      simp only [PoolWorker.step] at hstep
      split at hstep <;> try contradiction
      obtain ⟨-, ⟨⟩⟩ := Option.ite_none_right_eq_some.mp hstep
      exact hs.turn rfl rfl rfl
  -- the phases in which the read is to be armed are not those of this worker
  | begin gotSqe =>
      simp only [PoolWorker.step] at hstep
      split at hstep <;> simp only [Option.some.injEq, reduceCtorEq] at hstep
      rename_i hphase
      simp [hphase, WorkerPhase.disarmed] at harmable
  | read =>
      simp only [PoolWorker.step] at hstep
      split at hstep <;> simp only [Option.some.injEq, reduceCtorEq] at hstep
      rename_i hphase
      simp [hphase, WorkerPhase.disarmed] at harmable
  | rearm gotSqe =>
      simp only [PoolWorker.step] at hstep
      split at hstep <;> simp only [Option.some.injEq, reduceCtorEq] at hstep
      rename_i hphase
      simp [hphase, WorkerPhase.disarmed] at harmable
  | _ =>
      simp only [PoolWorker.step] at hstep
      split at hstep <;> simp only [Option.some.injEq, reduceCtorEq] at hstep
      all_goals
        subst hstep
        first
          | exact hs.turn rfl rfl rfl
          | exact hs.turn rfl rfl harmable

end PoolWorker

end UltraNet
