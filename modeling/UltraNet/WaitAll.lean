/-
`wait_all` and `wait_all_for` of the pool.  `m_active_tasks` is raised before
a task is queued and lowered, outside of `m_completion_mutex`, when the task
has ended; the call that lowers it to zero takes the mutex and notifies.
-/
import UltraNet.Monitor

namespace UltraNet

/-- A task of the pool. -/
inductive TaskStage where
  -- before `increment_tasks`
  | arriving
  -- queued or running
  | active
  -- before `decrement_tasks`
  | ended
  | gone
deriving DecidableEq

inductive TaskAct where
  | increment
  | finish
  | decrement
deriving DecidableEq

namespace WaitAll

/-- The change of `m_active_tasks` in a step of a task. -/
def work : TaskStage → TaskAct → Option (Int × TaskStage)
  | .arriving, .increment => some (1, .active)
  | .active, .finish => some (0, .ended)
  | .ended, .decrement => some (-1, .gone)
  | _, _ => none

def counted : TaskStage → Nat
  | .active => 1
  | .ended => 1
  | _ => 0

/-- The predicate of both calls. -/
def allDone (tasks : SharedCount TaskStage) : Bool := tasks.count == 0

/-- The pool as far as `wait_all` sees it: a task joins when its submission begins. -/
def machine : Machine (Monitor (SharedCount TaskStage)) (MonitorEvent (CrewAct Unit TaskAct)) :=
  Monitor.machine (SharedCount.step (fun _ => .arriving) work) allDone ⟨0, []⟩

/-- `m_active_tasks` counts the tasks that were counted and are not gone. -/
def Counted (tasks : SharedCount TaskStage) : Prop :=
  tasks.Accounted (fun _ => True) counted

theorem counted_step (tasks : SharedCount TaskStage) (act : CrewAct Unit TaskAct)
    (next : SharedCount TaskStage) (htasks : Counted tasks)
    (hstep : SharedCount.step (fun _ => .arriving) work tasks act = some next) :
    Counted next := by
  cases act with
  | join b =>
      obtain rfl := Option.some.inj hstep
      exact htasks.join trivial rfl
  | act i a =>
      obtain ⟨stage, change, after, hstage, hwork, rfl⟩ := SharedCount.step_act _ hstep
      refine htasks.settle hstage trivial ?_
      unfold work at hwork
      split at hwork
      · cases hwork
        rfl
      · cases hwork
        rfl
      · cases hwork
        rfl
      · cases hwork

/-- The count is zero exactly if no task is queued, running or about to count
itself down. -/
theorem Counted.allDone_iff {tasks : SharedCount TaskStage} (htasks : Counted tasks) :
    allDone tasks = true ↔ ∀ stage ∈ tasks.workers, stage = .arriving ∨ stage = .gone := by
  have hzero : allDone tasks = true ↔ (tasks.workers.map counted).sum = 0 := by
    rw [allDone, beq_iff_eq, htasks.count]
    exact Int.natCast_eq_zero
  rw [hzero, List.sum_eq_zero_iff]
  constructor
  · intro hall stage hstage
    have hnone := hall _ (List.mem_map_of_mem hstage)
    cases stage with
    | arriving => exact .inl rfl
    | gone => exact .inr rfl
    | active | ended => cases hnone
  · intro hall n hn
    obtain ⟨stage, hstage, rfl⟩ := List.mem_map.mp hn
    obtain rfl | rfl := hall stage hstage
    · rfl
    · rfl

/-- Where no task is left, the calls return, in whatever order the threads move, as long
as no sleeper wakes by itself. -/
def Returns (pool : Monitor (SharedCount TaskStage)) : Prop :=
  ∀ word last, (∀ event ∈ word, event.inner = true) →
    machine.runFrom pool word = some last →
    word.length + last.work ≤ pool.work ∧
      ((∀ event, event.inner = true → machine.step last event = none) →
        ∀ phase ∈ last.waiters, ∃ late seen, phase = .returned late seen)

/-- In every run: a call that returned before its time was up looked at a
moment at which every task whose submission had been counted was gone; no call
sleeps while no task is left, unless a notification is to come; and from then
on, as long as nothing is submitted, all calls return. -/
theorem wait_all_returns (word : List (MonitorEvent (CrewAct Unit TaskAct)))
    {pool : Monitor (SharedCount TaskStage)} (hrun : machine.run word = some pool) :
    (∀ seen, .returned false seen ∈ pool.waiters →
      ∀ stage ∈ seen.workers, stage = .arriving ∨ stage = .gone) ∧
    ((∀ stage ∈ pool.shared.workers, stage = .arriving ∨ stage = .gone) →
      ((.asleep ∈ pool.waiters → 0 < pool.ringing ∨ pool.notifying = true) ∧ Returns pool)) := by
  have hpool : pool.Attended allDone Counted :=
    Monitor.run_attended ⟨fun _ _ => trivial, rfl⟩ counted_step word hrun
  constructor
  · intro seen hseen
    obtain ⟨hcounted, hdone⟩ := hpool.saw false seen hseen
    exact hcounted.allDone_iff.mp (hdone rfl)
  · intro hgone
    have hdone := hpool.shared.allDone_iff.mpr hgone
    refine ⟨fun hasleep => hpool.attended hdone ⟨_, hasleep, rfl⟩, ?_⟩
    intro rest last hinner hlast
    exact hpool.settles hdone counted_step rest hinner hlast

/-- A task ends between the look of a caller and its sleep. -/
def endsBeforeSleep : List (MonitorEvent (CrewAct Unit TaskAct)) :=
  [.change (.join ()), .change (.act 0 .increment), .wait, .move 0 .enter, .move 0 .check,
    .change (.act 0 .finish), .change (.act 0 .decrement), .move 0 .sleep]

theorem wait_all_returns_endsBeforeSleep :
    ∃ pool, machine.run endsBeforeSleep = some pool ∧
      pool.waiters.map WaitPhase.work = [3] ∧ pool.ringing = 1 ∧ Returns pool := by
  have hend : (machine.run endsBeforeSleep).map (fun pool =>
      (pool.waiters.map WaitPhase.work, pool.ringing, pool.shared.workers)) =
        some ([3], 1, [.gone]) := by
    decide
  obtain ⟨pool, hrun, hpool⟩ := Option.map_eq_some_iff.mp hend
  obtain ⟨hasleep, hrest⟩ := Prod.mk.inj hpool
  obtain ⟨hringing, hgone⟩ := Prod.mk.inj hrest
  refine ⟨pool, hrun, hasleep, hringing, ((wait_all_returns endsBeforeSleep hrun).2 ?_).2⟩
  rw [hgone]
  intro stage hstage
  exact .inr (List.mem_singleton.mp hstage)

end WaitAll

end UltraNet
