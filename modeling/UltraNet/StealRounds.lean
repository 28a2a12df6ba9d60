/-
A thief that is in a call on a deque is a worker in its loop over the victims, and that
deque is the one of the victim that its loop has come to.  So no deque is being stolen
from when the workers are gone.
-/
import UltraNet.PoolSteps

namespace UltraNet

namespace PoolWorker

variable {T : Type} {heap : ArrayHeap} {capacity : MpscCapacity} {num : Nat} {stop : Bool}
  {s next : PoolWorker T}

/-- A worker with a victim before it takes no other step. -/
theorem step_stealing {action : WorkerAction T} {hadWork : Bool} {start i : Nat}
    (hphase : s.phase = .stealing hadWork start i) (hmore : i ≠ num)
    (hstep : s.step heap capacity num stop action = some next) : next.phase = s.phase := by
  cases action with
  | giveUp =>
      simp only [step, hphase, if_neg hmore, reduceCtorEq] at hstep
  | call first =>
      simp only [step, hphase, WorkerPhase.working, Bool.false_eq_true, if_false,
        reduceCtorEq] at hstep
  | kernelRead =>
      obtain ⟨-, ⟨⟩⟩ := Option.ite_none_right_eq_some.mp hstep
      rfl
  | kernelError =>
      obtain ⟨-, ⟨⟩⟩ := Option.ite_none_right_eq_some.mp hstep
      rfl
  | complete =>
      obtain rfl := Option.some.inj hstep
      rfl
  | overflow =>
      obtain rfl := Option.some.inj hstep
      rfl
  | _ => simp only [step, hphase, reduceCtorEq] at hstep

/-- The worker itself leaves the thieves at its deque alone. -/
theorem step_thieves {action : WorkerAction T}
    (hstep : s.step heap capacity num stop action = some next) :
    next.deque.thieves = s.deque.thieves := by
  have hworks := (step_works hstep).deque
  cases action with
  | push task => exact (Deque.call_begun (.inl ⟨task, rfl⟩) hworks).2.1
  | pop => exact (Deque.call_begun (.inr rfl) hworks).2.1
  | call start => exact (Deque.owner_turned hworks).thieves
  | _ => rw [Option.some.inj hworks]

end PoolWorker

namespace ThreadPool

variable {T : Type} {heap : ArrayHeap} {capacity : MpscCapacity} {num w thief : Nat}
  {s next : ThreadPool T} {worker worker' : PoolWorker T}

/-- The thread is about to steal from this worker. -/
def StealsFrom (s : ThreadPool T) (thief w : Nat) : Prop :=
  thief ≠ w ∧ ∃ r : s.Round thief, r.victim = w

theorem StealsFrom.keep (hsteals : s.StealsFrom thief w)
    (hlength : next.workers.length = s.workers.length)
    (hphase : ∀ worker, s.workers[thief]? = some worker → ∀ hadWork start i,
      worker.phase = .stealing hadWork start i → i ≠ s.workers.length →
      ∃ worker', next.workers[thief]? = some worker' ∧ worker'.phase = worker.phase) :
    next.StealsFrom thief w := by
  obtain ⟨hne, r, hvictim⟩ := hsteals
  obtain ⟨worker', hfound, hsame⟩ := hphase r.worker r.found _ _ _ r.phase r.more
  have hmore : r.i ≠ next.workers.length := by
    rw [hlength]
    exact r.more
  refine ⟨hne, ⟨worker', r.hadWork, r.start, r.i, hfound, hsame.trans r.phase, hmore⟩, ?_⟩
  rw [Round.victim, victim, hlength]
  exact hvictim

/-- The victim of a thread is the one that its phase tells. -/
theorem StealsFrom.eq (hsteals : s.StealsFrom thief w) (r : s.Round thief) : r.victim = w := by
  obtain ⟨-, other, rfl⟩ := hsteals
  have hworker : r.worker = other.worker := Option.some.inj (r.found.symm.trans other.found)
  have hphase := r.phase.symm.trans (hworker ▸ other.phase)
  simp only [WorkerPhase.stealing.injEq] at hphase
  rw [Round.victim, Round.victim, hphase.2.1, hphase.2.2]

/-- Whoever is in a call of `steal` on the deque of a worker is stealing from it. -/
def ThievesKnown (s : ThreadPool T) : Prop :=
  ∀ (w : Nat) (worker : PoolWorker T), s.workers[w]? = some worker →
    ∀ (thief : Nat) (phase : Thief), worker.deque.thieves[thief]? = some phase →
      phase ≠ .idle → s.StealsFrom thief w

theorem init_thievesKnown (num : Nat) : (init num : ThreadPool T).ThievesKnown := by
  intro w worker hworker thief phase hthief hbusy
  rw [init, List.getElem?_replicate] at hworker
  obtain ⟨-, ⟨⟩⟩ := Option.ite_none_right_eq_some.mp hworker
  simp only [PoolWorker.fresh, Deque.init, List.getElem?_replicate] at hthief
  obtain ⟨-, hidle⟩ := Option.ite_none_right_eq_some.mp hthief
  exact absurd (Option.some.inj hidle).symm hbusy

theorem length_of_cores (hcores : next.cores = s.cores) :
    next.workers.length = s.workers.length := by
  have := congrArg List.length hcores
  rwa [cores, cores, List.length_map, List.length_map] at this

theorem ThievesKnown.aside {action : PoolAction T} (hs : s.ThievesKnown)
    (haside : aside action = true) (hstep : s.step heap capacity action = some next) :
    next.ThievesKnown := by
  intro w worker' hworker' thief phase hthief hbusy
  have hcores := aside_cores haside hstep
  obtain ⟨worker, hworker, hcore⟩ := core_aside haside hstep hworker'
  have hdeque : worker'.deque = worker.deque := (Prod.mk.inj (Prod.mk.inj hcore).2).1
  rw [hdeque] at hthief
  apply (hs w worker hworker thief phase hthief hbusy).keep (length_of_cores hcores)
  intro other hother _ _ _ _ _
  have hsame : next.cores[thief]? = some other.core := by
    rw [hcores, cores, List.getElem?_map, hother, Option.map_some]
  rw [cores, List.getElem?_map] at hsame
  obtain ⟨other', hother', hcore'⟩ := Option.map_eq_some_iff.mp hsame
  exact ⟨other', hother', (Prod.mk.inj hcore').1⟩

theorem ThievesKnown.own {action : WorkerAction T} (hs : s.ThievesKnown)
    (hstep : s.step heap capacity (.worker w action) = some next) : next.ThievesKnown := by
  obtain ⟨worker, hworker, hrest⟩ := Option.bind_eq_some_iff.mp hstep
  obtain ⟨worker', hworker', ⟨⟩⟩ := Option.bind_eq_some_iff.mp hrest
  have hlt := (List.getElem?_eq_some_iff.mp hworker).1
  intro v found hfound thief phase hthief hbusy
  have hold : s.StealsFrom thief v := by
    by_cases hsame : w = v
    · subst hsame
      rw [setWorker, List.getElem?_set_self hlt] at hfound
      obtain rfl := Option.some.inj hfound
      rw [PoolWorker.step_thieves hworker'] at hthief
      exact hs w worker hworker thief phase hthief hbusy
    · rw [setWorker, List.getElem?_set_ne hsame] at hfound
      exact hs v found hfound thief phase hthief hbusy
  apply hold.keep (List.length_set ..)
  intro other hother hadWork start i hphase hmore
  by_cases hself : w = thief
  · subst hself
    obtain rfl := Option.some.inj (hworker.symm.trans hother)
    exact ⟨worker', List.getElem?_set_self hlt,
      PoolWorker.step_stealing hphase hmore hworker'⟩
  · exact ⟨other, (List.getElem?_set_ne hself).trans hother, rfl⟩

/-- The other threads are where they were, whatever a thief does. -/
theorem StealsFrom.robbed {other : Nat} {r : s.Round thief} (a : r.Attempt heap)
    (hsteals : s.StealsFrom other w) : a.robbed.StealsFrom other w := by
  apply hsteals.keep (List.length_set ..)
  intro found hfound _ _ _ _ _
  by_cases hsame : r.victim = other
  · subst hsame
    obtain rfl := Option.some.inj (a.found.symm.trans hfound)
    exact ⟨_, List.getElem?_set_self (List.getElem?_eq_some_iff.mp a.found).1, rfl⟩
  · exact ⟨found, (List.getElem?_set_ne hsame).trans hfound, rfl⟩

theorem StealsFrom.others {other : Nat} (hsteals : s.StealsFrom other w) (hne : other ≠ thief) :
    (s.setWorker thief worker).StealsFrom other w := by
  apply hsteals.keep (List.length_set ..)
  intro found hfound _ _ _ _ _
  exact ⟨found, (List.getElem?_set_ne (Ne.symm hne)).trans hfound, rfl⟩

/-- The thief takes a step on the deque of its victim. -/
theorem ThievesKnown.robbed {r : s.Round thief} (a : r.Attempt heap) (hs : s.ThievesKnown) :
    a.robbed.ThievesKnown := by
  intro w worker' hworker' other phase hthief hbusy
  have hold : s.StealsFrom other w := by
    by_cases hsame : r.victim = w
    · subst hsame
      by_cases hself : other = thief
      · rw [hself]
        exact ⟨Ne.symm a.apart, r, rfl⟩
      · rw [Round.Attempt.robbed, setWorker,
          List.getElem?_set_self (List.getElem?_eq_some_iff.mp a.found).1] at hworker'
        obtain rfl := Option.some.inj hworker'
        obtain ⟨-, moved, hthieves, -⟩ := Deque.thief_returned a.step
        simp only [hthieves, List.getElem?_set_ne (Ne.symm hself)] at hthief
        exact hs _ a.other a.found other phase hthief hbusy
    · rw [Round.Attempt.robbed, setWorker, List.getElem?_set_ne hsame] at hworker'
      exact hs w worker' hworker' other phase hthief hbusy
  exact hold.robbed a

/-- The thief goes on, with no call under way. -/
theorem ThievesKnown.leave (r : s.Round thief) {after : PoolWorker T} (hs : s.ThievesKnown)
    (hdeque : after.deque = r.worker.deque)
    (hidle : ∀ worker, s.workers[r.victim]? = some worker → r.victim ≠ thief →
      ∀ phase, worker.deque.thieves[thief]? = some phase → phase = .idle) :
    (s.setWorker thief after).ThievesKnown := by
  intro w worker' hworker' other phase hthief hbusy
  obtain ⟨worker, hworker, hsame⟩ : ∃ worker, s.workers[w]? = some worker ∧
      worker'.deque = worker.deque := by
    by_cases hself : thief = w
    · subst hself
      rw [setWorker, List.getElem?_set_self (List.getElem?_eq_some_iff.mp r.found).1]
        at hworker'
      obtain rfl := Option.some.inj hworker'
      exact ⟨r.worker, r.found, hdeque⟩
    · rw [setWorker, List.getElem?_set_ne hself] at hworker'
      exact ⟨worker', hworker', rfl⟩
  rw [hsame] at hthief
  have hold := hs w worker hworker other phase hthief hbusy
  apply hold.others
  rintro rfl
  -- its phase told where it was, and there it has come to the end
  have hvictim := hold.eq r
  subst hvictim
  exact hbusy (hidle worker hworker (Ne.symm hold.1) phase hthief)

theorem ThievesKnown.steal (hs : s.ThievesKnown)
    (hstep : s.step heap capacity (.steal thief) = some next) : next.ThievesKnown := by
  obtain ⟨r, hends⟩ := steal_round hstep
  have hleave : ∀ (a : r.Attempt heap) (after : PoolWorker T), a.result.isSome →
      after.deque = r.worker.deque → (a.robbed.setWorker thief after).ThievesKnown := by
    intro a after hresult hdeque
    have hlength : a.robbed.workers.length = s.workers.length := List.length_set ..
    have hmore : r.i ≠ a.robbed.workers.length := by
      rw [hlength]
      exact r.more
    let r' : a.robbed.Round thief :=
      ⟨r.worker, r.hadWork, r.start, r.i, a.still, r.phase, hmore⟩
    have hvictim : r'.victim = r.victim := by
      rw [Round.victim, Round.victim, victim, victim, hlength]
    refine (hs.robbed a).leave r' hdeque ?_
    intro worker hworker _ phase hthief
    rw [hvictim, Round.Attempt.robbed, setWorker,
      List.getElem?_set_self (List.getElem?_eq_some_iff.mp a.found).1] at hworker
    obtain rfl := Option.some.inj hworker
    obtain ⟨-, moved, hthieves, hdone⟩ := Deque.thief_returned a.step
    obtain rfl := hdone hresult
    simp only [hthieves] at hthief
    have hlt := (List.getElem?_eq_some_iff.mp hthief).1
    rw [List.length_set] at hlt
    rw [List.getElem?_set_self hlt] at hthief
    exact (Option.some.inj hthief).symm
  cases hends with
  | own hown => exact hs.leave r rfl fun _ _ hapart => absurd hown hapart
  | goesOn a hresult => exact hs.robbed a
  | fails a hresult => exact hleave a r.passed (by rw [hresult]; rfl) rfl
  | takes a task hresult => exact hleave a (r.started task) (by rw [hresult]; rfl) rfl

theorem run_thievesKnown {word : List (PoolAction T)} {last : ThreadPool T}
    (hrun : (machine T heap capacity num).run word = some last) : last.ThievesKnown := by
  apply (machine T heap capacity num).run_preserves (init_thievesKnown num) _ word hrun
  intro state action next hstate hstep
  replace hstep : state.step heap capacity action = some next := hstep
  cases haside : aside action with
  | true => exact hstate.aside haside hstep
  | false =>
      cases action with
      | worker w action => exact hstate.own hstep
      | steal thief => exact hstate.steal hstep
      | _ => cases haside

end ThreadPool

end UltraNet
