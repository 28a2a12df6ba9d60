/-
A condition variable.  Threads wait under a lock for a condition on a value
that others change without the lock; whoever makes the condition true takes
the lock and notifies all who sleep.  A sleeper may also wake by itself, or
because its time is up.
-/
import UltraNet.SharedCount

namespace UltraNet

universe u v

/-- Where a call of `wait` is.  `late` says that its time is up: it looks once
more and returns. -/
inductive WaitPhase (S : Type u) where
  -- wants the lock
  | entering (late : Bool)
  -- holds the lock and is about to look
  | checking (late : Bool)
  -- holds the lock and has found the condition false
  | refused
  | asleep
  -- what it saw when it looked last
  | returned (late : Bool) (seen : S)
deriving DecidableEq

/-- `ringing` threads have made the condition true and want the lock;
`notifying` says that one of them holds it. -/
structure Monitor (S : Type u) where
  shared : S
  waiters : List (WaitPhase S)
  ringing : Nat
  notifying : Bool

/-- A step of a call of `wait`. -/
inductive WaiterStep where
  | enter
  | check
  -- the lock is given up in the same step
  | sleep
  | wake (late : Bool)
deriving DecidableEq

inductive MonitorEvent (A : Type v) where
  | change (action : A)
  | wait
  | move (waiter : Nat) (step : WaiterStep)
  | ring
  | notifyAll
deriving DecidableEq

namespace WaitPhase

variable {S : Type u}

def holdsLock : WaitPhase S → Bool
  | .checking _ => true
  | .refused => true
  | _ => false

/-- It will not look again by itself. -/
def waits : WaitPhase S → Bool
  | .refused => true
  | .asleep => true
  | _ => false

def notified : WaitPhase S → WaitPhase S
  | .asleep => .entering false
  | phase => phase

/-- The steps that are left once the condition stays true. -/
def work : WaitPhase S → Nat
  | .returned _ _ => 0
  | .checking _ => 1
  | .entering _ => 2
  | .asleep => 3
  | .refused => 4

end WaitPhase

/-- A step of those who wait or notify, but not a sleeper that wakes by itself. -/
def MonitorEvent.inner {A : Type v} : MonitorEvent A → Bool
  | .move _ (.wake _) => false
  | .move _ _ => true
  | .ring => true
  | .notifyAll => true
  | _ => false

namespace Monitor

variable {S : Type u} {A : Type v}

def free (s : Monitor S) : Bool :=
  !s.notifying && s.waiters.all fun phase => !phase.holdsLock

def setWaiter (s : Monitor S) (i : Nat) (phase : WaitPhase S) : Monitor S :=
  { s with waiters := s.waiters.set i phase }

section

variable (apply : S → A → Option S) (ready : S → Bool)

def advance (s : Monitor S) : WaitPhase S → WaiterStep → Option (WaitPhase S)
  | .entering late, .enter => if s.free then some (.checking late) else none
  | .checking late, .check =>
      some (if ready s.shared || late then .returned late s.shared else .refused)
  | .refused, .sleep => some .asleep
  | .asleep, .wake late => some (.entering late)
  | _, _ => none

def step (s : Monitor S) : MonitorEvent A → Option (Monitor S)
  | .change action =>
      (apply s.shared action).map fun shared =>
        { s with
          shared := shared
          ringing :=
            if !ready s.shared && ready shared then s.ringing + 1 else s.ringing }
  | .wait => some { s with waiters := s.waiters ++ [.entering false] }
  | .move i event =>
      s.waiters[i]?.bind fun phase => (s.advance ready phase event).map (s.setWaiter i)
  | .ring =>
      if 0 < s.ringing ∧ s.free then
        some { s with ringing := s.ringing - 1, notifying := true }
      else none
  | .notifyAll =>
      if s.notifying then
        some { s with waiters := s.waiters.map WaitPhase.notified, notifying := false }
      else none

def machine (start : S) : Machine (Monitor S) (MonitorEvent A) :=
  ⟨⟨start, [], 0, false⟩, step apply ready⟩

end

def work (s : Monitor S) : Nat :=
  (s.waiters.map WaitPhase.work).sum + 2 * s.ringing + s.notifying.toNat

/-- Nobody sleeps on a condition that holds without a notification to come,
and whoever returned in time saw it hold.  `I` is what all changes keep. -/
structure Attended (ready : S → Bool) (I : S → Prop) (s : Monitor S) : Prop where
  shared : I s.shared
  alone : s.notifying = true → ∀ phase ∈ s.waiters, phase.holdsLock = false
  attended : ready s.shared = true → (∃ phase ∈ s.waiters, phase.waits = true) →
    0 < s.ringing ∨ s.notifying = true
  saw : ∀ late seen, .returned late seen ∈ s.waiters →
    I seen ∧ (late = false → ready seen = true)

variable {apply : S → A → Option S} {ready : S → Bool} {I : S → Prop} {s t : Monitor S}

theorem free_iff : s.free = true ↔
    s.notifying = false ∧ ∀ phase ∈ s.waiters, phase.holdsLock = false := by
  simp [free]

/-- One waiter moves on. -/
theorem Attended.move (hs : s.Attended ready I) {i : Nat} {phase : WaitPhase S}
    (hlock : phase.holdsLock = true → s.notifying = false)
    (hwaits : phase.waits = true → ready s.shared = true →
      ∃ other ∈ s.waiters, other.waits = true)
    (hsaw : ∀ late seen, phase = .returned late seen →
      I seen ∧ (late = false → ready seen = true)) :
    (s.setWaiter i phase).Attended ready I := by
  refine ⟨hs.shared, ?_, ?_, ?_⟩
  · intro hnotifying other hother
    obtain hold | rfl := List.mem_or_eq_of_mem_set hother
    · exact hs.alone hnotifying other hold
    · by_contra hholds
      have hnone := hlock ((Bool.not_eq_false _).mp hholds)
      rw [show s.notifying = true from hnotifying] at hnone
      cases hnone
  · rintro hready ⟨other, hother, hwaiting⟩
    apply hs.attended hready
    obtain hold | rfl := List.mem_or_eq_of_mem_set hother
    · exact ⟨other, hold, hwaiting⟩
    · exact hwaits hwaiting hready
  · intro late seen hseen
    obtain hold | hnew := List.mem_or_eq_of_mem_set hseen
    · exact hs.saw late seen hold
    · exact hsaw late seen hnew.symm

theorem Attended.change (hs : s.Attended ready I)
    (hkeep : ∀ shared action next, I shared → apply shared action = some next → I next)
    {action : A} (hstep : s.step apply ready (.change action) = some t) :
    t.Attended ready I := by
  obtain ⟨shared, happly, rfl⟩ := Option.map_eq_some_iff.mp hstep
  refine ⟨hkeep _ _ _ hs.shared happly, hs.alone, ?_, hs.saw⟩
  intro hready hwaiting
  by_cases hbefore : ready s.shared = true
  · obtain hringing | hnotifying := hs.attended hbefore hwaiting
    · left
      show 0 < if _ then s.ringing + 1 else s.ringing
      split
      · exact Nat.succ_pos _
      · exact hringing
    · exact .inr hnotifying
  · left
    have hturned : (!ready s.shared && ready shared) = true := by
      rw [(Bool.not_eq_true _).mp hbefore, show ready shared = true from hready]
      rfl
    show 0 < if _ then s.ringing + 1 else s.ringing
    rw [if_pos hturned]
    exact Nat.succ_pos _

theorem Attended.advance (hs : s.Attended ready I) {i : Nat} {event : WaiterStep}
    {phase next : WaitPhase S} (hphase : s.waiters[i]? = some phase)
    (hnext : s.advance ready phase event = some next) : (s.setWaiter i next).Attended ready I := by
  have hmem := List.mem_of_getElem? hphase
  unfold Monitor.advance at hnext
  split at hnext
  · obtain ⟨hfree, hsome⟩ := Option.ite_none_right_eq_some.mp hnext
    obtain rfl := Option.some.inj hsome
    exact hs.move (fun _ => (free_iff.mp hfree).1) nofun nofun
  · obtain rfl := Option.some.inj hnext
    split
    · rename_i hreturns
      refine hs.move nofun nofun fun late' seen hreturned => ?_
      cases hreturned
      refine ⟨hs.shared, fun hearly => ?_⟩
      rwa [hearly, Bool.or_false] at hreturns
    · rename_i hrefused
      refine hs.move (fun _ => ?_) (fun _ hready => ?_) nofun
      · by_contra hnotifying
        have hlock := hs.alone ((Bool.not_eq_false _).mp hnotifying) _ hmem
        cases hlock
      · rw [hready, Bool.true_or] at hrefused
        exact absurd rfl hrefused
  · obtain rfl := Option.some.inj hnext
    exact hs.move nofun (fun _ _ => ⟨_, hmem, rfl⟩) nofun
  · obtain rfl := Option.some.inj hnext
    exact hs.move nofun nofun nofun
  · cases hnext

theorem Attended.notifyAll (hs : s.Attended ready I) (hnotifying : s.notifying = true) :
    Attended ready I
      { s with waiters := s.waiters.map WaitPhase.notified, notifying := false } := by
  refine ⟨hs.shared, nofun, ?_, ?_⟩
  · rintro - ⟨phase, hphase, hwaiting⟩
    obtain ⟨old, hold, rfl⟩ := List.mem_map.mp hphase
    have hlock := hs.alone hnotifying old hold
    cases old with
    | refused => cases hlock
    | entering | checking | asleep | returned => cases hwaiting
  · intro late seen hseen
    obtain ⟨old, hold, hnotified⟩ := List.mem_map.mp hseen
    cases old with
    | returned late' seen' =>
        cases hnotified
        exact hs.saw late seen hold
    | entering | checking | refused | asleep => cases hnotified

theorem Attended.step (hs : s.Attended ready I)
    (hkeep : ∀ shared action next, I shared → apply shared action = some next → I next)
    {event : MonitorEvent A} (hstep : s.step apply ready event = some t) :
    t.Attended ready I := by
  cases event with
  | change action => exact hs.change hkeep hstep
  | wait =>
      obtain rfl := Option.some.inj hstep
      refine ⟨hs.shared, ?_, ?_, ?_⟩
      · intro hnotifying phase hphase
        obtain hold | hnew := List.mem_append.mp hphase
        · exact hs.alone hnotifying phase hold
        · rw [List.mem_singleton.mp hnew]
          rfl
      · rintro hready ⟨phase, hphase, hwaiting⟩
        obtain hold | hnew := List.mem_append.mp hphase
        · exact hs.attended hready ⟨phase, hold, hwaiting⟩
        · rw [List.mem_singleton.mp hnew] at hwaiting
          cases hwaiting
      · intro late seen hseen
        obtain hold | hnew := List.mem_append.mp hseen
        · exact hs.saw late seen hold
        · cases List.mem_singleton.mp hnew
  | move i event =>
      obtain ⟨phase, hphase, hmap⟩ := Option.bind_eq_some_iff.mp hstep
      obtain ⟨next, hnext, rfl⟩ := Option.map_eq_some_iff.mp hmap
      exact hs.advance hphase hnext
  | ring =>
      obtain ⟨⟨-, hfree⟩, hnext⟩ := Option.ite_none_right_eq_some.mp hstep
      obtain rfl := Option.some.inj hnext
      exact ⟨hs.shared, fun _ => (free_iff.mp hfree).2, fun _ _ => .inr rfl, hs.saw⟩
  | notifyAll =>
      obtain ⟨hnotifying, hnext⟩ := Option.ite_none_right_eq_some.mp hstep
      obtain rfl := Option.some.inj hnext
      exact hs.notifyAll hnotifying

theorem run_attended {start : S} (hstart : I start)
    (hkeep : ∀ shared action next, I shared → apply shared action = some next → I next)
    (word : List (MonitorEvent A)) (hrun : (machine apply ready start).run word = some s) :
    s.Attended ready I :=
  (machine apply ready start).run_preserves
    (I := Attended ready I)
    ⟨hstart, nofun, fun _ ⟨_, hphase, _⟩ => absurd hphase List.not_mem_nil, nofun⟩
    (fun _ _ _ hs hstep => hs.step hkeep hstep) word hrun

/-! While the condition holds. -/

theorem work_setWaiter {i : Nat} {old : WaitPhase S} (hold : s.waiters[i]? = some old)
    (new : WaitPhase S) : (s.setWaiter i new).work + old.work = s.work + new.work := by
  have hsum := SharedCount.sum_set WaitPhase.work hold new
  simp only [work, setWaiter]
  omega

theorem work_notified (waiters : List (WaitPhase S)) :
    ((waiters.map WaitPhase.notified).map WaitPhase.work).sum ≤
      (waiters.map WaitPhase.work).sum := by
  rw [List.map_map]
  refine List.sum_le_sum fun phase _ => ?_
  cases phase with
  | asleep => exact Nat.le_succ 2
  | entering | checking | refused | returned => exact Nat.le_refl _

theorem work_advance (hready : ready s.shared = true) {i : Nat} {event : WaiterStep}
    (hinner : (MonitorEvent.move (A := A) i event).inner = true) {phase next : WaitPhase S}
    (hnext : s.advance ready phase event = some next) : next.work < phase.work := by
  unfold Monitor.advance at hnext
  split at hnext
  · obtain ⟨-, hsome⟩ := Option.ite_none_right_eq_some.mp hnext
    obtain rfl := Option.some.inj hsome
    exact Nat.lt_succ_self 1
  · rw [hready, Bool.true_or, if_pos rfl] at hnext
    obtain rfl := Option.some.inj hnext
    exact Nat.lt_succ_self 0
  · obtain rfl := Option.some.inj hnext
    exact Nat.lt_succ_self 3
  · cases hinner
  · cases hnext

/-- Each step of those who wait or notify brings the end nearer. -/
theorem work_step (hready : ready s.shared = true) {event : MonitorEvent A}
    (hinner : event.inner = true) (hstep : s.step apply ready event = some t) :
    t.shared = s.shared ∧ t.work < s.work := by
  cases event with
  | change | wait => cases hinner
  | move i event =>
      obtain ⟨phase, hphase, hmap⟩ := Option.bind_eq_some_iff.mp hstep
      obtain ⟨next, hnext, rfl⟩ := Option.map_eq_some_iff.mp hmap
      have hwork := work_setWaiter hphase next
      have hless := work_advance hready hinner hnext
      exact ⟨rfl, by omega⟩
  | ring =>
      obtain ⟨⟨hringing, hfree⟩, hnext⟩ := Option.ite_none_right_eq_some.mp hstep
      obtain rfl := Option.some.inj hnext
      refine ⟨rfl, ?_⟩
      simp only [work, (free_iff.mp hfree).1, Bool.toNat_true, Bool.toNat_false]
      omega
  | notifyAll =>
      obtain ⟨hnotifying, hnext⟩ := Option.ite_none_right_eq_some.mp hstep
      obtain rfl := Option.some.inj hnext
      have hle := work_notified s.waiters
      refine ⟨rfl, ?_⟩
      simp only [work, hnotifying, Bool.toNat_true, Bool.toNat_false]
      omega

/-- If nobody can take a step, everybody has returned. -/
theorem Attended.all_returned (hs : s.Attended ready I) (hready : ready s.shared = true)
    (hstuck : ∀ event, event.inner = true → s.step apply ready event = none) :
    ∀ phase ∈ s.waiters, ∃ late seen, phase = .returned late seen := by
  have hnotifying : s.notifying = false := by
    by_contra hnotifying
    have hnone := hstuck .notifyAll rfl
    rw [Monitor.step, if_pos ((Bool.not_eq_false _).mp hnotifying)] at hnone
    cases hnone
  -- nobody can go on but a sleeper that wakes by itself
  have hmoves : ∀ phase ∈ s.waiters, ∀ event next, s.advance ready phase event = some next →
      ∃ late, event = .wake late := by
    intro phase hphase event next hnext
    obtain ⟨i, hi⟩ := List.getElem?_of_mem hphase
    have hgoes : s.step apply ready (.move i event) = some (s.setWaiter i next) := by
      simp only [Monitor.step, hi, Option.bind_some, hnext, Option.map_some]
    cases event with
    | wake late => exact ⟨late, rfl⟩
    | enter | check | sleep =>
        rw [hstuck _ rfl] at hgoes
        cases hgoes
  have hlock : ∀ phase ∈ s.waiters, phase.holdsLock = false := by
    intro phase hphase
    cases phase with
    | checking late =>
        obtain ⟨late, hwake⟩ := hmoves _ hphase .check _ rfl
        cases hwake
    | refused =>
        obtain ⟨late, hwake⟩ := hmoves _ hphase .sleep _ rfl
        cases hwake
    | entering | asleep | returned => rfl
  have hfree : s.free = true := free_iff.mpr ⟨hnotifying, hlock⟩
  have hringing : s.ringing = 0 := by
    by_contra hpositive
    have hnone := hstuck .ring rfl
    rw [Monitor.step, if_pos ⟨Nat.pos_of_ne_zero hpositive, hfree⟩] at hnone
    cases hnone
  intro phase hphase
  cases phase with
  | returned late seen => exact ⟨late, seen, rfl⟩
  | entering late =>
      obtain ⟨late, hwake⟩ := hmoves _ hphase .enter _ (if_pos hfree)
      cases hwake
  | checking | refused => cases hlock _ hphase
  | asleep =>
      obtain hpositive | hnotifies := hs.attended hready ⟨_, hphase, rfl⟩
      · rw [hringing] at hpositive
        exact absurd hpositive (Nat.lt_irrefl 0)
      · rw [hnotifying] at hnotifies
        cases hnotifies

/-- Once the condition holds and nobody changes the value any more, whatever
the order of the other steps there are at most `work` of them, and where no
more can be taken everybody has returned. -/
theorem Attended.settles {start : S} (hs : s.Attended ready I) (hready : ready s.shared = true)
    (hkeep : ∀ shared action next, I shared → apply shared action = some next → I next)
    (word : List (MonitorEvent A)) (hword : ∀ event ∈ word, event.inner = true)
    (hrun : (machine apply ready start).runFrom s word = some t) :
    word.length + t.work ≤ s.work ∧
      ((∀ event, event.inner = true → t.step apply ready event = none) →
        ∀ phase ∈ t.waiters, ∃ late seen, phase = .returned late seen) := by
  induction word generalizing s with
  | nil =>
      obtain rfl := Option.some.inj hrun
      rw [List.length_nil, Nat.zero_add]
      exact ⟨Nat.le_refl _, hs.all_returned hready⟩
  | cons event rest ih =>
      simp only [Machine.runFrom] at hrun
      cases hstep : (machine apply ready start).step s event with
      | none => simp [hstep] at hrun
      | some next =>
          simp only [hstep] at hrun
          obtain ⟨hshared, hless⟩ := work_step hready (hword event List.mem_cons_self) hstep
          obtain ⟨hlength, hreturned⟩ := ih (hs.step hkeep hstep) (by rw [hshared, hready])
            (fun other hother => hword other (List.mem_cons_of_mem event hother)) hrun
          rw [List.length_cons]
          exact ⟨by omega, hreturned⟩

end Monitor

end UltraNet
