/-
A counter that any number of workers share: each step of a worker changes the
counter and the worker.  Where every step changes the counter as it changes the
worker's own weight, the counter is the sum of the weights in every run.
-/
import UltraNet.GuardedRun
import Mathlib.Algebra.BigOperators.Group.List.Basic
import Mathlib.Algebra.GroupWithZero.Nat
import Mathlib.Algebra.Order.BigOperators.Group.List
import Mathlib.Algebra.Order.Group.Nat

namespace UltraNet

universe u v w

structure SharedCount (W : Type u) where
  count : Int
  workers : List W

/-- A worker joins, or one of them takes a step. -/
inductive CrewAct (B : Type v) (A : Type w) where
  | join (b : B)
  | act (i : Nat) (a : A)

namespace SharedCount

variable {W : Type u} {B : Type v} {A : Type w}

def join (c : SharedCount W) (worker : W) : SharedCount W :=
  { c with workers := c.workers ++ [worker] }

/-- The worker has taken a step that changes the counter. -/
def settle (c : SharedCount W) (i : Nat) (change : Int) (worker : W) : SharedCount W :=
  ⟨c.count + change, c.workers.set i worker⟩

def step (fresh : B → W) (work : W → A → Option (Int × W)) (c : SharedCount W) :
    CrewAct B A → Option (SharedCount W)
  | .join b => some (c.join (fresh b))
  | .act i a => do
      let worker ← c.workers[i]?
      let (change, worker) ← work worker a
      some (c.settle i change worker)

def machine (fresh : B → W) (work : W → A → Option (Int × W)) :
    Machine (SharedCount W) (CrewAct B A) :=
  ⟨⟨0, []⟩, step fresh work⟩

/-- The counter is the sum of the weights of good workers. -/
structure Accounted (Good : W → Prop) (weight : W → Nat) (c : SharedCount W) : Prop where
  good : ∀ worker ∈ c.workers, Good worker
  count : c.count = ((c.workers.map weight).sum : Nat)

variable {Good : W → Prop} {weight : W → Nat} {c c' : SharedCount W}

theorem sum_set (weight : W → Nat) {workers : List W} {i : Nat} {worker : W}
    (hworker : workers[i]? = some worker) (next : W) :
    ((workers.set i next).map weight).sum + weight worker =
      (workers.map weight).sum + weight next := by
  induction workers generalizing i with
  | nil => simp at hworker
  | cons first rest ih =>
      cases i with
      | zero =>
          obtain rfl : first = worker := by simpa using hworker
          simp only [List.set_cons_zero, List.map_cons, List.sum_cons]
          omega
      | succ i =>
          have hrest := ih (i := i) (by simpa using hworker)
          simp only [List.set_cons_succ, List.map_cons, List.sum_cons]
          omega

theorem Accounted.join (hc : c.Accounted Good weight) {worker : W} (hgood : Good worker)
    (hweight : weight worker = 0) : (c.join worker).Accounted Good weight where
  good other hother := by
    rcases List.mem_append.mp hother with hold | hnew
    · exact hc.good other hold
    · obtain rfl := List.mem_singleton.mp hnew
      exact hgood
  count := by
    simp only [SharedCount.join, List.map_append, List.sum_append, List.map_cons,
      List.map_nil, List.sum_cons, List.sum_nil, hweight]
    exact hc.count

theorem Accounted.settle (hc : c.Accounted Good weight) {i : Nat} {worker next : W}
    (hworker : c.workers[i]? = some worker) (hgood : Good next) {change : Int}
    (hchange : (weight next : Int) = weight worker + change) :
    (c.settle i change next).Accounted Good weight where
  good other hother := by
    rcases List.mem_or_eq_of_mem_set hother with hold | rfl
    · exact hc.good other hold
    · exact hgood
  count := by
    have hsum := sum_set weight hworker next
    have hcount := hc.count
    simp only [SharedCount.settle]
    omega

/-- Only the counter and the worker that moves change. -/
theorem step_act (fresh : B → W) {work : W → A → Option (Int × W)} {i : Nat} {a : A}
    (hstep : step fresh work c (.act i a) = some c') :
    ∃ worker change next, c.workers[i]? = some worker ∧
      work worker a = some (change, next) ∧ c' = c.settle i change next := by
  obtain ⟨worker, hworker, hwork⟩ := Option.bind_eq_some_iff.mp hstep
  obtain ⟨⟨change, next⟩, hnext, hsettle⟩ := Option.bind_eq_some_iff.mp hwork
  exact ⟨worker, change, next, hworker, hnext, (Option.some.inj hsettle).symm⟩

/-- What every step of a worker keeps holds of every worker in a run. -/
theorem run_good (Good : W → Prop) {fresh : B → W} {work : W → A → Option (Int × W)}
    (hfresh : ∀ b, Good (fresh b))
    (hwork : ∀ worker a change next, Good worker → work worker a = some (change, next) →
      Good next)
    (word : List (CrewAct B A)) (hrun : (machine fresh work).run word = some c) :
    ∀ worker ∈ c.workers, Good worker := by
  refine (machine fresh work).run_preserves
    (I := fun c => ∀ worker ∈ c.workers, Good worker) nofun ?_ word hrun
  intro c act c' hc hstep
  cases act with
  | join b =>
      obtain rfl := Option.some.inj hstep
      intro worker hmem
      rcases List.mem_append.mp hmem with hold | hnew
      · exact hc worker hold
      · obtain rfl := List.mem_singleton.mp hnew
        exact hfresh b
  | act i a =>
      obtain ⟨worker, change, next, hworker, hnext, rfl⟩ := step_act fresh hstep
      have hgood := hwork worker a change next (hc worker (List.mem_of_getElem? hworker)) hnext
      intro other hmem
      rcases List.mem_or_eq_of_mem_set hmem with hold | rfl
      · exact hc other hold
      · exact hgood

theorem run_accounted {fresh : B → W} {work : W → A → Option (Int × W)}
    (hfresh : ∀ b, Good (fresh b) ∧ weight (fresh b) = 0)
    (hwork : ∀ worker a change next, Good worker → work worker a = some (change, next) →
      Good next ∧ (weight next : Int) = weight worker + change)
    (word : List (CrewAct B A)) (hrun : (machine fresh work).run word = some c) :
    c.Accounted Good weight := by
  refine (machine fresh work).run_preserves ?_ ?_ word hrun
  · exact ⟨nofun, rfl⟩
  · intro c act c' hc hstep
    cases act with
    | join b =>
        obtain rfl := Option.some.inj hstep
        exact hc.join (hfresh b).1 (hfresh b).2
    | act i a =>
        obtain ⟨worker, change, next, hworker, hnext, rfl⟩ := step_act fresh hstep
        have hmem := List.mem_of_getElem? hworker
        obtain ⟨hgood, hchange⟩ := hwork worker a change next (hc.good worker hmem) hnext
        exact hc.settle hworker hgood hchange

/-- The counter is not below zero, and not above the number of the workers if none
weighs more than one. -/
theorem Accounted.bounds (hc : c.Accounted Good weight)
    (hweight : ∀ worker ∈ c.workers, weight worker ≤ 1) :
    0 ≤ c.count ∧ c.count ≤ c.workers.length := by
  have hsum : (c.workers.map weight).sum ≤ c.workers.length := by
    have hcard := List.sum_le_card_nsmul (c.workers.map weight) 1 ?_
    · simpa using hcard
    · intro n hn
      obtain ⟨worker, hmem, rfl⟩ := List.mem_map.mp hn
      exact hweight worker hmem
  rw [hc.count]
  exact ⟨Int.natCast_nonneg _, Int.ofNat_le.mpr hsum⟩

theorem Accounted.count_eq_zero (hc : c.Accounted Good weight)
    (hidle : ∀ worker ∈ c.workers, weight worker = 0) : c.count = 0 := by
  have hsum : (c.workers.map weight).sum = 0 := by
    refine List.sum_eq_zero ?_
    intro n hn
    obtain ⟨worker, hmem, rfl⟩ := List.mem_map.mp hn
    exact hidle worker hmem
  rw [hc.count, hsum]
  rfl

end SharedCount

end UltraNet
