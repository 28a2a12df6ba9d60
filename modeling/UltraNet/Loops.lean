/-
Loops that may run forever.  A loop is a step that goes on or breaks off; when
all that decides on going on is one value of finite range, the loop ends just
when that value never comes back.
-/
import Mathlib.Data.Fintype.EquivFin

namespace UltraNet

universe u v w

namespace Loop

section Runs

variable {S : Type u} {R : Type v}

/-- The result of a loop that breaks off within `fuel` rounds. -/
def run (step : S → S ⊕ R) : Nat → S → Option R
  | 0, _ => none
  | fuel + 1, state =>
      match step state with
      | .inl next => run step fuel next
      | .inr result => some result

/-- The loop breaks off with this result. -/
def Returns (step : S → S ⊕ R) (state : S) (result : R) : Prop :=
  ∃ fuel, run step fuel state = some result

variable {step : S → S ⊕ R} {state next : S} {result : R}

theorem run_add {fuel : Nat} (hrun : run step fuel state = some result) (more : Nat) :
    run step (fuel + more) state = some result := by
  induction fuel generalizing state with
  | zero => cases hrun
  | succ fuel ih =>
      rw [Nat.succ_add]
      unfold run at hrun ⊢
      cases hstep : step state with
      | inl next =>
          rw [hstep] at hrun
          exact ih hrun
      | inr last =>
          rw [hstep] at hrun
          exact hrun

theorem returns_next (hstep : step state = .inl next) :
    Returns step state result ↔ Returns step next result := by
  refine ⟨?_, ?_⟩
  · rintro ⟨fuel, hrun⟩
    cases fuel with
    | zero => cases hrun
    | succ fuel =>
        rw [run, hstep] at hrun
        exact ⟨fuel, hrun⟩
  · rintro ⟨fuel, hrun⟩
    exact ⟨fuel + 1, by rw [run, hstep]; exact hrun⟩

theorem returns_last (hstep : step state = .inr result) : Returns step state result :=
  ⟨1, by rw [run, hstep]⟩

end Runs

section Orbits

variable {K : Type w}

/-- The value after `n` steps, if it gets there. -/
def follow (next : K → Option K) : Nat → K → Option K
  | 0, key => some key
  | n + 1, key => (next key).bind (follow next n)

/-- The value comes back to where it was. -/
def Revisits (next : K → Option K) (key : K) : Prop :=
  ∃ i j visited, i < j ∧ follow next i key = some visited ∧
    follow next j key = some visited

variable {next : K → Option K} {key visited : K}

theorem follow_add (next : K → Option K) (m n : Nat) (key : K) :
    follow next (m + n) key = (follow next m key).bind (follow next n) := by
  induction m generalizing key with
  | zero => rw [Nat.zero_add]; rfl
  | succ m ih =>
      rw [Nat.succ_add, follow, follow, Option.bind_assoc]
      exact Option.bind_congr fun following _ => ih following

theorem follow_none {m : Nat} (hnone : follow next m key = none) {n : Nat} (hle : m ≤ n) :
    follow next n key = none := by
  obtain ⟨more, rfl⟩ := Nat.exists_eq_add_of_le hle
  rw [follow_add, hnone]
  rfl

/-- Around a circle any number of times. -/
theorem follow_circle {period : Nat} (hcircle : follow next period visited = some visited)
    (n : Nat) : follow next (n * period) visited = some visited := by
  induction n with
  | zero => rw [Nat.zero_mul]; rfl
  | succ n ih => rw [Nat.succ_mul, follow_add, ih, Option.bind_some, hcircle]

/-- A value that comes back goes on forever. -/
theorem not_revisits_of_none {n : Nat} (hnone : follow next n key = none) :
    ¬ Revisits next key := by
  rintro ⟨i, j, visited, hlt, hi, hj⟩
  obtain ⟨period, rfl⟩ := Nat.exists_eq_add_of_lt hlt
  rw [Nat.add_assoc, follow_add, hi, Option.bind_some] at hj
  have hlate : follow next (i + n * (period + 1)) key = some visited := by
    rw [follow_add, hi, Option.bind_some, follow_circle hj]
  have hle : n ≤ i + n * (period + 1) := by
    have hrounds : n ≤ n * (period + 1) := Nat.le_mul_of_pos_right n (Nat.succ_pos _)
    omega
  rw [follow_none hnone hle] at hlate
  cases hlate

/-- A value that never comes back runs out of its range. -/
theorem none_of_not_revisits {bound : Nat} (index : K → Nat)
    (hindex : ∀ key key', index key = index key' → key = key')
    (hbound : ∀ key, next key ≠ none → index key < bound)
    (hnever : ¬ Revisits next key) : ∃ n, follow next n key = none := by
  by_contra hon
  have hsome : ∀ n, ∃ visited, follow next n key = some visited := fun n =>
    Option.ne_none_iff_exists'.mp fun hnone => hon ⟨n, hnone⟩
  choose path hpath using hsome
  have hlt : ∀ n, index (path n) < bound := by
    intro n
    refine hbound _ fun hstop => ?_
    have hnext := hpath (n + 1)
    rw [follow_add, hpath n, Option.bind_some, follow, hstop] at hnext
    cases hnext
  -- more rounds than there are values
  have hinjective : Function.Injective fun n => (⟨index (path n), hlt n⟩ : Fin bound) := by
    intro i j heq
    have hsame : path i = path j := hindex _ _ (Fin.mk.inj heq)
    rcases Nat.lt_trichotomy i j with hlt | rfl | hgt
    · exact absurd ⟨i, j, path i, hlt, hpath i, hsame ▸ hpath j⟩ hnever
    · rfl
    · exact absurd ⟨j, i, path j, hgt, hpath j, hsame ▸ hpath i⟩ hnever
  exact not_injective_infinite_finite _ hinjective

variable {S : Type u} {R : Type v} {step : S → S ⊕ R}

/-- The loop breaks off as soon as the value on which it depends is used up. -/
theorem run_isSome_iff (keyOf : S → K)
    (hstep : ∀ state, next (keyOf state) = (step state).elim (some ∘ keyOf) fun _ => none)
    (fuel : Nat) (state : S) :
    (run step fuel state).isSome = true ↔ follow next fuel (keyOf state) = none := by
  induction fuel generalizing state with
  | zero => simp [run, follow]
  | succ fuel ih =>
      have hnext := hstep state
      rw [run, follow, hnext]
      cases step state with
      | inl following => exact ih following
      | inr result => simp

end Orbits

section Settling

variable {A : Type u} {B : Type v} {f : Nat → Option A} {a : A}

/-- From some number of rounds on this is the result. -/
def Settles (f : Nat → Option A) (a : A) : Prop :=
  ∃ rounds, ∀ fuel, rounds ≤ fuel → f fuel = some a

theorem settles_some (a : A) : Settles (fun _ => some a) a :=
  ⟨0, fun _ _ => rfl⟩

theorem settles_of_returns {S : Type u} {R : Type v} {step : S → S ⊕ R} {state : S}
    {result : R} (hreturns : Returns step state result) :
    Settles (fun fuel => run step fuel state) result := by
  obtain ⟨rounds, hrun⟩ := hreturns
  refine ⟨rounds, fun fuel hle => ?_⟩
  obtain ⟨more, rfl⟩ := Nat.exists_eq_add_of_le hle
  exact run_add hrun more

theorem Settles.map (hf : Settles f a) (k : A → B) :
    Settles (fun fuel => (f fuel).map k) (k a) := by
  obtain ⟨rounds, hrounds⟩ := hf
  refine ⟨rounds, fun fuel hle => ?_⟩
  simp only [hrounds fuel hle, Option.map_some]

end Settling

end Loop

end UltraNet
