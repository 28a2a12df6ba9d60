/-
What holds in every state that a run passes through, and the guard that this
comes to.
-/
import UltraNet.GuardedRun

namespace UltraNet

universe u v

namespace Machine

variable {S : Type u} {A : Type v}

/-- The property holds where the run starts and after each of its actions. -/
def ThroughoutFrom (M : Machine S A) (P : S → Prop) : S → List A → Prop
  | state, [] => P state
  | state, action :: rest =>
      P state ∧
        match M.step state action with
        | none => True
        | some next => M.ThroughoutFrom P next rest

def Throughout (M : Machine S A) (P : S → Prop) (word : List A) : Prop :=
  M.ThroughoutFrom P M.start word

theorem ThroughoutFrom.first {M : Machine S A} {P : S → Prop} {state : S}
    {word : List A} (hall : M.ThroughoutFrom P state word) : P state := by
  cases word with
  | nil => exact hall
  | cons action rest => exact hall.1

theorem ThroughoutFrom.last {M : Machine S A} {P : S → Prop} {state last : S}
    {word : List A} (hall : M.ThroughoutFrom P state word)
    (hrun : M.runFrom state word = some last) : P last := by
  induction word generalizing state with
  | nil =>
      obtain rfl := Option.some.inj hrun
      exact hall
  | cons action rest ih =>
      obtain ⟨-, hrest⟩ := hall
      simp only [runFrom] at hrun
      cases hnext : M.step state action with
      | none => simp [hnext] at hrun
      | some next =>
          simp only [hnext] at hrun hrest
          exact ih hrest hrun

theorem throughoutFrom_append (M : Machine S A) {P : S → Prop} {state middle : S}
    {first second : List A} (hrun : M.runFrom state first = some middle) :
    M.ThroughoutFrom P state (first ++ second) ↔
      M.ThroughoutFrom P state first ∧ M.ThroughoutFrom P middle second := by
  induction first generalizing state with
  | nil =>
      obtain rfl := Option.some.inj hrun
      exact ⟨fun hall => ⟨hall.first, hall⟩, fun hall => hall.2⟩
  | cons action rest ih =>
      simp only [runFrom] at hrun
      simp only [List.cons_append, ThroughoutFrom]
      cases hnext : M.step state action with
      | none => simp [hnext] at hrun
      | some next =>
          simp only [hnext] at hrun ⊢
          rw [ih hrun, and_assoc]

/-- A property of the invariant holds throughout a guarded run. -/
theorem throughoutFrom_of_meets (M : Machine S A) {guard : S → A → Prop}
    {I P : S → Prop} (hproperty : ∀ state, I state → P state)
    (hkeep : ∀ state action next, I state → guard state action →
      M.step state action = some next → I next)
    (word : List A) {state : S} (hstate : I state)
    (hmeets : M.MeetsFrom guard state word) : M.ThroughoutFrom P state word := by
  induction word generalizing state with
  | nil => exact hproperty state hstate
  | cons action rest ih =>
      obtain ⟨hguard, hrest⟩ := hmeets
      refine ⟨hproperty state hstate, ?_⟩
      cases hnext : M.step state action with
      | none => trivial
      | some next =>
          rw [hnext] at hrest
          exact ih (hkeep state action next hstate hguard hnext) hrest

/-- Where a guarded step keeps the invariant and any other one leaves the property
behind, the property holds throughout just in the guarded runs. -/
theorem throughoutFrom_iff (M : Machine S A) {guard : S → A → Prop} {I P : S → Prop}
    (hproperty : ∀ state, I state → P state)
    (hkeep : ∀ state action next, I state → guard state action →
      M.step state action = some next → I next)
    (hbreak : ∀ state action next, I state → ¬ guard state action →
      M.step state action = some next → ¬ P next)
    (word : List A) {state last : S} (hstate : I state)
    (hrun : M.runFrom state word = some last) :
    M.ThroughoutFrom P state word ↔ M.MeetsFrom guard state word := by
  induction word generalizing state with
  | nil => exact iff_of_true (hproperty state hstate) trivial
  | cons action rest ih =>
      simp only [runFrom] at hrun
      simp only [ThroughoutFrom, MeetsFrom]
      cases hnext : M.step state action with
      | none => simp [hnext] at hrun
      | some next =>
          simp only [hnext] at hrun ⊢
          by_cases hguard : guard state action
          · have hrest := ih (hkeep state action next hstate hguard hnext) hrun
            exact and_congr (iff_of_true (hproperty state hstate) hguard) hrest
          · refine iff_of_false ?_ fun hmeets => hguard hmeets.1
            rintro ⟨-, hall⟩
            exact hbreak state action next hstate hguard hnext hall.first

theorem throughout_iff (M : Machine S A) {guard : S → A → Prop} {I P : S → Prop}
    (hproperty : ∀ state, I state → P state)
    (hkeep : ∀ state action next, I state → guard state action →
      M.step state action = some next → I next)
    (hbreak : ∀ state action next, I state → ¬ guard state action →
      M.step state action = some next → ¬ P next)
    (hstart : I M.start) (word : List A) {last : S} (hrun : M.run word = some last) :
    M.Throughout P word ↔ M.Meets guard word :=
  M.throughoutFrom_iff hproperty hkeep hbreak word hstart hrun

end Machine

end UltraNet
