/-
Runs of a partial labelled machine.  Every source of nondeterminism (which
thread moves, what the environment answers) is part of the label, so a run is
a word of labels and a concrete execution can be evaluated.
-/
import Mathlib.Data.List.Basic

namespace UltraNet

universe u v w x

/-- A machine with a start state and a partial step; `none` means that the
label is not enabled in the state. -/
structure Machine (S : Type u) (A : Type v) where
  start : S
  step : S → A → Option S

namespace Machine

variable {S : Type u} {A : Type v}

def runFrom (M : Machine S A) : S → List A → Option S
  | state, [] => some state
  | state, action :: rest =>
      match M.step state action with
      | none => none
      | some next => M.runFrom next rest

def run (M : Machine S A) (word : List A) : Option S :=
  M.runFrom M.start word

/-- The guard holds in every state in which the word takes an action. -/
def MeetsFrom (M : Machine S A) (guard : S → A → Prop) : S → List A → Prop
  | _, [] => True
  | state, action :: rest =>
      guard state action ∧
        match M.step state action with
        | none => True
        | some next => M.MeetsFrom guard next rest

def Meets (M : Machine S A) (guard : S → A → Prop) (word : List A) : Prop :=
  M.MeetsFrom guard M.start word

instance meetsFromDecidable (M : Machine S A) (guard : S → A → Prop)
    [∀ state action, Decidable (guard state action)] :
    (state : S) → (word : List A) → Decidable (M.MeetsFrom guard state word)
  | _, [] => isTrue trivial
  | state, action :: rest =>
      match hstep : M.step state action with
      | none =>
          decidable_of_iff (guard state action) (by simp [MeetsFrom, hstep])
      | some next =>
          have := meetsFromDecidable M guard next rest
          decidable_of_iff (guard state action ∧ M.MeetsFrom guard next rest)
            (by simp [MeetsFrom, hstep])

instance (M : Machine S A) (guard : S → A → Prop)
    [∀ state action, Decidable (guard state action)] (word : List A) :
    Decidable (M.Meets guard word) :=
  meetsFromDecidable M guard M.start word

theorem runFrom_append (M : Machine S A) (state : S) (first last : List A) :
    M.runFrom state (first ++ last) =
      (M.runFrom state first).bind fun middle => M.runFrom middle last := by
  induction first generalizing state with
  | nil => rfl
  | cons action rest ih =>
      simp only [List.cons_append, runFrom]
      cases M.step state action with
      | none => rfl
      | some next => exact ih next

theorem run_concat (M : Machine S A) (word : List A) (action : A) :
    M.run (word ++ [action]) = (M.run word).bind fun state => M.step state action := by
  rw [run, M.runFrom_append]
  apply congrArg (Option.bind _)
  funext state
  simp only [runFrom]
  cases M.step state action <;> rfl

theorem meetsFrom_append (M : Machine S A) {guard : S → A → Prop} {state : S}
    {first last : List A} (hmeets : M.MeetsFrom guard state (first ++ last)) :
    M.MeetsFrom guard state first ∧
      ∀ middle, M.runFrom state first = some middle →
        M.MeetsFrom guard middle last := by
  induction first generalizing state with
  | nil =>
      refine ⟨trivial, ?_⟩
      intro middle hrun
      obtain rfl := Option.some.inj hrun
      exact hmeets
  | cons action rest ih =>
      obtain ⟨hguard, hrest⟩ := hmeets
      simp only [MeetsFrom, runFrom]
      cases hnext : M.step state action with
      | none => exact ⟨⟨hguard, trivial⟩, nofun⟩
      | some next =>
          rw [hnext] at hrest
          obtain ⟨hfirst, hlast⟩ := ih hrest
          exact ⟨⟨hguard, hfirst⟩, hlast⟩

/-- The run rule: what every guarded step preserves, every guarded run
preserves. -/
theorem runFrom_invariant (M : Machine S A) {guard : S → A → Prop}
    {I : S → Prop}
    (hstep : ∀ state action next, I state → guard state action →
      M.step state action = some next → I next)
    (word : List A) {state last : S} (hstate : I state)
    (hmeets : M.MeetsFrom guard state word)
    (hrun : M.runFrom state word = some last) : I last := by
  induction word generalizing state with
  | nil =>
      simp only [runFrom, Option.some.injEq] at hrun
      exact hrun ▸ hstate
  | cons action rest ih =>
      obtain ⟨hguard, hrest⟩ := hmeets
      simp only [runFrom] at hrun
      cases hnext : M.step state action with
      | none => simp [hnext] at hrun
      | some next =>
          simp only [hnext] at hrun hrest
          exact ih (hstep state action next hstate hguard hnext) hrest hrun

theorem run_invariant (M : Machine S A) {guard : S → A → Prop}
    {I : S → Prop} (hstart : I M.start)
    (hstep : ∀ state action next, I state → guard state action →
      M.step state action = some next → I next)
    (word : List A) {last : S} (hmeets : M.Meets guard word)
    (hrun : M.run word = some last) : I last :=
  M.runFrom_invariant hstep word hstart hmeets hrun

/-- Every run meets a guard that allows every action. -/
theorem meetsFrom_of_forall (M : Machine S A) {guard : S → A → Prop}
    (hguard : ∀ state action, guard state action) (state : S) (word : List A) :
    M.MeetsFrom guard state word := by
  induction word generalizing state with
  | nil => trivial
  | cons action rest ih =>
      refine ⟨hguard state action, ?_⟩
      cases M.step state action with
      | none => trivial
      | some next => exact ih next

/-- States stay good while the guard holds, and a run that has once gone wrong
stays bad. -/
theorem runFrom_split (M : Machine S A) {guard : S → A → Prop}
    {Good Bad : S → Prop}
    (hkeep : ∀ state action next, Good state → guard state action →
      M.step state action = some next → Good next)
    (hbreak : ∀ state action next, Good state → ¬ guard state action →
      M.step state action = some next → Bad next)
    (hbad : ∀ state action next, Bad state →
      M.step state action = some next → Bad next)
    (word : List A) {state last : S} (hgood : Good state)
    (hrun : M.runFrom state word = some last) :
    (M.MeetsFrom guard state word → Good last) ∧
      (¬ M.MeetsFrom guard state word → Bad last) := by
  induction word generalizing state with
  | nil =>
      obtain rfl := Option.some.inj hrun
      exact ⟨fun _ => hgood, fun hnot => absurd trivial hnot⟩
  | cons action rest ih =>
      simp only [runFrom] at hrun
      cases hnext : M.step state action with
      | none => simp [hnext] at hrun
      | some next =>
          simp only [hnext] at hrun
          simp only [MeetsFrom, hnext]
          by_cases hguard : guard state action
          · obtain ⟨hmeets, hnot⟩ := ih (hkeep _ _ _ hgood hguard hnext) hrun
            simp only [hguard, true_and]
            exact ⟨hmeets, hnot⟩
          · have hwrong := hbreak _ _ _ hgood hguard hnext
            have hall : M.MeetsFrom (fun _ _ => True) next rest :=
              M.meetsFrom_of_forall (fun _ _ => trivial) next rest
            refine ⟨fun hmeets => absurd hmeets.1 hguard, fun _ => ?_⟩
            exact M.runFrom_invariant (fun state action next hstate _ hstep =>
              hbad state action next hstate hstep) rest hwrong hall hrun

theorem meets_of_forall (M : Machine S A) {guard : S → A → Prop}
    (hguard : ∀ state action, guard state action) (word : List A) :
    M.Meets guard word :=
  M.meetsFrom_of_forall hguard M.start word

/-- The run rule without a guard. -/
theorem run_preserves (M : Machine S A) {I : S → Prop} (hstart : I M.start)
    (hstep : ∀ state action next, I state →
      M.step state action = some next → I next)
    (word : List A) {last : S} (hrun : M.run word = some last) : I last :=
  have hmeets : M.Meets (fun _ _ => True) word :=
    M.meets_of_forall (fun _ _ => trivial) word
  M.run_invariant hstart
    (fun state action next hstate _ => hstep state action next hstate) word
    hmeets hrun

/-- A machine whose steps are steps of another one, as the maps `view` of the
states and `label` of the actions tell them, has its runs as runs of the other. -/
theorem run_refines {T : Type w} {B : Type x} {M : Machine S A} {N : Machine T B} {I : S → Prop}
    (view : S → T) (label : A → B) (hstart : I M.start) (hview : view M.start = N.start)
    (hstep : ∀ state action next, I state → M.step state action = some next →
      I next ∧ N.step (view state) (label action) = some (view next))
    (word : List A) {last : S} (hrun : M.run word = some last) :
    I last ∧ N.run (word.map label) = some (view last) := by
  have hfrom : ∀ state, I state → M.runFrom state word = some last →
      I last ∧ N.runFrom (view state) (word.map label) = some (view last) := by
    clear hrun
    induction word with
    | nil =>
        intro state hstate hrun
        obtain rfl := Option.some.inj hrun
        exact ⟨hstate, rfl⟩
    | cons action rest ih =>
        intro state hstate hrun
        simp only [runFrom] at hrun
        cases hnext : M.step state action with
        | none => simp [hnext] at hrun
        | some next =>
            simp only [hnext] at hrun
            obtain ⟨hkept, habstract⟩ := hstep state action next hstate hnext
            simp only [List.map_cons, runFrom, habstract]
            exact ih next hkept hrun
  have hboth := hfrom M.start hstart hrun
  rw [hview] at hboth
  exact hboth

/-- Where each step of a machine is answered by a step of another one, as
`label` tells it, so that the states stay related, each run is answered by a
run. -/
theorem runFrom_simulates {T : Type w} {B : Type x} {M : Machine S A} {N : Machine T B}
    {R : S → T → Prop} (label : A → B)
    (hstep : ∀ state other action next, R state other → M.step state action = some next →
      ∃ after, N.step other (label action) = some after ∧ R next after)
    (word : List A) {state last : S} {other : T} (hstart : R state other)
    (hrun : M.runFrom state word = some last) :
    ∃ final, N.runFrom other (word.map label) = some final ∧ R last final := by
  induction word generalizing state other with
  | nil =>
      obtain rfl := Option.some.inj hrun
      exact ⟨other, rfl, hstart⟩
  | cons action rest ih =>
      simp only [runFrom] at hrun
      cases hnext : M.step state action with
      | none => simp [hnext] at hrun
      | some next =>
          simp only [hnext] at hrun
          obtain ⟨after, hafter, hrelated⟩ := hstep state other action next hstart hnext
          simp only [List.map_cons, runFrom, hafter]
          exact ih hrelated hrun

/-- Where every step lowers `work`, a run has no more steps than that. -/
theorem runFrom_length (M : Machine S A) {work : S → Nat}
    (hless : ∀ state action next, M.step state action = some next → work next < work state)
    (word : List A) {state last : S} (hrun : M.runFrom state word = some last) :
    word.length + work last ≤ work state := by
  induction word generalizing state with
  | nil =>
      obtain rfl := Option.some.inj hrun
      simp
  | cons action rest ih =>
      simp only [runFrom] at hrun
      cases hnext : M.step state action with
      | none => simp [hnext] at hrun
      | some next =>
          simp only [hnext] at hrun
          have hrest := ih hrun
          have hfirst := hless state action next hnext
          rw [List.length_cons]
          omega

/-- If moreover a guarded step is possible until the goal is reached, a guarded run
reaches it. -/
theorem runFrom_reaches (M : Machine S A) {work : S → Nat} {guard : S → A → Prop}
    {I Goal : S → Prop}
    (hless : ∀ state action next, M.step state action = some next → work next < work state)
    (hgo : ∀ state, I state → ¬ Goal state → ∃ action next, guard state action ∧
      M.step state action = some next ∧ I next)
    {state : S} (hstate : I state) :
    ∃ word last, M.MeetsFrom guard state word ∧ M.runFrom state word = some last ∧
      Goal last ∧ I last := by
  induction hwork : work state using Nat.strongRecOn generalizing state with
  | ind n ih =>
      by_cases hgoal : Goal state
      · exact ⟨[], state, trivial, rfl, hgoal, hstate⟩
      · obtain ⟨action, next, hguard, hstep, hnext⟩ := hgo state hstate hgoal
        have hlower := hless state action next hstep
        obtain ⟨word, last, hmeets, hrun, hreached⟩ :=
          ih (work next) (hwork ▸ hlower) hnext rfl
        refine ⟨action :: word, last, ⟨hguard, ?_⟩, ?_, hreached⟩
        · rw [hstep]
          exact hmeets
        · rw [runFrom, hstep]
          exact hrun

/-- A word that leads from one state to another and meets the guard. -/
structure Leads (M : Machine S A) (guard : S → A → Prop) (state : S) (word : List A)
    (last : S) : Prop where
  meets : M.MeetsFrom guard state word
  run : M.runFrom state word = some last

namespace Leads

variable {M : Machine S A} {guard : S → A → Prop} {state middle last : S}

theorem nil (M : Machine S A) (guard : S → A → Prop) (state : S) :
    M.Leads guard state [] state := ⟨trivial, rfl⟩

theorem cons {action : A} {rest : List A} (hguard : guard state action)
    (hstep : M.step state action = some middle) (hrest : M.Leads guard middle rest last) :
    M.Leads guard state (action :: rest) last := by
  refine ⟨⟨hguard, ?_⟩, ?_⟩
  · rw [hstep]
    exact hrest.meets
  · rw [runFrom, hstep]
    exact hrest.run

theorem append {first rest : List A} (hfirst : M.Leads guard state first middle)
    (hrest : M.Leads guard middle rest last) : M.Leads guard state (first ++ rest) last := by
  induction first generalizing state with
  | nil =>
      obtain rfl := Option.some.inj hfirst.run
      exact hrest
  | cons action others ih =>
      obtain ⟨⟨hguard, hmeets⟩, hrun⟩ := hfirst
      simp only [runFrom] at hrun
      cases hnext : M.step state action with
      | none => simp [hnext] at hrun
      | some next =>
          simp only [hnext] at hmeets hrun
          exact cons hguard hnext (ih ⟨hmeets, hrun⟩)

end Leads

theorem MeetsFrom.mono {M : Machine S A} {guard weaker : S → A → Prop}
    (hguard : ∀ state action, guard state action → weaker state action)
    {state : S} {word : List A} (hmeets : M.MeetsFrom guard state word) :
    M.MeetsFrom weaker state word := by
  induction word generalizing state with
  | nil => trivial
  | cons action rest ih =>
      obtain ⟨haction, hrest⟩ := hmeets
      refine ⟨hguard state action haction, ?_⟩
      cases hnext : M.step state action with
      | none => trivial
      | some next =>
          rw [hnext] at hrest
          exact ih hrest

end Machine

end UltraNet
