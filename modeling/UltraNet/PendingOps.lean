/-
The count of operations in flight of one engine: raised by a submission, lowered by
a completion or by a retry that fails, and halved when the kernel reports that its
completion queue overflowed.
-/
import UltraNet.RunStates
import Mathlib.Algebra.Ring.Int.Defs
import Mathlib.Data.Finset.Card

namespace UltraNet

universe u

/-- `pendingOps` is `m_pending_ops` before it is taken modulo 2^64.  The operations
that were submitted and are not complete are a ghost. -/
structure IoUringEngine (A : Type u) where
  pendingOps : Int
  inFlight : Finset A

/-- What `resubmit` comes to. -/
inductive RetryOutcome where
  | resubmitted
  | expired
  | noSqe
deriving DecidableEq

inductive EngineAction (A : Type u) where
  -- `await_suspend`; there may be no entry left for the operation
  | submit (op : A) (sqe : Bool)
  -- `on_io_completion`, with a result to resume with or with EAGAIN or EINTR
  | complete (op : A)
  | retry (op : A) (outcome : RetryOutcome)
  -- `poll_batch` finds that the queue has overflowed
  | overflow

namespace IoUringEngine

variable {A : Type u} [DecidableEq A]

/-- `pending_op_count`. -/
def pendingOpCount (s : IoUringEngine A) : Int := s.pendingOps % 2 ^ 64

def overWatermark (maxPendingOps : Nat) (s : IoUringEngine A) : Bool :=
  (maxPendingOps : Int) ≤ s.pendingOpCount

def incrementPendingOps (s : IoUringEngine A) (op : A) : IoUringEngine A :=
  ⟨s.pendingOps + 1, insert op s.inFlight⟩

/-- The operation is over. -/
def decrementPendingOps (s : IoUringEngine A) (op : A) : IoUringEngine A :=
  ⟨s.pendingOps - 1, s.inFlight.erase op⟩

def adjustPendingOpsOnOverflow (s : IoUringEngine A) : IoUringEngine A :=
  if 0 < s.pendingOpCount then { s with pendingOps := s.pendingOpCount / 2 } else s

def step (s : IoUringEngine A) : EngineAction A → Option (IoUringEngine A)
  | .submit op sqe =>
      if op ∉ s.inFlight then some (if sqe then s.incrementPendingOps op else s) else none
  | .complete op => if op ∈ s.inFlight then some (s.decrementPendingOps op) else none
  | .retry op outcome =>
      if op ∈ s.inFlight then
        some (if outcome = .resubmitted then s else s.decrementPendingOps op)
      else none
  | .overflow => some s.adjustPendingOpsOnOverflow

def machine (A : Type u) [DecidableEq A] : Machine (IoUringEngine A) (EngineAction A) :=
  ⟨⟨0, ∅⟩, step⟩

/-- The count is not below zero, and the watermark is not passed while there are
fewer operations than it says. -/
structure CountOk (maxPendingOps : Nat) (s : IoUringEngine A) : Prop where
  nonneg : 0 ≤ s.pendingOps
  watermark : s.inFlight.card < maxPendingOps → s.overWatermark maxPendingOps = false

/-- An overflow is found when nothing is counted. -/
def AdjustsNothing (s : IoUringEngine A) (action : EngineAction A) : Prop :=
  action = .overflow → s.pendingOpCount = 0

/-- The count is right. -/
def Exact (s : IoUringEngine A) : Prop := s.pendingOps = s.inFlight.card

/-- More operations are in flight than are counted. -/
def Short (s : IoUringEngine A) : Prop := 0 ≤ s.pendingOps ∧ s.pendingOps < s.inFlight.card

variable {s next last : IoUringEngine A} {maxPendingOps : Nat}

omit [DecidableEq A] in
theorem pendingOpCount_le (hnonneg : 0 ≤ s.pendingOps) :
    s.pendingOpCount ≤ s.pendingOps := by
  unfold pendingOpCount
  omega

omit [DecidableEq A] in
theorem Exact.countOk (hexact : s.Exact) (maxPendingOps : Nat) :
    s.CountOk maxPendingOps := by
  have hnonneg : 0 ≤ s.pendingOps := by
    rw [hexact]
    exact Int.natCast_nonneg _
  refine ⟨hnonneg, fun hfewer => ?_⟩
  have hle := pendingOpCount_le hnonneg
  rw [hexact] at hle
  rw [overWatermark, decide_eq_false_iff_not]
  omega

theorem card_incrementPendingOps {op : A} (hop : op ∉ s.inFlight) :
    (s.incrementPendingOps op).inFlight.card = s.inFlight.card + 1 :=
  Finset.card_insert_of_notMem hop

theorem card_decrementPendingOps {op : A} (hop : op ∈ s.inFlight) :
    (s.decrementPendingOps op).inFlight.card + 1 = s.inFlight.card :=
  Finset.card_erase_add_one hop

/-- Every step counts what it does, an adjustment apart. -/
theorem step_counts {action : EngineAction A} (hstep : s.step action = some next) :
    next.pendingOps - next.inFlight.card = s.pendingOps - s.inFlight.card ∨
      action = .overflow ∧ 0 < s.pendingOpCount ∧
        next = { s with pendingOps := s.pendingOpCount / 2 } := by
  cases action with
  | submit op sqe =>
      obtain ⟨hop, hnext⟩ := Option.ite_none_right_eq_some.mp hstep
      obtain rfl := Option.some.inj hnext
      left
      cases sqe with
      | false => rfl
      | true =>
          have hcard := card_incrementPendingOps hop
          show s.pendingOps + 1 - ((s.incrementPendingOps op).inFlight.card : Int) = _
          omega
  | complete op =>
      obtain ⟨hop, hnext⟩ := Option.ite_none_right_eq_some.mp hstep
      obtain rfl := Option.some.inj hnext
      left
      have hcard := card_decrementPendingOps hop
      show s.pendingOps - 1 - ((s.decrementPendingOps op).inFlight.card : Int) = _
      omega
  | retry op outcome =>
      obtain ⟨hop, hnext⟩ := Option.ite_none_right_eq_some.mp hstep
      obtain rfl := Option.some.inj hnext
      left
      split
      · rfl
      · have hcard := card_decrementPendingOps hop
        show s.pendingOps - 1 - ((s.decrementPendingOps op).inFlight.card : Int) = _
        omega
  | overflow =>
      obtain rfl := Option.some.inj hstep
      unfold adjustPendingOpsOnOverflow
      split
      · rename_i hpos
        exact .inr ⟨rfl, hpos, rfl⟩
      · exact .inl rfl

theorem Exact.keep (hexact : s.Exact) {action : EngineAction A}
    (hadjusts : s.AdjustsNothing action) (hstep : s.step action = some next) :
    next.Exact := by
  unfold Exact at hexact ⊢
  rcases step_counts hstep with hcounts | ⟨rfl, hpos, -⟩
  · omega
  · have hzero := hadjusts rfl
    omega

/-- Halving a count that is right makes it too small. -/
theorem Exact.break (hexact : s.Exact) {action : EngineAction A}
    (hadjusts : ¬ s.AdjustsNothing action) (hstep : s.step action = some next) :
    next.Short := by
  obtain ⟨rfl, hcount⟩ := Classical.not_imp.mp hadjusts
  have hnonneg : 0 ≤ s.pendingOps := by
    rw [hexact]
    exact Int.natCast_nonneg _
  have hle := pendingOpCount_le hnonneg
  have hexact : s.pendingOps = s.inFlight.card := hexact
  have hmod : 0 ≤ s.pendingOpCount := Int.emod_nonneg _ (by decide)
  have hpos : 0 < s.pendingOpCount := by omega
  obtain rfl := Option.some.inj hstep
  rw [adjustPendingOpsOnOverflow, if_pos hpos]
  refine ⟨?_, ?_⟩
  · show 0 ≤ s.pendingOpCount / 2
    omega
  · show s.pendingOpCount / 2 < s.inFlight.card
    omega

/-- It stays too small until it is below zero. -/
theorem Short.keep (hshort : s.Short) {action : EngineAction A}
    (hstep : s.step action = some next) (hnonneg : 0 ≤ next.pendingOps) : next.Short := by
  obtain ⟨hpending, hless⟩ := hshort
  refine ⟨hnonneg, ?_⟩
  rcases step_counts hstep with hcounts | ⟨-, -, rfl⟩
  · omega
  · have hle := pendingOpCount_le hpending
    show s.pendingOpCount / 2 < s.inFlight.card
    have hmod : 0 ≤ s.pendingOpCount := Int.emod_nonneg _ (by decide)
    omega

theorem run_short (word : List (EngineAction A)) (hshort : s.Short)
    (hrun : (machine A).runFrom s word = some last)
    (hall : (machine A).ThroughoutFrom (CountOk maxPendingOps) s word) : last.Short := by
  induction word generalizing s with
  | nil =>
      obtain rfl := Option.some.inj hrun
      exact hshort
  | cons action rest ih =>
      obtain ⟨-, hrest⟩ := hall
      obtain ⟨answer, hanswer⟩ : ∃ answer, s.step action = answer := ⟨_, rfl⟩
      simp only [Machine.runFrom, machine, hanswer] at hrun hrest
      cases answer with
      | none => cases hrun
      | some next => exact ih (hshort.keep hanswer hrest.first.nonneg) hrun hrest

theorem run_adjusted (word : List (EngineAction A)) (hexact : s.Exact)
    (hrun : (machine A).runFrom s word = some last)
    (hall : (machine A).ThroughoutFrom (CountOk maxPendingOps) s word)
    (hmeets : ¬ (machine A).MeetsFrom AdjustsNothing s word) : last.Short := by
  induction word generalizing s with
  | nil => exact absurd trivial hmeets
  | cons action rest ih =>
      obtain ⟨-, hrest⟩ := hall
      obtain ⟨answer, hanswer⟩ : ∃ answer, s.step action = answer := ⟨_, rfl⟩
      simp only [Machine.runFrom, Machine.MeetsFrom, machine, hanswer] at hrun hrest hmeets
      cases answer with
      | none => cases hrun
      | some next =>
          by_cases hadjusts : s.AdjustsNothing action
          · exact ih (hexact.keep hadjusts hanswer) hrun hrest
              fun hmore => hmeets ⟨hadjusts, hmore⟩
          · exact run_short rest (hexact.break hadjusts hanswer) hrun hrest

def IsCompletion (action : EngineAction A) : Prop := ∃ op, action = .complete op

/-- All operations in flight complete one after the other. -/
theorem completeAll (s : IoUringEngine A) :
    ∃ word last, (∀ action ∈ word, IsCompletion action) ∧
      (machine A).runFrom s word = some last ∧
      last.pendingOps = s.pendingOps - s.inFlight.card := by
  induction hcard : s.inFlight.card generalizing s with
  | zero => exact ⟨[], s, fun action haction => (by cases haction), rfl, by simp⟩
  | succ n ih =>
      obtain ⟨op, hop⟩ := Finset.card_pos.mp (by rw [hcard]; exact Nat.succ_pos n)
      have hfewer := card_decrementPendingOps hop
      obtain ⟨word, last, hword, hrun, hlast⟩ := ih (s.decrementPendingOps op) (by omega)
      refine ⟨.complete op :: word, last, ?_, ?_, ?_⟩
      · intro action haction
        rcases List.mem_cons.mp haction with rfl | hrest
        · exact ⟨op, rfl⟩
        · exact hword action hrest
      · have hstep : s.step (.complete op) = some (s.decrementPendingOps op) := if_pos hop
        simp only [Machine.runFrom, machine, hstep] at hrun ⊢
        exact hrun
      · rw [hlast]
        show s.pendingOps - 1 - (n : Int) = _
        omega

theorem meets_completions (word : List (EngineAction A))
    (hword : ∀ action ∈ word, IsCompletion action) :
    (machine A).MeetsFrom AdjustsNothing s word := by
  induction word generalizing s with
  | nil => trivial
  | cons action rest ih =>
      obtain ⟨op, rfl⟩ := hword action List.mem_cons_self
      refine ⟨fun heq => (by cases heq), ?_⟩
      cases (machine A).step s (.complete op) with
      | none => trivial
      | some next => exact ih fun other hother => hword other (List.mem_cons_of_mem _ hother)

/-- The count is right in a run, and while the operations complete that are in
flight then, just if no overflow was found while something was counted. -/
theorem count_ok_iff (A : Type u) [DecidableEq A] (maxPendingOps : Nat)
    (word : List (EngineAction A)) (last : IoUringEngine A)
    (hrun : (machine A).run word = some last) :
    (∀ more, (∀ action ∈ more, IsCompletion action) →
        (machine A).Throughout (CountOk maxPendingOps) (word ++ more)) ↔
      (machine A).Meets AdjustsNothing word := by
  have hstart : (machine A).start.Exact := rfl
  constructor
  · intro hall
    have hword := hall [] fun action haction => by cases haction
    rw [List.append_nil] at hword
    by_contra hmeets
    have hshort := run_adjusted word hstart hrun hword hmeets
    obtain ⟨more, final, hmore, hfinal, hpending⟩ := completeAll last
    obtain ⟨-, hrest⟩ := ((machine A).throughoutFrom_append hrun).mp (hall more hmore)
    have hnonneg := (hrest.last hfinal).nonneg
    have hless := hshort.2
    omega
  · intro hmeets more hmore
    have hlast : last.Exact := (machine A).run_invariant (I := Exact) hstart
      (fun _ _ _ hexact hadjusts hstep => hexact.keep hadjusts hstep) word hmeets hrun
    have hthroughout : ∀ {state : IoUringEngine A} {word : List (EngineAction A)},
        state.Exact → (machine A).MeetsFrom AdjustsNothing state word →
        (machine A).ThroughoutFrom (CountOk maxPendingOps) state word :=
      fun hexact => (machine A).throughoutFrom_of_meets
        (fun _ hexact => hexact.countOk maxPendingOps)
        (fun _ _ _ hexact hadjusts hstep => hexact.keep hadjusts hstep) _ hexact
    exact ((machine A).throughoutFrom_append hrun).mpr
      ⟨hthroughout hstart hmeets, hthroughout hlast (meets_completions more hmore)⟩

/-- A retry that fails and an overflow that comes when everything is over. -/
theorem count_ok_retried :
    let word := [EngineAction.submit 1 true, .retry 1 .resubmitted, .submit 2 false,
      .retry 1 .expired, .overflow, .submit 3 true]
    (machine Nat).Meets AdjustsNothing word ∧
      ∀ more : List (EngineAction Nat), (∀ action ∈ more, IsCompletion action) →
        (machine Nat).Throughout (CountOk 4) (word ++ more) := by
  intro word
  have hmeets : (machine Nat).Meets AdjustsNothing word :=
    ⟨fun heq => (by cases heq), fun heq => (by cases heq), fun heq => (by cases heq),
      fun heq => (by cases heq), fun _ => rfl, fun heq => (by cases heq), trivial⟩
  exact ⟨hmeets, (count_ok_iff Nat 4 word _ rfl).mpr hmeets⟩

/-- Two operations are in flight when an overflow is found: the count is below zero
when they are complete, and the watermark is passed for good. -/
theorem count_wraps :
    let word := [EngineAction.submit 1 true, .submit 2 true, .overflow, .complete 1,
      .complete 2]
    ∃ last, (machine Nat).run word = some last ∧ last.inFlight = ∅ ∧
      last.overWatermark 921 = true ∧ ¬ (machine Nat).Throughout (CountOk 921) word := by
  intro word
  refine ⟨_, rfl, by decide, by decide, fun hall => ?_⟩
  have hnonneg := (Machine.ThroughoutFrom.last hall rfl).nonneg
  revert hnonneg
  decide

end IoUringEngine

end UltraNet
