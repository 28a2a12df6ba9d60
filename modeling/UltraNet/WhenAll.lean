/-
`when_all`: the awaiting coroutine launches one wrapper per task, every wrapper
counts `remaining` down when its task has ended, and the one that ends last hands
the coroutine back to the scheduler of its own thread, if that thread has one.
-/
import UltraNet.SharedCount

namespace UltraNet

/-- Where a wrapper is; `catching` and `setting` are the two halves of the
`catch (...)` block, which no lock protects. -/
inductive GatherStage (V E : Type) where
  | idle
  | ready
  | running
  | storing (value : V)
  | catching (exception : E)
  | setting (exception : E)
  | counting (outcome : Except E V)
  | handing (outcome : Except E V)
  | ended (outcome : Except E V)

/-- What `await_resume` gives the caller. -/
inductive Gathered (V E : Type) where
  | returned (results : Nat → V)
  | threw (exception : E)

/-- `WhenAllState` with the awaiter's loop and the wrappers.  `resubmits`,
`dropped` and `seen` record what has happened: `dropped` counts the callers that
the last wrapper could not hand to a scheduler. -/
structure WhenAll (V E : Type) where
  begun : Bool
  created : Nat
  submitted : Nat
  stages : List (GatherStage V E)
  remaining : Nat
  results : Nat → V
  exception : Option E
  queued : Nat
  resubmits : Nat
  dropped : Nat
  seen : List (Gathered V E)

inductive WhenAllAction (V E : Type) where
  | await
  | create
  | submit
  | start (i : Nat)
  | finish (i : Nat) (outcome : Except E V)
  | store (i : Nat) (thrown : Option E)
  | check (i : Nat)
  | set (i : Nat)
  | count (i : Nat)
  | hand (i : Nat) (sched : Bool)
  | resume

namespace WhenAll

variable {V E : Type}

def init [Inhabited V] (n : Nat) : WhenAll V E :=
  ⟨false, 0, 0, List.replicate n .idle, n, fun _ => default, none, 0, 0, 0, []⟩

def setStage (s : WhenAll V E) (i : Nat) (stage : GatherStage V E) : WhenAll V E :=
  { s with stages := s.stages.set i stage }

def awaitResume (s : WhenAll V E) : Gathered V E :=
  match s.exception with
  | some exception => .threw exception
  | none => .returned s.results

/-- `decrement_and_check_last`. -/
def decrementAndCheckLast (s : WhenAll V E) : Bool × WhenAll V E :=
  (s.remaining == 1, { s with remaining := s.remaining - 1 })

/-- `create` and `submit` are the two halves of `launch_one`, run by the worker
that suspends the caller; everything else may run on any thread at any time. -/
def step (n : Nat) (s : WhenAll V E) : WhenAllAction V E → Option (WhenAll V E)
  | .await =>
      if s.begun then none
      -- `await_ready`: the caller does not suspend
      else if s.remaining = 0 then some { s with begun := true, seen := s.seen ++ [s.awaitResume] }
      else some { s with begun := true }
  | .create =>
      if s.begun ∧ s.created = s.submitted ∧ s.created < n then
        some { s with created := s.created + 1 }
      else none
  | .submit =>
      if s.submitted < s.created then
        some { s.setStage s.submitted .ready with submitted := s.submitted + 1 }
      else none
  | .start i =>
      match s.stages[i]? with
      | some .ready => some (s.setStage i .running)
      | _ => none
  | .finish i outcome =>
      match s.stages[i]?, outcome with
      | some .running, .ok value => some (s.setStage i (.storing value))
      | some .running, .error exception => some (s.setStage i (.catching exception))
      | _, _ => none
  | .store i thrown =>
      match s.stages[i]?, thrown with
      | some (.storing value), none =>
          some { s.setStage i (.counting (.ok value)) with
            results := Function.update s.results i value }
      -- the move assignment throws
      | some (.storing _), some exception => some (s.setStage i (.catching exception))
      | _, _ => none
  | .check i =>
      match s.stages[i]? with
      | some (.catching exception) =>
          if s.exception.isSome then some (s.setStage i (.counting (.error exception)))
          else some (s.setStage i (.setting exception))
      | _ => none
  | .set i =>
      match s.stages[i]? with
      | some (.setting exception) =>
          some { s.setStage i (.counting (.error exception)) with exception := some exception }
      | _ => none
  | .count i =>
      match s.stages[i]? with
      | some (.counting outcome) =>
          let (last, s) := s.decrementAndCheckLast
          some (s.setStage i (if last then .handing outcome else .ended outcome))
      | _ => none
  | .hand i sched =>
      match s.stages[i]? with
      | some (.handing outcome) =>
          if sched then
            some { s.setStage i (.ended outcome) with
              queued := s.queued + 1
              resubmits := s.resubmits + 1 }
          else some { s.setStage i (.ended outcome) with dropped := s.dropped + 1 }
      | _ => none
  | .resume =>
      if 0 < s.queued then
        some { s with queued := s.queued - 1, seen := s.seen ++ [s.awaitResume] }
      else none

def machine (V E : Type) [Inhabited V] (n : Nat) : Machine (WhenAll V E) (WhenAllAction V E) where
  start := init n
  step := step n

/-- How the task of a wrapper ended, once the wrapper has dealt with it. -/
def outcome? : GatherStage V E → Option (Except E V)
  | .counting outcome => some outcome
  | .handing outcome => some outcome
  | .ended outcome => some outcome
  | _ => none

/-- The share of a wrapper in `remaining`. -/
def weight : GatherStage V E → Nat
  | .handing _ => 0
  | .ended _ => 0
  | _ => 1

/-- The wrapper that has found itself last. -/
def handWeight : GatherStage V E → Nat
  | .handing _ => 1
  | _ => 0

def Ended (n : Nat) (s : WhenAll V E) : Prop :=
  ∀ i < n, ∃ outcome, s.stages[i]? = some (.ended outcome)

/-- The resumption gives every value if every task ended with one, and otherwise an
exception that a task ended with. -/
def Shows (n : Nat) (s : WhenAll V E) : Gathered V E → Prop
  | .returned results =>
      ∀ i < n, ∃ value, s.stages[i]? = some (.ended (.ok value)) ∧ results i = value
  | .threw exception => ∃ i < n, s.stages[i]? = some (.ended (.error exception))

/-- What the caller relies on, in a state of a run. -/
structure GathersOnce (n : Nat) (s : WhenAll V E) : Prop where
  atMostOnce : s.resubmits + s.dropped ≤ 1
  onceEnded : 0 < n → Ended n s → s.resubmits + s.dropped = 1
  notBefore : 0 < s.resubmits + s.dropped → Ended n s
  resumed : s.seen.length + s.queued = s.resubmits + if n = 0 ∧ s.begun then 1 else 0
  launched : s.seen ≠ [] → s.submitted = n
  sees : ∀ resumption ∈ s.seen, Ended n s ∧ Shows n s resumption

/-- The outcome of a wrapper is in the shared state. -/
def Recorded (s : WhenAll V E) (i : Nat) : Except E V → Prop
  | .ok value => s.results i = value
  | .error _ => s.exception.isSome

/-- How often the caller has been or is being handed back, by what is left to count. -/
def due (n remaining : Nat) : Nat :=
  if 0 < n ∧ remaining = 0 then 1 else 0

/-- The invariant of every run. -/
structure Books (n : Nat) (s : WhenAll V E) : Prop where
  length : s.stages.length = n
  submitted : s.submitted ≤ s.created
  created : s.created ≤ n
  unbegun : s.begun = false → s.created = 0
  idle : ∀ i, s.submitted ≤ i → i < n → s.stages[i]? = some .idle
  remaining : s.remaining = (s.stages.map weight).sum
  handed : (s.stages.map handWeight).sum + s.resubmits + s.dropped = due n s.remaining
  recorded : ∀ i stage outcome, s.stages[i]? = some stage → outcome? stage = some outcome →
    Recorded s i outcome
  exception : ∀ exception, s.exception = some exception →
    ∃ (i : Nat) (stage : GatherStage V E),
      s.stages[i]? = some stage ∧ outcome? stage = some (.error exception)
  resumed : s.seen.length + s.queued = s.resubmits + if n = 0 ∧ s.begun then 1 else 0
  sees : ∀ resumption ∈ s.seen, Shows n s resumption

variable {n i : Nat} {outcome : Except E V} {s next : WhenAll V E}
  {before stage : GatherStage V E}

/-- A launched wrapper that has not ended takes a step of its own. -/
structure WrapperMove (n i : Nat) (before stage : GatherStage V E) (s next : WhenAll V E) :
    Prop where
  at_stage : s.stages[i]? = some before
  launched : before ≠ .idle
  stages : next.stages = s.stages.set i stage
  counts : next.remaining + weight before = s.remaining + weight stage
  hands : handWeight stage + next.resubmits + next.dropped + due n s.remaining =
    handWeight before + s.resubmits + s.dropped + due n next.remaining
  keeps : ∀ outcome, outcome? before = some outcome → outcome? stage = some outcome
  records : ∀ outcome, outcome? stage = some outcome → Recorded next i outcome
  results : ∀ j, j ≠ i → next.results j = s.results j
  known : s.exception.isSome → next.exception.isSome
  exception : ∀ exception, next.exception = some exception →
    s.exception = some exception ∨ outcome? stage = some (.error exception)
  queued : next.queued + s.resubmits = s.queued + next.resubmits
  unended : ∀ outcome, before ≠ .ended outcome := by nofun
  begun : next.begun = s.begun := by rfl
  created : next.created = s.created := by rfl
  submitted : next.submitted = s.submitted := by rfl
  seen : next.seen = s.seen := by rfl

theorem due_of_pos {remaining : Nat} (hpos : 0 < remaining) : due n remaining = 0 :=
  if_neg fun hboth => Nat.ne_of_gt hpos hboth.2

theorem due_zero (hn : 0 < n) : due n 0 = 1 :=
  if_pos ⟨hn, rfl⟩

theorem Recorded.congr (hrecorded : Recorded s i outcome) (hresults : next.results = s.results)
    (hexception : next.exception = s.exception) : Recorded next i outcome := by
  cases outcome with
  | ok value => exact (congrFun hresults i).trans hrecorded
  | error exception => exact (congrArg Option.isSome hexception).trans hrecorded

theorem setStage_self (hi : s.stages[i]? = some before) :
    (s.setStage i stage).stages[i]? = some stage := by
  have hlt := (List.getElem?_eq_some_iff.mp hi).1
  simp only [setStage, List.getElem?_set_self hlt]

theorem setStage_of_ne {j : Nat} (hj : i ≠ j) :
    (s.setStage i stage).stages[j]? = s.stages[j]? :=
  List.getElem?_set_ne hj

theorem Books.ended (hs : Books n s) (hdone : 0 < s.resubmits + s.dropped) : Ended n s := by
  have hhanded := hs.handed
  intro i hi
  obtain hpos | hzero := Nat.eq_zero_or_pos s.remaining |>.symm
  · rw [due_of_pos hpos] at hhanded
    omega
  · have hsum : (s.stages.map weight).sum = 0 := hs.remaining ▸ hzero
    rw [hzero, due_zero (by omega)] at hhanded
    have hlt : i < s.stages.length := hs.length.symm ▸ hi
    have hweight : weight s.stages[i] = 0 :=
      List.sum_eq_zero_iff.mp hsum _ (List.mem_map_of_mem (List.getElem_mem hlt))
    have hhand : handWeight s.stages[i] = 0 :=
      List.sum_eq_zero_iff.mp (by omega : (s.stages.map handWeight).sum = 0) _
        (List.mem_map_of_mem (List.getElem_mem hlt))
    rw [List.getElem?_eq_getElem hlt]
    cases hstage : s.stages[i] <;> rw [hstage] at hweight hhand
    case ended outcome => exact ⟨outcome, rfl⟩
    case handing => exact absurd hhand Nat.one_ne_zero
    all_goals exact absurd hweight Nat.one_ne_zero

theorem Books.resumedEnded (hs : Books n s) (hback : 0 < s.seen.length + s.queued) :
    Ended n s := by
  by_cases hn : n = 0
  · intro i hi
    omega
  · apply hs.ended
    have hresumed := hs.resumed
    rw [if_neg (by simp [hn])] at hresumed
    omega

theorem Books.sum_eq_zero (hs : Books n s) (hended : Ended n s)
    {count : GatherStage V E → Nat} (hcount : ∀ outcome, count (.ended outcome) = 0) :
    (s.stages.map count).sum = 0 := by
  apply List.sum_eq_zero
  intro k hk
  obtain ⟨stage, hmem, rfl⟩ := List.mem_map.mp hk
  obtain ⟨i, hlt, rfl⟩ := List.mem_iff_getElem.mp hmem
  obtain ⟨outcome, hend⟩ := hended i (hs.length ▸ hlt)
  rw [(List.getElem?_eq_some_iff.mp hend).2]
  exact hcount outcome

/-- What the caller would be given now, once every wrapper has ended. -/
theorem Books.shows (hs : Books n s) (hended : Ended n s) : Shows n s s.awaitResume := by
  unfold awaitResume
  split
  case h_1 exception hexception =>
    obtain ⟨i, stage, hstage, houtcome⟩ := hs.exception exception hexception
    have hi : i < n := hs.length ▸ (List.getElem?_eq_some_iff.mp hstage).1
    obtain ⟨outcome, hend⟩ := hended i hi
    obtain rfl := Option.some.inj (hstage.symm.trans hend)
    obtain rfl := Option.some.inj houtcome
    exact ⟨i, hi, hend⟩
  case h_2 hnone =>
    intro i hi
    obtain ⟨outcome, hend⟩ := hended i hi
    have hrecorded := hs.recorded i _ outcome hend rfl
    cases outcome with
    | ok value => exact ⟨value, hend, hrecorded⟩
    | error exception =>
        rw [Recorded, hnone] at hrecorded
        exact absurd hrecorded Bool.false_ne_true

/-- A run has not resumed the caller while a wrapper is still to move. -/
theorem Books.unresumed (hs : Books n s) (hi : s.stages[i]? = some before)
    (hbefore : ∀ outcome, before ≠ .ended outcome) : s.resubmits = 0 ∧ s.dropped = 0 ∧ s.seen = [] := by
  have hlt : i < n := hs.length ▸ (List.getElem?_eq_some_iff.mp hi).1
  have hzero : ¬ 0 < s.resubmits + s.dropped := by
    intro hdone
    obtain ⟨outcome, hend⟩ := hs.ended hdone i hlt
    exact hbefore outcome (Option.some.inj (hi.symm.trans hend))
  have hresumed := hs.resumed
  rw [if_neg (by omega)] at hresumed
  have hseen : s.seen.length = 0 := by omega
  exact ⟨by omega, by omega, List.length_eq_zero_iff.mp hseen⟩

/-- The invariant is kept by every move of a wrapper. -/
theorem Books.move (hs : Books n s) (hmove : WrapperMove n i before stage s next) :
    Books n next := by
  have hat := hmove.at_stage
  have hlt := (List.getElem?_eq_some_iff.mp hat).1
  have hself : next.stages[i]? = some stage := by
    rw [hmove.stages, List.getElem?_set_self hlt]
  have hothers : ∀ j, i ≠ j → next.stages[j]? = s.stages[j]? := by
    intro j hj
    rw [hmove.stages, List.getElem?_set_ne hj]
  obtain ⟨-, -, hseen⟩ := hs.unresumed hat hmove.unended
  have hremaining := SharedCount.sum_set weight hat stage
  have hhanding := SharedCount.sum_set handWeight hat stage
  rw [← hmove.stages] at hremaining hhanding
  refine { length := ?_, submitted := ?_, created := ?_, unbegun := ?_, idle := ?_, remaining := ?_, handed := ?_,
           recorded := ?_, exception := ?_, resumed := ?_, sees := ?_ }
  · rw [hmove.stages, List.length_set, hs.length]
  · rw [hmove.submitted, hmove.created]
    exact hs.submitted
  · rw [hmove.created]
    exact hs.created
  · rw [hmove.begun, hmove.created]
    exact hs.unbegun
  · intro j hj hjn
    rw [hmove.submitted] at hj
    have hidle := hs.idle j hj hjn
    have hne : i ≠ j := by
      rintro rfl
      exact hmove.launched (Option.some.inj (hat.symm.trans hidle))
    rw [hothers j hne, hidle]
  · have hcounts := hmove.counts
    have hold := hs.remaining
    omega
  · have hhands := hmove.hands
    have hold := hs.handed
    omega
  · intro j other outcome hother houtcome
    by_cases hj : i = j
    · subst hj
      obtain rfl := Option.some.inj (hself.symm.trans hother)
      exact hmove.records outcome houtcome
    · rw [hothers j hj] at hother
      have hrecorded := hs.recorded j other outcome hother houtcome
      cases outcome with
      | ok value => exact (hmove.results j (Ne.symm hj)).trans hrecorded
      | error exception => exact hmove.known hrecorded
  · intro exception hexception
    obtain hold | hnew := hmove.exception exception hexception
    · obtain ⟨j, other, hother, houtcome⟩ := hs.exception exception hold
      by_cases hj : i = j
      · subst hj
        obtain rfl := Option.some.inj (hat.symm.trans hother)
        exact ⟨i, stage, hself, hmove.keeps _ houtcome⟩
      · exact ⟨j, other, (hothers j hj).trans hother, houtcome⟩
    · exact ⟨i, stage, hself, hnew⟩
  · have hresumed := hs.resumed
    have hqueued := hmove.queued
    rw [hmove.seen, hmove.begun]
    omega
  · rw [hmove.seen, hseen]
    exact nofun

theorem books_init [Inhabited V] (n : Nat) : Books n (init n : WhenAll V E) where
  length := List.length_replicate
  submitted := Nat.le_refl _
  created := Nat.zero_le _
  idle i _ hi := List.getElem?_replicate_of_lt hi
  remaining := by simp [init, weight]
  handed := by
    have hnone : due n n = 0 := if_neg (by omega)
    simp [init, handWeight, hnone]
  recorded i stage outcome hstage houtcome := by
    rw [init, List.getElem?_replicate] at hstage
    obtain ⟨-, ⟨⟩⟩ := Option.ite_none_right_eq_some.mp hstage
    exact absurd houtcome nofun
  unbegun _ := rfl
  exception := nofun
  resumed := by simp [init]
  sees := nofun

/-- Nothing has ended before the caller awaits. -/
theorem Books.full (hs : Books n s) (hbegun : s.begun = false) : s.remaining = n := by
  have hsubmitted := hs.submitted
  have hcreated := hs.unbegun hbegun
  have hall : s.stages = List.replicate n .idle := by
    apply List.ext_getElem?
    intro i
    by_cases hi : i < n
    · rw [hs.idle i (by omega) hi, List.getElem?_replicate_of_lt hi]
    · rw [List.getElem?_eq_none (by rw [hs.length]; omega),
        List.getElem?_eq_none (by rw [List.length_replicate]; omega)]
  have hweight : weight (.idle : GatherStage V E) = 1 := rfl
  rw [hs.remaining, hall, List.map_replicate, hweight]
  simp

theorem Books.awaitReady (hs : Books n s) (hbegun : s.begun = false) (hzero : s.remaining = 0) :
    Books n { s with begun := true, seen := s.seen ++ [s.awaitResume] } := by
  have hn : n = 0 := (hs.full hbegun).symm.trans hzero
  refine { hs with unbegun := nofun, resumed := ?_, sees := ?_ }
  · have hresumed := hs.resumed
    rw [if_neg (by simp [hbegun])] at hresumed
    simp only [List.length_append, List.length_singleton, hn, true_and, if_true]
    omega
  · intro resumption hmem
    obtain hold | hnew := List.mem_append.mp hmem
    · exact hs.sees resumption hold
    · rw [List.mem_singleton.mp hnew]
      apply hs.shows
      intro i hi
      omega

theorem Books.awaitSuspend (hs : Books n s) (hbegun : s.begun = false) (hlive : s.remaining ≠ 0) :
    Books n { s with begun := true } := by
  have hn : n ≠ 0 := fun hn => hlive ((hs.full hbegun).trans hn)
  refine { hs with unbegun := nofun, resumed := ?_ }
  have hresumed := hs.resumed
  rw [if_neg (by simp [hn])] at hresumed ⊢
  exact hresumed

theorem Books.create (hs : Books n s) (hbegun : s.begun) (hroom : s.created < n) :
    Books n { s with created := s.created + 1 } :=
  { hs with
    submitted := Nat.le_succ_of_le hs.submitted
    created := hroom
    unbegun := fun hnot => absurd (hnot.symm.trans hbegun) Bool.false_ne_true }

theorem Books.submit (hs : Books n s) (hleft : s.submitted < s.created) :
    Books n { s.setStage s.submitted .ready with submitted := s.submitted + 1 } := by
  have hroom : s.submitted < n := Nat.lt_of_lt_of_le hleft hs.created
  have hidle := hs.idle s.submitted (Nat.le_refl _) hroom
  have hremaining := SharedCount.sum_set weight hidle .ready
  have hhanding := SharedCount.sum_set handWeight hidle .ready
  have hself : (s.setStage s.submitted .ready).stages[s.submitted]? = some .ready :=
    setStage_self hidle
  refine { hs with length := ?_, submitted := hleft, idle := ?_, remaining := ?_, handed := ?_,
                   recorded := ?_, exception := ?_, sees := ?_ }
  · exact List.length_set.trans hs.length
  · intro j hj hjn
    dsimp only at hj ⊢
    rw [setStage_of_ne (by omega)]
    exact hs.idle j (by omega) hjn
  · have hold := hs.remaining
    change _ + 1 = _ + 1 at hremaining
    dsimp only [setStage] at hremaining ⊢
    omega
  · have hold := hs.handed
    change _ + 0 = _ + 0 at hhanding
    dsimp only [setStage] at hhanding ⊢
    omega
  · intro j stage outcome hstage houtcome
    by_cases hj : s.submitted = j
    · subst hj
      obtain rfl := Option.some.inj (hself.symm.trans hstage)
      exact absurd houtcome nofun
    · rw [setStage_of_ne hj] at hstage
      have hrecorded := hs.recorded j stage outcome hstage houtcome
      cases outcome with
      | ok value => exact hrecorded
      | error exception => exact hrecorded
  · intro exception hexception
    obtain ⟨j, stage, hstage, houtcome⟩ := hs.exception exception hexception
    have hj : s.submitted ≠ j := by
      rintro rfl
      obtain rfl := Option.some.inj (hidle.symm.trans hstage)
      exact absurd houtcome nofun
    exact ⟨j, stage, (setStage_of_ne hj).trans hstage, houtcome⟩
  · obtain ⟨-, -, hseen⟩ := hs.unresumed hidle nofun
    dsimp only [setStage]
    rw [hseen]
    exact nofun

theorem Books.resume (hs : Books n s) (hqueued : 0 < s.queued) :
    Books n { s with queued := s.queued - 1, seen := s.seen ++ [s.awaitResume] } := by
  refine { hs with resumed := ?_, sees := ?_ }
  · have hresumed := hs.resumed
    simp only [List.length_append, List.length_singleton]
    omega
  · intro resumption hmem
    obtain hold | hnew := List.mem_append.mp hmem
    · exact hs.sees resumption hold
    · rw [List.mem_singleton.mp hnew]
      apply hs.shows
      apply hs.resumedEnded
      omega

/-- A step on which no outcome is recorded and nothing shared changes. -/
theorem move_early (hi : s.stages[i]? = some before) (hlaunched : before ≠ .idle)
    (hbefore : outcome? before = none) (hstage : outcome? stage = none)
    (hweight : weight before = weight stage) (hhand : handWeight before = handWeight stage)
    (hend : ∀ outcome, before ≠ .ended outcome) :
    WrapperMove n i before stage s (s.setStage i stage) where
  at_stage := hi
  launched := hlaunched
  stages := rfl
  counts := by rw [hweight]; rfl
  hands := by rw [hhand]; rfl
  keeps outcome houtcome := by simp [hbefore] at houtcome
  records outcome houtcome := by simp [hstage] at houtcome
  results _ _ := rfl
  known := id
  exception _ := .inl
  queued := rfl
  unended := hend

theorem move_storeValue {value : V} (hi : s.stages[i]? = some (.storing value)) :
    WrapperMove n i (.storing value) (.counting (.ok value)) s
      { s.setStage i (.counting (.ok value)) with
        results := Function.update s.results i value } where
  at_stage := hi
  launched := nofun
  stages := rfl
  counts := rfl
  hands := rfl
  keeps := nofun
  records outcome houtcome := by
    obtain rfl := Option.some.inj houtcome
    exact Function.update_self ..
  results j hj := Function.update_of_ne hj ..
  known := id
  exception _ := .inl
  queued := rfl

theorem move_known {exception : E} (hi : s.stages[i]? = some (.catching exception))
    (hknown : s.exception.isSome) :
    WrapperMove n i (.catching exception) (.counting (.error exception)) s
      (s.setStage i (.counting (.error exception))) where
  at_stage := hi
  launched := nofun
  stages := rfl
  counts := rfl
  hands := rfl
  keeps := nofun
  records outcome houtcome := by
    obtain rfl := Option.some.inj houtcome
    exact hknown
  results _ _ := rfl
  known := id
  exception _ := .inl
  queued := rfl

theorem move_set {exception : E} (hi : s.stages[i]? = some (.setting exception)) :
    WrapperMove n i (.setting exception) (.counting (.error exception)) s
      { s.setStage i (.counting (.error exception)) with exception := some exception } where
  at_stage := hi
  launched := nofun
  stages := rfl
  counts := rfl
  hands := rfl
  keeps := nofun
  records outcome houtcome := by
    obtain rfl := Option.some.inj houtcome
    rfl
  results _ _ := rfl
  known _ := rfl
  exception other hother := .inr (congrArg (some ∘ Except.error) (Option.some.inj hother))
  queued := rfl

/-- The wrapper that takes `remaining` to zero is the one that hands the caller back. -/
theorem Books.move_count (hs : Books n s) (hi : s.stages[i]? = some (.counting outcome)) :
    WrapperMove n i (.counting outcome)
      (if s.remaining == 1 then .handing outcome else .ended outcome) s
      ({ s with remaining := s.remaining - 1 }.setStage i
        (if s.remaining == 1 then .handing outcome else .ended outcome)) := by
  have hlt : i < n := hs.length ▸ (List.getElem?_eq_some_iff.mp hi).1
  have hpos : 0 < s.remaining := by
    have hsum := SharedCount.sum_set weight hi (.ended outcome)
    change _ + 1 = _ + 0 at hsum
    rw [hs.remaining]
    omega
  have hrecorded := hs.recorded i _ outcome hi rfl
  by_cases hlast : s.remaining = 1
  · simp only [hlast, beq_self_eq_true, if_true]
    refine { at_stage := hi, launched := nofun, stages := rfl, counts := ?_, hands := ?_,
             keeps := fun _ => id, records := ?_, results := fun _ _ => rfl, known := id,
             exception := fun _ => .inl, queued := rfl }
    · change 0 + 1 = s.remaining + 0
      omega
    · change 1 + s.resubmits + s.dropped + due n s.remaining =
        0 + s.resubmits + s.dropped + due n 0
      rw [due_of_pos hpos, due_zero (by omega)]
      omega
    · intro other hother
      obtain rfl := Option.some.inj hother
      exact hrecorded.congr rfl rfl
  · simp only [beq_iff_eq, hlast, if_false]
    refine { at_stage := hi, launched := nofun, stages := rfl, counts := ?_, hands := ?_,
             keeps := fun _ => id, records := ?_, results := fun _ _ => rfl, known := id,
             exception := fun _ => .inl, queued := rfl }
    · change s.remaining - 1 + 1 = s.remaining + 0
      omega
    · change 0 + s.resubmits + s.dropped + due n s.remaining =
        0 + s.resubmits + s.dropped + due n (s.remaining - 1)
      rw [due_of_pos hpos, due_of_pos (by omega)]
    · intro other hother
      obtain rfl := Option.some.inj hother
      exact hrecorded.congr rfl rfl

theorem Books.move_hand (hs : Books n s) (hi : s.stages[i]? = some (.handing outcome))
    (hstages : next.stages = s.stages.set i (.ended outcome))
    (hresults : next.results = s.results) (hexception : next.exception = s.exception)
    (hremaining : next.remaining = s.remaining)
    (hhanded : next.resubmits + next.dropped = s.resubmits + s.dropped + 1)
    (hqueued : next.queued + s.resubmits = s.queued + next.resubmits)
    (hbegun : next.begun = s.begun) (hcreated : next.created = s.created)
    (hsubmitted : next.submitted = s.submitted) (hseen : next.seen = s.seen) :
    WrapperMove n i (.handing outcome) (.ended outcome) s next where
  at_stage := hi
  launched := nofun
  stages := hstages
  counts := congrArg (· + 0) hremaining
  hands := by
    change 0 + _ + _ + _ = 1 + _ + _ + _
    rw [hremaining]
    omega
  keeps _ := id
  records other hother := by
    obtain rfl := Option.some.inj hother
    exact (hs.recorded i _ outcome hi rfl).congr hresults hexception
  results j _ := congrFun hresults j
  known hsome := (congrArg Option.isSome hexception).trans hsome
  exception other hother := .inl (hexception.symm.trans hother)
  queued := hqueued
  begun := hbegun
  created := hcreated
  submitted := hsubmitted
  seen := hseen

theorem Books.step (hs : Books n s) {action : WhenAllAction V E}
    (hstep : WhenAll.step n s action = some next) : Books n next := by
  cases action with
  | await =>
      obtain ⟨hbegun, hrest⟩ := Option.ite_none_left_eq_some.mp hstep
      have hfresh : s.begun = false := by simpa using hbegun
      split at hrest
      case isTrue hzero =>
        obtain rfl := Option.some.inj hrest
        exact hs.awaitReady hfresh hzero
      case isFalse hlive =>
        obtain rfl := Option.some.inj hrest
        exact hs.awaitSuspend hfresh hlive
  | create =>
      obtain ⟨⟨hbegun, -, hroom⟩, ⟨⟩⟩ := Option.ite_none_right_eq_some.mp hstep
      exact hs.create hbegun hroom
  | submit =>
      obtain ⟨hleft, ⟨⟩⟩ := Option.ite_none_right_eq_some.mp hstep
      exact hs.submit hleft
  | start i =>
      simp only [WhenAll.step] at hstep
      split at hstep <;> simp only [Option.some.injEq, reduceCtorEq] at hstep
      rename_i hstage
      subst hstep
      exact hs.move (move_early hstage nofun rfl rfl rfl rfl nofun)
  | finish i outcome =>
      simp only [WhenAll.step] at hstep
      split at hstep <;> simp only [Option.some.injEq, reduceCtorEq] at hstep
      case h_1 value hstage =>
        subst hstep
        exact hs.move (move_early hstage nofun rfl rfl rfl rfl nofun)
      case h_2 exception hstage =>
        subst hstep
        exact hs.move (move_early hstage nofun rfl rfl rfl rfl nofun)
  | store i thrown =>
      simp only [WhenAll.step] at hstep
      split at hstep <;> simp only [Option.some.injEq, reduceCtorEq] at hstep
      case h_1 value hstage =>
        subst hstep
        exact hs.move (move_storeValue hstage)
      case h_2 value exception hstage =>
        subst hstep
        exact hs.move (move_early hstage nofun rfl rfl rfl rfl nofun)
  | check i =>
      simp only [WhenAll.step] at hstep
      split at hstep <;> try contradiction
      rename_i exception hstage
      split at hstep
      case isTrue hknown =>
        obtain rfl := Option.some.inj hstep
        exact hs.move (move_known hstage hknown)
      case isFalse hfirst =>
        obtain rfl := Option.some.inj hstep
        exact hs.move (move_early hstage nofun rfl rfl rfl rfl nofun)
  | set i =>
      simp only [WhenAll.step] at hstep
      split at hstep <;> simp only [Option.some.injEq, reduceCtorEq] at hstep
      rename_i exception hstage
      subst hstep
      exact hs.move (move_set hstage)
  | count i =>
      simp only [WhenAll.step] at hstep
      split at hstep <;> simp only [Option.some.injEq, reduceCtorEq] at hstep
      rename_i outcome hstage
      subst hstep
      exact hs.move (hs.move_count hstage)
  | hand i sched =>
      simp only [WhenAll.step] at hstep
      split at hstep <;> try contradiction
      rename_i outcome hstage
      split at hstep
      case isTrue hsched =>
        obtain rfl := Option.some.inj hstep
        apply hs.move
        refine hs.move_hand hstage rfl rfl rfl rfl ?_ ?_ rfl rfl rfl rfl
        · exact Nat.add_right_comm ..
        · exact Nat.add_right_comm ..
      case isFalse hnone =>
        obtain rfl := Option.some.inj hstep
        apply hs.move
        exact hs.move_hand hstage rfl rfl rfl rfl rfl rfl rfl rfl rfl rfl
  | resume =>
      obtain ⟨hqueued, ⟨⟩⟩ := Option.ite_none_right_eq_some.mp hstep
      exact hs.resume hqueued

theorem Books.gathersOnce (hs : Books n s) : GathersOnce n s where
  atMostOnce := by
    have hhanded := hs.handed
    have hdue : due n s.remaining ≤ 1 := by
      unfold due
      split <;> omega
    omega
  onceEnded hn hended := by
    have hhanded := hs.handed
    have hremaining := hs.remaining
    rw [hs.sum_eq_zero hended fun _ => rfl] at hhanded hremaining
    rw [hremaining, due_zero hn] at hhanded
    omega
  notBefore := hs.ended
  resumed := hs.resumed
  launched hne := by
    have hended : Ended n s := hs.resumedEnded (Nat.add_pos_left (List.length_pos_iff.mpr hne) _)
    by_contra hleft
    have hsubmitted := hs.submitted
    have hcreated := hs.created
    have hidle := hs.idle s.submitted (Nat.le_refl _) (by omega)
    obtain ⟨outcome, hend⟩ := hended s.submitted (by omega)
    exact absurd (hidle.symm.trans hend) nofun
  sees resumption hmem :=
    ⟨hs.resumedEnded (Nat.add_pos_left (List.length_pos_of_mem hmem) _),
      hs.sees resumption hmem⟩

/-- In every run of any number of tasks, whichever threads the wrappers end on. -/
theorem gathersOnce_of_run [Inhabited V] (n : Nat) (word : List (WhenAllAction V E))
    (last : WhenAll V E) (hrun : (machine V E n).run word = some last) :
    GathersOnce n last := by
  apply Books.gathersOnce
  apply (machine V E n).run_preserves (books_init n) _ word hrun
  intro state action next hstate hstep
  exact hstate.step hstep

/-- Both of two tasks fail, and the second to write overrides the exception of the
first, which had read `exception` as empty too. -/
def bothFail : List (WhenAllAction Nat Nat) :=
  [.await, .create, .submit, .start 0, .create, .submit, .start 1, .finish 0 (.error 3),
    .finish 1 (.error 4), .check 0, .check 1, .set 0, .set 1, .count 1, .count 0,
    .hand 0 true, .resume]

set_option maxRecDepth 100000 in
theorem gathersOnce_bothFail :
    (∃ last, (machine Nat Nat 2).run bothFail = some last ∧ last.seen = [.threw 4]) ∧
    ∀ last, (machine Nat Nat 2).run bothFail = some last → GathersOnce 2 last := by
  refine ⟨⟨_, rfl, rfl⟩, fun last hrun => ?_⟩
  exact gathersOnce_of_run 2 bothFail last hrun

end WhenAll

end UltraNet
