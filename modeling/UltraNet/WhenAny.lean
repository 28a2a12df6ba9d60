/-
`when_any`: the awaiting coroutine launches one wrapper per task, and the first
wrapper that claims the result hands the coroutine back to the scheduler of its
own thread, if that thread has one.
-/
import UltraNet.GuardedRun
import Mathlib.Logic.Function.Basic

namespace UltraNet

/-- Where a wrapper is; `co_await task` ends with a value or an exception. -/
inductive WrapperStage (V E : Type) where
  | idle
  | ready
  | running
  | claiming (outcome : Except E V)
  | lost
  | indexing (outcome : Except E V)
  | storing (outcome : Except E V)
  | resubmitting (outcome : Except E V)
  | won (outcome : Except E V)

/-- What `await_resume` gives the caller. -/
inductive Resumption (V E : Type) where
  | returned (winnerIndex : Option Nat) (results : Nat → V)
  | threw (exception : E)

/-- `WhenAnyState` with the awaiter's loop and the wrappers.  `created` tasks
have been moved out of the awaiter's tuple and `submitted` wrappers handed to
the scheduler; `queued` counts the caller's handle in the queues.  `wins`,
`resubmits` and `seen` record what has happened. -/
structure WhenAny (V E : Type) where
  created : Nat
  submitted : Nat
  stages : Nat → WrapperStage V E
  done : Bool
  winnerIndex : Option Nat
  results : Nat → V
  exception : Option E
  queued : Nat
  wins : List Nat
  resubmits : Nat
  seen : List (Resumption V E)

inductive WhenAnyAction (V E : Type) where
  | create
  | submit
  | start (i : Nat)
  | finish (i : Nat) (outcome : Except E V)
  | claim (i : Nat)
  | index (i : Nat)
  | store (i : Nat) (thrown : Option E)
  | resubmit (i : Nat) (sched : Bool)
  | resume

namespace WhenAny

variable {V E : Type}

def init [Inhabited V] : WhenAny V E :=
  ⟨0, 0, fun _ => .idle, false, none, fun _ => default, none, 0, [], 0, []⟩

def setStage (s : WhenAny V E) (i : Nat) (stage : WrapperStage V E) : WhenAny V E :=
  { s with stages := Function.update s.stages i stage }

def awaitResume (s : WhenAny V E) : Resumption V E :=
  match s.exception with
  | some exception => .threw exception
  | none => .returned s.winnerIndex s.results

/-- `create` and `submit` are the two halves of `launch_one`, run by the worker
that suspends the caller; everything else may run on any worker at any time. -/
def step (n : Nat) (s : WhenAny V E) : WhenAnyAction V E → Option (WhenAny V E)
  | .create =>
      if s.created = s.submitted ∧ s.created < n then
        some { s with created := s.created + 1 }
      else none
  | .submit =>
      if s.submitted < s.created then
        some { s.setStage s.submitted .ready with submitted := s.submitted + 1 }
      else none
  | .start i =>
      match s.stages i with
      | .ready => some (s.setStage i .running)
      | _ => none
  | .finish i outcome =>
      match s.stages i with
      | .running => some (s.setStage i (.claiming outcome))
      | _ => none
  | .claim i =>
      match s.stages i with
      | .claiming outcome =>
          if s.done then some (s.setStage i .lost)
          else
            some { s.setStage i (.indexing outcome) with
              done := true
              wins := s.wins ++ [i] }
      | _ => none
  | .index i =>
      match s.stages i with
      | .indexing outcome =>
          some { s.setStage i (.storing outcome) with winnerIndex := some i }
      | _ => none
  | .store i thrown =>
      match s.stages i, thrown with
      | .storing (.ok value), none =>
          some { s.setStage i (.resubmitting (.ok value)) with
            results := Function.update s.results i value }
      -- the move assignment throws: the handler claims once more
      | .storing (.ok _), some exception =>
          some (s.setStage i (.claiming (.error exception)))
      | .storing (.error exception), none =>
          some { s.setStage i (.resubmitting (.error exception)) with
            exception := some exception }
      | _, _ => none
  | .resubmit i sched =>
      match s.stages i with
      | .resubmitting outcome =>
          if sched then
            some { s.setStage i (.won outcome) with
              queued := s.queued + 1
              resubmits := s.resubmits + 1 }
          -- nobody is going to resume the caller
          else some (s.setStage i (.won outcome))
      | _ => none
  | .resume =>
      if 0 < s.queued then
        some { s with queued := s.queued - 1, seen := s.seen ++ [s.awaitResume] }
      else none

def machine (V E : Type) [Inhabited V] (n : Nat) :
    Machine (WhenAny V E) (WhenAnyAction V E) where
  start := init
  step := step n

/-- The winner hands the caller back only after the last task has left the
tuple and on a thread with a scheduler, and the value it stores can be moved
into its slot. -/
def Orderly (n : Nat) (s : WhenAny V E) : WhenAnyAction V E → Prop
  | .resubmit _ sched => s.created = n ∧ sched = true
  | .store _ thrown => thrown.isNone
  | _ => True

instance (n : Nat) (s : WhenAny V E) (action : WhenAnyAction V E) :
    Decidable (Orderly n s action) := by
  unfold Orderly
  split <;> infer_instance

/-- The resumption shows the outcome of this wrapper's task. -/
def Shows (winner : Nat) : Except E V → Resumption V E → Prop
  | .ok value, .returned winnerIndex results =>
      winnerIndex = some winner ∧ results winner = value
  | .error exception, .threw thrown => thrown = exception
  | _, _ => False

def Finished : WrapperStage V E → Prop
  | .lost => True
  | .won _ => True
  | _ => False

/-- A wrapper that has taken part in the claim. -/
def Claimed : WrapperStage V E → Prop
  | .idle => False
  | .ready => False
  | .running => False
  | .claiming _ => False
  | _ => True

/-- What the caller relies on, in a state of a run. -/
structure ResumesOnce (n : Nat) (s : WhenAny V E) : Prop where
  atMostOne : s.wins.length ≤ 1
  exactlyOne : ∀ i, Claimed (s.stages i) → s.wins.length = 1
  resubmitted : s.resubmits ≤ 1
  ended : 0 < n → (∀ i < n, Finished (s.stages i)) → s.resubmits = 1
  resumed : s.seen.length + s.queued = s.resubmits
  sees : ∀ resumption ∈ s.seen, ∃ winner outcome, s.wins = [winner] ∧
    s.stages winner = .won outcome ∧ Shows winner outcome resumption
  launched : s.seen ≠ [] → s.created = n

/-- Before the first claim. -/
structure Unclaimed (s : WhenAny V E) : Prop where
  done : s.done = false
  wins : s.wins = []
  exception : s.exception = none
  queued : s.queued = 0
  resubmits : s.resubmits = 0
  seen : s.seen = []
  pending : ∀ i, ¬ Claimed (s.stages i)

/-- What the winner has written and done so far. -/
def WinnerAt (n winner : Nat) (outcome : Except E V) (s : WhenAny V E) :
    WrapperStage V E → Prop
  | .indexing mine => mine = outcome ∧ s.exception = none ∧ s.resubmits = 0
  | .storing mine => mine = outcome ∧ s.exception = none ∧ s.resubmits = 0 ∧
      s.winnerIndex = some winner
  | .resubmitting mine => mine = outcome ∧ s.resubmits = 0 ∧
      Shows winner outcome s.awaitResume
  | .won mine => mine = outcome ∧ s.resubmits = 1 ∧ s.created = n ∧
      Shows winner outcome s.awaitResume ∧
      ∀ resumption ∈ s.seen, Shows winner outcome resumption
  | _ => False

/-- After the first claim. -/
structure Held (n winner : Nat) (outcome : Except E V) (s : WhenAny V E) :
    Prop where
  done : s.done = true
  wins : s.wins = [winner]
  others : ∀ i, i ≠ winner → ¬ Claimed (s.stages i) ∨ s.stages i = .lost
  counts : s.seen.length + s.queued = s.resubmits
  winner : WinnerAt n winner outcome s (s.stages winner)

/-- The invariant of orderly runs. -/
structure Ledger (n : Nat) (s : WhenAny V E) : Prop where
  submitted : s.submitted ≤ s.created
  created : s.created ≤ n
  idle : ∀ i, s.submitted ≤ i → s.stages i = .idle
  claim : Unclaimed s ∨ ∃ winner outcome, Held n winner outcome s

variable {n winner i : Nat} {outcome : Except E V} {s next : WhenAny V E}
  {stage : WrapperStage V E}

@[simp] theorem setStage_self : (s.setStage i stage).stages i = stage :=
  Function.update_self ..

theorem setStage_of_ne {j : Nat} (hj : j ≠ i) :
    (s.setStage i stage).stages j = s.stages j :=
  Function.update_of_ne hj ..

theorem Held.claimed (hs : Held n winner outcome s) :
    Claimed (s.stages winner) := by
  have hwinner := hs.winner
  cases hstage : s.stages winner <;> rw [hstage] at hwinner
  case idle => exact hwinner
  case ready => exact hwinner
  case running => exact hwinner
  case claiming => exact hwinner
  all_goals trivial

/-- A wrapper that has not claimed moves on to another such stage. -/
theorem Unclaimed.move (hs : Unclaimed s) (hstage : ¬ Claimed stage) :
    Unclaimed (s.setStage i stage) := by
  refine { hs with pending := ?_ }
  intro j
  by_cases hj : j = i
  · rwa [hj, setStage_self]
  · rw [setStage_of_ne hj]
    exact hs.pending j

/-- A wrapper that is not the winner moves on. -/
theorem Held.move (hs : Held n winner outcome s) (hi : ¬ Claimed (s.stages i))
    (hstage : ¬ Claimed stage ∨ stage = .lost) :
    Held n winner outcome (s.setStage i stage) := by
  have hother : winner ≠ i := fun hsame => hi (hsame ▸ hs.claimed)
  refine { hs with others := ?_, winner := ?_ }
  · intro j hj
    by_cases hji : j = i
    · rwa [hji, setStage_self]
    · rw [setStage_of_ne hji]
      exact hs.others j hj
  · rw [setStage_of_ne hother]
    exact hs.winner

/-- The winner moves on. -/
theorem Held.advance (hs : Held n winner outcome s)
    (hsame : next.stages = (s.setStage winner stage).stages)
    (hdone : next.done = s.done) (hwins : next.wins = s.wins)
    (hcounts : next.seen.length + next.queued = next.resubmits)
    (hwinner : WinnerAt n winner outcome next stage) :
    Held n winner outcome next where
  done := hdone.trans hs.done
  wins := hwins.trans hs.wins
  others j hj := by
    rw [hsame, setStage_of_ne hj]
    exact hs.others j hj
  counts := hcounts
  winner := by
    rw [hsame, setStage_self]
    exact hwinner

/-- The wrapper of a step by the winner is the winner. -/
theorem Held.eq_winner (hs : Held n winner outcome s) (hi : Claimed (s.stages i))
    (hlost : s.stages i ≠ .lost) : i = winner := by
  by_contra hne
  exact (hs.others i hne).elim (· hi) hlost

theorem ledger_init [Inhabited V] (n : Nat) : Ledger n (init : WhenAny V E) where
  submitted := Nat.le_refl _
  created := Nat.zero_le _
  idle _ _ := rfl
  claim := .inl ⟨rfl, rfl, rfl, rfl, rfl, rfl, fun _ => id⟩

/-- A step of a launched wrapper. -/
theorem Ledger.wrapper (hs : Ledger n s) (hi : s.stages i ≠ .idle)
    (hcreated : next.created = s.created) (hsubmitted : next.submitted = s.submitted)
    (hstages : next.stages = (s.setStage i stage).stages)
    (hclaim : Unclaimed next ∨ ∃ winner outcome, Held n winner outcome next) :
    Ledger n next where
  submitted := by
    rw [hsubmitted, hcreated]
    exact hs.submitted
  created := hcreated ▸ hs.created
  idle j hj := by
    rw [hsubmitted] at hj
    have hne : j ≠ i := fun hsame => hi (hsame ▸ hs.idle j hj)
    rw [hstages, setStage_of_ne hne]
    exact hs.idle j hj
  claim := hclaim

/-- A wrapper before its claim moves on to a stage before its claim. -/
theorem Ledger.early (hs : Ledger n s) (hi : s.stages i ≠ .idle)
    (hbefore : ¬ Claimed (s.stages i)) (hafter : ¬ Claimed stage) :
    Ledger n (s.setStage i stage) := by
  refine hs.wrapper hi rfl rfl rfl ?_
  obtain hopen | ⟨winner, outcome, hheld⟩ := hs.claim
  · exact .inl (hopen.move hafter)
  · exact .inr ⟨winner, outcome, hheld.move hbefore (.inl hafter)⟩

theorem Ledger.create (hs : Ledger n s) (hroom : s.created < n) :
    Ledger n { s with created := s.created + 1 } := by
  refine { hs with submitted := Nat.le_succ_of_le hs.submitted, created := hroom,
                   claim := ?_ }
  obtain hopen | ⟨winner, outcome, hheld⟩ := hs.claim
  · exact .inl { hopen with }
  · refine .inr ⟨winner, outcome, { hheld with winner := ?_ }⟩
    have hwinner := hheld.winner
    cases hstage : s.stages winner <;> simp only [hstage, WinnerAt] at hwinner ⊢
    case won => exact absurd hwinner.2.2.1 (Nat.ne_of_lt hroom)
    all_goals exact hwinner

theorem Ledger.submit (hs : Ledger n s) (hleft : s.submitted < s.created) :
    Ledger n { s.setStage s.submitted .ready with submitted := s.submitted + 1 } := by
  have hidle := hs.idle s.submitted (Nat.le_refl _)
  have hbefore : ¬ Claimed (s.stages s.submitted) := by
    rw [hidle]
    exact id
  refine ⟨hleft, hs.created, ?_, ?_⟩
  · intro j hj
    dsimp only at hj ⊢
    rw [setStage_of_ne (by omega)]
    exact hs.idle j (by omega)
  · obtain hopen | ⟨winner, outcome, hheld⟩ := hs.claim
    · have hmoved : Unclaimed (s.setStage s.submitted .ready) := hopen.move id
      exact .inl { hmoved with }
    · have hmoved : Held n winner outcome (s.setStage s.submitted .ready) :=
        hheld.move hbefore (.inl id)
      exact .inr ⟨winner, outcome, { hmoved with }⟩

theorem Ledger.claimStep (hs : Ledger n s) (hstage : s.stages i = .claiming outcome)
    (hstep : step n s (.claim i) = some next) : Ledger n next := by
  have hlaunched : s.stages i ≠ .idle := by simp [hstage]
  have hbefore : ¬ Claimed (s.stages i) := by
    rw [hstage]
    exact id
  simp only [step, hstage] at hstep
  obtain hopen | ⟨winner, outcome', hheld⟩ := hs.claim
  · rw [hopen.done, if_neg (by decide)] at hstep
    obtain rfl := Option.some.inj hstep
    refine hs.wrapper hlaunched rfl rfl rfl ?_
    refine .inr ⟨i, outcome, ⟨rfl, ?_, ?_, ?_, ?_⟩⟩
    · simp [hopen.wins]
    · intro j hj
      dsimp only
      rw [setStage_of_ne hj]
      exact .inl (hopen.pending j)
    · dsimp only [setStage]
      rw [hopen.seen, hopen.queued, hopen.resubmits]
      rfl
    · dsimp only
      rw [setStage_self]
      exact ⟨rfl, hopen.exception, hopen.resubmits⟩
  · rw [hheld.done, if_pos rfl] at hstep
    obtain rfl := Option.some.inj hstep
    refine hs.wrapper hlaunched rfl rfl rfl ?_
    exact .inr ⟨winner, outcome', hheld.move hbefore (.inr rfl)⟩

/-- A step of the winner, from what holds at its stage to what holds at the next. -/
theorem Ledger.winnerStep {before : WrapperStage V E} (hs : Ledger n s)
    (hstage : s.stages i = before) (hi : Claimed before) (hlost : before ≠ .lost)
    (hcreated : next.created = s.created) (hsubmitted : next.submitted = s.submitted)
    (hstages : next.stages = (s.setStage i stage).stages)
    (hdone : next.done = s.done) (hwins : next.wins = s.wins)
    (hcounts : s.seen.length + s.queued = s.resubmits →
      next.seen.length + next.queued = next.resubmits)
    (hwinner : ∀ outcome, Held n i outcome s → WinnerAt n i outcome s before →
      WinnerAt n i outcome next stage) :
    Ledger n next := by
  subst hstage
  have hlaunched : s.stages i ≠ .idle := fun hidle => by
    rw [hidle] at hi
    exact hi
  apply hs.wrapper hlaunched hcreated hsubmitted hstages
  obtain hopen | ⟨winner, outcome, hheld⟩ := hs.claim
  · exact absurd hi (hopen.pending i)
  · obtain rfl := hheld.eq_winner hi hlost
    exact .inr ⟨i, outcome, hheld.advance hstages hdone hwins
      (hcounts hheld.counts) (hwinner outcome hheld hheld.winner)⟩

theorem Ledger.indexStep (hs : Ledger n s)
    (hstage : s.stages i = .indexing outcome) :
    Ledger n { s.setStage i (.storing outcome) with winnerIndex := some i } := by
  refine hs.winnerStep hstage trivial nofun rfl rfl rfl rfl rfl id ?_
  intro outcome' _ hwinner
  exact ⟨hwinner.1, hwinner.2.1, hwinner.2.2, rfl⟩

theorem Ledger.storeValue {value : V} (hs : Ledger n s)
    (hstage : s.stages i = .storing (.ok value)) :
    Ledger n { s.setStage i (.resubmitting (.ok value)) with
      results := Function.update s.results i value } := by
  refine hs.winnerStep hstage trivial nofun rfl rfl rfl rfl rfl id ?_
  intro outcome' _ hwinner
  obtain ⟨rfl, hnone, hzero, hindex⟩ := hwinner
  refine ⟨rfl, hzero, ?_⟩
  simp only [awaitResume, setStage, hnone]
  exact ⟨hindex, Function.update_self ..⟩

theorem Ledger.storeException {exception : E} (hs : Ledger n s)
    (hstage : s.stages i = .storing (.error exception)) :
    Ledger n { s.setStage i (.resubmitting (.error exception)) with
      exception := some exception } := by
  refine hs.winnerStep hstage trivial nofun rfl rfl rfl rfl rfl id ?_
  intro outcome' _ hwinner
  obtain ⟨rfl, -, hzero, -⟩ := hwinner
  exact ⟨rfl, hzero, rfl⟩

theorem Ledger.resubmitStep (hs : Ledger n s)
    (hstage : s.stages i = .resubmitting outcome) (hall : s.created = n) :
    Ledger n { s.setStage i (.won outcome) with
      queued := s.queued + 1
      resubmits := s.resubmits + 1 } := by
  refine hs.winnerStep hstage trivial nofun rfl rfl rfl rfl rfl ?_ ?_
  · intro hcounts
    dsimp only [setStage]
    omega
  · intro outcome' hheld hwinner
    obtain ⟨rfl, hzero, hshows⟩ := hwinner
    have hcounts := hheld.counts
    have hnil : s.seen = [] := List.length_eq_zero_iff.mp (by omega)
    refine ⟨rfl, ?_, hall, hshows, ?_⟩
    · dsimp only
      omega
    · intro resumption hmem
      exact absurd hmem (by simp [setStage, hnil])

theorem Ledger.resumeStep (hs : Ledger n s) (hqueued : 0 < s.queued) :
    Ledger n { s with queued := s.queued - 1, seen := s.seen ++ [s.awaitResume] } := by
  refine { hs with claim := ?_ }
  obtain hopen | ⟨winner, outcome, hheld⟩ := hs.claim
  · exact absurd hopen.queued (Nat.ne_of_gt hqueued)
  · have hcounts := hheld.counts
    refine .inr ⟨winner, outcome, { hheld with counts := ?_, winner := ?_ }⟩
    · simp only [List.length_append, List.length_singleton]
      omega
    · -- the handle is queued only once the winner is done
      have hwinner := hheld.winner
      cases hstage : s.stages winner <;> simp only [hstage, WinnerAt] at hwinner ⊢
      case won =>
        obtain ⟨hmine, hone, hall, hshows, hseen⟩ := hwinner
        refine ⟨hmine, hone, hall, hshows, ?_⟩
        intro resumption hmem
        obtain hold | hnew := List.mem_append.mp hmem
        · exact hseen resumption hold
        · rw [List.mem_singleton.mp hnew]
          exact hshows
      all_goals exfalso; omega

theorem Ledger.step (hs : Ledger n s) {action : WhenAnyAction V E}
    (horderly : Orderly n s action) (hstep : WhenAny.step n s action = some next) :
    Ledger n next := by
  cases action with
  | create =>
      obtain ⟨⟨-, hroom⟩, ⟨⟩⟩ := Option.ite_none_right_eq_some.mp hstep
      exact hs.create hroom
  | submit =>
      obtain ⟨hleft, ⟨⟩⟩ := Option.ite_none_right_eq_some.mp hstep
      exact hs.submit hleft
  | start i =>
      simp only [WhenAny.step] at hstep
      split at hstep <;> simp only [Option.some.injEq, reduceCtorEq] at hstep
      rename_i hstage
      subst hstep
      exact hs.early (by simp [hstage]) (by rw [hstage]; exact id) id
  | finish i outcome =>
      simp only [WhenAny.step] at hstep
      split at hstep <;> simp only [Option.some.injEq, reduceCtorEq] at hstep
      rename_i hstage
      subst hstep
      exact hs.early (by simp [hstage]) (by rw [hstage]; exact id) id
  | claim i =>
      cases hstage : s.stages i
      case claiming outcome => exact hs.claimStep hstage hstep
      all_goals simp [WhenAny.step, hstage] at hstep
  | index i =>
      simp only [WhenAny.step] at hstep
      split at hstep <;> simp only [Option.some.injEq, reduceCtorEq] at hstep
      rename_i hstage
      subst hstep
      exact hs.indexStep hstage
  | store i thrown =>
      obtain rfl := Option.isNone_iff_eq_none.mp horderly
      cases hstage : s.stages i
      case storing outcome =>
        cases outcome with
        | ok value =>
            simp only [WhenAny.step, hstage, Option.some.injEq] at hstep
            subst hstep
            exact hs.storeValue hstage
        | error exception =>
            simp only [WhenAny.step, hstage, Option.some.injEq] at hstep
            subst hstep
            exact hs.storeException hstage
      all_goals simp [WhenAny.step, hstage] at hstep
  | resubmit i sched =>
      obtain ⟨hall, rfl⟩ := horderly
      simp only [WhenAny.step, if_true] at hstep
      split at hstep <;> simp only [Option.some.injEq, reduceCtorEq] at hstep
      rename_i hstage
      subst hstep
      exact hs.resubmitStep hstage hall
  | resume =>
      obtain ⟨hqueued, ⟨⟩⟩ := Option.ite_none_right_eq_some.mp hstep
      exact hs.resumeStep hqueued

theorem Ledger.resumesOnce (hs : Ledger n s) : ResumesOnce n s := by
  obtain hopen | ⟨winner, outcome, hheld⟩ := hs.claim
  · refine ⟨?_, fun i hi => absurd hi (hopen.pending i), ?_, ?_, ?_, ?_, ?_⟩
    · simp [hopen.wins]
    · simp [hopen.resubmits]
    · intro hn hended
      have hfinished := hended 0 hn
      have hpending := hopen.pending 0
      cases hstage : s.stages 0 <;> rw [hstage] at hfinished hpending
      case lost => exact absurd trivial hpending
      case won => exact absurd trivial hpending
      all_goals exact hfinished.elim
    · simp [hopen.seen, hopen.queued, hopen.resubmits]
    · simp [hopen.seen]
    · simp [hopen.seen]
  · have hwinner := hheld.winner
    have hcounts := hheld.counts
    have hsmall : s.resubmits ≤ 1 := by
      cases hstage : s.stages winner <;>
        simp only [hstage, WinnerAt] at hwinner <;> omega
    -- a resumption comes after the winner's last step
    have hresumed : s.seen ≠ [] → ∃ mine, s.stages winner = .won mine := by
      intro hne
      have hpos := List.length_pos_iff.mpr hne
      cases hstage : s.stages winner <;> simp only [hstage, WinnerAt] at hwinner
      case won mine => exact ⟨mine, rfl⟩
      all_goals omega
    refine ⟨?_, fun i hi => ?_, hsmall, ?_, hcounts, ?_, ?_⟩
    · simp [hheld.wins]
    · simp [hheld.wins]
    · intro _ hended
      have hlaunched : winner < n := by
        by_contra hge
        have hidle := hs.idle winner
          (Nat.le_trans hs.submitted (Nat.le_trans hs.created (Nat.not_lt.mp hge)))
        rw [hidle] at hwinner
        exact hwinner
      have hfinished := hended winner hlaunched
      cases hstage : s.stages winner <;> rw [hstage] at hwinner hfinished
      case won => exact hwinner.2.1
      all_goals first | exact hfinished.elim | exact hwinner.elim
    · intro resumption hmem
      obtain ⟨mine, hstage⟩ := hresumed (List.ne_nil_of_mem hmem)
      rw [hstage] at hwinner
      obtain ⟨rfl, -, -, -, hseen⟩ := hwinner
      exact ⟨winner, mine, hheld.wins, hstage, hseen resumption hmem⟩
    · intro hne
      obtain ⟨mine, hstage⟩ := hresumed hne
      rw [hstage] at hwinner
      exact hwinner.2.2.1

/-- In every run of any number of tasks in which the caller is handed back only
after the last task has been launched, and on a thread with a scheduler. -/
theorem resumesOnce_of_orderly [Inhabited V] (n : Nat)
    (word : List (WhenAnyAction V E)) (last : WhenAny V E)
    (horderly : (machine V E n).Meets (Orderly n) word)
    (hrun : (machine V E n).run word = some last) : ResumesOnce n last := by
  apply Ledger.resumesOnce
  refine Machine.run_invariant (machine V E n) (ledger_init n) ?_ word horderly hrun
  intro state action next hstate hguard hstep
  exact hstate.step hguard hstep

/-- The second of two tasks wins, the first then fails. -/
def secondWins : List (WhenAnyAction Nat Nat) :=
  [.create, .submit, .create, .submit, .start 1, .finish 1 (.ok 7),
    .claim 1, .start 0,
    .index 1, .store 1 none, .finish 0 (.error 3), .resubmit 1 true, .claim 0, .resume]

set_option maxRecDepth 100000 in
theorem resumesOnce_secondWins :
    (∃ last, (machine Nat Nat 2).run secondWins = some last ∧ last.wins = [1] ∧
      last.seen.length = 1) ∧
    ∀ last, (machine Nat Nat 2).run secondWins = some last → ResumesOnce 2 last := by
  refine ⟨⟨_, rfl, rfl, rfl⟩, fun last hrun => ?_⟩
  exact resumesOnce_of_orderly 2 secondWins last (by decide) hrun

/-- The first wrapper is stolen and the caller runs on while the second task is
still to be launched. -/
def stolenEarly : List (WhenAnyAction Nat Nat) :=
  [.create, .submit, .start 0, .finish 0 (.ok 7), .claim 0, .index 0, .store 0 none,
    .resubmit 0 true, .resume]

theorem stolenEarly_resumes :
    ∃ last, (machine Nat Nat 2).run stolenEarly = some last ∧
      last.created = 1 ∧ last.seen.length = 1 ∧ ¬ ResumesOnce 2 last := by
  refine ⟨_, rfl, rfl, rfl, fun honce => ?_⟩
  exact absurd (honce.launched (List.cons_ne_nil _ _)) (by decide)

end WhenAny

end UltraNet
