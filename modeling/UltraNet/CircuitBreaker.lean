/-
The circuit breaker: its counters and flags, and the laws of a trace of calls.
Times are nanoseconds of the steady clock.
-/
import UltraNet.GuardedRun
import Mathlib.Algebra.Group.Int.Defs
import Mathlib.Algebra.Group.Nat.Defs

namespace UltraNet

inductive CircuitState where
  | closed
  | open
  | halfOpen
deriving DecidableEq

/-- `openTimeout` is in milliseconds. -/
structure BreakerConfig where
  failureThreshold : UInt64
  openTimeout : Int

namespace BreakerConfig

def timeoutNs (config : BreakerConfig) : Int := config.openTimeout * 1000000

/-- `duration_cast` to a 64-bit count of nanoseconds. -/
def openNs (config : BreakerConfig) : Int := config.timeoutNs.bmod (2 ^ 64)

end BreakerConfig

structure CircuitBreaker where
  state : CircuitState
  failureCount : UInt64
  successCount : UInt64
  fastFailCount : UInt64
  halfOpenAttempts : UInt64
  halfOpenUsed : UInt64
  lastFailureTimeNs : Int

namespace CircuitBreaker

def init : CircuitBreaker := ⟨.closed, 0, 0, 0, 0, 0, 0⟩

def fastFail (b : CircuitBreaker) : Bool × CircuitBreaker :=
  (false, { b with fastFailCount := b.fastFailCount + 1 })

def tryAcquire (config : BreakerConfig) (b : CircuitBreaker) (now : Int) :
    Bool × CircuitBreaker :=
  match b.state with
  | .closed => (true, b)
  | .open =>
      if 0 < b.lastFailureTimeNs ∧ config.openNs ≤ now - b.lastFailureTimeNs then
        (true, { b with
          state := .halfOpen
          halfOpenUsed := 0
          halfOpenAttempts := b.halfOpenAttempts + 1 })
      else b.fastFail
  | .halfOpen =>
      let used := b.halfOpenUsed
      let b := { b with halfOpenUsed := used + 1 }
      if used < 1 then
        (true, { b with halfOpenAttempts := b.halfOpenAttempts + 1 })
      else b.fastFail

def onSuccess (b : CircuitBreaker) : CircuitBreaker :=
  { b with
    successCount := b.successCount + 1
    failureCount := 0
    state := if b.state = .halfOpen then .closed else b.state }

def trip (b : CircuitBreaker) (now : Int) : CircuitBreaker :=
  { b with lastFailureTimeNs := now, state := .open }

def onFailure (config : BreakerConfig) (b : CircuitBreaker) (now : Int) :
    CircuitBreaker :=
  let b := { b with failureCount := b.failureCount + 1 }
  match b.state with
  | .closed => if config.failureThreshold ≤ b.failureCount then b.trip now else b
  | .halfOpen => b.trip now
  | .open => b

def reset (b : CircuitBreaker) : CircuitBreaker :=
  { b with
    state := .closed
    failureCount := 0
    lastFailureTimeNs := 0
    halfOpenUsed := 0 }

end CircuitBreaker

inductive BreakerCall where
  | tryAcquire
  | onSuccess
  | onFailure
  | reset
deriving DecidableEq

/-- A call with the state before and after it; `granted` is the result of
`try_acquire`. -/
structure BreakerEvent where
  now : Int
  call : BreakerCall
  before : CircuitState
  after : CircuitState
  granted : Bool
deriving DecidableEq

/-- The breaker, the time of the last call and the trace, which is a ghost. -/
structure BreakerRun where
  breaker : CircuitBreaker
  clock : Int
  trace : List BreakerEvent

namespace BreakerRun

def call (config : BreakerConfig) (b : CircuitBreaker) (now : Int) :
    BreakerCall → Bool × CircuitBreaker
  | .tryAcquire => b.tryAcquire config now
  | .onSuccess => (false, b.onSuccess)
  | .onFailure => (false, b.onFailure config now)
  | .reset => (false, b.reset)

/-- The clock is positive and does not go back. -/
def step (config : BreakerConfig) (run : BreakerRun) :
    Int × BreakerCall → Option BreakerRun
  | (now, call) =>
      if 0 < now ∧ run.clock ≤ now then
        let (granted, breaker) := BreakerRun.call config run.breaker now call
        some ⟨breaker, now,
          run.trace ++ [⟨now, call, run.breaker.state, breaker.state, granted⟩]⟩
      else none

def machine (config : BreakerConfig) : Machine BreakerRun (Int × BreakerCall) :=
  ⟨⟨.init, 0, []⟩, step config⟩

end BreakerRun

/-- The failures since the last success or reset. -/
def failuresSince (trace : List BreakerEvent) : Nat :=
  trace.foldl (fun failures event =>
    match event.call with
    | .tryAcquire => failures
    | .onFailure => failures + 1
    | .onSuccess | .reset => 0) 0

/-- When the breaker last became open. -/
def openedAt (trace : List BreakerEvent) : Option Int :=
  trace.foldl (fun opened event =>
    if event.before ≠ .open ∧ event.after = .open then some event.now
    else opened) none

/-- The breaker trips at the failure that makes the threshold, and at no other
call. -/
def FailureLaw (config : BreakerConfig) (trace : List BreakerEvent) : Prop :=
  ∀ earlier event later, trace = earlier ++ event :: later →
    (event.before = .closed ∧ event.after = .open ↔
      event.before = .closed ∧ event.call = .onFailure ∧
        failuresSince earlier + 1 = config.failureThreshold.toNat)

/-- An open breaker grants nothing before the timeout has passed. -/
def TimeoutLaw (config : BreakerConfig) (trace : List BreakerEvent) : Prop :=
  ∀ earlier event later, trace = earlier ++ event :: later →
    event.before = .open → event.granted →
      ∃ opened, openedAt earlier = some opened ∧
        config.timeoutNs ≤ event.now - opened

def BreakerEvent.IsProbe (event : BreakerEvent) : Prop :=
  event.granted ∧ event.after = .halfOpen

/-- Between two grants of a half-open breaker an outcome is reported, or it is
reset. -/
def ProbeLaw (trace : List BreakerEvent) : Prop :=
  ∀ earlier first middle second later,
    trace = earlier ++ first :: (middle ++ second :: later) →
      first.IsProbe → second.IsProbe → ∃ event ∈ middle, event.call ≠ .tryAcquire

structure TraceLaw (config : BreakerConfig) (trace : List BreakerEvent) : Prop where
  failure : FailureLaw config trace
  timeout : TimeoutLaw config trace
  probe : ProbeLaw trace

/-- `try_acquire` is never called on a half-open breaker. -/
def NoSecondAcquire (trace : List BreakerEvent) : Prop :=
  ∀ event ∈ trace, event.before = .halfOpen → event.call ≠ .tryAcquire

instance (trace : List BreakerEvent) : Decidable (NoSecondAcquire trace) :=
  inferInstanceAs (Decidable (∀ event ∈ trace, _ → _))

/-- A law about every event and what came before it, when an event is added. -/
theorem forall_split_concat {α : Type*} {P : List α → α → Prop} {trace : List α}
    {event : α} :
    (∀ earlier x later, trace ++ [event] = earlier ++ x :: later → P earlier x) ↔
      (∀ earlier x later, trace = earlier ++ x :: later → P earlier x) ∧
        P trace event := by
  constructor
  · intro hall
    refine ⟨?_, hall trace event [] rfl⟩
    rintro earlier x later rfl
    exact hall earlier x (later ++ [event]) (by simp)
  · rintro ⟨hold, hnew⟩ earlier x later heq
    rcases List.eq_nil_or_concat later with rfl | ⟨rest, last, rfl⟩
    · obtain ⟨rfl, hsingle⟩ := List.append_inj' heq rfl
      obtain rfl := List.singleton_inj.mp hsingle
      exact hnew
    · refine hold earlier x rest ?_
      have hshape : earlier ++ x :: (rest ++ [last]) =
          (earlier ++ x :: rest) ++ [last] := by simp
      rw [List.concat_eq_append, hshape] at heq
      exact (List.append_inj' heq rfl).1

theorem failuresSince_concat (trace : List BreakerEvent) (event : BreakerEvent) :
    failuresSince (trace ++ [event]) =
      match event.call with
      | .tryAcquire => failuresSince trace
      | .onFailure => failuresSince trace + 1
      | .onSuccess | .reset => 0 := by
  rw [failuresSince, List.foldl_concat]
  rfl

theorem openedAt_concat (trace : List BreakerEvent) (event : BreakerEvent) :
    openedAt (trace ++ [event]) =
      if event.before ≠ .open ∧ event.after = .open then some event.now
      else openedAt trace := by
  rw [openedAt, List.foldl_concat]
  rfl

/-- Every probe before this point was followed by a report. -/
def Reported (trace : List BreakerEvent) : Prop :=
  ∀ earlier first middle, trace = earlier ++ first :: middle → first.IsProbe →
    ∃ event ∈ middle, event.call ≠ .tryAcquire

theorem probeLaw_iff {trace : List BreakerEvent} :
    ProbeLaw trace ↔ ∀ before second later, trace = before ++ second :: later →
      second.IsProbe → Reported before := by
  constructor
  · rintro hlaw before second later rfl hsecond earlier first middle rfl hfirst
    exact hlaw earlier first middle second later (by simp) hfirst hsecond
  · rintro hlaw earlier first middle second later rfl hfirst hsecond
    exact hlaw (earlier ++ first :: middle) second later (by simp) hsecond earlier
      first middle rfl hfirst

theorem probeLaw_concat {trace : List BreakerEvent} {event : BreakerEvent} :
    ProbeLaw (trace ++ [event]) ↔
      ProbeLaw trace ∧ (event.IsProbe → Reported trace) := by
  rw [probeLaw_iff, probeLaw_iff]
  exact forall_split_concat (P := fun before second =>
    second.IsProbe → Reported before)

theorem Reported.concat {trace : List BreakerEvent} (hreported : Reported trace)
    {event : BreakerEvent} (hnot : ¬ event.IsProbe) :
    Reported (trace ++ [event]) := by
  intro earlier first middle heq hfirst
  rcases List.eq_nil_or_concat middle with rfl | ⟨rest, last, rfl⟩
  · have hlast := List.singleton_inj.mp (List.append_inj' heq rfl).2
    rw [hlast] at hnot
    exact absurd hfirst hnot
  · have hshape : earlier ++ first :: (rest ++ [last]) =
        (earlier ++ first :: rest) ++ [last] := by simp
    rw [List.concat_eq_append, hshape] at heq
    obtain ⟨report, hmem, hcall⟩ :=
      hreported earlier first rest (List.append_inj' heq rfl).1 hfirst
    exact ⟨report, by simp [hmem], hcall⟩

/-- A report follows every probe there was. -/
theorem reported_concat {trace : List BreakerEvent} {event : BreakerEvent}
    (hcall : event.call ≠ .tryAcquire) (hnot : ¬ event.IsProbe) :
    Reported (trace ++ [event]) := by
  intro earlier first middle heq hfirst
  rcases List.eq_nil_or_concat middle with rfl | ⟨rest, last, rfl⟩
  · have hlast := List.singleton_inj.mp (List.append_inj' heq rfl).2
    rw [hlast] at hnot
    exact absurd hfirst hnot
  · have hshape : earlier ++ first :: (rest ++ [last]) =
        (earlier ++ first :: rest) ++ [last] := by simp
    rw [List.concat_eq_append, hshape] at heq
    have hlast := List.singleton_inj.mp (List.append_inj' heq rfl).2
    exact ⟨last, by simp, hlast ▸ hcall⟩

theorem noSecondAcquire_concat {trace : List BreakerEvent} {event : BreakerEvent} :
    NoSecondAcquire (trace ++ [event]) ↔
      NoSecondAcquire trace ∧
        (event.before = .halfOpen → event.call ≠ .tryAcquire) := by
  simp [NoSecondAcquire, or_imp, forall_and]

/-- How the calls go on from a state: the counter of a closed breaker is that of
the trace, the time of an open one that of its last trip. -/
structure Tracked (config : BreakerConfig) (b : CircuitBreaker)
    (trace : List BreakerEvent) : Prop where
  closed : b.state = .closed → b.failureCount.toNat = failuresSince trace ∧
    failuresSince trace < config.failureThreshold.toNat
  opened : b.state = .open → openedAt trace = some b.lastFailureTimeNs
  -- the first probe of a half-open breaker is the last event
  probed : b.state = .halfOpen → NoSecondAcquire trace →
    b.halfOpenUsed = 0 ∧ ¬ Reported trace
  reported : b.state ≠ .halfOpen → NoSecondAcquire trace → Reported trace

/-- The event of a call. -/
def BreakerRun.event (config : BreakerConfig) (b : CircuitBreaker) (now : Int)
    (call : BreakerCall) : BreakerEvent :=
  let result := BreakerRun.call config b now call
  ⟨now, call, b.state, result.2.state, result.1⟩

section Calls

variable {config : BreakerConfig} {b : CircuitBreaker} {trace : List BreakerEvent}
  {now : Int}

open BreakerRun

/-- A closed breaker counts the failure, or trips. -/
theorem Tracked.onFailure_closed (hb : Tracked config b trace)
    (hstate : b.state = .closed) :
    ((b.failureCount + 1).toNat = failuresSince trace + 1) ∧
      (config.failureThreshold ≤ b.failureCount + 1 ↔
        failuresSince trace + 1 = config.failureThreshold.toNat) := by
  obtain ⟨hcount, hlt⟩ := hb.closed hstate
  have hthreshold := config.failureThreshold.toNat_lt
  have hnext : (b.failureCount + 1).toNat = failuresSince trace + 1 := by
    rw [UInt64.toNat_add, hcount]
    exact Nat.mod_eq_of_lt (by simp only [UInt64.toNat_one]; omega)
  refine ⟨hnext, ?_⟩
  rw [UInt64.le_iff_toNat_le, hnext]
  omega

theorem Tracked.failure (hb : Tracked config b trace) (call : BreakerCall) :
    (event config b now call).before = .closed ∧
        (event config b now call).after = .open ↔
      (event config b now call).before = .closed ∧
        (event config b now call).call = .onFailure ∧
        failuresSince trace + 1 = config.failureThreshold.toNat := by
  refine and_congr_right fun hstate => ?_
  have hclosed : b.state = .closed := hstate
  cases call with
  | tryAcquire => simp [event, BreakerRun.call, CircuitBreaker.tryAcquire, hclosed]
  | onSuccess => simp [event, BreakerRun.call, CircuitBreaker.onSuccess, hclosed]
  | reset => simp [event, BreakerRun.call, CircuitBreaker.reset]
  | onFailure =>
      have htrips := (hb.onFailure_closed hclosed).2
      simp only [event, BreakerRun.call, CircuitBreaker.onFailure, hclosed, true_and]
      rw [← htrips]
      split <;> simp_all [CircuitBreaker.trip]

theorem Tracked.timeout (hb : Tracked config b trace)
    (hfits : config.openNs = config.timeoutNs) (call : BreakerCall)
    (hbefore : (event config b now call).before = .open)
    (hgranted : (event config b now call).granted) :
    ∃ opened, openedAt trace = some opened ∧
      config.timeoutNs ≤ (event config b now call).now - opened := by
  have hopen : b.state = .open := hbefore
  refine ⟨b.lastFailureTimeNs, hb.opened hopen, ?_⟩
  cases call with
  | tryAcquire =>
      simp only [event, BreakerRun.call, CircuitBreaker.tryAcquire,
        hopen] at hgranted
      split at hgranted
      next hpassed =>
        rw [← hfits]
        exact hpassed.2
      next => cases hgranted
  | onSuccess => cases hgranted
  | onFailure => cases hgranted
  | reset => cases hgranted

/-- A report leaves a half-open breaker. -/
theorem not_isProbe_report {call : BreakerCall} (hcall : call ≠ .tryAcquire) :
    ¬ (event config b now call).IsProbe := by
  rintro ⟨hgranted, -⟩
  cases call with
  | tryAcquire => exact hcall rfl
  | onSuccess => cases hgranted
  | onFailure => cases hgranted
  | reset => cases hgranted

theorem reported_report {call : BreakerCall} (hcall : call ≠ .tryAcquire) :
    Reported (trace ++ [event config b now call]) :=
  reported_concat hcall (not_isProbe_report hcall)

theorem threshold_pos (hthreshold : 1 ≤ config.failureThreshold) :
    0 < config.failureThreshold.toNat :=
  UInt64.le_iff_toNat_le.mp hthreshold

theorem Tracked.tryAcquire (hb : Tracked config b trace) :
    Tracked config (b.tryAcquire config now).2
      (trace ++ [event config b now .tryAcquire]) := by
  have hsame : ∀ {b' : CircuitBreaker}, b'.state = b.state →
      b'.failureCount = b.failureCount → b'.lastFailureTimeNs = b.lastFailureTimeNs →
      b.state ≠ .halfOpen → event config b now .tryAcquire =
        ⟨now, .tryAcquire, b.state, b.state, (b.tryAcquire config now).1⟩ →
      Tracked config b' (trace ++ [event config b now .tryAcquire]) := by
    intro b' hstate hcount htime hnot hevent
    have hprobe : ¬ (event config b now .tryAcquire).IsProbe := by
      rw [hevent]
      exact fun h => hnot h.2
    constructor
    · rw [hstate, hcount, failuresSince_concat]
      exact hb.closed
    · rw [hstate, htime, openedAt_concat, hevent]
      intro hopen
      rw [if_neg (by simp [hopen])]
      exact hb.opened hopen
    · exact fun h => absurd (hstate ▸ h) hnot
    · intro _ hquiet
      exact (hb.reported hnot (noSecondAcquire_concat.mp hquiet).1).concat hprobe
  cases hstate : b.state with
  | closed =>
      have hresult : b.tryAcquire config now = (true, b) := by
        simp [CircuitBreaker.tryAcquire, hstate]
      rw [hresult]
      refine hsame rfl rfl rfl (by simp [hstate]) ?_
      simp [event, BreakerRun.call, hresult]
  | «open» =>
      by_cases hpassed : 0 < b.lastFailureTimeNs ∧
          config.openNs ≤ now - b.lastFailureTimeNs
      · have hresult : b.tryAcquire config now = (true, { b with
            state := .halfOpen
            halfOpenUsed := 0
            halfOpenAttempts := b.halfOpenAttempts + 1 }) := by
          simp [CircuitBreaker.tryAcquire, hstate, hpassed]
        rw [hresult]
        constructor
        · nofun
        · nofun
        · intro _ _
          refine ⟨rfl, ?_⟩
          intro hreported
          obtain ⟨report, hmem, -⟩ := hreported trace _ [] rfl
            (by simp [BreakerEvent.IsProbe, event, BreakerRun.call, hresult])
          cases hmem
        · exact fun h => absurd rfl h
      · have hresult : b.tryAcquire config now = b.fastFail := by
          simp [CircuitBreaker.tryAcquire, hstate, hpassed]
        rw [hresult]
        refine hsame rfl rfl rfl (by simp [hstate]) ?_
        simp [event, BreakerRun.call, hresult, CircuitBreaker.fastFail]
  | halfOpen =>
      have hafter : (b.tryAcquire config now).2.state = .halfOpen := by
        simp only [CircuitBreaker.tryAcquire, hstate]
        split <;> simp [CircuitBreaker.fastFail]
      constructor
      · simp [hafter]
      · simp [hafter]
      · intro _ hquiet
        exact absurd rfl ((noSecondAcquire_concat.mp hquiet).2 hstate)
      · exact fun h => absurd hafter h

theorem Tracked.onSuccess (hb : Tracked config b trace)
    (hthreshold : 1 ≤ config.failureThreshold) :
    Tracked config b.onSuccess (trace ++ [event config b now .onSuccess]) := by
  have hafter : b.onSuccess.state ≠ .halfOpen := by
    simp only [CircuitBreaker.onSuccess]
    split <;> simp_all
  constructor
  · intro _
    rw [failuresSince_concat]
    exact ⟨rfl, threshold_pos hthreshold⟩
  · intro hopen
    have hsame : b.state = .open := by
      simp only [CircuitBreaker.onSuccess] at hopen
      split at hopen
      · cases hopen
      · exact hopen
    rw [openedAt_concat, if_neg (by simp [event, hsame])]
    exact hb.opened hsame
  · exact fun h => absurd h hafter
  · exact fun _ _ => reported_report (by simp)

theorem Tracked.onFailure (hb : Tracked config b trace) :
    Tracked config (b.onFailure config now)
      (trace ++ [event config b now .onFailure]) := by
  have htrip : ∀ b' : CircuitBreaker, b.state ≠ .open →
      b.onFailure config now = b'.trip now →
      Tracked config (b'.trip now) (trace ++ [event config b now .onFailure]) := by
    intro b' hnot htripped
    constructor
    · nofun
    · intro _
      rw [openedAt_concat, if_pos ⟨hnot, by simp [event, BreakerRun.call, htripped,
        CircuitBreaker.trip]⟩]
      rfl
    · nofun
    · exact fun _ _ => reported_report (by simp)
  cases hstate : b.state with
  | closed =>
      obtain ⟨hnext, htrips⟩ := hb.onFailure_closed hstate
      obtain ⟨-, hlt⟩ := hb.closed hstate
      by_cases hfull : config.failureThreshold ≤ b.failureCount + 1
      · have hresult : b.onFailure config now =
            { b with failureCount := b.failureCount + 1 }.trip now := by
          simp [CircuitBreaker.onFailure, hstate, hfull]
        rw [hresult]
        exact htrip _ (by simp [hstate]) hresult
      · have hresult : b.onFailure config now =
            { b with failureCount := b.failureCount + 1 } := by
          simp [CircuitBreaker.onFailure, hstate, hfull]
        rw [hresult]
        have hmore : failuresSince trace + 1 ≠ config.failureThreshold.toNat :=
          fun h => hfull (htrips.mpr h)
        constructor
        · intro _
          rw [failuresSince_concat]
          exact ⟨hnext, by simp only [event]; omega⟩
        · exact fun h => absurd (hstate.symm.trans h) (by simp)
        · exact fun h => absurd (hstate.symm.trans h) (by simp)
        · exact fun _ _ => reported_report (by simp)
  | halfOpen =>
      have hresult : b.onFailure config now =
          { b with failureCount := b.failureCount + 1 }.trip now := by
        simp [CircuitBreaker.onFailure, hstate]
      rw [hresult]
      exact htrip _ (by simp [hstate]) hresult
  | «open» =>
      have hresult : b.onFailure config now =
          { b with failureCount := b.failureCount + 1 } := by
        simp [CircuitBreaker.onFailure, hstate]
      rw [hresult]
      constructor
      · exact fun h => absurd (hstate.symm.trans h) (by simp)
      · intro _
        rw [openedAt_concat, if_neg (by simp [event, hstate])]
        exact hb.opened hstate
      · exact fun h => absurd (hstate.symm.trans h) (by simp)
      · exact fun _ _ => reported_report (by simp)

theorem tracked_reset (hthreshold : 1 ≤ config.failureThreshold) :
    Tracked config b.reset (trace ++ [event config b now .reset]) := by
  constructor
  · intro _
    rw [failuresSince_concat]
    exact ⟨rfl, threshold_pos hthreshold⟩
  · nofun
  · nofun
  · exact fun _ _ => reported_report (by simp)

theorem Tracked.call (hb : Tracked config b trace)
    (hthreshold : 1 ≤ config.failureThreshold) (call : BreakerCall) :
    Tracked config (BreakerRun.call config b now call).2
      (trace ++ [event config b now call]) := by
  cases call with
  | tryAcquire => exact hb.tryAcquire
  | onSuccess => exact hb.onSuccess hthreshold
  | onFailure => exact hb.onFailure
  | reset => exact tracked_reset hthreshold

/-- A probe before the report of the last one is an acquire on the half-open
breaker: its quota was not used by the first probe. -/
theorem Tracked.probe_iff (hb : Tracked config b trace)
    (hquiet : NoSecondAcquire trace) (call : BreakerCall) :
    ((event config b now call).IsProbe → Reported trace) ↔
      ((event config b now call).before = .halfOpen →
        (event config b now call).call ≠ .tryAcquire) := by
  by_cases hcall : call = .tryAcquire
  · subst hcall
    by_cases hstate : b.state = .halfOpen
    · obtain ⟨hused, hnot⟩ := hb.probed hstate hquiet
      have hprobe : (event config b now .tryAcquire).IsProbe := by
        simp [BreakerEvent.IsProbe, event, BreakerRun.call,
          CircuitBreaker.tryAcquire, hstate, hused]
      constructor
      · exact fun h => absurd (h hprobe) hnot
      · exact fun h => absurd rfl (h hstate)
    · constructor
      · exact fun _ h => absurd h hstate
      · exact fun _ _ => hb.reported hstate hquiet
  · constructor
    · exact fun _ _ => hcall
    · exact fun _ h => absurd h (not_isProbe_report hcall)

end Calls

structure BreakerRun.Lawful (config : BreakerConfig) (run : BreakerRun) : Prop where
  tracked : Tracked config run.breaker run.trace
  failure : FailureLaw config run.trace
  timeout : TimeoutLaw config run.trace
  probe : ProbeLaw run.trace ↔ NoSecondAcquire run.trace

namespace BreakerRun

variable {config : BreakerConfig} {run next : BreakerRun}

theorem step_lawful (hrun : run.Lawful config)
    (hthreshold : 1 ≤ config.failureThreshold)
    (hfits : config.openNs = config.timeoutNs) {label : Int × BreakerCall}
    (hstep : step config run label = some next) : next.Lawful config := by
  obtain ⟨now, call⟩ := label
  obtain ⟨-, heq⟩ := Option.ite_none_right_eq_some.mp hstep
  obtain rfl := Option.some.inj heq
  change Lawful config ⟨(BreakerRun.call config run.breaker now call).2, now,
    run.trace ++ [event config run.breaker now call]⟩
  refine ⟨hrun.tracked.call hthreshold call, ?_, ?_, ?_⟩
  · exact forall_split_concat.mpr ⟨hrun.failure, hrun.tracked.failure call⟩
  · exact forall_split_concat.mpr
      ⟨hrun.timeout, hrun.tracked.timeout hfits call⟩
  · rw [probeLaw_concat, noSecondAcquire_concat, hrun.probe]
    exact and_congr_right fun hquiet => hrun.tracked.probe_iff hquiet call

theorem start_lawful (config : BreakerConfig)
    (hthreshold : 1 ≤ config.failureThreshold) :
    (machine config).start.Lawful config where
  tracked := by
    constructor
    · exact fun _ => ⟨rfl, threshold_pos hthreshold⟩
    · nofun
    · nofun
    · simp [machine, Reported]
  failure := by simp [machine, FailureLaw]
  timeout := by simp [machine, TimeoutLaw]
  probe := by simp [machine, ProbeLaw, NoSecondAcquire]

/-- The laws hold of the trace if and only if no `try_acquire` came while the
breaker was half-open.  The timeout in nanoseconds has to fit in 64 bits. -/
theorem traceLaw_iff (config : BreakerConfig)
    (hthreshold : 1 ≤ config.failureThreshold)
    (hfits : config.openNs = config.timeoutNs)
    (word : List (Int × BreakerCall)) {last : BreakerRun}
    (hrun : (machine config).run word = some last) :
    TraceLaw config last.trace ↔ NoSecondAcquire last.trace := by
  have hlast : last.Lawful config :=
    (machine config).run_preserves (start_lawful config hthreshold)
      (fun _ _ _ hrun hstep => step_lawful hrun hthreshold hfits hstep) word hrun
  constructor
  · exact fun hlaws => hlast.probe.mp hlaws.probe
  · exact fun hquiet => ⟨hlast.failure, hlast.timeout, hlast.probe.mpr hquiet⟩

def onceConfig : BreakerConfig := ⟨1, 1⟩

/-- The breaker trips, grants one probe, and closes. -/
theorem traceLaw_oneProbe :
    ∃ last, (machine onceConfig).run
        [(1, .onFailure), (5, .tryAcquire), (1000001, .tryAcquire),
          (1000002, .onSuccess)] = some last ∧
      last.breaker.state = .closed ∧ TraceLaw onceConfig last.trace := by
  have hend : ((machine onceConfig).run
      [(1, .onFailure), (5, .tryAcquire), (1000001, .tryAcquire),
        (1000002, .onSuccess)]).map (fun last => (last.breaker.state,
          decide (NoSecondAcquire last.trace))) = some (.closed, true) := by
    decide
  obtain ⟨last, hrun, hlast⟩ := Option.map_eq_some_iff.mp hend
  obtain ⟨hstate, hquiet⟩ := Prod.mk.inj hlast
  exact ⟨last, hrun, hstate, (traceLaw_iff onceConfig (by decide) (by decide) _
    hrun).mpr (of_decide_eq_true hquiet)⟩

/-- Two calls in one half-open period return true.  A timeout of `2 ^ 63 - 1`
milliseconds is negative in nanoseconds, so that an open breaker grants at
once. -/
theorem twoProbes_granted :
    (∃ last, (machine onceConfig).run
        [(1, .onFailure), (1000001, .tryAcquire), (1000002, .tryAcquire)] =
          some last ∧ ¬ TraceLaw onceConfig last.trace) ∧
      ∃ last, (machine ⟨1, 2 ^ 63 - 1⟩).run [(1, .onFailure), (2, .tryAcquire)] =
          some last ∧ ¬ TraceLaw ⟨1, 2 ^ 63 - 1⟩ last.trace := by
  have hprobes : ((machine onceConfig).run
      [(1, .onFailure), (1000001, .tryAcquire), (1000002, .tryAcquire)]).map
        BreakerRun.trace = some [⟨1, .onFailure, .closed, .open, false⟩,
          ⟨1000001, .tryAcquire, .open, .halfOpen, true⟩,
          ⟨1000002, .tryAcquire, .halfOpen, .halfOpen, true⟩] := by
    decide
  have hnegative : ((machine ⟨1, 2 ^ 63 - 1⟩).run
      [(1, .onFailure), (2, .tryAcquire)]).map BreakerRun.trace =
        some [⟨1, .onFailure, .closed, .open, false⟩,
          ⟨2, .tryAcquire, .open, .halfOpen, true⟩] := by
    decide
  constructor
  · obtain ⟨last, hrun, htrace⟩ := Option.map_eq_some_iff.mp hprobes
    refine ⟨last, hrun, ?_⟩
    intro hlaws
    obtain ⟨report, hmem, -⟩ := hlaws.probe
      [⟨1, .onFailure, .closed, .open, false⟩] _ [] _ [] htrace ⟨rfl, rfl⟩ ⟨rfl, rfl⟩
    cases hmem
  · obtain ⟨last, hrun, htrace⟩ := Option.map_eq_some_iff.mp hnegative
    refine ⟨last, hrun, ?_⟩
    intro hlaws
    obtain ⟨opened, hopened, hpassed⟩ := hlaws.timeout
      [⟨1, .onFailure, .closed, .open, false⟩] _ [] htrace rfl rfl
    obtain rfl := Option.some.inj hopened
    revert hpassed
    decide

end BreakerRun

end UltraNet
