/-
The loop of `ServiceDiscovery::run`: two deadlines, and what an iteration awaits.
-/
import UltraNet.ServiceDiscovery

namespace UltraNet

/-- What an iteration awaits; `slept` holds the nanoseconds. -/
inductive LoopAwait where
  | slept (time : Int)
  | queried
  | checked
deriving DecidableEq

def LoopAwait.Suspends : LoopAwait → Prop
  | .slept time => 0 < time
  | _ => True

/-- What an iteration reads: the flag of `shutdown` and the clock, each before and
after the sleep. -/
structure LoopReadings where
  shutdownBefore : Bool
  before : Int
  shutdownAfter : Bool
  after : Int

/-- The deadlines, and a ghost: what each iteration has awaited that came to its
end, oldest first. -/
structure DiscoveryLoop where
  nextRefresh : Int
  nextHealth : Int
  clock : Int
  left : Bool
  rounds : List (List LoopAwait)

namespace DiscoveryLoop

variable (backend : DiscoveryBackend) (config : DiscoveryConfig)

/-- The sleep until the first deadline. -/
def sleep (s : DiscoveryLoop) (before : Int) : List LoopAwait :=
  if before < min s.nextRefresh s.nextHealth then
    [.slept (min s.nextRefresh s.nextHealth - before)]
  else []

def refreshes (s : DiscoveryLoop) (after : Int) : Bool :=
  after ≥ s.nextRefresh && backend = .dnsSrv

def checks (s : DiscoveryLoop) (after : Int) : Bool :=
  after ≥ s.nextHealth && config.enableHealthChecks

def round (s : DiscoveryLoop) (readings : LoopReadings) : List LoopAwait :=
  s.sleep readings.before ++
    (if s.refreshes backend readings.after then [.queried] else []) ++
    if s.checks config readings.after then [.checked] else []

/-- One iteration.  The clock does not go back. -/
def step (s : DiscoveryLoop) (readings : LoopReadings) : Option DiscoveryLoop :=
  if s.left = false ∧ s.clock ≤ readings.before ∧ readings.before ≤ readings.after then
    if readings.shutdownBefore || readings.shutdownAfter then some { s with left := true }
    else some { s with
      nextRefresh :=
        if s.refreshes backend readings.after then
          readings.after + config.refreshInterval * 1000000
        else s.nextRefresh
      nextHealth :=
        if s.checks config readings.after then
          readings.after + config.healthCheckInterval * 1000000
        else s.nextHealth
      clock := readings.after
      rounds := s.rounds ++ [s.round backend config readings] }
  else none

/-- The loop, with the two clock readings in front of it. -/
def machine (first second : Int) : Machine DiscoveryLoop LoopReadings :=
  ⟨⟨first, second, second, false, []⟩, step backend config⟩

/-- Each iteration awaits something, or it leaves the loop. -/
def NeverSpins : Prop :=
  ∀ first second, first ≤ second → ∀ word last,
    (machine backend config first second).run word = some last →
      ∀ round ∈ last.rounds, ∃ await ∈ round, await.Suspends

/-- No two iterations in a row await nothing. -/
def NeverSpinsTwice : Prop :=
  ∀ first second, first ≤ second → ∀ word last,
    (machine backend config first second).run word = some last →
      ∀ front rest one other, last.rounds = front ++ one :: other :: rest →
        (∃ await ∈ one, await.Suspends) ∨ ∃ await ∈ other, await.Suspends

variable {backend config}

theorem NeverSpins.twice (hnever : NeverSpins backend config) :
    NeverSpinsTwice backend config := by
  intro first second hle word last hrun front rest one other hrounds
  refine .inl (hnever first second hle word last hrun one ?_)
  rw [hrounds]
  exact List.mem_append_right front List.mem_cons_self

/-- With both deadlines in use, the one that has passed is awaited for. -/
theorem round_suspends (hbackend : backend = .dnsSrv)
    (hhealth : config.enableHealthChecks = true) (s : DiscoveryLoop)
    (readings : LoopReadings) (hclock : readings.before ≤ readings.after) :
    ∃ await ∈ s.round backend config readings, await.Suspends := by
  by_cases hearly : readings.before < min s.nextRefresh s.nextHealth
  · refine ⟨.slept (min s.nextRefresh s.nextHealth - readings.before), ?_, ?_⟩
    · simp [round, sleep, hearly]
    · exact Int.sub_pos.mpr hearly
  · by_cases hrefresh : s.nextRefresh ≤ readings.after
    · exact ⟨.queried, by simp [round, refreshes, hrefresh, hbackend], trivial⟩
    · have hhealthy : s.nextHealth ≤ readings.after := by omega
      exact ⟨.checked, by simp [round, checks, hhealthy, hhealth], trivial⟩

theorem neverSpins (hbackend : backend = .dnsSrv)
    (hhealth : config.enableHealthChecks = true) : NeverSpins backend config := by
  intro first second _ word last hrun
  refine (machine backend config first second).run_preserves
    (I := fun s => ∀ round ∈ s.rounds, ∃ await ∈ round, await.Suspends)
    (fun round hround => by cases hround) ?_ word hrun
  intro s readings next hrounds hstep
  obtain ⟨⟨-, -, hclock⟩, hnext⟩ := Option.ite_none_right_eq_some.mp hstep
  split at hnext
  · obtain rfl := Option.some.inj hnext
    exact hrounds
  · obtain rfl := Option.some.inj hnext
    intro round hround
    rcases List.mem_append.mp hround with hold | hnew
    · exact hrounds round hold
    · obtain rfl := List.mem_singleton.mp hnew
      exact round_suspends hbackend hhealth s readings hclock

/-- No deadline is ahead, and none of those that have passed is in use. -/
structure Idle (backend : DiscoveryBackend) (config : DiscoveryConfig)
    (s : DiscoveryLoop) : Prop where
  running : s.left = false
  passed : min s.nextRefresh s.nextHealth ≤ s.clock
  refresh : s.refreshes backend s.clock = false
  health : s.checks config s.clock = false

/-- After an iteration that awaits nothing. -/
def spun (s : DiscoveryLoop) : DiscoveryLoop := { s with rounds := s.rounds ++ [[]] }

theorem Idle.spun {s : DiscoveryLoop} (hidle : Idle backend config s) :
    Idle backend config s.spun :=
  ⟨hidle.running, hidle.passed, hidle.refresh, hidle.health⟩

/-- An iteration at the same time changes nothing then. -/
theorem Idle.step {s : DiscoveryLoop} (hidle : Idle backend config s) :
    s.step backend config ⟨false, s.clock, false, s.clock⟩ = some s.spun := by
  have hround : s.round backend config ⟨false, s.clock, false, s.clock⟩ = [] := by
    simp [round, sleep, hidle.refresh, hidle.health, Int.not_lt.mpr hidle.passed]
  simp [DiscoveryLoop.step, DiscoveryLoop.spun, hround, hidle.running, hidle.refresh,
    hidle.health]

/-- What the first iteration leaves if it takes no time. -/
def afterFirst (backend : DiscoveryBackend) (config : DiscoveryConfig) : DiscoveryLoop where
  nextRefresh := if backend = .dnsSrv then config.refreshInterval * 1000000 else 0
  nextHealth := if config.enableHealthChecks then config.healthCheckInterval * 1000000 else 0
  clock := 0
  left := false
  rounds := [(⟨0, 0, 0, false, []⟩ : DiscoveryLoop).round backend config ⟨false, 0, false, 0⟩]

theorem step_first : DiscoveryLoop.step backend config ⟨0, 0, 0, false, []⟩
    ⟨false, 0, false, 0⟩ = some (afterFirst backend config) := by
  simp [DiscoveryLoop.step, afterFirst, refreshes, checks]

theorem afterFirst_idle (hrefresh : 0 < config.refreshInterval)
    (hinterval : 0 < config.healthCheckInterval)
    (hunused : ¬ (backend = .dnsSrv ∧ config.enableHealthChecks = true)) :
    Idle backend config (afterFirst backend config) := by
  refine ⟨rfl, ?_, ?_, ?_⟩
  · by_cases hbackend : backend = .dnsSrv
    · have hhealth : ¬ config.enableHealthChecks = true :=
        fun hhealth => hunused ⟨hbackend, hhealth⟩
      simp [afterFirst, hhealth]
    · simp [afterFirst, hbackend]
  · by_cases hbackend : backend = .dnsSrv
    · simp only [refreshes, afterFirst, if_pos hbackend, Bool.and_eq_false_iff,
        decide_eq_false_iff_not]
      exact .inl (by omega)
    · simp [refreshes, hbackend]
  · by_cases hhealth : config.enableHealthChecks = true
    · simp only [checks, afterFirst, if_pos hhealth, Bool.and_eq_false_iff,
        decide_eq_false_iff_not]
      exact .inl (by omega)
    · simp [checks, hhealth]

/-- Three iterations while the clock shows the same time. -/
theorem spins (hrefresh : 0 < config.refreshInterval)
    (hinterval : 0 < config.healthCheckInterval)
    (hunused : ¬ (backend = .dnsSrv ∧ config.enableHealthChecks = true)) :
    ¬ NeverSpinsTwice backend config := by
  intro hnever
  have hidle := afterFirst_idle hrefresh hinterval hunused
  have hsecond : (afterFirst backend config).step backend config ⟨false, 0, false, 0⟩ =
      some (afterFirst backend config).spun := hidle.step
  have hthird : (afterFirst backend config).spun.step backend config ⟨false, 0, false, 0⟩ =
      some (afterFirst backend config).spun.spun := hidle.spun.step
  have hrun : (machine backend config 0 0).run (List.replicate 3 ⟨false, 0, false, 0⟩) =
      some (afterFirst backend config).spun.spun := by
    simp only [machine, Machine.run, List.replicate, Machine.runFrom, step_first, hsecond,
      hthird]
  rcases hnever 0 0 (Int.le_refl 0) _ _ hrun [_] [] [] [] rfl with
    ⟨await, hawait, -⟩ | ⟨await, hawait, -⟩
  · cases hawait
  · cases hawait

/-- The loop awaits something in each iteration just if both its deadlines are in
use; with one that is not, two iterations in a row await nothing. -/
theorem loop_suspends_iff (backend : DiscoveryBackend) (config : DiscoveryConfig)
    (hrefresh : 0 < config.refreshInterval) (hinterval : 0 < config.healthCheckInterval) :
    (NeverSpins backend config ↔
        backend = .dnsSrv ∧ config.enableHealthChecks = true) ∧
      (NeverSpinsTwice backend config ↔
        backend = .dnsSrv ∧ config.enableHealthChecks = true) := by
  have hspins : ¬ (backend = .dnsSrv ∧ config.enableHealthChecks = true) →
      ¬ NeverSpinsTwice backend config := spins hrefresh hinterval
  refine ⟨⟨fun hnever => ?_, fun hused => neverSpins hused.1 hused.2⟩,
    fun hnever => ?_, fun hused => (neverSpins hused.1 hused.2).twice⟩
  · by_contra hunused
    exact hspins hunused hnever.twice
  · by_contra hunused
    exact hspins hunused hnever

/-- The default configuration. -/
theorem loop_suspends_default :
    NeverSpins .dnsSrv ⟨30000, 10000, true, 3, 30000⟩ :=
  (loop_suspends_iff .dnsSrv ⟨30000, 10000, true, 3, 30000⟩ (by decide)
    (by decide)).1.mpr ⟨rfl, rfl⟩

/-- A static list with health checks: the first iteration checks, and the others
await nothing until the interval has passed. -/
theorem loop_spins_static :
    let config : DiscoveryConfig := ⟨30000, 10000, true, 3, 30000⟩
    ((machine .static config 0 0).run
        (List.replicate 4 ⟨false, 5, false, 5⟩)).map DiscoveryLoop.rounds =
      some [[.checked], [], [], []] ∧ ¬ NeverSpins .static config := by
  intro config
  have hrounds : ((machine .static config 0 0).run
      (List.replicate 4 ⟨false, 5, false, 5⟩)).map DiscoveryLoop.rounds =
      some [[.checked], [], [], []] := by decide
  refine ⟨hrounds, fun hnever => ?_⟩
  obtain ⟨last, hrun, hlast⟩ := Option.map_eq_some_iff.mp hrounds
  obtain ⟨await, hawait, -⟩ := hnever 0 0 (Int.le_refl 0) _ last hrun [] (by simp [hlast])
  cases hawait

end DiscoveryLoop

end UltraNet
