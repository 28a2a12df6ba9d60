/-
Health checks and circuit breakers: a check reports to the breaker of its
endpoint, and nothing of service discovery ever asks the breaker for a probe.
-/
import UltraNet.ServiceDiscovery

namespace UltraNet

/-- What a check of this id has found, and when. -/
def DiscoveryAction.outcome (id : List UInt8) : DiscoveryAction → Option (Int × Bool)
  | .check now ep reachable => if ep.id = id then some (now, reachable) else none
  | _ => none

/-- The outcomes of the checks of an id, oldest first. -/
def outcomes (id : List UInt8) (word : List DiscoveryAction) : List (Int × Bool) :=
  word.filterMap (DiscoveryAction.outcome id)

/-- The first failure that makes the threshold, after some failures in a row. -/
def firstTrip (threshold : Nat) : Nat → List (Int × Bool) → Option Int
  | _, [] => none
  | _, (_, true) :: rest => firstTrip threshold 0 rest
  | failures, (now, false) :: rest =>
      if threshold ≤ failures + 1 then some now
      else firstTrip threshold (failures + 1) rest

namespace ServiceDiscovery

def breakerOf (d : ServiceDiscovery) (id : List UInt8) : CircuitBreaker :=
  (d.circuitBreakers.lookup id).getD .init

/-- When the breaker of an id last became open in this run. -/
def lastOpened (id : List UInt8) (d : ServiceDiscovery) (opened : Option Int) :
    List DiscoveryAction → Option Int
  | [] => opened
  | action :: rest =>
      match d.step action with
      | none => opened
      | some next =>
          let tripped := (d.breakerOf id).state ≠ .open ∧ (next.breakerOf id).state = .open
          next.lastOpened id
            (if tripped then (action.outcome id).map Prod.fst else opened) rest

/-- An endpoint whose last check was good, and whose breaker opened long enough
ago, is handed out. -/
def Recovered (start : ServiceDiscovery) (word : List DiscoveryAction)
    (last : ServiceDiscovery) (ep : Endpoint) (now : Int) : Prop :=
  (∃ time, (outcomes ep.id word).getLast? = some (time, true)) →
    (∀ opened, start.lastOpened ep.id none word = some opened →
      start.config.breaker.timeoutNs ≤ now - opened) →
    ep ∈ last.endpoints

theorem isAvailable_iff (d : ServiceDiscovery) (id : List UInt8) :
    d.isAvailable id = true ↔ (d.breakerOf id).state ≠ .open := by
  unfold isAvailable breakerOf
  cases d.circuitBreakers.lookup id with
  | none => simp [CircuitBreaker.init]
  | some b => simp

theorem breakerOf_getOrCreateCbs {d next : ServiceDiscovery} {table : List Endpoint}
    (hnext : next.circuitBreakers = getOrCreateCbs d.circuitBreakers table)
    (id : List UInt8) : next.breakerOf id = d.breakerOf id := by
  rw [breakerOf, breakerOf, hnext]
  rcases lookup_getOrCreateCbs d.circuitBreakers table id with hsame | ⟨hnone, hinit⟩
  · rw [hsame]
  · rw [hnone, hinit]
    rfl

/-- A step does to the breaker what its check has found, if it has one. -/
theorem breakerOf_step {d next : ServiceDiscovery} {action : DiscoveryAction}
    (hstep : d.step action = some next) (id : List UInt8) :
    next.breakerOf id =
        ((action.outcome id).elim (d.breakerOf id) fun outcome =>
          if outcome.2 then (d.breakerOf id).onSuccess
          else (d.breakerOf id).onFailure d.config.breaker outcome.1) ∧
      next.config = d.config := by
  cases action with
  | run =>
      obtain rfl := Option.some.inj hstep
      cases hbackend : d.backend with
      | dnsSrv =>
          rw [startRun_dnsSrv hbackend]
          exact ⟨rfl, rfl⟩
      | static =>
          rw [startRun_static hbackend]
          exact ⟨breakerOf_getOrCreateCbs rfl id, rfl⟩
  | update incoming =>
      obtain ⟨-, hnext⟩ := Option.ite_none_right_eq_some.mp hstep
      obtain rfl := Option.some.inj hnext
      exact ⟨breakerOf_getOrCreateCbs rfl id, rfl⟩
  | check now ep reachable =>
      obtain rfl := Option.some.inj hstep
      refine ⟨?_, rfl⟩
      rw [breakerOf, lookup_checkOne, DiscoveryAction.outcome]
      by_cases hid : ep.id = id
      · rw [if_pos hid.symm, if_pos hid]
        rfl
      · rw [if_neg (Ne.symm hid), if_neg hid]
        rfl

variable {config : DiscoveryConfig} {b : CircuitBreaker} {failures : Nat}

/-- A closed breaker after this many failures in a row. -/
structure Counting (config : DiscoveryConfig) (failures : Nat) (b : CircuitBreaker) :
    Prop where
  closed : b.state = .closed
  count : b.failureCount.toNat = failures
  below : failures < max 1 config.circuitBreakerFailures.toNat

theorem Counting.onSuccess (hcounting : Counting config failures b) :
    Counting config 0 b.onSuccess := by
  refine ⟨?_, rfl, Nat.lt_of_lt_of_le Nat.one_pos (Nat.le_max_left _ _)⟩
  simp [CircuitBreaker.onSuccess, hcounting.closed]

theorem Counting.onFailure (hcounting : Counting config failures b) (now : Int) :
    if config.circuitBreakerFailures.toNat ≤ failures + 1 then
      (b.onFailure config.breaker now).state = .open
    else Counting config (failures + 1) (b.onFailure config.breaker now) := by
  have hbelow := hcounting.below
  have hlt := config.circuitBreakerFailures.toNat_lt
  have hcount : (b.failureCount + 1).toNat = failures + 1 := by
    rw [UInt64.toNat_add, hcounting.count]
    exact Nat.mod_eq_of_lt (by
      have hone : (1 : UInt64).toNat = 1 := rfl
      omega)
  have htrips : config.breaker.failureThreshold ≤ b.failureCount + 1 ↔
      config.circuitBreakerFailures.toNat ≤ failures + 1 := by
    rw [UInt64.le_iff_toNat_le, hcount]
    rfl
  split
  · rename_i hfull
    simp [CircuitBreaker.onFailure, hcounting.closed, htrips.mpr hfull,
      CircuitBreaker.trip]
  · rename_i hroom
    have hstays : ¬ config.breaker.failureThreshold ≤ b.failureCount + 1 :=
      fun hfull => hroom (htrips.mp hfull)
    simp only [CircuitBreaker.onFailure, hcounting.closed, if_neg hstays]
    exact ⟨rfl, hcount, by omega⟩

/-- Reports do not close an open breaker. -/
theorem report_open (hopen : b.state = .open) (outcome : Option (Int × Bool)) :
    (outcome.elim b fun outcome =>
      if outcome.2 then b.onSuccess
      else b.onFailure config.breaker outcome.1).state = .open := by
  cases outcome with
  | none => exact hopen
  | some outcome =>
      obtain ⟨now, reachable⟩ := outcome
      cases reachable with
      | true => simp [CircuitBreaker.onSuccess, hopen]
      | false => simp [CircuitBreaker.onFailure, hopen]

variable {start d last : ServiceDiscovery} {id : List UInt8}

theorem outcomes_cons (action : DiscoveryAction) (word : List DiscoveryAction) :
    outcomes id (action :: word) = (action.outcome id).toList ++ outcomes id word := by
  rw [outcomes, List.filterMap_cons]
  cases action.outcome id with
  | none => rfl
  | some outcome => rfl

/-- An open breaker stays open, so that it does not open again. -/
theorem run_open (word : List DiscoveryAction) (hopen : (d.breakerOf id).state = .open)
    (opened : Option Int) (hrun : (machine start).runFrom d word = some last) :
    (last.breakerOf id).state = .open ∧ d.lastOpened id opened word = opened := by
  induction word generalizing d with
  | nil =>
      obtain rfl := Option.some.inj hrun
      exact ⟨hopen, rfl⟩
  | cons action rest ih =>
      obtain ⟨answer, hanswer⟩ : ∃ answer, d.step action = answer := ⟨_, rfl⟩
      simp only [Machine.runFrom, machine, hanswer] at hrun
      cases answer with
      | none => cases hrun
      | some next =>
          have hstays : (next.breakerOf id).state = .open := by
            rw [(breakerOf_step hanswer id).1]
            exact report_open hopen _
          obtain ⟨hlast, hopened⟩ := ih hstays hrun
          refine ⟨hlast, ?_⟩
          simp only [lastOpened, hanswer, hopen, ne_eq, not_true_eq_false, false_and,
            if_false]
          exact hopened

/-- A closed breaker counts on, or it opens and the threshold is reached. -/
theorem Counting.step {next : ServiceDiscovery} {action : DiscoveryAction} {failures : Nat}
    (hcounting : Counting d.config failures (d.breakerOf id))
    (hstep : d.step action = some next) :
    (∃ more, Counting d.config more (next.breakerOf id) ∧ ∀ later,
        firstTrip d.config.circuitBreakerFailures.toNat failures
            ((action.outcome id).toList ++ later) =
          firstTrip d.config.circuitBreakerFailures.toNat more later) ∨
      ∃ now, (action.outcome id).map Prod.fst = some now ∧
        (next.breakerOf id).state = .open ∧ ∀ later,
          firstTrip d.config.circuitBreakerFailures.toNat failures
            ((action.outcome id).toList ++ later) = some now := by
  obtain ⟨hbreaker, -⟩ := breakerOf_step hstep id
  rw [hbreaker]
  cases action.outcome id with
  | none => exact .inl ⟨failures, hcounting, fun later => rfl⟩
  | some outcome =>
      obtain ⟨now, reachable⟩ := outcome
      cases reachable with
      | true => exact .inl ⟨0, hcounting.onSuccess, fun later => rfl⟩
      | false =>
          have hfailed := hcounting.onFailure now
          by_cases hfull : d.config.circuitBreakerFailures.toNat ≤ failures + 1
          · rw [if_pos hfull] at hfailed
            exact .inr ⟨now, rfl, hfailed, fun later => if_pos hfull⟩
          · rw [if_neg hfull] at hfailed
            exact .inl ⟨failures + 1, hfailed, fun later => if_neg hfull⟩

/-- The breaker opens where the threshold is reached for the first time, and
counts where it is not. -/
theorem run_counting (word : List DiscoveryAction) {failures : Nat}
    (hcounting : Counting d.config failures (d.breakerOf id)) (opened : Option Int)
    (hrun : (machine start).runFrom d word = some last) :
    (firstTrip d.config.circuitBreakerFailures.toNat failures (outcomes id word) = none →
        (last.breakerOf id).state ≠ .open) ∧
      ∀ time, firstTrip d.config.circuitBreakerFailures.toNat failures
          (outcomes id word) = some time →
        (last.breakerOf id).state = .open ∧ d.lastOpened id opened word = some time := by
  induction word generalizing d failures with
  | nil =>
      obtain rfl := Option.some.inj hrun
      refine ⟨fun _ => ?_, fun time htime => by cases htime⟩
      simp [hcounting.closed]
  | cons action rest ih =>
      obtain ⟨answer, hanswer⟩ : ∃ answer, d.step action = answer := ⟨_, rfl⟩
      simp only [Machine.runFrom, machine, hanswer] at hrun
      cases answer with
      | none => cases hrun
      | some next =>
          have hconfig := (breakerOf_step hanswer id).2
          rw [outcomes_cons]
          rcases hcounting.step hanswer with
            ⟨more, hnext, htrip⟩ | ⟨now, hnow, hopen, htrip⟩
          · have hrest := ih (by rwa [hconfig]) hrun
            rw [htrip]
            simp only [lastOpened, hanswer, hnext.closed, reduceCtorEq, and_false, if_false]
            rwa [hconfig] at hrest
          · rw [htrip]
            refine ⟨fun hnone => (by cases hnone), fun time htime => ?_⟩
            obtain rfl := Option.some.inj htime
            obtain ⟨hlast, hopened⟩ := run_open rest hopen (some now) hrun
            refine ⟨hlast, ?_⟩
            simp only [lastOpened, hanswer, hcounting.closed, hopen, ne_eq, reduceCtorEq,
              not_false_eq_true, and_self, if_true, hnow]
            exact hopened

theorem Constructed.counting {start : ServiceDiscovery} (hstart : start.Constructed)
    (id : List UInt8) : Counting start.config 0 (start.breakerOf id) := by
  have hinit : start.breakerOf id = .init := by
    rcases hstart with ⟨config, rfl⟩ | ⟨table, config, rfl⟩
    · rfl
    · rw [breakerOf]
      rcases lookup_getOrCreateCbs ∅ table id with hsame | ⟨-, hinit⟩
      · show Option.getD ((getOrCreateCbs ∅ table).lookup id) _ = _
        rw [hsame]
        rfl
      · show Option.getD ((getOrCreateCbs ∅ table).lookup id) _ = _
        rw [hinit]
        rfl
  rw [hinit]
  exact ⟨rfl, rfl, Nat.lt_of_lt_of_le Nat.one_pos (Nat.le_max_left _ _)⟩

/-- An endpoint comes back if and only if its breaker has never opened, its last
check failed or the timeout has not passed. -/
theorem endpoints_recovered_iff (start : ServiceDiscovery) (hstart : start.Constructed)
    (word : List DiscoveryAction) (last : ServiceDiscovery)
    (hrun : start.machine.run word = some last) (ep : Endpoint)
    (hep : ep ∈ last.allEndpoints) (now : Int) :
    start.Recovered word last ep now ↔
      ∀ time opened, (outcomes ep.id word).getLast? = some (time, true) →
        firstTrip start.config.circuitBreakerFailures.toNat 0 (outcomes ep.id word) =
          some opened → now - opened < start.config.breaker.timeoutNs := by
  have hlisted : ep ∈ last.endpoints ↔ (last.breakerOf ep.id).state ≠ .open := by
    rw [endpoints, List.mem_filter, isAvailable_iff]
    exact and_iff_right hep
  obtain ⟨hnever, htrip⟩ := run_counting word (hstart.counting ep.id) none hrun
  rw [Recovered, hlisted]
  constructor
  · intro hrecovered time opened hlast hopened
    obtain ⟨hstate, hwhen⟩ := htrip opened hopened
    by_contra hpassed
    refine hrecovered ⟨time, hlast⟩ ?_ hstate
    intro other hother
    obtain rfl := Option.some.inj (hwhen.symm.trans hother)
    exact Int.not_lt.mp hpassed
  · rintro hearly ⟨time, hlast⟩ hpassed
    cases htripped : firstTrip start.config.circuitBreakerFailures.toNat 0
        (outcomes ep.id word) with
    | none => exact hnever htripped
    | some opened =>
        obtain ⟨-, hwhen⟩ := htrip opened htripped
        exact absurd (hpassed opened hwhen) (Int.not_le.mpr (hearly time opened hlast htripped))

/-- Two checks with a threshold of two, and both kinds of endpoint. -/
theorem endpoints_recovered_once :
    let config : DiscoveryConfig := ⟨30000, 10000, true, 2, 30000⟩
    let ep : Endpoint := ⟨[97], 80, 0, 0, true⟩
    let start := ofEndpoints [ep] config
    let word := [DiscoveryAction.check 5 ep false, .check 6 ep true]
    ∃ last, start.machine.run word = some last ∧ start.Recovered word last ep 7 := by
  intro config ep start word
  refine ⟨_, rfl, ?_⟩
  refine (endpoints_recovered_iff start (.inr ⟨[ep], config, rfl⟩) word _ rfl _ ?_ 7).mpr ?_
  · decide
  · intro time opened _ hopened
    revert hopened
    have hnever : firstTrip start.config.circuitBreakerFailures.toNat 0
        (outcomes ep.id word) = none := by decide
    rw [hnever]
    intro hopened
    cases hopened

/-- One failure opens the breaker, and no number of good checks closes it. -/
theorem endpoints_not_recovered :
    let config : DiscoveryConfig := ⟨30000, 10000, true, 1, 30000⟩
    let ep : Endpoint := ⟨[97], 80, 0, 0, true⟩
    let start := ofEndpoints [ep] config
    let word := [DiscoveryAction.check 5 ep false, .check 30000000006 ep true,
      .check 40000000000 ep true]
    ∃ last, start.machine.run word = some last ∧ last.endpoints = [] ∧
      ¬ start.Recovered word last ep 40000000000 := by
  intro config ep start word
  refine ⟨_, rfl, by decide, ?_⟩
  intro hrecovered
  have hopened : start.lastOpened ep.id none word = some 5 := by decide
  have hlast : (outcomes ep.id word).getLast? = some (40000000000, true) := by decide
  have hlisted := hrecovered ⟨_, hlast⟩ (by
    intro opened htime
    obtain rfl := Option.some.inj (hopened.symm.trans htime)
    decide)
  revert hlisted
  decide

end ServiceDiscovery

end UltraNet
