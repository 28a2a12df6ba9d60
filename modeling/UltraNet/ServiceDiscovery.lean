/-
Service discovery: a table of endpoints with a circuit breaker for each id.  The
table is filled by the constructor, by `run` and by the answers of DNS, and health
checks look up its entries by id.
-/
import UltraNet.CircuitBreaker
import UltraNet.AssocTable
import UltraNet.Digits
import UltraNet.Dns

namespace UltraNet

structure Endpoint where
  host : List UInt8
  port : UInt16
  priority : UInt16
  weight : UInt16
  healthy : Bool
deriving DecidableEq

/-- `host:port`. -/
def Endpoint.id (ep : Endpoint) : List UInt8 :=
  ep.host ++ 58 :: decimalText ep.port.toNat

inductive EndpointChange where
  | added
  | removed
  | stateChanged
  | refresh
deriving DecidableEq

structure EndpointEvent where
  change : EndpointChange
  endpoint : Endpoint
  allEndpoints : List Endpoint
deriving DecidableEq

namespace EndpointEvent

def ofEndpoint (change : EndpointChange) (ep : Endpoint) : EndpointEvent :=
  ⟨change, ep, []⟩

def ofTable (table : List Endpoint) : EndpointEvent := ⟨.refresh, ⟨[], 0, 0, 0, true⟩, table⟩

end EndpointEvent

/-- Times are in milliseconds. -/
structure DiscoveryConfig where
  refreshInterval : Int
  healthCheckInterval : Int
  enableHealthChecks : Bool
  circuitBreakerFailures : UInt64
  circuitBreakerTimeout : Int

def DiscoveryConfig.breaker (config : DiscoveryConfig) : BreakerConfig :=
  ⟨config.circuitBreakerFailures, config.circuitBreakerTimeout⟩

inductive DiscoveryBackend where
  | dnsSrv
  | static
deriving DecidableEq

/-- `allEndpoints` is the table, which `all_endpoints` returns. -/
structure ServiceDiscovery where
  backend : DiscoveryBackend
  config : DiscoveryConfig
  staticEndpoints : List Endpoint
  allEndpoints : List Endpoint
  circuitBreakers : Table (List UInt8) CircuitBreaker

namespace ServiceDiscovery

def getOrCreateCb (breakers : Table (List UInt8) CircuitBreaker) (id : List UInt8) :
    Table (List UInt8) CircuitBreaker :=
  match breakers.lookup id with
  | some _ => breakers
  | none => breakers.insert id .init

def getOrCreateCbs (breakers : Table (List UInt8) CircuitBreaker)
    (table : List Endpoint) : Table (List UInt8) CircuitBreaker :=
  table.foldl (fun breakers ep => getOrCreateCb breakers ep.id) breakers

/-- The constructor for DNS. -/
def ofService (config : DiscoveryConfig) : ServiceDiscovery :=
  ⟨.dnsSrv, config, [], [], ∅⟩

/-- The constructor for a static list. -/
def ofEndpoints (table : List Endpoint) (config : DiscoveryConfig) : ServiceDiscovery :=
  ⟨.static, config, table, table, getOrCreateCbs ∅ table⟩

/-- What `run` does before its loop: for a static list the endpoints go into the
table, and one event tells so. -/
def startRun (d : ServiceDiscovery) : List EndpointEvent × ServiceDiscovery :=
  match d.backend with
  | .dnsSrv => ([], d)
  | .static =>
      ([.ofTable d.staticEndpoints], { d with
        allEndpoints := d.allEndpoints ++ d.staticEndpoints
        circuitBreakers := getOrCreateCbs d.circuitBreakers d.staticEndpoints })

/-- `query_srv`, given the records of the answer. -/
def querySrv (records : List Dns.SrvRecord) : List Endpoint :=
  (records.mergeSort fun first second => first.priority ≤ second.priority).map
    fun record => ⟨record.target, UInt16.ofNat record.port,
      UInt16.ofNat record.priority, UInt16.ofNat record.weight, true⟩

/-- The endpoints that `update_endpoints` announces, and those that it takes back. -/
def newEndpoints (old incoming : List Endpoint) : List Endpoint :=
  incoming.filter fun ep => !(old.map Endpoint.id).contains ep.id

def lostEndpoints (old incoming : List Endpoint) : List Endpoint :=
  old.filter fun ep => !(incoming.map Endpoint.id).contains ep.id

theorem mem_newEndpoints {old incoming : List Endpoint} {ep : Endpoint} :
    ep ∈ newEndpoints old incoming ↔ ep ∈ incoming ∧ ep.id ∉ old.map Endpoint.id := by
  rw [newEndpoints, List.mem_filter, Bool.not_eq_true', ← Bool.not_eq_true, List.contains_iff_mem]

theorem mem_lostEndpoints {old incoming : List Endpoint} {ep : Endpoint} :
    ep ∈ lostEndpoints old incoming ↔ ep ∈ old ∧ ep.id ∉ incoming.map Endpoint.id :=
  mem_newEndpoints

/-- `update_endpoints`: the events that it writes, and the table after them. -/
def updateEndpoints (d : ServiceDiscovery) (incoming : List Endpoint) :
    List EndpointEvent × ServiceDiscovery :=
  ((newEndpoints d.allEndpoints incoming).map (.ofEndpoint .added) ++
      (lostEndpoints d.allEndpoints incoming).map (.ofEndpoint .removed),
    { d with
      allEndpoints := incoming
      circuitBreakers :=
        getOrCreateCbs d.circuitBreakers (newEndpoints d.allEndpoints incoming) })

/-- The first entry with the id is changed. -/
def setHealthy (id : List UInt8) (reachable : Bool) : List Endpoint → List Endpoint
  | [] => []
  | ep :: rest =>
      if ep.id = id then { ep with healthy := reachable } :: rest
      else ep :: setHealthy id reachable rest

/-- `check_one`, when the connection is there or has failed. -/
def checkOne (d : ServiceDiscovery) (now : Int) (ep : Endpoint) (reachable : Bool) :
    ServiceDiscovery :=
  { d with
    allEndpoints := setHealthy ep.id reachable d.allEndpoints
    circuitBreakers := (getOrCreateCb d.circuitBreakers ep.id).modify ep.id fun b =>
      if reachable then b.onSuccess else b.onFailure d.config.breaker now }

/-- Whether an endpoint with this id is handed out. -/
def isAvailable (d : ServiceDiscovery) (id : List UInt8) : Bool :=
  match d.circuitBreakers.lookup id with
  | none => true
  | some b => b.state ≠ .open

def endpoints (d : ServiceDiscovery) : List Endpoint :=
  d.allEndpoints.filter fun ep => d.isAvailable ep.id

end ServiceDiscovery

inductive DiscoveryAction where
  | run
  | update (incoming : List Endpoint)
  | check (now : Int) (ep : Endpoint) (reachable : Bool)

namespace ServiceDiscovery

/-- What happens to the table over time.  Only DNS has answers. -/
def step (d : ServiceDiscovery) : DiscoveryAction → Option ServiceDiscovery
  | .run => some d.startRun.2
  | .update incoming =>
      if d.backend = .dnsSrv then some (d.updateEndpoints incoming).2 else none
  | .check now ep reachable => some (d.checkOne now ep reachable)

def machine (start : ServiceDiscovery) : Machine ServiceDiscovery DiscoveryAction :=
  ⟨start, step⟩

/-- As one of the constructors leaves it. -/
def Constructed (d : ServiceDiscovery) : Prop :=
  (∃ config, d = ofService config) ∨ ∃ table config, d = ofEndpoints table config

end ServiceDiscovery

namespace Endpoint

theorem colon_not_digit (n : Nat) : (58 : UInt8) ∉ decimalText n := by
  intro hcolon
  exact absurd (isDigit_of_mem_decimalText hcolon) (by decide)

/-- A text with a last colon is cut in one way only. -/
theorem append_colon_inj {front digits other more : List UInt8}
    (hdigits : (58 : UInt8) ∉ digits) (hmore : (58 : UInt8) ∉ more)
    (heq : front ++ 58 :: digits = other ++ 58 :: more) :
    front = other ∧ digits = more := by
  have hcut : ∀ {between first second : List UInt8}, (58 : UInt8) ∉ first →
      58 :: first = between ++ 58 :: second → between = [] := by
    intro between first second hfirst hbetween
    cases between with
    | nil => rfl
    | cons byte between =>
        obtain ⟨-, rfl⟩ := List.cons.inj hbetween
        exact absurd (List.mem_append_right between List.mem_cons_self) hfirst
  rcases List.append_eq_append_iff.mp heq with
    ⟨between, rfl, hbetween⟩ | ⟨between, rfl, hbetween⟩
  · obtain rfl := hcut hdigits hbetween
    exact ⟨(List.append_nil _).symm, (List.cons.inj hbetween).2⟩
  · obtain rfl := hcut hmore hbetween
    exact ⟨List.append_nil _, (List.cons.inj hbetween).2.symm⟩

/-- Endpoints with one id are equal to `operator==`. -/
theorem id_inj {first second : Endpoint} :
    first.id = second.id ↔ first.host = second.host ∧ first.port = second.port := by
  constructor
  · intro hid
    obtain ⟨hhost, hdigits⟩ :=
      append_colon_inj (colon_not_digit _) (colon_not_digit _) hid
    have hport := congrArg digitsValue hdigits
    rw [digitsValue_decimalText, digitsValue_decimalText] at hport
    exact ⟨hhost, UInt16.toNat_inj.mp hport⟩
  · rintro ⟨hhost, hport⟩
    rw [id, id, hhost, hport]

end Endpoint

namespace ServiceDiscovery

@[simp] theorem map_id_setHealthy (id : List UInt8) (reachable : Bool)
    (table : List Endpoint) :
    (setHealthy id reachable table).map Endpoint.id = table.map Endpoint.id := by
  induction table with
  | nil => rfl
  | cons ep rest ih =>
      rw [setHealthy]
      split
      · rfl
      · rw [List.map_cons, List.map_cons, ih]

@[simp] theorem map_id_checkOne (d : ServiceDiscovery) (now : Int) (ep : Endpoint)
    (reachable : Bool) :
    (d.checkOne now ep reachable).allEndpoints.map Endpoint.id =
      d.allEndpoints.map Endpoint.id :=
  map_id_setHealthy ep.id reachable d.allEndpoints

theorem startRun_dnsSrv {d : ServiceDiscovery} (hdns : d.backend = .dnsSrv) :
    d.startRun = ([], d) := by
  rw [startRun, hdns]

theorem startRun_static {d : ServiceDiscovery} (hstatic : d.backend = .static) :
    d.startRun = ([.ofTable d.staticEndpoints], { d with
      allEndpoints := d.allEndpoints ++ d.staticEndpoints
      circuitBreakers := getOrCreateCbs d.circuitBreakers d.staticEndpoints }) := by
  rw [startRun, hstatic]

theorem lookup_getOrCreateCb (breakers : Table (List UInt8) CircuitBreaker)
    (id other : List UInt8) :
    (getOrCreateCb breakers id).lookup other =
      if other = id then some ((breakers.lookup id).getD .init)
      else breakers.lookup other := by
  unfold getOrCreateCb
  split
  · rename_i b hb
    by_cases hother : other = id
    · rw [if_pos hother, hother, hb]
      rfl
    · rw [if_neg hother]
  · rename_i hb
    rw [Table.lookup_insert, hb]
    rfl

/-- No breaker that exists is touched. -/
theorem lookup_getOrCreateCbs (breakers : Table (List UInt8) CircuitBreaker)
    (table : List Endpoint) (id : List UInt8) :
    (getOrCreateCbs breakers table).lookup id = breakers.lookup id ∨
      breakers.lookup id = none ∧ (getOrCreateCbs breakers table).lookup id = some .init := by
  induction table generalizing breakers with
  | nil => exact .inl rfl
  | cons ep rest ih =>
      have hfirst := lookup_getOrCreateCb breakers ep.id id
      have hrest := ih (getOrCreateCb breakers ep.id)
      rw [getOrCreateCbs, List.foldl_cons, ← getOrCreateCbs]
      by_cases hid : id = ep.id
      · rw [if_pos hid, ← hid] at hfirst
        cases hold : breakers.lookup id with
        | some b =>
            rw [hold] at hfirst
            rcases hrest with hsame | ⟨hnone, -⟩
            · exact .inl (hsame.trans (hid ▸ hfirst))
            · rw [← hid, hfirst] at hnone
              cases hnone
        | none =>
            rw [hold] at hfirst
            rcases hrest with hsame | ⟨hnone, -⟩
            · exact .inr ⟨rfl, hsame.trans (hid ▸ hfirst)⟩
            · rw [← hid, hfirst] at hnone
              cases hnone
      · rw [if_neg hid] at hfirst
        rwa [hfirst] at hrest

theorem lookup_checkOne (d : ServiceDiscovery) (now : Int) (ep : Endpoint)
    (reachable : Bool) (id : List UInt8) :
    (d.checkOne now ep reachable).circuitBreakers.lookup id =
      if id = ep.id then
        some (if reachable then ((d.circuitBreakers.lookup id).getD .init).onSuccess
          else ((d.circuitBreakers.lookup id).getD .init).onFailure d.config.breaker now)
      else d.circuitBreakers.lookup id := by
  rw [checkOne, Table.lookup_modify, lookup_getOrCreateCb]
  by_cases hid : id = ep.id
  · rw [if_pos hid, if_pos hid, if_pos hid, Option.map_some, hid]
  · rw [if_neg hid, if_neg hid, if_neg hid]

end ServiceDiscovery

end UltraNet
