/-
The table of endpoints under its writers: `run`, the answers of DNS and the health
checks.
-/
import UltraNet.RunStates
import UltraNet.ServiceDiscovery

namespace UltraNet

/-- The endpoint without what the health checks write. -/
def Endpoint.configured (ep : Endpoint) : Endpoint := { ep with healthy := true }

namespace ServiceDiscovery

/-- Each id once, and for a static list the configured endpoints. -/
structure TableOk (start d : ServiceDiscovery) : Prop where
  distinct : (d.allEndpoints.map Endpoint.id).Nodup
  static : start.backend = .static → d.allEndpoints.map Endpoint.configured =
    start.staticEndpoints.map Endpoint.configured

structure TableInv (start d : ServiceDiscovery) : Prop extends TableOk start d where
  backend : d.backend = start.backend
  staticEndpoints : d.staticEndpoints = start.staticEndpoints

/-- Nothing is pushed by `run`, and no answer repeats a target. -/
def FillsOnce (d : ServiceDiscovery) : DiscoveryAction → Prop
  | .run => d.backend = .static → d.staticEndpoints = []
  | .update incoming => (incoming.map Endpoint.id).Nodup
  | .check _ _ _ => True

variable {start d next : ServiceDiscovery}

theorem map_configured_setHealthy (id : List UInt8) (reachable : Bool)
    (table : List Endpoint) :
    (setHealthy id reachable table).map Endpoint.configured =
      table.map Endpoint.configured := by
  induction table with
  | nil => rfl
  | cons ep rest ih =>
      rw [setHealthy]
      split
      · rfl
      · rw [List.map_cons, List.map_cons, ih]

theorem map_id_configured (table : List Endpoint) :
    (table.map Endpoint.configured).map Endpoint.id = table.map Endpoint.id := by
  rw [List.map_map]
  rfl

theorem TableInv.keep (hinv : TableInv start d) {action : DiscoveryAction}
    (hfills : d.FillsOnce action) (hstep : d.step action = some next) :
    TableInv start next := by
  cases action with
  | run =>
      obtain rfl := Option.some.inj hstep
      cases hbackend : d.backend with
      | dnsSrv =>
          rw [startRun_dnsSrv hbackend]
          exact hinv
      | static =>
          have hsame : d.allEndpoints ++ d.staticEndpoints = d.allEndpoints := by
            rw [hfills hbackend, List.append_nil]
          rw [startRun_static hbackend, hsame]
          exact ⟨⟨hinv.distinct, hinv.static⟩, hinv.backend, hinv.staticEndpoints⟩
  | update incoming =>
      obtain ⟨hdns, hnext⟩ := Option.ite_none_right_eq_some.mp hstep
      obtain rfl := Option.some.inj hnext
      refine ⟨⟨hfills, fun hstatic => ?_⟩, hinv.backend, hinv.staticEndpoints⟩
      rw [← hinv.backend, hdns] at hstatic
      cases hstatic
  | check now ep reachable =>
      obtain rfl := Option.some.inj hstep
      refine ⟨⟨?_, fun hstatic => ?_⟩, hinv.backend, hinv.staticEndpoints⟩
      · rw [map_id_checkOne]
        exact hinv.distinct
      · rw [← hinv.static hstatic]
        exact map_configured_setHealthy ep.id reachable d.allEndpoints

/-- A second copy of an endpoint has its id. -/
theorem TableInv.break (hinv : TableInv start d) {action : DiscoveryAction}
    (hfills : ¬ d.FillsOnce action) (hstep : d.step action = some next) :
    ¬ TableOk start next := by
  intro hok
  cases action with
  | run =>
      obtain rfl := Option.some.inj hstep
      obtain ⟨hstatic, hsome⟩ := Classical.not_imp.mp hfills
      obtain ⟨ep, rest, hlist⟩ := List.exists_cons_of_ne_nil hsome
      have hdistinct := hok.distinct
      have hsame := hinv.static (hinv.backend ▸ hstatic)
      rw [startRun_static hstatic, List.map_append] at hdistinct
      have hids : d.allEndpoints.map Endpoint.id = d.staticEndpoints.map Endpoint.id := by
        rw [← map_id_configured, hsame, hinv.staticEndpoints, map_id_configured]
      rw [hids, hlist, List.map_cons] at hdistinct
      exact List.disjoint_of_nodup_append hdistinct List.mem_cons_self List.mem_cons_self
  | update incoming =>
      obtain ⟨-, hnext⟩ := Option.ite_none_right_eq_some.mp hstep
      obtain rfl := Option.some.inj hnext
      exact hfills hok.distinct
  | check now ep reachable => exact hfills trivial

theorem Constructed.table (hstart : start.Constructed)
    (hdistinct : (start.staticEndpoints.map Endpoint.id).Nodup) : TableInv start start := by
  refine ⟨⟨?_, ?_⟩, rfl, rfl⟩
  · rcases hstart with ⟨config, rfl⟩ | ⟨table, config, rfl⟩
    · exact hdistinct
    · exact hdistinct
  · rcases hstart with ⟨config, rfl⟩ | ⟨table, config, rfl⟩
    · intro hstatic
      cases hstatic
    · exact fun _ => rfl

/-- The table is right at all times just if `run` finds no static list to push and
every answer has distinct targets. -/
theorem table_ok_iff (start : ServiceDiscovery) (hstart : start.Constructed)
    (hdistinct : (start.staticEndpoints.map Endpoint.id).Nodup)
    (word : List DiscoveryAction) (last : ServiceDiscovery)
    (hrun : start.machine.run word = some last) :
    start.machine.Throughout (TableOk start) word ↔ start.machine.Meets FillsOnce word :=
  start.machine.throughout_iff (fun _ hinv => hinv.toTableOk)
    (fun _ _ _ hinv => hinv.keep) (fun _ _ _ hinv => hinv.break)
    (hstart.table hdistinct) word hrun

/-- Two targets, the first of which is replaced. -/
theorem table_ok_refreshed :
    let config : DiscoveryConfig := ⟨30000, 10000, true, 3, 30000⟩
    let first : Endpoint := ⟨[97], 80, 0, 0, true⟩
    let second : Endpoint := ⟨[98], 80, 0, 0, true⟩
    (ofService config).machine.Throughout (TableOk (ofService config))
      [.run, .update [first, second], .check 5 first false, .update [second]] := by
  intro config first second
  refine (table_ok_iff (ofService config) (.inl ⟨config, rfl⟩) (by decide) _ _ rfl).mpr ?_
  have hfirst : ([first, second].map Endpoint.id).Nodup := by decide
  have hsecond : ([second].map Endpoint.id).Nodup := by decide
  exact ⟨fun hstatic => (by cases hstatic), hfirst, trivial, hsecond, trivial⟩

/-- `run` puts a static list into the table a second time. -/
theorem table_doubled :
    let config : DiscoveryConfig := ⟨30000, 10000, true, 3, 30000⟩
    let ep : Endpoint := ⟨[97], 80, 0, 0, true⟩
    let start := ofEndpoints [ep] config
    ∃ last, start.machine.run [.run] = some last ∧ last.allEndpoints = [ep, ep] ∧
      ¬ start.machine.Throughout (TableOk start) [.run] := by
  intro config ep start
  refine ⟨_, rfl, rfl, ?_⟩
  have htwice : ¬ ([ep, ep].map Endpoint.id).Nodup := by decide
  rintro ⟨-, hok⟩
  exact htwice hok.distinct

/-- The endpoints of an answer are distinct where its targets are. -/
theorem nodup_querySrv (records : List Dns.SrvRecord) :
    ((querySrv records).map Endpoint.id).Nodup ↔
      (records.map fun record => (record.target, UInt16.ofNat record.port)).Nodup := by
  have hperm : ((querySrv records).map Endpoint.id).Perm
      (records.map fun record =>
        record.target ++ 58 :: decimalText (UInt16.ofNat record.port).toNat) := by
    rw [querySrv, List.map_map]
    exact (List.mergeSort_perm records _).map _
  rw [hperm.nodup_iff]
  have hpairs : (records.map fun record =>
        record.target ++ 58 :: decimalText (UInt16.ofNat record.port).toNat) =
      (records.map fun record => (record.target, UInt16.ofNat record.port)).map
        fun target => target.1 ++ 58 :: decimalText target.2.toNat := by
    rw [List.map_map]
    rfl
  rw [hpairs, List.nodup_map_iff]
  intro first second heq
  have hid : (Endpoint.mk first.1 first.2 0 0 true).id =
      (Endpoint.mk second.1 second.2 0 0 true).id := heq
  obtain ⟨hhost, hport⟩ := Endpoint.id_inj.mp hid
  exact Prod.ext hhost hport

/-- What answers of DNS, one after the other, do to the table. -/
def refreshes (answers : List (List Dns.SrvRecord)) : List DiscoveryAction :=
  answers.map fun records => .update (querySrv records)

/-- No answer names a target twice. -/
def Distinct (answers : List (List Dns.SrvRecord)) : Prop :=
  ∀ records ∈ answers,
    (records.map fun record => (record.target, UInt16.ofNat record.port)).Nodup

theorem refreshes_run (answers : List (List Dns.SrvRecord)) (hdns : d.backend = .dnsSrv) :
    (∃ last, start.machine.runFrom d (refreshes answers) = some last) ∧
      (start.machine.MeetsFrom FillsOnce d (refreshes answers) ↔ Distinct answers) := by
  induction answers generalizing d with
  | nil => exact ⟨⟨d, rfl⟩, fun _ => nofun, fun _ => trivial⟩
  | cons records rest ih =>
      have hstep : start.machine.step d (.update (querySrv records)) =
          some (d.updateEndpoints (querySrv records)).2 := if_pos hdns
      obtain ⟨hrun, hmeets⟩ := @ih (d.updateEndpoints (querySrv records)).2 hdns
      refine ⟨?_, ?_⟩
      · simp only [refreshes, List.map_cons, Machine.runFrom, hstep]
        exact hrun
      · simp only [refreshes, List.map_cons, Machine.MeetsFrom, hstep]
        refine (and_congr (nodup_querySrv records) hmeets).trans ?_
        rw [Distinct, Distinct, List.forall_mem_cons]

/-- With DNS the table is right at all times just if no answer names a target twice. -/
theorem throughout_refreshes (config : DiscoveryConfig) (answers : List (List Dns.SrvRecord)) :
    (ofService config).machine.Throughout (TableOk (ofService config)) (refreshes answers) ↔
      Distinct answers := by
  have hinv : TableInv (ofService config) (ofService config) :=
    (Constructed.table (.inl ⟨config, rfl⟩) .nil)
  obtain ⟨⟨last, hrun⟩, hmeets⟩ :=
    @refreshes_run (ofService config) (ofService config) answers rfl
  refine Iff.trans ?_ hmeets
  exact (ofService config).machine.throughout_iff (fun _ hinv => hinv.toTableOk)
    (fun _ _ _ hinv => hinv.keep) (fun _ _ _ hinv => hinv.break) hinv _ hrun

end ServiceDiscovery

end UltraNet
