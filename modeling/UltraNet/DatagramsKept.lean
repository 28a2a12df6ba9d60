/-
What a sink that never stops `collect_udp` is given: the datagrams that arrived
whole, in order and with their peers.
-/
import UltraNet.DatagramBatches

namespace UltraNet

universe u

namespace DatagramEvent

variable {P : Type u}

/-- What a receive brings: nothing where the datagram was cut off. -/
def received : DatagramEvent P → Option (List UInt8 × Option P)
  | .datagram bytes source => some (bytes, source)
  | _ => none

def isTruncated : DatagramEvent P → Bool
  | .truncated => true
  | _ => false

def isFailed : DatagramEvent P → Bool
  | .failed _ => true
  | _ => false

end DatagramEvent

/-- The stats that these batches and drops come to. -/
def CollectStats.ofBatches {P : Type u} (delivered : List (DatagramBatch P))
    (dropped : Nat) : CollectStats :=
  ⟨delivered.flatten.length, delivered.length,
    (delivered.flatten.map fun datagram => datagram.1.length).sum, dropped⟩

/-- The bounds on a batch of datagrams. -/
def DatagramBatch.Ok {P : Type u} (cfg : CollectConfig) (batch : DatagramBatch P) : Prop :=
  batch ≠ [] ∧ Collector.BatchOk cfg (batch.map Prod.fst)

namespace DatagramCollector

variable {P : Type u} {cfg : CollectConfig} {seen : List (DatagramEvent P)}
  {c : DatagramCollector P}

def keepGoing : List (DatagramBatch P) → Bool := fun _ => true

/-- After these events: what was received is delivered or in the batch. -/
structure Kept (cfg : CollectConfig) (seen : List (DatagramEvent P))
    (c : DatagramCollector P) : Prop where
  found : c.delivered.flatten ++ c.batched = seen.filterMap DatagramEvent.received
  peers : c.peers.length = c.batch.size
  stats : c.stats = .ofBatches c.delivered (seen.countP DatagramEvent.isTruncated)
  delivered : ∀ batch ∈ c.delivered, batch.Ok cfg
  batch : Collector.BatchOk cfg c.batch.records

theorem Kept.records_batched (hkept : c.Kept cfg seen) :
    c.batched.map Prod.fst = c.batch.records := by
  exact List.map_fst_zip (Nat.le_of_eq (by rw [hkept.peers, RecordBatch.length_records]))

theorem Kept.length_batched (hkept : c.Kept cfg seen) :
    c.batched.length = c.batch.size := by
  rw [← RecordBatch.length_records, ← hkept.records_batched, List.length_map]

theorem Kept.payload_batched (hkept : c.Kept cfg seen) :
    (c.batched.map fun datagram => datagram.1.length).sum = c.batch.payload := by
  rw [RecordBatch.payload_eq, ← hkept.records_batched, List.map_map]
  rfl

theorem Kept.deliver (hkept : c.Kept cfg seen) :
    ∃ next, c.deliver keepGoing = (true, next) ∧ next.Kept cfg seen ∧
      next.batch.records = [] := by
  unfold DatagramCollector.deliver
  split
  · rename_i hsize
    refine ⟨c, rfl, hkept, ?_⟩
    rw [← List.length_eq_zero_iff, RecordBatch.length_records, hsize]
  · rename_i hsize
    refine ⟨_, rfl, ⟨?_, rfl, ?_, ?_, ?_⟩, rfl⟩
    · rw [← hkept.found]
      simp [batched, RecordBatch.records, RecordBatch.empty]
    · simp [hkept.stats, CollectStats.ofBatches, hkept.length_batched,
        ← hkept.payload_batched]
    · intro batch hbatch
      rcases List.mem_append.mp hbatch with hold | hnew
      · exact hkept.delivered batch hold
      · obtain rfl := List.mem_singleton.mp hnew
        refine ⟨?_, ?_⟩
        · rw [← List.length_pos_iff, hkept.length_batched]
          omega
        · rw [hkept.records_batched]
          exact hkept.batch
    · exact ⟨Nat.zero_le _, .inr (Nat.zero_le _)⟩

/-- The datagram fits: the batch went to the sink if it did not. -/
theorem Kept.deliverBefore (hcfg : configOk cfg = true) (hkept : c.Kept cfg seen)
    (bytes : List UInt8) :
    ∃ next, c.deliverBefore cfg keepGoing bytes.length = (true, next) ∧
      next.Kept cfg seen ∧ Collector.BatchOk cfg (next.batch.records ++ [bytes]) := by
  simp only [configOk, Bool.and_eq_true, decide_eq_true_eq] at hcfg
  unfold DatagramCollector.deliverBefore
  split
  · obtain ⟨next, hdeliver, hnext, hempty⟩ := hkept.deliver
    refine ⟨next, hdeliver, hnext, ?_⟩
    rw [hempty]
    exact ⟨hcfg.1.1, .inr (Nat.le_refl 1)⟩
  · rename_i hroom
    refine ⟨c, rfl, hkept, ?_⟩
    have hsize := c.batch.length_records
    have hpayload := c.batch.payload_eq
    unfold Collector.BatchOk
    simp only [List.length_append, List.length_singleton, List.map_append,
      List.sum_append, List.map_singleton, List.sum_singleton]
    omega

theorem Kept.addRecord (hkept : c.Kept cfg seen) (bytes : List UInt8)
    (source : Option P) (hroom : Collector.BatchOk cfg (c.batch.records ++ [bytes])) :
    (c.addRecord bytes source).Kept cfg (seen ++ [.datagram bytes source]) := by
  have hbatched : (c.addRecord bytes source).batched = c.batched ++ [(bytes, source)] := by
    simp only [batched, DatagramCollector.addRecord, RecordBatch.records_add]
    rw [List.zip_append (by rw [hkept.peers, RecordBatch.length_records])]
    rfl
  refine ⟨?_, ?_, ?_, hkept.delivered, ?_⟩
  · rw [hbatched, List.filterMap_append, ← hkept.found, List.append_assoc]
    rfl
  · simp [DatagramCollector.addRecord, hkept.peers, RecordBatch.size, RecordBatch.add]
  · rw [List.countP_append]
    exact hkept.stats
  · simp only [DatagramCollector.addRecord, RecordBatch.records_add]
    exact hroom

theorem Kept.deliverFull (hkept : c.Kept cfg seen) :
    ∃ next, c.deliverFull cfg keepGoing = (true, next) ∧ next.Kept cfg seen := by
  unfold DatagramCollector.deliverFull
  split
  · obtain ⟨next, hdeliver, hnext, -⟩ := hkept.deliver
    exact ⟨next, hdeliver, hnext⟩
  · exact ⟨c, rfl, hkept⟩

/-- Time passes and nothing is received. -/
theorem Kept.quiet (hkept : c.Kept cfg seen) {event : DatagramEvent P}
    (hreceived : event.received = none) (htruncated : event.isTruncated = false) :
    c.Kept cfg (seen ++ [event]) := by
  refine ⟨?_, hkept.peers, ?_, hkept.delivered, hkept.batch⟩
  · rw [List.filterMap_append, List.filterMap_cons_none hreceived, List.filterMap_nil,
      List.append_nil]
    exact hkept.found
  · rw [List.countP_append, List.countP_cons, htruncated]
    exact hkept.stats

theorem Kept.step (hcfg : configOk cfg = true) (hkept : c.Kept cfg seen)
    {event : DatagramEvent P} (hevent : event.isFailed = false) :
    ∃ next, c.step cfg keepGoing event = (none, next) ∧
      next.Kept cfg (seen ++ [event]) := by
  cases event with
  | failed code => cases hevent
  | late =>
      by_cases hopen : c.batchOpen = true
      · obtain ⟨next, hdeliver, hnext, -⟩ := hkept.deliver
        refine ⟨next, ?_, hnext.quiet rfl rfl⟩
        simp only [DatagramCollector.step, if_pos hopen, hdeliver]
      · exact ⟨c, if_neg hopen, hkept.quiet rfl rfl⟩
  | timedOut =>
      obtain ⟨next, hdeliver, hnext, -⟩ := hkept.deliver
      refine ⟨next, ?_, hnext.quiet rfl rfl⟩
      simp only [DatagramCollector.step, hdeliver]
  | truncated =>
      refine ⟨_, rfl, ⟨?_, hkept.peers, ?_, hkept.delivered, hkept.batch⟩⟩
      · rw [List.filterMap_append, ← hkept.found]
        exact (List.append_nil _).symm
      · rw [List.countP_append, hkept.stats]
        rfl
  | datagram bytes source =>
      obtain ⟨before, hbefore, hroomy, hroom⟩ := hkept.deliverBefore hcfg bytes
      obtain ⟨next, hfull, hnext⟩ := (hroomy.addRecord bytes source hroom).deliverFull
      refine ⟨next, ?_, hnext⟩
      simp only [DatagramCollector.step, hbefore, hfull]

theorem Kept.run (hcfg : configOk cfg = true) (events : List (DatagramEvent P))
    (hevents : ∀ event ∈ events, event.isFailed = false) (hkept : c.Kept cfg seen) :
    ∃ next, (udpMachine cfg keepGoing).runFrom ⟨.reading, c⟩ events =
        some ⟨.reading, next⟩ ∧ next.Kept cfg (seen ++ events) := by
  induction events generalizing c seen with
  | nil => exact ⟨c, rfl, by rwa [List.append_nil]⟩
  | cons event rest ih =>
      obtain ⟨next, hstep, hnext⟩ := hkept.step hcfg (hevents event List.mem_cons_self)
      obtain ⟨last, hrun, hlast⟩ := ih
        (fun other hother => hevents other (List.mem_cons_of_mem event hother)) hnext
      refine ⟨last, ?_, ?_⟩
      · simp only [Machine.runFrom, udpMachine, hstep, CollectPoint.ofResult] at hrun ⊢
        exact hrun
      · rwa [List.append_assoc] at hlast

theorem init_kept (cfg : CollectConfig) : (init : DatagramCollector P).Kept cfg [] where
  found := rfl
  peers := rfl
  stats := rfl
  delivered := fun batch hbatch => by cases hbatch
  batch := ⟨Nat.zero_le _, .inr (Nat.zero_le _)⟩

/-- What `collect_udp` has done when a receive fails. -/
theorem run_failed (hcfg : configOk cfg = true) (events : List (DatagramEvent P))
    (hevents : ∀ event ∈ events, event.isFailed = false) (code : Nat) :
    ∃ last, (udpMachine cfg keepGoing).run (events ++ [.failed code]) =
        some ⟨.returned code, last⟩ ∧
      last.delivered.flatten = events.filterMap DatagramEvent.received ∧
      last.stats = .ofBatches last.delivered (events.countP DatagramEvent.isTruncated) ∧
      ∀ batch ∈ last.delivered, batch.Ok cfg := by
  obtain ⟨c, hrun, hkept⟩ := (init_kept cfg).run hcfg events hevents
  obtain ⟨last, hdeliver, hlast, hempty⟩ := hkept.deliver
  have hfound := hlast.found
  rw [batched, hempty, List.zip_nil_left, List.append_nil] at hfound
  refine ⟨last, ?_, hfound, hlast.stats, hlast.delivered⟩
  have hstart : (udpMachine cfg keepGoing : Machine _ (DatagramEvent P)).start =
      ⟨.reading, init⟩ := by simp [udpMachine, hcfg]
  rw [Machine.run, Machine.runFrom_append, hstart, hrun, Option.bind_some]
  simp only [Machine.runFrom, udpMachine, DatagramCollector.step, hdeliver]
  rfl

end DatagramCollector

/-- A datagram with the bytes of its address. -/
def datagramBytes (datagram : List UInt8 × Option PeerAddress) :
    List UInt8 × Option (List UInt8) :=
  (datagram.1, datagram.2.map PeerAddress.bytes)

theorem filterMap_bytewise (events : List (DatagramEvent PeerAddress)) :
    (events.map DatagramEvent.bytewise).filterMap DatagramEvent.received =
      (events.filterMap DatagramEvent.received).map datagramBytes := by
  rw [List.filterMap_map, List.map_filterMap]
  congr 1
  funext event
  cases event <;> rfl

theorem countP_bytewise (events : List (DatagramEvent PeerAddress)) :
    (events.map DatagramEvent.bytewise).countP DatagramEvent.isTruncated =
      events.countP DatagramEvent.isTruncated := by
  rw [List.countP_map]
  congr 1
  funext event
  cases event <;> rfl

theorem isFailed_bytewise (event : DatagramEvent PeerAddress) :
    event.bytewise.isFailed = event.isFailed := by
  cases event <;> rfl

/-- With a sink that never stops it, `collect_udp` ends with the error of its
receive and has given the sink every datagram that was not cut off, in order and
with its peer.  It counts these and those cut off, and no batch is too large. -/
theorem collect_udp_keeps (cfg : CollectConfig) (hcfg : configOk cfg = true)
    (events : List (DatagramEvent PeerAddress))
    (hevents : ∀ event ∈ events, event.isFailed = false) (code : Nat) :
    ∃ last, (collectUdp cfg fun _ => true).run (events ++ [.failed code]) =
        some ⟨.returned code, last⟩ ∧
      last.delivered.flatten = (events.filterMap DatagramEvent.received).map datagramBytes ∧
      last.stats = .ofBatches last.delivered (events.countP DatagramEvent.isTruncated) ∧
      ∀ batch ∈ last.delivered, batch.Ok cfg := by
  have hbytewise : ∀ event ∈ events.map DatagramEvent.bytewise,
      event.isFailed = false := by
    intro event hevent
    obtain ⟨one, hone, rfl⟩ := List.mem_map.mp hevent
    rw [isFailed_bytewise]
    exact hevents one hone
  obtain ⟨datagrams, hrun, hfound, hstats, hbatches⟩ :=
    DatagramCollector.run_failed hcfg (events.map DatagramEvent.bytewise) hbytewise code
  have hsimulated := runFrom_collectUdp cfg (fun _ => true) (events ++ [.failed code])
    (collectUdp cfg fun _ => true).start
  rw [List.map_append] at hsimulated
  have hrun : (udpMachine cfg fun _ => true).runFrom _ _ = _ := hrun
  obtain ⟨⟨phase, last⟩, hlast, hsame⟩ :=
    Option.map_eq_some_iff.mp (hsimulated.symm.trans hrun)
  obtain ⟨rfl, rfl⟩ := CollectPoint.mk.inj hsame
  refine ⟨last, hlast, ?_, ?_, hbatches⟩
  · rw [← filterMap_bytewise]
    exact hfound
  · rw [← countP_bytewise]
    exact hstats

/-- Two records to a batch, an empty datagram and one that was cut off. -/
theorem collect_udp_keeps_three :
    let cfg : CollectConfig := ⟨2, 4, 5, 10⟩
    let peer : PeerAddress := ⟨[2, 0, 7], by decide, by decide⟩
    let events := [DatagramEvent.datagram [1, 2, 3] (some peer), .truncated,
      .datagram [] none, .late, .datagram [9, 9] (some peer), .timedOut]
    ∃ last, (collectUdp cfg fun _ => true).run (events ++ [.failed 9]) =
        some ⟨.returned 9, last⟩ ∧
      last.delivered.flatten =
        [([1, 2, 3], some [2, 0, 7]), ([], none), ([9, 9], some [2, 0, 7])] ∧
      last.stats.droppedOversize = 1 := by
  intro cfg peer events
  have hevents : ∀ event ∈ events, event.isFailed = false := by
    simp [events, DatagramEvent.isFailed]
  obtain ⟨last, hrun, hfound, hstats, -⟩ :=
    collect_udp_keeps cfg (by decide) events hevents 9
  exact ⟨last, hrun, hfound, by rw [hstats]; rfl⟩

end UltraNet
