/-
`collect_tcp` and `collect_udp` as machines: one step is a read, or one pass of
the loop that cuts records out of `pending`.
-/
import UltraNet.Collect
import UltraNet.GuardedRun

namespace UltraNet

universe u

/-- Where a collector is. -/
inductive CollectPhase where
  | reading
  -- in the loop over the records of `pending`
  | cutting
  | returned (err : Nat)
  -- a record was copied from behind the end of `pending`
  | outside
deriving DecidableEq

structure CollectPoint (C : Type u) where
  phase : CollectPhase
  collector : C

/-- The collector reads again, or it returns. -/
def CollectPoint.ofResult {C : Type u} (result : Option Nat × C) : CollectPoint C :=
  match result.1 with
  | none => ⟨.reading, result.2⟩
  | some err => ⟨.returned err, result.2⟩

namespace Collector

/-- The check of the length in front of `pending`. -/
def BadLength (cfg : CollectConfig) (pending : List UInt8) : Prop :=
  readLeU32 pending = 0 ∨ (readLeU32 pending).toNat > cfg.maxRecordBytes

instance (cfg : CollectConfig) (pending : List UInt8) :
    Decidable (BadLength cfg pending) :=
  inferInstanceAs (Decidable (_ ∨ _))

/-- The batch goes to the sink where a record of this length has no room. -/
def deliverBefore (cfg : CollectConfig) (sink : BatchSink) (c : Collector)
    (len : Nat) : Bool × Collector :=
  if 0 < c.batch.size ∧ (c.batch.size + 1 > cfg.batchRecords ∨
      c.batch.payload + len > cfg.batchBytes) then
    c.deliver sink
  else (true, c)

def deliverFull (cfg : CollectConfig) (sink : BatchSink) (c : Collector) :
    Bool × Collector :=
  if c.batch.size ≥ cfg.batchRecords ∨ c.batch.payload ≥ cfg.batchBytes ∨
      cfg.batchDelay = 0 then
    c.deliver sink
  else (true, c)

/-- One pass of the loop over `pending`. -/
def cutRecord (cfg : CollectConfig) (sink : BatchSink) (c : Collector) :
    CollectPoint Collector :=
  if c.pending.length < 4 then ⟨.reading, c⟩
  else
    let len := readLeU32 c.pending
    if BadLength cfg c.pending then ⟨.returned eMSGSIZE, (c.deliver sink).2⟩
    else if c.pending.length < (4 + len).toNat then ⟨.reading, c⟩
    else
      match c.deliverBefore cfg sink len.toNat with
      | (false, c) => ⟨.returned 0, c⟩
      | (true, c) =>
          -- `4u + len` was compared, and it may have wrapped
          if c.pending.length < 4 + len.toNat then ⟨.outside, c⟩
          else
            match (c.addRecord len).deliverFull cfg sink with
            | (false, c) => ⟨.returned 0, c⟩
            | (true, c) => ⟨.cutting, c⟩

end Collector

inductive TcpAction where
  | read (event : CollectEvent)
  | cut

/-- `collect_tcp`; nothing is possible once it has returned. -/
def tcpMachine (cfg : CollectConfig) (sink : BatchSink) :
    Machine (CollectPoint Collector) TcpAction where
  start := ⟨if configOk cfg then .reading else .returned eINVAL, .init⟩
  step p action :=
    match p.phase, action with
    | .reading, .read (.data bytes) =>
        some ⟨.cutting, { p.collector with pending := p.collector.pending ++ bytes }⟩
    | .reading, .read event => some (.ofResult (p.collector.step cfg sink event))
    | .cutting, .cut => some (p.collector.cutRecord cfg sink)
    | _, _ => none

theorem tcpMachine_start {cfg : CollectConfig} (hcfg : configOk cfg = true)
    (sink : BatchSink) : (tcpMachine cfg sink).start = ⟨.reading, .init⟩ := by
  simp [tcpMachine, hcfg]

/-- A batch of `collect_udp`: its records and where they came from. -/
abbrev DatagramBatch (P : Type u) := List (List UInt8 × Option P)

/-- What happens at the `RecvFrom` of `collect_udp`. -/
inductive DatagramEvent (P : Type u) where
  -- the batch is too old before the receive starts
  | late
  | timedOut
  | datagram (bytes : List UInt8) (source : Option P)
  | truncated
  | failed (code : Nat)

/-- `collect_udp` between two receives; `peers` belong to the batch. -/
structure DatagramCollector (P : Type u) where
  batch : RecordBatch
  peers : List (Option P)
  batchOpen : Bool
  stats : CollectStats
  delivered : List (DatagramBatch P)

namespace DatagramCollector

variable {P : Type u}

def init : DatagramCollector P := ⟨.empty, [], false, ⟨0, 0, 0, 0⟩, []⟩

/-- What the sink is given. -/
def batched (c : DatagramCollector P) : DatagramBatch P :=
  c.batch.records.zip c.peers

def deliver (sink : List (DatagramBatch P) → Bool) (c : DatagramCollector P) :
    Bool × DatagramCollector P :=
  if c.batch.size = 0 then (true, c)
  else
    let delivered := c.delivered ++ [c.batched]
    (sink delivered, { c with
      stats := { c.stats with
        records := c.stats.records + c.batch.size
        recordBytes := c.stats.recordBytes + c.batch.payload
        batches := c.stats.batches + 1 }
      delivered := delivered
      batch := .empty
      peers := []
      batchOpen := false })

def addRecord (c : DatagramCollector P) (bytes : List UInt8) (source : Option P) :
    DatagramCollector P :=
  { c with
    batchOpen := c.batchOpen || c.batch.size = 0
    batch := c.batch.add bytes
    peers := c.peers ++ [source] }

def deliverBefore (cfg : CollectConfig) (sink : List (DatagramBatch P) → Bool)
    (c : DatagramCollector P) (len : Nat) : Bool × DatagramCollector P :=
  if 0 < c.batch.size ∧ (c.batch.size + 1 > cfg.batchRecords ∨
      c.batch.payload + len > cfg.batchBytes) then
    c.deliver sink
  else (true, c)

def deliverFull (cfg : CollectConfig) (sink : List (DatagramBatch P) → Bool)
    (c : DatagramCollector P) : Bool × DatagramCollector P :=
  if c.batch.size ≥ cfg.batchRecords ∨ c.batch.payload ≥ cfg.batchBytes ∨
      cfg.batchDelay = 0 then
    c.deliver sink
  else (true, c)

def step (cfg : CollectConfig) (sink : List (DatagramBatch P) → Bool)
    (c : DatagramCollector P) : DatagramEvent P → Option Nat × DatagramCollector P
  | .late =>
      if c.batchOpen then
        match c.deliver sink with
        | (false, c) => (some 0, c)
        | (true, c) => (none, c)
      else (none, c)
  | .timedOut =>
      match c.deliver sink with
      | (false, c) => (some 0, c)
      | (true, c) => (none, c)
  | .failed code => (some code, (c.deliver sink).2)
  | .truncated =>
      (none, { c with
        stats := { c.stats with droppedOversize := c.stats.droppedOversize + 1 } })
  | .datagram bytes source =>
      match c.deliverBefore cfg sink bytes.length with
      | (false, c) => (some 0, c)
      | (true, c) =>
          match (c.addRecord bytes source).deliverFull cfg sink with
          | (false, c) => (some 0, c)
          | (true, c) => (none, c)

end DatagramCollector

/-- `collect_udp`. -/
def udpMachine {P : Type u} (cfg : CollectConfig)
    (sink : List (DatagramBatch P) → Bool) :
    Machine (CollectPoint (DatagramCollector P)) (DatagramEvent P) where
  start := ⟨if configOk cfg then .reading else .returned eINVAL, .init⟩
  step p event :=
    match p.phase with
    | .reading => some (.ofResult (p.collector.step cfg sink event))
    | _ => none

namespace Collector

variable {cfg : CollectConfig} {sink : BatchSink} {c : Collector}

/-- The sum in 32 bits is that of the numbers where lengths stay below. -/
theorem toNat_four_add (hmax : cfg.maxRecordBytes + 4 < 2 ^ 32)
    (hlength : ¬ BadLength cfg c.pending) :
    (4 + readLeU32 c.pending).toNat = 4 + (readLeU32 c.pending).toNat := by
  have hle := Nat.not_lt.mp fun hlong => hlength (.inr hlong)
  rw [UInt32.toNat_add]
  exact Nat.mod_eq_of_lt (by
    have hfour : (4 : UInt32).toNat = 4 := rfl
    omega)

theorem pending_deliver (sink : BatchSink) (c : Collector) :
    (c.deliver sink).2.pending = c.pending := by
  unfold deliver
  split
  · rfl
  · rfl

theorem pending_deliverBefore (cfg : CollectConfig) (sink : BatchSink) (c : Collector)
    (len : Nat) : (c.deliverBefore cfg sink len).2.pending = c.pending := by
  unfold deliverBefore
  split
  · exact pending_deliver sink c
  · rfl

theorem pending_deliverFull (cfg : CollectConfig) (sink : BatchSink) (c : Collector) :
    (c.deliverFull cfg sink).2.pending = c.pending := by
  unfold deliverFull
  split
  · exact pending_deliver sink c
  · rfl

/-- A pass that takes a record, in `cutRecords`. -/
theorem cutRecords_succ (sink : BatchSink) (fuel : Nat) (hfour : ¬ c.pending.length < 4)
    (hlength : ¬ BadLength cfg c.pending)
    (hlong : ¬ c.pending.length < (4 + readLeU32 c.pending).toNat) :
    c.cutRecords cfg sink (fuel + 1) =
      if (c.deliverBefore cfg sink (readLeU32 c.pending).toNat).1 then
        let added := (c.deliverBefore cfg sink (readLeU32 c.pending).toNat).2.addRecord
          (readLeU32 c.pending)
        if (added.deliverFull cfg sink).1 then
          (added.deliverFull cfg sink).2.cutRecords cfg sink fuel
        else (some 0, (added.deliverFull cfg sink).2)
      else (some 0, (c.deliverBefore cfg sink (readLeU32 c.pending).toNat).2) := by
  have hbad : ¬ (readLeU32 c.pending = 0 ∨
    (readLeU32 c.pending).toNat > cfg.maxRecordBytes) := hlength
  have hbefore : (if 0 < c.batch.size ∧ (c.batch.size + 1 > cfg.batchRecords ∨
        c.batch.payload + (readLeU32 c.pending).toNat > cfg.batchBytes) then
      c.deliver sink
    else (true, c)) = c.deliverBefore cfg sink (readLeU32 c.pending).toNat := rfl
  rw [cutRecords, if_neg hfour]
  simp only [if_neg hbad, if_neg hlong, hbefore]
  rcases c.deliverBefore cfg sink (readLeU32 c.pending).toNat with ⟨ok, next⟩
  cases ok with
  | false => rfl
  | true =>
      simp only [deliverFull, if_true]
      by_cases hfull : (next.addRecord (readLeU32 c.pending)).batch.size ≥
            cfg.batchRecords ∨
          (next.addRecord (readLeU32 c.pending)).batch.payload ≥ cfg.batchBytes ∨
          cfg.batchDelay = 0
      · simp only [if_pos hfull]
        rcases (next.addRecord (readLeU32 c.pending)).deliver sink with ⟨ok, last⟩
        cases ok with
        | false => rfl
        | true => rfl
      · simp only [if_neg hfull, if_true]

/-- A pass goes on with less to cut, or the loop over the passes ends here. -/
theorem cutRecord_cases (hmax : cfg.maxRecordBytes + 4 < 2 ^ 32) (sink : BatchSink)
    (c : Collector) :
    (∃ next, c.cutRecord cfg sink = ⟨.cutting, next⟩ ∧
        next.pending.length < c.pending.length ∧
        ∀ fuel, c.cutRecords cfg sink (fuel + 1) = next.cutRecords cfg sink fuel) ∨
      ∃ result, c.cutRecord cfg sink = .ofResult result ∧
        ∀ fuel, c.cutRecords cfg sink (fuel + 1) = result := by
  by_cases hfour : c.pending.length < 4
  · refine .inr ⟨(none, c), ?_, fun fuel => ?_⟩
    · rw [cutRecord, if_pos hfour]
      rfl
    · rw [cutRecords, if_pos hfour]
  by_cases hlength : BadLength cfg c.pending
  · refine .inr ⟨(some eMSGSIZE, (c.deliver sink).2), ?_, fun fuel => ?_⟩
    · rw [cutRecord, if_neg hfour]
      exact if_pos hlength
    · rw [cutRecords, if_neg hfour]
      exact if_pos hlength
  have hsum := toNat_four_add hmax hlength
  by_cases hshort : c.pending.length < (4 + readLeU32 c.pending).toNat
  · refine .inr ⟨(none, c), ?_, fun fuel => ?_⟩
    · rw [cutRecord, if_neg hfour]
      exact (if_neg hlength).trans (if_pos hshort)
    · rw [cutRecords, if_neg hfour]
      exact (if_neg hlength).trans (if_pos hshort)
  have hbefore := pending_deliverBefore cfg sink c (readLeU32 c.pending).toNat
  have hcut := fun fuel => cutRecords_succ sink fuel hfour hlength hshort
  rw [cutRecord, if_neg hfour]
  simp only [if_neg hlength, if_neg hshort]
  obtain ⟨⟨ok, next⟩, hnext⟩ :
      ∃ answer, c.deliverBefore cfg sink (readLeU32 c.pending).toNat = answer := ⟨_, rfl⟩
  simp only [hnext] at hbefore hcut ⊢
  cases ok with
  | false => exact .inr ⟨(some 0, next), rfl, hcut⟩
  | true =>
      have hinside : ¬ next.pending.length < 4 + (readLeU32 c.pending).toNat := by
        rw [hbefore, ← hsum]
        exact hshort
      have hfull := pending_deliverFull cfg sink (next.addRecord (readLeU32 c.pending))
      obtain ⟨⟨ok, last⟩, hlast⟩ :
          ∃ answer, (next.addRecord (readLeU32 c.pending)).deliverFull cfg sink =
            answer := ⟨_, rfl⟩
      simp only [if_neg hinside, if_true, hlast] at hfull hcut ⊢
      cases ok with
      | false => exact .inr ⟨(some 0, last), rfl, hcut⟩
      | true =>
          refine .inl ⟨last, rfl, ?_, hcut⟩
          rw [hfull, addRecord, hbefore, List.length_drop, hsum]
          omega

theorem cutRecords_passes (hmax : cfg.maxRecordBytes + 4 < 2 ^ 32) (sink : BatchSink)
    (fuel : Nat) (hfuel : c.pending.length ≤ fuel) :
    ∃ passes, (tcpMachine cfg sink).runFrom ⟨.cutting, c⟩ (List.replicate passes .cut) =
      some (.ofResult (c.cutRecords cfg sink fuel)) := by
  induction fuel generalizing c with
  | zero =>
      refine ⟨1, ?_⟩
      have hfour : c.pending.length < 4 := by omega
      simp only [List.replicate, Machine.runFrom, tcpMachine, cutRecord, if_pos hfour]
      rfl
  | succ fuel ih =>
      rcases cutRecord_cases hmax sink c with
        ⟨next, hpass, hless, hcut⟩ | ⟨result, hpass, hcut⟩
      · obtain ⟨passes, hrun⟩ := ih (c := next) (by omega)
        refine ⟨passes + 1, ?_⟩
        simp only [List.replicate, Machine.runFrom, tcpMachine, hpass, hcut] at hrun ⊢
        exact hrun
      · refine ⟨1, ?_⟩
        simp only [List.replicate, Machine.runFrom, tcpMachine, hpass, hcut]

/-- What `collect_tcp` does from one read to the next the machine does too. -/
theorem run_tcpMachine (hmax : cfg.maxRecordBytes + 4 < 2 ^ 32) (sink : BatchSink)
    (events : List CollectEvent) {err : Nat} {last : Collector}
    (hrun : Collector.run cfg sink c events = some (err, last)) :
    ∃ word, (tcpMachine cfg sink).runFrom ⟨.reading, c⟩ word =
      some ⟨.returned err, last⟩ := by
  induction events generalizing c with
  | nil => cases hrun
  | cons event events ih =>
      have hstep : ∃ first, (tcpMachine cfg sink).runFrom ⟨.reading, c⟩ first =
          some (.ofResult (c.step cfg sink event)) := by
        cases event with
        | data bytes =>
            obtain ⟨passes, hpasses⟩ := cutRecords_passes hmax sink
              (c.pending ++ bytes).length
              (c := { c with pending := c.pending ++ bytes }) (Nat.le_refl _)
            exact ⟨.read (.data bytes) :: List.replicate passes .cut, hpasses⟩
        | late => exact ⟨[.read .late], rfl⟩
        | timedOut => exact ⟨[.read .timedOut], rfl⟩
        | failed code => exact ⟨[.read (.failed code)], rfl⟩
        | closed => exact ⟨[.read .closed], rfl⟩
      obtain ⟨first, hfirst⟩ := hstep
      rw [Collector.run] at hrun
      obtain ⟨⟨result, next⟩, hnext⟩ : ∃ answer, c.step cfg sink event = answer :=
        ⟨_, rfl⟩
      rw [hnext] at hrun hfirst
      cases result with
      | some code =>
          obtain ⟨rfl, rfl⟩ := Prod.mk.inj (Option.some.inj hrun)
          exact ⟨first, hfirst⟩
      | none =>
          obtain ⟨rest, hrest⟩ := ih hrun
          refine ⟨first ++ rest, ?_⟩
          rw [Machine.runFrom_append, hfirst]
          exact hrest

end Collector

/-- A run of `collect_tcp` to its end is one of the machine. -/
theorem collectTcp_tcpMachine {cfg : CollectConfig} (hcfg : configOk cfg = true)
    (hmax : cfg.maxRecordBytes + 4 < 2 ^ 32) (sink : BatchSink)
    (events : List CollectEvent) {err : Nat} {last : Collector}
    (hrun : collectTcp cfg sink events = some (err, last)) :
    ∃ word, (tcpMachine cfg sink).run word = some ⟨.returned err, last⟩ := by
  rw [collectTcp, hcfg] at hrun
  obtain ⟨word, hword⟩ := Collector.run_tcpMachine hmax sink events hrun
  refine ⟨word, ?_⟩
  rw [Machine.run, tcpMachine_start hcfg]
  exact hword

end UltraNet
