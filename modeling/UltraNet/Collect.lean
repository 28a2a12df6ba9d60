/-
Records over TCP: `emit_tcp` writes each record behind its length, several to a
write, and `collect_tcp` cuts the stream into records again and gives them to a
sink in batches.
-/
import UltraNet.ByteOrder
import UltraNet.Codec

namespace UltraNet

def eIO : Nat := 5
def eINVAL : Nat := 22
def ePROTO : Nat := 71
def eMSGSIZE : Nat := 90

structure RecordItem where
  offset : Nat
  size : Nat

/-- `record_batch`: the bytes of all records and where each one is. -/
structure RecordBatch where
  bytes : List UInt8
  items : List RecordItem
  payload : Nat
  inside : ∀ item ∈ items, item.offset + item.size ≤ bytes.length
  total : payload = (items.map RecordItem.size).sum

namespace RecordBatch

def empty : RecordBatch := ⟨[], [], 0, by simp, rfl⟩

def size (batch : RecordBatch) : Nat := batch.items.length

def record (batch : RecordBatch) (item : RecordItem) : List UInt8 :=
  (batch.bytes.drop item.offset).take item.size

/-- What `at` returns for each index. -/
def records (batch : RecordBatch) : List (List UInt8) :=
  batch.items.map batch.record

def add (batch : RecordBatch) (data : List UInt8) : RecordBatch where
  bytes := batch.bytes ++ data
  items := batch.items ++ [⟨batch.bytes.length, data.length⟩]
  payload := batch.payload + data.length
  inside := by
    intro item hitem
    rw [List.length_append]
    rcases List.mem_append.mp hitem with hold | hnew
    · have := batch.inside item hold
      omega
    · obtain rfl := List.mem_singleton.mp hnew
      exact Nat.le_refl _
  total := by simp [batch.total]

theorem records_add (batch : RecordBatch) (data : List UInt8) :
    (batch.add data).records = batch.records ++ [data] := by
  unfold records add
  rw [List.map_append]
  congr 1
  · apply List.map_congr_left
    intro item hitem
    have hinside := batch.inside item hitem
    rw [record, record, List.drop_append_of_le_length (by omega),
      List.take_append_of_le_length (by rw [List.length_drop]; omega)]
  · simp [record]

theorem length_records (batch : RecordBatch) :
    batch.records.length = batch.size := by
  simp [records, size]

/-- The payload is what the records hold. -/
theorem payload_eq (batch : RecordBatch) :
    batch.payload = (batch.records.map List.length).sum := by
  rw [batch.total, records, List.map_map]
  congr 1
  apply List.map_congr_left
  intro item hitem
  have := batch.inside item hitem
  simp only [Function.comp, record, List.length_take, List.length_drop]
  omega

end RecordBatch

structure CollectConfig where
  batchRecords : Nat
  batchBytes : Nat
  batchDelay : Int
  maxRecordBytes : Nat

def configOk (cfg : CollectConfig) : Bool :=
  0 < cfg.batchRecords && 0 < cfg.batchBytes && 0 < cfg.maxRecordBytes

/-- What each `Write` answers: an error, or how many bytes it takes at most. -/
abbrev WriteAnswers := Nat → Except Nat Nat

/-- The bytes written, the error if there is one, and the number of writes. -/
def writeComplete (answers : WriteAnswers) (data : List UInt8) (count : Nat) :
    List UInt8 × Option Nat × Nat :=
  if data = [] then ([], none, count)
  else
    match answers count with
    | .error code => ([], some code, count + 1)
    | .ok 0 => ([], some eIO, count + 1)
    | .ok (taken + 1) =>
        let (sent, failure, count) :=
          writeComplete answers (data.drop (taken + 1)) (count + 1)
        (data.take (taken + 1) ++ sent, failure, count)
termination_by data.length
decreasing_by
  have := List.length_pos_iff.mpr ‹_›
  rw [List.length_drop]
  omega

structure EmitGroup where
  buf : List UInt8
  grouped : Nat
  groupedWire : Nat
  groupedPayload : Nat

structure EmitResult where
  records : Nat
  recordBytes : Nat
  writes : Nat
  err : Nat
deriving DecidableEq

/-- `emit_tcp` between two records.  `sent` is what is on the stream, `count`
the number of `Write`s. -/
structure Emitter where
  group : EmitGroup
  result : EmitResult
  sent : List UInt8
  count : Nat

namespace Emitter

def init : Emitter := ⟨⟨[], 0, 0, 0⟩, ⟨0, 0, 0, 0⟩, [], 0⟩

def fail (e : Emitter) (code : Nat) : Emitter :=
  { e with result := { e.result with err := code } }

def flushEmitGroup (answers : WriteAnswers) (e : Emitter) : Bool × Emitter :=
  if e.group.buf = [] then (true, e)
  else
    match writeComplete answers e.group.buf e.count with
    | (sent, some code, count) =>
        (false, { e.fail code with sent := e.sent ++ sent, count := count })
    | (sent, none, count) =>
        (true, {
          group := ⟨[], 0, 0, 0⟩
          result := { e.result with
            records := e.result.records + e.group.grouped
            recordBytes := e.result.recordBytes + e.group.groupedPayload
            writes := e.result.writes + 1 }
          sent := e.sent ++ sent
          count := count })

/-- A record as it stands on the stream. -/
def recordWire (record : List UInt8) : List UInt8 :=
  leBytes 4 (UInt32.ofNat record.length).toNat ++ record

def append (e : Emitter) (record : List UInt8) : Emitter :=
  { e with group := {
      buf := e.group.buf ++ recordWire record
      grouped := e.group.grouped + 1
      groupedWire := e.group.groupedWire + (4 + record.length)
      groupedPayload := e.group.groupedPayload + record.length } }

/-- One pass of the loop; false is `co_return`. -/
def emitRecord (answers : WriteAnswers) (cfg : CollectConfig) (e : Emitter)
    (record : List UInt8) : Bool × Emitter :=
  if record = [] ∨ record.length > cfg.maxRecordBytes then
    match e.flushEmitGroup answers with
    | (false, e) => (false, e)
    | (true, e) => (false, e.fail eMSGSIZE)
  else
    let before :=
      if 0 < e.group.grouped ∧ (e.group.grouped + 1 > cfg.batchRecords ∨
          e.group.groupedWire + (4 + record.length) > cfg.batchBytes) then
        e.flushEmitGroup answers
      else (true, e)
    match before with
    | (false, e) => (false, e)
    | (true, e) =>
        let e := e.append record
        if e.group.grouped ≥ cfg.batchRecords ∨
            e.group.groupedWire ≥ cfg.batchBytes then
          e.flushEmitGroup answers
        else (true, e)

def emitRecords (answers : WriteAnswers) (cfg : CollectConfig) :
    List (List UInt8) → Emitter → Emitter
  | [], e => (e.flushEmitGroup answers).2
  | record :: rest, e =>
      match e.emitRecord answers cfg record with
      | (false, e) => e
      | (true, e) => emitRecords answers cfg rest e

end Emitter

def emitTcp (answers : WriteAnswers) (cfg : CollectConfig)
    (records : List (List UInt8)) : Emitter :=
  if records = [] then .init
  else if !configOk cfg then Emitter.init.fail eINVAL
  else Emitter.emitRecords answers cfg records .init

structure CollectStats where
  records : Nat
  batches : Nat
  recordBytes : Nat
  droppedOversize : Nat

/-- What happens at the `Read` of `collect_tcp`. -/
inductive CollectEvent where
  -- the batch is too old before the read starts
  | late
  | timedOut
  | data (bytes : List UInt8)
  | failed (code : Nat)
  | closed

/-- Whether to go on, given the batches that the sink has seen. -/
abbrev BatchSink := List (List (List UInt8)) → Bool

/-- `collect_tcp` between two reads.  `delivered` is what the sink got. -/
structure Collector where
  pending : List UInt8
  batch : RecordBatch
  batchOpen : Bool
  stats : CollectStats
  delivered : List (List (List UInt8))

namespace Collector

def init : Collector := ⟨[], .empty, false, ⟨0, 0, 0, 0⟩, []⟩

def deliver (sink : BatchSink) (c : Collector) : Bool × Collector :=
  if c.batch.size = 0 then (true, c)
  else
    let delivered := c.delivered ++ [c.batch.records]
    (sink delivered, { c with
      stats := { c.stats with
        records := c.stats.records + c.batch.size
        recordBytes := c.stats.recordBytes + c.batch.payload
        batches := c.stats.batches + 1 }
      delivered := delivered
      batch := .empty
      batchOpen := false })

/-- The first record of `pending` moves into the batch. -/
def addRecord (c : Collector) (len : UInt32) : Collector :=
  { c with
    batchOpen := c.batchOpen || c.batch.size = 0
    batch := c.batch.add ((c.pending.drop 4).take len.toNat)
    pending := c.pending.drop (4 + len).toNat }

/-- The loop over the complete records of `pending`: the error with which
`collect_tcp` returns, if it does.  A pass takes at least five bytes unless
`4u + len` wraps. -/
def cutRecords (cfg : CollectConfig) (sink : BatchSink) :
    Nat → Collector → Option Nat × Collector
  | 0, c => (none, c)
  | fuel + 1, c =>
      if c.pending.length < 4 then (none, c)
      else
        let len := readLeU32 c.pending
        if len = 0 ∨ len.toNat > cfg.maxRecordBytes then
          (some eMSGSIZE, (c.deliver sink).2)
        else if c.pending.length < (4 + len).toNat then (none, c)
        else
          let before :=
            if 0 < c.batch.size ∧ (c.batch.size + 1 > cfg.batchRecords ∨
                c.batch.payload + len.toNat > cfg.batchBytes) then
              c.deliver sink
            else (true, c)
          match before with
          | (false, c) => (some 0, c)
          | (true, c) =>
              let c := c.addRecord len
              if c.batch.size ≥ cfg.batchRecords ∨
                  c.batch.payload ≥ cfg.batchBytes ∨ cfg.batchDelay = 0 then
                match c.deliver sink with
                | (false, c) => (some 0, c)
                | (true, c) => cutRecords cfg sink fuel c
              else cutRecords cfg sink fuel c

def step (cfg : CollectConfig) (sink : BatchSink) (c : Collector) :
    CollectEvent → Option Nat × Collector
  | .late =>
      if c.batchOpen then
        match c.deliver sink with
        | (false, c) => (some 0, c)
        | (true, c) => (none, c)
      else (none, c)
  | .timedOut =>
      match c.deliver sink with
      | (false, c) => (some 0, c)
      | (true, c) => (none, c)
  | .failed code => (some code, (c.deliver sink).2)
  | .closed =>
      (some (if c.pending = [] then 0 else ePROTO), (c.deliver sink).2)
  | .data bytes =>
      let pending := c.pending ++ bytes
      cutRecords cfg sink pending.length { c with pending := pending }

def run (cfg : CollectConfig) (sink : BatchSink) :
    Collector → List CollectEvent → Option (Nat × Collector)
  | _, [] => none
  | c, event :: rest =>
      match c.step cfg sink event with
      | (some err, c) => some (err, c)
      | (none, c) => run cfg sink c rest

end Collector

/-- The error and the final state; nothing while it is still reading. -/
def collectTcp (cfg : CollectConfig) (sink : BatchSink)
    (events : List CollectEvent) : Option (Nat × Collector) :=
  if !configOk cfg then some (eINVAL, .init)
  else Collector.run cfg sink .init events

/-- Every write takes at least one byte. -/
def ShortWrites (answers : WriteAnswers) : Prop :=
  ∀ count, ∃ taken, answers count = .ok (taken + 1)

theorem writeComplete_eq {answers : WriteAnswers} (hanswers : ShortWrites answers)
    (data : List UInt8) (count : Nat) :
    ∃ last, writeComplete answers data count = (data, none, last) := by
  fun_induction writeComplete answers data count with
  | case1 count => exact ⟨count, rfl⟩
  | case2 data count hdata code hcode =>
      obtain ⟨taken, htaken⟩ := hanswers count
      rw [htaken] at hcode
      cases hcode
  | case3 data count hdata hzero =>
      obtain ⟨taken, htaken⟩ := hanswers count
      rw [htaken] at hzero
      cases hzero
  | case4 data count hdata taken htaken sent failure last hrest ih =>
      obtain ⟨final, hfinal⟩ := ih
      rw [hrest] at hfinal
      cases hfinal
      exact ⟨last, by rw [List.take_append_drop]⟩

/-- The lengths that `emit_tcp` accepts. -/
def LegalRecord (cfg : CollectConfig) (record : List UInt8) : Prop :=
  1 ≤ record.length ∧ record.length ≤ cfg.maxRecordBytes

namespace Emitter

/-- After these records: they are on the stream or in the group. -/
structure Emitted (e : Emitter) (records : List (List UInt8)) : Prop where
  stream : e.sent ++ e.group.buf = records.flatMap recordWire
  counted : e.result.records + e.group.grouped = records.length
  grouped : e.group.buf = [] → e.group.grouped = 0
  fine : e.result.err = 0

variable {answers : WriteAnswers} {cfg : CollectConfig} {e : Emitter}
  {records : List (List UInt8)}

theorem Emitted.flush (hanswers : ShortWrites answers)
    (hemitted : e.Emitted records) :
    ∃ next, e.flushEmitGroup answers = (true, next) ∧ next.Emitted records ∧
      next.group.buf = [] := by
  unfold flushEmitGroup
  split
  · rename_i hempty
    exact ⟨e, rfl, hemitted, hempty⟩
  · obtain ⟨last, hwrite⟩ := writeComplete_eq hanswers e.group.buf e.count
    rw [hwrite]
    refine ⟨_, rfl, ⟨?_, ?_, fun _ => rfl, hemitted.fine⟩, rfl⟩
    · simpa using hemitted.stream
    · simpa using hemitted.counted

theorem Emitted.append (hemitted : e.Emitted records) (record : List UInt8) :
    (e.append record).Emitted (records ++ [record]) := by
  have hstream := hemitted.stream
  have hcounted := hemitted.counted
  refine ⟨?_, ?_, ?_, hemitted.fine⟩
  · simp [Emitter.append, ← hstream]
  · simp only [Emitter.append, List.length_append, List.length_singleton]
    omega
  · intro hempty
    have := congrArg List.length hempty
    simp [Emitter.append, recordWire] at this

theorem Emitted.record (hanswers : ShortWrites answers)
    (hemitted : e.Emitted records) {record : List UInt8}
    (hrecord : LegalRecord cfg record) :
    ∃ next, e.emitRecord answers cfg record = (true, next) ∧
      next.Emitted (records ++ [record]) := by
  have hlegal : ¬ (record = [] ∨ record.length > cfg.maxRecordBytes) := by
    rintro (rfl | hlong)
    · exact absurd hrecord.1 (by simp)
    · exact absurd hrecord.2 (Nat.not_le.mpr hlong)
  have hfinish : ∀ before : Emitter, before.Emitted records →
      ∃ next, (if (before.append record).group.grouped ≥ cfg.batchRecords ∨
          (before.append record).group.groupedWire ≥ cfg.batchBytes then
            (before.append record).flushEmitGroup answers
          else (true, before.append record)) = (true, next) ∧
        next.Emitted (records ++ [record]) := by
    intro before hbefore
    split
    · obtain ⟨next, hflush, hnext, -⟩ := (hbefore.append record).flush hanswers
      exact ⟨next, hflush, hnext⟩
    · exact ⟨_, rfl, hbefore.append record⟩
  rw [emitRecord, if_neg hlegal]
  by_cases hfull : 0 < e.group.grouped ∧
      (e.group.grouped + 1 > cfg.batchRecords ∨
        e.group.groupedWire + (4 + record.length) > cfg.batchBytes)
  · obtain ⟨before, hflush, hbefore, -⟩ := hemitted.flush hanswers
    simp only [if_pos hfull, hflush]
    exact hfinish before hbefore
  · simp only [if_neg hfull]
    exact hfinish e hemitted

theorem Emitted.all (hanswers : ShortWrites answers)
    (rest : List (List UInt8)) (hrest : ∀ record ∈ rest, LegalRecord cfg record)
    (hemitted : e.Emitted records) :
    (emitRecords answers cfg rest e).Emitted (records ++ rest) ∧
      (emitRecords answers cfg rest e).group.buf = [] := by
  induction rest generalizing e records with
  | nil =>
      obtain ⟨next, hflush, hnext, hempty⟩ := hemitted.flush hanswers
      rw [emitRecords, hflush, List.append_nil]
      exact ⟨hnext, hempty⟩
  | cons record rest ih =>
      obtain ⟨next, hrecord, hnext⟩ :=
        hemitted.record hanswers (hrest record List.mem_cons_self)
      rw [emitRecords, hrecord]
      have := ih (fun other hother => hrest other (List.mem_cons_of_mem _ hother))
        hnext
      rwa [List.append_assoc, List.singleton_append] at this

theorem init_emitted : init.Emitted [] := ⟨rfl, rfl, fun _ => rfl, rfl⟩

end Emitter

/-- `emit_tcp` puts every record on the stream and reports all of them. -/
theorem emitTcp_eq {answers : WriteAnswers} (hanswers : ShortWrites answers)
    {cfg : CollectConfig} (hcfg : configOk cfg = true)
    {records : List (List UInt8)}
    (hrecords : ∀ record ∈ records, LegalRecord cfg record) :
    (emitTcp answers cfg records).result.err = 0 ∧
      (emitTcp answers cfg records).result.records = records.length ∧
      (emitTcp answers cfg records).sent = records.flatMap Emitter.recordWire := by
  unfold emitTcp
  split
  · rename_i hempty
    subst hempty
    exact ⟨rfl, rfl, rfl⟩
  · rw [hcfg]
    obtain ⟨hemitted, hempty⟩ :=
      Emitter.init_emitted.all hanswers records hrecords
    have hstream := hemitted.stream
    have hcounted := hemitted.counted
    rw [List.nil_append] at hstream hcounted
    rw [hemitted.grouped hempty, Nat.add_zero] at hcounted
    rw [hempty, List.append_nil] at hstream
    exact ⟨hemitted.fine, hcounted, hstream⟩

namespace Collector

open Emitter (recordWire)

/-- What the loop sees at the front of `pending`. -/
def decodeRecord (pending : List UInt8) : Option (List UInt8 × Nat) :=
  if pending.length < 4 then none
  else
    let len := readLeU32 pending
    if pending.length < (4 + len).toNat then none
    else some ((pending.drop 4).take len.toNat, (4 + len).toNat)

/-- The length of a record that fits with its prefix into 32 bits. -/
theorem readLeU32_recordWire {record : List UInt8}
    (hrecord : record.length ≤ 2 ^ 32 - 5) (rest : List UInt8) :
    (readLeU32 (recordWire record ++ rest)).toNat = record.length ∧
      (4 + readLeU32 (recordWire record ++ rest)).toNat =
        (recordWire record).length := by
  have hread : readLeU32 (recordWire record ++ rest) =
      UInt32.ofNat record.length := by
    rw [recordWire, List.append_assoc, readLeU32_leBytes, UInt32.ofNat_toNat]
  have hlen : (UInt32.ofNat record.length).toNat = record.length :=
    UInt32.toNat_ofNat_of_lt' (by
      simp only [UInt32.size]
      omega)
  rw [hread, UInt32.toNat_add, hlen, recordWire, List.length_append,
    length_leBytes]
  refine ⟨rfl, ?_⟩
  rw [Nat.mod_eq_of_lt (by
    have : (4 : UInt32).toNat = 4 := rfl
    omega)]
  rfl

/-- The loop finds the records that `emit_tcp` writes. -/
theorem recordCodec :
    Codec (fun record : List UInt8 => record.length ≤ 2 ^ 32 - 5) recordWire
      decodeRecord := by
  constructor
  · intro record _ hempty
    have := congrArg List.length hempty
    simp [recordWire] at this
  · intro record rest hrecord
    obtain ⟨hlen, hsize⟩ := readLeU32_recordWire hrecord rest
    have hlong : 4 ≤ (recordWire record).length := by simp [recordWire]
    rw [decodeRecord, if_neg (by rw [List.length_append]; omega)]
    simp only [hlen, hsize]
    rw [if_neg (by rw [List.length_append]; omega), recordWire,
      List.append_assoc, List.drop_left' (length_leBytes 4 _), List.take_left' rfl]
  · intro record data more hrecord hsplit hmore
    rw [decodeRecord]
    split
    · rfl
    · rename_i hfour
      obtain ⟨-, hsize⟩ := readLeU32_recordWire hrecord []
      rw [List.append_nil] at hsize
      have hfront : readLeU32 data = readLeU32 (recordWire record) := by
        rw [readLeU32, readLeU32, ← hsplit,
          List.take_append_of_le_length (by omega)]
      have hlength := congrArg List.length hsplit
      have := List.length_pos_iff.mpr hmore
      rw [List.length_append] at hlength
      simp only [hfront, hsize]
      rw [if_pos (by omega)]

/-- The bounds on a batch: its records, and its bytes unless it is one record
alone. -/
def BatchOk (cfg : CollectConfig) (batch : List (List UInt8)) : Prop :=
  batch.length ≤ cfg.batchRecords ∧
    ((batch.map List.length).sum ≤ cfg.batchBytes ∨ batch.length ≤ 1)

/-- What the batches delivered so far say. -/
structure Tally (cfg : CollectConfig) (c : Collector) : Prop where
  records : c.stats.records = c.delivered.flatten.length
  batches : c.stats.batches = c.delivered.length
  bytes : c.stats.recordBytes = (c.delivered.flatten.map List.length).sum
  dropped : c.stats.droppedOversize = 0
  delivered : ∀ batch ∈ c.delivered, batch ≠ [] ∧ BatchOk cfg batch
  batch : BatchOk cfg c.batch.records

/-- The records found so far: delivered or in the batch. -/
def found (c : Collector) : List (List UInt8) :=
  c.delivered.flatten ++ c.batch.records

def keepGoing : BatchSink := fun _ => true

variable {cfg : CollectConfig} {c : Collector}

theorem Tally.deliver (htally : c.Tally cfg) :
    ∃ next, c.deliver keepGoing = (true, next) ∧ next.Tally cfg ∧
      next.found = c.found ∧ next.pending = c.pending ∧
      next.batch.records = [] := by
  unfold Collector.deliver
  split
  · rename_i hsize
    refine ⟨c, rfl, htally, rfl, rfl, ?_⟩
    rw [← List.length_eq_zero_iff, RecordBatch.length_records, hsize]
  · rename_i hsize
    refine ⟨_, rfl, ⟨?_, ?_, ?_, htally.dropped, ?_, ?_⟩, ?_, rfl, rfl⟩
    · simp [htally.records, RecordBatch.length_records]
    · simp [htally.batches]
    · simp [htally.bytes, RecordBatch.payload_eq]
    · intro batch hbatch
      rcases List.mem_append.mp hbatch with hold | hnew
      · exact htally.delivered batch hold
      · rw [List.mem_singleton.mp hnew]
        refine ⟨?_, htally.batch⟩
        rw [← List.length_pos_iff, RecordBatch.length_records]
        omega
    · exact ⟨Nat.zero_le _, .inr (Nat.zero_le _)⟩
    · simp [found, RecordBatch.records, RecordBatch.empty]

/-- The record goes into a batch that has room for it. -/
theorem Tally.addRecord (htally : c.Tally cfg) {record tail : List UInt8}
    (hpending : c.pending = recordWire record ++ tail)
    (hrecord : record.length ≤ 2 ^ 32 - 5)
    (hroom : BatchOk cfg (c.batch.records ++ [record])) :
    (c.addRecord (readLeU32 c.pending)).Tally cfg ∧
      (c.addRecord (readLeU32 c.pending)).found = c.found ++ [record] ∧
      (c.addRecord (readLeU32 c.pending)).pending = tail := by
  obtain ⟨hlen, hsize⟩ := readLeU32_recordWire hrecord tail
  have hbatch : (c.addRecord (readLeU32 c.pending)).batch.records =
      c.batch.records ++ [record] := by
    simp only [Collector.addRecord, hpending, hlen]
    rw [RecordBatch.records_add, recordWire, List.append_assoc,
      List.drop_left' (length_leBytes 4 _), List.take_left' rfl]
  refine ⟨⟨htally.records, htally.batches, htally.bytes, htally.dropped,
    htally.delivered, ?_⟩, ?_, ?_⟩
  · rw [hbatch]
    exact hroom
  · rw [found, hbatch, found, List.append_assoc]
    rfl
  · simp only [Collector.addRecord, hpending, hsize]
    rw [List.drop_left' rfl]

/-- The length at the front of the stream is that of a legal record. -/
theorem legal_front {pending unread : List UInt8} {rest : List (List UInt8)}
    (hmax : cfg.maxRecordBytes ≤ 2 ^ 32 - 5)
    (hrest : ∀ record ∈ rest, LegalRecord cfg record)
    (hstream : pending ++ unread = rest.flatMap recordWire)
    (hfour : ¬ pending.length < 4) :
    ¬ (readLeU32 pending = 0 ∨ (readLeU32 pending).toNat > cfg.maxRecordBytes) := by
  have hfront : readLeU32 pending = readLeU32 (pending ++ unread) := by
    rw [readLeU32, readLeU32, List.take_append_of_le_length (by omega)]
  cases rest with
  | nil =>
      rw [List.flatMap_nil, List.append_eq_nil_iff] at hstream
      simp [hstream.1] at hfour
  | cons record rest =>
      obtain ⟨hpos, hle⟩ := hrest record List.mem_cons_self
      obtain ⟨hlen, -⟩ := readLeU32_recordWire (Nat.le_trans hle hmax)
        (rest.flatMap recordWire)
      rw [hfront, hstream, List.flatMap_cons]
      rintro (hzero | hlarge)
      · rw [hzero] at hlen
        rw [← hlen] at hpos
        exact absurd hpos (by decide)
      · omega

/-- The record fits: the loop has delivered the batch if it did not. -/
theorem Tally.makeRoom (hcfg : configOk cfg = true) (htally : c.Tally cfg)
    (record : List UInt8) :
    ∃ next, (if 0 < c.batch.size ∧ (c.batch.size + 1 > cfg.batchRecords ∨
          c.batch.payload + record.length > cfg.batchBytes) then
        c.deliver keepGoing
      else (true, c)) = (true, next) ∧ next.Tally cfg ∧
      next.found = c.found ∧ next.pending = c.pending ∧
      BatchOk cfg (next.batch.records ++ [record]) := by
  simp only [configOk, Bool.and_eq_true, decide_eq_true_eq] at hcfg
  split
  · obtain ⟨next, hdeliver, hnext, hfound, hpending, hempty⟩ := htally.deliver
    refine ⟨next, hdeliver, hnext, hfound, hpending, ?_⟩
    rw [hempty]
    exact ⟨hcfg.1.1, .inr (Nat.le_refl 1)⟩
  · rename_i hroom
    refine ⟨c, rfl, htally, rfl, rfl, ?_⟩
    have hsize := c.batch.length_records
    have hpayload := c.batch.payload_eq
    unfold BatchOk
    simp only [List.length_append, List.length_singleton, List.map_append,
      List.sum_append, List.map_singleton, List.sum_singleton]
    omega

/-- The loop takes every record that is complete. -/
theorem Tally.cutRecords (hcfg : configOk cfg = true)
    (hmax : cfg.maxRecordBytes ≤ 2 ^ 32 - 5) {fuel : Nat}
    (hfuel : c.pending.length ≤ fuel) (htally : c.Tally cfg)
    {rest : List (List UInt8)} {unread : List UInt8}
    (hrest : ∀ record ∈ rest, LegalRecord cfg record)
    (hstream : c.pending ++ unread = rest.flatMap recordWire) :
    ∃ next more, c.cutRecords cfg keepGoing fuel = (none, next) ∧
      next.Tally cfg ∧ next.found ++ more = c.found ++ rest ∧
      next.pending ++ unread = more.flatMap recordWire ∧
      (unread = [] → more = []) ∧ ∀ record ∈ more, LegalRecord cfg record := by
  induction fuel generalizing c rest with
  | zero =>
      have hempty : c.pending = [] := List.length_eq_zero_iff.mp (by omega)
      refine ⟨c, rest, rfl, htally, rfl, hstream, ?_, hrest⟩
      rintro rfl
      rw [hempty, List.append_nil, eq_comm, List.flatMap_eq_nil_iff] at hstream
      refine List.eq_nil_iff_forall_not_mem.mpr fun record hrecord => ?_
      exact recordCodec.nonempty
        (Nat.le_trans (hrest record hrecord).2 hmax) (hstream record hrecord)
  | succ fuel ih =>
      rw [Collector.cutRecords]
      obtain ⟨record, rest, tail, rfl, hpending, -, htail⟩ | ⟨hnone, hdone⟩ :=
        recordCodec.next
          (fun record hrecord => Nat.le_trans (hrest record hrecord).2 hmax)
          hstream
      · have hrecord := Nat.le_trans (hrest record List.mem_cons_self).2 hmax
        obtain ⟨hlen, hsize⟩ := readLeU32_recordWire hrecord tail
        have hlong : 4 ≤ (recordWire record).length := by simp [recordWire]
        have hlength := congrArg List.length hpending
        rw [List.length_append] at hlength
        obtain ⟨before, hbefore, htally, hfound, hsame, hroom⟩ :=
          htally.makeRoom hcfg record
        obtain ⟨hadded, hfound', htail'⟩ :=
          htally.addRecord (hsame.trans hpending) hrecord hroom
        have hfour : ¬ c.pending.length < 4 := by omega
        rw [if_neg hfour]
        simp only [if_neg (legal_front hmax hrest hstream hfour)]
        rw [← hpending] at hlen hsize
        simp only [hlen, hsize, hbefore]
        rw [if_neg (by omega)]
        rw [hsame] at hadded hfound' htail'
        have hlater : ∀ other ∈ rest, LegalRecord cfg other := fun other hother =>
          hrest other (List.mem_cons_of_mem record hother)
        split
        · obtain ⟨next, hdeliver, hnext, hfoundNext, hpendingNext, -⟩ :=
            hadded.deliver
          rw [hdeliver]
          obtain ⟨last, more, hrun, hlast, hkept, hrest'⟩ :=
            ih (by rw [hpendingNext, htail']; omega) hnext hlater
              (by rw [hpendingNext, htail']; exact htail)
          refine ⟨last, more, hrun, hlast, ?_, hrest'⟩
          rw [hkept, hfoundNext, hfound', hfound, List.append_assoc]
          rfl
        · obtain ⟨last, more, hrun, hlast, hkept, hrest'⟩ :=
            ih (by rw [htail']; omega) hadded hlater (by rw [htail']; exact htail)
          refine ⟨last, more, hrun, hlast, ?_, hrest'⟩
          rw [hkept, hfound', hfound, List.append_assoc]
          rfl
      · refine ⟨c, rest, ?_, htally, rfl, hstream, hdone, hrest⟩
        split
        · rfl
        · rename_i hfour
          have hpending : c.pending ≠ [] := by
            intro hempty
            simp [hempty] at hfour
          have hshort : c.pending.length < (4 + readLeU32 c.pending).toNat := by
            by_contra hlong
            have := hnone hpending
            rw [decodeRecord, if_neg hfour] at this
            simp only [if_neg hlong, reduceCtorEq] at this
          simp only [if_neg (legal_front hmax hrest hstream hfour),
            if_pos hshort]

/-- The bytes that the reads return. -/
def read : List CollectEvent → List UInt8
  | [] => []
  | .data bytes :: rest => bytes ++ read rest
  | _ :: rest => read rest

/-- Reads that return data or time out, never an error. -/
def Undamaged (events : List CollectEvent) : Prop :=
  ∀ event ∈ events, event ≠ .closed ∧ ∀ code, event ≠ .failed code

theorem Tally.run (hcfg : configOk cfg = true)
    (hmax : cfg.maxRecordBytes ≤ 2 ^ 32 - 5) (events : List CollectEvent)
    (hevents : Undamaged events) (htally : c.Tally cfg)
    {rest : List (List UInt8)}
    (hrest : ∀ record ∈ rest, LegalRecord cfg record)
    (hstream : c.pending ++ read events = rest.flatMap recordWire)
    (hdone : read events = [] → rest = []) :
    ∃ last, Collector.run cfg keepGoing c (events ++ [.closed]) =
        some (0, last) ∧ last.Tally cfg ∧ last.batch.records = [] ∧
      last.found = c.found ++ rest := by
  induction events generalizing c rest with
  | nil =>
      obtain rfl := hdone rfl
      have hpending : c.pending = [] := by simpa [read] using hstream
      obtain ⟨next, hdeliver, hnext, hfound, -, hempty⟩ := htally.deliver
      refine ⟨next, ?_, hnext, hempty, by rw [hfound, List.append_nil]⟩
      simp only [List.nil_append, Collector.run, step, hpending, if_true, hdeliver]
  | cons event events ih =>
      have hlater : Undamaged events := fun other hother =>
        hevents other (List.mem_cons_of_mem event hother)
      rw [List.cons_append, Collector.run]
      cases event with
      | late =>
          by_cases hopen : c.batchOpen = true
          · obtain ⟨next, hdeliver, hnext, hfound, hpending, -⟩ := htally.deliver
            simp only [step, if_pos hopen, hdeliver]
            have := ih hlater hnext hrest (by rw [hpending]; exact hstream) hdone
            rwa [hfound] at this
          · simp only [step, if_neg hopen]
            exact ih hlater htally hrest hstream hdone
      | timedOut =>
          obtain ⟨next, hdeliver, hnext, hfound, hpending, -⟩ := htally.deliver
          simp only [step, hdeliver]
          have := ih hlater hnext hrest (by rw [hpending]; exact hstream) hdone
          rwa [hfound] at this
      | data bytes =>
          have hfed : Tally cfg { c with pending := c.pending ++ bytes } :=
            ⟨htally.records, htally.batches, htally.bytes, htally.dropped,
              htally.delivered, htally.batch⟩
          have hunread : (c.pending ++ bytes) ++ read events =
              rest.flatMap recordWire := by
            rw [List.append_assoc]
            exact hstream
          obtain ⟨next, more, hcut, hnext, hkept, hmore, hdone', hlegal⟩ :=
            hfed.cutRecords hcfg hmax (Nat.le_refl _) hrest hunread
          simp only [step, hcut]
          obtain ⟨last, hrun, hlast, hempty, hfound⟩ :=
            ih hlater hnext hlegal hmore hdone'
          refine ⟨last, hrun, hlast, hempty, ?_⟩
          rw [hfound, hkept]
          rfl
      | failed code =>
          exact absurd rfl ((hevents _ List.mem_cons_self).2 code)
      | closed => exact absurd rfl (hevents _ List.mem_cons_self).1

end Collector

/-- `collect_tcp` gives the sink what `emit_tcp` was given, however the writes
and reads are cut and wherever a batch times out. -/
theorem collect_undoes_emit (cfg : CollectConfig) (hcfg : configOk cfg = true)
    (hmax : cfg.maxRecordBytes ≤ 2 ^ 32 - 5) (records : List (List UInt8))
    (hrecords : ∀ record ∈ records, LegalRecord cfg record)
    (answers : WriteAnswers) (hanswers : ShortWrites answers) :
    (emitTcp answers cfg records).result.err = 0 ∧
      (emitTcp answers cfg records).result.records = records.length ∧
      ∀ events, Collector.Undamaged events →
        Collector.read events = (emitTcp answers cfg records).sent →
        ∃ last, collectTcp cfg Collector.keepGoing (events ++ [.closed]) =
            some (0, last) ∧
          last.delivered.flatten = records ∧
          last.stats.records = records.length ∧
          last.stats.batches = last.delivered.length ∧
          last.stats.recordBytes = (records.map List.length).sum ∧
          ∀ batch ∈ last.delivered, batch ≠ [] ∧
            batch.length ≤ cfg.batchRecords ∧
            ((batch.map List.length).sum ≤ cfg.batchBytes ∨
              batch.length = 1) := by
  obtain ⟨herr, hcount, hsent⟩ := emitTcp_eq hanswers hcfg hrecords
  refine ⟨herr, hcount, ?_⟩
  intro events hevents hread
  rw [hsent] at hread
  have hstart : Collector.init.Tally cfg :=
    ⟨rfl, rfl, rfl, rfl, by simp [Collector.init], Nat.zero_le _,
      .inr (Nat.zero_le _)⟩
  obtain ⟨last, hrun, hlast, hempty, hfound⟩ :=
    hstart.run hcfg hmax events hevents hrecords hread (by
      intro hnil
      rw [hnil, eq_comm, List.flatMap_eq_nil_iff] at hread
      refine List.eq_nil_iff_forall_not_mem.mpr fun record hrecord => ?_
      exact Collector.recordCodec.nonempty
        (Nat.le_trans (hrecords record hrecord).2 hmax) (hread record hrecord))
  have hall : last.delivered.flatten = records := by
    rw [Collector.found, hempty, List.append_nil] at hfound
    exact hfound
  refine ⟨last, ?_, hall, ?_, hlast.batches, ?_, ?_⟩
  · rw [collectTcp, hcfg]
    exact hrun
  · rw [hlast.records, hall]
  · rw [hlast.bytes, hall]
  · intro batch hbatch
    obtain ⟨hne, hlength, hbytes⟩ := hlast.delivered batch hbatch
    refine ⟨hne, hlength, hbytes.imp id ?_⟩
    have := List.length_pos_iff.mpr hne
    omega

/-- Three records, cut in the second one's length and in its payload. -/
theorem collect_undoes_emit_cut :
    ∃ last, collectTcp ⟨2, 100, 5, 10⟩ Collector.keepGoing
        ([.data [1, 0, 0, 0, 7, 2, 0], .timedOut, .data [0, 0, 8],
          .data [9, 1, 0, 0, 0, 6]] ++ [.closed]) = some (0, last) ∧
      last.delivered.flatten = [[7], [8, 9], [6]] := by
  obtain ⟨-, -, hcollect⟩ := collect_undoes_emit ⟨2, 100, 5, 10⟩ (by decide)
    (by decide) [[7], [8, 9], [6]] (by simp [LegalRecord]) (fun _ => .ok 3)
    (fun _ => ⟨2, rfl⟩)
  obtain ⟨last, hrun, hall, -⟩ := hcollect
    [.data [1, 0, 0, 0, 7, 2, 0], .timedOut, .data [0, 0, 8],
      .data [9, 1, 0, 0, 0, 6]]
    (by simp [Collector.Undamaged])
    (by decide +kernel)
  exact ⟨last, hrun, hall⟩

end UltraNet
