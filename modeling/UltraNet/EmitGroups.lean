/-
`emit_tcp` on spans that may be empty, null or too long, over a descriptor whose
writes may be short or fail: what it reports and what is on the stream.
-/
import UltraNet.Collect

namespace UltraNet

/-- `record_span`: what `data` points to is as long as `size` says. -/
structure RecordSpan where
  data : Option (List UInt8)
  size : Nat
  sized : ∀ bytes ∈ data, bytes.length = size

namespace RecordSpan

def bytes (record : RecordSpan) : List UInt8 := record.data.getD []

/-- The check of `emit_tcp`. -/
def Invalid (cfg : CollectConfig) (record : RecordSpan) : Prop :=
  record.size = 0 ∨ record.size > cfg.maxRecordBytes ∨ record.data = none

instance (cfg : CollectConfig) (record : RecordSpan) :
    Decidable (record.Invalid cfg) :=
  inferInstanceAs (Decidable (_ ∨ _ ∨ _))

/-- The record behind its length in four bytes. -/
def frame (record : RecordSpan) : List UInt8 :=
  leBytes 4 record.size ++ record.bytes

/-- The records up to the first one that is invalid. -/
def legal (cfg : CollectConfig) (records : List RecordSpan) : List RecordSpan :=
  records.takeWhile fun record => !decide (record.Invalid cfg)

end RecordSpan

/-- `emit_tcp` between two records.  `held` are the records of the group, and
`groups` those of the groups that were written to their end. -/
structure SpanEmitter extends Emitter where
  held : List RecordSpan
  groups : List (List RecordSpan)

namespace SpanEmitter

def init : SpanEmitter := ⟨.init, [], []⟩

def fail (e : SpanEmitter) (code : Nat) : SpanEmitter :=
  { e with toEmitter := e.toEmitter.fail code }

def flush (answers : WriteAnswers) (e : SpanEmitter) : Bool × SpanEmitter :=
  match e.toEmitter.flushEmitGroup answers with
  | (false, next) => (false, ⟨next, e.held, e.groups⟩)
  | (true, next) =>
      (true, ⟨next, [], if e.group.buf = [] then e.groups else e.groups ++ [e.held]⟩)

def append (e : SpanEmitter) (record : RecordSpan) : SpanEmitter :=
  { e with
    toEmitter := e.toEmitter.append record.bytes
    held := e.held ++ [record] }

/-- One pass of the loop; false is `co_return`. -/
def emitSpan (answers : WriteAnswers) (cfg : CollectConfig) (e : SpanEmitter)
    (record : RecordSpan) : Bool × SpanEmitter :=
  if record.Invalid cfg then
    match e.flush answers with
    | (false, e) => (false, e)
    | (true, e) => (false, e.fail eMSGSIZE)
  else
    let before :=
      if 0 < e.group.grouped ∧ (e.group.grouped + 1 > cfg.batchRecords ∨
          e.group.groupedWire + (4 + record.size) > cfg.batchBytes) then
        e.flush answers
      else (true, e)
    match before with
    | (false, e) => (false, e)
    | (true, e) =>
        let e := e.append record
        if e.group.grouped ≥ cfg.batchRecords ∨
            e.group.groupedWire ≥ cfg.batchBytes then
          e.flush answers
        else (true, e)

def emitSpans (answers : WriteAnswers) (cfg : CollectConfig) :
    List RecordSpan → SpanEmitter → SpanEmitter
  | [], e => (e.flush answers).2
  | record :: rest, e =>
      match e.emitSpan answers cfg record with
      | (false, e) => e
      | (true, e) => emitSpans answers cfg rest e

end SpanEmitter

/-- `emit_tcp`; nothing for the records is a null pointer with a count. -/
def emitTcpSpans (answers : WriteAnswers) (cfg : CollectConfig) :
    Option (List RecordSpan) → SpanEmitter
  | none => SpanEmitter.init.fail eINVAL
  | some records =>
      if records.isEmpty then .init
      else if !configOk cfg then SpanEmitter.init.fail eINVAL
      else SpanEmitter.emitSpans answers cfg records .init

/-- The writes of a descriptor: one that fails has an error code. -/
structure WriteTrace where
  answers : WriteAnswers
  coded : ∀ count code, answers count = .error code → code ≠ 0

/-- The write took at least one byte. -/
def WriteTrace.Wrote (writes : WriteTrace) (count : Nat) : Prop :=
  ∃ taken, writes.answers count = .ok (taken + 1)

/-- What is written is the front of the data, all of it unless a write fails. -/
theorem writeComplete_spec (writes : WriteTrace) {data sent : List UInt8}
    {failure : Option Nat} {count last : Nat}
    (hwrite : writeComplete writes.answers data count = (sent, failure, last)) :
    sent <+: data ∧ (failure = none → sent = data) ∧
      ∀ code, failure = some code → code ≠ 0 ∧ ∃ i < last, ¬ writes.Wrote i := by
  fun_induction writeComplete writes.answers data count
    generalizing sent failure last with
  | case1 count =>
      cases hwrite
      exact ⟨List.prefix_refl _, fun _ => rfl, fun code hcode => by cases hcode⟩
  | case2 data count hdata code hcode =>
      cases hwrite
      refine ⟨List.nil_prefix, ?_, ?_⟩
      · intro hnone
        cases hnone
      rintro failed ⟨⟩
      refine ⟨writes.coded count code hcode, count, Nat.lt_succ_self count, ?_⟩
      rintro ⟨taken, htaken⟩
      rw [hcode] at htaken
      cases htaken
  | case3 data count hdata hzero =>
      cases hwrite
      refine ⟨List.nil_prefix, ?_, ?_⟩
      · intro hnone
        cases hnone
      rintro failed ⟨⟩
      refine ⟨by decide, count, Nat.lt_succ_self count, ?_⟩
      rintro ⟨taken, htaken⟩
      rw [hzero] at htaken
      cases htaken
  | case4 data count hdata taken htaken rest failed final hrest ih =>
      cases hwrite
      obtain ⟨hsent, hall, hfailed⟩ := ih hrest
      refine ⟨?_, ?_, hfailed⟩
      · obtain ⟨unsent, hunsent⟩ := hsent
        refine ⟨unsent, ?_⟩
        rw [List.append_assoc, hunsent, List.take_append_drop]
      · intro hnone
        rw [hall hnone, List.take_append_drop]

namespace RecordSpan

variable {cfg : CollectConfig} {record : RecordSpan}

/-- A record that is not invalid has its bytes, and its length fits. -/
theorem legal_bytes (hvalid : ¬ record.Invalid cfg) :
    record.bytes.length = record.size ∧ record.bytes ≠ [] ∧
      record.size ≤ cfg.maxRecordBytes := by
  simp only [Invalid, not_or] at hvalid
  obtain ⟨hpos, hmax, hdata⟩ := hvalid
  obtain ⟨bytes, hbytes⟩ := Option.ne_none_iff_exists'.mp hdata
  have hlength : record.bytes.length = record.size := by
    rw [RecordSpan.bytes, hbytes]
    exact record.sized bytes hbytes
  refine ⟨hlength, ?_, Nat.not_lt.mp hmax⟩
  intro hempty
  rw [hempty] at hlength
  exact hpos hlength.symm

theorem bytes_nil (hinvalid : record.Invalid cfg) :
    record.bytes = [] ∨ record.bytes.length > cfg.maxRecordBytes := by
  rw [bytes]
  cases hdata : record.data with
  | none => exact .inl rfl
  | some bytes =>
      have hlength := record.sized bytes hdata
      rcases hinvalid with hzero | hlong | hnull
      · exact .inl (List.eq_nil_of_length_eq_zero (hlength.trans hzero))
      · exact .inr (hlength ▸ hlong)
      · rw [hdata] at hnull
        cases hnull

/-- `emit_tcp` casts the length to 32 bits. -/
theorem recordWire_bytes (hmax : cfg.maxRecordBytes < 2 ^ 32)
    (hvalid : ¬ record.Invalid cfg) :
    Emitter.recordWire record.bytes = record.frame := by
  obtain ⟨hlength, -, hsize⟩ := legal_bytes hvalid
  have hcast : (UInt32.ofNat record.size).toNat = record.size :=
    UInt32.toNat_ofNat_of_lt' (Nat.lt_of_le_of_lt hsize hmax)
  rw [Emitter.recordWire, hlength, hcast, frame]

theorem length_frame (record : RecordSpan) :
    record.frame.length = 4 + record.bytes.length := by
  rw [frame, List.length_append, length_leBytes]

end RecordSpan

namespace SpanEmitter

/-- The bounds on a group: its records, and its bytes on the stream unless it is
one record alone. -/
def GroupOk (cfg : CollectConfig) (group : List RecordSpan) : Prop :=
  group.length ≤ cfg.batchRecords ∧
    ((group.map fun record => record.frame.length).sum ≤ cfg.batchBytes ∨
      group.length = 1)

/-- The result counts the groups that were written to their end. -/
structure Settled (cfg : CollectConfig) (e : SpanEmitter) : Prop where
  reported : e.result.records = e.groups.flatten.length
  reportedBytes : e.result.recordBytes = (e.groups.flatten.map RecordSpan.size).sum
  reportedWrites : e.result.writes = e.groups.length
  groups : ∀ group ∈ e.groups, GroupOk cfg group

/-- Between two records: the stream holds the groups, the buffer the rest. -/
structure Grouped (cfg : CollectConfig) (records : List RecordSpan) (e : SpanEmitter) :
    Prop extends e.Settled cfg where
  all : e.groups.flatten ++ e.held = records
  stream : e.sent = e.groups.flatten.flatMap RecordSpan.frame
  buf : e.group.buf = e.held.flatMap RecordSpan.frame
  grouped : e.group.grouped = e.held.length
  wire : e.group.groupedWire = (e.held.map fun record => record.frame.length).sum
  payload : e.group.groupedPayload = (e.held.map RecordSpan.size).sum
  room : GroupOk cfg e.held
  fine : e.result.err = 0

/-- A write has failed: the stream goes on behind the groups that count, but
not behind these records. -/
structure Broken (writes : WriteTrace) (cfg : CollectConfig)
    (records : List RecordSpan) (e : SpanEmitter) : Prop extends e.Settled cfg where
  counted : e.groups.flatten <+: records
  stream : e.groups.flatten.flatMap RecordSpan.frame <+: e.sent
  inside : e.sent <+: records.flatMap RecordSpan.frame
  code : e.result.err ≠ 0
  failed : ∃ i < e.count, ¬ writes.Wrote i

variable {writes : WriteTrace} {cfg : CollectConfig} {e : SpanEmitter}
  {records : List RecordSpan}

theorem flush_empty {answers : WriteAnswers} (hempty : e.group.buf = []) :
    e.flush answers = (true, { e with held := [] }) := by
  simp only [flush, Emitter.flushEmitGroup, if_pos hempty]

theorem flush_wrote {answers : WriteAnswers} {sent : List UInt8} {last : Nat}
    (hbuf : e.group.buf ≠ [])
    (hwrite : writeComplete answers e.group.buf e.count = (sent, none, last)) :
    e.flush answers =
      (true, {
        group := ⟨[], 0, 0, 0⟩
        result := { e.result with
          records := e.result.records + e.group.grouped
          recordBytes := e.result.recordBytes + e.group.groupedPayload
          writes := e.result.writes + 1 }
        sent := e.sent ++ sent
        count := last
        held := []
        groups := e.groups ++ [e.held] }) := by
  simp only [flush, Emitter.flushEmitGroup, if_neg hbuf, hwrite]

theorem flush_failed {answers : WriteAnswers} {sent : List UInt8} {code last : Nat}
    (hbuf : e.group.buf ≠ [])
    (hwrite : writeComplete answers e.group.buf e.count = (sent, some code, last)) :
    e.flush answers =
      (false, { e.fail code with sent := e.sent ++ sent, count := last }) := by
  simp only [flush, Emitter.flushEmitGroup, if_neg hbuf, hwrite, fail]

theorem Grouped.flush (writes : WriteTrace) (hgrouped : e.Grouped cfg records) :
    (∃ next, e.flush writes.answers = (true, next) ∧ next.Grouped cfg records ∧
        next.held = []) ∨
      ∃ next, e.flush writes.answers = (false, next) ∧
        next.Broken writes cfg records := by
  by_cases hempty : e.group.buf = []
  · have hheld : e.held = [] := by
      have hbuf := hgrouped.buf
      rw [hempty] at hbuf
      refine List.eq_nil_iff_forall_not_mem.mpr fun record hrecord => ?_
      have hframe := List.flatMap_eq_nil_iff.mp hbuf.symm record hrecord
      have hlength := record.length_frame
      rw [hframe, List.length_nil] at hlength
      omega
    have hflush : e.flush writes.answers = (true, { e with held := [] }) :=
      flush_empty hempty
    rw [← hheld] at hflush
    exact .inl ⟨e, hflush, hgrouped, hheld⟩
  · obtain ⟨⟨sent, failure, last⟩, hwrite⟩ :
        ∃ answer, writeComplete writes.answers e.group.buf e.count = answer := ⟨_, rfl⟩
    obtain ⟨hsent, hall, hfailed⟩ := writeComplete_spec writes hwrite
    have hsettled := hgrouped.toSettled
    cases failure with
    | none =>
        refine .inl ⟨_, flush_wrote hempty hwrite,
          ⟨⟨?_, ?_, ?_, ?_⟩, ?_, ?_, rfl, rfl, rfl, rfl, ?_, hgrouped.fine⟩, rfl⟩
        · simp [hsettled.reported, hgrouped.grouped]
        · simp [hsettled.reportedBytes, hgrouped.payload]
        · simp [hsettled.reportedWrites]
        · intro group hgroup
          rcases List.mem_append.mp hgroup with hold | hnew
          · exact hsettled.groups group hold
          · rw [List.mem_singleton.mp hnew]
            exact hgrouped.room
        · simpa using hgrouped.all
        · simp [hall rfl, hgrouped.stream, hgrouped.buf]
        · exact ⟨Nat.zero_le _, .inl (Nat.zero_le _)⟩
    | some code =>
        obtain ⟨hcode, hnot⟩ := hfailed code rfl
        refine .inr ⟨_, flush_failed hempty hwrite,
          ⟨⟨hsettled.reported, hsettled.reportedBytes, hsettled.reportedWrites,
            hsettled.groups⟩, ⟨e.held, hgrouped.all⟩, ?_, ?_, hcode, hnot⟩⟩
        · refine ⟨sent, ?_⟩
          show e.groups.flatten.flatMap RecordSpan.frame ++ sent = e.sent ++ sent
          rw [hgrouped.stream]
        · show e.sent ++ sent <+: records.flatMap RecordSpan.frame
          rw [← hgrouped.all, List.flatMap_append, ← hgrouped.buf, ← hgrouped.stream]
          exact (List.prefix_append_right_inj e.sent).mpr hsent

theorem Broken.mono {more : List RecordSpan} (hbroken : e.Broken writes cfg records)
    (hmore : records <+: more) : e.Broken writes cfg more := by
  obtain ⟨later, rfl⟩ := hmore
  refine { hbroken with counted := ?_, inside := ?_ }
  · exact hbroken.counted.trans (List.prefix_append _ _)
  · rw [List.flatMap_append]
    exact hbroken.inside.trans (List.prefix_append _ _)

theorem Grouped.append (hmax : cfg.maxRecordBytes < 2 ^ 32)
    (hgrouped : e.Grouped cfg records) {record : RecordSpan}
    (hvalid : ¬ record.Invalid cfg) (hroom : GroupOk cfg (e.held ++ [record])) :
    (e.append record).Grouped cfg (records ++ [record]) := by
  have hsettled := hgrouped.toSettled
  have hframe := RecordSpan.recordWire_bytes hmax hvalid
  have hlength := (RecordSpan.legal_bytes hvalid).1
  refine ⟨⟨hsettled.reported, hsettled.reportedBytes, hsettled.reportedWrites,
    hsettled.groups⟩, ?_, hgrouped.stream, ?_, ?_, ?_, ?_, hroom, hgrouped.fine⟩
  · simp [SpanEmitter.append, ← hgrouped.all]
  · simp [SpanEmitter.append, Emitter.append, hgrouped.buf, hframe]
  · simp [SpanEmitter.append, Emitter.append, hgrouped.grouped]
  · simp [SpanEmitter.append, Emitter.append, hgrouped.wire, RecordSpan.length_frame]
  · simp [SpanEmitter.append, Emitter.append, hgrouped.payload, hlength]

/-- The group is written first where the record would not fit in. -/
theorem Grouped.fits (hcfg : configOk cfg = true) (hgrouped : e.Grouped cfg records)
    {record : RecordSpan} (hvalid : ¬ record.Invalid cfg)
    (hfits : e.held = [] ∨ ¬ (0 < e.group.grouped ∧
      (e.group.grouped + 1 > cfg.batchRecords ∨
        e.group.groupedWire + (4 + record.size) > cfg.batchBytes))) :
    GroupOk cfg (e.held ++ [record]) := by
  simp only [configOk, Bool.and_eq_true, decide_eq_true_eq] at hcfg
  by_cases hheld : e.held = []
  · rw [hheld, List.nil_append]
    exact ⟨hcfg.1.1, .inr rfl⟩
  · have hfull := hfits.resolve_left hheld
    have hpos := List.length_pos_iff.mpr hheld
    have hlength := (RecordSpan.legal_bytes hvalid).1
    rw [hgrouped.grouped, hgrouped.wire] at hfull
    simp only [GroupOk, List.length_append, List.length_singleton, List.map_append,
      List.sum_append, List.map_singleton, List.sum_singleton, RecordSpan.length_frame]
      at hfull ⊢
    omega

/-- A valid record is in the group or on the stream, unless a write fails. -/
theorem Grouped.record (writes : WriteTrace) (hcfg : configOk cfg = true)
    (hmax : cfg.maxRecordBytes < 2 ^ 32) (hgrouped : e.Grouped cfg records) {record : RecordSpan}
    (hvalid : ¬ record.Invalid cfg) :
    ∃ ok next, e.emitSpan writes.answers cfg record = (ok, next) ∧
      (if ok then next.Grouped cfg (records ++ [record])
        else next.Broken writes cfg (records ++ [record])) := by
  have hfinish : ∀ before : SpanEmitter, before.Grouped cfg records →
      GroupOk cfg (before.held ++ [record]) →
      ∃ ok next, (if (before.append record).group.grouped ≥ cfg.batchRecords ∨
          (before.append record).group.groupedWire ≥ cfg.batchBytes then
            (before.append record).flush writes.answers
          else (true, before.append record)) = (ok, next) ∧
        (if ok then next.Grouped cfg (records ++ [record])
          else next.Broken writes cfg (records ++ [record])) := by
    intro before hbefore hroom
    have happend := hbefore.append hmax hvalid hroom
    split
    · rcases happend.flush writes with
        ⟨next, hflush, hnext, -⟩ | ⟨next, hflush, hnext⟩
      · exact ⟨true, next, hflush, hnext⟩
      · exact ⟨false, next, hflush, hnext⟩
    · exact ⟨true, _, rfl, happend⟩
  by_cases hfull : 0 < e.group.grouped ∧
      (e.group.grouped + 1 > cfg.batchRecords ∨
        e.group.groupedWire + (4 + record.size) > cfg.batchBytes)
  · rcases hgrouped.flush writes with
      ⟨before, hflush, hbefore, hheld⟩ | ⟨next, hflush, hnext⟩
    · obtain ⟨ok, next, hok, hnext⟩ :=
        hfinish before hbefore (hbefore.fits hcfg hvalid (.inl hheld))
      refine ⟨ok, next, ?_, hnext⟩
      rw [emitSpan, if_neg hvalid]
      simp only [if_pos hfull, hflush]
      exact hok
    · refine ⟨false, next, ?_, hnext.mono (List.prefix_append _ _)⟩
      rw [emitSpan, if_neg hvalid]
      simp only [if_pos hfull, hflush]
  · obtain ⟨ok, next, hok, hnext⟩ :=
      hfinish e hgrouped (hgrouped.fits hcfg hvalid (.inr hfull))
    refine ⟨ok, next, ?_, hnext⟩
    rw [emitSpan, if_neg hvalid]
    simp only [if_neg hfull]
    exact hok

/-- These records are what the result counts and what the stream holds. -/
structure Whole (cfg : CollectConfig) (records : List RecordSpan) (e : SpanEmitter) :
    Prop extends e.Settled cfg where
  counted : e.groups.flatten = records
  stream : e.sent = records.flatMap RecordSpan.frame

theorem Grouped.whole (hgrouped : e.Grouped cfg records) (hheld : e.held = []) :
    e.Whole cfg records := by
  have hcounted := hgrouped.all
  rw [hheld, List.append_nil] at hcounted
  refine { hgrouped.toSettled with counted := hcounted, stream := ?_ }
  rw [hgrouped.stream, hcounted]

/-- The end of `emit_tcp`: a write has failed, or all records before the first
invalid one are on the stream. -/
theorem Grouped.spans (writes : WriteTrace) (hcfg : configOk cfg = true)
    (hmax : cfg.maxRecordBytes < 2 ^ 32) (rest : List RecordSpan)
    (hgrouped : e.Grouped cfg records) :
    (emitSpans writes.answers cfg rest e).Broken writes cfg
        (records ++ RecordSpan.legal cfg rest) ∨
      ((emitSpans writes.answers cfg rest e).Whole cfg
          (records ++ RecordSpan.legal cfg rest) ∧
        (emitSpans writes.answers cfg rest e).result.err =
          if (RecordSpan.legal cfg rest).length = rest.length then 0 else eMSGSIZE) := by
  induction rest generalizing e records with
  | nil =>
      rw [RecordSpan.legal, List.takeWhile_nil, List.append_nil, emitSpans]
      rcases hgrouped.flush writes with
        ⟨next, hflush, hnext, hheld⟩ | ⟨next, hflush, hnext⟩
      · rw [hflush]
        exact .inr ⟨hnext.whole hheld, hnext.fine⟩
      · rw [hflush]
        exact .inl hnext
  | cons record rest ih =>
      by_cases hinvalid : record.Invalid cfg
      · have hlegal : RecordSpan.legal cfg (record :: rest) = [] := by
          rw [RecordSpan.legal, List.takeWhile_cons, decide_eq_true hinvalid]
          rfl
        rw [hlegal, List.append_nil, emitSpans, emitSpan, if_pos hinvalid]
        rcases hgrouped.flush writes with
          ⟨next, hflush, hnext, hheld⟩ | ⟨next, hflush, hnext⟩
        · simp only [hflush]
          have hwhole := hnext.whole hheld
          exact .inr ⟨⟨⟨hwhole.reported, hwhole.reportedBytes, hwhole.reportedWrites,
            hwhole.groups⟩, hwhole.counted, hwhole.stream⟩, rfl⟩
        · simp only [hflush]
          exact .inl hnext
      · have hlegal : RecordSpan.legal cfg (record :: rest) =
            record :: RecordSpan.legal cfg rest := by
          rw [RecordSpan.legal, List.takeWhile_cons, decide_eq_false hinvalid]
          rfl
        have hsplit : records ++ record :: RecordSpan.legal cfg rest =
            (records ++ [record]) ++ RecordSpan.legal cfg rest := by
          rw [List.append_assoc, List.singleton_append]
        rw [hlegal, hsplit, emitSpans]
        obtain ⟨ok, next, hrecord, hnext⟩ := hgrouped.record writes hcfg hmax hinvalid
        cases ok with
        | true =>
            simp only [hrecord, List.length_cons, Nat.add_right_cancel_iff]
            exact ih hnext
        | false =>
            simp only [hrecord]
            exact .inl (hnext.mono (List.prefix_append _ _))

theorem init_grouped (cfg : CollectConfig) : init.Grouped cfg [] :=
  ⟨⟨rfl, rfl, rfl, fun _ hgroup => absurd hgroup List.not_mem_nil⟩, rfl, rfl, rfl, rfl,
    rfl, rfl, ⟨Nat.zero_le _, .inl (Nat.zero_le _)⟩, rfl⟩

theorem toEmitter_flush (answers : WriteAnswers) (e : SpanEmitter) :
    e.toEmitter.flushEmitGroup answers =
      ((e.flush answers).1, (e.flush answers).2.toEmitter) := by
  unfold flush
  rcases e.toEmitter.flushEmitGroup answers with ⟨ok, next⟩
  cases ok with
  | true => rfl
  | false => rfl

theorem toEmitter_emitSpan (answers : WriteAnswers) (cfg : CollectConfig)
    (e : SpanEmitter) (record : RecordSpan) :
    e.toEmitter.emitRecord answers cfg record.bytes =
      ((e.emitSpan answers cfg record).1, (e.emitSpan answers cfg record).2.toEmitter) := by
  by_cases hinvalid : record.Invalid cfg
  · rw [Emitter.emitRecord, if_pos (RecordSpan.bytes_nil hinvalid), emitSpan,
      if_pos hinvalid, toEmitter_flush]
    rcases e.flush answers with ⟨ok, next⟩
    cases ok with
    | true => rfl
    | false => rfl
  · obtain ⟨hlength, hne, hsize⟩ := RecordSpan.legal_bytes hinvalid
    have hlegal : ¬ (record.bytes = [] ∨ record.bytes.length > cfg.maxRecordBytes) := by
      rw [hlength]
      exact not_or.mpr ⟨hne, Nat.not_lt.mpr hsize⟩
    have hfinish : ∀ before : SpanEmitter,
        (if (before.toEmitter.append record.bytes).group.grouped ≥ cfg.batchRecords ∨
            (before.toEmitter.append record.bytes).group.groupedWire ≥ cfg.batchBytes then
          (before.toEmitter.append record.bytes).flushEmitGroup answers
        else (true, before.toEmitter.append record.bytes)) =
        Prod.map id toEmitter
          (if (before.append record).group.grouped ≥ cfg.batchRecords ∨
            (before.append record).group.groupedWire ≥ cfg.batchBytes then
          (before.append record).flush answers
        else (true, before.append record)) := by
      intro before
      by_cases hfull : (before.append record).group.grouped ≥ cfg.batchRecords ∨
          (before.append record).group.groupedWire ≥ cfg.batchBytes
      · rw [if_pos hfull]
        exact (if_pos hfull).trans (toEmitter_flush answers (before.append record))
      · rw [if_neg hfull]
        exact if_neg hfull
    rw [Emitter.emitRecord, if_neg hlegal, emitSpan, if_neg hinvalid, hlength]
    by_cases hfull : 0 < e.group.grouped ∧
        (e.group.grouped + 1 > cfg.batchRecords ∨
          e.group.groupedWire + (4 + record.size) > cfg.batchBytes)
    · simp only [if_pos hfull, toEmitter_flush]
      rcases e.flush answers with ⟨ok, next⟩
      cases ok with
      | true => exact hfinish next
      | false => rfl
    · simp only [if_neg hfull]
      exact hfinish e

theorem toEmitter_emitSpans (answers : WriteAnswers) (cfg : CollectConfig)
    (records : List RecordSpan) (e : SpanEmitter) :
    (emitSpans answers cfg records e).toEmitter =
      Emitter.emitRecords answers cfg (records.map RecordSpan.bytes) e.toEmitter := by
  induction records generalizing e with
  | nil =>
      rw [List.map_nil, Emitter.emitRecords, emitSpans, toEmitter_flush]
  | cons record rest ih =>
      rw [List.map_cons, Emitter.emitRecords, emitSpans, toEmitter_emitSpan]
      rcases e.emitSpan answers cfg record with ⟨ok, next⟩
      cases ok with
      | true => exact ih next
      | false => rfl

end SpanEmitter

/-- This is `emit_tcp` on the bytes of the records, where a null pointer is
refused like an empty record. -/
theorem toEmitter_emitTcpSpans (answers : WriteAnswers) (cfg : CollectConfig)
    (records : List RecordSpan) :
    (emitTcpSpans answers cfg (some records)).toEmitter =
      emitTcp answers cfg (records.map RecordSpan.bytes) := by
  cases records with
  | nil => rfl
  | cons record rest =>
      have hrun := SpanEmitter.toEmitter_emitSpans answers cfg (record :: rest) .init
      rw [emitTcp, if_neg (by simp)]
      cases hcfg : configOk cfg with
      | true =>
          simp only [emitTcpSpans, List.isEmpty_cons, hcfg]
          exact hrun
      | false => simp [emitTcpSpans, hcfg, SpanEmitter.fail, SpanEmitter.init]

theorem emitTcpSpans_eq (answers : WriteAnswers) {cfg : CollectConfig}
    (hcfg : configOk cfg = true) (records : List RecordSpan) :
    emitTcpSpans answers cfg (some records) =
      SpanEmitter.emitSpans answers cfg records .init := by
  cases records with
  | nil => rfl
  | cons record rest =>
      simp only [emitTcpSpans, List.isEmpty_cons, hcfg]
      rfl

/-- Where the records that are not invalid end. -/
theorem RecordSpan.findIdx?_legal (cfg : CollectConfig) (records : List RecordSpan)
    (hshort : (legal cfg records).length ≠ records.length) :
    records.findIdx? (fun record => decide (record.Invalid cfg)) =
      some (legal cfg records).length := by
  induction records with
  | nil => exact absurd rfl hshort
  | cons record rest ih =>
      by_cases hinvalid : record.Invalid cfg
      · simp [legal, hinvalid, List.findIdx?_cons]
      · have hrest : (legal cfg rest).length ≠ rest.length := by
          intro hall
          apply hshort
          simpa [legal, hinvalid] using hall
        have hnext := ih hrest
        simpa [legal, hinvalid, List.findIdx?_cons] using hnext

/-- What `emit_tcp` reports of any records over any writes: the records that it
counts are at the front of the stream, what follows them is part of the next
valid ones, and the error says why it stopped. -/
theorem emit_accounting (writes : WriteTrace) (cfg : CollectConfig)
    (hcfg : configOk cfg = true) (hmax : cfg.maxRecordBytes < 2 ^ 32)
    (records : List RecordSpan) :
    let e := emitTcpSpans writes.answers cfg (some records)
    let counted := records.take e.result.records
    counted.flatMap RecordSpan.frame <+: e.sent ∧
      e.sent <+: (RecordSpan.legal cfg records).flatMap RecordSpan.frame ∧
      e.result.recordBytes = (counted.map RecordSpan.size).sum ∧
      (e.result.err = eMSGSIZE → (∀ i < e.count, writes.Wrote i) →
        records.findIdx? (fun record => decide (record.Invalid cfg)) =
          some e.result.records) ∧
      (e.result.err = 0 → e.result.records = records.length ∧
        e.sent = records.flatMap RecordSpan.frame) ∧
      e.groups.flatten = counted ∧ e.result.writes = e.groups.length ∧
      ∀ group ∈ e.groups, SpanEmitter.GroupOk cfg group := by
  intro e counted
  have hspans := (SpanEmitter.init_grouped cfg).spans writes hcfg hmax records
  rw [List.nil_append, ← emitTcpSpans_eq writes.answers hcfg records] at hspans
  have hlegal : RecordSpan.legal cfg records <+: records := List.takeWhile_prefix _
  have hcounted : e.Settled cfg → e.groups.flatten <+: records →
      counted = e.groups.flatten := by
    intro hsettled hcounts
    show records.take e.result.records = _
    rw [hsettled.reported]
    exact (List.prefix_iff_eq_take.mp hcounts).symm
  rcases hspans with hbroken | ⟨hwhole, herr⟩
  · have hsettled := hbroken.toSettled
    rw [hcounted hsettled (hbroken.counted.trans hlegal)]
    refine ⟨hbroken.stream, hbroken.inside, hsettled.reportedBytes, ?_, ?_, rfl,
      hsettled.reportedWrites, hsettled.groups⟩
    · intro _ hwrote
      obtain ⟨i, hi, hfailed⟩ := hbroken.failed
      exact absurd (hwrote i hi) hfailed
    · intro hzero
      exact absurd hzero hbroken.code
  · have hsettled := hwhole.toSettled
    have hflatten : e.groups.flatten = RecordSpan.legal cfg records := hwhole.counted
    have hreported : e.result.records = (RecordSpan.legal cfg records).length := by
      rw [← hflatten]
      exact hsettled.reported
    have hsent : e.sent =
        (RecordSpan.legal cfg records).flatMap RecordSpan.frame := hwhole.stream
    rw [hcounted hsettled (by rw [hflatten]; exact hlegal), hflatten, hsent]
    refine ⟨?_, ?_, ?_, ?_, ?_, rfl, hsettled.reportedWrites, hsettled.groups⟩
    · exact List.prefix_rfl
    · exact List.prefix_rfl
    · rw [← hflatten]
      exact hsettled.reportedBytes
    · intro hsize _
      rw [hreported]
      refine RecordSpan.findIdx?_legal cfg records fun hall => ?_
      rw [if_pos hall] at herr
      exact absurd (herr.symm.trans hsize) (by decide)
    · intro hzero
      have hall : (RecordSpan.legal cfg records).length = records.length := by
        by_contra hshort
        rw [if_neg hshort] at herr
        exact absurd (herr.symm.trans hzero) (by decide)
      refine ⟨hreported.trans hall, ?_⟩
      rw [hlegal.eq_of_length hall]

/-- The second write fails behind three of the ten bytes, the third record is
too long. -/
theorem emit_accounting_failed :
    let one : RecordSpan := ⟨some [7], 1, by simp⟩
    let e := emitTcpSpans (fun i => if i = 1 then .error 32 else .ok 3) ⟨2, 100, 0, 8⟩
      (some [one, one, ⟨none, 9, by simp⟩])
    ([one, one, ⟨none, 9, by simp⟩].take e.result.records).flatMap RecordSpan.frame <+:
        e.sent ∧
      e.sent <+: [one, one].flatMap RecordSpan.frame ∧
      ∀ group ∈ e.groups, SpanEmitter.GroupOk ⟨2, 100, 0, 8⟩ group := by
  intro one e
  have haccount := emit_accounting
    ⟨fun i => if i = 1 then .error 32 else .ok 3, by
      intro count code hcode
      split at hcode
      · cases hcode
        decide
      · cases hcode⟩
    ⟨2, 100, 0, 8⟩ (by decide) (by decide) [one, one, ⟨none, 9, by simp⟩]
  obtain ⟨hcounted, hinside, -, -, -, -, -, hgroups⟩ := haccount
  exact ⟨hcounted, hinside, hgroups⟩

end UltraNet
