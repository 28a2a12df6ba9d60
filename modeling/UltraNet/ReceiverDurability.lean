/-
Runs of `receiver_log` sessions over one file: scan at open, then buffered
records and flushes whose write may be cut short, whose sync may fail, and
inside which the process may be killed.
-/
import UltraNet.ReceiverLog

namespace UltraNet

/-- The file, the running session, and the ghost list of the data records
that some flush reported as persisted, with their frames. -/
structure ReceiverLogs where
  file : List UInt8
  session : Option ReceiverLog
  reported : List (RecvKey × List UInt8)

inductive ReceiverLogOp where
  | construct (opened : Bool)
  | bufferData (key : RecvKey) (frame : List UInt8) (replyConnId : UInt64)
  | bufferHandled (key : RecvKey) (replyConnId : UInt64)
  | flushReady (aged : Bool) (io : IoScript)

/-- The data records of a batch whose entry is persisted after the commit. -/
def reportedBy (log : ReceiverLog) (batch : List PendingRec) :
    List (RecvKey × List UInt8) :=
  batch.filterMap fun record : PendingRec =>
    if record.type = 1 then
      match log.index.lookup record.key with
      | some entry =>
          if entry.persisted then some (record.key, entry.frame) else none
      | none => none
    else none

namespace ReceiverLogs

def init : ReceiverLogs := ⟨[], none, []⟩

/-- `flush_ready` with no other call between its sections. -/
def flush (s : ReceiverLogs) (log : ReceiverLog) (batch : List PendingRec)
    (io : IoScript) : ReceiverLogs :=
  let (written, outcome) := log.writeBatch batch io
  let file := s.file ++ written
  match outcome with
  | .killed => { s with file := file, session := none }
  | .returned false =>
      { s with file := file, session := some (log.rollback batch) }
  | .returned true =>
      let committed := (log.commitIndex batch).1
      { file := file
        session := some committed
        reported := s.reported ++ reportedBy committed batch }

def step (s : ReceiverLogs) : ReceiverLogOp → Option ReceiverLogs
  | .construct opened =>
      (ReceiverLog.construct s.file opened).map fun log =>
        { s with session := some log }
  | .bufferData key frame replyConnId =>
      s.session.map fun log =>
        { s with session := some (log.bufferData key frame replyConnId).1 }
  | .bufferHandled key replyConnId =>
      s.session.map fun log =>
        { s with session := some (log.bufferHandled key replyConnId) }
  | .flushReady aged io =>
      s.session.map fun log =>
        match log.takeBatch aged with
        | none => s
        | some (batch, taken) => s.flush taken batch io

/-- Every record that was reported as persisted is found, with its frame, by
a scan of the file. -/
def Durable (s : ReceiverLogs) : Prop :=
  ∀ key frame, (key, frame) ∈ s.reported →
    ∃ index torn, scanExisting s.file = some (index, torn) ∧
      (index.lookup key).map (·.frame) = some frame

end ReceiverLogs

def receiverLogMachine : Machine ReceiverLogs ReceiverLogOp where
  start := .init
  step := ReceiverLogs.step

/-- The condition on a flush that reaches `::write`: the file is not torn, no
record length wraps in 32 bits, and the file holds no other frame for the key
of a data record of the batch. -/
def CleanFlush (s : ReceiverLogs) : ReceiverLogOp → Prop
  | .flushReady aged _ =>
      ∀ log ∈ s.session, log.opened = true → log.takeBatch aged ≠ none →
        (scanExisting s.file).map (·.2) = some 0 ∧
          ∀ record ∈ log.pending, record.body.length + 29 < 2 ^ 32 ∧
            (record.type = 1 →
              ∀ entry ∈ (scanExisting s.file).bind (·.1.lookup record.key),
                entry.frame = record.body)
  | _ => True

instance (s : ReceiverLogs) (op : ReceiverLogOp) :
    Decidable (CleanFlush s op) := by
  unfold CleanFlush
  split
  · have : ∀ log : ReceiverLog, ∀ aged,
        Decidable (log.takeBatch aged ≠ none) := fun log aged =>
      decidable_of_iff ((log.takeBatch aged).isNone = false)
        (by cases log.takeBatch aged <;> simp)
    infer_instance
  · infer_instance

namespace ReceiverLog

theorem commitRecord_frame (state : ReceiverLog × FlushResult)
    (record : PendingRec) (key : RecvKey) :
    ((commitRecord state record).1.index.lookup key).map (·.frame) =
      (state.1.index.lookup key).map (·.frame) := by
  obtain ⟨log, result⟩ := state
  dsimp only [commitRecord]
  split
  · simp only [Table.lookup_modify]
    split <;> simp [Function.comp_def]
  · split
    · simp only [Table.lookup_modify]
      split <;> simp [Function.comp_def]
    · rfl

theorem commitRecord_pending (state : ReceiverLog × FlushResult)
    (record : PendingRec) :
    (commitRecord state record).1.pending = state.1.pending := by
  obtain ⟨log, result⟩ := state
  dsimp only [commitRecord]
  split
  · rfl
  · split <;> rfl

theorem foldl_commitRecord (batch : List PendingRec)
    (state : ReceiverLog × FlushResult) :
    (batch.foldl commitRecord state).1.pending = state.1.pending ∧
      ∀ key, ((batch.foldl commitRecord state).1.index.lookup key).map
          (·.frame) = (state.1.index.lookup key).map (·.frame) := by
  induction batch generalizing state with
  | nil => exact ⟨rfl, fun _ => rfl⟩
  | cons record batch ih =>
      obtain ⟨hpending, hframe⟩ := ih (commitRecord state record)
      refine ⟨hpending.trans (commitRecord_pending state record), fun key => ?_⟩
      exact (hframe key).trans (commitRecord_frame state record key)

theorem rollback_pending (log : ReceiverLog) (batch : List PendingRec) :
    (log.rollback batch).pending = log.pending := by
  unfold rollback
  induction batch generalizing log with
  | nil => rfl
  | cons record batch ih =>
      rw [List.foldl_cons, ih]
      unfold rollbackRecord
      split
      · split
        · rfl
        · split <;> rfl
      · rfl

theorem takeBatch_eq_some {log taken : ReceiverLog} {aged : Bool}
    {batch : List PendingRec} (htake : log.takeBatch aged = some (batch, taken)) :
    batch = log.pending ∧
      taken = { log with pending := [], groupOpen := false } := by
  unfold takeBatch at htake
  split at htake
  · simp at htake
  · split at htake
    · simp at htake
    · simp only [Option.some.injEq, Prod.mk.injEq] at htake
      exact ⟨htake.1.symm, htake.2.symm⟩

end ReceiverLog

/-- Every data record that waits for a flush has its frame in the index. -/
def Buffered (log : ReceiverLog) : Prop :=
  ∀ record ∈ log.pending, record.type = 1 →
    (log.index.lookup record.key).map (·.frame) = some record.body

structure ReceiverLogsInv (s : ReceiverLogs) (records : List RecvRecord)
    (tail : List UInt8) : Prop where
  file : ReceiverFile s.file records tail
  reported : ∀ key frame, (key, frame) ∈ s.reported →
    dataFrame records key = some frame
  buffered : ∀ log ∈ s.session, Buffered log

namespace ReceiverLogsInv

variable {s : ReceiverLogs} {records : List RecvRecord} {tail : List UInt8}

theorem durable (hinv : ReceiverLogsInv s records tail) : s.Durable := by
  intro key frame hreported
  obtain ⟨index, torn, hscan, hframe⟩ := hinv.file.scan_frame key
  exact ⟨index, torn, hscan, hframe.trans (hinv.reported key frame hreported)⟩

/-- Only the session changes, and its waiting records stay indexed. -/
theorem with_session (hinv : ReceiverLogsInv s records tail)
    {log : ReceiverLog} (hlog : Buffered log) :
    ReceiverLogsInv { s with session := some log } records tail := by
  refine { hinv with buffered := ?_ }
  intro other hother
  simp only [Option.mem_def, Option.some.injEq] at hother
  exact hother ▸ hlog

end ReceiverLogsInv

theorem Buffered.bufferData {log : ReceiverLog} (hlog : Buffered log)
    (key : RecvKey) (frame : List UInt8) (replyConnId : UInt64) :
    Buffered (log.bufferData key frame replyConnId).1 := by
  unfold ReceiverLog.bufferData
  cases hlookup : log.index.lookup key with
  | some entry => exact hlog
  | none =>
      intro record hrecord htype
      simp only [List.mem_append, List.mem_singleton] at hrecord
      simp only [Table.lookup_insert]
      rcases hrecord with hold | rfl
      · have hframe := hlog record hold htype
        rw [if_neg]
        · exact hframe
        · rintro rfl
          simp [hlookup] at hframe
      · simp [PendingRec.key]

theorem Buffered.bufferHandled {log : ReceiverLog} (hlog : Buffered log)
    (key : RecvKey) (replyConnId : UInt64) :
    Buffered (log.bufferHandled key replyConnId) := by
  have hframe : ∀ other, ((log.index.modify key fun entry =>
      { entry with replyConnId := replyConnId }).lookup other).map (·.frame) =
        (log.index.lookup other).map (·.frame) := by
    intro other
    rw [Table.lookup_modify]
    split <;> simp [Function.comp_def]
  unfold ReceiverLog.bufferHandled
  cases hlookup : log.index.lookup key with
  | none => exact hlog
  | some entry =>
      dsimp only
      split
      · intro record hrecord htype
        exact (hframe _).trans (hlog record hrecord htype)
      · split
        · intro record hrecord htype
          exact (hframe _).trans (hlog record hrecord htype)
        · intro record hrecord htype
          simp only [List.mem_append, List.mem_singleton] at hrecord
          rcases hrecord with hold | rfl
          · exact (hframe _).trans (hlog record hold htype)
          · simp at htype

/-- A batch whose data records are all indexed holds, for each of its keys,
the frame of the index. -/
theorem dataFrame_batch {log : ReceiverLog} {record : PendingRec}
    (hlog : Buffered log) (hrecord : record ∈ log.pending)
    (htype : record.type = 1) :
    dataFrame (log.pending.map (·.toRecord)) record.key = some record.body := by
  have hframe := hlog record hrecord htype
  cases hfind : (log.pending.map (·.toRecord)).find? fun other =>
      other.type = 1 ∧ other.key = record.key with
  | none =>
      rw [List.find?_eq_none] at hfind
      have hself := hfind record.toRecord (List.mem_map_of_mem hrecord)
      simp [PendingRec.toRecord, RecvRecord.key, PendingRec.key, htype] at hself
  | some other =>
      obtain ⟨first, hfirst, rfl⟩ :=
        List.mem_map.mp (List.mem_of_find?_eq_some hfind)
      have hmatch := List.find?_some hfind
      rw [decide_eq_true_eq, PendingRec.key_toRecord] at hmatch
      have hother := hlog first hfirst hmatch.1
      rw [hmatch.2, hframe, Option.some.injEq] at hother
      rw [dataFrame, hfind, hother]
      rfl

theorem mem_reportedBy {log : ReceiverLog} {batch : List PendingRec}
    {key : RecvKey} {frame : List UInt8}
    (hmem : (key, frame) ∈ reportedBy log batch) :
    ∃ record ∈ batch, record.type = 1 ∧ record.key = key ∧
      (log.index.lookup key).map (·.frame) = some frame := by
  obtain ⟨record, hrecord, hvalue⟩ := List.mem_filterMap.mp hmem
  refine ⟨record, hrecord, ?_⟩
  split at hvalue
  · rename_i htype
    split at hvalue
    · rename_i entry hlookup
      split at hvalue
      · simp only [Option.some.injEq, Prod.mk.injEq] at hvalue
        obtain ⟨rfl, rfl⟩ := hvalue
        exact ⟨htype, rfl, by simp [hlookup]⟩
      · simp at hvalue
    · simp at hvalue
  · simp at hvalue

/-- The flush step: the records of the batch that reached the file are added,
and what is reported is in them. -/
theorem ReceiverLogsInv.flush {s : ReceiverLogs} {records : List RecvRecord}
    {log : ReceiverLog} (hinv : ReceiverLogsInv s records [])
    (hlog : s.session = some log) (io : IoScript)
    (hbody : ∀ record ∈ log.pending, record.body.length + 29 < 2 ^ 32)
    (hsame : ∀ record ∈ log.pending, record.type = 1 →
      ∀ entry ∈ (scanExisting s.file).bind (·.1.lookup record.key),
        entry.frame = record.body) :
    ∃ records tail, ReceiverLogsInv
      (s.flush { log with pending := [], groupOpen := false } log.pending io)
      records tail := by
  have hbuffered := hinv.buffered log hlog
  obtain ⟨whole, tail, hwhole, hfile, hdone⟩ := hinv.file.append
    { log with pending := [], groupOpen := false } io hbody
  have hkept : ∀ key frame, (key, frame) ∈ s.reported →
      dataFrame (records ++ whole.map (·.toRecord)) key = some frame := by
    intro key frame hmem
    rw [dataFrame_append, hinv.reported key frame hmem, Option.some_or]
  refine ⟨records ++ whole.map (·.toRecord), tail, ?_⟩
  unfold ReceiverLogs.flush
  generalize ReceiverLog.writeBatch _ _ _ = result at hfile hdone ⊢
  obtain ⟨written, outcome⟩ := result
  rcases outcome with ok | -
  on_goal 2 => exact ⟨hfile, hkept, by simp⟩
  cases ok with
  | false =>
    refine ⟨hfile, hkept, fun after hafter => ?_⟩
    simp only [Option.mem_def, Option.some.injEq] at hafter
    subst hafter
    intro record hrecord
    simp [ReceiverLog.rollback_pending] at hrecord
  | true =>
    obtain rfl := hdone rfl
    obtain ⟨hpending, hframe⟩ := ReceiverLog.foldl_commitRecord log.pending
      ({ log with pending := [], groupOpen := false }, ⟨true, [], []⟩)
    refine ⟨hfile, fun key frame hmem => ?_, fun after hafter => ?_⟩
    · rcases List.mem_append.mp hmem with hold | hnew
      · exact hkept key frame hold
      · obtain ⟨record, hrecord, htype, rfl, hentry⟩ := mem_reportedBy hnew
        rw [ReceiverLog.commitIndex, hframe,
          hbuffered record hrecord htype] at hentry
        obtain ⟨index, torn, hscan, hold⟩ := hinv.file.scan_frame record.key
        rw [dataFrame_append, dataFrame_batch hbuffered hrecord htype, ← hold]
        cases hlookup : index.lookup record.key with
        | none => simpa using hentry
        | some entry =>
            have := hsame record hrecord htype entry (by simp [hscan, hlookup])
            simpa [this] using hentry
    · simp only [Option.mem_def, Option.some.injEq] at hafter
      subst hafter
      intro record hrecord
      simp [ReceiverLog.commitIndex, hpending] at hrecord

theorem receiverLogsInv_step (s : ReceiverLogs) (op : ReceiverLogOp)
    (next : ReceiverLogs)
    (hinv : ∃ records tail, ReceiverLogsInv s records tail)
    (hguard : CleanFlush s op) (hstep : s.step op = some next) :
    ∃ records tail, ReceiverLogsInv next records tail := by
  obtain ⟨records, tail, hinv⟩ := hinv
  cases op with
  | construct opened =>
      simp only [ReceiverLogs.step, ReceiverLog.construct, hinv.file.scan_eq,
        Option.map_some, Option.some.injEq] at hstep
      subst hstep
      refine ⟨records, tail, hinv.with_session ?_⟩
      intro record hrecord
      simp at hrecord
  | bufferData key frame replyConnId =>
      obtain ⟨log, hlog, rfl⟩ := Option.map_eq_some_iff.mp hstep
      exact ⟨records, tail, hinv.with_session
        ((hinv.buffered log hlog).bufferData key frame replyConnId)⟩
  | bufferHandled key replyConnId =>
      obtain ⟨log, hlog, rfl⟩ := Option.map_eq_some_iff.mp hstep
      exact ⟨records, tail, hinv.with_session
        ((hinv.buffered log hlog).bufferHandled key replyConnId)⟩
  | flushReady aged io =>
      obtain ⟨log, hlog, rfl⟩ := Option.map_eq_some_iff.mp hstep
      cases htake : log.takeBatch aged with
      | none => exact ⟨records, tail, hinv⟩
      | some result =>
          obtain ⟨batch, taken⟩ := result
          obtain ⟨rfl, rfl⟩ := ReceiverLog.takeBatch_eq_some htake
          by_cases hopened : log.opened = true
          · obtain ⟨hclean, hrecords⟩ :=
              hguard log hlog hopened (by simp [htake])
            obtain rfl := hinv.file.tail_eq_nil hclean
            exact hinv.flush hlog io
              (fun record hrecord => (hrecords record hrecord).1)
              fun record hrecord => (hrecords record hrecord).2
          · refine ⟨records, tail, ?_⟩
            have hsession : Buffered (ReceiverLog.rollback
                { log with pending := [], groupOpen := false } log.pending) := by
              intro record hrecord
              simp [ReceiverLog.rollback_pending] at hrecord
            have hsame := hinv.with_session hsession
            simpa [ReceiverLogs.flush, ReceiverLog.writeBatch, hopened]
              using hsame

/-- In every run whose flushes are clean, every record that was reported as
persisted is found by every later scan. -/
theorem receiverLogs_durable (word : List ReceiverLogOp) (last : ReceiverLogs)
    (hmeets : receiverLogMachine.Meets CleanFlush word)
    (hrun : receiverLogMachine.run word = some last) : last.Durable := by
  have hstart : ∃ records tail,
      ReceiverLogsInv receiverLogMachine.start records tail :=
    ⟨[], [], receiverFile_nil, by simp [receiverLogMachine, ReceiverLogs.init],
      by simp [receiverLogMachine, ReceiverLogs.init]⟩
  obtain ⟨records, tail, hinv⟩ := receiverLogMachine.run_invariant
    (I := fun s => ∃ records tail, ReceiverLogsInv s records tail) hstart
    receiverLogsInv_step word hmeets hrun
  exact hinv.durable

/-- A batch of data and handled records, then a batch that is cut inside its
second record, then a reopen. -/
def cutBatch : List ReceiverLogOp :=
  [.construct true, .bufferData ⟨5, 1⟩ [7] 9, .bufferHandled ⟨5, 1⟩ 9,
    .flushReady true ⟨[.interrupted, .wrote 4], .ok⟩,
    .bufferData ⟨5, 2⟩ [8] 9, .bufferData ⟨5, 3⟩ [9] 9,
    .flushReady true ⟨[.wrote 33, .killed], .ok⟩, .construct true]

theorem receiverLogs_durable_cutBatch :
    receiverLogMachine.Meets CleanFlush cutBatch ∧
      ∃ last, receiverLogMachine.run cutBatch = some last ∧
        last.reported = [(⟨5, 1⟩, [7])] ∧ last.Durable := by
  have hmeets : receiverLogMachine.Meets CleanFlush cutBatch := by
    decide +kernel
  have hvalue : (receiverLogMachine.run cutBatch).map (·.reported) =
      some [(⟨5, 1⟩, [7])] := by
    decide +kernel
  obtain ⟨last, hlast, hreported⟩ := Option.map_eq_some_iff.mp hvalue
  exact ⟨hmeets, last, hlast, hreported,
    receiverLogs_durable _ last hmeets hlast⟩

/-- A flush fails after three bytes; the next flush succeeds behind them. -/
def flushAfterTorn : List ReceiverLogOp :=
  [.construct true, .bufferData ⟨5, 1⟩ [7] 9,
    .flushReady true ⟨[.wrote 3, .failed], .ok⟩,
    .bufferData ⟨5, 2⟩ [8] 9, .flushReady true ⟨[], .ok⟩]

theorem receiverLogs_flush_after_torn_lost :
    ∃ last, receiverLogMachine.run flushAfterTorn = some last ∧
      ¬ last.Durable := by
  have hvalue : (receiverLogMachine.run flushAfterTorn).map (fun s =>
      (s.reported, (scanExisting s.file).map (·.1.entries))) =
        some ([(⟨5, 2⟩, [8])], some []) := by
    decide
  obtain ⟨last, hlast, heq⟩ := Option.map_eq_some_iff.mp hvalue
  simp only [Prod.mk.injEq] at heq
  obtain ⟨hreported, hscan⟩ := heq
  refine ⟨last, hlast, fun hdurable => ?_⟩
  obtain ⟨index, torn, hfound, hframe⟩ :=
    hdurable ⟨5, 2⟩ [8] (by simp [hreported])
  simp only [hfound, Option.map_some, Option.some.injEq] at hscan
  simp [AList.lookup, hscan] at hframe

end UltraNet
