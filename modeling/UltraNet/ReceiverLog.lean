/-
The receiver log `receiver_log`: its index, the records that wait for a flush,
the bytes of a batch and the scan of an existing file.  Each method is one
critical section, except `flush_ready`, which takes the batch, writes it and
updates the index in three.
-/
import UltraNet.AssocTable
import UltraNet.RemoteLog

namespace UltraNet

/-- `receiver_log::key`. -/
structure RecvKey where
  sender : UInt64
  msgId : UInt64
deriving DecidableEq

/-- `receiver_log::entry`. -/
structure RecvEntry where
  frame : List UInt8
  replyConnId : UInt64
  persisted : Bool
  executed : Bool
  enqueued : Bool
  handled : Bool
deriving DecidableEq

/-- `receiver_log::pending_rec`. -/
structure PendingRec where
  type : UInt8
  sender : UInt64
  msgId : UInt64
  replyConnId : UInt64
  body : List UInt8
deriving DecidableEq

def PendingRec.key (record : PendingRec) : RecvKey :=
  ⟨record.sender, record.msgId⟩

/-- `receiver_log::ack_item`.  `sender` is ghost data: the item names a
connection and a message id only. -/
structure AckItem where
  replyConnId : UInt64
  msgId : UInt64
  sender : UInt64
deriving DecidableEq

structure FlushResult where
  ok : Bool
  dataKeys : List RecvKey
  acks : List AckItem
deriving DecidableEq

/-- `receiver_log` between two critical sections.  The start time of the open
group is not kept: whether it is 2 ms old is answered by the environment. -/
structure ReceiverLog where
  opened : Bool
  torn : Nat
  index : Table RecvKey RecvEntry
  pending : List PendingRec
  groupOpen : Bool
  fsyncedData : Nat
  fsyncedHandled : Nat

/-- Magic RCV1, then type, sender and message id, then length, body and
checksum. -/
def receiverFormat : FrameFormat where
  magic := [0x52, 0x43, 0x56, 0x31]
  headSize := 17
  checksum := crc32IsoHdlc

/-- One record as `scan_existing` reads it. -/
structure RecvRecord where
  type : UInt8
  sender : UInt64
  msgId : UInt64
  body : List UInt8
deriving DecidableEq

namespace RecvRecord

def key (record : RecvRecord) : RecvKey := ⟨record.sender, record.msgId⟩

def toFrame (record : RecvRecord) : Frame :=
  ⟨record.type :: leBytes 8 record.sender.toNat ++
    leBytes 8 record.msgId.toNat, record.body⟩

def ofFrame (frame : Frame) : RecvRecord :=
  ⟨frame.head.headD 0, readLeU64 (frame.head.drop 1),
    readLeU64 (frame.head.drop 9), frame.body⟩

@[simp] theorem ofFrame_toFrame (record : RecvRecord) :
    ofFrame record.toFrame = record := by
  have hsender := readLeU64_leBytes record.sender
    (leBytes 8 record.msgId.toNat)
  have hid := readLeU64_leBytes record.msgId []
  rw [List.append_nil] at hid
  have hdrop : (record.type :: leBytes 8 record.sender.toNat ++
      leBytes 8 record.msgId.toNat).drop 9 = leBytes 8 record.msgId.toNat :=
    List.drop_left' (by simp)
  simp only [ofFrame, toFrame, hdrop, hid]
  simp [hsender]

theorem fits {record : RecvRecord} (hbody : record.body.length + 29 < 2 ^ 32) :
    receiverFormat.Fits record.toFrame := by
  refine ⟨by simp [toFrame, receiverFormat], ?_⟩
  simp only [FrameFormat.overhead, receiverFormat, toFrame, List.length_cons,
    List.length_nil]
  omega

end RecvRecord

def PendingRec.toRecord (record : PendingRec) : RecvRecord :=
  ⟨record.type, record.sender, record.msgId, record.body⟩

@[simp] theorem PendingRec.key_toRecord (record : PendingRec) :
    record.toRecord.key = record.key := rfl

/-- What `scan_existing` does with one record: the first data record of a key
makes its entry, a handled record marks it. -/
def indexRecord (index : Table RecvKey RecvEntry) (record : RecvRecord) :
    Table RecvKey RecvEntry :=
  if record.type = 1 then
    match index.lookup record.key with
    | none => index.insert record.key ⟨record.body, 0, true, false, false, false⟩
    | some _ => index
  else if record.type = 2 then
    index.modify record.key fun entry => { entry with handled := true }
  else index

def scanExisting (bytes : List UInt8) :
    Option (Table RecvKey RecvEntry × Nat) :=
  (receiverFormat.scan bytes).map fun found =>
    ((found.1.map RecvRecord.ofFrame).foldl indexRecord ∅,
      if found.2 then 1 else 0)

/-- The data records that a batch or a file holds for a key; the first one
counts. -/
def dataFrame (records : List RecvRecord) (key : RecvKey) :
    Option (List UInt8) :=
  (records.find? fun record => record.type = 1 ∧ record.key = key).map (·.body)

/-- A retry after `EINTR`, a failure on a write of no bytes. -/
def receiverWritePolicy : WritePolicy := ⟨true, true⟩

def batchBytes (batch : List PendingRec) : List UInt8 :=
  receiverFormat.encodeAll
    (batch.map fun record => record.toRecord.toFrame)

namespace ReceiverLog

/-- The constructor; `none` when `scan_existing` does not end or reads out of
bounds. -/
def construct (bytes : List UInt8) (opened : Bool) : Option ReceiverLog :=
  (scanExisting bytes).map fun found => ⟨opened, found.2, found.1, [], false, 0, 0⟩

def executed (log : ReceiverLog) (key : RecvKey) : Bool :=
  (log.index.lookup key).any (·.executed)

def handledDurable (log : ReceiverLog) (key : RecvKey) : Bool :=
  (log.index.lookup key).any (·.handled)

def hasData (log : ReceiverLog) (key : RecvKey) : Bool :=
  (log.index.lookup key).isSome

def persisted (log : ReceiverLog) (key : RecvKey) : Bool :=
  (log.index.lookup key).any (·.persisted)

def enqueued (log : ReceiverLog) (key : RecvKey) : Bool :=
  (log.index.lookup key).any (·.enqueued)

def copyFrame (log : ReceiverLog) (key : RecvKey) : List UInt8 :=
  (log.index.lookup key).elim [] (·.frame)

def replyConn (log : ReceiverLog) (key : RecvKey) : UInt64 :=
  (log.index.lookup key).elim 0 (·.replyConnId)

def setEnqueued (log : ReceiverLog) (key : RecvKey) (value : Bool) :
    ReceiverLog :=
  { log with index := log.index.modify key fun entry =>
      { entry with enqueued := value } }

def markExecuted (log : ReceiverLog) (key : RecvKey) : ReceiverLog :=
  { log with index := log.index.modify key fun entry =>
      { entry with executed := true, enqueued := false } }

def dropKey (log : ReceiverLog) (key : RecvKey) : ReceiverLog :=
  { log with index := log.index.erase key }

/-- `buffer_data`; the flag says whether the record was taken. -/
def bufferData (log : ReceiverLog) (key : RecvKey) (frame : List UInt8)
    (replyConnId : UInt64) : ReceiverLog × Bool :=
  match log.index.lookup key with
  | some _ => (log, false)
  | none =>
      ({ log with
          index := log.index.insert key
            ⟨frame, replyConnId, false, false, false, false⟩
          groupOpen := true
          pending := log.pending ++
            [⟨1, key.sender, key.msgId, replyConnId, frame⟩] }, true)

def bufferHandled (log : ReceiverLog) (key : RecvKey) (replyConnId : UInt64) :
    ReceiverLog :=
  match log.index.lookup key with
  | none => log
  | some entry =>
      let index := log.index.modify key fun entry =>
        { entry with replyConnId := replyConnId }
      if entry.handled then { log with index := index }
      else if log.pending.any fun record =>
          record.type = 2 ∧ record.key = key then { log with index := index }
      else
        { log with
          index := index
          groupOpen := true
          pending := log.pending ++ [⟨2, key.sender, key.msgId, replyConnId, []⟩] }

/-- The first section of `flush_ready`: the batch, when one is due. -/
def takeBatch (log : ReceiverLog) (aged : Bool) :
    Option (List PendingRec × ReceiverLog) :=
  if log.pending = [] then none
  else if log.pending.length < 32 ∧ ¬ (log.groupOpen ∧ aged) then none
  else some (log.pending, { log with pending := [], groupOpen := false })

/-- The write of `commit_batch`. -/
def writeBatch (log : ReceiverLog) (batch : List PendingRec) (io : IoScript) :
    List UInt8 × CallOutcome :=
  if log.opened then writeAndSync receiverWritePolicy (batchBytes batch) io
  else ([], .returned false)

/-- What `commit_batch` does with one record after a successful sync. -/
def commitRecord (state : ReceiverLog × FlushResult) (record : PendingRec) :
    ReceiverLog × FlushResult :=
  let (log, result) := state
  if record.type = 1 then
    ({ log with
        index := log.index.modify record.key fun entry =>
          { entry with persisted := true }
        fsyncedData := log.fsyncedData + 1 },
      match log.index.lookup record.key with
      | none => result
      | some entry =>
          if entry.executed ∨ entry.enqueued then result
          else { result with dataKeys := result.dataKeys ++ [record.key] })
  else if record.type = 2 then
    ({ log with
        index := log.index.modify record.key fun entry =>
          { entry with handled := true }
        fsyncedHandled := log.fsyncedHandled + 1 },
      { result with acks := result.acks ++
          [⟨record.replyConnId, record.msgId, record.sender⟩] })
  else state

def commitIndex (log : ReceiverLog) (batch : List PendingRec) :
    ReceiverLog × FlushResult :=
  batch.foldl commitRecord (log, ⟨true, [], []⟩)

def rollbackRecord (log : ReceiverLog) (record : PendingRec) : ReceiverLog :=
  if record.type = 1 then
    match log.index.lookup record.key with
    | none => log
    | some entry =>
        if entry.persisted then log
        else { log with index := log.index.erase record.key }
  else log

def rollback (log : ReceiverLog) (batch : List PendingRec) : ReceiverLog :=
  batch.foldl rollbackRecord log

/-- `waiting_keys`. -/
def waitingKeys (log : ReceiverLog) : List RecvKey :=
  (log.index.entries.filter fun entry =>
    entry.2.persisted ∧ ¬ entry.2.executed ∧ ¬ entry.2.enqueued).map (·.1)

end ReceiverLog

theorem frame_indexRecord (index : Table RecvKey RecvEntry)
    (record : RecvRecord) (key : RecvKey) :
    ((indexRecord index record).lookup key).map (·.frame) =
      ((index.lookup key).map (·.frame)).or (dataFrame [record] key) := by
  unfold indexRecord
  by_cases hdata : record.type = 1
  · rw [if_pos hdata]
    by_cases hkey : key = record.key
    · subst hkey
      cases hlookup : index.lookup record.key with
      | none => simp [dataFrame, hdata]
      | some entry => simp [hlookup]
    · have hother : record.key ≠ key := fun h => hkey h.symm
      cases hlookup : index.lookup record.key with
      | none => simp [dataFrame, hother, hkey]
      | some entry => simp [dataFrame, hother]
  · rw [if_neg hdata]
    have hnone : dataFrame [record] key = none := by simp [dataFrame, hdata]
    rw [hnone, Option.or_none]
    split
    · rw [Table.lookup_modify]
      split <;> simp [Function.comp_def]
    · rfl

theorem dataFrame_append (first last : List RecvRecord) (key : RecvKey) :
    dataFrame (first ++ last) key =
      (dataFrame first key).or (dataFrame last key) := by
  rw [dataFrame, List.find?_append, Option.map_or]
  rfl

/-- The index of a scan has the frame of the first data record of each key. -/
theorem frame_foldl_indexRecord (records : List RecvRecord)
    (index : Table RecvKey RecvEntry) (key : RecvKey) :
    ((records.foldl indexRecord index).lookup key).map (·.frame) =
      ((index.lookup key).map (·.frame)).or (dataFrame records key) := by
  induction records generalizing index with
  | nil => simp [dataFrame]
  | cons record records ih =>
      rw [List.foldl_cons, ih, frame_indexRecord, Option.or_assoc,
        ← dataFrame_append, List.singleton_append]

/-- The file holds these records, and possibly a record that was cut short. -/
def ReceiverFile (bytes : List UInt8) (records : List RecvRecord)
    (tail : List UInt8) : Prop :=
  FrameFormat.IsLog receiverFormat bytes (records.map RecvRecord.toFrame) tail

theorem receiverFile_nil : ReceiverFile [] [] [] := FrameFormat.isLog_nil

namespace ReceiverFile

variable {bytes tail : List UInt8} {records : List RecvRecord}

theorem scan_eq (hfile : ReceiverFile bytes records tail) :
    scanExisting bytes =
      some (records.foldl indexRecord ∅, if tail ≠ [] then 1 else 0) := by
  rw [scanExisting, FrameFormat.IsLog.scan_eq hfile, Option.map_some,
    List.map_map]
  simp [Function.comp_def]

theorem tail_eq_nil (hfile : ReceiverFile bytes records tail)
    (hclean : (scanExisting bytes).map (·.2) = some 0) : tail = [] := by
  by_contra htail
  simp [hfile.scan_eq, htail] at hclean

/-- A scan of the file finds, for each key, the first data record. -/
theorem scan_frame (hfile : ReceiverFile bytes records tail) (key : RecvKey) :
    ∃ index torn, scanExisting bytes = some (index, torn) ∧
      (index.lookup key).map (·.frame) = dataFrame records key := by
  refine ⟨_, _, hfile.scan_eq, ?_⟩
  simp [frame_foldl_indexRecord]

/-- A batch written to a file that is not torn adds its first records, all of
them when the call returns true. -/
theorem append (hfile : ReceiverFile bytes records []) (log : ReceiverLog)
    {batch : List PendingRec} (io : IoScript)
    (hbody : ∀ record ∈ batch, record.body.length + 29 < 2 ^ 32) :
    ∃ whole tail, whole <+: batch ∧
      ReceiverFile (bytes ++ (log.writeBatch batch io).1)
        (records ++ whole.map (·.toRecord)) tail ∧
      ((log.writeBatch batch io).2 = .returned true → whole = batch) := by
  cases hopened : log.opened with
  | false =>
      refine ⟨[], [], List.nil_prefix, ?_, ?_⟩
      · simpa [ReceiverLog.writeBatch, hopened] using hfile
      · simp [ReceiverLog.writeBatch, hopened]
  | true =>
      simp only [ReceiverLog.writeBatch, hopened, if_true, writeAndSync_fst,
        writeAndSync_returned]
      have hpre := writeLoop_prefix receiverWritePolicy (batchBytes batch)
        io.writes
      have hfits : ∀ frame ∈ batch.map fun record => record.toRecord.toFrame,
          receiverFormat.Fits frame := by
        intro frame hframe
        obtain ⟨record, hrecord, rfl⟩ := List.mem_map.mp hframe
        exact RecvRecord.fits (hbody record hrecord)
      obtain ⟨frames, tail, hframes, hlog, hcases⟩ :=
        FrameFormat.IsLog.append hfile hfits hpre
      have hcount := List.prefix_iff_eq_take.mp hframes
      rw [hcount, ← List.map_take] at hlog
      refine ⟨batch.take frames.length, tail, List.take_prefix _ _, ?_, ?_⟩
      · simpa [ReceiverFile, Function.comp_def] using hlog
      · rintro ⟨hdone, -⟩
        have hall := writeLoop_complete _ _ _ hdone
        rcases hcases with ⟨-, hwhole, -⟩ | ⟨hpart, -⟩
        · have hlength := congrArg List.length hwhole
          rw [List.length_map] at hlength
          exact List.take_of_length_le hlength.ge
        · exact absurd hall hpart

end ReceiverFile

end UltraNet
