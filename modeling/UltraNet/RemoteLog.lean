/-
The sender log `remote_log`: its constructor, `append_data`, `append_ack` and
`scan_remote_log`, over the bytes of one append-only file and any number of
process lifetimes.
-/
import UltraNet.AppendFile
import UltraNet.FramedLog
import UltraNet.GuardedRun
import Mathlib.Data.Finset.Basic

namespace UltraNet

def crcBit (crc : UInt32) : UInt32 :=
  if crc &&& 1 ≠ 0 then (crc >>> 1) ^^^ 0xEDB88320 else crc >>> 1

def crc32IsoHdlc (data : List UInt8) : UInt32 :=
  data.foldl (fun crc byte => crcBit^[8] (crc ^^^ byte.toUInt32)) 0xFFFFFFFF ^^^
    0xFFFFFFFF

/-- Magic ULR1, then type and message id, then length, body and checksum. -/
def remoteFormat : FrameFormat where
  magic := [0x55, 0x4C, 0x52, 0x31]
  headSize := 9
  checksum := crc32IsoHdlc

structure LogRecord where
  type : UInt8
  msgId : UInt64
  body : List UInt8
deriving DecidableEq

namespace LogRecord

def toFrame (record : LogRecord) : Frame :=
  ⟨record.type :: leBytes 8 record.msgId.toNat, record.body⟩

def ofFrame (frame : Frame) : LogRecord :=
  ⟨frame.head.headD 0, readLeU64 (frame.head.drop 1), frame.body⟩

@[simp] theorem ofFrame_toFrame (record : LogRecord) :
    ofFrame record.toFrame = record := by
  have hid := readLeU64_leBytes record.msgId []
  rw [List.append_nil] at hid
  simp [ofFrame, toFrame, hid]

theorem fits (record : LogRecord) (hbody : record.body.length + 21 < 2 ^ 32) :
    remoteFormat.Fits record.toFrame := by
  refine ⟨by simp [toFrame, remoteFormat], ?_⟩
  simp only [FrameFormat.overhead, remoteFormat, toFrame, List.length_cons,
    List.length_nil]
  omega

end LogRecord

structure RemoteLogScan where
  completeData : Nat
  torn : Nat
  unackedFrames : List (List UInt8)
deriving DecidableEq

def ackedIds (records : List LogRecord) : List UInt64 :=
  (records.filter (·.type = 2)).map (·.msgId)

/-- What `scan_remote_log` makes of the records it has read. -/
def RemoteLogScan.ofRecords (records : List LogRecord) (bad : Bool) :
    RemoteLogScan where
  completeData := (records.filter (·.type = 1)).length
  torn := if bad then 1 else 0
  unackedFrames := (records.filter fun record =>
    record.type = 1 ∧ record.msgId ∉ ackedIds records).map (·.body)

def scanRemoteLog (bytes : List UInt8) : Option RemoteLogScan :=
  (remoteFormat.scan bytes).map fun found =>
    .ofRecords (found.1.map LogRecord.ofFrame) found.2

/-- `remote_log` between two calls; `opened` says that `m_fd >= 0`. -/
structure RemoteLog where
  opened : Bool
  dataIds : Finset UInt64
deriving DecidableEq

/-- The constructor; `none` when its loop does not end. -/
def RemoteLog.construct (bytes : List UInt8) (opened : Bool) :
    Option RemoteLog :=
  (FrameFormat.scanLoop remoteFormat.parseWide bytes.length bytes).map
    fun found =>
      ⟨opened, (((found.1.map LogRecord.ofFrame).filter (·.type = 1)).map
        (·.msgId)).toFinset⟩

/-- A write of no bytes is repeated, any negative result ends the call. -/
def remoteWritePolicy : WritePolicy := ⟨false, false⟩

/-- The record that `append_record_locked` builds; `body_len` has 32 bits. -/
def appendedRecord (type : UInt8) (msgId : UInt64) (body : List UInt8) :
    LogRecord :=
  ⟨type, msgId, body.take (body.length % 2 ^ 32)⟩

/-- The bytes that reach the file, and how the call ends. -/
def appendRecordLocked (log : RemoteLog) (type : UInt8) (msgId : UInt64)
    (body : List UInt8) (io : IoScript) : List UInt8 × CallOutcome :=
  if log.opened then
    writeAndSync remoteWritePolicy
      (remoteFormat.encode (appendedRecord type msgId body).toFrame) io
  else ([], .returned false)

def RemoteLog.appendData (log : RemoteLog) (msgId : UInt64)
    (body : List UInt8) (io : IoScript) :
    List UInt8 × RemoteLog × CallOutcome :=
  if msgId ∈ log.dataIds then ([], log, .returned true)
  else
    let (written, outcome) := appendRecordLocked log 1 msgId body io
    if outcome = .returned true then
      (written, { log with dataIds := insert msgId log.dataIds }, outcome)
    else (written, log, outcome)

def RemoteLog.appendAck (log : RemoteLog) (msgId : UInt64) (io : IoScript) :
    List UInt8 × CallOutcome :=
  appendRecordLocked log 2 msgId [] io

/-- The file holds these records, and possibly a record that was cut short. -/
def RemoteFile (bytes : List UInt8) (records : List LogRecord)
    (tail : List UInt8) : Prop :=
  FrameFormat.IsLog remoteFormat bytes (records.map LogRecord.toFrame) tail

theorem remoteFile_nil : RemoteFile [] [] [] := FrameFormat.isLog_nil

namespace RemoteFile

variable {bytes tail : List UInt8} {records : List LogRecord}

theorem scan_eq (hfile : RemoteFile bytes records tail) :
    scanRemoteLog bytes = some (.ofRecords records (decide (tail ≠ []))) := by
  rw [scanRemoteLog, FrameFormat.IsLog.scan_eq hfile, Option.map_some,
    List.map_map]
  simp [Function.comp_def]

theorem construct_eq (hfile : RemoteFile bytes records tail) (opened : Bool) :
    RemoteLog.construct bytes opened =
      some ⟨opened,
        ((records.filter (·.type = 1)).map (·.msgId)).toFinset⟩ := by
  rw [RemoteLog.construct, FrameFormat.IsLog.scanLoop_parseWide hfile,
    Option.map_some, List.map_map]
  simp [Function.comp_def]

/-- The scan reports a torn file exactly when a cut record ends it. -/
theorem tail_eq_nil (hfile : RemoteFile bytes records tail)
    (hclean : (scanRemoteLog bytes).map (·.torn) = some 0) : tail = [] := by
  by_contra htail
  simp [hfile.scan_eq, RemoteLogScan.ofRecords, htail] at hclean

/-- An append to a file that is not torn adds the record, or leaves the
records as they are. -/
theorem append (hfile : RemoteFile bytes records []) (log : RemoteLog)
    (type : UInt8) (msgId : UInt64) (body : List UInt8) (io : IoScript)
    (hbody : body.length + 21 < 2 ^ 32) :
    (∃ tail, RemoteFile (bytes ++ (appendRecordLocked log type msgId body io).1)
        records tail ∧
      (appendRecordLocked log type msgId body io).2 ≠ .returned true) ∨
    RemoteFile (bytes ++ (appendRecordLocked log type msgId body io).1)
        (records ++ [⟨type, msgId, body⟩]) [] ∧
      log.opened = true ∧
      (writeLoop remoteWritePolicy (remoteFormat.encode
        (appendedRecord type msgId body).toFrame) io.writes).2 =
          .returned true := by
  have hrecord : appendedRecord type msgId body = ⟨type, msgId, body⟩ := by
    rw [appendedRecord, Nat.mod_eq_of_lt (by omega), List.take_length]
  have hfits := LogRecord.fits ⟨type, msgId, body⟩ hbody
  cases hopened : log.opened with
  | false =>
      left
      exact ⟨[], by simpa [appendRecordLocked, hopened] using hfile,
        by simp [appendRecordLocked, hopened]⟩
  | true =>
      simp only [appendRecordLocked, hopened, if_true, hrecord,
        writeAndSync_fst, ne_eq, writeAndSync_returned]
      have hpre := writeLoop_prefix remoteWritePolicy
        (remoteFormat.encode (LogRecord.toFrame ⟨type, msgId, body⟩))
        io.writes
      obtain ⟨whole, tail, hwhole, hlog, hcases⟩ :=
        FrameFormat.IsLog.append hfile
          (by simpa using hfits : ∀ frame ∈
            [LogRecord.toFrame ⟨type, msgId, body⟩], remoteFormat.Fits frame)
          (by simpa using hpre)
      rcases hcases with ⟨hall, rfl, rfl⟩ | ⟨hpart, hne⟩
      · right
        refine ⟨by simpa [RemoteFile] using hlog, trivial, ?_⟩
        exact writeLoop_returned _ _ _ (by simpa using hall)
      · left
        have hnone : whole = [] := by
          rcases List.prefix_cons_iff.mp hwhole with hnil | ⟨rest, rfl, hrest⟩
          · exact hnil
          · exact absurd (by simpa using hrest) hne
        subst hnone
        refine ⟨tail, by simpa [RemoteFile] using hlog, ?_⟩
        rintro ⟨hdone, -⟩
        exact hpart (by simpa using writeLoop_complete _ _ _ hdone)

end RemoteFile

end UltraNet
