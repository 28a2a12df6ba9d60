/-
What the scans of both logs make of a file that was cut at any byte: the
records that are complete, and whether the cut lies between two records.
-/
import UltraNet.ReceiverLog

namespace UltraNet

namespace FrameFormat

variable {A : Type} (F : FrameFormat) (toFrame : A → Frame)

/-- The longest run of records whose bytes all lie before the cut. -/
structure WholePrefix (records : List A) (n : Nat) (whole : List A) : Prop where
  isPrefix : whole <+: records
  inside : (F.encodeAll (whole.map toFrame)).length ≤ n
  longest : ∀ other, other <+: records →
    (F.encodeAll (other.map toFrame)).length ≤ n → other <+: whole

/-- The cut lies at the end of a record, or at the start of the file. -/
def AtBoundary (records : List A) (n : Nat) : Prop :=
  ∃ other, other <+: records ∧
    (F.encodeAll (records.map toFrame)).take n = F.encodeAll (other.map toFrame)

variable {F toFrame}

theorem torn_take {frame : Frame} (hframe : F.Fits frame) {n : Nat} (hn : n ≠ 0)
    (hcut : n < (F.encode frame).length) : F.Torn ((F.encode frame).take n) := by
  have hlength : ((F.encode frame).take n).length = n := by
    rw [List.length_take]
    omega
  refine ⟨?_, frame, hframe, List.take_prefix n _, ?_⟩
  · exact List.ne_nil_of_length_pos (by omega)
  · intro hsame
    rw [hsame] at hlength
    omega

/-- Cutting the file leaves its whole records and part of the next one. -/
theorem take_encodeAll {records : List A}
    (hfits : ∀ record ∈ records, F.Fits (toFrame record)) (n : Nat) :
    ∃ whole tail, F.WholePrefix toFrame records n whole ∧
      (F.encodeAll (records.map toFrame)).take n =
        F.encodeAll (whole.map toFrame) ++ tail ∧ (tail = [] ∨ F.Torn tail) := by
  induction records generalizing n with
  | nil =>
      refine ⟨[], [], ⟨List.prefix_rfl, Nat.zero_le _, ?_⟩, by simp, .inl rfl⟩
      intro other hother _
      exact hother
  | cons record records ih =>
      have hrecord := hfits record List.mem_cons_self
      by_cases hcut : n < (F.encode (toFrame record)).length
      · -- the cut lies within the first record
        refine ⟨[], (F.encode (toFrame record)).take n,
          ⟨List.nil_prefix, Nat.zero_le _, ?_⟩, ?_, ?_⟩
        · intro other hother hsize
          cases other with
          | nil => exact List.prefix_rfl
          | cons first rest =>
              obtain ⟨rfl, -⟩ := List.cons_prefix_cons.mp hother
              rw [List.map_cons, encodeAll_cons, List.length_append] at hsize
              omega
        · rw [List.map_cons, encodeAll_cons,
            List.take_append_of_le_length (Nat.le_of_lt hcut)]
          rfl
        · by_cases hn : n = 0
          · subst hn
            exact .inl rfl
          · exact .inr (torn_take hrecord hn hcut)
      · have hle := Nat.not_lt.mp hcut
        obtain ⟨whole, tail, hwhole, htake, htail⟩ := ih
          (fun other hother => hfits other (List.mem_cons_of_mem _ hother))
          (n - (F.encode (toFrame record)).length)
        refine ⟨record :: whole, tail, ⟨?_, ?_, ?_⟩, ?_, htail⟩
        · exact List.cons_prefix_cons.mpr ⟨rfl, hwhole.isPrefix⟩
        · have hinside := hwhole.inside
          rw [List.map_cons, encodeAll_cons, List.length_append]
          omega
        · intro other hother hsize
          cases other with
          | nil => exact List.nil_prefix
          | cons first rest =>
              obtain ⟨rfl, hrest⟩ := List.cons_prefix_cons.mp hother
              rw [List.map_cons, encodeAll_cons, List.length_append] at hsize
              exact List.cons_prefix_cons.mpr
                ⟨rfl, hwhole.longest rest hrest (by omega)⟩
        · rw [List.map_cons, encodeAll_cons, List.take_append,
            List.take_of_length_le hle, htake, List.map_cons, encodeAll_cons,
            List.append_assoc]

/-- The rest behind the whole records is empty exactly at a boundary. -/
theorem WholePrefix.atBoundary_iff {records whole : List A} {n : Nat}
    {tail : List UInt8} (hwhole : F.WholePrefix toFrame records n whole)
    (htake : (F.encodeAll (records.map toFrame)).take n =
      F.encodeAll (whole.map toFrame) ++ tail) :
    F.AtBoundary toFrame records n ↔ tail = [] := by
  constructor
  · rintro ⟨other, hother, hsame⟩
    have hsize := congrArg List.length hsame
    rw [List.length_take] at hsize
    obtain ⟨rest, hrest⟩ := hwhole.longest other hother (by omega)
    have hlength := congrArg List.length (htake.symm.trans hsame)
    rw [← hrest, List.map_append, encodeAll_append, List.length_append,
      List.length_append] at hlength
    exact List.length_eq_zero_iff.mp (by omega)
  · rintro rfl
    exact ⟨whole, hwhole.isPrefix, by rw [htake, List.append_nil]⟩

end FrameFormat

/-- The bytes of calls of `append_record_locked`, one after the other. -/
def RemoteLog.appendAll (log : RemoteLog) (calls : List (LogRecord × IoScript)) :
    List UInt8 :=
  calls.flatMap fun call =>
    (appendRecordLocked log call.1.type call.1.msgId call.1.body call.2).1

/-- The bytes of calls of `commit_batch`, one after the other. -/
def ReceiverLog.commitAll (log : ReceiverLog)
    (batches : List (List PendingRec × IoScript)) : List UInt8 :=
  batches.flatMap fun call => (log.writeBatch call.1 call.2).1

/-- The records that these calls write. -/
def appendedRecords (calls : List (LogRecord × IoScript)) : List LogRecord :=
  calls.map fun call => appendedRecord call.1.type call.1.msgId call.1.body

theorem appendedRecords_eq {calls : List (LogRecord × IoScript)}
    (hsize : ∀ call ∈ calls, call.1.body.length + 29 < 2 ^ 32) :
    appendedRecords calls = calls.map Prod.fst := by
  apply List.map_congr_left
  intro call hcall
  have hbody := hsize call hcall
  rw [appendedRecord, Nat.mod_eq_of_lt (by omega), List.take_length]

theorem RemoteLog.appendAll_eq {log : RemoteLog}
    {calls : List (LogRecord × IoScript)}
    (hdone : ∀ call ∈ calls, (appendRecordLocked log call.1.type call.1.msgId
      call.1.body call.2).2 = .returned true) :
    log.appendAll calls =
      remoteFormat.encodeAll ((appendedRecords calls).map LogRecord.toFrame) := by
  induction calls with
  | nil => rfl
  | cons call calls ih =>
      have hone := hdone call List.mem_cons_self
      have hfirst : (appendRecordLocked log call.1.type call.1.msgId call.1.body
          call.2).1 = remoteFormat.encode
            (appendedRecord call.1.type call.1.msgId call.1.body).toFrame := by
        rw [appendRecordLocked] at hone ⊢
        split at hone
        · rw [if_pos ‹_›, writeAndSync_fst]
          exact writeLoop_complete _ _ _ ((writeAndSync_returned _ _ _).mp hone).1
        · exact absurd hone (by simp)
      have hrest := ih (fun other hother => hdone other
          (List.mem_cons_of_mem _ hother))
      rw [appendAll, List.flatMap_cons, ← appendAll, hrest, hfirst]
      rfl

theorem ReceiverLog.commitAll_eq {log : ReceiverLog}
    {batches : List (List PendingRec × IoScript)}
    (hdone : ∀ call ∈ batches, (log.writeBatch call.1 call.2).2 = .returned true) :
    log.commitAll batches = receiverFormat.encodeAll
      (((batches.flatMap Prod.fst).map PendingRec.toRecord).map
        RecvRecord.toFrame) := by
  induction batches with
  | nil => rfl
  | cons call batches ih =>
      have hone := hdone call List.mem_cons_self
      have hfirst : (log.writeBatch call.1 call.2).1 = batchBytes call.1 := by
        rw [writeBatch] at hone ⊢
        split at hone
        · rw [if_pos ‹_›, writeAndSync_fst]
          exact writeLoop_complete _ _ _ ((writeAndSync_returned _ _ _).mp hone).1
        · exact absurd hone (by simp)
      have hrest := ih (fun other hother => hdone other
          (List.mem_cons_of_mem _ hother))
      rw [commitAll, List.flatMap_cons, ← commitAll, hrest, hfirst,
        List.flatMap_cons,
        List.map_append, List.map_append, FrameFormat.encodeAll_append, batchBytes]
      simp only [List.map_map]
      rfl

/-- The entry of a key: its first data record, and whether a handled record
follows it. -/
def scannedEntry (key : RecvKey) : List RecvRecord → Option RecvEntry
  | [] => none
  | record :: rest =>
      if record.type = 1 ∧ record.key = key then
        some ⟨record.body, 0, true, false, false,
          rest.any fun other => other.type = 2 ∧ other.key = key⟩
      else scannedEntry key rest

/-- Once a key has an entry, only its handled flag can change. -/
theorem lookup_indexRecord_of_some {index : Table RecvKey RecvEntry} {key : RecvKey}
    {entry : RecvEntry} (hentry : index.lookup key = some entry)
    (record : RecvRecord) :
    (indexRecord index record).lookup key = some { entry with
      handled := entry.handled || decide (record.type = 2 ∧ record.key = key) } := by
  rw [indexRecord]
  by_cases hdata : record.type = 1
  · have hother : ¬ (record.type = 2 ∧ record.key = key) := by
      rintro ⟨htype, -⟩
      rw [hdata] at htype
      exact absurd htype (by decide)
    rw [if_pos hdata, decide_eq_false hother, Bool.or_false]
    split
    · rename_i hnone
      have hkey : key ≠ record.key := by
        rintro rfl
        rw [hentry] at hnone
        exact absurd hnone (by simp)
      rw [Table.lookup_insert, if_neg hkey, hentry]
    · exact hentry
  · rw [if_neg hdata]
    by_cases htype : record.type = 2
    · rw [if_pos htype, Table.lookup_modify, hentry]
      by_cases hkey : key = record.key
      · simp [hkey, htype]
      · have hkey' : ¬ record.key = key := fun hsame => hkey hsame.symm
        simp [hkey, hkey']
    · rw [if_neg htype, hentry]
      simp [htype]

theorem lookup_foldl_of_some {index : Table RecvKey RecvEntry} {key : RecvKey}
    {entry : RecvEntry} (hentry : index.lookup key = some entry)
    (records : List RecvRecord) :
    (records.foldl indexRecord index).lookup key = some { entry with
      handled := entry.handled ||
        records.any fun other => other.type = 2 ∧ other.key = key } := by
  induction records generalizing index entry with
  | nil => simp [hentry]
  | cons record records ih =>
      rw [List.foldl_cons, ih (lookup_indexRecord_of_some hentry record),
        List.any_cons,
        Bool.or_assoc]

theorem lookup_foldl_indexRecord {index : Table RecvKey RecvEntry} {key : RecvKey}
    (hnone : index.lookup key = none) (records : List RecvRecord) :
    (records.foldl indexRecord index).lookup key = scannedEntry key records := by
  induction records generalizing index with
  | nil => exact hnone
  | cons record records ih =>
      rw [List.foldl_cons, scannedEntry]
      by_cases hfirst : record.type = 1 ∧ record.key = key
      · obtain ⟨htype, rfl⟩ := hfirst
        have hentry : (indexRecord index record).lookup record.key =
            some ⟨record.body, 0, true, false, false, false⟩ := by
          rw [indexRecord, if_pos htype, hnone]
          exact AList.lookup_insert _
        rw [if_pos ⟨htype, rfl⟩, lookup_foldl_of_some hentry, Bool.false_or]
      · rw [if_neg hfirst]
        apply ih
        rw [indexRecord]
        by_cases htype : record.type = 1
        · have hkey : key ≠ record.key := fun hsame => hfirst ⟨htype, hsame.symm⟩
          rw [if_pos htype]
          split
          · rw [Table.lookup_insert, if_neg hkey, hnone]
          · exact hnone
        · rw [if_neg htype]
          split
          · rw [Table.lookup_modify, hnone]
            simp
          · exact hnone

/-- The sender's scan of the records before the cut. -/
structure RemoteScanOf (whole : List LogRecord) (scan : RemoteLogScan) : Prop where
  completeData : scan.completeData = whole.countP (·.type = 1)
  unackedFrames : scan.unackedFrames = (whole.filter fun record =>
    record.type = 1 ∧ ¬ ∃ ack ∈ whole, ack.type = 2 ∧ ack.msgId = record.msgId).map
      (·.body)

theorem remoteScanOf_ofRecords (whole : List LogRecord) (bad : Bool) :
    RemoteScanOf whole (.ofRecords whole bad) where
  completeData := (List.countP_eq_length_filter ..).symm
  unackedFrames := by
    rw [RemoteLogScan.ofRecords]
    simp [ackedIds]

/-- Both scans see exactly the records that lie before the cut, and report a
torn file exactly if the cut is not at the end of a record. -/
theorem scans_wholePrefix (n : Nat) :
    (∀ (log : RemoteLog) (calls : List (LogRecord × IoScript)),
      (∀ call ∈ calls, call.1.body.length + 29 < 2 ^ 32) →
      (∀ call ∈ calls, (appendRecordLocked log call.1.type call.1.msgId call.1.body
        call.2).2 = .returned true) →
      ∃ whole scan,
        remoteFormat.WholePrefix LogRecord.toFrame (calls.map Prod.fst) n whole ∧
        scanRemoteLog ((log.appendAll calls).take n) = some scan ∧
        RemoteScanOf whole scan ∧ scan.torn ≤ 1 ∧
        (scan.torn = 1 ↔
          ¬ remoteFormat.AtBoundary LogRecord.toFrame (calls.map Prod.fst) n)) ∧
    (∀ (log : ReceiverLog) (batches : List (List PendingRec × IoScript)),
      (∀ call ∈ batches, ∀ record ∈ call.1, record.body.length + 29 < 2 ^ 32) →
      (∀ call ∈ batches, (log.writeBatch call.1 call.2).2 = .returned true) →
      let records := (batches.flatMap Prod.fst).map PendingRec.toRecord
      ∃ whole index torn,
        receiverFormat.WholePrefix RecvRecord.toFrame records n whole ∧
        scanExisting ((log.commitAll batches).take n) = some (index, torn) ∧
        (∀ key, index.lookup key = scannedEntry key whole) ∧ torn ≤ 1 ∧
        (torn = 1 ↔ ¬ receiverFormat.AtBoundary RecvRecord.toFrame records n)) := by
  constructor
  · intro log calls hsize hdone
    have hfits : ∀ record ∈ calls.map Prod.fst,
        remoteFormat.Fits record.toFrame := by
      intro record hrecord
      obtain ⟨call, hcall, rfl⟩ := List.mem_map.mp hrecord
      have hbody := hsize call hcall
      exact LogRecord.fits call.1 (by omega)
    obtain ⟨whole, tail, hwhole, htake, htail⟩ := FrameFormat.take_encodeAll hfits n
    have hfile : RemoteFile ((log.appendAll calls).take n) whole tail := by
      rw [RemoteLog.appendAll_eq hdone, appendedRecords_eq hsize]
      refine ⟨htake, ?_, htail⟩
      intro frame hframe
      obtain ⟨record, hrecord, rfl⟩ := List.mem_map.mp hframe
      exact hfits record (hwhole.isPrefix.subset hrecord)
    refine ⟨whole, _, hwhole, hfile.scan_eq, remoteScanOf_ofRecords whole _, ?_, ?_⟩
    · rw [RemoteLogScan.ofRecords]
      dsimp only
      split <;> decide
    · rw [hwhole.atBoundary_iff htake]
      simp [RemoteLogScan.ofRecords]
  · intro log batches hsize hdone records
    have hfits : ∀ record ∈ records, receiverFormat.Fits record.toFrame := by
      intro record hrecord
      obtain ⟨pending, hpending, rfl⟩ := List.mem_map.mp hrecord
      obtain ⟨call, hcall, hmem⟩ := List.mem_flatMap.mp hpending
      exact RecvRecord.fits (hsize call hcall pending hmem)
    obtain ⟨whole, tail, hwhole, htake, htail⟩ := FrameFormat.take_encodeAll hfits n
    have hfile : ReceiverFile ((log.commitAll batches).take n) whole tail := by
      rw [ReceiverLog.commitAll_eq hdone]
      refine ⟨htake, ?_, htail⟩
      intro frame hframe
      obtain ⟨record, hrecord, rfl⟩ := List.mem_map.mp hframe
      exact hfits record (hwhole.isPrefix.subset hrecord)
    refine ⟨whole, _, _, hwhole, hfile.scan_eq, ?_, ?_, ?_⟩
    · intro key
      exact lookup_foldl_indexRecord rfl whole
    · split <;> decide
    · rw [hwhole.atBoundary_iff htake]
      simp

/-- A data record and its ack of 23 and 21 bytes, cut within the ack. -/
theorem scans_wholePrefix_cutAck :
    (∃ whole scan,
      remoteFormat.WholePrefix LogRecord.toFrame [⟨1, 7, [5, 6]⟩,
        ⟨2, 7, []⟩] 30 whole ∧
      scanRemoteLog ((RemoteLog.appendAll ⟨true, ∅⟩
        [(⟨1, 7, [5, 6]⟩, ⟨[.wrote 3], .ok⟩), (⟨2, 7, []⟩, ⟨[], .ok⟩)]).take 30) =
          some scan ∧
      RemoteScanOf whole scan ∧ scan.torn ≤ 1 ∧
      (scan.torn = 1 ↔ ¬ remoteFormat.AtBoundary LogRecord.toFrame
        [⟨1, 7, [5, 6]⟩, ⟨2, 7, []⟩] 30)) ∧
    (∃ whole index torn,
      receiverFormat.WholePrefix RecvRecord.toFrame [⟨1, 3, 7, [5]⟩] 30 whole ∧
      scanExisting ((ReceiverLog.commitAll ⟨true, 0, ∅, [], false, 0, 0⟩
        [([⟨1, 3, 7, 0, [5]⟩], ⟨[], .ok⟩)]).take 30) = some (index, torn) ∧
      (∀ key, index.lookup key = scannedEntry key whole) ∧ torn ≤ 1 ∧
      (torn = 1 ↔
        ¬ receiverFormat.AtBoundary RecvRecord.toFrame [⟨1, 3, 7, [5]⟩] 30)) :=
  ⟨(scans_wholePrefix 30).1 ⟨true, ∅⟩
      [(⟨1, 7, [5, 6]⟩, ⟨[.wrote 3], .ok⟩), (⟨2, 7, []⟩, ⟨[], .ok⟩)]
      (by decide) (by decide),
    (scans_wholePrefix 30).2 ⟨true, 0, ∅, [], false, 0, 0⟩
      [([⟨1, 3, 7, 0, [5]⟩], ⟨[], .ok⟩)] (by decide) (by decide)⟩

end UltraNet
