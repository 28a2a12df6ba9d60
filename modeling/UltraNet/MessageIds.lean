/-
Message ids over process lifetimes.  Each lifetime counts its ids from 1,
loads the ids of the data records in the file, and then sends through the
track hook, replays frames that a scan of the file returned, and processes
acks for frames that the receiver handled.  No write is torn: an append
writes its whole record or nothing.
-/
import UltraNet.GuardedRun
import UltraNet.RemoteLog
import UltraNet.Serialization
import UltraNet.Unacked

namespace UltraNet

/-- The file, the sender of the current lifetime, and four ghosts: the ids
handed out in this lifetime, every frame that was ever accepted, the accepted
frames that still wait for an ack of their own, and those of them that were
accepted in this lifetime. -/
structure IdRuns where
  file : List UInt8
  log : RemoteLog
  nextMsgId : UInt64
  unacked : Unacked
  scanned : List (List UInt8)
  issued : List UInt64
  accepted : List (List UInt8)
  waiting : List (List UInt8)
  live : List (List UInt8)

inductive IdOp where
  | restart
  | allocMsgId
  | track (node : UInt64) (message : Routed) (written : Bool)
  | scan
  | postOriginalFrame (frame : List UInt8) (posted : Option UInt64)
  | noteAck (frame : List UInt8) (written : Bool)

namespace IdRuns

def init : IdRuns := ⟨[], ⟨true, ∅⟩, 1, ∅, [], [], [], [], []⟩

/-- The frame was accepted under its id. -/
def accept (s : IdRuns) (node msgId : UInt64) (frame : List UInt8) : IdRuns :=
  { s with
    unacked := s.unacked.trackUnacked node msgId frame
    accepted := frame :: s.accepted
    waiting := frame :: s.waiting
    live := frame :: s.live }

/-- The track hook of `bind_proxy_hooks`. -/
def track (s : IdRuns) (node msgId : UInt64) (frame : List UInt8)
    (io : IoScript) : IdRuns :=
  let (bytes, log, outcome) := s.log.appendData msgId frame io
  let appended := { s with file := s.file ++ bytes, log := log }
  if outcome = .returned true then appended.accept node msgId frame
  else appended

/-- `note_ack` for the ack of a frame. -/
def noteAck (s : IdRuns) (frame : List UInt8) (io : IoScript) : IdRuns :=
  let msgId := frameMsgId frame
  let (bytes, outcome) := s.log.appendAck msgId io
  let appended := { s with file := s.file ++ bytes }
  if outcome = .returned true then
    { appended with
      unacked := s.unacked.forget msgId
      waiting := s.waiting.filter (· ≠ frame)
      live := s.live.filter (· ≠ frame) }
  else appended

def step (s : IdRuns) : IdOp → Option IdRuns
  | .restart =>
      (RemoteLog.construct s.file true).map fun log =>
        { s with
          log := log
          nextMsgId := 1
          unacked := ∅
          scanned := []
          issued := []
          live := [] }
  | .allocMsgId =>
      some { s with
        nextMsgId := s.nextMsgId + 1
        issued := s.nextMsgId :: s.issued }
  | .track node message written =>
      -- `try_deliver` may be repeated with the same id.
      if message.msgId ∈ s.issued then
        some (s.track node message.msgId (packRouted message)
          (wholeOrNothing written))
      else none
  | .scan =>
      (scanRemoteLog s.file).map fun found =>
        { s with scanned := found.unackedFrames }
  | .postOriginalFrame frame posted =>
      if frame ∈ s.scanned then
        match unpackRouted frame, posted with
        | some message, some node =>
            some (s.accept node message.msgId frame)
        | _, _ => some s
      else none
  | .noteAck frame written =>
      -- The receiver acks only what it was sent.
      if frame ∈ s.accepted then
        some (s.noteAck frame (wholeOrNothing written))
      else none

/-- Every accepted frame is in `m_unacked` until its lifetime ends and in the
scan of the file, in both cases until an ack of that very frame. -/
def Distinct (s : IdRuns) : Prop :=
  (∀ frame ∈ s.live, ∃ msgId item, s.unacked.lookup msgId = some item ∧
    item.frame = frame) ∧
  ∀ frame ∈ s.waiting, ∃ found, scanRemoteLog s.file = some found ∧
    frame ∈ found.unackedFrames

end IdRuns

def idMachine : Machine IdRuns IdOp where
  start := .init
  step := IdRuns.step

def remoteRecords (bytes : List UInt8) : List LogRecord :=
  ((remoteFormat.scan bytes).map (·.1.map LogRecord.ofFrame)).getD []

/-- Whatever the file holds under the id is a data record of this frame. -/
def OwnsId (bytes : List UInt8) (msgId : UInt64) (frame : List UInt8) : Prop :=
  ∀ record ∈ remoteRecords bytes, record.msgId = msgId →
    record = ⟨1, msgId, frame⟩

instance (bytes : List UInt8) (msgId : UInt64) (frame : List UInt8) :
    Decidable (OwnsId bytes msgId frame) :=
  inferInstanceAs (Decidable (∀ _ ∈ _, _))

/-- The condition on a send that the hook accepts and on a replay that is
posted: the id belongs to the frame in the file.  The record of a send must
not wrap its 32-bit size. -/
def KeepsIds (s : IdRuns) : IdOp → Prop
  | .track _ message written =>
      written = true ∨ message.msgId ∈ s.log.dataIds →
        (packRouted message).length + 21 < 2 ^ 32 ∧
          OwnsId s.file message.msgId (packRouted message)
  | .postOriginalFrame frame posted =>
      posted ≠ none → OwnsId s.file (frameMsgId frame) frame
  | _ => True

instance (s : IdRuns) (op : IdOp) : Decidable (KeepsIds s op) := by
  unfold KeepsIds
  split <;> infer_instance

/-- The records of the file account for the logged ids and for every accepted
frame, and no id has two frames. -/
structure IdInv (s : IdRuns) (records : List LogRecord) : Prop where
  file : RemoteFile s.file records []
  opened : s.log.opened = true
  loaded : ∀ msgId, msgId ∈ s.log.dataIds ↔
    ∃ record ∈ records, record.type = 1 ∧ record.msgId = msgId
  own : ∀ record ∈ records, record.type = 1 →
    frameMsgId record.body = record.msgId
  same : ∀ first ∈ records, ∀ second ∈ records, first.type = 1 →
    second.type = 1 → first.msgId = second.msgId → first = second
  accepted : ∀ frame ∈ s.accepted, ⟨1, frameMsgId frame, frame⟩ ∈ records
  scanned : ∀ frame ∈ s.scanned, ⟨1, frameMsgId frame, frame⟩ ∈ records
  waiting : ∀ frame ∈ s.waiting, frame ∈ s.accepted ∧
    ∀ record ∈ records, record.msgId = frameMsgId frame → record.type ≠ 2
  live : ∀ frame ∈ s.live, frame ∈ s.waiting ∧
    ∃ item, s.unacked.lookup (frameMsgId frame) = some item ∧
      item.frame = frame

namespace IdInv

variable {s : IdRuns} {records : List LogRecord}

theorem distinct (hinv : IdInv s records) : s.Distinct := by
  refine ⟨fun frame hlive => ?_, fun frame hwaiting => ?_⟩
  · obtain ⟨-, item, hlookup, hframe⟩ := hinv.live frame hlive
    exact ⟨_, item, hlookup, hframe⟩
  · obtain ⟨haccepted, hacked⟩ := hinv.waiting frame hwaiting
    refine ⟨_, hinv.file.scan_eq, ?_⟩
    simp only [RemoteLogScan.ofRecords, List.mem_map, List.mem_filter,
      decide_eq_true_eq]
    refine ⟨_, ⟨hinv.accepted frame haccepted, rfl, ?_⟩, rfl⟩
    simp only [ackedIds, List.mem_map, List.mem_filter, decide_eq_true_eq,
      not_exists, not_and]
    rintro record ⟨hrecord, htype⟩ hid
    exact hacked record hrecord hid htype

theorem remoteRecords_eq (hinv : IdInv s records) :
    remoteRecords s.file = records := by
  rw [remoteRecords, FrameFormat.IsLog.scan_eq hinv.file, Option.map_some,
    Option.getD_some, List.map_map]
  simp [Function.comp_def]

/-- Acceptance of a frame whose data record is in the file and whose id is
not acked there. -/
theorem accept (hinv : IdInv s records) (node : UInt64) (frame : List UInt8)
    (hrecord : ⟨1, frameMsgId frame, frame⟩ ∈ records)
    (hown : ∀ record ∈ records, record.msgId = frameMsgId frame →
      record = ⟨1, frameMsgId frame, frame⟩) :
    IdInv (s.accept node (frameMsgId frame) frame) records := by
  have hfree : ∀ record ∈ records, record.msgId = frameMsgId frame →
      record.type ≠ 2 := by
    intro record hmem hid
    rw [hown record hmem hid]
    exact (by decide : (1 : UInt8) ≠ 2)
  refine { hinv with accepted := ?_, waiting := ?_, live := ?_ }
  · intro other hother
    rcases List.mem_cons.mp hother with rfl | hold
    · exact hrecord
    · exact hinv.accepted other hold
  · intro other hother
    rcases List.mem_cons.mp hother with rfl | hold
    · exact ⟨List.mem_cons_self .., hfree⟩
    · exact ⟨List.mem_cons_of_mem _ (hinv.waiting other hold).1,
        (hinv.waiting other hold).2⟩
  · intro other hother
    simp only [IdRuns.accept, Unacked.trackUnacked, Table.lookup_insert]
    rcases List.mem_cons.mp hother with rfl | hold
    · exact ⟨List.mem_cons_self .., ⟨other, node, false⟩, by simp, rfl⟩
    · obtain ⟨hwaiting, item, hlookup, hframe⟩ := hinv.live other hold
      refine ⟨List.mem_cons_of_mem _ hwaiting, ?_⟩
      by_cases hid : frameMsgId other = frameMsgId frame
      · have hsame := hown _ (hinv.accepted other
            (hinv.waiting other hwaiting).1) hid
        simp only [LogRecord.mk.injEq] at hsame
        exact ⟨⟨frame, node, false⟩, by simp [hid], hsame.2.2.symm⟩
      · exact ⟨item, by simp [hid, hlookup], hframe⟩

/-- A data record of a new id is added to the file. -/
theorem append_data (hinv : IdInv s records) {frame bytes : List UInt8}
    (hfile : RemoteFile (s.file ++ bytes)
      (records ++ [⟨1, frameMsgId frame, frame⟩]) [])
    (hnew : ∀ record ∈ records, record.msgId ≠ frameMsgId frame) :
    IdInv { s with
        file := s.file ++ bytes
        log := { s.log with dataIds := insert (frameMsgId frame) s.log.dataIds } }
      (records ++ [⟨1, frameMsgId frame, frame⟩]) := by
  have hlast : ∀ {record}, record ∈ records ++ [⟨1, frameMsgId frame, frame⟩] →
      record ∈ records ∨ record = ⟨1, frameMsgId frame, frame⟩ := by
    intro record hmem
    simpa using List.mem_append.mp hmem
  constructor
  case file => exact hfile
  case opened => exact hinv.opened
  case loaded =>
    intro msgId
    constructor
    · intro hmem
      rcases Finset.mem_insert.mp hmem with rfl | hold
      · exact ⟨_, List.mem_append_right _ (List.mem_singleton_self _), rfl, rfl⟩
      · obtain ⟨record, hrecord, htype, hid⟩ := (hinv.loaded msgId).mp hold
        exact ⟨record, List.mem_append_left _ hrecord, htype, hid⟩
    · rintro ⟨record, hrecord, htype, hid⟩
      rcases hlast hrecord with hold | rfl
      · exact Finset.mem_insert_of_mem
          ((hinv.loaded msgId).mpr ⟨record, hold, htype, hid⟩)
      · exact Finset.mem_insert.mpr (Or.inl hid.symm)
  case own =>
    intro record hrecord htype
    rcases hlast hrecord with hold | rfl
    · exact hinv.own record hold htype
    · rfl
  case same =>
    intro first hfirst second hsecond hfirstType hsecondType hid
    rcases hlast hfirst with hfirst | rfl
    · rcases hlast hsecond with hsecond | rfl
      · exact hinv.same first hfirst second hsecond hfirstType hsecondType hid
      · exact absurd hid (hnew first hfirst)
    · rcases hlast hsecond with hsecond | rfl
      · exact absurd hid.symm (hnew second hsecond)
      · rfl
  case accepted =>
    exact fun other hother => List.mem_append_left _ (hinv.accepted other hother)
  case scanned =>
    exact fun other hother => List.mem_append_left _ (hinv.scanned other hother)
  case waiting =>
    intro other hother
    obtain ⟨haccepted, hnone⟩ := hinv.waiting other hother
    refine ⟨haccepted, fun record hrecord hid => ?_⟩
    rcases hlast hrecord with hold | rfl
    · exact hnone record hold hid
    · exact (by decide : (1 : UInt8) ≠ 2)
  case live => exact hinv.live

/-- An ack record is added to the file for a frame that was accepted. -/
theorem append_ack (hinv : IdInv s records) {frame bytes : List UInt8}
    (hfile : RemoteFile (s.file ++ bytes)
      (records ++ [⟨2, frameMsgId frame, []⟩]) [])
    (hframe : frame ∈ s.accepted) :
    IdInv { s with
        file := s.file ++ bytes
        unacked := s.unacked.forget (frameMsgId frame)
        waiting := s.waiting.filter (· ≠ frame)
        live := s.live.filter (· ≠ frame) }
      (records ++ [⟨2, frameMsgId frame, []⟩]) := by
  have hother : ∀ other ∈ s.accepted, other ≠ frame →
      frameMsgId other ≠ frameMsgId frame := by
    intro other haccepted hne hid
    have hsame := hinv.same _ (hinv.accepted other haccepted) _
      (hinv.accepted frame hframe) rfl rfl hid
    simp only [LogRecord.mk.injEq] at hsame
    exact hne hsame.2.2
  have hlast : ∀ {record}, record ∈ records ++ [⟨2, frameMsgId frame, []⟩] →
      record ∈ records ∨ record = ⟨2, frameMsgId frame, []⟩ := by
    intro record hmem
    simpa using List.mem_append.mp hmem
  have hdata : ∀ {record}, record ∈ records ++ [⟨2, frameMsgId frame, []⟩] →
      record.type = 1 → record ∈ records := by
    intro record hmem htype
    refine (hlast hmem).resolve_right ?_
    rintro rfl
    exact absurd htype (by decide : (2 : UInt8) ≠ 1)
  constructor
  case file => exact hfile
  case opened => exact hinv.opened
  case loaded =>
    intro msgId
    rw [hinv.loaded msgId]
    constructor
    · rintro ⟨record, hrecord, htype, hid⟩
      exact ⟨record, List.mem_append_left _ hrecord, htype, hid⟩
    · rintro ⟨record, hrecord, htype, hid⟩
      exact ⟨record, hdata hrecord htype, htype, hid⟩
  case own =>
    exact fun record hrecord htype => hinv.own record (hdata hrecord htype) htype
  case same =>
    exact fun first hfirst second hsecond hfirstType hsecondType =>
      hinv.same first (hdata hfirst hfirstType) second (hdata hsecond hsecondType)
        hfirstType hsecondType
  case accepted =>
    exact fun other hmem => List.mem_append_left _ (hinv.accepted other hmem)
  case scanned =>
    exact fun other hmem => List.mem_append_left _ (hinv.scanned other hmem)
  case waiting =>
    intro other hmem
    obtain ⟨hwaits, hne⟩ := List.mem_filter.mp hmem
    obtain ⟨haccepted, hnone⟩ := hinv.waiting other hwaits
    refine ⟨haccepted, fun record hrecord hid => ?_⟩
    rcases hlast hrecord with hold | rfl
    · exact hnone record hold hid
    · exact absurd hid.symm (hother other haccepted (of_decide_eq_true hne))
  case live =>
    intro other hmem
    obtain ⟨hlives, hne⟩ := List.mem_filter.mp hmem
    obtain ⟨hwaits, item, hlookup, hitem⟩ := hinv.live other hlives
    have hid := hother other (hinv.waiting other hwaits).1 (of_decide_eq_true hne)
    refine ⟨List.mem_filter.mpr ⟨hwaits, hne⟩, item, ?_, hitem⟩
    rw [Unacked.forget, Table.lookup_erase, if_neg hid, hlookup]

theorem track (hinv : IdInv s records) (node : UInt64) (message : Routed)
    (written : Bool)
    (hguard : KeepsIds s (.track node message written)) :
    ∃ records, IdInv (s.track node message.msgId (packRouted message)
      (wholeOrNothing written)) records := by
  have hid := frameMsgId_packRouted message
  have hrecords := hinv.remoteRecords_eq
  unfold IdRuns.track RemoteLog.appendData
  by_cases hknown : message.msgId ∈ s.log.dataIds
  · obtain ⟨-, howns⟩ := hguard (Or.inr hknown)
    rw [OwnsId, hrecords, ← hid] at howns
    obtain ⟨record, hmem, htype, hrecord⟩ := (hinv.loaded _).mp hknown
    rw [← hid] at hrecord
    have hdata := howns record hmem hrecord ▸ hmem
    have haccept := hinv.accept node _ hdata howns
    rw [hid] at haccept
    simpa [hknown] using ⟨records, haccept⟩
  · have hencode : remoteFormat.encode (appendedRecord 1 message.msgId
        (packRouted message)).toFrame ≠ [] := by
      simp [FrameFormat.encode, remoteFormat]
    cases written with
    | false =>
        refine ⟨records, ?_⟩
        simpa [hknown, appendRecordLocked, hinv.opened,
          writeAndSync_wholeOrNothing _ hencode] using hinv
    | true =>
        obtain ⟨hlength, howns⟩ := hguard (Or.inl rfl)
        rw [OwnsId, hrecords, ← hid] at howns
        have hnew : ∀ record ∈ records,
            record.msgId ≠ frameMsgId (packRouted message) := by
          intro record hmem hrecord
          refine hknown ((hinv.loaded _).mpr ⟨record, hmem, ?_, hrecord.trans hid⟩)
          rw [howns record hmem hrecord]
        rcases hinv.file.append s.log 1 message.msgId (packRouted message)
          (wholeOrNothing true) hlength with ⟨tail, hfile, hfailed⟩ | ⟨hfile, -⟩
        · simp [appendRecordLocked, hinv.opened,
            writeAndSync_wholeOrNothing _ hencode] at hfailed
        · have happend := hinv.append_data (hid.symm ▸ hfile) hnew
          have haccept := happend.accept node (packRouted message)
            (by simp) (by grind)
          rw [hid] at haccept
          refine ⟨records ++ [⟨1, message.msgId, packRouted message⟩], ?_⟩
          simpa [hknown, appendRecordLocked, hinv.opened,
            writeAndSync_wholeOrNothing _ hencode] using haccept

theorem noteAck (hinv : IdInv s records) {frame : List UInt8}
    (hframe : frame ∈ s.accepted) (written : Bool) :
    ∃ records, IdInv (s.noteAck frame (wholeOrNothing written)) records := by
  have hencode : remoteFormat.encode
      (appendedRecord 2 (frameMsgId frame) []).toFrame ≠ [] := by
    simp [FrameFormat.encode, remoteFormat]
  unfold IdRuns.noteAck RemoteLog.appendAck
  cases written with
  | false =>
      refine ⟨records, ?_⟩
      simpa [appendRecordLocked, hinv.opened,
        writeAndSync_wholeOrNothing _ hencode] using hinv
  | true =>
      rcases hinv.file.append s.log 2 (frameMsgId frame) []
        (wholeOrNothing true) (by simp) with ⟨tail, hfile, hfailed⟩ | ⟨hfile, -⟩
      · simp [appendRecordLocked, hinv.opened,
          writeAndSync_wholeOrNothing _ hencode] at hfailed
      · refine ⟨records ++ [⟨2, frameMsgId frame, []⟩], ?_⟩
        simpa [appendRecordLocked, hinv.opened,
          writeAndSync_wholeOrNothing _ hencode] using
            hinv.append_ack hfile hframe

/-- A new lifetime loads the ids of the data records. -/
theorem restart (hinv : IdInv s records) {next : IdRuns}
    (hstep : s.step .restart = some next) : IdInv next records := by
  simp only [IdRuns.step, hinv.file.construct_eq, Option.map_some,
    Option.some.injEq] at hstep
  subst hstep
  refine { hinv with opened := rfl, loaded := ?_, scanned := ?_, live := ?_ }
  · intro msgId
    simp only [List.mem_toFinset, List.mem_map, List.mem_filter,
      decide_eq_true_eq, and_assoc]
  · simp
  · simp

theorem scan (hinv : IdInv s records) {next : IdRuns}
    (hstep : s.step .scan = some next) : IdInv next records := by
  simp only [IdRuns.step, hinv.file.scan_eq, Option.map_some,
    Option.some.injEq] at hstep
  subst hstep
  refine { hinv with scanned := ?_ }
  intro frame hframe
  simp only [RemoteLogScan.ofRecords, List.mem_map, List.mem_filter,
    decide_eq_true_eq] at hframe
  obtain ⟨⟨type, msgId, body⟩, ⟨hrecord, htype, -⟩, rfl⟩ := hframe
  have hid := hinv.own _ hrecord htype
  simp only at htype hid
  subst htype
  rw [hid]
  exact hrecord

end IdInv

theorem idInv_step (s : IdRuns) (op : IdOp) (next : IdRuns)
    (hinv : ∃ records, IdInv s records) (hguard : KeepsIds s op)
    (hstep : s.step op = some next) : ∃ records, IdInv next records := by
  obtain ⟨records, hinv⟩ := hinv
  cases op with
  | restart => exact ⟨records, hinv.restart hstep⟩
  | scan => exact ⟨records, hinv.scan hstep⟩
  | allocMsgId =>
      simp only [IdRuns.step, Option.some.injEq] at hstep
      subst hstep
      exact ⟨records, { hinv with }⟩
  | track node message written =>
      simp only [IdRuns.step] at hstep
      split at hstep
      · simp only [Option.some.injEq] at hstep
        subst hstep
        exact hinv.track node message written hguard
      · simp at hstep
  | postOriginalFrame frame posted =>
      simp only [IdRuns.step] at hstep
      split at hstep
      · rename_i hscanned
        split at hstep
        · rename_i message node hunpack
          simp only [Option.some.injEq] at hstep
          subst hstep
          have howns := hguard (by simp)
          rw [OwnsId, hinv.remoteRecords_eq] at howns
          rw [(unpackRouted_ids hunpack).1]
          exact ⟨records, hinv.accept node frame (hinv.scanned frame hscanned) howns⟩
        · simp only [Option.some.injEq] at hstep
          exact ⟨records, hstep ▸ hinv⟩
      · simp at hstep
  | noteAck frame written =>
      simp only [IdRuns.step] at hstep
      split at hstep
      · rename_i hframe
        simp only [Option.some.injEq] at hstep
        subst hstep
        exact hinv.noteAck hframe written
      · simp at hstep

/-- In every run over any number of lifetimes in which no frame is accepted
under an id that the file has for another frame, frames are never confused. -/
theorem idRuns_distinct (word : List IdOp) (last : IdRuns)
    (hmeets : idMachine.Meets KeepsIds word)
    (hrun : idMachine.run word = some last) : last.Distinct := by
  have hstart : ∃ records, IdInv idMachine.start records := by
    refine ⟨[], remoteFile_nil, rfl, ?_, ?_, ?_, ?_, ?_, ?_, ?_⟩ <;>
      simp [idMachine, IdRuns.init]
  obtain ⟨records, hinv⟩ := idMachine.run_invariant
    (I := fun s => ∃ records, IdInv s records) hstart idInv_step word hmeets hrun
  exact hinv.distinct

def sampleMessage (msgId : UInt64) (payload : List UInt8) : Routed :=
  ⟨⟨[0x32], [0x61], [0x62]⟩, 0, msgId, 1, 77, payload⟩

/-- Id 1 is sent and stays unacked; the next lifetime takes ids 1 and 2, sends
only under 2, and replays the frame of the first lifetime. -/
def replayedLifetime : List IdOp :=
  [.allocMsgId, .track 2 (sampleMessage 1 [7]) true, .restart, .scan,
    .allocMsgId, .allocMsgId, .track 2 (sampleMessage 2 [8]) true,
    .postOriginalFrame (packRouted (sampleMessage 1 [7])) (some 2),
    .noteAck (packRouted (sampleMessage 2 [8])) true]

set_option maxRecDepth 100000 in
theorem idRuns_distinct_replayedLifetime :
    idMachine.Meets KeepsIds replayedLifetime ∧
      ∃ last, idMachine.run replayedLifetime = some last ∧
        last.live = [packRouted (sampleMessage 1 [7])] ∧ last.Distinct := by
  have hmeets : idMachine.Meets KeepsIds replayedLifetime := by decide
  have hvalue : (idMachine.run replayedLifetime).map (·.live) =
      some [packRouted (sampleMessage 1 [7])] := by
    decide
  obtain ⟨last, hlast, hlive⟩ := Option.map_eq_some_iff.mp hvalue
  exact ⟨hmeets, last, hlast, hlive, idRuns_distinct _ last hmeets hlast⟩

/-- Both lifetimes send under id 1. -/
def reusedId : List IdOp :=
  [.allocMsgId, .track 2 (sampleMessage 1 [7]) true, .restart,
    .allocMsgId, .track 2 (sampleMessage 1 [8]) true]

set_option maxRecDepth 100000 in
theorem idRuns_reused_id_not_logged :
    ∃ last, idMachine.run reusedId = some last ∧ ¬ last.Distinct := by
  have hvalue : (idMachine.run reusedId).map (fun s =>
      (s.waiting, scanRemoteLog s.file)) =
        some ([packRouted (sampleMessage 1 [8]),
          packRouted (sampleMessage 1 [7])],
            some ⟨1, 0, [packRouted (sampleMessage 1 [7])]⟩) := by
    decide
  obtain ⟨last, hlast, heq⟩ := Option.map_eq_some_iff.mp hvalue
  simp only [Prod.mk.injEq] at heq
  obtain ⟨hwaiting, hscan⟩ := heq
  refine ⟨last, hlast, fun hdistinct => ?_⟩
  obtain ⟨found, hfound, hframe⟩ :=
    hdistinct.2 (packRouted (sampleMessage 1 [8])) (by simp [hwaiting])
  rw [hscan, Option.some.injEq] at hfound
  subst hfound
  revert hframe
  decide

end UltraNet
