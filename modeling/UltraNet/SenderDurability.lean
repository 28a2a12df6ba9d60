/-
Runs of `remote_log` sessions over one file.  A session is constructed from
the bytes that are there, appends records whose writes may be cut short, and
may be killed inside any call; then another session follows.
-/
import UltraNet.RemoteLog

namespace UltraNet

/-- The file, the running session, and three ghosts: the appends that
returned true for an id that was new, the ids any append was called with, and
the ids whose `append_ack` returned true. -/
structure SenderLogs where
  file : List UInt8
  session : Option RemoteLog
  promised : List (UInt64 × List UInt8)
  used : List UInt64
  acked : List UInt64
deriving DecidableEq

inductive SenderLogOp where
  | construct (opened : Bool)
  | appendData (msgId : UInt64) (body : List UInt8) (io : IoScript)
  | appendAck (msgId : UInt64) (io : IoScript)

namespace SenderLogs

def init : SenderLogs := ⟨[], none, [], [], []⟩

def step (s : SenderLogs) : SenderLogOp → Option SenderLogs
  | .construct opened =>
      (RemoteLog.construct s.file opened).map fun log =>
        { s with session := some log }
  | .appendData msgId body io =>
      s.session.map fun log =>
        let (written, after, outcome) := log.appendData msgId body io
        { s with
          file := s.file ++ written
          session := if outcome = .killed then none else some after
          used := msgId :: s.used
          promised :=
            if outcome = .returned true ∧ msgId ∉ s.used then
              (msgId, body) :: s.promised
            else s.promised }
  | .appendAck msgId io =>
      s.session.map fun log =>
        let (written, outcome) := log.appendAck msgId io
        { s with
          file := s.file ++ written
          session := if outcome = .killed then none else some log
          used := msgId :: s.used
          acked :=
            if outcome = .returned true then msgId :: s.acked else s.acked }

end SenderLogs

def senderLogMachine : Machine SenderLogs SenderLogOp where
  start := .init
  step := SenderLogs.step

/-- Every promised body that is not acked is in what a scan of the file
returns. -/
def SenderLogs.Durable (s : SenderLogs) : Prop :=
  ∀ msgId body, (msgId, body) ∈ s.promised → msgId ∉ s.acked →
    ∃ found, scanRemoteLog s.file = some found ∧ body ∈ found.unackedFrames

/-- The file ends with a whole record. -/
def NotTorn (bytes : List UInt8) : Prop :=
  (scanRemoteLog bytes).map (·.torn) = some 0

instance (bytes : List UInt8) : Decidable (NotTorn bytes) :=
  inferInstanceAs (Decidable (_ = _))

/-- The condition on an append that reaches `::write`: the file is not torn,
the record length does not wrap in 32 bits, and an ack record that is written
to its end is also synced. -/
def CleanAppend (s : SenderLogs) : SenderLogOp → Prop
  | .construct _ => True
  | .appendData msgId body _ =>
      ∀ log ∈ s.session, log.opened = true → msgId ∉ log.dataIds →
        NotTorn s.file ∧ body.length + 21 < 2 ^ 32
  | .appendAck msgId io =>
      ∀ log ∈ s.session, log.opened = true →
        NotTorn s.file ∧
          ((writeLoop remoteWritePolicy (remoteFormat.encode
            (appendedRecord 2 msgId []).toFrame) io.writes).2 =
              .returned true → io.sync = .ok)

instance (s : SenderLogs) (op : SenderLogOp) : Decidable (CleanAppend s op) := by
  unfold CleanAppend
  split <;> infer_instance

/-- The records of the file account for every promise, every ack record for
an ack that returned true, and every data record for a used id. -/
structure SenderLogsInv (s : SenderLogs) (records : List LogRecord)
    (tail : List UInt8) : Prop where
  file : RemoteFile s.file records tail
  promised : ∀ msgId body, (msgId, body) ∈ s.promised →
    ⟨1, msgId, body⟩ ∈ records
  acked : ∀ record ∈ records, record.type = 2 → record.msgId ∈ s.acked
  used : ∀ record ∈ records, record.type = 1 → record.msgId ∈ s.used
  loaded : ∀ log ∈ s.session, ∀ msgId ∈ log.dataIds, msgId ∈ s.used

namespace SenderLogsInv

variable {s : SenderLogs} {records : List LogRecord} {tail : List UInt8}

theorem durable (hinv : SenderLogsInv s records tail) : s.Durable := by
  intro msgId body hpromised hacked
  refine ⟨_, hinv.file.scan_eq, ?_⟩
  simp only [RemoteLogScan.ofRecords, List.mem_map, List.mem_filter,
    decide_eq_true_eq]
  refine ⟨⟨1, msgId, body⟩, ⟨hinv.promised msgId body hpromised, rfl, ?_⟩, rfl⟩
  intro hack
  simp only [ackedIds, List.mem_map, List.mem_filter, decide_eq_true_eq] at hack
  obtain ⟨record, ⟨hrecord, htype⟩, hid⟩ := hack
  exact hacked (hid ▸ hinv.acked record hrecord htype)

theorem construct (hinv : SenderLogsInv s records tail) {opened : Bool}
    {next : SenderLogs} (hstep : s.step (.construct opened) = some next) :
    SenderLogsInv next records tail := by
  simp only [SenderLogs.step, hinv.file.construct_eq, Option.map_some,
    Option.some.injEq] at hstep
  subst hstep
  refine { hinv with loaded := ?_ }
  intro log hlog msgId hmem
  simp only [Option.mem_def, Option.some.injEq] at hlog
  subst hlog
  simp only [List.mem_toFinset, List.mem_map, List.mem_filter,
    decide_eq_true_eq] at hmem
  obtain ⟨record, ⟨hrecord, htype⟩, rfl⟩ := hmem
  exact hinv.used record hrecord htype

/-- The ids that a session knows after an append are used. -/
theorem loaded_used (hinv : SenderLogsInv s records tail) {log after : RemoteLog}
    (hlog : s.session = some log) {msgId : UInt64}
    (hids : ∀ other ∈ after.dataIds, other = msgId ∨ other ∈ log.dataIds)
    {killed : Prop} [Decidable killed] :
    ∀ kept ∈ if killed then none else some after, ∀ other ∈ kept.dataIds,
      other ∈ msgId :: s.used := by
  intro kept hkept other hother
  split at hkept
  · cases hkept
  · obtain rfl := Option.some.inj hkept
    rcases hids other hother with rfl | hold
    · exact List.mem_cons_self ..
    · exact List.mem_cons_of_mem _ (hinv.loaded log hlog other hold)

/-- A data append that reaches `::write` on a file that is not torn. -/
theorem appendData (hinv : SenderLogsInv s records []) {log : RemoteLog}
    (hlog : s.session = some log) {msgId : UInt64} {body : List UInt8}
    {io : IoScript} (hnew : msgId ∉ log.dataIds)
    (hbody : body.length + 21 < 2 ^ 32) {next : SenderLogs}
    (hstep : s.step (.appendData msgId body io) = some next) :
    ∃ records tail, SenderLogsInv next records tail := by
  simp only [SenderLogs.step, hlog, Option.map_some, RemoteLog.appendData,
    hnew, if_false, Option.some.injEq] at hstep
  subst hstep
  rcases hinv.file.append log 1 msgId body io hbody with
    ⟨tail, hfile, hfailed⟩ | ⟨hfile, -⟩
  · refine ⟨records, tail, ?_⟩
    simp only [hfailed, false_and, if_false]
    exact
      { file := hfile
        promised := hinv.promised
        acked := hinv.acked
        used := fun record hrecord htype =>
          List.mem_cons_of_mem _ (hinv.used record hrecord htype)
        loaded := hinv.loaded_used hlog fun _ => Or.inr }
  · have hpromised : ∀ {fresh : Prop} [Decidable fresh], ∀ other reply,
        (other, reply) ∈ (if fresh then (msgId, body) :: s.promised
          else s.promised) →
        ⟨1, other, reply⟩ ∈ records ++ [⟨1, msgId, body⟩] := by
      intro fresh _ other reply hmem
      split at hmem
      · obtain heq | hold := List.mem_cons.mp hmem
        · obtain ⟨rfl, rfl⟩ := Prod.mk.inj heq
          exact List.mem_append_right _ (List.mem_singleton_self _)
        · exact List.mem_append_left _ (hinv.promised other reply hold)
      · exact List.mem_append_left _ (hinv.promised other reply hmem)
    have hacked : ∀ record ∈ records ++ [⟨1, msgId, body⟩], record.type = 2 →
        record.msgId ∈ s.acked := by
      intro record hrecord htype
      rcases List.mem_append.mp hrecord with hold | hnew
      · exact hinv.acked record hold htype
      · obtain rfl := List.mem_singleton.mp hnew
        exact absurd htype (by decide : (1 : UInt8) ≠ 2)
    have hused : ∀ record ∈ records ++ [⟨1, msgId, body⟩], record.type = 1 →
        record.msgId ∈ msgId :: s.used := by
      intro record hrecord htype
      rcases List.mem_append.mp hrecord with hold | hnew
      · exact List.mem_cons_of_mem _ (hinv.used record hold htype)
      · obtain rfl := List.mem_singleton.mp hnew
        exact List.mem_cons_self ..
    refine ⟨records ++ [⟨1, msgId, body⟩], [], ?_⟩
    -- the session knows the id if the append returned true
    split
    · exact
        { file := hfile
          promised := hpromised
          acked := hacked
          used := hused
          loaded := hinv.loaded_used hlog fun _ => Finset.mem_insert.mp }
    · exact
        { file := hfile
          promised := hpromised
          acked := hacked
          used := hused
          loaded := hinv.loaded_used hlog fun _ => Or.inr }

/-- A data append for an id the session knows returns at once. -/
theorem appendData_known (hinv : SenderLogsInv s records tail)
    {log : RemoteLog} (hlog : s.session = some log) {msgId : UInt64}
    {body : List UInt8} {io : IoScript} (hknown : msgId ∈ log.dataIds)
    {next : SenderLogs}
    (hstep : s.step (.appendData msgId body io) = some next) :
    SenderLogsInv next records tail := by
  have hused := hinv.loaded log hlog msgId hknown
  simp only [SenderLogs.step, hlog, Option.map_some, RemoteLog.appendData,
    hknown, if_true, hused, not_true_eq_false, and_false, if_false,
    List.append_nil, reduceCtorEq, Option.some.injEq] at hstep
  subst hstep
  refine
    { hinv with
      used := fun record hrecord htype =>
        List.mem_cons_of_mem _ (hinv.used record hrecord htype)
      loaded := fun after hafter other hother => ?_ }
  obtain rfl := Option.some.inj hafter
  exact List.mem_cons_of_mem _ (hinv.loaded log hlog other hother)

theorem appendAck (hinv : SenderLogsInv s records []) {log : RemoteLog}
    (hlog : s.session = some log) {msgId : UInt64} {io : IoScript}
    (hsync : (writeLoop remoteWritePolicy (remoteFormat.encode
      (appendedRecord 2 msgId []).toFrame) io.writes).2 = .returned true →
        io.sync = .ok)
    {next : SenderLogs} (hstep : s.step (.appendAck msgId io) = some next) :
    ∃ records tail, SenderLogsInv next records tail := by
  simp only [SenderLogs.step, hlog, Option.map_some, RemoteLog.appendAck,
    Option.some.injEq] at hstep
  subst hstep
  rcases hinv.file.append log 2 msgId [] io (by simp) with
    ⟨tail, hfile, hfailed⟩ | ⟨hfile, hopened, hwritten⟩
  · refine ⟨records, tail, ?_⟩
    simp only [hfailed, if_false]
    exact
      { file := hfile
        promised := hinv.promised
        acked := hinv.acked
        used := fun record hrecord htype =>
          List.mem_cons_of_mem _ (hinv.used record hrecord htype)
        loaded := hinv.loaded_used hlog fun _ => Or.inr }
  · have hdone : (appendRecordLocked log 2 msgId [] io).2 = .returned true := by
      simp only [appendRecordLocked, hopened, if_true]
      exact (writeAndSync_returned _ _ _).mpr ⟨hwritten, hsync hwritten⟩
    refine ⟨records ++ [⟨2, msgId, []⟩], [], ?_⟩
    simp only [hdone, if_true, reduceCtorEq, if_false]
    refine
      { file := hfile
        promised := fun other reply hmem =>
          List.mem_append_left _ (hinv.promised other reply hmem)
        acked := fun record hrecord htype => ?_
        used := fun record hrecord htype => ?_
        loaded := fun after hafter other hother => ?_ }
    · rcases List.mem_append.mp hrecord with hold | hnew
      · exact List.mem_cons_of_mem _ (hinv.acked record hold htype)
      · obtain rfl := List.mem_singleton.mp hnew
        exact List.mem_cons_self ..
    · rcases List.mem_append.mp hrecord with hold | hnew
      · exact List.mem_cons_of_mem _ (hinv.used record hold htype)
      · obtain rfl := List.mem_singleton.mp hnew
        exact absurd htype (by decide : (2 : UInt8) ≠ 1)
    · obtain rfl := Option.some.inj hafter
      exact List.mem_cons_of_mem _ (hinv.loaded log hlog other hother)

/-- An append that writes nothing only uses an id. -/
theorem unwritten (hinv : SenderLogsInv s records tail) {log : RemoteLog}
    (hlog : s.session = some log) (msgId : UInt64) :
    SenderLogsInv { s with used := msgId :: s.used, session := some log }
      records tail := by
  refine
    { hinv with
      used := fun record hrecord htype =>
        List.mem_cons_of_mem _ (hinv.used record hrecord htype)
      loaded := fun after hafter other hother => ?_ }
  obtain rfl := Option.some.inj hafter
  exact List.mem_cons_of_mem _ (hinv.loaded log hlog other hother)

end SenderLogsInv

theorem senderLogsInv_step (s : SenderLogs) (op : SenderLogOp)
    (next : SenderLogs) (hinv : ∃ records tail, SenderLogsInv s records tail)
    (hguard : CleanAppend s op) (hstep : s.step op = some next) :
    ∃ records tail, SenderLogsInv next records tail := by
  obtain ⟨records, tail, hinv⟩ := hinv
  cases op with
  | construct opened => exact ⟨records, tail, hinv.construct hstep⟩
  | appendData msgId body io =>
      cases hlog : s.session with
      | none => simp [SenderLogs.step, hlog] at hstep
      | some log =>
          by_cases hknown : msgId ∈ log.dataIds
          · exact ⟨records, tail, hinv.appendData_known hlog hknown hstep⟩
          · cases hopened : log.opened with
            | false =>
                refine ⟨records, tail, ?_⟩
                have hsame := hinv.unwritten hlog msgId
                simp only [SenderLogs.step, hlog, Option.map_some,
                  RemoteLog.appendData, hknown, if_false, appendRecordLocked,
                  hopened] at hstep
                simp at hstep
                exact hstep ▸ hsame
            | true =>
                obtain ⟨hclean, hbody⟩ := hguard log hlog hopened hknown
                obtain rfl := hinv.file.tail_eq_nil hclean
                exact hinv.appendData hlog hknown hbody hstep
  | appendAck msgId io =>
      cases hlog : s.session with
      | none => simp [SenderLogs.step, hlog] at hstep
      | some log =>
          cases hopened : log.opened with
          | false =>
              refine ⟨records, tail, ?_⟩
              have hsame := hinv.unwritten hlog msgId
              simp [SenderLogs.step, hlog, RemoteLog.appendAck,
                appendRecordLocked, hopened] at hstep
              exact hstep ▸ hsame
          | true =>
              obtain ⟨hclean, hsync⟩ := hguard log hlog hopened
              obtain rfl := hinv.file.tail_eq_nil hclean
              exact hinv.appendAck hlog hsync hstep

/-- In every run whose appends are clean, every promise stays in the scan of
the file until it is acked. -/
theorem senderLogs_durable (word : List SenderLogOp) (last : SenderLogs)
    (hmeets : senderLogMachine.Meets CleanAppend word)
    (hrun : senderLogMachine.run word = some last) : last.Durable := by
  have hstart : ∃ records tail, SenderLogsInv senderLogMachine.start records tail :=
    ⟨[], [], remoteFile_nil, by simp [senderLogMachine, SenderLogs.init],
      by simp, by simp, by simp [senderLogMachine, SenderLogs.init]⟩
  obtain ⟨records, tail, hinv⟩ := senderLogMachine.run_invariant
    (I := fun s => ∃ records tail, SenderLogsInv s records tail) hstart
    senderLogsInv_step word hmeets hrun
  exact hinv.durable

/-- Two lifetimes: short writes, an ack, a kill inside the last append. -/
def cutAtTheEnd : List SenderLogOp :=
  [.construct true, .appendData 1 [7] ⟨[.wrote 5, .wrote 0], .ok⟩,
    .appendData 2 [8] ⟨[], .ok⟩, .appendAck 2 ⟨[], .ok⟩,
    .appendData 3 [9] ⟨[.wrote 6, .killed], .ok⟩, .construct true]

theorem senderLogs_durable_cutAtTheEnd :
    senderLogMachine.Meets CleanAppend cutAtTheEnd ∧
      ∃ last, senderLogMachine.run cutAtTheEnd = some last ∧
        last.promised = [(2, [8]), (1, [7])] ∧ last.acked = [2] ∧
        last.Durable := by
  have hmeets : senderLogMachine.Meets CleanAppend cutAtTheEnd := by
    decide +kernel
  have hvalue : (senderLogMachine.run cutAtTheEnd).map
      (fun s => (s.promised, s.acked)) =
        some ([(2, [8]), (1, [7])], [2]) := by
    decide +kernel
  obtain ⟨last, hlast, heq⟩ := Option.map_eq_some_iff.mp hvalue
  simp only [Prod.mk.injEq] at heq
  exact ⟨hmeets, last, hlast, heq.1, heq.2,
    senderLogs_durable _ last hmeets hlast⟩

/-- One append fails after three bytes; the next one succeeds behind them. -/
def appendAfterTorn : List SenderLogOp :=
  [.construct true, .appendData 1 [7] ⟨[.wrote 3, .failed], .ok⟩,
    .appendData 2 [8] ⟨[], .ok⟩]

theorem senderLogs_append_after_torn_lost :
    ∃ last, senderLogMachine.run appendAfterTorn = some last ∧
      ¬ last.Durable := by
  have hvalue : (senderLogMachine.run appendAfterTorn).map
      (fun s => (s.promised, s.acked, scanRemoteLog s.file)) =
        some ([(2, [8])], [], some ⟨0, 1, []⟩) := by
    decide
  obtain ⟨last, hlast, heq⟩ := Option.map_eq_some_iff.mp hvalue
  simp only [Prod.mk.injEq] at heq
  obtain ⟨hpromised, hacked, hscan⟩ := heq
  refine ⟨last, hlast, fun hdurable => ?_⟩
  obtain ⟨found, hfound, hbody⟩ :=
    hdurable 2 [8] (by simp [hpromised]) (by simp [hacked])
  rw [hscan, Option.some.injEq] at hfound
  subst hfound
  simp at hbody

end UltraNet
