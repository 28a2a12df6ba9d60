/-
No message gets stuck on the sender.  An entry of `m_unacked` leaves the table
only by `note_ack`, and when no call is under way every entry is reposted by
the ack timeout, by a recovery that is alive, or by the next connection.
-/
import UltraNet.SenderDuty

namespace UltraNet

/-- Entries are lost only to `note_ack`, which records them. -/
def KeepsEntries (s next : SenderState) : Prop :=
  ∃ more, next.noted = more ++ s.noted ∧
    ∀ msgId ∈ s.unacked, msgId ∈ next.unacked ∨ msgId ∈ more

namespace KeepsEntries

variable {s next : SenderState}

theorem of_mem (hnoted : next.noted = s.noted)
    (hmem : ∀ msgId ∈ s.unacked, msgId ∈ next.unacked) : KeepsEntries s next :=
  ⟨[], by simpa using hnoted, fun msgId h => Or.inl (hmem msgId h)⟩

theorem of_eq (hnoted : next.noted = s.noted)
    (hunacked : next.unacked = s.unacked) : KeepsEntries s next :=
  of_mem hnoted (by simp [hunacked])

theorem trans {last : SenderState} (hfirst : KeepsEntries s next)
    (hsecond : KeepsEntries next last) : KeepsEntries s last := by
  obtain ⟨first, hnoted, hfirst⟩ := hfirst
  obtain ⟨second, hlast, hsecond⟩ := hsecond
  refine ⟨second ++ first, by rw [hlast, hnoted, List.append_assoc], ?_⟩
  intro msgId hmem
  rcases hfirst msgId hmem with hnext | hold
  · rcases hsecond msgId hnext with hlast | hnew
    · exact Or.inl hlast
    · exact Or.inr (List.mem_append_left _ hnew)
  · exact Or.inr (List.mem_append_right _ hold)

end KeepsEntries

namespace Unacked

theorem mem_modify (unacked : Unacked) (id : UInt64)
    (f : UnackedItem → UnackedItem) (msgId : UInt64) :
    msgId ∈ Table.modify unacked id f ↔ msgId ∈ unacked := by
  rw [Table.mem_iff_lookup, Table.mem_iff_lookup, Table.lookup_modify]
  split <;> simp [Option.map_eq_some_iff]

theorem mem_flagNode (unacked : Unacked) (node msgId : UInt64) :
    msgId ∈ unacked.flagNode node ↔ msgId ∈ unacked := by
  rw [Table.mem_iff_lookup, Table.mem_iff_lookup, flagNode,
    Table.lookup_mapVals]
  simp [Option.map_eq_some_iff]

theorem mem_trackUnacked {unacked : Unacked} {node id msgId : UInt64}
    {frame : List UInt8} (hmem : msgId ∈ unacked) :
    msgId ∈ unacked.trackUnacked node id frame := by
  rw [trackUnacked, AList.mem_insert]
  exact Or.inr hmem

end Unacked

namespace SenderState

variable {s next : SenderState}

theorem appendData_keeps {msgId : UInt64} {frame : List UInt8}
    {choice : SenderChoice} {ok : Bool}
    (happend : s.appendData msgId frame choice = some (ok, next)) :
    KeepsEntries s next := by
  rw [appendData_eq happend]
  exact .of_eq rfl rfl

theorem appendAck_keeps {msgId : UInt64} {choice : SenderChoice} {ok : Bool}
    (happend : s.appendAck msgId choice = some (ok, next)) :
    KeepsEntries s next := by
  rw [appendAck_eq happend]
  exact .of_eq rfl rfl

/-- The step lemma for the table of messages. -/
theorem exec_keeps {sec : SenderSection} {choice : SenderChoice}
    {effect : Effect SenderState SenderSection}
    (hexec : s.exec sec choice = some effect) :
    KeepsEntries s effect.shared := by
  cases sec <;> simp only [exec, deliver, connect, linkDead, recover,
    ackTimeout] at hexec
  case noteAckErase msgId =>
    obtain rfl := Option.some.inj hexec
    refine ⟨[msgId], rfl, ?_⟩
    intro other hmem
    by_cases hother : other = msgId
    · simp [hother]
    · exact Or.inl (AList.mem_erase.mpr ⟨hother, hmem⟩)
  case noteAckLog msgId =>
    obtain ⟨⟨ok, next⟩, happend, rfl⟩ := Option.map_eq_some_iff.mp hexec
    have hkeeps := appendAck_keeps happend
    dsimp only
    split <;> exact hkeeps
  case deliverLog i msg =>
    obtain ⟨proxy, -, hexec⟩ := Option.bind_eq_some_iff.mp hexec
    obtain ⟨⟨ok, next⟩, happend, rfl⟩ := Option.map_eq_some_iff.mp hexec
    have hkeeps := appendData_keeps happend
    dsimp only
    split <;> exact hkeeps
  case flushLog i conn msg =>
    obtain ⟨proxy, -, hexec⟩ := Option.bind_eq_some_iff.mp hexec
    obtain ⟨⟨ok, next⟩, happend, rfl⟩ := Option.map_eq_some_iff.mp hexec
    have hkeeps := appendData_keeps happend
    dsimp only
    split <;> exact hkeeps
  case deliverTrack i msg =>
    obtain ⟨proxy, -, rfl⟩ := Option.map_eq_some_iff.mp hexec
    exact .of_mem rfl fun msgId hmem => Unacked.mem_trackUnacked hmem
  case flushTrack i conn msg =>
    obtain ⟨proxy, -, rfl⟩ := Option.map_eq_some_iff.mp hexec
    exact .of_mem rfl fun msgId hmem => Unacked.mem_trackUnacked hmem
  case noteSendFailed msgId =>
    obtain rfl := Option.some.inj hexec
    exact .of_mem rfl fun other hmem =>
      (Unacked.mem_modify s.unacked msgId _ other).mpr hmem
  case resendMark msgId =>
    obtain rfl := Option.some.inj hexec
    exact .of_mem rfl fun other hmem =>
      (Unacked.mem_modify s.unacked msgId _ other).mpr hmem
  case linkFlag node haveAddr =>
    obtain rfl := Option.some.inj hexec
    exact .of_mem rfl fun other hmem =>
      (Unacked.mem_flagNode s.unacked node other).mpr hmem
  case deliverProxy i msg =>
    obtain ⟨proxy, -, rfl⟩ := Option.map_eq_some_iff.mp hexec
    repeat' split
    all_goals exact .of_eq rfl rfl
  case flushSwap i conn =>
    obtain ⟨proxy, -, rfl⟩ := Option.map_eq_some_iff.mp hexec
    split <;> exact .of_eq rfl rfl
  case notifyDead conn =>
    obtain ⟨link, -, rfl⟩ := Option.map_eq_some_iff.mp hexec
    split <;> exact .of_eq rfl rfl
  case dropConnection i =>
    obtain ⟨proxy, -, rfl⟩ := Option.map_eq_some_iff.mp hexec
    exact .of_eq rfl rfl
  -- The other sections do not touch the table.
  case connectDial node | recoverSleep node | timeoutCollect =>
    cases choice <;> simp only [reduceCtorEq] at hexec
    try split at hexec
    all_goals cases hexec
    all_goals exact .of_eq rfl rfl
  all_goals
    repeat' split at hexec
    all_goals cases hexec
    all_goals exact .of_eq rfl rfl

end SenderState

/-- The run lemma for the table of messages. -/
theorem runFrom_keeps {init : SenderState}
    {word : List (Move SenderSection SenderChoice)}
    {middle last : Config SenderState SenderSection}
    (hrun : (senderProgram.machine init).runFrom middle word = some last) :
    KeepsEntries middle.shared last.shared := by
  have hmeets : (senderProgram.machine init).MeetsFrom (fun _ _ => True) middle
      word := Machine.meetsFrom_of_forall _ (fun _ _ => trivial) _ _
  refine (senderProgram.machine init).runFrom_invariant
    (I := fun cfg => KeepsEntries middle.shared cfg.shared) ?_ word
    (.of_eq rfl rfl) hmeets hrun
  intro cfg move next hcfg _ hstep
  rcases senderProgram.stepConfig_cases hstep with
    ⟨sec, -, -, hshared, -⟩ |
    ⟨thread, choice, sec, rest, others, effect, -, -, -, heffect, hshared, -⟩
  · rw [hshared]
    exact hcfg
  · rw [hshared]
    exact hcfg.trans (SenderState.exec_keeps heffect)

/-- No call is under way: only the coroutines of `recover_node` are left, each
asleep between two rounds. -/
def Idle (pending : Multiset SenderSection) : Prop :=
  ∀ sec ∈ pending, ∃ node, sec = .recoverSleep node

/-- Somebody will still transmit the message: the ack timeout, a recovery that
is alive, or the next connection to its node. -/
def Scheduled (s : SenderState) (pending : Multiset SenderSection)
    (item : UnackedItem) : Prop :=
  item.needsResend = false ∨
    s.recovering item.node = true ∧ .recoverSleep item.node ∈ pending ∨
    s.validConn item.node = false

theorem DutyInv.scheduled {s : SenderState} {pending : Multiset SenderSection}
    (hinv : DutyInv s pending) (hidle : Idle pending) {msgId : UInt64}
    {item : UnackedItem} (hitem : s.unacked.lookup msgId = some item) :
    Scheduled s pending item := by
  cases hflag : item.needsResend with
  | false => exact Or.inl hflag
  | true =>
      have hwaits := (Unacked.waits_iff _ _ _).mpr ⟨item, hitem, rfl, hflag⟩
      rcases hinv.covered item.node msgId hwaits with
        hconn | ⟨sec, hsec, hcovers⟩
      · exact Or.inr (Or.inr hconn)
      · obtain ⟨node, rfl⟩ := hidle sec hsec
        simp only [SenderState.covers, decide_eq_true_eq] at hcovers
        subst hcovers
        have htag := DutyInv.mem_recoverTags.mpr ⟨_, hsec, rfl⟩
        exact Or.inr (Or.inl ⟨(hinv.recovering item.node).mpr htag, hsec⟩)

/-- In every run whose steps keep the duties, an entry leaves the table only
by `note_ack`, and whenever no call is under way every entry is scheduled. -/
theorem sender_none_stuck (log : Option RemoteLog) (file : List UInt8)
    (before after : List (Move SenderSection SenderChoice))
    (middle last : Config SenderState SenderSection)
    (hmeets : (senderProgram.machine (.init log file)).Meets
      (Program.OnSections fun s pending sec _ =>
        keepsDuty s pending sec = true) (before ++ after))
    (hbefore : (senderProgram.machine (.init log file)).run before =
      some middle)
    (hafter : (senderProgram.machine (.init log file)).run (before ++ after) =
      some last) :
    (∃ noted, last.shared.noted = noted ++ middle.shared.noted ∧
        ∀ msgId ∈ middle.shared.unacked,
          msgId ∈ last.shared.unacked ∨ msgId ∈ noted) ∧
      (Idle last.pending → ∀ msgId item,
        last.shared.unacked.lookup msgId = some item →
          Scheduled last.shared last.pending item) := by
  constructor
  · have hsplit := Machine.runFrom_append (senderProgram.machine
      (.init log file)) (senderProgram.machine (.init log file)).start before
      after
    rw [Machine.run] at hbefore hafter
    rw [hafter, hbefore, Option.bind_some] at hsplit
    exact runFrom_keeps hsplit.symm
  · intro hidle msgId item hitem
    have hinv : DutyInv last.shared last.pending := by
      refine senderProgram.invariant (dutyInv_init log file) ?_ ?_
        (before ++ after) hmeets hafter
      · intro s pending sec hinv hentry
        exact hinv.call hentry
      · intro s others sec choice effect hinv hkeeps heffect
        exact hinv.exec hkeeps heffect
    exact hinv.scheduled hidle hitem

def goes (thread count : Nat) : List (Move SenderSection SenderChoice) :=
  List.replicate count (.run thread .go)

open Move SenderSection SenderChoice in
/-- A message to node 2 is accepted into the buffer of its proxy; then the node
is dialed, the proxy flushed, and the message tracked again. -/
def acceptAndFlush : List (Move SenderSection SenderChoice) :=
  [call (newProxy ⟨[0x2A], [0x74], [0x6E]⟩ 2 1 none), run 0 go,
    call (tryDeliver 0 ⟨3, 1, 0, [9]⟩), run 1 go,
    run 1 (wrote ⟨[], .ok⟩)] ++ goes 1 2 ++
  [call (connectCheck 2), run 2 go, run 2 (dialed true)] ++ goes 2 3 ++
  [run 2 (wrote ⟨[], .ok⟩), run 2 go]

open Move SenderSection in
/-- The link dies and a recovery is started. -/
def loseLink : List (Move SenderSection SenderChoice) :=
  [call (notifyDead 0)] ++ goes 3 6

set_option maxRecDepth 100000 in
theorem sender_none_stuck_loseLink :
    ∃ middle last,
      (senderProgram.machine (.init none [])).Meets
        (Program.OnSections fun s pending sec _ =>
          keepsDuty s pending sec = true)
        ((acceptAndFlush ++ goes 2 2) ++ loseLink) ∧
      (senderProgram.machine (.init none [])).run (acceptAndFlush ++ goes 2 2) =
        some middle ∧
      (senderProgram.machine (.init none [])).run
        ((acceptAndFlush ++ goes 2 2) ++ loseLink) = some last ∧
      last.threads = [[], [], [], [], [.recoverSleep 2]] ∧
      ((∃ noted, last.shared.noted = noted ++ middle.shared.noted ∧
          ∀ msgId ∈ middle.shared.unacked,
            msgId ∈ last.shared.unacked ∨ msgId ∈ noted) ∧
        (Idle last.pending → ∀ msgId item,
          last.shared.unacked.lookup msgId = some item →
            Scheduled last.shared last.pending item)) := by
  have hmeets : (senderProgram.machine (.init none [])).Meets
      (Program.OnSections fun s pending sec _ => keepsDuty s pending sec = true)
      ((acceptAndFlush ++ goes 2 2) ++ loseLink) := by
    decide
  have hmiddle : ((senderProgram.machine (.init none [])).run
      (acceptAndFlush ++ goes 2 2)).isSome = true := by
    decide
  have hvalue : ((senderProgram.machine (.init none [])).run
      ((acceptAndFlush ++ goes 2 2) ++ loseLink)).map (·.threads) =
        some [[], [], [], [], [.recoverSleep 2]] := by
    decide
  obtain ⟨middle, hbefore⟩ := Option.isSome_iff_exists.mp hmiddle
  obtain ⟨last, hafter, hthreads⟩ := Option.map_eq_some_iff.mp hvalue
  exact ⟨middle, last, hmeets, hbefore, hafter, hthreads, sender_none_stuck none
    [] _ _ middle last hmeets hbefore hafter⟩

open Move SenderChoice in
/-- The recovery dials again, resends what is flagged, and ends. -/
def recoverOnce : List (Move SenderSection SenderChoice) :=
  [run 4 (live true), run 4 go, run 4 (dialed true)] ++ goes 4 13

/-- The flush that was interrupted by the death of its link learns of it after
the recovery has ended, and flags the message. -/
def flaggedLate : List (Move SenderSection SenderChoice) :=
  acceptAndFlush ++ loseLink ++ recoverOnce ++ goes 2 4

set_option maxRecDepth 100000 in
theorem flaggedLate_stuck :
    ∃ last, (senderProgram.machine (.init none [])).run flaggedLate =
        some last ∧
      last.pending = 0 ∧
      ∃ msgId item, last.shared.unacked.lookup msgId = some item ∧
        ¬ Scheduled last.shared last.pending item := by
  have hvalue : ((senderProgram.machine (.init none [])).run flaggedLate).map
      (fun cfg => (cfg.threads,
        (cfg.shared.unacked.lookup 1).map fun item =>
          (item.needsResend, item.node),
        cfg.shared.recovering 2, cfg.shared.validConn 2)) =
        some ([[], [], [], [], []], some (true, 2), false, true) := by
    decide
  obtain ⟨last, hlast, heq⟩ := Option.map_eq_some_iff.mp hvalue
  simp only [Prod.mk.injEq, Option.map_eq_some_iff] at heq
  obtain ⟨hthreads, ⟨item, hitem, hflag, hnode⟩, hrecovering, hvalid⟩ := heq
  refine ⟨last, hlast, by simp [Config.pending, hthreads], 1, item, hitem, ?_⟩
  simp [Scheduled, hflag, hnode, hrecovering, hvalid]

end UltraNet
