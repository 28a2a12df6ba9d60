/-
The paths that transmit a message after the call that sent it: flushing the
buffer of a proxy, `resend_unacked`, a round of `ack_timeout_loop` and the
replay of the sender log.  Each call is one step here.  They transmit exactly
what is recorded in `m_unacked`, in a buffer or in the log.
-/
import UltraNet.SenderNode

namespace UltraNet

namespace SenderState

/-- One message of `connect_and_flush`; `none` when the process is killed. -/
def flushOne (s : SenderState) (proxy : Proxy) (conn : Nat)
    (msg : BufferedMessage) (io : IoScript) : Option SenderState :=
  (s.appendData msg.msgId (proxy.packRouted msg) (.wrote io)).map fun (ok, s) =>
    let next := s.track proxy.node msg.msgId (proxy.packRouted msg)
    if !ok then { s with unacked := s.unacked.noteSendFailed msg.msgId }
    else if s.validLink conn then next.post conn (proxy.packRouted msg)
    else { next with unacked := next.unacked.noteSendFailed msg.msgId }

def flushAll (proxy : Proxy) (conn : Nat) :
    SenderState → List BufferedMessage → List IoScript → Option SenderState
  | s, [], _ => some s
  | s, msg :: rest, ios =>
      (s.flushOne proxy conn msg (ios.headD ⟨[], .ok⟩)).bind fun next =>
        flushAll proxy conn next rest ios.tail

def connectAndFlush (s : SenderState) (i conn : Nat) (ios : List IoScript) :
    Option SenderState :=
  (s.proxies[i]?).bind fun proxy =>
    let next := s.setProxy i { proxy with conn := some conn, buffered := [] }
    if proxy.hasPool then flushAll proxy conn next proxy.buffered ios
    else some next

/-- One message of `resend_unacked`. -/
def resendOne (conn : Nat) (s : SenderState) (item : UInt64 × List UInt8) :
    SenderState :=
  if s.validLink conn then
    SenderState.post { s with unacked := s.unacked.markSent item.1 } conn item.2
  else s

def resendUnacked (s : SenderState) (node : UInt64) (conn : Nat) :
    SenderState :=
  (s.unacked.flagged node).foldl (resendOne conn) s

/-- One message that is due in `ack_timeout_loop`. -/
def repostOne (s : SenderState) (item : UnackedItem) : SenderState :=
  match (s.connections.lookup item.node).filter s.validLink with
  | none => s
  | some conn => s.post conn item.frame

def ackTimeoutRound (s : SenderState) (due : List UInt64) : SenderState :=
  ((s.unacked.entries.filter fun entry =>
    !entry.2.needsResend && entry.1 ∈ due).map fun entry => entry.2).foldl
      repostOne s

/-- The frames that a scan of the sender log returns for a replay. -/
def scannedFrames (s : SenderState) : List (List UInt8) :=
  (scanRemoteLog s.file).elim [] (·.unackedFrames)

/-- `post_original_frame`; the node is that of the first valid connection
which the loop over `m_connections` meets. -/
def postOriginalFrame (s : SenderState) (frame : List UInt8) (node : UInt64) :
    Option SenderState :=
  match unpackRouted frame, (s.connections.lookup node).filter s.validLink with
  | some message, some conn =>
      some ((s.post conn frame).track node message.msgId frame)
  | _, _ => none

/-- A dialed connection enters the pool. -/
def addConnection (s : SenderState) (node : UInt64) : SenderState :=
  if s.validConn node then s
  else
    { s with
      links := s.links ++ [⟨node, true⟩]
      connections := s.connections.insert node s.links.length }

/-- `notify_dead` and `on_link_dead`, the recovery apart. -/
def loseConnection (s : SenderState) (conn : Nat) (link : Link) : SenderState :=
  { s with
    links := s.links.set conn { link with valid := false }
    connections := s.connections.erase link.node
    unacked := s.unacked.flagNode link.node
    proxies := s.proxies.map fun proxy =>
      if proxy.node = link.node then { proxy with conn := none } else proxy }

end SenderState

inductive LaterOp where
  | connect (node : UInt64)
  | notifyDead (conn : Nat)
  | connectAndFlush (proxy conn : Nat) (ios : List IoScript)
  | resendUnacked (node : UInt64) (conn : Nat)
  | ackTimeout (due : List UInt64)
  | replay (frame : List UInt8) (node : UInt64)

def SenderState.later (s : SenderState) : LaterOp → Option SenderState
  | .connect node => some (s.addConnection node)
  | .notifyDead conn => (s.links[conn]?).map fun link =>
      if link.valid then s.loseConnection conn link else s
  | .connectAndFlush i conn ios => s.connectAndFlush i conn ios
  | .resendUnacked node conn => some (s.resendUnacked node conn)
  | .ackTimeout due => some (s.ackTimeoutRound due)
  | .replay frame node =>
      if frame ∈ s.scannedFrames then s.postOriginalFrame frame node else none

def laterMachine (s : SenderState) : Machine SenderState LaterOp where
  start := s
  step := SenderState.later

/-- The steps from one state to the other posted other frames only. -/
def Silent (frame : List UInt8) (s next : SenderState) : Prop :=
  ∃ more, next.posted = s.posted ++ more ∧ ∀ conn, (conn, frame) ∉ more

/-- No later step transmits the frame. -/
def NeverSent (s : SenderState) (frame : List UInt8) : Prop :=
  ∀ word last, (laterMachine s).run word = some last → Silent frame s last

/-- Nothing that a later step reads holds the frame. -/
structure Unrecorded (s : SenderState) (frame : List UInt8) : Prop where
  unacked : ∀ msgId item, s.unacked.lookup msgId = some item →
    item.frame ≠ frame
  buffers : ∀ proxy ∈ s.proxies, proxy.hasPool = true →
    ∀ msg ∈ proxy.buffered, proxy.packRouted msg ≠ frame
  log : frame ∈ s.scannedFrames → unpackRouted frame = none

/-- A buffered message is in the log, if there is one: `try_deliver` appends
before it buffers. -/
def BuffersLogged (s : SenderState) : Prop :=
  ∀ proxy ∈ s.proxies, ∀ msg ∈ proxy.buffered, ∀ log, s.log = some log →
    msg.msgId ∈ log.dataIds

namespace Silent

variable {frame : List UInt8} {s next last : SenderState}

theorem of_eq (hposted : next.posted = s.posted) : Silent frame s next :=
  ⟨[], by simp [hposted], by simp⟩

theorem of_post {conn : Nat} {other : List UInt8}
    (hposted : next.posted = s.posted ++ [(conn, other)])
    (hother : other ≠ frame) : Silent frame s next :=
  ⟨_, hposted, by simp [hother.symm]⟩

theorem trans (hfirst : Silent frame s next) (hsecond : Silent frame next last) :
    Silent frame s last := by
  obtain ⟨first, hfirst, hfree⟩ := hfirst
  obtain ⟨second, hsecond, hmore⟩ := hsecond
  refine ⟨first ++ second, by rw [hsecond, hfirst, List.append_assoc], ?_⟩
  intro conn hmem
  rcases List.mem_append.mp hmem with hold | hnew
  · exact hfree conn hold
  · exact hmore conn hnew

end Silent

/-- Both proxies pack a message alike and hold the same messages. -/
def Proxy.SameBuffer (first second : Proxy) : Prop :=
  first.uri = second.uri ∧ first.selfNode = second.selfNode ∧
    first.hasPool = second.hasPool ∧ first.buffered = second.buffered

/-- What a later step keeps while the frame is not recorded. -/
structure KeepsSilent (frame : List UInt8) (s next : SenderState) : Prop where
  silent : Silent frame s next
  unacked : ∀ msgId item, next.unacked.lookup msgId = some item →
    item.frame = frame → ∃ other before,
      s.unacked.lookup other = some before ∧ before.frame = frame
  proxies : ∀ proxy ∈ next.proxies, proxy.buffered = [] ∨
    ∃ before ∈ s.proxies, before.SameBuffer proxy
  file : next.file = s.file
  log : next.log = s.log

namespace KeepsSilent

variable {frame : List UInt8} {s next last : SenderState}

/-- A step that leaves the proxies and the log alone. -/
theorem of_unacked (hsilent : Silent frame s next)
    (hunacked : ∀ msgId item, next.unacked.lookup msgId = some item →
      item.frame = frame → ∃ other before,
        s.unacked.lookup other = some before ∧ before.frame = frame)
    (hproxies : next.proxies = s.proxies) (hfile : next.file = s.file)
    (hlog : next.log = s.log) : KeepsSilent frame s next where
  silent := hsilent
  unacked := hunacked
  proxies := by
    intro proxy hproxy
    exact Or.inr ⟨proxy, hproxies ▸ hproxy, rfl, rfl, rfl, rfl⟩
  file := hfile
  log := hlog

theorem refl (frame : List UInt8) (s : SenderState) : KeepsSilent frame s s :=
  of_unacked (.of_eq rfl)
    (fun msgId item hitem hframe => ⟨msgId, item, hitem, hframe⟩) rfl rfl rfl

theorem trans (hfirst : KeepsSilent frame s next)
    (hsecond : KeepsSilent frame next last) : KeepsSilent frame s last where
  silent := hfirst.silent.trans hsecond.silent
  unacked := by
    intro msgId item hitem hframe
    obtain ⟨other, before, hbefore, hsame⟩ :=
      hsecond.unacked msgId item hitem hframe
    exact hfirst.unacked other before hbefore hsame
  proxies := by
    intro proxy hproxy
    rcases hsecond.proxies proxy hproxy with
      hempty | ⟨middle, hmiddle, huri, hself, hpool, hbuffer⟩
    · exact Or.inl hempty
    · rcases hfirst.proxies middle hmiddle with
        hempty | ⟨before, hbefore, hsame⟩
      · exact Or.inl (hbuffer.symm.trans hempty)
      · exact Or.inr ⟨before, hbefore, hsame.1.trans huri,
          hsame.2.1.trans hself, hsame.2.2.1.trans hpool,
          hsame.2.2.2.trans hbuffer⟩
  file := hsecond.file.trans hfirst.file
  log := hsecond.log.trans hfirst.log

/-- Steps over a list, each of which keeps silent. -/
theorem foldl {B : Type*} {f : SenderState → B → SenderState} (items : List B)
    (hstep : ∀ s, ∀ item ∈ items, KeepsSilent frame s (f s item))
    (s : SenderState) : KeepsSilent frame s (items.foldl f s) := by
  induction items generalizing s with
  | nil => exact refl frame s
  | cons item items ih =>
      have hhead := hstep s item (List.mem_cons_self ..)
      exact hhead.trans (ih (fun s other hother =>
        hstep s other (List.mem_cons_of_mem _ hother)) _)

theorem unrecorded (hkeeps : KeepsSilent frame s next)
    (hfree : Unrecorded s frame) : Unrecorded next frame where
  unacked := by
    intro msgId item hitem hframe
    obtain ⟨other, before, hbefore, hsame⟩ :=
      hkeeps.unacked msgId item hitem hframe
    exact hfree.unacked other before hbefore hsame
  buffers := by
    intro proxy hproxy hpool msg hmsg
    rcases hkeeps.proxies proxy hproxy with
      hempty | ⟨before, hbefore, huri, hself, hsame, hbuffer⟩
    · simp [hempty] at hmsg
    · have := hfree.buffers before hbefore (hsame.trans hpool) msg
        (hbuffer ▸ hmsg)
      simpa [Proxy.packRouted, huri, hself] using this
  log := by
    have hlog := hfree.log
    rwa [SenderState.scannedFrames, ← hkeeps.file] at hlog

theorem buffersLogged (hkeeps : KeepsSilent frame s next)
    (hlogged : BuffersLogged s) : BuffersLogged next := by
  intro proxy hproxy msg hmsg log hlog
  rw [hkeeps.log] at hlog
  rcases hkeeps.proxies proxy hproxy with
    hempty | ⟨before, hbefore, -, -, -, hbuffer⟩
  · simp [hempty] at hmsg
  · exact hlogged before hbefore msg (hbuffer ▸ hmsg) log hlog

end KeepsSilent

namespace SenderState

variable {frame : List UInt8} {s next : SenderState}

theorem frame_of_modify {unacked : Unacked} {id msgId : UInt64}
    {f : UnackedItem → UnackedItem} (hf : ∀ item, (f item).frame = item.frame)
    {item : UnackedItem}
    (hitem : AList.lookup msgId (Table.modify unacked id f) = some item) :
    ∃ before, unacked.lookup msgId = some before ∧
      before.frame = item.frame := by
  rw [Table.lookup_modify] at hitem
  split at hitem
  · obtain ⟨before, hbefore, rfl⟩ := Option.map_eq_some_iff.mp hitem
    exact ⟨before, hbefore, (hf before).symm⟩
  · exact ⟨item, hitem, rfl⟩

theorem frame_of_markSent {unacked : Unacked} {id msgId : UInt64}
    {item : UnackedItem} (hitem : (unacked.markSent id).lookup msgId = some item) :
    ∃ before, unacked.lookup msgId = some before ∧
      before.frame = item.frame :=
  frame_of_modify (f := fun item => { item with needsResend := false })
    (fun _ => rfl) hitem

theorem frame_of_noteSendFailed {unacked : Unacked} {id msgId : UInt64}
    {item : UnackedItem}
    (hitem : (unacked.noteSendFailed id).lookup msgId = some item) :
    ∃ before, unacked.lookup msgId = some before ∧
      before.frame = item.frame :=
  frame_of_modify (f := fun item => { item with needsResend := true })
    (fun _ => rfl) hitem

theorem resendOne_keeps (conn : Nat) (s : SenderState)
    {item : UInt64 × List UInt8} (hitem : item.2 ≠ frame) :
    KeepsSilent frame s (resendOne conn s item) := by
  unfold resendOne
  split
  · refine .of_unacked (.of_post rfl hitem) ?_ rfl rfl rfl
    intro msgId found hfound hframe
    obtain ⟨before, hbefore, hsame⟩ := frame_of_markSent hfound
    exact ⟨msgId, before, hbefore, hsame.trans hframe⟩
  · exact .refl frame s

theorem mem_of_mem_flagged {unacked : Unacked} {node : UInt64}
    {item : UInt64 × List UInt8} (hitem : item ∈ unacked.flagged node) :
    ∃ found, unacked.lookup item.1 = some found ∧ found.frame = item.2 := by
  simp only [Unacked.flagged, List.mem_map, List.mem_filter] at hitem
  obtain ⟨⟨msgId, found⟩, ⟨hmem, -⟩, rfl⟩ := hitem
  exact ⟨found, (Table.lookup_eq_some_iff _ _ _).mpr hmem, rfl⟩

theorem resendUnacked_keeps (hfree : Unrecorded s frame) (node : UInt64)
    (conn : Nat) : KeepsSilent frame s (s.resendUnacked node conn) := by
  apply KeepsSilent.foldl
  intro state item hitem
  obtain ⟨found, hfound, hframe⟩ := mem_of_mem_flagged hitem
  exact resendOne_keeps conn state
    (hframe ▸ hfree.unacked item.1 found hfound)

theorem repostOne_keeps (s : SenderState) {item : UnackedItem}
    (hitem : item.frame ≠ frame) : KeepsSilent frame s (s.repostOne item) := by
  unfold repostOne
  split
  · exact .refl frame s
  · exact .of_unacked (.of_post rfl hitem)
      (fun msgId item hitem hframe => ⟨msgId, item, hitem, hframe⟩) rfl rfl rfl

theorem ackTimeoutRound_keeps (hfree : Unrecorded s frame)
    (due : List UInt64) : KeepsSilent frame s (s.ackTimeoutRound due) := by
  apply KeepsSilent.foldl
  intro state item hitem
  simp only [List.mem_map, List.mem_filter] at hitem
  obtain ⟨⟨msgId, found⟩, ⟨hmem, -⟩, rfl⟩ := hitem
  exact repostOne_keeps state
    (hfree.unacked msgId found ((Table.lookup_eq_some_iff _ _ _).mpr hmem))

/-- A message that is in the log is not appended again. -/
theorem appendData_logged {msgId : UInt64} (other : List UInt8) (io : IoScript)
    (hlogged : ∀ log, s.log = some log → msgId ∈ log.dataIds) :
    s.appendData msgId other (.wrote io) = some (true, s) := by
  unfold appendData
  cases hlog : s.log with
  | none => rfl
  | some log =>
      have hmem := hlogged log hlog
      simp [RemoteLog.appendData, hmem, ← hlog]

theorem track_keeps (s : SenderState) (node msgId : UInt64)
    {other : List UInt8} (hother : other ≠ frame) :
    KeepsSilent frame s (s.track node msgId other) := by
  refine .of_unacked (.of_eq rfl) ?_ rfl rfl rfl
  intro id item hitem hframe
  obtain ⟨-, rfl⟩ | ⟨-, hold⟩ := Table.of_lookup_insert hitem
  · exact absurd hframe hother
  · exact ⟨id, item, hold, hframe⟩

theorem flushOne_keeps {proxy : Proxy} {conn : Nat} {msg : BufferedMessage}
    {io : IoScript}
    (hlogged : ∀ log, s.log = some log → msg.msgId ∈ log.dataIds)
    (hother : proxy.packRouted msg ≠ frame)
    (hflush : s.flushOne proxy conn msg io = some next) :
    KeepsSilent frame s next := by
  rw [flushOne, appendData_logged _ _ hlogged, Option.map_some,
    Option.some.injEq] at hflush
  have htrack := track_keeps s proxy.node msg.msgId hother
  dsimp only [Bool.not_true] at hflush
  rw [if_neg (by simp)] at hflush
  subst hflush
  split
  · exact { htrack with silent := .of_post rfl hother }
  · refine { htrack with unacked := ?_ }
    intro id item hitem hframe
    obtain ⟨before, hbefore, hsame⟩ := frame_of_noteSendFailed hitem
    exact htrack.unacked id before hbefore (hsame.trans hframe)

theorem flushAll_keeps {proxy : Proxy} {conn : Nat}
    (messages : List BufferedMessage) (ios : List IoScript)
    (hlogged : ∀ msg ∈ messages, ∀ log, s.log = some log →
      msg.msgId ∈ log.dataIds)
    (hother : ∀ msg ∈ messages, proxy.packRouted msg ≠ frame)
    (hflush : flushAll proxy conn s messages ios = some next) :
    KeepsSilent frame s next := by
  induction messages generalizing s ios with
  | nil =>
      obtain rfl := Option.some.inj hflush
      exact .refl frame s
  | cons msg messages ih =>
      obtain ⟨middle, hfirst, hrest⟩ := Option.bind_eq_some_iff.mp hflush
      have hhead := flushOne_keeps (hlogged msg (List.mem_cons_self ..))
        (hother msg (List.mem_cons_self ..)) hfirst
      refine hhead.trans (ih ios.tail ?_ ?_ hrest)
      · intro other hmem log hlog
        exact hlogged other (List.mem_cons_of_mem _ hmem) log
          (hhead.log ▸ hlog)
      · intro other hmem
        exact hother other (List.mem_cons_of_mem _ hmem)

theorem connectAndFlush_keeps {i conn : Nat} {ios : List IoScript}
    (hlogged : BuffersLogged s) (hfree : Unrecorded s frame)
    (hflush : s.connectAndFlush i conn ios = some next) :
    KeepsSilent frame s next := by
  obtain ⟨proxy, hproxy, hflush⟩ := Option.bind_eq_some_iff.mp hflush
  have hmem := List.mem_of_getElem? hproxy
  have hswap : KeepsSilent frame s (s.setProxy i
      { proxy with conn := some conn, buffered := [] }) := by
    refine { KeepsSilent.refl frame s with proxies := ?_ }
    intro other hother
    rcases List.mem_or_eq_of_mem_set hother with hold | rfl
    · exact Or.inr ⟨other, hold, rfl, rfl, rfl, rfl⟩
    · exact Or.inl rfl
  dsimp only at hflush
  split at hflush
  · rename_i hpool
    exact hswap.trans (flushAll_keeps proxy.buffered ios
      (hlogged proxy hmem) (hfree.buffers proxy hmem hpool) hflush)
  · obtain rfl := Option.some.inj hflush
    exact hswap

theorem loseConnection_keeps (s : SenderState) (conn : Nat) (link : Link) :
    KeepsSilent frame s (s.loseConnection conn link) where
  silent := .of_eq rfl
  unacked := by
    intro msgId item hitem hframe
    simp only [loseConnection, Unacked.flagNode, Table.lookup_mapVals,
      Option.map_eq_some_iff] at hitem
    obtain ⟨before, hbefore, rfl⟩ := hitem
    refine ⟨msgId, before, hbefore, ?_⟩
    split at hframe <;> exact hframe
  proxies := by
    intro proxy hproxy
    obtain ⟨before, hbefore, rfl⟩ := List.mem_map.mp hproxy
    refine Or.inr ⟨before, hbefore, ?_⟩
    split <;> exact ⟨rfl, rfl, rfl, rfl⟩
  file := rfl
  log := rfl

theorem addConnection_keeps (s : SenderState) (node : UInt64) :
    KeepsSilent frame s (s.addConnection node) := by
  unfold addConnection
  split
  · exact .refl frame s
  · exact { KeepsSilent.refl frame s with }

theorem postOriginalFrame_keeps {other : List UInt8} {node : UInt64}
    (hfree : Unrecorded s frame) (hscanned : other ∈ s.scannedFrames)
    (hpost : s.postOriginalFrame other node = some next) :
    KeepsSilent frame s next := by
  unfold postOriginalFrame at hpost
  split at hpost
  · rename_i message conn hmessage hconn
    obtain rfl := Option.some.inj hpost
    have hother : other ≠ frame := by
      rintro rfl
      simp [hfree.log hscanned] at hmessage
    exact { track_keeps s node message.msgId hother with
      silent := .of_post rfl hother }
  · cases hpost

/-- The step lemma: a frame that is not recorded is not posted by any of the
later steps. -/
theorem later_keeps {op : LaterOp} (hlogged : BuffersLogged s)
    (hfree : Unrecorded s frame) (hstep : s.later op = some next) :
    KeepsSilent frame s next := by
  cases op with
  | connect node =>
      obtain rfl := Option.some.inj hstep
      exact addConnection_keeps s node
  | notifyDead conn =>
      obtain ⟨link, -, rfl⟩ := Option.map_eq_some_iff.mp hstep
      split
      · exact loseConnection_keeps s conn link
      · exact .refl frame s
  | connectAndFlush i conn ios => exact connectAndFlush_keeps hlogged hfree hstep
  | resendUnacked node conn =>
      obtain rfl := Option.some.inj hstep
      exact resendUnacked_keeps hfree node conn
  | ackTimeout due =>
      obtain rfl := Option.some.inj hstep
      exact ackTimeoutRound_keeps hfree due
  | replay other node =>
      simp only [later] at hstep
      split at hstep
      · rename_i hscanned
        exact postOriginalFrame_keeps hfree hscanned hstep
      · cases hstep

end SenderState

/-- The run lemma. -/
theorem Unrecorded.neverSent {s : SenderState} {frame : List UInt8}
    (hlogged : BuffersLogged s) (hfree : Unrecorded s frame) :
    NeverSent s frame := by
  intro word last hrun
  have hlast := (laterMachine s).run_preserves
    (I := fun state => BuffersLogged state ∧ Unrecorded state frame ∧
      Silent frame s state) ⟨hlogged, hfree, .of_eq rfl⟩ ?_ word hrun
  · exact hlast.2.2
  · intro state op next ⟨hstate, hrecorded, hsilent⟩ hstep
    have hkeeps := SenderState.later_keeps hstate hrecorded hstep
    exact ⟨hkeeps.buffersLogged hstate, hkeeps.unrecorded hrecorded,
      hsilent.trans hkeeps.silent⟩

namespace SenderState

variable {s : SenderState} {frame : List UInt8}

/-- What a round of the ack timeout posts. -/
theorem foldl_repostOne_posted (items : List UnackedItem) (s : SenderState) :
    (items.foldl repostOne s).posted = s.posted ++ items.filterMap fun item =>
      ((s.connections.lookup item.node).filter s.validLink).map fun conn =>
        (conn, item.frame) := by
  induction items generalizing s with
  | nil => simp
  | cons item items ih =>
      rw [List.foldl_cons, ih]
      cases hconn : (s.connections.lookup item.node).filter s.validLink with
      | none => simp [repostOne, hconn]
      | some conn =>
          have hpost : s.repostOne item = s.post conn item.frame := by
            simp [repostOne, hconn]
          have hlinks : (s.post conn item.frame).validLink = s.validLink := rfl
          rw [hpost, hlinks, List.filterMap_cons_some (by rw [hconn]; rfl)]
          simp [post]

/-- What `resend_unacked` posts on a valid connection. -/
theorem foldl_resendOne_posted {conn : Nat} (hvalid : s.validLink conn = true)
    (items : List (UInt64 × List UInt8)) :
    (items.foldl (resendOne conn) s).posted =
      s.posted ++ items.map fun item => (conn, item.2) := by
  induction items generalizing s with
  | nil => simp
  | cons item items ih =>
      have hpost : resendOne conn s item = post
          { s with unacked := s.unacked.markSent item.1 } conn item.2 := by
        simp [resendOne, hvalid]
      have hnext : (resendOne conn s item).validLink conn = true := by
        rw [hpost]
        exact hvalid
      rw [List.foldl_cons, ih hnext, hpost]
      simp [post]

/-- What `connect_and_flush` posts on a valid connection. -/
theorem flushAll_posted (proxy : Proxy) {conn : Nat}
    (messages : List BufferedMessage) (hvalid : s.validLink conn = true)
    (hlogged : ∀ msg ∈ messages, ∀ log, s.log = some log →
      msg.msgId ∈ log.dataIds) :
    ∃ next, flushAll proxy conn s messages [] = some next ∧
      next.posted = s.posted ++
        messages.map fun msg => (conn, proxy.packRouted msg) := by
  induction messages generalizing s with
  | nil => exact ⟨s, rfl, by simp⟩
  | cons msg messages ih =>
      have hfirst : s.flushOne proxy conn msg ⟨[], .ok⟩ =
          some ((s.track proxy.node msg.msgId (proxy.packRouted msg)).post conn
            (proxy.packRouted msg)) := by
        rw [flushOne,
          appendData_logged _ _ (hlogged msg (List.mem_cons_self ..))]
        simp [hvalid]
      obtain ⟨next, hrest, hposted⟩ := ih
        (s := (s.track proxy.node msg.msgId (proxy.packRouted msg)).post conn
          (proxy.packRouted msg)) hvalid
        fun other hother => hlogged other (List.mem_cons_of_mem _ hother)
      refine ⟨next, ?_, ?_⟩
      · simp only [flushAll, List.headD_nil, hfirst, Option.bind_some,
          List.tail_nil]
        exact hrest
      · simp [hposted, post, track]

/-- After a dial the pool has a valid connection. -/
theorem addConnection_valid (s : SenderState) (node : UInt64) :
    ∃ conn, ((s.addConnection node).connections.lookup node).filter
      (s.addConnection node).validLink = some conn := by
  unfold addConnection
  split
  · rename_i hvalid
    simp only [validConn, Option.any_eq_true] at hvalid
    obtain ⟨conn, hlookup, hconn⟩ := hvalid
    exact ⟨conn, by simp [hlookup, hconn]⟩
  · refine ⟨s.links.length, ?_⟩
    simp [validLink]

theorem addConnection_same (s : SenderState) (node : UInt64) :
    (s.addConnection node).unacked = s.unacked ∧
      (s.addConnection node).proxies = s.proxies ∧
      (s.addConnection node).file = s.file ∧
      (s.addConnection node).log = s.log ∧
      (s.addConnection node).posted = s.posted := by
  unfold addConnection
  split <;> exact ⟨rfl, rfl, rfl, rfl, rfl⟩

end SenderState

theorem not_silent {frame : List UInt8} {s next : SenderState}
    {more : List (Nat × List UInt8)} (conn : Nat)
    (hposted : next.posted = s.posted ++ more) (hmem : (conn, frame) ∈ more) :
    ¬ Silent frame s next := by
  rintro ⟨other, hother, hfree⟩
  have heq : other = more := List.append_cancel_left (hother.symm.trans hposted)
  exact hfree conn (heq ▸ hmem)

/-- A dial and one more step. -/
theorem NeverSent.after_connect {s next : SenderState} {frame : List UInt8}
    (hnever : NeverSent s frame) (node : UInt64) (op : LaterOp)
    (hstep : (s.addConnection node).later op = some next) :
    Silent frame (s.addConnection node) next := by
  have hrun : (laterMachine s).run [.connect node, op] = some next := by
    have hconnect : s.later (.connect node) = some (s.addConnection node) := rfl
    simp [Machine.run, Machine.runFrom, laterMachine, hconnect, hstep]
  obtain ⟨more, hposted, hfree⟩ := hnever _ next hrun
  refine ⟨more, ?_, hfree⟩
  rw [hposted, (s.addConnection_same node).2.2.2.2]

theorem NeverSent.unacked {s : SenderState} {frame : List UInt8}
    (hnever : NeverSent s frame) {msgId : UInt64} {item : UnackedItem}
    (hitem : s.unacked.lookup msgId = some item) : item.frame ≠ frame := by
  rintro rfl
  obtain ⟨conn, hconn⟩ := s.addConnection_valid item.node
  obtain ⟨hunacked, -⟩ := s.addConnection_same item.node
  rw [← hunacked] at hitem
  cases hflag : item.needsResend with
  | false =>
      have hsilent := hnever.after_connect item.node
        (.ackTimeout [msgId]) rfl
      refine not_silent conn (SenderState.foldl_repostOne_posted _ _) ?_ hsilent
      have hmem := (Table.lookup_eq_some_iff _ _ _).mp hitem
      refine List.mem_filterMap.mpr ⟨item, List.mem_map.mpr
        ⟨⟨msgId, item⟩, List.mem_filter.mpr ⟨hmem, ?_⟩, rfl⟩, ?_⟩
      · simp [hflag]
      · rw [hconn]
        rfl
  | true =>
      have hvalid : (s.addConnection item.node).validLink conn = true :=
        (Option.filter_eq_some_iff.mp hconn).2
      have hsilent := hnever.after_connect item.node
        (.resendUnacked item.node conn) rfl
      refine not_silent conn (SenderState.foldl_resendOne_posted hvalid _) ?_ hsilent
      have hmem := (Table.lookup_eq_some_iff _ _ _).mp hitem
      refine List.mem_map.mpr ⟨(msgId, item.frame), List.mem_map.mpr
        ⟨⟨msgId, item⟩, List.mem_filter.mpr ⟨hmem, ?_⟩, rfl⟩, rfl⟩
      simp [hflag]

theorem NeverSent.buffers {s : SenderState} {frame : List UInt8}
    (hnever : NeverSent s frame) (hlogged : BuffersLogged s) {proxy : Proxy}
    (hproxy : proxy ∈ s.proxies) (hpool : proxy.hasPool = true)
    {msg : BufferedMessage} (hmsg : msg ∈ proxy.buffered) :
    proxy.packRouted msg ≠ frame := by
  rintro rfl
  obtain ⟨i, hi⟩ := List.mem_iff_getElem?.mp hproxy
  obtain ⟨conn, hconn⟩ := s.addConnection_valid proxy.node
  obtain ⟨-, hproxies, -, hlog, -⟩ := s.addConnection_same proxy.node
  have hvalid : ((s.addConnection proxy.node).setProxy i
      { proxy with conn := some conn, buffered := [] }).validLink conn = true :=
    (Option.filter_eq_some_iff.mp hconn).2
  obtain ⟨next, hflush, hposted⟩ := SenderState.flushAll_posted proxy
    proxy.buffered hvalid (by
      intro other hother log hsame
      exact hlogged proxy hproxy other hother log (hlog ▸ hsame))
  have hsilent := hnever.after_connect proxy.node
    (.connectAndFlush i conn []) (by
      simp only [SenderState.later, SenderState.connectAndFlush, hproxies, hi,
        Option.bind_some]
      rw [if_pos hpool, hflush])
  exact not_silent conn hposted (List.mem_map.mpr ⟨msg, hmsg, rfl⟩) hsilent

theorem NeverSent.log {s : SenderState} {frame : List UInt8}
    (hnever : NeverSent s frame) (hscanned : frame ∈ s.scannedFrames) :
    unpackRouted frame = none := by
  cases hmessage : unpackRouted frame with
  | none => rfl
  | some message =>
      obtain ⟨conn, hconn⟩ := s.addConnection_valid 0
      obtain ⟨-, -, hfile, -, -⟩ := s.addConnection_same 0
      have hsame : frame ∈ (s.addConnection 0).scannedFrames := by
        rwa [SenderState.scannedFrames, hfile]
      have hsilent := hnever.after_connect 0 (.replay frame 0) (by
        simp only [SenderState.later, hsame, if_true,
          SenderState.postOriginalFrame, hmessage, hconn]
        rfl)
      exact absurd hsilent (not_silent conn rfl (List.mem_singleton_self _))

/-- The later steps transmit exactly what is recorded. -/
theorem neverSent_iff {s : SenderState} (hlogged : BuffersLogged s)
    (frame : List UInt8) : NeverSent s frame ↔ Unrecorded s frame := by
  constructor
  · intro hnever
    exact ⟨fun _ _ hitem => hnever.unacked hitem,
      fun _ hproxy hpool _ hmsg => hnever.buffers hlogged hproxy hpool hmsg,
      hnever.log⟩
  · exact fun hfree => hfree.neverSent hlogged

end UltraNet
