/-
The sending side of a node: `remote_proxy::try_deliver` and
`connect_and_flush`, `connect_to_node`, `resend_unacked`, `on_link_dead`,
`recover_node`, `ack_timeout_loop` and `note_ack`.  Every critical section and
every read of a connection's validity outside of one is a section of the
interleaving.  The node is not shut down.
-/
import UltraNet.Interleaving
import UltraNet.RemoteLog
import UltraNet.Serialization
import UltraNet.Unacked

namespace UltraNet

/-- `buffered_message`. -/
structure BufferedMessage where
  msgType : UInt64
  msgId : UInt64
  flags : UInt8
  data : List UInt8
deriving DecidableEq

/-- `outbound_conn`: the node its `on_dead` reports, and `is_valid`. -/
structure Link where
  node : UInt64
  valid : Bool
deriving DecidableEq

/-- `remote_proxy` with the hooks of `bind_proxy_hooks`; a connection is its
position in the list of all connections that were ever made. -/
structure Proxy where
  uri : ActorUri
  node : UInt64
  selfNode : UInt64
  hasPool : Bool
  conn : Option Nat
  buffered : List BufferedMessage
deriving DecidableEq

namespace Proxy

def maxBuffered : Nat := 1024

def packRouted (proxy : Proxy) (msg : BufferedMessage) : List UInt8 :=
  UltraNet.packRouted ⟨proxy.uri, msg.flags, msg.msgId, proxy.selfNode,
    msg.msgType, msg.data⟩

end Proxy

/-- `std::to_string` of a node id. -/
def nodeText (node : UInt64) : List UInt8 :=
  (Nat.toDigits 10 node.toNat).map fun digit => UInt8.ofNat digit.toNat

/-- `posted` and `noted` are ghosts: the frames that were queued on a
connection, and the ids that `note_ack` erased, newest first. -/
structure SenderState where
  unacked : Unacked
  links : List Link
  connections : Table UInt64 Nat
  proxies : List Proxy
  recovering : UInt64 → Bool
  recoverAgain : UInt64 → Bool
  log : Option RemoteLog
  file : List UInt8
  posted : List (Nat × List UInt8)
  noted : List UInt64

inductive SenderSection where
  -- `get_or_create_remote_proxy`, with the connection that it found
  | newProxy (uri : ActorUri) (node selfNode : UInt64) (conn : Option Nat)
  -- `try_deliver`
  | tryDeliver (proxy : Nat) (msg : BufferedMessage)
  | deliverLog (proxy : Nat) (msg : BufferedMessage)
  | deliverTrack (proxy : Nat) (msg : BufferedMessage)
  | deliverProxy (proxy : Nat) (msg : BufferedMessage)
  | deliverPost (conn : Nat) (msgId : UInt64) (frame : List UInt8)
  | noteSendFailed (msgId : UInt64)
  -- `connect_to_node`, with `connect_and_flush` of each proxy
  | connectCheck (node : UInt64)
  | connectDial (node : UInt64)
  | connectPool (node : UInt64) (conn : Nat)
  | connectProxies (node : UInt64) (conn : Nat)
  | flushSwap (proxy conn : Nat)
  | flushLog (proxy conn : Nat) (msg : BufferedMessage)
  | flushTrack (proxy conn : Nat) (msg : BufferedMessage)
  | flushPost (conn : Nat) (msgId : UInt64) (frame : List UInt8)
  -- `resend_unacked`
  | resendCollect (node : UInt64) (conn : Nat)
  | resendPost (conn : Nat) (msgId : UInt64) (frame : List UInt8)
  | resendMark (msgId : UInt64)
  -- `notify_dead` and `on_link_dead`
  | notifyDead (conn : Nat)
  | linkErase (node : UInt64)
  | linkFlag (node : UInt64) (haveAddr : Bool)
  | linkProxies (node : UInt64) (haveAddr : Bool)
  | dropConnection (proxy : Nat)
  | linkRecover (node : UInt64) (haveAddr : Bool)
  -- `recover_node`
  | recoverSleep (node : UInt64)
  | recoverStop (node : UInt64)
  | recoverLookup (node : UInt64)
  | recoverCheck (node : UInt64) (conn : Option Nat)
  | recoverAgain (node : UInt64) (conn : Option Nat)
  | recoverPending (node : UInt64) (conn : Option Nat) (again : Bool)
  | recoverDecide (node : UInt64) (conn : Option Nat) (again pending : Bool)
  | recoverEnd (node : UInt64)
  -- a round of `ack_timeout_loop`
  | timeoutCollect
  | timeoutLookup (node : UInt64) (frame : List UInt8)
  | timeoutPost (conn : Nat) (frame : List UInt8)
  -- `note_ack`
  | noteAckLog (msgId : UInt64)
  | noteAckErase (msgId : UInt64)
deriving DecidableEq

/-- What the environment answers to a section: the outcome of a write to the
log, of a dial, of the check whether a node is live, and which messages are
old enough for the ack timeout. -/
inductive SenderChoice where
  | go
  | wrote (io : IoScript)
  | dialed (ok : Bool)
  | live (found : Bool)
  | due (msgIds : List UInt64)

namespace SenderState

def validLink (s : SenderState) (conn : Nat) : Bool :=
  (s.links[conn]?).any (·.valid)

/-- `m_connections` has a valid connection for the node. -/
def validConn (s : SenderState) (node : UInt64) : Bool :=
  (s.connections.lookup node).any s.validLink

/-- `post_frame` on a connection that is valid. -/
def post (s : SenderState) (conn : Nat) (frame : List UInt8) : SenderState :=
  { s with posted := s.posted ++ [(conn, frame)] }

/-- `append_data` of the log, if there is one; `none` when the process is
killed in it. -/
def appendData (s : SenderState) (msgId : UInt64) (frame : List UInt8) :
    SenderChoice → Option (Bool × SenderState)
  | .wrote io =>
      match s.log with
      | none => some (true, s)
      | some log =>
          let (bytes, log, outcome) := log.appendData msgId frame io
          match outcome with
          | .killed => none
          | .returned ok =>
              some (ok, { s with file := s.file ++ bytes, log := some log })
  | _ => none

/-- `append_ack` of the log, if there is one. -/
def appendAck (s : SenderState) (msgId : UInt64) :
    SenderChoice → Option (Bool × SenderState)
  | .wrote io =>
      match s.log with
      | none => some (true, s)
      | some log =>
          let (bytes, outcome) := log.appendAck msgId io
          match outcome with
          | .killed => none
          | .returned ok => some (ok, { s with file := s.file ++ bytes })
  | _ => none

def track (s : SenderState) (node msgId : UInt64) (frame : List UInt8) :
    SenderState :=
  { s with unacked := s.unacked.trackUnacked node msgId frame }

def setProxy (s : SenderState) (i : Nat) (proxy : Proxy) : SenderState :=
  { s with proxies := s.proxies.set i proxy }

def deliver (s : SenderState) : SenderSection → SenderChoice →
    Option (Effect SenderState SenderSection)
  | .newProxy uri node selfNode conn, _ =>
      some (.done { s with
        proxies := s.proxies ++ [⟨uri, node, selfNode, true, conn, []⟩] })
  | .tryDeliver proxy msg, _ =>
      if msg.data = [] then some (.done s)
      else some (.goto s [.deliverLog proxy msg])
  | .deliverLog i msg, choice =>
      (s.proxies[i]?).bind fun proxy =>
        (s.appendData msg.msgId (proxy.packRouted msg) choice).map
          fun (ok, s) =>
            if ok then .goto s [.deliverTrack i msg] else .done s
  | .deliverTrack i msg, _ =>
      (s.proxies[i]?).map fun proxy =>
        .goto (s.track proxy.node msg.msgId (proxy.packRouted msg))
          [.deliverProxy i msg]
  | .deliverProxy i msg, _ =>
      (s.proxies[i]?).map fun proxy =>
        match proxy.conn.filter s.validLink with
        | none =>
            if proxy.buffered.length ≥ Proxy.maxBuffered then .done s
            else
              .done (s.setProxy i
                { proxy with buffered := proxy.buffered ++ [msg] })
        | some conn =>
            if proxy.hasPool then
              .goto s [.deliverPost conn msg.msgId (proxy.packRouted msg)]
            else .done s
  | .deliverPost conn msgId frame, _ =>
      if s.validLink conn then some (.done (s.post conn frame))
      else some (.goto s [.noteSendFailed msgId])
  | .noteSendFailed msgId, _ =>
      some (.done { s with unacked := s.unacked.noteSendFailed msgId })
  | _, _ => none

def connect (s : SenderState) : SenderSection → SenderChoice →
    Option (Effect SenderState SenderSection)
  | .connectCheck node, _ =>
      if s.validConn node then some (.done s)
      else some (.goto s [.connectDial node])
  | .connectDial node, .dialed ok =>
      -- `gossip_loop` hands in a connection that it has dialed before.
      if ok then
        some (.goto { s with links := s.links ++ [⟨node, true⟩] }
          [.connectPool node s.links.length])
      else some (.done s)
  | .connectPool node conn, _ =>
      if s.validConn node then some (.done s)
      else
        some (.goto { s with connections := s.connections.insert node conn }
          [.connectProxies node conn, .resendCollect node conn])
  | .connectProxies node conn, _ =>
      let targets := (List.range s.proxies.length).filter fun i =>
        (s.proxies[i]?).any fun proxy =>
          proxy.node = node ∨ proxy.uri.node = nodeText node
      some (.goto s (targets.map fun i => .flushSwap i conn))
  | .flushSwap i conn, _ =>
      (s.proxies[i]?).map fun proxy =>
        let next := s.setProxy i
          { proxy with conn := some conn, buffered := [] }
        if proxy.hasPool then
          .goto next (proxy.buffered.map fun msg => .flushLog i conn msg)
        else .done next
  | .flushLog i conn msg, choice =>
      (s.proxies[i]?).bind fun proxy =>
        (s.appendData msg.msgId (proxy.packRouted msg) choice).map
          fun (ok, s) =>
            if ok then .goto s [.flushTrack i conn msg]
            else .goto s [.noteSendFailed msg.msgId]
  | .flushTrack i conn msg, _ =>
      (s.proxies[i]?).map fun proxy =>
        .goto (s.track proxy.node msg.msgId (proxy.packRouted msg))
          [.flushPost conn msg.msgId (proxy.packRouted msg)]
  | .flushPost conn msgId frame, _ =>
      if s.validLink conn then some (.done (s.post conn frame))
      else some (.goto s [.noteSendFailed msgId])
  | .resendCollect node conn, _ =>
      some (.goto s ((s.unacked.flagged node).map fun item =>
        .resendPost conn item.1 item.2))
  | .resendPost conn msgId frame, _ =>
      if s.validLink conn then
        some (.goto (s.post conn frame) [.resendMark msgId])
      else some (.done s)
  | .resendMark msgId, _ =>
      some (.done { s with unacked := s.unacked.markSent msgId })
  | _, _ => none

def linkDead (s : SenderState) : SenderSection →
    Option (Effect SenderState SenderSection)
  | .notifyDead conn =>
      (s.links[conn]?).map fun link =>
        if link.valid then
          .goto { s with links := s.links.set conn { link with valid := false } }
            [.linkErase link.node]
        else .done s
  | .linkErase node =>
      some (.goto { s with connections := s.connections.erase node }
        [.linkFlag node (s.connections.lookup node).isSome])
  | .linkFlag node haveAddr =>
      some (.goto { s with unacked := s.unacked.flagNode node }
        [.linkProxies node haveAddr])
  | .linkProxies node haveAddr =>
      let targets := (List.range s.proxies.length).filter fun i =>
        (s.proxies[i]?).any fun proxy => proxy.node = node
      some (.goto s (targets.map .dropConnection ++ [.linkRecover node haveAddr]))
  | .dropConnection i =>
      (s.proxies[i]?).map fun proxy =>
        .done (s.setProxy i { proxy with conn := none })
  | .linkRecover node haveAddr =>
      if !haveAddr && !s.recovering node then some (.done s)
      else if s.recovering node then
        some (.done { s with
          recoverAgain := Function.update s.recoverAgain node true })
      else
        some ⟨{ s with
            recovering := Function.update s.recovering node true
            recoverAgain := Function.update s.recoverAgain node false },
          [], [[.recoverSleep node]]⟩
  | _ => none

def recover (s : SenderState) : SenderSection → SenderChoice →
    Option (Effect SenderState SenderSection)
  | .recoverSleep node, .live found =>
      if found then some (.goto s [.connectCheck node, .recoverLookup node])
      else some (.goto s [.recoverStop node])
  | .recoverStop node, _ =>
      some (.done { s with
        recovering := Function.update s.recovering node false
        recoverAgain := Function.update s.recoverAgain node false })
  | .recoverLookup node, _ =>
      some (.goto s [.recoverCheck node (s.connections.lookup node)])
  | .recoverCheck node conn, _ =>
      match conn.filter s.validLink with
      | none => some (.goto s [.recoverAgain node conn])
      | some valid =>
          some (.goto s [.resendCollect node valid, .recoverAgain node conn])
  | .recoverAgain node conn, _ =>
      some (.goto { s with
          recoverAgain := Function.update s.recoverAgain node false }
        [.recoverPending node conn (s.recoverAgain node)])
  | .recoverPending node conn again, _ =>
      some (.goto s
        [.recoverDecide node conn again (!(s.unacked.flagged node).isEmpty)])
  | .recoverDecide node conn again pending, _ =>
      if again || !(conn.any s.validLink) || pending then
        some (.goto s [.recoverSleep node])
      else some (.goto s [.recoverEnd node])
  | .recoverEnd node, _ =>
      if s.recoverAgain node then
        some (.goto { s with
            recoverAgain := Function.update s.recoverAgain node false }
          [.recoverSleep node])
      else
        some (.done { s with
          recovering := Function.update s.recovering node false })
  | _, _ => none

def ackTimeout (s : SenderState) : SenderSection → SenderChoice →
    Option (Effect SenderState SenderSection)
  | .timeoutCollect, choice =>
      match choice with
      | .due msgIds =>
          let due := s.unacked.entries.filter fun entry =>
            !entry.2.needsResend && entry.1 ∈ msgIds
          some (.goto s (due.map fun entry =>
            .timeoutLookup entry.2.node entry.2.frame))
      | _ => none
  | .timeoutLookup node frame, _ =>
      match s.connections.lookup node with
      | none => some (.done s)
      | some conn => some (.goto s [.timeoutPost conn frame])
  | .timeoutPost conn frame, _ =>
      if s.validLink conn then some (.done (s.post conn frame))
      else some (.done s)
  | .noteAckLog msgId, choice =>
      (s.appendAck msgId choice).map fun (ok, s) =>
        if ok then .goto s [.noteAckErase msgId] else .done s
  | .noteAckErase msgId, _ =>
      some (.done { s with
        unacked := s.unacked.forget msgId
        noted := msgId :: s.noted })
  | _, _ => none

/-- One section, under the function of the source it belongs to. -/
def exec (s : SenderState) (sec : SenderSection) (choice : SenderChoice) :
    Option (Effect SenderState SenderSection) :=
  match sec with
  | .newProxy .. | .tryDeliver .. | .deliverLog .. | .deliverTrack ..
  | .deliverProxy .. | .deliverPost .. | .noteSendFailed .. =>
      s.deliver sec choice
  | .connectCheck .. | .connectDial .. | .connectPool .. | .connectProxies ..
  | .flushSwap .. | .flushLog .. | .flushTrack .. | .flushPost ..
  | .resendCollect .. | .resendPost .. | .resendMark .. => s.connect sec choice
  | .notifyDead .. | .linkErase .. | .linkFlag .. | .linkProxies ..
  | .dropConnection .. | .linkRecover .. => s.linkDead sec
  | .recoverSleep .. | .recoverStop .. | .recoverLookup .. | .recoverCheck ..
  | .recoverAgain .. | .recoverPending .. | .recoverDecide ..
  | .recoverEnd .. => s.recover sec choice
  | .timeoutCollect | .timeoutLookup .. | .timeoutPost .. | .noteAckLog ..
  | .noteAckErase .. => s.ackTimeout sec choice

/-- The state before any call; the log, if there is one, was opened. -/
def init (log : Option RemoteLog) (file : List UInt8) : SenderState :=
  ⟨∅, [], ∅, [], fun _ => false, fun _ => false, log, file, [], []⟩

/-- An append changes the file and the log only. -/
theorem appendData_eq {s next : SenderState} {msgId : UInt64}
    {frame : List UInt8} {choice : SenderChoice} {ok : Bool}
    (happend : s.appendData msgId frame choice = some (ok, next)) :
    next = { s with file := next.file, log := next.log } := by
  cases choice <;> simp only [appendData, reduceCtorEq] at happend
  split at happend
  · cases happend
    rfl
  · split at happend
    · cases happend
    · cases happend
      rfl

theorem appendAck_eq {s next : SenderState} {msgId : UInt64}
    {choice : SenderChoice} {ok : Bool}
    (happend : s.appendAck msgId choice = some (ok, next)) :
    next = { s with file := next.file } := by
  cases choice <;> simp only [appendAck, reduceCtorEq] at happend
  split at happend
  · cases happend
    rfl
  · split at happend
    · cases happend
    · cases happend
      rfl

end SenderState

/-- A user sends, gossip or a recovery dials, a link dies, the ack timer
fires, an ack comes in. -/
def senderEntry : SenderSection → Bool
  | .newProxy .. | .tryDeliver .. | .connectCheck _ | .notifyDead _
  | .timeoutCollect | .noteAckLog _ => true
  | _ => false

def senderProgram : Program SenderState SenderSection SenderChoice where
  entry _ sec := senderEntry sec
  exec := SenderState.exec

end UltraNet
