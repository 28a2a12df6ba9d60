/-
Two live processes without logs: the sender of `SenderNode`, the receiver of
`DedupWindow` behind `handle_inbound_message` and the mailboxes, and the
connections between them.  A connection carries frames in order; it may break
at any point, and then loses what it carries in both directions.
-/
import UltraNet.DedupWindow
import UltraNet.SenderNode

namespace UltraNet

/-- `taken` counts the frames that were read from a connection, and `acks` is
what the connection carries back.  `sent` is a ghost: the frame that each
message id was used for. -/
structure PairState where
  sender : SenderState
  receiver : DedupRun
  mailbox : List Envelope
  taken : Nat → Nat
  broken : Nat → Bool
  acks : Nat → List (List UInt8)
  sent : Table UInt64 (List UInt8)

inductive PairSection where
  -- `alloc_msg_id`, then `try_deliver`
  | send (proxy : Nat) (msg : BufferedMessage)
  | sender (sec : SenderSection)
  -- `read_pooled_outbound`
  | readAck (conn : Nat)
  -- `handle_inbound_message`
  | handleInboundMessage (conn : Nat)
  | findLocalProxy (env : Envelope)
  | peekDedup (env : Envelope)
  | pushEnvelope (env : Envelope)
  -- `pull_and_run` and `dispatch_envelope`
  | pullAndRun
  | receiver (sec : DedupSection)
  | breakConnection (conn : Nat)
deriving DecidableEq

inductive PairChoice where
  | go
  | refuse
  | sender (choice : SenderChoice)
  | pick (position : Nat)
  | ended (result : DeliverResult)
  | inbound (conn : Nat)

namespace PairState

/-- The next frame that the connection carries to the receiver. -/
def nextFrame (s : PairState) (conn : Nat) : Option (List UInt8) :=
  if s.broken conn then none
  else ((s.sender.posted.filter (·.1 = conn)).map (·.2))[s.taken conn]?

def liftSender (s : PairState) (effect : Effect SenderState SenderSection) :
    Effect PairState PairSection :=
  ⟨{ s with sender := effect.shared }, effect.next.map .sender,
    effect.spawned.map (List.map .sender)⟩

def liftReceiver (s : PairState) (effect : Effect DedupRun DedupSection) :
    Effect PairState PairSection :=
  ⟨{ s with receiver := effect.shared }, effect.next.map .receiver,
    effect.spawned.map (List.map .receiver)⟩

/-- `remote_accept` may call `try_deliver` again under the same id. -/
def send (s : PairState) (i : Nat) (msg : BufferedMessage) :
    Option (Effect PairState PairSection) :=
  (s.sender.proxies[i]?).bind fun proxy =>
    if (s.sent.lookup msg.msgId).all (· = proxy.packRouted msg) then
      some (.goto
        { s with sent := s.sent.insert msg.msgId (proxy.packRouted msg) }
        [.sender (.tryDeliver i msg)])
    else none

/-- The sections of `handle_inbound_message`; `inboundId` is the id that the
receiver gave to the connection when it accepted it. -/
def inbound (inboundId : Nat → UInt64) (s : PairState) :
    PairSection → PairChoice → Option (Effect PairState PairSection)
  | .handleInboundMessage conn, choice =>
      (s.nextFrame conn).map fun frame =>
        let next := { s with
          taken := Function.update s.taken conn (s.taken conn + 1) }
        -- Refused: `m_hold_routed`, or a connection from before the hold.
        match unpackRouted frame, choice with
        | some m, .go =>
            .goto next
              [.findLocalProxy ⟨m.msgId, m.senderNodeId, inboundId conn⟩]
        | _, _ => .done next
  | .findLocalProxy env, .go => some (.goto s [.peekDedup env])
  | .findLocalProxy _, .refuse => some (.done s)
  | .peekDedup env, _ =>
      let skipped := { s with receiver :=
        { s.receiver with wireSkips := s.receiver.wireSkips + 1 } }
      match s.receiver.dedup.peekDedup env.key with
      | .completed =>
          some (.goto skipped
            [.receiver (.postRemoteAck env.replyConnId env.correlationId)])
      | .inProgress => some (.done skipped)
      | .absent => some (.goto s [.pushEnvelope env])
  | .pushEnvelope env, .go =>
      some (.done { s with mailbox := s.mailbox ++ [env] })
  -- The actor is shutting down.
  | .pushEnvelope _, .refuse => some (.done s)
  | _, _ => none

/-- `post_remote_ack`; it is refused without a transport, a thread pool or an
inbound connection of that id. -/
def postRemoteAck (inboundId : Nat → UInt64) (s : PairState)
    (replyConnId msgId : UInt64) :
    PairChoice → Option (Effect PairState PairSection)
  | .refuse => some (.done s)
  | .inbound conn =>
      if replyConnId = 0 then some (.done s)
      else if inboundId conn ≠ replyConnId then none
      else if s.broken conn then some (.done s)
      else
        some (.done { s with
          acks := Function.update s.acks conn
            (s.acks conn ++ [packAck msgId]) })
  | _ => none

/-- `pull_and_run`; one list stands for the mailboxes of all actors. -/
def pullAndRun (s : PairState) :
    PairChoice → Option (Effect PairState PairSection)
  | .pick position =>
      (s.mailbox[position]?).map fun env =>
        .goto { s with mailbox := s.mailbox.eraseIdx position }
          [.receiver (.dispatchEnvelope env)]
  | _ => none

/-- `read_pooled_outbound`. -/
def readAck (s : PairState) (conn : Nat) :
    Option (Effect PairState PairSection) :=
  match s.acks conn with
  | [] => none
  | bytes :: rest =>
      let next := { s with acks := Function.update s.acks conn rest }
      match unpackAck bytes with
      | none => some (.done next)
      | some msgId => some (.goto next [.sender (.noteAckLog msgId)])

def exec (cap : Nat) (inboundId : Nat → UInt64) (s : PairState)
    (sec : PairSection) (choice : PairChoice) :
    Option (Effect PairState PairSection) :=
  match sec, choice with
  | .send i msg, _ => s.send i msg
  | .sender sec, .sender choice => (s.sender.exec sec choice).map s.liftSender
  | .readAck conn, _ => s.readAck conn
  | .handleInboundMessage .., _ | .findLocalProxy .., _ | .peekDedup .., _
  | .pushEnvelope .., _ => s.inbound inboundId sec choice
  | .pullAndRun, _ => s.pullAndRun choice
  | .receiver (.postRemoteAck replyConnId msgId), choice =>
      s.postRemoteAck inboundId replyConnId msgId choice
  | .receiver sec, .ended result =>
      (DedupRun.exec cap s.receiver sec result).map s.liftReceiver
  | .breakConnection conn, _ =>
      some (.done { s with
        broken := Function.update s.broken conn true
        acks := Function.update s.acks conn [] })
  | _, _ => none

def init : PairState :=
  ⟨.init none [], .init, [], fun _ => 0, fun _ => false, fun _ => [], ∅⟩

end PairState

/-- What may happen at any time: sends, dials, timers, reads, breaks. -/
def pairEntry : PairSection → Bool
  | .send .. | .readAck _ | .handleInboundMessage _ | .pullAndRun
  | .breakConnection _ => true
  | .sender (.newProxy ..) | .sender (.connectCheck _)
  | .sender (.notifyDead _) | .sender .timeoutCollect => true
  | _ => false

def pairProgram (cap : Nat) (inboundId : Nat → UInt64) :
    Program PairState PairSection PairChoice where
  entry _ sec := pairEntry sec
  exec := PairState.exec cap inboundId

end UltraNet
