/-
Routed messages end to end: `post_frame` on one node, the byte stream, and
`handle_connection` with `handle_inbound_message` on the other.  Above the
bytes there is a queue of messages, and a receiver that is handed the oldest
one.  `InboundLinks` says what a number that is closed and given out again
does to the bytes; here the reader has a socket of its own.
-/
import UltraNet.FrameStream
import UltraNet.InboundFrames
import UltraNet.WireRoundTrips

namespace UltraNet

/-- A message that survives the wire: only the name of its URI may hold a
slash, an empty payload is refused by `unpack_routed`, and `read_frame` lets
frames of up to `k_default_size` bytes through. -/
structure RoutedMessage where
  routed : Routed
  node : slash ∉ routed.uri.node
  type : slash ∉ routed.uri.type
  payload : routed.payload ≠ []
  fits : (packRouted routed).length ≤ kDefaultSize

namespace RoutedMessage

def frame (m : RoutedMessage) : List UInt8 := packRouted m.routed

theorem length_packRouted (m : Routed) :
    (packRouted m).length = 34 + m.uri.toBytes.length + m.payload.length := by
  simp only [packRouted, writeString, List.length_append, List.length_cons, length_writeU32,
    length_writeU64]
  omega

theorem legal (m : RoutedMessage) : LegalLength m.frame := by
  refine ⟨?_, m.fits⟩
  rw [frame, length_packRouted]
  omega

theorem unpackRouted_frame (m : RoutedMessage) : unpackRouted m.frame = some m.routed := by
  have hfits := m.fits
  rw [length_packRouted, kDefaultSize] at hfits
  rw [frame, unpackRouted_pack (by omega) (by omega) m.payload,
    parseUriFromWire_toBytes m.node m.type]

end RoutedMessage

/-- The branch of 0x04 for a message, not for its bytes. -/
def ActorSystem.receiveRouted (s : ActorSystem) (choice : InboundChoice) (conn : InboundConn)
    (m : Routed) : ActorSystem :=
  if s.holdRouted then s
  else if conn.acceptEpoch < s.routedMinEpoch then s
  else
    match s.receiver with
    | some log => s.acceptLoggedRouted choice log (packRouted m) m.key conn.id
    | none =>
        match s.findLocal m.uri with
        | none => s
        | some actor =>
            match s.dedup.peekDedup m.key with
            | .completed => if s.networking then s.postRemoteAck conn.id m.msgId else s
            | .inProgress => s
            | .absent =>
                (s.pushEnvelope actor (ActorSystem.routedEnvelope m conn.id)).getD s

theorem ActorSystem.handleInboundMessage_frame (s : ActorSystem) (choice : InboundChoice)
    (conn : InboundConn) (m : RoutedMessage) :
    s.handleInboundMessage choice (some conn) m.frame =
      (s.receiveRouted choice conn m.routed, .returned) := by
  have hrouted : s.handleInboundMessage choice (some conn) m.frame =
      (s.handleRouted choice (some conn) m.frame, .returned) := rfl
  rw [hrouted, handleRouted, receiveRouted]
  simp only [m.unpackRouted_frame, Option.any_some, Option.map_some, Option.getD_some,
    Option.isSome_some, Bool.true_and, decide_eq_true_eq]
  rfl

/-- A turn of the loop of `handle_connection` for a message. -/
def Connection.receive (c : Connection) (choice : InboundChoice) (m : Routed) : Connection :=
  let received := { c with system := c.system.receiveRouted choice c.conn m }
  if c.isOpen then received else received.cleanup

theorem Connection.handle_frame (c : Connection) (choice : InboundChoice) (m : RoutedMessage) :
    c.handle choice m.frame = c.receive choice m.routed := by
  rw [handle, c.system.handleInboundMessage_frame]
  rfl

/-- What happens to the receiver besides the frames. -/
def Connection.outside (c : Connection) : ConnectionInput → Option Connection
  | .frame _ _ => none
  | input => c.step input

/-- The two ends and what lies between. -/
structure RoutedLink where
  stream : FrameStream
  receiver : Connection

inductive RoutedAction where
  | post (m : RoutedMessage)
  | writer (action : WriterAction)
  | read (count : Nat)
  -- the handler is called with the frame that `read_frame` returned
  | handle (choice : InboundChoice)
  | outside (input : ConnectionInput)

namespace RoutedLink

def step (l : RoutedLink) : RoutedAction → Option RoutedLink
  | .post m => some { l with stream := l.stream.postFrame m.frame }
  | .writer action => (l.stream.writer action).map fun stream => { l with stream := stream }
  | .read count =>
      if l.receiver.phase = .reading then
        (l.stream.read count).map fun stream => { l with stream := stream }
      else none
  | .handle choice =>
      if l.receiver.phase = .reading then
        l.stream.takeFrame.map fun (payload, stream) =>
          ⟨stream, l.receiver.handle choice payload⟩
      else none
  | .outside input => (l.receiver.outside input).map fun receiver => { l with receiver := receiver }

def machine (receiver : Connection) : Machine RoutedLink RoutedAction :=
  ⟨⟨.idle, receiver⟩, step⟩

end RoutedLink

/-- The same link above the bytes.  `accepted` and `handled` are its history. -/
structure MessageChannel where
  queue : List RoutedMessage
  sendable : Bool
  receiver : Connection
  accepted : List RoutedMessage
  handled : List RoutedMessage

inductive ChannelAction where
  | send (m : RoutedMessage)
  -- nothing that is seen from above
  | pass
  -- the connection takes no more messages
  | breakOff
  | receive (choice : InboundChoice)
  | outside (input : ConnectionInput)

namespace MessageChannel

def step (c : MessageChannel) : ChannelAction → Option MessageChannel
  | .send m =>
      if c.sendable then
        some { c with queue := c.queue ++ [m], accepted := c.accepted ++ [m] }
      else some c
  | .pass => some c
  | .breakOff => some { c with sendable := false }
  | .receive choice =>
      if c.receiver.phase = .reading then
        match c.queue with
        | [] => none
        | m :: rest =>
            some { c with
              queue := rest
              receiver := c.receiver.receive choice m.routed
              handled := c.handled ++ [m] }
      else none
  | .outside input => (c.receiver.outside input).map fun receiver => { c with receiver := receiver }

def machine (receiver : Connection) : Machine MessageChannel ChannelAction :=
  ⟨⟨[], true, receiver, [], []⟩, step⟩

/-- The receiver has got the first of the messages, in order. -/
def InOrder (c : MessageChannel) : Prop := c.accepted = c.handled ++ c.queue

theorem InOrder.step {c next : MessageChannel} (hc : c.InOrder) {action : ChannelAction}
    (hstep : c.step action = some next) : next.InOrder := by
  unfold InOrder at *
  cases action with
  | send m =>
      simp only [MessageChannel.step] at hstep
      split at hstep
      · obtain rfl := Option.some.inj hstep
        simp only [hc, List.append_assoc]
      · obtain rfl := Option.some.inj hstep
        exact hc
  | pass | breakOff =>
      obtain rfl := Option.some.inj hstep
      exact hc
  | receive choice =>
      obtain ⟨-, hnext⟩ := Option.ite_none_right_eq_some.mp hstep
      cases hqueue : c.queue with
      | nil => simp [hqueue] at hnext
      | cons m rest =>
          simp only [hqueue] at hnext
          obtain rfl := Option.some.inj hnext
          simp only [hc, hqueue, List.append_assoc, List.cons_append, List.nil_append]
  | outside input =>
      obtain ⟨receiver, -, rfl⟩ := Option.map_eq_some_iff.mp hstep
      exact hc

end MessageChannel

/-- What a step of the link is above the bytes. -/
def RoutedAction.channel : RoutedAction → ChannelAction
  | .post m => .send m
  | .writer .markDead => .breakOff
  | .writer .writeFails => .breakOff
  | .writer _ => .pass
  | .read _ => .pass
  | .handle choice => .receive choice
  | .outside input => .outside input

namespace RoutedLink

/-- The link is where the channel is: its bytes are those of the queue. -/
structure Shows (l : RoutedLink) (c : MessageChannel) : Prop where
  carries : l.stream.Carries (c.queue.map RoutedMessage.frame)
  sendable : c.sendable = l.stream.valid
  receiver : c.receiver = l.receiver

variable {l next : RoutedLink} {c : MessageChannel}

theorem Shows.post (hl : l.Shows c) (m : RoutedMessage) :
    ∃ after, c.step (.send m) = some after ∧
      RoutedLink.Shows { l with stream := l.stream.postFrame m.frame } after := by
  have hcarries := hl.carries.postFrame m.legal
  have hsendable := hl.sendable
  simp only [MessageChannel.step]
  cases hvalid : l.stream.valid with
  | true =>
      rw [hvalid] at hsendable
      rw [hvalid, if_pos rfl] at hcarries
      rw [hsendable, if_pos rfl]
      refine ⟨_, rfl, ?_, ?_, hl.receiver⟩
      · rw [List.map_append]
        exact hcarries
      · rw [FrameStream.postFrame, if_pos hvalid]
        exact hvalid.symm
  | false =>
      rw [hvalid] at hsendable
      rw [hvalid, if_neg Bool.false_ne_true] at hcarries
      rw [hsendable, if_neg Bool.false_ne_true]
      refine ⟨_, rfl, hcarries, ?_, hl.receiver⟩
      rw [FrameStream.postFrame, if_neg (hvalid ▸ Bool.false_ne_true), hvalid]
      exact hsendable

theorem Shows.writer (hl : l.Shows c) {action : WriterAction} {stream : FrameStream}
    (hstep : l.stream.writer action = some stream) :
    ∃ after, c.step (RoutedAction.writer action).channel = some after ∧
      RoutedLink.Shows { l with stream := stream } after := by
  have hcarries := hl.carries.writer hstep
  cases action with
  | markDead =>
      obtain rfl := Option.some.inj hstep
      exact ⟨_, rfl, hcarries, rfl, hl.receiver⟩
  | takeBatch =>
      refine ⟨_, rfl, hcarries, ?_, hl.receiver⟩
      obtain ⟨-, hnext⟩ := Option.ite_none_right_eq_some.mp hstep
      split at hnext
      · obtain rfl := Option.some.inj hnext
        exact hl.sendable
      · obtain rfl := Option.some.inj hnext
        exact hl.sendable
  | write count =>
      refine ⟨_, rfl, hcarries, ?_, hl.receiver⟩
      obtain ⟨-, hnext⟩ := Option.ite_none_right_eq_some.mp hstep
      obtain rfl := Option.some.inj hnext
      exact hl.sendable
  | writeFails =>
      refine ⟨_, rfl, hcarries, ?_, hl.receiver⟩
      obtain ⟨-, hnext⟩ := Option.ite_none_left_eq_some.mp hstep
      obtain rfl := Option.some.inj hnext
      rfl

theorem Shows.read (hl : l.Shows c) {count : Nat} {stream : FrameStream}
    (hstep : l.stream.read count = some stream) :
    RoutedLink.Shows { l with stream := stream } c := by
  refine ⟨hl.carries.read hstep, ?_, hl.receiver⟩
  rw [hl.sendable, FrameStream.read_valid hstep]

/-- The handler is called with the frame of the oldest message, and what it
does is what the message asks for. -/
theorem Shows.handle (hl : l.Shows c) (choice : InboundChoice) {payload : List UInt8}
    {stream : FrameStream} (hreading : l.receiver.phase = .reading)
    (htake : l.stream.takeFrame = some (payload, stream)) :
    ∃ after, c.step (.receive choice) = some after ∧
      RoutedLink.Shows ⟨stream, l.receiver.handle choice payload⟩ after := by
  obtain ⟨rest, hqueue, hcarries⟩ := hl.carries.takeFrame htake
  obtain ⟨m, queue, hcons, hpayload, hrest⟩ := List.map_eq_cons_iff.mp hqueue
  simp only [MessageChannel.step, hl.receiver, hreading, if_true, hcons]
  refine ⟨_, rfl, ?_, ?_, ?_⟩
  · rw [hrest]
    exact hcarries
  · rw [hl.sendable, FrameStream.takeFrame_valid htake]
  · rw [← hpayload, Connection.handle_frame]

theorem Shows.outside (hl : l.Shows c) {input : ConnectionInput} {receiver : Connection}
    (hstep : l.receiver.outside input = some receiver) :
    ∃ after, c.step (.outside input) = some after ∧
      RoutedLink.Shows { l with receiver := receiver } after := by
  simp only [MessageChannel.step, hl.receiver, hstep, Option.map_some]
  exact ⟨_, rfl, hl.carries, hl.sendable, rfl⟩

/-- Each step of the link is one of the channel. -/
theorem Shows.step (hl : l.Shows c) {action : RoutedAction} (hstep : l.step action = some next) :
    ∃ after, c.step action.channel = some after ∧ next.Shows after := by
  cases action with
  | post m =>
      obtain rfl := Option.some.inj hstep
      exact hl.post m
  | writer action =>
      obtain ⟨stream, hwriter, rfl⟩ := Option.map_eq_some_iff.mp hstep
      exact hl.writer hwriter
  | read count =>
      obtain ⟨-, hnext⟩ := Option.ite_none_right_eq_some.mp hstep
      obtain ⟨stream, hread, rfl⟩ := Option.map_eq_some_iff.mp hnext
      exact ⟨c, rfl, hl.read hread⟩
  | handle choice =>
      obtain ⟨hreading, hnext⟩ := Option.ite_none_right_eq_some.mp hstep
      obtain ⟨⟨payload, stream⟩, htake, rfl⟩ := Option.map_eq_some_iff.mp hnext
      exact hl.handle choice hreading htake
  | outside input =>
      obtain ⟨receiver, houtside, rfl⟩ := Option.map_eq_some_iff.mp hstep
      exact hl.outside houtside

theorem runFrom_shows (receiver : Connection) (word : List RoutedAction) {last : RoutedLink}
    (hl : l.Shows c) (hrun : (machine receiver).runFrom l word = some last) :
    ∃ final, (MessageChannel.machine receiver).runFrom c (word.map RoutedAction.channel) =
      some final ∧ last.Shows final :=
  Machine.runFrom_simulates RoutedAction.channel
    (fun _ _ _ _ hshows hstep => hshows.step hstep) word hl hrun

/-- Nobody has given up the connection. -/
def Connected (l : RoutedLink) : Prop :=
  l.stream.valid = true ∧ l.receiver.phase = .reading ∧ l.receiver.isOpen = true

theorem Connected.receive {conn : Connection} (hreading : conn.phase = .reading)
    (hopen : conn.isOpen = true) (choice : InboundChoice) (m : Routed) :
    (conn.receive choice m).phase = .reading ∧ (conn.receive choice m).isOpen = true := by
  rw [Connection.receive, if_pos hopen]
  exact ⟨hreading, hopen⟩

/-- A connected link with a message under way can take a step that brings it
nearer to its handler. -/
theorem Shows.nearer (hl : l.Shows c) (hconnected : l.Connected) (hqueue : c.queue ≠ [])
    (choice : InboundChoice) :
    ∃ action next, l.step action = some next ∧ next.Connected ∧
      next.stream.distance < l.stream.distance ∧
      ∀ after, c.step action.channel = some after → after.accepted = c.accepted := by
  obtain ⟨hvalid, hreading, hopen⟩ := hconnected
  have hframes : c.queue.map RoutedMessage.frame ≠ [] := by simpa using hqueue
  obtain ⟨payload, stream, htake, hkept, hnear⟩ | ⟨stream, hread, hkept, hnear⟩ |
      ⟨action, stream, hwriter, hkept, hnear⟩ := hl.carries.progress hvalid hframes
  · refine ⟨.handle choice, ⟨stream, l.receiver.handle choice payload⟩, ?_, ?_, hnear, ?_⟩
    · simp only [RoutedLink.step, hreading, if_true, htake, Option.map_some]
    · obtain ⟨rest, hcons, -⟩ := hl.carries.takeFrame htake
      obtain ⟨m, -, -, rfl, -⟩ := List.map_eq_cons_iff.mp hcons
      have hreceived := Connected.receive hreading hopen choice m.routed
      rw [← Connection.handle_frame] at hreceived
      exact ⟨hkept, hreceived⟩
    · intro after hafter
      obtain ⟨-, hnext⟩ := Option.ite_none_right_eq_some.mp hafter
      obtain ⟨m, rest, hcons⟩ := List.exists_cons_of_ne_nil hqueue
      simp only [hcons] at hnext
      obtain rfl := Option.some.inj hnext
      rfl
  · refine ⟨.read 1, { l with stream := stream }, ?_, ⟨hkept, hreading, hopen⟩, hnear, ?_⟩
    · simp only [RoutedLink.step, hreading, if_true, hread, Option.map_some]
    · intro after hafter
      obtain rfl := Option.some.inj hafter
      rfl
  · refine ⟨.writer action, { l with stream := stream }, ?_, ⟨hkept, hreading, hopen⟩, hnear, ?_⟩
    · simp only [RoutedLink.step, hwriter, Option.map_some]
    · intro after hafter
      cases action with
      | markDead | takeBatch | write | writeFails =>
          obtain rfl := Option.some.inj hafter
          rfl

/-- By induction on the distance, a connected link can deliver everything. -/
theorem Shows.delivers (receiver : Connection) (choice : InboundChoice) (hl : l.Shows c)
    (hconnected : l.Connected) :
    ∃ more final emptied, (machine receiver).runFrom l more = some final ∧
      (MessageChannel.machine receiver).runFrom c (more.map RoutedAction.channel) =
        some emptied ∧
      emptied.receiver = final.receiver ∧ emptied.accepted = c.accepted ∧ emptied.queue = [] := by
  induction hdistance : l.stream.distance using Nat.strong_induction_on generalizing l c with
  | _ distance ih =>
      by_cases hqueue : c.queue = []
      · exact ⟨[], l, c, rfl, rfl, hl.receiver, rfl, hqueue⟩
      · obtain ⟨action, next, hstep, hnext, hnear, hkept⟩ :=
          hl.nearer hconnected hqueue choice
        obtain ⟨after, hafter, hshows⟩ := hl.step hstep
        obtain ⟨more, final, emptied, hfinal, hemptied, hreceiver, haccepted, hnone⟩ :=
          ih _ (hdistance ▸ hnear) hshows hnext rfl
        refine ⟨action :: more, final, emptied, ?_, ?_, hreceiver, ?_, hnone⟩
        · simp only [Machine.runFrom, show (machine receiver).step l action = some next from hstep]
          exact hfinal
        · simp only [List.map_cons, Machine.runFrom,
            show (MessageChannel.machine receiver).step c action.channel = some after from hafter]
          exact hemptied
        · rw [haccepted, hkept after hafter]

end RoutedLink

/-- However the bytes are cut and the steps interleaved, the link is a queue of
messages: what was accepted is what was handled, in order, followed by what is
under way, and the receiver is where the handled messages alone bring it.
While the link is connected, everything accepted can still be handled. -/
theorem routed_delivery (receiver : Connection) (word : List RoutedAction) {last : RoutedLink}
    (hrun : (RoutedLink.machine receiver).run word = some last) :
    ∃ channel, (MessageChannel.machine receiver).run (word.map RoutedAction.channel) =
        some channel ∧
      channel.receiver = last.receiver ∧ channel.sendable = last.stream.valid ∧
      channel.InOrder ∧
      (last.Connected → ∃ more final emptied,
        (RoutedLink.machine receiver).runFrom last more = some final ∧
        (MessageChannel.machine receiver).runFrom channel (more.map RoutedAction.channel) =
          some emptied ∧
        emptied.receiver = final.receiver ∧ emptied.accepted = channel.accepted ∧
        emptied.handled = channel.accepted) := by
  have hstart : (RoutedLink.machine receiver).start.Shows (MessageChannel.machine receiver).start :=
    ⟨FrameStream.idle_carries, rfl, rfl⟩
  obtain ⟨channel, hchannel, hshows⟩ := RoutedLink.runFrom_shows receiver word hstart hrun
  have horder : channel.InOrder := (MessageChannel.machine receiver).run_preserves
    (I := MessageChannel.InOrder) rfl (fun _ _ _ hc hstep => hc.step hstep) _ hchannel
  refine ⟨channel, hchannel, hshows.receiver, hshows.sendable, horder, ?_⟩
  intro hconnected
  obtain ⟨more, final, emptied, hfinal, hemptied, hreceiver, haccepted, hnone⟩ :=
    hshows.delivers receiver ⟨0, false, false⟩ hconnected
  refine ⟨more, final, emptied, hfinal, hemptied, hreceiver, haccepted, ?_⟩
  have hall : emptied.InOrder := (MessageChannel.machine receiver).runFrom_invariant
    (I := MessageChannel.InOrder) (fun _ _ _ hc _ hstep => hc.step hstep) _ horder
    ((MessageChannel.machine receiver).meetsFrom_of_forall (fun _ _ => trivial) _ _) hemptied
  rw [MessageChannel.InOrder, hnone, List.append_nil] at hall
  rw [← hall, haccepted]

/-- A node with one actor, `ultra://5/calc/a`, and a connection to it. -/
def calcReceiver : Connection where
  system := { ActorSystem.empty with
    registry := AList.insert numberedUri.toBytes (some ⟨numberedUri, some 0⟩) ∅ }
  inbounds := AList.insert 1 0 ∅
  conn := ⟨1, 0⟩
  object := 0
  isOpen := true
  phase := .reading

def calcMessage (msgId : UInt64) (data : UInt8) : RoutedMessage where
  routed := ⟨numberedUri, 0, msgId, 7, 9, [data]⟩
  node := show slash ∉ numberedUri.node by decide
  type := show slash ∉ numberedUri.type by decide
  payload := List.cons_ne_nil _ _
  fits := by
    rw [RoutedMessage.length_packRouted]
    simp [kDefaultSize, numberedUri, ActorUri.toBytes, uriScheme]

/-- The second message is posted while the first one is being written, and
both arrive in pieces. -/
def postedWhileWriting : List RoutedAction :=
  [.post (calcMessage 1 3), .writer .takeBatch, .writer (.write 5), .post (calcMessage 2 4),
    .read 3, .read 1, .read 1, .writer (.write 50), .read 50, .handle ⟨0, false, false⟩,
    .writer .takeBatch, .writer (.write 55), .read 4, .read 51, .handle ⟨0, false, false⟩]

theorem routed_delivery_postedWhileWriting :
    ∃ last channel, (RoutedLink.machine calcReceiver).run postedWhileWriting = some last ∧
      last.receiver.system.mailboxes = [(0, ⟨9, 1, 7, 0, 1, [3]⟩), (0, ⟨9, 2, 7, 0, 1, [4]⟩)] ∧
      (MessageChannel.machine calcReceiver).run (postedWhileWriting.map RoutedAction.channel) =
        some channel ∧
      channel.receiver = last.receiver ∧ channel.InOrder := by
  have hend : ((RoutedLink.machine calcReceiver).run postedWhileWriting).map
      (·.receiver.system.mailboxes) =
        some [(0, ⟨9, 1, 7, 0, 1, [3]⟩), (0, ⟨9, 2, 7, 0, 1, [4]⟩)] := by
    decide
  obtain ⟨last, hrun, hmailboxes⟩ := Option.map_eq_some_iff.mp hend
  obtain ⟨channel, hchannel, hreceiver, -, horder, -⟩ := routed_delivery calcReceiver _ hrun
  exact ⟨last, channel, hrun, hmailboxes, hchannel, hreceiver, horder⟩

end UltraNet
