/-
`handle_inbound_message` for any payload and any state of the actor system, and
the loop of `handle_connection` around it.  An exception ends the coroutine of
the connection before its cleanup; a read past the end of the payload is
undefined.  Other tasks may change the system between two frames.
-/
import UltraNet.GossipBytes
import UltraNet.LoggedReceiver
import UltraNet.PooledLinks
import UltraNet.WireFormats

namespace UltraNet

/-- A row of `m_registry`; the proxy of a remote actor has no local one. -/
structure RegisteredProxy where
  uri : ActorUri
  localActor : Option Nat

/-- `message_envelope`. -/
structure ActorEnvelope where
  msgType : UInt64
  correlationId : UInt64
  senderNodeId : UInt64
  flags : UInt8
  replyConnId : UInt64
  payload : List UInt8
deriving DecidableEq

/-- What `handle_inbound_message` reads and writes.  `networking` says that the
transport and the thread pool exist; `mailboxes` holds what was pushed, and
`acks` the calls of `post_inbound`. -/
structure ActorSystem where
  cluster : Option Cluster
  holdRouted : Bool
  routedMinEpoch : UInt64
  receiver : Option ReceiverLog
  holdHandler : Bool
  dedupCap : Nat
  dedup : DedupTable
  registry : Table (List UInt8) (Option RegisteredProxy)
  shuttingDown : Nat → Bool
  mailboxes : List (Nat × ActorEnvelope)
  remoteActors : Table (List UInt8) (UInt64 × ActorUri)
  networking : Bool
  acks : List (UInt64 × UInt64)

/-- What the environment answers to a handler: the time, whether the open group
is due, and whether its records are written and synced. -/
structure InboundChoice where
  now : UInt64
  aged : Bool
  synced : Bool

structure InboundConn where
  id : UInt64
  acceptEpoch : UInt64

inductive HandlerOutcome where
  | returned
  | threw
  -- a read past the end of the payload
  | readsOutside
deriving DecidableEq

namespace ActorSystem

def findLocalProxy (s : ActorSystem) (uri : ActorUri) : Option RegisteredProxy :=
  match s.registry.lookup uri.toBytes with
  | some proxy => proxy
  | none =>
      (s.registry.entries.filterMap (·.2)).find? fun proxy =>
        proxy.uri.type = uri.type ∧ proxy.uri.name = uri.name

/-- The local actor of a URI. -/
def findLocal (s : ActorSystem) (uri : ActorUri) : Option Nat :=
  (s.findLocalProxy uri).bind (·.localActor)

/-- `push_envelope`; none when the actor is shutting down.  A full mailbox is
waited for. -/
def pushEnvelope (s : ActorSystem) (actor : Nat) (env : ActorEnvelope) :
    Option ActorSystem :=
  if s.shuttingDown actor then none
  else some { s with mailboxes := s.mailboxes ++ [(actor, env)] }

def postRemoteAck (s : ActorSystem) (replyConnId msgId : UInt64) : ActorSystem :=
  if replyConnId = 0 ∨ !s.networking then s
  else { s with acks := s.acks ++ [(replyConnId, msgId)] }

def routedEnvelope (m : Routed) (replyConnId : UInt64) : ActorEnvelope :=
  ⟨m.msgHash, m.msgId, m.senderNodeId, m.flags, replyConnId, m.payload⟩

/-- `push_routed_frame`; none when it returns false. -/
def pushRoutedFrame (s : ActorSystem) (frame : List UInt8) (replyConn : UInt64) :
    Option ActorSystem := do
  let m ← unpackRouted frame
  let actor ← s.findLocal m.uri
  s.pushEnvelope actor (routedEnvelope m replyConn)

def tryEnqueueReceiver (s : ActorSystem) (key : RecvKey) : ActorSystem :=
  match s.receiver with
  | none => s
  | some log =>
      if s.holdHandler then s
      else if log.executed key || !log.persisted key then s
      else if log.enqueued key then s
      else
        match s.dedup.dedupRoomFor s.dedupCap key with
        | .full => s
        | .already => { s with receiver := some (log.setEnqueued key true) }
        | .push =>
            if log.copyFrame key = [] then s
            else
              let marked := log.setEnqueued key true
              let s := { s with receiver := some marked }
              match s.pushRoutedFrame (log.copyFrame key) (marked.replyConn key) with
              | some pushed => pushed
              | none => { s with receiver := some (marked.setEnqueued key false) }

def pumpReceiverWaiting (s : ActorSystem) : ActorSystem :=
  match s.receiver with
  | none => s
  | some log =>
      if s.holdHandler then s else log.waitingKeys.foldl tryEnqueueReceiver s

/-- `flush_ready`. -/
def flushReady (log : ReceiverLog) (choice : InboundChoice) :
    ReceiverLog × FlushResult :=
  match log.takeBatch choice.aged with
  | none => (log, ⟨true, [], []⟩)
  | some (batch, log) =>
      if log.opened && choice.synced then log.commitIndex batch
      else (log.rollback batch, ⟨false, [], []⟩)

def applyReceiverFlush (s : ActorSystem) (result : FlushResult) : ActorSystem :=
  if !result.ok then s
  else
    let s := if s.holdHandler then s else result.dataKeys.foldl tryEnqueueReceiver s
    let s := result.acks.foldl
      (fun s ack => s.postRemoteAck ack.replyConnId ack.msgId) s
    s.pumpReceiverWaiting

/-- A record was buffered in the log, and what is due is written. -/
def flushLog (s : ActorSystem) (choice : InboundChoice) (log : ReceiverLog) :
    ActorSystem :=
  let (log, result) := flushReady log choice
  { s with receiver := some log }.applyReceiverFlush result

def acceptLoggedRouted (s : ActorSystem) (choice : InboundChoice) (log : ReceiverLog)
    (frame : List UInt8) (key : RecvKey) (replyConn : UInt64) : ActorSystem :=
  if log.executed key then
    if log.handledDurable key then s.postRemoteAck replyConn key.msgId
    else s.flushLog choice (log.bufferHandled key replyConn)
  else if log.hasData key then
    if !s.holdHandler && log.persisted key && !log.enqueued key then
      s.tryEnqueueReceiver key
    else s
  else s.flushLog choice (log.bufferData key frame replyConn).1

/-- The branch of 0x04. -/
def handleRouted (s : ActorSystem) (choice : InboundChoice)
    (inbound : Option InboundConn) (payload : List UInt8) : ActorSystem :=
  if s.holdRouted then s
  else if inbound.any fun conn => conn.acceptEpoch < s.routedMinEpoch then s
  else
    match unpackRouted payload with
    | none => s
    | some m =>
        let replyConn := (inbound.map (·.id)).getD 0
        match s.receiver with
        | some log => s.acceptLoggedRouted choice log payload m.key replyConn
        | none =>
            match s.findLocal m.uri with
            | none => s
            | some actor =>
                match s.dedup.peekDedup m.key with
                | .completed =>
                    if inbound.isSome && s.networking then
                      s.postRemoteAck replyConn m.msgId
                    else s
                | .inProgress => s
                | .absent =>
                    (s.pushEnvelope actor (routedEnvelope m replyConn)).getD s

/-- The branch of 0x02. -/
def handleActorMessage (s : ActorSystem) (payload : List UInt8) : ActorSystem :=
  match unpackActorMessage payload with
  | none => s
  | some m =>
      match s.findLocal m.uri with
      | none => s
      | some actor => (s.pushEnvelope actor ⟨m.msgType, 0, 0, 0, 0,
          m.payload⟩).getD s

/-- The branch of 0x03. -/
def handleActorLocation (s : ActorSystem) (payload : List UInt8) :
    ActorSystem × HandlerOutcome :=
  match unpackActorLocation payload with
  | none => (s, .returned)
  | some (uri, ttl) =>
      if 1 < ttl then
        match announcedNode uri with
        | none => (s, .threw)
        | some node =>
            match s.remoteActors.lookup uri.toBytes with
            | none =>
                ({ s with
                  remoteActors := s.remoteActors.insert uri.toBytes (node, uri) },
                  .returned)
            | some _ => (s, .returned)
      else (s, .returned)

def gossipType : UInt8 := 0x01

/-- The branch of 0x01. -/
def handleGossip (s : ActorSystem) (choice : InboundChoice) (data : List UInt8) :
    ActorSystem × HandlerOutcome :=
  match s.cluster with
  | none => (s, .returned)
  | some cluster =>
      if data = [] then (s, .returned)
      else
        let applied := cluster.applyGossipBytes data choice.now
        ({ s with cluster := some applied.cluster },
          if applied.leftMessage then .readsOutside else .returned)

def handleInboundMessage (s : ActorSystem) (choice : InboundChoice)
    (inbound : Option InboundConn) (payload : List UInt8) :
    ActorSystem × HandlerOutcome :=
  match payload with
  | [] => (s, .returned)
  | type :: data =>
      if type = gossipType then s.handleGossip choice data
      else if type = routedType then
        (s.handleRouted choice inbound payload, .returned)
      else if type = replyType ∨ type = ackType then (s, .returned)
      else if type = actorMessageType then (s.handleActorMessage payload, .returned)
      else if type = actorLocationType then s.handleActorLocation payload
      else (s, .returned)

/-- The frame announces an actor, and its node is no number. -/
def NoNodeNumber (payload : List UInt8) : Prop :=
  ∃ uri ttl, unpackActorLocation payload = some (uri, ttl) ∧ 1 < ttl ∧
    announcedNode uri = none

/-- The frame is a gossip message with bytes missing, and there is a cluster. -/
def CutGossip (s : ActorSystem) (payload : List UInt8) : Prop :=
  s.cluster.isSome = true ∧ ∃ data, payload = gossipType :: data ∧ data ≠ [] ∧
    ¬ Gossip.Complete data

theorem not_noNodeNumber_nil : ¬ NoNodeNumber [] := by
  rintro ⟨uri, ttl, hfound, -⟩
  cases hfound

theorem noNodeNumber_type {type : UInt8} {data : List UInt8}
    (hnumber : NoNodeNumber (type :: data)) : type = actorLocationType := by
  obtain ⟨uri, ttl, hfound, -⟩ := hnumber
  by_contra htype
  simp [unpackActorLocation, Reader.readU8, htype] at hfound

variable (s : ActorSystem)

theorem handleActorLocation_returned_iff (payload : List UInt8) :
    (s.handleActorLocation payload).2 = .returned ↔ ¬ NoNodeNumber payload := by
  unfold handleActorLocation NoNodeNumber
  cases hfound : unpackActorLocation payload with
  | none => simp
  | some found =>
      obtain ⟨uri, ttl⟩ := found
      simp only [Option.some.injEq, Prod.mk.injEq]
      by_cases httl : 1 < ttl
      · simp only [if_pos httl]
        cases hnode : announcedNode uri with
        | none =>
            refine iff_of_false (by simp) (not_not.mpr ⟨uri, ttl, ⟨rfl, rfl⟩, httl, hnode⟩)
        | some node =>
            refine iff_of_true ?_ ?_
            · cases s.remoteActors.lookup uri.toBytes with
              | none => rfl
              | some known => rfl
            · rintro ⟨other, _, ⟨rfl, -⟩, -, hnone⟩
              rw [hnode] at hnone
              cases hnone
      · refine iff_of_true (by rw [if_neg httl]) ?_
        rintro ⟨_, other, ⟨-, rfl⟩, hlarge, -⟩
        exact httl hlarge

theorem handleGossip_returned_iff (choice : InboundChoice) (data : List UInt8) :
    (s.handleGossip choice data).2 = .returned ↔
      ¬ s.CutGossip (gossipType :: data) := by
  unfold handleGossip CutGossip
  cases hcluster : s.cluster with
  | none => simp
  | some cluster =>
      simp only [Option.isSome_some, true_and, List.cons.injEq]
      by_cases hempty : data = []
      · simp [hempty]
      · have hinside := cluster.leftMessage_eq_false_iff data choice.now
        rw [if_neg hempty]
        have hcut : (∃ other, data = other ∧ other ≠ [] ∧ ¬ Gossip.Complete other) ↔
            ¬ Gossip.Complete data :=
          ⟨fun ⟨_, hsame, _, hnot⟩ => hsame ▸ hnot,
            fun hnot => ⟨data, rfl, hempty, hnot⟩⟩
        rw [hcut, not_not, ← hinside]
        cases (cluster.applyGossipBytes data choice.now).leftMessage with
        | true => simp
        | false => simp

/-- The handler returns for all frames but these two kinds. -/
theorem handleInboundMessage_returned_iff (choice : InboundChoice)
    (inbound : Option InboundConn) (payload : List UInt8) :
    (s.handleInboundMessage choice inbound payload).2 = .returned ↔
      ¬ NoNodeNumber payload ∧ ¬ s.CutGossip payload := by
  cases payload with
  | nil =>
      refine iff_of_true rfl ⟨not_noNodeNumber_nil, ?_⟩
      rintro ⟨-, data, hdata, -⟩
      cases hdata
  | cons type data =>
      have hcut : s.CutGossip (type :: data) → type = gossipType := by
        rintro ⟨-, other, hdata, -⟩
        exact (List.cons.inj hdata).1
      have hlocation : NoNodeNumber (type :: data) → type = actorLocationType :=
        noNodeNumber_type
      unfold handleInboundMessage
      simp only
      by_cases hgossip : type = gossipType
      · rw [if_pos hgossip, hgossip, handleGossip_returned_iff]
        have hnumber : ¬ NoNodeNumber (gossipType :: data) := by
          intro hnumber
          exact absurd (noNodeNumber_type hnumber) (by decide)
        simp [hnumber]
      · have hwhole : ¬ s.CutGossip (type :: data) := mt hcut hgossip
        rw [if_neg hgossip]
        by_cases hlocated : type = actorLocationType
        · subst hlocated
          rw [if_neg (by decide), if_neg (by decide), if_neg (by decide), if_pos rfl,
            handleActorLocation_returned_iff]
          simp [hwhole]
        · refine iff_of_true ?_ ⟨mt hlocation hlocated, hwhole⟩
          split
          · rfl
          · split
            · rfl
            · split
              · rfl
              · rfl

end ActorSystem

/-- What has become of the coroutine of a connection. -/
inductive ConnectionPhase where
  -- in `read_frame`
  | reading
  -- after `close_now` and the removal from `m_inbounds`
  | cleaned
  -- ended by an exception or by undefined behaviour
  | lost
deriving DecidableEq

/-- The connection of one `handle_connection`, with the system and the map of
the transport; `object` tells it from the other connections in the map. -/
structure Connection where
  system : ActorSystem
  inbounds : Table UInt64 Nat
  conn : InboundConn
  object : Nat
  isOpen : Bool
  phase : ConnectionPhase

inductive ConnectionInput where
  -- `read_frame` returns a frame
  | frame (payload : List UInt8) (choice : InboundChoice)
  | readFailed
  -- other tasks: `drop_inbound_connections`, another accepted connection, and
  -- any change of the system
  | dropped
  | accepted (id : UInt64) (object : Nat)
  | changed (system : ActorSystem)

namespace Connection

/-- What follows the loop. -/
def cleanup (c : Connection) : Connection :=
  { c with
    isOpen := false
    inbounds :=
      if c.inbounds.lookup c.conn.id = some c.object then
        c.inbounds.erase c.conn.id
      else c.inbounds
    phase := .cleaned }

def handle (c : Connection) (choice : InboundChoice) (payload : List UInt8) :
    Connection :=
  let (system, outcome) :=
    c.system.handleInboundMessage choice (some c.conn) payload
  let c := { c with system := system }
  match outcome with
  | .returned => if c.isOpen then c else c.cleanup
  | .threw | .readsOutside => { c with phase := .lost }

def step (c : Connection) : ConnectionInput → Option Connection
  | .frame payload choice =>
      if c.phase = .reading then some (c.handle choice payload) else none
  | .readFailed => if c.phase = .reading then some c.cleanup else none
  | .dropped =>
      some { c with
        isOpen := c.isOpen && c.inbounds.lookup c.conn.id ≠ some c.object
        inbounds := ∅ }
  | .accepted id object =>
      if id ≠ c.conn.id ∧ object ≠ c.object then
        some { c with inbounds := c.inbounds.insert id object }
      else none
  | .changed system => some { c with system := system }

/-- The connection is accepted. -/
def machine (system : ActorSystem) (inbounds : Table UInt64 Nat)
    (conn : InboundConn) (object : Nat) : Machine Connection ConnectionInput :=
  ⟨⟨system, inbounds.insert conn.id object, conn, object, true, .reading⟩, step⟩

/-- The loop reads on, or the cleanup has run. -/
def GoesOn (c : Connection) : Prop :=
  c.phase = .reading ∨
    (c.phase = .cleaned ∧ c.isOpen = false ∧
      c.inbounds.lookup c.conn.id ≠ some c.object)

/-- A frame is neither the announcement of an actor on a node that is no number
nor a gossip message with bytes missing. -/
def Harmless (c : Connection) : ConnectionInput → Prop
  | .frame payload _ =>
      ¬ ActorSystem.NoNodeNumber payload ∧ ¬ c.system.CutGossip payload
  | _ => True

variable {c next : Connection}

theorem cleanup_goesOn (c : Connection) : c.cleanup.GoesOn := by
  refine .inr ⟨rfl, rfl, ?_⟩
  unfold cleanup
  simp only
  split
  · rw [Table.lookup_erase, if_pos rfl]
    simp
  · assumption

theorem step_goesOn (hgoes : c.GoesOn) {input : ConnectionInput}
    (hharmless : c.Harmless input) (hstep : c.step input = some next) :
    next.GoesOn := by
  cases input with
  | frame payload choice =>
      obtain ⟨hphase, hnext⟩ := Option.ite_none_right_eq_some.mp hstep
      obtain rfl := Option.some.inj hnext
      have hreturned := (c.system.handleInboundMessage_returned_iff choice
        (some c.conn) payload).mpr hharmless
      unfold handle
      simp only [hreturned]
      split
      · exact .inl hphase
      · exact cleanup_goesOn _
  | readFailed =>
      obtain ⟨-, hnext⟩ := Option.ite_none_right_eq_some.mp hstep
      obtain rfl := Option.some.inj hnext
      exact cleanup_goesOn c
  | dropped =>
      obtain rfl := Option.some.inj hstep
      obtain hreading | ⟨hcleaned, hclosed, -⟩ := hgoes
      · exact .inl hreading
      · exact .inr ⟨hcleaned, by simp [hclosed], by simp⟩
  | accepted id object =>
      obtain ⟨⟨-, hother⟩, hnext⟩ := Option.ite_none_right_eq_some.mp hstep
      obtain rfl := Option.some.inj hnext
      obtain hreading | ⟨hcleaned, hclosed, hgone⟩ := hgoes
      · exact .inl hreading
      · refine .inr ⟨hcleaned, hclosed, ?_⟩
        rw [Table.lookup_insert]
        split
        · simpa using hother
        · exact hgone
  | changed system =>
      obtain rfl := Option.some.inj hstep
      exact hgoes

/-- Any other frame ends the coroutine. -/
theorem step_lost {input : ConnectionInput} (hharmful : ¬ c.Harmless input)
    (hstep : c.step input = some next) :
    next.phase = .lost := by
  cases input with
  | frame payload choice =>
      obtain ⟨hphase, hnext⟩ := Option.ite_none_right_eq_some.mp hstep
      obtain rfl := Option.some.inj hnext
      have hnot := mt (c.system.handleInboundMessage_returned_iff choice
        (some c.conn) payload).mp hharmful
      unfold handle
      cases houtcome : (c.system.handleInboundMessage choice (some c.conn)
          payload).2 with
      | returned => exact absurd houtcome hnot
      | threw => simp only [houtcome]
      | readsOutside => simp only [houtcome]
  | _ => exact absurd trivial hharmful

theorem lost_step (hlost : c.phase = .lost) {input : ConnectionInput}
    (hstep : c.step input = some next) : next.phase = .lost := by
  cases input with
  | frame | readFailed => simp [step, hlost] at hstep
  | accepted =>
      obtain ⟨-, hnext⟩ := Option.ite_none_right_eq_some.mp hstep
      obtain rfl := Option.some.inj hnext
      exact hlost
  | dropped | changed =>
      obtain rfl := Option.some.inj hstep
      exact hlost

end Connection

/-- In every run of a connection, the loop reads on or its cleanup has run
exactly if none of the frames announces an actor on a node that is no number,
and none is a gossip message with bytes missing. -/
theorem inbound_frames_handled (system : ActorSystem) (inbounds : Table UInt64 Nat)
    (conn : InboundConn) (object : Nat) (word : List ConnectionInput)
    {last : Connection}
    (hrun : (Connection.machine system inbounds conn object).run word = some last) :
    last.GoesOn ↔
      (Connection.machine system inbounds conn object).Meets Connection.Harmless
        word := by
  have hsplit := Machine.runFrom_split (Connection.machine
      system inbounds conn object)
    (fun _ _ _ hgoes hharmless hstep => Connection.step_goesOn hgoes hharmless hstep)
    (fun _ _ _ _ hharmful hstep => Connection.step_lost hharmful hstep)
    (fun _ _ _ hlost hstep => Connection.lost_step hlost hstep)
    word (.inl rfl) hrun
  constructor
  · intro hgoes
    by_contra hharmful
    have hlost := hsplit.2 hharmful
    obtain hreading | ⟨hcleaned, -⟩ := hgoes
    · rw [hlost] at hreading
      cases hreading
    · rw [hlost] at hcleaned
      cases hcleaned
  · exact hsplit.1

/-- A system without actors, peers and logs. -/
def ActorSystem.empty : ActorSystem :=
  ⟨none, false, 0, none, false, 16, ∅, ∅, fun _ => false, [], ∅, true, []⟩

/-- `ultra://5/calc/a`, and `ultra://node-1/calculator/math-svc`. -/
def numberedUri : ActorUri := ⟨[0x35], [0x63, 0x61, 0x6C, 0x63], [0x61]⟩

def namedUri : ActorUri :=
  ⟨[0x6E, 0x6F, 0x64, 0x65, 0x2D, 0x31],
    [0x63, 0x61, 0x6C, 0x63, 0x75, 0x6C, 0x61, 0x74, 0x6F, 0x72],
    [0x6D, 0x61, 0x74, 0x68, 0x2D, 0x73, 0x76, 0x63]⟩

theorem inbound_frames_handled_numbered :
    ∃ last, (Connection.machine .empty ∅ ⟨1, 0⟩ 0).run
        [.frame (packActorLocation numberedUri 10) ⟨0, false, false⟩,
          .readFailed] = some last ∧ last.GoesOn := by
  have hunpack : unpackActorLocation (packActorLocation numberedUri 10) =
      some (numberedUri, 10) := by
    decide
  have hnumber : ¬ ActorSystem.NoNodeNumber (packActorLocation numberedUri 10) := by
    rintro ⟨uri, ttl, hfound, -, hnone⟩
    rw [hunpack] at hfound
    obtain rfl := congrArg Prod.fst (Option.some.inj hfound)
    exact absurd hnone (by decide)
  obtain ⟨last, hrun⟩ : ∃ last, (Connection.machine .empty ∅ ⟨1, 0⟩ 0).run
      [.frame (packActorLocation numberedUri 10) ⟨0, false, false⟩,
        .readFailed] = some last := by
    rw [← Option.isSome_iff_exists]
    decide
  refine ⟨last, hrun, (inbound_frames_handled _ _ _ _ _ hrun).mpr ?_⟩
  refine ⟨⟨hnumber, fun hcut => absurd hcut.1 (by decide)⟩, ?_⟩
  cases hstep : (Connection.machine .empty ∅ ⟨1, 0⟩ 0).step
      (Connection.machine .empty ∅ ⟨1, 0⟩ 0).start
      (.frame (packActorLocation numberedUri 10) ⟨0, false, false⟩) with
  | none => trivial
  | some next =>
      refine ⟨trivial, ?_⟩
      cases (Connection.machine .empty ∅ ⟨1, 0⟩ 0).step next .readFailed with
      | none => trivial
      | some after => trivial

/-- A node with a name is announced: `std::stoull` throws, and the connection
stays open and in the map with nobody to read from it. -/
theorem namedNode_losesConnection :
    ∃ last, (Connection.machine .empty ∅ ⟨1, 0⟩ 0).run
        [.frame (packActorLocation namedUri 10) ⟨0, false, false⟩] = some last ∧
      last.isOpen = true ∧ last.inbounds.lookup 1 = some 0 ∧ ¬ last.GoesOn := by
  have hend : ((Connection.machine .empty ∅ ⟨1, 0⟩ 0).run
      [.frame (packActorLocation namedUri 10) ⟨0, false, false⟩]).map
      (fun last => (last.phase, last.isOpen, last.inbounds.lookup 1)) =
        some (.lost, true, some 0) := by
    decide
  obtain ⟨last, hrun, hlast⟩ := Option.map_eq_some_iff.mp hend
  obtain ⟨hlost, hopen, hkept⟩ :
      last.phase = .lost ∧ last.isOpen = true ∧ last.inbounds.lookup 1 = some 0 := by
    simpa using hlast
  refine ⟨last, hrun, hopen, hkept, ?_⟩
  rintro (hreading | ⟨hcleaned, -⟩)
  · rw [hlost] at hreading
    cases hreading
  · rw [hlost] at hcleaned
    cases hcleaned

end UltraNet
