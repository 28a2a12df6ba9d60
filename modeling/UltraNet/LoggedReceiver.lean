/-
The receiving side with a receiver log open: `accept_logged_routed`,
`flush_ready` and `apply_receiver_flush`, `try_enqueue_receiver`,
`pump_receiver_waiting`, `replay_receiver_for` and `dispatch_envelope`.  Every
critical section of the log, of the dedup table and of a mailbox, and every
load of `m_hold_handler`, is one section of the interleaving.
-/
import UltraNet.DedupWindow
import UltraNet.Serialization

namespace UltraNet

def Routed.key (m : Routed) : RecvKey := ⟨m.senderNodeId, m.msgId⟩

/-- `synced` and `acked` are ghosts: the keys whose handled record was written
and fsynced, and the keys `post_remote_ack` was called for. -/
structure LoggedState where
  file : List UInt8
  log : ReceiverLog
  dedup : DedupTable
  mailbox : List Envelope
  holdHandler : Bool
  synced : List RecvKey
  acked : List RecvKey

inductive LoggedSection where
  | setHoldHandler (hold : Bool)
  -- `accept_logged_routed`
  | acceptExecuted (frame : List UInt8) (key : RecvKey) (conn : UInt64)
  | acceptHandled (key : RecvKey) (conn : UInt64)
  | acceptBufferHandled (key : RecvKey) (conn : UInt64)
  | acceptHasData (frame : List UInt8) (key : RecvKey) (conn : UInt64)
  | acceptHold (key : RecvKey)
  | acceptPersisted (key : RecvKey)
  | acceptEnqueued (key : RecvKey)
  | acceptBufferData (frame : List UInt8) (key : RecvKey) (conn : UInt64)
  -- `try_enqueue_receiver`
  | enqueueHold (key : RecvKey)
  | enqueueExecuted (key : RecvKey)
  | enqueuePersisted (key : RecvKey)
  | enqueueEnqueued (key : RecvKey)
  | enqueueRoom (key : RecvKey)
  | enqueueAlready (key : RecvKey)
  | enqueueCopy (key : RecvKey)
  | enqueueSet (key : RecvKey) (frame : List UInt8)
  | enqueueReply (key : RecvKey) (frame : List UInt8)
  -- `push_routed_frame`, and what follows when it returns false
  | pushRoutedFrame (key : RecvKey) (frame : List UInt8) (conn : UInt64)
  | clearEnqueued (key : RecvKey)
  -- `flush_ready` and `apply_receiver_flush`
  | flushTake
  | flushWrite (batch : List PendingRec)
  | flushCommit (batch : List PendingRec)
  | flushRollback (batch : List PendingRec)
  | applyFlush (result : FlushResult)
  | postRemoteAck (key : RecvKey) (conn : UInt64)
  | pumpHold
  | pumpKeys
  -- `replay_receiver_for`
  | replayHold (uri : ActorUri)
  | replayTake (uri : ActorUri)
  -- `dispatch_envelope`
  | popEnvelope
  | deliverUnkeyed (env : Envelope)
  | claimExecuted (env : Envelope)
  | claimHandled (env : Envelope) (executed : Bool)
  | claimDedup (env : Envelope) (executed handled : Bool)
  | deliver (env : Envelope)
  | finishDedup (env : Envelope) (result : DeliverResult)
  | dropKey (env : Envelope)
  | markExecuted (env : Envelope)
  | finishHandled (env : Envelope)
  | finishBufferHandled (env : Envelope)
deriving DecidableEq

/-- What the environment answers to a section. -/
inductive LoggedChoice where
  | go
  | refuse
  | aged
  | wrote (io : IoScript)
  | pick (position : Nat)
  | ended (result : DeliverResult)

/-- The conditions under which `take_for_actor` takes an entry. -/
def takesEntry (uri : ActorUri) (entry : RecvEntry) : Bool :=
  entry.persisted && !entry.executed && !entry.enqueued &&
    !entry.frame.isEmpty &&
    match unpackRouted entry.frame with
    | none => false
    | some m => m.uri.type = uri.type ∧ m.uri.name = uri.name

/-- `take_for_actor`. -/
def takeForActor (log : ReceiverLog) (uri : ActorUri) :
    List (RecvKey × List UInt8) × ReceiverLog :=
  ((log.index.entries.filter fun entry => takesEntry uri entry.2).map
      fun entry => (entry.1, entry.2.frame),
    { log with index := log.index.mapVals fun _ entry =>
        if takesEntry uri entry then { entry with enqueued := true }
        else entry })

namespace LoggedState

def accept (s : LoggedState) :
    LoggedSection → Option (Effect LoggedState LoggedSection)
  | .acceptExecuted frame key conn =>
      if s.log.executed key then some (.goto s [.acceptHandled key conn])
      else some (.goto s [.acceptHasData frame key conn])
  | .acceptHandled key conn =>
      if s.log.handledDurable key then some (.goto s [.postRemoteAck key conn])
      else some (.goto s [.acceptBufferHandled key conn])
  | .acceptBufferHandled key conn =>
      some (.goto { s with log := s.log.bufferHandled key conn } [.flushTake])
  | .acceptHasData frame key conn =>
      if s.log.hasData key then some (.goto s [.acceptHold key])
      else some (.goto s [.acceptBufferData frame key conn])
  | .acceptHold key =>
      if s.holdHandler then some (.done s)
      else some (.goto s [.acceptPersisted key])
  | .acceptPersisted key =>
      if s.log.persisted key then some (.goto s [.acceptEnqueued key])
      else some (.done s)
  | .acceptEnqueued key =>
      if s.log.enqueued key then some (.done s)
      else some (.goto s [.enqueueHold key])
  | .acceptBufferData frame key conn =>
      some (.goto { s with log := (s.log.bufferData key frame conn).1 }
        [.flushTake])
  | _ => none

def enqueue (cap : Nat) (s : LoggedState) :
    LoggedSection → LoggedChoice → Option (Effect LoggedState LoggedSection)
  | .enqueueHold key, _ =>
      if s.holdHandler then some (.done s)
      else some (.goto s [.enqueueExecuted key])
  | .enqueueExecuted key, _ =>
      if s.log.executed key then some (.done s)
      else some (.goto s [.enqueuePersisted key])
  | .enqueuePersisted key, _ =>
      if s.log.persisted key then some (.goto s [.enqueueEnqueued key])
      else some (.done s)
  | .enqueueEnqueued key, _ =>
      if s.log.enqueued key then some (.done s)
      else some (.goto s [.enqueueRoom key])
  | .enqueueRoom key, _ =>
      match DedupTable.dedupRoomFor cap s.dedup key with
      | .full => some (.done s)
      | .already => some (.goto s [.enqueueAlready key])
      | .push => some (.goto s [.enqueueCopy key])
  | .enqueueAlready key, _ =>
      some (.done { s with log := s.log.setEnqueued key true })
  | .enqueueCopy key, _ =>
      if s.log.copyFrame key = [] then some (.done s)
      else some (.goto s [.enqueueSet key (s.log.copyFrame key)])
  | .enqueueSet key frame, _ =>
      some (.goto { s with log := s.log.setEnqueued key true }
        [.enqueueReply key frame])
  | .enqueueReply key frame, _ =>
      some (.goto s [.pushRoutedFrame key frame (s.log.replyConn key)])
  | .pushRoutedFrame key frame conn, choice =>
      -- Refused: no local actor of that name, or it is shutting down.
      match unpackRouted frame, choice with
      | some m, .go =>
          some (.done { s with
            mailbox := s.mailbox ++ [⟨m.msgId, m.senderNodeId, conn⟩] })
      | none, .go | _, .refuse => some (.goto s [.clearEnqueued key])
      | _, _ => none
  | .clearEnqueued key, _ =>
      some (.done { s with log := s.log.setEnqueued key false })
  | _, _ => none

def flush (s : LoggedState) :
    LoggedSection → LoggedChoice → Option (Effect LoggedState LoggedSection)
  | .flushTake, choice =>
      match s.log.takeBatch (match choice with | .aged => true | _ => false) with
      | none => some (.goto s [.pumpHold])
      | some (batch, log) => some (.goto { s with log := log } [.flushWrite batch])
  | .flushWrite batch, .wrote io =>
      let (written, outcome) := s.log.writeBatch batch io
      let file := s.file ++ written
      match outcome with
      | .killed => none
      | .returned false =>
          some (.goto { s with file := file } [.flushRollback batch])
      | .returned true =>
          some (.goto
            { s with
              file := file
              synced := s.synced ++
                (batch.filter (·.type = 2)).map PendingRec.key }
            [.flushCommit batch])
  | .flushCommit batch, _ =>
      let (log, result) := s.log.commitIndex batch
      some (.goto { s with log := log } [.applyFlush result])
  | .flushRollback batch, _ =>
      some (.done { s with log := s.log.rollback batch })
  | .applyFlush result, _ =>
      let acks := result.acks.map fun ack =>
        .postRemoteAck ⟨ack.sender, ack.msgId⟩ ack.replyConnId
      let keys := if s.holdHandler then [] else result.dataKeys.map .enqueueHold
      some (.goto s (keys ++ acks ++ [.pumpHold]))
  | .postRemoteAck key _, _ =>
      some (.done { s with acked := s.acked ++ [key] })
  | .pumpHold, _ =>
      if s.holdHandler then some (.done s) else some (.goto s [.pumpKeys])
  | .pumpKeys, _ => some (.goto s (s.log.waitingKeys.map .enqueueHold))
  | .replayHold uri, _ =>
      if s.holdHandler then some (.done s) else some (.goto s [.replayTake uri])
  | .replayTake uri, _ =>
      let (items, log) := takeForActor s.log uri
      some (.goto { s with log := log }
        (items.map fun item => .pushRoutedFrame item.1 item.2 0))
  | _, _ => none

def dispatch (cap : Nat) (s : LoggedState) :
    LoggedSection → LoggedChoice → Option (Effect LoggedState LoggedSection)
  | .popEnvelope, .pick position =>
      match s.mailbox[position]? with
      | none => none
      | some env =>
          let next := { s with mailbox := s.mailbox.eraseIdx position }
          if env.correlationId = 0 then some (.goto next [.deliverUnkeyed env])
          else some (.goto next [.claimExecuted env])
  | .deliverUnkeyed _, _ => some (.done s)
  | .claimExecuted env, _ =>
      some (.goto s [.claimHandled env (s.log.executed env.key)])
  | .claimHandled env executed, _ =>
      some (.goto s [.claimDedup env executed (s.log.handledDurable env.key)])
  | .claimDedup env executed handled, _ =>
      let outcome := DedupTable.claimRemote cap s.dedup env.key executed handled
      let next := { s with dedup := outcome.dedup }
      match outcome.claim with
      | .completed => some (.goto next [.postRemoteAck env.key env.replyConnId])
      | .busy => some (.done next)
      | .overflow => some (.goto next [.clearEnqueued env.key])
      | .fresh => some (.goto next [.deliver env])
  | .deliver env, .ended result => some (.goto s [.finishDedup env result])
  | .finishDedup env result, _ =>
      let next :=
        { s with dedup := DedupTable.finishDelivery cap s.dedup env.key result }
      if result = .threw then some (.goto next [.dropKey env])
      else some (.goto next [.markExecuted env])
  | .dropKey env, _ => some (.done { s with log := s.log.dropKey env.key })
  | .markExecuted env, _ =>
      some (.goto { s with log := s.log.markExecuted env.key }
        [.finishHandled env])
  | .finishHandled env, _ =>
      if s.log.handledDurable env.key then
        some (.goto s [.postRemoteAck env.key env.replyConnId, .pumpHold])
      else some (.goto s [.finishBufferHandled env, .pumpHold])
  | .finishBufferHandled env, _ =>
      some (.goto { s with log := s.log.bufferHandled env.key env.replyConnId }
        [.flushTake])
  | _, _ => none

/-- One section, under the function of the source it belongs to. -/
def exec (cap : Nat) (s : LoggedState) (sec : LoggedSection)
    (choice : LoggedChoice) : Option (Effect LoggedState LoggedSection) :=
  match sec with
  | .setHoldHandler hold => some (.done { s with holdHandler := hold })
  | .acceptExecuted .. | .acceptHandled .. | .acceptBufferHandled ..
  | .acceptHasData .. | .acceptHold .. | .acceptPersisted ..
  | .acceptEnqueued .. | .acceptBufferData .. => s.accept sec
  | .enqueueHold .. | .enqueueExecuted .. | .enqueuePersisted ..
  | .enqueueEnqueued .. | .enqueueRoom .. | .enqueueAlready ..
  | .enqueueCopy .. | .enqueueSet .. | .enqueueReply ..
  | .pushRoutedFrame .. | .clearEnqueued .. => s.enqueue cap sec choice
  | .flushTake | .flushWrite .. | .flushCommit .. | .flushRollback ..
  | .applyFlush .. | .postRemoteAck .. | .pumpHold | .pumpKeys
  | .replayHold .. | .replayTake .. => s.flush sec choice
  | .popEnvelope | .deliverUnkeyed .. | .claimExecuted .. | .claimHandled ..
  | .claimDedup .. | .deliver .. | .finishDedup .. | .dropKey ..
  | .markExecuted .. | .finishHandled .. | .finishBufferHandled .. =>
      s.dispatch cap sec choice

end LoggedState

/-- A routed frame comes in, the flush loop wakes up, an actor takes an
envelope, an actor is spawned, or the hold switch is turned. -/
def loggedEntry : LoggedSection → Bool
  | .setHoldHandler _ | .flushTake | .popEnvelope | .replayHold _ => true
  | .acceptExecuted frame key _ => (unpackRouted frame).any (·.key = key)
  | _ => false

def loggedProgram (cap : Nat) :
    Program LoggedState LoggedSection LoggedChoice where
  entry _ sec := loggedEntry sec
  exec := LoggedState.exec cap

/-- The state after the log was opened and before any call. -/
def LoggedState.opened (file : List UInt8) (log : ReceiverLog) : LoggedState :=
  ⟨file, log, ∅, [], false,
    (log.index.entries.filter (·.2.handled)).map (·.1), []⟩

end UltraNet
