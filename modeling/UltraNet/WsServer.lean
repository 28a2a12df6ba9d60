/-
One connection of `WsServer` after the handshake: `on_open`, the read loop in
plain or in ring mode, `on_close`.  Each I/O outcome and each return of a
handler is a step; an exception ends the coroutine, and what it skips is never
run.
-/
import UltraNet.GuardedRun
import UltraNet.WebSocketFrame

namespace UltraNet

/-- Whether ring mode is enabled and which message handlers are set; `on_open`
and `on_close` are. -/
structure WsConfig where
  ring : Bool
  onText : Bool
  onBinary : Bool

inductive WsCall where
  | onOpen
  | onText (message : List UInt8)
  | onBinary (message : List UInt8)
  | onClose
deriving DecidableEq

def WsCall.isMessage : WsCall → Bool
  | .onText _ | .onBinary _ => true
  | _ => false

/-- A completion of the multishot receive. -/
inductive RecvChunk where
  | data (bytes : List UInt8)
  | eof
  | error
deriving DecidableEq

/-- Where a write was made. -/
inductive AfterWrite where
  -- in `read_frame`
  | pong
  | close (frame : WebSocketFrame)
  -- in the read loop
  | pongSent
  | closed
deriving DecidableEq

/-- What the coroutine does next. -/
inductive WsPhase where
  | onOpen
  -- the condition of the read loop
  | loopTop
  -- the loop of `read_frame_ring`
  | frameTop
  | read
  | write (left : Nat) (next : AfterWrite)
  -- `read_frame` has returned
  | frame (frame : WebSocketFrame)
  | handler
  | onClose
  | finished
  | failed
deriving DecidableEq

/-- The read loop has been left, with or without an exception. -/
def WsPhase.leaving : WsPhase → Bool
  | .onClose | .finished | .failed => true
  | _ => false

/-- The connection.  `buffer` is what `read_frame` has read, or the reassembly
buffer; `unread` is what the peer has sent and nobody has received; `calls` is
a ghost: the handlers that were called. -/
structure WsSession where
  phase : WsPhase
  isOpen : Bool
  closed : Bool
  buffer : List UInt8
  queue : List RecvChunk
  stopped : Bool
  fragBuf : List UInt8
  fragOp : OpCode
  unread : List UInt8
  calls : List WsCall

inductive WsInput where
  -- the coroutine goes on
  | run
  | read (size : Nat)
  | eof
  | readError
  | wrote (size : Nat)
  | writeError
  -- a handler returns, and may have closed the connection
  | returned (closes : Bool)
  | threw
  -- completions of the multishot receive
  | completion (size : Nat) (more : Bool)
  | recvEof
  | recvError
deriving DecidableEq

namespace WsSession

/-- The read loop is left: `on_close` is called. -/
def leaveLoop (s : WsSession) : WsSession :=
  { s with isOpen := false, phase := .onClose, calls := s.calls ++ [.onClose] }

/-- `read_frame` has decoded a frame. -/
def onFrame (s : WsSession) (frame : WebSocketFrame) (rest : List UInt8) :
    WsSession :=
  { s with
    buffer := rest
    phase := match frame.opcode with
      | .ping =>
          .write (WebSocketFrame.encodedSize frame.payload.length) .pong
      | .close => .write (WebSocketFrame.encodedSize 2) (.close frame)
      | _ => .frame frame }

/-- The decoding step of `read_frame` and `read_frame_ring`. -/
def tryDecode (s : WsSession) (buffer : List UInt8) : WsSession :=
  match WebSocketFrame.decode buffer with
  | .more => { s with buffer := buffer, phase := .read }
  | .frame frame consumed => s.onFrame frame (buffer.drop consumed)
  | .tooLong => { s with phase := .failed }

/-- A message is complete. -/
def deliver (cfg : WsConfig) (s : WsSession) (op : OpCode)
    (message : List UInt8) : WsSession :=
  let s := { s with fragBuf := [], fragOp := .continuation }
  if op = .text ∧ cfg.onText then
    { s with phase := .handler, calls := s.calls ++ [.onText message] }
  else if op = .binary ∧ cfg.onBinary then
    { s with phase := .handler, calls := s.calls ++ [.onBinary message] }
  else { s with phase := .loopTop }

/-- The `switch` of the read loops. -/
def dispatch (cfg : WsConfig) (s : WsSession) (frame : WebSocketFrame) :
    WsSession :=
  match frame.opcode with
  | .close =>
      -- `close` returns at once when a close frame has been sent
      if s.closed then s.leaveLoop
      else { s with phase := .write (WebSocketFrame.encodedSize 2) .closed }
  | .ping =>
      { s with phase :=
          .write (WebSocketFrame.encodedSize frame.payload.length) .pongSent }
  | .pong | .other _ => { s with phase := .loopTop }
  | .text | .binary | .continuation =>
      let op := if frame.opcode = .continuation then s.fragOp else frame.opcode
      let message := s.fragBuf ++ frame.payload
      if frame.fin then s.deliver cfg op message
      else { s with fragBuf := message, fragOp := op, phase := .loopTop }

def afterWrite (cfg : WsConfig) (s : WsSession) : AfterWrite → WsSession
  | .pong => { s with phase := if cfg.ring then .frameTop else .read }
  | .close frame => { s with closed := true, phase := .frame frame }
  | .pongSent => { s with phase := .loopTop }
  | .closed => { s with closed := true }.leaveLoop

/-- The coroutine goes on where it does not wait. -/
def proceed (cfg : WsConfig) (s : WsSession) : Option WsSession :=
  match s.phase with
  | .loopTop =>
      if !s.isOpen || (cfg.ring && s.stopped) then some s.leaveLoop
      -- `read_frame` starts with an empty buffer
      else if cfg.ring then some { s with phase := .frameTop }
      else some { s with buffer := [], phase := .read }
  | .frameTop =>
      if s.buffer = [] then some { s with phase := .read }
      else some (s.tryDecode s.buffer)
  | .read =>
      if cfg.ring then
        match s.queue with
        | .data bytes :: queue =>
            some { s with
              queue := queue, buffer := s.buffer ++ bytes, phase := .frameTop }
        | _ :: queue => some { s with queue := queue, phase := .failed }
        | [] => if s.stopped then some { s with phase := .failed } else none
      else none
  | .frame frame => some (s.dispatch cfg frame)
  | _ => none

/-- The multishot receive is under way. -/
def receiving (cfg : WsConfig) (s : WsSession) : Bool :=
  cfg.ring && s.phase ≠ .onOpen && !s.stopped

def step (cfg : WsConfig) (s : WsSession) : WsInput → Option WsSession
  | .run => s.proceed cfg
  | .read size =>
      if s.phase = .read ∧ !cfg.ring ∧ 0 < size ∧ size ≤ s.unread.length then
        some ({ s with unread := s.unread.drop size }.tryDecode
          (s.buffer ++ s.unread.take size))
      else none
  | .eof =>
      if s.phase = .read ∧ !cfg.ring ∧ s.unread = [] then
        some { s with phase := .failed }
      else none
  | .readError =>
      if s.phase = .read ∧ !cfg.ring then some { s with phase := .failed }
      else none
  | .wrote size =>
      match s.phase with
      | .write left next =>
          if size = 0 then some { s with phase := .failed }
          else if size < left then some { s with phase := .write (left - size) next }
          else some (s.afterWrite cfg next)
      | _ => none
  | .writeError =>
      match s.phase with
      | .write .. => some { s with phase := .failed }
      | _ => none
  | .returned closes =>
      match s.phase with
      | .onOpen | .handler =>
          some { s with
            isOpen := s.isOpen && !closes
            closed := s.closed || closes
            phase := .loopTop }
      | .onClose => some { s with phase := .finished }
      | _ => none
  | .threw =>
      match s.phase with
      | .onOpen | .handler | .onClose => some { s with phase := .failed }
      | _ => none
  | .completion size more =>
      if s.receiving cfg ∧ 0 < size ∧ size ≤ s.unread.length then
        some { s with
          queue := s.queue ++ [.data (s.unread.take size)]
          unread := s.unread.drop size
          stopped := !more }
      else none
  | .recvEof =>
      if s.receiving cfg ∧ s.unread = [] then
        some { s with queue := s.queue ++ [.eof], stopped := true }
      else none
  | .recvError =>
      if s.receiving cfg then
        some { s with queue := s.queue ++ [.error], stopped := true }
      else none

/-- The handshake is done and `on_open` is called. -/
def init (stream : List UInt8) : WsSession :=
  ⟨.onOpen, true, false, [], [], false, [], .continuation, stream, [.onOpen]⟩

def machine (cfg : WsConfig) (stream : List UInt8) :
    Machine WsSession WsInput :=
  ⟨init stream, step cfg⟩

/-- The coroutine has ended. -/
def Ended (s : WsSession) : Prop := s.phase = .finished ∨ s.phase = .failed

/-- The I/O fails or the stream ends where the coroutine waits for a frame, a
handler other than `on_close` throws, or a frame is too long for a string. -/
def fails (s : WsSession) : WsInput → Bool
  | .eof | .readError | .writeError => true
  | .wrote size => size = 0
  | .threw => s.phase ≠ .onClose
  | .read size =>
      (WebSocketFrame.decode (s.buffer ++ s.unread.take size)).isTooLong
  | .run =>
      match s.phase with
      | .frameTop =>
          s.buffer ≠ [] && (WebSocketFrame.decode s.buffer).isTooLong
      | .read =>
          match s.queue with
          | .data _ :: _ => false
          | _ => true
      | _ => false
  | _ => false

/-- `on_open`, then messages. -/
def Opened (calls : List WsCall) : Prop :=
  ∃ messages, calls = .onOpen :: messages ∧
    ∀ call ∈ messages, call.isMessage = true

/-- `on_open`, then messages, then `on_close`. -/
def Paired (calls : List WsCall) : Prop :=
  ∃ messages, calls = .onOpen :: (messages ++ [.onClose]) ∧
    ∀ call ∈ messages, call.isMessage = true

theorem not_paired_of_opened {calls : List WsCall} (hopened : Opened calls) :
    ¬ Paired calls := by
  rintro ⟨messages, hcalls, -⟩
  obtain ⟨others, rfl, hothers⟩ := hopened
  obtain rfl : others = messages ++ [.onClose] := by injection hcalls
  exact absurd (hothers .onClose (by simp)) (by decide)

theorem Opened.message {calls : List WsCall} (hopened : Opened calls)
    {call : WsCall} (hcall : call.isMessage = true) : Opened (calls ++ [call]) := by
  obtain ⟨messages, rfl, hmessages⟩ := hopened
  refine ⟨messages ++ [call], rfl, ?_⟩
  intro other hother
  rcases List.mem_append.mp hother with hold | hnew
  · exact hmessages other hold
  · rw [List.mem_singleton.mp hnew]
    exact hcall

theorem Opened.close {calls : List WsCall} (hopened : Opened calls) :
    Paired (calls ++ [.onClose]) := by
  obtain ⟨messages, rfl, hmessages⟩ := hopened
  exact ⟨messages, rfl, hmessages⟩

/-- The calls that belong to the phase, when nothing has failed. -/
def Sound (s : WsSession) : Prop :=
  if s.phase.leaving then Paired s.calls else Opened s.calls

/-- An exception has skipped `on_close`. -/
def Broken (s : WsSession) : Prop := s.phase = .failed ∧ Opened s.calls

variable {cfg : WsConfig} {s s' : WsSession}

theorem Sound.opened (hsound : s.Sound) (hphase : s.phase.leaving = false) :
    Opened s.calls := by
  rwa [Sound, if_neg (by rw [hphase]; decide)] at hsound

theorem Opened.sound (hopened : Opened s.calls)
    (hphase : s.phase.leaving = false) : s.Sound := by
  rwa [Sound, if_neg (by rw [hphase]; decide)]

theorem leaveLoop_sound (hopened : Opened s.calls) : s.leaveLoop.Sound :=
  hopened.close

theorem onFrame_leaving (frame : WebSocketFrame) (rest : List UInt8) :
    (s.onFrame frame rest).phase.leaving = false := by
  unfold onFrame
  cases frame.opcode <;> rfl

theorem onFrame_sound (hopened : Opened s.calls) (frame : WebSocketFrame)
    (rest : List UInt8) : (s.onFrame frame rest).Sound :=
  Opened.sound hopened (onFrame_leaving frame rest)

theorem tryDecode_sound (hopened : Opened s.calls) (buffer : List UInt8) :
    ((WebSocketFrame.decode buffer).isTooLong = false →
        (s.tryDecode buffer).Sound) ∧
      ((WebSocketFrame.decode buffer).isTooLong = true →
        (s.tryDecode buffer).Broken) := by
  unfold tryDecode
  cases WebSocketFrame.decode buffer with
  | more => exact ⟨fun _ => hopened, nofun⟩
  | frame frame consumed => exact ⟨fun _ => onFrame_sound hopened frame _, nofun⟩
  | tooLong => exact ⟨nofun, fun _ => ⟨rfl, hopened⟩⟩

theorem deliver_sound (hopened : Opened s.calls) (op : OpCode)
    (message : List UInt8) : (s.deliver cfg op message).Sound := by
  unfold deliver
  simp only
  split
  · exact hopened.message rfl
  · split
    · exact hopened.message rfl
    · exact hopened

theorem dispatch_sound (hopened : Opened s.calls) (frame : WebSocketFrame) :
    (s.dispatch cfg frame).Sound := by
  unfold dispatch
  split
  · split
    · exact leaveLoop_sound hopened
    · exact hopened
  · exact hopened
  · exact hopened
  · exact hopened
  all_goals
    simp only
    split
    · exact deliver_sound hopened _ _
    · exact hopened

theorem afterWrite_sound (hopened : Opened s.calls) (next : AfterWrite) :
    (s.afterWrite cfg next).Sound := by
  cases next with
  | pong =>
      refine Opened.sound hopened ?_
      unfold afterWrite
      cases cfg.ring <;> rfl
  | close frame => exact hopened
  | pongSent => exact hopened
  | closed => exact leaveLoop_sound hopened

/-- A step that does not fail keeps the calls right, and one that fails skips
`on_close`. -/
theorem proceed_sound (hsound : s.Sound) (hstep : s.proceed cfg = some s') :
    (s.fails .run = false → s'.Sound) ∧ (s.fails .run = true → s'.Broken) := by
  unfold proceed at hstep
  unfold fails
  split at hstep
  · rename_i hphase
    have hopened := hsound.opened (by rw [hphase]; rfl)
    simp only [hphase]
    refine ⟨fun _ => ?_, nofun⟩
    split at hstep
    · obtain rfl := Option.some.inj hstep
      exact leaveLoop_sound hopened
    · split at hstep
      all_goals
        obtain rfl := Option.some.inj hstep
        exact hopened
  · rename_i hphase
    have hopened := hsound.opened (by rw [hphase]; rfl)
    simp only [hphase]
    split at hstep
    · rename_i hbuffer
      obtain rfl := Option.some.inj hstep
      simp only [hbuffer, ne_eq, not_true_eq_false, decide_false, Bool.false_and]
      exact ⟨fun _ => hopened, nofun⟩
    · rename_i hbuffer
      obtain rfl := Option.some.inj hstep
      simp only [hbuffer, ne_eq, not_false_eq_true, decide_true, Bool.true_and]
      exact tryDecode_sound hopened s.buffer
  · rename_i hphase
    have hopened := hsound.opened (by rw [hphase]; rfl)
    simp only [hphase]
    split at hstep
    · split at hstep
      · rename_i bytes queue hqueue
        obtain rfl := Option.some.inj hstep
        simp only [hqueue]
        exact ⟨fun _ => hopened, nofun⟩
      · rename_i chunk queue hqueue hchunk
        obtain rfl := Option.some.inj hstep
        refine ⟨?_, fun _ => ⟨rfl, hopened⟩⟩
        intro hfine
        split at hfine
        · rename_i hdata
          rw [hchunk] at hdata
          injection hdata with hhead
          exact absurd hhead (hqueue _)
        · cases hfine
      · rename_i hqueue
        split at hstep
        · obtain rfl := Option.some.inj hstep
          simp only [hqueue]
          exact ⟨nofun, fun _ => ⟨rfl, hopened⟩⟩
        · cases hstep
    · cases hstep
  · rename_i frame hphase
    have hopened := hsound.opened (by rw [hphase]; rfl)
    obtain rfl := Option.some.inj hstep
    simp only [hphase]
    exact ⟨fun _ => dispatch_sound hopened frame, nofun⟩
  · cases hstep

theorem step_sound (hsound : s.Sound) {input : WsInput}
    (hstep : s.step cfg input = some s') :
    (s.fails input = false → s'.Sound) ∧ (s.fails input = true → s'.Broken) := by
  cases input with
  | run => exact proceed_sound hsound hstep
  | read size =>
      simp only [step, Option.ite_none_right_eq_some, Option.some.injEq] at hstep
      obtain ⟨⟨hphase, -⟩, rfl⟩ := hstep
      have hopened := hsound.opened (by rw [hphase]; rfl)
      exact tryDecode_sound (s := { s with unread := s.unread.drop size })
        hopened _
  | eof =>
      simp only [step, Option.ite_none_right_eq_some, Option.some.injEq] at hstep
      obtain ⟨⟨hphase, -⟩, rfl⟩ := hstep
      exact ⟨nofun, fun _ => ⟨rfl, hsound.opened (by rw [hphase]; rfl)⟩⟩
  | readError =>
      simp only [step, Option.ite_none_right_eq_some, Option.some.injEq] at hstep
      obtain ⟨⟨hphase, -⟩, rfl⟩ := hstep
      exact ⟨nofun, fun _ => ⟨rfl, hsound.opened (by rw [hphase]; rfl)⟩⟩
  | wrote size =>
      simp only [step] at hstep
      split at hstep
      · rename_i left next hphase
        have hopened := hsound.opened (by rw [hphase]; rfl)
        split at hstep
        · rename_i hzero
          obtain rfl := Option.some.inj hstep
          exact ⟨fun hfine => by simp [fails, hzero] at hfine,
            fun _ => ⟨rfl, hopened⟩⟩
        · rename_i hpositive
          refine ⟨fun _ => ?_, fun hfail => by simp [fails, hpositive] at hfail⟩
          split at hstep
          all_goals obtain rfl := Option.some.inj hstep
          · exact hopened
          · exact afterWrite_sound hopened next
      · cases hstep
  | writeError =>
      simp only [step] at hstep
      split at hstep
      · rename_i hphase
        obtain rfl := Option.some.inj hstep
        exact ⟨nofun, fun _ => ⟨rfl, hsound.opened (by rw [hphase]; rfl)⟩⟩
      · cases hstep
  | returned closes =>
      refine ⟨fun _ => ?_, nofun⟩
      simp only [step] at hstep
      split at hstep
      · rename_i hphase
        obtain rfl := Option.some.inj hstep
        exact hsound.opened (by rw [hphase]; rfl)
      · rename_i hphase
        obtain rfl := Option.some.inj hstep
        exact hsound.opened (by rw [hphase]; rfl)
      · rename_i hphase
        obtain rfl := Option.some.inj hstep
        simpa [Sound, WsPhase.leaving, hphase] using hsound
      · cases hstep
  | threw =>
      simp only [step] at hstep
      simp only [fails]
      split at hstep
      · rename_i hphase
        obtain rfl := Option.some.inj hstep
        rw [hphase]
        exact ⟨nofun, fun _ => ⟨rfl, hsound.opened (by rw [hphase]; rfl)⟩⟩
      · rename_i hphase
        obtain rfl := Option.some.inj hstep
        rw [hphase]
        exact ⟨nofun, fun _ => ⟨rfl, hsound.opened (by rw [hphase]; rfl)⟩⟩
      · rename_i hphase
        obtain rfl := Option.some.inj hstep
        rw [hphase]
        refine ⟨fun _ => ?_, nofun⟩
        simpa [Sound, WsPhase.leaving, hphase] using hsound
      · cases hstep
  | completion size more =>
      simp only [step, Option.ite_none_right_eq_some, Option.some.injEq] at hstep
      obtain ⟨-, rfl⟩ := hstep
      exact ⟨fun _ => hsound, nofun⟩
  | recvEof =>
      simp only [step, Option.ite_none_right_eq_some, Option.some.injEq] at hstep
      obtain ⟨-, rfl⟩ := hstep
      exact ⟨fun _ => hsound, nofun⟩
  | recvError =>
      simp only [step, Option.ite_none_right_eq_some, Option.some.injEq] at hstep
      obtain ⟨-, rfl⟩ := hstep
      exact ⟨fun _ => hsound, nofun⟩

/-- Nothing runs after an exception but the completions. -/
theorem step_broken (hbroken : s.Broken) {input : WsInput}
    (hstep : s.step cfg input = some s') : s'.Broken := by
  obtain ⟨hphase, hopened⟩ := hbroken
  cases input with
  | run => simp [step, proceed, hphase] at hstep
  | read | eof | readError | wrote | writeError | returned | threw =>
      simp [step, hphase] at hstep
  | completion size more =>
      simp only [step, Option.ite_none_right_eq_some, Option.some.injEq] at hstep
      obtain ⟨-, rfl⟩ := hstep
      exact ⟨hphase, hopened⟩
  | recvEof | recvError =>
      simp only [step, Option.ite_none_right_eq_some, Option.some.injEq] at hstep
      obtain ⟨-, rfl⟩ := hstep
      exact ⟨hphase, hopened⟩

theorem run_sound {stream : List UInt8} (word : List WsInput)
    (hsound : s.Sound) {last : WsSession}
    (hrun : (machine cfg stream).runFrom s word = some last) :
    ((machine cfg stream).MeetsFrom (fun s input => s.fails input = false) s word →
        last.Sound) ∧
      (¬ (machine cfg stream).MeetsFrom (fun s input => s.fails input = false)
          s word → last.Broken) := by
  refine Machine.runFrom_split _ ?_ ?_ ?_ word hsound hrun
  · intro state input next hstate hfine hstep
    exact (step_sound hstate hstep).1 hfine
  · intro state input next hstate hfails hstep
    exact (step_sound hstate hstep).2 (by simpa using hfails)
  · intro state input next hstate hstep
    exact step_broken hstate hstep

end WsSession

/-- A connection that has ended has had `on_close`, once and after every
message, exactly if no I/O outcome and no handler has made an exception. -/
theorem callbacks_paired (cfg : WsConfig) (stream : List UInt8)
    (word : List WsInput) {last : WsSession}
    (hrun : (WsSession.machine cfg stream).run word = some last)
    (hended : last.Ended) :
    WsSession.Paired last.calls ↔
      (WsSession.machine cfg stream).Meets
        (fun s input => s.fails input = false) word := by
  have hstart : (WsSession.init stream).Sound := ⟨[], rfl, by simp⟩
  obtain ⟨hmeets, hnot⟩ := WsSession.run_sound word hstart hrun
  constructor
  · intro hpaired
    by_contra hfails
    exact WsSession.not_paired_of_opened (hnot hfails).2 hpaired
  · intro hfine
    have hsound := hmeets hfine
    have hleaving : last.phase.leaving = true := by
      obtain hphase | hphase := hended <;> rw [hphase] <;> rfl
    rwa [WsSession.Sound, if_pos hleaving] at hsound

/-- A text frame `hi` and a close frame, each in a read of its own. -/
def closedCleanly : List WsInput :=
  [.returned false, .run, .read 8, .run, .returned false, .run, .read 6,
    .wrote 4, .run, .returned false]

theorem callbacks_paired_closedCleanly :
    ∃ last, (WsSession.machine ⟨false, true, true⟩
        [0x81, 0x82, 0, 0, 0, 0, 104, 105, 0x88, 0x80, 0, 0, 0, 0]).run
          closedCleanly = some last ∧
      WsSession.Paired last.calls := by
  have hend : ((WsSession.machine ⟨false, true, true⟩
        [0x81, 0x82, 0, 0, 0, 0, 104, 105, 0x88, 0x80, 0, 0, 0, 0]).run
          closedCleanly).map (·.phase) = some .finished := by
    decide
  obtain ⟨last, hrun, hphase⟩ := Option.map_eq_some_iff.mp hend
  exact ⟨last, hrun, (callbacks_paired _ _ _ hrun (.inl hphase)).mpr
    (by decide)⟩

/-- The stream ends without a close frame: `on_close` is not called. -/
theorem eof_skips_onClose :
    ((WsSession.machine ⟨false, true, true⟩
        [0x81, 0x82, 0, 0, 0, 0, 104, 105]).run
          [.returned false, .run, .read 8, .run, .returned false, .run, .eof]).map
        (fun last => (last.phase, last.calls)) =
      some (.failed, [.onOpen, .onText [104, 105]]) := by
  decide

end UltraNet
