/-
What the message handlers of a `WsServer` connection are told, against the
messages in the byte stream of the client, in plain and in ring mode.
-/
import UltraNet.WsProgress

namespace UltraNet

open WebSocketFrame (decode wire)

/-- The messages of a sequence of frames: the payloads of data frames are
joined up to a final one, and a close frame ends the sequence.  `op` and `part`
are the message under way. -/
def messagesFrom (op : OpCode) (part : List UInt8) :
    List WebSocketFrame → List WsCall
  | [] => []
  | frame :: rest =>
      match frame.opcode with
      | .close => []
      | .ping | .pong | .other _ => messagesFrom op part rest
      | .text | .binary | .continuation =>
          let op := if frame.opcode = .continuation then op else frame.opcode
          let part := part ++ frame.payload
          if frame.fin then
            match op with
            | .text => .onText part :: messagesFrom .continuation [] rest
            | .binary => .onBinary part :: messagesFrom .continuation [] rest
            | _ => messagesFrom .continuation [] rest
          else messagesFrom op part rest

def messages (frames : List WebSocketFrame) : List WsCall :=
  messagesFrom .continuation [] frames

namespace WsSession

/-- The message handlers that were called. -/
def told (s : WsSession) : List WsCall := s.calls.filter WsCall.isMessage

/-- No I/O error, handlers that neither throw nor close, and a receive that
ends when everything has been received. -/
def ordinary (s : WsSession) : WsInput → Bool
  | .readError | .writeError | .threw | .recvError => false
  | .wrote size => size ≠ 0
  | .returned closes => !closes
  | .completion size more => more || size = s.unread.length
  | _ => true

/-- A read returns nothing beyond the frame that it completes, and the loop is
not left because of the end of the receive while a frame is there. -/
def keepsFrames (ring : Bool) (s : WsSession) : WsInput → Bool
  | .read size =>
      match decode (s.buffer ++ s.unread.take size) with
      | .frame _ consumed => consumed = (s.buffer ++ s.unread.take size).length
      | _ => true
  | .run =>
      match s.phase with
      | .loopTop =>
          !(ring && s.stopped) ||
            (WebSocketFrame.decodeFrame (s.buffer ++ queued s.queue)).isNone
      | _ => true
  | _ => true

/-- The frame that is read and not yet handled. -/
def inHand (s : WsSession) : List WebSocketFrame :=
  match s.phase with
  | .frame frame | .write _ (.close frame) => [frame]
  | _ => []

/-- What the phase says about the frame in hand. -/
def PhaseOk (s : WsSession) : Prop :=
  match s.phase with
  | .frame frame => frame.opcode ≠ .ping ∧ (frame.opcode = .close → s.closed = true)
  | .write _ (.close frame) => frame.opcode = .close
  | .write _ .pongSent | .write _ .closed => False
  | .read => decode s.buffer = .more
  | _ => True

/-- The chunks of the queue, and the end of the receive behind them. -/
def QueueOk (s : WsSession) : Prop :=
  ∃ chunks : List (List UInt8), s.queue = chunks.map .data ∨
    (s.queue = chunks.map .data ++ [.eof] ∧ s.stopped = true)

/-- The connection with these frames still in its buffers or on the way. -/
structure Relays (ring : Bool) (frames rest : List WebSocketFrame)
    (s : WsSession) : Prop where
  legal : ∀ frame ∈ rest, frame.Legal
  stream : s.buffer ++ (queued s.queue ++ s.unread) = rest.flatMap wire
  told : s.phase.leaving = false →
    s.told ++ messagesFrom s.fragOp s.fragBuf (s.inHand ++ rest) =
      messages frames
  left : s.phase.leaving = true → s.told = messages frames
  isOpen : s.phase.leaving = false → s.isOpen = true
  phase : s.PhaseOk
  plain : ring = false → s.queue = [] ∧ (s.phase ≠ .read → s.buffer = [])
  queue : s.QueueOk
  stopped : s.stopped = true → s.unread = []

variable {ring : Bool} {frames rest : List WebSocketFrame} {s s' : WsSession}

/-- Everything has come, and no frame is there: no frame is left. -/
theorem nothing_left (hlegal : ∀ frame ∈ rest, frame.Legal) {data : List UInt8}
    (hstream : data = rest.flatMap wire)
    (hnone : WebSocketFrame.decodeFrame data = none) : rest = [] := by
  have hstream' : data ++ [] = rest.flatMap wire := by rw [List.append_nil, hstream]
  obtain ⟨frame, _, _, -, -, hfound, -⟩ | ⟨-, hempty⟩ :=
    WebSocketFrame.frameCodec.next hlegal hstream'
  · rw [hnone] at hfound
    cases hfound
  · exact hempty rfl

theorem decodeFrame_of_more {data : List UInt8} (hmore : decode data = .more) :
    WebSocketFrame.decodeFrame data = none := by
  rw [WebSocketFrame.decodeFrame, hmore]

/-- A data frame is added to the message under way. -/
theorem messagesFrom_skip {frame : WebSocketFrame}
    (hskip : frame.opcode = .ping ∨ frame.opcode = .pong)
    (op : OpCode) (part : List UInt8) :
    messagesFrom op part (frame :: rest) = messagesFrom op part rest := by
  rcases hskip with h | h <;> simp only [messagesFrom, h]

theorem messagesFrom_close {frame : WebSocketFrame}
    (hclose : frame.opcode = .close) (op : OpCode) (part : List UInt8) :
    messagesFrom op part (frame :: rest) = [] := by
  simp only [messagesFrom, hclose]

theorem messagesFrom_done (hphase : s.phase = .read) :
    s.told ++ messagesFrom s.fragOp s.fragBuf (s.inHand ++ []) = s.told := by
  simp only [inHand, hphase, messagesFrom, List.append_nil]

/-- The call of a message handler. -/
theorem filter_message (calls : List WsCall) {call : WsCall}
    (hcall : call.isMessage = true) :
    (calls ++ [call]).filter WsCall.isMessage =
      calls.filter WsCall.isMessage ++ [call] := by
  rw [List.filter_append, List.filter_cons_of_pos hcall, List.filter_nil]

/-- The decoding step, with what is received in `buffer`. -/
theorem relays_tryDecode {buffer : List UInt8}
    (hlegal : ∀ frame ∈ rest, frame.Legal)
    (hstream : buffer ++ (queued s.queue ++ s.unread) = rest.flatMap wire)
    (htold : s.told ++ messagesFrom s.fragOp s.fragBuf rest = messages frames)
    (hopen : s.isOpen = true) (hplain : ring = false → s.queue = [])
    (hexact : ring = false → ∀ frame size, decode buffer = .frame frame size →
      size = buffer.length)
    (hqueue : s.QueueOk) (hstopped : s.stopped = true → s.unread = []) :
    ∃ rest', Relays ring frames rest' (s.tryDecode buffer) := by
  unfold tryDecode
  cases hdecode : decode buffer with
  | more =>
      refine ⟨rest, hlegal, hstream, fun _ => htold, by rintro ⟨⟩,
        fun _ => hopen, hdecode,
        ?_, hqueue, hstopped⟩
      intro hring
      exact ⟨hplain hring, fun hread => absurd rfl hread⟩
  | tooLong =>
      exact absurd hdecode (WebSocketFrame.decode_ne_tooLong hlegal hstream)
  | frame frame size =>
      obtain ⟨found, rest', tail, rfl, hbuffer, hfound, htail⟩ | ⟨hnone, -⟩ :=
        WebSocketFrame.frameCodec.next hlegal hstream
      · rw [WebSocketFrame.decodeFrame_eq_some, hdecode] at hfound
        obtain ⟨rfl, rfl⟩ : frame = found ∧ size = (wire found).length := by
          cases hfound
          exact ⟨rfl, rfl⟩
        have hdrop : buffer.drop (wire frame).length = tail := by
          rw [hbuffer, List.drop_left' rfl]
        have hlegal' : ∀ other ∈ rest', other.Legal := fun other hother =>
          hlegal other (List.mem_cons_of_mem frame hother)
        have hempty : ring = false → tail = [] := by
          intro hring
          have hsize := hexact hring frame _ hdecode
          rw [hbuffer, List.length_append] at hsize
          exact List.length_eq_zero_iff.mp (by omega)
        refine ⟨rest', hlegal', ?_, ?_, ?_, ?_, ?_, ?_, ?_, ?_⟩
        · simp only [onFrame, hdrop]
          exact htail
        · intro _
          simp only [told, onFrame, inHand] at htold ⊢
          cases hopcode : frame.opcode with
          | ping =>
              rw [messagesFrom_skip (.inl hopcode)] at htold
              exact htold
          | _ => exact htold
        · intro hleft
          rw [onFrame_leaving] at hleft
          cases hleft
        · exact fun _ => hopen
        · unfold onFrame PhaseOk
          cases hopcode : frame.opcode <;> simp [hopcode]
        · intro hring
          refine ⟨hplain hring, fun _ => ?_⟩
          simp only [onFrame, hdrop]
          exact hempty hring
        · exact hqueue
        · exact hstopped
      · have hbuffer : buffer ≠ [] := by
          rintro rfl
          cases hdecode
        have := hnone hbuffer
        rw [WebSocketFrame.decodeFrame, hdecode] at this
        cases this

/-- The loop is left with nothing more to tell. -/
theorem Relays.leave (hrelays : Relays ring frames rest s)
    (hread : s.phase ≠ .read) (hdone : s.told = messages frames) :
    Relays ring frames rest s.leaveLoop := by
  refine ⟨hrelays.legal, hrelays.stream, by rintro ⟨⟩, fun _ => ?_,
    by rintro ⟨⟩, trivial, ?_,
    hrelays.queue, hrelays.stopped⟩
  · rw [← hdone]
    exact (List.filter_append _ _).trans (List.append_nil _)
  · intro hring
    exact ⟨(hrelays.plain hring).1, fun _ => (hrelays.plain hring).2 hread⟩

/-- A step of the coroutine between two waits, with no frame in hand. -/
theorem Relays.go (hrelays : Relays ring frames rest s) (phase : WsPhase)
    (hphase : s.phase.leaving = false) (hleaving : phase.leaving = false)
    (hhand : s.inHand = [])
    (hhand' : WsSession.inHand { s with phase := phase } = [])
    (hok : WsSession.PhaseOk { s with phase := phase })
    (hread : s.phase ≠ .read) :
    Relays ring frames rest { s with phase := phase } := by
  refine ⟨hrelays.legal, hrelays.stream, fun _ => ?_, ?_,
    fun _ => hrelays.isOpen hphase, hok, ?_, hrelays.queue, hrelays.stopped⟩
  · have htold := hrelays.told hphase
    rw [hhand] at htold
    rw [hhand']
    exact htold
  · intro hleft
    rw [hleaving] at hleft
    cases hleft
  · intro hring
    exact ⟨(hrelays.plain hring).1, fun _ => (hrelays.plain hring).2 hread⟩

/-- The exception at the end of the stream comes after the last message. -/
theorem Relays.ends (hrelays : Relays ring frames rest s) (hphase : s.phase = .read)
    (hqueued : queued s.queue = []) (hunread : s.unread = [])
    {queue : List RecvChunk} (hqueue : QueueOk { s with queue := queue })
    (hsame : queued queue = []) (hplain : s.queue = [] → queue = []) :
    Relays ring frames rest { s with queue := queue, phase := .failed } := by
  have hmore : decode s.buffer = .more := by
    have := hrelays.phase
    simpa only [PhaseOk, hphase] using this
  have hstream := hrelays.stream
  rw [hqueued, hunread, List.append_nil, List.append_nil] at hstream
  obtain rfl := nothing_left hrelays.legal hstream (decodeFrame_of_more hmore)
  have htold := hrelays.told (by rw [hphase]; rfl)
  refine ⟨hrelays.legal, ?_, by rintro ⟨⟩, fun _ => ?_, by rintro ⟨⟩,
    trivial, ?_, hqueue,
    fun _ => hunread⟩
  · simpa [hsame, hunread] using hstream
  · rw [messagesFrom_done hphase] at htold
    exact htold
  · intro hring
    exact ⟨hplain (hrelays.plain hring).1, fun _ => by simpa using hstream⟩

/-- A frame is handled, and the loop goes on or a handler runs. -/
theorem Relays.handled {frame : WebSocketFrame} (hrelays : Relays ring frames rest s)
    (hphase : s.phase = .frame frame) {t : WsSession} (hbuffer : t.buffer = s.buffer)
    (hqueue : t.queue = s.queue) (hunread : t.unread = s.unread)
    (hstopped : t.stopped = s.stopped) (hisOpen : t.isOpen = s.isOpen)
    (hnext : t.phase = .loopTop ∨ t.phase = .handler)
    (hmessages : t.told ++ messagesFrom t.fragOp t.fragBuf rest = messages frames) :
    Relays ring frames rest t := by
  have hopen := hrelays.isOpen (by rw [hphase]; rfl)
  have hleaving : t.phase.leaving = false := by
    rcases hnext with h | h <;> rw [h] <;> rfl
  refine ⟨hrelays.legal, ?_, fun _ => ?_, ?_, fun _ => hisOpen.trans hopen, ?_,
    ?_, ?_, ?_⟩
  · rw [hbuffer, hqueue, hunread]
    exact hrelays.stream
  · have hhand : t.inHand = [] := by
      unfold inHand
      rcases hnext with h | h <;> rw [h]
    rw [hhand]
    exact hmessages
  · intro hleft
    rw [hleaving] at hleft
    cases hleft
  · unfold PhaseOk
    rcases hnext with h | h <;> rw [h] <;> trivial
  · intro hring
    obtain ⟨hempty, hread⟩ := hrelays.plain hring
    rw [hqueue, hbuffer]
    exact ⟨hempty, fun _ => hread (by rw [hphase]; simp)⟩
  · unfold QueueOk
    rw [hqueue, hstopped]
    exact hrelays.queue
  · rw [hstopped, hunread]
    exact hrelays.stopped

/-- A data frame: its payload is added to the message, which is delivered with
the final frame. -/
theorem Relays.dataFrame {frame : WebSocketFrame}
    (hrelays : Relays ring frames rest s) (hphase : s.phase = .frame frame)
    (op : OpCode)
    (hmessages : (s.told ++ if frame.fin then
        match op with
        | .text =>
            .onText (s.fragBuf ++ frame.payload) ::
              messagesFrom .continuation [] rest
        | .binary =>
            .onBinary (s.fragBuf ++ frame.payload) ::
              messagesFrom .continuation [] rest
        | _ => messagesFrom .continuation [] rest
      else messagesFrom op (s.fragBuf ++ frame.payload) rest) = messages frames) :
    Relays ring frames rest
      (if frame.fin then s.deliver ⟨ring, true, true⟩ op (s.fragBuf ++ frame.payload)
        else { s with
          fragBuf := s.fragBuf ++ frame.payload, fragOp := op,
          phase := .loopTop }) := by
  cases hfin : frame.fin with
  | false =>
      simp only [hfin, Bool.false_eq_true, if_false] at hmessages ⊢
      exact hrelays.handled hphase rfl rfl rfl rfl rfl (.inl rfl) hmessages
  | true =>
      simp only [hfin, if_true] at hmessages ⊢
      unfold deliver
      cases op with
      | text =>
          refine hrelays.handled hphase rfl rfl rfl rfl rfl (.inr rfl) ?_
          change (s.calls ++ [WsCall.onText
            (s.fragBuf ++ frame.payload)]).filter _ ++
            messagesFrom .continuation [] rest = _
          rw [filter_message _ rfl, List.append_assoc]
          exact hmessages
      | binary =>
          refine hrelays.handled hphase rfl rfl rfl rfl rfl (.inr rfl) ?_
          change (s.calls ++ [WsCall.onBinary
            (s.fragBuf ++ frame.payload)]).filter _ ++
            messagesFrom .continuation [] rest = _
          rw [filter_message _ rfl, List.append_assoc]
          exact hmessages
      | _ => exact hrelays.handled hphase rfl rfl rfl rfl rfl (.inl rfl) hmessages

theorem relays_dispatch {frame : WebSocketFrame} (hphase : s.phase = .frame frame)
    (hrelays : Relays ring frames rest s) :
    Relays ring frames rest (s.dispatch ⟨ring, true, true⟩ frame) := by
  have hok := hrelays.phase
  have htold := hrelays.told (by rw [hphase]; rfl)
  simp only [PhaseOk, hphase] at hok
  simp only [inHand, hphase, List.singleton_append] at htold
  unfold dispatch
  cases hopcode : frame.opcode with
  | close =>
      rw [messagesFrom_close hopcode, List.append_nil] at htold
      simp only [hok.2 hopcode, if_true]
      exact hrelays.leave (by rw [hphase]; simp) htold
  | ping => exact absurd hopcode hok.1
  | pong =>
      rw [messagesFrom_skip (.inr hopcode)] at htold
      exact hrelays.handled hphase rfl rfl rfl rfl rfl (.inl rfl) htold
  | other code =>
      simp only [messagesFrom, hopcode] at htold
      exact hrelays.handled hphase rfl rfl rfl rfl rfl (.inl rfl) htold
  | text | binary | continuation =>
      simp only [messagesFrom, hopcode] at htold
      exact hrelays.dataFrame hphase _ htold

/-- The top of the loop. -/
theorem relays_loopTop (hrelays : Relays ring frames rest s)
    (hphase : s.phase = .loopTop) (hkeeps : s.keepsFrames ring .run = true)
    (hstep : s.proceed ⟨ring, true, true⟩ = some s') :
    ∃ rest', Relays ring frames rest' s' := by
  have hleaving : s.phase.leaving = false := by rw [hphase]; rfl
  have hhand : s.inHand = [] := by simp only [inHand, hphase]
  have hopen := hrelays.isOpen hleaving
  have htold := hrelays.told hleaving
  rw [hhand, List.nil_append] at htold
  have hcond : (!s.isOpen || ((⟨ring, true, true⟩ : WsConfig).ring && s.stopped)) =
      (ring && s.stopped) := by
    rw [hopen]
    rfl
  simp only [proceed, hphase] at hstep
  rw [hcond] at hstep
  split at hstep
  · rename_i hstop
    obtain rfl := Option.some.inj hstep
    obtain ⟨-, hstopped⟩ := Bool.and_eq_true_iff.mp hstop
    have hnone : WebSocketFrame.decodeFrame
        (s.buffer ++ queued s.queue) = none := by
      simpa [keepsFrames, hphase, hstop] using hkeeps
    have hstream := hrelays.stream
    rw [hrelays.stopped hstopped, List.append_nil] at hstream
    obtain rfl := nothing_left hrelays.legal hstream hnone
    simp only [messagesFrom, List.append_nil] at htold
    exact ⟨[], hrelays.leave (by rw [hphase]; simp) htold⟩
  · split at hstep
    · obtain rfl := Option.some.inj hstep
      exact ⟨rest, hrelays.go .frameTop hleaving rfl hhand rfl trivial
        (by rw [hphase]; simp)⟩
    · rename_i hring
      obtain rfl := Option.some.inj hstep
      have hempty : s.buffer = [] :=
        (hrelays.plain (by simpa using hring)).2 (by rw [hphase]; simp)
      refine ⟨rest, hrelays.legal, ?_, fun _ => htold, by rintro ⟨⟩,
        fun _ => hopen, rfl,
        fun hring => ⟨(hrelays.plain hring).1, fun _ => rfl⟩, hrelays.queue,
        hrelays.stopped⟩
      have := hrelays.stream
      rwa [hempty] at this

/-- A frame is looked for in what has been read. -/
theorem relays_frameTop (hrelays : Relays ring frames rest s)
    (hphase : s.phase = .frameTop)
    (hstep : s.proceed ⟨ring, true, true⟩ = some s') :
    ∃ rest', Relays ring frames rest' s' := by
  have hleaving : s.phase.leaving = false := by rw [hphase]; rfl
  have hhand : s.inHand = [] := by simp only [inHand, hphase]
  have htold := hrelays.told hleaving
  rw [hhand, List.nil_append] at htold
  simp only [proceed, hphase] at hstep
  split at hstep
  · rename_i hempty
    obtain rfl := Option.some.inj hstep
    refine ⟨rest, hrelays.go .read hleaving rfl hhand rfl ?_
      (by rw [hphase]; simp)⟩
    simp only [PhaseOk, hempty]
    rfl
  · rename_i hbuffer
    obtain rfl := Option.some.inj hstep
    refine relays_tryDecode hrelays.legal hrelays.stream htold
      (hrelays.isOpen hleaving) (fun hring => (hrelays.plain hring).1) ?_
      hrelays.queue hrelays.stopped
    intro hring
    exact absurd ((hrelays.plain hring).2 (by rw [hphase]; simp)) hbuffer

/-- The next chunk of the queue. -/
theorem relays_nextChunk (hrelays : Relays ring frames rest s)
    (hphase : s.phase = .read)
    (hstep : s.proceed ⟨ring, true, true⟩ = some s') :
    ∃ rest', Relays ring frames rest' s' := by
  have hleaving : s.phase.leaving = false := by rw [hphase]; rfl
  have hhand : s.inHand = [] := by simp only [inHand, hphase]
  simp only [proceed, hphase] at hstep
  split at hstep
  · rename_i hring
    obtain ⟨chunks, hqueue⟩ := hrelays.queue
    split at hstep
    · rename_i bytes queue hhead
      obtain rfl := Option.some.inj hstep
      refine ⟨rest, hrelays.legal, ?_, fun _ => ?_, by rintro ⟨⟩,
        fun _ => hrelays.isOpen hleaving, trivial, ?_, ?_, hrelays.stopped⟩
      · have := hrelays.stream
        simpa [hhead, queued] using this
      · have := hrelays.told hleaving
        rwa [hhand] at this
      · intro hplain
        rw [hplain] at hring
        cases hring
      · cases chunks with
        | nil =>
            rcases hqueue with h | ⟨h, -⟩ <;> rw [hhead] at h <;> cases h
        | cons chunk chunks =>
            refine ⟨chunks, ?_⟩
            rcases hqueue with h | ⟨h, hstopped⟩
            · rw [hhead] at h
              exact .inl (List.cons.inj h).2
            · rw [hhead] at h
              exact .inr ⟨(List.cons.inj h).2, hstopped⟩
    · rename_i chunk queue hnot hhead
      obtain rfl := Option.some.inj hstep
      cases chunks with
      | nil =>
          rcases hqueue with h | ⟨h, hstopped⟩
          · rw [hhead] at h
            cases h
          · rw [hhead] at h
            cases h
            refine ⟨rest, hrelays.ends hphase ?_ (hrelays.stopped hstopped)
              ⟨[], .inl rfl⟩ rfl fun _ => rfl⟩
            rw [hhead]
            rfl
      | cons chunk' chunks =>
          exfalso
          rcases hqueue with h | ⟨h, -⟩ <;> rw [hhead] at h <;>
            exact hnot _ (List.cons.inj h).1
    · rename_i hnil
      split at hstep
      · rename_i hstopped
        obtain rfl := Option.some.inj hstep
        have := hrelays.ends hphase (by rw [hnil]; rfl) (hrelays.stopped hstopped)
          hrelays.queue (by rw [hnil]; rfl) id
        exact ⟨rest, this⟩
      · cases hstep
  · cases hstep

theorem relays_proceed (hrelays : Relays ring frames rest s)
    (hkeeps : s.keepsFrames ring .run = true)
    (hstep : s.proceed ⟨ring, true, true⟩ = some s') :
    ∃ rest', Relays ring frames rest' s' := by
  cases hphase : s.phase with
  | loopTop => exact relays_loopTop hrelays hphase hkeeps hstep
  | frameTop => exact relays_frameTop hrelays hphase hstep
  | read => exact relays_nextChunk hrelays hphase hstep
  | frame frame =>
      simp only [proceed, hphase, Option.some.injEq] at hstep
      exact ⟨rest, hstep ▸ relays_dispatch hphase hrelays⟩
  | _ =>
      simp only [proceed, hphase] at hstep
      cases hstep

theorem relays_afterWrite {left : Nat} {next : AfterWrite}
    (hphase : s.phase = .write left next) (hrelays : Relays ring frames rest s) :
    Relays ring frames rest (s.afterWrite ⟨ring, true, true⟩ next) := by
  have hok := hrelays.phase
  have hleaving : s.phase.leaving = false := by rw [hphase]; rfl
  have hread : s.phase ≠ .read := by rw [hphase]; simp
  simp only [PhaseOk, hphase] at hok
  cases next with
  | pong =>
      have hhand : s.inHand = [] := by simp only [inHand, hphase]
      cases ring with
      | true => exact hrelays.go .frameTop hleaving rfl hhand rfl trivial hread
      | false =>
          refine hrelays.go .read hleaving rfl hhand rfl ?_ hread
          have hempty : s.buffer = [] := (hrelays.plain rfl).2 hread
          simp only [PhaseOk, hempty]
          rfl
  | close frame =>
      have htold := hrelays.told hleaving
      simp only [inHand, hphase] at htold
      refine ⟨hrelays.legal, hrelays.stream, fun _ => htold, by rintro ⟨⟩,
        fun _ => hrelays.isOpen hleaving, ⟨?_, fun _ => rfl⟩, ?_, hrelays.queue,
        hrelays.stopped⟩
      · rw [hok]
        simp
      · intro hring
        exact ⟨(hrelays.plain hring).1, fun _ => (hrelays.plain hring).2 hread⟩
  | pongSent => exact hok.elim
  | closed => exact hok.elim

/-- A write that has not taken everything. -/
theorem relays_writing {left left' : Nat} {next : AfterWrite}
    (hphase : s.phase = .write left next) (hrelays : Relays ring frames rest s) :
    Relays ring frames rest { s with phase := .write left' next } := by
  have hok := hrelays.phase
  have hleaving : s.phase.leaving = false := by rw [hphase]; rfl
  have htold := hrelays.told hleaving
  refine ⟨hrelays.legal, hrelays.stream, fun _ => ?_, by rintro ⟨⟩,
    fun _ => hrelays.isOpen hleaving, ?_, ?_, hrelays.queue, hrelays.stopped⟩
  · simp only [inHand, hphase] at htold
    cases next <;> exact htold
  · simp only [PhaseOk, hphase] at hok
    cases next <;> exact hok
  · intro hring
    obtain ⟨hqueue, hbuffer⟩ := hrelays.plain hring
    exact ⟨hqueue, fun _ => hbuffer (by rw [hphase]; simp)⟩

/-- A chunk or the end of the receive comes while the receive is under way. -/
theorem relays_received (hrelays : Relays ring frames rest s)
    (hreceiving : s.receiving ⟨ring, true, true⟩ = true) {chunk : RecvChunk}
    {unread : List UInt8} {stopped : Bool}
    (hbytes : queued [chunk] ++ unread = s.unread)
    (hchunk : (∃ bytes, chunk = .data bytes) ∨ (chunk = .eof ∧ stopped = true))
    (hstopped : stopped = true → unread = []) :
    Relays ring frames rest
      { s with queue := s.queue ++ [chunk], unread := unread, stopped := stopped } := by
  simp only [receiving, Bool.and_eq_true, Bool.not_eq_true'] at hreceiving
  obtain ⟨⟨hring, -⟩, hgoing⟩ := hreceiving
  refine ⟨hrelays.legal, ?_, hrelays.told, hrelays.left, hrelays.isOpen,
    hrelays.phase, ?_, ?_, hstopped⟩
  · have hstream := hrelays.stream
    rw [← hbytes] at hstream
    simpa [queued] using hstream
  · intro hplain
    rw [hplain] at hring
    cases hring
  · obtain ⟨chunks, hqueue | ⟨-, hend⟩⟩ := hrelays.queue
    · obtain ⟨bytes, rfl⟩ | ⟨rfl, hend⟩ := hchunk
      · exact ⟨chunks ++ [bytes], .inl (by simp [hqueue])⟩
      · exact ⟨chunks, .inr ⟨by rw [hqueue], hend⟩⟩
    · rw [hgoing] at hend
      cases hend

theorem relays_step (hrelays : Relays ring frames rest s) {input : WsInput}
    (hordinary : s.ordinary input = true)
    (hkeeps : s.keepsFrames ring input = true)
    (hstep : s.step ⟨ring, true, true⟩ input = some s') :
    ∃ rest', Relays ring frames rest' s' := by
  cases input with
  | run => exact relays_proceed hrelays hkeeps hstep
  | read size =>
      simp only [step, Option.ite_none_right_eq_some, Option.some.injEq] at hstep
      obtain ⟨⟨hphase, hplain, -⟩, rfl⟩ := hstep
      have hleaving : s.phase.leaving = false := by rw [hphase]; rfl
      obtain rfl : ring = false := by simpa using hplain
      obtain ⟨hqueue, -⟩ := hrelays.plain rfl
      have htold := hrelays.told hleaving
      simp only [inHand, hphase, List.nil_append] at htold
      refine relays_tryDecode (s := { s with unread := s.unread.drop size })
        hrelays.legal ?_ htold (hrelays.isOpen hleaving) (fun _ => hqueue) ?_
        hrelays.queue ?_
      · have hstream := hrelays.stream
        simp only [hqueue, queued, List.flatMap_nil, List.nil_append] at hstream ⊢
        rw [List.append_assoc, List.take_append_drop, hstream]
      · intro _ frame consumed hframe
        simpa [keepsFrames, hframe] using hkeeps
      · intro hstopped
        simp [hrelays.stopped hstopped]
  | eof =>
      simp only [step, Option.ite_none_right_eq_some, Option.some.injEq] at hstep
      obtain ⟨⟨hphase, hplain, hunread⟩, rfl⟩ := hstep
      obtain rfl : ring = false := by simpa using hplain
      obtain ⟨hqueue, -⟩ := hrelays.plain rfl
      exact ⟨rest, hrelays.ends hphase (by rw [hqueue]; rfl) hunread hrelays.queue
        (by rw [hqueue]; rfl) id⟩
  | readError => cases hordinary
  | wrote size =>
      simp only [step] at hstep
      split at hstep
      · rename_i left next hphase
        split at hstep
        · rename_i hzero
          simp [ordinary, hzero] at hordinary
        · split at hstep
          all_goals obtain rfl := Option.some.inj hstep
          · exact ⟨rest, relays_writing hphase hrelays⟩
          · exact ⟨rest, relays_afterWrite hphase hrelays⟩
      · cases hstep
  | writeError => cases hordinary
  | returned closes =>
      obtain rfl : closes = false := by simpa [ordinary] using hordinary
      simp only [step, Bool.not_false, Bool.and_true, Bool.or_false] at hstep
      split at hstep
      · rename_i hphase
        obtain rfl := Option.some.inj hstep
        exact ⟨rest, hrelays.go .loopTop (by rw [hphase]; rfl) rfl
          (by simp only [inHand, hphase]) rfl trivial (by rw [hphase]; simp)⟩
      · rename_i hphase
        obtain rfl := Option.some.inj hstep
        exact ⟨rest, hrelays.go .loopTop (by rw [hphase]; rfl) rfl
          (by simp only [inHand, hphase]) rfl trivial (by rw [hphase]; simp)⟩
      · rename_i hphase
        obtain rfl := Option.some.inj hstep
        refine ⟨rest, hrelays.legal, hrelays.stream, by rintro ⟨⟩,
          fun _ => hrelays.left (by rw [hphase]; rfl), by rintro ⟨⟩, trivial, ?_,
          hrelays.queue, hrelays.stopped⟩
        intro hring
        obtain ⟨hqueue, hbuffer⟩ := hrelays.plain hring
        exact ⟨hqueue, fun _ => hbuffer (by rw [hphase]; simp)⟩
      · cases hstep
  | threw => cases hordinary
  | completion size more =>
      simp only [step, Option.ite_none_right_eq_some, Option.some.injEq] at hstep
      obtain ⟨⟨hreceiving, -⟩, rfl⟩ := hstep
      refine ⟨rest, relays_received hrelays hreceiving ?_ (.inl ⟨_, rfl⟩) ?_⟩
      · simp [queued]
      · intro hlast
        simp only [ordinary, Bool.or_eq_true, decide_eq_true_eq] at hordinary
        rcases hordinary with hmore | hall
        · rw [hmore] at hlast
          cases hlast
        · rw [hall, List.drop_length]
  | recvEof =>
      simp only [step, Option.ite_none_right_eq_some, Option.some.injEq] at hstep
      obtain ⟨⟨hreceiving, hunread⟩, rfl⟩ := hstep
      exact ⟨rest, relays_received hrelays hreceiving rfl (.inr ⟨rfl, rfl⟩)
        fun _ => hunread⟩
  | recvError => cases hordinary

/-- What can happen next where nothing fails and everything comes byte by byte. -/
def nextInput (ring : Bool) (s : WsSession) : WsInput :=
  match s.phase with
  | .onOpen | .handler | .onClose => .returned false
  | .write _ _ => .wrote 1
  | .read =>
      if ring then
        if !s.queue.isEmpty || s.stopped then .run
        else if s.unread.isEmpty then .recvEof
        else .completion 1 true
      else if s.unread.isEmpty then .eof
      else .read 1
  | _ => .run

/-- A connection that has not ended can go on. -/
theorem step_nextInput (ring : Bool) (s : WsSession) (hended : ¬ s.Ended) :
    s.ordinary (s.nextInput ring) = true ∧
      ∃ next, s.step ⟨ring, true, true⟩ (s.nextInput ring) = some next := by
  rw [← Option.isSome_iff_exists]
  cases hphase : s.phase with
  | onOpen | handler | onClose =>
      simp only [nextInput, hphase]
      exact ⟨rfl, by simp [step, hphase]⟩
  | loopTop =>
      simp only [nextInput, hphase, step, proceed]
      refine ⟨rfl, ?_⟩
      split
      · rfl
      · split <;> rfl
  | frameTop =>
      simp only [nextInput, hphase, step, proceed]
      refine ⟨rfl, ?_⟩
      split <;> rfl
  | frame frame =>
      simp only [nextInput, hphase, step, proceed]
      exact ⟨rfl, rfl⟩
  | write left next =>
      simp only [nextInput, hphase, step]
      refine ⟨rfl, ?_⟩
      rw [if_neg (by omega)]
      split <;> rfl
  | read =>
      simp only [nextInput, hphase]
      cases ring with
      | false =>
          cases hunread : s.unread with
          | nil => exact ⟨rfl, by simp [step, hphase, hunread]⟩
          | cons byte unread =>
              exact ⟨rfl, by simp [step, hphase, hunread]⟩
      | true =>
          cases hqueue : s.queue with
          | cons chunk queue =>
              refine ⟨rfl, ?_⟩
              cases chunk <;> simp [step, proceed, hphase, hqueue]
          | nil =>
              cases hstopped : s.stopped with
              | true => exact ⟨rfl, by simp [step, proceed, hphase, hqueue, hstopped]⟩
              | false =>
                  have hreceiving : s.receiving ⟨true, true, true⟩ = true := by
                    simp [receiving, hphase, hstopped]
                  cases hunread : s.unread with
                  | nil => exact ⟨rfl, by simp [step, hreceiving, hunread]⟩
                  | cons byte unread =>
                      exact ⟨rfl, by simp [step, hreceiving, hunread]⟩
  | finished => exact absurd (.inl hphase) hended
  | failed => exact absurd (.inr hphase) hended

/-- One more byte does not complete a frame and bring something behind it. -/
theorem Relays.keeps_read (hrelays : Relays false frames rest s) (hphase : s.phase = .read) :
    s.keepsFrames false (.read 1) = true := by
  have hmore : decode s.buffer = .more := by
    have hok := hrelays.phase
    simpa only [PhaseOk, hphase] using hok
  have hstream : s.buffer ++ s.unread.take 1 ++ s.unread.drop 1 = rest.flatMap wire := by
    have hall := hrelays.stream
    rw [(hrelays.plain rfl).1] at hall
    rwa [List.append_assoc, List.take_append_drop]
  unfold keepsFrames
  cases hdecode : decode (s.buffer ++ s.unread.take 1) with
  | more | tooLong => simp only [hdecode]
  | frame frame consumed =>
      obtain ⟨hpayload, hsize⟩ := WebSocketFrame.decode_size hdecode
      simp only [hdecode, decide_eq_true_eq]
      by_contra hshort
      obtain ⟨found, rest', tail, rfl, hbuffer, hfound, -⟩ | ⟨hnone, -⟩ :=
        WebSocketFrame.frameCodec.next hrelays.legal hstream
      · rw [WebSocketFrame.decodeFrame_eq_some, hdecode] at hfound
        obtain ⟨rfl, rfl⟩ := Decoded.frame.inj hfound
        have hone : (s.unread.take 1).length ≤ 1 := List.length_take_le 1 s.unread
        rw [List.length_append] at hshort hsize
        have hlong : (wire frame).length ≤ s.buffer.length := by omega
        -- so the frame was there before the byte came
        have htake := congrArg (List.take (wire frame).length) hbuffer
        rw [List.take_append_of_le_length hlong, List.take_left' rfl] at htake
        have hfront : s.buffer = wire frame ++ s.buffer.drop (wire frame).length := by
          conv_rhs => rw [← htake]
          rw [List.length_take_of_le hlong, List.take_append_drop]
        rw [hfront, WebSocketFrame.decode_wire (hrelays.legal frame List.mem_cons_self)] at hmore
        cases hmore
      · have hsome := hnone fun hempty => by
          rw [hempty, List.length_nil] at hsize
          omega
        rw [WebSocketFrame.decodeFrame, hdecode] at hsome
        cases hsome

/-- The end of the receive has not come, or it is all that is left in the queue of a
coroutine that waits for it. -/
def OnTime (ring : Bool) (s : WsSession) : Prop :=
  ring = true → s.stopped = true →
    s.phase.leaving = true ∨ s.phase = .read ∧ s.queue = [.eof]

theorem OnTime.going (hontime : s.OnTime ring) (hleaving : s.phase.leaving = false)
    (hread : s.phase ≠ .read) (hring : ring = true) : s.stopped = false := by
  cases hstopped : s.stopped with
  | false => rfl
  | true =>
      obtain hleft | ⟨hphase, -⟩ := hontime hring hstopped
      · rw [hleaving] at hleft
        cases hleft
      · exact absurd hphase hread

/-- A step that receives nothing leaves the receive going. -/
theorem onTime_of_going {cfg : WsConfig} {input : WsInput} {next : WsSession}
    (hgoing : ring = true → s.stopped = false)
    (hinput : input.receives = false) (hstep : s.step cfg input = some next) :
    next.OnTime ring := by
  intro hring hstopped
  rw [step_stopped hinput hstep, hgoing hring] at hstopped
  cases hstopped

/-- In ring mode the next chunk is taken, or the receive brings one. -/
theorem OnTime.waiting (hontime : s.OnTime true) (hphase : s.phase = .read) {next : WsSession}
    (hstep : s.step ⟨true, true, true⟩ (s.nextInput true) = some next) : next.OnTime true := by
  cases hqueue : s.queue with
  | cons chunk queue =>
      have hrun : s.nextInput true = .run := by simp [nextInput, hphase, hqueue]
      rw [hrun] at hstep
      intro _ hstopped
      rw [step_stopped rfl hstep] at hstopped
      obtain hleft | ⟨-, hlast⟩ := hontime rfl hstopped
      · rw [hphase] at hleft
        cases hleft
      · rw [hqueue] at hlast
        obtain ⟨rfl, rfl⟩ := List.cons.inj hlast
        simp only [step, proceed, hphase, hqueue, if_true, Option.some.injEq] at hstep
        exact .inl (by rw [← hstep]; rfl)
  | nil =>
      cases hstopped : s.stopped with
      | true =>
          obtain hleft | ⟨-, hlast⟩ := hontime rfl hstopped
          · rw [hphase] at hleft
            cases hleft
          · rw [hqueue] at hlast
            cases hlast
      | false =>
          cases hunread : s.unread with
          | nil =>
              have heof : s.nextInput true = .recvEof := by
                simp [nextInput, hphase, hqueue, hstopped, hunread]
              rw [heof] at hstep
              obtain ⟨-, hnext⟩ := Option.ite_none_right_eq_some.mp hstep
              obtain rfl := Option.some.inj hnext
              exact fun _ _ => .inr ⟨hphase, by rw [hqueue]; rfl⟩
          | cons byte unread =>
              have hchunk : s.nextInput true = .completion 1 true := by
                simp [nextInput, hphase, hqueue, hstopped, hunread]
              rw [hchunk] at hstep
              obtain ⟨-, hnext⟩ := Option.ite_none_right_eq_some.mp hstep
              obtain rfl := Option.some.inj hnext
              exact fun _ hend => by cases hend

/-- Such a connection can go on without a loss, and stays so. -/
theorem Relays.goes_on (hrelays : Relays ring frames rest s) (hontime : s.OnTime ring)
    {next : WsSession}
    (hstep : s.step ⟨ring, true, true⟩ (s.nextInput ring) = some next) :
    s.keepsFrames ring (s.nextInput ring) = true ∧ next.OnTime ring := by
  cases hphase : s.phase with
  | loopTop =>
      have hgoing := hontime.going (by rw [hphase]; rfl) (by simp [hphase])
      have hrun : s.nextInput ring = .run := by simp only [nextInput, hphase]
      rw [hrun] at hstep ⊢
      refine ⟨?_, onTime_of_going hgoing rfl hstep⟩
      simp only [keepsFrames, hphase]
      cases ring with
      | false => rfl
      | true => simp only [hgoing rfl, Bool.and_false, Bool.not_false, Bool.true_or]
  | frameTop | frame =>
      have hgoing := hontime.going (by rw [hphase]; rfl) (by simp [hphase])
      have hrun : s.nextInput ring = .run := by simp only [nextInput, hphase]
      rw [hrun] at hstep ⊢
      exact ⟨by simp only [keepsFrames, hphase], onTime_of_going hgoing rfl hstep⟩
  | onOpen | handler =>
      have hgoing := hontime.going (by rw [hphase]; rfl) (by simp [hphase])
      have hreturns : s.nextInput ring = .returned false := by simp only [nextInput, hphase]
      rw [hreturns] at hstep ⊢
      exact ⟨rfl, onTime_of_going hgoing rfl hstep⟩
  | write left after =>
      have hgoing := hontime.going (by rw [hphase]; rfl) (by simp [hphase])
      have hwrites : s.nextInput ring = .wrote 1 := by simp only [nextInput, hphase]
      rw [hwrites] at hstep ⊢
      exact ⟨rfl, onTime_of_going hgoing rfl hstep⟩
  | onClose =>
      have hreturns : s.nextInput ring = .returned false := by simp only [nextInput, hphase]
      rw [hreturns] at hstep ⊢
      simp only [step, hphase, Option.some.injEq] at hstep
      exact ⟨rfl, fun _ _ => .inl (by rw [← hstep]; rfl)⟩
  | read =>
      cases ring with
      | true =>
          refine ⟨?_, hontime.waiting hphase hstep⟩
          simp only [nextInput, hphase, if_true]
          split
          · simp only [keepsFrames, hphase]
          · split <;> rfl
      | false =>
          refine ⟨?_, fun hring => absurd hring Bool.false_ne_true⟩
          simp only [nextInput, hphase, Bool.false_eq_true, if_false]
          split
          · rfl
          · exact hrelays.keeps_read hphase
  | finished | failed =>
      have hrun : s.nextInput ring = .run := by simp only [nextInput, hphase]
      rw [hrun] at hstep
      simp only [step, proceed, hphase] at hstep
      cases hstep

end WsSession

/-- In both modes the handlers are told the messages of the stream, in order
and each once, if no read goes beyond the frame that it completes and the
loop is not left with a frame in its buffers.  No run goes on for ever and none
stops before the connection has ended; as long as the receive is under way, the
messages that are left can still all be told. -/
theorem messages_told (ring : Bool) (frames : List WebSocketFrame)
    (hlegal : ∀ frame ∈ frames, frame.Legal) (word : List WsInput)
    {last : WsSession}
    (hmeets : (WsSession.machine ⟨ring, true, true⟩ (frames.flatMap wire)).Meets
      (fun s input => s.ordinary input = true ∧ s.keepsFrames ring input = true)
      word)
    (hrun : (WsSession.machine ⟨ring, true, true⟩ (frames.flatMap wire)).run word =
      some last) :
    last.told <+: messages frames ∧
      (last.Ended → last.told = messages frames) ∧
      word.length + last.work ≤ (WsSession.init (frames.flatMap wire)).work ∧
      (¬ last.Ended → ∃ input, last.ordinary input = true ∧
        (last.step ⟨ring, true, true⟩ input).isSome = true) ∧
      ((ring = true → last.stopped = false) → ∃ more final,
        (WsSession.machine ⟨ring, true, true⟩ (frames.flatMap wire)).MeetsFrom
          (fun s input => s.ordinary input = true ∧ s.keepsFrames ring input = true)
          last more ∧
        (WsSession.machine ⟨ring, true, true⟩ (frames.flatMap wire)).runFrom last more =
          some final ∧
        final.Ended ∧ final.told = messages frames) := by
  have hstart : WsSession.Relays ring frames frames
      (WsSession.init (frames.flatMap wire)) :=
    ⟨hlegal, rfl, fun _ => rfl, by rintro ⟨⟩, fun _ => rfl, trivial,
      fun _ => ⟨rfl, fun _ => rfl⟩, ⟨[], .inl rfl⟩, by rintro ⟨⟩⟩
  have hrelays : ∃ rest, WsSession.Relays ring frames rest last := by
    refine Machine.run_invariant _
      (I := fun s => ∃ rest, WsSession.Relays ring frames rest s)
      ⟨frames, hstart⟩ ?_ word hmeets hrun
    rintro state input next ⟨rest, hstate⟩ ⟨hordinary, hkeeps⟩ hstep
    exact WsSession.relays_step hstate hordinary hkeeps hstep
  have hall : ∀ s : WsSession, (∃ rest, WsSession.Relays ring frames rest s) → s.Ended →
      s.told = messages frames := by
    rintro s ⟨rest, hrelays⟩ hended
    refine hrelays.left ?_
    obtain hphase | hphase := hended <;> rw [hphase] <;> rfl
  have hgo : ∀ s : WsSession,
      (∃ rest, WsSession.Relays ring frames rest s) ∧ s.OnTime ring → ¬ s.Ended →
        ∃ input next, (s.ordinary input = true ∧ s.keepsFrames ring input = true) ∧
          s.step ⟨ring, true, true⟩ input = some next ∧
          (∃ rest, WsSession.Relays ring frames rest next) ∧ next.OnTime ring := by
    rintro s ⟨⟨rest, hrelays⟩, hontime⟩ hended
    obtain ⟨hordinary, next, hstep⟩ := WsSession.step_nextInput ring s hended
    obtain ⟨hkeeps, hnext⟩ := hrelays.goes_on hontime hstep
    exact ⟨_, next, ⟨hordinary, hkeeps⟩, hstep,
      WsSession.relays_step hrelays hordinary hkeeps hstep, hnext⟩
  refine ⟨?_, hall last hrelays, WsSession.run_length hrun, ?_, ?_⟩
  · obtain ⟨rest, hrelays⟩ := hrelays
    cases hleaving : last.phase.leaving with
    | true =>
        exact ⟨[], by rw [List.append_nil, hrelays.left hleaving]⟩
    | false =>
        rw [← hrelays.told hleaving]
        exact List.prefix_append _ _
  · intro hended
    obtain ⟨hordinary, hstep⟩ := WsSession.step_nextInput ring last hended
    exact ⟨last.nextInput ring, hordinary, Option.isSome_iff_exists.mpr hstep⟩
  · intro hgoing
    have hontime : last.OnTime ring := fun hring hstopped => by
      rw [hgoing hring] at hstopped
      cases hstopped
    obtain ⟨more, final, hmore, hfinal, hended, hkept, -⟩ :=
      (WsSession.machine ⟨ring, true, true⟩ (frames.flatMap wire)).runFrom_reaches
        (fun _ _ _ hstep => WsSession.work_step hstep) hgo
        (⟨hrelays, hontime⟩ : (∃ rest, WsSession.Relays ring frames rest last) ∧
          last.OnTime ring)
    exact ⟨more, final, hmore, hfinal, hended, hall final hkept hended⟩

/-- Two text frames `a` and `b`, masked with zeros. -/
def twoTexts : List WebSocketFrame :=
  [⟨true, .text, true, 0, [97]⟩, ⟨true, .text, true, 0, [98]⟩]

theorem twoTexts_legal : ∀ frame ∈ twoTexts, frame.Legal := by
  intro frame hframe
  simp only [twoTexts, List.mem_cons, List.not_mem_nil, or_false] at hframe
  rcases hframe with rfl | rfl <;> exact ⟨by simp, by decide, by simp⟩

/-- One frame in two reads and one in a single read. -/
def cutReads : List WsInput :=
  [.returned false, .run, .read 3, .read 4, .run, .returned false, .run, .read 7,
    .run, .returned false, .run, .eof]

theorem messages_told_cutReads :
    ∃ last, (WsSession.machine ⟨false, true, true⟩ (twoTexts.flatMap wire)).run
        cutReads = some last ∧
      last.told = [.onText [97], .onText [98]] := by
  have hend : ((WsSession.machine ⟨false, true, true⟩ (twoTexts.flatMap wire)).run
      cutReads).map (·.phase) = some .failed := by
    decide
  obtain ⟨last, hrun, hphase⟩ := Option.map_eq_some_iff.mp hend
  exact ⟨last, hrun, (messages_told false twoTexts twoTexts_legal cutReads
    (by decide) hrun).2.1 (.inr hphase)⟩

/-- Both frames in one read, and in ring mode both in one chunk with the end of
the stream behind them while the first handler runs: the second message is
lost. -/
theorem sharedRead_loses :
    (((WsSession.machine ⟨false, true, true⟩ (twoTexts.flatMap wire)).run
        [.returned false, .run, .read 14, .run, .returned false, .run, .eof]).map
          WsSession.told = some [.onText [97]]) ∧
      (((WsSession.machine ⟨true, true, true⟩ (twoTexts.flatMap wire)).run
        [.returned false, .run, .run, .completion 14 true, .run, .run, .run,
          .recvEof, .returned false, .run, .returned false]).map
            WsSession.told = some [.onText [97]]) ∧
      messages twoTexts = [.onText [97], .onText [98]] := by
  decide

end UltraNet
