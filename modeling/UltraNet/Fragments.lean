/-
Reassembly of fragmented messages by the read loops of `WsServer`: the frames
that `read_frame` returns, and the handlers that are called for them.
-/
import UltraNet.WsMessages

namespace UltraNet

/-- A message in its frames: the first one tells the kind, and `fin` is set in
the last one only. -/
structure FragmentedMessage where
  first : WebSocketFrame
  more : List WebSocketFrame
  kind : first.opcode = .text ∨ first.opcode = .binary
  continued : ∀ frame ∈ more, frame.opcode = .continuation
  goesOn : ∀ frame ∈ (first :: more).dropLast, frame.fin = false
  ends : ∀ frame ∈ (first :: more).getLast?, frame.fin = true

namespace FragmentedMessage

def frames (message : FragmentedMessage) : List WebSocketFrame :=
  message.first :: message.more

def payload (message : FragmentedMessage) : List UInt8 :=
  message.frames.flatMap (·.payload)

/-- The call that the message is worth. -/
def call (message : FragmentedMessage) : WsCall :=
  if message.first.opcode = .text then .onText message.payload
  else .onBinary message.payload

end FragmentedMessage

def dataFrames (frames : List WebSocketFrame) : List WebSocketFrame :=
  frames.filter (IsDataFrame ·)

/-- The frames of the messages one after the other, with ping and pong frames
anywhere between them. -/
structure Interleaved (messages : List FragmentedMessage)
    (frames : List WebSocketFrame) : Prop where
  opcodes : ∀ frame ∈ frames,
    IsDataFrame frame ∨ frame.opcode = .ping ∨ frame.opcode = .pong
  data : dataFrames frames = messages.flatMap FragmentedMessage.frames

/-- The final frame of a message. -/
def IsFinal (frame : WebSocketFrame) : Prop := IsDataFrame frame ∧ frame.fin = true

instance : DecidablePred IsFinal := fun frame =>
  inferInstanceAs (Decidable (IsDataFrame frame ∧ _))

/-- What happens to a read loop: `read_frame` returns a frame, or anything that
the body waits for, or a completion of the receive. -/
inductive LoopInput where
  | frame (found : WebSocketFrame)
  | other (input : WsInput)

def LoopInput.returned : LoopInput → List WebSocketFrame
  | frame found => [found]
  | other _ => []

def framesOf (word : List LoopInput) : List WebSocketFrame :=
  word.flatMap LoopInput.returned

namespace WsSession

/-- The read loop, with any frames from `read_frame`. -/
def loopStep (cfg : WsConfig) (s : WsSession) : LoopInput → Option WsSession
  | .frame frame =>
      if s.phase = .loopTop ∧ s.isOpen = true ∧ ¬ (cfg.ring && s.stopped) = true then
        { s with phase := .frame frame }.step cfg .run
      else none
  | .other input => if input = .run then none else s.step cfg input

/-- `read_loop`, or `read_loop_ring`. -/
def readLoop (ring : Bool) : Machine WsSession LoopInput :=
  ⟨init [], loopStep ⟨ring, true, true⟩⟩

end WsSession

theorem dataFrames_nil : dataFrames [] = [] := rfl

theorem dataFrames_append (frames others : List WebSocketFrame) :
    dataFrames (frames ++ others) = dataFrames frames ++ dataFrames others :=
  List.filter_append _ _

theorem dataFrames_cons_data {frame : WebSocketFrame} (hdata : IsDataFrame frame)
    (frames : List WebSocketFrame) :
    dataFrames (frame :: frames) = frame :: dataFrames frames := by
  simp [dataFrames, hdata]

theorem dataFrames_cons_other {frame : WebSocketFrame} (hdata : ¬ IsDataFrame frame)
    (frames : List WebSocketFrame) :
    dataFrames (frame :: frames) = dataFrames frames := by
  simp [dataFrames, hdata]

/-- The final frames are data frames. -/
theorem countP_dataFrames (frames : List WebSocketFrame) :
    (dataFrames frames).countP IsFinal = frames.countP IsFinal := by
  induction frames with
  | nil => rfl
  | cons frame frames ih =>
      by_cases hdata : IsDataFrame frame
      · rw [dataFrames_cons_data hdata, List.countP_cons, List.countP_cons, ih]
      · have hnot : ¬ IsFinal frame := fun hfinal => hdata hfinal.1
        rw [dataFrames_cons_other hdata, List.countP_cons, ih]
        simp [hnot]

namespace FragmentedMessage

/-- `fin` is set exactly in the last frame. -/
theorem fin_iff (message : FragmentedMessage) {part tail : List WebSocketFrame}
    {frame : WebSocketFrame} (hsplit : message.frames = part ++ frame :: tail) :
    frame.fin = true ↔ tail = [] := by
  have hgoesOn := message.goesOn
  have hends := message.ends
  rw [show message.first :: message.more = part ++ frame :: tail from hsplit]
    at hgoesOn hends
  cases tail with
  | nil =>
      rw [List.getLast?_concat] at hends
      exact iff_of_true (hends frame rfl) rfl
  | cons next tail =>
      have hfin := hgoesOn frame (by simp)
      simp [hfin]

/-- The first frame tells the kind, and the others continue it. -/
theorem opcode_cases (message : FragmentedMessage)
    {part tail : List WebSocketFrame} {frame : WebSocketFrame}
    (hsplit : message.frames = part ++ frame :: tail) :
    (part = [] ∧ frame = message.first) ∨
      (part.head? = some message.first ∧ frame.opcode = .continuation) := by
  unfold frames at hsplit
  cases part with
  | nil =>
      rw [List.nil_append, List.cons.injEq] at hsplit
      exact .inl ⟨rfl, hsplit.1.symm⟩
  | cons head part =>
      rw [List.cons_append, List.cons.injEq] at hsplit
      obtain ⟨rfl, hmore⟩ := hsplit
      refine .inr ⟨rfl, message.continued frame ?_⟩
      rw [hmore]
      exact List.mem_append_right _ List.mem_cons_self

theorem isDataFrame (message : FragmentedMessage) {frame : WebSocketFrame}
    (hframe : frame ∈ message.frames) : IsDataFrame frame := by
  obtain rfl | hmore := List.mem_cons.mp hframe
  · obtain h | h := message.kind
    · exact .inl h
    · exact .inr (.inl h)
  · exact .inr (.inr (message.continued frame hmore))

/-- No frame before the last one is final. -/
theorem countP_front (message : FragmentedMessage) {part tail : List WebSocketFrame}
    {frame : WebSocketFrame} (hsplit : message.frames = part ++ frame :: tail) :
    part.countP IsFinal = 0 := by
  rw [List.countP_eq_zero]
  intro other hother
  obtain ⟨before, behind, rfl⟩ := List.append_of_mem hother
  have hother : message.frames = before ++ other :: (behind ++ frame :: tail) := by
    rw [hsplit, List.append_assoc]
    rfl
  have hnot : behind ++ frame :: tail ≠ [] := by simp
  intro hfinal
  exact hnot ((message.fin_iff hother).mp (of_decide_eq_true hfinal).2)

theorem countP_frames (message : FragmentedMessage) :
    message.frames.countP IsFinal = 1 := by
  have hlast := List.dropLast_append_getLast
      (List.cons_ne_nil message.first message.more)
  have hsplit : message.frames = message.frames.dropLast ++
      [(message.first :: message.more).getLast (List.cons_ne_nil _ _)] := hlast.symm
  have hfinal : IsFinal
      ((message.first :: message.more).getLast (List.cons_ne_nil _ _)) :=
    ⟨message.isDataFrame (List.getLast_mem _), (message.fin_iff hsplit).mpr rfl⟩
  rw [hsplit, List.countP_append, message.countP_front hsplit, List.countP_singleton,
    if_pos (decide_eq_true hfinal)]

theorem countP_messages (messages : List FragmentedMessage) :
    (messages.flatMap frames).countP IsFinal = messages.length := by
  induction messages with
  | nil => rfl
  | cons message messages ih =>
      rw [List.flatMap_cons, List.countP_append, countP_frames, ih, List.length_cons,
        Nat.add_comm]

end FragmentedMessage

namespace WsSession

/-- What the loop has done with the data frames `seen`: the messages of `done`
were given to the handlers, and the buffer holds the payloads of `part`, the
front of the next message. -/
structure Reassembles (messages : List FragmentedMessage)
    (seen : List WebSocketFrame)
    (done rest : List FragmentedMessage) (part : List WebSocketFrame)
    (s : WsSession) : Prop where
  messages : messages = done ++ rest
  seen : seen = done.flatMap FragmentedMessage.frames ++ part
  front : part = [] ∨ ∃ message later frame tail, rest = message :: later ∧
    message.frames = part ++ frame :: tail
  told : s.told = done.map FragmentedMessage.call
  buffer : s.fragBuf = part.flatMap (·.payload)
  opcode : s.fragOp = (part.head?.map (·.opcode)).getD .continuation

variable {messages done rest : List FragmentedMessage}
  {seen part : List WebSocketFrame} {s : WsSession} {ring : Bool}

/-- A data frame in the loop. -/
theorem dispatch_data {frame : WebSocketFrame} (hdata : IsDataFrame frame) :
    s.dispatch ⟨ring, true, true⟩ frame =
      let op := if frame.opcode = .continuation then s.fragOp else frame.opcode
      if frame.fin then s.deliver ⟨ring, true, true⟩ op (s.fragBuf ++ frame.payload)
      else { s with
        fragBuf := s.fragBuf ++ frame.payload, fragOp := op, phase :=
          .loopTop } := by
  unfold dispatch
  obtain h | h | h := hdata
  all_goals simp only [h]

theorem deliver_message (s : WsSession) (message : FragmentedMessage) :
    s.deliver ⟨ring, true, true⟩ message.first.opcode message.payload =
      { s with
        fragBuf := []
        fragOp := .continuation
        phase := .handler
        calls := s.calls ++ [message.call] } := by
  unfold deliver FragmentedMessage.call
  obtain h | h := message.kind
  · simp [h]
  · simp [h]

theorem isMessage_call (message : FragmentedMessage) :
    message.call.isMessage = true := by
  unfold FragmentedMessage.call
  split
  · rfl
  · rfl

/-- The next data frame is the next one of the message under way, or the first
one of the next message. -/
theorem Reassembles.next (hreassembles : Reassembles messages seen done rest part s)
    {frame : WebSocketFrame} {later : List WebSocketFrame}
    (hnext : seen ++ frame :: later = messages.flatMap FragmentedMessage.frames) :
    ∃ message others tail, rest = message :: others ∧
      message.frames = part ++ frame :: tail := by
  obtain ⟨rfl, rfl, hfront, -, -, -⟩ := hreassembles
  rw [List.flatMap_append, List.append_assoc, List.append_cancel_left_eq] at hnext
  cases rest with
  | nil =>
      have hlength := congrArg List.length hnext
      simp at hlength
  | cons message others =>
      obtain rfl | ⟨_, _, next, tail, hrest, hframes⟩ := hfront
      · rw [List.nil_append, List.flatMap_cons, FragmentedMessage.frames,
          List.cons_append, List.cons.injEq] at hnext
        exact ⟨message, others, message.more, rfl, by rw [hnext.1]; rfl⟩
      · obtain ⟨rfl, rfl⟩ := List.cons.inj hrest
        rw [List.flatMap_cons, hframes, List.append_assoc,
          List.append_cancel_left_eq, List.cons_append, List.cons.injEq] at hnext
        exact ⟨_, _, tail, rfl, by rw [hnext.1, hframes]⟩

/-- A data frame in the loop: the message goes on, or it is complete and its
handler is called. -/
theorem Reassembles.dispatch (hreassembles : Reassembles messages seen
    done rest part s)
    {frame : WebSocketFrame} {later : List WebSocketFrame}
    (hnext : seen ++ frame :: later = messages.flatMap FragmentedMessage.frames) :
    ∃ done rest part, Reassembles messages (seen ++ [frame]) done rest part
      (s.dispatch ⟨ring, true, true⟩ frame) := by
  obtain ⟨message, others, tail, rfl, hframes⟩ := hreassembles.next hnext
  obtain ⟨rfl, rfl, -, htold, hbuffer, hopcode⟩ := hreassembles
  have hfin := message.fin_iff hframes
  have hdata : IsDataFrame frame :=
    message.isDataFrame (by rw [hframes]; simp)
  have hop : (if frame.opcode = .continuation then s.fragOp else frame.opcode) =
      message.first.opcode := by
    obtain ⟨rfl, rfl⟩ | ⟨hhead, hcontinued⟩ := message.opcode_cases hframes
    · obtain h | h := message.kind
      · simp [h]
      · simp [h]
    · rw [if_pos hcontinued, hopcode, hhead]
      rfl
  rw [dispatch_data hdata]
  simp only [hop]
  cases htail : tail with
  | nil =>
      have hpayload : s.fragBuf ++ frame.payload = message.payload := by
        rw [hbuffer, FragmentedMessage.payload, hframes, htail]
        simp
      rw [if_pos (hfin.mpr htail), hpayload, deliver_message]
      refine ⟨done ++ [message], others, [], ⟨by simp, ?_, .inl rfl, ?_, rfl, rfl⟩⟩
      · rw [List.flatMap_append, List.flatMap_singleton, hframes, htail]
        simp
      · rw [WsSession.told, filter_message _ (isMessage_call message),
          ← WsSession.told,
          htold, List.map_append]
        rfl
  | cons next tail =>
      have hnot : ¬ frame.fin = true := by
        rw [hfin, htail]
        simp
      rw [if_neg hnot]
      refine ⟨done, message :: others, part ++ [frame],
        ⟨rfl, by simp, .inr ⟨message, others, next, tail, rfl, ?_⟩, htold, ?_, ?_⟩⟩
      · rw [hframes, htail]
        simp
      · rw [hbuffer]
        simp
      · obtain ⟨rfl, rfl⟩ | ⟨hhead, -⟩ := message.opcode_cases hframes
        · rfl
        · rw [List.head?_append, hhead]
          rfl

/-- The phases between two frames. -/
def Between (s : WsSession) : Prop :=
  match s.phase with
  | .onOpen | .loopTop | .handler | .failed | .write _ .pongSent => True
  | _ => False

theorem deliver_waits (ring : Bool) (s : WsSession) (op : OpCode)
    (message : List UInt8) :
    ((s.deliver ⟨ring, true, true⟩ op message).phase = .loopTop ∨
        (s.deliver ⟨ring, true, true⟩ op message).phase = .handler) ∧
      (s.deliver ⟨ring, true, true⟩ op message).isOpen = s.isOpen ∧
        (s.deliver ⟨ring, true, true⟩ op message).stopped = s.stopped := by
  by_cases htext : op = .text
  · simp [deliver, htext]
  · by_cases hbinary : op = .binary
    · simp [deliver, hbinary]
    · simp [deliver, htext, hbinary]

/-- What the body waits for after a frame. -/
theorem dispatch_waits (ring : Bool) (s : WsSession) {frame : WebSocketFrame}
    (hopcode : IsDataFrame frame ∨ frame.opcode = .ping ∨ frame.opcode = .pong) :
    ((s.dispatch ⟨ring, true, true⟩ frame).phase = .loopTop ∨
        (s.dispatch ⟨ring, true, true⟩ frame).phase = .handler ∨
        ∃ size, (s.dispatch ⟨ring, true, true⟩ frame).phase =
          .write (WebSocketFrame.encodedSize size) .pongSent) ∧
      (s.dispatch ⟨ring, true, true⟩ frame).isOpen = s.isOpen ∧
        (s.dispatch ⟨ring, true, true⟩ frame).stopped = s.stopped := by
  obtain hdata | hping | hpong := hopcode
  · rw [dispatch_data hdata]
    simp only
    split
    · obtain ⟨hphase, hsame⟩ := deliver_waits ring s _ _
      exact ⟨hphase.elim .inl fun h => .inr (.inl h), hsame⟩
    · exact ⟨.inl rfl, rfl, rfl⟩
  · unfold dispatch
    rw [hping]
    exact ⟨.inr (.inr ⟨_, rfl⟩), rfl, rfl⟩
  · unfold dispatch
    rw [hpong]
    exact ⟨.inl rfl, rfl, rfl⟩

theorem dispatch_between (s : WsSession) {frame : WebSocketFrame}
    (hopcode : IsDataFrame frame ∨ frame.opcode = .ping ∨ frame.opcode = .pong) :
    (s.dispatch ⟨ring, true, true⟩ frame).Between := by
  obtain ⟨h | h | ⟨size, h⟩, -⟩ := dispatch_waits ring s hopcode
  all_goals
    rw [Between, h]
    trivial

/-- Between two frames the buffer and the calls stay as they are. -/
theorem step_between {next : WsSession} (hbetween : s.Between) {input : WsInput}
    (hinput : input ≠ .run) (hstep : s.step ⟨ring, true, true⟩ input = some next) :
    next.Between ∧ next.fragBuf = s.fragBuf ∧ next.fragOp = s.fragOp ∧
      next.told = s.told := by
  cases input with
  | run => exact absurd rfl hinput
  | read | eof | readError =>
      simp only [step, Option.ite_none_right_eq_some] at hstep
      obtain ⟨⟨hphase, -⟩, -⟩ := hstep
      rw [Between, hphase] at hbetween
      exact hbetween.elim
  | wrote size =>
      simp only [step] at hstep
      split at hstep
      · rename_i left after hphase
        unfold Between at hbetween
        simp only [hphase] at hbetween
        cases after with
        | pongSent =>
            split at hstep
            · cases hstep
              exact ⟨trivial, rfl, rfl, rfl⟩
            · split at hstep
              all_goals
                cases hstep
                exact ⟨trivial, rfl, rfl, rfl⟩
        | _ => exact hbetween.elim
      · cases hstep
  | writeError | threw =>
      simp only [step] at hstep
      split at hstep
      all_goals
        cases hstep
        try exact ⟨trivial, rfl, rfl, rfl⟩
  | returned closes =>
      unfold Between at hbetween
      simp only [step] at hstep
      split at hstep
      · cases hstep
        exact ⟨trivial, rfl, rfl, rfl⟩
      · cases hstep
        exact ⟨trivial, rfl, rfl, rfl⟩
      · rename_i hphase
        rw [hphase] at hbetween
        exact hbetween.elim
      · cases hstep
  | completion | recvEof | recvError =>
      simp only [step, Option.ite_none_right_eq_some] at hstep
      obtain ⟨-, hnext⟩ := hstep
      cases hnext
      exact ⟨hbetween, rfl, rfl, rfl⟩

/-- The loop over the frames that have come. -/
def Loops (messages : List FragmentedMessage) (frames : List WebSocketFrame)
    (s : WsSession) : Prop :=
  s.Between ∧ ∃ done rest part,
    Reassembles messages (dataFrames frames) done rest part s

theorem Reassembles.same (hreassembles : Reassembles messages seen done rest part s)
    {next : WsSession} (hbuffer : next.fragBuf = s.fragBuf)
    (hopcode : next.fragOp = s.fragOp) (htold : next.told = s.told) :
    Reassembles messages seen done rest part next :=
  ⟨hreassembles.messages, hreassembles.seen, hreassembles.front,
    htold.trans hreassembles.told, hbuffer.trans hreassembles.buffer,
    hopcode.trans hreassembles.opcode⟩

variable {frames : List WebSocketFrame}

/-- One step of the loop. -/
theorem loops_step (hlegal : Interleaved messages frames)
    {seen : List WebSocketFrame}
    {input : LoopInput} {next : WsSession} (hloops : Loops messages seen s)
    (hseen : seen ++ input.returned <+: frames)
    (hstep : s.loopStep ⟨ring, true, true⟩ input = some next) :
    Loops messages (seen ++ input.returned) next := by
  obtain ⟨hbetween, done, rest, part, hreassembles⟩ := hloops
  cases input with
  | other input =>
      simp only [loopStep, Option.ite_none_left_eq_some] at hstep
      obtain ⟨hinput, hstep⟩ := hstep
      obtain ⟨hnext, hbuffer, hopcode, htold⟩ := step_between hbetween hinput hstep
      rw [LoopInput.returned, List.append_nil]
      exact ⟨hnext, done, rest, part, hreassembles.same hbuffer hopcode htold⟩
  | frame frame =>
      simp only [loopStep, Option.ite_none_right_eq_some] at hstep
      obtain ⟨-, hstep⟩ := hstep
      obtain ⟨later, hlater⟩ := hseen
      simp only [step, proceed, Option.some.injEq] at hstep
      subst hstep
      have hopcode := hlegal.opcodes frame (by
        rw [← hlater]
        simp [LoopInput.returned])
      have hreturned : Reassembles messages (dataFrames seen) done rest part
          { s with phase := .frame frame } := hreassembles.same rfl rfl rfl
      refine ⟨dispatch_between _ hopcode, ?_⟩
      rw [LoopInput.returned, dataFrames_append]
      by_cases hdata : IsDataFrame frame
      · have hnext := hlegal.data
        rw [← hlater, LoopInput.returned, List.append_assoc, dataFrames_append,
          List.singleton_append, dataFrames_cons_data hdata] at hnext
        rw [dataFrames_cons_data hdata]
        exact hreturned.dispatch hnext
      · rw [dataFrames_cons_other hdata, dataFrames_nil, List.append_nil]
        refine ⟨done, rest, part, ?_⟩
        obtain h | h := hopcode.resolve_left hdata
        · simp only [WsSession.dispatch, h]
          exact hreassembles.same rfl rfl rfl
        · simp only [WsSession.dispatch, h]
          exact hreassembles.same rfl rfl rfl

theorem loops_run (hlegal : Interleaved messages frames) (word : List LoopInput)
    {seen : List WebSocketFrame} {last : WsSession} (hloops : Loops messages seen s)
    (hseen : seen ++ framesOf word <+: frames)
    (hrun : (readLoop ring).runFrom s word = some last) :
    Loops messages (seen ++ framesOf word) last := by
  induction word generalizing seen s with
  | nil =>
      obtain rfl := Option.some.inj hrun
      simpa [framesOf] using hloops
  | cons input word ih =>
      rw [Machine.runFrom] at hrun
      rw [framesOf, List.flatMap_cons, ← List.append_assoc] at hseen ⊢
      cases hnext : (readLoop ring).step s input with
      | none => simp [hnext] at hrun
      | some next =>
          simp only [hnext] at hrun
          have hfirst := (List.prefix_append _ _).trans hseen
          exact ih (loops_step hlegal hloops hfirst hnext) hseen hrun

/-- The calls are told by the number of final frames. -/
theorem Reassembles.calls (hreassembles : Reassembles messages seen done
    rest part s) :
    done = messages.take (seen.countP IsFinal) := by
  have hpart : part.countP IsFinal = 0 := by
    obtain rfl | ⟨message, _, _, _, -, hframes⟩ := hreassembles.front
    · rfl
    · exact message.countP_front hframes
  rw [hreassembles.seen, List.countP_append,
    FragmentedMessage.countP_messages, hpart,
    Nat.add_zero, hreassembles.messages, List.take_left' rfl]

/-- Where the data frames are whole messages, the buffer is empty. -/
theorem Reassembles.empty (hreassembles : Reassembles messages seen done rest part s)
    (hwhole : seen = (messages.take (seen.countP IsFinal)).flatMap
      FragmentedMessage.frames) :
    s.fragBuf = [] ∧ s.fragOp = .continuation := by
  rw [← hreassembles.calls] at hwhole
  have hpart : part = [] := by
    have hseen := hreassembles.seen
    rw [hwhole, List.self_eq_append_right] at hseen
    exact hseen
  rw [hreassembles.buffer, hreassembles.opcode, hpart]
  exact ⟨rfl, rfl⟩

/-- Before the loop reads the next frame. -/
def Reading (s : WsSession) : Prop :=
  s.phase = .loopTop ∧ s.isOpen = true ∧ s.stopped = false

/-- The body handles a frame up to the next check of the loop condition. -/
theorem body_returns (ring : Bool) (hreading : s.Reading) {frame : WebSocketFrame}
    (hopcode : IsDataFrame frame ∨ frame.opcode = .ping ∨ frame.opcode = .pong) :
    ∃ word next, framesOf word = [frame] ∧
      (readLoop ring).runFrom s word = some next ∧ next.Reading := by
  obtain ⟨hphase, hopen, hstopped⟩ := hreading
  let taken := dispatch ⟨ring, true, true⟩ { s with phase := .frame frame } frame
  have hframe : (readLoop ring).step s (.frame frame) = some taken := by
    simp [readLoop, loopStep, hphase, hopen, hstopped, step, proceed, taken]
  obtain ⟨hwaits, htaken, hgoing⟩ := dispatch_waits ring
    { s with phase := .frame frame } hopcode
  have hopen' : taken.isOpen = true := htaken.trans hopen
  have hstopped' : taken.stopped = false := hgoing.trans hstopped
  obtain h | h | ⟨size, h⟩ := hwaits
  · exact ⟨[.frame frame], taken, rfl, by simp [Machine.runFrom, hframe],
      h, hopen', hstopped'⟩
  · have hreturned : (readLoop ring).step taken (.other (.returned false)) =
        some { taken with phase := .loopTop } := by
      simp [readLoop, loopStep, step, show taken.phase = .handler from h]
    exact ⟨[.frame frame, .other (.returned false)],
      { taken with phase := .loopTop },
      rfl, by simp [Machine.runFrom, hframe, hreturned], rfl, hopen', hstopped'⟩
  · have hwrote : (readLoop ring).step taken
        (.other (.wrote (WebSocketFrame.encodedSize size))) =
          some { taken with phase := .loopTop } := by
      have hpos : WebSocketFrame.encodedSize size ≠ 0 := by
        unfold WebSocketFrame.encodedSize
        omega
      simp [readLoop, loopStep, step, afterWrite, hpos,
        show taken.phase = _ from h]
    exact ⟨[.frame frame, .other (.wrote (WebSocketFrame.encodedSize size))],
      { taken with phase := .loopTop }, rfl,
      by simp [Machine.runFrom, hframe, hwrote], rfl, hopen', hstopped'⟩

theorem loop_returns (ring : Bool) (frames : List WebSocketFrame)
    (hopcodes : ∀ frame ∈ frames,
      IsDataFrame frame ∨ frame.opcode = .ping ∨ frame.opcode = .pong)
    (hreading : s.Reading) :
    ∃ word last, framesOf word = frames ∧
      (readLoop ring).runFrom s word = some last ∧ last.Reading := by
  induction frames generalizing s with
  | nil => exact ⟨[], s, rfl, rfl, hreading⟩
  | cons frame frames ih =>
      obtain ⟨hopcode, hothers⟩ := List.forall_mem_cons.mp hopcodes
      obtain ⟨first, next, hfirst, hnext, hagain⟩ :=
          body_returns ring hreading hopcode
      obtain ⟨word, last, hword, hlast, hend⟩ := ih hothers hagain
      refine ⟨first ++ word, last, ?_, ?_, hend⟩
      · rw [framesOf, List.flatMap_append, ← framesOf, ← framesOf, hfirst, hword]
        rfl
      · rw [Machine.runFrom_append, hnext]
        exact hlast

end WsSession

/-- However messages are cut into fragments and mixed with ping and pong frames,
each is told once, at its final frame, with its kind and its payload; and the
loop gets through all of them. -/
theorem fragments_reassembled (ring : Bool) {messages : List FragmentedMessage}
    {frames : List WebSocketFrame} (hlegal : Interleaved messages frames) :
    (∀ word last, (WsSession.readLoop ring).run word = some last →
        framesOf word <+: frames →
      let finals := (framesOf word).countP IsFinal
      last.told = (messages.take finals).map FragmentedMessage.call ∧
        (dataFrames (framesOf word) =
            (messages.take finals).flatMap FragmentedMessage.frames →
          last.fragBuf = [] ∧ last.fragOp = .continuation)) ∧
      ∃ word last, framesOf word = frames ∧
        (WsSession.readLoop ring).run word = some last ∧ last.phase = .loopTop ∧
          last.told = messages.map FragmentedMessage.call := by
  have hstart : WsSession.Loops messages [] (WsSession.init []) :=
    ⟨trivial, [], messages, [], rfl, rfl, .inl rfl, rfl, rfl, rfl⟩
  have htold : ∀ word last, (WsSession.readLoop ring).run word = some last →
      framesOf word <+: frames →
        last.told = (messages.take ((framesOf word).countP IsFinal)).map
            FragmentedMessage.call ∧
          (dataFrames (framesOf word) =
              (messages.take ((framesOf word).countP IsFinal)).flatMap
                FragmentedMessage.frames →
            last.fragBuf = [] ∧ last.fragOp = .continuation) := by
    intro word last hrun hprefix
    obtain ⟨-, done, rest, part, hreassembles⟩ :=
      WsSession.loops_run hlegal word hstart hprefix hrun
    rw [List.nil_append] at hreassembles
    have hcalls := hreassembles.calls
    have hempty := hreassembles.empty
    rw [countP_dataFrames] at hcalls hempty
    exact ⟨by rw [hreassembles.told, hcalls], hempty⟩
  refine ⟨htold, ?_⟩
  -- `on_open` returns, and the loop begins
  let opened : WsSession := { WsSession.init [] with phase := .loopTop }
  have hopened : (WsSession.readLoop ring).step (WsSession.init [])
      (.other (.returned false)) = some opened := rfl
  obtain ⟨word, last, hword, hrun, hphase, -⟩ := WsSession.loop_returns ring
    (s := opened) frames hlegal.opcodes ⟨rfl, rfl, rfl⟩
  have hall : (WsSession.readLoop ring).run (.other (.returned false) :: word) =
      some last := by
    simp only [Machine.run, Machine.runFrom, WsSession.readLoop] at hopened hrun ⊢
    rw [hopened]
    exact hrun
  have hframes : framesOf (.other (.returned false) :: word) = frames := hword
  refine ⟨.other (.returned false) :: word, last, hframes, hall, hphase, ?_⟩
  have hcalls := (htold _ last hall (hframes ▸ List.prefix_rfl)).1
  rw [hframes, ← countP_dataFrames, hlegal.data, FragmentedMessage.countP_messages,
    List.take_length] at hcalls
  exact hcalls

/-- A text message in two frames. -/
def cutMessage : FragmentedMessage where
  first := ⟨false, .text, false, 0, [104]⟩
  more := [⟨true, .continuation, false, 0, [105]⟩]
  kind := .inl rfl
  continued := by decide
  goesOn := by decide
  ends := by decide

theorem fragments_reassembled_cutMessage :
    ∃ word last, framesOf word = [⟨false, .text, false, 0, [104]⟩,
        ⟨true, .ping, false, 0, [1]⟩, ⟨true, .continuation, false, 0, [105]⟩] ∧
      (WsSession.readLoop true).run word = some last ∧ last.phase = .loopTop ∧
        last.told = [.onText [104, 105]] := by
  have hlegal : Interleaved [cutMessage] [⟨false, .text, false, 0, [104]⟩,
      ⟨true, .ping, false, 0, [1]⟩, ⟨true, .continuation, false, 0, [105]⟩] :=
    ⟨by decide, by decide⟩
  exact (fragments_reassembled true hlegal).2

end UltraNet
