/-
A connection of `WsServer` cannot go on for ever: each step uses up bytes, a
completion, a part of a write or a stage of the loop.
-/
import UltraNet.WsServer

namespace UltraNet

/-- The bytes of the chunks that wait in the queue. -/
def queued (queue : List RecvChunk) : List UInt8 :=
  queue.flatMap fun
    | .data bytes => bytes
    | _ => []

/-- A bound on the steps from here to the next byte. -/
def WsPhase.work : WsPhase → Nat
  | .onOpen | .handler => 5
  | .loopTop => 4
  | .frameTop => 3
  | .read => 2
  | .write left (.close last) => left + last.payload.length + 17
  | .write left _ => left + 5
  | .frame found => found.payload.length + 16
  | .onClose => 1
  | .finished | .failed => 0

/-- A completion of the multishot receive. -/
def WsInput.receives : WsInput → Bool
  | .completion _ _ | .recvEof | .recvError => true
  | _ => false

namespace WsSession

/-- A bound on the steps that are left.  A byte weighs more the further it is from
the handlers, since it still has to be received and decoded. -/
def work (s : WsSession) : Nat :=
  13 * s.unread.length + 10 * (s.buffer.length + (queued s.queue).length) +
    2 * s.queue.length + 3 * (!s.stopped).toNat + s.phase.work

variable {cfg : WsConfig} {s s' : WsSession}

theorem encodedSize_le (payload : Nat) :
    WebSocketFrame.encodedSize payload ≤ payload + 10 := by
  unfold WebSocketFrame.encodedSize
  split
  · omega
  · split <;> omega

/-- Only the phase changes, to one with less to do. -/
theorem work_phase (phase : WsPhase) (hless : phase.work < s.phase.work) :
    WsSession.work { s with phase := phase } < s.work := by
  simp only [work]
  omega

theorem work_leaveLoop (hless : 1 < s.phase.work) : s.leaveLoop.work < s.work := by
  simp only [work, leaveLoop]
  exact Nat.add_lt_add_left hless _

theorem work_onFrame (frame : WebSocketFrame) (rest : List UInt8) :
    (s.onFrame frame rest).phase.work ≤ frame.payload.length + 21 := by
  have hpong := encodedSize_le frame.payload.length
  have hclose : WebSocketFrame.encodedSize 2 = 4 := rfl
  unfold onFrame
  cases frame.opcode <;> simp only [WsPhase.work] <;> omega

/-- A frame is worth less than its bytes. -/
theorem work_tryDecode {buffer : List UInt8} (hbuffer : s.buffer.length ≤ buffer.length) :
    (s.tryDecode buffer).work ≤
      WsSession.work { s with buffer := buffer, phase := .read } := by
  unfold tryDecode
  cases hdecode : WebSocketFrame.decode buffer with
  | more => exact Nat.le_refl _
  | tooLong =>
      simp only [work, WsPhase.work]
      omega
  | frame frame size =>
      obtain ⟨hpayload, hsize⟩ := WebSocketFrame.decode_size hdecode
      have hphase := work_onFrame (s := s) frame (buffer.drop size)
      have hdrop : (s.onFrame frame (buffer.drop size)).buffer.length = buffer.length - size :=
        List.length_drop
      simp only [work, WsPhase.work] at hphase ⊢
      rw [hdrop]
      simp only [onFrame] at hphase ⊢
      omega

theorem work_dispatch {frame : WebSocketFrame} (hphase : s.phase = .frame frame) :
    (s.dispatch cfg frame).work < s.work := by
  have hpong := encodedSize_le frame.payload.length
  have hclose : WebSocketFrame.encodedSize 2 = 4 := rfl
  have hdeliver : ∀ (t : WsSession) (op : OpCode) (message : List UInt8),
      (t.deliver cfg op message).work ≤ WsSession.work { t with phase := .handler } := by
    intro t op message
    unfold deliver
    simp only
    split
    · exact Nat.le_refl _
    · split
      · exact Nat.le_refl _
      · simp only [work, WsPhase.work]
        omega
  have hgo : ∀ phase : WsPhase, phase.work < frame.payload.length + 16 →
      WsSession.work { s with phase := phase } < s.work := by
    intro phase hless
    apply work_phase
    rw [hphase]
    exact hless
  unfold dispatch
  split
  · split
    · apply work_leaveLoop
      rw [hphase, WsPhase.work]
      omega
    · apply hgo
      simp only [WsPhase.work]
      omega
  · apply hgo
    simp only [WsPhase.work]
    omega
  · apply hgo
    simp only [WsPhase.work]
    omega
  · apply hgo
    simp only [WsPhase.work]
    omega
  all_goals
    simp only
    split
    · refine Nat.lt_of_le_of_lt (hdeliver s _ _) (hgo .handler ?_)
      simp only [WsPhase.work]
      omega
    · refine hgo .loopTop ?_
      simp only [WsPhase.work]
      omega

theorem work_afterWrite {left : Nat} {next : AfterWrite} (hphase : s.phase = .write left next) :
    (s.afterWrite cfg next).work < s.work := by
  cases next with
  | pong =>
      have hread : (if cfg.ring then WsPhase.frameTop else WsPhase.read).work ≤ 3 := by
        cases cfg.ring <;> decide
      apply work_phase
      rw [hphase]
      refine Nat.lt_of_le_of_lt hread ?_
      simp only [WsPhase.work]
      omega
  | close frame =>
      show WsSession.work { s with phase := .frame frame } < s.work
      apply work_phase
      rw [hphase]
      simp only [WsPhase.work]
      omega
  | pongSent =>
      apply work_phase
      rw [hphase]
      simp only [WsPhase.work]
      omega
  | closed =>
      show s.leaveLoop.work < s.work
      apply work_leaveLoop
      rw [hphase]
      simp only [WsPhase.work]
      omega

theorem work_proceed (hstep : s.proceed cfg = some s') : s'.work < s.work := by
  cases hphase : s.phase with
  | loopTop =>
      simp only [proceed, hphase] at hstep
      split at hstep
      · obtain rfl := Option.some.inj hstep
        exact work_leaveLoop (by rw [hphase]; decide)
      · split at hstep
        · obtain rfl := Option.some.inj hstep
          exact work_phase _ (by rw [hphase]; decide)
        · obtain rfl := Option.some.inj hstep
          simp only [work, hphase, WsPhase.work, List.length_nil]
          omega
  | frameTop =>
      simp only [proceed, hphase] at hstep
      split at hstep
      · obtain rfl := Option.some.inj hstep
        exact work_phase _ (by rw [hphase]; decide)
      · obtain rfl := Option.some.inj hstep
        refine Nat.lt_of_le_of_lt (work_tryDecode (Nat.le_refl _)) (work_phase _ ?_)
        rw [hphase]
        decide
  | read =>
      simp only [proceed, hphase] at hstep
      split at hstep
      · split at hstep
        · rename_i bytes queue hqueue
          obtain rfl := Option.some.inj hstep
          simp only [work, hphase, hqueue, WsPhase.work, queued, List.flatMap_cons,
            List.length_append, List.length_cons]
          omega
        · rename_i chunk queue hdata hqueue
          obtain rfl := Option.some.inj hstep
          simp only [work, hphase, hqueue, WsPhase.work, queued, List.flatMap_cons,
            List.length_append, List.length_cons]
          omega
        · split at hstep
          · obtain rfl := Option.some.inj hstep
            exact work_phase _ (by rw [hphase]; decide)
          · cases hstep
      · cases hstep
  | frame frame =>
      simp only [proceed, hphase, Option.some.injEq] at hstep
      exact hstep ▸ work_dispatch hphase
  | _ =>
      simp only [proceed, hphase] at hstep
      cases hstep

/-- Something that was unread is now in the queue. -/
theorem work_receive (chunk : RecvChunk) {unread : List UInt8} {stopped : Bool}
    (hstopped : s.stopped = false)
    (hless : 13 * unread.length + 10 * (queued [chunk]).length + 2 + 3 * (!stopped).toNat <
      13 * s.unread.length + 3) :
    WsSession.work
      { s with queue := s.queue ++ [chunk], unread := unread, stopped := stopped } < s.work := by
  have hqueued : (queued (s.queue ++ [chunk])).length =
      (queued s.queue).length + (queued [chunk]).length := by
    rw [queued, List.flatMap_append, List.length_append]
    rfl
  simp only [work, hqueued, hstopped, List.length_append, List.length_singleton,
    Bool.not_false, Bool.toNat_true]
  omega

/-- Every step of a connection, whatever happens in it, leaves less to do. -/
theorem work_step {input : WsInput} (hstep : s.step cfg input = some s') :
    s'.work < s.work := by
  cases input with
  | run => exact work_proceed hstep
  | read size =>
      obtain ⟨⟨hphase, -, hpos, hsize⟩, hnext⟩ := Option.ite_none_right_eq_some.mp hstep
      obtain rfl := Option.some.inj hnext
      refine Nat.lt_of_le_of_lt (work_tryDecode ?_) ?_
      · rw [List.length_append]
        exact Nat.le_add_right _ _
      · simp only [work, hphase, WsPhase.work, List.length_append, List.length_take,
          List.length_drop]
        omega
  | eof | readError =>
      obtain ⟨hguard, hnext⟩ := Option.ite_none_right_eq_some.mp hstep
      obtain rfl := Option.some.inj hnext
      exact work_phase _ (by rw [hguard.1]; decide)
  | wrote size =>
      simp only [step] at hstep
      split at hstep
      · rename_i left next hphase
        split at hstep
        · obtain rfl := Option.some.inj hstep
          apply work_phase
          rw [hphase]
          cases next <;> simp only [WsPhase.work] <;> omega
        · split at hstep
          · obtain rfl := Option.some.inj hstep
            apply work_phase
            rw [hphase]
            cases next <;> simp only [WsPhase.work] <;> omega
          · obtain rfl := Option.some.inj hstep
            exact work_afterWrite hphase
      · cases hstep
  | writeError =>
      simp only [step] at hstep
      split at hstep
      · rename_i left next hphase
        obtain rfl := Option.some.inj hstep
        apply work_phase
        rw [hphase]
        cases next <;> simp only [WsPhase.work] <;> omega
      · cases hstep
  | returned closes =>
      simp only [step] at hstep
      split at hstep
      · rename_i hphase
        obtain rfl := Option.some.inj hstep
        exact work_phase .loopTop (by rw [hphase]; decide)
      · rename_i hphase
        obtain rfl := Option.some.inj hstep
        exact work_phase .loopTop (by rw [hphase]; decide)
      · rename_i hphase
        obtain rfl := Option.some.inj hstep
        exact work_phase _ (by rw [hphase]; decide)
      · cases hstep
  | threw =>
      simp only [step] at hstep
      split at hstep
      · rename_i hphase
        obtain rfl := Option.some.inj hstep
        exact work_phase _ (by rw [hphase]; decide)
      · rename_i hphase
        obtain rfl := Option.some.inj hstep
        exact work_phase _ (by rw [hphase]; decide)
      · rename_i hphase
        obtain rfl := Option.some.inj hstep
        exact work_phase _ (by rw [hphase]; decide)
      · cases hstep
  | completion size more =>
      obtain ⟨⟨hreceiving, hpos, hsize⟩, hnext⟩ := Option.ite_none_right_eq_some.mp hstep
      obtain rfl := Option.some.inj hnext
      simp only [receiving, Bool.and_eq_true, Bool.not_eq_true'] at hreceiving
      apply work_receive _ hreceiving.2
      have hbound := Bool.toNat_le (!!more)
      simp only [queued, List.flatMap_cons, List.flatMap_nil, List.append_nil,
        List.length_take, List.length_drop]
      omega
  | recvEof =>
      obtain ⟨⟨hreceiving, -⟩, hnext⟩ := Option.ite_none_right_eq_some.mp hstep
      obtain rfl := Option.some.inj hnext
      simp only [receiving, Bool.and_eq_true, Bool.not_eq_true'] at hreceiving
      exact work_receive _ hreceiving.2 (by simp [queued])
  | recvError =>
      obtain ⟨hreceiving, hnext⟩ := Option.ite_none_right_eq_some.mp hstep
      obtain rfl := Option.some.inj hnext
      simp only [receiving, Bool.and_eq_true, Bool.not_eq_true'] at hreceiving
      exact work_receive _ hreceiving.2 (by simp [queued])

theorem tryDecode_stopped (buffer : List UInt8) : (s.tryDecode buffer).stopped = s.stopped := by
  unfold tryDecode
  split <;> rfl

theorem dispatch_stopped (frame : WebSocketFrame) :
    (s.dispatch cfg frame).stopped = s.stopped := by
  have hdeliver : ∀ (t : WsSession) (op : OpCode) (message : List UInt8),
      (t.deliver cfg op message).stopped = t.stopped := by
    intro t op message
    unfold deliver
    simp only
    split
    · rfl
    · split <;> rfl
  unfold dispatch
  split
  · split <;> rfl
  · rfl
  · rfl
  · rfl
  all_goals
    simp only
    split
    · exact hdeliver s _ _
    · rfl

theorem proceed_stopped (hstep : s.proceed cfg = some s') : s'.stopped = s.stopped := by
  unfold proceed at hstep
  split at hstep
  · split at hstep
    · obtain rfl := Option.some.inj hstep
      rfl
    · split at hstep
      all_goals
        obtain rfl := Option.some.inj hstep
        rfl
  · split at hstep
    · obtain rfl := Option.some.inj hstep
      rfl
    · obtain rfl := Option.some.inj hstep
      exact tryDecode_stopped s.buffer
  · split at hstep
    · split at hstep
      · obtain rfl := Option.some.inj hstep
        rfl
      · obtain rfl := Option.some.inj hstep
        rfl
      · split at hstep
        · obtain rfl := Option.some.inj hstep
          rfl
        · cases hstep
    · cases hstep
  · obtain rfl := Option.some.inj hstep
    exact dispatch_stopped _
  · cases hstep

/-- Only a completion of the receive can be the last one. -/
theorem step_stopped {input : WsInput} (hinput : input.receives = false)
    (hstep : s.step cfg input = some s') : s'.stopped = s.stopped := by
  cases input with
  | run => exact proceed_stopped hstep
  | read size =>
      obtain ⟨-, hnext⟩ := Option.ite_none_right_eq_some.mp hstep
      obtain rfl := Option.some.inj hnext
      exact tryDecode_stopped _
  | eof | readError =>
      obtain ⟨-, hnext⟩ := Option.ite_none_right_eq_some.mp hstep
      obtain rfl := Option.some.inj hnext
      rfl
  | wrote size =>
      simp only [step] at hstep
      split at hstep
      · rename_i left next hphase
        split at hstep
        · obtain rfl := Option.some.inj hstep
          rfl
        · split at hstep
          · obtain rfl := Option.some.inj hstep
            rfl
          · obtain rfl := Option.some.inj hstep
            cases next <;> rfl
      · cases hstep
  | writeError | returned closes | threw =>
      simp only [step] at hstep
      split at hstep
      all_goals
        cases hstep
        try rfl
  | completion size more => cases hinput
  | recvEof => cases hinput
  | recvError => cases hinput

/-- So a run of a connection has no more steps than that. -/
theorem run_length {stream : List UInt8} {word : List WsInput}
    (hrun : (machine cfg stream).run word = some s) :
    word.length + s.work ≤ (init stream).work :=
  (machine cfg stream).runFrom_length (fun _ _ _ hstep => work_step hstep) word hrun

end WsSession

end UltraNet
