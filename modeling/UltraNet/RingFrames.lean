/-
`read_frame_ring` over the chunks of a buffer ring: what its calls return, what
they write, and when they give the buffers back.
-/
import UltraNet.BufferRing
import UltraNet.FrameWriters

namespace UltraNet

open WebSocketFrame (decode wire decodeFrame frameCodec)

namespace WebSocketFrame

def pong (data : List UInt8) : WebSocketFrame := ⟨true, .pong, false, 0, data⟩

/-- `WebSocketFrame::close`. -/
def close (code : UInt16) (reason : List UInt8) : WebSocketFrame :=
  ⟨true, .close, false, 0,
    UInt8.ofNat (code.toNat >>> 8) :: UInt8.ofNat (code.toNat &&& 0xFF) :: reason⟩

end WebSocketFrame

/-- What `try_decode` does; it throws when a frame is too long for a string. -/
inductive TryDecode where
  | nothing
  | frame (frame : WebSocketFrame) (ring : RingConnection)
  | threw

namespace RingConnection

/-- `append_chunk` of what `next_chunk` has returned. -/
def appendNext (s : RingConnection) (chunk : RecvChunkResult) :
    Option RingConnection :=
  { s with received := s.received ++ [chunk] }.appendChunk s.received.length

/-- Without a group the pointer is null. -/
def tryDecode (s : RingConnection) : TryDecode :=
  if s.reasm = [] then .nothing
  else
    match decode s.reasm with
    | .more => .nothing
    | .tooLong => .threw
    | .frame frame consumed =>
        match (s.consumeBytes consumed).returnReasmBuffers with
        | none => .threw
        | some s => .frame frame s

end RingConnection

namespace RingConnection

theorem consumeBytes_eq (s : RingConnection) (n : Nat) :
    s.consumeBytes n = { s with reasm := s.reasm.drop n } := by
  unfold consumeBytes
  by_cases hall : s.reasm.length ≤ n
  · rw [if_pos hall, List.drop_eq_nil_of_le hall]
  · rw [if_neg hall]

/-- A frame takes at least its two first bytes. -/
theorem tryDecode_shorter {s next : RingConnection} {frame : WebSocketFrame}
    (hfound : s.tryDecode = .frame frame next) :
    next.reasm.length < s.reasm.length := by
  unfold tryDecode at hfound
  by_cases hempty : s.reasm = []
  · rw [if_pos hempty] at hfound
    cases hfound
  · rw [if_neg hempty] at hfound
    split at hfound
    · cases hfound
    · cases hfound
    · rename_i found consumed hdecode
      rw [consumeBytes_eq] at hfound
      split at hfound
      · cases hfound
      · rename_i after hafter
        cases hfound
        have hreasm : next.reasm = s.reasm.drop consumed := by
          obtain ⟨-, hsome⟩ := Option.ite_none_left_eq_some.mp hafter
          rw [← Option.some.inj hsome]
        have hlength := List.length_pos_iff.mpr hempty
        have hpos := WebSocketFrame.decode_pos hdecode
        rw [hreasm, List.length_drop]
        omega

/-- A chunk with data goes behind the bytes that wait. -/
theorem appendNext_data {s : RingConnection} (hgroup : s.hasGroup = true)
    {chunk : RecvChunkResult} (hdata : 0 < chunk.res) :
    s.appendNext chunk = some { s with
      reasm := s.reasm ++ chunk.bytes
      pendingBids := s.pendingBids ++ [chunk.bufferId] } := by
  have hchunk : (s.received ++ [chunk])[s.received.length]? = some chunk := by
    simp
  have herase : (s.received ++ [chunk]).eraseIdx s.received.length = s.received := by
    rw [List.eraseIdx_append_of_length_le (Nat.le_refl _), Nat.sub_self]
    simp
  simp only [appendNext, appendChunk, hchunk, herase]
  rw [if_neg (by omega), if_neg (by simp [hgroup])]

/-- With a whole frame in front, the frame is taken and every buffer that was
appended is given back. -/
def decoded (s : RingConnection) (size : Nat) : RingConnection :=
  { s with
    reasm := s.reasm.drop size
    group := s.group.returnBatch s.pendingBids
    pendingBids := [] }

/-- The front of a stream of frames: a frame, or nothing yet. -/
theorem tryDecode_cases {s : RingConnection} (hgroup : s.hasGroup = true)
    {frames : List WebSocketFrame} (hlegal : ∀ frame ∈ frames, frame.Legal)
    {more : List UInt8} (hstream : s.reasm ++ more = frames.flatMap wire) :
    (∃ frame rest, frames = frame :: rest ∧
        s.tryDecode = .frame frame (s.decoded frame.wire.length) ∧
        (s.decoded frame.wire.length).reasm ++ more = rest.flatMap wire) ∨
      (s.tryDecode = .nothing ∧ (more = [] → frames = [])) := by
  obtain ⟨frame, rest, tail, hframes, hdata, hfound, htail⟩ | ⟨hnone, hend⟩ :=
    frameCodec.next hlegal hstream
  · have hdecode := WebSocketFrame.decodeFrame_eq_some.mp hfound
    have hempty : s.reasm ≠ [] := by
      intro hempty
      rw [hempty] at hdecode
      cases hdecode
    refine .inl ⟨frame, rest, hframes, ?_, ?_⟩
    · rw [tryDecode, if_neg hempty, hdecode]
      simp only [consumeBytes_eq, returnReasmBuffers, hgroup, Bool.not_true,
        Bool.false_and, Bool.false_eq_true, if_false, decoded]
    · rw [decoded, hdata, List.drop_left, htail]
  · refine .inr ⟨?_, hend⟩
    unfold tryDecode
    by_cases hempty : s.reasm = []
    · rw [if_pos hempty]
    · rw [if_neg hempty]
      have hframe := hnone hempty
      have hlong := WebSocketFrame.decode_ne_tooLong hlegal hstream
      cases hdecode : decode s.reasm with
      | more => rfl
      | tooLong => exact absurd hdecode hlong
      | frame found size =>
          rw [WebSocketFrame.decodeFrame_eq_some.mpr hdecode] at hframe
          cases hframe

end RingConnection

/-- The reader of a connection: `chunks` are what `next_chunk` will return, and
`written` the bytes of the calls of `write_frame`. -/
structure RingReader where
  ring : RingConnection
  chunks : List RecvChunkResult
  masked : Bool
  writes : Chunks
  closed : Bool
  written : List (List UInt8)

inductive RingRead where
  -- in `next_chunk`, and no chunk comes
  | waits (reader : RingReader)
  | returned (frame : WebSocketFrame) (reader : RingReader)
  | threw

namespace RingReader

def writeFrame (r : RingReader) (frame : WebSocketFrame) : RingReader :=
  { r with written := r.written ++ [(frame.writeFrame r.masked r.writes).1] }

/-- A frame other than a ping is returned. -/
def returnFrame (r : RingReader) (frame : WebSocketFrame) : RingRead :=
  if frame.opcode = .close then
    .returned frame { r.writeFrame (.close 1000 []) with closed := true }
  else .returned frame r

def readFrameRing (r : RingReader) : RingRead :=
  match hremaining : if r.ring.reasm = [] then .nothing else r.ring.tryDecode with
  | .threw => .threw
  | .frame frame ring =>
      let next := { r with ring := ring }
      if frame.opcode = .ping then
        readFrameRing (next.writeFrame (.pong frame.payload))
      else next.returnFrame frame
  | .nothing =>
      match hchunks : r.chunks with
      | [] => .waits r
      | chunk :: chunks =>
          if chunk.isEof then .threw
          else if chunk.isError then .threw
          else
            match r.ring.appendNext chunk with
            | none => .threw
            | some ring =>
                match ring.tryDecode with
                | .threw => .threw
                | .frame frame ring =>
                    let next := { r with ring := ring, chunks := chunks }
                    if frame.opcode = .ping then
                      readFrameRing (next.writeFrame (.pong frame.payload))
                    else next.returnFrame frame
                | .nothing =>
                    readFrameRing { r with ring := ring, chunks := chunks }
termination_by (r.chunks.length, r.ring.reasm.length)
decreasing_by
  · have hring : r.ring.tryDecode = .frame frame ring := by
      split at hremaining
      · cases hremaining
      · exact hremaining
    exact Prod.Lex.right _ (RingConnection.tryDecode_shorter hring)
  all_goals
    apply Prod.Lex.left
    rw [hchunks]
    exact Nat.lt_succ_self _

/-- The calls of `read_frame_ring` up to the first close frame. -/
def readFrames : Nat → RingReader → List WebSocketFrame × RingRead
  | 0, r => ([], .waits r)
  | calls + 1, r =>
      match r.readFrameRing with
      | .returned frame next =>
          if frame.opcode = .close then ([frame], .returned frame next)
          else
            let (frames, last) := readFrames calls next
            (frame :: frames, last)
      | last => ([], last)

/-- The frames that wait for their bytes: they come in chunks with data. -/
structure Carries (frames : List WebSocketFrame) (r : RingReader) : Prop where
  legal : ∀ frame ∈ frames, frame.Legal
  stream : r.ring.reasm ++ r.chunks.flatMap (·.bytes) = frames.flatMap wire
  group : r.ring.hasGroup = true
  data : ∀ chunk ∈ r.chunks, 0 < chunk.res ∧ chunk.bytes ≠ []
  held : r.ring.reasm = [] → r.ring.pendingBids = []

/-- The buffers of the chunks that were taken meanwhile are given back or
pending, each once. -/
def Accounts (r next : RingReader) : Prop :=
  ∃ taken, r.chunks = taken ++ next.chunks ∧
    next.ring.group.available ++ next.ring.pendingBids =
      r.ring.group.available ++ r.ring.pendingBids ++
        taken.map RecvChunkResult.bufferId

/-- What is written for a frame. -/
def answer (frame : WebSocketFrame) : List WebSocketFrame :=
  match frame.opcode with
  | .ping => [.pong frame.payload]
  | .close => [.close 1000 []]
  | _ => []

def Answers (r next : RingReader) (frames : List WebSocketFrame) : Prop :=
  next.written = r.written ++ (frames.flatMap answer).map fun frame =>
    (frame.writeFrame r.masked r.writes).1

/-- One call over a stream of frames: it returns the first frame that is no
ping, or there is none. -/
def Reads (frames : List WebSocketFrame) (r : RingReader) : RingRead → Prop
  | .threw => False
  | .waits next =>
      (∀ frame ∈ frames, frame.opcode = .ping) ∧ Carries [] next ∧
        next.chunks = [] ∧ Accounts r next ∧ Answers r next frames
  | .returned frame next =>
      ∃ pings rest, frames = pings ++ frame :: rest ∧
        (∀ ping ∈ pings, ping.opcode = .ping) ∧ frame.opcode ≠ .ping ∧
        Carries rest next ∧ next.ring.pendingBids = [] ∧ Accounts r next ∧
        Answers r next (pings ++ [frame]) ∧ next.masked = r.masked ∧
        next.writes = r.writes

theorem Accounts.refl (r : RingReader) : Accounts r r := ⟨[], rfl, by simp⟩

theorem Accounts.trans {r mid next : RingReader} (hfirst : Accounts r mid)
    (hsecond : Accounts mid next) : Accounts r next := by
  obtain ⟨taken, hchunks, hbids⟩ := hfirst
  obtain ⟨more, hmore, hlast⟩ := hsecond
  refine ⟨taken ++ more, by rw [hchunks, hmore, List.append_assoc], ?_⟩
  rw [hlast, hbids, List.map_append, List.append_assoc]

/-- What a call does before it goes on: it has answered pings, and goes on with
the frames that are left. -/
theorem Reads.after {done rest : List WebSocketFrame} {r mid : RingReader}
    {result : RingRead} (hpings : ∀ frame ∈ done, frame.opcode = .ping)
    (haccounts : Accounts r mid) (hanswers : Answers r mid done)
    (hmasked : mid.masked = r.masked) (hwrites : mid.writes = r.writes)
    (hreads : Reads rest mid result) : Reads (done ++ rest) r result := by
  have hjoin : ∀ {next : RingReader} {others : List WebSocketFrame},
      Answers mid next others → Answers r next (done ++ others) := by
    intro next others hothers
    unfold Answers at *
    rw [hothers, hanswers, hmasked, hwrites, List.flatMap_append, List.map_append,
      List.append_assoc]
  cases result with
  | threw => exact hreads
  | waits next =>
      obtain ⟨hrest, hcarries, hchunks, hacc, hans⟩ := hreads
      refine ⟨?_, hcarries, hchunks, haccounts.trans hacc, hjoin hans⟩
      intro frame hframe
      exact (List.mem_append.mp hframe).elim (hpings frame) (hrest frame)
  | returned frame next =>
      obtain ⟨pings, tail, rfl, hmore, hnot, hcarries, hpending, hacc,
          hans, hm, hw⟩ :=
        hreads
      refine ⟨done ++ pings, tail, by rw [List.append_assoc], ?_, hnot, hcarries,
        hpending, haccounts.trans hacc, ?_, hm.trans hmasked, hw.trans hwrites⟩
      · intro ping hping
        exact (List.mem_append.mp hping).elim (hpings ping) (hmore ping)
      · rw [List.append_assoc]
        exact hjoin hans

variable {frames : List WebSocketFrame} {r : RingReader}

/-- A decode site: the first frame is taken, and no buffer stays pending. -/
theorem Carries.decoded (hcarries : Carries frames r) {frame : WebSocketFrame}
    {ring : RingConnection} (hfound : r.ring.tryDecode = .frame frame ring) :
    ∃ rest, frames = frame :: rest ∧ Carries rest { r with ring := ring } ∧
      ring.pendingBids = [] ∧ Accounts r { r with ring := ring } := by
  obtain ⟨other, rest, rfl, hother, hstream⟩ | ⟨hnothing, -⟩ :=
    RingConnection.tryDecode_cases hcarries.group hcarries.legal hcarries.stream
  · rw [hfound] at hother
    cases hother
    refine ⟨rest, rfl, ⟨?_, hstream, hcarries.group, hcarries.data,
      fun _ => rfl⟩, rfl,
      [], rfl, ?_⟩
    · exact fun frame hframe => hcarries.legal frame (List.mem_cons_of_mem _ hframe)
    · simp [RingConnection.decoded, BufferGroup.returnBatch_available]
  · rw [hfound] at hnothing
    cases hnothing

/-- The next chunk is one with data. -/
theorem Carries.first_res (hcarries : Carries frames r) {chunk : RecvChunkResult}
    {chunks : List RecvChunkResult} (hchunks : r.chunks = chunk :: chunks) :
    0 < chunk.res :=
  (hcarries.data chunk (hchunks ▸ List.mem_cons_self)).1

/-- A chunk is appended. -/
theorem Carries.appended (hcarries : Carries frames r) {chunk : RecvChunkResult}
    {chunks : List RecvChunkResult} (hchunks : r.chunks = chunk :: chunks)
    {ring : RingConnection} (hring : r.ring.appendNext chunk = some ring) :
    Carries frames { r with ring := ring, chunks := chunks } ∧
      Accounts r { r with ring := ring, chunks := chunks } := by
  have hdata := hcarries.data
  rw [hchunks] at hdata
  obtain ⟨⟨hres, hbytes⟩, hlater⟩ := List.forall_mem_cons.mp hdata
  rw [RingConnection.appendNext_data hcarries.group hres] at hring
  obtain rfl := Option.some.inj hring
  refine ⟨⟨hcarries.legal, ?_, hcarries.group, hlater, ?_⟩, [chunk], ?_, ?_⟩
  · have hstream := hcarries.stream
    rw [hchunks, List.flatMap_cons, ← List.append_assoc] at hstream
    exact hstream
  · intro hempty
    exact absurd (List.append_eq_nil_iff.mp hempty).2 hbytes
  · rw [hchunks]
    rfl
  · simp

theorem Answers.nil {mid : RingReader} (hwritten : mid.written = r.written) :
    Answers r mid [] := by
  unfold Answers
  rw [hwritten]
  simp

theorem Reads.appended {mid : RingReader} {result : RingRead}
    (haccounts : Accounts r mid) (hwritten : mid.written = r.written)
    (hmasked : mid.masked = r.masked) (hwrites : mid.writes = r.writes)
    (hreads : Reads frames mid result) : Reads frames r result := by
  have hnone : ∀ frame ∈ ([] : List WebSocketFrame), frame.opcode = .ping := by
    simp
  exact Reads.after hnone haccounts (.nil hwritten) hmasked hwrites hreads

/-- The frame at a decode site is a ping. -/
theorem reads_ping (hcarries : Carries frames r) {frame : WebSocketFrame}
    {ring : RingConnection} (hfound : r.ring.tryDecode = .frame frame ring)
    (hping : frame.opcode = .ping) {result : RingRead}
    (hlater : ∀ {rest : List WebSocketFrame},
      Carries rest (writeFrame { r with ring := ring } (.pong frame.payload)) →
        Reads rest (writeFrame { r with ring := ring } (.pong frame.payload))
          result) :
    Reads frames r result := by
  obtain ⟨rest, rfl, hrest, -, haccounts⟩ := hcarries.decoded hfound
  have hmid : Carries rest
      (writeFrame { r with ring := ring } (.pong frame.payload)) :=
    ⟨hrest.legal, hrest.stream, hrest.group, hrest.data, hrest.held⟩
  have hanswers : Answers r
      (writeFrame { r with ring := ring } (.pong frame.payload)) [frame] := by
    simp [Answers, answer, hping, writeFrame]
  have hpings : ∀ other ∈ [frame], other.opcode = .ping :=
    List.forall_mem_singleton.mpr hping
  have hmoved : Accounts r
      (writeFrame { r with ring := ring } (.pong frame.payload)) := haccounts
  exact Reads.after hpings hmoved hanswers rfl rfl (hlater hmid)

/-- The frame at a decode site is returned. -/
theorem reads_return (hcarries : Carries frames r) {frame : WebSocketFrame}
    {ring : RingConnection} (hfound : r.ring.tryDecode = .frame frame ring)
    (hping : frame.opcode ≠ .ping) :
    Reads frames r (returnFrame { r with ring := ring } frame) := by
  obtain ⟨rest, rfl, hrest, hpending, haccounts⟩ := hcarries.decoded hfound
  unfold returnFrame
  by_cases hclose : frame.opcode = .close
  · rw [if_pos hclose]
    refine ⟨[], rest, rfl, by simp, hping,
      ⟨hrest.legal, hrest.stream, hrest.group, hrest.data, hrest.held⟩, hpending,
      haccounts, ?_, rfl, rfl⟩
    simp [Answers, answer, hclose, writeFrame]
  · rw [if_neg hclose]
    refine ⟨[], rest, rfl, by simp, hping, hrest, hpending, haccounts, ?_, rfl, rfl⟩
    have hanswer : answer frame = [] := by
      unfold answer
      split
      · exact absurd ‹_› hping
      · exact absurd ‹_› hclose
      · rfl
    simp [Answers, hanswer]

theorem remaining_eq (s : RingConnection) :
    (if s.reasm = [] then .nothing else s.tryDecode) = s.tryDecode := by
  by_cases hempty : s.reasm = []
  · rw [if_pos hempty, RingConnection.tryDecode, if_pos hempty]
  · rw [if_neg hempty]

theorem Carries.not_threw (hcarries : Carries frames r) :
    r.ring.tryDecode ≠ .threw := by
  obtain ⟨frame, rest, -, hfound, -⟩ | ⟨hnothing, -⟩ :=
    RingConnection.tryDecode_cases hcarries.group hcarries.legal hcarries.stream
  · rw [hfound]
    simp
  · rw [hnothing]
    simp

/-- One call returns the next frame that is no ping. -/
theorem reads (hcarries : Carries frames r) : Reads frames r r.readFrameRing := by
  fun_induction readFrameRing r generalizing frames with
  | case1 r hfound =>
      exact absurd ((remaining_eq r.ring).symm.trans hfound) hcarries.not_threw
  | case2 r frame ring hfound next hping =>
      rename_i ih
      exact reads_ping hcarries ((remaining_eq r.ring).symm.trans hfound) hping ih
  | case3 r frame ring hfound next =>
      rename_i hping
      exact reads_return hcarries ((remaining_eq r.ring).symm.trans hfound) hping
  | case4 r hfound hchunks =>
      obtain ⟨frame, rest, -, hframe, -⟩ | ⟨-, hend⟩ :=
        RingConnection.tryDecode_cases hcarries.group hcarries.legal hcarries.stream
      · rw [(remaining_eq r.ring).symm.trans hfound] at hframe
        cases hframe
      · obtain rfl := hend (by rw [hchunks]; rfl)
        exact ⟨by simp, hcarries, hchunks, .refl r, .nil rfl⟩
  | case5 r hfound chunk chunks hchunks heof =>
      have hres := hcarries.first_res hchunks
      rw [RecvChunkResult.isEof, decide_eq_true_eq] at heof
      omega
  | case6 r hfound chunk chunks hchunks heof herror =>
      have hres := hcarries.first_res hchunks
      rw [RecvChunkResult.isError, decide_eq_true_eq] at herror
      omega
  | case7 r hfound chunk chunks hchunks heof herror hnone =>
      have hres := hcarries.first_res hchunks
      rw [RingConnection.appendNext_data hcarries.group hres] at hnone
      cases hnone
  | case8 r hfound chunk chunks hchunks heof herror ring hring hthrew =>
      exact absurd hthrew (hcarries.appended hchunks hring).1.not_threw
  | case9 r hfound chunk chunks hchunks heof herror ring hring frame after hframe
      next hping =>
      rename_i ih
      obtain ⟨hmid, haccounts⟩ := hcarries.appended hchunks hring
      exact Reads.appended haccounts rfl rfl rfl (reads_ping hmid hframe hping ih)
  | case10 r hfound chunk chunks hchunks heof herror ring hring frame after hframe
      next =>
      rename_i hping
      obtain ⟨hmid, haccounts⟩ := hcarries.appended hchunks hring
      exact Reads.appended haccounts rfl rfl rfl (reads_return hmid hframe hping)
  | case11 r hfound chunk chunks hchunks heof herror ring hring hnothing ih =>
      obtain ⟨hmid, haccounts⟩ := hcarries.appended hchunks hring
      exact Reads.appended haccounts rfl rfl rfl (ih hmid)

end RingReader

/-- The frames up to the first close frame. -/
def untilClose : List WebSocketFrame → List WebSocketFrame
  | [] => []
  | frame :: rest =>
      if frame.opcode = .close then [frame] else frame :: untilClose rest

def withoutPings (frames : List WebSocketFrame) : List WebSocketFrame :=
  frames.filter fun frame => frame.opcode ≠ .ping

theorem untilClose_append {pings : List WebSocketFrame}
    (hpings : ∀ ping ∈ pings, ping.opcode = .ping) (rest : List WebSocketFrame) :
    untilClose (pings ++ rest) = pings ++ untilClose rest := by
  induction pings with
  | nil => rfl
  | cons ping pings ih =>
      obtain ⟨hping, hothers⟩ := List.forall_mem_cons.mp hpings
      rw [List.cons_append, untilClose, hping, if_neg (by decide), ih hothers]
      rfl

theorem withoutPings_append {pings : List WebSocketFrame}
    (hpings : ∀ ping ∈ pings, ping.opcode = .ping) (rest : List WebSocketFrame) :
    withoutPings (pings ++ rest) = withoutPings rest := by
  have hnone : withoutPings pings = [] := by
    rw [withoutPings, List.filter_eq_nil_iff]
    intro ping hping
    simp [hpings ping hping]
  rw [withoutPings, List.filter_append]
  change withoutPings pings ++ withoutPings rest = _
  rw [hnone, List.nil_append]

theorem withoutPings_cons {frame : WebSocketFrame} (hframe : frame.opcode ≠ .ping)
    (rest : List WebSocketFrame) :
    withoutPings (frame :: rest) = frame :: withoutPings rest := by
  simp [withoutPings, hframe]

namespace RingReader

def RingReadsOk (r : RingReader) (last : RingRead) (done : List WebSocketFrame) :
    Prop :=
  match last with
  | .waits next | .returned _ next =>
      next.ring.pendingBids = [] ∧ Accounts r next ∧ Answers r next done
  | .threw => False

/-- After some calls: they have returned the frames that are no pings, in order
and up to a close frame; every ping and the close frame before that place has
its answer, and the buffer of every chunk that was taken is given back. -/
def ReadsStream (r : RingReader) (frames : List WebSocketFrame) (calls : Nat) :
    Prop :=
  (readFrames calls r).1 = (withoutPings (untilClose frames)).take calls ∧
    ∃ done, done <+: untilClose frames ∧
      withoutPings done = (readFrames calls r).1 ∧
      ((withoutPings (untilClose frames)).length < calls →
        done = untilClose frames) ∧
      RingReadsOk r (readFrames calls r).2 done

theorem readsOk_after {r mid : RingReader} {last : RingRead}
    {done others : List WebSocketFrame} (haccounts : Accounts r mid)
    (hanswers : Answers r mid done) (hmasked : mid.masked = r.masked)
    (hwrites : mid.writes = r.writes) (hlast : RingReadsOk mid last others) :
    RingReadsOk r last (done ++ others) := by
  have hjoin : ∀ {next : RingReader},
      Answers mid next others → Answers r next (done ++ others) := by
    intro next hothers
    unfold Answers at *
    rw [hothers, hanswers, hmasked, hwrites, List.flatMap_append, List.map_append,
      List.append_assoc]
  cases last with
  | threw => exact hlast
  | waits next => exact ⟨hlast.1, haccounts.trans hlast.2.1, hjoin hlast.2.2⟩
  | returned frame next =>
      exact ⟨hlast.1, haccounts.trans hlast.2.1, hjoin hlast.2.2⟩

theorem reads_stream {frames : List WebSocketFrame} {r : RingReader}
    (hcarries : Carries frames r) (hpending : r.ring.pendingBids = [])
    (calls : Nat) : ReadsStream r frames calls := by
  induction calls generalizing frames r with
  | zero =>
      exact ⟨rfl, [], List.nil_prefix, rfl,
        fun hlt => absurd hlt (Nat.not_lt_zero _),
        hpending, .refl r, .nil rfl⟩
  | succ calls ih =>
      have hcall := reads hcarries
      unfold ReadsStream
      rw [readFrames]
      cases hread : r.readFrameRing with
      | threw =>
          rw [hread] at hcall
          exact absurd hcall id
      | waits next =>
          rw [hread] at hcall
          obtain ⟨hpings, hnext, hchunks, haccounts, hanswers⟩ := hcall
          have huntil : untilClose frames = frames := by
            have := untilClose_append hpings []
            rwa [List.append_nil, untilClose, List.append_nil] at this
          have hnone : withoutPings frames = [] := by
            have := withoutPings_append hpings []
            rwa [List.append_nil] at this
          have hempty : next.ring.reasm = [] := by
            have hstream := hnext.stream
            rw [hchunks, List.flatMap_nil, List.append_nil] at hstream
            exact hstream
          rw [huntil, hnone]
          exact ⟨rfl, frames, List.prefix_rfl, hnone, fun _ => rfl,
            hnext.held hempty, haccounts, hanswers⟩
      | returned frame next =>
          rw [hread] at hcall
          obtain ⟨pings, rest, rfl, hpings, hframe, hnext, hfree,
              haccounts, hanswers,
            hmasked, hwrites⟩ := hcall
          rw [untilClose_append hpings, withoutPings_append hpings, untilClose]
          by_cases hclose : frame.opcode = .close
          · simp only [if_pos hclose]
            rw [withoutPings_cons hframe]
            refine ⟨by simp [withoutPings], pings ++ [frame], List.prefix_rfl, ?_,
              fun _ => rfl, hfree, haccounts, hanswers⟩
            rw [withoutPings_append hpings, withoutPings_cons hframe]
            rfl
          · simp only [if_neg hclose]
            obtain ⟨hgot, done, hprefix, hdone, hall, hok⟩ := ih hnext hfree
            rw [withoutPings_cons hframe, List.take_succ_cons, ← hgot]
            refine ⟨rfl, pings ++ frame :: done, ?_, ?_, ?_, ?_⟩
            · rw [List.prefix_append_right_inj, List.cons_prefix_cons]
              exact ⟨rfl, hprefix⟩
            · rw [withoutPings_append hpings, withoutPings_cons hframe, hdone]
            · intro hlt
              rw [List.length_cons] at hlt
              rw [hall (by omega)]
            · have hjoined := readsOk_after haccounts hanswers hmasked hwrites hok
              rwa [List.append_assoc] at hjoined

/-- What is written for a frame decodes to the answer. -/
theorem answer_isFrame (masked : Bool) (writes : Chunks) {frame : WebSocketFrame}
    (hframe : frame.Legal) :
    ∀ other ∈ answer frame, IsFrame (other.writeFrame masked writes).1 other.opcode
      true other.payload := by
  have hplain : ∀ (opcode : OpCode) (payload : List UInt8),
      OpCode.ofNat (opcode.toNat % 16) = opcode → payload.length < 2 ^ 63 →
      IsFrame
        (WebSocketFrame.writeFrame masked writes ⟨true, opcode, false, 0, payload⟩).1
        opcode true payload := by
    intro opcode payload hopcode hpayload
    rw [WebSocketFrame.writeFrame_sent]
    rw [WebSocketFrame.isFrame_writerHeader _ _ _ _ hpayload]
    exact ⟨hopcode, fun _ => applyMask_zero _⟩
  unfold answer
  split
  · intro other hother
    rw [List.mem_singleton.mp hother]
    exact hplain .pong frame.payload rfl hframe.length
  · intro other hother
    rw [List.mem_singleton.mp hother]
    exact hplain .close _ rfl (by decide)
  · simp

end RingReader

/-- The reader before the first call. -/
def RingReader.start (ring : RingConnection) (chunks : List RecvChunkResult)
    (masked : Bool) (writes : Chunks) : RingReader :=
  ⟨{ ring with hasGroup := true, reasm := [], pendingBids := [] }, chunks, masked,
    writes, false, []⟩

/-- However the stream is cut into chunks, `read_frame_ring` returns its frames
and answers its pings and its close frame. -/
theorem ring_reads_stream (frames : List WebSocketFrame)
    (hlegal : ∀ frame ∈ frames, frame.Legal) (chunks : List RecvChunkResult)
    (hdata : ∀ chunk ∈ chunks, 0 < chunk.res ∧ chunk.bytes ≠ [])
    (hstream : chunks.flatMap (·.bytes) = frames.flatMap wire)
    (ring : RingConnection) (masked : Bool) (writes : Chunks) (calls : Nat) :
    (RingReader.start ring chunks masked writes).ReadsStream frames calls ∧
      ∀ frame ∈ frames, ∀ other ∈ RingReader.answer frame,
        IsFrame (other.writeFrame masked writes).1 other.opcode true
          other.payload := by
  have hcarries : RingReader.Carries frames
      (RingReader.start ring chunks masked writes) :=
    ⟨hlegal, hstream, rfl, hdata, fun _ => rfl⟩
  refine ⟨RingReader.reads_stream hcarries rfl calls, ?_⟩
  exact fun frame hframe => RingReader.answer_isFrame masked writes
    (hlegal frame hframe)

/-- A masked ping and a text in three chunks; the second holds the end of the
ping and the front of the text. -/
def pingThenText : List WebSocketFrame :=
  [⟨true, .ping, true, 1, [0x61]⟩, ⟨true, .text, false, 0, [0x68, 0x69]⟩]

def pingThenTextChunks : List RecvChunkResult :=
  [⟨3, 0x00002, [0x89, 0x81, 0]⟩, ⟨6, 0x10002, [0, 0, 1, 0x61, 0x81, 0x02]⟩,
    ⟨2, 0x20002, [0x68, 0x69]⟩]

theorem ring_reads_stream_pingThenText :
    (RingReader.start (.init 4) pingThenTextChunks false fun _ => 1).ReadsStream
      pingThenText 2 := by
  have hlegal : ∀ frame ∈ pingThenText, frame.Legal := by
    intro frame hframe
    simp only [pingThenText, List.mem_cons, List.not_mem_nil, or_false] at hframe
    obtain rfl | rfl := hframe
    all_goals exact ⟨by simp, by decide, by decide⟩
  refine (ring_reads_stream pingThenText hlegal pingThenTextChunks ?_ (by decide)
    (.init 4) false _ 2).1
  intro chunk hchunk
  simp only [pingThenTextChunks, List.mem_cons, List.not_mem_nil, or_false] at hchunk
  obtain rfl | rfl | rfl := hchunk
  all_goals exact ⟨by decide, by simp⟩

end UltraNet
