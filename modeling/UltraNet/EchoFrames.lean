/-
`echo_inplace` and `echo_inplace_ring`, called until the stream ends: what they
send back depends on how the stream is cut.
-/
import Mathlib.Data.List.Forall2
import UltraNet.RingFrames

namespace UltraNet

open WebSocketFrame (applyMask maskByte wire)

inductive EchoOutcome where
  -- `co_return true`
  | again
  -- `co_return false`
  | ended
  -- an exception, or a payload outside of the buffer
  | broken
deriving DecidableEq

/-- One call: the bytes of each frame that is written, and the reads that are
left. -/
structure EchoCall where
  sent : List (List UInt8)
  outcome : EchoOutcome
  rest : List (List UInt8)

/-- The side of the connection, and how its writes are cut. -/
structure EchoSocket where
  masked : Bool
  writes : Chunks

namespace EchoSocket

def call (written : List UInt8 × Bool) (outcome : EchoOutcome)
    (rest : List (List UInt8)) : EchoCall :=
  ⟨[written.1], if written.2 then outcome else .broken, rest⟩

/-- The answer to a frame; `reply` writes a data frame back. -/
def answer (socket : EchoSocket) (opcode : OpCode) (payload : List UInt8)
    (reply : List UInt8 × Bool) (rest : List (List UInt8)) : EchoCall :=
  match opcode with
  | .ping =>
      call ((WebSocketFrame.pong payload).writeFrame socket.masked socket.writes)
        .again rest
  | .close =>
      call ((WebSocketFrame.close 1000 []).writeFrame socket.masked socket.writes)
        .ended rest
  | _ => call reply .again rest

/-- The fast path: the frame is in the buffer from the front on. -/
def echoFast (socket : EchoSocket) (buffer : List UInt8) (info : InlineFrameInfo)
    (start : Nat) (rest : List (List UInt8)) : EchoCall :=
  if buffer.length < start + info.payloadLen then ⟨[], .broken, rest⟩
  else
    let bytes := (buffer.drop start).take info.payloadLen
    let payload := if info.masked then applyMask info.maskKey bytes else bytes
    socket.answer info.opcode payload
      (WebSocketFrame.writeFrameRaw socket.masked socket.writes info.opcode info.fin
        payload) rest

/-- `echo_inplace`, with what it has read so far.  The bytes behind the frame
stay in the buffer of the call, and are lost with it. -/
def echoInplace (socket : EchoSocket) (buffer : List UInt8) :
    List (List UInt8) → EchoCall
  | [] => ⟨[], .ended, []⟩
  | read :: rest =>
      if read = [] then ⟨[], .ended, rest⟩
      else
        let buffer := buffer ++ read
        let info := parseInlineFrame buffer
        match info.payloadStart with
        | some start => socket.echoFast buffer info start rest
        | none => socket.echoInplace buffer rest

/-- The loop that waits for the rest of a frame; none when the stream ends. -/
def collectChunks (needed accumulated : Nat) :
    List (List UInt8) → Option (List (List UInt8) × List (List UInt8))
  | [] => if accumulated < needed then none else some ([], [])
  | chunk :: rest =>
      if accumulated < needed then
        (collectChunks needed (accumulated + chunk.length) rest).map fun found =>
          (chunk :: found.1, found.2)
      else some ([], chunk :: rest)

/-- The pieces of the payload in the chunks, from an offset in the first one. -/
def payloadPieces (offset remaining : Nat) : List (List UInt8) → List (List UInt8)
  | [] => []
  | chunk :: rest =>
      if remaining = 0 then []
      else
        let take := min remaining (chunk.length - offset)
        (chunk.drop offset).take take :: payloadPieces 0 (remaining - take) rest

/-- The unmasking of the pieces, with the offset in the whole payload. -/
def unmaskPieces (key : UInt32) (goff : Nat) :
    List (List UInt8) → List (List UInt8)
  | [] => []
  | piece :: rest =>
      (piece.mapIdx fun i byte => byte ^^^ maskByte key (goff + i)) ::
        unmaskPieces key (goff + piece.length) rest

/-- `echo_inplace_ring` over the chunks with data.  The bytes behind the frame
go back to the ring with its last buffer. -/
def echoInplaceRing (socket : EchoSocket) : List (List UInt8) → EchoCall
  | [] => ⟨[], .ended, []⟩
  | chunk :: rest =>
      let info := parseInlineFrame chunk
      match info.payloadStart with
      | some start => socket.echoFast chunk info start rest
      | none =>
          match collectChunks info.totalConsumed chunk.length rest with
          | none => ⟨[], .ended, []⟩
          | some (more, rest) =>
              let pieces :=
                payloadPieces info.headerLen info.payloadLen (chunk :: more)
              let pieces :=
                if info.masked then unmaskPieces info.maskKey 0 pieces else pieces
              socket.answer info.opcode pieces.flatten
                (WebSocketFrame.writeFrameRawMulti socket.masked socket.writes
                  info.opcode info.fin pieces info.payloadLen) rest

/-- The calls until one returns false. -/
def echoLoop (echo : List (List UInt8) → EchoCall) :
    Nat → List (List UInt8) → List (List UInt8)
  | 0, _ => []
  | calls + 1, reads =>
      let call := echo reads
      match call.outcome with
      | .again => call.sent ++ echoLoop echo calls call.rest
      | _ => call.sent

end EchoSocket

/-- One frame came back for each frame, with its opcode, `fin` and payload. -/
def EchoedBack (sent : List (List UInt8)) (frames : List WebSocketFrame) : Prop :=
  List.Forall₂ (fun bytes frame =>
    IsFrame bytes frame.opcode frame.fin frame.payload) sent frames

/-- The reads from the start of a frame on: the last one completes it, and ends
with a frame. -/
structure EchoBatch where
  first : WebSocketFrame
  later : List WebSocketFrame
  before : List (List UInt8)
  last : List UInt8
  legal : ∀ frame ∈ first :: later, frame.Legal ∧ IsDataFrame frame
  stream : before.flatten ++ last = first.wire ++ later.flatMap wire
  incomplete : before.flatten.length < first.wire.length
  nonempty : ∀ read ∈ before, read ≠ []

namespace EchoBatch

def frames (batch : EchoBatch) : List WebSocketFrame := batch.first :: batch.later

def reads (batch : EchoBatch) : List (List UInt8) := batch.before ++ [batch.last]

end EchoBatch

namespace WebSocketFrame

theorem writeFrameRaw_returned (masked : Bool) (writes : Chunks) (opcode : OpCode)
    (fin : Bool) (payload : List UInt8) :
    (writeFrameRaw masked writes opcode fin payload).2 = true := by
  unfold writeFrameRaw
  simp only
  by_cases hpayload : 0 < payload.length
  · rw [if_pos hpayload]
    refine writevAll_returned writes _ 0 (by simp [iovMax]) ?_
    intro iov hiov
    obtain rfl : payload = iov := by simpa using hiov
    exact List.length_pos_iff.mp hpayload
  · rw [if_neg hpayload]
    refine writevAll_returned writes _ 0 (by simp [iovMax]) ?_
    intro iov hiov
    obtain rfl : writerHeader opcode fin payload.length masked 0 = iov := by
      simpa using hiov
    rw [writerHeader_eq]
    simp

end WebSocketFrame

section

variable {frame : WebSocketFrame} (hlegal : frame.Legal)

include hlegal

/-- The pointer stays null while bytes of the frame are missing. -/
theorem parse_part {part more : List UInt8} (hsplit : part ++ more = frame.wire)
    (hmore : more ≠ []) : (parseInlineFrame part).payloadStart = none := by
  cases hheader : frameHeader part with
  | none => exact (parseInlineFrame_none hheader).1
  | some header =>
      obtain ⟨whole, hwhole, -, -, hsize, hsmall⟩ :=
        WebSocketFrame.frameHeader_wire hlegal []
      rw [List.append_nil, ← hsplit, frameHeader_append hheader more] at hwhole
      obtain rfl := Option.some.inj hwhole
      have hlength := congrArg List.length hsplit
      have hpos := List.length_pos_iff.mpr hmore
      rw [List.length_append] at hlength
      rw [parse_of_header hheader hsmall]
      exact if_pos (by omega)

/-- With the whole frame in the buffer, a data frame is written back. -/
theorem echoFast_wire (hdata : IsDataFrame frame) (socket : EchoSocket)
    (tail : List UInt8) (rest : List (List UInt8)) :
    ∃ start, (parseInlineFrame (frame.wire ++ tail)).payloadStart = some start ∧
      socket.echoFast (frame.wire ++ tail) (parseInlineFrame (frame.wire ++ tail))
          start rest =
        ⟨[(WebSocketFrame.writeFrameRaw socket.masked socket.writes frame.opcode
          frame.fin frame.payload).1], .again, rest⟩ := by
  obtain ⟨header, hheader, hframe, -, hsize, hsmall⟩ :=
    WebSocketFrame.frameHeader_wire hlegal tail
  have hlong : ¬ (frame.wire ++ tail).length < header.size := by
    rw [List.length_append]
    omega
  have hparse := parse_of_header hheader hsmall
  rw [if_neg hlong] at hparse
  have hopcode : header.opcode = frame.opcode := congrArg (·.opcode) hframe
  have hfin : header.fin = frame.fin := congrArg (·.fin) hframe
  have hpayload : header.payload (frame.wire ++ tail) = frame.payload :=
    congrArg (·.payload) hframe
  refine ⟨header.headerLen, by rw [hparse], ?_⟩
  have hreturned := WebSocketFrame.writeFrameRaw_returned socket.masked socket.writes
    frame.opcode frame.fin frame.payload
  unfold FrameHeader.payload at hpayload
  simp only at hpayload
  unfold EchoSocket.echoFast
  rw [hparse]
  simp only [hopcode, hfin, hpayload]
  rw [if_neg (by unfold FrameHeader.size at hlong; exact hlong)]
  obtain h | h | h := hdata
  all_goals
    simp only [EchoSocket.answer, h] at hreturned ⊢
    rw [EchoSocket.call, hreturned, if_pos rfl]

end

/-- What is written back for a data frame. -/
def EchoSocket.reply (socket : EchoSocket) (frame : WebSocketFrame) : List UInt8 :=
  WebSocketFrame.writerHeader frame.opcode frame.fin frame.payload.length
    socket.masked 0 ++ frame.payload

theorem isFrame_reply (socket : EchoSocket) {frame : WebSocketFrame}
    (hlegal : frame.Legal) (hdata : IsDataFrame frame) :
    IsFrame (socket.reply frame) frame.opcode frame.fin frame.payload := by
  rw [EchoSocket.reply, WebSocketFrame.isFrame_writerHeader _ _ _ _ hlegal.length]
  refine ⟨?_, fun _ => applyMask_zero _⟩
  obtain h | h | h := hdata <;> rw [h] <;> rfl

/-- The front of a longer list. -/
theorem split_front {A : Type} {part others whole tail : List A}
    (hsame : part ++ others = whole ++ tail) (hshort : part.length < whole.length) :
    ∃ more, part ++ more = whole ∧ more ≠ [] := by
  have htake := congrArg (List.take part.length) hsame
  rw [List.take_left' rfl, List.take_append_of_le_length
    (Nat.le_of_lt hshort)] at htake
  refine ⟨whole.drop part.length, ?_, ?_⟩
  · have hwhole := List.take_append_drop part.length whole
    rwa [← htake] at hwhole
  · rw [ne_eq, List.drop_eq_nil_iff]
    omega

namespace EchoBatch

variable (socket : EchoSocket) (batch : EchoBatch)

theorem first_legal : batch.first.Legal ∧ IsDataFrame batch.first :=
  batch.legal _ List.mem_cons_self

/-- Reads up to the end of a frame. -/
theorem echoInplace_reads {frame : WebSocketFrame} (hlegal : frame.Legal)
    (hdata : IsDataFrame frame) {tail last : List UInt8} (rest : List (List UInt8))
    (before : List (List UInt8)) (hnonempty : ∀ read ∈ before, read ≠ [])
    (seen : List UInt8)
    (hstream : seen ++ (before.flatten ++ last) = frame.wire ++ tail)
    (hshort : (seen ++ before.flatten).length < frame.wire.length) :
    socket.echoInplace seen (before ++ last :: rest) =
      ⟨[socket.reply frame], .again, rest⟩ := by
  induction before generalizing seen with
  | nil =>
      simp only [List.flatten_nil, List.nil_append,
        List.append_nil] at hstream hshort
      have hlast : last ≠ [] := by
        rintro rfl
        have hlength := congrArg List.length hstream
        simp only [List.append_nil, List.length_append] at hlength
        omega
      obtain ⟨start, hstart, hecho⟩ := echoFast_wire hlegal hdata socket tail rest
      rw [List.nil_append, EchoSocket.echoInplace, if_neg hlast]
      simp only [hstream, hstart, hecho, WebSocketFrame.writeFrameRaw_sent]
      rfl
  | cons read before ih =>
      obtain ⟨hread, hothers⟩ := List.forall_mem_cons.mp hnonempty
      simp only [List.flatten_cons] at hstream hshort
      rw [← List.append_assoc] at hshort
      rw [List.append_assoc, ← List.append_assoc] at hstream
      have hpart : (seen ++ read).length < frame.wire.length := by
        simp only [List.length_append] at hshort ⊢
        omega
      obtain ⟨more, hmore, hmissing⟩ := split_front hstream hpart
      have hstart := parse_part hlegal hmore hmissing
      rw [List.cons_append, EchoSocket.echoInplace, if_neg hread]
      simp only [hstart]
      exact ih hothers _ hstream hshort

theorem echoInplace_eq (rest : List (List UInt8)) :
    socket.echoInplace [] (batch.reads ++ rest) =
      ⟨[socket.reply batch.first], .again, rest⟩ := by
  obtain ⟨hlegal, hdata⟩ := batch.first_legal
  rw [reads, List.append_assoc]
  exact echoInplace_reads socket hlegal hdata rest batch.before batch.nonempty []
    batch.stream batch.incomplete

end EchoBatch

theorem collectChunks_eq {needed accumulated : Nat} (more : List (List UInt8))
    (last : List UInt8) (rest : List (List UInt8))
    (hshort : accumulated + more.flatten.length < needed)
    (hlong : needed ≤ accumulated + more.flatten.length + last.length) :
    EchoSocket.collectChunks needed accumulated (more ++ last :: rest) =
      some (more ++ [last], rest) := by
  induction more generalizing accumulated with
  | nil =>
      simp only [List.flatten_nil, List.length_nil, Nat.add_zero] at hshort hlong
      have hrest : EchoSocket.collectChunks needed (accumulated + last.length) rest =
          some ([], rest) := by
        cases rest with
        | nil => rw [EchoSocket.collectChunks, if_neg (by omega)]
        | cons chunk rest => rw [EchoSocket.collectChunks, if_neg (by omega)]
      rw [List.nil_append, EchoSocket.collectChunks, if_pos hshort, hrest]
      rfl
  | cons chunk more ih =>
      simp only [List.flatten_cons, List.length_append] at hshort hlong
      rw [List.cons_append, EchoSocket.collectChunks, if_pos (by omega),
        ih (by omega) (by omega)]
      rfl

theorem flatten_payloadPieces (offset remaining : Nat) (chunk : List UInt8)
    (rest : List (List UInt8)) (hoffset : offset ≤ chunk.length) :
    (EchoSocket.payloadPieces offset remaining (chunk :: rest)).flatten =
      ((chunk :: rest).flatten.drop offset).take remaining := by
  induction rest generalizing offset remaining chunk with
  | nil =>
      rw [EchoSocket.payloadPieces]
      by_cases hzero : remaining = 0
      · simp [hzero]
      · rw [if_neg hzero]
        simp [EchoSocket.payloadPieces, List.take_eq_take_iff]
  | cons next rest ih =>
      rw [EchoSocket.payloadPieces]
      by_cases hzero : remaining = 0
      · simp [hzero]
      · rw [if_neg hzero]
        simp only [List.flatten_cons] at ih ⊢
        rw [ih 0 _ next (Nat.zero_le _), List.drop_zero,
          List.drop_append_of_le_length hoffset]
        conv_rhs => rw [List.take_append, List.length_drop]
        congr 1
        · rw [List.take_eq_take_iff, List.length_drop]
          omega
        · rw [List.take_eq_take_iff]
          omega

theorem length_payloadPieces (offset remaining : Nat) (chunks : List (List UInt8)) :
    (EchoSocket.payloadPieces offset remaining chunks).length ≤ chunks.length := by
  induction chunks generalizing offset remaining with
  | nil => exact Nat.le_refl _
  | cons chunk rest ih =>
      rw [EchoSocket.payloadPieces]
      split
      · exact Nat.zero_le _
      · exact Nat.succ_le_succ (ih _ _)

theorem flatten_unmaskPieces (key : UInt32) (goff : Nat)
    (pieces : List (List UInt8)) :
    (EchoSocket.unmaskPieces key goff pieces).flatten =
      pieces.flatten.mapIdx fun i byte => byte ^^^ maskByte key (goff + i) := by
  induction pieces generalizing goff with
  | nil => rfl
  | cons piece rest ih =>
      have hshift : ∀ i, goff + piece.length + i = goff + (i + piece.length) := by
        omega
      rw [EchoSocket.unmaskPieces, List.flatten_cons, ih, List.flatten_cons,
        List.mapIdx_append]
      simp only [hshift]

theorem lengths_unmaskPieces (key : UInt32) (goff : Nat)
    (pieces : List (List UInt8)) :
    (EchoSocket.unmaskPieces key goff pieces).map List.length =
      pieces.map List.length := by
  induction pieces generalizing goff with
  | nil => rfl
  | cons piece rest ih => simp [EchoSocket.unmaskPieces, ih]

theorem lengths_segments (masked : Bool) (key : UInt32)
    (pieces : List (List UInt8)) :
    (if masked then EchoSocket.unmaskPieces key 0 pieces else pieces).map
      List.length = pieces.map List.length := by
  cases masked with
  | true => exact lengths_unmaskPieces key 0 pieces
  | false => rfl

/-- The pieces, unmasked where they have to be, are the payload of the frame. -/
theorem flatten_segments (header : FrameHeader) (chunk : List UInt8)
    (rest : List (List UInt8)) (hhead : header.headerLen ≤ chunk.length) :
    (if header.masked then
        EchoSocket.unmaskPieces header.key 0 (EchoSocket.payloadPieces
          header.headerLen header.payloadLen (chunk :: rest))
      else EchoSocket.payloadPieces header.headerLen header.payloadLen
        (chunk :: rest)).flatten = header.payload (chunk :: rest).flatten := by
  have hflat := flatten_payloadPieces header.headerLen header.payloadLen chunk rest
    hhead
  rw [FrameHeader.payload, ← hflat]
  cases header.masked with
  | true =>
      simp only [if_true, flatten_unmaskPieces, Nat.zero_add]
      rfl
  | false => rfl

/-- The payload ends inside the last chunk, so that the last piece is not
empty. -/
theorem payloadPieces_last (remaining : Nat) (more : List (List UInt8))
    (last : List UInt8) (hshort : more.flatten.length < remaining)
    (hlong : remaining ≤ more.flatten.length + last.length) :
    ∃ pieces piece, EchoSocket.payloadPieces 0 remaining (more ++ [last]) =
      pieces ++ [piece] ∧ piece ≠ [] := by
  induction more generalizing remaining with
  | nil =>
      simp only [List.flatten_nil, List.length_nil, Nat.zero_add] at hshort hlong
      refine ⟨[], last.take remaining, ?_, ?_⟩
      · rw [List.nil_append, EchoSocket.payloadPieces, if_neg (by omega)]
        simp [EchoSocket.payloadPieces, Nat.min_eq_left hlong]
      · rw [ne_eq, List.take_eq_nil_iff]
        rintro (rfl | rfl)
        · omega
        · simp only [List.length_nil] at hlong
          omega
  | cons chunk more ih =>
      simp only [List.flatten_cons, List.length_append] at hshort hlong
      obtain ⟨pieces, piece, hpieces, hpiece⟩ :=
        ih (remaining - min remaining (chunk.length - 0)) (by omega) (by omega)
      refine ⟨(chunk.drop 0).take (min remaining (chunk.length - 0)) ::
        pieces, piece,
        ?_, hpiece⟩
      rw [List.cons_append, EchoSocket.payloadPieces, if_neg (by omega)]
      simp only [hpieces, List.cons_append]

/-- The pieces of a payload that begins in the first chunk and ends in the last
one. -/
theorem payloadPieces_getLast? {offset remaining : Nat} {chunk last : List UInt8}
    {more : List (List UInt8)} (hoffset : offset ≤ chunk.length)
    (hshort : chunk.length + more.flatten.length < offset + remaining)
    (hlong : offset + remaining ≤
      chunk.length + more.flatten.length + last.length) :
    ∀ piece ∈ (EchoSocket.payloadPieces offset remaining
      (chunk :: (more ++ [last]))).getLast?, piece ≠ [] := by
  obtain ⟨pieces, end', hpieces, hend⟩ := payloadPieces_last
    (remaining - min remaining (chunk.length - offset)) more last
      (by omega) (by omega)
  intro piece hpiece
  rw [EchoSocket.payloadPieces, if_neg (by omega)] at hpiece
  simp only [hpieces] at hpiece
  rw [← List.cons_append, List.getLast?_append] at hpiece
  obtain rfl : end' = piece := by simpa using hpiece
  exact hend

theorem getLast?_of_lengths {pieces others : List (List UInt8)}
    (hlengths : pieces.map List.length = others.map List.length)
    (hlast : ∀ piece ∈ others.getLast?, piece ≠ []) :
    ∀ piece ∈ pieces.getLast?, piece ≠ [] := by
  intro piece hpiece hempty
  have hsame := congrArg List.getLast? hlengths
  rw [List.getLast?_map, List.getLast?_map, Option.mem_def.mp hpiece,
    hempty] at hsame
  cases hother : others.getLast? with
  | none =>
      rw [hother] at hsame
      cases hsame
  | some other =>
      rw [hother, Option.map_some, Option.map_some, Option.some.injEq] at hsame
      exact hlast other hother (List.length_eq_zero_iff.mp hsame.symm)

theorem writeFrameRawMulti_returned (masked : Bool) (writes : Chunks)
    (opcode : OpCode) (fin : Bool) {segments : List (List UInt8)} (payloadLen : Nat)
    (hfew : segments.length < iovMax)
    (hlast : ∀ piece ∈ segments.getLast?, piece ≠ []) :
    (WebSocketFrame.writeFrameRawMulti masked writes opcode fin segments
      payloadLen).2 = true := by
  refine writevAll_returned writes _ 0 (by rw [List.length_cons]; exact hfew) ?_
  intro piece hpiece
  rw [List.getLast?_cons] at hpiece
  cases hsegments : segments.getLast? with
  | none =>
      rw [hsegments, Option.mem_def, Option.some.injEq, Option.getD_none] at hpiece
      rw [← hpiece, WebSocketFrame.writerHeader_eq]
      simp
  | some other =>
      rw [hsegments, Option.mem_def, Option.some.injEq, Option.getD_some] at hpiece
      rw [← hpiece]
      exact hlast other hsegments

theorem answer_data (socket : EchoSocket) {opcode : OpCode} {payload : List UInt8}
    {reply : List UInt8 × Bool} (rest : List (List UInt8))
    (hdata : opcode = .text ∨ opcode = .binary ∨ opcode = .continuation)
    (hreturned : reply.2 = true) :
    socket.answer opcode payload reply rest = ⟨[reply.1], .again, rest⟩ := by
  obtain rfl | rfl | rfl := hdata
  all_goals
    simp only [EchoSocket.answer]
    rw [EchoSocket.call, hreturned, if_pos rfl]

/-- A payload in pieces is written back. -/
theorem answer_segments (socket : EchoSocket) {opcode : OpCode} (fin : Bool)
    {pieces segments : List (List UInt8)} (rest : List (List UInt8))
    (hdata : opcode = .text ∨ opcode = .binary ∨ opcode = .continuation)
    (hlengths : segments.map List.length = pieces.map List.length)
    (hfew : pieces.length < iovMax) (hlast : ∀ piece ∈ pieces.getLast?, piece ≠ []) :
    socket.answer opcode segments.flatten
        (WebSocketFrame.writeFrameRawMulti socket.masked socket.writes opcode fin
          segments segments.flatten.length) rest =
      ⟨[WebSocketFrame.writerHeader opcode fin segments.flatten.length socket.masked
        0 ++ segments.flatten], .again, rest⟩ := by
  have hsegments : segments.length < iovMax := by
    have hsame := congrArg List.length hlengths
    rw [List.length_map, List.length_map] at hsame
    omega
  have hend := getLast?_of_lengths hlengths hlast
  rw [answer_data socket rest hdata
    (writeFrameRawMulti_returned _ _ _ _ _ hsegments hend),
    WebSocketFrame.writeFrameRawMulti_sent _ _ _ _ hsegments]

/-- For the ring: the first chunk holds the whole header, and there are not too
many chunks for one `writev`. -/
def RingFits (chunks : List (List UInt8)) (frame : WebSocketFrame) : Prop :=
  (∀ header, frameHeader frame.wire = some header →
    header.headerLen ≤ (chunks.headD []).length) ∧ chunks.length < iovMax

namespace EchoBatch

theorem echoInplaceRing_eq (socket : EchoSocket) (batch : EchoBatch)
    (hready : RingFits batch.reads batch.first) (rest : List (List UInt8)) :
    socket.echoInplaceRing (batch.reads ++ rest) =
      ⟨[socket.reply batch.first], .again, rest⟩ := by
  obtain ⟨hlegal, hdata⟩ := batch.first_legal
  obtain ⟨hwhole, hfew⟩ := hready
  have hstream := batch.stream
  have hincomplete := batch.incomplete
  cases hbefore : batch.before with
  | nil =>
      rw [hbefore, List.flatten_nil, List.nil_append] at hstream
      obtain ⟨start, hstart, hecho⟩ := echoFast_wire hlegal hdata socket
        (batch.later.flatMap wire) rest
      rw [reads, hbefore, List.nil_append, List.singleton_append,
        EchoSocket.echoInplaceRing]
      simp only [hstream, hstart, hecho, WebSocketFrame.writeFrameRaw_sent]
      rfl
  | cons chunk more =>
      rw [reads, hbefore] at hwhole
      rw [hbefore, List.flatten_cons, List.append_assoc] at hstream
      rw [hbefore, List.flatten_cons, List.length_append] at hincomplete
      rw [reads, hbefore, List.length_append, List.length_cons,
        List.length_singleton]
        at hfew
      obtain ⟨header, hheader, hframe, hplen, hsize, hsmall⟩ :=
        WebSocketFrame.frameHeader_wire hlegal (batch.later.flatMap wire)
      have htotal := congrArg List.length hstream
      simp only [List.length_append] at htotal
      have hinside : header.headerLen ≤ batch.first.wire.length := by
        rw [← hsize]
        exact Nat.le_add_right _ _
      have hhead : header.headerLen ≤ chunk.length :=
        hwhole header (frameHeader_of_append hheader hinside)
      have hchunk : frameHeader chunk = some header := by
        rw [← hstream] at hheader
        exact frameHeader_of_append hheader hhead
      have hparse := parse_of_header hchunk hsmall
      rw [if_pos (by omega)] at hparse
      have hcollect := collectChunks_eq more batch.last rest
        (show chunk.length + more.flatten.length < header.size by omega) (by omega)
      have hopcode : header.opcode = batch.first.opcode := congrArg (·.opcode) hframe
      have hfin : header.fin = batch.first.fin := congrArg (·.fin) hframe
      have hcount := length_payloadPieces header.headerLen header.payloadLen
        (chunk :: (more ++ [batch.last]))
      simp only [List.length_cons, List.length_append, List.length_nil] at hcount
      have hlast := payloadPieces_getLast? hhead
        (by unfold FrameHeader.size at hsize; omega)
        (show header.headerLen + header.payloadLen ≤
          chunk.length + more.flatten.length + batch.last.length by
            unfold FrameHeader.size at hsize; omega)
      have hsent := flatten_segments header chunk (more ++ [batch.last]) hhead
      rw [List.flatten_cons, List.flatten_append, List.flatten_singleton, hstream,
        show header.payload _ = batch.first.payload from congrArg (·.payload) hframe]
        at hsent
      have hanswer := answer_segments socket batch.first.fin rest hdata
        (lengths_segments header.masked header.key _) (by omega) hlast
      rw [hsent, ← hplen] at hanswer
      rw [reads, hbefore, List.cons_append, List.cons_append, List.append_assoc,
        EchoSocket.echoInplaceRing]
      simp only [hparse, List.singleton_append, hcollect, hopcode, hfin, hsent]
      rw [hanswer, hplen]
      rfl

end EchoBatch

/-- The calls over one batch after the other. -/
theorem echoLoop_batches (socket : EchoSocket) {echo : List (List UInt8) → EchoCall}
    (hend : ∃ outcome, outcome ≠ .again ∧ echo [] = ⟨[], outcome, []⟩)
    (batches : List EchoBatch)
    (hecho : ∀ batch ∈ batches, ∀ rest, echo (batch.reads ++ rest) =
      ⟨[socket.reply batch.first], .again, rest⟩)
    {calls : Nat} (hcalls : batches.length < calls) :
    EchoSocket.echoLoop echo calls (batches.flatMap EchoBatch.reads) =
      batches.map fun batch => socket.reply batch.first := by
  induction batches generalizing calls with
  | nil =>
      obtain ⟨outcome, hstop, hnone⟩ := hend
      cases calls with
      | zero => rfl
      | succ calls =>
          rw [List.flatMap_nil, EchoSocket.echoLoop]
          simp only [hnone]
          cases outcome with
          | again => exact absurd rfl hstop
          | ended => rfl
          | broken => rfl
  | cons batch batches ih =>
      obtain ⟨hfirst, hlater⟩ := List.forall_mem_cons.mp hecho
      cases calls with
      | zero => exact absurd hcalls (Nat.not_lt_zero _)
      | succ calls =>
          rw [List.flatMap_cons, EchoSocket.echoLoop]
          simp only [hfirst]
          rw [ih hlater (Nat.lt_of_succ_lt_succ hcalls)]
          rfl

theorem length_frames (batches : List EchoBatch) :
    (batches.flatMap EchoBatch.frames).length =
      batches.length + (batches.flatMap (·.later)).length := by
  induction batches with
  | nil => rfl
  | cons batch batches ih =>
      rw [List.flatMap_cons, List.flatMap_cons, List.length_append,
        List.length_append,
        ih, EchoBatch.frames, List.length_cons, List.length_cons]
      omega

/-- One frame comes back for each batch. -/
theorem echoedBack_iff (socket : EchoSocket) (batches : List EchoBatch) :
    EchoedBack (batches.map fun batch => socket.reply batch.first)
        (batches.flatMap EchoBatch.frames) ↔
      ∀ batch ∈ batches, batch.later = [] := by
  constructor
  · intro hback
    have hcount := hback.length_eq
    rw [List.length_map, length_frames] at hcount
    have hnone : (batches.flatMap (·.later)).length = 0 := by omega
    exact List.flatMap_eq_nil_iff.mp (List.length_eq_zero_iff.mp hnone)
  · intro hsingle
    induction batches with
    | nil => exact List.Forall₂.nil
    | cons batch batches ih =>
        obtain ⟨hfirst, hlater⟩ := List.forall_mem_cons.mp hsingle
        obtain ⟨hlegal, hdata⟩ := batch.first_legal
        rw [List.map_cons, List.flatMap_cons, EchoBatch.frames, hfirst]
        exact List.Forall₂.cons (isFrame_reply socket hlegal hdata) (ih hlater)

theorem length_reads (batches : List EchoBatch) :
    batches.length ≤ (batches.flatMap EchoBatch.reads).length := by
  induction batches with
  | nil => exact Nat.le_refl _
  | cons batch batches ih =>
      rw [List.flatMap_cons, List.length_append, List.length_cons, EchoBatch.reads,
        List.length_append, List.length_singleton]
      omega

/-- `echo_inplace` or `echo_inplace_ring`. -/
inductive EchoKind where
  | inplace
  | ring

def EchoSocket.echo (socket : EchoSocket) : EchoKind → List (List UInt8) → EchoCall
  | .inplace => socket.echoInplace []
  | .ring => socket.echoInplaceRing

/-- The reads of a frame that the function can put together. -/
def EchoKind.Fits : EchoKind → List (List UInt8) → WebSocketFrame → Prop
  | .inplace => fun _ _ => True
  | .ring => RingFits

/-- Each read holds bytes of one frame only. -/
def OneFrameEach (kind : EchoKind) (reads : List (List UInt8))
    (frames : List WebSocketFrame) : Prop :=
  ∃ parts : List (List (List UInt8)), parts.flatten = reads ∧
    List.Forall₂ (fun part frame => part.flatten = frame.wire ∧ kind.Fits part frame)
      parts frames

/-- A read that completes a frame ends with a frame. -/
def Batched (kind : EchoKind) (reads : List (List UInt8))
    (frames : List WebSocketFrame) : Prop :=
  ∃ batches : List EchoBatch, batches.flatMap EchoBatch.reads = reads ∧
    batches.flatMap EchoBatch.frames = frames ∧
      ∀ batch ∈ batches, kind.Fits batch.reads batch.first

theorem echo_batch (socket : EchoSocket) {kind : EchoKind} {batch : EchoBatch}
    (hfits : kind.Fits batch.reads batch.first) (rest : List (List UInt8)) :
    socket.echo kind (batch.reads ++ rest) =
      ⟨[socket.reply batch.first], .again, rest⟩ := by
  cases kind with
  | inplace => exact EchoBatch.echoInplace_eq socket batch rest
  | ring => exact EchoBatch.echoInplaceRing_eq socket batch hfits rest

theorem echoLoop_eq (socket : EchoSocket) {kind : EchoKind}
    {batches : List EchoBatch}
    (hfits : ∀ batch ∈ batches, kind.Fits batch.reads batch.first) {calls : Nat}
    (hcalls : (batches.flatMap EchoBatch.reads).length < calls) :
    EchoSocket.echoLoop (socket.echo kind) calls (batches.flatMap EchoBatch.reads) =
      batches.map fun batch => socket.reply batch.first := by
  have hend : ∃ outcome, outcome ≠ EchoOutcome.again ∧
      socket.echo kind [] = ⟨[], outcome, []⟩ := by
    refine ⟨.ended, by decide, ?_⟩
    cases kind with
    | inplace => rfl
    | ring => rfl
  have hlength := length_reads batches
  refine echoLoop_batches socket hend batches ?_ (by omega)
  intro batch hbatch
  exact echo_batch socket (hfits batch hbatch)

/-- Reads that hold bytes of one frame only are batches of one frame. -/
theorem batches_of_oneFrame {kind : EchoKind} {parts : List (List (List UInt8))}
    {frames : List WebSocketFrame}
    (hlegal : ∀ frame ∈ frames, frame.Legal ∧ IsDataFrame frame)
    (hnonempty : ∀ read ∈ parts.flatten, read ≠ [])
    (hparts : List.Forall₂
      (fun part frame => part.flatten = frame.wire ∧ kind.Fits part frame)
        parts frames) :
    ∃ batches : List EchoBatch, batches.flatMap EchoBatch.reads = parts.flatten ∧
      batches.flatMap EchoBatch.frames = frames ∧
        (∀ batch ∈ batches, kind.Fits batch.reads batch.first) ∧
          ∀ batch ∈ batches, batch.later = [] := by
  induction hparts with
  | nil => exact ⟨[], rfl, rfl, by simp, by simp⟩
  | @cons part frame parts frames hpart _ ih =>
      obtain ⟨hpart, hfit⟩ := hpart
      obtain ⟨hframe, hothers⟩ := List.forall_mem_cons.mp hlegal
      rw [List.flatten_cons, List.forall_mem_append] at hnonempty
      obtain ⟨hread, hrest⟩ := hnonempty
      obtain ⟨batches, hreads, hframes, hfits, hsingle⟩ := ih hothers hrest
      obtain rfl | ⟨before, last, rfl⟩ := List.eq_nil_or_concat part
      · cases hpart
      · have hlast := List.length_pos_iff.mpr (hread last (by simp))
        rw [List.concat_eq_append] at hpart hfit hread ⊢
        rw [List.flatten_append, List.flatten_singleton] at hpart
        have hlength := congrArg List.length hpart
        rw [List.length_append] at hlength
        let batch : EchoBatch :=
          { first := frame
            later := []
            before := before
            last := last
            legal := by simpa using hframe
            stream := by simpa using hpart
            incomplete := by omega
            nonempty := fun read h => hread read (List.mem_append_left _ h) }
        refine ⟨batch :: batches, ?_, ?_, ?_, ?_⟩
        · rw [List.flatMap_cons, hreads]
          rfl
        · rw [List.flatMap_cons, hframes]
          rfl
        · exact List.forall_mem_cons.mpr ⟨hfit, hfits⟩
        · exact List.forall_mem_cons.mpr ⟨rfl, hsingle⟩

theorem oneFrame_of_batches {kind : EchoKind} (batches : List EchoBatch)
    (hfits : ∀ batch ∈ batches, kind.Fits batch.reads batch.first)
    (hsingle : ∀ batch ∈ batches, batch.later = []) :
    OneFrameEach kind (batches.flatMap EchoBatch.reads)
      (batches.flatMap EchoBatch.frames) := by
  refine ⟨batches.map EchoBatch.reads, rfl, ?_⟩
  induction batches with
  | nil => exact List.Forall₂.nil
  | cons batch batches ih =>
      obtain ⟨hfit, hmore⟩ := List.forall_mem_cons.mp hfits
      obtain ⟨hfirst, hlater⟩ := List.forall_mem_cons.mp hsingle
      have hstream := batch.stream
      rw [hfirst, List.flatMap_nil, List.append_nil] at hstream
      rw [List.map_cons, List.flatMap_cons, EchoBatch.frames, hfirst]
      refine List.Forall₂.cons ⟨?_, hfit⟩ (ih hmore hlater)
      rw [EchoBatch.reads, List.flatten_append, List.flatten_singleton, hstream]

/-- With bytes of one frame in each read all frames come back.  Of reads where
a frame completes only at the end of a frame there are no others. -/
theorem echo_iff_oneFrame (socket : EchoSocket) (kind : EchoKind)
    {frames : List WebSocketFrame}
    (hlegal : ∀ frame ∈ frames, frame.Legal ∧ IsDataFrame frame)
    {reads : List (List UInt8)} (hnonempty : ∀ read ∈ reads, read ≠ [])
    {calls : Nat} (hcalls : reads.length < calls) :
    (OneFrameEach kind reads frames →
        EchoedBack (EchoSocket.echoLoop (socket.echo kind) calls reads) frames) ∧
      (Batched kind reads frames →
        EchoedBack (EchoSocket.echoLoop (socket.echo kind) calls reads) frames →
          OneFrameEach kind reads frames) := by
  constructor
  · rintro ⟨parts, rfl, hparts⟩
    obtain ⟨batches, hreads, rfl, hfits, hsingle⟩ :=
      batches_of_oneFrame hlegal hnonempty hparts
    rw [← hreads] at hcalls ⊢
    rw [echoLoop_eq socket hfits hcalls]
    exact (echoedBack_iff socket batches).mpr hsingle
  · rintro ⟨batches, rfl, rfl, hfits⟩ hback
    rw [echoLoop_eq socket hfits hcalls] at hback
    exact oneFrame_of_batches batches hfits
      ((echoedBack_iff socket batches).mp hback)

open WebSocketFrame in
theorem echo_iff_oneFrame_twice :
    EchoedBack (EchoSocket.echoLoop (EchoSocket.echo ⟨false, fun _ => 1⟩ .ring) 4
      [[0x81, 2, 0x68], [0x69], [0x81, 2, 0x68, 0x69]]) [hello, hello] := by
  have hheader : ∀ chunks : List (List UInt8), 2 ≤ (chunks.headD []).length →
      ∀ header, frameHeader hello.wire = some header →
        header.headerLen ≤ (chunks.headD []).length := by
    intro chunks htwo header hfound
    have hsize : (frameHeader hello.wire).map (·.headerLen) = some 2 := by decide
    rw [hfound, Option.map_some, Option.some.injEq] at hsize
    omega
  refine (echo_iff_oneFrame _ .ring ?_ (by decide) (by decide)).1
    ⟨[[[0x81, 2, 0x68], [0x69]], [[0x81, 2, 0x68, 0x69]]], rfl, ?_⟩
  · have hlegal : hello.Legal ∧ IsDataFrame hello :=
      ⟨⟨fun code => by simp [hello], by decide, fun _ => rfl⟩, .inl rfl⟩
    simpa using hlegal
  · refine .cons ⟨by decide, hheader _ (by decide), by decide⟩
      (.cons ⟨by decide, hheader _ (by decide), by decide⟩ .nil)

open WebSocketFrame in
/-- Two frames in one read: the second one is lost.  In the ring it is the same,
and a header in two chunks sends an empty frame. -/
theorem echo_loses_second :
    EchoSocket.echoLoop (EchoSocket.echo ⟨false, fun _ => 1⟩ .inplace) 3
        [hello.wire ++ hello.wire] = [hello.wire] ∧
      ¬ EchoedBack (EchoSocket.echoLoop (EchoSocket.echo ⟨false,
        fun _ => 1⟩ .inplace) 3
        [hello.wire ++ hello.wire]) [hello, hello] ∧
      ¬ EchoedBack (EchoSocket.echoLoop (EchoSocket.echo ⟨false, fun _ => 1⟩ .ring) 3
        [hello.wire ++ hello.wire]) [hello, hello] ∧
      ¬ EchoedBack (EchoSocket.echoLoop (EchoSocket.echo ⟨false, fun _ => 1⟩ .ring) 3
        [[0x81], [2, 0x68, 0x69]]) [hello] := by
  have honce : ∀ kind, EchoSocket.echoLoop
      (EchoSocket.echo ⟨false, fun _ => 1⟩ kind) 3
      [hello.wire ++ hello.wire] = [hello.wire] := by
    intro kind
    cases kind with
    | inplace => decide +kernel
    | ring => decide +kernel
  have hmissing : ¬ EchoedBack [hello.wire] [hello, hello] := by
    intro hback
    cases hback with
    | cons _ hrest => cases hrest
  have hheader : EchoSocket.echoLoop (EchoSocket.echo ⟨false, fun _ => 1⟩ .ring) 3
      [[0x81], [2, 0x68, 0x69]] = [[0x81, 0]] := by
    decide +kernel
  refine ⟨honce .inplace, by rwa [honce], by rwa [honce], ?_⟩
  intro hback
  rw [hheader] at hback
  cases hback with
  | cons hframe _ =>
      obtain ⟨frame, hdecode, -, -, hpayload⟩ := hframe
      have hempty : decodeFrame [0x81, 0] =
          some (⟨true, .text, false, 0, []⟩, 2) := by
        decide
      rw [decodeFrame_eq_some.mp hempty] at hdecode
      cases hdecode
      cases hpayload

end UltraNet
