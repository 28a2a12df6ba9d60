/-
The header of a WebSocket frame as data.  `decode` and `parse_inline_frame`
read it by two programs of their own; each is the same function of it.
-/
import UltraNet.InlineFrame

namespace UltraNet

structure FrameHeader where
  fin : Bool
  opcode : OpCode
  masked : Bool
  key : UInt32
  headerLen : Nat
  payloadLen : Nat
deriving DecidableEq

namespace FrameHeader

/-- Header and payload, in exact arithmetic. -/
def size (header : FrameHeader) : Nat := header.headerLen + header.payloadLen

/-- The payload of a frame that begins at the front of the buffer. -/
def payload (header : FrameHeader) (data : List UInt8) : List UInt8 :=
  let bytes := (data.drop header.headerLen).take header.payloadLen
  if header.masked then WebSocketFrame.applyMask header.key bytes else bytes

def frame (header : FrameHeader) (data : List UInt8) : WebSocketFrame :=
  ⟨header.fin, header.opcode, header.masked, header.key, header.payload data⟩

end FrameHeader

/-- The payload length that the second byte and those behind it declare. -/
def declaredLength (second : UInt8) (rest : List UInt8) : Nat :=
  let short := (second &&& 0x7F).toNat
  let extended := WebSocketFrame.lengthBytes short
  if extended = 0 then short else beNat (rest.take extended)

/-- The header at the front of a buffer, once all of its bytes are there. -/
def frameHeader (data : List UInt8) : Option FrameHeader :=
  match data with
  | first :: second :: rest =>
      let extended := WebSocketFrame.lengthBytes (second &&& 0x7F).toNat
      let plen := declaredLength second rest
      let fin : Bool := first &&& 0x80 ≠ 0
      let opcode := OpCode.ofNat (first &&& 0x0F).toNat
      if second &&& 0x80 = 0 then
        if rest.length < extended then none
        else some ⟨fin, opcode, false, 0, 2 + extended, plen⟩
      else if rest.length < extended + 4 then none
      else
        some ⟨fin, opcode, true,
          UInt32.ofNat (beNat ((rest.drop extended).take 4)), 6 + extended, plen⟩
  | _ => none

theorem beNat_take_lt (bytes : List UInt8) (width : Nat) :
    beNat (bytes.take width) < 256 ^ width := by
  refine Nat.lt_of_lt_of_le (leNat_lt _) (Nat.pow_le_pow_right (by decide) ?_)
  rw [List.length_reverse]
  exact List.length_take_le width bytes

/-- Only eight length bytes can declare more than 16 bits. -/
theorem declaredLength_lt (second : UInt8) (rest : List UInt8) :
    declaredLength second rest < 2 ^ 64 ∧
      (WebSocketFrame.lengthBytes (second &&& 0x7F).toNat ≠ 8 →
        declaredLength second rest < 2 ^ 16) := by
  have hshort := (second &&& 0x7F).toNat_lt
  unfold declaredLength WebSocketFrame.lengthBytes
  by_cases htwo : (second &&& 0x7F).toNat = 126
  · have := beNat_take_lt rest 2
    simp only [htwo, if_true]
    exact ⟨Nat.lt_trans this (by decide), fun _ => this⟩
  · by_cases height : (second &&& 0x7F).toNat = 127
    · have := beNat_take_lt rest 8
      simp only [height, if_true]
      exact ⟨this, fun hnot => absurd rfl hnot⟩
    · simp only [if_neg htwo, if_neg height, if_true]
      omega

theorem declaredLength_append {second : UInt8} {rest : List UInt8}
    (hlong : WebSocketFrame.lengthBytes (second &&& 0x7F).toNat ≤ rest.length)
    (more : List UInt8) :
    declaredLength second (rest ++ more) = declaredLength second rest := by
  simp only [declaredLength, List.take_append_of_le_length hlong]

section

variable {data : List UInt8} {header : FrameHeader}

theorem frameHeader_bounds (hheader : frameHeader data = some header) :
    2 ≤ header.headerLen ∧ header.headerLen ≤ 14 ∧
      header.headerLen ≤ data.length := by
  match data with
  | [] => cases hheader
  | [_] => cases hheader
  | first :: second :: rest =>
      have hbytes := WebSocketFrame.lengthBytes_le (second &&& 0x7F).toNat
      simp only [frameHeader] at hheader
      simp only [List.length_cons]
      split at hheader
      all_goals
        obtain ⟨hlong, hsome⟩ := Option.ite_none_left_eq_some.mp hheader
        obtain rfl := Option.some.inj hsome
        simp only
        omega

/-- A frame that ends beyond `2^64` wraps to a place inside its own header. -/
theorem frameHeader_wraps (hheader : frameHeader data = some header)
    (hlarge : 2 ^ 64 ≤ header.size) :
    header.size - 2 ^ 64 < header.headerLen := by
  match data with
  | [] => cases hheader
  | [_] => cases hheader
  | first :: second :: rest =>
      obtain ⟨hlong, hshort⟩ := declaredLength_lt second rest
      have hbytes := WebSocketFrame.lengthBytes_le (second &&& 0x7F).toNat
      simp only [frameHeader] at hheader
      have height : WebSocketFrame.lengthBytes (second &&& 0x7F).toNat = 8 := by
        by_contra hnot
        have := hshort hnot
        unfold FrameHeader.size at hlarge
        split at hheader
        all_goals
          obtain ⟨-, hsome⟩ := Option.ite_none_left_eq_some.mp hheader
          obtain rfl := Option.some.inj hsome
          simp only at hlarge
          omega
      unfold FrameHeader.size at hlarge ⊢
      split at hheader
      all_goals
        obtain ⟨-, hsome⟩ := Option.ite_none_left_eq_some.mp hheader
        obtain rfl := Option.some.inj hsome
        simp only [height] at hlarge ⊢
        omega

/-- A header does not change when more bytes arrive. -/
theorem frameHeader_append (hheader : frameHeader data = some header)
    (more : List UInt8) : frameHeader (data ++ more) = some header := by
  match data with
  | [] => cases hheader
  | [_] => cases hheader
  | first :: second :: rest =>
      simp only [frameHeader, List.cons_append] at hheader ⊢
      have hlength : ∀ width ≤ rest.length,
          ¬ (rest ++ more).length < width := by
        intro width hwidth
        rw [List.length_append]
        omega
      split at hheader
      · rename_i hmask
        obtain ⟨hlong, hsome⟩ := Option.ite_none_left_eq_some.mp hheader
        rw [if_pos hmask, if_neg (hlength _ (by omega)), ← hsome,
          declaredLength_append (by omega)]
      · rename_i hmask
        obtain ⟨hlong, hsome⟩ := Option.ite_none_left_eq_some.mp hheader
        rw [if_neg hmask, if_neg (hlength _ (by omega)), ← hsome,
          declaredLength_append (by omega),
          List.drop_append_of_le_length (by omega),
          List.take_append_of_le_length (by rw [List.length_drop]; omega)]

/-- A header is there as soon as its own bytes are. -/
theorem frameHeader_of_append {more : List UInt8}
    (hheader : frameHeader (data ++ more) = some header)
    (hlong : header.headerLen ≤ data.length) : frameHeader data = some header := by
  have hbounds := frameHeader_bounds hheader
  match data with
  | [] => exact absurd hlong (by simp; omega)
  | [_] => exact absurd hlong (by simp; omega)
  | first :: second :: rest =>
      cases hdata : frameHeader (first :: second :: rest) with
      | some other => exact (frameHeader_append hdata more).symm.trans hheader
      | none =>
          simp only [frameHeader, List.cons_append] at hheader hdata
          simp only [List.length_cons] at hlong
          split at hheader
          · rename_i hmask
            obtain ⟨-, hsome⟩ := Option.ite_none_left_eq_some.mp hheader
            obtain rfl := Option.some.inj hsome
            rw [if_pos hmask, if_neg (by simp only at hlong; omega)] at hdata
            cases hdata
          · rename_i hmask
            obtain ⟨-, hsome⟩ := Option.ite_none_left_eq_some.mp hheader
            obtain rfl := Option.some.inj hsome
            rw [if_neg hmask, if_neg (by simp only at hlong; omega)] at hdata
            cases hdata

end

theorem length_payload {data : List UInt8} {header : FrameHeader}
    (hlong : header.size ≤ data.length) :
    (header.payload data).length = header.payloadLen := by
  unfold FrameHeader.size at hlong
  have hbytes : ((data.drop header.headerLen).take header.payloadLen).length =
      header.payloadLen := by
    rw [List.length_take, List.length_drop]
    omega
  unfold FrameHeader.payload
  cases header.masked with
  | true => exact (WebSocketFrame.length_applyMask _ _).trans hbytes
  | false => exact hbytes

namespace WebSocketFrame

theorem decodePayload_eq (header : FrameHeader) (data : List UInt8)
    (hlength : header.headerLen ≤ data.length) :
    decodePayload ⟨header.fin, header.opcode, header.masked, header.key, []⟩
        header.payloadLen header.headerLen (data.drop header.headerLen) =
      if 2 ^ 64 ≤ header.size then
        if data.length < header.size - 2 ^ 64 then .more else .tooLong
      else if data.length < header.size then .more
      else .frame (header.frame data) header.size := by
  unfold decodePayload FrameHeader.size
  have hrest : header.headerLen + (data.drop header.headerLen).length =
      data.length := by
    rw [List.length_drop]
    omega
  by_cases hlarge : 2 ^ 64 ≤ header.headerLen + header.payloadLen
  · rw [if_pos hlarge, if_pos hlarge, hrest]
  · rw [if_neg hlarge, if_neg hlarge]
    by_cases hshort : data.length < header.headerLen + header.payloadLen
    · rw [if_pos hshort, if_pos (by omega)]
    · rw [if_neg hshort, if_neg (by omega)]
      rfl

/-- What `decode` makes of the header. -/
theorem decode_eq (data : List UInt8) :
    decode data = match frameHeader data with
      | none => .more
      | some header =>
          if 2 ^ 64 ≤ header.size then
            if data.length < header.size - 2 ^ 64 then .more else .tooLong
          else if data.length < header.size then .more
          else .frame (header.frame data) header.size := by
  cases hheader : frameHeader data with
  | none =>
      obtain _ | ⟨first, _ | ⟨second, rest⟩⟩ := data
      · rfl
      · rfl
      · simp only [frameHeader, declaredLength] at hheader
        simp only [decode, decodeKey]
        split at hheader
        · rename_i hmask
          have hshort : rest.length < lengthBytes (second &&& 0x7F).toNat := by
            by_contra hnot
            rw [if_neg hnot] at hheader
            cases hheader
          rw [if_pos hshort]
        · rename_i hmask
          have hshort :
              rest.length < lengthBytes (second &&& 0x7F).toNat + 4 := by
            by_contra hnot
            rw [if_neg hnot] at hheader
            cases hheader
          split
          · rfl
          · rw [if_pos (by rw [List.length_drop]; omega)]
  | some header =>
      have hbounds := frameHeader_bounds hheader
      simp only
      rw [← decodePayload_eq header data hbounds.2.2]
      obtain _ | ⟨first, _ | ⟨second, rest⟩⟩ := data
      · cases hheader
      · cases hheader
      · simp only [frameHeader] at hheader
        simp only [decode, decodeKey]
        split at hheader
        · rename_i hmask
          obtain ⟨hlong, hsome⟩ := Option.ite_none_left_eq_some.mp hheader
          obtain rfl := Option.some.inj hsome
          rw [if_neg hlong, if_pos hmask]
          simp only [Nat.add_comm 2, List.drop_succ_cons]
          rfl
        · rename_i hmask
          obtain ⟨hlong, hsome⟩ := Option.ite_none_left_eq_some.mp hheader
          obtain rfl := Option.some.inj hsome
          rw [if_neg (by omega), if_neg hmask,
            if_neg (by rw [List.length_drop]; omega), List.drop_drop]
          simp only [Nat.add_comm 6, Nat.add_comm 2, List.drop_succ_cons]
          rfl

/-- The header of a frame on the wire. -/
theorem frameHeader_wire {frame : WebSocketFrame} (hlegal : frame.Legal)
    (rest : List UInt8) :
    ∃ header, frameHeader (frame.wire ++ rest) = some header ∧
      header.frame (frame.wire ++ rest) = frame ∧
      header.payloadLen = frame.payload.length ∧
      header.size = frame.wire.length ∧ header.size < 2 ^ 64 := by
  have hdecode := decode_wire hlegal rest
  rw [decode_eq] at hdecode
  cases hheader : frameHeader (frame.wire ++ rest) with
  | none =>
      rw [hheader] at hdecode
      cases hdecode
  | some header =>
      rw [hheader] at hdecode
      simp only at hdecode
      split at hdecode
      · split at hdecode <;> cases hdecode
      · rename_i hsmall
        split at hdecode
        · cases hdecode
        · rename_i hlong
          injection hdecode with hframe hsize
          have hlength := length_payload (Nat.le_of_not_lt hlong)
          refine ⟨header, rfl, hframe, ?_, hsize, by omega⟩
          rw [← hlength]
          exact congrArg (fun frame => frame.payload.length) hframe

theorem decode_pos {data : List UInt8} {frame : WebSocketFrame} {size : Nat}
    (hfound : decode data = .frame frame size) : 2 ≤ size := by
  rw [decode_eq] at hfound
  cases hheader : frameHeader data with
  | none =>
      rw [hheader] at hfound
      cases hfound
  | some header =>
      have hbounds := frameHeader_bounds hheader
      rw [hheader] at hfound
      simp only at hfound
      split at hfound
      · split at hfound <;> cases hfound
      · split at hfound
        · cases hfound
        · cases hfound
          unfold FrameHeader.size
          omega

end WebSocketFrame

/-- What `parse_inline_frame` makes of the header. -/
theorem parseInlineFrame_eq {data : List UInt8} {header : FrameHeader}
    (hheader : frameHeader data = some header) :
    parseInlineFrame data =
      InlineFrameInfo.withLengths
        { fin := header.fin, opcode := header.opcode, masked := header.masked,
          maskKey := header.key }
        header.headerLen header.payloadLen data.length := by
  match data with
  | [] => cases hheader
  | [_] => cases hheader
  | first :: second :: rest =>
      simp only [frameHeader] at hheader
      simp only [parseInlineFrame]
      split at hheader
      · rename_i hmask
        obtain ⟨hlong, hsome⟩ := Option.ite_none_left_eq_some.mp hheader
        obtain rfl := Option.some.inj hsome
        rw [if_neg hlong]
        simp only [hmask, ne_eq, not_true_eq_false, decide_false, Bool.not_false,
          if_true]
        rfl
      · rename_i hmask
        obtain ⟨hlong, hsome⟩ := Option.ite_none_left_eq_some.mp hheader
        obtain rfl := Option.some.inj hsome
        rw [if_neg (by omega)]
        simp only [hmask, ne_eq, not_false_eq_true, decide_true, Bool.not_true,
          Bool.false_eq_true, if_false]
        rw [if_neg (by rw [List.length_drop]; omega), Nat.add_right_comm 2]
        rfl

/-- Without the header the pointer stays null and the lengths stay 0. -/
theorem parseInlineFrame_none {data : List UInt8}
    (hheader : frameHeader data = none) :
    (parseInlineFrame data).payloadStart = none ∧
      (parseInlineFrame data).headerLen = 0 ∧
      (parseInlineFrame data).payloadLen = 0 ∧
      (parseInlineFrame data).totalConsumed = 0 := by
  match data with
  | [] => exact ⟨rfl, rfl, rfl, rfl⟩
  | [_] => exact ⟨rfl, rfl, rfl, rfl⟩
  | first :: second :: rest =>
      simp only [frameHeader] at hheader
      simp only [parseInlineFrame]
      split at hheader
      · rename_i hmask
        have hshort : rest.length <
            WebSocketFrame.lengthBytes (second &&& 0x7F).toNat := by
          by_contra hnot
          rw [if_neg hnot] at hheader
          cases hheader
        rw [if_pos hshort]
        exact ⟨rfl, rfl, rfl, rfl⟩
      · rename_i hmask
        have hshort : rest.length <
            WebSocketFrame.lengthBytes (second &&& 0x7F).toNat + 4 := by
          by_contra hnot
          rw [if_neg hnot] at hheader
          cases hheader
        split
        · exact ⟨rfl, rfl, rfl, rfl⟩
        · simp only [hmask, ne_eq, not_false_eq_true, decide_true, Bool.not_true,
            Bool.false_eq_true, if_false]
          rw [if_pos (by rw [List.length_drop]; omega)]
          exact ⟨rfl, rfl, rfl, rfl⟩

end UltraNet
