/-
`decode` and `parse_inline_frame` on the same buffer: where they agree, and
which declared lengths lead the second one out of the buffer.
-/
import UltraNet.FrameHeader

namespace UltraNet

open WebSocketFrame

/-- Both find a frame at the front of the buffer. -/
def BothSucceed (data : List UInt8) : Prop :=
  (∃ frame size, decode data = .frame frame size) ∧
    (parseInlineFrame data).payloadStart.isSome

/-- The payload at `payload_ptr`, unmasked with `mask_key`. -/
def InlineFrameInfo.unmasked (info : InlineFrameInfo) (data : List UInt8) :
    List UInt8 :=
  applyMask info.maskKey
    ((data.drop (info.payloadStart.getD 0)).take info.payloadLen)

structure ParsersAgree (data : List UInt8) : Prop where
  found : (parseInlineFrame data).payloadStart.isSome ↔
    ∃ frame size, decode data = .frame frame size
  same : ∀ frame size, decode data = .frame frame size →
    (parseInlineFrame data).fin = frame.fin ∧
      (parseInlineFrame data).opcode = frame.opcode ∧
      (parseInlineFrame data).masked = frame.mask ∧
      (parseInlineFrame data).maskKey = frame.maskingKey ∧
      (parseInlineFrame data).totalConsumed = size ∧
      (parseInlineFrame data).unmasked data = frame.payload
  needed : (frameHeader data).isSome → ¬ BothSucceed data →
    ∀ more, BothSucceed (data ++ more) ↔
      (parseInlineFrame data).totalConsumed ≤ (data ++ more).length

theorem maskByte_zero (i : Nat) : maskByte 0 i = 0 := by
  simp [maskByte]

/-- The key 0 changes nothing. -/
theorem applyMask_zero (payload : List UInt8) : applyMask 0 payload = payload := by
  apply List.ext_getElem?
  intro i
  simp [applyMask, maskByte_zero]

section

variable {data : List UInt8} {header : FrameHeader}

/-- An unmasked frame has the key 0. -/
theorem frameHeader_key (hheader : frameHeader data = some header)
    (hmasked : header.masked = false) : header.key = 0 := by
  match data with
  | [] => cases hheader
  | [_] => cases hheader
  | first :: second :: rest =>
      simp only [frameHeader] at hheader
      split at hheader
      all_goals
        obtain ⟨-, hsome⟩ := Option.ite_none_left_eq_some.mp hheader
        obtain rfl := Option.some.inj hsome
      · rfl
      · cases hmasked

theorem payload_eq_applyMask (hheader : frameHeader data = some header) :
    header.payload data =
      applyMask header.key ((data.drop header.headerLen).take
        header.payloadLen) := by
  unfold FrameHeader.payload
  cases hmasked : header.masked with
  | true => rw [if_pos rfl]
  | false => rw [if_neg (by simp), frameHeader_key hheader hmasked, applyMask_zero]

variable (hheader : frameHeader data = some header) (hsmall : header.size < 2 ^ 64)

include hheader hsmall

theorem decode_of_header :
    decode data =
      if data.length < header.size then .more
      else .frame (header.frame data) header.size := by
  rw [decode_eq, hheader]
  simp only [if_neg (Nat.not_le.mpr hsmall)]

theorem parse_of_header :
    parseInlineFrame data =
      { fin := header.fin, opcode := header.opcode, masked := header.masked,
        maskKey := header.key, headerLen := header.headerLen,
        payloadLen := header.payloadLen, totalConsumed := header.size,
        payloadStart :=
          if data.length < header.size then none else some header.headerLen } := by
  have hmod : (header.headerLen + header.payloadLen) % 2 ^ 64 = header.size :=
    Nat.mod_eq_of_lt hsmall
  rw [parseInlineFrame_eq hheader]
  simp only [InlineFrameInfo.withLengths, hmod]

theorem bothSucceed_iff : BothSucceed data ↔ header.size ≤ data.length := by
  rw [BothSucceed, decode_of_header hheader hsmall, parse_of_header hheader hsmall]
  by_cases hshort : data.length < header.size
  · simp [hshort]
  · simpa [hshort] using Nat.le_of_not_lt hshort

end

/-- The two parsers agree on every buffer whose frame ends below `2^64`. -/
theorem parsers_agree (data : List UInt8)
    (hsmall : ∀ header, frameHeader data = some header →
      header.headerLen + header.payloadLen ≤ 2 ^ 64 - 1) :
    ParsersAgree data := by
  cases hheader : frameHeader data with
  | none =>
      have hdecode : decode data = .more := by
        rw [decode_eq, hheader]
      have hparse := parseInlineFrame_none hheader
      constructor
      case found => simp [hdecode, hparse.1]
      case same =>
        intro frame size hframe
        rw [hdecode] at hframe
        cases hframe
      case needed =>
        intro hsome
        rw [hheader] at hsome
        cases hsome
  | some header =>
      have hsize : header.size < 2 ^ 64 := by
        have := hsmall header hheader
        unfold FrameHeader.size
        omega
      have hdecode := decode_of_header hheader hsize
      have hparse := parse_of_header hheader hsize
      constructor
      case found =>
        rw [hdecode, hparse]
        by_cases hshort : data.length < header.size <;> simp [hshort]
      case same =>
        intro frame size hframe
        rw [hdecode] at hframe
        by_cases hshort : data.length < header.size
        · rw [if_pos hshort] at hframe
          cases hframe
        · rw [if_neg hshort] at hframe
          cases hframe
          rw [hparse]
          refine ⟨rfl, rfl, rfl, rfl, rfl, ?_⟩
          rw [InlineFrameInfo.unmasked, if_neg hshort]
          exact (payload_eq_applyMask hheader).symm
      case needed =>
        intro _ _ more
        rw [bothSucceed_iff (frameHeader_append hheader more) hsize, hparse]

/-- A masked text frame of three bytes, the last of which is still to come. -/
def cutText : List UInt8 := [0x81, 0x83, 1, 2, 3, 4, 0x69, 0x6B]

theorem parsers_agree_cutText : ParsersAgree cutText := by
  refine parsers_agree cutText ?_
  intro header hheader
  obtain rfl := Option.some.inj hheader
  decide

/-- What `decode` copies and what `parse_inline_frame` points to has been
received. -/
structure InsideBuffer (data : List UInt8) : Prop where
  copied : ∀ frame size, decode data = .frame frame size →
    ∃ header, frameHeader data = some header ∧
      frame.payload.length = header.payloadLen ∧
      header.headerLen + header.payloadLen ≤ data.length
  pointed : ∀ start, (parseInlineFrame data).payloadStart = some start →
    start = (parseInlineFrame data).headerLen ∧
      (parseInlineFrame data).headerLen + (parseInlineFrame data).payloadLen ≤
        data.length

/-- A sum that wraps leads to a place in the buffer. -/
theorem size_lt_of_insideBuffer {data : List UInt8} (hinside : InsideBuffer data)
    (hlength : data.length < 2 ^ 64) {header : FrameHeader}
    (hheader : frameHeader data = some header) : header.size < 2 ^ 64 := by
  by_contra hlarge
  have hlarge : 2 ^ 64 ≤ header.size := Nat.le_of_not_lt hlarge
  have hwraps := frameHeader_wraps hheader hlarge
  have hbounds := frameHeader_bounds hheader
  -- the sum wraps to a place that has been received
  have hmod : (header.headerLen + header.payloadLen) % 2 ^ 64 =
      header.size - 2 ^ 64 := by
    unfold FrameHeader.size at hlarge hwraps ⊢
    omega
  have hparse := parseInlineFrame_eq hheader
  have hstart : (parseInlineFrame data).payloadStart = some header.headerLen := by
    rw [hparse]
    simp only [InlineFrameInfo.withLengths, hmod]
    rw [if_neg (by omega)]
  have hend := (hinside.pointed _ hstart).2
  rw [hparse] at hend
  simp only [InlineFrameInfo.withLengths] at hend
  unfold FrameHeader.size at hlarge
  omega

theorem insideBuffer_of_size_lt {data : List UInt8}
    (hsmall : ∀ header, frameHeader data = some header → header.size < 2 ^ 64) :
    InsideBuffer data := by
  cases hheader : frameHeader data with
  | none =>
      have hparse := parseInlineFrame_none hheader
      constructor
      case copied =>
        intro frame size hframe
        rw [decode_eq, hheader] at hframe
        cases hframe
      case pointed =>
        intro start hstart
        rw [hparse.1] at hstart
        cases hstart
  | some header =>
      have hsize : header.size < 2 ^ 64 := hsmall header hheader
      constructor
      case copied =>
        intro frame size hframe
        rw [decode_of_header hheader hsize] at hframe
        split at hframe
        · cases hframe
        · rename_i hlong
          cases hframe
          have hlong := Nat.le_of_not_lt hlong
          exact ⟨header, hheader, length_payload hlong, hlong⟩
      case pointed =>
        intro start hstart
        rw [parse_of_header hheader hsize] at hstart ⊢
        simp only at hstart
        split at hstart
        · cases hstart
        · rename_i hlong
          obtain rfl := Option.some.inj hstart
          exact ⟨rfl, Nat.le_of_not_lt hlong⟩

/-- Both stay inside the buffer exactly if the declared frame ends below
`2^64`. -/
theorem inside_buffer_iff (data : List UInt8) (hlength : data.length < 2 ^ 64) :
    InsideBuffer data ↔ ∀ header, frameHeader data = some header →
      header.headerLen + header.payloadLen < 2 ^ 64 := by
  constructor
  · intro hinside header hheader
    exact size_lt_of_insideBuffer hinside hlength hheader
  · exact insideBuffer_of_size_lt

theorem inside_buffer_iff_cutText : InsideBuffer cutText := by
  refine (inside_buffer_iff cutText (by decide)).mpr ?_
  intro header hheader
  obtain rfl := Option.some.inj hheader
  decide

/-- Ten bytes announce `2^64 - 1` more: the sum wraps to 9. -/
def endlessText : List UInt8 := 0x81 :: 0x7F :: List.replicate 8 0xFF

theorem endlessText_pointed :
    (parseInlineFrame endlessText).payloadStart = some 10 ∧
      (parseInlineFrame endlessText).payloadLen = 2 ^ 64 - 1 ∧
      ¬ InsideBuffer endlessText := by
  have hstart : (parseInlineFrame endlessText).payloadStart = some 10 := by decide
  have hlen : (parseInlineFrame endlessText).payloadLen = 2 ^ 64 - 1 := by decide
  refine ⟨hstart, hlen, fun hinside => ?_⟩
  have hend := (hinside.pointed 10 hstart).2
  rw [hlen] at hend
  have hlength : endlessText.length = 10 := by decide
  omega

end UltraNet
