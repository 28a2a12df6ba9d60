/-
`encode` of a WebSocket frame, and that `decode` is its inverse.
-/
import UltraNet.FrameHeader

namespace UltraNet

namespace WebSocketFrame

/-- `encoded_size`. -/
def maskedSize (payloadLen : Nat) (applyMask : Bool) : Nat :=
  2 + payloadLen +
    (if 126 ≤ payloadLen ∧ payloadLen ≤ 65535 then 2
      else if 65535 < payloadLen then 8 else 0) +
    if applyMask then 4 else 0

/-- The second byte and the extended length, as every encoder writes them. -/
def lengthField (len : Nat) (masked : Bool) : List UInt8 :=
  let top : UInt8 := if masked then 0x80 else 0
  if len < 126 then [top ||| UInt8.ofNat len]
  else if len ≤ 65535 then
    [top ||| 126, UInt8.ofNat (len >>> 8), UInt8.ofNat (len &&& 0xFF)]
  else
    (top ||| 127) :: [7, 6, 5, 4, 3, 2, 1, 0].map fun i =>
      UInt8.ofNat (len >>> (i * 8))

/-- The masking key, its highest byte first. -/
def keyField (key : UInt32) : List UInt8 :=
  [24, 16, 8, 0].map fun shift => UInt8.ofNat (key.toNat >>> shift)

/-- The key that is used: a key of 0 is replaced by a random one. -/
def effectiveKey (frame : WebSocketFrame) (random : UInt32) : UInt32 :=
  if frame.maskingKey = 0 then random else frame.maskingKey

/-- `encode_into` a buffer of `cap` bytes; nothing is written when they are too
few.  `random` is what the random device yields. -/
def encodeInto (frame : WebSocketFrame) (cap : Nat) (applyMask : Bool)
    (random : UInt32) : List UInt8 :=
  if cap < maskedSize frame.payload.length applyMask then []
  else
    let key := frame.effectiveKey random
    UInt8.ofNat ((if frame.fin then 0x80 else 0) ||| frame.opcode.toNat) ::
      (lengthField frame.payload.length applyMask ++
        if applyMask then keyField key ++ WebSocketFrame.applyMask key frame.payload
        else frame.payload)

/-- `encode`: the bytes behind those that `encode_into` writes stay 0. -/
def encode (frame : WebSocketFrame) (applyMask : Bool) (random : UInt32) :
    List UInt8 :=
  let size := maskedSize frame.payload.length applyMask
  let written := frame.encodeInto size applyMask random
  written ++ List.replicate (size - written.length) 0

theorem top_or : ∀ (masked : Bool) (short : Fin 128),
    (if masked then 0x80 else 0 : UInt8) ||| UInt8.ofNat short =
      UInt8.ofNat ((if masked then 0x80 else 0) + short) := by
  decide

theorem ofNat_low (len : Nat) : UInt8.ofNat (len &&& 0xFF) = UInt8.ofNat len := by
  have hlow : len &&& 0xFF = len % 256 := Nat.and_two_pow_sub_one_eq_mod len 8
  apply UInt8.toNat_inj.mp
  rw [hlow, UInt8.toNat_ofNat', UInt8.toNat_ofNat']
  omega

theorem lengthField_eq (len : Nat) (masked : Bool) :
    lengthField len masked =
      UInt8.ofNat ((if masked then 0x80 else 0) + shortLength len) ::
        beBytes (lengthBytes (shortLength len)) len := by
  have htop := fun short hshort => top_or masked ⟨short, hshort⟩
  simp only at htop
  unfold lengthField shortLength
  by_cases hshort : len < 126
  · have hbytes : lengthBytes len = 0 := by
      unfold lengthBytes
      rw [if_neg (by omega), if_neg (by omega)]
    simp only [if_pos hshort, hbytes]
    rw [htop len (by omega)]
    rfl
  · by_cases hmiddle : len ≤ 65535
    · simp only [if_neg hshort, if_pos hmiddle]
      rw [ofNat_low, ← htop 126 (by decide)]
      simp [lengthBytes, beBytes, leBytes, Nat.shiftRight_eq_div_pow]
    · simp only [if_neg hshort, if_neg hmiddle]
      rw [← htop 127 (by decide)]
      simp [lengthBytes, beBytes, leBytes, Nat.shiftRight_eq_div_pow,
        Nat.div_div_eq_div_mul]

theorem keyField_eq (key : UInt32) : keyField key = beBytes 4 key.toNat := by
  simp [keyField, beBytes, leBytes, Nat.shiftRight_eq_div_pow,
    Nat.div_div_eq_div_mul]

theorem maskedSize_eq (len : Nat) (masked : Bool) :
    maskedSize len masked =
      2 + lengthBytes (shortLength len) + (if masked then 4 else 0) + len := by
  have hbytes : lengthBytes (shortLength len) =
      if 126 ≤ len ∧ len ≤ 65535 then 2 else if 65535 < len then 8 else 0 := by
    unfold shortLength lengthBytes
    split_ifs <;> omega
  rw [maskedSize, hbytes]
  omega

/-- The frame that is sent: with a key exactly if it is masked. -/
def sent (frame : WebSocketFrame) (masked : Bool) (key : UInt32) :
    WebSocketFrame :=
  { frame with mask := masked, maskingKey := if masked then key else 0 }

theorem sent_legal {frame : WebSocketFrame}
    (hopcode : ∀ code, frame.opcode ≠ .other code)
    (hlength : frame.payload.length < 2 ^ 63) (masked : Bool) (key : UInt32) :
    (frame.sent masked key).Legal where
  opcode := hopcode
  length := hlength
  key hmask := by
    obtain rfl : masked = false := hmask
    rfl

theorem length_wire (frame : WebSocketFrame) :
    frame.wire.length = maskedSize frame.payload.length frame.mask := by
  rw [wire_eq, maskedSize_eq]
  simp only [List.length_cons, List.length_append, length_beBytes]
  cases frame.mask with
  | true => simp only [if_true, length_beBytes, length_applyMask]; omega
  | false => simp only [Bool.false_eq_true, if_false, List.length_nil]; omega

theorem first_or (fin : Bool) {opcode : OpCode}
    (hopcode : ∀ code, opcode ≠ .other code) :
    UInt8.ofNat ((if fin then 0x80 else 0) ||| opcode.toNat) =
      UInt8.ofNat ((if fin then 0x80 else 0) + opcode.toNat) := by
  cases opcode with
  | other code => exact absurd rfl (hopcode code)
  | _ => cases fin <;> decide

theorem encode_eq_wire (frame : WebSocketFrame)
    (hopcode : ∀ code, frame.opcode ≠ .other code) (applyMask : Bool)
    (random : UInt32) :
    frame.encode applyMask random =
      (frame.sent applyMask (frame.effectiveKey random)).wire := by
  have hwritten :
      frame.encodeInto (maskedSize frame.payload.length applyMask) applyMask
        random = (frame.sent applyMask (frame.effectiveKey random)).wire := by
    rw [encodeInto, if_neg (Nat.lt_irrefl _), wire_eq, lengthField_eq,
      first_or _ hopcode]
    cases applyMask <;> simp [sent, keyField_eq]
  have hlength := length_wire (frame.sent applyMask (frame.effectiveKey random))
  rw [encode, hwritten, hlength]
  simp [sent]

/-- What `encode` writes is decoded again, whatever follows; a strict part of
it is too short. -/
theorem encode_roundTrip (frame : WebSocketFrame)
    (hopcode : ∀ code, frame.opcode ≠ .other code)
    (hlength : frame.payload.length < 2 ^ 63) (applyMask : Bool)
    (random : UInt32) :
    (∀ rest, ∃ found,
      decode (frame.encode applyMask random ++ rest) =
          .frame found (maskedSize frame.payload.length applyMask) ∧
        found.fin = frame.fin ∧ found.opcode = frame.opcode ∧
        found.payload = frame.payload ∧ found.mask = applyMask) ∧
      ∀ part more, part ++ more = frame.encode applyMask random → more ≠ [] →
        decode part = .more := by
  have hlegal := sent_legal hopcode hlength applyMask (frame.effectiveKey random)
  rw [encode_eq_wire frame hopcode]
  constructor
  · intro rest
    have hfound := decode_wire hlegal rest
    rw [length_wire] at hfound
    exact ⟨frame.sent applyMask (frame.effectiveKey random), hfound, rfl, rfl, rfl,
      rfl⟩
  · intro part more hsplit hmore
    have hnone := frameCodec.part hlegal hsplit hmore
    have hstream : part ++ more =
        [frame.sent applyMask (frame.effectiveKey random)].flatMap wire := by
      rw [hsplit]
      exact (List.append_nil _).symm
    have hlong := decode_ne_tooLong (List.forall_mem_singleton.mpr hlegal) hstream
    unfold decodeFrame at hnone
    split at hnone
    · cases hnone
    · rename_i hframe
      cases hpart : decode part with
      | more => rfl
      | frame found size => exact absurd hpart (hframe found size)
      | tooLong => exact absurd hpart hlong

/-- The key is drawn, since that of the frame is 0. -/
def hello : WebSocketFrame := ⟨true, .text, false, 0, [0x68, 0x69]⟩

theorem encode_roundTrip_hello :
    (∃ found, decode (hello.encode true 7 ++ [0x81]) = .frame found 8 ∧
      found.opcode = .text ∧ found.payload = [0x68, 0x69] ∧ found.mask = true) ∧
      decode [0x81, 0x82, 0, 0, 0] = .more := by
  have hopcode : ∀ code, hello.opcode ≠ .other code := by
    rintro code ⟨⟩
  obtain ⟨hwhole, hpart⟩ := encode_roundTrip hello hopcode (by decide) true 7
  constructor
  · obtain ⟨found, hfound, -, hop, hpayload, hmask⟩ := hwhole [0x81]
    exact ⟨found, hfound, hop, hpayload, hmask⟩
  · exact hpart [0x81, 0x82, 0, 0, 0] [7, 0x68, 0x69] (by decide) (by decide)

end WebSocketFrame

end UltraNet
