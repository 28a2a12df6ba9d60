/-
WebSocket frames on the wire: the decoder of `websocket.hpp` and the format
that a peer writes.
-/
import UltraNet.Codec
import UltraNet.Serialization

namespace UltraNet

inductive OpCode where
  | continuation
  | text
  | binary
  | close
  | ping
  | pong
  -- a value outside the enumeration
  | other (code : Nat)
deriving DecidableEq

def OpCode.ofNat : Nat → OpCode
  | 0 => .continuation
  | 1 => .text
  | 2 => .binary
  | 8 => .close
  | 9 => .ping
  | 10 => .pong
  | code => .other code

def OpCode.toNat : OpCode → Nat
  | .continuation => 0
  | .text => 1
  | .binary => 2
  | .close => 8
  | .ping => 9
  | .pong => 10
  | .other code => code

structure WebSocketFrame where
  fin : Bool
  opcode : OpCode
  mask : Bool
  maskingKey : UInt32
  payload : List UInt8
deriving DecidableEq

def IsDataFrame (frame : WebSocketFrame) : Prop :=
  frame.opcode = .text ∨ frame.opcode = .binary ∨ frame.opcode = .continuation

instance : DecidablePred IsDataFrame := fun frame =>
  inferInstanceAs (Decidable (frame.opcode = .text ∨ _))

/-- What `decode` finds at the front of a buffer: `more` is a return of false
with `consumed` 0.  The string of a frame
whose end is beyond `2^64` cannot be built: `assign` throws. -/
inductive Decoded where
  | more
  | frame (frame : WebSocketFrame) (consumed : Nat)
  | tooLong

def Decoded.isTooLong : Decoded → Bool
  | .tooLong => true
  | _ => false

namespace WebSocketFrame

/-- Byte `i` of the payload is combined with this one. -/
def maskByte (key : UInt32) (i : Nat) : UInt8 :=
  UInt8.ofNat (key.toNat >>> (8 * (3 - i % 4)))

def applyMask (key : UInt32) (payload : List UInt8) : List UInt8 :=
  payload.mapIdx fun i byte => byte ^^^ maskByte key i

/-- How many bytes follow the second one for the length. -/
def lengthBytes (short : Nat) : Nat :=
  if short = 126 then 2 else if short = 127 then 8 else 0

/-- The payload, once the header has been read: `pos` bytes of the buffer come
before `rest`. -/
def decodePayload (header : WebSocketFrame) (plen pos : Nat)
    (rest : List UInt8) : Decoded :=
  if 2 ^ 64 ≤ pos + plen then
    -- `pos + plen` wraps in the check of the length
    if pos + rest.length < pos + plen - 2 ^ 64 then .more else .tooLong
  else if rest.length < plen then .more
  else
    let payload := rest.take plen
    .frame
      { header with payload :=
          if header.mask then applyMask header.maskingKey payload else payload }
      (pos + plen)

/-- The masking key, once the length has been read. -/
def decodeKey (first second : UInt8) (plen pos : Nat) (rest : List UInt8) :
    Decoded :=
  let fin : Bool := first &&& 0x80 ≠ 0
  let opcode := OpCode.ofNat (first &&& 0x0F).toNat
  if second &&& 0x80 = 0 then
    decodePayload ⟨fin, opcode, false, 0, []⟩ plen pos rest
  else if rest.length < 4 then .more
  else
    decodePayload ⟨fin, opcode, true, UInt32.ofNat (beNat (rest.take 4)), []⟩
      plen (pos + 4) (rest.drop 4)

def decode (data : List UInt8) : Decoded :=
  match data with
  | first :: second :: rest =>
      let short := (second &&& 0x7F).toNat
      let extended := lengthBytes short
      if rest.length < extended then .more
      else
        decodeKey first second
          (if extended = 0 then short else beNat (rest.take extended))
          (2 + extended) (rest.drop extended)
  | _ => .more

/-- The frame as its sender writes it. -/
def wire (frame : WebSocketFrame) : List UInt8 :=
  let len := frame.payload.length
  let top : Nat := if frame.mask then 0x80 else 0
  let first := UInt8.ofNat ((if frame.fin then 0x80 else 0) + frame.opcode.toNat)
  let length :=
    if len < 126 then [UInt8.ofNat (top + len)]
    else if len ≤ 65535 then UInt8.ofNat (top + 126) :: beBytes 2 len
    else UInt8.ofNat (top + 127) :: beBytes 8 len
  first :: length ++
    if frame.mask then
      beBytes 4 frame.maskingKey.toNat ++ applyMask frame.maskingKey frame.payload
    else frame.payload

/-- A frame that can be sent: a defined opcode and a length of 63 bits. -/
structure Legal (frame : WebSocketFrame) : Prop where
  opcode : ∀ code, frame.opcode ≠ .other code
  length : frame.payload.length < 2 ^ 63
  key : frame.mask = false → frame.maskingKey = 0

/-- The size of a frame that the server writes. -/
def encodedSize (payload : Nat) : Nat :=
  2 + payload +
    if payload < 126 then 0 else if payload ≤ 65535 then 2 else 8

/-- The length in the second byte. -/
def shortLength (len : Nat) : Nat :=
  if len < 126 then len else if len ≤ 65535 then 126 else 127

theorem shortLength_lt (len : Nat) : shortLength len < 128 := by
  unfold shortLength
  split
  · omega
  · split <;> omega

/-- The bytes that follow give the length back. -/
theorem length_eq {len : Nat} (hlen : len < 2 ^ 63) :
    (if lengthBytes (shortLength len) = 0 then shortLength len
      else beNat (beBytes (lengthBytes (shortLength len)) len)) = len := by
  unfold shortLength
  split
  · rename_i hshort
    have : lengthBytes len = 0 := by
      unfold lengthBytes
      rw [if_neg (by omega), if_neg (by omega)]
    rw [if_pos this]
  · split
    · exact (beNat_beBytes 2 len).trans (Nat.mod_eq_of_lt (by omega))
    · exact (beNat_beBytes 8 len).trans (Nat.mod_eq_of_lt (by omega))

/-- The header, the key and the payload of a frame on the wire. -/
theorem wire_eq (frame : WebSocketFrame) :
    frame.wire =
      UInt8.ofNat ((if frame.fin then 0x80 else 0) + frame.opcode.toNat) ::
        UInt8.ofNat ((if frame.mask then 0x80 else 0) +
          shortLength frame.payload.length) ::
        (beBytes (lengthBytes (shortLength frame.payload.length))
            frame.payload.length ++
          ((if frame.mask then beBytes 4 frame.maskingKey.toNat else []) ++
            if frame.mask then applyMask frame.maskingKey frame.payload
            else frame.payload)) := by
  have hlength : ∀ top : Nat,
      (if frame.payload.length < 126 then
          [UInt8.ofNat (top + frame.payload.length)]
        else if frame.payload.length ≤ 65535 then
          UInt8.ofNat (top + 126) :: beBytes 2 frame.payload.length
        else UInt8.ofNat (top + 127) :: beBytes 8 frame.payload.length) =
      UInt8.ofNat (top + shortLength frame.payload.length) ::
        beBytes (lengthBytes (shortLength frame.payload.length))
          frame.payload.length := by
    intro top
    unfold shortLength
    split
    · have : lengthBytes frame.payload.length = 0 := by
        unfold lengthBytes
        rw [if_neg (by omega), if_neg (by omega)]
      rw [this]
      rfl
    · split <;> rfl
  unfold wire
  simp only [hlength]
  cases frame.mask <;> simp

theorem length_applyMask (key : UInt32) (payload : List UInt8) :
    (applyMask key payload).length = payload.length := by
  simp [applyMask]

/-- Masking twice gives the payload back. -/
theorem applyMask_applyMask (key : UInt32) (payload : List UInt8) :
    applyMask key (applyMask key payload) = payload := by
  apply List.ext_getElem?
  intro i
  simp only [applyMask, List.getElem?_mapIdx, Option.map_map]
  cases payload[i]? with
  | none => rfl
  | some byte =>
      have htwice : byte ^^^ maskByte key i ^^^ maskByte key i = byte := by
        rw [UInt8.xor_assoc, UInt8.xor_self, UInt8.xor_zero]
      exact congrArg some htwice

theorem second_short : ∀ (mask : Bool) (short : Fin 128),
    (UInt8.ofNat ((if mask then 0x80 else 0) + short) &&& 0x7F).toNat = short ∧
      (UInt8.ofNat ((if mask then 0x80 else 0) + short) &&& 0x80 = 0 ↔
        mask = false) := by
  decide

theorem first_byte (fin : Bool) {opcode : OpCode}
    (hopcode : ∀ code, opcode ≠ .other code) :
    decide (UInt8.ofNat ((if fin then 0x80 else 0) + opcode.toNat) &&& 0x80 ≠ 0) =
        fin ∧
      OpCode.ofNat (UInt8.ofNat ((if fin then 0x80 else 0) + opcode.toNat) &&&
        0x0F).toNat = opcode := by
  cases opcode with
  | other code => exact absurd rfl (hopcode code)
  | _ => cases fin <;> decide

theorem lengthBytes_le (short : Nat) : lengthBytes short ≤ 8 := by
  unfold lengthBytes
  split
  · omega
  · split <;> omega

/-- A whole frame is found, whatever follows it. -/
theorem decode_wire {frame : WebSocketFrame} (hlegal : frame.Legal)
    (rest : List UInt8) :
    decode (frame.wire ++ rest) = .frame frame frame.wire.length := by
  obtain ⟨hshort, hmask⟩ :=
    second_short frame.mask ⟨_, shortLength_lt frame.payload.length⟩
  obtain ⟨hfin, hopcode⟩ := first_byte frame.fin hlegal.opcode
  have hlen := hlegal.length
  have hbytes := lengthBytes_le (shortLength frame.payload.length)
  simp only at hshort hmask
  rw [wire_eq]
  simp only [List.cons_append, List.append_assoc, decode, hshort]
  rw [if_neg (by simp only [List.length_append, length_beBytes]; omega),
    List.take_left' (length_beBytes _ _), List.drop_left' (length_beBytes _ _),
    length_eq hlen]
  unfold decodeKey
  simp only [hmask, hfin, hopcode]
  obtain ⟨fin, opcode, mask, key, payload⟩ := frame
  cases mask with
  | true =>
      have hkey : UInt32.ofNat (beNat (beBytes 4 key.toNat)) = key := by
        rw [beNat_beBytes, Nat.mod_eq_of_lt (by have := key.toNat_lt; omega),
          UInt32.ofNat_toNat]
      simp only at hlen hbytes
      simp only [if_true, Bool.true_eq_false, if_false]
      rw [if_neg (by simp), List.take_left' (length_beBytes _ _),
        List.drop_left' (length_beBytes _ _), hkey, decodePayload,
        if_neg (by omega), if_neg (by simp [length_applyMask])]
      simp only [if_true, List.take_left' (length_applyMask _ _),
        applyMask_applyMask, List.length_cons, List.length_append,
        length_beBytes, length_applyMask]
      congr 1
      omega
  | false =>
      obtain rfl : key = 0 := hlegal.key rfl
      simp only at hlen hbytes
      simp only [if_true, Bool.false_eq_true, if_false, List.nil_append]
      rw [decodePayload, if_neg (by omega), if_neg (by simp)]
      simp only [Bool.false_eq_true, if_false, List.take_left' rfl,
        List.length_cons, List.length_append, length_beBytes]
      congr 1
      omega

theorem decodePayload_append {header : WebSocketFrame} {plen pos : Nat}
    {rest : List UInt8} (more : List UInt8)
    (hfound : decodePayload header plen pos rest ≠ .more) :
    decodePayload header plen pos (rest ++ more) =
      decodePayload header plen pos rest := by
  unfold decodePayload at hfound ⊢
  by_cases hlarge : 2 ^ 64 ≤ pos + plen
  · simp only [if_pos hlarge] at hfound ⊢
    by_cases hshort : pos + rest.length < pos + plen - 2 ^ 64
    · exact absurd (if_pos hshort) hfound
    · rw [if_neg hshort, if_neg (by rw [List.length_append]; omega)]
  · simp only [if_neg hlarge] at hfound ⊢
    by_cases hshort : rest.length < plen
    · exact absurd (if_pos hshort) hfound
    · rw [if_neg hshort, if_neg (by rw [List.length_append]; omega),
        List.take_append_of_le_length (by omega)]

theorem decodeKey_append {first second : UInt8} {plen pos : Nat}
    {rest : List UInt8} (more : List UInt8)
    (hfound : decodeKey first second plen pos rest ≠ .more) :
    decodeKey first second plen pos (rest ++ more) =
      decodeKey first second plen pos rest := by
  unfold decodeKey at hfound ⊢
  by_cases hmask : second &&& 0x80 = 0
  · simp only [if_pos hmask] at hfound ⊢
    exact decodePayload_append more hfound
  · simp only [if_neg hmask] at hfound ⊢
    by_cases hshort : rest.length < 4
    · exact absurd (if_pos hshort) hfound
    · rw [if_neg hshort] at hfound
      rw [if_neg hshort, if_neg (by rw [List.length_append]; omega),
        List.take_append_of_le_length (by omega),
        List.drop_append_of_le_length (by omega)]
      exact decodePayload_append more hfound

/-- What is found is found in a longer buffer too. -/
theorem decode_append {data : List UInt8} (more : List UInt8)
    (hfound : decode data ≠ .more) : decode (data ++ more) = decode data := by
  match data with
  | [] => exact absurd rfl hfound
  | [_] => exact absurd rfl hfound
  | first :: second :: rest =>
      simp only [List.cons_append, decode] at hfound ⊢
      by_cases hshort : rest.length < lengthBytes (second &&& 0x7F).toNat
      · exact absurd (if_pos hshort) hfound
      · rw [if_neg hshort] at hfound
        rw [if_neg hshort, if_neg (by rw [List.length_append]; omega),
          List.take_append_of_le_length (by omega),
          List.drop_append_of_le_length (by omega)]
        exact decodeKey_append more hfound

theorem decodePayload_size {header frame : WebSocketFrame} {plen pos size : Nat}
    {rest : List UInt8}
    (hfound : decodePayload header plen pos rest = .frame frame size) :
    pos + frame.payload.length = size ∧ size ≤ pos + rest.length := by
  unfold decodePayload at hfound
  split at hfound
  · split at hfound <;> cases hfound
  · split at hfound
    · cases hfound
    · rename_i hplen
      cases hfound
      have hlength : (rest.take plen).length = plen :=
        List.length_take_of_le (Nat.not_lt.mp hplen)
      dsimp only
      split
      · rw [length_applyMask, hlength]
        omega
      · rw [hlength]
        omega

/-- A frame has two bytes before its payload, and is no longer than the buffer. -/
theorem decode_size {data : List UInt8} {frame : WebSocketFrame} {size : Nat}
    (hfound : decode data = .frame frame size) :
    frame.payload.length + 2 ≤ size ∧ size ≤ data.length := by
  match data with
  | [] => cases hfound
  | [_] => cases hfound
  | first :: second :: rest =>
      simp only [decode] at hfound
      split at hfound
      · cases hfound
      · rename_i hextended
        unfold decodeKey at hfound
        simp only at hfound
        rw [List.length_cons, List.length_cons]
        split at hfound
        · have := decodePayload_size hfound
          rw [List.length_drop] at this
          omega
        · split at hfound
          · cases hfound
          · rename_i hkey
            have := decodePayload_size hfound
            simp only [List.length_drop] at this hkey
            omega

/-- The frame at the front of a buffer, if it is all there. -/
def decodeFrame (data : List UInt8) : Option (WebSocketFrame × Nat) :=
  match decode data with
  | .frame frame size => some (frame, size)
  | _ => none

theorem decodeFrame_eq_some {data : List UInt8} {frame : WebSocketFrame}
    {size : Nat} :
    decodeFrame data = some (frame, size) ↔ decode data = .frame frame size := by
  unfold decodeFrame
  cases decode data <;> simp

theorem frameCodec : Codec Legal wire decodeFrame := by
  refine Codec.of_stable ?_ ?_ ?_ ?_
  · intro frame _ hempty
    rw [wire_eq] at hempty
    cases hempty
  · intro frame rest hlegal
    rw [decodeFrame_eq_some]
    exact decode_wire hlegal rest
  · intro data frame size more hfound
    rw [decodeFrame_eq_some] at hfound ⊢
    rw [decode_append more (by rw [hfound]; nofun), hfound]
  · intro data frame size hfound
    exact (decode_size (decodeFrame_eq_some.mp hfound)).2

/-- No part of a stream of legal frames is too long. -/
theorem decode_ne_tooLong {frames : List WebSocketFrame}
    (hlegal : ∀ frame ∈ frames, frame.Legal) {data more : List UInt8}
    (hstream : data ++ more = frames.flatMap wire) :
    decode data ≠ .tooLong := by
  intro hlong
  have hall := decode_append more (by rw [hlong]; nofun)
  rw [hlong, hstream] at hall
  cases frames with
  | nil => cases hall
  | cons frame frames =>
      rw [List.flatMap_cons, decode_wire (hlegal frame List.mem_cons_self)] at hall
      cases hall

end WebSocketFrame

end UltraNet
