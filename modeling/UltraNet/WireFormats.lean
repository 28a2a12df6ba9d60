/-
The other envelopes of the wire format, and how a reader goes through bytes
that were written by the matching primitives.
-/
import UltraNet.Serialization

namespace UltraNet

namespace Reader

/-- The payload length and the payload, the same in every envelope. -/
def readPayload (r : Reader) : Option (List UInt8) :=
  let (payloadLen, r) := r.readU32
  if payloadLen = 0 then none
  else if r.offset + payloadLen.toNat > r.data.length then none
  else some ((r.data.drop r.offset).take payloadLen.toNat)

/-- The URI, the hash and the payload. -/
def readTarget (r : Reader) : Option (List UInt8 × UInt64 × List UInt8) :=
  let (uri, r) := r.readString
  let (hash, r) := r.readU64
  r.readPayload.map fun payload => (uri, hash, payload)

end Reader

def actorMessageType : UInt8 := 0x02

def actorLocationType : UInt8 := 0x03

def replyType : UInt8 := 0x05

/-- The fields of a 0x02 message. -/
structure ActorMessage where
  uri : ActorUri
  msgType : UInt64
  payload : List UInt8
deriving DecidableEq

/-- Type 0x02: a message for an actor. -/
def packActorMessage (m : ActorMessage) : List UInt8 :=
  actorMessageType :: writeString m.uri.toBytes ++ writeU64 m.msgType ++
    writeU32 (UInt32.ofNat m.payload.length) ++ m.payload

def unpackActorMessage (data : List UInt8) : Option ActorMessage :=
  let (type, r) := Reader.readU8 ⟨data, 0⟩
  if type ≠ actorMessageType then none
  else
    r.readTarget.map fun (uri, msgType, payload) =>
      ⟨parseUriFromWire uri, msgType, payload⟩

/-- Type 0x03: where an actor is, for so many more hops. -/
def packActorLocation (uri : ActorUri) (ttl : UInt32) : List UInt8 :=
  actorLocationType :: writeString uri.toBytes ++ writeU32 ttl

def unpackActorLocation (data : List UInt8) : Option (ActorUri × UInt32) :=
  let (type, r) := Reader.readU8 ⟨data, 0⟩
  if type ≠ actorLocationType then none
  else
    let (uri, r) := r.readString
    some (parseUriFromWire uri, r.readU32.1)

/-- Type 0x05: the answer to an ask. -/
def packReply (msgId : UInt64) (payload : List UInt8) : List UInt8 :=
  replyType :: writeU64 msgId ++ writeU32 (UInt32.ofNat payload.length) ++ payload

def unpackReply (data : List UInt8) : Option (UInt64 × List UInt8) :=
  let (type, r) := Reader.readU8 ⟨data, 0⟩
  if type ≠ replyType then none
  else
    let (msgId, r) := r.readU64
    r.readPayload.map fun payload => (msgId, payload)

/-- The four bytes of a length field. -/
def sizeField (bytes : List UInt8) : Nat := beNat (bytes.take 4)

theorem beNat_writeU32 (value : UInt32) : beNat (writeU32 value) = value.toNat := by
  have hvalue : value.toNat < 256 ^ 4 := value.toNat_lt
  rw [writeU32, beNat_beBytes, Nat.mod_eq_of_lt hvalue]

@[simp] theorem length_writeU32 (value : UInt32) : (writeU32 value).length = 4 :=
  length_beBytes 4 _

@[simp] theorem length_writeU64 (value : UInt64) : (writeU64 value).length = 8 :=
  length_beBytes 8 _

/-- Lengths below 4 GiB survive the narrowing to 32 bits. -/
theorem toNat_ofNat_length {bytes : List UInt8} (hbytes : bytes.length < 2 ^ 32) :
    (UInt32.ofNat bytes.length).toNat = bytes.length := by
  rw [UInt32.toNat_ofNat']
  exact Nat.mod_eq_of_lt hbytes

/-- Every string of bytes is the one of its value. -/
theorem beBytes_beNat (bytes : List UInt8) :
    beBytes bytes.length (beNat bytes) = bytes := by
  have hbytes := leBytes_leNat bytes.reverse
  rw [List.length_reverse] at hbytes
  rw [beBytes, beNat, hbytes, List.reverse_reverse]

/-- Enough bytes start with those of a number. -/
theorem exists_beBytes {bytes : List UInt8} {width : Nat}
    (hwidth : width ≤ bytes.length) :
    ∃ value rest, value < 256 ^ width ∧ bytes = beBytes width value ++ rest := by
  have htake : (bytes.take width).length = width := List.length_take_of_le hwidth
  refine ⟨beNat (bytes.take width), bytes.drop width, ?_, ?_⟩
  · have hlt := leNat_lt (bytes.take width).reverse
    rwa [List.length_reverse, htake] at hlt
  · have hwrite := beBytes_beNat (bytes.take width)
    rw [htake] at hwrite
    rw [hwrite, List.take_append_drop]

theorem exists_writeU32 {bytes : List UInt8} (hbytes : 4 ≤ bytes.length) :
    ∃ value rest, bytes = writeU32 value ++ rest := by
  obtain ⟨value, rest, hvalue, hsplit⟩ := exists_beBytes hbytes
  refine ⟨UInt32.ofNat value, rest, ?_⟩
  have hnat : (UInt32.ofNat value).toNat = value := by
    rw [UInt32.toNat_ofNat']
    exact Nat.mod_eq_of_lt hvalue
  rw [writeU32, hnat]
  exact hsplit

theorem exists_writeU64 {bytes : List UInt8} (hbytes : 8 ≤ bytes.length) :
    ∃ value rest, bytes = writeU64 value ++ rest := by
  obtain ⟨value, rest, hvalue, hsplit⟩ := exists_beBytes hbytes
  refine ⟨UInt64.ofNat value, rest, ?_⟩
  have hnat : (UInt64.ofNat value).toNat = value := by
    rw [UInt64.toNat_ofNat']
    exact Nat.mod_eq_of_lt hvalue
  rw [writeU64, hnat]
  exact hsplit

/-- A written length is read back. -/
theorem sizeField_writeU32 (value : UInt32) (rest : List UInt8) :
    sizeField (writeU32 value ++ rest) = value.toNat := by
  rw [sizeField, List.take_left' (length_writeU32 value), beNat_writeU32]

namespace Reader

@[simp] theorem readU8_data (r : Reader) : r.readU8.2.data = r.data := by
  rw [readU8]
  split <;> rfl

@[simp] theorem readU32_data (r : Reader) : r.readU32.2.data = r.data := by
  rw [readU32]
  split <;> rfl

@[simp] theorem readU64_data (r : Reader) : r.readU64.2.data = r.data := by
  rw [readU64]
  split <;> rfl

@[simp] theorem readString_data (r : Reader) : r.readString.2.data = r.data := by
  rw [readString]
  dsimp only
  split <;> exact readU32_data r

/-- The bytes that the reader has before it. -/
structure Left (r : Reader) (data left : List UInt8) : Prop where
  same : r.data = data
  inside : r.offset ≤ data.length
  ahead : data.drop r.offset = left

variable {r : Reader} {data left rest : List UInt8}

theorem left_start (data : List UInt8) : Left ⟨data, 0⟩ data data :=
  ⟨rfl, Nat.zero_le _, rfl⟩

theorem Left.length (h : r.Left data left) :
    r.offset + left.length = data.length := by
  have hinside := h.inside
  rw [← h.ahead, List.length_drop]
  omega

/-- The reader after some of the bytes before it. -/
theorem Left.advance {chunk : List UInt8} (h : r.Left data (chunk ++ left)) :
    Left { r with offset := r.offset + chunk.length } data left where
  same := h.same
  inside := by
    have hlength := h.length
    rw [List.length_append] at hlength
    dsimp only
    omega
  ahead := by
    rw [← List.drop_drop, h.ahead, List.drop_left]

theorem Left.readU8 {byte : UInt8} (h : r.Left data (byte :: left)) :
    ∃ r', r.readU8 = (byte, r') ∧ r'.Left data left := by
  have hlength := h.length
  rw [List.length_cons] at hlength
  have hget : data.getD r.offset 0 = byte := by
    rw [List.getD_eq_getElem?_getD, ← List.head?_drop, h.ahead]
    rfl
  have hchunk : r.Left data ([byte] ++ left) := h
  refine ⟨_, ?_, hchunk.advance⟩
  rw [Reader.readU8, h.same, if_neg (by omega), hget]
  rfl

/-- A number that was written is read, and the reader is behind it. -/
theorem Left.readU32 {value : UInt32} (h : r.Left data (writeU32 value ++ left)) :
    ∃ r', r.readU32 = (value, r') ∧ r'.Left data left := by
  have hlength := h.length
  rw [List.length_append, length_writeU32] at hlength
  refine ⟨_, ?_, h.advance⟩
  rw [Reader.readU32, h.same, if_neg (by omega), h.ahead,
    List.take_left' (length_writeU32 value), beNat_writeU32, UInt32.ofNat_toNat,
    length_writeU32]

/-- A number that is cut reads as 0 and leaves the reader where it is. -/
theorem Left.readU32_short (h : r.Left data left) (hshort : left.length < 4) :
    r.readU32 = (0, r) := by
  have hlength := h.length
  rw [Reader.readU32, h.same, if_pos (by omega)]

theorem Left.readU64 {value : UInt64} (h : r.Left data (writeU64 value ++ left)) :
    ∃ r', r.readU64 = (value, r') ∧ r'.Left data left := by
  have hlength := h.length
  rw [List.length_append, length_writeU64] at hlength
  refine ⟨_, ?_, h.advance⟩
  rw [Reader.readU64, h.same, if_neg (by omega), h.ahead,
    List.take_left' (length_writeU64 value), ofNat_beNat_writeU64, length_writeU64]

theorem Left.readU64_short (h : r.Left data left) (hshort : left.length < 8) :
    r.readU64 = (0, r) := by
  have hlength := h.length
  rw [Reader.readU64, h.same, if_pos (by omega)]

/-- A string is read back, unless its length wraps round. -/
theorem Left.readString {text : List UInt8} (htext : text.length < 2 ^ 32)
    (h : r.Left data (writeString text ++ left)) :
    ∃ r', r.readString = (text, r') ∧ r'.Left data left := by
  rw [writeString, List.append_assoc] at h
  obtain ⟨r₁, hread, h₁⟩ := h.readU32
  have hlength := h₁.length
  have hlen := toNat_ofNat_length htext
  rw [List.length_append] at hlength
  rw [Reader.readString, hread]
  dsimp only
  by_cases hempty : text = []
  · subst hempty
    exact ⟨r₁, if_pos (.inl rfl), h₁⟩
  · have hne : ¬ (UInt32.ofNat text.length = 0 ∨
        r₁.offset + (UInt32.ofNat text.length).toNat > r₁.data.length) := by
      rw [hlen, h₁.same]
      rintro (hzero | hlong)
      · rw [hzero] at hlen
        exact hempty (List.length_eq_zero_iff.mp hlen.symm)
      · omega
    refine ⟨_, ?_, h₁.advance⟩
    rw [if_neg hne, h₁.same, h₁.ahead, hlen, List.take_left' rfl]

/-- A string that does not fit leaves the reader behind its length. -/
theorem Left.readString_cut {value : UInt32}
    (h : r.Left data (writeU32 value ++ left))
    (hcut : left.length < value.toNat) :
    ∃ r', r.readString = ([], r') ∧ r'.Left data left := by
  obtain ⟨r₁, hread, h₁⟩ := h.readU32
  have hlength := h₁.length
  rw [Reader.readString, hread]
  refine ⟨r₁, if_pos (.inr ?_), h₁⟩
  rw [h₁.same]
  omega

theorem Left.readString_short (h : r.Left data left) (hshort : left.length < 4) :
    r.readString = ([], r) := by
  rw [Reader.readString, h.readU32_short hshort]
  exact if_pos (.inl rfl)

/-- Only a payload that is not empty is accepted. -/
theorem Left.readPayload {payload : List UInt8} (hpayload : payload.length < 2 ^ 32)
    (hne : payload ≠ []) (h : r.Left data (writeString payload ++ rest)) :
    r.readPayload = some payload := by
  rw [writeString, List.append_assoc] at h
  obtain ⟨r₁, hread, h₁⟩ := h.readU32
  have hlength := h₁.length
  have hlen := toNat_ofNat_length hpayload
  rw [List.length_append] at hlength
  have hzero : UInt32.ofNat payload.length ≠ 0 := by
    intro hzero
    rw [hzero] at hlen
    exact hne (List.length_eq_zero_iff.mp hlen.symm)
  have hfits : ¬ r₁.offset + payload.length > data.length := by omega
  rw [Reader.readPayload, hread]
  simp only [if_neg hzero, hlen, h₁.same, if_neg hfits, h₁.ahead]
  rw [List.take_left' rfl]

/-- The common end of the envelopes. -/
theorem Left.readTarget {uri payload : List UInt8} {hash : UInt64}
    (huri : uri.length < 2 ^ 32) (hpayload : payload.length < 2 ^ 32)
    (hne : payload ≠ [])
    (h : r.Left data (writeString uri ++ (writeU64 hash ++
      (writeString payload ++ rest)))) :
    r.readTarget = some (uri, hash, payload) := by
  obtain ⟨r₁, hread₁, h₁⟩ := h.readString huri
  obtain ⟨r₂, hread₂, h₂⟩ := h₁.readU64
  rw [Reader.readTarget, hread₁]
  simp only [hread₂, h₂.readPayload hpayload hne, Option.map_some]

end Reader

/-- The routed envelope ends as the others do. -/
theorem unpackRouted_eq (data : List UInt8) :
    unpackRouted data =
      let (type, r) := Reader.readU8 ⟨data, 0⟩
      if type ≠ routedType then none
      else
        let (flags, r) := r.readU8
        let (msgId, r) := r.readU64
        let (senderNodeId, r) := r.readU64
        r.readTarget.map fun (uri, msgHash, payload) =>
          ⟨parseUriFromWire uri, flags, msgId, senderNodeId, msgHash, payload⟩ := by
  simp only [unpackRouted, Reader.readTarget, Reader.readPayload,
    Reader.readU32_data,
    Reader.readU64_data, Reader.readString_data, Reader.readU8_data,
    apply_ite (Option.map _), Option.map_none, Option.map_some]

end UltraNet
