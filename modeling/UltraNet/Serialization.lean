/-
The wire format: `serializer` with its cursor, `actor_uri` and the routed and
ack envelopes.  Strings are byte strings.
-/
import UltraNet.ByteOrder

namespace UltraNet

/-- Network byte order: the most significant byte first. -/
def beBytes (width value : Nat) : List UInt8 := (leBytes width value).reverse

/-- The number that big-endian bytes stand for. -/
def beNat (bytes : List UInt8) : Nat := leNat bytes.reverse

@[simp] theorem length_beBytes (width value : Nat) :
    (beBytes width value).length = width := by
  simp [beBytes]

theorem beNat_beBytes (width value : Nat) :
    beNat (beBytes width value) = value % 256 ^ width := by
  rw [beNat, beBytes, List.reverse_reverse, leNat_leBytes]

def writeU32 (value : UInt32) : List UInt8 := beBytes 4 value.toNat

def writeU64 (value : UInt64) : List UInt8 := beBytes 8 value.toNat

def writeString (s : List UInt8) : List UInt8 :=
  writeU32 (UInt32.ofNat s.length) ++ s

/-- The reading side of `serializer`: the bytes and the cursor. -/
structure Reader where
  data : List UInt8
  offset : Nat

namespace Reader

def readU8 (r : Reader) : UInt8 × Reader :=
  if r.offset ≥ r.data.length then (0, r)
  else (r.data.getD r.offset 0, { r with offset := r.offset + 1 })

def readU32 (r : Reader) : UInt32 × Reader :=
  if r.offset + 4 > r.data.length then (0, r)
  else (UInt32.ofNat (beNat ((r.data.drop r.offset).take 4)),
    { r with offset := r.offset + 4 })

def readU64 (r : Reader) : UInt64 × Reader :=
  if r.offset + 8 > r.data.length then (0, r)
  else (UInt64.ofNat (beNat ((r.data.drop r.offset).take 8)),
    { r with offset := r.offset + 8 })

/-- A length that reaches past the end leaves the cursor after it. -/
def readString (r : Reader) : List UInt8 × Reader :=
  let (len, r) := r.readU32
  if len = 0 ∨ r.offset + len.toNat > r.data.length then ([], r)
  else ((r.data.drop r.offset).take len.toNat,
    { r with offset := r.offset + len.toNat })

end Reader

structure ActorUri where
  node : List UInt8
  type : List UInt8
  name : List UInt8
deriving DecidableEq

def slash : UInt8 := 0x2F

/-- The characters `ultra://`. -/
def uriScheme : List UInt8 := [0x75, 0x6C, 0x74, 0x72, 0x61, 0x3A, 0x2F, 0x2F]

def ActorUri.toBytes (uri : ActorUri) : List UInt8 :=
  uriScheme ++ uri.node ++ [slash] ++ uri.type ++ [slash] ++ uri.name

/-- `std::string::find(c, pos)`. -/
def findFrom (s : List UInt8) (c : UInt8) (pos : Nat) : Option Nat :=
  ((s.drop pos).findIdx? (· = c)).map (· + pos)

/-- The parts between the slashes; a text with too few of them becomes the type, with no
name and for any node. -/
def parseUriFromWire (s : List UInt8) : ActorUri :=
  match findFrom s slash 8 with
  | none => ⟨[0x2A], s, []⟩
  | some first =>
      match findFrom s slash (first + 1) with
      | none => ⟨[0x2A], s, []⟩
      | some second =>
          ⟨(s.drop 8).take (first - 8),
            (s.drop (first + 1)).take (second - first - 1),
            s.drop (second + 1)⟩

def routedType : UInt8 := 0x04

def ackType : UInt8 := 0x06

/-- The fields of a 0x04 message. -/
structure Routed where
  uri : ActorUri
  flags : UInt8
  msgId : UInt64
  senderNodeId : UInt64
  msgHash : UInt64
  payload : List UInt8
deriving DecidableEq

def packRouted (m : Routed) : List UInt8 :=
  routedType :: m.flags :: writeU64 m.msgId ++ writeU64 m.senderNodeId ++
    writeString m.uri.toBytes ++ writeU64 m.msgHash ++
    writeU32 (UInt32.ofNat m.payload.length) ++ m.payload

def unpackRouted (data : List UInt8) : Option Routed :=
  let (type, r) := Reader.readU8 ⟨data, 0⟩
  if type ≠ routedType then none
  else
    let (flags, r) := r.readU8
    let (msgId, r) := r.readU64
    let (senderNodeId, r) := r.readU64
    let (uri, r) := r.readString
    let (msgHash, r) := r.readU64
    let (payloadLen, r) := r.readU32
    if payloadLen = 0 then none
    else if r.offset + payloadLen.toNat > data.length then none
    else
      some ⟨parseUriFromWire uri, flags, msgId, senderNodeId, msgHash,
        (data.drop r.offset).take payloadLen.toNat⟩

def packAck (msgId : UInt64) : List UInt8 := ackType :: writeU64 msgId

def unpackAck (data : List UInt8) : Option UInt64 :=
  let (type, r) := Reader.readU8 ⟨data, 0⟩
  if type ≠ ackType then none
  else if r.data.length - r.offset < 8 then none
  else some r.readU64.1

/-- The message id and the sender id of a routed frame stand at fixed
offsets. -/
def frameMsgId (frame : List UInt8) : UInt64 :=
  UInt64.ofNat (beNat ((frame.drop 2).take 8))

def frameSender (frame : List UInt8) : UInt64 :=
  UInt64.ofNat (beNat ((frame.drop 10).take 8))

theorem ofNat_beNat_writeU64 (value : UInt64) :
    UInt64.ofNat (beNat (writeU64 value)) = value := by
  have hvalue : value.toNat < 256 ^ 8 := by
    have := value.toNat_lt
    omega
  rw [writeU64, beNat_beBytes, Nat.mod_eq_of_lt hvalue, UInt64.ofNat_toNat]

theorem frameMsgId_packRouted (m : Routed) :
    frameMsgId (packRouted m) = m.msgId := by
  have htake : ((packRouted m).drop 2).take 8 = writeU64 m.msgId := by
    simp only [packRouted, List.cons_append, List.drop_succ_cons,
      List.drop_zero, List.append_assoc]
    exact List.take_left' (by simp [writeU64])
  rw [frameMsgId, htake, ofNat_beNat_writeU64]

theorem frameSender_packRouted (m : Routed) :
    frameSender (packRouted m) = m.senderNodeId := by
  have htake : ((packRouted m).drop 10).take 8 = writeU64 m.senderNodeId := by
    have hdrop : (packRouted m).drop 10 = writeU64 m.senderNodeId ++
        (writeString m.uri.toBytes ++ (writeU64 m.msgHash ++
          (writeU32 (UInt32.ofNat m.payload.length) ++ m.payload))) := by
      simp only [packRouted, List.cons_append, List.drop_succ_cons,
        List.append_assoc]
      exact List.drop_left' (by simp [writeU64])
    rw [hdrop]
    exact List.take_left' (by simp [writeU64])
  rw [frameSender, htake, ofNat_beNat_writeU64]

/-- A frame that is accepted holds both ids: after a read that fails the
cursor stays, so the payload length could not be read either. -/
theorem unpackRouted_length {data : List UInt8} {m : Routed}
    (hunpack : unpackRouted data = some m) : 18 ≤ data.length := by
  by_contra hshort
  revert hunpack
  simp only [unpackRouted, Reader.readU8, Reader.readU64, Reader.readString,
    Reader.readU32]
  grind

/-- The two ids can be read from the frame without unpacking it. -/
theorem unpackRouted_ids {data : List UInt8} {m : Routed}
    (hunpack : unpackRouted data = some m) :
    m.msgId = frameMsgId data ∧ m.senderNodeId = frameSender data := by
  have hlength := unpackRouted_length hunpack
  revert hunpack
  simp only [unpackRouted, Reader.readU8, Reader.readU64, frameMsgId,
    frameSender]
  grind

/-- An ack carries its message id and nothing else. -/
theorem unpackAck_packAck (msgId : UInt64) :
    unpackAck (packAck msgId) = some msgId := by
  have hlength : (writeU64 msgId).length = 8 := by simp [writeU64]
  have htake : (writeU64 msgId).take 8 = writeU64 msgId :=
    List.take_of_length_le (by omega)
  simp [unpackAck, packAck, Reader.readU8, Reader.readU64, hlength, htake,
    ofNat_beNat_writeU64]

end UltraNet
