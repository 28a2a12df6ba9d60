/-
What is packed is unpacked: the five envelopes give back every field.
-/
import UltraNet.WireFormats

namespace UltraNet

theorem findFrom_part {s part rest : List UInt8} {c : UInt8} {pos : Nat}
    (hpart : c ∉ part) (hs : s.drop pos = part ++ c :: rest) :
    findFrom s c pos = some (pos + part.length) := by
  have hidx : (part ++ c :: rest).findIdx? (· = c) = some part.length := by
    rw [List.findIdx?_append, List.findIdx?_eq_none_iff.mpr]
    · simp [List.findIdx?_cons]
    · intro byte hbyte
      simp only [decide_eq_false_iff_not]
      exact fun hsame => hpart (hsame ▸ hbyte)
  rw [findFrom, hs, hidx, Option.map_some, Nat.add_comm]

/-- The text is split at its first two slashes, so only the name may hold
others. -/
theorem parseUriFromWire_toBytes {uri : ActorUri} (hnode : slash ∉ uri.node)
    (htype : slash ∉ uri.type) : parseUriFromWire uri.toBytes = uri := by
  have hafter : uri.toBytes.drop 8 =
      uri.node ++ slash :: (uri.type ++ slash :: uri.name) := by
    simp [ActorUri.toBytes, uriScheme]
  have hfirst := findFrom_part hnode hafter
  have hafter' : uri.toBytes.drop (8 + uri.node.length + 1) =
      uri.type ++ slash :: uri.name := by
    rw [Nat.add_assoc, ← List.drop_drop, hafter, ← List.drop_drop, List.drop_left]
    rfl
  have hsecond := findFrom_part htype hafter'
  have hname : uri.toBytes.drop (8 + uri.node.length + 1 + uri.type.length + 1) =
      uri.name := by
    rw [Nat.add_assoc, ← List.drop_drop, hafter', ← List.drop_drop, List.drop_left]
    rfl
  rw [parseUriFromWire, hfirst]
  simp only [hsecond]
  rw [hafter, hafter', hname, Nat.add_sub_cancel_left, List.take_left' rfl,
    show 8 + uri.node.length + 1 + uri.type.length - (8 + uri.node.length) - 1 =
      uri.type.length by omega, List.take_left' rfl]

theorem unpackActorMessage_pack {m : ActorMessage}
    (huri : m.uri.toBytes.length < 2 ^ 32) (hpayload : m.payload.length < 2 ^ 32)
    (hne : m.payload ≠ []) :
    unpackActorMessage (packActorMessage m) =
      some { m with uri := parseUriFromWire m.uri.toBytes } := by
  have hpack : packActorMessage m = actorMessageType :: (writeString m.uri.toBytes ++
      (writeU64 m.msgType ++ (writeString m.payload ++ []))) := by
    simp [packActorMessage, writeString]
  have hstart := Reader.left_start (packActorMessage m)
  rw [hpack] at hstart
  obtain ⟨r, hread, hr⟩ := hstart.readU8
  rw [← hpack] at hread
  rw [unpackActorMessage, hread]
  simp only [ne_eq, not_true_eq_false, if_false, hr.readTarget huri hpayload hne,
    Option.map_some]

theorem unpackActorLocation_pack {uri : ActorUri} {ttl : UInt32}
    (huri : uri.toBytes.length < 2 ^ 32) :
    unpackActorLocation (packActorLocation uri ttl) =
      some (parseUriFromWire uri.toBytes, ttl) := by
  have hpack : packActorLocation uri ttl = actorLocationType ::
      (writeString uri.toBytes ++ (writeU32 ttl ++ [])) := by
    simp [packActorLocation]
  have hstart := Reader.left_start (packActorLocation uri ttl)
  rw [hpack] at hstart
  obtain ⟨r, hread, hr⟩ := hstart.readU8
  obtain ⟨r₁, hread₁, hr₁⟩ := hr.readString huri
  obtain ⟨r₂, hread₂, -⟩ := hr₁.readU32
  rw [← hpack] at hread
  rw [unpackActorLocation, hread]
  simp only [ne_eq, not_true_eq_false, if_false, hread₁, hread₂]

theorem unpackRouted_pack {m : Routed} (huri : m.uri.toBytes.length < 2 ^ 32)
    (hpayload : m.payload.length < 2 ^ 32) (hne : m.payload ≠ []) :
    unpackRouted (packRouted m) =
      some { m with uri := parseUriFromWire m.uri.toBytes } := by
  have hpack : packRouted m = routedType :: m.flags :: (writeU64 m.msgId ++
      (writeU64 m.senderNodeId ++ (writeString m.uri.toBytes ++
        (writeU64 m.msgHash ++ (writeString m.payload ++ []))))) := by
    simp [packRouted, writeString]
  have hstart := Reader.left_start (packRouted m)
  rw [hpack] at hstart
  obtain ⟨r, hread, hr⟩ := hstart.readU8
  obtain ⟨r₁, hread₁, hr₁⟩ := hr.readU8
  obtain ⟨r₂, hread₂, hr₂⟩ := hr₁.readU64
  obtain ⟨r₃, hread₃, hr₃⟩ := hr₂.readU64
  rw [← hpack] at hread
  rw [unpackRouted_eq, hread]
  simp only [ne_eq, not_true_eq_false, if_false, hread₁, hread₂, hread₃,
    hr₃.readTarget huri hpayload hne, Option.map_some]

theorem unpackReply_pack {msgId : UInt64} {payload : List UInt8}
    (hpayload : payload.length < 2 ^ 32) (hne : payload ≠ []) :
    unpackReply (packReply msgId payload) = some (msgId, payload) := by
  have hpack : packReply msgId payload = replyType ::
      (writeU64 msgId ++ (writeString payload ++ [])) := by
    simp [packReply, writeString]
  have hstart := Reader.left_start (packReply msgId payload)
  rw [hpack] at hstart
  obtain ⟨r, hread, hr⟩ := hstart.readU8
  obtain ⟨r₁, hread₁, hr₁⟩ := hr.readU64
  rw [← hpack] at hread
  rw [unpackReply, hread]
  simp only [ne_eq, not_true_eq_false, if_false, hread₁,
    hr₁.readPayload hpayload hne, Option.map_some]

/-- The five envelopes give back the fields that they were packed from. -/
theorem wire_roundTrip (uri : ActorUri) (hnode : slash ∉ uri.node)
    (htype : slash ∉ uri.type) (huri : uri.toBytes.length < 2 ^ 32)
    (payload : List UInt8) (hne : 0 < payload.length)
    (hpayload : payload.length < 2 ^ 32) (flags : UInt8)
    (msgId senderNodeId msgHash : UInt64) (ttl : UInt32) :
    unpackRouted (packRouted ⟨uri, flags, msgId, senderNodeId, msgHash, payload⟩) =
      some ⟨uri, flags, msgId, senderNodeId, msgHash, payload⟩ ∧
    unpackActorMessage (packActorMessage ⟨uri, msgHash, payload⟩) =
      some ⟨uri, msgHash, payload⟩ ∧
    unpackActorLocation (packActorLocation uri ttl) = some (uri, ttl) ∧
    unpackReply (packReply msgId payload) = some (msgId, payload) ∧
    unpackAck (packAck msgId) = some msgId := by
  have hsame := parseUriFromWire_toBytes hnode htype
  have hne' := List.length_pos_iff.mp hne
  refine ⟨?_, ?_, ?_, unpackReply_pack hpayload hne', unpackAck_packAck msgId⟩
  · have hrouted := unpackRouted_pack
      (m := ⟨uri, flags, msgId, senderNodeId, msgHash, payload⟩) huri hpayload hne'
    rwa [hsame] at hrouted
  · have hmessage := unpackActorMessage_pack (m := ⟨uri, msgHash, payload⟩)
      huri hpayload hne'
    rwa [hsame] at hmessage
  · rw [unpackActorLocation_pack huri, hsame]

/-- An empty node and a name that is all slashes. -/
theorem wire_roundTrip_slashes :
    let uri : ActorUri := ⟨[], [0x74], [slash, slash]⟩
    let m : Routed := ⟨uri, 1, 2, 0, 3, [0, 0]⟩
    unpackRouted (packRouted m) = some m :=
  (wire_roundTrip ⟨[], [0x74], [slash, slash]⟩ (by decide) (by decide) (by decide)
    [0, 0] (by decide) (by decide) 1 2 0 3 10).1

end UltraNet
