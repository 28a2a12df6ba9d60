/-
What `unpack_*` accepts against the documented layout.  A read past the end
gives zero and leaves the cursor, so that a frame which lacks a field can be
read from the wrong place.
-/
import UltraNet.WireFormats

namespace UltraNet

/-- A payload length that is not zero, with that many bytes after it. -/
def PayloadAt (bytes : List UInt8) : Prop :=
  0 < sizeField bytes ∧ 4 + sizeField bytes ≤ bytes.length

/-- The URI is longer than what follows its length, and a payload stands where
the hash should begin or end. -/
def UriCut (bytes : List UInt8) : Prop :=
  4 ≤ bytes.length ∧ bytes.length < 4 + sizeField bytes ∧
    PayloadAt (bytes.drop (if 12 ≤ bytes.length then 12 else 4))

/-- Fewer than eight bytes follow the URI, and a payload stands in them. -/
def HashCut (bytes : List UInt8) : Prop :=
  4 + sizeField bytes ≤ bytes.length ∧
    bytes.length < 4 + sizeField bytes + 8 ∧
    PayloadAt (bytes.drop (4 + sizeField bytes))

/-- The bytes from the URI on are read from the wrong place. -/
def Misread (bytes : List UInt8) : Prop := UriCut bytes ∨ HashCut bytes

/-- The URI, the hash and the payload, with whatever follows. -/
structure TargetLayout (bytes uri : List UInt8) (hash : UInt64)
    (payload : List UInt8) : Prop where
  uri_lt : uri.length < 2 ^ 32
  payload_lt : payload.length < 2 ^ 32
  payload_ne : payload ≠ []
  bytes_eq : ∃ rest, bytes =
    writeString uri ++ (writeU64 hash ++ (writeString payload ++ rest))

/-- The documented layout of a 0x04 message. -/
def RoutedLayout (data : List UInt8) (m : Routed) : Prop :=
  ∃ body uri, data = routedType :: m.flags ::
      (writeU64 m.msgId ++ (writeU64 m.senderNodeId ++ body)) ∧
    m.uri = parseUriFromWire uri ∧ TargetLayout body uri m.msgHash m.payload

/-- The documented layout of a 0x02 message. -/
def ActorMessageLayout (data : List UInt8) (m : ActorMessage) : Prop :=
  ∃ body uri, data = actorMessageType :: body ∧
    m.uri = parseUriFromWire uri ∧ TargetLayout body uri m.msgType m.payload

/-- The documented layout of a 0x05 message. -/
def ReplyLayout (data : List UInt8) (msgId : UInt64) (payload : List UInt8) : Prop :=
  payload.length < 2 ^ 32 ∧ payload ≠ [] ∧
    ∃ rest, data = replyType :: (writeU64 msgId ++ (writeString payload ++ rest))

theorem sizeField_writeString {text : List UInt8} (htext : text.length < 2 ^ 32)
    (rest : List UInt8) : sizeField (writeString text ++ rest) = text.length := by
  rw [writeString, List.append_assoc, sizeField_writeU32, toNat_ofNat_length htext]

@[simp] theorem length_writeString (text : List UInt8) :
    (writeString text).length = 4 + text.length := by
  simp [writeString]

/-- A payload stands there exactly if the bytes begin with one. -/
theorem payloadAt_iff {bytes : List UInt8} :
    PayloadAt bytes ↔ ∃ payload rest, payload.length < 2 ^ 32 ∧ payload ≠ [] ∧
      bytes = writeString payload ++ rest := by
  constructor
  · rintro ⟨hpos, hfits⟩
    obtain ⟨value, rest, rfl⟩ := exists_writeU32
        (Nat.le_trans (Nat.le_add_right 4 _) hfits)
    rw [sizeField_writeU32] at hpos hfits
    rw [List.length_append, length_writeU32] at hfits
    have hlength : (rest.take value.toNat).length = value.toNat := by
      rw [List.length_take]
      omega
    refine ⟨rest.take value.toNat, rest.drop value.toNat, ?_, ?_, ?_⟩
    · rw [hlength]
      exact value.toNat_lt
    · exact List.ne_nil_of_length_pos (by omega)
    · rw [writeString, hlength, UInt32.ofNat_toNat, List.append_assoc,
        List.take_append_drop]
  · rintro ⟨payload, rest, hpayload, hne, rfl⟩
    rw [PayloadAt, sizeField_writeString hpayload, List.length_append,
      length_writeString]
    exact ⟨List.length_pos_iff.mpr hne, Nat.le_add_right _ _⟩

namespace Reader

variable {r : Reader} {data left : List UInt8}

/-- The payload is read exactly where one stands. -/
theorem Left.readPayload_eq (h : r.Left data left) (payload : List UInt8) :
    r.readPayload = some payload ↔ payload.length < 2 ^ 32 ∧ payload ≠ [] ∧
      ∃ rest, left = writeString payload ++ rest := by
  constructor
  · intro hread
    have hplace : PayloadAt left := by
      by_cases hshort : left.length < 4
      · rw [Reader.readPayload, h.readU32_short hshort] at hread
        exact absurd hread (by simp)
      · obtain ⟨value, rest, rfl⟩ := exists_writeU32 (Nat.not_lt.mp hshort)
        obtain ⟨r₁, hread₁, h₁⟩ := h.readU32
        have hlength := h₁.length
        rw [Reader.readPayload, hread₁] at hread
        simp only [h₁.same, Option.ite_none_left_eq_some] at hread
        obtain ⟨hne, hfits, -⟩ := hread
        rw [PayloadAt, sizeField_writeU32, List.length_append, length_writeU32]
        have hpos : value.toNat ≠ 0 := fun hzero => hne (UInt32.toNat_inj.mp hzero)
        omega
    obtain ⟨found, rest, hfound, hne, rfl⟩ := payloadAt_iff.mp hplace
    rw [h.readPayload hfound hne] at hread
    obtain rfl := Option.some.inj hread
    exact ⟨hfound, hne, rest, rfl⟩
  · rintro ⟨hpayload, hne, rest, rfl⟩
    exact h.readPayload hpayload hne

/-- What can stand where a string is read. -/
theorem string_cases (left : List UInt8) :
    left.length < 4 ∨
      (∃ text rest, text.length < 2 ^ 32 ∧ left = writeString text ++ rest) ∨
      ∃ value rest, left = writeU32 value ++ rest ∧ rest.length < value.toNat := by
  by_cases hshort : left.length < 4
  · exact .inl hshort
  · obtain ⟨value, rest, rfl⟩ := exists_writeU32 (Nat.not_lt.mp hshort)
    by_cases hcut : rest.length < value.toNat
    · exact .inr (.inr ⟨value, rest, rfl, hcut⟩)
    · have hlength : (rest.take value.toNat).length = value.toNat := by
        rw [List.length_take]
        omega
      refine .inr (.inl ⟨rest.take value.toNat, rest.drop value.toNat, ?_, ?_⟩)
      · rw [hlength]
        exact value.toNat_lt
      · rw [writeString, hlength, UInt32.ofNat_toNat, List.append_assoc,
          List.take_append_drop]

/-- The hash and the payload, where the hash is there or is not. -/
theorem Left.readTail (h : r.Left data left) (hash : UInt64) (payload : List UInt8) :
    (r.readU64.1 = hash ∧ r.readU64.2.readPayload = some payload) ↔
      payload.length < 2 ^ 32 ∧ payload ≠ [] ∧
        if 8 ≤ left.length then
          ∃ rest, left = writeU64 hash ++ (writeString payload ++ rest)
        else hash = 0 ∧ ∃ rest, left = writeString payload ++ rest := by
  by_cases hlong : 8 ≤ left.length
  · obtain ⟨value, rest, rfl⟩ := exists_writeU64 hlong
    obtain ⟨r₁, hread, h₁⟩ := h.readU64
    rw [hread, if_pos hlong]
    simp only [h₁.readPayload_eq]
    constructor
    · rintro ⟨rfl, hpayload, hne, tail, rfl⟩
      exact ⟨hpayload, hne, tail, rfl⟩
    · rintro ⟨hpayload, hne, tail, htail⟩
      obtain ⟨hvalue, hrest⟩ := List.append_inj htail (by simp)
      refine ⟨?_, hpayload, hne, tail, hrest⟩
      rw [← ofNat_beNat_writeU64 value, hvalue, ofNat_beNat_writeU64]
  · rw [h.readU64_short (Nat.not_le.mp hlong), if_neg hlong]
    simp only [h.readPayload_eq]
    constructor
    · rintro ⟨rfl, hpayload, hne, htail⟩
      exact ⟨hpayload, hne, rfl, htail⟩
    · rintro ⟨hpayload, hne, rfl, htail⟩
      exact ⟨rfl, hpayload, hne, htail⟩

theorem readTarget_eq_some (r : Reader) (uri payload : List UInt8) (hash : UInt64) :
    r.readTarget = some (uri, hash, payload) ↔
      r.readString.1 = uri ∧ r.readString.2.readU64.1 = hash ∧
        r.readString.2.readU64.2.readPayload = some payload := by
  rw [Reader.readTarget]
  simp only [Option.map_eq_some_iff, Prod.mk.injEq]
  constructor
  · rintro ⟨found, hread, huri, hhash, rfl⟩
    exact ⟨huri, hhash, hread⟩
  · rintro ⟨huri, hhash, hread⟩
    exact ⟨payload, hread, huri, hhash, rfl⟩

/-- What is read from the right places has the documented layout. -/
theorem Left.readTarget_layout {uri payload : List UInt8} {hash : UInt64}
    (h : r.Left data left) (hplace : ¬ Misread left)
    (hread : r.readTarget = some (uri, hash, payload)) :
    TargetLayout left uri hash payload := by
  rw [readTarget_eq_some] at hread
  obtain ⟨huri, htail⟩ := hread
  obtain hshort | ⟨text, rest, htext, rfl⟩ | ⟨value, rest, rfl, hcut⟩ :=
      string_cases left
  · rw [h.readString_short hshort, h.readTail, if_neg (by omega)] at htail
    obtain ⟨-, -, -, tail, rfl⟩ := htail
    rw [List.length_append, length_writeString] at hshort
    omega
  · obtain ⟨r₁, hread₁, h₁⟩ := h.readString htext
    rw [hread₁, h₁.readTail] at htail
    rw [hread₁] at huri
    subst huri
    by_cases hlong : 8 ≤ rest.length
    · rw [if_pos hlong] at htail
      obtain ⟨hpayload, hne, tail, rfl⟩ := htail
      exact ⟨htext, hpayload, hne, tail, rfl⟩
    · rw [if_neg hlong] at htail
      obtain ⟨hpayload, hne, -, tail, rfl⟩ := htail
      refine absurd (.inr ⟨?_, ?_, ?_⟩) hplace
      · rw [sizeField_writeString htext, List.length_append, length_writeString]
        omega
      · rw [sizeField_writeString htext, List.length_append, length_writeString]
        omega
      · rw [sizeField_writeString htext, List.drop_left' (length_writeString text)]
        exact payloadAt_iff.mpr ⟨payload, tail, hpayload, hne, rfl⟩
  · obtain ⟨r₁, hread₁, h₁⟩ := h.readString_cut hcut
    rw [hread₁, h₁.readTail] at htail
    have hlength : (writeU32 value ++ rest).length = 4 + rest.length := by simp
    refine absurd (.inl ⟨?_, ?_, ?_⟩) hplace
    · omega
    · rw [sizeField_writeU32]
      omega
    · by_cases hlong : 8 ≤ rest.length
      · rw [if_pos hlong] at htail
        obtain ⟨hpayload, hne, tail, rfl⟩ := htail
        rw [if_pos (by omega), ← List.append_assoc, List.drop_left' (by simp)]
        exact payloadAt_iff.mpr ⟨payload, tail, hpayload, hne, rfl⟩
      · rw [if_neg hlong] at htail
        obtain ⟨hpayload, hne, -, tail, rfl⟩ := htail
        rw [if_neg (by omega), List.drop_left' (by simp)]
        exact payloadAt_iff.mpr ⟨payload, tail, hpayload, hne, rfl⟩

/-- What is read from the wrong places is accepted. -/
theorem Left.readTarget_misread (h : r.Left data left) (hplace : Misread left) :
    ∃ uri hash payload, r.readTarget = some (uri, hash, payload) := by
  simp only [readTarget_eq_some]
  obtain ⟨hfour, hcut, hpayload⟩ | ⟨hfits, hshort, hpayload⟩ := hplace
  · obtain ⟨value, rest, rfl⟩ := exists_writeU32 hfour
    have hlength : (writeU32 value ++ rest).length = 4 + rest.length := by simp
    rw [sizeField_writeU32, hlength] at hcut
    obtain ⟨r₁, hread₁, h₁⟩ := h.readString_cut (Nat.lt_of_add_lt_add_left hcut)
    simp only [hread₁, h₁.readTail]
    by_cases hlong : 8 ≤ rest.length
    · obtain ⟨hash, tail, rfl⟩ := exists_writeU64 hlong
      rw [if_pos (by omega), ← List.append_assoc,
        List.drop_left' (by simp)] at hpayload
      obtain ⟨payload, tail', hlt, hne, rfl⟩ := payloadAt_iff.mp hpayload
      refine ⟨[], hash, payload, rfl, hlt, hne, ?_⟩
      rw [if_pos hlong]
      exact ⟨tail', rfl⟩
    · rw [if_neg (by omega), List.drop_left' (by simp)] at hpayload
      obtain ⟨payload, tail, hlt, hne, rfl⟩ := payloadAt_iff.mp hpayload
      exact ⟨[], 0, payload, rfl, hlt, hne, by
        rw [if_neg hlong]; exact ⟨rfl, tail, rfl⟩⟩
  · obtain hless | ⟨text, rest, htext, rfl⟩ | ⟨value, rest, rfl, hcut⟩ :=
      string_cases left
    · omega
    · rw [sizeField_writeString htext] at hshort hpayload
      rw [List.length_append, length_writeString] at hshort
      rw [List.drop_left' (length_writeString text)] at hpayload
      obtain ⟨r₁, hread₁, h₁⟩ := h.readString htext
      obtain ⟨payload, tail, hlt, hne, rfl⟩ := payloadAt_iff.mp hpayload
      simp only [hread₁, h₁.readTail]
      exact ⟨text, 0, payload, rfl, hlt, hne, by
        rw [if_neg (by omega)]; exact ⟨rfl, tail, rfl⟩⟩
    · rw [sizeField_writeU32, List.length_append, length_writeU32] at hfits
      omega

end Reader

/-- The documented layout is not read from the wrong places. -/
theorem TargetLayout.not_misread {bytes uri payload : List UInt8} {hash : UInt64}
    (h : TargetLayout bytes uri hash payload) : ¬ Misread bytes := by
  obtain ⟨rest, rfl⟩ := h.bytes_eq
  rintro (⟨-, hcut, -⟩ | ⟨-, hcut, -⟩)
  · rw [sizeField_writeString h.uri_lt, List.length_append,
      length_writeString] at hcut
    omega
  · rw [sizeField_writeString h.uri_lt] at hcut
    simp only [List.length_append, length_writeString, length_writeU64] at hcut
    omega

theorem writeString_append_inj {text other x y : List UInt8}
    (htext : text.length < 2 ^ 32) (hother : other.length < 2 ^ 32)
    (h : writeString text ++ x = writeString other ++ y) : text = other ∧ x = y := by
  have hlength := congrArg sizeField h
  rw [sizeField_writeString htext, sizeField_writeString hother] at hlength
  obtain ⟨hstring, hrest⟩ := List.append_inj h (by simp [hlength])
  rw [writeString, writeString, hlength] at hstring
  exact ⟨List.append_cancel_left hstring, hrest⟩

/-- Where the layout is complete nothing of a packed frame is missing. -/
theorem TargetLayout.complete {bytes more uri payload uri' payload' : List UInt8}
    {hash hash' : UInt64} (h : TargetLayout bytes uri hash payload)
    (huri : uri'.length < 2 ^ 32) (hpayload : payload'.length < 2 ^ 32)
    (hmore : bytes ++ more =
      writeString uri' ++ (writeU64 hash' ++ writeString payload')) : more = [] := by
  obtain ⟨rest, rfl⟩ := h.bytes_eq
  rw [List.append_assoc] at hmore
  obtain ⟨-, hmore⟩ := writeString_append_inj h.uri_lt huri hmore
  rw [List.append_assoc] at hmore
  obtain ⟨-, hmore⟩ := List.append_inj hmore (by simp)
  rw [List.append_assoc, ← List.append_nil (writeString payload')] at hmore
  obtain ⟨-, hmore⟩ := writeString_append_inj h.payload_lt hpayload hmore
  exact (List.append_eq_nil_iff.mp hmore).2

/-- What is accepted is well formed, and no proper part of a packed frame is
accepted. -/
def RoutedSound (data : List UInt8) : Prop :=
  ∀ m, unpackRouted data = some m → RoutedLayout data m ∧
    ∀ packed : Routed, packed.uri.toBytes.length < 2 ^ 32 →
      packed.payload.length < 2 ^ 32 → data <+: packRouted packed →
        data = packRouted packed

def ActorMessageSound (data : List UInt8) : Prop :=
  ∀ m, unpackActorMessage data = some m → ActorMessageLayout data m ∧
    ∀ packed : ActorMessage, packed.uri.toBytes.length < 2 ^ 32 →
      packed.payload.length < 2 ^ 32 → data <+: packActorMessage packed →
        data = packActorMessage packed

def ReplySound (data : List UInt8) : Prop :=
  ∀ msgId payload, unpackReply data = some (msgId, payload) →
    ReplyLayout data msgId payload ∧
      ∀ (msgId : UInt64) (packed : List UInt8), packed.length < 2 ^ 32 →
        data <+: packReply msgId packed → data = packReply msgId packed

def RoutedMisread (data : List UInt8) : Prop :=
  data.head? = some routedType ∧ Misread (data.drop 18)

def ActorMessageMisread (data : List UInt8) : Prop :=
  data.head? = some actorMessageType ∧ Misread (data.drop 1)

/-- Fewer than eight bytes follow the type, and a payload stands in them. -/
def ReplyMisread (data : List UInt8) : Prop :=
  data.head? = some replyType ∧ data.length < 9 ∧ PayloadAt (data.drop 1)

theorem readU8_start {data : List UInt8} {type : UInt8} (htype : type ≠ 0)
    (h : (Reader.readU8 ⟨data, 0⟩).1 = type) : ∃ left, data = type :: left := by
  cases data with
  | nil => exact absurd h.symm htype
  | cons byte left =>
      obtain ⟨r, hread, -⟩ := (Reader.left_start (byte :: left)).readU8
      rw [hread] at h
      exact ⟨left, by rw [← h]⟩

theorem unpackActorMessage_cons (left : List UInt8) :
    ∃ r : Reader, r.Left (actorMessageType :: left) left ∧
      unpackActorMessage (actorMessageType :: left) =
        r.readTarget.map fun (uri, msgType, payload) =>
          ⟨parseUriFromWire uri, msgType, payload⟩ := by
  obtain ⟨r, hread, hr⟩ := (Reader.left_start (actorMessageType :: left)).readU8
  refine ⟨r, hr, ?_⟩
  rw [unpackActorMessage, hread]
  rfl

theorem unpackActorMessage_head {data : List UInt8} {m : ActorMessage}
    (h : unpackActorMessage data = some m) :
    ∃ left, data = actorMessageType :: left := by
  rw [unpackActorMessage] at h
  simp only [Option.ite_none_left_eq_some, ne_eq, Decidable.not_not] at h
  exact readU8_start (by decide) h.1

theorem unpackRouted_cons (flags : UInt8) (msgId sender : UInt64)
    (left : List UInt8) :
    let data := routedType :: flags :: (writeU64 msgId ++ (writeU64 sender ++ left))
    ∃ r : Reader, r.Left data left ∧
      unpackRouted data =
        r.readTarget.map fun (uri, msgHash, payload) =>
          ⟨parseUriFromWire uri, flags, msgId, sender, msgHash, payload⟩ := by
  intro data
  obtain ⟨r, hread, hr⟩ := (Reader.left_start data).readU8
  obtain ⟨r₁, hread₁, hr₁⟩ := hr.readU8
  obtain ⟨r₂, hread₂, hr₂⟩ := hr₁.readU64
  obtain ⟨r₃, hread₃, hr₃⟩ := hr₂.readU64
  refine ⟨r₃, hr₃, ?_⟩
  rw [unpackRouted_eq, hread]
  simp only [ne_eq, not_true_eq_false, if_false, hread₁, hread₂, hread₃]

theorem unpackRouted_head {data : List UInt8} {m : Routed}
    (h : unpackRouted data = some m) : ∃ left, data = routedType :: left := by
  rw [unpackRouted_eq] at h
  simp only [Option.ite_none_left_eq_some, ne_eq, Decidable.not_not] at h
  exact readU8_start (by decide) h.1

/-- The fixed fields of a frame of at least 18 bytes. -/
theorem routed_shape {data : List UInt8} (hhead : data.head? = some routedType)
    (hlength : 18 ≤ data.length) :
    ∃ flags msgId sender, data =
      routedType :: flags :: (writeU64 msgId ++
        (writeU64 sender ++ data.drop 18)) := by
  obtain ⟨left, rfl⟩ := List.head?_eq_some_iff.mp hhead
  cases left with
  | nil => simp at hlength
  | cons flags left =>
      simp only [List.length_cons] at hlength
      obtain ⟨msgId, rest, rfl⟩ := exists_writeU64 (show 8 ≤ left.length by omega)
      rw [List.length_append, length_writeU64] at hlength
      obtain ⟨sender, body, rfl⟩ := exists_writeU64 (show 8 ≤ rest.length by omega)
      refine ⟨flags, msgId, sender, ?_⟩
      rw [← List.append_assoc, List.drop_succ_cons, List.drop_succ_cons,
        List.drop_left' (by simp), List.append_assoc]

theorem unpackReply_cons (left : List UInt8) :
    ∃ r : Reader, r.Left (replyType :: left) left ∧
      unpackReply (replyType :: left) =
        r.readU64.2.readPayload.map fun payload => (r.readU64.1, payload) := by
  obtain ⟨r, hread, hr⟩ := (Reader.left_start (replyType :: left)).readU8
  refine ⟨r, hr, ?_⟩
  rw [unpackReply, hread]
  rfl

theorem unpackReply_head {data : List UInt8} {found : UInt64 × List UInt8}
    (h : unpackReply data = some found) : ∃ left, data = replyType :: left := by
  rw [unpackReply] at h
  simp only [Option.ite_none_left_eq_some, ne_eq, Decidable.not_not] at h
  exact readU8_start (by decide) h.1

theorem actorMessageSound_iff (data : List UInt8) :
    ActorMessageSound data ↔ ¬ ActorMessageMisread data := by
  constructor
  · rintro hsound ⟨hhead, hplace⟩
    obtain ⟨left, rfl⟩ := List.head?_eq_some_iff.mp hhead
    obtain ⟨r, hr, hunpack⟩ := unpackActorMessage_cons left
    obtain ⟨uri, hash, payload, hread⟩ := hr.readTarget_misread hplace
    rw [hread] at hunpack
    obtain ⟨⟨body, uri', hdata, -, hlayout⟩, -⟩ := hsound _ hunpack
    obtain rfl := (List.cons.inj hdata).2
    exact hlayout.not_misread hplace
  · intro hplace m hm
    obtain ⟨left, rfl⟩ := unpackActorMessage_head hm
    obtain ⟨r, hr, hunpack⟩ := unpackActorMessage_cons left
    rw [hunpack] at hm
    obtain ⟨⟨uri, hash, payload⟩, hread, rfl⟩ := Option.map_eq_some_iff.mp hm
    have hlayout := hr.readTarget_layout (fun hmis => hplace ⟨rfl, hmis⟩) hread
    refine ⟨⟨left, uri, rfl, rfl, hlayout⟩, ?_⟩
    rintro packed huri hpayload ⟨more, hmore⟩
    have hpack : packActorMessage packed = actorMessageType ::
        (writeString packed.uri.toBytes ++ (writeU64 packed.msgType ++
          writeString packed.payload)) := by
      simp [packActorMessage, writeString]
    rw [hpack, List.cons_append] at hmore
    obtain rfl := hlayout.complete huri hpayload (List.cons.inj hmore).2
    rw [hpack, ← hmore, List.append_nil]

theorem routedSound_iff (data : List UInt8) :
    RoutedSound data ↔ ¬ RoutedMisread data := by
  constructor
  · rintro hsound ⟨hhead, hplace⟩
    have hlength : 18 ≤ data.length := by
      by_contra hshort
      rw [List.drop_of_length_le (by omega)] at hplace
      obtain ⟨hfour, -⟩ | ⟨hfits, -⟩ := hplace
      · exact absurd hfour (by decide)
      · exact absurd hfits (by decide)
    obtain ⟨flags, msgId, sender, hdata⟩ := routed_shape hhead hlength
    obtain ⟨r, hr, hunpack⟩ := unpackRouted_cons flags msgId sender (data.drop 18)
    obtain ⟨uri, hash, payload, hread⟩ := hr.readTarget_misread hplace
    rw [hread, ← hdata] at hunpack
    obtain ⟨⟨body, uri', hdata', -, hlayout⟩, -⟩ := hsound _ hunpack
    have hbody : data.drop 18 = body := by
      rw [hdata', ← List.append_assoc, List.drop_succ_cons, List.drop_succ_cons,
        List.drop_left' (by simp)]
    rw [hbody] at hplace
    exact hlayout.not_misread hplace
  · intro hplace m hm
    have hlength := unpackRouted_length hm
    obtain ⟨left, hleft⟩ := unpackRouted_head hm
    have hhead : data.head? = some routedType := by rw [hleft]; rfl
    obtain ⟨flags, msgId, sender, hdata⟩ := routed_shape hhead hlength
    obtain ⟨r, hr, hunpack⟩ := unpackRouted_cons flags msgId sender (data.drop 18)
    rw [← hdata, hm, eq_comm] at hunpack
    obtain ⟨⟨uri, hash, payload⟩, hread, rfl⟩ := Option.map_eq_some_iff.mp hunpack
    have hlayout := hr.readTarget_layout (fun hmis => hplace ⟨hhead, hmis⟩) hread
    refine ⟨⟨data.drop 18, uri, hdata, rfl, hlayout⟩, ?_⟩
    rintro packed huri hpayload ⟨more, hmore⟩
    have hpack : packRouted packed = (routedType :: packed.flags ::
        (writeU64 packed.msgId ++ writeU64 packed.senderNodeId)) ++
          (writeString packed.uri.toBytes ++ (writeU64 packed.msgHash ++
            writeString packed.payload)) := by
      simp [packRouted, writeString]
    have hbody : (data.drop 18) ++ more = writeString packed.uri.toBytes ++
        (writeU64 packed.msgHash ++ writeString packed.payload) := by
      have hdrop := congrArg (List.drop 18) hmore
      rwa [List.drop_append_of_le_length hlength, hpack,
        List.drop_left' (by simp)] at hdrop
    obtain rfl := hlayout.complete huri hpayload hbody
    rw [← hmore, List.append_nil]

theorem replySound_iff (data : List UInt8) : ReplySound data ↔
    ¬ ReplyMisread data := by
  constructor
  · rintro hsound ⟨hhead, hshort, hplace⟩
    obtain ⟨left, rfl⟩ := List.head?_eq_some_iff.mp hhead
    rw [List.length_cons] at hshort
    obtain ⟨r, hr, hunpack⟩ := unpackReply_cons left
    obtain ⟨payload, tail, hlt, hne, hleft⟩ := payloadAt_iff.mp hplace
    obtain ⟨hid, hread⟩ := (hr.readTail 0 payload).mpr
      ⟨hlt, hne, by rw [if_neg (by omega)]; exact ⟨rfl, tail, hleft⟩⟩
    rw [hread, hid] at hunpack
    obtain ⟨⟨-, -, rest, hdata⟩, -⟩ := hsound 0 payload hunpack
    have hlength := congrArg List.length hdata
    simp only [List.length_cons, List.length_append, length_writeU64] at hlength
    omega
  · intro hplace msgId payload hm
    obtain ⟨left, rfl⟩ := unpackReply_head hm
    obtain ⟨r, hr, hunpack⟩ := unpackReply_cons left
    rw [hunpack] at hm
    obtain ⟨found, hread, hfound⟩ := Option.map_eq_some_iff.mp hm
    obtain ⟨hid, rfl⟩ := Prod.mk.inj hfound
    obtain ⟨hlt, hne, hrest⟩ := (hr.readTail msgId found).mp ⟨hid, hread⟩
    by_cases hlong : 8 ≤ left.length
    · rw [if_pos hlong] at hrest
      obtain ⟨rest, rfl⟩ := hrest
      refine ⟨⟨hlt, hne, rest, rfl⟩, ?_⟩
      rintro msgId' packed hpacked ⟨more, hmore⟩
      have hpack : packReply msgId' packed =
          replyType :: (writeU64 msgId' ++ (writeString packed ++ [])) := by
        simp [packReply, writeString]
      rw [hpack, List.cons_append, List.append_assoc, List.append_assoc] at hmore
      obtain ⟨hsame, hbody⟩ := List.append_inj (List.cons.inj hmore).2 (by simp)
      obtain ⟨hpayload, hnil⟩ := writeString_append_inj hlt hpacked hbody
      rw [hpack, hsame, hpayload, (List.append_eq_nil_iff.mp hnil).1]
    · rw [if_neg hlong] at hrest
      obtain ⟨-, rest, rfl⟩ := hrest
      refine absurd ⟨rfl, ?_, ?_⟩ hplace
      · rw [List.length_cons]
        omega
      · exact payloadAt_iff.mpr ⟨found, rest, hlt, hne, rfl⟩

/-- The three functions accept only well-formed frames, and no proper part of a
packed one, except where they read from the wrong place. -/
theorem unpack_sound_iff (data : List UInt8) :
    (RoutedSound data ↔ ¬ RoutedMisread data) ∧
      (ActorMessageSound data ↔ ¬ ActorMessageMisread data) ∧
      (ReplySound data ↔ ¬ ReplyMisread data) :=
  ⟨routedSound_iff data, actorMessageSound_iff data, replySound_iff data⟩

/-- Frames cut within the hash or the message id, which are accepted. -/
theorem cutFrames_accepted :
    let uri : ActorUri := ⟨[0x2A], [0x74], [0x6E]⟩
    let routed : Routed := ⟨uri, 0, 1, 1, 0x1AA000000, [7]⟩
    let message : ActorMessage := ⟨uri, 0x1AA000000, [7]⟩
    let routedCut := (packRouted routed).take 40
    let messageCut := (packActorMessage message).take 23
    let replyCut := (packReply 0x1AA000000 [7]).take 6
    (unpackRouted routedCut = some { routed with msgHash := 0, payload := [0xAA] } ∧
      ¬ RoutedSound routedCut) ∧
    (unpackActorMessage messageCut =
        some { message with msgType := 0, payload := [0xAA] } ∧
      ¬ ActorMessageSound messageCut) ∧
    unpackReply replyCut = some (0, [0xAA]) ∧ ¬ ReplySound replyCut := by
  intro uri routed message routedCut messageCut replyCut
  have hrouted : unpackRouted routedCut =
      some { routed with msgHash := 0, payload := [0xAA] } := by decide
  have hmessage : unpackActorMessage messageCut =
      some { message with msgType := 0, payload := [0xAA] } := by decide
  have hreply : unpackReply replyCut = some (0, [0xAA]) := by decide
  refine ⟨⟨hrouted, fun hsound => ?_⟩, ⟨hmessage, fun hsound => ?_⟩,
    hreply, fun hsound => ?_⟩
  · have hwhole := (hsound _ hrouted).2 routed (by decide) (by decide)
      (List.take_prefix 40 _)
    exact absurd hwhole (by decide)
  · have hwhole := (hsound _ hmessage).2 message (by decide) (by decide)
      (List.take_prefix 23 _)
    exact absurd hwhole (by decide)
  · have hwhole := (hsound _ _ hreply).2 0x1AA000000 [7] (by decide)
      (List.take_prefix 6 _)
    exact absurd hwhole (by decide)

end UltraNet
