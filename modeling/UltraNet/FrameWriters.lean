/-
The writers that send a frame without a copy: `write_frame`, `write_frame_raw`
and `write_frame_raw_multi` encode the header and hand the payload to `writev`
as it is.
-/
import UltraNet.FrameEncoding
import UltraNet.InlineAgreement
import UltraNet.Transport

namespace UltraNet

namespace WebSocketFrame

/-- The header as each of the three writers encodes it. -/
def writerHeader (opcode : OpCode) (fin : Bool) (len : Nat) (masked : Bool)
    (key : UInt32) : List UInt8 :=
  let top : Nat := if masked then 0x80 else 0
  UInt8.ofNat ((if fin then 0x80 else 0) ||| (opcode.toNat &&& 0x0F)) ::
    ((if len < 126 then [UInt8.ofNat (len ||| top)]
      else if len ≤ 65535 then
        [UInt8.ofNat (126 ||| top), UInt8.ofNat (len >>> 8), UInt8.ofNat len]
      else
        UInt8.ofNat (127 ||| top) :: [7, 6, 5, 4, 3, 2, 1, 0].map fun i =>
          UInt8.ofNat (len >>> (i * 8))) ++
      if masked then keyField key else [])

end WebSocketFrame

/-- More pieces than this are refused by `writev` with `EINVAL`. -/
def iovMax : Nat := 1024

/-- The loop of `writev_all` that steps over what has been sent. -/
def advanceIov (left : Nat) : List (List UInt8) → List (List UInt8)
  | [] => []
  | iov :: rest =>
      if left = 0 then iov :: rest
      else if left ≥ iov.length then advanceIov (left - iov.length) rest
      else iov.drop left :: rest

theorem flatten_advanceIov (left : Nat) (pending : List (List UInt8)) :
    (advanceIov left pending).flatten = pending.flatten.drop left := by
  induction pending generalizing left with
  | nil => simp [advanceIov]
  | cons iov rest ih =>
      rw [advanceIov, List.flatten_cons]
      by_cases hzero : left = 0
      · rw [if_pos hzero, hzero]
        rfl
      · rw [if_neg hzero]
        by_cases hwhole : left ≥ iov.length
        · rw [if_pos hwhole, ih, List.drop_append, List.drop_eq_nil_of_le hwhole]
          rfl
        · rw [if_neg hwhole, List.flatten_cons,
            List.drop_append_of_le_length (by omega)]

theorem length_advanceIov (left : Nat) (pending : List (List UInt8)) :
    (advanceIov left pending).length ≤ pending.length := by
  induction pending generalizing left with
  | nil => exact Nat.le_refl _
  | cons iov rest ih =>
      rw [advanceIov]
      split
      · exact Nat.le_refl _
      · split
        · exact Nat.le_succ_of_le (ih _)
        · exact Nat.le_refl _

/-- `writev_all`: the bytes that are sent, and whether it returns.  Each call of
`writev` sends at least a byte while there are any; with none left in the
pieces it sends 0 bytes, and that is an error. -/
def writevAll (writes : Chunks) (pending : List (List UInt8)) (count : Nat) :
    List UInt8 × Bool :=
  if pending = [] then ([], true)
  else if iovMax < pending.length then ([], false)
  else if pending.flatten = [] then ([], false)
  else
    let sent := min (writes count : Nat) pending.flatten.length
    let (more, returned) :=
      writevAll writes (advanceIov sent pending) (count + 1)
    (pending.flatten.take sent ++ more, returned)
termination_by pending.flatten.length
decreasing_by
  have := (writes count).pos
  have := List.length_pos_iff.mpr ‹¬ pending.flatten = []›
  rw [flatten_advanceIov, List.length_drop]
  omega

/-- However the writes are cut, all bytes are sent in order. -/
theorem writevAll_sent (writes : Chunks) (pending : List (List UInt8))
    (count : Nat) (hmax : pending.length ≤ iovMax) :
    (writevAll writes pending count).1 = pending.flatten := by
  induction hsize : pending.flatten.length using Nat.strong_induction_on
    generalizing pending count with
  | _ size ih =>
      unfold writevAll
      by_cases hnil : pending = []
      · rw [if_pos hnil, hnil]
        rfl
      · rw [if_neg hnil, if_neg (Nat.not_lt.mpr hmax)]
        by_cases hempty : pending.flatten = []
        · rw [if_pos hempty, hempty]
        · rw [if_neg hempty]
          have hpos := (writes count).pos
          have hlength := List.length_pos_iff.mpr hempty
          have hrest := ih _ ?_
            (advanceIov (min (writes count) pending.flatten.length) pending)
            (count + 1) ((length_advanceIov _ _).trans hmax) rfl
          · simp only [hrest, flatten_advanceIov, List.take_append_drop]
          · rw [flatten_advanceIov, List.length_drop]
            omega

/-- A piece that is not empty stays the last one until it is sent. -/
theorem advanceIov_last {pending : List (List UInt8)} (hlast :
    ∀ iov ∈ pending.getLast?, iov ≠ []) (left : Nat) :
    ∀ iov ∈ (advanceIov left pending).getLast?, iov ≠ [] := by
  induction pending generalizing left with
  | nil => exact hlast
  | cons iov rest ih =>
      rw [advanceIov]
      by_cases hzero : left = 0
      · rwa [if_pos hzero]
      · rw [if_neg hzero]
        have hrest : ∀ other ∈ rest.getLast?, other ≠ [] := by
          intro other hother
          refine hlast other ?_
          rw [List.getLast?_cons]
          rw [Option.mem_def] at hother ⊢
          rw [hother]
          rfl
        by_cases hwhole : left ≥ iov.length
        · rw [if_pos hwhole]
          exact ih hrest _
        · rw [if_neg hwhole]
          intro other hother
          rw [List.getLast?_cons, Option.mem_def, Option.some.injEq] at hother
          cases hend : rest.getLast? with
          | none =>
              rw [hend] at hother
              subst hother
              simp only [Option.getD_none, ne_eq, List.drop_eq_nil_iff]
              omega
          | some last =>
              rw [hend] at hother
              subst hother
              exact hrest last (by rw [hend]; rfl)

/-- `writev_all` returns when the last piece is not empty. -/
theorem writevAll_returned (writes : Chunks) (pending : List (List UInt8))
    (count : Nat) (hmax : pending.length ≤ iovMax)
    (hlast : ∀ iov ∈ pending.getLast?, iov ≠ []) :
    (writevAll writes pending count).2 = true := by
  induction hsize : pending.flatten.length using Nat.strong_induction_on
    generalizing pending count with
  | _ size ih =>
      unfold writevAll
      by_cases hnil : pending = []
      · rw [if_pos hnil]
      · rw [if_neg hnil, if_neg (Nat.not_lt.mpr hmax)]
        have hempty : pending.flatten ≠ [] := by
          intro hempty
          have hmem := List.getLast_mem hnil
          have hiov := List.flatten_eq_nil_iff.mp hempty _ hmem
          exact hlast _ (List.getLast?_eq_some_getLast hnil) hiov
        rw [if_neg hempty]
        have hpos := (writes count).pos
        have hlength := List.length_pos_iff.mpr hempty
        refine ih _ ?_ _ (count + 1) ((length_advanceIov _ _).trans hmax)
          (advanceIov_last hlast _) rfl
        rw [flatten_advanceIov, List.length_drop]
        omega

theorem writevAll_refused (writes : Chunks) {pending : List (List UInt8)}
    (count : Nat) (hmax : iovMax < pending.length) :
    writevAll writes pending count = ([], false) := by
  have hnil : pending ≠ [] := by
    rintro rfl
    exact absurd hmax (by simp)
  unfold writevAll
  rw [if_neg hnil, if_pos hmax]

namespace WebSocketFrame

/-- `write_frame`: the key of the frame goes into the header, the payload is
sent as it is. -/
def writeFrame (masked : Bool) (writes : Chunks) (frame : WebSocketFrame) :
    List UInt8 × Bool :=
  let len := frame.payload.length
  let headerLen := maskedSize len masked - len
  let header :=
    (writerHeader frame.opcode frame.fin len masked frame.maskingKey).take headerLen
  writevAll writes (if 0 < len then [header, frame.payload] else [header]) 0

def writeFrameRaw (masked : Bool) (writes : Chunks) (opcode : OpCode) (fin : Bool)
    (payload : List UInt8) : List UInt8 × Bool :=
  let header := writerHeader opcode fin payload.length masked 0
  writevAll writes (if 0 < payload.length then [header, payload] else [header]) 0

/-- The lengths of the segments add up to `payloadLen`. -/
def writeFrameRawMulti (masked : Bool) (writes : Chunks) (opcode : OpCode)
    (fin : Bool) (segments : List (List UInt8)) (payloadLen : Nat) :
    List UInt8 × Bool :=
  writevAll writes (writerHeader opcode fin payloadLen masked 0 :: segments) 0

theorem writer_second : ∀ (masked : Bool) (short : Fin 128),
    UInt8.ofNat (short ||| if masked then 0x80 else 0) =
      (if masked then 0x80 else 0 : UInt8) ||| UInt8.ofNat short := by
  decide

theorem writer_first : ∀ (fin : Bool) (low : Fin 16),
    decide (UInt8.ofNat ((if fin then 0x80 else 0) ||| low) &&& 0x80 ≠ 0) = fin ∧
      (UInt8.ofNat ((if fin then 0x80 else 0) ||| low) &&& 0x0F).toNat = low := by
  decide

/-- The header has the fields of `encode`. -/
theorem writerHeader_eq (opcode : OpCode) (fin : Bool) (len : Nat)
    (masked : Bool) (key : UInt32) :
    writerHeader opcode fin len masked key =
      UInt8.ofNat ((if fin then 0x80 else 0) ||| (opcode.toNat &&& 0x0F)) ::
        (lengthField len masked ++ if masked then keyField key else []) := by
  have hsecond := fun short hshort => writer_second masked ⟨short, hshort⟩
  simp only at hsecond
  have hlength : (if len < 126 then
        [UInt8.ofNat (len ||| if masked then 0x80 else 0)]
      else if len ≤ 65535 then
        [UInt8.ofNat (126 ||| if masked then 0x80 else 0), UInt8.ofNat (len >>> 8),
          UInt8.ofNat len]
      else
        UInt8.ofNat (127 ||| if masked then 0x80 else 0) ::
          [7, 6, 5, 4, 3, 2, 1, 0].map fun i => UInt8.ofNat (len >>> (i * 8))) =
      lengthField len masked := by
    unfold lengthField
    by_cases hshort : len < 126
    · simp only [if_pos hshort]
      rw [hsecond len (by omega)]
    · by_cases hmiddle : len ≤ 65535
      · simp only [if_neg hshort, if_pos hmiddle]
        rw [hsecond 126 (by decide), ofNat_low]
        rfl
      · simp only [if_neg hshort, if_neg hmiddle]
        rw [hsecond 127 (by decide)]
        rfl
  unfold writerHeader
  simp only [hlength]

theorem length_writerHeader (opcode : OpCode) (fin : Bool) (len : Nat)
    (masked : Bool) (key : UInt32) :
    (writerHeader opcode fin len masked key).length + len =
      maskedSize len masked := by
  rw [writerHeader_eq, lengthField_eq, keyField_eq, maskedSize_eq]
  simp only [List.length_cons, List.length_append, length_beBytes]
  cases masked with
  | true => simp only [if_true, length_beBytes]; omega
  | false => simp only [Bool.false_eq_true, if_false, List.length_nil]; omega

/-- What a peer reads from the header. -/
theorem frameHeader_writerHeader (opcode : OpCode) (fin : Bool) {len : Nat}
    (hlen : len < 2 ^ 63) (masked : Bool) (key : UInt32) (rest : List UInt8) :
    frameHeader (writerHeader opcode fin len masked key ++ rest) =
      some ⟨fin, .ofNat (opcode.toNat % 16), masked, if masked then key else 0,
        (writerHeader opcode fin len masked key).length, len⟩ := by
  have hlow : opcode.toNat &&& 0x0F = opcode.toNat % 16 :=
    Nat.and_two_pow_sub_one_eq_mod _ 4
  obtain ⟨hfin, hopcode⟩ :=
    writer_first fin ⟨opcode.toNat % 16, Nat.mod_lt _ (by decide)⟩
  obtain ⟨hshort, hmask⟩ := second_short masked ⟨_, shortLength_lt len⟩
  simp only at hfin hopcode hshort hmask
  have hbytes := lengthBytes_le (shortLength len)
  have hdeclared : ∀ tail, declaredLength
      (UInt8.ofNat ((if masked then 0x80 else 0) + shortLength len))
      (beBytes (lengthBytes (shortLength len)) len ++ tail) = len := by
    intro tail
    simp only [declaredLength, hshort, List.take_left' (length_beBytes _ _)]
    exact length_eq hlen
  rw [writerHeader_eq, lengthField_eq, keyField_eq, hlow]
  simp only [List.cons_append, List.append_assoc, frameHeader, hshort, hdeclared,
    hfin, hopcode, hmask]
  cases masked with
  | true =>
      have hkey : UInt32.ofNat (beNat (beBytes 4 key.toNat)) = key := by
        have hlt := key.toNat_lt
        rw [beNat_beBytes, Nat.mod_eq_of_lt (by omega), UInt32.ofNat_toNat]
      rw [if_neg (by simp), if_neg (by simp), List.drop_left' (length_beBytes _ _)]
      simp only [if_true, List.take_left' (length_beBytes _ _), hkey,
        List.length_cons, List.length_append, length_beBytes]
      congr 2
      omega
  | false =>
      rw [if_pos rfl, if_neg (by simp)]
      simp only [Bool.false_eq_true, if_false, List.length_cons,
        List.length_append, length_beBytes, List.length_nil]
      congr 2
      omega

/-- A header and a body of the length that it announces. -/
theorem decode_writerHeader (opcode : OpCode) (fin : Bool) (masked : Bool)
    (key : UInt32) {body : List UInt8} (hbody : body.length < 2 ^ 63) :
    decode (writerHeader opcode fin body.length masked key ++ body) =
      .frame ⟨fin, .ofNat (opcode.toNat % 16), masked, if masked then key else 0,
          if masked then applyMask key body else body⟩
        (writerHeader opcode fin body.length masked key ++ body).length := by
  have hheader := frameHeader_writerHeader opcode fin hbody masked key body
  have hsize : FrameHeader.size ⟨fin, .ofNat (opcode.toNat % 16), masked,
      if masked then key else 0,
      (writerHeader opcode fin body.length masked key).length,
        body.length⟩ < 2 ^ 64 := by
    have hlength := length_writerHeader opcode fin body.length masked key
    have hbytes := lengthBytes_le (shortLength body.length)
    rw [maskedSize_eq] at hlength
    simp only [FrameHeader.size]
    split at hlength <;> omega
  rw [decode_of_header hheader hsize]
  simp only [FrameHeader.size, List.length_append, Nat.lt_irrefl, if_false]
  congr 1
  simp only [FrameHeader.frame, FrameHeader.payload, List.drop_left,
    List.take_length]
  cases masked <;> rfl

end WebSocketFrame

/-- The bytes are one frame with these fields. -/
def IsFrame (bytes : List UInt8) (opcode : OpCode) (fin : Bool)
    (payload : List UInt8) : Prop :=
  ∃ frame, WebSocketFrame.decode bytes = .frame frame bytes.length ∧
    frame.fin = fin ∧ frame.opcode = opcode ∧ frame.payload = payload

namespace WebSocketFrame

theorem isFrame_writerHeader (opcode : OpCode) (fin : Bool) (masked : Bool)
    (key : UInt32) {body : List UInt8} (hbody : body.length < 2 ^ 63) :
    IsFrame (writerHeader opcode fin body.length masked key ++ body) opcode fin
        body ↔
      OpCode.ofNat (opcode.toNat % 16) = opcode ∧
        (masked = true → applyMask key body = body) := by
  have hdecode := decode_writerHeader opcode fin masked key hbody
  constructor
  · rintro ⟨frame, hframe, -, hopcode, hpayload⟩
    rw [hdecode] at hframe
    cases hframe
    refine ⟨hopcode, ?_⟩
    rintro rfl
    exact hpayload
  · rintro ⟨hopcode, hpayload⟩
    refine ⟨_, hdecode, rfl, hopcode, ?_⟩
    cases masked with
    | true => exact hpayload rfl
    | false => rfl

/-- The key changes no byte exactly if its bytes are 0 as far as they are
used. -/
theorem applyMask_eq_self_iff (key : UInt32) (payload : List UInt8) :
    applyMask key payload = payload ↔ ∀ i < payload.length, maskByte key i = 0 := by
  constructor
  · intro hsame i hi
    have hbyte := congrArg (fun bytes => bytes[i]?) hsame
    simp only [applyMask, List.getElem?_mapIdx, List.getElem?_eq_getElem hi,
      Option.map_some, Option.some.injEq] at hbyte
    have hxor : payload[i] ^^^ (payload[i] ^^^ maskByte key i) =
        payload[i] ^^^ payload[i] := by rw [hbyte]
    rwa [← UInt8.xor_assoc, UInt8.xor_self, UInt8.zero_xor] at hxor
  · intro hzero
    apply List.ext_getElem?
    intro i
    simp only [applyMask, List.getElem?_mapIdx]
    by_cases hi : i < payload.length
    · rw [List.getElem?_eq_getElem hi, Option.map_some, hzero i hi, UInt8.xor_zero]
    · rw [List.getElem?_eq_none (Nat.le_of_not_lt hi)]
      rfl

theorem writevAll_pieces (writes : Chunks) (header payload : List UInt8) :
    (writevAll writes (if 0 < payload.length then [header, payload] else [header])
        0).1 = header ++ payload := by
  by_cases hpayload : 0 < payload.length
  · rw [if_pos hpayload, writevAll_sent _ _ _ (by simp [iovMax])]
    simp
  · have hempty := List.length_eq_zero_iff.mp (Nat.eq_zero_of_not_pos hpayload)
    rw [if_neg hpayload, writevAll_sent _ _ _ (by simp [iovMax]), hempty]
    simp

theorem writeFrame_sent (masked : Bool) (writes : Chunks) (frame : WebSocketFrame) :
    (writeFrame masked writes frame).1 =
      writerHeader frame.opcode frame.fin frame.payload.length masked
        frame.maskingKey ++ frame.payload := by
  have hlength := length_writerHeader frame.opcode frame.fin frame.payload.length
    masked frame.maskingKey
  unfold writeFrame
  simp only [← hlength, Nat.add_sub_cancel, List.take_length, writevAll_pieces]

theorem writeFrameRaw_sent (masked : Bool) (writes : Chunks) (opcode : OpCode)
    (fin : Bool) (payload : List UInt8) :
    (writeFrameRaw masked writes opcode fin payload).1 =
      writerHeader opcode fin payload.length masked 0 ++ payload :=
  writevAll_pieces writes _ payload

theorem writeFrameRawMulti_sent (masked : Bool) (writes : Chunks)
    (opcode : OpCode) (fin : Bool) {segments : List (List UInt8)}
    (hsegments : segments.length < iovMax) :
    (writeFrameRawMulti masked writes opcode fin segments
        segments.flatten.length).1 =
      writerHeader opcode fin segments.flatten.length masked 0 ++
        segments.flatten := by
  unfold writeFrameRawMulti
  rw [writevAll_sent _ _ _ (by rw [List.length_cons]; exact hsegments),
    List.flatten_cons]

/-- Without a mask and with an opcode of four bits it is what `encode`
writes. -/
theorem writerHeader_unmasked (frame : WebSocketFrame)
    (hopcode : frame.opcode.toNat < 16) (key random : UInt32) :
    writerHeader frame.opcode frame.fin frame.payload.length false key ++
      frame.payload = frame.encode false random := by
  have hlow : frame.opcode.toNat &&& 0x0F = frame.opcode.toNat % 16 :=
    Nat.and_two_pow_sub_one_eq_mod _ 4
  have hlength := length_writerHeader frame.opcode frame.fin frame.payload.length
    false key
  rw [writerHeader_eq, hlow, Nat.mod_eq_of_lt hopcode] at hlength ⊢
  have hwritten : (frame.encodeInto (maskedSize frame.payload.length false) false
      random).length = maskedSize frame.payload.length false := by
    rw [encodeInto, if_neg (Nat.lt_irrefl _)]
    simp only [List.length_cons, List.length_append, Bool.false_eq_true,
      if_false] at hlength ⊢
    simpa [Nat.add_right_comm] using hlength
  rw [encode, hwritten, Nat.sub_self, encodeInto, if_neg (Nat.lt_irrefl _)]
  simp

theorem toNat_lt_of_ofNat {opcode : OpCode}
    (hopcode : OpCode.ofNat (opcode.toNat % 16) = opcode) : opcode.toNat < 16 := by
  have hsmall : ∀ low : Fin 16, (OpCode.ofNat low).toNat = low := by decide
  have hlow := hsmall ⟨opcode.toNat % 16, Nat.mod_lt _ (by decide)⟩
  simp only at hlow
  rw [hopcode] at hlow
  omega

end WebSocketFrame

open WebSocketFrame in
/-- What the three writers send for the same frame decodes to it, and without a
mask it is what `encode` writes. -/
def WritersRight (masked : Bool) (writes : Chunks) (frame : WebSocketFrame)
    (segments : List (List UInt8)) : Prop :=
  let sent := [(writeFrame masked writes frame).1,
    (writeFrameRaw masked writes frame.opcode frame.fin frame.payload).1,
    (writeFrameRawMulti masked writes frame.opcode frame.fin segments
      segments.flatten.length).1]
  (∀ bytes ∈ sent, IsFrame bytes frame.opcode frame.fin frame.payload) ∧
    (masked = false → ∀ bytes ∈ sent, ∀ random, bytes = frame.encode false random)

open WebSocketFrame in
/-- They are right exactly if the opcode has four bits, the segments fit one
call of `writev`, and the key of a masked connection changes no byte. -/
theorem writers_right_iff (masked : Bool) (writes : Chunks) (frame : WebSocketFrame)
    (segments : List (List UInt8)) (hsegments : segments.flatten = frame.payload)
    (hlength : frame.payload.length < 2 ^ 63) :
    WritersRight masked writes frame segments ↔
      OpCode.ofNat (frame.opcode.toNat % 16) = frame.opcode ∧
        segments.length < iovMax ∧
        (masked = true →
          ∀ i < frame.payload.length, maskByte frame.maskingKey i = 0) := by
  unfold WritersRight
  simp only [List.forall_mem_cons, List.not_mem_nil, false_imp_iff, implies_true,
    and_true]
  constructor
  · rintro ⟨⟨hframe, -, hmulti⟩, -⟩
    rw [writeFrame_sent, isFrame_writerHeader _ _ _ _ hlength] at hframe
    refine ⟨hframe.1, ?_, fun hmasked => ?_⟩
    · by_contra hmany
      have hpieces : iovMax < (writerHeader frame.opcode frame.fin
          segments.flatten.length masked 0 :: segments).length := by
        rw [List.length_cons]
        omega
      have hrefused := writevAll_refused writes 0 hpieces
      rw [writeFrameRawMulti, hrefused] at hmulti
      obtain ⟨found, hfound, -⟩ := hmulti
      cases hfound
    · exact (applyMask_eq_self_iff _ _).mp (hframe.2 hmasked)
  · rintro ⟨hopcode, hsmall, hkey⟩
    have hzero : masked = true → applyMask 0 frame.payload = frame.payload :=
      fun _ => applyMask_zero _
    rw [writeFrame_sent, writeFrameRaw_sent, writeFrameRawMulti_sent _ _ _ _ hsmall,
      hsegments]
    simp only [isFrame_writerHeader _ _ _ _ hlength]
    refine ⟨⟨⟨hopcode, ?_⟩, ⟨hopcode, hzero⟩, hopcode, hzero⟩, ?_⟩
    · intro hmasked
      exact (applyMask_eq_self_iff _ _).mpr (hkey hmasked)
    · rintro rfl
      have hfour := toNat_lt_of_ofNat hopcode
      exact ⟨writerHeader_unmasked frame hfour _,
        writerHeader_unmasked frame hfour _,
        writerHeader_unmasked frame hfour _⟩

open WebSocketFrame in
theorem writers_right_iff_hello :
    WritersRight false (fun _ => 1) hello [[0x68], [], [0x69]] := by
  refine (writers_right_iff false _ hello _ rfl (by decide)).mpr ?_
  decide

open WebSocketFrame in
/-- The key of the frame is announced, and the payload is not masked with it:
the peer reads other bytes. -/
theorem announcedKey_garbles :
    (writeFrame true (fun _ => 1) ⟨true, .text, true, 0x01020304, [0x68, 0x69]⟩).1 =
        [0x81, 0x82, 1, 2, 3, 4, 0x68, 0x69] ∧
      decodeFrame [0x81, 0x82, 1, 2, 3, 4, 0x68, 0x69] =
        some (⟨true, .text, true, 0x01020304, [0x69, 0x6B]⟩, 8) ∧
      ¬ WritersRight true (fun _ => 1) ⟨true, .text, true, 0x01020304, [0x68, 0x69]⟩
        [[0x68, 0x69]] := by
  refine ⟨?_, by decide, ?_⟩
  · rw [writeFrame_sent]
    decide
  · intro hright
    have hframe := hright.1 _ List.mem_cons_self
    rw [writeFrame_sent, isFrame_writerHeader _ _ _ _ (by decide)] at hframe
    exact absurd (hframe.2 rfl) (by decide)

end UltraNet
