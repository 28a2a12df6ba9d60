/-
One damaged byte in a framed log.  With a checksum that sees every change of a
single byte the scan stops at the damaged frame, as long as the sizes it works
with have not wrapped.
-/
import UltraNet.Crc32
import UltraNet.LogScans

namespace UltraNet

theorem readLeU32_append {bytes : List UInt8} (hbytes : 4 ≤ bytes.length)
    (rest : List UInt8) : readLeU32 (bytes ++ rest) = readLeU32 bytes := by
  rw [readLeU32, readLeU32, List.take_append_of_le_length hbytes]

theorem readLeU32_injective {first second : List UInt8} (hfirst : first.length = 4)
    (hsecond : second.length = 4) (hsame : readLeU32 first = readLeU32 second) :
    first = second := by
  have hread₁ := leBytes_readLeU32 hfirst.ge
  have hread₂ := leBytes_readLeU32 hsecond.ge
  rw [List.take_of_length_le hfirst.le] at hread₁
  rw [List.take_of_length_le hsecond.le] at hread₂
  rw [← hread₁, hsame, hread₂]

namespace FrameFormat

variable {F : FrameFormat}

/-- What `parse` makes of a whole record, whose sizes may wrap. -/
theorem parse_layout {magic head sum : List UInt8}
    (hmagic : magic.length = F.magic.length) (hhead : head.length = F.headSize)
    (hsum : sum.length = 4) (body rest : List UInt8) :
    F.parse (magic ++ (Frame.covered ⟨head, body⟩ ++ (sum ++ rest))) =
      if magic ≠ F.magic then .bad
      else if F.checksum ((Frame.covered ⟨head, body⟩).take
            ((F.headSize + 4 + body.length) % 2 ^ 32)) ≠
          readLeU32 ((body ++ (sum ++ rest)).drop (body.length % 2 ^ 32)) then .bad
      else .frame ⟨head, body.take (body.length % 2 ^ 32)⟩
        ((F.overhead + body.length) % 2 ^ 32) := by
  have hcovered : (Frame.covered ⟨head, body⟩).length =
      F.headSize + 4 + body.length := by
    simp [Frame.covered, hhead, Nat.add_assoc]
  have hlength : (magic ++ (Frame.covered ⟨head, body⟩ ++ (sum ++ rest))).length =
      F.overhead + body.length + rest.length := by
    simp only [List.length_append, hmagic, hcovered, hsum, overhead]
    omega
  have hlong : ¬ F.overhead + body.length + rest.length < F.overhead := by omega
  by_cases hsame : magic = F.magic
  · subst hsame
    obtain ⟨htake, hlen, hfield, hdrop, -, -⟩ :=
      parse_fields (show (Frame.mk head body).head.length = F.headSize from hhead)
        (sum ++ rest)
    rw [List.append_assoc] at htake hlen hfield hdrop
    have hbody : (UInt32.ofNat body.length).toNat = body.length % 2 ^ 32 :=
      UInt32.toNat_ofNat'
    have hwrap : ∀ size : Nat, (UInt32.ofNat size + UInt32.ofNat body.length).toNat =
        (size + body.length) % 2 ^ 32 := by
      intro size
      rw [UInt32.toNat_add, UInt32.toNat_ofNat', UInt32.toNat_ofNat', ← Nat.add_mod]
    have hsmall := Nat.mod_le body.length (2 ^ 32)
    have hsize := Nat.mod_le (F.overhead + body.length) (2 ^ 32)
    have hcov := Nat.mod_le (F.headSize + 4 + body.length) (2 ^ 32)
    have hcover' : ((F.magic ++ (Frame.covered ⟨head, body⟩ ++ (sum ++ rest))).drop
        F.magic.length).take ((F.headSize + 4 + body.length) % 2 ^ 32) =
          (Frame.covered ⟨head, body⟩).take
            ((F.headSize + 4 + body.length) % 2 ^ 32) := by
      rw [List.drop_left, List.take_append_of_le_length
        (by rw [hcovered]; exact hcov)]
    simp only [parse, htake, hlen, hbody, hwrap, hfield, hdrop, hcover', hlength,
      ← List.drop_drop, if_neg hlong]
    rw [if_neg (by simp), if_neg (by omega), if_neg (by omega),
      List.take_append_of_le_length hsmall]
    simp only [ne_eq, not_true_eq_false, if_false]
  · have htake : (magic ++ (Frame.covered ⟨head, body⟩ ++ (sum ++ rest))).take
        F.magic.length = magic := by
      rw [← hmagic]
      exact List.take_left
    simp only [parse, hlength, if_neg hlong, htake, ne_eq, hsame, not_false_eq_true,
      if_true]

theorem parse_advance {bytes : List UInt8} {frame : Frame} {advance : Nat}
    (hparse : F.parse bytes = .frame frame advance) :
    advance = (F.overhead + frame.body.length) % 2 ^ 32 ∧
      F.overhead + frame.body.length ≤ bytes.length := by
  simp only [parse] at hparse
  generalize readLeU32 ((bytes.drop F.magic.length).drop F.headSize) =
    bodyLen at hparse
  split_ifs at hparse with hshort hmagic hsize hfits hsum
  obtain ⟨rfl, rfl⟩ := Parsed.frame.inj hparse
  have hbody : (((bytes.drop F.magic.length).drop (F.headSize + 4)).take
      bodyLen.toNat).length = bodyLen.toNat := by
    simp only [List.length_take, List.length_drop, overhead] at hfits ⊢
    omega
  dsimp only
  rw [hbody, UInt32.toNat_add, UInt32.toNat_ofNat']
  have hlt := bodyLen.toNat_lt
  exact ⟨by omega, Nat.not_lt.mp hfits⟩

/-- The scan loop reads these frames and is then at the last bytes. -/
inductive Walks (step : List UInt8 → Parsed) :
    List UInt8 → List Frame → List UInt8 → Prop where
  | done (bytes : List UInt8) : Walks step bytes [] bytes
  | next {bytes : List UInt8} {frame : Frame} {advance : Nat} {frames : List Frame}
      {rest : List UInt8} (hstep : step bytes = .frame frame advance)
      (hrest : Walks step (bytes.drop advance) frames rest) :
      Walks step bytes (frame :: frames) rest

/-- The loop ends at this offset because the record there is bad. -/
structure StopsAt (F : FrameFormat) (bytes : List UInt8) (frames : List Frame)
    (offset : Nat) : Prop where
  walks : Walks F.parse bytes frames (bytes.drop offset)
  inside : offset < bytes.length
  bad : F.parse (bytes.drop offset) = .bad

/-- One byte of the record, outside its length field, gets another value. -/
structure Damage (F : FrameFormat) (frame : Frame) (j : Nat) (byte : UInt8) :
    Prop where
  inside : j < (F.encode frame).length
  outside : j < F.magic.length + F.headSize ∨ F.magic.length + F.headSize + 4 ≤ j
  differs : (F.encode frame)[j]? ≠ some byte

/-- The damage is seen: the sizes that the checksum is taken with have not
wrapped, or the magic is damaged, or the part that the checksum is then taken
of does not match the four bytes that are then read. -/
def Shielded (F : FrameFormat) (frame : Frame) (j : Nat) (byte : UInt8) : Prop :=
  let damaged := ((F.encode frame).set j byte).drop F.magic.length
  F.headSize + 4 + frame.body.length < 2 ^ 32 ∨ j < F.magic.length ∨
    F.checksum (damaged.take ((F.headSize + 4 + frame.body.length) % 2 ^ 32)) ≠
      readLeU32 (damaged.drop (F.headSize + 4 + frame.body.length % 2 ^ 32))

/-- Every step goes forward by its wrapped size. -/
theorem Walks.length {bytes rest : List UInt8} {frames : List Frame}
    (h : Walks F.parse bytes frames rest) :
    rest.length + (frames.map fun frame =>
      (F.overhead + frame.body.length) % 2 ^ 32).sum = bytes.length := by
  induction h with
  | done bytes => simp
  | @next bytes frame advance frames rest hstep hrest ih =>
      obtain ⟨rfl, hsize⟩ := parse_advance hstep
      have hwrap := Nat.mod_le (F.overhead + frame.body.length) (2 ^ 32)
      rw [List.length_drop] at ih
      rw [List.map_cons, List.sum_cons]
      omega

/-- Wrapped sizes add up to the whole only if none has wrapped. -/
theorem forall_lt_of_sum_mod {sizes : List Nat} {bound : Nat} (hbound : 0 < bound)
    (hsum : (sizes.map (· % bound)).sum = sizes.sum) :
    ∀ size ∈ sizes, size < bound := by
  have hle : ∀ sizes : List Nat, (sizes.map (· % bound)).sum ≤ sizes.sum := by
    intro sizes
    induction sizes with
    | nil => exact Nat.zero_le _
    | cons size sizes ih =>
        have hsize := Nat.mod_le size bound
        rw [List.map_cons, List.sum_cons, List.sum_cons]
        omega
  induction sizes with
  | nil => exact fun _ h => absurd h List.not_mem_nil
  | cons size sizes ih =>
      have hsize := Nat.mod_le size bound
      have hrest := hle sizes
      rw [List.map_cons, List.sum_cons, List.sum_cons] at hsum
      intro other hother
      obtain rfl | hother := List.mem_cons.mp hother
      · have heq : other % bound = other := by omega
        rw [← heq]
        exact Nat.mod_lt _ hbound
      · exact ih (by omega) other hother

theorem length_encodeAll_eq {frames : List Frame}
    (hheads : ∀ frame ∈ frames, frame.head.length = F.headSize) :
    (F.encodeAll frames).length =
      (frames.map fun frame => F.overhead + frame.body.length).sum := by
  induction frames with
  | nil => rfl
  | cons frame frames ih =>
      have hrest := ih fun other hother =>
          hheads other (List.mem_cons_of_mem _ hother)
      rw [encodeAll_cons, List.length_append,
        length_encode (hheads frame List.mem_cons_self), hrest, List.map_cons,
        List.sum_cons]

/-- A walk over the whole length of some frames is only possible if their sizes
do not wrap. -/
theorem Walks.fits {bytes rest : List UInt8} {frames : List Frame}
    (h : Walks F.parse bytes frames rest)
    (hheads : ∀ frame ∈ frames, frame.head.length = F.headSize)
    (hrest : rest.length + (F.encodeAll frames).length = bytes.length) :
    ∀ frame ∈ frames, F.overhead + frame.body.length < 2 ^ 32 := by
  have hlength := h.length
  rw [length_encodeAll_eq hheads] at hrest
  have hsum : ((frames.map fun frame => F.overhead + frame.body.length).map
      (· % 2 ^ 32)).sum =
        (frames.map fun frame => F.overhead + frame.body.length).sum := by
    rw [List.map_map]
    simp only [Function.comp_def]
    omega
  intro frame hframe
  exact forall_lt_of_sum_mod (by decide) hsum _ (List.mem_map_of_mem hframe)

theorem walks_encodeAll {frames : List Frame}
    (hfits : ∀ frame ∈ frames, F.Fits frame) (rest : List UInt8) :
    Walks F.parse (F.encodeAll frames ++ rest) frames rest := by
  induction frames with
  | nil => exact .done rest
  | cons frame frames ih =>
      have hframe := parse_encode (hfits frame List.mem_cons_self)
        (F.encodeAll frames ++ rest)
      rw [encodeAll_cons, List.append_assoc]
      refine .next hframe ?_
      rw [List.drop_left]
      exact ih fun other hother => hfits other (List.mem_cons_of_mem _ hother)

theorem set_split {bytes : List UInt8} {i : Nat} {byte : UInt8}
    (hi : i < bytes.length)
    (hdiffers : bytes[i]? ≠ some byte) :
    ∃ first old last, old ≠ byte ∧ bytes = first ++ old :: last ∧
      bytes.set i byte = first ++ byte :: last := by
  refine ⟨bytes.take i, bytes[i], bytes.drop (i + 1), ?_, ?_, ?_⟩
  · intro hsame
    rw [List.getElem?_eq_getElem hi, hsame] at hdiffers
    exact hdiffers rfl
  · rw [← List.drop_eq_getElem_cons hi, List.take_append_drop]
  · exact List.set_eq_take_append_cons_drop.trans (if_pos hi)

/-- A changed byte of a record changes its magic, or one byte under the
checksum, or the checksum. -/
theorem Damage.shape {frame : Frame} {j : Nat} {byte : UInt8}
    (h : F.Damage frame j byte) (hhead : frame.head.length = F.headSize) :
    ∃ magic head body sum, magic.length = F.magic.length ∧
      head.length = F.headSize ∧ body.length = frame.body.length ∧ sum.length = 4 ∧
      (F.encode frame).set j byte =
        magic ++ (Frame.covered ⟨head, body⟩ ++ sum) ∧
      (j < F.magic.length ↔ magic ≠ F.magic) ∧
      (magic = F.magic →
        (∃ first last old, old ≠ byte ∧ frame.covered = first ++ old :: last ∧
          Frame.covered ⟨head, body⟩ = first ++ byte :: last ∧
          readLeU32 sum = F.checksum frame.covered) ∨
        Frame.covered ⟨head, body⟩ = frame.covered ∧
          readLeU32 sum ≠ F.checksum frame.covered) := by
  obtain ⟨hinside, houtside, hdiffers⟩ := h
  let len := leBytes 4 frame.body.length
  let sum := leBytes 4 (F.checksum frame.covered).toNat
  have hlen : len.length = 4 := length_leBytes 4 _
  have hsum : sum.length = 4 := length_leBytes 4 _
  have hread : readLeU32 sum = F.checksum frame.covered := by
    have hvalue := readLeU32_leBytes (F.checksum frame.covered).toNat []
    rwa [List.append_nil, UInt32.ofNat_toNat] at hvalue
  have hcovered : frame.covered = frame.head ++ (len ++ frame.body) := by
    simp [Frame.covered, len]
  have hencode : F.encode frame =
      F.magic ++ (frame.head ++ (len ++ (frame.body ++ sum))) := by
    simp [encode, hcovered, sum]
  have hlength := length_encode (F := F) hhead
  rw [overhead] at hlength
  rw [hencode] at hdiffers
  by_cases hmagic : j < F.magic.length
  · -- the magic
    rw [List.getElem?_append_left hmagic] at hdiffers
    have hne : F.magic.set j byte ≠ F.magic := by
      intro hsame
      rw [← hsame, List.getElem?_set_self hmagic] at hdiffers
      exact hdiffers rfl
    refine ⟨F.magic.set j byte, frame.head, frame.body, sum,
      by simp, hhead, rfl, hsum,
      ?_, iff_of_true hmagic hne, fun hsame => absurd hsame hne⟩
    rw [hencode, List.set_append_left _ _ hmagic]
    simp [Frame.covered, len]
  have hmagic' := Nat.not_lt.mp hmagic
  rw [List.getElem?_append_right hmagic'] at hdiffers
  generalize hi : j - F.magic.length = i at hdiffers
  have hset : (F.encode frame).set j byte = F.magic ++
      (frame.head ++ (len ++ (frame.body ++ sum))).set i byte := by
    rw [hencode, List.set_append_right _ _ hmagic', hi]
  by_cases hfirst : i < frame.head.length
  · -- the type and the ids
    rw [List.getElem?_append_left hfirst] at hdiffers
    obtain ⟨first, old, last, hne, hold, hnew⟩ := set_split hfirst hdiffers
    refine ⟨F.magic, frame.head.set i byte, frame.body, sum,
      rfl, by simp [hhead], rfl,
      hsum, ?_, iff_of_false hmagic (by simp), fun _ => .inl
        ⟨first, last ++ (len ++ frame.body), old, hne, ?_, ?_, hread⟩⟩
    · rw [hset, List.set_append_left _ _ hfirst]
      simp [Frame.covered, len]
    · rw [hcovered, hold]
      simp
    · rw [Frame.covered, hnew]
      simp [len]
  have hfirst' := Nat.not_lt.mp hfirst
  have hafter : 4 ≤ i - frame.head.length := by omega
  rw [List.getElem?_append_right hfirst',
    List.getElem?_append_right (by rw [hlen]; exact hafter)] at hdiffers
  generalize hk : i - frame.head.length - len.length = k at hdiffers
  have hset' : (frame.head ++ (len ++ (frame.body ++ sum))).set i byte =
      frame.head ++ (len ++ (frame.body ++ sum).set k byte) := by
    rw [List.set_append_right _ _ hfirst',
      List.set_append_right _ _ (by rw [hlen]; exact hafter), hk]
  by_cases hsecond : k < frame.body.length
  · -- the body
    rw [List.getElem?_append_left hsecond] at hdiffers
    obtain ⟨first, old, last, hne, hold, hnew⟩ := set_split hsecond hdiffers
    refine ⟨F.magic, frame.head, frame.body.set k byte, sum, rfl,
      hhead, by simp, hsum,
      ?_, iff_of_false hmagic (by simp), fun _ => .inl
        ⟨frame.head ++ (len ++ first), last, old, hne, ?_, ?_, hread⟩⟩
    · rw [hset, hset', List.set_append_left _ _ hsecond]
      simp [Frame.covered, len]
    · rw [hcovered, hold]
      simp
    · rw [Frame.covered]
      dsimp only
      rw [List.length_set, hnew]
      simp [len]
  · -- the checksum
    have hsecond' := Nat.not_lt.mp hsecond
    rw [List.getElem?_append_right hsecond'] at hdiffers
    have hlast : k - frame.body.length < sum.length := by
      rw [hsum]
      omega
    refine ⟨F.magic, frame.head, frame.body,
      sum.set (k - frame.body.length) byte, rfl,
      hhead, rfl, by simp [hsum], ?_, iff_of_false hmagic (by simp),
      fun _ => .inr ⟨rfl, fun hsame => ?_⟩⟩
    · rw [hset, hset', List.set_append_right _ _ hsecond']
      simp [Frame.covered, len]
    · rw [← hread] at hsame
      have hbytes := readLeU32_injective (by simp [hsum]) hsum hsame
      rw [← hbytes, List.getElem?_set_self hlast] at hdiffers
      exact hdiffers rfl

/-- The damaged record is bad exactly if the damage is seen. -/
theorem Damage.parse_eq_bad {frame : Frame} {j : Nat} {byte : UInt8}
    (h : F.Damage frame j byte) (hhead : frame.head.length = F.headSize)
    (hdetects : ∀ (first last : List UInt8) {old new : UInt8}, old ≠ new →
      F.checksum (first ++ old :: last) ≠ F.checksum (first ++ new :: last))
    (rest : List UInt8) :
    F.parse ((F.encode frame).set j byte ++ rest) = .bad ↔
      F.Shielded frame j byte := by
  obtain ⟨magic, head, body, sum, hmagic, hhead', hbody, hsum, hset,
      hfirst, hseen⟩ :=
    h.shape hhead
  have hcovered : (Frame.covered ⟨head, body⟩).length =
      F.headSize + 4 + body.length := by
    simp [Frame.covered, hhead', Nat.add_assoc]
  have hcov := Nat.mod_le (F.headSize + 4 + frame.body.length) (2 ^ 32)
  have hsmall := Nat.mod_le frame.body.length (2 ^ 32)
  -- the bytes after the magic, as the condition has them
  have hdrop : ((F.encode frame).set j byte).drop F.magic.length =
      Frame.covered ⟨head, body⟩ ++ sum := by
    rw [hset, ← hmagic, List.drop_left]
  have hshape : Frame.covered ⟨head, body⟩ ++ sum =
      (head ++ leBytes 4 body.length) ++ (body ++ sum) := by
    simp [Frame.covered]
  have htake : (Frame.covered ⟨head, body⟩ ++ sum).take
      ((F.headSize + 4 + frame.body.length) % 2 ^ 32) =
        (Frame.covered ⟨head, body⟩).take
          ((F.headSize + 4 + frame.body.length) % 2 ^ 32) :=
    List.take_append_of_le_length (by rw [hcovered, hbody]; exact hcov)
  have hread : readLeU32 ((Frame.covered ⟨head, body⟩ ++ sum).drop
      (F.headSize + 4 + frame.body.length % 2 ^ 32)) =
        readLeU32 ((body ++ (sum ++ rest)).drop (frame.body.length % 2 ^ 32)) := by
    have hbefore : frame.body.length % 2 ^ 32 ≤ (body ++ sum).length := by
      rw [List.length_append, hbody]
      omega
    rw [hshape, ← List.drop_drop, List.drop_left' (by simp [hhead']),
      ← List.append_assoc, List.drop_append_of_le_length hbefore]
    apply (readLeU32_append _ rest).symm
    rw [List.length_drop, List.length_append, hbody, hsum]
    omega
  have hparse := parse_layout hmagic hhead' hsum body rest
  rw [hbody] at hparse
  rw [hset, List.append_assoc, List.append_assoc, hparse, Shielded, hdrop,
    htake, hread]
  by_cases hsame : magic = F.magic
  · have hj : ¬ j < F.magic.length := fun hlt => hfirst.mp hlt hsame
    rw [if_neg (by simpa using hsame)]
    simp only [hj, false_or]
    constructor
    · intro hbad
      right
      intro heq
      rw [if_neg (by simpa using heq)] at hbad
      exact absurd hbad (by simp)
    · rintro (hfits | hne)
      · refine if_pos ?_
        have hless : frame.body.length < 2 ^ 32 := by omega
        rw [Nat.mod_eq_of_lt hfits, Nat.mod_eq_of_lt hless, ← hbody, List.drop_left,
          readLeU32_append (by omega), ← hcovered, List.take_length]
        obtain ⟨first, last, old, hne, hold, hnew, hvalue⟩ | ⟨hkept, hvalue⟩ :=
          hseen hsame
        · rw [hvalue, hold, hnew]
          exact (hdetects first last hne).symm
        · rw [hkept]
          exact hvalue.symm
      · exact if_pos hne
  · rw [if_pos hsame]
    exact iff_of_true rfl (.inr (.inl (hfirst.mpr hsame)))

/-- The scan stops at the damaged record exactly if the records before it have
sizes that do not wrap and the damage is seen. -/
theorem stopsAt_iff {before after : List Frame} {frame : Frame} {j : Nat}
    {byte : UInt8} (h : F.Damage frame j byte)
    (hheads : ∀ other ∈ before ++ frame :: after, other.head.length = F.headSize)
    (hdetects : ∀ (first last : List UInt8) {old new : UInt8}, old ≠ new →
      F.checksum (first ++ old :: last) ≠ F.checksum (first ++ new :: last)) :
    F.StopsAt ((F.encodeAll (before ++ frame :: after)).set
        ((F.encodeAll before).length + j) byte) before (F.encodeAll before).length ↔
      (∀ other ∈ before, F.overhead + other.body.length < 2 ^ 32) ∧
        F.Shielded frame j byte := by
  have hbefore : ∀ other ∈ before, other.head.length = F.headSize :=
    fun other hother => hheads other (List.mem_append_left _ hother)
  have hframe := hheads frame (by simp)
  have hdamaged : (F.encodeAll (before ++ frame :: after)).set
      ((F.encodeAll before).length + j) byte =
        F.encodeAll before ++ ((F.encode frame).set j byte ++
          F.encodeAll after) := by
    rw [encodeAll_append, encodeAll_cons, List.set_append_right _ _ (by omega),
      Nat.add_sub_cancel_left, List.set_append_left _ _ h.inside]
  have hbad := h.parse_eq_bad hframe hdetects (F.encodeAll after)
  rw [hdamaged]
  constructor
  · rintro ⟨hwalks, -, hstop⟩
    rw [List.drop_left] at hwalks hstop
    refine ⟨hwalks.fits hbefore ?_, hbad.mp hstop⟩
    simp only [List.length_append]
    omega
  · rintro ⟨hfits, hseen⟩
    refine ⟨?_, ?_, ?_⟩
    · rw [List.drop_left]
      exact walks_encodeAll (fun other hother => ⟨hbefore other hother,
        hfits other hother⟩) _
    · have hinside := h.inside
      simp only [List.length_append, List.length_set]
      omega
    · rw [List.drop_left]
      exact hbad.mpr hseen

/-- Where the loop stops it has read the frames before it. -/
theorem scan_of_bad {frames : List Frame} (hfits : ∀ frame ∈ frames, F.Fits frame)
    {rest : List UInt8} (hrest : rest ≠ []) (hbad : F.parse rest = .bad) :
    F.scan (F.encodeAll frames ++ rest) = some (frames, true) := by
  obtain ⟨byte, tail, rfl⟩ := List.exists_cons_of_ne_nil hrest
  obtain ⟨fuel, hfuel⟩ := Nat.exists_eq_add_of_le' (length_encodeAll frames hfits)
  rw [scan, List.length_append, hfuel, List.length_cons,
    show fuel + frames.length + (tail.length + 1) =
      (fuel + tail.length + 1) + frames.length by omega,
    scanLoop_encodeAll F.parse (fun _ rest hframe => parse_encode hframe rest) frames
      hfits, scanLoop, hbad]
  simp

theorem StopsAt.scan_eq {bytes : List UInt8} {frames : List Frame}
    (h : F.StopsAt bytes frames (F.encodeAll frames).length)
    (hpre : F.encodeAll frames <+: bytes) (hfits : ∀ frame ∈ frames, F.Fits frame) :
    F.scan bytes = some (frames, true) := by
  obtain ⟨rest, rfl⟩ := hpre
  have hbad := h.bad
  have hinside := h.inside
  rw [List.drop_left] at hbad
  rw [List.length_append] at hinside
  exact scan_of_bad hfits (List.ne_nil_of_length_pos (by omega)) hbad

/-- A record whose checksum is taken over all of it is read, with an advance
that may have wrapped. -/
theorem parse_encode_mod {frame : Frame} (hhead : frame.head.length = F.headSize)
    (hbody : F.headSize + 4 + frame.body.length < 2 ^ 32) (rest : List UInt8) :
    F.parse (F.encode frame ++ rest) =
      .frame frame ((F.overhead + frame.body.length) % 2 ^ 32) := by
  have hcovered : frame.covered.length = F.headSize + 4 + frame.body.length := by
    simp [Frame.covered, hhead, Nat.add_assoc]
  have hless : frame.body.length < 2 ^ 32 := by omega
  have hparse := parse_layout (rfl : F.magic.length = _) hhead
    (length_leBytes 4 (F.checksum frame.covered).toNat) frame.body rest
  rw [Nat.mod_eq_of_lt hbody, Nat.mod_eq_of_lt hless, List.drop_left,
    List.take_length,
    readLeU32_leBytes, UInt32.ofNat_toNat, ← hcovered, List.take_length,
    if_neg (by simp), if_neg (by simp)] at hparse
  rw [← hparse, encode]
  simp only [List.append_assoc]

/-- A record of exactly 2 ^ 32 bytes is read over and over. -/
theorem scan_stuck {frame : Frame} (hhead : frame.head.length = F.headSize)
    (hbody : F.overhead + frame.body.length = 2 ^ 32)
    (rest : List UInt8) : F.scan (F.encode frame ++ rest) = none := by
  have hread := parse_encode_mod hhead
    (by simp only [overhead] at hbody; omega) rest
  rw [hbody, Nat.mod_self] at hread
  have hne : F.encode frame ++ rest ≠ [] := by
    have hlength := length_encode (F := F) hhead
    exact List.ne_nil_of_length_pos (by rw [List.length_append]; omega)
  have hloop : ∀ fuel, scanLoop F.parse fuel (F.encode frame ++ rest) = none := by
    intro fuel
    induction fuel with
    | zero =>
        obtain ⟨byte, tail, hbytes⟩ := List.exists_cons_of_ne_nil hne
        rw [hbytes, scanLoop]
    | succ fuel ih =>
        rw [scanLoop_cons_frame F.parse fuel hne hread, List.drop_zero, ih]
        rfl
  exact hloop _

/-- A scan that stops there gives the frames before the damaged one, and what
follows from that. -/
theorem stopsAt_scan_iff {result : Prop} {before after : List Frame}
    {frame : Frame} {j : Nat}
    {byte : UInt8} (h : F.Damage frame j byte)
    (hheads : ∀ other ∈ before ++ frame :: after, other.head.length = F.headSize)
    (hdetects : ∀ (first last : List UInt8) {old new : UInt8}, old ≠ new →
      F.checksum (first ++ old :: last) ≠ F.checksum (first ++ new :: last))
    (hresult : F.scan ((F.encodeAll (before ++ frame :: after)).set
      ((F.encodeAll before).length + j) byte) = some (before, true) → result) :
    F.StopsAt ((F.encodeAll (before ++ frame :: after)).set
        ((F.encodeAll before).length + j) byte) before (F.encodeAll before).length ∧
          result ↔
      (∀ other ∈ before, F.overhead + other.body.length < 2 ^ 32) ∧
        F.Shielded frame j byte := by
  have hiff := stopsAt_iff h hheads hdetects
  constructor
  · rintro ⟨hstop, -⟩
    exact hiff.mp hstop
  · rintro ⟨hsizes, hseen⟩
    have hstop := hiff.mpr ⟨hsizes, hseen⟩
    refine ⟨hstop, hresult (hstop.scan_eq ?_ ?_)⟩
    · rw [encodeAll_append, List.set_append_right _ _ (by omega)]
      exact List.prefix_append _ _
    · intro other hother
      exact ⟨hheads other (List.mem_append_left _ hother), hsizes other hother⟩

end FrameFormat

theorem toFrame_heads (records : List LogRecord) :
    ∀ frame ∈ records.map LogRecord.toFrame,
      frame.head.length = remoteFormat.headSize := by
  intro frame hframe
  obtain ⟨record, -, rfl⟩ := List.mem_map.mp hframe
  simp [LogRecord.toFrame, remoteFormat]

theorem recvFrame_heads (records : List RecvRecord) :
    ∀ frame ∈ records.map RecvRecord.toFrame,
      frame.head.length = receiverFormat.headSize := by
  intro frame hframe
  obtain ⟨record, -, rfl⟩ := List.mem_map.mp hframe
  simp [RecvRecord.toFrame, receiverFormat]

theorem remote_overhead_lt (records : List LogRecord) :
    (∀ frame ∈ records.map LogRecord.toFrame,
        remoteFormat.overhead + frame.body.length < 2 ^ 32) ↔
      ∀ record ∈ records, record.body.length + 21 < 2 ^ 32 := by
  have hoverhead : remoteFormat.overhead = 21 := rfl
  rw [List.forall_mem_map, hoverhead]
  simp only [LogRecord.toFrame, Nat.add_comm 21]

theorem receiver_overhead_lt (records : List RecvRecord) :
    (∀ frame ∈ records.map RecvRecord.toFrame,
        receiverFormat.overhead + frame.body.length < 2 ^ 32) ↔
      ∀ record ∈ records, record.body.length + 29 < 2 ^ 32 := by
  have hoverhead : receiverFormat.overhead = 29 := rfl
  rw [List.forall_mem_map, hoverhead]
  simp only [RecvRecord.toFrame, Nat.add_comm 29]

/-- The scans of both logs stop at a record with a damaged byte and give the
result of the records before it, exactly if the sizes of those do not wrap and
the damage is seen. -/
theorem damage_stops_iff (j : Nat) (byte : UInt8) :
    (∀ (log : RemoteLog) (calls : List (LogRecord × IoScript)),
      (∀ call ∈ calls, (appendRecordLocked log call.1.type call.1.msgId call.1.body
        call.2).2 = .returned true) →
      ∀ before record after, appendedRecords calls = before ++ record :: after →
      remoteFormat.Damage record.toFrame j byte →
      let frames := before.map LogRecord.toFrame
      let start := (remoteFormat.encodeAll frames).length
      let damaged := (log.appendAll calls).set (start + j) byte
      (remoteFormat.StopsAt damaged frames start ∧
          scanRemoteLog damaged = some (.ofRecords before true) ↔
        (∀ other ∈ before, other.body.length + 21 < 2 ^ 32) ∧
          remoteFormat.Shielded record.toFrame j byte)) ∧
    (∀ (log : ReceiverLog) (batches : List (List PendingRec × IoScript)),
      (∀ call ∈ batches, (log.writeBatch call.1 call.2).2 = .returned true) →
      ∀ before record after,
      (batches.flatMap Prod.fst).map PendingRec.toRecord =
        before ++ record :: after →
      receiverFormat.Damage record.toFrame j byte →
      let frames := before.map RecvRecord.toFrame
      let start := (receiverFormat.encodeAll frames).length
      let damaged := (log.commitAll batches).set (start + j) byte
      (receiverFormat.StopsAt damaged frames start ∧
          scanExisting damaged = some (before.foldl indexRecord ∅, 1) ↔
        (∀ other ∈ before, other.body.length + 29 < 2 ^ 32) ∧
          receiverFormat.Shielded record.toFrame j byte)) := by
  constructor
  · intro log calls hdone before record after hwritten hdamage frames start damaged
    have hheads := toFrame_heads (before ++ record :: after)
    have hbytes : damaged = (remoteFormat.encodeAll (frames ++ record.toFrame ::
        after.map LogRecord.toFrame)).set (start + j) byte := by
      rw [← List.map_cons, ← List.map_append, ← hwritten, ← log.appendAll_eq hdone]
    rw [List.map_append, List.map_cons] at hheads
    rw [← remote_overhead_lt, hbytes]
    apply FrameFormat.stopsAt_scan_iff hdamage hheads crc32IsoHdlc_detects
    intro hscan
    rw [scanRemoteLog, hscan, Option.map_some, List.map_map]
    simp [Function.comp_def]
  · intro log batches hdone before record after hwritten hdamage frames start damaged
    have hheads := recvFrame_heads (before ++ record :: after)
    have hbytes : damaged = (receiverFormat.encodeAll (frames ++ record.toFrame ::
        after.map RecvRecord.toFrame)).set (start + j) byte := by
      rw [← List.map_cons, ← List.map_append, ← hwritten, ← log.commitAll_eq hdone]
    rw [List.map_append, List.map_cons] at hheads
    rw [← receiver_overhead_lt, hbytes]
    apply FrameFormat.stopsAt_scan_iff hdamage hheads crc32IsoHdlc_detects
    intro hscan
    rw [scanExisting, hscan, Option.map_some, List.map_map]
    simp [Function.comp_def]

/-- The type byte of the second record is changed. -/
theorem damage_stops_type :
    (remoteFormat.StopsAt
        ((RemoteLog.appendAll ⟨true, ∅⟩
          [(⟨1, 7, [5]⟩, ⟨[], .ok⟩), (⟨2, 7, []⟩, ⟨[], .ok⟩)]).set (22 + 4) 9)
        [LogRecord.toFrame ⟨1, 7, [5]⟩] 22 ∧
      scanRemoteLog ((RemoteLog.appendAll ⟨true, ∅⟩
          [(⟨1, 7, [5]⟩, ⟨[], .ok⟩), (⟨2, 7, []⟩, ⟨[], .ok⟩)]).set (22 + 4) 9) =
        some (.ofRecords [⟨1, 7, [5]⟩] true)) ∧
    (receiverFormat.StopsAt
        ((ReceiverLog.commitAll ⟨true, 0, ∅, [], false, 0, 0⟩
          [([⟨1, 3, 7, 0, [5]⟩, ⟨2, 3, 7, 0, []⟩], ⟨[], .ok⟩)]).set (30 + 4) 9)
        [RecvRecord.toFrame ⟨1, 3, 7, [5]⟩] 30 ∧
      scanExisting ((ReceiverLog.commitAll ⟨true, 0, ∅, [], false, 0, 0⟩
          [([⟨1, 3, 7, 0, [5]⟩, ⟨2, 3, 7, 0, []⟩], ⟨[], .ok⟩)]).set (30 + 4) 9) =
        some (indexRecord ∅ ⟨1, 3, 7, [5]⟩, 1)) := by
  constructor
  · exact ((damage_stops_iff 4 9).1 ⟨true, ∅⟩
      [(⟨1, 7, [5]⟩, ⟨[], .ok⟩), (⟨2, 7, []⟩, ⟨[], .ok⟩)] (by decide)
      [⟨1, 7, [5]⟩] ⟨2, 7, []⟩ [] (by decide)
      ⟨by decide, .inl (by decide), by decide⟩).mpr
        ⟨by decide, .inl (by decide)⟩
  · exact ((damage_stops_iff 4 9).2 ⟨true, 0, ∅, [], false, 0, 0⟩
      [([⟨1, 3, 7, 0, [5]⟩, ⟨2, 3, 7, 0, []⟩], ⟨[], .ok⟩)] (by decide)
      [⟨1, 3, 7, [5]⟩] ⟨2, 3, 7, []⟩ [] (by decide)
      ⟨by decide, .inl (by decide), by decide⟩).mpr
        ⟨by decide, .inl (by decide)⟩

theorem appendRecordLocked_whole (type : UInt8) (msgId : UInt64)
    (body : List UInt8) :
    (appendRecordLocked ⟨true, ∅⟩ type msgId body ⟨[], .ok⟩).2 = .returned true := by
  have hne : remoteFormat.encode (appendedRecord type msgId body).toFrame ≠ [] := by
    simp [FrameFormat.encode, remoteFormat]
  have hwhole := writeAndSync_wholeOrNothing remoteWritePolicy hne true
  rw [appendRecordLocked, if_pos rfl]
  exact congrArg Prod.snd hwhole

/-- Behind a record of exactly 2 ^ 32 bytes nothing is read. -/
theorem scan_behind_huge {huge : LogRecord} (hhuge : huge.body.length + 21 = 2 ^ 32)
    (small : LogRecord) (j : Nat) (byte : UInt8) :
    scanRemoteLog ((RemoteLog.appendAll ⟨true, ∅⟩
      [(huge, ⟨[], .ok⟩), (small, ⟨[], .ok⟩)]).set
        ((remoteFormat.encodeAll [huge.toFrame]).length + j) byte) = none := by
  have hrecord : appendedRecord huge.type huge.msgId huge.body = huge := by
    rw [appendedRecord, Nat.mod_eq_of_lt (by omega), List.take_length]
  have hdone : ∀ call ∈ [(huge, (⟨[], .ok⟩ : IoScript)), (small, ⟨[], .ok⟩)],
      (appendRecordLocked ⟨true, ∅⟩ call.1.type call.1.msgId call.1.body call.2).2 =
        .returned true := by
    intro call hcall
    obtain rfl | rfl := List.mem_pair.mp hcall
    · exact appendRecordLocked_whole _ _ _
    · exact appendRecordLocked_whole _ _ _
  have hhead : huge.toFrame.head.length = remoteFormat.headSize :=
    toFrame_heads [huge] _ List.mem_cons_self
  have hsize : remoteFormat.overhead + huge.toFrame.body.length = 2 ^ 32 := by
    have hoverhead : remoteFormat.overhead = 21 := rfl
    rw [hoverhead, Nat.add_comm]
    exact hhuge
  rw [RemoteLog.appendAll_eq hdone, appendedRecords, List.map_cons, hrecord,
    List.map_cons, FrameFormat.encodeAll_cons, FrameFormat.encodeAll_cons,
    FrameFormat.encodeAll_nil, List.append_nil, List.set_append_right _ _ (by omega),
    scanRemoteLog, FrameFormat.scan_stuck hhead hsize]
  rfl

/-- A record of 2 ^ 32 bytes before a damaged one: the scan does not end. -/
theorem hugeRecord_hangs :
    let huge : LogRecord := ⟨1, 1, List.replicate (2 ^ 32 - 21) 0⟩
    let calls : List (LogRecord × IoScript) :=
      [(huge, ⟨[], .ok⟩), (⟨1, 2, [5]⟩, ⟨[], .ok⟩)]
    (∀ call ∈ calls, (appendRecordLocked ⟨true, ∅⟩ call.1.type call.1.msgId
        call.1.body call.2).2 = .returned true) ∧
      remoteFormat.Damage (LogRecord.toFrame ⟨1, 2, [5]⟩) 4 9 ∧
      scanRemoteLog ((RemoteLog.appendAll ⟨true, ∅⟩ calls).set
        ((remoteFormat.encodeAll [huge.toFrame]).length + 4) 9) = none := by
  intro huge calls
  refine ⟨?_, ⟨by decide, .inl (by decide), by decide⟩, ?_⟩
  · intro call hcall
    obtain rfl | rfl := List.mem_pair.mp hcall
    · exact appendRecordLocked_whole _ _ _
    · exact appendRecordLocked_whole _ _ _
  · have hlength : huge.body.length = 2 ^ 32 - 21 := List.length_replicate
    exact scan_behind_huge (by omega) _ _ _

end UltraNet
