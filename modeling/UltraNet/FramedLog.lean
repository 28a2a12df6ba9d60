/-
Append-only files of checksummed frames: magic, a head of fixed size, a 32-bit
body length, the body and a 32-bit checksum of everything after the magic.
The scanner computes sizes in 32 bits, as its source does, so a length field
near the top of the range wraps.  No property of the checksum is used: a
frame that was cut short is rejected by its length alone.
-/
import UltraNet.ByteOrder
import Mathlib.Data.List.Infix
import Mathlib.Tactic.SplitIfs

namespace UltraNet

structure Frame where
  head : List UInt8
  body : List UInt8
deriving DecidableEq

/-- The bytes that the checksum covers. -/
def Frame.covered (frame : Frame) : List UInt8 :=
  frame.head ++ leBytes 4 frame.body.length ++ frame.body

structure FrameFormat where
  magic : List UInt8
  headSize : Nat
  checksum : List UInt8 → UInt32

/-- What the scanner sees at one offset.  `fault`: it reads past the end of
the file. -/
inductive Parsed where
  | bad
  | fault
  | frame (frame : Frame) (advance : Nat)
deriving DecidableEq

namespace FrameFormat

variable (F : FrameFormat)

/-- Bytes of a frame that are not its body. -/
def overhead : Nat := F.magic.length + F.headSize + 8

def encode (frame : Frame) : List UInt8 :=
  F.magic ++ frame.covered ++
    leBytes 4 (F.checksum frame.covered).toNat

def encodeAll (frames : List Frame) : List UInt8 :=
  frames.flatMap F.encode

/-- One iteration of the scan loop at the given remaining bytes. -/
def parse (bytes : List UInt8) : Parsed :=
  if bytes.length < F.overhead then .bad
  else if bytes.take F.magic.length ≠ F.magic then .bad
  else
    let cursor := bytes.drop F.magic.length
    let bodyLen := readLeU32 (cursor.drop F.headSize)
    -- The size that the source compares and advances by has 32 bits.
    let size := (UInt32.ofNat F.overhead + bodyLen).toNat
    let coveredSize := (UInt32.ofNat (F.headSize + 4) + bodyLen).toNat
    if bytes.length < size then .bad
    else if bytes.length < F.overhead + bodyLen.toNat then .fault
    else if F.checksum (cursor.take coveredSize) ≠
        readLeU32 (cursor.drop (F.headSize + 4 + bodyLen.toNat)) then .bad
    else
      .frame ⟨cursor.take F.headSize,
        (cursor.drop (F.headSize + 4)).take bodyLen.toNat⟩ size

/-- The same iteration with the end of the frame compared in 64 bits, so that
nothing is read past the end of the file. -/
def parseWide (bytes : List UInt8) : Parsed :=
  if bytes.length < F.overhead then .bad
  else if bytes.take F.magic.length ≠ F.magic then .bad
  else
    let cursor := bytes.drop F.magic.length
    let bodyLen := readLeU32 (cursor.drop F.headSize)
    let size := (UInt32.ofNat F.overhead + bodyLen).toNat
    let coveredSize := (UInt32.ofNat (F.headSize + 4) + bodyLen).toNat
    if bytes.length < F.overhead + bodyLen.toNat then .bad
    else if F.checksum (cursor.take coveredSize) ≠
        readLeU32 (cursor.drop (F.headSize + 4 + bodyLen.toNat)) then .bad
    else
      .frame ⟨cursor.take F.headSize,
        (cursor.drop (F.headSize + 4)).take bodyLen.toNat⟩ size

/-- The scan loop over the remaining bytes: the frames and whether it stopped
at a bad one.  `none` when it reads out of bounds or never ends. -/
def scanLoop (step : List UInt8 → Parsed) :
    Nat → List UInt8 → Option (List Frame × Bool)
  | _, [] => some ([], false)
  | 0, _ :: _ => none
  | fuel + 1, bytes@(_ :: _) =>
      match step bytes with
      | .bad => some ([], true)
      | .fault => none
      | .frame frame advance =>
          (scanLoop step fuel (bytes.drop advance)).map fun rest =>
            (frame :: rest.1, rest.2)

/-- Every frame advances by at least one byte or by none, so a scan that ends
ends within the length of the file. -/
def scan (bytes : List UInt8) : Option (List Frame × Bool) :=
  scanLoop F.parse bytes.length bytes

/-- The frame has a head of the right size and its length does not wrap. -/
structure Fits (frame : Frame) : Prop where
  head : frame.head.length = F.headSize
  body : F.overhead + frame.body.length < 2 ^ 32

/-- What a write that was cut short leaves at the end of the file. -/
structure Torn (tail : List UInt8) : Prop where
  nonempty : tail ≠ []
  cut : ∃ frame, F.Fits frame ∧ tail <+: F.encode frame ∧
    tail ≠ F.encode frame

variable {F}

@[simp] theorem encodeAll_nil : F.encodeAll [] = [] := rfl

@[simp] theorem encodeAll_cons (frame : Frame) (rest : List Frame) :
    F.encodeAll (frame :: rest) = F.encode frame ++ F.encodeAll rest := rfl

theorem encodeAll_append (first last : List Frame) :
    F.encodeAll (first ++ last) = F.encodeAll first ++ F.encodeAll last :=
  List.flatMap_append

theorem length_encode {frame : Frame} (hhead : frame.head.length = F.headSize) :
    (F.encode frame).length = F.overhead + frame.body.length := by
  simp only [encode, Frame.covered, overhead, List.length_append, length_leBytes,
    hhead]
  omega

theorem encode_ne_nil {frame : Frame} (hfits : F.Fits frame) :
    F.encode frame ≠ [] := by
  have hlength := length_encode hfits.head
  intro hnil
  rw [hnil, List.length_nil, overhead] at hlength
  omega

/-- The fields that `parse` reads from bytes that begin with the part of a
frame before its checksum. -/
theorem parse_fields {frame : Frame} (hhead : frame.head.length = F.headSize)
    (rest : List UInt8) :
    let bytes := F.magic ++ frame.covered ++ rest
    let cursor := bytes.drop F.magic.length
    bytes.take F.magic.length = F.magic ∧
      readLeU32 (cursor.drop F.headSize) = UInt32.ofNat frame.body.length ∧
      cursor.take F.headSize = frame.head ∧
      cursor.drop (F.headSize + 4) = frame.body ++ rest ∧
      cursor.drop (F.headSize + 4 + frame.body.length) = rest ∧
      cursor.take (F.headSize + 4 + frame.body.length) = frame.covered := by
  have hcursor : (F.magic ++ frame.covered ++ rest).drop F.magic.length =
      frame.covered ++ rest := by
    rw [List.append_assoc, List.drop_left]
  have hsize : frame.covered.length =
      F.headSize + 4 + frame.body.length := by
    simp [Frame.covered, hhead, Nat.add_assoc]
  have hbody : (frame.covered ++ rest).drop (F.headSize + 4) =
      frame.body ++ rest := by
    simp only [Frame.covered, List.append_assoc]
    rw [← List.append_assoc frame.head]
    exact List.drop_left' (by simp [hhead])
  refine ⟨by simp [List.append_assoc], ?_, ?_, ?_, ?_, ?_⟩
  · rw [hcursor]
    simp only [Frame.covered, List.append_assoc]
    rw [List.drop_left' hhead]
    exact readLeU32_leBytes _ _
  · rw [hcursor]
    simp only [Frame.covered, List.append_assoc]
    exact List.take_left' hhead
  · rw [hcursor, hbody]
  · rw [hcursor]
    exact List.drop_left' hsize
  · rw [hcursor]
    exact List.take_left' hsize

theorem toNat_add_ofNat {first second : Nat} (h : first + second < 2 ^ 32) :
    (UInt32.ofNat first + UInt32.ofNat second).toNat = first + second := by
  simp only [UInt32.toNat_add, UInt32.toNat_ofNat']
  omega

/-- A whole frame is read back, whatever follows it. -/
theorem parse_encode {frame : Frame} (hfits : F.Fits frame)
    (rest : List UInt8) :
    F.parse (F.encode frame ++ rest) =
      .frame frame (F.encode frame).length := by
  have hlength := length_encode hfits.head
  have hbound := hfits.body
  have hbody : (UInt32.ofNat frame.body.length).toNat = frame.body.length := by
    simp only [UInt32.toNat_ofNat']
    omega
  have hsize := toNat_add_ofNat hbound
  have hcovered : (UInt32.ofNat (F.headSize + 4) +
      UInt32.ofNat frame.body.length).toNat =
        F.headSize + 4 + frame.body.length := by
    apply toNat_add_ofNat
    simp only [overhead] at hbound
    omega
  have hshape : F.encode frame ++ rest = F.magic ++ frame.covered ++
      (leBytes 4 (F.checksum frame.covered).toNat ++ rest) := by
    simp [encode, List.append_assoc]
  obtain ⟨hmagic, hlen, hhead, hdrop, hcheck, hcover⟩ := parse_fields hfits.head
    (leBytes 4 (F.checksum frame.covered).toNat ++ rest)
  rw [← hshape] at hmagic hlen hhead hdrop hcheck hcover
  have htotal : F.overhead + frame.body.length ≤
      (F.encode frame ++ rest).length := by
    rw [List.length_append, hlength]
    omega
  have hsum : readLeU32 (leBytes 4 (F.checksum frame.covered).toNat ++ rest)
      = F.checksum frame.covered := by
    rw [readLeU32_leBytes, UInt32.ofNat_toNat]
  simp only [parse, hmagic, hlen, hbody, hsize, hcovered, hhead, hdrop,
    hcheck, hcover, hsum]
  rw [if_neg (by omega), if_neg (by simp), if_neg (by omega),
    if_neg (by omega), if_neg (by simp), List.take_left' rfl, hlength]

/-- A frame that was cut short is bad. -/
theorem parse_torn {tail : List UInt8} (htorn : F.Torn tail) :
    F.parse tail = .bad := by
  obtain ⟨frame, hfits, hpre, hne⟩ := htorn.cut
  have hlength := length_encode hfits.head
  have hbound := hfits.body
  have hshort : tail.length < F.overhead + frame.body.length := by
    rw [← hlength]
    exact lt_of_le_of_ne hpre.length_le fun h => hne (hpre.eq_of_length h)
  unfold parse
  by_cases hhead : tail.length < F.overhead
  · rw [if_pos hhead]
  · -- The head is complete, so the length field is the one that was written.
    have htake : tail = (F.encode frame).take tail.length :=
      List.prefix_iff_eq_take.mp hpre
    have hcut : ∀ n, n ≤ tail.length →
        tail.take n = (F.encode frame).take n := by
      intro n hn
      rw [htake, List.take_take, Nat.min_eq_left hn]
    have hfields := parse_fields hfits.head
      (leBytes 4 (F.checksum frame.covered).toNat)
    have hlen : readLeU32 ((tail.drop F.magic.length).drop F.headSize) =
        UInt32.ofNat frame.body.length := by
      have hsame : (((tail.drop F.magic.length).drop F.headSize).take 4) =
          ((((F.encode frame).drop F.magic.length).drop F.headSize).take 4) := by
        simp only [List.drop_drop, List.take_drop]
        rw [hcut _ (by simp only [overhead] at hhead; omega)]
      have hwhole := hfields.2.1
      simp only [readLeU32] at hwhole ⊢
      rw [hsame]
      exact hwhole
    have hsize := toNat_add_ofNat hbound
    simp only [hlen, hsize]
    rw [if_neg hhead, if_pos hshort]
    split <;> rfl

/-- The wide comparison differs only where the other one reads past the end
of the file. -/
theorem parseWide_eq (bytes : List UInt8) :
    F.parseWide bytes =
      match F.parse bytes with
      | .fault => .bad
      | parsed => parsed := by
  have hwrap : ∀ bodyLen : UInt32,
      (UInt32.ofNat F.overhead + bodyLen).toNat ≤
        F.overhead + bodyLen.toNat := by
    intro bodyLen
    rw [UInt32.toNat_add, UInt32.toNat_ofNat']
    omega
  simp only [parseWide, parse]
  generalize hlen : readLeU32
    ((bytes.drop F.magic.length).drop F.headSize) = bodyLen
  have hsize := hwrap bodyLen
  split_ifs <;> first | rfl | omega

theorem scanLoop_cons_frame (step : List UInt8 → Parsed) (fuel : Nat)
    {bytes : List UInt8} {frame : Frame} {advance : Nat} (hbytes : bytes ≠ [])
    (hstep : step bytes = .frame frame advance) :
    scanLoop step (fuel + 1) bytes =
      (scanLoop step fuel (bytes.drop advance)).map fun rest =>
        (frame :: rest.1, rest.2) := by
  cases bytes with
  | nil => exact absurd rfl hbytes
  | cons byte rest => simp only [scanLoop, hstep]

/-- Whole frames at the front of the file are read one by one. -/
theorem scanLoop_encodeAll (step : List UInt8 → Parsed)
    (hstep : ∀ frame rest, F.Fits frame → step (F.encode frame ++ rest) =
      .frame frame (F.encode frame).length)
    (frames : List Frame) (hfits : ∀ frame ∈ frames, F.Fits frame)
    (tail : List UInt8) (fuel : Nat) :
    scanLoop step (fuel + frames.length) (F.encodeAll frames ++ tail) =
      (scanLoop step fuel tail).map fun rest =>
        (frames ++ rest.1, rest.2) := by
  induction frames with
  | nil => simp
  | cons frame frames ih =>
      have hframe := hfits frame (List.mem_cons_self ..)
      have hrest := ih fun other hother =>
          hfits other (List.mem_cons_of_mem _ hother)
      have hone := hstep frame (F.encodeAll frames ++ tail) hframe
      rw [List.length_cons, ← Nat.add_assoc, encodeAll_cons, List.append_assoc,
        scanLoop_cons_frame step _ (by simp [encode_ne_nil hframe]) hone,
        List.drop_left, hrest, Option.map_map]
      rfl

theorem length_encodeAll (frames : List Frame)
    (hfits : ∀ frame ∈ frames, F.Fits frame) :
    frames.length ≤ (F.encodeAll frames).length := by
  induction frames with
  | nil => simp
  | cons frame frames ih =>
      have hpos := List.length_pos_iff.mpr
        (encode_ne_nil (hfits frame (List.mem_cons_self ..)))
      have hrest := ih fun other hother =>
          hfits other (List.mem_cons_of_mem _ hother)
      simp only [encodeAll_cons, List.length_append, List.length_cons]
      omega

/-- The bytes of a log whose last write may have been cut short. -/
structure IsLog (F : FrameFormat) (bytes : List UInt8) (frames : List Frame)
    (tail : List UInt8) : Prop where
  bytes_eq : bytes = F.encodeAll frames ++ tail
  fits : ∀ frame ∈ frames, F.Fits frame
  tail : tail = [] ∨ F.Torn tail

/-- A scan loop that agrees with the format on whole and on cut frames reads
exactly the whole frames of a log. -/
theorem IsLog.scanLoop_eq {bytes : List UInt8} {frames : List Frame}
    {tail : List UInt8} (hlog : IsLog F bytes frames tail)
    (step : List UInt8 → Parsed)
    (hstep : ∀ frame rest, F.Fits frame → step (F.encode frame ++ rest) =
      .frame frame (F.encode frame).length)
    (htorn : ∀ tail, F.Torn tail → step tail = .bad) :
    scanLoop step bytes.length bytes = some (frames, decide (tail ≠ [])) := by
  have hframes := length_encodeAll frames hlog.fits
  have hlength : bytes.length =
      (F.encodeAll frames).length + tail.length := by
    simp [hlog.bytes_eq]
  obtain ⟨fuel, hfuel⟩ := Nat.exists_eq_add_of_le' hframes
  rw [hlength, hlog.bytes_eq, hfuel,
    show fuel + frames.length + tail.length =
      (fuel + tail.length) + frames.length by omega,
    scanLoop_encodeAll step hstep frames hlog.fits]
  rcases hlog.tail with rfl | htail
  · simp [scanLoop]
  · obtain ⟨byte, rest, rfl⟩ := List.exists_cons_of_ne_nil htail.nonempty
    rw [List.length_cons, ← Nat.add_assoc, scanLoop, htorn _ htail]
    simp

theorem IsLog.scan_eq {bytes : List UInt8} {frames : List Frame}
    {tail : List UInt8} (hlog : IsLog F bytes frames tail) :
    F.scan bytes = some (frames, decide (tail ≠ [])) :=
  hlog.scanLoop_eq F.parse (fun _ rest hfits => parse_encode hfits rest)
    fun _ htorn => parse_torn htorn

theorem IsLog.scanLoop_parseWide {bytes : List UInt8} {frames : List Frame}
    {tail : List UInt8} (hlog : IsLog F bytes frames tail) :
    scanLoop F.parseWide bytes.length bytes =
      some (frames, decide (tail ≠ [])) := by
  apply hlog.scanLoop_eq F.parseWide
  · intro frame rest hfits
    rw [parseWide_eq, parse_encode hfits]
  · intro tail htorn
    rw [parseWide_eq, parse_torn htorn]

theorem isLog_nil : IsLog F [] [] [] := ⟨rfl, by simp, Or.inl rfl⟩

/-- Cutting the encoding of a batch leaves some whole frames and a cut one. -/
theorem prefix_encodeAll {batch : List Frame}
    (hfits : ∀ frame ∈ batch, F.Fits frame) {part : List UInt8}
    (hpart : part <+: F.encodeAll batch) :
    ∃ whole tail, whole <+: batch ∧ part = F.encodeAll whole ++ tail ∧
      (tail = [] ∨ F.Torn tail) := by
  induction batch generalizing part with
  | nil => exact ⟨[], [], List.prefix_rfl, by simpa using hpart, Or.inl rfl⟩
  | cons frame batch ih =>
      have hframe := hfits frame (List.mem_cons_self ..)
      rw [encodeAll_cons] at hpart
      rcases List.prefix_or_prefix_of_prefix hpart
        (List.prefix_append _ (F.encodeAll batch)) with hshort | hlong
      · by_cases hnil : part = []
        · exact ⟨[], [], List.nil_prefix, by simpa using hnil, Or.inl rfl⟩
        · by_cases hwhole : part = F.encode frame
          · refine ⟨[frame], [], ?_, by simp [hwhole], Or.inl rfl⟩
            exact List.prefix_append [frame] batch
          · exact ⟨[], part, List.nil_prefix, rfl,
              Or.inr ⟨hnil, frame, hframe, hshort, hwhole⟩⟩
      · obtain ⟨rest, rfl⟩ := hlong
        rw [List.prefix_append_right_inj] at hpart
        obtain ⟨whole, tail, hpre, rfl, htail⟩ :=
          ih (fun other hother => hfits other (List.mem_cons_of_mem _ hother)) hpart
        exact ⟨frame :: whole, tail, List.cons_prefix_cons.mpr ⟨rfl, hpre⟩,
          by simp [List.append_assoc], htail⟩

/-- Appending part of a batch to a log that is not torn gives a log again. -/
theorem IsLog.append {bytes : List UInt8} {frames batch : List Frame}
    (hlog : IsLog F bytes frames []) (hfits : ∀ frame ∈ batch, F.Fits frame)
    {part : List UInt8} (hpart : part <+: F.encodeAll batch) :
    ∃ whole tail, whole <+: batch ∧
      IsLog F (bytes ++ part) (frames ++ whole) tail ∧
      (part = F.encodeAll batch ∧ whole = batch ∧ tail = [] ∨
        part ≠ F.encodeAll batch ∧ whole ≠ batch) := by
  by_cases hall : part = F.encodeAll batch
  · refine ⟨batch, [], List.prefix_rfl, ⟨?_, ?_, Or.inl rfl⟩,
      Or.inl ⟨hall, rfl, rfl⟩⟩
    · rw [hlog.bytes_eq, hall, List.append_nil, List.append_nil,
        encodeAll_append]
    · intro frame hmem
      rcases List.mem_append.mp hmem with hold | hnew
      · exact hlog.fits frame hold
      · exact hfits frame hnew
  · obtain ⟨whole, tail, hpre, rfl, htail⟩ := prefix_encodeAll hfits hpart
    have hpartial : whole ≠ batch := by
      rintro rfl
      have hempty : tail = [] := by
        simpa using (List.prefix_append_right_inj _).mp
          (hpart.trans (by simp : F.encodeAll whole <+: F.encodeAll whole ++ []))
      exact hall (by simp [hempty])
    refine ⟨whole, tail, hpre, ⟨?_, ?_, htail⟩, Or.inr ⟨hall, hpartial⟩⟩
    · rw [hlog.bytes_eq, List.append_nil, encodeAll_append, List.append_assoc]
    · intro frame hmem
      rcases List.mem_append.mp hmem with hold | hnew
      · exact hlog.fits frame hold
      · exact hfits frame (hpre.subset hnew)

end FrameFormat

end UltraNet
