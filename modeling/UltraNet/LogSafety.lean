/-
Which bytes the scan loops read, and when they stay inside the file.  The
loops of `scan_remote_log` and `scan_existing` compare a size of 32 bits with
what is left of the file, the constructor of `remote_log` one of 64 bits; all
three go forward by 32 bits.
-/
import UltraNet.DamagedLog

namespace UltraNet

/-- A part of the bytes that are left: where it starts and how long it is. -/
structure ByteRange where
  start : Nat
  size : Nat

namespace FrameFormat

variable (F : FrameFormat)

/-- The length field of the record at the front. -/
def bodyLen (bytes : List UInt8) : UInt32 :=
  readLeU32 ((bytes.drop F.magic.length).drop F.headSize)

/-- `21u + body_len` and `29u + body_len`. -/
def narrowSize (bodyLen : UInt32) : Nat := (UInt32.ofNat F.overhead + bodyLen).toNat

/-- `off + 21u + body_len` without the offset. -/
def wideSize (bodyLen : UInt32) : Nat := F.overhead + bodyLen.toNat

/-- The bytes that the checksum is taken of. -/
def coveredRange (bytes : List UInt8) : ByteRange :=
  ⟨F.magic.length, (UInt32.ofNat (F.headSize + 4) + F.bodyLen bytes).toNat⟩

def storedRange (bytes : List UInt8) : ByteRange :=
  ⟨F.magic.length + F.headSize + 4 + (F.bodyLen bytes).toNat, 4⟩

/-- The stored checksum is the one of the covered bytes. -/
def Matches (bytes : List UInt8) : Prop :=
  let cursor := bytes.drop F.magic.length
  F.checksum (cursor.take (F.coveredRange bytes).size) =
    readLeU32 (cursor.drop (F.headSize + 4 + (F.bodyLen bytes).toNat))

instance (bytes : List UInt8) : Decidable (F.Matches bytes) :=
  inferInstanceAs (Decidable (_ = _))

/-- The ranges that one iteration reads when it compares this size. -/
def reads (size : UInt32 → Nat) (bytes : List UInt8) : List ByteRange :=
  if bytes.length < F.overhead then []
  else if bytes.take F.magic.length ≠ F.magic then [⟨0, F.magic.length⟩]
  else
    ⟨0, F.magic.length⟩ :: ⟨F.magic.length, F.headSize + 4⟩ ::
      if bytes.length < size (F.bodyLen bytes) then []
      else
        F.coveredRange bytes :: F.storedRange bytes ::
          if F.Matches bytes then
            [⟨F.magic.length + F.headSize + 4, (F.bodyLen bytes).toNat⟩]
          else []

/-- The scan ends, every range it reads lies inside the file, and it goes
forward by the full size of each record. -/
inductive SafeScan (size : UInt32 → Nat) (step : List UInt8 → Parsed) :
    List UInt8 → Prop where
  | done : SafeScan size step []
  | stop {bytes : List UInt8}
      (hreads : ∀ range ∈ F.reads size bytes,
        range.start + range.size ≤ bytes.length)
      (hstep : step bytes = .bad) : SafeScan size step bytes
  | next {bytes : List UInt8} {frame : Frame}
      (hreads : ∀ range ∈ F.reads size bytes,
        range.start + range.size ≤ bytes.length)
      (hstep : step bytes = .frame frame (F.overhead + frame.body.length))
      (hrest : SafeScan size step (bytes.drop (F.overhead + frame.body.length))) :
      SafeScan size step bytes

/-- The size of the record at the front wraps and passes the comparison, and
then either leaves the file or the checksum matches. -/
def Wraps (size : UInt32 → Nat) (bytes : List UInt8) : Prop :=
  F.overhead ≤ bytes.length ∧ bytes.take F.magic.length = F.magic ∧
    2 ^ 32 ≤ F.overhead + (F.bodyLen bytes).toNat ∧
    size (F.bodyLen bytes) ≤ bytes.length ∧
    (bytes.length < F.overhead + (F.bodyLen bytes).toNat ∨ F.Matches bytes)

/-- Both loops, with the comparison as a parameter. -/
def parseWith (size : UInt32 → Nat) (bytes : List UInt8) : Parsed :=
  if bytes.length < F.overhead then .bad
  else if bytes.take F.magic.length ≠ F.magic then .bad
  else if bytes.length < size (F.bodyLen bytes) then .bad
  else if bytes.length < F.wideSize (F.bodyLen bytes) then .fault
  else if ¬ F.Matches bytes then .bad
  else
    .frame ⟨(bytes.drop F.magic.length).take F.headSize,
      ((bytes.drop F.magic.length).drop (F.headSize + 4)).take
        (F.bodyLen bytes).toNat⟩ (F.narrowSize (F.bodyLen bytes))

variable {F}

theorem parse_eq_parseWith (bytes : List UInt8) :
    F.parse bytes = F.parseWith F.narrowSize bytes := rfl

theorem parseWide_eq_parseWith (bytes : List UInt8) :
    F.parseWide bytes = F.parseWith F.wideSize bytes := by
  delta parseWide parseWith Matches coveredRange bodyLen wideSize narrowSize
  dsimp only
  split_ifs <;> rfl

variable {size : UInt32 → Nat} {bytes : List UInt8}

theorem narrowSize_le (bodyLen : UInt32) :
    F.narrowSize bodyLen ≤ F.wideSize bodyLen := by
  rw [narrowSize, wideSize, UInt32.toNat_add, UInt32.toNat_ofNat']
  omega

/-- What an accepted record says about the bytes. -/
theorem parseWith_eq_frame {frame : Frame} {advance : Nat}
    (hparse : F.parseWith size bytes = .frame frame advance) :
    F.overhead ≤ bytes.length ∧ bytes.take F.magic.length = F.magic ∧
      size (F.bodyLen bytes) ≤ bytes.length ∧
      F.overhead + frame.body.length ≤ bytes.length ∧ F.Matches bytes ∧
      frame.head = (bytes.drop F.magic.length).take F.headSize ∧
      frame.body = ((bytes.drop F.magic.length).drop (F.headSize + 4)).take
        (F.bodyLen bytes).toNat ∧
      frame.body.length = (F.bodyLen bytes).toNat ∧
      advance = F.narrowSize (F.bodyLen bytes) := by
  simp only [parseWith] at hparse
  split_ifs at hparse with hshort hmagic hsize hfits hmatches
  obtain ⟨rfl, rfl⟩ := Parsed.frame.inj hparse
  have hlength : (((bytes.drop F.magic.length).drop (F.headSize + 4)).take
      (F.bodyLen bytes).toNat).length = (F.bodyLen bytes).toNat := by
    simp only [List.length_take, List.length_drop, wideSize, overhead] at hfits ⊢
    omega
  refine ⟨Nat.not_lt.mp hshort, Decidable.not_not.mp hmagic, Nat.not_lt.mp hsize, ?_,
    hmatches, rfl, rfl, hlength, rfl⟩
  dsimp only
  rw [hlength]
  exact Nat.not_lt.mp hfits

/-- A record that is read with its full size is a whole frame. -/
theorem parseWith_frame {frame : Frame} {advance : Nat}
    (hparse : F.parseWith size bytes = .frame frame advance)
    (hsize : F.overhead + frame.body.length < 2 ^ 32) :
    F.Fits frame ∧ bytes = F.encode frame ++ bytes.drop advance ∧
      advance = F.overhead + frame.body.length := by
  obtain ⟨hlong, hmagic, -, hfits, hmatches, hhead, hbody, hlen, hadvance⟩ :=
    parseWith_eq_frame hparse
  have hsize' := hsize
  rw [hlen] at hfits hsize
  simp only [overhead] at hlong hfits hsize
  have hadvance' : advance = F.overhead + frame.body.length := by
    rw [hadvance, narrowSize, UInt32.toNat_add, UInt32.toNat_ofNat', hlen]
    simp only [overhead]
    omega
  have hheadLength : frame.head.length = F.headSize := by
    rw [hhead, List.length_take, List.length_drop]
    omega
  refine ⟨⟨hheadLength, hsize'⟩, ?_, hadvance'⟩
  -- the bytes are taken apart field by field
  let cursor := bytes.drop F.magic.length
  have hcursor : cursor.length = bytes.length - F.magic.length := List.length_drop
  have hfield : leBytes 4 frame.body.length = (cursor.drop F.headSize).take 4 := by
    have hfour : 4 ≤ (cursor.drop F.headSize).length := by
      rw [List.length_drop, hcursor]
      omega
    rw [hlen]
    exact leBytes_readLeU32 hfour
  have hcovered : frame.covered = cursor.take
      (F.headSize + 4 + frame.body.length) := by
    rw [Frame.covered, hfield, hhead, ← List.take_add]
    nth_rewrite 1 [hbody]
    rw [← hlen, ← List.take_add]
  have hstored : leBytes 4 (F.checksum frame.covered).toNat =
      (cursor.drop (F.headSize + 4 + frame.body.length)).take 4 := by
    have hfour : 4 ≤ (cursor.drop (F.headSize + 4 + frame.body.length)).length := by
      rw [List.length_drop, hcursor]
      omega
    have hsame : F.checksum (cursor.take (F.coveredRange bytes).size) =
        readLeU32 (cursor.drop (F.headSize + 4 + (F.bodyLen bytes).toNat)) :=
          hmatches
    have hcov : (F.coveredRange bytes).size =
        F.headSize + 4 + frame.body.length := by
      rw [coveredRange, UInt32.toNat_add, UInt32.toNat_ofNat', hlen]
      dsimp only
      omega
    rw [hcov, ← hcovered, ← hlen] at hsame
    rw [hsame, leBytes_readLeU32 hfour]
  have hencode : F.encode frame = bytes.take (F.overhead + frame.body.length) := by
    have hsplit : F.overhead + frame.body.length =
        F.magic.length + (F.headSize + 4 + frame.body.length + 4) := by
      simp only [overhead]
      omega
    rw [hsplit, List.take_add, List.take_add
      (i := F.headSize + 4 + frame.body.length),
      hmagic, encode, hstored, hcovered, List.append_assoc]
  rw [hencode, hadvance', List.take_append_drop]

/-- The ranges of an iteration lie inside the file, unless it compares a size
that is too small. -/
theorem reads_inside_iff (bytes : List UInt8) :
    (∀ range ∈ F.reads size bytes, range.start + range.size ≤ bytes.length) ↔
      (F.overhead ≤ bytes.length → bytes.take F.magic.length = F.magic →
        size (F.bodyLen bytes) ≤ bytes.length →
        F.wideSize (F.bodyLen bytes) ≤ bytes.length) := by
  have hcov : (F.coveredRange bytes).size ≤ F.headSize + 4 +
      (F.bodyLen bytes).toNat := by
    rw [coveredRange, UInt32.toNat_add, UInt32.toNat_ofNat']
    dsimp only
    omega
  rw [reads]
  by_cases hshort : bytes.length < F.overhead
  · rw [if_pos hshort]
    exact iff_of_true (by simp) fun hlong => absurd hshort (Nat.not_lt.mpr hlong)
  rw [if_neg hshort]
  by_cases hmagic : bytes.take F.magic.length = F.magic
  · rw [if_neg (by simpa using hmagic)]
    have hlong := Nat.not_lt.mp hshort
    rw [overhead] at hlong
    by_cases hsize : bytes.length < size (F.bodyLen bytes)
    · rw [if_pos hsize]
      refine iff_of_true ?_ fun _ _ hle => absurd hsize (Nat.not_lt.mpr hle)
      intro range hrange
      obtain rfl | hrange := List.mem_cons.mp hrange
      · dsimp only
        omega
      · rw [List.mem_singleton.mp hrange]
        dsimp only
        omega
    · rw [if_neg hsize, wideSize, overhead]
      constructor
      · intro hinside _ _ _
        have hstored := hinside (F.storedRange bytes) (by simp)
        rw [storedRange] at hstored
        dsimp only at hstored
        omega
      · intro hfits range hrange
        have hwide := hfits (by omega) hmagic (Nat.not_lt.mp hsize)
        simp only [List.mem_cons] at hrange
        obtain rfl | rfl | rfl | rfl | hrange := hrange
        · dsimp only
          omega
        · dsimp only
          omega
        · have hstart : (F.coveredRange bytes).start = F.magic.length := rfl
          omega
        · rw [storedRange]
          dsimp only
          omega
        · split at hrange
          · rw [List.mem_singleton.mp hrange]
            dsimp only
            omega
          · exact absurd hrange List.not_mem_nil
  · rw [if_pos (by simpa using hmagic)]
    refine iff_of_true ?_ fun _ hsame => absurd hsame hmagic
    intro range hrange
    rw [List.mem_singleton.mp hrange]
    simp only [overhead] at hshort
    dsimp only
    omega

/-- A compared size that is right unless it has wrapped. -/
def Comparison (F : FrameFormat) (size : UInt32 → Nat) : Prop :=
  ∀ bodyLen, size bodyLen ≤ F.wideSize bodyLen ∧
    (F.wideSize bodyLen < 2 ^ 32 → size bodyLen = F.wideSize bodyLen)

theorem comparison_narrow : F.Comparison F.narrowSize := by
  intro bodyLen
  refine ⟨narrowSize_le bodyLen, fun hless => ?_⟩
  simp only [wideSize, narrowSize, UInt32.toNat_add, UInt32.toNat_ofNat'] at hless ⊢
  omega

theorem comparison_wide : F.Comparison F.wideSize :=
  fun _ => ⟨Nat.le_refl _, fun _ => rfl⟩

theorem parseWith_of_matches (hlong : F.overhead ≤ bytes.length)
    (hmagic : bytes.take F.magic.length = F.magic)
    (hsize : size (F.bodyLen bytes) ≤ bytes.length)
    (hfits : F.wideSize (F.bodyLen bytes) ≤ bytes.length)
    (hmatches : F.Matches bytes) :
    ∃ frame, F.parseWith size bytes = .frame frame
      (F.narrowSize (F.bodyLen bytes)) := by
  rw [parseWith, if_neg (Nat.not_lt.mpr hlong), if_neg (by simpa using hmagic),
    if_neg (Nat.not_lt.mpr hsize), if_neg (Nat.not_lt.mpr hfits), if_neg (by simpa)]
  exact ⟨_, rfl⟩

theorem parseWith_encode (hcompare : F.Comparison size) {frame : Frame}
    (hframe : F.Fits frame) (rest : List UInt8) :
    F.parseWith size (F.encode frame ++ rest) =
      .frame frame (F.overhead + frame.body.length) := by
  have hparse := parse_encode hframe rest
  rw [length_encode hframe.head, parse_eq_parseWith] at hparse
  obtain ⟨hlong, hmagic, -, hfits, hmatches, hhead, hbody, hlen, hadvance⟩ :=
    parseWith_eq_frame hparse
  have hwide : F.wideSize (F.bodyLen (F.encode frame ++ rest)) ≤
      (F.encode frame ++ rest).length := by
    rw [wideSize, ← hlen]
    exact hfits
  rw [parseWith, if_neg (Nat.not_lt.mpr hlong), if_neg (by simpa using hmagic),
    if_neg (Nat.not_lt.mpr (Nat.le_trans (hcompare _).1 hwide)),
    if_neg (Nat.not_lt.mpr hwide), if_neg (by simpa), ← hhead, ← hbody, ← hadvance]

theorem not_wraps_of_safeScan (h : F.SafeScan size (F.parseWith size) bytes) :
    ¬ F.Wraps size bytes := by
  rintro ⟨hlong, hmagic, hwrap, hsize, hread⟩
  have hmatch : F.wideSize (F.bodyLen bytes) ≤ bytes.length → F.Matches bytes :=
    fun hfits => hread.resolve_left (Nat.not_lt.mpr hfits)
  cases h with
  | done =>
      rw [overhead] at hlong
      exact absurd hlong (by simp)
  | stop hreads hstep =>
      have hfits := (reads_inside_iff bytes).mp hreads hlong hmagic hsize
      obtain ⟨frame, hparse⟩ := parseWith_of_matches hlong hmagic hsize hfits
        (hmatch hfits)
      rw [hparse] at hstep
      exact absurd hstep (by simp)
  | next hreads hstep hrest =>
      obtain ⟨-, -, -, -, -, -, -, hlen, hadvance⟩ := parseWith_eq_frame hstep
      have hnarrow := (UInt32.ofNat F.overhead + F.bodyLen bytes).toNat_lt
      rw [hlen, narrowSize] at hadvance
      omega

theorem safeScan_rest (hcompare : F.Comparison size) {frame : Frame}
    (hframe : F.Fits frame) {rest : List UInt8}
    (h : F.SafeScan size (F.parseWith size) (F.encode frame ++ rest)) :
    F.SafeScan size (F.parseWith size) rest := by
  have hparse := parseWith_encode hcompare hframe rest
  generalize hbytes : F.encode frame ++ rest = bytes at h
  rw [hbytes] at hparse
  cases h with
  | done => exact absurd (List.append_eq_nil_iff.mp hbytes).1 (encode_ne_nil hframe)
  | stop hreads hstep =>
      rw [hparse] at hstep
      exact absurd hstep (by simp)
  | next hreads hstep hrest =>
      rw [hparse] at hstep
      obtain ⟨rfl, -⟩ := Parsed.frame.inj hstep
      rwa [← hbytes, ← length_encode hframe.head, List.drop_left] at hrest

/-- The loop is safe exactly if behind no run of whole frames stands a record
whose size wraps. -/
theorem safeScan_iff (hcompare : F.Comparison size) (bytes : List UInt8) :
    F.SafeScan size (F.parseWith size) bytes ↔
      ∀ frames rest, (∀ frame ∈ frames, F.Fits frame) →
        bytes = F.encodeAll frames ++ rest → ¬ F.Wraps size rest := by
  constructor
  · intro h frames rest hfits hbytes
    subst hbytes
    induction frames with
    | nil => exact not_wraps_of_safeScan h
    | cons frame frames ih =>
        rw [encodeAll_cons, List.append_assoc] at h
        exact ih (fun other hother => hfits other (List.mem_cons_of_mem _ hother))
          (safeScan_rest hcompare (hfits frame List.mem_cons_self) h)
  · intro h
    induction hlength : bytes.length using Nat.strong_induction_on
      generalizing bytes with
    | h length ih =>
        have hhere := h [] bytes (by simp) rfl
        cases hparse : F.parseWith size bytes with
        | bad =>
            refine .stop ((reads_inside_iff bytes).mpr ?_) hparse
            intro hlong hmagic hsize
            by_contra hfits
            rw [parseWith, if_neg (Nat.not_lt.mpr hlong),
              if_neg (by simpa using hmagic),
              if_neg (Nat.not_lt.mpr hsize), if_pos (Nat.not_le.mp hfits)] at hparse
            exact absurd hparse (by simp)
        | fault =>
            simp only [parseWith] at hparse
            split_ifs at hparse with hshort hmagic hsize hfits hmatches
            have hwrap : ¬ F.wideSize (F.bodyLen bytes) < 2 ^ 32 := by
              intro hless
              rw [(hcompare _).2 hless] at hsize
              exact hsize hfits
            exact absurd ⟨Nat.not_lt.mp hshort, Decidable.not_not.mp hmagic,
              Nat.not_lt.mp hwrap, Nat.not_lt.mp hsize, .inl hfits⟩ hhere
        | frame frame advance =>
            obtain ⟨hlong, hmagic, hsize, hfits, hmatches, -, -, hlen, -⟩ :=
              parseWith_eq_frame hparse
            by_cases hless : F.overhead + frame.body.length < 2 ^ 32
            · obtain ⟨hframe, hbytes, rfl⟩ := parseWith_frame hparse hless
              have hinside : ∀ range ∈ F.reads size bytes,
                  range.start + range.size ≤ bytes.length := by
                rw [reads_inside_iff]
                intro _ _ _
                rw [wideSize, ← hlen]
                exact hfits
              refine .next hinside hparse (ih _ ?_ _ ?_ rfl)
              · rw [List.length_drop, ← hlength]
                rw [overhead] at hlong ⊢
                omega
              · intro frames rest hframes hrest
                refine h (frame :: frames) rest ?_ ?_
                · intro other hother
                  obtain rfl | hother := List.mem_cons.mp hother
                  · exact hframe
                  · exact hframes other hother
                · rw [encodeAll_cons, List.append_assoc, ← hrest]
                  exact hbytes
            · rw [hlen] at hless
              exact absurd ⟨hlong, hmagic, Nat.not_lt.mp hless, hsize, .inr hmatches⟩
                hhere

theorem not_safeScan_of_fault {step : List UInt8 → Parsed} (hne : bytes ≠ [])
    (hfault : step bytes = .fault) : ¬ F.SafeScan size step bytes := by
  intro h
  cases h with
  | done => exact hne rfl
  | stop hreads hstep => exact absurd (hfault.symm.trans hstep) (by simp)
  | next hreads hstep hrest => exact absurd (hfault.symm.trans hstep) (by simp)

/-- A safe scan has a result. -/
theorem SafeScan.isSome (h : F.SafeScan size (F.parseWith size) bytes) {fuel : Nat}
    (hfuel : bytes.length ≤ fuel) :
    (scanLoop (F.parseWith size) fuel bytes).isSome := by
  induction h generalizing fuel with
  | done => cases fuel <;> rfl
  | @stop bytes hreads hstep =>
      cases bytes with
      | nil => cases fuel <;> rfl
      | cons byte rest =>
          cases fuel with
          | zero => exact absurd hfuel (by simp)
          | succ fuel =>
              rw [scanLoop, hstep]
              rfl
  | @next bytes frame hreads hstep hrest ih =>
      have hlong := (parseWith_eq_frame hstep).1
      rw [overhead] at hlong
      cases fuel with
      | zero => omega
      | succ fuel =>
          have hne : bytes ≠ [] := List.ne_nil_of_length_pos (by omega)
          rw [scanLoop_cons_frame _ fuel hne hstep, Option.isSome_map]
          apply ih
          rw [List.length_drop, overhead]
          omega

/-- Where the narrow loop is safe, the wide one reads the same. -/
theorem SafeScan.scanLoop_wide (h : F.SafeScan F.narrowSize F.parse bytes)
    (fuel : Nat) : scanLoop F.parseWide fuel bytes =
      scanLoop F.parse fuel bytes := by
  induction h generalizing fuel with
  | done => cases fuel <;> rfl
  | @stop bytes hreads hstep =>
      have hwide : F.parseWide bytes = .bad := by rw [parseWide_eq, hstep]
      cases bytes with
      | nil => cases fuel <;> rfl
      | cons byte rest =>
          cases fuel with
          | zero => rfl
          | succ fuel => rw [scanLoop, scanLoop, hstep, hwide]
  | @next bytes frame hreads hstep hrest ih =>
      have hwide : F.parseWide bytes =
          .frame frame (F.overhead + frame.body.length) := by
        rw [parseWide_eq, hstep]
      cases bytes with
      | nil => cases fuel <;> rfl
      | cons byte rest =>
          cases fuel with
          | zero => rfl
          | succ fuel =>
              rw [scanLoop_cons_frame _ fuel (List.cons_ne_nil _ _) hwide,
                scanLoop_cons_frame _ fuel (List.cons_ne_nil _ _) hstep, ih]

end FrameFormat

/-- Each of the three loops ends with a result, reads only bytes of the file
and goes forward by whole records, exactly if behind no run of whole records
stands one whose size wraps. -/
theorem scans_safe_iff (bytes : List UInt8) :
    (remoteFormat.SafeScan remoteFormat.narrowSize remoteFormat.parse bytes ∧
        (scanRemoteLog bytes).isSome ↔
      ∀ frames rest, (∀ frame ∈ frames, remoteFormat.Fits frame) →
        bytes = remoteFormat.encodeAll frames ++ rest →
          ¬ remoteFormat.Wraps remoteFormat.narrowSize rest) ∧
    (remoteFormat.SafeScan remoteFormat.wideSize remoteFormat.parseWide bytes ∧
        (∀ opened, (RemoteLog.construct bytes opened).isSome) ↔
      ∀ frames rest, (∀ frame ∈ frames, remoteFormat.Fits frame) →
        bytes = remoteFormat.encodeAll frames ++ rest →
          ¬ remoteFormat.Wraps remoteFormat.wideSize rest) ∧
    (receiverFormat.SafeScan receiverFormat.narrowSize receiverFormat.parse bytes ∧
        (scanExisting bytes).isSome ↔
      ∀ frames rest, (∀ frame ∈ frames, receiverFormat.Fits frame) →
        bytes = receiverFormat.encodeAll frames ++ rest →
          ¬ receiverFormat.Wraps receiverFormat.narrowSize rest) := by
  have hwide : remoteFormat.parseWide = remoteFormat.parseWith
      remoteFormat.wideSize :=
    funext FrameFormat.parseWide_eq_parseWith
  refine ⟨?_, ?_, ?_⟩
  · rw [← FrameFormat.safeScan_iff FrameFormat.comparison_narrow]
    refine ⟨And.left, fun hsafe => ⟨hsafe, ?_⟩⟩
    rw [scanRemoteLog, Option.isSome_map]
    exact hsafe.isSome (Nat.le_refl _)
  · rw [← FrameFormat.safeScan_iff FrameFormat.comparison_wide, hwide]
    refine ⟨And.left, fun hsafe => ⟨hsafe, fun opened => ?_⟩⟩
    rw [RemoteLog.construct, Option.isSome_map, hwide]
    exact hsafe.isSome (Nat.le_refl _)
  · rw [← FrameFormat.safeScan_iff FrameFormat.comparison_narrow]
    refine ⟨And.left, fun hsafe => ⟨hsafe, ?_⟩⟩
    rw [scanExisting, Option.isSome_map]
    exact hsafe.isSome (Nat.le_refl _)

/-- Files of a single header whose length field is `FFFFFFFF`. -/
theorem maxLength_readsOutside :
    let remoteFile : List UInt8 := [0x55, 0x4C, 0x52, 0x31, 1] ++ leBytes 8 7 ++
      [0xFF, 0xFF, 0xFF, 0xFF] ++ [0, 0, 0, 0]
    let receiverFile : List UInt8 := [0x52, 0x43, 0x56, 0x31, 1] ++ leBytes 8 3 ++
      leBytes 8 7 ++ [0xFF, 0xFF, 0xFF, 0xFF] ++ [0, 0, 0, 0]
    (remoteFormat.parse remoteFile = .fault ∧
      ¬ remoteFormat.SafeScan remoteFormat.narrowSize remoteFormat.parse
        remoteFile) ∧
    (receiverFormat.parse receiverFile = .fault ∧
      ¬ receiverFormat.SafeScan receiverFormat.narrowSize receiverFormat.parse
        receiverFile) := by
  intro remoteFile receiverFile
  have hremote : remoteFormat.parse remoteFile = .fault := by decide
  have hreceiver : receiverFormat.parse receiverFile = .fault := by decide
  exact ⟨⟨hremote, FrameFormat.not_safeScan_of_fault (by simp [remoteFile]) hremote⟩,
    ⟨hreceiver, FrameFormat.not_safeScan_of_fault
      (by simp [receiverFile]) hreceiver⟩⟩

/-- No length field at a position where a record begins exceeds `2 ^ 32 - 22`. -/
def ModestLengths (bytes : List UInt8) : Prop :=
  ∀ frames rest, (∀ frame ∈ frames, remoteFormat.Fits frame) →
    bytes = remoteFormat.encodeAll frames ++ rest →
    remoteFormat.overhead ≤ rest.length → rest.take 4 = remoteFormat.magic →
    (remoteFormat.bodyLen rest).toNat ≤ 2 ^ 32 - 22

/-- The constructor finds exactly the ids of the data records that
`scan_remote_log` reads. -/
theorem construct_agrees_scan (bytes : List UInt8) (hlengths : ModestLengths bytes)
    (opened : Bool) :
    ∃ frames bad log, remoteFormat.scan bytes = some (frames, bad) ∧
      scanRemoteLog bytes = some (.ofRecords (frames.map LogRecord.ofFrame) bad) ∧
      RemoteLog.construct bytes opened = some log ∧
      ∀ id, id ∈ log.dataIds ↔
        ∃ record ∈ frames.map LogRecord.ofFrame, record.type = 1 ∧
          record.msgId = id := by
  have hsafe : remoteFormat.SafeScan remoteFormat.narrowSize
      remoteFormat.parse bytes := by
    apply (FrameFormat.safeScan_iff FrameFormat.comparison_narrow bytes).mpr
    rintro frames rest hfits hbytes ⟨hlong, hmagic, hwrap, -, -⟩
    have hlength := hlengths frames rest hfits hbytes hlong hmagic
    have hoverhead : remoteFormat.overhead = 21 := rfl
    omega
  have hsome : (remoteFormat.scan bytes).isSome := hsafe.isSome (Nat.le_refl _)
  obtain ⟨⟨frames, bad⟩, hscan⟩ := Option.isSome_iff_exists.mp hsome
  have hwide : FrameFormat.scanLoop remoteFormat.parseWide bytes.length bytes =
      some (frames, bad) := by
    rw [hsafe.scanLoop_wide]
    exact hscan
  refine ⟨frames, bad, ⟨opened, (((frames.map LogRecord.ofFrame).filter
    (·.type = 1)).map (·.msgId)).toFinset⟩, hscan, ?_, ?_, ?_⟩
  · rw [scanRemoteLog, hscan, Option.map_some]
  · rw [RemoteLog.construct, hwide, Option.map_some]
  · intro id
    simp [List.mem_filter, and_assoc]

/-- A data record and ten bytes of garbage. -/
theorem construct_agrees_scan_garbage :
    ∃ frames bad log,
      remoteFormat.scan (remoteFormat.encode (LogRecord.toFrame ⟨1, 7, [5]⟩) ++
        List.replicate 10 0) = some (frames, bad) ∧
      scanRemoteLog (remoteFormat.encode (LogRecord.toFrame ⟨1, 7, [5]⟩) ++
        List.replicate 10 0) = some (.ofRecords (frames.map LogRecord.ofFrame) bad) ∧
      RemoteLog.construct (remoteFormat.encode (LogRecord.toFrame ⟨1, 7, [5]⟩) ++
        List.replicate 10 0) true = some log ∧
      ∀ id, id ∈ log.dataIds ↔
        ∃ record ∈ frames.map LogRecord.ofFrame, record.type = 1 ∧
          record.msgId = id := by
  apply construct_agrees_scan
  intro frames rest hfits hbytes hlong hmagic
  have hoverhead : remoteFormat.overhead = 21 := rfl
  cases frames with
  | nil =>
      obtain rfl : _ = rest := hbytes
      decide
  | cons frame frames =>
      have hframe := FrameFormat.length_encode (hfits frame List.mem_cons_self).head
      have hlength := congrArg List.length hbytes
      have hwhole : (remoteFormat.encode
          (LogRecord.toFrame ⟨1, 7, [5]⟩)).length = 22 := by
        decide
      rw [FrameFormat.encodeAll_cons, List.append_assoc, List.length_append, hwhole,
        List.length_append, List.length_append, hframe,
          List.length_replicate] at hlength
      omega

end UltraNet
