/-
The byte stream of one outbound connection: `post_frame` queues frames,
`write_loop` takes what is queued and writes it piece by piece, and
`read_frame` of the other side puts the frames together again.  Writes and
reads may be cut anywhere.  After a write that fails, or once the connection
is given up, no frame is taken any more.
-/
import UltraNet.Transport

namespace UltraNet

/-- `unwritten` is what `write_bytes` has still to write of its batch, `wire`
what was written and not read yet, and `got` what `read_frame` has so far. -/
structure FrameStream where
  frames : List (List UInt8)
  writing : Bool
  valid : Bool
  unwritten : List UInt8
  wire : List UInt8
  got : List UInt8

/-- How many bytes a loop of `read_frame` still reads; none for a length that
it rejects. -/
def wanted (got : List UInt8) : Option Nat :=
  if got.length < 4 then some (4 - got.length)
  else if readLeU32 (got.take 4) = 0 ∨ (readLeU32 (got.take 4)).toNat > kDefaultSize then none
  else some ((readLeU32 (got.take 4)).toNat - (got.length - 4))

/-- The steps of the writing side. -/
inductive WriterAction where
  -- `notify_dead` from elsewhere
  | markDead
  -- the locked section of `write_loop`
  | takeBatch
  -- `Write` returns a number of bytes, or fails
  | write (count : Nat)
  | writeFails

namespace FrameStream

def idle : FrameStream := ⟨[], false, true, [], [], []⟩

/-- `outbound_conn::post_frame`; it returns `valid`. -/
def postFrame (s : FrameStream) (frame : List UInt8) : FrameStream :=
  if s.valid then { s with frames := s.frames ++ [frame], writing := true } else s

def writer (s : FrameStream) : WriterAction → Option FrameStream
  | .markDead => some { s with valid := false }
  | .takeBatch =>
      if s.writing ∧ s.unwritten = [] then
        if s.frames = [] ∨ !s.valid then some { s with writing := false }
        else some { s with unwritten := s.frames.foldl appendPrefixedFrame [], frames := [] }
      else none
  | .write count =>
      if 0 < count ∧ count ≤ s.unwritten.length then
        some { s with
          unwritten := s.unwritten.drop count
          wire := s.wire ++ s.unwritten.take count }
      else none
  | .writeFails =>
      if s.unwritten = [] then none
      else some { s with frames := [], writing := false, valid := false, unwritten := [] }

/-- `Read` returns a number of bytes. -/
def read (s : FrameStream) (count : Nat) : Option FrameStream :=
  match wanted s.got with
  | none => none
  | some want =>
      if 0 < count ∧ count ≤ want ∧ count ≤ s.wire.length then
        some { s with wire := s.wire.drop count, got := s.got ++ s.wire.take count }
      else none

/-- `read_frame` returns its payload. -/
def takeFrame (s : FrameStream) : Option (List UInt8 × FrameStream) :=
  if wanted s.got = some 0 then some (s.got.drop 4, { s with got := [] }) else none

/-- All bytes under way, those to be read first in front. -/
def bytes (s : FrameStream) : List UInt8 :=
  s.got ++ (s.wire ++ (s.unwritten ++ s.frames.flatMap prefixed))

/-- The stream carries these frames, and nothing else; of the last ones bytes
may be missing when the connection was given up. -/
structure Carries (s : FrameStream) (queue : List (List UInt8)) : Prop where
  legal : ∀ frame ∈ queue, LegalLength frame
  cut : s.bytes <+: queue.flatMap prefixed
  whole : s.valid = true → s.bytes = queue.flatMap prefixed
  started : s.got <+: (queue.head?.map prefixed).getD []
  busy : s.valid = true → s.frames ≠ [] ∨ s.unwritten ≠ [] → s.writing = true

theorem idle_carries : idle.Carries [] :=
  ⟨nofun, List.prefix_rfl, fun _ => rfl, List.prefix_rfl, fun _ hbusy => by simp [idle] at hbusy⟩

end FrameStream

theorem length_prefixed (frame : List UInt8) : (prefixed frame).length = 4 + frame.length := by
  rw [prefixed, List.length_append, length_leBytes]

/-- Inside a legal frame the reader wants bytes of that frame only, and none
exactly at its end. -/
theorem wanted_of_prefix {got frame : List UInt8} (hlegal : LegalLength frame)
    (hgot : got <+: prefixed frame) :
    ∃ want, wanted got = some want ∧ got.length + want ≤ (prefixed frame).length ∧
      (want = 0 ↔ got = prefixed frame) := by
  obtain ⟨hpositive, hsize⟩ := hlegal
  have hle := hgot.length_le
  rw [length_prefixed] at hle ⊢
  have hend : got = prefixed frame ↔ 4 + frame.length ≤ got.length := by
    constructor
    · rintro rfl
      rw [length_prefixed]
    · intro hlong
      exact hgot.eq_of_length_le (by rwa [length_prefixed])
  unfold wanted
  rw [hend]
  by_cases hshort : got.length < 4
  · rw [if_pos hshort]
    exact ⟨_, rfl, by omega, by omega⟩
  · have hlength : (UInt32.ofNat frame.length).toNat = frame.length := by
      apply UInt32.toNat_ofNat_of_lt'
      simp only [kDefaultSize] at hsize
      simp only [UInt32.size]
      omega
    have htake : got.take 4 = leBytes 4 (UInt32.ofNat frame.length).toNat := by
      obtain ⟨rest, hrest⟩ := hgot
      have hfront : (got ++ rest).take 4 = (prefixed frame).take 4 := by rw [hrest]
      rw [List.take_append_of_le_length (by omega), prefixed,
        List.take_left' (length_leBytes 4 _)] at hfront
      exact hfront
    have hread : readLeU32 (got.take 4) = UInt32.ofNat frame.length := by
      have hwritten := readLeU32_leBytes (UInt32.ofNat frame.length).toNat []
      rwa [List.append_nil, UInt32.ofNat_toNat, ← htake] at hwritten
    have hzero : UInt32.ofNat frame.length ≠ 0 := by
      intro hzero
      rw [hzero] at hlength
      exact hpositive.ne hlength
    rw [if_neg hshort, hread, hlength, if_neg (by
      rintro (hempty | hlarge)
      · exact hzero hempty
      · omega)]
    exact ⟨_, rfl, by omega, by omega⟩

namespace FrameStream

variable {s t : FrameStream} {queue : List (List UInt8)}

theorem Carries.postFrame (hs : s.Carries queue) {frame : List UInt8}
    (hframe : LegalLength frame) :
    (s.postFrame frame).Carries (if s.valid then queue ++ [frame] else queue) := by
  unfold FrameStream.postFrame
  split
  · rename_i hvalid
    have hbytes : ({ s with frames := s.frames ++ [frame], writing := true } : FrameStream).bytes =
        (queue ++ [frame]).flatMap prefixed := by
      have hwhole := hs.whole hvalid
      simp only [bytes] at hwhole ⊢
      rw [List.flatMap_append, List.flatMap_append, ← hwhole]
      simp only [List.append_assoc]
    refine ⟨?_, ?_, fun _ => hbytes, ?_, fun _ _ => rfl⟩
    · intro other hother
      obtain hold | hnew := List.mem_append.mp hother
      · exact hs.legal other hold
      · rw [List.mem_singleton.mp hnew]
        exact hframe
    · exact ⟨[], by rw [hbytes, List.append_nil]⟩
    · have hstarted := hs.started
      cases queue with
      | nil =>
          have hnil : s.got = [] := by simpa using hstarted
          show s.got <+: _
          rw [hnil]
          exact List.nil_prefix
      | cons first rest => exact hstarted
  · exact hs

/-- The writing side moves the bytes on, or drops the last ones. -/
theorem Carries.writer (hs : s.Carries queue) {action : WriterAction}
    (hstep : s.writer action = some t) : t.Carries queue := by
  cases action with
  | markDead =>
      obtain rfl := Option.some.inj hstep
      exact ⟨hs.legal, hs.cut, nofun, hs.started, nofun⟩
  | takeBatch =>
      obtain ⟨⟨hwriting, hdone⟩, hnext⟩ := Option.ite_none_right_eq_some.mp hstep
      split at hnext
      · rename_i hstop
        obtain rfl := Option.some.inj hnext
        refine ⟨hs.legal, hs.cut, hs.whole, hs.started, ?_⟩
        intro hvalid hbusy
        have hframes : s.frames = [] := by
          obtain hempty | hdead := hstop
          · exact hempty
          · rw [show s.valid = true from hvalid] at hdead
            cases hdead
        obtain hframe | hbyte := hbusy
        · exact absurd hframes hframe
        · exact absurd hdone hbyte
      · obtain rfl := Option.some.inj hnext
        have hbytes : ({ s with
            unwritten := s.frames.foldl appendPrefixedFrame [], frames := [] } :
              FrameStream).bytes = s.bytes := by
          simp only [bytes]
          rw [hdone, foldl_appendPrefixedFrame]
          simp
        refine ⟨hs.legal, ?_, ?_, hs.started, fun _ _ => hwriting⟩
        · rw [hbytes]
          exact hs.cut
        · rw [hbytes]
          exact hs.whole
  | write count =>
      obtain ⟨-, hnext⟩ := Option.ite_none_right_eq_some.mp hstep
      obtain rfl := Option.some.inj hnext
      have hbytes : ({ s with
          unwritten := s.unwritten.drop count
          wire := s.wire ++ s.unwritten.take count } : FrameStream).bytes = s.bytes := by
        simp only [bytes]
        rw [List.append_assoc s.wire, ← List.append_assoc (s.unwritten.take count),
          List.take_append_drop]
      refine ⟨hs.legal, ?_, ?_, hs.started, ?_⟩
      · rw [hbytes]
        exact hs.cut
      · rw [hbytes]
        exact hs.whole
      · intro hvalid hbusy
        refine hs.busy hvalid (hbusy.imp_right fun hdrop hnil => hdrop ?_)
        rw [hnil, List.drop_nil]
  | writeFails =>
      obtain ⟨-, hnext⟩ := Option.ite_none_left_eq_some.mp hstep
      obtain rfl := Option.some.inj hnext
      refine ⟨hs.legal, ?_, nofun, hs.started, nofun⟩
      apply List.IsPrefix.trans ?_ hs.cut
      simp only [bytes, List.flatMap_nil, List.append_nil]
      rw [← List.append_assoc]
      exact List.prefix_append _ _

/-- A read stays inside the first frame. -/
theorem Carries.read (hs : s.Carries queue) {count : Nat} (hstep : s.read count = some t) :
    t.Carries queue := by
  unfold FrameStream.read at hstep
  cases hwanted : wanted s.got with
  | none => simp [hwanted] at hstep
  | some want =>
      simp only [hwanted] at hstep
      obtain ⟨⟨hpositive, hwant, hwire⟩, hnext⟩ := Option.ite_none_right_eq_some.mp hstep
      obtain rfl := Option.some.inj hnext
      have hmoved : s.got ++ (s.wire.take count ++ (s.wire.drop count ++ (s.unwritten ++
          s.frames.flatMap prefixed))) = s.bytes := by
        rw [← List.append_assoc (s.wire.take count), List.take_append_drop]
        rfl
      have hbytes : ({ s with
          wire := s.wire.drop count, got := s.got ++ s.wire.take count } : FrameStream).bytes =
            s.bytes := by
        rw [← hmoved]
        simp only [bytes, List.append_assoc]
      refine ⟨hs.legal, ?_, ?_, ?_, hs.busy⟩
      · rw [hbytes]
        exact hs.cut
      · rw [hbytes]
        exact hs.whole
      · cases queue with
        | nil =>
            have hnone : s.bytes = [] := by simpa using hs.cut
            have : s.wire = [] := by
              simp only [bytes, List.append_eq_nil_iff] at hnone
              exact hnone.2.1
            rw [this, List.length_nil] at hwire
            omega
        | cons first rest =>
            have hlegal := hs.legal first List.mem_cons_self
            have hstarted : s.got <+: prefixed first := hs.started
            obtain ⟨want', hwanted', hinside, -⟩ := wanted_of_prefix hlegal hstarted
            obtain rfl : want = want' := Option.some.inj (hwanted.symm.trans hwanted')
            show s.got ++ s.wire.take count <+: prefixed first
            have hall : s.got ++ s.wire.take count <+: prefixed first ++ rest.flatMap prefixed := by
              apply List.IsPrefix.trans ?_ hs.cut
              rw [← hmoved, ← List.append_assoc]
              exact List.prefix_append _ _
            apply List.prefix_of_prefix_length_le hall (List.prefix_append _ _)
            rw [List.length_append, List.length_take]
            omega

/-- What `read_frame` returns is the first frame. -/
theorem Carries.takeFrame (hs : s.Carries queue) {payload : List UInt8}
    (htake : s.takeFrame = some (payload, t)) :
    ∃ rest, queue = payload :: rest ∧ t.Carries rest := by
  obtain ⟨hwanted, hnext⟩ := Option.ite_none_right_eq_some.mp htake
  cases hnext
  cases queue with
  | nil =>
      have hnil : s.got = [] := by simpa using hs.started
      rw [hnil] at hwanted
      cases hwanted
  | cons first rest =>
      have hlegal := hs.legal first List.mem_cons_self
      have hstarted : s.got <+: prefixed first := hs.started
      obtain ⟨want, hwanted', -, hend⟩ := wanted_of_prefix hlegal hstarted
      have hgot : s.got = prefixed first :=
        hend.mp (Option.some.inj (hwanted'.symm.trans hwanted))
      have hpayload : s.got.drop 4 = first := by
        rw [hgot, prefixed, List.drop_left' (length_leBytes 4 _)]
      rw [hpayload]
      refine ⟨rest, rfl, fun frame hframe => hs.legal frame (List.mem_cons_of_mem _ hframe), ?_,
        ?_, List.nil_prefix, hs.busy⟩
      · have hcut := hs.cut
        simp only [bytes, hgot, List.flatMap_cons] at hcut ⊢
        exact (List.prefix_append_right_inj _).mp hcut
      · intro hvalid
        have hwhole := hs.whole hvalid
        simp only [bytes, hgot, List.flatMap_cons] at hwhole ⊢
        exact List.append_cancel_left hwhole

theorem read_valid {count : Nat} (hstep : s.read count = some t) : t.valid = s.valid := by
  unfold FrameStream.read at hstep
  cases hwanted : wanted s.got with
  | none => simp [hwanted] at hstep
  | some want =>
      simp only [hwanted] at hstep
      obtain ⟨-, hnext⟩ := Option.ite_none_right_eq_some.mp hstep
      obtain rfl := Option.some.inj hnext
      rfl

theorem takeFrame_valid {payload : List UInt8} (htake : s.takeFrame = some (payload, t)) :
    t.valid = s.valid := by
  obtain ⟨-, hnext⟩ := Option.ite_none_right_eq_some.mp htake
  cases hnext
  rfl

/-- How far the bytes under way have still to go. -/
def distance (s : FrameStream) : Nat :=
  4 * (s.frames.flatMap prefixed).length + 3 * s.unwritten.length + 2 * s.wire.length +
    s.got.length

/-- While the connection is valid and carries a frame, some step brings its
bytes nearer to the handler. -/
theorem Carries.progress (hs : s.Carries queue) (hvalid : s.valid = true) (hqueue : queue ≠ []) :
    (∃ payload t, s.takeFrame = some (payload, t) ∧ t.valid = true ∧ t.distance < s.distance) ∨
      (∃ t, s.read 1 = some t ∧ t.valid = true ∧ t.distance < s.distance) ∨
      ∃ action t, s.writer action = some t ∧ t.valid = true ∧ t.distance < s.distance := by
  obtain ⟨first, rest, rfl⟩ := List.exists_cons_of_ne_nil hqueue
  have hlegal := hs.legal first List.mem_cons_self
  have hstarted : s.got <+: prefixed first := hs.started
  obtain ⟨want, hwanted, -, hend⟩ := wanted_of_prefix hlegal hstarted
  cases want with
  | zero =>
      have hgot := hend.mp rfl
      refine .inl ⟨_, _, if_pos hwanted, hvalid, ?_⟩
      have hlength : s.got.length = 4 + first.length := by rw [hgot, length_prefixed]
      simp only [distance, List.length_nil]
      omega
  | succ want =>
      by_cases hwire : s.wire = []
      · by_cases hunwritten : s.unwritten = []
        · have hframes : s.frames ≠ [] := by
            intro hnone
            have hwhole := hs.whole hvalid
            simp only [bytes, hwire, hunwritten, hnone, List.flatMap_cons, List.flatMap_nil,
              List.append_nil] at hwhole
            have hlength := congrArg List.length hwhole
            have hle := hstarted.length_le
            rw [List.length_append] at hlength
            have hsame : s.got = prefixed first := hstarted.eq_of_length_le (by omega)
            exact absurd (hend.mpr hsame) (Nat.succ_ne_zero want)
          have hwriting := hs.busy hvalid (.inl hframes)
          refine .inr (.inr ⟨.takeBatch, { s with
            unwritten := s.frames.foldl appendPrefixedFrame [], frames := [] }, ?_, hvalid, ?_⟩)
          · exact (if_pos ⟨hwriting, hunwritten⟩).trans (if_neg (by simp [hframes, hvalid]))
          · obtain ⟨frame, frames, hcons⟩ := List.exists_cons_of_ne_nil hframes
            have hpositive := length_prefixed frame
            simp only [distance, foldl_appendPrefixedFrame, hunwritten, hcons, List.nil_append,
              List.flatMap_nil, List.length_nil, List.flatMap_cons, List.length_append]
            omega
        · have hpositive := List.length_pos_iff.mpr hunwritten
          refine .inr (.inr ⟨.write 1, _, if_pos ⟨Nat.one_pos, hpositive⟩, hvalid, ?_⟩)
          simp only [distance, List.length_append, List.length_drop, List.length_take]
          omega
      · have hpositive := List.length_pos_iff.mpr hwire
        refine .inr (.inl ⟨{ s with
          wire := s.wire.drop 1, got := s.got ++ s.wire.take 1 }, ?_, hvalid, ?_⟩)
        · simp only [FrameStream.read, hwanted]
          rw [if_pos ⟨Nat.one_pos, by omega, hpositive⟩]
        · simp only [distance, List.length_append, List.length_drop, List.length_take]
          omega

end FrameStream

end UltraNet
