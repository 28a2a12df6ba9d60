/-
The frames of an outbound connection on the wire: `post_frame` queues them,
`write_loop` writes what is queued in batches with a length before each frame,
and `read_frame` reads them back on the other side.  Writes and reads may be
cut anywhere; the connection does not fail and no read times out.
-/
import UltraNet.ByteOrder
import UltraNet.GuardedRun
import Mathlib.Data.PNat.Defs

namespace UltraNet

/-- How many bytes each `Write` or `Read` moves at most. -/
abbrev Chunks := Nat → ℕ+

def appendPrefixedFrame (out frame : List UInt8) : List UInt8 :=
  out ++ leBytes 4 (UInt32.ofNat frame.length).toNat ++ frame

/-- `outbound_conn` between two critical sections.  `batches` is a ghost: what
`write_loop` has taken, oldest first. -/
structure OutboundConn where
  frames : List (List UInt8)
  writing : Bool
  batches : List (List (List UInt8))

inductive ConnEvent where
  | postFrame (frame : List UInt8)
  -- the locked section of `write_loop`
  | takeBatch

namespace OutboundConn

def step (conn : OutboundConn) : ConnEvent → Option OutboundConn
  -- every caller has checked that there is a pool to run `write_loop`
  | .postFrame frame =>
      some { conn with frames := conn.frames ++ [frame], writing := true }
  | .takeBatch =>
      if conn.writing then
        if conn.frames = [] then some { conn with writing := false }
        else some ⟨[], true, conn.batches ++ [conn.frames]⟩
      else none

def machine : Machine OutboundConn ConnEvent := ⟨⟨[], false, []⟩, step⟩

end OutboundConn

/-- The frames for which `post_frame` returned true, in order. -/
def posted (word : List ConnEvent) : List (List UInt8) :=
  word.filterMap fun
    | .postFrame frame => some frame
    | .takeBatch => none

/-- `write_bytes`: the pieces that are written, and the number of writes. -/
def writeBytes (writes : Chunks) (data : List UInt8) (count : Nat) :
    List (List UInt8) × Nat :=
  if data = [] then ([], count)
  else
    let (pieces, total) :=
      writeBytes writes (data.drop (writes count)) (count + 1)
    (data.take (writes count) :: pieces, total)
termination_by data.length
decreasing_by
  have := (writes count).pos
  have := List.length_pos_iff.mpr ‹_›
  rw [List.length_drop]
  omega

/-- The stream that the batches of `write_loop` make. -/
def writeBatches (writes : Chunks) :
    List (List (List UInt8)) → Nat → List UInt8
  | [], _ => []
  | batch :: rest, count =>
      let (pieces, count) :=
        writeBytes writes (batch.foldl appendPrefixedFrame []) count
      pieces.flatten ++ writeBatches writes rest count

/-- The other end of the stream: the bytes not read yet, and the number of
reads so far. -/
structure Wire where
  bytes : List UInt8
  count : Nat

/-- `frame_read`. -/
structure FrameRead where
  ok : Bool
  bytes : List UInt8
deriving DecidableEq

/-- `recv_buffer::k_default_size`. -/
def kDefaultSize : Nat := 256 * 1024

/-- The loops of `read_frame`: read until `want` bytes are there, or the
stream has ended. -/
def readLoop (reads : Chunks) (want : Nat) (wire : Wire) :
    Option (List UInt8 × Wire) :=
  if want = 0 then some ([], wire)
  else if wire.bytes = [] then none
  else
    let chunk := wire.bytes.take (min (reads wire.count) want)
    (readLoop reads (want - chunk.length)
      ⟨wire.bytes.drop chunk.length, wire.count + 1⟩).map
        fun (bytes, wire) => (chunk ++ bytes, wire)
termination_by want
decreasing_by
  have := (reads wire.count).pos
  have := List.length_pos_iff.mpr ‹¬ wire.bytes = []›
  simp only [List.length_take]
  omega

def readFrame (reads : Chunks) (wire : Wire) : FrameRead × Wire :=
  match readLoop reads 4 wire with
  | none => (⟨false, []⟩, wire)
  | some (lengthBytes, wire) =>
      let length := readLeU32 lengthBytes
      if length = 0 ∨ length.toNat > kDefaultSize then (⟨false, []⟩, wire)
      else
        match readLoop reads length.toNat wire with
        | none => (⟨false, []⟩, wire)
        | some (payload, wire) => (⟨true, payload⟩, wire)

/-- Successive calls; the connection is closed after one that fails. -/
def readFrames (reads : Chunks) : Nat → Wire → List FrameRead
  | 0, _ => []
  | calls + 1, wire =>
      let (found, wire) := readFrame reads wire
      found :: if found.ok then readFrames reads calls wire else []

/-- However the writes are cut, the pieces are the data. -/
theorem flatten_writeBytes (writes : Chunks) (data : List UInt8) (count : Nat) :
    (writeBytes writes data count).1.flatten = data := by
  fun_induction writeBytes writes data count with
  | case1 count => rfl
  | case2 data count hdata pieces total hrest ih =>
      rw [hrest] at ih
      rw [List.flatten_cons, ih, List.take_append_drop]

/-- A frame as it stands on the wire. -/
def prefixed (frame : List UInt8) : List UInt8 :=
  leBytes 4 (UInt32.ofNat frame.length).toNat ++ frame

theorem foldl_appendPrefixedFrame (batch : List (List UInt8))
    (out : List UInt8) :
    batch.foldl appendPrefixedFrame out = out ++ batch.flatMap prefixed := by
  induction batch generalizing out with
  | nil => simp
  | cons frame batch ih =>
      rw [List.foldl_cons, ih, List.flatMap_cons, appendPrefixedFrame, prefixed,
        List.append_assoc, List.append_assoc, List.append_assoc]

/-- The stream does not depend on the batches, nor on the cuts. -/
theorem writeBatches_eq (writes : Chunks) (batches : List (List (List UInt8)))
    (count : Nat) :
    writeBatches writes batches count = batches.flatten.flatMap prefixed := by
  induction batches generalizing count with
  | nil => rfl
  | cons batch batches ih =>
      simp only [writeBatches]
      rw [ih, flatten_writeBytes, foldl_appendPrefixedFrame, List.nil_append,
        List.flatten_cons, List.flatMap_append]

namespace OutboundConn

/-- What was posted has been taken, or is still queued. -/
theorem run_posted (word : List ConnEvent) {conn last : OutboundConn}
    (hrun : machine.runFrom conn word = some last) :
    last.batches.flatten ++ last.frames =
      conn.batches.flatten ++ conn.frames ++ posted word := by
  induction word generalizing conn with
  | nil =>
      obtain rfl := Option.some.inj hrun
      simp [posted]
  | cons event word ih =>
      rw [Machine.runFrom] at hrun
      cases event with
      | postFrame frame =>
          rw [ih hrun]
          simp [posted]
      | takeBatch =>
          cases hstep : conn.step .takeBatch with
          | none => simp [machine, hstep] at hrun
          | some next =>
              rw [show machine.step conn .takeBatch = some next from hstep]
                at hrun
              rw [ih hrun]
              simp only [step] at hstep
              split at hstep
              · split at hstep
                · rename_i hempty
                  obtain rfl := Option.some.inj hstep
                  simp [posted]
                · obtain rfl := Option.some.inj hstep
                  simp [posted]
              · cases hstep

end OutboundConn

/-- However the reads are cut, the loop gets what it wants. -/
theorem readLoop_eq (reads : Chunks) (want : Nat) (wire : Wire)
    (hwant : want ≤ wire.bytes.length) :
    ∃ count, readLoop reads want wire =
      some (wire.bytes.take want, ⟨wire.bytes.drop want, count⟩) := by
  fun_induction readLoop reads want wire with
  | case1 wire => exact ⟨wire.count, by simp⟩
  | case2 want wire hzero hempty => simp [hempty] at hwant; omega
  | case3 want wire hzero hbytes chunk ih =>
      have hchunk : chunk = wire.bytes.take chunk.length := by
        simp [chunk]
      have hlength : chunk.length ≤ want := by
        simp only [chunk, List.length_take]
        omega
      have hsplit : chunk.length + (want - chunk.length) = want :=
        Nat.add_sub_cancel' hlength
      obtain ⟨count, hrest⟩ := ih (by
        rw [List.length_drop]
        omega)
      refine ⟨count, ?_⟩
      rw [hrest, Option.map_some, List.drop_drop, hsplit, ← hsplit,
        List.take_add, ← hchunk, hsplit]

/-- What the loop returns is as long as it was told. -/
theorem readLoop_length {reads : Chunks} {want : Nat} {wire next : Wire}
    {bytes : List UInt8}
    (hread : readLoop reads want wire = some (bytes, next)) :
    bytes.length = want := by
  fun_induction readLoop reads want wire generalizing bytes with
  | case1 wire =>
      cases hread
      rfl
  | case2 want wire hzero hempty => cases hread
  | case3 want wire hzero hbytes chunk =>
      rename_i ih
      obtain ⟨⟨tail, wire'⟩, hrest, heq⟩ := Option.map_eq_some_iff.mp hread
      cases heq
      have hlength : chunk.length ≤ want := by
        simp only [chunk, List.length_take]
        omega
      rw [List.length_append, ih hrest]
      omega

/-- The lengths that `read_frame` lets through. -/
def LegalLength (frame : List UInt8) : Prop :=
  0 < frame.length ∧ frame.length ≤ kDefaultSize

theorem readFrame_prefixed (reads : Chunks) {frame : List UInt8}
    (rest : List UInt8) (count : Nat) (hframe : LegalLength frame) :
    ∃ last, readFrame reads ⟨prefixed frame ++ rest, count⟩ =
      (⟨true, frame⟩, ⟨rest, last⟩) := by
  obtain ⟨hpositive, hsize⟩ := hframe
  have hlength : (UInt32.ofNat frame.length).toNat = frame.length :=
    UInt32.toNat_ofNat_of_lt' (by
      simp only [kDefaultSize] at hsize
      simp only [UInt32.size]
      omega)
  obtain ⟨middle, hhead⟩ := readLoop_eq reads 4 ⟨prefixed frame ++ rest, count⟩
    (by simp [prefixed])
  obtain ⟨last, htail⟩ := readLoop_eq reads frame.length ⟨frame ++ rest, middle⟩
    (by simp)
  refine ⟨last, ?_⟩
  have htake : (prefixed frame ++ rest).take 4 =
      leBytes 4 (UInt32.ofNat frame.length).toNat := by
    rw [prefixed, List.append_assoc, List.take_left' (length_leBytes 4 _)]
  have hdrop : (prefixed frame ++ rest).drop 4 = frame ++ rest := by
    rw [prefixed, List.append_assoc, List.drop_left' (length_leBytes 4 _)]
  have hread : readLeU32 (leBytes 4 (UInt32.ofNat frame.length).toNat) =
      UInt32.ofNat frame.length := by
    have := readLeU32_leBytes (UInt32.ofNat frame.length).toNat []
    rwa [List.append_nil, UInt32.ofNat_toNat] at this
  have hzero : UInt32.ofNat frame.length ≠ 0 := by
    intro hzero
    rw [hzero] at hlength
    exact hpositive.ne hlength
  rw [readFrame, hhead]
  simp only [htake, hdrop, hread]
  rw [hlength, if_neg (by
    rintro (hempty | hlarge)
    · exact hzero hempty
    · exact Nat.not_lt.mpr hsize hlarge), htail]
  simp

/-- A frame that `read_frame` returns has a legal length. -/
theorem legal_of_readFrame {reads : Chunks} {wire next : Wire}
    {frame : List UInt8}
    (hread : readFrame reads wire = (⟨true, frame⟩, next)) :
    LegalLength frame := by
  unfold readFrame at hread
  split at hread
  · cases hread
  · simp only at hread
    split at hread
    · cases hread
    · rename_i lengthBytes _ _ hlegal
      split at hread
      · cases hread
      · rename_i hpayload
        cases hread
        have hlength := readLoop_length hpayload
        have hzero : (readLeU32 lengthBytes).toNat ≠ 0 := by
          intro hzero
          exact hlegal (.inl (UInt32.toNat_inj.mp hzero))
        refine ⟨by omega, ?_⟩
        rw [hlength]
        exact Nat.le_of_not_lt fun hlarge => hlegal (.inr hlarge)

theorem readFrames_prefixed (reads : Chunks) (frames : List (List UInt8))
    (count : Nat) (hframes : ∀ frame ∈ frames, LegalLength frame) :
    readFrames reads frames.length ⟨frames.flatMap prefixed, count⟩ =
      frames.map (⟨true, ·⟩) := by
  induction frames generalizing count with
  | nil => rfl
  | cons frame frames ih =>
      obtain ⟨last, hread⟩ := readFrame_prefixed reads
        (frames.flatMap prefixed) count (hframes frame List.mem_cons_self)
      simp only [List.length_cons, List.flatMap_cons, readFrames, hread,
        if_true, List.map_cons]
      rw [ih last fun other hother =>
        hframes other (List.mem_cons_of_mem frame hother)]

theorem legal_of_readFrames {reads : Chunks} {calls : Nat} {wire : Wire}
    {frame : List UInt8}
    (hread : ⟨true, frame⟩ ∈ readFrames reads calls wire) :
    LegalLength frame := by
  induction calls generalizing wire with
  | zero => cases hread
  | succ calls ih =>
      simp only [readFrames, List.mem_cons] at hread
      obtain hhead | htail := hread
      · exact legal_of_readFrame (Prod.ext hhead.symm rfl)
      · split at htail
        · exact ih htail
        · cases htail

/-- Whenever these frames were posted and taken, successive reads of the other
side return them, however they were batched and the writes and reads cut. -/
def Delivers (frames : List (List UInt8)) : Prop :=
  ∀ word conn, OutboundConn.machine.run word = some conn →
    posted word = frames → conn.frames = [] →
    ∀ writes reads : Chunks,
      readFrames reads frames.length ⟨writeBatches writes conn.batches 0, 0⟩ =
        frames.map (⟨true, ·⟩)

namespace OutboundConn

theorem runFrom_postFrame (frames : List (List UInt8)) (conn : OutboundConn)
    (hframes : frames ≠ []) :
    machine.runFrom conn (frames.map .postFrame) =
      some { conn with frames := conn.frames ++ frames, writing := true } := by
  induction frames generalizing conn with
  | nil => exact absurd rfl hframes
  | cons frame frames ih =>
      rw [List.map_cons, Machine.runFrom]
      simp only [machine, step]
      by_cases hlast : frames = []
      · subst hlast
        rfl
      · have := ih ⟨conn.frames ++ [frame], true, conn.batches⟩ hlast
        simp only [machine] at this
        rw [this, List.append_assoc, List.singleton_append]

/-- Everything can be posted first and taken in one batch. -/
theorem run_oneBatch (frames : List (List UInt8)) (hframes : frames ≠ []) :
    machine.run (frames.map .postFrame ++ [.takeBatch]) =
      some ⟨[], true, [frames]⟩ := by
  rw [Machine.run, Machine.runFrom_append, runFrom_postFrame frames _ hframes]
  simp [Machine.runFrom, machine, step, hframes]

theorem posted_oneBatch (frames : List (List UInt8)) :
    posted (frames.map .postFrame ++ [.takeBatch]) = frames := by
  induction frames with
  | nil => rfl
  | cons frame frames ih =>
      simp only [List.map_cons, List.cons_append]
      exact congrArg (frame :: ·) ih

end OutboundConn

/-- The frames of a connection are read back exactly if each has a length that
`read_frame` lets through. -/
theorem frames_read_back (frames : List (List UInt8)) :
    Delivers frames ↔
      ∀ frame ∈ frames, 0 < frame.length ∧ frame.length ≤ kDefaultSize := by
  constructor
  · intro hdelivers frame hframe
    have hread := hdelivers _ _
      (OutboundConn.run_oneBatch frames (List.ne_nil_of_mem hframe))
      (OutboundConn.posted_oneBatch frames) rfl (fun _ => 1) (fun _ => 1)
    apply legal_of_readFrames
    rw [hread]
    exact List.mem_map_of_mem hframe
  · intro hlegal word conn hrun hposted hempty writes reads
    have htaken := OutboundConn.run_posted word hrun
    rw [hempty, List.append_nil, hposted] at htaken
    rw [writeBatches_eq, htaken]
    exact readFrames_prefixed reads frames 0 hlegal

/-- `post_frame` takes a frame one byte longer than `read_frame` allows, and
the other side never gets it. -/
theorem longFrame_refused :
    ¬ Delivers [List.replicate (kDefaultSize + 1) 0] := by
  intro hdelivers
  have hread := hdelivers _ _ (OutboundConn.run_oneBatch _ (by simp))
    (OutboundConn.posted_oneBatch _) rfl (fun _ => 1) (fun _ => 1)
  have hlegal : LegalLength (List.replicate (kDefaultSize + 1) 0) := by
    apply legal_of_readFrames
    rw [hread]
    exact List.mem_singleton_self _
  have := hlegal.2
  rw [List.length_replicate] at this
  omega

end UltraNet
