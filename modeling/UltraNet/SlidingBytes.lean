/-
`SlidingBuffer` of the HTTP proxy with the vector under it, its capacity and the
arithmetic of `size_t`: it is a queue of bytes, whatever is compacted and when.
-/
import UltraNet.BulkQueue
import UltraNet.HttpForward

namespace UltraNet

/-- `max_size` of a vector of bytes. -/
def maxSize : Nat := 2 ^ 63 - 1

def sizeT (n : Nat) : Nat := n % 2 ^ 64

theorem sizeT_of_lt {n : Nat} (hlt : n < 2 ^ 64) : sizeT n = n := Nat.mod_eq_of_lt hlt

/-- `std::vector<uint8_t>`. -/
structure ByteVector where
  bytes : List UInt8
  capacity : Nat
  fits : bytes.length ≤ capacity
  addressable : capacity ≤ maxSize

namespace ByteVector

def empty : ByteVector := ⟨[], 0, Nat.le_refl 0, Nat.zero_le _⟩

def size (v : ByteVector) : Nat := v.bytes.length

theorem size_le (v : ByteVector) : v.size ≤ maxSize := v.fits.trans v.addressable

/-- `allocates` is whether new memory is to be had; `none` is an exception. -/
def reserve (v : ByteVector) (n : Nat) (allocates : Bool) : Option ByteVector :=
  if hlength : n ≤ maxSize then
    if hgrow : v.capacity < n then
      if allocates then some ⟨v.bytes, n, v.fits.trans (Nat.le_of_lt hgrow), hlength⟩
      else none
    else some v
  else none

def insertEnd (v : ByteVector) (items : List UInt8) (allocates : Bool) :
    Option ByteVector :=
  if hfits : v.size + items.length ≤ v.capacity then
    some ⟨v.bytes ++ items, v.capacity, by simpa [size] using hfits, v.addressable⟩
  else if hlength : v.size + items.length ≤ maxSize then
    if allocates then
      some ⟨v.bytes ++ items, min maxSize (v.size + max v.size items.length),
        by
          rw [List.length_append]
          change v.size + items.length ≤ _
          omega,
        Nat.min_le_left ..⟩
    else none
  else none

def eraseFront (v : ByteVector) (n : Nat) : ByteVector where
  bytes := v.bytes.drop n
  capacity := v.capacity
  fits := by
    rw [List.length_drop]
    exact (Nat.sub_le ..).trans v.fits
  addressable := v.addressable

def clear (v : ByteVector) : ByteVector := ⟨[], v.capacity, Nat.zero_le _, v.addressable⟩

theorem reserve_bytes {v grown : ByteVector} {n : Nat} {allocates : Bool}
    (h : v.reserve n allocates = some grown) : grown.bytes = v.bytes := by
  unfold reserve at h
  split at h
  · split at h
    · obtain ⟨-, hgrown⟩ := Option.ite_none_right_eq_some.mp h
      obtain rfl := Option.some.inj hgrown
      rfl
    · obtain rfl := Option.some.inj h
      rfl
  · exact nomatch h

theorem insertEnd_bytes {v grown : ByteVector} {items : List UInt8} {allocates : Bool}
    (h : v.insertEnd items allocates = some grown) : grown.bytes = v.bytes ++ items := by
  unfold insertEnd at h
  split at h
  · obtain rfl := Option.some.inj h
    rfl
  · split at h
    · obtain ⟨-, hgrown⟩ := Option.ite_none_right_eq_some.mp h
      obtain rfl := Option.some.inj hgrown
      rfl
    · exact nomatch h

end ByteVector

structure SlidingBytes where
  data : ByteVector
  offset : Nat

namespace SlidingBytes

def init : SlidingBytes := ⟨⟨[], 4096, Nat.zero_le _, by decide⟩, 0⟩

/-- The preallocation of `append`. -/
def grown (b : SlidingBytes) (len : Nat) (allocates : Bool) : Option ByteVector :=
  let needed := sizeT (b.data.size + len)
  if needed > b.data.capacity then
    let grow := sizeT (b.data.capacity + b.data.capacity / 2)
    let grow := if grow < 4096 then 4096 else grow
    b.data.reserve (if needed > grow then needed else grow) allocates
  else some b.data

def append (b : SlidingBytes) (bytes : List UInt8) (allocates : Bool) :
    Option SlidingBytes := do
  let data ← b.grown bytes.length allocates
  let data ← data.insertEnd bytes allocates
  some { b with data := data }

def remaining (b : SlidingBytes) : Nat := sizeT (b.data.size + 2 ^ 64 - b.offset)

/-- The bytes from `head()` of length `remaining()`. -/
def window (b : SlidingBytes) : List UInt8 :=
  (b.data.bytes.drop b.offset).take b.remaining

def consume (b : SlidingBytes) (n : Nat) : SlidingBytes :=
  let b := { b with offset := sizeT (b.offset + n) }
  if b.offset > b.data.size / 2 ∧ b.offset > sizeT (b.remaining * 4) then
    ⟨b.data.eraseFront b.offset, 0⟩
  else b

def reset (b : SlidingBytes) : SlidingBytes :=
  if b.data.capacity > 131072 then ⟨.empty, 0⟩ else ⟨b.data.clear, 0⟩

end SlidingBytes

/-- `appendThrows` is a call of `append` that ends with an exception. -/
inductive SlidingAct where
  | append (bytes : List UInt8)
  | appendThrows (bytes : List UInt8)
  | consume (n : Nat)
  | reset

/-- What the call does to a queue. -/
def SlidingAct.bulk : SlidingAct → BulkAct UInt8
  | .append bytes => .append bytes
  | .appendThrows _ => .append []
  | .consume n => .consume n
  | .reset => .reset

namespace SlidingBytes

def step (b : SlidingBytes) : SlidingAct → Option SlidingBytes
  | .append bytes => if bytes.length ≤ maxSize then b.append bytes true else none
  | .appendThrows bytes =>
      if bytes.length ≤ maxSize ∧ (b.append bytes false).isNone then some b else none
  | .consume n => if n ≤ b.remaining then some (b.consume n) else none
  | .reset => some b.reset

def machine : Machine SlidingBytes SlidingAct := ⟨init, step⟩

/-- The buffer without the capacity of its vector. -/
def toBuffer (b : SlidingBytes) : SlidingBuffer := ⟨b.data.bytes, b.offset⟩

variable {b b' : SlidingBytes}

theorem remaining_eq (hoffset : b.offset ≤ b.data.size) :
    b.remaining = b.toBuffer.remaining := by
  have hsize := b.data.size_le
  have hlt : b.data.size - b.offset < 2 ^ 64 := by
    unfold maxSize at hsize
    omega
  have hsub : b.data.size + 2 ^ 64 - b.offset = b.data.size - b.offset + 2 ^ 64 := by omega
  rw [remaining, hsub, sizeT, Nat.add_mod_right, Nat.mod_eq_of_lt hlt]
  rfl

theorem window_eq (hoffset : b.offset ≤ b.data.size) : b.window = b.toBuffer.head := by
  rw [window, remaining_eq hoffset, ← SlidingBuffer.length_head]
  exact List.take_length

theorem grown_bytes {len : Nat} {allocates : Bool} {data : ByteVector}
    (h : b.grown len allocates = some data) : data.bytes = b.data.bytes := by
  simp only [grown] at h
  split at h
  · exact ByteVector.reserve_bytes h
  · obtain rfl := Option.some.inj h
    rfl

theorem append_toBuffer {bytes : List UInt8} {allocates : Bool}
    (h : b.append bytes allocates = some b') : b'.toBuffer = b.toBuffer.append bytes := by
  obtain ⟨reserved, hreserved, h⟩ := Option.bind_eq_some_iff.mp h
  obtain ⟨data, hdata, h⟩ := Option.bind_eq_some_iff.mp h
  obtain rfl := Option.some.inj h
  have hbytes := ByteVector.insertEnd_bytes hdata
  rw [grown_bytes hreserved] at hbytes
  simp [toBuffer, SlidingBuffer.append, hbytes]

/-- The compaction moves the bytes that are left to the front. -/
theorem consume_cases (hoffset : b.offset ≤ b.data.size) {n : Nat} (hn : n ≤ b.remaining) :
    b.offset + n ≤ b.data.size ∧
      (b.consume n = ⟨b.data, b.offset + n⟩ ∨
        b.consume n = ⟨b.data.eraseFront (b.offset + n), 0⟩) := by
  rw [remaining_eq hoffset] at hn
  have hle : b.offset + n ≤ b.data.size := by
    change n ≤ b.data.size - b.offset at hn
    omega
  have hsum : sizeT (b.offset + n) = b.offset + n := by
    have hsize := b.data.size_le
    apply sizeT_of_lt
    unfold maxSize at hsize
    omega
  refine ⟨hle, ?_⟩
  simp only [consume, hsum]
  split
  · exact .inr rfl
  · exact .inl rfl

/-- Where four times the rest fits into a `size_t`, the compaction is the one that
the sessions of the proxy are modelled with. -/
theorem consume_toBuffer (hoffset : b.offset ≤ b.data.size) {n : Nat} (hn : n ≤ b.remaining)
    (hsmall : b.data.size < 2 ^ 62) : (b.consume n).toBuffer = b.toBuffer.consume n := by
  have hle := (consume_cases hoffset hn).1
  have hsum : sizeT (b.offset + n) = b.offset + n := sizeT_of_lt (by omega)
  have hrest : sizeT ((⟨b.data, b.offset + n⟩ : SlidingBytes).remaining * 4) =
      (b.data.size - (b.offset + n)) * 4 := by
    rw [remaining_eq hle]
    apply sizeT_of_lt
    change (b.data.size - (b.offset + n)) * 4 < 2 ^ 64
    omega
  by_cases hcompact : b.offset + n > b.data.size / 2 ∧
      b.offset + n > (b.data.size - (b.offset + n)) * 4
  · have hbytes : b.toBuffer.consume n = ⟨b.data.bytes.drop (b.offset + n), 0⟩ :=
      if_pos hcompact
    simp only [consume, hsum, hrest, if_pos hcompact, hbytes]
    rfl
  · have hbytes : b.toBuffer.consume n = ⟨b.data.bytes, b.offset + n⟩ := if_neg hcompact
    simp only [consume, hsum, hrest, if_neg hcompact, hbytes]
    rfl

theorem offset_consume (hoffset : b.offset ≤ b.data.size) {n : Nat} (hn : n ≤ b.remaining) :
    (b.consume n).offset ≤ (b.consume n).data.size := by
  obtain ⟨hle, hconsume | hconsume⟩ := consume_cases hoffset hn
  · rw [hconsume]
    exact hle
  · rw [hconsume]
    exact Nat.zero_le _

theorem head_consume (hoffset : b.offset ≤ b.data.size) {n : Nat} (hn : n ≤ b.remaining) :
    (b.consume n).toBuffer.head = b.toBuffer.head.drop n := by
  obtain ⟨-, hconsume | hconsume⟩ := consume_cases hoffset hn <;>
    simp [hconsume, toBuffer, SlidingBuffer.head, ByteVector.eraseFront]

theorem reset_toBuffer (b : SlidingBytes) : b.reset.toBuffer = .empty := by
  unfold reset
  split <;> rfl

/-- Each call does to the window what it does to a queue. -/
theorem step_bulk (hoffset : b.offset ≤ b.data.size) {act : SlidingAct}
    (hstep : b.step act = some b') :
    b'.offset ≤ b'.data.size ∧
      BulkQueue.step b.toBuffer.head act.bulk = some b'.toBuffer.head := by
  cases act with
  | append bytes =>
      obtain ⟨-, happend⟩ := Option.ite_none_right_eq_some.mp hstep
      have hbuffer := append_toBuffer happend
      constructor
      · have hlength : b'.data.size = b.data.size + bytes.length := by
          have hdata : b'.data.bytes = b.data.bytes ++ bytes := congrArg SlidingBuffer.data hbuffer
          rw [ByteVector.size, hdata, List.length_append]
          rfl
        have hsame : b'.offset = b.offset := congrArg SlidingBuffer.offset hbuffer
        rw [hlength, hsame]
        exact Nat.le_add_right_of_le hoffset
      · rw [hbuffer]
        exact congrArg some (SlidingBuffer.head_append hoffset bytes).symm
  | appendThrows bytes =>
      obtain ⟨-, hsame⟩ := Option.ite_none_right_eq_some.mp hstep
      obtain rfl := Option.some.inj hsame
      exact ⟨hoffset, by simp [SlidingAct.bulk, BulkQueue.step]⟩
  | consume n =>
      obtain ⟨hn, hnext⟩ := Option.ite_none_right_eq_some.mp hstep
      obtain rfl := Option.some.inj hnext
      refine ⟨offset_consume hoffset hn, ?_⟩
      rw [remaining_eq hoffset, ← SlidingBuffer.length_head] at hn
      simp only [SlidingAct.bulk, BulkQueue.step, if_pos hn]
      rw [SlidingBuffer.length_head, ← remaining_eq hoffset] at hn
      rw [head_consume hoffset hn]
  | reset =>
      obtain rfl := Option.some.inj hstep
      have hreset := reset_toBuffer b
      have hzero : b.reset.offset = 0 := congrArg SlidingBuffer.offset hreset
      constructor
      · rw [hzero]
        exact Nat.zero_le _
      · rw [hreset]
        rfl

/-- After any calls the window holds the bytes appended since the last reset,
less those consumed since. -/
theorem window_eq_drop (word : List SlidingAct) {last : SlidingBytes}
    (hrun : machine.run word = some last) :
    last.offset ≤ last.data.size ∧ last.window.length = last.remaining ∧
      BulkQueue.consumed (word.map SlidingAct.bulk) ≤
        (BulkQueue.appended (word.map SlidingAct.bulk)).length ∧
      last.window =
        (BulkQueue.appended (word.map SlidingAct.bulk)).drop
          (BulkQueue.consumed (word.map SlidingAct.bulk)) := by
  have hqueue : last.offset ≤ last.data.size ∧
      (BulkQueue.machine UInt8).run (word.map SlidingAct.bulk) = some last.toBuffer.head := by
    apply Machine.run_refines (I := fun b => b.offset ≤ b.data.size)
      (fun b => b.toBuffer.head) SlidingAct.bulk _ rfl _ word hrun
    · exact Nat.le_refl 0
    · intro b act b' hoffset hstep
      exact step_bulk hoffset hstep
  obtain ⟨hoffset, hbulk⟩ := hqueue
  rw [window_eq hoffset, remaining_eq hoffset, SlidingBuffer.length_head]
  exact ⟨hoffset, rfl, BulkQueue.run_eq_drop _ hbulk⟩

/-- Eight of nine bytes are compacted away, and a reset starts afresh. -/
theorem window_eq_drop_compacted :
    let word : List SlidingAct :=
      [.append [1, 2], .reset, .append [1, 2, 3, 4, 5, 6, 7, 8, 9], .consume 8,
        .append [10], .consume 1]
    ∃ last, machine.run word = some last ∧ last.offset = 1 ∧ last.data.bytes = [9, 10] ∧
      last.window = [10] ∧
      last.window = (BulkQueue.appended (word.map SlidingAct.bulk)).drop
        (BulkQueue.consumed (word.map SlidingAct.bulk)) := by
  intro word
  have hrun : machine.run word = some ⟨⟨[9, 10], 4096, by decide, by decide⟩, 1⟩ := rfl
  exact ⟨_, hrun, rfl, rfl, rfl, (window_eq_drop word hrun).2.2.2⟩

end SlidingBytes

end UltraNet
